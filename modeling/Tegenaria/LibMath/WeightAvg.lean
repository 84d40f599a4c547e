import Mathlib.Algebra.Order.Ring.Rat
import Mathlib.Data.Rat.BigOperators
import Mathlib.Tactic.Linarith
import Mathlib.Tactic.NormNum
import Mathlib.Tactic.Ring
import Tegenaria.Foundation.WeightedMean

/-!
# Weighted averages

`MathWeightAvg` keeps the two sums of a weighted mean in which every insertion
multiplies the older weights by `alfa`.  Doubles are taken as rational numbers.

An empty average has the lower sum 1 and not 0, so that it can be divided by.  The 1 is never
taken away again: it counts like a value 0 that was inserted before all others.
-/

namespace Tegenaria.LibMath

open Foundation.WeightedMean

structure MathWeightAvg where
  accTop : ℚ
  accBottom : ℚ
  alfa : ℚ
  deriving DecidableEq, Inhabited

namespace MathWeightAvg

def clear (average : MathWeightAvg) : MathWeightAvg :=
  { average with accTop := 0, accBottom := 1 }

/-- The constructor; `MATH_WEIGHT_AVG_DEFAULT_ALFA` is the default. -/
def create (alfa : ℚ := 9 / 10) : MathWeightAvg := clear { accTop := 0, accBottom := 0, alfa := alfa }

def insert (average : MathWeightAvg) (x : ℚ) : MathWeightAvg :=
  { average with
    accTop := average.accTop * average.alfa + x * average.alfa
    accBottom := average.accBottom * average.alfa + average.alfa }

def getValue (average : MathWeightAvg) : ℚ := average.accTop / average.accBottom

/-! ## The documented quotient -/

section Values

variable {average : MathWeightAvg} {alfa : ℚ} {values : List ℚ}

/-- The inserted values with their weights, from the oldest to the newest. -/
def weighted (alfa : ℚ) : List ℚ → List (ℚ × ℚ)
  | [] => []
  | x :: later => (alfa ^ (later.length + 1), x) :: weighted alfa later

def insertAll (average : MathWeightAvg) (values : List ℚ) : MathWeightAvg := values.foldl insert average

/-- What the class is for: after `clear`, the value is the documented quotient, it lies between the
bounds of the inserted values, and it is their common value when they are all the same. -/
structure Averages (average : MathWeightAvg) (values : List ℚ) : Prop where
  quotient : (insertAll average.clear values).getValue = mean (weighted average.alfa values)
  lower : ∀ low, (∀ x ∈ values, low ≤ x) → low ≤ (insertAll average.clear values).getValue
  upper : ∀ high, (∀ x ∈ values, x ≤ high) → (insertAll average.clear values).getValue ≤ high
  constant : ∀ c, (∀ x ∈ values, x = c) → (insertAll average.clear values).getValue = c

/-- What the insertions make of both sums. -/
theorem insertAll_sums (average : MathWeightAvg) (values : List ℚ) :
    insertAll average values =
      { average with
        accTop := average.accTop * average.alfa ^ values.length + total (weighted average.alfa values)
        accBottom :=
          average.accBottom * average.alfa ^ values.length + weight (weighted average.alfa values) } := by
  induction values generalizing average with
  | nil => simp [insertAll, weighted, total, weight]
  | cons x later ih =>
      have step : insertAll average (x :: later) = insertAll (average.insert x) later := rfl
      rw [step, ih]
      simp only [insert, weighted, total, weight, List.length_cons, List.map_cons, List.sum_cons,
        MathWeightAvg.mk.injEq, and_true]
      constructor
      · ring
      · ring

/-- The 1 that `clear` leaves below the line has the weight of the oldest value. -/
theorem getValue_insertAll (average : MathWeightAvg) (values : List ℚ) :
    (insertAll average.clear values).getValue =
      total (weighted average.alfa values) /
        (average.alfa ^ values.length + weight (weighted average.alfa values)) := by
  rw [insertAll_sums, getValue, clear, zero_mul, zero_add, one_mul]

theorem weighted_ne_nil (nonempty : values ≠ []) : weighted alfa values ≠ [] := by
  cases values with
  | nil => exact absurd rfl nonempty
  | cons x later => exact List.cons_ne_nil _ _

theorem weighted_positive (positive : 0 < alfa) (values : List ℚ) : Positive (weighted alfa values) := by
  induction values with
  | nil => exact fun term listed => absurd listed List.not_mem_nil
  | cons x later ih => exact List.forall_mem_cons.mpr ⟨pow_pos positive _, ih⟩

theorem value_mem_of_weighted {term : ℚ × ℚ} (listed : term ∈ weighted alfa values) : term.2 ∈ values := by
  induction values with
  | nil => cases listed
  | cons x later ih =>
      rcases List.mem_cons.mp listed with rfl | older
      · exact List.mem_cons_self
      · exact List.mem_cons_of_mem _ (ih older)

/-- The value is the quotient only if both are zero. -/
theorem getValue_eq_mean_iff (positive : 0 < average.alfa) (nonempty : values ≠ []) :
    (insertAll average.clear values).getValue = mean (weighted average.alfa values) ↔
      total (weighted average.alfa values) = 0 := by
  have below := (weighted_positive positive values).weight_pos (weighted_ne_nil nonempty)
  have extra : 0 < average.alfa ^ values.length := pow_pos positive _
  rw [getValue_insertAll, mean, div_eq_div_iff (add_pos extra below).ne' below.ne', mul_add]
  constructor
  · intro same
    have product : total (weighted average.alfa values) * average.alfa ^ values.length = 0 := by
      linarith
    exact (mul_eq_zero.mp product).resolve_right extra.ne'
  · intro zero
    rw [zero]
    ring

end Values

end MathWeightAvg

open MathWeightAvg in
/-- After `clear`, an average is the documented one exactly when the weighted values add up to
zero. -/
theorem mathWeightAvg_averages_iff {average : MathWeightAvg} {values : List ℚ}
    (positive : 0 < average.alfa) (nonempty : values ≠ []) :
    Averages average values ↔ total (weighted average.alfa values) = 0 := by
  rw [← getValue_eq_mean_iff positive nonempty]
  refine ⟨Averages.quotient, fun same => ?_⟩
  have weights := weighted_positive positive values
  have terms : weighted average.alfa values ≠ [] := weighted_ne_nil nonempty
  have lower : ∀ low, (∀ x ∈ values, low ≤ x) → low ≤ (insertAll average.clear values).getValue := by
    intro low above
    rw [same]
    exact weights.le_mean terms fun term listed => above term.2 (value_mem_of_weighted listed)
  have upper : ∀ high, (∀ x ∈ values, x ≤ high) → (insertAll average.clear values).getValue ≤ high := by
    intro high below
    rw [same]
    exact weights.mean_le terms fun term listed => below term.2 (value_mem_of_weighted listed)
  refine ⟨same, lower, upper, fun c all => le_antisymm ?_ ?_⟩
  · exact upper c fun x listed => (all x listed).le
  · exact lower c fun x listed => (all x listed).ge

open MathWeightAvg in
/-- Two values that cancel out. -/
theorem mathWeightAvg_balanced : Averages (create (1 / 2)) [2, -1] := by
  refine (mathWeightAvg_averages_iff ?_ (List.cons_ne_nil _ _)).mpr ?_
  · norm_num [create, clear]
  · norm_num [create, clear, weighted, total]

open MathWeightAvg in
/-- One value 1 gives half of it when `alfa` is 1. -/
theorem mathWeightAvg_half : (insertAll (create 1).clear [1]).getValue = 1 / 2 ∧
    ¬ Averages (create 1) [1] := by
  have half : (insertAll (create 1).clear [1]).getValue = 1 / 2 := by
    norm_num [insertAll, create, clear, MathWeightAvg.insert, getValue]
  refine ⟨half, fun averages => ?_⟩
  have one := averages.constant 1 fun x listed => List.mem_singleton.mp listed
  rw [half] at one
  norm_num at one

end Tegenaria.LibMath
