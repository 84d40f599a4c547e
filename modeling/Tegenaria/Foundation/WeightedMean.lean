import Mathlib.Algebra.BigOperators.Group.List.Basic
import Mathlib.Algebra.Order.BigOperators.Group.List
import Mathlib.Algebra.Order.Field.Basic
import Mathlib.Algebra.Order.Floor.Ring
import Mathlib.Algebra.BigOperators.Ring.List

/-!
# Weighted means

A term has a weight and a value.  The mean of values between 0 and 1 lies between 0 and 1,
and it does not fall if no value falls.  Two numbers are rounded down to the same integer
if no integer lies between them.
-/

namespace Foundation.WeightedMean

variable {α : Type} [Field α]

/-- The sums of a weighted mean, with one more term. -/
def addTerm (sums : α × α) (term : α × α) : α × α := (sums.1 + term.2 * term.1, sums.2 + term.1)

/-- The sum of the weights. -/
def weight (terms : List (α × α)) : α := (terms.map Prod.fst).sum

/-- The sum of the values, each taken with its weight. -/
def total (terms : List (α × α)) : α := (terms.map fun term => term.2 * term.1).sum

def mean (terms : List (α × α)) : α := total terms / weight terms

theorem foldl_addTerm (terms : List (α × α)) (sums : α × α) :
    terms.foldl addTerm sums = (sums.1 + total terms, sums.2 + weight terms) := by
  induction terms generalizing sums with
  | nil => simp [total, weight]
  | cons term rest ih =>
      rw [List.foldl_cons, ih, addTerm]
      simp [total, weight, add_assoc]

variable [LinearOrder α] {terms others : List (α × α)}

/-- Weights are positive and values lie between 0 and 1. -/
def Normal (terms : List (α × α)) : Prop := ∀ term ∈ terms, 0 < term.1 ∧ 0 ≤ term.2 ∧ term.2 ≤ 1

/-- The terms of the first list have the same weights as those of the second and no larger
values. -/
def Below (terms others : List (α × α)) : Prop :=
  List.Forall₂ (fun term other => term.1 = other.1 ∧ term.2 ≤ other.2) terms others

theorem Below.weight (below : Below terms others) : weight terms = weight others := by
  induction below with
  | nil => rfl
  | cons pair _ ih =>
      rw [WeightedMean.weight, WeightedMean.weight] at ih ⊢
      rw [List.map_cons, List.map_cons, List.sum_cons, List.sum_cons, pair.1, ih]

/-- Between two numbers with different integer parts lies an integer. -/
theorem floor_le_floor_iff [FloorRing α] {low high : α} :
    ⌊high⌋ ≤ ⌊low⌋ ↔ ¬∃ whole : ℤ, low < whole ∧ (whole : α) ≤ high := by
  constructor
  · rintro same ⟨whole, above, below⟩
    have atMost := (Int.le_floor.mpr below).trans same
    exact absurd (Int.le_floor.mp atMost) (not_le_of_gt above)
  · intro none
    by_contra less
    exact none ⟨⌊high⌋, Int.floor_lt.mp (not_le.mp less), Int.floor_le high⟩

variable [IsStrictOrderedRing α]

theorem weight_nonneg (normal : Normal terms) : 0 ≤ weight terms := by
  apply List.sum_nonneg
  intro weight member
  obtain ⟨term, listed, rfl⟩ := List.mem_map.mp member
  exact (normal term listed).1.le

theorem weight_pos (normal : Normal terms) (nonempty : terms ≠ []) : 0 < weight terms := by
  cases terms with
  | nil => exact absurd rfl nonempty
  | cons term rest =>
      have later : Normal rest := fun term member => normal term (List.mem_cons_of_mem _ member)
      rw [weight, List.map_cons, List.sum_cons]
      exact add_pos_of_pos_of_nonneg (normal term List.mem_cons_self).1 (weight_nonneg later)

theorem mean_nonneg (normal : Normal terms) : 0 ≤ mean terms := by
  refine div_nonneg (List.sum_nonneg ?_) (weight_nonneg normal)
  intro product member
  obtain ⟨term, listed, rfl⟩ := List.mem_map.mp member
  obtain ⟨positive, nonneg, _⟩ := normal term listed
  exact mul_nonneg nonneg positive.le

theorem mean_le_one (normal : Normal terms) : mean terms ≤ 1 := by
  refine div_le_one_of_le₀ (List.sum_le_sum ?_) (weight_nonneg normal)
  intro term listed
  obtain ⟨positive, _, small⟩ := normal term listed
  exact mul_le_of_le_one_left positive.le small

theorem Below.total (below : Below terms others) (normal : Normal terms) :
    total terms ≤ total others := by
  induction below with
  | nil => exact le_refl _
  | @cons term other rest later pair _ ih =>
      have termLe : term.2 * term.1 ≤ other.2 * other.1 := by
        rw [← pair.1]
        exact mul_le_mul_of_nonneg_right pair.2 (normal term List.mem_cons_self).1.le
      have restLe := ih fun term member => normal term (List.mem_cons_of_mem _ member)
      rw [WeightedMean.total, WeightedMean.total] at restLe ⊢
      rw [List.map_cons, List.map_cons, List.sum_cons, List.sum_cons]
      exact add_le_add termLe restLe

/-- The mean does not fall if no value falls. -/
theorem Below.mean (below : Below terms others) (normal : Normal terms) :
    mean terms ≤ mean others := by
  rw [WeightedMean.mean, WeightedMean.mean, ← below.weight]
  exact div_le_div_of_nonneg_right (below.total normal) (weight_nonneg normal)

/-- All weights are positive. -/
def Positive (terms : List (α × α)) : Prop := ∀ term ∈ terms, 0 < term.1

theorem Positive.weight_pos (positive : Positive terms) (nonempty : terms ≠ []) : 0 < weight terms := by
  refine List.sum_pos _ ?_ (mt List.map_eq_nil_iff.mp nonempty)
  intro weight member
  obtain ⟨term, listed, rfl⟩ := List.mem_map.mp member
  exact positive term listed

/-- A lower bound of the values is one of the mean. -/
theorem Positive.le_mean (positive : Positive terms) (nonempty : terms ≠ []) {low : α}
    (above : ∀ term ∈ terms, low ≤ term.2) : low ≤ WeightedMean.mean terms := by
  rw [WeightedMean.mean, le_div_iff₀ (positive.weight_pos nonempty), WeightedMean.weight,
    ← List.sum_map_mul_left, WeightedMean.total]
  refine List.sum_le_sum fun term listed => ?_
  exact mul_le_mul_of_nonneg_right (above term listed) (positive term listed).le

/-- An upper bound of the values is one of the mean. -/
theorem Positive.mean_le (positive : Positive terms) (nonempty : terms ≠ []) {high : α}
    (below : ∀ term ∈ terms, term.2 ≤ high) : WeightedMean.mean terms ≤ high := by
  rw [WeightedMean.mean, div_le_iff₀ (positive.weight_pos nonempty), WeightedMean.weight,
    ← List.sum_map_mul_left, WeightedMean.total]
  refine List.sum_le_sum fun term listed => ?_
  exact mul_le_mul_of_nonneg_right (below term listed) (positive term listed).le

end Foundation.WeightedMean
