import Mathlib.Data.List.Range
import Mathlib.Data.Nat.Find
import Mathlib.Order.Nat
import Tegenaria.Foundation.Loop

/-!
# Search by attempts

A search makes an attempt at one place after the other and stops at the first one that
succeeds or leaves its memory.
-/

namespace Foundation.Search

open Foundation.Loop

/-- The first of a number of places that has a property. -/
def firstPlace (good : Nat → Prop) [DecidablePred good] (places : Nat) : Option Nat :=
  (List.range places).find? fun place => good place

def FirstOf (stop : Nat → Prop) (place : Nat) : Prop := stop place ∧ ∀ earlier < place, ¬ stop earlier

section FirstPlace

variable {good : Nat → Prop} [DecidablePred good] {places place : Nat}

theorem firstPlace_eq_some :
    firstPlace good places = some place ↔ place < places ∧ FirstOf good place := by
  rw [firstPlace, List.find?_range_eq_some, FirstOf]
  simp only [decide_eq_true_eq, List.mem_range, Bool.not_eq_true', decide_eq_false_iff_not]
  tauto

theorem firstPlace_eq_none : firstPlace good places = none ↔ ∀ place < places, ¬ good place := by
  simp only [firstPlace, List.find?_eq_none, List.mem_range, decide_eq_true_eq]

end FirstPlace

section Search

variable {β : Type}

/-- The place of the first success, and what the attempt there found. -/
@[grind =] def search (attempt : Nat → Outcome (Option β)) : (count place : Nat) → Outcome (Option (Nat × β))
  | 0, _ => .returned none
  | count + 1, place =>
      match attempt place with
      | .returned none => search attempt count (place + 1)
      | stopped => stopped.map (Option.map fun found => (place, found))

/-- Where a search ends that finds something. -/
def placeOf : Outcome (Option (Nat × β)) → Outcome (Option Nat) := Outcome.map (Option.map Prod.fst)

variable {attempt : Nat → Outcome (Option β)} {count place : Nat}

theorem search_miss (misses : ∀ step < count, attempt (place + step) = .returned none) :
    search attempt count place = .returned none := by
  induction count generalizing place with
  | zero => rfl
  | succ count ih =>
      have first : attempt place = .returned none := misses 0 (by omega)
      rw [search, first]
      refine ih fun step inside => ?_
      rw [Nat.add_right_comm, Nat.add_assoc]
      exact misses (step + 1) (by omega)

theorem search_stop {step : Nat} (inside : step < count)
    (misses : ∀ earlier < step, attempt (place + earlier) = .returned none)
    (stops : attempt (place + step) ≠ .returned none) :
    search attempt count place =
      (attempt (place + step)).map (Option.map fun found => (place + step, found)) := by
  induction step generalizing count place with
  | zero =>
      obtain ⟨count, rfl⟩ := Nat.exists_eq_succ_of_ne_zero (Nat.ne_zero_of_lt inside)
      rw [Nat.add_zero] at stops ⊢
      rw [search]
      split
      · next miss => exact absurd miss stops
      · rfl
  | succ step ih =>
      obtain ⟨count, rfl⟩ := Nat.exists_eq_succ_of_ne_zero (Nat.ne_zero_of_lt inside)
      have first : attempt place = .returned none := misses 0 (by omega)
      have place_succ : ∀ other, place + 1 + other = place + (other + 1) := by omega
      rw [search, first, ← place_succ step]
      refine ih (Nat.lt_of_succ_lt_succ inside) (fun earlier before => ?_) (by rwa [place_succ])
      rw [place_succ]
      exact misses (earlier + 1) (Nat.succ_lt_succ before)

variable {stop : Nat → Prop}

/-- A search that does not stop at all finds nothing; otherwise its first stop decides. -/
theorem search_cases (attempt : Nat → Outcome (Option β)) (count : Nat) :
    ((∀ place < count, attempt place = .returned none) ∧ search attempt count 0 = .returned none) ∨
      ∃ place < count, FirstOf (fun place => attempt place ≠ .returned none) place ∧
        search attempt count 0 =
          (attempt place).map (Option.map fun found => (place, found)) := by
  classical
  by_cases misses : ∀ place < count, attempt place = .returned none
  · refine .inl ⟨misses, search_miss fun step inside => ?_⟩
    rw [Nat.zero_add]
    exact misses step inside
  · have stops : ∃ place, place < count ∧ attempt place ≠ .returned none := by
      simpa only [not_forall, exists_prop] using misses
    obtain ⟨inside, first⟩ := Nat.find_spec stops
    have earlier : ∀ place < Nat.find stops, attempt place = .returned none := by
      intro place before
      by_contra stopped
      exact Nat.find_min stops before ⟨by omega, stopped⟩
    refine .inr ⟨Nat.find stops, inside, ⟨first, fun place before => by simp [earlier place before]⟩, ?_⟩
    have result := @search_stop β attempt count 0 (Nat.find stops) inside
    simp only [Nat.zero_add] at result
    exact result earlier first

theorem firstOf_congr {other : Nat → Prop} (same : ∀ place < count, stop place ↔ other place)
    (inside : place < count) : FirstOf stop place ↔ FirstOf other place := by
  rw [FirstOf, FirstOf, same place inside]
  exact and_congr_right fun _ => forall₂_congr fun earlier before =>
    not_congr (same earlier (by omega))

/-- There is at most one first place. -/
theorem forall_firstOf_iff {good : Nat → Prop} (inside : place < count) (first : FirstOf stop place) :
    (∀ other < count, FirstOf stop other → good other) ↔ good place := by
  constructor
  · exact fun all => all place inside first
  · intro isGood other _ otherFirst
    rcases Nat.lt_trichotomy other place with before | rfl | behind
    · exact absurd otherFirst.1 (first.2 other before)
    · exact isGood
    · exact absurd first.1 (otherFirst.2 place behind)

/-- A search finds the first good place exactly if its first stop is a good place. -/
theorem search_eq_firstPlace_iff {good : Nat → Prop} [DecidablePred good]
    (stops : ∀ place < count, attempt place ≠ .returned none ↔ stop place)
    (hits : ∀ place < count, good place → ∃ found, attempt place = .returned (some found)) :
    placeOf (search attempt count 0) = .returned (firstPlace good count) ↔
      ∀ place < count, FirstOf stop place → good place := by
  have bad : ∀ place < count, attempt place = .returned none → ¬ good place := by
    intro place inside miss isGood
    obtain ⟨found, hit⟩ := hits place inside isGood
    simp [hit] at miss
  rcases search_cases attempt count with ⟨misses, result⟩ | ⟨place, inside, first, result⟩
  · rw [result, firstPlace_eq_none.mpr fun place inside => bad place inside (misses place inside)]
    refine iff_of_true rfl fun place inside firstStop => ?_
    exact absurd (misses place inside) ((stops place inside).mpr firstStop.1)
  · rw [forall_firstOf_iff inside ((firstOf_congr stops inside).mp first), result]
    constructor
    · intro same
      cases stopped : attempt place with
      | returned found =>
          cases found with
          | none => exact absurd stopped first.1
          | some found =>
              simp only [stopped, placeOf, Outcome.map, Option.map_some, Outcome.returned.injEq] at same
              exact (firstPlace_eq_some.mp same.symm).2.1
      | running => simp [stopped, placeOf, Outcome.map] at same
      | outside => simp [stopped, placeOf, Outcome.map] at same
    · intro isGood
      obtain ⟨found, hit⟩ := hits place inside isGood
      have firstGood : firstPlace good count = some place := by
        refine firstPlace_eq_some.mpr ⟨inside, isGood, fun earlier before => ?_⟩
        exact bad earlier (by omega) (by simpa using first.2 earlier before)
      rw [hit, firstGood]
      rfl

/-- A search returns exactly if its first stop is a success. -/
theorem search_returns_iff
    (stops : ∀ place < count, attempt place ≠ .returned none ↔ stop place) :
    (∃ result, search attempt count 0 = .returned result) ↔
      ∀ place < count, FirstOf stop place → ∃ found, attempt place = .returned (some found) := by
  rcases search_cases attempt count with ⟨misses, result⟩ | ⟨place, inside, first, result⟩
  · refine iff_of_true ⟨none, result⟩ fun place inside firstStop => ?_
    exact absurd (misses place inside) ((stops place inside).mpr firstStop.1)
  · rw [forall_firstOf_iff inside ((firstOf_congr stops inside).mp first), result]
    cases stopped : attempt place with
    | returned found =>
        cases found with
        | none => exact absurd stopped first.1
        | some found => exact iff_of_true ⟨_, rfl⟩ ⟨found, rfl⟩
    | running => simp [Outcome.map]
    | outside => simp [Outcome.map]

end Search

end Foundation.Search
