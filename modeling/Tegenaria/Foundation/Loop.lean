import Mathlib.Data.Nat.Basic

/-!
# Loops over memory

A step of a loop goes on, returns, or touches memory that it must not touch.  Runs are
executed with fuel; a loop returns a value if some fuel is enough for it.
-/

namespace Foundation.Loop

inductive Step (σ α : Type) where
  | next (state : σ)
  | done (value : α)
  | outside

/-- Go on in a state, unless there is none. -/
def Step.goOn {σ α : Type} : Option σ → Step σ α
  | some state => .next state
  | none => .outside

inductive Outcome (α : Type) where
  | returned (value : α)
  | running
  | outside
deriving DecidableEq

def Outcome.map {α β : Type} (f : α → β) : Outcome α → Outcome β
  | .returned value => .returned (f value)
  | .running => .running
  | .outside => .outside

theorem Outcome.map_eq_returned {α β : Type} {outcome : Outcome α} {f : α → β} {result : β} :
    outcome.map f = .returned result ↔ ∃ value, outcome = .returned value ∧ f value = result := by
  cases outcome with
  | returned value => simp [map]
  | running => simp [map]
  | outside => simp [map]

theorem Outcome.returned_map_iff {α β : Type} {outcome : Outcome α} (f : α → β) :
    (∃ value, outcome.map f = .returned value) ↔ ∃ value, outcome = .returned value := by
  simp only [map_eq_returned]
  constructor
  · exact fun ⟨_, value, same, _⟩ => ⟨value, same⟩
  · exact fun ⟨value, same⟩ => ⟨f value, value, same, rfl⟩

variable {σ α : Type} {step : σ → Step σ α} {state later : σ} {value other : α}

@[grind =] def run (step : σ → Step σ α) : Nat → σ → Outcome α
  | 0, _ => .running
  | fuel + 1, state =>
      match step state with
      | .next later => run step fuel later
      | .done value => .returned value
      | .outside => .outside

/-- The loop ends in the given state with a value, inside of its memory. -/
def Returns (step : σ → Step σ α) (state : σ) (value : α) : Prop :=
  ∃ fuel, run step fuel state = .returned value

def Ends (step : σ → Step σ α) (state : σ) : Prop := ∃ value, Returns step state value

theorem not_running {fuel : Nat} (returned : run step fuel state = .returned value) :
    ∃ less, fuel = less + 1 := by
  cases fuel with
  | zero => simp [run] at returned
  | succ less => exact ⟨less, rfl⟩

theorem returns_next (goes : step state = .next later) :
    Returns step state value ↔ Returns step later value := by
  constructor
  · rintro ⟨fuel, returned⟩
    obtain ⟨less, rfl⟩ := not_running returned
    exact ⟨less, by simpa only [run, goes] using returned⟩
  · rintro ⟨fuel, returned⟩
    exact ⟨fuel + 1, by simpa only [run, goes] using returned⟩

theorem returns_done (ends : step state = .done other) :
    Returns step state value ↔ value = other := by
  constructor
  · rintro ⟨fuel, returned⟩
    obtain ⟨less, rfl⟩ := not_running returned
    simp only [run, ends, Outcome.returned.injEq] at returned
    exact returned.symm
  · rintro rfl
    exact ⟨1, by simp only [run, ends]⟩

theorem not_returns_outside (leaves : step state = .outside) : ¬ Returns step state value := by
  rintro ⟨fuel, returned⟩
  obtain ⟨less, rfl⟩ := not_running returned
  simp only [run, leaves, reduceCtorEq] at returned

theorem Returns.unique (first : Returns step state value) (second : Returns step state other) :
    value = other := by
  obtain ⟨fuel, returned⟩ := first
  induction fuel generalizing state with
  | zero => simp [run] at returned
  | succ fuel ih =>
      cases result : step state with
      | next later =>
          exact ih ((returns_next result).mp second) (by simpa only [run, result] using returned)
      | done last =>
          rw [(returns_done result).mp second]
          simpa only [run, result, Outcome.returned.injEq, eq_comm] using returned
      | outside => exact absurd second (not_returns_outside result)

theorem ends_next (goes : step state = .next later) : Ends step state ↔ Ends step later :=
  exists_congr fun _ => returns_next goes

theorem ends_done (ends : step state = .done value) : Ends step state :=
  ⟨value, (returns_done ends).mpr rfl⟩

theorem not_ends_outside (leaves : step state = .outside) : ¬ Ends step state :=
  fun ⟨_, returns⟩ => not_returns_outside leaves returns

theorem goOn_map {β : Type} {place : Option β} {found : β} (lands : place = some found) (go : β → σ) :
    (Step.goOn (place.map go) : Step σ α) = .next (go found) := by
  rw [lands]
  rfl

theorem goOn_none {β : Type} {place : Option β} (leaves : place = none) (go : β → σ) :
    (Step.goOn (place.map go) : Step σ α) = .outside := by
  rw [leaves]
  rfl

theorem goOn_eq_next {place : Option σ} : (Step.goOn place : Step σ α) = .next later ↔ place = some later := by
  cases place with
  | none => simp [Step.goOn]
  | some found => simp [Step.goOn]

theorem goOn_ne_done {place : Option σ} : (Step.goOn place : Step σ α) ≠ .done value := by
  cases place with
  | none => simp [Step.goOn]
  | some found => simp [Step.goOn]

/-- What holds at the begin and is kept by each step holds when the loop returns. -/
theorem Returns.post {invariant : σ → Prop} {good : α → Prop}
    (keeps : ∀ state later, invariant state → step state = .next later → invariant later)
    (ends : ∀ state value, invariant state → step state = .done value → good value)
    (returns : Returns step state value) (start : invariant state) : good value := by
  obtain ⟨fuel, returned⟩ := returns
  induction fuel generalizing state with
  | zero => simp [run] at returned
  | succ fuel ih =>
      cases result : step state with
      | next later =>
          exact ih (keeps _ _ start result) (by simpa only [run, result] using returned)
      | done last =>
          simp only [run, result, Outcome.returned.injEq] at returned
          exact returned ▸ ends _ _ start result
      | outside => simp [run, result] at returned

/-- A loop that can always take one more step, or leaves its memory, does not end. -/
theorem not_ends_of_invariant {invariant : σ → Prop}
    (keeps : ∀ state, invariant state →
      step state = .outside ∨ ∃ later, step state = .next later ∧ invariant later)
    (start : invariant state) : ¬ Ends step state := by
  rintro ⟨value, fuel, returned⟩
  induction fuel generalizing state with
  | zero => simp [run] at returned
  | succ fuel ih =>
      rcases keeps state start with leaves | ⟨later, goes, kept⟩
      · exact not_returns_outside leaves ⟨_, returned⟩
      · exact ih kept (by simpa only [run, goes] using returned)

/-- A loop whose steps decrease a measure ends. -/
theorem ends_of_measure {invariant : σ → Prop} (measure : σ → Nat)
    (steps : ∀ state, invariant state → (∃ value, step state = .done value) ∨
      ∃ later, step state = .next later ∧ invariant later ∧ measure later < measure state)
    (start : invariant state) : Ends step state := by
  induction bound : measure state using Nat.strong_induction_on generalizing state with
  | _ size ih =>
      rcases steps state start with ⟨value, ends⟩ | ⟨later, goes, kept, less⟩
      · exact ends_done ends
      · exact (ends_next goes).mpr (ih _ (bound ▸ less) kept rfl)

end Foundation.Loop
