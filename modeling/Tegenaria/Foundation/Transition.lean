import Mathlib.Algebra.BigOperators.Group.List.Basic
import Mathlib.Logic.Function.Basic
import Mathlib.Algebra.GroupWithZero.Nat

/-!
# Runs of deterministic labelled machines

A machine is a partial step function.  Every choice of a scheduler or of the
environment is part of the label, so a run is determined by its list of labels
and can be evaluated.  The module collects the rules by which a property of one
step becomes a property of every run, with or without a side condition that the
steps of the run are required to meet.
-/

namespace Foundation

universe u v

/-- A labelled machine; `step` is undefined where the label is not enabled. -/
structure Machine (State : Type u) (Label : Type v) where
  step : State → Label → Option State

namespace Machine

variable {State : Type u} {Label : Type v} (machine : Machine State Label)

/-- Execute a list of labels; the run is undefined as soon as one step is. -/
@[grind =] def run : State → List Label → Option State
  | state, [] => some state
  | state, label :: labels =>
      (machine.step state label).bind fun next => run next labels

/-- Every step that the run takes meets the side condition in the state in
which it is taken. -/
def AllSteps (condition : State → Label → Prop) : State → List Label → Prop
  | _, [] => True
  | state, label :: labels =>
      condition state label ∧
        ∀ next, machine.step state label = some next →
          AllSteps condition next labels

variable {machine} {condition : State → Label → Prop}

@[simp] theorem run_nil (state : State) : machine.run state [] = some state := rfl

@[simp] theorem allSteps_nil (state : State) :
    machine.AllSteps condition state [] := trivial

/-- Whether a list of labels keeps to a decidable side condition can be decided
by executing it. -/
instance decidableAllSteps [∀ state label, Decidable (condition state label)] :
    (state : State) → (labels : List Label) →
      Decidable (machine.AllSteps condition state labels)
  | _, [] => isTrue trivial
  | state, label :: labels =>
      match stepped : machine.step state label with
      | none =>
          decidable_of_iff (condition state label) <| by
            simp [AllSteps, stepped]
      | some next =>
          have := decidableAllSteps next labels
          decidable_of_iff
            (condition state label ∧ machine.AllSteps condition next labels) <| by
            simp [AllSteps, stepped]

/-- A nonempty run splits into its first step and the rest. -/
theorem run_cons_eq_some {state final : State} {label : Label}
    {labels : List Label} :
    machine.run state (label :: labels) = some final ↔
      ∃ next, machine.step state label = some next ∧
        machine.run next labels = some final := by
  simp only [run, Option.bind_eq_some_iff]

/-- Consecutive runs compose. -/
theorem run_append (state : State) (first second : List Label) :
    machine.run state (first ++ second) =
      (machine.run state first).bind fun next => machine.run next second := by
  induction first generalizing state with
  | nil => rfl
  | cons label labels ih =>
      simp only [List.cons_append, run]
      cases machine.step state label with
      | none => rfl
      | some next => exact ih next

/-- A run splits at every point of its label list. -/
theorem run_append_eq_some {state final : State} {first second : List Label} :
    machine.run state (first ++ second) = some final ↔
      ∃ middle, machine.run state first = some middle ∧
        machine.run middle second = some final := by
  rw [run_append, Option.bind_eq_some_iff]

/-- The side condition of a run covers each of its initial parts and, from the
state reached there, the remaining part. -/
theorem allSteps_append {state middle : State} {first second : List Label}
    (reached : machine.run state first = some middle)
    (all : machine.AllSteps condition state (first ++ second)) :
    machine.AllSteps condition state first ∧
      machine.AllSteps condition middle second := by
  induction first generalizing state with
  | nil =>
      cases reached
      exact ⟨trivial, all⟩
  | cons label labels ih =>
      obtain ⟨next, stepped, rest⟩ := Iff.mp run_cons_eq_some reached
      obtain ⟨held, later⟩ := all
      obtain ⟨left, right⟩ := ih rest (later next stepped)
      refine ⟨⟨held, fun other otherStep => ?_⟩, right⟩
      cases stepped.symm.trans otherStep
      exact left

/-- A property preserved by every step that meets the side condition holds at
the end of every run whose steps all meet it. -/
theorem run_invariant {property : State → Prop}
    (preserved : ∀ state label next, property state → condition state label →
      machine.step state label = some next → property next)
    {state final : State} {labels : List Label} (initial : property state)
    (all : machine.AllSteps condition state labels)
    (reached : machine.run state labels = some final) : property final := by
  induction labels generalizing state with
  | nil =>
      cases reached
      exact initial
  | cons label labels ih =>
      obtain ⟨next, stepped, rest⟩ := Iff.mp run_cons_eq_some reached
      exact ih (preserved state label next initial all.1 stepped)
        (all.2 next stepped) rest

/-- The first step of a run is enough for its condition, and for those of the rest. -/
theorem AllSteps.cons {state next : State} {label : Label} {labels : List Label}
    (held : condition state label) (stepped : machine.step state label = some next)
    (later : machine.AllSteps condition next labels) :
    machine.AllSteps condition state (label :: labels) := by
  refine ⟨held, fun other otherStep => ?_⟩
  cases stepped.symm.trans otherStep
  exact later

theorem allSteps_of_forall (always : ∀ state label, condition state label) (state : State)
    (labels : List Label) : machine.AllSteps condition state labels := by
  induction labels generalizing state with
  | nil => trivial
  | cons label labels ih => exact ⟨always state label, fun next _ => ih next⟩

theorem AllSteps.mono {weaker : State → Label → Prop}
    (implied : ∀ state label, condition state label → weaker state label) {state : State}
    {labels : List Label} (all : machine.AllSteps condition state labels) :
    machine.AllSteps weaker state labels := by
  induction labels generalizing state with
  | nil => trivial
  | cons label labels ih => exact ⟨implied state label all.1, fun next stepped => ih (all.2 next stepped)⟩

/-- Two side conditions that agree in the states of an invariant agree on runs, when the
second one makes a step keep the invariant. -/
theorem allSteps_iff {property : State → Prop} {other : State → Label → Prop}
    (agree : ∀ state label, property state → (condition state label ↔ other state label))
    (preserved : ∀ state label next, property state → other state label →
      machine.step state label = some next → property next)
    {state : State} (initial : property state) (labels : List Label) :
    machine.AllSteps condition state labels ↔ machine.AllSteps other state labels := by
  induction labels generalizing state with
  | nil => exact Iff.rfl
  | cons label labels ih =>
      have here := agree state label initial
      constructor
      · rintro ⟨held, later⟩
        exact ⟨here.mp held, fun next stepped =>
          (ih (preserved state label next initial (here.mp held) stepped)).mp (later next stepped)⟩
      · rintro ⟨held, later⟩
        exact ⟨here.mpr held, fun next stepped =>
          (ih (preserved state label next initial held stepped)).mpr (later next stepped)⟩

/-- A property preserved by every step holds at the end of every run. -/
theorem run_preserves {property : State → Prop}
    (preserved : ∀ state label next, property state → machine.step state label = some next →
      property next)
    {state final : State} {labels : List Label} (initial : property state)
    (reached : machine.run state labels = some final) : property final :=
  have always : machine.AllSteps (fun _ _ => True) state labels :=
    allSteps_of_forall (fun _ _ => trivial) state labels
  run_invariant (fun state label next held _ stepped => preserved state label next held stepped)
    initial always reached

/-- A property that is kept by the steps that meet a condition, and lost for good by the others, holds at
the end of a run exactly if all its steps meet the condition. -/
theorem holds_iff_allSteps {invariant property : State → Prop}
    (kept : ∀ state label next, invariant state → machine.step state label = some next → invariant next)
    (lost : ∀ state label next, invariant state → machine.step state label = some next →
      (property next ↔ property state ∧ condition state label))
    {state final : State} {labels : List Label} (initial : invariant state)
    (reached : machine.run state labels = some final) :
    property final ↔ property state ∧ machine.AllSteps condition state labels := by
  induction labels generalizing state with
  | nil =>
      cases reached
      exact (and_iff_left trivial).symm
  | cons label labels ih =>
      obtain ⟨next, stepped, rest⟩ := Iff.mp run_cons_eq_some reached
      rw [ih (kept state label next initial stepped) rest, lost state label next initial stepped, and_assoc]
      refine and_congr_right fun _ => ⟨fun ⟨held, later⟩ => .cons held stepped later, fun all => ?_⟩
      exact ⟨all.1, all.2 next stepped⟩

/-- If every step pays its cost out of a measure of the state, a run cannot cost
more than the measure it started with. -/
theorem run_cost_le {property : State → Prop} {measure : State → Nat}
    {cost : Label → Nat}
    (pays : ∀ state label next, property state → machine.step state label = some next →
      property next ∧ measure next + cost label ≤ measure state)
    {state final : State} {labels : List Label} (initial : property state)
    (reached : machine.run state labels = some final) :
    (labels.map cost).sum ≤ measure state := by
  induction labels generalizing state with
  | nil => exact Nat.zero_le _
  | cons label labels ih =>
      obtain ⟨next, stepped, rest⟩ := Iff.mp run_cons_eq_some reached
      obtain ⟨nextHolds, paid⟩ := pays state label next initial stepped
      have later := ih nextHolds rest
      rw [List.map_cons, List.sum_cons]
      omega

/-! ## Simulation -/

/-- The first list is the second one with some silent labels left out. -/
inductive Thinned (silent : Label → Prop) : List Label → List Label → Prop where
  | nil : Thinned silent [] []
  | keep {kept labels : List Label} (label : Label) (rest : Thinned silent kept labels) :
      Thinned silent (label :: kept) (label :: labels)
  | skip {kept labels : List Label} {label : Label} (unseen : silent label)
      (rest : Thinned silent kept labels) : Thinned silent kept (label :: labels)

universe w

/-- If the abstract machine follows every step under the same label, or does not
have to because the label is silent, then it follows every run. -/
theorem run_simulation {Abstract : Type w} {abstract : Machine Abstract Label}
    {related : State → Abstract → Prop} {silent : Label → Prop}
    (follow : ∀ state shadow label next, related state shadow →
      machine.step state label = some next →
        (∃ shadowNext, abstract.step shadow label = some shadowNext ∧
          related next shadowNext) ∨
        silent label ∧ related next shadow)
    {state final : State} {shadow : Abstract} {labels : List Label}
    (initial : related state shadow)
    (reached : machine.run state labels = some final) :
    ∃ kept shadowFinal, Thinned silent kept labels ∧
      abstract.run shadow kept = some shadowFinal ∧ related final shadowFinal := by
  induction labels generalizing state shadow with
  | nil =>
      cases reached
      exact ⟨[], shadow, .nil, rfl, initial⟩
  | cons label labels ih =>
      obtain ⟨next, stepped, rest⟩ := Iff.mp run_cons_eq_some reached
      rcases follow state shadow label next initial stepped with
        ⟨shadowNext, followed, nextRelated⟩ | ⟨unseen, nextRelated⟩
      · obtain ⟨kept, shadowFinal, thinned, ran, finalRelated⟩ := ih nextRelated rest
        exact ⟨label :: kept, shadowFinal, .keep label thinned,
          Iff.mpr run_cons_eq_some ⟨shadowNext, followed, ran⟩, finalRelated⟩
      · obtain ⟨kept, shadowFinal, thinned, ran, finalRelated⟩ := ih nextRelated rest
        exact ⟨kept, shadowFinal, .skip unseen thinned, ran, finalRelated⟩

end Machine

end Foundation
