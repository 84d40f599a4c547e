import Mathlib.Logic.Basic

/-!
# Objects that answer calls

A responder changes its state on every call and answers it.  Two responders that
give equal answers in related states, and end in related states again, cannot be
told apart by any list of calls.
-/

namespace Foundation

universe u v w x

structure Responder (State : Type u) (Call : Type v) (Answer : Type w) where
  respond : State → Call → State × Answer

namespace Responder

variable {State : Type u} {Call : Type v} {Answer : Type w} (responder : Responder State Call Answer)

/-- The state after a list of calls, and the answers in order. -/
def run : State → List Call → State × List Answer
  | state, [] => (state, [])
  | state, call :: calls =>
      let (next, answer) := responder.respond state call
      let (final, answers) := run next calls
      (final, answer :: answers)

variable {responder}

@[simp] theorem run_nil (state : State) : responder.run state [] = (state, []) := rfl

@[simp] theorem run_cons (state : State) (call : Call) (calls : List Call) :
    responder.run state (call :: calls) =
      ((responder.run (responder.respond state call).1 calls).1,
        (responder.respond state call).2 ::
          (responder.run (responder.respond state call).1 calls).2) := rfl

/-- What every call preserves holds after all of them. -/
theorem run_invariant {property : State → Prop}
    (preserved : ∀ state call, property state → property (responder.respond state call).1)
    {state : State} (initial : property state) (calls : List Call) :
    property (responder.run state calls).1 := by
  induction calls generalizing state with
  | nil => exact initial
  | cons call calls ih => exact ih (preserved state call initial)

/-- Responders that answer alike in related states answer alike in every run. -/
theorem run_simulation {Abstract : Type x} {abstract : Responder Abstract Call Answer}
    {related : State → Abstract → Prop}
    (follow : ∀ state shadow call, related state shadow →
      related (responder.respond state call).1 (abstract.respond shadow call).1 ∧
        (responder.respond state call).2 = (abstract.respond shadow call).2)
    {state : State} {shadow : Abstract} (initial : related state shadow) (calls : List Call) :
    related (responder.run state calls).1 (abstract.run shadow calls).1 ∧
      (responder.run state calls).2 = (abstract.run shadow calls).2 := by
  induction calls generalizing state shadow with
  | nil => exact ⟨initial, rfl⟩
  | cons call calls ih =>
      obtain ⟨nextRelated, sameAnswer⟩ := follow state shadow call initial
      obtain ⟨finalRelated, sameAnswers⟩ := ih nextRelated
      refine ⟨finalRelated, ?_⟩
      rw [run_cons, run_cons, sameAnswer, sameAnswers]

end Responder

end Foundation
