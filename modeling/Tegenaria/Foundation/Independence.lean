import Tegenaria.Foundation.Transition

/-!
# Parts of a run

The labels of a run that concern one component are a run of this component, if all the others leave alone
what is seen of it.
-/

namespace Foundation.Machine

universe u v w

variable {State : Type u} {Label : Type v} {Component : Type w} {machine : Machine State Label}
  {component : Machine Component Label} {related : State → Component → Prop} {concerns : Label → Bool}

theorem run_restrict
    (follows : ∀ state part label next, related state part → concerns label →
      machine.step state label = some next →
        ∃ after, component.step part label = some after ∧ related next after)
    (unseen : ∀ state part label next, related state part → concerns label = false →
      machine.step state label = some next → related next part)
    {state final : State} {part : Component} {labels : List Label} (initial : related state part)
    (reached : machine.run state labels = some final) :
    ∃ last, component.run part (labels.filter concerns) = some last ∧ related final last := by
  induction labels generalizing state part with
  | nil =>
      cases reached
      exact ⟨part, rfl, initial⟩
  | cons label labels ih =>
      obtain ⟨next, stepped, rest⟩ := run_cons_eq_some.mp reached
      cases seen : concerns label with
      | true =>
          obtain ⟨after, followed, nextRelated⟩ := follows state part label next initial seen stepped
          obtain ⟨last, ran, lastRelated⟩ := ih nextRelated rest
          rw [List.filter_cons_of_pos seen]
          exact ⟨last, run_cons_eq_some.mpr ⟨after, followed, ran⟩, lastRelated⟩
      | false =>
          rw [List.filter_cons_of_neg (by rw [seen]; exact Bool.false_ne_true)]
          exact ih (unseen state part label next initial seen stepped) rest

end Foundation.Machine
