import Tegenaria.Foundation.Outcome
import Mathlib.Data.List.Forall2

/-!
# Loops that use their objects again

A loop works on its items one after the other and keeps its objects from round to round.  It is
compared with a computation that starts afresh for every item.  From a clean state a round adds what
the fresh computation gives, up to a relation, and it leaves a clean state unless the item spoils the
objects.  From a state that is not clean no round can be done.
-/

namespace Foundation.Reuse

open Foundation.Outcome

variable {State Item Fault Result : Type}

/-- What the rounds of a loop do, compared with a fresh start for every item. -/
structure Reuses (step : State → Item → Except Fault State) (fresh : Item → Except Fault (Option Result))
    (results : State → List Result) (related : Result → Result → Prop) (clean : State → Prop)
    (spoils : Item → Prop) (items : List Item) : Prop where
  forth : ∀ state, clean state → ∀ item ∈ items, (∃ added, fresh item = .ok added) →
    ∃ later, step state item = .ok later
  back : ∀ state, clean state → ∀ item ∈ items, ∀ later, step state item = .ok later →
    ∃ added new, fresh item = .ok added ∧ results later = results state ++ new ∧
      List.Forall₂ related new added.toList ∧ (clean later ↔ ¬ spoils item)
  blocked : ∀ state, ¬ clean state → ∀ item ∈ items, ∀ later, step state item ≠ .ok later

namespace Reuses

variable {step : State → Item → Except Fault State} {fresh : Item → Except Fault (Option Result)}
  {results : State → List Result} {related : Result → Result → Prop} {clean : State → Prop}
  {spoils : Item → Prop} {item : Item} {items : List Item} {state final : State}

theorem tail (reuses : Reuses step fresh results related clean spoils (item :: items)) :
    Reuses step fresh results related clean spoils items where
  forth state isClean other member := reuses.forth state isClean other (List.mem_cons_of_mem item member)
  back state isClean other member := reuses.back state isClean other (List.mem_cons_of_mem item member)
  blocked state spoilt other member := reuses.blocked state spoilt other (List.mem_cons_of_mem item member)

/-- From a state that is not clean the loop ends only if there is nothing left to do. -/
theorem blocked_run (reuses : Reuses step fresh results related clean spoils items) (spoilt : ¬ clean state)
    (ends : items.foldlM step state = .ok final) : items = [] := by
  cases items with
  | nil => rfl
  | cons item items =>
      rw [List.foldlM_cons, bind_eq_ok] at ends
      obtain ⟨later, done, -⟩ := ends
      exact absurd done (reuses.blocked state spoilt item List.mem_cons_self later)

/-- The loop comes to its end exactly if every item can be done afresh and only the last one spoils the
objects. -/
theorem succeeds_iff (reuses : Reuses step fresh results related clean spoils items) (isClean : clean state) :
    (∃ final, items.foldlM step state = .ok final) ↔
      (∀ item ∈ items, ∃ added, fresh item = .ok added) ∧ ∀ item ∈ items.dropLast, ¬ spoils item := by
  induction items generalizing state with
  | nil =>
      refine iff_of_true ⟨state, rfl⟩ ⟨fun item member => ?_, fun item member => ?_⟩
      · exact absurd member List.not_mem_nil
      · exact absurd member List.not_mem_nil
  | cons item items ih =>
      have here : item ∈ item :: items := List.mem_cons_self
      simp only [List.foldlM_cons, bind_eq_ok]
      constructor
      · rintro ⟨final, later, done, ends⟩
        obtain ⟨added, new, first, -, -, cleanIff⟩ := reuses.back state isClean item here later done
        by_cases spoilt : spoils item
        · have nothing := reuses.tail.blocked_run (mt cleanIff.mp (not_not.mpr spoilt)) ends
          subst nothing
          refine ⟨fun other member => ?_, fun other member => absurd member List.not_mem_nil⟩
          rw [List.mem_singleton.mp member]
          exact ⟨added, first⟩
        · obtain ⟨others, unspoilt⟩ := (ih reuses.tail (cleanIff.mpr spoilt)).mp ⟨final, ends⟩
          refine ⟨List.forall_mem_cons.mpr ⟨⟨added, first⟩, others⟩, fun other member => ?_⟩
          cases items with
          | nil => exact absurd member List.not_mem_nil
          | cons second items =>
              rw [List.dropLast_cons_cons, List.mem_cons] at member
              cases member with
              | inl same => exact same ▸ spoilt
              | inr rest => exact unspoilt other rest
      · rintro ⟨each, unspoilt⟩
        obtain ⟨later, done⟩ := reuses.forth state isClean item here (each item here)
        obtain ⟨added, new, first, -, -, cleanIff⟩ := reuses.back state isClean item here later done
        cases items with
        | nil => exact ⟨later, later, done, rfl⟩
        | cons second items =>
            rw [List.dropLast_cons_cons] at unspoilt
            have cleanLater := cleanIff.mpr (unspoilt item List.mem_cons_self)
            obtain ⟨final, ends⟩ := (ih reuses.tail cleanLater).mpr
              ⟨fun other member => each other (List.mem_cons_of_mem item member),
                fun other member => unspoilt other (List.mem_cons_of_mem item member)⟩
            exact ⟨final, later, done, ends⟩

/-- When the loop has come to its end, it has added what the items give afresh. -/
theorem results_of_run (reuses : Reuses step fresh results related clean spoils items) (isClean : clean state)
    (ends : items.foldlM step state = .ok final) :
    ∃ added new, items.mapM fresh = .ok added ∧ results final = results state ++ new ∧
      List.Forall₂ related new added.reduceOption := by
  induction items generalizing state with
  | nil =>
      cases ends
      exact ⟨[], [], rfl, (List.append_nil _).symm, .nil⟩
  | cons item items ih =>
      rw [List.foldlM_cons, bind_eq_ok] at ends
      obtain ⟨later, done, ends⟩ := ends
      obtain ⟨one, new, first, grown, relatedOne, cleanIff⟩ :=
        reuses.back state isClean item List.mem_cons_self later done
      have rest : ∃ added more, items.mapM fresh = .ok added ∧ results final = results later ++ more ∧
          List.Forall₂ related more added.reduceOption := by
        by_cases cleanLater : clean later
        · exact ih reuses.tail cleanLater ends
        · obtain rfl := reuses.tail.blocked_run cleanLater ends
          cases ends
          exact ⟨[], [], rfl, (List.append_nil _).symm, .nil⟩
      obtain ⟨added, more, others, ended, relatedRest⟩ := rest
      refine ⟨one :: added, new ++ more, ?mapped, ?grown, ?related⟩
      case mapped => simp only [List.mapM_cons, first, others, bind, Except.bind, pure, Except.pure]
      case grown => rw [ended, grown, List.append_assoc]
      case related =>
        have split : (one :: added).reduceOption = one.toList ++ added.reduceOption := by
          cases one with
          | none => rfl
          | some value => rfl
        rw [split]
        exact List.rel_append relatedOne relatedRest

end Reuses

end Foundation.Reuse
