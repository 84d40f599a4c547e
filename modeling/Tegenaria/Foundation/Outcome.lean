import Mathlib.Tactic.Basic
/-!
# Computations that may fail

The rules by which a computation with a result, or one with a fault, is taken apart.
-/

namespace Foundation.Outcome

variable {Fault Value Result : Type}

def require (holds : Bool) (fault : Fault) : Except Fault Unit := if holds then .ok () else .error fault

/-- The value of an operation that may have none. -/
def orFault (fault : Fault) : Option Value → Except Fault Value
  | some value => .ok value
  | none => .error fault

theorem bind_eq_ok {source : Except Fault Value} {rest : Value → Except Fault Result} {result : Result} :
    (source >>= rest) = .ok result ↔ ∃ value, source = .ok value ∧ rest value = .ok result := by
  cases source with
  | error fault => exact ⟨nofun, fun ⟨_, absurd, _⟩ => nomatch absurd⟩
  | ok value => exact ⟨fun done => ⟨value, rfl, done⟩, fun ⟨_, same, done⟩ => by cases same; exact done⟩

/-- A sequence fails where its first part fails, or behind it. -/
theorem bind_eq_error {source : Except Fault Value} {rest : Value → Except Fault Result} {fault : Fault} :
    (source >>= rest) = .error fault ↔
      source = .error fault ∨ ∃ value, source = .ok value ∧ rest value = .error fault := by
  cases source with
  | error other =>
      exact ⟨fun same => .inl (by cases same; rfl), fun failed => failed.elim (fun same => by cases same; rfl) nofun⟩
  | ok value =>
      refine ⟨fun failed => .inr ⟨value, rfl, failed⟩, ?_⟩
      rintro (absurd | ⟨other, same, failed⟩)
      · cases absurd
      · cases same
        exact failed

/-- A sequence has a result if its first part has one from which the rest goes on. -/
theorem bind_succeeds {source : Except Fault Value} {rest : Value → Except Fault Result} :
    (∃ result, (source >>= rest) = .ok result) ↔
      ∃ value, source = .ok value ∧ ∃ result, rest value = .ok result := by
  simp only [bind_eq_ok]
  exact ⟨fun ⟨result, value, first, done⟩ => ⟨value, first, result, done⟩,
    fun ⟨value, first, result, done⟩ => ⟨result, value, first, done⟩⟩

/-- A loop over a list fails in its first round that fails. -/
theorem foldlM_eq_error {round : Result → Value → Except Fault Result} {items : List Value} {start : Result}
    {fault : Fault} : items.foldlM round start = .error fault ↔
      ∃ before item after reached, items = before ++ item :: after ∧
        before.foldlM round start = .ok reached ∧ round reached item = .error fault := by
  induction items generalizing start with
  | nil =>
      refine iff_of_false nofun ?_
      rintro ⟨before, item, after, reached, split, -⟩
      cases before <;> cases split
  | cons first items ih =>
      rw [List.foldlM_cons, bind_eq_error]
      constructor
      · rintro (failed | ⟨next, done, failed⟩)
        · exact ⟨[], first, items, start, rfl, rfl, failed⟩
        · obtain ⟨before, item, after, reached, rfl, run, failed⟩ := ih.mp failed
          refine ⟨first :: before, item, after, reached, rfl, ?_, failed⟩
          rw [List.foldlM_cons, bind_eq_ok]
          exact ⟨next, done, run⟩
      · rintro ⟨before, item, after, reached, split, run, failed⟩
        cases before with
        | nil =>
            cases run
            cases split
            exact .inl failed
        | cons same before =>
            cases split
            rw [List.foldlM_cons, bind_eq_ok] at run
            obtain ⟨next, done, run⟩ := run
            exact .inr ⟨next, done, ih.mpr ⟨before, item, after, reached, rfl, run, failed⟩⟩

@[simp] theorem pure_eq_ok {value result : Value} :
    (pure value : Except Fault Value) = .ok result ↔ value = result :=
  ⟨fun same => by cases same; rfl, fun same => by cases same; rfl⟩

@[simp] theorem pure_ne_error {value : Value} {fault : Fault} :
    (pure value : Except Fault Value) ≠ .error fault := nofun

@[simp] theorem require_eq_ok {holds : Bool} {fault : Fault} {value : Unit} :
    require holds fault = .ok value ↔ holds = true := by
  cases holds <;> simp [require]

@[simp] theorem orFault_eq_ok {fault : Fault} {source : Option Value} {value : Value} :
    orFault fault source = .ok value ↔ source = some value := by
  cases source <;> simp [orFault]

end Foundation.Outcome
