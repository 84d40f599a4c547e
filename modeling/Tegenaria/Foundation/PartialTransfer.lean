import Mathlib.Data.Nat.Find
import Tegenaria.Foundation.Loop

/-!
# Transfers in parts

A loop asks for a number of units.  Each call tells how many units it has moved, or that it has failed.
The calls and what they move are parameters: the results of the calls in a row, and the state after
a number of units.
-/

namespace Foundation.PartialTransfer

open Foundation.Loop

variable {State : Type}

/-- What is left to be moved, how many calls were made, and the state of the two ends. -/
structure Progress (State : Type) where
  remaining : Int
  calls : Nat
  state : State

/-- One call of the loop. -/
def step (results : Nat → Int) (move : State → Nat → Option State) (progress : Progress State) :
    Step (Progress State) (Int × State) :=
  if progress.remaining > 0 then
    let result := results progress.calls
    if result ≤ 0 then .done (-1, progress.state)
    else .goOn ((move progress.state result.toNat).map fun state =>
      ⟨progress.remaining - result, progress.calls + 1, state⟩)
  else .done (0, progress.state)

/-- The units moved by the first calls. -/
def transferred (results : Nat → Int) : Nat → Int
  | 0 => 0
  | calls + 1 => transferred results calls + results calls

/-- A call moves between one unit and all that is left. -/
def Partial (results : Nat → Int) (count : Int) (call : Nat) : Prop :=
  1 ≤ results call ∧ results call ≤ count - transferred results call

/-- The states after any number of units up to a limit. -/
def Moves (move : State → Nat → Option State) (after : Nat → State) (limit : Nat) : Prop :=
  ∀ count more, count + more ≤ limit → move (after count) more = some (after (count + more))

variable {results : Nat → Int} {move : State → Nat → Option State} {after : Nat → State} {count : Nat}
  {value : Int × State}

theorem le_transferred {calls : Nat} (each : ∀ call < calls, Partial results count call) :
    (calls : Int) ≤ transferred results calls := by
  induction calls with
  | zero => exact Int.le_refl 0
  | succ calls ih =>
      have before := ih fun call earlier => each call (Nat.lt_succ_of_lt earlier)
      have last := (each calls (Nat.lt_succ_self calls)).1
      rw [transferred]
      omega

theorem transferred_le {calls : Nat} (each : ∀ call < calls, Partial results count call) :
    transferred results calls ≤ count := by
  cases calls with
  | zero => exact Int.natCast_nonneg count
  | succ calls =>
      have last := (each calls (Nat.lt_succ_self calls)).2
      rw [transferred]
      omega

/-- After calls that each move a part, the loop goes on behind the units they have moved. -/
theorem returns_calls (moves : Moves move after count) {calls : Nat}
    (each : ∀ call < calls, Partial results count call) :
    Returns (step results move) ⟨count, 0, after 0⟩ value ↔
      Returns (step results move)
        ⟨count - transferred results calls, calls, after (transferred results calls).toNat⟩ value := by
  induction calls with
  | zero => rw [transferred, Int.sub_zero, Int.toNat_zero]
  | succ calls ih =>
      have earlier : ∀ call < calls, Partial results count call := fun call before =>
        each call (Nat.lt_succ_of_lt before)
      obtain ⟨lower, upper⟩ := each calls (Nat.lt_succ_self calls)
      have before := le_transferred earlier
      have left : count - transferred results calls > 0 := by omega
      have positive : ¬ results calls ≤ 0 := by omega
      have moved := moves (transferred results calls).toNat (results calls).toNat (by omega)
      have sum : (transferred results calls).toNat + (results calls).toNat =
          (transferred results (calls + 1)).toNat := by
        rw [transferred]
        omega
      have rest : count - transferred results calls - results calls =
          count - transferred results (calls + 1) := by
        rw [transferred]
        omega
      rw [ih earlier]
      refine returns_next ?_
      rw [step, if_pos left, if_neg positive, goOn_map moved, sum, rest]

/-- A call that fails ends the loop with what the calls before have moved. -/
theorem returns_failed (moves : Moves move after count) {calls : Nat}
    (each : ∀ call < calls, Partial results count call) (incomplete : transferred results calls < count)
    (failed : results calls ≤ 0) :
    Returns (step results move) ⟨count, 0, after 0⟩ (-1, after (transferred results calls).toNat) := by
  have left : count - transferred results calls > 0 := by omega
  rw [returns_calls moves each]
  refine (returns_done ?_).mpr rfl
  rw [step, if_pos left, if_pos failed]

/-- Calls that each move a part, as long as something is left, move everything. -/
theorem exists_complete (every : ∀ call, transferred results call < count → Partial results count call) :
    ∃ calls, (∀ call < calls, Partial results count call) ∧ transferred results calls = count := by
  have someComplete : ∃ calls, (count : Int) ≤ transferred results calls := by
    by_contra none
    have incomplete : ∀ call, transferred results call < count := fun call =>
      Int.not_le.mp fun complete => none ⟨call, complete⟩
    exact none ⟨count, le_transferred fun call _ => every call (incomplete call)⟩
  classical
  have each : ∀ call < Nat.find someComplete, Partial results count call := fun call earlier =>
    every call (Int.not_le.mp (Nat.find_min someComplete earlier))
  exact ⟨Nat.find someComplete, each, Int.le_antisymm (transferred_le each) (Nat.find_spec someComplete)⟩

theorem returns_complete (moves : Moves move after count)
    (every : ∀ call, transferred results call < count → Partial results count call) :
    Returns (step results move) ⟨count, 0, after 0⟩ (0, after count) := by
  obtain ⟨calls, each, complete⟩ := exists_complete every
  rw [returns_calls moves each, complete, Int.toNat_natCast]
  refine (returns_done ?_).mpr rfl
  rw [step, if_neg (by simp)]

end Foundation.PartialTransfer
