import Mathlib.Data.List.Nodup
import Mathlib.Data.List.Perm.Subperm
import Tegenaria.Foundation.Transition
import Tegenaria.LibLock.RequestPool

/-!
# Slots of a request pool over its calls

The calls of a request pool one after the other, with timeouts.  Beside the table the
model keeps the requests that were pushed and not waited for yet.  As long as every
wait ends with a signal, the used slots are those of the listed requests; a wait that
gives up leaves its slot in use.
-/

namespace Tegenaria.LibLock

open Foundation

/-- The semaphores of a pool: `CreateSemaphore` is asked for a greatest count of one. -/
inductive Platform where
  | windows
  | posix

/-- `Semaphore::signal`: the count afterwards. -/
def Platform.signal : Platform → Nat → Nat
  | windows, _ => 1
  | posix, count => count + 1

/-- A call of the pool.  The result of the wait on the semaphore is chosen by the
system. -/
inductive PoolCall where
  | push (id : Int32) (inputData outputData : Pointer)
  | serve (id : Int32)
  | wait (id timeout : Int32) (waitRet : Int)

/-- The pool and the requests that were pushed and not waited for yet. -/
structure PoolCalls where
  pool : RequestPool
  pending : List Int32

namespace RequestPool

/-- `RequestPool::push`: the exit code and the pool. -/
def push (pool : RequestPool) (id : Int32) (inputData outputData : Pointer) : Int × RequestPool :=
  match pool.find id with
  | some _ => (-1, pool)
  | none =>
      match pool.findFree with
      | none => (-1, pool)
      | some slot => (0, pool.modify slot (·.assign id inputData outputData))

/-- `RequestPool::serve` -/
def serve (pool : RequestPool) (platform : Platform) (id : Int32) : Int × RequestPool :=
  match pool.find id with
  | none => (errWrongParameter, pool)
  | some slot =>
      (0, pool.modify slot fun request => { request with served := platform.signal request.served })

/-- A wait on the semaphore of a request can end with this result: it is signalled,
or the timeout is finite. -/
def canEnd (pool : RequestPool) (id timeout : Int32) (waitRet : Int) : Bool :=
  match pool.find id with
  | none => true
  | some slot => if waitRet = 0 then 0 < (pool.table slot).served else timeout ≠ -1

end RequestPool

namespace PoolCalls

def start (size : Nat) : PoolCalls where
  pool := .new size
  pending := []

/-- One call.  A request that was found has been waited for when the call returns,
with a signal or with the code of a timeout. -/
def step (platform : Platform) (state : PoolCalls) : PoolCall → Option PoolCalls
  | .push id inputData outputData =>
      let (exitCode, pool) := state.pool.push id inputData outputData
      some { pool, pending := if exitCode = 0 then id :: state.pending else state.pending }
  | .serve id => some { state with pool := (state.pool.serve platform id).2 }
  | .wait id timeout waitRet =>
      if state.pool.canEnd id timeout waitRet then
        let (exitCode, pool) := state.pool.wait id waitRet
        some { pool, pending :=
          if exitCode = errWrongParameter then state.pending else state.pending.erase id }
      else
        none

def machine (platform : Platform) : Machine PoolCalls PoolCall where
  step := step platform

/-- What a call owes to the requests: a wait that returns takes its request off the
table, there is room for a fresh id while fewer requests are pending than the table
has slots, and a serve touches no slot of another request. -/
def Releases (platform : Platform) (state : PoolCalls) : PoolCall → Prop
  | .push id inputData outputData =>
      id ≠ -1 → id ∉ state.pending → state.pending.length < state.pool.size →
        (state.pool.push id inputData outputData).1 = 0
  | .serve id => id ≠ -1 → ∀ slot, (state.pool.table slot).id ≠ id →
      (state.pool.serve platform id).2.table slot = state.pool.table slot
  | .wait id timeout waitRet => id ≠ -1 → state.pool.canEnd id timeout waitRet →
      (state.pool.wait id waitRet).1 ≠ errWrongParameter →
        (state.pool.wait id waitRet).2.find id = none

/-- A wait for a request that is in the table ends without a signal. -/
def GivesUp (state : PoolCalls) : PoolCall → Prop
  | .push .. | .serve _ => False
  | .wait id timeout waitRet => id ≠ -1 ∧ timeout ≠ -1 ∧ waitRet ≠ 0 ∧ state.pool.find id ≠ none

/-! ## One call -/

/-- The used slots carry distinct ids of pending requests. -/
structure Owned (state : PoolCalls) : Prop where
  distinct : ∀ first < state.pool.size, ∀ second < state.pool.size,
    (state.pool.table first).id = (state.pool.table second).id →
    (state.pool.table first).id ≠ -1 → first = second
  listed : ∀ slot < state.pool.size, (state.pool.table slot).id ≠ -1 →
    (state.pool.table slot).id ∈ state.pending

variable {platform : Platform} {state : PoolCalls}

theorem start_owned (size : Nat) : (start size).Owned where
  distinct _ _ _ _ _ used := absurd rfl used
  listed _ _ used := absurd rfl used

/-- While fewer requests are pending than the table has slots, one of them is free. -/
theorem Owned.free (owned : state.Owned) (room : state.pending.length < state.pool.size) :
    state.pool.findFree ≠ none := by
  intro full
  rw [RequestPool.findFree_none_iff] at full
  have nodup : ((List.range state.pool.size).map fun slot => (state.pool.table slot).id).Nodup := by
    refine List.Nodup.map_on ?_ List.nodup_range
    intro first firstIn second secondIn same
    rw [List.mem_range] at firstIn secondIn
    exact owned.distinct first firstIn second secondIn same (full first firstIn)
  have listed : ((List.range state.pool.size).map fun slot => (state.pool.table slot).id) ⊆
      state.pending := by
    intro id member
    obtain ⟨slot, slotIn, rfl⟩ := List.mem_map.mp member
    rw [List.mem_range] at slotIn
    exact owned.listed slot slotIn (full slot slotIn)
  have count := (List.subperm_of_subset nodup listed).length_le
  rw [List.length_map, List.length_range] at count
  omega

/-- One slot gets another id, which no other slot has. -/
theorem Owned.retag (owned : state.Owned) {next : PoolCalls} (slot : Nat) {id : Int32}
    (size : next.pool.size = state.pool.size)
    (ids : ∀ other, (next.pool.table other).id = if other = slot then id else (state.pool.table other).id)
    (fresh : id ≠ -1 → ∀ other < state.pool.size, other ≠ slot → (state.pool.table other).id ≠ id)
    (assigned : id ≠ -1 → id ∈ next.pending)
    (kept : ∀ other < state.pool.size, other ≠ slot → (state.pool.table other).id ≠ -1 →
      (state.pool.table other).id ∈ next.pending) : next.Owned where
  distinct := by
    intro first firstIn second secondIn same used
    rw [size] at firstIn secondIn
    rw [ids] at same used
    rw [ids] at same
    by_cases atFirst : first = slot
    · by_cases atSecond : second = slot
      · rw [atFirst, atSecond]
      · rw [if_pos atFirst] at same used
        rw [if_neg atSecond] at same
        exact absurd same.symm (fresh used second secondIn atSecond)
    · rw [if_neg atFirst] at same used
      by_cases atSecond : second = slot
      · rw [if_pos atSecond] at same
        exact absurd same (fresh (same ▸ used) first firstIn atFirst)
      · rw [if_neg atSecond] at same
        exact owned.distinct first firstIn second secondIn same used
  listed := by
    intro other otherIn used
    rw [size] at otherIn
    rw [ids] at used ⊢
    by_cases atSlot : other = slot
    · rw [if_pos atSlot] at used ⊢
      exact assigned used
    · rw [if_neg atSlot] at used ⊢
      exact kept other otherIn atSlot used

theorem push_owned (owned : state.Owned) (id : Int32) (inputData outputData : Pointer) :
    Owned { pool := (state.pool.push id inputData outputData).2
            pending := if (state.pool.push id inputData outputData).1 = 0 then id :: state.pending
              else state.pending } := by
  rw [RequestPool.push]
  split
  · exact owned
  · next absent =>
      rw [RequestPool.find_none_iff] at absent
      split
      · exact owned
      · next slot _ =>
          refine owned.retag slot rfl (fun other => ?_) (fun _ other otherIn _ => absent other otherIn)
            (fun _ => List.mem_cons_self) fun other otherIn _ used =>
              List.mem_cons_of_mem id (owned.listed other otherIn used)
          rw [RequestPool.modify_table]
          split
          · rfl
          · rfl

theorem serve_id (pool : RequestPool) (id : Int32) (slot : Nat) :
    ((pool.serve platform id).2.table slot).id = (pool.table slot).id := by
  rw [RequestPool.serve]
  split
  · rfl
  · rw [RequestPool.modify_table]
    split
    · next atSlot => rw [atSlot]
    · rfl

theorem serve_owned (owned : state.Owned) (id : Int32) :
    Owned { state with pool := (state.pool.serve platform id).2 } := by
  have size : (state.pool.serve platform id).2.size = state.pool.size := by
    rw [RequestPool.serve]
    split
    · rfl
    · rfl
  exact
    { distinct := by
        simp only [serve_id, size]
        exact owned.distinct
      listed := by
        simp only [serve_id, size]
        exact owned.listed }

/-- The slot of a request that ended with a signal is freed. -/
theorem wait_served {pool : RequestPool} {id : Int32} {slot : Nat} (found : pool.find id = some slot) :
    (pool.wait id 0).1 = 0 ∧ (pool.wait id 0).2.size = pool.size ∧
      ∀ other, ((pool.wait id 0).2.table other).id =
        if other = slot then -1 else (pool.table other).id := by
  simp only [RequestPool.wait, found, if_pos]
  refine ⟨trivial, rfl, fun other => ?_⟩
  rw [RequestPool.modify_table]
  split
  · rfl
  · next apart => rw [RequestPool.modify_table, if_neg apart]

/-- No other slot has the id of a pending request. -/
theorem Owned.other_id (owned : state.Owned) {id : Int32} {slot : Nat}
    (found : state.pool.find id = some slot) {other : Nat} (otherIn : other < state.pool.size)
    (apart : other ≠ slot) (used : (state.pool.table other).id ≠ -1) :
    (state.pool.table other).id ≠ id := by
  obtain ⟨slotIn, slotId⟩ := RequestPool.find_some found
  intro same
  exact apart (owned.distinct other otherIn slot slotIn (same.trans slotId.symm) used)

theorem unserved_code (waitRet : Int) :
    (if waitRet = -1 then errTimeout else errGeneric) ≠ errWrongParameter := by
  split
  · decide
  · decide

/-- A wait that does not give up keeps the owners. -/
theorem wait_owned (owned : state.Owned) {id timeout : Int32} {waitRet : Int}
    (ended : state.pool.canEnd id timeout waitRet = true)
    (patient : ¬ state.GivesUp (.wait id timeout waitRet)) :
    Owned { pool := (state.pool.wait id waitRet).2
            pending := if (state.pool.wait id waitRet).1 = errWrongParameter then state.pending
              else state.pending.erase id } := by
  cases found : state.pool.find id with
  | none =>
      simp only [RequestPool.wait, found]
      exact owned
  | some slot =>
      by_cases signalled : waitRet = 0
      · subst signalled
        obtain ⟨code, size, ids⟩ := wait_served found
        refine owned.retag slot size ids (fun used => absurd rfl used) (fun used => absurd rfl used)
          fun other otherIn apart used => ?_
        rw [code, if_neg (by decide)]
        exact (List.mem_erase_of_ne (owned.other_id found otherIn apart used)).mpr
          (owned.listed other otherIn used)
      · have finite : timeout ≠ -1 := by
          simpa [RequestPool.canEnd, found, signalled] using ended
        have unused : id = -1 := by
          by_contra ordinary
          exact patient ⟨ordinary, finite, signalled, by rw [found]; exact Option.some_ne_none slot⟩
        rw [RequestPool.wait_unserved found signalled]
        refine ⟨owned.distinct, fun other otherIn used => ?_⟩
        simp only [if_neg (unserved_code waitRet)]
        exact (List.mem_erase_of_ne (unused ▸ used)).mpr (owned.listed other otherIn used)

/-- Every call that does not give up keeps the owners. -/
theorem step_owned (owned : state.Owned) {call : PoolCall} {next : PoolCalls}
    (patient : ¬ state.GivesUp call) (stepped : step platform state call = some next) :
    next.Owned := by
  cases call with
  | push id inputData outputData =>
      cases stepped
      exact push_owned owned id inputData outputData
  | serve id =>
      cases stepped
      exact serve_owned owned id
  | wait id timeout waitRet =>
      rw [step] at stepped
      split at stepped
      · next ended =>
          cases stepped
          exact wait_owned owned ended patient
      · cases stepped

/-! ## What the calls owe to the requests -/

theorem push_releases (owned : state.Owned) (id : Int32) (inputData outputData : Pointer) :
    state.Releases platform (.push id inputData outputData) := by
  intro ordinary fresh room
  have absent : state.pool.find id = none := by
    rw [RequestPool.find_none_iff]
    intro slot slotIn same
    exact fresh (same ▸ owned.listed slot slotIn (same ▸ ordinary))
  cases free : state.pool.findFree with
  | none => exact absurd free (owned.free room)
  | some slot => simp only [RequestPool.push, absent, free]

/-- A request that is looked up by its id is the only one that is signalled. -/
theorem serve_releases (id : Int32) : state.Releases platform (.serve id) := by
  intro _ slot other
  rw [RequestPool.serve]
  split
  · rfl
  · next found =>
      rw [RequestPool.modify_table, if_neg]
      rintro rfl
      exact other (RequestPool.find_some found).2

/-- A wait takes its request off the table exactly when it does not give up. -/
theorem wait_releases_iff (owned : state.Owned) (id timeout : Int32) (waitRet : Int) :
    state.Releases platform (.wait id timeout waitRet) ↔
      ¬ state.GivesUp (.wait id timeout waitRet) := by
  constructor
  · rintro releases ⟨ordinary, finite, unserved, inTable⟩
    cases found : state.pool.find id with
    | none => exact inTable found
    | some slot =>
        have ended : state.pool.canEnd id timeout waitRet = true := by
          simp [RequestPool.canEnd, found, unserved, finite]
        have gone := releases ordinary ended
        rw [RequestPool.wait_unserved found unserved] at gone
        exact inTable (gone (unserved_code waitRet))
  · intro patient ordinary ended answered
    cases found : state.pool.find id with
    | none => exact absurd (by simp only [RequestPool.wait, found]) answered
    | some slot =>
        by_cases signalled : waitRet = 0
        · subst signalled
          obtain ⟨-, size, ids⟩ := wait_served found
          rw [RequestPool.find_none_iff, size]
          intro other otherIn
          rw [ids]
          split
          · exact ordinary.symm
          · next apart =>
              intro same
              exact owned.other_id found otherIn apart (same ▸ ordinary) same
        · have finite : timeout ≠ -1 := by
            simpa [RequestPool.canEnd, found, signalled] using ended
          exact absurd ⟨ordinary, finite, signalled, by rw [found]; exact Option.some_ne_none slot⟩
            patient

theorem releases_iff (owned : state.Owned) (call : PoolCall) :
    state.Releases platform call ↔ ¬ state.GivesUp call := by
  cases call with
  | push id inputData outputData =>
      exact ⟨fun _ givesUp => givesUp, fun _ => push_releases owned id inputData outputData⟩
  | serve id => exact ⟨fun _ givesUp => givesUp, fun _ => serve_releases id⟩
  | wait id timeout waitRet => exact wait_releases_iff owned id timeout waitRet

/-- Over a run of calls, every slot is released and reused as it should be exactly
when no wait for a request in the table gives up. -/
theorem run_releases_iff (platform : Platform) (size : Nat) (calls : List PoolCall) :
    (machine platform).AllSteps (Releases platform) (start size) calls ↔
      (machine platform).AllSteps (fun state call => ¬ state.GivesUp call) (start size) calls := by
  have agree : ∀ (state : PoolCalls) (call : PoolCall), state.Owned →
      (state.Releases platform call ↔ ¬ state.GivesUp call) :=
    fun _ call owned => releases_iff owned call
  have preserved : ∀ (state : PoolCalls) (call : PoolCall) (next : PoolCalls), state.Owned →
      ¬ state.GivesUp call → step platform state call = some next → next.Owned :=
    fun _ _ _ owned patient stepped => step_owned owned patient stepped
  exact Machine.allSteps_iff agree preserved (start_owned size) calls

/-- A pool of one slot: the wait for the first request times out, and the second
request finds no slot. -/
theorem timed_out_request_keeps_slot :
    ¬ (machine .windows).AllSteps (Releases .windows) (start 1)
      [.push 7 none none, .wait 7 200 (-1), .push 8 none none] := by
  rintro ⟨-, later⟩
  obtain ⟨released, -⟩ := later _ rfl
  exact absurd (released (by decide) (by decide) (by decide)) (by decide)

end PoolCalls

end Tegenaria.LibLock
