import Mathlib.Data.List.Range
import Mathlib.Logic.Function.Basic

/-!
# The table of pending requests

`RequestPool` keeps a fixed table of request slots.  A slot is free when its id
is `-1`.  The semaphore of a slot is created once, together with the pool, and
survives all requests that use the slot.

This module contains the table and the two scans over it.  Threads that push,
serve and wait for requests are modelled in `LibLock.PoolThreads`.
-/

namespace Tegenaria.LibLock

/-- `ERR_WRONG_PARAMETER` -/
def errWrongParameter : Int := 4

/-- `ERR_TIMEOUT` -/
def errTimeout : Int := 6

/-- `ERR_GENERIC` -/
def errGeneric : Int := 999

/-- Address of data that a request points to; `none` is `NULL`. -/
abbrev Pointer := Option Nat

/-- One slot of the table.  `served` is the count of its semaphore. -/
structure Request where
  id : Int32
  inputData : Pointer
  outputData : Pointer
  served : Nat
  deriving DecidableEq

namespace Request

/-- `Request::serve`: signal the semaphore of the slot. -/
def serve (request : Request) : Request :=
  { request with served := request.served + 1 }

/-- The assignment at the end of `RequestPool::push`. -/
def assign (request : Request) (id : Int32) (inputData outputData : Pointer) :
    Request :=
  { request with id, inputData, outputData }

/-- A successful wait on the semaphore. -/
def acquire (request : Request) : Request :=
  { request with served := request.served - 1 }

/-- The end of `RequestPool::wait`, which marks the slot as unused. -/
def release (request : Request) : Request :=
  { request with id := -1, inputData := none, outputData := none }

@[simp, grind =] theorem serve_id (request : Request) : request.serve.id = request.id := rfl

@[simp, grind =] theorem serve_served (request : Request) :
    request.serve.served = request.served + 1 := rfl

@[simp] theorem serve_outputData (request : Request) :
    request.serve.outputData = request.outputData := rfl

@[simp, grind =] theorem assign_id (request : Request) (id : Int32)
    (inputData outputData : Pointer) :
    (request.assign id inputData outputData).id = id := rfl

@[simp, grind =] theorem assign_served (request : Request) (id : Int32)
    (inputData outputData : Pointer) :
    (request.assign id inputData outputData).served = request.served := rfl

@[simp] theorem assign_outputData (request : Request) (id : Int32)
    (inputData outputData : Pointer) :
    (request.assign id inputData outputData).outputData = outputData := rfl

@[simp, grind =] theorem acquire_id (request : Request) :
    request.acquire.id = request.id := rfl

@[simp, grind =] theorem acquire_served (request : Request) :
    request.acquire.served = request.served - 1 := rfl

@[simp] theorem acquire_outputData (request : Request) :
    request.acquire.outputData = request.outputData := rfl

@[simp, grind =] theorem release_id (request : Request) : request.release.id = -1 := rfl

@[simp, grind =] theorem release_served (request : Request) :
    request.release.served = request.served := rfl

end Request

/-- The table with its fixed number of slots. -/
structure RequestPool where
  size : Nat
  table : Nat → Request

namespace RequestPool

/-- The state in which the constructor leaves the pool. -/
def new (size : Nat) : RequestPool where
  size
  table _ := ⟨-1, none, none, 0⟩

/-- `RequestPool::find`: the first slot with the given id. -/
def find (pool : RequestPool) (id : Int32) : Option Nat :=
  (List.range pool.size).find? fun slot => (pool.table slot).id == id

/-- `RequestPool::findFree`: the first slot that is not used. -/
def findFree (pool : RequestPool) : Option Nat :=
  (List.range pool.size).find? fun slot => (pool.table slot).id == -1

/-- Change one slot of the table. -/
def modify (pool : RequestPool) (slot : Nat) (change : Request → Request) :
    RequestPool :=
  { pool with
    table := Function.update pool.table slot (change (pool.table slot)) }

/-- `RequestPool::wait`, for the result of the wait on the semaphore of the request:
the exit code and the pool.  Only a wait that ended with `0` has decremented the
semaphore and marks the slot as unused. -/
def wait (pool : RequestPool) (id : Int32) (waitRet : Int) : Int × RequestPool :=
  match pool.find id with
  | none => (errWrongParameter, pool)
  | some slot =>
      if waitRet = 0 then (0, (pool.modify slot Request.acquire).modify slot Request.release)
      else if waitRet = -1 then (errTimeout, pool)
      else (errGeneric, pool)

@[simp] theorem modify_size (pool : RequestPool) (slot : Nat)
    (change : Request → Request) : (pool.modify slot change).size = pool.size := rfl

@[simp] theorem modify_table_same (pool : RequestPool) (slot : Nat)
    (change : Request → Request) :
    (pool.modify slot change).table slot = change (pool.table slot) := by
  simp [modify]

theorem modify_table (pool : RequestPool) (slot other : Nat) (change : Request → Request) :
    (pool.modify slot change).table other =
      if other = slot then change (pool.table slot) else pool.table other :=
  Function.update_apply pool.table slot (change (pool.table slot)) other

/-- A slot that was found lies in the table and carries the id. -/
@[grind →] theorem find_some {pool : RequestPool} {id : Int32} {slot : Nat}
    (found : pool.find id = some slot) :
    slot < pool.size ∧ (pool.table slot).id = id := by
  have member := List.mem_of_find?_eq_some found
  have holds := List.find?_some found
  exact ⟨List.mem_range.mp member, by simpa using holds⟩

/-- An unsuccessful scan has seen every slot. -/
@[grind =] theorem find_none_iff {pool : RequestPool} {id : Int32} :
    pool.find id = none ↔ ∀ slot < pool.size, (pool.table slot).id ≠ id := by
  simp [find]

@[grind →] theorem findFree_some {pool : RequestPool} {slot : Nat}
    (found : pool.findFree = some slot) :
    slot < pool.size ∧ (pool.table slot).id = -1 :=
  find_some found

@[grind =] theorem findFree_none_iff {pool : RequestPool} :
    pool.findFree = none ↔ ∀ slot < pool.size, (pool.table slot).id ≠ -1 :=
  find_none_iff

/-- A wait that ended otherwise than by a signal reports it and leaves the table as it
is. -/
theorem wait_unserved {pool : RequestPool} {id : Int32} {slot : Nat} {waitRet : Int}
    (found : pool.find id = some slot) (unserved : waitRet ≠ 0) :
    pool.wait id waitRet = (if waitRet = -1 then errTimeout else errGeneric, pool) := by
  simp only [wait, found, if_neg unserved]
  split
  · rfl
  · rfl

end RequestPool

end Tegenaria.LibLock
