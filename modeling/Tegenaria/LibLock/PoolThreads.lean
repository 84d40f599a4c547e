import Mathlib.Data.Fintype.Basic
import Mathlib.Data.List.Infix
import Tegenaria.Foundation.Transition
import Tegenaria.LibLock.RequestPool

/-!
# Threads that share a request pool

Any number of threads call `push`, `serve` and `wait`.  Only `push` takes the
lock of the pool.  `serve` looks a slot up and signals it in two steps, and
`wait` looks a slot up, waits for its semaphore and frees it in three steps;
none of these is protected by the lock.

A step of the model is one such access to the table.  A history of events is
kept beside the state, so that the rules that the comments of the source put on
the callers, and what the pool guarantees in return, can be stated.
-/

namespace Tegenaria.LibLock

open Foundation

/-- Where a thread stands in one of the three functions. -/
inductive Local where
  | idle
  | pushFind (id : Int32) (inputData outputData : Pointer)
  | pushFindFree (id : Int32) (inputData outputData : Pointer)
  | pushAssign (id : Int32) (inputData outputData : Pointer) (slot : Nat)
  | pushUnlock (id : Int32) (exitCode : Int)
  | serveSignal (id : Int32) (slot : Nat)
  | waitSemaphore (id : Int32) (slot : Nat)
  | waitRelease (id : Int32) (slot : Nat)
  deriving DecidableEq

namespace Local

/-- The thread is inside `push` and therefore holds the lock of the pool. -/
@[grind =] def inPush : Local → Bool
  | .pushFind .. | .pushFindFree .. | .pushAssign .. | .pushUnlock .. => true
  | .idle | .serveSignal .. | .waitSemaphore .. | .waitRelease .. => false

/-- The id that a thread is about to look for in `push`. -/
def looksFor? : Local → Option Int32
  | .pushFind id _ _ => some id
  | _ => none

/-- The thread is about to look for a free slot in `push`. -/
def needsSlot : Local → Bool
  | .pushFindFree .. => true
  | _ => false

/-- The slot that a thread is about to signal, with its id. -/
def signals? : Local → Option (Int32 × Nat)
  | .serveSignal id slot => some (id, slot)
  | _ => none

end Local

/-- What a thread does next: enter a function or go on with the one it is in. -/
inductive Call where
  | push (id : Int32) (inputData outputData : Pointer)
  | serve (id : Int32)
  | wait (id : Int32)
  | resume

/-- Points in the history of the pool: a request is created, a call of `serve`
or `wait` has found its request, a call returns. -/
inductive Event (Thread : Type) where
  | created (id : Int32)
  | serving (id : Int32)
  | waiting (thread : Thread) (id : Int32)
  | pushReturned (thread : Thread) (id : Int32) (exitCode : Int)
  | serveReturned (thread : Thread) (id : Int32) (exitCode : Int)
  | waitReturned (thread : Thread) (id : Int32) (exitCode : Int)
  deriving DecidableEq

/-- The pool with its lock, the threads and the history, latest event first. -/
structure PoolThreads (Thread : Type) where
  pool : RequestPool
  mutex : Option Thread
  locals : Thread → Local
  log : List (Event Thread)

namespace PoolThreads

variable {Thread : Type} [DecidableEq Thread]

/-- A new pool; no thread has called it yet. -/
def start (Thread : Type) (size : Nat) : PoolThreads Thread where
  pool := .new size
  mutex := none
  locals _ := .idle
  log := []

/-- The thread continues at another point. -/
def goto (state : PoolThreads Thread) (thread : Thread) (point : Local) :
    PoolThreads Thread :=
  { state with locals := Function.update state.locals thread point }

/-- Append an event to the history. -/
def record (state : PoolThreads Thread) (event : Event Thread) :
    PoolThreads Thread :=
  { state with log := event :: state.log }

/-- Change one slot of the table. -/
def modify (state : PoolThreads Thread) (slot : Nat) (change : Request → Request) :
    PoolThreads Thread :=
  { state with pool := state.pool.modify slot change }

/-- `RequestPool::push` after the lock was taken, one access to the table after
the other. -/
@[grind =] def pushStep (state : PoolThreads Thread) (thread : Thread) :
    Local → Option (PoolThreads Thread)
  | .pushFind id inputData outputData =>
      match state.pool.find id with
      | some _ => some (state.goto thread (.pushUnlock id (-1)))
      | none => some (state.goto thread (.pushFindFree id inputData outputData))
  | .pushFindFree id inputData outputData =>
      match state.pool.findFree with
      | none => some (state.goto thread (.pushUnlock id (-1)))
      | some slot =>
          some (state.goto thread (.pushAssign id inputData outputData slot))
  | .pushAssign id inputData outputData slot =>
      some (((state.modify slot (·.assign id inputData outputData)).record
        (.created id)).goto thread (.pushUnlock id 0))
  | .pushUnlock id exitCode =>
      some ({ state with mutex := none }.record
        (.pushReturned thread id exitCode) |>.goto thread .idle)
  | _ => none

/-- `RequestPool::serve` and `RequestPool::wait`, without timeout, after the
request was found. -/
def requestStep (state : PoolThreads Thread) (thread : Thread) :
    Local → Option (PoolThreads Thread)
  | .serveSignal id slot =>
      some (((state.modify slot Request.serve).record
        (.serveReturned thread id 0)).goto thread .idle)
  | .waitSemaphore id slot =>
      if 0 < (state.pool.table slot).served then
        some ((state.modify slot Request.acquire).goto thread (.waitRelease id slot))
      else
        none
  | .waitRelease id slot =>
      some (((state.modify slot Request.release).record
        (.waitReturned thread id 0)).goto thread .idle)
  | _ => none

/-- One step of one thread. -/
def step (state : PoolThreads Thread) (thread : Thread) :
    Call → Option (PoolThreads Thread)
  | .push id inputData outputData =>
      if state.locals thread = .idle ∧ state.mutex = none then
        some ({ state with mutex := some thread }.goto thread
          (.pushFind id inputData outputData))
      else
        none
  | .serve id =>
      if state.locals thread = .idle then
        match state.pool.find id with
        | none => some (state.record (.serveReturned thread id errWrongParameter))
        | some slot =>
            some ((state.record (.serving id)).goto thread (.serveSignal id slot))
      else
        none
  | .wait id =>
      if state.locals thread = .idle then
        match state.pool.find id with
        | none => some (state.record (.waitReturned thread id errWrongParameter))
        | some slot =>
            some ((state.record (.waiting thread id)).goto thread
              (.waitSemaphore id slot))
      else
        none
  | .resume =>
      match state.pushStep thread (state.locals thread) with
      | some next => some next
      | none => state.requestStep thread (state.locals thread)

/-- All threads; a label names the thread that moves. -/
def machine : Machine (PoolThreads Thread) (Thread × Call) where
  step state label := state.step label.1 label.2

/-! ## The rules for the callers -/

/-- The history since the request with this id was last created. -/
def sinceCreated (id : Int32) (log : List (Event Thread)) : List (Event Thread) :=
  log.takeWhile fun event => event ≠ .created id

/-- The comments of the source demand an id other than `-1`, one `serve` for a
request and one thread that waits for it.  A `serve` that finds no request is
not restricted. -/
def Disciplined (state : PoolThreads Thread) : Thread × Call → Prop
  | (_, .push id _ _) => id ≠ -1
  | (_, .serve id) => state.pool.find id ≠ none →
      id ≠ -1 ∧ .serving id ∉ sinceCreated id state.log
  | (thread, .wait id) => id ≠ -1 ∧
      ∀ other ≠ thread, .waiting other id ∉ sinceCreated id state.log
  | (_, .resume) => True

/-! ## One step -/

@[simp, grind =] theorem goto_locals (state : PoolThreads Thread) (thread other : Thread)
    (point : Local) :
    (state.goto thread point).locals other =
      if other = thread then point else state.locals other := by
  simp [goto, Function.update_apply]

@[simp, grind =] theorem goto_size (state : PoolThreads Thread) (thread : Thread)
    (point : Local) : (state.goto thread point).pool.size = state.pool.size := rfl

@[simp, grind =] theorem goto_table (state : PoolThreads Thread) (thread : Thread)
    (point : Local) (slot : Nat) :
    (state.goto thread point).pool.table slot = state.pool.table slot := rfl

@[simp, grind =] theorem goto_mutex (state : PoolThreads Thread) (thread : Thread)
    (point : Local) : (state.goto thread point).mutex = state.mutex := rfl

@[simp, grind =] theorem goto_log (state : PoolThreads Thread) (thread : Thread)
    (point : Local) : (state.goto thread point).log = state.log := rfl

omit [DecidableEq Thread] in
@[simp, grind =] theorem record_log (state : PoolThreads Thread) (event : Event Thread) :
    (state.record event).log = event :: state.log := rfl

omit [DecidableEq Thread] in
@[simp, grind =] theorem record_size (state : PoolThreads Thread) (event : Event Thread) :
    (state.record event).pool.size = state.pool.size := rfl

omit [DecidableEq Thread] in
@[simp, grind =] theorem record_table (state : PoolThreads Thread) (event : Event Thread)
    (slot : Nat) : (state.record event).pool.table slot = state.pool.table slot := rfl

omit [DecidableEq Thread] in
@[simp, grind =] theorem record_locals (state : PoolThreads Thread)
    (event : Event Thread) (thread : Thread) :
    (state.record event).locals thread = state.locals thread := rfl

omit [DecidableEq Thread] in
@[simp, grind =] theorem record_mutex (state : PoolThreads Thread)
    (event : Event Thread) : (state.record event).mutex = state.mutex := rfl

omit [DecidableEq Thread] in
@[simp, grind =] theorem modify_size (state : PoolThreads Thread) (slot : Nat)
    (change : Request → Request) :
    (state.modify slot change).pool.size = state.pool.size := rfl

omit [DecidableEq Thread] in
@[simp, grind =] theorem modify_table (state : PoolThreads Thread) (slot other : Nat)
    (change : Request → Request) :
    (state.modify slot change).pool.table other =
      if other = slot then change (state.pool.table slot)
      else state.pool.table other := by
  simp [modify, RequestPool.modify, Function.update_apply]

omit [DecidableEq Thread] in
@[simp, grind =] theorem modify_locals (state : PoolThreads Thread) (slot : Nat)
    (change : Request → Request) (thread : Thread) :
    (state.modify slot change).locals thread = state.locals thread := rfl

omit [DecidableEq Thread] in
@[simp, grind =] theorem modify_log (state : PoolThreads Thread) (slot : Nat)
    (change : Request → Request) : (state.modify slot change).log = state.log := rfl

omit [DecidableEq Thread] in
@[simp, grind =] theorem modify_mutex (state : PoolThreads Thread) (slot : Nat)
    (change : Request → Request) :
    (state.modify slot change).mutex = state.mutex := rfl

@[simp, grind =] theorem sinceCreated_nil (id : Int32) :
    sinceCreated id ([] : List (Event Thread)) = [] := rfl

@[simp, grind =] theorem sinceCreated_cons (id : Int32) (event : Event Thread)
    (log : List (Event Thread)) :
    sinceCreated id (event :: log) =
      if event = .created id then [] else event :: sinceCreated id log := by
  by_cases last : event = .created id <;> simp [sinceCreated, last]

/-- The steps of the threads, with the state of the pool in which they are
taken. -/
inductive Moves (state : PoolThreads Thread) (thread : Thread) :
    Call → PoolThreads Thread → Prop where
  | enterPush {id : Int32} {inputData outputData : Pointer}
      (at_ : state.locals thread = .idle) (unlocked : state.mutex = none) :
      Moves state thread (.push id inputData outputData)
        ({ state with mutex := some thread }.goto thread
          (.pushFind id inputData outputData))
  | serveMissing {id : Int32} (at_ : state.locals thread = .idle)
      (missing : state.pool.find id = none) :
      Moves state thread (.serve id)
        (state.record (.serveReturned thread id errWrongParameter))
  | serveFound {id : Int32} {slot : Nat} (at_ : state.locals thread = .idle)
      (found : state.pool.find id = some slot) :
      Moves state thread (.serve id)
        ((state.record (.serving id)).goto thread (.serveSignal id slot))
  | waitMissing {id : Int32} (at_ : state.locals thread = .idle)
      (missing : state.pool.find id = none) :
      Moves state thread (.wait id)
        (state.record (.waitReturned thread id errWrongParameter))
  | waitFound {id : Int32} {slot : Nat} (at_ : state.locals thread = .idle)
      (found : state.pool.find id = some slot) :
      Moves state thread (.wait id)
        ((state.record (.waiting thread id)).goto thread (.waitSemaphore id slot))
  | idInUse {id : Int32} {inputData outputData : Pointer} {slot : Nat}
      (at_ : state.locals thread = .pushFind id inputData outputData)
      (found : state.pool.find id = some slot) :
      Moves state thread .resume (state.goto thread (.pushUnlock id (-1)))
  | idUnique {id : Int32} {inputData outputData : Pointer}
      (at_ : state.locals thread = .pushFind id inputData outputData)
      (missing : state.pool.find id = none) :
      Moves state thread .resume
        (state.goto thread (.pushFindFree id inputData outputData))
  | tooMany {id : Int32} {inputData outputData : Pointer}
      (at_ : state.locals thread = .pushFindFree id inputData outputData)
      (full : state.pool.findFree = none) :
      Moves state thread .resume (state.goto thread (.pushUnlock id (-1)))
  | slotFound {id : Int32} {inputData outputData : Pointer} {slot : Nat}
      (at_ : state.locals thread = .pushFindFree id inputData outputData)
      (found : state.pool.findFree = some slot) :
      Moves state thread .resume
        (state.goto thread (.pushAssign id inputData outputData slot))
  | assign {id : Int32} {inputData outputData : Pointer} {slot : Nat}
      (at_ : state.locals thread = .pushAssign id inputData outputData slot) :
      Moves state thread .resume
        (((state.modify slot (·.assign id inputData outputData)).record
          (.created id)).goto thread (.pushUnlock id 0))
  | unlock {id : Int32} {exitCode : Int}
      (at_ : state.locals thread = .pushUnlock id exitCode) :
      Moves state thread .resume
        ({ state with mutex := none }.record
          (.pushReturned thread id exitCode) |>.goto thread .idle)
  | signal {id : Int32} {slot : Nat} (at_ : state.locals thread = .serveSignal id slot) :
      Moves state thread .resume
        (((state.modify slot Request.serve).record
          (.serveReturned thread id 0)).goto thread .idle)
  | acquire {id : Int32} {slot : Nat}
      (at_ : state.locals thread = .waitSemaphore id slot)
      (signalled : 0 < (state.pool.table slot).served) :
      Moves state thread .resume
        ((state.modify slot Request.acquire).goto thread (.waitRelease id slot))
  | release {id : Int32} {slot : Nat}
      (at_ : state.locals thread = .waitRelease id slot) :
      Moves state thread .resume
        (((state.modify slot Request.release).record
          (.waitReturned thread id 0)).goto thread .idle)

/-- The step function does exactly these steps. -/
theorem moves_of_step {state next : PoolThreads Thread} {thread : Thread} {call : Call}
    (stepped : state.step thread call = some next) : Moves state thread call next := by
  cases call with
  | push id inputData outputData =>
      simp only [step] at stepped
      split at stepped
      case isFalse => cases stepped
      case isTrue ready =>
        cases stepped
        exact .enterPush ready.1 ready.2
  | serve id =>
      simp only [step] at stepped
      split at stepped
      case isFalse => cases stepped
      case isTrue ready =>
        split at stepped <;> cases stepped
        case h_1 missing => exact .serveMissing ready missing
        case h_2 found => exact .serveFound ready found
  | wait id =>
      simp only [step] at stepped
      split at stepped
      case isFalse => cases stepped
      case isTrue ready =>
        split at stepped <;> cases stepped
        case h_1 missing => exact .waitMissing ready missing
        case h_2 found => exact .waitFound ready found
  | resume =>
      cases point : state.locals thread with
      | idle => simp [step, point, pushStep, requestStep] at stepped
      | pushFind id inputData outputData =>
          cases scan : state.pool.find id with
          | none =>
              simp only [step, point, pushStep, scan, Option.some.injEq] at stepped
              exact stepped ▸ .idUnique point scan
          | some slot =>
              simp only [step, point, pushStep, scan, Option.some.injEq] at stepped
              exact stepped ▸ .idInUse point scan
      | pushFindFree id inputData outputData =>
          cases scan : state.pool.findFree with
          | none =>
              simp only [step, point, pushStep, scan, Option.some.injEq] at stepped
              exact stepped ▸ .tooMany point scan
          | some slot =>
              simp only [step, point, pushStep, scan, Option.some.injEq] at stepped
              exact stepped ▸ .slotFound point scan
      | pushAssign id inputData outputData slot =>
          simp only [step, point, pushStep, Option.some.injEq] at stepped
          exact stepped ▸ .assign point
      | pushUnlock id exitCode =>
          simp only [step, point, pushStep, Option.some.injEq] at stepped
          exact stepped ▸ .unlock point
      | serveSignal id slot =>
          simp only [step, point, pushStep, requestStep, Option.some.injEq] at stepped
          exact stepped ▸ .signal point
      | waitSemaphore id slot =>
          simp only [step, point, pushStep, requestStep] at stepped
          split at stepped
          case isFalse => cases stepped
          case isTrue signalled =>
            cases stepped
            exact .acquire point signalled
      | waitRelease id slot =>
          simp only [step, point, pushStep, requestStep, Option.some.injEq] at stepped
          exact stepped ▸ .release point

/-! ## What a step changes -/

/-- What a step of a thread does to one slot of the table. -/
inductive SlotMoves (state next : PoolThreads Thread) (thread : Thread) (slot : Nat) :
    Prop where
  | kept (same : next.pool.table slot = state.pool.table slot)
      (unreleased : ∀ id, state.locals thread ≠ .waitRelease id slot)
  | assigned {id : Int32} {inputData outputData : Pointer}
      (at_ : state.locals thread = .pushAssign id inputData outputData slot)
      (now : next.pool.table slot =
        (state.pool.table slot).assign id inputData outputData)
      (logged : next.log = .created id :: state.log)
  | signalled {id : Int32} (at_ : state.locals thread = .serveSignal id slot)
      (now : next.pool.table slot = (state.pool.table slot).serve)
  | acquired {id : Int32} (at_ : state.locals thread = .waitSemaphore id slot)
      (counted : 0 < (state.pool.table slot).served)
      (now : next.pool.table slot = (state.pool.table slot).acquire)
      (after : next.locals thread = .waitRelease id slot)
  | released {id : Int32} (at_ : state.locals thread = .waitRelease id slot)
      (now : next.pool.table slot = (state.pool.table slot).release)

/-- Where a thread stands after its own step, and why. -/
inductive Arrives (state next : PoolThreads Thread) (thread : Thread) :
    Call → Local → Prop where
  | idle {call : Call} : Arrives state next thread call .idle
  | pushFind {id : Int32} {inputData outputData : Pointer} :
      Arrives state next thread (.push id inputData outputData)
        (.pushFind id inputData outputData)
  | pushFindFree {id : Int32} {inputData outputData : Pointer}
      (at_ : state.locals thread = .pushFind id inputData outputData)
      (missing : state.pool.find id = none) :
      Arrives state next thread .resume (.pushFindFree id inputData outputData)
  | pushAssign {id : Int32} {inputData outputData : Pointer} {slot : Nat}
      (at_ : state.locals thread = .pushFindFree id inputData outputData)
      (found : state.pool.findFree = some slot) :
      Arrives state next thread .resume (.pushAssign id inputData outputData slot)
  | pushUnlock {id : Int32} {exitCode : Int} :
      Arrives state next thread .resume (.pushUnlock id exitCode)
  | serveSignal {id : Int32} {slot : Nat} (at_ : state.locals thread = .idle)
      (found : state.pool.find id = some slot)
      (logged : next.log = .serving id :: state.log) :
      Arrives state next thread (.serve id) (.serveSignal id slot)
  | waitSemaphore {id : Int32} {slot : Nat} (at_ : state.locals thread = .idle)
      (found : state.pool.find id = some slot)
      (logged : next.log = .waiting thread id :: state.log) :
      Arrives state next thread (.wait id) (.waitSemaphore id slot)
  | waitRelease {id : Int32} {slot : Nat}
      (at_ : state.locals thread = .waitSemaphore id slot)
      (counted : 0 < (state.pool.table slot).served)
      (now : next.pool.table slot = (state.pool.table slot).acquire) :
      Arrives state next thread .resume (.waitRelease id slot)

/-- What a step adds to the history, and why. -/
inductive Logs (state next : PoolThreads Thread) (thread : Thread) :
    Call → Event Thread → Prop where
  | created {id : Int32} {inputData outputData : Pointer} {slot : Nat}
      (at_ : state.locals thread = .pushAssign id inputData outputData slot)
      (now : next.pool.table slot =
        (state.pool.table slot).assign id inputData outputData) :
      Logs state next thread .resume (.created id)
  | serving {id : Int32} : Logs state next thread (.serve id) (.serving id)
  | waiting {id : Int32} : Logs state next thread (.wait id) (.waiting thread id)
  | pushReturned {id : Int32} {exitCode : Int}
      (at_ : state.locals thread = .pushUnlock id exitCode) :
      Logs state next thread .resume (.pushReturned thread id exitCode)
  | serveMissing {id : Int32} {exitCode : Int} (failed : exitCode ≠ 0) :
      Logs state next thread (.serve id) (.serveReturned thread id exitCode)
  | serveReturned {id : Int32} {slot : Nat}
      (at_ : state.locals thread = .serveSignal id slot)
      (now : next.pool.table slot = (state.pool.table slot).serve) :
      Logs state next thread .resume (.serveReturned thread id 0)
  | waitMissing {id : Int32} {exitCode : Int} (failed : exitCode ≠ 0)
      (missing : state.pool.find id = none) :
      Logs state next thread (.wait id) (.waitReturned thread id exitCode)
  | waitReturned {id : Int32} {slot : Nat}
      (at_ : state.locals thread = .waitRelease id slot) :
      Logs state next thread .resume (.waitReturned thread id 0)

section Frame

variable {state next : PoolThreads Thread} {thread : Thread} {call : Call}

theorem Moves.size_eq (moves : Moves state thread call next) :
    next.pool.size = state.pool.size := by
  cases moves <;> rfl

/-- A step does not move other threads. -/
theorem Moves.locals_other (moves : Moves state thread call next) {other : Thread}
    (different : other ≠ thread) : next.locals other = state.locals other := by
  cases moves <;> simp [different]

theorem Moves.slot_moves (moves : Moves state thread call next) (slot : Nat) :
    SlotMoves state next thread slot := by
  cases moves with
  | @assign id inputData outputData changed at_ =>
      by_cases same : slot = changed
      · subst same
        exact .assigned at_ (by simp) rfl
      · exact .kept (by simp [same]) (by simp [at_])
  | @signal id changed at_ =>
      by_cases same : slot = changed
      · subst same
        exact .signalled at_ (by simp)
      · exact .kept (by simp [same]) (by simp [at_])
  | @acquire id changed at_ counted =>
      by_cases same : slot = changed
      · subst same
        exact .acquired at_ counted (by simp) (by simp)
      · exact .kept (by simp [same]) (by simp [at_])
  | @release id changed at_ =>
      by_cases same : slot = changed
      · subst same
        exact .released at_ (by simp)
      · exact .kept (by simp [same]) (by simp [at_, Ne.symm same])
  | enterPush at_ | serveMissing at_ | serveFound at_ | waitMissing at_ | waitFound at_
    | idInUse at_ | idUnique at_ | tooMany at_ | slotFound at_ | unlock at_ =>
      exact .kept rfl (by simp [at_])

theorem Moves.arrives (moves : Moves state thread call next) :
    Arrives state next thread call (next.locals thread) := by
  cases moves with
  | enterPush at_ unlocked => simpa using Arrives.pushFind
  | serveMissing at_ missing | waitMissing at_ missing =>
      simpa [at_] using Arrives.idle
  | serveFound at_ found => simpa using Arrives.serveSignal at_ found rfl
  | waitFound at_ found => simpa using Arrives.waitSemaphore at_ found rfl
  | idInUse at_ found => simpa using Arrives.pushUnlock
  | tooMany at_ full => simpa using Arrives.pushUnlock
  | assign at_ => simpa using Arrives.pushUnlock
  | idUnique at_ missing => simpa using Arrives.pushFindFree at_ missing
  | slotFound at_ found => simpa using Arrives.pushAssign at_ found
  | acquire at_ counted => simpa using Arrives.waitRelease at_ counted (by simp)
  | unlock at_ | signal at_ | release at_ => simpa using Arrives.idle

/-- A thread stands where it stood, unless the step was its own. -/
theorem Moves.stands (moves : Moves state thread call next) {other : Thread}
    {point : Local} (there : next.locals other = point) :
    (other ≠ thread ∧ state.locals other = point) ∨
      (other = thread ∧ Arrives state next thread call point) := by
  by_cases own : other = thread
  · subst own
    exact Or.inr ⟨rfl, there ▸ moves.arrives⟩
  · exact Or.inl ⟨own, moves.locals_other own ▸ there⟩

theorem Moves.logs (moves : Moves state thread call next) :
    next.log = state.log ∨
      ∃ event, next.log = event :: state.log ∧ Logs state next thread call event := by
  cases moves with
  | enterPush | idInUse | idUnique | tooMany | slotFound | acquire => exact Or.inl rfl
  | serveMissing at_ missing => exact Or.inr ⟨_, rfl, .serveMissing (by decide)⟩
  | serveFound => exact Or.inr ⟨_, rfl, .serving⟩
  | waitMissing at_ missing => exact Or.inr ⟨_, rfl, .waitMissing (by decide) missing⟩
  | waitFound => exact Or.inr ⟨_, rfl, .waiting⟩
  | assign at_ => exact Or.inr ⟨_, rfl, .created at_ (by simp)⟩
  | unlock at_ => exact Or.inr ⟨_, rfl, .pushReturned at_⟩
  | signal at_ => exact Or.inr ⟨_, rfl, .serveReturned at_ (by simp)⟩
  | release at_ => exact Or.inr ⟨_, rfl, .waitReturned at_⟩

theorem Moves.log_mono (moves : Moves state thread call next) {event : Event Thread}
    (logged : event ∈ state.log) : event ∈ next.log := by
  rcases moves.logs with same | ⟨added, now, _⟩
  · rwa [same]
  · rw [now]
    exact List.mem_cons_of_mem _ logged

theorem Moves.log_cases (moves : Moves state thread call next) {event : Event Thread}
    (logged : event ∈ next.log) :
    event ∈ state.log ∨ Logs state next thread call event := by
  rcases moves.logs with same | ⟨added, now, reason⟩
  · exact Or.inl (same ▸ logged)
  · rw [now] at logged
    rcases List.mem_cons.mp logged with rfl | old
    · exact Or.inr reason
    · exact Or.inl old

theorem Moves.suffix_cases (moves : Moves state thread call next) {event : Event Thread}
    {before : List (Event Thread)} (suffix : (event :: before) <:+ next.log) :
    (event :: before) <:+ state.log ∨
      (before = state.log ∧ Logs state next thread call event) := by
  rcases moves.logs with same | ⟨added, now, reason⟩
  · exact Or.inl (same ▸ suffix)
  · rw [now] at suffix
    rcases List.suffix_cons_iff.mp suffix with equal | old
    · obtain ⟨rfl, rfl⟩ := List.cons.inj equal
      exact Or.inr ⟨rfl, reason⟩
    · exact Or.inl old

/-- The history since a request was created is kept until an id is used again. -/
theorem Moves.since_mono (moves : Moves state thread call next) {id : Int32}
    {event : Event Thread} (since : event ∈ sinceCreated id state.log) :
    event ∈ sinceCreated id next.log ∨ Logs state next thread call (.created id) := by
  rcases moves.logs with same | ⟨added, now, reason⟩
  · exact Or.inl (same ▸ since)
  · by_cases again : added = .created id
    · exact Or.inr (again ▸ reason)
    · left
      rw [now, sinceCreated_cons, if_neg again]
      exact List.mem_cons_of_mem _ since

theorem Moves.since_cases (moves : Moves state thread call next) {id : Int32}
    {event : Event Thread} (since : event ∈ sinceCreated id next.log) :
    event ∈ sinceCreated id state.log ∨ Logs state next thread call event := by
  rcases moves.logs with same | ⟨added, now, reason⟩
  · exact Or.inl (same ▸ since)
  · rw [now, sinceCreated_cons] at since
    split at since
    · cases since
    · rcases List.mem_cons.mp since with rfl | old
      · exact Or.inr reason
      · exact Or.inl old

/-- Only a call of `serve` adds to the history that a request is served. -/
theorem Moves.serving_since (moves : Moves state thread call next) {id : Int32}
    (serving : .serving id ∈ sinceCreated id next.log) :
    .serving id ∈ sinceCreated id state.log ∨ call = .serve id := by
  rcases moves.since_cases serving with before | reason
  · exact Or.inl before
  · cases reason
    exact Or.inr rfl

/-- Only a call of `wait` adds to the history that a request is waited for. -/
theorem Moves.waiting_since (moves : Moves state thread call next) {id : Int32}
    {waiter : Thread} (waiting : .waiting waiter id ∈ sinceCreated id next.log) :
    .waiting waiter id ∈ sinceCreated id state.log ∨ call = .wait id := by
  rcases moves.since_cases waiting with before | reason
  · exact Or.inl before
  · cases reason
    exact Or.inr rfl

/-- `push` returns what it has decided. -/
theorem Moves.push_returned (moves : Moves state thread call next) {other : Thread}
    {id : Int32} {exitCode : Int}
    (returned : .pushReturned other id exitCode ∈ next.log) :
    .pushReturned other id exitCode ∈ state.log ∨
      state.locals thread = .pushUnlock id exitCode := by
  rcases moves.log_cases returned with before | reason
  · exact Or.inl before
  · cases reason with
    | pushReturned at_ => exact Or.inr at_

/-- `wait` fails only when it does not find the request. -/
theorem Moves.wait_returned (moves : Moves state thread call next) {other : Thread}
    {id : Int32} {exitCode : Int}
    (returned : .waitReturned other id exitCode ∈ next.log) :
    .waitReturned other id exitCode ∈ state.log ∨ exitCode = 0 ∨
      call = .wait id ∧ state.pool.find id = none := by
  rcases moves.log_cases returned with before | reason
  · exact Or.inl before
  · cases reason with
    | waitMissing failed missing => exact Or.inr (Or.inr ⟨rfl, missing⟩)
    | waitReturned at_ => exact Or.inr (Or.inl rfl)

end Frame

/-! ## The invariant -/

/-- A slot is used under the given id. -/
def UsedBy (state : PoolThreads Thread) (slot : Nat) (id : Int32) : Prop :=
  id ≠ -1 ∧ slot < state.pool.size ∧ (state.pool.table slot).id = id

/-- No slot is used under the given id. -/
def Unused (state : PoolThreads Thread) (id : Int32) : Prop :=
  id ≠ -1 ∧ ∀ slot < state.pool.size, (state.pool.table slot).id ≠ id

/-- What holds of the table and of the points at which the threads stand.  The
count of a semaphore, a thread that is about to signal it and a thread that has
just waited for it exclude each other. -/
structure Invariant (state : PoolThreads Thread) : Prop where
  locked : ∀ thread, (state.locals thread).inPush → state.mutex = some thread
  wanted : ∀ thread id inputData outputData,
    state.locals thread = .pushFind id inputData outputData → id ≠ -1
  fresh : ∀ thread id inputData outputData,
    state.locals thread = .pushFindFree id inputData outputData → state.Unused id
  chosen : ∀ thread id inputData outputData slot,
    state.locals thread = .pushAssign id inputData outputData slot →
      state.Unused id ∧ slot < state.pool.size ∧ (state.pool.table slot).id = -1
  distinct : ∀ slot < state.pool.size, ∀ other < state.pool.size,
    (state.pool.table slot).id ≠ -1 →
    (state.pool.table slot).id = (state.pool.table other).id → slot = other
  freeCount : ∀ slot < state.pool.size,
    (state.pool.table slot).id = -1 → (state.pool.table slot).served = 0
  atMostOnce : ∀ slot < state.pool.size, (state.pool.table slot).served ≤ 1
  signalling : ∀ thread id slot, state.locals thread = .serveSignal id slot →
    state.UsedBy slot id ∧ (state.pool.table slot).served = 0
  waiting : ∀ thread id slot, state.locals thread = .waitSemaphore id slot →
    state.UsedBy slot id
  releasing : ∀ thread id slot, state.locals thread = .waitRelease id slot →
    state.UsedBy slot id ∧ (state.pool.table slot).served = 0
  oneSignal : ∀ thread other id slot, state.locals thread = .serveSignal id slot →
    state.locals other = .serveSignal id slot → thread = other
  oneWaiting : ∀ thread other id slot, state.locals thread = .waitSemaphore id slot →
    state.locals other = .waitSemaphore id slot → thread = other
  oneReleasing : ∀ thread other id slot, state.locals thread = .waitRelease id slot →
    state.locals other = .waitRelease id slot → thread = other
  notBoth : ∀ thread other id slot, state.locals thread = .waitRelease id slot →
    state.locals other ≠ .waitSemaphore id slot ∧
      state.locals other ≠ .serveSignal id slot

/-- How the history explains the state. -/
structure Explained (state : PoolThreads Thread) : Prop where
  created : ∀ slot < state.pool.size, (state.pool.table slot).id ≠ -1 →
    .created (state.pool.table slot).id ∈ state.log
  counted : ∀ slot < state.pool.size, (state.pool.table slot).id ≠ -1 →
    0 < (state.pool.table slot).served →
    .serving (state.pool.table slot).id ∈
      sinceCreated (state.pool.table slot).id state.log
  signalling : ∀ thread id slot, state.locals thread = .serveSignal id slot →
    .serving id ∈ sinceCreated id state.log
  waiting : ∀ thread id slot, state.locals thread = .waitSemaphore id slot →
    .waiting thread id ∈ sinceCreated id state.log
  releasing : ∀ thread id slot, state.locals thread = .waitRelease id slot →
    .serving id ∈ sinceCreated id state.log ∧
      .waiting thread id ∈ sinceCreated id state.log
  kept : ∀ id, id ≠ -1 → .created id ∈ state.log →
    (∃ slot < state.pool.size, (state.pool.table slot).id = id) ∨
      ∃ thread, .waiting thread id ∈ sinceCreated id state.log
  notLost : ∀ slot < state.pool.size, (state.pool.table slot).id ≠ -1 → ∀ thread,
    .serveReturned thread (state.pool.table slot).id 0 ∈
      sinceCreated (state.pool.table slot).id state.log →
    0 < (state.pool.table slot).served ∨
      ∃ other, state.locals other = .waitRelease (state.pool.table slot).id slot
  served : ∀ thread id, .serveReturned thread id 0 ∈ state.log →
    id ≠ -1 ∧ .created id ∈ state.log
  returned : ∀ thread id before, (.waitReturned thread id 0 :: before) <:+ state.log →
    .created id ∈ before ∧ .serving id ∈ sinceCreated id before ∧
      .waiting thread id ∈ sinceCreated id before

section Preservation

variable {state next : PoolThreads Thread} {thread : Thread} {call : Call}

omit [DecidableEq Thread] in
theorem UsedBy.unique {slot : Nat} {id other : Int32} (used : state.UsedBy slot id)
    (again : state.UsedBy slot other) : other = id :=
  again.2.2.symm.trans used.2.2

omit [DecidableEq Thread] in
/-- Two threads inside `push` are one. -/
theorem Invariant.holder_unique (inv : Invariant state) {first second : Thread}
    (firstInside : (state.locals first).inPush)
    (secondInside : (state.locals second).inPush) : first = second :=
  Option.some.inj ((inv.locked first firstInside).symm.trans
    (inv.locked second secondInside))

omit [DecidableEq Thread] in
/-- An id that `push` is about to assign is not used by any slot. -/
theorem Invariant.unassigned (inv : Invariant state) {slot : Nat} {id : Int32}
    (used : state.UsedBy slot id) {inputData outputData : Pointer} {free : Nat} :
    state.locals thread ≠ .pushAssign id inputData outputData free := fun at_ =>
  (inv.chosen thread id inputData outputData free at_).1.2 slot used.2.1 used.2.2

/-- A slot that is in use stays as it is until a thread frees it. -/
theorem Moves.slot_kept (inv : Invariant state) (moves : Moves state thread call next)
    {slot : Nat} {id : Int32} (used : state.UsedBy slot id)
    (unreleased : ∀ other, state.locals thread ≠ .waitRelease other slot) :
    next.UsedBy slot id ∧
      (next.pool.table slot).outputData = (state.pool.table slot).outputData := by
  obtain ⟨valid, inside, held⟩ := used
  rw [UsedBy, moves.size_eq]
  cases moves.slot_moves slot with
  | kept same _ => exact ⟨⟨valid, inside, same ▸ held⟩, same ▸ rfl⟩
  | assigned at_ now logged =>
      have free := (inv.chosen thread _ _ _ slot at_).2.2
      exact absurd (held.symm.trans free) valid
  | signalled at_ now => exact ⟨⟨valid, inside, by simpa [now]⟩, by simp [now]⟩
  | acquired at_ counted now after => exact ⟨⟨valid, inside, by simpa [now]⟩, by simp [now]⟩
  | released at_ now => exact absurd at_ (unreleased _)

/-- A slot comes into use only by the assignment in `push`. -/
theorem Moves.used_before (moves : Moves state thread call next) {slot : Nat}
    {id : Int32} (used : next.UsedBy slot id) :
    state.UsedBy slot id ∨
      ∃ inputData outputData,
        state.locals thread = .pushAssign id inputData outputData slot ∧
          next.log = .created id :: state.log := by
  obtain ⟨valid, inside, held⟩ := used
  rw [moves.size_eq] at inside
  cases moves.slot_moves slot with
  | kept same _ => exact Or.inl ⟨valid, inside, same ▸ held⟩
  | assigned at_ now logged =>
      have assigned := held
      rw [now, Request.assign_id] at assigned
      subst assigned
      exact Or.inr ⟨_, _, at_, logged⟩
  | signalled at_ now => exact Or.inl ⟨valid, inside, by simpa [now] using held⟩
  | acquired at_ counted now after => exact Or.inl ⟨valid, inside, by simpa [now] using held⟩
  | released at_ now =>
      rw [now, Request.release_id] at held
      exact absurd held.symm valid

/-- While an id is in use, the history since its creation is kept. -/
theorem Moves.since_kept (inv : Invariant state) (moves : Moves state thread call next)
    {slot : Nat} {id : Int32} (used : state.UsedBy slot id) {event : Event Thread}
    (since : event ∈ sinceCreated id state.log) : event ∈ sinceCreated id next.log := by
  rcases moves.since_mono since with still | again
  · exact still
  · cases again with
    | created at_ now => exact absurd at_ (inv.unassigned used)

/-- Threads that do not assign an id do not use it. -/
theorem Moves.unused_kept (moves : Moves state thread call next) {id : Int32}
    (unused : state.Unused id)
    (other : ∀ inputData outputData slot,
      state.locals thread ≠ .pushAssign id inputData outputData slot) :
    next.Unused id := by
  refine ⟨unused.1, fun slot inside held => ?_⟩
  rcases moves.used_before ⟨unused.1, inside, held⟩ with
    before | ⟨inputData, outputData, at_, _⟩
  · exact unused.2 slot before.2.1 before.2.2
  · exact other inputData outputData slot at_

/-- A free slot stays free until it is assigned. -/
theorem Moves.free_kept (moves : Moves state thread call next) {slot : Nat}
    (free : (state.pool.table slot).id = -1)
    (other : ∀ id inputData outputData,
      state.locals thread ≠ .pushAssign id inputData outputData slot) :
    (next.pool.table slot).id = -1 := by
  cases moves.slot_moves slot with
  | kept same _ => exact same ▸ free
  | assigned at_ now logged => exact absurd at_ (other _ _ _)
  | signalled at_ now => simpa [now]
  | acquired at_ counted now after => simpa [now]
  | released at_ now => simp [now]

theorem Moves.locked (inv : Invariant state) (moves : Moves state thread call next) :
    ∀ other, (next.locals other).inPush → next.mutex = some other := by
  intro other inside
  by_cases own : other = thread
  · subst own
    cases moves with
    | enterPush => rfl
    | idInUse at_ | idUnique at_ | tooMany at_ | slotFound at_ | assign at_ =>
        exact inv.locked other (by rw [at_]; rfl)
    | serveMissing at_ | waitMissing at_ =>
        rw [record_locals, at_] at inside
        cases inside
    | serveFound | waitFound | unlock | signal | acquire | release =>
        rw [goto_locals, if_pos rfl] at inside
        cases inside
  · rw [moves.locals_other own] at inside
    have held := inv.locked other inside
    cases moves with
    | enterPush at_ unlocked => cases held.symm.trans unlocked
    | unlock at_ =>
        have holder := inv.locked thread (by rw [at_]; rfl)
        exact absurd (Option.some.inj (held.symm.trans holder)) own
    | _ => exact held

theorem Moves.wanted (inv : Invariant state)
    (disciplined : Disciplined state (thread, call))
    (moves : Moves state thread call next) :
    ∀ other id inputData outputData,
      next.locals other = .pushFind id inputData outputData → id ≠ -1 := by
  intro other id inputData outputData there
  rcases moves.stands there with ⟨_, before⟩ | ⟨_, arrives⟩
  · exact inv.wanted other id inputData outputData before
  · cases arrives
    exact disciplined

/-- The lock keeps other threads from using an id between the scan for it and
the assignment; threads without the lock only free slots. -/
theorem Moves.fresh (inv : Invariant state) (moves : Moves state thread call next) :
    ∀ other id inputData outputData,
      next.locals other = .pushFindFree id inputData outputData → next.Unused id := by
  intro other id inputData outputData there
  rcases moves.stands there with ⟨different, before⟩ | ⟨_, arrives⟩
  · refine moves.unused_kept (inv.fresh other id inputData outputData before) ?_
    intro input output slot at_
    exact different (inv.holder_unique (by rw [before]; rfl) (by rw [at_]; rfl))
  · cases arrives with
    | pushFindFree at_ missing =>
        have unused := RequestPool.find_none_iff.mp missing
        refine moves.unused_kept ⟨inv.wanted thread id _ _ at_, unused⟩ ?_
        simp [at_]

theorem Moves.chosen (inv : Invariant state) (moves : Moves state thread call next) :
    ∀ other id inputData outputData slot,
      next.locals other = .pushAssign id inputData outputData slot →
        next.Unused id ∧ slot < next.pool.size ∧ (next.pool.table slot).id = -1 := by
  intro other id inputData outputData slot there
  rw [moves.size_eq]
  rcases moves.stands there with ⟨different, before⟩ | ⟨_, arrives⟩
  · have unassigned : ∀ id inputData outputData slot,
        state.locals thread ≠ .pushAssign id inputData outputData slot := by
      intro id inputData outputData slot at_
      exact different (inv.holder_unique (by rw [before]; rfl) (by rw [at_]; rfl))
    obtain ⟨unused, inside, free⟩ := inv.chosen other id inputData outputData slot before
    exact ⟨moves.unused_kept unused (unassigned id), inside,
      moves.free_kept free fun id inputData outputData =>
        unassigned id inputData outputData slot⟩
  · cases arrives with
    | pushAssign at_ found =>
        obtain ⟨inside, free⟩ := RequestPool.findFree_some found
        have unused := inv.fresh thread id inputData outputData at_
        exact ⟨moves.unused_kept unused (by simp [at_]), inside,
          moves.free_kept free (by simp [at_])⟩

theorem Moves.distinct (inv : Invariant state) (moves : Moves state thread call next) :
    ∀ slot < next.pool.size, ∀ other < next.pool.size,
      (next.pool.table slot).id ≠ -1 →
      (next.pool.table slot).id = (next.pool.table other).id → slot = other := by
  intro slot inside other otherInside valid same
  rcases moves.used_before ⟨valid, inside, rfl⟩ with held | ⟨_, _, at_, _⟩ <;>
    rcases moves.used_before ⟨valid, otherInside, same.symm⟩ with
      otherHeld | ⟨_, _, otherAt, _⟩
  · exact inv.distinct slot held.2.1 other otherHeld.2.1 (held.2.2 ▸ valid)
      (held.2.2.trans otherHeld.2.2.symm)
  · exact absurd otherAt (inv.unassigned held)
  · exact absurd at_ (inv.unassigned otherHeld)
  · rw [at_] at otherAt
    exact (Local.pushAssign.inj otherAt).2.2.2

/-- A slot is freed by the thread that has taken its only signal. -/
theorem Moves.freeCount (inv : Invariant state) (moves : Moves state thread call next) :
    ∀ slot < next.pool.size,
      (next.pool.table slot).id = -1 → (next.pool.table slot).served = 0 := by
  intro slot inside free
  rw [moves.size_eq] at inside
  cases moves.slot_moves slot with
  | kept same _ =>
      rw [same] at free ⊢
      exact inv.freeCount slot inside free
  | assigned at_ now logged =>
      obtain ⟨unused, _, wasFree⟩ := inv.chosen thread _ _ _ slot at_
      rw [now, Request.assign_id] at free
      exact absurd free unused.1
  | signalled at_ now =>
      obtain ⟨valid, _, held⟩ := (inv.signalling thread _ slot at_).1
      rw [now, Request.serve_id, held] at free
      exact absurd free valid
  | acquired at_ counted now after =>
      rw [now, Request.acquire_id] at free
      rw [now, Request.acquire_served, inv.freeCount slot inside free]
  | released at_ now =>
      rw [now, Request.release_served]
      exact (inv.releasing thread _ slot at_).2

theorem Moves.atMostOnce (inv : Invariant state)
    (moves : Moves state thread call next) :
    ∀ slot < next.pool.size, (next.pool.table slot).served ≤ 1 := by
  intro slot inside
  rw [moves.size_eq] at inside
  have atMostOnce := inv.atMostOnce slot inside
  cases moves.slot_moves slot with
  | kept same _ => rwa [same]
  | assigned at_ now logged => rwa [now, Request.assign_served]
  | signalled at_ now =>
      rw [now, Request.serve_served, (inv.signalling thread _ slot at_).2]
  | acquired at_ counted now after =>
      rw [now, Request.acquire_served]
      omega
  | released at_ now => rwa [now, Request.release_served]

/-- A second signal would need a second `serve` for the same request. -/
theorem Moves.signalling (inv : Invariant state) (explained : Explained state)
    (disciplined : Disciplined state (thread, call))
    (moves : Moves state thread call next) :
    ∀ other id slot, next.locals other = .serveSignal id slot →
      next.UsedBy slot id ∧ (next.pool.table slot).served = 0 := by
  intro other id slot there
  rcases moves.stands there with ⟨different, before⟩ | ⟨_, arrives⟩
  · obtain ⟨used, silent⟩ := inv.signalling other id slot before
    have unreleased : ∀ id, state.locals thread ≠ .waitRelease id slot := by
      intro id' at_
      obtain rfl := used.unique (inv.releasing thread id' slot at_).1
      exact (inv.notBoth thread other id' slot at_).2 before
    refine ⟨(moves.slot_kept inv used unreleased).1, ?_⟩
    cases moves.slot_moves slot with
    | kept same _ => rwa [same]
    | assigned at_ now logged => rwa [now, Request.assign_served]
    | signalled at_ now =>
        obtain rfl := used.unique (inv.signalling thread _ slot at_).1
        exact absurd (inv.oneSignal other thread _ slot before at_) different
    | acquired at_ counted now after => omega
    | released at_ now => exact absurd at_ (unreleased _)
  · cases arrives with
    | serveSignal at_ found logged =>
        obtain ⟨inside, rfl⟩ := RequestPool.find_some found
        obtain ⟨valid, unserved⟩ := disciplined (by simp [found])
        have silent : (state.pool.table slot).served = 0 := by
          by_contra counted
          exact unserved (explained.counted slot inside valid (by omega))
        refine ⟨(moves.slot_kept inv ⟨valid, inside, rfl⟩ (by simp [at_])).1, ?_⟩
        cases moves.slot_moves slot with
        | kept same _ => rwa [same]
        | assigned at' | signalled at' | acquired at' | released at' => simp [at_] at at'

theorem Moves.waiting (inv : Invariant state)
    (disciplined : Disciplined state (thread, call))
    (moves : Moves state thread call next) :
    ∀ other id slot, next.locals other = .waitSemaphore id slot →
      next.UsedBy slot id := by
  intro other id slot there
  rcases moves.stands there with ⟨different, before⟩ | ⟨_, arrives⟩
  · have used := inv.waiting other id slot before
    refine (moves.slot_kept inv used ?_).1
    intro id' at_
    obtain rfl := used.unique (inv.releasing thread id' slot at_).1
    exact (inv.notBoth thread other id' slot at_).1 before
  · cases arrives with
    | waitSemaphore at_ found logged =>
        have used : state.UsedBy slot id :=
          ⟨disciplined.1, RequestPool.find_some found⟩
        exact (moves.slot_kept inv used (by simp [at_])).1

theorem Moves.releasing (inv : Invariant state) (moves : Moves state thread call next) :
    ∀ other id slot, next.locals other = .waitRelease id slot →
      next.UsedBy slot id ∧ (next.pool.table slot).served = 0 := by
  intro other id slot there
  rcases moves.stands there with ⟨different, before⟩ | ⟨_, arrives⟩
  · obtain ⟨used, silent⟩ := inv.releasing other id slot before
    have unreleased : ∀ id, state.locals thread ≠ .waitRelease id slot := by
      intro id' at_
      obtain rfl := used.unique (inv.releasing thread id' slot at_).1
      exact different (inv.oneReleasing other thread id' slot before at_)
    refine ⟨(moves.slot_kept inv used unreleased).1, ?_⟩
    cases moves.slot_moves slot with
    | kept same _ => rwa [same]
    | assigned at_ now logged => rwa [now, Request.assign_served]
    | signalled at_ now =>
        obtain rfl := used.unique (inv.signalling thread _ slot at_).1
        exact absurd at_ (inv.notBoth other thread _ slot before).2
    | acquired at_ counted now after => omega
    | released at_ now => exact absurd at_ (unreleased _)
  · cases arrives with
    | waitRelease at_ counted now =>
        have used := inv.waiting thread id slot at_
        have atMostOnce := inv.atMostOnce slot used.2.1
        refine ⟨(moves.slot_kept inv used (by simp [at_])).1, ?_⟩
        rw [now, Request.acquire_served]
        omega

theorem Moves.oneSignal (inv : Invariant state) (explained : Explained state)
    (disciplined : Disciplined state (thread, call))
    (moves : Moves state thread call next) :
    ∀ first second id slot, next.locals first = .serveSignal id slot →
      next.locals second = .serveSignal id slot → first = second := by
  -- a thread that arrives finds that nobody serves the request yet
  have alone : ∀ other id slot,
      Arrives state next thread call (.serveSignal id slot) →
      state.locals other ≠ .serveSignal id slot := by
    intro other id slot arrives before
    cases arrives with
    | serveSignal at_ found logged =>
        exact (disciplined (by simp [found])).2
          (explained.signalling other id slot before)
  intro first second id slot firstThere secondThere
  rcases moves.stands firstThere with ⟨_, before⟩ | ⟨own, arrives⟩ <;>
    rcases moves.stands secondThere with ⟨_, secondBefore⟩ | ⟨secondOwn, secondArrives⟩
  · exact inv.oneSignal first second id slot before secondBefore
  · exact absurd before (alone first id slot secondArrives)
  · exact absurd secondBefore (alone second id slot arrives)
  · exact own.trans secondOwn.symm

theorem Moves.oneWaiting (inv : Invariant state) (explained : Explained state)
    (disciplined : Disciplined state (thread, call))
    (moves : Moves state thread call next) :
    ∀ first second id slot, next.locals first = .waitSemaphore id slot →
      next.locals second = .waitSemaphore id slot → first = second := by
  have alone : ∀ other ≠ thread, ∀ id slot,
      Arrives state next thread call (.waitSemaphore id slot) →
      state.locals other ≠ .waitSemaphore id slot := by
    intro other different id slot arrives before
    cases arrives with
    | waitSemaphore at_ found logged =>
        exact disciplined.2 other different (explained.waiting other id slot before)
  intro first second id slot firstThere secondThere
  rcases moves.stands firstThere with ⟨different, before⟩ | ⟨own, arrives⟩ <;>
    rcases moves.stands secondThere with
      ⟨secondDifferent, secondBefore⟩ | ⟨secondOwn, secondArrives⟩
  · exact inv.oneWaiting first second id slot before secondBefore
  · exact absurd before (alone first different id slot secondArrives)
  · exact absurd secondBefore (alone second secondDifferent id slot arrives)
  · exact own.trans secondOwn.symm

theorem Moves.oneReleasing (inv : Invariant state)
    (moves : Moves state thread call next) :
    ∀ first second id slot, next.locals first = .waitRelease id slot →
      next.locals second = .waitRelease id slot → first = second := by
  have alone : ∀ other id slot,
      Arrives state next thread call (.waitRelease id slot) →
      state.locals other ≠ .waitRelease id slot := by
    intro other id slot arrives before
    cases arrives with
    | waitRelease at_ counted now =>
        have silent := (inv.releasing other id slot before).2
        omega
  intro first second id slot firstThere secondThere
  rcases moves.stands firstThere with ⟨_, before⟩ | ⟨own, arrives⟩ <;>
    rcases moves.stands secondThere with ⟨_, secondBefore⟩ | ⟨secondOwn, secondArrives⟩
  · exact inv.oneReleasing first second id slot before secondBefore
  · exact absurd before (alone first id slot secondArrives)
  · exact absurd secondBefore (alone second id slot arrives)
  · exact own.trans secondOwn.symm

/-- While a thread is about to free a slot, no other thread waits for it and no
other thread is about to signal it. -/
theorem Moves.notBoth (inv : Invariant state) (explained : Explained state)
    (disciplined : Disciplined state (thread, call))
    (moves : Moves state thread call next) :
    ∀ first second id slot, next.locals first = .waitRelease id slot →
      next.locals second ≠ .waitSemaphore id slot ∧
        next.locals second ≠ .serveSignal id slot := by
  intro first second id slot firstThere
  rcases moves.stands firstThere with ⟨different, before⟩ | ⟨rfl, arrives⟩
  · obtain ⟨serving, waits⟩ := explained.releasing first id slot before
    obtain ⟨notWaiting, notSignalling⟩ := inv.notBoth first second id slot before
    constructor <;> intro secondThere
    · rcases moves.stands secondThere with ⟨_, secondBefore⟩ | ⟨_, secondArrives⟩
      · exact notWaiting secondBefore
      · cases secondArrives with
        | waitSemaphore at_ found logged => exact disciplined.2 first different waits
    · rcases moves.stands secondThere with ⟨_, secondBefore⟩ | ⟨_, secondArrives⟩
      · exact notSignalling secondBefore
      · cases secondArrives with
        | serveSignal at_ found logged => exact (disciplined (by simp [found])).2 serving
  · cases arrives with
    | waitRelease at_ counted now =>
        constructor <;> intro secondThere
        · rcases moves.stands secondThere with ⟨other, secondBefore⟩ | ⟨rfl, _⟩
          · exact other (inv.oneWaiting second first id slot secondBefore at_)
          · simp [firstThere] at secondThere
        · rcases moves.stands secondThere with ⟨_, secondBefore⟩ | ⟨rfl, _⟩
          · have silent := (inv.signalling second id slot secondBefore).2
            omega
          · simp [firstThere] at secondThere

theorem Moves.invariant (inv : Invariant state) (explained : Explained state)
    (disciplined : Disciplined state (thread, call))
    (moves : Moves state thread call next) : Invariant next where
  locked := moves.locked inv
  wanted := moves.wanted inv disciplined
  fresh := moves.fresh inv
  chosen := moves.chosen inv
  distinct := moves.distinct inv
  freeCount := moves.freeCount inv
  atMostOnce := moves.atMostOnce inv
  signalling := moves.signalling inv explained disciplined
  waiting := moves.waiting inv disciplined
  releasing := moves.releasing inv
  oneSignal := moves.oneSignal inv explained disciplined
  oneWaiting := moves.oneWaiting inv explained disciplined
  oneReleasing := moves.oneReleasing inv
  notBoth := moves.notBoth inv explained disciplined

theorem Moves.created_logged (explained : Explained state)
    (moves : Moves state thread call next) :
    ∀ slot < next.pool.size, (next.pool.table slot).id ≠ -1 →
      .created (next.pool.table slot).id ∈ next.log := by
  intro slot inside valid
  rcases moves.used_before ⟨valid, inside, rfl⟩ with held | ⟨_, _, _, logged⟩
  · rw [← held.2.2] at valid ⊢
    exact moves.log_mono (explained.created slot held.2.1 valid)
  · rw [logged]
    exact List.mem_cons_self

theorem Moves.counted_logged (inv : Invariant state) (explained : Explained state)
    (moves : Moves state thread call next) :
    ∀ slot < next.pool.size, (next.pool.table slot).id ≠ -1 →
      0 < (next.pool.table slot).served →
      .serving (next.pool.table slot).id ∈
        sinceCreated (next.pool.table slot).id next.log := by
  intro slot inside valid counted
  rw [moves.size_eq] at inside
  cases moves.slot_moves slot with
  | kept same _ =>
      rw [same] at valid counted ⊢
      exact moves.since_kept inv ⟨valid, inside, rfl⟩
        (explained.counted slot inside valid counted)
  | assigned at_ now logged =>
      have free := (inv.chosen thread _ _ _ slot at_).2.2
      rw [now, Request.assign_served, inv.freeCount slot inside free] at counted
      exact absurd counted (Nat.lt_irrefl 0)
  | signalled at_ now =>
      have used := (inv.signalling thread _ slot at_).1
      rw [now, Request.serve_id, used.2.2]
      exact moves.since_kept inv used (explained.signalling thread _ slot at_)
  | acquired at_ before now after =>
      rw [now, Request.acquire_id] at valid ⊢
      exact moves.since_kept inv ⟨valid, inside, rfl⟩
        (explained.counted slot inside valid before)
  | released at_ now => simp [now] at valid

theorem Moves.signalling_logged (inv : Invariant state) (explained : Explained state)
    (moves : Moves state thread call next) :
    ∀ other id slot, next.locals other = .serveSignal id slot →
      .serving id ∈ sinceCreated id next.log := by
  intro other id slot there
  rcases moves.stands there with ⟨_, before⟩ | ⟨_, arrives⟩
  · exact moves.since_kept inv (inv.signalling other id slot before).1
      (explained.signalling other id slot before)
  · cases arrives with
    | serveSignal at_ found logged => simp [logged]

theorem Moves.waiting_logged (inv : Invariant state) (explained : Explained state)
    (moves : Moves state thread call next) :
    ∀ other id slot, next.locals other = .waitSemaphore id slot →
      .waiting other id ∈ sinceCreated id next.log := by
  intro other id slot there
  rcases moves.stands there with ⟨_, before⟩ | ⟨rfl, arrives⟩
  · exact moves.since_kept inv (inv.waiting other id slot before)
      (explained.waiting other id slot before)
  · cases arrives with
    | waitSemaphore at_ found logged => simp [logged]

theorem Moves.releasing_logged (inv : Invariant state) (explained : Explained state)
    (moves : Moves state thread call next) :
    ∀ other id slot, next.locals other = .waitRelease id slot →
      .serving id ∈ sinceCreated id next.log ∧
        .waiting other id ∈ sinceCreated id next.log := by
  intro other id slot there
  rcases moves.stands there with ⟨_, before⟩ | ⟨rfl, arrives⟩
  · have used := (inv.releasing other id slot before).1
    obtain ⟨serving, waits⟩ := explained.releasing other id slot before
    exact ⟨moves.since_kept inv used serving, moves.since_kept inv used waits⟩
  · cases arrives with
    | waitRelease at_ counted now =>
        have used := inv.waiting other id slot at_
        have serving := explained.counted slot used.2.1 (used.2.2 ▸ used.1) counted
        rw [used.2.2] at serving
        exact ⟨moves.since_kept inv used serving,
          moves.since_kept inv used (explained.waiting other id slot at_)⟩

omit [DecidableEq Thread] in
/-- A request that was just created is in the table. -/
theorem Logs.created_used (inv : Invariant state) {id : Int32}
    (reason : Logs state next thread call (.created id)) :
    ∃ slot < state.pool.size, (next.pool.table slot).id = id := by
  cases reason with
  | @created _ _ _ slot at_ now =>
      exact ⟨slot, (inv.chosen thread id _ _ slot at_).2.1, by simp [now]⟩

/-- A request stays in the table until the thread that waits for it frees it. -/
theorem Moves.kept (inv : Invariant state) (explained : Explained state)
    (moves : Moves state thread call next) :
    ∀ id, id ≠ -1 → .created id ∈ next.log →
      (∃ slot < next.pool.size, (next.pool.table slot).id = id) ∨
        ∃ other, .waiting other id ∈ sinceCreated id next.log := by
  intro id valid created
  rw [moves.size_eq]
  rcases moves.log_cases created with before | reason
  · rcases explained.kept id valid before with ⟨slot, inside, held⟩ | ⟨other, waits⟩
    · have used : state.UsedBy slot id := ⟨valid, inside, held⟩
      by_cases unreleased : ∀ other, state.locals thread ≠ .waitRelease other slot
      · exact Or.inl ⟨slot, inside, (moves.slot_kept inv used unreleased).1.2.2⟩
      · push Not at unreleased
        obtain ⟨id', at_⟩ := unreleased
        obtain rfl := used.unique (inv.releasing thread id' slot at_).1
        exact Or.inr ⟨thread,
          moves.since_kept inv used (explained.releasing thread id' slot at_).2⟩
    · rcases moves.since_mono waits with still | again
      · exact Or.inr ⟨other, still⟩
      · exact Or.inl (again.created_used inv)
  · exact Or.inl (reason.created_used inv)

/-- A `serve` that has just returned has signalled the slot of its request. -/
theorem Moves.signal_counted (inv : Invariant state)
    (moves : Moves state thread call next) {slot : Nat} {id : Int32}
    (used : next.UsedBy slot id) {server : Thread}
    (reason : Logs state next thread call (.serveReturned server id 0)) :
    0 < (next.pool.table slot).served := by
  cases reason with
  | serveMissing failed => exact absurd rfl failed
  | @serveReturned _ signalled at_ now =>
      have usedBefore := (inv.signalling thread id signalled at_).1
      have after := (moves.slot_kept inv usedBefore (by simp [at_])).1
      obtain rfl := moves.distinct inv slot used.2.1 signalled after.2.1
        (used.2.2 ▸ used.1) (used.2.2.trans after.2.2.symm)
      simp [now]

/-- A signal stays until the thread that waits for the request takes it. -/
theorem Moves.notLost (inv : Invariant state) (explained : Explained state)
    (moves : Moves state thread call next) :
    ∀ slot < next.pool.size, (next.pool.table slot).id ≠ -1 → ∀ server,
      .serveReturned server (next.pool.table slot).id 0 ∈
        sinceCreated (next.pool.table slot).id next.log →
      0 < (next.pool.table slot).served ∨
        ∃ other, next.locals other = .waitRelease (next.pool.table slot).id slot := by
  intro slot inside valid server returned
  have used : next.UsedBy slot (next.pool.table slot).id := ⟨valid, inside, rfl⟩
  rw [moves.size_eq] at inside
  cases moves.slot_moves slot with
  | kept same unreleased =>
      rcases moves.since_cases returned with before | reason
      · rw [same] at valid before ⊢
        rcases explained.notLost slot inside valid server before with
          counted | ⟨other, there⟩
        · exact Or.inl counted
        · have different : other ≠ thread := fun own => unreleased _ (own ▸ there)
          exact Or.inr ⟨other, (moves.locals_other different).trans there⟩
      · exact Or.inl (moves.signal_counted inv used reason)
  | assigned at_ now logged =>
      rw [logged, now, Request.assign_id, sinceCreated_cons, if_pos rfl] at returned
      cases returned
  | signalled at_ now => exact Or.inl (by simp [now])
  | acquired at_ counted now after =>
      have held := (inv.waiting thread _ slot at_).2.2
      exact Or.inr ⟨thread, by rw [after, now, Request.acquire_id, held]⟩
  | released at_ now => simp [now] at valid

theorem Moves.served_logged (inv : Invariant state) (explained : Explained state)
    (moves : Moves state thread call next) :
    ∀ server id, .serveReturned server id 0 ∈ next.log →
      id ≠ -1 ∧ .created id ∈ next.log := by
  intro server id returned
  rcases moves.log_cases returned with before | reason
  · obtain ⟨valid, created⟩ := explained.served server id before
    exact ⟨valid, moves.log_mono created⟩
  · cases reason with
    | serveMissing failed => exact absurd rfl failed
    | serveReturned at_ now =>
        obtain ⟨valid, inside, held⟩ := (inv.signalling thread id _ at_).1
        have created := explained.created _ inside (held ▸ valid)
        exact ⟨valid, moves.log_mono (held ▸ created)⟩

theorem Moves.returned_logged (inv : Invariant state) (explained : Explained state)
    (moves : Moves state thread call next) :
    ∀ other id before, (.waitReturned other id 0 :: before) <:+ next.log →
      .created id ∈ before ∧ .serving id ∈ sinceCreated id before ∧
        .waiting other id ∈ sinceCreated id before := by
  intro other id before suffix
  rcases moves.suffix_cases suffix with old | ⟨rfl, reason⟩
  · exact explained.returned other id before old
  · cases reason with
    | waitMissing failed missing => exact absurd rfl failed
    | waitReturned at_ =>
        obtain ⟨valid, inside, held⟩ := (inv.releasing thread id _ at_).1
        have created := explained.created _ inside (held ▸ valid)
        exact ⟨held ▸ created, explained.releasing thread id _ at_⟩

theorem Moves.explained (inv : Invariant state) (explained : Explained state)
    (moves : Moves state thread call next) : Explained next where
  created := moves.created_logged explained
  counted := moves.counted_logged inv explained
  signalling := moves.signalling_logged inv explained
  waiting := moves.waiting_logged inv explained
  releasing := moves.releasing_logged inv explained
  kept := moves.kept inv explained
  notLost := moves.notLost inv explained
  served := moves.served_logged inv explained
  returned := moves.returned_logged inv explained

end Preservation

omit [DecidableEq Thread] in
theorem start_invariant (size : Nat) : Invariant (start Thread size) := by
  constructor <;> grind [start, RequestPool.new]

theorem start_explained (size : Nat) : Explained (start Thread size) := by
  constructor <;> grind [start, RequestPool.new]

/-- Every state of a disciplined run. -/
theorem reachable {size : Nat} {labels : List (Thread × Call)}
    {state : PoolThreads Thread}
    (reached : machine.run (start Thread size) labels = some state)
    (disciplined : machine.AllSteps Disciplined (start Thread size) labels) :
    Invariant state ∧ Explained state := by
  have preserved : ∀ (before : PoolThreads Thread) label after,
      Invariant before ∧ Explained before → Disciplined before label →
      machine.step before label = some after → Invariant after ∧ Explained after := by
    intro before label after holds obeys stepped
    have moves := moves_of_step stepped
    exact ⟨moves.invariant holds.1 holds.2 obeys, moves.explained holds.1 holds.2⟩
  exact Machine.run_invariant preserved ⟨start_invariant size, start_explained size⟩
    disciplined reached

/-! ## What the pool guarantees -/

section Guarantees

variable {state next : PoolThreads Thread}

/-- A thread that waits for a served request does not block. -/
theorem resume_isSome_of_served (inv : Invariant state) (explained : Explained state)
    {server thread : Thread} {id : Int32} {slot : Nat}
    (returned : .serveReturned server id 0 ∈ sinceCreated id state.log)
    (waits : state.locals thread = .waitSemaphore id slot) :
    (state.step thread .resume).isSome := by
  obtain ⟨valid, inside, used⟩ := inv.waiting thread id slot waits
  have signalled : 0 < (state.pool.table slot).served := by
    subst used
    rcases explained.notLost slot inside valid server returned with
      counted | ⟨other, releases⟩
    · exact counted
    · exact absurd waits (inv.notBoth other thread _ slot releases).1
  simp [step, waits, pushStep, requestStep, signalled]

/-- A served request that nobody waits for yet is in the table, with its signal. -/
theorem find_of_served (explained : Explained state)
    {server : Thread} {id : Int32}
    (returned : .serveReturned server id 0 ∈ sinceCreated id state.log)
    (unclaimed : ∀ thread, .waiting thread id ∉ sinceCreated id state.log) :
    ∃ slot, state.pool.find id = some slot ∧ 0 < (state.pool.table slot).served := by
  have logged : .serveReturned server id 0 ∈ state.log :=
    (List.takeWhile_sublist _).subset returned
  obtain ⟨valid, created⟩ := explained.served server id logged
  cases scan : state.pool.find id with
  | none =>
      rcases explained.kept id valid created with ⟨slot, inside, used⟩ | ⟨thread, waits⟩
      · exact absurd used (RequestPool.find_none_iff.mp scan slot inside)
      · exact absurd waits (unclaimed thread)
  | some slot =>
      obtain ⟨inside, used⟩ := RequestPool.find_some scan
      subst used
      refine ⟨slot, rfl, ?_⟩
      rcases explained.notLost slot inside valid server returned with
        counted | ⟨other, releases⟩
      · exact counted
      · exact absurd (explained.releasing other _ slot releases).2 (unclaimed other)

/-- A `push` gives up only where it sees the id or no free slot. -/
theorem push_refused {thread : Thread} {call : Call} {id : Int32} {exitCode : Int}
    (stepped : state.step thread call = some next)
    (decided : next.locals thread = .pushUnlock id exitCode) (failed : exitCode ≠ 0) :
    (∃ slot < state.pool.size, (state.pool.table slot).id = id) ∨
      ∀ slot < state.pool.size, (state.pool.table slot).id ≠ -1 := by
  cases moves_of_step stepped with
  | idInUse at_ found =>
      simp only [goto_locals, if_true, Local.pushUnlock.injEq] at decided
      rw [← decided.1]
      exact Or.inl ⟨_, RequestPool.find_some found⟩
  | tooMany at_ full => exact Or.inr (RequestPool.findFree_none_iff.mp full)
  | assign at_ =>
      simp only [goto_locals, if_true, Local.pushUnlock.injEq] at decided
      exact absurd decided.2.symm failed
  | enterPush | serveFound | waitFound | idUnique | slotFound | unlock | signal
    | acquire | release => simp at decided
  | serveMissing at_ | waitMissing at_ => simp [at_] at decided

/-- In every run in which the callers keep to the rules: the ids in use are
distinct, the semaphore of a free slot is not signalled, `wait` returns only
after a `serve` that followed the creation of the request, no `serve` is lost,
and `push` fails only for an id in use or a full table. -/
theorem waits_pair_with_serves {size : Nat} {labels : List (Thread × Call)}
    (reached : machine.run (start Thread size) labels = some state)
    (disciplined : machine.AllSteps Disciplined (start Thread size) labels) :
    (∀ slot < state.pool.size, ∀ other < state.pool.size,
      (state.pool.table slot).id ≠ -1 →
      (state.pool.table slot).id = (state.pool.table other).id → slot = other) ∧
    (∀ slot < state.pool.size,
      (state.pool.table slot).id = -1 → (state.pool.table slot).served = 0) ∧
    (∀ thread id before, (.waitReturned thread id 0 :: before) <:+ state.log →
      .created id ∈ before ∧ .serving id ∈ sinceCreated id before) ∧
    (∀ server id, .serveReturned server id 0 ∈ sinceCreated id state.log →
      (∀ thread slot, state.locals thread = .waitSemaphore id slot →
        (state.step thread .resume).isSome) ∧
      ((∀ thread, .waiting thread id ∉ sinceCreated id state.log) →
        ∃ slot, state.pool.find id = some slot ∧
          0 < (state.pool.table slot).served)) ∧
    (∀ thread call next id exitCode, state.step thread call = some next →
      next.locals thread = .pushUnlock id exitCode → exitCode ≠ 0 →
      (∃ slot < state.pool.size, (state.pool.table slot).id = id) ∨
        ∀ slot < state.pool.size, (state.pool.table slot).id ≠ -1) := by
  obtain ⟨inv, explained⟩ := reachable reached disciplined
  refine ⟨inv.distinct, inv.freeCount, ?_, ?_, ?_⟩
  · intro thread id before suffix
    obtain ⟨created, serving, _⟩ := explained.returned thread id before suffix
    exact ⟨created, serving⟩
  · intro server id returned
    exact ⟨fun thread slot waits => resume_isSome_of_served inv explained returned waits,
      find_of_served explained returned⟩
  · intro thread call next id exitCode stepped decided failed
    exact push_refused stepped decided failed

instance disciplinedDecidable [Fintype Thread] (state : PoolThreads Thread) :
    (label : Thread × Call) → Decidable (Disciplined state label)
  | (_, .push id _ _) => inferInstanceAs (Decidable (id ≠ -1))
  | (_, .serve id) =>
      inferInstanceAs (Decidable (state.pool.find id ≠ none →
        id ≠ -1 ∧ .serving id ∉ sinceCreated id state.log))
  | (thread, .wait id) =>
      inferInstanceAs (Decidable (id ≠ -1 ∧
        ∀ other ≠ thread, .waiting other id ∉ sinceCreated id state.log))
  | (_, .resume) => isTrue trivial

/-- One thread pushes request 5 and waits for it while another one serves it. -/
def oneRequest : List (Bool × Call) :=
  [(true, .push 5 none (some 0)), (true, .resume), (true, .resume), (true, .resume),
    (true, .resume), (true, .wait 5), (false, .serve 5), (false, .resume),
    (true, .resume), (true, .resume)]

theorem oneRequest_paired :
    ∃ state : PoolThreads Bool, machine.run (start Bool 1) oneRequest = some state ∧
      .created 5 ∈ state.log.tail ∧ .serving 5 ∈ sinceCreated 5 state.log.tail := by
  have reached : machine.run (start Bool 1) oneRequest = some _ := rfl
  have guarantees := waits_pair_with_serves reached (by decide)
  exact ⟨_, rfl, guarantees.2.2.1 true 5 _ (List.suffix_refl _)⟩

end Guarantees

end PoolThreads

end Tegenaria.LibLock
