import Mathlib.Data.Rat.Defs
import Mathlib.Logic.Function.Basic
import Tegenaria.Foundation.Transition

/-!
# Jobs and their states

A job runs a callback in a thread of its own.  The thread is started before the
constructor has set the error code and the progress to zero, and everybody writes the
state without looking at it.  The states move forward in every run in which `cancel`
comes after the worker has begun and the callback reports after the constructor.
Steps of different threads interleave; the notify callback is not followed.
-/

namespace Tegenaria.LibJob

open Foundation

/-! ## The object -/

inductive JobState where
  | error
  | initializing
  | pending
  | finished
  | stopped
  deriving DecidableEq

/-- The states in which a job does not work any more. -/
def JobState.IsFinal (state : JobState) : Prop := state ≠ .initializing ∧ state ≠ .pending

instance (state : JobState) : Decidable state.IsFinal :=
  inferInstanceAs (Decidable (state ≠ .initializing ∧ state ≠ .pending))

/-- The fields that the threads share. -/
structure Job where
  state : JobState
  percentCompleted : ℚ
  errorCode : Int
  refCount : Int
  workerThread : Bool

namespace Job

def setState (job : Job) (state : JobState) : Job := { job with state := state }

def setErrorCode (job : Job) (code : Int) : Job := { job with errorCode := code }

def setPercentCompleted (job : Job) (percentCompleted : ℚ) : Job :=
  { job with percentCompleted := percentCompleted }

def cancel (job : Job) : Job := job.setState .stopped

/-- `addRef`, under the mutex. -/
def addRef (job : Job) : Job := { job with refCount := job.refCount + 1 }

/-- The part of `release` under the mutex: the job and whether it is to be deleted. -/
def release (job : Job) : Job × Bool :=
  ({ job with refCount := job.refCount - 1 }, job.refCount - 1 = 0)

/-- The constructor up to the start of the thread.  The two statistics and the handle of
the thread are not set yet. -/
def construct (percentCompleted : ℚ) (errorCode : Int) : Job where
  state := .initializing
  percentCompleted := percentCompleted
  errorCode := errorCode
  refCount := 1
  workerThread := false

/-- What is left of the constructor when the thread has been started. -/
inductive ConstructorStep where
  | storeThread
  | zeroPercent
  | zeroErrorCode
  deriving DecidableEq

def ConstructorStep.all : List ConstructorStep := [.storeThread, .zeroPercent, .zeroErrorCode]

def constructorStep (job : Job) : ConstructorStep → Job
  | .storeThread => { job with workerThread := true }
  | .zeroPercent => { job with percentCompleted := 0 }
  | .zeroErrorCode => { job with errorCode := 0 }

end Job

/-! ## The threads -/

/-- Where `workerLoop` is. -/
inductive WorkerPoint where
  | started
  | referenced
  | working
  | ended
  | released
  deriving DecidableEq

/-- Where a call of `wait` is: it tests the state twice in a round. -/
inductive WaitPoint where
  | notCalled
  | testInitializing
  | testPending
  | sleeping
  | returned (exitCode : Int)
  deriving DecidableEq

structure Waiter where
  timeout : Int
  timeLeft : Int
  point : WaitPoint
  deriving DecidableEq

/-- The job, what is left of its constructor, the worker with the last values that its
callback has set, and the callers of `wait`. -/
structure JobThreads where
  job : Job
  constructor : List Job.ConstructorStep
  worker : WorkerPoint
  percentSet : Option ℚ
  errorSet : Option Int
  waiters : Nat → Waiter

/-- The states that a callback ends with. -/
inductive Outcome where
  | finished
  | error
  | stopped
  deriving DecidableEq

def Outcome.state : Outcome → JobState
  | .finished => .finished
  | .error => .error
  | .stopped => .stopped

inductive ThreadStep where
  | construct
  | workerAddRef
  | workerPending
  | workerPercent (percentCompleted : ℚ)
  | workerErrorCode (code : Int)
  | workerEnd (outcome : Outcome)
  /-- The callback is a null pointer. -/
  | workerNoCallback
  | workerRelease
  | cancel
  | wait (waiter : Nat) (timeout : Int)
  | waitStep (waiter : Nat)

/-- The next step of a call of `wait`. -/
def Waiter.next (state : JobState) (waiter : Waiter) : Option Waiter :=
  match waiter.point with
  | .notCalled => none
  | .testInitializing =>
      some { waiter with point := if state = .initializing then .sleeping else .testPending }
  | .testPending =>
      some { waiter with point := if state = .pending then .sleeping else .returned 0 }
  | .sleeping =>
      if waiter.timeout > 0 then
        let timeLeft := waiter.timeLeft - 50
        some
          { waiter with
            timeLeft := timeLeft
            point := if timeLeft ≤ 0 then .returned (-1) else .testInitializing }
      else some { waiter with point := .testInitializing }
  | .returned _ => none

namespace JobThreads

def setJob (threads : JobThreads) (job : Job) (worker : WorkerPoint) : JobThreads :=
  { threads with job := job, worker := worker }

def step (threads : JobThreads) : ThreadStep → Option JobThreads
  | .construct =>
      match threads.constructor with
      | [] => none
      | first :: rest =>
          some { threads with job := threads.job.constructorStep first, constructor := rest }
  | .workerAddRef =>
      if threads.worker = .started then some (threads.setJob threads.job.addRef .referenced) else none
  | .workerPending =>
      if threads.worker = .referenced then
        some (threads.setJob (threads.job.setState .pending) .working)
      else none
  | .workerPercent percentCompleted =>
      if threads.worker = .working then
        some
          { threads with
            job := threads.job.setPercentCompleted percentCompleted
            percentSet := some percentCompleted }
      else none
  | .workerErrorCode code =>
      if threads.worker = .working then
        some { threads with job := threads.job.setErrorCode code, errorSet := some code }
      else none
  | .workerEnd outcome =>
      if threads.worker = .working then
        some (threads.setJob (threads.job.setState outcome.state) .ended)
      else none
  | .workerNoCallback =>
      if threads.worker = .working then some (threads.setJob threads.job .ended) else none
  | .workerRelease =>
      if threads.worker = .ended then some (threads.setJob threads.job.release.1 .released) else none
  | .cancel => some { threads with job := threads.job.cancel }
  | .wait waiter timeout =>
      if (threads.waiters waiter).point = .notCalled then
        some
          { threads with
            waiters := Function.update threads.waiters waiter
              { timeout := timeout, timeLeft := timeout, point := .testInitializing } }
      else none
  | .waitStep waiter =>
      ((threads.waiters waiter).next threads.job.state).map fun next =>
        { threads with waiters := Function.update threads.waiters waiter next }

end JobThreads

def jobMachine : Machine JobThreads ThreadStep where
  step := JobThreads.step

/-- The thread has just been started. -/
def startJob (percentCompleted : ℚ) (errorCode : Int) : JobThreads where
  job := .construct percentCompleted errorCode
  constructor := Job.ConstructorStep.all
  worker := .started
  percentSet := none
  errorSet := none
  waiters _ := { timeout := 0, timeLeft := 0, point := .notCalled }

/-! ## Orderly runs -/

/-- The worker has set the state to pending. -/
def WorkerPoint.Begun (worker : WorkerPoint) : Prop := worker ≠ .started ∧ worker ≠ .referenced

instance (worker : WorkerPoint) : Decidable worker.Begun :=
  inferInstanceAs (Decidable (worker ≠ .started ∧ worker ≠ .referenced))

/-- The job is not cancelled before the worker has begun, and the callback does not report
before the constructor has set the reported field to zero. -/
def Orderly (threads : JobThreads) : ThreadStep → Prop
  | .cancel => threads.worker.Begun
  | .workerPercent _ => .zeroPercent ∉ threads.constructor
  | .workerErrorCode _ => .zeroErrorCode ∉ threads.constructor
  | _ => True

instance (threads : JobThreads) : (label : ThreadStep) → Decidable (Orderly threads label)
  | .cancel => inferInstanceAs (Decidable threads.worker.Begun)
  | .workerPercent _ => inferInstanceAs (Decidable (.zeroPercent ∉ threads.constructor))
  | .workerErrorCode _ => inferInstanceAs (Decidable (.zeroErrorCode ∉ threads.constructor))
  | .construct | .workerAddRef | .workerPending | .workerEnd _ | .workerNoCallback
  | .workerRelease | .wait _ _ | .waitStep _ => isTrue trivial

/-- What holds in every state of an orderly run. -/
structure Forward (threads : JobThreads) : Prop where
  early : ¬threads.worker.Begun → threads.job.state = .initializing
  percentKept : ∀ percentCompleted, threads.percentSet = some percentCompleted →
    .zeroPercent ∉ threads.constructor ∧ threads.job.percentCompleted = percentCompleted
  errorKept : ∀ code, threads.errorSet = some code →
    .zeroErrorCode ∉ threads.constructor ∧ threads.job.errorCode = code
  tested : ∀ waiter, (threads.waiters waiter).point = .testPending →
    threads.job.state ≠ .initializing
  returned : ∀ waiter, (threads.waiters waiter).point = .returned 0 → threads.job.state.IsFinal

/-- How a step changes the state: not at all, to a final state, or forward from
initializing to pending. -/
inductive StateMoves (before after : JobState) : Prop where
  | kept (same : after = before)
  | final (isFinal : after.IsFinal)
  | begun (fromStart : before = .initializing) (toPending : after = .pending)

theorem StateMoves.isFinal {before after : JobState} (moves : StateMoves before after)
    (isFinal : before.IsFinal) : after.IsFinal := by
  cases moves with
  | kept same => exact same ▸ isFinal
  | final isFinal => exact isFinal
  | begun fromStart _ => exact absurd fromStart isFinal.1

theorem StateMoves.left {before after : JobState} (moves : StateMoves before after)
    (left : before ≠ .initializing) : after ≠ .initializing := by
  cases moves with
  | kept same => exact same ▸ left
  | final isFinal => exact isFinal.1
  | begun fromStart _ => exact absurd fromStart left

theorem Outcome.isFinal (outcome : Outcome) : outcome.state.IsFinal := by
  cases outcome <;> decide

/-- What each step does, with its guard. -/
inductive Stepped (threads : JobThreads) : ThreadStep → JobThreads → Prop where
  | construct {first : Job.ConstructorStep} {rest : List Job.ConstructorStep}
      (left : threads.constructor = first :: rest) :
      Stepped threads .construct
        { threads with job := threads.job.constructorStep first, constructor := rest }
  | workerAddRef (started : threads.worker = .started) :
      Stepped threads .workerAddRef (threads.setJob threads.job.addRef .referenced)
  | workerPending (referenced : threads.worker = .referenced) :
      Stepped threads .workerPending (threads.setJob (threads.job.setState .pending) .working)
  | workerPercent (percentCompleted : ℚ) (working : threads.worker = .working) :
      Stepped threads (.workerPercent percentCompleted)
        { threads with
          job := threads.job.setPercentCompleted percentCompleted
          percentSet := some percentCompleted }
  | workerErrorCode (code : Int) (working : threads.worker = .working) :
      Stepped threads (.workerErrorCode code)
        { threads with job := threads.job.setErrorCode code, errorSet := some code }
  | workerEnd (outcome : Outcome) (working : threads.worker = .working) :
      Stepped threads (.workerEnd outcome)
        (threads.setJob (threads.job.setState outcome.state) .ended)
  | workerNoCallback (working : threads.worker = .working) :
      Stepped threads .workerNoCallback (threads.setJob threads.job .ended)
  | workerRelease (ended : threads.worker = .ended) :
      Stepped threads .workerRelease (threads.setJob threads.job.release.1 .released)
  | cancel : Stepped threads .cancel { threads with job := threads.job.cancel }
  | wait (waiter : Nat) (timeout : Int) (idle : (threads.waiters waiter).point = .notCalled) :
      Stepped threads (.wait waiter timeout)
        { threads with
          waiters := Function.update threads.waiters waiter
            { timeout := timeout, timeLeft := timeout, point := .testInitializing } }
  | waitStep (waiter : Nat) {moved : Waiter}
      (next : (threads.waiters waiter).next threads.job.state = some moved) :
      Stepped threads (.waitStep waiter)
        { threads with waiters := Function.update threads.waiters waiter moved }

theorem stepped_of_step {threads next : JobThreads} {label : ThreadStep}
    (stepped : jobMachine.step threads label = some next) : Stepped threads label next := by
  simp only [jobMachine] at stepped
  cases label with
  | construct =>
      rw [JobThreads.step] at stepped
      split at stepped
      · cases stepped
      · next left =>
          cases stepped
          exact .construct left
  | cancel =>
      cases stepped
      exact .cancel
  | waitStep waiter =>
      obtain ⟨moved, next, rfl⟩ := Option.map_eq_some_iff.mp stepped
      exact .waitStep waiter next
  | _ =>
      rw [JobThreads.step] at stepped
      split at stepped
      · cases stepped
        constructor
        assumption
      · cases stepped

theorem Forward.moves {threads next : JobThreads} {label : ThreadStep} (forward : Forward threads)
    (stepped : Stepped threads label next) : StateMoves threads.job.state next.job.state := by
  cases stepped with
  | @construct first rest _ => cases first <;> exact .kept rfl
  | workerPending referenced =>
      exact .begun (forward.early (by simp [WorkerPoint.Begun, referenced])) rfl
  | workerEnd outcome _ => exact .final outcome.isFinal
  | cancel => exact .final ⟨JobState.noConfusion, JobState.noConfusion⟩
  | _ => exact .kept rfl

/-- The point of the worker before it begins is left only by setting the state. -/
theorem Forward.early_next {threads next : JobThreads} {label : ThreadStep}
    (forward : Forward threads) (orderly : Orderly threads label)
    (stepped : Stepped threads label next) (notBegun : ¬next.worker.Begun) :
    next.job.state = .initializing := by
  cases stepped with
  | @construct first rest _ => cases first <;> exact forward.early notBegun
  | workerAddRef started => exact forward.early (by simp [WorkerPoint.Begun, started])
  | workerPercent _ working => exact absurd (by simp [WorkerPoint.Begun, working]) notBegun
  | workerErrorCode _ working => exact absurd (by simp [WorkerPoint.Begun, working]) notBegun
  | cancel => exact absurd orderly notBegun
  | wait => exact forward.early notBegun
  | waitStep => exact forward.early notBegun
  | _ => exact absurd ⟨WorkerPoint.noConfusion, WorkerPoint.noConfusion⟩ notBegun

theorem Forward.percent_next {threads next : JobThreads} {label : ThreadStep}
    (forward : Forward threads) (orderly : Orderly threads label)
    (stepped : Stepped threads label next) {percentCompleted : ℚ}
    (isSet : next.percentSet = some percentCompleted) :
    .zeroPercent ∉ next.constructor ∧ next.job.percentCompleted = percentCompleted := by
  cases stepped with
  | @construct first rest left =>
      obtain ⟨absent, kept⟩ := forward.percentKept percentCompleted isSet
      rw [left, List.mem_cons, not_or] at absent
      cases first with
      | zeroPercent => exact absurd rfl absent.1
      | _ => exact ⟨absent.2, kept⟩
  | workerPercent other _ => exact ⟨orderly, Option.some.inj isSet⟩
  | _ => exact forward.percentKept percentCompleted isSet

theorem Forward.error_next {threads next : JobThreads} {label : ThreadStep}
    (forward : Forward threads) (orderly : Orderly threads label)
    (stepped : Stepped threads label next) {code : Int} (isSet : next.errorSet = some code) :
    .zeroErrorCode ∉ next.constructor ∧ next.job.errorCode = code := by
  cases stepped with
  | @construct first rest left =>
      obtain ⟨absent, kept⟩ := forward.errorKept code isSet
      rw [left, List.mem_cons, not_or] at absent
      cases first with
      | zeroErrorCode => exact absurd rfl absent.1
      | _ => exact ⟨absent.2, kept⟩
  | workerErrorCode other _ => exact ⟨orderly, Option.some.inj isSet⟩
  | _ => exact forward.errorKept code isSet

/-- What a step of `wait` has seen. -/
theorem Waiter.next_sound {state : JobState} {waiter moved : Waiter}
    (moves : waiter.next state = some moved)
    (tested : waiter.point = .testPending → state ≠ .initializing) :
    (moved.point = .testPending → state ≠ .initializing) ∧
      (moved.point = .returned 0 → state.IsFinal) := by
  rw [Waiter.next] at moves
  cases point : waiter.point with
  | notCalled => simp [point] at moves
  | returned exitCode => simp [point] at moves
  | testInitializing =>
      simp only [point, Option.some.injEq] at moves
      rw [← moves]
      by_cases initializing : state = .initializing <;> simp [initializing]
  | testPending =>
      simp only [point, Option.some.injEq] at moves
      rw [← moves]
      by_cases pending : state = .pending
      · simp [pending]
      · simp [pending, JobState.IsFinal, tested point]
  | sleeping =>
      simp only [point] at moves
      split at moves
      · rw [← Option.some.inj moves]
        split <;> simp
      · rw [← Option.some.inj moves]
        simp

theorem Forward.waiter_next {threads next : JobThreads} {label : ThreadStep}
    (forward : Forward threads) (stepped : Stepped threads label next) (waiter : Nat) :
    ((next.waiters waiter).point = .testPending → next.job.state ≠ .initializing) ∧
      ((next.waiters waiter).point = .returned 0 → next.job.state.IsFinal) := by
  have moves := forward.moves stepped
  have unchanged (same : next.waiters waiter = threads.waiters waiter) :
      ((next.waiters waiter).point = .testPending → next.job.state ≠ .initializing) ∧
        ((next.waiters waiter).point = .returned 0 → next.job.state.IsFinal) := by
    rw [same]
    exact ⟨fun point => moves.left (forward.tested waiter point),
      fun point => moves.isFinal (forward.returned waiter point)⟩
  cases stepped with
  | wait other timeout _ =>
      by_cases same : waiter = other
      · subst same
        simp
      · exact unchanged (Function.update_of_ne same ..)
  | @waitStep other moved moving =>
      by_cases same : waiter = other
      · subst same
        simp only [Function.update_self]
        exact Waiter.next_sound moving (forward.tested waiter)
      · exact unchanged (Function.update_of_ne same ..)
  | _ => exact unchanged rfl

theorem Forward.next {threads next : JobThreads} {label : ThreadStep} (forward : Forward threads)
    (orderly : Orderly threads label) (stepped : Stepped threads label next) : Forward next where
  early := forward.early_next orderly stepped
  percentKept _ := forward.percent_next orderly stepped
  errorKept _ := forward.error_next orderly stepped
  tested waiter := (forward.waiter_next stepped waiter).1
  returned waiter := (forward.waiter_next stepped waiter).2

theorem forward_startJob (percentCompleted : ℚ) (errorCode : Int) :
    Forward (startJob percentCompleted errorCode) where
  early _ := rfl
  percentKept _ isSet := nomatch isSet
  errorKept _ isSet := nomatch isSet
  tested _ point := nomatch point
  returned _ point := nomatch point

/-- The whole run from a state in which the invariant holds. -/
theorem Forward.run {threads final : JobThreads} {labels : List ThreadStep}
    (forward : Forward threads) (orderly : jobMachine.AllSteps Orderly threads labels)
    (reached : jobMachine.run threads labels = some final) :
    Forward final ∧ (threads.job.state.IsFinal → final.job.state.IsFinal) := by
  have preserved : ∀ before label after,
      (Forward before ∧ (threads.job.state.IsFinal → before.job.state.IsFinal)) →
      Orderly before label → jobMachine.step before label = some after →
      Forward after ∧ (threads.job.state.IsFinal → after.job.state.IsFinal) := by
    intro before label after held ordered stepped
    have inverted := stepped_of_step stepped
    exact ⟨held.1.next ordered inverted,
      fun wasFinal => (held.1.moves inverted).isFinal (held.2 wasFinal)⟩
  exact Machine.run_invariant preserved ⟨forward, id⟩ orderly reached

/-- In an orderly run a job that has come to a final state stays in final states, `wait`
returns 0 only then, and what the callback has set is what the job reports. -/
theorem job_moves_forward (percentCompleted : ℚ) (errorCode : Int) (first second : List ThreadStep)
    (middle final : JobThreads)
    (orderly : jobMachine.AllSteps Orderly (startJob percentCompleted errorCode) (first ++ second))
    (reached : jobMachine.run (startJob percentCompleted errorCode) first = some middle)
    (continued : jobMachine.run middle second = some final) :
    (middle.job.state.IsFinal → final.job.state.IsFinal) ∧
      (∀ waiter, (middle.waiters waiter).point = .returned 0 →
        middle.job.state.IsFinal ∧ final.job.state.IsFinal) ∧
      (∀ percentSet, final.percentSet = some percentSet →
        final.job.percentCompleted = percentSet) ∧
      ∀ code, final.errorSet = some code → final.job.errorCode = code := by
  obtain ⟨orderlyFirst, orderlySecond⟩ := Machine.allSteps_append reached orderly
  have forward := ((forward_startJob percentCompleted errorCode).run orderlyFirst reached).1
  obtain ⟨forwardFinal, stays⟩ := forward.run orderlySecond continued
  refine ⟨stays, ?_, ?_, ?_⟩
  · intro waiter returned
    have isFinal := forward.returned waiter returned
    exact ⟨isFinal, stays isFinal⟩
  · intro percentSet isSet
    exact (forwardFinal.percentKept percentSet isSet).2
  · intro code isSet
    exact (forwardFinal.errorKept code isSet).2

/-- The constructor finishes, the worker reports an error, and a caller waits for it. -/
def orderlyRun : List ThreadStep :=
  [.construct, .workerAddRef, .workerPending, .construct, .construct, .workerErrorCode 5,
    .wait 0 100, .waitStep 0, .waitStep 0, .workerEnd .error, .waitStep 0, .waitStep 0,
    .waitStep 0]

theorem orderlyRun_forward :
    ∃ middle final, jobMachine.run (startJob 7 7) orderlyRun = some middle ∧
      jobMachine.run middle [.cancel, .workerRelease] = some final ∧
      (middle.waiters 0).point = .returned 0 ∧ final.job.state.IsFinal ∧
      final.job.errorCode = 5 := by
  have waited : (jobMachine.run (startJob 7 7) orderlyRun).map
      (fun threads => (threads.waiters 0).point) = some (.returned 0) := by decide
  have reported : (jobMachine.run (startJob 7 7) (orderlyRun ++ [.cancel, .workerRelease])).map
      JobThreads.errorSet = some (some 5) := by decide
  obtain ⟨middle, reached, returned⟩ := Option.map_eq_some_iff.mp waited
  obtain ⟨final, ran, isSet⟩ := Option.map_eq_some_iff.mp reported
  obtain ⟨other, reachedOther, continued⟩ := Machine.run_append_eq_some.mp ran
  cases reached.symm.trans reachedOther
  obtain ⟨_, stays, _, errorKept⟩ := job_moves_forward 7 7 orderlyRun [.cancel, .workerRelease]
    middle final (by decide) reached continued
  exact ⟨middle, final, reached, continued, returned, (stays 0 returned).2, errorKept 5 isSet⟩

/-- A job that is cancelled before its worker begins becomes pending after it was stopped,
and the constructor overwrites an error code that was set before it has finished. -/
theorem job_moves_back :
    (jobMachine.run (startJob 0 0) [.workerAddRef, .cancel]).map (·.job.state) = some .stopped ∧
    (jobMachine.run (startJob 0 0) [.workerAddRef, .cancel, .workerPending]).map (·.job.state) =
      some .pending ∧
    (jobMachine.run (startJob 0 0) [.workerAddRef, .workerPending, .workerErrorCode 5, .construct,
      .construct, .construct]).map (fun threads => (threads.errorSet, threads.job.errorCode)) =
        some (some 5, 0) := by
  decide

end Tegenaria.LibJob
