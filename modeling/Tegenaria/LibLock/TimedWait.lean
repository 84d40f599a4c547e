import Tegenaria.LibLock.RequestPool
import Mathlib.Data.Int.Basic

/-!
# Waiting with a timeout

`Semaphore::wait` turns a timeout into an absolute deadline on POSIX systems and
hands it to `WaitForSingleObject` as it is on Windows.  The systems are parameters
here: what their waits answer is a function of the deadline, or of the timeout.  The
module follows the answer of a semaphore that is not signalled in time through
`Semaphore::wait` and `RequestPool::wait`.
-/

namespace Tegenaria.LibLock

/-- `struct timespec` -/
structure Timespec where
  sec : Int
  nsec : Int
  deriving DecidableEq

namespace Timespec

/-- The nanoseconds are the fraction of a second. -/
def Normalized (time : Timespec) : Prop := 0 ≤ time.nsec ∧ time.nsec < 1000000000

instance (time : Timespec) : Decidable time.Normalized := inferInstanceAs (Decidable (_ ∧ _))

/-- A point in time in nanoseconds. -/
def total (time : Timespec) : Int := 1000000000 * time.sec + time.nsec

end Timespec

/-- Values of `errno` on Linux. -/
def eintr : Int := 4

def eagain : Int := 11

def einval : Int := 22

def etimedout : Int := 110

/-- `WAIT_OBJECT_0` and `WAIT_TIMEOUT` -/
def waitObject : Int := 0

def waitTimeout : Int := 258

/-- The answer of one call of `sem_wait` or `sem_timedwait`. -/
inductive SemAnswer where
  | decremented
  | failed (errno : Int)

/-- A POSIX system: the answers of successive calls on one semaphore. -/
structure PosixSystem where
  semWait : List SemAnswer
  semTimedwait : Timespec → List SemAnswer

/-- A Windows system: the result of `WaitForSingleObject`, for a timeout in
milliseconds or none, and the last error. -/
structure WindowsSystem where
  waitForSingleObject : Option Int32 → Int
  getLastError : Int

namespace Semaphore

/-- The deadline that `Semaphore::wait` computes from the current time. -/
def deadline (now : Timespec) (timeout : Int32) : Timespec where
  sec := now.sec + timeout.toInt.tdiv 1000
  nsec := now.nsec + timeout.toInt.tmod 1000 * 1000000

/-- The loop over interrupted calls: the last result and `errno`.  Without a further
answer the thread is still waiting. -/
def waitLoop : List SemAnswer → Option (Int × Int)
  | [] => none
  | .decremented :: _ => some (0, 0)
  | .failed errno :: later => if errno = eintr then waitLoop later else some (-1, errno)

/-- `Semaphore::wait` on Linux and MacOS. -/
def waitPosix (system : PosixSystem) (now : Timespec) (timeout : Int32) : Option Int := do
  let answers :=
    if timeout = -1 then system.semWait else system.semTimedwait (deadline now timeout)
  let (result, errno) ← waitLoop answers
  return if result = eagain then -1 else if result ≠ 0 then errno else result

/-- `Semaphore::wait` on Windows. -/
def waitWindows (system : WindowsSystem) (timeout : Int32) : Int :=
  let result :=
    if timeout = -1 then system.waitForSingleObject none
    else system.waitForSingleObject (some timeout)
  if result = waitObject then 0
  else if result = waitTimeout then -1
  else system.getLastError

end Semaphore

/-- What the documentation of the systems says about a semaphore that is not
signalled in time: `sem_timedwait` may be interrupted any number of times, then it
rejects a deadline that is not normalized and times out at any other one. -/
structure Unsignalled (posix : PosixSystem) (windows : WindowsSystem) : Prop where
  rejected : ∀ deadline : Timespec, ¬ deadline.Normalized → ∃ interruptions,
    posix.semTimedwait deadline =
      List.replicate interruptions (SemAnswer.failed eintr) ++ [SemAnswer.failed einval]
  timedOut : ∀ deadline : Timespec, deadline.Normalized → ∃ interruptions,
    posix.semTimedwait deadline =
      List.replicate interruptions (SemAnswer.failed eintr) ++ [SemAnswer.failed etimedout]
  waited : ∀ timeout, windows.waitForSingleObject (some timeout) = waitTimeout

/-- The deadline is the current time and the timeout. -/
def DeadlineExact (now : Timespec) (timeout : Int32) : Prop :=
  (Semaphore.deadline now timeout).Normalized ∧
    (Semaphore.deadline now timeout).total = now.total + timeout.toInt * 1000000

/-- A timeout is reported as one, by the semaphore and by a pool, on both systems. -/
structure TimeoutReported (posix : PosixSystem) (windows : WindowsSystem) (now : Timespec)
    (timeout : Int32) (pool : RequestPool) (id : Int32) : Prop where
  deadline : DeadlineExact now timeout
  onPosix : Semaphore.waitPosix posix now timeout = some (-1)
  onWindows : Semaphore.waitWindows windows timeout = -1
  poolPosix : (Semaphore.waitPosix posix now timeout).map (fun waitRet => (pool.wait id waitRet).1) =
    some errTimeout
  poolWindows : (pool.wait id (Semaphore.waitWindows windows timeout)).1 = errTimeout

namespace Semaphore

/-! ## The deadline -/

theorem deadline_total (now : Timespec) (timeout : Int32) :
    (deadline now timeout).total = now.total + timeout.toInt * 1000000 := by
  have split := Int.mul_tdiv_add_tmod timeout.toInt 1000
  simp only [deadline, Timespec.total]
  omega

/-- The nanoseconds of the timeout are added without a carry. -/
theorem deadline_normalized_iff {now : Timespec} {timeout : Int32} (clock : now.Normalized)
    (finite : 0 ≤ timeout.toInt) :
    (deadline now timeout).Normalized ↔ now.nsec + timeout.toInt % 1000 * 1000000 < 1000000000 := by
  rw [Timespec.Normalized, deadline, Int.tmod_eq_emod_of_nonneg finite]
  have added : 0 ≤ now.nsec + timeout.toInt % 1000 * 1000000 := by
    have nonneg := clock.1
    omega
  exact ⟨fun normalized => normalized.2, fun below => ⟨added, below⟩⟩

/-- The deadline is exact unless the fractions of the second add up to a second. -/
theorem deadlineExact_iff {now : Timespec} {timeout : Int32} (clock : now.Normalized)
    (finite : 0 ≤ timeout.toInt) :
    DeadlineExact now timeout ↔ now.nsec + timeout.toInt % 1000 * 1000000 < 1000000000 := by
  rw [DeadlineExact, deadline_normalized_iff clock finite]
  exact ⟨fun exact => exact.1, fun below => ⟨below, deadline_total now timeout⟩⟩

/-! ## The answer of the semaphore -/

/-- Interrupted calls are repeated. -/
theorem waitLoop_failed (interruptions : Nat) {errno : Int} (final : errno ≠ eintr) :
    waitLoop (List.replicate interruptions (SemAnswer.failed eintr) ++ [SemAnswer.failed errno]) =
      some (-1, errno) := by
  induction interruptions with
  | zero => rw [List.replicate_zero, List.nil_append, waitLoop, if_neg final]
  | succ interruptions ih => rw [List.replicate_succ, List.cons_append, waitLoop, if_pos rfl, ih]

theorem finite_ne {timeout : Int32} (finite : 0 ≤ timeout.toInt) : timeout ≠ -1 := by
  rintro rfl
  exact absurd finite (by decide)

/-- The system's own code comes out of a wait that timed out on POSIX: `EAGAIN` is
compared with the result of the call, which is `-1`. -/
theorem waitPosix_unsignalled {posix : PosixSystem} {windows : WindowsSystem} {now : Timespec}
    {timeout : Int32} (unsignalled : Unsignalled posix windows) (clock : now.Normalized)
    (finite : 0 ≤ timeout.toInt) :
    waitPosix posix now timeout =
      some (if now.nsec + timeout.toInt % 1000 * 1000000 < 1000000000 then etimedout else einval) := by
  have answered : ∀ (interruptions : Nat) (errno : Int), errno ≠ eintr → errno ≠ 0 →
      posix.semTimedwait (deadline now timeout) =
        List.replicate interruptions (SemAnswer.failed eintr) ++ [SemAnswer.failed errno] →
      waitPosix posix now timeout = some errno := by
    intro interruptions errno final failed answers
    rw [waitPosix, if_neg (finite_ne finite), answers, waitLoop_failed interruptions final]
    rfl
  split
  · next below =>
      obtain ⟨interruptions, answers⟩ :=
        unsignalled.timedOut _ ((deadline_normalized_iff clock finite).mpr below)
      exact answered interruptions etimedout (by decide) (by decide) answers
  · next carry =>
      obtain ⟨interruptions, answers⟩ :=
        unsignalled.rejected _ fun normalized => carry ((deadline_normalized_iff clock finite).mp normalized)
      exact answered interruptions einval (by decide) (by decide) answers

theorem waitWindows_unsignalled {posix : PosixSystem} {windows : WindowsSystem} {timeout : Int32}
    (unsignalled : Unsignalled posix windows) (finite : 0 ≤ timeout.toInt) :
    waitWindows windows timeout = -1 := by
  rw [waitWindows, if_neg (finite_ne finite), unsignalled.waited]
  rfl

/-- A pool reports a timeout on Windows and a general error on POSIX. -/
theorem pool_wait_unsignalled {posix : PosixSystem} {windows : WindowsSystem} {now : Timespec}
    {timeout : Int32} (unsignalled : Unsignalled posix windows) (clock : now.Normalized)
    (finite : 0 ≤ timeout.toInt) {pool : RequestPool} {id : Int32} {slot : Nat}
    (pending : pool.find id = some slot) :
    (waitPosix posix now timeout).map (fun waitRet => (pool.wait id waitRet).1) = some errGeneric ∧
      (pool.wait id (waitWindows windows timeout)).1 = errTimeout := by
  constructor
  · rw [waitPosix_unsignalled unsignalled clock finite, Option.map_some]
    split
    · rw [RequestPool.wait_unserved pending (by decide)]
      rfl
    · rw [RequestPool.wait_unserved pending (by decide)]
      rfl
  · rw [waitWindows_unsignalled unsignalled finite, RequestPool.wait_unserved pending (by decide)]
    rfl

/-- A timeout is not reported as one on POSIX, whatever the time and the timeout, and
the deadline is right exactly when the fractions of a second add up to less than a
second. -/
theorem timeout_never_reported {posix : PosixSystem} {windows : WindowsSystem} {now : Timespec}
    {timeout : Int32} (unsignalled : Unsignalled posix windows) (clock : now.Normalized)
    (finite : 0 ≤ timeout.toInt) (pool : RequestPool) (id : Int32) :
    ¬ TimeoutReported posix windows now timeout pool id ∧
      (DeadlineExact now timeout ↔
        now.nsec + timeout.toInt % 1000 * 1000000 < 1000000000) := by
  refine ⟨fun reported => ?_, deadlineExact_iff clock finite⟩
  have code := waitPosix_unsignalled unsignalled clock finite
  rw [reported.onPosix, Option.some.injEq] at code
  split at code
  · exact absurd code (by decide)
  · exact absurd code (by decide)

/-- A POSIX system on which the semaphore is never signalled; a proper deadline is
interrupted once. -/
def silentPosix : PosixSystem where
  semWait := []
  semTimedwait deadline :=
    if deadline.Normalized then [.failed eintr, .failed etimedout] else [.failed einval]

def silentWindows : WindowsSystem where
  waitForSingleObject _ := waitTimeout
  getLastError := 0

theorem silent_unsignalled : Unsignalled silentPosix silentWindows where
  rejected _ unnormalized := ⟨0, if_neg unnormalized⟩
  timedOut _ normalized := ⟨1, if_pos normalized⟩
  waited _ := rfl

/-- A pool of one pending request. -/
def onePending : RequestPool := (RequestPool.new 1).modify 0 (·.assign 7 none none)

/-- A timeout of 200 ms, 900 ms after the full second. -/
theorem timeout_never_reported_late :
    ¬ TimeoutReported silentPosix silentWindows ⟨1700000000, 900000000⟩ 200 onePending 7 ∧
      ¬ DeadlineExact ⟨1700000000, 900000000⟩ 200 := by
  obtain ⟨never, exact⟩ :=
    timeout_never_reported silent_unsignalled (show Timespec.Normalized ⟨1700000000, 900000000⟩ by decide)
      (show 0 ≤ (200 : Int32).toInt by decide) onePending 7
  exact ⟨never, fun holds => absurd (exact.mp holds) (by decide)⟩

/-- The same time and timeout: `EINVAL` and `ERR_GENERIC` on POSIX, `-1` and
`ERR_TIMEOUT` on Windows. -/
theorem timeout_misreported :
    ¬ TimeoutReported silentPosix silentWindows ⟨1700000000, 900000000⟩ 200 onePending 7 := by
  intro reported
  have code := reported.onPosix
  exact absurd code (by decide)

end Semaphore

end Tegenaria.LibLock
