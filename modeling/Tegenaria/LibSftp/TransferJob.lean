import Mathlib.Data.List.TakeDrop
import Mathlib.Data.Nat.Notation
import Tegenaria.Foundation.Transition

/-!
# Background transfers

`downloadFile` and `uploadFile` create a job and a thread that copies a file in pieces of
32 kB.  The state of the job is written by three threads: the caller sets `PENDING` once
the worker runs, the worker sets `FINISHED` or `ERROR`, and `cancel` sets `STOPPED` at any
time after the job was handed out.

The two workers differ in how a piece reaches the destination.  `DownloadFileWorker` writes
it with `fwrite` to a buffered stream and does not look at the result; `UploadFileWorker`
writes it to the server and does.
-/

namespace Tegenaria.LibSftp

open Foundation

/-- `SFTP_JOB_STATE_XXX` -/
inductive JobState where
  | error
  | initializing
  | pending
  | finished
  | stopped
  deriving DecidableEq

namespace JobState

/-- The job is over. -/
def terminal (state : JobState) : Bool := state = .finished ∨ state = .stopped ∨ state = .error

end JobState

/-- `SFTP_JOB_TYPE_XXX` of the jobs that copy a file. -/
inductive TransferKind where
  | download
  | upload
  deriving DecidableEq

/-- What a worker copies: the bytes that reads of the source return, and the size that
`stat` reports at the start. -/
structure Transfer where
  kind : TransferKind
  source : List UInt8
  size : Nat

/-- The statement that the worker executes next. -/
inductive WorkerPoint where
  | wait
  | stat
  | openSource
  | openDestination
  | check
  | read
  | write (buf : List UInt8)
  | finish
  | fail
  | close
  | done
  deriving DecidableEq

namespace WorkerPoint

/-- The worker is in the loop that copies the pieces, or just behind it. -/
def copying : WorkerPoint → Bool
  | .check | .read | .write _ | .finish => true
  | .wait | .stat | .openSource | .openDestination | .fail | .close | .done => false

/-- The worker has not yet created the destination. -/
def early : WorkerPoint → Bool
  | .wait | .stat | .openSource | .openDestination => true
  | .check | .read | .write _ | .finish | .fail | .close | .done => false

/-- The worker has set the state of the job for the last time. -/
def isOver (point : WorkerPoint) : Bool := point = .close ∨ point = .done

end WorkerPoint

/-- A job with its worker.  `destination` is the file, and `buffered` what a stream has
taken and not yet written to it. -/
structure TransferJob where
  transfer : Transfer
  state : JobState
  started : Bool
  point : WorkerPoint
  bytesToCopy : Nat
  totalWritten : Nat
  destination : List UInt8
  buffered : List UInt8

namespace TransferJob

/-- The job after its constructor; the destination may exist already. -/
def new (transfer : Transfer) (destination : List UInt8) : TransferJob where
  transfer
  state := .initializing
  started := false
  point := .wait
  bytesToCopy := 0
  totalWritten := 0
  destination
  buffered := []

/-- `sizeof(buf)` -/
def bufSize : Nat := 1024 * 32

/-- `SftpJob::setState` -/
def setState (job : TransferJob) (state : JobState) : TransferJob := { job with state }

/-- The worker goes on. -/
def goto (job : TransferJob) (point : WorkerPoint) : TransferJob := { job with point }

/-- What the three threads do, and what the calls of the worker return. -/
inductive Action where
  | start
  | cancel
  | poll
  | stat (success : Bool)
  | openSource (success : Bool)
  | openDestination (success : Bool)
  | check
  | read (readed : Option Nat)
  | write (written flushed : Nat)
  | finish
  | fail
  | close (flushed : Nat)

def pieceSize (job : TransferJob) : Nat := min bufSize job.bytesToCopy

/-- The bytes of the source from the position of the worker on. -/
def piece (job : TransferJob) : List UInt8 :=
  (job.transfer.source.drop job.totalWritten).take job.pieceSize

/-- Go to the next part. -/
def nextPart (job : TransferJob) (size : Nat) : TransferJob :=
  { job with
    bytesToCopy := job.bytesToCopy - size
    totalWritten := job.totalWritten + size
    point := .check }

/-- `fwrite` takes some of the bytes, and some bytes of the buffer reach the file. -/
def fwrite (job : TransferJob) (buf : List UInt8) (written flushed : Nat) : TransferJob :=
  let stream := job.buffered ++ buf.take written
  { job with destination := job.destination ++ stream.take flushed, buffered := stream.drop flushed }

/-- Bytes are written to the server at a position of the file. -/
def writeAt (job : TransferJob) (buf : List UInt8) (written : Nat) : TransferJob :=
  { job with
    destination := job.destination.take job.totalWritten ++ buf.take written ++
      job.destination.drop (job.totalWritten + written) }

/-- The part of the loop behind the read.  Only the upload compares what was written. -/
def writeStep (job : TransferJob) (buf : List UInt8) (written flushed : Nat) : TransferJob :=
  match job.transfer.kind with
  | .download => (job.fwrite buf written flushed).nextPart job.pieceSize
  | .upload =>
      if written = job.pieceSize then (job.writeAt buf written).nextPart job.pieceSize
      else (job.writeAt buf written).goto .fail

/-- The steps of the worker. -/
def workerStep (job : TransferJob) : WorkerPoint → Action → Option TransferJob
  | .wait, .poll => some (if job.state = .initializing then job else job.goto .stat)
  | .stat, .stat success => some (job.goto (if success then .openSource else .fail))
  | .openSource, .openSource success =>
      some (job.goto (if success then .openDestination else .fail))
  | .openDestination, .openDestination success =>
      some (if success then
          { job.goto .check with destination := [], bytesToCopy := job.transfer.size }
        else job.goto .fail)
  | .check, .check =>
      some (if job.bytesToCopy = 0 then job.goto .finish
        else if job.state = .stopped then job.goto .close
        else job.goto .read)
  | .read, .read readed =>
      match readed with
      | none => some (job.goto .fail)
      | some count =>
          if count ≤ job.piece.length then
            some (job.goto (if count = job.pieceSize then .write (job.piece.take count) else .fail))
          else none
  | .write buf, .write written flushed =>
      if written ≤ buf.length ∧ flushed ≤ job.buffered.length + written then
        some (job.writeStep buf written flushed)
      else none
  | .finish, .finish => some ((job.setState .finished).goto .close)
  | .fail, .fail => some ((job.setState .error).goto .close)
  | .close, .close flushed =>
      if flushed ≤ job.buffered.length then
        some { job.goto .done with
          destination := job.destination ++ job.buffered.take flushed, buffered := [] }
      else none
  | _, _ => none

/-- The caller of the constructor sets the state once, and the job can be cancelled from
then on. -/
def step (job : TransferJob) : Action → Option TransferJob
  | .start => if job.started then none else some { job.setState .pending with started := true }
  | .cancel => if job.started then some (job.setState .stopped) else none
  | action => job.workerStep job.point action

def machine : Machine TransferJob Action := ⟨step⟩

/-! ## Steps that keep the promise -/

/-- `cancel` does not meet a job that is over, the worker does not end a job that was
stopped, every `fwrite` takes all bytes, and the stream is empty when the worker reports
success. -/
@[grind =] def orderly (job : TransferJob) : Action → Bool
  | .cancel => job.state ≠ .finished ∧ job.state ≠ .error
  | .write written _ =>
      match job.transfer.kind, job.point with
      | .download, .write buf => written = buf.length
      | _, _ => true
  | .finish => job.state ≠ .stopped ∧ job.buffered = []
  | .fail => job.state ≠ .stopped
  | _ => true

/-- What holds in every state of an orderly run. -/
structure Sound (job : TransferJob) : Prop where
  unstarted : job.started = false → job.state = .initializing ∧ job.point = .wait
  running : job.started = true → job.state ≠ .initializing
  fresh : job.point.early = true → job.buffered = [] ∧ job.totalWritten = 0
  copied : job.point.copying = true →
    job.destination ++ job.buffered = job.transfer.source.take job.totalWritten ∧
      job.totalWritten + job.bytesToCopy = job.transfer.size ∧
      job.totalWritten ≤ job.transfer.source.length ∧
      (job.transfer.kind = .upload → job.buffered = [])
  held : ∀ buf, job.point = .write buf → buf = job.piece ∧ buf.length = job.pieceSize
  complete : job.point = .finish → job.bytesToCopy = 0
  truthful : job.state = .finished → job.point.isOver = true ∧ job.buffered = [] ∧
    job.destination = job.transfer.source.take job.transfer.size
  failed : job.state = .error → job.point.isOver = true

variable {job next : TransferJob}

theorem new_sound (transfer : Transfer) (destination : List UInt8) : Sound (new transfer destination) where
  unstarted := fun _ => ⟨rfl, rfl⟩
  running := fun started => by cases started
  fresh := fun _ => ⟨rfl, rfl⟩
  copied := fun copying => by cases copying
  held := fun buf isWrite => by cases isWrite
  complete := fun isFinish => by cases isFinish
  truthful := fun finished => by cases finished
  failed := fun error => by cases error

/-- The worker works only after the caller has set the state. -/
theorem Sound.isStarted (sound : Sound job) (left : job.point ≠ .wait) : job.started = true := by
  cases started : job.started with
  | true => rfl
  | false => exact (left (sound.unstarted started).2).elim

/-- A worker that is not over leaves the job in no state that it sets last. -/
theorem Sound.open (sound : Sound job) (working : job.point.isOver = false) :
    job.state ≠ .finished ∧ job.state ≠ .error := by
  constructor
  · intro finished
    exact Bool.noConfusion (working.symm.trans (sound.truthful finished).1)
  · intro error
    exact Bool.noConfusion (working.symm.trans (sound.failed error))

/-- A step that only moves the worker. -/
theorem Sound.goto (sound : Sound job) {point : WorkerPoint} (working : job.point.isOver = false)
    (started : job.started = true) (early : point.early = true → job.point.early = true)
    (copying : point.copying = true → job.point.copying = true)
    (held : ∀ buf, point = .write buf → buf = job.piece ∧ buf.length = job.pieceSize)
    (complete : point = .finish → job.bytesToCopy = 0) : Sound (job.goto point) where
  unstarted := fun notStarted => Bool.noConfusion (notStarted.symm.trans started)
  running := sound.running
  fresh := fun isEarly => sound.fresh (early isEarly)
  copied := fun isCopying => sound.copied (copying isCopying)
  held
  complete
  truthful := fun finished => ((sound.open working).1 finished).elim
  failed := fun error => ((sound.open working).2 error).elim

/-! ## The caller and the worker before the loop -/

theorem start_sound (sound : Sound job) (stepped : job.step .start = some next) : Sound next := by
  rw [step] at stepped
  split at stepped
  · cases stepped
  · rw [← Option.some.inj stepped]
    exact {
        unstarted := fun notStarted => Bool.noConfusion notStarted
        running := fun _ initializing => JobState.noConfusion initializing
        fresh := sound.fresh
        copied := sound.copied
        held := sound.held
        complete := sound.complete
        truthful := fun finished => JobState.noConfusion finished
        failed := fun error => JobState.noConfusion error }

theorem cancel_sound (sound : Sound job) (stepped : job.step .cancel = some next) : Sound next := by
  rw [step] at stepped
  split at stepped
  · next started =>
      rw [← Option.some.inj stepped]
      exact {
        unstarted := fun notStarted => Bool.noConfusion (notStarted.symm.trans started)
        running := fun _ initializing => JobState.noConfusion initializing
        fresh := sound.fresh
        copied := sound.copied
        held := sound.held
        complete := sound.complete
        truthful := fun finished => JobState.noConfusion finished
        failed := fun error => JobState.noConfusion error }
  · cases stepped

theorem wait_sound (sound : Sound job) (point : job.point = .wait) :
    Sound (if job.state = .initializing then job else job.goto .stat) := by
  split
  · exact sound
  · next left =>
      have started : job.started = true := by
        cases started : job.started with
        | true => rfl
        | false => exact (left (sound.unstarted started).1).elim
      refine sound.goto (by rw [point]; rfl) started (fun _ => by rw [point]; rfl) ?_ ?_ ?_
      · exact fun copying => Bool.noConfusion copying
      · exact fun buf isWrite => WorkerPoint.noConfusion isWrite
      · exact fun isFinish => WorkerPoint.noConfusion isFinish

/-- The worker goes on to a point where it has neither a piece nor copied all. -/
theorem Sound.goto_plain (sound : Sound job) {point : WorkerPoint} (working : job.point.isOver = false)
    (left : job.point ≠ .wait) (early : point.early = true → job.point.early = true)
    (notCopying : point.copying = false) : Sound (job.goto point) := by
  refine sound.goto working (sound.isStarted left) early ?_ ?_ ?_
  · exact fun copying => Bool.noConfusion (notCopying.symm.trans copying)
  · intro buf isWrite
    rw [isWrite] at notCopying
    cases notCopying
  · intro isFinish
    rw [isFinish] at notCopying
    cases notCopying

/-- A step of the worker behind the creation of the destination. -/
theorem Sound.move (sound : Sound job) (working : job.point.isOver = false) (left : job.point ≠ .wait)
    (sameStarted : next.started = job.started) (sameState : next.state = job.state)
    (late : next.point.early = false)
    (copied : next.point.copying = true →
      next.destination ++ next.buffered = next.transfer.source.take next.totalWritten ∧
        next.totalWritten + next.bytesToCopy = next.transfer.size ∧
        next.totalWritten ≤ next.transfer.source.length ∧
        (next.transfer.kind = .upload → next.buffered = []))
    (noPiece : ∀ buf, next.point ≠ .write buf) (notFinish : next.point ≠ .finish) : Sound next where
  unstarted := by
    rw [sameStarted, sound.isStarted left]
    exact fun notStarted => Bool.noConfusion notStarted
  running := by
    rw [sameStarted, sameState]
    exact sound.running
  fresh := fun early => Bool.noConfusion (late.symm.trans early)
  copied
  held := fun buf isWrite => (noPiece buf isWrite).elim
  complete := fun isFinish => (notFinish isFinish).elim
  truthful := by
    rw [sameState]
    exact fun finished => ((sound.open working).1 finished).elim
  failed := by
    rw [sameState]
    exact fun error => ((sound.open working).2 error).elim

theorem openDestination_sound (sound : Sound job) (point : job.point = .openDestination) :
    Sound { job.goto .check with destination := [], bytesToCopy := job.transfer.size } := by
  have working : job.point.isOver = false := by rw [point]; rfl
  have left : job.point ≠ .wait := by rw [point]; exact WorkerPoint.noConfusion
  obtain ⟨nothing, atStart⟩ := sound.fresh (by rw [point]; rfl)
  refine sound.move working left rfl rfl rfl ?_ (fun buf => WorkerPoint.noConfusion)
    WorkerPoint.noConfusion
  intro _
  simp [goto, nothing, atStart]

/-! ## The loop -/

theorem check_sound (sound : Sound job) (point : job.point = .check) :
    Sound (if job.bytesToCopy = 0 then job.goto .finish
      else if job.state = .stopped then job.goto .close
      else job.goto .read) := by
  have working : job.point.isOver = false := by rw [point]; rfl
  have left : job.point ≠ .wait := by rw [point]; exact WorkerPoint.noConfusion
  have copying : job.point.copying = true := by rw [point]; rfl
  split
  · next nothingLeft =>
      exact sound.goto working (sound.isStarted left) (fun early => Bool.noConfusion early)
        (fun _ => copying) (fun buf isWrite => WorkerPoint.noConfusion isWrite) (fun _ => nothingLeft)
  · split
    · exact sound.goto_plain working left (fun early => Bool.noConfusion early) rfl
    · exact sound.goto working (sound.isStarted left) (fun early => Bool.noConfusion early)
        (fun _ => copying) (fun buf isWrite => WorkerPoint.noConfusion isWrite)
        (fun isFinish => WorkerPoint.noConfusion isFinish)

theorem read_sound (sound : Sound job) (point : job.point = .read) {count : Nat}
    (available : count ≤ job.piece.length) :
    Sound (job.goto (if count = job.pieceSize then .write (job.piece.take count) else .fail)) := by
  have working : job.point.isOver = false := by rw [point]; rfl
  have left : job.point ≠ .wait := by rw [point]; exact WorkerPoint.noConfusion
  split
  · next whole =>
      have atMost : job.piece.length ≤ job.pieceSize := List.length_take_le ..
      have all : job.piece.take count = job.piece := List.take_of_length_le (by omega)
      refine sound.goto working (sound.isStarted left) (fun early => Bool.noConfusion early)
        (fun _ => by rw [point]; rfl) ?_ (fun isFinish => WorkerPoint.noConfusion isFinish)
      intro buf isWrite
      rw [all] at isWrite
      rw [← WorkerPoint.write.inj isWrite]
      exact ⟨rfl, by omega⟩
  · exact sound.goto_plain working left (fun early => Bool.noConfusion early) rfl

/-- What is copied grows by a piece. -/
theorem take_piece (job : TransferJob) :
    job.transfer.source.take job.totalWritten ++ job.piece =
      job.transfer.source.take (job.totalWritten + job.pieceSize) := List.take_add.symm

theorem pieceSize_le (job : TransferJob) : job.pieceSize ≤ job.bytesToCopy := Nat.min_le_right ..

/-- A whole piece is inside the source. -/
theorem Sound.piece_inside (sound : Sound job) {buf : List UInt8} (point : job.point = .write buf) :
    job.totalWritten + job.pieceSize ≤ job.transfer.source.length := by
  obtain ⟨isPiece, whole⟩ := sound.held buf point
  obtain ⟨_, _, inside, _⟩ := sound.copied (by rw [point]; rfl)
  rw [isPiece, piece, List.length_take, List.length_drop] at whole
  omega

theorem write_sound (sound : Sound job) {buf : List UInt8} (point : job.point = .write buf)
    {written flushed : Nat} (orderly : job.transfer.kind = .download → written = buf.length) :
    Sound (job.writeStep buf written flushed) := by
  have working : job.point.isOver = false := by rw [point]; rfl
  have left : job.point ≠ .wait := by rw [point]; exact WorkerPoint.noConfusion
  obtain ⟨isPiece, whole⟩ := sound.held buf point
  obtain ⟨copied, sizes, inside, unbuffered⟩ := sound.copied (by rw [point]; rfl)
  have later := sound.piece_inside point
  have size := job.pieceSize_le
  rw [writeStep]
  cases kind : job.transfer.kind with
  | download =>
      refine sound.move working left rfl rfl rfl (fun _ => ⟨?_, ?_, later, ?_⟩)
        (fun buf => WorkerPoint.noConfusion) WorkerPoint.noConfusion
      · have all : buf.take written = buf := List.take_of_length_le (Nat.le_of_eq (orderly kind).symm)
        show job.destination ++ (job.buffered ++ buf.take written).take flushed ++
          (job.buffered ++ buf.take written).drop flushed = _
        rw [List.append_assoc, List.take_append_drop, all, ← List.append_assoc, copied, isPiece]
        exact job.take_piece
      · show job.totalWritten + job.pieceSize + (job.bytesToCopy - job.pieceSize) = job.transfer.size
        omega
      · intro upload
        exact TransferKind.noConfusion (kind.symm.trans upload)
  | upload =>
      have nothing := unbuffered kind
      rw [nothing, List.append_nil] at copied
      have length : job.destination.length = job.totalWritten := by
        rw [copied, List.length_take, Nat.min_eq_left inside]
      simp only
      split
      · next complete =>
          refine sound.move working left rfl rfl rfl (fun _ => ⟨?_, ?_, later, fun _ => nothing⟩)
            (fun buf => WorkerPoint.noConfusion) WorkerPoint.noConfusion
          · have all : buf.take written = buf := List.take_of_length_le (by omega)
            show job.destination.take job.totalWritten ++ buf.take written ++
              job.destination.drop (job.totalWritten + written) ++ job.buffered = _
            rw [all, nothing, List.append_nil, List.take_of_length_le (Nat.le_of_eq length),
              List.drop_of_length_le (by omega), List.append_nil, copied, isPiece]
            exact job.take_piece
          · show job.totalWritten + job.pieceSize + (job.bytesToCopy - job.pieceSize) = job.transfer.size
            omega
      · exact sound.move working left rfl rfl rfl (fun copying => Bool.noConfusion copying)
          (fun buf => WorkerPoint.noConfusion) WorkerPoint.noConfusion

/-! ## The end of the worker -/

/-- The worker ends the job. -/
theorem Sound.end (sound : Sound job) (left : job.point ≠ .wait) {state : JobState}
    (ends : state ≠ .initializing)
    (truthful : state = .finished → job.buffered = [] ∧
      job.destination = job.transfer.source.take job.transfer.size) :
    Sound ((job.setState state).goto .close) where
  unstarted := fun notStarted => Bool.noConfusion (notStarted.symm.trans (sound.isStarted left))
  running := fun _ => ends
  fresh := fun early => Bool.noConfusion early
  copied := fun copying => Bool.noConfusion copying
  held := fun _ isWrite => WorkerPoint.noConfusion isWrite
  complete := fun isFinish => WorkerPoint.noConfusion isFinish
  truthful := fun finished => ⟨rfl, truthful finished⟩
  failed := fun _ => rfl

theorem finish_sound (sound : Sound job) (point : job.point = .finish) (flushed : job.buffered = []) :
    Sound ((job.setState .finished).goto .close) := by
  obtain ⟨copied, sizes, _, _⟩ := sound.copied (by rw [point]; rfl)
  rw [flushed, List.append_nil] at copied
  rw [sound.complete point, Nat.add_zero] at sizes
  rw [sizes] at copied
  exact sound.end (by rw [point]; exact WorkerPoint.noConfusion) JobState.noConfusion
    fun _ => ⟨flushed, copied⟩

theorem close_sound (sound : Sound job) (point : job.point = .close) (flushed : Nat) :
    Sound { job.goto .done with
      destination := job.destination ++ job.buffered.take flushed, buffered := [] } where
  unstarted := by
    intro notStarted
    have started := sound.isStarted (by rw [point]; exact WorkerPoint.noConfusion)
    exact Bool.noConfusion (notStarted.symm.trans started)
  running := sound.running
  fresh := fun early => Bool.noConfusion early
  copied := fun copying => Bool.noConfusion copying
  held := fun buf isWrite => WorkerPoint.noConfusion isWrite
  complete := fun isFinish => WorkerPoint.noConfusion isFinish
  truthful := by
    intro finished
    obtain ⟨_, nothing, whole⟩ := sound.truthful finished
    refine ⟨rfl, rfl, ?_⟩
    rw [nothing, List.take_nil, List.append_nil]
    exact whole
  failed := fun _ => rfl

/-- What a step of the worker can do. -/
inductive WorkerMoves (job : TransferJob) : WorkerPoint → Action → TransferJob → Prop where
  | poll :
      WorkerMoves job .wait .poll (if job.state = .initializing then job else job.goto .stat)
  | stat (success : Bool) :
      WorkerMoves job .stat (.stat success) (job.goto (if success then .openSource else .fail))
  | openSource (success : Bool) :
      WorkerMoves job .openSource (.openSource success)
        (job.goto (if success then .openDestination else .fail))
  | create :
      WorkerMoves job .openDestination (.openDestination true)
        { job.goto .check with destination := [], bytesToCopy := job.transfer.size }
  | notCreated :
      WorkerMoves job .openDestination (.openDestination false) (job.goto .fail)
  | check :
      WorkerMoves job .check .check
        (if job.bytesToCopy = 0 then job.goto .finish
          else if job.state = .stopped then job.goto .close
          else job.goto .read)
  | readFailed : WorkerMoves job .read (.read none) (job.goto .fail)
  | read {count : Nat} (available : count ≤ job.piece.length) :
      WorkerMoves job .read (.read (some count))
        (job.goto (if count = job.pieceSize then .write (job.piece.take count) else .fail))
  | write {buf : List UInt8} {written flushed : Nat}
      (fits : written ≤ buf.length ∧ flushed ≤ job.buffered.length + written) :
      WorkerMoves job (.write buf) (.write written flushed) (job.writeStep buf written flushed)
  | finish : WorkerMoves job .finish .finish ((job.setState .finished).goto .close)
  | fail : WorkerMoves job .fail .fail ((job.setState .error).goto .close)
  | close {flushed : Nat} (fits : flushed ≤ job.buffered.length) :
      WorkerMoves job .close (.close flushed)
        { job.goto .done with
          destination := job.destination ++ job.buffered.take flushed, buffered := [] }

theorem workerMoves_of_step {point : WorkerPoint} {action : Action}
    (stepped : job.workerStep point action = some next) : WorkerMoves job point action next := by
  rw [workerStep.eq_def] at stepped
  split at stepped
  · rw [← Option.some.inj stepped]
    exact .poll
  · rw [← Option.some.inj stepped]
    exact .stat _
  · rw [← Option.some.inj stepped]
    exact .openSource _
  · next success =>
      rw [← Option.some.inj stepped]
      cases success with
      | true => exact .create
      | false => exact .notCreated
  · rw [← Option.some.inj stepped]
    exact .check
  · next readed =>
      cases readed with
      | none =>
          rw [← Option.some.inj stepped]
          exact .readFailed
      | some count =>
          simp only at stepped
          split at stepped
          · next available =>
              rw [← Option.some.inj stepped]
              exact .read available
          · cases stepped
  · split at stepped
    · next fits =>
        rw [← Option.some.inj stepped]
        exact .write fits
    · cases stepped
  · rw [← Option.some.inj stepped]
    exact .finish
  · rw [← Option.some.inj stepped]
    exact .fail
  · split at stepped
    · next fits =>
        rw [← Option.some.inj stepped]
        exact .close fits
    · cases stepped
  · cases stepped

theorem workerStep_sound {action : Action} (sound : Sound job) (orderly : job.orderly action = true)
    (stepped : job.workerStep job.point action = some next) : Sound next := by
  have moves := workerMoves_of_step stepped
  generalize point : job.point = here at moves
  have failed (working : here.isOver = false) (left : here ≠ .wait) : Sound (job.goto .fail) :=
    sound.goto_plain (point ▸ working) (point ▸ left) (fun early => Bool.noConfusion early) rfl
  cases moves with
  | poll => exact wait_sound sound point
  | stat success | openSource success =>
      cases success with
      | true =>
          exact sound.goto_plain (by rw [point]; rfl) (by rw [point]; exact WorkerPoint.noConfusion)
            (fun _ => by rw [point]; rfl) rfl
      | false => exact failed rfl WorkerPoint.noConfusion
  | create => exact openDestination_sound sound point
  | notCreated => exact failed rfl WorkerPoint.noConfusion
  | check => exact check_sound sound point
  | readFailed => exact failed rfl WorkerPoint.noConfusion
  | read available => exact read_sound sound point available
  | write =>
      refine write_sound sound point fun download => ?_
      rw [TransferJob.orderly, download, point] at orderly
      exact of_decide_eq_true orderly
  | finish =>
      rw [TransferJob.orderly, decide_eq_true_iff] at orderly
      exact finish_sound sound point orderly.2
  | fail =>
      exact sound.end (by rw [point]; exact WorkerPoint.noConfusion) JobState.noConfusion
        fun isFinished => JobState.noConfusion isFinished
  | close => exact close_sound sound point _

theorem writeStep_state (job : TransferJob) (buf : List UInt8) (written flushed : Nat) :
    (job.writeStep buf written flushed).state = job.state := by
  rw [writeStep]
  split
  · rfl
  · split
    · rfl
    · rfl

/-- Only the last two statements of the worker change the state of the job. -/
theorem workerStep_state {point : WorkerPoint} {action : Action}
    (stepped : job.workerStep point action = some next) :
    next.state = job.state ∨ point = .finish ∧ action = .finish ∨ point = .fail ∧ action = .fail := by
  cases workerMoves_of_step stepped with
  | finish => exact .inr (.inl ⟨rfl, rfl⟩)
  | fail => exact .inr (.inr ⟨rfl, rfl⟩)
  | poll =>
      left
      split
      · rfl
      · rfl
  | check =>
      left
      split
      · rfl
      · split
        · rfl
        · rfl
  | write => exact .inl (job.writeStep_state _ _ _)
  | stat | openSource | create | notCreated | readFailed | read | close => exact .inl rfl

theorem step_sound {action : Action} (sound : Sound job) (orderly : job.orderly action = true)
    (stepped : job.step action = some next) : Sound next := by
  cases action with
  | start => exact start_sound sound stepped
  | cancel => exact cancel_sound sound stepped
  | _ => exact workerStep_sound sound orderly stepped

/-- An orderly step does not change the state of a job that is over. -/
theorem workerStep_terminal {action : Action} (sound : Sound job) (orderly : job.orderly action = true)
    (stepped : job.workerStep job.point action = some next) (terminal : job.state.terminal = true) :
    next.state = job.state := by
  rw [JobState.terminal, decide_eq_true_iff] at terminal
  rcases workerStep_state stepped with same | ⟨point, rfl⟩ | ⟨point, rfl⟩
  · exact same
  · obtain ⟨notFinished, notError⟩ := sound.open (by rw [point]; rfl)
    rw [TransferJob.orderly, decide_eq_true_iff] at orderly
    exact (terminal.elim notFinished (·.elim orderly.1 notError)).elim
  · obtain ⟨notFinished, notError⟩ := sound.open (by rw [point]; rfl)
    rw [TransferJob.orderly, decide_eq_true_iff] at orderly
    exact (terminal.elim notFinished (·.elim orderly notError)).elim

theorem step_terminal {action : Action} (sound : Sound job) (orderly : job.orderly action = true)
    (stepped : job.step action = some next) (terminal : job.state.terminal = true) :
    next.state = job.state := by
  cases action with
  | start =>
      rw [step] at stepped
      split at stepped
      · cases stepped
      · next notStarted =>
          rw [(sound.unstarted (by simpa using notStarted)).1] at terminal
          cases terminal
  | cancel =>
      rw [step] at stepped
      split at stepped
      · rw [TransferJob.orderly, decide_eq_true_iff] at orderly
        rw [JobState.terminal, decide_eq_true_iff] at terminal
        rw [← Option.some.inj stepped]
        rcases terminal with finished | stopped | error
        · exact (orderly.1 finished).elim
        · exact stopped.symm
        · exact (orderly.2 error).elim
      · cases stepped
  | _ => exact workerStep_terminal sound orderly stepped terminal

/-! ## Runs -/

/-- Success is reported only when the destination holds the bytes of the source. -/
def Truthful (job : TransferJob) : Prop :=
  job.state = .finished → job.destination = job.transfer.source.take job.transfer.size

/-- In every orderly run the job tells the truth at every point, and once it is over its
state does not change. -/
theorem run_truthful (transfer : Transfer) (destination : List UInt8) (before after : List Action)
    (middle final : TransferJob)
    (orderly : machine.AllSteps (fun job action => job.orderly action = true)
      (new transfer destination) (before ++ after))
    (reachedMiddle : machine.run (new transfer destination) before = some middle)
    (reached : machine.run middle after = some final) :
    final.Truthful ∧ (middle.state.terminal = true → final.state = middle.state) := by
  obtain ⟨orderlyBefore, orderlyAfter⟩ := Machine.allSteps_append reachedMiddle orderly
  have preserved : ∀ (job : TransferJob) (action : Action) (next : TransferJob), Sound job →
      job.orderly action = true → machine.step job action = some next → Sound next :=
    fun _ _ _ sound holds stepped => step_sound sound holds stepped
  have soundMiddle : Sound middle :=
    Machine.run_invariant preserved (new_sound transfer destination) orderlyBefore reachedMiddle
  have keeps : ∀ (job : TransferJob) (action : Action) (next : TransferJob),
      (Sound job ∧ (middle.state.terminal = true → job.state = middle.state)) →
      job.orderly action = true → machine.step job action = some next →
      Sound next ∧ (middle.state.terminal = true → next.state = middle.state) := by
    rintro job action next ⟨sound, same⟩ holds stepped
    refine ⟨step_sound sound holds stepped, fun terminal => ?_⟩
    have jobTerminal : job.state.terminal = true := by rw [same terminal, terminal]
    rw [step_terminal sound holds stepped jobTerminal, same terminal]
  obtain ⟨sound, same⟩ := Machine.run_invariant keeps ⟨soundMiddle, fun _ => rfl⟩ orderlyAfter reached
  exact ⟨fun finished => (sound.truthful finished).2.2, same⟩

/-- A download of two bytes. -/
def twoBytes : Transfer := { kind := .download, source := [1, 2], size := 2 }

/-- The caller and the worker up to the write of the piece. -/
def copyTwoBytes : List Action :=
  [.start, .poll, .stat true, .openSource true, .openDestination true, .check, .read (some 2)]

/-- The stream writes both bytes to the file at once. -/
theorem twoBytes_truthful :
    machine.AllSteps (fun job action => job.orderly action = true) (new twoBytes [7])
        (copyTwoBytes ++ ([.write 2 2, .check, .finish, .close 0] : List Action)) ∧
      (machine.run (new twoBytes [7])
        (copyTwoBytes ++ ([.write 2 2, .check, .finish] : List Action))).map state = some .finished ∧
      ∀ middle final,
        machine.run (new twoBytes [7])
          (copyTwoBytes ++ ([.write 2 2, .check, .finish] : List Action)) = some middle →
        machine.run middle [.close 0] = some final →
        final.Truthful ∧ (middle.state.terminal = true → final.state = middle.state) := by
  have orderly : machine.AllSteps (fun job action => job.orderly action = true) (new twoBytes [7])
      ((copyTwoBytes ++ ([.write 2 2, .check, .finish] : List Action)) ++ ([.close 0] : List Action)) := by decide
  exact ⟨orderly, by decide, fun middle final =>
    run_truthful twoBytes [7] (copyTwoBytes ++ ([.write 2 2, .check, .finish] : List Action))
      [.close 0] middle final orderly⟩

/-- `fwrite` takes nothing, as on a full disk, and the job is reported as finished. -/
theorem fullDisk_not_truthful :
    ¬ ∀ (transfer : Transfer) (destination : List UInt8) (before after : List Action)
      (middle final : TransferJob), machine.run (new transfer destination) before = some middle →
      machine.run middle after = some final →
        final.Truthful ∧ (middle.state.terminal = true → final.state = middle.state) := by
  intro truthful
  have ran : (machine.run (new twoBytes []) (copyTwoBytes ++ ([.write 0 0, .check, .finish] : List Action))).map
      (fun job => (job.state, job.destination, job.transfer.source, job.transfer.size)) =
        some (.finished, [], [1, 2], 2) := by decide
  obtain ⟨final, reached, values⟩ := Option.map_eq_some_iff.mp ran
  obtain ⟨finished, values⟩ := Prod.mk.inj values
  obtain ⟨empty, values⟩ := Prod.mk.inj values
  obtain ⟨source, size⟩ := Prod.mk.inj values
  have told := (truthful twoBytes [] _ [] final final reached rfl).1 finished
  rw [empty, source, size] at told
  cases told

end TransferJob

end Tegenaria.LibSftp
