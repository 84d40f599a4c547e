import Tegenaria.LibLock.PoolThreads
import Tegenaria.LibSftp.ReadLoop

/-!
# Concurrent calls of `processPacket`

Any number of callers send a request and wait for its answer while the reading
thread hands over the packets of the server.  They meet in the request pool, in
the strings to which the requests point, in the session mutex and on the wire.

Callers are threads of the request pool, and so is the reading thread, which is
the thread `none`.  The lock of the pool, the session mutex, single `write`
calls, and the steps of `push`, `wait` and of the reading thread are separate
steps of the model.  A mutex is released by every unlock, whoever issues it.
-/

namespace Tegenaria.LibSftp

open Foundation
open Foundation.Word
open LibLock

/-- The arguments and local variables of one call of `processPacket`: addresses
of the two strings, the id and the size of the packet.  `request` keeps the
packet as it was when the call was made. -/
structure Job where
  answer : Nat
  packet : Nat
  request : List UInt8
  id : Nat
  packetSize : Int
  deriving DecidableEq

/-- The id under which the request is pushed. -/
def Job.poolId (job : Job) : Int32 := Int32.ofNat job.id

/-- Where a caller stands in `processPacket`. -/
inductive Stage where
  | idle
  | entering (job : Job)
  | pushing (job : Job)
  | pushed (job : Job)
  | locking (job : Job)
  | sending (job : Job) (totalWritten : Nat)
  | checking (job : Job) (totalWritten : Nat)
  | waiting (job : Job)
  | leaving (job : Job) (exitCode : Int)
  deriving DecidableEq

/-- The call that is in progress. -/
@[grind =] def Stage.job? : Stage → Option Job
  | .idle => none
  | .entering job | .pushing job | .pushed job | .locking job | .sending job _
  | .checking job _ | .waiting job | .leaving job _ => some job

/-- Where the reading thread stands with the packet it has matched. -/
inductive Reading where
  | idle
  | copying (packet : Packet)
  | signalling (packet : Packet)

/-- Points in the history of the session. -/
inductive SessionEvent (Caller : Type) where
  | called (caller : Caller) (request : List UInt8)
  | locked (caller : Caller)
  | unlocked (caller : Caller)
  | returned (caller : Caller) (job : Job) (exitCode : Int) (answer : List UInt8)
  deriving DecidableEq

/-- `fdType_` -/
inductive FdType where
  | fd
  | socket
  | other
  deriving DecidableEq

/-- The state of a session.  `wire` is what was written to the server so far and
`received` are the packets that came from it; the history has the latest event
first. -/
structure Session (Caller : Type) where
  fdType : FdType
  requests : PoolThreads (Option Caller)
  strings : Nat → List UInt8
  mutex : Option Caller
  stages : Caller → Stage
  reading : Reading
  wire : List UInt8
  received : List Packet
  history : List (SessionEvent Caller)

/-- Scheduling decisions together with the results of system calls. -/
inductive SessionLabel (Caller : Type) where
  | call (caller : Caller) (answer packet : Nat) (request : List UInt8) (stale : UInt32)
  | go (caller : Caller)
  | write (caller : Caller) (written : Int)
  | receive (packet : Packet)
  | read

namespace Session

variable {Caller : Type} [DecidableEq Caller]

/-- A session without calls; all strings are empty. -/
def start (Caller : Type) (fdType : FdType) (size : Nat) : Session Caller where
  fdType
  requests := .start (Option Caller) size
  strings _ := []
  mutex := none
  stages _ := .idle
  reading := .idle
  wire := []
  received := []
  history := []

/-- The caller continues at another point. -/
def goto (session : Session Caller) (caller : Caller) (stage : Stage) :
    Session Caller :=
  { session with stages := Function.update session.stages caller stage }

/-- Append an event to the history. -/
def record (session : Session Caller) (event : SessionEvent Caller) :
    Session Caller :=
  { session with history := event :: session.history }

/-- The id that `decodePacketHead` finds in a request; a variable that it does
not set keeps the value `stale`. -/
def requestId (request : List UInt8) (stale : UInt32) : Nat :=
  ((decodePacketHead (Memory.ofList 0 request) (toI32 request.length)).map
    Head.id).getD stale.toNat

/-- Enter `processPacket` with a request in the packet string. -/
def call (session : Session Caller) (caller : Caller) (answer packet : Nat)
    (request : List UInt8) (stale : UInt32) : Option (Session Caller) :=
  if session.stages caller = .idle then
    let job : Job := {
      answer
      packet
      request
      id := requestId request stale
      packetSize := toI32 request.length }
    some ({ session with
      strings := Function.update session.strings packet request }.record
        (.called caller request) |>.goto caller (.entering job))
  else
    none

/-- The result of one `::write` or `::send`: `written` bytes go out, taken from
the packet string as it is now. -/
def write (session : Session Caller) (caller : Caller) (written : Int) :
    Option (Session Caller) :=
  match session.stages caller with
  | .sending job totalWritten =>
      if (totalWritten : Int) < job.packetSize ∧
          written ≤ job.packetSize - totalWritten then
        if written > 0 then
          some ({ session with
            wire := session.wire ++
              ((session.strings job.packet).drop totalWritten).take written.toNat }.goto
            caller (.sending job (totalWritten + written.toNat)))
        else
          some (session.goto caller (.leaving job (-1)))
      else
        none
  | _ => none

/-- The steps of `rpool_ -> push`.  Its result is not used. -/
def push (session : Session Caller) (caller : Caller) (job : Job) :
    Option (Session Caller) :=
  match session.requests.step (some caller) .resume with
  | none => none
  | some requests =>
      match requests.locals (some caller) with
      | .pushUnlock .. => some ({ session with requests }.goto caller (.pushed job))
      | _ => some { session with requests }

/-- The steps of `rpool_ -> wait` after the request was found. -/
def wait (session : Session Caller) (caller : Caller) (job : Job) :
    Option (Session Caller) :=
  match session.requests.step (some caller) .resume with
  | none => none
  | some requests =>
      match requests.locals (some caller) with
      | .idle => some ({ session with requests }.goto caller (.leaving job 0))
      | _ => some { session with requests }

/-- The call of `rpool_ -> wait`.  Its result is not used either. -/
def enterWait (session : Session Caller) (caller : Caller) (job : Job) :
    Option (Session Caller) :=
  match session.requests.step (some caller) (.wait job.poolId) with
  | none => none
  | some requests =>
      match requests.locals (some caller) with
      | .idle => some ({ session with requests }.goto caller (.leaving job 0))
      | _ => some ({ session with requests }.goto caller (.waiting job))

/-- The next step of a caller, up to the results of writing. -/
def go (session : Session Caller) (caller : Caller) : Option (Session Caller) :=
  match session.stages caller with
  | .idle => none
  | .entering job =>
      match session.requests.step (some caller)
          (.push job.poolId none (some job.answer)) with
      | none => none
      | some requests => some ({ session with requests }.goto caller (.pushing job))
  | .pushing job => session.push caller job
  | .pushed job =>
      match session.requests.step (some caller) .resume with
      | none => none
      | some requests => some ({ session with requests }.goto caller (.locking job))
  | .locking job =>
      if session.fdType = .other then
        some (session.goto caller (.checking job 0))
      else if session.mutex = none then
        some ({ session with mutex := some caller }.record (.locked caller) |>.goto
          caller (.sending job 0))
      else
        none
  | .sending job totalWritten =>
      if (totalWritten : Int) < job.packetSize then none
      else
        some ({ session with mutex := none }.record (.unlocked caller) |>.goto
          caller (.checking job totalWritten))
  | .checking job totalWritten =>
      if (totalWritten : Int) ≠ job.packetSize then
        some (session.goto caller (.leaving job (-1)))
      else
        session.enterWait caller job
  | .waiting job => session.wait caller job
  | .leaving job exitCode =>
      some ({ session with mutex := none }.record (.unlocked caller) |>.record
        (.returned caller job exitCode (session.strings job.answer)) |>.goto
        caller .idle)

/-- The reading thread has a complete packet and looks its id up. -/
def receive (session : Session Caller) (packet : Packet) : Option (Session Caller) :=
  match session.reading with
  | .idle =>
      match session.requests.step none (.serve (Int32.ofNat packet.idField)) with
      | none => none
      | some requests =>
          match requests.locals none with
          | .serveSignal .. =>
              some { session with
                requests
                reading := .copying packet
                received := packet :: session.received }
          | _ =>
              some { session with requests, received := packet :: session.received }
  | _ => none

/-- The data shared by the callers and the reading thread. -/
def shared (session : Session Caller) : Shared :=
  ⟨session.requests.pool, session.strings⟩

/-- The reading thread goes on with the packet it has matched. -/
def read (session : Session Caller) : Option (Session Caller) :=
  match session.reading, session.requests.locals none with
  | .copying packet, .serveSignal _ slot =>
      some { session with
        strings := (session.shared.answer slot packet.bytes).strings
        reading := .signalling packet }
  | .signalling _, .serveSignal .. =>
      match session.requests.step none .resume with
      | none => none
      | some requests => some { session with requests, reading := .idle }
  | _, _ => none

/-- All callers and the reading thread. -/
def machine : Machine (Session Caller) (SessionLabel Caller) where
  step session label :=
    match label with
    | .call caller answer packet request stale =>
        session.call caller answer packet request stale
    | .go caller => session.go caller
    | .write caller written => session.write caller written
    | .receive packet => session.receive packet
    | .read => session.read

/-! ## Sample calls -/

/-- A request without arguments. -/
def shortRequest (id : UInt8) : List UInt8 := [0, 0, 0, 5, 7, 0, 0, 0, id]

/-- The answer to a request. -/
def shortAnswer (id : UInt8) : Packet where
  bytes := [0, 0, 0, 5, 101, 0, 0, 0, id]
  length_eq := rfl
  head_complete := by simp
  length_le := by simp

/-- The steps of a call up to the write loop.  Answer and packet share the string
at the address that is also the id of the request. -/
def beginCall {Caller : Type} (caller : Caller) (id : UInt8) :
    List (SessionLabel Caller) :=
  [SessionLabel.call caller id.toNat id.toNat (shortRequest id) 0] ++
    List.replicate 6 (SessionLabel.go caller)

/-- The steps of a call from the write loop to the wait for the answer. -/
def finishSending {Caller : Type} (caller : Caller) : List (SessionLabel Caller) :=
  [.write caller 9, .go caller, .go caller]

/-! ## One step -/

section Fields

variable (session : Session Caller) (caller other : Caller) (stage : Stage)
variable (event : SessionEvent Caller)

@[simp, grind =] theorem goto_stages :
    (session.goto caller stage).stages other =
      if other = caller then stage else session.stages other := by
  simp [goto, Function.update_apply]

@[simp, grind =] theorem goto_fdType :
    (session.goto caller stage).fdType = session.fdType := rfl

@[simp, grind =] theorem goto_requests :
    (session.goto caller stage).requests = session.requests := rfl

@[simp, grind =] theorem goto_strings (address : Nat) :
    (session.goto caller stage).strings address = session.strings address := rfl

@[simp, grind =] theorem goto_mutex :
    (session.goto caller stage).mutex = session.mutex := rfl

@[simp, grind =] theorem goto_reading :
    (session.goto caller stage).reading = session.reading := rfl

@[simp, grind =] theorem goto_wire :
    (session.goto caller stage).wire = session.wire := rfl

@[simp, grind =] theorem goto_received :
    (session.goto caller stage).received = session.received := rfl

@[simp, grind =] theorem goto_history :
    (session.goto caller stage).history = session.history := rfl

omit [DecidableEq Caller]

@[simp, grind =] theorem shared_pool : session.shared.pool = session.requests.pool := rfl

@[simp, grind =] theorem shared_strings : session.shared.strings = session.strings := rfl

@[simp, grind =] theorem record_stages :
    (session.record event).stages other = session.stages other := rfl

@[simp, grind =] theorem record_fdType :
    (session.record event).fdType = session.fdType := rfl

@[simp, grind =] theorem record_requests :
    (session.record event).requests = session.requests := rfl

@[simp, grind =] theorem record_strings (address : Nat) :
    (session.record event).strings address = session.strings address := rfl

@[simp, grind =] theorem record_mutex :
    (session.record event).mutex = session.mutex := rfl

@[simp, grind =] theorem record_reading :
    (session.record event).reading = session.reading := rfl

@[simp, grind =] theorem record_wire :
    (session.record event).wire = session.wire := rfl

@[simp, grind =] theorem record_received :
    (session.record event).received = session.received := rfl

@[simp, grind =] theorem record_history :
    (session.record event).history = event :: session.history := rfl

end Fields

/-- The steps of a session.  Steps inside the request pool are given by the step
function of its threads. -/
inductive Moves (session : Session Caller) :
    SessionLabel Caller → Session Caller → Prop where
  | call {caller : Caller} {answer packet : Nat} {request : List UInt8} {stale : UInt32}
      (at_ : session.stages caller = .idle) :
      Moves session (.call caller answer packet request stale)
        ({ session with strings := Function.update session.strings packet request }.record
          (.called caller request) |>.goto caller (.entering
            ⟨answer, packet, request, requestId request stale, toI32 request.length⟩))
  | enterPush {caller : Caller} {job : Job} {requests : PoolThreads (Option Caller)}
      (at_ : session.stages caller = .entering job)
      (stepped : session.requests.step (some caller)
        (.push job.poolId none (some job.answer)) = some requests) :
      Moves session (.go caller) ({ session with requests }.goto caller (.pushing job))
  | push {caller : Caller} {job : Job} {requests : PoolThreads (Option Caller)}
      (at_ : session.stages caller = .pushing job)
      (stepped : session.requests.step (some caller) .resume = some requests)
      (inside : ∀ id exitCode, requests.locals (some caller) ≠ .pushUnlock id exitCode) :
      Moves session (.go caller) { session with requests }
  | decidePush {caller : Caller} {job : Job} {requests : PoolThreads (Option Caller)}
      {id : Int32} {exitCode : Int}
      (at_ : session.stages caller = .pushing job)
      (stepped : session.requests.step (some caller) .resume = some requests)
      (decided : requests.locals (some caller) = .pushUnlock id exitCode) :
      Moves session (.go caller) ({ session with requests }.goto caller (.pushed job))
  | leavePush {caller : Caller} {job : Job} {requests : PoolThreads (Option Caller)}
      (at_ : session.stages caller = .pushed job)
      (stepped : session.requests.step (some caller) .resume = some requests) :
      Moves session (.go caller) ({ session with requests }.goto caller (.locking job))
  | skipSending {caller : Caller} {job : Job}
      (at_ : session.stages caller = .locking job) (unknown : session.fdType = .other) :
      Moves session (.go caller) (session.goto caller (.checking job 0))
  | lock {caller : Caller} {job : Job} (at_ : session.stages caller = .locking job)
      (known : session.fdType ≠ .other) (unlocked : session.mutex = none) :
      Moves session (.go caller)
        ({ session with mutex := some caller }.record (.locked caller) |>.goto
          caller (.sending job 0))
  | write {caller : Caller} {job : Job} {totalWritten : Nat} {written : Int}
      (at_ : session.stages caller = .sending job totalWritten)
      (unfinished : (totalWritten : Int) < job.packetSize)
      (atMost : written ≤ job.packetSize - totalWritten) (positive : written > 0) :
      Moves session (.write caller written)
        ({ session with
          wire := session.wire ++
            ((session.strings job.packet).drop totalWritten).take written.toNat }.goto
          caller (.sending job (totalWritten + written.toNat)))
  | writeFailed {caller : Caller} {job : Job} {totalWritten : Nat} {written : Int}
      (at_ : session.stages caller = .sending job totalWritten)
      (unfinished : (totalWritten : Int) < job.packetSize) (failed : written ≤ 0) :
      Moves session (.write caller written)
        (session.goto caller (.leaving job (-1)))
  | unlock {caller : Caller} {job : Job} {totalWritten : Nat}
      (at_ : session.stages caller = .sending job totalWritten)
      (finished : ¬(totalWritten : Int) < job.packetSize) :
      Moves session (.go caller)
        ({ session with mutex := none }.record (.unlocked caller) |>.goto
          caller (.checking job totalWritten))
  | short {caller : Caller} {job : Job} {totalWritten : Nat}
      (at_ : session.stages caller = .checking job totalWritten)
      (different : (totalWritten : Int) ≠ job.packetSize) :
      Moves session (.go caller) (session.goto caller (.leaving job (-1)))
  | enterWait {caller : Caller} {job : Job} {totalWritten : Nat}
      {requests : PoolThreads (Option Caller)}
      (at_ : session.stages caller = .checking job totalWritten)
      (whole : (totalWritten : Int) = job.packetSize)
      (stepped : session.requests.step (some caller) (.wait job.poolId) = some requests)
      (found : requests.locals (some caller) ≠ .idle) :
      Moves session (.go caller) ({ session with requests }.goto caller (.waiting job))
  | skipWait {caller : Caller} {job : Job} {totalWritten : Nat}
      {requests : PoolThreads (Option Caller)}
      (at_ : session.stages caller = .checking job totalWritten)
      (whole : (totalWritten : Int) = job.packetSize)
      (stepped : session.requests.step (some caller) (.wait job.poolId) = some requests)
      (missing : requests.locals (some caller) = .idle) :
      Moves session (.go caller) ({ session with requests }.goto caller (.leaving job 0))
  | acquire {caller : Caller} {job : Job} {requests : PoolThreads (Option Caller)}
      (at_ : session.stages caller = .waiting job)
      (stepped : session.requests.step (some caller) .resume = some requests)
      (inside : requests.locals (some caller) ≠ .idle) :
      Moves session (.go caller) { session with requests }
  | leaveWait {caller : Caller} {job : Job} {requests : PoolThreads (Option Caller)}
      (at_ : session.stages caller = .waiting job)
      (stepped : session.requests.step (some caller) .resume = some requests)
      (done : requests.locals (some caller) = .idle) :
      Moves session (.go caller) ({ session with requests }.goto caller (.leaving job 0))
  | leave {caller : Caller} {job : Job} {exitCode : Int}
      (at_ : session.stages caller = .leaving job exitCode) :
      Moves session (.go caller)
        ({ session with mutex := none }.record (.unlocked caller) |>.record
          (.returned caller job exitCode (session.strings job.answer)) |>.goto
          caller .idle)
  | receiveKnown {packet : Packet} {requests : PoolThreads (Option Caller)}
      {id : Int32} {slot : Nat} (at_ : session.reading = .idle)
      (stepped : session.requests.step none
        (.serve (Int32.ofNat packet.idField)) = some requests)
      (found : requests.locals none = .serveSignal id slot) :
      Moves session (.receive packet)
        { session with
          requests
          reading := .copying packet
          received := packet :: session.received }
  | receiveUnknown {packet : Packet} {requests : PoolThreads (Option Caller)}
      (at_ : session.reading = .idle)
      (stepped : session.requests.step none
        (.serve (Int32.ofNat packet.idField)) = some requests)
      (missing : ∀ id slot, requests.locals none ≠ .serveSignal id slot) :
      Moves session (.receive packet)
        { session with requests, received := packet :: session.received }
  | copy {packet : Packet} {id : Int32} {slot : Nat}
      (at_ : session.reading = .copying packet)
      (matched : session.requests.locals none = .serveSignal id slot) :
      Moves session .read
        { session with
          strings := (session.shared.answer slot packet.bytes).strings
          reading := .signalling packet }
  | signal {packet : Packet} {id : Int32} {slot : Nat}
      {requests : PoolThreads (Option Caller)}
      (at_ : session.reading = .signalling packet)
      (matched : session.requests.locals none = .serveSignal id slot)
      (stepped : session.requests.step none .resume = some requests) :
      Moves session .read { session with requests, reading := .idle }

theorem moves_of_go {session next : Session Caller} {caller : Caller}
    (stepped : session.go caller = some next) : Moves session (.go caller) next := by
  cases stage : session.stages caller with
  | idle => simp [go, stage] at stepped
  | entering job =>
      simp only [go, stage] at stepped
      split at stepped
      case h_1 => cases stepped
      case h_2 requests pool => exact Option.some.inj stepped ▸ .enterPush stage pool
  | pushing job =>
      simp only [go, stage, push] at stepped
      split at stepped
      case h_1 => cases stepped
      case h_2 requests pool =>
        split at stepped
        case h_1 decided => exact Option.some.inj stepped ▸ .decidePush stage pool decided
        case h_2 inside => exact Option.some.inj stepped ▸ .push stage pool inside
  | pushed job =>
      simp only [go, stage] at stepped
      split at stepped
      case h_1 => cases stepped
      case h_2 requests pool => exact Option.some.inj stepped ▸ .leavePush stage pool
  | locking job =>
      simp only [go, stage] at stepped
      split at stepped
      case isTrue unknown => exact Option.some.inj stepped ▸ .skipSending stage unknown
      case isFalse known =>
        split at stepped
        case isTrue unlocked => exact Option.some.inj stepped ▸ .lock stage known unlocked
        case isFalse => cases stepped
  | sending job totalWritten =>
      simp only [go, stage] at stepped
      split at stepped
      case isTrue => cases stepped
      case isFalse finished => exact Option.some.inj stepped ▸ .unlock stage finished
  | checking job totalWritten =>
      simp only [go, stage] at stepped
      split at stepped
      case isTrue different => exact Option.some.inj stepped ▸ .short stage different
      case isFalse whole =>
        have whole := not_not.mp whole
        simp only [enterWait] at stepped
        split at stepped
        case h_1 => cases stepped
        case h_2 requests pool =>
          split at stepped
          case h_1 missing =>
            exact Option.some.inj stepped ▸ .skipWait stage whole pool missing
          case h_2 found =>
            exact Option.some.inj stepped ▸ .enterWait stage whole pool found
  | waiting job =>
      simp only [go, stage, wait] at stepped
      split at stepped
      case h_1 => cases stepped
      case h_2 requests pool =>
        split at stepped
        case h_1 done => exact Option.some.inj stepped ▸ .leaveWait stage pool done
        case h_2 inside => exact Option.some.inj stepped ▸ .acquire stage pool inside
  | leaving job exitCode =>
      simp only [go, stage] at stepped
      exact Option.some.inj stepped ▸ .leave stage

theorem moves_of_write {session next : Session Caller} {caller : Caller}
    {written : Int} (stepped : session.write caller written = some next) :
    Moves session (.write caller written) next := by
  simp only [write] at stepped
  split at stepped
  case h_2 => cases stepped
  case h_1 job totalWritten stage =>
    split at stepped
    case isFalse => cases stepped
    case isTrue bounds =>
      split at stepped
      case isTrue positive =>
        exact Option.some.inj stepped ▸ .write stage bounds.1 bounds.2 positive
      case isFalse failed =>
        exact Option.some.inj stepped ▸ .writeFailed stage bounds.1 (by omega)

theorem moves_of_receive {session next : Session Caller} {packet : Packet}
    (stepped : session.receive packet = some next) :
    Moves session (.receive packet) next := by
  simp only [receive] at stepped
  split at stepped
  case h_2 => cases stepped
  case h_1 idle =>
    split at stepped
    case h_1 => cases stepped
    case h_2 requests pool =>
      split at stepped
      case h_1 found => exact Option.some.inj stepped ▸ .receiveKnown idle pool found
      case h_2 missing =>
        exact Option.some.inj stepped ▸ .receiveUnknown idle pool missing

theorem moves_of_read {session next : Session Caller}
    (stepped : session.read = some next) : Moves session .read next := by
  simp only [read] at stepped
  split at stepped
  case h_1 packet id slot copying matched =>
    exact Option.some.inj stepped ▸ .copy copying matched
  case h_2 packet id slot signalling matched =>
    split at stepped
    case h_1 => cases stepped
    case h_2 requests pool =>
      exact Option.some.inj stepped ▸ .signal signalling matched pool
  case h_3 => cases stepped

/-- The step function does exactly these steps. -/
theorem moves_of_step {session next : Session Caller} {label : SessionLabel Caller}
    (stepped : machine.step session label = some next) : Moves session label next := by
  cases label with
  | call caller answer packet request stale =>
      simp only [machine, call] at stepped
      split at stepped
      case isTrue idle => exact Option.some.inj stepped ▸ .call idle
      case isFalse => cases stepped
  | go caller => exact moves_of_go stepped
  | write caller written => exact moves_of_write stepped
  | receive packet => exact moves_of_receive stepped
  | read => exact moves_of_read stepped

end Session

end Tegenaria.LibSftp
