import Mathlib.Data.List.Nodup
import Mathlib.Logic.Function.Basic
import Tegenaria.Foundation.Transition

/-!
# The process monitor

On Windows one thread watches the processes of a list: it opens them, waits until one of them ends, a
timeout runs out or the list changes, and calls back.  Other threads add to the list and remove from
it, and everything else that matters to the monitor happens in between: processes start and end, and
time passes.

The entries are allocated when they are added and freed when they are removed, so an address leads to
an entry exactly as long as it is in the list.  The monitor holds addresses while the list is not
locked.  An address that was freed can be given to a new entry.
-/

namespace Tegenaria.LibProcess

open Foundation

/-- What the system knows of a process.  A process that has ended can be opened until it is forgotten. -/
inductive Status where
  | running
  | ended
  | gone
  deriving DecidableEq

/-- `ProcessMonitorEntry_t` at its address.  Behind `ctx_` is history: the number of the entry, the
timeout and the time when it was added, and the time that was taken from its timeout for waits that it
was watched in, and for others. -/
structure ProcessMonitorEntry where
  address : Nat
  pid_ : Int
  timeout_ : Int
  callback_ : Nat
  ctx_ : Nat
  registration : Nat
  allowed : Int
  added : Nat
  charged : Nat
  surcharged : Nat
  deriving DecidableEq

/-- A place of `handlesProcs` and `handles`; there is no handle if the process could not be opened.
The number of the entry is history. -/
structure Watched where
  proc : Nat
  handle : Option Int
  registration : Nat
  deriving DecidableEq

/-- What the monitor has collected, without the reset event.  No timeout is `INFINITE`. -/
structure Round where
  procs : List Watched
  timeout : Option Nat
  deriving DecidableEq

/-- Where the monitor thread is. -/
inductive Phase where
  | top
  | collected (round : Round)
  | waiting (round : Round) (since : Nat)
  | timedOut (round : Round) (timeout : Nat)
  | signaled (round : Round) (watched : Watched)
  | called (round : Round) (watched : Watched) (registration : Nat)
  | finished
  | undefined
  deriving DecidableEq

/-- Where a thread is that calls the functions of the monitor; the end of the call has the result, if
the function returns one. -/
inductive Caller where
  | returned (result : Option Int)
  | adding (pid timeout : Int) (callback ctx : Nat)
  | signaling (result : Option Int)
  deriving DecidableEq

/-- A call of a callback, with the number of the entry whose handle was signaled and whether the process
that is reported had ended. -/
structure Report where
  registration : Nat
  pid : Int
  callback : Nat
  ctx : Nat
  signaled : Nat
  ended : Bool
  deriving DecidableEq

/-- A call of `ProcessKillByPid`. -/
structure Kill where
  entry : ProcessMonitorEntry
  time : Nat
  deriving DecidableEq

/-- The variables of the monitor, its thread, its callers and the processes, with the handles that it
has left open.  What follows `now` is history. -/
structure Monitor where
  ProcessList : List ProcessMonitorEntry
  ProcessMonitorEnabled : Bool
  ProcessMonitorResetEvent : Bool
  phase : Phase
  callers : Nat → Caller
  status : Int → Status
  leaked : List Int
  now : Nat
  registrations : Nat
  reported : List Report
  cancelled : List Nat
  dropped : List Nat
  killed : List Kill

def MAXIMUM_WAIT_OBJECTS : Nat := 64

/-! ## The monitor thread -/

namespace Round

/-- `WaitForMultipleObjects` takes the handles. -/
def Valid (round : Round) : Prop :=
  (∀ watched ∈ round.procs, watched.handle ≠ none) ∧ round.procs.length + 1 ≤ MAXIMUM_WAIT_OBJECTS

instance decidableValid (round : Round) : Decidable round.Valid := inferInstanceAs (Decidable (_ ∧ _))

/-- The processes that are open. -/
def handles (round : Round) : List Int := round.procs.filterMap Watched.handle

/-- An entry has been collected. -/
def Watches (round : Round) (entry : ProcessMonitorEntry) : Prop :=
  entry.registration ∈ round.procs.map Watched.registration

instance decidableWatches (round : Round) (entry : ProcessMonitorEntry) : Decidable (round.Watches entry) :=
  inferInstanceAs (Decidable (_ ∈ _))

end Round

/-- The minimum of the timeout so far and the one of an entry. -/
def leastTimeout (timeout : Option Nat) (entry : ProcessMonitorEntry) : Option Nat :=
  if 0 < entry.timeout_ then
    match timeout with
    | none => some entry.timeout_.toNat
    | some least => some (min least entry.timeout_.toNat)
  else timeout

/-- What an entry has left of its timeout after a wait that ran out. -/
def charge (round : Round) (timeout : Nat) (entry : ProcessMonitorEntry) : ProcessMonitorEntry :=
  if 0 < entry.timeout_ then
    { entry with
      timeout_ := entry.timeout_ - timeout
      charged := if round.Watches entry then entry.charged + timeout else entry.charged
      surcharged := if round.Watches entry then entry.surcharged else entry.surcharged + timeout }
  else entry

namespace Monitor

/-- `OpenProcess(SYNCHRONIZE, FALSE, pid)` -/
def openProcess (monitor : Monitor) (pid : Int) : Option Int :=
  if monitor.status pid = .gone then none else some pid

/-- The handles and the timeout that are collected in a round. -/
def collectHandles (monitor : Monitor) : Round where
  procs := monitor.ProcessList.map fun entry =>
    ⟨entry.address, monitor.openProcess entry.pid_, entry.registration⟩
  timeout := monitor.ProcessList.foldl leastTimeout none

def find (monitor : Monitor) (address : Nat) : Option ProcessMonitorEntry :=
  monitor.ProcessList.find? fun entry => entry.address = address

/-- The handle of a process is signaled. -/
def Signaled (monitor : Monitor) (watched : Watched) : Prop :=
  ∃ pid, watched.handle = some pid ∧ monitor.status pid ≠ .running

instance decidableSignaled (monitor : Monitor) : (watched : Watched) → Decidable (monitor.Signaled watched)
  | ⟨_, none, _⟩ => isFalse fun ⟨_, absurd, _⟩ => nomatch absurd
  | ⟨_, some pid, _⟩ =>
      decidable_of_iff (monitor.status pid ≠ .running)
        ⟨fun ended => ⟨pid, rfl, ended⟩, fun ⟨_, same, ended⟩ => Option.some.inj same ▸ ended⟩

/-- No process has ended. -/
def Quiet (monitor : Monitor) (round : Round) : Prop := ∀ watched ∈ round.procs, ¬ monitor.Signaled watched

instance decidableQuiet (monitor : Monitor) (round : Round) : Decidable (monitor.Quiet round) :=
  inferInstanceAs (Decidable (∀ _ ∈ _, _))

def collect (monitor : Monitor) : Monitor :=
  if monitor.ProcessMonitorEnabled then { monitor with phase := .collected monitor.collectHandles }
  else { monitor with phase := .finished }

def wait (monitor : Monitor) (round : Round) : Monitor :=
  if monitor.ProcessMonitorEnabled then { monitor with phase := .waiting round monitor.now }
  else { monitor with phase := .finished, leaked := monitor.leaked ++ round.handles }

/-- The wait has failed: the loop goes on without closing the handles. -/
def fail (monitor : Monitor) (round : Round) : Monitor :=
  { monitor with phase := .top, leaked := monitor.leaked ++ round.handles }

/-- The reset event, which resets itself, has ended the wait. -/
def reset (monitor : Monitor) : Monitor :=
  { monitor with phase := .top, ProcessMonitorResetEvent := false }

/-- The entries whose timeout runs out. -/
def overdue (monitor : Monitor) (timeout : Nat) : List ProcessMonitorEntry :=
  monitor.ProcessList.filter fun entry => decide (0 < entry.timeout_ ∧ entry.timeout_ - timeout ≤ 0)

def subtract (monitor : Monitor) (round : Round) (timeout : Nat) : Monitor :=
  { monitor with
    phase := .top
    ProcessList := monitor.ProcessList.map (charge round timeout)
    killed := monitor.killed ++
      (monitor.overdue timeout).map fun entry => ⟨charge round timeout entry, monitor.now⟩ }

/-- The callback is called with what stands at the address. -/
def callback (monitor : Monitor) (round : Round) (watched : Watched) : Monitor :=
  match monitor.find watched.proc with
  | none => { monitor with phase := .undefined }
  | some entry =>
      { monitor with
        phase := .called round watched entry.registration
        reported := monitor.reported ++
          [{ registration := entry.registration
             pid := entry.pid_
             callback := entry.callback_
             ctx := entry.ctx_
             signaled := watched.registration
             ended := decide (monitor.status entry.pid_ ≠ .running) }] }

/-- What stands at the address after the callback is removed. -/
def erase (monitor : Monitor) (watched : Watched) (registration : Nat) : Monitor :=
  { monitor with
    phase := .top
    ProcessList := monitor.ProcessList.eraseP fun entry => entry.address = watched.proc
    dropped := monitor.dropped ++
      match monitor.find watched.proc with
      | some entry => if entry.registration = registration then [] else [entry.registration]
      | none => [] }

end Monitor

/-- The steps of the monitor thread.  A wait ends with the first signaled handle. -/
inductive Turn where
  | collect
  | wait
  | fail
  | timeOut
  | reset
  | signal (index : Nat)
  | subtract
  | callback
  | erase
  deriving DecidableEq

/-- `_ProcessMonitorLoop` -/
def Monitor.turn (monitor : Monitor) (turn : Turn) : Option Monitor :=
  match monitor.phase, turn with
  | .top, .collect => some monitor.collect
  | .collected round, .wait => some (monitor.wait round)
  | .waiting round _, .fail => if round.Valid then none else some (monitor.fail round)
  | .waiting round since, .timeOut =>
      match round.timeout with
      | some timeout =>
          if round.Valid ∧ monitor.Quiet round ∧ monitor.ProcessMonitorResetEvent = false ∧
              since + timeout ≤ monitor.now then
            some { monitor with phase := .timedOut round timeout }
          else none
      | none => none
  | .waiting round _, .reset =>
      if round.Valid ∧ monitor.Quiet round ∧ monitor.ProcessMonitorResetEvent = true then some monitor.reset
      else none
  | .waiting round _, .signal index =>
      match round.procs[index]? with
      | some watched =>
          if round.Valid ∧ monitor.Signaled watched ∧
              ∀ earlier ∈ round.procs.take index, ¬ monitor.Signaled earlier then
            some { monitor with phase := .signaled round watched }
          else none
      | none => none
  | .timedOut round timeout, .subtract => some (monitor.subtract round timeout)
  | .signaled round watched, .callback => some (monitor.callback round watched)
  | .called _ watched registration, .erase => some (monitor.erase watched registration)
  | _, _ => none

/-! ## Everything else -/

inductive Event where
  | monitor (turn : Turn)
  | addPid (thread : Nat) (pid timeout : Int) (callback : Option Nat) (ctx : Nat)
  | outOfMemory (thread : Nat)
  | push (thread address : Nat)
  | setEvent (thread : Nat)
  | removePid (thread : Nat) (pid : Int)
  | uninit (thread : Nat)
  | exit (pid : Int)
  | forget (pid : Int)
  | spawn (pid : Int)
  | elapse (ms : Nat)
  deriving DecidableEq

/-- What the monitor thread has collected in this round. -/
def Phase.round? : Phase → Option Round
  | .collected round | .waiting round _ | .timedOut round _ | .signaled round _ | .called round _ _ =>
      some round
  | .top | .finished | .undefined => none

/-- The handles that the monitor thread has open in this round. -/
def Phase.handles (phase : Phase) : List Int := (phase.round?.map Round.handles).getD []

/-- The entry that `malloc` makes place for. -/
def newEntry (monitor : Monitor) (address : Nat) (pid timeout : Int) (callback ctx : Nat) :
    ProcessMonitorEntry where
  address := address
  pid_ := pid
  timeout_ := timeout
  callback_ := callback
  ctx_ := ctx
  registration := monitor.registrations
  allowed := timeout
  added := monitor.now
  charged := 0
  surcharged := 0

namespace Monitor

/-- The process stays known as long as a handle is open. -/
def Holds (monitor : Monitor) (pid : Int) : Prop := pid ∈ monitor.leaked ∨ pid ∈ monitor.phase.handles

instance decidableHolds (monitor : Monitor) (pid : Int) : Decidable (monitor.Holds pid) :=
  inferInstanceAs (Decidable (_ ∨ _))

def setCaller (monitor : Monitor) (thread : Nat) (caller : Caller) : Monitor :=
  { monitor with callers := Function.update monitor.callers thread caller }

def setStatus (monitor : Monitor) (pid : Int) (status : Status) : Monitor :=
  { monitor with status := Function.update monitor.status pid status }

/-- `_ProcessMonitorAddPid` up to the end of the search in the list. -/
def addPid (monitor : Monitor) (thread : Nat) (pid timeout : Int) (callback : Option Nat) (ctx : Nat) :
    Monitor :=
  match callback with
  | none => monitor.setCaller thread (.returned (some (-1)))
  | some callback =>
      if pid < 0 then monitor.setCaller thread (.returned (some (-1)))
      else if monitor.ProcessList.any fun entry => entry.pid_ = pid then
        monitor.setCaller thread (.returned (some 0))
      else monitor.setCaller thread (.adding pid timeout callback ctx)

/-- The new entry is allocated at a free address and added to the list. -/
def push (monitor : Monitor) (thread address : Nat) (pid timeout : Int) (callback ctx : Nat) : Monitor :=
  { monitor.setCaller thread (.signaling (some 0)) with
    ProcessList := monitor.ProcessList ++ [newEntry monitor address pid timeout callback ctx]
    registrations := monitor.registrations + 1 }

/-- `_ProcessMonitorRemovePid` up to the end of the search in the list. -/
def removePid (monitor : Monitor) (thread : Nat) (pid : Int) : Monitor :=
  { monitor.setCaller thread (.signaling none) with
    ProcessList := monitor.ProcessList.eraseP fun entry => entry.pid_ = pid
    cancelled := monitor.cancelled ++
      ((monitor.ProcessList.find? fun entry => entry.pid_ = pid).map
        ProcessMonitorEntry.registration).toList }

def step (monitor : Monitor) : Event → Option Monitor
  | .monitor turn => monitor.turn turn
  | .addPid thread pid timeout callback ctx =>
      match monitor.callers thread with
      | .returned _ => some (monitor.addPid thread pid timeout callback ctx)
      | _ => none
  | .outOfMemory thread =>
      match monitor.callers thread with
      | .adding _ _ _ _ => some (monitor.setCaller thread (.returned (some (-1))))
      | _ => none
  | .push thread address =>
      match monitor.callers thread with
      | .adding pid timeout callback ctx =>
          if monitor.find address = none then some (monitor.push thread address pid timeout callback ctx)
          else none
      | _ => none
  | .setEvent thread =>
      match monitor.callers thread with
      | .signaling result =>
          some { monitor.setCaller thread (.returned result) with ProcessMonitorResetEvent := true }
      | _ => none
  | .removePid thread pid =>
      match monitor.callers thread with
      | .returned _ => some (monitor.removePid thread pid)
      | _ => none
  | .uninit thread =>
      match monitor.callers thread with
      | .returned _ => some { monitor.setCaller thread (.signaling none) with ProcessMonitorEnabled := false }
      | _ => none
  | .exit pid => if monitor.status pid = .running then some (monitor.setStatus pid .ended) else none
  | .forget pid =>
      if monitor.status pid = .ended ∧ ¬ monitor.Holds pid then some (monitor.setStatus pid .gone) else none
  | .spawn pid =>
      if monitor.status pid = .gone ∧ ¬ monitor.Holds pid then some (monitor.setStatus pid .running) else none
  | .elapse ms => some { monitor with now := monitor.now + ms }

end Monitor

def machine : Machine Monitor Event := ⟨Monitor.step⟩

/-- The monitor after `_ProcessMonitorInit`, with the processes that there are. -/
def initialized (status : Int → Status) : Monitor where
  ProcessList := []
  ProcessMonitorEnabled := true
  ProcessMonitorResetEvent := false
  phase := .top
  callers := fun _ => .returned none
  status := status
  leaked := []
  now := 0
  registrations := 0
  reported := []
  cancelled := []
  dropped := []
  killed := []

/-! ## What a step does -/

/-- The steps of the monitor thread by what it is at. -/
inductive Turned (monitor : Monitor) : Turn → Monitor → Prop where
  | collect (phase : monitor.phase = .top) : Turned monitor .collect monitor.collect
  | wait {round : Round} (phase : monitor.phase = .collected round) :
      Turned monitor .wait (monitor.wait round)
  | fail {round : Round} {since : Nat} (phase : monitor.phase = .waiting round since)
      (invalid : ¬ round.Valid) : Turned monitor .fail (monitor.fail round)
  | timeOut {round : Round} {since timeout : Nat} (phase : monitor.phase = .waiting round since)
      (finite : round.timeout = some timeout) (valid : round.Valid) (quiet : monitor.Quiet round)
      (late : since + timeout ≤ monitor.now) :
      Turned monitor .timeOut { monitor with phase := .timedOut round timeout }
  | reset {round : Round} {since : Nat} (phase : monitor.phase = .waiting round since)
      (valid : round.Valid) (quiet : monitor.Quiet round) (set : monitor.ProcessMonitorResetEvent = true) :
      Turned monitor .reset monitor.reset
  | signal {round : Round} {since index : Nat} {watched : Watched}
      (phase : monitor.phase = .waiting round since) (valid : round.Valid)
      (place : round.procs[index]? = some watched) (signaled : monitor.Signaled watched) :
      Turned monitor (.signal index) { monitor with phase := .signaled round watched }
  | subtract {round : Round} {timeout : Nat} (phase : monitor.phase = .timedOut round timeout) :
      Turned monitor .subtract (monitor.subtract round timeout)
  | callback {round : Round} {watched : Watched} (phase : monitor.phase = .signaled round watched) :
      Turned monitor .callback (monitor.callback round watched)
  | erase {round : Round} {watched : Watched} {registration : Nat}
      (phase : monitor.phase = .called round watched registration) :
      Turned monitor .erase (monitor.erase watched registration)

variable {monitor next : Monitor} {turn : Turn} {event : Event} {events : List Event}

theorem turned_of_turn (done : monitor.turn turn = some next) : Turned monitor turn next := by
  unfold Monitor.turn at done
  split at done
  · next phase => exact Option.some.inj done ▸ .collect phase
  · next phase => exact Option.some.inj done ▸ .wait phase
  · next phase =>
      split at done
      · cases done
      · next invalid => exact Option.some.inj done ▸ .fail phase invalid
  · next phase =>
      split at done
      · next finite =>
          split at done
          · next allowed => exact Option.some.inj done ▸ .timeOut phase finite allowed.1 allowed.2.1 allowed.2.2.2
          · cases done
      · cases done
  · next phase =>
      split at done
      · next allowed => exact Option.some.inj done ▸ .reset phase allowed.1 allowed.2.1 allowed.2.2
      · cases done
  · next phase =>
      split at done
      · next place =>
          split at done
          · next allowed => exact Option.some.inj done ▸ .signal phase allowed.1 place allowed.2.1
          · cases done
      · cases done
  · next phase => exact Option.some.inj done ▸ .subtract phase
  · next phase => exact Option.some.inj done ▸ .callback phase
  · next phase => exact Option.some.inj done ▸ .erase phase
  · cases done

/-- The steps of the other threads and of the system. -/
inductive Happened (monitor : Monitor) : Event → Monitor → Prop where
  | addPid {thread : Nat} {pid timeout : Int} {callback : Option Nat} {ctx : Nat}
      (idle : ∀ result, monitor.callers thread ≠ .signaling result) :
      Happened monitor (.addPid thread pid timeout callback ctx) (monitor.addPid thread pid timeout callback ctx)
  | outOfMemory {thread : Nat} (idle : ∀ result, monitor.callers thread ≠ .signaling result) :
      Happened monitor (.outOfMemory thread) (monitor.setCaller thread (.returned (some (-1))))
  | push {thread address : Nat} {pid timeout : Int} {callback ctx : Nat}
      (idle : ∀ result, monitor.callers thread ≠ .signaling result) (fresh : monitor.find address = none) :
      Happened monitor (.push thread address) (monitor.push thread address pid timeout callback ctx)
  | setEvent {thread : Nat} {result : Option Int} :
      Happened monitor (.setEvent thread)
        { monitor.setCaller thread (.returned result) with ProcessMonitorResetEvent := true }
  | removePid {thread : Nat} {pid : Int} (idle : ∀ result, monitor.callers thread ≠ .signaling result) :
      Happened monitor (.removePid thread pid) (monitor.removePid thread pid)
  | uninit {thread : Nat} (idle : ∀ result, monitor.callers thread ≠ .signaling result) :
      Happened monitor (.uninit thread)
        { monitor.setCaller thread (.signaling none) with ProcessMonitorEnabled := false }
  | exit {pid : Int} (runs : monitor.status pid = .running) :
      Happened monitor (.exit pid) (monitor.setStatus pid .ended)
  | forget {pid : Int} (free : ¬ monitor.Holds pid) : Happened monitor (.forget pid) (monitor.setStatus pid .gone)
  | spawn {pid : Int} (free : ¬ monitor.Holds pid) : Happened monitor (.spawn pid) (monitor.setStatus pid .running)
  | elapse {ms : Nat} : Happened monitor (.elapse ms) { monitor with now := monitor.now + ms }

theorem stepped (done : monitor.step event = some next) :
    (∃ turn, event = .monitor turn ∧ Turned monitor turn next) ∨ Happened monitor event next := by
  cases event with
  | monitor turn => exact .inl ⟨turn, rfl, turned_of_turn done⟩
  | addPid thread pid timeout callback ctx =>
      simp only [Monitor.step] at done
      split at done
      · next idle => exact .inr (Option.some.inj done ▸ .addPid fun _ signals => by simp [idle] at signals)
      · cases done
  | outOfMemory thread =>
      simp only [Monitor.step] at done
      split at done
      · next idle => exact .inr (Option.some.inj done ▸ .outOfMemory fun _ signals => by simp [idle] at signals)
      · cases done
  | push thread address =>
      simp only [Monitor.step] at done
      split at done
      · next idle =>
          obtain ⟨fresh, pushed⟩ := Option.ite_none_right_eq_some.mp done
          exact .inr (Option.some.inj pushed ▸ .push (fun _ signals => by simp [idle] at signals) fresh)
      · cases done
  | setEvent thread =>
      simp only [Monitor.step] at done
      split at done
      · exact .inr (Option.some.inj done ▸ .setEvent)
      · cases done
  | removePid thread pid =>
      simp only [Monitor.step] at done
      split at done
      · next idle => exact .inr (Option.some.inj done ▸ .removePid fun _ signals => by simp [idle] at signals)
      · cases done
  | uninit thread =>
      simp only [Monitor.step] at done
      split at done
      · next idle => exact .inr (Option.some.inj done ▸ .uninit fun _ signals => by simp [idle] at signals)
      · cases done
  | exit pid =>
      obtain ⟨runs, ended⟩ := Option.ite_none_right_eq_some.mp done
      exact .inr (Option.some.inj ended ▸ .exit runs)
  | forget pid =>
      obtain ⟨allowed, forgotten⟩ := Option.ite_none_right_eq_some.mp done
      exact .inr (Option.some.inj forgotten ▸ .forget allowed.2)
  | spawn pid =>
      obtain ⟨allowed, spawned⟩ := Option.ite_none_right_eq_some.mp done
      exact .inr (Option.some.inj spawned ▸ .spawn allowed.2)
  | elapse ms => exact .inr (Option.some.inj done ▸ .elapse)

/-- Before an entry is added, a call changes nothing but its thread. -/
theorem addPid_eq_setCaller (thread : Nat) (pid timeout : Int) (callback : Option Nat) (ctx : Nat) :
    ∃ caller, (∀ result, caller ≠ .signaling result) ∧
      monitor.addPid thread pid timeout callback ctx = monitor.setCaller thread caller := by
  cases callback with
  | none => exact ⟨.returned (some (-1)), nofun, rfl⟩
  | some callback =>
      simp only [Monitor.addPid]
      split
      · exact ⟨.returned (some (-1)), nofun, rfl⟩
      · split
        · exact ⟨.returned (some 0), nofun, rfl⟩
        · exact ⟨.adding pid timeout callback ctx, nofun, rfl⟩

/-! ## The list -/

@[simp] theorem charge_address (round : Round) (timeout : Nat) (entry : ProcessMonitorEntry) :
    (charge round timeout entry).address = entry.address := by
  rw [charge]
  split <;> rfl

@[simp] theorem charge_pid (round : Round) (timeout : Nat) (entry : ProcessMonitorEntry) :
    (charge round timeout entry).pid_ = entry.pid_ := by
  rw [charge]
  split <;> rfl

@[simp] theorem charge_registration (round : Round) (timeout : Nat) (entry : ProcessMonitorEntry) :
    (charge round timeout entry).registration = entry.registration := by
  rw [charge]
  split <;> rfl

theorem map_address_charge (round : Round) (timeout : Nat) (entries : List ProcessMonitorEntry) :
    (entries.map (charge round timeout)).map ProcessMonitorEntry.address =
      entries.map ProcessMonitorEntry.address := by
  rw [List.map_map]
  exact List.map_congr_left fun entry _ => charge_address round timeout entry

theorem map_registration_charge (round : Round) (timeout : Nat) (entries : List ProcessMonitorEntry) :
    (entries.map (charge round timeout)).map ProcessMonitorEntry.registration =
      entries.map ProcessMonitorEntry.registration := by
  rw [List.map_map]
  exact List.map_congr_left fun entry _ => charge_registration round timeout entry

/-- What a step does to the list and to what has been collected. -/
inductive ListStep (monitor next : Monitor) : Prop where
  | shrinks (sublist : next.ProcessList.Sublist monitor.ProcessList)
      (count : next.registrations = monitor.registrations)
      (round : next.phase.round? = monitor.phase.round? ∨ next.phase.round? = none)
  | collects (same : next.ProcessList = monitor.ProcessList)
      (count : next.registrations = monitor.registrations)
      (round : next.phase.round? = some monitor.collectHandles)
  | charges {round : Round} {timeout : Nat}
      (charged : next.ProcessList = monitor.ProcessList.map (charge round timeout))
      (count : next.registrations = monitor.registrations) (round : next.phase.round? = none)
  | grows {entry : ProcessMonitorEntry} (fresh : monitor.find entry.address = none)
      (number : entry.registration = monitor.registrations)
      (added : next.ProcessList = monitor.ProcessList ++ [entry])
      (count : next.registrations = monitor.registrations + 1) (round : next.phase = monitor.phase)

theorem listStep_of_same (same : next.ProcessList = monitor.ProcessList)
    (count : next.registrations = monitor.registrations)
    (round : next.phase.round? = monitor.phase.round? ∨ next.phase.round? = none) : ListStep monitor next :=
  .shrinks (same ▸ List.Sublist.refl _) count round

theorem listStep (done : monitor.step event = some next) : ListStep monitor next := by
  rcases stepped done with ⟨turn, rfl, turned⟩ | happened
  · cases turned with
    | collect phase =>
        rw [Monitor.collect]
        split
        · exact .collects rfl rfl rfl
        · exact listStep_of_same rfl rfl (.inr rfl)
    | wait phase =>
        rw [Monitor.wait]
        split
        · exact listStep_of_same rfl rfl (.inl (by rw [phase]; rfl))
        · exact listStep_of_same rfl rfl (.inr rfl)
    | fail phase => exact listStep_of_same rfl rfl (.inr rfl)
    | timeOut phase => exact listStep_of_same rfl rfl (.inl (by rw [phase]; rfl))
    | reset phase => exact listStep_of_same rfl rfl (.inr rfl)
    | signal phase => exact listStep_of_same rfl rfl (.inl (by rw [phase]; rfl))
    | subtract phase => exact .charges rfl rfl rfl
    | callback phase =>
        rw [Monitor.callback]
        split
        · exact listStep_of_same rfl rfl (.inr rfl)
        · exact listStep_of_same rfl rfl (.inl (by rw [phase]; rfl))
    | erase phase => exact .shrinks List.eraseP_sublist rfl (.inr rfl)
  · cases happened with
    | addPid idle =>
        obtain ⟨caller, -, changed⟩ := addPid_eq_setCaller _ _ _ _ _
        exact changed ▸ listStep_of_same rfl rfl (.inl rfl)
    | push idle fresh => exact .grows fresh rfl rfl rfl rfl
    | removePid idle => exact .shrinks List.eraseP_sublist rfl (.inl rfl)
    | _ => exact listStep_of_same rfl rfl (.inl rfl)

/-- The addresses of the entries are different, and so are their numbers. -/
structure Tidy (monitor : Monitor) : Prop where
  addresses : (monitor.ProcessList.map ProcessMonitorEntry.address).Nodup
  numbers : (monitor.ProcessList.map ProcessMonitorEntry.registration).Nodup
  counted : ∀ entry ∈ monitor.ProcessList, entry.registration < monitor.registrations

theorem tidy_initialized (status : Int → Status) : Tidy (initialized status) :=
  ⟨List.nodup_nil, List.nodup_nil, nofun⟩

theorem address_of_find_eq_none {address : Nat} (fresh : monitor.find address = none) :
    address ∉ monitor.ProcessList.map ProcessMonitorEntry.address := by
  rintro member
  obtain ⟨entry, listed, rfl⟩ := List.mem_map.mp member
  exact absurd (decide_eq_true rfl) (List.find?_eq_none.mp fresh entry listed)

theorem tidy_step (tidy : Tidy monitor) (done : monitor.step event = some next) : Tidy next := by
  cases listStep done with
  | shrinks sublist count =>
      exact ⟨tidy.addresses.sublist (sublist.map _), tidy.numbers.sublist (sublist.map _),
        fun entry listed => count ▸ tidy.counted entry (sublist.subset listed)⟩
  | collects same count =>
      exact ⟨same ▸ tidy.addresses, same ▸ tidy.numbers, fun entry listed => count ▸ tidy.counted entry (same ▸ listed)⟩
  | charges charged count =>
      refine ⟨?_, ?_, ?_⟩
      · rw [charged, map_address_charge]
        exact tidy.addresses
      · rw [charged, map_registration_charge]
        exact tidy.numbers
      · intro entry listed
        rw [charged] at listed
        obtain ⟨before, was, rfl⟩ := List.mem_map.mp listed
        rw [charge_registration, count]
        exact tidy.counted before was
  | grows fresh number added count =>
      refine ⟨?_, ?_, ?_⟩
      · rw [added, List.map_append, List.map_singleton]
        exact List.nodup_append.mpr ⟨tidy.addresses, List.nodup_singleton _, fun address listed other new same =>
          address_of_find_eq_none fresh (by rwa [← List.mem_singleton.mp new, ← same])⟩
      · rw [added, List.map_append, List.map_singleton]
        refine List.nodup_append.mpr ⟨tidy.numbers, List.nodup_singleton _, fun earlier listed other new same => ?_⟩
        obtain ⟨entry, was, rfl⟩ := List.mem_map.mp listed
        rw [List.mem_singleton.mp new, number] at same
        exact Nat.ne_of_lt (tidy.counted entry was) same
      · intro entry listed
        rw [added] at listed
        rw [count]
        rcases List.mem_append.mp listed with was | new
        · exact Nat.lt_succ_of_lt (tidy.counted entry was)
        · rw [List.mem_singleton.mp new, number]
          exact Nat.lt_succ_self _

/-! ## What has been collected -/

/-- What has been collected belongs to entries that there were, and is right for those that are still
in the list. -/
structure Known (monitor : Monitor) (round : Round) : Prop where
  counted : ∀ watched ∈ round.procs, watched.registration < monitor.registrations
  same : ∀ entry ∈ monitor.ProcessList, ∀ watched ∈ round.procs, watched.registration = entry.registration →
    watched.proc = entry.address ∧ (watched.handle = none ∨ watched.handle = some entry.pid_)
  least : ∀ entry ∈ monitor.ProcessList, round.Watches entry → 0 < entry.timeout_ →
    ∃ timeout : Nat, round.timeout = some timeout ∧ timeout ≤ entry.timeout_

/-- The minimum is found. -/
theorem foldl_leastTimeout (entries : List ProcessMonitorEntry) (timeout : Option Nat) :
    (∀ least, timeout = some least → ∃ less : Nat, entries.foldl leastTimeout timeout = some less ∧ less ≤ least) ∧
    ∀ entry ∈ entries, 0 < entry.timeout_ →
      ∃ less : Nat, entries.foldl leastTimeout timeout = some less ∧ less ≤ entry.timeout_ := by
  induction entries generalizing timeout with
  | nil => exact ⟨fun least same => ⟨least, same, Nat.le_refl _⟩, nofun⟩
  | cons first entries ih =>
      rw [List.foldl_cons]
      obtain ⟨fromFirst, fromLater⟩ := ih (leastTimeout timeout first)
      refine ⟨fun least same => ?_, fun entry listed positive => ?_⟩
      · subst same
        by_cases positive : 0 < first.timeout_
        · obtain ⟨less, found, below⟩ := fromFirst (min least first.timeout_.toNat) (by simp [leastTimeout, positive])
          exact ⟨less, found, Nat.le_trans below (Nat.min_le_left _ _)⟩
        · exact fromFirst least (by simp [leastTimeout, positive])
      · rcases List.mem_cons.mp listed with rfl | later
        · cases timeout with
          | none =>
              obtain ⟨less, found, below⟩ := fromFirst entry.timeout_.toNat (by simp [leastTimeout, positive])
              exact ⟨less, found, by omega⟩
          | some least =>
              obtain ⟨less, found, below⟩ :=
                fromFirst (min least entry.timeout_.toNat) (by simp [leastTimeout, positive])
              exact ⟨less, found, by omega⟩
        · exact fromLater entry later positive

theorem watched_mem_collectHandles {watched : Watched} (member : watched ∈ monitor.collectHandles.procs) :
    ∃ entry ∈ monitor.ProcessList,
      watched = ⟨entry.address, monitor.openProcess entry.pid_, entry.registration⟩ := by
  obtain ⟨entry, listed, rfl⟩ := List.mem_map.mp member
  exact ⟨entry, listed, rfl⟩

theorem known_collectHandles (tidy : Tidy monitor) : Known monitor monitor.collectHandles where
  counted watched member := by
    obtain ⟨entry, listed, rfl⟩ := watched_mem_collectHandles member
    exact tidy.counted entry listed
  same entry listed watched member number := by
    obtain ⟨other, was, rfl⟩ := watched_mem_collectHandles member
    obtain rfl := List.inj_on_of_nodup_map tidy.numbers was listed number
    refine ⟨rfl, ?_⟩
    simp only [Monitor.openProcess]
    split
    · exact .inl rfl
    · exact .inr rfl
  least entry listed _ positive := (foldl_leastTimeout _ _).2 entry listed positive

theorem known_step (tidy : Tidy monitor) (known : ∀ round, monitor.phase.round? = some round → Known monitor round)
    (done : monitor.step event = some next) :
    ∀ round, next.phase.round? = some round → Known next round := by
  intro round collected
  cases listStep done with
  | shrinks sublist count kept =>
      rcases kept with kept | lost
      · have before := known round (kept ▸ collected)
        exact ⟨fun watched member => count ▸ before.counted watched member,
          fun entry listed => before.same entry (sublist.subset listed),
          fun entry listed => before.least entry (sublist.subset listed)⟩
      · rw [lost] at collected
        cases collected
  | collects same count fresh =>
      rw [fresh, Option.some.injEq] at collected
      subst collected
      have now := known_collectHandles tidy
      exact ⟨fun watched member => count ▸ now.counted watched member,
        fun entry listed => now.same entry (same ▸ listed), fun entry listed => now.least entry (same ▸ listed)⟩
  | charges charged count lost =>
      rw [lost] at collected
      cases collected
  | grows fresh number added count kept =>
      have before := known round (kept ▸ collected)
      rename_i new
      have foreign : ∀ watched ∈ round.procs, watched.registration ≠ new.registration :=
        fun watched member same => Nat.ne_of_lt (before.counted watched member) (same.trans number)
      refine ⟨fun watched member => count ▸ Nat.lt_succ_of_lt (before.counted watched member),
        fun entry listed watched member same => ?_, fun entry listed watches positive => ?_⟩
      · rw [added] at listed
        rcases List.mem_append.mp listed with was | isNew
        · exact before.same entry was watched member same
        · exact absurd (List.mem_singleton.mp isNew ▸ same) (foreign watched member)
      · rw [added] at listed
        rcases List.mem_append.mp listed with was | isNew
        · exact before.least entry was watches positive
        · obtain ⟨watched, member, same⟩ := List.mem_map.mp watches
          exact absurd (List.mem_singleton.mp isNew ▸ same) (foreign watched member)

end Tegenaria.LibProcess
