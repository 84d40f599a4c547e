import Mathlib.Data.Int.Basic
import Tegenaria.Foundation.LockDiscipline
import Tegenaria.Foundation.OrderedMap
import Tegenaria.Foundation.Transition

/-!
# The slaves of a mixer

`addSlave` and `removeSlave` keep the map of slaves behind `slavesMutex_`; `flush`
cancels and joins their threads.  The calls that the operating system can refuse have
their outcomes as arguments, and every call records what it does to the mutex and to
the map behind it.
-/

namespace Tegenaria.LibIO

open Foundation

/-- The context of a slave; no thread is a null pointer. -/
structure IOMixerSlave where
  id : Int
  thread : Option Nat
  deriving DecidableEq

/-- The fields of a mixer that registration uses. -/
structure SlaveRegistry where
  init : Bool
  dead : Bool
  slaves : OrderedMap Int IOMixerSlave
  slavesCount : Int

/-- What the system answers to one `addSlave`: whether the two pairs of pipes could be
created, and the new thread. -/
structure SlaveResources where
  pin : Bool
  pout : Bool
  thread : Option Nat

/-- The returned id, the mixer, and what was done to the mutex and the map, the latest
first. -/
structure Registered where
  result : Int
  mixer : SlaveRegistry
  events : List LockEvent

namespace SlaveRegistry

/-- A mixer after its constructor. -/
def new (init : Bool) : SlaveRegistry where
  init
  dead := false
  slaves := .empty
  slavesCount := 1

def getSlave (mixer : SlaveRegistry) (id : Int) : Option IOMixerSlave := mixer.slaves.find id

/-- The loop that looks for an unused id; the number of values left below `2 ^ 31` goes
down with every increment, and the next increment after the last one overflows. -/
def freeId (mixer : SlaveRegistry) : (left : Nat) → (slavesCount : Int) → Option Int
  | 0, _ => none
  | left + 1, slavesCount =>
      if (mixer.getSlave slavesCount).isSome then freeId mixer left (slavesCount + 1)
      else some slavesCount

/-- The slave is stored under its id. -/
def store (mixer : SlaveRegistry) (id : Int) (thread : Option Nat) : SlaveRegistry :=
  { mixer with slaves := mixer.slaves.assign id { id, thread } }

/-- `IOMixer::addSlave`, undefined when the counter overflows.  All checks leave through
the same exit. -/
def addSlave (mixer : SlaveRegistry) (slaveId : Int) (resources : SlaveResources) :
    Option Registered :=
  let fail (events : List LockEvent) : Option Registered :=
    some { result := -1, mixer, events := .unlock :: events }
  if mixer.init = false then fail []
  else if slaveId = 0 then fail []
  else if mixer.dead then fail []
  else if resources.pin = false then fail []
  else if resources.pout = false then fail []
  else if slaveId = -1 then
    match mixer.freeId (2 ^ 31 - mixer.slavesCount).toNat mixer.slavesCount with
    | none => none
    | some id =>
        some
          { result := id
            mixer := { mixer with slavesCount := id }.store id resources.thread
            events := [.unlock, .write, .read, .lock] }
  else if (mixer.slaves.find slaveId).isSome then fail [.read, .lock]
  else
    some
      { result := slaveId
        mixer := mixer.store slaveId resources.thread
        events := [.unlock, .write, .read, .lock] }

/-- `IOMixer::removeSlave` -/
def removeSlave (mixer : SlaveRegistry) (id : Int) : Registered :=
  match mixer.getSlave id with
  | some _ =>
      { result := 0
        mixer := { mixer with slaves := mixer.slaves.remove id }
        events := [.unlock, .write, .read, .lock] }
  | none => { result := 0, mixer, events := [.unlock, .read, .lock] }

/-- A call; `die` is any way in which the mixer gets dead. -/
inductive Call where
  | addSlave (slaveId : Int32) (resources : SlaveResources)
  | removeSlave (id : Int32)
  | die

def call (mixer : SlaveRegistry) : Call → Option Registered
  | .addSlave slaveId resources => mixer.addSlave slaveId.toInt resources
  | .removeSlave id => some (mixer.removeSlave id.toInt)
  | .die => some { result := 0, mixer := { mixer with dead := true }, events := [] }

def machine : Machine SlaveRegistry Call where
  step mixer request := (mixer.call request).map Registered.mixer

/-- The ids that the slaves carry. -/
def ids (mixer : SlaveRegistry) : List Int := mixer.slaves.entries.map fun entry => entry.2.id

/-- An `addSlave` that has to be rejected. -/
def Rejected (mixer : SlaveRegistry) (slaveId : Int) (resources : SlaveResources) : Prop :=
  mixer.init = false ∨ slaveId = 0 ∨ mixer.dead = true ∨ resources.pin = false ∨
    resources.pout = false ∨ slaveId ≠ -1 ∧ mixer.getSlave slaveId ≠ none

/-- What is promised of every call. -/
structure CallSound (after : Registered) : Prop where
  distinct : after.mixer.ids.Nodup
  reserved : 0 ∉ after.mixer.ids
  balanced : LockEvent.Balanced after.events

/-- What is promised of `addSlave` in particular. -/
structure AddSound (mixer : SlaveRegistry) (slaveId : Int) (resources : SlaveResources)
    (after : Registered) : Prop where
  rejected : mixer.Rejected slaveId resources → after.result = -1
  unchanged : after.result = -1 → after.mixer.slaves = mixer.slaves
  unused : after.result ≠ -1 → after.result ∉ mixer.ids
  requested : after.result ≠ -1 → slaveId ≠ -1 → after.result = slaveId
  added : after.result ≠ -1 → after.mixer.slaves =
    mixer.slaves.assign after.result { id := after.result, thread := resources.thread }

/-- A call returns and keeps what is promised. -/
def Keeps (mixer : SlaveRegistry) (request : Call) : Prop :=
  ∃ after, mixer.call request = some after ∧ CallSound after ∧
    match request with
    | .addSlave slaveId resources => AddSound mixer slaveId.toInt resources after
    | _ => True

/-- An `addSlave` reaches the lock of the map. -/
structure Admitted (mixer : SlaveRegistry) (slaveId : Int) (resources : SlaveResources) : Prop where
  init : mixer.init = true
  ordinary : slaveId ≠ 0
  alive : mixer.dead = false
  pin : resources.pin = true
  pout : resources.pout = true

/-- An `addSlave` reaches the lock of the map, and an id is left when it has to find
one. -/
def Proceeds (mixer : SlaveRegistry) : Call → Prop
  | .addSlave slaveId resources => mixer.Admitted slaveId.toInt resources ∧
      (slaveId.toInt = -1 → ∃ id, mixer.slavesCount ≤ id ∧ id < 2 ^ 31 ∧ mixer.getSlave id = none)
  | .removeSlave _ | .die => True

/-! ## Unused ids -/

theorem freeId_some {mixer : SlaveRegistry} {left : Nat} {count id : Int}
    (found : mixer.freeId left count = some id) : mixer.getSlave id = none ∧ count ≤ id := by
  induction left generalizing count with
  | zero => cases found
  | succ left ih =>
      rw [freeId] at found
      split at found
      · obtain ⟨unused, later⟩ := ih found
        exact ⟨unused, by omega⟩
      · next unused =>
          cases found
          exact ⟨by simpa using unused, le_refl _⟩

/-- The loop ends unless all remaining ids are used. -/
theorem freeId_none {mixer : SlaveRegistry} {left : Nat} {count : Int} :
    mixer.freeId left count = none ↔
      ∀ id, count ≤ id → id < count + left → mixer.getSlave id ≠ none := by
  induction left generalizing count with
  | zero => exact ⟨fun _ id lower upper => by omega, fun _ => rfl⟩
  | succ left ih =>
      rw [freeId]
      split
      · next used =>
          rw [ih]
          constructor
          · intro rest id lower upper
            by_cases here : id = count
            · rw [here]
              exact Option.isSome_iff_ne_none.mp used
            · exact rest id (by omega) (by omega)
          · intro all id lower upper
            exact all id (by omega) (by omega)
      · next unused =>
          refine iff_of_false (Option.some_ne_none count) fun all => ?_
          exact all count (le_refl _) (by omega) (by simpa using unused)

/-! ## The map of slaves -/

/-- Slaves are stored under the ids they carry, and the counter is positive. -/
structure Consistent (mixer : SlaveRegistry) : Prop where
  keyed : ∀ key slave, mixer.slaves.find key = some slave → slave.id = key
  reserved : mixer.slaves.find 0 = none
  counted : 1 ≤ mixer.slavesCount

theorem new_consistent (init : Bool) : (new init).Consistent where
  keyed _ _ found := by cases found
  reserved := rfl
  counted := le_refl _

section Ids

variable {mixer : SlaveRegistry} (consistent : mixer.Consistent)
include consistent

theorem Consistent.ids_eq : mixer.ids = mixer.slaves.entries.map Prod.fst := by
  refine List.map_congr_left fun entry member => ?_
  exact consistent.keyed entry.1 entry.2 (OrderedMap.find_eq_some.mpr member)

theorem Consistent.mem_ids {id : Int} : id ∈ mixer.ids ↔ mixer.getSlave id ≠ none := by
  rw [consistent.ids_eq, getSlave, Ne, OrderedMap.find_eq_none, List.mem_map]
  push Not
  rfl

theorem Consistent.callSound {result : Int} {events : List LockEvent}
    (balanced : LockEvent.Balanced events) :
    CallSound { result, mixer, events } where
  distinct := by
    rw [consistent.ids_eq]
    exact mixer.slaves.nodup_keys
  reserved := by
    rw [consistent.mem_ids]
    exact fun used => used consistent.reserved
  balanced := balanced

theorem Consistent.store {id : Int} (ordinary : id ≠ 0) (thread : Option Nat) :
    (mixer.store id thread).Consistent where
  keyed key slave found := by
    rw [SlaveRegistry.store, OrderedMap.find_assign] at found
    split at found
    · next same =>
        cases found
        exact same.symm
    · exact consistent.keyed key slave found
  reserved := by
    rw [SlaveRegistry.store, OrderedMap.find_assign, if_neg ordinary.symm]
    exact consistent.reserved
  counted := consistent.counted

theorem Consistent.removeSlave (id : Int) : (mixer.removeSlave id).mixer.Consistent := by
  rw [SlaveRegistry.removeSlave]
  split
  · exact
      { keyed := fun key slave found => by
          rw [OrderedMap.find_remove] at found
          split at found
          · cases found
          · exact consistent.keyed key slave found
        reserved := by
          rw [OrderedMap.find_remove]
          split
          · rfl
          · exact consistent.reserved
        counted := consistent.counted }
  · exact consistent

end Ids

/-! ## One call -/

/-- The steps on the mutex of a call that reaches it. -/
theorem balanced_read : LockEvent.Balanced [.unlock, .read, .lock] :=
  LockEvent.balanced_nil.lock.read.unlock

theorem balanced_write : LockEvent.Balanced [.unlock, .write, .read, .lock] :=
  LockEvent.balanced_nil.lock.read.write.unlock

theorem removeSlave_balanced (mixer : SlaveRegistry) (id : Int) :
    LockEvent.Balanced (mixer.removeSlave id).events := by
  rw [removeSlave]
  split
  · exact balanced_write
  · exact balanced_read

section Add

variable {mixer : SlaveRegistry} {slaveId : Int} {resources : SlaveResources}

/-- A call that is not admitted unlocks what it has not locked. -/
theorem addSlave_refused (refused : ¬ mixer.Admitted slaveId resources) :
    mixer.addSlave slaveId resources = some { result := -1, mixer, events := [.unlock] } := by
  rw [addSlave]
  split
  · rfl
  split
  · rfl
  split
  · rfl
  split
  · rfl
  split
  · rfl
  · next init ordinary alive pin pout =>
      refine absurd ⟨?_, ordinary, ?_, ?_, ?_⟩ refused
      · simpa using init
      · simpa using alive
      · simpa using pin
      · simpa using pout

variable (admitted : mixer.Admitted slaveId resources)
include admitted

/-- What an admitted call does with the map. -/
theorem addSlave_admitted :
    mixer.addSlave slaveId resources =
      if slaveId = -1 then
        (mixer.freeId (2 ^ 31 - mixer.slavesCount).toNat mixer.slavesCount).map fun id =>
          { result := id
            mixer := { mixer with slavesCount := id }.store id resources.thread
            events := [.unlock, .write, .read, .lock] }
      else if (mixer.getSlave slaveId).isSome then
        some { result := -1, mixer, events := [.unlock, .read, .lock] }
      else
        some
          { result := slaveId
            mixer := mixer.store slaveId resources.thread
            events := [.unlock, .write, .read, .lock] } := by
  rw [addSlave, if_neg (by simp [admitted.init]), if_neg admitted.ordinary,
    if_neg (by simp [admitted.alive]), if_neg (by simp [admitted.pin]),
    if_neg (by simp [admitted.pout])]
  split
  · cases mixer.freeId (2 ^ 31 - mixer.slavesCount).toNat mixer.slavesCount with
    | none => rfl
    | some id => rfl
  · rfl

theorem addSlave_automatic (automatic : slaveId = -1) :
    mixer.addSlave slaveId resources =
      (mixer.freeId (2 ^ 31 - mixer.slavesCount).toNat mixer.slavesCount).map fun id =>
        { result := id
          mixer := { mixer with slavesCount := id }.store id resources.thread
          events := [.unlock, .write, .read, .lock] } := by
  rw [addSlave_admitted admitted, if_pos automatic]

theorem addSlave_explicit (explicit : slaveId ≠ -1) :
    mixer.addSlave slaveId resources =
      if (mixer.getSlave slaveId).isSome then
        some { result := -1, mixer, events := [.unlock, .read, .lock] }
      else
        some
          { result := slaveId
            mixer := mixer.store slaveId resources.thread
            events := [.unlock, .write, .read, .lock] } := by
  rw [addSlave_admitted admitted, if_neg explicit]

end Add

theorem call_consistent {mixer : SlaveRegistry} (consistent : mixer.Consistent) {request : Call}
    {after : Registered} (called : mixer.call request = some after) : after.mixer.Consistent := by
  cases request with
  | addSlave slaveId resources =>
      rw [call] at called
      by_cases admitted : mixer.Admitted slaveId.toInt resources
      · by_cases automatic : slaveId.toInt = -1
        · rw [addSlave_automatic admitted automatic, Option.map_eq_some_iff] at called
          obtain ⟨id, found, rfl⟩ := called
          have lower := (freeId_some found).2
          have positive := consistent.counted
          have counted : Consistent { mixer with slavesCount := id } :=
            ⟨consistent.keyed, consistent.reserved, by simp only; omega⟩
          exact counted.store (by omega) resources.thread
        · rw [addSlave_explicit admitted automatic] at called
          split at called
          · cases called
            exact consistent
          · cases called
            exact consistent.store admitted.ordinary resources.thread
      · rw [addSlave_refused admitted] at called
        cases called
        exact consistent
  | removeSlave id =>
      cases called
      exact consistent.removeSlave id.toInt
  | die =>
      cases called
      exact ⟨consistent.keyed, consistent.reserved, consistent.counted⟩

/-- An id is left for an automatic slave exactly when the loop finds it. -/
theorem freeId_isSome_iff {mixer : SlaveRegistry} :
    (mixer.freeId (2 ^ 31 - mixer.slavesCount).toNat mixer.slavesCount).isSome ↔
      ∃ id, mixer.slavesCount ≤ id ∧ id < 2 ^ 31 ∧ mixer.getSlave id = none := by
  rw [Option.isSome_iff_ne_none, Ne, freeId_none]
  push Not
  constructor
  · rintro ⟨id, lower, upper, unused⟩
    exact ⟨id, lower, by omega, unused⟩
  · rintro ⟨id, lower, upper, unused⟩
    exact ⟨id, lower, by omega, unused⟩

/-- An admitted call is rejected for an id that is in use only. -/
theorem Admitted.rejected_iff {mixer : SlaveRegistry} {slaveId : Int} {resources : SlaveResources}
    (admitted : mixer.Admitted slaveId resources) :
    mixer.Rejected slaveId resources ↔ slaveId ≠ -1 ∧ mixer.getSlave slaveId ≠ none := by
  obtain ⟨init, ordinary, alive, pin, pout⟩ := admitted
  simp [Rejected, init, ordinary, alive, pin, pout]

/-- A slave stored under an unused id. -/
theorem addSound_store {mixer counted : SlaveRegistry} {slaveId id : Int} {resources : SlaveResources}
    (consistent : mixer.Consistent) (same : counted.slaves = mixer.slaves)
    (accepted : ¬ mixer.Rejected slaveId resources) (unused : mixer.getSlave id = none)
    (valid : id ≠ -1) (requested : slaveId ≠ -1 → id = slaveId) (events : List LockEvent) :
    AddSound mixer slaveId resources
      { result := id, mixer := counted.store id resources.thread, events } where
  rejected rejected := absurd rejected accepted
  unchanged failed := absurd failed valid
  unused _ := by
    rw [consistent.mem_ids]
    exact fun used => used unused
  requested _ := requested
  added _ := by rw [store, same]

/-- An admitted call keeps what is promised, unless the counter overflows. -/
theorem addSlave_keeps {mixer : SlaveRegistry} (consistent : mixer.Consistent) {slaveId : Int32}
    {resources : SlaveResources} (admitted : mixer.Admitted slaveId.toInt resources)
    (left : slaveId.toInt = -1 →
      ∃ id, mixer.slavesCount ≤ id ∧ id < 2 ^ 31 ∧ mixer.getSlave id = none) :
    mixer.Keeps (.addSlave slaveId resources) := by
  by_cases automatic : slaveId.toInt = -1
  · obtain ⟨id, found⟩ := Option.isSome_iff_exists.mp (freeId_isSome_iff.mpr (left automatic))
    have added := addSlave_automatic admitted automatic
    rw [found, Option.map_some] at added
    obtain ⟨unused, lower⟩ := freeId_some found
    have positive := consistent.counted
    have accepted : ¬ mixer.Rejected slaveId.toInt resources := by
      rw [admitted.rejected_iff]
      exact fun rejected => rejected.1 automatic
    have called : mixer.call (.addSlave slaveId resources) = some _ := added
    refine ⟨_, called, (call_consistent consistent called).callSound balanced_write, ?_⟩
    refine addSound_store consistent ?_ accepted unused (by omega) (fun explicit => absurd automatic explicit) _
    rfl
  · have added := addSlave_explicit admitted automatic
    cases used : mixer.getSlave slaveId.toInt with
    | some slave =>
        rw [used, Option.isSome_some, if_pos rfl] at added
        exact ⟨_, added, consistent.callSound balanced_read,
          { rejected := fun _ => rfl
            unchanged := fun _ => rfl
            unused := fun valid => absurd rfl valid
            requested := fun valid => absurd rfl valid
            added := fun valid => absurd rfl valid }⟩
    | none =>
        rw [used, Option.isSome_none, if_neg Bool.false_ne_true] at added
        have accepted : ¬ mixer.Rejected slaveId.toInt resources := by
          rw [admitted.rejected_iff]
          exact fun rejected => rejected.2 used
        exact ⟨_, added, (consistent.store admitted.ordinary resources.thread).callSound balanced_write,
          addSound_store consistent rfl accepted used automatic (fun _ => rfl) _⟩

/-- A call keeps what is promised exactly when it proceeds. -/
theorem keeps_iff {mixer : SlaveRegistry} (consistent : mixer.Consistent) (request : Call) :
    mixer.Keeps request ↔ mixer.Proceeds request := by
  cases request with
  | addSlave slaveId resources =>
      refine ⟨?_, fun proceeds => addSlave_keeps consistent proceeds.1 proceeds.2⟩
      rintro ⟨after, called, sound, -⟩
      rw [call] at called
      have admitted : mixer.Admitted slaveId.toInt resources := by
        by_contra refused
        rw [addSlave_refused refused] at called
        cases called
        exact Nat.lt_irrefl 0 sound.balanced.sound.1
      refine ⟨admitted, fun automatic => ?_⟩
      rw [addSlave_automatic admitted automatic] at called
      rw [← freeId_isSome_iff]
      cases found : mixer.freeId (2 ^ 31 - mixer.slavesCount).toNat mixer.slavesCount with
      | none =>
          rw [found] at called
          cases called
      | some id => rfl
  | removeSlave id =>
      refine iff_of_true ⟨_, rfl, ?_, trivial⟩ trivial
      exact (consistent.removeSlave id.toInt).callSound (removeSlave_balanced mixer id.toInt)
  | die =>
      refine iff_of_true ⟨_, rfl, ?_, trivial⟩ trivial
      have same : Consistent { mixer with dead := true } :=
        ⟨consistent.keyed, consistent.reserved, consistent.counted⟩
      exact same.callSound LockEvent.balanced_nil

/-- Over any calls, a mixer keeps distinct ids other than zero, rejects without a trace
and balances its mutex exactly when every `addSlave` passes the checks before the lock
and finds an id in time. -/
theorem registration_iff (init : Bool) (requests : List Call) :
    machine.AllSteps Keeps (new init) requests ↔ machine.AllSteps Proceeds (new init) requests := by
  have preserved : ∀ (mixer : SlaveRegistry) (request : Call) (next : SlaveRegistry), mixer.Consistent →
      mixer.Proceeds request → machine.step mixer request = some next → next.Consistent := by
    intro mixer request next consistent _ stepped
    obtain ⟨after, called, rfl⟩ := Option.map_eq_some_iff.mp stepped
    exact call_consistent consistent called
  exact Machine.allSteps_iff (fun _ request consistent => keeps_iff consistent request) preserved
    (new_consistent init) requests

/-- The id zero is refused by unlocking a mutex that was never locked. -/
theorem reserved_id_unbalanced :
    ¬ machine.AllSteps Keeps (new true) [.addSlave 0 { pin := true, pout := true, thread := some 1 }] := by
  rintro ⟨⟨after, called, sound, -⟩, -⟩
  cases called
  exact Nat.lt_irrefl 0 sound.balanced.sound.1

/-! ## Joining the slaves -/

/-- The slaves and the keys of those that were asked to cancel, the latest first. -/
structure Flushed where
  slaves : OrderedMap Int IOMixerSlave
  requests : List Int

/-- One round of the loop of `flush`.  It works on the first slave of the map, whatever
slave the iterator has reached.  A cancel request that could not be written is reported
and dropped; the thread is joined in any case. -/
def flushRound (state : Flushed) (written : Bool) : Flushed :=
  match state.slaves.entries with
  | [] => state
  | (key, slave) :: _ =>
      { slaves := state.slaves.assign key { slave with thread := none }
        requests := if written then key :: state.requests else state.requests }

/-- The rounds of `flush`, with the outcomes of their cancel requests. -/
def flushRounds (written : Nat → Bool) : Nat → Flushed → Flushed
  | 0, state => state
  | rounds + 1, state => flushRound (flushRounds written rounds state) (written rounds)

/-- `IOMixer::flush`: one round for every slave. -/
def flush (mixer : SlaveRegistry) (written : Nat → Bool) : Flushed :=
  flushRounds written mixer.slaves.entries.length { slaves := mixer.slaves, requests := [] }

/-- Every slave is asked to cancel once and has no thread afterwards. -/
structure FlushJoins (mixer : SlaveRegistry) (written : Nat → Bool) : Prop where
  cancelled : ∀ entry ∈ mixer.slaves.entries, entry.1 ∈ (mixer.flush written).requests
  once : ∀ entry ∈ mixer.slaves.entries, (mixer.flush written).requests.count entry.1 ≤ 1
  joined : ∀ entry ∈ (mixer.flush written).slaves.entries, entry.2.thread = none

theorem assign_first {slaves : OrderedMap Int IOMixerSlave} {key : Int} {slave value : IOMixerSlave}
    {rest : List (Int × IOMixerSlave)} (entries : slaves.entries = (key, slave) :: rest) :
    (slaves.assign key value).entries = (key, value) :: rest := by
  change OrderedMap.assignEntry key value slaves.entries = (key, value) :: rest
  rw [entries, OrderedMap.assignEntry, if_neg (lt_irrefl key), if_pos rfl]

/-- All rounds work on the same slave. -/
theorem flushRounds_first (written : Nat → Bool) (rounds : Nat) {state : Flushed} {key : Int}
    {slave : IOMixerSlave} {rest : List (Int × IOMixerSlave)}
    (entries : state.slaves.entries = (key, slave) :: rest)
    (requested : ∀ id ∈ state.requests, id = key) :
    (∃ last, (flushRounds written rounds state).slaves.entries = (key, last) :: rest ∧
        (0 < rounds → last.thread = none)) ∧
      ∀ id ∈ (flushRounds written rounds state).requests, id = key := by
  induction rounds with
  | zero => exact ⟨⟨slave, entries, fun some => absurd some (lt_irrefl 0)⟩, requested⟩
  | succ rounds ih =>
      obtain ⟨⟨last, before, -⟩, earlier⟩ := ih
      rw [flushRounds, flushRound, before]
      refine ⟨⟨_, assign_first before, fun _ => rfl⟩, ?_⟩
      intro id member
      simp only at member
      split at member
      · rcases List.mem_cons.mp member with same | later
        · exact same
        · exact earlier id later
      · exact earlier id member

/-- A flush joins every slave exactly when there is at most one, and its cancel request
could be written. -/
theorem flush_joins_iff (mixer : SlaveRegistry) (written : Nat → Bool) :
    mixer.FlushJoins written ↔
      mixer.slaves.entries.length ≤ 1 ∧ (mixer.slaves.entries.length = 1 → written 0 = true) := by
  match entries : mixer.slaves.entries with
  | [] =>
      have flushed : mixer.flush written = { slaves := mixer.slaves, requests := [] } := by
        rw [flush, entries]
        rfl
      refine iff_of_true ⟨?_, ?_, ?_⟩ ⟨by simp, by simp⟩
      · simp [entries]
      · simp [entries]
      · simp [flushed, entries]
  | [(key, slave)] =>
      have flushed : mixer.flush written =
          { slaves := mixer.slaves.assign key { slave with thread := none }
            requests := if written 0 then [key] else [] } := by
        rw [flush, entries, List.length_singleton, flushRounds, flushRounds, flushRound, entries]
      constructor
      · intro joins
        have member := joins.cancelled (key, slave) (by simp [entries])
        refine ⟨by simp, fun _ => ?_⟩
        by_contra refused
        rw [flushed, if_neg refused] at member
        exact List.not_mem_nil member
      · rintro ⟨-, accepted⟩
        rw [if_pos (accepted rfl)] at flushed
        exact
          { cancelled := by simp [flushed, entries]
            once := by simp [flushed, entries]
            joined := by simp [flushed, assign_first entries] }
  | (key, slave) :: second :: rest =>
      have onlyFirst := (@flushRounds_first written mixer.slaves.entries.length
        { slaves := mixer.slaves, requests := [] } key slave (second :: rest) entries
        fun _ member => absurd member List.not_mem_nil).2
      have later : key < second.1 := by
        have increasing := mixer.slaves.increasing
        rw [entries] at increasing
        exact (List.pairwise_cons.mp increasing).1 second List.mem_cons_self
      refine iff_of_false (fun joins => ?_) (by simp)
      have asked := joins.cancelled second (by simp [entries])
      exact absurd (onlyFirst second.1 asked) later.ne'

/-- Of two slaves the first one is cancelled twice, and the thread of the second one
goes on. -/
theorem flush_skips_second :
    ¬ FlushJoins { new true with slaves := .assign (.assign .empty 1 ⟨1, some 7⟩) 2 ⟨2, some 8⟩ }
      fun _ => true := by
  intro joins
  exact absurd (joins.joined (2, ⟨2, some 8⟩) (by decide)) (by decide)

end SlaveRegistry

end Tegenaria.LibIO
