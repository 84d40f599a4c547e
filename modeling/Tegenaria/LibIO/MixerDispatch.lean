import Tegenaria.LibIO.Mixer

/-!
# Dispatching incoming frames

`masterLoop` takes one frame after another off the master input and hands it to the
channel it is for: data is written to the pipe of the slave, and an EOF closes that
pipe.  An EOF for channel 0 ends the loop.

Each slave has a pipe of its own, and a write to an open pipe takes all bytes.
-/

namespace Tegenaria.LibIO

open IOMixer

/-- The part of `IOMixerSlave` that incoming frames use.  `fdout` is the pipe with all
bytes written to it, and whether it is still open. -/
structure Slave where
  eofSent : Bool
  eofReceived : Bool
  isOpen : Bool
  fdout : List UInt8
  deriving DecidableEq

namespace Slave

/-- The state in which `addSlave` leaves a slave. -/
def new : Slave := { eofSent := false, eofReceived := false, isOpen := true, fdout := [] }

/-- `write` to the pipe of the slave; a closed pipe takes nothing. -/
def write (slave : Slave) (buf : List UInt8) : Slave :=
  if slave.isOpen then { slave with fdout := slave.fdout ++ buf } else slave

/-- The remote side sends no more data. -/
def receiveEof (slave : Slave) : Slave := { slave with eofReceived := true, isOpen := false }

end Slave

/-- The slaves by their ids, and the flag that ends the loop. -/
structure Dispatcher where
  slaves : Int32 → Option Slave
  masterEofReceived : Bool

namespace Dispatcher

def getSlave (mixer : Dispatcher) (id : Int32) : Option Slave := mixer.slaves id

/-- Replaces a slave. -/
def setSlave (mixer : Dispatcher) (id : Int32) (slave : Slave) : Dispatcher :=
  { mixer with slaves := Function.update mixer.slaves id (some slave) }

/-- `IOMixer::slaveWrite`: the mixer and the exit code. -/
@[grind =] def slaveWrite (mixer : Dispatcher) (id : Int32) (buf : List UInt8) (size : Int) : Dispatcher × Int :=
  match mixer.getSlave id with
  | none => (mixer, 0)
  | some slave =>
      if slave.eofSent then (mixer, 0)
      else (mixer.setSlave id (slave.write (buf.take size.toNat)), if slave.isOpen then 0 else -1)

/-- One round of `masterLoop`. -/
@[grind =] def dispatch (mixer : Dispatcher) (frame : Decoded) : Dispatcher :=
  if frame.size ≤ 0 then
    if frame.id = 0 then
      { mixer with masterEofReceived := true }
    else
      match mixer.getSlave frame.id with
      | none => mixer
      | some slave => mixer.setSlave frame.id slave.receiveEof
  else
    (mixer.slaveWrite frame.id frame.data frame.size).1

/-- `IOMixer::masterLoop` over the frames that can be decoded.  When there are no more,
the connection is broken, which counts as the master EOF. -/
@[grind =] def masterLoop : Dispatcher → List Decoded → Dispatcher
  | mixer, [] => { mixer with masterEofReceived := true }
  | mixer, frame :: frames =>
      if mixer.masterEofReceived then mixer else masterLoop (mixer.dispatch frame) frames

/-- A mixer with the given slaves, before the first frame. -/
def start (registered : Int32 → Bool) : Dispatcher where
  slaves := fun id => if registered id then some .new else none
  masterEofReceived := false

end Dispatcher

/-! ## What a channel sees -/

/-- The frame is the EOF of the channel or the one of the master. -/
def ends (id : Int32) (frame : Decoded) : Bool := frame.size ≤ 0 ∧ (frame.id = id ∨ frame.id = 0)

/-- The frame carries data for the channel. -/
def carries (id : Int32) (frame : Decoded) : Bool := frame.size > 0 ∧ frame.id = id

/-- The frames up to the first EOF of the channel or of the master. -/
def delivered (id : Int32) (frames : List Decoded) : List Decoded :=
  (frames.takeWhile fun frame => !ends id frame).filter (carries id)

/-- The bytes of a frame that are written. -/
def payload (frame : Decoded) : List UInt8 := frame.data.take frame.size.toNat

/-- The frame is for the channel or ends all of them. -/
def concerns (id : Int32) (frame : Decoded) : Bool := frame.id = id ∨ frame.size ≤ 0 ∧ frame.id = 0

namespace Dispatcher

variable {mixer : Dispatcher} {id : Int32}

@[simp] theorem setSlave_same (mixer : Dispatcher) (id : Int32) (slave : Slave) :
    (mixer.setSlave id slave).slaves id = some slave := Function.update_self ..

theorem setSlave_other (mixer : Dispatcher) {id other : Int32} (different : other ≠ id) (slave : Slave) :
    (mixer.setSlave id slave).slaves other = mixer.slaves other := Function.update_of_ne different ..

/-- A frame of another channel leaves a slave as it is. -/
theorem dispatch_other {frame : Decoded} (different : id ≠ frame.id) :
    (mixer.dispatch frame).slaves id = mixer.slaves id := by
  rw [dispatch, slaveWrite]
  split
  · split
    · rfl
    · split
      · rfl
      · exact setSlave_other mixer different _
  · split
    · rfl
    · split
      · rfl
      · exact setSlave_other mixer different _

/-- An unknown channel stays unknown. -/
theorem dispatch_unknown {frame : Decoded} (unknown : mixer.slaves frame.id = none) :
    (mixer.dispatch frame).slaves = mixer.slaves := by
  rw [dispatch, slaveWrite, getSlave, unknown]
  split
  · split
    · rfl
    · rfl
  · rfl

theorem dispatch_data {frame : Decoded} {slave : Slave} (data : ¬ frame.size ≤ 0)
    (registered : mixer.slaves frame.id = some slave) (listening : slave.eofSent = false) :
    (mixer.dispatch frame).slaves frame.id = some (slave.write (payload frame)) := by
  rw [dispatch, if_neg data, slaveWrite, getSlave, registered]
  simp [listening, payload]

theorem dispatch_eof {frame : Decoded} {slave : Slave} (eof : frame.size ≤ 0) (notMaster : frame.id ≠ 0)
    (registered : mixer.slaves frame.id = some slave) :
    (mixer.dispatch frame).slaves frame.id = some slave.receiveEof := by
  rw [dispatch, if_pos eof, if_neg notMaster, getSlave, registered]
  simp

theorem dispatch_masterEof {frame : Decoded} :
    (mixer.dispatch frame).masterEofReceived =
      (mixer.masterEofReceived || decide (frame.size ≤ 0 ∧ frame.id = 0)) := by
  rw [dispatch, slaveWrite]
  split
  · next eof =>
      split
      · next master => simp [eof, master]
      · next notMaster =>
          split
          · simp [notMaster]
          · simp [notMaster, setSlave]
  · next data =>
      split
      · simp [data]
      · split
        · simp [data]
        · simp [data, setSlave]

/-! ## Runs of the loop -/

theorem masterLoop_stopped (stopped : mixer.masterEofReceived) (frames : List Decoded) :
    (masterLoop mixer frames).slaves = mixer.slaves := by
  cases frames with
  | nil => rfl
  | cons frame frames => rw [masterLoop, if_pos stopped]

theorem masterLoop_unknown (unknown : mixer.slaves id = none) (frames : List Decoded) :
    (masterLoop mixer frames).slaves id = none := by
  induction frames generalizing mixer with
  | nil => exact unknown
  | cons frame frames ih =>
      rw [masterLoop]
      split
      · exact unknown
      · apply ih
        by_cases same : id = frame.id
        · subst same
          rw [dispatch_unknown unknown, unknown]
        · rw [dispatch_other same, unknown]

/-- Nothing is written to a slave after its EOF. -/
theorem masterLoop_closed {slave : Slave} (found : mixer.slaves id = some slave)
    (closed : slave.isOpen = false) (listening : slave.eofSent = false) (frames : List Decoded) :
    ((masterLoop mixer frames).slaves id).map Slave.fdout = some slave.fdout := by
  induction frames generalizing mixer slave with
  | nil => rw [masterLoop, found, Option.map_some]
  | cons frame frames ih =>
      rw [masterLoop]
      split
      · rw [found, Option.map_some]
      · by_cases same : id = frame.id
        · subst same
          by_cases eof : frame.size ≤ 0
          · by_cases master : frame.id = 0
            · have unchanged : (mixer.dispatch frame).slaves frame.id = some slave := by
                rw [dispatch, if_pos eof, if_pos master, found]
              exact ih unchanged closed listening
            · have later := ih (dispatch_eof eof master found) rfl listening
              exact later
          · have kept : slave.write (payload frame) = slave := by simp [Slave.write, closed]
            have step := dispatch_data eof found listening
            rw [kept] at step
            exact ih step closed listening
        · exact ih ((dispatch_other same).trans found) closed listening

/-- The bytes behind what was written before are those of the frames delivered. -/
theorem masterLoop_fdout {slave : Slave} (running : mixer.masterEofReceived = false)
    (found : mixer.slaves id = some slave) (opened : slave.isOpen)
    (listening : slave.eofSent = false) (frames : List Decoded) :
    ((masterLoop mixer frames).slaves id).map Slave.fdout =
      some (slave.fdout ++ (delivered id frames).flatMap payload) := by
  induction frames generalizing mixer slave with
  | nil => simp [masterLoop, found, delivered]
  | cons frame frames ih =>
      rw [masterLoop, running, if_neg Bool.false_ne_true]
      by_cases eof : frame.size ≤ 0
      · by_cases master : frame.id = 0
        · have stopped : (mixer.dispatch frame).masterEofReceived := by
            simp [dispatch_masterEof, eof, master]
          have unchanged : (mixer.dispatch frame).slaves = mixer.slaves := by
            rw [dispatch, if_pos eof, if_pos master]
          rw [masterLoop_stopped stopped, unchanged, found]
          simp [delivered, ends, eof, master]
        · by_cases same : id = frame.id
          · subst same
            rw [masterLoop_closed (dispatch_eof eof master found) rfl listening]
            simp [delivered, ends, eof, Slave.receiveEof]
          · have stillRunning : (mixer.dispatch frame).masterEofReceived = false := by
              simp [dispatch_masterEof, running, master]
            rw [ih stillRunning ((dispatch_other same).trans found) opened listening]
            simp [delivered, ends, carries, master, eof, Ne.symm same]
      · have stillRunning : (mixer.dispatch frame).masterEofReceived = false := by
          simp [dispatch_masterEof, running, eof]
        by_cases same : id = frame.id
        · subst same
          have written : slave.write (payload frame) =
              { slave with fdout := slave.fdout ++ payload frame } := if_pos opened
          have step := dispatch_data eof found listening
          rw [written] at step
          rw [ih stillRunning step opened listening]
          have positive : 0 < frame.size := Int.not_le.mp eof
          simp [delivered, ends, carries, positive, Int.not_le.mpr positive]
        · rw [ih stillRunning ((dispatch_other same).trans found) opened listening]
          simp [delivered, ends, carries, eof, Ne.symm same]

/-- Two mixers that agree on a channel agree on it after the frames that concern it. -/
theorem masterLoop_filter {other : Dispatcher} (sameSlave : mixer.slaves id = other.slaves id)
    (sameFlag : mixer.masterEofReceived = other.masterEofReceived) (frames : List Decoded) :
    (masterLoop mixer frames).slaves id =
      (masterLoop other (frames.filter (concerns id))).slaves id := by
  induction frames generalizing mixer other with
  | nil => exact sameSlave
  | cons frame frames ih =>
      by_cases concerned : concerns id frame
      · rw [List.filter_cons_of_pos concerned, masterLoop, masterLoop, sameFlag]
        split
        · exact sameSlave
        · apply ih
          · by_cases same : id = frame.id
            · subst same
              rw [dispatch, dispatch, slaveWrite, slaveWrite, getSlave, getSlave, sameSlave]
              split
              · split
                · exact sameSlave
                · split
                  · exact sameSlave
                  · rw [setSlave_same, setSlave_same]
              · split
                · exact sameSlave
                · split
                  · exact sameSlave
                  · rw [setSlave_same, setSlave_same]
            · rw [dispatch_other same, dispatch_other same, sameSlave]
          · rw [dispatch_masterEof, dispatch_masterEof, sameFlag]
      · rw [List.filter_cons_of_neg concerned, masterLoop]
        have notConcerned := concerned
        rw [concerns, decide_eq_true_iff, not_or] at notConcerned
        split
        · next stopped =>
            rw [sameFlag] at stopped
            rw [masterLoop_stopped stopped, sameSlave]
        · apply ih
          · rw [dispatch_other (Ne.symm notConcerned.1), sameSlave]
          · rw [dispatch_masterEof, sameFlag, decide_eq_false notConcerned.2, Bool.or_false]

/-- Frames behind the master EOF change nothing. -/
theorem masterLoop_masterEof {eof : Decoded} (size : eof.size ≤ 0) (master : eof.id = 0)
    (mixer : Dispatcher) (before after : List Decoded) :
    (masterLoop mixer (before ++ eof :: after)).slaves =
      (masterLoop mixer (before ++ [eof])).slaves := by
  induction before generalizing mixer with
  | nil =>
      rw [List.nil_append, List.nil_append, masterLoop, masterLoop]
      split
      · rfl
      · have stopped : (mixer.dispatch eof).masterEofReceived := by
          simp [dispatch_masterEof, size, master]
        rw [masterLoop_stopped stopped, masterLoop_stopped stopped]
  | cons frame before ih =>
      rw [List.cons_append, List.cons_append, masterLoop, masterLoop]
      split
      · rfl
      · exact ih _

/-- Every registered slave gets exactly the data of its channel up to the first EOF of
the channel or of the master, only the frames that concern a channel count for its
slave, and nothing counts after the master EOF. -/
theorem masterLoop_channels (registered : Int32 → Bool) (frames : List Decoded) :
    (∀ id, ((masterLoop (start registered) frames).slaves id).map Slave.fdout =
      if registered id then some ((delivered id frames).flatMap payload) else none) ∧
    (∀ id, (masterLoop (start registered) frames).slaves id =
      (masterLoop (start registered) (frames.filter (concerns id))).slaves id) ∧
    ∀ before eof after, frames = before ++ eof :: after → eof.size ≤ 0 → eof.id = 0 →
      (masterLoop (start registered) frames).slaves =
        (masterLoop (start registered) (before ++ [eof])).slaves := by
  refine ⟨?_, ?_, ?_⟩
  · intro id
    by_cases known : registered id
    · have found : (start registered).slaves id = some .new := if_pos known
      rw [masterLoop_fdout rfl found rfl rfl, if_pos known]
      rfl
    · have unknown : (start registered).slaves id = none := if_neg known
      rw [masterLoop_unknown unknown, if_neg known, Option.map_none]
  · intro id
    exact masterLoop_filter rfl rfl frames
  · rintro before eof after rfl size master
    exact masterLoop_masterEof size master _ before after

/-- Data for two channels around an EOF of the first one, and an end of all. -/
theorem twoChannels_delivered :
    (masterLoop (start fun id => id = 1 ∨ id = 2)
        [⟨1, 1, [7]⟩, ⟨2, 1, [8]⟩, ⟨1, 0, []⟩, ⟨1, 1, [9]⟩, ⟨0, 0, []⟩, ⟨2, 1, [9]⟩]).slaves =
      (masterLoop (start fun id => id = 1 ∨ id = 2)
        ([⟨1, 1, [7]⟩, ⟨2, 1, [8]⟩, ⟨1, 0, []⟩, ⟨1, 1, [9]⟩] ++ [⟨0, 0, []⟩])).slaves :=
  (masterLoop_channels (fun id => id = 1 ∨ id = 2)
    [⟨1, 1, [7]⟩, ⟨2, 1, [8]⟩, ⟨1, 0, []⟩, ⟨1, 1, [9]⟩, ⟨0, 0, []⟩, ⟨2, 1, [9]⟩]).2.2
      [⟨1, 1, [7]⟩, ⟨2, 1, [8]⟩, ⟨1, 0, []⟩, ⟨1, 1, [9]⟩] ⟨0, 0, []⟩ [⟨2, 1, [9]⟩] rfl
      (by decide) rfl

end Dispatcher

end Tegenaria.LibIO
