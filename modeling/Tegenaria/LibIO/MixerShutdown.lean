import Tegenaria.Foundation.Transition
import Tegenaria.LibIO.Mixer

/-!
# Outgoing frames and the end of the stream

Every slave has a thread that runs `slaveLoop`: it reads from the slave and passes
what it got to `masterEncode`.  `shutdown` raises `dead_`, sends an EOF for every
channel and one for the master, and then sets `masterEofSent_`.

The threads and the call of `shutdown` interleave.  A step of the model is one
access to the state that they share: `masterEncode` holds `masterMutex_` and is one
step, the flags are read and written outside the mutex and are steps of their own.
-/

namespace Tegenaria.LibIO

open Foundation
open IOMixer

/-- The keys of `slaves_` in the order of the map.  `addSlave` refuses the id of the
master and an id that is in use. -/
structure SlaveIds where
  ids : List Int32
  sorted : ids.Pairwise (· < ·)
  notMaster : 0 ∉ ids

theorem SlaveIds.nodup (slaves : SlaveIds) : slaves.ids.Nodup := by
  refine slaves.sorted.imp fun less same => ?_
  rw [same] at less
  exact Int32.lt_irrefl less

/-- The statement of `slaveLoop` that a thread executes next. -/
inductive LoopPoint where
  | check
  | read
  | encode
  | finished
  deriving DecidableEq

/-- A thread in `slaveLoop` with its local variables. -/
structure SlaveLoop where
  point : LoopPoint
  readed : Int
  buf : List UInt8
  ret : Int
  deriving DecidableEq

namespace SlaveLoop

def start : SlaveLoop := { point := .check, readed := 1, buf := [], ret := -1 }

/-- The thread is behind the test of `dead_` and has not sent what it reads. -/
def inBody (loop : SlaveLoop) : Bool := loop.point = .read ∨ loop.point = .encode

/-- The thread has left its loop because `masterEncode` took an EOF. -/
def endedByEof (loop : SlaveLoop) : Bool :=
  loop.point = .finished ∧ loop.readed ≤ 0 ∧ loop.ret = 0

end SlaveLoop

/-- The statement of `shutdown` that is executed next.  Once `masterEofSent_` is set
the rest of the function has no effect on the outgoing frames. -/
inductive ShutdownPoint where
  | enter
  | channels (rest : List Int32)
  | channelFlag (id : Int32) (rest : List Int32)
  | masterFlag
  | returned (exitCode : Int)
  deriving DecidableEq

namespace ShutdownPoint

/-- The channels that `shutdown` has still to send an EOF for. -/
def pending : ShutdownPoint → List Int32
  | .channels rest | .channelFlag _ rest => rest
  | .enter | .masterFlag | .returned _ => []

/-- `shutdown` is behind the EOF of a channel. -/
def passed (point : ShutdownPoint) (id : Int32) : Prop := point ≠ .enter ∧ id ∉ point.pending

/-- `shutdown` is behind the EOF of the master. -/
def passedMaster : ShutdownPoint → Prop
  | .masterFlag | .returned _ => True
  | .enter | .channels _ | .channelFlag _ _ => False

theorem passed_of_passedMaster {point : ShutdownPoint} (master : point.passedMaster)
    (id : Int32) : point.passed id := by
  cases point with
  | enter => exact master.elim
  | channels rest => exact master.elim
  | channelFlag current rest => exact master.elim
  | masterFlag => exact ⟨ShutdownPoint.noConfusion, List.not_mem_nil⟩
  | returned exitCode => exact ⟨ShutdownPoint.noConfusion, List.not_mem_nil⟩

end ShutdownPoint

/-- The outgoing side of a mixer.  A frame whose size is not positive is an EOF. -/
structure Outgoing where
  slaves : SlaveIds
  dead : Bool
  masterEofSent : Bool
  eofSent : Int32 → Bool
  loops : Int32 → Option SlaveLoop
  caller : ShutdownPoint
  frames : List Decoded

namespace Outgoing

/-- The slaves are added and their threads started; `shutdown` is not called yet. -/
def start (slaves : SlaveIds) : Outgoing where
  slaves
  dead := false
  masterEofSent := false
  eofSent _ := false
  loops id := if id ∈ slaves.ids then some .start else none
  caller := .enter
  frames := []

def setLoop (mixer : Outgoing) (id : Int32) (loop : SlaveLoop) : Outgoing :=
  { mixer with loops := Function.update mixer.loops id (some loop) }

/-- `IOMixer::masterEncode` with its exit code.  `accepted` says that neither the
compression nor the write to the master fails. -/
def masterEncode (mixer : Outgoing) (id : Int32) (buf : List UInt8) (size : Int) (accepted : Bool) :
    Outgoing × Int :=
  if accepted = false then (mixer, -1)
  else if mixer.masterEofSent then (mixer, 0)
  else ({ mixer with frames := mixer.frames ++ [⟨id, size, buf.take size.toNat⟩] }, 0)

/-- A step of the thread of a slave, or one of the thread in `shutdown`. -/
inductive Action where
  | check (id : Int32)
  | read (id : Int32) (readed : Int) (buf : List UInt8)
  | encode (id : Int32) (accepted : Bool)
  | shutdown (accepted : Bool)

/-- `while (readed > 0 && dead_ == 0)` -/
def checkStep (mixer : Outgoing) (id : Int32) (loop : SlaveLoop) : Option Outgoing :=
  if loop.point = .check then
    some (mixer.setLoop id
      { loop with point := if loop.readed > 0 ∧ mixer.dead = false then .read else .finished })
  else none

/-- The read returns a number of bytes, 0 at the end or after a cancel, or -1. -/
def readStep (mixer : Outgoing) (id : Int32) (loop : SlaveLoop) (readed : Int) (buf : List UInt8) :
    Option Outgoing :=
  if loop.point = .read ∧ -1 ≤ readed ∧ readed ≤ maxPacket then
    some (mixer.setLoop id { loop with point := .encode, readed, buf })
  else none

/-- The call of `masterEncode` in `slaveLoop` and the two tests behind it.  At the end
of the loop `eofSent_` is compared with 1 and not set. -/
def encodeStep (mixer : Outgoing) (id : Int32) (loop : SlaveLoop) (accepted : Bool) :
    Option Outgoing :=
  if loop.point = .encode then
    let encoded := mixer.masterEncode id loop.buf loop.readed accepted
    some (encoded.1.setLoop id
      { loop with
          ret := encoded.2
          point := if encoded.2 ≠ 0 ∨ loop.readed ≤ 0 then .finished else .check })
  else none

/-- `IOMixer::shutdown`, one statement after the other. -/
def shutdownStep (mixer : Outgoing) (accepted : Bool) : Option Outgoing :=
  match mixer.caller with
  | .enter =>
      if mixer.dead then some { mixer with caller := .returned (-1) }
      else some { mixer with dead := true, caller := .channels mixer.slaves.ids }
  | .channels (id :: rest) =>
      some { (mixer.masterEncode id [] 0 accepted).1 with caller := .channelFlag id rest }
  | .channelFlag id rest =>
      some { mixer with eofSent := Function.update mixer.eofSent id true, caller := .channels rest }
  | .channels [] => some { (mixer.masterEncode 0 [] 0 accepted).1 with caller := .masterFlag }
  | .masterFlag => some { mixer with masterEofSent := true, caller := .returned 0 }
  | .returned _ => none

def step (mixer : Outgoing) : Action → Option Outgoing
  | .check id => (mixer.loops id).bind (mixer.checkStep id)
  | .read id readed buf => (mixer.loops id).bind (mixer.readStep id · readed buf)
  | .encode id accepted => (mixer.loops id).bind (mixer.encodeStep id · accepted)
  | .shutdown accepted => mixer.shutdownStep accepted

/-- The threads of the slaves and one call of `shutdown`. -/
def machine : Machine Outgoing Action := ⟨step⟩

/-! ## What the remote side may expect -/

/-- The rules for a sequence of frames. -/
structure RespectsEof (frames : List Decoded) : Prop where
  noDataAfterEof : frames.Pairwise fun earlier later =>
    ¬ (earlier.size ≤ 0 ∧ later.id = earlier.id ∧ 0 < later.size)
  oneEof : frames.Pairwise fun earlier later =>
    ¬ (earlier.size ≤ 0 ∧ later.id = earlier.id ∧ later.size ≤ 0)
  nothingAfterMasterEof : frames.Pairwise fun earlier _ => ¬ (earlier.id = 0 ∧ earlier.size = 0)

/-- When `shutdown` sends the EOF of a channel, the thread of the channel is not between
its test of `dead_` and its call of `masterEncode`, and has not sent an EOF itself. -/
def threadIsOut (mixer : Outgoing) : Action → Bool
  | .shutdown _ =>
      match mixer.caller with
      | .channels (id :: _) =>
          (mixer.loops id).all fun loop => !loop.inBody && !loop.endedByEof
      | _ => true
  | _ => true

/-- The frame may stand before another one. -/
def allows (earlier later : Decoded) : Prop :=
  ¬ (earlier.size ≤ 0 ∧ (later.id = earlier.id ∨ earlier.id = 0))

theorem respectsEof_of_allows {frames : List Decoded} (allowed : frames.Pairwise allows) :
    RespectsEof frames where
  noDataAfterEof := allowed.imp fun holds broken => holds ⟨broken.1, .inl broken.2.1⟩
  oneEof := allowed.imp fun holds broken => holds ⟨broken.1, .inl broken.2.1⟩
  nothingAfterMasterEof := allowed.imp fun holds broken => holds ⟨Int.le_of_eq broken.2, .inr broken.1⟩

/-! ## The invariant -/

/-- What holds in every state of a run in which the threads are out in time. -/
structure Ordered (mixer : Outgoing) : Prop where
  deadIff : mixer.dead = true ↔ mixer.caller ≠ .enter
  registered : ∀ id loop, mixer.loops id = some loop → id ∈ mixer.slaves.ids
  pendingNodup : mixer.caller.pending.Nodup
  pendingChannels : 0 ∉ mixer.caller.pending
  out : ∀ id loop, mixer.loops id = some loop → mixer.caller.passed id → loop.inBody = false
  eofs : ∀ frame ∈ mixer.frames, frame.size ≤ 0 →
    mixer.caller.passed frame.id ∨
      ∃ loop, mixer.loops frame.id = some loop ∧ loop.endedByEof = true
  masterEof : ∀ frame ∈ mixer.frames, frame.id = 0 → mixer.caller.passedMaster
  allowed : mixer.frames.Pairwise allows

variable {mixer next : Outgoing} {id : Int32} {loop : SlaveLoop}

theorem setLoop_same (mixer : Outgoing) (id : Int32) (loop : SlaveLoop) :
    (mixer.setLoop id loop).loops id = some loop := Function.update_self ..

theorem setLoop_other (mixer : Outgoing) {id other : Int32} (different : other ≠ id) (loop : SlaveLoop) :
    (mixer.setLoop id loop).loops other = mixer.loops other := Function.update_of_ne different ..

/-- A channel whose thread is in the body of its loop is still to come in `shutdown`,
and so is the master. -/
theorem Ordered.notPassed (ordered : Ordered mixer) (found : mixer.loops id = some loop)
    (inside : loop.inBody = true) : ¬ mixer.caller.passed id := by
  intro passed
  have outside := ordered.out id loop found passed
  rw [inside] at outside
  exact Bool.noConfusion outside

/-- A thread that moves on without a frame keeps the invariant, if it does not enter the
body of the loop behind its EOF. -/
theorem Ordered.setLoop (ordered : Ordered mixer) {old : SlaveLoop}
    (found : mixer.loops id = some old) (silent : old.endedByEof = false)
    (outside : mixer.caller.passed id → loop.inBody = false) :
    Ordered (mixer.setLoop id loop) where
  deadIff := ordered.deadIff
  registered := by
    intro other otherLoop otherFound
    by_cases same : other = id
    · subst same
      exact ordered.registered other old found
    · rw [setLoop_other mixer same] at otherFound
      exact ordered.registered other otherLoop otherFound
  pendingNodup := ordered.pendingNodup
  pendingChannels := ordered.pendingChannels
  out := by
    intro other otherLoop otherFound passed
    by_cases same : other = id
    · subst same
      rw [setLoop_same, Option.some.injEq] at otherFound
      exact otherFound ▸ outside passed
    · rw [setLoop_other mixer same] at otherFound
      exact ordered.out other otherLoop otherFound passed
  eofs := by
    intro frame member eof
    cases ordered.eofs frame member eof with
    | inl passed => exact .inl passed
    | inr ended =>
        obtain ⟨ender, enderFound, ended⟩ := ended
        by_cases same : frame.id = id
        · rw [same, found, Option.some.injEq] at enderFound
          rw [← enderFound, silent] at ended
          exact Bool.noConfusion ended
        · exact .inr ⟨ender, (setLoop_other mixer same loop).trans enderFound, ended⟩
  masterEof := ordered.masterEof
  allowed := ordered.allowed

/-! ## The steps -/

theorem checkStep_ordered (ordered : Ordered mixer) (found : mixer.loops id = some loop)
    (stepped : mixer.checkStep id loop = some next) : Ordered next := by
  rw [checkStep] at stepped
  split at stepped
  · next atCheck =>
      rw [← Option.some.inj stepped]
      apply ordered.setLoop found
      · simp [SlaveLoop.endedByEof, atCheck]
      · intro passed
        have dead : mixer.dead = true := ordered.deadIff.mpr passed.1
        simp [SlaveLoop.inBody, dead]
  · cases stepped

theorem readStep_ordered {readed : Int} {buf : List UInt8} (ordered : Ordered mixer)
    (found : mixer.loops id = some loop)
    (stepped : mixer.readStep id loop readed buf = some next) : Ordered next := by
  rw [readStep] at stepped
  split at stepped
  · next enabled =>
      rw [← Option.some.inj stepped]
      apply ordered.setLoop found
      · simp [SlaveLoop.endedByEof, enabled.1]
      · intro passed
        have inside : loop.inBody = true := by simp [SlaveLoop.inBody, enabled.1]
        exact (ordered.notPassed found inside passed).elim
  · cases stepped

/-- What `masterEncode` can do: nothing, or add one frame. -/
theorem masterEncode_cases (mixer : Outgoing) (id : Int32) (buf : List UInt8) (size : Int)
    (accepted : Bool) :
    (∃ ret, mixer.masterEncode id buf size accepted = (mixer, ret)) ∨
      mixer.masterEncode id buf size accepted =
        ({ mixer with frames := mixer.frames ++ [⟨id, size, buf.take size.toNat⟩] }, 0) := by
  rw [masterEncode]
  split
  · exact .inl ⟨_, rfl⟩
  · split
    · exact .inl ⟨_, rfl⟩
    · exact .inr rfl

/-- A frame of a channel that is still to come in `shutdown` may be added, if the thread
of the channel has not ended. -/
theorem Ordered.allows_frame (ordered : Ordered mixer) {frame : Decoded}
    (ahead : ¬ mixer.caller.passed frame.id)
    (running : ∀ loop, mixer.loops frame.id = some loop → loop.endedByEof = false) :
    ∀ earlier ∈ mixer.frames, allows earlier frame := by
  intro earlier member broken
  obtain ⟨eof, sameChannel | master⟩ := broken
  · cases ordered.eofs earlier member eof with
    | inl passed => exact ahead (sameChannel ▸ passed)
    | inr ended =>
        obtain ⟨loop, found, ended⟩ := ended
        rw [running loop (sameChannel ▸ found)] at ended
        exact Bool.noConfusion ended
  · exact ahead (ShutdownPoint.passed_of_passedMaster (ordered.masterEof earlier member master) _)

theorem Ordered.addFrame (ordered : Ordered mixer) {frame : Decoded}
    (allowed : ∀ earlier ∈ mixer.frames, allows earlier frame)
    (eof : frame.size ≤ 0 → mixer.caller.passed frame.id ∨
      ∃ loop, mixer.loops frame.id = some loop ∧ loop.endedByEof = true)
    (master : frame.id = 0 → mixer.caller.passedMaster) :
    Ordered { mixer with frames := mixer.frames ++ [frame] } where
  deadIff := ordered.deadIff
  registered := ordered.registered
  pendingNodup := ordered.pendingNodup
  pendingChannels := ordered.pendingChannels
  out := ordered.out
  eofs := by
    intro other member
    cases List.mem_append.mp member with
    | inl before => exact ordered.eofs other before
    | inr isFrame =>
        rw [List.mem_singleton.mp isFrame]
        exact eof
  masterEof := by
    intro other member
    cases List.mem_append.mp member with
    | inl before => exact ordered.masterEof other before
    | inr isFrame =>
        rw [List.mem_singleton.mp isFrame]
        exact master
  allowed := by
    rw [List.pairwise_append]
    refine ⟨ordered.allowed, List.pairwise_singleton .., ?_⟩
    intro earlier member later isFrame
    rw [List.mem_singleton.mp isFrame]
    exact allowed earlier member

theorem encodeStep_ordered {accepted : Bool} (ordered : Ordered mixer)
    (found : mixer.loops id = some loop)
    (stepped : mixer.encodeStep id loop accepted = some next) : Ordered next := by
  rw [encodeStep] at stepped
  split at stepped
  · next atEncode =>
      have inside : loop.inBody = true := by simp [SlaveLoop.inBody, atEncode]
      have silent : loop.endedByEof = false := by simp [SlaveLoop.endedByEof, atEncode]
      have ahead := ordered.notPassed found inside
      rw [← Option.some.inj stepped]
      cases masterEncode_cases mixer id loop.buf loop.readed accepted with
      | inl unchanged =>
          obtain ⟨ret, unchanged⟩ := unchanged
          rw [unchanged]
          exact ordered.setLoop found silent fun passed => (ahead passed).elim
      | inr written =>
          rw [written]
          have moved : Ordered (mixer.setLoop id
              { loop with
                  ret := 0
                  point := if (0 : Int) ≠ 0 ∨ loop.readed ≤ 0 then .finished else .check }) :=
            ordered.setLoop found silent fun passed => (ahead passed).elim
          have running : ∀ other, mixer.loops id = some other → other.endedByEof = false := by
            intro other otherFound
            rw [found, Option.some.injEq] at otherFound
            exact otherFound ▸ silent
          have allowed : ∀ earlier ∈ mixer.frames,
              allows earlier ⟨id, loop.readed, loop.buf.take loop.readed.toNat⟩ :=
            ordered.allows_frame ahead running
          refine moved.addFrame allowed ?_ ?_
          · intro eof
            refine .inr ⟨_, setLoop_same .., ?_⟩
            have ended : loop.readed ≤ 0 := eof
            simp [SlaveLoop.endedByEof, ended]
          · intro master
            have isMaster : id = 0 := master
            exact (mixer.slaves.notMaster (isMaster ▸ ordered.registered id loop found)).elim
  · cases stepped

/-- `shutdown` may go on, if every thread that it passes is out of the body of its loop. -/
theorem Ordered.advance (ordered : Ordered mixer) (slaves : next.slaves = mixer.slaves)
    (loops : next.loops = mixer.loops) (frames : next.frames = mixer.frames)
    (dead : next.dead = true) (entered : next.caller ≠ .enter)
    (nodup : next.caller.pending.Nodup) (channels : 0 ∉ next.caller.pending)
    (further : ∀ id, mixer.caller.passed id → next.caller.passed id)
    (master : mixer.caller.passedMaster → next.caller.passedMaster)
    (out : ∀ id loop, mixer.loops id = some loop → next.caller.passed id → loop.inBody = false) :
    Ordered next where
  deadIff := iff_of_true dead entered
  registered := by
    rw [slaves, loops]
    exact ordered.registered
  pendingNodup := nodup
  pendingChannels := channels
  out := by
    rw [loops]
    exact out
  eofs := by
    rw [loops, frames]
    intro frame member eof
    cases ordered.eofs frame member eof with
    | inl passed => exact .inl (further frame.id passed)
    | inr ended => exact .inr ended
  masterEof := by
    rw [frames]
    exact fun frame member isMaster => master (ordered.masterEof frame member isMaster)
  allowed := by
    rw [frames]
    exact ordered.allowed

/-- The EOF of the next channel. -/
theorem channelEof_ordered {rest : List Int32} {accepted : Bool} (ordered : Ordered mixer)
    (point : mixer.caller = .channels (id :: rest))
    (out : ∀ loop, mixer.loops id = some loop → loop.inBody = false ∧ loop.endedByEof = false) :
    Ordered { (mixer.masterEncode id [] 0 accepted).1 with caller := .channelFlag id rest } := by
  have nodup := ordered.pendingNodup
  have channels := ordered.pendingChannels
  have dead : mixer.dead = true := ordered.deadIff.mpr (by rw [point]; exact ShutdownPoint.noConfusion)
  rw [point] at nodup channels
  obtain ⟨notAgain, restNodup⟩ := List.nodup_cons.mp nodup
  have advanced : Ordered { mixer with caller := .channelFlag id rest } := by
    refine ordered.advance rfl rfl rfl dead ShutdownPoint.noConfusion restNodup
      (fun member => channels (List.mem_cons_of_mem _ member)) ?_ ?_ ?_
    · intro other passed
      rw [point] at passed
      exact ⟨ShutdownPoint.noConfusion, fun member => passed.2 (List.mem_cons_of_mem _ member)⟩
    · intro master
      rw [point] at master
      exact master.elim
    · intro other loop found passed
      by_cases same : other = id
      · exact (out loop (same ▸ found)).1
      · refine ordered.out other loop found ?_
        rw [point]
        refine ⟨ShutdownPoint.noConfusion, fun member => ?_⟩
        cases List.mem_cons.mp member with
        | inl isId => exact same isId
        | inr later => exact passed.2 later
  cases masterEncode_cases mixer id [] 0 accepted with
  | inl unchanged =>
      obtain ⟨ret, unchanged⟩ := unchanged
      rw [unchanged]
      exact advanced
  | inr written =>
      rw [written]
      have ahead : ¬ mixer.caller.passed id := by
        rw [point]
        exact fun passed => passed.2 List.mem_cons_self
      have allowed : ∀ earlier ∈ mixer.frames, allows earlier ⟨id, 0, [].take (0 : Int).toNat⟩ :=
        ordered.allows_frame ahead fun loop found => (out loop found).2
      refine advanced.addFrame allowed ?_ ?_
      · intro eof
        exact .inl ⟨ShutdownPoint.noConfusion, notAgain⟩
      · intro master
        have isMaster : id = 0 := master
        exact (channels (isMaster ▸ List.mem_cons_self)).elim

/-- The EOF of the master. -/
theorem masterEof_ordered {accepted : Bool} (ordered : Ordered mixer)
    (point : mixer.caller = .channels []) :
    Ordered { (mixer.masterEncode 0 [] 0 accepted).1 with caller := .masterFlag } := by
  have allPassed : ∀ id, mixer.caller.passed id := by
    intro id
    rw [point]
    exact ⟨ShutdownPoint.noConfusion, List.not_mem_nil⟩
  have dead : mixer.dead = true := ordered.deadIff.mpr (allPassed 0).1
  have advanced : Ordered { mixer with caller := .masterFlag } :=
    ordered.advance rfl rfl rfl dead ShutdownPoint.noConfusion List.nodup_nil List.not_mem_nil
      (fun id _ => ⟨ShutdownPoint.noConfusion, List.not_mem_nil⟩) (fun _ => trivial)
      (fun id loop found _ => ordered.out id loop found (allPassed id))
  cases masterEncode_cases mixer 0 [] 0 accepted with
  | inl unchanged =>
      obtain ⟨ret, unchanged⟩ := unchanged
      rw [unchanged]
      exact advanced
  | inr written =>
      rw [written]
      have noMaster : ∀ earlier ∈ mixer.frames, earlier.id ≠ 0 := by
        intro earlier member isMaster
        have passed := ordered.masterEof earlier member isMaster
        rw [point] at passed
        exact passed
      have allowed : ∀ earlier ∈ mixer.frames, allows earlier ⟨0, 0, [].take (0 : Int).toNat⟩ := by
        intro earlier member broken
        cases broken.2 with
        | inl sameChannel => exact noMaster earlier member sameChannel.symm
        | inr isMaster => exact noMaster earlier member isMaster
      refine advanced.addFrame allowed ?_ ?_
      · intro eof
        exact .inl ⟨ShutdownPoint.noConfusion, List.not_mem_nil⟩
      · intro master
        exact trivial

theorem shutdownStep_ordered {accepted : Bool} (ordered : Ordered mixer)
    (out : mixer.threadIsOut (.shutdown accepted) = true)
    (stepped : mixer.shutdownStep accepted = some next) : Ordered next := by
  rw [shutdownStep] at stepped
  split at stepped
  · next point =>
      have alive : ¬ mixer.dead = true := fun dead => ordered.deadIff.mp dead point
      rw [if_neg alive] at stepped
      rw [← Option.some.inj stepped]
      refine ordered.advance rfl rfl rfl rfl ShutdownPoint.noConfusion mixer.slaves.nodup
        mixer.slaves.notMaster ?_ ?_ ?_
      · exact fun id passed => (passed.1 point).elim
      · intro master
        rw [point] at master
        exact master.elim
      · exact fun id loop found passed => (passed.2 (ordered.registered id loop found)).elim
  · next id rest point =>
      rw [← Option.some.inj stepped]
      refine channelEof_ordered ordered point fun loop found => ?_
      rw [threadIsOut, point] at out
      simp only [found, Option.all_some, Bool.and_eq_true, Bool.not_eq_true'] at out
      exact out
  · next id rest point =>
      rw [← Option.some.inj stepped]
      have entered : mixer.caller ≠ .enter := by
        rw [point]
        exact ShutdownPoint.noConfusion
      have nodup := ordered.pendingNodup
      have channels := ordered.pendingChannels
      have threads := ordered.out
      rw [point] at nodup channels threads
      refine ordered.advance rfl rfl rfl (ordered.deadIff.mpr entered) ShutdownPoint.noConfusion
        nodup channels ?_ ?_ ?_
      · intro other passed
        rw [point] at passed
        exact ⟨ShutdownPoint.noConfusion, passed.2⟩
      · intro master
        rw [point] at master
        exact master.elim
      · exact fun other loop found passed =>
          threads other loop found ⟨ShutdownPoint.noConfusion, passed.2⟩
  · next point =>
      rw [← Option.some.inj stepped]
      exact masterEof_ordered ordered point
  · next point =>
      rw [← Option.some.inj stepped]
      have entered : mixer.caller ≠ .enter := by
        rw [point]
        exact ShutdownPoint.noConfusion
      have threads := ordered.out
      rw [point] at threads
      exact ordered.advance rfl rfl rfl (ordered.deadIff.mpr entered) ShutdownPoint.noConfusion
        List.nodup_nil List.not_mem_nil
        (fun id _ => ⟨ShutdownPoint.noConfusion, List.not_mem_nil⟩) (fun _ => trivial)
        (fun id loop found _ =>
          threads id loop found ⟨ShutdownPoint.noConfusion, List.not_mem_nil⟩)
  · cases stepped

theorem step_ordered {action : Action} (ordered : Ordered mixer)
    (out : mixer.threadIsOut action = true) (stepped : mixer.step action = some next) :
    Ordered next := by
  cases action with
  | check id =>
      obtain ⟨loop, found, stepped⟩ := Option.bind_eq_some_iff.mp stepped
      exact checkStep_ordered ordered found stepped
  | read id readed buf =>
      obtain ⟨loop, found, stepped⟩ := Option.bind_eq_some_iff.mp stepped
      exact readStep_ordered ordered found stepped
  | encode id accepted =>
      obtain ⟨loop, found, stepped⟩ := Option.bind_eq_some_iff.mp stepped
      exact encodeStep_ordered ordered found stepped
  | shutdown accepted => exact shutdownStep_ordered ordered out stepped

theorem start_ordered (slaves : SlaveIds) : Ordered (start slaves) where
  deadIff := iff_of_false Bool.false_ne_true fun entered => entered rfl
  registered := by
    intro id loop found
    by_contra unknown
    have missing : (start slaves).loops id = none := if_neg unknown
    rw [missing] at found
    cases found
  pendingNodup := List.nodup_nil
  pendingChannels := List.not_mem_nil
  out := fun id loop found passed => (passed.1 rfl).elim
  eofs := fun frame member => (List.not_mem_nil member).elim
  masterEof := fun frame member => (List.not_mem_nil member).elim
  allowed := List.Pairwise.nil

/-! ## Runs -/

/-- The frames keep to the rules in every run in which `shutdown` sends the EOF of a
channel only while the thread of the channel is out of its loop and has not sent one. -/
theorem run_respectsEof (slaves : SlaveIds) (actions : List Action) (final : Outgoing)
    (out : machine.AllSteps (fun mixer action => mixer.threadIsOut action = true) (start slaves) actions)
    (reached : machine.run (start slaves) actions = some final) : RespectsEof final.frames := by
  have preserved : ∀ (mixer : Outgoing) (action : Action) (next : Outgoing), Ordered mixer →
      mixer.threadIsOut action = true → machine.step mixer action = some next → Ordered next :=
    fun _ _ _ ordered holds stepped => step_ordered ordered holds stepped
  have ordered : Ordered final := Machine.run_invariant preserved (start_ordered slaves) out reached
  exact respectsEof_of_allows ordered.allowed

/-- One slave with the id 1. -/
def oneSlave : SlaveIds where
  ids := [1]
  sorted := List.pairwise_singleton ..
  notMaster := by decide

/-- The slave writes a byte, `shutdown` is called while its thread is at the test of
`dead_`, and the thread leaves the loop. -/
def orderlyEnd : List Action :=
  [.check 1, .read 1 1 [7], .encode 1 true, .shutdown true, .shutdown true, .check 1,
    .shutdown true, .shutdown true, .shutdown true]

theorem orderlyEnd_respectsEof :
    machine.AllSteps (fun mixer action => mixer.threadIsOut action = true) (start oneSlave) orderlyEnd ∧
      ((machine.run (start oneSlave) orderlyEnd).map frames = some [⟨1, 1, [7]⟩, ⟨1, 0, []⟩, ⟨0, 0, []⟩]) ∧
      ∀ final, machine.run (start oneSlave) orderlyEnd = some final → RespectsEof final.frames := by
  have out : machine.AllSteps (fun mixer action => mixer.threadIsOut action = true)
      (start oneSlave) orderlyEnd := by decide
  exact ⟨out, by decide, fun final => run_respectsEof oneSlave orderlyEnd final out⟩

/-- The slave closes its channel, so that its thread sends an EOF; `shutdown` sends
another one.  A second slave writes a byte behind its own EOF and the one of the master. -/
def lateThreads : List Action :=
  [.check 1, .read 1 0 [], .encode 1 true, .check 2, .shutdown true, .shutdown true, .shutdown true,
    .shutdown true, .shutdown true, .shutdown true, .read 2 1 [7], .encode 2 true]

/-- Two slaves with the ids 1 and 2. -/
def twoSlaves : SlaveIds where
  ids := [1, 2]
  sorted := by decide
  notMaster := by decide

/-- Not every run keeps to the rules. -/
theorem lateThreads_breakEof :
    ¬ ∀ (slaves : SlaveIds) (actions : List Action) (final : Outgoing),
      machine.run (start slaves) actions = some final → RespectsEof final.frames := by
  intro respects
  have frames : (machine.run (start twoSlaves) lateThreads).map frames =
      some [⟨1, 0, []⟩, ⟨1, 0, []⟩, ⟨2, 0, []⟩, ⟨0, 0, []⟩, ⟨2, 1, [7]⟩] := by decide
  obtain ⟨final, reached, frames⟩ := Option.map_eq_some_iff.mp frames
  have oneEof := (respects twoSlaves lateThreads final reached).oneEof
  rw [frames] at oneEof
  revert oneEof
  decide

end Outgoing

end Tegenaria.LibIO
