import Tegenaria.Foundation.Transition
import Tegenaria.LibLock.RequestPool
import Tegenaria.LibSftp.Packet

/-!
# The thread that reads incoming packets

`SftpClient::readLoop` fills a buffer of 64 KiB from the socket, and whenever
the buffer starts with a complete packet it looks the packet's id up in the
request pool, copies the packet into the answer string of that request, signals
the request and moves the remaining bytes to the front of the buffer.

The pool and the answer strings are shared with the threads that wait for
answers.  Each of the four accesses of the loop is a step of its own, and
between two steps the other threads may change the shared data in any way.

Above the byte-level loop stands `Dispatcher`, which handles a queue of packets
and knows nothing about buffers and pieces.
-/

namespace Tegenaria.LibSftp

open Foundation
open Foundation.Word
open LibLock

/-- Data that the reading thread shares with the callers. -/
structure Shared where
  pool : RequestPool
  strings : Nat → List UInt8

namespace Shared

/-- Copy a packet to the answer string of a request, if it has one. -/
def answer (shared : Shared) (slot : Nat) (packet : List UInt8) : Shared :=
  match (shared.pool.table slot).outputData with
  | none => shared
  | some address =>
      { shared with strings := Function.update shared.strings address packet }

/-- Only the answer string of the request changes. -/
@[simp, grind =] theorem answer_strings (shared : Shared) (slot address : Nat)
    (packet : List UInt8) :
    (shared.answer slot packet).strings address =
      if (shared.pool.table slot).outputData = some address then packet
      else shared.strings address := by
  unfold answer
  cases output : (shared.pool.table slot).outputData with
  | none => simp
  | some target => simp [Function.update_apply, eq_comm]

/-- Signal the semaphore of a request. -/
def serve (shared : Shared) (slot : Nat) : Shared :=
  { shared with pool := shared.pool.modify slot Request.serve }

/-- Look up the id of a packet; it is passed as an `int`. -/
def find (shared : Shared) (id : Nat) : Option Nat :=
  shared.pool.find (Int32.ofNat id)

end Shared

/-- How far the packet at the front has been handled. -/
inductive Dispatch where
  | idle
  | found (slot : Option Nat)
  | answered (slot : Nat)
  | handled
  deriving DecidableEq

/-- A scheduling decision: one step of the reading thread, or anything that the
other threads do to the shared data meanwhile. -/
inductive ReadLabel where
  | turn
  | others (shared : Shared)

/-! ## The loop of the source -/

/-- `stopped` is the error handler at the end of the function; `undefined`
covers the negative packet sizes, for which `resize` throws and the final copy
reads in front of the buffer. -/
inductive ReadPhase where
  | running (dispatch : Dispatch)
  | stopped
  | undefined
  deriving DecidableEq

/-- Local variables of `readLoop`, the pieces that are still to be received, and
the shared data. -/
structure ReadLoop where
  buffer : Memory UInt8
  totalReaded : Int
  head : Head
  packetSize : Int
  phase : ReadPhase
  incoming : List (List UInt8)
  shared : Shared

namespace ReadLoop

/-- `buffer.resize(1024 * 64)` -/
def bufferSize : Nat := 1024 * 64

/-- The state at the entry of the outer loop.  The buffer and the head fields
hold arbitrary values. -/
def start (buffer : Memory UInt8) (head : Head) (incoming : List (List UInt8))
    (shared : Shared) : ReadLoop where
  buffer
  totalReaded := 0
  head
  packetSize := 0
  phase := .running .idle
  incoming
  shared

/-- One `recv` call and the code around it.  A piece that does not fit the free
space is received in parts.  An empty piece is the end of the connection. -/
def receive (state : ReadLoop) : Option ReadLoop :=
  let freeSpace : Int := bufferSize - state.totalReaded
  if freeSpace ≤ 0 then
    some { state with phase := .stopped }
  else
    match state.incoming with
    | [] => none
    | piece :: pieces =>
        let readed := piece.take freeSpace.toNat
        let left := piece.drop freeSpace.toNat
        let incoming := if left = [] then pieces else left :: pieces
        if readed = [] then
          some { state with incoming, phase := .stopped }
        else
          some { state with
            incoming
            buffer := state.buffer.copy state.totalReaded.toNat
              (Memory.ofList 0 readed) 0 readed.length
            totalReaded := state.totalReaded + readed.length }

/-- The code between the receiving loop and the access to the request. -/
def lookUp (state : ReadLoop) : ReadLoop :=
  let head := (decodePacketHead state.buffer state.totalReaded).getD state.head
  { state with
    head
    packetSize := min (toI32 (head.size + 4)) state.totalReaded
    phase := .running (.found (state.shared.find head.id)) }

/-- Fill the answer string of the request that was found. -/
def copyAnswer (state : ReadLoop) (slot : Nat) : ReadLoop :=
  if state.packetSize < 0 ∧
      (state.shared.pool.table slot).outputData.isSome then
    { state with phase := .undefined }
  else
    { state with
      shared := state.shared.answer slot
        (state.buffer.slice 0 state.packetSize.toNat)
      phase := .running (.answered slot) }

/-- Signal the request. -/
def signal (state : ReadLoop) (slot : Nat) : ReadLoop :=
  { state with
    shared := state.shared.serve slot
    phase := .running .handled }

/-- Pop the packet from the read buffer. -/
def popPacket (state : ReadLoop) : ReadLoop :=
  if state.packetSize < 0 then
    { state with phase := .undefined }
  else
    let buffer :=
      if state.totalReaded > state.packetSize then
        state.buffer.copy 0 state.buffer state.packetSize.toNat
          (state.totalReaded - state.packetSize).toNat
      else
        state.buffer
    { state with
      buffer
      totalReaded := state.totalReaded - state.packetSize
      phase := .running .idle }

/-- One step of the reading thread. -/
def turn (state : ReadLoop) : Option ReadLoop :=
  match state.phase with
  | .stopped | .undefined => none
  | .running .idle =>
      if packetComplete state.buffer bufferSize state.totalReaded then
        some state.lookUp
      else
        state.receive
  | .running (.found none) => some { state with phase := .running .handled }
  | .running (.found (some slot)) => some (state.copyAnswer slot)
  | .running (.answered slot) => some (state.signal slot)
  | .running .handled => some state.popPacket

/-- `SftpClient::readLoop` among the other threads. -/
def machine : Machine ReadLoop ReadLabel where
  step state label :=
    match label with
    | .turn => state.turn
    | .others shared => some { state with shared }

end ReadLoop

/-! ## Handling packets -/

/-- Packets in the order in which they were sent: those handed over already and
those still to come. -/
structure Dispatcher where
  handed : List Packet
  queue : List Packet
  dispatch : Dispatch
  shared : Shared

namespace Dispatcher

/-- Nothing has been handed over yet. -/
def start (queue : List Packet) (shared : Shared) : Dispatcher where
  handed := []
  queue
  dispatch := .idle
  shared

/-- Handle the first packet of the queue: find the request with its id, copy the
packet into the answer of that request, signal it, and go on. -/
def turn (state : Dispatcher) : Option Dispatcher :=
  match state.queue with
  | [] => none
  | packet :: queue =>
      match state.dispatch with
      | .idle =>
          some { state with dispatch := .found (state.shared.find packet.idField) }
      | .found none => some { state with dispatch := .handled }
      | .found (some slot) =>
          some { state with
            shared := state.shared.answer slot packet.bytes
            dispatch := .answered slot }
      | .answered slot =>
          some { state with
            shared := state.shared.serve slot
            dispatch := .handled }
      | .handled =>
          some { state with
            handed := state.handed ++ [packet]
            queue
            dispatch := .idle }

/-- The dispatcher among the other threads. -/
def machine : Machine Dispatcher ReadLabel where
  step state label :=
    match label with
    | .turn => state.turn
    | .others shared => some { state with shared }

end Dispatcher

/-! ## The loop against the dispatcher -/

/-- Bytes that are a packet only up to some point before its end. -/
def IncompleteTail (tail : List UInt8) : Prop :=
  ∃ packet : Packet, tail <+: packet.bytes ∧ tail.length < packet.bytes.length

/-- The loop and the dispatcher at corresponding points.  The bytes in the buffer
and those still to be received are the packets of the queue and the tail. -/
structure Refines (packets : List Packet) (tail : List UInt8) (loop : ReadLoop)
    (dispatcher : Dispatcher) : Prop where
  phase : loop.phase = .running dispatcher.dispatch
  shared : loop.shared = dispatcher.shared
  order : dispatcher.handed ++ dispatcher.queue = packets
  received_nonneg : 0 ≤ loop.totalReaded
  received_le : loop.totalReaded ≤ ReadLoop.bufferSize
  pieces : ∀ piece ∈ loop.incoming, piece ≠ []
  bytes : loop.buffer.slice 0 loop.totalReaded.toNat ++ loop.incoming.flatten =
    dispatcher.queue.flatMap Packet.bytes ++ tail
  current : dispatcher.dispatch ≠ .idle →
    ∃ packet queue, dispatcher.queue = packet :: queue ∧
      loop.packetSize = packet.bytes.length ∧ loop.packetSize ≤ loop.totalReaded

/-- What is left to do: bytes to receive, bytes to hand over, and the steps until
the packet at the front is popped. -/
def ReadLoop.remaining (loop : ReadLoop) : Nat :=
  2 * loop.incoming.flatten.length + loop.totalReaded.toNat +
    match loop.phase with
    | .running .idle => 3
    | .running (.found _) => 2
    | .running (.answered _) => 1
    | _ => 0

/-- The number of steps of the reading thread that a label stands for. -/
def ReadLabel.turns : ReadLabel → Nat
  | .turn => 1
  | .others _ => 0

theorem start_refines {packets : List Packet} {tail : List UInt8}
    {incoming : List (List UInt8)} (pieces : ∀ piece ∈ incoming, piece ≠ [])
    (stream : incoming.flatten = packets.flatMap Packet.bytes ++ tail)
    (buffer : Memory UInt8) (head : Head) (shared : Shared) :
    Refines packets tail (.start buffer head incoming shared)
      (.start packets shared) where
  phase := rfl
  shared := rfl
  order := rfl
  received_nonneg := Int.le_refl 0
  received_le := by simp [ReadLoop.start]
  pieces
  bytes := stream
  current busy := absurd rfl busy

section Steps

variable {packets : List Packet} {tail : List UInt8} {loop next : ReadLoop}
variable {dispatcher : Dispatcher}

/-- There is always a packet with which the buffer agrees as far as it is filled:
the first of the queue or, when the queue is empty, the one that the tail
belongs to, of which the buffer never holds all bytes. -/
theorem exists_next_packet (incomplete : IncompleteTail tail)
    (refines : Refines packets tail loop dispatcher) :
    ∃ packet : Packet,
      (∀ count, count ≤ loop.totalReaded.toNat → count ≤ packet.bytes.length →
        loop.buffer.slice 0 count = packet.bytes.take count) ∧
      ((∃ queue, dispatcher.queue = packet :: queue) ∨
        dispatcher.queue = [] ∧ loop.totalReaded.toNat < packet.bytes.length) := by
  have agree : ∀ (packet : Packet) (before after : List UInt8),
      loop.buffer.slice 0 loop.totalReaded.toNat ++ before = packet.bytes ++ after →
      ∀ count, count ≤ loop.totalReaded.toNat → count ≤ packet.bytes.length →
        loop.buffer.slice 0 count = packet.bytes.take count := by
    intro packet before after same count filled inside
    have taken := congrArg (List.take count) same
    rwa [List.take_append_of_le_length (by simpa using filled),
      List.take_append_of_le_length inside, Memory.slice_take _ _ filled] at taken
  have bytes := refines.bytes
  cases queue : dispatcher.queue with
  | nil =>
      obtain ⟨packet, ⟨missing, whole⟩, shorter⟩ := incomplete
      rw [queue, List.flatMap_nil, List.nil_append] at bytes
      refine ⟨packet, agree packet (loop.incoming.flatten ++ missing) [] ?_,
        Or.inr ⟨rfl, ?_⟩⟩
      · rw [← List.append_assoc, bytes, whole, List.append_nil]
      · have lengths := congrArg List.length bytes
        rw [List.length_append, Memory.slice_length] at lengths
        omega
  | cons packet rest =>
      rw [queue, List.flatMap_cons, List.append_assoc] at bytes
      exact ⟨packet, agree packet _ _ bytes, Or.inl ⟨rest, rfl⟩⟩

/-- The buffer is complete exactly when it holds the first packet of the queue;
otherwise it has room. -/
theorem complete_cases (incomplete : IncompleteTail tail)
    (refines : Refines packets tail loop dispatcher) :
    (packetComplete loop.buffer ReadLoop.bufferSize loop.totalReaded ∧
      ∃ packet queue, dispatcher.queue = packet :: queue ∧
        packet.bytes.length ≤ loop.totalReaded.toNat ∧
        loop.buffer.slice 0 packet.bytes.length = packet.bytes) ∨
    (¬packetComplete loop.buffer ReadLoop.bufferSize loop.totalReaded ∧
      loop.totalReaded < ReadLoop.bufferSize ∧
      ∀ packet queue, dispatcher.queue = packet :: queue →
        loop.totalReaded.toNat < packet.bytes.length) := by
  obtain ⟨packet, agree, first⟩ := exists_next_packet incomplete refines
  have natural := Int.toNat_of_nonneg refines.received_nonneg
  have complete := packetComplete_iff (by simp [ReadLoop.bufferSize] :
    ReadLoop.bufferSize > 4) (agree _ (Nat.min_le_left _ _) (Nat.min_le_right _ _))
  rw [natural] at complete
  have small := packet.length_le
  by_cases whole : packet.bytes.length ≤ loop.totalReaded.toNat
  · refine Or.inl ⟨complete.mpr whole, ?_⟩
    rcases first with ⟨queue, first⟩ | ⟨_, short⟩
    · refine ⟨packet, queue, first, whole, ?_⟩
      rw [agree _ whole (Nat.le_refl _), List.take_length]
    · omega
  · refine Or.inr ⟨fun holds => whole (complete.mp holds), ?_, ?_⟩
    · simp only [ReadLoop.bufferSize]
      omega
    · intro other queue isFirst
      rcases first with ⟨others, first⟩ | ⟨empty, _⟩
      · cases first.symm.trans isFirst
        omega
      · cases empty.symm.trans isFirst

theorem Refines.dispatch_eq (refines : Refines packets tail loop dispatcher)
    {dispatch : Dispatch} (phase : loop.phase = .running dispatch) :
    dispatcher.dispatch = dispatch :=
  ReadPhase.running.inj (refines.phase.symm.trans phase)

theorem lookUp_refines (refines : Refines packets tail loop dispatcher)
    (waiting : loop.phase = .running .idle) {packet : Packet} {queue : List Packet}
    (first : dispatcher.queue = packet :: queue)
    (whole : packet.bytes.length ≤ loop.totalReaded.toNat)
    (here : loop.buffer.slice 0 packet.bytes.length = packet.bytes) :
    ∃ shadow, dispatcher.turn = some shadow ∧
      Refines packets tail loop.lookUp shadow := by
  have idle := refines.dispatch_eq waiting
  have natural := Int.toNat_of_nonneg refines.received_nonneg
  have long := packet.head_complete
  have small := packet.length_le
  have decoded := decodePacketHead_packet here whole
  rw [natural] at decoded
  have size : toI32 ((packet.bytes.length - 4 : Nat) + 4) = packet.bytes.length := by
    simp only [toI32]
    omega
  refine ⟨{ dispatcher with
    dispatch := .found (dispatcher.shared.find packet.idField) }, ?_, ?_⟩
  · simp only [Dispatcher.turn, first, idle]
  constructor
  case phase =>
    simp only [ReadLoop.lookUp, decoded, Option.getD_some, refines.shared]
  case current =>
    intro busy
    refine ⟨packet, queue, first, ?_, ?_⟩
    · simp only [ReadLoop.lookUp, decoded, Option.getD_some, size]
      omega
    · exact Int.min_le_right _ _
  case shared => exact refines.shared
  case order => exact refines.order
  case received_nonneg => exact refines.received_nonneg
  case received_le => exact refines.received_le
  case pieces => exact refines.pieces
  case bytes => exact refines.bytes

/-- What a successful `recv` does: some bytes, at least one and at most as many
as there is room for, move from the front of the incoming bytes to the end of
the buffer. -/
theorem receive_cases (pieces : ∀ piece ∈ loop.incoming, piece ≠ [])
    (room : loop.totalReaded < ReadLoop.bufferSize)
    (received : loop.receive = some next) :
    ∃ readed incoming, readed ≠ [] ∧
      loop.totalReaded + readed.length ≤ ReadLoop.bufferSize ∧
      loop.incoming.flatten = readed ++ incoming.flatten ∧
      (∀ piece ∈ incoming, piece ≠ []) ∧
      next = { loop with
        incoming
        buffer := loop.buffer.copy loop.totalReaded.toNat (Memory.ofList 0 readed) 0
          readed.length
        totalReaded := loop.totalReaded + readed.length } := by
  have free : ¬(ReadLoop.bufferSize : Int) - loop.totalReaded ≤ 0 := by omega
  dsimp only [ReadLoop.receive] at received
  rw [if_neg free] at received
  cases waiting : loop.incoming with
  | nil =>
      rw [waiting] at received
      exact absurd received (by simp)
  | cons piece others =>
      rw [waiting] at received pieces
      have nonempty : piece ≠ [] := pieces piece List.mem_cons_self
      have positive : (ReadLoop.bufferSize - loop.totalReaded).toNat ≠ 0 := by omega
      have some_bytes : piece.take (ReadLoop.bufferSize - loop.totalReaded).toNat ≠ [] := by
        simp [List.take_eq_nil_iff, positive, nonempty]
      simp only [some_bytes, if_false, Option.some.injEq] at received
      have fits : (piece.take (ReadLoop.bufferSize - loop.totalReaded).toNat).length ≤
          (ReadLoop.bufferSize - loop.totalReaded).toNat := List.length_take_le _ _
      refine ⟨_, _, some_bytes, by omega, ?_, ?_, received.symm⟩
      · split
        case isTrue nothing =>
          have all := List.take_append_drop
            (ReadLoop.bufferSize - loop.totalReaded).toNat piece
          rw [nothing, List.append_nil] at all
          rw [all, List.flatten_cons]
        case isFalse =>
          rw [List.flatten_cons, List.flatten_cons, ← List.append_assoc,
            List.take_append_drop]
      · split
        case isTrue => exact fun other mem => pieces other (List.mem_cons_of_mem _ mem)
        case isFalse something =>
          intro other mem
          rcases List.mem_cons.mp mem with rfl | later
          · exact something
          · exact pieces other (List.mem_cons_of_mem _ later)

/-- Receiving a piece is not visible to the dispatcher. -/
theorem receive_refines (refines : Refines packets tail loop dispatcher)
    (waiting : loop.phase = .running .idle)
    (room : loop.totalReaded < ReadLoop.bufferSize)
    (received : loop.receive = some next) :
    Refines packets tail next dispatcher ∧ next.remaining < loop.remaining := by
  have nonneg := refines.received_nonneg
  obtain ⟨readed, incoming, some_bytes, fits, front, pieces, rfl⟩ :=
    receive_cases refines.pieces room received
  have positive := List.length_pos_iff.mpr some_bytes
  have grown : (loop.totalReaded + readed.length).toNat =
      loop.totalReaded.toNat + readed.length := by omega
  have filled : (loop.buffer.copy loop.totalReaded.toNat (Memory.ofList 0 readed) 0
      readed.length).slice 0 (loop.totalReaded.toNat + readed.length) =
      loop.buffer.slice 0 loop.totalReaded.toNat ++ readed := by
    rw [Memory.slice_append, Memory.slice_copy_disjoint _ _ (Or.inl (by omega)),
      Nat.zero_add, Memory.slice_copy, Memory.slice_ofList]
  constructor
  · exact { refines with
      received_nonneg := by simp only; omega
      received_le := fits
      pieces
      bytes := by
        simp only [grown, filled, List.append_assoc]
        rw [← front, refines.bytes]
      current := fun busy => absurd (refines.dispatch_eq waiting) busy }
  · have lengths := congrArg List.length front
    rw [List.length_append] at lengths
    simp only [ReadLoop.remaining, waiting, grown]
    omega

/-- The answer string receives the packet at the front of the queue. -/
theorem copyAnswer_refines (refines : Refines packets tail loop dispatcher)
    {slot : Nat} (found : loop.phase = .running (.found (some slot))) :
    ∃ shadow, dispatcher.turn = some shadow ∧
      Refines packets tail (loop.copyAnswer slot) shadow := by
  have dispatch := refines.dispatch_eq found
  obtain ⟨packet, queue, first, size, whole⟩ := refines.current (by rw [dispatch]; simp)
  have front : loop.buffer.slice 0 packet.bytes.length = packet.bytes := by
    have taken := congrArg (List.take packet.bytes.length) refines.bytes
    rwa [first, List.flatMap_cons, List.append_assoc,
      List.take_append_of_le_length (by rw [Memory.slice_length]; omega), List.take_left,
      Memory.slice_take _ _ (by omega)] at taken
  have copied : loop.copyAnswer slot =
      { loop with
        shared := dispatcher.shared.answer slot packet.bytes
        phase := .running (.answered slot) } := by
    rw [ReadLoop.copyAnswer, if_neg (by omega), size, Int.toNat_natCast, front,
      refines.shared]
  refine ⟨{ dispatcher with
    shared := dispatcher.shared.answer slot packet.bytes
    dispatch := .answered slot }, ?_, ?_⟩
  · simp only [Dispatcher.turn, first, dispatch]
  rw [copied]
  exact { refines with
    phase := rfl
    shared := rfl
    current := fun _ => ⟨packet, queue, first, size, whole⟩ }

theorem signal_refines (refines : Refines packets tail loop dispatcher)
    {slot : Nat} (answered : loop.phase = .running (.answered slot)) :
    ∃ shadow, dispatcher.turn = some shadow ∧
      Refines packets tail (loop.signal slot) shadow := by
  have dispatch := refines.dispatch_eq answered
  obtain ⟨packet, queue, first, size, whole⟩ := refines.current (by rw [dispatch]; simp)
  refine ⟨{ dispatcher with
    shared := dispatcher.shared.serve slot
    dispatch := .handled }, ?_, ?_⟩
  · simp only [Dispatcher.turn, first, dispatch]
  exact { refines with
    phase := rfl
    shared := by simp only [ReadLoop.signal, refines.shared]
    current := fun _ => ⟨packet, queue, first, size, whole⟩ }

/-- A packet that nobody waits for is skipped. -/
theorem unknown_refines (refines : Refines packets tail loop dispatcher)
    (unknown : loop.phase = .running (.found none)) :
    ∃ shadow, dispatcher.turn = some shadow ∧
      Refines packets tail { loop with phase := .running .handled } shadow := by
  have dispatch := refines.dispatch_eq unknown
  obtain ⟨packet, queue, first, size, whole⟩ := refines.current (by rw [dispatch]; simp)
  refine ⟨{ dispatcher with dispatch := .handled }, ?_, ?_⟩
  · simp only [Dispatcher.turn, first, dispatch]
  exact { refines with
    phase := rfl
    current := fun _ => ⟨packet, queue, first, size, whole⟩ }

/-- Popping moves the bytes behind the packet to the front of the buffer. -/
theorem popPacket_refines (refines : Refines packets tail loop dispatcher)
    (handled : loop.phase = .running .handled) :
    (∃ shadow, dispatcher.turn = some shadow ∧
      Refines packets tail loop.popPacket shadow) ∧
    loop.popPacket.remaining < loop.remaining := by
  have dispatch := refines.dispatch_eq handled
  obtain ⟨packet, queue, first, size, whole⟩ := refines.current (by rw [dispatch]; simp)
  have long := packet.head_complete
  have nonneg := refines.received_nonneg
  have shorter : (loop.totalReaded - loop.packetSize).toNat =
      loop.totalReaded.toNat - packet.bytes.length := by omega
  have moved : ∃ buffer, loop.popPacket =
      { loop with
        buffer
        totalReaded := loop.totalReaded - loop.packetSize
        phase := .running .idle } ∧
      buffer.slice 0 (loop.totalReaded.toNat - packet.bytes.length) =
        loop.buffer.slice packet.bytes.length
          (loop.totalReaded.toNat - packet.bytes.length) := by
    refine ⟨_, by rw [ReadLoop.popPacket, if_neg (by omega)], ?_⟩
    split
    case isTrue more =>
      rw [shorter, size, Int.toNat_natCast, Memory.slice_copy]
    case isFalse none =>
      have exhausted : loop.totalReaded.toNat - packet.bytes.length = 0 := by omega
      rw [exhausted]
      rfl
  obtain ⟨buffer, popped, contents⟩ := moved
  constructor
  · refine ⟨{ dispatcher with
      handed := dispatcher.handed ++ [packet]
      queue
      dispatch := .idle }, ?_, ?_⟩
    · simp only [Dispatcher.turn, first, dispatch]
    have bytes := congrArg (List.drop packet.bytes.length) refines.bytes
    rw [first, List.flatMap_cons, List.append_assoc, List.drop_left,
      List.drop_append_of_le_length (by rw [Memory.slice_length]; omega),
      Memory.slice_drop _ _ (by omega), Nat.zero_add] at bytes
    have order := refines.order
    rw [first] at order
    rw [popped]
    exact {
      phase := rfl
      shared := refines.shared
      order := by simpa using order
      received_nonneg := by simp only; omega
      received_le := by
        have bound := refines.received_le
        simp only
        omega
      pieces := refines.pieces
      bytes := by
        simp only [shorter, contents]
        exact bytes
      current := fun busy => absurd rfl busy }
  · rw [popped]
    simp only [ReadLoop.remaining, handled, shorter]
    omega

/-- One step of the reading thread: the dispatcher follows, or the step only
received bytes.  Either way less is left to do. -/
theorem turn_follows (incomplete : IncompleteTail tail)
    (refines : Refines packets tail loop dispatcher)
    (stepped : loop.turn = some next) :
    ((∃ shadow, dispatcher.turn = some shadow ∧ Refines packets tail next shadow) ∨
      Refines packets tail next dispatcher) ∧
    next.remaining < loop.remaining := by
  have running := refines.phase
  cases dispatch : dispatcher.dispatch with
  | idle =>
      rw [dispatch] at running
      rcases complete_cases incomplete refines with
        ⟨complete, packet, queue, first, whole, here⟩ | ⟨partly, room, _⟩
      · simp only [ReadLoop.turn, running, complete, if_true] at stepped
        cases stepped
        refine ⟨Or.inl (lookUp_refines refines running first whole here), ?_⟩
        simp [ReadLoop.remaining, ReadLoop.lookUp, running]
      · simp only [ReadLoop.turn, running, partly] at stepped
        obtain ⟨unseen, less⟩ := receive_refines refines running room stepped
        exact ⟨Or.inr unseen, less⟩
  | found slot =>
      rw [dispatch] at running
      simp only [ReadLoop.turn, running] at stepped
      cases slot with
      | none =>
          cases stepped
          refine ⟨Or.inl (unknown_refines refines running), ?_⟩
          simp [ReadLoop.remaining, running]
      | some slot =>
          cases stepped
          have follows := copyAnswer_refines refines running
          refine ⟨Or.inl follows, ?_⟩
          obtain ⟨packet, queue, first, size, whole⟩ :=
            refines.current (by rw [dispatch]; simp)
          rw [ReadLoop.copyAnswer, if_neg (by omega)]
          simp [ReadLoop.remaining, running]
  | answered slot =>
      rw [dispatch] at running
      simp only [ReadLoop.turn, running] at stepped
      cases stepped
      refine ⟨Or.inl (signal_refines refines running), ?_⟩
      simp [ReadLoop.remaining, ReadLoop.signal, running]
  | handled =>
      rw [dispatch] at running
      simp only [ReadLoop.turn, running] at stepped
      cases stepped
      obtain ⟨follows, less⟩ := popPacket_refines refines running
      exact ⟨Or.inl follows, less⟩

/-- With room in the buffer only a missing piece makes `recv` wait. -/
theorem receive_blocked (room : loop.totalReaded < ReadLoop.bufferSize)
    (blocked : loop.receive = none) : loop.incoming = [] := by
  have free : ¬(ReadLoop.bufferSize : Int) - loop.totalReaded ≤ 0 := by omega
  cases waiting : loop.incoming with
  | nil => rfl
  | cons piece others =>
      dsimp only [ReadLoop.receive] at blocked
      rw [if_neg free, waiting] at blocked
      simp only at blocked
      split at blocked <;> simp at blocked

/-- The reading thread only blocks when every packet was handed over and every
byte of the tail is in the buffer. -/
theorem blocked_finished (incomplete : IncompleteTail tail)
    (refines : Refines packets tail loop dispatcher) (blocked : loop.turn = none) :
    dispatcher.handed = packets ∧ loop.incoming = [] ∧
      loop.buffer.slice 0 loop.totalReaded.toNat = tail := by
  have running := refines.phase
  cases dispatch : dispatcher.dispatch with
  | idle =>
      rw [dispatch] at running
      rcases complete_cases incomplete refines with
        ⟨complete, _⟩ | ⟨partly, room, unfinished⟩
      · simp [ReadLoop.turn, running, complete] at blocked
      · simp only [ReadLoop.turn, running, partly] at blocked
        have nothing := receive_blocked room blocked
        have bytes := refines.bytes
        have order := refines.order
        rw [nothing, List.flatten_nil, List.append_nil] at bytes
        cases queue : dispatcher.queue with
        | nil =>
            rw [queue, List.append_nil] at order
            rw [queue] at bytes
            exact ⟨order, nothing, bytes⟩
        | cons packet others =>
            have short := unfinished packet others queue
            have lengths := congrArg List.length bytes
            rw [queue, List.flatMap_cons, List.append_assoc, Memory.slice_length,
              List.length_append] at lengths
            omega
  | found slot =>
      rw [dispatch] at running
      cases slot <;> simp [ReadLoop.turn, running] at blocked
  | answered slot =>
      rw [dispatch] at running
      simp [ReadLoop.turn, running] at blocked
  | handled =>
      rw [dispatch] at running
      simp [ReadLoop.turn, running] at blocked

end Steps

/-! ## Whole runs -/

theorem step_follows {packets : List Packet} {tail : List UInt8}
    (incomplete : IncompleteTail tail) (loop : ReadLoop) (dispatcher : Dispatcher)
    (label : ReadLabel) (next : ReadLoop)
    (refines : Refines packets tail loop dispatcher)
    (stepped : ReadLoop.machine.step loop label = some next) :
    ((∃ shadow, Dispatcher.machine.step dispatcher label = some shadow ∧
        Refines packets tail next shadow) ∨
      label = .turn ∧ Refines packets tail next dispatcher) ∧
    next.remaining + label.turns ≤ loop.remaining := by
  cases label with
  | turn =>
      obtain ⟨follows | unseen, less⟩ := turn_follows incomplete refines stepped
      · exact ⟨Or.inl follows, less⟩
      · exact ⟨Or.inr ⟨rfl, unseen⟩, less⟩
  | others shared =>
      cases stepped
      exact ⟨Or.inl ⟨_, rfl, { refines with shared := rfl }⟩, Nat.le_refl _⟩

/-- Whatever the pieces in which the stream of packets arrives, and whatever the
other threads do to the pool and to the answer strings meanwhile, the loop does
what the dispatcher does with the sequence of packets, and the bytes of the
incomplete tail end up in the buffer.  The reading thread takes a bounded number
of steps and blocks only when it is done. -/
theorem readLoop_reassembles {packets : List Packet} {tail : List UInt8}
    (incomplete : IncompleteTail tail) {incoming : List (List UInt8)}
    (pieces : ∀ piece ∈ incoming, piece ≠ [])
    (stream : incoming.flatten = packets.flatMap Packet.bytes ++ tail)
    (buffer : Memory UInt8) (head : Head) (shared : Shared)
    {labels : List ReadLabel} {final : ReadLoop}
    (reached : ReadLoop.machine.run (.start buffer head incoming shared) labels =
      some final) :
    (labels.map ReadLabel.turns).sum ≤ 2 * incoming.flatten.length + 3 ∧
      ∃ kept dispatcher, Machine.Thinned (fun label => label = .turn) kept labels ∧
        Dispatcher.machine.run (.start packets shared) kept = some dispatcher ∧
        Refines packets tail final dispatcher ∧
        (final.turn = none → dispatcher.handed = packets ∧ final.incoming = [] ∧
          final.buffer.slice 0 final.totalReaded.toNat = tail) := by
  have initial := start_refines pieces stream buffer head shared
  constructor
  · have pays : ∀ loop label next,
        (∃ dispatcher, Refines packets tail loop dispatcher) →
        ReadLoop.machine.step loop label = some next →
        (∃ dispatcher, Refines packets tail next dispatcher) ∧
          next.remaining + label.turns ≤ loop.remaining := by
      intro loop label next holds stepped
      obtain ⟨dispatcher, refines⟩ := holds
      obtain ⟨follows, paid⟩ :=
        step_follows incomplete loop dispatcher label next refines stepped
      rcases follows with ⟨shadow, _, nextRefines⟩ | ⟨_, nextRefines⟩
      · exact ⟨⟨shadow, nextRefines⟩, paid⟩
      · exact ⟨⟨dispatcher, nextRefines⟩, paid⟩
    exact Machine.run_cost_le pays ⟨_, initial⟩ reached
  · obtain ⟨kept, dispatcher, thinned, ran, refines⟩ := Machine.run_simulation
      (fun loop dispatcher label next refines stepped =>
        (step_follows incomplete loop dispatcher label next refines stepped).1)
      initial reached
    exact ⟨kept, dispatcher, thinned, ran, refines, blocked_finished incomplete refines⟩

/-- A packet without a body. -/
def shortPacket : Packet where
  bytes := [0, 0, 0, 5, 101, 0, 0, 0, 7]
  length_eq := by decide
  head_complete := by decide
  length_le := by decide

/-- One request with id 7 is pending; its answer string has address 0. -/
def onePending : Shared where
  pool := { size := 1, table := fun _ => ⟨7, none, some 0, 0⟩ }
  strings _ := []

/-- A packet that arrives in three pieces, the last of which already contains
the beginning of the next packet. -/
theorem readLoop_reassembles_pieces :
    ∃ final dispatcher,
      ReadLoop.machine.run (.start (fun _ => 0) ⟨0, 0, 0⟩
        [[0, 0, 0], [5, 101, 0, 0], [0, 7, 0, 0]] onePending)
        (List.replicate 7 .turn) = some final ∧
      Refines [shortPacket] [0, 0] final dispatcher ∧
      final.shared.strings 0 = shortPacket.bytes ∧
      (final.shared.pool.table 0).served = 1 ∧
      dispatcher.handed = [shortPacket] := by
  have incomplete : IncompleteTail [0, 0] :=
    ⟨shortPacket, ⟨[0, 5, 101, 0, 0, 0, 7], rfl⟩, by decide⟩
  have stream : List.flatten [[0, 0, 0], [5, 101, 0, 0], [0, 7, 0, 0]] =
      [shortPacket].flatMap Packet.bytes ++ [0, 0] := rfl
  have reached : ReadLoop.machine.run (.start (fun _ => 0) ⟨0, 0, 0⟩
      [[0, 0, 0], [5, 101, 0, 0], [0, 7, 0, 0]] onePending)
      (List.replicate 7 .turn) = some _ := rfl
  obtain ⟨_, kept, dispatcher, _, _, refines, finished⟩ :=
    readLoop_reassembles incomplete (by decide) stream _ _ _ reached
  exact ⟨_, dispatcher, rfl, refines, rfl, rfl, (finished rfl).1⟩

end Tegenaria.LibSftp
