import Tegenaria.LibSftp.ReadLoop

/-!
# Reading from a hostile server

The server chooses every byte that `readLoop` receives, the length fields
included.  The loop looks at a length field twice: `packetComplete` keeps it in an
`int` and adds four, and the loop itself adds four to the unsigned field and
converts the sum.  When the buffer has fewer than nine bytes the head of the packet
is not decoded at all, and the variables keep the values of an earlier packet.

Which streams the loop survives depends on the length fields at the packet
boundaries alone, not on the pieces in which the stream arrives.
-/

namespace Tegenaria.LibSftp

open Foundation
open Foundation.Bytes
open Foundation.Word
open LibLock

/-- The length field at the front of a stream. -/
def lengthField (stream : List UInt8) : Nat := ofBigEndian (stream.take 4)

/-- Points of a stream at which a packet starts, as long as the packets before it
have a complete head and fit the buffer. -/
inductive Boundary (stream : List UInt8) : List UInt8 → Prop where
  | start : Boundary stream stream
  | next {rest : List UInt8} (before : Boundary stream rest)
      (headed : 5 ≤ lengthField rest) (fits : lengthField rest + 4 ≤ ReadLoop.bufferSize)
      (whole : lengthField rest + 4 ≤ rest.length) :
      Boundary stream (rest.drop (lengthField rest + 4))

/-- Every length field that arrives together with at least one more byte is below
`2 ^ 31 - 4`, and it counts at least the type and the id once the packet is
complete. -/
def LengthsFit (stream : List UInt8) : Prop :=
  ∀ rest, Boundary stream rest → 5 ≤ rest.length →
    lengthField rest < 2 ^ 31 - 4 ∧
      (lengthField rest + 4 ≤ rest.length → 5 ≤ lengthField rest)

namespace ReadLoop

/-- Bytes that were not handed over yet. -/
def pending (loop : ReadLoop) : List UInt8 :=
  loop.buffer.slice 0 loop.totalReaded.toNat ++ loop.incoming.flatten

/-- What is expected of the loop in every state: the counter stays within the
buffer, nothing undefined happens, and a packet that is being handled is a part of
the buffer that contains the head fields in use.  Popping consumes that packet. -/
structure Sound (loop : ReadLoop) : Prop where
  received_nonneg : 0 ≤ loop.totalReaded
  received_le : loop.totalReaded ≤ bufferSize
  defined : loop.phase ≠ .undefined
  packet : ∀ dispatch, loop.phase = .running dispatch → dispatch ≠ .idle →
    1 ≤ loop.packetSize ∧ loop.packetSize ≤ loop.totalReaded ∧
      decodePacketHead loop.buffer loop.packetSize = some loop.head
  consumed : ∀ next, loop.phase = .running .handled → loop.turn = some next →
    next.phase = .running .idle ∧
      next.totalReaded = loop.totalReaded - loop.packetSize ∧
      next.pending = loop.pending.drop loop.packetSize.toNat

/-- The loop between two packets of a stream, or while it handles the packet at a
boundary. -/
structure Tracks (stream : List UInt8) (loop : ReadLoop) : Prop where
  received_nonneg : 0 ≤ loop.totalReaded
  received_le : loop.totalReaded ≤ bufferSize
  defined : loop.phase ≠ .undefined
  boundary : ∀ dispatch, loop.phase = .running dispatch → Boundary stream loop.pending
  current : ∀ dispatch, loop.phase = .running dispatch → dispatch ≠ .idle →
    9 ≤ loop.packetSize ∧ loop.packetSize ≤ loop.totalReaded ∧
      loop.packetSize = lengthField loop.pending + 4 ∧
      decodePacketHead loop.buffer loop.packetSize = some loop.head

end ReadLoop

section Fields

variable {loop : ReadLoop}

/-- The length field of the pending bytes is in the buffer once four bytes were
received. -/
theorem lengthField_pending (received : 4 ≤ loop.totalReaded) :
    lengthField loop.pending = ofBigEndian (loop.buffer.slice 0 4) := by
  rw [lengthField, ReadLoop.pending, List.take_append_of_le_length (by simp; omega),
    Memory.slice_take _ _ (by omega)]

theorem pending_length (received : 0 ≤ loop.totalReaded) :
    loop.totalReaded ≤ loop.pending.length := by
  rw [ReadLoop.pending, List.length_append, Memory.slice_length]
  omega

/-- For length fields below `2 ^ 31 - 4` the comparison means what it says. -/
theorem packetComplete_pending (small : lengthField loop.pending < 2 ^ 31 - 4)
    (received : 5 ≤ loop.totalReaded) :
    packetComplete loop.buffer ReadLoop.bufferSize loop.totalReaded ↔
      (lengthField loop.pending + 4 : Int) ≤ loop.totalReaded := by
  rw [lengthField_pending (by omega)] at small ⊢
  have expected : toI32 (toI32 (ofBigEndian (loop.buffer.slice 0 4)) + 4) =
      ofBigEndian (loop.buffer.slice 0 4) + 4 := by
    have field : toI32 (ofBigEndian (loop.buffer.slice 0 4)) =
        ofBigEndian (loop.buffer.slice 0 4) := toI32_of_fits (by omega) (by omega)
    rw [field]
    exact toI32_of_fits (by omega) (by omega)
  have room : ReadLoop.bufferSize > 4 := by decide
  simp only [packetComplete, expected, decide_eq_true_eq]
  omega

/-- A length field from `2 ^ 31 - 4` on is complete as soon as it can be looked
at. -/
theorem packetComplete_large (large : 2 ^ 31 - 4 ≤ lengthField loop.pending)
    (received : 5 ≤ loop.totalReaded) :
    packetComplete loop.buffer ReadLoop.bufferSize loop.totalReaded := by
  rw [lengthField_pending (by omega)] at large
  have bound : ofBigEndian (loop.buffer.slice 0 4) < 256 ^ 4 := by
    simpa using ofBigEndian_lt (loop.buffer.slice 0 4)
  have room : ReadLoop.bufferSize > 4 := by decide
  rw [packetComplete, decide_eq_true_eq]
  refine ⟨room, by omega, ?_⟩
  simp only [toI32]
  omega

/-- Fewer than nine bytes are not decoded. -/
theorem decodePacketHead_short {memory : Memory UInt8} {size : Int} (short : size < 9) :
    decodePacketHead memory size = none :=
  if_neg (by omega)

end Fields

/-! ## One step -/

section Steps

variable {stream : List UInt8} {loop next : ReadLoop}

namespace ReadLoop

/-- One call of `recv` ends the loop, or it moves bytes from the front of the
incoming ones to the end of the buffer. -/
theorem receive_outcome (nonneg : 0 ≤ loop.totalReaded)
    (received : loop.receive = some next) :
    next.totalReaded = loop.totalReaded ∧ next.phase = .stopped ∨
      next.totalReaded ≤ bufferSize ∧ loop.totalReaded ≤ next.totalReaded ∧
        next.phase = loop.phase ∧ next.pending = loop.pending := by
  dsimp only [receive] at received
  split at received
  case isTrue => exact Or.inl (by cases received; exact ⟨rfl, rfl⟩)
  case isFalse room =>
    split at received
    case h_1 => cases received
    case h_2 piece pieces waiting =>
      split at received
      case isTrue => exact Or.inl (by cases received; exact ⟨rfl, rfl⟩)
      case isFalse =>
        cases received
        refine Or.inr ⟨?_, ?_, rfl, ?_⟩
        · have fits := List.length_take_le (bufferSize - loop.totalReaded).toNat piece
          simp only
          omega
        · simp only
          omega
        · have grown : ∀ count : Nat, (loop.totalReaded + count).toNat =
              loop.totalReaded.toNat + count := by omega
          simp only [pending, grown]
          rw [Memory.slice_append, Memory.slice_copy_disjoint _ _ (Or.inl (by omega)),
            Nat.zero_add, Memory.slice_copy, Memory.slice_ofList, List.append_assoc, waiting,
            List.flatten_cons]
          congr 1
          split
          case isTrue nothing =>
            have all := List.take_append_drop (bufferSize - loop.totalReaded).toNat piece
            rw [nothing, List.append_nil] at all
            rw [all]
          case isFalse => rw [List.flatten_cons, ← List.append_assoc, List.take_append_drop]

/-- Nothing is lost when the packet at the front is popped. -/
theorem popPacket_pending (nonneg : 0 ≤ loop.packetSize)
    (whole : loop.packetSize ≤ loop.totalReaded) :
    loop.popPacket.pending = loop.pending.drop loop.packetSize.toNat := by
  have shorter : (loop.totalReaded - loop.packetSize).toNat =
      loop.totalReaded.toNat - loop.packetSize.toNat := by omega
  rw [popPacket, if_neg (by omega)]
  simp only [pending, shorter]
  rw [List.drop_append_of_le_length (by rw [Memory.slice_length]; omega),
    Memory.slice_drop _ _ (by omega), Nat.zero_add]
  congr 1
  split
  case isTrue => exact Memory.slice_copy _ _ _ _ _
  case isFalse all =>
    have nothing : loop.totalReaded.toNat - loop.packetSize.toNat = 0 := by omega
    rw [nothing]
    rfl

theorem popPacket_defined (nonneg : 0 ≤ loop.packetSize) :
    loop.popPacket.phase = .running .idle ∧
      loop.popPacket.totalReaded = loop.totalReaded - loop.packetSize := by
  rw [popPacket, if_neg (by omega)]
  exact ⟨rfl, rfl⟩

/-- The loop has stopped, or it is where the property puts it. -/
theorem Tracks.stopped (nonneg : 0 ≤ loop.totalReaded) (le : loop.totalReaded ≤ bufferSize)
    (phase : loop.phase = .stopped) : loop.Tracks stream where
  received_nonneg := nonneg
  received_le := le
  defined := by simp [phase]
  boundary _ running := by cases phase.symm.trans running
  current _ running := by cases phase.symm.trans running

/-- While a packet is handled only the shared data and the point reached change. -/
theorem Tracks.handling (tracks : loop.Tracks stream) {dispatch later : Dispatch}
    (running : loop.phase = .running dispatch) (busy : dispatch ≠ .idle) (shared : Shared) :
    Tracks stream { loop with shared, phase := .running later } where
  received_nonneg := tracks.received_nonneg
  received_le := tracks.received_le
  defined := by simp
  boundary _ _ := tracks.boundary dispatch running
  current _ _ _ := tracks.current dispatch running busy

/-- A complete packet at a boundary has its head in the buffer. -/
theorem lookUp_tracks (fit : LengthsFit stream) (tracks : loop.Tracks stream)
    (idle : loop.phase = .running .idle)
    (complete : packetComplete loop.buffer bufferSize loop.totalReaded) :
    loop.lookUp.Tracks stream := by
  have nonneg := tracks.received_nonneg
  have boundary := tracks.boundary _ idle
  have received : 5 ≤ loop.totalReaded := by
    simp only [packetComplete, decide_eq_true_eq] at complete
    omega
  have longer := pending_length nonneg
  obtain ⟨small, headed⟩ := fit _ boundary (by omega)
  have whole := (packetComplete_pending small received).mp complete
  have least := headed (by omega)
  have field := lengthField_pending (by omega : 4 ≤ loop.totalReaded)
  have decoded : decodePacketHead loop.buffer loop.totalReaded = some _ :=
    decodePacketHead_fields (by omega)
  rw [← field] at decoded
  have size : min (toI32 (lengthField loop.pending + 4)) loop.totalReaded =
      lengthField loop.pending + 4 := by
    rw [toI32_of_fits (by omega) (by omega)]
    omega
  have packetSize : loop.lookUp.packetSize = lengthField loop.pending + 4 := by
    simp only [lookUp, decoded, Option.getD_some, size]
  have head : decodePacketHead loop.buffer loop.lookUp.packetSize = some loop.lookUp.head := by
    rw [packetSize, decodePacketHead_fields (by omega), ← field]
    simp only [lookUp, decoded, Option.getD_some]
  exact {
    received_nonneg := nonneg
    received_le := tracks.received_le
    defined := by simp [lookUp]
    boundary := fun _ _ => boundary
    current := fun _ _ _ => ⟨by omega, by rw [packetSize]; exact whole, packetSize, head⟩ }

theorem popPacket_tracks (tracks : loop.Tracks stream)
    (handled : loop.phase = .running .handled) : loop.popPacket.Tracks stream := by
  obtain ⟨headed, whole, size, _⟩ := tracks.current _ handled (by simp)
  obtain ⟨phase, left⟩ := popPacket_defined (by omega : 0 ≤ loop.packetSize)
  have bound := tracks.received_le
  have longer := pending_length tracks.received_nonneg
  have popped : loop.popPacket.pending = loop.pending.drop (lengthField loop.pending + 4) := by
    rw [popPacket_pending (by omega) whole, size]
    rfl
  exact {
    received_nonneg := by omega
    received_le := by omega
    defined := by simp [phase]
    boundary := fun _ _ => by
      rw [popped]
      exact .next (tracks.boundary _ handled) (by omega) (by omega) (by omega)
    current := fun dispatch running busy => by
      cases phase.symm.trans running
      exact absurd rfl busy }

theorem turn_tracks (fit : LengthsFit stream) (tracks : loop.Tracks stream)
    (stepped : loop.turn = some next) : next.Tracks stream := by
  cases phase : loop.phase with
  | stopped => simp [turn, phase] at stepped
  | undefined => exact absurd phase tracks.defined
  | running dispatch =>
      simp only [turn, phase] at stepped
      cases dispatch with
      | idle =>
          simp only at stepped
          split at stepped
          case isTrue complete =>
            cases stepped
            exact lookUp_tracks fit tracks phase complete
          case isFalse =>
            have nonneg := tracks.received_nonneg
            have bound := tracks.received_le
            obtain ⟨same, stopped⟩ | ⟨room, more, running, same⟩ :=
              receive_outcome nonneg stepped
            · exact .stopped (by omega) (by omega) stopped
            · rw [phase] at running
              exact {
                received_nonneg := by omega
                received_le := room
                defined := by simp [running]
                boundary := fun _ _ => by rw [same]; exact tracks.boundary _ phase
                current := fun dispatch other busy => by
                  cases running.symm.trans other
                  exact absurd rfl busy }
      | found slot =>
          have sized := (tracks.current _ phase (by simp)).1
          cases slot with
          | none =>
              cases stepped
              exact tracks.handling phase (by simp) loop.shared
          | some slot =>
              cases stepped
              rw [copyAnswer, if_neg (by omega)]
              exact tracks.handling phase (by simp) _
      | answered slot =>
          cases stepped
          exact tracks.handling phase (by simp) _
      | handled =>
          cases stepped
          exact popPacket_tracks tracks phase

theorem step_tracks (fit : LengthsFit stream) (loop : ReadLoop) (label : ReadLabel)
    (next : ReadLoop) (tracks : loop.Tracks stream)
    (stepped : machine.step loop label = some next) : next.Tracks stream := by
  cases label with
  | turn => exact turn_tracks fit tracks stepped
  | others shared =>
      cases stepped
      exact { tracks with }

theorem start_tracks {incoming : List (List UInt8)} (buffer : Memory UInt8) (head : Head)
    (shared : Shared) (whole : incoming.flatten = stream) :
    (start buffer head incoming shared).Tracks stream where
  received_nonneg := Int.le_refl 0
  received_le := by simp [start]
  defined := by simp [start]
  boundary _ _ := by
    have same : (start buffer head incoming shared).pending = stream := whole
    rw [same]
    exact .start
  current dispatch running busy := by
    cases running
    exact absurd rfl busy

theorem Tracks.sound (tracks : loop.Tracks stream) : loop.Sound where
  received_nonneg := tracks.received_nonneg
  received_le := tracks.received_le
  defined := tracks.defined
  packet dispatch running busy := by
    obtain ⟨headed, whole, _, decoded⟩ := tracks.current dispatch running busy
    exact ⟨by omega, whole, decoded⟩
  consumed next handled stepped := by
    obtain ⟨headed, whole, _, _⟩ := tracks.current _ handled (by simp)
    simp only [turn, handled] at stepped
    cases stepped
    obtain ⟨phase, left⟩ := popPacket_defined (by omega : 0 ≤ loop.packetSize)
    exact ⟨phase, left, popPacket_pending (by omega) whole⟩

end ReadLoop

end Steps

/-! ## Runs on bad length fields -/

/-- No request is pending. -/
def nonePending : Shared where
  pool := { size := 0, table := fun _ => ⟨-1, none, none, 0⟩ }
  strings _ := []

namespace ReadLoop

/-- A state between two packets in which the buffer is empty. -/
structure Empty (loop : ReadLoop) (incoming : List (List UInt8)) : Prop where
  received : loop.totalReaded = 0
  phase : loop.phase = .running .idle
  incoming : loop.incoming = incoming
  shared : loop.shared = nonePending

section Pieces

variable {loop : ReadLoop} {piece : List UInt8} {incoming : List (List UInt8)}

/-- The next piece is received as a whole. -/
theorem Empty.receive (waiting : loop.Empty (piece :: incoming)) (some_bytes : piece ≠ [])
    (fits : piece.length ≤ bufferSize) :
    ∃ next, machine.run loop [.turn] = some next ∧ next.totalReaded = piece.length ∧
      next.phase = .running .idle ∧ next.incoming = incoming ∧ next.shared = nonePending ∧
      next.pending = piece ++ incoming.flatten := by
  have incomplete : packetComplete loop.buffer bufferSize loop.totalReaded = false := by
    simp [packetComplete, waiting.received]
  have space : ((bufferSize : Int) - loop.totalReaded).toNat = bufferSize := by
    rw [waiting.received]
    rfl
  have free : ¬(bufferSize : Int) - loop.totalReaded ≤ 0 := by
    rw [waiting.received]
    decide
  refine ⟨{ loop with
    incoming
    buffer := loop.buffer.copy loop.totalReaded.toNat (Memory.ofList 0 piece) 0 piece.length
    totalReaded := loop.totalReaded + piece.length }, ?_, ?_, waiting.phase, rfl,
    waiting.shared, ?_⟩
  · simp only [Machine.run, machine, turn, waiting.phase, incomplete, ReadLoop.receive,
      waiting.incoming, free, space, List.take_of_length_le fits, List.drop_of_length_le fits,
      some_bytes]
    rfl
  · simp only [waiting.received]
    omega
  · simp only [pending, waiting.received, Int.zero_add, Int.toNat_natCast, Int.toNat_zero]
    rw [Memory.slice_copy, Memory.slice_ofList]

/-- A packet that nobody waits for is received, looked up and popped. -/
theorem Empty.skip (waiting : loop.Empty (piece :: incoming))
    (headed : 5 ≤ lengthField piece) (fits : lengthField piece + 4 ≤ bufferSize)
    (whole : piece.length = lengthField piece + 4) :
    ∃ next, machine.run loop (List.replicate 4 .turn) = some next ∧ next.Empty incoming := by
  obtain ⟨full, received, size, idle, left, shared, bytes⟩ :=
    waiting.receive (by intro none; simp [none] at whole) (by omega)
  have field : lengthField full.pending = lengthField piece := by
    rw [bytes, lengthField, List.take_append_of_le_length (by omega)]
    rfl
  have limit : bufferSize = 65536 := rfl
  have complete : packetComplete full.buffer bufferSize full.totalReaded :=
    (packetComplete_pending (by omega) (by omega)).mpr (by omega)
  have decoded : decodePacketHead full.buffer full.totalReaded = some _ :=
    decodePacketHead_fields (by omega)
  have found : full.lookUp.phase = .running (.found none) := by
    simp only [lookUp, shared]
    rfl
  have all : full.lookUp.packetSize = full.totalReaded := by
    simp only [lookUp, decoded, Option.getD_some, ← lengthField_pending (by omega : 4 ≤ full.totalReaded)]
    rw [toI32_of_fits (by omega) (by omega)]
    omega
  obtain ⟨popped, nothing⟩ := @popPacket_defined { full.lookUp with phase := .running .handled }
    (by simp only [all]; omega)
  refine ⟨_, ?_, nothing.trans (by simp only [all]; exact Int.sub_self _), popped, ?_, ?_⟩
  · have split : List.replicate 4 ReadLabel.turn =
        [ReadLabel.turn] ++ [ReadLabel.turn, ReadLabel.turn, ReadLabel.turn] := rfl
    rw [split, Machine.run_append, received, Option.bind_some]
    simp only [Machine.run, machine, turn, idle, complete, if_true, Option.bind_some, found]
  · rw [popPacket, if_neg (by simp only [all]; omega)]
    exact left
  · rw [popPacket, if_neg (by simp only [all]; omega)]
    exact shared

/-- A packet that counts as complete before nine bytes have arrived is handled
without its head. -/
theorem Empty.unsound (waiting : loop.Empty (piece :: incoming)) (some_bytes : 5 ≤ piece.length)
    (short : piece.length < 9)
    (bad : 2 ^ 31 - 4 ≤ lengthField piece ∨ lengthField piece + 4 ≤ piece.length) :
    ∃ next, machine.run loop [.turn, .turn] = some next ∧ ¬next.Sound := by
  have limit : bufferSize = 65536 := rfl
  obtain ⟨full, received, size, idle, _, _, bytes⟩ :=
    waiting.receive (by intro none; simp [none] at some_bytes) (by omega)
  have field : lengthField full.pending = lengthField piece := by
    rw [bytes, lengthField, List.take_append_of_le_length (by omega)]
    rfl
  have complete : packetComplete full.buffer bufferSize full.totalReaded := by
    rcases bad with large | whole
    · exact packetComplete_large (by omega) (by omega)
    · exact (packetComplete_pending (by omega) (by omega)).mpr (by omega)
  refine ⟨full.lookUp, ?_, fun sound => ?_⟩
  · have split : [ReadLabel.turn, ReadLabel.turn] = [ReadLabel.turn] ++ [ReadLabel.turn] := rfl
    rw [split, Machine.run_append, received, Option.bind_some]
    simp only [Machine.run, machine, turn, idle, complete, if_true, Option.bind_some]
  · obtain ⟨_, inside, decoded⟩ := sound.packet _ rfl (by simp)
    have same : full.lookUp.totalReaded = full.totalReaded := rfl
    rw [decodePacketHead_short (by omega)] at decoded
    cases decoded

end Pieces

end ReadLoop

/-- The loop gets to every boundary of a stream that arrives packet by packet. -/
theorem Boundary.reachable {stream rest : List UInt8} (boundary : Boundary stream rest) :
    ∃ pieces, pieces.flatten ++ rest = stream ∧
      ∀ (incoming : List (List UInt8)) (loop : ReadLoop), loop.Empty (pieces ++ incoming) →
        ∃ labels next, ReadLoop.machine.run loop labels = some next ∧
          next.Empty incoming := by
  induction boundary with
  | start => exact ⟨[], rfl, fun incoming loop waiting => ⟨[], loop, rfl, waiting⟩⟩
  | @next rest _ headed fits whole ih =>
      obtain ⟨pieces, front, reach⟩ := ih
      have field : lengthField (rest.take (lengthField rest + 4)) = lengthField rest := by
        rw [lengthField, List.take_take, Nat.min_eq_left (by omega), lengthField]
      refine ⟨pieces ++ [rest.take (lengthField rest + 4)], ?_, fun incoming loop waiting => ?_⟩
      · rw [List.flatten_append, List.flatten_singleton, List.append_assoc,
          List.take_append_drop, front]
      · rw [List.append_assoc] at waiting
        obtain ⟨labels, middle, reached, empty⟩ := reach _ loop waiting
        obtain ⟨next, skipped, left⟩ := empty.skip (by omega) (by omega)
          (by rw [List.length_take, field]; omega)
        exact ⟨labels ++ List.replicate 4 .turn, next,
          Machine.run_append_eq_some.mpr ⟨middle, reached, skipped⟩, left⟩

/-- A length field that does not fit breaks some run. -/
theorem Boundary.unsound {stream rest : List UInt8} (boundary : Boundary stream rest)
    {count : Nat} (least : 5 ≤ count) (short : count < 9) (inside : count ≤ rest.length)
    (bad : 2 ^ 31 - 4 ≤ lengthField rest ∨ lengthField rest + 4 ≤ count) :
    ∃ incoming labels loop, incoming.flatten = stream ∧
      ReadLoop.machine.run (.start (fun _ => 0) ⟨0, 0, 0⟩ incoming nonePending) labels =
        some loop ∧ ¬loop.Sound := by
  obtain ⟨pieces, front, reach⟩ := boundary.reachable
  have field : lengthField (rest.take count) = lengthField rest := by
    rw [lengthField, List.take_take, Nat.min_eq_left (by omega), lengthField]
  have length : (rest.take count).length = count := by
    rw [List.length_take]
    omega
  obtain ⟨labels, middle, reached, empty⟩ := reach [rest.take count, rest.drop count]
    (.start (fun _ => 0) ⟨0, 0, 0⟩ _ nonePending) ⟨rfl, rfl, rfl, rfl⟩
  obtain ⟨loop, broken, unsound⟩ := empty.unsound (by omega) (by omega)
    (by rw [field, length]; exact bad)
  refine ⟨_, labels ++ [.turn, .turn], loop, ?_,
    Machine.run_append_eq_some.mpr ⟨middle, reached, broken⟩, unsound⟩
  rw [List.flatten_append, List.flatten_cons, List.flatten_singleton, List.take_append_drop,
    front]

/-- The loop survives a stream, whatever the pieces in which it arrives and the
changes of the shared data meanwhile, exactly when the length fields at the packet
boundaries fit. -/
theorem readLoop_survives_iff (stream : List UInt8) :
    (∀ incoming, incoming.flatten = stream → ∀ buffer head shared labels loop,
      ReadLoop.machine.run (.start buffer head incoming shared) labels = some loop →
        loop.Sound) ↔ LengthsFit stream := by
  constructor
  · intro survives rest boundary arrived
    by_contra unfit
    rw [not_and_or] at unfit
    have broken : ∃ count, 5 ≤ count ∧ count < 9 ∧ count ≤ rest.length ∧
        (2 ^ 31 - 4 ≤ lengthField rest ∨ lengthField rest + 4 ≤ count) := by
      rcases unfit with large | small
      · exact ⟨5, by omega, by omega, arrived, Or.inl (by omega)⟩
      · exact ⟨max 5 (lengthField rest + 4), by omega, by omega, by omega, Or.inr (by omega)⟩
    obtain ⟨count, least, short, inside, bad⟩ := broken
    obtain ⟨incoming, labels, loop, whole, reached, unsound⟩ :=
      boundary.unsound least short inside bad
    exact unsound (survives incoming whole _ _ _ labels loop reached)
  · intro fit incoming whole buffer head shared labels loop reached
    exact (Machine.run_preserves (ReadLoop.step_tracks fit)
      (ReadLoop.start_tracks buffer head shared whole) reached).sound

/-- The length field `0xFFFFFFFC` makes a packet of no bytes: the loop handles it
again and again. -/
theorem readLoop_zeroSize_unsound :
    ∃ loop, ReadLoop.machine.run (.start (fun _ => 0) ⟨0, 0, 0⟩
        [[255, 255, 255, 252, 101, 0, 0, 0, 7]] nonePending) [.turn, .turn] = some loop ∧
      loop.packetSize = 0 ∧ ¬loop.Sound := by
  have reached : (ReadLoop.machine.run (.start (fun _ => 0) ⟨0, 0, 0⟩
      [[255, 255, 255, 252, 101, 0, 0, 0, 7]] nonePending) [.turn, .turn]).map
      (fun loop => (loop.packetSize, loop.phase)) = some (0, .running (.found none)) := by
    decide +kernel
  obtain ⟨loop, ran, shown⟩ := Option.map_eq_some_iff.mp reached
  obtain ⟨zero, busy⟩ := Prod.mk.inj shown
  refine ⟨loop, ran, zero, fun sound => ?_⟩
  have positive := (sound.packet _ busy (by simp)).1
  omega

/-! ## Packets that do not fit the buffer -/

/-- A packet of more than 64 KiB is never handed over: the loop waits for more bytes
or has stopped. -/
theorem oversized_not_handled {stream : List UInt8}
    (large : ReadLoop.bufferSize < lengthField stream + 4)
    (small : lengthField stream < 2 ^ 31 - 4) {incoming : List (List UInt8)}
    (whole : incoming.flatten = stream) (buffer : Memory UInt8) (head : Head) (shared : Shared)
    {labels : List ReadLabel} {loop : ReadLoop}
    (reached : ReadLoop.machine.run (.start buffer head incoming shared) labels = some loop) :
    loop.phase = .running .idle ∨ loop.phase = .stopped := by
  have only : ∀ rest, Boundary stream rest → rest = stream := by
    intro rest boundary
    induction boundary with
    | start => rfl
    | next _ _ fits _ same =>
        rw [same] at fits
        omega
  have limit : ReadLoop.bufferSize = 65536 := rfl
  have fit : LengthsFit stream := by
    intro rest boundary _
    rw [only rest boundary]
    exact ⟨small, fun _ => by omega⟩
  have tracks := Machine.run_preserves (ReadLoop.step_tracks fit)
    (ReadLoop.start_tracks buffer head shared whole) reached
  cases phase : loop.phase with
  | stopped => exact Or.inr rfl
  | undefined => exact absurd phase tracks.defined
  | running dispatch =>
      by_cases idle : dispatch = .idle
      · exact Or.inl (by rw [idle])
      · obtain ⟨_, inside, size, _⟩ := tracks.current dispatch phase idle
        rw [only _ (tracks.boundary dispatch phase)] at size
        have bound := tracks.received_le
        omega

end Tegenaria.LibSftp
