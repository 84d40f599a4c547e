import Tegenaria.Foundation.Memory
import Tegenaria.LibStr.Binary

/-!
# SFTP packets

A packet on the wire is `<length><type><id>...`, where the big-endian length
field counts everything behind itself.  The two functions that look at the head
of a packet do not consume it.
-/

namespace Tegenaria.LibSftp

open Foundation
open Foundation.Bytes
open Foundation.Word
open LibStr

/-- The head fields that `decodePacketHead` extracts. -/
structure Head where
  size : Nat
  type : UInt8
  id : Nat
  deriving DecidableEq

/-- `SftpClient::packetComplete`: the bytes of the length field are assembled in
an `int`, and the sum wraps as two's complement arithmetic does. -/
def packetComplete (packet : Memory UInt8) (packetSize : Nat) (realSize : Int) :
    Bool :=
  packetSize > 4 ∧ realSize > 4 ∧
    let expectedSize := toI32 (ofBigEndian (packet.slice 0 4))
    realSize ≥ toI32 (expectedSize + 4)

/-- `SftpClient::decodePacketHead` -/
def decodePacketHead (packet : Memory UInt8) (realSize : Int) : Option Head :=
  if realSize ≥ 9 then
    let tmp := packet.slice 0 9
    (strPopDword tmp .bigEndian).bind fun size =>
    (strPopByte size.2).bind fun type =>
    (strPopDword type.2 .bigEndian).bind fun id =>
      some ⟨size.1, type.1, id.1⟩
  else
    none

/-- `SSH2_FXP` packets a well-behaved peer sends: the length field tells the
truth, the head is complete and the packet fits a buffer of 64 KiB. -/
structure Packet where
  bytes : List UInt8
  length_eq : bytes.length = 4 + ofBigEndian (bytes.take 4)
  head_complete : 9 ≤ bytes.length
  length_le : bytes.length ≤ 1024 * 64

namespace Packet

/-- The id field. -/
def idField (packet : Packet) : Nat := ofBigEndian ((packet.bytes.drop 5).take 4)

/-- The type field. -/
def typeField (packet : Packet) : UInt8 := packet.bytes.getD 4 0

end Packet

/-- Popping the three head fields is reading them at their offsets. -/
theorem decodePacketHead_fields {memory : Memory UInt8} {realSize : Int}
    (long : realSize ≥ 9) :
    decodePacketHead memory realSize =
      some ⟨ofBigEndian (memory.slice 0 4), memory 4, ofBigEndian (memory.slice 5 4)⟩ := by
  rw [decodePacketHead, if_pos long]
  dsimp only [strPopDword]
  rw [strPopWord_long .bigEndian (by simp) (by simp), Option.bind_some]
  rw [memory.slice_take 0 (by omega), memory.slice_drop 0 (by omega)]
  rw [show memory.slice (0 + 4) (9 - 4) = memory 4 :: memory.slice 5 4 from rfl,
    strPopByte_cons _ (by simp), Option.bind_some,
    strPopWord_long .bigEndian (by simp) (by simp), Option.bind_some,
    memory.slice_take 5 (by omega)]
  rfl

section OnePacket

variable {memory : Memory UInt8} {packet : Packet} {received : Nat}

/-- The head of a packet at the front of a buffer. -/
theorem decodePacketHead_packet (here : memory.slice 0 packet.bytes.length = packet.bytes)
    (whole : packet.bytes.length ≤ received) :
    decodePacketHead memory received =
      some ⟨packet.bytes.length - 4, packet.typeField, packet.idField⟩ := by
  have long := packet.head_complete
  have size : ofBigEndian (memory.slice 0 4) = packet.bytes.length - 4 := by
    rw [← memory.slice_take 0 (by omega : 4 ≤ packet.bytes.length), here]
    have := packet.length_eq
    omega
  have type : memory 4 = packet.typeField := by
    have cell : (memory.slice 0 packet.bytes.length)[4]? = some (memory (0 + 4)) :=
      memory.slice_getElem? (by omega)
    rw [here] at cell
    simp [Packet.typeField, cell]
  have id : memory.slice 5 4 = (packet.bytes.drop 5).take 4 := by
    rw [← here, memory.slice_drop 0 (by omega), memory.slice_take _ (by omega)]
  rw [decodePacketHead_fields (by omega), size, type, id]
  rfl

/-- A buffer that agrees with a packet as far as it was filled is complete
exactly when the whole packet is there. -/
theorem packetComplete_iff {capacity : Nat} (room : capacity > 4)
    (agree : memory.slice 0 (min received packet.bytes.length) =
      packet.bytes.take (min received packet.bytes.length)) :
    packetComplete memory capacity received ↔ packet.bytes.length ≤ received := by
  have short := packet.length_le
  have long := packet.head_complete
  have lengthField := packet.length_eq
  by_cases enough : received > 4
  · have field : memory.slice 0 4 = packet.bytes.take 4 := by
      have taken := congrArg (List.take 4) agree
      rwa [memory.slice_take _ (by omega), List.take_take,
        Nat.min_eq_left (by omega)] at taken
    have expected : toI32 (toI32 (ofBigEndian (memory.slice 0 4)) + 4) =
        packet.bytes.length := by
      rw [field]
      simp only [toI32]
      omega
    simp only [packetComplete, expected, decide_eq_true_eq]
    omega
  · simp only [packetComplete, decide_eq_true_eq]
    omega

end OnePacket

end Tegenaria.LibSftp
