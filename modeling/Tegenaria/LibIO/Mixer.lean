import Mathlib.Data.List.Basic
import Mathlib.Data.List.Induction
import Tegenaria.Foundation.Bytes
import Tegenaria.Foundation.Word

/-!
# Frames of the I/O mixer

`IOMixer` multiplexes many channels over one master connection.  `masterEncode`
turns one packet of a channel into a frame of the form
`<id><flags><size><data>` and `masterDecode` takes one frame off the master
input.  The three header fields occupy nine bytes; numbers are stored in the
little-endian memory image of a packed struct.

ZLib is loaded at run time and is a parameter here.
-/

namespace Tegenaria.LibIO

open Foundation.Word
open Foundation.Bytes

/-- The three functions imported from ZLib.  `uncompress room data` is what is
left in a destination buffer of `room` bytes. -/
structure ZLib where
  compress : List UInt8 → List UInt8
  uncompress : (room : Nat) → List UInt8 → List UInt8
  compressBound : Nat → Nat

/-- The documented behaviour of ZLib that the mixer relies on. -/
structure ZLib.Lawful (zlib : ZLib) : Prop where
  uncompress_compress : ∀ (room : Nat) (data : List UInt8),
    data.length ≤ room → zlib.uncompress room (zlib.compress data) = data
  compress_length_le : ∀ data : List UInt8,
    (zlib.compress data).length ≤ zlib.compressBound data.length
  compress_nonempty : ∀ data : List UInt8, 0 < (zlib.compress data).length
  compressBound_int : ∀ size ≤ 1024 * 64, zlib.compressBound size < 2 ^ 31

/-- The fields of `IOMixer` that the frame codec reads. -/
structure IOMixer where
  zlib : ZLib
  zlibLoaded : Bool
  masterEofSent : Bool
  masterEofReceived : Bool

namespace IOMixer

/-- `IOMIXER_MAX_PACKET` -/
def maxPacket : Nat := 1024 * 64

/-- `IOMIXER_FLAG_COMPRESSION_ON` -/
def flagCompressionOn : UInt8 := 1

/-- The state in which the constructor leaves a mixer. -/
def new (zlib : ZLib) (zlibLoaded : Bool) : IOMixer where
  zlib
  zlibLoaded
  masterEofSent := false
  masterEofReceived := false

/-- Memory image of the packed header `channelId_`, `flags_`, `dataSize_`. -/
def header (id : Int32) (flags : UInt8) (dataSize : Int) : List UInt8 :=
  littleEndian 4 (toU32 id.toInt) ++ [flags] ++ littleEndian 4 (toU32 dataSize)

/-- `IOMixer::masterWrite`: the bytes that reach the master output.  Nothing is
sent once the master EOF was. -/
def masterWrite (mixer : IOMixer) (buf : List UInt8) (bytesToWrite : Int) :
    List UInt8 :=
  if mixer.masterEofSent then [] else buf.take bytesToWrite.toNat

/-- ZLib's `compress` into a destination of `compSize` bytes; it fails when the
destination is too small. -/
def zlibCompress (mixer : IOMixer) (compSize : Int) (source : List UInt8) :
    Option (List UInt8) :=
  let compressed := mixer.zlib.compress source
  if (compressed.length : Int) ≤ compSize then some compressed else none

/-- `IOMixer::masterEncode`: the bytes written for one packet, or `none` when
the packet is refused. -/
def masterEncode (mixer : IOMixer) (id : Int32) (buf : List UInt8) (size : Int)
    (flags : UInt8) : Option (List UInt8) :=
  let packetSize : Int :=
    if mixer.zlibLoaded then mixer.zlib.compressBound size.toNat + 10
    else size + 10
  if size > 256 ∧ flags &&& flagCompressionOn ≠ 0 ∧ mixer.zlibLoaded then
    match mixer.zlibCompress (packetSize - 10) (buf.take size.toNat) with
    | none => none
    | some compressed =>
        let size := (compressed.length : Int)
        some (mixer.masterWrite (header id flags size ++ compressed) (size + 9))
  else if size > 0 then
    let flags := flags &&& ~~~flagCompressionOn
    some (mixer.masterWrite (header id flags size ++ buf.take size.toNat)
      (size + 9))
  else
    some (mixer.masterWrite (header id flags size) (size + 9))

/-- What one call of `masterDecode` returns through its pointers; `data` holds
the first `size` bytes of the caller's buffer. -/
structure Decoded where
  id : Int32
  size : Int
  data : List UInt8
  deriving DecidableEq

/-- `IOMixer::masterRead` on the bytes still to come from the remote side. -/
def masterRead (mixer : IOMixer) (bytesToRead : Int) (stream : List UInt8) :
    Option (List UInt8 × List UInt8) :=
  if mixer.masterEofReceived then none
  else readExact bytesToRead.toNat stream

/-- The `<id><flags><size>` head that `masterDecode` reads field by field. -/
structure Head where
  id : Int32
  flags : UInt8
  size : Int

/-- The three reads at the start of `masterDecode`. -/
def decodeHead (mixer : IOMixer) (stream : List UInt8) :
    Option (Head × List UInt8) :=
  (mixer.masterRead 4 stream).bind fun idRead =>
  (mixer.masterRead 1 idRead.2).bind fun flagsRead =>
  (mixer.masterRead 4 flagsRead.2).bind fun sizeRead =>
    some (⟨Int32.ofInt (ofLittleEndian idRead.1), flagsRead.1.headD 0,
      toI32 (ofLittleEndian sizeRead.1)⟩, sizeRead.2)

/-- The part of `masterDecode` that follows the head. -/
def decodeBody (mixer : IOMixer) (dataSize : Nat) (head : Head)
    (stream : List UInt8) : Option (Decoded × List UInt8) :=
  if (dataSize : Int) < head.size then
    none
  else if head.size > 0 then
    (mixer.masterRead head.size stream).bind fun payload =>
      if head.flags &&& flagCompressionOn ≠ 0 then
        if mixer.zlibLoaded then
          let data := mixer.zlib.uncompress dataSize payload.1
          some (⟨head.id, data.length, data⟩, payload.2)
        else
          none
      else
        some (⟨head.id, head.size, payload.1⟩, payload.2)
  else
    some (⟨head.id, head.size, []⟩, stream)

/-- `IOMixer::masterDecode`: take one frame off the master input. -/
def masterDecode (mixer : IOMixer) (dataSize : Nat) (stream : List UInt8) :
    Option (Decoded × List UInt8) :=
  (mixer.decodeHead stream).bind fun headRead =>
    mixer.decodeBody dataSize headRead.1 headRead.2

/-! ## Sequences of packets -/

/-- A packet of one channel: data, or the marker of size `-1` that `slaveLoop`
sends after a failed read. -/
inductive Packet where
  | data (id : Int32) (bytes : List UInt8)
  | eof (id : Int32)
  deriving DecidableEq

/-- A packet with the flags of the slave that sends it. -/
structure Frame where
  packet : Packet
  flags : UInt8

/-- The packet as the other side should see it. -/
def Packet.view : Packet → Decoded
  | .data id bytes => ⟨id, bytes.length, bytes⟩
  | .eof id => ⟨id, -1, []⟩

/-- Encode one packet the way `slaveLoop` does. -/
def encode (mixer : IOMixer) (frame : Frame) : Option (List UInt8) :=
  match frame.packet with
  | .data id bytes => mixer.masterEncode id bytes bytes.length frame.flags
  | .eof id => mixer.masterEncode id [] (-1) frame.flags

/-- The bytes emitted for a sequence of packets. -/
@[grind =] def encodeAll (mixer : IOMixer) : List Frame → Option (List UInt8)
  | [] => some []
  | frame :: frames =>
      (mixer.encode frame).bind fun bytes =>
      (mixer.encodeAll frames).bind fun rest => some (bytes ++ rest)

/-- Repeated calls of `masterDecode` with a buffer of `IOMIXER_MAX_PACKET`. -/
@[grind =] def decodeAll (mixer : IOMixer) :
    Nat → List UInt8 → Option (List Decoded × List UInt8)
  | 0, stream => some ([], stream)
  | count + 1, stream =>
      (mixer.masterDecode maxPacket stream).bind fun first =>
      (mixer.decodeAll count first.2).bind fun others =>
        some (first.1 :: others.1, others.2)

/-- The frames of a sequence decode to the same sequence, nothing left over. -/
def InSync (mixer : IOMixer) (frames : List Frame) : Prop :=
  ∃ stream, mixer.encodeAll frames = some stream ∧
    mixer.decodeAll frames.length stream =
      some (frames.map fun frame => frame.packet.view, [])

/-- The codec is in sync after every frame of the sequence, not only after the
last one. -/
def StaysInSync (mixer : IOMixer) (frames : List Frame) : Prop :=
  ∀ count, mixer.InSync (frames.take count)

/-- The packet fits the buffer of `slaveLoop`. -/
def Frame.Sized (frame : Frame) : Prop :=
  match frame.packet with
  | .data _ bytes => bytes.length ≤ maxPacket
  | .eof _ => True

/-- The frames the codec carries: data packets whose compressed form, where
compression applies, does not outgrow the decoder's buffer. -/
def Frame.Carried (mixer : IOMixer) (frame : Frame) : Prop :=
  match frame.packet with
  | .data _ bytes =>
      bytes.length > 256 ∧ frame.flags &&& flagCompressionOn ≠ 0 ∧
          mixer.zlibLoaded →
        (mixer.zlib.compress bytes).length ≤ maxPacket
  | .eof _ => False

/-! ## One frame -/

section OneFrame

variable {zlib : ZLib} {zlibLoaded : Bool}

@[simp] theorem header_length (id : Int32) (flags : UInt8) (dataSize : Int) :
    (header id flags dataSize).length = 9 := by
  simp [header]

theorem masterWrite_whole (buf : List UInt8) {bytesToWrite : Int}
    (whole : bytesToWrite = buf.length) :
    (new zlib zlibLoaded).masterWrite buf bytesToWrite = buf := by
  subst whole
  simp [masterWrite, new]

theorem masterRead_append (front : List UInt8) (count : Int)
    (length : front.length = count.toNat) (rest : List UInt8) :
    (new zlib zlibLoaded).masterRead count (front ++ rest) = some (front, rest) := by
  simp only [masterRead, new, Bool.false_eq_true, if_false]
  exact readExact_append length rest

theorem decode_id (id : Int32) :
    Int32.ofInt (ofLittleEndian (littleEndian 4 (toU32 id.toInt))) = id := by
  have lower := id.le_toInt
  have upper := id.toInt_lt
  rw [ofLittleEndian_littleEndian, ← Int32.toInt_inj, Int32.toInt_ofInt,
    Int.bmod_def]
  simp only [toU32, Int32.size]
  omega

theorem decode_size {size : Int} (lower : -2 ^ 31 ≤ size) (upper : size < 2 ^ 31) :
    toI32 (ofLittleEndian (littleEndian 4 (toU32 size))) = size := by
  rw [ofLittleEndian_littleEndian]
  simp only [toU32, toI32]
  omega

/-- Once the header was read, only the payload is left to decode. -/
theorem masterDecode_header (id : Int32) (flags : UInt8) {size : Int}
    (lower : -2 ^ 31 ≤ size) (upper : size < 2 ^ 31) (dataSize : Nat)
    (rest : List UInt8) :
    (new zlib zlibLoaded).masterDecode dataSize (header id flags size ++ rest) =
      (new zlib zlibLoaded).decodeBody dataSize ⟨id, flags, size⟩ rest := by
  have shape : header id flags size ++ rest = littleEndian 4 (toU32 id.toInt) ++
      ([flags] ++ (littleEndian 4 (toU32 size) ++ rest)) := by
    simp only [header, List.append_assoc]
  rw [shape, masterDecode, decodeHead, masterRead_append _ 4 (by simp),
    Option.bind_some, masterRead_append [flags] 1 rfl, Option.bind_some,
    masterRead_append _ 4 (by simp), Option.bind_some, decode_id,
    decode_size lower upper]
  rfl

/-- A frame that is sent raw decodes to its packet, whatever follows it. -/
theorem masterDecode_raw (id : Int32) {flags : UInt8}
    (plain : flags &&& flagCompressionOn = 0) {bytes : List UInt8}
    (sized : bytes.length ≤ maxPacket) (rest : List UInt8) :
    (new zlib zlibLoaded).masterDecode maxPacket
        (header id flags bytes.length ++ bytes ++ rest) =
      some (⟨id, bytes.length, bytes⟩, rest) := by
  simp only [maxPacket] at sized ⊢
  rw [List.append_assoc, masterDecode_header id flags (by omega) (by omega),
    decodeBody, if_neg (by simp only; omega)]
  cases bytes with
  | nil => simp
  | cons first others =>
      rw [if_pos (by simp only [List.length_cons]; omega),
        masterRead_append _ _ (by simp)]
      simp [plain]

/-- A compressed frame within the buffer limit decodes to the original data. -/
theorem masterDecode_compressed (lawful : zlib.Lawful) (id : Int32)
    {flags : UInt8} (compressed : flags &&& flagCompressionOn ≠ 0)
    {bytes : List UInt8} (sized : bytes.length ≤ maxPacket)
    (carried : (zlib.compress bytes).length ≤ maxPacket) (rest : List UInt8) :
    (new zlib true).masterDecode maxPacket
        (header id flags (zlib.compress bytes).length ++ zlib.compress bytes ++
          rest) =
      some (⟨id, bytes.length, bytes⟩, rest) := by
  have restored := lawful.uncompress_compress maxPacket bytes sized
  have nonempty := lawful.compress_nonempty bytes
  simp only [maxPacket] at carried restored ⊢
  rw [List.append_assoc, masterDecode_header id flags (by omega) (by omega),
    decodeBody, if_neg (by simp only; omega), if_pos (by simp only; omega),
    masterRead_append _ _ (by simp)]
  simp [compressed, restored, new]

theorem cleared_flags (flags : UInt8) :
    flags &&& ~~~flagCompressionOn &&& flagCompressionOn = 0 := by
  rw [UInt8.and_assoc, show ~~~flagCompressionOn &&& flagCompressionOn = 0 by decide,
    UInt8.and_zero]

/-- The branch of `masterEncode` that compresses. -/
theorem masterEncode_compressed (lawful : zlib.Lawful) (id : Int32)
    {flags : UInt8} {bytes : List UInt8} (long : bytes.length > 256)
    (compressed : flags &&& flagCompressionOn ≠ 0) :
    (new zlib true).masterEncode id bytes bytes.length flags =
      some (header id flags (zlib.compress bytes).length ++
        zlib.compress bytes) := by
  have fits := lawful.compress_length_le bytes
  have room : (new zlib true).zlibCompress
      (zlib.compressBound bytes.length + 10 - 10) bytes =
      some (zlib.compress bytes) := by
    exact if_pos (by simp only [new]; omega)
  have wanted : ((bytes.length : Int) > 256 ∧ flags &&& flagCompressionOn ≠ 0 ∧
      (new zlib true).zlibLoaded = true) := ⟨by omega, compressed, rfl⟩
  rw [masterEncode, if_pos wanted]
  simp only [new, Int.toNat_natCast, List.take_length, if_true] at room ⊢
  rw [room]
  exact congrArg some (masterWrite_whole _ (by simp; omega))

/-- The branches of `masterEncode` that send data as it is. -/
theorem masterEncode_plain (zlib : ZLib) (id : Int32) {flags : UInt8} {bytes : List UInt8}
    (plain : ¬(bytes.length > 256 ∧ flags &&& flagCompressionOn ≠ 0 ∧
      zlibLoaded)) :
    ∃ sent, (bytes = [] ∨ sent &&& flagCompressionOn = 0) ∧
      (new zlib zlibLoaded).masterEncode id bytes bytes.length flags =
        some (header id sent bytes.length ++ bytes) := by
  have unwanted : ¬((bytes.length : Int) > 256 ∧ flags &&& flagCompressionOn ≠ 0 ∧
      (new zlib zlibLoaded).zlibLoaded = true) := by
    rintro ⟨long, compressed, loaded⟩
    exact plain ⟨by omega, compressed, loaded⟩
  rw [masterEncode, if_neg unwanted]
  by_cases empty : bytes = []
  · subst empty
    refine ⟨flags, Or.inl rfl, ?_⟩
    simp only [List.length_nil, List.append_nil]
    rw [if_neg (by omega)]
    exact congrArg some (masterWrite_whole _ (by simp))
  · have positive := List.length_pos_iff.mpr empty
    refine ⟨flags &&& ~~~flagCompressionOn, Or.inr (cleared_flags flags), ?_⟩
    rw [if_pos (by omega), Int.toNat_natCast, List.take_length]
    exact congrArg some (masterWrite_whole _ (by simp; omega))

/-- A carried frame is decoded to its own packet, whatever follows it. -/
theorem decode_carried (lawful : zlib.Lawful) {frame : Frame}
    (sized : frame.Sized) (carried : frame.Carried (new zlib zlibLoaded)) :
    ∃ bytes, (new zlib zlibLoaded).encode frame = some bytes ∧
      ∀ rest, (new zlib zlibLoaded).masterDecode maxPacket (bytes ++ rest) =
        some (frame.packet.view, rest) := by
  obtain ⟨packet, flags⟩ := frame
  cases packet with
  | eof id => exact carried.elim
  | data id bytes =>
      by_cases wanted : bytes.length > 256 ∧ flags &&& flagCompressionOn ≠ 0 ∧
          zlibLoaded
      · obtain ⟨long, compressed, loaded⟩ := wanted
        subst loaded
        exact ⟨_, masterEncode_compressed lawful id long compressed,
          masterDecode_compressed lawful id compressed sized
            (carried ⟨long, compressed, rfl⟩)⟩
      · obtain ⟨sent, choice, encoded⟩ :=
          masterEncode_plain zlib id wanted
        refine ⟨_, encoded, fun rest => ?_⟩
        rcases choice with rfl | cleared
        · rw [List.append_nil]
          rw [masterDecode_header id sent (by simp) (by simp)]
          rfl
        · exact masterDecode_raw id cleared sized rest

/-- A frame that is not carried is emitted in a form that the decoder refuses:
the end marker lacks its last header byte, and a payload that grew beyond the
buffer is rejected by its size. -/
theorem decode_not_carried (lawful : zlib.Lawful) {frame : Frame}
    (sized : frame.Sized) (lost : ¬frame.Carried (new zlib zlibLoaded)) :
    ∃ bytes, (new zlib zlibLoaded).encode frame = some bytes ∧
      (new zlib zlibLoaded).masterDecode maxPacket bytes = none := by
  obtain ⟨packet, flags⟩ := frame
  cases packet with
  | eof id =>
      refine ⟨(header id flags (-1)).take 8, ?_, ?_⟩
      · simp [encode, masterEncode, masterWrite, new]
      · have shape : (header id flags (-1)).take 8 =
            littleEndian 4 (toU32 id.toInt) ++ ([flags] ++ [255, 255, 255]) := by
          rw [header, show littleEndian 4 (toU32 (-1)) = [255, 255, 255, 255] by decide,
            List.append_assoc, List.take_append, List.take_of_length_le (by simp)]
          simp
        rw [shape, masterDecode, decodeHead, masterRead_append _ 4 (by simp),
          Option.bind_some, masterRead_append [flags] 1 rfl, Option.bind_some]
        rfl
  | data id bytes =>
      simp only [Frame.Carried, new, Classical.not_imp, not_le] at lost
      obtain ⟨⟨long, compressed, rfl⟩, grown⟩ := lost
      have bound := lawful.compress_length_le bytes
      have small := lawful.compressBound_int bytes.length sized
      refine ⟨_, masterEncode_compressed lawful id long compressed, ?_⟩
      rw [masterDecode_header id flags (by omega) (by omega), decodeBody,
        if_pos (by simp only; omega)]

end OneFrame

/-! ## Whole streams -/

section Streams

variable {zlib : ZLib} {zlibLoaded : Bool}

/-- Carried frames are decoded in order, and the decoder stops exactly where
the bytes of the sequence end. -/
theorem decodeAll_carried (lawful : zlib.Lawful) {frames : List Frame}
    (sized : ∀ frame ∈ frames, frame.Sized)
    (carried : ∀ frame ∈ frames, frame.Carried (new zlib zlibLoaded)) :
    ∃ stream, (new zlib zlibLoaded).encodeAll frames = some stream ∧
      ∀ rest, (new zlib zlibLoaded).decodeAll frames.length (stream ++ rest) =
        some (frames.map fun frame => frame.packet.view, rest) := by
  induction frames with
  | nil => exact ⟨[], rfl, fun rest => rfl⟩
  | cons frame frames inductionHypothesis =>
      simp only [List.mem_cons, forall_eq_or_imp] at sized carried
      obtain ⟨bytes, encoded, decoded⟩ := decode_carried lawful sized.1 carried.1
      obtain ⟨stream, encodedAll, decodedAll⟩ :=
        inductionHypothesis sized.2 carried.2
      refine ⟨bytes ++ stream, ?_, fun rest => ?_⟩
      · rw [encodeAll, encoded, encodedAll]
        rfl
      · rw [List.length_cons, decodeAll, List.append_assoc, decoded,
          Option.bind_some, decodedAll]
        rfl

theorem encodeAll_append (mixer : IOMixer) (front back : List Frame) :
    mixer.encodeAll (front ++ back) =
      (mixer.encodeAll front).bind fun bytes =>
        (mixer.encodeAll back).bind fun rest => some (bytes ++ rest) := by
  induction front with
  | nil =>
      cases encoded : mixer.encodeAll back <;> simp [encodeAll, encoded]
  | cons frame front inductionHypothesis =>
      rw [List.cons_append, encodeAll, encodeAll, inductionHypothesis]
      cases mixer.encode frame <;> cases mixer.encodeAll front <;>
        cases mixer.encodeAll back <;> simp

theorem decodeAll_append (mixer : IOMixer) (front back : Nat)
    (stream : List UInt8) :
    mixer.decodeAll (front + back) stream =
      (mixer.decodeAll front stream).bind fun first =>
        (mixer.decodeAll back first.2).bind fun second =>
          some (first.1 ++ second.1, second.2) := by
  induction front generalizing stream with
  | zero =>
      rw [Nat.zero_add]
      cases decoded : mixer.decodeAll back stream <;> simp [decodeAll, decoded]
  | succ front inductionHypothesis =>
      rw [Nat.succ_add, decodeAll, decodeAll]
      cases mixer.masterDecode maxPacket stream with
      | none => rfl
      | some first =>
          rw [Option.bind_some, Option.bind_some, inductionHypothesis]
          cases mixer.decodeAll front first.2 with
          | none => rfl
          | some others =>
              cases decoded : mixer.decodeAll back others.2 <;> simp [decoded]

/-- The first frame that is not carried ends the synchronisation. -/
theorem not_inSync_lost (lawful : zlib.Lawful) {front : List Frame}
    {frame : Frame} (sized : ∀ other ∈ front ++ [frame], other.Sized)
    (carried : ∀ other ∈ front, other.Carried (new zlib zlibLoaded))
    (lost : ¬frame.Carried (new zlib zlibLoaded)) :
    ¬(new zlib zlibLoaded).InSync (front ++ [frame]) := by
  rintro ⟨stream, encodedAll, decodedAll⟩
  have sizedFront : ∀ other ∈ front, other.Sized := fun other mem =>
    sized other (List.mem_append_left _ mem)
  obtain ⟨before, encodedFront, decodedFront⟩ :=
    decodeAll_carried lawful sizedFront carried
  obtain ⟨bytes, encoded, refused⟩ :=
    decode_not_carried lawful (sized frame (by simp)) lost
  rw [encodeAll_append, encodedFront, Option.bind_some, encodeAll, encoded,
    Option.bind_some, encodeAll, Option.bind_some, List.append_nil,
    Option.bind_some, Option.some.injEq] at encodedAll
  subst encodedAll
  rw [List.length_append, decodeAll_append, decodedFront, Option.bind_some,
    List.length_singleton, decodeAll, refused, Option.bind_none,
    Option.bind_none] at decodedAll
  exact Option.some_ne_none _ decodedAll.symm

/-- The codec stays in sync exactly on the sequences of data packets whose
compressed form the decoder's buffer can hold. -/
theorem staysInSync_iff (lawful : zlib.Lawful) {frames : List Frame}
    (sized : ∀ frame ∈ frames, frame.Sized) :
    (new zlib zlibLoaded).StaysInSync frames ↔
      ∀ frame ∈ frames, frame.Carried (new zlib zlibLoaded) := by
  constructor
  · intro inSync
    induction frames using List.reverseRecOn with
    | nil => simp
    | append_singleton front frame inductionHypothesis =>
        have frontCarried : ∀ other ∈ front,
            other.Carried (new zlib zlibLoaded) := by
          refine inductionHypothesis
            (fun other mem => sized other (List.mem_append_left _ mem))
            fun count => ?_
          have shorter := inSync (min count front.length)
          rw [List.take_append_of_le_length (Nat.min_le_right _ _),
            ← List.take_take, List.take_length] at shorter
          exact shorter
        intro other mem
        rcases List.mem_append.mp mem with inFront | last
        · exact frontCarried other inFront
        · rw [List.mem_singleton.mp last]
          by_contra lost
          refine not_inSync_lost lawful sized frontCarried lost ?_
          have whole := inSync (front ++ [frame]).length
          rwa [List.take_length] at whole
  · intro carried count
    obtain ⟨stream, encodedAll, decodedAll⟩ := decodeAll_carried lawful
      (fun frame mem => sized frame (List.mem_of_mem_take mem))
      (fun frame mem => carried frame (List.mem_of_mem_take mem))
    have decoded := decodedAll []
    rw [List.append_nil] at decoded
    exact ⟨stream, encodedAll, decoded⟩

/-- A stand-in for ZLib that puts one byte in front of the data. -/
def tagged : ZLib where
  compress data := 120 :: data
  uncompress room data := data.tail.take room
  compressBound size := size + 13

theorem tagged_lawful : tagged.Lawful where
  uncompress_compress room data fits := by
    simp [tagged, List.take_of_length_le fits]
  compress_length_le data := by simp [tagged]
  compress_nonempty data := by simp [tagged]
  compressBound_int size small := by simp only [tagged]; omega

/-- A raw packet followed by a compressed one. -/
def mixedFrames : List Frame :=
  [⟨.data 7 [1, 2], 0⟩, ⟨.data 3 (List.replicate 300 9), 1⟩]

theorem mixedFrames_sized : ∀ frame ∈ mixedFrames, frame.Sized := by
  simp only [mixedFrames, List.mem_cons, List.not_mem_nil, or_false, forall_eq_or_imp,
    forall_eq, Frame.Sized, maxPacket, List.length_replicate]
  decide

theorem mixedFrames_carried :
    ∀ frame ∈ mixedFrames, frame.Carried (new tagged true) := by
  simp only [mixedFrames, List.mem_cons, List.not_mem_nil, or_false, forall_eq_or_imp,
    forall_eq, Frame.Carried, maxPacket, tagged, new, List.length_cons,
    List.length_replicate]
  decide

theorem mixedFrames_staysInSync : (new tagged true).StaysInSync mixedFrames :=
  (staysInSync_iff tagged_lawful mixedFrames_sized).mpr mixedFrames_carried

/-- The end marker of channel 1 leaves only eight bytes on the wire, so the
decoder waits for the rest of its header. -/
theorem eof_not_inSync : ¬(new tagged true).InSync [⟨.eof 1, 0⟩] := by
  rintro ⟨stream, encoded, decoded⟩
  have emitted : stream = [1, 0, 0, 0, 0, 255, 255, 255] := by
    rw [← Option.some.injEq, ← encoded]
    decide
  subst emitted
  revert decoded
  decide

end Streams

end IOMixer

end Tegenaria.LibIO
