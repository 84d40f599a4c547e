import Tegenaria.Foundation.Responder
import Tegenaria.LibStr.Binary
import Mathlib.Data.List.TakeWhile

/-!
# Round trip of binary fields

The readers of `Binary.cpp` walk over a buffer with a pointer and the number of
bytes that are left.  What the `StrPush*` functions wrote is read back by them and
by the readers that take bytes off a string, as long as no length leaves the range
of an `int`, and the two kinds of readers cannot be told apart.
-/

namespace Tegenaria.LibStr

open Foundation
open Foundation.Bytes
open Foundation.Word

/-! ## Readers over a pointer -/

/-- The memory from `it` on, and the bytes that are left. -/
structure Cursor where
  bytes : List UInt8
  bytesLeft : Int
  deriving DecidableEq

namespace Cursor

/-- The cursor at the begin of a buffer. -/
def ofBuffer (buf : List UInt8) : Cursor := { bytes := buf, bytesLeft := toI32 buf.length }

def advance (cursor : Cursor) (count : Nat) : Cursor :=
  { bytes := cursor.bytes.drop count, bytesLeft := cursor.bytesLeft - count }

/-- Common body of the word pops. -/
def popWord (width : Nat) (cursor : Cursor) (flags : ByteOrder) : Option (Nat × Cursor) :=
  if cursor.bytesLeft < width then none
  else some (flags.decode (cursor.bytes.take width), cursor.advance width)

/-- `StrPopQword` on a cursor. -/
def strPopQword := popWord 8

/-- `StrPopDword` on a cursor. -/
def strPopDword := popWord 4

/-- `StrPopByte` on a cursor. -/
def strPopByte (cursor : Cursor) : Option (UInt8 × Cursor) :=
  if cursor.bytesLeft < 1 then none
  else some (cursor.bytes.headD 0, cursor.advance 1)

/-- `StrPopRaw` on a cursor, for sizes that are not negative. -/
def strPopRaw (rawSize : Nat) (cursor : Cursor) : Option (List UInt8 × Cursor) :=
  if (rawSize : Int) > cursor.bytesLeft then none
  else some (cursor.bytes.take rawSize, cursor.advance rawSize)

/-- `StrPopString`: the characters before the first zero and the length.  The size
in front of a string that is cut off has been popped. -/
def strPopString (cursor : Cursor) : Cursor × Option (List UInt8 × Int) :=
  match cursor.strPopDword .littleEndian with
  | none => (cursor, none)
  | some (len, next) =>
      if toU32 next.bytesLeft < len then (next, none)
      else
        let str := if len > 0 then (next.bytes.take (len - 1)).takeWhile (· ≠ 0) else []
        (next.advance len, some (str, toI32 len))

end Cursor

/-- `StrPushString` -/
def strPushString (buf str : List UInt8) : Option (List UInt8) :=
  let len := toI32 (str.length + 1 : Nat)
  (strPushDword buf (toU32 len) .littleEndian).bind fun sized =>
    strPushRaw sized (str ++ [0]) len

/-! ## Typed fields -/

/-- A field to be popped by either kind of reader. -/
inductive Kind where
  | byte
  | dword (flags : ByteOrder)
  | qword (flags : ByteOrder)
  | raw (size : Nat)

inductive Value where
  | byte (value : UInt8)
  | dword (value : UInt32)
  | qword (value : UInt64)
  | raw (block : List UInt8)
  deriving DecidableEq

/-- A field to be pushed.  The length of a block is an `int`. -/
inductive Field where
  | byte (value : UInt8)
  | dword (value : UInt32) (flags : ByteOrder)
  | qword (value : UInt64) (flags : ByteOrder)
  | raw (block : List UInt8) (known : block.length < 2 ^ 31)

/-- A field or a C string to be pushed. -/
inductive Entry where
  | field (field : Field)
  | string (str : List UInt8) (plain : 0 ∉ str)

/-- A field or a C string to be popped. -/
inductive Request where
  | field (kind : Kind)
  | string

inductive Answer where
  | field (value : Value)
  | string (str : List UInt8) (len : Int)
  deriving DecidableEq

/-- The state after a pop that may have failed. -/
def answered {State Popped : Type} (state : State) (wrap : Popped → Value) :
    Option (Popped × State) → State × Option Value
  | none => (state, none)
  | some (value, next) => (next, some (wrap value))

/-- The readers that take bytes off a string. -/
def stringReader : Responder (List UInt8) Kind (Option Value) where
  respond buf
    | .byte => answered buf .byte (strPopByte buf)
    | .dword flags => answered buf (.dword ∘ UInt32.ofNat) (strPopDword buf flags)
    | .qword flags => answered buf (.qword ∘ UInt64.ofNat) (strPopQword buf flags)
    | .raw size => answered buf .raw (strPopRaw size buf)

/-- The readers that move a pointer. -/
def cursorReader : Responder Cursor Kind (Option Value) where
  respond cursor
    | .byte => answered cursor .byte cursor.strPopByte
    | .dword flags => answered cursor (.dword ∘ UInt32.ofNat) (cursor.strPopDword flags)
    | .qword flags => answered cursor (.qword ∘ UInt64.ofNat) (cursor.strPopQword flags)
    | .raw size => answered cursor .raw (cursor.strPopRaw size)

/-- The readers that move a pointer, strings included. -/
def entryReader : Responder Cursor Request (Option Answer) where
  respond cursor
    | .field kind =>
        let (next, value) := cursorReader.respond cursor kind
        (next, value.map .field)
    | .string =>
        let (next, popped) := cursor.strPopString
        (next, popped.map fun pair => .string pair.1 pair.2)

namespace Field

@[grind =] def push (buf : List UInt8) : Field → Option (List UInt8)
  | .byte value => strPushByte buf value
  | .dword value flags => strPushDword buf value.toNat flags
  | .qword value flags => strPushQword buf value.toNat flags
  | .raw block _ => strPushRaw buf block (toI32 block.length)

def kind : Field → Kind
  | .byte _ => .byte
  | .dword _ flags => .dword flags
  | .qword _ flags => .qword flags
  | .raw block _ => .raw block.length

def value : Field → Value
  | .byte value => .byte value
  | .dword value _ => .dword value
  | .qword value _ => .qword value
  | .raw block _ => .raw block

end Field

namespace Entry

@[grind =] def push (buf : List UInt8) : Entry → Option (List UInt8)
  | .field item => item.push buf
  | .string str _ => strPushString buf str

/-- Pushes all entries in order. -/
@[grind =] def pushAll : (buf : List UInt8) → List Entry → Option (List UInt8)
  | buf, [] => some buf
  | buf, entry :: entries => (entry.push buf).bind fun after => pushAll after entries

def request : Entry → Request
  | .field item => .field item.kind
  | .string _ _ => .string

/-- The answer that gives the entry back.  The length of a string counts the zero. -/
def answer : Entry → Answer
  | .field item => .field item.value
  | .string str _ => .string str (str.length + 1)

end Entry

/-- What is pushed behind a string is popped again, field by field and to its end. -/
def RoundTrip (before : List UInt8) (entries : List Entry) : Prop :=
  ∃ pushed, Entry.pushAll before entries = some (before ++ pushed) ∧
    entryReader.run (.ofBuffer pushed) (entries.map Entry.request) =
      ({ bytes := [], bytesLeft := 0 }, entries.map fun entry => some entry.answer) ∧
    ∀ fields : List Field, entries = fields.map .field →
      stringReader.run pushed (fields.map Field.kind) =
        ([], fields.map fun field => some field.value)

/-! ## Agreement of the readers -/

namespace Kind

/-- The bytes that a field takes. -/
def size : Kind → Nat
  | .byte => 1
  | .dword _ => 4
  | .qword _ => 8
  | .raw size => size

/-- The value of a field that takes the given bytes. -/
def read (bytes : List UInt8) : Kind → Value
  | .byte => .byte (bytes.headD 0)
  | .dword flags => .dword (UInt32.ofNat (flags.decode bytes))
  | .qword flags => .qword (UInt64.ofNat (flags.decode bytes))
  | .raw _ => .raw bytes

end Kind

theorem headD_take_one (bytes : List UInt8) : (bytes.take 1).headD 0 = bytes.headD 0 := by
  cases bytes with
  | nil => rfl
  | cons byte rest => rfl

theorem answered_ite {State Popped : Type} (state : State) (wrap : Popped → Value) (short : Prop)
    [Decidable short] (value : Popped) (next : State) :
    answered state wrap (if short then none else some (value, next)) =
      if short then (state, none) else (next, some (wrap value)) := by
  split
  · rfl
  · rfl

/-- All pops from a string have one shape. -/
theorem stringReader_respond (buf : List UInt8) (kind : Kind) :
    stringReader.respond buf kind =
      if toI32 buf.length < kind.size then (buf, none)
      else ((buf.drop kind.size).take ((toI32 buf.length).toNat - kind.size),
        some (kind.read (buf.take kind.size))) := by
  cases kind with
  | byte =>
      simp only [stringReader, strPopByte, Kind.size, Kind.read, headD_take_one]
      exact answered_ite ..
  | dword flags =>
      simp only [stringReader, strPopDword, strPopWord, Kind.size, Kind.read]
      exact answered_ite ..
  | qword flags =>
      simp only [stringReader, strPopQword, strPopWord, Kind.size, Kind.read]
      exact answered_ite ..
  | raw size =>
      simp only [stringReader, strPopRaw, Kind.size, Kind.read]
      exact answered_ite ..

/-- All pops from a cursor have one shape. -/
theorem cursorReader_respond (cursor : Cursor) (kind : Kind) :
    cursorReader.respond cursor kind =
      if cursor.bytesLeft < kind.size then (cursor, none)
      else (cursor.advance kind.size, some (kind.read (cursor.bytes.take kind.size))) := by
  cases kind with
  | byte =>
      simp only [cursorReader, Cursor.strPopByte, Kind.size, Kind.read, headD_take_one]
      exact answered_ite ..
  | dword flags => exact answered_ite ..
  | qword flags => exact answered_ite ..
  | raw size => exact answered_ite ..

/-- The cursor tells the length of the string and stands in front of its bytes. -/
structure SameBytes (buf : List UInt8) (cursor : Cursor) : Prop where
  left : cursor.bytesLeft = toI32 buf.length
  bytes : buf.take cursor.bytesLeft.toNat = cursor.bytes.take cursor.bytesLeft.toNat

theorem toI32_le {value : Int} (nonneg : 0 ≤ value) : toI32 value ≤ value := by
  simp only [toI32]
  omega

theorem readers_follow (buf : List UInt8) (cursor : Cursor) (kind : Kind)
    (same : SameBytes buf cursor) :
    SameBytes (stringReader.respond buf kind).1 (cursorReader.respond cursor kind).1 ∧
      (stringReader.respond buf kind).2 = (cursorReader.respond cursor kind).2 := by
  obtain ⟨left, bytes⟩ := same
  rw [stringReader_respond, cursorReader_respond, ← left]
  by_cases short : cursor.bytesLeft < kind.size
  · rw [if_pos short, if_pos short]
    exact ⟨⟨left, bytes⟩, rfl⟩
  · rw [if_neg short, if_neg short]
    have enough : kind.size ≤ cursor.bytesLeft.toNat := by omega
    have inside : cursor.bytesLeft ≤ buf.length := by
      rw [left]
      exact toI32_le (Int.natCast_nonneg _)
    have bounded : cursor.bytesLeft < 2 ^ 31 := by
      rw [left]
      exact toI32_upper _
    have length : ((buf.drop kind.size).take (cursor.bytesLeft.toNat - kind.size)).length =
        cursor.bytesLeft.toNat - kind.size := by
      rw [List.length_take, List.length_drop]
      omega
    have remaining : (cursor.bytesLeft - kind.size).toNat = cursor.bytesLeft.toNat - kind.size := by
      omega
    refine ⟨⟨?_, ?_⟩, ?_⟩
    · rw [length, toI32_of_fits (by omega) (by omega)]
      simp only [Cursor.advance]
      omega
    · simp only [Cursor.advance]
      rw [remaining, List.take_take, Nat.min_self, ← List.drop_take, ← List.drop_take, bytes]
    · have front := congrArg (List.take kind.size) bytes
      rw [List.take_take, List.take_take, Nat.min_eq_left enough] at front
      exact congrArg (some ∘ fun taken => kind.read taken) front

theorem sameBytes_start (buf : List UInt8) : SameBytes buf (.ofBuffer buf) := ⟨rfl, rfl⟩

/-! ## Pushing -/

/-- The bytes of a field. -/
@[grind =] def Field.encode : Field → List UInt8
  | .byte value => [value]
  | .dword value flags => flags.encode 4 value.toNat
  | .qword value flags => flags.encode 8 value.toNat
  | .raw block _ => block

namespace Entry

/-- The bytes of an entry. -/
@[grind =] def encode : Entry → List UInt8
  | .field item => item.encode
  | .string str _ => littleEndian 4 (str.length + 1) ++ (str ++ [0])

def encodeAll (entries : List Entry) : List UInt8 := entries.flatMap encode

theorem encodeAll_cons (entry : Entry) (entries : List Entry) :
    encodeAll (entry :: entries) = entry.encode ++ encodeAll entries := rfl

/-- The entry can be pushed onto a string of the given length.  A byte always can,
and so can an empty block. -/
def FitsBehind (size : Nat) : Entry → Prop
  | .field (.byte _) => True
  | entry => entry.encode = [] ∨ size + entry.encode.length < 2 ^ 31

/-- All entries can be pushed in order. -/
def Fits : (size : Nat) → List Entry → Prop
  | _, [] => True
  | size, entry :: entries => entry.FitsBehind size ∧ Fits (size + entry.encode.length) entries

end Entry

namespace Entry

variable {size : Nat}

theorem fitsBehind_dword {value : UInt32} {flags : ByteOrder} :
    FitsBehind size (.field (.dword value flags)) ↔ size + 4 < 2 ^ 31 := by
  have nonempty : flags.encode 4 value.toNat ≠ [] := by
    rw [← List.length_pos_iff_ne_nil, ByteOrder.encode_length]
    decide
  simp only [FitsBehind, encode, Field.encode, ByteOrder.encode_length, nonempty, false_or]

theorem fitsBehind_qword {value : UInt64} {flags : ByteOrder} :
    FitsBehind size (.field (.qword value flags)) ↔ size + 8 < 2 ^ 31 := by
  have nonempty : flags.encode 8 value.toNat ≠ [] := by
    rw [← List.length_pos_iff_ne_nil, ByteOrder.encode_length]
    decide
  simp only [FitsBehind, encode, Field.encode, ByteOrder.encode_length, nonempty, false_or]

theorem fitsBehind_raw {block : List UInt8} {known : block.length < 2 ^ 31} :
    FitsBehind size (.field (.raw block known)) ↔ block = [] ∨ size + block.length < 2 ^ 31 := by
  simp only [FitsBehind, encode, Field.encode]

theorem fitsBehind_string {str : List UInt8} {plain : 0 ∉ str} :
    FitsBehind size (.string str plain) ↔ size + (4 + (str.length + 1)) < 2 ^ 31 := by
  simp [FitsBehind, encode]

end Entry

section Pushing

variable {buf after : List UInt8}

theorem toU32_toI32 {size : Nat} (small : size < 2 ^ 31) : toU32 (toI32 size) = size := by
  rw [toI32_of_fits (by omega) (by omega), toU32_natCast (by omega)]

theorem Field.push_fits (field : Field) (fits : (Entry.field field).FitsBehind buf.length) :
    field.push buf = some (buf ++ field.encode) := by
  cases field with
  | byte value => rfl
  | dword value flags =>
      rw [Field.push, Field.encode, strPushDword, strPushWord_short (Entry.fitsBehind_dword.mp fits)]
  | qword value flags =>
      rw [Field.push, Field.encode, strPushQword, strPushWord_short (Entry.fitsBehind_qword.mp fits)]
  | raw block known =>
      rcases Entry.fitsBehind_raw.mp fits with rfl | short
      · rw [Field.push, Field.encode, List.length_nil, Int.natCast_zero,
          toI32_of_fits (by decide) (by decide), strPushRaw, if_neg (by decide), List.append_nil]
      · rw [Field.push, Field.encode, strPushRaw_short short]

theorem strPushString_fits {str : List UInt8} (short : buf.length + (4 + (str.length + 1)) < 2 ^ 31) :
    strPushString buf str = some (buf ++ (littleEndian 4 (str.length + 1) ++ (str ++ [0]))) := by
  have sized : strPushDword buf (str.length + 1) .littleEndian =
      some (buf ++ littleEndian 4 (str.length + 1)) := strPushWord_short (by omega) _ _
  have raw : strPushRaw (buf ++ littleEndian 4 (str.length + 1)) (str ++ [0])
      (toI32 (str ++ [0]).length) =
        some (buf ++ littleEndian 4 (str.length + 1) ++ (str ++ [0])) :=
    strPushRaw_short (by simp; omega)
  rw [List.length_append, List.length_singleton] at raw
  simp only [strPushString]
  rw [toU32_toI32 (by omega), sized, Option.bind_some, raw, List.append_assoc]

theorem Entry.push_fits (entry : Entry) (fits : entry.FitsBehind buf.length) :
    entry.push buf = some (buf ++ entry.encode) := by
  cases entry with
  | field item => exact item.push_fits fits
  | string str plain =>
      rw [Entry.push, Entry.encode, strPushString_fits (Entry.fitsBehind_string.mp fits)]

theorem Entry.pushAll_fits {entries : List Entry} (fits : Fits buf.length entries) :
    pushAll buf entries = some (buf ++ encodeAll entries) := by
  induction entries generalizing buf with
  | nil => simp [pushAll, encodeAll]
  | cons entry entries ih =>
      rw [pushAll, entry.push_fits fits.1, Option.bind_some, ih (by simpa using fits.2)]
      simp [encodeAll]

/-- A length that is whole as an `int` leaves room for the field. -/
theorem fits_of_whole {size width : Nat} (small : width < 2 ^ 31) (whole : size ≤ (toI32 size).toNat)
    (room : 0 ≤ toI32 (toI32 size + width)) : size + width < 2 ^ 31 := by
  simp only [toI32] at whole room
  omega

theorem strPushWord_length {width : Nat} (small : width < 2 ^ 31) {value : Nat} {flags : ByteOrder}
    (pushed : strPushWord width buf value flags = some after) :
    after.length ≤ buf.length + width ∧
      (after.length = buf.length + width → buf.length + width < 2 ^ 31) := by
  simp only [strPushWord] at pushed
  split at pushed
  · cases pushed
  · next room =>
      rw [not_or, Int.not_lt, Int.not_lt] at room
      rw [← Option.some.inj pushed, List.length_append, List.length_take, ByteOrder.encode_length]
      constructor
      · omega
      · intro whole
        exact fits_of_whole small (by omega) room.2

theorem strPushRaw_length {raw : List UInt8} {rawSize : Nat} (small : rawSize < 2 ^ 31)
    (positive : 0 < rawSize) (pushed : strPushRaw buf raw rawSize = some after) :
    after.length ≤ buf.length + min rawSize raw.length ∧
      (after.length = buf.length + rawSize → buf.length + rawSize < 2 ^ 31) := by
  simp only [strPushRaw, if_pos (show (rawSize : Int) > 0 by omega)] at pushed
  split at pushed
  · cases pushed
  · next room =>
      rw [not_or, Int.not_lt, Int.not_lt] at room
      rw [← Option.some.inj pushed, List.length_append, List.length_take, List.length_take, Int.toNat_natCast]
      constructor
      · omega
      · intro whole
        exact fits_of_whole small (by omega) room.2

/-- A push adds no more bytes than the field has, and all of them only where the
field fits. -/
theorem Entry.push_length (entry : Entry) (pushed : entry.push buf = some after) :
    after.length ≤ buf.length + entry.encode.length ∧
      (after.length = buf.length + entry.encode.length → entry.FitsBehind buf.length) := by
  cases entry with
  | field item =>
      cases item with
      | byte value =>
          cases pushed
          simp [encode, Field.encode, FitsBehind]
      | dword value flags =>
          rw [push, Field.push, strPushDword] at pushed
          rw [encode, Field.encode, ByteOrder.encode_length, fitsBehind_dword]
          exact strPushWord_length (by decide) pushed
      | qword value flags =>
          rw [push, Field.push, strPushQword] at pushed
          rw [encode, Field.encode, ByteOrder.encode_length, fitsBehind_qword]
          exact strPushWord_length (by decide) pushed
      | raw block known =>
          rw [push, Field.push, toI32_of_fits (by omega) (by omega)] at pushed
          rw [encode, Field.encode, fitsBehind_raw]
          rcases Nat.eq_zero_or_pos block.length with empty | positive
          · rw [empty, Int.natCast_zero, strPushRaw, if_neg (by decide)] at pushed
            rw [← Option.some.inj pushed]
            exact ⟨Nat.le_add_right .., fun _ => .inl (List.length_eq_zero_iff.mp empty)⟩
          · obtain ⟨bound, fits⟩ := strPushRaw_length known positive pushed
            rw [Nat.min_self] at bound
            exact ⟨bound, fun whole => .inr (fits whole)⟩
  | string str plain =>
      rw [push] at pushed
      simp only [strPushString, Option.bind_eq_some_iff] at pushed
      obtain ⟨sized, dword, raw⟩ := pushed
      rw [strPushDword] at dword
      obtain ⟨sizedBound, -⟩ := strPushWord_length (by decide) dword
      rw [fitsBehind_string, encode, List.length_append, List.length_append, littleEndian_length,
        List.length_singleton]
      by_cases positive : toI32 (str.length + 1 : Nat) > 0
      · obtain ⟨rawSize, sizeEq⟩ := Int.eq_ofNat_of_zero_le (Int.le_of_lt positive)
        have upper := toI32_upper (str.length + 1 : Nat)
        have shorter := toI32_le (Int.natCast_nonneg (str.length + 1))
        rw [sizeEq] at raw positive upper shorter
        obtain ⟨rawBound, fits⟩ := strPushRaw_length (by omega) (by omega) raw
        rw [List.length_append, List.length_singleton] at rawBound
        constructor
        · omega
        · intro whole
          have := fits (by omega)
          omega
      · rw [strPushRaw, if_neg positive] at raw
        rw [← Option.some.inj raw]
        omega

theorem Entry.pushAll_length {entries : List Entry} (pushed : pushAll buf entries = some after) :
    after.length ≤ buf.length + (encodeAll entries).length ∧
      (after.length = buf.length + (encodeAll entries).length → Fits buf.length entries) := by
  induction entries generalizing buf with
  | nil =>
      cases pushed
      simp [encodeAll, Fits]
  | cons entry entries ih =>
      rw [pushAll, Option.bind_eq_some_iff] at pushed
      obtain ⟨middle, first, rest⟩ := pushed
      obtain ⟨firstBound, firstFits⟩ := entry.push_length first
      obtain ⟨restBound, restFits⟩ := ih rest
      rw [encodeAll_cons, List.length_append]
      constructor
      · omega
      · intro whole
        have middleWhole : middle.length = buf.length + entry.encode.length := by omega
        refine ⟨firstFits middleWhole, ?_⟩
        rw [← middleWhole]
        exact restFits (by omega)

end Pushing

/-! ## Popping -/

section Popping

variable {rest : List UInt8}

theorem Field.kind_size (field : Field) : field.kind.size = field.encode.length := by
  cases field with
  | byte value => rfl
  | dword value flags => simp [kind, Kind.size, encode]
  | qword value flags => simp [kind, Kind.size, encode]
  | raw block known => rfl

theorem Field.read_encode (field : Field) : field.kind.read field.encode = field.value := by
  cases field with
  | byte value => rfl
  | dword value flags =>
      simp only [kind, Kind.read, encode, Field.value, ByteOrder.decode_encode]
      have small : value.toNat < 256 ^ 4 := value.toNat_lt
      rw [Nat.mod_eq_of_lt small, UInt32.ofNat_toNat]
  | qword value flags =>
      simp only [kind, Kind.read, encode, Field.value, ByteOrder.decode_encode]
      have small : value.toNat < 256 ^ 8 := value.toNat_lt
      rw [Nat.mod_eq_of_lt small, UInt64.ofNat_toNat]
  | raw block known => rfl

theorem stringReader_encode (field : Field) (small : (field.encode ++ rest).length < 2 ^ 31) :
    stringReader.respond (field.encode ++ rest) field.kind = (rest, some field.value) := by
  have long : ¬((field.encode ++ rest).length : Int) < field.encode.length := by
    rw [List.length_append]
    omega
  rw [stringReader_respond, field.kind_size, toI32_length small, if_neg long, take_rest,
    List.take_left, List.drop_left, field.read_encode]

theorem stringReader_encodeAll {fields : List Field}
    (small : (Entry.encodeAll (fields.map .field)).length < 2 ^ 31) :
    stringReader.run (Entry.encodeAll (fields.map .field)) (fields.map Field.kind) =
      ([], fields.map fun field => some field.value) := by
  induction fields with
  | nil => rfl
  | cons field fields ih =>
      rw [List.map_cons, Entry.encodeAll_cons, Entry.encode] at small ⊢
      rw [List.map_cons, Responder.run_cons, stringReader_encode field small]
      rw [List.length_append] at small
      simp [ih (by omega)]

/-- The cursor at the begin of a buffer that the `int` can tell. -/
def Cursor.exact (bytes : List UInt8) : Cursor := { bytes := bytes, bytesLeft := bytes.length }

theorem Cursor.exact_advance (front rest : List UInt8) :
    (exact (front ++ rest)).advance front.length = exact rest := by
  simp only [exact, advance, List.drop_left, List.length_append, Cursor.mk.injEq, true_and]
  omega

theorem cursorReader_encode (field : Field) :
    cursorReader.respond (.exact (field.encode ++ rest)) field.kind =
      (.exact rest, some field.value) := by
  have long : ¬((field.encode ++ rest).length : Int) < field.encode.length := by
    rw [List.length_append]
    omega
  rw [cursorReader_respond, field.kind_size, Cursor.exact_advance, Cursor.exact, if_neg long,
    List.take_left, field.read_encode]

theorem takeWhile_plain {str : List UInt8} (plain : 0 ∉ str) : str.takeWhile (· ≠ 0) = str := by
  rw [List.takeWhile_eq_self_iff]
  intro byte member
  rw [decide_eq_true_iff]
  rintro rfl
  exact plain member

theorem Cursor.strPopDword_littleEndian {size : Nat} (small : size < 2 ^ 32) :
    (exact (littleEndian 4 size ++ rest)).strPopDword .littleEndian = some (size, exact rest) := by
  have long : ¬((littleEndian 4 size ++ rest).length : Int) < (4 : Nat) := by
    rw [List.length_append, littleEndian_length]
    omega
  have front : (littleEndian 4 size ++ rest).take 4 = littleEndian 4 size :=
    List.take_left' (littleEndian_length 4 size)
  have back : (exact (littleEndian 4 size ++ rest)).advance 4 = exact rest := by
    have advanced := exact_advance (littleEndian 4 size) rest
    rwa [littleEndian_length] at advanced
  have fits : size < 256 ^ 4 := small
  rw [strPopDword, popWord, back, exact, if_neg long, front]
  simp only [ByteOrder.decode, ofLittleEndian_littleEndian, Nat.mod_eq_of_lt fits]

theorem strPopString_encode {str : List UInt8} (plain : 0 ∉ str) (small : str.length + 1 < 2 ^ 31)
    (room : rest.length < 2 ^ 31) :
    (Cursor.exact (littleEndian 4 (str.length + 1) ++ (str ++ [0] ++ rest))).strPopString =
      (.exact rest, some (str, (str.length + 1 : Int))) := by
  have length : (str ++ [0] ++ rest).length = str.length + 1 + rest.length := by
    rw [List.length_append, List.length_append, List.length_singleton]
  have enough : ¬toU32 (Cursor.exact (str ++ [0] ++ rest)).bytesLeft < str.length + 1 := by
    rw [Cursor.exact, length, toU32_natCast (by omega)]
    omega
  have text : ((str ++ [0] ++ rest).take (str.length + 1 - 1)).takeWhile (· ≠ 0) = str := by
    rw [Nat.add_sub_cancel, List.append_assoc, List.take_left, takeWhile_plain plain]
  have advanced : (Cursor.exact (str ++ [0] ++ rest)).advance (str.length + 1) = .exact rest := by
    have whole := Cursor.exact_advance (str ++ [0]) rest
    rwa [List.length_append, List.length_singleton] at whole
  rw [Cursor.strPopString, Cursor.strPopDword_littleEndian (by omega)]
  simp only [if_neg enough, if_pos (Nat.succ_pos _), advanced]
  rw [toI32_of_fits (by omega) (by omega)]
  exact congrArg (fun found => (Cursor.exact rest, some (found, ((str.length + 1 : Nat) : Int)))) text

theorem entryReader_encode (entry : Entry) (small : (entry.encode ++ rest).length < 2 ^ 31) :
    entryReader.respond (.exact (entry.encode ++ rest)) entry.request =
      (.exact rest, some entry.answer) := by
  cases entry with
  | field item =>
      simp only [entryReader, Entry.request, Entry.encode, cursorReader_encode]
      rfl
  | string str plain =>
      rw [Entry.encode, List.length_append, List.length_append, List.length_append,
        littleEndian_length, List.length_singleton] at small
      have popped := strPopString_encode plain (by omega) (show rest.length < 2 ^ 31 by omega)
      simp only [entryReader, Entry.request, Entry.encode, List.append_assoc] at popped ⊢
      rw [popped]
      rfl

theorem entryReader_encodeAll {entries : List Entry}
    (small : (Entry.encodeAll entries).length < 2 ^ 31) :
    entryReader.run (.exact (Entry.encodeAll entries)) (entries.map Entry.request) =
      (.exact [], entries.map fun entry => some entry.answer) := by
  induction entries with
  | nil => rfl
  | cons entry entries ih =>
      rw [Entry.encodeAll_cons] at small ⊢
      rw [List.map_cons, Responder.run_cons, entryReader_encode entry small]
      rw [List.length_append] at small
      simp [ih (by omega)]

theorem Cursor.advance_advance (cursor : Cursor) (first second : Nat) :
    (cursor.advance first).advance second = cursor.advance (first + second) := by
  simp only [advance, List.drop_drop, Cursor.mk.injEq, true_and]
  omega

theorem strPopString_takes {cursor next : Cursor} {str : List UInt8} {len : Int}
    (popped : cursor.strPopString = (next, some (str, len))) :
    ∃ size < 2 ^ 32, toI32 (size : Nat) = len ∧ next = cursor.advance (4 + size) := by
  rw [Cursor.strPopString, Cursor.strPopDword, Cursor.popWord] at popped
  split at popped
  · simp at popped
  · next size sized sizePopped =>
      split at sizePopped
      · simp at sizePopped
      · rw [Option.some.injEq, Prod.mk.injEq] at sizePopped
        obtain ⟨sizeEq, rfl⟩ := sizePopped
        split at popped
        · simp at popped
        · simp only [Prod.mk.injEq, Option.some.injEq] at popped
          refine ⟨size, ?_, popped.2.2, ?_⟩
          · have bound := ofLittleEndian_lt (cursor.bytes.take 4)
            have power : 256 ^ (cursor.bytes.take 4).length ≤ 256 ^ 4 :=
              Nat.pow_le_pow_right (by decide) (List.length_take_le ..)
            rw [← sizeEq]
            exact bound.trans_le power
          · rw [← popped.1, Cursor.advance_advance]

/-- A pop with the right answer takes exactly the bytes of the entry. -/
theorem entryReader_takes {cursor next : Cursor} (entry : Entry)
    (popped : entryReader.respond cursor entry.request = (next, some entry.answer)) :
    next = cursor.advance entry.encode.length := by
  cases entry with
  | field item =>
      simp only [entryReader, Entry.request, cursorReader_respond] at popped
      split at popped
      · simp at popped
      · simp only [Prod.mk.injEq] at popped
        rw [← popped.1, item.kind_size]
        rfl
  | string str plain =>
      simp only [entryReader, Entry.request, Entry.answer, Prod.mk.injEq, Option.map_eq_some_iff,
        Answer.string.injEq] at popped
      obtain ⟨rfl, ⟨found, len⟩, popped, textEq, length⟩ := popped
      have whole : cursor.strPopString = (cursor.strPopString.1, some (found, len)) :=
        Prod.ext rfl popped
      obtain ⟨size, bounded, sizeEq, nextEq⟩ := strPopString_takes whole
      have same : size = str.length + 1 := by
        simp only [toI32] at sizeEq
        omega
      rw [nextEq, same]
      simp [Entry.encode]

theorem entryReader_takesAll {cursor final : Cursor} {entries : List Entry}
    (popped : entryReader.run cursor (entries.map Entry.request) =
      (final, entries.map fun entry => some entry.answer)) :
    final = cursor.advance (Entry.encodeAll entries).length := by
  induction entries generalizing cursor with
  | nil =>
      cases popped
      simp [Cursor.advance, Entry.encodeAll]
  | cons entry entries ih =>
      rw [List.map_cons, List.map_cons, Responder.run_cons, Prod.mk.injEq, List.cons.injEq] at popped
      obtain ⟨finalEq, first, others⟩ := popped
      have taken : (entryReader.respond cursor entry.request).1 =
          cursor.advance entry.encode.length := entryReader_takes entry (Prod.ext rfl first)
      rw [ih (Prod.ext finalEq others), taken, Cursor.advance_advance, Entry.encodeAll_cons,
        List.length_append]

end Popping

/-! ## Round trip -/

theorem RoundTrip.fits {before : List UInt8} {entries : List Entry}
    (roundTrip : RoundTrip before entries) :
    Entry.Fits before.length entries ∧ (Entry.encodeAll entries).length < 2 ^ 31 := by
  obtain ⟨pushed, wrote, read, -⟩ := roundTrip
  have final := entryReader_takesAll read
  simp only [Cursor.advance, Cursor.ofBuffer, Cursor.mk.injEq] at final
  obtain ⟨reached, left⟩ := final
  rw [eq_comm, List.drop_eq_nil_iff] at reached
  have shorter := toI32_le (Int.natCast_nonneg pushed.length)
  have upper := toI32_upper pushed.length
  have length := (Entry.pushAll_length wrote).2
  rw [List.length_append] at length
  exact ⟨length (by omega), by omega⟩

theorem roundTrip_of_fits {before : List UInt8} {entries : List Entry}
    (fits : Entry.Fits before.length entries) (small : (Entry.encodeAll entries).length < 2 ^ 31) :
    RoundTrip before entries := by
  refine ⟨Entry.encodeAll entries, Entry.pushAll_fits fits, ?_, ?_⟩
  · have start : Cursor.ofBuffer (Entry.encodeAll entries) = .exact (Entry.encodeAll entries) := by
      rw [Cursor.ofBuffer, toI32_length small, Cursor.exact]
    rw [start, entryReader_encodeAll small]
    rfl
  · rintro fields rfl
    exact stringReader_encodeAll small

/-- Fields are read back exactly where all lengths stay in the range of an `int`,
and the two kinds of readers give the same answers to any list of pops. -/
theorem codec_roundTrip_iff (before : List UInt8) (entries : List Entry) (buf : List UInt8)
    (kinds : List Kind) :
    (RoundTrip before entries ↔
      Entry.Fits before.length entries ∧ (Entry.encodeAll entries).length < 2 ^ 31) ∧
    (stringReader.run buf kinds).2 = (cursorReader.run (.ofBuffer buf) kinds).2 := by
  constructor
  · constructor
    · exact RoundTrip.fits
    · rintro ⟨fits, small⟩
      exact roundTrip_of_fits fits small
  · exact (Responder.run_simulation readers_follow (sameBytes_start buf) kinds).2

/-- A word pushed behind two gigabytes. -/
theorem longString_not_roundTrip :
    ¬ RoundTrip (List.replicate (2 ^ 31) 0) [.field (.dword 0 .littleEndian)] := by
  intro roundTrip
  have fits := roundTrip.fits.1.1
  rw [Entry.fitsBehind_dword, List.length_replicate] at fits
  exact absurd fits (by decide)

end Tegenaria.LibStr
