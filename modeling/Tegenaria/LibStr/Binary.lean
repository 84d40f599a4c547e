import Mathlib.Data.List.Basic
import Tegenaria.Foundation.Bytes
import Tegenaria.Foundation.Word

/-!
# Binary fields in byte strings

The `StrPush*` functions append a field to a byte string and the `StrPop*`
functions take one off its front.  Lengths pass through C's `int`.  A string whose
length is negative there cannot be read, and a push onto it either throws or
writes outside of the string; both count as undefined, so pushes are partial
functions.  A string of `2 ^ 32` bytes or more is cut to the length that the
`int` tells.
-/

namespace Tegenaria.LibStr

open Foundation.Bytes
open Foundation.Word

/-- The `flags` of the word functions: `STR_BIG_ENDIAN` or `STR_LITTLE_ENDIAN`. -/
inductive ByteOrder where
  | bigEndian
  | littleEndian
  deriving DecidableEq

namespace ByteOrder

/-- Memory image of a word of `width` bytes. -/
def encode (order : ByteOrder) (width value : Nat) : List UInt8 :=
  match order with
  | .bigEndian => Foundation.Bytes.bigEndian width value
  | .littleEndian => Foundation.Bytes.littleEndian width value

/-- The word with a given memory image. -/
def decode (order : ByteOrder) (bytes : List UInt8) : Nat :=
  match order with
  | .bigEndian => ofBigEndian bytes
  | .littleEndian => ofLittleEndian bytes

@[simp] theorem encode_length (order : ByteOrder) (width value : Nat) :
    (order.encode width value).length = width := by
  cases order <;> simp [encode]

theorem decode_encode (order : ByteOrder) (width value : Nat) :
    order.decode (order.encode width value) = value % 256 ^ width := by
  cases order with
  | bigEndian => exact ofBigEndian_bigEndian width value
  | littleEndian => exact ofLittleEndian_littleEndian width value

end ByteOrder

/-! ## Popping -/

/-- Common body of the word pops. -/
def strPopWord (width : Nat) (buf : List UInt8) (flags : ByteOrder) :
    Option (Nat × List UInt8) :=
  let bufSize := toI32 buf.length
  if bufSize < width then none
  else some (flags.decode (buf.take width), (buf.drop width).take (bufSize.toNat - width))

/-- `StrPopQword` on a string. -/
def strPopQword := strPopWord 8

/-- `StrPopDword` on a string. -/
def strPopDword := strPopWord 4

/-- `StrPopByte` on a string. -/
def strPopByte (buf : List UInt8) : Option (UInt8 × List UInt8) :=
  let bufSize := toI32 buf.length
  if bufSize < 1 then none
  else some (buf.headD 0, (buf.drop 1).take (bufSize.toNat - 1))

/-- `StrPopRaw` on a string, for sizes that are not negative. -/
def strPopRaw (rawSize : Nat) (buf : List UInt8) :
    Option (List UInt8 × List UInt8) :=
  let bufSize := toI32 buf.length
  if (rawSize : Int) > bufSize then none
  else some (buf.take rawSize, (buf.drop rawSize).take (bufSize.toNat - rawSize))

/-! ## Pushing -/

/-- `StrPushRaw`; the first `rawSize` bytes of `raw` are appended. -/
def strPushRaw (buf raw : List UInt8) (rawSize : Int) : Option (List UInt8) :=
  let bufSize := toI32 buf.length
  if rawSize > 0 then
    if bufSize < 0 ∨ toI32 (bufSize + rawSize) < 0 then none
    else some (buf.take bufSize.toNat ++ raw.take rawSize.toNat)
  else
    some buf

/-- Common body of the word pushes. -/
def strPushWord (width : Nat) (buf : List UInt8) (value : Nat)
    (flags : ByteOrder) : Option (List UInt8) :=
  let bufSize := toI32 buf.length
  if bufSize < 0 ∨ toI32 (bufSize + width) < 0 then none
  else some (buf.take bufSize.toNat ++ flags.encode width value)

/-- `StrPushQword` -/
def strPushQword := strPushWord 8

/-- `StrPushDword` -/
def strPushDword := strPushWord 4

/-- `StrPushByte` -/
def strPushByte (buf : List UInt8) (value : UInt8) : Option (List UInt8) :=
  some (buf ++ [value])

/-! ## A field behind a string -/

section Pushing

variable {buf : List UInt8}

theorem strPushWord_short {width : Nat} (short : buf.length + width < 2 ^ 31) (value : Nat)
    (flags : ByteOrder) :
    strPushWord width buf value flags = some (buf ++ flags.encode width value) := by
  have whole : ¬((buf.length : Int) < 0 ∨ (buf.length + width : Int) < 0) := by omega
  dsimp only [strPushWord]
  rw [toI32_of_fits (by omega) (by omega), toI32_of_fits (by omega) (by omega), if_neg whole,
    Int.toNat_natCast, List.take_length]

/-- The string would become longer than an `int` can tell. -/
theorem strPushWord_long {width : Nat} (short : buf.length < 2 ^ 31)
    (long : 2 ^ 31 ≤ buf.length + width) (small : width < 2 ^ 31) (value : Nat)
    (flags : ByteOrder) : strPushWord width buf value flags = none := by
  dsimp only [strPushWord]
  have size : toI32 buf.length = buf.length := toI32_of_fits (by omega) (by omega)
  rw [size]
  refine if_pos (.inr ?_)
  simp only [toI32]
  omega

theorem strPushRaw_short {raw : List UInt8} (short : buf.length + raw.length < 2 ^ 31) :
    strPushRaw buf raw (toI32 raw.length) = some (buf ++ raw) := by
  dsimp only [strPushRaw]
  rw [toI32_of_fits (by omega) (by omega), toI32_of_fits (by omega) (by omega)]
  by_cases empty : raw.length = 0
  · rw [if_neg (by omega), List.length_eq_zero_iff.mp empty, List.append_nil]
  · rw [if_pos (by omega), toI32_of_fits (by omega) (by omega), if_neg (by omega), Int.toNat_natCast,
      Int.toNat_natCast, List.take_length, List.take_length]

theorem strPushRaw_long {raw : List UInt8} (short : buf.length < 2 ^ 31)
    (rawShort : raw.length < 2 ^ 31) (long : 2 ^ 31 ≤ buf.length + raw.length) :
    strPushRaw buf raw (toI32 raw.length) = none := by
  dsimp only [strPushRaw]
  rw [toI32_of_fits (by omega) (by omega), toI32_of_fits (by omega) (by omega), if_pos (by omega)]
  refine if_pos (.inr ?_)
  simp only [toI32]
  omega

end Pushing

/-! ## A field in front of a string -/

section Fields

variable {rest : List UInt8}

/-- Lengths below `2 ^ 31` keep their value as an `int`. -/
theorem toI32_length {buf : List UInt8} (small : buf.length < 2 ^ 31) :
    toI32 buf.length = buf.length :=
  toI32_of_fits (by omega) (by omega)

/-- Nothing is cut off a string that the `int` can tell. -/
theorem take_rest (buf : List UInt8) (width : Nat) :
    (buf.drop width).take ((buf.length : Int).toNat - width) = buf.drop width := by
  rw [Int.toNat_natCast, ← List.length_drop, List.take_length]

/-- A string that is long enough gives up its first `width` bytes. -/
theorem strPopWord_long {width : Nat} {buf : List UInt8} (flags : ByteOrder)
    (long : width ≤ buf.length) (small : buf.length < 2 ^ 31) :
    strPopWord width buf flags =
      some (flags.decode (buf.take width), buf.drop width) := by
  dsimp only [strPopWord]
  rw [toI32_length small, if_neg (by omega), take_rest]

theorem strPopWord_encode {width : Nat} (flags : ByteOrder) (value : Nat)
    (small : width + rest.length < 2 ^ 31) :
    strPopWord width (flags.encode width value ++ rest) flags =
      some (value % 256 ^ width, rest) := by
  have front : (flags.encode width value ++ rest).take width =
      flags.encode width value := by
    rw [List.take_append_of_le_length (by simp), List.take_of_length_le (by simp)]
  have back : (flags.encode width value ++ rest).drop width = rest := by
    rw [List.drop_append_of_le_length (by simp), List.drop_of_length_le (by simp),
      List.nil_append]
  rw [strPopWord_long flags (by simp) (by simpa using small), front, back,
    ByteOrder.decode_encode]

theorem strPopByte_cons (value : UInt8) (small : 1 + rest.length < 2 ^ 31) :
    strPopByte (value :: rest) = some (value, rest) := by
  have long : ¬toI32 (value :: rest).length < 1 := by
    rw [toI32_length (by simp only [List.length_cons]; omega), List.length_cons]
    omega
  dsimp only [strPopByte]
  rw [if_neg long, toI32_length (by simp only [List.length_cons]; omega), take_rest]
  rfl

theorem strPopRaw_append (raw : List UInt8)
    (small : raw.length + rest.length < 2 ^ 31) :
    strPopRaw raw.length (raw ++ rest) = some (raw, rest) := by
  have long : ¬(raw.length : Int) > toI32 (raw ++ rest).length := by
    rw [toI32_length (by simpa using small), List.length_append]
    omega
  dsimp only [strPopRaw]
  rw [if_neg long, toI32_length (by simpa using small), take_rest, List.take_left, List.drop_left]

end Fields

end Tegenaria.LibStr
