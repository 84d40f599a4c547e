import Mathlib.Data.Nat.Basic
import Mathlib.Algebra.Group.Nat.Defs

/-!
# Fixed-width numbers as byte strings

The memory image of an unsigned number on a little-endian machine, the reversed
image that network formats use, and reading a known number of bytes off the
front of a byte string.
-/

namespace Foundation.Bytes

/-- A fact about all bytes can be checked by going through them. -/
theorem forall_byte {property : UInt8 → Prop} (every : ∀ value : Fin 256, property (.ofFin value))
    (letter : UInt8) : property letter := every letter.toFin

/-- The `width` low-order bytes of a number, least significant byte first. -/
@[grind =] def littleEndian : (width value : Nat) → List UInt8
  | 0, _ => []
  | width + 1, value =>
      UInt8.ofNat (value % 256) :: littleEndian width (value / 256)

/-- The number whose little-endian image is the given byte string. -/
@[grind =] def ofLittleEndian : List UInt8 → Nat
  | [] => 0
  | byte :: bytes => byte.toNat + 256 * ofLittleEndian bytes

/-- The `width` low-order bytes of a number, most significant byte first. -/
@[grind =] def bigEndian (width value : Nat) : List UInt8 := (littleEndian width value).reverse

/-- The number whose big-endian image is the given byte string. -/
def ofBigEndian (bytes : List UInt8) : Nat := ofLittleEndian bytes.reverse

/-- Read exactly `count` bytes; a shorter stream cannot satisfy the read. -/
def readExact (count : Nat) (stream : List UInt8) :
    Option (List UInt8 × List UInt8) :=
  if count ≤ stream.length then some (stream.take count, stream.drop count)
  else none

@[simp] theorem littleEndian_length (width value : Nat) :
    (littleEndian width value).length = width := by
  induction width generalizing value with
  | zero => rfl
  | succ width ih => simp [littleEndian, ih]

@[simp] theorem bigEndian_length (width value : Nat) :
    (bigEndian width value).length = width := by
  simp [bigEndian]

/-- A wide number is a narrower one followed by its high-order bytes. -/
theorem littleEndian_add (low high value : Nat) :
    littleEndian (low + high) value =
      littleEndian low value ++ littleEndian high (value / 256 ^ low) := by
  induction low generalizing value with
  | zero => simp [littleEndian]
  | succ low ih =>
      rw [Nat.succ_add, littleEndian, ih, Nat.div_div_eq_div_mul, ← Nat.pow_succ', littleEndian,
        List.cons_append]

/-- Only the low-order bytes matter. -/
theorem littleEndian_mod (width value : Nat) :
    littleEndian width (value % 256 ^ width) = littleEndian width value := by
  induction width generalizing value with
  | zero => rfl
  | succ width ih =>
      rw [littleEndian, littleEndian, Nat.pow_succ', Nat.mod_mul_right_mod,
        Nat.mod_mul_right_div_self, ih]

theorem bigEndian_add (low high value : Nat) :
    bigEndian (low + high) value =
      bigEndian high (value / 256 ^ low) ++ bigEndian low (value % 256 ^ low) := by
  rw [bigEndian, littleEndian_add, List.reverse_append, bigEndian, bigEndian, littleEndian_mod]

theorem ofLittleEndian_littleEndian (width value : Nat) :
    ofLittleEndian (littleEndian width value) = value % 256 ^ width := by
  induction width generalizing value with
  | zero => simp [littleEndian, ofLittleEndian, Nat.mod_one]
  | succ width ih =>
      have byte : (UInt8.ofNat (value % 256)).toNat = value % 256 := by
        simp
      rw [littleEndian, ofLittleEndian, ih, byte, Nat.pow_succ', Nat.mod_mul]

theorem ofBigEndian_bigEndian (width value : Nat) :
    ofBigEndian (bigEndian width value) = value % 256 ^ width := by
  rw [ofBigEndian, bigEndian, List.reverse_reverse, ofLittleEndian_littleEndian]

theorem ofLittleEndian_lt (bytes : List UInt8) :
    ofLittleEndian bytes < 256 ^ bytes.length := by
  induction bytes with
  | nil => simp [ofLittleEndian]
  | cons byte bytes ih =>
      have small := byte.toNat_lt
      rw [ofLittleEndian, List.length_cons, Nat.pow_succ']
      omega

theorem ofBigEndian_lt (bytes : List UInt8) :
    ofBigEndian bytes < 256 ^ bytes.length := by
  have bound := ofLittleEndian_lt bytes.reverse
  rwa [List.length_reverse] at bound

/-- Reading the length of a known front part returns that part and the rest. -/
theorem readExact_append {count : Nat} {front : List UInt8}
    (length : front.length = count) (rest : List UInt8) :
    readExact count (front ++ rest) = some (front, rest) := by
  subst length
  simp [readExact]

end Foundation.Bytes
