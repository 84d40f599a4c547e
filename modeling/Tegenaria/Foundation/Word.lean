import Mathlib.Data.Int.Basic
import Mathlib.Algebra.Group.Int.Defs
import Mathlib.Algebra.Group.Nat.Defs

/-!
# Thirty-two bit machine words

Values of C's `int` and `unsigned int` are carried as integers and naturals.
The two conversions below are the only places where a value is reduced modulo
`2 ^ 32`; sums, differences and comparisons in mixed arithmetic are written with
them.
-/

namespace Foundation.Word

/-- Conversion to `unsigned int`: the residue modulo `2 ^ 32`. -/
def toU32 (value : Int) : Nat := (value % 2 ^ 32).toNat

/-- Conversion to `int`: the representative between `-2 ^ 31` and `2 ^ 31 - 1`. -/
def toI32 (value : Int) : Int := (value + 2 ^ 31) % 2 ^ 32 - 2 ^ 31

theorem toU32_lt (value : Int) : toU32 value < 2 ^ 32 := by
  simp only [toU32]
  omega

/-- A value that already fits is not changed by the conversion. -/
theorem toU32_of_nonneg {value : Int} (nonneg : 0 ≤ value)
    (bounded : value < 2 ^ 32) : (toU32 value : Int) = value := by
  simp only [toU32]
  omega

theorem toU32_natCast {value : Nat} (bounded : value < 2 ^ 32) :
    toU32 (value : Int) = value := by
  simp only [toU32]
  omega

theorem toI32_of_fits {value : Int} (lower : -2 ^ 31 ≤ value)
    (upper : value < 2 ^ 31) : toI32 value = value := by
  simp only [toI32]
  omega

theorem toI32_lower (value : Int) : -2 ^ 31 ≤ toI32 value := by
  simp only [toI32]
  omega

theorem toI32_upper (value : Int) : toI32 value < 2 ^ 31 := by
  simp only [toI32]
  omega

end Foundation.Word
