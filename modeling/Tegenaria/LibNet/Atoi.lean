import Tegenaria.LibStr.Pattern

/-!
# Numbers in texts

`atoi` reads a number at the begin of a string, and decimal numbers are read back.
-/

namespace Tegenaria.LibNet

open Foundation.Word LibStr

/-- The number that is read from digits, behind those already read. -/
def readDigits (value : Int) : Chars → Int
  | [] => value
  | letter :: rest =>
      if 48 ≤ letter ∧ letter ≤ 57 then readDigits (value * 10 + (letter.toNat - 48)) rest else value

/-- A number that leaves the range of a `long` is replaced by its bound, and cut to an `int`. -/
def longToInt (value : Int) : Int := toI32 (max (-2 ^ 63) (min value (2 ^ 63 - 1)))

/-- `isspace` in the C locale. -/
def isBlank (letter : UInt8) : Bool := letter == 32 || (9 ≤ letter && letter ≤ 13)

/-- `atoi`: white space, a sign and digits. -/
def atoi (text : Chars) : Int :=
  match text.dropWhile isBlank with
  | 45 :: digits => longToInt (-readDigits 0 digits)
  | 43 :: digits => longToInt (readDigits 0 digits)
  | digits => longToInt (readDigits 0 digits)

/-- The digit of a number below ten. -/
def digit (value : Nat) : UInt8 := .ofNat (48 + value)

/-- A number as a decimal text. -/
def decimal (value : Nat) : Chars :=
  if value < 10 then [digit value] else decimal (value / 10) ++ [digit (value % 10)]

theorem digit_toNat {value : Nat} (small : value < 10) : (digit value).toNat = 48 + value := by
  rw [digit, UInt8.toNat_ofNat']
  omega

theorem digit_cases {value : Nat} (small : value < 10) :
    (48 ≤ digit value ∧ digit value ≤ 57) ∧ isBlank (digit value) = false ∧ digit value ≠ 0 ∧
      digit value ≠ 43 ∧ digit value ≠ 45 ∧ digit value ≠ 44 ∧ digit value ≠ 58 := by
  revert value
  decide

theorem readDigits_digit {value : Nat} (small : value < 10) (before : Int) (rest : Chars) :
    readDigits before (digit value :: rest) = readDigits (before * 10 + value) rest := by
  rw [readDigits, if_pos (digit_cases small).1, digit_toNat small]
  congr 1
  omega

/-- The digits of a number are read as the number. -/
theorem readDigits_decimal (value : Nat) (rest : Chars) :
    readDigits 0 (decimal value ++ rest) = readDigits value rest := by
  fun_induction decimal value generalizing rest with
  | case1 value small =>
      rw [List.singleton_append, readDigits_digit small]
      congr 1
      omega
  | case2 value large ih =>
      rw [List.append_assoc, ih, List.singleton_append, readDigits_digit (Nat.mod_lt _ (by decide))]
      congr 1
      omega

theorem decimal_begin (value : Nat) : ∃ first < 10, ∃ rest, decimal value = digit first :: rest := by
  fun_induction decimal value with
  | case1 value small => exact ⟨value, small, [], rfl⟩
  | case2 value large ih =>
      obtain ⟨first, small, rest, digits⟩ := ih
      exact ⟨first, small, rest ++ [digit (value % 10)], by rw [digits, List.cons_append]⟩

theorem decimal_plain {letter : UInt8} (other : ∀ value < 10, digit value ≠ letter) (value : Nat) :
    letter ∉ decimal value := by
  fun_induction decimal value with
  | case1 value small => simpa using (other value small).symm
  | case2 value large ih =>
      rw [List.mem_append, not_or, List.mem_singleton]
      exact ⟨ih, (other _ (Nat.mod_lt _ (by decide))).symm⟩

/-- Behind digits `atoi` stops at the first letter that is none. -/
theorem atoi_digits {text : Chars} {first : Nat} {rest : Chars} (small : first < 10)
    (digits : text = digit first :: rest) : atoi text = longToInt (readDigits 0 text) := by
  obtain ⟨_, notBlank, _, notPlus, notMinus, _⟩ := digit_cases small
  rw [atoi, digits, List.dropWhile_cons_of_neg (by rw [notBlank]; decide)]
  split
  · next same => exact absurd (List.cons.inj same).1 notMinus
  · next same => exact absurd (List.cons.inj same).1 notPlus
  · rfl

theorem longToInt_of_fits {value : Int} (lower : -2 ^ 31 ≤ value) (upper : value < 2 ^ 31) :
    longToInt value = value := by
  have inside : max (-2 ^ 63) (min value (2 ^ 63 - 1)) = value := by omega
  rw [longToInt, inside, toI32_of_fits lower upper]

theorem atoi_decimal {value : Nat} (fits : value < 2 ^ 31) : atoi (decimal value) = value := by
  obtain ⟨first, small, rest, digits⟩ := decimal_begin value
  have read := readDigits_decimal value []
  rw [List.append_nil] at read
  rw [atoi_digits small digits, read, readDigits, longToInt_of_fits (by omega) (by omega)]

end Tegenaria.LibNet
