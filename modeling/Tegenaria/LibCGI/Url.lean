import Mathlib.Data.Int.Basic
import Mathlib.Algebra.GroupWithZero.Nat
import Mathlib.Data.List.TakeWhile
import Tegenaria.Foundation.Bytes

/-!
# URL coding

`CgiUrlEncode` keeps letters, digits and four marks, writes a space as `+` and every
other byte as `%` with two digits.  `CgiUrlDecode` reads the digits back with `sscanf`
and counts its position in an `int`, so it is defined as long as the coded string is
shorter than `2 ^ 31` bytes.
-/

namespace Tegenaria.LibCGI

open Foundation.Bytes

/-- The bytes of a `std::string`. -/
abbrev ByteString := List UInt8

/-! ## Character classes -/

/-- A character between two others. -/
def between (low high letter : UInt8) : Bool := low ≤ letter && letter ≤ high

def isDigit (letter : UInt8) : Bool := between 48 57 letter

/-- `isalnum` in the C locale.  A negative `char` is not alphanumeric. -/
def isAlnum (letter : UInt8) : Bool :=
  isDigit letter || between 65 90 letter || between 97 122 letter

def isSpace (letter : UInt8) : Bool := letter == 32 || between 9 13 letter

/-- Letters, digits and `-`, `_`, `.`, `~`. -/
def isKept (letter : UInt8) : Bool :=
  isAlnum letter || letter == 45 || letter == 95 || letter == 46 || letter == 126

/-- The bytes that need three characters. -/
def isEscaped (letter : UInt8) : Bool := !isKept letter && letter != 32

/-- The characters of a coded string: the kept ones, `+` and `%`. -/
def isCoded (letter : UInt8) : Bool := isKept letter || letter == 43 || letter == 37

/-! ## Encoding -/

/-- The digits of `_to_hex`. -/
def hexTable : ByteString := "0123456789abcdef".toList.map fun letter => .ofNat letter.toNat

/-- `_to_hex` -/
def toHex (code : Int8) : UInt8 := hexTable.getD (code &&& 15).toUInt8.toNat 0

/-- The characters written for one byte.  The shift is the one of a signed `char`. -/
def encodeByte (letter : UInt8) : ByteString :=
  if isKept letter then [letter]
  else if letter == 32 then [43]
  else [37, toHex (letter.toInt8 >>> 4), toHex (letter.toInt8 &&& 15)]

/-- `CgiUrlEncode`: the bytes in front of the first zero. -/
def cgiUrlEncode (str : ByteString) : ByteString := (str.takeWhile (· ≠ 0)).flatMap encodeByte

/-! ## Decoding -/

/-- The value of a hexadecimal digit. -/
def hexValue (letter : UInt8) : Option Int :=
  if isDigit letter then some (letter.toNat - 48)
  else if between 97 102 letter then some (letter.toNat - 87)
  else if between 65 70 letter then some (letter.toNat - 55)
  else none

/-- Digits up to the first character that is none, behind those already read. -/
def scanDigits (value : Option Int) : ByteString → Option Int
  | [] => value
  | letter :: rest =>
      match hexValue letter with
      | none => value
      | some digit => scanDigits (some (value.getD 0 * 16 + digit)) rest

/-- `sscanf` with `%x`: white space, a sign and digits.  The result is `none` if nothing
is stored. -/
def scanHex (text : ByteString) : Option Int :=
  match text.dropWhile isSpace with
  | 45 :: digits => (scanDigits none digits).map Int.neg
  | 43 :: digits => scanDigits none digits
  | digits => scanDigits none digits

/-- The loop of `CgiUrlDecode` at position `i`, with the last value of `ii`; `none` if
the counter leaves the range of an `int`. -/
@[grind =] def decodeLoop (ii : Int) (i : Nat) : ByteString → Option ByteString
  | [] => some []
  | letter :: rest =>
      if letter == 37 then
        let ii := (scanHex (rest.take 2)).getD ii
        if i + 3 < 2 ^ 31 then
          match rest with
          | _ :: _ :: later => (decodeLoop ii (i + 3) later).map (UInt8.ofInt ii :: ·)
          | _ => some [UInt8.ofInt ii]
        else none
      else if i + 1 < 2 ^ 31 then
        (decodeLoop ii (i + 1) rest).map ((if letter == 43 then 32 else letter) :: ·)
      else none

/-- `CgiUrlDecode`.  The variable `ii` has no value before the first `sscanf`. -/
def cgiUrlDecode (ii : Int) (src : ByteString) : Option ByteString := decodeLoop ii 0 src

/-! ## Round trip -/

/-- The number of characters that a string is coded with. -/
def codedLength (str : ByteString) : Nat := str.length + 2 * str.countP isEscaped

theorem isCoded_toHex (code : Int8) : isCoded (toHex code) = true := by
  have inside : (code &&& 15).toUInt8.toNat < 16 := Nat.lt_succ_of_le Nat.and_le_right
  have coded : ∀ place < 16, isCoded (hexTable.getD place 0) = true := by decide
  exact coded _ inside

theorem isCoded_encodeByte (letter : UInt8) : (encodeByte letter).all isCoded := by
  rw [encodeByte]
  by_cases kept : isKept letter
  · simp [isCoded, kept]
  · by_cases space : letter == 32
    · simp [kept, space]
      decide
    · simp only [kept, space, Bool.false_eq_true, if_false, List.all_cons, isCoded_toHex,
        List.all_nil, Bool.and_true]
      decide

theorem length_encodeByte (letter : UInt8) :
    (encodeByte letter).length = 1 + 2 * (if isEscaped letter then 1 else 0) := by
  rw [encodeByte, isEscaped]
  by_cases kept : isKept letter
  · simp [kept]
  · by_cases space : letter == 32
    · simp [kept, space, bne]
    · simp [kept, space, bne]

/-- A kept character is not changed by the decoder. -/
theorem kept_plain {letter : UInt8} (kept : isKept letter = true) :
    (letter == 37) = false ∧ (letter == 43) = false := by
  rw [beq_eq_false_iff_ne, beq_eq_false_iff_ne]
  constructor
  · rintro rfl
    exact absurd kept (by decide)
  · rintro rfl
    exact absurd kept (by decide)

/-- The two digits of a byte are scanned to the byte. -/
theorem scanHex_digits (letter : UInt8) :
    scanHex [toHex (letter.toInt8 >>> 4), toHex (letter.toInt8 &&& 15)] =
      some (letter.toNat : Int) := by
  revert letter
  apply forall_byte
  decide +kernel

theorem ofInt_toNat (letter : UInt8) : UInt8.ofInt letter.toNat = letter := by
  have small : ((letter.toNat : Int) % 2 ^ 8).toNat = letter.toNat := by
    have bound := letter.toNat_lt
    omega
  rw [UInt8.ofInt, small, UInt8.ofNat_toNat]

/-- One byte is decoded and the counter moves over its characters. -/
theorem decodeLoop_encodeByte (ii : Int) (i : Nat) (letter : UInt8) (rest : ByteString) :
    ∃ next, decodeLoop ii i (encodeByte letter ++ rest) =
      if i + (encodeByte letter).length < 2 ^ 31 then
        (decodeLoop next (i + (encodeByte letter).length) rest).map (letter :: ·)
      else none := by
  rw [encodeByte]
  by_cases kept : isKept letter
  · obtain ⟨notPercent, notPlus⟩ := kept_plain kept
    refine ⟨ii, ?_⟩
    rw [if_pos kept, List.singleton_append, decodeLoop, notPercent, notPlus]
    rfl
  · rw [if_neg kept]
    by_cases space : letter == 32
    · refine ⟨ii, ?_⟩
      rw [if_pos space, beq_iff_eq.mp space, List.singleton_append, decodeLoop]
      rfl
    · refine ⟨letter.toNat, ?_⟩
      rw [if_neg space, List.cons_append, List.cons_append, List.cons_append, List.nil_append,
        decodeLoop]
      simp only [beq_self_eq_true, if_true, List.take_succ_cons, List.take_zero, scanHex_digits,
        Option.getD_some, ofInt_toNat, List.length_cons, List.length_nil]

theorem length_flatMap_encodeByte (str : ByteString) :
    (str.flatMap encodeByte).length = codedLength str := by
  induction str with
  | nil => rfl
  | cons letter rest ih =>
      rw [List.flatMap_cons, List.length_append, ih, length_encodeByte, codedLength, codedLength,
        List.length_cons, List.countP_cons]
      omega

/-- The decoder reads a coded string back, whatever is in front of it. -/
theorem decodeLoop_encode (ii : Int) {i : Nat} (inRange : i < 2 ^ 31) (str : ByteString) :
    decodeLoop ii i (str.flatMap encodeByte) =
      if i + codedLength str < 2 ^ 31 then some str else none := by
  induction str generalizing ii i with
  | nil => rw [List.flatMap_nil, decodeLoop, if_pos (by simpa [codedLength] using inRange)]
  | cons letter rest ih =>
      have lengths := length_flatMap_encodeByte (letter :: rest)
      rw [List.flatMap_cons, List.length_append, length_flatMap_encodeByte] at lengths
      obtain ⟨next, decoded⟩ := decodeLoop_encodeByte ii i letter (rest.flatMap encodeByte)
      rw [List.flatMap_cons, decoded, ← lengths, ← Nat.add_assoc]
      by_cases fits : i + (encodeByte letter).length < 2 ^ 31
      · rw [if_pos fits, ih next fits]
        split <;> rfl
      · rw [if_neg fits, if_neg (by omega)]

theorem cgiUrlEncode_plain {str : ByteString} (noZero : 0 ∉ str) :
    cgiUrlEncode str = str.flatMap encodeByte := by
  rw [cgiUrlEncode, List.takeWhile_eq_self_iff.mpr]
  intro letter member
  rw [decide_eq_true_iff]
  rintro rfl
  exact noZero member

theorem isCoded_cgiUrlEncode (str : ByteString) : ∀ letter ∈ cgiUrlEncode str, isCoded letter := by
  intro letter member
  obtain ⟨source, _, inCode⟩ := List.mem_flatMap.mp member
  exact List.all_eq_true.mp (isCoded_encodeByte source) letter inCode

theorem cgiUrlDecode_encode (ii : Int) {str : ByteString} (noZero : 0 ∉ str) :
    cgiUrlDecode ii (cgiUrlEncode str) =
      if codedLength str < 2 ^ 31 then some str else none := by
  rw [cgiUrlEncode_plain noZero, cgiUrlDecode, decodeLoop_encode ii (by omega), Nat.zero_add]

/-- Strings without zeros come back exactly as long as their code is shorter than
`2 ^ 31` bytes, and the code has only the characters it should have. -/
theorem cgiUrl_roundTrip_iff (ii : Int) (str : ByteString) (noZero : 0 ∉ str) :
    (cgiUrlDecode ii (cgiUrlEncode str) = some str ∧
        ∀ letter ∈ cgiUrlEncode str, isCoded letter) ↔
      str.length + 2 * str.countP isEscaped < 2 ^ 31 := by
  rw [cgiUrlDecode_encode ii noZero, codedLength]
  constructor
  · rintro ⟨decoded, _⟩
    by_contra long
    rw [if_neg long] at decoded
    cases decoded
  · intro short
    exact ⟨if_pos short, isCoded_cgiUrlEncode str⟩

/-- The three bytes of the euro sign come back. -/
theorem cgiUrl_euro :
    cgiUrlDecode 0 (cgiUrlEncode [0xe2, 0x82, 0xac]) = some [0xe2, 0x82, 0xac] :=
  ((cgiUrl_roundTrip_iff 0 [0xe2, 0x82, 0xac] (by decide)).mpr (by decide)).1

/-- The counter of the decoder overflows on `2 ^ 31` letters. -/
theorem cgiUrl_long_undefined :
    0 ∉ List.replicate (2 ^ 31) (97 : UInt8) ∧
      cgiUrlDecode 0 (cgiUrlEncode (List.replicate (2 ^ 31) 97)) ≠
        some (List.replicate (2 ^ 31) 97) := by
  have noZero : 0 ∉ List.replicate (2 ^ 31) (97 : UInt8) := by
    intro member
    exact absurd (List.eq_of_mem_replicate member) (by decide)
  refine ⟨noZero, ?_⟩
  rw [cgiUrlDecode_encode 0 noZero, if_neg]
  · intro absurdEq
    cases absurdEq
  · rw [codedLength, List.length_replicate]
    omega

end Tegenaria.LibCGI
