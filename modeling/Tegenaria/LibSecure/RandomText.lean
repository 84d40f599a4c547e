import Mathlib.Data.List.GetD
import Tegenaria.Foundation.BoundedBuffer
import Tegenaria.LibSecure.Cipher

/-!
# Random hexadecimal texts

`SecureRandomHexText` puts random bytes into the upper half of a buffer and expands them from its
begin on, two digits for each byte.  In a buffer of even length a byte is overwritten when its second
digit is written or later.  In a buffer of odd length the loop also expands the last byte, which is
not random, and its second digit goes behind the end.
-/

namespace Tegenaria.LibSecure

open Foundation.BoundedBuffer

/-- What `RAND_bytes` returns, and the bytes that it leaves in its buffer. -/
structure RandomBytes (count : Nat) where
  result : Int
  bytes : Buffer
  length : bytes.length = count

namespace RandomHexText

/-- The characters `0123456789abcdef`. -/
def hex : Buffer := [48, 49, 50, 51, 52, 53, 54, 55, 56, 57, 97, 98, 99, 100, 101, 102]

def lowDigit (byte : UInt8) : UInt8 := hex.getD (byte &&& 0x0f).toNat 0

def highDigit (byte : UInt8) : UInt8 := hex.getD ((byte &&& 0xf0) >>> 4).toNat 0

structure Expansion where
  buf : Buffer
  dst : Nat

/-- One round of the loop.  The byte is read once for each digit. -/
def expandStep (state : Expansion) (i : Nat) : Option Expansion :=
  state.buf[i]?.bind fun first =>
    (put state.buf state.dst (lowDigit first)).bind fun buf =>
      buf[i]?.bind fun second =>
        (put buf (state.dst + 1) (highDigit second)).map fun buf => ⟨buf, state.dst + 2⟩

end RandomHexText

/-- `SecureRandomHexText` on a buffer: the exit code and the buffer, or nothing if it reads or writes
outside of the buffer. -/
def secureRandomHexText (buf : Buffer) (random : RandomBytes (buf.length / 2)) : Option (Int × Buffer) :=
  let len := buf.length
  (putAll buf (len / 2) random.bytes).bind fun buf =>
    if random.result = 1 then
      ((List.range' (len / 2) (len - len / 2)).foldlM
        RandomHexText.expandStep ⟨buf, 0⟩).bind fun expansion =>
        (put expansion.buf (len - 1) 0).map fun buf => (0, buf)
    else some (-1, buf)

namespace RandomHexText

/-- The digits of a random byte. -/
def digits (byte : UInt8) : Buffer := [lowDigit byte, highDigit byte]

/-- What the call is for: it does not leave the buffer, and when the random bytes are there, it leaves
a text of hexadecimal digits that fills the buffer up to the terminator and is a part of the expansion
of these bytes. -/
def Expands (buf : Buffer) (random : RandomBytes (buf.length / 2)) : Prop :=
  ∃ exitCode after, secureRandomHexText buf random = some (exitCode, after) ∧
    (exitCode = 0 ↔ random.result = 1) ∧
    (random.result = 1 → ∃ text, after = text ++ [0] ∧ text.length + 1 = buf.length ∧
      (∀ letter ∈ text, letter ∈ hex) ∧ text <+: random.bytes.flatMap digits)

theorem getD_hex_mem {index : Nat} (small : index < 16) : hex.getD index 0 ∈ hex := by
  rw [List.getD_eq_getElem hex 0 small]
  exact List.getElem_mem _

theorem lowDigit_mem (byte : UInt8) : lowDigit byte ∈ hex := by
  refine getD_hex_mem ?_
  rw [UInt8.toNat_and]
  exact Nat.lt_succ_of_le Nat.and_le_right

theorem highDigit_mem (byte : UInt8) : highDigit byte ∈ hex := by
  refine getD_hex_mem ?_
  rw [UInt8.toNat_shiftRight, UInt8.toNat_and, Nat.shiftRight_eq_div_pow]
  have masked : byte.toNat &&& (0xf0 : UInt8).toNat ≤ 0xf0 := Nat.and_le_right
  exact Nat.div_lt_of_lt_mul (Nat.lt_of_le_of_lt masked (by decide))

theorem mem_hex {bytes : Buffer} {letter : UInt8} (inside : letter ∈ bytes.flatMap digits) :
    letter ∈ hex := by
  obtain ⟨byte, -, digit⟩ := List.mem_flatMap.mp inside
  rcases List.mem_cons.mp digit with rfl | second
  · exact lowDigit_mem byte
  · rw [List.mem_singleton.mp second]
    exact highDigit_mem byte

theorem length_flatMap_digits (bytes : Buffer) : (bytes.flatMap digits).length = 2 * bytes.length := by
  induction bytes with
  | nil => rfl
  | cons byte rest ih =>
      rw [List.flatMap_cons, List.length_append, ih, List.length_cons]
      show 2 + 2 * rest.length = 2 * (rest.length + 1)
      omega

/-- A round below its byte writes the digits of the byte, and does not touch what comes after it. -/
theorem expandStep_below {buf rest : Buffer} {dst i : Nat} {byte : UInt8} (below : dst < i)
    (left : buf.drop i = byte :: rest) :
    ∃ after, expandStep ⟨buf, dst⟩ i = some ⟨after, dst + 2⟩ ∧ after.length = buf.length ∧
      after.drop (i + 1) = rest ∧ after.take (dst + 2) = buf.take dst ++ digits byte := by
  have inside : i < buf.length := by
    by_contra outside
    rw [List.drop_eq_nil_of_le (Nat.le_of_not_lt outside)] at left
    cases left
  have there : buf[i]? = some byte := by
    rw [← List.head?_drop, left, List.head?_cons]
  obtain ⟨first, stored⟩ : ∃ first, put buf dst (lowDigit byte) = some first :=
    ⟨_, put_inside (Nat.lt_trans below inside) _⟩
  have unread : first[i]? = some byte := (getElem?_put_ne stored (Nat.ne_of_lt below)).trans there
  have sameLength := length_put stored
  obtain ⟨after, storedToo⟩ : ∃ after, put first (dst + 1) (highDigit byte) = some after :=
    ⟨_, put_inside (by omega) _⟩
  refine ⟨after, ?_, (length_put storedToo).trans sameLength, ?_, ?_⟩
  · simp only [expandStep, there, stored, unread, storedToo, Option.bind_some, Option.map_some]
  · rw [drop_put storedToo (by omega), drop_put stored (by omega), ← List.drop_drop, left]
    rfl
  · rw [take_succ_put storedToo, take_succ_put stored, List.append_assoc]
    rfl

/-- From a position as far below the bytes as there are bytes, the loop expands all of them. -/
theorem expand_all {buf left : Buffer} {dst i : Nat} (bytes : buf.drop i = left)
    (room : dst + left.length = i) (size : buf.length = i + left.length) :
    (List.range' i left.length).foldlM expandStep ⟨buf, dst⟩ =
      some ⟨buf.take dst ++ left.flatMap digits, dst + 2 * left.length⟩ := by
  induction left generalizing buf dst i with
  | nil =>
      have all : buf.length ≤ dst := by
        rw [List.length_nil] at room size
        omega
      rw [List.flatMap_nil, List.append_nil, List.take_of_length_le all]
      rfl
  | cons byte rest ih =>
      rw [List.length_cons] at room size
      have below : dst < i := by omega
      obtain ⟨after, goes, sameLength, behind, front⟩ := expandStep_below below bytes
      rw [List.length_cons, List.range'_succ, List.foldlM_cons, goes]
      have shorter : after.length = i + 1 + rest.length := by omega
      have nearer : dst + 2 + rest.length = i + 1 := by omega
      have later := ih behind nearer shorter
      rw [front, List.append_assoc, ← List.flatMap_cons] at later
      have last : dst + 2 + 2 * rest.length = dst + 2 * (rest.length + 1) := by omega
      rw [last] at later
      exact later

/-- With one byte more, the last digit goes behind the end. -/
theorem expand_outside {buf : Buffer} {dst i count : Nat} (room : dst + count = i)
    (size : buf.length = i + count + 1) :
    (List.range' i (count + 1)).foldlM expandStep ⟨buf, dst⟩ = none := by
  induction count generalizing buf dst i with
  | zero =>
      have leaves : expandStep ⟨buf, dst⟩ i = none := by
        rw [expandStep, Option.bind_eq_none_iff]
        intro first there
        rw [Option.bind_eq_none_iff]
        intro after stored
        rw [Option.bind_eq_none_iff]
        intro second again
        have sameLength : after.length = buf.length := length_put stored
        have outside : after.length ≤ dst + 1 := by omega
        rw [put_outside outside]
        rfl
      rw [List.range'_succ, List.foldlM_cons, leaves]
      rfl
  | succ count ih =>
      have inside : i < buf.length := by omega
      have below : dst < i := by omega
      obtain ⟨after, goes, sameLength, -⟩ := expandStep_below below (List.drop_eq_getElem_cons inside)
      have shorter : after.length = i + 1 + count + 1 := by omega
      rw [List.range'_succ, List.foldlM_cons, goes]
      have nearer : dst + 2 + count = i + 1 := by omega
      exact ih nearer shorter

/-- The buffer with the random bytes in it. -/
theorem putAll_random (buf : Buffer) (random : RandomBytes (buf.length / 2)) :
    ∃ filled, putAll buf (buf.length / 2) random.bytes = some filled ∧ filled.length = buf.length ∧
      filled.drop (buf.length / 2) =
        random.bytes ++ buf.drop (buf.length / 2 + random.bytes.length) := by
  have count := random.length
  refine ⟨_, putAll_eq (by omega), ?_, ?_⟩
  · simp only [List.length_append, List.length_take, List.length_drop]
    omega
  · have front : (buf.take (buf.length / 2)).length = buf.length / 2 := List.length_take_of_le (by omega)
    rw [List.append_assoc, List.drop_left' front]

/-- The terminator takes the place of the last digit. -/
theorem put_terminator {text : Buffer} {len : Nat} (size : text.length = len) (positive : 0 < len) :
    put text (len - 1) 0 = some (text.take (len - 1) ++ [0]) := by
  have inside : len - 1 < text.length := by omega
  have stored := put_inside inside (0 : UInt8)
  have front := take_succ_put stored
  have all : (text.set (len - 1) 0).length ≤ len - 1 + 1 := by
    rw [List.length_set]
    omega
  rw [stored, ← front, List.take_of_length_le all]

end RandomHexText

open RandomHexText in
/-- The expansion works for every buffer of an even length.  For an odd length it leaves the buffer as
soon as there are random bytes. -/
theorem secureRandomHexText_expands_iff {buf : Buffer} (nonempty : buf ≠ [])
    (random : RandomBytes (buf.length / 2)) :
    Expands buf random ↔ buf.length % 2 = 0 ∨ random.result ≠ 1 := by
  have positive : 0 < buf.length := List.length_pos_of_ne_nil nonempty
  have count := random.length
  obtain ⟨filled, stored, size, upper⟩ := putAll_random buf random
  by_cases delivered : random.result = 1
  · by_cases even : buf.length % 2 = 0
    · refine iff_of_true ?_ (.inl even)
      have nothing : buf.drop (buf.length / 2 + random.bytes.length) = [] :=
        List.drop_eq_nil_of_le (by omega)
      rw [nothing, List.append_nil] at upper
      have expanded := expand_all upper (by omega : 0 + random.bytes.length = buf.length / 2) (by omega)
      have rounds : buf.length - buf.length / 2 = random.bytes.length := by omega
      have full : (random.bytes.flatMap digits).length = buf.length := by
        rw [length_flatMap_digits]
        omega
      refine ⟨0, (random.bytes.flatMap digits).take (buf.length - 1) ++ [0], ?_, by simp [delivered], ?_⟩
      · simp only [secureRandomHexText, stored, Option.bind_some, if_pos delivered, rounds, expanded,
          List.take_zero, List.nil_append, put_terminator full positive, Option.map_some]
      · intro _
        refine ⟨_, rfl, ?_, ?_, List.take_prefix ..⟩
        · rw [List.length_take_of_le (by omega)]
          omega
        · exact fun letter inside => mem_hex (List.mem_of_mem_take inside)
    · refine iff_of_false ?_ (not_or.mpr ⟨even, not_not_intro delivered⟩)
      rintro ⟨exitCode, after, returned, -⟩
      have leaves := expand_outside (by omega : 0 + buf.length / 2 = buf.length / 2)
        (by omega : filled.length = buf.length / 2 + buf.length / 2 + 1)
      have rounds : buf.length - buf.length / 2 = buf.length / 2 + 1 := by omega
      simp only [secureRandomHexText, stored, Option.bind_some, if_pos delivered, rounds, leaves,
        Option.bind_none, reduceCtorEq] at returned
  · refine iff_of_true ⟨-1, filled, ?_, by simp [delivered], fun works => absurd works delivered⟩
      (.inr delivered)
    simp only [secureRandomHexText, stored, Option.bind_some, if_neg delivered]

open RandomHexText in
/-- Two random bytes in a buffer of four. -/
theorem secureRandomHexText_four :
    Expands [0, 0, 0, 0] ⟨1, [0x5a, 0xf0], rfl⟩ :=
  (secureRandomHexText_expands_iff (List.cons_ne_nil _ _) _).mpr (.inl rfl)

open RandomHexText in
/-- In a buffer of three bytes the second digit of the last one goes behind the end. -/
theorem secureRandomHexText_three :
    secureRandomHexText [0, 0, 0] ⟨1, [0x5a], rfl⟩ = none ∧ ¬ Expands [0, 0, 0] ⟨1, [0x5a], rfl⟩ := by
  have outside : secureRandomHexText [0, 0, 0] ⟨1, [0x5a], rfl⟩ = none := by decide
  refine ⟨outside, ?_⟩
  rintro ⟨exitCode, after, returned, -⟩
  cases outside.symm.trans returned

end Tegenaria.LibSecure
