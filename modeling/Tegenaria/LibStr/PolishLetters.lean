import Tegenaria.LibStr.Compare

/-!
# Polish letters

`StrRemovePlChars_utf8` takes each of the bytes 0xc3, 0xc4 and 0xc5 together with the byte behind it,
whatever that is.  When it is the terminator, the loop goes on behind the string.
-/

namespace Tegenaria.LibStr

namespace PolishLetters

def blank : UInt8 := 32

/-- The inner `switch` of each byte that the outer one has a case for. -/
def inner : UInt8 → Option (UInt8 → UInt8)
  | 0xc4 => some fun
      | 0x84 => 65
      | 0x85 => 97
      | 0x86 => 67
      | 0x87 => 99
      | 0x98 => 69
      | 0x99 => 101
      | _ => blank
  | 0xc5 => some fun
      | 0x81 => 76
      | 0x82 => 108
      | 0x83 => 78
      | 0x84 => 110
      | 0x9a => 83
      | 0x9b => 115
      | 0xb9 => 90
      | 0xba => 122
      | 0xbb => 90
      | 0xbc => 122
      | _ => blank
  | 0xc3 => some fun
      | 0x93 => 79
      | 0xb3 => 111
      | _ => blank
  | _ => none

/-- The loop on the memory from `src` on: the bytes that it writes to `dst`, or nothing if it reads
behind the memory. -/
def clean : Chars → Option Chars
  | [] => none
  | letter :: rest =>
      if letter = 0 then some [0]
      else
        match inner letter, rest with
        | some _, [] => none
        | some plain, trail :: rest => (clean rest).map (plain trail :: ·)
        | none, rest => (clean rest).map (letter :: ·)

end PolishLetters

/-- `StrRemovePlChars_utf8`: the exit code and the bytes that are written. -/
def strRemovePlCharsUtf8 (dst : Bool) (src : Option CString) : Option (Int × Chars) :=
  match dst, src with
  | true, some src => (PolishLetters.clean src.memory).map fun written => (0, written)
  | _, _ => some (-1, [])

namespace PolishLetters

/-! ## Letters and their plain forms -/

/-- The letters that are listed, in UTF-8, with their plain forms. -/
def listed : List (UInt8 × UInt8 × UInt8) :=
  [(0xc4, 0x84, 65), (0xc4, 0x85, 97), (0xc4, 0x86, 67), (0xc4, 0x87, 99), (0xc4, 0x98, 69),
    (0xc4, 0x99, 101), (0xc5, 0x81, 76), (0xc5, 0x82, 108), (0xc5, 0x83, 78), (0xc5, 0x84, 110),
    (0xc5, 0x9a, 83), (0xc5, 0x9b, 115), (0xc5, 0xb9, 90), (0xc5, 0xba, 122), (0xc5, 0xbb, 90),
    (0xc5, 0xbc, 122), (0xc3, 0x93, 79), (0xc3, 0xb3, 111)]

/-- The text begins with a listed letter. -/
def BeginsLetter (text : Chars) : Prop :=
  ∃ entry ∈ listed, [entry.1, entry.2.1] <+: text

/-- A text without Polish letters: each listed letter is replaced by its plain form, ASCII characters
stay, and each other byte leaves one byte or none. -/
inductive Plain : Chars → Chars → Prop where
  | nil : Plain [] []
  | letter {lead trail ascii : UInt8} {text result : Chars} :
      (lead, trail, ascii) ∈ listed → Plain text result → Plain (lead :: trail :: text) (ascii :: result)
  | ascii {letter : UInt8} {text result : Chars} :
      letter < 128 → Plain text result → Plain (letter :: text) (letter :: result)
  | other {byte : UInt8} {text front result : Chars} :
      128 ≤ byte → ¬ BeginsLetter (byte :: text) → front.length ≤ 1 → Plain text result →
        Plain (byte :: text) (front ++ result)

/-- What the call is for: it reads nothing behind the terminator, writes not more bytes than the text
has, and a terminator, and leaves the text without its Polish letters. -/
def Removes (src : CString) : Prop :=
  ∃ result, strRemovePlCharsUtf8 true (some src) = some (0, result ++ [0]) ∧
    result.length ≤ src.chars.length ∧ Plain src.chars result

/-- Behind each of the three bytes stands one that is lost by right: it is no ASCII character but a
blank, and does not begin a listed letter. -/
def Paired : Chars → Prop
  | [] => True
  | letter :: rest =>
      match inner letter, rest with
      | some _, [] => False
      | some _, trail :: rest =>
          (128 ≤ trail ∨ trail = blank) ∧ ¬ BeginsLetter (trail :: rest) ∧ Paired rest
      | none, rest => Paired rest

/-! ## The listed letters -/

theorem beginsLetter_cons {lead trail : UInt8} {rest : Chars} :
    BeginsLetter (lead :: trail :: rest) ↔ ∃ ascii, (lead, trail, ascii) ∈ listed := by
  constructor
  · rintro ⟨⟨first, second, ascii⟩, member, begins⟩
    obtain ⟨sameLead, begins⟩ := List.cons_prefix_cons.mp begins
    obtain ⟨sameTrail, -⟩ := List.cons_prefix_cons.mp begins
    rw [← sameLead, ← sameTrail]
    exact ⟨ascii, member⟩
  · rintro ⟨ascii, member⟩
    exact ⟨_, member, List.prefix_append [lead, trail] rest⟩

theorem listed_bytes : ∀ entry ∈ listed, 128 ≤ entry.1 ∧ 128 ≤ entry.2.1 ∧
    (inner entry.1).map (· entry.2.1) = some entry.2.2 ∧ (inner entry.2.1).isNone = true ∧
      entry.2.2 < 128 ∧ entry.2.2 ≠ blank := by
  have every : (listed.all fun entry => decide (128 ≤ entry.1 ∧ 128 ≤ entry.2.1 ∧
      (inner entry.1).map (· entry.2.1) = some entry.2.2 ∧ (inner entry.2.1).isNone = true ∧
        entry.2.2 < 128 ∧ entry.2.2 ≠ blank)) = true := by decide
  intro entry member
  exact of_decide_eq_true (List.all_eq_true.mp every entry member)

theorem inner_ascii {letter : UInt8} (ascii : letter < 128) : inner letter = none := by
  unfold inner
  split
  · exact absurd ascii (by decide)
  · exact absurd ascii (by decide)
  · exact absurd ascii (by decide)
  · rfl

theorem not_beginsLetter {letter : UInt8} (none : inner letter = none) (rest : Chars) :
    ¬ BeginsLetter (letter :: rest) := by
  rintro ⟨entry, member, begins⟩
  obtain ⟨rfl, -⟩ := List.cons_prefix_cons.mp begins
  have found := (listed_bytes entry member).2.2.1
  rw [none] at found
  cases found

theorem inner_bytes {letter : UInt8} {plain : UInt8 → UInt8} (found : inner letter = some plain) :
    128 ≤ letter ∧ ∀ trail, plain trail = blank ∨ ∃ ascii, (letter, trail, ascii) ∈ listed := by
  unfold inner at found
  split at found
  case h_4 => cases found
  all_goals
    cases found
    refine ⟨by decide, fun trail => ?_⟩
    beta_reduce
    split <;> simp [listed]

/-! ## The loop -/

theorem clean_copied {letter : UInt8} (visible : letter ≠ 0) (none : inner letter = none) (rest : Chars) :
    clean (letter :: rest) = (clean rest).map (letter :: ·) := by
  simp only [clean, if_neg visible, none]

theorem clean_pair {letter : UInt8} {plain : UInt8 → UInt8} (visible : letter ≠ 0)
    (found : inner letter = some plain) (trail : UInt8) (rest : Chars) :
    clean (letter :: trail :: rest) = (clean rest).map (plain trail :: ·) := by
  rw [clean.eq_def]
  simp only [if_neg visible, found]

/-- A pair is lost by right. -/
theorem plain_pair {letter trail : UInt8} {plain : UInt8 → UInt8} {rest result : Chars}
    (found : inner letter = some plain) (harmless : 128 ≤ trail ∨ trail = blank)
    (other : ¬ BeginsLetter (trail :: rest)) (cleaned : Plain rest result) :
    Plain (letter :: trail :: rest) (plain trail :: result) := by
  obtain ⟨large, listing⟩ := inner_bytes found
  by_cases begins : BeginsLetter (letter :: trail :: rest)
  · obtain ⟨ascii, member⟩ := beginsLetter_cons.mp begins
    have same := (listed_bytes _ member).2.2.1
    rw [found, Option.map_some, Option.some.injEq] at same
    rw [same]
    exact .letter member cleaned
  · have unlisted : plain trail = blank :=
      (listing trail).resolve_right fun member => begins (beginsLetter_cons.mpr member)
    rw [unlisted]
    rcases harmless with high | same
    · have second : Plain (trail :: rest) ([] ++ result) := .other high other (Nat.zero_le 1) cleaned
      have both : Plain (letter :: trail :: rest) ([blank] ++ result) :=
        .other large begins (Nat.le_refl 1) second
      exact both
    · rw [same] at begins ⊢
      have second : Plain (blank :: rest) (blank :: result) := .ascii (by decide) cleaned
      have both : Plain (letter :: blank :: rest) ([] ++ blank :: result) :=
        .other large begins (Nat.zero_le 1) second
      exact both

theorem Paired.cleaned {text : Chars} (paired : Paired text) (visible : 0 ∉ text) :
    ∃ result, clean (text ++ [0]) = some (result ++ [0]) ∧ Plain text result := by
  fun_induction Paired text with
  | case1 => exact ⟨[], rfl, .nil⟩
  | case2 letter plain found => exact paired.elim
  | case3 letter plain trail rest found ih =>
      rw [List.mem_cons, not_or, List.mem_cons, not_or] at visible
      obtain ⟨harmless, other, later⟩ := paired
      obtain ⟨result, returned, cleaned⟩ := ih later visible.2.2
      refine ⟨plain trail :: result, ?_, plain_pair found harmless other cleaned⟩
      rw [List.cons_append, List.cons_append, clean_pair (Ne.symm visible.1) found, returned]
      rfl
  | case4 letter rest none ih =>
      rw [List.mem_cons, not_or] at visible
      obtain ⟨result, returned, cleaned⟩ := ih paired visible.2
      refine ⟨letter :: result, ?_, ?_⟩
      · rw [List.cons_append, clean_copied (Ne.symm visible.1) none, returned]
        rfl
      · by_cases ascii : letter < 128
        · exact .ascii ascii cleaned
        · have copied : Plain (letter :: rest) ([letter] ++ result) :=
            .other (UInt8.not_lt.mp ascii) (not_beginsLetter none rest) (Nat.le_refl 1) cleaned
          exact copied

/-! ## Lost characters -/

instance (text : Chars) : Decidable (BeginsLetter text) :=
  inferInstanceAs (Decidable (∃ entry ∈ listed, [entry.1, entry.2.1] <+: text))

/-- An ASCII character other than a blank. -/
def isInk (letter : UInt8) : Bool := letter < 128 && letter ≠ blank

/-- How much ink the text has without its Polish letters. -/
def required : Chars → Nat
  | [] => 0
  | letter :: rest => (if isInk letter ∨ BeginsLetter (letter :: rest) then 1 else 0) + required rest

theorem isInk_of_large {letter : UInt8} (large : 128 ≤ letter) : isInk letter = false := by
  rw [isInk, decide_eq_false (UInt8.not_lt.mpr large), Bool.false_and]

theorem isInk_eq_false {letter : UInt8} : isInk letter = false ↔ 128 ≤ letter ∨ letter = blank := by
  rw [isInk, Bool.and_eq_false_iff, decide_eq_false_iff_not, decide_eq_false_iff_not, UInt8.not_lt,
    not_not]

/-- The second byte of a listed letter asks for nothing. -/
theorem required_letter {lead trail ascii : UInt8} {text : Chars} (member : (lead, trail, ascii) ∈ listed) :
    required (lead :: trail :: text) = required text + 1 := by
  obtain ⟨-, high, -, outer, -⟩ := listed_bytes _ member
  have other := not_beginsLetter (Option.isNone_iff_eq_none.mp outer) text
  have begins : BeginsLetter (lead :: trail :: text) := beginsLetter_cons.mpr ⟨ascii, member⟩
  rw [required, required, if_pos (.inr begins), if_neg, Nat.zero_add, Nat.add_comm]
  rw [not_or, isInk_of_large high]
  exact ⟨Bool.false_ne_true, other⟩

/-- All that is required is there. -/
theorem Plain.required_le {text result : Chars} (cleaned : Plain text result) :
    required text ≤ result.countP isInk := by
  induction cleaned with
  | nil => exact Nat.le_refl 0
  | @letter lead trail ascii text result member later ih =>
      obtain ⟨-, -, -, -, small, inked⟩ := listed_bytes _ member
      have ink : isInk ascii = true := by simp [isInk, small, inked]
      rw [required_letter member, List.countP_cons_of_pos ink]
      exact Nat.succ_le_succ ih
  | @ascii letter text result small later ih =>
      have other : ¬ BeginsLetter (letter :: text) := not_beginsLetter (inner_ascii small) text
      rw [required, List.countP_cons]
      simp only [other, or_false]
      omega
  | @other byte text front result large other short later ih =>
      rw [required, if_neg, Nat.zero_add, List.countP_append]
      · omega
      · rw [not_or, isInk_of_large large]
        exact ⟨Bool.false_ne_true, other⟩

/-- What a pair adds. -/
theorem pair_counts {letter trail : UInt8} {plain : UInt8 → UInt8} {rest result : Chars}
    (found : inner letter = some plain) (atMost : result.countP isInk ≤ required rest)
    (equal : result.countP isInk = required rest → Paired rest) :
    (plain trail :: result).countP isInk ≤ required (letter :: trail :: rest) ∧
      ((plain trail :: result).countP isInk = required (letter :: trail :: rest) →
        (128 ≤ trail ∨ trail = blank) ∧ ¬ BeginsLetter (trail :: rest) ∧ Paired rest) := by
  obtain ⟨large, listing⟩ := inner_bytes found
  by_cases begins : BeginsLetter (letter :: trail :: rest)
  · obtain ⟨ascii, member⟩ := beginsLetter_cons.mp begins
    obtain ⟨-, high, same, outer, small, inked⟩ := listed_bytes _ member
    rw [found, Option.map_some, Option.some.injEq] at same
    have ink : isInk (plain trail) = true := by simp [isInk, same, small, inked]
    rw [required_letter member, List.countP_cons_of_pos ink]
    refine ⟨Nat.succ_le_succ atMost, fun all => ⟨.inl high, ?_, equal (Nat.succ.inj all)⟩⟩
    exact not_beginsLetter (Option.isNone_iff_eq_none.mp outer) rest
  · have unlisted : plain trail = blank :=
      (listing trail).resolve_right fun member => begins (beginsLetter_cons.mpr member)
    have none : isInk (plain trail) = false := isInk_eq_false.mpr (.inr unlisted)
    have first : ¬ (isInk letter = true ∨ BeginsLetter (letter :: trail :: rest)) := by
      rw [not_or, isInk_of_large large]
      exact ⟨Bool.false_ne_true, begins⟩
    rw [List.countP_cons_of_neg (by rw [none]; exact Bool.false_ne_true), required, if_neg first,
      Nat.zero_add, required]
    by_cases lost : isInk trail = true ∨ BeginsLetter (trail :: rest)
    · rw [if_pos lost]
      exact ⟨by omega, fun all => by omega⟩
    · rw [if_neg lost, Nat.zero_add]
      rw [not_or, Bool.not_eq_true, isInk_eq_false] at lost
      exact ⟨atMost, fun all => ⟨lost.1, lost.2, equal all⟩⟩

/-- What the loop leaves is not more than what is required, and less if a byte is lost that must
not. -/
theorem clean_counts {text written : Chars} (visible : 0 ∉ text)
    (returned : clean (text ++ [0]) = some written) :
    ∃ result, written = result ++ [0] ∧ result.length ≤ text.length ∧
      result.countP isInk ≤ required text ∧
      (result.countP isInk = required text → Paired text) := by
  fun_induction Paired text generalizing written with
  | case1 =>
      cases returned
      exact ⟨[], rfl, Nat.le_refl 0, Nat.le_refl 0, fun _ => trivial⟩
  | case2 letter plain found =>
      rw [List.mem_singleton] at visible
      rw [List.singleton_append, clean_pair (Ne.symm visible) found] at returned
      cases returned
  | case3 letter plain trail rest found ih =>
      rw [List.mem_cons, not_or, List.mem_cons, not_or] at visible
      rw [List.cons_append, List.cons_append, clean_pair (Ne.symm visible.1) found] at returned
      obtain ⟨written, later, rfl⟩ := Option.map_eq_some_iff.mp returned
      obtain ⟨result, rfl, short, atMost, equal⟩ := ih visible.2.2 later
      refine ⟨plain trail :: result, rfl, ?_, ?_⟩
      · simp only [List.length_cons]
        omega
      · exact pair_counts found atMost equal
  | case4 letter rest none ih =>
      rw [List.mem_cons, not_or] at visible
      rw [List.cons_append, clean_copied (Ne.symm visible.1) none] at returned
      obtain ⟨written, later, rfl⟩ := Option.map_eq_some_iff.mp returned
      obtain ⟨result, rfl, short, atMost, equal⟩ := ih visible.2 later
      have other := not_beginsLetter none rest
      refine ⟨letter :: result, rfl, Nat.succ_le_succ short, ?_, ?_⟩
      · rw [required, List.countP_cons]
        simp only [other, or_false]
        omega
      · rw [required, List.countP_cons]
        simp only [other, or_false]
        intro same
        exact equal (by omega)

end PolishLetters

open PolishLetters in
/-- The function does what it is for exactly when each of the three bytes, read from the left, takes a
byte along that may get lost. -/
theorem strRemovePlChars_removes_iff (src : CString) : Removes src ↔ Paired src.chars := by
  constructor
  · rintro ⟨result, returned, -, cleaned⟩
    obtain ⟨written, loop, same⟩ := Option.map_eq_some_iff.mp returned
    obtain ⟨other, rfl, -, atMost, equal⟩ := clean_counts src.plain loop
    obtain rfl := List.append_cancel_right (Prod.mk.inj same).2
    exact equal (Nat.le_antisymm atMost cleaned.required_le)
  · intro paired
    obtain ⟨result, returned, cleaned⟩ := paired.cleaned src.plain
    obtain ⟨other, same, short, -⟩ := clean_counts src.plain returned
    obtain rfl := List.append_cancel_right same
    exact ⟨result, congrArg (Option.map fun written => (0, written)) returned, short, cleaned⟩

/-- A string that ends inside of a character. -/
def cutString : CString := ⟨[97, 0xc4], by decide⟩

open PolishLetters in
/-- The loop goes on behind the terminator; and an `a` behind the first byte of a letter gets lost. -/
theorem strRemovePlChars_cut :
    strRemovePlCharsUtf8 true (some cutString) = none ∧ ¬ Removes cutString ∧
      strRemovePlCharsUtf8 true (some ⟨[0xc4, 97], by decide⟩) = some (0, [32, 0]) := by
  have outside : strRemovePlCharsUtf8 true (some cutString) = none := by decide
  refine ⟨outside, ?_, by decide⟩
  rintro ⟨result, returned, -⟩
  cases outside.symm.trans returned

end Tegenaria.LibStr
