import Tegenaria.Foundation.BoundedBuffer
import Tegenaria.LibNet.Atoi
import Tegenaria.LibStr.Compare

/-!
# Taking a text apart

`StrPopInt`, `StrMatch` and `StrPopAlphaWord` move a pointer through a string.  A pointer is modelled
by the characters from there on.

A number is read together with its sign, but the pointer moves over digits only.  A pattern is
looked for in the whole rest of the string.  A word that fills its buffer loses the last letter that was
taken from the string, and the terminator of a word in an empty buffer stands before the buffer.
-/

namespace Tegenaria.LibStr

open Foundation.BoundedBuffer LibNet

namespace TextParser

/-- `isdigit` -/
def isDigit (letter : UInt8) : Bool := 48 ≤ letter && letter ≤ 57

/-- The loop of `StrPopAlphaWord` over letters: the string, the buffer, the place of `word` in it and
`wordSize` behind the loop. -/
def popLetters : Chars → Chars → Nat → Int → Option (Chars × Chars × Nat × Int)
  | letter :: rest, buffer, word, wordSize =>
      if isAlpha letter && 0 < wordSize then
        (put buffer word letter).bind fun buffer => popLetters rest buffer (word + 1) (wordSize - 1)
      else some (letter :: rest, buffer, word, wordSize)
  | [], buffer, word, wordSize => some ([], buffer, word, wordSize)

/-- The terminator, in the last letter when there is no more room. -/
def terminate (buffer : Chars) (word : Nat) (wordSize : Int) : Option Chars :=
  if 0 < wordSize then put buffer word 0
  else
    match word with
    | 0 => none
    | last + 1 => put buffer last 0

end TextParser

open TextParser

/-- `StrPopInt`: the result and the pointer. -/
def strPopInt (it : Option Chars) : Int × Option Chars :=
  match it with
  | none => (0, none)
  | some it =>
      let it := it.dropWhile isBlank
      (atoi it, some (it.dropWhile isDigit))

/-- `StrMatch`: the result and the pointer. -/
def strMatch (it : Option CString) (pattern : CString) : Option Chars × Option Chars :=
  match it with
  | none => (none, none)
  | some it =>
      match strstr it.chars pattern.chars with
      | some next =>
          let it := it.chars.drop (next + pattern.chars.length)
          (some it, some it)
      | none => (some it.chars, some it.chars)

/-- `StrPopAlphaWord`: the pointer and the buffer, or nothing if it writes outside of the buffer. -/
def strPopAlphaWord (it : Option Chars) (word : Option Chars) (wordSize : Int) :
    Option (Option Chars × Option Chars) :=
  match it, word with
  | some it, some word =>
      (popLetters (it.dropWhile isBlank) word 0 wordSize).bind fun (it, word, place, wordSize) =>
        (terminate word place wordSize).map fun word => (some it, some word)
  | it, word => some (it, word)

namespace TextParser

/-! ## What the functions are for -/

/-- The decimal form of an `int`. -/
def decimalInt (value : Int32) : Chars :=
  if value < 0 then 45 :: decimal value.toInt.natAbs else decimal value.toInt.toNat

/-- The number is returned, and the pointer stands behind it. -/
def PopsInt (value : Int32) (white tail : Chars) : Prop :=
  strPopInt (some (white ++ decimalInt value ++ tail)) = (value.toInt, some tail)

/-- The pointer moves behind a pattern with which the text begins; otherwise the result is `NULL`, and
the pointer stays. -/
structure Matches (text pattern : CString) : Prop where
  found : ∀ rest, text.chars = pattern.chars ++ rest →
    (strMatch (some text) pattern).1 ≠ none ∧ (strMatch (some text) pattern).2 = some rest
  absent : ¬ pattern.chars <+: text.chars → strMatch (some text) pattern = (none, some text.chars)

/-- The letters behind the white space. -/
def lettersOf (text : Chars) : Chars := (text.dropWhile isBlank).takeWhile isAlpha

/-- The letters that fit into the buffer are stored with a terminator, and nothing is written into a
buffer without room. -/
def StoresWord (text word : Chars) : Prop :=
  ∃ it, strPopAlphaWord (some text) (some word) word.length = some (it, some
    (if word = [] then [] else
      let stored := (lettersOf text).take (word.length - 1)
      stored ++ 0 :: word.drop (stored.length + 1)))

/-- In addition, the pointer moves over the stored letters. -/
def PopsWord (text word : Chars) : Prop :=
  StoresWord text word ∧ ∃ after, strPopAlphaWord (some text) (some word) word.length =
    some (some ((text.dropWhile isBlank).drop ((lettersOf text).take (word.length - 1)).length), after)


/-! ## Numbers -/

variable {text word buffer white tail : Chars}

theorem isDigit_iff {letter : UInt8} : isDigit letter = true ↔ 48 ≤ letter ∧ letter ≤ 57 := by
  rw [isDigit, Bool.and_eq_true, decide_eq_true_eq, decide_eq_true_eq]

theorem decimal_digits (value : Nat) : ∀ letter ∈ decimal value, isDigit letter = true := by
  fun_induction decimal value with
  | case1 value small =>
      intro letter member
      rw [List.mem_singleton.mp member]
      exact Iff.mpr isDigit_iff (digit_cases small).1
  | case2 value large ih =>
      intro letter member
      cases List.mem_append.mp member with
      | inl earlier => exact ih letter earlier
      | inr last =>
          rw [List.mem_singleton.mp last]
          exact Iff.mpr isDigit_iff (digit_cases (Nat.mod_lt _ (by decide))).1

theorem dropWhile_stop {stops : UInt8 → Bool} (other : ∀ letter ∈ tail.head?, stops letter = false) :
    tail.dropWhile stops = tail := by
  cases tail with
  | nil => rfl
  | cons letter rest =>
      have same := other letter rfl
      exact List.dropWhile_cons_of_neg (by rw [same]; decide)

/-- Numbers end before a letter that is no digit. -/
theorem readDigits_stop (other : ∀ letter ∈ tail.head?, isDigit letter = false) (value : Int) :
    readDigits value tail = value := by
  cases tail with
  | nil => rfl
  | cons letter rest =>
      have noDigit : ¬ (48 ≤ letter ∧ letter ≤ 57) := by
        intro digit
        exact absurd (Iff.mpr isDigit_iff digit) (by rw [other letter rfl]; decide)
      rw [readDigits, if_neg noDigit]

theorem decimalInt_begin (value : Int32) :
    ∀ letter ∈ (decimalInt value ++ tail).head?, isBlank letter = false := by
  rw [decimalInt]
  split
  · intro letter first
    cases Option.some.inj first
    decide
  · obtain ⟨first, small, rest, digits⟩ := decimal_begin value.toInt.toNat
    intro letter begins
    rw [digits] at begins
    cases Option.some.inj begins
    exact (digit_cases small).2.1

/-- White space is passed over, and the rest is read twice. -/
theorem strPopInt_eq (blank : ∀ letter ∈ white, isBlank letter = true) (value : Int32) :
    strPopInt (some (white ++ decimalInt value ++ tail)) =
      (atoi (decimalInt value ++ tail), some ((decimalInt value ++ tail).dropWhile isDigit)) := by
  rw [strPopInt, List.append_assoc, List.dropWhile_append_of_pos blank,
    dropWhile_stop (decimalInt_begin value)]

theorem popsInt_nonneg (blank : ∀ letter ∈ white, isBlank letter = true)
    (other : ∀ letter ∈ tail.head?, isDigit letter = false) {value : Int32} (nonneg : ¬ value < 0) :
    PopsInt value white tail := by
  have positive : 0 ≤ value.toInt := by
    rw [Int32.lt_iff_toInt_lt] at nonneg
    exact Int.not_lt.mp nonneg
  have digits : decimalInt value = decimal value.toInt.toNat := if_neg nonneg
  have read : atoi (decimalInt value ++ tail) = value.toInt := by
    obtain ⟨first, small, rest, begins⟩ := decimal_begin value.toInt.toNat
    have begins : decimalInt value ++ tail = digit first :: (rest ++ tail) := by
      rw [digits, begins, List.cons_append]
    rw [atoi_digits small begins, digits, readDigits_decimal, readDigits_stop other,
      Int.toNat_of_nonneg positive, longToInt_of_fits value.le_toInt value.toInt_lt]
  have passed : (decimalInt value ++ tail).dropWhile isDigit = tail := by
    rw [digits, List.dropWhile_append_of_pos (decimal_digits _), dropWhile_stop other]
  rw [PopsInt, strPopInt_eq blank, read, passed]

/-- The pointer stays at a sign. -/
theorem not_popsInt_negative (blank : ∀ letter ∈ white, isBlank letter = true) {value : Int32}
    (negative : value < 0) : ¬ PopsInt value white tail := by
  intro pops
  have sign : decimalInt value = 45 :: decimal value.toInt.natAbs := if_pos negative
  have stays : (decimalInt value ++ tail).dropWhile isDigit = decimalInt value ++ tail := by
    rw [sign]
    exact List.dropWhile_cons_of_neg (by decide)
  rw [PopsInt, strPopInt_eq blank, stays] at pops
  have same := Option.some.inj (Prod.mk.inj pops).2
  have longer := congrArg List.length same
  rw [sign, List.cons_append, List.length_cons, List.length_append] at longer
  omega

theorem popsInt_iff (blank : ∀ letter ∈ white, isBlank letter = true)
    (other : ∀ letter ∈ tail.head?, isDigit letter = false) (value : Int32) :
    PopsInt value white tail ↔ 0 ≤ value := by
  constructor
  · intro pops
    refine Int32.not_lt.mp ?_
    intro negative
    exact not_popsInt_negative blank negative pops
  · intro nonneg
    exact popsInt_nonneg blank other (Int32.not_lt.mpr nonneg)

/-! ## Patterns -/

theorem strMatch_begin {text pattern : CString} {rest : Chars}
    (begins : text.chars = pattern.chars ++ rest) :
    strMatch (some text) pattern = (some rest, some rest) := by
  have found : strstr text.chars pattern.chars = some 0 := by
    rw [begins]
    exact strstr_eq_some (Foundation.Occurrence.cut_begin pattern.chars rest)
  simp only [strMatch, found]
  rw [Nat.zero_add, begins, List.drop_left]

theorem strMatch_ne_none (text pattern : CString) : (strMatch (some text) pattern).1 ≠ none := by
  rw [strMatch]
  split <;> exact Option.some_ne_none _

theorem matches_iff (text pattern : CString) : Matches text pattern ↔ pattern.chars <+: text.chars := by
  constructor
  · intro agrees
    by_contra absent
    have none := agrees.absent absent
    exact strMatch_ne_none text pattern (by rw [none])
  · intro begins
    constructor
    · intro rest split
      rw [strMatch_begin split]
      exact ⟨Option.some_ne_none _, rfl⟩
    · intro absent
      exact absurd begins absent

/-! ## Words -/

/-- The loop stores the letters that fit, and moves over as many. -/
theorem popLetters_eq (text : Chars) {buffer : Chars} {word wordSize : Nat}
    (fits : word + wordSize ≤ buffer.length) :
    popLetters text buffer word wordSize =
      (putAll buffer word ((text.takeWhile isAlpha).take wordSize)).map fun after =>
        let stored := ((text.takeWhile isAlpha).take wordSize).length
        (text.drop stored, after, word + stored, (wordSize : Int) - stored) := by
  induction text generalizing buffer word wordSize with
  | nil => simp [popLetters, putAll]
  | cons letter rest ih =>
      cases wordSize with
      | zero => simp [popLetters, putAll]
      | succ room =>
          by_cases alpha : isAlpha letter = true
          · have inside : word < buffer.length := by omega
            have smaller : ((room + 1 : Nat) : Int) - 1 = room := by omega
            have shorter : word + 1 + room ≤ (buffer.set word letter).length := by
              rw [List.length_set]
              omega
            rw [popLetters, alpha, if_pos (by simp), put_inside inside, Option.bind_some, smaller,
              ih shorter, List.takeWhile_cons_of_pos alpha, List.take_succ_cons, putAll_cons, put_inside inside,
              Option.bind_some]
            congr 1
            funext after
            simp only [List.length_cons, List.drop_succ_cons, Prod.mk.injEq, true_and]
            omega
          · have other : isAlpha letter = false := by simpa using alpha
            rw [popLetters, other, if_neg (by simp), List.takeWhile_cons_of_neg alpha]
            simp [putAll]

/-- Letters that leave room are followed by the terminator. -/
theorem terminate_room {kept : Chars} (room : kept.length < word.length) :
    terminate (kept ++ word.drop kept.length) kept.length (word.length - kept.length) =
      some (kept ++ 0 :: word.drop (kept.length + 1)) := by
  have left : (0 : Int) < word.length - kept.length := by omega
  have inside : kept.length < (kept ++ word.drop kept.length).length := by
    rw [List.length_append, List.length_drop]
    omega
  rw [terminate.eq_def, if_pos left, put_inside inside, List.set_append_right _ _ (Nat.le_refl _),
    Nat.sub_self, List.drop_eq_getElem_cons room, List.set_cons_zero]

/-- Letters that fill the buffer lose the last one. -/
theorem terminate_full {kept : Chars} (nonempty : kept ≠ []) :
    terminate kept kept.length 0 = some (kept.take (kept.length - 1) ++ [0]) := by
  have positive : 0 < kept.length := List.length_pos_of_ne_nil nonempty
  obtain ⟨last, length⟩ : ∃ last, kept.length = last + 1 := ⟨kept.length - 1, by omega⟩
  have behind : kept.drop (last + 1) = [] := List.drop_eq_nil_of_le (by omega)
  rw [terminate.eq_def, if_neg (by decide), length]
  simp only [Nat.add_sub_cancel]
  rw [put_inside (by omega), List.set_eq_take_append_cons_drop, if_pos (by omega), behind]

theorem strPopAlphaWord_loop (text word : Chars) :
    strPopAlphaWord (some text) (some word) word.length =
      let kept := (lettersOf text).take word.length
      (terminate (kept ++ word.drop kept.length) kept.length (word.length - kept.length)).map fun after =>
        (some ((text.dropWhile isBlank).drop kept.length), some after) := by
  have fits : 0 + ((lettersOf text).take word.length).length ≤ word.length := by
    rw [List.length_take]
    omega
  have loop := popLetters_eq (text.dropWhile isBlank) (Nat.le_of_eq (Nat.zero_add word.length))
  have stored := putAll_eq fits
  rw [List.take_zero, List.nil_append, Nat.zero_add] at stored
  change _ = (putAll word 0 ((lettersOf text).take word.length)).map _ at loop
  rw [stored, Option.map_some] at loop
  rw [strPopAlphaWord, loop, Option.bind_some]
  simp only [Nat.zero_add]
  rfl

/-- A buffer with room takes the letters but the last place, and the pointer moves as far as there are
letters and places. -/
theorem strPopAlphaWord_eq (text : Chars) (nonempty : word ≠ []) :
    strPopAlphaWord (some text) (some word) word.length =
      let stored := (lettersOf text).take (word.length - 1)
      some (some ((text.dropWhile isBlank).drop (min word.length (lettersOf text).length)),
        some (stored ++ 0 :: word.drop (stored.length + 1))) := by
  have positive : 0 < word.length := List.length_pos_of_ne_nil nonempty
  rw [strPopAlphaWord_loop]
  simp only [List.length_take]
  by_cases room : (lettersOf text).length < word.length
  · have all : (lettersOf text).take word.length = lettersOf text := List.take_of_length_le (by omega)
    have allButOne : (lettersOf text).take (word.length - 1) = lettersOf text :=
      List.take_of_length_le (by omega)
    have smaller : min word.length (lettersOf text).length = (lettersOf text).length := by omega
    have last : min (word.length - 1) (lettersOf text).length = (lettersOf text).length := by omega
    rw [all, allButOne, smaller, last, terminate_room room, Option.map_some]
  · have full : ((lettersOf text).take word.length).length = word.length := by
      rw [List.length_take]
      omega
    have kept : (lettersOf text).take word.length ≠ [] := by
      intro empty
      rw [empty, List.length_nil] at full
      omega
    have smaller : min word.length (lettersOf text).length = word.length := by omega
    have last : min (word.length - 1) (lettersOf text).length + 1 = word.length := by omega
    have ended := terminate_full kept
    rw [full, List.take_take, Nat.min_eq_left (Nat.sub_le _ _)] at ended
    rw [smaller, last, Int.sub_self, List.drop_length, List.append_nil, ended, Option.map_some]

theorem strPopAlphaWord_empty (text : Chars) : strPopAlphaWord (some text) (some []) 0 = none := by
  have loop := strPopAlphaWord_loop text []
  rw [List.length_nil, List.take_zero] at loop
  exact loop

theorem storesWord_iff (text word : Chars) : StoresWord text word ↔ word ≠ [] := by
  constructor
  · rintro ⟨it, popped⟩ empty
    rw [empty] at popped
    exact absurd (popped.symm.trans (strPopAlphaWord_empty text)) (Option.some_ne_none _)
  · intro nonempty
    rw [StoresWord, if_neg nonempty, strPopAlphaWord_eq text nonempty]
    exact ⟨_, rfl⟩

theorem length_lettersOf_le (text : Chars) : (lettersOf text).length ≤ (text.dropWhile isBlank).length := by
  have begins : lettersOf text <+: text.dropWhile isBlank := List.takeWhile_prefix isAlpha
  exact begins.length_le

theorem popsWord_iff (text word : Chars) : PopsWord text word ↔ (lettersOf text).length < word.length := by
  have inside := length_lettersOf_le text
  constructor
  · rintro ⟨stores, after, popped⟩
    have nonempty := (storesWord_iff text word).mp stores
    have positive : 0 < word.length := List.length_pos_of_ne_nil nonempty
    rw [strPopAlphaWord_eq text nonempty] at popped
    have same := Option.some.inj (Prod.mk.inj (Option.some.inj popped)).1
    have lengths := congrArg List.length same
    rw [List.length_drop, List.length_drop, List.length_take] at lengths
    omega
  · intro room
    have nonempty : word ≠ [] := List.ne_nil_of_length_pos (by omega)
    have moved : min word.length (lettersOf text).length =
        ((lettersOf text).take (word.length - 1)).length := by
      rw [List.length_take]
      omega
    refine ⟨(storesWord_iff text word).mpr nonempty, ?_⟩
    rw [← moved, strPopAlphaWord_eq text nonempty]
    exact ⟨_, rfl⟩

end TextParser

/-- Numbers are popped exactly if they are not negative, a pattern is matched as promised exactly if the
text begins with it, and a word is stored exactly if there is a buffer; the pointer moves over what is
stored exactly if all letters fit. -/
theorem parser_consumes_iff {white tail : Chars} (blank : ∀ letter ∈ white, isBlank letter = true)
    (other : ∀ letter ∈ tail.head?, isDigit letter = false) (value : Int32) (text pattern : CString)
    (letters word : Chars) :
    (PopsInt value white tail ↔ 0 ≤ value) ∧
    (Matches text pattern ↔ pattern.chars <+: text.chars) ∧
    (StoresWord letters word ↔ word ≠ []) ∧
    (PopsWord letters word ↔ (lettersOf letters).length < word.length) :=
  ⟨popsInt_iff blank other value, matches_iff text pattern, storesWord_iff letters word,
    popsWord_iff letters word⟩

theorem parser_consumes_some :
    PopsInt 5 [32] [44] ∧ Matches ⟨[97, 98, 120], by decide⟩ ⟨[97, 98], by decide⟩ ∧
    StoresWord [97] [7, 7] ∧ PopsWord [97] [7, 7] := by
  have blank : ∀ letter ∈ [32], isBlank letter = true := by
    intro letter member
    rw [List.mem_singleton.mp member]
    rfl
  have other : ∀ letter ∈ [44].head?, isDigit letter = false := by
    intro letter first
    cases Option.some.inj first
    rfl
  have consumes := parser_consumes_iff blank other 5
    ⟨[97, 98, 120], by decide⟩ ⟨[97, 98], by decide⟩ [97] [7, 7]
  exact ⟨consumes.1.mpr (by decide), consumes.2.1.mpr (by decide), consumes.2.2.1.mpr (by decide),
    consumes.2.2.2.mpr (by decide)⟩

/-- "-5" is read as -5, and the pointer stays at its sign; "xab" is matched with "ab", and "a" is with "b";
two bytes for "abc" take two letters and keep one; no byte is too little for a terminator. -/
theorem parser_consumes_more :
    ¬ PopsInt (-5) [] [] ∧ strPopInt (some [45, 53]) = (-5, some [45, 53]) ∧
    ¬ Matches ⟨[120, 97, 98], by decide⟩ ⟨[97, 98], by decide⟩ ∧
    strMatch (some ⟨[120, 97, 98], by decide⟩) ⟨[97, 98], by decide⟩ = (some [], some []) ∧
    strMatch (some ⟨[97], by decide⟩) ⟨[98], by decide⟩ = (some [97], some [97]) ∧
    ¬ PopsWord [97, 98, 99] [7, 7] ∧
    strPopAlphaWord (some [97, 98, 99]) (some [7, 7]) 2 = some (some [99], some [97, 0]) ∧
    ¬ StoresWord [97] [] ∧ strPopAlphaWord (some [97]) (some []) 0 = none := by
  refine ⟨not_popsInt_negative (by simp) (by decide), by decide, ?_, by decide, by decide, ?_,
    by decide, ?_, by decide⟩
  · rw [matches_iff]
    decide
  · rw [popsWord_iff]
    decide
  · rw [storesWord_iff]
    decide

end Tegenaria.LibStr
