import Tegenaria.LibStr.Pattern

/-!
# Money with spaces between the thousands

`StrFormatMoney` fills its buffer from the back.  It writes a space behind every third digit,
also when no digit follows, so for a length that is a multiple of three the last space goes to
the byte before the buffer.  When the buffer is too small it writes nothing and returns 0.
-/

namespace Tegenaria.LibStr

open Foundation.Word

namespace Money

def space : UInt8 := 32

/-- A write to a position of the buffer; there is none outside of it. -/
def put (money : Chars) (moneyIdx : Int) (letter : UInt8) : Option Chars :=
  if 0 ≤ moneyIdx ∧ moneyIdx < money.length then some (money.set moneyIdx.toNat letter) else none

structure Filling where
  money : Chars
  moneyIdx : Int
  count : Nat

/-- One round of the loop. -/
def fillStep (state : Filling) (digit : UInt8) : Option Filling :=
  (put state.money state.moneyIdx digit).bind fun money =>
    if state.count + 1 = 3 then
      (put money (state.moneyIdx - 1) space).map fun money => ⟨money, state.moneyIdx - 2, 0⟩
    else some ⟨money, state.moneyIdx - 1, state.count + 1⟩

end Money

/-- `StrFormatMoney` on a buffer of `moneySize` bytes: the exit code and the buffer, or nothing if
it writes outside of the buffer. -/
def strFormatMoney (money : Option Chars) (moneySize : Int) (value : Option CString) :
    Option (Int × Chars) :=
  match money, value with
  | some money, some value =>
      let valueLen := toI32 value.chars.length
      let spaceCnt := (valueLen - 1).tdiv 3
      let moneyIdx := toI32 (valueLen + spaceCnt - 1)
      if toI32 (moneyIdx + 1) < moneySize then
        (Money.put money (moneyIdx + 1) 0).bind fun money =>
          ((value.chars.take valueLen.toNat).reverse.foldlM Money.fillStep ⟨money, moneyIdx, 0⟩).map
            fun filled => (0, filled.money)
      else some (0, money)
  | money, _ => some (-1, money.getD [])

namespace Money

/-! ## Grouped digits -/

/-- A text without every fourth letter. -/
def unspaced : Chars → Chars
  | first :: second :: third :: _ :: rest => first :: second :: third :: unspaced rest
  | short => short

/-- Counted from the right, every fourth letter of the text is a space, the others are those of the
value, and the text does not begin with a space of its own. -/
structure Grouped (value text : Chars) : Prop where
  digits : unspaced text.reverse = value.reverse
  spaces : ∀ position < text.length, position % 4 = 3 → text.reverse[position]? = some space
  noLead : text = [] ∨ text.length % 4 ≠ 0

/-- The length of the grouped value. -/
def formattedLength (value : CString) : Nat := value.chars.length + (value.chars.length - 1) / 3

/-- What a caller expects: nothing is written outside; the grouped value with its terminator stands
at the begin of the buffer if it fits, and otherwise the result is not 0. -/
def Formats (money : Chars) (value : CString) : Prop :=
  ∃ exitCode after, strFormatMoney (some money) money.length (some value) = some (exitCode, after) ∧
    if formattedLength value < money.length then
      exitCode = 0 ∧ ∃ text, Grouped value.chars text ∧
        after = text ++ 0 :: money.drop (text.length + 1)
    else exitCode ≠ 0

/-- The letters in the order in which the loop writes them. -/
@[grind =] def written : Nat → Chars → Chars
  | _, [] => []
  | count, digit :: rest =>
      if count + 1 = 3 then digit :: space :: written 0 rest else digit :: written (count + 1) rest

/-- The writes of the loop, from one position downwards. -/
@[grind =] def putAll (money : Chars) (moneyIdx : Int) : Chars → Option Chars
  | [] => some money
  | letter :: rest => (put money moneyIdx letter).bind fun money => putAll money (moneyIdx - 1) rest

theorem putAll_cons (money : Chars) (moneyIdx : Int) (letter : UInt8) (rest : Chars) :
    putAll money moneyIdx (letter :: rest) =
      (put money moneyIdx letter).bind fun money => putAll money (moneyIdx - 1) rest := rfl

theorem written_three (first second third : UInt8) (rest : Chars) :
    written 0 (first :: second :: third :: rest) =
      first :: second :: third :: space :: written 0 rest := rfl

/-- The loop makes these writes. -/
theorem foldlM_fillStep (digits money : Chars) (moneyIdx : Int) (count : Nat) :
    (digits.foldlM fillStep ⟨money, moneyIdx, count⟩).map Filling.money =
      putAll money moneyIdx (written count digits) := by
  induction digits generalizing money moneyIdx count with
  | nil => rfl
  | cons digit rest ih =>
      rw [List.foldlM_cons, fillStep, written]
      cases stored : put money moneyIdx digit with
      | none =>
          split
          · rw [putAll_cons, stored]
            rfl
          · rw [putAll_cons, stored]
            rfl
      | some next =>
          split
          · rw [putAll_cons, stored, Option.bind_some, Option.bind_some, putAll_cons]
            cases second : put next (moneyIdx - 1) space with
            | none => rfl
            | some last =>
                have back : moneyIdx - 1 - 1 = moneyIdx - 2 := by omega
                rw [Option.bind_some, back]
                exact ih last (moneyIdx - 2) 0
          · rw [putAll_cons, stored]
            exact ih next (moneyIdx - 1) (count + 1)

theorem written_length (digits : Chars) :
    (written 0 digits).length = digits.length + digits.length / 3 := by
  match digits with
  | [] => rfl
  | [_] => simp [written]
  | [_, _] => simp [written]
  | first :: second :: third :: rest =>
      rw [written_three]
      simp only [List.length_cons, written_length rest]
      omega

theorem drop_set {money : Chars} {position : Nat} (inside : position < money.length) (letter : UInt8) :
    (money.set position letter).drop position = letter :: money.drop (position + 1) := by
  rw [List.drop_eq_getElem_cons (by rwa [List.length_set]), List.getElem_set_self,
    List.drop_set_of_lt (Nat.lt_succ_self position)]

/-- The writes stay inside of the buffer when there are not more of them than bytes up to the first
one, which is then followed by what was there. -/
theorem putAll_eq_some {money : Chars} {letters : Chars} {position : Nat}
    (inside : position < money.length) (enough : letters.length = position + 1) :
    putAll money position letters = some (letters.reverse ++ money.drop (position + 1)) := by
  induction letters generalizing money position with
  | nil => simp at enough
  | cons letter rest ih =>
      rw [putAll, put, if_pos (by omega), Option.bind_some, Int.toNat_natCast]
      cases position with
      | zero =>
          obtain rfl : rest = [] := List.eq_nil_of_length_eq_zero (by simpa using enough)
          obtain ⟨head, tail, rfl⟩ := List.exists_cons_of_ne_nil (List.ne_nil_of_length_pos inside)
          rfl
      | succ position =>
          have before : ((position + 1 : Nat) : Int) - 1 = position := by omega
          rw [before, ih (by rw [List.length_set]; omega) (by simpa using enough)]
          rw [drop_set inside, List.reverse_cons, List.append_assoc]
          rfl

/-- One write too many goes to the byte before the buffer. -/
theorem putAll_eq_none {money : Chars} {letters : Chars} {position : Nat}
    (many : position + 1 < letters.length) : putAll money position letters = none := by
  induction letters generalizing money position with
  | nil => simp at many
  | cons letter rest ih =>
      rw [putAll]
      cases stored : put money position letter with
      | none => rfl
      | some next =>
          rw [Option.bind_some]
          cases position with
          | zero =>
              obtain ⟨second, others, rfl⟩ :=
                List.exists_cons_of_ne_nil (List.ne_nil_of_length_pos (by simpa using many) : rest ≠ [])
              rw [putAll, put, if_neg (by omega)]
              rfl
          | succ position =>
              have before : ((position + 1 : Nat) : Int) - 1 = position := by omega
              rw [before]
              exact ih (by simpa using many)

/-! ## What is written -/

theorem unspaced_written (digits : Chars) : unspaced (written 0 digits) = digits := by
  match digits with
  | [] => rfl
  | [_] => simp [written, unspaced]
  | [_, _] => simp [written, unspaced]
  | first :: second :: third :: rest => rw [written_three, unspaced, unspaced_written rest]

theorem written_space (digits : Chars) {position : Nat} (inside : position < (written 0 digits).length)
    (fourth : position % 4 = 3) : (written 0 digits)[position]? = some space := by
  match digits with
  | [] => simp [written] at inside
  | [_] =>
      simp only [written, Nat.reduceAdd, Nat.reduceEqDiff, if_false, List.length_cons,
        List.length_nil] at inside
      omega
  | [_, _] =>
      simp only [written, Nat.reduceAdd, Nat.reduceEqDiff, if_false, List.length_cons,
        List.length_nil] at inside
      omega
  | first :: second :: third :: rest =>
      rw [written_three] at inside ⊢
      match position with
      | 3 => rfl
      | later + 4 =>
          rw [List.getElem?_cons_succ, List.getElem?_cons_succ, List.getElem?_cons_succ,
            List.getElem?_cons_succ]
          exact written_space rest (by simpa using inside) (by omega)

/-- The loop groups the digits when their number is no multiple of three. -/
theorem grouped_written {value : Chars} (partly : value = [] ∨ value.length % 3 ≠ 0) :
    Grouped value (written 0 value.reverse).reverse where
  digits := by rw [List.reverse_reverse, unspaced_written]
  spaces := by
    intro position inside fourth
    rw [List.reverse_reverse]
    rw [List.length_reverse] at inside
    exact written_space _ inside fourth
  noLead := by
    rcases partly with rfl | partly
    · exact .inl rfl
    · right
      rw [List.length_reverse, written_length, List.length_reverse]
      omega

theorem filter_unspaced {letters : Chars}
    (spaces : ∀ position < letters.length, position % 4 = 3 → letters[position]? = some space)
    (plain : space ∉ unspaced letters) : letters.filter (· ≠ space) = unspaced letters := by
  fun_induction unspaced letters with
  | case1 first second third fourth rest ih =>
      have fourthSpace : fourth = space := Option.some.inj (spaces 3 (by simp) rfl)
      have later : ∀ position < rest.length, position % 4 = 3 → rest[position]? = some space :=
        fun position inside place => spaces (position + 4) (by simpa using inside) (by omega)
      simp only [List.mem_cons, not_or] at plain
      have keep : ∀ {letter : UInt8} (others : Chars), ¬ space = letter →
          (letter :: others).filter (· ≠ space) = letter :: others.filter (· ≠ space) :=
        fun others different => List.filter_cons_of_pos (decide_eq_true (Ne.symm different))
      rw [fourthSpace, keep _ plain.1, keep _ plain.2.1, keep _ plain.2.2.1,
        List.filter_cons_of_neg (by simp), ih later plain.2.2.2]
  | case2 short =>
      refine List.filter_eq_self.mpr fun letter mem => decide_eq_true ?_
      rintro rfl
      exact plain mem

/-- Without its spaces the text is the value, if this has none of its own. -/
theorem Grouped.filter {value text : Chars} (grouped : Grouped value text) (plain : space ∉ value) :
    text.filter (· ≠ space) = value := by
  have reversed : text.reverse.filter (· ≠ space) = value.reverse := by
    rw [← grouped.digits]
    refine filter_unspaced ?_ ?_
    · rw [List.length_reverse]
      exact grouped.spaces
    · rwa [grouped.digits, List.mem_reverse]
  rw [List.filter_reverse] at reversed
  exact List.reverse_injective reversed

/-! ## The call -/

theorem spaceCnt_eq (length : Nat) : ((length : Int) - 1).tdiv 3 = ((length - 1) / 3 : Nat) := by
  cases length with
  | zero => decide
  | succ length =>
      have before : ((length + 1 : Nat) : Int) - 1 = length := by omega
      rw [before, Nat.add_sub_cancel]
      rfl

/-- If the grouped value fits, the writes of the loop decide the outcome. -/
theorem strFormatMoney_of_fits {money : Chars} {value : CString} (size : money.length < 2 ^ 31)
    (fits : formattedLength value < money.length) :
    strFormatMoney (some money) money.length (some value) =
      (putAll (money.set (formattedLength value) 0) ((formattedLength value : Int) - 1)
        (written 0 value.chars.reverse)).map fun filled => (0, filled) := by
  have length : toI32 value.chars.length = value.chars.length := by
    apply toI32_of_fits
    · omega
    · unfold formattedLength at fits
      omega
  have sum : (value.chars.length : Int) + ((value.chars.length - 1) / 3 : Nat) = formattedLength value := by
    rw [formattedLength]
    omega
  have last : toI32 ((formattedLength value : Int) - 1) = (formattedLength value : Int) - 1 :=
    toI32_of_fits (by omega) (by omega)
  have whole : toI32 (formattedLength value : Int) = formattedLength value :=
    toI32_of_fits (by omega) (by omega)
  have stored : put money (formattedLength value : Int) 0 = some (money.set (formattedLength value) 0) := by
    rw [put, if_pos (by omega), Int.toNat_natCast]
  simp only [strFormatMoney, length, spaceCnt_eq, sum, last, Int.sub_add_cancel, whole]
  rw [if_pos (by omega), stored, Option.bind_some, Int.toNat_natCast, List.take_length,
    ← foldlM_fillStep, Option.map_map]
  rfl

theorem exitCode_eq_zero {money after : Chars} {moneySize exitCode : Int} {value : CString}
    (returned : strFormatMoney (some money) moneySize (some value) = some (exitCode, after)) :
    exitCode = 0 := by
  simp only [strFormatMoney] at returned
  split at returned
  · obtain ⟨_, -, returned⟩ := Option.bind_eq_some_iff.mp returned
    obtain ⟨_, -, same⟩ := Option.map_eq_some_iff.mp returned
    exact (congrArg Prod.fst same).symm
  · exact (congrArg Prod.fst (Option.some.inj returned)).symm

end Money

/-- `StrFormatMoney` does what it is for exactly when the grouped value fits and its length is no
positive multiple of three. -/
theorem strFormatMoney_formats_iff {money : Chars} (size : money.length < 2 ^ 31) (value : CString) :
    Money.Formats money value ↔ Money.formattedLength value < money.length ∧
      (value.chars = [] ∨ value.chars.length % 3 ≠ 0) := by
  constructor
  · rintro ⟨exitCode, after, returned, expected⟩
    have zero := Money.exitCode_eq_zero returned
    by_cases fits : Money.formattedLength value < money.length
    · refine ⟨fits, ?_⟩
      by_contra whole
      rw [not_or, not_not] at whole
      have positive := List.length_pos_of_ne_nil whole.1
      have many : (Money.formattedLength value - 1) + 1 < (Money.written 0 value.chars.reverse).length := by
        rw [Money.written_length, List.length_reverse, Money.formattedLength]
        omega
      have before : (Money.formattedLength value : Int) - 1 = (Money.formattedLength value - 1 : Nat) := by
        rw [Money.formattedLength]
        omega
      rw [Money.strFormatMoney_of_fits size fits, before, Money.putAll_eq_none many] at returned
      cases returned
    · rw [if_neg fits] at expected
      exact absurd zero expected
  · rintro ⟨fits, partly⟩
    have length : (Money.written 0 value.chars.reverse).length = Money.formattedLength value := by
      rw [Money.written_length, List.length_reverse, Money.formattedLength]
      rcases partly with empty | partly
      · rw [empty]
        rfl
      · omega
    refine ⟨0, (Money.written 0 value.chars.reverse).reverse ++
        0 :: money.drop (Money.formattedLength value + 1),
      ?_, ?_⟩
    · rw [Money.strFormatMoney_of_fits size fits]
      have rest := Money.drop_set fits 0
      cases shape : Money.formattedLength value with
      | zero =>
          rw [shape] at length rest
          rw [List.eq_nil_of_length_eq_zero length, Money.putAll, ← rest]
          rfl
      | succ position =>
          rw [shape] at length rest fits
          have before : ((position + 1 : Nat) : Int) - 1 = position := by omega
          rw [before, Money.putAll_eq_some (by rw [List.length_set]; omega) length, rest]
          rfl
    · rw [if_pos fits]
      refine ⟨rfl, _, Money.grouped_written partly, ?_⟩
      rw [List.length_reverse, length]

/-- A number of seven digits in a buffer of ten bytes. -/
def million : CString := ⟨[53, 48, 48, 48, 48, 48, 48], by decide⟩

theorem strFormatMoney_million :
    (List.replicate 10 (1 : UInt8)).length < 2 ^ 31 ∧
      (Money.Formats (List.replicate 10 1) million ↔
        Money.formattedLength million < (List.replicate 10 (1 : UInt8)).length ∧
          (million.chars = [] ∨ million.chars.length % 3 ≠ 0)) :=
  ⟨by decide, strFormatMoney_formats_iff (by decide) million⟩

def hundred : CString := ⟨[49, 48, 48], by decide⟩

/-- Three digits in a buffer of eight bytes: a space is written before the buffer.  In a buffer of
two bytes nothing is written, and the result is 0. -/
theorem strFormatMoney_hundred :
    strFormatMoney (some (List.replicate 8 1)) 8 (some hundred) = none ∧
      ¬ Money.Formats (List.replicate 8 1) hundred ∧
      strFormatMoney (some [1, 1]) 2 (some hundred) = some (0, [1, 1]) ∧
        ¬ Money.Formats [1, 1] hundred := by
  have outside : strFormatMoney (some (List.replicate 8 1)) 8 (some hundred) = none := by decide
  have silent : strFormatMoney (some [1, 1]) 2 (some hundred) = some (0, [1, 1]) := by decide
  refine ⟨outside, ?_, silent, ?_⟩
  · rintro ⟨exitCode, after, returned, -⟩
    cases outside.symm.trans returned
  · rintro ⟨exitCode, after, returned, expected⟩
    cases silent.symm.trans returned
    rw [if_neg (by decide)] at expected
    exact expected rfl

end Tegenaria.LibStr
