import Mathlib.Data.Bool.AllAny
import Mathlib.Data.List.DropRight
import Mathlib.Data.List.Induction
import Mathlib.Data.List.TakeWhile
import Mathlib.Algebra.Order.BigOperators.Group.List
import Mathlib.Algebra.Order.Group.Nat
import Mathlib.Algebra.GroupWithZero.Nat
import Tegenaria.Foundation.Separator

/-!
# C strings

The functions of the C library on strings that several parts of the program
call.
-/

namespace Tegenaria.LibStr

open Foundation.Separator

/-- A string.  A C string has no zero in it. -/
abbrev Text := List Char

/-- The part of a `std::string` that is seen through `c_str`. -/
def cStr (text : Text) : Text := text.takeWhile (· ≠ '\x00')

/-- `stricmp` finds no difference between two strings. -/
def sameNoCase (first second : Text) : Bool := first.map Char.toLower = second.map Char.toLower

/-- `isspace` in the C locale. -/
def isSpace (letter : Char) : Bool := letter ∈ [' ', '\t', '\n', '\x0b', '\x0c', '\r']

/-- The text without white space at its ends. -/
def trim (text : Text) : Text := (text.dropWhile isSpace).rdropWhile isSpace

/-- The tokens that a loop of `strtok` calls finds: the longest parts without a
delimiter that are not empty. -/
def strtok (delims : Text) (text : Text) : List Text :=
  (text.splitOnP (· ∈ delims)).filter (· ≠ [])

theorem cStr_of_notMem {text : Text} (absent : '\x00' ∉ text) : cStr text = text := by
  rw [cStr, List.takeWhile_eq_self_iff]
  intro letter member
  rw [decide_eq_true_iff]
  rintro rfl
  exact absent member

@[simp] theorem strtok_nil (delims : Text) : strtok delims [] = [] := rfl

/-- A part without delimiters and the delimiter after it are the first token. -/
theorem strtok_append {delims token : Text} {delim : Char} (nonempty : token ≠ [])
    (plain : ∀ letter ∈ token, letter ∉ delims) (separates : delim ∈ delims) (rest : Text) :
    strtok delims (token ++ delim :: rest) = token :: strtok delims rest := by
  have outside : ∀ letter ∈ token, decide (letter ∈ delims) = false := by
    intro letter member
    exact decide_eq_false (plain letter member)
  rw [strtok, List.splitOnP_append_cons_of_forall_mem outside delim (decide_eq_true separates)]
  exact List.filter_cons_of_pos (by simpa using nonempty)

/-- A text without delimiters is one token. -/
theorem strtok_single {delims token : Text} (nonempty : token ≠ [])
    (plain : ∀ letter ∈ token, letter ∉ delims) : strtok delims token = [token] := by
  have outside : ∀ letter ∈ token, decide (letter ∈ delims) = false := by
    intro letter member
    exact decide_eq_false (plain letter member)
  rw [strtok, List.splitOnP_eq_singleton outside]
  exact List.filter_cons_of_pos (by simpa using nonempty)

/-- Parts with a delimiter behind each of them are the first tokens. -/
theorem strtok_flatMap {delims : Text} {delim : Char} (separates : delim ∈ delims)
    {tokens : List Text} (nonempty : ∀ token ∈ tokens, token ≠ [])
    (plain : ∀ token ∈ tokens, ∀ letter ∈ token, letter ∉ delims) (rest : Text) :
    strtok delims (tokens.flatMap (· ++ [delim]) ++ rest) = tokens ++ strtok delims rest := by
  induction tokens with
  | nil => rfl
  | cons token tokens ih =>
      rw [List.forall_mem_cons] at nonempty plain
      rw [List.flatMap_cons, List.append_assoc, List.append_assoc, List.singleton_append,
        strtok_append nonempty.1 plain.1 separates, ih nonempty.2 plain.2, List.cons_append]

/-- A token consists of letters of the text that are no delimiters. -/
theorem mem_strtok {delims text token : Text} (member : token ∈ strtok delims text) :
    ∀ letter ∈ token, letter ∈ text ∧ letter ∉ delims := by
  intro letter inside
  exact (mem_splitOnP (List.mem_filter.mp member).1 inside).imp_right of_decide_eq_false

/-- The parts of a text before and after the first delimiter, as `strchr` finds it. -/
def cutAt (delim : Char) : Text → Option (Text × Text)
  | [] => none
  | first :: rest =>
      if first = delim then some ([], rest)
      else (cutAt delim rest).map fun parts => (first :: parts.1, parts.2)

theorem cutAt_eq_some {delim : Char} {text left right : Text} :
    cutAt delim text = some (left, right) ↔ text = left ++ delim :: right ∧ delim ∉ left := by
  induction text generalizing left with
  | nil => simp [cutAt]
  | cons first rest ih =>
      rw [cutAt]
      by_cases found : first = delim
      · subst found
        cases left with
        | nil => simp [eq_comm]
        | cons other left => simp +contextual [eq_comm]
      · cases left with
        | nil => simp [found]
        | cons other left =>
            simp only [if_neg found, Option.map_eq_some_iff, Prod.exists, Prod.mk.injEq,
              List.cons.injEq, List.cons_append, List.mem_cons, not_or]
            constructor
            · rintro ⟨front, back, cut, ⟨rfl, rfl⟩, rfl⟩
              obtain ⟨split, absent⟩ := ih.mp cut
              exact ⟨⟨rfl, split⟩, Ne.symm found, absent⟩
            · rintro ⟨⟨rfl, split⟩, _, absent⟩
              exact ⟨left, right, ih.mpr ⟨split, absent⟩, ⟨rfl, rfl⟩, rfl⟩

theorem cutAt_eq_none {delim : Char} {text : Text} : cutAt delim text = none ↔ delim ∉ text := by
  induction text with
  | nil => simp [cutAt]
  | cons first rest ih =>
      rw [cutAt]
      by_cases found : first = delim
      · simp [found]
      · simp [found, Ne.symm found, ih]

theorem cStr_plain (text : Text) : '\x00' ∉ cStr text := by
  intro member
  have kept := List.mem_takeWhile_imp member
  simp at kept

/-- A delimiter at the end adds no token. -/
theorem strtok_concat {delims : Text} {delim : Char} (separates : delim ∈ delims) (text : Text) :
    strtok delims (text ++ [delim]) = strtok delims text := by
  rw [strtok, List.splitOnP_append_cons text [] (decide_eq_true separates)]
  simp [strtok]

/-- The tokens, with one delimiter between any two of them, are no longer than the
text. -/
theorem sum_length_strtok_le (delims text : Text) :
    ((strtok delims text).map (·.length + 1)).sum ≤ text.length + 1 := by
  have parts : ((text.splitOnP (· ∈ delims)).map (·.length + 1)).sum = text.length + 1 := by
    induction text with
    | nil => rfl
    | cons first rest ih =>
        rw [List.splitOnP_cons_eq_if_modifyHead]
        by_cases separates : first ∈ delims
        · rw [if_pos (decide_eq_true separates), List.map_cons, List.sum_cons, ih, List.length_cons,
            List.length_nil]
          omega
        · rw [if_neg (by simpa using separates)]
          obtain ⟨head, tail, split⟩ := List.exists_cons_of_ne_nil
            (List.splitOnP_ne_nil (fun letter => decide (letter ∈ delims)) rest)
          rw [split] at ih ⊢
          rw [List.map_cons, List.sum_cons] at ih
          rw [List.modifyHead_cons, List.map_cons, List.sum_cons, List.length_cons, List.length_cons]
          omega
  rw [← parts]
  exact (List.filter_sublist.map _).sum_le_sum fun _ _ => Nat.zero_le _

/-! ## White space -/

section Trim

variable {text : Text}

theorem length_trim_le (text : Text) : (trim text).length ≤ text.length :=
  (List.rdropWhile_prefix isSpace _).length_le.trans (List.length_dropWhile_le ..)

theorem trim_spaces {spaces : Text} (blank : ∀ letter ∈ spaces, isSpace letter) : trim spaces = [] := by
  rw [trim, List.dropWhile_eq_nil_iff.mpr blank, List.rdropWhile_nil]

/-- A text that is not empty and needs no trimming starts with a visible letter. -/
theorem dropWhile_of_trimmed (trimmed : trim text = text) : text.dropWhile isSpace = text := by
  apply (List.dropWhile_suffix isSpace).eq_of_length_le
  calc text.length = (trim text).length := by rw [trimmed]
    _ ≤ (text.dropWhile isSpace).length := (List.rdropWhile_prefix isSpace _).length_le

theorem trim_visible (visible : ∀ letter ∈ text, isSpace letter = false) : trim text = text := by
  have start : text.dropWhile isSpace = text := by
    cases text with
    | nil => rfl
    | cons first rest =>
        exact List.dropWhile_cons_of_neg (by simp [visible first (List.mem_cons_self ..)])
  rw [trim, start, List.rdropWhile_eq_self_iff]
  intro nonempty
  simp [visible _ (List.getLast_mem nonempty)]

theorem trim_before {spaces : Text} (blank : ∀ letter ∈ spaces, isSpace letter) (text : Text) :
    trim (spaces ++ text) = trim text := by
  rw [trim, List.dropWhile_append_of_pos blank, trim]

theorem rdropWhile_spaces {spaces : Text} (blank : ∀ letter ∈ spaces, isSpace letter) (text : Text) :
    (text ++ spaces).rdropWhile isSpace = text.rdropWhile isSpace := by
  induction spaces using List.reverseRecOn with
  | nil => rw [List.append_nil]
  | append_singleton spaces last ih =>
      rw [← List.append_assoc, List.rdropWhile_concat_pos _ _ _ (blank last (by simp))]
      exact ih fun letter member => blank letter (List.mem_append_left _ member)

/-- White space around a trimmed text is taken away. -/
theorem trim_after {spaces : Text} (trimmed : trim text = text)
    (blank : ∀ letter ∈ spaces, isSpace letter) : trim (text ++ spaces) = text := by
  cases text with
  | nil => exact trim_spaces blank
  | cons first rest =>
      have visible : ¬ isSpace first := by
        intro space
        have start := dropWhile_of_trimmed trimmed
        rw [List.dropWhile_cons_of_pos space] at start
        have shorter := congrArg List.length start
        have bound := List.length_dropWhile_le isSpace rest
        rw [List.length_cons] at shorter
        omega
      rw [trim, List.cons_append, List.dropWhile_cons_of_neg visible, ← List.cons_append,
        rdropWhile_spaces blank]
      rw [trim, dropWhile_of_trimmed trimmed] at trimmed
      exact trimmed

end Trim

end Tegenaria.LibStr
