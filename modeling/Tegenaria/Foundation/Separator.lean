import Mathlib.Data.List.Infix

/-!
# Texts with a separator

A separator is a word whose first letter occurs only once in it.  In a text
`left ++ separator ++ right` whose right part does not contain that letter, the
last occurrence of the letter is the one of the separator, and the separator is
found at no other place unless it is found in the left part.  A text that is split
at single letters has none of them in its parts.
-/

namespace Foundation.Separator

variable {α : Type}

/-- The parts of a text hold its letters, but none of those it is split at. -/
theorem mem_splitOnP {separates : α → Bool} {text part : List α} {letter : α}
    (member : part ∈ text.splitOnP separates) (inside : letter ∈ part) :
    letter ∈ text ∧ separates letter = false := by
  induction text generalizing part with
  | nil =>
      rw [List.splitOnP_nil, List.mem_singleton] at member
      exact absurd (member ▸ inside) List.not_mem_nil
  | cons first rest ih =>
      rw [List.splitOnP_cons_eq_if_modifyHead] at member
      split at member
      · rcases List.mem_cons.mp member with rfl | later
        · exact absurd inside List.not_mem_nil
        · exact (ih later inside).imp_left (List.mem_cons_of_mem first)
      · next kept =>
          obtain ⟨head, tail, split⟩ := List.exists_cons_of_ne_nil (List.splitOnP_ne_nil separates rest)
          rw [split] at member ih
          rw [List.modifyHead_cons] at member
          rcases List.mem_cons.mp member with rfl | later
          · rcases List.mem_cons.mp inside with rfl | inHead
            · exact ⟨List.mem_cons_self, Bool.not_eq_true _ ▸ kept⟩
            · exact (ih List.mem_cons_self inHead).imp_left (List.mem_cons_of_mem first)
          · exact (ih (List.mem_cons_of_mem head later) inside).imp_left (List.mem_cons_of_mem first)

/-- The position of the last occurrence of a letter. -/
@[grind =] def findLastOf [DecidableEq α] (letter : α) : List α → Option Nat
  | [] => none
  | first :: rest =>
      match findLastOf letter rest with
      | some position => some (position + 1)
      | none => if first = letter then some 0 else none

theorem findLastOf_absent [DecidableEq α] {letter : α} {text : List α}
    (absent : letter ∉ text) : findLastOf letter text = none := by
  induction text with
  | nil => rfl
  | cons first rest ih =>
      rw [List.mem_cons, not_or] at absent
      rw [findLastOf, ih absent.2]
      exact if_neg (Ne.symm absent.1)

theorem findLastOf_append [DecidableEq α] {letter : α} {tail : List α}
    (absent : letter ∉ tail) (left : List α) :
    findLastOf letter (left ++ letter :: tail) = some left.length := by
  induction left with
  | nil =>
      rw [List.nil_append, findLastOf, findLastOf_absent absent]
      exact if_pos rfl
  | cons first rest ih => rw [List.cons_append, findLastOf, ih, List.length_cons]

/-- A text with a letter can be split at its last occurrence. -/
theorem exists_split_last {letter : α} {text : List α} (mem : letter ∈ text) :
    ∃ left tail, text = left ++ letter :: tail ∧ letter ∉ tail := by
  obtain ⟨front, back, same, absent⟩ := List.eq_append_cons_of_mem (List.mem_reverse.mpr mem)
  refine ⟨back.reverse, front.reverse, ?_, fun inside => absent (List.mem_reverse.mp inside)⟩
  rw [← List.reverse_reverse text, same]
  simp

/-- An occurrence of the letter is its last one or lies in the left part. -/
theorem split_last {letter : α} {before after left tail : List α}
    (absent : letter ∉ tail) (same : before ++ letter :: after = left ++ letter :: tail) :
    before = left ∧ after = tail ∨
      ∃ middle, left = before ++ letter :: middle ∧ after = middle ++ letter :: tail := by
  rcases List.append_eq_append_iff.mp same with ⟨rest, leftEq, afterEq⟩ | ⟨rest, beforeEq, tailEq⟩
  · cases rest with
    | nil =>
        rw [List.append_nil] at leftEq
        exact .inl ⟨leftEq.symm, (List.cons.inj afterEq).2⟩
    | cons first middle =>
        rw [List.cons_append, List.cons.injEq] at afterEq
        obtain ⟨rfl, afterEq⟩ := afterEq
        exact .inr ⟨middle, leftEq, afterEq⟩
  · cases rest with
    | nil =>
        rw [List.append_nil] at beforeEq
        exact .inl ⟨beforeEq, (List.cons.inj tailEq).2.symm⟩
    | cons first middle =>
        rw [List.cons_append, List.cons.injEq] at tailEq
        rw [tailEq.2] at absent
        simp at absent

/-- The parts around the last occurrence of the letter are determined. -/
theorem append_cons_inj {letter : α} {left other tail otherTail : List α}
    (absent : letter ∉ tail) (otherAbsent : letter ∉ otherTail) :
    left ++ letter :: tail = other ++ letter :: otherTail ↔ left = other ∧ tail = otherTail := by
  constructor
  · intro same
    rcases split_last otherAbsent same with equal | ⟨middle, _, tailEq⟩
    · exact equal
    · rw [tailEq] at absent
      simp at absent
  · rintro ⟨rfl, rfl⟩
    rfl

section Words

variable {letter : α} {word : List α}

/-- A word that begins before the last occurrence of its first letter ends
before it. -/
theorem infix_of_split (once : letter ∉ word) {before middle post tail : List α}
    (after : word ++ post = middle ++ letter :: tail) :
    letter :: word <:+: before ++ letter :: middle := by
  rcases List.append_eq_append_iff.mp after with ⟨rest, middleEq, _⟩ | ⟨rest, wordEq, restEq⟩
  · exact ⟨before, rest, by rw [middleEq]; simp⟩
  · cases rest with
    | nil => exact ⟨before, [], by rw [wordEq]; simp⟩
    | cons first others =>
        rw [wordEq, ← (List.cons.inj restEq).1] at once
        simp at once

/-- The text before a separator is a suffix of what stands before the last
separator. -/
theorem append_infix_iff (once : letter ∉ word) {left right : List α}
    (free : ¬letter :: word <:+: left) (absent : letter ∉ right) (before : List α) :
    before ++ letter :: word <:+: left ++ letter :: (word ++ right) ↔ before <:+ left := by
  have tailFree : letter ∉ word ++ right := by simp [once, absent]
  constructor
  · rintro ⟨pre, post, same⟩
    have arranged : (pre ++ before) ++ letter :: (word ++ post) =
        left ++ letter :: (word ++ right) := by
      rw [← same]
      simp
    rcases split_last tailFree arranged with ⟨equal, _⟩ | ⟨middle, leftEq, afterEq⟩
    · exact ⟨pre, equal⟩
    · exact absurd (leftEq ▸ infix_of_split once afterEq) free
  · rintro ⟨pre, rfl⟩
    exact ⟨pre, right, by simp⟩

/-- Another separator of the same length is not found. -/
theorem not_infix_of_ne (once : letter ∉ word) {other left right : List α}
    (otherOnce : letter ∉ other) (sameLength : other.length = word.length)
    (different : other ≠ word) (free : ¬letter :: other <:+: left) (absent : letter ∉ right) :
    ¬letter :: other <:+: left ++ letter :: (word ++ right) := by
  rintro ⟨pre, post, same⟩
  have tailFree : letter ∉ word ++ right := by simp [once, absent]
  have arranged : pre ++ letter :: (other ++ post) = left ++ letter :: (word ++ right) := by
    rw [← same]
    simp
  rcases split_last tailFree arranged with ⟨_, equal⟩ | ⟨middle, leftEq, afterEq⟩
  · exact different (List.append_inj_left equal sameLength)
  · exact free (leftEq ▸ infix_of_split otherOnce afterEq)

end Words

end Foundation.Separator
