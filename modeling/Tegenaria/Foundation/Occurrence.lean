import Mathlib.Algebra.BigOperators.Group.List.Defs
import Mathlib.Data.List.Infix
import Mathlib.Data.List.Induction
import Mathlib.Order.Nat
import Mathlib.Data.Nat.Find
import Tegenaria.Foundation.Separator

/-!
# Occurrences of a pattern in a text

A text is cut at the first occurrence of a pattern, and what stands behind it again.  The
pieces, joined with the pattern, are the text.
-/

namespace Foundation.Occurrence

variable {α : Type} [DecidableEq α] {pattern text before after : List α}

theorem cut_eq (cut : text.dropInfix? pattern = some (before, after)) :
    text = before ++ pattern ++ after := by
  obtain ⟨⟨middle, split, same⟩, _⟩ := List.dropInfix?_eq_some_iff.mp cut
  rw [split, eq_of_beq same]

/-- There is no occurrence before the first one. -/
theorem cut_first (cut : text.dropInfix? pattern = some (before, after)) {i : Nat}
    (earlier : i < before.length) : ¬ pattern <+: text.drop i := by
  rintro ⟨rest, starts⟩
  have shortest := (List.dropInfix?_eq_some_iff.mp cut).2 (text.take i) pattern rest
    (by rw [List.append_assoc, starts, List.take_append_drop]) (beq_self_eq_true _)
  rw [List.length_take] at shortest
  omega

theorem cut_eq_some_iff : text.dropInfix? pattern = some (before, after) ↔
    text = before ++ pattern ++ after ∧ ∀ i < before.length, ¬ pattern <+: text.drop i := by
  constructor
  · exact fun cut => ⟨cut_eq cut, fun i earlier => cut_first cut earlier⟩
  · rintro ⟨split, first⟩
    refine List.dropInfix?_eq_some_iff.mpr ⟨⟨pattern, split, beq_self_eq_true _⟩, ?_⟩
    intro other middle rest otherSplit same
    by_contra shorter
    refine first other.length (by omega) ⟨rest, ?_⟩
    rw [otherSplit, eq_of_beq same, List.append_assoc, List.drop_left]

/-- A pattern at the begin is found there. -/
theorem cut_begin (pattern rest : List α) : (pattern ++ rest).dropInfix? pattern = some ([], rest) := by
  refine Iff.mpr cut_eq_some_iff ⟨rfl, ?_⟩
  intro i earlier
  exact absurd earlier (Nat.not_lt_zero i)

theorem cut_eq_none_iff : text.dropInfix? pattern = none ↔ ¬ pattern <:+: text := by
  constructor
  · intro absent occurs
    have places : ∃ i, pattern <+: text.drop i := by
      obtain ⟨front, back, split⟩ := occurs
      refine ⟨front.length, back, ?_⟩
      rw [← split, List.append_assoc, List.drop_left]
    obtain ⟨rest, starts⟩ := Nat.find_spec places
    have first : ∀ i < (text.take (Nat.find places)).length, ¬ pattern <+: text.drop i := by
      intro i earlier
      rw [List.length_take] at earlier
      exact Nat.find_min places (by omega)
    have found := Iff.mpr cut_eq_some_iff
      ⟨by rw [List.append_assoc, starts, List.take_append_drop], first⟩
    rw [absent] at found
    simp at found
  · intro absent
    cases cut : text.dropInfix? pattern with
    | none => rfl
    | some parts => exact absurd ⟨parts.1, parts.2, (cut_eq cut).symm⟩ absent

theorem rest_shorter (nonempty : pattern ≠ []) {advance : Nat} (moves : 0 < advance)
    (cut : text.dropInfix? pattern = some (before, after)) :
    ((pattern ++ after).drop advance).length < text.length := by
  have positive := List.length_pos_iff.mpr nonempty
  have split := congrArg List.length (cut_eq cut)
  simp only [List.length_append, List.length_drop] at split ⊢
  omega

/-- An occurrence behind letters at which none begins. -/
theorem cut_append {front : List α} (cut : text.dropInfix? pattern = some (before, after))
    (clear : ∀ place < front.length, ¬ pattern <+: (front ++ (before ++ pattern)).drop place) :
    (front ++ text).dropInfix? pattern = some (front ++ before, after) := by
  refine Iff.mpr cut_eq_some_iff ⟨by rw [cut_eq cut, List.append_assoc, List.append_assoc, List.append_assoc],
    fun place inside starts => ?_⟩
  rw [List.length_append] at inside
  by_cases behind : place < front.length
  · refine clear place behind (List.prefix_of_prefix_length_le starts ?_ ?_)
    · exact List.IsPrefix.drop ⟨after, by rw [cut_eq cut, List.append_assoc]⟩ place
    · simp only [List.length_drop, List.length_append]
      omega
  · obtain ⟨step, rfl⟩ := Nat.exists_eq_add_of_le (Nat.le_of_not_lt behind)
    rw [← List.drop_drop, List.drop_left] at starts
    exact cut_first cut (by omega) starts

omit [DecidableEq α] in
theorem absent_append {front : List α} (absent : ¬ pattern <:+: text)
    (clear : ∀ place < front.length, ¬ pattern <+: (front ++ text).drop place) :
    ¬ pattern <:+: front ++ text := by
  rintro ⟨before, after, split⟩
  have starts : pattern <+: (front ++ text).drop before.length := by
    rw [← split, List.append_assoc, List.drop_left]
    exact List.prefix_append _ _
  by_cases behind : before.length < front.length
  · exact clear _ behind starts
  · obtain ⟨step, length⟩ := Nat.exists_eq_add_of_le (Nat.le_of_not_lt behind)
    rw [length, ← List.drop_drop, List.drop_left] at starts
    exact absent (starts.isInfix.trans (List.drop_suffix _ _).isInfix)

/-- The pieces of a text when the search goes on a number of letters behind the begin of
each occurrence. -/
def piecesEvery (pattern : List α) (advance : Nat) (text : List α) : List (List α) :=
  if _moves : 0 < advance ∧ pattern ≠ [] then
    match _cut : text.dropInfix? pattern with
    | none => [text]
    | some (before, after) => before :: piecesEvery pattern advance ((pattern ++ after).drop advance)
  else [text]
termination_by text.length
decreasing_by exact rest_shorter _moves.2 _moves.1 _cut

section Pieces

variable {advance : Nat}

theorem piecesEvery_none (absent : ¬ pattern <:+: text) : piecesEvery pattern advance text = [text] := by
  have cut := Iff.mpr cut_eq_none_iff absent
  rw [piecesEvery]
  split
  · split
    · rfl
    · next found => simp [cut] at found
  · rfl

theorem piecesEvery_some (moves : 0 < advance) (nonempty : pattern ≠ [])
    (cut : text.dropInfix? pattern = some (before, after)) :
    piecesEvery pattern advance text =
      before :: piecesEvery pattern advance ((pattern ++ after).drop advance) := by
  rw [piecesEvery, dif_pos ⟨moves, nonempty⟩]
  split
  · next found => simp [cut] at found
  · next found =>
      rw [cut] at found
      cases found
      rfl

theorem piecesEvery_ne_nil (pattern : List α) (advance : Nat) (text : List α) :
    piecesEvery pattern advance text ≠ [] := by
  rw [piecesEvery]
  split
  · split
    · simp
    · simp
  · simp

/-- Induction along the occurrences at which a text is cut. -/
theorem cut_induction {motive : List α → Prop} (pattern : List α) (advance : Nat)
    (nonempty : pattern ≠ []) (moves : 0 < advance)
    (absent : ∀ text, ¬ pattern <:+: text → motive text)
    (found : ∀ text before after, text.dropInfix? pattern = some (before, after) →
      motive ((pattern ++ after).drop advance) → motive text)
    (text : List α) : motive text := by
  induction bound : text.length using Nat.strong_induction_on generalizing text with
  | _ size ih =>
      cases cut : text.dropInfix? pattern with
      | none => exact absent text (Iff.mp cut_eq_none_iff cut)
      | some parts =>
          obtain ⟨before, after⟩ := parts
          have shorter := rest_shorter nonempty moves cut
          exact found text before after cut (ih _ (bound ▸ shorter) _ rfl)

end Pieces

/-- The pieces of a text between the occurrences of a pattern, each the first one behind
the one before. -/
def pieces (pattern text : List α) : List (List α) := piecesEvery pattern pattern.length text

theorem pieces_none (absent : ¬ pattern <:+: text) : pieces pattern text = [text] :=
  piecesEvery_none absent

theorem pieces_some (nonempty : pattern ≠ [])
    (cut : text.dropInfix? pattern = some (before, after)) :
    pieces pattern text = before :: pieces pattern after := by
  rw [pieces, piecesEvery_some (List.length_pos_iff.mpr nonempty) nonempty cut, List.drop_left]
  rfl

theorem pieces_ne_nil (pattern text : List α) : pieces pattern text ≠ [] := piecesEvery_ne_nil _ _ _

/-- The pieces joined with the pattern are the text. -/
theorem intercalate_pieces (nonempty : pattern ≠ []) (text : List α) :
    pattern.intercalate (pieces pattern text) = text := by
  induction text using cut_induction pattern pattern.length nonempty
    (List.length_pos_iff.mpr nonempty) with
  | absent text absent => rw [pieces_none absent, List.intercalate_singleton]
  | found text before after cut ih =>
      rw [List.drop_left] at ih
      rw [pieces_some nonempty cut, List.intercalate_cons_of_ne_nil (pieces_ne_nil _ _), ih,
        ← cut_eq cut]

/-- Letters behind a text do not change its first cut. -/
theorem cut_append_right (cut : text.dropInfix? pattern = some (before, after)) (more : List α) :
    (text ++ more).dropInfix? pattern = some (before, after ++ more) := by
  have split := cut_eq cut
  refine Iff.mpr cut_eq_some_iff ⟨by rw [split, List.append_assoc], ?_⟩
  intro i earlier starts
  refine cut_first cut earlier (List.prefix_of_prefix_length_le starts
    ((List.prefix_append _ _).drop i) ?_)
  rw [split, List.length_drop]
  simp only [List.length_append]
  omega

section Separated

variable {letter : α} {word : List α}

/-- A pattern whose first letter occurs only once in it cannot begin in front of another
one and end behind its begin. -/
theorem cut_separator (once : letter ∉ word) (absent : ¬ letter :: word <:+: text) (behind : List α) :
    (text ++ (letter :: word ++ behind)).dropInfix? (letter :: word) = some (text, behind) := by
  refine Iff.mpr cut_eq_some_iff ⟨by rw [List.append_assoc], ?_⟩
  rintro i earlier ⟨post, starts⟩
  obtain ⟨first, middle, split⟩ := List.exists_cons_of_ne_nil
    (List.ne_nil_of_length_pos (by rw [List.length_drop]; omega : 0 < (text.drop i).length))
  rw [List.drop_append_of_le_length (Nat.le_of_lt earlier), split, List.cons_append, List.cons_append,
    List.cons.injEq] at starts
  obtain ⟨rfl, starts⟩ := starts
  apply absent
  have inside := @Separator.infix_of_split _ _ _ once (text.take i) _ _ _ starts
  rwa [← split, List.take_append_drop] at inside

/-- A text with such a pattern in it is cut there. -/
theorem pieces_append (once : letter ∉ word) (text behind : List α) :
    pieces (letter :: word) (text ++ (letter :: word ++ behind)) =
      pieces (letter :: word) text ++ pieces (letter :: word) behind := by
  induction text using cut_induction (letter :: word) (letter :: word).length (List.cons_ne_nil _ _)
    (Nat.succ_pos _) with
  | absent text absent =>
      rw [pieces_none absent, pieces_some (List.cons_ne_nil _ _) (cut_separator once absent behind),
        List.singleton_append]
  | found text before after cut ih =>
      rw [List.drop_left] at ih
      rw [pieces_some (List.cons_ne_nil _ _) cut,
        pieces_some (List.cons_ne_nil _ _) (cut_append_right cut _), ih, List.cons_append]

/-- Texts without the pattern, each with the pattern behind it, are pieces of their own. -/
theorem pieces_ended (once : letter ∉ word) {parts : List (List α)}
    (free : ∀ part ∈ parts, ¬ letter :: word <:+: part) (text : List α) :
    pieces (letter :: word) (parts.flatMap (· ++ letter :: word) ++ text) =
      parts ++ pieces (letter :: word) text := by
  induction parts with
  | nil => rfl
  | cons part parts ih =>
      rw [List.forall_mem_cons] at free
      rw [List.flatMap_cons, List.append_assoc, List.append_assoc, pieces_append once,
        pieces_none free.1, ih free.2, List.singleton_append, List.cons_append]

end Separated

/-- No piece holds the pattern. -/
theorem not_infix_of_mem_pieces (nonempty : pattern ≠ []) {piece : List α}
    (member : piece ∈ pieces pattern text) : ¬ pattern <:+: piece := by
  induction text using cut_induction pattern pattern.length nonempty
    (List.length_pos_iff.mpr nonempty) with
  | absent text absent =>
      rw [pieces_none absent, List.mem_singleton] at member
      rwa [member]
  | found text before after cut ih =>
      rw [List.drop_left] at ih
      rw [pieces_some nonempty cut] at member
      rcases List.mem_cons.mp member with rfl | later
      · rintro ⟨front, back, split⟩
        have positive := List.length_pos_iff.mpr nonempty
        have lengths := congrArg List.length split
        simp only [List.length_append] at lengths
        apply cut_first cut (by omega : front.length < piece.length)
        rw [cut_eq cut, ← split]
        simp
      · exact ih later

/-- A search that goes on inside of an occurrence sees letters twice. -/
theorem length_le_intercalate_piecesEvery (nonempty : pattern ≠ []) {advance : Nat} (moves : 0 < advance)
    (short : advance ≤ pattern.length) (text : List α) :
    text.length ≤ (pattern.intercalate (piecesEvery pattern advance text)).length := by
  induction text using cut_induction pattern advance nonempty moves with
  | absent text absent => rw [piecesEvery_none absent, List.intercalate_singleton]
  | found text before after cut ih =>
      have split := congrArg List.length (cut_eq cut)
      rw [piecesEvery_some moves nonempty cut,
        List.intercalate_cons_of_ne_nil (piecesEvery_ne_nil _ _ _)]
      simp only [List.length_append, List.length_drop] at split ih ⊢
      omega

theorem length_lt_intercalate_piecesEvery (nonempty : pattern ≠ []) {advance : Nat} (moves : 0 < advance)
    (short : advance < pattern.length) (cut : text.dropInfix? pattern = some (before, after)) :
    text.length < (pattern.intercalate (piecesEvery pattern advance text)).length := by
  have split := congrArg List.length (cut_eq cut)
  have rest := length_le_intercalate_piecesEvery nonempty moves (Nat.le_of_lt short)
    ((pattern ++ after).drop advance)
  rw [piecesEvery_some moves nonempty cut, List.intercalate_cons_of_ne_nil (piecesEvery_ne_nil _ _ _)]
  simp only [List.length_append, List.length_drop] at split rest ⊢
  omega

/-- The pieces without an empty one at the end. -/
def withoutEmptyLast (parts : List (List α)) : List (List α) :=
  if parts.getLast? = some [] then parts.dropLast else parts

theorem withoutEmptyLast_cons (part : List α) {parts : List (List α)} (nonempty : parts ≠ []) :
    withoutEmptyLast (part :: parts) = part :: withoutEmptyLast parts := by
  obtain ⟨init, last, rfl⟩ := (List.eq_nil_or_concat' parts).resolve_left nonempty
  rw [withoutEmptyLast, withoutEmptyLast, ← List.cons_append, List.getLast?_concat,
    List.getLast?_concat, List.dropLast_concat, List.dropLast_concat]
  split
  · rfl
  · rfl

omit [DecidableEq α] in
theorem intercalate_concat_nil (separator : List α) {parts : List (List α)} (nonempty : parts ≠ []) :
    separator.intercalate (parts ++ [[]]) = separator.intercalate parts ++ separator := by
  induction parts with
  | nil => exact absurd rfl nonempty
  | cons part parts ih =>
      by_cases single : parts = []
      · subst single
        rw [List.singleton_append, List.intercalate_cons_of_ne_nil (List.cons_ne_nil _ _),
          List.intercalate_singleton, List.intercalate_singleton, List.append_nil]
      · rw [List.cons_append, List.intercalate_cons_of_ne_nil (by simp), ih single,
          List.intercalate_cons_of_ne_nil single, ← List.append_assoc]

omit [DecidableEq α] in
theorem flatMap_ended (separator : List α) {parts : List (List α)} (nonempty : parts ≠ []) :
    parts.flatMap (· ++ separator) = separator.intercalate parts ++ separator := by
  induction parts with
  | nil => exact absurd rfl nonempty
  | cons part parts ih =>
      by_cases single : parts = []
      · rw [single, List.intercalate_singleton, List.flatMap_singleton]
      · rw [List.flatMap_cons, ih single, List.intercalate_cons_of_ne_nil single, List.append_assoc,
          List.append_assoc, List.append_assoc]

/-- Without an empty piece at the end the text is got back up to one pattern. -/
theorem intercalate_withoutEmptyLast (nonempty : pattern ≠ []) (text : List α) :
    pattern.intercalate (withoutEmptyLast (pieces pattern text)) = text ∨
      pattern.intercalate (withoutEmptyLast (pieces pattern text)) ++ pattern = text := by
  have joined := intercalate_pieces nonempty text
  obtain ⟨init, last, parts⟩ :=
    (List.eq_nil_or_concat' (pieces pattern text)).resolve_left (pieces_ne_nil _ _)
  rw [parts] at joined ⊢
  rw [withoutEmptyLast, List.getLast?_concat, List.dropLast_concat]
  by_cases ended : last = []
  · subst ended
    rw [if_pos rfl]
    by_cases single : init = []
    · subst single
      exact .inl joined
    · rw [intercalate_concat_nil pattern single] at joined
      exact .inr joined
  · rw [if_neg (by simpa using ended)]
    exact .inl joined

end Foundation.Occurrence
