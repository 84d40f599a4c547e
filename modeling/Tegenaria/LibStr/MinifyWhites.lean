import Tegenaria.LibStr.MinifyReference

/-!
# Source code without white space

What `StrMinifyCode` leaves of source code is read by the reference lexer as the pieces that
are left, unless the letters around a gap that was closed make the begin of a comment.
-/

namespace Tegenaria.LibStr

open Foundation Foundation.Loop

/-- What is left of source code. -/
def minified (markers : Markers) (code : Chars) : Chars :=
  (leftOf markers true none (lex markers code)).flatMap (Piece.written markers)

/-- The result of a call that drops white space. -/
theorem strMinifyCode_minified {markers : Markers} {code : Chars} (short : code.length < 2 ^ 31)
    (reads : ∀ marker ∈ [markers.single, markers.multiBegin, markers.multiEnd], ReadWhole code marker)
    (harmless : ∀ piece ∈ lex markers code, piece.Harmless markers) {result : Chars} :
    (∃ fuel, strMinifyCode fuel (markers.call true code) = .returned result) ↔
      result = minified markers code := by
  have runs := @runs_lex markers true code [] code [] none short reads code.length (le_refl _) harmless rfl
  rw [List.nil_append] at runs
  constructor
  · exact fun returned => Returns.unique returned runs
  · rintro rfl
    exact runs

def Piece.isComment : Piece → Bool
  | lineComment _ => true
  | blockComment _ => true
  | _ => false

section Reread

variable {markers : Markers} {letter : UInt8} {rest : Chars}

theorem nextPiece_comment {marker : CString} (listed : marker ∈ [markers.single, markers.multiBegin])
    (stands : marker.chars <+: letter :: rest) : (nextPiece markers letter rest).1.isComment = true := by
  rw [nextPiece]
  split_ifs with single multi
  · rfl
  · rfl
  all_goals
    simp only [List.mem_cons, List.not_mem_nil, or_false] at listed
    rcases listed with rfl | rfl
    · exact absurd stands single
    · exact absurd stands multi

/-- A letter that is no quotation mark begins a comment or is a piece of its own. -/
theorem nextPiece_plain (markers : Markers) (rest : Chars) (plain : ¬(letter = 34 ∨ letter = 39)) :
    (∃ marker ∈ [markers.single, markers.multiBegin], marker.chars <+: letter :: rest) ∨
      nextPiece markers letter rest = (.letter letter, rest) := by
  rw [nextPiece]
  split_ifs with single multi
  · exact .inl ⟨_, List.mem_cons_self, single⟩
  · exact .inl ⟨_, List.mem_cons_of_mem _ List.mem_cons_self, multi⟩
  · exact .inr rfl

/-- No comment begins with a quotation mark. -/
theorem quote_not_marker (markers : Markers) (isQuote : letter = 34 ∨ letter = 39) (rest : Chars) :
    ∀ marker ∈ [markers.single, markers.multiBegin, markers.multiEnd],
      ¬marker.chars <+: letter :: rest := by
  rintro marker listed ⟨behind, split⟩
  obtain ⟨nonempty, heads⟩ := markers.visible marker listed
  obtain ⟨first, front, letters⟩ := List.exists_cons_of_ne_nil nonempty
  rw [letters, List.cons_append, List.cons.injEq] at split
  have visibleFirst := heads first (by rw [letters]; rfl)
  rw [split.1] at visibleFirst
  rcases isQuote with rfl | rfl
  · simp at visibleFirst
  · simp at visibleFirst

section Quote

variable {inner : Chars} (isQuote : letter = 34 ∨ letter = 39)
include isQuote

/-- A quotation mark begins a string literal. -/
theorem nextPiece_closed {later : Chars} (scan : scanLiteral letter rest = (inner, some later)) :
    nextPiece markers letter rest = (.literal letter inner true, later) := by
  have notMarker := quote_not_marker markers isQuote rest
  simp only [List.forall_mem_cons] at notMarker
  rw [nextPiece, if_neg notMarker.1, if_neg notMarker.2.1, if_pos isQuote, scan]

theorem nextPiece_open (scan : scanLiteral letter rest = (inner, none)) :
    nextPiece markers letter rest = (.literal letter inner false, []) := by
  have notMarker := quote_not_marker markers isQuote rest
  simp only [List.forall_mem_cons] at notMarker
  rw [nextPiece, if_neg notMarker.1, if_neg notMarker.2.1, if_pos isQuote, scan]

end Quote

theorem scanLiteral_quote (quote : UInt8) (rest : Chars) :
    scanLiteral quote (quote :: rest) = ([], some rest) := by
  cases rest with
  | nil => exact if_pos rfl
  | cons escaped rest => exact if_pos rfl

/-- A string literal ends at the same letter, whatever stands behind it. -/
theorem scanLiteral_closed {quote : UInt8} {text inner later : Chars}
    (closes : scanLiteral quote text = (inner, some later)) (rest : Chars) :
    scanLiteral quote (inner ++ quote :: rest) = (inner, some rest) := by
  fun_induction scanLiteral quote text generalizing inner with
  | case1 => simp at closes
  | case2 =>
      obtain ⟨rfl, _⟩ := Prod.mk.inj closes
      exact scanLiteral_quote _ rest
  | case3 => simp at closes
  | case4 =>
      obtain ⟨rfl, _⟩ := Prod.mk.inj closes
      exact scanLiteral_quote _ rest
  | case5 =>
      rename_i escaped behind scanned other ih
      obtain ⟨rfl, ended⟩ := Prod.mk.inj closes
      rw [List.cons_append, List.cons_append, scanLiteral, if_neg other, if_pos rfl,
        ih (Prod.ext rfl ended)]
  | case6 =>
      rename_i letter escaped behind other notBackslash scanned ih
      obtain ⟨rfl, ended⟩ := Prod.mk.inj closes
      have later := ih (Prod.ext rfl ended)
      obtain ⟨first, tail, letters⟩ : ∃ first tail, scanned.1 ++ quote :: rest = first :: tail :=
        List.exists_cons_of_ne_nil (by simp)
      rw [letters] at later
      rw [List.cons_append, letters, scanLiteral, if_neg other, if_neg notBackslash, later]

theorem scanLiteral_open {quote : UInt8} {text inner : Chars}
    (opened : scanLiteral quote text = (inner, none)) : inner = text := by
  have split := scanLiteral_split quote text
  rwa [opened, Option.elim_none, List.append_nil] at split

/-- The mark of a comment that stands where one of the letters is written. -/
def FindsComment (markers : Markers) (pieces : List Piece) : Prop :=
  ∃ front value back, pieces = front ++ .letter value :: back ∧
    ∃ marker ∈ [markers.single, markers.multiBegin],
      marker.chars <+: value :: back.flatMap (Piece.written markers)

/-- The pieces are read as they are, or a comment is found where they are written. -/
def Reads (markers : Markers) (pieces : List Piece) : Prop :=
  ∀ fuel, (pieces.flatMap (Piece.written markers)).length ≤ fuel →
    lexFrom markers fuel (pieces.flatMap (Piece.written markers)) = pieces ∨
      FindsComment markers pieces ∧
        ∃ piece ∈ lexFrom markers fuel (pieces.flatMap (Piece.written markers)), piece.isComment = true

theorem reads_nil : Reads markers [] := by
  intro fuel _
  cases fuel with
  | zero => exact .inl rfl
  | succ fuel => exact .inl rfl

/-- A piece that is read as it is in front of others. -/
theorem Reads.cons {piece : Piece} {pieces : List Piece} {letter : UInt8} {behind : Chars}
    (reads : Reads markers pieces) (begins : piece.written markers = letter :: behind)
    (next : nextPiece markers letter (behind ++ pieces.flatMap (Piece.written markers)) =
      (piece, pieces.flatMap (Piece.written markers))) :
    Reads markers (piece :: pieces) := by
  intro fuel enough
  rw [List.flatMap_cons, begins, List.cons_append] at enough ⊢
  rw [List.length_cons, List.length_append] at enough
  obtain ⟨fuel, rfl⟩ := Nat.exists_eq_succ_of_ne_zero (by omega : fuel ≠ 0)
  rw [lexFrom, next]
  rcases reads fuel (by omega) with whole | ⟨⟨front, value, back, split, mark⟩, found, member, comment⟩
  · exact .inl (by rw [whole])
  · exact .inr ⟨⟨piece :: front, value, back, by rw [split, List.cons_append], mark⟩, found,
      List.mem_cons_of_mem _ member, comment⟩

theorem reads_letter {pieces : List Piece} (reads : Reads markers pieces)
    (plain : ¬(letter = 34 ∨ letter = 39)) : Reads markers (.letter letter :: pieces) := by
  rcases nextPiece_plain markers (pieces.flatMap (Piece.written markers)) plain with mark | same
  · intro fuel enough
    have text : (Piece.letter letter :: pieces).flatMap (Piece.written markers) =
        letter :: pieces.flatMap (Piece.written markers) := rfl
    rw [text, List.length_cons] at enough
    obtain ⟨fuel, rfl⟩ := Nat.exists_eq_succ_of_ne_zero (by omega : fuel ≠ 0)
    obtain ⟨marker, listed, stands⟩ := mark
    rw [text, lexFrom]
    exact .inr ⟨⟨[], letter, pieces, rfl, marker, listed, stands⟩, _, List.mem_cons_self,
      nextPiece_comment listed stands⟩
  · exact @Reads.cons markers _ _ letter [] reads rfl same

theorem reads_literal {pieces : List Piece} {inner : Chars} (reads : Reads markers pieces)
    (isQuote : letter = 34 ∨ letter = 39)
    (closes : ∀ rest, scanLiteral letter (inner ++ letter :: rest) = (inner, some rest)) :
    Reads markers (.literal letter inner true :: pieces) := by
  refine reads.cons rfl ?_
  rw [if_pos rfl, List.append_assoc, List.singleton_append, nextPiece_closed isQuote (closes _)]

theorem reads_open {inner : Chars} (isQuote : letter = 34 ∨ letter = 39)
    (opened : scanLiteral letter inner = (inner, none)) :
    Reads markers [.literal letter inner false] := by
  refine reads_nil.cons rfl ?_
  rw [if_neg Bool.false_ne_true, List.flatMap_nil, List.append_nil, List.append_nil,
    nextPiece_open isQuote opened]

/-- What is left is read as it is, or a comment is found in it. -/
theorem reads_left (lastChar : Option UInt8) (fuel : Nat) (text : Chars) :
    Reads markers (leftOf markers true lastChar (lexFrom markers fuel text)) := by
  induction fuel generalizing text lastChar with
  | zero => exact reads_nil
  | succ fuel ih =>
      cases text with
      | nil => exact reads_nil
      | cons letter rest =>
          rw [lexFrom, leftOf]
          by_cases isQuote : letter = 34 ∨ letter = 39
          · rcases scan : scanLiteral letter rest with ⟨inner, _ | later⟩
            · rw [nextPiece_open isQuote scan]
              have whole := scanLiteral_open scan
              rw [← whole] at scan
              have done : lexFrom markers fuel [] = [] := by
                cases fuel with
                | zero => rfl
                | succ fuel => rfl
              rw [done]
              exact reads_open isQuote scan
            · rw [nextPiece_closed isQuote scan]
              exact reads_literal (ih _ _) isQuote (scanLiteral_closed scan)
          · rcases nextPiece_plain markers rest isQuote with ⟨marker, listed, stands⟩ | same
            · have comment := nextPiece_comment listed stands
              cases piece : (nextPiece markers letter rest).1 with
              | letter value => rw [piece] at comment; cases comment
              | literal quote inner closed => rw [piece] at comment; cases comment
              | lineComment body => exact ih _ _
              | blockComment body => exact ih _ _
            · rw [same, Piece.left]
              split_ifs with white drops
              · exact ih _ _
              · refine reads_letter (ih _ _) ?_
                have whiteBlank := (isSpaceByte_blank letter).trans white.2
                rintro (quoted | quoted)
                · rw [quoted] at whiteBlank
                  cases whiteBlank
                · rw [quoted] at whiteBlank
                  cases whiteBlank
              · exact reads_letter (ih _ _) isQuote

/-- The pieces behind some others are read from where these end. -/
theorem lexFrom_suffix {fuel : Nat} {text : Chars} {front back : List Piece}
    (enough : text.length ≤ fuel) (split : lexFrom markers fuel text = front ++ back) :
    ∃ later, lexFrom markers later (back.flatMap (Piece.written markers)) = back := by
  induction front generalizing fuel text with
  | nil =>
      rw [List.nil_append] at split
      have written := lexFrom_written markers enough
      rw [split] at written
      exact ⟨fuel, by rw [written, split]⟩
  | cons piece front ih =>
      cases fuel with
      | zero => cases split
      | succ fuel =>
          cases text with
          | nil => cases split
          | cons letter rest =>
              have shorter := length_nextPiece markers letter rest
              rw [List.length_cons] at enough
              rw [lexFrom, List.cons_append, List.cons.injEq] at split
              exact ih (by omega) split.2

/-- What is left is read as it is exactly if no comment is found in it. -/
theorem lex_left_iff (code : Chars) :
    lex markers (minified markers code) = leftOf markers true none (lex markers code) ↔
      ¬FindsComment markers (leftOf markers true none (lex markers code)) := by
  constructor
  · rintro whole ⟨front, value, back, split, marker, listed, stands⟩
    obtain ⟨later, same⟩ := lexFrom_suffix (le_refl _) (whole.trans split)
    have comment := nextPiece_comment listed stands
    cases later with
    | zero => cases same
    | succ later =>
        have text : (Piece.letter value :: back).flatMap (Piece.written markers) =
            value :: back.flatMap (Piece.written markers) := rfl
        rw [text, lexFrom, List.cons.injEq] at same
        rw [same.1] at comment
        cases comment
  · exact fun absent => (reads_left none code.length code _ (le_refl _)).resolve_right fun found =>
      absent found.1

theorem quote_of_mem_lexFrom {fuel : Nat} {text inner : Chars} {quote : UInt8} {closed : Bool}
    (member : .literal quote inner closed ∈ lexFrom markers fuel text) : quote = 34 ∨ quote = 39 := by
  induction fuel generalizing text with
  | zero => cases member
  | succ fuel ih =>
      cases text with
      | nil => cases member
      | cons letter rest =>
          rw [lexFrom, List.mem_cons] at member
          refine member.elim (fun same => ?_) ih
          by_cases isQuote : letter = 34 ∨ letter = 39
          · rcases scan : scanLiteral letter rest with ⟨inner, _ | later⟩
            · rw [nextPiece_open isQuote scan] at same
              exact (Piece.literal.inj same).1 ▸ isQuote
            · rw [nextPiece_closed isQuote scan] at same
              exact (Piece.literal.inj same).1 ▸ isQuote
          · rcases nextPiece_plain markers rest isQuote with ⟨marker, listed, stands⟩ | plain
            · have comment := nextPiece_comment listed stands
              rw [← same] at comment
              cases comment
            · rw [plain] at same
              cases same

/-- Letters and string literals are left. -/
theorem mem_leftOf {lastChar : Option UInt8} {pieces : List Piece} {piece : Piece}
    (member : piece ∈ leftOf markers true lastChar pieces) :
    (∃ value, piece = .letter value) ∨
      ∃ quote inner closed, piece = .literal quote inner closed ∧ piece ∈ pieces := by
  induction pieces generalizing lastChar with
  | nil => cases member
  | cons first rest ih =>
      rw [leftOf, List.mem_append] at member
      rcases member with here | later
      · cases first with
        | letter value =>
            rw [Piece.left] at here
            split_ifs at here with white drops
            · cases here
            · exact .inl ⟨_, List.mem_singleton.mp here⟩
            · exact .inl ⟨_, List.mem_singleton.mp here⟩
        | literal quote inner closed =>
            rw [Piece.left, List.mem_singleton] at here
            exact .inr ⟨quote, inner, closed, here, here ▸ List.mem_cons_self⟩
        | lineComment body => cases here
        | blockComment body => cases here
      · rcases ih later with letter | ⟨quote, inner, closed, same, among⟩
        · exact .inl letter
        · exact .inr ⟨quote, inner, closed, same, List.mem_cons_of_mem _ among⟩

end Reread

/-! ## Letters that are no white space -/

/-- A text without its white space. -/
def solid (text : Chars) : Chars := text.filter (!isSpaceByte ·)

theorem solid_append (first second : Chars) : solid (first ++ second) = solid first ++ solid second :=
  List.filter_append _ _

/-- Only white space and comments are dropped. -/
theorem solid_left (markers : Markers) (lastChar : Option UInt8) (pieces : List Piece) :
    solid ((leftOf markers true lastChar pieces).flatMap (Piece.written markers)) =
      solid (pieces.flatMap (Piece.kept markers)) := by
  induction pieces generalizing lastChar with
  | nil => rfl
  | cons piece rest ih =>
      rw [leftOf, List.flatMap_append, solid_append, ih, List.flatMap_cons, solid_append]
      congr 1
      cases piece with
      | letter value =>
          rw [Piece.left]
          split_ifs with white drops
          · exact (List.filter_cons_of_neg (by simp [white.2])).symm
          · have whiteBlank := (isSpaceByte_blank value).trans white.2
            change solid [blank value] = solid [value]
            rw [solid, solid, List.filter_cons_of_neg (by simp [whiteBlank]),
              List.filter_cons_of_neg (by simp [white.2])]
          · rfl
      | literal quote inner closed => rw [Piece.left, List.flatMap_singleton]; rfl
      | lineComment body => rfl
      | blockComment body => rfl

/-- Letters are lost exactly if there is a comment. -/
theorem noComment_of_solid {markers : Markers} {pieces : List Piece}
    (visible : solid markers.single.chars ≠ [] ∧ solid markers.multiBegin.chars ≠ [])
    (same : solid (pieces.flatMap (Piece.kept markers)) = solid (pieces.flatMap (Piece.written markers))) :
    ∀ piece ∈ pieces, piece.isComment = false := by
  have fewer (pieces : List Piece) : (solid (pieces.flatMap (Piece.kept markers))).length ≤
      (solid (pieces.flatMap (Piece.written markers))).length := by
    induction pieces with
    | nil => exact Nat.le_refl _
    | cons piece rest ih =>
        simp only [List.flatMap_cons, solid_append, List.length_append]
        refine Nat.add_le_add ?_ ih
        cases piece with
        | letter value => exact Nat.le_refl _
        | literal quote inner closed => exact Nat.le_refl _
        | lineComment body => exact Nat.zero_le _
        | blockComment body => exact Nat.zero_le _
  induction pieces with
  | nil => exact fun piece member => absurd member List.not_mem_nil
  | cons piece rest ih =>
      have restFewer := fewer rest
      have lengths := congrArg List.length same
      simp only [List.flatMap_cons, solid_append, List.length_append] at same lengths
      have lost {marker body : Chars} (seen : solid marker ≠ []) : 0 < (solid (marker ++ body)).length := by
        rw [solid_append, List.length_append]
        have positive := List.length_pos_iff.mpr seen
        omega
      rw [List.forall_mem_cons]
      cases piece with
      | letter value => exact ⟨rfl, ih (List.append_cancel_left same)⟩
      | literal quote inner closed => exact ⟨rfl, ih (List.append_cancel_left same)⟩
      | lineComment body =>
          have positive := @lost _ body visible.1
          simp only [Piece.kept, Piece.written, solid, List.filter_nil, List.length_nil]
            at lengths positive restFewer
          omega
      | blockComment body =>
          have positive := @lost _ body visible.2
          simp only [Piece.kept, Piece.written, solid, List.filter_nil, List.length_nil]
            at lengths positive restFewer
          omega

end Tegenaria.LibStr
