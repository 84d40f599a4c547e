import Tegenaria.LibStr.Minify

/-!
# Comments and string literals

A reference lexer divides source code into comments, string literals and other letters.
`StrMinifyCode` keeps exactly what is no comment, unless a backslash stands before the end of
a literal or the end of a comment overlaps its begin.
-/

namespace Tegenaria.LibStr

open Foundation Foundation.Loop Foundation.Occurrence Foundation.Word

/-- The marks of comments. -/
structure Markers where
  single : CString
  multiBegin : CString
  multiEnd : CString
  visible : ∀ marker ∈ [single, multiBegin, multiEnd], marker.chars ≠ [] ∧
    ∀ letter ∈ marker.chars.head?, letter ∉ [10, 13, 34, 39]

inductive Piece where
  | letter (value : UInt8)
  | literal (quote : UInt8) (inner : Chars) (closed : Bool)
  | lineComment (body : Chars)
  | blockComment (body : Chars)

namespace Piece

/-- A piece as it stands in the source code. -/
def written (markers : Markers) : Piece → Chars
  | letter value => [value]
  | literal quote inner closed => quote :: (inner ++ if closed then [quote] else [])
  | lineComment body => markers.single.chars ++ body
  | blockComment body => markers.multiBegin.chars ++ body

/-- What is left of a piece without comments. -/
def kept (markers : Markers) : Piece → Chars
  | lineComment _ => []
  | blockComment _ => []
  | piece => piece.written markers

/-- No backslash stands before the closing quotation mark, and no end marker starts inside
of the begin marker. -/
def Harmless (markers : Markers) : Piece → Prop
  | literal _ inner closed => closed = true → inner.getLast? ≠ some 92
  | blockComment body => ∀ place < markers.multiBegin.chars.length, 0 < place →
      ¬ markers.multiEnd.chars <+: (markers.multiBegin.chars ++ body).drop place
  | _ => True

instance (markers : Markers) : DecidablePred (Harmless markers)
  | letter _ => inferInstanceAs (Decidable True)
  | literal _ _ _ => inferInstanceAs (Decidable (_ → _))
  | lineComment _ => inferInstanceAs (Decidable True)
  | blockComment _ => inferInstanceAs (Decidable (∀ place < _, 0 < place → _))

end Piece

/-- The inside of a string literal, and what stands behind its closing quotation mark.  A
backslash takes the next letter with it. -/
@[grind =] def scanLiteral (quote : UInt8) : Chars → Chars × Option Chars
  | [] => ([], none)
  | [letter] => if letter = quote then ([], some []) else ([letter], none)
  | letter :: escaped :: rest =>
      if letter = quote then ([], some (escaped :: rest))
      else if letter = 92 then
        let scanned := scanLiteral quote rest
        (letter :: escaped :: scanned.1, scanned.2)
      else
        let scanned := scanLiteral quote (escaped :: rest)
        (letter :: scanned.1, scanned.2)

/-- The rest of a block comment with its end marker, and what stands behind it. -/
def scanBlock (multiEnd text : Chars) : Chars × Chars :=
  match text.dropInfix? multiEnd with
  | some (before, after) => (before ++ multiEnd, after)
  | none => (text, [])

/-- The first piece of source code, and what stands behind it. -/
def nextPiece (markers : Markers) (letter : UInt8) (rest : Chars) : Piece × Chars :=
  if markers.single.chars <+: letter :: rest then
    let behind := (letter :: rest).drop markers.single.chars.length
    (.lineComment (behind.takeWhile (!isLineBreak ·)), behind.dropWhile (!isLineBreak ·))
  else if markers.multiBegin.chars <+: letter :: rest then
    let scanned := scanBlock markers.multiEnd.chars
      ((letter :: rest).drop markers.multiBegin.chars.length)
    (.blockComment scanned.1, scanned.2)
  else if letter = 34 ∨ letter = 39 then
    match scanLiteral letter rest with
    | (inner, some later) => (.literal letter inner true, later)
    | (inner, none) => (.literal letter inner false, [])
  else (.letter letter, rest)

/-- The reference lexer. -/
def lexFrom (markers : Markers) : Nat → Chars → List Piece
  | 0, _ => []
  | _ + 1, [] => []
  | fuel + 1, letter :: rest =>
      (nextPiece markers letter rest).1 :: lexFrom markers fuel (nextPiece markers letter rest).2

def lex (markers : Markers) (code : Chars) : List Piece := lexFrom markers code.length code

/-- Source code without its comments. -/
def uncommented (markers : Markers) (code : Chars) : Chars := (lex markers code).flatMap (Piece.kept markers)

/-- What the scanner leaves of a piece, given the last letter that is left and the next one
that is read. -/
def Piece.left (whites : Bool) (lastChar nextChar : Option UInt8) : Piece → List Piece
  | letter value =>
      if whites = true ∧ isSpaceByte value = true then
        if droppable lastChar nextChar then [] else [letter (blank value)]
      else [letter value]
  | literal quote inner closed => [literal quote inner closed]
  | lineComment _ => []
  | blockComment _ => []

/-- What the scanner leaves of the pieces. -/
def leftOf (markers : Markers) (whites : Bool) : Option UInt8 → List Piece → List Piece
  | _, [] => []
  | lastChar, piece :: rest =>
      let left := piece.left whites lastChar (rest.flatMap (Piece.written markers)).head?
      left ++ leftOf markers whites ((left.flatMap (Piece.written markers)).getLast?.or lastChar) rest

/-- A call that removes the comments only. -/
def Markers.args (markers : Markers) (code : Chars) : MinifierArgs where
  code := code
  singleComment := some markers.single
  multiCommentBegin := some markers.multiBegin
  multiCommentEnd := some markers.multiEnd
  removeWhites := false

/-- A call that also drops white space if asked to. -/
def Markers.call (markers : Markers) (removeWhites : Bool) (code : Chars) : MinifierArgs where
  code := code
  singleComment := some markers.single
  multiCommentBegin := some markers.multiBegin
  multiCommentEnd := some markers.multiEnd
  removeWhites := removeWhites

/-- The marks of `C`. -/
def cMarkers : Markers where
  single := ⟨[47, 47], by decide⟩
  multiBegin := ⟨[47, 42], by decide⟩
  multiEnd := ⟨[42, 47], by decide⟩
  visible := by simp

theorem scanLiteral_split (quote : UInt8) (text : Chars) :
    (scanLiteral quote text).1 ++ (scanLiteral quote text).2.elim [] (quote :: ·) = text := by
  fun_induction scanLiteral quote text with
  | case1 => rfl
  | case2 => rfl
  | case3 => rfl
  | case4 => rfl
  | case5 escaped rest scanned other ih => rw [List.cons_append, List.cons_append, ih]
  | case6 letter escaped rest other notBackslash scanned ih => rw [List.cons_append, ih]

theorem scanBlock_split (multiEnd text : Chars) :
    (scanBlock multiEnd text).1 ++ (scanBlock multiEnd text).2 = text := by
  rw [scanBlock]
  cases cut : text.dropInfix? multiEnd with
  | none => exact List.append_nil text
  | some parts => exact (cut_eq cut).symm

theorem nextPiece_split (markers : Markers) (letter : UInt8) (rest : Chars) :
    (nextPiece markers letter rest).1.written markers ++ (nextPiece markers letter rest).2 =
      letter :: rest := by
  rw [nextPiece]
  split_ifs with single multi isQuote
  · obtain ⟨behind, text⟩ := single
    rw [← text, List.drop_left, Piece.written, List.append_assoc, List.takeWhile_append_dropWhile]
  · obtain ⟨behind, text⟩ := multi
    rw [← text, List.drop_left, Piece.written, List.append_assoc, scanBlock_split]
  · have text := scanLiteral_split letter rest
    rcases scan : scanLiteral letter rest with ⟨inner, _ | later⟩
    · rw [scan] at text
      simpa [Piece.written] using text
    · rw [scan] at text
      simpa [Piece.written] using text
  · rfl

theorem length_nextPiece (markers : Markers) (letter : UInt8) (rest : Chars) :
    (nextPiece markers letter rest).2.length ≤ rest.length := by
  have length := congrArg List.length (nextPiece_split markers letter rest)
  have visible := markers.visible
  simp only [List.forall_mem_cons] at visible
  have single := List.length_pos_iff.mpr visible.1.1
  have multi := List.length_pos_iff.mpr visible.2.1.1
  rw [List.length_append, List.length_cons] at length
  have positive : 0 < ((nextPiece markers letter rest).1.written markers).length := by
    cases (nextPiece markers letter rest).1 with
    | letter value => exact Nat.one_pos
    | literal quote inner closed => exact Nat.succ_pos _
    | lineComment body => rw [Piece.written, List.length_append]; omega
    | blockComment body => rw [Piece.written, List.length_append]; omega
  omega

/-- The pieces are the source code. -/
theorem lexFrom_written (markers : Markers) {fuel : Nat} {text : Chars} (enough : text.length ≤ fuel) :
    (lexFrom markers fuel text).flatMap (Piece.written markers) = text := by
  induction fuel generalizing text with
  | zero => exact (List.eq_nil_of_length_eq_zero (Nat.le_zero.mp enough)).symm
  | succ fuel ih =>
      cases text with
      | nil => rfl
      | cons letter rest =>
          have shorter := length_nextPiece markers letter rest
          rw [List.length_cons] at enough
          rw [lexFrom, List.flatMap_cons, ih (by omega), nextPiece_split]

theorem lex_written (markers : Markers) (code : Chars) :
    (lex markers code).flatMap (Piece.written markers) = code :=
  lexFrom_written markers (le_refl _)

/-- Without white space removal everything but the comments is left. -/
theorem leftOf_false (markers : Markers) (lastChar : Option UInt8) (pieces : List Piece) :
    (leftOf markers false lastChar pieces).flatMap (Piece.written markers) =
      pieces.flatMap (Piece.kept markers) := by
  induction pieces generalizing lastChar with
  | nil => rfl
  | cons piece rest ih =>
      rw [leftOf, List.flatMap_append, ih, List.flatMap_cons]
      congr 1
      cases piece with
      | letter value => rfl
      | literal quote inner closed => exact List.append_nil _
      | lineComment body => rfl
      | blockComment body => rfl

/-! ## Runs of the scanner -/

/-- The scanner behind the letters `pre` ends with a result. -/
def Runs (markers : Markers) (whites : Bool) (code pre : Chars) (state : MinifierState)
    (lastChar : Option UInt8) (rv result : Chars) : Prop :=
  Returns (minifyStep (markers.call whites code)) (scanned pre state lastChar rv) result

/-- At the letters of the source code `strncmp` with an `int` sees whether a whole marker
stands there. -/
def ReadWhole (code : Chars) (marker : CString) : Prop :=
  ∀ place < code.length, standsAt (code.drop place) (some marker) ↔ marker.chars <+: code.drop place

section Runs

variable {markers : Markers} {whites : Bool} {code pre rest rv result : Chars} {state : MinifierState}
  {lastChar : Option UInt8} {letter : UInt8}

theorem runs_end (ended : code = pre) :
    Runs markers whites code pre state lastChar rv result ↔ result = rv :=
  returns_done (minifyStep_end ended)

theorem stands_iff {marker : CString} (reads : ReadWhole code marker) (split : code = pre ++ letter :: rest) :
    standsAt (letter :: rest) (some marker) ↔ marker.chars <+: letter :: rest := by
  have length := congrArg List.length split
  rw [List.length_append, List.length_cons] at length
  have whole := reads pre.length (by omega)
  rwa [split, List.drop_left] at whole

/-- In a block comment the scanner looks for the end marker only. -/
theorem switch_multiComment (letters : Chars) :
    minifySwitch (markers.call whites code) (scanned pre .multiComment lastChar rv) letter letters =
      if standsAt letters (some markers.multiEnd) then
        (toI32 ((pre.length : Int) + (markerSize (some markers.multiEnd) - 1)), .code, false)
      else ((pre.length : Int), .multiComment, false) := rfl

theorem switch_code (letters : Chars) :
    minifySwitch (markers.call whites code) (scanned pre .code lastChar rv) letter letters =
      if standsAt letters (some markers.single) then
        (toI32 ((pre.length : Int) + (markerSize (some markers.single) - 1)), .singleComment, false)
      else if standsAt letters (some markers.multiBegin) then ((pre.length : Int), .multiComment, false)
      else if letter = 34 then ((pre.length : Int), .doubleString, true)
      else if letter = 39 then ((pre.length : Int), .singleString, true)
      else ((pre.length : Int), .code, true) := rfl

variable (short : code.length < 2 ^ 31)
include short

theorem runs_on {append : Bool} {next : MinifierState} (split : code = pre ++ letter :: rest)
    (switch : minifySwitch (markers.call whites code) (scanned pre state lastChar rv) letter
      (letter :: rest) = ((pre.length : Int), next, append))
    (inert : append = true → whites = true → next = .code → isSpaceByte letter = false) :
    Runs markers whites code pre state lastChar rv result ↔
      Runs markers whites code (pre ++ [letter]) next (if append then some letter else lastChar)
        (if append then rv ++ [letter] else rv) result :=
  returns_next (minifyStep_on short split switch inert)

theorem runs_skip {next : MinifierState} (split : code = pre ++ letter :: rest)
    (switch : minifySwitch (markers.call whites code) (scanned pre state lastChar rv) letter
      (letter :: rest) = ((pre.length : Int), next, false)) :
    Runs markers whites code pre state lastChar rv result ↔
      Runs markers whites code (pre ++ [letter]) next lastChar rv result :=
  runs_on short split switch fun absurdity => absurd absurdity Bool.false_ne_true

/-- A line comment is skipped up to the line break. -/
theorem runs_lineComment (split : code = pre ++ rest) :
    Runs markers whites code pre .singleComment lastChar rv result ↔
      Runs markers whites code (pre ++ rest.takeWhile (!isLineBreak ·)) .code lastChar rv result := by
  induction rest generalizing pre with
  | nil =>
      rw [List.append_nil] at split
      rw [List.takeWhile_nil, List.append_nil, runs_end split, runs_end split]
  | cons letter rest ih =>
      by_cases breaks : isLineBreak letter = true
      · have back := @minifyStep_back (markers.call whites code) pre rest rv .singleComment .code lastChar
          letter short split (if_pos breaks)
        rw [List.takeWhile_cons_of_neg (by simp [breaks]), List.append_nil]
        exact returns_next back
      · have switch : minifySwitch (markers.call whites code) (scanned pre .singleComment lastChar rv)
          letter (letter :: rest) = ((pre.length : Int), .singleComment, false) := if_neg breaks
        rw [runs_skip short split switch, List.takeWhile_cons_of_pos (by simpa using breaks),
          List.append_cons pre letter (List.takeWhile _ rest)]
        exact ih (by rw [split, List.append_cons])

/-- Behind the begin of a block comment the scanner looks for the end marker. -/
theorem runs_multiComment (reads : ReadWhole code markers.multiEnd) {before after : Chars}
    (nonempty : markers.multiEnd.chars ≠ []) (split : code = pre ++ rest)
    (cut : rest.dropInfix? markers.multiEnd.chars = some (before, after)) :
    Runs markers whites code pre .multiComment lastChar rv result ↔
      Runs markers whites code (pre ++ (before ++ markers.multiEnd.chars)) .code lastChar rv result := by
  induction before generalizing pre rest with
  | nil =>
      have stands := cut_eq cut
      rw [List.nil_append] at stands
      rw [stands] at split
      refine returns_next (@minifyStep_jump (markers.call whites code) pre after rv .multiComment .code
        lastChar short markers.multiEnd nonempty split fun first tail letters => ?_)
      rw [letters] at split
      rw [switch_multiComment, if_pos ((stands_iff reads split).mpr (letters ▸ List.prefix_append _ _))]
  | cons letter before ih =>
      have stands := cut_eq cut
      rw [List.cons_append, List.cons_append] at stands
      have notHere : ¬ markers.multiEnd.chars <+: rest := by
        simpa using @cut_first _ _ _ _ _ _ cut 0 (by simp)
      rw [stands] at split notHere
      have switch : minifySwitch (markers.call whites code) (scanned pre .multiComment lastChar rv) letter
          (letter :: (before ++ markers.multiEnd.chars ++ after)) =
            ((pre.length : Int), .multiComment, false) := by
        rw [switch_multiComment, if_neg fun here => notHere ((stands_iff reads split).mp here)]
      have later : (before ++ markers.multiEnd.chars ++ after).dropInfix? markers.multiEnd.chars =
          some (before, after) := by
        refine cut_eq_some_iff.mpr ⟨rfl, fun place inside => ?_⟩
        have first := @cut_first _ _ _ _ _ _ cut (place + 1) (by simpa using inside)
        rwa [stands] at first
      rw [runs_skip short split switch, List.cons_append, List.append_cons pre letter (before ++ _)]
      exact ih (by rw [split, List.append_cons]) later

/-- A block comment without an end. -/
theorem runs_openComment (reads : ReadWhole code markers.multiEnd) (split : code = pre ++ rest)
    (open_ : ¬ markers.multiEnd.chars <:+: rest) :
    Runs markers whites code pre .multiComment lastChar rv result ↔ result = rv := by
  induction rest generalizing pre with
  | nil => exact runs_end (by rw [split, List.append_nil])
  | cons letter rest ih =>
      have switch : minifySwitch (markers.call whites code) (scanned pre .multiComment lastChar rv) letter
          (letter :: rest) = ((pre.length : Int), .multiComment, false) := by
        rw [switch_multiComment, if_neg fun here => open_ ((stands_iff reads split).mp here).isInfix]
      rw [runs_skip short split switch]
      exact ih (by rw [split, List.append_cons]) fun later =>
        open_ (later.trans (List.suffix_cons _ _).isInfix)

/-- A letter of a string literal. -/
theorem runs_quoted {quote : UInt8} (isQuote : quote = 34 ∨ quote = 39) (split : code = pre ++ letter :: rest) :
    Runs markers whites code pre (stringState quote) lastChar rv result ↔
      Runs markers whites code (pre ++ [letter])
        (if letter = quote ∧ lastChar ≠ some 92 then .code else stringState quote) (some letter)
        (rv ++ [letter]) result := by
  refine @runs_on markers whites code pre rest rv result _ lastChar letter short true _ split ?_ ?_
  · rcases isQuote with rfl | rfl
    · rfl
    · rfl
  · rintro - - ended
    have closes : letter = quote := by
      by_contra other
      rw [if_neg fun both => other both.1, stringState] at ended
      split_ifs at ended
    rcases isQuote with rfl | rfl
    · rw [closes]
      rfl
    · rw [closes]
      rfl

theorem runs_inside {quote : UInt8} (isQuote : quote = 34 ∨ quote = 39) (split : code = pre ++ letter :: rest)
    (inside : letter ≠ quote ∨ lastChar = some 92) :
    Runs markers whites code pre (stringState quote) lastChar rv result ↔
      Runs markers whites code (pre ++ [letter]) (stringState quote) (some letter) (rv ++ [letter])
        result := by
  have stays : ¬ (letter = quote ∧ lastChar ≠ some 92) := by
    rcases inside with other | escaped
    · exact fun closes => other closes.1
    · exact fun closes => closes.2 escaped
  rw [runs_quoted short isQuote split, if_neg stays]

theorem runs_close {quote : UInt8} (isQuote : quote = 34 ∨ quote = 39) (split : code = pre ++ quote :: rest)
    (notEscaped : lastChar ≠ some 92) :
    Runs markers whites code pre (stringState quote) lastChar rv result ↔
      Runs markers whites code (pre ++ [quote]) .code (some quote) (rv ++ [quote]) result := by
  rw [runs_quoted short isQuote split, if_pos ⟨rfl, notEscaped⟩]

omit short in
theorem getLast?_cons_or (inner : Chars) :
    (letter :: inner).getLast?.or lastChar = inner.getLast?.or (some letter) := by
  rw [List.getLast?_cons]
  cases inner.getLast? with
  | none => rfl
  | some last => rfl

/-- A string literal that ends, with no backslash before its end. -/
theorem runs_closedLiteral {quote : UInt8} (isQuote : quote = 34 ∨ quote = 39) {text inner later : Chars}
    (split : code = pre ++ text) (closes : scanLiteral quote text = (inner, some later))
    (harmless : inner.getLast?.or lastChar ≠ some 92) :
    Runs markers whites code pre (stringState quote) lastChar rv result ↔
      Runs markers whites code (pre ++ (inner ++ [quote])) .code (some quote)
        (rv ++ (inner ++ [quote])) result := by
  fun_induction scanLiteral quote text generalizing pre inner lastChar rv with
  | case1 => simp at closes
  | case2 =>
      obtain ⟨rfl, _⟩ := Prod.mk.inj closes
      exact runs_close short isQuote split harmless
  | case3 => simp at closes
  | case4 =>
      obtain ⟨rfl, _⟩ := Prod.mk.inj closes
      exact runs_close short isQuote split harmless
  | case5 =>
      rename_i escaped rest scanned other ih
      obtain ⟨rfl, ended⟩ := Prod.mk.inj closes
      have splitNext : code = pre ++ [92] ++ escaped :: rest := by rw [split, List.append_cons]
      rw [getLast?_cons_or, getLast?_cons_or] at harmless
      rw [runs_inside short isQuote split (.inl other), runs_inside short isQuote splitNext (.inr rfl),
        ih (by rw [splitNext, List.append_cons]) (Prod.ext rfl ended) harmless]
      simp only [List.append_assoc, List.cons_append, List.nil_append]
      rfl
  | case6 =>
      rename_i letter escaped rest other notBackslash scanned ih
      obtain ⟨rfl, ended⟩ := Prod.mk.inj closes
      rw [getLast?_cons_or] at harmless
      rw [runs_inside short isQuote split (.inl other),
        ih (by rw [split, List.append_cons]) (Prod.ext rfl ended) harmless]
      simp only [List.append_assoc, List.cons_append, List.nil_append]
      rfl

/-- A string literal that does not end. -/
theorem runs_openLiteral {quote : UInt8} (isQuote : quote = 34 ∨ quote = 39) {text inner : Chars}
    (split : code = pre ++ text) (opened : scanLiteral quote text = (inner, none)) :
    Runs markers whites code pre (stringState quote) lastChar rv result ↔ result = rv ++ inner := by
  fun_induction scanLiteral quote text generalizing pre inner lastChar rv with
  | case1 =>
      obtain ⟨rfl, _⟩ := Prod.mk.inj opened
      rw [runs_end (by rw [split, List.append_nil]), List.append_nil]
  | case2 => simp at opened
  | case3 letter other =>
      obtain ⟨rfl, _⟩ := Prod.mk.inj opened
      rw [runs_inside short isQuote split (.inl other), runs_end split]
  | case4 => simp at opened
  | case5 =>
      rename_i escaped rest scanned other ih
      obtain ⟨rfl, ended⟩ := Prod.mk.inj opened
      have splitNext : code = pre ++ [92] ++ escaped :: rest := by rw [split, List.append_cons]
      rw [runs_inside short isQuote split (.inl other), runs_inside short isQuote splitNext (.inr rfl),
        ih (by rw [splitNext, List.append_cons]) (Prod.ext rfl ended)]
      simp only [List.append_assoc, List.cons_append, List.nil_append]
      rfl
  | case6 =>
      rename_i letter escaped rest other notBackslash scanned ih
      obtain ⟨rfl, ended⟩ := Prod.mk.inj opened
      rw [runs_inside short isQuote split (.inl other),
        ih (by rw [split, List.append_cons]) (Prod.ext rfl ended)]
      simp only [List.append_assoc, List.cons_append, List.nil_append]
      rfl

/-- A block comment whose begin no end marker overlaps. -/
theorem runs_blockComment (reads : ReadWhole code markers.multiEnd) {front behind : Chars}
    (nonempty : markers.multiEnd.chars ≠ []) (first : markers.multiBegin.chars = letter :: front)
    (split : code = pre ++ (markers.multiBegin.chars ++ behind))
    (harmless : (Piece.blockComment (scanBlock markers.multiEnd.chars behind).1).Harmless markers) :
    Runs markers whites code (pre ++ [letter]) .multiComment lastChar rv result ↔
      Runs markers whites code
        (pre ++ (markers.multiBegin.chars ++ (scanBlock markers.multiEnd.chars behind).1)) .code
        lastChar rv result := by
  have splitNext : code = pre ++ [letter] ++ (front ++ behind) := by
    rw [split, first, List.cons_append, List.append_cons]
  have clear : ∀ place < front.length, ¬ markers.multiEnd.chars <+:
      (front ++ (scanBlock markers.multiEnd.chars behind).1).drop place := by
    intro place inside starts
    refine harmless (place + 1) ?_ (Nat.succ_pos _) ?_
    · rw [first, List.length_cons]
      omega
    · rwa [first, List.cons_append, List.drop_succ_cons]
  rw [scanBlock] at clear ⊢
  cases cut : behind.dropInfix? markers.multiEnd.chars with
  | some parts =>
      rw [cut] at clear
      rw [runs_multiComment short reads nonempty splitNext (cut_append cut clear), first]
      simp only [List.append_assoc, List.cons_append, List.nil_append]
  | none =>
      rw [cut] at clear
      rw [runs_openComment short reads splitNext (absent_append (cut_eq_none_iff.mp cut) clear),
        runs_end split]

/-- A line comment, its marker included. -/
theorem runs_lineBegin {behind : Chars} (nonempty : markers.single.chars ≠ [])
    (text : markers.single.chars ++ behind = letter :: rest) (split : code = pre ++ letter :: rest)
    (stands : standsAt (letter :: rest) (some markers.single)) :
    Runs markers whites code pre .code lastChar rv result ↔
      Runs markers whites code (pre ++ (markers.single.chars ++ behind.takeWhile (!isLineBreak ·))) .code
        lastChar rv result := by
  have switch := @switch_code markers whites code pre rv lastChar letter (letter :: rest)
  rw [if_pos stands] at switch
  rw [← text] at split
  have jump := @minifyStep_jump (markers.call whites code) pre behind rv .code .singleComment lastChar
    short markers.single nonempty split fun first tail letters => by
      obtain ⟨rfl, rfl⟩ := List.cons.inj (letters.symm.trans text)
      exact switch
  rw [← List.append_assoc]
  exact (returns_next jump).trans (runs_lineComment short (by rw [split, List.append_assoc]))

/-- A string literal behind its first quotation mark. -/
theorem runs_literal (isQuote : letter = 34 ∨ letter = 39) (split : code = pre ++ letter :: rest)
    {inner : Chars} {later : Option Chars} (scan : scanLiteral letter rest = (inner, later))
    (harmless : (Piece.literal letter inner later.isSome).Harmless markers) :
    Runs markers whites code (pre ++ [letter]) (stringState letter) (some letter) (rv ++ [letter]) result ↔
      Runs markers whites code (pre ++ (Piece.literal letter inner later.isSome).written markers) .code
        ((Piece.literal letter inner later.isSome).written markers).getLast?
        (rv ++ (Piece.literal letter inner later.isSome).written markers) result := by
  have splitNext : code = pre ++ [letter] ++ rest := by rw [split, List.append_cons]
  cases later with
  | none =>
      have text := scanLiteral_split letter rest
      rw [scan, Option.elim_none, List.append_nil] at text
      rw [runs_openLiteral short isQuote splitNext scan,
        runs_end (by rw [split, ← text]; simp [Piece.written])]
      simp [Piece.written]
  | some later =>
      have before : inner.getLast?.or (some letter) ≠ some 92 := by
        intro backslash
        cases last : inner.getLast? with
        | none =>
            rw [last, Option.none_or, Option.some.injEq] at backslash
            rcases isQuote with rfl | rfl
            · exact absurd backslash (by decide)
            · exact absurd backslash (by decide)
        | some value =>
            rw [last, Option.some_or] at backslash
            exact harmless rfl (last.trans backslash)
      have last : ((Piece.literal letter inner true).written markers).getLast? = some letter := by
        rw [Piece.written, if_pos rfl, ← List.cons_append, List.getLast?_concat]
      rw [runs_closedLiteral short isQuote splitNext scan before, Option.isSome_some, last]
      simp only [Piece.written, if_true, List.append_assoc, List.cons_append, List.nil_append]

/-- A letter that is no mark. -/
theorem runs_letter (split : code = pre ++ letter :: rest)
    (switch : minifySwitch (markers.call whites code) (scanned pre .code lastChar rv) letter
      (letter :: rest) = ((pre.length : Int), .code, true)) :
    Runs markers whites code pre .code lastChar rv result ↔
      Runs markers whites code (pre ++ [letter]) .code
        ((((Piece.letter letter).left whites lastChar rest.head?).flatMap
          (Piece.written markers)).getLast?.or lastChar)
        (rv ++ ((Piece.letter letter).left whites lastChar rest.head?).flatMap (Piece.written markers))
        result := by
  rw [Piece.left]
  by_cases squeezed : whites = true ∧ isSpaceByte letter = true
  · have round := @minifyStep_white (markers.call whites code) pre rest rv lastChar letter short
      squeezed.1 split squeezed.2 switch
    rw [if_pos squeezed]
    cases drops : droppable lastChar rest.head? with
    | true =>
        rw [drops, if_pos rfl] at round
        rw [if_pos rfl, List.flatMap_nil, List.append_nil]
        exact returns_next round
    | false =>
        rw [drops, if_neg Bool.false_ne_true] at round
        rw [if_neg Bool.false_ne_true]
        exact returns_next round
  · rw [if_neg squeezed]
    refine runs_on short split switch fun _ removes _ => ?_
    rw [← Bool.not_eq_true]
    exact fun white => squeezed ⟨removes, white⟩

/-- Twice the letters that are passed, with the half step at the end of a line comment. -/
def passedHalves (pre : Nat) (state : MinifierState) : Nat :=
  2 * pre + if state = .singleComment then 0 else 1

/-- A round that comes nearer to the end of the source code, or ends a line comment. -/
def Progress (markers : Markers) (code pre : Chars) (state : MinifierState) (lastChar : Option UInt8)
    (rv : Chars) : Prop :=
  ∃ later rest next last kept, minifyStep (markers.args code) (scanned pre state lastChar rv) =
      .next (scanned later next last kept) ∧ code = later ++ rest ∧
    passedHalves pre.length state < passedHalves later.length next

variable (reads : ∀ marker ∈ [markers.single, markers.multiBegin, markers.multiEnd],
  ReadWhole code marker)
include reads

/-- A piece that is harmless is passed as a whole. -/
theorem runs_nextPiece (split : code = pre ++ letter :: rest)
    (harmless : (nextPiece markers letter rest).1.Harmless markers) :
    Runs markers whites code pre .code lastChar rv result ↔
      Runs markers whites code (pre ++ (nextPiece markers letter rest).1.written markers) .code
        ((((nextPiece markers letter rest).1.left whites lastChar
          (nextPiece markers letter rest).2.head?).flatMap (Piece.written markers)).getLast?.or lastChar)
        (rv ++ ((nextPiece markers letter rest).1.left whites lastChar
          (nextPiece markers letter rest).2.head?).flatMap (Piece.written markers)) result := by
  have visible := markers.visible
  simp only [List.forall_mem_cons] at reads visible
  obtain ⟨readsSingle, readsBegin, readsEnd, _⟩ := reads
  have singleStands := stands_iff readsSingle split
  have beginStands := stands_iff readsBegin split
  have switch := @switch_code markers whites code pre rv lastChar letter (letter :: rest)
  rw [nextPiece] at harmless ⊢
  by_cases single : markers.single.chars <+: letter :: rest
  · have stands := singleStands.mpr single
    rw [if_pos single]
    obtain ⟨behind, text⟩ := single
    rw [← text, List.drop_left, Piece.left, List.flatMap_nil, List.append_nil, Piece.written]
    exact runs_lineBegin short visible.1.1 text split stands
  rw [if_neg fun stands => single (singleStands.mp stands)] at switch
  rw [if_neg single] at harmless ⊢
  by_cases multi : markers.multiBegin.chars <+: letter :: rest
  · rw [if_pos (beginStands.mpr multi)] at switch
    rw [if_pos multi] at harmless ⊢
    rw [runs_skip short split switch]
    obtain ⟨behind, text⟩ := multi
    obtain ⟨first, front, letters⟩ := List.exists_cons_of_ne_nil visible.2.1.1
    rw [← text] at split
    rw [← text, List.drop_left] at harmless
    rw [← text, List.drop_left, Piece.left, List.flatMap_nil, List.append_nil, Piece.written]
    rw [letters, List.cons_append, List.cons.injEq] at text
    rw [text.1] at letters
    exact runs_blockComment short readsEnd visible.2.2.1.1 letters split harmless
  rw [if_neg fun stands => multi (beginStands.mp stands)] at switch
  rw [if_neg multi] at harmless ⊢
  by_cases isQuote : letter = 34 ∨ letter = 39
  · have string : minifySwitch (markers.call whites code) (scanned pre .code lastChar rv) letter
        (letter :: rest) = ((pre.length : Int), stringState letter, true) := by
      rcases isQuote with rfl | rfl
      · exact switch
      · exact switch
    have inString : whites = true → stringState letter = .code → isSpaceByte letter = false := by
      intro _ ended
      rw [stringState] at ended
      split_ifs at ended
    rw [if_pos isQuote] at harmless ⊢
    rw [runs_on short split string fun _ => inString]
    have literal {inner : Chars} {later : Option Chars} (scan : scanLiteral letter rest = (inner, later))
        (harmless : (Piece.literal letter inner later.isSome).Harmless markers) :=
      @runs_literal markers whites code pre rest rv result letter short isQuote split inner later scan
        harmless
    rcases scan : scanLiteral letter rest with ⟨inner, _ | later⟩
    · rw [scan] at harmless
      rw [Piece.left, List.flatMap_singleton]
      exact literal scan harmless
    · rw [scan] at harmless
      rw [Piece.left, List.flatMap_singleton]
      exact literal scan harmless
  · rw [not_or] at isQuote
    rw [if_neg isQuote.1, if_neg isQuote.2] at switch
    rw [if_neg (not_or.mpr isQuote)]
    exact runs_letter short split switch

/-- The scanner leaves what is to be left of the pieces of the reference lexer. -/
theorem runs_lex {fuel : Nat} (enough : rest.length ≤ fuel)
    (harmless : ∀ piece ∈ lexFrom markers fuel rest, piece.Harmless markers)
    (split : code = pre ++ rest) :
    Runs markers whites code pre .code lastChar rv
      (rv ++ (leftOf markers whites lastChar (lexFrom markers fuel rest)).flatMap
        (Piece.written markers)) := by
  induction fuel generalizing pre rest lastChar rv with
  | zero =>
      rw [List.eq_nil_of_length_eq_zero (Nat.le_zero.mp enough), List.append_nil] at split
      rw [lexFrom, leftOf, List.flatMap_nil, List.append_nil, runs_end split]
  | succ fuel ih =>
      cases rest with
      | nil =>
          rw [List.append_nil] at split
          rw [lexFrom, leftOf, List.flatMap_nil, List.append_nil, runs_end split]
      | cons letter rest =>
          have shorter := length_nextPiece markers letter rest
          rw [List.length_cons] at enough
          rw [lexFrom, List.forall_mem_cons] at harmless
          rw [lexFrom, leftOf, lexFrom_written markers (by omega : _ ≤ fuel), List.flatMap_append,
            ← List.append_assoc, runs_nextPiece short reads split harmless.1]
          refine ih (by omega) harmless.2 ?_
          rw [split, List.append_assoc, nextPiece_split]

omit reads in
/-- A round that goes on by one letter. -/
theorem progress_on {append : Bool} {next : MinifierState} (split : code = pre ++ letter :: rest)
    (switch : minifySwitch (markers.args code) (scanned pre state lastChar rv) letter (letter :: rest) =
      ((pre.length : Int), next, append)) :
    Progress markers code pre state lastChar rv :=
  ⟨_, rest, next, _, _, minifyStep_on short split switch fun _ removes _ =>
    absurd removes Bool.false_ne_true, by rw [split, List.append_cons], by
    rw [List.length_append, List.length_singleton, passedHalves, passedHalves]
    split_ifs
    all_goals omega⟩

omit reads in
/-- A round that goes on by a marker. -/
theorem progress_jump {marker : CString} {next : MinifierState} {first : UInt8} {tail : Chars}
    (nonempty : marker.chars ≠ []) (stands : marker.chars <+: first :: tail)
    (split : code = pre ++ first :: tail)
    (switch : minifySwitch (markers.args code) (scanned pre state lastChar rv) first (first :: tail) =
      (toI32 ((pre.length : Int) + (markerSize (some marker) - 1)), next, false)) :
    Progress markers code pre state lastChar rv := by
  obtain ⟨behind, text⟩ := stands
  have positive := List.length_pos_iff.mpr nonempty
  rw [← text] at split
  have jump := @minifyStep_jump (markers.args code) pre behind rv state next lastChar short marker
    nonempty split fun other rest letters => by
      obtain ⟨rfl, rfl⟩ := List.cons.inj (letters.symm.trans text)
      exact switch
  refine ⟨_, behind, next, _, _, jump, by rw [split, List.append_assoc], ?_⟩
  rw [List.length_append, passedHalves, passedHalves]
  split_ifs
  all_goals omega

theorem progress (split : code = pre ++ letter :: rest) : Progress markers code pre state lastChar rv := by
  have visible := markers.visible
  simp only [List.forall_mem_cons] at reads visible
  obtain ⟨readsSingle, readsBegin, readsEnd, _⟩ := reads
  have singleStands := stands_iff readsSingle split
  have endStands := stands_iff readsEnd split
  cases state with
  | code =>
      have switch := @switch_code markers false code pre rv lastChar letter (letter :: rest)
      split_ifs at switch with single multi double quote
      · exact progress_jump short visible.1.1 (singleStands.mp single) split switch
      · exact progress_on short split switch
      · exact progress_on short split switch
      · exact progress_on short split switch
      · exact progress_on short split switch
  | singleComment =>
      by_cases breaks : isLineBreak letter = true
      · have back := @minifyStep_back (markers.args code) pre rest rv .singleComment .code lastChar
          letter short split (if_pos breaks)
        exact ⟨_, letter :: rest, .code, _, _, back, split, Nat.lt_succ_self _⟩
      · exact @progress_on markers code pre rest rv .singleComment lastChar letter short false
          .singleComment split (if_neg breaks)
  | multiComment =>
      have switch := @switch_multiComment markers false code pre rv lastChar letter (letter :: rest)
      split_ifs at switch with ends
      · exact progress_jump short visible.2.2.1.1 (endStands.mp ends) split switch
      · exact progress_on short split switch
  | singleString =>
      exact @progress_on markers code pre rest rv .singleString lastChar letter short true _ split rfl
  | doubleString =>
      exact @progress_on markers code pre rest rv .doubleString lastChar letter short true _ split rfl

/-- The loop ends, whatever the pieces are. -/
theorem minify_ends : Ends (minifyStep (markers.args code)) (scanned [] .code none []) := by
  refine @ends_of_measure _ _ (minifyStep (markers.args code)) _
    (fun minifier => ∃ pre rest state last kept, minifier = scanned pre state last kept ∧
      code = pre ++ rest)
    (fun minifier => 2 * code.length + 1 - passedHalves minifier.i.toNat minifier.state) ?_
    ⟨[], code, .code, none, [], rfl, rfl⟩
  rintro _ ⟨pre, rest, state, last, kept, rfl, split⟩
  cases rest with
  | nil =>
      rw [List.append_nil] at split
      exact .inl ⟨kept, minifyStep_end split⟩
  | cons letter rest =>
      obtain ⟨later, behind, next, lastNext, keptNext, goes, splitNext, nearer⟩ :=
        progress short reads split
      refine .inr ⟨_, goes, ⟨later, behind, next, lastNext, keptNext, rfl, splitNext⟩, ?_⟩
      have inside := congrArg List.length splitNext
      have limit : passedHalves later.length next ≤ 2 * later.length + 1 := by
        rw [passedHalves]
        split_ifs
        all_goals omega
      rw [List.length_append] at inside
      change 2 * code.length + 1 - passedHalves later.length next <
        2 * code.length + 1 - passedHalves pre.length state
      omega

end Runs

/-- A marker that fits an `int` is read as a whole. -/
theorem readWhole_of_short {marker : CString} (short : marker.chars.length < 2 ^ 31) (code : Chars) :
    ReadWhole code marker := by
  intro place _
  generalize code.drop place = src
  have size : (intLength marker % 2 ^ 64).toNat = marker.chars.length := by
    rw [intLength_of_fits short]
    omega
  rw [standsAt, strncmpEqual, size, Terminator.visible_of_notMem marker.plain, List.take_left,
    decide_eq_true_iff]
  constructor
  · intro same
    have starts : marker.chars <+: Terminator.visible 0 src ++ [0] := same ▸ List.take_prefix _ _
    rcases List.prefix_concat_iff.mp starts with whole | within
    · exact absurd (by rw [whole]; simp) marker.plain
    · exact within.trans (List.takeWhile_prefix _)
  · rintro ⟨behind, rfl⟩
    have plain : ∀ letter ∈ marker.chars, decide (letter ≠ 0) = true := by
      intro letter member
      rw [decide_eq_true_iff]
      rintro rfl
      exact marker.plain member
    rw [Terminator.visible, List.takeWhile_append_of_pos plain, List.append_assoc, List.take_left]

/-- Exactly the comments are removed. -/
def StripsComments (markers : Markers) (code : Chars) : Prop :=
  ∃ fuel, strMinifyCode fuel (markers.args code) = .returned (uncommented markers code)

/-- The scanner ends, and source code whose pieces are harmless is stripped of its comments. -/
theorem stripsComments_of_harmless {markers : Markers} {code : Chars} (short : code.length < 2 ^ 31)
    (reads : ∀ marker ∈ [markers.single, markers.multiBegin, markers.multiEnd], ReadWhole code marker) :
    (∃ fuel result, strMinifyCode fuel (markers.args code) = .returned result) ∧
      ((∀ piece ∈ lex markers code, piece.Harmless markers) → StripsComments markers code) := by
  constructor
  · obtain ⟨result, fuel, returned⟩ := minify_ends short reads
    exact ⟨fuel, result, returned⟩
  · intro harmless
    have runs := @runs_lex markers false code [] code [] none short reads code.length (le_refl _)
      harmless rfl
    rwa [List.nil_append, leftOf_false] at runs

theorem readWhole_cMarkers (code : Chars) :
    ∀ marker ∈ [cMarkers.single, cMarkers.multiBegin, cMarkers.multiEnd], ReadWhole code marker := by
  have short : ∀ marker ∈ [cMarkers.single, cMarkers.multiBegin, cMarkers.multiEnd],
      marker.chars.length < 2 ^ 31 := by decide
  exact fun marker member => readWhole_of_short (short marker member) code

/-- A quotation mark in a comment, an escaped one and a comment mark in a string, and a
string that does not end. -/
theorem stripsComments_example : StripsComments cMarkers
    [97, 47, 47, 34, 10, 34, 99, 92, 34, 47, 47, 100, 34, 47, 42, 101, 42, 47, 39, 10] :=
  (stripsComments_of_harmless (by decide) (readWhole_cMarkers _)).2 (by decide)

/-- A string that ends with an escaped backslash and has a comment behind it, and a block
comment whose begin looks like an end. -/
theorem not_stripsComments : ¬ StripsComments cMarkers [34, 97, 92, 92, 34, 47, 47, 99] ∧
    ¬ StripsComments cMarkers [47, 42, 47, 120, 42, 47] := by
  constructor
  · intro strips
    have kept : Returns (minifyStep (cMarkers.args [34, 97, 92, 92, 34, 47, 47, 99]))
        (scanned [] .code none []) [34, 97, 92, 92, 34, 47, 47, 99] := ⟨9, by decide +kernel⟩
    exact absurd (kept.unique strips) (by decide)
  · intro strips
    have kept : Returns (minifyStep (cMarkers.args [47, 42, 47, 120, 42, 47]))
        (scanned [] .code none []) [120, 42, 47] := ⟨7, by decide +kernel⟩
    exact absurd (kept.unique strips) (by decide)

end Tegenaria.LibStr
