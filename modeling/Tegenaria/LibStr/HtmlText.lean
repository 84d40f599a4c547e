import Mathlib.Data.List.Destutter
import Tegenaria.LibStr.MaskEmail

/-!
# Text as HTML

`StrEncodeToHtml` writes angle brackets as entities and a run of line breaks as one `<br/>`.  An
ampersand stays as it is, so a text that looks like an entity is shown as what the entity stands
for.

Markup is read as XHTML is, where a reference ends with a semicolon.
-/

namespace Tegenaria.LibStr

namespace HtmlText

def lineFeed : UInt8 := 10

def carriageReturn : UInt8 := 13

def space : UInt8 := 32

def ampersand : UInt8 := 38

def semicolon : UInt8 := 59

def less : UInt8 := 60

def greater : UInt8 := 62

def isBreak (letter : UInt8) : Bool := letter == carriageReturn || letter == lineFeed

/-- `<br/>` -/
def breakTag : Chars := [60, 98, 114, 47, 62]

/-- `STR_HTML_NON_BREAK_SPACES` -/
def nonBreakSpaces : UInt32 := 1

/-- What the switch appends for a character behind another one: `&lt;`, `&gt;`, `&nbsp;`, a line
break or the character itself. -/
def encoded (flags : UInt32) (last letter : UInt8) : Chars :=
  if isBreak letter then if isBreak last then [] else breakTag
  else if letter = less then [38, 108, 116, 59]
  else if letter = greater then [38, 103, 116, 59]
  else if letter = space then
    if flags &&& nonBreakSpaces ≠ 0 then [38, 110, 98, 115, 112, 59] else [space]
  else [letter]

/-- The loop over the text behind a character. -/
@[grind =] def encodeFrom (flags : UInt32) : UInt8 → Chars → Chars
  | _, [] => []
  | last, letter :: rest => encoded flags last letter ++ encodeFrom flags letter rest

end HtmlText

/-- `StrEncodeToHtml` -/
def strEncodeToHtml (str : Chars) (flags : UInt32) : Chars := HtmlText.encodeFrom flags 0 str

namespace HtmlText

/-! ## Reading markup -/

/-- The names of entities and the texts they stand for.  None of them stands for a whole
reference, with an ampersand and a semicolon. -/
structure Entities where
  text : Chars → Option Chars
  lt : text [108, 116] = some [less]
  gt : text [103, 116] = some [greater]
  nbsp : text [110, 98, 115, 112] = some [space]
  short : ∀ name shown, text name = some shown →
    (shown.filter fun letter => letter == ampersand || letter == semicolon).length ≤ 1

/-- The letters, the digits and `#`. -/
def isName (letter : UInt8) : Bool := MaskEmail.isAlnum letter || letter == 35

/-- The reference behind an ampersand: its text, and its length with the semicolon. -/
def reference (entities : Entities) (rest : Chars) : Option (Chars × Nat) :=
  let name := rest.takeWhile isName
  if rest[name.length]? = some semicolon then
    (entities.text name).map fun shown => (shown, name.length + 1)
  else none

inductive Piece where
  | tag (body : Chars)
  | letter (letter : UInt8)
  deriving DecidableEq

/-- The tags and the letters of markup behind some characters that are read already. -/
@[grind =] def readFrom (entities : Entities) : Nat → Chars → List Piece
  | _, [] => []
  | done + 1, _ :: rest => readFrom entities done rest
  | 0, letter :: rest =>
      if letter = less then
        .tag (rest.takeWhile (· ≠ greater)) ::
          readFrom entities ((rest.takeWhile (· ≠ greater)).length + 1) rest
      else if letter = ampersand then
        match reference entities rest with
        | some (shown, length) => shown.map Piece.letter ++ readFrom entities length rest
        | none => .letter letter :: readFrom entities 0 rest
      else .letter letter :: readFrom entities 0 rest

def readMarkup (entities : Entities) (markup : Chars) : List Piece := readFrom entities 0 markup

/-- The body of the tag `<br/>`. -/
def breakBody : Chars := [98, 114, 47]

/-- What a reader sees: `<br/>` is a line break. -/
def Piece.render : Piece → Chars
  | .tag body => if body = breakBody then [lineFeed] else []
  | .letter shown => [shown]

def render (pieces : List Piece) : Chars := pieces.flatMap Piece.render

/-- Each run of line breaks is one line break. -/
def mergeBreaks (text : Chars) : Chars :=
  (text.map fun letter => if isBreak letter then lineFeed else letter).destutter
    fun first second => ¬ (first = lineFeed ∧ second = lineFeed)

/-- The markup has no tags but `<br/>`, and it shows the text. -/
structure Faithful (entities : Entities) (flags : UInt32) (text : Chars) : Prop where
  tags : ∀ body, .tag body ∈ readMarkup entities (strEncodeToHtml text flags) → body = breakBody
  shows : render (readMarkup entities (strEncodeToHtml text flags)) = mergeBreaks text

/-- No part of the text looks like the reference to an entity. -/
def NoReference (entities : Entities) (text : Chars) : Prop :=
  ∀ front name back, text = front ++ ampersand :: (name ++ semicolon :: back) →
    name.all isName = true → entities.text name = none

/-! ## References -/

section References

variable {entities : Entities} {flags : UInt32}

theorem takeWhile_name {name back : Chars} (letters : name.all isName = true) :
    (name ++ semicolon :: back).takeWhile isName = name := by
  have ends : isName semicolon = false := by decide
  rw [List.takeWhile_append_of_pos (List.all_eq_true.mp letters),
    List.takeWhile_cons_of_neg (by simp [ends]),
    List.append_nil]

theorem reference_eq_some_iff {rest shown : Chars} {length : Nat} :
    reference entities rest = some (shown, length) ↔
      ∃ name back, rest = name ++ semicolon :: back ∧ name.all isName = true ∧
        entities.text name = some shown ∧ length = name.length + 1 := by
  constructor
  · intro found
    unfold reference at found
    obtain ⟨ends, found⟩ := Option.ite_none_right_eq_some.mp found
    obtain ⟨text, there, same⟩ := Option.map_eq_some_iff.mp found
    cases same
    have whole := List.takeWhile_append_dropWhile (p := isName) (l := rest)
    rw [← whole, List.getElem?_append_right (by rw [whole]), whole, Nat.sub_self] at ends
    obtain ⟨head, back, cut⟩ : ∃ head back, rest.dropWhile isName = head :: back := by
      apply List.exists_cons_of_ne_nil
      intro empty
      rw [empty] at ends
      cases ends
    rw [cut] at ends whole
    obtain rfl : head = semicolon := Option.some.inj ends
    refine ⟨rest.takeWhile isName, back, whole.symm, ?_, there, rfl⟩
    exact List.all_eq_true.mpr fun letter mem => List.mem_takeWhile_imp mem
  · rintro ⟨name, back, rfl, letters, there, rfl⟩
    rw [reference, takeWhile_name letters, if_pos, there]
    · rfl
    · rw [List.getElem?_append_right le_rfl, Nat.sub_self]
      rfl

/-- The text has no reference when nothing is read behind any of its ampersands. -/
theorem noReference_iff {text : Chars} : NoReference entities text ↔
    ∀ front rest, text = front ++ ampersand :: rest → reference entities rest = none := by
  constructor
  · intro absent front rest cut
    by_contra found
    obtain ⟨⟨shown, length⟩, found⟩ := Option.ne_none_iff_exists'.mp found
    obtain ⟨name, back, rfl, letters, there, -⟩ := Iff.mp reference_eq_some_iff found
    cases there.symm.trans (absent front name back cut letters)
  · intro silent front name back cut letters
    by_contra found
    obtain ⟨shown, there⟩ := Option.ne_none_iff_exists'.mp found
    have read := Iff.mpr reference_eq_some_iff ⟨name, back, rfl, letters, there, rfl⟩
    cases read.symm.trans (silent front _ cut)

theorem encoded_of_name {letter : UInt8} (named : isName letter = true ∨ letter = semicolon)
    (last : UInt8) :
    encoded flags last letter = [letter] := by
  have all : ∀ letter, isName letter = true ∨ letter = semicolon →
      isBreak letter = false ∧ letter ≠ less ∧ letter ≠ greater ∧ letter ≠ space := by
    intro letter named
    rcases named with name | rfl
    · refine ⟨?_, ?_, ?_, ?_⟩
      · by_contra ends
        rw [Bool.not_eq_false, isBreak, Bool.or_eq_true, beq_iff_eq, beq_iff_eq] at ends
        rcases ends with rfl | rfl <;> exact absurd name (by decide)
      all_goals
        rintro rfl
        exact absurd name (by decide)
    · decide
  obtain ⟨plain, different, other, visible⟩ := all letter named
  rw [encoded, plain, if_neg Bool.false_ne_true, if_neg different, if_neg other, if_neg visible]

/-- A character that ends a name is written as text that ends a name. -/
theorem encoded_of_not_name (flags : UInt32) {last letter : UInt8} (inside : isBreak last = false)
    (other : isName letter = false) : ∃ head tail, encoded flags last letter = head :: tail ∧
      isName head = false ∧ (head = semicolon ↔ letter = semicolon) := by
  unfold encoded
  split
  · rename_i ends
    rw [if_neg (by rw [inside]; exact Bool.false_ne_true)]
    refine ⟨less, _, rfl, by decide, iff_of_false (by decide) ?_⟩
    rintro rfl
    exact absurd ends (by decide)
  · split
    · rename_i opens
      exact ⟨ampersand, _, rfl, by decide, iff_of_false (by decide) (by rw [opens]; decide)⟩
    · split
      · rename_i closes
        exact ⟨ampersand, _, rfl, by decide, iff_of_false (by decide) (by rw [closes]; decide)⟩
      · split
        · rename_i blank
          split
          · exact ⟨ampersand, _, rfl, by decide, iff_of_false (by decide) (by rw [blank]; decide)⟩
          · exact ⟨space, [], rfl, by decide, iff_of_false (by decide) (by rw [blank]; decide)⟩
        · exact ⟨letter, [], rfl, other, Iff.rfl⟩

theorem isBreak_of_name {letter : UInt8} (named : isName letter = true) : isBreak letter = false := by
  by_contra ends
  rw [Bool.not_eq_false, isBreak, Bool.or_eq_true, beq_iff_eq, beq_iff_eq] at ends
  rcases ends with rfl | rfl <;> exact absurd named (by decide)

theorem takeWhile_encodeFrom (flags : UInt32) {last : UInt8} (inside : isBreak last = false)
    (text : Chars) :
    (encodeFrom flags last text).takeWhile isName = text.takeWhile isName ∧
      ((encodeFrom flags last text)[(text.takeWhile isName).length]? = some semicolon ↔
        text[(text.takeWhile isName).length]? = some semicolon) := by
  induction text generalizing last with
  | nil => exact ⟨rfl, Iff.rfl⟩
  | cons letter rest ih =>
      rw [encodeFrom]
      cases named : isName letter with
      | true =>
          rw [encoded_of_name (.inl named), List.singleton_append, List.takeWhile_cons_of_pos named,
            List.takeWhile_cons_of_pos named]
          obtain ⟨same, ends⟩ := ih (isBreak_of_name named)
          exact ⟨by rw [same], ends⟩
      | false =>
          obtain ⟨head, tail, written, other, same⟩ := encoded_of_not_name flags inside named
          have plain : ¬ isName letter = true := by rw [named]; exact Bool.false_ne_true
          have stays : ¬ isName head = true := by rw [other]; exact Bool.false_ne_true
          rw [written, List.cons_append, List.takeWhile_cons_of_neg plain, List.takeWhile_cons_of_neg stays]
          exact ⟨rfl, by simp only [List.length_nil, List.getElem?_cons_zero, Option.some.injEq, same]⟩

/-- Writing a text does not change what is read behind an ampersand. -/
theorem reference_encodeFrom {last : UInt8} (inside : isBreak last = false) (text : Chars) :
    reference entities (encodeFrom flags last text) = reference entities text := by
  obtain ⟨same, ends⟩ := takeWhile_encodeFrom flags inside text
  simp only [reference, same, ends]

/-! ## What is read -/

/-- The pieces that are read of a text, behind some characters of it that are read already. -/
@[grind =] def piecesFrom (entities : Entities) : Nat → UInt8 → Chars → List Piece
  | _, _, [] => []
  | done + 1, _, letter :: rest => piecesFrom entities done letter rest
  | 0, last, letter :: rest =>
      if isBreak letter then
        (if isBreak last then [] else [.tag breakBody]) ++ piecesFrom entities 0 letter rest
      else if letter = ampersand then
        match reference entities rest with
        | some (shown, length) => shown.map Piece.letter ++ piecesFrom entities length letter rest
        | none => .letter letter :: piecesFrom entities 0 letter rest
      else .letter letter :: piecesFrom entities 0 letter rest

theorem readFrom_drop (entities : Entities) (done : Nat) (front rest : Chars)
    (whole : front.length = done) :
    readFrom entities done (front ++ rest) = readFrom entities 0 rest := by
  induction front generalizing done with
  | nil =>
      subst whole
      rfl
  | cons letter front ih =>
      subst whole
      exact ih front.length rfl

theorem readFrom_reference (name : Chars) {shown : Chars} (letters : name.all isName = true)
    (there : entities.text name = some shown) (rest : Chars) :
    readFrom entities 0 (ampersand :: (name ++ semicolon :: rest)) =
      shown.map Piece.letter ++ readFrom entities 0 rest := by
  have read : reference entities (name ++ semicolon :: rest) = some (shown, name.length + 1) :=
    Iff.mpr reference_eq_some_iff ⟨name, rest, rfl, letters, there, rfl⟩
  have cut : name ++ semicolon :: rest = (name ++ [semicolon]) ++ rest := by simp
  have skipped := readFrom_drop entities (name.length + 1) (name ++ [semicolon]) rest (by simp)
  rw [readFrom, if_neg (by decide), if_pos rfl, read]
  rw [← cut] at skipped
  simp only [skipped]

theorem readFrom_breakTag (rest : Chars) :
    readFrom entities 0 (breakTag ++ rest) = .tag breakBody :: readFrom entities 0 rest := by
  rfl

/-- Reading what the encoder writes. -/
theorem readFrom_encodeFrom {done : Nat} {text : Chars}
    (passed : ∀ letter ∈ text.take done, isName letter = true ∨ letter = semicolon) (last : UInt8) :
    readFrom entities done (encodeFrom flags last text) = piecesFrom entities done last text := by
  induction text generalizing done last with
  | nil => cases done <;> rfl
  | cons letter rest ih =>
      have further : ∀ letter ∈ rest.take 0, isName letter = true ∨ letter = semicolon := by simp
      cases done with
      | succ done =>
          rw [encodeFrom, encoded_of_name (passed letter (by simp))]
          exact ih (fun other mem => passed other (List.mem_cons_of_mem _ mem)) letter
      | zero =>
          rw [encodeFrom, piecesFrom, encoded]
          by_cases ends : isBreak letter
          · rw [if_pos ends, if_pos ends]
            split
            · exact ih further letter
            · rw [readFrom_breakTag, ih further letter]
              rfl
          · rw [if_neg ends, if_neg ends]
            by_cases opens : letter = less
            · subst opens
              rw [if_pos rfl, if_neg (by decide), ← ih further less]
              exact readFrom_reference [108, 116] (by decide) entities.lt _
            · rw [if_neg opens]
              by_cases closes : letter = greater
              · subst closes
                rw [if_pos rfl, if_neg (by decide), ← ih further greater]
                exact readFrom_reference [103, 116] (by decide) entities.gt _
              · rw [if_neg closes]
                by_cases blank : letter = space
                · subst blank
                  have plain : ¬ space = ampersand := by decide
                  rw [if_pos rfl, if_neg plain, ← ih further space]
                  split
                  · exact readFrom_reference [110, 98, 115, 112] (by decide) entities.nbsp _
                  · rfl
                · rw [if_neg blank, List.singleton_append, readFrom, if_neg opens]
                  by_cases refers : letter = ampersand
                  · subst refers
                    rw [if_pos rfl, if_pos rfl, reference_encodeFrom (by decide)]
                    cases found : reference entities rest with
                    | none => simp only [ih further ampersand]
                    | some entity =>
                        obtain ⟨shown, length⟩ := entity
                        obtain ⟨name, back, rfl, letters, -, rfl⟩ := Iff.mp reference_eq_some_iff found
                        have inside : ∀ letter ∈ (name ++ semicolon :: back).take (name.length + 1),
                            isName letter = true ∨ letter = semicolon := by
                          intro letter mem
                          rw [List.take_length_add_append, List.mem_append] at mem
                          rcases mem with mem | mem
                          · exact .inl (List.all_eq_true.mp letters letter mem)
                          · exact .inr (by simpa using mem)
                        simp only [ih inside ampersand]
                  · rw [if_neg refers, if_neg refers, ih further letter]

theorem readMarkup_strEncodeToHtml (text : Chars) :
    readMarkup entities (strEncodeToHtml text flags) = piecesFrom entities 0 0 text :=
  readFrom_encodeFrom (by simp) 0

theorem piecesFrom_tags {done : Nat} {last : UInt8} {text body : Chars}
    (mem : .tag body ∈ piecesFrom entities done last text) : body = breakBody := by
  fun_induction piecesFrom entities done last text with
  | case1 => cases mem
  | case2 last letter rest done ih => exact ih mem
  | case3 last letter rest ends ih =>
      rcases List.mem_append.mp mem with mem | mem
      · split at mem
        · cases mem
        · exact Piece.tag.inj (List.mem_singleton.mp mem)
      · exact ih mem
  | case4 last rest shown length found plain ih =>
      rcases List.mem_append.mp mem with mem | mem
      · simp at mem
      · exact ih mem
  | case5 last rest found plain ih => exact ih ((List.mem_cons.mp mem).resolve_left (by simp))
  | case6 last letter rest plain other ih => exact ih ((List.mem_cons.mp mem).resolve_left (by simp))

end References

/-! ## Line breaks -/

section Breaks

variable {entities : Entities}

/-- The text behind a character, with each run of line breaks as one. -/
@[grind =] def mergedFrom : UInt8 → Chars → Chars
  | _, [] => []
  | last, letter :: rest =>
      if isBreak letter then (if isBreak last then [] else [lineFeed]) ++ mergedFrom letter rest
      else letter :: mergedFrom letter rest

def shownLetter (letter : UInt8) : UInt8 := if isBreak letter then lineFeed else letter

theorem shownLetter_eq_lineFeed {letter : UInt8} :
    shownLetter letter = lineFeed ↔ isBreak letter = true := by
  unfold shownLetter
  split
  · rename_i ends
    exact iff_of_true rfl ends
  · rename_i plain
    refine iff_of_false ?_ plain
    rintro rfl
    exact plain rfl

theorem destutter'_shownLetter (last : UInt8) (rest : Chars) :
    (rest.map shownLetter).destutter' (fun first second => ¬ (first = lineFeed ∧ second = lineFeed))
        (shownLetter last) = shownLetter last :: mergedFrom last rest := by
  induction rest generalizing last with
  | nil => rfl
  | cons letter rest ih =>
      rw [List.map_cons, List.destutter', mergedFrom]
      simp only [shownLetter_eq_lineFeed]
      by_cases ends : isBreak letter
      · rw [if_pos ends]
        have feed : shownLetter letter = lineFeed := shownLetter_eq_lineFeed.mpr ends
        by_cases before : isBreak last
        · have same : shownLetter last = shownLetter letter := by
            rw [feed, shownLetter_eq_lineFeed.mpr before]
          rw [if_neg (not_not_intro ⟨before, ends⟩), if_pos before, same]
          exact ih letter
        · rw [if_pos (fun both => before both.1), if_neg before, ih letter, feed]
          rfl
      · have same : shownLetter letter = letter := if_neg ends
        rw [if_pos (fun both => ends both.2), if_neg ends, ih letter, same]

theorem mergeBreaks_eq (text : Chars) : mergeBreaks text = mergedFrom 0 text := by
  cases text with
  | nil => rfl
  | cons letter rest =>
      refine (destutter'_shownLetter letter rest).trans ?_
      rw [mergedFrom, shownLetter, if_neg (show ¬ isBreak 0 = true by decide)]
      split <;> rfl

theorem render_append (front back : List Piece) : render (front ++ back) = render front ++ render back :=
  List.flatMap_append

theorem render_letters (shown : Chars) : render (shown.map Piece.letter) = shown := by
  induction shown with
  | nil => rfl
  | cons letter shown ih => exact congrArg (letter :: ·) ih

/-- A text without references is shown as it is. -/
theorem render_piecesFrom {text : Chars}
    (silent : ∀ front rest, text = front ++ ampersand :: rest → reference entities rest = none)
    (last : UInt8) : render (piecesFrom entities 0 last text) = mergedFrom last text := by
  induction text generalizing last with
  | nil => rfl
  | cons letter rest ih =>
      have shown := ih (fun front back cut =>
        silent (letter :: front) back (congrArg (letter :: ·) cut)) letter
      rw [piecesFrom, mergedFrom]
      by_cases ends : isBreak letter
      · rw [if_pos ends, if_pos ends, render_append, shown]
        split <;> rfl
      · rw [if_neg ends, if_neg ends]
        split
        · rename_i refers
          subst refers
          simp only [silent [] rest rfl]
          exact congrArg (ampersand :: ·) shown
        · exact congrArg (letter :: ·) shown

end Breaks

/-! ## Counting the marks of references -/

section Marks

variable {entities : Entities}

/-- The ampersands and the semicolons of a text. -/
def marks (text : Chars) : Nat :=
  (text.filter fun letter => letter == ampersand || letter == semicolon).length

theorem marks_append (front back : Chars) : marks (front ++ back) = marks front + marks back := by
  rw [marks, List.filter_append, List.length_append]
  rfl

theorem marks_cons (letter : UInt8) (rest : Chars) : marks (letter :: rest) = marks [letter] + marks rest :=
  marks_append [letter] rest

theorem marks_of_isBreak {letter : UInt8} (ends : isBreak letter = true) : marks [letter] = 0 := by
  rw [isBreak, Bool.or_eq_true, beq_iff_eq, beq_iff_eq] at ends
  rcases ends with rfl | rfl <;> rfl

theorem marks_mergedFrom (last : UInt8) (text : Chars) : marks (mergedFrom last text) = marks text := by
  induction text generalizing last with
  | nil => rfl
  | cons letter rest ih =>
      rw [mergedFrom, marks_cons letter rest]
      split
      · rename_i ends
        rw [marks_append, ih, marks_of_isBreak ends]
        split <;> rfl
      · rw [marks_cons, ih]

/-- Reading a reference takes two marks away, and gives at most one back. -/
theorem marks_reference {rest shown : Chars} {length : Nat}
    (found : reference entities rest = some (shown, length)) :
    marks shown + marks (rest.drop length) < marks (ampersand :: rest) := by
  obtain ⟨name, back, rfl, -, there, rfl⟩ := Iff.mp reference_eq_some_iff found
  have few : marks shown ≤ 1 := entities.short name shown there
  have cut : (name ++ semicolon :: back).drop (name.length + 1) = back := by
    rw [List.drop_length_add_append]
    rfl
  have first : marks [ampersand] = 1 := rfl
  have second : marks [semicolon] = 1 := rfl
  rw [cut, marks_cons, marks_append, marks_cons semicolon back]
  omega

theorem marks_piecesFrom (entities : Entities) (done : Nat) (last : UInt8) (text : Chars) :
    marks (render (piecesFrom entities done last text)) ≤ marks (text.drop done) := by
  fun_induction piecesFrom entities done last text with
  | case1 => exact Nat.zero_le _
  | case2 last letter rest done ih => exact ih
  | case3 last letter rest ends ih =>
      rw [render_append, marks_append, List.drop_zero, marks_cons letter rest, marks_of_isBreak ends]
      have none : marks (render (if isBreak last = true then [] else [.tag breakBody])) = 0 := by
        split <;> rfl
      rw [none]
      exact Nat.add_le_add_left ih 0
  | case4 last rest shown length found plain ih =>
      rw [render_append, marks_append, render_letters, List.drop_zero]
      exact (Nat.add_le_add_left ih _).trans (marks_reference found).le
  | case5 last rest found plain ih =>
      rw [List.drop_zero, marks_cons ampersand rest]
      exact (marks_cons _ _).trans_le (Nat.add_le_add_left ih _)
  | case6 last letter rest plain other ih =>
      rw [List.drop_zero, marks_cons letter rest]
      exact (marks_cons _ _).trans_le (Nat.add_le_add_left ih _)

/-- When all marks of a text are shown, it has no references. -/
theorem reference_eq_none {done : Nat} {last : UInt8} {text : Chars}
    (kept : marks (text.drop done) ≤ marks (render (piecesFrom entities done last text))) :
    ∀ front rest, text.drop done = front ++ ampersand :: rest → reference entities rest = none := by
  fun_induction piecesFrom entities done last text with
  | case1 =>
      intro front rest cut
      simp at cut
  | case2 last letter rest done ih => exact ih kept
  | case3 last letter rest ends ih =>
      have none : marks (render (if isBreak last = true then [] else [.tag breakBody])) = 0 := by
        split <;> rfl
      rw [render_append, marks_append, List.drop_zero, marks_cons letter rest, marks_of_isBreak ends, none,
        Nat.zero_add, Nat.zero_add] at kept
      intro front back cut
      cases front with
      | nil =>
          obtain ⟨rfl, -⟩ := List.cons.inj cut
          exact absurd ends (by decide)
      | cons first front => exact ih kept front back (List.cons.inj cut).2
  | case4 last rest shown length found plain ih =>
      rw [render_append, marks_append, render_letters, List.drop_zero] at kept
      have fewer := marks_reference found
      have rest := marks_piecesFrom entities length ampersand rest
      omega
  | case5 last rest found plain ih =>
      intro front back cut
      cases front with
      | nil =>
          obtain ⟨-, rfl⟩ := List.cons.inj cut
          exact found
      | cons first front =>
          refine ih ?_ front back (List.cons.inj cut).2
          rw [List.drop_zero, marks_cons ampersand rest] at kept
          exact Nat.le_of_add_le_add_left (kept.trans_eq (marks_cons _ _))
  | case6 last letter rest plain other ih =>
      intro front back cut
      cases front with
      | nil =>
          obtain ⟨rfl, -⟩ := List.cons.inj cut
          exact absurd rfl other
      | cons first front =>
          refine ih ?_ front back (List.cons.inj cut).2
          rw [List.drop_zero, marks_cons letter rest] at kept
          exact Nat.le_of_add_le_add_left (kept.trans_eq (marks_cons _ _))

end Marks

/-- The entities of markup, and an ampersand. -/
def basicEntities : Entities where
  text name :=
    if name = [108, 116] then some [less]
    else if name = [103, 116] then some [greater]
    else if name = [110, 98, 115, 112] then some [space]
    else if name = [97, 109, 112] then some [ampersand]
    else none
  lt := rfl
  gt := rfl
  nbsp := rfl
  short name shown there := by
    split at there
    · cases there
      decide
    · split at there
      · cases there
        decide
      · split at there
        · cases there
          decide
        · split at there
          · cases there
            decide
          · cases there

end HtmlText

open HtmlText in
/-- The markup shows a text as written exactly when no part of it looks like the reference to an
entity: a `switch` without a case for `&` leaves it as it is. -/
theorem strEncodeToHtml_faithful_iff (entities : Entities) (flags : UInt32) (text : Chars) :
    Faithful entities flags text ↔ NoReference entities text := by
  rw [noReference_iff]
  constructor
  · intro faithful
    have shows := faithful.shows
    rw [readMarkup_strEncodeToHtml, mergeBreaks_eq] at shows
    have kept : marks (text.drop 0) ≤ marks (render (piecesFrom entities 0 0 text)) := by
      rw [shows, marks_mergedFrom, List.drop_zero]
    exact reference_eq_none kept
  · intro silent
    refine ⟨fun body mem => ?_, ?_⟩
    · rw [readMarkup_strEncodeToHtml] at mem
      exact piecesFrom_tags mem
    · rw [readMarkup_strEncodeToHtml, mergeBreaks_eq]
      exact render_piecesFrom silent 0

open HtmlText in
/-- The text `&lt;` is shown as an angle bracket. -/
theorem strEncodeToHtml_shows_less :
    ¬ ∀ (entities : Entities) (flags : UInt32) (text : Chars), Faithful entities flags text := by
  intro faithful
  have shows := (faithful basicEntities 0 [38, 108, 116, 59]).shows
  exact absurd shows (by decide)

end Tegenaria.LibStr
