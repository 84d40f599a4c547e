import Tegenaria.QCBuild.SourceFile

/-!
# The lines of a source file

A `qcbuild.src` file is made of blank lines, comments, section tags and assignments.  The
module says how such lines are written, with any white space around their parts and any of
the two line ends, and that the loop of `loadFromFile` takes exactly these lines out of the
buffer, one after the other.
-/

namespace Tegenaria.QCBuild

open LibStr

/-- The text can stand in a line of a file. -/
def InLine (text : Text) : Prop := ∀ letter ∈ text, letter ≠ '\x00' ∧ isEol letter = false

/-- White space in a line. -/
structure Blanks where
  text : Text
  inLine : InLine text
  blank : ∀ letter ∈ text, isSpace letter

/-- The name of a machine in a section tag, with white space before it. -/
structure SectionName where
  before : Blanks
  name : Text
  inLine : InLine name
  trimmed : trim name = name
  nonempty : name ≠ []
  noComma : ',' ∉ name

/-- A section tag.  Every further name has white space between the name before it and the
comma. -/
structure SectionLine where
  separator : Blanks
  single : separator.text.length = 1
  first : SectionName
  others : List (Blanks × SectionName)

inductive Operator where
  | assign
  | append
  deriving DecidableEq

def Operator.text : Operator → Text
  | .assign => ['=']
  | .append => ['+', '=']

/-- A line with an operator. -/
structure Assignment where
  lvalue : Text
  gap : Blanks
  operator : Operator
  gapAfter : Blanks
  rvalue : Text
  lvalueInLine : InLine lvalue
  lvalueTrimmed : trim lvalue = lvalue
  lvalueNonempty : lvalue ≠ []
  noOperator : '=' ∉ lvalue
  notSpecial : ∀ letter ∈ lvalue.head?, letter ≠ '#' ∧ letter ≠ '.'
  notPlus : operator = .assign → '+' ∉ (lvalue ++ gap.text).getLast?
  rvalueInLine : InLine rvalue
  rvalueTrimmed : trim rvalue = rvalue
  gapNeeded : rvalue = [] → gapAfter.text = []

/-- What stands in a line that is not blank. -/
inductive Content where
  | comment (text : Text) (inLine : InLine text) (trimmed : text.rdropWhile isSpace = text)
  | openSection (line : SectionLine)
  | endSection
  | assignment (line : Assignment)

inductive Line where
  | blank (spaces : Blanks)
  | content (indent : Blanks) (content : Content) (trail : Blanks)

inductive Eol where
  | lf
  | crlf

def Eol.text : Eol → Text
  | .lf => ['\n']
  | .crlf => ['\r', '\n']

/-- A file: lines that are ended, and what follows the last line end. -/
structure Document where
  lines : List (Line × Eol)
  last : Line

/-! ## How lines are written -/

def renderNames : SectionName → List (Blanks × SectionName) → Text
  | first, [] => first.before.text ++ first.name
  | first, (after, next) :: others =>
      first.before.text ++ first.name ++ after.text ++ ',' :: renderNames next others

def SectionLine.names (line : SectionLine) : List Text :=
  line.first.name :: line.others.map fun other => other.2.name

def Assignment.text (line : Assignment) : Text :=
  line.lvalue ++ line.gap.text ++ line.operator.text ++ line.gapAfter.text ++ line.rvalue

def Content.text : Content → Text
  | .comment text _ _ => '#' :: text
  | .openSection line => Reader.sectionTag ++ line.separator.text ++ renderNames line.first line.others
  | .endSection => Reader.endSectionTag
  | .assignment line => line.text

def Line.text : Line → Text
  | .blank spaces => spaces.text
  | .content indent inner trail => indent.text ++ inner.text ++ trail.text

def Document.text (document : Document) : Text :=
  document.lines.flatMap (fun line => line.1.text ++ line.2.text) ++ document.last.text

def Line.contents : Line → List Content
  | .blank _ => []
  | .content _ inner _ => [inner]

def Document.contents (document : Document) : List Content :=
  document.lines.flatMap (·.1.contents) ++ document.last.contents

/-! ## Trimmed texts -/

theorem InLine.append {first second : Text} (firstInLine : InLine first) (secondInLine : InLine second) :
    InLine (first ++ second) := by
  intro letter member
  exact (List.mem_append.mp member).elim (firstInLine letter) (secondInLine letter)

theorem rdropWhile_append (keep : Char → Bool) (first second : Text) :
    (first ++ second).rdropWhile keep =
      if second.rdropWhile keep = [] then first.rdropWhile keep
      else first ++ second.rdropWhile keep := by
  simp only [List.rdropWhile, List.reverse_append, List.dropWhile_append, List.isEmpty_iff,
    List.reverse_eq_nil_iff]
  split
  · rfl
  · rw [List.reverse_append, List.reverse_reverse]

/-- A text that begins and ends with visible letters. -/
structure Visible (text : Text) : Prop where
  nonempty : text ≠ []
  start : text.dropWhile isSpace = text
  stop : text.rdropWhile isSpace = text

theorem Visible.of_trimmed {text : Text} (nonempty : text ≠ []) (trimmed : trim text = text) :
    Visible text where
  nonempty
  start := dropWhile_of_trimmed trimmed
  stop := by
    have start := dropWhile_of_trimmed trimmed
    rwa [trim, start] at trimmed

theorem dropWhile_append_of_start {first : Text} (keep : Char → Bool) (nonempty : first ≠ [])
    (start : first.dropWhile keep = first) (second : Text) :
    (first ++ second).dropWhile keep = first ++ second := by
  rw [List.dropWhile_append, start, if_neg (by simpa using nonempty)]

theorem Visible.append {first middle second : Text} (firstVisible : Visible first)
    (secondVisible : Visible second) : Visible (first ++ middle ++ second) where
  nonempty := by simp [firstVisible.nonempty]
  start := by
    rw [List.append_assoc]
    exact dropWhile_append_of_start isSpace firstVisible.nonempty firstVisible.start _
  stop := by
    rw [rdropWhile_append, secondVisible.stop, if_neg secondVisible.nonempty]

/-- White space behind a visible text is all that trimming takes away. -/
theorem Visible.trim_append {text : Text} (visible : Visible text) (rest : Text) :
    trim (text ++ rest) = text ++ rest.rdropWhile isSpace := by
  rw [trim, dropWhile_append_of_start isSpace visible.nonempty visible.start, rdropWhile_append,
    visible.stop]
  split
  · next nothing => rw [nothing, List.append_nil]
  · rfl

theorem trim_append_spaces {spaces : Text} (blank : ∀ letter ∈ spaces, isSpace letter) (text : Text) :
    trim (text ++ spaces) = trim text := by
  rw [trim, trim, List.dropWhile_append]
  split
  · next nothing =>
      rw [List.isEmpty_iff.mp nothing, List.dropWhile_eq_nil_iff.mpr blank]
  · rw [rdropWhile_spaces blank]

theorem SectionName.visible (machine : SectionName) : Visible machine.name :=
  .of_trimmed machine.nonempty machine.trimmed

theorem renderNames_inLine (first : SectionName) (others : List (Blanks × SectionName)) :
    InLine (renderNames first others) := by
  induction others generalizing first with
  | nil => exact first.before.inLine.append first.inLine
  | cons other others ih =>
      have comma : InLine [','] := by simp [InLine, isEol]
      exact ((first.before.inLine.append first.inLine).append other.1.inLine).append
        (comma.append (ih other.2))

/-- The list of names ends with a visible letter. -/
theorem renderNames_stop (first : SectionName) (others : List (Blanks × SectionName)) :
    renderNames first others ≠ [] ∧
      (renderNames first others).rdropWhile isSpace = renderNames first others := by
  induction others generalizing first with
  | nil =>
      rw [renderNames, rdropWhile_append, first.visible.stop, if_neg first.nonempty]
      exact ⟨by simp [first.nonempty], rfl⟩
  | cons other others ih =>
      obtain ⟨nonempty, stop⟩ := ih other.2
      have tail : (',' :: renderNames other.2 others).rdropWhile isSpace =
          ',' :: renderNames other.2 others := by
        rw [← List.singleton_append, rdropWhile_append, stop, if_neg nonempty]
      rw [renderNames, rdropWhile_append, tail, if_neg (List.cons_ne_nil _ _)]
      exact ⟨by simp, rfl⟩

theorem Operator.visible (operator : Operator) : Visible operator.text := by
  cases operator with
  | assign => exact ⟨by decide, by decide, by decide⟩
  | append => exact ⟨by decide, by decide, by decide⟩

theorem Operator.inLine (operator : Operator) : InLine operator.text := by
  cases operator with
  | assign => simp [Operator.text, InLine, isEol]
  | append => simp [Operator.text, InLine, isEol]

theorem Assignment.visible (line : Assignment) : Visible line.text := by
  have lvalue : Visible line.lvalue := .of_trimmed line.lvalueNonempty line.lvalueTrimmed
  have operator := line.operator.visible
  rw [Assignment.text]
  by_cases nothing : line.rvalue = []
  · rw [nothing, line.gapNeeded nothing, List.append_nil, List.append_nil]
    exact lvalue.append operator
  · exact (lvalue.append operator).append (.of_trimmed nothing line.rvalueTrimmed)

theorem Content.visible (content : Content) : Visible content.text := by
  cases content with
  | comment text inLine trimmed =>
      refine ⟨List.cons_ne_nil _ _, List.dropWhile_cons_of_neg (by decide), ?_⟩
      rw [Content.text, ← List.singleton_append, rdropWhile_append, trimmed]
      split
      · next nothing => rw [nothing]; decide
      · rfl
  | openSection line =>
      have tag : Visible Reader.sectionTag := ⟨by decide, by decide, by decide⟩
      obtain ⟨nonempty, stop⟩ := renderNames_stop line.first line.others
      refine ⟨by simp [Content.text, tag.nonempty], ?_, ?_⟩
      · rw [Content.text, List.append_assoc]
        exact dropWhile_append_of_start isSpace tag.nonempty tag.start _
      · rw [Content.text, rdropWhile_append, stop, if_neg nonempty]
  | endSection => exact ⟨by decide, by decide, by decide⟩
  | assignment line => exact line.visible

theorem Content.inLine (content : Content) : InLine content.text := by
  cases content with
  | comment text inLine trimmed =>
      have mark : InLine ['#'] := by simp [InLine, isEol]
      exact mark.append inLine
  | openSection line =>
      have tag : InLine Reader.sectionTag := by simp [InLine, Reader.sectionTag, isEol]
      exact (tag.append line.separator.inLine).append (renderNames_inLine line.first line.others)
  | endSection => simp [Content.text, InLine, Reader.endSectionTag, isEol]
  | assignment line =>
      exact (((line.lvalueInLine.append line.gap.inLine).append line.operator.inLine).append
        line.gapAfter.inLine).append line.rvalueInLine

/-! ## Cutting lines out of the buffer -/

/-- The end of the buffer. -/
def zeros (count : Nat) : Text := List.replicate (count + 1) '\x00'

theorem zeros_eq_cons (count : Nat) : zeros count = '\x00' :: List.replicate count '\x00' := rfl

theorem cStr_zeros {text : Text} (noZero : '\x00' ∉ text) (count : Nat) :
    cStr (text ++ zeros count) = text := cStr_append_zero noZero _

theorem InLine.noZero {text : Text} (inLine : InLine text) : '\x00' ∉ text :=
  fun member => (inLine _ member).1 rfl

theorem cleanToken_text {text : Text} (noZero : '\x00' ∉ text) (count : Nat) :
    ∃ more, cleanToken (text ++ zeros count) = trim text ++ zeros more := by
  have skipped : skipWhites (text ++ zeros count) = text.dropWhile isSpace ++ zeros count := by
    rw [skipWhites, List.dropWhile_append]
    split
    · next nothing =>
        rw [List.isEmpty_iff.mp nothing, List.nil_append, zeros_eq_cons]
        exact List.dropWhile_cons_of_neg (by decide)
    · rfl
  have restZero : '\x00' ∉ text.dropWhile isSpace :=
    fun member => noZero ((List.dropWhile_sublist _).subset member)
  refine ⟨(text.dropWhile isSpace).length - (trim text).length + count, ?_⟩
  rw [cleanToken, skipped]
  simp only [cStr_zeros restZero, List.drop_left]
  rw [← trim, List.append_assoc, zeros, zeros, List.replicate_append_replicate, Nat.add_assoc]

/-- The letters of a line are those before its end. -/
theorem takeWhile_line {line rest : Text} (inLine : InLine line)
    (boundary : ∀ letter ∈ rest.head?, letter = '\x00' ∨ isEol letter) :
    (line ++ rest).takeWhile (fun letter => letter ≠ '\x00' ∧ isEol letter = false) = line := by
  rw [List.takeWhile_append_of_pos fun letter member => decide_eq_true (inLine letter member)]
  cases rest with
  | nil => rw [List.takeWhile_nil, List.append_nil]
  | cons letter rest =>
      have stopped := boundary letter rfl
      rw [List.takeWhile_cons_of_neg, List.append_nil]
      rw [decide_eq_true_iff]
      rintro ⟨noZero, noEol⟩
      exact stopped.elim noZero fun ends => Bool.noConfusion (noEol.symm.trans ends)

theorem takeWhile_eols {eols rest : Text} (ends : ∀ letter ∈ eols, isEol letter)
    (boundary : ∀ letter ∈ rest.head?, isEol letter = false) :
    (eols ++ rest).takeWhile isEol = eols := by
  rw [List.takeWhile_append_of_pos ends]
  cases rest with
  | nil => rw [List.takeWhile_nil, List.append_nil]
  | cons letter rest =>
      rw [List.takeWhile_cons_of_neg (by simp [boundary letter rfl]), List.append_nil]

theorem skipLine_text {line eols next : Text} (inLine : InLine line)
    (ends : ∀ letter ∈ eols, isEol letter) (ended : eols ≠ []) (noZero : '\x00' ∉ next)
    (nonempty : next ≠ []) (start : ∀ letter ∈ next.head?, isEol letter = false) (count : Nat) :
    skipLine (line ++ (eols ++ (next ++ zeros count))) =
      (line ++ eols.dropLast ++ '\x00' :: (next ++ zeros count), next ++ zeros count) := by
  obtain ⟨letter, later, rfl⟩ := List.exists_cons_of_ne_nil nonempty
  have lineTaken : (line ++ (eols ++ (letter :: later ++ zeros count))).takeWhile
      (fun letter => letter ≠ '\x00' ∧ isEol letter = false) = line := by
    refine takeWhile_line inLine fun first isFirst => .inr (ends first ?_)
    rw [List.head?_append_of_ne_nil _ ended] at isFirst
    exact List.mem_of_mem_head? isFirst
  have eolsTaken : (eols ++ (letter :: later ++ zeros count)).takeWhile isEol = eols :=
    takeWhile_eols ends fun first isFirst => start first isFirst
  have visible : letter ≠ '\x00' := fun isZero => noZero (isZero ▸ List.mem_cons_self)
  rw [skipLine]
  simp only [lineTaken, List.drop_left, eolsTaken, ← List.drop_drop]
  exact if_pos visible

theorem skipLine_last {line : Text} (inLine : InLine line) (count : Nat) :
    skipLine (line ++ zeros count) = (line ++ zeros count, zeros count) := by
  have lineTaken : (line ++ zeros count).takeWhile
      (fun letter => letter ≠ '\x00' ∧ isEol letter = false) = line := by
    refine takeWhile_line inLine fun first isFirst => .inl ?_
    exact (Option.some.inj isFirst).symm
  have noEols : (zeros count).takeWhile isEol = [] := List.takeWhile_cons_of_neg (by decide)
  rw [skipLine]
  simp only [lineTaken, List.drop_left, noEols, List.length_nil, Nat.add_zero]
  exact if_neg fun visible => visible rfl

theorem removeEol_text {line eols : Text} (inLine : InLine line) (nonempty : line ≠ [])
    (ends : ∀ letter ∈ eols, isEol letter) (more : Text) :
    ∃ after, removeEol (line ++ eols ++ '\x00' :: more) = line ++ '\x00' :: after := by
  obtain ⟨first, rest, rfl⟩ := List.exists_cons_of_ne_nil nonempty
  have eolsZero : '\x00' ∉ eols := fun member => Bool.noConfusion (ends _ member : false = true)
  have noZero : '\x00' ∉ first :: rest ++ eols := by
    rw [List.mem_append, not_or]
    exact ⟨inLine.noZero, eolsZero⟩
  have eolsDropped : eols.rdropWhile isEol = [] := List.rdropWhile_eq_nil_iff.mpr ends
  have restKept : rest.rdropWhile isEol = rest := by
    rw [List.rdropWhile_eq_self_iff]
    intro some
    have last := (inLine _ (List.mem_cons_of_mem first (List.getLast_mem some))).2
    simp [last]
  have kept : (rest ++ eols).rdropWhile isEol = rest := by
    rw [rdropWhile_append, eolsDropped, if_pos rfl, restKept]
  refine ⟨List.replicate eols.length '\x00' ++ more, ?_⟩
  rw [removeEol, cStr_append_zero noZero, List.cons_append]
  simp only [kept, List.length_append, Nat.add_sub_cancel_left]
  have behind : (first :: (rest ++ eols) ++ '\x00' :: more).drop (rest.length + eols.length + 1) =
      '\x00' :: more := by
    rw [← List.length_append, ← List.length_cons]
    exact List.drop_left
  have shifted : List.replicate eols.length '\x00' ++ '\x00' :: more =
      '\x00' :: (List.replicate eols.length '\x00' ++ more) := by
    rw [← List.singleton_append, ← List.append_assoc, ← List.replicate_succ', List.replicate_succ,
      List.cons_append]
  rw [behind, List.append_assoc, shifted]

/-- Trimmed text does not end with a line end. -/
theorem nil_of_eols {text line rest : Text} (trimmed : trim text = line ++ rest)
    (ends : ∀ letter ∈ rest, isEol letter) : rest = [] := by
  have spaces : ∀ letter ∈ rest, isSpace letter := by
    intro letter member
    have isEnd := ends letter member
    rw [isEol, decide_eq_true_iff] at isEnd
    rcases isEnd with rfl | rfl
    · rfl
    · rfl
  have kept : (line ++ rest).rdropWhile isSpace = line ++ rest := by
    rw [← trimmed, trim]
    exact List.rdropWhile_idempotent _ _
  rw [rdropWhile_spaces spaces] at kept
  have shorter := (List.rdropWhile_prefix isSpace line).length_le
  have length := congrArg List.length kept
  rw [List.length_append] at length
  exact List.eq_nil_of_length_eq_zero (by omega)

theorem trim_sublist (text : Text) : (trim text).Sublist text :=
  (List.rdropWhile_prefix isSpace _).sublist.trans (List.dropWhile_sublist _)

/-- One round of the loop.  `line` is the first line of the trimmed text, and `rest` what
follows it from its end on. -/
theorem loadLines_step (targetMachine : Text) (reader : Reader) {text line rest : Text}
    (noZero : '\x00' ∉ text) (trimmed : trim text = line ++ rest) (inLine : InLine line)
    (nonempty : line ≠ []) (boundary : ∀ letter ∈ rest.head?, isEol letter) (fuel count : Nat) :
    ∃ after more, Reader.loadLines targetMachine (fuel + 1) reader (text ++ zeros count) =
      (Reader.parseLine targetMachine reader (line ++ '\x00' :: after)).bind fun reader =>
        Reader.loadLines targetMachine fuel reader (rest.dropWhile isEol ++ zeros more) := by
  have textNonempty : text ≠ [] := by
    rintro rfl
    rw [trim_spaces (by simp)] at trimmed
    exact nonempty (List.append_eq_nil_iff.mp trimmed.symm).1
  have goesOn : letterAt (text ++ zeros count) ≠ '\x00' := by
    obtain ⟨letter, later, rfl⟩ := List.exists_cons_of_ne_nil textNonempty
    exact fun isZero => noZero (List.mem_cons.mpr (.inl isZero.symm))
  obtain ⟨more, cleaned⟩ := cleanToken_text noZero count
  rw [Reader.loadLines, if_neg goesOn]
  simp only [cleaned, trimmed]
  by_cases isLast : rest = []
  · subst isLast
    obtain ⟨after, removed⟩ := removeEol_text inLine nonempty
      (fun letter member => (List.not_mem_nil member).elim) (List.replicate more '\x00')
    rw [List.append_nil] at removed
    refine ⟨after, more, ?_⟩
    rw [List.append_nil, skipLine_last inLine, zeros_eq_cons, removed, List.dropWhile_nil,
      List.nil_append]
  · have restZero : '\x00' ∉ rest := by
      intro member
      have inTrimmed : '\x00' ∈ trim text := trimmed ▸ List.mem_append_right line member
      exact noZero ((trim_sublist text).subset inTrimmed)
    have ends : ∀ letter ∈ rest.takeWhile isEol, isEol letter :=
      fun letter member => List.mem_takeWhile_imp member
    have ended : rest.takeWhile isEol ≠ [] := by
      obtain ⟨letter, later, rfl⟩ := List.exists_cons_of_ne_nil isLast
      rw [List.takeWhile_cons_of_pos (boundary letter rfl)]
      exact List.cons_ne_nil _ _
    have nextNonempty : rest.dropWhile isEol ≠ [] :=
      fun nothing => isLast (nil_of_eols trimmed (List.dropWhile_eq_nil_iff.mp nothing))
    have nextZero : '\x00' ∉ rest.dropWhile isEol :=
      fun member => restZero ((List.dropWhile_sublist _).subset member)
    have start : ∀ letter ∈ (rest.dropWhile isEol).head?, isEol letter = false := by
      intro letter isFirst
      have stopped := List.head?_dropWhile_not isEol rest
      rw [Option.mem_def.mp isFirst] at stopped
      simpa using stopped
    have dropped : ∀ letter ∈ (rest.takeWhile isEol).dropLast, isEol letter :=
      fun letter member => ends letter (List.mem_of_mem_dropLast member)
    have cut := skipLine_text inLine ends ended nextZero nextNonempty start more
    obtain ⟨after, removed⟩ :=
      removeEol_text inLine nonempty dropped (rest.dropWhile isEol ++ zeros more)
    refine ⟨after, more, ?_⟩
    rw [← List.append_assoc (rest.takeWhile isEol), List.takeWhile_append_dropWhile,
      ← List.append_assoc] at cut
    rw [cut, removed]

/-! ## What a line does -/

theorem cutAtCat_spaces {spaces : Text} (noOperator : '=' ∉ spaces) (line : Text) :
    cutAtCat (line ++ spaces) = (cutAtCat line).map fun parts => (parts.1, parts.2 ++ spaces) := by
  induction line with
  | nil =>
      rw [List.nil_append, cutAtCat, Option.map_none]
      induction spaces with
      | nil => rfl
      | cons first rest ih =>
          rw [List.mem_cons, not_or] at noOperator
          have notHere : ¬ (first = '+' ∧ rest.head? = some '=') :=
            fun found => noOperator.2 (List.mem_of_mem_head? found.2)
          rw [cutAtCat, if_neg notHere, ih noOperator.2, Option.map_none]
  | cons first rest ih =>
      have sameHead : (rest ++ spaces).head? = some '=' ↔ rest.head? = some '=' := by
        cases rest with
        | nil =>
            refine iff_of_false (fun found => noOperator (List.mem_of_mem_head? found)) ?_
            simp
        | cons second rest => rfl
      rw [List.cons_append, cutAtCat, cutAtCat]
      by_cases found : first = '+' ∧ rest.head? = some '='
      · obtain ⟨plus, equals⟩ := found
        have nonempty : rest ≠ [] := by
          rintro rfl
          simp at equals
        rw [if_pos ⟨plus, sameHead.mpr equals⟩, if_pos ⟨plus, equals⟩, Option.map_some,
          List.tail_append_of_ne_nil nonempty]
      · rw [if_neg fun both => found ⟨both.1, sameHead.mp both.2⟩, if_neg found, ih, Option.map_map,
          Option.map_map]
        rfl

theorem cutAt_spaces {delim : Char} {spaces : Text} (absent : delim ∉ spaces) (line : Text) :
    cutAt delim (line ++ spaces) = (cutAt delim line).map fun parts => (parts.1, parts.2 ++ spaces) := by
  induction line with
  | nil =>
      rw [List.nil_append, cutAt, Option.map_none]
      induction spaces with
      | nil => rfl
      | cons first rest ih =>
          rw [List.mem_cons, not_or] at absent
          rw [cutAt, if_neg (Ne.symm absent.1), ih absent.2, Option.map_none]
  | cons first rest ih =>
      rw [List.cons_append, cutAt, cutAt]
      split
      · rfl
      · rw [ih, Option.map_map, Option.map_map]
        rfl

/-- White space at the end of a line does not matter. -/
theorem execute_spaces (reader : Reader) {spaces : Text} (blank : ∀ letter ∈ spaces, isSpace letter)
    (line : Text) : reader.execute (line ++ spaces) = reader.execute line := by
  have noOperator : '=' ∉ spaces := fun member => Bool.noConfusion (blank _ member : false = true)
  rw [Reader.execute, Reader.execute, cutAtCat_spaces noOperator, cutAt_spaces noOperator]
  cases cutAtCat line with
  | some parts => simp only [Option.map_some, trim_append_spaces blank]
  | none =>
      cases cutAt '=' line with
      | some parts => simp only [Option.map_none, Option.map_some, trim_append_spaces blank]
      | none => rfl

/-- The names begin with the white space before the first one. -/
theorem renderNames_split (first : SectionName) (others : List (Blanks × SectionName)) :
    ∃ names, Visible names ∧ renderNames first others = first.before.text ++ names := by
  cases others with
  | nil => exact ⟨first.name, first.visible, rfl⟩
  | cons other others =>
      obtain ⟨nonempty, stop⟩ := renderNames_stop other.2 others
      refine ⟨first.name ++ other.1.text ++ ',' :: renderNames other.2 others, ⟨?_, ?_, ?_⟩, ?_⟩
      · simp
      · rw [List.append_assoc]
        exact dropWhile_append_of_start isSpace first.nonempty first.visible.start _
      · have tail : (',' :: renderNames other.2 others).rdropWhile isSpace =
            ',' :: renderNames other.2 others := by
          rw [← List.singleton_append, rdropWhile_append, stop, if_neg nonempty]
        rw [rdropWhile_append, tail, if_neg (List.cons_ne_nil _ _)]
      · simp [renderNames]

theorem Blanks.noComma (blanks : Blanks) : ',' ∉ blanks.text :=
  fun member => Bool.noConfusion (blanks.blank _ member : false = true)

/-- The tokens of a list of names are the names. -/
theorem strtok_renderNames (first : SectionName) (others : List (Blanks × SectionName)) :
    (strtok [','] (renderNames first others)).map trim =
      first.name :: others.map fun other => other.2.name := by
  induction others generalizing first with
  | nil =>
      have plain : ∀ letter ∈ first.before.text ++ first.name, letter ∉ [','] := by
        intro letter member isComma
        rw [List.mem_singleton.mp isComma] at member
        exact (List.mem_append.mp member).elim first.before.noComma first.noComma
      rw [renderNames, strtok_single (by simp [first.nonempty]) plain, List.map_singleton,
        trim_before first.before.blank, first.trimmed, List.map_nil]
  | cons other others ih =>
      have plain : ∀ letter ∈ first.before.text ++ first.name ++ other.1.text, letter ∉ [','] := by
        intro letter member isComma
        rw [List.mem_singleton.mp isComma, List.mem_append, List.mem_append] at member
        exact member.elim (·.elim first.before.noComma first.noComma) other.1.noComma
      have nonempty : first.before.text ++ first.name ++ other.1.text ≠ [] := by
        simp [first.nonempty]
      rw [renderNames, strtok_append nonempty plain (List.mem_singleton.mpr rfl), List.map_cons, ih,
        List.append_assoc, trim_before first.before.blank, trim_after first.trimmed other.1.blank,
        List.map_cons]

/-- What a line does to the reader. -/
def Content.read (targetMachine : Text) (reader : Reader) : Content → Except LoadFailure Reader
  | .comment .. => .ok reader
  | .openSection line =>
      .ok { reader with
        currentSection := renderNames line.first line.others
        currentSectionsSet := reader.currentSectionsSet ∪ line.names.toFinset }
  | .endSection => .ok reader.leaveSection
  | .assignment line => if reader.targeted targetMachine then reader.execute line.text else .ok reader

theorem sectionString_text (line : SectionLine) {spaces : Text}
    (inLine : InLine spaces) (blank : ∀ letter ∈ spaces, isSpace letter) (after : Text) :
    Reader.sectionString ((Content.openSection line).text ++ spaces ++ '\x00' :: after) =
      renderNames line.first line.others := by
  obtain ⟨names, visible, split⟩ := renderNames_split line.first line.others
  have namesInLine := renderNames_inLine line.first line.others
  have behind : ((Content.openSection line).text ++ spaces ++ '\x00' :: after).drop
      (Reader.sectionTag.length + 1) =
        renderNames line.first line.others ++ spaces ++ '\x00' :: after := by
    rw [Content.text, ← line.single, ← List.length_append, List.append_assoc, List.append_assoc,
      List.append_assoc (renderNames line.first line.others)]
    exact List.drop_left
  obtain ⟨first, rest, cons⟩ := List.exists_cons_of_ne_nil visible.nonempty
  have firstVisible : ¬ isSpace first := by
    intro space
    have start := visible.start
    rw [cons, List.dropWhile_cons_of_pos space] at start
    have bound := List.length_dropWhile_le isSpace rest
    have length := congrArg List.length start
    rw [List.length_cons] at length
    omega
  rw [Reader.sectionString, behind, cStr_append_zero (namesInLine.append inLine).noZero, split,
    List.append_assoc]
  have indent : (line.first.before.text ++ (names ++ spaces)).takeWhile isSpace =
      line.first.before.text := by
    rw [List.takeWhile_append_of_pos line.first.before.blank, cons, List.cons_append,
      List.takeWhile_cons_of_neg firstVisible, List.append_nil]
  have trimmed : trim (line.first.before.text ++ (names ++ spaces)) = names := by
    rw [trim_before line.first.before.blank, visible.trim_append,
      List.rdropWhile_eq_nil_iff.mpr blank, List.append_nil]
  simp only [indent, trimmed]

theorem parseLine_content (targetMachine : Text) (reader : Reader) (content : Content) {spaces : Text}
    (inLine : InLine spaces) (blank : ∀ letter ∈ spaces, isSpace letter) (after : Text) :
    Reader.parseLine targetMachine reader (content.text ++ spaces ++ '\x00' :: after) =
      content.read targetMachine reader := by
  have string : cStr (content.text ++ spaces ++ '\x00' :: after) = content.text ++ spaces :=
    cStr_append_zero (content.inLine.append inLine).noZero after
  rw [Reader.parseLine, string]
  cases content with
  | comment text textInLine trimmed => rfl
  | openSection line =>
      have tagged : Reader.sectionTag <+: (Content.openSection line).text ++ spaces := by
        rw [Content.text, List.append_assoc, List.append_assoc]
        exact List.prefix_append ..
      have long : ¬ ((Content.openSection line).text ++ spaces ++ '\x00' :: after).length ≤
          Reader.sectionTag.length + 1 := by
        simp only [Content.text, List.length_append, List.length_cons, line.single]
        have nonempty := List.length_pos_iff.mpr (renderNames_stop line.first line.others).1
        omega
      have entered : reader.enterSection ((Content.openSection line).text ++ spaces ++ '\x00' :: after) =
          (Content.openSection line).read targetMachine reader := by
        rw [Reader.enterSection, if_neg long, sectionString_text line inLine blank]
        simp only [strtok_renderNames, Content.read, SectionLine.names]
      have text : (Content.openSection line).text ++ spaces = '.' ::
          (Reader.sectionTag.tail ++ line.separator.text ++ renderNames line.first line.others ++ spaces) :=
        rfl
      rw [text] at tagged entered ⊢
      simp only [if_pos tagged, entered]
      rfl
  | endSection => rfl
  | assignment line =>
      obtain ⟨first, rest, cons⟩ := List.exists_cons_of_ne_nil line.lvalueNonempty
      have special := line.notSpecial first (by rw [cons]; rfl)
      have noEol := (line.lvalueInLine first (by rw [cons]; exact List.mem_cons_self)).2
      have text : (Content.assignment line).text ++ spaces =
          first :: (rest ++ line.gap.text ++ line.operator.text ++ line.gapAfter.text ++ line.rvalue ++
            spaces) := by
        rw [Content.text, Assignment.text, cons]
        simp
      rw [text]
      simp only [special.1, special.2, noEol, or_self, if_false, Bool.false_eq_true]
      rw [← text, Content.read]
      split
      · exact execute_spaces reader blank _
      · rfl

/-! ## What a file does -/

/-- The lines one after the other. -/
def readContents (targetMachine : Text) : Reader → List Content → Except LoadFailure Reader
  | reader, [] => .ok reader
  | reader, content :: contents =>
      (content.read targetMachine reader).bind fun reader => readContents targetMachine reader contents

theorem loadLines_blank (targetMachine : Text) (reader : Reader) {text : Text} {fuel : Nat}
    (nothing : trim text = []) (noZero : '\x00' ∉ text) (enough : text.length < fuel) (count : Nat) :
    Reader.loadLines targetMachine fuel reader (text ++ zeros count) = .ok reader := by
  cases fuel with
  | zero => omega
  | succ fuel =>
      rw [Reader.loadLines]
      split
      · rfl
      · next goesOn =>
          obtain ⟨more, cleaned⟩ := cleanToken_text noZero count
          have cut : skipLine (zeros more) = (zeros more, zeros more) :=
            skipLine_last (fun letter member => (List.not_mem_nil member).elim) more
          rw [nothing, List.nil_append] at cleaned
          rw [cleaned, cut]
          cases fuel with
          | zero =>
              rw [List.eq_nil_of_length_eq_zero (Nat.lt_one_iff.mp enough)] at goesOn
              exact (goesOn rfl).elim
          | succ fuel => rfl

theorem trim_dropWhile_isEol (text : Text) : trim (text.dropWhile isEol) = trim text := by
  have blank : ∀ letter ∈ text.takeWhile isEol, isSpace letter := by
    intro letter member
    have ends := List.mem_takeWhile_imp member
    rw [isEol, decide_eq_true_iff] at ends
    rcases ends with rfl | rfl
    · rfl
    · rfl
  calc trim (text.dropWhile isEol)
      = trim (text.takeWhile isEol ++ text.dropWhile isEol) := (trim_before blank _).symm
    _ = trim text := by rw [List.takeWhile_append_dropWhile]

theorem trim_rdropWhile (text : Text) : trim (text.rdropWhile isSpace) = trim text := by
  have split : text.rdropWhile isSpace ++ (text.reverse.takeWhile isSpace).reverse = text := by
    rw [List.rdropWhile, ← List.reverse_append, List.takeWhile_append_dropWhile, List.reverse_reverse]
  have blank : ∀ letter ∈ (text.reverse.takeWhile isSpace).reverse, isSpace letter :=
    fun letter member => List.mem_takeWhile_imp (List.mem_reverse.mp member)
  calc trim (text.rdropWhile isSpace)
      = trim (text.rdropWhile isSpace ++ (text.reverse.takeWhile isSpace).reverse) :=
        (trim_append_spaces blank _).symm
    _ = trim text := by rw [split]

theorem Eol.ends (eol : Eol) : eol.text ≠ [] ∧ ∀ letter ∈ eol.text, isEol letter := by
  cases eol with
  | lf => exact ⟨by decide, List.all_iff_forall_prop.mp (by decide)⟩
  | crlf => exact ⟨by decide, List.all_iff_forall_prop.mp (by decide)⟩

theorem Eol.blank (eol : Eol) : ∀ letter ∈ eol.text, isSpace letter := by
  cases eol with
  | lf => exact List.all_iff_forall_prop.mp (by decide)
  | crlf => exact List.all_iff_forall_prop.mp (by decide)

/-- A line that is not blank is read, and the loop goes on behind it. -/
theorem loadLines_content (targetMachine : Text) (reader : Reader) (content : Content)
    {text spaces rest : Text} {fuel : Nat} {next : Reader → Except LoadFailure Reader}
    (trimmed : trim text = content.text ++ spaces ++ rest) (noZero : '\x00' ∉ text)
    (inLine : InLine spaces) (blank : ∀ letter ∈ spaces, isSpace letter)
    (boundary : ∀ letter ∈ rest.head?, isEol letter) (enough : text.length < fuel)
    (later : ∀ (reader : Reader) (fuel count : Nat), (rest.dropWhile isEol).length < fuel →
      Reader.loadLines targetMachine fuel reader (rest.dropWhile isEol ++ zeros count) = next reader)
    (count : Nat) :
    Reader.loadLines targetMachine fuel reader (text ++ zeros count) =
      (content.read targetMachine reader).bind next := by
  have nonempty : content.text ++ spaces ≠ [] := by simp [content.visible.nonempty]
  have shorter : (rest.dropWhile isEol).length < text.length := by
    have length := congrArg List.length trimmed
    have positive := List.length_pos_iff.mpr nonempty
    have whole := length_trim_le text
    have part := List.length_dropWhile_le isEol rest
    rw [List.length_append] at length
    omega
  cases fuel with
  | zero => omega
  | succ fuel =>
      obtain ⟨after, more, step⟩ := loadLines_step targetMachine reader noZero trimmed
        (content.inLine.append inLine) nonempty boundary fuel count
      rw [step, parseLine_content targetMachine reader content inLine blank]
      congr 1
      funext reader
      exact later reader fuel more (by omega)

/-- The loop takes the lines of a file out of the buffer, also when blank lines before
them and white space behind them are gone. -/
theorem loadLines_lines (targetMachine : Text) (lines : List (Line × Eol)) (last : Line)
    {text : Text} {fuel : Nat} (reader : Reader)
    (same : trim text = trim (Document.text ⟨lines, last⟩)) (noZero : '\x00' ∉ text)
    (enough : text.length < fuel) (count : Nat) :
    Reader.loadLines targetMachine fuel reader (text ++ zeros count) =
      readContents targetMachine reader (Document.contents ⟨lines, last⟩) := by
  induction lines generalizing text fuel reader count with
  | nil =>
      cases last with
      | blank spaces => exact loadLines_blank _ _ (same.trans (trim_spaces spaces.blank)) noZero enough _
      | content indent inner trail =>
          have trimmed : trim text = inner.text ++ [] ++ [] := by
            have whole : Document.text ⟨[], .content indent inner trail⟩ =
                indent.text ++ (inner.text ++ trail.text) := by simp [Document.text, Line.text]
            rw [same, whole, trim_before indent.blank, inner.visible.trim_append,
              List.rdropWhile_eq_nil_iff.mpr trail.blank, List.append_nil, List.append_nil]
          exact loadLines_content targetMachine reader inner trimmed noZero (by simp [InLine])
            (by simp) (by simp) enough
            (fun reader fuel count enough =>
              loadLines_blank targetMachine reader (trim_spaces (by simp)) (by simp) enough count) count
  | cons line lines ih =>
      obtain ⟨line, eol⟩ := line
      cases line with
      | blank spaces =>
          have whole : Document.text ⟨(.blank spaces, eol) :: lines, last⟩ =
              spaces.text ++ eol.text ++ Document.text ⟨lines, last⟩ := by
            simp [Document.text, Line.text]
          have blank : ∀ letter ∈ spaces.text ++ eol.text, isSpace letter :=
            fun letter member =>
              (List.mem_append.mp member).elim (spaces.blank letter) (eol.blank letter)
          rw [whole, trim_before blank] at same
          exact ih reader same noZero enough count
      | content indent inner trail =>
          have whole : Document.text ⟨(.content indent inner trail, eol) :: lines, last⟩ =
              indent.text ++ (inner.text ++ (trail.text ++ eol.text ++ Document.text ⟨lines, last⟩)) := by
            simp [Document.text, Line.text]
          rw [whole, trim_before indent.blank, inner.visible.trim_append] at same
          have blank : ∀ letter ∈ trail.text ++ eol.text, isSpace letter :=
            fun letter member =>
              (List.mem_append.mp member).elim (trail.blank letter) (eol.blank letter)
          rw [rdropWhile_append] at same
          split at same
          · next nothing =>
              rw [List.rdropWhile_eq_nil_iff.mpr blank, List.append_nil] at same
              have trimmed : trim text = inner.text ++ [] ++ [] := by rw [same]; simp
              refine loadLines_content targetMachine reader inner trimmed noZero (by simp [InLine])
                (by simp) (by simp) enough (fun reader fuel count enough => ?_) count
              refine ih reader ?_ (by simp) enough count
              rw [← trim_rdropWhile (Document.text ⟨lines, last⟩), nothing]
              rfl
          · have trimmed : trim text = inner.text ++ trail.text ++
                (eol.text ++ (Document.text ⟨lines, last⟩).rdropWhile isSpace) := by
              rw [same]
              simp
            have boundary : ∀ letter ∈ (eol.text ++
                (Document.text ⟨lines, last⟩).rdropWhile isSpace).head?, isEol letter := by
              intro letter isFirst
              rw [List.head?_append_of_ne_nil _ eol.ends.1] at isFirst
              exact eol.ends.2 letter (List.mem_of_mem_head? isFirst)
            refine loadLines_content targetMachine reader inner trimmed noZero trail.inLine trail.blank
              boundary enough (fun reader fuel count enough => ?_) count
            refine ih reader ?_ ?_ enough count
            · rw [trim_dropWhile_isEol, trim_before eol.blank, trim_rdropWhile]
            · intro member
              have inRest := (List.dropWhile_sublist isEol).subset member
              have inText : '\x00' ∈ trim text := trimmed ▸ List.mem_append_right _ inRest
              exact noZero ((trim_sublist text).subset inText)

theorem Line.noZero (line : Line) : '\x00' ∉ line.text := by
  cases line with
  | blank spaces => exact spaces.inLine.noZero
  | content indent inner trail =>
      exact ((indent.inLine.append inner.inLine).append trail.inLine).noZero

theorem Document.noZero (document : Document) : '\x00' ∉ document.text := by
  intro member
  cases List.mem_append.mp member with
  | inl inLines =>
      obtain ⟨line, _, inLine⟩ := List.mem_flatMap.mp inLines
      cases List.mem_append.mp inLine with
      | inl inText => exact line.1.noZero inText
      | inr inEol => exact Bool.noConfusion (line.2.blank _ inEol : false = true)
  | inr inLast => exact document.last.noZero inLast

/-- `loadFromFile` reads the lines of a file one after the other. -/
theorem loadFromFile_document (info : SourceInfo) (targetMachine currentDir : Text) (document : Document) :
    info.loadFromFile targetMachine currentDir (some document.text) =
      (readContents targetMachine
        { info := info.clear, currentSection := Reader.commonName, currentSectionsSet := ∅ }
        document.contents).bind fun reader =>
          reader.info.set SourceInfo.compDirName currentDir false := by
  have read := loadLines_lines targetMachine document.lines document.last
    { info := info.clear, currentSection := Reader.commonName, currentSectionsSet := ∅ } rfl
    document.noZero (Nat.lt_succ_self _) 0
  rw [SourceInfo.loadFromFile, ← read]
  rfl

end Tegenaria.QCBuild
