import Tegenaria.QCBuild.SourceLines

/-!
# The meaning of a source file

The lines of a `qcbuild.src` file are executed one after the other: an assignment outside
sections, or in a section for the target machine, changes one variable.  This module states
that meaning without the buffer and the flags of `loadFromFile`, and says for which files
`loadFromFile` keeps to it.
-/

namespace Tegenaria.QCBuild

open LibStr

/-- Titles and names are compared as strings. -/
local instance lawfulText : LawfulBEq Text := inferInstance

/-! ## Reference interpretation -/

/-- The value after an assignment.  An empty value stands for a variable that is not set. -/
def Operator.apply : Operator → (old rvalue : Text) → Text
  | .assign, _, rvalue => rvalue
  | .append, old, rvalue => if old = [] then rvalue else old ++ ' ' :: rvalue

/-- The variables, and the machines named by the section that is open. -/
structure Reference where
  values : Text → Text
  machines : Option (List Text)

namespace Reference

def start : Reference where
  values name := (SourceInfo.defaults name).getD []
  machines := none

/-- Assignments are executed here. -/
def active (reference : Reference) (targetMachine : Text) : Bool :=
  match reference.machines with
  | none => true
  | some names => targetMachine ∈ names

def step (targetMachine : Text) (reference : Reference) : Content → Reference
  | .comment .. => reference
  | .openSection line => { reference with machines := some line.names }
  | .endSection => { reference with machines := none }
  | .assignment line =>
      if reference.active targetMachine then
        { reference with
          values := Function.update reference.values line.lvalue
            (line.operator.apply (reference.values line.lvalue) line.rvalue) }
      else reference

end Reference

/-- The variables that a file defines.  The directory of the component is not taken from
the file. -/
def Document.variables (document : Document) (targetMachine currentDir : Text) : Text → Text :=
  Function.update (document.contents.foldl (Reference.step targetMachine) .start).values
    SourceInfo.compDirName currentDir

/-- The tokens of a text between white space. -/
def whiteTokens (text : Text) : List Text := strtok [' ', '\t', '\n', '\x0b', '\x0c', '\r'] text

/-- `loadFromFile` returns, the variables are those of the reference interpretation, and the
set of needed components holds the tokens of `DEPENDS`. -/
def Interprets (info : SourceInfo) (targetMachine currentDir : Text) (document : Document) : Prop :=
  ∃ result, info.loadFromFile targetMachine currentDir (some document.text) = .ok result ∧
    (∀ name, result.get name = document.variables targetMachine currentDir name) ∧
    result.dependsSet = (whiteTokens (result.get SourceInfo.dependsName)).toFinset

/-! ## Files without surprises -/

/-- What the lines before a line say: the reference interpretation, all machines named since
sections were last left, the text of the last section tag, and the last type. -/
structure Context where
  reference : Reference
  named : List Text
  tag : Text
  type : SourceType

namespace Context

def start : Context where
  reference := .start
  named := []
  tag := Reader.commonName
  type := .unknown

def step (targetMachine : Text) (context : Context) (content : Content) : Context :=
  let reference := context.reference.step targetMachine content
  match content with
  | .comment .. => { context with reference }
  | .openSection line =>
      { context with
        reference
        named := context.named ++ line.names
        tag := renderNames line.first line.others }
  | .endSection => { context with reference, named := [], tag := Reader.commonName }
  | .assignment line =>
      if context.reference.active targetMachine ∧ sameNoCase line.lvalue SourceInfo.typeName then
        { context with reference, type := SourceInfo.typeOf line.rvalue }
      else { context with reference }

/-- An assignment that is executed: the operator is the first one that `strstr` finds; a
variable is not unset, except `TYPE`; `TYPE` is not appended to; `DEPENDS` is written in
capitals and has neither quotation marks nor other white space than blanks and tabs;
`AUTODOC_PRIVATE_DIRS` stands in a project, and `ROOT` not in a part of one. -/
def executable (context : Context) (line : Assignment) : Bool :=
  let old := context.reference.values line.lvalue
  (line.operator = .assign → cutAtCat line.rvalue = none) ∧
  (line.operator = .assign → line.rvalue = [] → sameNoCase line.lvalue SourceInfo.typeName = false →
    old = []) ∧
  (line.operator = .append → sameNoCase line.lvalue SourceInfo.typeName → old = []) ∧
  (sameNoCase line.lvalue SourceInfo.dependsName →
    line.lvalue = SourceInfo.dependsName ∧ line.rvalue.all fun letter => letter ∉ ['"', '\x0b', '\x0c']) ∧
  (sameNoCase line.lvalue SourceInfo.privateDirsName → context.type = .project) ∧
  (sameNoCase line.lvalue SourceInfo.rootName →
    context.type ≠ .program ∧ context.type ≠ .library ∧ context.type ≠ .multiLibrary)

/-- A line that `loadFromFile` reads as it is meant.  An assignment in a section for other
machines does not stand behind a section for the target machine that was not left, nor in a
section with the name `COMMON`. -/
def fits (targetMachine : Text) (context : Context) : Content → Bool
  | .assignment line =>
      if context.reference.active targetMachine then context.executable line
      else context.tag ≠ Reader.commonName ∧ targetMachine ∉ context.named
  | _ => true

def allFit (targetMachine : Text) : Context → List Content → Bool
  | _, [] => true
  | context, content :: contents =>
      context.fits targetMachine content && allFit targetMachine (context.step targetMachine content) contents

end Context

/-- No line of the file, and not the directory either, meets a case that `loadFromFile`
handles differently. -/
def Document.fits (document : Document) (targetMachine currentDir : Text) : Bool :=
  Context.start.allFit targetMachine document.contents ∧
    (currentDir ≠ [] ∨
      (document.contents.foldl (Reference.step targetMachine) .start).values SourceInfo.compDirName = [])

/-! ## Operators -/

theorem cutAtCat_append {lvalue : Text} (noOperator : '=' ∉ lvalue) (rvalue : Text) :
    cutAtCat (lvalue ++ '+' :: '=' :: rvalue) = some (lvalue, rvalue) := by
  induction lvalue with
  | nil => rfl
  | cons first rest ih =>
      rw [List.mem_cons, not_or] at noOperator
      have notHere : ¬ (first = '+' ∧ (rest ++ '+' :: '=' :: rvalue).head? = some '=') := by
        rintro ⟨_, equals⟩
        cases rest with
        | nil => exact absurd (Option.some.inj equals) (by decide)
        | cons second rest =>
            exact noOperator.2 (List.mem_cons.mpr (.inl (Option.some.inj equals).symm))
      rw [List.cons_append, cutAtCat, if_neg notHere, ih noOperator.2, Option.map_some]

theorem cutAtCat_assign {lvalue rvalue : Text} (noOperator : '=' ∉ lvalue)
    (notPlus : '+' ∉ lvalue.getLast?) (nothing : cutAtCat rvalue = none) :
    cutAtCat (lvalue ++ '=' :: rvalue) = none := by
  induction lvalue with
  | nil =>
      have notHere : ¬ ('=' = '+' ∧ rvalue.head? = some '=') := fun found => absurd found.1 (by decide)
      rw [List.nil_append, cutAtCat, if_neg notHere, nothing, Option.map_none]
  | cons first rest ih =>
      rw [List.mem_cons, not_or] at noOperator
      cases rest with
      | nil =>
          have notHere : ¬ (first = '+' ∧ (([] : Text) ++ '=' :: rvalue).head? = some '=') :=
            fun found => notPlus (by rw [found.1]; rfl)
          rw [List.cons_append, cutAtCat, if_neg notHere, ih noOperator.2 (by simp), Option.map_none]
      | cons second rest =>
          have notHere : ¬ (first = '+' ∧ (second :: rest ++ '=' :: rvalue).head? = some '=') :=
            fun found => noOperator.2 (List.mem_cons.mpr (.inl (Option.some.inj found.2).symm))
          rw [List.getLast?_cons_cons] at notPlus
          rw [List.cons_append, cutAtCat, if_neg notHere, ih noOperator.2 notPlus, Option.map_none]

theorem cutAtCat_blanks {spaces text : Text} (blank : ∀ letter ∈ spaces, isSpace letter)
    (nothing : cutAtCat text = none) : cutAtCat (spaces ++ text) = none := by
  induction spaces with
  | nil => exact nothing
  | cons first rest ih =>
      have notPlus : first ≠ '+' := by
        rintro rfl
        exact Bool.noConfusion (blank '+' List.mem_cons_self : false = true)
      rw [List.cons_append, cutAtCat, if_neg fun found => notPlus found.1,
        ih fun letter member => blank letter (List.mem_cons_of_mem first member), Option.map_none]

/-- The operator is found where it stands. -/
theorem execute_assignment (reader : Reader) (line : Assignment)
    (found : line.operator = .assign → cutAtCat line.rvalue = none) :
    reader.execute line.text =
      (reader.info.set line.lvalue line.rvalue (line.operator = .append)).map fun info =>
        { reader with info } := by
  have noOperator : '=' ∉ line.lvalue ++ line.gap.text := by
    rw [List.mem_append, not_or]
    exact ⟨line.noOperator, fun member => Bool.noConfusion (line.gap.blank _ member : false = true)⟩
  have left : trim (line.lvalue ++ line.gap.text) = line.lvalue :=
    trim_after line.lvalueTrimmed line.gap.blank
  have right : trim (line.gapAfter.text ++ line.rvalue) = line.rvalue := by
    rw [trim_before line.gapAfter.blank, line.rvalueTrimmed]
  rw [Reader.execute]
  cases operator : line.operator with
  | append =>
      have text : line.text =
          line.lvalue ++ line.gap.text ++ '+' :: '=' :: (line.gapAfter.text ++ line.rvalue) := by
        simp [Assignment.text, operator, Operator.text]
      rw [text, cutAtCat_append noOperator]
      simp only [left, right]
      rfl
  | assign =>
      have text : line.text =
          line.lvalue ++ line.gap.text ++ '=' :: (line.gapAfter.text ++ line.rvalue) := by
        simp [Assignment.text, operator, Operator.text]
      have noCat := cutAtCat_assign noOperator (line.notPlus operator)
        (cutAtCat_blanks line.gapAfter.blank (found operator))
      have cut : cutAt '=' (line.lvalue ++ line.gap.text ++ '=' :: (line.gapAfter.text ++ line.rvalue)) =
          some (line.lvalue ++ line.gap.text, line.gapAfter.text ++ line.rvalue) :=
        cutAt_eq_some.mpr ⟨rfl, noOperator⟩
      rw [text, noCat, cut]
      simp only [left, right]
      rfl

/-! ## Tokens -/

theorem strtok_congr {first second text : Text}
    (same : ∀ letter ∈ text, letter ∈ first ↔ letter ∈ second) :
    strtok first text = strtok second text := by
  have parts : text.splitOnP (· ∈ first) = text.splitOnP (· ∈ second) := by
    induction text with
    | nil => rfl
    | cons letter rest ih =>
        have here := same letter List.mem_cons_self
        have later := ih fun other member => same other (List.mem_cons_of_mem letter member)
        rw [List.splitOnP_cons_eq_if_modifyHead, List.splitOnP_cons_eq_if_modifyHead, later]
        simp only [here]
  rw [strtok, strtok, parts]

theorem strtok_join {delims : Text} {delim : Char} (separates : delim ∈ delims) (first second : Text) :
    strtok delims (first ++ delim :: second) = strtok delims first ++ strtok delims second := by
  rw [strtok, List.splitOnP_append_cons first second (decide_eq_true separates), List.filter_append]
  rfl

/-- The titles in a value without quotation marks are its tokens. -/
theorem titles_eq {rvalue : Text} (inLine : InLine rvalue) (trimmed : trim rvalue = rvalue)
    (plain : ∀ letter ∈ rvalue, letter ∉ ['"', '\x0b', '\x0c']) :
    SourceInfo.titles rvalue = (whiteTokens rvalue).toFinset := by
  have noMark : ∀ letter ∈ rvalue, letter ∉ ['"'] := by
    intro letter member mark
    exact plain letter member (List.mem_cons.mpr (.inl (List.mem_singleton.mp mark)))
  have begun : ∀ letter ∈ rvalue.head?, letter ∉ [' ', '\t'] := by
    intro letter isFirst delim
    cases rvalue with
    | nil => cases isFirst
    | cons first rest =>
        have start := dropWhile_of_trimmed trimmed
        rw [Option.mem_def, List.head?_cons, Option.some.injEq] at isFirst
        have space : isSpace first := by
          rw [isFirst]
          simp only [List.mem_cons, List.not_mem_nil, or_false] at delim
          rcases delim with rfl | rfl
          · rfl
          · rfl
        rw [List.dropWhile_cons_of_pos space] at start
        have bound := List.length_dropWhile_le isSpace rest
        have length := congrArg List.length start
        rw [List.length_cons] at length
        omega
  rw [SourceInfo.titles, strTokenize_plain inLine.noZero noMark begun, whiteTokens]
  congr 1
  refine strtok_congr fun letter member => ?_
  have special := plain letter member
  have noEol := (inLine letter member).2
  rw [isEol, decide_eq_false_iff_not] at noEol
  simp only [List.mem_cons, List.not_mem_nil, or_false] at special ⊢
  tauto

/-- Tokens of a value and of what is appended to it. -/
theorem whiteTokens_apply (old rvalue : Text) :
    (whiteTokens (Operator.append.apply old rvalue)).toFinset =
      (whiteTokens old).toFinset ∪ (whiteTokens rvalue).toFinset := by
  rw [Operator.apply]
  split
  · next nothing => rw [nothing, whiteTokens, whiteTokens, strtok_nil, List.toFinset_nil, Finset.empty_union]
  · rw [whiteTokens, strtok_join (by decide), List.toFinset_append]
    rfl

/-! ## Assignments -/

namespace SourceInfo

/-- The first part of `set` does what the operator says, unless it unsets a variable or
appends to `TYPE`. -/
theorem assign_get {info : SourceInfo} {lvalue rvalue : Text} {operator : Operator}
    (unnamed : info.get [] = [])
    (unset : operator = .assign → rvalue = [] → sameNoCase lvalue typeName = false → info.get lvalue = [])
    (untyped : operator = .append → sameNoCase lvalue typeName → info.get lvalue = []) (name : Text) :
    (info.assign lvalue rvalue (operator = .append)).get name =
      Function.update info.get lvalue (operator.apply (info.get lvalue) rvalue) name := by
  rw [Function.update_apply, assign]
  by_cases isType : sameNoCase lvalue typeName = true
  · rw [if_pos isType]
    have value : operator.apply (info.get lvalue) rvalue = rvalue := by
      cases operator with
      | assign => rfl
      | append => rw [Operator.apply, if_pos (untyped rfl isType)]
    rw [value]
    exact get_setVar info lvalue rvalue name
  · rw [if_neg isType]
    cases operator with
    | append =>
        rw [if_pos (by decide), Operator.apply]
        by_cases nothing : info.get lvalue = []
        · rw [if_neg (by rw [isset_eq_true]; exact fun some => some nothing), if_pos nothing]
          exact get_setVar info lvalue rvalue name
        · rw [if_pos ((isset_eq_true info lvalue).mpr nothing), if_neg nothing]
          exact get_setVar info lvalue _ name
    | assign =>
        rw [if_neg (by decide), Operator.apply]
        by_cases empty : rvalue = []
        · rw [if_pos empty, empty, get_eraseVar]
          have already := unset rfl empty (by simpa using isType)
          by_cases same : name = lvalue
          · rw [if_pos same, same, already]
            exact ite_self _
          · rw [if_neg same]
            split
            · next isEmpty => rw [isEmpty, unnamed]
            · rfl
        · rw [if_neg empty]
          exact get_setVar info lvalue rvalue name

theorem assign_type (info : SourceInfo) (lvalue rvalue : Text) (concat : Bool) :
    (info.assign lvalue rvalue concat).type =
      if sameNoCase lvalue typeName then typeOf rvalue else info.type := by
  rw [assign]
  split
  · rfl
  · split
    · split
      · rfl
      · rfl
    · split
      · rfl
      · rfl

theorem assign_dependsSet (info : SourceInfo) (lvalue rvalue : Text) (concat : Bool) :
    (info.assign lvalue rvalue concat).dependsSet = info.dependsSet := by
  rw [assign]
  split
  · rfl
  · split
    · split
      · rfl
      · rfl
    · split
      · rfl
      · rfl

end SourceInfo

/-- The object holds the variables of the reference interpretation. -/
structure Holds (info : SourceInfo) (reference : Text → Text) (last : SourceType) : Prop where
  values : ∀ name, info.get name = reference name
  unnamed : reference [] = []
  depends : info.dependsSet = (whiteTokens (reference SourceInfo.dependsName)).toFinset
  type : info.type = last

theorem sameNoCase_refl (text : Text) : sameNoCase text text = true := decide_eq_true rfl

theorem not_sameNoCase {text first second : Text} (same : sameNoCase text first = true)
    (different : sameNoCase first second = false) : sameNoCase text second = false := by
  rw [sameNoCase, decide_eq_true_iff] at same
  rw [sameNoCase, decide_eq_false_iff_not] at different ⊢
  rwa [same]

/-- An assignment that is executed as it is meant. -/
theorem Holds.set {info : SourceInfo} {context : Context}
    (holds : Holds info context.reference.values context.type) (line : Assignment)
    (executable : context.executable line = true) :
    ∃ next, info.set line.lvalue line.rvalue (line.operator = .append) = .ok next ∧
      Holds next
        (Function.update context.reference.values line.lvalue
          (line.operator.apply (context.reference.values line.lvalue) line.rvalue))
        (if sameNoCase line.lvalue SourceInfo.typeName then SourceInfo.typeOf line.rvalue
          else context.type) := by
  rw [Context.executable, decide_eq_true_iff] at executable
  obtain ⟨_, unset, untyped, depends, privateDirs, root⟩ := executable
  have sameValues : info.get = context.reference.values := funext holds.values
  rw [← sameValues] at unset untyped
  have values : ∀ name, (info.assign line.lvalue line.rvalue (line.operator = .append)).get name =
      Function.update context.reference.values line.lvalue
        (line.operator.apply (context.reference.values line.lvalue) line.rvalue) name := by
    intro name
    rw [← sameValues]
    exact SourceInfo.assign_get ((holds.values []).trans holds.unnamed) unset untyped name
  have unnamed : Function.update context.reference.values line.lvalue
      (line.operator.apply (context.reference.values line.lvalue) line.rvalue) [] = [] := by
    rw [Function.update_of_ne (Ne.symm line.lvalueNonempty), holds.unnamed]
  have type : (info.assign line.lvalue line.rvalue (line.operator = .append)).type =
      if sameNoCase line.lvalue SourceInfo.typeName then SourceInfo.typeOf line.rvalue
        else context.type := by
    rw [SourceInfo.assign_type, holds.type]
  rw [SourceInfo.set]
  by_cases isDepends : sameNoCase line.lvalue SourceInfo.dependsName = true
  · obtain ⟨capitals, allPlain⟩ := depends isDepends
    have plain := List.all_iff_forall_prop.mp allPlain
    have titles := titles_eq line.rvalueInLine line.rvalueTrimmed plain
    refine ⟨_, if_pos isDepends, values, unnamed, ?_, type⟩
    rw [capitals, Function.update_self]
    cases operator : line.operator with
    | assign =>
        rw [Operator.apply, ← titles]
        rfl
    | append =>
        rw [whiteTokens_apply, ← holds.depends, ← titles,
          ← SourceInfo.assign_dependsSet info SourceInfo.dependsName line.rvalue
            (Operator.append = .append)]
        rfl
  · have otherName : SourceInfo.dependsName ≠ line.lvalue := by
      intro same
      exact isDepends (same ▸ sameNoCase_refl _)
    have dependsKept : info.dependsSet = (whiteTokens (Function.update context.reference.values line.lvalue
        (line.operator.apply (context.reference.values line.lvalue) line.rvalue)
        SourceInfo.dependsName)).toFinset := by
      rw [Function.update_of_ne otherName, holds.depends]
    have assigned : Holds (info.assign line.lvalue line.rvalue (line.operator = .append))
        (Function.update context.reference.values line.lvalue
          (line.operator.apply (context.reference.values line.lvalue) line.rvalue))
        (if sameNoCase line.lvalue SourceInfo.typeName then SourceInfo.typeOf line.rvalue
          else context.type) :=
      ⟨values, unnamed, (SourceInfo.assign_dependsSet ..).trans dependsKept, type⟩
    simp only [if_neg isDepends]
    by_cases isPrivate : sameNoCase line.lvalue SourceInfo.privateDirsName = true
    · have notType := not_sameNoCase isPrivate
        (by decide : sameNoCase SourceInfo.privateDirsName SourceInfo.typeName = false)
      have project : (info.assign line.lvalue line.rvalue (line.operator = .append)).type = .project := by
        rw [type, notType]
        exact privateDirs isPrivate
      rw [if_pos isPrivate, if_pos project]
      exact ⟨_, rfl, assigned.values, assigned.unnamed, assigned.depends, assigned.type⟩
    · rw [if_neg isPrivate]
      by_cases isRoot : sameNoCase line.lvalue SourceInfo.rootName = true
      · have notType := not_sameNoCase isRoot
          (by decide : sameNoCase SourceInfo.rootName SourceInfo.typeName = false)
        obtain ⟨noProgram, noLibrary, noMulti⟩ := root isRoot
        have notPart : (info.assign line.lvalue line.rvalue (line.operator = .append)).isPart = false := by
          rw [SourceInfo.isPart, type, notType]
          simp [noProgram, noLibrary, noMulti]
        rw [notPart, if_neg (by simp)]
        exact ⟨_, rfl, assigned⟩
      · rw [if_neg fun both => isRoot both.2]
        exact ⟨_, rfl, assigned⟩

/-! ## Whole files -/

/-- The reader and the reference interpretation are at the same point of a file. -/
structure Agrees (reader : Reader) (context : Context) : Prop where
  holds : Holds reader.info context.reference.values context.type
  current : reader.currentSection = context.tag
  sections : reader.currentSectionsSet = context.named.toFinset
  outside : context.reference.machines = none → context.tag = Reader.commonName
  inside : ∀ names, context.reference.machines = some names → names ⊆ context.named

theorem Agrees.targeted {reader : Reader} {context : Context} (agrees : Agrees reader context)
    (targetMachine : Text) :
    reader.targeted targetMachine = true ↔
      context.tag = Reader.commonName ∨ targetMachine ∈ context.named := by
  rw [Reader.targeted, decide_eq_true_iff, agrees.current, agrees.sections, List.mem_toFinset]

theorem Agrees.targeted_of_active {reader : Reader} {context : Context} (agrees : Agrees reader context)
    {targetMachine : Text} (active : context.reference.active targetMachine = true) :
    reader.targeted targetMachine = true := by
  rw [agrees.targeted]
  rw [Reference.active] at active
  cases machines : context.reference.machines with
  | none => exact .inl (agrees.outside machines)
  | some names =>
      rw [machines] at active
      exact .inr (agrees.inside names machines (of_decide_eq_true active))

/-- Every line that fits is read as it is meant. -/
theorem Agrees.read {reader : Reader} {context : Context} (agrees : Agrees reader context)
    {targetMachine : Text} {content : Content} (fits : context.fits targetMachine content = true) :
    ∃ next, content.read targetMachine reader = .ok next ∧
      Agrees next (context.step targetMachine content) := by
  cases content with
  | comment text inLine trimmed =>
      exact ⟨reader, rfl, agrees.holds, agrees.current, agrees.sections, agrees.outside, agrees.inside⟩
  | openSection line =>
      refine ⟨_, rfl, agrees.holds, rfl, ?_, ?_, ?_⟩
      · rw [agrees.sections]
        exact List.toFinset_append.symm
      · intro closed
        cases closed
      · intro names isOpen
        rw [← Option.some.inj isOpen]
        exact List.subset_append_right _ _
  | endSection =>
      refine ⟨_, rfl, agrees.holds, rfl, rfl, fun _ => rfl, ?_⟩
      intro names isOpen
      cases isOpen
  | assignment line =>
      rw [Context.fits] at fits
      by_cases active : context.reference.active targetMachine = true
      · rw [if_pos active] at fits
        have executable := fits
        rw [Context.executable, decide_eq_true_iff] at executable
        obtain ⟨info, assigned, holds⟩ := agrees.holds.set line fits
        refine ⟨{ reader with info }, ?_, ?_⟩
        · rw [Content.read, if_pos (agrees.targeted_of_active active),
            execute_assignment reader line executable.1, assigned]
          rfl
        · rw [Context.step, Reference.step]
          simp only [active, if_true, true_and]
          by_cases isType : sameNoCase line.lvalue SourceInfo.typeName = true
          · rw [if_pos isType] at holds ⊢
            exact ⟨holds, agrees.current, agrees.sections, agrees.outside, agrees.inside⟩
          · rw [if_neg isType] at holds ⊢
            exact ⟨holds, agrees.current, agrees.sections, agrees.outside, agrees.inside⟩
      · rw [if_neg active, decide_eq_true_iff] at fits
        have skipped : ¬ reader.targeted targetMachine = true := by
          rw [agrees.targeted, not_or]
          exact fits
        refine ⟨reader, if_neg skipped, ?_⟩
        rw [Context.step, Reference.step]
        simp only [active, false_and, if_false, Bool.false_eq_true]
        exact agrees

theorem step_reference (targetMachine : Text) (context : Context) (content : Content) :
    (context.step targetMachine content).reference = context.reference.step targetMachine content := by
  cases content with
  | comment text inLine trimmed => rfl
  | openSection line => rfl
  | endSection => rfl
  | assignment line =>
      rw [Context.step]
      split
      · rfl
      · rfl

theorem Agrees.readContents {targetMachine : Text} {contents : List Content} {reader : Reader}
    {context : Context} (agrees : Agrees reader context)
    (fits : context.allFit targetMachine contents = true) :
    ∃ final type, QCBuild.readContents targetMachine reader contents = .ok final ∧
      Holds final.info (contents.foldl (Reference.step targetMachine) context.reference).values type := by
  induction contents generalizing reader context with
  | nil => exact ⟨reader, context.type, rfl, agrees.holds⟩
  | cons content contents ih =>
      rw [Context.allFit, Bool.and_eq_true] at fits
      obtain ⟨next, read, nextAgrees⟩ := agrees.read fits.1
      obtain ⟨final, type, readRest, holds⟩ := ih nextAgrees fits.2
      refine ⟨final, type, ?_, ?_⟩
      · rw [QCBuild.readContents, read]
        exact readRest
      · rw [List.foldl_cons, ← step_reference]
        exact holds

theorem start_agrees (info : SourceInfo) :
    Agrees { info := info.clear, currentSection := Reader.commonName, currentSectionsSet := ∅ }
      Context.start where
  holds := ⟨fun _ => rfl, rfl, rfl, rfl⟩
  current := rfl
  sections := rfl
  outside := fun _ => rfl
  inside := fun names isOpen => by cases isOpen

/-- The last assignment, which `loadFromFile` makes itself. -/
theorem Holds.setCompDir {info : SourceInfo} {values : Text → Text} {type : SourceType}
    (holds : Holds info values type) {currentDir : Text}
    (known : currentDir ≠ [] ∨ values SourceInfo.compDirName = []) :
    ∃ result, info.set SourceInfo.compDirName currentDir false = .ok result ∧
      (∀ name, result.get name = Function.update values SourceInfo.compDirName currentDir name) ∧
      result.dependsSet = (whiteTokens (result.get SourceInfo.dependsName)).toFinset := by
  have sameValues : info.get = values := funext holds.values
  have plain : info.set SourceInfo.compDirName currentDir false =
      .ok (info.assign SourceInfo.compDirName currentDir false) := by
    rw [SourceInfo.set, if_neg (by decide), if_neg (by decide), if_neg]
    rintro ⟨_, isRoot⟩
    exact absurd isRoot (by decide)
  have assigned : ∀ name, (info.assign SourceInfo.compDirName currentDir false).get name =
      Function.update values SourceInfo.compDirName currentDir name := by
    intro name
    rw [← sameValues]
    have unset : Operator.assign = .assign → currentDir = [] →
        sameNoCase SourceInfo.compDirName SourceInfo.typeName = false →
        info.get SourceInfo.compDirName = [] := by
      intro _ nothing _
      rw [sameValues]
      exact known.resolve_left fun something => something nothing
    exact SourceInfo.assign_get ((holds.values []).trans holds.unnamed) unset
      (fun isAppend => by cases isAppend) name
  refine ⟨_, plain, assigned, ?_⟩
  rw [SourceInfo.assign_dependsSet, holds.depends, assigned, Function.update_of_ne (by decide)]

/-- `loadFromFile` keeps to the reference interpretation for every file that fits. -/
theorem loadFromFile_interprets (info : SourceInfo) (targetMachine currentDir : Text)
    (document : Document) (fits : document.fits targetMachine currentDir = true) :
    Interprets info targetMachine currentDir document := by
  rw [Document.fits, decide_eq_true_iff] at fits
  obtain ⟨final, type, read, holds⟩ := (start_agrees info).readContents fits.1
  obtain ⟨result, last, values, depends⟩ := holds.setCompDir fits.2
  refine ⟨result, ?_, values, depends⟩
  rw [loadFromFile_document, read]
  exact last

/-- No white space. -/
def noBlanks : Blanks := ⟨[], by simp [InLine], by simp⟩

def oneBlank : Blanks := ⟨[' '], by simp [InLine, isEol], by simp [isSpace]⟩

/-- `DEPENDS = A` -/
def dependsOnA : Assignment where
  lvalue := SourceInfo.dependsName
  gap := oneBlank
  operator := .assign
  gapAfter := oneBlank
  rvalue := ['A']
  lvalueInLine := by simp [InLine, SourceInfo.dependsName, isEol]
  lvalueTrimmed := by decide
  lvalueNonempty := by decide
  noOperator := by decide
  notSpecial := by simp [SourceInfo.dependsName]
  notPlus := by decide
  rvalueInLine := by simp [InLine, isEol]
  rvalueTrimmed := by decide
  gapNeeded := by decide

/-- `DEPENDS += B` -/
def alsoOnB : Assignment :=
  { dependsOnA with
    operator := .append
    rvalue := ['B']
    notPlus := by decide
    rvalueInLine := by simp [InLine, isEol]
    rvalueTrimmed := by decide
    gapNeeded := by decide }

/-- `DEPENDS =` -/
def dependsOnNothing : Assignment :=
  { dependsOnA with
    gapAfter := noBlanks
    rvalue := []
    rvalueInLine := by simp [InLine]
    rvalueTrimmed := by decide
    gapNeeded := fun _ => rfl }

/-- `.section Linux` -/
def linuxSection : SectionLine where
  separator := oneBlank
  single := rfl
  first :=
    { before := noBlanks
      name := ['L', 'i', 'n', 'u', 'x']
      inLine := by simp [InLine, isEol]
      trimmed := by decide
      nonempty := by decide
      noComma := by decide }
  others := []

/-- A component that needs one more component on Linux. -/
def linuxNeedsMore : Document where
  lines := [(.content noBlanks (.assignment dependsOnA) oneBlank, .lf),
    (.content noBlanks (.openSection linuxSection) noBlanks, .crlf), (.blank oneBlank, .lf),
    (.content oneBlank (.assignment alsoOnB) noBlanks, .lf)]
  last := .content noBlanks .endSection noBlanks

/-- An object before the first call of `loadFromFile`. -/
def noInfo : SourceInfo where
  type := .unknown
  dependsResolved := false
  vars _ := none
  dependsSet := ∅
  privateDirsSet := ∅

theorem linuxNeedsMore_interprets :
    linuxNeedsMore.fits ['L', 'i', 'n', 'u', 'x'] ['/'] = true ∧
      linuxNeedsMore.variables ['L', 'i', 'n', 'u', 'x'] ['/'] SourceInfo.dependsName = ['A', ' ', 'B'] ∧
      Interprets noInfo ['L', 'i', 'n', 'u', 'x'] ['/'] linuxNeedsMore := by
  have fits : linuxNeedsMore.fits ['L', 'i', 'n', 'u', 'x'] ['/'] = true := by decide
  exact ⟨fits, by decide, loadFromFile_interprets noInfo _ _ linuxNeedsMore fits⟩

/-- `DEPENDS` is set and unset again. -/
def unsetDepends : Document where
  lines := [(.content noBlanks (.assignment dependsOnA) noBlanks, .lf)]
  last := .content noBlanks (.assignment dependsOnNothing) noBlanks

/-- The variable keeps its value, and the set of needed components is empty. -/
theorem unsetDepends_not_interpreted :
    ¬ ∀ (info : SourceInfo) (targetMachine currentDir : Text) (document : Document),
      Interprets info targetMachine currentDir document := by
  intro interprets
  obtain ⟨result, loaded, values, depends⟩ := interprets noInfo ['L', 'i', 'n', 'u', 'x'] ['/'] unsetDepends
  have kept : (noInfo.loadFromFile ['L', 'i', 'n', 'u', 'x'] ['/'] (some unsetDepends.text)).toOption.map
      (SourceInfo.get · SourceInfo.dependsName) = some ['A'] := by decide
  rw [loaded] at kept
  have unset : result.get SourceInfo.dependsName = [] := (values SourceInfo.dependsName).trans (by decide)
  have value : result.get SourceInfo.dependsName = ['A'] := Option.some.inj kept
  exact absurd (unset.symm.trans value) (by decide)

end Tegenaria.QCBuild
