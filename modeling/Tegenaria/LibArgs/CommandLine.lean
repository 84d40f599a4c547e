import Tegenaria.LibArgs.Args
import Tegenaria.LibStr.QuotedTokens

/-!
# Command strings

`ArgsParse` for a command string cuts the string into arguments first.  The cut is made
in the caller's string, by the tokenizer for quoted words, with both kinds of quotation
marks alike.
-/

namespace Tegenaria.LibArgs

open LibStr

def whiteSpace : Text := [' ', '\t', '\n', '\r']

def quotationMarks : Text := ['"', '\'']

/-- The results of `ArgsAlloc`: the arguments behind the empty place for the name of the
program, and the command string afterwards. -/
structure Allocated where
  argc : Nat
  args : List Text
  cmd : Text

def argsAlloc (cmd : Text) : Allocated :=
  let result := strTokenizePointers cmd whiteSpace quotationMarks
  { argc := result.1.length + 1, args := pointedTokens result, cmd := result.2 }

section Parse

variable {Double Single : Type} (numbers : NumberReader Double Single)

/-- `ArgsParse` for a command string. -/
def argsParseString (table : List ArgsObj) (cmd : Text) (targets : Targets Double Single) :
    ParseResult Double Single :=
  let result := argsParse numbers table (argsAlloc cmd).args targets
  { result with exitCode := result.exitCode.map fun code => if code = 0 then 0 else -1 }

end Parse

/-! ## Writing arguments -/

/-- An argument as it is written: quotation marks may stand around white space and
marks of the other kind, or around nothing. -/
inductive Argument where
  | bare (text : Text) (nonempty : text ≠ [])
      (plain : ∀ letter ∈ text, letter ∉ whiteSpace ∧ letter ∉ quotationMarks ∧ letter ≠ '\x00')
  | quoted (mark : Char) (isMark : mark ∈ quotationMarks) (content : Text)
      (plain : ∀ letter ∈ content, letter ≠ mark ∧ letter ≠ '\x00')

namespace Argument

def content : Argument → Text
  | bare text _ _ => text
  | quoted _ _ content _ => content

def written : Argument → Text
  | bare text _ _ => text
  | quoted mark _ content _ => mark :: content ++ [mark]

end Argument

/-- White space between two arguments. -/
structure Blanks where
  first : Char
  rest : Text
  blank : ∀ letter ∈ first :: rest, letter ∈ whiteSpace

/-- A command string: white space, arguments with white space behind them, and perhaps a
last argument with nothing behind it. -/
structure Command where
  leading : Text
  blank : ∀ letter ∈ leading, letter ∈ whiteSpace
  closed : List (Argument × Blanks)
  last : Option Argument

namespace Command

def text (command : Command) : Text :=
  command.leading ++
    (command.closed.flatMap fun pair => pair.1.written ++ pair.2.first :: pair.2.rest) ++
    (command.last.map Argument.written).getD []

def arguments (command : Command) : List Text :=
  command.closed.map (fun pair => pair.1.content) ++ (command.last.map Argument.content).toList

end Command

/-- The command string is parsed like the list of its arguments. -/
structure ParsedAlike {Double Single : Type} (numbers : NumberReader Double Single)
    (command : Command) : Prop where
  argc : (argsAlloc command.text).argc = command.arguments.length + 1
  args : (argsAlloc command.text).args = command.arguments
  unchanged : (argsAlloc command.text).cmd = command.text
  alike : ∀ table targets,
    (argsParseString numbers table command.text targets).exitCode =
        (argsParse numbers table command.arguments targets).exitCode ∧
      (argsParseString numbers table command.text targets).targets =
        (argsParse numbers table command.arguments targets).targets

/-! ## The cut string -/

section Cut

variable {β : Type} {store : TokenStore β} {delims delimsExtra seen rest : Text} {begin : Nat}
  {letter : Char}

/-- A mark outside of quotation marks opens a quotation. -/
theorem tokenizeFrom_mark (isMark : letter ∈ delimsExtra) : ∃ later,
    tokenizeFrom store delims delimsExtra seen (letter :: rest) begin false =
      tokenizeFrom store delims delimsExtra (seen ++ [letter]) rest later true := by
  rw [tokenizeFrom, List.length_cons, tokenizeInto]
  simp only [isMark, true_and, if_true, Bool.false_eq_true, and_false, if_false, Bool.not_false,
    Bool.true_eq_false, false_and]
  exact ⟨_, rfl⟩

theorem zero_mem_seen (zero : '\x00' ∈ seen) {quoted : Bool} :
    '\x00' ∈ (tokenizeFrom store delims delimsExtra seen rest begin quoted).2 :=
  (tokenizeFrom_extends store delims delimsExtra seen rest begin quoted).subset zero

/-- A delimiter behind letters of a token is overwritten. -/
theorem zero_mem_delim {letters : Text}
    (plain : ∀ other ∈ letters, other ∉ delims ∧ other ∉ delimsExtra) (separates : letter ∈ delims)
    (notMark : letter ∉ delimsExtra) :
    '\x00' ∈ (tokenizeFrom store delims delimsExtra seen (letters ++ letter :: rest) begin false).2 := by
  rw [tokenizeFrom_letters (fun other member => (plain other member).2)
    (.inr fun other member => (plain other member).1), tokenizeFrom_delim notMark separates]
  exact zero_mem_seen (by simp)

/-- The first mark in a quotation is overwritten. -/
theorem zero_mem_quoted (noZero : '\x00' ∉ delims) (closes : ∃ other ∈ rest, other ∈ delimsExtra) :
    '\x00' ∈ (tokenizeFrom store delims delimsExtra seen rest begin true).2 := by
  induction rest generalizing seen with
  | nil => simp at closes
  | cons first rest ih =>
      by_cases isMark : first ∈ delimsExtra
      · rw [tokenizeFrom_close isMark noZero]
        exact zero_mem_seen (by simp)
      · rw [tokenizeFrom_letter isMark (.inl rfl)]
        refine ih ?_
        obtain ⟨other, member, inMarks⟩ := closes
        rcases List.mem_cons.mp member with rfl | later
        · exact absurd inMarks isMark
        · exact ⟨other, later, inMarks⟩

end Cut

theorem marks_not_white : ∀ mark ∈ quotationMarks, mark ∉ whiteSpace := by
  simp [quotationMarks, whiteSpace]

/-- Blank or quoted letters of a command string do not survive. -/
theorem zero_mem_allocated (command : Command)
    (special : ∃ letter ∈ command.text, letter ∈ whiteSpace ∨ letter ∈ quotationMarks) :
    '\x00' ∈ (tokenizeFrom pointers whiteSpace quotationMarks [] command.text 0 false).2 := by
  have notMark : ∀ {letter}, letter ∈ whiteSpace → letter ∉ quotationMarks := fun white isMark =>
    marks_not_white _ isMark white
  have argument : ∀ (first : Argument) (behind : Text),
      (behind = [] ∨ ∃ blank rest, behind = blank :: rest ∧ blank ∈ whiteSpace) →
      (∃ letter ∈ first.written ++ behind, letter ∈ whiteSpace ∨ letter ∈ quotationMarks) →
      '\x00' ∈ (tokenizeFrom pointers whiteSpace quotationMarks [] (first.written ++ behind) 0
        false).2 := by
    intro first behind ends found
    cases first with
    | bare text nonempty plain =>
        have visible : ∀ letter ∈ text, letter ∉ whiteSpace ∧ letter ∉ quotationMarks :=
          fun letter member => ⟨(plain letter member).1, (plain letter member).2.1⟩
        rcases ends with rfl | ⟨blank, rest, rfl, white⟩
        · obtain ⟨letter, member, isSpecial⟩ := found
          rw [List.append_nil] at member
          exact absurd isSpecial (not_or.mpr (visible letter member))
        · exact zero_mem_delim visible white (notMark white)
    | quoted mark isMark content plain =>
        obtain ⟨later, opened⟩ := @tokenizeFrom_mark _ pointers whiteSpace quotationMarks []
          (content ++ [mark] ++ behind) 0 mark isMark
        rw [Argument.written, List.cons_append, List.cons_append, opened]
        exact zero_mem_quoted (by decide) ⟨mark, by simp, isMark⟩
  obtain ⟨leading, blank, closed, last⟩ := command
  cases leading with
  | cons first leading =>
      have white := blank first (List.mem_cons_self ..)
      rw [Command.text, List.cons_append, List.cons_append]
      exact @zero_mem_delim _ pointers whiteSpace quotationMarks [] _ 0 first [] (by simp) white
        (notMark white)
  | nil =>
      cases closed with
      | cons pair closed =>
          obtain ⟨first, gap⟩ := pair
          have shape : Command.text ⟨[], blank, (first, gap) :: closed, last⟩ =
              first.written ++ gap.first :: (gap.rest ++
                (closed.flatMap fun pair => pair.1.written ++ pair.2.first :: pair.2.rest) ++
                (last.map Argument.written).getD []) := by
            simp [Command.text]
          rw [shape] at special ⊢
          exact argument first _ (.inr ⟨_, _, rfl, gap.blank _ (List.mem_cons_self ..)⟩) special
      | nil =>
          cases last with
          | none => simp [Command.text] at special
          | some last =>
              have shape : Command.text ⟨[], blank, [], some last⟩ = last.written ++ [] := by
                simp [Command.text]
              rw [shape] at special ⊢
              exact argument last [] (.inl rfl) special

theorem Command.text_plain (command : Command) : '\x00' ∉ command.text := by
  have notZero : ∀ letter ∈ whiteSpace, letter ≠ '\x00' := by simp [whiteSpace]
  have argument : ∀ argument : Argument, '\x00' ∉ argument.written := by
    intro argument member
    cases argument with
    | bare text nonempty plain => exact (plain _ member).2.2 rfl
    | quoted mark isMark content plain =>
        have markPlain : ∀ mark ∈ quotationMarks, mark ≠ '\x00' := by simp [quotationMarks]
        simp only [Argument.written, List.mem_append, List.mem_cons, List.not_mem_nil, or_false,
          (markPlain mark isMark).symm, false_or] at member
        exact (plain _ member).2 rfl
  simp only [text, List.mem_append, List.mem_flatMap, not_or, not_exists, not_and]
  refine ⟨⟨fun member => notZero _ (command.blank _ member) rfl, fun pair _ => ⟨argument pair.1, ?_⟩⟩, ?_⟩
  · exact fun member => notZero _ (pair.2.blank _ member) rfl
  · cases command.last with
    | none => simp
    | some last => exact argument last

/-- A string without white space and quotation marks is cut nowhere. -/
theorem argsAlloc_visible {text : Text} (noZero : '\x00' ∉ text)
    (visible : ∀ letter ∈ text, letter ∉ whiteSpace ∧ letter ∉ quotationMarks) :
    (argsAlloc text).args = (if text = [] then [] else [text]) ∧ (argsAlloc text).cmd = text := by
  have cut : strTokenizePointers text whiteSpace quotationMarks =
      (if text = [] then [] else [0], text) := by
    have letters := @tokenizeFrom_letters _ pointers whiteSpace quotationMarks [] [] 0 false text
      (fun letter member => (visible letter member).2) (.inr fun letter member => (visible letter member).1)
    rw [List.append_nil, List.nil_append] at letters
    rw [strTokenizePointers, cStr_of_notMem noZero, letters]
    cases text with
    | nil => rfl
    | cons first rest => rfl
  rw [argsAlloc, cut]
  by_cases nothing : text = []
  · simp [nothing, pointedTokens]
  · simp [nothing, pointedTokens, cStr_of_notMem noZero]

theorem Command.arguments_visible (command : Command)
    (visible : ∀ letter ∈ command.text, letter ∉ whiteSpace ∧ letter ∉ quotationMarks) :
    command.arguments = if command.text = [] then [] else [command.text] := by
  obtain ⟨leading, blank, closed, last⟩ := command
  cases leading with
  | cons first leading =>
      exact absurd (blank first (List.mem_cons_self ..)) (visible first (by simp [text])).1
  | nil =>
      cases closed with
      | cons pair closed =>
          exact absurd (pair.2.blank _ (List.mem_cons_self ..))
            (visible pair.2.first (by simp [text])).1
      | nil =>
          cases last with
          | none => simp [arguments, text]
          | some last =>
              cases last with
              | bare word nonempty plain =>
                  simp [arguments, text, Argument.written, Argument.content, nonempty]
              | quoted mark isMark content plain =>
                  exact absurd isMark (visible mark (by simp [text, Argument.written])).2

section Main

variable {Double Single : Type} {numbers : NumberReader Double Single}

/-- Equal arguments are parsed alike. -/
theorem argsParseString_eq {cmd : Text} {args : List Text} (cut : (argsAlloc cmd).args = args)
    (table : List ArgsObj) (targets : Targets Double Single) :
    (argsParseString numbers table cmd targets).exitCode =
        (argsParse numbers table args targets).exitCode ∧
      (argsParseString numbers table cmd targets).targets =
        (argsParse numbers table args targets).targets := by
  subst cut
  refine ⟨?_, rfl⟩
  have code : (argsParse numbers table (argsAlloc cmd).args targets).exitCode ∈
      [none, some 0, some (-1)] := parseLoop_code _ _ _ _
  rw [argsParseString]
  simp only [List.mem_cons, List.not_mem_nil, or_false] at code
  rcases code with code | code | code
  · rw [code, Option.map_none]
  · rw [code, Option.map_some, if_pos rfl]
  · rw [code, Option.map_some, if_neg (by decide)]

/-- A command string is parsed like its arguments, and left unchanged, exactly if there
is neither white space nor a quotation mark in it. -/
theorem argsParseString_alike_iff (command : Command) :
    ParsedAlike numbers command ↔
      ∀ letter ∈ command.text, letter ∉ whiteSpace ∧ letter ∉ quotationMarks := by
  constructor
  · intro alike
    by_contra special
    have overwritten := zero_mem_allocated command (by simpa [or_iff_not_imp_left] using special)
    have unchanged := alike.unchanged
    rw [argsAlloc, strTokenizePointers, cStr_of_notMem command.text_plain] at unchanged
    dsimp only at unchanged
    rw [unchanged] at overwritten
    exact command.text_plain overwritten
  · intro visible
    obtain ⟨args, cmd⟩ := argsAlloc_visible command.text_plain visible
    rw [← command.arguments_visible visible] at args
    refine ⟨?_, args, cmd, argsParseString_eq args⟩
    rw [← args, argsAlloc, pointedTokens]
    simp

end Main

/-! ## Well quoted commands -/

/-- The white space and the marks of a command string. -/
def commandSets : Punctuation where
  delims := whiteSpace
  marks := quotationMarks
  disjoint := marks_not_white
  delimsPlain := by decide
  marksPlain := by decide

/-- Words that are not empty and have no marks inside are found in a command string that
does not start with white space, though the string is changed. -/
theorem argsParseString_words {Double Single : Type} (numbers : NumberReader Double Single)
    (sentence : Sentence commandSets) (table : List ArgsObj) (targets : Targets Double Single) :
    (argsAlloc sentence.written).args = sentence.contents ∧
      (argsParseString numbers table sentence.written targets).exitCode =
        (argsParse numbers table sentence.contents targets).exitCode ∧
      (argsParseString numbers table sentence.written targets).targets =
        (argsParse numbers table sentence.contents targets).targets := by
  have cut : (argsAlloc sentence.written).args = sentence.contents := strTokenizePointers_words sentence
  exact ⟨cut, argsParseString_eq cut table targets⟩

/-- White space between arguments is overwritten; white space before the first one is
taken for an empty argument, and a mark of the other kind ends a quotation. -/
theorem argsAlloc_changes :
    (argsAlloc "a b".toList).cmd = "a\x00b".toList ∧
      (argsAlloc " a".toList).args = [[], "a".toList] ∧
      (argsAlloc "\"it's\"".toList).args = ["it".toList] := by
  decide

end Tegenaria.LibArgs
