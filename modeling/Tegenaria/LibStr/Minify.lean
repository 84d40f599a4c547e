import Tegenaria.LibStr.Pattern

/-!
# `StrMinifyCode`

A scanner with five states walks through source code and drops the comments, and redundant
white space if asked to.  Its index is an `int` that is moved over whole markers, and back
at the end of a line comment.
-/

namespace Tegenaria.LibStr

open Foundation Foundation.Loop Foundation.Word

inductive MinifierState where
  | code
  | singleComment
  | multiComment
  | singleString
  | doubleString
deriving DecidableEq

structure Minifier where
  i : Int
  state : MinifierState
  lastChar : Option UInt8
  rv : Chars

/-- A call of `StrMinifyCode`. -/
structure MinifierArgs where
  code : Chars
  singleComment : Option CString
  multiCommentBegin : Option CString
  multiCommentEnd : Option CString
  removeWhites : Bool

def markerSize : Option CString → Int
  | some marker => intLength marker
  | none => -1

/-- `strncmp(s1, s2, size) == 0`, with the size as a `size_t`. -/
def strncmpEqual (s1 s2 : Chars) (size : Int) : Bool :=
  (Terminator.visible 0 s1 ++ [0]).take (size % 2 ^ 64).toNat =
    (Terminator.visible 0 s2 ++ [0]).take (size % 2 ^ 64).toNat

def standsAt (src : Chars) : Option CString → Bool
  | some marker => strncmpEqual src marker.chars (intLength marker)
  | none => false

/-- The state of the scanner inside a string, by its quotation mark. -/
def stringState (quote : UInt8) : MinifierState := if quote = 34 then .doubleString else .singleString

def isLineBreak (letter : UInt8) : Bool := letter = 10 || letter = 13

/-- The `switch` over the state: the index, the new state and `appendToResult`. -/
def minifySwitch (args : MinifierArgs) (minifier : Minifier) (currentChar : UInt8) (src : Chars) :
    Int × MinifierState × Bool :=
  match minifier.state with
  | .code =>
      if standsAt src args.singleComment then
        (toI32 (minifier.i + (markerSize args.singleComment - 1)), .singleComment, false)
      else if standsAt src args.multiCommentBegin then (minifier.i, .multiComment, false)
      else if currentChar = 34 then (minifier.i, .doubleString, true)
      else if currentChar = 39 then (minifier.i, .singleString, true)
      else (minifier.i, .code, true)
  | .singleComment =>
      if isLineBreak currentChar then (toI32 (minifier.i - 1), .code, false)
      else (minifier.i, .singleComment, false)
  | .multiComment =>
      if standsAt src args.multiCommentEnd then
        (toI32 (minifier.i + (markerSize args.multiCommentEnd - 1)), .code, false)
      else (minifier.i, .multiComment, false)
  | .doubleString =>
      (minifier.i, if currentChar = 34 ∧ minifier.lastChar ≠ some 92 then .code else .doubleString, true)
  | .singleString =>
      (minifier.i, if currentChar = 39 ∧ minifier.lastChar ≠ some 92 then .code else .singleString, true)

/-- Letters that white space next to them can be dropped for: blank, tab and
`;=:\x7d\x7b()+-*/&|?,<>`. -/
def squeezers : Chars :=
  [32, 9, 59, 61, 58, 125, 123, 40, 41, 43, 45, 42, 47, 38, 124, 63, 44, 60, 62]

def isSpaceByte (letter : UInt8) : Bool := letter = 32 || (9 ≤ letter && letter ≤ 13)

/-- Redundant white space: what is appended, and whether it is. -/
def squeeze (args : MinifierArgs) (state : MinifierState) (lastChar nextChar : Option UInt8)
    (currentChar : UInt8) (appendToResult : Bool) : UInt8 × Bool :=
  if args.removeWhites ∧ state = .code then
    let currentChar := if isLineBreak currentChar then 32 else currentChar
    if isSpaceByte currentChar ∧ (lastChar.any (· ∈ squeezers) ∨ nextChar.any (· ∈ squeezers)) then
      (currentChar, false)
    else (currentChar, appendToResult)
  else (currentChar, appendToResult)

/-- One round of the loop. -/
def minifyStep (args : MinifierArgs) (minifier : Minifier) : Step Minifier Chars :=
  if minifier.i < 0 then .done minifier.rv
  else
    match args.code.drop minifier.i.toNat with
    | [] => .done minifier.rv
    | currentChar :: rest =>
        let (i, state, appendToResult) := minifySwitch args minifier currentChar (currentChar :: rest)
        let (currentChar, appendToResult) :=
          squeeze args state minifier.lastChar rest.head? currentChar appendToResult
        .next {
          i := toI32 (i + 1)
          state := state
          lastChar := if appendToResult then some currentChar else minifier.lastChar
          rv := if appendToResult then minifier.rv ++ [currentChar] else minifier.rv }

def strMinifyCode (fuel : Nat) (args : MinifierArgs) : Outcome Chars :=
  run (minifyStep args) fuel ⟨0, .code, none, []⟩

/-! ## One round -/

/-- The scanner behind the letters `pre`. -/
def scanned (pre : Chars) (state : MinifierState) (lastChar : Option UInt8) (rv : Chars) : Minifier :=
  ⟨pre.length, state, lastChar, rv⟩

section Rounds

variable {args : MinifierArgs} {pre rest rv : Chars} {state next : MinifierState}
  {lastChar : Option UInt8} {letter : UInt8}

theorem scanned_i : (scanned pre state lastChar rv).i = pre.length := rfl

theorem minifyStep_end (ended : args.code = pre) :
    minifyStep args (scanned pre state lastChar rv) = .done rv := by
  rw [minifyStep, scanned_i, if_neg (by omega), Int.toNat_natCast, ended, List.drop_length]
  rfl

/-- White space that is dropped: one of the squeezers stands next to it. -/
def droppable (lastChar nextChar : Option UInt8) : Bool :=
  lastChar.any (· ∈ squeezers) || nextChar.any (· ∈ squeezers)

/-- A line break as a blank. -/
def blank (letter : UInt8) : UInt8 := if isLineBreak letter then 32 else letter

theorem isSpaceByte_blank (letter : UInt8) : isSpaceByte (blank letter) = isSpaceByte letter := by
  rw [blank]
  split_ifs with breaks
  · rw [isLineBreak, Bool.or_eq_true, decide_eq_true_iff, decide_eq_true_iff] at breaks
    rcases breaks with rfl | rfl
    · rfl
    · rfl
  · rfl

/-- Only white space in the code is dropped or replaced. -/
theorem squeeze_inert {append : Bool} {nextChar : Option UInt8}
    (inert : append = true → args.removeWhites = true → state = .code → isSpaceByte letter = false) :
    ∃ written, squeeze args state lastChar nextChar letter append = (written, append) ∧
      (append = true → written = letter) := by
  rw [squeeze]
  by_cases active : args.removeWhites = true ∧ state = .code
  · rw [if_pos active]
    cases append with
    | false => exact ⟨_, by rw [ite_self], fun absurdity => by cases absurdity⟩
    | true =>
        have solid := inert rfl active.1 active.2
        have noBreak : isLineBreak letter = false := by
          rw [← Bool.not_eq_true]
          intro breaks
          rw [isLineBreak, Bool.or_eq_true, decide_eq_true_iff, decide_eq_true_iff] at breaks
          rcases breaks with rfl | rfl
          · cases solid
          · cases solid
        exact ⟨letter, by simp [noBreak, solid], fun _ => rfl⟩
  · exact ⟨letter, if_neg active, fun _ => rfl⟩

theorem minifyStep_letter (split : args.code = pre ++ letter :: rest)
    {switched : Int × MinifierState × Bool}
    (switch : minifySwitch args (scanned pre state lastChar rv) letter (letter :: rest) = switched)
    (inert : switched.2.2 = true → args.removeWhites = true → switched.2.1 = .code →
      isSpaceByte letter = false) :
    minifyStep args (scanned pre state lastChar rv) =
      .next {
        i := toI32 (switched.1 + 1)
        state := switched.2.1
        lastChar := if switched.2.2 then some letter else lastChar
        rv := if switched.2.2 then rv ++ [letter] else rv } := by
  obtain ⟨written, squeezed, same⟩ :=
    @squeeze_inert args switched.2.1 lastChar letter switched.2.2 rest.head? inert
  rw [minifyStep, scanned_i, if_neg (by omega), Int.toNat_natCast, split, List.drop_left]
  dsimp only
  rw [switch, scanned, squeezed]
  by_cases append : switched.2.2 = true
  · rw [same append]
  · simp only [append, Bool.false_eq_true, if_false]

/-- The index stays in the range of an `int`. -/
theorem toI32_index {index : Int} (short : args.code.length < 2 ^ 31) (lower : -1 ≤ index)
    (inside : index ≤ args.code.length) : toI32 index = index := toI32_of_fits (by omega) (by omega)

section

variable (short : args.code.length < 2 ^ 31)
include short

/-- The index goes on by one letter. -/
theorem minifyStep_on {append : Bool} (split : args.code = pre ++ letter :: rest)
    (switch : minifySwitch args (scanned pre state lastChar rv) letter (letter :: rest) =
      ((pre.length : Int), next, append))
    (inert : append = true → args.removeWhites = true → next = .code → isSpaceByte letter = false) :
    minifyStep args (scanned pre state lastChar rv) =
      .next (scanned (pre ++ [letter]) next (if append then some letter else lastChar)
        (if append then rv ++ [letter] else rv)) := by
  have length := congrArg List.length split
  rw [List.length_append, List.length_cons] at length
  have index : toI32 ((pre.length : Int) + 1) = (pre ++ [letter]).length := by
    rw [toI32_index short (by omega) (by omega), List.length_append, List.length_singleton]
    omega
  rw [minifyStep_letter split switch inert, scanned, index]

/-- The index goes back and forth at a line break. -/
theorem minifyStep_back (split : args.code = pre ++ letter :: rest)
    (switch : minifySwitch args (scanned pre state lastChar rv) letter (letter :: rest) =
      (toI32 ((pre.length : Int) - 1), next, false)) :
    minifyStep args (scanned pre state lastChar rv) = .next (scanned pre next lastChar rv) := by
  have length := congrArg List.length split
  rw [List.length_append, List.length_cons] at length
  have back : toI32 ((pre.length : Int) - 1) = pre.length - 1 := toI32_index short (by omega) (by omega)
  have index : toI32 (toI32 ((pre.length : Int) - 1) + 1) = pre.length := by
    rw [back, Int.sub_add_cancel, toI32_index short (by omega) (by omega)]
  rw [minifyStep_letter split switch (fun absurdity => absurd absurdity Bool.false_ne_true), index]
  rfl

/-- The index goes behind a marker. -/
theorem minifyStep_jump {marker : CString} (nonempty : marker.chars ≠ [])
    (split : args.code = pre ++ (marker.chars ++ rest))
    (switch : ∀ first tail, marker.chars ++ rest = first :: tail →
      minifySwitch args (scanned pre state lastChar rv) first (first :: tail) =
        (toI32 ((pre.length : Int) + (markerSize (some marker) - 1)), next, false)) :
    minifyStep args (scanned pre state lastChar rv) =
      .next (scanned (pre ++ marker.chars) next lastChar rv) := by
  have positive := List.length_pos_iff.mpr nonempty
  have length := congrArg List.length split
  rw [List.length_append, List.length_append] at length
  obtain ⟨first, tail, letters⟩ := List.exists_cons_of_ne_nil
    (List.append_ne_nil_of_left_ne_nil nonempty rest)
  have size : markerSize (some marker) = marker.chars.length := intLength_of_fits (by omega)
  have last : toI32 ((pre.length : Int) + (markerSize (some marker) - 1)) =
      pre.length + (marker.chars.length - 1) := by
    rw [size, toI32_index short (by omega) (by omega)]
  have index : toI32 (toI32 ((pre.length : Int) + (markerSize (some marker) - 1)) + 1) =
      (pre ++ marker.chars).length := by
    rw [last, toI32_index short (by omega) (by omega), List.length_append]
    omega
  rw [letters] at split
  rw [minifyStep_letter split (switch first tail letters)
    (fun absurdity => absurd absurdity Bool.false_ne_true), index]
  rfl

/-- White space in the code. -/
theorem minifyStep_white (squeezes : args.removeWhites = true) (split : args.code = pre ++ letter :: rest)
    (white : isSpaceByte letter = true)
    (switch : minifySwitch args (scanned pre .code lastChar rv) letter (letter :: rest) =
      ((pre.length : Int), .code, true)) :
    minifyStep args (scanned pre .code lastChar rv) =
      .next (if droppable lastChar rest.head? then scanned (pre ++ [letter]) .code lastChar rv
        else scanned (pre ++ [letter]) .code (some (blank letter)) (rv ++ [blank letter])) := by
  have length := congrArg List.length split
  rw [List.length_append, List.length_cons] at length
  have index : toI32 ((pre.length : Int) + 1) = (pre ++ [letter]).length := by
    rw [toI32_index short (by omega) (by omega), List.length_append, List.length_singleton]
    omega
  have squeezed : squeeze args .code lastChar rest.head? letter true =
      (blank letter, !droppable lastChar rest.head?) := by
    have whiteBlank := (isSpaceByte_blank letter).trans white
    rw [blank] at whiteBlank
    rw [squeeze, if_pos ⟨squeezes, rfl⟩, droppable]
    by_cases drops : lastChar.any (· ∈ squeezers) = true ∨ rest.head?.any (· ∈ squeezers) = true
    · rw [if_pos ⟨whiteBlank, drops⟩, Bool.or_eq_true_iff.mpr drops]
      rfl
    · rw [if_neg fun both => drops both.2, Bool.eq_false_iff.mpr (Bool.or_eq_true_iff.not.mpr drops)]
      rfl
  rw [minifyStep, scanned_i, if_neg (by omega), Int.toNat_natCast, split, List.drop_left]
  dsimp only
  rw [switch]
  dsimp only
  rw [scanned, squeezed, index]
  cases droppable lastChar rest.head? with
  | true => rfl
  | false => rfl

end

end Rounds

end Tegenaria.LibStr
