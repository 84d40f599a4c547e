import Tegenaria.Foundation.Loop
import Tegenaria.Foundation.Occurrence
import Tegenaria.Foundation.Terminator
import Tegenaria.Foundation.Word

/-!
# Splitting and replacing by a pattern

The loops of `StrStrTokenize` and `StrReplaceString` overwrite the begin of each occurrence
with a terminator and go on behind the occurrence, by the length of the pattern as an `int`.
-/

namespace Tegenaria.LibStr

open Foundation Foundation.Loop Foundation.Occurrence Foundation.Word

abbrev Chars := List UInt8

/-- A string as callers pass it: the letters before the terminator. -/
structure CString where
  chars : Chars
  plain : 0 ∉ chars

/-- The letters at a position in a string whose terminator stands behind the buffer. -/
def stringAt (buffer : Chars) (p : Nat) : Chars := Terminator.visible 0 (buffer.drop p)

/-- The position of the first occurrence. -/
def strstr (text pattern : Chars) : Option Nat :=
  (text.dropInfix? pattern).map fun parts => parts.1.length

/-- A pointer that is moved by an `int`, unless it leaves the buffer. -/
def moved (buffer : Chars) (p : Nat) (distance : Int) : Option Nat :=
  if 0 ≤ p + distance ∧ p + distance ≤ buffer.length then some (p + distance).toNat else none

def intLength (pattern : CString) : Int := toI32 pattern.chars.length

section Definitions

variable {β : Type} (store : Terminator.Store (0 : UInt8) β)

structure Splitting (β : Type) where
  str : Chars
  p : Nat
  tokens : List β

def strStrStep (delim : CString) (state : Splitting β) : Step (Splitting β) (List β × Chars) :=
  match strstr (stringAt state.str state.p) delim.chars with
  | none =>
      .done (if stringAt state.str state.p ≠ [] then state.tokens ++ [store.keep state.str state.p]
        else state.tokens, state.str)
  | some offset =>
      let next := state.p + offset
      let str := state.str.set next 0
      .goOn ((moved str next (intLength delim)).map fun p =>
        ⟨str, p, state.tokens ++ [store.keep str state.p]⟩)

/-- `StrStrTokenize`: what is kept of the tokens, and the string after all cuts. -/
def strStrTokenize (fuel : Nat) (str delim : CString) : Outcome (List β × Chars) :=
  run (strStrStep store delim) fuel ⟨str.chars, 0, []⟩

end Definitions

structure Replacing where
  s : Chars
  p : Nat
  ret : Chars

def replaceStep (oldStr newStr : CString) (state : Replacing) : Step Replacing Chars :=
  match strstr (stringAt state.s state.p) oldStr.chars with
  | none => .done (state.ret ++ stringAt state.s state.p)
  | some offset =>
      let next := state.p + offset
      let s := state.s.set next 0
      .goOn ((moved s next (intLength oldStr)).map fun p =>
        ⟨s, p, state.ret ++ stringAt s state.p ++ newStr.chars⟩)

/-- `StrReplaceString`: the string that `s` becomes. -/
def strReplaceString (fuel : Nat) (s : CString) : (oldStr newStr : Option CString) → Outcome Chars
  | some oldStr, some newStr => run (replaceStep oldStr newStr) fuel ⟨s.chars, 0, []⟩
  | _, _ => .returned s.chars

example : strReplaceString 5 ⟨[1, 1, 2, 1, 1], by decide⟩ (some ⟨[1, 1], by decide⟩)
    (some ⟨[1, 1, 1], by decide⟩) = .returned [1, 1, 1, 2, 1, 1, 1] := by decide +kernel

theorem strstr_eq_none {text pattern : Chars} : strstr text pattern = none ↔ ¬ pattern <:+: text := by
  rw [strstr, Option.map_eq_none_iff, cut_eq_none_iff]

theorem strstr_eq_some {text pattern before after : Chars}
    (cut : text.dropInfix? pattern = some (before, after)) :
    strstr text pattern = some before.length := by
  rw [strstr, cut]
  rfl

theorem stringAt_append {seen text : Chars} (plain : 0 ∉ text) :
    stringAt (seen ++ text) seen.length = text := by
  rw [stringAt, List.drop_left, Terminator.visible_of_notMem plain]

theorem stringAt_cut {front back later : Chars} (plain : 0 ∉ back) :
    stringAt (front ++ back ++ 0 :: later) front.length = back := by
  rw [stringAt, List.append_assoc, List.drop_left, Terminator.visible_append,
    Terminator.visible_of_notMem plain]

/-- The begin of an occurrence is overwritten. -/
theorem set_append {rest : Chars} (nonempty : rest ≠ []) (seen before : Chars) :
    (seen ++ (before ++ rest)).set (seen.length + before.length) 0 =
      seen ++ before ++ 0 :: rest.tail := by
  obtain ⟨letter, tail, rfl⟩ := List.exists_cons_of_ne_nil nonempty
  rw [← List.append_assoc, ← List.length_append, List.set_append_right _ _ (le_refl _), Nat.sub_self]
  rfl

/-- What stands behind an occurrence when the search goes on inside or behind it. -/
theorem tail_split {rest : Chars} {advance : Nat} (moves : 0 < advance) :
    rest.tail = rest.tail.take (advance - 1) ++ rest.drop advance := by
  obtain ⟨less, rfl⟩ := Nat.exists_eq_succ_of_ne_zero (Nat.pos_iff_ne_zero.mp moves)
  rw [← List.drop_one, Nat.succ_sub_one, Nat.succ_eq_add_one, Nat.add_comm less 1, ← List.drop_drop,
    List.take_append_drop]

theorem moved_inside {buffer : Chars} {p target : Nat} {distance : Int}
    (lands : p + distance = target) (inside : target ≤ buffer.length) :
    moved buffer p distance = some target := by
  rw [moved, lands, if_pos (by omega), Int.toNat_natCast]

theorem moved_before {buffer : Chars} {p : Nat} {distance : Int} (leaves : p + distance < 0) :
    moved buffer p distance = none := by
  rw [moved, if_neg (by omega)]

theorem intLength_le (pattern : CString) : intLength pattern ≤ pattern.chars.length := by
  rw [intLength, toI32]
  omega

theorem intLength_of_fits {pattern : CString} (fits : pattern.chars.length < 2 ^ 31) :
    intLength pattern = pattern.chars.length := by
  rw [intLength, toI32_of_fits (by omega) (by omega)]

theorem intLength_lt {pattern : CString} (long : ¬ pattern.chars.length < 2 ^ 31) :
    intLength pattern < pattern.chars.length := by
  have upper := toI32_upper pattern.chars.length
  rw [intLength]
  omega

section Steps

variable {β : Type} {store : Terminator.Store (0 : UInt8) β} {delim oldStr newStr : CString}
  {seen text before after ret : Chars} {tokens : List β}

theorem strStrStep_absent {state : Splitting β}
    (absent : ¬ delim.chars <:+: stringAt state.str state.p) :
    strStrStep store delim state =
      .done (if stringAt state.str state.p ≠ [] then state.tokens ++ [store.keep state.str state.p]
        else state.tokens, state.str) := by
  rw [strStrStep, Iff.mpr strstr_eq_none absent]

theorem replaceStep_absent {state : Replacing} (absent : ¬ oldStr.chars <:+: stringAt state.s state.p) :
    replaceStep oldStr newStr state = .done (state.ret ++ stringAt state.s state.p) := by
  rw [replaceStep, Iff.mpr strstr_eq_none absent]

theorem cut_plain {pattern : Chars} (plain : 0 ∉ text)
    (cut : text.dropInfix? pattern = some (before, after)) :
    0 ∉ before ∧ 0 ∉ pattern ++ after := by
  rw [cut_eq cut, List.append_assoc, List.mem_append, not_or] at plain
  exact plain

theorem strStrStep_found (nonempty : delim.chars ≠ []) (plain : 0 ∉ text)
    (cut : text.dropInfix? delim.chars = some (before, after)) :
    strStrStep store delim ⟨seen ++ text, seen.length, tokens⟩ =
      .goOn ((moved (seen ++ before ++ 0 :: (delim.chars ++ after).tail) (seen.length + before.length)
        (intLength delim)).map fun p => ⟨seen ++ before ++ 0 :: (delim.chars ++ after).tail, p,
          tokens ++ [store.keep (seen ++ before ++ 0 :: (delim.chars ++ after).tail) seen.length]⟩) := by
  have overwritten := set_append (List.append_ne_nil_of_left_ne_nil nonempty after) seen before
  rw [← List.append_assoc before, ← cut_eq cut] at overwritten
  rw [strStrStep]
  simp only [stringAt_append plain, strstr_eq_some cut, overwritten]

theorem replaceStep_found (nonempty : oldStr.chars ≠ []) (plain : 0 ∉ text)
    (cut : text.dropInfix? oldStr.chars = some (before, after)) :
    replaceStep oldStr newStr ⟨seen ++ text, seen.length, ret⟩ =
      .goOn ((moved (seen ++ before ++ 0 :: (oldStr.chars ++ after).tail) (seen.length + before.length)
        (intLength oldStr)).map fun p => ⟨seen ++ before ++ 0 :: (oldStr.chars ++ after).tail, p,
          ret ++ before ++ newStr.chars⟩) := by
  have overwritten := set_append (List.append_ne_nil_of_left_ne_nil nonempty after) seen before
  rw [← List.append_assoc before, ← cut_eq cut] at overwritten
  rw [replaceStep]
  simp only [stringAt_append plain, strstr_eq_some cut, overwritten,
    stringAt_cut (cut_plain plain cut).1]

end Steps

section Runs

variable {pattern : CString} {advance : Nat}

/-- The string up to the place where the search goes on. -/
def passed (pattern : CString) (advance : Nat) (seen before after : Chars) : Chars :=
  seen ++ before ++ 0 :: (pattern.chars ++ after).tail.take (advance - 1)

theorem passed_append (moves : 0 < advance) (seen before after : Chars) :
    seen ++ before ++ 0 :: (pattern.chars ++ after).tail =
      passed pattern advance seen before after ++ (pattern.chars ++ after).drop advance := by
  rw [passed, List.append_assoc (seen ++ before), List.cons_append, ← tail_split moves]

theorem moved_passed (moves : 0 < advance) (length : intLength pattern = advance)
    (seen before after : Chars) :
    moved (seen ++ before ++ 0 :: (pattern.chars ++ after).tail) (seen.length + before.length)
      (intLength pattern) = some (passed pattern advance seen before after).length := by
  have short := intLength_le pattern
  have passedLength : (passed pattern advance seen before after).length =
      seen.length + before.length + advance := by
    simp only [passed, List.length_append, List.length_cons, List.length_take, List.length_tail]
    omega
  refine moved_inside (by omega) ?_
  rw [passed_append moves, List.length_append]
  exact Nat.le_add_right _ _

theorem strStr_absent {β : Type} {store : Terminator.Store (0 : UInt8) β} {text : Chars}
    (plain : 0 ∉ text) (absent : ¬ pattern.chars <:+: text) (seen : Chars) (tokens : List β) :
    ∃ kept str, Returns (strStrStep store pattern) ⟨seen ++ text, seen.length, tokens⟩
        (tokens ++ kept, str) ∧ seen <+: str ∧
      kept.map (store.read str) = withoutEmptyLast [text] := by
  have ends := @strStrStep_absent β store pattern ⟨seen ++ text, seen.length, tokens⟩
  simp only [stringAt_append plain] at ends
  replace ends := ends absent
  by_cases nothing : text = []
  · subst nothing
    exact ⟨[], seen ++ [], (returns_done ends).mpr (by simp), List.prefix_append _ _, rfl⟩
  · refine ⟨[store.keep (seen ++ text) seen.length], seen ++ text,
      (returns_done ends).mpr (by rw [if_pos nothing]), List.prefix_append _ _, ?_⟩
    rw [List.map_singleton, store.last, List.drop_left, Terminator.visible_of_notMem plain,
      withoutEmptyLast, if_neg (by simpa using nothing)]

theorem replace_absent {newStr : CString} {text : Chars} (plain : 0 ∉ text)
    (absent : ¬ pattern.chars <:+: text) (seen ret : Chars) :
    Returns (replaceStep pattern newStr) ⟨seen ++ text, seen.length, ret⟩ (ret ++ text) := by
  have ends := @replaceStep_absent pattern newStr ⟨seen ++ text, seen.length, ret⟩
  simp only [stringAt_append plain] at ends
  exact (returns_done (ends absent)).mpr rfl

/-- When the search goes on behind the begin of an occurrence, the tokens are the pieces
found so. -/
theorem strStr_returns {β : Type} {store : Terminator.Store (0 : UInt8) β}
    (nonempty : pattern.chars ≠ []) (moves : 0 < advance) (length : intLength pattern = advance)
    (text : Chars) (plain : 0 ∉ text) (seen : Chars) (tokens : List β) :
    ∃ kept str, Returns (strStrStep store pattern) ⟨seen ++ text, seen.length, tokens⟩
        (tokens ++ kept, str) ∧ seen <+: str ∧
      kept.map (store.read str) = withoutEmptyLast (piecesEvery pattern.chars advance text) := by
  induction text using cut_induction pattern.chars advance nonempty moves generalizing seen tokens with
  | absent text absent =>
      rw [piecesEvery_none absent]
      exact strStr_absent plain absent seen tokens
  | found text before after cut ih =>
      obtain ⟨beforePlain, restPlain⟩ := cut_plain plain cut
      have goes := (@strStrStep_found β store pattern seen text before after tokens nonempty plain
        cut).trans (goOn_map (moved_passed moves length seen before after) _)
      rw [passed_append moves] at goes
      obtain ⟨kept, str, returns, ⟨later, same⟩, read⟩ :=
        ih (fun member => restPlain (List.mem_of_mem_drop member))
          (passed pattern advance seen before after)
          (tokens ++ [store.keep (seen ++ before ++ 0 :: (pattern.chars ++ after).tail) seen.length])
      rw [passed_append moves] at returns
      refine ⟨_ :: kept, str, (returns_next goes).mpr (by simpa using returns), ?_, ?_⟩
      · rw [← same, passed, List.append_assoc, List.append_assoc]
        exact List.prefix_append _ _
      · rw [piecesEvery_some moves nonempty cut, withoutEmptyLast_cons _ (piecesEvery_ne_nil _ _ _),
          List.map_cons, read, ← same, passed, List.append_assoc (seen ++ before), List.cons_append,
          List.append_assoc (seen ++ before), List.cons_append, store.ended (by simp), List.drop_left,
          Terminator.visible_of_notMem beforePlain]

theorem replace_returns {newStr : CString} (nonempty : pattern.chars ≠ []) (moves : 0 < advance)
    (length : intLength pattern = advance) (text : Chars) (plain : 0 ∉ text) (seen ret : Chars) :
    Returns (replaceStep pattern newStr) ⟨seen ++ text, seen.length, ret⟩
      (ret ++ newStr.chars.intercalate (piecesEvery pattern.chars advance text)) := by
  induction text using cut_induction pattern.chars advance nonempty moves generalizing seen ret with
  | absent text absent =>
      rw [piecesEvery_none absent, List.intercalate_singleton]
      exact replace_absent plain absent seen ret
  | found text before after cut ih =>
      have restPlain := (cut_plain plain cut).2
      have goes := (@replaceStep_found pattern newStr seen text before after ret nonempty plain
        cut).trans (goOn_map (moved_passed moves length seen before after) _)
      rw [passed_append moves] at goes
      rw [piecesEvery_some moves nonempty cut,
        List.intercalate_cons_of_ne_nil (piecesEvery_ne_nil _ _ _)]
      refine (returns_next goes).mpr ?_
      rw [← List.append_assoc ret, ← List.append_assoc ret]
      exact ih (fun member => restPlain (List.mem_of_mem_drop member)) _ _

end Runs

section Back

variable {pattern : CString} {text front back after : Chars}

theorem absent_back (nonempty : pattern.chars ≠ [])
    (cut : text.dropInfix? pattern.chars = some (front ++ back, after)) :
    ¬ pattern.chars <:+: back := by
  rintro ⟨start, rest, split⟩
  have positive := List.length_pos_iff.mpr nonempty
  have length := congrArg List.length split
  simp only [List.length_append] at length
  refine @cut_first _ _ _ _ _ _ cut (front ++ start).length ?_ ⟨rest ++ pattern.chars ++ after, ?_⟩
  · simp only [List.length_append]
    omega
  · rw [cut_eq cut, ← split]
    simp only [← List.append_assoc]
    rw [List.append_assoc (front ++ start), List.append_assoc (front ++ start),
      List.append_assoc (front ++ start), List.drop_left]

theorem moved_back {later : Chars} (length : intLength pattern = -(back.length : Int)) :
    moved (front ++ back ++ 0 :: later) (front ++ back).length (intLength pattern) =
      some front.length :=
  moved_inside (by rw [length, List.length_append]; omega) (by rw [List.append_assoc]; simp)

/-- With a negative length the search goes on before the cut and ends there. -/
theorem strStr_back {β : Type} {store : Terminator.Store (0 : UInt8) β} (nonempty : pattern.chars ≠ [])
    (plain : 0 ∉ text) (cut : text.dropInfix? pattern.chars = some (front ++ back, after))
    (length : intLength pattern = -(back.length : Int)) :
    ∃ tokens str, Returns (strStrStep store pattern) ⟨text, 0, []⟩ (tokens, str) ∧
      tokens.map (store.read str) = withoutEmptyLast [front ++ back, back] := by
  have beforePlain := (cut_plain plain cut).1
  have backPlain : 0 ∉ back := fun member => beforePlain (List.mem_append_right _ member)
  have goes := @strStrStep_found β store pattern [] text _ after [] nonempty plain cut
  simp only [List.nil_append, List.length_nil, Nat.zero_add] at goes
  replace goes := goes.trans (goOn_map (moved_back length) _)
  have ends := @strStrStep_absent β store pattern
    ⟨front ++ back ++ 0 :: (pattern.chars ++ after).tail, front.length,
      [store.keep (front ++ back ++ 0 :: (pattern.chars ++ after).tail) 0]⟩
  simp only [stringAt_cut backPlain] at ends
  refine ⟨_, _, (returns_next goes).mpr ((returns_done (ends (absent_back nonempty cut))).mpr rfl), ?_⟩
  rw [withoutEmptyLast_cons _ (List.cons_ne_nil _ _)]
  by_cases nothing : back = []
  · subst nothing
    rw [if_neg (by simp), List.map_singleton, store.ended (Nat.zero_le _), List.drop_zero,
      Terminator.visible_of_notMem beforePlain]
    rfl
  · rw [if_pos nothing, List.map_append, List.map_singleton, List.map_singleton,
      store.ended (Nat.zero_le _), store.ended (by simp), List.drop_zero, List.drop_left,
      Terminator.visible_of_notMem beforePlain, Terminator.visible_of_notMem backPlain,
      withoutEmptyLast, if_neg (by simpa using nothing)]
    rfl

theorem replace_back {newStr : CString} (nonempty : pattern.chars ≠ []) (plain : 0 ∉ text)
    (cut : text.dropInfix? pattern.chars = some (front ++ back, after))
    (length : intLength pattern = -(back.length : Int)) :
    Returns (replaceStep pattern newStr) ⟨text, 0, []⟩ (front ++ back ++ newStr.chars ++ back) := by
  have beforePlain := (cut_plain plain cut).1
  have backPlain : 0 ∉ back := fun member => beforePlain (List.mem_append_right _ member)
  have goes := @replaceStep_found pattern newStr [] text _ after [] nonempty plain cut
  simp only [List.nil_append, List.length_nil, Nat.zero_add] at goes
  replace goes := goes.trans (goOn_map (moved_back length) _)
  have ends := @replaceStep_absent pattern newStr
    ⟨front ++ back ++ 0 :: (pattern.chars ++ after).tail, front.length, front ++ back ++ newStr.chars⟩
  simp only [stringAt_cut backPlain] at ends
  exact (returns_next goes).mpr ((returns_done (ends (absent_back nonempty cut))).mpr rfl)

end Back

/-- A version of `StrStrTokenize` ends with the given tokens. -/
def TokensAre {β : Type} (store : Terminator.Store (0 : UInt8) β) (text pattern : CString)
    (parts : List Chars) : Prop :=
  ∃ fuel tokens str, strStrTokenize store fuel text pattern = .returned (tokens, str) ∧
    tokens.map (store.read str) = parts

/-- Splitting and replacing find the pieces between the occurrences of the pattern. -/
structure SplitByPattern (text pattern : CString) : Prop where
  pointers : TokensAre (Terminator.pointers 0) text pattern
    (withoutEmptyLast (pieces pattern.chars text.chars))
  strings : TokensAre (Terminator.copies 0) text pattern
    (withoutEmptyLast (pieces pattern.chars text.chars))
  joined : pattern.chars.intercalate (withoutEmptyLast (pieces pattern.chars text.chars)) = text.chars ∨
    pattern.chars.intercalate (withoutEmptyLast (pieces pattern.chars text.chars)) ++ pattern.chars =
      text.chars
  replaced (newStr : CString) : ∃ fuel, strReplaceString fuel text (some pattern) (some newStr) =
    .returned (newStr.chars.intercalate (pieces pattern.chars text.chars))

/-- The length of the pattern fits an `int`, or the letters that stand once more behind the
cut are those behind the occurrence. -/
def GoesOnBehind (text pattern : CString) : Prop :=
  ∀ before after, text.chars.dropInfix? pattern.chars = some (before, after) →
    pattern.chars.length < 2 ^ 31 ∨
      (after <:+ before ∧ intLength pattern = -(after.length : Int))

theorem tokensAre_pieces {β : Type} (store : Terminator.Store (0 : UInt8) β) {text pattern : CString}
    (nonempty : pattern.chars ≠ []) (condition : GoesOnBehind text pattern) :
    TokensAre store text pattern (withoutEmptyLast (pieces pattern.chars text.chars)) := by
  have positive := List.length_pos_iff.mpr nonempty
  by_cases fits : pattern.chars.length < 2 ^ 31
  · obtain ⟨kept, str, ⟨fuel, returned⟩, _, read⟩ := @strStr_returns pattern _ β store nonempty positive
      (intLength_of_fits fits) text.chars text.plain [] []
    exact ⟨fuel, kept, str, returned, read⟩
  · cases cut : text.chars.dropInfix? pattern.chars with
    | none =>
        have absent := cut_eq_none_iff.mp cut
        obtain ⟨kept, str, ⟨fuel, returned⟩, _, read⟩ :=
          @strStr_absent pattern β store text.chars text.plain absent [] []
        exact ⟨fuel, kept, str, returned, by rw [read, pieces_none absent]⟩
    | some parts =>
        obtain ⟨before, after⟩ := parts
        obtain ⟨⟨front, rfl⟩, length⟩ := (condition before after cut).resolve_left fits
        obtain ⟨tokens, str, ⟨fuel, returned⟩, read⟩ :=
          @strStr_back pattern text.chars front after after β store nonempty text.plain cut length
        refine ⟨fuel, tokens, str, returned, ?_⟩
        rw [read, pieces_some nonempty cut, pieces_none (absent_back nonempty cut)]

theorem replaced_pieces {text pattern newStr : CString} (nonempty : pattern.chars ≠ [])
    (condition : GoesOnBehind text pattern) :
    Returns (replaceStep pattern newStr) ⟨text.chars, 0, []⟩
      (newStr.chars.intercalate (pieces pattern.chars text.chars)) := by
  have positive := List.length_pos_iff.mpr nonempty
  by_cases fits : pattern.chars.length < 2 ^ 31
  · exact @replace_returns pattern _ newStr nonempty positive (intLength_of_fits fits) text.chars
      text.plain [] []
  · cases cut : text.chars.dropInfix? pattern.chars with
    | none =>
        have absent := cut_eq_none_iff.mp cut
        rw [pieces_none absent, List.intercalate_singleton]
        exact @replace_absent pattern newStr text.chars text.plain absent [] []
    | some parts =>
        obtain ⟨before, after⟩ := parts
        obtain ⟨⟨front, rfl⟩, length⟩ := (condition before after cut).resolve_left fits
        rw [pieces_some nonempty cut, pieces_none (absent_back nonempty cut),
          List.intercalate_cons_of_ne_nil (List.cons_ne_nil _ _), List.intercalate_singleton]
        exact replace_back nonempty text.plain cut length

/-- Replacing a pattern by itself must not change the text. -/
theorem goesOnBehind_of_replaced {text pattern : CString} (nonempty : pattern.chars ≠ [])
    (unchanged : Returns (replaceStep pattern pattern) ⟨text.chars, 0, []⟩ text.chars) :
    GoesOnBehind text pattern := by
  intro before after cut
  by_contra fails
  rw [not_or] at fails
  obtain ⟨long, differs⟩ := fails
  have shorter := intLength_lt long
  by_cases positive : 0 < intLength pattern
  · obtain ⟨advance, length⟩ := Int.eq_ofNat_of_zero_le (show 0 ≤ intLength pattern by omega)
    rw [length] at shorter positive
    have doubled := @replace_returns pattern advance pattern nonempty (by omega) length text.chars
      text.plain [] []
    have longer := length_lt_intercalate_piecesEvery nonempty (show 0 < advance by omega)
      (by omega) cut
    have same := unchanged.unique doubled
    rw [List.nil_append] at same
    rw [← same] at longer
    exact lt_irrefl _ longer
  · by_cases leaves : before.length + intLength pattern < 0
    · have outside := (@replaceStep_found pattern pattern [] text.chars before after [] nonempty
        text.plain cut).trans (goOn_none (moved_before (by simpa using leaves)) _)
      exact not_returns_outside outside unchanged
    · obtain ⟨kept, landed⟩ := Int.eq_ofNat_of_zero_le
        (show 0 ≤ (before.length : Int) + intLength pattern by omega)
      have split := List.take_append_drop kept before
      have length : intLength pattern = -((before.drop kept).length : Int) := by
        rw [List.length_drop]
        omega
      rw [← split] at cut
      have twice := unchanged.unique (@replace_back pattern text.chars _ _ after pattern nonempty
        text.plain cut length)
      rw [cut_eq cut] at twice
      rw [List.append_cancel_left twice] at differs
      exact differs ⟨List.drop_suffix _ _, length⟩

theorem returns_of_replaced {text pattern : CString} (nonempty : pattern.chars ≠ [])
    (split : SplitByPattern text pattern) :
    Returns (replaceStep pattern pattern) ⟨text.chars, 0, []⟩ text.chars := by
  obtain ⟨fuel, returned⟩ := split.replaced pattern
  rw [intercalate_pieces nonempty] at returned
  exact ⟨fuel, returned⟩

/-- A text is split by a pattern exactly if the search goes on behind the occurrences. -/
theorem splitByPattern_iff {text pattern : CString} (nonempty : pattern.chars ≠ []) :
    SplitByPattern text pattern ↔ GoesOnBehind text pattern := by
  constructor
  · exact fun split => goesOnBehind_of_replaced nonempty (returns_of_replaced nonempty split)
  · intro condition
    exact {
      pointers := tokensAre_pieces _ nonempty condition
      strings := tokensAre_pieces _ nonempty condition
      joined := intercalate_withoutEmptyLast nonempty text.chars
      replaced := fun newStr => replaced_pieces nonempty condition }

/-- One letter, repeated. -/
def repeated (length : Nat) : CString :=
  ⟨List.replicate length 97, fun zero => absurd (List.eq_of_mem_replicate zero) (by decide)⟩

theorem splitByPattern_overlapping :
    SplitByPattern ⟨[97, 97, 97, 98, 97, 97], by decide⟩ ⟨[97, 97], by decide⟩ :=
  (splitByPattern_iff (by decide)).mpr fun _ _ _ => .inl (by decide)

/-- The length `2 ^ 31` is negative as an `int`. -/
theorem not_splitByPattern_huge : ¬ SplitByPattern (repeated (2 ^ 31)) (repeated (2 ^ 31)) := by
  have length : (repeated (2 ^ 31)).chars.length = 2 ^ 31 := List.length_replicate
  generalize repeated (2 ^ 31) = pattern at length ⊢
  have nonempty : pattern.chars ≠ [] := List.ne_nil_of_length_pos (by omega)
  intro split
  have condition := goesOnBehind_of_replaced nonempty (returns_of_replaced nonempty split)
  have cut : pattern.chars.dropInfix? pattern.chars = some ([], []) :=
    cut_eq_some_iff.mpr ⟨by rw [List.nil_append, List.append_nil], fun _ none_ => by simp at none_⟩
  rcases condition [] [] cut with short | ⟨_, negative⟩
  · omega
  · rw [intLength, length] at negative
    exact absurd negative (by decide +kernel)

end Tegenaria.LibStr
