import Tegenaria.LibStr.Find

/-!
# Removing a pattern

`StrRemoveString` and `StrRemoveCaseString` search from the begin again after each removal,
until nothing is found.
-/

namespace Tegenaria.LibStr

open Foundation Foundation.Bytes Foundation.Loop Foundation.Occurrence Foundation.Search Foundation.Word

/-- `strcpy(p, p + distance)`: the letters from `p + distance` on are moved down to `p`.  Other
distances leave the string. -/
def strcpyDown (buf : CString) (p : Nat) (distance : Int) : Option CString :=
  if 0 ≤ distance ∧ p + distance ≤ buf.chars.length then
    some ⟨buf.chars.take p ++ buf.chars.drop (p + distance.toNat), by
      simp only [List.mem_append, not_or]
      exact ⟨fun zero => buf.plain (List.mem_of_mem_take zero),
        fun zero => buf.plain (List.mem_of_mem_drop zero)⟩⟩
  else none

/-- One round of the loop; `find` is the search for the pattern. -/
def removeStep (find : CString → Outcome (Option Nat)) (pattern buf : CString) : Step CString CString :=
  match find buf with
  | .returned none => .done buf
  | .returned (some p) => .goOn (strcpyDown buf p (intLength pattern))
  | .running => .next buf
  | .outside => .outside

def findExact (pattern buf : CString) : Outcome (Option Nat) :=
  .returned (strstr buf.chars pattern.chars)

def findNoCase (pattern buf : CString) : Outcome (Option Nat) := stristr buf pattern

def strRemoveString (fuel : Nat) : (buf pattern : Option CString) → Outcome (Option CString)
  | some buf, some pattern => (run (removeStep (findExact pattern) pattern) fuel buf).map some
  | _, _ => .returned none

def strRemoveCaseString (fuel : Nat) : (buf pattern : Option CString) → Outcome (Option CString)
  | some buf, some pattern => (run (removeStep (findNoCase pattern) pattern) fuel buf).map some
  | _, _ => .returned none

section Steps

variable {find : CString → Outcome (Option Nat)} {pattern buf later : CString} {p : Nat}

theorem strcpyDown_eq_none {distance : Int} : strcpyDown buf p distance = none ↔
    ¬ (0 ≤ distance ∧ p + distance ≤ buf.chars.length) := by
  rw [strcpyDown]
  split_ifs with lands
  · simp [lands]
  · simp [lands]

/-- The letters that are copied over are gone. -/
theorem length_strcpyDown {distance : Int} (copied : strcpyDown buf p distance = some later) :
    (later.chars.length : Int) = buf.chars.length - distance := by
  rw [strcpyDown] at copied
  split_ifs at copied with lands
  · rw [Option.some.injEq] at copied
    rw [← copied]
    simp only [List.length_append, List.length_take, List.length_drop]
    omega

theorem strcpyDown_zero (inside : p ≤ buf.chars.length) : strcpyDown buf p 0 = some buf := by
  rw [strcpyDown, if_pos (by omega)]
  congr
  simp

theorem removeStep_none (nothing : find buf = .returned none) :
    removeStep find pattern buf = .done buf := by
  rw [removeStep, nothing]

theorem removeStep_some (found : find buf = .returned (some p)) :
    removeStep find pattern buf = .goOn (strcpyDown buf p (intLength pattern)) := by
  rw [removeStep, found]

/-- Steps that remove letters make the string shorter. -/
theorem removeStep_next (found : find buf = .returned (some p)) (positive : 0 < intLength pattern)
    (inside : p + intLength pattern ≤ buf.chars.length) :
    ∃ later, strcpyDown buf p (intLength pattern) = some later ∧
      removeStep find pattern buf = .next later ∧ later.chars.length < buf.chars.length := by
  cases copied : strcpyDown buf p (intLength pattern) with
  | none => exact absurd ⟨Int.le_of_lt positive, inside⟩ (Iff.mp strcpyDown_eq_none copied)
  | some later =>
      have shorter := length_strcpyDown copied
      refine ⟨later, rfl, ?_, by omega⟩
      rw [removeStep_some found, goOn_eq_next]
      exact copied

/-- A loop that finds the pattern ends only if it removes letters of the string. -/
theorem removes_of_ends (found : find buf = .returned (some p)) (inside : p ≤ buf.chars.length)
    (ends : Ends (removeStep find pattern) buf) :
    0 < intLength pattern ∧ p + intLength pattern ≤ buf.chars.length := by
  have goes : removeStep find pattern buf = .goOn (strcpyDown buf p (intLength pattern)) :=
    removeStep_some found
  by_contra stuck
  by_cases same : intLength pattern = 0
  · rw [same, strcpyDown_zero inside] at goes
    refine @not_ends_of_invariant _ _ (removeStep find pattern) buf (· = buf) ?_ rfl ends
    rintro _ rfl
    exact .inr ⟨_, goes, rfl⟩
  · have outside : strcpyDown buf p (intLength pattern) = none :=
      Iff.mpr strcpyDown_eq_none fun lands => stuck ⟨by omega, lands.2⟩
    rw [outside] at goes
    exact not_ends_outside goes ends

/-- When the loop has ended nothing is found any more. -/
theorem returns_removed {rest : CString} (returns : Returns (removeStep find pattern) buf rest) :
    find rest = .returned none ∧ rest.chars.length ≤ buf.chars.length := by
  refine @Returns.post _ _ (removeStep find pattern) buf rest
    (fun state => state.chars.length ≤ buf.chars.length)
    (fun rest => find rest = .returned none ∧ rest.chars.length ≤ buf.chars.length) ?_ ?_ returns
    (le_refl _)
  · intro state later shorter goes
    rw [removeStep] at goes
    split at goes
    · simp at goes
    · next p found =>
        have copied := goOn_eq_next.mp goes
        have length := length_strcpyDown copied
        have lands : ¬ strcpyDown state p (intLength pattern) = none := by simp [copied]
        rw [strcpyDown_eq_none, not_not] at lands
        omega
    · rw [Step.next.injEq] at goes
      exact goes ▸ shorter
    · simp at goes
  · intro state rest shorter ends
    rw [removeStep] at ends
    split at ends
    · next nothing =>
        rw [Step.done.injEq] at ends
        exact ends ▸ ⟨nothing, shorter⟩
    · exact absurd ends goOn_ne_done
    · simp at ends
    · simp at ends

end Steps

section Exact

variable {text pattern : CString}

/-- The search for the exact pattern ends if each removal removes something. -/
theorem removeString_ends_iff : Ends (removeStep (findExact pattern) pattern) text ↔
    0 < intLength pattern ∨ ¬ pattern.chars <:+: text.chars := by
  constructor
  · intro ends
    by_cases occurs : pattern.chars <:+: text.chars
    · obtain ⟨⟨before, after⟩, cut⟩ := Option.ne_none_iff_exists'.mp
        (fun absent => cut_eq_none_iff.mp absent occurs)
      have split := congrArg List.length (cut_eq cut)
      have found : findExact pattern text = .returned (some before.length) := by
        rw [findExact, strstr_eq_some cut]
      simp only [List.length_append] at split
      exact .inl (removes_of_ends found (by omega) ends).1
    · exact .inr occurs
  · rintro (positive | absent)
    · refine @ends_of_measure _ _ _ text (fun _ => True) (fun buf => buf.chars.length)
        (fun buf _ => ?_) trivial
      cases cut : buf.chars.dropInfix? pattern.chars with
      | none =>
          have absent := cut_eq_none_iff.mp cut
          refine .inl ⟨buf, removeStep_none ?_⟩
          rw [findExact, strstr_eq_none.mpr absent]
      | some parts =>
          obtain ⟨before, after⟩ := parts
          have split := congrArg List.length (cut_eq cut)
          have short := intLength_le pattern
          have found : findExact pattern buf = .returned (some before.length) := by
            rw [findExact, strstr_eq_some cut]
          simp only [List.length_append] at split
          obtain ⟨later, _, goes, shorter⟩ := removeStep_next found positive (by omega)
          exact .inr ⟨later, goes, trivial, shorter⟩
    · refine ends_done (removeStep_none ?_)
      rw [findExact, strstr_eq_none.mpr absent]

end Exact

section NoCase

variable {text pattern : CString}

/-- The strings that arise when the letters at the first place that agrees are removed. -/
inductive CaseStage (pattern text : CString) : CString → Prop
  | start : CaseStage pattern text text
  | removed {buf later : CString} {place : Nat} (stage : CaseStage pattern text buf)
      (inside : place < buf.chars.length) (first : FirstOf (AgreesAt foldedReader buf pattern) place)
      (copied : strcpyDown buf place (intLength pattern) = some later) : CaseStage pattern text later

/-- A first place that agrees can be removed: the whole pattern fits there, and what is
removed are letters of the string. -/
def Removable (pattern buf : CString) : Prop :=
  ∀ place < buf.chars.length, FirstOf (AgreesAt foldedReader buf pattern) place →
    FitsAt foldedReader buf pattern place ∧ 0 < intLength pattern ∧
      place + intLength pattern ≤ buf.chars.length

theorem stristr_cases (nonempty : pattern.chars ≠ []) (buf : CString) :
    ((∀ place < buf.chars.length, ¬ AgreesAt foldedReader buf pattern place) ∧
        findNoCase pattern buf = .returned none) ∨
      ∃ place < buf.chars.length, FirstOf (AgreesAt foldedReader buf pattern) place ∧
        ((FitsAt foldedReader buf pattern place ∧ findNoCase pattern buf = .returned (some place)) ∨
          (¬ FitsAt foldedReader buf pattern place ∧
            ∀ found, findNoCase pattern buf ≠ .returned found)) := by
  have stops : ∀ place < buf.chars.length,
      compareAt foldedReader anywhere buf pattern place ≠ .returned none ↔
        AgreesAt foldedReader buf pattern place := fun _ _ => anywhere_stops_iff nonempty
  rcases search_cases (compareAt foldedReader anywhere buf pattern) buf.chars.length with
    ⟨misses, result⟩ | ⟨place, inside, first, result⟩
  · refine .inl ⟨fun place inside agrees => ?_, ?_⟩
    · exact (stops place inside).mpr agrees (misses place inside)
    · rw [findNoCase, stristr, result]
      rfl
  · refine .inr ⟨place, inside, (firstOf_congr stops inside).mp first, ?_⟩
    rw [findNoCase, stristr, result, ← anywhere_hits_iff nonempty]
    cases attempt : compareAt foldedReader anywhere buf pattern place with
    | returned found =>
        cases found with
        | none => exact absurd attempt first.1
        | some found => exact .inl ⟨⟨found, rfl⟩, rfl⟩
    | running => exact .inr ⟨by simp, by simp [placeOf, Outcome.map]⟩
    | outside => exact .inr ⟨by simp, by simp [placeOf, Outcome.map]⟩

theorem not_ends_of_lost {find : CString → Outcome (Option Nat)} {buf : CString}
    (lost : ∀ found, find buf ≠ .returned found) : ¬ Ends (removeStep find pattern) buf := by
  intro ends
  cases found : find buf with
  | returned place => exact lost place found
  | running =>
      have goes : removeStep find pattern buf = .next buf := by rw [removeStep, found]
      refine @not_ends_of_invariant _ _ (removeStep find pattern) buf (· = buf) ?_ rfl ends
      rintro _ rfl
      exact .inr ⟨_, goes, rfl⟩
  | outside =>
      have leaves : removeStep find pattern buf = .outside := by rw [removeStep, found]
      exact not_ends_outside leaves ends

/-- Where the whole pattern fits at the first place that agrees, it is found. -/
theorem findNoCase_first (nonempty : pattern.chars ≠ []) {buf : CString} {place : Nat}
    (inside : place < buf.chars.length) (first : FirstOf (AgreesAt foldedReader buf pattern) place) :
    (FitsAt foldedReader buf pattern place ∧ findNoCase pattern buf = .returned (some place)) ∨
      (¬ FitsAt foldedReader buf pattern place ∧ ∀ found, findNoCase pattern buf ≠ .returned found) := by
  rcases stristr_cases nonempty buf with ⟨absent, _⟩ | ⟨other, otherInside, otherFirst, result⟩
  · exact absurd first.1 (absent place inside)
  · obtain rfl : place = other :=
      (@forall_firstOf_iff _ _ _ (place = ·) inside first).mpr rfl other otherInside otherFirst
    exact result

theorem removable_of_ends (nonempty : pattern.chars ≠ []) {buf : CString}
    (ends : Ends (removeStep (findNoCase pattern) pattern) buf) : Removable pattern buf := by
  intro place inside first
  rcases findNoCase_first nonempty inside first with ⟨fits, found⟩ | ⟨_, lost⟩
  · exact ⟨fits, removes_of_ends found inside.le ends⟩
  · exact absurd ends (not_ends_of_lost lost)

theorem findNoCase_removable (nonempty : pattern.chars ≠ []) {buf : CString} {place : Nat}
    (inside : place < buf.chars.length) (first : FirstOf (AgreesAt foldedReader buf pattern) place)
    (removable : Removable pattern buf) : findNoCase pattern buf = .returned (some place) := by
  rcases findNoCase_first nonempty inside first with ⟨_, found⟩ | ⟨lost, _⟩
  · exact found
  · exact absurd (removable place inside first).1 lost

/-- The search without case ends exactly if at each stage the first place that agrees can be
removed. -/
theorem removeCaseString_ends_iff (nonempty : pattern.chars ≠ []) :
    Ends (removeStep (findNoCase pattern) pattern) text ↔
      ∀ buf, CaseStage pattern text buf → Removable pattern buf := by
  constructor
  · intro ends buf stage
    refine removable_of_ends nonempty ?_
    induction stage with
    | start => exact ends
    | removed stage inside first copied ih =>
        have found := findNoCase_removable nonempty inside first (removable_of_ends nonempty ih)
        have goes := (removeStep_some found).trans (goOn_eq_next.mpr copied)
        exact (ends_next goes).mp ih
  · intro all
    refine @ends_of_measure _ _ _ text (CaseStage pattern text) (fun buf => buf.chars.length)
      (fun buf stage => ?_) .start
    rcases stristr_cases nonempty buf with ⟨_, nothing⟩ | ⟨place, inside, first, _⟩
    · exact .inl ⟨buf, removeStep_none nothing⟩
    · have removable := all buf stage
      have found := findNoCase_removable nonempty inside first removable
      obtain ⟨_, positive, lands⟩ := removable place inside first
      obtain ⟨later, copied, goes, shorter⟩ := removeStep_next found positive lands
      exact .inr ⟨later, goes, .removed stage inside first copied, shorter⟩

theorem folded_eq_zero :
    ∀ letter : UInt8, folded letter = folded 0 → letter = 32 ∨ letter = 0 :=
  forall_byte (by decide +kernel)

/-- A pattern that fits an `int` and has no blank cannot reach the terminator. -/
theorem removable_of_noBlank (nonempty : pattern.chars ≠ []) (short : pattern.chars.length < 2 ^ 31)
    (noBlank : 32 ∉ pattern.chars) (buf : CString) : Removable pattern buf := by
  intro place inside first
  have noZero : folded 0 ∉ pattern.chars.map folded := by
    rw [List.mem_map]
    rintro ⟨letter, member, same⟩
    rcases folded_eq_zero letter same with rfl | rfl
    · exact noBlank member
    · exact pattern.plain member
  have codes : (buf.memory.drop place).map folded = (buf.chars.drop place).map folded ++ [folded 0] := by
    rw [CString.memory, List.drop_append_of_le_length inside.le, List.map_append]
    rfl
  have positive := List.length_pos_iff.mpr nonempty
  rcases first.1 with fits | reaches
  · refine ⟨fits, ?_⟩
    rw [← FitsAt, foldedReader, fitsAt_byteReader, codes, List.prefix_concat_iff] at fits
    rw [intLength_of_fits short]
    rcases fits with whole | within
    · exact absurd (by rw [whole]; simp) noZero
    · have length := within.length_le
      rw [List.length_map, List.length_map, List.length_drop] at length
      omega
  · rw [Fits, CString.symbolsFrom, foldedReader, symbols_byteReader, symbols_byteReader, List.map_map,
      List.map_map] at reaches
    exact absurd (reaches.subset (codes ▸ by simp)) noZero

theorem not_noCase_of_findNoCase {rest : CString} (nonempty : pattern.chars ≠ [])
    (nothing : findNoCase pattern rest = .returned none) (place : Nat) :
    ¬ OccursNoCase rest pattern place := by
  intro occurs
  have inside : place < rest.chars.length := by
    by_contra behind
    rw [OccursNoCase, List.drop_eq_nil_of_le (not_lt.mp behind), List.map_nil, List.prefix_nil,
      List.map_eq_nil_iff] at occurs
    exact nonempty occurs
  have agrees : AgreesAt foldedReader rest pattern place :=
    .inl (fitsAt_of_occurs inside.le (map_folded_of_noCase occurs))
  rcases stristr_cases nonempty rest with ⟨absent, _⟩ | ⟨_, _, _, ⟨_, found⟩ | ⟨_, lost⟩⟩
  · exact absent place inside agrees
  · simp [nothing] at found
  · exact lost none nothing

end NoCase

/-- The loops over a pattern end, and what is removed is gone. -/
structure PatternLoopsEnd (text pattern : CString) : Prop where
  remove : ∃ fuel rest, strRemoveString fuel (some text) (some pattern) = .returned (some rest) ∧
    (pattern.chars ≠ [] → ¬ pattern.chars <:+: rest.chars) ∧ rest.chars.length ≤ text.chars.length
  removeCase : ∃ fuel rest, strRemoveCaseString fuel (some text) (some pattern) =
      .returned (some rest) ∧
    (pattern.chars ≠ [] → ∀ place, ¬ OccursNoCase rest pattern place) ∧
    rest.chars.length ≤ text.chars.length
  replace (newStr : CString) : ∃ fuel rest,
    strReplaceString fuel text (some pattern) (some newStr) = .returned rest
  pointers : ∃ fuel tokens, strStrTokenize (Terminator.pointers 0) fuel text pattern = .returned tokens
  strings : ∃ fuel tokens, strStrTokenize (Terminator.copies 0) fuel text pattern = .returned tokens

section EndsIff

variable {text pattern rest : CString}

theorem strRemoveString_iff : (∃ fuel, strRemoveString fuel (some text) (some pattern) =
    .returned (some rest)) ↔ Returns (removeStep (findExact pattern) pattern) text rest := by
  simp only [strRemoveString, Outcome.map_eq_returned, Option.some.injEq, exists_eq_right]
  rfl

theorem strRemoveCaseString_iff : (∃ fuel, strRemoveCaseString fuel (some text) (some pattern) =
    .returned (some rest)) ↔ Returns (removeStep (findNoCase pattern) pattern) text rest := by
  simp only [strRemoveCaseString, Outcome.map_eq_returned, Option.some.injEq, exists_eq_right]
  rfl

/-- The loops that cut the text end if the one that removes the pattern does. -/
theorem splitting_ends {β : Type} (store : Terminator.Store (0 : UInt8) β) (nonempty : pattern.chars ≠ [])
    (moves : 0 < intLength pattern ∨ ¬ pattern.chars <:+: text.chars) :
    Ends (strStrStep store pattern) ⟨text.chars, 0, []⟩ := by
  rcases moves with positive | absent
  · obtain ⟨advance, length⟩ := Int.eq_ofNat_of_zero_le (Int.le_of_lt positive)
    obtain ⟨_, _, returns, _⟩ := @strStr_returns pattern advance β store nonempty (by omega) length
      text.chars text.plain [] []
    exact ⟨_, returns⟩
  · obtain ⟨_, _, returns, _⟩ := @strStr_absent pattern β store text.chars text.plain absent [] []
    exact ⟨_, returns⟩

theorem replacing_ends (newStr : CString) (nonempty : pattern.chars ≠ [])
    (moves : 0 < intLength pattern ∨ ¬ pattern.chars <:+: text.chars) :
    Ends (replaceStep pattern newStr) ⟨text.chars, 0, []⟩ := by
  rcases moves with positive | absent
  · obtain ⟨advance, length⟩ := Int.eq_ofNat_of_zero_le (Int.le_of_lt positive)
    exact ⟨_, @replace_returns pattern advance newStr nonempty (by omega) length text.chars text.plain
      [] []⟩
  · exact ⟨_, @replace_absent pattern newStr text.chars text.plain absent [] []⟩

/-- The loops end exactly if the exact pattern does not occur or has a positive length as an
`int`, and if at each stage of the removal without case the first place that agrees can be
removed. -/
theorem patternLoopsEnd_iff (text pattern : CString) : PatternLoopsEnd text pattern ↔
    (0 < intLength pattern ∨ ¬ pattern.chars <:+: text.chars) ∧
      ∀ buf, CaseStage pattern text buf → Removable pattern buf := by
  have nonempty : (0 < intLength pattern ∨ ¬ pattern.chars <:+: text.chars) → pattern.chars ≠ [] := by
    rintro (positive | absent) nothing
    · have short := intLength_le pattern
      rw [nothing, List.length_nil] at short
      omega
    · exact absent (nothing ▸ List.nil_infix)
  constructor
  · intro loops
    obtain ⟨fuel, rest, returned, _⟩ := loops.remove
    have moves := removeString_ends_iff.mp ⟨rest, strRemoveString_iff.mp ⟨fuel, returned⟩⟩
    obtain ⟨fuelCase, restCase, returnedCase, _⟩ := loops.removeCase
    exact ⟨moves, (removeCaseString_ends_iff (nonempty moves)).mp
      ⟨restCase, strRemoveCaseString_iff.mp ⟨fuelCase, returnedCase⟩⟩⟩
  · rintro ⟨moves, removable⟩
    obtain ⟨rest, returns⟩ := removeString_ends_iff.mpr moves
    obtain ⟨fuel, returned⟩ := strRemoveString_iff.mpr returns
    obtain ⟨restCase, returnsCase⟩ := (removeCaseString_ends_iff (nonempty moves)).mpr removable
    obtain ⟨fuelCase, returnedCase⟩ := strRemoveCaseString_iff.mpr returnsCase
    obtain ⟨nothing, shorter⟩ := returns_removed returns
    obtain ⟨nothingCase, shorterCase⟩ := returns_removed returnsCase
    rw [findExact, Outcome.returned.injEq, strstr_eq_none] at nothing
    obtain ⟨_, fuelPointers, pointed⟩ := splitting_ends (Terminator.pointers 0) (nonempty moves) moves
    obtain ⟨_, fuelStrings, copied⟩ := splitting_ends (Terminator.copies 0) (nonempty moves) moves
    exact {
      remove := ⟨fuel, rest, returned, fun _ => nothing, shorter⟩
      removeCase := ⟨fuelCase, restCase, returnedCase,
        fun given => not_noCase_of_findNoCase given nothingCase, shorterCase⟩
      replace := fun newStr =>
        have ⟨_, fuelReplace, replaced⟩ := replacing_ends newStr (nonempty moves) moves
        ⟨fuelReplace, _, replaced⟩
      pointers := ⟨fuelPointers, _, pointed⟩
      strings := ⟨fuelStrings, _, copied⟩ }

end EndsIff

/-- The empty pattern is found over and over again. -/
theorem not_patternLoopsEnd_empty : ¬ PatternLoopsEnd ⟨[97], by decide⟩ ⟨[], by decide⟩ := by
  intro loops
  obtain ⟨fuel, rest, returned, _⟩ := loops.remove
  rcases removeString_ends_iff.mp ⟨rest, strRemoveString_iff.mp ⟨fuel, returned⟩⟩ with positive | absent
  · exact absurd positive (by decide +kernel)
  · exact absent List.nil_infix

end Tegenaria.LibStr
