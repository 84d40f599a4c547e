import Tegenaria.Foundation.Bytes
import Tegenaria.Foundation.Search
import Tegenaria.LibStr.Compare

/-!
# Search in texts

`stristr`, `StrFindWord`, `StrFindIWord` and their UTF-8 versions try one place of the text
after the other.
-/

namespace Tegenaria.LibStr

open Foundation Foundation.Bytes Foundation.Loop Foundation.Search

def letterBefore (text : CString) (place : Nat) : Bool :=
  0 < place && (text.chars[place - 1]?).any isAlpha

/-- The test of the word functions: its second half is skipped at the begin of the text. -/
def wordEnds (text : CString) (place : Nat) (behind : Option UInt8) : Option Bool :=
  if place = 0 then some true
  else if letterBefore text place then some false
  else behind.map fun letter => letter = 0 || !isAlpha letter

def stristr (arg1 arg2 : CString) : Outcome (Option Nat) :=
  placeOf (search (compareAt foldedReader anywhere arg1 arg2) arg1.chars.length 0)

def strFindIWord (arg1 arg2 : CString) : Outcome (Option Nat) :=
  placeOf (search (fun place => compareAt foldedReader (wordEnds arg1 place) arg1 arg2 place)
    arg1.chars.length 0)

def strFindWord (arg1 arg2 : CString) : Outcome (Option Nat) :=
  placeOf (search (fun place => compareAt exactReader (wordEnds arg1 place) arg1 arg2 place)
    arg1.chars.length 0)

/-- The place of the match and its length in bytes. -/
def stristrUtf8 (arg1 arg2 : CString) : Outcome (Option (Nat × Nat)) :=
  (search (compareAt utf8Reader anywhere arg1 arg2) arg1.chars.length 0).map
    (Option.map fun found => (found.1, arg1.memory.length - found.1 - found.2.length))

def strFindIWordUtf8 (arg1 arg2 : CString) : Outcome (Option Nat) :=
  placeOf (search (fun place => compareAt utf8Reader (wordEnds arg1 place) arg1 arg2 place)
    arg1.chars.length 0)

/-- The loop of `StrFindCharMulti`: `p` stays where it is. -/
def charStep (p chars : CString) (ret : Option Nat) : Step (Option Nat) (Option Nat) :=
  match p.chars with
  | [] => .done ret
  | letter :: _ =>
      if ret = none then .next (if letter ∈ chars.chars then some 0 else none) else .done ret

/-- `StrFindCharMulti`: the distance of the character from `p`. -/
def strFindCharMulti (fuel : Nat) : (p chars : Option CString) → (zeroByteMatch : Int) →
    Outcome (Option Nat)
  | some p, some chars, zeroByteMatch =>
      (run (charStep p chars) fuel none).map fun ret =>
        if p.chars = [] ∧ zeroByteMatch ≠ 0 then some 0 else ret
  | _, _, _ => .returned none

example : strFindWord ⟨[97, 98], by decide⟩ ⟨[97], by decide⟩ = .returned (some 0) := by decide

section Stops

variable {reader : Reader} {text pattern : CString} {place : Nat}

/-- The characters behind a match. -/
def behind (reader : Reader) (text pattern : CString) (place : Nat) : List Symbol :=
  (text.symbolsFrom reader place).drop (symbols reader pattern.chars).length

/-- The pattern agrees with the text and its terminator, as far as both go. -/
def AgreesAt (reader : Reader) (text pattern : CString) (place : Nat) : Prop :=
  Agree (text.symbolsFrom reader place) (symbols reader pattern.chars)

def FitsAt (reader : Reader) (text pattern : CString) (place : Nat) : Prop :=
  Fits (text.symbolsFrom reader place) (symbols reader pattern.chars)

/-- There is no letter on either side of a match. -/
def StandsAlone (reader : Reader) (text pattern : CString) (place : Nat) : Prop :=
  letterBefore text place = false ∧ ∃ symbol ∈ (behind reader text pattern place).head?,
    isAlpha symbol.first = false

/-- Places at which a word function does not go on to the next place. -/
def WordStop (reader : Reader) (text pattern : CString) (place : Nat) : Prop :=
  AgreesAt reader text pattern place ∧
    ((place = 0 ∨ StandsAlone reader text pattern place) ∨
      behind reader text pattern place = [] ∨
        ∃ symbol ∈ (behind reader text pattern place).head?, symbol.code = reader.zero)

/-- Places that a word function accepts. -/
def WordHit (reader : Reader) (text pattern : CString) (place : Nat) : Prop :=
  FitsAt reader text pattern place ∧ (place = 0 ∨ StandsAlone reader text pattern place)

theorem symbols_ne_nil (nonempty : pattern.chars ≠ []) : symbols reader pattern.chars ≠ [] := by
  obtain ⟨letter, rest, chars⟩ := List.exists_cons_of_ne_nil nonempty
  obtain ⟨_, _, _, read, _⟩ := reader.next_cons letter rest
  rw [chars, symbols_next read]
  exact List.cons_ne_nil _ _

theorem anywhere_hits_iff (nonempty : pattern.chars ≠ []) :
    (∃ found, compareAt reader anywhere text pattern place = .returned (some found)) ↔
      FitsAt reader text pattern place := by
  have plain := symbols_plain reader pattern
  rw [compareAt_hits_iff]
  constructor
  · exact fits_of_judge plain
  · intro fits
    rw [judge_fits (symbols_ne_nil nonempty) plain rfl fits]
    rfl

theorem anywhere_stops_iff (nonempty : pattern.chars ≠ []) :
    compareAt reader anywhere text pattern place ≠ .returned none ↔
      AgreesAt reader text pattern place := by
  have plain := symbols_plain reader pattern
  rw [compareAt_stops_iff]
  constructor
  · exact fun stops => by_contra fun differs => stops (judge_differs plain differs)
  · intro agree
    rcases agree.cases with fits | ⟨short, less⟩
    · rw [judge_fits (symbols_ne_nil nonempty) plain rfl fits]
      simp [settle, anywhere]
    · rw [judge_short plain short less]
      simp

/-- What the word functions do where the whole pattern has matched. -/
theorem settle_wordEnds (text : CString) (place : Nat) (rest : List Symbol) (zero : Symbol) :
    settle (wordEnds text place) rest (judge (wordEnds text place) rest [zero]) =
      if place = 0 ∨ (letterBefore text place = false ∧ ∃ symbol ∈ rest.head?, isAlpha symbol.first = false)
        then .returned true
      else if rest = [] ∨ ∃ symbol ∈ rest.head?, symbol.code = zero.code then .outside
      else .returned false := by
  by_cases start : place = 0
  · rw [if_pos (.inl start), settle, wordEnds, if_pos start]
  rw [settle]
  cases rest with
  | nil =>
      rw [judge_nil, if_neg (by simp [start]), if_pos (.inl rfl), wordEnds, if_neg start]
      cases letterBefore text place <;> rfl
  | cons symbol rest =>
      simp only [List.head?_cons, Option.map_some, Option.mem_def, Option.some.injEq, exists_eq_left',
        start, false_or, reduceCtorEq, wordEnds, if_false]
      have goesOn : judge (wordEnds text place) (symbol :: rest) [zero] =
          if symbol.code = zero.code then .outside else .returned false := by
        split_ifs with same
        · exact judge_last same rest
        · exact judge_ne same rest []
      by_cases alone : letterBefore text place = false ∧ isAlpha symbol.first = false
      · rw [if_pos alone, alone.1]
        simp [alone.2]
      · rw [if_neg alone, ← goesOn]
        cases before : letterBefore text place with
        | true => rfl
        | false =>
            have letter : isAlpha symbol.first = true := by simpa [before] using alone
            have visible : symbol.first ≠ 0 := fun zero => absurd (zero ▸ letter) (by decide)
            simp [letter, visible]

theorem word_hits_iff (nonempty : pattern.chars ≠ []) :
    (∃ found, compareAt reader (wordEnds text place) text pattern place = .returned (some found)) ↔
      WordHit reader text pattern place := by
  have plain := symbols_plain reader pattern
  rw [compareAt_hits_iff]
  by_cases fits : FitsAt reader text pattern place
  · rw [judge_fits (symbols_ne_nil nonempty) plain rfl fits, settle_wordEnds, WordHit, StandsAlone,
      behind]
    split_ifs with accepted leaves
    · exact iff_of_true rfl ⟨fits, accepted⟩
    · exact iff_of_false (by simp) fun hit => accepted hit.2
    · exact iff_of_false (by simp) fun hit => accepted hit.2
  · exact iff_of_false (fun hit => fits (fits_of_judge plain hit)) fun hit => fits hit.1

theorem word_stops_iff (nonempty : pattern.chars ≠ []) :
    compareAt reader (wordEnds text place) text pattern place ≠ .returned none ↔
      WordStop reader text pattern place := by
  have plain := symbols_plain reader pattern
  rw [compareAt_stops_iff]
  by_cases agree : AgreesAt reader text pattern place
  · rcases agree.cases with fits | ⟨short, less⟩
    · rw [judge_fits (symbols_ne_nil nonempty) plain rfl fits, settle_wordEnds, WordStop, StandsAlone,
        behind]
      split_ifs with accepted leaves
      · exact iff_of_true (by simp) ⟨agree, .inl accepted⟩
      · exact iff_of_true (by simp) ⟨agree, .inr leaves⟩
      · exact iff_of_false (by simp) fun stop => stop.2.elim accepted leaves
    · rw [judge_short plain short less]
      refine iff_of_true (by simp) ⟨agree, .inr (.inl ?_)⟩
      exact List.drop_eq_nil_of_le less.le
  · rw [judge_differs plain agree]
    exact iff_of_false (by simp) fun stop => agree stop.1

end Stops

/-! ## What the functions are for -/

/-- A letter without its case. -/
def lower (letter : UInt8) : UInt8 := if 65 ≤ letter ∧ letter ≤ 90 then letter + 32 else letter

def Occurs (text pattern : CString) (place : Nat) : Prop :=
  pattern.chars <+: text.chars.drop place

def OccursNoCase (text pattern : CString) (place : Nat) : Prop :=
  pattern.chars.map lower <+: (text.chars.drop place).map lower

/-- There is no letter on either side. -/
def IsWord (text pattern : CString) (place : Nat) : Prop :=
  letterBefore text place = false ∧ (text.chars[place + pattern.chars.length]?).any isAlpha = false

instance (text pattern : CString) : DecidablePred (Occurs text pattern) :=
  fun _ => inferInstanceAs (Decidable (_ <+: _))

instance (text pattern : CString) : DecidablePred (OccursNoCase text pattern) :=
  fun _ => inferInstanceAs (Decidable (_ <+: _))

instance (text pattern : CString) : DecidablePred (IsWord text pattern) :=
  fun _ => inferInstanceAs (Decidable (_ ∧ _))

/-- The first letter that is in a set, or else the terminator if it is asked for. -/
def firstOfSet (text chars : CString) (zeroByteMatch : Int) : Option Nat :=
  (text.chars.findIdx? (· ∈ chars.chars)).or
    (if zeroByteMatch ≠ 0 then some text.chars.length else none)

section Bytes

variable {text pattern : CString} {place : Nat} {code : UInt8 → Nat}

theorem symbols_byteReader (code : UInt8 → Nat) (memory : Chars) :
    symbols (byteReader code) memory = memory.map fun letter => ⟨code letter, letter⟩ := by
  induction memory with
  | nil => exact symbols_nil
  | cons letter rest ih =>
      have read : (byteReader code).next (letter :: rest) = some (code letter, rest) := rfl
      rw [symbols_next read, ih]
      rfl

theorem fitsAt_byteReader : FitsAt (byteReader code) text pattern place ↔
    pattern.chars.map code <+: (text.memory.drop place).map code := by
  rw [FitsAt, Fits, CString.symbolsFrom, symbols_byteReader, symbols_byteReader, List.map_map,
    List.map_map]
  rfl

/-- Letters that fold to the same codes as those of the pattern. -/
theorem fitsAt_of_occurs (inside : place ≤ text.chars.length)
    (occurs : pattern.chars.map code <+: (text.chars.drop place).map code) :
    FitsAt (byteReader code) text pattern place := by
  rw [fitsAt_byteReader, CString.memory, List.drop_append_of_le_length inside, List.map_append]
  exact occurs.trans (List.prefix_append _ _)

theorem folded_lower (letter : UInt8) : folded (lower letter) = folded letter := by
  revert letter
  exact forall_byte (by decide +kernel)

theorem map_folded_of_noCase (occurs : OccursNoCase text pattern place) :
    pattern.chars.map folded <+: (text.chars.drop place).map folded := by
  have mapped := List.IsPrefix.map folded occurs
  simpa only [List.map_map, Function.comp_def, folded_lower] using mapped

theorem standsAlone_of_isWord (fits : place + pattern.chars.length ≤ text.chars.length)
    (word : IsWord text pattern place) : StandsAlone (byteReader code) text pattern place := by
  refine ⟨word.1, ?_⟩
  have after := word.2
  rw [behind, CString.symbolsFrom, symbols_byteReader, symbols_byteReader, List.length_map,
    ← List.map_drop, List.drop_drop, List.head?_map, List.head?_drop, CString.memory]
  by_cases ended : place + pattern.chars.length < text.chars.length
  · rw [List.getElem?_append_left ended]
    rw [List.getElem?_eq_getElem ended] at after ⊢
    exact ⟨_, rfl, after⟩
  · have last : place + pattern.chars.length = text.chars.length := by omega
    rw [last, List.getElem?_concat_length]
    exact ⟨⟨code 0, 0⟩, rfl, (by decide : isAlpha 0 = false)⟩

end Bytes

/-- Every search is right, and ends inside of the strings. -/
structure SearchCorrect (text pattern chars : CString) (zeroByteMatch : Int) : Prop where
  caseless : stristr text pattern =
    .returned (firstPlace (OccursNoCase text pattern) text.chars.length)
  word : strFindWord text pattern = .returned
    (firstPlace (fun place => Occurs text pattern place ∧ IsWord text pattern place) text.chars.length)
  iword : strFindIWord text pattern = .returned
    (firstPlace (fun place => OccursNoCase text pattern place ∧ IsWord text pattern place)
      text.chars.length)
  charMulti : ∃ fuel, strFindCharMulti fuel (some text) (some chars) zeroByteMatch =
    .returned (firstOfSet text chars zeroByteMatch)
  utf8 : ∃ found, stristrUtf8 text pattern = .returned found
  iwordUtf8 : ∃ found, strFindIWordUtf8 text pattern = .returned found

/-- The first place at which a search stops is one that it looks for. -/
structure FirstStopsRight (text pattern chars : CString) : Prop where
  caseless : ∀ place < text.chars.length, FirstOf (AgreesAt foldedReader text pattern) place →
    OccursNoCase text pattern place
  word : ∀ place < text.chars.length, FirstOf (WordStop exactReader text pattern) place →
    Occurs text pattern place ∧ IsWord text pattern place
  iword : ∀ place < text.chars.length, FirstOf (WordStop foldedReader text pattern) place →
    OccursNoCase text pattern place ∧ IsWord text pattern place
  charMulti : ∀ letter ∈ text.chars.head?, letter ∈ chars.chars
  utf8 : ∀ place < text.chars.length, FirstOf (AgreesAt utf8Reader text pattern) place →
    FitsAt utf8Reader text pattern place
  iwordUtf8 : ∀ place < text.chars.length, FirstOf (WordStop utf8Reader text pattern) place →
    WordHit utf8Reader text pattern place

section Correct

variable {text pattern chars : CString} {zeroByteMatch : Int} {place : Nat}

theorem length_le_of_noCase (inside : place < text.chars.length)
    (occurs : OccursNoCase text pattern place) :
    place + pattern.chars.length ≤ text.chars.length := by
  have shorter := List.IsPrefix.length_le occurs
  rw [List.length_map, List.length_map, List.length_drop] at shorter
  omega

theorem noCase_of_occurs (occurs : Occurs text pattern place) : OccursNoCase text pattern place :=
  List.IsPrefix.map lower occurs

theorem wordHit_of_noCase (inside : place < text.chars.length)
    (good : OccursNoCase text pattern place ∧ IsWord text pattern place) :
    WordHit foldedReader text pattern place :=
  ⟨fitsAt_of_occurs inside.le (map_folded_of_noCase good.1),
    .inr (standsAlone_of_isWord (length_le_of_noCase inside good.1) good.2)⟩

theorem wordHit_of_occurs (inside : place < text.chars.length)
    (good : Occurs text pattern place ∧ IsWord text pattern place) :
    WordHit exactReader text pattern place :=
  ⟨fitsAt_of_occurs inside.le (List.IsPrefix.map _ good.1),
    .inr (standsAlone_of_isWord (length_le_of_noCase inside (noCase_of_occurs good.1)) good.2)⟩

theorem strFindCharMulti_iff {found : Option Nat} :
    (∃ fuel, strFindCharMulti fuel (some text) (some chars) zeroByteMatch = .returned found) ↔
      ∃ ret, Returns (charStep text chars) none ret ∧
        (if text.chars = [] ∧ zeroByteMatch ≠ 0 then some 0 else ret) = found := by
  simp only [strFindCharMulti, Outcome.map_eq_returned]
  constructor
  · exact fun ⟨fuel, ret, returned, same⟩ => ⟨ret, ⟨fuel, returned⟩, same⟩
  · exact fun ⟨ret, ⟨fuel, returned⟩, same⟩ => ⟨fuel, ret, returned, same⟩

/-- `p` is not moved, so the loop does not come past a first letter that is not in the set. -/
theorem charMulti_iff : (∃ fuel, strFindCharMulti fuel (some text) (some chars) zeroByteMatch =
      .returned (firstOfSet text chars zeroByteMatch)) ↔
    ∀ letter ∈ text.chars.head?, letter ∈ chars.chars := by
  rw [strFindCharMulti_iff, firstOfSet]
  cases letters : text.chars with
  | nil =>
      have ends : charStep text chars none = .done none := by rw [charStep, letters]
      refine iff_of_true ⟨none, (returns_done ends).mpr rfl, ?_⟩ (by simp)
      split_ifs with asked zero zero
      · rfl
      · exact absurd asked.2 zero
      · exact absurd ⟨rfl, zero⟩ asked
      · rfl
  | cons letter rest =>
      have goes : charStep text chars none =
          .next (if letter ∈ chars.chars then some 0 else none) := by
        rw [charStep, letters]
        exact if_pos rfl
      by_cases member : letter ∈ chars.chars
      · rw [if_pos member] at goes
        have ends : charStep text chars (some 0) = .done (some 0) := by
          rw [charStep, letters]
          exact if_neg (Option.some_ne_none 0)
        refine iff_of_true ⟨some 0, (returns_next goes).mpr ((returns_done ends).mpr rfl), ?_⟩
          (by simpa using member)
        rw [if_neg (by simp), List.findIdx?_cons, if_pos (decide_eq_true member)]
        rfl
      · rw [if_neg member] at goes
        refine iff_of_false ?_ (by simpa using member)
        rintro ⟨ret, returns, _⟩
        refine @not_ends_of_invariant _ _ (charStep text chars) none (· = none) ?_ rfl ⟨ret, returns⟩
        rintro _ rfl
        exact .inr ⟨none, goes, rfl⟩

/-- All searches are right exactly if each stops at a place that it looks for. -/
theorem searchCorrect_iff (nonempty : pattern.chars ≠ []) :
    SearchCorrect text pattern chars zeroByteMatch ↔ FirstStopsRight text pattern chars := by
  have caseless := @search_eq_firstPlace_iff _ (compareAt foldedReader anywhere text pattern)
    text.chars.length _ (OccursNoCase text pattern) _ (fun _ _ => anywhere_stops_iff nonempty)
    fun _ inside occurs => (anywhere_hits_iff nonempty).mpr
      (fitsAt_of_occurs inside.le (map_folded_of_noCase occurs))
  have word := @search_eq_firstPlace_iff _
    (fun place => compareAt exactReader (wordEnds text place) text pattern place)
    text.chars.length _ (fun place => Occurs text pattern place ∧ IsWord text pattern place) _
    (fun _ _ => word_stops_iff nonempty)
    fun _ inside good => (word_hits_iff nonempty).mpr (wordHit_of_occurs inside good)
  have iword := @search_eq_firstPlace_iff _
    (fun place => compareAt foldedReader (wordEnds text place) text pattern place)
    text.chars.length _ (fun place => OccursNoCase text pattern place ∧ IsWord text pattern place) _
    (fun _ _ => word_stops_iff nonempty)
    fun _ inside good => (word_hits_iff nonempty).mpr (wordHit_of_noCase inside good)
  have utf8 := @search_returns_iff _ (compareAt utf8Reader anywhere text pattern)
    text.chars.length _ fun _ _ => anywhere_stops_iff nonempty
  have iwordUtf8 := @search_returns_iff _
    (fun place => compareAt utf8Reader (wordEnds text place) text pattern place)
    text.chars.length _ fun _ _ => word_stops_iff nonempty
  simp only [anywhere_hits_iff nonempty] at utf8
  simp only [word_hits_iff nonempty] at iwordUtf8
  have charMulti := @charMulti_iff text chars zeroByteMatch
  constructor
  · intro correct
    exact {
      caseless := caseless.mp correct.caseless
      word := word.mp correct.word
      iword := iword.mp correct.iword
      charMulti := charMulti.mp correct.charMulti
      utf8 := utf8.mp ((Outcome.returned_map_iff _).mp correct.utf8)
      iwordUtf8 := iwordUtf8.mp ((Outcome.returned_map_iff _).mp correct.iwordUtf8) }
  · intro right
    exact {
      caseless := caseless.mpr right.caseless
      word := word.mpr right.word
      iword := iword.mpr right.iword
      charMulti := charMulti.mpr right.charMulti
      utf8 := (Outcome.returned_map_iff _).mpr (utf8.mpr right.utf8)
      iwordUtf8 := (Outcome.returned_map_iff _).mpr (iwordUtf8.mpr right.iwordUtf8) }

end Correct

/-- A text begins with itself. -/
theorem fitsAt_begin (reader : Reader) (text : CString) : FitsAt reader text text 0 := by
  rw [FitsAt, Fits, CString.symbolsFrom, List.drop_zero, CString.memory, symbols_memory,
    List.map_append]
  exact List.prefix_append _ _

/-- A text that is one word of one letter. -/
theorem searchCorrect_letter :
    SearchCorrect ⟨[97], by decide⟩ ⟨[97], by decide⟩ ⟨[97], by decide⟩ 0 := by
  have start : ∀ place < 1, place = 0 := fun _ => Nat.lt_one_iff.mp
  exact (searchCorrect_iff (by decide)).mpr {
    caseless := fun place inside _ => by rw [start place inside]; decide
    word := fun place inside _ => by rw [start place inside]; decide
    iword := fun place inside _ => by rw [start place inside]; decide
    charMulti := by simp
    utf8 := fun place inside _ => by rw [start place inside]; exact fitsAt_begin _ _
    iwordUtf8 := fun place inside _ => by
      rw [start place inside]
      exact ⟨fitsAt_begin _ _, .inl rfl⟩ }

/-- At the begin of the text `StrFindWord` does not look behind the word. -/
theorem not_searchCorrect_begin :
    ¬ SearchCorrect ⟨[97, 98], by decide⟩ ⟨[97], by decide⟩ ⟨[97], by decide⟩ 0 :=
  fun correct => absurd correct.word (by decide)

end Tegenaria.LibStr
