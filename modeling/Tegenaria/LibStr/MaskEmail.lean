import Tegenaria.LibStr.Pattern

/-!
# Masked addresses

From every `@`, `StrMaskEmail` goes to the left and to the right up to the next white space and
masks letters and digits.  The scan to the left stops before it looks at the first character of
the text, so this one is masked only if it is behind an `@`, which it never is.
-/

namespace Tegenaria.LibStr

open Foundation.Loop

namespace MaskEmail

def atSign : UInt8 := 64

/-- The mask character `x`. -/
def mask : UInt8 := 120

/-- `isspace` in the C locale. -/
def isWhite (letter : UInt8) : Bool := letter == 32 || (9 ≤ letter && letter ≤ 13)

/-- `isalnum` in the C locale.  A negative `char` is neither a letter nor a digit. -/
def isAlnum (letter : UInt8) : Bool :=
  (48 ≤ letter && letter ≤ 57) || (65 ≤ letter && letter ≤ 90) || (97 ≤ letter && letter ≤ 122)

def masked (letter : UInt8) : UInt8 := if isAlnum letter then mask else letter

/-- The loop to the left, down to the position 1. -/
def maskLeft (text : Chars) : Nat → Chars
  | 0 => text
  | it + 1 =>
      match text[it + 1]? with
      | none => text
      | some letter => if isWhite letter then text else maskLeft (text.set (it + 1) (masked letter)) it

/-- The loop to the right, up to the terminator.  There are not more rounds than characters. -/
def maskRight : Nat → Chars → Nat → Chars
  | 0, text, _ => text
  | rounds + 1, text, it =>
      match text[it]? with
      | none => text
      | some letter =>
          if isWhite letter then text else maskRight rounds (text.set it (masked letter)) (it + 1)

structure Masking where
  text : Chars
  next : Nat

/-- One round of the outer loop, at the first `@` from `next` on. -/
def maskStep (state : Masking) : Step Masking Chars :=
  match (state.text.drop state.next).idxOf? atSign with
  | none => .done state.text
  | some offset =>
      let next := state.next + offset
      .next ⟨maskRight state.text.length (maskLeft state.text (next - 1)) (next + 1), next + 1⟩

end MaskEmail

/-- `StrMaskEmail`: the result and the text behind the call. -/
def strMaskEmail (fuel : Nat) (p : Option CString) : Outcome (Int × Chars) :=
  match p with
  | none => .returned (-1, [])
  | some p => (run MaskEmail.maskStep fuel ⟨p.chars, 0⟩).map fun text => (0, text)

namespace MaskEmail

/-! ## Masking some positions -/

/-- The second text is the first one with some positions masked. -/
structure Agrees (text : Chars) (touched : Nat → Prop) (result : Chars) : Prop where
  length : result.length = text.length
  inside : ∀ position letter, text[position]? = some letter → touched position →
    result[position]? = some (masked letter)
  outside : ∀ position letter, text[position]? = some letter → ¬ touched position →
    result[position]? = some letter

/-- There is a character that is not white at this position. -/
def Dark (text : Chars) (position : Nat) : Prop :=
  ∃ letter, text[position]? = some letter ∧ isWhite letter = false

theorem masked_masked (letter : UInt8) : masked (masked letter) = masked letter := by
  have still : masked mask = mask := by decide
  unfold masked
  split
  · exact still
  · rfl

theorem isWhite_masked (letter : UInt8) : isWhite (masked letter) = isWhite letter := by
  unfold masked
  split
  · next alnum =>
      have dark : isWhite mask = false := by decide
      rw [dark]
      simp only [isAlnum, isWhite, Bool.or_eq_true, Bool.and_eq_true, decide_eq_true_eq] at alnum ⊢
      simp only [Bool.false_eq, Bool.or_eq_false_iff, beq_eq_false_iff_ne, Bool.and_eq_false_iff,
        decide_eq_false_iff_not]
      grind
  · rfl

theorem Agrees.refl {text : Chars} {touched : Nat → Prop}
    (untouched : ∀ position letter, text[position]? = some letter → ¬ touched position) :
    Agrees text touched text :=
  ⟨rfl, fun position letter found inside => absurd inside (untouched position letter found),
    fun _ _ found _ => found⟩

/-- Only the positions with a letter or digit matter. -/
theorem Agrees.congr {text result : Chars} {touched others : Nat → Prop}
    (agrees : Agrees text touched result)
    (same : ∀ position letter, text[position]? = some letter → masked letter ≠ letter →
      (touched position ↔ others position)) : Agrees text others result := by
  refine ⟨agrees.length, ?_, ?_⟩
  · intro position letter found other
    by_cases fixed : masked letter = letter
    · by_cases inside : touched position
      · exact agrees.inside position letter found inside
      · rw [fixed]
        exact agrees.outside position letter found inside
    · exact agrees.inside position letter found ((same position letter found fixed).mpr other)
  · intro position letter found other
    by_cases fixed : masked letter = letter
    · by_cases inside : touched position
      · rw [agrees.inside position letter found inside, fixed]
      · exact agrees.outside position letter found inside
    · exact agrees.outside position letter found (mt (same position letter found fixed).mp other)

theorem Agrees.trans {text middle result : Chars} {first second : Nat → Prop}
    (begin : Agrees text first middle) (rest : Agrees middle second result) :
    Agrees text (fun position => first position ∨ second position) result := by
  refine ⟨rest.length.trans begin.length, ?_, ?_⟩
  · intro position letter found touched
    by_cases early : first position
    · have between := begin.inside position letter found early
      by_cases late : second position
      · rw [rest.inside position _ between late, masked_masked]
      · exact rest.outside position _ between late
    · have between := begin.outside position letter found early
      exact rest.inside position _ between (touched.resolve_left early)
  · intro position letter found untouched
    rw [not_or] at untouched
    exact rest.outside position _ (begin.outside position letter found untouched.1) untouched.2

theorem Agrees.set {text : Chars} {position : Nat} {letter : UInt8}
    (found : text[position]? = some letter) :
    Agrees text (· = position) (text.set position (masked letter)) := by
  have inside := (List.getElem?_eq_some_iff.mp found).1
  refine ⟨List.length_set, ?_, ?_⟩
  · rintro _ other there rfl
    rw [List.getElem?_set_self inside, Option.some.inj (there.symm.trans found)]
  · intro other _ there different
    rw [List.getElem?_set_ne (Ne.symm different), there]

theorem Agrees.getElem? {text result : Chars} {touched : Nat → Prop} (agrees : Agrees text touched result)
    {position : Nat} {letter : UInt8} (found : text[position]? = some letter) :
    result[position]? = some (masked letter) ∨ result[position]? = some letter := by
  by_cases inside : touched position
  · exact .inl (agrees.inside position letter found inside)
  · exact .inr (agrees.outside position letter found inside)

theorem Agrees.dark_iff {text result : Chars} {touched : Nat → Prop} (agrees : Agrees text touched result)
    (position : Nat) : Dark result position ↔ Dark text position := by
  cases found : text[position]? with
  | none =>
      have short : text.length ≤ position := List.getElem?_eq_none_iff.mp found
      have ends : result[position]? = none :=
        List.getElem?_eq_none_iff.mpr (by rw [agrees.length]; exact short)
      simp only [Dark, found, ends]
  | some letter =>
      rcases agrees.getElem? found with change | same
      · simp only [Dark, found, change, Option.some.injEq, exists_eq_left', isWhite_masked]
      · simp only [Dark, found, same]

theorem Dark.of_some {text : Chars} {position : Nat} {letter : UInt8} (dark : Dark text position)
    (found : text[position]? = some letter) : isWhite letter = false := by
  obtain ⟨other, there, visible⟩ := dark
  rwa [← Option.some.inj (there.symm.trans found)]

/-! ## The loops -/

theorem maskLeft_agrees (text : Chars) (it : Nat) :
    Agrees text (fun position => 0 < position ∧ position ≤ it ∧
      ∀ between, position ≤ between → between ≤ it → Dark text between) (maskLeft text it) := by
  induction it generalizing text with
  | zero => exact .refl fun position letter found touched => by omega
  | succ it ih =>
      cases found : text[it + 1]? with
      | none =>
          rw [maskLeft, found]
          refine .refl fun position letter there touched => ?_
          obtain ⟨other, dark, -⟩ := touched.2.2 (it + 1) touched.2.1 le_rfl
          cases found.symm.trans dark
      | some letter =>
          cases white : isWhite letter with
          | true =>
              have same : maskLeft text (it + 1) = text := by
                rw [maskLeft, found]
                exact if_pos white
              rw [same]
              refine .refl fun position other there touched => ?_
              have dark := (touched.2.2 (it + 1) touched.2.1 le_rfl).of_some found
              cases white.symm.trans dark
          | false =>
              have same : maskLeft text (it + 1) = maskLeft (text.set (it + 1) (masked letter)) it := by
                rw [maskLeft, found]
                exact if_neg (by rw [white]; exact Bool.false_ne_true)
              rw [same]
              have set := Agrees.set found
              refine (set.trans (ih (text.set (it + 1) (masked letter)))).congr ?_
              intro position other there changes
              simp only [set.dark_iff]
              have last : Dark text (it + 1) := ⟨letter, found, white⟩
              constructor
              · rintro (rfl | ⟨positive, below, dark⟩)
                · refine ⟨by omega, le_rfl, fun between above under => ?_⟩
                  rwa [Nat.le_antisymm under above]
                · refine ⟨positive, by omega, fun between above under => ?_⟩
                  by_cases top : between = it + 1
                  · rwa [top]
                  · exact dark between above (by omega)
              · rintro ⟨positive, below, dark⟩
                by_cases top : position = it + 1
                · exact .inl top
                · exact .inr ⟨positive, by omega, fun between above under => dark between above (by omega)⟩

theorem maskRight_agrees {text : Chars} {rounds it : Nat} (enough : text.length ≤ it + rounds) :
    Agrees text (fun position => it ≤ position ∧
      ∀ between, it ≤ between → between ≤ position → Dark text between) (maskRight rounds text it) := by
  induction rounds generalizing text it with
  | zero =>
      refine .refl fun position letter found touched => ?_
      have inside := (List.getElem?_eq_some_iff.mp found).1
      omega
  | succ rounds ih =>
      cases found : text[it]? with
      | none =>
          rw [maskRight, found]
          refine .refl fun position letter there touched => ?_
          obtain ⟨other, dark, -⟩ := touched.2 it le_rfl touched.1
          cases found.symm.trans dark
      | some letter =>
          cases white : isWhite letter with
          | true =>
              have same : maskRight (rounds + 1) text it = text := by
                rw [maskRight, found]
                exact if_pos white
              rw [same]
              refine .refl fun position other there touched => ?_
              have dark := (touched.2 it le_rfl touched.1).of_some found
              cases white.symm.trans dark
          | false =>
              have same : maskRight (rounds + 1) text it =
                  maskRight rounds (text.set it (masked letter)) (it + 1) := by
                rw [maskRight, found]
                exact if_neg (by rw [white]; exact Bool.false_ne_true)
              rw [same]
              have set := Agrees.set found
              have shorter : (text.set it (masked letter)).length ≤ it + 1 + rounds := by
                rw [List.length_set]
                omega
              refine (set.trans (ih shorter)).congr ?_
              intro position other there changes
              simp only [set.dark_iff]
              have first : Dark text it := ⟨letter, found, white⟩
              constructor
              · rintro (rfl | ⟨above, dark⟩)
                · refine ⟨le_rfl, fun between onward under => ?_⟩
                  rwa [Nat.le_antisymm under onward]
                · refine ⟨by omega, fun between onward under => ?_⟩
                  by_cases bottom : between = it
                  · rwa [bottom]
                  · exact dark between (by omega) under
              · rintro ⟨above, dark⟩
                by_cases bottom : position = it
                · exact .inl bottom
                · exact .inr ⟨by omega, fun between onward under => dark between (by omega) under⟩

/-! ## Runs of characters that are not white -/

/-- Two positions of one run. -/
def SameRun (text : Chars) (first second : Nat) : Prop :=
  ∀ between, min first second ≤ between → between ≤ max first second → Dark text between

/-- The position lies in a run with an `@` before a bound. -/
def Reached (text : Chars) (bound position : Nat) : Prop :=
  ∃ place < bound, text[place]? = some atSign ∧ SameRun text position place

/-- The position lies in a run with an `@`. -/
def Addressed (text : Chars) (position : Nat) : Prop :=
  ∃ place, text[place]? = some atSign ∧ SameRun text position place

/-- What the call is for: in the runs with an `@` no letter and no digit but the mask is left;
everything else is as it was. -/
structure Hides (text after : Chars) : Prop where
  length : after.length = text.length
  hidden : ∀ position letter, Addressed text position → after[position]? = some letter →
    isAlnum letter = true → letter = mask
  kept : ∀ position, ¬ Addressed text position → after[position]? = text[position]?

theorem masked_eq_atSign (letter : UInt8) : masked letter = atSign ↔ letter = atSign := by
  have other : isAlnum atSign = false := by decide
  have different : mask ≠ atSign := by decide
  constructor
  · intro same
    unfold masked at same
    split at same
    · exact absurd same different
    · exact same
  · rintro rfl
    rw [masked, other]
    rfl

theorem Agrees.atSign_iff {text result : Chars} {touched : Nat → Prop} (agrees : Agrees text touched result)
    (position : Nat) : result[position]? = some atSign ↔ text[position]? = some atSign := by
  cases found : text[position]? with
  | none =>
      have short : text.length ≤ position := List.getElem?_eq_none_iff.mp found
      rw [List.getElem?_eq_none_iff.mpr (by rw [agrees.length]; exact short)]
  | some letter =>
      rcases agrees.getElem? found with change | same
      · rw [change, Option.some.injEq, Option.some.injEq, masked_eq_atSign]
      · rw [same]

/-- The next `@`, and none before it. -/
theorem maskStep_next {state later : Masking} (goes : maskStep state = .next later) :
    ∃ place, state.next ≤ place ∧ state.text[place]? = some atSign ∧
      (∀ earlier, state.next ≤ earlier → earlier < place → state.text[earlier]? ≠ some atSign) ∧
      later = ⟨maskRight state.text.length (maskLeft state.text (place - 1)) (place + 1), place + 1⟩ := by
  unfold maskStep at goes
  split at goes
  · cases goes
  · next offset found =>
      cases goes
      obtain ⟨inside, there, first⟩ := List.idxOf?_eq_some_iff.mp found
      refine ⟨state.next + offset, Nat.le_add_right _ _, ?_, ?_, rfl⟩
      · rw [← List.getElem?_drop, List.getElem?_eq_getElem inside, there]
      · intro earlier above below here
        obtain ⟨distance, rfl⟩ := Nat.exists_eq_add_of_le above
        have short : distance < offset := by omega
        rw [← List.getElem?_drop] at here
        obtain ⟨within, same⟩ := List.getElem?_eq_some_iff.mp here
        exact first distance short same

theorem maskStep_done {state : Masking} {result : Chars} (ends : maskStep state = .done result) :
    result = state.text ∧ ∀ place, state.next ≤ place → state.text[place]? ≠ some atSign := by
  unfold maskStep at ends
  split at ends
  · next absent =>
      cases ends
      refine ⟨rfl, fun place above here => ?_⟩
      obtain ⟨distance, rfl⟩ := Nat.exists_eq_add_of_le above
      rw [← List.getElem?_drop] at here
      exact List.idxOf?_eq_none_iff.mp absent (List.mem_of_getElem? here)
  · cases ends

/-- The masked positions while the text before `next` is done: all but the first one that a run
joins to an `@` there. -/
def Progress (text : Chars) (state : Masking) : Prop :=
  Agrees text (fun position => 0 < position ∧ Reached text state.next position) state.text

theorem Progress.step {text : Chars} {state later : Masking} (progress : Progress text state)
    (goes : maskStep state = .next later) : Progress text later := by
  obtain ⟨place, above, there, first, rfl⟩ := maskStep_next goes
  have left := maskLeft_agrees state.text (place - 1)
  have enough : (maskLeft state.text (place - 1)).length ≤ place + 1 + state.text.length := by
    rw [left.length]
    omega
  have right := maskRight_agrees enough
  have here : text[place]? = some atSign := (progress.atSign_iff place).mp there
  have dark : Dark text place := ⟨atSign, here, by decide⟩
  refine ((progress.trans left).trans right).congr ?_
  intro position letter found changes
  simp only [left.dark_iff, Agrees.dark_iff progress]
  constructor
  · rintro ((⟨positive, old, before, sign, run⟩ | ⟨positive, below, run⟩) | ⟨beyond, run⟩)
    · exact ⟨positive, old, by omega, sign, run⟩
    · refine ⟨positive, place, Nat.lt_succ_self place, here, fun between onward under => ?_⟩
      by_cases top : between = place
      · rwa [top]
      · exact run between (by omega) (by omega)
    · refine ⟨by omega, place, Nat.lt_succ_self place, here, fun between onward under => ?_⟩
      by_cases bottom : between = place
      · rwa [bottom]
      · exact run between (by omega) (by omega)
  · rintro ⟨positive, old, before, sign, run⟩
    by_cases early : old < state.next
    · exact .inl (.inl ⟨positive, old, early, sign, run⟩)
    · obtain rfl : old = place := by
        by_contra different
        exact first old (by omega) (by omega) ((progress.atSign_iff old).mpr sign)
      rcases Nat.lt_trichotomy position old with less | same | greater
      · exact .inl (.inr ⟨positive, by omega,
          fun between onward under => run between (by omega) (by omega)⟩)
      · exfalso
        rw [same, here] at found
        apply changes
        rw [← Option.some.inj found]
        decide
      · exact .inr ⟨by omega, fun between onward under => run between (by omega) (by omega)⟩

/-- The call ends, and then all characters of addresses but the first one of the text are
masked. -/
theorem maskEmail_returns (text : Chars) : ∃ after, Returns maskStep ⟨text, 0⟩ after ∧
    Agrees text (fun position => 0 < position ∧ Addressed text position) after := by
  have initial : Progress text ⟨text, 0⟩ :=
    .refl fun position letter found touched => by
      obtain ⟨-, place, before, -⟩ := touched
      exact absurd before (Nat.not_lt_zero place)
  have steps : ∀ state, Progress text state → (∃ value, maskStep state = .done value) ∨
      ∃ later, maskStep state = .next later ∧ Progress text later ∧
        text.length - later.next < text.length - state.next := by
    intro state progress
    cases result : maskStep state with
    | done value => exact .inl ⟨value, rfl⟩
    | next later =>
        refine .inr ⟨later, rfl, progress.step result, ?_⟩
        obtain ⟨place, above, there, -, rfl⟩ := maskStep_next result
        have inside := (List.getElem?_eq_some_iff.mp there).1
        rw [progress.length] at inside
        show text.length - (place + 1) < text.length - state.next
        omega
    | outside =>
        unfold maskStep at result
        split at result <;> cases result
  obtain ⟨after, returns⟩ := ends_of_measure _ steps initial
  refine ⟨after, returns, ?_⟩
  have keeps : ∀ state later, Progress text state → maskStep state = .next later → Progress text later :=
    fun _ _ progress goes => progress.step goes
  refine returns.post keeps ?_ initial
  intro state result progress ends
  obtain ⟨rfl, absent⟩ := maskStep_done ends
  refine progress.congr fun position letter found changes => and_congr_right fun _ => ?_
  constructor
  · rintro ⟨place, -, sign, run⟩
    exact ⟨place, sign, run⟩
  · rintro ⟨place, sign, run⟩
    refine ⟨place, ?_, sign, run⟩
    by_contra beyond
    exact absent place (by omega) ((progress.atSign_iff place).mpr sign)

end MaskEmail

/-- The call returns, and it hides every address exactly when the text does not begin with a letter
or digit, other than the mask, whose run has an `@`. -/
theorem strMaskEmail_hides_iff (p : CString) :
    ∃ fuel after, strMaskEmail fuel (some p) = .returned (0, after) ∧
      (MaskEmail.Hides p.chars after ↔
        ∀ letter, p.chars[0]? = some letter → MaskEmail.Addressed p.chars 0 →
          MaskEmail.isAlnum letter = true → letter = MaskEmail.mask) := by
  obtain ⟨after, ⟨fuel, returned⟩, agrees⟩ := MaskEmail.maskEmail_returns p.chars
  refine ⟨fuel, after, ?_, ?_⟩
  · rw [strMaskEmail, returned]
    rfl
  constructor
  · intro hides letter found addressed
    refine hides.hidden 0 letter addressed ?_
    exact agrees.outside 0 letter found fun touched => Nat.lt_irrefl 0 touched.1
  · intro harmless
    refine ⟨agrees.length, ?_, ?_⟩
    · intro position letter addressed found alnum
      have inside := (List.getElem?_eq_some_iff.mp found).1
      rw [agrees.length] at inside
      have there := List.getElem?_eq_getElem inside
      by_cases front : position = 0
      · subst front
        have same := agrees.outside 0 _ there fun touched => Nat.lt_irrefl 0 touched.1
        rw [found] at same
        exact harmless letter (there.trans same.symm) addressed alnum
      · have change := agrees.inside position _ there ⟨Nat.pos_of_ne_zero front, addressed⟩
        rw [found] at change
        have same := Option.some.inj change
        unfold MaskEmail.masked at same
        split at same
        · exact same
        · next other =>
            rw [← same] at other
            exact absurd alnum other
    · intro position free
      cases found : p.chars[position]? with
      | none =>
          have short : p.chars.length ≤ position := List.getElem?_eq_none_iff.mp found
          exact List.getElem?_eq_none_iff.mpr (by rw [agrees.length]; exact short)
      | some letter => exact agrees.outside position letter found fun touched => free touched.2

/-- The address `a@b`. -/
def shortAddress : CString := ⟨[97, 64, 98], by decide⟩

/-- The first letter of an address at the begin of the text stays. -/
theorem strMaskEmail_first :
    strMaskEmail 3 (some shortAddress) = .returned (0, [97, 64, 120]) ∧
      ¬ MaskEmail.Hides shortAddress.chars [97, 64, 120] := by
  refine ⟨by decide, fun hides => ?_⟩
  have addressed : MaskEmail.Addressed shortAddress.chars 0 := by
    refine ⟨1, rfl, fun between _ below => ?_⟩
    match between with
    | 0 => exact ⟨97, rfl, by decide⟩
    | 1 => exact ⟨64, rfl, by decide⟩
    | later + 2 => omega
  exact absurd (hides.hidden 0 97 addressed rfl (by decide)) (by decide)

end Tegenaria.LibStr
