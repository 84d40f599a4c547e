import Mathlib.Data.Finset.Insert
import Mathlib.Data.Finset.Dedup
import Mathlib.Data.Finset.Lattice.Lemmas
import Mathlib.Data.Finset.Basic
import Tegenaria.Foundation.Terminator
import Tegenaria.LibStr.Text

/-!
# Tokens with quotation marks

`StrTokenize` with extra delimiters cuts a string in place: a delimiter outside
quotation marks ends a token, and the mark that closes a quotation ends it too.  The
versions differ in what they keep of a token: a pointer into the string that is being
cut, or a copy.
-/

namespace Tegenaria.LibStr

open Foundation

/-- The loop of `StrTokenize`.  `seen` holds the letters before `end` as they are after
the cuts, `rest` those from `end` on; `begin` is a position in the string. -/
@[grind =] def tokenizeLoop (delims delimsExtra : Text) :
    Nat → (seen rest : Text) → (begin : Nat) → (quoted : Bool) → Finset Text → Finset Text
  | 0, _, _, _, _, tokens => tokens
  | _ + 1, seen, [], begin, _, tokens =>
      if seen.length > begin then insert (cStr (seen.drop begin)) tokens else tokens
  | fuel + 1, seen, letter :: rest, begin, quoted, tokens =>
      let isMark := letter ∈ delimsExtra
      let marks := ((seen ++ letter :: rest).drop begin).takeWhile (· ∈ delimsExtra)
      let begin := if isMark ∧ quoted = false then begin + marks.length else begin
      let letter := if isMark ∧ quoted then '\x00' else letter
      let quoted := if isMark then !quoted else quoted
      if quoted = false ∧ letter ∈ delims then
        let skipped := rest.takeWhile (· ∈ delims)
        tokenizeLoop delims delimsExtra fuel (seen ++ '\x00' :: skipped) (rest.dropWhile (· ∈ delims))
          (seen ++ '\x00' :: skipped).length quoted
          (insert (cStr ((seen ++ '\x00' :: rest).drop begin)) tokens)
      else
        tokenizeLoop delims delimsExtra fuel (seen ++ [letter]) rest begin quoted tokens

/-- `StrTokenize` into a set. -/
def strTokenize (inputStr delims delimsExtra : Text) : Finset Text :=
  tokenizeLoop delims delimsExtra (inputStr.length + 1) [] (cStr inputStr) 0 false ∅

theorem strtok_delim {delims : Text} {delim : Char} (separates : delim ∈ delims) (rest : Text) :
    strtok delims (delim :: rest) = strtok delims rest := by
  rw [strtok, List.splitOnP_cons_eq_if_modifyHead, if_pos (decide_eq_true separates)]
  rfl

theorem strtok_dropWhile (delims rest : Text) :
    strtok delims (rest.dropWhile (· ∈ delims)) = strtok delims rest := by
  induction rest with
  | nil => rfl
  | cons letter rest ih =>
      by_cases separates : letter ∈ delims
      · rw [List.dropWhile_cons_of_pos (by simpa using separates), ih, strtok_delim separates]
      · rw [List.dropWhile_cons_of_neg (by simpa using separates)]

theorem cStr_append_zero {text : Text} (plain : '\x00' ∉ text) (rest : Text) :
    cStr (text ++ '\x00' :: rest) = text :=
  (Terminator.visible_append text rest).trans (cStr_of_notMem plain)

/-- What a version of `StrTokenize` keeps of a token. -/
abbrev TokenStore (β : Type) := Terminator.Store '\x00' β

/-- Pointers into the string that is cut. -/
abbrev pointers : TokenStore Nat := Terminator.pointers '\x00'

/-- Copies of the tokens. -/
abbrev copies : TokenStore Text := Terminator.copies '\x00'

section Scan

variable {β : Type} (store : TokenStore β) (delims delimsExtra : Text)

/-- The loop of the versions of `StrTokenize` that fill a vector, with the letters before
and from `end` on as in `tokenizeLoop`: what is kept of the tokens, and the string after
all cuts. -/
@[grind =] def tokenizeInto : Nat → (seen rest : Text) → (begin : Nat) → (quoted : Bool) → List β × Text
  | 0, seen, rest, _, _ => ([], seen ++ rest)
  | _ + 1, seen, [], begin, _ => (if seen.length > begin then [store.keep seen begin] else [], seen)
  | fuel + 1, seen, letter :: rest, begin, quoted =>
      let isMark := letter ∈ delimsExtra
      let marks := ((seen ++ letter :: rest).drop begin).takeWhile (· ∈ delimsExtra)
      let begin := if isMark ∧ quoted = false then begin + marks.length else begin
      let letter := if isMark ∧ quoted then '\x00' else letter
      let quoted := if isMark then !quoted else quoted
      if quoted = false ∧ letter ∈ delims then
        let skipped := rest.takeWhile (· ∈ delims)
        let (tokens, buffer) := tokenizeInto fuel (seen ++ '\x00' :: skipped)
          (rest.dropWhile (· ∈ delims)) (seen ++ '\x00' :: skipped).length quoted
        (store.keep (seen ++ '\x00' :: rest) begin :: tokens, buffer)
      else
        tokenizeInto fuel (seen ++ [letter]) rest begin quoted

/-- The loop from a position on to the end of the string. -/
def tokenizeFrom (seen rest : Text) (begin : Nat) (quoted : Bool) : List β × Text :=
  tokenizeInto store delims delimsExtra (rest.length + 1) seen rest begin quoted

/-- The tokens as they are read after all cuts. -/
def tokensFrom (seen rest : Text) (begin : Nat) (quoted : Bool) : List Text :=
  let (tokens, buffer) := tokenizeFrom store delims delimsExtra seen rest begin quoted
  tokens.map (store.read buffer)

end Scan

/-- `StrTokenize` into a vector of pointers: the positions of the tokens and the string
that they point into. -/
def strTokenizePointers (inputStr delims delimsExtra : Text) : List Nat × Text :=
  tokenizeFrom pointers delims delimsExtra [] (cStr inputStr) 0 false

/-- The strings at the pointers. -/
def pointedTokens (result : List Nat × Text) : List Text :=
  result.1.map fun begin => cStr (result.2.drop begin)

/-- `StrTokenize` with extra delimiters into a vector of strings. -/
def strTokenizeStrings (inputStr delims delimsExtra : Text) : List Text :=
  (tokenizeFrom copies delims delimsExtra [] (cStr inputStr) 0 false).1

/-- `StrTokenize` without extra delimiters, into a vector. -/
def strTokenizePlain (inputStr delims : Text) : List Text := strtok delims (cStr inputStr)

/-- `StrTokenize` without extra delimiters, into a set. -/
def strTokenizePlainSet (inputStr delims : Text) : Finset Text := (strtok delims (cStr inputStr)).toFinset

section Steps

variable {β : Type} {store : TokenStore β} {delims delimsExtra seen rest : Text}
  {begin : Nat} {quoted : Bool} {letter : Char}

theorem tokenizeInto_enough {fuel : Nat} (enough : rest.length < fuel) :
    tokenizeInto store delims delimsExtra fuel seen rest begin quoted =
      tokenizeFrom store delims delimsExtra seen rest begin quoted := by
  have same : ∀ (first second : Nat) (seen rest : Text) (begin : Nat) (quoted : Bool),
      rest.length < first → rest.length < second →
      tokenizeInto store delims delimsExtra first seen rest begin quoted =
        tokenizeInto store delims delimsExtra second seen rest begin quoted := by
    intro first
    induction first with
    | zero => exact fun _ _ _ _ _ none_ => absurd none_ (Nat.not_lt_zero _)
    | succ first ih =>
        intro second seen rest begin quoted enoughFirst enoughSecond
        obtain ⟨second, rfl⟩ := Nat.exists_eq_succ_of_ne_zero (Nat.ne_zero_of_lt enoughSecond)
        cases rest with
        | nil => rfl
        | cons letter rest =>
            rw [List.length_cons] at enoughFirst enoughSecond
            have shorter := List.length_dropWhile_le (fun letter => decide (letter ∈ delims)) rest
            simp only [tokenizeInto]
            rw [ih second _ (rest.dropWhile _) _ _ (by omega) (by omega),
              ih second _ rest _ _ (by omega) (by omega)]
  exact same _ _ _ _ _ _ enough (Nat.lt_succ_self _)

/-- A letter that is no mark, and no delimiter unless it is quoted, belongs to the token. -/
theorem tokenizeFrom_letter (notMark : letter ∉ delimsExtra)
    (inToken : quoted = true ∨ letter ∉ delims) :
    tokenizeFrom store delims delimsExtra seen (letter :: rest) begin quoted =
      tokenizeFrom store delims delimsExtra (seen ++ [letter]) rest begin quoted := by
  have stays : ¬ (quoted = false ∧ letter ∈ delims) := by
    rcases inToken with rfl | visible
    · simp
    · simp [visible]
  rw [tokenizeFrom, List.length_cons, tokenizeInto]
  simp only [notMark, false_and, if_false, stays]
  rfl

theorem tokenizeFrom_letters {letters : Text} (notMark : ∀ letter ∈ letters, letter ∉ delimsExtra)
    (inToken : quoted = true ∨ ∀ letter ∈ letters, letter ∉ delims) :
    tokenizeFrom store delims delimsExtra seen (letters ++ rest) begin quoted =
      tokenizeFrom store delims delimsExtra (seen ++ letters) rest begin quoted := by
  induction letters generalizing seen with
  | nil => rw [List.append_nil, List.nil_append]
  | cons letter letters ih =>
      rw [List.forall_mem_cons] at notMark
      rw [List.forall_mem_cons] at inToken
      rw [List.cons_append, tokenizeFrom_letter notMark.1 (inToken.imp_right And.left),
        ih notMark.2 (inToken.imp_right And.right), List.append_assoc, List.singleton_append]

/-- The string is changed from the position on only. -/
theorem tokenizeInto_prefix (fuel : Nat) :
    seen <+: (tokenizeInto store delims delimsExtra fuel seen rest begin quoted).2 := by
  induction fuel generalizing seen rest begin quoted with
  | zero => exact List.prefix_append _ _
  | succ fuel ih =>
      cases rest with
      | nil => exact List.prefix_rfl
      | cons letter rest =>
          simp only [tokenizeInto]
          generalize (if letter ∈ delimsExtra then !quoted else quoted) = open_
          generalize (if letter ∈ delimsExtra ∧ quoted = true then '\x00' else letter) = placed
          split
          · exact (List.prefix_append seen _).trans ih
          · exact (List.prefix_append seen [placed]).trans ih

theorem tokenizeFrom_extends (store : TokenStore β) (delims delimsExtra seen rest : Text)
    (begin : Nat) (quoted : Bool) :
    seen <+: (tokenizeFrom store delims delimsExtra seen rest begin quoted).2 := tokenizeInto_prefix _

/-- A delimiter outside quotation marks is overwritten, and the run of delimiters ends. -/
theorem tokenizeFrom_delim (notMark : letter ∉ delimsExtra) (separates : letter ∈ delims) :
    tokenizeFrom store delims delimsExtra seen (letter :: rest) begin false =
      let later := tokenizeFrom store delims delimsExtra
        (seen ++ '\x00' :: rest.takeWhile (· ∈ delims)) (rest.dropWhile (· ∈ delims))
        (seen ++ '\x00' :: rest.takeWhile (· ∈ delims)).length false
      (store.keep (seen ++ '\x00' :: rest) begin :: later.1, later.2) := by
  have shorter := List.length_dropWhile_le (fun letter => decide (letter ∈ delims)) rest
  rw [tokenizeFrom, List.length_cons, tokenizeInto]
  simp only [notMark, false_and, if_false, separates, and_self, if_true]
  rw [tokenizeInto_enough (by omega)]

/-- A delimiter outside quotation marks ends the token. -/
theorem tokensFrom_delim (notMark : letter ∉ delimsExtra) (separates : letter ∈ delims)
    (inside : begin ≤ seen.length) :
    tokensFrom store delims delimsExtra seen (letter :: rest) begin false =
      cStr (seen.drop begin) ::
        tokensFrom store delims delimsExtra (seen ++ '\x00' :: rest.takeWhile (· ∈ delims))
          (rest.dropWhile (· ∈ delims)) (seen ++ '\x00' :: rest.takeWhile (· ∈ delims)).length
          false := by
  obtain ⟨later, buffer⟩ := tokenizeFrom_extends store delims delimsExtra
    (seen ++ '\x00' :: rest.takeWhile (· ∈ delims)) (rest.dropWhile (· ∈ delims))
    (seen ++ '\x00' :: rest.takeWhile (· ∈ delims)).length false
  rw [tokensFrom, tokenizeFrom_delim notMark separates]
  dsimp only
  rw [List.map_cons, ← buffer, List.append_assoc, List.cons_append, store.ended inside, ← List.cons_append,
    ← List.append_assoc, buffer]
  rfl

/-- A run of delimiters and what stands behind it. -/
theorem tokensFrom_gap {gap : Text} (notMark : letter ∉ delimsExtra) (separates : letter ∈ delims)
    (inside : begin ≤ seen.length) (blank : ∀ other ∈ gap, other ∈ delims)
    (visible : ∀ other ∈ rest.head?, other ∉ delims) :
    tokensFrom store delims delimsExtra seen (letter :: (gap ++ rest)) begin false =
      cStr (seen.drop begin) ::
        tokensFrom store delims delimsExtra (seen ++ '\x00' :: gap) rest
          (seen ++ '\x00' :: gap).length false := by
  have blanks : ∀ other ∈ gap, decide (other ∈ delims) = true := by simpa using blank
  have taken : rest.takeWhile (· ∈ delims) = [] ∧ rest.dropWhile (· ∈ delims) = rest := by
    cases rest with
    | nil => exact ⟨rfl, rfl⟩
    | cons other rest =>
        have stops : ¬ decide (other ∈ delims) = true := by simpa using visible other rfl
        exact ⟨List.takeWhile_cons_of_neg stops, List.dropWhile_cons_of_neg stops⟩
  rw [tokensFrom_delim notMark separates inside, List.takeWhile_append_of_pos blanks,
    List.dropWhile_append_of_pos blanks, taken.1, taken.2, List.append_nil]

/-- The mark at the begin of a token is skipped. -/
theorem tokenizeFrom_open (isMark : letter ∈ delimsExtra)
    (once : ∀ other ∈ rest.head?, other ∉ delimsExtra) :
    tokenizeFrom store delims delimsExtra seen (letter :: rest) seen.length false =
      tokenizeFrom store delims delimsExtra (seen ++ [letter]) rest (seen.length + 1) true := by
  have marks : ((seen ++ letter :: rest).drop seen.length).takeWhile (· ∈ delimsExtra) = [letter] := by
    rw [List.drop_left, List.takeWhile_cons_of_pos (by simpa using isMark)]
    cases rest with
    | nil => rfl
    | cons other rest =>
        rw [List.takeWhile_cons_of_neg (by simpa using once other rfl)]
  rw [tokenizeFrom, List.length_cons, tokenizeInto, marks]
  simp [isMark, tokenizeFrom]

/-- The mark that closes a quotation is overwritten. -/
theorem tokenizeFrom_close (isMark : letter ∈ delimsExtra) (plain : '\x00' ∉ delims) :
    tokenizeFrom store delims delimsExtra seen (letter :: rest) begin true =
      tokenizeFrom store delims delimsExtra (seen ++ ['\x00']) rest begin false := by
  rw [tokenizeFrom, List.length_cons, tokenizeInto]
  simp [isMark, plain, tokenizeFrom]

theorem tokensFrom_end : tokensFrom store delims delimsExtra seen [] begin quoted =
    if seen.length > begin then [cStr (seen.drop begin)] else [] := by
  rw [tokensFrom, tokenizeFrom, List.length_nil, Nat.zero_add, tokenizeInto]
  dsimp only
  split
  · rw [List.map_singleton, store.last]
    rfl
  · rfl

end Steps

/-- The set version collects what the vector version copies. -/
theorem tokenizeLoop_eq (delims delimsExtra : Text) (fuel : Nat) (seen rest : Text) (begin : Nat)
    (quoted : Bool) (tokens : Finset Text) :
    tokenizeLoop delims delimsExtra fuel seen rest begin quoted tokens =
      tokens ∪ (tokenizeInto copies delims delimsExtra fuel seen rest begin quoted).1.toFinset := by
  induction fuel generalizing seen rest begin quoted tokens with
  | zero => simp [tokenizeLoop, tokenizeInto]
  | succ fuel ih =>
      cases rest with
      | nil =>
          rw [tokenizeLoop, tokenizeInto]
          split
          · rw [List.toFinset_cons, List.toFinset_nil, Finset.union_comm, Finset.insert_union,
              Finset.empty_union]
            rfl
          · rw [List.toFinset_nil, Finset.union_empty]
      | cons letter rest =>
          simp only [tokenizeLoop, tokenizeInto]
          generalize (if letter ∈ delimsExtra then !quoted else quoted) = open_
          generalize (if letter ∈ delimsExtra ∧ quoted = true then '\x00' else letter) = placed
          split
          · rw [ih, List.toFinset_cons, Finset.insert_union, Finset.union_insert]
            rfl
          · exact ih ..

theorem length_cStr_le (text : Text) : (cStr text).length ≤ text.length :=
  (List.takeWhile_prefix _).length_le

theorem strTokenize_eq (inputStr delims delimsExtra : Text) :
    strTokenize inputStr delims delimsExtra =
      (strTokenizeStrings inputStr delims delimsExtra).toFinset := by
  have shorter := length_cStr_le inputStr
  rw [strTokenize, tokenizeLoop_eq, Finset.empty_union, tokenizeInto_enough (by omega)]
  rfl

theorem strTokenizeStrings_eq (inputStr delims delimsExtra : Text) :
    strTokenizeStrings inputStr delims delimsExtra =
      tokensFrom copies delims delimsExtra [] (cStr inputStr) 0 false :=
  (List.map_id _).symm

/-! ## Without quotation marks -/

section Plain

variable {β : Type} {store : TokenStore β} {delims delimsExtra : Text}

theorem head?_dropWhile_delims {rest : Text} {letter : Char}
    (first : letter ∈ (rest.dropWhile (· ∈ delims)).head?) : letter ∉ delims := by
  have stopped := List.head?_dropWhile_not (fun letter => decide (letter ∈ delims)) rest
  rw [Option.mem_def.mp first] at stopped
  simpa using stopped

/-- The loop finds the tokens of what is left, the one that has begun included. -/
theorem tokensFrom_plain {seen rest token : Text} {begin : Nat} (inside : begin ≤ seen.length)
    (current : seen.drop begin = token) (visible : ∀ letter ∈ token, letter ∉ delims)
    (noZero : '\x00' ∉ token ++ rest) (noMark : ∀ letter ∈ rest, letter ∉ delimsExtra)
    (begun : token ≠ [] ∨ ∀ letter ∈ rest.head?, letter ∉ delims) :
    tokensFrom store delims delimsExtra seen rest begin false = strtok delims (token ++ rest) := by
  induction bound : rest.length using Nat.strong_induction_on generalizing seen rest token begin with
  | _ size ih =>
      have tokenZero : '\x00' ∉ token := fun member => noZero (List.mem_append_left _ member)
      cases rest with
      | nil =>
          have length : token.length = seen.length - begin := by rw [← current, List.length_drop]
          rw [tokensFrom_end, List.append_nil, current, cStr_of_notMem tokenZero]
          by_cases nothing : token = []
          · rw [if_neg (by rw [nothing, List.length_nil] at length; omega), nothing, strtok_nil]
          · have positive := List.length_pos_iff.mpr nothing
            rw [if_pos (by omega), strtok_single nothing visible]
      | cons letter rest =>
          rw [List.forall_mem_cons] at noMark
          rw [List.length_cons] at bound
          by_cases separates : letter ∈ delims
          · have nonempty : token ≠ [] := begun.resolve_right fun outside => outside letter rfl separates
            have skipped := List.dropWhile_sublist (l := rest) (p := (· ∈ delims))
            have shorter := skipped.length_le
            rw [tokensFrom_delim noMark.1 separates inside, current, cStr_of_notMem tokenZero,
              strtok_append nonempty visible separates,
              ih _ (by omega) (le_refl _) List.drop_length (by simp) ?_ ?_ ?_ rfl, List.nil_append,
              strtok_dropWhile]
            · intro member
              exact noZero (List.mem_append_right _ (List.mem_cons_of_mem _ (skipped.subset member)))
            · exact fun other member => noMark.2 other (skipped.subset member)
            · exact .inr fun other first => head?_dropWhile_delims first
          · have grown : (seen ++ [letter]).drop begin = token ++ [letter] := by
              rw [List.drop_append_of_le_length inside, current]
            rw [tokensFrom, tokenizeFrom_letter noMark.1 (.inr separates), ← tokensFrom,
              ih _ (by omega) (by rw [List.length_append]; omega) grown ?_ ?_ noMark.2
                (.inl (by simp)) rfl,
              List.append_assoc, List.singleton_append]
            · exact List.forall_mem_append.mpr ⟨visible, by simpa using separates⟩
            · rwa [List.append_assoc, List.singleton_append]

/-- The tokens of a whole text: a delimiter at its begin is taken for the end of an empty
token. -/
theorem tokensFrom_start {text : Text} [Decidable (∀ letter ∈ text.head?, letter ∉ delims)]
    (noZero : '\x00' ∉ text) (noMark : ∀ letter ∈ text, letter ∉ delimsExtra) :
    tokensFrom store delims delimsExtra [] text 0 false =
      (if ∀ letter ∈ text.head?, letter ∉ delims then [] else [[]]) ++ strtok delims text := by
  by_cases begun : ∀ letter ∈ text.head?, letter ∉ delims
  · rw [if_pos begun, List.nil_append,
      tokensFrom_plain (Nat.zero_le _) List.drop_nil (by simp) noZero noMark (.inr begun), List.nil_append]
  · cases text with
    | nil => simp at begun
    | cons letter rest =>
        have separates : letter ∈ delims := by simpa using begun
        rw [List.forall_mem_cons] at noMark
        have skipped := List.dropWhile_sublist (l := rest) (p := (· ∈ delims))
        rw [if_neg begun, tokensFrom_delim noMark.1 separates (Nat.zero_le _), strtok_delim separates,
          tokensFrom_plain (le_refl _) List.drop_length (by simp) ?_ ?_ ?_, List.nil_append,
          strtok_dropWhile]
        · rfl
        · exact fun member => noZero (List.mem_cons_of_mem _ (skipped.subset member))
        · exact fun other member => noMark.2 other (skipped.subset member)
        · exact .inr fun other first => head?_dropWhile_delims first

end Plain

theorem pointedTokens_eq (inputStr delims delimsExtra : Text) :
    pointedTokens (strTokenizePointers inputStr delims delimsExtra) =
      tokensFrom pointers delims delimsExtra [] (cStr inputStr) 0 false := rfl

/-- All versions of `StrTokenize` find the same tokens, and no empty one. -/
structure TokenizersAgree (text delims delimsExtra : Text) : Prop where
  pointers : pointedTokens (strTokenizePointers text delims delimsExtra) = strTokenizePlain text delims
  strings : strTokenizeStrings text delims delimsExtra = strTokenizePlain text delims
  set : strTokenize text delims delimsExtra = strTokenizePlainSet text delims
  nonempty : [] ∉ strTokenizeStrings text delims delimsExtra

theorem strTokenizePlain_nonempty (text delims : Text) : [] ∉ strTokenizePlain text delims := by
  intro member
  simpa using (List.mem_filter.mp member).2

/-- Without quotation marks in the text the versions agree exactly if it does not start
with a delimiter. -/
theorem tokenizers_agree_iff {text delims delimsExtra : Text} (noZero : '\x00' ∉ text)
    (noMark : ∀ letter ∈ text, letter ∉ delimsExtra) :
    TokenizersAgree text delims delimsExtra ↔ ∀ letter ∈ text.head?, letter ∉ delims := by
  have copied := strTokenizeStrings_eq text delims delimsExtra
  have pointed := pointedTokens_eq text delims delimsExtra
  rw [cStr_of_notMem noZero, tokensFrom_start noZero noMark] at copied pointed
  constructor
  · intro agree
    by_contra leading
    rw [if_neg leading] at copied
    exact agree.nonempty (by rw [copied]; simp)
  · intro begun
    rw [if_pos begun, List.nil_append] at copied pointed
    have plain : strTokenizePlain text delims = strtok delims text := by
      rw [strTokenizePlain, cStr_of_notMem noZero]
    refine ⟨pointed.trans plain.symm, copied.trans plain.symm, ?_, ?_⟩
    · rw [strTokenize_eq, copied, strTokenizePlainSet, cStr_of_notMem noZero]
    · rw [copied, ← plain]
      exact strTokenizePlain_nonempty text delims

/-- A text with repeated delimiters and one at the end. -/
theorem tokenizers_agree_inside : TokenizersAgree "jan  kot ".toList [' '] ['"'] :=
  (tokenizers_agree_iff (by decide) (List.all_iff_forall_prop.mp (by decide))).mpr
    (by simp)

/-- A text with a delimiter at its begin has an empty token for the quoted versions. -/
theorem tokenizers_differ :
    strTokenizeStrings " jan".toList [' '] ['"'] = [[], "jan".toList] ∧
      pointedTokens (strTokenizePointers " jan".toList [' '] ['"']) = [[], "jan".toList] ∧
      [] ∈ strTokenize " jan".toList [' '] ['"'] ∧
      strTokenizePlain " jan".toList [' '] = ["jan".toList] := by
  decide

/-- A text without quotation marks that does not start with a delimiter. -/
theorem strTokenize_plain {delims delimsExtra text : Text} (noZero : '\x00' ∉ text)
    (noMark : ∀ letter ∈ text, letter ∉ delimsExtra)
    (begun : ∀ letter ∈ text.head?, letter ∉ delims) :
    strTokenize text delims delimsExtra = (strtok delims text).toFinset := by
  rw [strTokenize_eq, strTokenizeStrings_eq, cStr_of_notMem noZero, tokensFrom_start noZero noMark,
    if_pos begun, List.nil_append]

end Tegenaria.LibStr
