import Tegenaria.LibStr.Tokenize

/-!
# Quoted words

Words that are written bare or in quotation marks, with delimiters between them, are
what `StrTokenize` with extra delimiters is made for: every version of it finds the
words again.
-/

namespace Tegenaria.LibStr

/-- Delimiters and quotation marks that cannot be mixed up. -/
structure Punctuation where
  delims : Text
  marks : Text
  disjoint : ∀ mark ∈ marks, mark ∉ delims
  delimsPlain : '\x00' ∉ delims
  marksPlain : '\x00' ∉ marks

variable {sets : Punctuation}

inductive Word (sets : Punctuation) where
  | bare (text : Text) (nonempty : text ≠ [])
      (plain : ∀ letter ∈ text, letter ∉ sets.delims ∧ letter ∉ sets.marks ∧ letter ≠ '\x00')
  | quoted (mark : Char) (isMark : mark ∈ sets.marks) (content : Text) (nonempty : content ≠ [])
      (plain : ∀ letter ∈ content, letter ∉ sets.marks ∧ letter ≠ '\x00')

namespace Word

def content : Word sets → Text
  | bare text _ _ => text
  | quoted _ _ content _ _ => content

def written : Word sets → Text
  | bare text _ _ => text
  | quoted mark _ content _ _ => mark :: content ++ [mark]

/-- The letters of a written word after it was cut. -/
def cut : Word sets → Text
  | bare text _ _ => text
  | quoted mark _ content _ _ => mark :: content ++ ['\x00']

/-- The number of letters before the content. -/
def skip : Word sets → Nat
  | bare _ _ _ => 0
  | quoted _ _ _ _ _ => 1

end Word

/-- One or more delimiters. -/
structure Gap (sets : Punctuation) where
  first : Char
  rest : Text
  separates : ∀ letter ∈ first :: rest, letter ∈ sets.delims

/-- Words with gaps between them. -/
structure Sentence (sets : Punctuation) where
  first : Word sets
  others : List (Gap sets × Word sets)
  trailing : Text
  trails : ∀ letter ∈ trailing, letter ∈ sets.delims

namespace Sentence

/-- The text behind the first word. -/
def behind (others : List (Gap sets × Word sets)) (trailing : Text) : Text :=
  (others.flatMap fun pair => pair.1.first :: pair.1.rest ++ pair.2.written) ++ trailing

def written (sentence : Sentence sets) : Text :=
  sentence.first.written ++ behind sentence.others sentence.trailing

def contents (sentence : Sentence sets) : List Text :=
  sentence.first.content :: sentence.others.map fun pair => pair.2.content

end Sentence

theorem Word.written_ne_nil (word : Word sets) : word.written ≠ [] := by
  cases word with
  | bare text nonempty plain => exact nonempty
  | quoted mark isMark content nonempty plain => exact List.cons_ne_nil _ _

theorem Word.written_head (word : Word sets) : ∀ letter ∈ word.written.head?, letter ∉ sets.delims := by
  intro letter first
  cases word with
  | bare text nonempty plain => exact (plain letter (List.mem_of_mem_head? first)).1
  | quoted mark isMark content nonempty plain =>
      rw [← Option.some.inj first]
      exact sets.disjoint mark isMark

theorem Word.written_plain (word : Word sets) : '\x00' ∉ word.written := by
  intro member
  cases word with
  | bare text nonempty plain => exact (plain _ member).2.2 rfl
  | quoted mark isMark content nonempty plain =>
      have notMark : mark ≠ '\x00' := by
        rintro rfl
        exact sets.marksPlain isMark
      simp only [written, List.mem_append, List.mem_cons, List.not_mem_nil, or_false, notMark.symm,
        false_or] at member
      exact (plain _ member).2 rfl

theorem Sentence.written_plain (sentence : Sentence sets) : '\x00' ∉ sentence.written := by
  have noDelim : ∀ {letter}, letter ∈ sets.delims → letter ≠ '\x00' := by
    rintro letter separates rfl
    exact sets.delimsPlain separates
  simp only [written, behind, List.mem_append, List.mem_flatMap, not_or, not_exists, not_and]
  refine ⟨sentence.first.written_plain, fun pair _ => ⟨?_, pair.2.written_plain⟩, ?_⟩
  · exact fun member => noDelim (pair.1.separates _ member) rfl
  · exact fun member => noDelim (sentence.trails _ member) rfl

section Scan

variable {β : Type} {store : TokenStore β} {seen rest : Text}

/-- A word is passed with the begin of the token at its content. -/
theorem tokenizeFrom_word (word : Word sets) :
    tokenizeFrom store sets.delims sets.marks seen (word.written ++ rest) seen.length false =
      tokenizeFrom store sets.delims sets.marks (seen ++ word.cut) rest (seen.length + word.skip)
        false := by
  cases word with
  | bare text nonempty plain =>
      exact tokenizeFrom_letters (fun letter member => (plain letter member).2.1)
        (.inr fun letter member => (plain letter member).1)
  | quoted mark isMark content nonempty plain =>
      have noMark : ∀ letter ∈ content, letter ∉ sets.marks := fun letter member =>
        (plain letter member).1
      rw [Word.written, List.cons_append, List.cons_append, List.append_assoc,
        tokenizeFrom_open isMark, tokenizeFrom_letters noMark (.inl rfl), List.singleton_append,
        tokenizeFrom_close isMark sets.delimsPlain]
      · simp [Word.cut, Word.skip]
      · intro other first
        obtain ⟨letter, content, rfl⟩ := List.exists_cons_of_ne_nil nonempty
        rw [← Option.some.inj first]
        exact noMark letter (List.mem_cons_self ..)

theorem Word.cut_content (word : Word sets) :
    cStr ((seen ++ word.cut).drop (seen.length + word.skip)) = word.content := by
  rw [List.drop_length_add_append]
  cases word with
  | bare text nonempty plain => exact cStr_of_notMem fun member => (plain _ member).2.2 rfl
  | quoted mark isMark content nonempty plain =>
      exact cStr_append_zero (fun member => (plain _ member).2 rfl) []

theorem Word.skip_lt (word : Word sets) : word.skip < word.cut.length := by
  cases word with
  | bare text nonempty plain => exact List.length_pos_iff.mpr nonempty
  | quoted mark isMark content nonempty plain => simp [Word.skip, Word.cut]

/-- The word, and the words behind it. -/
theorem tokensFrom_words (word : Word sets) (others : List (Gap sets × Word sets)) {trailing : Text}
    (trails : ∀ letter ∈ trailing, letter ∈ sets.delims) :
    tokensFrom store sets.delims sets.marks seen (word.written ++ Sentence.behind others trailing)
        seen.length false =
      word.content :: others.map fun pair => pair.2.content := by
  have outside : ∀ {letter}, letter ∈ sets.delims → letter ∉ sets.marks := fun separates isMark =>
    sets.disjoint _ isMark separates
  have skipped := word.skip_lt
  induction others generalizing seen word with
  | nil =>
      rw [tokensFrom, tokenizeFrom_word, ← tokensFrom, Sentence.behind, List.flatMap_nil,
        List.nil_append, List.map_nil]
      cases trailing with
      | nil => rw [tokensFrom_end, word.cut_content, if_pos (by rw [List.length_append]; omega)]
      | cons delim trailing =>
          rw [List.forall_mem_cons] at trails
          rw [← List.append_nil (delim :: trailing), List.cons_append,
            tokensFrom_gap (outside trails.1) trails.1 (by rw [List.length_append]; omega) trails.2
              (by simp),
            word.cut_content, tokensFrom_end, if_neg (lt_irrefl _)]
  | cons pair others ih =>
      obtain ⟨gap, next⟩ := pair
      have separates := gap.separates
      rw [List.forall_mem_cons] at separates
      have visible : ∀ letter ∈ (next.written ++ Sentence.behind others trailing).head?,
          letter ∉ sets.delims := by
        intro letter first
        obtain ⟨head, letters, written⟩ := List.exists_cons_of_ne_nil next.written_ne_nil
        refine next.written_head letter ?_
        rw [written] at first ⊢
        exact first
      rw [tokensFrom, tokenizeFrom_word, ← tokensFrom, Sentence.behind, List.flatMap_cons,
        List.append_assoc, List.append_assoc, List.cons_append, ← Sentence.behind,
        tokensFrom_gap (outside separates.1) separates.1 (by rw [List.length_append]; omega)
          separates.2 visible,
        word.cut_content, ih next next.skip_lt, List.map_cons]

end Scan

theorem tokensFrom_sentence {β : Type} (store : TokenStore β) (sentence : Sentence sets) :
    tokensFrom store sets.delims sets.marks [] (cStr sentence.written) 0 false =
      sentence.contents := by
  rw [cStr_of_notMem sentence.written_plain]
  exact tokensFrom_words sentence.first sentence.others sentence.trails

theorem strTokenizePointers_words (sentence : Sentence sets) :
    pointedTokens (strTokenizePointers sentence.written sets.delims sets.marks) =
      sentence.contents := tokensFrom_sentence pointers sentence

/-- Every version of `StrTokenize` finds the words that are written bare or in quotation
marks. -/
theorem strTokenize_words (sentence : Sentence sets) :
    pointedTokens (strTokenizePointers sentence.written sets.delims sets.marks) =
        sentence.contents ∧
      strTokenizeStrings sentence.written sets.delims sets.marks = sentence.contents ∧
      strTokenize sentence.written sets.delims sets.marks = sentence.contents.toFinset := by
  have copied : strTokenizeStrings sentence.written sets.delims sets.marks = sentence.contents := by
    rw [strTokenizeStrings_eq, tokensFrom_sentence]
  refine ⟨strTokenizePointers_words sentence, copied, ?_⟩
  rw [strTokenize_eq, copied]

end Tegenaria.LibStr
