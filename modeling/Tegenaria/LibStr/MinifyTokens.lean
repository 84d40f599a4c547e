import Tegenaria.Foundation.LongestMatch
import Tegenaria.LibStr.MinifyWhites

/-!
# The tokens of minified source code

White space and comments separate the words of source code; a word is cut into tokens by
longest match.  `StrMinifyCode` keeps the tokens exactly if nothing that begins in one of two
words goes on into the other, wherever it leaves nothing between them.
-/

namespace Tegenaria.LibStr

open Foundation Foundation.Loop Foundation.LongestMatch

section Tokens

variable (isToken : Chars → Bool)

/-- The tokens of a word and of the pieces behind it. -/
@[grind =] def sourceTokensFrom (word : Chars) : List Piece → List Chars
  | [] => munch isToken word
  | .letter value :: rest =>
      if isSpaceByte value then munch isToken word ++ sourceTokensFrom [] rest
      else sourceTokensFrom (word ++ [value]) rest
  | .literal quote inner closed :: rest =>
      munch isToken word ++
        (Piece.literal quote inner closed).written cMarkers :: sourceTokensFrom [] rest
  | .lineComment _ :: rest => munch isToken word ++ sourceTokensFrom [] rest
  | .blockComment _ :: rest => munch isToken word ++ sourceTokensFrom [] rest

/-- The tokens of source code: words by longest match, and string literals.  A comment is
white space. -/
def sourceTokens (code : Chars) : List Chars := sourceTokensFrom isToken [] (lex cMarkers code)

end Tokens

/-- A string literal, or words with nothing left between them. -/
inductive Chunk where
  | words (group : List Chars)
  | literal (text : Chars)

/-- The chunks of words that are left together and of the pieces behind them. -/
@[grind =] def chunksFrom (lastChar : Option UInt8) (group : List Chars) (word : Chars) : List Piece → List Chunk
  | [] => [.words (group ++ [word])]
  | .letter value :: rest =>
      if isSpaceByte value then
        if droppable lastChar (rest.flatMap (Piece.written cMarkers)).head? then
          chunksFrom lastChar (group ++ [word]) [] rest
        else .words (group ++ [word]) :: chunksFrom (some (blank value)) [] [] rest
      else chunksFrom (some value) group (word ++ [value]) rest
  | .literal quote inner closed :: rest =>
      let text := (Piece.literal quote inner closed).written cMarkers
      .words (group ++ [word]) :: .literal text :: chunksFrom (text.getLast?.or lastChar) [] [] rest
  | .lineComment _ :: rest => chunksFrom lastChar (group ++ [word]) [] rest
  | .blockComment _ :: rest => chunksFrom lastChar (group ++ [word]) [] rest

def Chunk.group? : Chunk → Option (List Chars)
  | words group => some group
  | literal _ => none

/-- The groups of words between which white space and comments are dropped. -/
def gluedWords (code : Chars) : List (List Chars) :=
  (chunksFrom none [] [] (lex cMarkers code)).filterMap Chunk.group?

/-- Words that can be written without anything between them. -/
structure Separable (isToken : Chars → Bool) (group : List Chars) : Prop where
  noComment : ∀ marker ∈ [cMarkers.single, cMarkers.multiBegin], ¬marker.chars <:+: group.flatten
  apart : ∀ front word back, group = front ++ word :: back → Apart isToken word back.flatten

/-- The call returns source code with the same tokens. -/
def KeepsTokens (isToken : Chars → Bool) (code : Chars) : Prop :=
  ∃ fuel result, strMinifyCode fuel (cMarkers.call true code) = .returned result ∧
    sourceTokens isToken result = sourceTokens isToken code

/-! ## Chunks -/

namespace Chunk

variable (isToken : Chars → Bool)

/-- The tokens of the words one by one. -/
def tokensApart : Chunk → List Chars
  | words group => group.flatMap (munch isToken)
  | literal text => [text]

/-- The tokens of the words that are joined. -/
def tokensJoined : Chunk → List Chars
  | words group => munch isToken group.flatten
  | literal text => [text]

end Chunk

section Chunks

variable (isToken : Chars → Bool)

theorem tokensApart_chunks (lastChar : Option UInt8) (group : List Chars) (word : Chars)
    (pieces : List Piece) :
    (chunksFrom lastChar group word pieces).flatMap (Chunk.tokensApart isToken) =
      group.flatMap (munch isToken) ++ sourceTokensFrom isToken word pieces := by
  fun_induction chunksFrom lastChar group word pieces with
  | case1 lastChar group word => simp [Chunk.tokensApart, sourceTokensFrom]
  | case2 lastChar group word value rest white drops ih => simp [sourceTokensFrom, ih, white]
  | case3 lastChar group word value rest white keeps ih =>
      simp [Chunk.tokensApart, sourceTokensFrom, ih, white]
  | case4 lastChar group word value rest solid ih => simp [sourceTokensFrom, ih, solid]
  | case5 lastChar group word quote inner closed rest text ih =>
      simp [Chunk.tokensApart, sourceTokensFrom, ih, text]
  | case6 lastChar group word body rest ih => simp [sourceTokensFrom, ih]
  | case7 lastChar group word body rest ih => simp [sourceTokensFrom, ih]

theorem tokensJoined_chunks (lastChar : Option UInt8) (group : List Chars) (word : Chars)
    (pieces : List Piece) :
    (chunksFrom lastChar group word pieces).flatMap (Chunk.tokensJoined isToken) =
      sourceTokensFrom isToken (group.flatten ++ word) (leftOf cMarkers true lastChar pieces) := by
  fun_induction chunksFrom lastChar group word pieces with
  | case1 lastChar group word => simp [Chunk.tokensJoined, sourceTokensFrom, leftOf]
  | case2 lastChar group word value rest white drops ih =>
      simp [leftOf, Piece.left, ih, white, drops]
  | case3 lastChar group word value rest white keeps ih =>
      simp [Chunk.tokensJoined, leftOf, Piece.left, sourceTokensFrom, ih, white, keeps, isSpaceByte_blank,
        Piece.written]
  | case4 lastChar group word value rest solid ih =>
      simp [leftOf, Piece.left, sourceTokensFrom, ih, solid, Piece.written]
  | case5 lastChar group word quote inner closed rest text ih =>
      simp [Chunk.tokensJoined, leftOf, Piece.left, sourceTokensFrom, ih, text]
  | case6 lastChar group word body rest ih => simp [leftOf, Piece.left, ih]
  | case7 lastChar group word body rest ih => simp [leftOf, Piece.left, ih]

/-- The chunks have the same tokens exactly if each of them has. -/
theorem chunks_tokens_iff (chunks : List Chunk) :
    chunks.flatMap (Chunk.tokensJoined isToken) = chunks.flatMap (Chunk.tokensApart isToken) ↔
      ∀ group ∈ chunks.filterMap Chunk.group?,
        munch isToken group.flatten = group.flatMap (munch isToken) := by
  induction chunks with
  | nil => exact iff_of_true rfl fun group member => absurd member List.not_mem_nil
  | cons chunk chunks ih =>
      rw [List.flatMap_cons, List.flatMap_cons]
      cases chunk with
      | literal text =>
          rw [List.filterMap_cons_none rfl, ← ih]
          exact List.append_right_inj _
      | words group =>
          have glued : Chunk.group? (.words group) = some group := rfl
          rw [List.filterMap_cons_some glued, List.forall_mem_cons, ← ih]
          constructor
          · refine append_inj_of_flatten (fun token => ne_nil_of_mem_munch isToken) ?_ ?_
            · intro token member
              obtain ⟨word, _, inside⟩ := List.mem_flatMap.mp member
              exact ne_nil_of_mem_munch isToken inside
            · exact (munch_flatten isToken _).trans (flatMap_munch_flatten isToken _).symm
          · rintro ⟨here, later⟩
            rw [Chunk.tokensJoined, Chunk.tokensApart, here, later]

/-- The letters of the tokens are those that are no white space. -/
theorem solid_sourceTokensFrom (word : Chars) (pieces : List Piece) :
    solid (sourceTokensFrom isToken word pieces).flatten =
      solid word ++ solid (pieces.flatMap (Piece.kept cMarkers)) := by
  fun_induction sourceTokensFrom isToken word pieces with
  | case1 word => simp [munch_flatten, solid]
  | case2 word value rest white ih =>
      have dropped : solid [value] = [] := List.filter_cons_of_neg (by simp [white])
      rw [List.flatten_append, solid_append, munch_flatten, ih, List.flatMap_cons, solid_append]
      change _ = _ ++ (solid [value] ++ _)
      rw [dropped]
      rfl
  | case3 word value rest isSolid ih =>
      rw [ih, solid_append, List.flatMap_cons, solid_append, List.append_assoc]
      rfl
  | case4 word quote inner closed rest ih =>
      rw [List.flatten_append, List.flatten_cons, solid_append, solid_append, munch_flatten, ih,
        List.flatMap_cons, solid_append]
      rfl
  | case5 word body rest ih =>
      rw [List.flatten_append, solid_append, munch_flatten, ih]
      rfl
  | case6 word body rest ih =>
      rw [List.flatten_append, solid_append, munch_flatten, ih]
      rfl

end Chunks

/-! ## Words of what is left -/

/-- The words of pieces, the first one with some letters in front of it. -/
@[grind =] def joinedWords (word : Chars) : List Piece → List Chars
  | [] => [word]
  | .letter value :: rest =>
      if isSpaceByte value then word :: joinedWords [] rest else joinedWords (word ++ [value]) rest
  | .literal _ _ _ :: rest => word :: joinedWords [] rest
  | .lineComment _ :: rest => word :: joinedWords [] rest
  | .blockComment _ :: rest => word :: joinedWords [] rest

theorem joinedWords_left (lastChar : Option UInt8) (group : List Chars) (word : Chars)
    (pieces : List Piece) :
    ((chunksFrom lastChar group word pieces).filterMap Chunk.group?).map List.flatten =
      joinedWords (group.flatten ++ word) (leftOf cMarkers true lastChar pieces) := by
  fun_induction chunksFrom lastChar group word pieces with
  | case1 lastChar group word => simp [Chunk.group?, joinedWords, leftOf]
  | case2 lastChar group word value rest white drops ih => simp [leftOf, Piece.left, ih, white, drops]
  | case3 lastChar group word value rest white keeps ih =>
      simp [Chunk.group?, leftOf, Piece.left, joinedWords, ih, white, keeps, isSpaceByte_blank,
        Piece.written]
  | case4 lastChar group word value rest solid ih =>
      simp [leftOf, Piece.left, joinedWords, ih, solid, Piece.written]
  | case5 lastChar group word quote inner closed rest text ih =>
      have noWords : Chunk.group? (.literal text) = none := rfl
      have glued : Chunk.group? (.words (group ++ [word])) = some (group ++ [word]) := rfl
      rw [List.filterMap_cons_some glued, List.filterMap_cons_none noWords, List.map_cons, ih]
      simp [leftOf, Piece.left, joinedWords, text]
  | case6 lastChar group word body rest ih => simp [leftOf, Piece.left, ih]
  | case7 lastChar group word body rest ih => simp [leftOf, Piece.left, ih]

/-- A word is written in one piece. -/
theorem joinedWords_split {first word : Chars} {pieces : List Piece}
    (member : word ∈ joinedWords first pieces) :
    ∃ front back, first.map .letter ++ pieces = front ++ (word.map .letter ++ back) := by
  fun_induction joinedWords first pieces with
  | case1 first =>
      rw [List.mem_singleton.mp member]
      exact ⟨[], [], by simp⟩
  | case2 first value rest white ih =>
      rcases List.mem_cons.mp member with rfl | later
      · exact ⟨[], _, rfl⟩
      · obtain ⟨front, back, split⟩ := ih later
        exact ⟨first.map .letter ++ .letter value :: front, back, by simpa using split⟩
  | case3 first value rest isSolid ih =>
      obtain ⟨front, back, split⟩ := ih member
      exact ⟨front, back, by simpa using split⟩
  | case4 first quote inner closed rest ih =>
      rcases List.mem_cons.mp member with rfl | later
      · exact ⟨[], _, rfl⟩
      · obtain ⟨front, back, split⟩ := ih later
        exact ⟨first.map .letter ++ .literal quote inner closed :: front, back, by simpa using split⟩
  | case5 first body rest ih =>
      rcases List.mem_cons.mp member with rfl | later
      · exact ⟨[], _, rfl⟩
      · obtain ⟨front, back, split⟩ := ih later
        exact ⟨first.map .letter ++ .lineComment body :: front, back, by simpa using split⟩
  | case6 first body rest ih =>
      rcases List.mem_cons.mp member with rfl | later
      · exact ⟨[], _, rfl⟩
      · obtain ⟨front, back, split⟩ := ih later
        exact ⟨first.map .letter ++ .blockComment body :: front, back, by simpa using split⟩

theorem joinedWords_first (word : Chars) (pieces : List Piece) :
    ∃ found ∈ joinedWords word pieces, word <+: found := by
  fun_induction joinedWords word pieces with
  | case1 word => exact ⟨word, List.mem_singleton_self _, List.prefix_refl _⟩
  | case3 word value rest isSolid ih =>
      obtain ⟨found, member, starts⟩ := ih
      exact ⟨found, member, (List.prefix_append _ _).trans starts⟩
  | case2 => exact ⟨_, List.mem_cons_self, List.prefix_refl _⟩
  | case4 => exact ⟨_, List.mem_cons_self, List.prefix_refl _⟩
  | case5 => exact ⟨_, List.mem_cons_self, List.prefix_refl _⟩
  | case6 => exact ⟨_, List.mem_cons_self, List.prefix_refl _⟩

theorem joinedWords_append (word : Chars) {letters : Chars}
    (isSolid : ∀ letter ∈ letters, isSpaceByte letter = false) (back : List Piece) :
    joinedWords word (letters.map .letter ++ back) = joinedWords (word ++ letters) back := by
  induction letters generalizing word with
  | nil => rw [List.map_nil, List.nil_append, List.append_nil]
  | cons letter letters ih =>
      rw [List.forall_mem_cons] at isSolid
      rw [List.map_cons, List.cons_append, joinedWords, if_neg (by simp [isSolid.1]), ih _ isSolid.2,
        ← List.append_cons]

/-- Letters one after the other are in one word. -/
theorem joinedWords_letters (word : Chars) {letters : Chars}
    (isSolid : ∀ letter ∈ letters, isSpaceByte letter = false) (front back : List Piece) :
    ∃ found ∈ joinedWords word (front ++ (letters.map .letter ++ back)), letters <:+: found := by
  induction front generalizing word with
  | nil =>
      obtain ⟨found, member, starts⟩ := joinedWords_first (word ++ letters) back
      rw [List.nil_append, joinedWords_append word isSolid]
      exact ⟨found, member, (List.suffix_append _ _).isInfix.trans starts.isInfix⟩
  | cons piece front ih =>
      have later := ih []
      obtain ⟨found, member, inside⟩ := later
      rw [List.cons_append]
      cases piece with
      | letter value =>
          rw [joinedWords]
          split_ifs with white
          · exact ⟨found, List.mem_cons_of_mem _ member, inside⟩
          · exact ih _
      | literal quote inner closed => exact ⟨found, List.mem_cons_of_mem _ member, inside⟩
      | lineComment body => exact ⟨found, List.mem_cons_of_mem _ member, inside⟩
      | blockComment body => exact ⟨found, List.mem_cons_of_mem _ member, inside⟩

theorem written_letters (markers : Markers) (text : Chars) :
    (text.map .letter).flatMap (Piece.written markers) = text := by
  rw [List.flatMap_map]
  exact List.flatMap_singleton' text

/-- The words that are written together. -/
theorem gluedWords_flatten (code : Chars) :
    (gluedWords code).map List.flatten = joinedWords [] (leftOf cMarkers true none (lex cMarkers code)) :=
  joinedWords_left none [] [] (lex cMarkers code)

/-- A comment is found exactly in words that have its begin in them. -/
theorem findsComment_iff (code : Chars) :
    FindsComment cMarkers (leftOf cMarkers true none (lex cMarkers code)) ↔
      ∃ group ∈ gluedWords code, ∃ marker ∈ [cMarkers.single, cMarkers.multiBegin],
        marker.chars <:+: group.flatten := by
  have words := gluedWords_flatten code
  constructor
  · rintro ⟨front, value, back, split, marker, listed, stands⟩
    obtain ⟨second, chars, notQuote, isSolid⟩ : ∃ second, marker.chars = [47, second] ∧
        ¬(second = 34 ∨ second = 39) ∧ isSpaceByte second = false := by
      simp only [List.mem_cons, List.not_mem_nil, or_false] at listed
      rcases listed with rfl | rfl
      · exact ⟨47, rfl, by decide, rfl⟩
      · exact ⟨42, rfl, by decide, rfl⟩
    rw [chars, List.cons_prefix_cons] at stands
    obtain ⟨rfl, behind, written⟩ := stands
    cases back with
    | nil => cases written
    | cons piece back =>
        have left : piece ∈ leftOf cMarkers true none (lex cMarkers code) := by
          rw [split]
          simp
        have next : piece = .letter second := by
          rcases mem_leftOf left with ⟨letter, rfl⟩ | ⟨quote, inner, closed, rfl, member⟩
          · exact congrArg _ (List.cons.inj written).1.symm
          · have isQuote := quote_of_mem_lexFrom member
            exact absurd ((List.cons.inj written).1 ▸ isQuote) notQuote
        obtain ⟨found, member, inside⟩ := @joinedWords_letters [] [47, second]
          (by simpa using ⟨rfl, isSolid⟩) front back
        rw [next] at split
        rw [split] at words
        rw [List.map_cons, List.map_cons, List.map_nil, List.cons_append, List.singleton_append,
          ← words] at member
        obtain ⟨group, among, rfl⟩ := List.mem_map.mp member
        exact ⟨group, among, marker, listed, chars ▸ inside⟩
  · rintro ⟨group, among, marker, listed, before, after, split⟩
    have member : group.flatten ∈ joinedWords [] (leftOf cMarkers true none (lex cMarkers code)) := by
      rw [← words]
      exact List.mem_map_of_mem among
    obtain ⟨front, back, whole⟩ := joinedWords_split member
    obtain ⟨first, others, chars⟩ : ∃ first others, marker.chars = first :: others := by
      simp only [List.mem_cons, List.not_mem_nil, or_false] at listed
      rcases listed with rfl | rfl
      · exact ⟨47, [47], rfl⟩
      · exact ⟨47, [42], rfl⟩
    refine ⟨front ++ before.map .letter, first, others.map .letter ++ (after.map .letter ++ back), ?_,
      marker, listed, after ++ back.flatMap (Piece.written cMarkers), ?_⟩
    · rw [← split, chars, List.map_nil, List.nil_append] at whole
      rw [whole]
      simp
    · rw [chars, List.flatMap_append, List.flatMap_append, written_letters, written_letters,
        List.cons_append]

/-- Source code that has the same tokens without white space is read as it is left. -/
theorem lex_minified_of_tokens {isToken : Chars → Bool} {code : Chars}
    (same : sourceTokens isToken (minified cMarkers code) = sourceTokens isToken code) :
    lex cMarkers (minified cMarkers code) = leftOf cMarkers true none (lex cMarkers code) := by
  have letters := solid_sourceTokensFrom isToken [] (lex cMarkers (minified cMarkers code))
  have noComment := @noComment_of_solid cMarkers (lex cMarkers (minified cMarkers code))
    (by decide) (by
      calc solid ((lex cMarkers (minified cMarkers code)).flatMap (Piece.kept cMarkers))
          = solid (sourceTokens isToken (minified cMarkers code)).flatten := letters.symm
        _ = solid (sourceTokens isToken code).flatten := by rw [same]
        _ = solid ((lex cMarkers code).flatMap (Piece.kept cMarkers)) := solid_sourceTokensFrom isToken [] _
        _ = solid (minified cMarkers code) := (solid_left cMarkers none _).symm
        _ = solid ((lex cMarkers (minified cMarkers code)).flatMap (Piece.written cMarkers)) := by
          rw [lex_written])
  refine (reads_left none code.length code _ (le_refl _)).resolve_right ?_
  rintro ⟨_, piece, member, comment⟩
  rw [noComment piece member] at comment
  cases comment

/-- The tokens are kept exactly if words can be written without anything between them wherever
nothing is left. -/
theorem keepsTokens_iff (isToken : Chars → Bool) {code : Chars} (short : code.length < 2 ^ 31)
    (harmless : ∀ piece ∈ lex cMarkers code, piece.Harmless cMarkers) :
    KeepsTokens isToken code ↔ ∀ group ∈ gluedWords code, Separable isToken group := by
  have kept : KeepsTokens isToken code ↔
      sourceTokens isToken (minified cMarkers code) = sourceTokens isToken code := by
    constructor
    · rintro ⟨fuel, result, returned, same⟩
      rwa [(strMinifyCode_minified short (readWhole_cMarkers code) harmless).mp ⟨fuel, returned⟩] at same
    · intro same
      obtain ⟨fuel, returned⟩ :=
        (strMinifyCode_minified short (readWhole_cMarkers code) harmless).mpr rfl
      exact ⟨fuel, _, returned, same⟩
  have apart : (chunksFrom none [] [] (lex cMarkers code)).flatMap (Chunk.tokensApart isToken) =
      sourceTokens isToken code := tokensApart_chunks isToken none [] [] _
  have joined (reread : lex cMarkers (minified cMarkers code) =
      leftOf cMarkers true none (lex cMarkers code)) :
      (chunksFrom none [] [] (lex cMarkers code)).flatMap (Chunk.tokensJoined isToken) =
        sourceTokens isToken (minified cMarkers code) := by
    rw [sourceTokens, reread]
    exact tokensJoined_chunks isToken none [] [] _
  have groups := chunks_tokens_iff isToken (chunksFrom none [] [] (lex cMarkers code))
  rw [kept]
  constructor
  · intro same group member
    have reread := lex_minified_of_tokens same
    have absent := (lex_left_iff code).mp reread
    rw [findsComment_iff] at absent
    refine ⟨fun marker listed inside => absent ⟨group, member, marker, listed, inside⟩, ?_⟩
    rw [joined reread, apart] at groups
    exact (munch_flatten_iff isToken group).mp (groups.mp same group member)
  · intro separable
    have reread : lex cMarkers (minified cMarkers code) =
        leftOf cMarkers true none (lex cMarkers code) := by
      rw [lex_left_iff, findsComment_iff]
      rintro ⟨group, member, marker, listed, inside⟩
      exact (separable group member).noComment marker listed inside
    rw [joined reread, apart] at groups
    exact groups.mpr fun group member =>
      (munch_flatten_iff isToken group).mpr (separable group member).apart

/-! ## The tokens of C and JavaScript -/

def isNumeral (letter : UInt8) : Bool := 48 ≤ letter && letter ≤ 57

/-- Letters, digits, `_`, `$` and the bytes of other letters. -/
def isWordLetter (letter : UInt8) : Bool :=
  isNumeral letter || (65 ≤ letter && letter ≤ 90) || (97 ≤ letter && letter ≤ 122) || letter = 95 ||
    letter = 36 || 128 ≤ letter

def isIdentifier : Chars → Bool
  | [] => false
  | first :: rest => !isNumeral first && (first :: rest).all isWordLetter

/-- The rest of a number; a sign may follow the letter of an exponent. -/
def isNumberRest (last : UInt8) : Chars → Bool
  | [] => true
  | letter :: rest =>
      (isWordLetter letter || letter = 46 ||
        ((letter = 43 || letter = 45) && (last = 69 || last = 101 || last = 80 || last = 112))) &&
        isNumberRest letter rest

def isNumber : Chars → Bool
  | 46 :: first :: rest => isNumeral first && isNumberRest first rest
  | first :: rest => isNumeral first && isNumberRest first rest
  | [] => false

/-- Operators of more than one letter. -/
def operators : List Chars :=
  ["...", "->", "++", "--", "<<", ">>", ">>>", "<=", ">=", "==", "!=", "===", "!==", "&&", "||", "??",
    "?.", "=>", "**", "+=", "-=", "*=", "/=", "%=", "&=", "|=", "^=", "<<=", ">>=", ">>>=", "**=", "&&=",
    "||=", "??=", "::", "##"].map fun word => word.toList.map fun letter => .ofNat letter.toNat

def cToken (word : Chars) : Bool := isIdentifier word || isNumber word || word ∈ operators

theorem keepsTokens_iff_assignment :
    KeepsTokens cToken [105, 110, 116, 32, 97, 32, 61, 32, 98, 59] ↔
      ∀ group ∈ gluedWords [105, 110, 116, 32, 97, 32, 61, 32, 98, 59], Separable cToken group :=
  keepsTokens_iff cToken (by decide) (by decide)

/-- Two operators with a blank between them, and two words with a comment between them. -/
theorem not_keepsTokens : ¬ KeepsTokens cToken [97, 43, 32, 43, 98] ∧
    ¬ KeepsTokens cToken [105, 110, 116, 47, 42, 42, 47, 120] := by
  constructor
  · rintro ⟨fuel, result, returned, same⟩
    have glued : Returns (minifyStep (cMarkers.call true [97, 43, 32, 43, 98])) (scanned [] .code none [])
        [97, 43, 43, 98] := ⟨6, by decide +kernel⟩
    rw [Returns.unique ⟨fuel, returned⟩ glued] at same
    exact absurd same (by decide +kernel)
  · rintro ⟨fuel, result, returned, same⟩
    have glued : Returns (minifyStep (cMarkers.call true [105, 110, 116, 47, 42, 42, 47, 120]))
        (scanned [] .code none []) [105, 110, 116, 120] := ⟨9, by decide +kernel⟩
    rw [Returns.unique ⟨fuel, returned⟩ glued] at same
    exact absurd same (by decide +kernel)

end Tegenaria.LibStr
