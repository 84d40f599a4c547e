import Mathlib.Data.List.DropRight
import Mathlib.Data.List.Infix
import Tegenaria.QCBuild.Scan

/-!
# The scanner and a reference lexer

The reference lexer describes each token by the text it spans.  A text is complete when
the reference reads it to the end.  On complete texts the scanner returns the tokens of
the reference exactly when the text is regular: a comma, a CRLF behind which a line
begins, a comment that begins with `/*/` and some directives with a backslash are read in
another way.
-/

namespace Tegenaria.QCBuild

/-! ## The reference lexer -/

/-- Behind one line end, which is LF, CR or CRLF. -/
def behindLineEnd (c : UInt8) (rest : Stream) : Stream :=
  if [carriageReturn, lineFeed] <+: c :: rest then rest.tail else rest

/-- A line end that does not end a directive: one that stands directly behind a backslash. -/
abbrev Continued (text : Stream) (c : UInt8) : Prop :=
  [backslash] <:+ text ∨ c = lineFeed ∧ [backslash, carriageReturn] <:+ text

/-- A directive goes up to the first line end that is not continued. -/
def splitDirective (text : Stream) : Stream → Option (Stream × Stream)
  | [] => none
  | c :: rest =>
      if isLineEnd c = true ∧ ¬ Continued text c then some (text, c :: rest)
      else splitDirective (text ++ [c]) rest

/-- A comment of one line goes up to the line end. -/
def splitLine (stream : Stream) : Option (Stream × Stream) :=
  match stream.dropWhile fun c => !isLineEnd c with
  | [] => none
  | c :: rest => some (stream.takeWhile fun c => !isLineEnd c, c :: rest)

/-- The body of a comment goes up to the first closing marker inside it. -/
def splitComment (body : Stream) : Stream → Option (Stream × Stream)
  | [] => none
  | c :: rest =>
      if [star, slash] <:+ body ++ [c] then some (body ++ [c], rest)
      else splitComment (body ++ [c]) rest

/-- A literal goes up to the first quotation mark that is not escaped. -/
@[grind =] def splitLiteral (mark : UInt8) : Stream → Option (Stream × Stream)
  | [] => none
  | c :: rest =>
      if c = mark then some ([c], rest)
      else if c = backslash then
        match rest with
        | [] => none
        | next :: later =>
            (splitLiteral mark later).map fun parts => (c :: next :: parts.1, parts.2)
      else (splitLiteral mark rest).map fun parts => (c :: parts.1, parts.2)

/-- Operators and comments.  The line end of a one line comment and the line ends behind
a long comment give no token of their own. -/
def refOperator (c : UInt8) (rest : Stream) : Option (TokenId × Stream × Stream) :=
  if [slash, slash] <+: c :: rest then
    (splitLine (c :: rest)).map fun parts =>
      (.comment, parts.1, (parts.2.head?.map (behindLineEnd · parts.2.tail)).getD [])
  else if [slash, star] <+: c :: rest then
    (splitComment [] rest.tail).map fun parts =>
      (.comment, [slash, star] ++ parts.1, parts.2.dropWhile isLineEnd)
  else some (.operator, [c], rest)

/-- The token a text begins with; bytes that begin no token are skipped. -/
@[grind =] def refToken : Stream → Option (TokenId × Stream × Stream)
  | [] => some (.eof, [], [])
  | c :: rest =>
      match charCase c with
      | .zero => some (.eof, [], c :: rest)
      | .white => some (.white, [blank], rest.dropWhile isBlank)
      | .lineEnd => some (.eol, [blank], behindLineEnd c rest)
      | .comma => some (.delim, [c], rest)
      | .letter => some (.ident, c :: rest.takeWhile isIdentByte, rest.dropWhile isIdentByte)
      | .digit => some (.number, c :: rest.takeWhile isNumberByte, rest.dropWhile isNumberByte)
      | .hash => (splitDirective [c] rest).map fun parts => (.directive, parts.1, parts.2)
      | .single id => some (id, [c], rest)
      | .operator => refOperator c rest
      | .quote id => (splitLiteral c rest).map fun parts => (id, c :: parts.1, parts.2)
      | .other => refToken rest

/-- The tokens of the reference lexer. -/
def refTokens (stream : Stream) : Option (List Token) :=
  tokensWith refToken (stream.length + 1) stream

/-! ## Regular texts -/

/-- The bytes behind the last line end. -/
def lastLine (text : Stream) : Stream := text.rtakeWhile fun c => !isLineEnd c

/-- A directive that does not continue over a CRLF and has no backslash in its last line. -/
abbrev PlainDirective (text : Stream) : Prop :=
  ¬ [backslash, carriageReturn, lineFeed] <:+: text ∧ backslash ∉ lastLine text

/-- The next token is no comma, no CRLF, no comment that begins with `/*/` and, if it is
a directive, a plain one. -/
@[grind =] def harmless : Stream → Bool
  | [] => true
  | c :: rest =>
      match charCase c with
      | .lineEnd => !decide ([carriageReturn, lineFeed] <+: c :: rest)
      | .comma => false
      | .hash => (splitDirective [c] rest).all fun parts => PlainDirective parts.1
      | .operator => !decide ([slash, star, slash] <+: c :: rest)
      | .other => harmless rest
      | _ => true

/-- All tokens of the reference up to the end of the text are harmless. -/
def regularWith : Nat → Stream → Bool
  | 0, _ => true
  | fuel + 1, stream =>
      harmless stream &&
        (refToken stream).all fun found => found.1 == .eof || regularWith fuel found.2.2

def regular (stream : Stream) : Bool := regularWith (stream.length + 1) stream

/-! ## Loops of the scanner -/

theorem popWhile_eq (test : UInt8 → Bool) (token stream : Stream) :
    popWhile test token stream = (token ++ stream.takeWhile test, stream.dropWhile test) := by
  induction stream generalizing token with
  | nil => simp [popWhile]
  | cons c rest ih =>
      cases tested : test c with
      | true => simp [popWhile, tested, ih]
      | false => simp [popWhile, tested]

theorem eatWhile_eq (test : UInt8 → Bool) (stream : Stream) :
    eatWhile test stream = stream.dropWhile test := by
  induction stream with
  | nil => rfl
  | cons c rest ih => simp only [eatWhile, List.dropWhile_cons, ih]

theorem lineCommentLoop_eq (token stream : Stream) :
    lineCommentLoop token stream
      = (splitLine stream).map fun parts => (token ++ parts.1, parts.2) := by
  induction stream generalizing token with
  | nil => rfl
  | cons c rest ih =>
      cases ended : isLineEnd c with
      | true => simp [lineCommentLoop, splitLine, ended]
      | false =>
          simp only [lineCommentLoop, ended, Bool.false_eq_true, if_false, ih]
          cases behind : rest.dropWhile fun c => !isLineEnd c with
          | nil => simp [splitLine, ended, behind]
          | cons next later => simp [splitLine, ended, behind]

theorem literalLoop_eq (mark : UInt8) (token stream : Stream) :
    literalLoop mark token stream
      = (splitLiteral mark stream).map fun parts => (token ++ parts.1, parts.2) := by
  induction token, stream using literalLoop.induct mark with
  | case1 token => rfl
  | case2 token c rest found =>
      unfold literalLoop splitLiteral
      simp_all
  | case3 token c other escape => simp_all [literalLoop, splitLiteral]
  | case4 token c other escape next later ih =>
      simp_all [literalLoop, splitLiteral, Function.comp_def]
  | case5 token c rest other plain ih =>
      unfold literalLoop splitLiteral
      simp_all [Function.comp_def]

/-- Behind the opening marker and one more byte, the loop waits for a closing marker of
the body. -/
theorem longCommentLoop_eq {body : Stream} (begun : body ≠ []) (stream : Stream) :
    longCommentLoop ([slash, star] ++ body) stream
      = (splitComment body stream).map fun parts => ([slash, star] ++ parts.1, parts.2) := by
  induction stream generalizing body with
  | nil => rfl
  | cons c rest ih =>
      have long : 2 ≤ (body ++ [c]).length := by
        have := List.length_pos_of_ne_nil begun
        simp only [List.length_append, List.length_singleton]
        omega
      have marker : (([slash, star] ++ body ++ [c]).length > 2
          ∧ ([slash, star] ++ body ++ [c]).drop (([slash, star] ++ body ++ [c]).length - 2)
            = [star, slash]) ↔ [star, slash] <:+ body ++ [c] := by
        rw [List.append_assoc]
        constructor
        · rintro ⟨-, dropped⟩
          have whole : [star, slash] <:+ [slash, star] ++ (body ++ [c]) :=
            List.suffix_iff_eq_drop.mpr dropped.symm
          exact List.suffix_of_suffix_length_le whole (List.suffix_append _ _) long
        · intro closed
          have whole := closed.trans (List.suffix_append [slash, star] (body ++ [c]))
          refine ⟨?_, (List.suffix_iff_eq_drop.mp whole).symm⟩
          simp only [List.length_append, List.length_cons, List.length_nil] at long ⊢
          omega
      simp only [longCommentLoop, splitComment, marker]
      split
      · rfl
      · rw [List.append_assoc, ih (by simp)]

/-! ## Directives -/

theorem lastLine_concat (text : Stream) (c : UInt8) :
    lastLine (text ++ [c]) = if isLineEnd c then [] else lastLine text ++ [c] := by
  unfold lastLine
  rw [List.rtakeWhile_concat]
  cases isLineEnd c <;> rfl

theorem not_plain_of_crossed {text : Stream}
    (crossed : [backslash, carriageReturn, lineFeed] <:+: text) : ¬ PlainDirective text :=
  fun plain => plain.1 crossed

/-- A byte completes a continuation over a CRLF only when it is the line feed behind it. -/
theorem crossed_concat_iff (text : Stream) (c : UInt8) :
    [backslash, carriageReturn, lineFeed] <:+: text ++ [c]
      ↔ (c = lineFeed ∧ [backslash, carriageReturn] <:+ text)
        ∨ [backslash, carriageReturn, lineFeed] <:+: text := by
  have ending : [backslash, carriageReturn, lineFeed] <:+ text ++ [c]
      ↔ c = lineFeed ∧ [backslash, carriageReturn] <:+ text := by
    have split : [backslash, carriageReturn, lineFeed] = [backslash, carriageReturn] ++ [lineFeed] :=
      rfl
    rw [split, List.suffix_concat_iff]
    simp only [List.append_eq_nil_iff, List.cons_ne_nil, and_false, false_or]
    constructor
    · rintro ⟨front, same, inside⟩
      obtain ⟨rfl, last⟩ := List.append_inj' same rfl
      exact ⟨(List.singleton_inj.mp last).symm, inside⟩
    · rintro ⟨rfl, inside⟩
      exact ⟨_, rfl, inside⟩
  rw [List.infix_concat_iff, ending]

theorem splitDirective_extends {text stream found behind : Stream}
    (split : splitDirective text stream = some (found, behind)) :
    text <+: found ∧ found ++ behind = text ++ stream := by
  induction stream generalizing text with
  | nil => simp [splitDirective] at split
  | cons c rest ih =>
      simp only [splitDirective] at split
      split at split
      · cases split
        exact ⟨List.prefix_rfl, rfl⟩
      · obtain ⟨inside, whole⟩ := ih split
        refine ⟨(List.prefix_append text [c]).trans inside, ?_⟩
        rw [whole, List.append_assoc, List.singleton_append]

theorem directiveLoop_extends {joined : Bool} {token rest found behind : Stream} {c : UInt8}
    (looped : directiveLoop joined token (c :: rest) = some (found, behind)) :
    token ++ [c] <+: found ∧ found ++ behind = token ++ c :: rest := by
  induction rest generalizing joined token c with
  | nil => simp [directiveLoop] at looped
  | cons next later ih =>
      have step : ∀ {flag}, directiveLoop flag (token ++ [c]) (next :: later) = some (found, behind)
          → token ++ [c] <+: found ∧ found ++ behind = token ++ c :: next :: later := by
        intro flag onward
        obtain ⟨inside, whole⟩ := ih onward
        refine ⟨(List.prefix_append _ _).trans inside, ?_⟩
        rw [whole, List.append_assoc, List.singleton_append]
      rw [directiveLoop] at looped
      split at looped
      · cases joined with
        | true => exact step looped
        | false =>
            cases looped
            exact ⟨List.prefix_rfl, by rw [List.append_assoc, List.singleton_append]⟩
      · split at looped
        · exact step looped
        · exact step looped

/-- The flag of the loop says whether there is a backslash in the last line, so it agrees
with the reference as long as the only backslashes are the ones at line ends. -/
theorem directiveLoop_eq_iff {token rest found behind : Stream} {c : UInt8}
    (uncrossed : ¬ [backslash, carriageReturn, lineFeed] <:+: token ++ [c])
    (split : splitDirective (token ++ [c]) rest = some (found, behind)) :
    directiveLoop (decide (backslash ∈ lastLine (token ++ [c]))) token (c :: rest)
        = some (found, behind)
      ↔ PlainDirective found := by
  induction rest generalizing token c with
  | nil => simp [splitDirective] at split
  | cons next later ih =>
      have flagged := lastLine_concat (token ++ [c]) next
      rw [splitDirective] at split
      rw [directiveLoop]
      cases ended : isLineEnd next with
      | false =>
          simp only [ended, Bool.false_eq_true, false_and, if_false] at split
          have stillUncrossed : ¬ [backslash, carriageReturn, lineFeed] <:+: token ++ [c] ++ [next] := by
            rw [crossed_concat_iff]
            rintro (⟨rfl, -⟩ | crossed)
            · exact absurd ended (by decide)
            · exact uncrossed crossed
          rw [← ih stillUncrossed split, flagged]
          simp only [ended, Bool.false_eq_true, if_false, List.mem_append, List.mem_singleton]
          by_cases escape : next = backslash
          · simp [escape]
          · simp [escape, Ne.symm escape]
      | true =>
          simp only [ended, true_and, if_true] at split ⊢
          split at split
          · next stopped =>
              cases split
              by_cases inside : backslash ∈ lastLine (token ++ [c])
              · simp only [PlainDirective, inside, decide_true, if_true, not_true, and_false, iff_false]
                intro onward
                have longer := (directiveLoop_extends onward).1.length_le
                simp at longer
              · simp [PlainDirective, inside, uncrossed]
          · next continued =>
              rcases not_not.mp continued with joint | ⟨rfl, joint⟩
              · obtain rfl : backslash = c := by simpa using joint.getLast (by simp)
                have stillUncrossed :
                    ¬ [backslash, carriageReturn, lineFeed] <:+: token ++ [backslash] ++ [next] := by
                  rw [crossed_concat_iff]
                  rintro (⟨-, other⟩ | crossed)
                  · exact absurd (other.getLast (by simp)) (by simp; decide)
                  · exact uncrossed crossed
                rw [← ih stillUncrossed split, flagged]
                simp [ended, lastLine_concat, (by decide : isLineEnd backslash = false)]
              · obtain rfl : carriageReturn = c := by simpa using joint.getLast (by simp)
                have crossed : [backslash, carriageReturn, lineFeed] <:+: found :=
                  ((crossed_concat_iff _ _).mpr (.inl ⟨rfl, joint⟩)).trans
                    (splitDirective_extends split).1.isInfix
                have longer := (splitDirective_extends split).1.length_le
                have unflagged : backslash ∉ lastLine (token ++ [carriageReturn]) := by
                  simp [lastLine_concat, (by decide : isLineEnd carriageReturn = true)]
                simp only [not_plain_of_crossed crossed, iff_false, unflagged, decide_false,
                  Bool.false_eq_true, if_false, Option.some.injEq, Prod.mk.injEq, not_and]
                rintro rfl
                simp at longer

/-- The hash sign is neither a line end nor a backslash, so the loop begins without the flag. -/
theorem directive_eq_iff {rest found behind : Stream}
    (split : splitDirective [35] rest = some (found, behind)) :
    directiveLoop false [] (35 :: rest) = some (found, behind) ↔ PlainDirective found := by
  have unflagged : decide (backslash ∈ lastLine ([] ++ [35])) = false := by decide
  rw [← @directiveLoop_eq_iff [] rest found behind 35 (by decide) split, unflagged]

/-! ## Comments -/

theorem pair_prefix_iff (first second c : UInt8) (rest : Stream) :
    [first, second] <+: c :: rest ↔ (c == first && rest.head? == some second) = true := by
  cases rest with
  | nil => simp [List.cons_prefix_cons]
  | cons next later =>
      simp only [List.cons_prefix_cons, List.nil_prefix, and_true, List.head?_cons, Bool.and_eq_true,
        beq_iff_eq, Option.some.injEq]
      rw [eq_comm, @eq_comm _ second]

theorem lineEnd_cases {c : UInt8} (ended : isLineEnd c = true) :
    c = lineFeed ∨ c = carriageReturn := by
  simpa [isLineEnd] using ended

theorem splitLine_behind {stream text behind : Stream}
    (split : splitLine stream = some (text, behind)) :
    ∃ c rest, behind = c :: rest ∧ isLineEnd c = true := by
  unfold splitLine at split
  split at split
  · cases split
  · next c rest dropped =>
      cases split
      have stopped := List.head?_dropWhile_not (fun c => !isLineEnd c) stream
      simp only [dropped, List.head?_cons] at stopped
      exact ⟨c, rest, rfl, by simpa using stopped⟩

theorem eatLineEnd_eq {c : UInt8} (ended : isLineEnd c = true) (rest : Stream) :
    eatLineEnd (c :: rest) = behindLineEnd c rest := by
  simp only [eatLineEnd, behindLineEnd, pair_prefix_iff]
  rcases lineEnd_cases ended with rfl | rfl
  · simp [(by decide : ¬ lineFeed = carriageReturn)]
  · cases rest with
    | nil => simp
    | cons next later => simp

theorem longComment_eq {body : Stream} (plain : ¬ [slash] <+: body) :
    longCommentLoop [slash] (star :: body)
      = (splitComment [] body).map fun parts => ([slash, star] ++ parts.1, parts.2) := by
  cases body with
  | nil => rfl
  | cons c rest =>
      have other : ¬ c = slash := by simpa [List.cons_prefix_cons, eq_comm] using plain
      have short : ¬ [star, slash] <:+ [] ++ [c] := fun closed => by simpa using closed.length_le
      rw [splitComment, if_neg short, List.nil_append, ← longCommentLoop_eq (List.cons_ne_nil c [])]
      simp [longCommentLoop, other]

theorem scanOperator_eq {c : UInt8} {rest : Stream}
    (plain : ¬ [slash, star, slash] <+: c :: rest) : scanOperator c rest = refOperator c rest := by
  simp only [scanOperator, refOperator, pair_prefix_iff]
  split
  · next line =>
      obtain rfl : c = slash := by simp_all
      have started : lineCommentLoop [slash] rest = lineCommentLoop [] (slash :: rest) := rfl
      rw [started, lineCommentLoop_eq]
      cases found : splitLine (slash :: rest) with
      | none => rfl
      | some parts =>
          obtain ⟨next, later, behind, ended⟩ := splitLine_behind found
          simp [behind, eatLineEnd_eq ended]
  · split
    · next long =>
        obtain ⟨rfl, body, rfl⟩ : c = slash ∧ ∃ body, rest = star :: body := by
          cases rest with
          | nil => simp at long
          | cons next later => simp_all
        have unclosed : ¬ [slash] <+: body := by simpa [List.cons_prefix_cons] using plain
        simp [longComment_eq unclosed, eatWhile_eq, Function.comp_def]
    · rfl

/-- The marker that closes `/*/` shares its first byte with the one that opens it. -/
theorem scanOperator_overlap (body : Stream) :
    scanOperator slash (star :: slash :: body)
      = some (.comment, [slash, star, slash], body.dropWhile isLineEnd) := by
  simp [scanOperator, longCommentLoop, eatWhile_eq, (by decide : ¬ star = slash)]

theorem splitComment_extends {body stream found behind : Stream}
    (split : splitComment body stream = some (found, behind)) :
    body <+: found ∧ [star, slash] <:+ found ∧ found ++ behind = body ++ stream := by
  induction stream generalizing body with
  | nil => cases split
  | cons c rest ih =>
      rw [splitComment] at split
      split at split
      · next closed =>
          cases split
          exact ⟨List.prefix_append _ _, closed, by rw [List.append_assoc, List.singleton_append]⟩
      · obtain ⟨inside, closed, whole⟩ := ih split
        refine ⟨(List.prefix_append _ _).trans inside, closed, ?_⟩
        rw [whole, List.append_assoc, List.singleton_append]

theorem refOperator_overlap {body text behind : Stream} {id : TokenId}
    (lexed : refOperator slash (star :: slash :: body) = some (id, text, behind)) :
    4 ≤ text.length := by
  simp only [refOperator, pair_prefix_iff] at lexed
  rw [if_neg (by simp [(by decide : ¬ star = slash)]), if_pos (by simp)] at lexed
  obtain ⟨parts, split, same⟩ := Option.map_eq_some_iff.mp lexed
  cases same
  have closed := (splitComment_extends split).2.1.length_le
  simp only [List.length_append, List.length_cons, List.length_nil] at closed ⊢
  omega

/-! ## Tokens -/

/-- What the case of a byte says about it. -/
@[grind =] def CharCase.Holds (c : UInt8) : CharCase → Prop
  | .white => isBlank c = true
  | .lineEnd => isLineEnd c = true
  | .letter => isLetterByte c = true
  | .digit => isDigitByte c = true
  | .hash => c = 35
  | .single id | .quote id => id ≠ .eol
  | _ => True

theorem charCase_holds (c : UInt8) : (charCase c).Holds c := by
  unfold charCase
  refine iteInduction (motive := CharCase.Holds c) (fun _ => trivial) fun _ => ?_
  refine iteInduction (motive := CharCase.Holds c) id fun _ => ?_
  refine iteInduction (motive := CharCase.Holds c) id fun _ => ?_
  refine iteInduction (motive := CharCase.Holds c) (fun _ => trivial) fun _ => ?_
  refine iteInduction (motive := CharCase.Holds c) id fun _ => ?_
  refine iteInduction (motive := CharCase.Holds c) id fun _ => ?_
  refine iteInduction (motive := CharCase.Holds c) beq_iff_eq.mp fun _ => ?_
  repeat
    refine iteInduction (motive := CharCase.Holds c) (fun _ => by simp [CharCase.Holds]) fun _ => ?_
  trivial

/-- No byte is both a carriage return and a line feed. -/
theorem not_both_line_ends (c : UInt8) : (c == carriageReturn && c == lineFeed) = false := by
  rw [Bool.and_eq_false_iff]
  by_cases carriage : c = carriageReturn
  · exact .inr (by rw [carriage]; decide)
  · exact .inl (beq_eq_false_iff_ne.mpr carriage)

/-- The cases in which the loops of the scanner are those of the reference. -/
def CharCase.Plain : CharCase → Prop
  | .lineEnd | .comma | .hash | .operator | .other => False
  | _ => True

theorem scanPopToken_plain {c : UInt8} (rest : Stream) (plain : (charCase c).Plain) :
    scanPopToken (c :: rest) = refToken (c :: rest) := by
  have holds := charCase_holds c
  cases shape : charCase c with
  | white =>
      have begun : isBlank c = true := by simpa [shape, CharCase.Holds] using holds
      simp [scanPopToken, refToken, shape, eatWhile_eq, begun]
  | letter =>
      have letter : isLetterByte c = true := by simpa [shape, CharCase.Holds] using holds
      have begun : isIdentByte c = true := by simp [isIdentByte, letter]
      simp [scanPopToken, refToken, shape, popWhile_eq, begun]
  | digit =>
      have digit : isDigitByte c = true := by simpa [shape, CharCase.Holds] using holds
      have begun : isNumberByte c = true := by simp [isNumberByte, digit]
      simp [scanPopToken, refToken, shape, popWhile_eq, begun]
  | quote id => simp [scanPopToken, refToken, shape, literalLoop_eq, Function.comp_def]
  | zero => simp only [scanPopToken, refToken, shape]
  | single id => simp only [scanPopToken, refToken, shape]
  | _ => simp [shape, CharCase.Plain] at plain

/-- At a harmless position the scanner takes the token of the reference. -/
theorem scanPopToken_eq {stream : Stream} {found : TokenId × Stream × Stream}
    (harmlessHere : harmless stream = true) (lexed : refToken stream = some found) :
    scanPopToken stream = some found := by
  induction stream with
  | nil => exact lexed
  | cons c rest ih =>
      have holds := charCase_holds c
      cases shape : charCase c with
      | lineEnd =>
          simp only [harmless, shape, Bool.not_eq_true', decide_eq_false_iff_not] at harmlessHere
          simpa [scanPopToken, refToken, shape, not_both_line_ends, behindLineEnd, harmlessHere]
            using lexed
      | comma => simp [harmless, shape] at harmlessHere
      | hash =>
          obtain rfl : c = 35 := by simpa [shape, CharCase.Holds] using holds
          simp only [refToken, shape] at lexed
          obtain ⟨parts, split, same⟩ := Option.map_eq_some_iff.mp lexed
          simp only [harmless, shape, split, Option.all_some, decide_eq_true_eq] at harmlessHere
          simp only [scanPopToken, shape, (directive_eq_iff split).mpr harmlessHere, Option.map_some,
            same]
      | operator =>
          simp only [harmless, shape, Bool.not_eq_true', decide_eq_false_iff_not] at harmlessHere
          simpa [scanPopToken, refToken, shape, scanOperator_eq harmlessHere] using lexed
      | other =>
          simp only [harmless, refToken, scanPopToken, shape] at harmlessHere lexed ⊢
          exact ih harmlessHere lexed
      | _ => exact (scanPopToken_plain rest (by simp [shape, CharCase.Plain])).trans lexed

/-- At any other position the tokens differ, apart from a CRLF of which the scanner leaves
the line feed. -/
theorem scanPopToken_of_not_harmless {stream text behind left : Stream} {id : TokenId}
    (harmful : harmless stream = false) (lexed : refToken stream = some (id, text, behind))
    (popped : scanPopToken stream = some (id, text, left)) :
    id = .eol ∧ left = lineFeed :: behind := by
  induction stream with
  | nil => simp [harmless] at harmful
  | cons c rest ih =>
      have holds := charCase_holds c
      cases shape : charCase c with
      | lineEnd =>
          simp only [harmless, shape, Bool.not_eq_false', decide_eq_true_eq] at harmful
          obtain ⟨behindBoth, whole⟩ := harmful
          obtain ⟨rfl, rfl⟩ : carriageReturn = c ∧ lineFeed :: behindBoth = rest := by
            simpa using whole
          simp only [refToken, shape, behindLineEnd, whole.symm, List.prefix_append, if_true,
            List.tail_cons, Option.some.injEq, Prod.mk.injEq] at lexed
          simp only [scanPopToken, shape, not_both_line_ends, Bool.false_eq_true, if_false,
            List.tail_cons, Option.some.injEq, Prod.mk.injEq] at popped
          exact ⟨lexed.1.symm, by rw [← popped.2.2, lexed.2.2]⟩
      | comma =>
          simp only [refToken, scanPopToken, shape, Option.some.injEq, Prod.mk.injEq] at lexed popped
          exact absurd (lexed.1.trans popped.1.symm) (by decide)
      | hash =>
          obtain rfl : c = 35 := by simpa [shape, CharCase.Holds] using holds
          simp only [refToken, scanPopToken, shape] at lexed popped
          obtain ⟨parts, split, same⟩ := Option.map_eq_some_iff.mp lexed
          obtain ⟨others, looped, alike⟩ := Option.map_eq_some_iff.mp popped
          simp only [Prod.mk.injEq] at same alike
          simp only [harmless, shape, split, Option.all_some, decide_eq_false_iff_not] at harmful
          have whole := (splitDirective_extends split).2
          have parted := (directiveLoop_extends looped).2
          have texts : others.1 = parts.1 := alike.2.1.trans same.2.1.symm
          have rests : others.2 = parts.2 :=
            List.append_cancel_left (texts ▸ parted.trans whole.symm)
          exact absurd ((directive_eq_iff split).mp (looped.trans (by rw [← texts, ← rests]))) harmful
      | operator =>
          simp only [harmless, shape, Bool.not_eq_false', decide_eq_true_eq] at harmful
          obtain ⟨body, whole⟩ := harmful
          obtain ⟨rfl, rfl⟩ : slash = c ∧ star :: slash :: body = rest := by simpa using whole
          simp only [refToken, scanPopToken, shape, scanOperator_overlap, Option.some.injEq,
            Prod.mk.injEq] at lexed popped
          have long := refOperator_overlap lexed
          rw [← popped.2.1] at long
          exact absurd long (by decide)
      | other =>
          simp only [harmless, refToken, scanPopToken, shape] at harmful lexed popped
          exact ih harmful lexed popped
      | _ => simp [harmless, shape] at harmful

/-! ## Parts of the text -/

/-- A token is read from a part of the stream that ends where the next one begins. -/
def Taken (stream : Stream) (found : TokenId × Stream × Stream) : Prop :=
  ∃ taken, stream = taken ++ found.2.2 ∧ (found.2.1 = [blank] ∨ found.2.1 <:+: taken)
    ∧ (found.1 ≠ .eof → taken ≠ [])

theorem Taken.cons {stream : Stream} {found : TokenId × Stream × Stream} (c : UInt8)
    (part : Taken stream found) : Taken (c :: stream) found := by
  obtain ⟨taken, rfl, inside, -⟩ := part
  exact ⟨c :: taken, rfl, inside.imp id List.infix_cons, fun _ => List.cons_ne_nil _ _⟩

/-- A token whose text stands at the beginning of the stream, with bytes behind it that
belong to no token. -/
theorem Taken.of_text {stream text rest : Stream} (id : TokenId) (swallowed : Stream)
    (begun : text ≠ []) (whole : stream = text ++ swallowed ++ rest) :
    Taken stream (id, text, rest) :=
  ⟨text ++ swallowed, whole, .inr (List.prefix_append _ _).isInfix,
    fun _ => List.append_ne_nil_of_left_ne_nil begun _⟩

theorem Taken.of_blank {stream rest : Stream} (id : TokenId) (c : UInt8) (swallowed : Stream)
    (whole : stream = c :: swallowed ++ rest) : Taken stream (id, [blank], rest) :=
  ⟨c :: swallowed, whole, .inl rfl, fun _ => List.cons_ne_nil _ _⟩

theorem Taken.of_while (test : UInt8 → Bool) (id : TokenId) (c : UInt8) (rest : Stream) :
    Taken (c :: rest) (id, c :: rest.takeWhile test, rest.dropWhile test) :=
  Taken.of_text id [] (List.cons_ne_nil _ _)
    (by rw [List.append_nil, List.cons_append, List.takeWhile_append_dropWhile])

theorem Taken.of_single (id : TokenId) (c : UInt8) (rest : Stream) :
    Taken (c :: rest) (id, [c], rest) :=
  Taken.of_text id [] (List.cons_ne_nil _ _) (by rw [List.append_nil, List.singleton_append])

theorem behindLineEnd_eq (c : UInt8) (rest : Stream) :
    ∃ swallowed, c :: rest = c :: swallowed ++ behindLineEnd c rest := by
  unfold behindLineEnd
  split
  · exact ⟨rest.take 1, by rw [List.cons_append, ← List.drop_one, List.take_append_drop]⟩
  · exact ⟨[], rfl⟩

theorem splitLiteral_extends {mark : UInt8} {stream found behind : Stream}
    (split : splitLiteral mark stream = some (found, behind)) : stream = found ++ behind := by
  induction stream using splitLiteral.induct mark generalizing found behind with
  | case1 => cases split
  | case2 rest =>
      unfold splitLiteral at split
      simp only [if_true, Option.some.injEq, Prod.mk.injEq] at split
      rw [← split.1, ← split.2, List.singleton_append]
  | case3 other => simp [splitLiteral, other] at split
  | case4 next later other ih =>
      simp only [splitLiteral, other, if_false, if_true, Option.map_eq_some_iff] at split
      obtain ⟨parts, inner, same⟩ := split
      cases same
      rw [ih inner, List.cons_append, List.cons_append]
  | case5 c rest other plain ih =>
      unfold splitLiteral at split
      simp only [other, plain, if_false, Option.map_eq_some_iff] at split
      obtain ⟨parts, inner, same⟩ := split
      cases same
      rw [ih inner, List.cons_append]

theorem splitLine_extends {stream text behind : Stream}
    (split : splitLine stream = some (text, behind)) :
    text = (stream.takeWhile fun c => !isLineEnd c) ∧ stream = text ++ behind := by
  unfold splitLine at split
  split at split
  · cases split
  · next c rest dropped =>
      cases split
      exact ⟨rfl, by rw [← dropped, List.takeWhile_append_dropWhile]⟩

theorem refOperator_taken {c : UInt8} {rest : Stream} {found : TokenId × Stream × Stream}
    (lexed : refOperator c rest = some found) : Taken (c :: rest) found := by
  unfold refOperator at lexed
  split at lexed
  · next opened =>
      obtain ⟨⟨text, behind⟩, split, rfl⟩ := Option.map_eq_some_iff.mp lexed
      obtain ⟨next, later, rfl, -⟩ := splitLine_behind split
      obtain ⟨spanned, whole⟩ := splitLine_extends split
      obtain ⟨swallowed, lineEnd⟩ := behindLineEnd_eq next later
      have begun : text ≠ [] := by
        obtain ⟨body, same⟩ := opened
        rw [spanned, ← same]
        simp [(by decide : isLineEnd slash = false)]
      refine Taken.of_text _ (next :: swallowed) begun ?_
      rw [whole, List.append_assoc]
      exact congrArg _ lineEnd
  · split at lexed
    · next opened =>
        obtain ⟨⟨text, behind⟩, split, rfl⟩ := Option.map_eq_some_iff.mp lexed
        obtain ⟨body, same⟩ := opened
        obtain ⟨-, rfl⟩ : slash = c ∧ star :: body = rest := by simpa using same
        have whole := (splitComment_extends split).2.2
        refine Taken.of_text _ (behind.takeWhile isLineEnd) (by simp) ?_
        rw [← same, List.append_assoc, List.takeWhile_append_dropWhile, List.append_assoc, whole]
        rfl
    · cases lexed
      exact Taken.of_single _ c rest

/-- No byte belongs to two tokens of the reference. -/
theorem refToken_taken {stream : Stream} {found : TokenId × Stream × Stream}
    (lexed : refToken stream = some found) : Taken stream found := by
  induction stream with
  | nil =>
      cases lexed
      exact ⟨[], rfl, .inr List.nil_infix, fun further => absurd rfl further⟩
  | cons c rest ih =>
      cases shape : charCase c with
      | zero =>
          simp only [refToken, shape, Option.some.injEq] at lexed
          cases lexed
          exact ⟨[], rfl, .inr List.nil_infix, fun further => absurd rfl further⟩
      | white =>
          simp only [refToken, shape, Option.some.injEq] at lexed
          cases lexed
          refine Taken.of_blank _ c (rest.takeWhile isBlank) ?_
          rw [List.cons_append, List.takeWhile_append_dropWhile]
      | lineEnd =>
          simp only [refToken, shape, Option.some.injEq] at lexed
          cases lexed
          obtain ⟨swallowed, whole⟩ := behindLineEnd_eq c rest
          exact Taken.of_blank _ c swallowed whole
      | comma =>
          simp only [refToken, shape, Option.some.injEq] at lexed
          cases lexed
          exact Taken.of_single _ c rest
      | letter =>
          simp only [refToken, shape, Option.some.injEq] at lexed
          cases lexed
          exact Taken.of_while _ _ c rest
      | digit =>
          simp only [refToken, shape, Option.some.injEq] at lexed
          cases lexed
          exact Taken.of_while _ _ c rest
      | hash =>
          simp only [refToken, shape] at lexed
          obtain ⟨parts, split, rfl⟩ := Option.map_eq_some_iff.mp lexed
          obtain ⟨inside, whole⟩ := splitDirective_extends split
          refine Taken.of_text _ [] (inside.ne_nil (List.cons_ne_nil _ _)) ?_
          rw [List.append_nil, whole, List.singleton_append]
      | single id =>
          simp only [refToken, shape, Option.some.injEq] at lexed
          cases lexed
          exact Taken.of_single _ c rest
      | operator =>
          simp only [refToken, shape] at lexed
          exact refOperator_taken lexed
      | quote id =>
          simp only [refToken, shape] at lexed
          obtain ⟨parts, split, rfl⟩ := Option.map_eq_some_iff.mp lexed
          refine Taken.of_text _ [] (List.cons_ne_nil _ _) ?_
          rw [List.append_nil, splitLiteral_extends split, List.cons_append]
      | other =>
          simp only [refToken, shape] at lexed
          exact (ih lexed).cons c

theorem scanOperator_taken {c : UInt8} {rest : Stream} {found : TokenId × Stream × Stream}
    (popped : scanOperator c rest = some found) : Taken (c :: rest) found := by
  by_cases overlap : [slash, star, slash] <+: c :: rest
  · obtain ⟨body, whole⟩ := overlap
    obtain ⟨rfl, rfl⟩ : slash = c ∧ star :: slash :: body = rest := by simpa using whole
    cases (scanOperator_overlap body).symm.trans popped
    refine Taken.of_text _ (body.takeWhile isLineEnd) (by simp) ?_
    rw [List.append_assoc, List.takeWhile_append_dropWhile]
    rfl
  · exact refOperator_taken (scanOperator_eq overlap ▸ popped)

/-- No byte belongs to two tokens of the scanner, either. -/
theorem scanPopToken_taken {stream : Stream} {found : TokenId × Stream × Stream}
    (popped : scanPopToken stream = some found) : Taken stream found := by
  induction stream with
  | nil => exact refToken_taken popped
  | cons c rest ih =>
      cases shape : charCase c with
      | lineEnd =>
          simp only [scanPopToken, shape, not_both_line_ends, Bool.false_eq_true, if_false,
            Option.some.injEq] at popped
          cases popped
          exact Taken.of_blank _ c [] rfl
      | comma =>
          simp only [scanPopToken, shape, popWhile_eq, Option.some.injEq] at popped
          cases popped
          exact Taken.of_while _ _ c rest
      | hash =>
          simp only [scanPopToken, shape] at popped
          obtain ⟨parts, looped, rfl⟩ := Option.map_eq_some_iff.mp popped
          obtain ⟨inside, whole⟩ := directiveLoop_extends looped
          refine Taken.of_text _ [] (inside.ne_nil (by simp)) ?_
          rw [List.append_nil, whole, List.nil_append]
      | operator =>
          simp only [scanPopToken, shape] at popped
          exact scanOperator_taken popped
      | other =>
          simp only [scanPopToken, shape] at popped
          exact (ih popped).cons c
      | _ =>
          have plain : scanPopToken (c :: rest) = refToken (c :: rest) :=
            scanPopToken_plain rest (by simp [shape, CharCase.Plain])
          exact refToken_taken (plain.symm.trans popped)

/-! ## Whole texts -/

theorem tokensWith_succ_eq_some {pop : Stream → Option (TokenId × Stream × Stream)} {fuel : Nat}
    {stream : Stream} {tokens : List Token}
    (lexed : tokensWith pop (fuel + 1) stream = some tokens) :
    ∃ id text rest, pop stream = some (id, text, rest)
      ∧ (id = .eof ∧ tokens = [(id, text)]
        ∨ id ≠ .eof ∧ ∃ later, tokensWith pop fuel rest = some later ∧ tokens = (id, text) :: later) := by
  obtain ⟨⟨id, text, rest⟩, popped, onward⟩ := Option.bind_eq_some_iff.mp lexed
  refine ⟨id, text, rest, popped, ?_⟩
  by_cases ended : id = .eof
  · exact .inl ⟨ended, by simpa [ended, eq_comm] using onward⟩
  · simp only [ended, if_false, Option.map_eq_some_iff] at onward
    obtain ⟨later, found, same⟩ := onward
    exact .inr ⟨ended, later, found, same.symm⟩

/-- Only a line end gives the token of a line end. -/
theorem refToken_eol {c : UInt8} {rest text behind : Stream}
    (lexed : refToken (c :: rest) = some (.eol, text, behind)) :
    charCase c = .other ∧ refToken rest = some (.eol, text, behind)
      ∨ charCase c = .lineEnd ∧ text = [blank] ∧ behind = behindLineEnd c rest := by
  have holds := charCase_holds c
  cases shape : charCase c with
  | lineEnd =>
      simp only [refToken, shape, Option.some.injEq, Prod.mk.injEq] at lexed
      exact .inr ⟨rfl, lexed.2.1.symm, lexed.2.2.symm⟩
  | other =>
      simp only [refToken, shape] at lexed
      exact .inl ⟨rfl, lexed⟩
  | operator =>
      simp only [refToken, shape, refOperator] at lexed
      split at lexed
      · obtain ⟨parts, -, same⟩ := Option.map_eq_some_iff.mp lexed
        cases same
      · split at lexed
        · obtain ⟨parts, -, same⟩ := Option.map_eq_some_iff.mp lexed
          cases same
        · cases lexed
  | single id =>
      simp only [shape, CharCase.Holds] at holds
      simp only [refToken, shape, Option.some.injEq, Prod.mk.injEq] at lexed
      exact absurd lexed.1 holds
  | quote id =>
      simp only [shape, CharCase.Holds] at holds
      simp only [refToken, shape] at lexed
      obtain ⟨parts, -, same⟩ := Option.map_eq_some_iff.mp lexed
      exact absurd (Prod.mk.inj same).1 holds
  | hash =>
      simp only [refToken, shape] at lexed
      obtain ⟨parts, -, same⟩ := Option.map_eq_some_iff.mp lexed
      cases same
  | _ => simp [refToken, shape] at lexed

/-- Before a line end of the reference the scanner takes a line end, too, and leaves at
most the line feed of a CRLF. -/
theorem scanPopToken_eol {stream text behind : Stream}
    (lexed : refToken stream = some (.eol, text, behind)) :
    text = [blank] ∧ (scanPopToken stream = some (.eol, [blank], behind)
      ∨ scanPopToken stream = some (.eol, [blank], lineFeed :: behind)) := by
  induction stream with
  | nil => cases lexed
  | cons c rest ih =>
      rcases refToken_eol lexed with ⟨shape, later⟩ | ⟨shape, rfl, rfl⟩
      · simp only [scanPopToken, shape]
        exact ih later
      · refine ⟨rfl, ?_⟩
        simp only [scanPopToken, shape, not_both_line_ends, Bool.false_eq_true, if_false,
          List.tail_cons, behindLineEnd]
        split
        · next both =>
            obtain ⟨later, whole⟩ := both
            obtain ⟨-, rfl⟩ : carriageReturn = c ∧ lineFeed :: later = rest := by simpa using whole
            exact .inr rfl
        · exact .inl rfl

theorem tokensWith_eol {pop : Stream → Option (TokenId × Stream × Stream)} {fuel : Nat}
    {stream text rest : Stream} {tokens : List Token}
    (popped : pop stream = some (.eol, text, rest))
    (lexed : tokensWith pop fuel stream = some tokens) :
    ∃ fewer later, tokensWith pop fewer rest = some later ∧ tokens = (.eol, text) :: later := by
  cases fuel with
  | zero => cases lexed
  | succ fuel =>
      obtain ⟨id, same, behind, found, onward⟩ := tokensWith_succ_eq_some lexed
      cases popped.symm.trans found
      rcases onward with ⟨ended, -⟩ | ⟨-, later, lexedLater, whole⟩
      · cases ended
      · exact ⟨fuel, later, lexedLater, whole⟩

theorem scanPopToken_lineFeed (rest : Stream) :
    scanPopToken (lineFeed :: rest) = some (.eol, [blank], rest) :=
  rfl

/-- The scanner never returns fewer line ends than the reference. -/
theorem tokensWith_shift {fuel others : Nat} {stream : Stream} {tokens : List Token} (extra : Nat)
    (scanned : tokensWith scanPopToken fuel stream = some tokens) :
    tokensWith refToken others stream
      ≠ some (List.replicate (extra + 1) (TokenId.eol, [blank]) ++ tokens) := by
  induction others generalizing fuel stream tokens extra with
  | zero => simp [tokensWith]
  | succ others ih =>
      intro lexed
      obtain ⟨id, text, behind, found, onward⟩ := tokensWith_succ_eq_some lexed
      rcases onward with ⟨rfl, same⟩ | ⟨-, later, lexedLater, same⟩
      · cases same
      simp only [List.replicate_succ, List.cons_append, List.cons.injEq, Prod.mk.injEq] at same
      obtain ⟨⟨rfl, rfl⟩, rfl⟩ := same
      rcases (scanPopToken_eol found).2 with popped | popped
      · obtain ⟨fewer, rest, scannedLater, rfl⟩ := tokensWith_eol popped scanned
        refine ih extra scannedLater ?_
        rw [lexedLater, List.replicate_succ', List.append_assoc, List.singleton_append]
      · obtain ⟨fewer, rest, scannedLater, rfl⟩ := tokensWith_eol popped scanned
        obtain ⟨least, last, scannedLast, rfl⟩ := tokensWith_eol (scanPopToken_lineFeed _) scannedLater
        refine ih (extra + 1) scannedLast ?_
        rw [lexedLater, List.replicate_succ', List.replicate_succ', List.append_assoc,
          List.append_assoc, List.singleton_append, List.singleton_append]

theorem regularWith_of_eq {fuel : Nat} {stream : Stream} {tokens : List Token}
    (lexed : tokensWith refToken fuel stream = some tokens)
    (scanned : tokensWith scanPopToken fuel stream = some tokens) :
    regularWith fuel stream = true := by
  induction fuel generalizing stream tokens with
  | zero => rfl
  | succ fuel ih =>
      obtain ⟨id, text, behind, found, onward⟩ := tokensWith_succ_eq_some lexed
      obtain ⟨name, word, left, popped, further⟩ := tokensWith_succ_eq_some scanned
      have heads : name = id ∧ word = text := by
        rcases onward with ⟨-, rfl⟩ | ⟨-, later, -, rfl⟩ <;>
          rcases further with ⟨-, same⟩ | ⟨-, others, -, same⟩ <;> simp_all
      obtain ⟨rfl, rfl⟩ := heads
      simp only [regularWith, found, Option.all_some, Bool.and_eq_true, Bool.or_eq_true, beq_iff_eq]
      cases plain : harmless stream with
      | true =>
          cases (scanPopToken_eq plain found).symm.trans popped
          refine ⟨rfl, ?_⟩
          rcases onward with ⟨ended, -⟩ | ⟨-, later, lexedLater, rfl⟩
          · exact .inl ended
          · rcases further with ⟨ended, -⟩ | ⟨-, others, scannedLater, same⟩
            · exact .inl ended
            · cases same
              exact .inr (ih lexedLater scannedLater)
      | false =>
          obtain ⟨rfl, rfl⟩ := scanPopToken_of_not_harmless plain found popped
          obtain ⟨-, later, lexedLater, rfl⟩ := onward.resolve_left (by simp)
          obtain ⟨-, others, scannedLater, same⟩ := further.resolve_left (by simp)
          cases same
          obtain ⟨fewer, last, scannedLast, rfl⟩ := tokensWith_eol (scanPopToken_lineFeed _) scannedLater
          exact absurd lexedLater (tokensWith_shift 0 scannedLast)

theorem tokensWith_eq_of_regular {fuel : Nat} {stream : Stream} {tokens : List Token}
    (even : regularWith fuel stream = true)
    (lexed : tokensWith refToken fuel stream = some tokens) :
    tokensWith scanPopToken fuel stream = some tokens := by
  induction fuel generalizing stream tokens with
  | zero => cases lexed
  | succ fuel ih =>
      obtain ⟨id, text, rest, found, onward⟩ := tokensWith_succ_eq_some lexed
      simp only [regularWith, found, Option.all_some, Bool.and_eq_true, Bool.or_eq_true,
        beq_iff_eq] at even
      simp only [tokensWith, scanPopToken_eq even.1 found, Option.bind_some]
      rcases onward with ⟨ended, rfl⟩ | ⟨further, later, lexedLater, rfl⟩
      · simp [ended]
      · simp [further, ih (even.2.resolve_left further) lexedLater]

/-- Every token but the last one takes a byte, so the number of calls does not matter once
it is greater than the number of bytes. -/
theorem tokensWith_eq_of_length_lt {pop : Stream → Option (TokenId × Stream × Stream)}
    (takes : ∀ stream found, pop stream = some found → Taken stream found) {fuel others : Nat}
    {stream : Stream} (enough : stream.length < fuel) (alsoEnough : stream.length < others) :
    tokensWith pop fuel stream = tokensWith pop others stream := by
  induction fuel generalizing others stream with
  | zero => omega
  | succ fuel ih =>
      obtain ⟨fewer, rfl⟩ : ∃ fewer, others = fewer + 1 := ⟨others - 1, by omega⟩
      simp only [tokensWith]
      cases popped : pop stream with
      | none => rfl
      | some found =>
          simp only [Option.bind_some]
          split
          · rfl
          · next further =>
              obtain ⟨taken, whole, -, used⟩ := takes stream found popped
              have shorter : found.2.2.length < stream.length := by
                have := List.length_pos_of_ne_nil (used further)
                rw [whole, List.length_append]
                omega
              exact congrArg (Option.map _) (ih (by omega) (by omega))

theorem scanTokens_eq_of_length_lt {stream : Stream} {fuel : Nat} (enough : stream.length < fuel) :
    tokensWith scanPopToken fuel stream = scanTokens stream :=
  tokensWith_eq_of_length_lt (fun _ _ => scanPopToken_taken) enough (Nat.lt_succ_self _)

theorem refTokens_eq_of_length_lt {stream : Stream} {fuel : Nat} (enough : stream.length < fuel) :
    tokensWith refToken fuel stream = refTokens stream :=
  tokensWith_eq_of_length_lt (fun _ _ => refToken_taken) enough (Nat.lt_succ_self _)

/-- The scanner returns the tokens of the reference for a complete text exactly when the
text is regular. -/
theorem scanTokens_eq_refTokens_iff {stream : Stream}
    (complete : (refTokens stream).isSome = true) :
    scanTokens stream = refTokens stream ↔ regular stream = true := by
  obtain ⟨tokens, lexed⟩ := Option.isSome_iff_exists.mp complete
  rw [lexed]
  constructor
  · exact regularWith_of_eq lexed
  · intro even
    exact tokensWith_eq_of_regular even lexed

/-- The text `#if A\`, LF, `1`, LF, `/** b */ f('\'');`. -/
theorem scanTokens_eq_refTokens_regular :
    scanTokens [35, 105, 102, 32, 65, 92, 10, 49, 10, 47, 42, 42, 32, 98, 32, 42, 47, 32, 102, 40, 39,
        92, 39, 39, 41, 59]
      = refTokens [35, 105, 102, 32, 65, 92, 10, 49, 10, 47, 42, 42, 32, 98, 32, 42, 47, 32, 102, 40,
        39, 92, 39, 39, 41, 59] :=
  (scanTokens_eq_refTokens_iff (by decide)).mpr (by decide)

/-- The text `a,b` is an identifier, a comma and an identifier, but the scanner returns
two identifiers. -/
theorem scanTokens_comma :
    refTokens [97, 44, 98] = some [(.ident, [97]), (.delim, [44]), (.ident, [98]), (.eof, [])]
      ∧ scanTokens [97, 44, 98] = some [(.ident, [97]), (.ident, [44, 98]), (.eof, [])] := by
  decide

end Tegenaria.QCBuild
