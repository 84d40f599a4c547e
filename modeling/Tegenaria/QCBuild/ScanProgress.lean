import Mathlib.Logic.Relation
import Tegenaria.Foundation.Loop
import Tegenaria.QCBuild.ScanReference

/-!
# Progress of the scanner

The loops of `ScanPopToken`, one round after another, on a stream that ends: at its end `ScanPeek`
returns `EOF` for ever.  The loops inside of macros, comments and literals wait for their terminator
and do not look for the end, so a call comes back exactly when the token at which the stream begins is
closed.
-/

namespace Tegenaria.QCBuild

open Foundation Foundation.Loop

/-- The loop in which a call is, with the token and the stream. -/
inductive ScanState where
  | scan (stream : Stream)
  | white (stream : Stream)
  | ident (token stream : Stream)
  | number (token stream : Stream)
  | directive (joined : Bool) (token stream : Stream)
  | lineComment (token stream : Stream)
  | longComment (token stream : Stream)
  | lineEnds (token stream : Stream)
  | literal (id : TokenId) (mark : UInt8) (token stream : Stream)

/-- `ScanPeek`; there is no byte at the end of the stream. -/
def scanPeek (stream : Stream) : Option UInt8 := stream.head?

/-- The character that `ScanPop` returns: `EOF` becomes `(char) -1`. -/
def scanPop (stream : Stream) : UInt8 := stream.headD 255

/-- What a call returns, its token and the stream that it leaves. -/
abbrev Scanned := TokenId × Stream × Stream

/-- The switch on the next byte. -/
def scanCase (c : UInt8) (rest : Stream) : Step ScanState Scanned :=
  match charCase c with
  | .zero => .done (.eof, [], c :: rest)
  | .white => .next (.white (c :: rest))
  | .lineEnd =>
      let stream := if c == carriageReturn && scanPeek (c :: rest) == some lineFeed then rest else c :: rest
      .done (.eol, [blank], stream.tail)
  | .comma => .next (.ident [c] rest)
  | .letter => .next (.ident [] (c :: rest))
  | .digit => .next (.number [] (c :: rest))
  | .hash => .next (.directive false [] (c :: rest))
  | .single id => .done (id, [c], rest)
  | .operator =>
      if c == slash && scanPeek rest == some slash then .next (.lineComment [c] rest)
      else if c == slash && scanPeek rest == some star then .next (.longComment [c] rest)
      else .done (.operator, [c], rest)
  | .quote id => .next (.literal id c [c] rest)
  | .other => .next (.scan rest)

/-- One round of a loop. -/
@[grind =] def scanStep : ScanState → Step ScanState Scanned
  | .scan [] => .done (.eof, [], [])
  | .scan (c :: rest) => scanCase c rest
  | .white stream =>
      if (scanPeek stream).any isBlank then .next (.white stream.tail) else .done (.white, [blank], stream)
  | .ident token stream =>
      if (scanPeek stream).any isIdentByte then .next (.ident (token ++ [scanPop stream]) stream.tail)
      else .done (.ident, token, stream)
  | .number token stream =>
      if (scanPeek stream).any isNumberByte then .next (.number (token ++ [scanPop stream]) stream.tail)
      else .done (.number, token, stream)
  | .directive joined token stream =>
      let token := token ++ [scanPop stream]
      match scanPeek stream.tail with
      | some next =>
          if isLineEnd next then
            if joined then .next (.directive false token stream.tail)
            else .done (.directive, token, stream.tail)
          else if next == backslash then .next (.directive true token stream.tail)
          else .next (.directive joined token stream.tail)
      | none => .next (.directive joined token stream.tail)
  | .lineComment token stream =>
      if (scanPeek stream).any isLineEnd then .done (.comment, token, eatLineEnd stream)
      else .next (.lineComment (token ++ [scanPop stream]) stream.tail)
  | .longComment token stream =>
      let token := token ++ [scanPop stream]
      if token.length > 2 ∧ token.drop (token.length - 2) = [star, slash] then
        .next (.lineEnds token stream.tail)
      else .next (.longComment token stream.tail)
  | .lineEnds token stream =>
      if (scanPeek stream).any isLineEnd then .next (.lineEnds token stream.tail)
      else .done (.comment, token, stream)
  | .literal id mark token stream =>
      if scanPeek stream == some mark && scanPeek stream != some backslash then
        .done (id, token ++ [scanPop stream], stream.tail)
      else if scanPeek stream == some backslash then
        .next (.literal id mark (token ++ [scanPop stream, scanPop stream.tail]) stream.tail.tail)
      else .next (.literal id mark (token ++ [scanPop stream]) stream.tail)

/-- A call on a stream comes back with a token. -/
def ScanReturns (stream : Stream) (found : Scanned) : Prop := Returns scanStep (.scan stream) found

/-! ## The loops -/

section Loops

variable {token stream : Stream} {found : Scanned}

/-- A loop that eats bytes. -/
theorem returns_eatWhile {test : UInt8 → Bool} {loop : Stream → ScanState} {ends : Stream → Scanned}
    (rounds : ∀ stream, scanStep (loop stream) =
      if (scanPeek stream).any test then .next (loop stream.tail) else .done (ends stream)) :
    Returns scanStep (loop stream) found ↔ found = ends (eatWhile test stream) := by
  induction stream with
  | nil => exact returns_done (rounds [])
  | cons c rest ih =>
      rw [eatWhile]
      by_cases inside : test c
      · rw [if_pos inside, ← ih]
        exact returns_next ((rounds (c :: rest)).trans (if_pos inside))
      · rw [if_neg inside]
        exact returns_done ((rounds (c :: rest)).trans (if_neg inside))

/-- A loop that pops bytes into the token. -/
theorem returns_popWhile {test : UInt8 → Bool} {loop : Stream → Stream → ScanState}
    {ends : Stream × Stream → Scanned}
    (rounds : ∀ token stream, scanStep (loop token stream) =
      if (scanPeek stream).any test then .next (loop (token ++ [scanPop stream]) stream.tail)
      else .done (ends (token, stream))) :
    Returns scanStep (loop token stream) found ↔ found = ends (popWhile test token stream) := by
  induction stream generalizing token with
  | nil => exact returns_done (rounds token [])
  | cons c rest ih =>
      rw [popWhile]
      by_cases inside : test c
      · rw [if_pos inside, ← ih]
        exact returns_next ((rounds token (c :: rest)).trans (if_pos inside))
      · rw [if_neg inside]
        exact returns_done ((rounds token (c :: rest)).trans (if_neg inside))

/-- At the end of the stream, a loop that goes on there goes on for ever. -/
theorem not_ends_at_end {loop : Stream → ScanState}
    (rounds : ∀ token, ∃ longer, scanStep (loop token) = .next (loop longer)) (token : Stream) :
    ¬ Ends scanStep (loop token) := by
  have keeps : ∀ state, (∃ token, state = loop token) → scanStep state = .outside ∨
      ∃ later, scanStep state = .next later ∧ ∃ token, later = loop token := by
    rintro state ⟨token, rfl⟩
    obtain ⟨longer, goes⟩ := rounds token
    exact .inr ⟨_, goes, longer, rfl⟩
  exact not_ends_of_invariant keeps ⟨token, rfl⟩

/-- The loop inside a macro. -/
theorem returns_directive {joined : Bool} {c : UInt8} :
    Returns scanStep (.directive joined token (c :: stream)) found ↔
      ∃ parts, directiveLoop joined token (c :: stream) = some parts ∧ found = (.directive, parts) := by
  induction stream generalizing joined token c with
  | nil =>
      have endless : ∀ token, ∃ longer, scanStep (.directive joined token []) =
          .next (.directive joined longer []) := fun token => ⟨_, rfl⟩
      have goes : scanStep (.directive joined token [c]) =
          .next (.directive joined (token ++ [c]) []) := rfl
      rw [returns_next goes, directiveLoop]
      exact iff_of_false (fun returns => not_ends_at_end endless _ ⟨found, returns⟩) (by simp)
  | cons next rest ih =>
      rw [directiveLoop]
      by_cases ends : isLineEnd next
      · rw [if_pos ends]
        cases joined with
        | true =>
            rw [if_pos rfl, ← ih]
            exact returns_next (by simp [scanStep, scanPeek, scanPop, ends])
        | false =>
            have stops : scanStep (.directive false token (c :: next :: rest)) =
                .done (.directive, token ++ [c], next :: rest) := by
              simp [scanStep, scanPeek, scanPop, ends]
            rw [if_neg Bool.false_ne_true, returns_done stops]
            simp
      · rw [if_neg ends]
        by_cases escape : next == backslash
        · rw [if_pos escape, ← ih]
          exact returns_next (by simp [scanStep, scanPeek, scanPop, ends, escape])
        · rw [if_neg escape, ← ih]
          exact returns_next (by simp [scanStep, scanPeek, scanPop, ends, escape])

/-- The loop inside a comment of one line. -/
theorem returns_lineComment : Returns scanStep (.lineComment token stream) found ↔
    ∃ parts, lineCommentLoop token stream = some parts ∧
      found = (.comment, parts.1, eatLineEnd parts.2) := by
  induction stream generalizing token with
  | nil =>
      have endless : ∀ token, ∃ longer, scanStep (.lineComment token []) = .next (.lineComment longer []) :=
        fun token => ⟨_, rfl⟩
      exact iff_of_false (fun returns => not_ends_at_end endless _ ⟨found, returns⟩)
        (by simp [lineCommentLoop])
  | cons c rest ih =>
      rw [lineCommentLoop]
      by_cases ends : isLineEnd c
      · have stops : scanStep (.lineComment token (c :: rest)) =
            .done (.comment, token, eatLineEnd (c :: rest)) := by
          simp [scanStep, scanPeek, ends]
        rw [if_pos ends, returns_done stops]
        simp
      · rw [if_neg ends, ← ih]
        exact returns_next (by simp [scanStep, scanPeek, scanPop, ends])

/-- The loop inside a comment of several lines.  At the end of the stream only bytes `(char) -1` are
added to the token. -/
theorem returns_longComment : Returns scanStep (.longComment token stream) found ↔
    ∃ parts, longCommentLoop token stream = some parts ∧
      found = (.comment, parts.1, eatWhile isLineEnd parts.2) := by
  induction stream generalizing token with
  | nil =>
      have endless : ∀ token, ∃ longer,
          scanStep (.longComment token []) = .next (.longComment longer []) := by
        intro token
        refine ⟨token ++ [255], if_neg fun closed => ?_⟩
        obtain ⟨front, same⟩ : [star, slash] <:+ token ++ [255] := closed.2 ▸ List.drop_suffix ..
        have split : (front ++ [star]) ++ [slash] = token ++ [255] := by
          rw [← same]
          simp
        exact absurd (List.append_inj' split rfl).2 (by decide)
      exact iff_of_false (fun returns => not_ends_at_end endless _ ⟨found, returns⟩)
        (by simp [longCommentLoop])
  | cons c rest ih =>
      rw [longCommentLoop]
      by_cases closed : (token ++ [c]).length > 2 ∧
          (token ++ [c]).drop ((token ++ [c]).length - 2) = [star, slash]
      · have goes : scanStep (.longComment token (c :: rest)) =
            .next (.lineEnds (token ++ [c]) rest) := if_pos closed
        rw [returns_next goes, returns_eatWhile fun _ => rfl]
        simp only [if_pos closed, Option.some.injEq, exists_eq_left']
      · have goes : scanStep (.longComment token (c :: rest)) =
            .next (.longComment (token ++ [c]) rest) := if_neg closed
        rw [returns_next goes, ih]
        simp only [if_neg closed]

/-- The loop inside a string or a character. -/
theorem returns_literal {id : TokenId} {mark : UInt8} (quotes : mark ≠ backslash) :
    Returns scanStep (.literal id mark token stream) found ↔
      ∃ parts, literalLoop mark token stream = some parts ∧ found = (id, parts) := by
  have endless : ∀ token, ∃ longer,
      scanStep (.literal id mark token []) = .next (.literal id mark longer []) :=
    fun token => ⟨_, rfl⟩
  have lost : ∀ token, ¬ Returns scanStep (.literal id mark token []) found := fun token returns =>
    not_ends_at_end endless token ⟨found, returns⟩
  fun_induction literalLoop mark token stream with
  | case1 token => exact iff_of_false (lost token) (by simp)
  | case2 token c rest closes =>
      obtain rfl : c = mark := eq_of_beq closes
      have stops : scanStep (.literal id c token (c :: rest)) = .done (id, token ++ [c], rest) := by
        simp [scanStep, scanPeek, scanPop, quotes]
      rw [returns_done stops]
      simp
  | case3 token c inside escape =>
      have goes : scanStep (.literal id mark token [c]) =
          .next (.literal id mark (token ++ [c, 255]) []) := by
        simp [scanStep, scanPeek, scanPop, inside, escape]
      rw [returns_next goes]
      exact iff_of_false (lost _) (by simp)
  | case4 token c inside escape next later ih =>
      refine Iff.trans (returns_next ?_) ih
      simp [scanStep, scanPeek, scanPop, inside, escape]
  | case5 token c rest inside plain ih =>
      refine Iff.trans (returns_next ?_) ih
      simp [scanStep, scanPeek, scanPop, inside, plain]

/-! ## A call -/

/-- A call comes back with what the scanner is said to return, and does not come back when that is
nothing. -/
theorem scanReturns_iff : ScanReturns stream found ↔ scanPopToken stream = some found := by
  induction stream with
  | nil =>
      have stops : scanStep (.scan []) = .done (.eof, [], []) := rfl
      rw [ScanReturns, returns_done stops, scanPopToken, Option.some.injEq, eq_comm]
  | cons c rest ih =>
      have goes : ∀ later, scanCase c rest = .next later →
          (ScanReturns (c :: rest) found ↔ Returns scanStep later found) :=
        fun later goes => returns_next goes
      have stops : ∀ result, scanCase c rest = .done result →
          (ScanReturns (c :: rest) found ↔ some result = some found) := by
        intro result stops
        rw [Option.some.injEq, eq_comm]
        exact returns_done stops
      have loops : ∀ {parts : Option (Stream × Stream)} {ends : Stream × Stream → Scanned},
          (∃ part, parts = some part ∧ found = ends part) ↔ parts.map ends = some found := by
        intro parts ends
        simp only [Option.map_eq_some_iff, eq_comm]
      rw [scanPopToken]
      cases shape : charCase c with
      | zero => exact stops _ (by rw [scanCase, shape])
      | lineEnd => exact stops _ (by rw [scanCase, shape]; rfl)
      | single id => exact stops _ (by rw [scanCase, shape])
      | other => exact (goes _ (by rw [scanCase, shape])).trans ih
      | white =>
          rw [goes _ (by rw [scanCase, shape]), returns_eatWhile fun _ => rfl, Option.some.injEq, eq_comm]
      | comma =>
          rw [goes _ (by rw [scanCase, shape]), returns_popWhile fun _ _ => rfl, Option.some.injEq, eq_comm]
      | letter =>
          rw [goes _ (by rw [scanCase, shape]), returns_popWhile fun _ _ => rfl, Option.some.injEq, eq_comm]
      | digit =>
          rw [goes _ (by rw [scanCase, shape]), returns_popWhile fun _ _ => rfl, Option.some.injEq, eq_comm]
      | hash => rw [goes _ (by rw [scanCase, shape]), returns_directive, loops]
      | quote id =>
          have quotes : c ≠ backslash := by
            rintro rfl
            cases shape
          rw [goes _ (by rw [scanCase, shape]), returns_literal quotes, loops]
      | operator =>
          change ScanReturns (c :: rest) found ↔ scanOperator c rest = some found
          rw [scanOperator]
          by_cases line : (c == slash && rest.head? == some slash) = true
          · rw [if_pos line, ← loops, ← returns_lineComment]
            exact goes _ (by rw [scanCase, shape]; exact if_pos line)
          · rw [if_neg line]
            by_cases long : (c == slash && rest.head? == some star) = true
            · rw [if_pos long, ← loops, ← returns_longComment]
              exact goes _ (by rw [scanCase, shape]; exact (if_neg line).trans (if_pos long))
            · rw [if_neg long]
              exact stops _ (by rw [scanCase, shape]; exact (if_neg line).trans (if_neg long))

end Loops

/-! ## Closed tokens -/

/-- Some line behind the hash sign ends, and there is no backslash in it. -/
def DirectiveCloses (rest : Stream) : Prop :=
  ∃ front c after, rest = front ++ c :: after ∧ isLineEnd c = true ∧ backslash ∉ lastLine front

/-- The mark stands behind plain bytes and pairs of a backslash with another byte. -/
def LiteralCloses (mark : UInt8) (rest : Stream) : Prop :=
  ∃ (items : List Stream) (after : Stream), rest = items.flatten ++ mark :: after ∧
    ∀ item ∈ items, (∃ c, item = [c] ∧ c ≠ mark ∧ c ≠ backslash) ∨ ∃ c, item = [backslash, c]

def OperatorCloses (c : UInt8) (rest : Stream) : Prop :=
  (c = slash → rest.head? = some slash → rest.any isLineEnd = true) ∧
    (c = slash → rest.head? = some star → [star, slash] <:+: rest)

/-- The bytes that a call skips. -/
def isOther (c : UInt8) : Bool := charCase c == .other

/-- The macro, the comment, the string or the character at which the stream begins comes to its end. -/
def ClosedToken (stream : Stream) : Prop :=
  match stream.dropWhile isOther with
  | [] => True
  | c :: rest =>
      match charCase c with
      | .hash => DirectiveCloses rest
      | .quote _ => LiteralCloses c rest
      | .operator => OperatorCloses c rest
      | _ => True

section Closed

variable {token stream : Stream}

/-- The flag of the loop says that there is a backslash in the last line of what is read. -/
theorem directiveLoop_isSome (seen : Stream) (c : UInt8) (rest : Stream) :
    (directiveLoop (decide (backslash ∈ lastLine seen)) token (c :: rest)).isSome = true ↔
      ∃ front e after, rest = front ++ e :: after ∧ isLineEnd e = true ∧
        backslash ∉ lastLine (seen ++ front) := by
  induction rest generalizing token seen c with
  | nil => simp [directiveLoop]
  | cons next later ih =>
      have splits : (∃ front e after, next :: later = front ++ e :: after ∧ isLineEnd e = true ∧
          backslash ∉ lastLine (seen ++ front)) ↔
          (isLineEnd next = true ∧ backslash ∉ lastLine seen) ∨
            ∃ front e after, later = front ++ e :: after ∧ isLineEnd e = true ∧
              backslash ∉ lastLine (seen ++ [next] ++ front) := by
        constructor
        · rintro ⟨front, e, after, whole, ends, plain⟩
          cases front with
          | nil =>
              obtain ⟨rfl, rfl⟩ := List.cons.inj whole
              rw [List.append_nil] at plain
              exact .inl ⟨ends, plain⟩
          | cons first front =>
              obtain ⟨rfl, rfl⟩ := List.cons.inj whole
              exact .inr ⟨front, e, after, rfl, ends, by simpa using plain⟩
        · rintro (⟨ends, plain⟩ | ⟨front, e, after, rfl, ends, plain⟩)
          · exact ⟨[], next, later, rfl, ends, by simpa using plain⟩
          · exact ⟨next :: front, e, after, rfl, ends, by simpa using plain⟩
      have flagged := lastLine_concat seen next
      rw [splits, directiveLoop]
      by_cases ends : isLineEnd next
      · rw [if_pos ends]
        by_cases inside : backslash ∈ lastLine seen
        · have reset : decide (backslash ∈ lastLine (seen ++ [next])) = false := by
            rw [flagged, if_pos ends]
            rfl
          rw [decide_eq_true inside, if_pos rfl, ← reset, ih]
          exact (or_iff_right fun both => both.2 inside).symm
        · rw [decide_eq_false inside, if_neg Bool.false_ne_true]
          exact iff_of_true rfl (.inl ⟨ends, inside⟩)
      · rw [if_neg ends, or_iff_right fun both => ends both.1]
        by_cases escape : next == backslash
        · have flag : decide (backslash ∈ lastLine (seen ++ [next])) = true := by
            rw [flagged, if_neg ends, eq_of_beq escape]
            exact decide_eq_true (List.mem_append_right _ List.mem_cons_self)
          have onward := @ih (token ++ [c]) (seen ++ [next]) next
          rw [flag] at onward
          rw [if_pos escape]
          exact onward
        · have different : backslash ≠ next := fun same => escape (by rw [← same]; rfl)
          have flag : decide (backslash ∈ lastLine (seen ++ [next])) =
              decide (backslash ∈ lastLine seen) := by
            rw [flagged, if_neg ends]
            simp [different]
          rw [if_neg escape, ← flag, ih]

theorem lineCommentLoop_isSome : (lineCommentLoop token stream).isSome = stream.any isLineEnd := by
  induction stream generalizing token with
  | nil => rfl
  | cons c rest ih =>
      rw [lineCommentLoop, List.any_cons]
      by_cases ends : isLineEnd c
      · rw [if_pos ends, ends]
        rfl
      · rw [if_neg ends, ih, eq_false_of_ne_true ends, Bool.false_or]

/-- The comment ends at the first place at which the token ends with the terminator. -/
theorem longCommentLoop_isSome : (longCommentLoop token stream).isSome = true ↔
    ∃ front after, stream = front ++ after ∧ front ≠ [] ∧ (token ++ front).length > 2 ∧
      [star, slash] <:+ token ++ front := by
  induction stream generalizing token with
  | nil => simp [longCommentLoop]
  | cons c rest ih =>
      have here : [star, slash] <:+ token ++ [c] ↔
          (token ++ [c]).drop ((token ++ [c]).length - 2) = [star, slash] :=
        List.suffix_iff_eq_drop.trans eq_comm
      have splits : (∃ front after, c :: rest = front ++ after ∧ front ≠ [] ∧ (token ++ front).length > 2 ∧
          [star, slash] <:+ token ++ front) ↔
          ((token ++ [c]).length > 2 ∧ [star, slash] <:+ token ++ [c]) ∨
            ∃ front after, rest = front ++ after ∧ front ≠ [] ∧ (token ++ [c] ++ front).length > 2 ∧
              [star, slash] <:+ token ++ [c] ++ front := by
        constructor
        · rintro ⟨front, after, whole, nonempty, long, ends⟩
          obtain ⟨first, front, rfl⟩ := List.exists_cons_of_ne_nil nonempty
          obtain ⟨rfl, rfl⟩ := List.cons.inj whole
          cases front with
          | nil => exact .inl ⟨long, ends⟩
          | cons second front =>
              refine .inr ⟨second :: front, after, rfl, List.cons_ne_nil _ _, ?_, ?_⟩
              · simpa using long
              · simpa using ends
        · rintro (⟨long, ends⟩ | ⟨front, after, rfl, nonempty, long, ends⟩)
          · exact ⟨[c], rest, rfl, List.cons_ne_nil _ _, long, ends⟩
          · refine ⟨c :: front, after, rfl, List.cons_ne_nil _ _, ?_, ?_⟩
            · simpa using long
            · simpa using ends
      rw [longCommentLoop, splits, here, ← ih]
      split
      · rename_i closed
        exact iff_of_true rfl (.inl closed)
      · rename_i opened
        exact (or_iff_right opened).symm

theorem longComment_isSome (rest : Stream) :
    (longCommentLoop [slash] rest).isSome = true ↔ [star, slash] <:+: rest := by
  rw [longCommentLoop_isSome]
  constructor
  · rintro ⟨front, after, rfl, nonempty, long, ends⟩
    rcases List.suffix_cons_iff.mp ends with whole | inside
    · exact absurd (List.cons.inj whole).1 (by decide)
    · exact inside.isInfix.trans (List.prefix_append ..).isInfix
  · rintro ⟨before, after, rfl⟩
    refine ⟨before ++ [star, slash], after, rfl, by simp, by simp, ?_⟩
    exact (List.suffix_append ..).trans (List.suffix_cons ..)

theorem literalCloses_escaped {mark c : UInt8} (quotes : mark ≠ backslash) :
    LiteralCloses mark (backslash :: c :: stream) ↔ LiteralCloses mark stream := by
  constructor
  · rintro ⟨items, after, whole, shapes⟩
    cases items with
    | nil => exact absurd (List.cons.inj whole).1.symm quotes
    | cons item items =>
        rcases shapes item List.mem_cons_self with ⟨c, rfl, -, plain⟩ | ⟨c, rfl⟩
        · exact absurd (List.cons.inj whole).1.symm plain
        · exact ⟨items, after, (List.cons.inj (List.cons.inj whole).2).2,
            fun item mem => shapes item (List.mem_cons_of_mem _ mem)⟩
  · rintro ⟨items, after, rfl, shapes⟩
    refine ⟨[backslash, c] :: items, after, rfl, fun item mem => ?_⟩
    rcases List.mem_cons.mp mem with rfl | mem
    · exact .inr ⟨c, rfl⟩
    · exact shapes item mem

theorem literalCloses_plain {mark c : UInt8} (inside : c ≠ mark) (plain : c ≠ backslash) :
    LiteralCloses mark (c :: stream) ↔ LiteralCloses mark stream := by
  constructor
  · rintro ⟨items, after, whole, shapes⟩
    cases items with
    | nil => exact absurd (List.cons.inj whole).1 inside
    | cons item items =>
        rcases shapes item List.mem_cons_self with ⟨c, rfl, -, -⟩ | ⟨c, rfl⟩
        · exact ⟨items, after, (List.cons.inj whole).2,
            fun item mem => shapes item (List.mem_cons_of_mem _ mem)⟩
        · exact absurd (List.cons.inj whole).1 plain
  · rintro ⟨items, after, rfl, shapes⟩
    refine ⟨[c] :: items, after, rfl, fun item mem => ?_⟩
    rcases List.mem_cons.mp mem with rfl | mem
    · exact .inl ⟨c, rfl, inside, plain⟩
    · exact shapes item mem

theorem literalLoop_isSome {mark : UInt8} (quotes : mark ≠ backslash) :
    (literalLoop mark token stream).isSome = true ↔ LiteralCloses mark stream := by
  fun_induction literalLoop mark token stream with
  | case1 token =>
      refine iff_of_false Bool.false_ne_true ?_
      rintro ⟨items, after, whole, -⟩
      exact List.append_ne_nil_of_right_ne_nil _ (List.cons_ne_nil _ _) whole.symm
  | case2 token c rest closes =>
      exact iff_of_true rfl ⟨[], rest, by rw [eq_of_beq closes]; rfl, by simp⟩
  | case3 token c inside escape =>
      obtain rfl : c = backslash := eq_of_beq escape
      refine iff_of_false Bool.false_ne_true ?_
      rintro ⟨items, after, whole, shapes⟩
      cases items with
      | nil => exact quotes (List.cons.inj whole).1.symm
      | cons item items =>
          rcases shapes item List.mem_cons_self with ⟨c, rfl, -, plain⟩ | ⟨c, rfl⟩
          · exact plain (List.cons.inj whole).1.symm
          · cases (List.cons.inj whole).2
  | case4 token c inside escape next later ih =>
      obtain rfl : c = backslash := eq_of_beq escape
      exact Iff.trans ih (literalCloses_escaped quotes).symm
  | case5 token c rest inside plain ih =>
      exact Iff.trans ih (literalCloses_plain (by simpa using inside) (by simpa using plain)).symm

theorem scanOperator_isSome (c : UInt8) (rest : Stream) :
    (scanOperator c rest).isSome = true ↔ OperatorCloses c rest := by
  rw [scanOperator, OperatorCloses]
  by_cases line : (c == slash && rest.head? == some slash) = true
  · obtain ⟨rfl, second⟩ : c = slash ∧ rest.head? = some slash := by simpa using line
    have other : rest.head? ≠ some star := by
      rw [second]
      decide
    rw [if_pos line, Option.isSome_map, lineCommentLoop_isSome]
    exact ⟨fun ends => ⟨fun _ _ => ends, fun _ third => absurd third other⟩,
      fun closes => closes.1 rfl second⟩
  · rw [if_neg line]
    by_cases long : (c == slash && rest.head? == some star) = true
    · obtain ⟨rfl, second⟩ : c = slash ∧ rest.head? = some star := by simpa using long
      have other : rest.head? ≠ some slash := by
        rw [second]
        decide
      rw [if_pos long, Option.isSome_map, longComment_isSome]
      exact ⟨fun ends => ⟨fun _ third => absurd third other, fun _ _ => ends⟩,
        fun closes => closes.2 rfl second⟩
    · rw [if_neg long]
      refine iff_of_true rfl ⟨fun same second => ?_, fun same second => ?_⟩
      · exact absurd (by simp [same, second]) line
      · exact absurd (by simp [same, second]) long

/-- A call comes back when the token is closed. -/
theorem scanPopToken_isSome : (scanPopToken stream).isSome = true ↔ ClosedToken stream := by
  induction stream with
  | nil => exact iff_of_true rfl trivial
  | cons c rest ih =>
      rw [ClosedToken, scanPopToken]
      cases shape : charCase c with
      | other =>
          rw [List.dropWhile_cons_of_pos (by rw [isOther, shape]; rfl)]
          exact ih
      | hash =>
          rw [List.dropWhile_cons_of_neg (by rw [isOther, shape]; decide)]
          simp only [shape]
          rw [Option.isSome_map]
          exact @directiveLoop_isSome [] [] c rest
      | quote id =>
          have quotes : c ≠ backslash := by
            rintro rfl
            cases shape
          rw [List.dropWhile_cons_of_neg (by rw [isOther, shape]; exact Bool.false_ne_true)]
          simp only [shape]
          rw [Option.isSome_map]
          exact literalLoop_isSome quotes
      | operator =>
          rw [List.dropWhile_cons_of_neg (by rw [isOther, shape]; decide)]
          simp only [shape]
          exact scanOperator_isSome c rest
      | _ =>
          rw [List.dropWhile_cons_of_neg (by rw [isOther, shape]; exact Bool.false_ne_true)]
          simp only [shape]
          exact iff_of_true rfl trivial

end Closed

/-! ## One call after another -/

/-- A call takes a token and leaves the rest of the stream. -/
def Calls (stream later : Stream) : Prop :=
  ∃ id token, ScanReturns stream (id, token, later) ∧ id ≠ .eof

/-- A call comes back, and it has taken a byte or returns `TOKEN_EOF`. -/
def CallProgresses (stream : Stream) : Prop :=
  ∃ id token later, ScanReturns stream (id, token, later) ∧
    (id = .eof ∨ ∃ taken, taken ≠ [] ∧ stream = taken ++ later)

/-- After some calls the next one returns `TOKEN_EOF`. -/
def ReachesEof (stream : Stream) : Prop :=
  ∃ last token later, Relation.ReflTransGen Calls stream last ∧ ScanReturns last (.eof, token, later)

section Progress

variable {stream later : Stream}

theorem popped_of_returns {found : Scanned} (returns : ScanReturns stream found) : scanPopToken stream = some found :=
  Iff.mp scanReturns_iff returns

theorem closed_of_returns {found : Scanned} (returns : ScanReturns stream found) : ClosedToken stream :=
  Iff.mp scanPopToken_isSome (Option.isSome_iff_exists.mpr ⟨_, popped_of_returns returns⟩)

theorem callProgresses_iff : CallProgresses stream ↔ ClosedToken stream := by
  rw [← scanPopToken_isSome, Option.isSome_iff_exists]
  constructor
  · rintro ⟨id, token, later, returns, -⟩
    exact ⟨_, popped_of_returns returns⟩
  · rintro ⟨⟨id, token, later⟩, popped⟩
    refine ⟨id, token, later, Iff.mpr scanReturns_iff popped, ?_⟩
    obtain ⟨taken, whole, -, begun⟩ := scanPopToken_taken popped
    exact or_iff_not_imp_left.mpr fun other => ⟨taken, begun other, whole⟩

theorem Calls.unique {other : Stream} (first : Calls stream later) (second : Calls stream other) :
    later = other := by
  obtain ⟨id, token, returns, -⟩ := first
  obtain ⟨id', token', returns', -⟩ := second
  cases Returns.unique returns returns'
  rfl

theorem Calls.shorter (calls : Calls stream later) : later.length < stream.length := by
  obtain ⟨id, token, returns, going⟩ := calls
  obtain ⟨taken, whole, -, begun⟩ := scanPopToken_taken (popped_of_returns returns)
  rw [whole, List.length_append]
  exact Nat.lt_add_of_pos_left (List.length_pos_iff.mpr (begun going))

theorem Calls.closed (calls : Calls stream later) : ClosedToken stream := by
  obtain ⟨id, token, returns, -⟩ := calls
  exact closed_of_returns returns

theorem reachesEof_iff : ReachesEof stream ↔
    ∀ later, Relation.ReflTransGen Calls stream later → ClosedToken later := by
  constructor
  · rintro ⟨last, token, behind, reached, returns⟩ later reachedLater
    have ended : ClosedToken last := closed_of_returns returns
    have stuck : ∀ next, ¬ Calls last next := by
      rintro next ⟨id, other, goes, going⟩
      cases Returns.unique returns goes
      exact going rfl
    have unique : Relator.RightUnique Calls := fun _ _ _ first second => first.unique second
    rcases Relation.ReflTransGen.total_of_right_unique unique reachedLater reached with onward | back
    · rcases Relation.ReflTransGen.cases_head onward with rfl | ⟨next, calls, -⟩
      · exact ended
      · exact calls.closed
    · rcases Relation.ReflTransGen.cases_head back with rfl | ⟨next, calls, -⟩
      · exact ended
      · exact absurd calls (stuck next)
  · intro closed
    induction size : stream.length using Nat.strong_induction_on generalizing stream with
    | _ size ih =>
        obtain ⟨id, token, later, returns, -⟩ := Iff.mpr callProgresses_iff (closed stream .refl)
        by_cases ended : id = .eof
        · subst ended
          exact ⟨stream, token, later, .refl, returns⟩
        · have calls : Calls stream later := ⟨id, token, returns, ended⟩
          obtain ⟨last, text, behind, reached, eof⟩ :=
            ih later.length (size ▸ calls.shorter)
              (fun next reached => closed next (.head calls reached)) rfl
          exact ⟨last, text, behind, .head calls reached, eof⟩

end Progress

/-- A call makes progress exactly when the token at which the stream begins is closed, and repeated
calls come to the end of the stream exactly when each of them begins with a closed token. -/
theorem scanPopToken_progress_iff (stream : Stream) :
    (CallProgresses stream ↔ ClosedToken stream) ∧
      (ReachesEof stream ↔ ∀ later, Relation.ReflTransGen Calls stream later → ClosedToken later) :=
  ⟨callProgresses_iff, reachesEof_iff⟩

/-- At the end of a file that ends with the comment `//x`, the scanner does not come back. -/
theorem scanPopToken_stuck : ¬ CallProgresses [slash, slash, 120] ∧ ¬ ReachesEof [slash, slash, 120] := by
  have lost : ∀ found, ¬ ScanReturns [slash, slash, 120] found := by
    intro found returns
    have popped := popped_of_returns returns
    cases popped
  refine ⟨?_, ?_⟩
  · rintro ⟨id, token, later, returns, -⟩
    exact lost _ returns
  · rintro ⟨last, token, later, reached, returns⟩
    rcases Relation.ReflTransGen.cases_head reached with rfl | ⟨next, ⟨id, text, goes, -⟩, -⟩
    · exact lost _ returns
    · exact lost _ goes

end Tegenaria.QCBuild
