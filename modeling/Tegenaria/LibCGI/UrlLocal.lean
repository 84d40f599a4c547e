import Tegenaria.LibCGI.Url

/-!
# Locality of the URL decoder

`CgiUrlDecode` keeps the last number that `sscanf` has read in a variable of the whole
loop.  An escape that cannot be read gives the byte of an earlier escape, or one that
was never written.  Texts in which every escape can be read are decoded piece by piece.
-/

namespace Tegenaria.LibCGI

/-- What one round of the loop reads: the characters behind a `%`, or one letter. -/
inductive Piece
  | escape (digits : ByteString)
  | single (letter : UInt8)

namespace Piece

/-- The number of positions that the counter is moved by. -/
def width : Piece → Nat
  | escape _ => 3
  | single _ => 1

/-- The value of `ii` behind the piece. -/
def scanned (ii : Int) : Piece → Int
  | escape digits => (scanHex digits).getD ii
  | single _ => ii

/-- The byte that is appended. -/
def byte (ii : Int) : Piece → UInt8
  | escape digits => UInt8.ofInt ((scanHex digits).getD ii)
  | single letter => if letter == 43 then 32 else letter

/-- An escape that `sscanf` reads a number from. -/
def readable : Piece → Bool
  | escape digits => (scanHex digits).isSome
  | single _ => true

/-- An escape that is cut off by the end of the text. -/
def truncated : Piece → Bool
  | escape digits => digits.length < 2
  | single _ => false

theorem byte_of_readable {piece : Piece} (isReadable : piece.readable) (ii other : Int) :
    piece.byte ii = piece.byte other := by
  cases piece with
  | escape digits =>
      obtain ⟨value, scanned⟩ := Option.isSome_iff_exists.mp isReadable
      rw [byte, byte, scanned]
      rfl
  | single letter => rfl

theorem byte_of_unreadable {piece : Piece} (notReadable : piece.readable = false) (ii : Int) :
    piece.byte ii = UInt8.ofInt ii := by
  cases piece with
  | escape digits =>
      have nothing : scanHex digits = none :=
        Option.isNone_iff_eq_none.mp (Option.isSome_eq_false_iff.mp notReadable)
      rw [byte, nothing]
      rfl
  | single letter => cases notReadable

end Piece

/-- The pieces of a text. -/
@[grind =] def pieces : ByteString → List Piece
  | [] => []
  | letter :: rest =>
      if letter == 37 then
        match rest with
        | first :: second :: later => .escape [first, second] :: pieces later
        | _ => [.escape rest]
      else .single letter :: pieces rest

theorem pieces_escape {letter : UInt8} (isPercent : letter == 37) (first second : UInt8)
    (later : ByteString) :
    pieces (letter :: first :: second :: later) = .escape [first, second] :: pieces later := by
  rw [pieces, if_pos isPercent]

theorem pieces_truncated {letter : UInt8} (isPercent : letter == 37) {rest : ByteString}
    (short : ∀ first second later, rest = first :: second :: later → False) :
    pieces (letter :: rest) = [.escape rest] := by
  rw [pieces.eq_3 letter rest short, if_pos isPercent]

theorem pieces_single {letter : UInt8} (notPercent : ¬(letter == 37) = true) (rest : ByteString) :
    pieces (letter :: rest) = .single letter :: pieces rest := by
  rw [pieces.eq_def]
  exact if_neg notPercent

/-- The text ends inside of an escape. -/
def endsInside (text : ByteString) : Bool := (pieces text).any Piece.truncated

/-- The position of the counter behind all pieces. -/
def endPosition (text : ByteString) : Nat := ((pieces text).map Piece.width).sum

/-- The decoder as a walk over the pieces. -/
@[grind =] def decodePieces (ii : Int) (i : Nat) : List Piece → Option ByteString
  | [] => some []
  | piece :: rest =>
      if i + piece.width < 2 ^ 31 then
        (decodePieces (piece.scanned ii) (i + piece.width) rest).map (piece.byte ii :: ·)
      else none

theorem decodeLoop_eq (ii : Int) (i : Nat) (text : ByteString) :
    decodeLoop ii i text = decodePieces ii i (pieces text) := by
  fun_induction pieces text generalizing ii i with
  | case1 => rfl
  | case2 letter isPercent first second later ih =>
      rw [decodeLoop, if_pos isPercent, decodePieces]
      simp only [List.take_succ_cons, List.take_zero, ih]
      rfl
  | case3 letter rest isPercent short =>
      rw [decodeLoop, if_pos isPercent]
      cases rest with
      | nil => rfl
      | cons first rest =>
          cases rest with
          | nil => rfl
          | cons second later => exact absurd rfl (short first second later)
  | case4 letter rest notPercent ih =>
      rw [decodeLoop, if_neg notPercent, decodePieces, ih]
      rfl

/-! ## Texts whose escapes can all be read -/

theorem decodePieces_readable {list : List Piece} (readable : ∀ piece ∈ list, piece.readable)
    (ii : Int) {i : Nat} (inRange : i < 2 ^ 31) :
    decodePieces ii i list =
      if i + (list.map Piece.width).sum < 2 ^ 31 then some (list.map (Piece.byte 0)) else none := by
  induction list generalizing ii i with
  | nil => rw [decodePieces, if_pos (by simpa using inRange), List.map_nil]
  | cons piece rest ih =>
      have later : ∀ piece ∈ rest, piece.readable :=
        fun piece member => readable piece (List.mem_cons_of_mem _ member)
      rw [decodePieces, List.map_cons, List.sum_cons, ← Nat.add_assoc]
      by_cases fits : i + piece.width < 2 ^ 31
      · rw [if_pos fits, ih later _ fits,
          piece.byte_of_readable (readable piece List.mem_cons_self) ii 0]
        split <;> rfl
      · rw [if_neg fits, if_neg (by omega)]

/-- What is decoded has come to the end of the text. -/
theorem endPosition_of_decodePieces {list : List Piece} {ii : Int} {i : Nat}
    (inRange : i < 2 ^ 31) {result : ByteString} (decoded : decodePieces ii i list = some result) :
    i + (list.map Piece.width).sum < 2 ^ 31 := by
  induction list generalizing ii i result with
  | nil => simpa using inRange
  | cons piece rest ih =>
      rw [decodePieces] at decoded
      split at decoded
      · next fits =>
          obtain ⟨later, decodedLater, _⟩ := Option.map_eq_some_iff.mp decoded
          have bound := ih fits decodedLater
          rw [List.map_cons, List.sum_cons]
          omega
      · cases decoded

/-! ## Cutting a text -/

theorem pieces_append {left : ByteString} (closed : endsInside left = false) (right : ByteString) :
    pieces (left ++ right) = pieces left ++ pieces right := by
  rw [endsInside] at closed
  fun_induction pieces left with
  | case1 => rfl
  | case2 letter isPercent first second later ih =>
      rw [List.any_cons, Bool.or_eq_false_iff] at closed
      rw [List.cons_append, List.cons_append, List.cons_append, pieces_escape isPercent,
        ih closed.2, List.cons_append]
  | case3 letter rest isPercent short =>
      cases rest with
      | nil => cases closed
      | cons first rest =>
          cases rest with
          | nil => cases closed
          | cons second later => exact absurd rfl (short first second later)
  | case4 letter rest notPercent ih =>
      rw [List.any_cons, Bool.or_eq_false_iff] at closed
      rw [List.cons_append, pieces_single notPercent, ih closed.2, List.cons_append]

/-- A text can be cut in front of each of its pieces. -/
theorem cut_before {text : ByteString} {piece : Piece} (member : piece ∈ pieces text) :
    ∃ left right later, text = left ++ right ∧ endsInside left = false ∧
      pieces right = piece :: later := by
  fun_induction pieces text with
  | case1 => cases member
  | case2 letter isPercent first second later ih =>
      rcases List.mem_cons.mp member with rfl | inLater
      · exact ⟨[], letter :: first :: second :: later, pieces later, rfl, rfl,
          pieces_escape isPercent first second later⟩
      · obtain ⟨left, right, behind, rfl, closed, cut⟩ := ih inLater
        refine ⟨letter :: first :: second :: left, right, behind, rfl, ?_, cut⟩
        rw [endsInside, pieces_escape isPercent]
        exact closed
  | case3 letter rest isPercent short =>
      refine ⟨[], letter :: rest, [], rfl, rfl, ?_⟩
      rw [List.mem_singleton.mp member, pieces_truncated isPercent short]
  | case4 letter rest notPercent ih =>
      rcases List.mem_cons.mp member with rfl | inLater
      · exact ⟨[], letter :: rest, pieces rest, rfl, rfl, pieces_single notPercent rest⟩
      · obtain ⟨left, right, behind, rfl, closed, cut⟩ := ih inLater
        refine ⟨letter :: left, right, behind, rfl, ?_, cut⟩
        rw [endsInside, pieces_single notPercent]
        exact closed

/-! ## Locality -/

/-- Wherever the text is cut outside of its escapes, the two parts are decoded to the two
parts of the result, whatever the variable `ii` of each run was before. -/
def DecodesLocally (text : ByteString) : Prop :=
  ∀ left right, text = left ++ right → endsInside left = false → ∀ ii leftIi rightIi,
    ∃ leftResult rightResult, cgiUrlDecode leftIi left = some leftResult ∧
      cgiUrlDecode rightIi right = some rightResult ∧
      cgiUrlDecode ii text = some (leftResult ++ rightResult)

theorem cgiUrlDecode_readable {text : ByteString} (readable : ∀ piece ∈ pieces text, piece.readable)
    (short : endPosition text < 2 ^ 31) (ii : Int) :
    cgiUrlDecode ii text = some ((pieces text).map (Piece.byte 0)) := by
  rw [cgiUrlDecode, decodeLoop_eq, decodePieces_readable readable ii (by decide),
    if_pos (by simpa [endPosition] using short)]

/-- The first byte of a text that begins with an unreadable escape is what was left in
the variable. -/
theorem head_of_unreadable {text : ByteString} {piece : Piece} {later : List Piece}
    (cut : pieces text = piece :: later) (notReadable : piece.readable = false) {ii : Int}
    {result : ByteString} (decoded : cgiUrlDecode ii text = some result) :
    result.head? = some (UInt8.ofInt ii) := by
  rw [cgiUrlDecode, decodeLoop_eq, cut, decodePieces] at decoded
  split at decoded
  · obtain ⟨rest, _, rfl⟩ := Option.map_eq_some_iff.mp decoded
    rw [List.head?_cons, Piece.byte_of_unreadable notReadable]
  · cases decoded

theorem readable_of_local {text : ByteString} (isLocal : DecodesLocally text) :
    ∀ piece ∈ pieces text, piece.readable := by
  intro piece member
  by_contra notReadable
  rw [Bool.not_eq_true] at notReadable
  obtain ⟨left, right, later, joined, closed, cut⟩ := cut_before member
  obtain ⟨first, second, decodedFirst, decodedSecond, whole⟩ :=
    isLocal left right joined closed 0 0 0
  obtain ⟨first', other, decodedFirst', decodedOther, whole'⟩ :=
    isLocal left right joined closed 0 0 1
  have sameFirst : first = first' := Option.some.inj (decodedFirst.symm.trans decodedFirst')
  have sameSecond : second = other := by
    rw [sameFirst] at whole
    exact List.append_cancel_left (Option.some.inj (whole.symm.trans whole'))
  have heads := (head_of_unreadable cut notReadable decodedSecond).symm.trans
    (sameSecond ▸ head_of_unreadable cut notReadable decodedOther)
  exact absurd heads (by decide)

/-- A text is decoded locally exactly if a number can be read from each escape and the
counter stays in the range of an `int`. -/
theorem cgiUrlDecode_local_iff (text : ByteString) :
    DecodesLocally text ↔
      (∀ piece ∈ pieces text, piece.readable) ∧ endPosition text < 2 ^ 31 := by
  constructor
  · intro isLocal
    obtain ⟨first, second, _, decoded, _⟩ := isLocal [] text rfl rfl 0 0 0
    rw [cgiUrlDecode, decodeLoop_eq] at decoded
    have bound := endPosition_of_decodePieces (by decide) decoded
    exact ⟨readable_of_local isLocal, by simpa [endPosition] using bound⟩
  · rintro ⟨readable, short⟩ left right rfl closed ii leftIi rightIi
    have cut := pieces_append closed right
    rw [cgiUrlDecode_readable readable short]
    rw [cut] at readable ⊢
    rw [endPosition, cut, List.map_append, List.sum_append] at short
    have leftDecoded := cgiUrlDecode_readable
      (fun piece member => readable piece (List.mem_append_left _ member))
      (Nat.lt_of_le_of_lt (Nat.le_add_right _ _) short) leftIi
    have rightDecoded := cgiUrlDecode_readable
      (fun piece member => readable piece (List.mem_append_right _ member))
      (Nat.lt_of_le_of_lt (Nat.le_add_left _ _) short) rightIi
    exact ⟨_, _, leftDecoded, rightDecoded, by rw [List.map_append]⟩

/-- Behind `%41` the escape `%zz` gives another `A`, alone it gives what was in memory. -/
theorem cgiUrlDecode_not_local :
    endsInside [37, 52, 49] = false ∧
      cgiUrlDecode 0 ([37, 52, 49] ++ [37, 122, 122]) = some [65, 65] ∧
      cgiUrlDecode 0 [37, 52, 49] = some [65] ∧ cgiUrlDecode 0 [37, 122, 122] = some [0] ∧
      cgiUrlDecode 7 [37, 122, 122] = some [7] ∧
      ¬DecodesLocally [37, 52, 49, 37, 122, 122] := by
  refine ⟨by decide, by decide, by decide, by decide, by decide, ?_⟩
  intro isLocal
  obtain ⟨first, second, decodedFirst, decodedSecond, whole⟩ :=
    isLocal [37, 52, 49] [37, 122, 122] rfl (by decide) 0 0 0
  have isA : cgiUrlDecode 0 [37, 52, 49] = some [65] := by decide
  have isZero : cgiUrlDecode 0 [37, 122, 122] = some [0] := by decide
  have both : cgiUrlDecode 0 [37, 52, 49, 37, 122, 122] = some [65, 65] := by decide
  rw [isA] at decodedFirst
  rw [isZero] at decodedSecond
  rw [both, ← Option.some.inj decodedFirst, ← Option.some.inj decodedSecond] at whole
  exact absurd whole (by decide)

end Tegenaria.LibCGI
