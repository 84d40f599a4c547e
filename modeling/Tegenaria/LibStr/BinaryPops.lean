import Tegenaria.LibStr.Codec

/-!
# Pops that fail

A pop returns `-1` without a value when too few bytes are left, and callers try again
from where they are.  The module follows the pointer, the number of bytes left and the
buffer itself through every pop of `Binary.cpp`, and the string through every pop of
`BinaryString.cpp`.  The sizes are those that callers can pass: a negative one that is
not refused makes `memcpy` read almost the whole address space, which is undefined.
-/

namespace Tegenaria.LibStr

open Foundation
open Foundation.Bytes
open Foundation.Word

/-- A pop that both kinds of buffers have. -/
inductive FieldPop where
  | byte
  | dword (flags : ByteOrder)
  | qword (flags : ByteOrder)
  | raw (rawSize : Int32)

/-- A pop of `Binary.cpp`. -/
inductive BufferPop where
  | field (pop : FieldPop)
  | string

/-- A buffer, the offset of the pointer `it` in it and the number of bytes left. -/
structure Place where
  buffer : List UInt8
  it : Int
  bytesLeft : Int
  deriving DecidableEq

namespace Place

/-- The bytes that are left reach to the end of the buffer. -/
structure Inside (place : Place) : Prop where
  lower : 0 ≤ place.it
  left : 0 ≤ place.bytesLeft
  reach : place.it + place.bytesLeft = place.buffer.length

/-- The bytes from the pointer on. -/
def read (place : Place) (count : Nat) : List UInt8 := (place.buffer.drop place.it.toNat).take count

def advance (place : Place) (count : Nat) : Place :=
  { place with it := place.it + count, bytesLeft := place.bytesLeft - count }

/-- Common body of the pops: refuse, or read and move the pointer. -/
def popBytes {Popped : Type} (place : Place) (count : Nat) (store : List UInt8 → Popped) :
    Place × Option Popped :=
  if place.bytesLeft < count then (place, none)
  else (place.advance count, some (store (place.read count)))

/-- `StrPopByte`, `StrPopDword`, `StrPopQword` and `StrPopRaw`.  Without a value the
exit code is `-1`. -/
def popField (place : Place) : FieldPop → Option (Place × Option Value)
  | .byte => some (place.popBytes 1 fun bytes => .byte (bytes.headD 0))
  | .dword flags => some (place.popBytes 4 fun bytes => .dword (UInt32.ofNat (flags.decode bytes)))
  | .qword flags => some (place.popBytes 8 fun bytes => .qword (UInt64.ofNat (flags.decode bytes)))
  | .raw rawSize =>
      if rawSize.toInt > place.bytesLeft then some (place, none)
      else if rawSize.toInt < 0 then none
      else some (place.popBytes rawSize.toInt.toNat .raw)

/-- `StrPopString`: the string ends before its first zero.  The last byte of a string
that is not empty is overwritten by a zero. -/
def popString (place : Place) : Place × Option (List UInt8 × Int) :=
  match place.popBytes 4 (ByteOrder.decode .littleEndian) with
  | (next, none) => (next, none)
  | (next, some len) =>
      if toU32 next.bytesLeft < len then (next, none)
      else if len > 0 then
        let buffer := next.buffer.set (next.it.toNat + len - 1) 0
        let ended := { next with buffer }
        (ended.advance len, some ((ended.read len).takeWhile (· ≠ 0), toI32 len))
      else
        (next, some ([], 0))

def pop (place : Place) : BufferPop → Option (Place × Option Answer)
  | .field pop => (place.popField pop).map fun outcome => (outcome.1, outcome.2.map .field)
  | .string =>
      let (next, popped) := place.popString
      some (next, popped.map fun pair => .string pair.1 pair.2)

/-- The length in front of a string. -/
def stringLength (place : Place) : Nat := ofLittleEndian (place.read 4)

end Place

/-- A place from which pops are made. -/
structure Position extends Place where
  inside : toPlace.Inside
  known : bytesLeft < 2 ^ 31

/-- The pops of `BinaryString.cpp`. -/
def stringPop (buf : List UInt8) : FieldPop → Option (List UInt8 × Option Value)
  | .byte => some (stringReader.respond buf .byte)
  | .dword flags => some (stringReader.respond buf (.dword flags))
  | .qword flags => some (stringReader.respond buf (.qword flags))
  | .raw rawSize =>
      if rawSize.toInt > toI32 buf.length then some (buf, none)
      else if rawSize.toInt < 0 then none
      else some (stringReader.respond buf (.raw rawSize.toInt.toNat))

namespace FieldPop

/-- The number of bytes that are asked for. -/
def count : FieldPop → Int
  | .byte => 1
  | .dword _ => 4
  | .qword _ => 8
  | .raw rawSize => rawSize.toInt

/-- The pop as the readers know it. -/
def kind : FieldPop → Kind
  | .byte => .byte
  | .dword flags => .dword flags
  | .qword flags => .qword flags
  | .raw rawSize => .raw rawSize.toInt.toNat

theorem kind_size {pop : FieldPop} (positive : 0 ≤ pop.count) : (pop.kind.size : Int) = pop.count := by
  cases pop with
  | byte => rfl
  | dword flags => rfl
  | qword flags => rfl
  | raw rawSize => exact Int.toNat_of_nonneg positive

end FieldPop

/-- The number of bytes that a pop takes when it succeeds. -/
def BufferPop.count (place : Place) : BufferPop → Int
  | .field pop => pop.count
  | .string => 4 + place.stringLength

/-- A failed pop changes nothing, a pop that succeeds moves on by what it took and stays
inside the buffer, and a negative size is refused. -/
structure PopsClean (start : Place) (pop : BufferPop) (after : Place) (popped : Option Answer) :
    Prop where
  failed : popped = none → after = start
  moved : popped ≠ none → after.Inside ∧ after.it = start.it + pop.count start ∧
    after.buffer.length = start.buffer.length
  refused : pop.count start < 0 → popped = none

/-- The same for a string that bytes are taken off. -/
structure StringPopsClean (buf : List UInt8) (pop : FieldPop) (after : List UInt8)
    (popped : Option Value) : Prop where
  failed : popped = none → after = buf
  moved : popped ≠ none → after = buf.drop pop.count.toNat
  refused : pop.count < 0 → popped = none

/-- The sizes that a pop of `Binary.cpp` has to be given: the size of a block is not
negative, and a string that is cut off has no room for its length either. -/
def BufferPop.Proper (place : Place) : BufferPop → Prop
  | .field pop => 0 ≤ pop.count
  | .string => place.bytesLeft < 4 ∨ 4 + place.stringLength ≤ place.bytesLeft

/-- The sizes that a pop of `BinaryString.cpp` has to be given: they are refused, or the
length of the string is an `int` and the size is not negative. -/
def FieldPop.Proper (buf : List UInt8) (pop : FieldPop) : Prop :=
  toI32 buf.length < pop.count ∨ 0 ≤ pop.count ∧ buf.length < 2 ^ 31

/-! ## Pops from a buffer -/

theorem Place.Inside.advance {place : Place} (inside : place.Inside) {count : Nat}
    (enough : count ≤ place.bytesLeft) : (place.advance count).Inside where
  lower := by
    have lower := inside.lower
    rw [Place.advance]
    simp only
    omega
  left := by
    rw [Place.advance]
    simp only
    omega
  reach := by
    have reach := inside.reach
    rw [Place.advance]
    simp only
    omega

theorem clean_of_failed (place : Place) (pop : BufferPop) : PopsClean place pop place none where
  failed _ := rfl
  moved popped := absurd rfl popped
  refused _ := rfl

theorem clean_of_moved {place after : Place} {pop : BufferPop} {answer : Answer}
    (inside : after.Inside) (moved : after.it = place.it + pop.count place)
    (length : after.buffer.length = place.buffer.length) (positive : 0 ≤ pop.count place) :
    PopsClean place pop after (some answer) where
  failed failed := absurd failed (Option.some_ne_none answer)
  moved _ := ⟨inside, moved, length⟩
  refused negative := absurd positive (by omega)

/-- All pops from a place have one shape. -/
theorem popField_eq (position : Position) (pop : FieldPop) :
    position.popField pop =
      if pop.count < 0 then none
      else some (position.popBytes pop.kind.size fun bytes => pop.kind.read bytes) := by
  have left := position.inside.left
  cases pop with
  | byte => rfl
  | dword flags => rfl
  | qword flags => rfl
  | raw rawSize =>
      rw [Place.popField, FieldPop.count]
      by_cases negative : rawSize.toInt < 0
      · rw [if_neg (by omega), if_pos negative, if_pos negative]
      · rw [if_neg negative, if_neg negative]
        split
        · rw [FieldPop.kind, Kind.size, Place.popBytes, if_pos (by omega)]
        · rfl

/-- A pop of a size that is not negative is clean. -/
theorem popBytes_clean {place : Place} (inside : place.Inside) {pop : FieldPop}
    (positive : 0 ≤ pop.count) (store : List UInt8 → Value) :
    PopsClean place (.field pop) (place.popBytes pop.kind.size store).1
      ((place.popBytes pop.kind.size store).2.map .field) := by
  have size := FieldPop.kind_size positive
  rw [Place.popBytes]
  by_cases short : place.bytesLeft < pop.kind.size
  · rw [if_pos short]
    exact clean_of_failed place (.field pop)
  · rw [if_neg short]
    exact clean_of_moved (inside.advance (by omega)) (congrArg (place.it + ·) size) rfl positive

/-- The outcome of `StrPopString` by the length in front of the string. -/
theorem popString_eq (position : Position) :
    position.popString =
      if position.bytesLeft < 4 then (position.toPlace, none)
      else if position.bytesLeft < 4 + position.stringLength then (position.advance 4, none)
      else if 0 < position.stringLength then
        let ended : Place :=
          { position.advance 4 with
            buffer := position.buffer.set ((position.it + 4).toNat + position.stringLength - 1) 0 }
        (ended.advance position.stringLength,
          some ((ended.read position.stringLength).takeWhile (· ≠ 0), toI32 position.stringLength))
      else (position.advance 4, some ([], 0)) := by
  have known := position.known
  have left := position.inside.left
  rw [Place.popString, Place.popBytes]
  by_cases short : position.bytesLeft < 4
  · rw [if_pos short, if_pos (by exact_mod_cast short)]
  · have room : toU32 (position.advance 4).bytesLeft = position.bytesLeft - 4 := by
      change (toU32 (position.bytesLeft - 4) : Int) = position.bytesLeft - 4
      exact toU32_of_nonneg (by omega) (by omega)
    have cut : toU32 (position.advance 4).bytesLeft < position.stringLength ↔
        position.bytesLeft < 4 + position.stringLength := by omega
    rw [if_neg short, if_neg (by exact_mod_cast short)]
    change (if toU32 (position.advance 4).bytesLeft < position.stringLength then _ else _) = _
    by_cases cutOff : position.bytesLeft < 4 + position.stringLength
    · rw [if_pos cutOff, if_pos (cut.mpr cutOff)]
    · rw [if_neg cutOff, if_neg fun short => cutOff (cut.mp short)]
      rfl

/-- A string is popped clean unless it is cut off behind its length. -/
theorem popString_clean_iff (position : Position) :
    PopsClean position.toPlace .string position.popString.1
        (position.popString.2.map fun pair => Answer.string pair.1 pair.2) ↔
      BufferPop.Proper position.toPlace .string := by
  have left := position.inside.left
  rw [popString_eq, BufferPop.Proper]
  by_cases short : position.bytesLeft < 4
  · rw [if_pos short]
    exact iff_of_true (clean_of_failed position.toPlace .string) (.inl short)
  · rw [if_neg short]
    have headed : (position.advance 4).Inside := position.inside.advance (by omega)
    by_cases cutOff : position.bytesLeft < 4 + position.stringLength
    · rw [if_pos cutOff]
      refine iff_of_false (fun clean => ?_) (by omega)
      have moved := congrArg Place.it (clean.failed rfl)
      simp only [Place.advance] at moved
      omega
    · rw [if_neg cutOff]
      refine iff_of_true ?_ (.inr (by omega))
      have taken : BufferPop.count position.toPlace .string = 4 + position.stringLength := rfl
      by_cases empty : 0 < position.stringLength
      · rw [if_pos empty]
        have ended : Place.Inside { position.advance 4 with
            buffer := position.buffer.set ((position.it + 4).toNat + position.stringLength - 1) 0 } := by
          refine ⟨headed.lower, headed.left, ?_⟩
          rw [List.length_set]
          exact headed.reach
        have rest : (position.stringLength : Int) ≤ (position.advance 4).bytesLeft := by
          rw [Place.advance]
          simp only
          omega
        refine clean_of_moved (ended.advance rest) ?_ List.length_set (by omega)
        rw [taken]
        simp only [Place.advance]
        omega
      · rw [if_neg empty]
        refine clean_of_moved headed ?_ rfl (by omega)
        rw [taken]
        simp only [Place.advance]
        omega

/-- A pop from a place in a buffer is clean exactly for proper sizes. -/
theorem pop_clean_iff (position : Position) (pop : BufferPop) :
    (∃ after popped, position.pop pop = some (after, popped) ∧
        PopsClean position.toPlace pop after popped) ↔
      pop.Proper position.toPlace := by
  have left := position.inside.left
  cases pop with
  | string =>
      rw [← popString_clean_iff]
      constructor
      · rintro ⟨after, popped, outcome, clean⟩
        cases outcome
        exact clean
      · exact fun clean => ⟨_, _, rfl, clean⟩
  | field pop =>
      rw [BufferPop.Proper, Place.pop, popField_eq]
      by_cases negative : pop.count < 0
      · rw [if_pos negative]
        refine iff_of_false (fun ⟨after, popped, outcome, _⟩ => ?_) (by omega)
        cases outcome
      · rw [if_neg negative]
        refine iff_of_true ⟨_, _, rfl, ?_⟩ (by omega)
        exact popBytes_clean position.inside (by omega) _

/-! ## The same pops on a cursor -/

/-- What the readers over a pointer see of a place. -/
def Place.cursor (place : Place) : Cursor where
  bytes := place.buffer.drop place.it.toNat
  bytesLeft := place.bytesLeft

theorem Place.Inside.cursor_advance {place : Place} (inside : place.Inside) (count : Nat) :
    (place.advance count).cursor = place.cursor.advance count := by
  have lower := inside.lower
  have moved : (place.it + count).toNat = place.it.toNat + count := by omega
  simp only [Place.cursor, Place.advance, Cursor.advance, moved, List.drop_drop]

def BufferPop.request : BufferPop → Request
  | .field pop => .field pop.kind
  | .string => .string

theorem Place.Inside.popBytes_cursor {place : Place} (inside : place.Inside) (count : Nat)
    (store : List UInt8 → Value) :
    ((place.popBytes count store).1.cursor, (place.popBytes count store).2) =
      if place.cursor.bytesLeft < count then (place.cursor, none)
      else (place.cursor.advance count, some (store (place.cursor.bytes.take count))) := by
  rw [Place.popBytes]
  change _ = if place.bytesLeft < count then _ else _
  split
  · rfl
  · rw [inside.cursor_advance]
    rfl

/-- The characters of a string whose last byte was overwritten by a zero. -/
theorem takeWhile_ended {bytes : List UInt8} {start len : Nat} (positive : 0 < len)
    (fits : start + len ≤ bytes.length) :
    ((((bytes.set (start + len - 1) 0).drop start).take len).takeWhile (· ≠ 0)) =
      (((bytes.drop start).take (len - 1)).takeWhile (· ≠ 0)) := by
  obtain ⟨before, rfl⟩ := Nat.exists_eq_succ_of_ne_zero positive.ne'
  have length : ((bytes.drop start).take before).length = before := by
    rw [List.length_take, List.length_drop]
    omega
  have ended : ((bytes.set (start + before.succ - 1) 0).drop start).take before.succ =
      (bytes.drop start).take before ++ [0] := by
    rw [List.drop_set, if_neg (by omega), Nat.add_succ_sub_one, Nat.add_sub_cancel_left,
      List.set_eq_take_append_cons_drop, if_pos (by rw [List.length_drop]; omega),
      List.take_append, length, Nat.succ_sub (le_refl before), Nat.sub_self, List.take_of_length_le]
    · rfl
    · omega
  rw [ended, Nat.succ_sub_one, List.takeWhile_append]
  split
  · next whole =>
      have same := List.IsPrefix.eq_of_length (List.takeWhile_prefix (· ≠ (0 : UInt8))) whole
      exact (List.append_nil _).trans same.symm
  · rfl

/-- The zero behind a string is written in front of what is read next. -/
theorem Place.Inside.ended_cursor {place : Place} (inside : place.Inside) {len : Nat}
    (positive : 0 < len) (fits : len ≤ place.bytesLeft) :
    (Place.advance { place with buffer := place.buffer.set (place.it.toNat + len - 1) 0 } len).cursor =
        place.cursor.advance len ∧
      (Place.read { place with buffer := place.buffer.set (place.it.toNat + len - 1) 0 } len).takeWhile
          (· ≠ 0) = (place.cursor.bytes.take (len - 1)).takeWhile (· ≠ 0) := by
  have lower := inside.lower
  have reach := inside.reach
  have moved : (place.it + len).toNat = place.it.toNat + len := by omega
  have written : place.it.toNat + len ≤ place.buffer.length := by omega
  refine ⟨?_, takeWhile_ended positive written⟩
  simp only [Place.cursor, Place.advance, Cursor.advance, moved, List.drop_drop]
  rw [List.drop_set_of_lt (by omega)]

/-- A string from a place is the string that the reader over a pointer sees. -/
theorem string_cursor (position : Position) :
    position.cursor.strPopString = (position.popString.1.cursor, position.popString.2) := by
  have lower := position.inside.lower
  have left := position.inside.left
  have reach := position.inside.reach
  have known := position.known
  rw [popString_eq, Cursor.strPopString, Cursor.strPopDword, Cursor.popWord]
  by_cases short : position.bytesLeft < 4
  · rw [if_pos short, if_pos (by exact_mod_cast short)]
  · have headed : (position.advance 4).Inside := position.inside.advance (by omega)
    have room : toU32 (position.cursor.advance 4).bytesLeft = position.bytesLeft - 4 := by
      change (toU32 (position.bytesLeft - 4) : Int) = position.bytesLeft - 4
      exact toU32_of_nonneg (by omega) (by omega)
    rw [if_neg short, if_neg (by exact_mod_cast short)]
    change (if toU32 (position.cursor.advance 4).bytesLeft < position.stringLength then
        (position.cursor.advance 4, none)
      else
        let str := if position.stringLength > 0 then
          ((position.cursor.advance 4).bytes.take (position.stringLength - 1)).takeWhile (· ≠ 0) else []
        ((position.cursor.advance 4).advance position.stringLength,
          some (str, toI32 position.stringLength))) = _
    rw [← position.inside.cursor_advance] at room ⊢
    by_cases cutOff : position.bytesLeft < 4 + position.stringLength
    · rw [if_pos cutOff, if_pos (by omega)]
    · rw [if_neg cutOff, if_neg (by omega)]
      by_cases filled : 0 < position.stringLength
      · have rest : (position.stringLength : Int) ≤ (position.advance 4).bytesLeft := by
          rw [Place.advance]
          simp only
          omega
        obtain ⟨moved, text⟩ := headed.ended_cursor filled rest
        rw [if_pos filled, if_pos filled, ← moved, ← text]
        rfl
      · have empty : position.stringLength = 0 := by omega
        have still : (position.advance 4).cursor.advance 0 = (position.advance 4).cursor := by
          simp [Cursor.advance]
        rw [if_neg filled, if_neg filled, empty, still]
        rfl

/-- A pop from a place is the pop of the reader that sees the bytes from there on. -/
theorem pop_cursor {position : Position} {pop : BufferPop} {after : Place} {popped : Option Answer}
    (defined : position.pop pop = some (after, popped)) :
    entryReader.respond position.cursor pop.request = (after.cursor, popped) := by
  cases pop with
  | string =>
      rw [Place.pop, Option.some.injEq] at defined
      obtain ⟨rfl, rfl⟩ := Prod.mk.inj defined
      simp only [BufferPop.request, entryReader, string_cursor]
  | field pop =>
      rw [Place.pop, popField_eq] at defined
      split at defined
      · cases defined
      · have seen := position.inside.popBytes_cursor pop.kind.size fun bytes => pop.kind.read bytes
        have reader := (cursorReader_respond position.cursor pop.kind).trans seen.symm
        cases defined
        simp only [BufferPop.request, entryReader, reader]

/-! ## Pops from a string -/

section Strings

variable {buf : List UInt8}

theorem stringClean_of_failed (buf : List UInt8) (pop : FieldPop) : StringPopsClean buf pop buf none where
  failed _ := rfl
  moved popped := absurd rfl popped
  refused _ := rfl

/-- A pop that succeeds leaves the rest of the string exactly when its length is an
`int`. -/
theorem stringClean_taken_iff {pop : FieldPop} {count : Nat} (size : pop.count = count) (value : Value)
    (enough : count ≤ toI32 buf.length) :
    StringPopsClean buf pop ((buf.drop count).take ((toI32 buf.length).toNat - count)) (some value) ↔
      buf.length < 2 ^ 31 := by
  constructor
  · intro clean
    have rest := congrArg List.length (clean.moved (Option.some_ne_none value))
    have upper := toI32_upper buf.length
    rw [size, Int.toNat_natCast, List.length_take, List.length_drop] at rest
    by_contra long
    have shorter : toI32 buf.length < buf.length := by omega
    omega
  · intro short
    have known : toI32 buf.length = buf.length := toI32_of_fits (by omega) (by omega)
    exact
      { failed := fun failed => absurd failed (Option.some_ne_none value)
        moved := fun _ => by
          rw [size, known, Int.toNat_natCast, Int.toNat_natCast, List.take_of_length_le]
          rw [List.length_drop]
        refused := fun negative => by
          rw [size] at negative
          omega }

/-- All pops from a string have one shape. -/
theorem stringPop_eq (buf : List UInt8) (pop : FieldPop) :
    stringPop buf pop =
      if toI32 buf.length < pop.count then some (buf, none)
      else if pop.count < 0 then none
      else some (stringReader.respond buf pop.kind) := by
  have fixed : ∀ (kind : Kind) (size : Nat), kind.size = size →
      some (stringReader.respond buf kind) =
        if toI32 buf.length < size then some (buf, none)
        else if (size : Int) < 0 then none
        else some (stringReader.respond buf kind) := by
    rintro kind _ rfl
    split
    · next short => rw [stringReader_respond, if_pos short]
    · rw [if_neg (by omega)]
  cases pop with
  | byte => exact fixed .byte 1 rfl
  | dword flags => exact fixed (.dword flags) 4 rfl
  | qword flags => exact fixed (.qword flags) 8 rfl
  | raw rawSize => rfl

/-- A pop from a string is clean exactly for proper sizes. -/
theorem stringPop_clean_iff (buf : List UInt8) (pop : FieldPop) :
    (∃ after popped, stringPop buf pop = some (after, popped) ∧ StringPopsClean buf pop after popped) ↔
      pop.Proper buf := by
  rw [stringPop_eq, FieldPop.Proper]
  by_cases short : toI32 buf.length < pop.count
  · rw [if_pos short]
    exact iff_of_true ⟨buf, none, rfl, stringClean_of_failed buf pop⟩ (.inl short)
  · rw [if_neg short, or_iff_right short]
    by_cases negative : pop.count < 0
    · rw [if_pos negative]
      refine iff_of_false (fun ⟨after, popped, outcome, _⟩ => ?_) (by omega)
      cases outcome
    · have size := FieldPop.kind_size (Int.not_lt.mp negative)
      rw [if_neg negative, stringReader_respond, if_neg (by omega), and_iff_right (by omega),
        ← stringClean_taken_iff size.symm (pop.kind.read (buf.take pop.kind.size)) (by omega)]
      constructor
      · rintro ⟨after, popped, same, clean⟩
        cases same
        exact clean
      · exact fun clean => ⟨_, _, rfl, clean⟩

end Strings

/-- A failed pop changes nothing, a pop that succeeds moves on by what it took, and a
negative size is refused exactly where the sizes are proper: for a buffer and every
place in it, and for a string. -/
theorem pops_clean_iff (position : Position) (pop : BufferPop) (buf : List UInt8) (fieldPop : FieldPop) :
    ((∃ after popped, position.pop pop = some (after, popped) ∧
          PopsClean position.toPlace pop after popped) ↔
        pop.Proper position.toPlace) ∧
      ((∃ after popped, stringPop buf fieldPop = some (after, popped) ∧
          StringPopsClean buf fieldPop after popped) ↔
        fieldPop.Proper buf) :=
  ⟨pop_clean_iff position pop, stringPop_clean_iff buf fieldPop⟩

/-- A string of three bytes is announced, two are left. -/
def cutOffString : Position where
  buffer := [3, 0, 0, 0, 97, 98]
  it := 0
  bytesLeft := 6
  inside := ⟨by decide, by decide, by decide⟩
  known := by decide

/-- The pop fails and has moved on by four bytes. -/
theorem popString_moves_on :
    ¬ ∃ after popped, cutOffString.pop .string = some (after, popped) ∧
        PopsClean cutOffString.toPlace .string after popped := by
  rintro ⟨after, popped, outcome, clean⟩
  cases outcome
  exact absurd (clean.failed rfl) (by decide)

end Tegenaria.LibStr
