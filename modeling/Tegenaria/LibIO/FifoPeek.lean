import Tegenaria.Foundation.Bytes
import Tegenaria.LibIO.Fifo

/-!
# Reading the front of a cyclic buffer

`peekQword`, `peekDword` and `peekByte` read the oldest bytes as a number, and `pop`
and `peek` document the length `-1` as a request for everything.  The module states
both for buffers of every capacity that an `unsigned int` can hold.  Where a copy
leaves the block, or a variable is read behind its last byte, the result is
undefined.
-/

namespace Tegenaria.LibIO

open Foundation
open Foundation.Word
open Foundation.Bytes

/-- The byte order that the caller of a typed peek asks for. -/
inductive Endian where
  | little
  | big
  deriving DecidableEq

namespace Endian

/-- The values of `IO_LITTLE_ENDIAN` and `IO_BIG_ENDIAN`. -/
def code : Endian → Int32
  | little => 0
  | big => 1

/-- The number written by a list of bytes. -/
def decode : Endian → List UInt8 → Nat
  | little => ofLittleEndian
  | big => ofBigEndian

end Endian

namespace IOFifo

/-- The copies that `pop` makes for a length read inside the block only. -/
def readsInside (fifo : IOFifo) (len : Int32) : Bool :=
  let count := toU32 len.toInt
  if fifo.size < count then true
  else if toU32 (fifo.readPos + count) < fifo.capacity then
    fifo.readPos + count ≤ fifo.capacity
  else
    let bytesToEnd := toU32 (fifo.capacity - fifo.readPos)
    let overflow := toU32 (count - bytesToEnd) % fifo.capacity
    fifo.readPos + bytesToEnd ≤ fifo.capacity ∧ overflow ≤ fifo.capacity

/-- `IOFifo::pop`, undefined where the destination is filled from outside the block. -/
def popInside (fifo : IOFifo) (dest : Option (Memory UInt8)) (len peekOnly : Int32) :
    Option (Int × Option (Memory UInt8) × IOFifo) :=
  if dest.isSome && !fifo.readsInside len then none else some (fifo.pop dest len peekOnly)

/-- The bytes of a variable that is set to zero and then filled by `peek`. -/
def peekVariable (fifo : IOFifo) (width : Nat) : Option (List UInt8 × IOFifo) := do
  let (_, dest, next) ← fifo.popInside (some fun _ => 0) (Int32.ofNat width) 1
  let ret ← dest
  return (ret.slice 0 width, next)

/-- The assignments `dst[0] = src[order[0]]`, `dst[1] = src[order[1]]` and so on;
undefined when one of them reads behind the source. -/
def inverseBytes (order : List Nat) (src : List UInt8) : Option (List UInt8) :=
  order.mapM (src[·]?)

/-- What `peekQword` and `peekDword` have in common, on a little-endian machine. -/
def peekWord (width : Nat) (order : List Nat) (fifo : IOFifo) (endian : Int32) :
    Option (Nat × IOFifo) := do
  let (ret, next) ← fifo.peekVariable width
  if endian = Endian.big.code then
    let inversed ← inverseBytes order ret
    return (ofLittleEndian inversed, next)
  else
    return (ofLittleEndian ret, next)

def peekQword : IOFifo → Int32 → Option (Nat × IOFifo) := peekWord 8 [7, 6, 5, 4, 3, 2, 1, 0]

/-- The bytes are taken from the places they have in a quadword. -/
def peekDword : IOFifo → Int32 → Option (Nat × IOFifo) := peekWord 4 [7, 6, 5, 4]

/-- The byte is taken from the write position. -/
def peekByte (fifo : IOFifo) : Option (Nat × IOFifo) :=
  if toU32 (fifo.capacity - fifo.bytesLeft) ≥ 1 then
    if fifo.writePos < fifo.capacity then some ((fifo.buffer fifo.writePos).toNat, fifo) else none
  else
    some (0, fifo)

/-- Purpose of the typed peeks: the first bytes of a queue as a number, or zero when
the queue is shorter. -/
def firstWord (endian : Endian) (width : Nat) (queue : List UInt8) : Nat :=
  if queue.length < width then 0 else endian.decode (queue.take width)

/-- The typed peeks agree with the queue and leave it alone. -/
structure PeeksFirst (fifo : IOFifo) (endian : Endian) : Prop where
  qword : fifo.peekQword endian.code = some (firstWord endian 8 fifo.contents, fifo)
  dword : fifo.peekDword endian.code = some (firstWord endian 4 fifo.contents, fifo)
  byte : fifo.peekByte = some (firstWord endian 1 fifo.contents, fifo)

/-- The default length of `pop` and `peek` takes everything: the destination, when
there is one, starts with the whole queue afterwards. -/
structure TakesAll (fifo : IOFifo) (dest : Option (Memory UInt8)) : Prop where
  pop : ∃ next, next.contents = [] ∧
    fifo.popInside dest (-1) 0 = some (0, dest.map (overwrite · fifo.contents), next)
  peek : fifo.popInside dest (-1) 1 = some (0, dest.map (overwrite · fifo.contents), fifo)

/-! ## The states of a buffer of any capacity -/

/-- What every call keeps, whatever its length. -/
structure Bounded (fifo : IOFifo) : Prop where
  capacity_lt : fifo.capacity < 2 ^ 32
  bytesLeft_le : fifo.bytesLeft ≤ fifo.capacity
  readPos_lt : fifo.readPos < fifo.capacity ∨ fifo.capacity = 0 ∧ fifo.readPos = 0
  writePos_lt : fifo.writePos < fifo.capacity ∨ fifo.capacity = 0 ∧ fifo.writePos = 0

variable {fifo : IOFifo}

theorem Bounded.size_eq (bounded : fifo.Bounded) : fifo.size = fifo.capacity - fifo.bytesLeft := by
  have := bounded.capacity_lt
  have := bounded.bytesLeft_le
  simp only [size, toU32]
  omega

theorem new_bounded {capacity : Nat} (small : capacity < 2 ^ 32) (memory : Memory UInt8) :
    (new capacity memory).Bounded where
  capacity_lt := small
  bytesLeft_le := le_refl _
  readPos_lt := capacity.eq_zero_or_pos.symm.imp id fun zero => ⟨zero, rfl⟩
  writePos_lt := capacity.eq_zero_or_pos.symm.imp id fun zero => ⟨zero, rfl⟩

/-- A position moved by a count that fits stays in the block. -/
theorem moved_lt {position capacity count : Nat}
    (inside : position < capacity ∨ capacity = 0 ∧ position = 0) (fits : count ≤ capacity) :
    toU32 (position + count) % capacity < capacity ∨
      capacity = 0 ∧ toU32 (position + count) % capacity = 0 := by
  rcases inside with below | ⟨rfl, rfl⟩
  · exact .inl (Nat.mod_lt _ (by omega))
  · obtain rfl : count = 0 := by omega
    exact .inr ⟨rfl, by decide⟩

theorem push_bounded (bounded : fifo.Bounded) (source : Memory UInt8) (len : Int32) :
    (fifo.push source len).2.Bounded := by
  rw [push]
  split
  · exact bounded
  · next accepted =>
      have small := bounded.capacity_lt
      have left := bounded.bytesLeft_le
      exact
        { capacity_lt := small
          bytesLeft_le := by
            simp only [toU32] at accepted ⊢
            omega
          readPos_lt := bounded.readPos_lt
          writePos_lt := moved_lt bounded.writePos_lt (by omega) }

theorem pop_bounded (bounded : fifo.Bounded) (dest : Option (Memory UInt8)) (len peekOnly : Int32) :
    (fifo.pop dest len peekOnly).2.2.Bounded := by
  have sizeEq := bounded.size_eq
  rw [size] at sizeEq
  rw [pop]
  split
  · exact bounded
  · next accepted =>
      have small := bounded.capacity_lt
      have left := bounded.bytesLeft_le
      simp only
      split
      · exact
          { capacity_lt := small
            bytesLeft_le := by
              simp only [toU32] at accepted sizeEq ⊢
              omega
            readPos_lt := moved_lt bounded.readPos_lt (by omega)
            writePos_lt := bounded.writePos_lt }
      · exact bounded

theorem apply_bounded (bounded : fifo.Bounded) (call : Call) : (fifo.apply call).2.Bounded := by
  cases call with
  | push source len => exact push_bounded bounded source len
  | pop dest len peekOnly => exact pop_bounded bounded dest len peekOnly
  | eat len => exact pop_bounded bounded none len 0

/-- Every state of a buffer of any capacity is bounded. -/
theorem reached_bounded {capacity : Nat} (small : capacity < 2 ^ 32) {memory : Memory UInt8}
    {calls : List Call} (reached : machine.run (new capacity memory) calls = some fifo) :
    fifo.Bounded := by
  have preserved : ∀ (state : IOFifo) (call : Call) (next : IOFifo), state.Bounded →
      machine.step state call = some next → next.Bounded := by
    intro state call next bounded stepped
    cases stepped
    exact apply_bounded bounded call
  exact Machine.run_preserves preserved (new_bounded small memory) reached

/-! ## What a copy reads -/

/-- A copy of bytes that are stored leaves the block exactly when its end is not an
`unsigned int`. -/
theorem readsInside_iff (bounded : fifo.Bounded) (len : Int32) :
    fifo.readsInside len = true ↔
      fifo.size < toU32 len.toInt ∨ fifo.readPos + toU32 len.toInt < 2 ^ 32 := by
  have small := bounded.capacity_lt
  have readLt := bounded.readPos_lt
  have sizeEq := bounded.size_eq
  rw [readsInside]
  generalize toU32 len.toInt = count
  by_cases refused : fifo.size < count
  · simp [refused]
  · rw [if_neg refused, or_iff_right refused]
    by_cases fits : fifo.readPos + count < 2 ^ 32
    · have sum : toU32 (fifo.readPos + count) = fifo.readPos + count := by
        simp only [toU32]
        omega
      have toEnd : toU32 (fifo.capacity - fifo.readPos) = fifo.capacity - fifo.readPos := by
        simp only [toU32]
        omega
      have wrapped : toU32 (count - toU32 (fifo.capacity - fifo.readPos)) % fifo.capacity ≤
          fifo.capacity := by
        rcases readLt with below | ⟨empty, start⟩
        · exact (Nat.mod_lt _ (by omega)).le
        · obtain rfl : count = 0 := by omega
          rw [empty, start]
          decide
      rw [sum]
      split
      · simp only [decide_eq_true_eq]
        omega
      · simp only [decide_eq_true_eq]
        exact ⟨fun _ => fits, fun _ => ⟨by omega, wrapped⟩⟩
    · have sum : toU32 (fifo.readPos + count) < fifo.capacity := by
        simp only [toU32]
        omega
      rw [if_pos sum]
      simp only [decide_eq_true_eq]
      omega

/-- A request for more bytes than are stored is refused. -/
theorem popInside_refused {len : Int32} (short : fifo.size < toU32 len.toInt)
    (bounded : fifo.Bounded) (dest : Option (Memory UInt8)) (peekOnly : Int32) :
    fifo.popInside dest len peekOnly = some (-1, dest, fifo) := by
  have inside := (readsInside_iff bounded len).mpr (.inl short)
  rw [popInside, inside, Bool.not_true, Bool.and_false, if_neg Bool.false_ne_true, pop]
  rw [size] at short
  rw [if_pos short]

/-- A request for stored bytes that reaches beyond the last address is undefined. -/
theorem popInside_outside {len : Int32} (stored : toU32 len.toInt ≤ fifo.size)
    (far : 2 ^ 32 ≤ fifo.readPos + toU32 len.toInt) (bounded : fifo.Bounded)
    (dst : Memory UInt8) (peekOnly : Int32) :
    fifo.popInside (some dst) len peekOnly = none := by
  have outside : fifo.readsInside len = false := by
    rw [Bool.eq_false_iff, Ne, readsInside_iff bounded]
    omega
  rw [popInside, outside]
  rfl

/-- Any other request hands out the oldest bytes. -/
theorem popInside_accepted {len : Int32} {dest : Option (Memory UInt8)}
    (stored : toU32 len.toInt ≤ fifo.size) (positive : 0 < toU32 len.toInt)
    (near : dest = none ∨ fifo.readPos + toU32 len.toInt < 2 ^ 32) (bounded : fifo.Bounded)
    (peekOnly : Int32) :
    fifo.popInside dest len peekOnly =
      some (0, dest.map (overwrite · (fifo.contents.take (toU32 len.toInt))),
        if peekOnly = 0 then
          { fifo with
            readPos := toU32 (fifo.readPos + toU32 len.toInt) % fifo.capacity
            bytesLeft := toU32 (fifo.bytesLeft + toU32 len.toInt) }
        else fifo) := by
  have sizeEq := bounded.size_eq
  have readLt := bounded.readPos_lt.resolve_right fun empty => by omega
  have accepted : ¬ toU32 (fifo.capacity - fifo.bytesLeft) < toU32 len.toInt := by
    rw [← size]
    omega
  cases dest with
  | none =>
      rw [popInside, Option.isSome_none, Bool.false_and, if_neg Bool.false_ne_true, pop, if_neg accepted]
      simp only [Option.map_none]
      split
      · rfl
      · rfl
  | some dst =>
      have close : fifo.readPos + toU32 len.toInt < 2 ^ 32 :=
        near.resolve_left (Option.some_ne_none dst)
      have inside := (readsInside_iff bounded len).mpr (.inr close)
      have copied := pop_dest_of_sum dst readLt stored (by omega) bounded.capacity_lt close
      rw [popInside, inside, Bool.not_true, Bool.and_false, if_neg Bool.false_ne_true, pop,
        if_neg accepted]
      simp only [Option.map_some, copied]
      split
      · rfl
      · rfl

/-! ## The typed peeks -/

theorem slice_overwrite (block : Memory UInt8) (bytes : List UInt8) :
    (overwrite block bytes).slice 0 bytes.length = bytes := by
  apply List.ext_getElem?
  intro index
  by_cases inside : index < bytes.length
  · rw [Memory.slice_getElem? _ inside]
    simp [overwrite, inside]
  · rw [List.getElem?_eq_none (by simpa using inside), List.getElem?_eq_none (by simpa using inside)]

section Variable

variable {width : Nat} (word : toU32 (Int32.ofNat width).toInt = width) (bounded : fifo.Bounded)
include word bounded

theorem peekVariable_short (short : fifo.size < width) :
    fifo.peekVariable width = some (List.replicate width 0, fifo) := by
  have refused := popInside_refused (word.symm ▸ short) bounded (some fun _ => 0) 1
  have zeros : Memory.slice (fun _ => (0 : UInt8)) 0 width = List.replicate width 0 := by
    rw [Memory.slice, List.map_const', List.length_range]
  rw [peekVariable, refused]
  simp [zeros]

theorem peekVariable_outside (stored : width ≤ fifo.size) (far : 2 ^ 32 ≤ fifo.readPos + width) :
    fifo.peekVariable width = none := by
  have outside := popInside_outside (word.symm ▸ stored) (word.symm ▸ far) bounded (fun _ => 0) 1
  rw [peekVariable, outside]
  rfl

theorem peekVariable_stored (positive : 0 < width) (stored : width ≤ fifo.size)
    (near : fifo.readPos + width < 2 ^ 32) :
    fifo.peekVariable width = some (fifo.contents.take width, fifo) := by
  have length : (fifo.contents.take width).length = width := by
    rw [List.length_take, contents_length]
    omega
  have read := slice_overwrite (fun _ => 0) (fifo.contents.take width)
  have accepted := @popInside_accepted fifo (Int32.ofNat width) (some fun _ => 0)
    (word.symm ▸ stored) (word.symm ▸ positive) (.inr (word.symm ▸ near)) bounded 1
  rw [length] at read
  rw [peekVariable, accepted, word]
  simp [read]

/-- A variable is filled unless the copy leaves the block. -/
theorem peekVariable_length {image : List UInt8} {next : IOFifo} (positive : 0 < width)
    (peeked : fifo.peekVariable width = some (image, next)) : image.length = width := by
  by_cases short : fifo.size < width
  · rw [peekVariable_short word bounded short] at peeked
    cases peeked
    exact List.length_replicate
  · by_cases near : fifo.readPos + width < 2 ^ 32
    · rw [peekVariable_stored word bounded positive (by omega) near] at peeked
      cases peeked
      rw [List.length_take, contents_length]
      omega
    · rw [peekVariable_outside word bounded (by omega) (by omega)] at peeked
      cases peeked

end Variable

theorem ofLittleEndian_zeros (width : Nat) : ofLittleEndian (List.replicate width 0) = 0 := by
  induction width with
  | zero => rfl
  | succ width ih =>
      rw [List.replicate_succ, ofLittleEndian, ih]
      rfl

theorem firstWord_short {width : Nat} (short : fifo.size < width) (endian : Endian) :
    firstWord endian width fifo.contents = 0 := by
  rw [firstWord, if_pos (by rwa [contents_length])]

theorem firstWord_stored {width : Nat} (stored : width ≤ fifo.size) (endian : Endian) :
    firstWord endian width fifo.contents = endian.decode (fifo.contents.take width) := by
  rw [firstWord, if_neg (by rw [contents_length]; omega)]

/-- In the order of the machine, a word is read right unless the copy leaves the
block. -/
theorem peekWord_little_iff {width : Nat} (word : toU32 (Int32.ofNat width).toInt = width)
    (positive : 0 < width) (bounded : fifo.Bounded) (order : List Nat) :
    peekWord width order fifo Endian.little.code =
        some (firstWord .little width fifo.contents, fifo) ↔
      fifo.size < width ∨ fifo.readPos + width < 2 ^ 32 := by
  have little : ¬ Endian.little.code = Endian.big.code := by decide
  by_cases short : fifo.size < width
  · rw [peekWord, peekVariable_short word bounded short, firstWord_short short]
    simp [little, ofLittleEndian_zeros, short]
  · by_cases near : fifo.readPos + width < 2 ^ 32
    · rw [peekWord, peekVariable_stored word bounded positive (by omega) near,
        firstWord_stored (by omega)]
      refine iff_of_true ?_ (.inr near)
      simp [little, Endian.decode]
    · rw [peekWord, peekVariable_outside word bounded (by omega) (by omega)]
      refine iff_of_false ?_ (by omega)
      simp

theorem inverseBytes_reverse {image : List UInt8} (length : image.length = 8) :
    inverseBytes [7, 6, 5, 4, 3, 2, 1, 0] image = some image.reverse := by
  match image, length with
  | [_, _, _, _, _, _, _, _], _ => rfl

/-- A quadword is read right in both orders unless the copy leaves the block. -/
theorem peekQword_iff (bounded : fifo.Bounded) (endian : Endian) :
    fifo.peekQword endian.code = some (firstWord endian 8 fifo.contents, fifo) ↔
      fifo.size < 8 ∨ fifo.readPos + 8 < 2 ^ 32 := by
  have word : toU32 (Int32.ofNat 8).toInt = 8 := by decide
  cases endian with
  | little => exact peekWord_little_iff word (by decide) bounded _
  | big =>
      rw [peekQword, peekWord]
      by_cases short : fifo.size < 8
      · rw [peekVariable_short word bounded short, firstWord_short short]
        refine iff_of_true ?_ (.inl short)
        rfl
      · by_cases near : fifo.readPos + 8 < 2 ^ 32
        · have length : (fifo.contents.take 8).length = 8 := by
            rw [List.length_take, contents_length]
            omega
          rw [peekVariable_stored word bounded (by decide) (by omega) near,
            firstWord_stored (by omega)]
          refine iff_of_true ?_ (.inr near)
          simp [inverseBytes_reverse length, Endian.decode, ofBigEndian]
        · rw [peekVariable_outside word bounded (by omega) (by omega)]
          refine iff_of_false ?_ (by omega)
          simp

/-- Reversing a doubleword reads four bytes behind it. -/
theorem peekDword_big (bounded : fifo.Bounded) : fifo.peekDword Endian.big.code = none := by
  rw [peekDword, peekWord]
  cases peeked : fifo.peekVariable 4 with
  | none => rfl
  | some result =>
      have length := peekVariable_length (by decide) bounded (by decide) peeked
      have behind : result.1[7]? = none := List.getElem?_eq_none (by omega)
      have undefined : inverseBytes [7, 6, 5, 4] result.1 = none := by
        rw [inverseBytes, List.mapM_cons, behind]
        rfl
      simp [undefined]

/-- The oldest byte is in its place exactly when the write position has it too. -/
theorem peekByte_iff (bounded : fifo.Bounded) (endian : Endian) :
    fifo.peekByte = some (firstWord endian 1 fifo.contents, fifo) ↔
      fifo.size = 0 ∨ fifo.buffer fifo.writePos = fifo.buffer fifo.readPos := by
  have sizeEq := bounded.size_eq
  rw [peekByte, ← size]
  by_cases empty : fifo.size = 0
  · rw [if_neg (by omega), firstWord_short (by omega)]
    simp [empty]
  · have readLt := bounded.readPos_lt.resolve_right fun zero => by omega
    have writeLt := bounded.writePos_lt.resolve_right fun zero => by omega
    have first : fifo.contents.take 1 = [fifo.buffer fifo.readPos] := by
      rw [contents, Memory.cyclic_take _ (by omega)]
      simp [Memory.cyclic, Nat.mod_eq_of_lt readLt]
    have value : endian.decode [fifo.buffer fifo.readPos] = (fifo.buffer fifo.readPos).toNat := by
      cases endian with
      | little => simp [Endian.decode, ofLittleEndian]
      | big => simp [Endian.decode, ofBigEndian, ofLittleEndian]
    rw [if_pos (by omega), if_pos writeLt, firstWord_stored (by omega), first, value,
      or_iff_right empty]
    simp [UInt8.toNat_inj]

/-- In every state of a buffer of every capacity, the typed peeks read the first
bytes of the queue exactly when they are asked for the order of the machine, the
byte at the write position is the oldest one, and the addresses behind the words
that are read are `unsigned int` values. -/
theorem typed_peeks_iff {capacity : Nat} (small : capacity < 2 ^ 32) (memory : Memory UInt8)
    (calls : List Call) {fifo : IOFifo}
    (reached : machine.run (new capacity memory) calls = some fifo) (endian : Endian) :
    fifo.PeeksFirst endian ↔
      endian = .little ∧
        (fifo.size = 0 ∨ fifo.buffer fifo.writePos = fifo.buffer fifo.readPos) ∧
        (fifo.size < 4 ∨ fifo.readPos + 4 < 2 ^ 32) ∧
        (fifo.size < 8 ∨ fifo.readPos + 8 < 2 ^ 32) := by
  have bounded := reached_bounded small reached
  have qword := peekQword_iff bounded endian
  have byte := peekByte_iff bounded endian
  cases endian with
  | little =>
      have dword := @peekWord_little_iff fifo 4 (by decide) (by decide) bounded [7, 6, 5, 4]
      constructor
      · intro peeks
        exact ⟨rfl, byte.mp peeks.byte, dword.mp peeks.dword, qword.mp peeks.qword⟩
      · rintro ⟨-, sameByte, nearDword, nearQword⟩
        exact ⟨qword.mpr nearQword, dword.mpr nearDword, byte.mpr sameByte⟩
  | big =>
      constructor
      · intro peeks
        have undefined := peekDword_big bounded
        rw [peeks.dword] at undefined
        cases undefined
      · intro condition
        cases condition.1

/-- A full buffer of eight bytes: the write position has come round to the oldest
byte. -/
theorem typed_peeks_full :
    PeeksFirst ((new 8 fun _ => 0).apply (.push (fun index => UInt8.ofNat index) 8)).2 .little :=
  (typed_peeks_iff (by decide) (fun _ => 0) [.push (fun index => UInt8.ofNat index) 8] rfl .little).mpr
    (by decide)

/-- Nine bytes pushed into a buffer of sixteen: `peekByte` sees the byte behind the
last one. -/
theorem peekByte_behind :
    ¬ PeeksFirst ((new 16 fun _ => 0).apply (.push (fun _ => 7) 9)).2 .little := by
  intro peeks
  have seen := congrArg (Option.map Prod.fst) peeks.byte
  exact absurd seen (by decide)

/-! ## The length `-1` -/

/-- The default length is larger than every content but one. -/
theorem pop_default_iff {capacity : Nat} (small : capacity < 2 ^ 32) (memory : Memory UInt8)
    (calls : List Call) {fifo : IOFifo}
    (reached : machine.run (new capacity memory) calls = some fifo) (dest : Option (Memory UInt8)) :
    fifo.TakesAll dest ↔ fifo.size = 2 ^ 32 - 1 ∧ (dest = none ∨ fifo.readPos = 0) := by
  have bounded := reached_bounded small reached
  have capacityLt := bounded.capacity_lt
  have sizeEq := bounded.size_eq
  have left := bounded.bytesLeft_le
  have word : toU32 (-1 : Int32).toInt = 2 ^ 32 - 1 := by decide
  constructor
  · intro takes
    have peeked := takes.peek
    by_cases full : fifo.size = 2 ^ 32 - 1
    · refine ⟨full, ?_⟩
      cases dest with
      | none => exact .inl rfl
      | some dst =>
          by_contra moved
          have far : 0 < fifo.readPos := by
            by_contra start
            exact moved (.inr (by omega))
          rw [popInside_outside (by omega) (by omega) bounded] at peeked
          cases peeked
    · rw [popInside_refused (by omega) bounded] at peeked
      cases peeked
  · rintro ⟨full, near⟩
    have whole : fifo.contents.take (toU32 (-1 : Int32).toInt) = fifo.contents := by
      rw [List.take_of_length_le]
      rw [contents_length]
      omega
    have accepted := @popInside_accepted fifo (-1) dest (by omega) (by omega)
      (near.imp_right fun start => by omega) bounded
    rw [whole] at accepted
    refine ⟨⟨_, ?_, accepted 0⟩, accepted 1⟩
    rw [if_pos rfl]
    apply List.eq_nil_of_length_eq_zero
    rw [contents_length]
    have empty : toU32 (fifo.capacity - toU32 (fifo.bytesLeft + (2 ^ 32 - 1 : Nat))) = 0 := by
      simp only [toU32]
      omega
    rwa [← word] at empty

/-- Three pushes fill the largest buffer that an `unsigned int` can describe. -/
def filled : IOFifo :=
  let first := ((new (2 ^ 32 - 1) fun _ => 0).apply (.push (fun _ => 1) 2147483647)).2
  let second := (first.apply (.push (fun _ => 2) 2147483647)).2
  (second.apply (.push (fun _ => 3) 1)).2

theorem pop_default_filled : filled.TakesAll (some fun _ => 0) :=
  (pop_default_iff (by decide) (fun _ => 0)
    [.push (fun _ => 1) 2147483647, .push (fun _ => 2) 2147483647, .push (fun _ => 3) 1] rfl _).mpr
    ⟨by decide +kernel, .inr (by decide +kernel)⟩

/-- Three bytes are stored in a buffer of four, and none is handed out. -/
theorem pop_default_refused :
    ¬ TakesAll ((new 4 fun _ => 0).apply (.push (fun _ => 7) 3)).2 (some fun _ => 0) := by
  intro takes
  have refused := @popInside_refused ((new 4 fun _ => 0).apply (.push (fun _ => 7) 3)).2 (-1)
    (by decide) (apply_bounded (new_bounded (by decide) _) _) (some fun _ => 0) 1
  rw [takes.peek] at refused
  cases refused

end IOFifo

end Tegenaria.LibIO
