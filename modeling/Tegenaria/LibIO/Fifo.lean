import Tegenaria.Foundation.Ring
import Tegenaria.Foundation.Transition
import Tegenaria.Foundation.Word

/-!
# The cyclic buffer of LibIO

`IOFifo` keeps a byte queue in one block of memory with a read position, a write
position and a counter of free bytes.  All three are `unsigned int`, while the
lengths passed to its methods are `int`; the comparisons and sums below are the
mixed 32-bit ones that the methods evaluate.

The second half of the module relates the buffer to a plain list queue.
-/

namespace Tegenaria.LibIO

open Foundation
open Foundation.Word

/-- The fields of `IOFifo`; the four counters are `unsigned int` values. -/
structure IOFifo where
  buffer : Memory UInt8
  bytesLeft : Nat
  capacity : Nat
  writePos : Nat
  readPos : Nat

namespace IOFifo

/-- The constructor.  `malloc` leaves the content of the block unspecified. -/
def new (capacity : Nat) (memory : Memory UInt8) : IOFifo where
  buffer := memory
  bytesLeft := capacity
  capacity
  writePos := 0
  readPos := 0

/-- `IOFifo::push`: the exit code and the buffer afterwards.  Every use of `len`
in the method is converted to `unsigned int` by its other operand. -/
def push (fifo : IOFifo) (source : Memory UInt8) (len : Int32) : Int × IOFifo :=
  let count := toU32 len.toInt
  if count > fifo.bytesLeft then
    (-1, fifo)
  else
    let buffer :=
      if toU32 (fifo.writePos + count) < fifo.capacity then
        fifo.buffer.copy fifo.writePos source 0 count
      else
        let bytesToEnd := toU32 (fifo.capacity - fifo.writePos)
        let overflow := toU32 (count - bytesToEnd) % fifo.capacity
        (fifo.buffer.copy fifo.writePos source 0 bytesToEnd).copy 0 source
          bytesToEnd overflow
    (0, { fifo with
      buffer
      writePos := toU32 (fifo.writePos + count) % fifo.capacity
      bytesLeft := toU32 (fifo.bytesLeft - count) })

/-- `IOFifo::pop`: the exit code, the destination block afterwards (`none` for
a NULL destination) and the buffer afterwards. -/
def pop (fifo : IOFifo) (dest : Option (Memory UInt8)) (len peekOnly : Int32) :
    Int × Option (Memory UInt8) × IOFifo :=
  let count := toU32 len.toInt
  if toU32 (fifo.capacity - fifo.bytesLeft) < count then
    (-1, dest, fifo)
  else
    let dest := dest.map fun dst =>
      if toU32 (fifo.readPos + count) < fifo.capacity then
        dst.copy 0 fifo.buffer fifo.readPos count
      else
        let bytesToEnd := toU32 (fifo.capacity - fifo.readPos)
        let overflow := toU32 (count - bytesToEnd) % fifo.capacity
        (dst.copy 0 fifo.buffer fifo.readPos bytesToEnd).copy bytesToEnd
          fifo.buffer 0 overflow
    if peekOnly = 0 then
      (0, dest, { fifo with
        readPos := toU32 (fifo.readPos + count) % fifo.capacity
        bytesLeft := toU32 (fifo.bytesLeft + count) })
    else
      (0, dest, fifo)

/-- `IOFifo::eat`: a pop without destination. -/
def eat (fifo : IOFifo) (len : Int32) : Int × IOFifo :=
  let (exitCode, _, next) := fifo.pop none len 0
  (exitCode, next)

/-- `IOFifo::peek`: a pop that does not move the read position. -/
def peek (fifo : IOFifo) (dest : Option (Memory UInt8)) (len : Int32) :
    Int × Option (Memory UInt8) × IOFifo :=
  fifo.pop dest len 1

/-- `IOFifo::size`, the number of stored bytes. -/
def size (fifo : IOFifo) : Nat := toU32 (fifo.capacity - fifo.bytesLeft)

/-- One call of the public interface; `peek` is `pop` with a non-zero flag. -/
inductive Call where
  | push (source : Memory UInt8) (len : Int32)
  | pop (dest : Option (Memory UInt8)) (len peekOnly : Int32)
  | eat (len : Int32)

/-- What the caller of one method observes. -/
structure Outcome where
  exitCode : Int
  dest : Option (Memory UInt8)

/-- Execute one call. -/
@[grind =] def apply (fifo : IOFifo) : Call → Outcome × IOFifo
  | .push source len =>
      let (exitCode, next) := fifo.push source len
      (⟨exitCode, none⟩, next)
  | .pop dest len peekOnly =>
      let (exitCode, dest, next) := fifo.pop dest len peekOnly
      (⟨exitCode, dest⟩, next)
  | .eat len =>
      let (exitCode, next) := fifo.eat len
      (⟨exitCode, none⟩, next)

/-- The buffer as a machine driven by calls. -/
def machine : Machine IOFifo Call where
  step fifo call := some (fifo.apply call).2

/-! ## The list queue -/

/-- Replace the first bytes of a block by a list. -/
def overwrite (block : Memory UInt8) (bytes : List UInt8) : Memory UInt8 :=
  fun address => bytes[address]?.getD (block address)

/-- Purpose of `push`: append `len` bytes, or refuse a negative length and a
length that exceeds the room left. -/
def queuePush (capacity : Nat) (queue : List UInt8) (source : Memory UInt8)
    (len : Int) : Int × List UInt8 :=
  if len < 0 ∨ capacity < queue.length + len.toNat then (-1, queue)
  else (0, queue ++ source.slice 0 len.toNat)

/-- Purpose of `pop` and `peek`: hand out the oldest `len` bytes, or refuse a
negative length and a length that exceeds the content. -/
def queuePop (queue : List UInt8) (dest : Option (Memory UInt8)) (len : Int)
    (keep : Bool) : Int × Option (Memory UInt8) × List UInt8 :=
  if len < 0 ∨ queue.length < len.toNat then (-1, dest, queue)
  else (0, dest.map (overwrite · (queue.take len.toNat)),
    if keep then queue else queue.drop len.toNat)

/-- One call on a list queue of at most `capacity` bytes. -/
@[grind =] def queueApply (capacity : Nat) (queue : List UInt8) :
    Call → Outcome × List UInt8
  | .push source len =>
      let (exitCode, next) := queuePush capacity queue source len.toInt
      (⟨exitCode, none⟩, next)
  | .pop dest len peekOnly =>
      let (exitCode, dest, next) :=
        queuePop queue dest len.toInt (decide (peekOnly ≠ 0))
      (⟨exitCode, dest⟩, next)
  | .eat len =>
      let (exitCode, _, next) := queuePop queue none len.toInt false
      (⟨exitCode, none⟩, next)

/-- Representation invariant of the buffer. -/
structure WellFormed (fifo : IOFifo) : Prop where
  capacity_pos : 0 < fifo.capacity
  capacity_le : fifo.capacity ≤ 2 ^ 31
  readPos_lt : fifo.readPos < fifo.capacity
  writePos_lt : fifo.writePos < fifo.capacity
  bytesLeft_le : fifo.bytesLeft ≤ fifo.capacity
  writePos_eq : fifo.writePos = (fifo.readPos + fifo.size) % fifo.capacity

/-- The queue stored in a buffer, oldest byte first. -/
def contents (fifo : IOFifo) : List UInt8 :=
  fifo.buffer.cyclic fifo.capacity fifo.readPos fifo.size

/-- The buffer answers a whole sequence of calls as the list queue does: every
outcome is the same, a refused call changes nothing, and the representation
invariant holds before and after every call. -/
def Tracks : IOFifo → List UInt8 → List Call → Prop
  | fifo, _, [] => fifo.WellFormed
  | fifo, queue, call :: calls =>
      fifo.WellFormed ∧
      (fifo.apply call).1 = (queueApply fifo.capacity queue call).1 ∧
      ((fifo.apply call).1.exitCode ≠ 0 → (fifo.apply call).2 = fifo) ∧
      Tracks (fifo.apply call).2 (queueApply fifo.capacity queue call).2 calls

/-- The one length whose sign the mixed comparison does not see: `INT_MIN`
equals `2 ^ 31` as an `unsigned int` and is accepted when exactly that many
bytes are free (for a push) or stored (for a pop). -/
def Slips (fifo : IOFifo) : Call → Prop
  | .push _ len => len.toInt = -2 ^ 31 ∧ fifo.bytesLeft = 2 ^ 31
  | .pop _ len _ => len.toInt = -2 ^ 31 ∧ fifo.size = 2 ^ 31
  | .eat len => len.toInt = -2 ^ 31 ∧ fifo.size = 2 ^ 31

/-! ## One call -/

variable {fifo : IOFifo}

theorem WellFormed.size_eq (wf : fifo.WellFormed) :
    fifo.size = fifo.capacity - fifo.bytesLeft := by
  have := wf.capacity_le
  have := wf.bytesLeft_le
  simp only [size, toU32]
  omega

@[simp] theorem contents_length (fifo : IOFifo) :
    fifo.contents.length = fifo.size := by
  simp [contents]

/-- Apart from the slip, the unsigned test against a count of at most `2 ^ 31`
bytes refuses exactly the negative and the excessive lengths. -/
theorem refused_iff (len : Int32) {available : Nat} (bounded : available ≤ 2 ^ 31)
    (noSlip : ¬(len.toInt = -2 ^ 31 ∧ available = 2 ^ 31)) :
    available < toU32 len.toInt ↔ len.toInt < 0 ∨ available < len.toInt.toNat := by
  have lower := len.le_toInt
  have upper := len.toInt_lt
  simp only [toU32]
  omega

/-- An accepted length is its own conversion. -/
theorem accepted_count {len : Int32} {available : Nat}
    (accepted : ¬(len.toInt < 0 ∨ available < len.toInt.toNat)) :
    toU32 len.toInt = len.toInt.toNat ∧ len.toInt.toNat ≤ available ∧
      len.toInt.toNat < 2 ^ 31 := by
  have upper := len.toInt_lt
  simp only [toU32]
  omega

/-- The two ways in which `push` copies amount to one split store. -/
theorem push_buffer (wf : fifo.WellFormed) (source : Memory UInt8) {count : Nat}
    (fits : count ≤ fifo.bytesLeft) (small : count < 2 ^ 31) :
    (if toU32 (fifo.writePos + count) < fifo.capacity then
        fifo.buffer.copy fifo.writePos source 0 count
      else
        (fifo.buffer.copy fifo.writePos source 0
            (toU32 (fifo.capacity - fifo.writePos))).copy 0 source
          (toU32 (fifo.capacity - fifo.writePos))
          (toU32 (count - toU32 (fifo.capacity - fifo.writePos)) %
            fifo.capacity)) =
      fifo.buffer.storeCyclic fifo.capacity fifo.writePos source count := by
  have capacityLe := wf.capacity_le
  have writeLt := wf.writePos_lt
  have leftLe := wf.bytesLeft_le
  have sum : toU32 (fifo.writePos + count) = fifo.writePos + count := by
    simp only [toU32]
    omega
  have toEnd : toU32 (fifo.capacity - fifo.writePos) =
      fifo.capacity - fifo.writePos := by
    simp only [toU32]
    omega
  rw [sum, toEnd, Memory.storeCyclic]
  split
  next inside => rfl
  next beyond =>
    have rest : toU32 (count - (fifo.capacity - fifo.writePos : Nat)) %
        fifo.capacity = count - (fifo.capacity - fifo.writePos) := by
      rw [Nat.mod_eq_of_lt] <;> simp only [toU32] <;> omega
    rw [rest]

/-- The two ways in which `pop` copies store the oldest bytes at the start of
the destination, as long as the end of the copy is an `unsigned int`. -/
theorem pop_dest_of_sum (dst : Memory UInt8) {count : Nat} (readLt : fifo.readPos < fifo.capacity)
    (fits : count ≤ fifo.size) (stored : fifo.size ≤ fifo.capacity)
    (capacityLt : fifo.capacity < 2 ^ 32) (small : fifo.readPos + count < 2 ^ 32) :
    (if toU32 (fifo.readPos + count) < fifo.capacity then
        dst.copy 0 fifo.buffer fifo.readPos count
      else
        (dst.copy 0 fifo.buffer fifo.readPos
            (toU32 (fifo.capacity - fifo.readPos))).copy
          (toU32 (fifo.capacity - fifo.readPos)) fifo.buffer 0
          (toU32 (count - toU32 (fifo.capacity - fifo.readPos)) %
            fifo.capacity)) =
      overwrite dst (fifo.contents.take count) := by
  have sum : toU32 (fifo.readPos + count) = fifo.readPos + count := by
    simp only [toU32]
    omega
  have toEnd : toU32 (fifo.capacity - fifo.readPos) =
      fifo.capacity - fifo.readPos := by
    simp only [toU32]
    omega
  funext address
  rw [sum, toEnd, overwrite, contents, Memory.cyclic_take _ fits]
  split
  next inside =>
    rw [Memory.cyclic_inside _ (by omega)]
    by_cases within : address < count
    · simp [Memory.copy, Memory.slice, within]
    · simp [Memory.copy, Memory.slice, within]
  next beyond =>
    have rest : toU32 (count - (fifo.capacity - fifo.readPos : Nat)) %
        fifo.capacity = count - (fifo.capacity - fifo.readPos) := by
      rw [Nat.mod_eq_of_lt] <;> simp only [toU32] <;> omega
    rw [rest, Memory.cyclic_wrap _ readLt (by omega) (by omega)]
    by_cases first : address < fifo.capacity - fifo.readPos
    · rw [Memory.copy_outside _ _ (Or.inl first),
        List.getElem?_append_left (by simpa using first),
        Memory.slice_getElem? _ first]
      simp [Memory.copy, first]
    · by_cases within : address < count
      · simp only [Memory.copy]
        rw [if_pos (by omega), List.getElem?_append_right (by simp; omega),
          Memory.slice_length, Memory.slice_getElem? _ (by omega)]
        rfl
      · rw [Memory.copy_outside _ _ (by omega),
          Memory.copy_outside _ _ (by omega), List.getElem?_eq_none]
        · rfl
        · simp
          omega

theorem pop_dest (wf : fifo.WellFormed) (dst : Memory UInt8) {count : Nat}
    (fits : count ≤ fifo.size) (small : count < 2 ^ 31) :
    (if toU32 (fifo.readPos + count) < fifo.capacity then
        dst.copy 0 fifo.buffer fifo.readPos count
      else
        (dst.copy 0 fifo.buffer fifo.readPos
            (toU32 (fifo.capacity - fifo.readPos))).copy
          (toU32 (fifo.capacity - fifo.readPos)) fifo.buffer 0
          (toU32 (count - toU32 (fifo.capacity - fifo.readPos)) %
            fifo.capacity)) =
      overwrite dst (fifo.contents.take count) := by
  have capacityLe := wf.capacity_le
  have readLt := wf.readPos_lt
  have sizeEq := wf.size_eq
  exact pop_dest_of_sum dst readLt fits (by omega) (by omega) (by omega)

/-- What one call guarantees when the buffer stores `queue`. -/
structure Step (fifo : IOFifo) (call : Call) : Prop where
  outcome : (fifo.apply call).1 =
    (queueApply fifo.capacity fifo.contents call).1
  contents : (fifo.apply call).2.contents =
    (queueApply fifo.capacity fifo.contents call).2
  unchanged : (fifo.apply call).1.exitCode ≠ 0 → (fifo.apply call).2 = fifo
  wellFormed : (fifo.apply call).2.WellFormed
  capacity : (fifo.apply call).2.capacity = fifo.capacity

theorem Step.of_eq {call : Call} {outcome : Outcome} {next : IOFifo}
    (result : fifo.apply call = (outcome, next))
    (expected : queueApply fifo.capacity fifo.contents call = (outcome, next.contents))
    (unchanged : outcome.exitCode ≠ 0 → next = fifo) (wellFormed : next.WellFormed)
    (capacity : next.capacity = fifo.capacity) : fifo.Step call := by
  constructor <;> rw [result]
  · rw [expected]
  · rw [expected]
  · exact unchanged
  · exact wellFormed
  · exact capacity

/-- A call that leaves the buffer and the queue as they are. -/
theorem Step.of_same (wf : fifo.WellFormed) {call : Call} {outcome : Outcome}
    (result : fifo.apply call = (outcome, fifo))
    (expected : queueApply fifo.capacity fifo.contents call = (outcome, fifo.contents)) :
    fifo.Step call :=
  .of_eq result expected (fun _ => rfl) wf rfl

/-! ## Calls that are accepted -/

/-- The buffer after bytes were stored. -/
def afterPush (fifo : IOFifo) (source : Memory UInt8) (count : Nat) : IOFifo :=
  { fifo with
    buffer := fifo.buffer.storeCyclic fifo.capacity fifo.writePos source count
    writePos := (fifo.writePos + count) % fifo.capacity
    bytesLeft := fifo.bytesLeft - count }

/-- The buffer after bytes were taken. -/
def afterPop (fifo : IOFifo) (count : Nat) : IOFifo :=
  { fifo with
    readPos := (fifo.readPos + count) % fifo.capacity
    bytesLeft := fifo.bytesLeft + count }

section Accepted

variable (wf : fifo.WellFormed) {count : Nat}
include wf

theorem afterPush_size (source : Memory UInt8) (fits : count ≤ fifo.bytesLeft) :
    (fifo.afterPush source count).size = fifo.size + count := by
  have capacityLe := wf.capacity_le
  have leftLe := wf.bytesLeft_le
  have sizeEq := wf.size_eq
  change toU32 (fifo.capacity - (fifo.bytesLeft - count : Nat)) = fifo.size + count
  simp only [toU32]
  omega

theorem afterPush_contents (source : Memory UInt8) (fits : count ≤ fifo.bytesLeft) :
    (fifo.afterPush source count).contents = fifo.contents ++ source.slice 0 count := by
  have leftLe := wf.bytesLeft_le
  have sizeEq := wf.size_eq
  rw [contents, contents, afterPush_size wf source fits]
  simp only [afterPush]
  rw [wf.writePos_eq]
  exact Memory.cyclic_storeCyclic _ _ wf.readPos_lt (by omega)

theorem afterPush_wellFormed (source : Memory UInt8) (fits : count ≤ fifo.bytesLeft) :
    (fifo.afterPush source count).WellFormed where
  capacity_pos := wf.capacity_pos
  capacity_le := wf.capacity_le
  readPos_lt := wf.readPos_lt
  writePos_lt := Nat.mod_lt _ wf.capacity_pos
  bytesLeft_le := (Nat.sub_le _ _).trans wf.bytesLeft_le
  writePos_eq := by
    rw [afterPush_size wf source fits]
    simp only [afterPush]
    rw [wf.writePos_eq, Nat.mod_add_mod, Nat.add_assoc]

theorem afterPop_size (fits : count ≤ fifo.size) : (fifo.afterPop count).size = fifo.size - count := by
  have capacityLe := wf.capacity_le
  have leftLe := wf.bytesLeft_le
  have sizeEq := wf.size_eq
  change toU32 (fifo.capacity - (fifo.bytesLeft + count : Nat)) = fifo.size - count
  simp only [toU32]
  omega

theorem afterPop_contents (fits : count ≤ fifo.size) :
    (fifo.afterPop count).contents = fifo.contents.drop count := by
  rw [contents, contents, afterPop_size wf fits]
  exact (Memory.cyclic_drop _ fits).symm

theorem afterPop_wellFormed (fits : count ≤ fifo.size) : (fifo.afterPop count).WellFormed where
  capacity_pos := wf.capacity_pos
  capacity_le := wf.capacity_le
  readPos_lt := Nat.mod_lt _ wf.capacity_pos
  writePos_lt := wf.writePos_lt
  bytesLeft_le := by
    have leftLe := wf.bytesLeft_le
    have sizeEq := wf.size_eq
    change fifo.bytesLeft + count ≤ fifo.capacity
    omega
  writePos_eq := by
    rw [afterPop_size wf fits]
    simp only [afterPop]
    rw [Nat.mod_add_mod, Nat.add_assoc, Nat.add_sub_cancel' fits]
    exact wf.writePos_eq

end Accepted

theorem step_push (wf : fifo.WellFormed) (source : Memory UInt8) (len : Int32)
    (noSlip : ¬fifo.Slips (.push source len)) :
    fifo.Step (.push source len) := by
  have capacityLe := wf.capacity_le
  have writeLt := wf.writePos_lt
  have leftLe := wf.bytesLeft_le
  have sizeEq := wf.size_eq
  have refusal := refused_iff len (leftLe.trans capacityLe) noSlip
  have room : (len.toInt < 0 ∨ fifo.capacity < fifo.contents.length +
      len.toInt.toNat) ↔ (len.toInt < 0 ∨ fifo.bytesLeft < len.toInt.toNat) := by
    rw [contents_length]
    omega
  by_cases refused : len.toInt < 0 ∨ fifo.bytesLeft < len.toInt.toNat
  · have result : fifo.apply (.push source len) = (⟨-1, none⟩, fifo) := by
      simp only [apply, push]
      rw [if_pos (refusal.mpr refused)]
    have expected : queueApply fifo.capacity fifo.contents (.push source len) =
        (⟨-1, none⟩, fifo.contents) := by
      simp only [queueApply, queuePush]
      rw [if_pos (room.mpr refused)]
    exact .of_same wf result expected
  · obtain ⟨countEq, countLe, countLt⟩ := accepted_count refused
    have result : fifo.apply (.push source len) =
        (⟨0, none⟩, fifo.afterPush source len.toInt.toNat) := by
      have sum : toU32 (fifo.writePos + len.toInt.toNat) =
          fifo.writePos + len.toInt.toNat := by
        simp only [toU32]
        omega
      have left : toU32 (fifo.bytesLeft - len.toInt.toNat) =
          fifo.bytesLeft - len.toInt.toNat := by
        simp only [toU32]
        omega
      simp only [apply, push]
      rw [if_neg (refusal.not.mpr refused), countEq,
        push_buffer wf source countLe countLt, sum, left]
      rfl
    have expected : queueApply fifo.capacity fifo.contents (.push source len) =
        (⟨0, none⟩, (fifo.afterPush source len.toInt.toNat).contents) := by
      simp only [queueApply, queuePush]
      rw [if_neg (room.not.mpr refused), afterPush_contents wf source countLe]
    exact .of_eq result expected (fun failed => absurd rfl failed)
      (afterPush_wellFormed wf source countLe) rfl

theorem step_pop (wf : fifo.WellFormed) (dest : Option (Memory UInt8))
    (len peekOnly : Int32) (noSlip : ¬fifo.Slips (.pop dest len peekOnly)) :
    fifo.Step (.pop dest len peekOnly) := by
  have capacityLe := wf.capacity_le
  have readLt := wf.readPos_lt
  have leftLe := wf.bytesLeft_le
  have sizeEq := wf.size_eq
  have stored : toU32 (fifo.capacity - fifo.bytesLeft) = fifo.size := rfl
  have refusal := refused_iff len (by omega : fifo.size ≤ 2 ^ 31) noSlip
  by_cases refused : len.toInt < 0 ∨ fifo.size < len.toInt.toNat
  · have result : fifo.apply (.pop dest len peekOnly) = (⟨-1, dest⟩, fifo) := by
      simp only [apply, pop, stored]
      rw [if_pos (refusal.mpr refused)]
    have expected : queueApply fifo.capacity fifo.contents
        (.pop dest len peekOnly) = (⟨-1, dest⟩, fifo.contents) := by
      simp only [queueApply, queuePop, contents_length]
      rw [if_pos refused]
    exact .of_same wf result expected
  · obtain ⟨countEq, countLe, countLt⟩ := accepted_count refused
    have expected : queueApply fifo.capacity fifo.contents
        (.pop dest len peekOnly) =
        (⟨0, dest.map (overwrite · (fifo.contents.take len.toInt.toNat))⟩,
          if peekOnly ≠ 0 then fifo.contents
          else fifo.contents.drop len.toInt.toNat) := by
      simp only [queueApply, queuePop, contents_length]
      rw [if_neg refused]
      simp only [decide_eq_true_eq]
    have copied : (dest.map fun dst =>
        if toU32 (fifo.readPos + toU32 len.toInt) < fifo.capacity then
          dst.copy 0 fifo.buffer fifo.readPos (toU32 len.toInt)
        else
          (dst.copy 0 fifo.buffer fifo.readPos
              (toU32 (fifo.capacity - fifo.readPos))).copy
            (toU32 (fifo.capacity - fifo.readPos)) fifo.buffer 0
            (toU32 (toU32 len.toInt - toU32 (fifo.capacity - fifo.readPos)) %
              fifo.capacity)) =
        dest.map (overwrite · (fifo.contents.take len.toInt.toNat)) := by
      rw [countEq]
      congr 1
      funext dst
      exact pop_dest wf dst countLe countLt
    by_cases peeking : peekOnly = 0
    · have result : fifo.apply (.pop dest len peekOnly) =
          (⟨0, dest.map (overwrite · (fifo.contents.take len.toInt.toNat))⟩,
            fifo.afterPop len.toInt.toNat) := by
        have sum : toU32 (fifo.readPos + len.toInt.toNat) =
            fifo.readPos + len.toInt.toNat := by
          simp only [toU32]
          omega
        have left : toU32 (fifo.bytesLeft + len.toInt.toNat) =
            fifo.bytesLeft + len.toInt.toNat := by
          simp only [toU32]
          omega
        simp only [apply, pop, stored]
        rw [if_neg (refusal.not.mpr refused), if_pos peeking, copied, countEq, sum,
          left]
        rfl
      rw [if_neg (not_not.mpr peeking), ← afterPop_contents wf countLe] at expected
      exact .of_eq result expected (fun failed => absurd rfl failed)
        (afterPop_wellFormed wf countLe) rfl
    · have result : fifo.apply (.pop dest len peekOnly) =
          (⟨0, dest.map (overwrite · (fifo.contents.take len.toInt.toNat))⟩,
            fifo) := by
        simp only [apply, pop, stored]
        rw [if_neg (refusal.not.mpr refused), if_neg peeking, copied]
      rw [if_pos peeking] at expected
      exact .of_same wf result expected

/-- `eat` is `pop` without destination, for the buffer and for the queue. -/
theorem step_eat (wf : fifo.WellFormed) (len : Int32)
    (noSlip : ¬fifo.Slips (.eat len)) : fifo.Step (.eat len) := by
  have popped := step_pop wf none len 0 noSlip
  have same : fifo.apply (.eat len) =
      (⟨(fifo.apply (.pop none len 0)).1.exitCode, none⟩,
        (fifo.apply (.pop none len 0)).2) := rfl
  have sameQueue : queueApply fifo.capacity fifo.contents (.eat len) =
      (⟨(queueApply fifo.capacity fifo.contents (.pop none len 0)).1.exitCode, none⟩,
        (queueApply fifo.capacity fifo.contents (.pop none len 0)).2) := rfl
  refine .of_eq same ?_ popped.unchanged popped.wellFormed popped.capacity
  rw [sameQueue, popped.outcome, popped.contents]

/-- Every call that does not slip is answered as the queue answers it. -/
theorem step_of_not_slips (wf : fifo.WellFormed) {call : Call}
    (noSlip : ¬fifo.Slips call) : fifo.Step call := by
  cases call with
  | push source len => exact step_push wf source len noSlip
  | pop dest len peekOnly => exact step_pop wf dest len peekOnly noSlip
  | eat len => exact step_eat wf len noSlip

/-- A call that slips succeeds where the queue refuses it. -/
theorem outcome_of_slips {call : Call}
    (slips : fifo.Slips call) :
    (fifo.apply call).1 ≠ (queueApply fifo.capacity fifo.contents call).1 := by
  have word : toU32 (-2 ^ 31) = 2 ^ 31 := by decide
  have accepted {len : Int32} (least : len.toInt = -2 ^ 31)
      (full : fifo.size = 2 ^ 31) :
      ¬toU32 (fifo.capacity - fifo.bytesLeft) < toU32 len.toInt := by
    rw [least, word, show toU32 (fifo.capacity - fifo.bytesLeft) = 2 ^ 31 from full]
    exact lt_irrefl _
  intro same
  replace same := congrArg Outcome.exitCode same
  cases call with
  | push source len =>
      obtain ⟨least, free⟩ := slips
      simp only [apply, push, queueApply, queuePush, least, word, free] at same
      simp at same
  | pop dest len peekOnly =>
      obtain ⟨least, full⟩ := slips
      simp only [apply, pop, queueApply, queuePop, if_neg (accepted least full)] at same
      by_cases peeking : peekOnly = 0
      · simp [least, peeking] at same
      · simp [least, peeking] at same
  | eat len =>
      obtain ⟨least, full⟩ := slips
      simp only [apply, eat, pop, queueApply, queuePop,
        if_neg (accepted least full)] at same
      simp [least] at same

/-! ## Whole sequences of calls -/

theorem new_wellFormed {capacity : Nat} (positive : 0 < capacity)
    (bounded : capacity ≤ 2 ^ 31) (memory : Memory UInt8) :
    (new capacity memory).WellFormed := by
  have empty : (new capacity memory).size = 0 := by
    simp [size, new, toU32]
  exact
    { capacity_pos := positive
      capacity_le := bounded
      readPos_lt := positive
      writePos_lt := positive
      bytesLeft_le := le_refl _
      writePos_eq := by
        rw [empty]
        simp [new] }

@[simp] theorem new_contents (capacity : Nat) (memory : Memory UInt8) :
    (new capacity memory).contents = [] := by
  simp [contents, size, new, toU32, Memory.cyclic]

/-- From any consistent state, the buffer tracks its own content through a
sequence of calls exactly when no call of the sequence slips. -/
theorem tracks_contents_iff (wf : fifo.WellFormed) (calls : List Call) :
    fifo.Tracks fifo.contents calls ↔
      machine.AllSteps (fun state call => ¬state.Slips call) fifo calls := by
  induction calls generalizing fifo with
  | nil => exact ⟨fun _ => trivial, fun _ => wf⟩
  | cons call calls ih =>
      constructor
      · rintro ⟨_, outcome, _, rest⟩
        have noSlip : ¬fifo.Slips call := fun slips =>
          outcome_of_slips slips outcome
        have step := step_of_not_slips wf noSlip
        refine ⟨noSlip, fun next stepped => ?_⟩
        cases stepped
        rw [← step.contents] at rest
        exact (ih step.wellFormed).mp rest
      · rintro ⟨noSlip, later⟩
        have step := step_of_not_slips wf noSlip
        refine ⟨wf, step.outcome, step.unchanged, ?_⟩
        rw [← step.contents]
        exact (ih step.wellFormed).mpr (later _ rfl)

/-- A buffer of `1` to `2 ^ 31` bytes behaves as a list queue of that many bytes
on a sequence of calls exactly when no call of the sequence has the length
`INT_MIN` while exactly `2 ^ 31` bytes are free for it (push) or stored (pop,
peek, eat).  The lengths are arbitrary; the `-1` by which `pop` documents a
request for everything is refused like every other negative length. -/
theorem new_tracks_iff {capacity : Nat} (positive : 1 ≤ capacity)
    (bounded : capacity ≤ 2 ^ 31) (memory : Memory UInt8) (calls : List Call) :
    (new capacity memory).Tracks [] calls ↔
      machine.AllSteps (fun state call => ¬state.Slips call)
        (new capacity memory) calls := by
  have wf := new_wellFormed positive bounded memory
  have tracked := tracks_contents_iff wf calls
  rwa [new_contents] at tracked

/-- Three bytes in, two out, three in: the second push runs over the end of a
block of four bytes. -/
theorem new_tracks_wrapping_calls :
    (new 4 fun _ => 0).Tracks [] [.push (fun _ => 7) 3,
      .pop (some fun _ => 0) 2 0, .push (fun _ => 9) 3, .eat (-5)] := by
  refine (new_tracks_iff (by decide) (by decide) _ _).mpr ?_
  refine ⟨by rintro ⟨h, _⟩; revert h; decide, fun first stepped => ?_⟩
  cases stepped
  refine ⟨by rintro ⟨h, _⟩; revert h; decide, fun second stepped => ?_⟩
  cases stepped
  refine ⟨by rintro ⟨h, _⟩; revert h; decide, fun third stepped => ?_⟩
  cases stepped
  exact ⟨by rintro ⟨h, _⟩; revert h; decide, fun _ _ => trivial⟩

/-- A fresh buffer of `2 ^ 31` bytes accepts a push of `INT_MIN` bytes. -/
theorem new_accepts_least_length :
    ¬(new (2 ^ 31) fun _ => 0).Tracks [] [.push (fun _ => 0) (-2147483648)] := by
  rintro ⟨_, outcome, _⟩
  have accepted : ((new (2 ^ 31) fun _ => 0).apply
      (.push (fun _ => 0) (-2147483648))).1.exitCode = 0 := by decide
  rw [outcome] at accepted
  revert accepted
  decide

end IOFifo

end Tegenaria.LibIO
