import Mathlib.Data.List.Range
import Mathlib.Logic.Function.Basic

/-!
# Flat memory

A block of memory is a total map from offsets to bytes.  Programs that stay
inside a block can therefore be modelled without carrying its size, and the
bytes they read are extracted as lists.
-/

namespace Foundation

universe u

/-- A block of cells addressed from its start. -/
abbrev Memory (Cell : Type u) := Nat → Cell

namespace Memory

variable {Cell : Type u}

/-- The `count` cells from `start` on, in address order. -/
def slice (memory : Memory Cell) (start count : Nat) : List Cell :=
  (List.range count).map fun offset => memory (start + offset)

/-- A block that starts with the given cells. -/
def ofList (filler : Cell) (cells : List Cell) : Memory Cell :=
  fun address => cells.getD address filler

/-- Store `count` cells of `source`, read from `from`, at `target`.  The cells
are taken from the memory before the copy, which is what a copy running upwards
does whenever the target does not lie above the source. -/
def copy (memory : Memory Cell) (target : Nat) (source : Memory Cell)
    (origin count : Nat) : Memory Cell :=
  fun address =>
    if target ≤ address ∧ address < target + count then
      source (origin + (address - target))
    else
      memory address

/-- Store the given cells from `start` on. -/
@[grind =] def store (memory : Memory Cell) (start : Nat) (cells : List Cell) : Memory Cell :=
  fun address => if start ≤ address then cells.getD (address - start) (memory address) else memory address

@[simp] theorem slice_length (memory : Memory Cell) (start count : Nat) :
    (memory.slice start count).length = count := by
  simp [slice]

@[simp] theorem slice_zero (memory : Memory Cell) (start : Nat) : memory.slice start 0 = [] := rfl

theorem slice_getElem? (memory : Memory Cell) {start count index : Nat}
    (inside : index < count) :
    (memory.slice start count)[index]? = some (memory (start + index)) := by
  simp [slice, inside]

/-- Two slices agree when the cells they read agree. -/
theorem slice_congr {left right : Memory Cell} {leftStart rightStart count : Nat}
    (agree : ∀ index < count,
      left (leftStart + index) = right (rightStart + index)) :
    left.slice leftStart count = right.slice rightStart count := by
  apply List.map_congr_left
  intro index member
  exact agree index (List.mem_range.mp member)

/-- Adjacent slices concatenate. -/
theorem slice_append (memory : Memory Cell) (start first second : Nat) :
    memory.slice start (first + second) =
      memory.slice start first ++ memory.slice (start + first) second := by
  simp only [slice, List.range_add, List.map_append, List.map_map]
  congr 1
  apply List.map_congr_left
  intro index _
  simp [Nat.add_assoc]

/-- The front part of a slice is a shorter slice. -/
theorem slice_take (memory : Memory Cell) (start : Nat) {count kept : Nat}
    (shorter : kept ≤ count) :
    (memory.slice start count).take kept = memory.slice start kept := by
  obtain ⟨others, rfl⟩ := Nat.exists_eq_add_of_le shorter
  rw [slice_append, List.take_append_of_le_length (by simp),
    List.take_of_length_le (by simp)]

/-- What follows the front part of a slice is a slice again. -/
theorem slice_drop (memory : Memory Cell) (start : Nat) {count skipped : Nat}
    (shorter : skipped ≤ count) :
    (memory.slice start count).drop skipped =
      memory.slice (start + skipped) (count - skipped) := by
  obtain ⟨others, rfl⟩ := Nat.exists_eq_add_of_le shorter
  rw [slice_append, List.drop_append_of_le_length (by simp),
    List.drop_of_length_le (by simp), List.nil_append, Nat.add_sub_cancel_left]

/-- Reading back the cells a block was made of. -/
theorem slice_ofList (filler : Cell) (cells : List Cell) :
    (ofList filler cells).slice 0 cells.length = cells := by
  apply List.ext_getElem?
  intro index
  by_cases inside : index < cells.length
  · rw [slice_getElem? _ inside]
    simp [ofList, inside]
  · simp [slice, inside]

theorem copy_inside (memory source : Memory Cell)
    {target origin count index : Nat} (inside : index < count) :
    memory.copy target source origin count (target + index) =
      source (origin + index) := by
  simp [copy, inside]

theorem copy_outside (memory source : Memory Cell)
    {target origin count address : Nat}
    (outside : address < target ∨ target + count ≤ address) :
    memory.copy target source origin count address = memory address := by
  simp only [copy]
  rw [if_neg]
  omega

/-- Reading back what was just copied. -/
theorem slice_copy (memory source : Memory Cell) (target origin count : Nat) :
    (memory.copy target source origin count).slice target count =
      source.slice origin count :=
  slice_congr fun _ inside => copy_inside memory source inside

/-- A copy does not disturb a slice it does not touch. -/
theorem slice_copy_disjoint (memory source : Memory Cell)
    {target origin count start size : Nat}
    (disjoint : start + size ≤ target ∨ target + count ≤ start) :
    (memory.copy target source origin count).slice start size =
      memory.slice start size := by
  apply slice_congr
  intro index inside
  apply copy_outside
  omega

@[simp] theorem store_nil (memory : Memory Cell) (start : Nat) : memory.store start [] = memory := by
  funext address
  simp [store]

/-- A cell that is stored alone is the first of those behind it. -/
theorem store_update (memory : Memory Cell) (start : Nat) (cell : Cell) (cells : List Cell) :
    store (Function.update memory start cell) (start + 1) cells = memory.store start (cell :: cells) := by
  funext address
  rcases Nat.lt_trichotomy address start with less | rfl | greater
  · simp [store, Nat.not_le.mpr less, Nat.not_le.mpr (Nat.lt_succ_of_lt less), Nat.ne_of_lt less]
  · simp [store]
  · obtain ⟨more, rfl⟩ := Nat.exists_eq_add_of_lt greater
    have behind : start + more + 1 - start = more + 1 := by omega
    simp [store, behind, Nat.ne_of_gt greater]
    omega

theorem store_outside (memory : Memory Cell) {start address : Nat} {cells : List Cell}
    (outside : start + cells.length ≤ address) : memory.store start cells address = memory address := by
  rw [store]
  split
  · rw [List.getD_eq_getElem?_getD, List.getElem?_eq_none (by omega)]
    rfl
  · rfl

/-- Reading back what was just stored. -/
theorem slice_store (memory : Memory Cell) (start : Nat) (cells : List Cell) :
    (memory.store start cells).slice start cells.length = cells := by
  apply List.ext_getElem?
  intro index
  by_cases inside : index < cells.length
  · rw [slice_getElem? _ inside]
    simp [store, inside]
  · simp [slice, inside]

end Memory

end Foundation
