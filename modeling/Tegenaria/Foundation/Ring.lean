import Tegenaria.Foundation.Memory

/-!
# Cyclic use of a memory block

A ring of `size` cells stores a sequence that may run over the end of the block
and continue at its start.  The module relates the cyclic reading of a block to
plain slices and describes a store that is split at the end of the block.
-/

namespace Foundation.Memory

universe u

variable {Cell : Type u}

/-- One turn around a ring: the residue of a position below twice its size. -/
theorem mod_ring {position size : Nat} (bounded : position < 2 * size) :
    position % size = if position < size then position else position - size := by
  split
  next below => exact Nat.mod_eq_of_lt below
  next above =>
    rw [Nat.mod_eq_sub_mod (by omega)]
    exact Nat.mod_eq_of_lt (by omega)

/-- The `count` cells from `start` on, continuing at the start of the block
after its last cell. -/
def cyclic (memory : Memory Cell) (size start count : Nat) : List Cell :=
  (List.range count).map fun offset => memory ((start + offset) % size)

@[simp] theorem cyclic_length (memory : Memory Cell) (size start count : Nat) :
    (memory.cyclic size start count).length = count := by
  simp [cyclic]

theorem cyclic_congr {left right : Memory Cell} {size start count : Nat}
    (agree : ∀ index < count,
      left ((start + index) % size) = right ((start + index) % size)) :
    left.cyclic size start count = right.cyclic size start count := by
  apply List.map_congr_left
  intro index member
  exact agree index (List.mem_range.mp member)

/-- Adjacent cyclic sections concatenate, wherever the cut falls. -/
theorem cyclic_append (memory : Memory Cell) (size start first second : Nat) :
    memory.cyclic size start (first + second) =
      memory.cyclic size start first ++
        memory.cyclic size ((start + first) % size) second := by
  simp only [cyclic, List.range_add, List.map_append, List.map_map]
  congr 1
  apply List.map_congr_left
  intro index _
  simp [Nat.add_assoc]

theorem cyclic_take (memory : Memory Cell) {size start first count : Nat}
    (short : first ≤ count) :
    (memory.cyclic size start count).take first =
      memory.cyclic size start first := by
  obtain ⟨rest, rfl⟩ := Nat.exists_eq_add_of_le short
  rw [cyclic_append, List.take_left' (cyclic_length _ _ _ _)]

theorem cyclic_drop (memory : Memory Cell) {size start first count : Nat}
    (short : first ≤ count) :
    (memory.cyclic size start count).drop first =
      memory.cyclic size ((start + first) % size) (count - first) := by
  obtain ⟨rest, rfl⟩ := Nat.exists_eq_add_of_le short
  rw [cyclic_append, List.drop_left' (cyclic_length _ _ _ _),
    Nat.add_sub_cancel_left]

/-- A section that ends before the end of the block is a plain slice. -/
theorem cyclic_inside (memory : Memory Cell) {size start count : Nat}
    (inside : start + count ≤ size) :
    memory.cyclic size start count = memory.slice start count := by
  apply List.map_congr_left
  intro index member
  have bound := List.mem_range.mp member
  rw [Nat.mod_eq_of_lt (by omega)]

/-- A section that reaches the end of the block is the tail of the block
followed by its head. -/
theorem cyclic_wrap (memory : Memory Cell) {size start count : Nat}
    (started : start < size) (reaches : size ≤ start + count)
    (fits : count ≤ size) :
    memory.cyclic size start count =
      memory.slice start (size - start) ++
        memory.slice 0 (count - (size - start)) := by
  have whole : count = (size - start) + (count - (size - start)) := by omega
  have around : (start + (size - start)) % size = 0 := by
    rw [show start + (size - start) = size by omega, Nat.mod_self]
  conv_lhs => rw [whole, cyclic_append, around]
  rw [cyclic_inside memory (by omega), cyclic_inside memory (by omega)]

/-- A store of `count` cells at `start`, split at the end of the block. -/
def storeCyclic (memory : Memory Cell) (size start : Nat)
    (source : Memory Cell) (count : Nat) : Memory Cell :=
  if start + count < size then
    memory.copy start source 0 count
  else
    (memory.copy start source 0 (size - start)).copy 0 source (size - start)
      (count - (size - start))

/-- A split store puts the source cells at consecutive cyclic positions. -/
theorem storeCyclic_at (memory source : Memory Cell)
    {size start count index : Nat} (started : start < size)
    (fits : count ≤ size) (inside : index < count) :
    memory.storeCyclic size start source count ((start + index) % size) =
      source index := by
  rw [mod_ring (by omega), storeCyclic]
  split
  · simp only [copy]
    split_ifs <;> first | omega | (congr 1; omega)
  · simp only [copy]
    split_ifs <;> first | omega | (congr 1; omega)

/-- A split store leaves every other cyclic position alone. -/
theorem storeCyclic_other (memory source : Memory Cell)
    {size start count index : Nat} (started : start < size)
    (later : count ≤ index) (inside : index < size) :
    memory.storeCyclic size start source count ((start + index) % size) =
      memory ((start + index) % size) := by
  rw [mod_ring (by omega), storeCyclic]
  split
  · apply copy_outside
    split <;> omega
  · rw [copy_outside _ _ (by split <;> omega)]
    apply copy_outside
    split <;> omega

/-- Storing directly behind a cyclic section extends the section. -/
theorem cyclic_storeCyclic (memory source : Memory Cell)
    {size start count added : Nat} (started : start < size)
    (fits : count + added ≤ size) :
    (memory.storeCyclic size ((start + count) % size) source added).cyclic size
        start (count + added) =
      memory.cyclic size start count ++ source.slice 0 added := by
  have nextStarted : (start + count) % size < size := Nat.mod_lt _ (by omega)
  rw [cyclic_append]
  congr 1
  · apply cyclic_congr
    intro index inside
    -- Seen from the store, an older cell lies a full turn less the section behind.
    have behind : (start + index) % size =
        ((start + count) % size + (size - count + index)) % size := by
      rw [Nat.mod_add_mod, show start + count + (size - count + index) =
        start + index + size by omega, Nat.add_mod_right]
    rw [behind]
    exact storeCyclic_other memory source nextStarted (by omega) (by omega)
  · simp only [cyclic, slice]
    apply List.map_congr_left
    intro index member
    have inside := List.mem_range.mp member
    rw [storeCyclic_at memory source nextStarted (by omega) inside, Nat.zero_add]

end Foundation.Memory
