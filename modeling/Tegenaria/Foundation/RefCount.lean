import Mathlib.Data.List.Count
import Mathlib.Data.List.GetD

/-!
# Reference counts

A heap of cells with counters.  A cell that is alive holds references to other cells; the
remaining references are held from outside.  A heap is balanced when every counter is the
number of references to its cell and exactly the cells with a reference are alive.

The references of a cell are given by a function of its position and its content, so that
a reference that is still written in a cell but no longer counted can be left out.
-/

namespace Foundation.RefCount

universe u

variable {α : Type u}

/-- A cell with its counter. -/
structure Cell (α : Type u) where
  refCount : Nat
  alive : Bool
  content : α
  deriving DecidableEq

/-- What the bookkeeping of references looks at. -/
def Cell.counters (cell : Cell α) : Nat × Bool := (cell.refCount, cell.alive)

/-- The references that a cell holds; a destroyed cell holds none. -/
def held (refs : Nat → α → List Nat) (id : Nat) (cell : Cell α) : List Nat :=
  if cell.alive then refs id cell.content else []

def outgoing (refs : Nat → α → List Nat) (heap : List (Cell α)) : List Nat :=
  (heap.mapIdx (held refs)).flatten

/-- The number of references to a cell. -/
@[grind =] def references (refs : Nat → α → List Nat) (outside : List Nat) (heap : List (Cell α))
    (id : Nat) : Nat :=
  outside.count id + (outgoing refs heap).count id

/-- Exactly the cells with a reference are alive, and their counters are right. -/
structure Balanced (refs : Nat → α → List Nat) (outside : List Nat) (heap : List (Cell α)) :
    Prop where
  known : ∀ id, 0 < references refs outside heap id →
    ∃ cell, heap[id]? = some cell ∧ cell.alive = true
  counted : ∀ id cell, heap[id]? = some cell → cell.alive = true →
    cell.refCount = references refs outside heap id ∧ 0 < references refs outside heap id

/-! ## Counting -/

/-- One list is replaced in a list of lists; the measure is the length or the number of
occurrences of a value. -/
theorem measure_flatten_set {β : Type u} {lists : List (List β)} {position : Nat} {old : List β}
    {measure : List β → Nat} (added : ∀ front back, measure (front ++ back) = measure front + measure back)
    (found : lists[position]? = some old) (new : List β) :
    measure (lists.set position new).flatten + measure old = measure lists.flatten + measure new := by
  induction lists generalizing position with
  | nil => simp at found
  | cons head tail ih =>
      cases position with
      | zero =>
          obtain rfl : head = old := by simpa using found
          simp only [List.set_cons_zero, List.flatten_cons, added]
          omega
      | succ position =>
          have rest := ih (by simpa using found)
          simp only [List.set_cons_succ, List.flatten_cons, added]
          omega

theorem count_flatten_set {lists : List (List Nat)} {position : Nat} {old : List Nat}
    (found : lists[position]? = some old) (new : List Nat) (value : Nat) :
    (lists.set position new).flatten.count value + old.count value
      = lists.flatten.count value + new.count value :=
  measure_flatten_set (fun _ _ => List.count_append) found new

variable {refs others : Nat → α → List Nat} {outside : List Nat} {heap : List (Cell α)}
variable {position : Nat} {cell : Cell α}

theorem mapIdx_held (refs : Nat → α → List Nat) (found : heap[position]? = some cell) :
    (heap.mapIdx (held refs))[position]? = some (held refs position cell) := by
  rw [List.getElem?_mapIdx, found, Option.map_some]

/-- Two ways of counting that agree but for one cell, which may be replaced as well. -/
theorem references_change (outside : List Nat) (found : heap[position]? = some cell)
    (same : ∀ id content, id ≠ position → others id content = refs id content)
    (new : Cell α) (id : Nat) :
    references others outside (heap.set position new) id + (held refs position cell).count id
      = references refs outside heap id + (held others position new).count id := by
  have lists : (heap.set position new).mapIdx (held others)
      = (heap.mapIdx (held refs)).set position (held others position new) := by
    rw [List.mapIdx_set]
    apply List.ext_getElem?
    intro id
    simp only [List.getElem?_set, List.getElem?_mapIdx, List.length_mapIdx]
    by_cases here : position = id
    · simp only [if_pos here]
    · have agree : held others id = held refs id := by
        funext content
        simp only [held, same id _ (Ne.symm here)]
      simp only [if_neg here, agree]
  have counted := count_flatten_set (mapIdx_held refs found) (held others position new) id
  simp only [references, outgoing, lists]
  omega

theorem references_set (refs : Nat → α → List Nat) (outside : List Nat)
    (found : heap[position]? = some cell) (new : Cell α) (id : Nat) :
    references refs outside (heap.set position new) id + (held refs position cell).count id
      = references refs outside heap id + (held refs position new).count id :=
  references_change outside found (fun _ _ _ => rfl) new id

/-- A counter holds no reference. -/
theorem outgoing_recount (found : heap[position]? = some cell) (count : Nat) :
    outgoing refs (heap.set position { cell with refCount := count }) = outgoing refs heap := by
  obtain ⟨within, listed⟩ := List.getElem?_eq_some_iff.mp (mapIdx_held refs found)
  have same : held refs position { cell with refCount := count } = held refs position cell := rfl
  rw [outgoing, List.mapIdx_set, same, ← listed, List.set_getElem_self, outgoing]

theorem references_recount (outside : List Nat) (found : heap[position]? = some cell)
    (count id : Nat) :
    references refs outside (heap.set position { cell with refCount := count }) id
      = references refs outside heap id := by
  rw [references, outgoing_recount found, references]

theorem references_cons (first : Nat) (outside : List Nat) (heap : List (Cell α)) (id : Nat) :
    references refs (first :: outside) heap id
      = references refs outside heap id + if first = id then 1 else 0 := by
  simp only [references, List.count_cons, beq_iff_eq]
  omega

theorem references_append (front outside : List Nat) (heap : List (Cell α)) (id : Nat) :
    references refs (front ++ outside) heap id
      = references refs outside heap id + front.count id := by
  simp only [references, List.count_append]
  omega

theorem held_of_alive (refs : Nat → α → List Nat) (alive : cell.alive = true) :
    held refs position cell = refs position cell.content :=
  if_pos alive

/-- A reference inside a live cell counts. -/
theorem references_pos {id : Nat} (outside : List Nat) (found : heap[position]? = some cell)
    (inside : id ∈ held refs position cell) : 0 < references refs outside heap id := by
  have member : id ∈ outgoing refs heap :=
    List.mem_flatten.mpr ⟨_, List.mem_of_getElem? (mapIdx_held refs found), inside⟩
  exact Nat.lt_of_lt_of_le (List.count_pos_iff.mpr member) (Nat.le_add_left _ _)

/-! ## Balanced heaps -/

namespace Balanced

/-- Only the counters, the live cells and the numbers of references matter. -/
theorem of_references {outside' : List Nat} {heap' : List (Cell α)}
    (balanced : Balanced refs outside heap)
    (cells : ∀ id : Nat, (heap'[id]?).map Cell.counters = (heap[id]?).map Cell.counters)
    (same : ∀ id, references others outside' heap' id = references refs outside heap id) :
    Balanced others outside' heap' := by
  constructor
  · intro id referenced
    obtain ⟨cell, found, alive⟩ := balanced.known id (same id ▸ referenced)
    have counters := cells id
    rw [found, Option.map_some] at counters
    obtain ⟨cell', found', counters'⟩ := Option.map_eq_some_iff.mp counters
    exact ⟨cell', found', (congrArg Prod.snd counters').trans alive⟩
  · intro id cell' found' alive'
    have counters := (cells id).symm
    rw [found', Option.map_some] at counters
    obtain ⟨cell, found, counters'⟩ := Option.map_eq_some_iff.mp counters
    obtain ⟨count, referenced⟩ :=
      balanced.counted id cell found ((congrArg Prod.snd counters').trans alive')
    rw [same id]
    exact ⟨(congrArg Prod.fst counters').symm.trans count, referenced⟩

theorem alive_of_mem {id : Nat} (balanced : Balanced refs outside heap) (inside : id ∈ outside) :
    ∃ cell, heap[id]? = some cell ∧ cell.alive = true :=
  balanced.known id (Nat.lt_of_lt_of_le (List.count_pos_iff.mpr inside) (Nat.le_add_right _ _))

/-- The counter of a live cell changes with the number of references to it. -/
theorem recount {outside' : List Nat} {count : Nat} (balanced : Balanced refs outside heap)
    (found : heap[position]? = some cell) (alive : cell.alive = true)
    (elsewhere : ∀ id, id ≠ position → outside'.count id = outside.count id)
    (changed : count + outside.count position = cell.refCount + outside'.count position)
    (referenced : 0 < count) :
    Balanced refs outside' (heap.set position { cell with refCount := count }) := by
  have within : position < heap.length := (List.getElem?_eq_some_iff.mp found).1
  have counted := (balanced.counted position cell found alive).1
  have here : (heap.set position { cell with refCount := count })[position]?
      = some { cell with refCount := count } := List.getElem?_set_self within
  constructor
  · intro id some
    by_cases own : id = position
    · rw [own]
      exact ⟨_, here, alive⟩
    · rw [List.getElem?_set_ne (Ne.symm own)]
      rw [references_recount outside' found, references, elsewhere id own] at some
      exact balanced.known id some
  · intro id other foundOther aliveOther
    rw [references_recount outside' found]
    by_cases own : id = position
    · cases own
      cases here.symm.trans foundOther
      simp only [references] at counted ⊢
      omega
    · rw [List.getElem?_set_ne (Ne.symm own)] at foundOther
      rw [references, elsewhere id own]
      exact balanced.counted id other foundOther aliveOther

/-- One of several references to a cell is dropped. -/
theorem release_shared (balanced : Balanced refs (position :: outside) heap)
    (found : heap[position]? = some cell) (alive : cell.alive = true) (several : cell.refCount ≠ 1) :
    Balanced refs outside (heap.set position { cell with refCount := cell.refCount - 1 }) := by
  obtain ⟨count, referenced⟩ := balanced.counted position cell found alive
  apply balanced.recount found alive
  · intro id own
    rw [List.count_cons_of_ne (Ne.symm own)]
  · rw [List.count_cons_self]
    omega
  · omega

/-- The last reference to a cell is dropped; its own references are held from outside. -/
theorem release_last (balanced : Balanced refs (position :: outside) heap)
    (found : heap[position]? = some cell) (alive : cell.alive = true) (last : cell.refCount = 1) :
    Balanced refs (refs position cell.content ++ outside)
      (heap.set position { cell with refCount := 0, alive := false }) := by
  have within : position < heap.length := (List.getElem?_eq_some_iff.mp found).1
  obtain ⟨count, referenced⟩ := balanced.counted position cell found alive
  have numbers : ∀ id, references refs (refs position cell.content ++ outside)
        (heap.set position { cell with refCount := 0, alive := false }) id
        + (if position = id then 1 else 0)
      = references refs (position :: outside) heap id := by
    intro id
    have changed := references_set refs outside found
      { cell with refCount := 0, alive := false } id
    have none : held refs position { cell with refCount := 0, alive := false } = [] := rfl
    rw [none, held_of_alive refs alive, List.count_nil] at changed
    rw [references_append, references_cons]
    omega
  constructor
  · intro id some
    have before := numbers id
    by_cases own : position = id
    · subst own
      rw [if_pos rfl] at before
      omega
    · rw [if_neg own] at before
      rw [List.getElem?_set_ne own]
      exact balanced.known id (by omega)
  · intro id other foundOther aliveOther
    have before := numbers id
    by_cases own : position = id
    · subst own
      rw [List.getElem?_set_self within] at foundOther
      cases foundOther
      cases aliveOther
    · rw [if_neg own] at before
      rw [List.getElem?_set_ne own] at foundOther
      have counted := balanced.counted id other foundOther aliveOther
      omega

/-- A reference is added from outside. -/
theorem addRef (balanced : Balanced refs outside heap) (found : heap[position]? = some cell)
    (alive : cell.alive = true) :
    Balanced refs (position :: outside)
      (heap.set position { cell with refCount := cell.refCount + 1 }) := by
  apply balanced.recount found alive
  · intro id own
    rw [List.count_cons_of_ne (Ne.symm own)]
  · rw [List.count_cons_self]
    omega
  · omega

/-- References are moved between the outside and the content of a live cell. -/
theorem exchange {outside' : List Nat} (balanced : Balanced refs outside heap)
    (found : heap[position]? = some cell) (alive : cell.alive = true) (content : α)
    (same : ∀ id content, id ≠ position → others id content = refs id content)
    (moved : ∀ id, outside'.count id + (others position content).count id
      = outside.count id + (refs position cell.content).count id) :
    Balanced others outside' (heap.set position { cell with content := content }) := by
  have within : position < heap.length := (List.getElem?_eq_some_iff.mp found).1
  apply balanced.of_references
  · intro id
    by_cases own : position = id
    · subst own
      rw [List.getElem?_set_self within, found]
      rfl
    · rw [List.getElem?_set_ne own]
  · intro id
    have changed := references_change outside' found same { cell with content := content } id
    have written : held others position { cell with content := content } = others position content :=
      held_of_alive others alive
    rw [held_of_alive refs alive, written] at changed
    have numbers := moved id
    simp only [references] at changed ⊢
    omega

/-- The references of a live cell are counted in another way. -/
theorem regard {outside' : List Nat} (balanced : Balanced refs outside heap)
    (found : heap[position]? = some cell) (alive : cell.alive = true)
    (same : ∀ id content, id ≠ position → others id content = refs id content)
    (moved : ∀ id, outside'.count id + (others position cell.content).count id
      = outside.count id + (refs position cell.content).count id) : Balanced others outside' heap := by
  obtain ⟨within, listed⟩ := List.getElem?_eq_some_iff.mp found
  have unchanged : heap.set position { cell with content := cell.content } = heap := by
    rw [← listed, List.set_getElem_self]
  rw [← unchanged]
  exact balanced.exchange found alive cell.content same moved

/-- A new cell takes over references from outside and is held from outside. -/
theorem alloc {content : α} (balanced : Balanced refs (refs heap.length content ++ outside) heap) :
    Balanced refs (heap.length :: outside) (heap ++ [⟨1, true, content⟩]) := by
  have unknown : references refs (refs heap.length content ++ outside) heap heap.length = 0 := by
    apply Nat.eq_zero_of_not_pos
    intro referenced
    obtain ⟨cell, found, -⟩ := balanced.known _ referenced
    rw [List.getElem?_eq_none (Nat.le_refl _)] at found
    cases found
  have numbers : ∀ id, references refs (heap.length :: outside) (heap ++ [⟨1, true, content⟩]) id
      = references refs (refs heap.length content ++ outside) heap id
        + if heap.length = id then 1 else 0 := by
    intro id
    have flat : outgoing refs (heap ++ [⟨1, true, content⟩])
        = outgoing refs heap ++ refs heap.length content := by
      simp [outgoing, held, List.mapIdx_append]
    rw [references_cons, references_append, references, references, flat, List.count_append]
    omega
  constructor
  · intro id some
    rw [numbers] at some
    by_cases own : heap.length = id
    · subst own
      exact ⟨_, List.getElem?_concat_length, rfl⟩
    · rw [if_neg own] at some
      obtain ⟨cell, found, alive⟩ := balanced.known id some
      exact ⟨cell, by rw [List.getElem?_append_left (List.getElem?_eq_some_iff.mp found).1, found],
        alive⟩
  · intro id cell found alive
    rw [numbers]
    by_cases own : heap.length = id
    · subst own
      rw [List.getElem?_concat_length] at found
      cases found
      rw [unknown, if_pos rfl]
      exact ⟨rfl, Nat.one_pos⟩
    · rw [if_neg own]
      have within : id < heap.length := by
        have := (List.getElem?_eq_some_iff.mp found).1
        rw [List.length_append, List.length_singleton] at this
        omega
      rw [List.getElem?_append_left within] at found
      exact balanced.counted id cell found alive

end Balanced

/-! ## Destroying cells -/

/-- Cells that are held from outside or by other ones of them. -/
def Protected (refs : Nat → α → List Nat) (outside : List Nat) (heap : List (Cell α))
    (kept : Nat → Prop) : Prop :=
  ∀ id, kept id →
    id ∈ outside ∨ ∃ owner cell, kept owner ∧ heap[owner]? = some cell ∧ id ∈ held refs owner cell

namespace Protected

variable {kept : Nat → Prop}

/-- A cell that is protected does not lose its last reference. -/
theorem refCount_ne_one {pending : List Nat} (guarded : Protected refs outside heap kept)
    (balanced : Balanced refs (position :: pending ++ outside) heap) (own : kept position)
    (found : heap[position]? = some cell) (alive : cell.alive = true) : cell.refCount ≠ 1 := by
  intro last
  have count := (balanced.counted position cell found alive).1
  rw [last, List.cons_append, references_cons, if_pos rfl, references_append] at count
  rcases guarded position own with inside | ⟨owner, holder, -, foundHolder, inside⟩
  · have := List.count_pos_iff.mpr inside
    simp only [references] at count
    omega
  · have := references_pos outside foundHolder inside
    omega

theorem alive {id : Nat} (guarded : Protected refs outside heap kept)
    (balanced : Balanced refs outside heap) (own : kept id) :
    ∃ cell, heap[id]? = some cell ∧ cell.alive = true := by
  rcases guarded id own with inside | ⟨owner, holder, -, foundHolder, inside⟩
  · exact balanced.alive_of_mem inside
  · exact balanced.known id (references_pos outside foundHolder inside)

theorem recount (guarded : Protected refs outside heap kept) (found : heap[position]? = some cell)
    (count : Nat) : Protected refs outside (heap.set position { cell with refCount := count }) kept := by
  intro id own
  rcases guarded id own with inside | ⟨owner, holder, keptOwner, foundHolder, inside⟩
  · exact .inl inside
  · right
    by_cases same : position = owner
    · subst same
      cases found.symm.trans foundHolder
      exact ⟨position, _, keptOwner,
        List.getElem?_set_self (List.getElem?_eq_some_iff.mp found).1, inside⟩
    · exact ⟨owner, holder, keptOwner, by rw [List.getElem?_set_ne same, foundHolder], inside⟩

theorem destroy (guarded : Protected refs outside heap kept) (free : ¬ kept position)
    (new : Cell α) : Protected refs outside (heap.set position new) kept := by
  intro id own
  rcases guarded id own with inside | ⟨owner, holder, keptOwner, foundHolder, inside⟩
  · exact .inl inside
  · have other : position ≠ owner := fun same => free (same ▸ keptOwner)
    exact .inr ⟨owner, holder, keptOwner, by rw [List.getElem?_set_ne other, foundHolder], inside⟩

end Protected

/-- Destroying a cell takes its references out of the heap. -/
theorem outgoing_length_destroy (refs : Nat → α → List Nat) (found : heap[position]? = some cell)
    (alive : cell.alive = true) (count : Nat) :
    (outgoing refs (heap.set position { cell with refCount := count, alive := false })).length
        + (refs position cell.content).length
      = (outgoing refs heap).length := by
  have lengths := measure_flatten_set (fun _ _ => List.length_append) (mapIdx_held refs found)
    (held refs position { cell with refCount := count, alive := false })
  have none : held refs position { cell with refCount := count, alive := false } = [] := rfl
  rw [← List.mapIdx_set, held_of_alive refs alive, none, List.length_nil] at lengths
  exact lengths

end Foundation.RefCount
