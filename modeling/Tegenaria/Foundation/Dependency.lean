import Mathlib.Order.WellFoundedSet
import Mathlib.Data.List.Perm.Basic

/-!
# Items that need other items

Every item has a key and a finite set of keys that it needs.  A list of items is
in sequence when each of them comes after all that it needs.  A list can be put
in sequence exactly when the needed keys are keys of the list and no key needs
itself through any number of items.
-/

namespace Foundation.Dependency

variable {α κ : Type} (key : α → κ) (needs : α → Finset κ)

/-- An item with the first key needs the second one. -/
def Requires (items : List α) (first second : κ) : Prop :=
  ∃ item ∈ items, key item = first ∧ second ∈ needs item

/-- Only keys of the list are needed. -/
def Closed (items : List α) : Prop :=
  ∀ item ∈ items, ∀ needed ∈ needs item, needed ∈ items.map key

/-- No key needs itself. -/
def Acyclic (items : List α) : Prop :=
  ∀ first, ¬ Relation.TransGen (Requires key needs items) first first

/-- Each item comes after all the items that it needs. -/
def Sequenced (order : List α) : Prop :=
  ∀ (before : List α) (item : α) (after : List α), order = before ++ item :: after →
    ∀ needed ∈ needs item, needed ∈ before.map key

variable {key needs}

theorem Requires.of_subset {items others : List α} {first second : κ} (subset : items ⊆ others)
    (requires : Requires key needs items first second) : Requires key needs others first second := by
  obtain ⟨item, member, named, needed⟩ := requires
  exact ⟨item, subset member, named, needed⟩

theorem Acyclic.of_subset {items others : List α} (subset : others ⊆ items)
    (acyclic : Acyclic key needs items) : Acyclic key needs others := by
  intro first cycle
  have wider : Requires key needs others ≤ Requires key needs items :=
    fun _ _ requires => requires.of_subset subset
  exact acyclic first (Relation.TransGen.mono wider first first cycle)

theorem Closed.of_perm {items others : List α} (perm : items.Perm others)
    (closed : Closed key needs items) : Closed key needs others := by
  intro item member needed need
  exact (perm.map key).subset (closed item (perm.symm.subset member) needed need)

theorem sequenced_nil : Sequenced key needs [] := by
  intro before item after split
  simp at split

/-- An item that needs only earlier ones extends a sequence. -/
theorem Sequenced.append {order : List α} {last : α} (sequenced : Sequenced key needs order)
    (ready : ∀ needed ∈ needs last, needed ∈ order.map key) :
    Sequenced key needs (order ++ [last]) := by
  intro before item after split
  rcases List.eq_nil_or_concat after with rfl | ⟨inner, final, rfl⟩
  · obtain ⟨rfl, single⟩ := List.append_inj' split rfl
    obtain rfl : last = item := List.head_eq_of_cons_eq single
    exact ready
  · have regrouped : order ++ [last] = (before ++ item :: inner) ++ [final] := by
      simpa using split
    exact sequenced before item inner (List.append_inj' regrouped rfl).1

theorem Sequenced.closed {order : List α} (sequenced : Sequenced key needs order) :
    Closed key needs order := by
  intro item member needed need
  obtain ⟨before, after, rfl⟩ := List.append_of_mem member
  rw [List.map_append]
  exact List.mem_append_left _ (sequenced before item after rfl needed need)

section Decidable

variable [DecidableEq κ]

/-- In a sequence a needed key stands before the key that needs it. -/
theorem Sequenced.idxOf_lt {order : List α} (sequenced : Sequenced key needs order)
    (distinct : (order.map key).Nodup) {first second : κ}
    (requires : Requires key needs order first second) :
    (order.map key).idxOf second < (order.map key).idxOf first := by
  obtain ⟨item, member, rfl, need⟩ := requires
  obtain ⟨before, after, rfl⟩ := List.append_of_mem member
  have earlier := sequenced before item after rfl second need
  rw [List.map_append, List.map_cons] at distinct ⊢
  have later : key item ∉ before.map key := by
    intro twice
    exact (List.nodup_append.mp distinct).2.2 _ twice _ (List.mem_cons_self ..) rfl
  rw [List.idxOf_append_of_mem earlier, List.idxOf_append_of_notMem later]
  exact Nat.lt_of_lt_of_le (List.idxOf_lt_length_of_mem earlier) (Nat.le_add_right ..)

theorem Sequenced.acyclic {order : List α} (sequenced : Sequenced key needs order)
    (distinct : (order.map key).Nodup) : Acyclic key needs order := by
  have descending : ∀ {first second}, Relation.TransGen (Requires key needs order) first second →
      (order.map key).idxOf second < (order.map key).idxOf first := by
    intro first second path
    induction path with
    | single requires => exact sequenced.idxOf_lt distinct requires
    | tail _ requires ih => exact (sequenced.idxOf_lt distinct requires).trans ih
  intro first cycle
  exact Nat.lt_irrefl _ (descending cycle)

end Decidable

/-- While some keys of a closed list without cycles are not done, one of them
needs only keys that are. -/
theorem exists_ready {items : List α} (closed : Closed key needs items)
    (acyclic : Acyclic key needs items) {done : List κ} {item : α} (member : item ∈ items)
    (waiting : key item ∉ done) :
    ∃ ready ∈ items, key ready ∉ done ∧ ∀ needed ∈ needs ready, needed ∈ done := by
  let below : κ → κ → Prop := fun second first =>
    Relation.TransGen (Requires key needs items) first second
  have strict : IsStrictOrder κ below :=
    { irrefl := acyclic
      trans := fun _ _ _ lower upper => upper.trans lower }
  let remaining : Set κ := { name | name ∈ items.map key ∧ name ∉ done }
  have finite : remaining.Finite := (items.map key).finite_toSet.subset fun _ inside => inside.1
  have inside : key item ∈ remaining := ⟨List.mem_map_of_mem member, waiting⟩
  obtain ⟨least, leastInside, minimal⟩ :=
    finite.wellFoundedOn (r := below) |>.has_min Set.univ ⟨⟨key item, inside⟩, trivial⟩
  obtain ⟨named, pending⟩ := least.2
  obtain ⟨ready, readyMember, readyNamed⟩ := List.mem_map.mp named
  refine ⟨ready, readyMember, readyNamed ▸ pending, ?_⟩
  intro needed need
  by_contra notDone
  have neededInside : needed ∈ remaining := ⟨closed ready readyMember needed need, notDone⟩
  exact minimal ⟨needed, neededInside⟩ trivial (.single ⟨ready, readyMember, readyNamed, need⟩)

end Foundation.Dependency
