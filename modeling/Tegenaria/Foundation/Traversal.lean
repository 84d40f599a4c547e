import Mathlib.Data.List.Nodup
import Mathlib.Data.List.Infix

/-!
# Traversal of a tree with a stack

The nodes of a tree are the paths to them, and every node has a list of names of what is below it.
A node that is taken from the stack is replaced by the nodes below it, so the nodes are visited in an
order that is known in advance.  A tree is finite when its paths have a bound.
-/

namespace Foundation.Traversal

variable {Name : Type} {names : List Name → List Name} {path other top : List Name} {bound depth : Nat}

/-- What can be reached from a node by going down. -/
inductive Under (names : List Name → List Name) (top : List Name) : List Name → Prop where
  | top : Under names top top
  | down {path : List Name} {name : Name} :
      Under names top path → name ∈ names path → Under names top (path ++ [name])

/-- No path is longer than the bound. -/
def Bounded (names : List Name → List Name) (bound : Nat) : Prop :=
  ∀ path, bound ≤ path.length → names path = []

def children (names : List Name → List Name) (path : List Name) : List (List Name) :=
  (names path).map fun name => path ++ [name]

theorem mem_children : other ∈ children names path ↔ ∃ name ∈ names path, path ++ [name] = other :=
  List.mem_map

theorem Under.prefix (under : Under names top path) : top <+: path := by
  induction under with
  | top => exact List.prefix_rfl
  | down under below ih => exact ih.trans (List.prefix_append _ _)

/-- The first step down. -/
theorem under_iff_child :
    Under names top path ↔ path = top ∨ ∃ name ∈ names top, Under names (top ++ [name]) path := by
  constructor
  · intro under
    induction under with
    | top => exact .inl rfl
    | down under below ih =>
        rename_i path name
        rcases ih with rfl | ⟨first, inside, onward⟩
        · exact .inr ⟨name, below, .top⟩
        · exact .inr ⟨first, inside, .down onward below⟩
  · rintro (rfl | ⟨name, inside, onward⟩)
    · exact .top
    · induction onward with
      | top => exact .down .top inside
      | down onward below ih => exact .down ih below

theorem under_nil_concat {name : Name} :
    Under names [] (path ++ [name]) ↔ Under names [] path ∧ name ∈ names path := by
  refine ⟨fun under => ?_, fun ⟨under, below⟩ => .down under below⟩
  generalize same : path ++ [name] = node at under
  cases under with
  | top => exact absurd same (List.append_ne_nil_of_right_ne_nil _ (List.cons_ne_nil _ _))
  | down under below =>
      obtain ⟨rfl, last⟩ := List.append_inj' same rfl
      exact ⟨under, (List.cons.inj last).1 ▸ below⟩

/-! ## The order of the visits -/

/-- The nodes below a node up to a depth, in the order in which a stack has them. -/
@[grind =] def subtree (names : List Name → List Name) : Nat → List Name → List (List Name)
  | 0, path => [path]
  | depth + 1, path => path :: (children names path).reverse.flatMap (subtree names depth)

/-- The nodes that are still to be visited. -/
def order (names : List Name → List Name) (bound : Nat) (stack : List (List Name)) : List (List Name) :=
  stack.flatMap fun path => subtree names (bound - path.length) path

theorem order_cons (bounded : Bounded names bound) (path : List Name) (stack : List (List Name)) :
    order names bound (path :: stack) =
      path :: order names bound ((children names path).reverse ++ stack) := by
  have first : subtree names (bound - path.length) path =
      path :: order names bound (children names path).reverse := by
    rcases Nat.lt_or_ge path.length bound with inside | outside
    · obtain ⟨depth, deep⟩ : ∃ depth, bound - path.length = depth + 1 :=
        Nat.exists_eq_succ_of_ne_zero (Nat.sub_ne_zero_of_lt inside)
      rw [deep, subtree, order]
      refine congrArg (path :: ·) (List.flatMap_congr fun child member => ?_)
      obtain ⟨name, -, rfl⟩ := Iff.mp mem_children (List.mem_reverse.mp member)
      rw [List.length_append, List.length_singleton, Nat.sub_add_eq, deep, Nat.add_sub_cancel]
    · rw [Nat.sub_eq_zero_of_le outside, subtree, children, bounded path outside]
      rfl
  rw [order, List.flatMap_cons, first, order, order, List.flatMap_append]
  rfl

theorem mem_subtree (bounded : Bounded names (top.length + depth)) :
    path ∈ subtree names depth top ↔ Under names top path := by
  induction depth generalizing top with
  | zero =>
      rw [under_iff_child, subtree, List.mem_singleton, bounded top (Nat.le_refl _)]
      simp
  | succ depth ih =>
      have deeper (name : Name) : Bounded names ((top ++ [name]).length + depth) := by
        rw [List.length_append, List.length_singleton, Nat.add_assoc, Nat.add_comm 1]
        exact bounded
      rw [under_iff_child, subtree, List.mem_cons, List.mem_flatMap]
      refine or_congr_right ⟨?_, ?_⟩
      · rintro ⟨child, member, inside⟩
        obtain ⟨name, below, rfl⟩ := Iff.mp mem_children (List.mem_reverse.mp member)
        exact ⟨name, below, (ih (deeper name)).mp inside⟩
      · rintro ⟨name, below, under⟩
        exact ⟨top ++ [name], List.mem_reverse.mpr (Iff.mpr mem_children ⟨name, below, rfl⟩),
          (ih (deeper name)).mpr under⟩

theorem prefix_of_mem_subtree (member : path ∈ subtree names depth top) : top <+: path := by
  induction depth generalizing top with
  | zero => exact List.mem_singleton.mp member ▸ List.prefix_rfl
  | succ depth ih =>
      rcases List.mem_cons.mp member with rfl | later
      · exact List.prefix_rfl
      · obtain ⟨child, inside, below⟩ := List.mem_flatMap.mp later
        obtain ⟨name, -, rfl⟩ := Iff.mp mem_children (List.mem_reverse.mp inside)
        exact (List.prefix_append _ _).trans (ih below)

theorem nodup_children (distinct : (names path).Nodup) : (children names path).Nodup :=
  distinct.map fun _ _ same => (List.append_cancel_left same |> List.cons.inj).1

/-- Two nodes below one another's siblings are different. -/
theorem child_unique {first second : Name} (left : path ++ [first] <+: other)
    (right : path ++ [second] <+: other) : first = second := by
  obtain ⟨rest, rfl⟩ := left
  have lengths : (path ++ [second]).length = (path ++ [first]).length := by simp
  have same := List.prefix_of_prefix_length_le right (List.prefix_append _ rest) lengths.le
  exact ((List.append_cancel_left (same.eq_of_length lengths)) |> List.cons.inj).1.symm

theorem nodup_subtree (distinct : ∀ path, (names path).Nodup) : (subtree names depth top).Nodup := by
  induction depth generalizing top with
  | zero => exact List.nodup_singleton top
  | succ depth ih =>
      refine List.nodup_cons.mpr ⟨fun again => ?_, List.nodup_flatMap.mpr ⟨fun child _ => ih, ?_⟩⟩
      · obtain ⟨child, member, below⟩ := List.mem_flatMap.mp again
        obtain ⟨name, -, rfl⟩ := Iff.mp mem_children (List.mem_reverse.mp member)
        have longer : (top ++ [name]).length ≤ top.length := (prefix_of_mem_subtree below).length_le
        rw [List.length_append, List.length_singleton] at longer
        exact Nat.not_succ_le_self _ longer
      · have apart : (children names top).reverse.Nodup :=
          List.nodup_reverse.mpr (nodup_children (distinct top))
        refine apart.imp_of_mem fun {first second} inFirst inSecond different => ?_
        obtain ⟨firstName, -, rfl⟩ := Iff.mp mem_children (List.mem_reverse.mp inFirst)
        obtain ⟨secondName, -, rfl⟩ := Iff.mp mem_children (List.mem_reverse.mp inSecond)
        refine fun node left right => different ?_
        rw [child_unique (prefix_of_mem_subtree left) (prefix_of_mem_subtree right)]

/-! ## The nodes that are announced -/

theorem order_root (names : List Name → List Name) (bound : Nat) :
    order names bound [[]] = subtree names bound [] := by
  rw [order, List.flatMap_singleton]
  rfl

/-- The nodes below the visited ones are different. -/
theorem nodup_announced (distinct : ∀ path, (names path).Nodup) {visits : List (List Name)}
    (once : visits.Nodup) : (visits.flatMap (children names)).Nodup := by
  refine List.nodup_flatMap.mpr ⟨fun path _ => nodup_children (distinct path), ?_⟩
  refine once.imp_of_mem fun {first second} _ _ different node left right => different ?_
  obtain ⟨firstName, -, rfl⟩ := Iff.mp mem_children left
  obtain ⟨secondName, -, same⟩ := Iff.mp mem_children right
  exact (List.append_inj' same rfl).1.symm

theorem mem_announced {visits : List (List Name)} {name : Name} :
    path ++ [name] ∈ visits.flatMap (children names) ↔ path ∈ visits ∧ name ∈ names path := by
  rw [List.mem_flatMap]
  constructor
  · rintro ⟨visited, member, below⟩
    obtain ⟨other, inside, same⟩ := Iff.mp mem_children below
    obtain ⟨rfl, last⟩ := List.append_inj' same rfl
    exact ⟨member, (List.cons.inj last).1 ▸ inside⟩
  · rintro ⟨member, inside⟩
    exact ⟨path, member, Iff.mpr mem_children ⟨name, inside, rfl⟩⟩

/-- A visited node is the root or has been announced before. -/
theorem announced_before (bounded : Bounded names bound) {stack announced before after : List (List Name)}
    (known : ∀ node ∈ stack, node = [] ∨ node ∈ announced)
    (visits : order names bound stack = before ++ path :: after) :
    path = [] ∨ path ∈ announced ++ before.flatMap (children names) := by
  induction before generalizing stack announced with
  | nil =>
      cases stack with
      | nil => exact absurd visits.symm (List.append_ne_nil_of_right_ne_nil _ (List.cons_ne_nil _ _))
      | cons node rest =>
          rw [order_cons bounded, List.nil_append, List.cons.injEq] at visits
          rw [List.flatMap_nil, List.append_nil, ← visits.1]
          exact known node List.mem_cons_self
  | cons first before ih =>
      cases stack with
      | nil => exact absurd visits.symm (List.append_ne_nil_of_right_ne_nil _ (List.cons_ne_nil _ _))
      | cons node rest =>
          rw [order_cons bounded, List.cons_append, List.cons.injEq] at visits
          obtain ⟨rfl, visits⟩ := visits
          rw [List.flatMap_cons, ← List.append_assoc]
          refine ih (fun other member => ?_) visits
          rcases List.mem_append.mp member with child | waiting
          · exact .inr (List.mem_append_right _ (List.mem_reverse.mp child))
          · exact (known other (List.mem_cons_of_mem _ waiting)).imp_right (List.mem_append_left _)

/-- However far the visits have gone, a node is announced before what is below it. -/
theorem sublist_announced (bounded : Bounded names bound) {visits later : List (List Name)} {name : Name}
    (begun : visits ++ later = order names bound [[]]) (inside : path ≠ [])
    (announced : path ++ [name] ∈ visits.flatMap (children names)) :
    [path, path ++ [name]].Sublist (visits.flatMap (children names)) := by
  obtain ⟨visited, below⟩ := Iff.mp mem_announced announced
  obtain ⟨before, after, rfl⟩ := List.append_of_mem visited
  have known : ∀ node ∈ [([] : List Name)], node = [] ∨ node ∈ ([] : List (List Name)) :=
    fun node member => .inl (List.mem_singleton.mp member)
  have earlier : path ∈ before.flatMap (children names) :=
    (announced_before bounded known (begun.symm.trans (List.append_assoc _ _ _))).resolve_left inside
  rw [List.flatMap_append, List.flatMap_cons]
  refine (List.singleton_sublist.mpr earlier).append ((List.singleton_sublist.mpr ?_).trans
    (List.sublist_append_left _ _))
  exact Iff.mpr mem_children ⟨name, below, rfl⟩

end Foundation.Traversal
