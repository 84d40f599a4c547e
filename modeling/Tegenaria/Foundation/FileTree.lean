import Mathlib.Data.List.Basic

/-!
# Plain file systems

A tree of directories and files with the four operations that change it.  Every object
has an identity of its own, so that one can say that a path still leads to the object it
led to before.  An operation that is refused returns no tree.
-/

namespace Foundation

/-- An object of a file system. -/
inductive Node where
  | directory (id : Nat)
  | file (id : Nat)
  deriving DecidableEq

def Node.isDirectory : Node → Bool
  | .directory _ => true
  | .file _ => false

/-- The objects with their paths from the root. -/
structure FileTree (Name : Type) where
  entries : List (List Name × Node)
  fresh : Nat

namespace FileTree

variable {Name : Type} [DecidableEq Name]

/-- An empty root directory. -/
def root : FileTree Name := ⟨[([], .directory 0)], 1⟩

/-- The object at a path. -/
@[grind =] def lookup (tree : FileTree Name) (path : List Name) : Option Node :=
  (tree.entries.find? fun entry => entry.1 = path).map Prod.snd

def isDirectory (tree : FileTree Name) (path : List Name) : Bool :=
  match tree.lookup path with
  | some (.directory _) => true
  | _ => false

/-- A new directory in a directory. -/
def mkdir (tree : FileTree Name) (path : List Name) : Option (FileTree Name) :=
  if tree.lookup path = none ∧ tree.isDirectory path.dropLast then
    some ⟨(path, .directory tree.fresh) :: tree.entries, tree.fresh + 1⟩
  else none

/-- Removes a directory with nothing in it. -/
def rmdir (tree : FileTree Name) (path : List Name) : Option (FileTree Name) :=
  if tree.isDirectory path ∧ path ≠ [] ∧ ∀ entry ∈ tree.entries, path <+: entry.1 → entry.1 = path then
    some { tree with entries := tree.entries.filter fun entry => entry.1 ≠ path }
  else none

/-- Moves an object, with everything in it, to a path where there is none. -/
def rename (tree : FileTree Name) (source target : List Name) : Option (FileTree Name) :=
  if source ≠ [] ∧ (tree.lookup source).isSome ∧ tree.isDirectory target.dropLast ∧
      ¬ source <+: target ∧ ∀ entry ∈ tree.entries, ¬ target <+: entry.1 then
    some { tree with
      entries := tree.entries.map fun entry =>
        if source <+: entry.1 then (target ++ entry.1.drop source.length, entry.2) else entry }
  else none

/-- A new file in a directory, in the place of a file with the same path. -/
def createFile (tree : FileTree Name) (path : List Name) : Option (FileTree Name × Node) :=
  if tree.isDirectory path = false ∧ tree.isDirectory path.dropLast then
    some (⟨(path, .file tree.fresh) :: tree.entries.filter (fun entry => entry.1 ≠ path), tree.fresh + 1⟩,
      .file tree.fresh)
  else none

/-! ## What stays where it is -/

variable {tree next : FileTree Name} {path other source target : List Name} {node : Node}

theorem isDirectory_of_lookup {id : Nat} (found : tree.lookup path = some (.directory id)) :
    tree.isDirectory path = true := by
  rw [isDirectory, found]

theorem mem_of_lookup (found : tree.lookup path = some node) : (path, node) ∈ tree.entries := by
  obtain ⟨entry, located, isNode⟩ := Option.map_eq_some_iff.mp found
  have here := List.find?_some located
  rw [decide_eq_true_iff] at here
  rw [← here, ← isNode]
  exact List.mem_of_find?_eq_some located

theorem find?_filter_other (entries : List (List Name × Node)) (different : other ≠ path) :
    (entries.filter fun entry => entry.1 ≠ path).find? (fun entry => entry.1 = other) =
      entries.find? fun entry => entry.1 = other := by
  rw [List.find?_filter]
  congr 1
  funext entry
  by_cases here : entry.1 = other
  · simp [here, different]
  · simp [here]

theorem lookup_mkdir (made : tree.mkdir path = some next) (found : tree.lookup other = some node) :
    next.lookup other = some node := by
  rw [mkdir] at made
  split at made
  · next allowed =>
      have different : path ≠ other := by
        rintro rfl
        rw [allowed.1] at found
        cases found
      rw [← Option.some.inj made, lookup, List.find?_cons_of_neg (by simpa using different)]
      exact found
  · cases made

theorem lookup_rmdir (removed : tree.rmdir path = some next) (found : tree.lookup other = some node)
    (different : other ≠ path) : next.lookup other = some node := by
  rw [rmdir] at removed
  split at removed
  · rw [← Option.some.inj removed, lookup, find?_filter_other _ different]
    exact found
  · cases removed

theorem lookup_createFile {id : Nat} {created : Node} (made : tree.createFile path = some (next, created))
    (found : tree.lookup other = some (.directory id)) : next.lookup other = some (.directory id) := by
  rw [createFile] at made
  split at made
  · next allowed =>
      have different : other ≠ path := by
        rintro rfl
        rw [isDirectory_of_lookup found] at allowed
        cases allowed.1
      rw [← (Prod.mk.inj (Option.some.inj made)).1, lookup,
        List.find?_cons_of_neg (by simpa using Ne.symm different), find?_filter_other _ different]
      exact found
  · cases made

/-- What is neither at nor below the path that is renamed stays where it is. -/
theorem lookup_rename (renamed : tree.rename source target = some next)
    (found : tree.lookup other = some node) (outside : ¬ source <+: other) :
    next.lookup other = some node := by
  rw [rename] at renamed
  split at renamed
  · next allowed =>
      have free : ¬ target <+: other := allowed.2.2.2.2 (other, node) (mem_of_lookup found)
      have same : ∀ entry : List Name × Node,
          decide ((if source <+: entry.1 then (target ++ entry.1.drop source.length, entry.2)
            else entry).1 = other) = decide (entry.1 = other) := by
        intro entry
        split
        · next moved =>
            have notThere : target ++ entry.1.drop source.length ≠ other := by
              rintro rfl
              exact free (List.prefix_append ..)
            have notHere : entry.1 ≠ other := by
              rintro rfl
              exact outside moved
            simp [notThere, notHere]
        · rfl
      rw [← Option.some.inj renamed, lookup, List.find?_map]
      simp only [Function.comp_def, same]
      rw [lookup, Option.map_eq_some_iff] at found
      obtain ⟨entry, located, isNode⟩ := found
      have here := List.find?_some located
      rw [decide_eq_true_iff] at here
      have stays : ¬ source <+: entry.1 := by
        rw [here]
        exact outside
      rw [located, Option.map_some, Option.map_some, if_neg stays, isNode]
  · cases renamed

end FileTree

end Foundation
