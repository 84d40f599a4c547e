import Tegenaria.Foundation.FileTree
import Tegenaria.Foundation.Transition
import Tegenaria.LibSftp.HandleCache

/-!
# The cached client beside the uncached one

`CachedSftpClient` and `SftpClient` execute the same operations against a server with a
plain file system that nobody else changes.  Handle numbers are chosen by the server; what
a client returns is compared through the objects that the handles denote.  A handle is
named by the position of the call that returned it.

The server answers `createfile` by what its arguments ask for and what is at the path; how
it does is a parameter.
-/

namespace Tegenaria.LibSftp

open Foundation

variable {Name Args : Type} [DecidableEq Name]

/-- What a server does for `createfile`. -/
inductive CreateAnswer where
  | openExisting
  | newFile
  | refuse (code : Int)
  deriving DecidableEq

/-- What is behind a returned handle: an object, nothing that is open on the server, or an
error code in the place of a handle. -/
inductive Outcome where
  | opened (node : Node)
  | dangling
  | failed (code : Int)
  deriving DecidableEq

/-- What an operation returns, with the value of `*isDir` after `createfile`. -/
inductive Returned where
  | handle (outcome : Outcome)
  | created (outcome : Outcome) (isDir : Bool)
  | status (code : Int)
  deriving DecidableEq

/-- The operations with the choices of the environment: the handle that the server picks,
the value of `*isDir` before `createfile`, the clock, and the value that a function without
a `return` statement leaves. -/
inductive CacheOperation (Name Args : Type) where
  | opendir (path : List Name) (handle : Int)
  | createfile (path : List Name) (args : Args) (isDir : Bool) (handle : Int)
  | close (slot : Nat) (now value : Int)
  | mkdir (path : List Name)
  | rmdir (path : List Name)
  | rename (path1 path2 : List Name)
  | clean (currentTime : Int)

/-- `SSH2_FX_OK` and `SSH2_FX_FAILURE` -/
def statusOf {α : Type} (done : Option α) : Int := if done.isSome then 0 else 4

/-- `createfile` on the server. -/
def serverCreate (policy : Args → Option Node → CreateAnswer) (tree : FileTree Name)
    (path : List Name) (args : Args) : FileTree Name × Outcome :=
  match policy args (tree.lookup path) with
  | .openExisting =>
      match tree.lookup path with
      | some node => (tree, .opened node)
      | none => (tree, .failed (-1))
  | .newFile =>
      match tree.createFile path with
      | some (next, node) => (next, .opened node)
      | none => (tree, .failed (-1))
  | .refuse code => (tree, .failed code)

/-! ## The uncached client -/

/-- The file system and the objects behind the handles that were returned. -/
structure Uncached (Name : Type) where
  tree : FileTree Name
  slots : List (Option Node)

namespace Uncached

/-- `SftpClient::opendir` -/
def opendir (client : Uncached Name) (path : List Name) : Uncached Name × Returned :=
  match client.tree.lookup path with
  | some (.directory id) =>
      ({ client with slots := client.slots ++ [some (.directory id)] }, .handle (.opened (.directory id)))
  | _ => (client, .handle (.failed (-1)))

/-- `SftpClient::createfile`; `*isDir` is set for a directory only. -/
def createfile (policy : Args → Option Node → CreateAnswer) (client : Uncached Name)
    (path : List Name) (args : Args) (isDir : Bool) : Uncached Name × Returned :=
  let answer := serverCreate policy client.tree path args
  match answer.2 with
  | .opened node =>
      ({ tree := answer.1, slots := client.slots ++ [some node] },
        .created (.opened node) (node.isDirectory || isDir))
  | outcome => ({ client with tree := answer.1 }, .created outcome isDir)

/-- `SftpClient::close` -/
def close (client : Uncached Name) (slot : Nat) : Uncached Name × Returned :=
  ({ client with slots := client.slots.set slot none },
    .status (statusOf (client.slots[slot]?.getD none)))

/-- An operation that changes the tree or fails. -/
def change (client : Uncached Name) (changed : Option (FileTree Name)) : Uncached Name × Returned :=
  ({ client with tree := changed.getD client.tree }, .status (statusOf changed))

def step (policy : Args → Option Node → CreateAnswer) (client : Uncached Name) :
    CacheOperation Name Args → Uncached Name × Option Returned
  | .opendir path _ => let (next, result) := client.opendir path; (next, some result)
  | .createfile path args isDir _ =>
      let (next, result) := client.createfile policy path args isDir; (next, some result)
  | .close slot _ _ => let (next, result) := client.close slot; (next, some result)
  | .mkdir path => let (next, result) := client.change (client.tree.mkdir path); (next, some result)
  | .rmdir path => let (next, result) := client.change (client.tree.rmdir path); (next, some result)
  | .rename path1 path2 =>
      let (next, result) := client.change (client.tree.rename path1 path2); (next, some result)
  | .clean _ => (client, none)

end Uncached

/-! ## The cached client -/

/-- The file system and the open handles of the server, the cache, and the handles that were
returned. -/
structure Cached (Name : Type) where
  tree : FileTree Name
  handles : Int → Option Node
  cache : HandleCache (List Name)
  slots : List Int

namespace Cached

/-- What a returned handle denotes. -/
def denotes (client : Cached Name) (handle : Int) : Outcome :=
  match client.handles handle with
  | some node => .opened node
  | none => .dangling

/-- `realclose` and `multiclose` -/
def realclose (client : Cached Name) (handles : List Int) : Cached Name :=
  { client with handles := fun handle => if handle ∈ handles then none else client.handles handle }

/-- The server picks a handle that is not in use. -/
def mayPick (client : Cached Name) (handle : Int) : Bool := 0 ≤ handle ∧ client.handles handle = none

/-- A handle that was opened on the server is returned. -/
def opened (client : Cached Name) (handle : Int) (node : Node) : Cached Name :=
  { client with
    handles := Function.update client.handles handle (some node)
    slots := client.slots ++ [handle] }

/-- The handle of a directory is put into the cache. -/
def remember (client : Cached Name) (path : List Name) (handle : Int) : Cached Name :=
  { client with cache := client.cache.add path handle }

/-- `CachedSftpClient::opendir` -/
def opendir (client : Cached Name) (path : List Name) (handle : Int) :
    Option (Cached Name × Returned) :=
  match client.cache.reuse path with
  | some (found, cache) =>
      some ({ client with cache, slots := client.slots ++ [found] }, .handle (client.denotes found))
  | none =>
      match client.tree.lookup path with
      | some (.directory id) =>
          if client.mayPick handle then
            some ((client.opened handle (.directory id)).remember path handle,
              .handle (.opened (.directory id)))
          else none
      | _ => some (client, .handle (.failed (-1)))

/-- `CachedSftpClient::createfile`.  A directory that is found in the cache leaves `*isDir` as
it is. -/
def createfile (policy : Args → Option Node → CreateAnswer) (client : Cached Name)
    (path : List Name) (args : Args) (isDir : Bool) (handle : Int) : Option (Cached Name × Returned) :=
  match client.cache.reuse path with
  | some (found, cache) =>
      some ({ client with cache, slots := client.slots ++ [found] }, .created (client.denotes found) isDir)
  | none =>
      let answer := serverCreate policy client.tree path args
      match answer.2 with
      | .opened node =>
          if client.mayPick handle then
            let next := { client with tree := answer.1 }.opened handle node
            some (if node.isDirectory then next.remember path handle else next,
              .created (.opened node) (node.isDirectory))
          else none
      | outcome => some ({ client with tree := answer.1 }, .created outcome false)

/-- `CachedSftpClient::close`; it has no `return` statement. -/
def close (client : Cached Name) (slot : Nat) (now value : Int) : Option (Cached Name × Returned) :=
  (client.slots[slot]?).map fun handle =>
    match client.cache.release handle now with
    | some cache => ({ client with cache }, .status value)
    | none => (client.realclose [handle], .status value)

/-- `CachedSftpClient::removeUnusedHandle` -/
def removeUnusedHandle (client : Cached Name) (path : List Name) : Cached Name :=
  let removed := client.cache.removeUnused path
  { client with cache := removed.1 }.realclose removed.2.toList

/-- An operation that changes the tree or fails. -/
def change (client : Cached Name) (changed : Option (FileTree Name)) : Cached Name × Returned :=
  ({ client with tree := changed.getD client.tree }, .status (statusOf changed))

/-- One round of `cleanerLoop`. -/
def clean (client : Cached Name) (currentTime : Int) : Cached Name :=
  let expired := client.cache.expire currentTime
  { client with cache := expired.1 }.realclose expired.2

def step (policy : Args → Option Node → CreateAnswer) (client : Cached Name) :
    CacheOperation Name Args → Option (Cached Name × Option Returned)
  | .opendir path handle => (client.opendir path handle).map fun done => (done.1, some done.2)
  | .createfile path args isDir handle =>
      (client.createfile policy path args isDir handle).map fun done => (done.1, some done.2)
  | .close slot now value => (client.close slot now value).map fun done => (done.1, some done.2)
  | .mkdir path =>
      let done := (client.removeUnusedHandle path).change (client.tree.mkdir path)
      some (done.1, some done.2)
  | .rmdir path =>
      let done := (client.removeUnusedHandle path).change (client.tree.rmdir path)
      some (done.1, some done.2)
  | .rename path1 path2 =>
      let done := ((client.removeUnusedHandle path1).removeUnusedHandle path2).change
        (client.tree.rename path1 path2)
      some (done.1, some done.2)
  | .clean currentTime => some (client.clean currentTime, none)

end Cached

/-! ## Both clients -/

/-- The two clients and what they have returned. -/
structure Both (Name : Type) where
  cached : Cached Name
  uncached : Uncached Name
  cachedResults : List Returned
  uncachedResults : List Returned

namespace Both

/-- Both clients at the start, with the same file system. -/
def start (tree : FileTree Name) : Both Name where
  cached := { tree, handles := fun _ => none, cache := [], slots := [] }
  uncached := { tree, slots := [] }
  cachedResults := []
  uncachedResults := []

def step (policy : Args → Option Node → CreateAnswer) (both : Both Name)
    (operation : CacheOperation Name Args) : Option (Both Name) :=
  (both.cached.step policy operation).map fun done =>
    let reference := both.uncached.step policy operation
    { cached := done.1
      uncached := reference.1
      cachedResults := both.cachedResults ++ done.2.toList
      uncachedResults := both.uncachedResults ++ reference.2.toList }

def machine (policy : Args → Option Node → CreateAnswer) : Machine (Both Name) (CacheOperation Name Args) :=
  ⟨step policy⟩

/-- The operation meets no case that the cache does not handle: a directory that `createfile`
finds in the cache would be opened by the server too, and `*isDir` is set already; `*isDir` is
not set before `createfile` does not open a directory; the value that `close` leaves is the
status; no cached directory in use is removed; and none at or below a path that is renamed,
except an unused one at the path itself. -/
def transparent (policy : Args → Option Node → CreateAnswer) (both : Both Name) :
    CacheOperation Name Args → Bool
  | .createfile path args isDir _ =>
      if (both.cached.cache.reuse path).isSome then
        isDir = true ∧ policy args (both.cached.tree.lookup path) = .openExisting
      else
        match (serverCreate policy both.cached.tree path args).2 with
        | .opened (.directory _) => true
        | _ => isDir = false
  | .close slot _ value => value = statusOf (both.uncached.slots[slot]?.getD none)
  | .rmdir path =>
      (both.cached.tree.rmdir path).isNone ∨
        ∀ element ∈ both.cached.cache, element.path = path → element.refCount = 0
  | .rename path1 path2 =>
      (both.cached.tree.rename path1 path2).isNone ∨
        ∀ element ∈ both.cached.cache, path1 <+: element.path →
          element.path = path1 ∧ element.refCount = 0
  | .opendir .. | .mkdir _ | .clean _ => true

end Both

/-! ## The cache tells the truth -/

/-- Every handle in the cache is open and denotes the directory that is at its path. -/
structure Faithful (client : Cached Name) : Prop where
  denotes : ∀ element ∈ client.cache, element.isDir = true ∧
    ∃ id, client.handles element.handle = some (.directory id) ∧
      client.tree.lookup element.path = some (.directory id)
  handles : (client.cache.map CacheElement.handle).Nodup
  paths : (client.cache.map CacheElement.path).Nodup

namespace Faithful

variable {client : Cached Name}

theorem start (tree : FileTree Name) : Faithful (Both.start tree).cached where
  denotes := fun _ member => (List.not_mem_nil member).elim
  handles := List.nodup_nil
  paths := List.nodup_nil

/-- Elements may leave the cache, and handles that are not in it any more may be closed. -/
theorem restrict (faithful : Faithful client) {cache : HandleCache (List Name)} {closed : List Int}
    (fewer : cache.Sublist client.cache) (apart : ∀ element ∈ cache, element.handle ∉ closed) :
    Faithful ({ client with cache }.realclose closed) where
  denotes := by
    intro element member
    obtain ⟨isDir, id, isOpen, found⟩ := faithful.denotes element (fewer.subset member)
    refine ⟨isDir, id, ?_, found⟩
    exact (if_neg (apart element member)).trans isOpen
  handles := faithful.handles.sublist (fewer.map _)
  paths := faithful.paths.sublist (fewer.map _)

/-- An element may get another count. -/
theorem recount (faithful : Faithful client) {left right : HandleCache (List Name)}
    {element changed : CacheElement (List Name)} {slots : List Int}
    (split : client.cache = left ++ element :: right)
    (samePath : changed.path = element.path) (sameHandle : changed.handle = element.handle)
    (sameDir : changed.isDir = element.isDir) :
    Faithful { client with cache := left ++ changed :: right, slots } where
  denotes := by
    intro other member
    cases List.mem_append.mp member with
    | inl before =>
        exact faithful.denotes other (split ▸ List.mem_append_left _ before)
    | inr after =>
        cases List.mem_cons.mp after with
        | inl isChanged =>
            rw [isChanged, samePath, sameHandle, sameDir]
            exact faithful.denotes element (split ▸ List.mem_append_right _ List.mem_cons_self)
        | inr behind =>
            exact faithful.denotes other
              (split ▸ List.mem_append_right _ (List.mem_cons_of_mem _ behind))
  handles := by
    have nodup := faithful.handles
    rw [split, List.map_append, List.map_cons] at nodup
    rwa [List.map_append, List.map_cons, sameHandle]
  paths := by
    have nodup := faithful.paths
    rw [split, List.map_append, List.map_cons] at nodup
    rwa [List.map_append, List.map_cons, samePath]

/-- The tree may change where no cached path leads. -/
theorem setTree (faithful : Faithful client) {tree : FileTree Name}
    (kept : ∀ element ∈ client.cache, ∀ id, client.tree.lookup element.path = some (.directory id) →
      tree.lookup element.path = some (.directory id)) :
    Faithful { client with tree } where
  denotes := by
    intro element member
    obtain ⟨isDir, id, isOpen, found⟩ := faithful.denotes element member
    exact ⟨isDir, id, isOpen, kept element member id found⟩
  handles := faithful.handles
  paths := faithful.paths

/-- A handle that the server picks is not in the cache. -/
theorem fresh (faithful : Faithful client) {handle : Int} (free : client.handles handle = none) :
    ∀ element ∈ client.cache, element.handle ≠ handle := by
  rintro element member rfl
  obtain ⟨_, id, isOpen, _⟩ := faithful.denotes element member
  rw [free] at isOpen
  cases isOpen

theorem opened (faithful : Faithful client) {handle : Int} {node : Node}
    (free : client.handles handle = none) : Faithful (client.opened handle node) where
  denotes := by
    intro element member
    obtain ⟨isDir, id, isOpen, found⟩ := faithful.denotes element member
    refine ⟨isDir, id, ?_, found⟩
    exact (Function.update_of_ne (faithful.fresh free element member) ..).trans isOpen
  handles := faithful.handles
  paths := faithful.paths

/-- A directory that was opened may be put into the cache, if its path is not there yet. -/
theorem remember (faithful : Faithful client) {handle : Int} {path : List Name} {id : Nat}
    (free : client.handles handle = none) (missing : ∀ element ∈ client.cache, element.path ≠ path)
    (found : client.tree.lookup path = some (.directory id)) :
    Faithful ((client.opened handle (.directory id)).remember path handle) where
  denotes := by
    intro element member
    cases List.mem_append.mp member with
    | inl before => exact (faithful.opened free).denotes element before
    | inr added =>
        rw [List.mem_singleton.mp added]
        exact ⟨rfl, id, Function.update_self .., found⟩
  handles := by
    show (List.map CacheElement.handle (client.cache ++ [_])).Nodup
    rw [List.map_append, List.nodup_append]
    refine ⟨faithful.handles, List.nodup_singleton _, ?_⟩
    intro first inCache second added same
    obtain ⟨element, member, isFirst⟩ := List.mem_map.mp inCache
    rw [List.map_singleton, List.mem_singleton] at added
    exact faithful.fresh free element member (isFirst.trans (same.trans added))
  paths := by
    show (List.map CacheElement.path (client.cache ++ [_])).Nodup
    rw [List.map_append, List.nodup_append]
    refine ⟨faithful.paths, List.nodup_singleton _, ?_⟩
    intro first inCache second added same
    obtain ⟨element, member, isFirst⟩ := List.mem_map.mp inCache
    rw [List.map_singleton, List.mem_singleton] at added
    exact missing element member (isFirst.trans (same.trans added))

end Faithful

/-! ## Operations -/

variable {client next : Cached Name} {policy : Args → Option Node → CreateAnswer}

/-- A lookup that finds nothing in a cache of directories. -/
theorem reuse_eq_none {cache : HandleCache (List Name)} {path : List Name}
    (dirs : ∀ element ∈ cache, element.isDir = true) (missing : cache.reuse path = none) :
    ∀ element ∈ cache, element.path ≠ path := by
  rw [HandleCache.reuse] at missing
  split at missing
  · next element found =>
      rw [if_pos (dirs element (List.mem_of_find?_eq_some found))] at missing
      cases missing
  · next notFound =>
      intro element member samePath
      have different := List.find?_eq_none.mp notFound element member
      exact different (decide_eq_true samePath)

/-- A handle that is found in the cache denotes the directory at its path. -/
theorem Faithful.reuse (faithful : Faithful client) {path : List Name} {found : Int}
    {cache : HandleCache (List Name)} (reused : client.cache.reuse path = some (found, cache)) :
    Faithful { client with cache, slots := client.slots ++ [found] } ∧
      ∃ id, client.denotes found = .opened (.directory id) ∧
        client.tree.lookup path = some (.directory id) := by
  obtain ⟨left, element, right, split, isPath, _, isHandle, isCache⟩ :=
    HandleCache.reuse_eq_some reused
  have member : element ∈ client.cache := split ▸ List.mem_append_right _ List.mem_cons_self
  obtain ⟨_, id, isOpen, located⟩ := faithful.denotes element member
  rw [isHandle] at isOpen
  rw [isPath] at located
  refine ⟨?_, id, ?_, located⟩
  · rw [isCache]
    exact faithful.recount split rfl rfl rfl
  · rw [Cached.denotes, isOpen]

theorem Faithful.opendir (faithful : Faithful client) {path : List Name} {handle : Int}
    {returned : Returned} (done : client.opendir path handle = some (next, returned))
    {reference : Uncached Name} (sameTree : reference.tree = client.tree) :
    Faithful next ∧ (reference.opendir path).1.tree = next.tree ∧
      (reference.opendir path).2 = returned := by
  rw [Cached.opendir] at done
  split at done
  · next found cache reused =>
      obtain ⟨nextFaithful, id, isOpen, located⟩ := faithful.reuse reused
      obtain ⟨isNext, isReturned⟩ := Prod.mk.inj (Option.some.inj done)
      rw [Uncached.opendir, sameTree, located, ← isNext, ← isReturned, isOpen]
      exact ⟨nextFaithful, rfl, rfl⟩
  · next missing =>
      split at done
      · next id located =>
          split at done
          · next free =>
              rw [Cached.mayPick, decide_eq_true_iff] at free
              obtain ⟨isNext, isReturned⟩ := Prod.mk.inj (Option.some.inj done)
              rw [Uncached.opendir, sameTree, located, ← isNext, ← isReturned]
              have absent := reuse_eq_none (fun element member => (faithful.denotes element member).1)
                missing
              exact ⟨faithful.remember free.2 absent located, rfl, rfl⟩
          · cases done
      · next notDirectory =>
          obtain ⟨isNext, isReturned⟩ := Prod.mk.inj (Option.some.inj done)
          rw [← isNext, ← isReturned, Uncached.opendir, sameTree]
          split
          · next id located => exact (notDirectory id located).elim
          · exact ⟨faithful, sameTree, rfl⟩

/-- `createfile` leaves directories where they are. -/
theorem serverCreate_lookup {tree : FileTree Name} {path other : List Name} {args : Args} {id : Nat}
    (found : tree.lookup other = some (.directory id)) :
    (serverCreate policy tree path args).1.lookup other = some (.directory id) := by
  rw [serverCreate]
  split
  · split
    · exact found
    · exact found
  · split
    · next after node made => exact FileTree.lookup_createFile made found
    · exact found
  · exact found

/-- `createfile` returns a directory only if it is at the path. -/
theorem serverCreate_directory {tree : FileTree Name} {path : List Name} {args : Args} {id : Nat}
    (isOpen : (serverCreate policy tree path args).2 = .opened (.directory id)) :
    (serverCreate policy tree path args).1.lookup path = some (.directory id) := by
  rw [serverCreate] at isOpen ⊢
  split at isOpen
  · split at isOpen
    · next node located =>
        exact located.trans (congrArg some (Outcome.opened.inj isOpen))
    · cases isOpen
  · split at isOpen
    · next after node made =>
        rw [FileTree.createFile] at made
        split at made
        · rw [← (Prod.mk.inj (Option.some.inj made)).2] at isOpen
          cases isOpen
        · cases made
    · cases isOpen
  · cases isOpen

theorem Faithful.createfile (faithful : Faithful client) {path : List Name} {args : Args} {isDir : Bool}
    {handle : Int} {returned : Returned}
    (done : client.createfile policy path args isDir handle = some (next, returned))
    {reference : Uncached Name} (sameTree : reference.tree = client.tree)
    (hit : (client.cache.reuse path).isSome = true →
      isDir = true ∧ policy args (client.tree.lookup path) = .openExisting)
    (miss : client.cache.reuse path = none → isDir = false ∨
      ∃ id, (serverCreate policy client.tree path args).2 = .opened (.directory id)) :
    Faithful next ∧ (reference.createfile policy path args isDir).1.tree = next.tree ∧
      (reference.createfile policy path args isDir).2 = returned := by
  rw [Cached.createfile] at done
  split at done
  · next found cache reused =>
      obtain ⟨isSet, opens⟩ := hit (by rw [reused]; rfl)
      obtain ⟨nextFaithful, id, isOpen, located⟩ := faithful.reuse reused
      obtain ⟨isNext, isReturned⟩ := Prod.mk.inj (Option.some.inj done)
      have answer : serverCreate policy client.tree path args = (client.tree, .opened (.directory id)) := by
        rw [serverCreate, opens, located]
      rw [Uncached.createfile, sameTree, answer, ← isNext, ← isReturned, isOpen, isSet]
      exact ⟨nextFaithful, rfl, rfl⟩
  · next missing =>
      have absent := reuse_eq_none (fun element member => (faithful.denotes element member).1) missing
      have changed : Faithful { client with tree := (serverCreate policy client.tree path args).1 } :=
        faithful.setTree fun element _ id located => serverCreate_lookup located
      have unset := miss missing
      have unopened : ∀ {outcome : Outcome},
          (isDir = false ∨ ∃ id, (serverCreate policy client.tree path args).2 = .opened (.directory id)) →
          (serverCreate policy client.tree path args).2 = outcome →
          (∀ node, outcome ≠ .opened node) →
          some ({ client with tree := (serverCreate policy client.tree path args).1 },
            Returned.created outcome false) = some (next, returned) →
          Faithful next ∧ (serverCreate policy client.tree path args).1 = next.tree ∧
            Returned.created outcome isDir = returned := by
        intro outcome unset isOutcome notOpen done
        obtain ⟨isNext, isReturned⟩ := Prod.mk.inj (Option.some.inj done)
        rw [← isNext, ← isReturned]
        rcases unset with notSet | ⟨id, isDirectory⟩
        · rw [notSet]
          exact ⟨changed, rfl, rfl⟩
        · exact (notOpen _ (isOutcome.symm.trans isDirectory)).elim
      rw [Uncached.createfile, sameTree]
      cases isOpen : (serverCreate policy client.tree path args).2 with
      | opened node =>
          simp only [isOpen] at done ⊢
          split at done
          · next free =>
              rw [Cached.mayPick, decide_eq_true_iff] at free
              obtain ⟨isNext, isReturned⟩ := Prod.mk.inj (Option.some.inj done)
              rw [← isNext, ← isReturned]
              cases node with
              | directory id =>
                  exact ⟨changed.remember free.2 absent (serverCreate_directory isOpen), rfl, rfl⟩
              | file id =>
                  refine ⟨changed.opened free.2, rfl, ?_⟩
                  rcases unset with notSet | ⟨other, isDirectory⟩
                  · rw [notSet]
                    rfl
                  · rw [isOpen] at isDirectory
                    cases isDirectory
          · cases done
      | dangling =>
          simp only [isOpen] at done ⊢
          exact unopened unset isOpen (fun node => Outcome.noConfusion) done
      | failed code =>
          simp only [isOpen] at done ⊢
          exact unopened unset isOpen (fun node => Outcome.noConfusion) done

theorem Faithful.close (faithful : Faithful client) {slot : Nat} {now value : Int} {returned : Returned}
    (done : client.close slot now value = some (next, returned)) :
    Faithful next ∧ next.tree = client.tree ∧ returned = .status value := by
  obtain ⟨handle, _, finished⟩ := Option.map_eq_some_iff.mp done
  split at finished
  · next cache released =>
      obtain ⟨isNext, isReturned⟩ := Prod.mk.inj finished
      obtain ⟨left, element, right, split, _, _, isCache⟩ := HandleCache.release_eq_some released
      rw [← isNext, ← isReturned, isCache]
      exact ⟨faithful.recount split rfl rfl rfl, rfl, rfl⟩
  · next notReleased =>
      obtain ⟨isNext, isReturned⟩ := Prod.mk.inj finished
      have outside := HandleCache.release_eq_none
        (fun element member => (faithful.denotes element member).1) notReleased
      rw [← isNext, ← isReturned]
      refine ⟨faithful.restrict (List.Sublist.refl _) fun element member closed => ?_, rfl, rfl⟩
      exact outside (List.mem_map.mpr ⟨element, member, List.mem_singleton.mp closed⟩)

/-- The handle of an element that is taken off the cache is not in it any more. -/
theorem Faithful.apart (faithful : Faithful client) {left right : HandleCache (List Name)}
    {element : CacheElement (List Name)} (split : client.cache = left ++ element :: right) :
    (∀ other ∈ left ++ right, other.handle ≠ element.handle) ∧
      ∀ other ∈ left ++ right, other.path ≠ element.path := by
  have handles := faithful.handles
  have paths := faithful.paths
  rw [split, List.map_append, List.map_cons, List.nodup_middle, List.nodup_cons, ← List.map_append]
    at handles paths
  constructor
  · intro other member same
    exact handles.1 (List.mem_map.mpr ⟨other, member, same⟩)
  · intro other member same
    exact paths.1 (List.mem_map.mpr ⟨other, member, same⟩)

theorem removeUnusedHandle_sublist (client : Cached Name) (path : List Name) :
    (client.removeUnusedHandle path).cache.Sublist client.cache := by
  cases removed : client.cache.removeUnused path with
  | mk cache closed =>
      show (client.cache.removeUnused path).1.Sublist client.cache
      rw [removed]
      cases closed with
      | none => rw [HandleCache.removeUnused_eq_none removed]
      | some handle =>
          obtain ⟨left, element, right, split, _, _, _, isCache⟩ := HandleCache.removeUnused_eq_some removed
          rw [split, isCache]
          exact (List.Sublist.refl left).append (List.sublist_cons_self ..)

theorem Faithful.removeUnusedHandle (faithful : Faithful client) (path : List Name) :
    Faithful (client.removeUnusedHandle path) := by
  refine faithful.restrict (removeUnusedHandle_sublist client path) fun other member closed => ?_
  cases removed : client.cache.removeUnused path with
  | mk cache closing =>
      rw [removed] at member closed
      cases closing with
      | none => cases closed
      | some handle =>
          obtain ⟨left, element, right, split, _, _, isHandle, isCache⟩ :=
            HandleCache.removeUnused_eq_some removed
          have isMember : other ∈ left ++ right := isCache ▸ member
          have isClosed : other.handle = handle := List.mem_singleton.mp closed
          exact (faithful.apart split).1 other isMember (isClosed.trans isHandle.symm)

/-- A directory that is not in use is not in the cache any more. -/
theorem Faithful.removed (faithful : Faithful client) {path : List Name}
    (unused : ∀ element ∈ client.cache, element.path = path → element.refCount = 0) :
    ∀ element ∈ (client.removeUnusedHandle path).cache, element.path ≠ path := by
  intro other member
  have remains : other ∈ (client.cache.removeUnused path).1 := member
  rw [HandleCache.removeUnused] at remains
  split at remains
  · next element found =>
      obtain ⟨left, right, split, here, before⟩ := HandleCache.find?_split found
      have isPath : element.path = path := of_decide_eq_true here
      have free := unused element (List.mem_of_find?_eq_some found) isPath
      rw [if_pos free, split, List.eraseP_append_right _ fun other mem => by simp [before other mem],
        List.eraseP_cons_of_pos here] at remains
      have different := (faithful.apart split).2 other remains
      rwa [isPath] at different
  · next notFound =>
      intro samePath
      exact List.find?_eq_none.mp notFound other remains (decide_eq_true samePath)

/-- A change of the tree that keeps the directories in the cache. -/
theorem Faithful.change (faithful : Faithful client) {changed : Option (FileTree Name)}
    (kept : ∀ tree, changed = some tree → ∀ element ∈ client.cache, ∀ id,
      client.tree.lookup element.path = some (.directory id) →
        tree.lookup element.path = some (.directory id)) :
    Faithful (client.change changed).1 := by
  cases changed with
  | none => exact faithful
  | some tree => exact faithful.setTree (kept tree rfl)

theorem Faithful.mkdir (faithful : Faithful client) (path : List Name) :
    Faithful ((client.removeUnusedHandle path).change (client.tree.mkdir path)).1 := by
  refine (faithful.removeUnusedHandle path).change fun tree made element _ id found => ?_
  exact FileTree.lookup_mkdir made found

theorem Faithful.rmdir (faithful : Faithful client) {path : List Name}
    (unused : (client.tree.rmdir path).isNone = true ∨
      ∀ element ∈ client.cache, element.path = path → element.refCount = 0) :
    Faithful ((client.removeUnusedHandle path).change (client.tree.rmdir path)).1 := by
  refine (faithful.removeUnusedHandle path).change fun tree gone element member id found => ?_
  rcases unused with refused | unused
  · rw [gone] at refused
    cases refused
  · exact FileTree.lookup_rmdir gone found (faithful.removed unused element member)

theorem Faithful.rename (faithful : Faithful client) {path1 path2 : List Name}
    (outside : (client.tree.rename path1 path2).isNone = true ∨
      ∀ element ∈ client.cache, path1 <+: element.path → element.path = path1 ∧ element.refCount = 0) :
    Faithful (((client.removeUnusedHandle path1).removeUnusedHandle path2).change
      (client.tree.rename path1 path2)).1 := by
  refine ((faithful.removeUnusedHandle path1).removeUnusedHandle path2).change
    fun tree moved element member id found => ?_
  rcases outside with refused | outside
  · rw [moved] at refused
    cases refused
  · have remains := (removeUnusedHandle_sublist _ path2).subset member
    have listed := (removeUnusedHandle_sublist client path1).subset remains
    have unused : ∀ element ∈ client.cache, element.path = path1 → element.refCount = 0 := by
      intro other inCache samePath
      exact (outside other inCache (samePath ▸ List.prefix_rfl)).2
    have different := faithful.removed unused element remains
    exact FileTree.lookup_rename moved found fun below => different (outside element listed below).1

theorem Faithful.clean (faithful : Faithful client) (currentTime : Int) :
    Faithful (client.clean currentTime) := by
  refine faithful.restrict List.filter_sublist fun element member closed => ?_
  have nodup := (HandleCache.expire_perm client.cache currentTime).nodup_iff.mp faithful.handles
  rw [List.nodup_append] at nodup
  exact nodup.2.2 element.handle (List.mem_map.mpr ⟨element, member, rfl⟩) element.handle closed rfl

/-! ## Runs -/

namespace Both

/-- What holds as long as every operation is transparent. -/
structure Agree (both : Both Name) : Prop where
  faithful : Faithful both.cached
  trees : both.uncached.tree = both.cached.tree
  results : both.uncachedResults = both.cachedResults

variable {both after : Both Name}

/-- Both clients have made a step. -/
theorem Agree.advance (agree : Agree both) {operation : CacheOperation Name Args} {returned : Option Returned}
    {cached : Cached Name} (done : both.cached.step policy operation = some (cached, returned))
    (stepped : both.step policy operation = some after) (faithful : Faithful cached)
    (trees : (both.uncached.step policy operation).1.tree = cached.tree)
    (results : (both.uncached.step policy operation).2 = returned) : Agree after := by
  rw [Both.step, done, Option.map_some] at stepped
  rw [← Option.some.inj stepped]
  refine ⟨faithful, trees, ?_⟩
  show both.uncachedResults ++ (both.uncached.step policy operation).2.toList =
    both.cachedResults ++ returned.toList
  rw [agree.results, results]

theorem step_agree {operation : CacheOperation Name Args} (agree : Agree both)
    (transparent : both.transparent policy operation = true)
    (stepped : both.step policy operation = some after) : Agree after := by
  have sameTree := agree.trees
  obtain ⟨⟨cached, returned⟩, done, _⟩ := Option.map_eq_some_iff.mp stepped
  cases operation with
  | opendir path handle =>
      obtain ⟨⟨next, result⟩, executed, isDone⟩ := Option.map_eq_some_iff.mp done
      obtain ⟨isNext, isReturned⟩ := Prod.mk.inj isDone
      obtain ⟨faithful, trees, results⟩ := agree.faithful.opendir executed sameTree
      rw [← isNext, ← isReturned] at done
      exact agree.advance done stepped faithful trees (congrArg some results)
  | createfile path args isDir handle =>
      obtain ⟨⟨next, result⟩, executed, isDone⟩ := Option.map_eq_some_iff.mp done
      obtain ⟨isNext, isReturned⟩ := Prod.mk.inj isDone
      rw [Both.transparent] at transparent
      have hit : (both.cached.cache.reuse path).isSome = true →
          isDir = true ∧ policy args (both.cached.tree.lookup path) = .openExisting := by
        intro found
        rw [if_pos found] at transparent
        exact of_decide_eq_true transparent
      have miss : both.cached.cache.reuse path = none → isDir = false ∨
          ∃ id, (serverCreate policy both.cached.tree path args).2 = .opened (.directory id) := by
        intro missing
        have notFound : ¬ (both.cached.cache.reuse path).isSome = true := by
          rw [missing]
          exact Bool.false_ne_true
        rw [if_neg notFound] at transparent
        split at transparent
        · next id isOpen => exact .inr ⟨id, isOpen⟩
        · exact .inl (of_decide_eq_true transparent)
      obtain ⟨faithful, trees, results⟩ := agree.faithful.createfile executed sameTree hit miss
      rw [← isNext, ← isReturned] at done
      exact agree.advance done stepped faithful trees (congrArg some results)
  | close slot now value =>
      obtain ⟨⟨next, result⟩, executed, isDone⟩ := Option.map_eq_some_iff.mp done
      obtain ⟨isNext, isReturned⟩ := Prod.mk.inj isDone
      obtain ⟨faithful, trees, results⟩ := agree.faithful.close executed
      have status : value = statusOf (both.uncached.slots[slot]?.getD none) :=
        of_decide_eq_true transparent
      rw [← isNext, ← isReturned] at done
      refine agree.advance done stepped faithful (sameTree.trans trees.symm) ?_
      rw [results, status]
      rfl
  | mkdir path =>
      refine agree.advance rfl stepped (agree.faithful.mkdir path) ?_ ?_
      · show (both.uncached.tree.mkdir path).getD both.uncached.tree =
          (both.cached.tree.mkdir path).getD both.cached.tree
        rw [sameTree]
      · show some (Returned.status (statusOf (both.uncached.tree.mkdir path))) = _
        rw [sameTree]
        rfl
  | rmdir path =>
      refine agree.advance rfl stepped (agree.faithful.rmdir (of_decide_eq_true transparent)) ?_ ?_
      · show (both.uncached.tree.rmdir path).getD both.uncached.tree =
          (both.cached.tree.rmdir path).getD both.cached.tree
        rw [sameTree]
      · show some (Returned.status (statusOf (both.uncached.tree.rmdir path))) = _
        rw [sameTree]
        rfl
  | rename path1 path2 =>
      refine agree.advance rfl stepped (agree.faithful.rename (of_decide_eq_true transparent)) ?_ ?_
      · show (both.uncached.tree.rename path1 path2).getD both.uncached.tree =
          (both.cached.tree.rename path1 path2).getD both.cached.tree
        rw [sameTree]
      · show some (Returned.status (statusOf (both.uncached.tree.rename path1 path2))) = _
        rw [sameTree]
        rfl
  | clean currentTime =>
      exact agree.advance rfl stepped (agree.faithful.clean currentTime) sameTree rfl

/-- A server that opens what is there and else creates a file. -/
def openAlways (_ : Unit) : Option Node → CreateAnswer
  | some _ => .openExisting
  | none => .newFile

/-- A directory is made, opened twice, closed, and removed after its handle was taken off the
cache. -/
def useAndRemove : List (CacheOperation Nat Unit) :=
  [.mkdir [1], .opendir [1] 5, .opendir [1] 6, .close 0 10 0, .close 1 11 0,
    .createfile [1] () true 6, .createfile [2] () false 6, .close 2 12 0, .clean 20, .rmdir [1],
    .opendir [1] 7]

/-- A directory is opened and its parent is renamed; the old path is opened again. -/
def renameParent : List (CacheOperation Nat Unit) :=
  [.mkdir [1], .mkdir [1, 2], .opendir [1, 2] 5, .rename [1] [3], .opendir [1, 2] 6]

end Both

end Tegenaria.LibSftp
