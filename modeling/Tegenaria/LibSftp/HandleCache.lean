import Mathlib.Data.List.Basic
import Mathlib.Data.List.Nodup

/-!
# The list of cached directory handles

`CachedSftpClient` keeps the handles of directories open on the server for a
while after their last user has closed them.  The functions of this module are
the critical sections of the client: each of them is executed while the mutex of
the cache is held.
-/

namespace Tegenaria.LibSftp

/-- `CacheElement`, without the cached contents of the directory. -/
structure CacheElement (Path : Type) where
  path : Path
  handle : Int
  refCount : Int
  closeTime : Int
  isDir : Bool
  deriving DecidableEq

/-- Change the first element that a search finds. -/
def updateFirst {α : Type} (found : α → Bool) (change : α → α) : List α → List α
  | [] => []
  | first :: rest =>
      if found first then change first :: rest
      else first :: updateFirst found change rest

/-- `cache_` -/
abbrev HandleCache (Path : Type) := List (CacheElement Path)

namespace HandleCache

variable {Path : Type} [DecidableEq Path]

def hasPath (path : Path) (element : CacheElement Path) : Bool := element.path = path

def hasHandle (handle : Int) (element : CacheElement Path) : Bool := element.handle = handle

/-- The first critical section of `opendir` and `createfile`: a cached directory
gets one more user. -/
def reuse (cache : HandleCache Path) (path : Path) : Option (Int × HandleCache Path) :=
  match cache.find? (hasPath path) with
  | some element =>
      if element.isDir then
        some (element.handle, updateFirst (hasPath path)
          (fun element => { element with refCount := element.refCount + 1 }) cache)
      else none
  | none => none

/-- The second critical section of `opendir` and `createfile`.  The time of the
last close is not set yet. -/
def add (cache : HandleCache Path) (path : Path) (handle : Int) : HandleCache Path :=
  cache ++ [⟨path, handle, 1, 0, true⟩]

/-- The critical section of `close`; `none` when the handle has to be closed on the
server. -/
def release (cache : HandleCache Path) (handle now : Int) : Option (HandleCache Path) :=
  match cache.find? (hasHandle handle) with
  | some element =>
      if element.isDir then
        some (updateFirst (hasHandle handle) (fun element =>
          { element with refCount := element.refCount - 1, closeTime := now }) cache)
      else none
  | none => none

/-- The critical section of `removeUnusedHandle`, with the handle that is to be
closed on the server. -/
def removeUnused (cache : HandleCache Path) (path : Path) : HandleCache Path × Option Int :=
  match cache.find? (hasPath path) with
  | some element =>
      if element.refCount = 0 then (cache.eraseP (hasPath path), some element.handle)
      else (cache, none)
  | none => (cache, none)

/-- The cleaner takes unused elements off the list after five seconds. -/
def isExpired (currentTime : Int) (element : CacheElement Path) : Bool :=
  element.refCount = 0 ∧ currentTime - element.closeTime > 5

/-- The critical section of `cleanerLoop`. -/
def expire (cache : HandleCache Path) (currentTime : Int) : HandleCache Path × List Int :=
  (cache.filter fun element => !isExpired currentTime element,
    (cache.filter (isExpired currentTime)).map CacheElement.handle)

/-! ## Splitting the list at the element that was found -/

section Split

variable {α : Type} {found : α → Bool} {change : α → α} {element : α} {list : List α}

theorem updateFirst_split {left right : List α} (here : found element = true)
    (before : ∀ other ∈ left, found other = false) :
    updateFirst found change (left ++ element :: right) = left ++ change element :: right := by
  induction left with
  | nil => rw [List.nil_append, updateFirst, if_pos here, List.nil_append]
  | cons first left ih =>
      have skipped : ¬found first = true := by
        rw [before first List.mem_cons_self]
        exact Bool.false_ne_true
      rw [List.cons_append, updateFirst, if_neg skipped, List.cons_append,
        ih fun other mem => before other (List.mem_cons_of_mem _ mem)]

/-- The list around the first element that was found. -/
theorem find?_split (result : list.find? found = some element) :
    ∃ left right, list = left ++ element :: right ∧ found element = true ∧
      ∀ other ∈ left, found other = false := by
  obtain ⟨here, left, right, split, before⟩ := List.find?_eq_some_iff_append.mp result
  refine ⟨left, right, split, here, fun other mem => ?_⟩
  simpa using before other mem

end Split

variable {cache next : HandleCache Path} {path : Path} {handle : Int}

/-- A lookup that finds a directory changes its count and nothing else. -/
theorem reuse_eq_some (reused : reuse cache path = some (handle, next)) :
    ∃ left, ∃ element : CacheElement Path, ∃ right, cache = left ++ element :: right ∧ element.path = path ∧
      element.isDir = true ∧ element.handle = handle ∧
      next = left ++ { element with refCount := element.refCount + 1 } :: right := by
  unfold reuse at reused
  split at reused
  case h_2 => cases reused
  case h_1 element found =>
    split at reused
    case isFalse => cases reused
    case isTrue isDir =>
      obtain ⟨left, right, rfl, here, before⟩ := find?_split found
      rw [updateFirst_split here before] at reused
      cases reused
      exact ⟨left, element, right, rfl, by simpa [hasPath] using here, isDir, rfl, rfl⟩

omit [DecidableEq Path] in
theorem release_eq_some {now : Int} (released : release cache handle now = some next) :
    ∃ left, ∃ element : CacheElement Path, ∃ right, cache = left ++ element :: right ∧ element.isDir = true ∧
      element.handle = handle ∧
      next = left ++
        { element with refCount := element.refCount - 1, closeTime := now } :: right := by
  unfold release at released
  split at released
  case h_2 => cases released
  case h_1 element found =>
    split at released
    case isFalse => cases released
    case isTrue isDir =>
      obtain ⟨left, right, rfl, here, before⟩ := find?_split found
      rw [updateFirst_split here before] at released
      cases released
      exact ⟨left, element, right, rfl, isDir, by simpa [hasHandle] using here, rfl⟩

/-- The list of the handles in the cache. -/
def handles (cache : HandleCache Path) : List Int := cache.map CacheElement.handle

omit [DecidableEq Path] in
theorem release_eq_none {now : Int} (dirs : ∀ element ∈ cache, element.isDir = true)
    (missing : release cache handle now = none) : handle ∉ cache.handles := by
  intro mem
  obtain ⟨element, listed, same⟩ := List.mem_map.mp mem
  have found : (cache.find? (hasHandle handle)).isSome := by
    rw [List.find?_isSome]
    exact ⟨element, listed, by simp [hasHandle, same]⟩
  obtain ⟨first, first_eq⟩ := Option.isSome_iff_exists.mp found
  rw [release, first_eq] at missing
  simp only [dirs first (List.mem_of_find?_eq_some first_eq), if_true] at missing
  cases missing

theorem removeUnused_eq_some {closed : Int}
    (removed : removeUnused cache path = (next, some closed)) :
    ∃ left, ∃ element : CacheElement Path, ∃ right, cache = left ++ element :: right ∧ element.path = path ∧
      element.refCount = 0 ∧ element.handle = closed ∧ next = left ++ right := by
  unfold removeUnused at removed
  split at removed
  case h_2 => cases removed
  case h_1 element found =>
    split at removed
    case isFalse => cases removed
    case isTrue unused =>
      obtain ⟨left, right, rfl, here, before⟩ := find?_split found
      have erased : (left ++ element :: right).eraseP (hasPath path) = left ++ right := by
        rw [List.eraseP_append_right _ fun other mem => by simp [before other mem],
          List.eraseP_cons_of_pos here]
      rw [erased] at removed
      cases removed
      exact ⟨left, element, right, rfl, by simpa [hasPath] using here, unused, rfl, rfl⟩

theorem removeUnused_eq_none (kept : removeUnused cache path = (next, none)) :
    next = cache := by
  unfold removeUnused at kept
  split at kept
  · split at kept
    · cases kept
    · cases kept
      rfl
  · cases kept
    rfl

omit [DecidableEq Path] in
/-- The cleaner splits the list. -/
theorem expire_perm (cache : HandleCache Path) (currentTime : Int) :
    cache.handles.Perm ((cache.expire currentTime).1.handles ++ (cache.expire currentTime).2) := by
  have split : ((cache.filter fun element => !isExpired currentTime element) ++
      cache.filter (isExpired currentTime)).Perm cache :=
    List.perm_append_comm.trans (List.filter_append_perm (isExpired currentTime) cache)
  rw [expire, handles, handles, ← List.map_append]
  exact split.symm.map _

omit [DecidableEq Path] in
theorem mem_of_mem_expire {currentTime : Int} {element : CacheElement Path}
    (mem : element ∈ (cache.expire currentTime).1) : element ∈ cache :=
  List.mem_of_mem_filter mem

omit [DecidableEq Path] in
/-- The cleaner closes unused handles. -/
theorem expire_unused {currentTime : Int} (mem : handle ∈ (cache.expire currentTime).2) :
    ∃ element ∈ cache, element.handle = handle ∧ element.refCount = 0 := by
  obtain ⟨element, listed, same⟩ := List.mem_map.mp mem
  obtain ⟨inCache, expired⟩ := List.mem_filter.mp listed
  simp only [isExpired, decide_eq_true_eq] at expired
  exact ⟨element, inCache, same, expired.1⟩

end HandleCache

end Tegenaria.LibSftp
