import Tegenaria.Foundation.Transition
import Tegenaria.LibSftp.HandleCache

/-!
# Threads that share the cached handles

Any number of threads call `opendir`, `createfile`, `close`, `mkdir`, `rmdir` and
`rename`, and the cleaner makes its passes.  The critical sections and the calls
to the server are the steps.  The history has the latest event first; it decides
which handles are open on the server and how many results have not been closed.

A `createfile` that cannot get an answer of the server returns 0, which its
caller cannot tell from the handle 0.
-/

namespace Tegenaria.LibSftp

open Foundation

/-- The two functions that return handles. -/
inductive OpenCall where
  | opendir
  | createfile
  deriving DecidableEq

/-- What comes back from the server: a handle, an error or nothing. -/
inductive OpenAnswer where
  | handle (handle : Int) (isDir : Bool)
  | error
  | failed
  deriving DecidableEq

/-- The server issues or closes a handle; a handle is returned to a caller, or a
caller closes it. -/
inductive HandleEvent where
  | issued (handle : Int)
  | returned (handle : Int)
  | released (handle : Int)
  | closed (handle : Int)
  deriving DecidableEq

/-- Where a thread stands between two steps.  `paths` are the paths whose unused
handles are still to be removed. -/
inductive CacheStage (Path : Type) where
  | idle
  | opening (call : OpenCall) (path : Path)
  | opened (path : Path) (handle : Int) (isDir : Bool)
  | removing (paths : List Path)
  | closing (handles : List Int) (paths : List Path)

inductive CacheLabel (Thread Path : Type) where
  | find (thread : Thread) (call : OpenCall) (path : Path)
  | answer (thread : Thread) (answer : OpenAnswer)
  | keep (thread : Thread)
  | close (thread : Thread) (handle now : Int)
  | mkdir (thread : Thread) (path : Path)
  | rmdir (thread : Thread) (path : Path)
  | rename (thread : Thread) (path1 path2 : Path)
  | clean (thread : Thread) (currentTime : Int)
  | go (thread : Thread)

/-- The number of results for a handle that were not closed yet. -/
def owed (log : List HandleEvent) (handle : Int) : Int :=
  log.count (.returned handle) - log.count (.released handle)

/-- The handle is open on the server. -/
@[grind =] def isOpen : List HandleEvent → Int → Bool
  | [], _ => false
  | .issued other :: log, handle => handle = other || isOpen log handle
  | .closed other :: log, handle => handle ≠ other && isOpen log handle
  | .returned _ :: log, handle | .released _ :: log, handle => isOpen log handle

structure CacheThreads (Thread Path : Type) where
  cache : HandleCache Path
  stages : Thread → CacheStage Path
  log : List HandleEvent

namespace CacheThreads

variable {Thread Path : Type} [DecidableEq Thread] [DecidableEq Path]

def start (Thread Path : Type) : CacheThreads Thread Path where
  cache := []
  stages := fun _ => .idle
  log := []

def goto (threads : CacheThreads Thread Path) (thread : Thread) (stage : CacheStage Path) :
    CacheThreads Thread Path :=
  { threads with stages := Function.update threads.stages thread stage }

def record (threads : CacheThreads Thread Path) (event : HandleEvent) :
    CacheThreads Thread Path :=
  { threads with log := event :: threads.log }

/-- The remaining part of `mkdir`, `rmdir` or `rename`. -/
def removeNext : List Path → CacheStage Path
  | [] => .idle
  | paths => .removing paths

/-- The cleaner calls `multiclose` when there is something to close. -/
def closeNext : List Int → CacheStage Path
  | [] => .idle
  | handles => .closing handles []

/-- The server closes handles one after another. -/
def logClosed (handles : List Int) (log : List HandleEvent) : List HandleEvent :=
  handles.foldl (fun log handle => .closed handle :: log) log

/-- One critical section or one call to the server.  The server does not issue a
handle that is open, and callers close what was returned to them. -/
@[grind =] def step (threads : CacheThreads Thread Path) :
    CacheLabel Thread Path → Option (CacheThreads Thread Path)
  | .find thread call path =>
      match threads.stages thread with
      | .idle =>
          match threads.cache.reuse path with
          | some (handle, cache) => some ({ threads with cache }.record (.returned handle))
          | none => some (threads.goto thread (.opening call path))
      | _ => none
  | .answer thread answer =>
      match threads.stages thread with
      | .opening call path =>
          match answer with
          | .handle handle isDir =>
              if 0 ≤ handle ∧ isOpen threads.log handle = false then
                some ((threads.goto thread
                  (.opened path handle (isDir || call = .opendir))).record (.issued handle))
              else none
          | .error => some (threads.goto thread .idle)
          | .failed =>
              match call with
              | .opendir => some (threads.goto thread .idle)
              | .createfile => some ((threads.goto thread .idle).record (.returned 0))
      | _ => none
  | .keep thread =>
      match threads.stages thread with
      | .opened path handle isDir =>
          let cache := if isDir then threads.cache.add path handle else threads.cache
          some (({ threads with cache }.goto thread .idle).record (.returned handle))
      | _ => none
  | .close thread handle now =>
      match threads.stages thread with
      | .idle =>
          if 0 < owed threads.log handle then
            match threads.cache.release handle now with
            | some cache => some ({ threads with cache }.record (.released handle))
            | none => some ((threads.goto thread (.closing [handle] [])).record
                (.released handle))
          else none
      | _ => none
  | .mkdir thread path | .rmdir thread path =>
      match threads.stages thread with
      | .idle => some (threads.goto thread (.removing [path]))
      | _ => none
  | .rename thread path1 path2 =>
      match threads.stages thread with
      | .idle => some (threads.goto thread (.removing [path1, path2]))
      | _ => none
  | .clean thread currentTime =>
      match threads.stages thread with
      | .idle =>
          let expired := threads.cache.expire currentTime
          some ({ threads with cache := expired.1 }.goto thread (closeNext expired.2))
      | _ => none
  | .go thread =>
      match threads.stages thread with
      | .removing (path :: paths) =>
          match threads.cache.removeUnused path with
          | (cache, some handle) =>
              if handle ≠ -1 then
                some ({ threads with cache }.goto thread (.closing [handle] paths))
              else some ({ threads with cache }.goto thread (removeNext paths))
          | (cache, none) => some ({ threads with cache }.goto thread (removeNext paths))
      | .closing handles paths =>
          some ({ threads with log := logClosed handles threads.log }.goto thread
            (removeNext paths))
      | _ => none

def machine : Machine (CacheThreads Thread Path) (CacheLabel Thread Path) where
  step := step

/-! ## What is promised -/

/-- A handle is closed on the server only while it is open and nobody holds it, and
it is returned only while it is open. -/
def SafeLog : List HandleEvent → Prop
  | [] => True
  | .closed handle :: log => owed log handle = 0 ∧ isOpen log handle = true ∧ SafeLog log
  | .returned handle :: log => isOpen log handle = true ∧ SafeLog log
  | .issued _ :: log | .released _ :: log => SafeLog log

/-- Every count is the number of results that were not closed, and no handle was
closed or returned at a wrong time. -/
structure Counted (threads : CacheThreads Thread Path) : Prop where
  counts : ∀ element ∈ threads.cache, element.refCount = owed threads.log element.handle
  safe : SafeLog threads.log

/-- The thread waits for the answer to a `createfile`. -/
def isCreating : CacheStage Path → Bool
  | .opening .createfile _ => true
  | .opening .opendir _ | .idle | .opened .. | .removing _ | .closing .. => false

/-- `createfile` gets an answer. -/
def Answered (threads : CacheThreads Thread Path) : CacheLabel Thread Path → Prop
  | .answer thread .failed => isCreating (threads.stages thread) = false
  | _ => True

/-! ## The history -/

section Log

variable {log : List HandleEvent} {handle other : Int}

theorem owed_issued : owed (.issued other :: log) handle = owed log handle := by
  simp [owed]

theorem owed_closed : owed (.closed other :: log) handle = owed log handle := by
  simp [owed]

theorem owed_returned : owed (.returned other :: log) handle =
    owed log handle + if handle = other then 1 else 0 := by
  by_cases same : other = handle
  · subst same
    simp only [owed, List.count_cons_self, if_true]
    rw [List.count_cons_of_ne (by simp)]
    push_cast
    omega
  · rw [if_neg (Ne.symm same)]
    simp [owed, same]

theorem owed_released : owed (.released other :: log) handle =
    owed log handle - if handle = other then 1 else 0 := by
  by_cases same : other = handle
  · subst same
    simp only [owed, List.count_cons_self, if_true]
    rw [List.count_cons_of_ne (by simp)]
    push_cast
    omega
  · rw [if_neg (Ne.symm same)]
    simp [owed, same]

theorem isOpen_issued : isOpen (.issued other :: log) handle = true ↔
    handle = other ∨ isOpen log handle = true := by
  simp [isOpen]

theorem isOpen_closed : isOpen (.closed other :: log) handle = true ↔
    handle ≠ other ∧ isOpen log handle = true := by
  simp [isOpen]

theorem isOpen_returned : isOpen (.returned other :: log) handle = isOpen log handle := rfl

theorem isOpen_released : isOpen (.released other :: log) handle = isOpen log handle := rfl

end Log

/-! ## The invariant -/

/-- The handles that a thread has got from the server or has taken off the list. -/
def carried : CacheStage Path → List Int
  | .opened _ handle _ => [handle]
  | .closing handles _ => handles
  | .idle | .opening .. | .removing _ => []

/-- Every open handle is cached, or on its way to or from the server, or it was
returned for a file. -/
structure Ledger (cache : HandleCache Path) (carried : Thread → List Int)
    (log : List HandleEvent) : Prop where
  counts : ∀ element ∈ cache, element.refCount = owed log element.handle
  dirs : ∀ element ∈ cache, element.isDir = true
  nonneg : ∀ handle ∈ cache.handles, 0 ≤ handle
  nodup : cache.handles.Nodup
  cachedOpen : ∀ handle ∈ cache.handles, isOpen log handle = true
  underway : ∀ thread, ∀ handle ∈ carried thread,
    isOpen log handle = true ∧ owed log handle = 0 ∧ handle ∉ cache.handles ∧ 0 ≤ handle
  carriedNodup : ∀ thread, (carried thread).Nodup
  exclusive : ∀ thread other, ∀ handle ∈ carried thread, handle ∈ carried other → thread = other
  files : ∀ handle, handle ∉ cache.handles → 0 ≤ owed log handle ∧ owed log handle ≤ 1 ∧
    (0 < owed log handle → isOpen log handle = true ∧ 0 ≤ handle)
  safe : SafeLog log

section Effects

variable {cache left right : HandleCache Path} {carried : Thread → List Int}
  {log : List HandleEvent} {element changed : CacheElement Path} {thread : Thread} {handle : Int}

omit [DecidableEq Path] in
/-- The other elements have other handles. -/
theorem others_ne (nodup : (HandleCache.handles (left ++ element :: right)).Nodup) :
    ∀ other ∈ left ++ right, other.handle ≠ element.handle := by
  intro other mem same
  simp only [HandleCache.handles, List.map_append, List.map_cons] at nodup
  rw [List.nodup_middle, List.nodup_cons, ← List.map_append] at nodup
  exact nodup.1 (List.mem_map.mpr ⟨other, mem, same⟩)

omit [DecidableEq Thread] [DecidableEq Path] in
/-- The count of one element changes together with the history. -/
theorem counts_changed {before after : List HandleEvent}
    (nodup : (HandleCache.handles (left ++ element :: right)).Nodup)
    (counts : ∀ other ∈ left ++ element :: right, other.refCount = owed before other.handle)
    (here : changed.refCount = owed after changed.handle)
    (elsewhere : ∀ handle ≠ element.handle, owed after handle = owed before handle) :
    ∀ other ∈ left ++ changed :: right, other.refCount = owed after other.handle := by
  intro other mem
  rcases (by simpa using mem : other ∈ left ∨ other = changed ∨ other ∈ right) with
    inLeft | rfl | inRight
  · rw [elsewhere _ (others_ne nodup other (by simp [inLeft]))]
    exact counts other (by simp [inLeft])
  · exact here
  · rw [elsewhere _ (others_ne nodup other (by simp [inRight]))]
    exact counts other (by simp [inRight])

omit [DecidableEq Thread] [DecidableEq Path] in
/-- The count of one element follows an event that concerns its handle only. -/
theorem Ledger.recount {event : HandleEvent}
    (ledger : Ledger (left ++ element :: right) carried log)
    (handle : changed.handle = element.handle) (isDir : changed.isDir = element.isDir)
    (count : changed.refCount = owed (event :: log) element.handle)
    (elsewhere : ∀ handle ≠ element.handle, owed (event :: log) handle = owed log handle)
    (sameOpen : ∀ handle, isOpen (event :: log) handle = isOpen log handle)
    (safe : SafeLog (event :: log)) :
    Ledger (left ++ changed :: right) carried (event :: log) := by
  have same : HandleCache.handles (left ++ changed :: right) =
      HandleCache.handles (left ++ element :: right) := by
    simp [HandleCache.handles, handle]
  have here : element.handle ∈ HandleCache.handles (left ++ element :: right) := by
    simp [HandleCache.handles]
  exact {
    counts := counts_changed ledger.nodup ledger.counts (handle ▸ count) elsewhere
    dirs := by
      intro other mem
      rcases (by simpa using mem : other ∈ left ∨ other = changed ∨ other ∈ right) with
        inLeft | rfl | inRight
      · exact ledger.dirs other (by simp [inLeft])
      · rw [isDir]
        exact ledger.dirs element (by simp)
      · exact ledger.dirs other (by simp [inRight])
    nonneg := same ▸ ledger.nonneg
    nodup := same ▸ ledger.nodup
    cachedOpen := by
      intro other mem
      rw [sameOpen]
      exact ledger.cachedOpen other (same ▸ mem)
    underway := by
      intro thread other mem
      obtain ⟨stillOpen, unowed, absent, nonneg⟩ := ledger.underway thread other mem
      have different : other ≠ element.handle := fun equal => absent (equal ▸ here)
      rw [sameOpen, elsewhere other different, same]
      exact ⟨stillOpen, unowed, absent, nonneg⟩
    carriedNodup := ledger.carriedNodup
    exclusive := ledger.exclusive
    files := by
      intro other absent
      rw [same] at absent
      have different : other ≠ element.handle := fun equal => absent (equal ▸ here)
      rw [sameOpen, elsewhere other different]
      exact ledger.files other absent
    safe }

omit [DecidableEq Thread] [DecidableEq Path] in
/-- A cached handle is returned once more. -/
theorem Ledger.reuse (ledger : Ledger (left ++ element :: right) carried log) :
    Ledger (left ++ { element with refCount := element.refCount + 1 } :: right) carried
      (.returned element.handle :: log) := by
  refine ledger.recount rfl rfl ?_ ?_ (fun _ => isOpen_returned) ⟨?_, ledger.safe⟩
  · rw [owed_returned, if_pos rfl, ← ledger.counts element (by simp)]
  · intro handle different
    rw [owed_returned, if_neg different, Int.add_zero]
  · exact ledger.cachedOpen element.handle (by simp [HandleCache.handles])

omit [DecidableEq Thread] [DecidableEq Path] in
/-- One of the users of a cached handle closes it. -/
theorem Ledger.release (ledger : Ledger (left ++ element :: right) carried log) (now : Int) :
    Ledger (left ++ { element with refCount := element.refCount - 1, closeTime := now } :: right)
      carried (.released element.handle :: log) := by
  refine ledger.recount rfl rfl ?_ ?_ (fun _ => isOpen_released) ledger.safe
  · rw [owed_released, if_pos rfl, ← ledger.counts element (by simp)]
  · intro handle different
    rw [owed_released, if_neg different, Int.sub_zero]

/-- What holds of the handles of all threads holds after one of them has changed
what it carries. -/
theorem carried_update {moved : List Int} {good : Int → Prop}
    (mine : ∀ handle ∈ moved, good handle)
    (others : ∀ other ≠ thread, ∀ handle ∈ carried other, good handle) :
    ∀ other, ∀ handle ∈ Function.update carried thread moved other, good handle := by
  intro other handle mem
  by_cases same : other = thread
  · subst same
    rw [Function.update_self] at mem
    exact mine handle mem
  · rw [Function.update_of_ne same] at mem
    exact others other same handle mem

omit [DecidableEq Path] in
theorem Ledger.carriedNodup_update {moved : List Int} (ledger : Ledger cache carried log)
    (nodup : moved.Nodup) : ∀ other, (Function.update carried thread moved other).Nodup := by
  intro other
  by_cases same : other = thread
  · subst same
    rwa [Function.update_self]
  · rw [Function.update_of_ne same]
    exact ledger.carriedNodup other

omit [DecidableEq Path] in
/-- A thread takes only handles that no other thread carries. -/
theorem Ledger.exclusive_update {moved : List Int} (ledger : Ledger cache carried log)
    (free : ∀ handle ∈ moved, ∀ other ≠ thread, handle ∉ carried other) :
    ∀ first second, ∀ handle ∈ Function.update carried thread moved first,
      handle ∈ Function.update carried thread moved second → first = second := by
  intro first second handle firstMem secondMem
  by_cases firstSame : first = thread <;> by_cases secondSame : second = thread
  · exact firstSame.trans secondSame.symm
  · rw [firstSame, Function.update_self] at firstMem
    rw [Function.update_of_ne secondSame] at secondMem
    exact absurd secondMem (free handle firstMem second secondSame)
  · rw [secondSame, Function.update_self] at secondMem
    rw [Function.update_of_ne firstSame] at firstMem
    exact absurd firstMem (free handle secondMem first firstSame)
  · rw [Function.update_of_ne firstSame] at firstMem
    rw [Function.update_of_ne secondSame] at secondMem
    exact ledger.exclusive first second handle firstMem secondMem

omit [DecidableEq Thread] [DecidableEq Path] in
/-- The handles of the elements are those in the cache. -/
theorem handle_ne (absent : handle ∉ cache.handles) :
    ∀ other ∈ cache, other.handle ≠ handle := by
  intro other mem equal
  exact absent (equal ▸ List.mem_map_of_mem mem)

omit [DecidableEq Path] in
/-- The server issues a handle to a thread. -/
theorem Ledger.issue (ledger : Ledger cache carried log) (nonneg : 0 ≤ handle)
    (fresh : isOpen log handle = false) :
    Ledger cache (Function.update carried thread [handle]) (.issued handle :: log) := by
  have closed : isOpen log handle ≠ true := by simp [fresh]
  have absent : handle ∉ cache.handles := fun mem => closed (ledger.cachedOpen handle mem)
  have unowed : owed log handle = 0 := by
    obtain ⟨lower, _, held⟩ := ledger.files handle absent
    by_contra some
    exact closed (held (by omega)).1
  exact {
    counts := by
      intro element mem
      rw [owed_issued]
      exact ledger.counts element mem
    dirs := ledger.dirs
    nonneg := ledger.nonneg
    nodup := ledger.nodup
    cachedOpen := fun other mem => isOpen_issued.mpr (Or.inr (ledger.cachedOpen other mem))
    underway := by
      refine carried_update ?_ ?_
      · intro other mem
        obtain rfl := List.mem_singleton.mp mem
        exact ⟨isOpen_issued.mpr (Or.inl rfl), owed_issued.trans unowed, absent, nonneg⟩
      · intro other _ carriedHandle mem
        obtain ⟨stillOpen, rest⟩ := ledger.underway other carriedHandle mem
        rw [owed_issued]
        exact ⟨isOpen_issued.mpr (Or.inr stillOpen), rest⟩
    carriedNodup := ledger.carriedNodup_update (List.nodup_singleton handle)
    exclusive := by
      refine ledger.exclusive_update ?_
      intro other mem carrier _ carries
      obtain rfl := List.mem_singleton.mp mem
      exact closed (ledger.underway carrier other carries).1
    files := by
      intro other missing
      obtain ⟨lower, upper, held⟩ := ledger.files other missing
      rw [owed_issued]
      exact ⟨lower, upper, fun positive =>
        ⟨isOpen_issued.mpr (Or.inr (held positive).1), (held positive).2⟩⟩
    safe := ledger.safe }

omit [DecidableEq Path] in
/-- The handle that a thread has got is no longer carried once it is returned. -/
theorem Ledger.underway_returned (ledger : Ledger cache carried log)
    (mine : carried thread = [handle]) :
    ∀ other, ∀ carriedHandle ∈ Function.update carried thread [] other,
      isOpen (.returned handle :: log) carriedHandle = true ∧
        owed (.returned handle :: log) carriedHandle = 0 ∧
        carriedHandle ∉ cache.handles ∧ 0 ≤ carriedHandle ∧ carriedHandle ≠ handle := by
  refine carried_update (by simp) ?_
  intro other different carriedHandle mem
  have distinct : carriedHandle ≠ handle := by
    rintro rfl
    exact different (ledger.exclusive other thread carriedHandle mem (by simp [mine]))
  obtain ⟨stillOpen, unowed, absent, nonneg⟩ := ledger.underway other carriedHandle mem
  rw [owed_returned, if_neg distinct, Int.add_zero]
  exact ⟨stillOpen, unowed, absent, nonneg, distinct⟩

omit [DecidableEq Path] in
/-- The handle of a directory is put into the cache and returned. -/
theorem Ledger.add (ledger : Ledger cache carried log) (mine : carried thread = [handle])
    (path : Path) :
    Ledger (cache.add path handle) (Function.update carried thread [])
      (.returned handle :: log) := by
  obtain ⟨isOpened, unowed, absent, positive⟩ := ledger.underway thread handle (by simp [mine])
  have same : HandleCache.handles (cache.add path handle) = cache.handles ++ [handle] := by
    simp [HandleCache.handles, HandleCache.add]
  have listed : ∀ other, other ∈ HandleCache.handles (cache.add path handle) ↔
      other ∈ cache.handles ∨ other = handle := by
    simp [same]
  exact {
    counts := by
      intro other mem
      rcases (by simpa [HandleCache.add] using mem : other ∈ cache ∨ other = _) with old | rfl
      · rw [ledger.counts other old, owed_returned, if_neg (handle_ne absent other old),
          Int.add_zero]
      · rw [owed_returned, if_pos rfl, unowed]
        rfl
    dirs := by
      intro other mem
      rcases (by simpa [HandleCache.add] using mem : other ∈ cache ∨ other = _) with old | rfl
      · exact ledger.dirs other old
      · rfl
    nonneg := by
      intro other mem
      rcases (listed other).mp mem with old | rfl
      · exact ledger.nonneg other old
      · exact positive
    nodup := by
      rw [same, ← List.concat_eq_append]
      exact ledger.nodup.concat absent
    cachedOpen := by
      intro other mem
      rcases (listed other).mp mem with old | rfl
      · exact ledger.cachedOpen other old
      · exact isOpened
    underway := by
      intro other carriedHandle mem
      obtain ⟨stillOpen, free, missing, nonneg, distinct⟩ :=
        ledger.underway_returned mine other carriedHandle mem
      refine ⟨stillOpen, free, ?_, nonneg⟩
      rw [listed]
      exact not_or.mpr ⟨missing, distinct⟩
    carriedNodup := ledger.carriedNodup_update List.nodup_nil
    exclusive := ledger.exclusive_update (by simp)
    files := by
      intro other missing
      obtain ⟨outside, distinct⟩ := not_or.mp (fun mem => missing ((listed other).mpr mem))
      rw [owed_returned, if_neg distinct, Int.add_zero]
      exact ledger.files other outside
    safe := ⟨isOpened, ledger.safe⟩ }

omit [DecidableEq Path] in
/-- The handle of a file is returned. -/
theorem Ledger.returnFile (ledger : Ledger cache carried log)
    (mine : carried thread = [handle]) :
    Ledger cache (Function.update carried thread []) (.returned handle :: log) := by
  obtain ⟨isOpened, unowed, absent, positive⟩ := ledger.underway thread handle (by simp [mine])
  exact {
    counts := by
      intro other mem
      rw [ledger.counts other mem, owed_returned, if_neg (handle_ne absent other mem),
        Int.add_zero]
    dirs := ledger.dirs
    nonneg := ledger.nonneg
    nodup := ledger.nodup
    cachedOpen := ledger.cachedOpen
    underway := by
      intro other carriedHandle mem
      obtain ⟨stillOpen, free, missing, nonneg, _⟩ :=
        ledger.underway_returned mine other carriedHandle mem
      exact ⟨stillOpen, free, missing, nonneg⟩
    carriedNodup := ledger.carriedNodup_update List.nodup_nil
    exclusive := ledger.exclusive_update (by simp)
    files := by
      intro other missing
      by_cases same : other = handle
      · subst same
        rw [owed_returned, if_pos rfl, unowed]
        exact ⟨by decide, by decide, fun _ => ⟨isOpened, positive⟩⟩
      · rw [owed_returned, if_neg same, Int.add_zero]
        exact ledger.files other missing
    safe := ⟨isOpened, ledger.safe⟩ }

omit [DecidableEq Path] in
/-- The handle of a file is closed by its user. -/
theorem Ledger.closeFile (ledger : Ledger cache carried log)
    (absent : handle ∉ cache.handles) (held : 0 < owed log handle) :
    Ledger cache (Function.update carried thread [handle]) (.released handle :: log) := by
  obtain ⟨_, once, user⟩ := ledger.files handle absent
  obtain ⟨isOpened, positive⟩ := user held
  have uncarried : ∀ other, handle ∉ carried other := by
    intro other mem
    have unowed := (ledger.underway other handle mem).2.1
    omega
  have lastOne : owed (.released handle :: log) handle = 0 := by
    rw [owed_released, if_pos rfl]
    omega
  exact {
    counts := by
      intro other mem
      rw [ledger.counts other mem, owed_released, if_neg (handle_ne absent other mem),
        Int.sub_zero]
    dirs := ledger.dirs
    nonneg := ledger.nonneg
    nodup := ledger.nodup
    cachedOpen := ledger.cachedOpen
    underway := by
      refine carried_update ?_ ?_
      · intro other mem
        obtain rfl := List.mem_singleton.mp mem
        exact ⟨isOpened, lastOne, absent, positive⟩
      · intro other _ carriedHandle mem
        have distinct : carriedHandle ≠ handle := fun equal => uncarried other (equal ▸ mem)
        rw [owed_released, if_neg distinct, Int.sub_zero]
        exact ledger.underway other carriedHandle mem
    carriedNodup := ledger.carriedNodup_update (List.nodup_singleton handle)
    exclusive := by
      refine ledger.exclusive_update ?_
      intro other mem carrier _
      obtain rfl := List.mem_singleton.mp mem
      exact uncarried carrier
    files := by
      intro other missing
      by_cases same : other = handle
      · subst same
        rw [lastOne]
        exact ⟨by decide, by decide, fun positive => absurd positive (by decide)⟩
      · rw [owed_released, if_neg same, Int.sub_zero]
        exact ledger.files other missing
    safe := ledger.safe }

omit [DecidableEq Path] in
/-- Unused elements are taken off the list. -/
theorem Ledger.evict {kept : HandleCache Path} {moved : List Int}
    (ledger : Ledger cache carried log) (subset : ∀ element ∈ kept, element ∈ cache)
    (parts : cache.handles.Perm (kept.handles ++ moved))
    (unused : ∀ handle ∈ moved, ∃ element ∈ cache,
      element.handle = handle ∧ element.refCount = 0) :
    Ledger kept (Function.update carried thread moved) log := by
  have listed : ∀ handle, handle ∈ cache.handles ↔ handle ∈ kept.handles ∨ handle ∈ moved := by
    intro handle
    rw [parts.mem_iff, List.mem_append]
  have unowed : ∀ handle ∈ moved, owed log handle = 0 := by
    intro handle mem
    obtain ⟨element, old, rfl, zero⟩ := unused handle mem
    rw [← ledger.counts element old, zero]
  obtain ⟨keptNodup, movedNodup, separate⟩ :=
    List.nodup_append.mp (parts.nodup_iff.mp ledger.nodup)
  exact {
    counts := fun element mem => ledger.counts element (subset element mem)
    dirs := fun element mem => ledger.dirs element (subset element mem)
    nonneg := fun handle mem => ledger.nonneg handle ((listed handle).mpr (Or.inl mem))
    nodup := keptNodup
    cachedOpen := fun handle mem =>
      ledger.cachedOpen handle ((listed handle).mpr (Or.inl mem))
    underway := by
      refine carried_update ?_ ?_
      · intro handle mem
        have old := (listed handle).mpr (Or.inr mem)
        exact ⟨ledger.cachedOpen handle old, unowed handle mem,
          fun both => separate handle both handle mem rfl, ledger.nonneg handle old⟩
      · intro other _ handle mem
        obtain ⟨stillOpen, free, absent, nonneg⟩ := ledger.underway other handle mem
        exact ⟨stillOpen, free, fun mem => absent ((listed handle).mpr (Or.inl mem)), nonneg⟩
    carriedNodup := ledger.carriedNodup_update movedNodup
    exclusive := by
      refine ledger.exclusive_update ?_
      intro handle mem carrier _ carries
      exact (ledger.underway carrier handle carries).2.2.1 ((listed handle).mpr (Or.inr mem))
    files := by
      intro handle missing
      by_cases taken : handle ∈ moved
      · rw [unowed handle taken]
        exact ⟨by decide, by decide, fun positive => absurd positive (by decide)⟩
      · exact ledger.files handle fun mem => ((listed handle).mp mem).elim missing taken
    safe := ledger.safe }

omit [DecidableEq Path] in
/-- The server closes the first of the handles that a thread carries. -/
theorem Ledger.closeOne {rest : List Int} (ledger : Ledger cache carried log)
    (mine : carried thread = handle :: rest) :
    Ledger cache (Function.update carried thread rest) (.closed handle :: log) := by
  obtain ⟨isOpened, unowed, absent, positive⟩ := ledger.underway thread handle (by simp [mine])
  have once := ledger.carriedNodup thread
  rw [mine, List.nodup_cons] at once
  have mineToo : ∀ other ∈ rest, other ∈ carried thread := by
    simp +contextual [mine]
  have underway : ∀ carrier, ∀ other ∈ carried carrier, other ≠ handle →
      isOpen (.closed handle :: log) other = true ∧ owed (.closed handle :: log) other = 0 ∧
        other ∉ cache.handles ∧ 0 ≤ other := by
    intro carrier other mem different
    obtain ⟨stillOpen, remaining⟩ := ledger.underway carrier other mem
    rw [owed_closed]
    exact ⟨isOpen_closed.mpr ⟨different, stillOpen⟩, remaining⟩
  exact {
    counts := by
      intro element mem
      rw [owed_closed]
      exact ledger.counts element mem
    dirs := ledger.dirs
    nonneg := ledger.nonneg
    nodup := ledger.nodup
    cachedOpen := fun other mem => isOpen_closed.mpr
      ⟨fun equal => absent (equal ▸ mem), ledger.cachedOpen other mem⟩
    underway := by
      refine carried_update ?_ ?_
      · intro other mem
        exact underway thread other (mineToo other mem) fun equal => once.1 (equal ▸ mem)
      · intro carrier different other mem
        refine underway carrier other mem ?_
        rintro rfl
        exact different (ledger.exclusive carrier thread other mem (by simp [mine]))
    carriedNodup := ledger.carriedNodup_update once.2
    exclusive := by
      refine ledger.exclusive_update ?_
      intro other mem carrier different carries
      exact different (ledger.exclusive carrier thread other carries (mineToo other mem))
    files := by
      intro other missing
      obtain ⟨lower, upper, held⟩ := ledger.files other missing
      rw [owed_closed]
      refine ⟨lower, upper, fun owing => ⟨isOpen_closed.mpr ⟨?_, (held owing).1⟩,
        (held owing).2⟩⟩
      rintro rfl
      omega
    safe := ⟨unowed, isOpened, ledger.safe⟩ }

omit [DecidableEq Path] in
theorem Ledger.closeAll {handles : List Int} (ledger : Ledger cache carried log)
    (mine : carried thread = handles) :
    Ledger cache (Function.update carried thread []) (logClosed handles log) := by
  induction handles generalizing carried log with
  | nil =>
      have same : Function.update carried thread [] = carried := by
        rw [← mine, Function.update_eq_self]
      rw [same]
      exact ledger
  | cons handle rest ih =>
      have closed := ih (ledger.closeOne mine) (Function.update_self ..)
      rwa [Function.update_idem] at closed

end Effects

/-! ## Every step keeps the invariant -/

def Invariant (threads : CacheThreads Thread Path) : Prop :=
  Ledger threads.cache (fun thread => carried (threads.stages thread)) threads.log

section Steps

variable {threads next : CacheThreads Thread Path} {thread : Thread}
  {label : CacheLabel Thread Path} {stage : CacheStage Path} {cache : HandleCache Path}
  {log : List HandleEvent}

omit [DecidableEq Path] in
/-- What the threads carry after one of them has moved. -/
theorem invariant_goto (ledger : Ledger cache
      (Function.update (fun thread => carried (threads.stages thread)) thread (carried stage))
      log) :
    Invariant { threads.goto thread stage with cache, log } := by
  have same : (fun other => carried ((threads.goto thread stage).stages other)) =
      Function.update (fun thread => carried (threads.stages thread)) thread (carried stage) := by
    funext other
    by_cases mover : other = thread
    · subst mover
      simp [goto]
    · simp [goto, mover]
  unfold Invariant
  dsimp only
  rw [same]
  exact ledger

omit [DecidableEq Path] in
/-- A thread that carries nothing goes on without changing anything. -/
theorem Invariant.idle (invariant : Invariant threads)
    (before : carried (threads.stages thread) = []) (after : carried stage = []) :
    Invariant (threads.goto thread stage) := by
  refine invariant_goto ?_
  have same : Function.update (fun thread => carried (threads.stages thread)) thread
      (carried stage) = fun thread => carried (threads.stages thread) := by
    rw [after, ← before]
    exact Function.update_eq_self thread fun thread => carried (threads.stages thread)
  rw [same]
  exact invariant

omit [DecidableEq Thread] [DecidableEq Path] in
theorem removeNext_carried (paths : List Path) : carried (removeNext paths) = [] := by
  cases paths <;> rfl

omit [DecidableEq Thread] [DecidableEq Path] in
theorem closeNext_carried (handles : List Int) :
    carried (closeNext handles : CacheStage Path) = handles := by
  cases handles <;> rfl

theorem Invariant.find (invariant : Invariant threads) {call : OpenCall} {path : Path}
    (stepped : step threads (.find thread call path) = some next) : Invariant next := by
  simp only [step] at stepped
  split at stepped
  case h_2 => cases stepped
  case h_1 at_ =>
    split at stepped
    case h_1 handle cache reused =>
      cases stepped
      obtain ⟨left, element, right, split, _, _, rfl, rfl⟩ := HandleCache.reuse_eq_some reused
      unfold Invariant at invariant ⊢
      rw [split] at invariant
      exact invariant.reuse
    case h_2 =>
      cases stepped
      exact invariant.idle (by rw [at_]; rfl) rfl

theorem Invariant.answer (invariant : Invariant threads) {answer : OpenAnswer}
    (answered : Answered threads (.answer thread answer))
    (stepped : step threads (.answer thread answer) = some next) : Invariant next := by
  simp only [step] at stepped
  split at stepped
  case h_2 => cases stepped
  case h_1 call path at_ =>
    have nothing : carried (threads.stages thread) = [] := by
      rw [at_]
      rfl
    cases answer with
    | handle handle isDir =>
        simp only at stepped
        split at stepped
        case isFalse => cases stepped
        case isTrue possible =>
          cases stepped
          exact invariant_goto (Ledger.issue invariant possible.1 possible.2)
    | error =>
        cases stepped
        exact invariant.idle nothing rfl
    | failed =>
        cases call with
        | opendir =>
            cases stepped
            exact invariant.idle nothing rfl
        | createfile =>
            have creating : isCreating (threads.stages thread) = true := by
              rw [at_]
              rfl
            cases creating.symm.trans answered

theorem Invariant.keep (invariant : Invariant threads)
    (stepped : step threads (.keep thread) = some next) : Invariant next := by
  simp only [step] at stepped
  split at stepped
  case h_2 => cases stepped
  case h_1 path handle isDir at_ =>
    cases stepped
    have mine : carried (threads.stages thread) = [handle] := by
      rw [at_]
      rfl
    cases isDir with
    | true => exact invariant_goto (Ledger.add invariant mine path)
    | false => exact invariant_goto (Ledger.returnFile invariant mine)

theorem Invariant.close (invariant : Invariant threads) {handle now : Int}
    (stepped : step threads (.close thread handle now) = some next) : Invariant next := by
  simp only [step] at stepped
  split at stepped
  case h_2 => cases stepped
  case h_1 at_ =>
    split at stepped
    case isFalse => cases stepped
    case isTrue held =>
      split at stepped
      case h_1 cache released =>
        cases stepped
        obtain ⟨left, element, right, split, _, rfl, rfl⟩ :=
          HandleCache.release_eq_some released
        unfold Invariant at invariant ⊢
        rw [split] at invariant
        exact invariant.release now
      case h_2 missing =>
        cases stepped
        have absent := HandleCache.release_eq_none invariant.dirs missing
        exact invariant_goto (Ledger.closeFile invariant absent held)

theorem Invariant.clean (invariant : Invariant threads) {currentTime : Int}
    (stepped : step threads (.clean thread currentTime) = some next) : Invariant next := by
  simp only [step] at stepped
  split at stepped
  case h_2 => cases stepped
  case h_1 at_ =>
    cases stepped
    refine invariant_goto ?_
    rw [closeNext_carried]
    exact Ledger.evict invariant (fun _ => HandleCache.mem_of_mem_expire)
      (HandleCache.expire_perm threads.cache currentTime) (fun _ => HandleCache.expire_unused)

theorem Invariant.go (invariant : Invariant threads)
    (stepped : step threads (.go thread) = some next) : Invariant next := by
  simp only [step] at stepped
  split at stepped
  case h_1 path paths at_ =>
    have nothing : carried (threads.stages thread) = [] := by
      rw [at_]
      rfl
    split at stepped
    case h_1 cache handle removed =>
      obtain ⟨left, element, right, split, _, unused, rfl, rfl⟩ :=
        HandleCache.removeUnused_eq_some removed
      have here : element.handle ∈ threads.cache.handles := by
        rw [split]
        simp [HandleCache.handles]
      have valid := invariant.nonneg element.handle here
      rw [if_pos (by omega)] at stepped
      cases stepped
      refine invariant_goto (Ledger.evict invariant ?_ ?_ ?_)
      · intro other mem
        rw [split]
        grind
      · rw [split]
        simp only [HandleCache.handles, List.map_append, List.map_cons]
        exact List.perm_middle.trans (List.perm_append_singleton _ _).symm
      · intro handle mem
        obtain rfl := List.mem_singleton.mp mem
        exact ⟨element, by rw [split]; simp, rfl, unused⟩
    case h_2 cache kept =>
      cases stepped
      rw [HandleCache.removeUnused_eq_none kept]
      exact invariant.idle nothing (removeNext_carried paths)
  case h_2 handles paths at_ =>
    cases stepped
    refine invariant_goto ?_
    rw [removeNext_carried]
    refine Ledger.closeAll invariant ?_
    rw [at_]
    rfl
  case h_3 => cases stepped

theorem Invariant.step (invariant : Invariant threads) (answered : Answered threads label)
    (stepped : step threads label = some next) : Invariant next := by
  cases label with
  | find thread call path => exact invariant.find stepped
  | answer thread answer => exact invariant.answer answered stepped
  | keep thread => exact invariant.keep stepped
  | close thread handle now => exact invariant.close stepped
  | clean thread currentTime => exact invariant.clean stepped
  | go thread => exact invariant.go stepped
  | mkdir thread path | rmdir thread path | rename thread path1 path2 =>
      simp only [CacheThreads.step] at stepped
      split at stepped
      case h_2 => cases stepped
      case h_1 at_ =>
        cases stepped
        exact invariant.idle (by rw [at_]; rfl) rfl

end Steps

omit [DecidableEq Thread] [DecidableEq Path] in
theorem start_invariant : Invariant (start Thread Path) where
  counts := by simp [start]
  dirs := by simp [start]
  nonneg := by simp [start, HandleCache.handles]
  nodup := by simp [start, HandleCache.handles]
  cachedOpen := by simp [start, HandleCache.handles]
  underway := by simp [start, carried]
  carriedNodup := by simp [start, carried]
  exclusive := by simp [start, carried]
  files := by simp [start, owed]
  safe := trivial

/-- In every run in which each `createfile` gets an answer, the counts are right
and no handle is closed or returned at a wrong time. -/
theorem counted_of_answered {labels : List (CacheLabel Thread Path)}
    {threads : CacheThreads Thread Path}
    (reached : machine.run (start Thread Path) labels = some threads)
    (answered : machine.AllSteps Answered (start Thread Path) labels) :
    threads.Counted := by
  have preserved : ∀ (before : CacheThreads Thread Path) label after, Invariant before →
      Answered before label → machine.step before label = some after →
      Invariant after := fun _ _ _ holds obeys stepped => holds.step obeys stepped
  have invariant := Machine.run_invariant preserved start_invariant answered reached
  exact ⟨invariant.counts, invariant.safe⟩

/-! ## Runs -/

instance answeredDecidable (threads : CacheThreads Thread Path) :
    (label : CacheLabel Thread Path) → Decidable (Answered threads label)
  | .answer _ .failed => inferInstanceAs (Decidable (isCreating _ = false))
  | .answer _ (.handle ..) | .answer _ .error | .find .. | .keep _ | .close .. | .mkdir ..
  | .rmdir .. | .rename .. | .clean .. | .go _ => isTrue trivial

/-- Two threads open the same directory at the same time; one of the two handles
is used again, and after both were closed, a `rename` and the cleaner close them
on the server. -/
def sharedDirectory : List (CacheLabel Bool Nat) :=
  [.find true .opendir 1, .find false .createfile 1, .answer true (.handle 4 true),
    .answer false (.handle 5 true), .keep false, .keep true, .find true .createfile 1,
    .close true 5 10, .close true 4 10, .close false 5 11, .rename false 1 2, .go false,
    .go false, .go false, .clean true 20, .go true]

theorem sharedDirectory_counted :
    ∃ threads, machine.run (start Bool Nat) sharedDirectory = some threads ∧
      threads.Counted ∧ threads.cache = [] ∧
      threads.log.take 2 = [.closed 4, .closed 5] := by
  have reached : machine.run (start Bool Nat) sharedDirectory = some _ := rfl
  exact ⟨_, rfl, counted_of_answered reached (by decide), rfl, rfl⟩

/-- The handle 0 of a cached directory is held by one caller when another one is
told the same handle by a `createfile` that got no answer. -/
def lostAnswer : List (CacheLabel Bool Nat) :=
  [.find true .opendir 1, .answer true (.handle 0 true), .keep true,
    .find false .createfile 2, .answer false .failed, .close false 0 10,
    .clean false 20, .go false]

/-- The handle is closed on the server while the first caller holds it. -/
theorem lostAnswer_miscounted :
    ∃ threads, machine.run (start Bool Nat) lostAnswer = some threads ∧
      owed threads.log 0 = 1 ∧ isOpen threads.log 0 = false ∧ ¬threads.Counted := by
  refine ⟨_, rfl, by decide, by decide, fun counted => ?_⟩
  have unheld : owed _ 0 = 0 := counted.safe.1
  revert unheld
  decide

end CacheThreads

end Tegenaria.LibSftp
