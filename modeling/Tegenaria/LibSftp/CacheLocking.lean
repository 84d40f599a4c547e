import Tegenaria.Foundation.LockDiscipline
import Tegenaria.LibSftp.HandleCache

/-!
# The lock of the cache

`CachedSftpClient` guards its list of elements and its map of file system sizes by one
mutex.  Its functions are written down step by step, with every `lock()` and `unlock()` and
every access to an element.  The cache may have changed in any way whenever the mutex is
taken, and the server may answer anything.

`findElementForUpdate` returns with the mutex if it has found an element, and without it
otherwise.  Its callers release the mutex.
-/

namespace Tegenaria.LibSftp

open Foundation
open Foundation.Locking

variable {Path Data Stat : Type} [DecidableEq Path]

/-- `CacheElement` with the cached content of the directory. -/
structure DirElement (Path Data : Type) extends CacheElement Path where
  readdirCalled : Bool
  findData : List Data
  findTime : Int
  deriving DecidableEq

/-- `CacheStatvfsElement` -/
structure CacheStatvfsElement (Stat : Type) where
  statvfs : Stat
  timestamp : Int

/-- What the mutex guards: `cache_` and `cacheStatvfs_`. -/
structure SharedCache (Path Data Stat : Type) where
  elements : List (DirElement Path Data)
  statvfs : Path → Option (CacheStatvfsElement Stat)

/-- Calls to the clock and to the functions of `SftpClient`.  Variables that are not set
count as calls, since their values are not known either. -/
inductive CacheCall (Path : Type) where
  | time
  | unset
  | opendir (path : Path)
  | createfile (path : Path) (access shared create flags : UInt32)
  | readdir (handle : Int)
  | resetdir (handle : Int)
  | realclose (handle : Int)
  | statvfs (path : Path)

/-- What the calls return. -/
def CacheCall.Reply (Path Data Stat : Type) : CacheCall Path → Type
  | .time | .unset | .opendir _ | .resetdir _ | .realclose _ => Int
  | .createfile .. => Int × Bool
  | .readdir _ => Int × List Data
  | .statvfs _ => Int × Stat

/-- A function of the client. -/
abbrev CacheProgram (Path Data Stat Value : Type) :=
  Locking (SharedCache Path Data Stat) (CacheCall.Reply Path Data Stat) Value

namespace CachedSftpClient

def hasPath (path : Path) (element : DirElement Path Data) : Bool := element.path = path

def hasHandle (handle : Int) (element : DirElement Path Data) : Bool := element.handle = handle

/-! ## Elements -/

/-- The loop over the elements. -/
def search (found : DirElement Path Data → Bool) :
    CacheProgram Path Data Stat (Option (DirElement Path Data)) := do
  let shared ← load
  pure (shared.elements.find? found)

/-- Read an element through an iterator. -/
def fetch (element : DirElement Path Data) : CacheProgram Path Data Stat (DirElement Path Data) := do
  let _ ← load
  pure element

/-- Change an element through an iterator. -/
def change (found : DirElement Path Data → Bool) (update : DirElement Path Data → DirElement Path Data) :
    CacheProgram Path Data Stat Unit := do
  let shared ← load
  store { shared with elements := updateFirst found update shared.elements }

/-- `cache_.erase(it)` -/
def erase (found : DirElement Path Data → Bool) : CacheProgram Path Data Stat Unit := do
  let shared ← load
  store { shared with elements := shared.elements.eraseP found }

/-- `cache_.push_back(e)` with the mutex around. -/
def pushBack (element : DirElement Path Data) : CacheProgram Path Data Stat Unit := do
  lock
  let shared ← load
  store { shared with elements := shared.elements ++ [element] }
  unlock

/-! ## Finding -/

/-- Common body of the two versions. -/
def findElement (found : DirElement Path Data → Bool) :
    CacheProgram Path Data Stat (Option (DirElement Path Data)) := do
  lock
  let it ← search found
  unlock
  pure it

def findElementHandle (handle : Int) :
    CacheProgram Path Data Stat (Option (DirElement Path Data)) :=
  findElement (hasHandle handle)

def findElementPath (path : Path) : CacheProgram Path Data Stat (Option (DirElement Path Data)) :=
  findElement (hasPath path)

/-- Common body of the two versions.  The mutex stays locked if an element was found. -/
def findElementForUpdate (found : DirElement Path Data → Bool) :
    CacheProgram Path Data Stat (Option (DirElement Path Data)) := do
  lock
  let it ← search found
  match it with
  | none => do
      unlock
      pure none
  | some element => pure (some element)

def findElementForUpdateHandle (handle : Int) :
    CacheProgram Path Data Stat (Option (DirElement Path Data)) :=
  findElementForUpdate (hasHandle handle)

def findElementForUpdatePath (path : Path) :
    CacheProgram Path Data Stat (Option (DirElement Path Data)) :=
  findElementForUpdate (hasPath path)

/-! ## Removing -/

/-- The handle that is to be closed, or `-1`. -/
def takeUnused (found : DirElement Path Data → Bool) (element : DirElement Path Data) :
    CacheProgram Path Data Stat Int := do
  let element ← fetch element
  if element.refCount = 0 then do
    erase found
    pure element.handle
  else pure (-1)

/-- Common body of the two versions. -/
def removeUnusedHandle (found : DirElement Path Data → Bool) : CacheProgram Path Data Stat Unit := do
  let it ← findElementForUpdate found
  match it with
  | none => pure ()
  | some element => do
      let handleToClose ← takeUnused found element
      unlock
      if handleToClose ≠ -1 then do
        let _ ← call (CacheCall.realclose handleToClose)
        pure ()
      else pure ()

def removeUnusedHandlePath (path : Path) : CacheProgram Path Data Stat Unit :=
  removeUnusedHandle (hasPath path)

def removeUnusedHandleHandle (handle : Int) : CacheProgram Path Data Stat Unit :=
  removeUnusedHandle (hasHandle handle)

/-! ## Listing -/

/-- The cached content, if it is not older than one second. -/
def reuseListing (handle : Int) (element : DirElement Path Data) :
    CacheProgram Path Data Stat (Option (List Data)) := do
  let element ← fetch element
  if element.readdirCalled then do
    let now : Int ← call CacheCall.time
    if now - element.findTime < 1 then pure (some element.findData)
    else do
      let _ ← call (CacheCall.resetdir handle)
      pure none
  else pure none

/-- The first lookup of `readdir`. -/
def readdirCached (handle : Int) : CacheProgram Path Data Stat (Option (List Data)) := do
  let it ← findElementForUpdateHandle handle
  match it with
  | none => pure none
  | some element => do
      let data ← reuseListing handle element
      change (hasHandle handle) fun element => { element with readdirCalled := true }
      unlock
      pure data

/-- Keep a listing in the element that was found. -/
def keepListing (handle : Int) (data : List Data) :
    Option (DirElement Path Data) → CacheProgram Path Data Stat Unit
  | none => pure ()
  | some _ => do
      change (hasHandle handle) fun element => { element with findData := data }
      let now : Int ← call CacheCall.time
      change (hasHandle handle) fun element => { element with findTime := now }

/-- The second lookup of `readdir`.  The mutex is released in either case. -/
def readdirStore (handle : Int) (data : List Data) : CacheProgram Path Data Stat Unit := do
  let it ← findElementForUpdateHandle handle
  keepListing handle data it
  unlock

/-- `CachedSftpClient::readdir`, with the data that it returns. -/
def readdir (handle : Int) : CacheProgram Path Data Stat (Int × List Data) := do
  let reused ← readdirCached handle
  match reused with
  | some data => pure (0, data)
  | none => do
      let answer : Int × List Data ← call (CacheCall.readdir handle)
      if answer.1 = 0 then do
        readdirStore handle answer.2
        pure answer
      else pure answer

/-! ## Opening and closing -/

/-- The handle of a cached directory, which gets one more user, or `-1`. -/
def reuseDir (found : DirElement Path Data → Bool) (element : DirElement Path Data) :
    CacheProgram Path Data Stat Int := do
  let element ← fetch element
  if element.isDir then do
    change found fun element => { element with refCount := element.refCount + 1 }
    pure element.handle
  else pure (-1)

/-- The lookup of `opendir` and `createfile`. -/
def lookUpDir (path : Path) : CacheProgram Path Data Stat Int := do
  let it ← findElementForUpdatePath path
  match it with
  | none => pure (-1)
  | some element => do
      let handle ← reuseDir (hasPath path) element
      unlock
      pure handle

/-- A new element for a directory.  Two of its fields are not set. -/
def newElement (path : Path) (handle : Int) :
    CacheProgram Path Data Stat (DirElement Path Data) := do
  let closeTime : Int ← call CacheCall.unset
  let findTime : Int ← call CacheCall.unset
  pure ⟨⟨path, handle, 1, closeTime, true⟩, false, [], findTime⟩

/-- `CachedSftpClient::opendir` -/
def opendir (path : Path) : CacheProgram Path Data Stat Int := do
  let handle ← lookUpDir path
  if handle = -1 then do
    let handle : Int ← call (CacheCall.opendir path)
    if handle ≠ -1 then do
      let element ← newElement path handle
      pushBack element
      pure handle
    else pure handle
  else pure handle

/-- What `createfile` stores in `*isDir`, if the pointer is not null. -/
def storedIsDir (isDir isDirLocal : Bool) : Option Bool := if isDir then some isDirLocal else none

/-- `CachedSftpClient::createfile`, with what it stores in `*isDir`. -/
def createfile (path : Path) (access shared create flags : UInt32) (isDir : Bool) :
    CacheProgram Path Data Stat (Int × Option Bool) := do
  let handle ← lookUpDir path
  if handle = -1 then do
    let answer : Int × Bool ← call (CacheCall.createfile path access shared create flags)
    if answer.1 ≠ -1 ∧ answer.2 then do
      let element ← newElement path answer.1
      pushBack element
      pure (answer.1, storedIsDir isDir answer.2)
    else pure (answer.1, storedIsDir isDir answer.2)
  else pure (handle, none)

/-- Whether the handle has to be closed on the server. -/
def releaseDir (handle : Int) (element : DirElement Path Data) :
    CacheProgram Path Data Stat Bool := do
  let element ← fetch element
  if element.isDir then do
    change (hasHandle handle) fun element => { element with refCount := element.refCount - 1 }
    let now : Int ← call CacheCall.time
    change (hasHandle handle) fun element => { element with closeTime := now }
    pure false
  else pure true

/-- The lookup of `close`. -/
def closeCached (handle : Int) : CacheProgram Path Data Stat Bool := do
  let it ← findElementForUpdateHandle handle
  match it with
  | none => pure true
  | some element => do
      let realCloseNeeded ← releaseDir handle element
      unlock
      pure realCloseNeeded

/-- `CachedSftpClient::close` up to its last line. -/
def closeHandle (handle : Int) : CacheProgram Path Data Stat Unit := do
  let realCloseNeeded ← closeCached handle
  if realCloseNeeded then do
    let _ ← call (CacheCall.realclose handle)
    pure ()
  else pure ()

/-- `CachedSftpClient::close`.  The mutex is released once more at the end. -/
def close (handle : Int) : CacheProgram Path Data Stat Unit := do
  closeHandle handle
  unlock

/-! ## Sizes of file systems -/

/-- The cached sizes, if they are not older than five seconds. -/
def reuseStatvfs : Option (CacheStatvfsElement Stat) → CacheProgram Path Data Stat (Option Stat)
  | none => pure none
  | some element => do
      let now : Int ← call CacheCall.time
      let _ ← load
      if now - element.timestamp < 5 then pure (some element.statvfs) else pure none

def storeStatvfs (path : Path) (stat : Stat) : CacheProgram Path Data Stat Unit := do
  lock
  let shared ← load
  let timestamp := (shared.statvfs path).elim 0 CacheStatvfsElement.timestamp
  store { shared with statvfs := Function.update shared.statvfs path (some ⟨stat, timestamp⟩) }
  let now : Int ← call CacheCall.time
  let shared ← load
  store { shared with statvfs := Function.update shared.statvfs path (some ⟨stat, now⟩) }
  unlock

/-- `CachedSftpClient::statvfs`, with the sizes that it returns. -/
def statvfs (path : Path) : CacheProgram Path Data Stat (Int × Stat) := do
  lock
  let shared ← load
  let reused ← reuseStatvfs (shared.statvfs path)
  unlock
  match reused with
  | some stat => pure (0, stat)
  | none => do
      let answer : Int × Stat ← call (CacheCall.statvfs path)
      if answer.1 = 0 then do
        storeStatvfs path answer.2
        pure answer
      else pure answer

/-! ## Pieces of the functions -/

/-- The locks that `findElementForUpdate` leaves with its result. -/
def locksFor (it : Option (DirElement Path Data)) : Nat := if it.isSome then 1 else 0

section Pieces

variable {around : Surroundings (SharedCache Path Data Stat) (CacheCall.Reply Path Data Stat)}
variable {locks : Nat} (found : DirElement Path Data → Bool) (element : DirElement Path Data)

omit [DecidableEq Path]

theorem search_keeps :
    Keeps around (locks + 1) (search found) fun _ => locks + 1 :=
  Keeps.load.bind fun _ => Keeps.pure rfl

theorem fetch_keeps :
    Keeps around (locks + 1) (fetch element) fun _ => locks + 1 :=
  Keeps.load.bind fun _ => Keeps.pure rfl

theorem change_keeps (update : DirElement Path Data → DirElement Path Data) :
    Keeps around (locks + 1) (change found update) fun _ => locks + 1 :=
  Keeps.load.bind fun _ => Keeps.store _

theorem erase_keeps : Keeps around (locks + 1) (erase found) fun _ => locks + 1 :=
  Keeps.load.bind fun _ => Keeps.store _

theorem pushBack_keeps : Keeps around locks (pushBack element) fun _ => locks :=
  Keeps.lock.bind fun _ => Keeps.load.bind fun _ => (Keeps.store _).bind fun _ => Keeps.unlock

theorem findElement_keeps : Keeps around locks (findElement found) fun _ => locks :=
  Keeps.lock.bind fun _ => (search_keeps found).bind fun _ => Keeps.unlock.bind fun _ => Keeps.pure rfl

/-- The mutex is held exactly when an element was found. -/
theorem findElementForUpdate_keeps : Keeps around 0 (findElementForUpdate found) locksFor := by
  refine Keeps.lock.bind fun _ => (search_keeps found).bind fun it => ?_
  cases it with
  | none => exact Keeps.unlock.bind fun _ => Keeps.pure rfl
  | some element => exact Keeps.pure rfl

/-- A function that looks for an element, works on it and releases the mutex. -/
theorem findElementForUpdate_unlock {Value : Type} {missing : Value}
    {work : DirElement Path Data → CacheProgram Path Data Stat Value}
    (works : ∀ element, Keeps around 1 (work element) fun _ => 0) :
    Keeps around 0 (do
      let it ← findElementForUpdate found
      match it with
      | none => pure missing
      | some element => work element) fun _ => 0 := by
  refine (findElementForUpdate_keeps found).bind fun it => ?_
  cases it with
  | none => exact Keeps.pure rfl
  | some element => exact works element

theorem takeUnused_keeps : Keeps around 1 (takeUnused found element) fun _ => 1 := by
  refine (fetch_keeps element).bind fun element => ?_
  split
  · exact (erase_keeps found).bind fun _ => Keeps.pure rfl
  · exact Keeps.pure rfl

theorem removeUnusedHandle_keeps : Keeps around 0 (removeUnusedHandle found) fun _ => 0 := by
  refine findElementForUpdate_unlock found fun element => ?_
  refine (takeUnused_keeps found element).bind fun handleToClose => Keeps.unlock.bind fun _ => ?_
  split
  · exact (Keeps.call _).bind fun _ => Keeps.pure rfl
  · exact Keeps.pure rfl

theorem reuseListing_keeps (handle : Int) :
    Keeps around 1 (reuseListing handle element) fun _ => 1 := by
  refine (fetch_keeps element).bind fun element => ?_
  split
  · refine (Keeps.call _).bind fun now => ?_
    split
    · exact Keeps.pure rfl
    · exact (Keeps.call _).bind fun _ => Keeps.pure rfl
  · exact Keeps.pure rfl

theorem readdirCached_keeps (handle : Int) :
    Keeps around 0 (readdirCached handle) fun _ => 0 := by
  refine findElementForUpdate_unlock _ fun element => ?_
  exact (reuseListing_keeps element handle).bind fun _ => (change_keeps _ _).bind fun _ =>
    Keeps.unlock.bind fun _ => Keeps.pure rfl

theorem keepListing_keeps (handle : Int) (data : List Data) :
    Keeps around 1 (keepListing handle data (some element)) fun _ => 1 :=
  (change_keeps _ _).bind fun _ => (Keeps.call _).bind fun _ => change_keeps _ _

theorem reuseDir_keeps : Keeps around 1 (reuseDir found element) fun _ => 1 := by
  refine (fetch_keeps element).bind fun element => ?_
  split
  · exact (change_keeps found _).bind fun _ => Keeps.pure rfl
  · exact Keeps.pure rfl

theorem newElement_keeps (path : Path) (handle : Int) :
    Keeps around locks (newElement path handle : CacheProgram Path Data Stat _) fun _ => locks :=
  (Keeps.call _).bind fun _ => (Keeps.call _).bind fun _ => Keeps.pure rfl

theorem releaseDir_keeps (handle : Int) : Keeps around 1 (releaseDir handle element) fun _ => 1 := by
  refine (fetch_keeps element).bind fun element => ?_
  split
  · exact (change_keeps _ _).bind fun _ => (Keeps.call _).bind fun _ =>
      (change_keeps _ _).bind fun _ => Keeps.pure rfl
  · exact Keeps.pure rfl

theorem closeHandle_keeps (handle : Int) : Keeps around 0 (closeHandle handle) fun _ => 0 := by
  have cached : Keeps around 0 (closeCached handle) fun _ => 0 := by
    refine findElementForUpdate_unlock _ fun element => ?_
    exact (releaseDir_keeps element handle).bind fun _ => Keeps.unlock.bind fun _ => Keeps.pure rfl
  refine cached.bind fun realCloseNeeded => ?_
  split
  · exact (Keeps.call _).bind fun _ => Keeps.pure rfl
  · exact Keeps.pure rfl

theorem reuseStatvfs_keeps (cached : Option (CacheStatvfsElement Stat)) :
    Keeps around 1 (reuseStatvfs cached) fun _ => 1 := by
  cases cached with
  | none => exact Keeps.pure rfl
  | some element =>
      refine (Keeps.call _).bind fun now => Keeps.load.bind fun _ => ?_
      split
      · exact Keeps.pure rfl
      · exact Keeps.pure rfl

end Pieces

section Paths

variable {around : Surroundings (SharedCache Path Data Stat) (CacheCall.Reply Path Data Stat)}
variable (path : Path)

theorem lookUpDir_keeps : Keeps around 0 (lookUpDir path) fun _ => 0 := by
  refine findElementForUpdate_unlock _ fun element => ?_
  exact (reuseDir_keeps _ element).bind fun _ => Keeps.unlock.bind fun _ => Keeps.pure rfl

theorem opendir_keeps : Keeps around 0 (opendir path) fun _ => 0 := by
  refine (lookUpDir_keeps path).bind fun handle => ?_
  split
  · refine (Keeps.call _).bind fun handle => ?_
    split
    · exact (newElement_keeps path _).bind fun element => (pushBack_keeps element).bind fun _ =>
        Keeps.pure rfl
    · exact Keeps.pure rfl
  · exact Keeps.pure rfl

theorem createfile_keeps (access shared create flags : UInt32) (isDir : Bool) :
    Keeps around 0 (createfile path access shared create flags isDir) fun _ => 0 := by
  refine (lookUpDir_keeps path).bind fun handle => ?_
  split
  · refine (Keeps.call _).bind fun answer => ?_
    split
    · exact (newElement_keeps path _).bind fun element => (pushBack_keeps element).bind fun _ =>
        Keeps.pure rfl
    · exact Keeps.pure rfl
  · exact Keeps.pure rfl

theorem storeStatvfs_keeps (stat : Stat) : Keeps around 0 (storeStatvfs path stat) fun _ => 0 :=
  Keeps.lock.bind fun _ => Keeps.load.bind fun _ => (Keeps.store _).bind fun _ =>
    (Keeps.call _).bind fun _ => Keeps.load.bind fun _ => (Keeps.store _).bind fun _ => Keeps.unlock

theorem statvfs_keeps : Keeps around 0 (statvfs path) fun _ => 0 := by
  refine Keeps.lock.bind fun _ => Keeps.load.bind fun shared =>
    (reuseStatvfs_keeps _).bind fun reused => Keeps.unlock.bind fun _ => ?_
  cases reused with
  | some stat => exact Keeps.pure rfl
  | none =>
      refine (Keeps.call _).bind fun answer => ?_
      split
      · exact (storeStatvfs_keeps path _).bind fun _ => Keeps.pure rfl
      · exact Keeps.pure rfl

end Paths

/-! ## The second lookup of `readdir` -/

section SecondLookup

variable {around : Surroundings (SharedCache Path Data Stat) (CacheCall.Reply Path Data Stat)}
variable {handle : Int}

omit [DecidableEq Path]

theorem findElementForUpdate_takes (found : DirElement Path Data → Bool) :
    Takes around 1 (findElementForUpdate found) := by
  refine Takes.lock.bind fun _ => (Takes.load.bind fun _ => Takes.pure _).bind fun it => ?_
  cases it with
  | none => exact Takes.unlock.bind fun _ => Takes.pure none
  | some element => exact Takes.pure (some element)

theorem change_takes (found : DirElement Path Data → Bool)
    (update : DirElement Path Data → DirElement Path Data) : Takes around 0 (change found update) :=
  Takes.load.bind fun _ => Takes.store _

theorem reuseListing_takes (element : DirElement Path Data) :
    Takes around 0 (reuseListing handle element) := by
  refine (Takes.load.bind fun _ => Takes.pure _).bind fun element => ?_
  split
  · refine (Takes.call _).bind fun now => ?_
    split
    · exact Takes.pure _
    · exact (Takes.call _).bind fun _ => Takes.pure _
  · exact Takes.pure _

theorem readdirCached_takes : Takes around 1 (readdirCached handle) := by
  refine (findElementForUpdate_takes _).bind fun it => ?_
  cases it with
  | none => exact Takes.pure none
  | some element =>
      exact (reuseListing_takes element).bind fun _ => (change_takes _ _).bind fun _ =>
        Takes.unlock.bind fun _ => Takes.pure _

theorem keepListing_takes (data : List Data) (it : Option (DirElement Path Data)) :
    Takes around 0 (keepListing handle data it) := by
  cases it with
  | none => exact Takes.pure ()
  | some element =>
      exact (change_takes _ _).bind fun _ => (Takes.call _).bind fun _ => change_takes _ _

theorem readdirStore_takes (data : List Data) : Takes around 1 (readdirStore handle data) :=
  (findElementForUpdate_takes _).bind fun it => (keepListing_takes data it).bind fun _ => Takes.unlock

/-- The lookup finds what the other threads have left. -/
theorem findElementForUpdate_finds (found : DirElement Path Data → Bool) (count : Nat) :
    Triple around (fun state => state.events.count .lock = count) (findElementForUpdate found)
      fun it _ => it = (around.views count).elements.find? found := by
  have locked : Triple around (fun state => state.events.count .lock = count) lock
      fun _ state => state.shared = around.views count :=
    Triple.lock fun _ counted => congrArg around.views counted
  have searched : Triple around (fun state => state.shared = around.views count) (search found)
      fun it _ => it = (around.views count).elements.find? found := by
    have loaded : Triple around (fun state => state.shared = around.views count) load
        fun shared _ => shared = around.views count := Triple.load fun _ same => same
    refine loaded.bind fun shared => Triple.pure fun _ same => ?_
    rw [same]
  refine locked.bind fun _ => searched.bind fun it => ?_
  cases it with
  | none =>
      have unlocked : Triple around (fun _ => none = (around.views count).elements.find? found) unlock
          fun _ _ => none = (around.views count).elements.find? found := Triple.unlock fun _ same => same
      exact unlocked.bind fun _ => Triple.pure fun _ same => same
  | some element => exact Triple.pure fun _ same => same

/-- The second lookup keeps the discipline if it finds the handle. -/
theorem readdirStore_holding (data : List Data) :
    Triple around (fun state => LockEvent.Balanced state.events ∧ state.events.count .lock = 1)
      (readdirStore handle data) fun _ state => state.events.count .lock = 2 ∧
        ((∃ element ∈ (around.views 1).elements, element.handle = handle) →
          LockEvent.Balanced state.events) := by
  rintro state ⟨balanced, counted⟩
  refine ⟨(readdirStore_takes data state).trans (by rw [counted]), fun ⟨element, member, same⟩ => ?_⟩
  have value : ((findElementForUpdate (hasHandle handle)).exec around state).1 = _ :=
    findElementForUpdate_finds (hasHandle handle) 1 state counted
  have keeps : Keeps around 0 (findElementForUpdate (hasHandle handle)) locksFor :=
    findElementForUpdate_keeps (hasHandle handle)
  have held := keeps state balanced
  obtain ⟨first, isFirst⟩ : ∃ first, (around.views 1).elements.find? (hasHandle handle) = some first := by
    refine Option.isSome_iff_exists.mp (List.find?_isSome.mpr ⟨element, member, ?_⟩)
    exact decide_eq_true same
  rw [isFirst] at value
  rw [value] at held
  have rest : Keeps around 1 (do keepListing handle data (some first); unlock) fun _ => 0 :=
    (keepListing_keeps first handle data).bind fun _ => Keeps.unlock
  have released := rest _ held
  rw [← value] at released
  exact released

theorem readdir_balanced (shared : SharedCache Path Data Stat)
    (finds : ((readdir handle).events around shared).count .lock = 2 →
      ∃ element ∈ (around.views 1).elements, element.handle = handle) :
    LockEvent.Balanced ((readdir handle).events around shared) := by
  have first : Triple around (fun state => state.events = []) (readdirCached handle)
      fun _ state => LockEvent.Balanced state.events ∧ state.events.count .lock = 1 := by
    intro state empty
    have balanced : LockEvent.Balanced state.events := by
      rw [empty]
      exact LockEvent.balanced_nil
    refine ⟨readdirCached_keeps handle state balanced, (readdirCached_takes state).trans ?_⟩
    rw [empty]
    rfl
  have whole : Triple around (fun state => state.events = []) (readdir handle) fun _ state =>
      (state.events.count .lock = 2 →
        ∃ element ∈ (around.views 1).elements, element.handle = handle) →
      LockEvent.Balanced state.events := by
    refine first.bind fun reused => ?_
    cases reused with
    | some data => exact Triple.pure fun _ done _ => done.1
    | none =>
        have called : Triple around
            (fun state => LockEvent.Balanced state.events ∧ state.events.count .lock = 1)
            (call (CacheCall.readdir handle))
            fun _ state => LockEvent.Balanced state.events ∧ state.events.count .lock = 1 :=
          Triple.call fun _ done _ => ⟨done.1.call, (List.count_cons_of_ne (by decide)).trans done.2⟩
        refine called.bind fun answer => ?_
        split
        · exact (readdirStore_holding _).bind fun _ => Triple.pure fun _ done found =>
            done.2 (found done.1)
        · exact Triple.pure fun _ done _ => done.1
  exact whole ⟨[], shared⟩ rfl finds

end SecondLookup

/-! ## All functions -/

section Client

/-- How the functions of the client treat the mutex, started without it: for all of them, any
cache and any answers of the server.  `findElementForUpdate` leaves one lock if it has found
an element.  Left open are the last `unlock()` of `close`, and `readdir` where its second
lookup finds nothing. -/
structure LocksKept (around : Surroundings (SharedCache Path Data Stat) (CacheCall.Reply Path Data Stat))
    (shared : SharedCache Path Data Stat) : Prop where
  findElementHandle : ∀ handle,
    LockEvent.Balanced ((findElementHandle handle).events around shared)
  findElementPath : ∀ path, LockEvent.Balanced ((findElementPath path).events around shared)
  findElementForUpdateHandle : ∀ handle,
    LockEvent.Holding (locksFor ((findElementForUpdateHandle handle).exec around ⟨[], shared⟩).1)
      ((findElementForUpdateHandle handle).events around shared)
  findElementForUpdatePath : ∀ path,
    LockEvent.Holding (locksFor ((findElementForUpdatePath path).exec around ⟨[], shared⟩).1)
      ((findElementForUpdatePath path).events around shared)
  removeUnusedHandlePath : ∀ path,
    LockEvent.Balanced ((removeUnusedHandlePath path).events around shared)
  removeUnusedHandleHandle : ∀ handle,
    LockEvent.Balanced ((removeUnusedHandleHandle handle).events around shared)
  readdir : ∀ handle,
    (((readdir handle).events around shared).count .lock = 2 →
      ∃ element ∈ (around.views 1).elements, element.handle = handle) →
    LockEvent.Balanced ((readdir handle).events around shared)
  opendir : ∀ path, LockEvent.Balanced ((opendir path).events around shared)
  close : ∀ handle, ∃ earlier, (close handle).events around shared = .unlock :: earlier ∧
    LockEvent.Balanced earlier
  statvfs : ∀ path, LockEvent.Balanced ((statvfs path).events around shared)
  createfile : ∀ path access share create flags isDir,
    LockEvent.Balanced ((createfile path access share create flags isDir).events around shared)

/-- The functions keep the lock balanced, except where `LocksKept` leaves it open. -/
theorem locks_kept
    (around : Surroundings (SharedCache Path Data Stat) (CacheCall.Reply Path Data Stat))
    (shared : SharedCache Path Data Stat) : LocksKept around shared where
  findElementHandle _ := (findElement_keeps _).events shared
  findElementPath _ := (findElement_keeps _).events shared
  findElementForUpdateHandle _ := (findElementForUpdate_keeps _).events shared
  findElementForUpdatePath _ := (findElementForUpdate_keeps _).events shared
  removeUnusedHandlePath _ := (removeUnusedHandle_keeps _).events shared
  removeUnusedHandleHandle _ := (removeUnusedHandle_keeps _).events shared
  readdir _ finds := readdir_balanced shared finds
  opendir path := (opendir_keeps path).events shared
  close handle := ⟨_, rfl, (closeHandle_keeps handle).events shared⟩
  statvfs path := (statvfs_keeps path).events shared
  createfile path access share create flags isDir :=
    (createfile_keeps path access share create flags isDir).events shared

/-- One element, for the handle 7. -/
def oneElement : SharedCache Nat Nat Nat where
  elements := [⟨⟨1, 7, 1, 0, true⟩, false, [], 0⟩]
  statvfs := fun _ => none

/-- Other threads that leave the element, and a server that always answers with zeros. -/
def quietServer : Surroundings (SharedCache Nat Nat Nat) (CacheCall.Reply Nat Nat Nat) where
  views := fun _ => oneElement
  replies := fun
    | _, .time | _, .unset | _, .opendir _ | _, .resetdir _ | _, .realclose _ => (0 : Int)
    | _, .createfile .. => ((0, false) : Int × Bool)
    | _, .readdir _ => ((0, []) : Int × List Nat)
    | _, .statvfs _ => ((0, 0) : Int × Nat)

/-- `findElementForUpdate` returns with the mutex when it has found the handle. -/
theorem findElementForUpdate_leaves_lock :
    (findElementForUpdateHandle 7).events quietServer oneElement = [.read, .lock] ∧
      ¬LockEvent.Balanced ((findElementForUpdateHandle 7).events quietServer oneElement) := by
  have events : (findElementForUpdateHandle 7).events quietServer oneElement = [.read, .lock] := rfl
  refine ⟨events, fun balanced => ?_⟩
  have counts := balanced.counts
  rw [events] at counts
  exact absurd counts (by decide)

end Client

end CachedSftpClient

end Tegenaria.LibSftp
