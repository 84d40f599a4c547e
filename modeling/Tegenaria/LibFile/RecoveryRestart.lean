import Tegenaria.LibFile.RecoveryCalls

/-!
# Interrupted recoveries

Transactions on one file, one after another, and recoveries, each of them interrupted between any two
of its system calls.  The other files of the directory have any names that do not contain the name of
the file.

Two things lead to the loss of the file.  A stamp may be drawn again while an alternative file of it
is still there.  And a recovery that finds a file whose name is the end of this one's name deletes the
temporary files of both.
-/

namespace Tegenaria.LibFile

open Foundation

/-! ## The files of one target -/

namespace Directory

/-- The entries whose names contain the name of the target. -/
def about (target : Target) (directory : Directory) : Directory := fun name =>
  if target.name <:+: name then directory name else none

/-- The entry of the target. -/
def just (target : Target) (directory : Directory) : Directory := fun name =>
  if name = target.name then directory name else none

section About

variable {target : Target} {directory next : Directory} {name source other : Name}

theorem about_inside (inside : target.name <:+: name) : directory.about target name = directory name :=
  if_pos inside

theorem about_outside (outside : ¬ target.name <:+: name) : directory.about target name = none :=
  if_neg outside

theorem infix_reserved (mark : Mark) (target : Target) (stamp : Stamp) :
    target.name <:+: reserved mark target stamp := (List.prefix_append ..).isInfix

@[simp]
theorem about_name : directory.about target target.name = directory target.name :=
  about_inside List.infix_rfl

@[simp]
theorem about_reserved (mark : Mark) (stamp : Stamp) :
    directory.about target (reserved mark target stamp) = directory (reserved mark target stamp) :=
  about_inside (infix_reserved mark target stamp)

theorem about_update (inside : target.name <:+: name) (entry : Option Entry) :
    about target (Function.update directory name entry) =
      Function.update (directory.about target) name entry := by
  funext other
  by_cases same : other = name
  · rw [same, about_inside inside, Function.update_self, Function.update_self]
  · rw [Function.update_of_ne same, about, about, Function.update_of_ne same]

/-- Files of other names may change. -/
theorem about_update_outside (outside : ¬ target.name <:+: name) (entry : Option Entry) :
    about target (Function.update directory name entry) = directory.about target := by
  funext other
  by_cases inside : target.name <:+: other
  · have different : other ≠ name := fun same => outside (same ▸ inside)
    rw [about_inside inside, about_inside inside, Function.update_of_ne different]
  · rw [about_outside inside, about_outside inside]

theorem isFile_about (inside : target.name <:+: name) :
    (directory.about target).isFile name = directory.isFile name := by
  rw [isFile, about_inside inside, isFile]

theorem about_deleteFile (name : Name) :
    (directory.deleteFile name).about target = (directory.about target).deleteFile name := by
  by_cases inside : target.name <:+: name
  · rw [deleteFile, deleteFile, isFile_about inside]
    split
    · exact about_update inside none
    · rfl
  · rw [deleteFile_absent (about_outside inside), deleteFile]
    split
    · exact about_update_outside inside none
    · rfl

theorem about_store (inside : target.name <:+: name) (content : List UInt8) :
    (directory.store name content).about target = (directory.about target).store name content := by
  rw [store, store, isFile_about inside]
  split
  · exact about_update inside _
  · rfl

theorem about_moveFile (fromInside : target.name <:+: source) (inside : target.name <:+: name)
    (moved : directory.moveFile source name = some next) :
    (directory.about target).moveFile source name = some (next.about target) := by
  rw [moveFile] at moved ⊢
  rw [about_inside fromInside, about_inside inside]
  split at moved
  · split at moved
    · cases moved
      rw [if_pos ‹_›, about_update inside, about_update fromInside]
    · cases moved
  · cases moved

theorem about_copyFile (fromInside : target.name <:+: source) (inside : target.name <:+: name)
    (copied : directory.copyFile source name = some next) :
    (directory.about target).copyFile source name = some (next.about target) := by
  rw [copyFile] at copied ⊢
  rw [about_inside fromInside, about_inside inside]
  split at copied
  · split at copied
    · cases copied
      rw [if_pos ‹_›, about_update inside]
    · cases copied
  · cases copied
  · cases copied

theorem about_fopen (inside : target.name <:+: name) {mode : List Char} {view : List UInt8}
    (opened : directory.fopen name mode = some (next, view)) :
    (directory.about target).fopen name mode = some (next.about target, view) := by
  rw [fopen] at opened ⊢
  rw [about_inside inside]
  split at opened <;> cases opened
  · rfl
  · rfl
  all_goals simp only [about_update inside]

theorem about_of_moveFile (outside : ¬ target.name <:+: name) 
    (absent : directory.about target source = none) (moved : directory.moveFile source name = some next) :
    next.about target = directory.about target := by
  obtain ⟨-, entry, there, rfl⟩ := moveFile_eq_some moved
  have other : ¬ target.name <:+: source := by
    intro inside
    rw [about_inside inside, there] at absent
    cases absent
  rw [about_update_outside outside, about_update_outside other]

theorem just_update (entry : Option Entry) :
    just target (Function.update directory target.name entry) =
      Function.update (directory.just target) target.name entry := by
  funext other
  by_cases same : other = target.name
  · rw [same, just, if_pos rfl, Function.update_self, Function.update_self]
  · rw [Function.update_of_ne same, just, just, if_neg same, if_neg same]

end About

end Directory

/-- Only the target has reserved files among the ones about it. -/
theorem Consistent.target_of_reserved {target other : Target} {committed directory : Directory}
    {mark : Mark} {stamp : Stamp} (consistent : Consistent (directory.about target) (committed.just target))
    (present : directory.about target (reserved mark other stamp) ≠ none) : other = target := by
  obtain ⟨-, content, file⟩ := consistent.known mark other stamp present
  by_contra different
  have absent : committed.just target other.name = none := if_neg fun same => different (Target.ext same)
  cases absent.symm.trans file

/-! ## Transactions on one target -/

namespace Volume

variable {target : Target} {volume next : Volume Unit} {label : VolumeLabel Unit}

/-- The files of the target, before and after the commitments. -/
def about (target : Target) (volume : Volume Unit) : Volume Unit :=
  { volume with directory := volume.directory.about target, committed := volume.committed.just target }

/-- Without a transaction, the invariant is about the directory only. -/
theorem Invariant.idle (quiet : volume.stages () = .idle)
    (consistent : Consistent volume.directory volume.committed) : Invariant volume where
  consistent := consistent
  owned := by
    intro id active
    rw [quiet] at active
    cases active
  exclusive := by
    intro id other target stamp claims
    rw [quiet] at claims
    cases claims

/-- The temporary file of a transaction may overwrite another one, as long as there is no alternative
file. -/
theorem Invariant.copyAgain (invariant : Invariant volume) {f : TFile} {directory : Directory}
    (clean : Clean f.fname) (noAlt : volume.directory f.altName = none)
    (copied : volume.directory.copyFile f.fname f.tmpName = some directory) :
    Invariant ({ volume with directory }.goto () (.copied f)) := by
  obtain ⟨short, content, file, rfl⟩ := Directory.copyFile_eq_some copied
  have names := f.names_of_short clean short
  rw [names.altName] at noAlt
  rw [names.tmpName] at short ⊢
  have original : volume.committed (Target.mk f.fname clean).name = some (.file content) :=
    invariant.consistent.present file
  refine invariant.advance (fun _ different => absurd rfl different)
    (invariant.consistent.storeTmp noAlt short original content) (update_elsewhere _ _ _)
    (.inr ⟨names, ⟨content, by simp⟩, ?_⟩)
  rw [Function.update_of_ne (by simp)]
  exact noAlt

/-- The names that an active transaction on the target uses. -/
theorem Invariant.namesAbout (invariant : Invariant (volume.about target)) {stamp : Stamp} {other : Target}
    (has : Has (volume.directory.about target) other stamp (volume.stages ()))
    (active : Stage.isQuiet (volume.stages ()) = false) : other = target := by
  rcases has.present active with tmp | alt
  · exact invariant.consistent.target_of_reserved tmp
  · exact invariant.consistent.target_of_reserved alt

theorem Invariant.atActive (invariant : Invariant (volume.about target))
    (active : Stage.isQuiet (volume.stages ()) = false) :
    ∃ stamp, Claims target stamp (volume.stages ()) ∧
      Has (volume.directory.about target) target stamp (volume.stages ()) := by
  obtain ⟨other, stamp, claims, has⟩ := invariant.owned () active
  obtain rfl := invariant.namesAbout has active
  exact ⟨stamp, claims, has⟩

/-- What a transaction on the target is allowed to begin with: no alternative file has its stamp. -/
def FreshStamp (volume : Volume Unit) : VolumeLabel Unit → Prop
  | .tfopen _ fname cookie timestamp _ => volume.directory (TFile.mk fname cookie timestamp).altName = none
  | .calloc _ | .fopen .. | .write .. | .tfclose .. | .go .. => True

/-- A step of a transaction on the target that writes all it has got to write. -/
def OnTarget (target : Target) : VolumeLabel Unit → Prop
  | .tfopen _ fname _ _ _ => fname = target.name
  | .tfclose _ flushed => flushed = true
  | .calloc _ | .fopen .. | .write .. | .go .. => True

/-- All names of a transaction contain the one of its target. -/
theorem infix_of_names {f : TFile} {stamp : Stamp} (names : f.Names target stamp) :
    target.name <:+: f.fname ∧ target.name <:+: f.tmpName ∧ target.name <:+: f.altName := by
  rw [names.fname, names.tmpName, names.altName]
  exact ⟨List.infix_rfl, Directory.infix_reserved .., Directory.infix_reserved ..⟩

theorem Moves.invariant_about (invariant : Invariant (volume.about target))
    (fresh : FreshStamp volume label) (onTarget : OnTarget target label) (moves : Moves volume label next) :
    Invariant (next.about target) := by
  cases moves with
  | refuse at_ => exact (invariant.retire rfl : Invariant ((volume.about target).goto () .ended))
  | @copy _ fname cookie timestamp _ directory at_ copied =>
      obtain rfl : fname = target.name := onTarget
      obtain ⟨short, -⟩ := Directory.copyFile_eq_some copied
      have names := TFile.names_of_short ⟨target.name, cookie, timestamp⟩ target.clean short
      obtain ⟨inside, tmpInside, altInside⟩ := infix_of_names names
      have copiedAbout := Directory.about_copyFile inside tmpInside copied
      refine (Invariant.copyAgain invariant target.clean ?_ copiedAbout).record _
      exact (Directory.about_inside altInside).trans fresh
  | calloc at_ =>
      obtain ⟨target, stamp, claims, names, has⟩ := invariant.atCopied at_
      exact invariant.proceed claims names.tmpName has
  | fopen at_ opened =>
      obtain ⟨stamp, claims, -⟩ := invariant.atActive (by rw [at_]; rfl)
      rw [at_] at claims
      exact invariant.fopen at_ (Directory.about_fopen (infix_of_names claims).2.1 opened)
  | fopenFails at_ =>
      obtain ⟨target, stamp, claims, names, has⟩ := invariant.atCopied at_
      exact invariant.proceed claims ⟨rfl, names.tmpName⟩ has
  | @write _ view stored f before at_ =>
      obtain ⟨stamp, claims, -⟩ := invariant.atActive (by rw [at_]; rfl)
      rw [at_] at claims
      have same : (volume.directory.store f.tmpName stored).about target =
          (volume.about target).directory.store f.tmpName stored :=
        Directory.about_store (infix_of_names claims).2.1 stored
      have kept := invariant.write at_ view stored
      rw [← same] at kept
      exact kept
  | @fclose _ f view at_ =>
      obtain ⟨stamp, claims, -⟩ := invariant.atActive (by rw [at_]; rfl)
      rw [at_] at claims
      have same : (volume.directory.store f.tmpName view).about target =
          (volume.about target).directory.store f.tmpName view :=
        Directory.about_store (infix_of_names claims).2.1 view
      have kept := invariant.fclose at_
      rw [← same] at kept
      exact kept
  | fcloseFails at_ => cases onTarget
  | @part _ _ f written tmpCreated directory at_ moved =>
      obtain ⟨stamp, claims, -⟩ := invariant.atActive (by rw [at_]; rfl)
      rw [at_] at claims
      cases tmpCreated with
      | some tmpName => exact absurd claims.1 (Directory.moveFile_eq_some moved).1
      | none =>
          obtain ⟨inside, -, altInside⟩ := infix_of_names claims
          have kept := (invariant.part at_ (Directory.about_moveFile inside altInside moved)).record
            (.committed () f.fname written)
          have name : f.fname = target.name := claims.fname
          have same : Directory.just target
              (Function.update volume.committed f.fname (some (.file written))) =
                Function.update (volume.about target).committed f.fname (some (.file written)) := by
            rw [name]
            exact Directory.just_update _
          rw [← same] at kept
          exact kept
  | partFails at_ => exact invariant.leave at_
  | @replace _ _ f tmpCreated directory at_ moved =>
      obtain ⟨stamp, claims, -⟩ := invariant.atActive (by rw [at_]; rfl)
      rw [at_] at claims
      cases tmpCreated with
      | some tmpName => cases claims
      | none =>
          obtain ⟨inside, tmpInside, -⟩ := infix_of_names claims
          exact invariant.replace at_ (Directory.about_moveFile tmpInside inside moved)
  | replaceFails at_ => exact invariant.leave_ended (.inl at_)
  | @discard _ f tmpCreated at_ =>
      have kept := invariant.discard at_
      have same : (volume.directory.deleteFile f.altName).about target =
          (volume.about target).directory.deleteFile f.altName := Directory.about_deleteFile _
      rw [← same] at kept
      exact kept
  | discardFails at_ => exact invariant.leave_ended (.inr at_)
  | @tidy _ tmpName at_ =>
      have kept := invariant.tidy at_
      have same : (volume.directory.deleteFile tmpName).about target =
          (volume.about target).directory.deleteFile tmpName := Directory.about_deleteFile _
      rw [← same] at kept
      exact kept
  | tidyFails at_ => exact (invariant.retire rfl : Invariant ((volume.about target).goto () .ended))

/-- The content that the last transaction has found, or what it has written once it has moved the
original away. -/
def outcome (initial : List UInt8) : List (VolumeEvent Unit) → List UInt8
  | [] => initial
  | .opened _ _ before :: _ => before
  | .committed _ _ written :: _ => written

theorem Moves.outcome {initial : List UInt8} (invariant : Invariant (volume.about target))
    (onTarget : OnTarget target label) (moves : Moves volume label next)
    (before : volume.committed target.name = some (.file (outcome initial volume.history))) :
    next.committed target.name = some (.file (Volume.outcome initial next.history)) := by
  cases moves with
  | copy at_ copied =>
      obtain rfl : _ = target.name := onTarget
      obtain ⟨-, content, file, -⟩ := Directory.copyFile_eq_some copied
      have same : volume.committed.just target target.name = some (.file content) :=
        invariant.consistent.present (Directory.about_name.trans file)
      rw [Directory.just, if_pos rfl] at same
      exact same.trans (by rw [record, Volume.outcome, Directory.content_file file])
  | @part _ _ f written tmpCreated directory at_ moved =>
      obtain ⟨stamp, claims, -⟩ := invariant.atActive (by rw [at_]; rfl)
      rw [at_] at claims
      cases tmpCreated with
      | some tmpName => exact absurd claims.1 (Directory.moveFile_eq_some moved).1
      | none =>
          have name : f.fname = target.name := claims.fname
          change Function.update volume.committed f.fname _ target.name = _
          rw [name, Function.update_self]
          rfl
  | _ => exact before

end Volume

/-! ## Names that the recovery makes up -/

section Names

variable {target : Target} {mark other : Mark} {name left tail : List Char} {stamp : Stamp}

theorem overwriteMark_append (absent : '.' ∉ tail) :
    overwriteMark mark (left ++ '.' :: tail) = left ++ '.' :: (mark.word.take 3 ++ tail.drop 3) := by
  have first : (left ++ '.' :: tail).take (left.length + 1) = left ++ ['.'] := by
    rw [List.take_length_add_append]
    rfl
  have rest : (left ++ '.' :: tail).drop (left.length + 4) = tail.drop 3 := by
    rw [List.drop_length_add_append]
    rfl
  simp only [overwriteMark, Separator.findLastOf_append absent, first, rest]
  simp

/-- A listed name has a last dot. -/
theorem exists_lastDot (found : mark.mask <:+: name) :
    ∃ left tail, name = left ++ '.' :: tail ∧ '.' ∉ tail := by
  obtain ⟨front, back, same⟩ := found
  have dot : '.' ∈ name := by
    rw [← same]
    exact List.mem_append_left _ (List.mem_append_right _ List.mem_cons_self)
  exact Separator.exists_split_last dot

/-- The other name of a listed one is listed too. -/
theorem not_clean_overwriteMark (found : mark.mask <:+: name) : ¬ Clean (overwriteMark other name) := by
  obtain ⟨left, tail, rfl, absent⟩ := exists_lastDot found
  rw [overwriteMark_append absent]
  obtain ⟨front, back, same⟩ := found
  have split : front ++ '.' :: (mark.word ++ back) = left ++ '.' :: tail := by
    rw [← same]
    simp [Mark.mask]
  intro clean
  rcases Separator.split_last absent split with ⟨-, rfl⟩ | ⟨middle, rfl, after⟩
  · refine clean.not_mask other ⟨left, back, ?_⟩
    cases mark <;> cases other <;> simp [Mark.mask, Mark.word]
  · refine clean.not_mask mark ?_
    have inside : mark.mask <:+: front ++ '.' :: middle :=
      Separator.infix_of_split mark.dot_notMem_word after
    exact inside.trans (List.prefix_append ..).isInfix

/-- When the other name of a listed one belongs to a target, the listed one contains its name. -/
theorem infix_of_overwriteMark {further : Mark} (found : mark.mask <:+: name)
    (same : overwriteMark other name = reserved further target stamp) : target.name <:+: name := by
  obtain ⟨left, tail, rfl, absent⟩ := exists_lastDot found
  rw [overwriteMark_append absent, reserved] at same
  have noDot : '.' ∉ other.word.take 3 ++ tail.drop 3 := by
    rw [List.mem_append, not_or]
    exact ⟨fun mem => other.dot_notMem_word (List.mem_of_mem_take mem),
      fun mem => absent (List.mem_of_mem_drop mem)⟩
  have stampNoDot : '.' ∉ further.word ++ stamp.digits := by
    simp [further.dot_notMem_word, stamp.dot_notMem]
  rw [((Separator.append_cons_inj noDot stampNoDot).mp same).1]
  exact (List.prefix_append ..).isInfix

theorem originalName_begins (name : Name) : originalName name <+: name := by
  unfold originalName
  split
  · exact List.take_prefix ..
  · exact List.prefix_rfl

end Names

/-! ## One visit after another -/

/-- What an interrupted recovery leaves for the next one. -/
def Recoverable (target : Target) (committed directory : Directory) : Prop :=
  Consistent (directory.about target) (committed.just target)

/-- The answers and states that a call may meet: a listing shows every file once, and while the target
is missing, no file is found whose name is the end of the target's. -/
def Allowed (target : Target) (order : List Name) (directory : Directory) : FileCall → Prop
  | .listFiles _ => directory.ListedBy order
  | .fileExists name => directory target.name = none → name <:+ target.name → name ≠ target.name →
      directory name = none
  | .deleteFile _ | .moveFile .. => True

/-- The files of one kind that the target has are still to be visited; the temporary ones are visited
first. -/
structure Visiting (target : Target) (committed : Directory) (mark : Mark) (rest : List Name)
    (directory : Directory) : Prop where
  recoverable : Recoverable target committed directory
  pending : ∀ stamp, directory.about target (reserved mark target stamp) ≠ none →
    reserved mark target stamp ∈ rest
  noTmp : mark = .alt → ∀ stamp, directory.about target (reserved .tmp target stamp) = none

/-- A listed name is one of the target's, or it does not contain the name of the target. -/
def Listed (target : Target) (mark : Mark) (name : Name) : Prop :=
  (∃ stamp, name = reserved mark target stamp) ∨ ¬ target.name <:+: name ∧ mark.mask <:+: name

section Visits

variable {target : Target} {committed directory next : Directory} {mark : Mark} {rest files : List Name}
  {name : Name} {stamp : Stamp}

theorem Recoverable.listed (recoverable : Recoverable target committed directory) {order : List Name}
    (complete : directory.ListedBy order) (mem : name ∈ directory.listFiles order mark.mask) :
    Listed target mark name := by
  obtain ⟨⟨content, file⟩, found⟩ := (Directory.mem_listFiles complete).mp mem
  by_cases inside : target.name <:+: name
  · have present : directory.about target name ≠ none := by
      rw [Directory.about_inside inside, file]
      exact Option.some_ne_none _
    rcases Consistent.names recoverable name present with clean | ⟨other, owner, stamp, rfl⟩
    · exact absurd found (clean.not_mask mark)
    · obtain rfl := Consistent.target_of_reserved recoverable present
      obtain rfl := mask_infix_reserved.mp found
      exact .inl ⟨stamp, rfl⟩
  · exact .inr ⟨inside, found⟩

theorem Recoverable.mem_listFiles (recoverable : Recoverable target committed directory)
    {order : List Name} (complete : directory.ListedBy order)
    (present : directory.about target (reserved mark target stamp) ≠ none) :
    reserved mark target stamp ∈ directory.listFiles order mark.mask := by
  rw [Directory.mem_listFiles complete]
  obtain ⟨⟨content, file⟩, -⟩ := Consistent.known recoverable mark target stamp present
  exact ⟨⟨content, (Directory.about_reserved ..).symm.trans file⟩, mask_infix_reserved.mpr rfl⟩

/-- The other name of a listed file is not one of the target's. -/
theorem Recoverable.overwriteMark_absent (recoverable : Recoverable target committed directory)
    (outside : ¬ target.name <:+: name) (found : mark.mask <:+: name) (other : Mark) :
    directory.about target (overwriteMark other name) = none := by
  by_contra present
  rcases Consistent.names recoverable _ present with clean | ⟨further, owner, stamp, same⟩
  · exact not_clean_overwriteMark found clean
  · rw [same] at present
    obtain rfl := Consistent.target_of_reserved recoverable present
    exact outside (infix_of_overwriteMark found same)

/-- Only the files of the target matter. -/
theorem Visiting.congr (visiting : Visiting target committed mark rest directory)
    (same : next.about target = directory.about target) : Visiting target committed mark rest next := by
  obtain ⟨recoverable, pending, noTmp⟩ := visiting
  refine ⟨?_, by rwa [same], by rwa [same]⟩
  rw [Recoverable, same]
  exact recoverable

theorem Visiting.mono {more : List Name} (visiting : Visiting target committed mark rest directory)
    (fewer : ∀ stamp, reserved mark target stamp ∈ rest → reserved mark target stamp ∈ more) :
    Visiting target committed mark more directory :=
  ⟨visiting.recoverable, fun stamp present => fewer stamp (visiting.pending stamp present), visiting.noTmp⟩

theorem Visiting.deleteOther (visiting : Visiting target committed mark rest directory)
    (absent : directory.about target name = none) :
    Visiting target committed mark rest (directory.deleteFile name) := by
  refine visiting.congr ?_
  rw [Directory.about_deleteFile, Directory.deleteFile_absent absent]

theorem Recoverable.about_deleteFile (recoverable : Recoverable target committed directory) :
    (directory.deleteFile (reserved mark target stamp)).about target =
      Function.update (directory.about target) (reserved mark target stamp) none := by
  rw [Directory.about_deleteFile]
  by_cases absent : directory.about target (reserved mark target stamp) = none
  · rw [Directory.deleteFile_absent absent, ← absent, Function.update_eq_self]
  · obtain ⟨⟨content, file⟩, -⟩ := Consistent.known recoverable mark target stamp absent
    exact Directory.deleteFile_file file

/-- What a deletion leaves is still to be visited. -/
theorem Visiting.mem_of_kept (visiting : Visiting target committed mark (name :: rest) directory)
    (kept : Function.update (directory.about target) name none (reserved mark target stamp) ≠ none) :
    reserved mark target stamp ∈ rest := by
  by_cases same : reserved mark target stamp = name
  · rw [same, Function.update_self] at kept
    exact absurd rfl kept
  · rw [Function.update_of_ne same] at kept
    exact (List.mem_cons.mp (visiting.pending stamp kept)).resolve_left same

/-- While the target is there, its other files may be deleted. -/
theorem Visiting.delete
    (visiting : Visiting target committed mark (reserved mark target stamp :: rest) directory)
    (loose : ¬ Interrupted (directory.about target) target stamp) :
    Visiting target committed mark rest (directory.deleteFile (reserved mark target stamp)) := by
  have recoverable := visiting.recoverable
  have deleted : (directory.deleteFile (reserved mark target stamp)).about target =
      Function.update (directory.about target) (reserved mark target stamp) none :=
    recoverable.about_deleteFile
  constructor
  · rw [Recoverable, deleted]
    by_cases absent : directory.about target (reserved mark target stamp) = none
    · rw [← absent, Function.update_eq_self]
      exact recoverable
    · cases mark with
      | tmp => exact Consistent.dropTmp recoverable (by_contra fun alt => loose ⟨absent, alt⟩)
      | alt => exact Consistent.dropAlt recoverable (visiting.noTmp rfl stamp)
  · intro other kept
    rw [deleted] at kept
    exact visiting.mem_of_kept kept
  · intro isAlt other
    rw [deleted, Function.update_apply]
    split
    · rfl
    · exact visiting.noTmp isAlt other

theorem Visiting.loose (visiting : Visiting target committed mark rest directory)
    (present : directory target.name ≠ none) (stamp : Stamp) :
    ¬ Interrupted (directory.about target) target stamp := fun both =>
  present (Directory.about_name.symm.trans
    (Consistent.interrupted visiting.recoverable target stamp both).1)

theorem deleteFile_name (different : name ≠ target.name) :
    directory.deleteFile name target.name = directory target.name := by
  rw [deleteFile_apply, if_neg fun both => different both.1.symm]

theorem deleteFile_outside (outside : ¬ target.name <:+: name) :
    directory.deleteFile name target.name = directory target.name := by
  refine deleteFile_name ?_
  rintro rfl
  exact outside List.infix_rfl

theorem deleteFile_reserved :
    directory.deleteFile (reserved mark target stamp) target.name = directory target.name :=
  deleteFile_name (Ne.symm target_ne_reserved)

/-- The calls of the recovery, interrupted or not. -/
abbrev Leaves (target : Target) (committed : Directory) (program : FileProgram) (post : Directory → Prop)
    (directory : Directory) : Prop :=
  program.Keeps FileCall.serve (Allowed target) (Recoverable target committed) post directory

theorem leaves_fileExists {next : Bool → FileProgram} {post : Directory → Prop}
    (crash : Recoverable target committed directory)
    (goes : Allowed target [] directory (.fileExists name) → ∀ found, directory.fileExists name = found →
      Leaves target committed (next found) post directory) :
    Leaves target committed (.call (.fileExists name) next) post directory :=
  ⟨crash, fun _ allowed => goes allowed _ rfl⟩

theorem leaves_deleteFile {next : Unit → FileProgram} {post : Directory → Prop}
    (crash : Recoverable target committed directory)
    (goes : Leaves target committed (next ()) post (directory.deleteFile name)) :
    Leaves target committed (.call (.deleteFile name) next) post directory :=
  ⟨crash, fun _ _ => goes⟩

theorem leaves_moveFile {next : Bool → FileProgram} {post : Directory → Prop} {source : Name}
    (crash : Recoverable target committed directory)
    (moves : ∀ moved, directory.moveFile source name = some moved →
      Leaves target committed (next true) post moved)
    (stays : directory.moveFile source name = none → Leaves target committed (next false) post directory) :
    Leaves target committed (.call (.moveFile source name) next) post directory := by
  refine ⟨crash, fun _ _ => ?_⟩
  rw [FileCall.serve]
  cases result : directory.moveFile source name with
  | none => exact stays result
  | some moved => exact moves moved result

theorem Visiting.notStranger (visiting : Visiting target committed mark (name :: rest) directory)
    (outside : ¬ target.name <:+: name) : Visiting target committed mark rest directory := by
  refine visiting.mono fun stamp mem => (List.mem_cons.mp mem).resolve_left ?_
  rintro rfl
  exact outside (Directory.infix_reserved mark target stamp)

/-- The clean-up for the target deletes all its files of a kind. -/
theorem Visiting.cleanUpOwn (visiting : Visiting target committed mark files directory)
    (present : directory target.name ≠ none) (listed : ∀ name ∈ files, Listed target mark name) :
    Leaves target committed (cleanUpCalls (target.name ++ mark.mask) files)
      (Visiting target committed mark []) directory := by
  have ends : Leaves target committed (cleanUpCalls (target.name ++ mark.mask) files)
      (fun directory => Visiting target committed mark [] directory ∧ directory target.name ≠ none)
      directory := by
    refine Program.Keeps.forEach
      (fun left directory => Visiting target committed mark left directory ∧ directory target.name ≠ none)
      (fun _ held => held.1.recoverable) ?_ ⟨visiting, present⟩
    rintro name rest suffix directory ⟨visiting, present⟩
    rcases listed name (suffix.subset List.mem_cons_self) with ⟨stamp, rfl⟩ | ⟨outside, -⟩
    · rw [if_pos (append_mask_infix_reserved.mpr List.suffix_rfl)]
      have deleted := visiting.delete (visiting.loose present stamp)
      refine ⟨visiting.recoverable, fun _ _ => ⟨deleted.recoverable, deleted, ?_⟩⟩
      exact deleteFile_reserved.trans_ne present
    · have others := visiting.notStranger outside
      split
      · have deleted := others.deleteOther (Directory.about_outside outside)
        refine ⟨visiting.recoverable, fun _ _ => ⟨deleted.recoverable, deleted, ?_⟩⟩
        exact (deleteFile_outside outside).trans_ne present
      · exact ⟨others.recoverable, others, present⟩
  exact ends.mono fun _ held => held.1

/-- The clean-up for another file deletes files of the target only if it is found while the target is
there. -/
theorem Visiting.cleanUpOther {fname : Name} (visiting : Visiting target committed mark rest directory)
    (safe : directory target.name ≠ none ∨ ¬ fname <:+ target.name)
    (listed : ∀ name ∈ files, Listed target mark name) :
    Leaves target committed (cleanUpCalls (fname ++ mark.mask) files)
      (Visiting target committed mark rest) directory := by
  have ends : Leaves target committed (cleanUpCalls (fname ++ mark.mask) files)
      (fun directory => Visiting target committed mark rest directory ∧
        (directory target.name ≠ none ∨ ¬ fname <:+ target.name)) directory := by
    refine Program.Keeps.forEach (fun _ directory => Visiting target committed mark rest directory ∧
        (directory target.name ≠ none ∨ ¬ fname <:+ target.name))
      (fun _ held => held.1.recoverable) ?_ ⟨visiting, safe⟩
    rintro name left suffix directory ⟨visiting, safe⟩
    rcases listed name (suffix.subset List.mem_cons_self) with ⟨stamp, rfl⟩ | ⟨outside, -⟩
    · split
      · rename_i found
        have present := safe.resolve_right (not_not_intro (append_mask_infix_reserved.mp found))
        have more : Visiting target committed mark (reserved mark target stamp :: rest) directory :=
          visiting.mono fun _ mem => List.mem_cons_of_mem _ mem
        have deleted := more.delete (visiting.loose present stamp)
        refine ⟨visiting.recoverable, fun _ _ => ⟨deleted.recoverable, deleted, .inl ?_⟩⟩
        exact deleteFile_reserved.trans_ne present
      · exact ⟨visiting.recoverable, visiting, safe⟩
    · split
      · have deleted := visiting.deleteOther (Directory.about_outside outside)
        refine ⟨visiting.recoverable, fun _ _ => ⟨deleted.recoverable, deleted, safe.imp_left ?_⟩⟩
        exact fun present => (deleteFile_outside outside).trans_ne present
      · exact ⟨visiting.recoverable, visiting, safe⟩
  exact ends.mono fun _ held => held.1

/-- A visit to a file of another target. -/
theorem Visiting.visitOther {tmpName altName : Name}
    (visiting : Visiting target committed mark rest directory)
    (outside : ¬ target.name <:+: name) (listed : ∀ name ∈ files, Listed target mark name)
    (tmpAbsent : ∀ directory, Recoverable target committed directory →
      directory.about target tmpName = none)
    (altAbsent : ∀ directory, Recoverable target committed directory →
      directory.about target altName = none) :
    Leaves target committed (visitCalls mark files name tmpName altName)
      (Visiting target committed mark rest) directory := by
  have original : ¬ target.name <:+: originalName name := fun inside =>
    outside (inside.trans (originalName_begins name).isInfix)
  refine leaves_fileExists visiting.recoverable fun allowed found there => ?_
  cases found with
  | true =>
      refine visiting.cleanUpOther ?_ listed
      by_contra lost
      rw [not_or, not_not, not_not] at lost
      have missing := allowed lost.1 lost.2 fun same => original (by rw [same])
      rw [Directory.fileExists, missing] at there
      cases there
  | false =>
      refine leaves_fileExists visiting.recoverable fun _ alternative _ => ?_
      cases alternative with
      | true =>
          refine leaves_moveFile visiting.recoverable (fun next moved => ?_)
            fun _ => ⟨visiting.recoverable, visiting⟩
          have same := Directory.about_of_moveFile original (tmpAbsent directory visiting.recoverable) moved
          have kept := visiting.congr same
          have deleted := kept.deleteOther (altAbsent next kept.recoverable)
          exact leaves_deleteFile kept.recoverable ⟨deleted.recoverable, deleted⟩
      | false =>
          have deleted := visiting.deleteOther (Directory.about_outside outside)
          exact leaves_deleteFile visiting.recoverable ⟨deleted.recoverable, deleted⟩

/-- A visit to a file of the target while the target is there. -/
theorem Visiting.visitPresent {tmpName altName : Name}
    (visiting : Visiting target committed mark (reserved mark target stamp :: rest) directory)
    (present : directory target.name ≠ none)
    (suffix : reserved mark target stamp :: rest <:+ files)
    (listed : ∀ name ∈ files, Listed target mark name) :
    Leaves target committed (visitCalls mark files (reserved mark target stamp) tmpName altName)
      (Visiting target committed mark rest) directory := by
  refine leaves_fileExists visiting.recoverable fun _ found there => ?_
  rw [originalName_reserved, Directory.fileExists, Option.isSome_iff_ne_none.mpr present] at there
  subst there
  have all : Visiting target committed mark files directory := visiting.mono fun _ mem => suffix.subset mem
  rw [originalName_reserved]
  exact (all.cleanUpOwn present listed).mono fun _ cleaned =>
    cleaned.mono fun _ mem => absurd mem List.not_mem_nil

/-- The rename that restores the target. -/
theorem Visiting.restore
    (visiting : Visiting target committed .tmp (reserved .tmp target stamp :: rest) directory)
    (alt : directory.about target (reserved .alt target stamp) ≠ none)
    (moved : directory.moveFile (reserved .tmp target stamp) target.name = some next) :
    Visiting target committed .tmp rest next ∧ next.about target (reserved .tmp target stamp) = none := by
  have after := Directory.about_moveFile (Directory.infix_reserved .tmp target stamp) List.infix_rfl moved
  obtain ⟨-, entry, tmp, after⟩ := Directory.moveFile_eq_some after
  have both : Interrupted (directory.about target) target stamp := by
    refine ⟨?_, alt⟩
    rw [tmp]
    exact Option.some_ne_none _
  refine ⟨⟨?_, fun further present => ?_, fun isAlt => by cases isAlt⟩, ?_⟩
  · rw [Recoverable, after]
    exact Consistent.replace visiting.recoverable both tmp
  · rw [after, Function.update_of_ne (Ne.symm target_ne_reserved)] at present
    exact visiting.mem_of_kept present
  · rw [after, Function.update_of_ne (Ne.symm target_ne_reserved), Function.update_self]

/-- The alternative file is deleted when the target is restored. -/
theorem Visiting.deleteAlt (visiting : Visiting target committed .tmp rest directory)
    (noTmp : directory.about target (reserved .tmp target stamp) = none) :
    Visiting target committed .tmp rest (directory.deleteFile (reserved .alt target stamp)) := by
  have deleted : (directory.deleteFile (reserved .alt target stamp)).about target =
      Function.update (directory.about target) (reserved .alt target stamp) none :=
    visiting.recoverable.about_deleteFile
  refine ⟨?_, fun further kept => ?_, fun isAlt => by cases isAlt⟩
  · rw [Recoverable, deleted]
    exact Consistent.dropAlt visiting.recoverable noTmp
  · rw [deleted, Function.update_of_ne (by simp)] at kept
    exact visiting.pending further kept

/-- The rename fails only when the temporary file is gone. -/
theorem Visiting.gone
    (visiting : Visiting target committed .tmp (reserved .tmp target stamp :: rest) directory)
    (missing : directory target.name = none)
    (stuck : directory.moveFile (reserved .tmp target stamp) target.name = none) :
    Visiting target committed .tmp rest directory := by
  refine ⟨visiting.recoverable, fun further present => ?_, fun isAlt => by cases isAlt⟩
  refine (List.mem_cons.mp (visiting.pending further present)).resolve_left fun same => ?_
  rw [same] at present
  have fits := Consistent.short visiting.recoverable .tmp target stamp present
  rw [reserved_length] at fits
  rw [Directory.about_reserved] at present
  obtain ⟨entry, there⟩ := Option.ne_none_iff_exists'.mp present
  rw [Directory.moveFile, there] at stuck
  have possible : reserved .tmp target stamp ≠ [] ∧ target.name.length ≤ Directory.maxComponent ∧
      directory target.name = none := ⟨by simp [reserved], by omega, missing⟩
  simp only [if_pos possible, reduceCtorEq] at stuck

/-- A visit to a temporary file of the target while the target is missing. -/
theorem Visiting.visitMissing
    (visiting : Visiting target committed .tmp (reserved .tmp target stamp :: rest) directory)
    (missing : directory target.name = none) :
    Leaves target committed (recoverTmpCalls files (reserved .tmp target stamp))
      (Visiting target committed .tmp rest) directory := by
  refine leaves_fileExists visiting.recoverable fun _ found there => ?_
  rw [originalName_reserved, Directory.fileExists, missing] at there
  subst there
  refine leaves_fileExists visiting.recoverable fun _ found there => ?_
  rw [overwriteMark_reserved, Directory.fileExists] at there
  cases found with
  | false =>
      have noAlt : directory (reserved .alt target stamp) = none := by
        rwa [Option.isSome_eq_false_iff, Option.isNone_iff_eq_none] at there
      have deleted := visiting.delete fun both => both.2 (Directory.about_reserved .. |>.trans noAlt)
      exact leaves_deleteFile visiting.recoverable ⟨deleted.recoverable, deleted⟩
  | true =>
      have alt : directory.about target (reserved .alt target stamp) ≠ none := by
        rw [Directory.about_reserved]
        exact Option.isSome_iff_ne_none.mp there
      rw [originalName_reserved, overwriteMark_reserved]
      refine leaves_moveFile visiting.recoverable (fun next moved => ?_) fun stuck => ?_
      · obtain ⟨kept, noTmp⟩ := visiting.restore alt moved
        have deleted := kept.deleteAlt noTmp
        exact leaves_deleteFile kept.recoverable ⟨deleted.recoverable, deleted⟩
      · have gone := visiting.gone missing stuck
        exact ⟨gone.recoverable, gone⟩

/-! ## The whole recovery -/

/-- A visit to a temporary file. -/
theorem Visiting.visitTmp (visiting : Visiting target committed .tmp (name :: rest) directory)
    (suffix : name :: rest <:+ files) (listed : ∀ name ∈ files, Listed target .tmp name) :
    Leaves target committed (recoverTmpCalls files name)
      (Visiting target committed .tmp rest) directory := by
  rcases listed name (suffix.subset List.mem_cons_self) with ⟨stamp, rfl⟩ | ⟨outside, found⟩
  · by_cases present : directory target.name = none
    · exact visiting.visitMissing present
    · exact visiting.visitPresent present suffix listed
  · exact (visiting.notStranger outside).visitOther outside listed
      (fun _ _ => Directory.about_outside outside)
      (fun _ recoverable => recoverable.overwriteMark_absent outside found .alt)

/-- Behind the loop over the temporary files the target is there. -/
theorem Visiting.present (visiting : Visiting target committed .alt rest directory)
    (there : committed target.name ≠ none) : directory target.name ≠ none := by
  rcases Consistent.plain visiting.recoverable target with same | ⟨-, stamp, both⟩
  · rw [Directory.about_name, Directory.just, if_pos rfl] at same
    rwa [same]
  · exact absurd (visiting.noTmp rfl stamp) both.1

/-- A visit to an alternative file. -/
theorem Visiting.visitAlt (visiting : Visiting target committed .alt (name :: rest) directory)
    (there : committed target.name ≠ none) (suffix : name :: rest <:+ files)
    (listed : ∀ name ∈ files, Listed target .alt name) :
    Leaves target committed (recoverAltCalls files name)
      (Visiting target committed .alt rest) directory := by
  rcases listed name (suffix.subset List.mem_cons_self) with ⟨stamp, rfl⟩ | ⟨outside, found⟩
  · exact visiting.visitPresent (visiting.present there) suffix listed
  · exact (visiting.notStranger outside).visitOther outside listed
      (fun _ recoverable => recoverable.overwriteMark_absent outside found .tmp)
      (fun _ _ => Directory.about_outside outside)

/-- When all visits are made, the target is the only file with its name in it, and it has the committed
content. -/
theorem Visiting.recovered (visiting : Visiting target committed .alt [] directory) :
    directory.about target = committed.just target := by
  have loose : ∀ stamp, ¬ Interrupted (directory.about target) target stamp := fun stamp both =>
    both.1 (visiting.noTmp rfl stamp)
  funext name
  by_cases own : name = target.name
  · subst own
    exact (Consistent.plain visiting.recoverable target).resolve_right
      fun ⟨_, stamp, both⟩ => loose stamp both
  · have absent : committed.just target name = none := if_neg own
    rw [absent]
    by_contra present
    rcases Consistent.names visiting.recoverable name present with clean | ⟨mark, other, stamp, rfl⟩
    · rcases Consistent.plain visiting.recoverable ⟨name, clean⟩ with same | ⟨missing, -⟩
      · exact present (same.trans absent)
      · exact present missing
    · obtain rfl := Consistent.target_of_reserved visiting.recoverable present
      cases mark with
      | tmp => exact present (visiting.noTmp rfl stamp)
      | alt => cases visiting.pending stamp present

/-- The recovery can be interrupted anywhere, and when it comes to its end, the target is recovered. -/
theorem Recoverable.leaves (recoverable : Recoverable target committed directory)
    (there : committed target.name ≠ none) :
    Leaves target committed recoveryCalls (fun directory => directory.about target = committed.just target)
      directory := by
  refine ⟨recoverable, fun order (complete : directory.ListedBy order) => Program.Keeps.andThen ?_⟩
  have begins : Visiting target committed .tmp (directory.listFiles order Mark.tmp.mask) directory :=
    ⟨recoverable, fun stamp present => recoverable.mem_listFiles complete present,
      fun isAlt => by cases isAlt⟩
  refine (Program.Keeps.forEach (Visiting target committed .tmp) (fun _ held => held.recoverable)
    (fun name rest suffix directory visiting => ?_) begins).mono fun later visited => ?_
  · exact visiting.visitTmp suffix fun name mem => recoverable.listed complete mem
  · refine ⟨visited.recoverable, fun order (complete : later.ListedBy order) => ?_⟩
    have begins : Visiting target committed .alt (later.listFiles order Mark.alt.mask) later := by
      refine ⟨visited.recoverable, fun stamp present => visited.recoverable.mem_listFiles complete present,
        fun _ stamp => ?_⟩
      by_contra present
      cases visited.pending stamp present
    refine (Program.Keeps.forEach (Visiting target committed .alt) (fun _ held => held.recoverable)
      (fun name rest suffix directory visiting => ?_) begins).mono fun _ visited => visited.recovered
    exact visiting.visitAlt there suffix fun name mem => visited.recoverable.listed complete mem

end Visits

/-! ## Runs with interruptions -/

/-- A directory with a process that is in a transaction, in a recovery or in neither of them. -/
structure Site where
  volume : Volume Unit
  recovery : Option FileProgram

/-- The next system call of the transaction or of the recovery, or the end of the process at whatever
it is doing. -/
inductive SiteLabel where
  | transact (label : VolumeLabel Unit)
  | halt
  | recover
  | call (order : List Name)

namespace Site

def start (directory : Directory) : Site := ⟨Volume.start Unit directory, none⟩

def step (site : Site) : SiteLabel → Option Site
  | .transact label =>
      match site.recovery with
      | none => (Volume.machine.step site.volume label).map fun volume => { site with volume }
      | some _ => none
  | .halt => some ⟨site.volume.goto () .idle, none⟩
  | .recover =>
      match site.recovery, site.volume.stages () with
      | none, .idle => some { site with recovery := some recoveryCalls }
      | _, _ => none
  | .call order =>
      match site.recovery with
      | some (.call request next) =>
          let served := request.serve order site.volume.directory
          some ⟨{ site.volume with directory := served.2 }, some (next served.1)⟩
      | _ => none

def machine : Machine Site SiteLabel where
  step := step

/-- The transactions are on the target and write what they have got to write, and each listing shows
the whole directory. -/
def OnFile (target : Target) (site : Site) : SiteLabel → Prop
  | .transact label => Volume.OnTarget target label
  | .call order =>
      match site.recovery with
      | some (.call (.listFiles _) _) => site.volume.directory.ListedBy order
      | _ => True
  | .halt | .recover => True

/-- No transaction begins whose alternative file is already there, and while the target is missing,
the recovery finds no file whose name is the end of the target's. -/
def Undisturbed (target : Target) (site : Site) : SiteLabel → Prop
  | .transact label => Volume.FreshStamp site.volume label
  | .call _ =>
      match site.recovery with
      | some (.call (.fileExists name) _) => site.volume.directory target.name = none →
          name <:+ target.name → name ≠ target.name → site.volume.directory name = none
      | _ => True
  | .halt | .recover => True

/-- The invariant of all runs. -/
structure Sound (target : Target) (initial : List UInt8) (site : Site) : Prop where
  volume : Volume.Invariant (site.volume.about target)
  outcome : site.volume.committed target.name =
    some (.file (Volume.outcome initial site.volume.history))
  recovery : ∀ program, site.recovery = some program → site.volume.stages () = .idle ∧
    Leaves target site.volume.committed program
      (fun directory => directory.about target = site.volume.committed.just target) site.volume.directory

section Runs

variable {target : Target} {initial : List UInt8} {site next : Site} {label : SiteLabel}

theorem Sound.there (sound : Sound target initial site) : site.volume.committed target.name ≠ none := by
  rw [sound.outcome]
  exact Option.some_ne_none _

theorem Sound.call (sound : Sound target initial site) {request : FileCall}
    {program : request.Answer → FileProgram} {order : List Name}
    (running : site.recovery = some (.call request program))
    (allowed : Allowed target order site.volume.directory request) :
    Sound target initial ⟨{ site.volume with
      directory := (request.serve order site.volume.directory).2 },
      some (program (request.serve order site.volume.directory).1)⟩ := by
  obtain ⟨idle, leaves⟩ := sound.recovery _ running
  have goes := leaves.2 order allowed
  refine ⟨Volume.Invariant.idle idle goes.crash, sound.outcome, fun later same => ⟨idle, ?_⟩⟩
  obtain rfl := Option.some.inj same
  exact goes

theorem Sound.step (sound : Sound target initial site) (onFile : OnFile target site label)
    (undisturbed : Undisturbed target site label) (stepped : machine.step site label = some next) :
    Sound target initial next := by
  cases label with
  | transact label =>
      simp only [machine, Site.step] at stepped
      split at stepped
      · rename_i idle
        obtain ⟨volume, moved, rfl⟩ := Option.map_eq_some_iff.mp stepped
        have moves := Volume.moves_of_step moved
        refine ⟨moves.invariant_about sound.volume undisturbed onFile,
          moves.outcome sound.volume onFile sound.outcome, fun program running => ?_⟩
        cases idle.symm.trans running
      · cases stepped
  | halt =>
      cases stepped
      have quiet : Volume.Stage.isQuiet .idle = true := rfl
      have retired : Volume.Invariant ((site.volume.about target).goto () .idle) :=
        sound.volume.retire quiet
      exact ⟨retired, sound.outcome, fun _ running => by cases running⟩
  | recover =>
      simp only [machine, Site.step] at stepped
      split at stepped
      · rename_i idle
        cases stepped
        refine ⟨sound.volume, sound.outcome, fun program running => ⟨idle, ?_⟩⟩
        obtain rfl := Option.some.inj running
        exact Recoverable.leaves sound.volume.consistent sound.there
      · cases stepped
  | call order =>
      simp only [machine, Site.step] at stepped
      split at stepped
      · rename_i request program running
        cases stepped
        refine sound.call running ?_
        simp only [OnFile, Undisturbed, running] at onFile undisturbed
        cases request with
        | listFiles mask => exact onFile
        | fileExists name => exact undisturbed
        | deleteFile name => trivial
        | moveFile source target => trivial
      · cases stepped

theorem start_sound {directory : Directory} (file : directory target.name = some (.file initial))
    (alone : ∀ name, directory name ≠ none → target.name <:+: name → name = target.name) :
    Sound target initial (start directory) := by
  have same : directory.about target = directory.just target := by
    funext name
    by_cases own : name = target.name
    · rw [own, Directory.about_name, Directory.just, if_pos rfl]
    · rw [Directory.just, if_neg own, Directory.about]
      split
      · rename_i inside
        by_contra present
        exact own (alone name present inside)
      · rfl
  have clean : ∀ name, directory.just target name ≠ none → Clean name := by
    intro name present
    unfold Directory.just at present
    split at present
    · rename_i own
      exact own ▸ target.clean
    · exact absurd rfl present
  refine ⟨Volume.Invariant.idle rfl ?_, file, fun _ running => by cases running⟩
  change Consistent (directory.about target) (directory.just target)
  rw [same]
  exact .refl clean

end Runs

end Site

/-- After any undisturbed transactions and recoveries on one file, however they were interrupted, a
recovery that comes to its end leaves the file with the content from before the last transaction or with
the one that this has written, and leaves no other file whose name contains its name. -/
theorem fileRecoverFailedIO_restartable {target : Target} {directory : Directory} {initial : List UInt8}
    {labels : List SiteLabel} {site : Site} (file : directory target.name = some (.file initial))
    (alone : ∀ name, directory name ≠ none → target.name <:+: name → name = target.name)
    (reached : Site.machine.run (Site.start directory) labels = some site)
    (steps : Site.machine.AllSteps
      (fun site label => site.OnFile target label ∧ site.Undisturbed target label)
      (Site.start directory) labels)
    (ended : site.recovery = some .done) :
    site.volume.directory target.name = some (.file (Volume.outcome initial site.volume.history)) ∧
      ∀ name, site.volume.directory name ≠ none → target.name <:+: name → name = target.name := by
  have sound := Machine.run_invariant
    (fun _ _ _ sound conditions stepped => Site.Sound.step sound conditions.1 conditions.2 stepped)
    (Site.start_sound file alone) steps reached
  obtain ⟨-, -, recovered⟩ := sound.recovery _ ended
  constructor
  · have shown : site.volume.directory target.name = site.volume.committed.just target target.name := by
      rw [← recovered, Directory.about_name]
    exact (shown.trans (if_pos rfl)).trans sound.outcome
  · intro name present inside
    have shown : site.volume.directory name = site.volume.committed.just target name := by
      rw [← recovered, Directory.about_inside inside]
    by_contra different
    exact present (shown.trans (if_neg different))

namespace Site

/-- A transaction that is interrupted behind some of its last system calls. -/
def transaction (fname : Name) (number : Int) (content : List UInt8) (calls : Nat) : List SiteLabel :=
  [.transact (.tfopen () fname number number true), .transact (.fopen () ['r', '+'] true),
    .transact (.write () content content), .transact (.tfclose () true)] ++
      List.replicate calls (.transact (.go () true)) ++ [.halt]

/-- A recovery with some calls. -/
def recovering (order : List Name) (calls : Nat) : List SiteLabel :=
  .recover :: List.replicate calls (.call order)

def targetA : Target := ⟨['a'], by decide⟩

def fileA : List (Name × Option Entry) := [(['a'], some (.file [1]))]

def namesA : List Name := [['a'], Volume.altOf ['a'] 1, Volume.tmpOf ['a'] 1]

/-- The directory behind the first rename of a transaction that has written to the file. -/
def partedA : List (Name × Option Entry) :=
  fileA ++ [(Volume.tmpOf ['a'] 1, some (.file [1])), (Volume.tmpOf ['a'] 1, some (.file [9])),
    (Volume.tmpOf ['a'] 1, some (.file [9])), (['a'], none), (Volume.altOf ['a'] 1, some (.file [1]))]

/-- The directory behind the rename of a recovery. -/
def restoredA : List (Name × Option Entry) :=
  partedA ++ [(Volume.tmpOf ['a'] 1, none), (['a'], some (.file [9]))]

/-- A transaction is interrupted between its renames, and the recovery before it deletes the
alternative file. -/
def twiceInterrupted : List SiteLabel :=
  transaction ['a'] 1 [9] 1 ++ recovering namesA 4 ++ .halt :: recovering namesA 4

end Site

open Site in
theorem twiceInterrupted_recovered : ∃ site,
    Site.machine.run (Site.start (Volume.ofEntries fileA)) twiceInterrupted = some site ∧
      site.volume.directory ['a'] = some (.file [9]) ∧
      ∀ name, site.volume.directory name ≠ none → ['a'] <:+: name → name = ['a'] := by
  have parted : (Volume.ofEntries partedA).ListedBy namesA :=
    Volume.ofEntries_listedBy (by decide) (by decide)
  have restored : (Volume.ofEntries restoredA).ListedBy namesA :=
    Volume.ofEntries_listedBy (by decide) (by decide)
  have alone : ∀ name, Volume.ofEntries fileA name ≠ none → targetA.name <:+: name → name = targetA.name :=
    fun name present _ => List.mem_singleton.mp (Volume.mem_of_ofEntries present)
  have steps : Site.machine.AllSteps (fun site label => site.OnFile targetA label ∧
      site.Undisturbed targetA label) (Site.start (Volume.ofEntries fileA)) twiceInterrupted := by
    refine .cons ⟨rfl, rfl⟩ rfl (.cons ⟨trivial, trivial⟩ rfl (.cons ⟨trivial, trivial⟩ rfl ?_))
    refine .cons ⟨rfl, trivial⟩ rfl (.cons ⟨trivial, trivial⟩ rfl (.cons ⟨trivial, trivial⟩ rfl ?_))
    refine .cons ⟨trivial, trivial⟩ rfl (.cons ⟨parted, trivial⟩ rfl ?_)
    refine .cons ⟨trivial, fun _ _ different => absurd rfl different⟩ rfl ?_
    refine .cons ⟨trivial, fun _ suffix _ => absurd suffix (by decide)⟩ rfl ?_
    refine .cons ⟨trivial, trivial⟩ rfl (.cons ⟨trivial, trivial⟩ rfl (.cons ⟨trivial, trivial⟩ rfl ?_))
    refine .cons ⟨restored, trivial⟩ rfl (.cons ⟨restored, trivial⟩ rfl ?_)
    exact .cons ⟨trivial, fun _ _ different => absurd rfl different⟩ rfl
      (.cons ⟨trivial, trivial⟩ rfl trivial)
  have ends := fileRecoverFailedIO_restartable rfl alone rfl steps rfl
  exact ⟨_, rfl, ends.1, ends.2⟩

namespace Site

def targetBA : Target := ⟨['b', 'a'], by decide⟩

/-- Another file has a name that is the end of the target's, and a temporary file. -/
def filesBA : List (Name × Option Entry) :=
  [(['a'], some (.file [5])), (Volume.tmpOf ['a'] 1, some (.file [6])), (['b', 'a'], some (.file [1]))]

def namesBA : List Name :=
  [['a'], Volume.tmpOf ['a'] 1, ['b', 'a'], Volume.altOf ['b', 'a'] 2, Volume.tmpOf ['b', 'a'] 2]

def partedBA : List (Name × Option Entry) :=
  filesBA ++ [(Volume.tmpOf ['b', 'a'] 2, some (.file [1])), (Volume.tmpOf ['b', 'a'] 2, some (.file [9])),
    (Volume.tmpOf ['b', 'a'] 2, some (.file [9])), (['b', 'a'], none),
    (Volume.altOf ['b', 'a'] 2, some (.file [1]))]

/-- The transaction is interrupted between its renames, and the recovery is not interrupted. -/
def interruptedBA : List SiteLabel := transaction ['b', 'a'] 2 [9] 1 ++ recovering namesBA 11

end Site

open Site in
/-- The clean-up for the other file deletes the temporary file that the target is to be restored from. -/
theorem interruptedBA_lost : ∃ site,
    Site.machine.run (Site.start (Volume.ofEntries filesBA)) interruptedBA = some site ∧
      Site.machine.AllSteps (Site.OnFile targetBA) (Site.start (Volume.ofEntries filesBA)) interruptedBA ∧
      (∀ name, Volume.ofEntries filesBA name ≠ none → targetBA.name <:+: name → name = targetBA.name) ∧
      site.recovery = some .done ∧ site.volume.directory targetBA.name = none ∧
      site.volume.directory (Volume.altOf ['b', 'a'] 2) ≠ none := by
  have parted : (Volume.ofEntries partedBA).ListedBy namesBA :=
    Volume.ofEntries_listedBy (by decide) (by decide)
  have cleaned : (Volume.ofEntries (partedBA ++ [(Volume.tmpOf ['a'] 1, none),
      (Volume.tmpOf ['b', 'a'] 2, none)])).ListedBy namesBA :=
    Volume.ofEntries_listedBy (by decide) (by decide)
  have alone : ∀ name, Volume.ofEntries filesBA name ≠ none →
      targetBA.name <:+: name → name = targetBA.name := by
    intro name present inside
    have only : ∀ name ∈ filesBA.map Prod.fst, targetBA.name <:+: name → name = targetBA.name := by decide
    exact only name (Volume.mem_of_ofEntries present) inside
  refine ⟨_, rfl, ?_, alone, rfl, rfl, by decide⟩
  refine .cons rfl rfl (.cons trivial rfl (.cons trivial rfl (.cons rfl rfl (.cons trivial rfl ?_))))
  refine .cons trivial rfl (.cons trivial rfl (.cons parted rfl ?_))
  refine .cons trivial rfl (.cons trivial rfl (.cons trivial rfl ?_))
  refine .cons trivial rfl (.cons trivial rfl (.cons trivial rfl (.cons cleaned rfl ?_)))
  exact .cons trivial rfl (.cons trivial rfl (.cons trivial rfl trivial))

namespace Site

def namesTwice : List Name :=
  [['a'], Volume.tmpOf ['a'] 1, Volume.altOf ['a'] 1, Volume.tmpOf ['a'] 2, Volume.altOf ['a'] 2]

/-- The first transaction is interrupted before it deletes its alternative file, the second one has the
same stamp, and the third one is interrupted between its renames. -/
def sameStamp : List SiteLabel :=
  transaction ['a'] 1 [2] 2 ++ transaction ['a'] 1 [3] 1 ++ transaction ['a'] 2 [4] 1 ++
    recovering namesTwice 11

end Site

open Site in
/-- The file gets the content of the second transaction, which was never committed. -/
theorem sameStamp_overwritten : ∃ site,
    Site.machine.run (Site.start (Volume.ofEntries fileA)) sameStamp = some site ∧
      site.volume.history.take 2 = [.committed () ['a'] [4], .opened () ['a'] [2]] ∧
      site.recovery = some .done ∧ site.volume.directory ['a'] = some (.file [3]) :=
  ⟨_, rfl, rfl, rfl, rfl⟩

end Tegenaria.LibFile
