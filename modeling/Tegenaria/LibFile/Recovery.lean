import Tegenaria.LibFile.TFile

/-!
# Recovery of interrupted transactions

`FileRecoverFailedIO` first goes through the temporary files of the directory and
then through the alternative ones.  Temporary files of a file that exists are
deleted; when the file is missing, it is restored from the temporary file whose
alternative file is there.

Which files belong to a target is decided by a search for its name and the mark
anywhere in the listed names, so the temporary files of a longer target name that
ends with this one are deleted too.  When such a file is the only one that its
target can be restored from, the target is lost.
-/

namespace Tegenaria.LibFile

open Foundation

/-- Delete all listed files that the mask is found in. -/
def cleanUp (mask : List Char) (files : List Name) (directory : Directory) : Directory :=
  files.foldl (fun directory name =>
    if mask <:+: name then directory.deleteFile name else directory) directory

/-- Restore the original from its temporary file. -/
def recoverOriginal (fname tmpName altName : Name) (directory : Directory) : Directory :=
  match directory.moveFile tmpName fname with
  | some moved => moved.deleteFile altName
  | none => directory

/-- The body of the loop over the temporary files. -/
def recoverTmp (tmpFiles : List Name) (directory : Directory) (tmpName : Name) : Directory :=
  let altName := overwriteMark .alt tmpName
  let fname := originalName tmpName
  if directory.fileExists fname then
    cleanUp (fname ++ Mark.tmp.mask) tmpFiles directory
  else if directory.fileExists altName then
    recoverOriginal fname tmpName altName directory
  else
    directory.deleteFile tmpName

/-- The body of the loop over the alternative files.  The second test is made on
the alternative file itself. -/
def recoverAlt (altFiles : List Name) (directory : Directory) (altName : Name) : Directory :=
  let tmpName := overwriteMark .tmp altName
  let fname := originalName altName
  if directory.fileExists fname then
    cleanUp (fname ++ Mark.alt.mask) altFiles directory
  else if directory.fileExists altName then
    recoverOriginal fname tmpName altName directory
  else
    directory.deleteFile altName

def recoverTmpFiles (tmpOrder : List Name) (directory : Directory) : Directory :=
  let tmpFiles := Directory.listFiles tmpOrder directory Mark.tmp.mask
  tmpFiles.foldl (recoverTmp tmpFiles) directory

def recoverAltFiles (altOrder : List Name) (directory : Directory) : Directory :=
  let altFiles := Directory.listFiles altOrder directory Mark.alt.mask
  altFiles.foldl (recoverAlt altFiles) directory

/-- `FileRecoverFailedIO` on the current directory.  The two orders are those in
which the file system lists the directory. -/
def fileRecoverFailedIO (tmpOrder altOrder : List Name) (directory : Directory) : Directory :=
  recoverAltFiles altOrder (recoverTmpFiles tmpOrder directory)

/-! ## The inner loop -/

theorem deleteFile_apply (directory : Directory) (name other : Name) :
    directory.deleteFile name other =
      if other = name ∧ directory.isFile other = true then none else directory other := by
  unfold Directory.deleteFile
  by_cases file : directory.isFile name = true
  · rw [if_pos file, Function.update_apply]
    grind
  · rw [if_neg file]
    grind

theorem isFile_deleteFile (directory : Directory) (name other : Name) :
    (directory.deleteFile name).isFile other = true ↔
      directory.isFile other = true ∧ other ≠ name := by
  rw [Directory.isFile_iff, deleteFile_apply]
  constructor
  · rintro ⟨content, file⟩
    split at file
    case isTrue => cases file
    case isFalse kept =>
      have isFile : directory.isFile other = true := Directory.isFile_iff.mpr ⟨content, file⟩
      exact ⟨isFile, fun same => kept ⟨same, isFile⟩⟩
  · rintro ⟨isFile, different⟩
    rw [if_neg fun both => different both.1]
    exact Directory.isFile_iff.mp isFile

/-- The inner loop deletes the listed files with the mask and nothing else. -/
theorem cleanUp_apply (mask : List Char) (files : List Name) (directory : Directory)
    (name : Name) :
    cleanUp mask files directory name =
      if mask <:+: name ∧ name ∈ files ∧ directory.isFile name = true then none
      else directory name := by
  induction files generalizing directory with
  | nil => simp [cleanUp]
  | cons first rest ih =>
      rw [cleanUp, List.foldl_cons]
      change cleanUp mask rest _ name = _
      rw [ih]
      by_cases found : mask <:+: first
      · simp only [if_pos found, isFile_deleteFile, deleteFile_apply]
        grind
      · rw [if_neg found]
        grind

theorem cleanUp_cases (mask : List Char) (files : List Name) (directory : Directory)
    (name : Name) :
    cleanUp mask files directory name = directory name ∨
      cleanUp mask files directory name = none ∧ mask <:+: name ∧ name ∈ files ∧
        directory name ≠ none := by
  rw [cleanUp_apply]
  split
  case isTrue deleted =>
    obtain ⟨found, mem, file⟩ := deleted
    obtain ⟨content, there⟩ := Directory.isFile_iff.mp file
    refine .inr ⟨rfl, found, mem, ?_⟩
    rw [there]
    exact Option.some_ne_none _
  case isFalse => exact .inl rfl

section CleanUp

variable {directory committed : Directory} {mask : List Char} {files : List Name}

/-- Only files of transactions that are not interrupted are deleted. -/
def Spares (mask : List Char) (files : List Name) (directory : Directory) : Prop :=
  ∀ name ∈ files, mask <:+: name → directory name ≠ none →
    ∃ mark target stamp, name = reserved mark target stamp ∧
      ¬Interrupted directory target stamp

theorem Spares.interrupted (spares : Spares mask files directory) (target : Target)
    (stamp : Stamp) :
    Interrupted (cleanUp mask files directory) target stamp ↔
      Interrupted directory target stamp := by
  constructor
  · rintro ⟨tmp, alt⟩
    constructor
    · rcases cleanUp_cases mask files directory (reserved .tmp target stamp) with same | gone
      · rwa [same] at tmp
      · exact absurd gone.1 tmp
    · rcases cleanUp_cases mask files directory (reserved .alt target stamp) with same | gone
      · rwa [same] at alt
      · exact absurd gone.1 alt
  · intro both
    have kept : ∀ mark, cleanUp mask files directory (reserved mark target stamp) =
        directory (reserved mark target stamp) := by
      intro mark
      rcases cleanUp_cases mask files directory (reserved mark target stamp) with
        same | ⟨_, found, mem, present⟩
      · exact same
      · obtain ⟨_, _, _, equal, free⟩ := spares _ mem found present
        obtain ⟨_, rfl, rfl⟩ := reserved_inj.mp equal
        exact absurd both free
    rw [Interrupted, kept, kept]
    exact both

theorem Consistent.cleanUp (consistent : Consistent directory committed)
    (spares : Spares mask files directory) :
    Consistent (cleanUp mask files directory) committed := by
  have kept : ∀ name, LibFile.cleanUp mask files directory name ≠ none →
      LibFile.cleanUp mask files directory name = directory name := by
    intro name present
    rcases cleanUp_cases mask files directory name with same | gone
    · exact same
    · exact absurd gone.1 present
  refine consistent.of_same_interrupted ?_ spares.interrupted ?_ ?_ ?_ ?_
  · intro target
    rcases cleanUp_cases mask files directory target.name with same | ⟨_, found, mem, present⟩
    · exact same
    · obtain ⟨_, _, _, equal, _⟩ := spares _ mem found present
      exact absurd equal target_ne_reserved
  · intro target stamp both
    exact kept _ ((spares.interrupted target stamp).mpr both).1
  · intro mark target stamp present
    rw [kept _ present]
    rw [kept _ present] at present
    exact consistent.known mark target stamp present
  · intro mark target stamp present
    rw [kept _ present] at present
    exact consistent.short mark target stamp present
  · intro name present
    rw [kept _ present] at present
    exact consistent.names name present

end CleanUp

/-! ## The loop over the temporary files -/

/-- The temporary file belongs to an interrupted transaction. -/
def interruptedAt (directory : Directory) (tmpName : Name) : Prop :=
  directory tmpName ≠ none ∧ directory (overwriteMark .alt tmpName) ≠ none

/-- The clean-up of the target of the earlier file also deletes the later file,
which its own target needs. -/
def Shadows (directory : Directory) (earlier later : Name) : Prop :=
  ¬interruptedAt directory earlier ∧ interruptedAt directory later ∧
    originalName earlier <:+ originalName later ∧ originalName earlier ≠ originalName later

/-- What holds while the temporary files in `rest` are still to be visited. -/
structure Progress (start committed directory : Directory) (rest : List Name) : Prop where
  consistent : Consistent directory committed
  pending : ∀ target stamp, directory (reserved .tmp target stamp) ≠ none →
    reserved .tmp target stamp ∈ rest
  interrupted : ∀ target stamp, Interrupted directory target stamp ↔
    Interrupted start target stamp ∧ reserved .tmp target stamp ∈ rest

theorem interruptedAt_reserved (directory : Directory) (target : Target) (stamp : Stamp) :
    interruptedAt directory (reserved .tmp target stamp) ↔ Interrupted directory target stamp := by
  rw [interruptedAt, overwriteMark_reserved, Interrupted]

section Loop

variable {start committed directory next : Directory} {tmpFiles rest : List Name}
  {target : Target} {stamp : Stamp}

/-- A visit deals with its own file and leaves the other interrupted transactions
alone. -/
theorem Progress.visit
    (progress : Progress start committed directory (reserved .tmp target stamp :: rest))
    (once : reserved .tmp target stamp ∉ rest) (consistent : Consistent next committed)
    (gone : next (reserved .tmp target stamp) = none)
    (fewer : ∀ other otherStamp, next (reserved .tmp other otherStamp) ≠ none →
      directory (reserved .tmp other otherStamp) ≠ none)
    (same : ∀ other otherStamp, ¬(other = target ∧ otherStamp = stamp) →
      (Interrupted next other otherStamp ↔ Interrupted directory other otherStamp)) :
    Progress start committed next rest where
  consistent := consistent
  pending := by
    intro other otherStamp present
    have listed := progress.pending other otherStamp (fewer other otherStamp present)
    rcases List.mem_cons.mp listed with equal | mem
    · rw [equal] at present
      exact absurd gone present
    · exact mem
  interrupted := by
    intro other otherStamp
    by_cases own : other = target ∧ otherStamp = stamp
    · obtain ⟨rfl, rfl⟩ := own
      constructor
      · intro both
        exact absurd gone both.1
      · intro both
        exact absurd both.2 once
    · rw [same other otherStamp own, progress.interrupted, List.mem_cons, reserved_inj]
      simp only [true_and, own, false_or]

/-- The original exists: its temporary files are deleted. -/
theorem Progress.cleanUp
    (progress : Progress start committed directory (reserved .tmp target stamp :: rest))
    (once : reserved .tmp target stamp ∉ rest)
    (tmps : ∀ name ∈ tmpFiles, ∃ target stamp, name = reserved .tmp target stamp)
    (listed : reserved .tmp target stamp ∈ tmpFiles)
    (unshadowed : ∀ later ∈ rest, ¬Shadows start (reserved .tmp target stamp) later)
    (there : directory target.name ≠ none) :
    Progress start committed (cleanUp (target.name ++ Mark.tmp.mask) tmpFiles directory) rest := by
  have own : ∀ otherStamp, ¬Interrupted directory target otherStamp := fun otherStamp both =>
    there (progress.consistent.interrupted target otherStamp both).1
  have spares : Spares (target.name ++ Mark.tmp.mask) tmpFiles directory := by
    intro name mem found _
    obtain ⟨other, otherStamp, rfl⟩ := tmps name mem
    refine ⟨.tmp, other, otherStamp, rfl, fun both => ?_⟩
    obtain ⟨started, waits⟩ := (progress.interrupted other otherStamp).mp both
    have different : target ≠ other := by
      rintro rfl
      exact own otherStamp both
    have later : reserved .tmp other otherStamp ∈ rest := by
      rcases List.mem_cons.mp waits with equal | mem
      · exact absurd (reserved_inj.mp equal).2.1.symm different
      · exact mem
    refine unshadowed _ later ⟨?_, ?_, ?_, ?_⟩
    · rw [interruptedAt_reserved]
      intro begun
      exact own stamp ((progress.interrupted target stamp).mpr ⟨begun, List.mem_cons_self⟩)
    · rw [interruptedAt_reserved]
      exact started
    · rw [originalName_reserved, originalName_reserved]
      exact append_mask_infix_reserved.mp found
    · rw [originalName_reserved, originalName_reserved]
      exact fun same => different (Target.ext same)
  refine progress.visit once (progress.consistent.cleanUp spares) ?_ ?_
    (fun other otherStamp _ => spares.interrupted other otherStamp)
  · rw [cleanUp_apply]
    split
    case isTrue => rfl
    case isFalse kept =>
      by_contra present
      refine kept ⟨append_mask_infix_reserved.mpr List.suffix_rfl, listed, ?_⟩
      exact Directory.isFile_iff.mpr (progress.consistent.known .tmp target stamp present).1
  · intro other otherStamp present
    rcases cleanUp_cases (target.name ++ Mark.tmp.mask) tmpFiles directory
      (reserved .tmp other otherStamp) with same | gone
    · rwa [same] at present
    · exact absurd gone.1 present

/-- The original and the alternative file are missing: the temporary file is
deleted. -/
theorem Progress.delete
    (progress : Progress start committed directory (reserved .tmp target stamp :: rest))
    (once : reserved .tmp target stamp ∉ rest)
    (noAlt : directory (reserved .alt target stamp) = none) :
    Progress start committed (directory.deleteFile (reserved .tmp target stamp)) rest := by
  have deleted : directory.deleteFile (reserved .tmp target stamp) =
      Function.update directory (reserved .tmp target stamp) none := by
    by_cases absent : directory (reserved .tmp target stamp) = none
    · rw [Directory.deleteFile_absent absent, ← absent, Function.update_eq_self]
    · obtain ⟨⟨content, file⟩, _⟩ := progress.consistent.known .tmp target stamp absent
      exact Directory.deleteFile_file file
  rw [deleted]
  refine progress.visit once (progress.consistent.dropTmp noAlt) (Function.update_self ..) ?_ ?_
  · grind [Function.update_apply]
  · grind [Interrupted, Function.update_apply]

/-- The original is missing and the alternative file is there: the original is
restored. -/
theorem Progress.recoverOriginal
    (progress : Progress start committed directory (reserved .tmp target stamp :: rest))
    (once : reserved .tmp target stamp ∉ rest) (missing : directory target.name = none)
    (alt : directory (reserved .alt target stamp) ≠ none) :
    Progress start committed (recoverOriginal target.name (reserved .tmp target stamp)
      (reserved .alt target stamp) directory) rest := by
  cases there : directory (reserved .tmp target stamp) with
  | none =>
      have failed : directory.moveFile (reserved .tmp target stamp) target.name = none := by
        rw [Directory.moveFile, there]
      rw [LibFile.recoverOriginal, failed]
      exact progress.visit once progress.consistent there (fun _ _ present => present)
        (fun _ _ _ => Iff.rfl)
  | some entry =>
      have both : Interrupted directory target stamp := ⟨by rw [there]; exact Option.some_ne_none _, alt⟩
      have fits := progress.consistent.short .tmp target stamp both.1
      rw [reserved_length] at fits
      have moved : directory.moveFile (reserved .tmp target stamp) target.name =
          some (Function.update (Function.update directory (reserved .tmp target stamp) none)
            target.name (some entry)) := by
        rw [Directory.moveFile, there]
        refine if_pos ⟨?_, by omega, missing⟩
        simp [reserved]
      obtain ⟨⟨content, file⟩, _⟩ := progress.consistent.known .alt target stamp alt
      have altFile : Function.update (Function.update directory (reserved .tmp target stamp) none)
          target.name (some entry) (reserved .alt target stamp) = some (.file content) := by
        rw [Function.update_of_ne (Ne.symm target_ne_reserved), Function.update_of_ne (by simp), file]
      rw [LibFile.recoverOriginal, moved]
      change Progress _ _ (Directory.deleteFile _ _) _
      rw [Directory.deleteFile_file altFile]
      refine progress.visit once ((progress.consistent.replace both there).dropAlt ?_) ?_ ?_ ?_
      · rw [Function.update_of_ne (Ne.symm target_ne_reserved), Function.update_self]
      · rw [Function.update_of_ne (by simp), Function.update_of_ne (Ne.symm target_ne_reserved),
          Function.update_self]
      · grind [Function.update_apply]
      · grind [Interrupted, Function.update_apply]

theorem Progress.step
    (progress : Progress start committed directory (reserved .tmp target stamp :: rest))
    (once : reserved .tmp target stamp ∉ rest)
    (tmps : ∀ name ∈ tmpFiles, ∃ target stamp, name = reserved .tmp target stamp)
    (listed : reserved .tmp target stamp ∈ tmpFiles)
    (unshadowed : ∀ later ∈ rest, ¬Shadows start (reserved .tmp target stamp) later) :
    Progress start committed (recoverTmp tmpFiles directory (reserved .tmp target stamp))
      rest := by
  simp only [recoverTmp, originalName_reserved, overwriteMark_reserved, Directory.fileExists,
    Option.isSome_iff_ne_none]
  split
  case isTrue there => exact progress.cleanUp once tmps listed unshadowed there
  case isFalse missing =>
    rw [not_not] at missing
    split
    case isTrue alt => exact progress.recoverOriginal once missing alt
    case isFalse noAlt => exact progress.delete once (not_not.mp noAlt)

theorem Progress.run (progress : Progress start committed directory rest)
    (tmps : ∀ name ∈ tmpFiles, ∃ target stamp, name = reserved .tmp target stamp)
    (listed : rest ⊆ tmpFiles) (nodup : rest.Nodup)
    (unshadowed : rest.Pairwise fun earlier later => ¬Shadows start earlier later) :
    Progress start committed (rest.foldl (recoverTmp tmpFiles) directory) [] := by
  induction rest generalizing directory with
  | nil => exact progress
  | cons name rest ih =>
      obtain ⟨target, stamp, rfl⟩ := tmps name (listed List.mem_cons_self)
      rw [List.nodup_cons] at nodup
      rw [List.pairwise_cons] at unshadowed
      have visited := progress.step nodup.1 tmps (listed List.mem_cons_self) unshadowed.1
      exact ih visited (fun other mem => listed (List.mem_cons_of_mem _ mem)) nodup.2
        unshadowed.2

end Loop

/-! ## The loop over the alternative files -/

/-- The temporary files are gone and all originals are there. -/
structure Restored (committed directory : Directory) (rest : List Name) : Prop where
  consistent : Consistent directory committed
  noTmp : ∀ target stamp, directory (reserved .tmp target stamp) = none
  pending : ∀ target stamp, directory (reserved .alt target stamp) ≠ none →
    reserved .alt target stamp ∈ rest

namespace Restored

variable {committed directory : Directory} {altFiles rest : List Name}

theorem not_interrupted (restored : Restored committed directory rest) (target : Target)
    (stamp : Stamp) : ¬Interrupted directory target stamp := fun both =>
  both.1 (restored.noTmp target stamp)

theorem original (restored : Restored committed directory rest) (target : Target) :
    directory target.name = committed target.name := by
  rcases restored.consistent.plain target with same | ⟨_, stamp, both⟩
  · exact same
  · exact absurd both (restored.not_interrupted target stamp)

theorem step {target : Target} {stamp : Stamp}
    (restored : Restored committed directory (reserved .alt target stamp :: rest))
    (alts : ∀ name ∈ altFiles, ∃ target stamp, name = reserved .alt target stamp)
    (listed : reserved .alt target stamp ∈ altFiles)
    (there : committed target.name ≠ none) :
    Restored committed (recoverAlt altFiles directory (reserved .alt target stamp)) rest := by
  simp only [recoverAlt, originalName_reserved, Directory.fileExists,
    Option.isSome_iff_ne_none, restored.original target]
  rw [if_pos there]
  have spares : Spares (target.name ++ Mark.alt.mask) altFiles directory := by
    intro name mem _ _
    obtain ⟨other, otherStamp, rfl⟩ := alts name mem
    exact ⟨.alt, other, otherStamp, rfl, restored.not_interrupted other otherStamp⟩
  refine ⟨restored.consistent.cleanUp spares, ?_, ?_⟩
  · intro other otherStamp
    rcases cleanUp_cases (target.name ++ Mark.alt.mask) altFiles directory
      (reserved .tmp other otherStamp) with same | gone
    · rw [same, restored.noTmp]
    · exact gone.1
  · intro other otherStamp present
    rw [cleanUp_apply] at present
    split at present
    case isTrue => exact absurd rfl present
    case isFalse kept =>
      rcases List.mem_cons.mp (restored.pending other otherStamp present) with equal | mem
      · refine absurd ⟨?_, ?_, ?_⟩ kept
        · rw [equal]
          exact append_mask_infix_reserved.mpr List.suffix_rfl
        · rw [equal]
          exact listed
        · exact Directory.isFile_iff.mpr (restored.consistent.known .alt _ _ present).1
      · exact mem

theorem run (restored : Restored committed directory rest)
    (alts : ∀ name ∈ altFiles, ∃ target stamp, name = reserved .alt target stamp ∧
      committed target.name ≠ none) (listed : rest ⊆ altFiles) :
    Restored committed (rest.foldl (recoverAlt altFiles) directory) [] := by
  induction rest generalizing directory with
  | nil => exact restored
  | cons name rest ih =>
      obtain ⟨target, stamp, rfl, there⟩ := alts name (listed List.mem_cons_self)
      have names : ∀ name ∈ altFiles, ∃ target stamp, name = reserved .alt target stamp := by
        intro name mem
        obtain ⟨target, stamp, equal, _⟩ := alts name mem
        exact ⟨target, stamp, equal⟩
      have visited := restored.step names (listed List.mem_cons_self) there
      exact ih visited fun other mem => listed (List.mem_cons_of_mem _ mem)

/-- When no alternative file is left, the directory is the committed one. -/
theorem eq_committed (restored : Restored committed directory []) : directory = committed := by
  funext name
  by_cases clean : Clean name
  · exact restored.original ⟨name, clean⟩
  · have absent : directory name = none := by
      by_contra present
      rcases restored.consistent.names name present with isClean | ⟨mark, target, stamp, rfl⟩
      · exact clean isClean
      · cases mark with
        | tmp => exact present (restored.noTmp target stamp)
        | alt => cases restored.pending target stamp present
    have uncommitted : committed name = none := by
      by_contra present
      exact clean (restored.consistent.clean name present)
    rw [absent, uncommitted]

end Restored

/-! ## Recovery after a crash -/

section Crash

variable {directory committed : Directory} {tmpOrder altOrder : List Name}

/-- The files found by a mark are those that transactions have left. -/
theorem Consistent.listed (consistent : Consistent directory committed) {order : List Name}
    (complete : directory.ListedBy order) (mark : Mark) {name : Name} :
    name ∈ Directory.listFiles order directory mark.mask →
      ∃ target stamp, name = reserved mark target stamp ∧ committed target.name ≠ none := by
  rw [Directory.mem_listFiles complete]
  rintro ⟨⟨content, file⟩, found⟩
  have present : directory name ≠ none := by
    rw [file]
    exact Option.some_ne_none _
  rcases consistent.names name present with clean | ⟨other, target, stamp, rfl⟩
  · exact absurd found (clean.not_mask mark)
  · obtain rfl := mask_infix_reserved.mp found
    obtain ⟨_, original, known⟩ := consistent.known mark target stamp present
    refine ⟨target, stamp, rfl, ?_⟩
    rw [known]
    exact Option.some_ne_none _

/-- A transaction's file is found by its mark. -/
theorem Consistent.mem_listFiles (consistent : Consistent directory committed)
    {order : List Name} (complete : directory.ListedBy order) {mark : Mark} {target : Target}
    {stamp : Stamp} (present : directory (reserved mark target stamp) ≠ none) :
    reserved mark target stamp ∈ Directory.listFiles order directory mark.mask := by
  rw [Directory.mem_listFiles complete]
  exact ⟨(consistent.known mark target stamp present).1, mask_infix_reserved.mpr rfl⟩

/-- The temporary files are listed in an order in which no target is shadowed by
another one. -/
def Unshadowed (directory : Directory) (tmpOrder : List Name) : Prop :=
  (Directory.listFiles tmpOrder directory Mark.tmp.mask).Pairwise
    fun earlier later => ¬Shadows directory earlier later

/-- The recovery turns a consistent directory into the committed one. -/
theorem Consistent.recovered (consistent : Consistent directory committed)
    (tmpComplete : directory.ListedBy tmpOrder)
    (altComplete : (recoverTmpFiles tmpOrder directory).ListedBy altOrder)
    (unshadowed : Unshadowed directory tmpOrder) :
    fileRecoverFailedIO tmpOrder altOrder directory = committed := by
  have begins : Progress directory committed directory
      (Directory.listFiles tmpOrder directory Mark.tmp.mask) := by
    refine ⟨consistent, fun _ _ present => consistent.mem_listFiles tmpComplete present, ?_⟩
    intro target stamp
    constructor
    · intro both
      exact ⟨both, consistent.mem_listFiles tmpComplete both.1⟩
    · exact And.left
  have tmps : ∀ name ∈ Directory.listFiles tmpOrder directory Mark.tmp.mask,
      ∃ target stamp, name = reserved .tmp target stamp := by
    intro name mem
    obtain ⟨target, stamp, equal, _⟩ := consistent.listed tmpComplete .tmp mem
    exact ⟨target, stamp, equal⟩
  have ends := begins.run tmps (List.Subset.refl _) (tmpComplete.nodup.filter _) unshadowed
  have restored : Restored committed (recoverTmpFiles tmpOrder directory)
      (Directory.listFiles altOrder (recoverTmpFiles tmpOrder directory) Mark.alt.mask) := by
    refine ⟨ends.consistent, ?_, fun _ _ present =>
      ends.consistent.mem_listFiles altComplete present⟩
    intro target stamp
    by_contra present
    cases ends.pending target stamp present
  have alts : ∀ name ∈ Directory.listFiles altOrder (recoverTmpFiles tmpOrder directory)
      Mark.alt.mask, ∃ target stamp, name = reserved .alt target stamp ∧
        committed target.name ≠ none := fun name mem =>
    ends.consistent.listed altComplete .alt mem
  exact (restored.run alts (List.Subset.refl _)).eq_committed

end Crash

namespace Volume

variable {Id : Type} [DecidableEq Id]

/-- After a crash in any regular run, the recovery leaves every file on which a
transaction was opened with the content that the transaction has found or with
one that was committed since, and every other name as it was. -/
theorem recovered_of_regular {directory : Directory} {labels : List (VolumeLabel Id)}
    {volume : Volume Id} {tmpOrder altOrder : List Name}
    (clean : ∀ name, directory name ≠ none → Clean name)
    (reached : machine.run (start Id directory) labels = some volume)
    (regular : machine.AllSteps Regular (start Id directory) labels)
    (tmpComplete : volume.directory.ListedBy tmpOrder)
    (altComplete : (recoverTmpFiles tmpOrder volume.directory).ListedBy altOrder)
    (unshadowed : Unshadowed volume.directory tmpOrder) :
    Explained directory ( fileRecoverFailedIO tmpOrder altOrder volume.directory)
      volume.history := by
  obtain ⟨consistent, explained⟩ := recorded_of_regular clean reached regular
  rw [consistent.recovered tmpComplete altComplete unshadowed]
  exact explained

/-! ## Runs -/

instance regularDecidable (volume : Volume Id) :
    (label : VolumeLabel Id) → Decidable (Regular volume label)
  | .tfopen _ fname cookie timestamp _ => inferInstanceAs (Decidable (Clean fname ∧
      volume.directory (TFile.mk fname cookie timestamp).tmpName = none ∧
      volume.directory (TFile.mk fname cookie timestamp).altName = none))
  | .tfclose _ flushed => inferInstanceAs (Decidable (flushed = true))
  | .calloc _ | .fopen .. | .write .. | .go .. => isTrue trivial

instance shadowsDecidable (directory : Directory) (earlier later : Name) :
    Decidable (Shadows directory earlier later) :=
  inferInstanceAs (Decidable (¬(_ ∧ _) ∧ (_ ∧ _) ∧ _ ∧ _))

instance unshadowedDecidable (directory : Directory) (tmpOrder : List Name) :
    Decidable (Unshadowed directory tmpOrder) :=
  inferInstanceAs (Decidable (List.Pairwise _ _))

/-- A directory that is written entry by entry. -/
def ofEntries (entries : List (Name × Option Entry)) : Directory :=
  entries.foldl (fun directory entry => Function.update directory entry.1 entry.2) fun _ => none

theorem mem_of_ofEntries {entries : List (Name × Option Entry)} {name : Name}
    (present : ofEntries entries name ≠ none) : name ∈ entries.map Prod.fst := by
  induction entries using List.reverseRecOn with
  | nil => exact absurd rfl present
  | append_singleton entries last ih =>
      rw [ofEntries, List.foldl_append, List.foldl_cons, List.foldl_nil] at present
      rw [List.map_append, List.mem_append]
      by_cases same : name = last.1
      · exact .inr (by simp [same])
      · rw [Function.update_of_ne same] at present
        exact .inl (ih present)

theorem ofEntries_listedBy {entries : List (Name × Option Entry)} {order : List Name}
    (listed : ∀ name ∈ entries.map Prod.fst, name ∈ order) (nodup : order.Nodup) :
    (ofEntries entries).ListedBy order :=
  ⟨fun name present => listed name (mem_of_ofEntries present), nodup⟩

/-- A transaction on the second file is interrupted after its first rename, one
on the first file after its copy. -/
def twoTransactions (first second : Name) : List (VolumeLabel Bool) :=
  [.tfopen true second 2 2 true, .fopen true ['r', '+'] true, .write true [9] [],
    .tfclose true true, .go true true, .tfopen false first 1 1 true]

def twoFiles (first second : Name) : Directory :=
  ofEntries [(first, some (.file [1])), (second, some (.file [2]))]

def tmpOf (fname : Name) (number : Int) : Name := (TFile.mk fname number number).tmpName

def altOf (fname : Name) (number : Int) : Name := (TFile.mk fname number number).altName

/-- The directory that the two transactions leave. -/
def leftBehind (first second : Name) : List (Name × Option Entry) :=
  [(first, some (.file [1])), (second, some (.file [2])), (tmpOf second 2, some (.file [2])),
    (tmpOf second 2, some (.file [])), (tmpOf second 2, some (.file [9])), (second, none),
    (altOf second 2, some (.file [2])), (tmpOf first 1, some (.file [1]))]

/-- The names of the directory in alphabetical order. -/
def names (first second : Name) : List Name :=
  [first, tmpOf first 1, second, altOf second 2, tmpOf second 2]

theorem separateNames_recovered :
    ∃ volume, machine.run (start Bool (twoFiles ['a'] ['b'])) (twoTransactions ['a'] ['b']) =
        some volume ∧
      Explained (twoFiles ['a'] ['b'])
        ( fileRecoverFailedIO (names ['a'] ['b']) (names ['a'] ['b']) volume.directory)
        volume.history ∧
      fileRecoverFailedIO (names ['a'] ['b']) (names ['a'] ['b']) volume.directory ['b'] =
        some (.file [9]) := by
  have reached : machine.run (start Bool (twoFiles ['a'] ['b'])) (twoTransactions ['a'] ['b']) =
      some _ := rfl
  have clean : ∀ name, twoFiles ['a'] ['b'] name ≠ none → Clean name := fun name present =>
    (by decide : ∀ name ∈ [['a'], ['b']], Clean name) name (mem_of_ofEntries present)
  have before : (ofEntries (leftBehind ['a'] ['b'])).ListedBy (names ['a'] ['b']) :=
    ofEntries_listedBy (by decide +kernel) (by decide +kernel)
  have after : (ofEntries (leftBehind ['a'] ['b'] ++ [(tmpOf ['a'] 1, none),
      (tmpOf ['b'] 2, none), (['b'], some (.file [9])), (altOf ['b'] 2, none)])).ListedBy
      (names ['a'] ['b']) := ofEntries_listedBy (by decide +kernel) (by decide +kernel)
  exact ⟨_, rfl, recovered_of_regular clean reached (by decide +kernel) before after
    (by decide +kernel), by decide +kernel⟩

/-- The name of the second file ends with the name of the first one: the
interrupted transaction loses its file. -/
theorem suffixName_lost :
    ∃ volume, machine.run (start Bool (twoFiles ['a'] ['b', 'a']))
        (twoTransactions ['a'] ['b', 'a']) = some volume ∧
      machine.AllSteps Regular (start Bool (twoFiles ['a'] ['b', 'a']))
        (twoTransactions ['a'] ['b', 'a']) ∧
      volume.directory.ListedBy (names ['a'] ['b', 'a']) ∧
      fileRecoverFailedIO (names ['a'] ['b', 'a']) (names ['a'] ['b', 'a']) volume.directory
        ['b', 'a'] = none ∧
      ¬Explained (twoFiles ['a'] ['b', 'a'])
        ( fileRecoverFailedIO (names ['a'] ['b', 'a']) (names ['a'] ['b', 'a']) volume.directory)
        volume.history := by
  have before : (ofEntries (leftBehind ['a'] ['b', 'a'])).ListedBy (names ['a'] ['b', 'a']) :=
    ofEntries_listedBy (by decide +kernel) (by decide +kernel)
  refine ⟨_, rfl, by decide +kernel, before, by decide +kernel, fun explained => ?_⟩
  have lost : fileRecoverFailedIO (names ['a'] ['b', 'a']) (names ['a'] ['b', 'a'])
      (ofEntries (leftBehind ['a'] ['b', 'a'])) ['b', 'a'] = none := by decide +kernel
  rcases explained.target [.opened false ['a'] [1], .committed true ['b', 'a'] [9]] true
    ['b', 'a'] [2] [] rfl with same | ⟨_, written, _, same⟩
  · cases lost.symm.trans same
  · cases lost.symm.trans same

end Volume

end Tegenaria.LibFile
