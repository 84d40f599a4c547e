import Tegenaria.Foundation.Transition
import Tegenaria.LibFile.Directory

/-!
# Transacted files without TxF

`tfopen` works on a copy of the file.  `tfclose` renames the file to its
alternative name, renames the copy to the name of the file and deletes the
alternative.  Every system call is one step of its transaction; the steps of
different transactions interleave, and a transaction that takes no further step
is one that a crash has interrupted.

Beside the directory, a volume records the directory as it is meant to be: the
content of a file is replaced by the written one at the moment at which the
original is moved away.  The history has the latest event first.
-/

namespace Tegenaria.LibFile

open Foundation

/-- The point that a transaction has reached.  `tmpCreated` is the file that a
failing `tfopen` deletes after its own `tfclose`. -/
inductive Stage where
  | idle
  | copied (f : TFile)
  | opened (f : TFile) (view : List UInt8)
  | closed (f : TFile) (written : List UInt8) (tmpCreated : Option Name)
  | parted (f : TFile) (tmpCreated : Option Name)
  | replaced (f : TFile) (tmpCreated : Option Name)
  | failed (tmpName : Name)
  | ended
  deriving DecidableEq

/-- The next system call of a transaction, and whether it succeeds.  A call that
is made with wrong arguments fails in any case. -/
inductive VolumeLabel (Id : Type) where
  | tfopen (id : Id) (fname : Name) (cookie timestamp : Int) (succeeds : Bool)
  | calloc (id : Id)
  | fopen (id : Id) (mode : List Char) (succeeds : Bool)
  | write (id : Id) (view stored : List UInt8)
  | tfclose (id : Id) (flushed : Bool)
  | go (id : Id) (succeeds : Bool)

/-- A transaction has copied its file, or it has moved the original away. -/
inductive VolumeEvent (Id : Type) where
  | opened (id : Id) (fname : Name) (before : List UInt8)
  | committed (id : Id) (fname : Name) (written : List UInt8)
  deriving DecidableEq

structure Volume (Id : Type) where
  directory : Directory
  committed : Directory
  stages : Id → Stage
  history : List (VolumeEvent Id)

namespace Volume

variable {Id : Type} [DecidableEq Id]

/-- The directory before any transaction. -/
def start (Id : Type) (directory : Directory) : Volume Id where
  directory := directory
  committed := directory
  stages := fun _ => .idle
  history := []

def goto (volume : Volume Id) (id : Id) (stage : Stage) : Volume Id :=
  { volume with stages := Function.update volume.stages id stage }

def record (volume : Volume Id) (event : VolumeEvent Id) : Volume Id :=
  { volume with history := event :: volume.history }

/-- What follows the last system call of `tfclose`. -/
def leave : Option Name → Stage
  | some tmpName => .failed tmpName
  | none => .ended

/-- A system call whose outcome is a new directory. -/
def attempt (succeeds : Bool) (call : Option Directory) : Option Directory :=
  if succeeds then call else none

/-- One system call of `tfopen` or `tfclose`. -/
def step (volume : Volume Id) : VolumeLabel Id → Option (Volume Id)
  | .tfopen id fname cookie timestamp succeeds =>
      match volume.stages id with
      | .idle =>
          let f : TFile := ⟨fname, cookie, timestamp⟩
          match attempt succeeds (volume.directory.copyFile fname f.tmpName) with
          | some directory =>
              some (({ volume with directory }.goto id (.copied f)).record
                (.opened id fname (volume.directory.content fname)))
          | none => some (volume.goto id .ended)
      | _ => none
  | .calloc id =>
      match volume.stages id with
      | .copied f => some (volume.goto id (.failed f.tmpName))
      | _ => none
  | .fopen id mode succeeds =>
      match volume.stages id with
      | .copied f =>
          match succeeds, volume.directory.fopen f.tmpName mode with
          | true, some (directory, view) =>
              some ({ volume with directory }.goto id (.opened f view))
          | _, _ => some (volume.goto id (.closed .zero [] (some f.tmpName)))
      | _ => none
  | .write id view stored =>
      match volume.stages id with
      | .opened f _ =>
          some ({ volume with directory := volume.directory.store f.tmpName stored }.goto id
            (.opened f view))
      | _ => none
  | .tfclose id flushed =>
      match volume.stages id with
      | .opened f view =>
          let directory :=
            if flushed then volume.directory.store f.tmpName view else volume.directory
          some ({ volume with directory }.goto id (.closed f view none))
      | _ => none
  | .go id succeeds =>
      match volume.stages id with
      | .closed f written tmpCreated =>
          match attempt succeeds (volume.directory.moveFile f.fname f.altName) with
          | some directory =>
              some (({ volume with
                directory
                committed := Function.update volume.committed f.fname (some (.file written))
                }.goto id (.parted f tmpCreated)).record (.committed id f.fname written))
          | none => some (volume.goto id (leave tmpCreated))
      | .parted f tmpCreated =>
          match attempt succeeds (volume.directory.moveFile f.tmpName f.fname) with
          | some directory => some ({ volume with directory }.goto id (.replaced f tmpCreated))
          | none => some (volume.goto id (leave tmpCreated))
      | .replaced f tmpCreated =>
          let directory :=
            if succeeds then volume.directory.deleteFile f.altName else volume.directory
          some ({ volume with directory }.goto id (leave tmpCreated))
      | .failed tmpName =>
          let directory :=
            if succeeds then volume.directory.deleteFile tmpName else volume.directory
          some ({ volume with directory }.goto id .ended)
      | _ => none

def machine : Machine (Volume Id) (VolumeLabel Id) where
  step := step

end Volume

/-! ## Directories that can be recovered -/

/-- The temporary and the alternative file of a transaction are both there. -/
def Interrupted (directory : Directory) (target : Target) (stamp : Stamp) : Prop :=
  directory (reserved .tmp target stamp) ≠ none ∧
    directory (reserved .alt target stamp) ≠ none

/-- The directory holds what is committed.  A file that is missing is one that
was moved away by exactly one transaction, whose temporary file has the
committed content. -/
structure Consistent (directory committed : Directory) : Prop where
  plain : ∀ target : Target, directory target.name = committed target.name ∨
    directory target.name = none ∧ ∃ stamp, Interrupted directory target stamp
  interrupted : ∀ target stamp, Interrupted directory target stamp →
    directory target.name = none ∧
      directory (reserved .tmp target stamp) = committed target.name
  unique : ∀ target stamp other, Interrupted directory target stamp →
    Interrupted directory target other → stamp = other
  known : ∀ mark target stamp, directory (reserved mark target stamp) ≠ none →
    (∃ content, directory (reserved mark target stamp) = some (.file content)) ∧
      ∃ content, committed target.name = some (.file content)
  short : ∀ mark target stamp, directory (reserved mark target stamp) ≠ none →
    (reserved mark target stamp).length ≤ Directory.maxComponent
  names : ∀ name, directory name ≠ none → Clean name ∨
    ∃ mark target stamp, name = reserved mark target stamp
  clean : ∀ name, committed name ≠ none → Clean name

namespace Consistent

variable {directory committed : Directory} {target : Target} {stamp : Stamp}

/-- A directory without reserved names is consistent with itself. -/
theorem refl (clean : ∀ name, directory name ≠ none → Clean name) :
    Consistent directory directory := by
  have absent : ∀ mark target stamp, directory (reserved mark target stamp) = none := by
    intro mark target stamp
    by_contra present
    exact reserved_not_clean (clean _ present)
  exact {
    plain := fun _ => .inl rfl
    interrupted := fun target stamp both => absurd (absent _ _ _) both.1
    unique := fun target stamp _ both => absurd (absent _ _ _) both.1
    known := fun mark target stamp present => absurd (absent _ _ _) present
    short := fun mark target stamp present => absurd (absent _ _ _) present
    names := fun name present => .inl (clean name present)
    clean }

section Frame

variable {next : Directory}

/-- A step that keeps the plain names and changes none of the interrupted
transactions leaves the directory consistent. -/
theorem of_same_interrupted (consistent : Consistent directory committed)
    (plain : ∀ target : Target, next target.name = directory target.name)
    (same : ∀ target stamp, Interrupted next target stamp ↔ Interrupted directory target stamp)
    (tmp : ∀ target stamp, Interrupted directory target stamp →
      next (reserved .tmp target stamp) = directory (reserved .tmp target stamp))
    (known : ∀ mark target stamp, next (reserved mark target stamp) ≠ none →
      (∃ content, next (reserved mark target stamp) = some (.file content)) ∧
        ∃ content, committed target.name = some (.file content))
    (short : ∀ mark target stamp, next (reserved mark target stamp) ≠ none →
      (reserved mark target stamp).length ≤ Directory.maxComponent)
    (names : ∀ name, next name ≠ none → Clean name ∨
      ∃ mark target stamp, name = reserved mark target stamp) :
    Consistent next committed where
  plain := by
    intro target
    simp only [plain, same]
    exact consistent.plain target
  interrupted := by
    intro target stamp both
    have before := (same target stamp).mp both
    rw [plain, tmp target stamp before]
    exact consistent.interrupted target stamp before
  unique := by
    intro target stamp other
    rw [same, same]
    exact consistent.unique target stamp other
  known := known
  short := short
  names := names
  clean := consistent.clean

end Frame

/-- A transaction with only one of its two files is not interrupted, whatever
happens to that file. -/
theorem interrupted_update {mark : Mark} (entry : Option Entry)
    (alone : ∀ other ≠ mark, directory (reserved other target stamp) = none)
    (otherTarget : Target) (otherStamp : Stamp) :
    Interrupted (Function.update directory (reserved mark target stamp) entry) otherTarget
        otherStamp ↔
      Interrupted directory otherTarget otherStamp := by
  by_cases same : otherTarget = target ∧ otherStamp = stamp
  · obtain ⟨rfl, rfl⟩ := same
    cases mark with
    | tmp => simp [Interrupted, alone .alt (by decide)]
    | alt => simp [Interrupted, alone .tmp (by decide)]
  · have apart : ∀ other, reserved other otherTarget otherStamp ≠ reserved mark target stamp :=
      fun other equal => same (reserved_inj.mp equal).2
    simp only [Interrupted, Function.update_of_ne (apart _)]

/-- One file of a transaction changes while the other one does not exist. -/
theorem change {mark : Mark} {entry : Option Entry} (consistent : Consistent directory committed)
    (alone : ∀ other ≠ mark, directory (reserved other target stamp) = none)
    (short : entry ≠ none → (reserved mark target stamp).length ≤ Directory.maxComponent)
    (known : entry ≠ none → (∃ content, entry = some (.file content)) ∧
      ∃ content, committed target.name = some (.file content)) :
    Consistent (Function.update directory (reserved mark target stamp) entry) committed := by
  refine consistent.of_same_interrupted ?_ (interrupted_update entry alone) ?_ ?_ ?_ ?_
  · intro other
    rw [Function.update_of_ne target_ne_reserved]
  · intro other otherStamp both
    refine Function.update_of_ne ?_ ..
    intro equal
    obtain ⟨rfl, rfl, rfl⟩ := reserved_inj.mp equal
    exact both.2 (alone .alt (by decide))
  · intro otherMark otherTarget otherStamp present
    by_cases here : reserved otherMark otherTarget otherStamp = reserved mark target stamp
    · rw [here, Function.update_self] at present ⊢
      obtain ⟨rfl, rfl, rfl⟩ := reserved_inj.mp here
      exact known present
    · rw [Function.update_of_ne here] at present ⊢
      exact consistent.known otherMark otherTarget otherStamp present
  · intro otherMark otherTarget otherStamp present
    by_cases here : reserved otherMark otherTarget otherStamp = reserved mark target stamp
    · rw [here, Function.update_self] at present
      rw [here]
      exact short present
    · rw [Function.update_of_ne here] at present
      exact consistent.short otherMark otherTarget otherStamp present
  · intro name present
    by_cases here : name = reserved mark target stamp
    · exact .inr ⟨mark, target, stamp, here⟩
    · rw [Function.update_of_ne here] at present
      exact consistent.names name present

/-- A temporary file is written while its alternative file does not exist. -/
theorem storeTmp (consistent : Consistent directory committed)
    (noAlt : directory (reserved .alt target stamp) = none)
    (fits : (reserved .tmp target stamp).length ≤ Directory.maxComponent)
    {original : List UInt8} (file : committed target.name = some (.file original))
    (content : List UInt8) :
    Consistent (Function.update directory (reserved .tmp target stamp) (some (.file content)))
      committed := by
  refine consistent.change ?_ (fun _ => fits) (fun _ => ⟨⟨content, rfl⟩, original, file⟩)
  intro other different
  cases other with
  | tmp => exact absurd rfl different
  | alt => exact noAlt

/-- A temporary file is deleted while its alternative file does not exist. -/
theorem dropTmp (consistent : Consistent directory committed)
    (noAlt : directory (reserved .alt target stamp) = none) :
    Consistent (Function.update directory (reserved .tmp target stamp) none) committed := by
  refine consistent.change ?_ (absurd rfl) (absurd rfl)
  intro other different
  cases other with
  | tmp => exact absurd rfl different
  | alt => exact noAlt

/-- An alternative file is deleted when the temporary file does not exist. -/
theorem dropAlt (consistent : Consistent directory committed)
    (noTmp : directory (reserved .tmp target stamp) = none) :
    Consistent (Function.update directory (reserved .alt target stamp) none) committed := by
  refine consistent.change ?_ (absurd rfl) (absurd rfl)
  intro other different
  cases other with
  | tmp => exact noTmp
  | alt => exact absurd rfl different

/-- A file that is there is the committed one. -/
theorem present (consistent : Consistent directory committed) {entry : Entry}
    (there : directory target.name = some entry) : committed target.name = some entry := by
  rcases consistent.plain target with same | ⟨missing, _⟩
  · rw [← same, there]
  · cases missing.symm.trans there

/-- The file of an interrupted transaction is missing. -/
theorem target_ne_of_interrupted (consistent : Consistent directory committed) {entry : Entry}
    (there : directory target.name = some entry) {other : Target} {otherStamp : Stamp}
    (both : Interrupted directory other otherStamp) : other ≠ target := by
  rintro rfl
  cases (consistent.interrupted other otherStamp both).1.symm.trans there

section Part

variable {entry : Entry}

open Classical in
/-- The directory after the first rename of `tfclose`, under a reserved name. -/
theorem part_reserved (mark : Mark) (other : Target) (otherStamp : Stamp) :
    Function.update (Function.update directory target.name none)
        (reserved .alt target stamp) (some entry) (reserved mark other otherStamp) =
      if mark = .alt ∧ other = target ∧ otherStamp = stamp then some entry
      else directory (reserved mark other otherStamp) := by
  by_cases here : mark = .alt ∧ other = target ∧ otherStamp = stamp
  · rw [if_pos here]
    obtain ⟨rfl, rfl, rfl⟩ := here
    rw [Function.update_self]
  · rw [if_neg here, Function.update_of_ne (fun equal => here (reserved_inj.mp equal)),
      Function.update_of_ne (Ne.symm target_ne_reserved)]

open Classical in
/-- The directory after the first rename of `tfclose`, under a plain name. -/
theorem part_plain (other : Target) :
    Function.update (Function.update directory target.name none)
        (reserved .alt target stamp) (some entry) other.name =
      if other = target then none else directory other.name := by
  rw [Function.update_of_ne target_ne_reserved]
  by_cases same : other = target
  · rw [if_pos same, same, Function.update_self]
  · rw [if_neg same, Function.update_of_ne (fun equal => same (Target.ext equal))]

/-- The first rename of `tfclose` keeps the temporary files. -/
theorem part_tmp (other : Target) (otherStamp : Stamp) :
    Function.update (Function.update directory target.name none)
        (reserved .alt target stamp) (some entry) (reserved .tmp other otherStamp) =
      directory (reserved .tmp other otherStamp) := by
  rw [part_reserved, if_neg (by simp)]

theorem part_interrupted (tmp : directory (reserved .tmp target stamp) ≠ none)
    (other : Target) (otherStamp : Stamp) :
    Interrupted
        (Function.update (Function.update directory target.name none)
          (reserved .alt target stamp) (some entry)) other otherStamp ↔
      Interrupted directory other otherStamp ∨ other = target ∧ otherStamp = stamp := by
  unfold Interrupted
  rw [part_tmp, part_reserved]
  by_cases same : other = target ∧ otherStamp = stamp
  · obtain ⟨rfl, rfl⟩ := same
    simp [tmp]
  · simp [same]

/-- The first rename of `tfclose`. -/
theorem part (consistent : Consistent directory committed)
    {written : List UInt8} (there : directory target.name = some entry)
    (tmp : directory (reserved .tmp target stamp) = some (.file written)) :
    Consistent
      (Function.update (Function.update directory target.name none)
        (reserved .alt target stamp) (some entry))
      (Function.update committed target.name (some (.file written))) := by
  have tmpThere : directory (reserved .tmp target stamp) ≠ none := by
    rw [tmp]
    exact Option.some_ne_none _
  have elsewhere : ∀ other : Target, other ≠ target →
      Function.update committed target.name (some (.file written)) other.name =
        committed other.name :=
    fun other different => Function.update_of_ne (fun equal => different (Target.ext equal)) ..
  exact {
    plain := by
      intro other
      simp only [part_plain, part_interrupted tmpThere]
      by_cases same : other = target
      · rw [if_pos same]
        exact .inr ⟨rfl, stamp, .inr ⟨same, rfl⟩⟩
      · rw [if_neg same, elsewhere other same]
        rcases consistent.plain other with equal | ⟨missing, otherStamp, both⟩
        · exact .inl equal
        · exact .inr ⟨missing, otherStamp, .inl both⟩
    interrupted := by
      intro other otherStamp both
      rw [part_plain, part_tmp]
      rcases (part_interrupted tmpThere other otherStamp).mp both with old | ⟨rfl, rfl⟩
      · have different := consistent.target_ne_of_interrupted there old
        rw [if_neg different, elsewhere other different]
        exact consistent.interrupted other otherStamp old
      · rw [if_pos rfl, Function.update_self]
        exact ⟨rfl, tmp⟩
    unique := by
      intro other first second firstBoth secondBoth
      rcases (part_interrupted tmpThere other first).mp firstBoth with old | ⟨rfl, rfl⟩
      · have different := consistent.target_ne_of_interrupted there old
        rcases (part_interrupted tmpThere other second).mp secondBoth with older | ⟨same, _⟩
        · exact consistent.unique other first second old older
        · exact absurd same different
      · rcases (part_interrupted tmpThere other second).mp secondBoth with older | ⟨_, rfl⟩
        · exact absurd rfl (consistent.target_ne_of_interrupted there older)
        · rfl
    known := by
      intro mark other otherStamp present
      rw [part_reserved] at present ⊢
      have committedFile : ∀ (content : List UInt8), committed other.name = some (.file content) →
          ∃ content, Function.update committed target.name (some (.file written)) other.name =
            some (.file content) := by
        intro content before
        by_cases same : other = target
        · exact ⟨written, by rw [same, Function.update_self]⟩
        · exact ⟨content, by rw [elsewhere other same, before]⟩
      by_cases here : mark = .alt ∧ other = target ∧ otherStamp = stamp
      · rw [if_pos here]
        obtain ⟨rfl, rfl, rfl⟩ := here
        obtain ⟨_, content, original⟩ := consistent.known .tmp other otherStamp tmpThere
        exact ⟨⟨content, (consistent.present there).symm.trans original⟩,
          committedFile content original⟩
      · rw [if_neg here] at present ⊢
        obtain ⟨file, content, original⟩ := consistent.known mark other otherStamp present
        exact ⟨file, committedFile content original⟩
    short := by
      intro mark other otherStamp present
      rw [part_reserved] at present
      by_cases here : mark = .alt ∧ other = target ∧ otherStamp = stamp
      · obtain ⟨rfl, rfl, rfl⟩ := here
        rw [reserved_length .alt, ← reserved_length .tmp]
        exact consistent.short .tmp other otherStamp tmpThere
      · rw [if_neg here] at present
        exact consistent.short mark other otherStamp present
    names := by
      intro name present
      by_cases alt : name = reserved .alt target stamp
      · exact .inr ⟨.alt, target, stamp, alt⟩
      · rw [Function.update_of_ne alt] at present
        by_cases same : name = target.name
        · exact .inl (same ▸ target.clean)
        · rw [Function.update_of_ne same] at present
          exact consistent.names name present
    clean := by
      intro name present
      by_cases same : name = target.name
      · exact same ▸ target.clean
      · rw [Function.update_of_ne same] at present
        exact consistent.clean name present }

end Part

section Replace

variable {entry : Entry}

open Classical in
/-- The directory after the second rename of `tfclose`, under a reserved name. -/
theorem replace_reserved (mark : Mark) (other : Target) (otherStamp : Stamp) :
    Function.update (Function.update directory (reserved .tmp target stamp) none)
        target.name (some entry) (reserved mark other otherStamp) =
      if mark = .tmp ∧ other = target ∧ otherStamp = stamp then none
      else directory (reserved mark other otherStamp) := by
  rw [Function.update_of_ne (Ne.symm target_ne_reserved)]
  by_cases here : mark = .tmp ∧ other = target ∧ otherStamp = stamp
  · rw [if_pos here]
    obtain ⟨rfl, rfl, rfl⟩ := here
    rw [Function.update_self]
  · rw [if_neg here, Function.update_of_ne (fun equal => here (reserved_inj.mp equal))]

open Classical in
/-- The directory after the second rename of `tfclose`, under a plain name. -/
theorem replace_plain (other : Target) :
    Function.update (Function.update directory (reserved .tmp target stamp) none)
        target.name (some entry) other.name =
      if other = target then some entry else directory other.name := by
  by_cases same : other = target
  · rw [if_pos same, same, Function.update_self]
  · rw [if_neg same, Function.update_of_ne (fun equal => same (Target.ext equal)),
      Function.update_of_ne target_ne_reserved]

/-- The second rename of `tfclose` keeps the alternative files. -/
theorem replace_alt (other : Target) (otherStamp : Stamp) :
    Function.update (Function.update directory (reserved .tmp target stamp) none)
        target.name (some entry) (reserved .alt other otherStamp) =
      directory (reserved .alt other otherStamp) := by
  rw [replace_reserved, if_neg (by simp)]

theorem replace_interrupted (consistent : Consistent directory committed)
    (both : Interrupted directory target stamp) (other : Target) (otherStamp : Stamp) :
    Interrupted
        (Function.update (Function.update directory (reserved .tmp target stamp) none)
          target.name (some entry)) other otherStamp ↔
      Interrupted directory other otherStamp ∧ other ≠ target := by
  by_cases same : other = target
  · subst same
    refine iff_of_false (fun still => ?_) (fun apart => apart.2 rfl)
    unfold Interrupted at still
    rw [replace_alt, replace_reserved] at still
    -- an interrupted transaction of the same file would be the one that ends here
    by_cases again : otherStamp = stamp
    · exact still.1 (if_pos ⟨rfl, rfl, again⟩)
    · rw [if_neg (by simp [again])] at still
      exact again (consistent.unique other otherStamp stamp still both)
  · unfold Interrupted
    rw [replace_alt, replace_reserved, if_neg (by simp [same])]
    exact (and_iff_left same).symm

/-- The second rename of `tfclose`, which the recovery repeats. -/
theorem replace (consistent : Consistent directory committed)
    (both : Interrupted directory target stamp)
    (tmp : directory (reserved .tmp target stamp) = some entry) :
    Consistent
      (Function.update (Function.update directory (reserved .tmp target stamp) none)
        target.name (some entry)) committed where
  plain := by
    intro other
    simp only [replace_plain, consistent.replace_interrupted both]
    by_cases same : other = target
    · subst same
      rw [if_pos rfl, ← tmp]
      exact .inl (consistent.interrupted other stamp both).2
    · rw [if_neg same]
      rcases consistent.plain other with equal | ⟨missing, otherStamp, otherBoth⟩
      · exact .inl equal
      · exact .inr ⟨missing, otherStamp, otherBoth, same⟩
  interrupted := by
    intro other otherStamp otherBoth
    obtain ⟨before, different⟩ := (consistent.replace_interrupted both _ _).mp otherBoth
    rw [replace_plain, replace_reserved, if_neg different, if_neg (by simp [different])]
    exact consistent.interrupted other otherStamp before
  unique := by
    intro other first second firstBoth secondBoth
    obtain ⟨firstBefore, _⟩ := (consistent.replace_interrupted both _ _).mp firstBoth
    obtain ⟨secondBefore, _⟩ := (consistent.replace_interrupted both _ _).mp secondBoth
    exact consistent.unique other first second firstBefore secondBefore
  known := by
    intro mark other otherStamp present
    rw [replace_reserved] at present ⊢
    split at present
    case isTrue => exact absurd rfl present
    case isFalse here =>
      rw [if_neg here]
      exact consistent.known mark other otherStamp present
  short := by
    intro mark other otherStamp present
    rw [replace_reserved] at present
    split at present
    case isTrue => exact absurd rfl present
    case isFalse => exact consistent.short mark other otherStamp present
  names := by
    intro name present
    by_cases same : name = target.name
    · exact .inl (same ▸ target.clean)
    · rw [Function.update_of_ne same] at present
      by_cases here : name = reserved .tmp target stamp
      · exact .inr ⟨.tmp, target, stamp, here⟩
      · rw [Function.update_of_ne here] at present
        exact consistent.names name present
  clean := consistent.clean

end Replace

end Consistent

/-! ## The steps of a transaction -/

namespace Volume

variable {Id : Type} [DecidableEq Id] {volume next : Volume Id}

/-- What a step does: to the transaction itself, and to the directory. -/
inductive Moves (volume : Volume Id) : VolumeLabel Id → Volume Id → Prop where
  | refuse {id fname cookie timestamp succeeds} (at_ : volume.stages id = .idle) :
      Moves volume (.tfopen id fname cookie timestamp succeeds) (volume.goto id .ended)
  | copy {id fname cookie timestamp succeeds directory} (at_ : volume.stages id = .idle)
      (copied : volume.directory.copyFile fname (TFile.mk fname cookie timestamp).tmpName =
        some directory) :
      Moves volume (.tfopen id fname cookie timestamp succeeds)
        (({ volume with directory }.goto id (.copied ⟨fname, cookie, timestamp⟩)).record
          (.opened id fname (volume.directory.content fname)))
  | calloc {id f} (at_ : volume.stages id = .copied f) :
      Moves volume (.calloc id) (volume.goto id (.failed f.tmpName))
  | fopen {id mode succeeds f directory view} (at_ : volume.stages id = .copied f)
      (opened : volume.directory.fopen f.tmpName mode = some (directory, view)) :
      Moves volume (.fopen id mode succeeds) ({ volume with directory }.goto id (.opened f view))
  | fopenFails {id mode succeeds f} (at_ : volume.stages id = .copied f) :
      Moves volume (.fopen id mode succeeds)
        (volume.goto id (.closed .zero [] (some f.tmpName)))
  | write {id view stored f before} (at_ : volume.stages id = .opened f before) :
      Moves volume (.write id view stored)
        ({ volume with directory := volume.directory.store f.tmpName stored }.goto id
          (.opened f view))
  | fclose {id f view} (at_ : volume.stages id = .opened f view) :
      Moves volume (.tfclose id true)
        ({ volume with directory := volume.directory.store f.tmpName view }.goto id
          (.closed f view none))
  | fcloseFails {id f view} (at_ : volume.stages id = .opened f view) :
      Moves volume (.tfclose id false) (volume.goto id (.closed f view none))
  | part {id succeeds f written tmpCreated directory}
      (at_ : volume.stages id = .closed f written tmpCreated)
      (moved : volume.directory.moveFile f.fname f.altName = some directory) :
      Moves volume (.go id succeeds)
        (({ volume with
          directory
          committed := Function.update volume.committed f.fname (some (.file written))
          }.goto id (.parted f tmpCreated)).record (.committed id f.fname written))
  | partFails {id succeeds f written tmpCreated}
      (at_ : volume.stages id = .closed f written tmpCreated) :
      Moves volume (.go id succeeds) (volume.goto id (leave tmpCreated))
  | replace {id succeeds f tmpCreated directory}
      (at_ : volume.stages id = .parted f tmpCreated)
      (moved : volume.directory.moveFile f.tmpName f.fname = some directory) :
      Moves volume (.go id succeeds)
        ({ volume with directory }.goto id (.replaced f tmpCreated))
  | replaceFails {id succeeds f tmpCreated} (at_ : volume.stages id = .parted f tmpCreated) :
      Moves volume (.go id succeeds) (volume.goto id (leave tmpCreated))
  | discard {id f tmpCreated} (at_ : volume.stages id = .replaced f tmpCreated) :
      Moves volume (.go id true)
        ({ volume with directory := volume.directory.deleteFile f.altName }.goto id
          (leave tmpCreated))
  | discardFails {id f tmpCreated} (at_ : volume.stages id = .replaced f tmpCreated) :
      Moves volume (.go id false) (volume.goto id (leave tmpCreated))
  | tidy {id tmpName} (at_ : volume.stages id = .failed tmpName) :
      Moves volume (.go id true)
        ({ volume with directory := volume.directory.deleteFile tmpName }.goto id .ended)
  | tidyFails {id tmpName} (at_ : volume.stages id = .failed tmpName) :
      Moves volume (.go id false) (volume.goto id .ended)

theorem attempt_some {succeeds : Bool} {call : Option Directory} {directory : Directory}
    (done : attempt succeeds call = some directory) : call = some directory := by
  cases succeeds with
  | true => exact done
  | false => cases done

theorem moves_of_step {label : VolumeLabel Id} (stepped : machine.step volume label = some next) :
    Moves volume label next := by
  cases label with
  | tfopen id fname cookie timestamp succeeds =>
      simp only [machine, step] at stepped
      split at stepped
      case h_2 => cases stepped
      case h_1 at_ =>
        split at stepped
        · cases stepped
          exact .copy at_ (attempt_some ‹_›)
        · cases stepped
          exact .refuse at_
  | calloc id =>
      simp only [machine, step] at stepped
      split at stepped
      · cases stepped
        exact .calloc ‹_›
      · cases stepped
  | fopen id mode succeeds =>
      simp only [machine, step] at stepped
      split at stepped
      case h_2 => cases stepped
      case h_1 at_ =>
        split at stepped
        · cases stepped
          exact .fopen at_ ‹_›
        · cases stepped
          exact .fopenFails at_
  | write id view stored =>
      simp only [machine, step] at stepped
      split at stepped
      · cases stepped
        exact .write ‹_›
      · cases stepped
  | tfclose id flushed =>
      simp only [machine, step] at stepped
      split at stepped
      · cases stepped
        cases flushed with
        | true => exact .fclose ‹_›
        | false => exact .fcloseFails ‹_›
      · cases stepped
  | go id succeeds =>
      simp only [machine, step] at stepped
      split at stepped
      case h_1 at_ =>
        split at stepped
        · cases stepped
          exact .part at_ (attempt_some ‹_›)
        · cases stepped
          exact .partFails at_
      case h_2 at_ =>
        split at stepped
        · cases stepped
          exact .replace at_ (attempt_some ‹_›)
        · cases stepped
          exact .replaceFails at_
      case h_3 at_ =>
        cases stepped
        cases succeeds with
        | true => exact .discard at_
        | false => exact .discardFails at_
      case h_4 at_ =>
        cases stepped
        cases succeeds with
        | true => exact .tidy at_
        | false => exact .tidyFails at_
      case h_5 => cases stepped

/-- Transactions that keep to the scheme.  A transaction is opened on a file with
a clean name, the names for its temporary and its alternative file are not in
use, and the stream is written completely when it is closed. -/
def Regular (volume : Volume Id) : VolumeLabel Id → Prop
  | .tfopen _ fname cookie timestamp _ => Clean fname ∧
      volume.directory (TFile.mk fname cookie timestamp).tmpName = none ∧
      volume.directory (TFile.mk fname cookie timestamp).altName = none
  | .tfclose _ flushed => flushed = true
  | .calloc _ | .fopen .. | .write .. | .go .. => True

/-- The temporary file of a transaction is there, the alternative one is not. -/
def TmpOnly (directory : Directory) (target : Target) (stamp : Stamp) : Prop :=
  (∃ content, directory (reserved .tmp target stamp) = some (.file content)) ∧
    directory (reserved .alt target stamp) = none

/-- The transaction uses the reserved names of the target and the stamp. -/
def Claims (target : Target) (stamp : Stamp) : Stage → Prop
  | .copied f | .opened f _ | .closed f _ none | .parted f none | .replaced f none =>
      f.Names target stamp
  | .closed f _ (some tmpName) => f.fname = [] ∧ tmpName = reserved .tmp target stamp
  | .failed tmpName => tmpName = reserved .tmp target stamp
  | .idle | .ended | .parted _ (some _) | .replaced _ (some _) => False

/-- The files that are there at each point of a transaction. -/
def Has (directory : Directory) (target : Target) (stamp : Stamp) : Stage → Prop
  | .copied _ | .opened .. | .closed _ _ (some _) | .failed _ => TmpOnly directory target stamp
  | .closed _ written none =>
      directory (reserved .tmp target stamp) = some (.file written) ∧
        directory (reserved .alt target stamp) = none
  | .parted .. => Interrupted directory target stamp
  | .replaced .. => directory (reserved .tmp target stamp) = none ∧
      directory (reserved .alt target stamp) ≠ none
  | .idle | .ended => True

/-- The transaction has not begun or has come to its end. -/
def Stage.isQuiet : Stage → Bool
  | .idle | .ended => true
  | .copied _ | .opened .. | .closed .. | .parted .. | .replaced .. | .failed _ => false

structure Invariant (volume : Volume Id) : Prop where
  consistent : Consistent volume.directory volume.committed
  owned : ∀ id, Stage.isQuiet (volume.stages id) = false → ∃ target stamp,
    Claims target stamp (volume.stages id) ∧
      Has volume.directory target stamp (volume.stages id)
  exclusive : ∀ id other target stamp, Claims target stamp (volume.stages id) →
    Claims target stamp (volume.stages other) → id = other

section Ownership

variable {directory changed : Directory} {target otherTarget : Target}
  {stamp otherStamp : Stamp} {stage : Stage}

/-- The reserved names of a transaction are determined. -/
theorem Claims.unique (claims : Claims target stamp stage)
    (others : Claims otherTarget otherStamp stage) :
    target = otherTarget ∧ stamp = otherStamp := by
  have names : ∀ tmpName, tmpName = reserved .tmp target stamp →
      tmpName = reserved .tmp otherTarget otherStamp →
      target = otherTarget ∧ stamp = otherStamp := by
    rintro _ rfl same
    exact (reserved_inj.mp same).2
  unfold Claims at claims others
  split at claims
  case h_6 => exact names _ claims.2 others.2
  case h_7 => exact names _ claims others
  case h_1 | h_2 | h_3 | h_4 | h_5 => exact names _ claims.tmpName others.tmpName
  all_goals cases claims

theorem Claims.not_quiet (claims : Claims target stamp stage) :
    Stage.isQuiet stage = false := by
  cases stage with
  | idle | ended => cases claims
  | _ => rfl

/-- A transaction in progress has a file under one of its reserved names. -/
theorem Has.present (active : Stage.isQuiet stage = false) (has : Has directory target stamp stage) :
    directory (reserved .tmp target stamp) ≠ none ∨
      directory (reserved .alt target stamp) ≠ none := by
  unfold Has at has
  split at has <;> grind [TmpOnly, Interrupted, Stage.isQuiet]

/-- Only its own files matter to a transaction. -/
theorem Has.congr (has : Has directory target stamp stage)
    (same : ∀ mark, changed (reserved mark target stamp) =
      directory (reserved mark target stamp)) :
    Has changed target stamp stage := by
  unfold Has at has ⊢
  split <;> simpa only [TmpOnly, Interrupted, same] using has

end Ownership

/-- A transaction that changes only its own reserved names keeps the invariant
of the volume. -/
theorem Invariant.advance {directory committed : Directory} {id : Id} {stage : Stage}
    {target : Target} {stamp : Stamp} (invariant : Invariant volume)
    (mine : ∀ other, other ≠ id → ¬Claims target stamp (volume.stages other))
    (consistent : Consistent directory committed)
    (elsewhere : ∀ mark otherTarget otherStamp, ¬(otherTarget = target ∧ otherStamp = stamp) →
      directory (reserved mark otherTarget otherStamp) =
        volume.directory (reserved mark otherTarget otherStamp))
    (arrived : Stage.isQuiet stage = true ∨
      Claims target stamp stage ∧ Has directory target stamp stage) :
    Invariant ({ volume with directory, committed }.goto id stage) := by
  have fresh : ∀ other otherTarget otherStamp, other ≠ id →
      Claims otherTarget otherStamp stage →
      ¬Claims otherTarget otherStamp (volume.stages other) := by
    intro other otherTarget otherStamp different claims
    rcases arrived with quiet | ⟨claimed, _⟩
    · cases quiet.symm.trans claims.not_quiet
    · obtain ⟨rfl, rfl⟩ := claimed.unique claims
      exact mine other different
  refine ⟨consistent, ?_, ?_⟩
  · intro other active
    by_cases mover : other = id
    · subst mover
      simp only [goto, Function.update_self] at active ⊢
      rcases arrived with quiet | owns
      · cases quiet.symm.trans active
      · exact ⟨target, stamp, owns⟩
    · simp only [goto, Function.update_of_ne mover] at active ⊢
      obtain ⟨otherTarget, otherStamp, claims, has⟩ := invariant.owned other active
      refine ⟨otherTarget, otherStamp, claims, has.congr fun mark => ?_⟩
      refine elsewhere mark otherTarget otherStamp ?_
      rintro ⟨rfl, rfl⟩
      exact mine other mover claims
  · intro first second otherTarget otherStamp claims others
    by_cases firstMoves : first = id <;> by_cases secondMoves : second = id
    · rw [firstMoves, secondMoves]
    · subst firstMoves
      simp only [goto, Function.update_self, Function.update_of_ne secondMoves] at claims others
      exact absurd others (fresh second otherTarget otherStamp secondMoves claims)
    · subst secondMoves
      simp only [goto, Function.update_self, Function.update_of_ne firstMoves] at claims others
      exact absurd claims (fresh first otherTarget otherStamp firstMoves others)
    · simp only [goto, Function.update_of_ne firstMoves, Function.update_of_ne secondMoves]
        at claims others
      exact invariant.exclusive first second otherTarget otherStamp claims others

/-- A transaction can come to its end at any point. -/
theorem Invariant.retire {id : Id} {stage : Stage} (invariant : Invariant volume)
    (quiet : Stage.isQuiet stage = true) : Invariant (volume.goto id stage) := by
  have unclaimed : ∀ target stamp, ¬Claims target stamp stage := by
    intro target stamp claims
    cases quiet.symm.trans claims.not_quiet
  have claimed : ∀ other target stamp,
      Claims target stamp ((volume.goto id stage).stages other) →
        Claims target stamp (volume.stages other) := by
    intro other target stamp claims
    by_cases mover : other = id
    · subst mover
      simp only [goto, Function.update_self] at claims
      exact absurd claims (unclaimed target stamp)
    · simp only [goto, Function.update_of_ne mover] at claims
      exact claims
  refine ⟨invariant.consistent, ?_, ?_⟩
  · intro other active
    by_cases mover : other = id
    · subst mover
      simp only [goto, Function.update_self] at active
      cases quiet.symm.trans active
    · simp only [goto, Function.update_of_ne mover] at active ⊢
      exact invariant.owned other active
  · intro first second target stamp claims others
    exact invariant.exclusive first second target stamp (claimed first target stamp claims)
      (claimed second target stamp others)

section Advance

variable {directory committed : Directory} {id : Id} {stage : Stage} {target : Target}
  {stamp : Stamp}

omit [DecidableEq Id] in
theorem Invariant.mine (invariant : Invariant volume)
    (claims : Claims target stamp (volume.stages id)) :
    ∀ other, other ≠ id → ¬Claims target stamp (volume.stages other) :=
  fun other different others =>
    different (invariant.exclusive other id target stamp others claims)

/-- The transaction goes on without touching the directory. -/
theorem Invariant.proceed (invariant : Invariant volume)
    (claims : Claims target stamp (volume.stages id)) (claimed : Claims target stamp stage)
    (has : Has volume.directory target stamp stage) : Invariant (volume.goto id stage) :=
  invariant.advance (invariant.mine claims) invariant.consistent (fun _ _ _ _ => rfl)
    (.inr ⟨claimed, has⟩)

theorem update_elsewhere (directory : Directory) (mark : Mark) (entry : Option Entry) :
    ∀ other otherTarget otherStamp, ¬(otherTarget = target ∧ otherStamp = stamp) →
      Function.update directory (reserved mark target stamp) entry
        (reserved other otherTarget otherStamp) =
      directory (reserved other otherTarget otherStamp) := by
  intro other otherTarget otherStamp different
  rw [Function.update_of_ne]
  rw [Ne, reserved_inj]
  exact fun same => different same.2

/-- The transaction writes its temporary file. -/
theorem Invariant.fill (invariant : Invariant volume)
    (claims : Claims target stamp (volume.stages id)) {before content : List UInt8}
    (tmp : volume.directory (reserved .tmp target stamp) = some (.file before))
    (noAlt : volume.directory (reserved .alt target stamp) = none)
    (claimed : Claims target stamp stage)
    (has : Has (Function.update volume.directory (reserved .tmp target stamp)
      (some (.file content))) target stamp stage) :
    Invariant ({ volume with
      directory := Function.update volume.directory (reserved .tmp target stamp)
        (some (.file content)) }.goto id stage) := by
  have present : volume.directory (reserved .tmp target stamp) ≠ none := by
    rw [tmp]
    exact Option.some_ne_none _
  obtain ⟨_, original, file⟩ := invariant.consistent.known .tmp target stamp present
  exact invariant.advance (invariant.mine claims)
    (invariant.consistent.storeTmp noAlt (invariant.consistent.short .tmp target stamp present)
      file content)
    (update_elsewhere _ _ _) (.inr ⟨claimed, has⟩)

end Advance

/-! ## Every step keeps the invariant -/

theorem Invariant.copy (invariant : Invariant volume) {id : Id} {f : TFile}
    {directory : Directory} (clean : Clean f.fname)
    (noTmp : volume.directory f.tmpName = none) (noAlt : volume.directory f.altName = none)
    (copied : volume.directory.copyFile f.fname f.tmpName = some directory) :
    Invariant ({ volume with directory }.goto id (.copied f)) := by
  obtain ⟨short, content, file, rfl⟩ := Directory.copyFile_eq_some copied
  have names := f.names_of_short clean short
  rw [names.tmpName] at noTmp short ⊢
  rw [names.altName] at noAlt
  have mine : ∀ other, other ≠ id →
      ¬Claims ⟨f.fname, clean⟩ f.stamp (volume.stages other) := by
    intro other _ claims
    obtain ⟨target, stamp, claimed, has⟩ := invariant.owned other claims.not_quiet
    obtain ⟨rfl, rfl⟩ := claims.unique claimed
    rcases has.present claims.not_quiet with tmp | alt
    · exact tmp noTmp
    · exact alt noAlt
  have original : volume.committed (Target.mk f.fname clean).name = some (.file content) :=
    invariant.consistent.present file
  refine invariant.advance mine (invariant.consistent.storeTmp noAlt short original content)
    (update_elsewhere _ _ _) (.inr ⟨names, ⟨content, by simp⟩, ?_⟩)
  rw [Function.update_of_ne (by simp)]
  exact noAlt

section Steps

variable {id : Id} {f : TFile}

omit [DecidableEq Id] in
/-- A transaction with an open or a closed temporary file. -/
theorem Invariant.atCopied (invariant : Invariant volume)
    (at_ : volume.stages id = .copied f) :
    ∃ target stamp, Claims target stamp (volume.stages id) ∧ f.Names target stamp ∧
      TmpOnly volume.directory target stamp := by
  obtain ⟨target, stamp, claims, has⟩ := invariant.owned id (by rw [at_]; rfl)
  have names := claims
  rw [at_] at names has
  exact ⟨target, stamp, claims, names, has⟩

omit [DecidableEq Id] in
theorem Invariant.atOpened (invariant : Invariant volume) {view : List UInt8}
    (at_ : volume.stages id = .opened f view) :
    ∃ target stamp, Claims target stamp (volume.stages id) ∧ f.Names target stamp ∧
      TmpOnly volume.directory target stamp := by
  obtain ⟨target, stamp, claims, has⟩ := invariant.owned id (by rw [at_]; rfl)
  have names := claims
  rw [at_] at names has
  exact ⟨target, stamp, claims, names, has⟩

theorem tmpOnly_update {directory : Directory} {target : Target} {stamp : Stamp}
    (noAlt : directory (reserved .alt target stamp) = none) (content : List UInt8) :
    TmpOnly (Function.update directory (reserved .tmp target stamp) (some (.file content)))
      target stamp := by
  refine ⟨⟨content, Function.update_self ..⟩, ?_⟩
  rw [Function.update_of_ne (by simp)]
  exact noAlt

theorem Invariant.fopen (invariant : Invariant volume) (at_ : volume.stages id = .copied f)
    {directory : Directory} {mode : List Char} {view : List UInt8}
    (opened : volume.directory.fopen f.tmpName mode = some (directory, view)) :
    Invariant ({ volume with directory }.goto id (.opened f view)) := by
  obtain ⟨target, stamp, claims, names, ⟨content, tmp⟩, noAlt⟩ := invariant.atCopied at_
  rw [names.tmpName] at opened
  rcases Directory.fopen_file tmp opened with rfl | rfl
  · exact invariant.proceed claims names ⟨⟨content, tmp⟩, noAlt⟩
  · exact invariant.fill claims tmp noAlt names (tmpOnly_update noAlt [])

theorem Invariant.write (invariant : Invariant volume) {before : List UInt8}
    (at_ : volume.stages id = .opened f before) (view stored : List UInt8) :
    Invariant ({ volume with directory := volume.directory.store f.tmpName stored }.goto id
      (.opened f view)) := by
  obtain ⟨target, stamp, claims, names, ⟨content, tmp⟩, noAlt⟩ := invariant.atOpened at_
  rw [names.tmpName, Directory.store_file tmp]
  exact invariant.fill claims tmp noAlt names (tmpOnly_update noAlt stored)

theorem Invariant.fclose (invariant : Invariant volume) {view : List UInt8}
    (at_ : volume.stages id = .opened f view) :
    Invariant ({ volume with directory := volume.directory.store f.tmpName view }.goto id
      (.closed f view none)) := by
  obtain ⟨target, stamp, claims, names, ⟨content, tmp⟩, noAlt⟩ := invariant.atOpened at_
  rw [names.tmpName, Directory.store_file tmp]
  exact invariant.fill claims tmp noAlt names
    ⟨Function.update_self .., (tmpOnly_update noAlt view).2⟩

/-- The failing `tfopen` calls `tfclose` with an empty name, which renames
nothing. -/
theorem Invariant.part (invariant : Invariant volume) {written : List UInt8}
    {tmpCreated : Option Name} {directory : Directory}
    (at_ : volume.stages id = .closed f written tmpCreated)
    (moved : volume.directory.moveFile f.fname f.altName = some directory) :
    Invariant ({ volume with
      directory
      committed := Function.update volume.committed f.fname (some (.file written))
      }.goto id (.parted f tmpCreated)) := by
  obtain ⟨nonempty, entry, there, rfl⟩ := Directory.moveFile_eq_some moved
  obtain ⟨target, stamp, claims, has⟩ := invariant.owned id (by rw [at_]; rfl)
  have mine := invariant.mine claims
  rw [at_] at claims has
  cases tmpCreated with
  | some tmpName => exact absurd claims.1 nonempty
  | none =>
      have names : f.Names target stamp := claims
      rw [names.fname] at there ⊢
      rw [names.altName]
      have tmp : volume.directory (reserved .tmp target stamp) = some (.file written) := has.1
      refine invariant.advance mine (invariant.consistent.part there tmp) ?_
        (.inr ⟨claims, ?_, ?_⟩)
      · intro mark otherTarget otherStamp different
        rw [update_elsewhere _ _ _ _ _ _ different,
          Function.update_of_ne (Ne.symm target_ne_reserved)]
      · rw [Function.update_of_ne (by simp), Function.update_of_ne (Ne.symm target_ne_reserved), tmp]
        exact Option.some_ne_none _
      · rw [Function.update_self]
        exact Option.some_ne_none _

theorem Invariant.replace (invariant : Invariant volume) {tmpCreated : Option Name}
    {directory : Directory} (at_ : volume.stages id = .parted f tmpCreated)
    (moved : volume.directory.moveFile f.tmpName f.fname = some directory) :
    Invariant ({ volume with directory }.goto id (.replaced f tmpCreated)) := by
  obtain ⟨_, entry, there, rfl⟩ := Directory.moveFile_eq_some moved
  obtain ⟨target, stamp, claims, has⟩ := invariant.owned id (by rw [at_]; rfl)
  have mine := invariant.mine claims
  rw [at_] at claims has
  cases tmpCreated with
  | some tmpName => cases claims
  | none =>
      have names : f.Names target stamp := claims
      rw [names.tmpName] at there ⊢
      rw [names.fname]
      have both : Interrupted volume.directory target stamp := has
      refine invariant.advance mine (invariant.consistent.replace both there) ?_
        (.inr ⟨claims, ?_, ?_⟩)
      · intro mark otherTarget otherStamp different
        rw [Function.update_of_ne (Ne.symm target_ne_reserved),
          update_elsewhere _ _ _ _ _ _ different]
      · rw [Function.update_of_ne (Ne.symm target_ne_reserved), Function.update_self]
      · rw [Function.update_of_ne (Ne.symm target_ne_reserved), Function.update_of_ne (by simp)]
        exact both.2

theorem Invariant.discard (invariant : Invariant volume) {tmpCreated : Option Name}
    (at_ : volume.stages id = .replaced f tmpCreated) :
    Invariant ({ volume with directory := volume.directory.deleteFile f.altName }.goto id
      (leave tmpCreated)) := by
  obtain ⟨target, stamp, claims, has⟩ := invariant.owned id (by rw [at_]; rfl)
  have mine := invariant.mine claims
  rw [at_] at claims has
  cases tmpCreated with
  | some tmpName => cases claims
  | none =>
      have names : f.Names target stamp := claims
      obtain ⟨⟨content, file⟩, _⟩ := invariant.consistent.known .alt target stamp has.2
      rw [names.altName, Directory.deleteFile_file file]
      exact invariant.advance mine (invariant.consistent.dropAlt has.1)
        (update_elsewhere _ _ _) (.inl rfl)

theorem Invariant.tidy (invariant : Invariant volume) {tmpName : Name}
    (at_ : volume.stages id = .failed tmpName) :
    Invariant ({ volume with directory := volume.directory.deleteFile tmpName }.goto id
      .ended) := by
  obtain ⟨target, stamp, claims, has⟩ := invariant.owned id (by rw [at_]; rfl)
  have mine := invariant.mine claims
  rw [at_] at claims has
  obtain ⟨⟨content, file⟩, noAlt⟩ := has
  have name : tmpName = reserved .tmp target stamp := claims
  rw [name, Directory.deleteFile_file file]
  exact invariant.advance mine (invariant.consistent.dropTmp noAlt)
    (update_elsewhere _ _ _) (.inl rfl)

/-- The end of `tfclose` after a rename has failed. -/
theorem Invariant.leave (invariant : Invariant volume) {written : List UInt8}
    {tmpCreated : Option Name} (at_ : volume.stages id = .closed f written tmpCreated) :
    Invariant (volume.goto id (leave tmpCreated)) := by
  cases tmpCreated with
  | none => exact invariant.retire rfl
  | some tmpName =>
      obtain ⟨target, stamp, claims, has⟩ := invariant.owned id (by rw [at_]; rfl)
      have claimed := claims
      rw [at_] at claimed has
      exact invariant.proceed claims claimed.2 has

/-- A transaction past its first rename was opened successfully. -/
theorem Invariant.leave_ended (invariant : Invariant volume) {tmpCreated : Option Name}
    (at_ : volume.stages id = .parted f tmpCreated ∨
      volume.stages id = .replaced f tmpCreated) :
    Invariant (volume.goto id (Volume.leave tmpCreated)) := by
  cases tmpCreated with
  | none => exact invariant.retire rfl
  | some tmpName =>
      rcases at_ with at_ | at_
      all_goals
        obtain ⟨target, stamp, claims, _⟩ := invariant.owned id (by rw [at_]; rfl)
        rw [at_] at claims
        cases claims

end Steps

omit [DecidableEq Id] in
theorem Invariant.record (invariant : Invariant volume) (event : VolumeEvent Id) :
    Invariant (volume.record event) :=
  ⟨invariant.consistent, invariant.owned, invariant.exclusive⟩

theorem Moves.invariant {label : VolumeLabel Id} (invariant : Invariant volume)
    (regular : Regular volume label) (moves : Moves volume label next) : Invariant next := by
  cases moves with
  | refuse at_ => exact invariant.retire rfl
  | copy at_ copied => exact (invariant.copy regular.1 regular.2.1 regular.2.2 copied).record _
  | calloc at_ =>
      obtain ⟨target, stamp, claims, names, has⟩ := invariant.atCopied at_
      exact invariant.proceed claims names.tmpName has
  | fopen at_ opened => exact invariant.fopen at_ opened
  | fopenFails at_ =>
      obtain ⟨target, stamp, claims, names, has⟩ := invariant.atCopied at_
      exact invariant.proceed claims ⟨rfl, names.tmpName⟩ has
  | write at_ => exact invariant.write at_ _ _
  | fclose at_ => exact invariant.fclose at_
  | fcloseFails at_ => cases regular
  | part at_ moved => exact (invariant.part at_ moved).record _
  | partFails at_ => exact invariant.leave at_
  | replace at_ moved => exact invariant.replace at_ moved
  | replaceFails at_ => exact invariant.leave_ended (.inl at_)
  | discard at_ => exact invariant.discard at_
  | discardFails at_ => exact invariant.leave_ended (.inr at_)
  | tidy at_ => exact invariant.tidy at_
  | tidyFails at_ => exact invariant.retire rfl

omit [DecidableEq Id] in
theorem start_invariant {directory : Directory}
    (clean : ∀ name, directory name ≠ none → Clean name) :
    Invariant (start Id directory) where
  consistent := .refl clean
  owned := by
    intro id active
    cases active
  exclusive := by
    intro id other target stamp claims
    cases claims

/-! ## What is committed -/

/-- The file whose original a transaction may still move away. -/
def Stage.target? : Stage → Option Name
  | .copied f | .opened f _ | .closed f _ none => some f.fname
  | .idle | .closed _ _ (some _) | .parted .. | .replaced .. | .failed _ | .ended => none

/-- The committed content of a file on which a transaction was opened is the one
that the transaction has found, or one that was committed later.  Other files
are as they were at the start. -/
structure Explained (initial committed : Directory) (history : List (VolumeEvent Id)) :
    Prop where
  target : ∀ later id fname before earlier,
    history = later ++ VolumeEvent.opened id fname before :: earlier →
      committed fname = some (.file before) ∨
        ∃ other written, VolumeEvent.committed other fname written ∈ later ∧
          committed fname = some (.file written)
  other : ∀ name, (∀ id before, .opened id name before ∉ history) →
    committed name = initial name

omit [DecidableEq Id] in
/-- A transaction begins and finds the committed content. -/
theorem Explained.opened {initial committed : Directory} {history : List (VolumeEvent Id)}
    (explained : Explained initial committed history) {id : Id} {fname : Name}
    {before : List UInt8} (found : committed fname = some (.file before)) :
    Explained initial committed (.opened id fname before :: history) where
  target := by
    intro later otherId otherName otherBefore earlier split
    cases later with
    | nil =>
        obtain ⟨event, _⟩ := List.cons.inj split
        cases event
        exact .inl found
    | cons event later =>
        obtain ⟨_, rest⟩ := List.cons.inj split
        rcases explained.target later otherId otherName otherBefore earlier rest with
          same | ⟨other, written, mem, same⟩
        · exact .inl same
        · exact .inr ⟨other, written, List.mem_cons_of_mem _ mem, same⟩
  other := by
    intro name fresh
    exact explained.other name fun otherId content mem =>
      fresh otherId content (List.mem_cons_of_mem _ mem)

omit [DecidableEq Id] in
/-- A transaction that was opened before commits its content. -/
theorem Explained.committed {initial committed : Directory} {history : List (VolumeEvent Id)}
    (explained : Explained initial committed history) {id : Id} {fname : Name}
    {before written : List UInt8} (begun : .opened id fname before ∈ history) :
    Explained initial (Function.update committed fname (some (.file written)))
      (.committed id fname written :: history) where
  target := by
    intro later otherId otherName otherBefore earlier split
    cases later with
    | nil =>
        obtain ⟨event, _⟩ := List.cons.inj split
        cases event
    | cons event later =>
        obtain ⟨first, rest⟩ := List.cons.inj split
        subst first
        by_cases same : otherName = fname
        · subst same
          exact .inr ⟨id, written, List.mem_cons_self, Function.update_self ..⟩
        · rw [Function.update_of_ne same]
          rcases explained.target later otherId otherName otherBefore earlier rest with
            same | ⟨other, content, mem, same⟩
          · exact .inl same
          · exact .inr ⟨other, content, List.mem_cons_of_mem _ mem, same⟩
  other := by
    intro name fresh
    have different : name ≠ fname := by
      rintro rfl
      exact fresh id before (List.mem_cons_of_mem _ begun)
    rw [Function.update_of_ne different]
    exact explained.other name fun otherId content mem =>
      fresh otherId content (List.mem_cons_of_mem _ mem)

structure Recorded (initial : Directory) (volume : Volume Id) : Prop where
  explained : Explained initial volume.committed volume.history
  begun : ∀ id fname, Stage.target? (volume.stages id) = some fname →
    ∃ before, .opened id fname before ∈ volume.history

/-- A step that commits nothing and goes on with the same file. -/
theorem Recorded.goto {initial directory : Directory} {id : Id} {stage : Stage}
    (recorded : Recorded initial volume)
    (target : ∀ fname, Stage.target? stage = some fname →
      ∃ before, .opened id fname before ∈ volume.history) :
    Recorded initial ({ volume with directory }.goto id stage) where
  explained := recorded.explained
  begun := by
    intro other fname there
    by_cases mover : other = id
    · subst mover
      simp only [Volume.goto, Function.update_self] at there
      exact target fname there
    · simp only [Volume.goto, Function.update_of_ne mover] at there
      exact recorded.begun other fname there

theorem Recorded.copy {initial directory : Directory} {id : Id} {f : TFile}
    (recorded : Recorded initial volume) (invariant : Invariant volume) (clean : Clean f.fname)
    (copied : volume.directory.copyFile f.fname f.tmpName = some directory) :
    Recorded initial (({ volume with directory }.goto id (.copied f)).record
      (.opened id f.fname (volume.directory.content f.fname))) where
  explained := by
    obtain ⟨_, content, file, _⟩ := Directory.copyFile_eq_some copied
    have original : volume.committed (Target.mk f.fname clean).name = some (.file content) :=
      invariant.consistent.present file
    rw [Directory.content_file file]
    exact recorded.explained.opened original
  begun := by
    intro other fname there
    by_cases mover : other = id
    · subst mover
      simp only [record, Volume.goto, Function.update_self, Stage.target?,
        Option.some.injEq] at there
      subst there
      exact ⟨_, List.mem_cons_self⟩
    · simp only [record, Volume.goto, Function.update_of_ne mover] at there
      obtain ⟨before, mem⟩ := recorded.begun other fname there
      exact ⟨before, List.mem_cons_of_mem _ mem⟩

theorem Recorded.part {initial directory : Directory} {id : Id} {f : TFile}
    {written : List UInt8} {tmpCreated : Option Name} (recorded : Recorded initial volume)
    (invariant : Invariant volume) (at_ : volume.stages id = .closed f written tmpCreated)
    (moved : volume.directory.moveFile f.fname f.altName = some directory) :
    Recorded initial (({ volume with
      directory
      committed := Function.update volume.committed f.fname (some (.file written))
      }.goto id (.parted f tmpCreated)).record (.committed id f.fname written)) where
  explained := by
    cases tmpCreated with
    | none =>
        obtain ⟨before, begun⟩ := recorded.begun id f.fname (by rw [at_]; rfl)
        exact recorded.explained.committed begun
    | some tmpName =>
        obtain ⟨target, stamp, claims, _⟩ := invariant.owned id (by rw [at_]; rfl)
        rw [at_] at claims
        exact absurd claims.1 (Directory.moveFile_eq_some moved).1
  begun := by
    intro other fname there
    by_cases mover : other = id
    · subst mover
      simp only [record, Volume.goto, Function.update_self] at there
      cases there
    · simp only [record, Volume.goto, Function.update_of_ne mover] at there
      obtain ⟨before, mem⟩ := recorded.begun other fname there
      exact ⟨before, List.mem_cons_of_mem _ mem⟩

theorem leave_target? (tmpCreated : Option Name) :
    Stage.target? (leave tmpCreated) = none := by
  cases tmpCreated <;> rfl

theorem Moves.recorded {initial : Directory} {label : VolumeLabel Id}
    (invariant : Invariant volume) (regular : Regular volume label)
    (recorded : Recorded initial volume) (moves : Moves volume label next) :
    Recorded initial next := by
  have begun := recorded.begun
  cases moves with
  | copy at_ copied => exact recorded.copy invariant regular.1 copied
  | part at_ moved => exact recorded.part invariant at_ moved
  | refuse at_ | calloc at_ | fopenFails at_ | tidy at_ | tidyFails at_ =>
      refine recorded.goto fun fname there => ?_
      cases there
  | partFails at_ | replaceFails at_ | discard at_ | discardFails at_ =>
      refine recorded.goto fun fname there => ?_
      rw [leave_target?] at there
      cases there
  | replace at_ moved =>
      refine recorded.goto fun fname there => ?_
      cases there
  | fopen at_ | write at_ | fclose at_ | fcloseFails at_ =>
      refine recorded.goto fun fname there => ?_
      cases there
      exact begun _ _ (by rw [at_]; rfl)

omit [DecidableEq Id] in
theorem start_recorded (directory : Directory) :
    Recorded directory (start Id directory) where
  explained := {
    target := by
      intro later id fname before earlier split
      cases later <;> cases split
    other := fun _ _ => rfl }
  begun := by
    intro id fname there
    cases there

/-- After regular steps the directory is consistent with what was committed. -/
theorem recorded_of_regular {directory : Directory} {labels : List (VolumeLabel Id)}
    (clean : ∀ name, directory name ≠ none → Clean name)
    (reached : machine.run (start Id directory) labels = some volume)
    (regular : machine.AllSteps Regular (start Id directory) labels) :
    Consistent volume.directory volume.committed ∧
      Explained directory volume.committed volume.history := by
  have preserved : ∀ (before : Volume Id) label after,
      Invariant before ∧ Recorded directory before →
      Regular before label → machine.step before label = some after →
      Invariant after ∧ Recorded directory after := fun _ _ _ holds obeys stepped =>
    ⟨(moves_of_step stepped).invariant holds.1 obeys,
      (moves_of_step stepped).recorded holds.1 obeys holds.2⟩
  obtain ⟨invariant, recorded⟩ := Machine.run_invariant preserved
    ⟨start_invariant clean, start_recorded directory⟩ regular reached
  exact ⟨invariant.consistent, recorded.explained⟩

end Volume

end Tegenaria.LibFile
