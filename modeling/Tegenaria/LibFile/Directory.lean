import Tegenaria.Foundation.Separator
import Mathlib.Logic.Function.Basic

/-!
# Files of one directory

The system calls that transacted files are built on, and the names that
`tfopen` and `tfclose` give to the temporary and the alternative file.

The calls return `none` when they fail.  Names longer than the file system
allows are refused, so the names that `snprintf` cuts are never used.
-/

namespace Tegenaria.LibFile

open Foundation.Separator

abbrev Name := List Char

inductive Entry where
  | file (content : List UInt8)
  | directory
  deriving DecidableEq

/-- The entries of a directory by their names. -/
abbrev Directory := Name → Option Entry

namespace Directory

/-- The longest name of an entry. -/
def maxComponent : Nat := 255

def isFile (directory : Directory) (name : Name) : Bool :=
  match directory name with
  | some (.file _) => true
  | some .directory | none => false

/-- The content of a file. -/
def content (directory : Directory) (name : Name) : List UInt8 :=
  match directory name with
  | some (.file content) => content
  | some .directory | none => []

def fileExists (directory : Directory) (name : Name) : Bool :=
  (directory name).isSome

/-- `CopyFile(source, target, FALSE)`, which overwrites an existing target. -/
def copyFile (directory : Directory) (source target : Name) : Option Directory :=
  match directory source with
  | some (.file content) =>
      if source ≠ target ∧ target.length ≤ maxComponent ∧ directory target ≠ some .directory then
        some (Function.update directory target (some (.file content)))
      else none
  | some .directory | none => none

/-- `MoveFile`, which does not replace an existing target. -/
def moveFile (directory : Directory) (source target : Name) : Option Directory :=
  match directory source with
  | some entry =>
      if source ≠ [] ∧ target.length ≤ maxComponent ∧ directory target = none then
        some (Function.update (Function.update directory source none) target (some entry))
      else none
  | none => none

/-- `DeleteFile`, whose result nobody looks at. -/
def deleteFile (directory : Directory) (name : Name) : Directory :=
  if directory.isFile name then Function.update directory name none else directory

/-- `fopen(name, mode)` with the content that the new stream shows. -/
def fopen (directory : Directory) (name : Name) (mode : List Char) :
    Option (Directory × List UInt8) :=
  match directory name, mode.head? with
  | some (.file content), some 'r' | some (.file content), some 'a' => some (directory, content)
  | some (.file _), some 'w' | none, some 'w' | none, some 'a' =>
      some (Function.update directory name (some (.file [])), [])
  | _, _ => none

/-- What a stream writes to its file. -/
def store (directory : Directory) (name : Name) (content : List UInt8) : Directory :=
  if directory.isFile name then Function.update directory name (some (.file content))
  else directory

/-- `ListFiles(path, "*" + mask + "*", files, false)`.  The file system returns
the names in an order of its own. -/
def listFiles (order : List Name) (directory : Directory) (mask : List Char) : List Name :=
  order.filter fun name => directory.isFile name && decide (mask <:+: name)

/-- Every entry of the directory is found once. -/
structure ListedBy (directory : Directory) (order : List Name) : Prop where
  complete : ∀ name, directory name ≠ none → name ∈ order
  nodup : order.Nodup

theorem isFile_iff {directory : Directory} {name : Name} :
    directory.isFile name = true ↔ ∃ content, directory name = some (.file content) := by
  unfold isFile
  split <;> simp_all

theorem content_file {directory : Directory} {name : Name} {content : List UInt8}
    (file : directory name = some (.file content)) : directory.content name = content := by
  rw [Directory.content, file]

theorem deleteFile_file {directory : Directory} {name : Name} {content : List UInt8}
    (file : directory name = some (.file content)) :
    directory.deleteFile name = Function.update directory name none := by
  rw [deleteFile, if_pos (Iff.mpr isFile_iff ⟨content, file⟩)]

theorem deleteFile_absent {directory : Directory} {name : Name}
    (absent : directory name = none) : directory.deleteFile name = directory := by
  rw [deleteFile, if_neg]
  rw [isFile_iff]
  rintro ⟨content, file⟩
  cases absent.symm.trans file

theorem store_file {directory : Directory} {name : Name} {before : List UInt8}
    (file : directory name = some (.file before)) (content : List UInt8) :
    directory.store name content = Function.update directory name (some (.file content)) := by
  rw [store, if_pos (Iff.mpr isFile_iff ⟨before, file⟩)]

theorem copyFile_eq_some {directory next : Directory} {source target : Name}
    (copied : directory.copyFile source target = some next) :
    target.length ≤ maxComponent ∧ ∃ content, directory source = some (.file content) ∧
      next = Function.update directory target (some (.file content)) := by
  unfold copyFile at copied
  split at copied
  · split at copied
    case isTrue possible =>
      cases copied
      exact ⟨possible.2.1, _, ‹_›, rfl⟩
    case isFalse => cases copied
  · cases copied
  · cases copied

theorem moveFile_eq_some {directory next : Directory} {source target : Name}
    (moved : directory.moveFile source target = some next) :
    source ≠ [] ∧ ∃ entry, directory source = some entry ∧
      next = Function.update (Function.update directory source none) target (some entry) := by
  unfold moveFile at moved
  split at moved
  · split at moved
    case isTrue possible =>
      cases moved
      exact ⟨possible.1, _, ‹_›, rfl⟩
    case isFalse => cases moved
  · cases moved

/-- An existing file is opened as it is or made empty. -/
theorem fopen_file {directory next : Directory} {name : Name} {mode : List Char}
    {content view : List UInt8} (file : directory name = some (.file content))
    (opened : directory.fopen name mode = some (next, view)) :
    next = directory ∨ next = Function.update directory name (some (.file [])) := by
  unfold fopen at opened
  rw [file] at opened
  split at opened
  · cases opened
    exact .inl rfl
  · cases opened
    exact .inl rfl
  · cases opened
    exact .inr rfl
  all_goals simp_all

theorem mem_listFiles {directory : Directory} {order : List Name} {mask : List Char}
    (listed : directory.ListedBy order) {name : Name} :
    name ∈ listFiles order directory mask ↔
      (∃ content, directory name = some (.file content)) ∧ mask <:+: name := by
  rw [listFiles, List.mem_filter, Bool.and_eq_true, isFile_iff, decide_eq_true_iff]
  constructor
  · exact And.right
  · intro both
    obtain ⟨⟨content, file⟩, found⟩ := both
    refine ⟨listed.complete name ?_, ⟨content, file⟩, found⟩
    rw [file]
    exact Option.some_ne_none _

end Directory

/-! ## Reserved names -/

/-- The two kinds of files that a transaction makes beside its target. -/
inductive Mark where
  | tmp
  | alt
  deriving DecidableEq

namespace Mark

def word : Mark → List Char
  | tmp => ['t', 'm', 'p', '-']
  | alt => ['a', 'l', 't', '-']

/-- The text that `FileRecoverFailedIO` looks for. -/
def mask (mark : Mark) : List Char := '.' :: mark.word

theorem dot_notMem_word (mark : Mark) : '.' ∉ mark.word := by
  cases mark <;> decide

theorem word_length (mark : Mark) : mark.word.length = 4 := by
  cases mark <;> rfl

theorem word_injective : Function.Injective word := by
  intro mark other same
  cases mark <;> cases other <;> first | rfl | cases same

end Mark

/-- The name contains neither `.tmp-` nor `.alt-`. -/
def Clean (name : Name) : Prop :=
  ¬Mark.tmp.mask <:+: name ∧ ¬Mark.alt.mask <:+: name

instance (name : Name) : Decidable (Clean name) :=
  inferInstanceAs (Decidable (¬_ ∧ ¬_))

/-- The name of a file that transactions may be opened on. -/
@[ext] structure Target where
  name : Name
  clean : Clean name

/-- The printed numbers at the end of a reserved name. -/
@[ext] structure Stamp where
  digits : List Char
  dot_notMem : '.' ∉ digits

/-- The name of a temporary or an alternative file. -/
def reserved (mark : Mark) (target : Target) (stamp : Stamp) : Name :=
  target.name ++ '.' :: (mark.word ++ stamp.digits)

section Reserved

variable {mark other : Mark} {target otherTarget : Target} {stamp otherStamp : Stamp}

theorem Clean.not_mask {name : Name} (clean : Clean name) (mark : Mark) :
    ¬mark.mask <:+: name := by
  cases mark with
  | tmp => exact clean.1
  | alt => exact clean.2

@[grind =, simp]
theorem reserved_inj : reserved mark target stamp = reserved other otherTarget otherStamp ↔
    mark = other ∧ target = otherTarget ∧ stamp = otherStamp := by
  have absent : ∀ (mark : Mark) (stamp : Stamp), '.' ∉ mark.word ++ stamp.digits := by
    intro mark stamp
    simp [mark.dot_notMem_word, stamp.dot_notMem]
  constructor
  · intro same
    obtain ⟨targets, tails⟩ := (append_cons_inj (absent _ _) (absent _ _)).mp same
    obtain ⟨words, stamps⟩ := List.append_inj tails (by rw [mark.word_length, other.word_length])
    exact ⟨Mark.word_injective words, Target.ext targets, Stamp.ext stamps⟩
  · rintro ⟨rfl, rfl, rfl⟩
    rfl

theorem mask_infix_reserved :
    other.mask <:+: reserved mark target stamp ↔ other = mark := by
  constructor
  · intro found
    by_contra different
    have words : other.word ≠ mark.word := fun same => different (Mark.word_injective same)
    refine not_infix_of_ne mark.dot_notMem_word other.dot_notMem_word ?_ words
      (target.clean.not_mask other) stamp.dot_notMem found
    rw [other.word_length, mark.word_length]
  · rintro rfl
    exact ⟨target.name, stamp.digits, by simp [reserved, Mark.mask]⟩

/-- The search for the files of a target also finds those of longer names. -/
theorem append_mask_infix_reserved {name : Name} :
    name ++ mark.mask <:+: reserved mark target stamp ↔ name <:+ target.name :=
  append_infix_iff mark.dot_notMem_word (target.clean.not_mask mark) stamp.dot_notMem name

theorem reserved_not_clean : ¬Clean (reserved mark target stamp) := fun clean =>
  clean.not_mask mark (mask_infix_reserved.mpr rfl)

@[grind ., simp]
theorem target_ne_reserved : target.name ≠ reserved mark otherTarget stamp := by
  intro same
  have clean := target.clean
  rw [same] at clean
  exact reserved_not_clean clean

theorem reserved_length (mark : Mark) (target : Target) (stamp : Stamp) :
    (reserved mark target stamp).length = target.name.length + 5 + stamp.digits.length := by
  rw [reserved, List.length_append, List.length_cons, List.length_append, mark.word_length]
  omega

end Reserved

/-! ## Names as the code builds them -/

/-- `MAX_PATH` -/
def maxPath : Nat := 260

/-- A buffer of `MAX_PATH` bytes keeps room for the terminating zero. -/
def snprintf (text : List Char) : Name := text.take (maxPath - 1)

/-- `%d` -/
def printed : Int → List Char
  | .ofNat value => Nat.toDigits 10 value
  | .negSucc value => '-' :: Nat.toDigits 10 (value + 1)

theorem dot_notMem_printed (value : Int) : '.' ∉ printed value := by
  have digits : ∀ number : Nat, '.' ∉ Nat.toDigits 10 number := by
    intro number mem
    have digit := Nat.isDigit_of_mem_toDigits (by decide) (by decide) mem
    revert digit
    decide
  cases value with
  | ofNat number => exact digits number
  | negSucc number => simp [printed, digits]

/-- The part of a `TFILE` that survives until `tfclose`. -/
structure TFile where
  fname : Name
  cookie : Int
  timestamp : Int
  deriving DecidableEq

namespace TFile

/-- `"%s.tmp-%d%d"` and `"%s.alt-%d%d"` -/
def markedName (mark : Mark) (f : TFile) : Name :=
  snprintf (f.fname ++ mark.mask ++ printed f.cookie ++ printed f.timestamp)

def tmpName (f : TFile) : Name := f.markedName .tmp

def altName (f : TFile) : Name := f.markedName .alt

/-- What `calloc` returns. -/
def zero : TFile := ⟨[], 0, 0⟩

def stamp (f : TFile) : Stamp :=
  ⟨printed f.cookie ++ printed f.timestamp, by simp [dot_notMem_printed]⟩

/-- The names of the files of a transaction. -/
structure Names (f : TFile) (target : Target) (stamp : Stamp) : Prop where
  fname : f.fname = target.name
  tmpName : f.tmpName = reserved .tmp target stamp
  altName : f.altName = reserved .alt target stamp

/-- A name that the file system accepts was not cut. -/
theorem names_of_short (f : TFile) (clean : Clean f.fname)
    (short : f.tmpName.length ≤ Directory.maxComponent) : f.Names ⟨f.fname, clean⟩ f.stamp := by
  have marked : ∀ mark : Mark, f.markedName mark = reserved mark ⟨f.fname, clean⟩ f.stamp := by
    intro mark
    unfold tmpName markedName snprintf at short
    unfold markedName snprintf reserved stamp
    rw [List.length_take] at short
    have fits : (f.fname ++ mark.mask ++ printed f.cookie ++ printed f.timestamp).length ≤
        maxPath - 1 := by
      simp only [Directory.maxComponent, maxPath, Mark.mask, List.length_append,
        List.length_cons, Mark.word_length] at short ⊢
      omega
    rw [List.take_of_length_le fits]
    simp [Mark.mask]
  exact ⟨rfl, marked .tmp, marked .alt⟩

end TFile

/-! ## Names as the recovery reads them -/

/-- `name.substr(0, lastDot)` -/
def originalName (name : Name) : Name :=
  match findLastOf '.' name with
  | some lastDot => name.take lastDot
  | none => name

/-- `memcpy(&name[lastDot] + 1, text, 3)` -/
def overwriteMark (mark : Mark) (name : Name) : Name :=
  match findLastOf '.' name with
  | some lastDot => name.take (lastDot + 1) ++ mark.word.take 3 ++ name.drop (lastDot + 4)
  | none => mark.word.take 3 ++ name.drop 3

theorem findLastOf_reserved (mark : Mark) (target : Target) (stamp : Stamp) :
    findLastOf '.' (reserved mark target stamp) = some target.name.length := by
  refine findLastOf_append ?_ target.name
  simp [mark.dot_notMem_word, stamp.dot_notMem]

@[simp]
theorem originalName_reserved (mark : Mark) (target : Target) (stamp : Stamp) :
    originalName (reserved mark target stamp) = target.name := by
  simp only [originalName, findLastOf_reserved]
  exact List.take_left

@[simp]
theorem overwriteMark_reserved (mark other : Mark) (target : Target) (stamp : Stamp) :
    overwriteMark other (reserved mark target stamp) = reserved other target stamp := by
  simp only [overwriteMark, findLastOf_reserved]
  unfold reserved
  rw [List.take_length_add_append, List.drop_length_add_append]
  cases mark <;> cases other <;> simp [Mark.word]

end Tegenaria.LibFile
