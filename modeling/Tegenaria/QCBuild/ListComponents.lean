import Tegenaria.Foundation.Outcome
import Tegenaria.LibFile.ListDirs
import Tegenaria.QCBuild.RelativePath
import Tegenaria.QCBuild.SourceReuse
import Tegenaria.QCBuild.UsedBy

/-!
# The components of a project

`ListComponents` enters the directories of a project one after the other and loads what it finds there
into one object, and the project above each component into a second one.  Both objects are used again in
the next directory.  This does no harm but in one case: a file with a line that cannot be split leaves an
object with a type and without `COMP_DIR`, and the next `set("ROOT", ".")` reads outside of a string.

A working directory is known by the name that `FileGetDir` gives to it.  The files do not change during
the call.
-/

namespace Tegenaria.QCBuild

open Foundation Foundation.Outcome
open LibStr

def MAX_PATH : Nat := 260

/-- `/qcbuild.src` -/
def qcbuildSrc : Text := ['/', 'q', 'c', 'b', 'u', 'i', 'l', 'd', '.', 's', 'r', 'c']

/-- What the system shows of the directories and files of a project. -/
structure ProjectFiles where
  /-- The names of working directories. -/
  isDir : Text → Prop
  /-- The directory that a path leads to, if it can be entered. -/
  enter : Text → Text → Option Text
  /-- What `FileLoad` reads. -/
  load : Text → Option Text
  /-- The tree that `ListDirs` sees in a working directory. -/
  tree : Text → LibFile.FileSystem
  isDir_enter : ∀ start path dir, enter start path = some dir → isDir dir
  enter_again : ∀ start dir, isDir dir → enter start dir = some dir
  enter_parent : ∀ start dir, isDir dir → 3 < dir.length →
    ∃ outer, enter start (dir ++ RelativePath.parent) = some outer ∧ outer.length < dir.length
  nonempty : ∀ dir, isDir dir → dir ≠ []
  /-- `FileGetDir` has a place for the name. -/
  short : ∀ dir, isDir dir → dir.length + 1 < MAX_PATH

/-- `FileSetDir`.  The working directory stays the same where the call fails. -/
def ProjectFiles.fileSetDir (files : ProjectFiles) (workingDir path : Text) : Text :=
  if path = [] then workingDir else (files.enter workingDir path).getD workingDir

namespace SourceInfo

/-- The constructor. -/
def initial : SourceInfo :=
  clear { type := .unknown, dependsResolved := false, vars := fun _ => none, dependsSet := ∅, privateDirsSet := ∅ }

/-- The object after a call of `loadFromFile`, and whether the call succeeds. -/
def tryLoad (info : SourceInfo) (targetMachine workingDir : Text) (loaded : Option Text) :
    Except LoadFailure (SourceInfo × Bool) :=
  match info.loadFromFile targetMachine workingDir loaded with
  | .ok result => .ok (result, true)
  | .error .notLoaded => .ok (info, false)
  | .error (.operatorExpected result) => .ok (result, false)
  | .error failure => .error failure

section Load

variable (files : ProjectFiles) (targetMachine workingDir : Text) (info : SourceInfo)

/-- `SourceInfo::loadComponent` -/
def loadComponent : Except LoadFailure (SourceInfo × Bool) :=
  if MAX_PATH < workingDir.length + qcbuildSrc.length then .error .outsideString
  else (info.set rootName ['.'] false).bind fun info =>
    info.tryLoad targetMachine workingDir (files.load (workingDir ++ qcbuildSrc))

/-- The loop of `loadProject`.  It ends with the object, whether a project was found, and the directory
that was reached. -/
def loadProjectLoop : Nat → SourceInfo → Text → Text → Except LoadFailure (SourceInfo × Bool × Text)
  | 0, _, _, _ => .error .unfinished
  | fuel + 1, info, rootDir, relRootDir =>
      if rootDir.length ≤ 3 then .ok (info, false, rootDir)
      else if MAX_PATH < rootDir.length + qcbuildSrc.length then .error .outsideString
      else (info.tryLoad targetMachine rootDir (files.load (rootDir ++ qcbuildSrc))).bind fun (info, loaded) =>
        if loaded ∧ info.type = .project then
          (info.set rootName relRootDir false).map fun info => (info, true, rootDir)
        else if MAX_PATH < relRootDir.length + RelativePath.parent.length then .error .outsideString
        else loadProjectLoop fuel info (files.fileSetDir rootDir (rootDir ++ RelativePath.parent))
          (relRootDir ++ RelativePath.parent)

/-- `SourceInfo::loadProject`, with the working directory that it leaves.  Every round of the loop makes
the name of the directory shorter. -/
def loadProject : Except LoadFailure (SourceInfo × Bool × Text) :=
  (loadProjectLoop files targetMachine (workingDir.length + 1) info workingDir ['.']).bind
    fun (info, found, rootDir) =>
      let restored := files.fileSetDir rootDir workingDir
      if found then (info.set compDirName ['.'] false).map fun info => (info, true, restored)
      else .ok (info, false, restored)

end Load

theorem Alike.get {first second : SourceInfo} (alike : first.Alike second) (lvalue : Text) :
    first.get lvalue = second.get lvalue := by
  rw [SourceInfo.get, SourceInfo.get, alike.vars]

theorem Alike.isset {first second : SourceInfo} (alike : first.Alike second) (lvalue : Text) :
    first.isset lvalue = second.isset lvalue := by
  rw [SourceInfo.isset, SourceInfo.isset, alike.get]

end SourceInfo

namespace EndAlike

variable {α : Type} {related weaker : α → α → Prop} {left right : Except LoadFailure α}

theorem imp (ends : EndAlike related left right)
    (weaken : ∀ first second, related first second → weaker first second) : EndAlike weaker left right := by
  cases ends with
  | ok results => exact .ok (weaken _ _ results)
  | operatorExpected alike => exact .operatorExpected alike
  | fatal => exact .fatal
  | outsideString => exact .outsideString

/-- The results that are related are the results of the two computations. -/
theorem attach (ends : EndAlike related left right) :
    EndAlike (fun first second => related first second ∧ left = .ok first ∧ right = .ok second) left right := by
  cases ends with
  | ok results => exact .ok ⟨results, rfl, rfl⟩
  | operatorExpected alike => exact .operatorExpected alike
  | fatal => exact .fatal
  | outsideString => exact .outsideString

theorem result_left (ends : EndAlike related left right) {first : α} (done : left = .ok first) :
    ∃ second, right = .ok second ∧ related first second := by
  subst done
  cases ends with
  | ok results => exact ⟨_, rfl, results⟩

theorem result_right (ends : EndAlike related left right) {second : α} (done : right = .ok second) :
    ∃ first, left = .ok first ∧ related first second := by
  subst done
  cases ends with
  | ok results => exact ⟨_, rfl, results⟩

end EndAlike

namespace ListComponents

open SourceInfo

def compDirRelName : Text := ['C', 'O', 'M', 'P', '_', 'D', 'I', 'R', '_', 'R', 'E', 'L']

def copyrightName : Text := ['C', 'O', 'P', 'Y', 'R', 'I', 'G', 'H', 'T']

def licenseName : Text := ['L', 'I', 'C', 'E', 'N', 'S', 'E']

def unknownLicense : Text := ['U', 'n', 'k', 'n', 'o', 'w', 'n']

/-- `(inherited from project's root)` -/
def inheritedNote : Text :=
  ['(', 'i', 'n', 'h', 'e', 'r', 'i', 't', 'e', 'd', ' ', 'f', 'r', 'o', 'm', ' ', 'p', 'r', 'o', 'j', 'e', 'c',
    't', '\x27', 's', ' ', 'r', 'o', 'o', 't', ')']

def nodeModules : Text := ['n', 'o', 'd', 'e', '_', 'm', 'o', 'd', 'u', 'l', 'e', 's']

/-- The directories that the loop skips. -/
def skipped (dir : Text) : Bool := decide (nodeModules <:+: dir ∨ 240 ≤ dir.length)

/-- A variable that is missing is taken from the project. -/
def inheritVar (pi ci : SourceInfo) (lvalue : Text) (missing : Bool) : Except LoadFailure SourceInfo :=
  if missing ∧ pi.isset lvalue then
    (ci.set lvalue (pi.get lvalue) false).bind fun ci => ci.set lvalue inheritedNote true
  else .ok ci

/-- What is added to a component before it is put on the list. -/
def importComponent (pi ci : SourceInfo) (dir : Text) : Except LoadFailure SourceInfo :=
  (ci.set rootName (pi.get rootName) false).bind fun ci =>
    (ci.set compDirRelName dir false).bind fun ci =>
      (inheritVar pi ci copyrightName (!ci.isset copyrightName)).bind fun ci =>
        inheritVar pi ci licenseName (ci.get licenseName = unknownLicense)

/-- The working directory and the local variables of `ListComponents`. -/
structure State where
  workingDir : Text
  pi : SourceInfo
  ci : SourceInfo
  comps : List SourceInfo
  titleToIdMap : OrderedMap Text Nat

/-- What `ListComponents` leaves. -/
structure Result where
  exitCode : Int
  workingDir : Text
  pi : SourceInfo
  comps : List SourceInfo

section Model

variable (files : ProjectFiles) (targetMachine currentDir : Text)

/-- The body of the first loop. -/
def visit (state : State) (dir : Text) : Except LoadFailure State :=
  if skipped dir then .ok state
  else
    let workingDir := files.fileSetDir (files.fileSetDir state.workingDir currentDir) dir
    (state.ci.loadComponent files targetMachine workingDir).bind fun (ci, loaded) =>
      if loaded then
        (state.pi.loadProject files targetMachine workingDir).bind fun (pi, _, workingDir) =>
          if ci.type ≠ .project then
            (importComponent pi ci dir).map fun ci =>
              { workingDir, pi, ci
                comps := state.comps ++ [ci]
                titleToIdMap := state.titleToIdMap.assign ci.title state.comps.length }
          else .ok { state with workingDir, pi, ci }
      else .ok { state with workingDir, ci }

/-- The loops behind the first call of `loadComponent`. -/
def importAll (pi : SourceInfo) (workingDir : Text) (dirs : List Text) : Except LoadFailure State :=
  dirs.foldlM (visit files targetMachine currentDir)
    { workingDir, pi, ci := initial, comps := [], titleToIdMap := .empty }

/-- The second loop. -/
def useEach (state : State) : List SourceInfo :=
  ((List.range state.comps.length).foldl UsedByState.useAll
    { map := state.titleToIdMap, comps := state.comps }).comps

/-- `ListComponents` for the directories that `ListDirs` leaves. -/
def listComponents (dirs : List Text) (pi : SourceInfo) : Except LoadFailure Result :=
  (pi.loadComponent files targetMachine currentDir).bind fun (pi, loaded) =>
    if loaded then
      (importAll files targetMachine currentDir pi (files.fileSetDir currentDir (pi.get rootName)) dirs).map
        fun state =>
          { exitCode := 0, workingDir := files.fileSetDir state.workingDir currentDir
            pi := state.pi, comps := useEach state }
    else .ok { exitCode := -1, workingDir := currentDir, pi, comps := [] }

/-! ## A directory by itself -/

/-- The variables before the first round. -/
def freshState : State :=
  { workingDir := currentDir, pi := initial, ci := initial, comps := [], titleToIdMap := .empty }

/-- The component in a directory, read into objects that nobody has used before. -/
def componentAt (dir : Text) : Except LoadFailure (Option SourceInfo) :=
  (visit files targetMachine currentDir (freshState currentDir) dir).map fun state =>
    state.comps.head?

/-- The climb from a directory with a component finds the root of a project. -/
def InProject (dir : Text) : Prop :=
  ∀ ci pi found workingDir,
    initial.loadComponent files targetMachine (files.fileSetDir currentDir dir) = .ok (ci, true) →
    initial.loadProject files targetMachine (files.fileSetDir currentDir dir) = .ok (pi, found, workingDir) →
    found = true

/-- A part of a project knows its directory. -/
def Located (info : SourceInfo) : Prop := info.isPart = true → info.get compDirName ≠ []

/-- The file in a directory has a line that cannot be split behind the type of a part, and no `COMP_DIR`. -/
def Spoils (dir : Text) : Prop :=
  ∃ left, initial.loadComponent files targetMachine (files.fileSetDir currentDir dir) = .ok (left, false) ∧
    ¬ Located left

end Model

/-! ## Assignments -/

section Assign

variable {info info' : SourceInfo} {lvalue rvalue name : Text} {concat : Bool}

theorem assign_type (plain : sameNoCase lvalue typeName = false) :
    (info.assign lvalue rvalue concat).type = info.type := by
  rw [assign, plain, if_neg Bool.false_ne_true]
  split_ifs <;> rfl

theorem get_assign_other (plain : sameNoCase lvalue typeName = false) (other : name ≠ lvalue)
    (nonempty : name ≠ []) : (info.assign lvalue rvalue concat).get name = info.get name := by
  rw [assign, plain, if_neg Bool.false_ne_true]
  split_ifs with _ _ empty
  · rw [get_setVar, if_neg other]
  · rw [get_setVar, if_neg other]
  · rw [empty, get_eraseVar, if_neg nonempty]
  · rw [get_setVar, if_neg other]

/-- A value that is not empty is the value afterwards, an empty one leaves what was there. -/
theorem get_assign_self (plain : sameNoCase lvalue typeName = false) (nonempty : lvalue ≠ []) :
    (info.assign lvalue rvalue false).get lvalue = if rvalue = [] then info.get lvalue else rvalue := by
  rw [assign, plain, if_neg Bool.false_ne_true, if_neg Bool.false_ne_true]
  split_ifs with empty
  · rw [empty, get_eraseVar, if_neg nonempty]
  · rw [get_setVar, if_pos rfl]

/-- The names for which `set` does no more than `assign`. -/
def Plain (lvalue : Text) : Prop :=
  sameNoCase lvalue typeName = false ∧ sameNoCase lvalue dependsName = false ∧
    sameNoCase lvalue privateDirsName = false ∧ sameNoCase lvalue rootName = false

theorem set_plain (plain : Plain lvalue) : info.set lvalue rvalue concat = .ok (info.assign lvalue rvalue concat) := by
  obtain ⟨-, depends, privateDirs, root⟩ := plain
  simp [SourceInfo.set, depends, privateDirs, root]

theorem Located.of_same (located : Located info) (type : info'.type = info.type)
    (compDir : info'.get compDirName = info.get compDirName) : Located info' := by
  intro part
  rw [compDir]
  apply located
  rwa [isPart, ← type, ← isPart]

theorem Located.assign (located : Located info) (plain : sameNoCase lvalue typeName = false)
    (other : compDirName ≠ lvalue) : Located (info.assign lvalue rvalue concat) :=
  located.of_same (assign_type plain) (get_assign_other plain other (by decide))

theorem Located.setRoot (located : info.get compDirName ≠ []) (done : info.setRoot = .ok info') : Located info' := by
  rw [SourceInfo.setRoot] at done
  cases relative : createRelativePath (info.get compDirName) (info.get rootName) with
  | none => simp only [relative, reduceCtorEq] at done
  | some path =>
      simp only [relative, Except.ok.injEq] at done
      have inner : Located (info.assign compDirName path false) := by
        intro _
        rw [get_assign_self (by decide) (by decide)]
        split_ifs with empty
        · exact located
        · exact empty
      exact done ▸ inner.assign (by decide) (by decide)

/-- A call of `set` for `ROOT` leaves a part in its place. -/
theorem Located.set_root (located : Located info) (done : info.set rootName rvalue false = .ok info') :
    Located info' := by
  have depends : sameNoCase rootName dependsName = false := by decide
  have privateDirs : sameNoCase rootName privateDirsName = false := by decide
  have assigned : Located (info.assign rootName rvalue false) := located.assign (by decide) (by decide)
  simp only [SourceInfo.set, depends, privateDirs, Bool.false_eq_true, if_false] at done
  split_ifs at done with part
  · exact Located.setRoot (assigned part.1) done
  · cases done
    exact assigned

/-- `set("ROOT", ".")` reads outside of the empty string. -/
theorem set_root_spoilt (spoilt : ¬ Located info) : info.set rootName ['.'] false = .error .outsideString := by
  have depends : sameNoCase rootName dependsName = false := by decide
  have privateDirs : sameNoCase rootName privateDirsName = false := by decide
  obtain ⟨part, missing⟩ := Classical.not_imp.mp spoilt
  have partAfter : (info.assign rootName ['.'] false).isPart = true := by
    rwa [isPart, assign_type (by decide), ← isPart]
  have missingAfter : (info.assign rootName ['.'] false).get compDirName = [] := by
    rw [get_assign_other (by decide) (by decide) (by decide)]
    exact not_not.mp missing
  have root : sameNoCase rootName rootName = true := by decide
  simp [SourceInfo.set, depends, privateDirs, root, partAfter, SourceInfo.setRoot, missingAfter, createRelativePath]

/-- Else it succeeds. -/
theorem set_root_dot (located : Located info) : ∃ info', info.set rootName ['.'] false = .ok info' := by
  have depends : sameNoCase rootName dependsName = false := by decide
  have privateDirs : sameNoCase rootName privateDirsName = false := by decide
  have assigned : Located (info.assign rootName ['.'] false) := located.assign (by decide) (by decide)
  have root : (info.assign rootName ['.'] false).get rootName = ['.'] := get_assign_self (by decide) (by decide)
  simp only [SourceInfo.set, depends, privateDirs, Bool.false_eq_true, if_false]
  split_ifs with part
  · have nonempty := assigned part.1
    simp only [SourceInfo.setRoot, root, createRelativePath, if_neg nonempty]
    exact ⟨_, rfl⟩
  · exact ⟨_, rfl⟩

end Assign

/-! ## Loading -/

section Loading

variable {files : ProjectFiles} {targetMachine workingDir : Text} {first second info : SourceInfo}

theorem Alike.located_iff (alike : first.Alike second) : Located first ↔ Located second := by
  rw [Located, Located, isPart, isPart, alike.type, alike.get]

/-- Both calls succeed or neither does, and their objects are alike. -/
def LoadedAlike (left right : SourceInfo × Bool) : Prop := left.2 = right.2 ∧ left.1.Alike right.1

/-- Both calls succeed, with objects that are alike, or neither does. -/
def FoundAlike (left right : SourceInfo × Bool) : Prop :=
  left.2 = right.2 ∧ (left.2 = true → left.1.Alike right.1)


theorem tryLoad_alike (first second : SourceInfo) (targetMachine workingDir text : Text) :
    EndAlike LoadedAlike (first.tryLoad targetMachine workingDir (some text))
      (second.tryLoad targetMachine workingDir (some text)) := by
  have ends := loadFromFile_alike first second targetMachine workingDir text
  simp only [tryLoad]
  generalize first.loadFromFile targetMachine workingDir (some text) = left at ends ⊢
  generalize second.loadFromFile targetMachine workingDir (some text) = right at ends ⊢
  cases ends with
  | ok alike => exact .ok ⟨rfl, alike⟩
  | operatorExpected alike => exact .ok ⟨rfl, alike⟩
  | fatal => exact .fatal
  | outsideString => exact .outsideString

theorem tryLoad_found (first second : SourceInfo) (targetMachine workingDir : Text) (loaded : Option Text) :
    EndAlike FoundAlike (first.tryLoad targetMachine workingDir loaded)
      (second.tryLoad targetMachine workingDir loaded) := by
  cases loaded with
  | none => exact .ok ⟨rfl, fun success => absurd success Bool.false_ne_true⟩
  | some text =>
      exact (tryLoad_alike first second targetMachine workingDir text).imp fun _ _ same => ⟨same.1, fun _ => same.2⟩

/-- An object that was loaded knows its directory. -/
theorem located_of_loaded {loaded : Option Text} {result : SourceInfo} (nonempty : workingDir ≠ [])
    (done : info.tryLoad targetMachine workingDir loaded = .ok (result, true)) : Located result := by
  rw [tryLoad] at done
  cases loaded with
  | none => simp [loadFromFile] at done
  | some text =>
      have plain : Plain compDirName := by unfold Plain; decide
      rw [loadFromFile] at done
      generalize Reader.loadLines targetMachine (text.length + 1) _ _ = reading at done
      cases reading with
      | error failure => cases failure <;> simp [Except.bind] at done
      | ok reader =>
          simp only [Except.bind, set_plain plain, Except.ok.injEq, Prod.mk.injEq, and_true] at done
          intro _
          rw [← done, get_assign_self plain.1 (by decide), if_neg nonempty]
          exact nonempty

/-- The first call is made with an object that was used before, the second one with a new one. -/
structure ComponentAlike (left right : SourceInfo × Bool) : Prop where
  loaded : left.2 = right.2
  alike : left.2 = true → left.1.Alike right.1
  located : Located left.1 ↔ Located right.1
  kept : left.2 = true → Located left.1

theorem loadComponent_alike (nonempty : workingDir ≠ []) (located : Located info) :
    EndAlike ComponentAlike (info.loadComponent files targetMachine workingDir)
      (initial.loadComponent files targetMachine workingDir) := by
  have locatedNew : Located initial := fun part => absurd part (by decide)
  obtain ⟨used, usedSet⟩ := set_root_dot located
  obtain ⟨new, newSet⟩ := set_root_dot locatedNew
  rw [loadComponent, loadComponent]
  split_ifs with long
  · exact .outsideString
  · rw [usedSet, newSet]
    change EndAlike ComponentAlike (used.tryLoad _ _ _) (new.tryLoad _ _ _)
    cases read : files.load (workingDir ++ qcbuildSrc) with
    | none =>
        have usedLocated := located.set_root usedSet
        have newLocated := locatedNew.set_root newSet
        exact .ok ⟨rfl, fun loaded => absurd loaded Bool.false_ne_true, iff_of_true usedLocated newLocated,
          fun _ => usedLocated⟩
    | some text =>
        have ends := tryLoad_alike used new targetMachine workingDir text
        have kept (result : SourceInfo)
            (done : used.tryLoad targetMachine workingDir (some text) = .ok (result, true)) : Located result :=
          located_of_loaded nonempty done
        generalize used.tryLoad targetMachine workingDir (some text) = left at ends kept ⊢
        generalize new.tryLoad targetMachine workingDir (some text) = right at ends ⊢
        cases ends with
        | ok alike =>
            rename_i left right
            obtain ⟨loaded, alike⟩ := alike
            refine .ok ⟨loaded, fun _ => alike, Alike.located_iff alike, fun success => kept left.1 ?_⟩
            rw [← success]
        | operatorExpected alike => exact .operatorExpected alike
        | fatal => exact .fatal
        | outsideString => exact .outsideString

/-- No component is loaded into an object that is not in its place. -/
theorem loadComponent_spoilt (spoilt : ¬ Located info) :
    info.loadComponent files targetMachine workingDir = .error .outsideString := by
  rw [loadComponent, set_root_spoilt spoilt]
  split_ifs <;> rfl

/-- The climb reaches the same directory, and if it finds a project, then the same one. -/
def ClimbAlike (left right : SourceInfo × Bool × Text) : Prop :=
  left.2 = right.2 ∧ (left.2.1 = true → left.1.Alike right.1)

theorem loadProjectLoop_alike {fuel : Nat} {rootDir : Text} (first second : SourceInfo) (relRootDir : Text)
    (isDir : files.isDir rootDir) (enough : rootDir.length < fuel) :
    EndAlike ClimbAlike (loadProjectLoop files targetMachine fuel first rootDir relRootDir)
      (loadProjectLoop files targetMachine fuel second rootDir relRootDir) := by
  induction fuel generalizing first second rootDir relRootDir with
  | zero => exact absurd enough (Nat.not_lt_zero _)
  | succ fuel ih =>
      rw [loadProjectLoop, loadProjectLoop]
      by_cases short : rootDir.length ≤ 3
      · rw [if_pos short, if_pos short]
        exact .ok ⟨rfl, fun found => absurd found Bool.false_ne_true⟩
      by_cases long : MAX_PATH < rootDir.length + qcbuildSrc.length
      · rw [if_neg short, if_neg short, if_pos long, if_pos long]
        exact .outsideString
      · rw [if_neg short, if_neg short, if_neg long, if_neg long]
        obtain ⟨outer, up, shorter⟩ := files.enter_parent rootDir rootDir isDir (Nat.lt_of_not_le short)
        have path : rootDir ++ RelativePath.parent ≠ [] :=
          List.append_ne_nil_of_left_ne_nil (files.nonempty rootDir isDir) _
        have reached : files.fileSetDir rootDir (rootDir ++ RelativePath.parent) = outer := by
          rw [ProjectFiles.fileSetDir, if_neg path, up]
          rfl
        have goOn (first second : SourceInfo) := ih first second (relRootDir ++ RelativePath.parent)
          (files.isDir_enter _ _ _ up) (Nat.lt_of_lt_of_le shorter (Nat.le_of_lt_succ enough))
        rw [reached]
        refine (tryLoad_found first second targetMachine rootDir _).bind fun left right same => ?_
        obtain ⟨left, loaded⟩ := left
        obtain ⟨right, other⟩ := right
        obtain ⟨rfl, alike⟩ := same
        dsimp only at alike ⊢
        by_cases found : loaded = true ∧ left.type = .project
        · have alike : left.Alike right := alike found.1
          rw [if_pos found, if_pos ⟨found.1, alike.type ▸ found.2⟩]
          exact (alike.set rootName relRootDir false).map fun _ _ alike => ⟨rfl, fun _ => alike⟩
        · have other : ¬ (loaded = true ∧ right.type = .project) := by
            rintro ⟨success, type⟩
            exact found ⟨success, (alike success).type.trans type⟩
          rw [if_neg found, if_neg other]
          split_ifs
          · exact .outsideString
          · exact goOn left right

theorem fileSetDir_isDir (files : ProjectFiles) {dir : Text} (start : Text) (isDir : files.isDir dir) :
    files.fileSetDir start dir = dir := by
  rw [ProjectFiles.fileSetDir, if_neg (files.nonempty dir isDir), files.enter_again start dir isDir]
  rfl

theorem isDir_fileSetDir {start : Text} (isDir : files.isDir start) (path : Text) :
    files.isDir (files.fileSetDir start path) := by
  rw [ProjectFiles.fileSetDir]
  split_ifs
  · exact isDir
  · cases entered : files.enter start path with
    | none => exact isDir
    | some dir => exact files.isDir_enter start path dir entered

/-- The project above a directory does not depend on the object that it is loaded into. -/
theorem loadProject_alike (first second : SourceInfo) (isDir : files.isDir workingDir) :
    EndAlike ClimbAlike (first.loadProject files targetMachine workingDir)
      (second.loadProject files targetMachine workingDir) := by
  rw [loadProject, loadProject]
  refine (loadProjectLoop_alike first second ['.'] isDir (Nat.lt_succ_self _)).bind fun left right same => ?_
  obtain ⟨left, found, rootDir⟩ := left
  obtain ⟨right, others⟩ := right
  obtain ⟨rfl, alike⟩ := same
  simp only [fileSetDir_isDir files rootDir isDir]
  split_ifs with success
  · exact ((alike success).set compDirName ['.'] false).map fun _ _ alike => ⟨rfl, fun _ => alike⟩
  · exact .ok ⟨rfl, fun found => absurd found Bool.false_ne_true⟩

end Loading

end ListComponents

end Tegenaria.QCBuild
