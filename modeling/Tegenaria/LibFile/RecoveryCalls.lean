import Tegenaria.Foundation.CrashSafety
import Tegenaria.LibFile.Recovery

/-!
# The system calls of the recovery

`FileRecoverFailedIO` as a program of single calls.  `ListFiles` returns bare names, so the calls
behind it act on the current directory, whatever directory is listed.
-/

namespace Tegenaria.LibFile

open Foundation

inductive FileCall where
  | listFiles (mask : List Char)
  | fileExists (name : Name)
  | deleteFile (name : Name)
  | moveFile (source target : Name)

abbrev FileCall.Answer : FileCall → Type
  | .listFiles _ => List Name
  | .fileExists _ => Bool
  | .deleteFile _ => Unit
  | .moveFile .. => Bool

abbrev FileProgram := Program FileCall FileCall.Answer

/-- What a call does to the directory.  The order is the one in which names are listed. -/
@[grind =] def FileCall.serve : Handler (List Name) Directory FileCall FileCall.Answer
  | order, directory, .listFiles mask => (directory.listFiles order mask, directory)
  | _, directory, .fileExists name => (directory.fileExists name, directory)
  | _, directory, .deleteFile name => ((), directory.deleteFile name)
  | _, directory, .moveFile source target =>
      let moved := directory.moveFile source target
      (moved.isSome, moved.getD directory)

/-- The inner loop. -/
def cleanUpCalls (mask : List Char) (files : List Name) : FileProgram :=
  .forEach (fun name => if mask <:+: name then .call (.deleteFile name) fun _ => .done else .done) files

def recoverOriginalCalls (fname tmpName altName : Name) : FileProgram :=
  .call (.moveFile tmpName fname) fun moved =>
    match moved with
    | true => .call (.deleteFile altName) fun _ => .done
    | false => .done

/-- The body of both loops. -/
def visitCalls (mark : Mark) (files : List Name) (name tmpName altName : Name) : FileProgram :=
  let fname := originalName name
  .call (.fileExists fname) fun original =>
    match original with
    | true => cleanUpCalls (fname ++ mark.mask) files
    | false => .call (.fileExists altName) fun alternative =>
        match alternative with
        | true => recoverOriginalCalls fname tmpName altName
        | false => .call (.deleteFile name) fun _ => .done

/-- The body of the loop over the temporary files. -/
def recoverTmpCalls (tmpFiles : List Name) (tmpName : Name) : FileProgram :=
  visitCalls .tmp tmpFiles tmpName tmpName (overwriteMark .alt tmpName)

/-- The body of the loop over the alternative files. -/
def recoverAltCalls (altFiles : List Name) (altName : Name) : FileProgram :=
  visitCalls .alt altFiles altName (overwriteMark .tmp altName) altName

/-- `FileRecoverFailedIO` -/
def recoveryCalls : FileProgram :=
  .call (.listFiles Mark.tmp.mask) fun tmpFiles =>
    (Program.forEach (recoverTmpCalls tmpFiles) tmpFiles).andThen
      (.call (.listFiles Mark.alt.mask) fun altFiles =>
        Program.forEach (recoverAltCalls altFiles) altFiles)

/-! ## The calls make up the recovery -/

section Runs

variable (choose : FileCall → List Name) (directory : Directory)

theorem run_cleanUpCalls (mask : List Char) (files : List Name) :
    (cleanUpCalls mask files).run FileCall.serve choose directory = cleanUp mask files directory := by
  rw [cleanUpCalls, Program.run_forEach, cleanUp]
  congr
  funext directory name
  split <;> rfl

theorem run_recoverOriginalCalls (fname tmpName altName : Name) :
    (recoverOriginalCalls fname tmpName altName).run FileCall.serve choose directory =
      recoverOriginal fname tmpName altName directory := by
  rw [recoverOriginalCalls, recoverOriginal, Program.run, FileCall.serve]
  cases directory.moveFile tmpName fname with
  | some moved => rfl
  | none => rfl

theorem run_visitCalls (mark : Mark) (files : List Name) (name tmpName altName : Name) :
    (visitCalls mark files name tmpName altName).run FileCall.serve choose directory =
      if directory.fileExists (originalName name) then
        cleanUp (originalName name ++ mark.mask) files directory
      else if directory.fileExists altName then
        recoverOriginal (originalName name) tmpName altName directory
      else directory.deleteFile name := by
  rw [visitCalls, Program.run, FileCall.serve]
  cases directory.fileExists (originalName name) with
  | true => exact run_cleanUpCalls ..
  | false =>
      simp only [Program.run, FileCall.serve]
      cases directory.fileExists altName with
      | true => exact run_recoverOriginalCalls ..
      | false => rfl

/-- The program of calls does what the recovery does. -/
theorem run_recoveryCalls : recoveryCalls.run FileCall.serve choose directory =
    fileRecoverFailedIO (choose (.listFiles Mark.tmp.mask))
      (choose (.listFiles Mark.alt.mask)) directory := by
  have tmp : ∀ files directory name, (recoverTmpCalls files name).run FileCall.serve choose directory =
      recoverTmp files directory name := fun files directory name => run_visitCalls ..
  have alt : ∀ files directory name, (recoverAltCalls files name).run FileCall.serve choose directory =
      recoverAlt files directory name := fun files directory name => run_visitCalls ..
  simp only [recoveryCalls, Program.run, Program.run_andThen, Program.run_forEach, FileCall.serve, tmp, alt]
  rfl

end Runs

/-! ## Where the calls go -/

section Places

variable {Path : Type} [DecidableEq Path]

/-- The directory of the files that a call is about: all calls but the listing are made with names
that have no path. -/
def FileCall.place (given current : Path) : FileCall → Path
  | .listFiles _ => given
  | .fileExists _ | .deleteFile _ | .moveFile .. => current

/-- A call in a system with many directories. -/
def FileCall.serveAt (given current : Path) :
    Handler (List Name) (Path → Directory) FileCall FileCall.Answer := fun order disk call =>
  ((call.serve order (disk (call.place given current))).1, Function.update disk (call.place given current)
    (call.serve order (disk (call.place given current))).2)

variable (given current : Path) (choose : FileCall → List Name) (disk : Path → Directory)

/-- `FileRecoverFailedIO(given)`, called in the current directory. -/
def recoverAt : Path → Directory := recoveryCalls.run (FileCall.serveAt given current) choose disk

/-- All calls are about files of the given directory, and its content becomes what it becomes when it
is the current directory. -/
structure ActsInPlace : Prop where
  calls : ∀ call ∈ recoveryCalls.made (FileCall.serveAt given current) choose disk,
    call.place given current = given
  content : recoverAt given current choose disk given = recoverAt given given choose disk given

variable {given current choose disk}

omit [DecidableEq Path] in
theorem place_same (call : FileCall) : call.place given given = given := by
  cases call <;> rfl

theorem serveAt_listFiles (order : List Name) (mask : List Char) :
    FileCall.serveAt given current order disk (.listFiles mask) =
      ((disk given).listFiles order mask, disk) :=
  congrArg (((disk given).listFiles order mask, ·)) (Function.update_eq_self given disk)

/-- Calls in another directory leave the given one as it is. -/
theorem serveAt_given (different : current ≠ given) (order : List Name) (call : FileCall) :
    (FileCall.serveAt given current order disk call).2 given = disk given := by
  cases call with
  | listFiles mask => rw [serveAt_listFiles]
  | _ => exact Function.update_of_ne different.symm ..

theorem run_given (different : current ≠ given) (program : FileProgram) (before : Path → Directory) :
    program.run (FileCall.serveAt given current) choose before given = before given := by
  have kept : ∀ (disk : Path → Directory) call, disk given = before given →
      (FileCall.serveAt given current (choose call) disk call).2 given = before given :=
    fun disk call same => (serveAt_given different _ call).trans same
  exact Program.run_invariant kept program rfl

/-- A visit tests a file of the current directory. -/
theorem exists_made_forEach (given current : Path) (choose : FileCall → List Name) (mark : Mark)
    (listed : List Name) (tmpName altName : Name → Name) {files : List Name} (found : files ≠ [])
    (disk : Path → Directory) :
    ∃ call ∈ (Program.forEach
      (fun name => visitCalls mark listed name (tmpName name) (altName name)) files).made
      (FileCall.serveAt given current) choose disk, call.place given current = current := by
  obtain ⟨name, rest, rfl⟩ := List.exists_cons_of_ne_nil found
  refine ⟨.fileExists (originalName name), ?_, rfl⟩
  rw [Program.forEach, Program.made_andThen]
  exact List.mem_append_left _ List.mem_cons_self

theorem recoverAt_of_empty
    (empty : ∀ mark : Mark, (disk given).listFiles (choose (.listFiles mark.mask)) mark.mask = []) :
    recoverAt given current choose disk = disk ∧
      recoveryCalls.made (FileCall.serveAt given current) choose disk =
        [.listFiles Mark.tmp.mask, .listFiles Mark.alt.mask] := by
  constructor
  · rw [recoverAt, recoveryCalls, Program.run, serveAt_listFiles, empty .tmp]
    simp only [Program.forEach, Program.andThen, Program.run]
    rw [serveAt_listFiles, empty .alt]
    rfl
  · rw [recoveryCalls, Program.made, serveAt_listFiles, empty .tmp]
    simp only [Program.forEach, Program.andThen, Program.made]
    rw [serveAt_listFiles, empty .alt]
    rfl

end Places

/-- The recovery acts in the directory that it is given exactly when that is the current directory, or
when it has no temporary and no alternative file. -/
theorem fileRecoverFailedIO_actsInPlace_iff {Path : Type} [DecidableEq Path] (given current : Path)
    (choose : FileCall → List Name) (disk : Path → Directory) :
    ActsInPlace given current choose disk ↔ current = given ∨
      ∀ mark : Mark, (disk given).listFiles (choose (.listFiles mark.mask)) mark.mask = [] := by
  by_cases different : current = given
  · subst different
    exact iff_of_true ⟨fun call _ => place_same call, rfl⟩ (.inl rfl)
  · constructor
    · intro acts
      refine .inr fun mark => ?_
      by_contra found
      have calls := acts.calls
      rw [recoveryCalls, Program.made, serveAt_listFiles] at calls
      simp only [Program.made_andThen, Program.made, serveAt_listFiles] at calls
      cases mark with
      | tmp =>
          obtain ⟨call, mem, there⟩ := exists_made_forEach given current choose .tmp
            ((disk given).listFiles (choose (.listFiles Mark.tmp.mask)) Mark.tmp.mask)
            id (overwriteMark .alt)
            found disk
          have known := calls call (List.mem_cons_of_mem _ (List.mem_append_left _ mem))
          exact different (there.symm.trans known)
      | alt =>
          rw [run_given different] at calls
          obtain ⟨call, mem, there⟩ := exists_made_forEach given current choose .alt
            ((disk given).listFiles (choose (.listFiles Mark.alt.mask)) Mark.alt.mask)
            (overwriteMark .tmp) id
            found _
          refine different (there.symm.trans (calls call (List.mem_cons_of_mem _ ?_)))
          exact List.mem_append_right _ (List.mem_cons_of_mem _ mem)
    · rintro (same | empty)
      · exact absurd same different
      · refine ⟨fun call mem => ?_, ?_⟩
        · rw [(recoverAt_of_empty empty).2] at mem
          rcases List.mem_pair.mp mem with rfl | rfl <;> rfl
        · rw [(recoverAt_of_empty empty).1, (recoverAt_of_empty empty).1]

/-- An interrupted transaction in one directory, and a file of the same name in another one. -/
def twoDirectories : Bool → Directory
  | true => Volume.ofEntries
      [(Volume.tmpOf ['a'] 1, some (.file [9])), (Volume.altOf ['a'] 1, some (.file [1]))]
  | false => Volume.ofEntries [(['a'], some (.file [5]))]

def namesOfA : FileCall → List Name := fun _ => [['a'], Volume.altOf ['a'] 1, Volume.tmpOf ['a'] 1]

/-- Called from the other directory, the recovery tests the file there and restores nothing. -/
theorem twoDirectories_not_recovered :
    recoverAt true false namesOfA twoDirectories true ['a'] = none ∧
      recoverAt true true namesOfA twoDirectories true ['a'] = some (.file [9]) ∧
      ¬ ActsInPlace true false namesOfA twoDirectories := by
  refine ⟨by rfl, by rfl, fun acts => ?_⟩
  have there := acts.calls (.fileExists ['a']) (List.mem_cons_of_mem _ List.mem_cons_self)
  exact absurd there (by decide)

end Tegenaria.LibFile
