import Tegenaria.LibFile.TFile

/-!
# Failures of `tfopen`

The whole call, where the file cannot be copied, memory cannot be allocated, the file cannot be
locked or the temporary file cannot be opened.  The error exit closes the handle, which frees it, and
returns it nevertheless.  Nobody looks at the result of the lock.

A temporary file that the call has made can be deleted.
-/

namespace Tegenaria.LibFile

open Volume

/-- Whether the system lets a step succeed that it could do. -/
structure Works where
  copy : Bool
  calloc : Bool
  lock : Bool
  fopen : Bool

/-- What `tfopen` returns: a pointer to freed memory is not `NULL`. -/
inductive Handle where
  | null
  | dangling
  | opened (f : TFile) (locked : Bool) (view : List UInt8)
  deriving DecidableEq

/-- `tfclose` behind its `fclose`. -/
def renameFiles (directory : Directory) (f : TFile) : Directory :=
  match directory.moveFile f.fname f.altName with
  | none => directory
  | some parted =>
      match parted.moveFile f.tmpName f.fname with
      | none => parted
      | some replaced => replaced.deleteFile f.altName

/-- `tfclose`, with what the open stream writes. -/
def tfclose (directory : Directory) (f : TFile) (ftemp : Option (List UInt8)) : Directory :=
  match ftemp with
  | some written => renameFiles (directory.store f.tmpName written) f
  | none => renameFiles directory f

section Open

variable (directory : Directory) (fname : Name) (mode : List Char) (cookie timestamp : Int)
  (works : Works)

/-- `snprintf(tmpName, MAX_PATH, "%s.tmp-%d%d", fname, cookie, timestamp)` -/
def temporaryName : Name := (TFile.mk fname cookie timestamp).tmpName

/-- The directory with the temporary file. -/
def copied : Option Directory :=
  attempt works.copy (directory.copyFile fname (temporaryName fname cookie timestamp))

/-- `fopen(tmpName, mode)` -/
def openTemporary : Option (Directory × List UInt8) :=
  if works.fopen then directory.fopen (temporaryName fname cookie timestamp) mode else none

/-- `tfopen` without TxF. -/
def tfopen : Handle × Directory :=
  match copied directory fname cookie timestamp works with
  | none => (.null, directory)
  | some created =>
      if works.calloc then
        match openTemporary created fname mode cookie timestamp works with
        | some (opened, view) => (.opened ⟨fname, cookie, timestamp⟩ works.lock view, opened)
        | none =>
            (.dangling, (tfclose created .zero none).deleteFile (temporaryName fname cookie timestamp))
      else (.null, created.deleteFile (temporaryName fname cookie timestamp))

/-- A step of the call has failed. -/
def StepFails : Prop :=
  match copied directory fname cookie timestamp works with
  | none => True
  | some created =>
      works.calloc = false ∨ works.lock = false ∨
        openTemporary created fname mode cookie timestamp works = none

/-- The call returns `NULL` when a step has failed, and then nothing has happened. -/
structure LeavesNoTrace : Prop where
  null : (tfopen directory fname mode cookie timestamp works).1 = .null ↔
    StepFails directory fname mode cookie timestamp works
  unchanged : StepFails directory fname mode cookie timestamp works →
    (tfopen directory fname mode cookie timestamp works).2 = directory

end Open

/-- What is freed has no name yet, so nothing is renamed. -/
theorem tfclose_zero (directory : Directory) : tfclose directory .zero none = directory := by
  have nameless : directory.moveFile TFile.zero.fname TFile.zero.altName = none := by
    unfold Directory.moveFile
    split
    · exact if_neg fun named => named.1 rfl
    · rfl
  rw [tfclose, renameFiles, nameless]

section Traces

variable {directory : Directory} {fname : Name} {mode : List Char} {cookie timestamp : Int}
  {works : Works}

theorem copied_eq_some {created : Directory}
    (made : copied directory fname cookie timestamp works = some created) :
    ∃ content, created =
      Function.update directory (temporaryName fname cookie timestamp) (some (.file content)) := by
  unfold copied attempt at made
  split at made
  · obtain ⟨-, content, -, same⟩ := Directory.copyFile_eq_some made
    exact ⟨content, same⟩
  · cases made

/-- The clean-up undoes the copy when there was no file of the temporary name. -/
theorem deleteFile_copied {created : Directory}
    (made : copied directory fname cookie timestamp works = some created) :
    created.deleteFile (temporaryName fname cookie timestamp) = directory ↔
      directory (temporaryName fname cookie timestamp) = none := by
  obtain ⟨content, rfl⟩ := copied_eq_some made
  rw [Directory.deleteFile_file (Function.update_self ..), Function.update_idem,
    Function.update_eq_self_iff, eq_comm]

theorem leavesNoTrace_of_null {after : Directory}
    (result : tfopen directory fname mode cookie timestamp works = (.null, after))
    (fails : StepFails directory fname mode cookie timestamp works) :
    LeavesNoTrace directory fname mode cookie timestamp works ↔ after = directory := by
  constructor
  · intro clean
    have same := clean.unchanged fails
    rwa [result] at same
  · intro same
    refine ⟨?_, fun _ => by rw [result]; exact same⟩
    rw [result]
    exact iff_of_true rfl fails

theorem leavesNoTrace_of_opened {f : TFile} {locked : Bool} {view : List UInt8}
    (result : (tfopen directory fname mode cookie timestamp works).1 = .opened f locked view) :
    LeavesNoTrace directory fname mode cookie timestamp works ↔
      ¬ StepFails directory fname mode cookie timestamp works := by
  constructor
  · intro clean failed
    cases result.symm.trans (clean.null.mpr failed)
  · intro worked
    refine ⟨iff_of_false ?_ worked, fun failed => absurd failed worked⟩
    rw [result]
    exact Handle.noConfusion

end Traces

/-- A `tfopen` that fails returns `NULL` and leaves the directory as it was exactly when neither the
lock nor the opening of the temporary file is what has failed, and no file of the temporary name was
overwritten. -/
theorem tfopen_leavesNoTrace_iff (directory : Directory) (fname : Name) (mode : List Char)
    (cookie timestamp : Int) (works : Works) :
    LeavesNoTrace directory fname mode cookie timestamp works ↔
      ∀ created, copied directory fname cookie timestamp works = some created →
        if works.calloc then
          works.lock = true ∧ openTemporary created fname mode cookie timestamp works ≠ none
        else directory (temporaryName fname cookie timestamp) = none := by
  cases made : copied directory fname cookie timestamp works with
  | none =>
      have fails : StepFails directory fname mode cookie timestamp works := by
        rw [StepFails, made]
        trivial
      have result : tfopen directory fname mode cookie timestamp works = (.null, directory) := by
        rw [tfopen, made]
      exact (leavesNoTrace_of_null result fails).trans (iff_of_true rfl (by simp))
  | some created =>
      simp only [Option.some.injEq, forall_eq']
      cases allocated : works.calloc with
      | false =>
          have fails : StepFails directory fname mode cookie timestamp works := by
            rw [StepFails, made]
            exact .inl allocated
          have result : tfopen directory fname mode cookie timestamp works =
              (.null, created.deleteFile (temporaryName fname cookie timestamp)) := by
            rw [tfopen, made]
            exact if_neg (by rw [allocated]; exact Bool.false_ne_true)
          rw [if_neg Bool.false_ne_true, ← deleteFile_copied made]
          exact leavesNoTrace_of_null result fails
      | true =>
          rw [if_pos rfl]
          cases stream : openTemporary created fname mode cookie timestamp works with
          | none =>
              have fails : StepFails directory fname mode cookie timestamp works := by
                rw [StepFails, made]
                exact .inr (.inr stream)
              have result : (tfopen directory fname mode cookie timestamp works).1 = .dangling := by
                rw [tfopen, made]
                simp only [allocated, if_true, stream]
              refine iff_of_false (fun clean => ?_) (fun works => works.2 rfl)
              cases result.symm.trans (clean.null.mpr fails)
          | some pair =>
              have result : (tfopen directory fname mode cookie timestamp works).1 =
                  .opened ⟨fname, cookie, timestamp⟩ works.lock pair.2 := by
                rw [tfopen, made]
                simp only [allocated, if_true, stream]
              have fails : StepFails directory fname mode cookie timestamp works ↔ works.lock = false := by
                rw [StepFails, made]
                simp [allocated, stream]
              rw [leavesNoTrace_of_opened result, fails, Bool.not_eq_false]
              exact (and_iff_left (Option.some_ne_none pair)).symm

/-- A directory with one file. -/
def oneFile : Directory := Function.update (fun _ => none) ['a'] (some (.file [1]))

/-- When the lock fails, the file is open nevertheless, and when the temporary file cannot be opened,
freed memory is returned. -/
theorem tfopen_not_null :
    (tfopen oneFile ['a'] ['r', '+'] 1 1 ⟨true, true, false, true⟩).1 = .opened ⟨['a'], 1, 1⟩ false [1] ∧
      (tfopen oneFile ['a'] ['r', '+'] 1 1 ⟨true, true, true, false⟩).1 = .dangling ∧
      ¬ LeavesNoTrace oneFile ['a'] ['r', '+'] 1 1 ⟨true, true, true, false⟩ := by
  have dangling : (tfopen oneFile ['a'] ['r', '+'] 1 1 ⟨true, true, true, false⟩).1 = .dangling := by
    decide
  refine ⟨by decide, dangling, fun clean => ?_⟩
  cases dangling.symm.trans (clean.null.mpr (.inr (.inr rfl)))

end Tegenaria.LibFile
