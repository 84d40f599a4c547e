import Tegenaria.LibStr.Text
import Mathlib.Data.Finset.Basic

/-!
# Components of a project

What is known about one component: the variables of its `qcbuild.src` file, and
the sets that `SourceInfo` keeps beside them.
-/

namespace Tegenaria.QCBuild

open LibStr

inductive SourceType where
  | project
  | program
  | library
  | simpleLibrary
  | simpleProgram
  | multiLibrary
  | unknown
  deriving DecidableEq

structure SourceInfo where
  type : SourceType
  dependsResolved : Bool
  vars : Text → Option Text
  dependsSet : Finset Text
  privateDirsSet : Finset Text

namespace SourceInfo

def titleName : Text := ['T', 'I', 'T', 'L', 'E']

def compDirName : Text := ['C', 'O', 'M', 'P', '_', 'D', 'I', 'R']

def rootName : Text := ['R', 'O', 'O', 'T']

def qtModulesName : Text := ['Q', 'T', '_', 'M', 'O', 'D', 'U', 'L', 'E', 'S']

/-- The value of a variable, empty when there is none. -/
def get (info : SourceInfo) (lvalue : Text) : Text := (info.vars lvalue).getD []

def isset (info : SourceInfo) (lvalue : Text) : Bool := !(info.get lvalue).isEmpty

def lowerChar (letter : Char) : Char :=
  if 'A' ≤ letter ∧ letter ≤ 'Z' then Char.ofNat (letter.toNat + ('z'.toNat - 'Z'.toNat)) else letter

/-- The value of a variable in lower case. -/
def getLowered (info : SourceInfo) (lvalue : Text) : Text := (info.get lvalue).map lowerChar

def title (info : SourceInfo) : Text := info.get titleName

/-- The test of `SourceInfo::resolved`.  A component for which it holds is written
and dropped, so the flag that the test also sets is never read again. -/
def resolved (info : SourceInfo) : Bool := info.dependsResolved || info.dependsSet = ∅

/-- Removes one component from those that are still needed. -/
def resolve (info : SourceInfo) (compTitle : Text) : SourceInfo :=
  let left := info.dependsSet.erase compTitle
  { info with
    dependsSet := left
    dependsResolved := if left = ∅ then true else info.dependsResolved }

/-- The flag is set only when nothing is needed. -/
def FlagValid (info : SourceInfo) : Prop := info.dependsResolved → info.dependsSet = ∅

@[simp] theorem resolve_vars (info : SourceInfo) (compTitle : Text) :
    (info.resolve compTitle).vars = info.vars := rfl

@[simp] theorem resolve_dependsSet (info : SourceInfo) (compTitle : Text) :
    (info.resolve compTitle).dependsSet = info.dependsSet.erase compTitle := rfl

theorem FlagValid.resolved_iff {info : SourceInfo} (valid : info.FlagValid) :
    info.resolved ↔ info.dependsSet = ∅ := by
  rw [resolved, Bool.or_eq_true, decide_eq_true_iff]
  exact ⟨fun either => either.elim valid id, .inr⟩

theorem FlagValid.resolve {info : SourceInfo} (valid : info.FlagValid) (compTitle : Text) :
    (info.resolve compTitle).FlagValid := by
  intro flag
  by_cases nothing : info.dependsSet.erase compTitle = ∅
  · exact nothing
  · have before : info.dependsResolved := by
      simpa [SourceInfo.resolve, nothing] using flag
    rw [resolve_dependsSet, valid before, Finset.erase_empty]

end SourceInfo

open SourceInfo

/-- A component with a title and the components it needs. -/
def component (name : Text) (depends : Finset Text) : SourceInfo where
  type := .library
  dependsResolved := decide (depends = ∅)
  vars := fun lvalue => if lvalue = titleName then some name else none
  dependsSet := depends
  privateDirsSet := ∅

end Tegenaria.QCBuild
