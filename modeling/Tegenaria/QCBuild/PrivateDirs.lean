import Tegenaria.Foundation.Occurrence
import Tegenaria.QCBuild.SourceFile
import Mathlib.Data.Finset.Image

/-!
# Private directories

The directories of components that are left out of the documentation.  A component is compared with
every prefix of a set.  The test for the end of a directory name looks at the first letter of the
component's directory, where the prefix was found, and not at the letter behind the prefix.
-/

namespace Tegenaria.QCBuild

open Foundation.Occurrence LibStr
open SourceInfo

namespace PrivateDirs

/-- `strstr`: the position of the pattern. -/
def strstr (text pattern : Text) : Option Nat := (text.dropInfix? pattern).map fun parts => parts.1.length

/-- `ptr[0] == '/' || ptr[0] == '\\' == ptr[0] == 0`.  The comparisons are evaluated from the left, and
their results are numbers. -/
def isBoundary (letter : Char) : Bool :=
  letter == '/' || ((letter == '\\').toNat == letter.toNat).toNat == 0

/-- The body of the loop. -/
def matchesPrefix (compDir privatePrefix : Text) : Bool :=
  match strstr compDir privatePrefix with
  | some position => position == 0 && isBoundary (letterAt (compDir.drop position))
  | none => false

end PrivateDirs

open PrivateDirs

/-- `SourceInfo::doesMatchPrivateDir`.  The loop returns at the first prefix of the set that matches. -/
def SourceInfo.doesMatchPrivateDir (info ci : SourceInfo) : Int :=
  if ∃ privatePrefix ∈ info.privateDirsSet,
      matchesPrefix (cStr (ci.get compDirName)) (cStr privatePrefix) = true
  then 1 else 0

namespace PrivateDirs

/-- The component's directory as a string. -/
def compDirOf (ci : SourceInfo) : Text := cStr (ci.get compDirName)

def prefixesOf (info : SourceInfo) : Finset Text := info.privateDirsSet.image cStr

/-- A directory is another one, or lies below it. -/
def LiesIn (compDir directory : Text) : Prop :=
  compDir = directory ∨ ∃ separator rest, isSlash separator = true ∧
    compDir = directory ++ separator :: rest

/-- Exactly the components in one of the private directories are private. -/
def RecognisesPrivate (info ci : SourceInfo) : Prop :=
  info.doesMatchPrivateDir ci = 1 ↔ ∃ directory ∈ prefixesOf info, LiesIn (compDirOf ci) directory

/-- The directory begins with private ones, but behind each of these a name goes on. -/
def HasLongerName (prefixes : Finset Text) (compDir : Text) : Prop :=
  (∃ directory ∈ prefixes, directory <+: compDir) ∧
    ∀ directory ∈ prefixes, ∀ rest, compDir = directory ++ rest →
      ∃ letter later, isSlash letter = false ∧ rest = letter :: later

/-! ## What is compared -/

variable {text pattern compDir privatePrefix : Text} {info ci : SourceInfo}

theorem strstr_eq_zero : strstr text pattern = some 0 ↔ pattern <+: text := by
  constructor
  · intro found
    rw [strstr, Option.map_eq_some_iff] at found
    obtain ⟨⟨before, after⟩, cut, atBegin⟩ := found
    have empty : before = [] := List.eq_nil_of_length_eq_zero atBegin
    have split := cut_eq cut
    rw [empty, List.nil_append] at split
    exact ⟨after, split.symm⟩
  · rintro ⟨rest, rfl⟩
    rw [strstr, cut_begin]
    rfl

/-- Every letter passes the test, but for the end of the string. -/
theorem isBoundary_iff (letter : Char) : isBoundary letter = true ↔ letter ≠ '\x00' := by
  constructor
  · rintro passes rfl
    exact absurd passes (by decide)
  · intro inside
    by_cases back : letter = '\\'
    · rw [back]
      decide
    · have code : 0 ≠ letter.toNat := by
        intro zero
        exact inside (Char.toNat_inj.mp zero.symm)
      have other : (letter == '\\') = false := beq_eq_false_iff_ne.mpr back
      have differs : ((0 : Nat) == letter.toNat) = false := beq_eq_false_iff_ne.mpr code
      rw [isBoundary, other, Bool.toNat_false, differs]
      simp

theorem letterAt_ne_zero (text : Text) : letterAt (cStr text) ≠ '\x00' ↔ cStr text ≠ [] := by
  rw [letterAt]
  cases string : cStr text with
  | nil => simp
  | cons letter rest =>
      have inside : letter ∈ cStr text := by
        rw [string]
        exact List.mem_cons_self
      have notZero : letter ≠ '\x00' := by simpa using List.mem_takeWhile_imp inside
      simp [notZero]

/-- The test asks for a prefix of a string with a letter. -/
theorem matchesPrefix_iff (text : Text) :
    matchesPrefix (cStr text) privatePrefix = true ↔ privatePrefix <+: cStr text ∧ cStr text ≠ [] := by
  rw [matchesPrefix]
  split
  · next position found =>
      rw [Bool.and_eq_true, beq_iff_eq]
      constructor
      · rintro ⟨rfl, boundary⟩
        exact ⟨strstr_eq_zero.mp found, (letterAt_ne_zero text).mp ((isBoundary_iff _).mp boundary)⟩
      · rintro ⟨begins, nonempty⟩
        have atBegin : position = 0 := by
          have first := strstr_eq_zero.mpr begins
          rw [found] at first
          exact Option.some.inj first
        subst atBegin
        exact ⟨rfl, (isBoundary_iff _).mpr ((letterAt_ne_zero text).mpr nonempty)⟩
  · next absent =>
      have noPrefix : ¬ privatePrefix <+: cStr text := by
        intro begins
        rw [strstr_eq_zero.mpr begins] at absent
        exact absurd absent (Option.some_ne_none _)
      simp [noPrefix]

/-- A component is private if its directory begins with a prefix, unless it is empty. -/
theorem doesMatchPrivateDir_iff (info ci : SourceInfo) : info.doesMatchPrivateDir ci = 1 ↔
    (∃ directory ∈ prefixesOf info, directory <+: compDirOf ci) ∧ compDirOf ci ≠ [] := by
  have differ : (1 : Int) ≠ 0 := by decide
  rw [doesMatchPrivateDir, differ.ite_eq_left_iff]
  simp only [matchesPrefix_iff, prefixesOf, Finset.mem_image, compDirOf]
  constructor
  · rintro ⟨directory, member, begins, nonempty⟩
    exact ⟨⟨_, ⟨directory, member, rfl⟩, begins⟩, nonempty⟩
  · rintro ⟨⟨_, ⟨directory, member, rfl⟩, begins⟩, nonempty⟩
    exact ⟨directory, member, begins, nonempty⟩

theorem LiesIn.isPrefix {directory : Text} (lies : LiesIn compDir directory) : directory <+: compDir := by
  cases lies with
  | inl same => rw [same]
  | inr below =>
      obtain ⟨separator, rest, _, split⟩ := below
      exact ⟨separator :: rest, split.symm⟩

/-- A directory that begins with private ones lies in one of them, or they all end inside a name. -/
theorem liesIn_or_longer {prefixes : Finset Text} (begins : ∃ directory ∈ prefixes, directory <+: compDir) :
    (∃ directory ∈ prefixes, LiesIn compDir directory) ∨ HasLongerName prefixes compDir := by
  by_cases lies : ∃ directory ∈ prefixes, LiesIn compDir directory
  · exact .inl lies
  · refine .inr ⟨begins, ?_⟩
    intro directory member rest split
    cases rest with
    | nil => exact absurd ⟨directory, member, .inl (by rw [split, List.append_nil])⟩ lies
    | cons letter later =>
        refine ⟨letter, later, ?_, rfl⟩
        by_contra slash
        exact lies ⟨directory, member, .inr ⟨letter, later, by simpa using slash, split⟩⟩

theorem not_liesIn_of_longer {prefixes : Finset Text} (longer : HasLongerName prefixes compDir) :
    ¬ ∃ directory ∈ prefixes, LiesIn compDir directory := by
  rintro ⟨directory, member, same | ⟨separator, rest, slash, split⟩⟩
  · obtain ⟨letter, later, _, absent⟩ := longer.2 directory member [] (by rw [same, List.append_nil])
    exact absurd absent (List.cons_ne_nil letter later).symm
  · obtain ⟨letter, later, plain, same⟩ := longer.2 directory member _ split
    rw [← (List.cons.inj same).1, slash] at plain
    exact absurd plain (by decide)

end PrivateDirs

/-- Private components are recognised exactly unless a directory has a longer name than a private one,
or is empty while the empty prefix is in the set. -/
theorem recognisesPrivate_iff (info ci : SourceInfo) : RecognisesPrivate info ci ↔
    ¬ HasLongerName (prefixesOf info) (compDirOf ci) ∧ ¬ (compDirOf ci = [] ∧ [] ∈ prefixesOf info) := by
  rw [RecognisesPrivate, doesMatchPrivateDir_iff]
  constructor
  · intro agrees
    constructor
    · intro longer
      have nonempty : compDirOf ci ≠ [] := by
        intro empty
        obtain ⟨directory, member, begins⟩ := longer.1
        rw [empty, List.prefix_nil] at begins
        obtain ⟨letter, later, _, absent⟩ :=
          longer.2 directory member [] (by rw [begins, empty, List.append_nil])
        exact absurd absent (List.cons_ne_nil letter later).symm
      exact not_liesIn_of_longer longer (agrees.mp ⟨longer.1, nonempty⟩)
    · rintro ⟨empty, member⟩
      exact (agrees.mpr ⟨[], member, .inl empty⟩).2 empty
  · rintro ⟨notLonger, notEmpty⟩
    constructor
    · rintro ⟨begins, _⟩
      exact (liesIn_or_longer begins).resolve_right notLonger
    · rintro ⟨directory, member, lies⟩
      refine ⟨⟨directory, member, lies.isPrefix⟩, ?_⟩
      intro empty
      have none : directory = [] := by
        have begins := lies.isPrefix
        rw [empty, List.prefix_nil] at begins
        exact begins
      exact notEmpty ⟨empty, none ▸ member⟩

namespace PrivateDirs

def projectWith (privateDirs : Finset Text) : SourceInfo :=
  { component [] ∅ with type := .project, privateDirsSet := privateDirs }

def componentIn (compDir : Text) : SourceInfo := (component [] ∅).setVar compDirName compDir

theorem compDirOf_componentIn (compDir : Text) : compDirOf (componentIn compDir) = cStr compDir := by
  rw [compDirOf, componentIn, get_setVar, if_pos rfl]

end PrivateDirs

/-- With the private directory "a/b" the component in "a/bc" is private. -/
theorem recognisesPrivate_longer :
    (projectWith {['a', '/', 'b']}).doesMatchPrivateDir (componentIn ['a', '/', 'b', 'c']) = 1 ∧
      ¬ RecognisesPrivate (projectWith {['a', '/', 'b']}) (componentIn ['a', '/', 'b', 'c']) := by
  have prefixes : prefixesOf (projectWith {['a', '/', 'b']}) = {['a', '/', 'b']} := by decide
  have compDir : compDirOf (componentIn ['a', '/', 'b', 'c']) = ['a', '/', 'b', 'c'] := by
    rw [compDirOf_componentIn]
    decide
  have matched : (projectWith {['a', '/', 'b']}).doesMatchPrivateDir
      (componentIn ['a', '/', 'b', 'c']) = 1 := by
    rw [doesMatchPrivateDir_iff, prefixes, compDir]
    exact ⟨⟨_, Finset.mem_singleton_self _, by decide⟩, by decide⟩
  refine ⟨matched, ?_⟩
  intro agrees
  obtain ⟨directory, member, lies⟩ := agrees.mp matched
  rw [prefixes, Finset.mem_singleton] at member
  rw [compDir, member] at lies
  cases lies with
  | inl same => exact absurd same (by decide)
  | inr below =>
      obtain ⟨separator, rest, slash, split⟩ := below
      cases split
      exact absurd slash (by decide)

end Tegenaria.QCBuild
