import Mathlib.Data.List.GetD
import Mathlib.Tactic.Push
import Tegenaria.LibFile.Directory

/-!
# Comparison of two files

`FileCompare` reads two streams side by side into characters that it declares inside its loop.  A
read that fails leaves its character as it is, and the characters are compared nevertheless.

What an uninitialised character holds is a parameter, and so is what a text stream shows of the
bytes of a file: on some systems line ends are translated.
-/

namespace Tegenaria.LibFile

/-- An input stream: the characters before its end, and whether all reads have succeeded. -/
structure IfStream where
  rest : List UInt8
  good : Bool

namespace IfStream

/-- `get(c)` -/
def get (stream : IfStream) (c : UInt8) : UInt8 × IfStream :=
  if stream.good then
    match stream.rest with
    | [] => (c, { stream with good := false })
    | next :: rest => (next, { stream with rest })
  else (c, stream)

/-- The reads that a stream is still good for. -/
def reads (stream : IfStream) : Nat := if stream.good then stream.rest.length + 1 else 0

theorem reads_get_lt {stream : IfStream} (good : stream.good = true) (c : UInt8) :
    (stream.get c).2.reads < stream.reads := by
  obtain ⟨rest, isGood⟩ := stream
  obtain rfl : isGood = true := good
  cases rest with
  | nil => exact Nat.zero_lt_one
  | cons next rest => exact Nat.lt_succ_self _

theorem reads_get_le (stream : IfStream) (c : UInt8) : (stream.get c).2.reads ≤ stream.reads := by
  by_cases good : stream.good = true
  · exact (reads_get_lt good c).le
  · rw [get, if_neg good]

/-- The stream of a text after some reads. -/
def after (text : List UInt8) (count : Nat) : IfStream := ⟨text.drop count, decide (count ≤ text.length)⟩

theorem get_after (text : List UInt8) (count : Nat) (c : UInt8) :
    (after text count).get c = (text.getD count c, after text (count + 1)) := by
  rcases lt_trichotomy count text.length with inside | rfl | outside
  · have cut : text.drop count = text[count] :: text.drop (count + 1) := List.drop_eq_getElem_cons inside
    have good : decide (count ≤ text.length) = true := decide_eq_true inside.le
    have stays : decide (count + 1 ≤ text.length) = true := decide_eq_true inside
    simp only [after, get, cut, good, stays, if_true, List.getD_eq_getElem _ _ inside]
  · have past : ¬ text.length + 1 ≤ text.length := Nat.not_succ_le_self _
    have all : text.drop (text.length + 1) = [] := List.drop_eq_nil_of_le (Nat.le_succ _)
    simp only [after, get, List.drop_length, le_refl, decide_true, if_true, past, decide_false, all,
      List.getD_eq_default _ _ (le_refl text.length)]
  · have past : ¬ count ≤ text.length := Nat.not_le_of_lt outside
    have still : ¬ count + 1 ≤ text.length := fun most => past (Nat.le_of_succ_le most)
    have none : text.drop count = [] := List.drop_eq_nil_of_le outside.le
    have all : text.drop (count + 1) = [] := List.drop_eq_nil_of_le (outside.le.trans (Nat.le_succ _))
    simp only [after, get, none, all, past, still, decide_false, Bool.false_eq_true, if_false,
      List.getD_eq_default _ _ outside.le]

end IfStream

/-- The loop.  In each round the two characters hold what `junk` says before they are read. -/
def compareFrom (junk : Nat → UInt8 × UInt8) (round : Nat) (f1 f2 : IfStream) : Int :=
  if f1.good || f2.good then
    let first := f1.get (junk round).1
    let second := f2.get (junk round).2
    if first.1 ≠ second.1 then 0 else compareFrom junk (round + 1) first.2 second.2
  else 1
termination_by f1.reads + f2.reads
decreasing_by
  rename_i good _
  rcases (Bool.or_eq_true _ _).mp good with good | good
  · exact Nat.add_lt_add_of_lt_of_le (IfStream.reads_get_lt good _) (IfStream.reads_get_le _ _)
  · exact Nat.add_lt_add_of_le_of_lt (IfStream.reads_get_le _ _) (IfStream.reads_get_lt good _)

/-- `FileCompare`: its exit code and what it leaves in `stat`. -/
def fileCompare (shown : List UInt8 → List UInt8) (junk : Nat → UInt8 × UInt8) (directory : Directory)
    (stat : Int) (fname1 fname2 : Name) : Int × Int :=
  match directory fname1, directory fname2 with
  | some (.file content1), some (.file content2) =>
      (0, compareFrom junk 0 ⟨shown content1, true⟩ ⟨shown content2, true⟩)
  | _, _ => (-1, stat)

section Compare

variable {junk : Nat → UInt8 × UInt8} {first second : List UInt8}

/-- The texts are found equal when the characters agree in each round, also in those behind the end
of a text. -/
theorem compareFrom_after (round : Nat) :
    compareFrom junk round (.after first round) (.after second round) = 1 ↔
      ∀ later, round ≤ later → later ≤ max first.length second.length →
        first.getD later (junk later).1 = second.getD later (junk later).2 := by
  generalize left : max first.length second.length + 1 - round = fuel
  induction fuel generalizing round with
  | zero =>
      have ended : ¬ (round ≤ first.length ∨ round ≤ second.length) := by omega
      rw [compareFrom, if_neg (by simpa [IfStream.after] using ended)]
      refine iff_of_true rfl fun later reached inside => ?_
      omega
  | succ fuel ih =>
      have goes : round ≤ first.length ∨ round ≤ second.length := by omega
      rw [compareFrom, if_pos (by simpa [IfStream.after] using goes)]
      simp only [IfStream.get_after, ne_eq, ite_not]
      split
      · rename_i same
        rw [ih (round + 1) (by omega)]
        constructor
        · intro agree later reached inside
          rcases Nat.eq_or_lt_of_le reached with rfl | further
          · exact same
          · exact agree later further inside
        · intro agree later reached inside
          exact agree later (Nat.le_of_succ_le reached) inside
      · rename_i different
        refine iff_of_false (by decide) fun agree => different (agree round le_rfl ?_)
        omega

theorem compareFrom_eq_one_iff : compareFrom junk 0 ⟨first, true⟩ ⟨second, true⟩ = 1 ↔
    ∀ later ≤ max first.length second.length,
      first.getD later (junk later).1 = second.getD later (junk later).2 := by
  have begins : ∀ text : List UInt8, IfStream.after text 0 = ⟨text, true⟩ := fun text => by
    simp [IfStream.after]
  rw [← begins first, ← begins second, compareFrom_after]
  exact forall_congr' fun later => ⟨fun agree => agree (Nat.zero_le _), fun agree _ => agree⟩

/-- Texts that differ inside of both are never found equal. -/
theorem compareFrom_ne_one {position : Nat} (inFirst : position < first.length)
    (inSecond : position < second.length) (different : first[position] ≠ second[position]) :
    compareFrom junk 0 ⟨first, true⟩ ⟨second, true⟩ ≠ 1 := by
  intro equal
  have agree := Iff.mp compareFrom_eq_one_iff equal position (inFirst.le.trans (le_max_left _ _))
  rw [List.getD_eq_getElem _ _ inFirst, List.getD_eq_getElem _ _ inSecond] at agree
  exact different agree

/-- The character of the longer text, which the other variable may hold by chance. -/
def longer (first second : List UInt8) (position : Nat) : UInt8 :=
  first.getD position (second.getD position 0)

/-- Other texts are found equal when each character that is not read holds the other one. -/
theorem compareFrom_longer
    (agree : ∀ position (inFirst : position < first.length) (inSecond : position < second.length),
      first[position] = second[position]) :
    compareFrom (fun round => (longer first second round, longer first second round)) 0 ⟨first, true⟩
      ⟨second, true⟩ = 1 := by
  rw [compareFrom_eq_one_iff]
  intro position _
  by_cases inFirst : position < first.length
  · by_cases inSecond : position < second.length
    · rw [List.getD_eq_getElem _ _ inFirst, List.getD_eq_getElem _ _ inSecond]
      exact agree position inFirst inSecond
    · rw [List.getD_eq_default second _ (Nat.le_of_not_lt inSecond), longer,
        List.getD_eq_getElem _ _ inFirst,
        List.getD_eq_getElem _ _ inFirst]
  · have past := Nat.le_of_not_lt inFirst
    simp only [longer, List.getD_eq_default _ _ past]
    by_cases inSecond : position < second.length
    · rw [List.getD_eq_getElem _ _ inSecond, List.getD_eq_getElem _ _ inSecond]
    · rw [List.getD_eq_default _ _ (Nat.le_of_not_lt inSecond),
        List.getD_eq_default _ _ (Nat.le_of_not_lt inSecond)]

/-- Equal texts are found different when the characters that are not read hold different ones. -/
theorem compareFrom_self (text : List UInt8) :
    compareFrom (fun _ => (0, 1)) 0 ⟨text, true⟩ ⟨text, true⟩ ≠ 1 := by
  intro equal
  have agree := Iff.mp compareFrom_eq_one_iff equal text.length (le_max_left _ _)
  rw [List.getD_eq_default _ _ le_rfl, List.getD_eq_default _ _ le_rfl] at agree
  exact absurd agree (by decide)

end Compare

/-- `FileCompare` finds out whether two files are equal, whatever its characters hold, exactly when
the texts differ at a position that both have. -/
theorem fileCompare_decides_iff (shown : List UInt8 → List UInt8) (directory : Directory)
    {fname1 fname2 : Name} {content1 content2 : List UInt8}
    (file1 : directory fname1 = some (.file content1)) (file2 : directory fname2 = some (.file content2)) :
    (∀ junk stat, (fileCompare shown junk directory stat fname1 fname2).1 = 0 ∧
        ((fileCompare shown junk directory stat fname1 fname2).2 = 1 ↔ content1 = content2)) ↔
      ∃ (position : Nat) (inFirst : position < (shown content1).length)
        (inSecond : position < (shown content2).length),
        (shown content1)[position] ≠ (shown content2)[position] := by
  simp only [fileCompare, file1, file2, true_and]
  constructor
  · intro decides
    by_contra same
    push Not at same
    obtain rfl := (decides _ 0).mp (compareFrom_longer same)
    exact compareFrom_self _ ((decides _ 0).mpr rfl)
  · rintro ⟨position, inFirst, inSecond, different⟩ junk _
    refine iff_of_false (compareFrom_ne_one inFirst inSecond different) ?_
    rintro rfl
    exact different rfl

/-- One file with a byte, and another one with a different byte. -/
def twoBytes : Directory :=
  Function.update (Function.update (fun _ => none) ['a'] (some (.file [1]))) ['b'] (some (.file [2]))

theorem fileCompare_twoBytes :
    (twoBytes ['a'] = some (.file [1]) ∧ twoBytes ['b'] = some (.file [2])) ∧
      ∀ junk stat, (fileCompare id junk twoBytes stat ['a'] ['b']).1 = 0 ∧
        ((fileCompare id junk twoBytes stat ['a'] ['b']).2 = 1 ↔ [1] = [(2 : UInt8)]) :=
  ⟨⟨rfl, rfl⟩,
    (fileCompare_decides_iff id twoBytes rfl rfl).mpr ⟨0, by decide, by decide, by decide⟩⟩

/-- Two empty files are found different when the characters hold different values, and an empty file
is found equal to another one when the first character holds what the second file begins with. -/
theorem fileCompare_empty :
    (fileCompare id (fun _ => (0, 1)) (fun _ => some (.file [])) 1 ['a'] ['b']).2 ≠ 1 ∧
      (fileCompare id (fun _ => (7, 7))
        (fun name => if name = ['a'] then some (.file []) else some (.file [7])) 0 ['a'] ['b']).2 = 1 :=
  ⟨compareFrom_self [], compareFrom_eq_one_iff.mpr (by decide)⟩

end Tegenaria.LibFile
