import Tegenaria.QCBuild.SourceFile

/-!
# Loading into an object again

`ListComponents` walks through a tree with one `SourceInfo` object and loads every
component into it.  A call starts with `SourceInfo::clear`, so that what the object held
before does not matter for the type, the variables and the needed components.  Two calls are
compared line by line: two objects that differ at most in their private directories still do
after a line, and the line ends both calls in the same way or none.
-/

namespace Tegenaria.QCBuild

open LibStr

namespace SourceInfo

/-- The object after a call of `loadFromFile` and the exit code.  There is neither when the
program is left through `Fatal`, or when a string is read outside its bounds. -/
def reload (info : SourceInfo) (targetMachine currentDir : Text) (loaded : Option Text) :
    Option (SourceInfo × Int) :=
  match info.loadFromFile targetMachine currentDir loaded with
  | .ok result => some (result, 0)
  | .error .notLoaded => some (info, -1)
  | .error (.operatorExpected result) => some (result, -1)
  | .error _ => none

/-- The objects differ at most in their private directories. -/
structure Alike (first second : SourceInfo) : Prop where
  type : first.type = second.type
  dependsResolved : first.dependsResolved = second.dependsResolved
  vars : first.vars = second.vars
  dependsSet : first.dependsSet = second.dependsSet

def withPrivateDirs (info : SourceInfo) (dirs : Finset Text) : SourceInfo :=
  { info with privateDirsSet := dirs }

theorem Alike.eq_withPrivateDirs {first second : SourceInfo} (alike : first.Alike second) :
    second = first.withPrivateDirs second.privateDirsSet := by
  obtain ⟨type, resolved, vars, depends, dirs⟩ := second
  obtain ⟨rfl, rfl, rfl, rfl⟩ := alike
  rfl

theorem alike_withPrivateDirs (info : SourceInfo) (dirs : Finset Text) :
    info.Alike (info.withPrivateDirs dirs) :=
  ⟨rfl, rfl, rfl, rfl⟩

theorem clear_alike (first second : SourceInfo) : first.clear.Alike second.clear :=
  ⟨rfl, rfl, rfl, rfl⟩

/-! ## Assignments -/

@[simp] theorem withPrivateDirs_type (info : SourceInfo) (dirs : Finset Text) :
    (info.withPrivateDirs dirs).type = info.type := rfl

@[simp] theorem withPrivateDirs_get (info : SourceInfo) (dirs : Finset Text) (lvalue : Text) :
    (info.withPrivateDirs dirs).get lvalue = info.get lvalue := rfl

@[simp] theorem withPrivateDirs_isPart (info : SourceInfo) (dirs : Finset Text) :
    (info.withPrivateDirs dirs).isPart = info.isPart := rfl

@[simp] theorem withPrivateDirs_assign (info : SourceInfo) (dirs : Finset Text)
    (lvalue rvalue : Text) (concat : Bool) :
    (info.withPrivateDirs dirs).assign lvalue rvalue concat =
      (info.assign lvalue rvalue concat).withPrivateDirs dirs := by
  have sameTest : (info.withPrivateDirs dirs).isset lvalue = info.isset lvalue := rfl
  rw [assign, assign, sameTest]
  split_ifs <;> rfl

@[simp] theorem withPrivateDirs_setDepends (info : SourceInfo) (dirs : Finset Text)
    (rvalue : Text) (concat : Bool) :
    (info.withPrivateDirs dirs).setDepends rvalue concat =
      (info.setDepends rvalue concat).withPrivateDirs dirs := rfl

end SourceInfo

/-! ## Ends of two computations -/

/-- Both computations give related results, or both meet a line without an operator and leave
objects that differ at most in their private directories, or neither returns, for the same
reason. -/
inductive EndAlike {α : Type} (related : α → α → Prop) :
    Except LoadFailure α → Except LoadFailure α → Prop where
  | ok {first second : α} (results : related first second) : EndAlike related (.ok first) (.ok second)
  | operatorExpected {first second : SourceInfo} (alike : first.Alike second) :
      EndAlike related (.error (.operatorExpected first)) (.error (.operatorExpected second))
  | fatal : EndAlike related (.error .fatal) (.error .fatal)
  | outsideString : EndAlike related (.error .outsideString) (.error .outsideString)

namespace EndAlike

variable {α β : Type} {related : α → α → Prop} {related' : β → β → Prop}
  {first second : Except LoadFailure α}

theorem bind (ends : EndAlike related first second) {next next' : α → Except LoadFailure β}
    (goOn : ∀ result result', related result result' → EndAlike related' (next result) (next' result')) :
    EndAlike related' (first.bind next) (second.bind next') := by
  cases ends with
  | ok results => exact goOn _ _ results
  | operatorExpected alike => exact .operatorExpected alike
  | fatal => exact .fatal
  | outsideString => exact .outsideString

theorem map (ends : EndAlike related first second) {next next' : α → β}
    (goOn : ∀ result result', related result result' → related' (next result) (next' result')) :
    EndAlike related' (first.map next) (second.map next') := by
  cases ends with
  | ok results => exact .ok (goOn _ _ results)
  | operatorExpected alike => exact .operatorExpected alike
  | fatal => exact .fatal
  | outsideString => exact .outsideString

end EndAlike

theorem SourceInfo.setRoot_alike (info : SourceInfo) (dirs : Finset Text) :
    EndAlike Alike info.setRoot (info.withPrivateDirs dirs).setRoot := by
  rw [setRoot, setRoot, withPrivateDirs_get, withPrivateDirs_get]
  cases createRelativePath (info.get compDirName) (info.get rootName) with
  | none => exact .outsideString
  | some path =>
      simp only [withPrivateDirs_assign, withPrivateDirs_get]
      exact .ok (alike_withPrivateDirs _ dirs)

/-- Variables are set alike whatever the private directories are.  `AUTODOC_PRIVATE_DIRS`
changes nothing else. -/
theorem SourceInfo.Alike.set {first second : SourceInfo} (alike : first.Alike second)
    (lvalue rvalue : Text) (concat : Bool) :
    EndAlike Alike (first.set lvalue rvalue concat) (second.set lvalue rvalue concat) := by
  rw [alike.eq_withPrivateDirs]
  generalize second.privateDirsSet = dirs
  simp only [SourceInfo.set, withPrivateDirs_assign, withPrivateDirs_type, withPrivateDirs_isPart,
    withPrivateDirs_setDepends]
  generalize first.assign lvalue rvalue concat = info
  split_ifs
  · exact .ok (alike_withPrivateDirs _ dirs)
  · exact .ok ⟨rfl, rfl, rfl, rfl⟩
  · exact .fatal
  · exact info.setRoot_alike dirs
  · exact .ok (alike_withPrivateDirs info dirs)

/-! ## The end of the loop -/

/-- How many letters of the buffer are not zero. -/
def lettersLeft (p : Text) : Nat := p.countP (· ≠ '\x00')

theorem lettersLeft_append (first second : Text) :
    lettersLeft (first ++ second) = lettersLeft first + lettersLeft second :=
  List.countP_append

theorem lettersLeft_cons {letter : Char} (present : letter ≠ '\x00') (p : Text) :
    lettersLeft (letter :: p) = lettersLeft p + 1 :=
  List.countP_cons_of_pos (by simp [present])

theorem lettersLeft_le {first second : Text} (part : first.Sublist second) :
    lettersLeft first ≤ lettersLeft second :=
  part.countP_le

/-- Cleaning a token only writes zeros. -/
theorem lettersLeft_cleanToken_le (p : Text) : lettersLeft (cleanToken p) ≤ lettersLeft (skipWhites p) := by
  rw [cleanToken]
  generalize skipWhites p = p
  have kept : lettersLeft ((cStr p).rdropWhile isSpace) ≤ lettersLeft (cStr p) :=
    lettersLeft_le (List.rdropWhile_prefix isSpace _).sublist
  have zeros (count : Nat) : lettersLeft (List.replicate count '\x00') = 0 := by
    rw [lettersLeft, List.countP_replicate]
    rfl
  have whole : lettersLeft p = lettersLeft (cStr p) + lettersLeft (p.drop (cStr p).length) := by
    have split : cStr p ++ p.drop (cStr p).length = p :=
      List.prefix_iff_eq_append.mp (List.takeWhile_prefix _)
    rw [← lettersLeft_append, split]
  rw [lettersLeft_append, lettersLeft_append, zeros, whole]
  omega

/-- A token keeps the letter it starts with. -/
theorem cleanToken_cons {letter : Char} (present : letter ≠ '\x00') (visible : isSpace letter = false)
    (p : Text) : ∃ rest, cleanToken (letter :: p) = letter :: rest := by
  have start : skipWhites (letter :: p) = letter :: p :=
    List.dropWhile_cons_of_neg (by simp [visible])
  have string : cStr (letter :: p) = letter :: cStr p :=
    List.takeWhile_cons_of_pos (by simp [present])
  have keptPart := List.rdropWhile_prefix isSpace (letter :: cStr p)
  rw [cleanToken, start, string]
  cases kept : (letter :: cStr p).rdropWhile isSpace with
  | nil =>
      have blank := List.rdropWhile_eq_nil_iff.mp kept letter List.mem_cons_self
      rw [visible] at blank
      cases blank
  | cons first rest =>
      rw [kept, List.cons_prefix_cons] at keptPart
      rw [keptPart.1]
      exact ⟨_, rfl⟩

/-- The next line is behind the letters of this one and the line ends. -/
theorem skipLine_next (p : Text) :
    ∃ eols, (skipLine p).2 =
      p.drop ((p.takeWhile fun letter => letter ≠ '\x00' ∧ isEol letter = false).length + eols) := by
  rw [skipLine]
  split <;> exact ⟨_, rfl⟩

/-- A round of the loop uses up a letter: white space before the line, or the line. -/
theorem lettersLeft_skipLine_lt {p : Text} (something : letterAt p ≠ '\x00') :
    lettersLeft (skipLine (cleanToken p)).2 < lettersLeft p := by
  cases p with
  | nil => exact absurd rfl something
  | cons letter p =>
      have present : letter ≠ '\x00' := something
      obtain ⟨eols, next⟩ := skipLine_next (cleanToken (letter :: p))
      have cleaned := lettersLeft_cleanToken_le (letter :: p)
      rw [lettersLeft_cons present, Nat.lt_succ_iff]
      cases visible : isSpace letter with
      | true =>
          have skipped : skipWhites (letter :: p) = skipWhites p := List.dropWhile_cons_of_pos visible
          calc lettersLeft (skipLine (cleanToken (letter :: p))).2
              ≤ lettersLeft (cleanToken (letter :: p)) := next ▸ lettersLeft_le (List.drop_sublist _ _)
            _ ≤ lettersLeft (skipWhites p) := skipped ▸ cleaned
            _ ≤ lettersLeft p := lettersLeft_le (List.dropWhile_sublist _)
      | false =>
          have start : skipWhites (letter :: p) = letter :: p :=
            List.dropWhile_cons_of_neg (by simp [visible])
          have inLine : isEol letter = false := by
            by_contra isEnd
            have either : letter = '\r' ∨ letter = '\n' :=
              of_decide_eq_true (Bool.not_eq_false _ ▸ isEnd)
            rcases either with rfl | rfl <;> exact absurd visible (by decide)
          obtain ⟨rest, token⟩ := cleanToken_cons present visible p
          rw [token, List.takeWhile_cons_of_pos (by simp [present, inLine]), List.length_cons,
            Nat.add_right_comm, List.drop_succ_cons] at next
          rw [token, start, lettersLeft_cons present, lettersLeft_cons present] at cleaned
          calc lettersLeft (skipLine (cleanToken (letter :: p))).2
              = lettersLeft (rest.drop _) := by rw [token, next]
            _ ≤ lettersLeft rest := lettersLeft_le (List.drop_sublist _ _)
            _ ≤ lettersLeft p := Nat.le_of_succ_le_succ cleaned

/-! ## Lines -/

namespace Reader

/-- The local variables are the same, and the objects differ at most in their private
directories. -/
structure Alike (first second : Reader) : Prop where
  info : first.info.Alike second.info
  currentSection : first.currentSection = second.currentSection
  currentSectionsSet : first.currentSectionsSet = second.currentSectionsSet

variable {first second : Reader}

theorem Alike.enterSection (alike : first.Alike second) (p : Text) :
    EndAlike Alike (first.enterSection p) (second.enterSection p) := by
  rw [Reader.enterSection, Reader.enterSection]
  split_ifs
  · exact .outsideString
  · refine .ok ⟨alike.info, rfl, ?_⟩
    rw [alike.currentSectionsSet]

theorem Alike.targeted (alike : first.Alike second) (targetMachine : Text) :
    first.targeted targetMachine = second.targeted targetMachine := by
  rw [Reader.targeted, Reader.targeted, alike.currentSection, alike.currentSectionsSet]

/-- The object is replaced by one that is set alike. -/
theorem Alike.setInfo (alike : first.Alike second) (lvalue rvalue : Text) (concat : Bool) :
    EndAlike Alike ((first.info.set lvalue rvalue concat).map fun info => { first with info })
      ((second.info.set lvalue rvalue concat).map fun info => { second with info }) :=
  (alike.info.set lvalue rvalue concat).map fun _ _ infos =>
    ⟨infos, alike.currentSection, alike.currentSectionsSet⟩

theorem Alike.execute (alike : first.Alike second) (line : Text) :
    EndAlike Alike (first.execute line) (second.execute line) := by
  rw [Reader.execute, Reader.execute]
  cases cutAtCat line with
  | some parts => exact alike.setInfo _ _ true
  | none =>
      cases cutAt '=' line with
      | some parts => exact alike.setInfo _ _ false
      | none => exact .operatorExpected alike.info

theorem Alike.parseLine (alike : first.Alike second) (targetMachine p : Text) :
    EndAlike Alike (first.parseLine targetMachine p) (second.parseLine targetMachine p) := by
  rw [Reader.parseLine, Reader.parseLine]
  cases cStr p with
  | nil => exact .ok alike
  | cons letter line =>
      simp only [alike.targeted targetMachine]
      split_ifs
      · exact .ok alike
      · exact alike.enterSection p
      · exact .ok ⟨alike.info, rfl, rfl⟩
      · exact .ok alike
      · exact alike.execute (letter :: line)
      · exact .ok alike

/-- The loop ends, since every round uses up a letter. -/
theorem Alike.loadLines (targetMachine : Text) (fuel : Nat) {first second : Reader}
    (alike : first.Alike second) (p : Text) (enough : lettersLeft p < fuel) :
    EndAlike Alike (loadLines targetMachine fuel first p) (loadLines targetMachine fuel second p) := by
  induction fuel generalizing first second p with
  | zero => exact absurd enough (Nat.not_lt_zero _)
  | succ fuel ih =>
      rw [Reader.loadLines, Reader.loadLines]
      split_ifs with ended
      · exact .ok alike
      · have shorter : lettersLeft (skipLine (cleanToken p)).2 < fuel :=
          Nat.lt_of_lt_of_le (lettersLeft_skipLine_lt ended) (Nat.le_of_lt_succ enough)
        exact (alike.parseLine targetMachine _).bind fun _ _ readers => ih readers _ shorter

end Reader

/-! ## Two calls -/

/-- Two calls for the same text from the same directory end alike. -/
theorem loadFromFile_alike (first second : SourceInfo) (targetMachine currentDir text : Text) :
    EndAlike SourceInfo.Alike (first.loadFromFile targetMachine currentDir (some text))
      (second.loadFromFile targetMachine currentDir (some text)) := by
  have start : Reader.Alike ⟨first.clear, Reader.commonName, ∅⟩ ⟨second.clear, Reader.commonName, ∅⟩ :=
    ⟨SourceInfo.clear_alike first second, rfl, rfl⟩
  have enough : lettersLeft (text ++ ['\x00']) < text.length + 1 := by
    rw [lettersLeft_append]
    exact Nat.lt_succ_of_le List.countP_le_length
  exact (start.loadLines targetMachine _ _ enough).bind fun _ _ readers => readers.info.set _ _ _

/-- What the object held before a call matters for its private directories only.  Two calls
for the same text from the same directory return the same exit code and leave objects that
differ at most in their private directories, or both leave the program, or both read a string
outside its bounds.  A call for a file that cannot be loaded leaves the object as it was. -/
theorem reload_independent (first second : SourceInfo) (targetMachine currentDir : Text) :
    (∀ text,
      (∃ result result' exitCode,
        first.reload targetMachine currentDir (some text) = some (result, exitCode) ∧
        second.reload targetMachine currentDir (some text) = some (result', exitCode) ∧
        result.Alike result') ∨
      ∃ failure, (failure = .fatal ∨ failure = .outsideString) ∧
        first.loadFromFile targetMachine currentDir (some text) = .error failure ∧
        second.loadFromFile targetMachine currentDir (some text) = .error failure) ∧
      first.reload targetMachine currentDir none = some (first, -1) := by
  refine ⟨fun text => ?_, rfl⟩
  have ends := loadFromFile_alike first second targetMachine currentDir text
  simp only [SourceInfo.reload]
  generalize first.loadFromFile targetMachine currentDir (some text) = firstEnd at ends ⊢
  generalize second.loadFromFile targetMachine currentDir (some text) = secondEnd at ends ⊢
  cases ends with
  | ok results => exact .inl ⟨_, _, 0, rfl, rfl, results⟩
  | operatorExpected alike => exact .inl ⟨_, _, -1, rfl, rfl, alike⟩
  | fatal => exact .inr ⟨_, .inl rfl, rfl, rfl⟩
  | outsideString => exact .inr ⟨_, .inr rfl, rfl, rfl⟩

/-- A component with a private directory. -/
def hidingComponent : SourceInfo := (component ['A'] ∅).withPrivateDirs {['d']}

/-- The empty text is loaded into both objects, and one of them keeps its private directory.
The text `x` has no operator, and the object has lost its title after the call. -/
theorem reload_not_exact :
    (¬ ∀ (first second : SourceInfo) (targetMachine currentDir text : Text) (result result' : SourceInfo),
      first.reload targetMachine currentDir (some text) = some (result, 0) →
      second.reload targetMachine currentDir (some text) = some (result', 0) → result = result') ∧
    ¬ ∀ (info : SourceInfo) (targetMachine currentDir : Text) (loaded : Option Text) (result : SourceInfo)
      (exitCode : Int), info.reload targetMachine currentDir loaded = some (result, exitCode) →
      exitCode ≠ 0 → result = info := by
  constructor
  · intro same
    have kept := same hidingComponent (component ['A'] ∅) [] ['/'] [] _ _ rfl rfl
    exact absurd (congrArg SourceInfo.privateDirsSet kept) (by decide)
  · intro unchanged
    have kept := unchanged (component ['A'] ∅) [] ['/'] (some ['x']) _ (-1) rfl (by decide)
    exact absurd (congrArg SourceInfo.title kept) (by decide)

end Tegenaria.QCBuild
