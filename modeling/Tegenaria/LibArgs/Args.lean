import Mathlib.Data.Finset.Insert
import Mathlib.Data.Finset.Lattice.Lemmas
import Mathlib.Data.List.Induction
import Mathlib.Logic.Function.Basic
import Tegenaria.LibStr.Text

/-!
# Program arguments

`ArgsParse` reads the arguments of a program with a table of options.  An option sets
its target to a number of its own or takes the next argument for its value.  The table
is searched to its end also after a value was taken, then with the value in place of
the option.
-/

namespace Tegenaria.LibArgs

open LibStr

/-- The types of the entries of a table.  `ARGS_NULL` stands behind the last entry. -/
inductive ArgsType where
  | int | double | float | string | char | mode | flag

def ArgsType.takesValue : ArgsType → Bool
  | .mode | .flag => false
  | .int | .double | .float | .string | .char => true

/-- An entry of a table of options.  The target is the address of a variable. -/
structure ArgsObj where
  type_ : ArgsType
  pattern_ : Text
  target_ : Nat
  intVal_ : Int

/-- The number functions of the C library. -/
structure NumberReader (Double Single : Type) where
  atoi : Text → Int
  atof : Text → Double
  narrow : Double → Single

inductive TargetValue (Double Single : Type) where
  | int (value : Int)
  | double (value : Double)
  | float (value : Single)
  | string (value : Text)
  | char (value : Char)

/-- A place of an argument vector that is read as an option or as the value of one. -/
inductive ArgRead where
  | option (index : Nat)
  | value (index : Nat)
  deriving DecidableEq

def ArgRead.index : ArgRead → Nat
  | .option index | .value index => index

section Parse

variable {Double Single : Type} (numbers : NumberReader Double Single)

abbrev Targets (Double Single : Type) := Nat → TargetValue Double Single

/-- What an entry assigns to its target. -/
def ArgsObj.given (entry : ArgsObj) (value : Text) : TargetValue Double Single :=
  match entry.type_ with
  | .int => .int (numbers.atoi value)
  | .double => .double (numbers.atof value)
  | .float => .float (numbers.narrow (numbers.atof value))
  | .string => .string value
  | .char => .char (value.head?.getD '\x00')
  | .mode => .int entry.intVal_
  | .flag => .int 1

structure ParseState (Double Single : Type) where
  i : Nat
  found : Bool
  targets : Targets Double Single
  reads : Finset ArgRead

/-- The result of searching the table: its end was reached, or the call ends.  There is
no exit code when an argument behind the last one is read. -/
inductive Scan (Double Single : Type) where
  | done (state : ParseState Double Single)
  | stopped (exitCode : Option Int) (state : ParseState Double Single)

def Scan.state : Scan Double Single → ParseState Double Single
  | .done state | .stopped _ state => state

/-- The argument with a positive index.  The name of the program is not among `args`. -/
def argvAt (args : List Text) (i : Nat) : Option Text := args[i - 1]?

/-- The loop over the table. -/
@[grind =] def scanTable (args : List Text) (argsToEnd : Nat) :
    List ArgsObj → ParseState Double Single → Scan Double Single
  | [], state => .done state
  | entry :: entries, state =>
      match argvAt args state.i with
      | none => .stopped none state
      | some arg =>
          if entry.pattern_ = arg then
            let state := { state with found := true, reads := insert (.option state.i) state.reads }
            if entry.type_.takesValue then
              if argsToEnd = 0 then .stopped (some (-1)) state
              else
                let i := state.i + 1
                match argvAt args i with
                | none => .stopped none state
                | some value =>
                    scanTable args argsToEnd entries
                      { state with
                        i := i
                        targets :=
                          Function.update state.targets entry.target_ (entry.given numbers value)
                        reads := insert (.value i) state.reads }
            else
              scanTable args argsToEnd entries
                { state with
                  targets := Function.update state.targets entry.target_ (entry.given numbers []) }
          else scanTable args argsToEnd entries state

structure ParseResult (Double Single : Type) where
  exitCode : Option Int
  targets : Targets Double Single
  reads : Finset ArgRead

/-- The loop over the arguments. -/
@[grind =] def parseLoop (table : List ArgsObj) (args : List Text) :
    Nat → (i : Nat) → Targets Double Single → Finset ArgRead → ParseResult Double Single
  | 0, _, targets, reads => { exitCode := none, targets := targets, reads := reads }
  | fuel + 1, i, targets, reads =>
      let argc := args.length + 1
      if i < argc then
        match scanTable numbers args (argc - i - 1) table
          { i := i, found := false, targets := targets, reads := reads } with
        | .stopped exitCode state =>
            { exitCode := exitCode, targets := state.targets, reads := state.reads }
        | .done state =>
            if state.found then parseLoop table args fuel (state.i + 1) state.targets state.reads
            else { exitCode := some (-1), targets := state.targets, reads := state.reads }
      else { exitCode := some 0, targets := targets, reads := reads }

/-- `ArgsParse` for the arguments behind the name of the program. -/
def argsParse (table : List ArgsObj) (args : List Text) (targets : Targets Double Single) :
    ParseResult Double Single :=
  parseLoop numbers table args (args.length + 1) 1 targets ∅

end Parse

/-! ## Reading from left to right -/

/-- An option that was given, with the value behind it. -/
structure Occurrence where
  pattern : Text
  value : Option Text

def known (table : List ArgsObj) (arg : Text) : Bool := table.any (·.pattern_ = arg)

def takesValue (table : List ArgsObj) (arg : Text) : Bool :=
  table.any fun entry => entry.pattern_ = arg ∧ entry.type_.takesValue

/-- The options of an argument list up to the first mistake, and whether there is none. -/
@[grind =] def readOptions (table : List ArgsObj) : List Text → List Occurrence × Bool
  | [] => ([], true)
  | arg :: rest =>
      if known table arg then
        if takesValue table arg then
          match rest with
          | [] => ([{ pattern := arg, value := none }], false)
          | value :: rest =>
              let (occurrences, complete) := readOptions table rest
              ({ pattern := arg, value := some value } :: occurrences, complete)
        else
          let (occurrences, complete) := readOptions table rest
          ({ pattern := arg, value := none } :: occurrences, complete)
      else ([], false)

section Meaning

variable {Double Single : Type} (numbers : NumberReader Double Single)

/-- The targets that entries with the pattern of an occurrence set, and their values. -/
def assignments (entries : List ArgsObj) (occurrence : Occurrence) :
    List (Nat × TargetValue Double Single) :=
  (entries.filter (·.pattern_ = occurrence.pattern)).map fun entry =>
    (entry.target_, entry.given numbers (occurrence.value.getD []))

/-- The last value for a target. -/
def lastGiven (given : List (Nat × TargetValue Double Single)) (target : Nat) :
    Option (TargetValue Double Single) :=
  (given.filter (·.1 = target)).getLast?.map Prod.snd

/-- The entries of a table up to the first one that takes the value of an option. -/
def heard (arg : Text) : List ArgsObj → List ArgsObj
  | [] => []
  | entry :: entries =>
      if entry.pattern_ = arg ∧ entry.type_.takesValue then [entry]
      else entry :: heard arg entries

/-- The entries behind the first one that takes the value of an option. -/
def behindTaker (arg : Text) : List ArgsObj → List ArgsObj
  | [] => []
  | entry :: entries =>
      if entry.pattern_ = arg ∧ entry.type_.takesValue then entries
      else behindTaker arg entries

/-- The arguments are consumed from left to right. -/
structure ConsumesOptions (table : List ArgsObj) (args : List Text) (targets : Targets Double Single) :
    Prop where
  once : ∀ i, ArgRead.option i ∈ (argsParse numbers table args targets).reads →
    ArgRead.value i ∉ (argsParse numbers table args targets).reads
  behind : ∀ i, ArgRead.value (i + 1) ∈ (argsParse numbers table args targets).reads →
    ArgRead.option i ∈ (argsParse numbers table args targets).reads
  inside : (argsParse numbers table args targets).exitCode ≠ none ∧
    ∀ place ∈ (argsParse numbers table args targets).reads,
      1 ≤ place.index ∧ place.index < args.length + 1
  fails : (argsParse numbers table args targets).exitCode = some (-1) ↔
    (readOptions table args).2 = false
  all : (argsParse numbers table args targets).exitCode = some 0 → ∀ i, 1 ≤ i → i < args.length + 1 →
    ArgRead.option i ∈ (argsParse numbers table args targets).reads ∨
      ArgRead.value i ∈ (argsParse numbers table args targets).reads
  assigned : (argsParse numbers table args targets).exitCode = some 0 → ∀ target,
    (argsParse numbers table args targets).targets target =
      (lastGiven ((readOptions table args).1.flatMap (assignments numbers table)) target).getD
        (targets target)

/-- No value is the pattern of an entry behind the one that takes it. -/
def Unmistakable (table : List ArgsObj) (args : List Text) : Prop :=
  ∀ occurrence ∈ (readOptions table args).1, ∀ entry ∈ behindTaker occurrence.pattern table,
    some entry.pattern_ ≠ occurrence.value

/-- Entries behind one that takes the value of the same option would not change the last
value of a target. -/
def ShadowsNothing (table : List ArgsObj) (args : List Text) : Prop :=
  (readOptions table args).2 = true → ∀ target,
    lastGiven ((readOptions table args).1.flatMap fun occurrence =>
        assignments numbers (heard occurrence.pattern table) occurrence) target =
      lastGiven ((readOptions table args).1.flatMap (assignments numbers table)) target

end Meaning

/-! ## Searching the table -/

section Scan

variable {Double Single : Type} {numbers : NumberReader Double Single} {args : List Text}
  {argsToEnd : Nat} {state : ParseState Double Single} {arg : Text}

def assignAll (targets : Targets Double Single) (given : List (Nat × TargetValue Double Single)) :
    Targets Double Single :=
  given.foldl (fun targets pair => Function.update targets pair.1 pair.2) targets

theorem assignAll_append (targets : Targets Double Single)
    (first second : List (Nat × TargetValue Double Single)) :
    assignAll targets (first ++ second) = assignAll (assignAll targets first) second :=
  List.foldl_append

theorem assignAll_last (targets : Targets Double Single)
    (given : List (Nat × TargetValue Double Single)) (target : Nat) :
    assignAll targets given target = (lastGiven given target).getD (targets target) := by
  induction given using List.reverseRecOn with
  | nil => rfl
  | append_singleton given pair ih =>
      rw [assignAll_append, lastGiven, List.filter_append]
      by_cases same : pair.1 = target
      · rw [List.filter_cons_of_pos (by simpa using same), List.filter_nil, List.getLast?_concat,
          ← same]
        exact Function.update_self ..
      · rw [List.filter_cons_of_neg (by simpa using same), List.filter_nil, List.append_nil]
        exact (Function.update_of_ne (Ne.symm same) _ _).trans ih

/-- The reads of a search are added to those before. -/
theorem scanTable_mono (entries : List ArgsObj) (state : ParseState Double Single) :
    state.reads ⊆ (scanTable numbers args argsToEnd entries state).state.reads := by
  induction entries generalizing state with
  | nil => exact Finset.Subset.refl _
  | cons entry entries ih =>
      rw [scanTable]
      split
      · exact Finset.Subset.refl _
      · split
        · have added : state.reads ⊆ insert (ArgRead.option state.i) state.reads :=
            Finset.subset_insert _ _
          dsimp only
          split
          · split
            · exact added
            · split
              · exact added
              · refine Finset.Subset.trans ?_ (ih _)
                exact added.trans (Finset.subset_insert _ _)
          · refine Finset.Subset.trans ?_ (ih _)
            exact added
        · exact ih state

/-- Entries of other options leave everything as it is. -/
theorem scanTable_other (here : argvAt args state.i = some arg) {entries : List ArgsObj}
    (other : ∀ entry ∈ entries, entry.pattern_ ≠ arg) :
    scanTable numbers args argsToEnd entries state = .done state := by
  induction entries with
  | nil => rfl
  | cons entry entries ih =>
      rw [List.forall_mem_cons] at other
      rw [scanTable, here]
      dsimp only
      rw [if_neg other.1, ih other.2]

/-- An argument with an entry in the table is read as an option. -/
theorem scanTable_option (here : argvAt args state.i = some arg) {entries : List ArgsObj}
    (known : ∃ entry ∈ entries, entry.pattern_ = arg) :
    ArgRead.option state.i ∈ (scanTable numbers args argsToEnd entries state).state.reads := by
  induction entries with
  | nil => simp at known
  | cons entry entries ih =>
      rw [scanTable, here]
      dsimp only
      by_cases same : entry.pattern_ = arg
      · rw [if_pos same]
        have added : ArgRead.option state.i ∈ insert (ArgRead.option state.i) state.reads :=
          Finset.mem_insert_self _ _
        split
        · split
          · exact added
          · split
            · exact added
            · exact scanTable_mono _ _ (Finset.mem_insert_of_mem added)
        · exact scanTable_mono _ _ added
      · rw [if_neg same]
        refine ih ?_
        obtain ⟨other, member, pattern⟩ := known
        rcases List.mem_cons.mp member with rfl | later
        · exact absurd pattern same
        · exact ⟨other, later, pattern⟩

theorem given_flag {entry : ArgsObj} (flag : ¬ entry.type_.takesValue) (value : Text) :
    entry.given numbers value = entry.given numbers [] := by
  obtain ⟨type_, pattern, target, intVal⟩ := entry
  cases type_ with
  | mode | flag => rfl
  | int | double | float | string | char => exact absurd rfl flag

/-- Without an entry that takes a value the search ends where it began. -/
theorem scanTable_flags (here : argvAt args state.i = some arg) {entries : List ArgsObj}
    (flags : takesValue entries arg = false) :
    scanTable numbers args argsToEnd entries state =
      .done { state with
        found := state.found || known entries arg
        targets := assignAll state.targets
          (assignments numbers entries { pattern := arg, value := none })
        reads := if known entries arg then insert (.option state.i) state.reads else state.reads } := by
  induction entries generalizing state with
  | nil => simp [scanTable, known, assignments, assignAll]
  | cons entry entries ih =>
      rw [takesValue, List.any_cons, Bool.or_eq_false_iff, ← takesValue] at flags
      rw [scanTable, here]
      dsimp only
      by_cases same : entry.pattern_ = arg
      · have flag : ¬ entry.type_.takesValue := by simpa [same] using flags.1
        rw [if_pos same, if_neg flag, ih ?_ flags.2]
        · simp [known, assignments, assignAll, same]
        · exact here
      · rw [if_neg same, ih here flags.2]
        simp [known, assignments, same]

/-- An option with a value: the entries up to the one that takes it are obeyed, the
others are compared with the value. -/
theorem scanTable_taker (here : argvAt args state.i = some arg) {value : Text}
    (next : argvAt args (state.i + 1) = some value) (room : argsToEnd ≠ 0) {entries : List ArgsObj}
    (taken : takesValue entries arg = true) :
    scanTable numbers args argsToEnd entries state =
      scanTable numbers args argsToEnd (behindTaker arg entries)
        { i := state.i + 1
          found := true
          targets := assignAll state.targets
            (assignments numbers (heard arg entries) { pattern := arg, value := some value })
          reads := insert (.value (state.i + 1)) (insert (.option state.i) state.reads) } := by
  induction entries generalizing state with
  | nil => simp [takesValue] at taken
  | cons entry entries ih =>
      rw [takesValue, List.any_cons, ← takesValue] at taken
      rw [scanTable, here]
      dsimp only
      by_cases same : entry.pattern_ = arg
      · rw [if_pos same]
        by_cases takes : entry.type_.takesValue
        · rw [if_pos takes, if_neg room, next]
          simp [behindTaker, heard, same, takes, assignments, assignAll]
        · rw [if_neg takes, ih ?_ ?_ (by simpa [takes] using taken)]
          · simp [behindTaker, heard, same, takes, assignments, assignAll, given_flag takes]
          · exact here
          · exact next
      · rw [if_neg same, ih here next (by simpa [same] using taken)]
        simp [behindTaker, heard, same, assignments]

/-- An option whose value is missing. -/
theorem scanTable_missing (here : argvAt args state.i = some arg) {entries : List ArgsObj}
    (taken : takesValue entries arg = true) : ∃ after : ParseState Double Single,
      scanTable numbers args 0 entries state = .stopped (some (-1)) after ∧
        after.reads = insert (.option state.i) state.reads := by
  induction entries generalizing state with
  | nil => simp [takesValue] at taken
  | cons entry entries ih =>
      rw [takesValue, List.any_cons, ← takesValue] at taken
      rw [scanTable, here]
      dsimp only
      by_cases same : entry.pattern_ = arg
      · rw [if_pos same]
        by_cases takes : entry.type_.takesValue
        · rw [if_pos takes, if_pos rfl]
          exact ⟨_, rfl, rfl⟩
        · rw [if_neg takes]
          obtain ⟨after, stopped, reads⟩ := @ih
            { state with
              found := true
              targets := Function.update state.targets entry.target_ (entry.given numbers [])
              reads := insert (.option state.i) state.reads } here (by simpa [takes] using taken)
          exact ⟨after, stopped, by simpa using reads⟩
      · rw [if_neg same]
        exact ih here (by simpa [same] using taken)

end Scan

/-! ## The loop over the arguments -/

section Loop

variable {Double Single : Type} {numbers : NumberReader Double Single} {table : List ArgsObj}
  {args : List Text}

/-- The places that are read, from an index on. -/
@[grind =] def placesFrom : Nat → List Occurrence → Finset ArgRead
  | _, [] => ∅
  | i, occurrence :: rest =>
      insert (.option i)
        (match occurrence.value with
        | none => placesFrom (i + 1) rest
        | some _ => insert (.value (i + 1)) (placesFrom (i + 2) rest))

theorem parseLoop_mono (fuel i : Nat) (targets : Targets Double Single) (reads : Finset ArgRead) :
    reads ⊆ (parseLoop numbers table args fuel i targets reads).reads := by
  induction fuel generalizing i targets reads with
  | zero => exact Finset.Subset.refl _
  | succ fuel ih =>
      have grown := @scanTable_mono _ _ numbers args (args.length + 1 - i - 1) table
        { i := i, found := false, targets := targets, reads := reads }
      rw [parseLoop]
      split
      · split
        · next stopped =>
            rw [stopped] at grown
            exact grown
        · next done =>
            rw [done] at grown
            split
            · exact grown.trans (ih _ _ _)
            · exact grown
      · exact Finset.Subset.refl _

/-- What is read in one search of the table is read by the call. -/
theorem scanTable_subset {i : Nat} (inside : i < args.length + 1) (fuel : Nat)
    (targets : Targets Double Single) (reads : Finset ArgRead) :
    (scanTable numbers args (args.length + 1 - i - 1) table
        { i := i, found := false, targets := targets, reads := reads }).state.reads ⊆
      (parseLoop numbers table args (fuel + 1) i targets reads).reads := by
  rw [parseLoop]
  simp only [if_pos inside]
  split
  · next stopped => rw [stopped]; exact Finset.Subset.refl _
  · next done =>
      rw [done]
      split
      · exact parseLoop_mono _ _ _ _
      · exact Finset.Subset.refl _

/-- The arguments from an index on. -/
structure RestAt (args : List Text) (i : Nat) (rest : List Text) : Prop where
  positive : 1 ≤ i
  dropped : args.drop (i - 1) = rest

variable {i fuel : Nat} {arg : Text} {rest : List Text} {targets : Targets Double Single}
  {reads : Finset ArgRead}

theorem RestAt.here (at_ : RestAt args i (arg :: rest)) : argvAt args i = some arg := by
  have first := @List.head?_drop _ args (i - 1)
  rw [at_.dropped] at first
  exact first.symm

theorem RestAt.next (at_ : RestAt args i (arg :: rest)) : RestAt args (i + 1) rest := by
  have positive := at_.positive
  have moved : i + 1 - 1 = i - 1 + 1 := by omega
  refine ⟨by omega, ?_⟩
  rw [moved, ← List.drop_drop, at_.dropped]
  rfl

theorem RestAt.length (at_ : RestAt args i rest) : args.length + 1 - i = rest.length := by
  have positive := at_.positive
  rw [← at_.dropped, List.length_drop]
  omega

theorem parseLoop_end (at_ : RestAt args i []) :
    parseLoop numbers table args (fuel + 1) i targets reads =
      { exitCode := some 0, targets := targets, reads := reads } := by
  have length := at_.length
  have ended : ¬ i < args.length + 1 := by
    rw [List.length_nil] at length
    omega
  rw [parseLoop]
  exact if_neg ended

theorem RestAt.inside (at_ : RestAt args i (arg :: rest)) :
    i < args.length + 1 ∧ args.length + 1 - i - 1 = rest.length := by
  have length := at_.length
  rw [List.length_cons] at length
  omega

theorem parseLoop_unknown (at_ : RestAt args i (arg :: rest)) (unknown : known table arg = false) :
    parseLoop numbers table args (fuel + 1) i targets reads =
      { exitCode := some (-1), targets := targets, reads := reads } := by
  have other : ∀ entry ∈ table, entry.pattern_ ≠ arg := by simpa [known] using unknown
  rw [parseLoop]
  simp only [if_pos at_.inside.1]
  rw [scanTable_other (by exact at_.here) other]
  rfl

theorem heard_flags {entries : List ArgsObj} (flags : takesValue entries arg = false) :
    heard arg entries = entries ∧ behindTaker arg entries = [] := by
  induction entries with
  | nil => exact ⟨rfl, rfl⟩
  | cons entry entries ih =>
      rw [takesValue, List.any_cons, Bool.or_eq_false_iff, ← takesValue] at flags
      have flag : ¬ (entry.pattern_ = arg ∧ entry.type_.takesValue = true) := by simpa using flags.1
      rw [heard, behindTaker, if_neg flag, if_neg flag, (ih flags.2).1]
      exact ⟨rfl, (ih flags.2).2⟩

theorem parseLoop_flag (at_ : RestAt args i (arg :: rest)) (listed : known table arg = true)
    (flags : takesValue table arg = false) :
    parseLoop numbers table args (fuel + 1) i targets reads =
      parseLoop numbers table args fuel (i + 1)
        (assignAll targets
          (assignments numbers (heard arg table) { pattern := arg, value := none }))
        (insert (.option i) reads) := by
  rw [parseLoop, (heard_flags flags).1]
  simp only [if_pos at_.inside.1]
  rw [scanTable_flags (by exact at_.here) flags]
  simp [listed]

theorem parseLoop_missing (at_ : RestAt args i [arg]) (taken : takesValue table arg = true) :
    (parseLoop numbers table args (fuel + 1) i targets reads).exitCode = some (-1) ∧
      (parseLoop numbers table args (fuel + 1) i targets reads).reads =
        insert (.option i) reads := by
  obtain ⟨after, stopped, added⟩ := @scanTable_missing _ _ numbers args
    { i := i, found := false, targets := targets, reads := reads } arg at_.here table taken
  have toEnd : args.length + 1 - i - 1 = 0 := at_.inside.2
  rw [parseLoop]
  simp only [if_pos at_.inside.1, toEnd, stopped]
  exact ⟨trivial, added⟩

variable {value : Text}

theorem scanTable_value (at_ : RestAt args i (arg :: value :: rest))
    (taken : takesValue table arg = true) :
    scanTable numbers args (args.length + 1 - i - 1) table
        { i := i, found := false, targets := targets, reads := reads } =
      scanTable numbers args (args.length + 1 - i - 1) (behindTaker arg table)
        { i := i + 1
          found := true
          targets := assignAll targets
            (assignments numbers (heard arg table) { pattern := arg, value := some value })
          reads := insert (.value (i + 1)) (insert (.option i) reads) } := by
  refine scanTable_taker (by exact at_.here) (by exact at_.next.here) ?_ taken
  rw [at_.inside.2]
  exact Nat.succ_ne_zero _

theorem parseLoop_value (at_ : RestAt args i (arg :: value :: rest))
    (taken : takesValue table arg = true)
    (distinct : ∀ entry ∈ behindTaker arg table, entry.pattern_ ≠ value) :
    parseLoop numbers table args (fuel + 1) i targets reads =
      parseLoop numbers table args fuel (i + 2)
        (assignAll targets
          (assignments numbers (heard arg table) { pattern := arg, value := some value }))
        (insert (.option i) (insert (.value (i + 1)) reads)) := by
  rw [parseLoop]
  simp only [if_pos at_.inside.1]
  rw [scanTable_value at_ taken, scanTable_other (by exact at_.next.here) distinct, Finset.insert_comm]
  rfl

/-- A value that is the pattern of an entry behind the one that takes it is read as an
option too. -/
theorem parseLoop_mistaken (at_ : RestAt args i (arg :: value :: rest))
    (taken : takesValue table arg = true)
    (mistaken : ∃ entry ∈ behindTaker arg table, entry.pattern_ = value) :
    ArgRead.option (i + 1) ∈ (parseLoop numbers table args (fuel + 1) i targets reads).reads ∧
      ArgRead.value (i + 1) ∈ (parseLoop numbers table args (fuel + 1) i targets reads).reads := by
  have grown := @scanTable_subset _ _ numbers table args i at_.inside.1 fuel targets reads
  rw [scanTable_value at_ taken] at grown
  constructor
  · exact grown (scanTable_option (by exact at_.next.here) mistaken)
  · exact grown (scanTable_mono _ _ (Finset.mem_insert_self _ _))

theorem readOptions_value (listed : known table arg = true) (taken : takesValue table arg = true) :
    readOptions table (arg :: value :: rest) =
      ({ pattern := arg, value := some value } :: (readOptions table rest).1,
        (readOptions table rest).2) := by
  rw [readOptions, if_pos listed, if_pos taken]

theorem readOptions_flag (listed : known table arg = true) (flags : takesValue table arg = false) :
    readOptions table (arg :: rest) =
      ({ pattern := arg, value := none } :: (readOptions table rest).1,
        (readOptions table rest).2) := by
  have noTaker : ¬ takesValue table arg = true := by simp [flags]
  conv_lhs => rw [readOptions.eq_def]
  dsimp only
  rw [if_pos listed, if_neg noTaker]

theorem unmistakable_value (listed : known table arg = true) (taken : takesValue table arg = true) :
    Unmistakable table (arg :: value :: rest) ↔
      (∀ entry ∈ behindTaker arg table, entry.pattern_ ≠ value) ∧ Unmistakable table rest := by
  rw [Unmistakable, readOptions_value listed taken, List.forall_mem_cons]
  simp [Unmistakable]

theorem unmistakable_flag (listed : known table arg = true) (flags : takesValue table arg = false) :
    Unmistakable table (arg :: rest) ↔ Unmistakable table rest := by
  rw [Unmistakable, readOptions_flag listed flags, List.forall_mem_cons]
  simp [Unmistakable]

/-- Without a mistaken value the call reads the options of the argument list. -/
theorem parseLoop_reads (unmistakable : Unmistakable table rest) (at_ : RestAt args i rest)
    (enough : rest.length < fuel) :
    (parseLoop numbers table args fuel i targets reads).exitCode =
        some (if (readOptions table rest).2 then 0 else -1) ∧
      (parseLoop numbers table args fuel i targets reads).reads =
        reads ∪ placesFrom i (readOptions table rest).1 ∧
      ((readOptions table rest).2 = true →
        (parseLoop numbers table args fuel i targets reads).targets =
          assignAll targets ((readOptions table rest).1.flatMap fun occurrence =>
            assignments numbers (heard occurrence.pattern table) occurrence)) := by
  fun_induction readOptions table rest generalizing i fuel targets reads with
  | case1 =>
      obtain ⟨fuel, rfl⟩ := Nat.exists_eq_succ_of_ne_zero (Nat.ne_zero_of_lt enough)
      rw [parseLoop_end at_]
      simp [placesFrom, assignAll]
  | case2 arg listed taken =>
      obtain ⟨fuel, rfl⟩ := Nat.exists_eq_succ_of_ne_zero (Nat.ne_zero_of_lt enough)
      obtain ⟨failed, added⟩ :=
        @parseLoop_missing _ _ numbers table args i fuel arg targets reads at_ taken
      refine ⟨failed, ?_, by simp⟩
      rw [added, placesFrom, placesFrom, Finset.union_insert, Finset.union_empty]
  | case3 arg listed taken value rest occurrences complete read ih =>
      obtain ⟨fuel, rfl⟩ := Nat.exists_eq_succ_of_ne_zero (Nat.ne_zero_of_lt enough)
      rw [List.length_cons, List.length_cons] at enough
      have unmistaken := (unmistakable_value listed taken).mp unmistakable
      obtain ⟨code, places, assigned⟩ := @ih (i + 2) fuel
        (assignAll targets
          (assignments numbers (heard arg table) { pattern := arg, value := some value }))
        (insert (.option i) (insert (.value (i + 1)) reads)) unmistaken.2 at_.next.next (by omega)
      rw [read] at code places assigned
      rw [parseLoop_value at_ taken unmistaken.1]
      refine ⟨code, ?_, fun accepted => ?_⟩
      · rw [places, placesFrom, Finset.insert_union, Finset.insert_union, Finset.union_insert,
          Finset.union_insert]
      · rw [assigned accepted, List.flatMap_cons, assignAll_append]
  | case4 arg rest listed flags occurrences complete read ih =>
      obtain ⟨fuel, rfl⟩ := Nat.exists_eq_succ_of_ne_zero (Nat.ne_zero_of_lt enough)
      rw [List.length_cons] at enough
      have noTaker : takesValue table arg = false := by simpa using flags
      obtain ⟨code, places, assigned⟩ := @ih (i + 1) fuel
        (assignAll targets (assignments numbers (heard arg table) { pattern := arg, value := none }))
        (insert (.option i) reads) ((unmistakable_flag listed noTaker).mp unmistakable) at_.next
        (by omega)
      rw [read] at code places assigned
      rw [parseLoop_flag at_ listed noTaker]
      refine ⟨code, ?_, fun accepted => ?_⟩
      · rw [places, placesFrom, Finset.insert_union, Finset.union_insert]
      · rw [assigned accepted, List.flatMap_cons, assignAll_append]
  | case5 arg rest unknown =>
      obtain ⟨fuel, rfl⟩ := Nat.exists_eq_succ_of_ne_zero (Nat.ne_zero_of_lt enough)
      rw [parseLoop_unknown at_ (by simpa using unknown)]
      simp [placesFrom]

/-- A mistaken value is read as a value and as an option. -/
theorem parseLoop_twice (mistakable : ¬ Unmistakable table rest) (at_ : RestAt args i rest)
    (enough : rest.length < fuel) : ∃ place,
      ArgRead.option place ∈ (parseLoop numbers table args fuel i targets reads).reads ∧
        ArgRead.value place ∈ (parseLoop numbers table args fuel i targets reads).reads := by
  fun_induction readOptions table rest generalizing i fuel targets reads with
  | case1 => exact absurd (by simp [Unmistakable, readOptions]) mistakable
  | case2 arg listed taken =>
      exact absurd (by simp [Unmistakable, readOptions, listed, taken]) mistakable
  | case3 arg listed taken value rest occurrences complete read ih =>
      obtain ⟨fuel, rfl⟩ := Nat.exists_eq_succ_of_ne_zero (Nat.ne_zero_of_lt enough)
      rw [List.length_cons, List.length_cons] at enough
      rw [unmistakable_value listed taken] at mistakable
      by_cases distinct : ∀ entry ∈ behindTaker arg table, entry.pattern_ ≠ value
      · rw [parseLoop_value at_ taken distinct]
        exact ih (fun unmistakable => mistakable ⟨distinct, unmistakable⟩) at_.next.next (by omega)
      · exact ⟨i + 1, parseLoop_mistaken at_ taken (by simpa using distinct)⟩
  | case4 arg rest listed flags occurrences complete read ih =>
      obtain ⟨fuel, rfl⟩ := Nat.exists_eq_succ_of_ne_zero (Nat.ne_zero_of_lt enough)
      rw [List.length_cons] at enough
      have noTaker : takesValue table arg = false := by simpa using flags
      rw [unmistakable_flag listed noTaker] at mistakable
      rw [parseLoop_flag at_ listed noTaker]
      exact ih mistakable at_.next (by omega)
  | case5 arg rest unknown =>
      exact absurd (by simp [Unmistakable, readOptions.eq_def, unknown]) mistakable

/-- A search that ends the call lacks a value or reads behind the last argument. -/
theorem scanTable_code {argsToEnd : Nat} {entries : List ArgsObj} {state after : ParseState Double Single}
    {code : Option Int}
    (stopped : scanTable numbers args argsToEnd entries state = .stopped code after) :
    code = none ∨ code = some (-1) := by
  induction entries generalizing state with
  | nil => simp [scanTable] at stopped
  | cons entry entries ih =>
      rw [scanTable] at stopped
      split at stopped
      · cases stopped
        exact .inl rfl
      · split at stopped
        · dsimp only at stopped
          split at stopped
          · split at stopped
            · cases stopped
              exact .inr rfl
            · split at stopped
              · cases stopped
                exact .inl rfl
              · exact ih stopped
          · exact ih stopped
        · exact ih stopped

/-- The exit code of a call that returns is zero or minus one. -/
theorem parseLoop_code (fuel i : Nat) (targets : Targets Double Single) (reads : Finset ArgRead) :
    (parseLoop numbers table args fuel i targets reads).exitCode ∈ [none, some 0, some (-1)] := by
  induction fuel generalizing i targets reads with
  | zero => simp [parseLoop]
  | succ fuel ih =>
      rw [parseLoop]
      split
      · split
        · next stopped =>
            rcases scanTable_code stopped with rfl | rfl
            · simp
            · simp
        · split
          · exact ih _ _ _
          · simp
      · simp

end Loop

/-! ## The places that are read -/

theorem placesFrom_lower (occurrences : List Occurrence) (i : Nat) :
    ∀ place ∈ placesFrom i occurrences, i ≤ place.index := by
  induction occurrences generalizing i with
  | nil => simp [placesFrom]
  | cons occurrence rest ih =>
      rw [placesFrom]
      refine Finset.forall_mem_insert _ _ _ |>.mpr ⟨le_refl _, ?_⟩
      cases occurrence.value with
      | none => exact fun place member => (Nat.le_succ i).trans (ih (i + 1) place member)
      | some value =>
          refine Finset.forall_mem_insert _ _ _ |>.mpr ⟨Nat.le_succ i, ?_⟩
          exact fun place member => (Nat.le_add_right i 2).trans (ih (i + 2) place member)

/-- No place is read both ways, and a value follows its option. -/
theorem placesFrom_once (occurrences : List Occurrence) (i k : Nat) :
    (ArgRead.option k ∈ placesFrom i occurrences → ArgRead.value k ∉ placesFrom i occurrences) ∧
      (ArgRead.value (k + 1) ∈ placesFrom i occurrences →
        ArgRead.option k ∈ placesFrom i occurrences) := by
  induction occurrences generalizing i with
  | nil => simp [placesFrom]
  | cons occurrence rest ih =>
      rw [placesFrom]
      cases occurrence.value with
      | none =>
          have lower := placesFrom_lower rest (i + 1)
          simp only [Finset.mem_insert, reduceCtorEq, false_or, ArgRead.option.injEq]
          refine ⟨?_, fun value => .inr ((ih (i + 1)).2 value)⟩
          rintro (rfl | option) value
          · exact Nat.not_succ_le_self k (lower _ value)
          · exact (ih (i + 1)).1 option value
      | some text =>
          have lower := placesFrom_lower rest (i + 2)
          simp only [Finset.mem_insert, reduceCtorEq, false_or, ArgRead.option.injEq,
            ArgRead.value.injEq]
          refine ⟨?_, ?_⟩
          · rintro (rfl | option) (same | value)
            · omega
            · exact absurd (lower _ value) (by simp [ArgRead.index])
            · have above : i + 2 ≤ k := lower _ option
              omega
            · exact (ih (i + 2)).1 option value
          · rintro (same | value)
            · exact .inl (by omega)
            · exact .inr ((ih (i + 2)).2 value)

variable {table : List ArgsObj}

theorem placesFrom_upper (rest : List Text) (i : Nat) :
    ∀ place ∈ placesFrom i (readOptions table rest).1, place.index < i + rest.length := by
  fun_induction readOptions table rest generalizing i with
  | case1 => simp [placesFrom]
  | case2 arg listed taken => simp [placesFrom, ArgRead.index]
  | case3 arg listed taken value rest occurrences complete read ih =>
      intro place member
      have bound := ih (i + 2) place
      rw [read] at bound
      simp only [placesFrom, Finset.mem_insert] at member
      rcases member with rfl | rfl | member
      · simp [ArgRead.index]
      · simp [ArgRead.index]
      · have inside := bound member
        rw [List.length_cons, List.length_cons]
        omega
  | case4 arg rest listed flags occurrences complete read ih =>
      intro place member
      have bound := ih (i + 1) place
      rw [read] at bound
      simp only [placesFrom, Finset.mem_insert] at member
      rcases member with rfl | member
      · simp [ArgRead.index]
      · have inside := bound member
        rw [List.length_cons]
        omega
  | case5 arg rest unknown => simp [placesFrom]

/-- All arguments of an accepted list are read. -/
theorem placesFrom_all (rest : List Text) (accepted : (readOptions table rest).2 = true) (i k : Nat)
    (lower : i ≤ k) (upper : k < i + rest.length) :
    ArgRead.option k ∈ placesFrom i (readOptions table rest).1 ∨
      ArgRead.value k ∈ placesFrom i (readOptions table rest).1 := by
  fun_induction readOptions table rest generalizing i with
  | case1 => simp at upper; omega
  | case2 arg listed taken => simp at accepted
  | case3 arg listed taken value rest occurrences complete read ih =>
      rw [read] at ih
      rw [List.length_cons, List.length_cons] at upper
      simp only [placesFrom, Finset.mem_insert, reduceCtorEq, false_or, ArgRead.option.injEq,
        ArgRead.value.injEq]
      by_cases first : k < i + 2
      · omega
      · exact (ih accepted (i + 2) (by omega) (by omega)).imp .inr .inr
  | case4 arg rest listed flags occurrences complete read ih =>
      rw [read] at ih
      rw [List.length_cons] at upper
      simp only [placesFrom, Finset.mem_insert, reduceCtorEq, false_or, ArgRead.option.injEq]
      by_cases first : k = i
      · exact .inl (.inl first)
      · exact (ih accepted (i + 1) (by omega) (by omega)).imp_left .inr
  | case5 arg rest unknown => simp at accepted

/-! ## Exactly these lists are consumed from left to right -/

section Main

variable {Double Single : Type} (numbers : NumberReader Double Single)

/-- Values that cannot be told apart by what a target holds before are equal. -/
theorem eq_of_getD {first second : Option (TargetValue Double Single)}
    (same : ∀ before, first.getD before = second.getD before) : first = second := by
  have other : ∀ value : TargetValue Double Single, ∃ before, before ≠ value := by
    intro value
    by_cases isInt : value = .int 0
    · exact ⟨.int 1, by simp [isInt]⟩
    · exact ⟨.int 0, Ne.symm isInt⟩
  cases first with
  | none =>
      cases second with
      | none => rfl
      | some value =>
          obtain ⟨before, different⟩ := other value
          exact absurd (same before) different
  | some value =>
      cases second with
      | none =>
          obtain ⟨before, different⟩ := other value
          exact absurd (same before).symm different
      | some other => exact congrArg some (same value)

theorem restAt_start (args : List Text) : RestAt args 1 args := ⟨le_refl 1, rfl⟩

/-- Options are consumed from left to right, whatever the targets hold before, exactly if
no value is mistaken for an option and no entry is shadowed that would have had the last
word on its target. -/
theorem argsParse_consumes_iff (table : List ArgsObj) (args : List Text) :
    (∀ targets, ConsumesOptions numbers table args targets) ↔
      Unmistakable table args ∧ ShadowsNothing numbers table args := by
  have enough : args.length < args.length + 1 := Nat.lt_succ_self _
  constructor
  · intro consumes
    have unmistakable : Unmistakable table args := by
      by_contra mistakable
      obtain ⟨place, option, value⟩ := @parseLoop_twice _ _ numbers table args 1 _ args
        (fun _ => .int 0) ∅ mistakable (restAt_start args) enough
      exact (consumes _).once place option value
    refine ⟨unmistakable, fun accepted target => eq_of_getD fun before => ?_⟩
    obtain ⟨code, _, assigned⟩ := @parseLoop_reads _ _ numbers table args 1 _ args
      (fun _ => before) ∅ unmistakable (restAt_start args) enough
    rw [← argsParse, accepted] at code
    have meant := (consumes fun _ => before).assigned code target
    rw [argsParse, assigned accepted, assignAll_last] at meant
    exact meant
  · rintro ⟨unmistakable, shadows⟩ targets
    obtain ⟨code, places, assigned⟩ := @parseLoop_reads _ _ numbers table args 1 _ args targets ∅
      unmistakable (restAt_start args) enough
    rw [Finset.empty_union] at places
    rw [← argsParse] at code places assigned
    have lower := placesFrom_lower (readOptions table args).1 1
    have upper := @placesFrom_upper table args 1
    have success : (argsParse numbers table args targets).exitCode = some 0 →
        (readOptions table args).2 = true := by
      intro succeeded
      by_contra rejected
      rw [code, if_neg rejected] at succeeded
      simp at succeeded
    refine ⟨?_, ?_, ⟨by rw [code]; simp, ?_⟩, ?_, ?_, ?_⟩
    · intro place option
      rw [places] at option ⊢
      exact (placesFrom_once _ 1 place).1 option
    · intro place value
      rw [places] at value ⊢
      exact (placesFrom_once _ 1 place).2 value
    · intro place member
      rw [places] at member
      exact ⟨lower place member, by have bound := upper place member; omega⟩
    · rw [code]
      cases (readOptions table args).2 with
      | true => simp
      | false => simp
    · intro succeeded place positive inside
      rw [places]
      exact placesFrom_all args (success succeeded) 1 place positive (by omega)
    · intro succeeded target
      have accepted := success succeeded
      rw [assigned accepted, assignAll_last, shadows accepted target]

end Main

/-- A reader of numbers for lists without numbers. -/
def plainReader : NumberReader Unit Unit where
  atoi _ := 0
  atof _ := ()
  narrow _ := ()

def outOption : ArgsObj where
  type_ := .string
  pattern_ := "--out".toList
  target_ := 0
  intVal_ := 0

def logOption : ArgsObj where
  type_ := .string
  pattern_ := "--log".toList
  target_ := 1
  intVal_ := 0

def quietFlag : ArgsObj where
  type_ := .flag
  pattern_ := "--quiet".toList
  target_ := 2
  intVal_ := 0

/-- A value that looks like an option is read as both, and behind the last argument
another one is read. -/
theorem argsParse_twice :
    ArgRead.value 2 ∈ (argsParse plainReader [outOption, quietFlag]
        ["--out".toList, "--quiet".toList] fun _ => .int 0).reads ∧
      ArgRead.option 2 ∈ (argsParse plainReader [outOption, quietFlag]
        ["--out".toList, "--quiet".toList] fun _ => .int 0).reads ∧
      (argsParse plainReader [outOption, logOption]
        ["--out".toList, "--log".toList] fun _ => .int 0).exitCode = none := by
  decide

end Tegenaria.LibArgs
