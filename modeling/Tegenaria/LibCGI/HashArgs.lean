import Mathlib.Algebra.BigOperators.Group.List.Basic
import Mathlib.Algebra.GroupWithZero.Nat
import Tegenaria.LibCGI.UserVars

/-!
# Hashes of GET arguments

`CgiHashArgs` writes the names and the non-empty values of a map one after the other, each
with a `#` behind it.  Letters are written in lower case, Polish letters without their
marks and most other bytes in hexadecimal, but letters that begin with the bytes of a
Polish one are not written at all.  The separator keeps the texts of two maps apart, the
coding of a text does not keep two texts apart.
-/

namespace Tegenaria.LibCGI

open Foundation

/-! ## The hash -/

/-- The codes of the Polish letters and the letters that are written for them. -/
def polishLetters : List ((UInt8 × UInt8) × UInt8) :=
  [((0xc4, 0x84), 97), ((0xc4, 0x85), 97),
    ((0xc4, 0x86), 99), ((0xc4, 0x87), 99),
    ((0xc4, 0x98), 101), ((0xc4, 0x99), 101),
    ((0xc5, 0x81), 108), ((0xc5, 0x82), 108),
    ((0xc5, 0x83), 110), ((0xc5, 0x84), 110),
    ((0xc5, 0x9a), 115), ((0xc5, 0x9b), 115),
    ((0xc5, 0xb9), 122), ((0xc5, 0xba), 122),
    ((0xc5, 0xbb), 122), ((0xc5, 0xbc), 122),
    ((0xc3, 0x93), 111), ((0xc3, 0xb3), 111)]

/-- The letter that is written for a Polish one, from the two bytes of its code. -/
def polishLetter (first second : UInt8) : Option UInt8 := polishLetters.lookup (first, second)

/-- The first bytes after which `CgiHashAdd` looks for the second byte of a letter. -/
def isLead (letter : UInt8) : Bool := letter = 0xc4 ∨ letter = 0xc5 ∨ letter = 0xc3

/-- The letter in lower case. -/
def lowerize (letter : UInt8) : UInt8 := if between 65 90 letter then letter + 32 else letter

/-- The two digits of `%02x`. -/
def hexByte (letter : UInt8) : ByteString :=
  [hexTable.getD (letter.toNat / 16) 0, hexTable.getD (letter.toNat % 16) 0]

/-- The loop of `CgiHashAdd`.  Behind the last letter of a string there is a zero. -/
@[grind =] def hashLetters : ByteString → ByteString
  | [] => []
  | first :: rest =>
      if isLead first then
        match rest with
        | [] => (polishLetter first 0).toList
        | second :: later => (polishLetter first second).toList ++ hashLetters later
      else if isAlnum first then lowerize first :: hashLetters rest
      else hexByte first ++ hashLetters rest

/-- `CgiHashAdd` -/
def cgiHashAdd (hash str : ByteString) : ByteString := hash ++ hashLetters str ++ [35]

/-- `CgiHashArgs`, for the map `_GET`. -/
def cgiHashArgs (_GET : SSMap) : ByteString :=
  let hash := _GET.entries.foldl
    (fun hash entry =>
      if entry.2 ≠ [] then cgiHashAdd (cgiHashAdd hash entry.1) entry.2 else hash) []
  if hash = [] then [35] else hash

/-! ## Texts up to folding -/

/-- The text in lower case, with the Polish letters replaced. -/
@[grind =] def foldLetters : ByteString → ByteString
  | [] => []
  | first :: rest =>
      match rest with
      | [] => [lowerize first]
      | second :: later =>
          match polishLetter first second with
          | some letter => letter :: foldLetters later
          | none => lowerize first :: foldLetters (second :: later)

/-- The entries that are set. -/
def setEntries (map : SSMap) : List (ByteString × ByteString) :=
  map.entries.filter (·.2 ≠ [])

/-- The folded names and values of the entries that are set. -/
def foldEntries (map : SSMap) : List (ByteString × ByteString) :=
  (setEntries map).map fun entry => (foldLetters entry.1, foldLetters entry.2)

/-- The maps have the same set entries up to folding. -/
def SameUpToFolding (first second : SSMap) : Prop := (foldEntries first).Perm (foldEntries second)

/-- The bytes are the UTF-8 code of a text. -/
def IsUtf8 (bytes : ByteString) : Prop := ∃ text : List Char, bytes = text.flatMap String.utf8EncodeChar

def Utf8Map (map : SSMap) : Prop := ∀ entry ∈ map.entries, IsUtf8 entry.1 ∧ IsUtf8 entry.2

/-! ## The separator -/

/-- What one entry adds to the hash. -/
def hashEntry (entry : ByteString × ByteString) : ByteString :=
  hashLetters entry.1 ++ 35 :: (hashLetters entry.2 ++ [35])

theorem foldl_hashAdd (entries : List (ByteString × ByteString)) (hash : ByteString) :
    entries.foldl
        (fun hash entry =>
          if entry.2 ≠ [] then cgiHashAdd (cgiHashAdd hash entry.1) entry.2 else hash) hash =
      hash ++ (entries.filter (·.2 ≠ [])).flatMap hashEntry := by
  induction entries generalizing hash with
  | nil => simp
  | cons entry rest ih =>
      rw [List.foldl_cons, ih]
      by_cases isSet : entry.2 ≠ []
      · rw [if_pos isSet, List.filter_cons_of_pos (by simpa using isSet), List.flatMap_cons, cgiHashAdd,
          cgiHashAdd, hashEntry]
        simp
      · rw [if_neg isSet, List.filter_cons_of_neg (by simpa using isSet)]

theorem cgiHashArgs_eq (map : SSMap) :
    cgiHashArgs map =
      if setEntries map = [] then [35] else (setEntries map).flatMap hashEntry := by
  rw [cgiHashArgs, foldl_hashAdd, List.nil_append, ← setEntries]
  cases setEntries map with
  | nil => rfl
  | cons entry rest => simp [hashEntry]

theorem isAlnum_lowerize {letter : UInt8} (alnum : isAlnum letter) : lowerize letter ≠ 35 := by
  revert letter
  apply Foundation.Bytes.forall_byte
  decide +kernel

theorem hexByte_plain (letter : UInt8) : 35 ∉ hexByte letter := by
  have bound := letter.toNat_lt
  have plain : ∀ place < 16, 35 ≠ hexTable.getD place 0 := by decide
  intro member
  rcases List.mem_cons.mp member with first | later
  · exact plain _ (by omega) first
  · exact plain _ (by omega) (List.mem_singleton.mp later)

/-- A Polish letter begins with one of the lead bytes and is written as a small letter. -/
theorem polishLetter_listed {first second letter : UInt8}
    (isPolish : polishLetter first second = some letter) :
    isLead first ∧ isAlnum letter ∧ lowerize letter = letter ∧ letter ≠ 35 := by
  obtain ⟨before, after, split, _⟩ := List.lookup_eq_some_iff.mp isPolish
  have listed : ((first, second), letter) ∈ polishLetters := by simp [split]
  have rows : polishLetters.all fun row =>
      isLead row.1.1 && isAlnum row.2 && decide (lowerize row.2 = row.2 ∧ row.2 ≠ 35) := by decide
  have row := List.all_eq_true.mp rows _ listed
  rwa [Bool.and_eq_true, Bool.and_eq_true, decide_eq_true_iff, and_assoc] at row

theorem separator_not_polish (first second : UInt8) : 35 ∉ (polishLetter first second).toList := by
  intro member
  exact (polishLetter_listed (Option.mem_toList.mp member)).2.2.2 rfl

theorem separator_not_hashed (str : ByteString) : 35 ∉ hashLetters str := by
  fun_induction hashLetters str with
  | case1 => exact List.not_mem_nil
  | case2 first isLead => exact separator_not_polish first 0
  | case3 first isLead second later ih =>
      rw [List.mem_append, not_or]
      exact ⟨separator_not_polish first second, ih⟩
  | case4 first rest notLead alnum ih =>
      rw [List.mem_cons, not_or]
      exact ⟨(isAlnum_lowerize alnum).symm, ih⟩
  | case5 first rest notLead notAlnum ih =>
      rw [List.mem_append, not_or]
      exact ⟨hexByte_plain first, ih⟩

/-- What stands before and behind the first separator is determined. -/
theorem separator_inj {left right other later : ByteString} (leftPlain : 35 ∉ left)
    (otherPlain : 35 ∉ other) (same : left ++ 35 :: right = other ++ 35 :: later) :
    left = other ∧ right = later := by
  have parts := congrArg (strchr 35) same
  rw [strchr_append leftPlain, strchr_append otherPlain, Option.some.injEq, Prod.mk.injEq] at parts
  exact parts

/-- The hash of some entries gives back the coded names and values. -/
theorem hashEntries_inj {first second : List (ByteString × ByteString)}
    (same : first.flatMap hashEntry = second.flatMap hashEntry) :
    first.map (fun entry => (hashLetters entry.1, hashLetters entry.2)) =
      second.map (fun entry => (hashLetters entry.1, hashLetters entry.2)) := by
  induction first generalizing second with
  | nil =>
      cases second with
      | nil => rfl
      | cons entry rest => simp [hashEntry] at same
  | cons entry rest ih =>
      cases second with
      | nil => simp [hashEntry] at same
      | cons other others =>
          simp only [List.flatMap_cons, hashEntry, List.append_assoc, List.cons_append,
            List.nil_append] at same
          obtain ⟨sameName, behind⟩ := separator_inj (separator_not_hashed entry.1)
            (separator_not_hashed other.1) same
          obtain ⟨sameValue, later⟩ := separator_inj (separator_not_hashed entry.2)
            (separator_not_hashed other.2) behind
          rw [List.map_cons, List.map_cons, sameName, sameValue, ih later]

/-- Two maps have the same hash exactly if their set entries are coded in the same way. -/
theorem cgiHashArgs_eq_iff (first second : SSMap) :
    cgiHashArgs first = cgiHashArgs second ↔
      (setEntries first).map (fun entry => (hashLetters entry.1, hashLetters entry.2)) =
        (setEntries second).map (fun entry => (hashLetters entry.1, hashLetters entry.2)) := by
  have long : ∀ entry rest, [35] ≠ (entry :: rest : List (ByteString × ByteString)).flatMap hashEntry := by
    intro entry rest same
    have lengths := congrArg List.length same
    simp only [List.flatMap_cons, hashEntry, List.length_append, List.length_cons,
      List.length_nil] at lengths
    omega
  have concat : ∀ entries : List (ByteString × ByteString), entries.flatMap hashEntry =
      (entries.map fun entry => (hashLetters entry.1, hashLetters entry.2)).flatMap
        fun pair => pair.1 ++ 35 :: (pair.2 ++ [35]) := by
    intro entries
    rw [List.flatMap_map]
    rfl
  rw [cgiHashArgs_eq, cgiHashArgs_eq]
  constructor
  · intro same
    cases listed : setEntries first with
    | nil =>
        cases others : setEntries second with
        | nil => rfl
        | cons entry rest =>
            rw [listed, others, if_pos rfl, if_neg (List.cons_ne_nil _ _)] at same
            exact absurd same (long entry rest)
    | cons entry rest =>
        rw [listed, if_neg (List.cons_ne_nil _ _)] at same
        cases others : setEntries second with
        | nil =>
            rw [others, if_pos rfl] at same
            exact absurd same.symm (long entry rest)
        | cons other others' =>
            rw [others, if_neg (List.cons_ne_nil _ _)] at same
            exact hashEntries_inj same
  · intro same
    have both : setEntries first = [] ↔ setEntries second = [] := by
      rw [← List.map_eq_nil_iff, same, List.map_eq_nil_iff]
    rw [concat, concat, same]
    exact if_congr both rfl rfl

/-! ## Texts that keep their letters -/

/-- A text of letters and digits, of ASCII or of the Polish alphabet. -/
inductive PlainText : ByteString → Prop
  | nil : PlainText []
  | ascii {letter : UInt8} {rest : ByteString} (alnum : isAlnum letter) (plain : PlainText rest) :
      PlainText (letter :: rest)
  | polish {first second letter : UInt8} {rest : ByteString}
      (isPolish : polishLetter first second = some letter) (plain : PlainText rest) :
      PlainText (first :: second :: rest)

theorem not_lead_of_alnum {letter : UInt8} (alnum : isAlnum letter) : isLead letter = false := by
  revert letter
  apply Foundation.Bytes.forall_byte
  decide +kernel

theorem polishLetter_of_not_lead {first : UInt8} (notLead : isLead first = false) (second : UInt8) :
    polishLetter first second = none := by
  rw [Option.eq_none_iff_forall_ne_some]
  intro letter isPolish
  rw [(polishLetter_listed isPolish).1] at notLead
  cases notLead

/-- Without a lead byte the first letter is folded alone. -/
theorem foldLetters_cons {first : UInt8} (notLead : isLead first = false) (rest : ByteString) :
    foldLetters (first :: rest) = lowerize first :: foldLetters rest := by
  cases rest with
  | nil => rfl
  | cons second later => rw [foldLetters, polishLetter_of_not_lead notLead]

/-- A plain text is written as it is folded. -/
theorem hashLetters_plain {str : ByteString} (plain : PlainText str) :
    hashLetters str = foldLetters str := by
  induction plain with
  | nil => rfl
  | ascii alnum _ ih =>
      have notLead := not_lead_of_alnum alnum
      rw [foldLetters_cons notLead, ← ih, hashLetters.eq_def]
      simp [notLead, alnum]
  | polish isPolish _ ih =>
      rw [hashLetters, if_pos (polishLetter_listed isPolish).1, foldLetters, isPolish, ih]
      rfl

/-- Plain maps with the same hash are the same up to folding. -/
theorem cgiHashArgs_plain {first second : SSMap}
    (firstPlain : ∀ entry ∈ setEntries first, PlainText entry.1 ∧ PlainText entry.2)
    (secondPlain : ∀ entry ∈ setEntries second, PlainText entry.1 ∧ PlainText entry.2)
    (same : cgiHashArgs first = cgiHashArgs second) : SameUpToFolding first second := by
  have folded : ∀ map : SSMap, (∀ entry ∈ setEntries map, PlainText entry.1 ∧ PlainText entry.2) →
      (setEntries map).map (fun entry => (hashLetters entry.1, hashLetters entry.2)) =
        foldEntries map := by
    intro map plain
    apply List.map_congr_left
    intro entry member
    rw [hashLetters_plain (plain entry member).1, hashLetters_plain (plain entry member).2]
  have coded := (cgiHashArgs_eq_iff first second).mp same
  rw [folded first firstPlain, folded second secondPlain] at coded
  rw [SameUpToFolding, coded]

/-! ## Letters that are not written -/

/-- The code of a letter that is neither of ASCII nor of the Polish alphabet. -/
def lostLetter : ByteString := String.utf8EncodeChar 'ä'

theorem isUtf8_lostLetter {bytes : ByteString} (valid : IsUtf8 bytes) : IsUtf8 (lostLetter ++ bytes) := by
  obtain ⟨text, rfl⟩ := valid
  exact ⟨'ä' :: text, by rw [List.flatMap_cons, lostLetter]⟩

theorem hashLetters_lostLetter (str : ByteString) : hashLetters (lostLetter ++ str) = hashLetters str := by
  have code : lostLetter = [0xc3, 0xa4] := by decide
  have lost : polishLetter 0xc3 0xa4 = none := by decide
  rw [code, List.cons_append, List.cons_append, List.nil_append, hashLetters, if_pos (by decide), lost]
  rfl

theorem length_foldLetters_lostLetter (str : ByteString) :
    (foldLetters (lostLetter ++ str)).length = (foldLetters str).length + 2 := by
  have code : lostLetter = [0xc3, 0xa4] := by decide
  have lost : polishLetter 0xc3 0xa4 = none := by decide
  rw [code, List.cons_append, List.cons_append, List.nil_append, foldLetters, lost]
  simp only [@foldLetters_cons 0xa4 (by decide) str, List.length_cons]

/-- The letters of all folded values. -/
def valueLength (map : SSMap) : Nat := ((foldEntries map).map (·.2.length)).sum

theorem SameUpToFolding.valueLength {first second : SSMap} (same : SameUpToFolding first second) :
    valueLength first = valueLength second := (same.map _).sum_nat

/-- A letter that is not written makes another map with the same hash. -/
theorem exists_collision {map : SSMap} (valid : Utf8Map map) {key value : ByteString}
    (listed : (key, value) ∈ map.entries) (isSet : value ≠ []) :
    ∃ other, Utf8Map other ∧ cgiHashArgs map = cgiHashArgs other ∧ ¬SameUpToFolding map other := by
  obtain ⟨left, right, entries, changed⟩ :=
    OrderedMap.entries_assign listed (lostLetter ++ value)
  have others : ∀ entry ∈ (map.assign key (lostLetter ++ value)).entries,
      entry = (key, lostLetter ++ value) ∨ entry ∈ map.entries := by
    intro entry member
    rw [changed, List.mem_append, List.mem_cons] at member
    rw [entries, List.mem_append, List.mem_cons]
    tauto
  have setBefore : setEntries map = left.filter (·.2 ≠ []) ++ (key, value) :: right.filter (·.2 ≠ []) := by
    rw [setEntries, entries, List.filter_append, List.filter_cons_of_pos (by simpa using isSet)]
  have setAfter : setEntries (map.assign key (lostLetter ++ value)) =
      left.filter (·.2 ≠ []) ++ (key, lostLetter ++ value) :: right.filter (·.2 ≠ []) := by
    rw [setEntries, changed, List.filter_append, List.filter_cons_of_pos (by simp [isSet])]
  refine ⟨map.assign key (lostLetter ++ value), ?_, ?_, ?_⟩
  · intro entry member
    rcases others entry member with rfl | before
    · exact ⟨(valid _ listed).1, isUtf8_lostLetter (valid _ listed).2⟩
    · exact valid entry before
  · rw [cgiHashArgs_eq_iff, setBefore, setAfter]
    simp [hashLetters_lostLetter]
  · intro same
    have lengths := same.valueLength
    rw [valueLength, valueLength, foldEntries, foldEntries, setBefore, setAfter] at lengths
    simp [length_foldLetters_lostLetter] at lengths

/-- A map with one entry. -/
def oneArg (key value : ByteString) : SSMap where
  entries := [(key, value)]
  increasing := List.pairwise_singleton ..

end Tegenaria.LibCGI
