import Tegenaria.Foundation.OrderedMap
import Tegenaria.LibStr.Text
import Mathlib.Data.List.Lex
import Mathlib.Data.Char
import Mathlib.Algebra.GroupWithZero.Nat

/-!
# String maps as one string

`SSMap` is a map from strings to strings.  `saveToString` writes every entry as
`key=value` with a tab behind it, through a buffer of fixed size, and
`loadFromString` reads the entries back with the white space around keys and values
taken away.
-/

namespace Tegenaria.LibSSMap

open Foundation
open LibStr

abbrev SSMap := OrderedMap Text Text

namespace SSMap

/-! ## Reading and writing -/

/-- The key and the value in a line.  Nothing is read from a line without `=` or
with nothing behind it. -/
def readPair (line : Text) : Option (Text × Text) :=
  match cutAt '=' line with
  | none => none
  | some (key, val) => if val = [] then none else some (trim key, trim val)

/-- Common loop of `loadFromString` and `loadFromFile` over the lines. -/
def loadLines (lines : List Text) : SSMap :=
  lines.foldl
    (fun map line =>
      match readPair line with
      | none => map
      | some (key, val) => map.assign key val)
    OrderedMap.empty

def isQuote (letter : Char) : Bool := letter = '"' ∨ letter.toNat = 39

/-- The quotation mark in front of a quoted string is skipped. -/
def skipQuote : Text → Text
  | [] => []
  | first :: rest => if isQuote first then rest else first :: rest

/-- The exit code and the map; `none` stands for a null pointer. -/
def loadFromString : Option Text → Int × SSMap
  | none => (-1, OrderedMap.empty)
  | some data => (0, loadLines (strtok ['\t'] (skipQuote data)))

/-- The size that `saveToString` gives to `snprintf`, which keeps one byte of it for
the zero at the end. -/
def bufSize : Nat := 1023

/-- What the buffer holds after one entry is printed to it. -/
def formatEntry (entry : Text × Text) : Text :=
  (cStr entry.1 ++ '=' :: cStr entry.2 ++ ['\t']).take (bufSize - 1)

def saveToString (map : SSMap) : Text :=
  map.entries.foldl (fun data entry => data ++ formatEntry entry) []

/-! ## Maps that the format is made for -/

/-- An entry whose text does not run into the format. -/
structure EntryPlain (entry : Text × Text) : Prop where
  keyNonempty : entry.1 ≠ []
  keyTrimmed : trim entry.1 = entry.1
  keyNoTab : '\t' ∉ entry.1
  keyNoEqual : '=' ∉ entry.1
  valueNonempty : entry.2 ≠ []
  valueTrimmed : trim entry.2 = entry.2
  valueNoTab : '\t' ∉ entry.2

/-- The map can be saved, and its first key does not look like a quotation. -/
structure MapPlain (map : SSMap) : Prop where
  plain : ∀ entry ∈ map.entries, EntryPlain entry
  unquoted : ∀ entry ∈ map.entries.head?, ∀ letter ∈ entry.1.head?, isQuote letter = false

/-- The map is the same after it was saved and loaded. -/
def StringRestores (map : SSMap) : Prop :=
  loadFromString (some (cStr (saveToString map))) = (0, map)

/-- Nothing of the map is cut off: no key and no value has a zero in it, all entries
but the last fit into the buffer with the tab, and the last one fits without it. -/
structure FitsBuffer (map : SSMap) : Prop where
  noZero : ∀ entry ∈ map.entries, '\x00' ∉ entry.1 ∧ '\x00' ∉ entry.2
  short : ∀ entry ∈ map.entries.dropLast, entry.1.length + entry.2.length + 2 < bufSize
  lastShort : ∀ entry ∈ map.entries.getLast?, entry.1.length + entry.2.length + 1 < bufSize

/-! ## Lines -/

theorem loadLines_eq (lines : List Text) :
    loadLines lines = OrderedMap.empty.assignAll (lines.filterMap readPair) := by
  have start : ∀ map : SSMap,
      lines.foldl (fun map line =>
        match readPair line with
        | none => map
        | some (key, val) => map.assign key val) map =
      map.assignAll (lines.filterMap readPair) := by
    induction lines with
    | nil => exact fun _ => rfl
    | cons line lines ih =>
        intro map
        rw [List.foldl_cons, ih]
        cases read : readPair line with
        | none => rw [List.filterMap_cons_none read]
        | some pair => rw [List.filterMap_cons_some read]; rfl
  exact start OrderedMap.empty

/-- Keys and values are read off with white space around them. -/
theorem readPair_padded {key value : Text} (keyTrimmed : trim key = key) (noEqual : '=' ∉ key)
    (valueTrimmed : trim value = value) (after before behind : Text)
    (afterBlank : ∀ letter ∈ after, isSpace letter) (beforeBlank : ∀ letter ∈ before, isSpace letter)
    (behindBlank : ∀ letter ∈ behind, isSpace letter)
    (something : before ++ (value ++ behind) ≠ []) :
    readPair (key ++ after ++ '=' :: (before ++ (value ++ behind))) = some (key, value) := by
  have noEqualBefore : '=' ∉ key ++ after := by
    intro member
    rcases List.mem_append.mp member with inKey | inAfter
    · exact noEqual inKey
    · exact absurd (afterBlank _ inAfter) (by decide)
  have cut : cutAt '=' (key ++ after ++ '=' :: (before ++ (value ++ behind))) =
      some (key ++ after, before ++ (value ++ behind)) := cutAt_eq_some.mpr ⟨rfl, noEqualBefore⟩
  rw [readPair, cut]
  simp only [if_neg something, trim_after keyTrimmed afterBlank, trim_before beforeBlank,
    trim_after valueTrimmed behindBlank]

/-- The letters that an entry takes in a text of lines, with what ends its line.  An
empty value is only read from white space. -/
def weight (pair : Text × Text) : Nat := pair.1.length + max pair.2.length 1 + 2

theorem readPair_weight {line : Text} {pair : Text × Text} (read : readPair line = some pair) :
    weight pair ≤ line.length + 1 := by
  rw [readPair] at read
  split at read
  · simp at read
  · next key val cut =>
      obtain ⟨rfl, -⟩ := cutAt_eq_some.mp cut
      split at read
      · simp at read
      · next something =>
          rw [← Option.some.inj read, List.length_append, List.length_cons, weight]
          have keyLength := length_trim_le key
          have valLength := length_trim_le val
          have positive := List.length_pos_iff_ne_nil.mpr something
          dsimp only
          omega

theorem mem_trim {text : Text} {letter : Char} (member : letter ∈ trim text) : letter ∈ text :=
  (List.dropWhile_sublist isSpace).subset ((List.rdropWhile_prefix isSpace _).subset member)

/-- What is read from a line consists of its letters. -/
theorem readPair_letters {line : Text} {pair : Text × Text} (read : readPair line = some pair) :
    ∀ letter, letter ∈ pair.1 ∨ letter ∈ pair.2 → letter ∈ line := by
  rw [readPair] at read
  split at read
  · simp at read
  · next key val cut =>
      obtain ⟨rfl, -⟩ := cutAt_eq_some.mp cut
      split at read
      · simp at read
      · intro letter member
        rw [← Option.some.inj read] at member
        rcases member with inKey | inVal
        · exact List.mem_append_left _ (mem_trim inKey)
        · exact List.mem_append_right _ (List.mem_cons_of_mem _ (mem_trim inVal))

/-! ## The saved text -/

/-- An entry as a line, without what ends the line. -/
def body (entry : Text × Text) : Text := entry.1 ++ '=' :: entry.2

theorem EntryPlain.readPair_body {entry : Text × Text} (plain : EntryPlain entry) :
    readPair (body entry) = some entry := by
  have read := readPair_padded plain.keyTrimmed plain.keyNoEqual plain.valueTrimmed
    [] [] [] (by simp) (by simp) (by simp)
    (by simpa using plain.valueNonempty)
  simpa [body] using read

theorem EntryPlain.body_noTab {entry : Text × Text} (plain : EntryPlain entry) :
    '\t' ∉ body entry := by
  simp [body, plain.keyNoTab, plain.valueNoTab]

theorem body_nonempty (entry : Text × Text) : body entry ≠ [] := by simp [body]

theorem saveToString_eq (map : SSMap) : saveToString map = map.entries.flatMap formatEntry := by
  have start : ∀ (entries : List (Text × Text)) (data : Text),
      entries.foldl (fun data entry => data ++ formatEntry entry) data =
        data ++ entries.flatMap formatEntry := by
    intro entries
    induction entries with
    | nil => simp
    | cons entry entries ih =>
        intro data
        rw [List.foldl_cons, ih, List.flatMap_cons, List.append_assoc]
  exact start map.entries []

theorem formatEntry_noZero (entry : Text × Text) : '\x00' ∉ formatEntry entry := by
  intro member
  have inside := List.mem_of_mem_take member
  simp [cStr_plain] at inside

theorem cStr_saveToString (map : SSMap) : cStr (saveToString map) = saveToString map := by
  apply cStr_of_notMem
  rw [saveToString_eq, List.mem_flatMap]
  rintro ⟨entry, _, inside⟩
  exact formatEntry_noZero entry inside

theorem formatEntry_eq {entry : Text × Text} (noZero : '\x00' ∉ entry.1 ∧ '\x00' ∉ entry.2) :
    formatEntry entry = (body entry ++ ['\t']).take (bufSize - 1) := by
  rw [formatEntry, cStr_of_notMem noZero.1, cStr_of_notMem noZero.2, body]

theorem formatEntry_short {entry : Text × Text} (noZero : '\x00' ∉ entry.1 ∧ '\x00' ∉ entry.2)
    (short : entry.1.length + entry.2.length + 2 < bufSize) :
    formatEntry entry = body entry ++ ['\t'] := by
  rw [formatEntry_eq noZero, List.take_of_length_le]
  simp [body]
  omega

/-- The tab of an entry that is too long is cut off. -/
theorem formatEntry_long {entry : Text × Text} (noZero : '\x00' ∉ entry.1 ∧ '\x00' ∉ entry.2)
    (long : ¬ entry.1.length + entry.2.length + 2 < bufSize) :
    formatEntry entry = (body entry).take (bufSize - 1) := by
  rw [formatEntry_eq noZero, List.take_append_of_le_length]
  simp [body]
  omega

/-! ## Loading what was saved -/

/-- The saved entries up to the tab of the last one. -/
def saveText (init : List (Text × Text)) (last : Text × Text) : Text :=
  init.flatMap formatEntry ++ (body last).take (bufSize - 1)

theorem saveText_nonempty (init : List (Text × Text)) (last : Text × Text) :
    saveText init last ≠ [] := by
  simp [saveText, bufSize, body_nonempty]

theorem flatMap_formatEntry (init : List (Text × Text)) {last : Text × Text}
    (noZero : '\x00' ∉ last.1 ∧ '\x00' ∉ last.2) :
    (init ++ [last]).flatMap formatEntry = saveText init last ++ ['\t'] ∨
      (init ++ [last]).flatMap formatEntry = saveText init last := by
  rw [List.flatMap_append, List.flatMap_singleton, saveText]
  by_cases short : last.1.length + last.2.length + 2 < bufSize
  · have whole : (body last).take (bufSize - 1) = body last := by
      apply List.take_of_length_le
      simp [body]
      omega
    rw [formatEntry_short noZero short, whole, List.append_assoc]
    exact .inl rfl
  · rw [formatEntry_long noZero short]
    exact .inr rfl

theorem skipQuote_append {front : Text} (nonempty : front ≠ []) (rest : Text) :
    skipQuote (front ++ rest) = skipQuote front ++ rest := by
  cases front with
  | nil => exact absurd rfl nonempty
  | cons first front =>
      rw [List.cons_append, skipQuote, skipQuote]
      split
      · rfl
      · rfl

/-- The tab behind the last entry adds no line. -/
theorem strtok_saveText (init : List (Text × Text)) {last : Text × Text}
    (noZero : '\x00' ∉ last.1 ∧ '\x00' ∉ last.2) :
    strtok ['\t'] (skipQuote ((init ++ [last]).flatMap formatEntry)) =
      strtok ['\t'] (skipQuote (saveText init last)) := by
  rcases flatMap_formatEntry init noZero with withTab | without
  · rw [withTab, skipQuote_append (saveText_nonempty init last),
      strtok_concat (List.mem_singleton_self _)]
  · rw [without]

/-- The lines of a text in which all entries but the last one are whole. -/
theorem strtok_entries {init : List (Text × Text)} {last : Text × Text}
    (noZero : ∀ entry ∈ init ++ [last], '\x00' ∉ entry.1 ∧ '\x00' ∉ entry.2)
    (plain : ∀ entry ∈ init ++ [last], EntryPlain entry)
    (short : ∀ entry ∈ init, entry.1.length + entry.2.length + 2 < bufSize) :
    strtok ['\t'] (saveText init last) = init.map body ++ [(body last).take (bufSize - 1)] := by
  have front : init.flatMap formatEntry = (init.map body).flatMap (· ++ ['\t']) := by
    rw [List.flatMap_map]
    apply List.flatMap_congr
    intro entry member
    exact formatEntry_short (noZero entry (List.mem_append_left _ member)) (short entry member)
  have lastMember : last ∈ init ++ [last] := List.mem_append_right _ (List.mem_singleton_self _)
  have lastNonempty : (body last).take (bufSize - 1) ≠ [] := by
    simp [bufSize, body_nonempty]
  have lastPlain : ∀ letter ∈ (body last).take (bufSize - 1), letter ∉ ['\t'] := by
    intro letter member tab
    rw [List.mem_singleton.mp tab] at member
    exact (plain last lastMember).body_noTab (List.mem_of_mem_take member)
  rw [saveText, front, strtok_flatMap (List.mem_singleton_self _), strtok_single lastNonempty lastPlain]
  · intro token member
    obtain ⟨entry, _, rfl⟩ := List.mem_map.mp member
    exact body_nonempty entry
  · intro token member letter inside tab
    obtain ⟨entry, listed, rfl⟩ := List.mem_map.mp member
    rw [List.mem_singleton.mp tab] at inside
    exact (plain entry (List.mem_append_left _ listed)).body_noTab inside

theorem filterMap_lines {line : Text × Text → Text} {entries : List (Text × Text)}
    (read : ∀ entry ∈ entries, readPair (line entry) = some entry) :
    (entries.map line).filterMap readPair = entries := by
  rw [List.filterMap_map]
  calc entries.filterMap (readPair ∘ line) = entries.filterMap some :=
        List.filterMap_congr fun entry member => read entry member
    _ = entries := List.filterMap_some

/-- The text starts with the first key. -/
theorem head?_saveText {init : List (Text × Text)} {last first : Text × Text}
    (noZero : ∀ entry ∈ init ++ [last], '\x00' ∉ entry.1 ∧ '\x00' ∉ entry.2)
    (isFirst : (init ++ [last]).head? = some first) {letter : Char}
    (starts : first.1.head? = some letter) : (saveText init last).head? = some letter := by
  obtain ⟨key, keyEq⟩ := List.head?_eq_some_iff.mp starts
  cases init with
  | nil =>
      obtain rfl : last = first := by simpa using isFirst
      simp [saveText, bufSize, body, keyEq]
  | cons entry rest =>
      obtain rfl : entry = first := by simpa using isFirst
      have formatted := formatEntry_eq (noZero entry (by simp))
      simp [saveText, formatted, bufSize, body, keyEq]

theorem skipQuote_of_unquoted {data : Text} (unquoted : ∀ letter ∈ data.head?, isQuote letter = false) :
    skipQuote data = data := by
  cases data with
  | nil => rfl
  | cons first rest => rw [skipQuote, unquoted first rfl, if_neg Bool.false_ne_true]

theorem FitsBuffer.restores {map : SSMap} (plain : MapPlain map) (fits : FitsBuffer map) :
    StringRestores map := by
  have lines : strtok ['\t'] (skipQuote (saveToString map)) = map.entries.map body := by
    rw [saveToString_eq]
    rcases List.eq_nil_or_concat' map.entries with empty | ⟨init, last, split⟩
    · rw [empty]
      rfl
    · have noZero := fits.noZero
      have short := fits.short
      have lastShort := fits.lastShort last (by simp [split])
      have plains := plain.plain
      have unquoted := plain.unquoted
      rw [split] at noZero short plains unquoted ⊢
      rw [List.dropLast_concat] at short
      have starts : ∀ letter ∈ (saveText init last).head?, isQuote letter = false := by
        obtain ⟨first, rest, firstEq⟩ := List.exists_cons_of_ne_nil (l := init ++ [last]) (by simp)
        have isFirst : (init ++ [last]).head? = some first := by rw [firstEq, List.head?_cons]
        have nonempty := (plains first (by simp [firstEq])).keyNonempty
        obtain ⟨start, key, keyEq⟩ := List.exists_cons_of_ne_nil nonempty
        have keyStarts : first.1.head? = some start := by rw [keyEq, List.head?_cons]
        rw [head?_saveText noZero isFirst keyStarts]
        intro letter member
        exact unquoted first isFirst letter (keyStarts.trans member)
      rw [strtok_saveText init (noZero last (by simp)), skipQuote_of_unquoted starts,
        strtok_entries noZero plains short, List.map_append, List.map_singleton,
        List.take_of_length_le]
      simp only [body, List.length_append, List.length_cons]
      omega
  rw [StringRestores, cStr_saveToString, loadFromString, lines, loadLines_eq,
    filterMap_lines fun entry member => (plain.plain entry member).readPair_body,
    OrderedMap.assignAll_entries]

/-- A restored entry was read from one of the lines. -/
theorem mem_of_loadLines {lines : List Text} {map : SSMap} (loaded : loadLines lines = map)
    {entry : Text × Text} (member : entry ∈ map.entries) : ∃ line ∈ lines, readPair line = some entry := by
  rw [← loaded, loadLines_eq] at member
  exact List.mem_filterMap.mp (OrderedMap.mem_of_mem_assignAll member)

theorem skipQuote_subset (data : Text) : skipQuote data ⊆ data := by
  cases data with
  | nil => exact List.Subset.refl _
  | cons first rest =>
      rw [skipQuote]
      split
      · exact List.subset_cons_self ..
      · exact List.Subset.refl _

theorem StringRestores.noZero {map : SSMap} (restores : StringRestores map) :
    ∀ entry ∈ map.entries, '\x00' ∉ entry.1 ∧ '\x00' ∉ entry.2 := by
  intro entry member
  have loaded := congrArg Prod.snd restores
  obtain ⟨line, listed, read⟩ := mem_of_loadLines loaded member
  have outside : '\x00' ∉ line := by
    intro inside
    exact cStr_plain _ (skipQuote_subset _ (mem_strtok listed _ inside).1)
  have letters := readPair_letters read '\x00'
  exact ⟨fun inKey => outside (letters (.inl inKey)), fun inValue => outside (letters (.inr inValue))⟩

/-- Everything that is restored was somewhere in the lines. -/
theorem sum_weight_le {lines : List Text} {map : SSMap} (loaded : loadLines lines = map) :
    (map.entries.map weight).sum ≤ (lines.map (·.length + 1)).sum := by
  have subperm : map.entries.Subperm (lines.filterMap readPair) := by
    apply List.subperm_of_subset map.nodup_entries
    intro entry member
    rw [← loaded, loadLines_eq] at member
    exact OrderedMap.mem_of_mem_assignAll member
  obtain ⟨middle, perm, sublist⟩ := subperm
  calc (map.entries.map weight).sum = (middle.map weight).sum := (perm.map weight).sum_eq.symm
    _ ≤ ((lines.filterMap readPair).map weight).sum :=
        (sublist.map weight).sum_le_sum fun _ _ => Nat.zero_le _
    _ ≤ (lines.map (·.length + 1)).sum := by
        clear sublist perm loaded
        induction lines with
        | nil => exact Nat.le_refl 0
        | cons line lines ih =>
            rw [List.map_cons, List.sum_cons]
            cases read : readPair line with
            | none =>
                rw [List.filterMap_cons_none read]
                omega
            | some pair =>
                have bound := readPair_weight read
                rw [List.filterMap_cons_some read, List.map_cons, List.sum_cons]
                omega

/-- If no term grows and the sum does not shrink, no term shrinks. -/
theorem le_of_sum_le {entries : List (Text × Text)} {before after : Text × Text → Nat}
    (le : ∀ entry ∈ entries, after entry ≤ before entry)
    (sum : (entries.map before).sum ≤ (entries.map after).sum) :
    ∀ entry ∈ entries, before entry ≤ after entry := by
  induction entries with
  | nil => simp
  | cons first rest ih =>
      rw [List.forall_mem_cons] at le ⊢
      rw [List.map_cons, List.map_cons, List.sum_cons, List.sum_cons] at sum
      have restLe : (rest.map after).sum ≤ (rest.map before).sum := List.sum_le_sum le.2
      exact ⟨by omega, ih le.2 (by omega)⟩

theorem length_formatEntry {entry : Text × Text} (noZero : '\x00' ∉ entry.1 ∧ '\x00' ∉ entry.2) :
    (formatEntry entry).length = min (bufSize - 1) (entry.1.length + entry.2.length + 2) := by
  rw [formatEntry_eq noZero, List.length_take]
  simp [body]
  omega

theorem length_skipQuote_le (data : Text) : (skipQuote data).length ≤ data.length := by
  cases data with
  | nil => exact Nat.le_refl 0
  | cons first rest =>
      rw [skipQuote]
      split
      · exact Nat.le_succ _
      · exact Nat.le_refl _

/-- What a restored map needs: whatever it is made of, it fits into the buffer, no
value is empty and the first key does not look like a quotation. -/
theorem StringRestores.fits {map : SSMap} (restores : StringRestores map) :
    FitsBuffer map ∧ (∀ entry ∈ map.entries, entry.2 ≠ []) ∧
      ∀ entry ∈ map.entries.head?, ∀ letter ∈ entry.1.head?, isQuote letter = false := by
  have noZero := restores.noZero
  have loaded := congrArg Prod.snd restores
  rw [cStr_saveToString, loadFromString, saveToString_eq] at loaded
  dsimp only at loaded
  rcases List.eq_nil_or_concat' map.entries with empty | ⟨init, last, split⟩
  · exact ⟨⟨noZero, by simp [empty], by simp [empty]⟩, by simp [empty], by simp [empty]⟩
  · have noZeros := noZero
    rw [split] at noZeros loaded
    rw [strtok_saveText init (noZeros last (by simp))] at loaded
    have total := (sum_weight_le loaded).trans (sum_length_strtok_le ..)
    rw [split, List.map_append, List.sum_append, List.map_singleton, List.sum_singleton] at total
    have whole := length_skipQuote_le (saveText init last)
    have textLength : (saveText init last).length =
        (init.map fun entry => (formatEntry entry).length).sum +
          min (bufSize - 1) (last.1.length + last.2.length + 1) := by
      rw [saveText, List.length_append, List.length_flatMap, List.length_take]
      simp only [body, List.length_append, List.length_cons, Nat.add_assoc]
    have shorter : ∀ entry ∈ init, (formatEntry entry).length ≤ weight entry := by
      intro entry member
      rw [length_formatEntry (noZeros entry (List.mem_append_left _ member)), weight]
      omega
    have initShorter := List.sum_le_sum shorter
    have lastWeight : last.1.length + last.2.length + 2 ≤ weight last := by
      rw [weight]
      omega
    have initWhole := le_of_sum_le shorter (by omega)
    have initFits : ∀ entry ∈ init,
        entry.1.length + entry.2.length + 2 < bufSize ∧ entry.2 ≠ [] := by
      intro entry member
      have bound := initWhole entry member
      rw [length_formatEntry (noZeros entry (List.mem_append_left _ member)), weight] at bound
      have positive : 0 < bufSize := by decide
      rw [← List.length_pos_iff_ne_nil]
      omega
    have lastFits : last.1.length + last.2.length + 1 < bufSize ∧ last.2 ≠ [] := by
      have bound : weight last ≤ min (bufSize - 1) (last.1.length + last.2.length + 1) + 1 := by omega
      have positive : 0 < bufSize := by decide
      rw [weight] at bound
      rw [← List.length_pos_iff_ne_nil]
      omega
    refine ⟨⟨noZero, ?_, ?_⟩, ?_, ?_⟩
    · rw [split, List.dropLast_concat]
      exact fun entry member => (initFits entry member).1
    · rw [split, List.getLast?_concat]
      intro entry member
      rw [← Option.some.inj member]
      exact lastFits.1
    · rw [split, List.forall_mem_append, List.forall_mem_singleton]
      exact ⟨fun entry member => (initFits entry member).2, lastFits.2⟩
    · intro first isFirst letter starts
      rw [split] at isFirst
      have head := head?_saveText noZeros isFirst starts
      obtain ⟨rest, textEq⟩ := List.head?_eq_some_iff.mp head
      by_contra quoted
      rw [Bool.not_eq_false] at quoted
      have skipped : (skipQuote (saveText init last)).length + 1 = (saveText init last).length := by
        rw [textEq, skipQuote, if_pos quoted, List.length_cons]
      omega

/-- Among the maps that the format is made for, exactly those that fit into the
buffer are the same after saving and loading. -/
theorem stringRestores_iff (map : SSMap) (plain : MapPlain map) :
    StringRestores map ↔ FitsBuffer map :=
  ⟨fun restores => restores.fits.1, FitsBuffer.restores plain⟩

/-- A map with one entry. -/
def single (key value : Text) : SSMap := OrderedMap.empty.assign key value

theorem mapPlain_single {key value : Text} (plain : EntryPlain (key, value))
    (unquoted : ∀ letter ∈ key.head?, isQuote letter = false) : MapPlain (single key value) where
  plain := by
    intro entry member
    rw [List.mem_singleton.mp member]
    exact plain
  unquoted := by
    intro entry member
    rw [← Option.some.inj member]
    exact unquoted

theorem shortEntry_restores : StringRestores (single ['k'] ['a', '=', 'b']) := by
  refine (stringRestores_iff _ (mapPlain_single ?_ ?_)).mpr ?_
  · constructor <;> decide
  · rintro _ ⟨⟩
    rfl
  · constructor <;> decide

/-- A value that is longer than the buffer. -/
theorem longValue_cut :
    MapPlain (single ['k'] (List.replicate 1021 'v')) ∧
      ¬ StringRestores (single ['k'] (List.replicate 1021 'v')) := by
  have longValue : ∀ count, 0 < count → bufSize ≤ count + 2 →
      MapPlain (single ['k'] (List.replicate count 'v')) ∧
        ¬ StringRestores (single ['k'] (List.replicate count 'v')) := by
    intro count positive long
    have letters : ∀ letter ∈ List.replicate count 'v', letter = 'v' := by
      intro letter member
      exact List.eq_of_mem_replicate member
    have entryPlain : EntryPlain (['k'], List.replicate count 'v') := by
      have keyFacts : (['k'] : Text) ≠ [] ∧ trim ['k'] = ['k'] ∧ '\t' ∉ ['k'] ∧ '=' ∉ ['k'] := by
        decide
      obtain ⟨nonempty, trimmed, noTab, noEqual⟩ := keyFacts
      refine ⟨nonempty, trimmed, noTab, noEqual, ?_, ?_, ?_⟩
      · simp [Nat.pos_iff_ne_zero.mp positive]
      · apply trim_visible
        intro letter member
        rw [letters letter member]
        decide
      · intro member
        exact absurd (letters _ member) (by decide)
    have plain := mapPlain_single entryPlain (by rintro _ ⟨⟩; rfl)
    refine ⟨plain, fun restores => ?_⟩
    have short := restores.fits.1.lastShort (['k'], List.replicate count 'v') rfl
    simp only [List.length_singleton, List.length_replicate] at short
    omega
  exact longValue 1021 (by decide) (by decide)

end SSMap

end Tegenaria.LibSSMap
