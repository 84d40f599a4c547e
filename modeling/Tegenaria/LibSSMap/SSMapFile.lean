import Tegenaria.LibSSMap.SSMap

/-!
# String maps in files

`saveToFile` and `saveToFileEx` write one line for each entry, the second one with
the `=` signs below each other, and `loadFromFile` reads lines of either kind.
Every write may stop before all of the text is in the file; neither function looks
at the result of a write.
-/

namespace Tegenaria.LibSSMap.SSMap

open Foundation
open LibStr

/-! ## Writing -/

def plainLine (entry : Text × Text) : Text := cStr entry.1 ++ '=' :: cStr entry.2 ++ ['\n']

/-- The length of the longest key. -/
def keyWidth (map : SSMap) : Nat := map.entries.foldl (fun len entry => max len entry.1.length) 0

/-- A line with the key padded to a given width. -/
def wideLine (len : Nat) (entry : Text × Text) : Text :=
  cStr entry.1 ++ List.replicate (len - (cStr entry.1).length) ' ' ++
    '=' :: ' ' :: cStr entry.2 ++ ['\n']

def plainText (map : SSMap) : Text := map.entries.flatMap plainLine

def wideText (map : SSMap) : Text := map.entries.flatMap (wideLine (keyWidth map))

/-- Whether the file can be opened, at the first and at the second try, and how many
bytes reach it. -/
structure Disk where
  opens : Bool
  opensAgain : Bool
  room : Nat

/-- The exit code and what is in the file, if it could be opened. -/
def saveToFile (map : SSMap) (opens : Bool) (room : Nat) : Int × Option Text :=
  if opens then (0, some ((plainText map).take room)) else (-1, none)

def flagsWide : BitVec 32 := 1

/-- The exit code and what is in the file, if it could be opened.  Without the flag the
file is only created. -/
def saveToFileEx (map : SSMap) (flags : BitVec 32) (disk : Disk) : Int × Option Text :=
  if flags &&& flagsWide ≠ 0 then
    if disk.opens then (0, some ((wideText map).take disk.room))
    else saveToFile map disk.opensAgain disk.room
  else
    (-1, if disk.opens then some [] else none)

/-! ## Reading -/

/-- The size of the buffer for one line. -/
def lineSize : Nat := 1024 * 32

/-- The line that `fgets` reads, of a given number of letters at most, and the rest. -/
@[grind =] def fgets : (letters : Nat) → Text → Text × Text
  | 0, text => ([], text)
  | _ + 1, [] => ([], [])
  | letters + 1, first :: rest =>
      if first = '\n' then ([first], rest)
      else
        let (line, left) := fgets letters rest
        (first :: line, left)

/-- The lines of a file, at most as many as given. -/
def fileLines : (count : Nat) → Text → List Text
  | 0, _ => []
  | _ + 1, [] => []
  | count + 1, first :: rest =>
      let (line, left) := fgets (lineSize - 1) (first :: rest)
      line :: fileLines count left

/-- The exit code and the map; `none` stands for a file that cannot be opened. -/
def loadFromFile : Option Text → Int × SSMap
  | none => (-1, OrderedMap.empty)
  | some content => (0, loadLines ((fileLines content.length content).map cStr))

/-! ## Agreement of the forms -/

/-- An entry that can be a line. -/
structure LinePlain (entry : Text × Text) : Prop where
  keyNonempty : entry.1 ≠ []
  keyTrimmed : trim entry.1 = entry.1
  keyNoEqual : '=' ∉ entry.1
  keyPlain : ∀ letter ∈ entry.1, letter ≠ '\n' ∧ letter ≠ '\t' ∧ letter ≠ '\x00'
  valueTrimmed : trim entry.2 = entry.2
  valuePlain : ∀ letter ∈ entry.2, letter ≠ '\n' ∧ letter ≠ '\t' ∧ letter ≠ '\x00'

/-- A map whose entries can be lines, shorter than the buffer in either form. -/
structure FilePlain (map : SSMap) : Prop where
  plain : ∀ entry ∈ map.entries, LinePlain entry
  plainShort : ∀ entry ∈ map.entries, (plainLine entry).length < lineSize
  wideShort : ∀ entry ∈ map.entries, (wideLine (keyWidth map) entry).length < lineSize

/-- All three forms restore the map, and `saveToFileEx` tells whether the file does. -/
structure FormsAgree (map : SSMap) (flags : BitVec 32) (disk : Disk) : Prop where
  file : loadFromFile (saveToFile map disk.opens disk.room).2 = (0, map)
  fileEx : loadFromFile (saveToFileEx map flags disk).2 = (0, map)
  string : StringRestores map
  reported : (saveToFileEx map flags disk).1 = 0 ↔
    loadFromFile (saveToFileEx map flags disk).2 = (0, map)

/-- What the agreement takes: the file can be opened and takes all but the end of the
last line, the flag is set, no value is empty, the first key is not quoted and the entries fit into the
buffer of `saveToString`. -/
structure FormsFit (map : SSMap) (flags : BitVec 32) (disk : Disk) : Prop where
  opens : disk.opens
  wide : flags &&& flagsWide ≠ 0
  room : (wideText map).length ≤ disk.room + 1
  nonempty : ∀ entry ∈ map.entries, entry.2 ≠ []
  unquoted : ∀ entry ∈ map.entries.head?, ∀ letter ∈ entry.1.head?, isQuote letter = false
  buffer : FitsBuffer map

/-! ## Lines of a file -/

theorem fgets_line {letters : Nat} {line : Text} (short : line.length < letters)
    (noNewline : '\n' ∉ line) (rest : Text) :
    fgets letters (line ++ '\n' :: rest) = (line ++ ['\n'], rest) := by
  induction line generalizing letters with
  | nil =>
      obtain ⟨letters, rfl⟩ := Nat.exists_eq_succ_of_ne_zero (Nat.ne_of_gt short)
      rfl
  | cons first line ih =>
      rw [List.mem_cons, not_or] at noNewline
      cases letters with
      | zero => exact absurd short (Nat.not_lt_zero _)
      | succ letters =>
          rw [List.cons_append, fgets, if_neg (Ne.symm noNewline.1),
            ih (Nat.lt_of_succ_lt_succ short) noNewline.2]
          rfl

/-- The last line may have no end. -/
theorem fgets_rest {letters : Nat} {rest : Text} (short : rest.length ≤ letters)
    (noNewline : '\n' ∉ rest) : fgets letters rest = (rest, []) := by
  induction rest generalizing letters with
  | nil => cases letters with
    | zero => rfl
    | succ letters => rfl
  | cons first rest ih =>
      rw [List.mem_cons, not_or] at noNewline
      cases letters with
      | zero => exact absurd short (Nat.not_succ_le_zero _)
      | succ letters =>
          rw [fgets, if_neg (Ne.symm noNewline.1), ih (Nat.le_of_succ_le_succ short) noNewline.2]

theorem fileLines_flatMap {lines : List Text}
    (plain : ∀ line ∈ lines, '\n' ∉ line ∧ line.length < lineSize - 1) {rest : Text}
    (restPlain : '\n' ∉ rest) (restShort : rest.length < lineSize) {count : Nat}
    (enough : (lines.flatMap (· ++ ['\n']) ++ rest).length ≤ count) :
    fileLines count (lines.flatMap (· ++ ['\n']) ++ rest) =
      lines.map (· ++ ['\n']) ++ if rest = [] then [] else [rest] := by
  induction lines generalizing count with
  | nil =>
      rw [List.flatMap_nil, List.nil_append] at enough ⊢
      cases rest with
      | nil => cases count <;> rfl
      | cons first rest =>
          cases count with
          | zero => exact absurd enough (Nat.not_succ_le_zero _)
          | succ count =>
              have positive : 0 < lineSize := by decide
              rw [fileLines, fgets_rest (by omega) restPlain]
              cases count <;> rfl
  | cons line lines ih =>
      rw [List.forall_mem_cons] at plain
      have split : (line :: lines).flatMap (· ++ ['\n']) ++ rest =
          line ++ '\n' :: (lines.flatMap (· ++ ['\n']) ++ rest) := by simp
      rw [split] at enough ⊢
      rw [List.length_append, List.length_cons] at enough
      cases count with
      | zero => omega
      | succ count =>
          have step : fileLines (count + 1) (line ++ '\n' :: (lines.flatMap (· ++ ['\n']) ++ rest)) =
              (line ++ ['\n']) :: fileLines count (lines.flatMap (· ++ ['\n']) ++ rest) := by
            have first := fgets_line plain.1.2 plain.1.1 (lines.flatMap (· ++ ['\n']) ++ rest)
            cases line with
            | nil =>
                rw [List.nil_append] at first ⊢
                rw [fileLines, first]
            | cons letter line =>
                rw [List.cons_append] at first ⊢
                rw [fileLines, first]
          rw [step, ih plain.2 (by omega), List.map_cons, List.cons_append]

/-- A text of lines is cut off inside one of them. -/
theorem take_flatMap (line : Text × Text → Text) (entries : List (Text × Text)) (room : Nat) :
    (entries.flatMap line).length ≤ room ∨
      ∃ (before : List (Text × Text)) (entry : Text × Text) (after : List (Text × Text)) (count : Nat),
        entries = before ++ entry :: after ∧ count < (line entry).length ∧
        room = (before.flatMap line).length + count ∧
        (entries.flatMap line).take room = before.flatMap line ++ (line entry).take count := by
  induction entries generalizing room with
  | nil => exact .inl (Nat.zero_le _)
  | cons first rest ih =>
      rw [List.flatMap_cons, List.length_append]
      by_cases inside : room < (line first).length
      · refine .inr ⟨[], first, rest, room, rfl, inside, by simp, ?_⟩
        rw [List.take_append_of_le_length (Nat.le_of_lt inside)]
        rfl
      · rcases ih (room - (line first).length) with whole | ⟨before, entry, after, count, cut⟩
        · exact .inl (by omega)
        · obtain ⟨rfl, short, roomEq, takeEq⟩ := cut
          refine .inr ⟨first :: before, entry, after, count, rfl, short, ?_, ?_⟩
          · rw [List.flatMap_cons, List.length_append]
            omega
          · rw [List.take_append, takeEq, List.take_of_length_le (Nat.not_lt.mp inside),
              List.flatMap_cons, List.append_assoc]

/-! ## The two kinds of lines -/

section Lines

variable {entry : Text × Text}

theorem LinePlain.noZero (plain : LinePlain entry) : '\x00' ∉ entry.1 ∧ '\x00' ∉ entry.2 :=
  ⟨fun member => (plain.keyPlain _ member).2.2 rfl, fun member => (plain.valuePlain _ member).2.2 rfl⟩

theorem LinePlain.noNewline (plain : LinePlain entry) : '\n' ∉ entry.1 ∧ '\n' ∉ entry.2 :=
  ⟨fun member => (plain.keyPlain _ member).1 rfl, fun member => (plain.valuePlain _ member).1 rfl⟩

/-- A wide line without its end: the padded key, and the value behind a space. -/
def wideBody (len : Nat) (entry : Text × Text) : Text :=
  entry.1 ++ List.replicate (len - entry.1.length) ' ' ++ '=' :: ' ' :: entry.2

theorem LinePlain.plainLine_eq (plain : LinePlain entry) : plainLine entry = body entry ++ ['\n'] := by
  rw [plainLine, cStr_of_notMem plain.noZero.1, cStr_of_notMem plain.noZero.2, body]

theorem LinePlain.wideLine_eq (plain : LinePlain entry) (len : Nat) :
    wideLine len entry = wideBody len entry ++ ['\n'] := by
  rw [wideLine, cStr_of_notMem plain.noZero.1, cStr_of_notMem plain.noZero.2, wideBody]

theorem LinePlain.body_plain (plain : LinePlain entry) :
    '\n' ∉ body entry ∧ '\x00' ∉ body entry := by
  simp [body, plain.noZero, plain.noNewline]

theorem LinePlain.wideBody_plain (plain : LinePlain entry) (len : Nat) :
    '\n' ∉ wideBody len entry ∧ '\x00' ∉ wideBody len entry := by
  simp [wideBody, plain.noZero, plain.noNewline]

theorem newline_blank : ∀ letter ∈ ['\n'], isSpace letter := List.all_iff_forall_prop.mp (by decide)

theorem LinePlain.readPair_plainLine (plain : LinePlain entry) :
    readPair (body entry ++ ['\n']) = some entry := by
  have read := readPair_padded plain.keyTrimmed plain.keyNoEqual plain.valueTrimmed
    [] [] ['\n'] (by simp) (by simp) newline_blank (by simp)
  simpa [body] using read

theorem spaces_blank (count : Nat) : ∀ letter ∈ List.replicate count ' ', isSpace letter := by
  intro letter member
  rw [List.eq_of_mem_replicate member]
  decide

/-- A wide line is read with its end and without it. -/
theorem LinePlain.readPair_wideLine (plain : LinePlain entry) (len : Nat) (behind : Text)
    (behindBlank : ∀ letter ∈ behind, isSpace letter) :
    readPair (wideBody len entry ++ behind) = some entry := by
  have read := readPair_padded plain.keyTrimmed plain.keyNoEqual plain.valueTrimmed
    (List.replicate (len - entry.1.length) ' ') [' '] behind (spaces_blank _) (spaces_blank 1)
    behindBlank (by simp)
  simpa [wideBody] using read

theorem length_wideBody (len : Nat) (entry : Text × Text) :
    (wideBody len entry).length =
      (entry.1 ++ List.replicate (len - entry.1.length) ' ').length + entry.2.length + 2 := by
  rw [wideBody, List.length_append, List.length_cons, List.length_cons]
  omega

/-- What is read from the beginning of a wide line has the key of the line, and a value
that is no longer than what is there of it. -/
theorem LinePlain.readPair_cut (plain : LinePlain entry) {len count : Nat} {pair : Text × Text}
    (read : readPair ((wideLine len entry).take count) = some pair) :
    pair.1 = entry.1 ∧
      (entry.1 ++ List.replicate (len - entry.1.length) ' ').length + pair.2.length + 2 ≤ count := by
  have noEqual : '=' ∉ entry.1 ++ List.replicate (len - entry.1.length) ' ' := by
    intro member
    rcases List.mem_append.mp member with inKey | inPad
    · exact plain.keyNoEqual inKey
    · exact absurd (List.eq_of_mem_replicate inPad) (by decide)
  have wholeCut : cutAt '=' (wideLine len entry) =
      some (entry.1 ++ List.replicate (len - entry.1.length) ' ', ' ' :: entry.2 ++ ['\n']) := by
    rw [plain.wideLine_eq, wideBody, List.append_assoc, cutAt_eq_some]
    exact ⟨rfl, noEqual⟩
  rw [readPair] at read
  split at read
  · simp at read
  · next key val cut =>
      obtain ⟨takeEq, keyNoEqual⟩ := cutAt_eq_some.mp cut
      have sameCut : cutAt '=' (wideLine len entry) =
          some (key, val ++ (wideLine len entry).drop count) := by
        rw [cutAt_eq_some, ← List.cons_append, ← List.append_assoc, ← takeEq, List.take_append_drop]
        exact ⟨rfl, keyNoEqual⟩
      rw [wholeCut, Option.some.injEq, Prod.mk.injEq] at sameCut
      obtain ⟨keyEq, valEq⟩ := sameCut
      split at read
      · simp at read
      · next something =>
          obtain ⟨first, rest, rfl⟩ := List.exists_cons_of_ne_nil something
          obtain rfl : ' ' = first := List.head_eq_of_cons_eq valEq
          have trimmed : trim (' ' :: rest) = trim rest := 
            trim_before (spaces_blank 1) rest
          rw [← Option.some.inj read, ← keyEq, trimmed, trim_after plain.keyTrimmed (spaces_blank _)]
          refine ⟨rfl, ?_⟩
          have taken := congrArg List.length takeEq
          rw [← keyEq, List.length_take, List.length_append, List.length_cons, List.length_cons] at taken
          have shorter := length_trim_le rest
          dsimp only
          omega

end Lines

/-! ## Loading -/

/-- The lines of a file, the last one perhaps cut off, are loaded in order. -/
theorem loadFromFile_flatMap {line : Text × Text → Text} {before : List (Text × Text)}
    (plain : ∀ entry ∈ before, ('\n' ∉ line entry ∧ '\x00' ∉ line entry) ∧
      (line entry).length + 1 < lineSize) (rest : Text)
    (restPlain : '\n' ∉ rest ∧ '\x00' ∉ rest) (restShort : rest.length < lineSize) :
    loadFromFile (some (before.flatMap (fun entry => line entry ++ ['\n']) ++ rest)) =
      (0, loadLines (before.map (fun entry => line entry ++ ['\n']) ++
        if rest = [] then [] else [rest])) := by
  have bodies : ∀ text ∈ before.map line, '\n' ∉ text ∧ text.length < lineSize - 1 := by
    intro text member
    obtain ⟨entry, listed, rfl⟩ := List.mem_map.mp member
    obtain ⟨letters, short⟩ := plain entry listed
    exact ⟨letters.1, by omega⟩
  have lines := fileLines_flatMap bodies restPlain.1 restShort (Nat.le_refl _)
  rw [List.flatMap_map, List.map_map] at lines
  have noZero : ∀ text ∈ before.map (fun entry => line entry ++ ['\n']) ++
      (if rest = [] then [] else [rest]), cStr text = text := by
    intro text member
    apply cStr_of_notMem
    rcases List.mem_append.mp member with whole | cut
    · obtain ⟨entry, listed, rfl⟩ := List.mem_map.mp whole
      simp [(plain entry listed).1.2]
    · split at cut
      · simp at cut
      · rw [List.mem_singleton.mp cut]
        exact restPlain.2
  rw [loadFromFile, lines]
  exact congrArg (fun texts => ((0 : Int), loadLines texts)) (List.map_congr_left noZero |>.trans (List.map_id _))

/-- A file with a line for every entry restores the map. -/
theorem loadFromFile_whole {map : SSMap} {line : Text × Text → Text}
    (plain : ∀ entry ∈ map.entries, ('\n' ∉ line entry ∧ '\x00' ∉ line entry) ∧
      (line entry).length + 1 < lineSize)
    (read : ∀ entry ∈ map.entries, readPair (line entry ++ ['\n']) = some entry) :
    loadFromFile (some (map.entries.flatMap fun entry => line entry ++ ['\n'])) = (0, map) := by
  have loaded := loadFromFile_flatMap plain [] (by simp) (by decide)
  rwa [List.append_nil, if_pos rfl, List.append_nil, loadLines_eq, filterMap_lines read,
    OrderedMap.assignAll_entries] at loaded

theorem FilePlain.load_plainText {map : SSMap} (plain : FilePlain map) :
    loadFromFile (some (plainText map)) = (0, map) := by
  have lines : plainText map = map.entries.flatMap fun entry => body entry ++ ['\n'] :=
    List.flatMap_congr fun entry member => (plain.plain entry member).plainLine_eq
  rw [lines]
  refine loadFromFile_whole ?_ fun entry member => (plain.plain entry member).readPair_plainLine
  intro entry member
  refine ⟨(plain.plain entry member).body_plain, ?_⟩
  have length := plain.plainShort entry member
  rwa [(plain.plain entry member).plainLine_eq, List.length_append, List.length_singleton] at length

theorem FilePlain.wideBody_short {map : SSMap} (plain : FilePlain map) :
    ∀ entry ∈ map.entries, ('\n' ∉ wideBody (keyWidth map) entry ∧
      '\x00' ∉ wideBody (keyWidth map) entry) ∧ (wideBody (keyWidth map) entry).length + 1 < lineSize := by
  intro entry member
  refine ⟨(plain.plain entry member).wideBody_plain _, ?_⟩
  have length := plain.wideShort entry member
  rwa [(plain.plain entry member).wideLine_eq, List.length_append, List.length_singleton] at length

theorem FilePlain.load_wideText {map : SSMap} (plain : FilePlain map) :
    loadFromFile (some (wideText map)) = (0, map) := by
  have lines : wideText map =
      map.entries.flatMap fun entry => wideBody (keyWidth map) entry ++ ['\n'] :=
    List.flatMap_congr fun entry member => (plain.plain entry member).wideLine_eq _
  rw [lines]
  refine loadFromFile_whole plain.wideBody_short fun entry member => ?_
  exact (plain.plain entry member).readPair_wideLine _ ['\n'] newline_blank

/-- The lines that are loaded when the wide text is cut off inside one of them. -/
theorem FilePlain.load_cut {map : SSMap} (plain : FilePlain map)
    {before after : List (Text × Text)} {entry : Text × Text}
    (split : map.entries = before ++ entry :: after) {count : Nat}
    (inside : count < (wideLine (keyWidth map) entry).length) :
    loadFromFile (some (before.flatMap (wideLine (keyWidth map)) ++
        (wideLine (keyWidth map) entry).take count)) =
      (0, loadLines (before.map (wideLine (keyWidth map)) ++
        if (wideLine (keyWidth map) entry).take count = [] then []
        else [(wideLine (keyWidth map) entry).take count])) := by
  have entryMember : entry ∈ map.entries := by simp [split]
  have linesEq : ∀ other ∈ before, wideLine (keyWidth map) other =
      wideBody (keyWidth map) other ++ ['\n'] := by
    intro other member
    exact (plain.plain other (by simp [split, member])).wideLine_eq _
  have short : ∀ other ∈ before, ('\n' ∉ wideBody (keyWidth map) other ∧
      '\x00' ∉ wideBody (keyWidth map) other) ∧ (wideBody (keyWidth map) other).length + 1 < lineSize :=
    fun other member => plain.wideBody_short other (by simp [split, member])
  have cutBody : (wideLine (keyWidth map) entry).take count =
      (wideBody (keyWidth map) entry).take count := by
    rw [(plain.plain entry entryMember).wideLine_eq] at inside ⊢
    rw [List.length_append, List.length_singleton] at inside
    exact List.take_append_of_le_length (by omega)
  have cutPlain : '\n' ∉ (wideBody (keyWidth map) entry).take count ∧
      '\x00' ∉ (wideBody (keyWidth map) entry).take count := by
    obtain ⟨noNewline, noZero⟩ := (plain.plain entry entryMember).wideBody_plain (keyWidth map)
    exact ⟨fun member => noNewline (List.mem_of_mem_take member),
      fun member => noZero (List.mem_of_mem_take member)⟩
  have cutShort : ((wideBody (keyWidth map) entry).take count).length < lineSize := by
    rw [← cutBody, List.length_take]
    have length := plain.wideShort entry entryMember
    omega
  rw [cutBody, List.flatMap_congr linesEq, List.map_congr_left linesEq,
    loadFromFile_flatMap short _ cutPlain cutShort]

/-- The end of the last line may be missing. -/
theorem FilePlain.load_room {map : SSMap} (plain : FilePlain map) {room : Nat}
    (enough : (wideText map).length ≤ room + 1) :
    loadFromFile (some ((wideText map).take room)) = (0, map) := by
  rw [wideText] at enough ⊢
  rcases take_flatMap (wideLine (keyWidth map)) map.entries room with
    whole | ⟨before, entry, after, count, split, inside, roomEq, takeEq⟩
  · rw [List.take_of_length_le whole]
    exact plain.load_wideText
  · have entryPlain := plain.plain entry (by simp [split])
    rw [takeEq, plain.load_cut split inside]
    rw [split, List.flatMap_append, List.flatMap_cons, List.length_append, List.length_append] at enough
    rw [entryPlain.wideLine_eq, List.length_append, List.length_singleton] at enough inside
    have nothing : after = [] := by
      cases after with
      | nil => rfl
      | cons other after =>
          rw [List.flatMap_cons, List.length_append, wideLine, List.length_append,
            List.length_singleton] at enough
          omega
    have countEq : count = (wideBody (keyWidth map) entry).length := by omega
    have cutEq : (wideLine (keyWidth map) entry).take count = wideBody (keyWidth map) entry := by
      rw [entryPlain.wideLine_eq, countEq, List.take_left]
    have cutRead : readPair (wideBody (keyWidth map) entry) = some entry := by
      simpa using entryPlain.readPair_wideLine (keyWidth map) [] (by simp)
    have something : wideBody (keyWidth map) entry ≠ [] := by simp [wideBody]
    have beforeRead : ∀ other ∈ before, readPair (wideLine (keyWidth map) other) = some other := by
      intro other member
      have otherPlain := plain.plain other (by simp [split, member])
      rw [otherPlain.wideLine_eq]
      exact otherPlain.readPair_wideLine _ ['\n'] newline_blank
    subst nothing
    rw [cutEq, if_neg something, loadLines_eq, List.filterMap_append, filterMap_lines beforeRead,
      List.filterMap_cons_some cutRead, List.filterMap_nil, ← split, OrderedMap.assignAll_entries]

/-- A file that misses more than the end of the last line does not restore the map. -/
theorem FilePlain.room_of_load {map : SSMap} (plain : FilePlain map) {room : Nat}
    (loaded : loadFromFile (some ((wideText map).take room)) = (0, map)) :
    (wideText map).length ≤ room + 1 := by
  rw [wideText] at loaded ⊢
  rcases take_flatMap (wideLine (keyWidth map)) map.entries room with
    whole | ⟨before, entry, after, count, split, inside, roomEq, takeEq⟩
  · exact Nat.le_succ_of_le whole
  · rw [takeEq, plain.load_cut split inside, Prod.mk.injEq] at loaded
    have entryPlain := plain.plain entry (by simp [split])
    have keys := map.nodup_keys
    rw [split, List.map_append, List.map_cons, List.nodup_append, List.nodup_cons] at keys
    have source : ∀ other ∈ entry :: after,
        readPair ((wideLine (keyWidth map) entry).take count) = some other := by
      intro other member
      obtain ⟨line, listed, read⟩ := mem_of_loadLines loaded.2
        (show other ∈ map.entries by rw [split]; exact List.mem_append_right _ member)
      rcases List.mem_append.mp listed with early | cut
      · obtain ⟨earlier, inBefore, rfl⟩ := List.mem_map.mp early
        have earlierPlain := plain.plain earlier (by simp [split, inBefore])
        rw [earlierPlain.wideLine_eq, earlierPlain.readPair_wideLine _ ['\n'] newline_blank,
          Option.some.injEq] at read
        subst read
        exact absurd rfl (keys.2.2 _ (List.mem_map_of_mem inBefore) _ (List.mem_map_of_mem member))
      · split at cut
        · simp at cut
        · rwa [List.mem_singleton.mp cut] at read
    have nothing : after = [] := by
      cases after with
      | nil => rfl
      | cons other after =>
          have same := (entryPlain.readPair_cut (source other (by simp))).1
          exact absurd (List.mem_map.mpr ⟨other, List.mem_cons_self .., same⟩) keys.2.1.1
    have bound := (entryPlain.readPair_cut (source entry (List.mem_cons_self ..))).2
    subst nothing
    rw [split, List.flatMap_append, List.flatMap_singleton, List.length_append,
      entryPlain.wideLine_eq, List.length_append, List.length_singleton, length_wideBody]
    omega

/-! ## All forms -/

/-- Padding makes every line longer. -/
theorem FilePlain.plainText_length {map : SSMap} (plain : FilePlain map) :
    (plainText map).length + map.entries.length ≤ (wideText map).length := by
  have lines : ∀ entries : List (Text × Text), (∀ entry ∈ entries, LinePlain entry) →
      (entries.flatMap plainLine).length + entries.length ≤
        (entries.flatMap (wideLine (keyWidth map))).length := by
    intro entries
    induction entries with
    | nil => simp
    | cons entry entries ih =>
        intro plains
        rw [List.forall_mem_cons] at plains
        have rest := ih plains.2
        rw [List.flatMap_cons, List.flatMap_cons, List.length_append, List.length_append,
          plains.1.plainLine_eq, plains.1.wideLine_eq, List.length_append, List.length_append,
          length_wideBody, List.length_append, body, List.length_append]
        simp only [List.length_cons]
        omega
  exact lines map.entries plain.plain

theorem FilePlain.mapPlain {map : SSMap} (plain : FilePlain map)
    (nonempty : ∀ entry ∈ map.entries, entry.2 ≠ [])
    (unquoted : ∀ entry ∈ map.entries.head?, ∀ letter ∈ entry.1.head?, isQuote letter = false) :
    MapPlain map where
  plain := by
    intro entry member
    have line := plain.plain entry member
    exact
      { keyNonempty := line.keyNonempty
        keyTrimmed := line.keyTrimmed
        keyNoTab := fun tab => (line.keyPlain _ tab).2.1 rfl
        keyNoEqual := line.keyNoEqual
        valueNonempty := nonempty entry member
        valueTrimmed := line.valueTrimmed
        valueNoTab := fun tab => (line.valuePlain _ tab).2.1 rfl }
  unquoted := unquoted

theorem FormsFit.agree {map : SSMap} (plain : FilePlain map) {flags : BitVec 32} {disk : Disk}
    (fit : FormsFit map flags disk) : FormsAgree map flags disk := by
  have wideSaved : saveToFileEx map flags disk = (0, some ((wideText map).take disk.room)) := by
    rw [saveToFileEx, if_pos fit.wide, if_pos fit.opens]
  have plainSaved : saveToFile map disk.opens disk.room = (0, some (plainText map)) := by
    have length := plain.plainText_length
    have room := fit.room
    rw [saveToFile, if_pos fit.opens, List.take_of_length_le]
    cases entriesEq : map.entries with
    | nil => simp [plainText, entriesEq]
    | cons entry entries =>
        rw [entriesEq, List.length_cons] at length
        omega
  refine ⟨?_, ?_, ?_, ?_⟩
  · rw [plainSaved]
    exact plain.load_plainText
  · rw [wideSaved]
    exact plain.load_room fit.room
  · exact fit.buffer.restores (plain.mapPlain fit.nonempty fit.unquoted)
  · rw [wideSaved]
    exact ⟨fun _ => plain.load_room fit.room, fun _ => rfl⟩

theorem FormsAgree.fit {map : SSMap} (plain : FilePlain map) {flags : BitVec 32} {disk : Disk}
    (agree : FormsAgree map flags disk) : FormsFit map flags disk := by
  obtain ⟨buffer, nonempty, unquoted⟩ := agree.string.fits
  have opens : disk.opens := by
    by_contra closed
    have file := agree.file
    rw [saveToFile, if_neg closed, loadFromFile] at file
    have code : (-1 : Int) = 0 := congrArg Prod.fst file
    exact absurd code (by decide)
  have wide : flags &&& flagsWide ≠ 0 := by
    intro narrow
    have code := agree.reported.mpr agree.fileEx
    rw [saveToFileEx, if_neg (not_not.mpr narrow)] at code
    have impossible : (-1 : Int) = 0 := code
    exact absurd impossible (by decide)
  refine ⟨opens, wide, ?_, nonempty, unquoted, buffer⟩
  have fileEx := agree.fileEx
  rw [saveToFileEx, if_pos wide, if_pos opens] at fileEx
  exact plain.room_of_load fileEx

/-- The forms of a map that can be written as lines agree exactly under the conditions
of `FormsFit`; and a file that cannot be opened is always reported. -/
theorem formsAgree_iff (map : SSMap) (plain : FilePlain map) (flags : BitVec 32) (disk : Disk) :
    (FormsAgree map flags disk ↔ FormsFit map flags disk) ∧
      (disk.opens = false → disk.opensAgain = false → (saveToFileEx map flags disk).1 ≠ 0) := by
  refine ⟨⟨FormsAgree.fit plain, FormsFit.agree plain⟩, ?_⟩
  intro closed stillClosed
  have notZero : (-1 : Int) ≠ 0 := by decide
  rw [saveToFileEx, closed, stillClosed]
  split
  · exact notZero
  · exact notZero

/-- A disk on which the file can be opened. -/
def goodDisk (room : Nat) : Disk := { opens := true, opensAgain := true, room := room }

theorem filePlain_single {key value : Text} (plain : LinePlain (key, value))
    (plainShort : (plainLine (key, value)).length < lineSize)
    (wideShort : (wideLine key.length (key, value)).length < lineSize) :
    FilePlain (single key value) := by
  have only : ∀ entry ∈ (single key value).entries, entry = (key, value) := by
    intro entry member
    exact List.mem_singleton.mp member
  have width : keyWidth (single key value) = key.length := Nat.zero_max _
  constructor
  · intro entry member
    rwa [only entry member]
  · intro entry member
    rwa [only entry member]
  · intro entry member
    rwa [only entry member, width]

theorem linePlain_single {value : Text} (trimmed : trim value = value)
    (plain : value.all (fun letter => letter ≠ '\n' ∧ letter ≠ '\t' ∧ letter ≠ '\x00') = true) :
    LinePlain (['k'], value) := by
  have nonempty : (['k'] : Text) ≠ [] := by decide
  have keyTrimmed : trim ['k'] = ['k'] := by decide
  have noEqual : '=' ∉ (['k'] : Text) := by decide
  have keyPlain : (['k'] : Text).all
      (fun letter => letter ≠ '\n' ∧ letter ≠ '\t' ∧ letter ≠ '\x00') = true := by decide
  exact ⟨nonempty, keyTrimmed, noEqual, List.all_iff_forall_prop.mp keyPlain, trimmed,
    List.all_iff_forall_prop.mp plain⟩

theorem shortEntry_agrees : FormsAgree (single ['k'] ['v']) flagsWide (goodDisk 100) := by
  have plain : FilePlain (single ['k'] ['v']) :=
    filePlain_single (linePlain_single (by decide) (by decide)) (by decide) (by decide)
  refine (formsAgree_iff _ plain flagsWide (goodDisk 100)).1.mpr ⟨rfl, by decide, by decide, ?_, ?_, ?_⟩
  · decide
  · rintro _ ⟨⟩ _ ⟨⟩
    rfl
  · constructor <;> decide

/-- An empty value is lost in the string form, and without the flag nothing is
written. -/
theorem emptyValue_disagrees :
    FilePlain (single ['k'] []) ∧ FilePlain (single ['k'] ['v']) ∧
      ¬ FormsAgree (single ['k'] []) flagsWide (goodDisk 100) ∧
      ¬ FormsAgree (single ['k'] ['v']) 0 (goodDisk 100) := by
  have plainEmpty : FilePlain (single ['k'] []) :=
    filePlain_single (linePlain_single (by decide) (by decide)) (by decide) (by decide)
  have plainShort : FilePlain (single ['k'] ['v']) :=
    filePlain_single (linePlain_single (by decide) (by decide)) (by decide) (by decide)
  refine ⟨plainEmpty, plainShort, fun agree => ?_, fun agree => ?_⟩
  · exact agree.string.fits.2.1 (['k'], []) (List.mem_singleton_self _) rfl
  · exact (agree.fit plainShort).wide rfl

end Tegenaria.LibSSMap.SSMap
