import Mathlib.Algebra.Order.BigOperators.Group.List
import Mathlib.Data.List.Find
import Mathlib.Algebra.GroupWithZero.Nat
import Tegenaria.LibStr.Compare

/-!
# Cyrillic texts

`StrCyr2Lat` goes round once less than the text has bytes, but a round takes two bytes when they are a
letter of its table.  Without such a letter the last byte is never looked at; with two or more of them
the loop goes on behind the terminator.
-/

namespace Tegenaria.LibStr

namespace Cyrillic

/-- The tables `STR_Cyr` and `STR_Lat`. -/
def letters : List (Char × List Char) :=
  [('а', ['a']), ('б', ['b']), ('в', ['v']), ('г', ['g']), ('д', ['d']), ('е', ['e']),
    ('ё', ['e']), ('ж', ['z', 'h']), ('з', ['z']), ('и', ['i']), ('й', ['y']), ('к', ['k']),
    ('л', ['l']), ('м', ['m']), ('н', ['n']), ('о', ['o']), ('п', ['p']), ('р', ['r']),
    ('с', ['s']), ('т', ['t']), ('у', ['u']), ('ф', ['f']), ('х', ['h']), ('ц', ['t', 's']),
    ('ч', ['c', 'h']), ('ш', ['s', 'h']), ('щ', ['s', 'h', 't']), ('ъ', ['i']), ('ы', ['y']),
    ('ь', ['y']), ('э', ['e']), ('ю', ['y', 'u']), ('я', ['y', 'a']), ('А', ['A']), ('Б', ['B']),
    ('В', ['V']), ('Г', ['G']), ('Д', ['D']), ('Е', ['E']), ('Ё', ['E']), ('Ж', ['Z', 'h']),
    ('З', ['Z']), ('И', ['I']), ('Й', ['Y']), ('К', ['K']), ('Л', ['L']), ('М', ['M']),
    ('Н', ['N']), ('О', ['O']), ('П', ['P']), ('Р', ['R']), ('С', ['S']), ('Т', ['T']),
    ('У', ['U']), ('Ф', ['F']), ('Х', ['H']), ('Ц', ['T', 's']), ('Ч', ['C', 'h']),
    ('Ш', ['S', 'h']), ('Щ', ['S', 'h', 't']), ('Ъ', ['I']), ('Ы', ['Y']), ('Ь', ['Y']),
    ('Э', ['E']), ('Ю', ['Y', 'u']), ('Я', ['Y', 'a'])]

/-- A text in UTF-8. -/
def encode (text : List Char) : Chars := text.flatMap String.utf8EncodeChar

/-- What stands in `STR_Lat` at the first place where `STR_Cyr` has these bytes. -/
def lat (bytes : Chars) : Option Chars :=
  (letters.find? fun entry => String.utf8EncodeChar entry.1 = bytes).map fun entry => encode entry.2

/-- The rounds of the loop from `src` on.  `memcmp` reads two bytes, and there is no result when it
reads behind the memory. -/
@[grind =] def loop : Nat → Chars → Option Chars
  | 0, _ => some []
  | rounds + 1, first :: second :: rest =>
      match lat [first, second] with
      | some latin => (loop rounds rest).map (latin ++ ·)
      | none => (loop rounds (second :: rest)).map (first :: ·)
  | _ + 1, _ => none

end Cyrillic

/-- `StrCyr2Lat`.  The counter of the loop is an `int`; there is no result when it overflows. -/
def strCyr2Lat (cyrtext : Chars) : Option Chars :=
  if cyrtext.length < 2 then some cyrtext
  else if cyrtext.length - 1 < 2 ^ 31 then Cyrillic.loop (cyrtext.length - 1) (cyrtext ++ [0])
  else none

namespace Cyrillic

/-! ## Letters of the table -/

def entryOf (letter : Char) : Option (Char × List Char) := letters.find? fun entry => entry.1 = letter

def isListed (letter : Char) : Bool := (entryOf letter).isSome

/-- The Latin equivalent of a letter, or its own bytes when it is not listed. -/
def latin (letter : Char) : Chars :=
  match entryOf letter with
  | some entry => encode entry.2
  | none => String.utf8EncodeChar letter

/-- What the call is for. -/
def Transliterates (text : List Char) : Prop := strCyr2Lat (encode text) = some (text.flatMap latin)

/-- All letters of the table are from one block of characters. -/
theorem letters_block : ∀ entry ∈ letters, 0x400 ≤ entry.1.toNat ∧ entry.1.toNat < 0x500 ∧
    entry.2 ≠ [] := by
  decide

/-- A byte with which the characters of this block begin. -/
def isLead (byte : UInt8) : Bool := 0xd0 ≤ byte && byte < 0xd4

theorem encode_eq (letter : Char) : String.utf8EncodeChar letter =
    if letter.toNat ≤ 0x7f then [.ofNat letter.toNat]
    else if letter.toNat ≤ 0x7ff then
      [.ofNat (letter.toNat / 64 % 0x20 + 0xc0), .ofNat (letter.toNat % 0x40 + 0x80)]
    else if letter.toNat ≤ 0xffff then
      [.ofNat (letter.toNat / 4096 % 0x10 + 0xe0), .ofNat (letter.toNat / 64 % 0x40 + 0x80),
        .ofNat (letter.toNat % 0x40 + 0x80)]
    else
      [.ofNat (letter.toNat / 262144 % 0x08 + 0xf0), .ofNat (letter.toNat / 4096 % 0x40 + 0x80),
        .ofNat (letter.toNat / 64 % 0x40 + 0x80), .ofNat (letter.toNat % 0x40 + 0x80)] := rfl

theorem encode_short {letter : Char} (low : 0x7f < letter.toNat) (high : letter.toNat ≤ 0x7ff) :
    String.utf8EncodeChar letter =
      [.ofNat (letter.toNat / 64 % 0x20 + 0xc0), .ofNat (letter.toNat % 0x40 + 0x80)] := by
  rw [encode_eq, if_neg (Nat.not_le_of_lt low), if_pos high]

theorem toNat_ofNat_of_lt {value : Nat} (small : value < 256) : (UInt8.ofNat value).toNat = value := by
  rw [UInt8.toNat_ofNat', Nat.mod_eq_of_lt small]

theorem isLead_iff {byte : UInt8} : isLead byte = true ↔ 0xd0 ≤ byte.toNat ∧ byte.toNat < 0xd4 := by
  rw [isLead, Bool.and_eq_true, decide_eq_true_iff, decide_eq_true_iff, UInt8.le_iff_toNat_le,
    UInt8.lt_iff_toNat_lt]
  rfl

theorem isLead_ofNat {value : Nat} (small : value < 256) :
    isLead (.ofNat value) = true ↔ 0xd0 ≤ value ∧ value < 0xd4 := by
  rw [isLead_iff, toNat_ofNat_of_lt small]

/-- The bytes of a letter of the block are those of no other character. -/
theorem encode_inj {letter other : Char} (low : 0x400 ≤ letter.toNat) (high : letter.toNat < 0x500)
    (same : String.utf8EncodeChar letter = String.utf8EncodeChar other) : letter = other := by
  rw [encode_short (by omega) (by omega), encode_eq other] at same
  split at same
  · exact absurd (congrArg List.length same) (by simp)
  · split at same
    · obtain ⟨first, rest⟩ := List.cons.inj same
      have second := (List.cons.inj rest).1
      have firstNat := congrArg UInt8.toNat first
      have secondNat := congrArg UInt8.toNat second
      rw [toNat_ofNat_of_lt (by omega), toNat_ofNat_of_lt (by omega)] at firstNat secondNat
      refine Char.toNat_inj.mp ?_
      omega
    · split at same
      · exact absurd (congrArg List.length same) (by simp)
      · exact absurd (congrArg List.length same) (by simp)

/-- A byte of a character that is neither the first one of two nor a byte of its own is below those
with which a letter of the block begins. -/
theorem isLead_tail (value : Nat) : isLead (.ofNat (value % 0x40 + 0x80)) = false := by
  rw [← Bool.not_eq_true, isLead_ofNat (by omega)]
  omega

/-- Only the first of two bytes can be one with which a letter of the block begins. -/
theorem encode_bytes (letter : Char) :
    (∃ first second, String.utf8EncodeChar letter = [first, second] ∧ isLead second = false) ∨
      ∀ byte ∈ String.utf8EncodeChar letter, isLead byte = false := by
  rw [encode_eq]
  split
  · next low =>
      refine .inr fun byte member => ?_
      rw [List.mem_singleton.mp member, ← Bool.not_eq_true, isLead_ofNat (by omega)]
      omega
  · split
    · exact .inl ⟨_, _, rfl, isLead_tail _⟩
    · split
      · refine .inr (List.forall_mem_cons.mpr ⟨?_, List.forall_mem_cons.mpr ⟨isLead_tail _, ?_⟩⟩)
        · rw [← Bool.not_eq_true, isLead_ofNat (by omega)]
          omega
        · exact List.forall_mem_singleton.mpr (isLead_tail _)
      · refine .inr (List.forall_mem_cons.mpr ⟨?_, List.forall_mem_cons.mpr ⟨isLead_tail _, ?_⟩⟩)
        · rw [← Bool.not_eq_true, isLead_ofNat (by omega)]
          omega
        · exact List.forall_mem_cons.mpr ⟨isLead_tail _, List.forall_mem_singleton.mpr (isLead_tail _)⟩

theorem lat_encode (letter : Char) :
    lat (String.utf8EncodeChar letter) = (entryOf letter).map fun entry => encode entry.2 := by
  have same : ∀ entry ∈ letters,
      decide (String.utf8EncodeChar entry.1 = String.utf8EncodeChar letter) =
        decide (entry.1 = letter) := by
    intro entry member
    obtain ⟨low, high, -⟩ := letters_block entry member
    rw [decide_eq_decide]
    exact ⟨encode_inj low high, congrArg String.utf8EncodeChar⟩
  rw [lat, entryOf, List.find?_congr same]

/-- Two bytes are found in the table only if the first one begins a letter of the block. -/
theorem lat_eq_none {first : UInt8} (other : isLead first = false) (second : UInt8) :
    lat [first, second] = none := by
  rw [lat, Option.map_eq_none_iff, List.find?_eq_none]
  intro entry member same
  obtain ⟨low, high, -⟩ := letters_block entry member
  rw [decide_eq_true_iff, encode_short (by omega) (by omega)] at same
  obtain ⟨rfl, -⟩ := List.cons.inj same
  rw [← Bool.not_eq_true, isLead_ofNat (by omega)] at other
  omega

/-! ## The loop -/

theorem loop_copied {first second : UInt8} {rest : Chars} (unlisted : lat [first, second] = none)
    (rounds : Nat) :
    loop (rounds + 1) (first :: second :: rest) = (loop rounds (second :: rest)).map (first :: ·) := by
  rw [loop, unlisted]

/-- Bytes with which no letter of the block begins are copied one by one. -/
theorem loop_plain {bytes rest : Chars} (plain : ∀ byte ∈ bytes, isLead byte = false) (more : rest ≠ [])
    (rounds : Nat) :
    loop (bytes.length + rounds) (bytes ++ rest) = (loop rounds rest).map (bytes ++ ·) := by
  induction bytes with
  | nil => simp
  | cons first bytes ih =>
      rw [List.forall_mem_cons] at plain
      obtain ⟨second, later, next⟩ : ∃ second later, bytes ++ rest = second :: later :=
        List.exists_cons_of_ne_nil (List.append_ne_nil_of_right_ne_nil _ more)
      rw [List.length_cons, Nat.add_right_comm, List.cons_append, next,
        loop_copied (lat_eq_none plain.1 second), ← next, ih plain.2, Option.map_map]
      rfl

/-- The rounds that a character takes. -/
def roundsOf (letter : Char) : Nat := if isListed letter then 1 else (String.utf8EncodeChar letter).length

theorem length_listed {letter : Char} (listed : isListed letter = true) :
    (String.utf8EncodeChar letter).length = 2 := by
  obtain ⟨entry, found⟩ := Option.isSome_iff_exists.mp listed
  obtain ⟨low, high, -⟩ := letters_block entry (List.mem_of_find?_eq_some found)
  have test := List.find?_some found
  rw [of_decide_eq_true test] at low high
  rw [encode_short (by omega) (by omega)]
  rfl

theorem loop_letter (letter : Char) {rest : Chars} (more : rest ≠ []) (rounds : Nat) :
    loop (roundsOf letter + rounds) (String.utf8EncodeChar letter ++ rest) =
      (loop rounds rest).map (latin letter ++ ·) := by
  have found := lat_encode letter
  cases entry : entryOf letter with
  | some pair =>
      have listed : isListed letter = true := by rw [isListed, entry, Option.isSome_some]
      obtain ⟨first, second, two⟩ := List.length_eq_two.mp (length_listed listed)
      rw [entry, Option.map_some, two] at found
      rw [roundsOf, if_pos listed, latin, entry, two, Nat.add_comm, List.cons_append, List.cons_append,
        List.nil_append, loop, found]
  | none =>
      have unlisted : isListed letter = false := by rw [isListed, entry, Option.isSome_none]
      rw [roundsOf, unlisted, if_neg Bool.false_ne_true, latin, entry]
      rcases encode_bytes letter with ⟨first, second, two, plain⟩ | plain
      · rw [entry, Option.map_none, two] at found
        have later := loop_plain (List.forall_mem_singleton.mpr plain) more rounds
        rw [List.singleton_append, List.length_singleton] at later
        have size : [first, second].length + rounds = 1 + rounds + 1 := by
          rw [List.length_cons, List.length_singleton]
          omega
        rw [two, size, List.cons_append, List.singleton_append, loop_copied found, later, Option.map_map]
        rfl
      · exact loop_plain plain more rounds

theorem loop_encode (text : List Char) {rest : Chars} (more : rest ≠ []) (rounds : Nat) :
    loop ((text.map roundsOf).sum + rounds) (encode text ++ rest) =
      (loop rounds rest).map (text.flatMap latin ++ ·) := by
  induction text with
  | nil => simp [encode]
  | cons letter text ih =>
      have later : encode text ++ rest ≠ [] := List.append_ne_nil_of_right_ne_nil _ more
      have goes := loop_letter letter later ((text.map roundsOf).sum + rounds)
      rw [ih, Option.map_map] at goes
      rw [List.map_cons, List.sum_cons, Nat.add_assoc, encode, List.flatMap_cons, List.append_assoc,
        ← encode, goes, List.flatMap_cons]
      congr 1
      funext out
      rw [Function.comp_apply, List.append_assoc]

/-- Each listed letter saves a round. -/
theorem length_encode (text : List Char) :
    (encode text).length = (text.map roundsOf).sum + text.countP isListed := by
  induction text with
  | nil => rfl
  | cons letter text ih =>
      rw [encode, List.flatMap_cons, List.length_append, ← encode, ih, List.map_cons, List.sum_cons,
        List.countP_cons, roundsOf]
      by_cases listed : isListed letter = true
      · rw [if_pos listed, if_pos listed, length_listed listed]
        omega
      · rw [if_neg listed, if_neg listed]
        omega

theorem countP_le_rounds (text : List Char) : text.countP isListed ≤ (text.map roundsOf).sum := by
  have some : ∀ rounds ∈ text.map roundsOf, 1 ≤ rounds := by
    intro rounds member
    obtain ⟨letter, -, rfl⟩ := List.mem_map.mp member
    rw [roundsOf]
    split
    · exact le_rfl
    · exact List.length_pos_of_ne_nil String.utf8EncodeChar_ne_nil
  have enough := List.length_le_sum_of_one_le _ some
  rw [List.length_map] at enough
  exact List.countP_le_length.trans enough

theorem flatMap_latin {text : List Char} (none : text.countP isListed = 0) :
    text.flatMap latin = encode text := by
  rw [List.countP_eq_zero] at none
  refine List.flatMap_congr fun letter member => ?_
  have unlisted := none letter member
  rw [isListed, Option.not_isSome_iff_eq_none] at unlisted
  rw [latin, unlisted]

theorem lat_ne_nil {bytes latin : Chars} (found : lat bytes = some latin) : latin ≠ [] := by
  obtain ⟨entry, there, rfl⟩ := Option.map_eq_some_iff.mp found
  obtain ⟨-, -, nonempty⟩ := letters_block entry (List.mem_of_find?_eq_some there)
  obtain ⟨letter, rest, same⟩ := List.exists_cons_of_ne_nil nonempty
  rw [same, encode, List.flatMap_cons]
  exact List.append_ne_nil_of_left_ne_nil String.utf8EncodeChar_ne_nil _

/-- Each round adds a byte or more. -/
theorem loop_succ {rounds : Nat} {src whole : Chars} (returned : loop (rounds + 1) src = some whole) :
    ∃ out more, loop rounds src = some out ∧ more ≠ [] ∧ whole = out ++ more := by
  induction rounds generalizing src whole with
  | zero =>
      refine ⟨[], whole, rfl, ?_, rfl⟩
      match src, returned with
      | first :: second :: rest, returned =>
          rw [loop] at returned
          cases found : lat [first, second] with
          | some latin =>
              rw [found] at returned
              obtain ⟨out, -, rfl⟩ := Option.map_eq_some_iff.mp returned
              exact List.append_ne_nil_of_left_ne_nil (lat_ne_nil found) _
          | none =>
              rw [found] at returned
              obtain ⟨out, -, rfl⟩ := Option.map_eq_some_iff.mp returned
              exact List.cons_ne_nil _ _
  | succ rounds ih =>
      match src, returned with
      | first :: second :: rest, returned =>
          rw [loop] at returned ⊢
          cases found : lat [first, second] with
          | some latin =>
              rw [found] at returned
              obtain ⟨later, goes, rfl⟩ := Option.map_eq_some_iff.mp returned
              obtain ⟨out, more, shorter, nonempty, rfl⟩ := ih goes
              exact ⟨latin ++ out, more, by rw [shorter]; rfl, nonempty, (List.append_assoc ..).symm⟩
          | none =>
              rw [found] at returned
              obtain ⟨later, goes, rfl⟩ := Option.map_eq_some_iff.mp returned
              obtain ⟨out, more, shorter, nonempty, rfl⟩ := ih goes
              exact ⟨first :: out, more, by rw [shorter]; rfl, nonempty, rfl⟩

end Cyrillic

open Cyrillic in
/-- The text is transliterated exactly when it has one byte or none, or when exactly one of its letters
is in the table (and the counter of the loop does not overflow). -/
theorem strCyr2Lat_transliterates_iff (text : List Char) :
    Transliterates text ↔ (encode text).length < 2 ∨
      (encode text).length ≤ 2 ^ 31 ∧ text.countP isListed = 1 := by
  have size := length_encode text
  by_cases short : (encode text).length < 2
  · refine iff_of_true ?_ (.inl short)
    have none : text.countP isListed = 0 := by
      have few := countP_le_rounds text
      omega
    rw [Transliterates, strCyr2Lat, if_pos short, flatMap_latin none]
  · by_cases counts : (encode text).length - 1 < 2 ^ 31
    · rw [Transliterates, strCyr2Lat, if_neg short, if_pos counts, or_iff_right short]
      rw [and_iff_right (by omega)]
      have goes : ∀ rounds, loop ((text.map roundsOf).sum + rounds) (encode text ++ [0]) =
          (loop rounds [0]).map (text.flatMap latin ++ ·) :=
        loop_encode text (List.cons_ne_nil 0 [])
      cases counted : text.countP isListed with
      | zero =>
          refine iff_of_false (fun returned => ?_) Nat.zero_ne_one
          obtain ⟨before, same⟩ : ∃ before, (encode text).length = before + 1 :=
            Nat.exists_eq_succ_of_ne_zero (by omega)
          have rounds : (text.map roundsOf).sum + 0 = before + 1 := by omega
          have whole := goes 0
          rw [rounds] at whole
          obtain ⟨out, more, shorter, nonempty, all⟩ := loop_succ whole
          rw [same, Nat.add_sub_cancel, shorter, Option.some.injEq] at returned
          change text.flatMap latin ++ [] = out ++ more at all
          rw [List.append_nil, returned] at all
          exact nonempty (List.self_eq_append_right.mp all)
      | succ others =>
          have rounds : (encode text).length - 1 = (text.map roundsOf).sum + others := by omega
          rw [rounds, goes]
          cases others with
          | zero => exact iff_of_true (congrArg some (List.append_nil _)) rfl
          | succ others => exact iff_of_false (Option.some_ne_none _).symm (by omega)
    · refine iff_of_false ?_ (by omega)
      rw [Transliterates, strCyr2Lat, if_neg short, if_neg counts]
      exact (Option.some_ne_none _).symm

open Cyrillic in
/-- Without a letter of the table the last character is lost, and with two of them the loop reads
behind the string. -/
theorem strCyr2Lat_loses :
    strCyr2Lat [97, 98] = some [97] ∧ ¬ Transliterates ['a', 'b'] ∧
      strCyr2Lat (encode ['д', 'а']) = none := by
  have cut : strCyr2Lat [97, 98] = some [97] := by decide
  refine ⟨cut, fun transliterates => ?_, by decide⟩
  cases cut.symm.trans transliterates

end Tegenaria.LibStr
