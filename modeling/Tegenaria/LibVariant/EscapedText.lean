import Mathlib.Data.List.Forall2
import Mathlib.Data.List.Sort
import Mathlib.Data.List.TakeWhile
import Mathlib.Order.Defs.LinearOrder
import Mathlib.Data.List.Lex
import Mathlib.Data.Char
import Tegenaria.LibVariant.Indexing

/-!
# Texts of Variants, escaped for C

`toStdString` prints a value, the items of arrays and the entries of maps one after the other.
`toStringEscapedForC` puts a backslash before backslashes and quotation marks.  It does not
escape line ends, which no string literal may contain, and it hands the text on as a C string,
which ends at the first NUL.
-/

namespace Tegenaria.LibVariant

/-! ## Printing -/

def apostrophe : Char := Char.ofNat 39

def doubleQuote : Char := Char.ofNat 34

def backslash : Char := Char.ofNat 92

/-- `%d` -/
def decimal : Int → Text
  | .ofNat value => Nat.toDigits 10 value
  | .negSucc value => '-' :: Nat.toDigits 10 (value + 1)

/-- The loops over items and entries, with a separator before all but the first. -/
def joined : List Text → Text
  | [] => []
  | first :: rest => first ++ rest.flatMap fun item => ',' :: ' ' :: item

/-- Strings stand in quotation marks inside of containers. -/
def quoted (value : Variant) (text : Text) : Text :=
  if (stringTarget value).isSome then apostrophe :: text ++ [apostrophe] else text

/-- The name of an entry, with what stands around it. -/
def label (key : Text) : Text := apostrophe :: key ++ [apostrophe, ':', ' ']

def Slot.name (slot : Slot) : Text := slot.key.getD []

/-- A map is walked through in the order of its keys. -/
def inOrder (slots : List Slot) : List Slot :=
  slots.insertionSort fun left right => left.name ≤ right.name

/-- The text of an item. -/
def itemText (slot : Slot) (text : Text) : Text := quoted slot.value text

/-- The text of an entry. -/
def entryText (slot : Slot) (text : Text) : Text := label slot.name ++ quoted slot.value text

/-- The texts of all items or entries, of which each value is printed. -/
def printSlots (print : Variant → Option Text) (slotText : Slot → Text → Text) (slots : List Slot) :
    Option (List Text) :=
  slots.mapM fun slot => (print slot.value).map (slotText slot)

section Printing

variable (printDouble : UInt64 → Text)

/-- The values without a shared object. -/
def plainText : Plain → Text
  | .undefined => ['u', 'n', 'd', 'e', 'f', 'i', 'n', 'e', 'd']
  | .null => ['n', 'u', 'l', 'l']
  | .integer value => decimal value
  | .boolean value => if value then ['t', 'r', 'u', 'e'] else ['f', 'a', 'l', 's', 'e']
  | .double bits => printDouble bits
  | .pointer _ => ['[', 'p', 't', 'r', ']']

/-- `toStdString`, with fuel for the nesting of containers and with the text that `%lf` gives for a
double. -/
def toStdString (fuel : Nat) (memory : Memory) (value : Variant) : Option Text :=
  match fuel with
  | 0 => none
  | fuel + 1 =>
      match value with
      | .plain value => some (plainText printDouble value)
      | .shared .string id => textOf memory id
      | .shared .object _ => some ['[', 'o', 'b', 'j', 'e', 'c', 't', ']']
      | .shared .array id =>
          (memory.heap[id]?).bind fun object =>
            (printSlots (toStdString fuel memory) itemText object.content.slots).map fun items =>
              '[' :: joined items ++ [']']
      | .shared .map id =>
          (memory.heap[id]?).bind fun object =>
            (printSlots (toStdString fuel memory) entryText
              (inOrder object.content.slots)).map fun entries =>
              Char.ofNat 123 :: joined entries ++ [Char.ofNat 125]

end Printing

/-! ## Escaping -/

def escapeCharacter (character : Char) : Text :=
  if character = backslash then [backslash, backslash]
  else if character = doubleQuote then [backslash, doubleQuote]
  else [character]

/-- What the constructor from `c_str()` takes. -/
def cString (text : Text) : Text := text.takeWhile fun character => character != nul

/-- `toStringEscapedForC` -/
def toStringEscapedForC (printDouble : UInt64 → Text) (fuel : Nat) (memory : Memory) (value : Variant) :
    Option Text :=
  (toStdString printDouble fuel memory value).map fun text => cString (text.flatMap escapeCharacter)

/-- The escape sequences of one character. -/
def simpleEscapes : List (Char × Char) :=
  [(apostrophe, apostrophe), (doubleQuote, doubleQuote), ('?', '?'), (backslash, backslash),
    ('a', Char.ofNat 7), ('b', Char.ofNat 8), ('f', Char.ofNat 12), ('n', Char.ofNat 10),
    ('r', Char.ofNat 13), ('t', Char.ofNat 9), ('v', Char.ofNat 11)]

/-- A C compiler reads the body of a string literal, in which no quotation mark and no line end
stands for itself.  What ends a line is up to the compiler.  Escape sequences with digits, which
the escaped text never has, are not read. -/
@[grind =] def readLiteral (newline : Char → Bool) : Text → Option Text
  | [] => some []
  | character :: rest =>
      if character = backslash then
        match rest with
        | [] => none
        | escape :: later =>
            (simpleEscapes.lookup escape).bind fun meant => (readLiteral newline later).map (meant :: ·)
      else if character = doubleQuote ∨ newline character = true then none
      else (readLiteral newline rest).map (character :: ·)

/-! ## Reading what was escaped -/

/-- The reader gives back each character that may stand in a literal. -/
theorem readLiteral_escapeCharacter {newline : Char → Bool}
    (control : ∀ character, newline character = true → character.toNat < 32) (character : Char)
    (rest : Text) :
    readLiteral newline (escapeCharacter character ++ rest) =
      if newline character then none else (readLiteral newline rest).map (character :: ·) := by
  have printable : ∀ other, 32 ≤ other.toNat → newline other = false := by
    intro other large
    by_contra ends
    have small := control other (Bool.eq_true_of_not_eq_false ends)
    omega
  unfold escapeCharacter
  split
  · next same =>
      rw [same, printable backslash (by decide)]
      rfl
  · next different =>
      split
      · next same =>
          rw [same, printable doubleQuote (by decide)]
          rfl
      · next plain =>
          rw [List.singleton_append, readLiteral.eq_def]
          simp only [if_neg different, plain, false_or]

theorem readLiteral_escaped {newline : Char → Bool}
    (control : ∀ character, newline character = true → character.toNat < 32) (text : Text) :
    readLiteral newline (text.flatMap escapeCharacter) = if text.any newline then none else some text := by
  induction text with
  | nil => rfl
  | cons character rest ih =>
      rw [List.flatMap_cons, readLiteral_escapeCharacter control, ih, List.any_cons]
      cases newline character with
      | true => rfl
      | false => cases rest.any newline <;> rfl

/-- The constructor cuts the escaped text where the text has its first NUL. -/
theorem cString_escaped (text : Text) :
    cString (text.flatMap escapeCharacter) = (cString text).flatMap escapeCharacter := by
  induction text with
  | nil => rfl
  | cons character rest ih =>
      unfold cString at ih ⊢
      have kept : character ≠ nul → (escapeCharacter character).all (· != nul) = true := by
        intro visible
        unfold escapeCharacter
        split
        · rfl
        · split
          · rfl
          · simpa using visible
      by_cases ends : character = nul
      · rw [ends]
        rfl
      · rw [List.flatMap_cons, List.takeWhile_cons_of_pos (by simpa using ends), List.flatMap_cons,
          List.takeWhile_append_of_pos (List.all_eq_true.mp (kept ends)), ih]

/-- A text is read back exactly when it has no NUL and no line end. -/
theorem readLiteral_cString_iff {newline : Char → Bool}
    (control : ∀ character, newline character = true → character.toNat < 32) (text : Text) :
    readLiteral newline (cString (text.flatMap escapeCharacter)) = some text ↔
      ∀ character ∈ text, character ≠ nul ∧ newline character = false := by
  rw [cString_escaped, readLiteral_escaped control, Option.ite_none_left_eq_some, Option.some.injEq]
  constructor
  · rintro ⟨lines, whole⟩ character mem
    have cut : ∀ other ∈ cString text, other ≠ nul := by
      intro other inside
      simpa using List.mem_takeWhile_imp inside
    rw [whole] at lines cut
    refine ⟨cut character mem, ?_⟩
    by_contra ends
    exact lines (List.any_eq_true.mpr ⟨character, mem, Bool.eq_true_of_not_eq_false ends⟩)
  · intro allowed
    have whole : cString text = text :=
      List.takeWhile_eq_self_iff.mpr fun character mem => by simpa using (allowed character mem).1
    rw [whole]
    refine ⟨?_, rfl⟩
    rw [List.any_eq_true]
    rintro ⟨character, mem, ends⟩
    rw [(allowed character mem).2] at ends
    cases ends

/-! ## What a value shows -/

/-- The printer comes to an end: the objects are there, and no container is inside of itself. -/
inductive Printable (memory : Memory) : Variant → Prop where
  | plain (value : Plain) : Printable memory (.plain value)
  | object (id : Nat) : Printable memory (.shared .object id)
  | string {id : Nat} {text : Text} (there : textOf memory id = some text) :
      Printable memory (.shared .string id)
  | array {id : Nat} {object : SharedObject} (there : memory.heap[id]? = some object)
      (items : ∀ slot ∈ object.content.slots, Printable memory slot.value) :
      Printable memory (.shared .array id)
  | map {id : Nat} {object : SharedObject} (there : memory.heap[id]? = some object)
      (entries : ∀ slot ∈ object.content.slots, Printable memory slot.value) :
      Printable memory (.shared .map id)

/-- The texts that are printed as they are: strings, keys and what `%lf` gives. -/
inductive Shows (printDouble : UInt64 → Text) (memory : Memory) : Variant → Text → Prop where
  | double (bits : UInt64) : Shows printDouble memory (.plain (.double bits)) (printDouble bits)
  | string {id : Nat} {text : Text} (there : textOf memory id = some text) :
      Shows printDouble memory (.shared .string id) text
  | item {id : Nat} {object : SharedObject} {slot : Slot} {text : Text}
      (there : memory.heap[id]? = some object) (mem : slot ∈ object.content.slots)
      (inside : Shows printDouble memory slot.value text) :
      Shows printDouble memory (.shared .array id) text
  | entry {id : Nat} {object : SharedObject} {slot : Slot} {text : Text}
      (there : memory.heap[id]? = some object) (mem : slot ∈ object.content.slots)
      (inside : Shows printDouble memory slot.value text) :
      Shows printDouble memory (.shared .map id) text
  | key {id : Nat} {object : SharedObject} {slot : Slot} (there : memory.heap[id]? = some object)
      (mem : slot ∈ object.content.slots) : Shows printDouble memory (.shared .map id) slot.name

theorem mapM_eq_some_iff {α β : Type} {f : α → Option β} {values : List α} {results : List β} :
    values.mapM f = some results ↔
      List.Forall₂ (fun value result => f value = some result) values results := by
  induction values generalizing results with
  | nil => simp [eq_comm]
  | cons value rest ih =>
      simp only [List.mapM_cons, Option.bind_eq_bind, Option.pure_def, Option.bind_eq_some_iff, ih,
        List.forall₂_cons_left_iff, Option.some.injEq]
      constructor
      · rintro ⟨first, found, others, later, rfl⟩
        exact ⟨first, others, found, later, rfl⟩
      · rintro ⟨first, others, found, later, rfl⟩
        exact ⟨first, found, others, later, rfl⟩

section Slots

variable {print : Variant → Option Text} {slotText : Slot → Text → Text} {slots : List Slot}
  {texts : List Text}

theorem printSlots_mono {other : Variant → Option Text}
    (weaker : ∀ value text, print value = some text → other value = some text)
    (printed : printSlots print slotText slots = some texts) :
    printSlots other slotText slots = some texts := by
  refine Iff.mpr mapM_eq_some_iff ((Iff.mp mapM_eq_some_iff printed).imp ?_)
  intro slot result found
  obtain ⟨text, shown, rfl⟩ := Option.map_eq_some_iff.mp found
  exact Option.map_eq_some_iff.mpr ⟨text, weaker _ _ shown, rfl⟩

/-- All slots are printed when each value is. -/
theorem exists_printSlots (each : ∀ slot ∈ slots, ∃ text, print slot.value = some text) :
    ∃ texts, printSlots print slotText slots = some texts := by
  induction slots with
  | nil => exact ⟨[], rfl⟩
  | cons slot rest ih =>
      obtain ⟨text, found⟩ := each slot List.mem_cons_self
      obtain ⟨texts, later⟩ := ih fun other mem => each other (List.mem_cons_of_mem _ mem)
      refine ⟨slotText slot text :: texts, Iff.mpr mapM_eq_some_iff (.cons ?_ (Iff.mp mapM_eq_some_iff later))⟩
      rw [found]
      rfl

theorem mem_printSlots (printed : printSlots print slotText slots = some texts) {text : Text} :
    text ∈ texts ↔ ∃ slot ∈ slots, ∃ shown, print slot.value = some shown ∧ slotText slot shown = text := by
  have pairs := Iff.mp mapM_eq_some_iff printed
  clear printed
  induction pairs with
  | nil => simp
  | @cons slot first rest others found pairs ih =>
      obtain ⟨shown, there, rfl⟩ := Option.map_eq_some_iff.mp found
      simp only [List.mem_cons, ih, exists_eq_or_imp, there, Option.some.injEq, exists_eq_left']
      exact or_congr_left eq_comm

/-- Every slot is printed. -/
theorem exists_of_mem (printed : printSlots print slotText slots = some texts) {slot : Slot}
    (mem : slot ∈ slots) :
    ∃ text ∈ texts, ∃ shown, print slot.value = some shown ∧ slotText slot shown = text := by
  have pairs := Iff.mp mapM_eq_some_iff printed
  clear printed
  induction pairs with
  | nil => cases mem
  | @cons first text rest others found pairs ih =>
      rcases List.mem_cons.mp mem with rfl | mem
      · exact ⟨text, List.mem_cons_self, Option.map_eq_some_iff.mp found⟩
      · obtain ⟨other, listed, shown⟩ := ih mem
        exact ⟨other, List.mem_cons_of_mem _ listed, shown⟩

end Slots

section Printing

variable {printDouble : UInt64 → Text} {memory : Memory} {value : Variant} {text : Text} {fuel : Nat}
  {character : Char}

/-- More fuel gives the same text. -/
theorem toStdString_mono {more : Nat} (enough : fuel ≤ more)
    (printed : toStdString printDouble fuel memory value = some text) :
    toStdString printDouble more memory value = some text := by
  induction fuel generalizing more value text with
  | zero => cases printed
  | succ fuel ih =>
      obtain ⟨more, rfl⟩ := Nat.exists_eq_add_of_le' (Nat.lt_of_lt_of_le (Nat.succ_pos _) enough)
      have weaker : ∀ value text, toStdString printDouble fuel memory value = some text →
          toStdString printDouble more memory value = some text :=
        fun value text shown => ih (by omega) shown
      cases value with
      | plain value => exact printed
      | shared type id =>
          cases type with
          | string => exact printed
          | object => exact printed
          | array =>
              obtain ⟨object, there, printed⟩ := Option.bind_eq_some_iff.mp printed
              obtain ⟨items, made, rfl⟩ := Option.map_eq_some_iff.mp printed
              refine Option.bind_eq_some_iff.mpr ⟨object, there, ?_⟩
              exact Option.map_eq_some_iff.mpr ⟨items, printSlots_mono weaker made, rfl⟩
          | map =>
              obtain ⟨object, there, printed⟩ := Option.bind_eq_some_iff.mp printed
              obtain ⟨items, made, rfl⟩ := Option.map_eq_some_iff.mp printed
              refine Option.bind_eq_some_iff.mpr ⟨object, there, ?_⟩
              exact Option.map_eq_some_iff.mpr ⟨items, printSlots_mono weaker made, rfl⟩

theorem mem_inOrder {slots : List Slot} {slot : Slot} : slot ∈ inOrder slots ↔ slot ∈ slots :=
  List.mem_insertionSort _

/-- Some fuel is enough for all values of a list. -/
theorem exists_fuel {slots : List Slot}
    (each : ∀ slot ∈ slots, ∃ fuel text, toStdString printDouble fuel memory slot.value = some text) :
    ∃ fuel, ∀ slot ∈ slots, ∃ text, toStdString printDouble fuel memory slot.value = some text := by
  induction slots with
  | nil => exact ⟨0, fun slot mem => by cases mem⟩
  | cons slot rest ih =>
      obtain ⟨first, text, shown⟩ := each slot List.mem_cons_self
      obtain ⟨others, later⟩ := ih fun other mem => each other (List.mem_cons_of_mem _ mem)
      refine ⟨max first others, fun other mem => ?_⟩
      rcases List.mem_cons.mp mem with rfl | mem
      · exact ⟨text, toStdString_mono (Nat.le_max_left _ _) shown⟩
      · obtain ⟨text, shown⟩ := later other mem
        exact ⟨text, toStdString_mono (Nat.le_max_right _ _) shown⟩

/-- A printable value is printed with enough fuel. -/
theorem Printable.exists_text (printable : Printable memory value) :
    ∃ fuel text, toStdString printDouble fuel memory value = some text := by
  induction printable with
  | plain value => exact ⟨1, _, rfl⟩
  | object id => exact ⟨1, _, rfl⟩
  | string there => exact ⟨1, _, there⟩
  | @array id object there items ih =>
      obtain ⟨fuel, each⟩ := exists_fuel ih
      obtain ⟨texts, printed⟩ :
          ∃ texts, printSlots (toStdString printDouble fuel memory) itemText object.content.slots =
            some texts :=
        exists_printSlots each
      refine ⟨fuel + 1, '[' :: joined texts ++ [']'], ?_⟩
      exact Option.bind_eq_some_iff.mpr ⟨object, there, Option.map_eq_some_iff.mpr ⟨texts, printed, rfl⟩⟩
  | @map id object there entries ih =>
      obtain ⟨fuel, each⟩ := exists_fuel ih
      obtain ⟨texts, printed⟩ : ∃ texts, printSlots (toStdString printDouble fuel memory) entryText
          (inOrder object.content.slots) = some texts :=
        exists_printSlots fun slot mem => each slot (Iff.mp mem_inOrder mem)
      refine ⟨fuel + 1, Char.ofNat 123 :: joined texts ++ [Char.ofNat 125], ?_⟩
      exact Option.bind_eq_some_iff.mpr ⟨object, there, Option.map_eq_some_iff.mpr ⟨texts, printed, rfl⟩⟩

/-! ## Control characters -/

theorem notMem_of_printable {piece : Text}
    (printable : piece.all (fun other => decide (32 ≤ other.toNat)) = true)
    (control : character.toNat < 32) : character ∉ piece := by
  intro mem
  have large := of_decide_eq_true (List.all_eq_true.mp printable character mem)
  omega

theorem notMem_decimal (control : character.toNat < 32) (number : Int) : character ∉ decimal number := by
  have digits : ∀ number : Nat, character ∉ Nat.toDigits 10 number := by
    intro number mem
    have digit := Nat.isDigit_of_mem_toDigits (by decide) (by decide) mem
    simp only [Char.isDigit, ge_iff_le, Bool.and_eq_true, decide_eq_true_eq] at digit
    have large : '0'.toNat ≤ character.toNat := digit.1
    have zero : '0'.toNat = 48 := by decide
    omega
  cases number with
  | ofNat value => exact digits value
  | negSucc value =>
      rw [decimal, List.mem_cons, not_or]
      refine ⟨?_, digits _⟩
      rintro rfl
      exact absurd control (by decide)

theorem mem_joined (control : character.toNat < 32) (items : List Text) :
    character ∈ joined items ↔ ∃ item ∈ items, character ∈ item := by
  have comma : character ≠ ',' := by
    rintro rfl
    exact absurd control (by decide)
  have blank : character ≠ ' ' := by
    rintro rfl
    exact absurd control (by decide)
  cases items with
  | nil => simp [joined]
  | cons first rest => simp [joined, comma, blank]

theorem mem_quoted (control : character.toNat < 32) (value : Variant) (text : Text) :
    character ∈ quoted value text ↔ character ∈ text := by
  have mark : character ∉ [apostrophe] := notMem_of_printable (by decide) control
  unfold quoted
  split
  · rw [← List.singleton_append, List.mem_append, List.mem_append]
    simp only [mark, false_or, or_false]
  · exact Iff.rfl

theorem mem_label (control : character.toNat < 32) (key : Text) :
    character ∈ label key ↔ character ∈ key := by
  have mark : character ∉ [apostrophe] := notMem_of_printable (by decide) control
  have tail : character ∉ [apostrophe, ':', ' '] := notMem_of_printable (by decide) control
  rw [label, ← List.singleton_append, List.mem_append, List.mem_append]
  simp only [mark, tail, false_or, or_false]

theorem mem_plainText (control : character.toNat < 32) (value : Plain) :
    character ∈ plainText printDouble value ↔
      ∃ bits, value = .double bits ∧ character ∈ printDouble bits := by
  cases value with
  | double bits => simp only [plainText, Plain.double.injEq, exists_eq_left']
  | integer number => simp only [plainText, notMem_decimal control, reduceCtorEq, false_and, exists_false]
  | undefined =>
      have absent : character ∉ plainText printDouble .undefined :=
        notMem_of_printable rfl control
      simp only [absent, reduceCtorEq, false_and, exists_false]
  | null =>
      have absent : character ∉ plainText printDouble .null := notMem_of_printable rfl control
      simp only [absent, reduceCtorEq, false_and, exists_false]
  | pointer address =>
      have absent : character ∉ plainText printDouble (.pointer address) := notMem_of_printable rfl control
      simp only [absent, reduceCtorEq, false_and, exists_false]
  | boolean truth =>
      have absent : character ∉ plainText printDouble (.boolean truth) := by
        cases truth with
        | true => exact notMem_of_printable rfl control
        | false => exact notMem_of_printable rfl control
      simp only [absent, reduceCtorEq, false_and, exists_false]

theorem mem_container {left right : Char}
    (brackets : [left, right].all (fun other => decide (32 ≤ other.toNat)) = true)
    (control : character.toNat < 32) (items : List Text) :
    character ∈ left :: joined items ++ [right] ↔ ∃ item ∈ items, character ∈ item := by
  have apart : character ∉ [left, right] := notMem_of_printable brackets control
  rw [List.mem_cons, List.mem_singleton, not_or] at apart
  rw [← mem_joined control, List.cons_append, List.mem_cons, List.mem_append, List.mem_singleton]
  simp only [apart, false_or, or_false]

/-- A control character in the text of a value comes from one of the texts that it shows. -/
theorem mem_toStdString (control : character.toNat < 32)
    (printed : toStdString printDouble fuel memory value = some text) :
    character ∈ text ↔ ∃ shown, Shows printDouble memory value shown ∧ character ∈ shown := by
  induction fuel generalizing value text with
  | zero => cases printed
  | succ fuel ih =>
      cases value with
      | plain value =>
          cases printed
          rw [mem_plainText control]
          constructor
          · rintro ⟨bits, rfl, mem⟩
            exact ⟨_, .double bits, mem⟩
          · rintro ⟨shown, shows, mem⟩
            cases shows with
            | double bits => exact ⟨bits, rfl, mem⟩
      | shared type id =>
          cases type with
          | string =>
              have there : textOf memory id = some text := printed
              constructor
              · exact fun mem => ⟨text, .string there, mem⟩
              · rintro ⟨shown, shows, mem⟩
                cases shows with
                | string other => rwa [Option.some.inj (there.symm.trans other)]
          | object =>
              cases printed
              refine iff_of_false (notMem_of_printable (by decide) control) ?_
              rintro ⟨shown, shows, -⟩
              cases shows
          | array =>
              obtain ⟨object, there, printed⟩ := Option.bind_eq_some_iff.mp printed
              obtain ⟨items, made, rfl⟩ := Option.map_eq_some_iff.mp printed
              rw [mem_container (by decide) control]
              constructor
              · rintro ⟨item, listed, mem⟩
                obtain ⟨slot, member, shown, inner, rfl⟩ := (mem_printSlots made).mp listed
                rw [itemText, mem_quoted control] at mem
                obtain ⟨leaf, shows, mem⟩ := (ih inner).mp mem
                exact ⟨leaf, .item there member shows, mem⟩
              · rintro ⟨leaf, shows, mem⟩
                cases shows with
                | item other member shows =>
                    cases there.symm.trans other
                    obtain ⟨item, listed, shown, inner, rfl⟩ := exists_of_mem made member
                    refine ⟨_, listed, ?_⟩
                    rw [itemText, mem_quoted control]
                    exact (ih inner).mpr ⟨leaf, shows, mem⟩
          | map =>
              obtain ⟨object, there, printed⟩ := Option.bind_eq_some_iff.mp printed
              obtain ⟨items, made, rfl⟩ := Option.map_eq_some_iff.mp printed
              rw [mem_container (by decide) control]
              constructor
              · rintro ⟨item, listed, mem⟩
                obtain ⟨slot, member, shown, inner, rfl⟩ := (mem_printSlots made).mp listed
                rw [mem_inOrder] at member
                rw [entryText, List.mem_append, mem_label control, mem_quoted control] at mem
                rcases mem with named | mem
                · exact ⟨slot.name, .key there member, named⟩
                · obtain ⟨leaf, shows, mem⟩ := (ih inner).mp mem
                  exact ⟨leaf, .entry there member shows, mem⟩
              · rintro ⟨leaf, shows, mem⟩
                cases shows with
                | key other member =>
                    cases there.symm.trans other
                    obtain ⟨item, listed, shown, inner, rfl⟩ := exists_of_mem made (Iff.mpr mem_inOrder member)
                    refine ⟨_, listed, ?_⟩
                    rw [entryText, List.mem_append, mem_label control]
                    exact .inl mem
                | entry other member shows =>
                    cases there.symm.trans other
                    obtain ⟨item, listed, shown, inner, rfl⟩ := exists_of_mem made (Iff.mpr mem_inOrder member)
                    refine ⟨_, listed, ?_⟩
                    rw [entryText, List.mem_append, mem_quoted control]
                    exact .inr ((ih inner).mpr ⟨leaf, shows, mem⟩)

/-- For a value whose text the printer completes, a compiler reads the escaped text as the text of
the value exactly when no string, no key and no printed double of the value has a NUL or a line
end. -/
theorem toStringEscapedForC_iff {newline : Char → Bool}
    (control : ∀ character, newline character = true → character.toNat < 32)
    (printable : Printable memory value) :
    ∃ fuel text, ∀ more ≥ fuel, toStdString printDouble more memory value = some text ∧
      ((toStringEscapedForC printDouble more memory value).bind (readLiteral newline) = some text ↔
        ∀ shown, Shows printDouble memory value shown →
          ∀ character ∈ shown, character ≠ nul ∧ newline character = false) := by
  obtain ⟨fuel, text, printed⟩ : ∃ fuel text, toStdString printDouble fuel memory value = some text :=
    printable.exists_text
  have visible : ∀ character : Char, ¬ character.toNat < 32 →
      character ≠ nul ∧ newline character = false := by
    intro character large
    refine ⟨?_, ?_⟩
    · rintro rfl
      exact large (by decide)
    · by_contra ends
      exact large (control character (Bool.eq_true_of_not_eq_false ends))
  refine ⟨fuel, text, fun more enough => ?_⟩
  have later := toStdString_mono enough printed
  refine ⟨later, ?_⟩
  rw [toStringEscapedForC, later, Option.map_some, Option.bind_some, readLiteral_cString_iff control]
  constructor
  · intro allowed shown shows character mem
    by_cases small : character.toNat < 32
    · exact allowed character ((mem_toStdString small later).mpr ⟨shown, shows, mem⟩)
    · exact visible character small
  · intro allowed character mem
    by_cases small : character.toNat < 32
    · obtain ⟨shown, shows, inside⟩ := (mem_toStdString small later).mp mem
      exact allowed shown shows character inside
    · exact visible character small

end Printing

/-- A string alone in the memory. -/
def onlyString (text : Text) : Memory := createString .empty text

def isLineFeed (character : Char) : Bool := character == Char.ofNat 10

/-- A string of quotation marks and backslashes. -/
theorem toStringEscapedForC_marks :
    ∃ fuel text, ∀ more ≥ fuel,
      toStdString (fun _ => []) more (onlyString [doubleQuote, backslash]) (.shared .string 0) = some text ∧
      ((toStringEscapedForC (fun _ => []) more (onlyString [doubleQuote, backslash])
          (.shared .string 0)).bind (readLiteral isLineFeed) = some text ↔
        ∀ shown, Shows (fun _ => []) (onlyString [doubleQuote, backslash]) (.shared .string 0) shown →
          ∀ character ∈ shown, character ≠ nul ∧ isLineFeed character = false) := by
  refine toStringEscapedForC_iff ?_ (.string rfl)
  intro character ends
  rw [eq_of_beq ends]
  decide

/-- Behind a line end the text is no body of a literal, and a NUL cuts it. -/
theorem toStringEscapedForC_lost :
    toStdString (fun _ => []) 1 (onlyString ['a', Char.ofNat 10]) (.shared .string 0) =
        some ['a', Char.ofNat 10] ∧
      (toStringEscapedForC (fun _ => []) 1 (onlyString ['a', Char.ofNat 10]) (.shared .string 0)).bind
        (readLiteral isLineFeed) = none ∧
      toStdString (fun _ => []) 1 (onlyString ['a', nul]) (.shared .string 0) = some ['a', nul] ∧
      (toStringEscapedForC (fun _ => []) 1 (onlyString ['a', nul]) (.shared .string 0)).bind
        (readLiteral isLineFeed) = some ['a'] := by
  decide

end Tegenaria.LibVariant
