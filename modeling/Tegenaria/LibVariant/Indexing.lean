import Tegenaria.LibVariant.VariantCounts

/-!
# Access by an index

`arrayAccess` and `stringAccess` make the container long enough for the index.  The index
is an `int` that is widened to `size_t`, so -1 asks for the size 0.

A character is returned through `characterPeek`, one static Variant.  Every copy of it
shares its string, and the next `stringAccess` overwrites the first character there.
-/

namespace Tegenaria.LibVariant

open Foundation Foundation.RefCount

/-! ## The accessors -/

/-- The sizes up to which `resize` does not throw, on a machine whose `size_t` has 64 bits: all
that an `int` can ask for, and none that a negative `int` is widened to. -/
structure Limits where
  maxSize : SharedType → Nat
  int_le : ∀ type, 2 ^ 31 ≤ maxSize type
  le_widened : ∀ type, maxSize type ≤ 2 ^ 64 - 2 ^ 31

/-- The conversion to `size_t`. -/
def toSizeT (value : Int) : Nat := (value % 2 ^ 64).toNat

def textOf (memory : Memory) (id : Nat) : Option Text :=
  (memory.heap[id]?).map fun object => object.content.text

/-- The string a Variant points to. -/
def stringAt (memory : Memory) (place : Place) : Option Nat := (memory.read place).bind stringTarget

/-- `Variant::characterPeek`, the first variable of the program. -/
def characterPeek : Place := .root 0

/-- What an accessor does: it returns a reference, it throws, or its behaviour is undefined. -/
inductive Outcome where
  | reference (memory : Memory) (place : Place)
  | thrown (memory : Memory)
  | undefined
  deriving DecidableEq

def nul : Char := Char.ofNat 0

def Memory.setText (memory : Memory) (id : Nat) (object : SharedObject) (text : Text) : Memory :=
  memory.setContent id object { object.content with text := text }

/-- `resize` of a string. -/
def resizeText (text : Text) (size : Nat) : Text :=
  text.take size ++ List.replicate (size - text.length) nul

/-- `resize` of an array, which destroys the items behind the new size. -/
def resizeArray (memory : Memory) (id : Nat) (object : SharedObject) (size : Nat) : Memory :=
  releaseAll (memory.inside + 1)
    ((object.content.slots.drop size).map fun slot => slot.value.targets).flatten
    (memory.setContent id object
      { object.content with slots := resize (object.content.slots.take size) size })

/-- `(*dataArray_)[idx]`, which is not checked. -/
def itemAt (memory : Memory) (id idx : Nat) : Outcome :=
  if (memory.read (.slot id idx)).isSome then .reference memory (.slot id idx) else .undefined

/-- `(*characterPeek.dataString_)[0] = character`, for a `characterPeek` that still is a string
with a first character. -/
def setPeek (memory : Memory) (character : Char) : Outcome :=
  match (stringAt memory characterPeek).bind fun peek => (memory.heap[peek]?).map (peek, ·) with
  | some (peek, object) =>
      match object.content.text with
      | [] => .undefined
      | _ :: rest => .reference (memory.setText peek object (character :: rest)) characterPeek
  | none => .undefined

/-- `dataString_ -> at(idx)`, put into `characterPeek`. -/
def characterAt (memory : Memory) (text : Text) (idx : Nat) : Outcome :=
  match text[idx]? with
  | some character => setPeek memory character
  | none => .thrown memory

namespace Indexing

/-- `arrayAccess` with an index that is an integer; it fails for other types than arrays. -/
def arrayAccess (limits : Limits) (memory : Memory) (array : Place) (index : Int32) : Option Outcome :=
  match memory.read array with
  | some (.shared .array id) =>
      (memory.heap[id]?).map fun object =>
        let idx := toSizeT index.toInt
        let used := memory.use id
        if object.content.slots.length ≤ idx then
          let size := toSizeT (idx + 1)
          if limits.maxSize .array < size then .thrown used
          else itemAt (resizeArray used id object size) id idx
        else itemAt used id idx
  | _ => none

/-- `stringAccess` with an index that is an integer; it fails for other types than strings. -/
def stringAccess (limits : Limits) (memory : Memory) (string : Place) (index : Int32) : Option Outcome :=
  match memory.read string with
  | some (.shared .string id) =>
      (memory.heap[id]?).map fun object =>
        let text := object.content.text
        let idx := toSizeT index.toInt
        let used := memory.use id
        if text.length ≤ idx then
          let size := toSizeT (idx + 1)
          if limits.maxSize .string < size then .thrown used
          else characterAt (used.setText id object (resizeText text size)) (resizeText text size) idx
        else characterAt used text idx
  | _ => none

end Indexing

/-- A step of a program that also uses indexes. -/
inductive Call where
  | operation (operation : Operation)
  | arrayAccess (array : Place) (index : Int32)
  | stringAccess (string : Place) (index : Int32)
  deriving DecidableEq

/-- The Variants that a call is given. -/
def Call.places : Call → List Place
  | .operation step => step.places
  | .arrayAccess array _ => [array]
  | .stringAccess string _ => [string]

/-- The integer in an index. -/
def integerAt (memory : Memory) (index : Place) : Option Int32 :=
  match memory.read index with
  | some (.plain (.integer value)) => some (Int32.ofInt value)
  | _ => none

/-- `access`: the accessor that is called for the type of the Variant; `none` is `Fatal` or an
assertion about the type of the index. -/
def access (memory : Memory) (value index : Place) : Option Call :=
  match memory.read value with
  | some (.shared .map _) | some (.shared .object _) => some (.operation (.mapAccess value index))
  | some (.shared .array _) => (integerAt memory index).map fun index => Call.arrayAccess value index
  | some (.shared .string _) => (integerAt memory index).map fun index => Call.stringAccess value index
  | _ => none

/-- What a program asks for: an accessor or `access`, which picks one. -/
inductive Request where
  | call (call : Call)
  | access (value index : Place)
  deriving DecidableEq

/-- The call that is made for a request. -/
def Request.made (memory : Memory) : Request → Option Call
  | .call made => some made
  | .access value index => LibVariant.access memory value index

/-- The memory, and for every character that was read its string and the text it had then. -/
structure Reading where
  memory : Memory
  reads : List (Nat × Text)
  deriving DecidableEq

namespace Reading

/-- Only `characterPeek` is there. -/
def start : Reading := ⟨createString .empty ['?'], []⟩

/-- No container is larger than `max_size`. -/
def fits (limits : Limits) (reading : Reading) : Bool :=
  reading.memory.heap.all fun object =>
    decide (object.content.slots.length ≤ limits.maxSize .array)
      && decide (object.content.text.length ≤ limits.maxSize .string)

/-- The character that `characterPeek` shows is now read. -/
def note (reading : Reading) (memory : Memory) : Reading :=
  { memory
    reads := ((stringAt memory characterPeek).bind fun peek => (textOf memory peek).map (peek, ·)).toList
      ++ reading.reads }

/-- The state behind a call; there is none where the behaviour is undefined. -/
def after (limits : Limits) (reading : Reading) : Call → Option Reading
  | .operation operation =>
      (machine.step reading.memory operation).map fun memory => { reading with memory }
  | .arrayAccess array index =>
      match Indexing.arrayAccess limits reading.memory array index with
      | some (.reference memory _) | some (.thrown memory) => some { reading with memory }
      | _ => none
  | .stringAccess string index =>
      match Indexing.stringAccess limits reading.memory string index with
      | some (.reference memory _) => some (reading.note memory)
      | some (.thrown memory) => some { reading with memory }
      | _ => none

/-- A program with indexes passes Variants that exist and does not get larger containers than
there can be. -/
def machine (limits : Limits) : Machine Reading Request where
  step reading request :=
    (request.made reading.memory).bind fun call =>
      if call.places.all reading.memory.isLive = true then
        (reading.after limits call).filter (fits limits)
      else none

end Reading

/-! ## Texts of strings -/

/-- The strings that there are keep their texts. -/
def KeepsTexts (before after : Memory) : Prop :=
  ∀ id text, textOf before id = some text → textOf after id = some text

theorem KeepsTexts.refl (memory : Memory) : KeepsTexts memory memory := fun _ _ found => found

theorem KeepsTexts.trans {first second third : Memory} (begin : KeepsTexts first second)
    (rest : KeepsTexts second third) : KeepsTexts first third :=
  fun id text found => rest id text (begin id text found)

theorem KeepsTexts.of_heap {before after : Memory} (same : after.heap = before.heap) :
    KeepsTexts before after := by
  intro id text found
  rwa [textOf, same]

theorem use_keepsTexts (memory : Memory) (id : Nat) : KeepsTexts memory (memory.use id) := .of_heap rfl

theorem SameContents.keepsTexts {before after : Memory} (same : SameContents before after) :
    KeepsTexts before after := by
  intro id text found
  have through : ∀ memory : Memory,
      textOf memory id = ((memory.heap[id]?).map Cell.content).map Content.text := by
    intro memory
    rw [Option.map_map]
    rfl
  rw [through, same.contents id, ← through]
  exact found

theorem releaseAll_sameContents (fuel : Nat) (pending : List Nat) (memory : Memory) :
    SameContents memory (releaseAll fuel pending memory) := by
  fun_induction releaseAll fuel pending memory with
  | case1 => exact .refl _
  | case2 => exact .refl _
  | case3 fuel id pending memory missing ih => exact ⟨ih.locals, ih.contents⟩
  | case4 fuel id pending memory object found dead ih => exact ⟨ih.locals, ih.contents⟩
  | case5 fuel id pending memory object found living last ih =>
      exact (SameContents.set found { object with refCount := 0, alive := false } rfl).trans ih
  | case6 fuel id pending memory object found living several ih =>
      exact (SameContents.set found { object with refCount := object.refCount - 1 } rfl).trans ih

theorem addRefTarget_sameContents (memory : Memory) (value : Variant) :
    SameContents memory (addRefTarget memory value) := by
  cases value with
  | plain value => exact .refl memory
  | shared type id =>
      simp only [addRefTarget, addRef]
      split
      · exact ⟨rfl, fun _ => rfl⟩
      · next object found =>
          have set := SameContents.set found { object with refCount := object.refCount + 1 } rfl
          exact ⟨rfl, set.contents⟩

theorem setContent_keepsTexts {memory : Memory} {id : Nat} {object : SharedObject}
    (found : memory.heap[id]? = some object) {content : Content}
    (same : content.text = object.content.text) :
    KeepsTexts memory (memory.setContent id object content) := by
  intro other text shown
  by_cases here : other = id
  · subst here
    rw [textOf, found] at shown
    rw [textOf, Memory.setContent, List.getElem?_set_self (List.getElem?_eq_some_iff.mp found).1]
    simpa only [Option.map_some, same] using shown
  · rwa [textOf, Memory.setContent, List.getElem?_set_ne (Ne.symm here)]

theorem write_keepsTexts (memory : Memory) (place : Place) (value : Variant) :
    KeepsTexts memory (memory.write place value) := by
  cases place with
  | root index => exact .of_heap rfl
  | slot id index =>
      simp only [Memory.write]
      split
      · exact .refl memory
      · next object found => exact setContent_keepsTexts found rfl

theorem append_keepsTexts (memory : Memory) (locals : List (Option Variant))
    (objects : List SharedObject) (faulted : Bool) :
    KeepsTexts memory ⟨locals, memory.heap ++ objects, faulted⟩ := by
  intro id text shown
  obtain ⟨object, found, same⟩ := Option.map_eq_some_iff.mp shown
  have inside := (List.getElem?_eq_some_iff.mp found).1
  rw [textOf, List.getElem?_append_left inside, found, Option.map_some, same]

theorem assign_keepsTexts {memory next : Memory} {target source : Place}
    (assigned : assign memory target source = some next) : KeepsTexts memory next := by
  obtain ⟨old, -, assigned⟩ := Option.bind_eq_some_iff.mp assigned
  obtain ⟨value, -, rfl⟩ := Option.map_eq_some_iff.mp assigned
  have released : KeepsTexts memory (releaseTarget memory old) :=
    (releaseAll_sameContents _ _ memory).keepsTexts
  have used : KeepsTexts (releaseTarget memory old) ((releaseTarget memory old).usePlace source) :=
    .of_heap rfl
  have counted := addRefTarget_sameContents ((releaseTarget memory old).usePlace source) value
  generalize addRefTarget ((releaseTarget memory old).usePlace source) value = shared at counted ⊢
  have again : KeepsTexts shared (shared.usePlace target) := .of_heap rfl
  exact ((released.trans used).trans counted.keepsTexts).trans
    (again.trans (write_keepsTexts (shared.usePlace target) target value))

theorem insertEntry_keepsTexts {memory : Memory} {id : Nat} {object : SharedObject}
    (found : memory.heap[id]? = some object) (key : Text) :
    KeepsTexts memory (insertEntry memory id object key) := by
  unfold insertEntry
  split
  · exact .refl memory
  · exact setContent_keepsTexts found rfl

theorem mapAccess_keepsTexts {memory accessed : Memory} {map key entry : Place}
    (access : mapAccess memory map key = some (accessed, entry)) : KeepsTexts memory accessed := by
  obtain ⟨id, -, access⟩ := Option.bind_eq_some_iff.mp access
  obtain ⟨name, -, access⟩ := Option.bind_eq_some_iff.mp access
  obtain ⟨object, found, access⟩ := Option.bind_eq_some_iff.mp access
  obtain ⟨string, -, same⟩ := Option.map_eq_some_iff.mp access
  cases same
  have used : KeepsTexts memory ((memory.use name).use id) := .of_heap rfl
  have there : ((memory.use name).use id).heap[id]? = some object := found
  exact used.trans (insertEntry_keepsTexts there string.content.text)

theorem destroy_keepsTexts {memory next : Memory} {index : Nat}
    (destroyed : destroy memory index = some next) : KeepsTexts memory next := by
  obtain ⟨value, -, rfl⟩ := Option.map_eq_some_iff.mp destroyed
  exact (releaseAll_sameContents _ _ memory).keepsTexts.trans (.of_heap rfl)

theorem setName_keepsTexts {memory next : Memory} {id : Nat} {name text : Text}
    (named : setName memory id name text = some next) : KeepsTexts memory next := by
  obtain ⟨object, found, named⟩ := Option.bind_eq_some_iff.mp named
  obtain ⟨assigned, assignment, destroyed⟩ := Option.bind_eq_some_iff.mp named
  have there : (memory.use id).heap[id]? = some object := found
  have inserted := insertEntry_keepsTexts there name
  exact (((use_keepsTexts memory id).trans inserted).trans (append_keepsTexts _ _ _ _)).trans
    ((assign_keepsTexts assignment).trans (destroy_keepsTexts destroyed))

theorem createObject_keepsTexts {memory next : Memory} {className : Text} {baseClassName : Option Text}
    (created : createObject memory className baseClassName = some next) : KeepsTexts memory next := by
  obtain ⟨named, first, rest⟩ := Option.bind_eq_some_iff.mp created
  have begun := (append_keepsTexts memory _ _ _).trans (setName_keepsTexts first)
  cases baseClassName with
  | none =>
      cases rest
      exact begun
  | some text => exact begun.trans (setName_keepsTexts rest)

/-- No operation of a program writes to a string that there is. -/
theorem step_keepsTexts {memory next : Memory} {operation : Operation}
    (stepped : machine.step memory operation = some next) : KeepsTexts memory next := by
  obtain ⟨-, performed⟩ := Option.ite_none_right_eq_some.mp stepped
  cases operation with
  | createPlain value =>
      cases performed
      exact .of_heap rfl
  | createString text =>
      cases performed
      exact append_keepsTexts memory _ _ _
  | createArray =>
      cases performed
      exact append_keepsTexts memory _ _ _
  | createMap =>
      cases performed
      exact append_keepsTexts memory _ _ _
  | createObject className baseClassName => exact createObject_keepsTexts performed
  | copy source =>
      obtain ⟨value, -, rfl⟩ := Option.map_eq_some_iff.mp performed
      exact (addRefTarget_sameContents memory value).keepsTexts.trans (.of_heap rfl)
  | assign target source => exact assign_keepsTexts performed
  | concat left right =>
      simp only [perform, concat] at performed
      split at performed
      · obtain ⟨x, -, joined⟩ := Option.bind_eq_some_iff.mp performed
        obtain ⟨y, -, rfl⟩ := Option.map_eq_some_iff.mp joined
        exact append_keepsTexts memory _ _ _
      · cases performed
  | arrayPush array item =>
      simp only [perform, arrayPush] at performed
      split at performed
      · next id _ =>
          obtain ⟨value, -, pushed⟩ := Option.bind_eq_some_iff.mp performed
          obtain ⟨object, found, rfl⟩ := Option.map_eq_some_iff.mp pushed
          have there : ((addRefTarget memory value).use id).heap[id]? = some object := found
          exact ((addRefTarget_sameContents memory value).keepsTexts.trans (use_keepsTexts _ id)).trans
            (setContent_keepsTexts there rfl)
      · cases performed
        exact .refl memory
      · cases performed
  | arrayAccess array index =>
      simp only [perform, LibVariant.arrayAccess] at performed
      split at performed
      · next id _ =>
          obtain ⟨object, found, rfl⟩ := Option.map_eq_some_iff.mp performed
          have there : (memory.use id).heap[id]? = some object := found
          exact (use_keepsTexts memory id).trans (setContent_keepsTexts there rfl)
      · cases performed
  | mapAccess map key =>
      obtain ⟨⟨accessed, entry⟩, access, rfl⟩ := Option.map_eq_some_iff.mp performed
      exact mapAccess_keepsTexts access
  | propertySet map key value =>
      obtain ⟨⟨accessed, entry⟩, access, assigned⟩ := Option.bind_eq_some_iff.mp performed
      exact (mapAccess_keepsTexts access).trans (assign_keepsTexts assigned)
  | destroy index => exact destroy_keepsTexts performed

/-! ## What an access leaves alone -/

/-- A container has become long enough for an index and has kept all that it had. -/
structure Grown {α : Type} (old new : List α) (index : Int) : Prop where
  kept : old <+: new
  length : (new.length : Int) = max (old.length : Int) (index + 1)

/-- The values that were read are still the same. -/
def Kept (reads : List (Nat × Text)) (memory : Memory) : Prop :=
  ∀ read ∈ reads, textOf memory read.1 = some read.2

/-- An exception leaves the accessor, and nothing has changed. -/
def Refused (memory : Memory) (outcome : Option Outcome) : Prop :=
  ∃ next, outcome = some (.thrown next) ∧ next.heap = memory.heap ∧ next.locals = memory.locals

/-- An access to an item. -/
def ItemUndisturbed (limits : Limits) (reading : Reading) (array : Place) (index : Int32) (id : Nat)
    (object : SharedObject) : Prop :=
  let outcome := Indexing.arrayAccess limits reading.memory array index
  if 0 ≤ index.toInt then
    ∃ next slots, outcome = some (.reference next (.slot id index.toInt.toNat)) ∧
      next.locals = reading.memory.locals ∧
      next.heap = reading.memory.heap.set id { object with content := { object.content with slots } } ∧
      Grown object.content.slots slots index.toInt ∧ Kept reading.reads next
  else Refused reading.memory outcome

/-- An access to a character.  Beside the string itself only the string of `characterPeek`
changes, which then shows the character. -/
def CharacterUndisturbed (limits : Limits) (reading : Reading) (string : Place) (index : Int32)
    (id : Nat) (object : SharedObject) : Prop :=
  let outcome := Indexing.stringAccess limits reading.memory string index
  if 0 ≤ index.toInt then
    ∃ next text peek rest, outcome = some (.reference next characterPeek) ∧
      next.locals = reading.memory.locals ∧
      (∀ other, other ≠ id → other ≠ peek → next.heap[other]? = reading.memory.heap[other]?) ∧
      textOf next id = some text ∧ Grown object.content.text text index.toInt ∧
      stringAt next characterPeek = some peek ∧
      textOf next peek = some (object.content.text.getD index.toInt.toNat nul :: rest) ∧
      Kept reading.reads next
  else Refused reading.memory outcome

/-- Nothing but the container that is accessed is disturbed, and of this one nothing that was
there. -/
def Undisturbed (limits : Limits) (reading : Reading) : Call → Prop
  | .operation _ => True
  | .arrayAccess array index =>
      ∀ id object, reading.memory.read array = some (.shared .array id) →
        reading.memory.heap[id]? = some object →
        ItemUndisturbed limits reading array index id object
  | .stringAccess string index =>
      ∀ id object, reading.memory.read string = some (.shared .string id) →
        reading.memory.heap[id]? = some object →
        CharacterUndisturbed limits reading string index id object

/-- Where the character at a position can be written to `characterPeek`: there is a string to
write to; if it is the one that is accessed, it begins with this character; if it was read
before, it shows this character; and a string that was read before is not made longer. -/
def PeekSafe (reading : Reading) (id : Nat) (text : Text) (position : Nat) : Prop :=
  ∃ peek shown, stringAt reading.memory characterPeek = some peek ∧
    textOf reading.memory peek = some shown ∧
    (peek ≠ id → shown ≠ []) ∧
    (peek = id → text ≠ [] → shown.head? = some (text.getD position nul)) ∧
    (peek ∈ reading.reads.map Prod.fst → shown.head? = some (text.getD position nul)) ∧
    (id ∈ reading.reads.map Prod.fst → position < text.length)

/-- The condition under which an access disturbs nothing. -/
def Harmless (reading : Reading) : Call → Prop
  | .operation _ => True
  | .arrayAccess array index =>
      ∀ id object, reading.memory.read array = some (.shared .array id) →
        reading.memory.heap[id]? = some object → index.toInt ≠ -1
  | .stringAccess string index =>
      ∀ id object, reading.memory.read string = some (.shared .string id) →
        reading.memory.heap[id]? = some object →
        (index.toInt = -1 → object.content.text = []) ∧
          (0 ≤ index.toInt → PeekSafe reading id object.content.text index.toInt.toNat)

/-! ## Indexes as sizes -/

theorem toSizeT_of_nonneg {index : Int32} (nonneg : 0 ≤ index.toInt) :
    toSizeT index.toInt = index.toInt.toNat := by
  have upper := index.toInt_lt
  simp only [toSizeT]
  omega

theorem toSizeT_succ (limits : Limits) {index : Int32} (nonneg : 0 ≤ index.toInt) (type : SharedType) :
    toSizeT (index.toInt.toNat + 1) = index.toInt.toNat + 1 ∧
      ¬ limits.maxSize type < index.toInt.toNat + 1 := by
  have upper := index.toInt_lt
  have large := limits.int_le type
  simp only [toSizeT]
  omega

/-- A negative index is widened to a number above all sizes; only for -1 the next number is a
size again. -/
theorem toSizeT_of_neg (limits : Limits) {index : Int32} (negative : ¬ 0 ≤ index.toInt)
    (type : SharedType) :
    limits.maxSize type ≤ toSizeT index.toInt ∧
      (index.toInt = -1 → toSizeT (toSizeT index.toInt + 1) = 0) ∧
      (index.toInt ≠ -1 → limits.maxSize type < toSizeT (toSizeT index.toInt + 1)) := by
  have lower := index.le_toInt
  have small := limits.le_widened type
  simp only [toSizeT]
  omega

theorem resizeText_grow {text : Text} {size : Nat} (short : text.length ≤ size) :
    text <+: resizeText text size ∧ (resizeText text size).length = size := by
  rw [resizeText, List.take_of_length_le short]
  refine ⟨List.prefix_append _ _, ?_⟩
  rw [List.length_append, List.length_replicate]
  omega

theorem resizeText_getElem? {text : Text} {position : Nat} (short : text.length ≤ position) :
    (resizeText text (position + 1))[position]? = some (text.getD position nul) := by
  rw [resizeText, List.take_of_length_le (by omega), List.getElem?_append_right short,
    List.getElem?_replicate_of_lt (by omega), List.getD_eq_default _ _ short]

theorem resize_grow {slots : List Slot} {size : Nat} (short : slots.length ≤ size) :
    slots <+: resize slots size ∧ (resize slots size).length = size := by
  rw [resize]
  refine ⟨List.prefix_append _ _, ?_⟩
  rw [List.length_append, List.length_replicate]
  omega

theorem resizeArray_grow {memory : Memory} {id size : Nat} {object : SharedObject}
    (short : object.content.slots.length ≤ size) :
    resizeArray memory id object size =
      memory.setContent id object { object.content with slots := resize object.content.slots size } := by
  rw [resizeArray, List.take_of_length_le short, List.drop_of_length_le short]
  rfl

theorem setContent_self {memory : Memory} {id : Nat} {object : SharedObject}
    (found : memory.heap[id]? = some object) : memory.setContent id object object.content = memory := by
  obtain ⟨inside, same⟩ := List.getElem?_eq_some_iff.mp found
  rw [Memory.setContent]
  have heap : memory.heap.set id object = memory.heap := by rw [← same, List.set_getElem_self]
  rw [heap]

theorem setContent_read {memory : Memory} {id : Nat} {object : SharedObject}
    (found : memory.heap[id]? = some object) (content : Content) (position : Nat) :
    (memory.setContent id object content).read (.slot id position) =
      (content.slots[position]?).map Slot.value := by
  rw [Memory.read, Memory.setContent, List.getElem?_set_self (List.getElem?_eq_some_iff.mp found).1]
  rfl

/-! ## One access -/

section Item

variable {limits : Limits} {reading : Reading} {array : Place} {index : Int32} {id : Nat}
  {object : SharedObject}

theorem itemAt_of_some {memory : Memory} {idx : Nat} {value : Variant}
    (found : memory.read (.slot id idx) = some value) :
    itemAt memory id idx = .reference memory (.slot id idx) := by
  rw [itemAt, found]
  rfl

variable (limits) in
/-- An index that is not negative gives an item, and the array is as long as it has to be. -/
theorem arrayAccess_of_nonneg (points : reading.memory.read array = some (.shared .array id))
    (there : reading.memory.heap[id]? = some object) (nonneg : 0 ≤ index.toInt) :
    ∃ slots, Grown object.content.slots slots index.toInt ∧
      Indexing.arrayAccess limits reading.memory array index =
        some (.reference ((reading.memory.use id).setContent id object { object.content with slots })
          (.slot id index.toInt.toNat)) := by
  have used : (reading.memory.use id).heap[id]? = some object := there
  obtain ⟨size, fits⟩ := toSizeT_succ limits nonneg .array
  simp only [Indexing.arrayAccess, points, there, Option.map_some, toSizeT_of_nonneg nonneg, size,
    if_neg fits]
  by_cases short : object.content.slots.length ≤ index.toInt.toNat
  · have longer : object.content.slots.length ≤ index.toInt.toNat + 1 := by omega
    obtain ⟨kept, length⟩ := resize_grow longer
    refine ⟨resize object.content.slots (index.toInt.toNat + 1), ⟨kept, by omega⟩, ?_⟩
    have inside : index.toInt.toNat < (resize object.content.slots (index.toInt.toNat + 1)).length := by
      omega
    rw [if_pos short, resizeArray_grow longer, itemAt_of_some]
    rw [setContent_read used, List.getElem?_eq_getElem inside]
    rfl
  · refine ⟨object.content.slots, ⟨List.prefix_rfl, by omega⟩, ?_⟩
    have inside : index.toInt.toNat < object.content.slots.length := by omega
    have same : (reading.memory.use id).setContent id object object.content = reading.memory.use id :=
      setContent_self used
    rw [if_neg short, same, itemAt_of_some]
    rw [Memory.read, used, Option.bind_some, List.getElem?_eq_getElem inside]
    rfl

/-- A negative index is refused, unless the next number is the size 0. -/
theorem arrayAccess_of_neg (points : reading.memory.read array = some (.shared .array id))
    (there : reading.memory.heap[id]? = some object)
    (fits : object.content.slots.length ≤ limits.maxSize .array) (negative : ¬ 0 ≤ index.toInt) :
    Indexing.arrayAccess limits reading.memory array index =
      some (if index.toInt = -1 then .undefined else .thrown (reading.memory.use id)) := by
  obtain ⟨above, wraps, refused⟩ := toSizeT_of_neg limits negative .array
  have short : object.content.slots.length ≤ toSizeT index.toInt := fits.trans above
  simp only [Indexing.arrayAccess, points, there, Option.map_some, if_pos short]
  by_cases last : index.toInt = -1
  · rw [wraps last, if_neg (Nat.not_lt_zero _), if_pos last]
    have used : (reading.memory.use id).heap[id]? = some object := there
    have empty :=
      setContent_read used { object.content with slots := resize (object.content.slots.take 0) 0 }
      (toSizeT index.toInt)
    rw [itemAt, resizeArray, (releaseAll_sameContents _ _ _).read, empty]
    rfl
  · rw [if_pos (refused last), if_neg last]

theorem itemUndisturbed_iff (points : reading.memory.read array = some (.shared .array id))
    (there : reading.memory.heap[id]? = some object)
    (fits : object.content.slots.length ≤ limits.maxSize .array)
    (kept : Kept reading.reads reading.memory) :
    ItemUndisturbed limits reading array index id object ↔ index.toInt ≠ -1 := by
  unfold ItemUndisturbed
  by_cases nonneg : 0 ≤ index.toInt
  · have other : index.toInt ≠ -1 := by omega
    obtain ⟨slots, grown, outcome⟩ := arrayAccess_of_nonneg limits points there nonneg
    rw [if_pos nonneg, outcome]
    refine iff_of_true ⟨_, slots, rfl, rfl, rfl, grown, ?_⟩ other
    intro read mem
    have used : (reading.memory.use id).heap[id]? = some object := there
    have same : KeepsTexts (reading.memory.use id)
        ((reading.memory.use id).setContent id object { object.content with slots }) :=
      setContent_keepsTexts used rfl
    exact ((use_keepsTexts reading.memory id).trans same) _ _ (kept read mem)
  · rw [if_neg nonneg, arrayAccess_of_neg points there fits nonneg]
    by_cases last : index.toInt = -1
    · rw [if_pos last]
      refine iff_of_false ?_ (not_not_intro last)
      rintro ⟨next, same, -⟩
      cases same
    · rw [if_neg last]
      exact iff_of_true ⟨_, rfl, rfl, rfl⟩ last

end Item

section Character

variable {memory next : Memory} {id : Nat} {object : SharedObject} {character : Char}

theorem textOf_setText (found : memory.heap[id]? = some object) (text : Text) (other : Nat) :
    textOf (memory.setText id object text) other =
      if other = id then some text else textOf memory other := by
  rw [textOf, Memory.setText, Memory.setContent]
  split
  · next here =>
      rw [here, List.getElem?_set_self (List.getElem?_eq_some_iff.mp found).1, Option.map_some]
  · next there => rw [List.getElem?_set_ne (Ne.symm there), textOf]

theorem setText_heap (text : Text) {other : Nat} (different : other ≠ id) :
    (memory.setText id object text).heap[other]? = memory.heap[other]? :=
  List.getElem?_set_ne (Ne.symm different)

theorem textOf_eq_some {text : Text} : textOf memory id = some text ↔
    ∃ object, memory.heap[id]? = some object ∧ object.content.text = text :=
  Option.map_eq_some_iff

/-- Writing to `characterPeek` needs a string with a first character. -/
theorem setPeek_eq_reference {place : Place} : setPeek memory character = .reference next place ↔
    ∃ peek object first rest, stringAt memory characterPeek = some peek ∧
      memory.heap[peek]? = some object ∧ object.content.text = first :: rest ∧
      next = memory.setText peek object (character :: rest) ∧ place = characterPeek := by
  constructor
  · intro written
    unfold setPeek at written
    split at written
    · next peek object found =>
        obtain ⟨_, points, there⟩ := Option.bind_eq_some_iff.mp found
        obtain ⟨_, there, same⟩ := Option.map_eq_some_iff.mp there
        cases same
        split at written
        · cases written
        · next first rest shown =>
            cases written
            exact ⟨peek, object, first, rest, points, there, shown, rfl, rfl⟩
    · cases written
  · rintro ⟨peek, object, first, rest, points, there, shown, rfl, rfl⟩
    simp only [setPeek, points, Option.bind_some, there, Option.map_some, shown]

variable {limits : Limits} {reading : Reading} {string : Place} {index : Int32}

variable (limits) in
/-- An index that is not negative gives the character there, behind the end of the string NUL. -/
theorem stringAccess_of_nonneg (points : reading.memory.read string = some (.shared .string id))
    (there : reading.memory.heap[id]? = some object) (nonneg : 0 ≤ index.toInt) :
    ∃ text, Grown object.content.text text index.toInt ∧
      (index.toInt.toNat < object.content.text.length → text = object.content.text) ∧
      Indexing.stringAccess limits reading.memory string index =
        some (setPeek ((reading.memory.use id).setText id object text)
          (object.content.text.getD index.toInt.toNat nul)) := by
  obtain ⟨size, fits⟩ := toSizeT_succ limits nonneg .string
  simp only [Indexing.stringAccess, points, there, Option.map_some, toSizeT_of_nonneg nonneg, size,
    if_neg fits]
  by_cases short : object.content.text.length ≤ index.toInt.toNat
  · have longer : object.content.text.length ≤ index.toInt.toNat + 1 := by omega
    obtain ⟨kept, length⟩ := resizeText_grow longer
    refine ⟨resizeText object.content.text (index.toInt.toNat + 1), ⟨kept, by omega⟩, by omega, ?_⟩
    rw [if_pos short, characterAt, resizeText_getElem? short]
  · have inside : index.toInt.toNat < object.content.text.length := by omega
    have used : (reading.memory.use id).heap[id]? = some object := there
    refine ⟨object.content.text, ⟨List.prefix_rfl, by omega⟩, fun _ => rfl, ?_⟩
    have same : (reading.memory.use id).setText id object object.content.text = reading.memory.use id :=
      setContent_self used
    rw [if_neg short, characterAt, same, List.getElem?_eq_getElem inside,
      List.getD_eq_getElem _ _ inside]

/-- A negative index is refused; -1 makes the string empty before. -/
theorem stringAccess_of_neg (points : reading.memory.read string = some (.shared .string id))
    (there : reading.memory.heap[id]? = some object)
    (fits : object.content.text.length ≤ limits.maxSize .string) (negative : ¬ 0 ≤ index.toInt) :
    Indexing.stringAccess limits reading.memory string index =
      some (.thrown (if index.toInt = -1 then (reading.memory.use id).setText id object []
        else reading.memory.use id)) := by
  obtain ⟨above, wraps, refused⟩ := toSizeT_of_neg limits negative .string
  have short : object.content.text.length ≤ toSizeT index.toInt := fits.trans above
  simp only [Indexing.stringAccess, points, there, Option.map_some, if_pos short]
  by_cases last : index.toInt = -1
  · have empty : resizeText object.content.text 0 = [] := by simp [resizeText]
    rw [wraps last, if_neg (Nat.not_lt_zero _), if_pos last, empty]
    rfl
  · rw [if_pos (refused last), if_neg last]

theorem refused_iff (points : reading.memory.read string = some (.shared .string id))
    (there : reading.memory.heap[id]? = some object)
    (fits : object.content.text.length ≤ limits.maxSize .string) (negative : ¬ 0 ≤ index.toInt) :
    Refused reading.memory (Indexing.stringAccess limits reading.memory string index) ↔
      (index.toInt = -1 → object.content.text = []) := by
  rw [stringAccess_of_neg points there fits negative]
  have used : (reading.memory.use id).heap[id]? = some object := there
  constructor
  · rintro ⟨next, outcome, heap, -⟩ last
    rw [if_pos last] at outcome
    cases outcome
    have cleared := textOf_setText used [] id
    rw [if_pos rfl, textOf, heap, there] at cleared
    simpa using cleared
  · intro empty
    by_cases last : index.toInt = -1
    · refine ⟨_, rfl, ?_, ?_⟩
      · rw [if_pos last, ← empty last, Memory.setText, setContent_self used]
        rfl
      · rw [if_pos last]
        rfl
    · rw [if_neg last]
      exact ⟨_, rfl, rfl, rfl⟩

/-- What was read is kept when the string of `characterPeek` shows the same character, and a
string that was read does not grow. -/
theorem kept_of_safe {reads : List (Nat × Text)} {peek : Nat} {first : Char} {text rest shown : Text}
    (kept : Kept reads memory) (was : textOf memory peek = some shown)
    (there : textOf memory id = some object.content.text)
    (now : ∀ other, textOf next other =
      if other = peek then some (character :: rest)
      else if other = id then some text else textOf memory other)
    (front : first :: rest = if peek = id then text else shown)
    (same : peek ∈ reads.map Prod.fst → shown.head? = some character)
    (own : id ∈ reads.map Prod.fst → text = object.content.text) : Kept reads next := by
  intro read mem
  have before := kept read mem
  have known : read.1 ∈ reads.map Prod.fst := List.mem_map_of_mem mem
  rw [now]
  by_cases atPeek : read.1 = peek
  · rw [if_pos atPeek]
    rw [atPeek] at before known
    have showed : shown = read.2 := Option.some.inj (was.symm.trans before)
    have head := same known
    have whole : first :: rest = shown := by
      by_cases both : peek = id
      · rw [if_pos both] at front
        rw [both] at known was
        exact front.trans ((own known).trans (Option.some.inj (there.symm.trans was)))
      · rw [if_neg both] at front
        exact front
    rw [← showed, ← whole]
    rw [← whole] at head
    rw [Option.some.inj head]
  · rw [if_neg atPeek]
    by_cases atString : read.1 = id
    · rw [if_pos atString]
      rw [atString] at known before
      rw [own known, ← there, before]
    · rw [if_neg atString]
      exact before

theorem prefix_of_head {old tail : Text} {first : Char} (kept : old <+: first :: tail)
    (head : old ≠ [] → old.head? = some character) : old <+: character :: tail := by
  cases old with
  | nil => exact List.nil_prefix
  | cons letter others =>
      have same := Option.some.inj (head (List.cons_ne_nil _ _))
      exact List.cons_prefix_cons.mpr ⟨same, (List.cons_prefix_cons.mp kept).2⟩

/-- What the accessor must not have disturbed decides what `characterPeek` has shown. -/
theorem CharacterUndisturbed.safe (undisturbed : CharacterUndisturbed limits reading string index id object)
    (points : reading.memory.read string = some (.shared .string id))
    (there : reading.memory.heap[id]? = some object) (nonneg : 0 ≤ index.toInt)
    (kept : Kept reading.reads reading.memory) :
    PeekSafe reading id object.content.text index.toInt.toNat := by
  have shownHere : textOf reading.memory id = some object.content.text :=
    Iff.mpr textOf_eq_some ⟨object, there, rfl⟩
  obtain ⟨text, grown, inside, outcome⟩ := stringAccess_of_nonneg limits points there nonneg
  have used : (reading.memory.use id).heap[id]? = some object := there
  have texts := textOf_setText used text
  rw [CharacterUndisturbed, if_pos nonneg, outcome] at undisturbed
  obtain ⟨next, last, target, rest, written, -, -, ends, final, peeks, reads, keeps⟩ := undisturbed
  obtain ⟨peek, other, first, tail, pointed, otherThere, otherText, rfl, -⟩ :=
    Iff.mp setPeek_eq_reference (Option.some.inj written)
  obtain rfl : peek = target := Option.some.inj (pointed.symm.trans peeks)
  have finals := textOf_setText otherThere
    (object.content.text.getD index.toInt.toNat nul :: tail)
  have before := texts peek
  rw [Iff.mpr textOf_eq_some ⟨other, otherThere, otherText⟩] at before
  obtain ⟨shown, showed⟩ : ∃ shown, textOf reading.memory peek = some shown := by
    by_cases both : peek = id
    · exact ⟨_, both ▸ shownHere⟩
    · rw [if_neg both] at before
      exact ⟨_, before.symm⟩
  refine ⟨peek, shown, pointed, showed, ?_, ?_, ?_, ?_⟩
  · intro apart
    rw [if_neg apart] at before
    rw [Option.some.inj (showed.symm.trans before.symm)]
    exact List.cons_ne_nil _ _
  · intro both present
    subst both
    rw [finals, if_pos rfl] at ends
    cases ends
    rw [Option.some.inj (showed.symm.trans shownHere)]
    obtain ⟨letter, others, same⟩ := List.exists_cons_of_ne_nil present
    have front := final.kept
    rw [same] at front ⊢
    exact congrArg some (List.cons_prefix_cons.mp front).1
  · intro known
    obtain ⟨⟨_, was⟩, mem, rfl⟩ := List.mem_map.mp known
    have old := kept _ mem
    have new := keeps _ mem
    rw [reads] at new
    rw [← Option.some.inj (old.symm.trans showed), ← Option.some.inj new]
    rfl
  · intro known
    obtain ⟨⟨_, was⟩, mem, rfl⟩ := List.mem_map.mp known
    have old := kept _ mem
    have new := keeps _ mem
    have same : last = object.content.text :=
      (Option.some.inj (ends.symm.trans new)).trans (Option.some.inj (shownHere.symm.trans old)).symm
    have length := final.length
    rw [same] at length
    omega

theorem PeekSafe.characterUndisturbed (safe : PeekSafe reading id object.content.text index.toInt.toNat)
    (points : reading.memory.read string = some (.shared .string id))
    (there : reading.memory.heap[id]? = some object) (nonneg : 0 ≤ index.toInt)
    (kept : Kept reading.reads reading.memory) :
    CharacterUndisturbed limits reading string index id object := by
  have shownHere : textOf reading.memory id = some object.content.text :=
    Iff.mpr textOf_eq_some ⟨object, there, rfl⟩
  obtain ⟨text, grown, inside, outcome⟩ := stringAccess_of_nonneg limits points there nonneg
  have used : (reading.memory.use id).heap[id]? = some object := there
  have texts := textOf_setText used text
  rw [CharacterUndisturbed, if_pos nonneg, outcome]
  obtain ⟨peek, shown, pointed, showed, filled, begins, same, own⟩ := safe
  have longer := grown.length
  obtain ⟨first, tail, cut⟩ : ∃ first tail, (if peek = id then text else shown) = first :: tail := by
    apply List.exists_cons_of_ne_nil
    split
    · exact List.ne_nil_of_length_pos (by omega)
    · next apart => exact filled apart
  have here := texts peek
  rw [show (if peek = id then some text else textOf (reading.memory.use id) peek) = some (first :: tail) by
    rw [← cut]
    split
    · rfl
    · exact showed] at here
  obtain ⟨other, otherThere, otherText⟩ := Iff.mp textOf_eq_some here
  have finals := textOf_setText otherThere (object.content.text.getD index.toInt.toNat nul :: tail)
  have points : stringAt ((reading.memory.use id).setText id object text) characterPeek = some peek :=
    pointed
  have written : setPeek ((reading.memory.use id).setText id object text)
        (object.content.text.getD index.toInt.toNat nul) = .reference _ characterPeek :=
    Iff.mpr setPeek_eq_reference ⟨peek, other, first, tail, points, otherThere, otherText, rfl, rfl⟩
  refine ⟨_, if peek = id then object.content.text.getD index.toInt.toNat nul :: tail else text,
    peek, tail, congrArg some written, rfl, ?_, ?_, ?_, pointed, ?_, ?_⟩
  · intro position away different
    exact (setText_heap _ different).trans (setText_heap _ away)
  · rw [finals, texts, if_pos rfl]
    by_cases both : peek = id
    · rw [if_pos both, if_pos both.symm]
    · rw [if_neg both, if_neg (Ne.symm both)]
  · by_cases both : peek = id
    · rw [if_pos both] at cut ⊢
      subst both
      have equal : shown = object.content.text := Option.some.inj (showed.symm.trans shownHere)
      refine ⟨?_, by rw [← grown.length, cut]; rfl⟩
      have kept := grown.kept
      rw [cut] at kept
      rw [equal] at begins
      exact prefix_of_head kept (begins rfl)
    · rw [if_neg both]
      exact grown
  · rw [finals, if_pos rfl]
  · refine kept_of_safe kept showed shownHere ?_ cut.symm same (fun known => inside (own known))
    intro position
    rw [finals, texts]
    rfl

theorem characterUndisturbed_iff (points : reading.memory.read string = some (.shared .string id))
    (there : reading.memory.heap[id]? = some object)
    (fits : object.content.text.length ≤ limits.maxSize .string)
    (kept : Kept reading.reads reading.memory) :
    CharacterUndisturbed limits reading string index id object ↔
      (index.toInt = -1 → object.content.text = []) ∧
        (0 ≤ index.toInt → PeekSafe reading id object.content.text index.toInt.toNat) := by
  by_cases nonneg : 0 ≤ index.toInt
  · constructor
    · intro undisturbed
      exact ⟨by omega, fun _ => undisturbed.safe points there nonneg kept⟩
    · rintro ⟨-, safe⟩
      exact (safe nonneg).characterUndisturbed points there nonneg kept
  · rw [CharacterUndisturbed, if_neg nonneg, refused_iff points there fits nonneg]
    exact (and_iff_left fun begins => absurd begins nonneg).symm

end Character

/-! ## Runs -/

section Runs

variable {limits : Limits} {reading next : Reading}

theorem undisturbed_iff_harmless (fits : reading.fits limits = true)
    (kept : Kept reading.reads reading.memory) (call : Call) :
    Undisturbed limits reading call ↔ Harmless reading call := by
  have small : ∀ {id : Nat} {object : SharedObject}, reading.memory.heap[id]? = some object →
      object.content.slots.length ≤ limits.maxSize .array ∧
        object.content.text.length ≤ limits.maxSize .string := by
    intro id object there
    have both := List.all_eq_true.mp fits object (List.mem_of_getElem? there)
    simpa only [Bool.and_eq_true, decide_eq_true_eq] using both
  cases call with
  | operation operation => exact Iff.rfl
  | arrayAccess array index =>
      constructor
      · intro undisturbed id object points there
        exact (itemUndisturbed_iff points there (small there).1 kept).mp
          (undisturbed id object points there)
      · intro harmless id object points there
        exact (itemUndisturbed_iff points there (small there).1 kept).mpr (harmless id object points there)
  | stringAccess string index =>
      constructor
      · intro undisturbed id object points there
        exact (characterUndisturbed_iff points there (small there).2 kept).mp
          (undisturbed id object points there)
      · intro harmless id object points there
        exact (characterUndisturbed_iff points there (small there).2 kept).mpr
          (harmless id object points there)

theorem Kept.note {memory : Memory} (kept : Kept reading.reads memory) :
    Kept (reading.note memory).reads (reading.note memory).memory := by
  intro read mem
  rcases List.mem_append.mp mem with new | old
  · obtain ⟨peek, -, found⟩ := Option.bind_eq_some_iff.mp (Option.mem_toList.mp new)
    obtain ⟨text, shown, rfl⟩ := Option.map_eq_some_iff.mp found
    exact shown
  · exact kept read old

theorem Kept.of_heap {reads : List (Nat × Text)} {before after : Memory} (kept : Kept reads before)
    (same : after.heap = before.heap) : Kept reads after :=
  fun read mem => KeepsTexts.of_heap same _ _ (kept read mem)

/-- The arrays and strings that the accessors work on. -/
theorem arrayAccess_cases {memory : Memory} {array : Place} {index : Int32} {outcome : Outcome}
    (accessed : Indexing.arrayAccess limits memory array index = some outcome) :
    ∃ id object, memory.read array = some (.shared .array id) ∧ memory.heap[id]? = some object := by
  unfold Indexing.arrayAccess at accessed
  split at accessed
  · next id points =>
      obtain ⟨object, there, -⟩ := Option.map_eq_some_iff.mp accessed
      exact ⟨id, object, points, there⟩
  · cases accessed

theorem stringAccess_cases {memory : Memory} {string : Place} {index : Int32} {outcome : Outcome}
    (accessed : Indexing.stringAccess limits memory string index = some outcome) :
    ∃ id object, memory.read string = some (.shared .string id) ∧ memory.heap[id]? = some object := by
  unfold Indexing.stringAccess at accessed
  split at accessed
  · next id points =>
      obtain ⟨object, there, -⟩ := Option.map_eq_some_iff.mp accessed
      exact ⟨id, object, points, there⟩
  · cases accessed

/-- A call that disturbs nothing leaves what was read as it is. -/
theorem after_kept {call : Call} (undisturbed : Undisturbed limits reading call)
    (kept : Kept reading.reads reading.memory) (goes : reading.after limits call = some next) :
    Kept next.reads next.memory := by
  cases call with
  | operation operation =>
      obtain ⟨memory, stepped, rfl⟩ := Option.map_eq_some_iff.mp goes
      exact fun read mem => step_keepsTexts stepped _ _ (kept read mem)
  | arrayAccess array index =>
      simp only [Reading.after] at goes
      cases accessed : Indexing.arrayAccess limits reading.memory array index with
      | none => simp [accessed] at goes
      | some outcome =>
          obtain ⟨id, object, points, there⟩ := arrayAccess_cases accessed
          have item := undisturbed id object points there
          simp only [ItemUndisturbed, accessed] at item
          cases outcome with
          | undefined => simp [accessed] at goes
          | thrown memory =>
              simp only [accessed, Option.some.injEq] at goes
              subst goes
              split at item
              · simp at item
              · obtain ⟨_, same, heap, -⟩ := item
                cases same
                exact kept.of_heap heap
          | reference memory place =>
              simp only [accessed, Option.some.injEq] at goes
              subst goes
              split at item
              · obtain ⟨_, _, same, -, -, -, keeps⟩ := item
                cases same
                exact keeps
              · obtain ⟨_, same, -⟩ := item
                cases same
  | stringAccess string index =>
      simp only [Reading.after] at goes
      cases accessed : Indexing.stringAccess limits reading.memory string index with
      | none => simp [accessed] at goes
      | some outcome =>
          obtain ⟨id, object, points, there⟩ := stringAccess_cases accessed
          have character := undisturbed id object points there
          simp only [CharacterUndisturbed, accessed] at character
          cases outcome with
          | undefined => simp [accessed] at goes
          | thrown memory =>
              simp only [accessed, Option.some.injEq] at goes
              subst goes
              split at character
              · simp at character
              · obtain ⟨_, same, heap, -⟩ := character
                cases same
                exact kept.of_heap heap
          | reference memory place =>
              simp only [accessed, Option.some.injEq] at goes
              subst goes
              split at character
              · obtain ⟨_, _, _, _, same, -, -, -, -, -, -, keeps⟩ := character
                cases same
                exact keeps.note
              · obtain ⟨_, same, -⟩ := character
                cases same

theorem start_fits (limits : Limits) : Reading.start.fits limits = true := by
  have array := limits.int_le .array
  have string := limits.int_le .string
  simp [Reading.start, Reading.fits, createString, createShared, newVariable, Memory.empty]
  omega

/-- The steps of a program meet a condition on calls. -/
def EachCall (condition : Reading → Call → Prop) (reading : Reading) (request : Request) : Prop :=
  ∀ call, request.made reading.memory = some call → condition reading call

/-- An access disturbs nothing exactly when it is harmless.  In a run the accesses disturb
nothing exactly when all of them are harmless, and then every value that was read stays as it was
read. -/
theorem indexing_undisturbed_iff (limits : Limits) :
    (∀ reading call, Reading.fits limits reading = true → Kept reading.reads reading.memory →
      (Undisturbed limits reading call ↔ Harmless reading call)) ∧
    ∀ requests,
      ((Reading.machine limits).AllSteps (EachCall (Undisturbed limits)) .start requests ↔
        (Reading.machine limits).AllSteps (EachCall Harmless) .start requests) ∧
      ∀ final, (Reading.machine limits).AllSteps (EachCall Harmless) .start requests →
        (Reading.machine limits).run .start requests = some final → Kept final.reads final.memory := by
  have agree : ∀ reading request,
      Reading.fits limits reading = true ∧ Kept reading.reads reading.memory →
      (EachCall (Undisturbed limits) reading request ↔ EachCall Harmless reading request) := by
    rintro reading request ⟨fits, kept⟩
    exact forall_congr' fun call => imp_congr_right fun _ => undisturbed_iff_harmless fits kept call
  have preserved : ∀ reading request next,
      Reading.fits limits reading = true ∧ Kept reading.reads reading.memory →
      EachCall Harmless reading request → (Reading.machine limits).step reading request = some next →
      Reading.fits limits next = true ∧ Kept next.reads next.memory := by
    rintro reading request next ⟨fits, kept⟩ harmless stepped
    obtain ⟨call, made, stepped⟩ := Option.bind_eq_some_iff.mp stepped
    obtain ⟨-, stepped⟩ := Option.ite_none_right_eq_some.mp stepped
    obtain ⟨goes, small⟩ := Option.filter_eq_some_iff.mp stepped
    exact ⟨small, after_kept ((undisturbed_iff_harmless fits kept call).mpr (harmless call made)) kept goes⟩
  have initial : Reading.fits limits .start = true ∧ Kept Reading.start.reads Reading.start.memory :=
    ⟨start_fits limits, fun read mem => by cases mem⟩
  refine ⟨fun reading call fits kept => undisturbed_iff_harmless fits kept call, fun requests => ⟨?_, ?_⟩⟩
  · exact Machine.allSteps_iff agree preserved initial requests
  · intro final harmless reached
    exact (Machine.run_invariant preserved initial harmless reached).2

end Runs

instance keptDecidable (reads : List (Nat × Text)) (memory : Memory) : Decidable (Kept reads memory) :=
  inferInstanceAs (Decidable (∀ read ∈ reads, textOf memory read.1 = some read.2))

/-- The sizes of a library with 64 bits. -/
def sixtyFourBits : Limits where
  maxSize
    | .array => 2 ^ 59 - 1
    | _ => 2 ^ 62
  int_le := by intro type; cases type <;> decide
  le_widened := by intro type; cases type <;> decide

/-- The string `ab`, of which the first character is read. -/
def firstRead : List Request :=
  [.call (.operation (.createString ['a', 'b'])), .call (.stringAccess (.root 1) 0)]

/-- The second access overwrites the character that the first one has read, and the index -1
makes the string empty. -/
theorem indexing_disturbs :
    (∃ final, (Reading.machine sixtyFourBits).run .start
        (firstRead ++ [.call (.stringAccess (.root 1) 1)]) = some final ∧
      ¬ Kept final.reads final.memory) ∧
    ∃ reading next, (Reading.machine sixtyFourBits).run .start firstRead = some reading ∧
      Indexing.stringAccess sixtyFourBits reading.memory (.root 1) (-1) = some (.thrown next) ∧
      textOf reading.memory 1 = some ['a', 'b'] ∧ textOf next 1 = some [] := by
  refine ⟨⟨_, rfl, by decide⟩, ⟨_, _, rfl, rfl, by decide, by decide⟩⟩

end Tegenaria.LibVariant
