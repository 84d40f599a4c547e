import Tegenaria.Foundation.RefCount
import Tegenaria.Foundation.Transition

/-!
# Variants and their shared objects

A Variant holds a plain value or a pointer to a string, an array or a map, which counts the
Variants that point to it.  Arrays and maps hold Variants again, so destroying one of them
releases further objects.

A destroyed object stays in the model, marked as such.  Using it again sets `faulted`.
-/

namespace Tegenaria.LibVariant

open Foundation Foundation.RefCount

/-- The characters of a string. -/
abbrev Text := List Char

/-- The values that a Variant holds itself; a double is given by its bits. -/
inductive Plain where
  | undefined
  | null
  | integer (value : Int)
  | boolean (value : Bool)
  | double (bits : UInt64)
  | pointer (address : UInt64)
  deriving DecidableEq

/-- The types of which a Variant holds a pointer. -/
inductive SharedType where
  | string
  | array
  | map
  | object
  deriving DecidableEq

inductive Variant where
  | plain (value : Plain)
  | shared (type : SharedType) (id : Nat)
  deriving DecidableEq

/-- The object a Variant points to, if there is one. -/
def Variant.targets : Variant → List Nat
  | .plain _ => []
  | .shared _ id => [id]

/-- An item of an array or, with its key, an entry of a map. -/
structure Slot where
  key : Option Text
  value : Variant
  deriving DecidableEq

/-- A string has a text, an array and a map have slots. -/
structure Content where
  text : Text
  slots : List Slot
  deriving DecidableEq

/-- `VariantString`, `VariantArray` or `VariantMap`, with the counter of `Object`. -/
abbrev SharedObject := Cell Content

/-- The objects that the Variants inside a container point to. -/
def Content.targets (content : Content) : List Nat :=
  (content.slots.map fun slot => slot.value.targets).flatten

/-- Where a Variant lives: in a variable of the program or in a container. -/
inductive Place where
  | root (index : Nat)
  | slot (id index : Nat)
  deriving DecidableEq

def Place.container : Place → Option Nat
  | .root _ => none
  | .slot id _ => some id

/-- A variable that is destroyed leaves `none` behind. -/
structure Memory where
  locals : List (Option Variant)
  heap : List SharedObject
  faulted : Bool
  deriving DecidableEq

namespace Memory

def empty : Memory := ⟨[], [], false⟩

/-- The objects that the variables point to. -/
def outside (memory : Memory) : List Nat :=
  (memory.locals.map fun value => value.elim [] Variant.targets).flatten

/-- The number of Variants, in variables and inside of containers, that point to an object. -/
def pointers (memory : Memory) (id : Nat) : Nat :=
  references (fun _ content => content.targets) memory.outside memory.heap id

def read (memory : Memory) : Place → Option Variant
  | .root index => (memory.locals[index]?).join
  | .slot id index =>
      (memory.heap[id]?).bind fun object => (object.content.slots[index]?).map Slot.value

def setContent (memory : Memory) (id : Nat) (object : SharedObject) (content : Content) : Memory :=
  { memory with heap := memory.heap.set id { object with content := content } }

def setSlot (content : Content) (index : Nat) (value : Variant) : Content :=
  { content with slots := content.slots.modify index fun slot => { slot with value := value } }

def write (memory : Memory) (place : Place) (value : Variant) : Memory :=
  match place with
  | .root index => { memory with locals := memory.locals.set index (some value) }
  | .slot id index =>
      match memory.heap[id]? with
      | none => memory
      | some object => memory.setContent id object (setSlot object.content index value)

def isAlive (memory : Memory) (id : Nat) : Bool := (memory.heap[id]?).any Cell.alive

/-- There is a Variant at this place, and it has not been destroyed. -/
def isLive (memory : Memory) (place : Place) : Bool :=
  (memory.read place).isSome && place.container.all memory.isAlive

/-- Use an object. -/
def use (memory : Memory) (id : Nat) : Memory :=
  { memory with faulted := memory.faulted || !memory.isAlive id }

/-- Use the memory of a Variant. -/
def usePlace (memory : Memory) (place : Place) : Memory :=
  { memory with faulted := memory.faulted || !place.container.all memory.isAlive }

end Memory

/-! ## Reference counters -/

/-- `Object::addRef` -/
def addRef (memory : Memory) (id : Nat) : Memory :=
  match memory.heap[id]? with
  | none => memory.use id
  | some object =>
      { memory.use id with
        heap := memory.heap.set id { object with refCount := object.refCount + 1 } }

/-- `Object::release` for one object after the other.  The counter of an object that is
destroyed goes to 0, and the destructors of its Variants release further objects before
the next one of the list. -/
@[grind =] def releaseAll : Nat → List Nat → Memory → Memory
  | 0, _, memory => memory
  | _ + 1, [], memory => memory
  | fuel + 1, id :: pending, memory =>
      match memory.heap[id]? with
      | none => releaseAll fuel pending (memory.use id)
      | some object =>
          if object.alive = false then releaseAll fuel pending (memory.use id)
          else if object.refCount = 1 then
            releaseAll fuel (object.content.targets ++ pending)
              { memory with heap := memory.heap.set id { object with refCount := 0, alive := false } }
          else
            releaseAll fuel pending
              { memory with
                heap := memory.heap.set id { object with refCount := object.refCount - 1 } }

/-- The number of pointers inside the objects that are alive. -/
def Memory.inside (memory : Memory) : Nat :=
  (outgoing (fun _ content => content.targets) memory.heap).length

/-- The switch over the type in `operator=` and in the destructor.  Every release uses up a
pointer, so there are enough of them. -/
def releaseTarget (memory : Memory) (value : Variant) : Memory :=
  releaseAll (memory.inside + 1) value.targets memory

/-- The switch over the type of the Variant that is copied. -/
def addRefTarget (memory : Memory) : Variant → Memory
  | .plain _ => memory
  | .shared _ id => addRef memory id

/-! ## Operations -/

def newVariable (memory : Memory) (value : Variant) : Memory :=
  { memory with locals := memory.locals ++ [some value] }

/-- A new object, to which a new variable points. -/
def createShared (memory : Memory) (type : SharedType) (content : Content) : Memory :=
  newVariable { memory with heap := memory.heap ++ [⟨1, true, content⟩] }
    (.shared type memory.heap.length)

/-- `createInteger`, `createBoolean`, `createDouble`, `createPointer`, `createUndefined` and
`createNull` -/
def createPlain (memory : Memory) (value : Plain) : Memory := newVariable memory (.plain value)

def createString (memory : Memory) (text : Text) : Memory := createShared memory .string ⟨text, []⟩

def createArray (memory : Memory) : Memory := createShared memory .array ⟨[], []⟩

def createMap (memory : Memory) : Memory := createShared memory .map ⟨[], []⟩

/-- The copy constructor. -/
def copy (memory : Memory) (source : Place) : Option Memory :=
  (memory.read source).map fun value => newVariable (addRefTarget memory value) value

/-- `operator=`: release, then add a reference, then copy the bytes. -/
def assign (memory : Memory) (target source : Place) : Option Memory :=
  (memory.read target).bind fun old =>
    let released := (releaseTarget memory old).usePlace source
    (released.read source).map fun value =>
      ((addRefTarget released value).usePlace target).write target value

/-- The destructor of a variable. -/
def destroy (memory : Memory) (index : Nat) : Option Memory :=
  (memory.read (.root index)).map fun value =>
    let released := releaseTarget memory value
    { released with locals := released.locals.set index none }

/-- `operator+` for two strings.  The assignment of the first string copies the whole
object, its counter included. -/
def concat (memory : Memory) (left right : Place) : Option Memory :=
  match memory.read left, memory.read right with
  | some (.shared .string first), some (.shared .string second) =>
      (memory.heap[first]?).bind fun x => (memory.heap[second]?).map fun y =>
        let used := (memory.use first).use second
        let text := x.content.text ++ y.content.text
        newVariable { used with heap := used.heap ++ [⟨x.refCount, true, ⟨text, []⟩⟩] }
          (.shared .string memory.heap.length)
  | _, _ => none

def arrayPush (memory : Memory) (array item : Place) : Option Memory :=
  match memory.read array with
  | some (.shared .array id) =>
      (memory.read item).bind fun value =>
        let counted := addRefTarget memory value
        (counted.heap[id]?).map fun object =>
          (counted.use id).setContent id object
            { object.content with slots := object.content.slots ++ [⟨none, value⟩] }
  | some _ => some memory
  | none => none

def undefinedSlot (key : Option Text) : Slot := ⟨key, .plain .undefined⟩

/-- The slots after `resize`, if there are too few of them. -/
def resize (slots : List Slot) (size : Nat) : List Slot :=
  slots ++ List.replicate (size - slots.length) (undefinedSlot none)

/-- `arrayAccess` fails for other types; the item is the slot with this index. -/
def arrayAccess (memory : Memory) (array : Place) (index : Nat) : Option Memory :=
  match memory.read array with
  | some (.shared .array id) =>
      (memory.heap[id]?).map fun object =>
        (memory.use id).setContent id object
          { object.content with slots := resize object.content.slots (index + 1) }
  | _ => none

/-- The index of an entry, which is behind all others if there is none. -/
def entryIndex (slots : List Slot) (key : Text) : Nat :=
  slots.findIdx fun slot => slot.key == some key

/-- `operator[]` of the map. -/
def insertEntry (memory : Memory) (id : Nat) (object : SharedObject) (key : Text) : Memory :=
  if entryIndex object.content.slots key < object.content.slots.length then memory
  else
    memory.setContent id object
      { object.content with slots := object.content.slots ++ [undefinedSlot (some key)] }

def mapTarget : Variant → Option Nat
  | .shared .map id => some id
  | .shared .object id => some id
  | _ => none

def stringTarget : Variant → Option Nat
  | .shared .string id => some id
  | _ => none

/-- `mapAccess` fails for other types; the second part is the place of the entry. -/
def mapAccess (memory : Memory) (map key : Place) : Option (Memory × Place) :=
  ((memory.read map).bind mapTarget).bind fun id =>
    ((memory.read key).bind stringTarget).bind fun name =>
      (memory.heap[id]?).bind fun object =>
        (memory.heap[name]?).map fun string =>
          (insertEntry ((memory.use name).use id) id object string.content.text,
            .slot id (entryIndex object.content.slots string.content.text))

def propertySet (memory : Memory) (map key value : Place) : Option Memory :=
  (mapAccess memory map key).bind fun accessed => assign accessed.1 accessed.2 value

/-- `(*dataMap_)[name] = Variant::createString(text)`; the temporary Variant is destroyed
behind the assignment. -/
def setName (memory : Memory) (id : Nat) (name text : Text) : Option Memory :=
  (memory.heap[id]?).bind fun object =>
    let temporary := createString (insertEntry (memory.use id) id object name) text
    let entry := .slot id (entryIndex object.content.slots name)
    (assign temporary entry (.root memory.locals.length)).bind fun assigned =>
      destroy assigned memory.locals.length

def createObject (memory : Memory) (className : Text) (baseClassName : Option Text) : Option Memory :=
  let id := memory.heap.length
  (setName (createShared memory .object ⟨[], []⟩) id "__className".toList className).bind fun named =>
    match baseClassName with
    | none => some named
    | some text => setName named id "__baseClassName".toList text

/-- What a program can do with its Variants. -/
inductive Operation where
  | createPlain (value : Plain)
  | createString (text : Text)
  | createArray
  | createMap
  | createObject (className : Text) (baseClassName : Option Text)
  | copy (source : Place)
  | assign (target source : Place)
  | concat (left right : Place)
  | arrayPush (array item : Place)
  | arrayAccess (array : Place) (index : Nat)
  | mapAccess (map key : Place)
  | propertySet (map key value : Place)
  | destroy (index : Nat)
  deriving DecidableEq

/-- The Variants that an operation is given. -/
def Operation.places : Operation → List Place
  | .copy source => [source]
  | .assign target source => [target, source]
  | .concat left right => [left, right]
  | .arrayPush array item => [array, item]
  | .arrayAccess array _ => [array]
  | .mapAccess map key => [map, key]
  | .propertySet map key value => [map, key, value]
  | .destroy index => [.root index]
  | _ => []

def perform (memory : Memory) : Operation → Option Memory
  | .createPlain value => some (createPlain memory value)
  | .createString text => some (createString memory text)
  | .createArray => some (createArray memory)
  | .createMap => some (createMap memory)
  | .createObject className baseClassName => createObject memory className baseClassName
  | .copy source => copy memory source
  | .assign target source => assign memory target source
  | .concat left right => concat memory left right
  | .arrayPush array item => arrayPush memory array item
  | .arrayAccess array index => arrayAccess memory array index
  | .mapAccess map key => (mapAccess memory map key).map Prod.fst
  | .propertySet map key value => propertySet memory map key value
  | .destroy index => destroy memory index

/-- A program passes Variants that exist. -/
def machine : Machine Memory Operation where
  step memory operation :=
    if operation.places.all memory.isLive = true then perform memory operation else none

end Tegenaria.LibVariant
