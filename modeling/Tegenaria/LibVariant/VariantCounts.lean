import Mathlib.Order.ConditionallyCompleteLattice.Finset
import Tegenaria.LibVariant.Variant

/-!
# Reference counters of Variants

In every run that creates no cycle the counters are exact, as long as the steps keep to
two conditions.  The assignment releases the old object before it looks at the new one, so
the Variant that is assigned has to be kept by something else than the Variant it is
assigned to.  And the concatenation of strings copies the counter of its first operand,
which is right only if that counter is 1.
-/

namespace Tegenaria.LibVariant

open Foundation Foundation.RefCount

/-- The pointers inside an object. -/
abbrev pointersOf : Nat → Content → List Nat := fun _ content => content.targets

/-- Every counter is the number of Variants that point to the object, exactly the objects
with such a Variant are alive, and no destroyed object has been used. -/
structure Exact (memory : Memory) : Prop where
  unfaulted : memory.faulted = false
  known : ∀ id, 0 < memory.pointers id → id < memory.heap.length
  counted : ∀ id object, memory.heap[id]? = some object → object.alive = true →
    object.refCount = memory.pointers id
  destroyed : ∀ id object, memory.heap[id]? = some object →
    (object.alive = true ↔ 0 < memory.pointers id)

/-- An object that can be reached from a variable without a certain Variant. -/
inductive Held (memory : Memory) (without : Place) : Nat → Prop where
  | through {place : Place} {value : Variant} {id : Nat} (other : place ≠ without)
      (reached : ∀ container, place.container = some container → Held memory without container)
      (found : memory.read place = some value) (points : id ∈ value.targets) : Held memory without id

/-- No object contains itself. -/
def Acyclic (memory : Memory) : Prop :=
  ∃ rank : Nat → Nat, ∀ id object, memory.heap[id]? = some object → object.alive = true →
    ∀ inner ∈ object.content.targets, rank inner < rank id

/-- The source of an assignment is in a variable or in a container that is reached without
the target; if it is the target itself, then its object is. -/
def Keeps (memory : Memory) (target source : Place) : Prop :=
  (∀ container, source.container = some container → Held memory target container)
    ∧ (source = target →
      ∀ value, memory.read target = some value → ∀ id ∈ value.targets, Held memory target id)

/-- The condition under which an operation keeps the counters exact. -/
def Safe (memory : Memory) : Operation → Prop
  | .assign target source => Keeps memory target source
  | .propertySet map key value =>
      ∀ accessed entry, mapAccess memory map key = some (accessed, entry) → Keeps memory entry value
  | .concat left _ =>
      ∀ value, memory.read left = some value → ∀ id ∈ value.targets, memory.pointers id = 1
  | _ => True

def CreatesNoCycle (memory : Memory) (operation : Operation) : Prop :=
  ∀ next, machine.step memory operation = some next → Acyclic next

/-! ## Exact counters -/

theorem exact_iff (memory : Memory) :
    Exact memory ↔ memory.faulted = false ∧ Balanced pointersOf memory.outside memory.heap := by
  constructor
  · intro exact
    refine ⟨exact.unfaulted, ⟨?_, ?_⟩⟩
    · intro id referenced
      have within := exact.known id referenced
      exact ⟨_, List.getElem?_eq_getElem within,
        (exact.destroyed id _ (List.getElem?_eq_getElem within)).mpr referenced⟩
    · intro id object found alive
      exact ⟨exact.counted id object found alive, (exact.destroyed id object found).mp alive⟩
  · rintro ⟨unfaulted, balanced⟩
    refine ⟨unfaulted, ?_, ?_, ?_⟩
    · intro id referenced
      obtain ⟨object, found, -⟩ := balanced.known id referenced
      exact (List.getElem?_eq_some_iff.mp found).1
    · intro id object found alive
      exact (balanced.counted id object found alive).1
    · intro id object found
      constructor
      · intro alive
        exact (balanced.counted id object found alive).2
      · intro referenced
        obtain ⟨other, foundOther, alive⟩ := balanced.known id referenced
        cases found.symm.trans foundOther
        exact alive

theorem isAlive_iff (memory : Memory) (id : Nat) :
    memory.isAlive id = true ↔ ∃ object, memory.heap[id]? = some object ∧ object.alive = true := by
  simp [Memory.isAlive, Option.any_eq_true]

/-! ## One Variant left out -/

theorem targets_plain (value : Plain) : (Variant.plain value).targets = [] := rfl

/-- The pointers inside an object without the one at a certain place. -/
def pointersWithout (without : Place) (id : Nat) (content : Content) : List Nat :=
  match without with
  | .root _ => content.targets
  | .slot owner index =>
      if owner = id then (Memory.setSlot content index (.plain .undefined)).targets
      else content.targets

/-- The pointers of the variables without the one at a certain place. -/
def outsideWithout (memory : Memory) : Place → List Nat
  | .root index => { memory with locals := memory.locals.set index none }.outside
  | .slot _ _ => memory.outside

theorem setSlot_targets {content : Content} {index : Nat} {slot : Slot}
    (found : content.slots[index]? = some slot) (value : Variant) (id : Nat) :
    (Memory.setSlot content index value).targets.count id + slot.value.targets.count id
      = content.targets.count id + value.targets.count id := by
  have listed : (content.slots.map fun slot => slot.value.targets)[index]?
      = some slot.value.targets := by
    rw [List.getElem?_map, found, Option.map_some]
  have lists : (Memory.setSlot content index value).slots.map (fun slot => slot.value.targets)
      = (content.slots.map fun slot => slot.value.targets).set index value.targets := by
    apply List.ext_getElem?
    intro position
    by_cases here : index = position
    · subst here
      have within := (List.getElem?_eq_some_iff.mp listed).1
      rw [List.getElem?_set_self within]
      simp [Memory.setSlot, found]
    · rw [List.getElem?_set_ne here]
      simp [Memory.setSlot, here]
  have counted := count_flatten_set listed value.targets id
  rw [← lists] at counted
  exact counted

theorem set_outside {memory : Memory} {index : Nat} {old : Option Variant}
    (found : memory.locals[index]? = some old) (value : Option Variant) (id : Nat) :
    ({ memory with locals := memory.locals.set index value } : Memory).outside.count id
        + (old.elim [] Variant.targets).count id
      = memory.outside.count id + (value.elim [] Variant.targets).count id := by
  have listed : (memory.locals.map fun value => value.elim [] Variant.targets)[index]?
      = some (old.elim [] Variant.targets) := by
    rw [List.getElem?_map, found, Option.map_some]
  have counted := count_flatten_set listed (value.elim [] Variant.targets) id
  rw [← List.map_set] at counted
  exact counted

theorem pointersWithout_of_ne {owner index id : Nat} (content : Content) (other : id ≠ owner) :
    pointersWithout (.slot owner index) id content = pointersOf id content :=
  if_neg (Ne.symm other)

theorem pointersWithout_self (owner index : Nat) (content : Content) :
    pointersWithout (.slot owner index) owner content
      = (Memory.setSlot content index (.plain .undefined)).targets :=
  if_pos rfl

theorem read_root {memory : Memory} {index : Nat} {value : Variant}
    (found : memory.read (.root index) = some value) :
    memory.locals[index]? = some (some value) :=
  Option.join_eq_some_iff.mp found

theorem read_slot {memory : Memory} {id index : Nat} {value : Variant}
    (found : memory.read (.slot id index) = some value) :
    ∃ object slot, memory.heap[id]? = some object ∧ object.content.slots[index]? = some slot
      ∧ slot.value = value := by
  obtain ⟨object, foundObject, inner⟩ := Option.bind_eq_some_iff.mp found
  obtain ⟨slot, foundSlot, same⟩ := Option.map_eq_some_iff.mp inner
  exact ⟨object, slot, foundObject, foundSlot, same⟩

/-- The object in which a place is. -/
def Memory.holds (memory : Memory) (place : Place) : Prop :=
  ∀ container, place.container = some container → memory.isAlive container = true

/-- A pointer that is left out at its place is held from outside. -/
theorem detach {memory : Memory} {place : Place} {old : Variant}
    (balanced : Balanced pointersOf memory.outside memory.heap) (live : memory.holds place)
    (found : memory.read place = some old) :
    Balanced (pointersWithout place) (old.targets ++ outsideWithout memory place) memory.heap := by
  cases place with
  | root index =>
      apply balanced.of_references (fun _ => rfl)
      intro id
      have counted := set_outside (read_root found) none id
      rw [references_append]
      simp only [Option.elim_none, List.count_nil, Option.elim_some] at counted
      have inner : outgoing (pointersWithout (.root index)) memory.heap
        = outgoing pointersOf memory.heap := rfl
      simp only [references, outsideWithout, inner]
      omega
  | slot owner index =>
      obtain ⟨object, slot, foundObject, foundSlot, rfl⟩ := read_slot found
      obtain ⟨same, foundSame, alive⟩ := (isAlive_iff memory owner).mp (live owner rfl)
      cases foundObject.symm.trans foundSame
      apply balanced.regard foundObject alive
      · intro id content other
        exact pointersWithout_of_ne content other
      · intro id
        have counted := setSlot_targets foundSlot (.plain .undefined) id
        rw [pointersWithout_self]
        rw [targets_plain, List.count_nil] at counted
        simp only [List.count_append, outsideWithout, pointersOf]
        omega

/-- A pointer that is held from outside is written to the place that was left out. -/
theorem attach {memory : Memory} {place : Place} {old value : Variant}
    (balanced : Balanced (pointersWithout place) (value.targets ++ outsideWithout memory place)
      memory.heap)
    (live : memory.holds place) (found : memory.read place = some old) :
    Balanced pointersOf (memory.write place value).outside (memory.write place value).heap := by
  cases place with
  | root index =>
      apply balanced.of_references (fun _ => rfl)
      intro id
      have cleared := set_outside (read_root found) none id
      have written := set_outside (read_root found) (some value) id
      rw [references_append]
      simp only [Option.elim_none, List.count_nil, Option.elim_some] at cleared written
      have inner : outgoing (pointersWithout (.root index)) memory.heap
        = outgoing pointersOf memory.heap := rfl
      simp only [references, outsideWithout, inner, Memory.write]
      omega
  | slot owner index =>
      obtain ⟨object, slot, foundObject, foundSlot, rfl⟩ := read_slot found
      obtain ⟨same, foundSame, alive⟩ := (isAlive_iff memory owner).mp (live owner rfl)
      cases foundObject.symm.trans foundSame
      simp only [Memory.write, foundObject]
      apply balanced.exchange foundObject alive
      · intro id content other
        exact (pointersWithout_of_ne content other).symm
      · intro id
        have cleared := setSlot_targets foundSlot (.plain .undefined) id
        have written := setSlot_targets foundSlot value id
        rw [pointersWithout_self]
        rw [targets_plain, List.count_nil] at cleared
        simp only [List.count_append, outsideWithout, Memory.outside, Memory.setContent, pointersOf]
        omega

/-! ## Releasing -/

/-- The variables and what the objects contain are the same; only counters have changed and
objects have been destroyed. -/
structure SameContents (before after : Memory) : Prop where
  locals : after.locals = before.locals
  contents : ∀ id : Nat, (after.heap[id]?).map Cell.content = (before.heap[id]?).map Cell.content

theorem SameContents.refl (memory : Memory) : SameContents memory memory := ⟨rfl, fun _ => rfl⟩

theorem SameContents.trans {first second third : Memory} (begin : SameContents first second)
    (rest : SameContents second third) : SameContents first third :=
  ⟨rest.locals.trans begin.locals, fun id => (rest.contents id).trans (begin.contents id)⟩

theorem SameContents.set {memory : Memory} {id : Nat} {object : SharedObject}
    (found : memory.heap[id]? = some object) (new : SharedObject)
    (same : new.content = object.content) :
    SameContents memory { memory with heap := memory.heap.set id new } := by
  refine ⟨rfl, ?_⟩
  intro position
  by_cases here : id = position
  · subst here
    rw [List.getElem?_set_self (List.getElem?_eq_some_iff.mp found).1, found, Option.map_some,
      Option.map_some, same]
  · rw [List.getElem?_set_ne here]

theorem SameContents.read {before after : Memory} (same : SameContents before after)
    (place : Place) : after.read place = before.read place := by
  cases place with
  | root index => simp only [Memory.read, same.locals]
  | slot id index =>
      have contents := same.contents id
      have through : ∀ memory : Memory, memory.read (.slot id index)
          = ((memory.heap[id]?).map Cell.content).bind fun content =>
              (content.slots[index]?).map Slot.value := by
        intro memory
        rw [Option.bind_map]
        rfl
      rw [through, through, contents]

theorem SameContents.outsideWithout {before after : Memory} (same : SameContents before after)
    (place : Place) : outsideWithout after place = outsideWithout before place := by
  cases place with
  | root index => simp only [LibVariant.outsideWithout, Memory.outside, same.locals]
  | slot id index => simp only [LibVariant.outsideWithout, Memory.outside, same.locals]

/-- The effect of releasing objects, as long as the ones that matter are held by others. -/
structure Released (refs : Nat → Content → List Nat) (outside : List Nat) (kept : Nat → Prop)
    (before after : Memory) : Prop where
  unfaulted : after.faulted = before.faulted
  balanced : Balanced refs outside after.heap
  guarded : Protected refs outside after.heap kept
  same : SameContents before after

theorem Released.after {refs : Nat → Content → List Nat} {outside : List Nat} {kept : Nat → Prop}
    {memory released : Memory} {id : Nat} {object new : SharedObject}
    (rest : Released refs outside kept { memory with heap := memory.heap.set id new } released)
    (found : memory.heap[id]? = some object) (same : new.content = object.content) :
    Released refs outside kept memory released :=
  ⟨rest.unfaulted, rest.balanced, rest.guarded, (SameContents.set found new same).trans rest.same⟩

theorem releaseAll_released {refs : Nat → Content → List Nat} {outside : List Nat}
    {kept : Nat → Prop} (whole : ∀ id content, ¬ kept id → refs id content = content.targets)
    {fuel : Nat} {pending : List Nat} {memory : Memory}
    (enough : pending.length + (outgoing pointersOf memory.heap).length ≤ fuel)
    (balanced : Balanced refs (pending ++ outside) memory.heap)
    (guarded : Protected refs outside memory.heap kept) :
    Released refs outside kept memory (releaseAll fuel pending memory) := by
  induction fuel generalizing pending memory with
  | zero =>
      obtain rfl : pending = [] := List.eq_nil_of_length_eq_zero (by omega)
      exact ⟨rfl, balanced, guarded, .refl memory⟩
  | succ fuel ih =>
      cases pending with
      | nil => exact ⟨rfl, balanced, guarded, .refl memory⟩
      | cons id pending =>
          obtain ⟨object, found, alive⟩ := balanced.alive_of_mem (List.mem_cons_self ..)
          have waiting : Balanced refs (id :: (pending ++ outside)) memory.heap := balanced
          simp only [releaseAll, found]
          rw [if_neg (by simp [alive])]
          rw [List.length_cons] at enough
          split
          · next last =>
              have free : ¬ kept id := fun own =>
                guarded.refCount_ne_one balanced own found alive last
              have shorter := outgoing_length_destroy pointersOf found alive 0
              have moved := waiting.release_last found alive last
              rw [whole id _ free, ← List.append_assoc] at moved
              have rest := @ih (object.content.targets ++ pending)
                { memory with
                  heap := memory.heap.set id { object with refCount := 0, alive := false } }
                (by rw [List.length_append]; simp only [pointersOf] at *; omega) moved
                (guarded.destroy free _)
              exact rest.after found rfl
          · next several =>
              have rest := @ih pending
                { memory with
                  heap := memory.heap.set id { object with refCount := object.refCount - 1 } }
                (by rw [outgoing_recount found]; omega)
                (waiting.release_shared found alive several) (guarded.recount found _)
              exact rest.after found rfl

/-- The object of a Variant is released. -/
theorem releaseTarget_released {refs : Nat → Content → List Nat} {outside : List Nat}
    {kept : Nat → Prop} (whole : ∀ id content, ¬ kept id → refs id content = content.targets)
    {memory : Memory} {value : Variant}
    (balanced : Balanced refs (value.targets ++ outside) memory.heap)
    (guarded : Protected refs outside memory.heap kept) :
    Released refs outside kept memory (releaseTarget memory value) := by
  have enough : value.targets.length + (outgoing pointersOf memory.heap).length ≤ memory.inside + 1 := by
    cases value with
    | plain value => exact (Nat.zero_add _).symm ▸ Nat.le_succ _
    | shared type id => exact Nat.le_of_eq (Nat.add_comm _ _)
  exact releaseAll_released whole enough balanced guarded

theorem addRefTarget_balanced {refs : Nat → Content → List Nat} {outside : List Nat}
    {memory : Memory} {value : Variant} (balanced : Balanced refs outside memory.heap)
    (alive : ∀ id ∈ value.targets, memory.isAlive id = true) :
    Balanced refs (value.targets ++ outside) (addRefTarget memory value).heap
      ∧ (addRefTarget memory value).faulted = memory.faulted
      ∧ SameContents memory (addRefTarget memory value)
      ∧ ∀ id, (addRefTarget memory value).isAlive id = memory.isAlive id := by
  cases value with
  | plain value => exact ⟨balanced, rfl, .refl memory, fun _ => rfl⟩
  | shared type id =>
      have living := alive id (List.mem_singleton_self id)
      obtain ⟨object, found, aliveObject⟩ := (isAlive_iff memory id).mp living
      have added : addRefTarget memory (.shared type id)
          = { memory with
              heap := memory.heap.set id { object with refCount := object.refCount + 1 } } := by
        simp [addRefTarget, addRef, found, Memory.use, living]
      rw [added]
      refine ⟨balanced.addRef found aliveObject, rfl, SameContents.set found _ rfl, ?_⟩
      intro other
      by_cases here : id = other
      · subst here
        simp only [Memory.isAlive, found,
          List.getElem?_set_self (List.getElem?_eq_some_iff.mp found).1, Option.any_some]
      · simp only [Memory.isAlive, List.getElem?_set_ne here]

/-! ## Objects that are held -/

theorem mem_outside {memory : Memory} {index id : Nat} {value : Variant}
    (found : memory.read (.root index) = some value) (points : id ∈ value.targets) :
    id ∈ memory.outside := by
  refine List.mem_flatten.mpr ⟨value.targets, ?_, points⟩
  exact List.mem_map.mpr ⟨some value, List.mem_of_getElem? (read_root found), rfl⟩

theorem mem_targets {content : Content} {index id : Nat} {slot : Slot}
    (found : content.slots[index]? = some slot) (points : id ∈ slot.value.targets) :
    id ∈ content.targets := by
  refine List.mem_flatten.mpr ⟨slot.value.targets, ?_, points⟩
  exact List.mem_map.mpr ⟨slot, List.mem_of_getElem? found, rfl⟩

/-- A pointer at another place is not left out. -/
theorem mem_pointersWithout {without : Place} {content : Content} {owner index id : Nat}
    {slot : Slot} (found : content.slots[index]? = some slot) (points : id ∈ slot.value.targets)
    (other : Place.slot owner index ≠ without) : id ∈ pointersWithout without owner content := by
  cases without with
  | root position => exact mem_targets found points
  | slot holder position =>
      by_cases same : owner = holder
      · subst same
        have apart : position ≠ index := fun equal => other (equal ▸ rfl)
        rw [pointersWithout_self]
        have stays : (Memory.setSlot content position (.plain .undefined)).slots[index]? = some slot := by
          simp [Memory.setSlot, apart, found]
        exact mem_targets stays points
      · rw [pointersWithout_of_ne content same]
        exact mem_targets found points

theorem mem_outsideWithout {memory : Memory} {without : Place} {index id : Nat} {value : Variant}
    (found : memory.read (.root index) = some value) (points : id ∈ value.targets)
    (other : Place.root index ≠ without) : id ∈ outsideWithout memory without := by
  cases without with
  | root position =>
      have apart : position ≠ index := fun equal => other (equal ▸ rfl)
      have stays : ({ memory with locals := memory.locals.set position none } : Memory).read
          (.root index) = some value := by
        simp only [Memory.read, List.getElem?_set_ne apart]
        exact found
      exact mem_outside stays points
  | slot holder position => exact mem_outside found points

theorem Held.alive {memory : Memory} {without : Place} {id : Nat}
    (balanced : Balanced pointersOf memory.outside memory.heap) (reach : Held memory without id) :
    memory.isAlive id = true := by
  induction reach with
  | @through place value id other reached found points ih =>
      rw [isAlive_iff]
      cases place with
      | root index => exact balanced.alive_of_mem (mem_outside found points)
      | slot owner index =>
          obtain ⟨object, slot, foundObject, foundSlot, rfl⟩ := read_slot found
          obtain ⟨same, foundSame, alive⟩ := (isAlive_iff memory owner).mp (ih owner rfl)
          cases foundObject.symm.trans foundSame
          have inside : id ∈ RefCount.held pointersOf owner object := by
            rw [held_of_alive pointersOf alive]
            exact mem_targets foundSlot points
          exact balanced.known id (references_pos memory.outside foundObject inside)

/-- What is held without a Variant is not destroyed with the object of this Variant. -/
theorem Held.guarded {memory : Memory} {without : Place}
    (balanced : Balanced pointersOf memory.outside memory.heap) :
    Protected (pointersWithout without) (outsideWithout memory without) memory.heap
      (Held memory without) := by
  rintro id (⟨other, reached, found, points⟩ : Held memory without id)
  rename_i place value
  cases place with
  | root index => exact .inl (mem_outsideWithout found points other)
  | slot owner index =>
      obtain ⟨object, slot, foundObject, foundSlot, rfl⟩ := read_slot found
      have keptOwner := reached owner rfl
      obtain ⟨same, foundSame, alive⟩ := (isAlive_iff memory owner).mp (keptOwner.alive balanced)
      cases foundObject.symm.trans foundSame
      refine .inr ⟨owner, object, keptOwner, foundObject, ?_⟩
      rw [held_of_alive _ alive]
      exact mem_pointersWithout foundSlot points other

/-! ## Assignment -/

theorem holds_iff (memory : Memory) (place : Place) :
    memory.holds place ↔ place.container.all memory.isAlive = true := by
  cases place with
  | root index => simp [Memory.holds, Place.container]
  | slot id index => simp [Memory.holds, Place.container]

theorem usePlace_of_holds {memory : Memory} {place : Place} (live : memory.holds place) :
    memory.usePlace place = memory := by
  simp [Memory.usePlace, (holds_iff memory place).mp live]

/-- Everything that is needed behind the release is held without the target. -/
theorem assign_exact {memory next : Memory} {target source : Place} (exact : Exact memory)
    (owner : ∀ container, target.container = some container → Held memory target container)
    (container : ∀ container, source.container = some container → Held memory target container)
    (pointed : ∀ value, memory.read source = some value → ∀ id ∈ value.targets, Held memory target id)
    (assigned : assign memory target source = some next) : Exact next := by
  obtain ⟨unfaulted, balanced⟩ := (exact_iff memory).mp exact
  obtain ⟨old, foundOld, assigned⟩ := Option.bind_eq_some_iff.mp assigned
  have liveTarget : memory.holds target := fun id inside => (owner id inside).alive balanced
  have whole : ∀ id content, ¬ Held memory target id →
      pointersWithout target id content = content.targets := by
    intro id content free
    cases target with
    | root index => rfl
    | slot holder index =>
        exact pointersWithout_of_ne content fun same => free (same ▸ owner holder rfl)
  have released := releaseTarget_released whole (detach balanced liveTarget foundOld)
    (Held.guarded balanced)
  have survives : ∀ id, Held memory target id → (releaseTarget memory old).isAlive id = true := by
    intro id own
    exact (isAlive_iff _ id).mpr (released.guarded.alive released.balanced own)
  have liveSource : (releaseTarget memory old).holds source := fun id inside =>
    survives id (container id inside)
  simp only [usePlace_of_holds liveSource, released.same.read] at assigned
  obtain ⟨value, foundValue, rfl⟩ := Option.map_eq_some_iff.mp assigned
  obtain ⟨added, sameFault, sameContents, sameAlive⟩ := addRefTarget_balanced released.balanced
    fun id points => survives id (pointed value foundValue id points)
  have stillLive : (addRefTarget (releaseTarget memory old) value).holds target := by
    intro id inside
    rw [sameAlive]
    exact survives id (owner id inside)
  have contents := released.same.trans sameContents
  rw [usePlace_of_holds stillLive]
  rw [← contents.outsideWithout] at added
  have written := attach added stillLive ((contents.read target).trans foundOld)
  refine (exact_iff _).mpr ⟨?_, written⟩
  have kept : ((addRefTarget (releaseTarget memory old) value).write target value).faulted
      = (addRefTarget (releaseTarget memory old) value).faulted := by
    cases target with
    | root index => rfl
    | slot id index =>
        simp only [Memory.write]
        split <;> rfl
  rw [kept, sameFault, released.unfaulted, unfaulted]

theorem exists_root_of_mem {memory : Memory} {id : Nat} (inside : id ∈ memory.outside) :
    ∃ index value, memory.read (.root index) = some value ∧ id ∈ value.targets := by
  obtain ⟨list, listed, points⟩ := List.mem_flatten.mp inside
  obtain ⟨stored, member, rfl⟩ := List.mem_map.mp listed
  cases stored with
  | none => cases points
  | some value =>
      obtain ⟨index, found⟩ := List.getElem?_of_mem member
      exact ⟨index, value, Option.join_eq_some_iff.mpr found, points⟩

theorem exists_slot_of_mem {content : Content} {id : Nat} (inside : id ∈ content.targets) :
    ∃ (index : Nat) (slot : Slot), content.slots[index]? = some slot ∧ id ∈ slot.value.targets := by
  obtain ⟨list, listed, points⟩ := List.mem_flatten.mp inside
  obtain ⟨slot, member, rfl⟩ := List.mem_map.mp listed
  obtain ⟨index, found⟩ := List.getElem?_of_mem member
  exact ⟨index, slot, found, points⟩

/-- Every live object is pointed to from a variable or from inside another live object. -/
theorem exists_pointer {memory : Memory} {id : Nat}
    (balanced : Balanced pointersOf memory.outside memory.heap) (alive : memory.isAlive id = true) :
    (∃ index value, memory.read (.root index) = some value ∧ id ∈ value.targets)
      ∨ ∃ owner index value object, memory.heap[owner]? = some object ∧ object.alive = true
        ∧ id ∈ object.content.targets ∧ memory.read (.slot owner index) = some value
        ∧ id ∈ value.targets := by
  obtain ⟨object, found, living⟩ := (isAlive_iff memory id).mp alive
  have referenced := (balanced.counted id object found living).2
  by_cases inside : id ∈ memory.outside
  · exact .inl (exists_root_of_mem inside)
  · right
    have inner : id ∈ outgoing pointersOf memory.heap := by
      rw [references, List.count_eq_zero_of_not_mem inside, Nat.zero_add] at referenced
      exact List.count_pos_iff.mp referenced
    obtain ⟨list, listed, member⟩ := List.mem_flatten.mp inner
    obtain ⟨owner, foundList⟩ := List.getElem?_of_mem listed
    rw [List.getElem?_mapIdx] at foundList
    obtain ⟨holder, foundHolder, rfl⟩ := Option.map_eq_some_iff.mp foundList
    have livingHolder : holder.alive = true := by
      cases stored : holder.alive with
      | true => rfl
      | false => simp [RefCount.held, stored] at member
    rw [held_of_alive _ livingHolder] at member
    obtain ⟨index, slot, foundSlot, points⟩ := exists_slot_of_mem member
    refine ⟨owner, index, slot.value, holder, foundHolder, livingHolder, member, ?_, points⟩
    simp only [Memory.read, foundHolder, Option.bind_some, foundSlot, Option.map_some]

/-- Without cycles, the way to a container does not lead through its own items. -/
theorem held_owner {memory : Memory} {owner : Nat} (index : Nat)
    (balanced : Balanced pointersOf memory.outside memory.heap) (acyclic : Acyclic memory)
    (alive : memory.isAlive owner = true) : Held memory (.slot owner index) owner := by
  obtain ⟨rank, above⟩ := acyclic
  obtain ⟨bound, bounded⟩ : ∃ bound, ∀ id < memory.heap.length, rank id ≤ bound :=
    ⟨(Finset.range memory.heap.length).sup rank, fun id within =>
      Finset.le_sup (Finset.mem_range.mpr within)⟩
  have upward : ∀ room id, bound - rank id ≤ room → rank owner ≤ rank id →
      memory.isAlive id = true → Held memory (.slot owner index) id := by
    intro room
    induction room using Nat.strongRecOn with
    | ind room ih =>
        intro id distance higher living
        rcases exists_pointer balanced living with
          ⟨position, value, found, points⟩
          | ⟨holder, position, value, object, foundHolder, livingHolder, inside, found, points⟩
        · exact .through (by simp) (by simp [Place.container]) found points
        · have climbs := above holder object foundHolder livingHolder id inside
          have below := bounded holder (List.getElem?_eq_some_iff.mp foundHolder).1
          have heldHolder : Held memory (.slot owner index) holder :=
            ih (bound - rank holder) (by omega) holder (Nat.le_refl _) (by omega)
              ((isAlive_iff memory holder).mpr ⟨object, foundHolder, livingHolder⟩)
          -- The rank of the holder is higher than that of the container.
          have other : Place.slot holder position ≠ .slot owner index := by
            intro same
            cases same
            omega
          refine .through other ?_ found points
          intro container same
          cases same
          exact heldHolder
  exact upward (bound - rank owner) owner (Nat.le_refl _) (Nat.le_refl _) alive

/-! ## The other operations -/

theorem newVariable_exact {memory : Memory} {value : Variant} (unfaulted : memory.faulted = false)
    (balanced : Balanced pointersOf (value.targets ++ memory.outside) memory.heap) :
    Exact (newVariable memory value) := by
  refine (exact_iff _).mpr ⟨unfaulted, balanced.of_references (fun _ => rfl) ?_⟩
  intro id
  have flat : (newVariable memory value).outside = memory.outside ++ value.targets := by
    simp [newVariable, Memory.outside]
  have inner : (newVariable memory value).heap = memory.heap := rfl
  simp only [references, flat, inner, List.count_append]
  omega

theorem createShared_exact {memory : Memory} (exact : Exact memory) (type : SharedType)
    (text : Text) : Exact (createShared memory type ⟨text, []⟩) := by
  obtain ⟨unfaulted, balanced⟩ := (exact_iff memory).mp exact
  have empty : pointersOf memory.heap.length ⟨text, []⟩ = [] := rfl
  have grown : Balanced pointersOf (memory.heap.length :: memory.outside)
      (memory.heap ++ [⟨1, true, ⟨text, []⟩⟩]) := Balanced.alloc (by rw [empty]; exact balanced)
  exact newVariable_exact unfaulted grown

theorem createPlain_exact {memory : Memory} (exact : Exact memory) (value : Plain) :
    Exact (createPlain memory value) := by
  obtain ⟨unfaulted, balanced⟩ := (exact_iff memory).mp exact
  exact newVariable_exact unfaulted balanced

/-- A Variant at a live place points to a live object. -/
theorem alive_of_read {memory : Memory} {place : Place} {value : Variant} {id : Nat}
    (balanced : Balanced pointersOf memory.outside memory.heap) (live : memory.holds place)
    (found : memory.read place = some value) (points : id ∈ value.targets) :
    memory.isAlive id = true := by
  rw [isAlive_iff]
  have inside : id ∈ value.targets ++ outsideWithout memory place := List.mem_append_left _ points
  exact (detach balanced live found).alive_of_mem inside

theorem copy_exact {memory next : Memory} {source : Place} (exact : Exact memory)
    (live : memory.holds source) (copied : copy memory source = some next) : Exact next := by
  obtain ⟨unfaulted, balanced⟩ := (exact_iff memory).mp exact
  obtain ⟨value, found, rfl⟩ := Option.map_eq_some_iff.mp copied
  obtain ⟨added, sameFault, sameContents, -⟩ := addRefTarget_balanced balanced
    fun id points => alive_of_read balanced live found points
  have sameOutside : (addRefTarget memory value).outside = memory.outside := by
    simp only [Memory.outside, sameContents.locals]
  exact newVariable_exact (sameFault.trans unfaulted) (by rw [sameOutside]; exact added)

theorem destroy_exact {memory next : Memory} {index : Nat} (exact : Exact memory)
    (destroyed : destroy memory index = some next) : Exact next := by
  obtain ⟨unfaulted, balanced⟩ := (exact_iff memory).mp exact
  obtain ⟨value, found, rfl⟩ := Option.map_eq_some_iff.mp destroyed
  have live : memory.holds (.root index) := by simp [Memory.holds, Place.container]
  have nothing : Protected (pointersWithout (.root index)) (outsideWithout memory (.root index))
      memory.heap (fun _ => False) := fun _ impossible => impossible.elim
  have released := releaseTarget_released (fun _ _ _ => rfl) (detach balanced live found) nothing
  have remaining := released.balanced
  rw [← released.same.outsideWithout (.root index)] at remaining
  exact (exact_iff _).mpr ⟨released.unfaulted.trans unfaulted, remaining⟩

theorem use_of_isAlive {memory : Memory} {id : Nat} (alive : memory.isAlive id = true) :
    memory.use id = memory := by
  simp [Memory.use, alive]

theorem target_mem {memory : Memory} {place : Place} {type : SharedType} {id : Nat}
    (balanced : Balanced pointersOf memory.outside memory.heap) (live : memory.holds place)
    (found : memory.read place = some (.shared type id)) : memory.isAlive id = true :=
  alive_of_read balanced live found (List.mem_singleton_self id)

/-- The counter that is copied has to be 1. -/
theorem concat_exact {memory next : Memory} {left right : Place} (exact : Exact memory)
    (liveLeft : memory.holds left) (liveRight : memory.holds right)
    (single : ∀ value, memory.read left = some value → ∀ id ∈ value.targets, memory.pointers id = 1)
    (joined : concat memory left right = some next) : Exact next := by
  obtain ⟨unfaulted, balanced⟩ := (exact_iff memory).mp exact
  unfold concat at joined
  split at joined
  · next first second foundLeft foundRight =>
      obtain ⟨x, foundFirst, joined⟩ := Option.bind_eq_some_iff.mp joined
      obtain ⟨y, foundSecond, rfl⟩ := Option.map_eq_some_iff.mp joined
      have aliveFirst := target_mem balanced liveLeft foundLeft
      have aliveSecond := target_mem balanced liveRight foundRight
      obtain ⟨same, foundSame, living⟩ := (isAlive_iff memory first).mp aliveFirst
      cases foundFirst.symm.trans foundSame
      have one : x.refCount = 1 :=
        (exact.counted first x foundFirst living).trans
          (single _ foundLeft first (List.mem_singleton_self first))
      simp only [use_of_isAlive aliveFirst, use_of_isAlive aliveSecond, one]
      exact createShared_exact exact .string (x.content.text ++ y.content.text)
  · cases joined

/-- The content of a live object changes, and the same pointers are counted. -/
theorem setContent_exact {memory : Memory} {outside : List Nat} {id : Nat} {object : SharedObject}
    {content : Content} (unfaulted : memory.faulted = false)
    (balanced : Balanced pointersOf outside memory.heap) (found : memory.heap[id]? = some object)
    (alive : object.alive = true)
    (moved : ∀ other, memory.outside.count other + content.targets.count other
      = outside.count other + object.content.targets.count other) :
    Exact (memory.setContent id object content) :=
  (exact_iff _).mpr ⟨unfaulted, balanced.exchange found alive content (fun _ _ _ => rfl) moved⟩

theorem arrayPush_exact {memory next : Memory} {array item : Place} (exact : Exact memory)
    (liveArray : memory.holds array) (liveItem : memory.holds item)
    (pushed : arrayPush memory array item = some next) : Exact next := by
  obtain ⟨unfaulted, balanced⟩ := (exact_iff memory).mp exact
  unfold arrayPush at pushed
  split at pushed
  · next id foundArray =>
      obtain ⟨value, foundItem, pushed⟩ := Option.bind_eq_some_iff.mp pushed
      obtain ⟨object, foundObject, rfl⟩ := Option.map_eq_some_iff.mp pushed
      obtain ⟨added, sameFault, sameContents, sameAlive⟩ := addRefTarget_balanced balanced
        fun id points => alive_of_read balanced liveItem foundItem points
      have alive : (addRefTarget memory value).isAlive id = true :=
        (sameAlive id).trans (target_mem balanced liveArray foundArray)
      obtain ⟨same, foundSame, living⟩ := (isAlive_iff _ id).mp alive
      cases foundObject.symm.trans foundSame
      rw [use_of_isAlive alive]
      refine setContent_exact (sameFault.trans unfaulted) added foundObject living ?_
      intro other
      have sameOutside : (addRefTarget memory value).outside = memory.outside := by
        simp only [Memory.outside, sameContents.locals]
      simp only [sameOutside, Content.targets, List.map_append, List.flatten_append, List.map_cons,
        List.map_nil, List.flatten_cons, List.flatten_nil, List.append_nil, List.count_append]
      omega
  · cases pushed
    exact exact
  · cases pushed

theorem resize_targets (content : Content) (size : Nat) :
    ({ content with slots := resize content.slots size } : Content).targets = content.targets := by
  simp [Content.targets, resize, undefinedSlot, targets_plain]

theorem arrayAccess_exact {memory next : Memory} {array : Place} {index : Nat} (exact : Exact memory)
    (live : memory.holds array) (accessed : arrayAccess memory array index = some next) :
    Exact next := by
  obtain ⟨unfaulted, balanced⟩ := (exact_iff memory).mp exact
  unfold arrayAccess at accessed
  split at accessed
  · next id foundArray =>
      obtain ⟨object, foundObject, rfl⟩ := Option.map_eq_some_iff.mp accessed
      have alive := target_mem balanced live foundArray
      obtain ⟨same, foundSame, living⟩ := (isAlive_iff memory id).mp alive
      cases foundObject.symm.trans foundSame
      rw [use_of_isAlive alive]
      refine setContent_exact unfaulted balanced foundObject living ?_
      intro other
      rw [resize_targets]
  · cases accessed

theorem insertEntry_exact {memory : Memory} {id : Nat} {object : SharedObject} (key : Text)
    (exact : Exact memory) (found : memory.heap[id]? = some object) (alive : object.alive = true) :
    Exact (insertEntry memory id object key) := by
  obtain ⟨unfaulted, balanced⟩ := (exact_iff memory).mp exact
  unfold insertEntry
  split
  · exact exact
  · refine setContent_exact unfaulted balanced found alive ?_
    intro other
    simp [Content.targets, undefinedSlot, targets_plain]

theorem mem_of_mapTarget {value : Variant} {id : Nat} (target : mapTarget value = some id) :
    id ∈ value.targets := by
  cases value with
  | plain value => cases target
  | shared type other => cases type <;> simp_all [mapTarget, Variant.targets]

theorem mem_of_stringTarget {value : Variant} {id : Nat} (target : stringTarget value = some id) :
    id ∈ value.targets := by
  cases value with
  | plain value => cases target
  | shared type other => cases type <;> simp_all [stringTarget, Variant.targets]

/-- The parts of a successful access. -/
theorem mapAccess_cases {memory accessed : Memory} {map key entry : Place} (exact : Exact memory)
    (liveMap : memory.holds map) (liveKey : memory.holds key)
    (access : mapAccess memory map key = some (accessed, entry)) :
    ∃ id object text, memory.heap[id]? = some object ∧ object.alive = true
      ∧ accessed = insertEntry memory id object text
      ∧ entry = .slot id (entryIndex object.content.slots text) := by
  obtain ⟨unfaulted, balanced⟩ := (exact_iff memory).mp exact
  obtain ⟨id, foundMap, access⟩ := Option.bind_eq_some_iff.mp access
  obtain ⟨name, foundKey, access⟩ := Option.bind_eq_some_iff.mp access
  obtain ⟨object, foundObject, access⟩ := Option.bind_eq_some_iff.mp access
  obtain ⟨string, foundString, access⟩ := Option.map_eq_some_iff.mp access
  have aliveMap : memory.isAlive id = true := by
    obtain ⟨value, foundValue, target⟩ := Option.bind_eq_some_iff.mp foundMap
    exact alive_of_read balanced liveMap foundValue (mem_of_mapTarget target)
  have aliveKey : memory.isAlive name = true := by
    obtain ⟨value, foundValue, target⟩ := Option.bind_eq_some_iff.mp foundKey
    exact alive_of_read balanced liveKey foundValue (mem_of_stringTarget target)
  obtain ⟨same, foundSame, living⟩ := (isAlive_iff memory id).mp aliveMap
  cases foundObject.symm.trans foundSame
  rw [use_of_isAlive aliveKey, use_of_isAlive aliveMap] at access
  cases access
  exact ⟨id, object, string.content.text, foundObject, living, rfl, rfl⟩

theorem Held.mono {before after : Memory} {without : Place} {id : Nat}
    (reads : ∀ place value, before.read place = some value → after.read place = some value)
    (reach : Held before without id) : Held after without id := by
  induction reach with
  | through other reached found points ih => exact .through other ih (reads _ _ found) points

theorem insertEntry_read {memory : Memory} {id : Nat} {object : SharedObject} (key : Text)
    (found : memory.heap[id]? = some object) (place : Place) (value : Variant)
    (stored : memory.read place = some value) :
    (insertEntry memory id object key).read place = some value := by
  unfold insertEntry
  split
  · exact stored
  · cases place with
    | root index => exact stored
    | slot owner index =>
        obtain ⟨holder, slot, foundHolder, foundSlot, rfl⟩ := read_slot stored
        by_cases same : id = owner
        · subst same
          cases found.symm.trans foundHolder
          have within := (List.getElem?_eq_some_iff.mp foundSlot).1
          simp [Memory.read, Memory.setContent, foundSlot,
            List.getElem?_set_self (List.getElem?_eq_some_iff.mp found).1,
            List.getElem?_append_left within]
        · simp [Memory.read, Memory.setContent, List.getElem?_set_ne same, foundHolder, foundSlot]

/-- The object of the Variant that is assigned is held, as well. -/
theorem Keeps.pointed {memory : Memory} {target source : Place} {value : Variant}
    (keeps : Keeps memory target source) (found : memory.read source = some value) (id : Nat)
    (points : id ∈ value.targets) : Held memory target id := by
  by_cases same : source = target
  · exact keeps.2 same value (same ▸ found) id points
  · exact .through same keeps.1 found points

theorem assign_step_exact {memory next : Memory} {target source : Place} (exact : Exact memory)
    (acyclic : Acyclic memory) (live : memory.holds target) (keeps : Keeps memory target source)
    (assigned : assign memory target source = some next) : Exact next := by
  obtain ⟨-, balanced⟩ := (exact_iff memory).mp exact
  refine assign_exact exact ?_ keeps.1 (fun value found => keeps.pointed found) assigned
  intro container inside
  cases target with
  | root index => cases inside
  | slot owner index =>
      cases inside
      exact held_owner index balanced acyclic (live _ rfl)

theorem propertySet_exact {memory next : Memory} {map key source : Place} (exact : Exact memory)
    (acyclic : Acyclic memory) (liveMap : memory.holds map) (liveKey : memory.holds key)
    (stored : (memory.read source).isSome = true)
    (safe : ∀ accessed entry, mapAccess memory map key = some (accessed, entry) →
      Keeps memory entry source)
    (assigned : propertySet memory map key source = some next) : Exact next := by
  obtain ⟨-, balanced⟩ := (exact_iff memory).mp exact
  obtain ⟨⟨accessed, entry⟩, access, assigned⟩ := Option.bind_eq_some_iff.mp assigned
  have keeps := safe accessed entry access
  obtain ⟨value, found⟩ := Option.isSome_iff_exists.mp stored
  obtain ⟨id, object, text, foundObject, living, rfl, rfl⟩ :=
    mapAccess_cases exact liveMap liveKey access
  have reads := insertEntry_read text foundObject
  have alive : memory.isAlive id = true := (isAlive_iff memory id).mpr ⟨object, foundObject, living⟩
  refine assign_exact (insertEntry_exact text exact foundObject living) ?_ ?_ ?_ assigned
  · intro container inside
    cases inside
    exact (held_owner _ balanced acyclic alive).mono reads
  · intro container inside
    exact (keeps.1 container inside).mono reads
  · intro other foundOther inner points
    cases (reads source value found).symm.trans foundOther
    exact (keeps.pointed found inner points).mono reads

/-! ## Objects with a class name -/

theorem releaseAll_locals (fuel : Nat) (pending : List Nat) (memory : Memory) :
    (releaseAll fuel pending memory).locals = memory.locals := by
  fun_induction releaseAll fuel pending memory with
  | case1 => rfl
  | case2 => rfl
  | case3 fuel id pending memory missing ih => exact ih
  | case4 fuel id pending memory object found dead ih => exact ih
  | case5 fuel id pending memory object found living last ih => exact ih
  | case6 fuel id pending memory object found living several ih => exact ih

theorem addRefTarget_locals (memory : Memory) (value : Variant) :
    (addRefTarget memory value).locals = memory.locals := by
  cases value with
  | plain value => rfl
  | shared type id =>
      simp only [addRefTarget, addRef]
      split <;> rfl

theorem assign_slot_locals {memory next : Memory} {id index : Nat} {source : Place}
    (assigned : assign memory (.slot id index) source = some next) : next.locals = memory.locals := by
  obtain ⟨old, -, assigned⟩ := Option.bind_eq_some_iff.mp assigned
  obtain ⟨value, -, rfl⟩ := Option.map_eq_some_iff.mp assigned
  have released : ((releaseTarget memory old).usePlace source).locals = memory.locals :=
    releaseAll_locals _ _ memory
  have added := addRefTarget_locals ((releaseTarget memory old).usePlace source) value
  simp only [Memory.write]
  split
  · exact added.trans released
  · exact added.trans released

theorem insertEntry_locals (memory : Memory) (id : Nat) (object : SharedObject) (key : Text) :
    (insertEntry memory id object key).locals = memory.locals := by
  unfold insertEntry
  split <;> rfl

/-- A name is set in an object to which a variable points. -/
theorem setName_exact {memory next : Memory} {id index : Nat} {type : SharedType} {name text : Text}
    (exact : Exact memory) (found : memory.read (.root index) = some (.shared type id))
    (named : setName memory id name text = some next) :
    Exact next ∧ next.read (.root index) = some (.shared type id) := by
  obtain ⟨-, balanced⟩ := (exact_iff memory).mp exact
  have rooted : ∀ position, memory.holds (.root position) := by simp [Memory.holds, Place.container]
  have alive := target_mem balanced (rooted index) found
  obtain ⟨object, foundObject, named⟩ := Option.bind_eq_some_iff.mp named
  obtain ⟨same, foundSame, living⟩ := (isAlive_iff memory id).mp alive
  cases foundObject.symm.trans foundSame
  rw [use_of_isAlive alive] at named
  obtain ⟨assigned, assignment, destroyed⟩ := Option.bind_eq_some_iff.mp named
  have sameLocals := insertEntry_locals memory id object name
  have within := (List.getElem?_eq_some_iff.mp (read_root found)).1
  have temporaryExact := createShared_exact (insertEntry_exact name exact foundObject living) .string text
  have locals : (createString (insertEntry memory id object name) text).locals
      = memory.locals ++ [some (Variant.shared .string (insertEntry memory id object name).heap.length)] := by
    simp only [createString, createShared, newVariable, sameLocals]
  have stillFound : (createString (insertEntry memory id object name) text).read (.root index)
      = some (.shared type id) := by
    simp only [Memory.read, locals, List.getElem?_append_left within]
    exact found
  have assignedExact : Exact assigned := by
    refine assign_exact temporaryExact ?_ (by simp [Place.container]) ?_ assignment
    · intro container inside
      cases inside
      exact .through (by simp) (by simp [Place.container]) stillFound (List.mem_singleton_self id)
    · intro value foundValue inner points
      exact .through (by simp) (by simp [Place.container]) foundValue points
  refine ⟨destroy_exact assignedExact destroyed, ?_⟩
  obtain ⟨value, foundValue, rfl⟩ := Option.map_eq_some_iff.mp destroyed
  have kept : (releaseTarget assigned value).locals
      = (createString (insertEntry memory id object name) text).locals :=
    (releaseAll_locals _ _ assigned).trans (assign_slot_locals assignment)
  have apart : memory.locals.length ≠ index := Nat.ne_of_gt within
  simp only [Memory.read, kept, List.getElem?_set_ne apart]
  exact stillFound

theorem createObject_exact {memory next : Memory} {className : Text} {baseClassName : Option Text}
    (exact : Exact memory) (created : createObject memory className baseClassName = some next) :
    Exact next := by
  obtain ⟨named, first, rest⟩ := Option.bind_eq_some_iff.mp created
  have found : (createShared memory .object ⟨[], []⟩).read (.root memory.locals.length)
      = some (.shared .object memory.heap.length) := by
    simp [createShared, newVariable, Memory.read]
  obtain ⟨namedExact, foundNamed⟩ := setName_exact (createShared_exact exact .object []) found first
  cases baseClassName with
  | none =>
      cases rest
      exact namedExact
  | some text => exact (setName_exact namedExact foundNamed rest).1

/-! ## Runs -/

theorem isLive_iff (memory : Memory) (place : Place) :
    memory.isLive place = true ↔ (memory.read place).isSome = true ∧ memory.holds place := by
  rw [Memory.isLive, Bool.and_eq_true, holds_iff]

/-- One step of a program. -/
theorem step_exact {memory next : Memory} {operation : Operation} (exact : Exact memory)
    (acyclic : Acyclic memory) (safe : Safe memory operation)
    (stepped : machine.step memory operation = some next) : Exact next := by
  obtain ⟨live, performed⟩ := Option.ite_none_right_eq_some.mp stepped
  cases operation with
  | createPlain value =>
      cases performed
      exact createPlain_exact exact value
  | createString text =>
      cases performed
      exact createShared_exact exact .string text
  | createArray =>
      cases performed
      exact createShared_exact exact .array []
  | createMap =>
      cases performed
      exact createShared_exact exact .map []
  | createObject className baseClassName => exact createObject_exact exact performed
  | copy source =>
      simp only [Operation.places, List.all_cons, List.all_nil, Bool.and_true, isLive_iff] at live
      exact copy_exact exact live.2 performed
  | assign target source =>
      simp only [Operation.places, List.all_cons, List.all_nil, Bool.and_true, Bool.and_eq_true,
        isLive_iff] at live
      exact assign_step_exact exact acyclic live.1.2 safe performed
  | concat left right =>
      simp only [Operation.places, List.all_cons, List.all_nil, Bool.and_true, Bool.and_eq_true,
        isLive_iff] at live
      exact concat_exact exact live.1.2 live.2.2 safe performed
  | arrayPush array item =>
      simp only [Operation.places, List.all_cons, List.all_nil, Bool.and_true, Bool.and_eq_true,
        isLive_iff] at live
      exact arrayPush_exact exact live.1.2 live.2.2 performed
  | arrayAccess array index =>
      simp only [Operation.places, List.all_cons, List.all_nil, Bool.and_true, isLive_iff] at live
      exact arrayAccess_exact exact live.2 performed
  | mapAccess map key =>
      simp only [Operation.places, List.all_cons, List.all_nil, Bool.and_true, Bool.and_eq_true,
        isLive_iff] at live
      obtain ⟨⟨accessed, entry⟩, access, rfl⟩ := Option.map_eq_some_iff.mp performed
      obtain ⟨id, object, text, found, living, rfl, -⟩ :=
        mapAccess_cases exact live.1.2 live.2.2 access
      exact insertEntry_exact text exact found living
  | propertySet map key value =>
      simp only [Operation.places, List.all_cons, List.all_nil, Bool.and_true, Bool.and_eq_true,
        isLive_iff] at live
      exact propertySet_exact exact acyclic live.1.2 live.2.1.2 live.2.2.1 safe performed
  | destroy index => exact destroy_exact exact performed

theorem empty_exact : Exact Memory.empty := by
  refine ⟨rfl, ?_, ?_, ?_⟩
  · intro id referenced
    exact absurd referenced (by simp [Memory.pointers, Memory.empty, Memory.outside, references, outgoing])
  · intro id object found
    cases found
  · intro id object found
    cases found

/-- In every run of a program that creates no cycle and keeps to the conditions, the
counters are exact. -/
theorem run_exact {operations : List Operation} {final : Memory}
    (allowed : machine.AllSteps
      (fun memory operation => CreatesNoCycle memory operation ∧ Safe memory operation)
      Memory.empty operations)
    (reached : machine.run Memory.empty operations = some final) : Exact final := by
  have initial : Exact Memory.empty ∧ Acyclic Memory.empty :=
    ⟨empty_exact, fun _ => 0, fun _ _ found => by cases found⟩
  have preserved : ∀ memory operation next, Exact memory ∧ Acyclic memory →
      CreatesNoCycle memory operation ∧ Safe memory operation →
      machine.step memory operation = some next → Exact next ∧ Acyclic next := by
    intro memory operation next held condition stepped
    exact ⟨step_exact held.1 held.2 condition.2 stepped, condition.1 next stepped⟩
  exact (Machine.run_invariant preserved initial allowed reached).1

/-- Objects only contain objects that were created behind them. -/
def increasing (memory : Memory) : Bool :=
  (memory.heap.mapIdx fun id object =>
    object.content.targets.all fun inner => id < inner && inner < memory.heap.length).all id

theorem createsNoCycle_of_increasing {memory : Memory} {operation : Operation}
    (checked : (machine.step memory operation).all increasing = true) :
    CreatesNoCycle memory operation := by
  intro next stepped
  rw [stepped, Option.all_some, increasing, List.all_eq_true] at checked
  refine ⟨fun id => next.heap.length - id, ?_⟩
  intro id object found alive inner inside
  have listed : (next.heap.mapIdx fun id object =>
      object.content.targets.all fun inner => id < inner && inner < next.heap.length)[id]?
      = some (object.content.targets.all fun inner => id < inner && inner < next.heap.length) := by
    rw [List.getElem?_mapIdx, found, Option.map_some]
  have all := checked _ (List.mem_of_getElem? listed)
  have one := List.all_eq_true.mp all inner inside
  simp only [Bool.and_eq_true, decide_eq_true_eq] at one
  show next.heap.length - inner < next.heap.length - id
  omega

/-- A Variant is overwritten by an item of its own array, which another variable holds. -/
theorem run_exact_element :
    ∃ final, machine.run Memory.empty
        [.createArray, .createString ['a'], .arrayPush (.root 0) (.root 1), .copy (.root 0),
          .assign (.root 0) (.slot 0 0)]
      = some final ∧ Exact final := by
  have allowed : machine.AllSteps
      (fun memory operation => CreatesNoCycle memory operation ∧ Safe memory operation) Memory.empty
      [.createArray, .createString ['a'], .arrayPush (.root 0) (.root 1), .copy (.root 0),
        .assign (.root 0) (.slot 0 0)] := by
    refine ⟨⟨createsNoCycle_of_increasing (by decide), trivial⟩, fun next stepped => ?_⟩
    cases stepped
    refine ⟨⟨createsNoCycle_of_increasing (by decide), trivial⟩, fun next stepped => ?_⟩
    cases stepped
    refine ⟨⟨createsNoCycle_of_increasing (by decide), trivial⟩, fun next stepped => ?_⟩
    cases stepped
    refine ⟨⟨createsNoCycle_of_increasing (by decide), trivial⟩, fun next stepped => ?_⟩
    cases stepped
    refine ⟨⟨createsNoCycle_of_increasing (by decide), ?_, ?_⟩, fun next stepped => trivial⟩
    · intro container inside
      cases inside
      have other : Place.root 2 ≠ .root 0 := by decide
      exact .through other (by simp [Place.container]) rfl (List.mem_singleton_self 0)
    · intro same
      cases same
  obtain ⟨final, reached⟩ := Option.isSome_iff_exists.mp
    (by decide : (machine.run Memory.empty
      [.createArray, .createString ['a'], .arrayPush (.root 0) (.root 1), .copy (.root 0),
        .assign (.root 0) (.slot 0 0)]).isSome = true)
  exact ⟨final, reached, run_exact allowed reached⟩

/-- A destroyed object has been used or the counter of a live one is wrong. -/
def violated (memory : Memory) : Bool :=
  memory.faulted
    || (List.range memory.heap.length).any fun id =>
      (memory.heap[id]?).any fun object => object.alive && object.refCount != memory.pointers id

theorem not_exact_of_violated {memory : Memory} (wrong : violated memory = true) : ¬ Exact memory := by
  intro exact
  rw [violated, exact.unfaulted, Bool.false_or, List.any_eq_true] at wrong
  obtain ⟨id, -, wrong⟩ := wrong
  obtain ⟨object, found, wrong⟩ := (Option.any_eq_true _ _).mp wrong
  simp only [Bool.and_eq_true, bne_iff_ne, ne_eq] at wrong
  exact wrong.2 (exact.counted id object found wrong.1)

/-- A run without cycles after which the counters are not exact. -/
def Breaks (operations : List Operation) : Prop :=
  machine.AllSteps CreatesNoCycle Memory.empty operations
    ∧ ∃ final, machine.run Memory.empty operations = some final ∧ ¬ Exact final

theorem breaks_of_violated {operations : List Operation}
    (increases : machine.AllSteps
      (fun memory operation => (machine.step memory operation).all increasing = true)
      Memory.empty operations)
    (wrong : (machine.run Memory.empty operations).map violated = some true) : Breaks operations := by
  obtain ⟨final, reached, violation⟩ := Option.map_eq_some_iff.mp wrong
  exact ⟨increases.mono fun _ _ => createsNoCycle_of_increasing, final, reached,
    not_exact_of_violated violation⟩

/-- A Variant that holds the only pointer to a string is assigned to itself, or is
overwritten by an item of its own array; a string that two Variants share is concatenated. -/
theorem run_not_exact :
    Breaks [.createString ['a'], .assign (.root 0) (.root 0)]
      ∧ Breaks [.createArray, .createString ['a'], .arrayPush (.root 0) (.root 1),
        .assign (.root 0) (.slot 0 0)]
      ∧ Breaks [.createString ['a'], .copy (.root 0), .concat (.root 0) (.root 1)] :=
  ⟨breaks_of_violated (by decide) (by decide), breaks_of_violated (by decide) (by decide),
    breaks_of_violated (by decide) (by decide)⟩

end Tegenaria.LibVariant
