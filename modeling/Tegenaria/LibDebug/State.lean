import Mathlib.Data.List.Lex
import Mathlib.Data.Char
import Mathlib.Data.Multiset.AddSub
import Mathlib.Data.Multiset.Filter
import Mathlib.Data.Multiset.MapFold
import Tegenaria.Foundation.OrderedMap
import Tegenaria.Foundation.Transition
import Tegenaria.LibStr.Text

/-!
# The monitor of objects

The objects of the process are listed by sets, each with the number of times it was added and with a
name.  A call changes the sets under a lock, and takes the lock again to write the sets to a file.
-/

namespace Tegenaria.LibDebug

open Foundation LibStr

/-! ## The sets -/

structure DbgObject where
  count_ : Int
  name_ : Text

abbrev DbgSets := OrderedMap Text (OrderedMap Nat DbgObject)

/-- `DbgSet[setName]`, which makes a set that is missing. -/
def openSet (sets : DbgSets) (setName : Text) : DbgSets :=
  match sets.find setName with
  | some _ => sets
  | none => sets.assign setName OrderedMap.empty

def currentSet (sets : DbgSets) (setName : Text) : OrderedMap Nat DbgObject :=
  (sets.find setName).getD OrderedMap.empty

/-- The object of a set, if it is there. -/
def object? (sets : DbgSets) (setName : Text) (id : Nat) : Option DbgObject :=
  (currentSet sets setName).find id

def storeObject (sets : DbgSets) (setName : Text) (id : Nat) (object : DbgObject) : DbgSets :=
  sets.assign setName ((currentSet sets setName).assign id object)

def eraseObject (sets : DbgSets) (setName : Text) (id : Nat) : DbgSets :=
  sets.assign setName ((currentSet sets setName).remove id)

/-- The object is written back, or erased if its counter has decreased to zero. -/
def storeOrErase (sets : DbgSets) (setName : Text) (id : Nat) (object : DbgObject) : DbgSets :=
  if object.count_ ≤ 0 then eraseObject sets setName id else storeObject sets setName id object

/-! ## Names -/

/-- Buffers of names have 64 bytes. -/
def nameSize : Nat := 63

/-- `#id` or `0xid`. -/
def idText (id : Nat) : Text :=
  if id < 64000 then '#' :: Nat.toDigits 10 id else ['0', 'x'] ++ Nat.toDigits 16 id

/-- `[#id!name]` or `[0xid!name]` in the buffer of the object. -/
def fullName (id : Nat) (name : Text) : Text :=
  (['['] ++ idText id ++ ['!'] ++ name.take nameSize ++ [']']).take nameSize

/-- A text that is given to `printf` as its format, with no arguments behind it. -/
def reformat : Text → Option Text
  | [] => some []
  | '%' :: '%' :: rest => (reformat rest).map ('%' :: ·)
  | '%' :: _ => none
  | letter :: rest => (reformat rest).map (letter :: ·)

/-! ## What is done under the lock -/

/-- A text that is formatted was formatted before. -/
def DbgSetAdd (sets : DbgSets) (setName : Text) (id : Nat) (fmtName : Option Text) : DbgSets :=
  let object := (object? sets setName id).getD { count_ := 0, name_ := [] }
  let name_ :=
    match fmtName with
    | some name => fullName id name
    | none => (idText id).take nameSize
  storeObject sets setName id { count_ := object.count_ + 1, name_ }

/-- The variant for pointers formats the name, and gives it to the other one as the format. -/
def DbgSetAddPointer (sets : DbgSets) (setName : Text) (ptr : Nat) (fmt : Option Text) : Option DbgSets :=
  match fmt with
  | some name => (reformat (name.take nameSize)).map fun name => DbgSetAdd sets setName ptr (some name)
  | none => some (DbgSetAdd sets setName ptr none)

def DbgSetDel (sets : DbgSets) (setName : Text) (id : Nat) : DbgSets :=
  let sets := openSet sets setName
  match object? sets setName id with
  | some object => storeOrErase sets setName id { object with count_ := object.count_ - 1 }
  | none => sets

/-- The counter of the source is decreased first, so that the sets may be the same. -/
def DbgSetMove (sets : DbgSets) (dstSet srcSet : Text) (id : Nat) : DbgSets :=
  let sets := openSet (openSet sets srcSet) dstSet
  match object? sets srcSet id with
  | some object =>
      let sets := storeObject sets srcSet id { object with count_ := object.count_ - 1 }
      let moved := (object? sets dstSet id).getD { count_ := 0, name_ := [] }
      let sets := storeObject sets dstSet id { count_ := moved.count_ + 1, name_ := object.name_ }
      match object? sets srcSet id with
      | some left => storeOrErase sets srcSet id left
      | none => sets
  | none => sets

def DbgSetRename (sets : DbgSets) (setName : Text) (id : Nat) (fmtName : Text) : DbgSets :=
  let sets := openSet sets setName
  match object? sets setName id with
  | some object => storeObject sets setName id { object with name_ := fullName id fmtName }
  | none => sets

/-! ## The snapshot -/

/-- `"%20s : {"` in a buffer of 64 bytes. -/
def head (setName : Text) : Text :=
  (List.replicate (20 - setName.length) ' ' ++ setName ++ " : \x7b".toList).take nameSize

/-- The objects of a set, each once for each time it was added. -/
def members (set : OrderedMap Nat DbgObject) : List (Nat × Text) :=
  set.entries.flatMap fun object => List.replicate object.2.count_.toNat (object.1, object.2.name_)

def line (set : Text × OrderedMap Nat DbgObject) : Text :=
  head set.1 ++ (members set.2).flatMap (fun member => member.2 ++ ", ".toList) ++ "\x7d\n".toList

/-- What `DbgSetDump` writes, with zeros over what an earlier snapshot may have left. -/
def snapshot (sets : DbgSets) : Text :=
  "------------- BEGIN OF SNAPSHOT ------------\n".toList ++ sets.entries.flatMap line ++
    "-------------- END OF SNAPSHOT -------------\n".toList ++ List.replicate 1024 '\x00'

/-- `write` at the begin of a file. -/
def overwrite (file text : Text) : Text := text ++ file.drop text.length

/-! ## The threads -/

inductive Call where
  | add (setName : Text) (id : Nat) (name : Option Text)
  | addPointer (setName : Text) (ptr : Nat) (name : Option Text)
  | del (setName : Text) (id : Nat)
  | move (dstSet srcSet : Text) (id : Nat)
  | rename (setName : Text) (id : Nat) (name : Text)

/-- What a call does under the lock.  It is undefined if it reads arguments that it was not given. -/
def Call.run (sets : DbgSets) : Call → Option DbgSets
  | .add setName id name => some (DbgSetAdd sets setName id name)
  | .addPointer setName ptr name => DbgSetAddPointer sets setName ptr name
  | .del setName id => some (DbgSetDel sets setName id)
  | .move dstSet srcSet id => some (DbgSetMove sets dstSet srcSet id)
  | .rename setName id name => some (DbgSetRename sets setName id name)

/-- The sets, the file with the snapshot, and the threads that have changed the sets and have still to
write the snapshot. -/
structure Monitor where
  sets : DbgSets
  file : Text
  dumping : List Nat

inductive Label where
  | call (thread : Nat) (call : Call)
  | dump (thread : Nat)
deriving Inhabited

/-- A thread is inside of one call at a time; a snapshot may also be asked for outside of a call. -/
def monitor : Machine Monitor Label where
  step
    | state, .call thread call =>
        if thread ∈ state.dumping then none
        else (call.run state.sets).map fun sets =>
          { state with sets, dumping := thread :: state.dumping }
    | state, .dump thread =>
        some { state with
          file := overwrite state.file (snapshot state.sets), dumping := state.dumping.erase thread }

def DbgSetInit : Monitor := { sets := OrderedMap.empty, file := [], dumping := [] }

/-! ## The objects that are monitored -/

/-- What the calls are for: a multiset of pairs of a set and an object. -/
def Call.effect (objects : Multiset (Text × Nat)) : Call → Multiset (Text × Nat)
  | .add setName id _ => (setName, id) ::ₘ objects
  | .addPointer setName ptr _ => (setName, ptr) ::ₘ objects
  | .del setName id => objects.erase (setName, id)
  | .move dstSet srcSet id =>
      if (srcSet, id) ∈ objects then (dstSet, id) ::ₘ objects.erase (srcSet, id) else objects
  | .rename _ _ _ => objects

def Label.effect (objects : Multiset (Text × Nat)) : Label → Multiset (Text × Nat)
  | .call _ request => request.effect objects
  | .dump _ => objects

/-- How often an object is in a set. -/
@[grind =] def tally (sets : DbgSets) (setName : Text) (id : Nat) : Int :=
  ((object? sets setName id).map DbgObject.count_).getD 0

/-- The sets hold the monitored objects, and no object with a counter that is not positive. -/
structure Holds (sets : DbgSets) (objects : Multiset (Text × Nat)) : Prop where
  positive : ∀ setName id object, object? sets setName id = some object → 0 < object.count_
  tally : ∀ setName id, tally sets setName id = objects.count (setName, id)

variable {sets : DbgSets} {objects : Multiset (Text × Nat)} {setName other : Text} {id key : Nat}
  {object : DbgObject}

theorem currentSet_openSet : currentSet (openSet sets setName) other = currentSet sets other := by
  rw [openSet]
  split
  · rfl
  · next missing =>
      rw [currentSet, OrderedMap.find_assign, currentSet]
      split
      · next same => rw [same, missing, Option.getD_none, Option.getD_some]
      · rfl

@[simp] theorem object_openSet : object? (openSet sets setName) other key = object? sets other key := by
  rw [object?, currentSet_openSet, object?]

theorem currentSet_assign {set : OrderedMap Nat DbgObject} :
    currentSet (sets.assign setName set) other = if other = setName then set else currentSet sets other := by
  rw [currentSet, OrderedMap.find_assign]
  split <;> rfl

@[simp] theorem object_storeObject : object? (storeObject sets setName id object) other key =
    if other = setName ∧ key = id then some object else object? sets other key := by
  rw [object?, storeObject, currentSet_assign]
  by_cases same : other = setName
  · rw [if_pos same, OrderedMap.find_assign, same, object?]
    simp only [true_and]
  · rw [if_neg same, if_neg fun both => same both.1, object?]

@[simp] theorem object_eraseObject : object? (eraseObject sets setName id) other key =
    if other = setName ∧ key = id then none else object? sets other key := by
  rw [object?, eraseObject, currentSet_assign]
  by_cases same : other = setName
  · rw [if_pos same, OrderedMap.find_remove, same, object?]
    simp only [true_and]
  · rw [if_neg same, if_neg fun both => same both.1, object?]

theorem object_storeOrErase : object? (storeOrErase sets setName id object) other key =
    if other = setName ∧ key = id then if object.count_ ≤ 0 then none else some object
    else object? sets other key := by
  rw [storeOrErase]
  by_cases none_left : object.count_ ≤ 0
  · rw [if_pos none_left, if_pos none_left, object_eraseObject]
  · rw [if_neg none_left, if_neg none_left, object_storeObject]

theorem tally_eq (found : object? sets setName id = some object) : tally sets setName id = object.count_ := by
  rw [tally, found, Option.map_some, Option.getD_some]

theorem tally_of_none (missing : object? sets setName id = none) : tally sets setName id = 0 := by
  rw [tally, missing, Option.map_none, Option.getD_none]

@[simp] theorem tally_openSet : tally (openSet sets setName) other key = tally sets other key := by
  rw [tally, object_openSet, tally]

theorem tally_storeObject : tally (storeObject sets setName id object) other key =
    if other = setName ∧ key = id then object.count_ else tally sets other key := by
  rw [tally, object_storeObject, tally]
  split <;> rfl

theorem tally_eraseObject : tally (eraseObject sets setName id) other key =
    if other = setName ∧ key = id then 0 else tally sets other key := by
  rw [tally, object_eraseObject, tally]
  split <;> rfl

/-- The counter that a new object starts with. -/
theorem count_getD :
    ((object? sets setName id).getD { count_ := 0, name_ := [] }).count_ = tally sets setName id := by
  rw [tally]
  cases object? sets setName id <;> rfl

/-- The counters behind one object more. -/
theorem count_added (objects : Multiset (Text × Nat)) (setName : Text) (id : Nat) (other : Text) (key : Nat) :
    (if other = setName ∧ key = id then (objects.count (setName, id) : Int) + 1
      else objects.count (other, key)) = ((setName, id) ::ₘ objects).count (other, key) := by
  rw [Multiset.count_cons]
  simp only [Prod.mk.injEq]
  split
  · next same => rw [same.1, same.2]; rfl
  · rfl

/-- The counters behind one object less. -/
theorem count_erased {count : Int} (nonneg : 0 ≤ count) (found : count + 1 = objects.count (setName, id))
    (other : Text) (key : Nat) :
    (if other = setName ∧ key = id then count else objects.count (other, key)) =
      (objects.erase (setName, id)).count (other, key) := by
  split
  · next same =>
      rw [same.1, same.2, Multiset.count_erase_self]
      omega
  · next different =>
      have apart : (other, key) ≠ (setName, id) := fun both => by
        cases both
        exact different ⟨rfl, rfl⟩
      rw [Multiset.count_erase_of_ne apart]

namespace Holds

variable {after : Multiset (Text × Nat)}

/-- Only the objects matter, not whether an empty set is listed. -/
theorem congr {same : DbgSets} (holds : Holds sets objects)
    (equal : ∀ setName id, object? same setName id = object? sets setName id) : Holds same objects where
  positive other key object found := holds.positive other key object (by rw [← equal, found])
  tally other key := by
    rw [LibDebug.tally, equal]
    exact holds.tally other key

theorem openSet (holds : Holds sets objects) (setName : Text) : Holds (openSet sets setName) objects where
  positive other key object found := holds.positive other key object (object_openSet ▸ found)
  tally other key := by rw [tally_openSet, holds.tally]

theorem mem_iff (holds : Holds sets objects) :
    (setName, id) ∈ objects ↔ ∃ object, object? sets setName id = some object := by
  rw [← Multiset.count_pos, ← Int.natCast_pos, ← holds.tally]
  cases found : object? sets setName id with
  | none => rw [tally_of_none found]; simp
  | some object => rw [tally_eq found]; simp [holds.positive _ _ _ found]

/-- A counter that is written back is that of the object in the new multiset. -/
theorem store (holds : Holds sets objects) (positive : 0 < object.count_)
    (tally : ∀ other key, (if other = setName ∧ key = id then object.count_ else objects.count (other, key)) =
      after.count (other, key)) : Holds (storeObject sets setName id object) after where
  positive other key found stored := by
    rw [object_storeObject] at stored
    split at stored
    · cases stored
      exact positive
    · exact holds.positive _ _ _ stored
  tally other key := by
    rw [tally_storeObject, holds.tally, ← tally]

theorem storeOrErase (holds : Holds sets objects) (nonneg : 0 ≤ object.count_)
    (tally : ∀ other key, (if other = setName ∧ key = id then object.count_ else objects.count (other, key)) =
      after.count (other, key)) : Holds (storeOrErase sets setName id object) after := by
  rw [LibDebug.storeOrErase]
  split
  · next small =>
      have zero : object.count_ = 0 := by omega
      exact {
        positive := fun other key found stored => by
          rw [object_eraseObject] at stored
          split at stored
          · cases stored
          · exact holds.positive _ _ _ stored
        tally := fun other key => by
          rw [tally_eraseObject, holds.tally, ← tally, zero] }
  · next large => exact holds.store (by omega) tally

theorem add (holds : Holds sets objects) (fmtName : Option Text) :
    Holds (DbgSetAdd sets setName id fmtName) ((setName, id) ::ₘ objects) := by
  unfold DbgSetAdd
  refine holds.store ?_ fun other key => ?_
  · dsimp only
    rw [count_getD, holds.tally]
    omega
  · dsimp only
    rw [count_getD, holds.tally, count_added]

theorem del (holds : Holds sets objects) :
    Holds (DbgSetDel sets setName id) (objects.erase (setName, id)) := by
  rw [DbgSetDel]
  have opened := holds.openSet setName
  simp only [object_openSet]
  cases found : object? sets setName id with
  | none =>
      have absent : (setName, id) ∉ objects := fun member => by
        obtain ⟨object, present⟩ := holds.mem_iff.mp member
        rw [found] at present
        cases present
      rw [Multiset.erase_of_notMem absent]
      exact opened
  | some object =>
      have positive := holds.positive _ _ _ found
      have count : object.count_ = objects.count (setName, id) := by rw [← tally_eq found, holds.tally]
      have left : 0 ≤ object.count_ - 1 := Int.sub_nonneg_of_le positive
      exact opened.storeOrErase left (count_erased left (by rw [← count]; exact Int.sub_add_cancel _ _))

theorem rename (holds : Holds sets objects) (name : Text) : Holds (DbgSetRename sets setName id name) objects := by
  rw [DbgSetRename]
  have opened := holds.openSet setName
  simp only [object_openSet]
  cases found : object? sets setName id with
  | none => exact opened
  | some object =>
      have positive : 0 < object.count_ := holds.positive _ _ _ found
      refine opened.store positive fun other key => ?_
      split
      · next same => rw [same.1, same.2, ← holds.tally, tally_eq found]
      · rfl

/-- An object that is moved into its own set stays there; else its counter goes over by one. -/
theorem move {dstSet srcSet : Text} (holds : Holds sets objects) :
    Holds (DbgSetMove sets dstSet srcSet id)
      (if (srcSet, id) ∈ objects then (dstSet, id) ::ₘ objects.erase (srcSet, id) else objects) := by
  unfold DbgSetMove
  have opened := (holds.openSet srcSet).openSet dstSet
  simp only [object_openSet]
  cases found : object? sets srcSet id with
  | none =>
      have absent : (srcSet, id) ∉ objects := fun member => by
        obtain ⟨object, present⟩ := holds.mem_iff.mp member
        rw [found] at present
        cases present
      rw [if_neg absent]
      exact opened
  | some object =>
      rw [if_pos (holds.mem_iff.mpr ⟨object, found⟩)]
      have positive := holds.positive _ _ _ found
      have count : object.count_ = objects.count (srcSet, id) := by rw [← tally_eq found, holds.tally]
      simp only [object_storeObject]
      by_cases same : srcSet = dstSet
      · subst same
        have member := holds.mem_iff.mpr ⟨object, found⟩
        have stored : Holds (storeObject (LibDebug.openSet (LibDebug.openSet sets srcSet) srcSet) srcSet id object)
            objects :=
          opened.store positive fun other key => by
            split
            · next atObject => rw [atObject.1, atObject.2, count]
            · rfl
        simp only [and_self, if_true, Option.getD_some, Multiset.cons_erase member, Int.sub_add_cancel]
        refine stored.congr fun other key => ?_
        simp only [object_storeOrErase, object_storeObject, if_neg (Int.not_le.mpr positive)]
        split <;> rfl
      · have left : Holds (LibDebug.storeOrErase (LibDebug.openSet (LibDebug.openSet sets srcSet) dstSet) srcSet id
            { object with count_ := object.count_ - 1 }) (objects.erase (srcSet, id)) :=
          opened.storeOrErase (Int.sub_nonneg_of_le positive)
            (count_erased (Int.sub_nonneg_of_le positive) (by rw [← count]; exact Int.sub_add_cancel _ _))
        have apart : (dstSet, id) ≠ (srcSet, id) := fun both => same (congrArg Prod.fst both).symm
        have before : (LibDebug.tally sets dstSet id) = (objects.erase (srcSet, id)).count (dstSet, id) := by
          rw [holds.tally, Multiset.count_erase_of_ne apart]
        have stored : Holds (storeObject (LibDebug.storeOrErase
            (LibDebug.openSet (LibDebug.openSet sets srcSet) dstSet) srcSet id
              { object with count_ := object.count_ - 1 }) dstSet id
                { count_ := LibDebug.tally sets dstSet id + 1, name_ := object.name_ })
            ((dstSet, id) ::ₘ objects.erase (srcSet, id)) :=
          left.store (by dsimp only; omega) (by dsimp only; rw [before]; exact count_added _ dstSet id)
        simp only [same, false_and, if_false, and_self, if_true]
        refine stored.congr fun other key => ?_
        simp only [object_storeOrErase, object_storeObject, object_openSet, Ne.symm same, false_and, if_false,
          count_getD]
        by_cases atSource : other = srcSet ∧ key = id
        · have notMoved : ¬(other = dstSet ∧ key = id) := fun atTarget =>
            same (atSource.1.symm.trans atTarget.1)
          rw [if_pos atSource, if_neg notMoved, if_pos atSource]
        · simp only [if_neg atSource]

end Holds

/-- Every call does to the sets what it is for. -/
theorem Call.holds {call : Call} {after : DbgSets} (holds : Holds sets objects) (done : call.run sets = some after) :
    Holds after (call.effect objects) := by
  cases call with
  | add setName id name =>
      cases done
      exact holds.add name
  | addPointer setName ptr name =>
      rw [Call.run] at done
      cases name with
      | none =>
          cases done
          exact holds.add none
      | some name =>
          obtain ⟨name, -, rfl⟩ := Option.map_eq_some_iff.mp done
          exact holds.add (some name)
  | del setName id =>
      cases done
      exact holds.del
  | move dstSet srcSet id =>
      cases done
      exact holds.move
  | rename setName id name =>
      cases done
      exact holds.rename name

/-- The snapshot names an object as often as its counter says. -/
theorem count_members {set : OrderedMap Nat DbgObject} :
    ((members set).map Prod.fst).count id = ((set.find id).map (·.count_.toNat)).getD 0 := by
  obtain ⟨entries, increasing⟩ := set
  rw [members, OrderedMap.find]
  induction entries with
  | nil => rfl
  | cons first rest ih =>
      obtain ⟨smallest, restIncreasing⟩ := List.pairwise_cons.mp increasing
      have later := ih restIncreasing
      rw [List.flatMap_cons, List.map_append, List.count_append, later, List.map_replicate,
        List.count_replicate, OrderedMap.valueAt]
      by_cases same : id = first.1
      · have missing : OrderedMap.valueAt id rest = none :=
          OrderedMap.valueAt_eq_none.mpr fun entry member equal =>
            lt_irrefl _ (same ▸ equal ▸ smallest entry member)
        rw [if_pos same, missing, if_pos (by rw [same]; exact beq_self_eq_true _)]
        exact Nat.add_zero _
      · have different : ¬(first.1 == id) = true := fun equal => same (eq_of_beq equal).symm
        rw [if_neg same, if_neg different, Nat.zero_add]

theorem Holds.empty : Holds OrderedMap.empty 0 where
  positive _ _ _ found := by cases found
  tally _ _ := rfl

theorem Holds.run {state final : Monitor} {labels : List Label} (holds : Holds state.sets objects)
    (reached : monitor.run state labels = some final) :
    Holds final.sets (labels.foldl Label.effect objects) := by
  induction labels generalizing state objects with
  | nil =>
      cases reached
      exact holds
  | cons label labels ih =>
      obtain ⟨next, stepped, rest⟩ := Machine.run_cons_eq_some.mp reached
      refine ih ?_ rest
      cases label with
      | call thread request =>
          obtain ⟨-, stepped⟩ := Option.ite_none_left_eq_some.mp stepped
          obtain ⟨sets, done, rfl⟩ := Option.map_eq_some_iff.mp stepped
          exact Call.holds holds done
      | dump thread =>
          cases stepped
          exact holds

theorem Holds.members (holds : Holds sets objects) (setName : Text) :
    ((members (currentSet sets setName)).map Prod.fst : Multiset Nat) =
      (objects.filter (·.1 = setName)).map Prod.snd := by
  refine Multiset.ext.mpr fun id => ?_
  have listed : ((currentSet sets setName).find id).map (·.count_.toNat) =
      ((object? sets setName id).map DbgObject.count_).map Int.toNat := by
    rw [object?, Option.map_map]
    rfl
  have counted : (((object? sets setName id).map DbgObject.count_).map Int.toNat).getD 0 =
      objects.count (setName, id) := by
    have same := holds.tally setName id
    rw [LibDebug.tally] at same
    cases found : (object? sets setName id).map DbgObject.count_ with
    | none =>
        rw [found] at same
        exact Int.natCast_inj.mp same
    | some count =>
        rw [found] at same
        exact (congrArg Int.toNat same).trans (Int.toNat_natCast _)
  rw [Multiset.coe_count, count_members, listed, counted, Multiset.count_map, Multiset.filter_filter,
    Multiset.count_eq_card_filter_eq]
  congr 1
  refine Multiset.filter_congr fun object _ => ?_
  rw [Prod.ext_iff, and_comm, eq_comm (a := id), eq_comm (a := setName)]

theorem step_shows {state next : Monitor} {label : Label} (stepped : monitor.step state label = some next)
    (idle : next.dumping = []) : snapshot next.sets <+: next.file := by
  cases label with
  | call thread request =>
      obtain ⟨-, stepped⟩ := Option.ite_none_left_eq_some.mp stepped
      obtain ⟨sets, -, rfl⟩ := Option.map_eq_some_iff.mp stepped
      cases idle
  | dump thread =>
      cases stepped
      exact List.prefix_append _ _

/-- The file begins with the snapshot of the sets whenever no thread is inside of a call. -/
theorem run_shows {state final : Monitor} {labels : List Label} (some_step : labels ≠ [])
    (reached : monitor.run state labels = some final) (idle : final.dumping = []) :
    snapshot final.sets <+: final.file := by
  obtain ⟨earlier, last, rfl⟩ := (List.eq_nil_or_concat labels).resolve_left some_step
  rw [List.concat_eq_append] at reached
  obtain ⟨middle, -, stepped⟩ := Machine.run_append_eq_some.mp reached
  obtain ⟨next, stepped, same⟩ := Machine.run_cons_eq_some.mp stepped
  cases same
  exact step_shows stepped idle

/-- In every run of the threads the sets hold exactly what was added and not deleted, in the set it was
moved to last, with no counter at zero.  The snapshot lists each of these objects once for each time it
was added, and it is at the begin of the file whenever no thread is inside of a call. -/
theorem run_monitors {labels : List Label} {state : Monitor}
    (reached : monitor.run DbgSetInit labels = some state) :
    Holds state.sets (labels.foldl Label.effect 0) ∧
      (∀ setName, ((members (currentSet state.sets setName)).map Prod.fst : Multiset Nat) =
        ((labels.foldl Label.effect 0).filter (·.1 = setName)).map Prod.snd) ∧
      (labels ≠ [] → state.dumping = [] → snapshot state.sets <+: state.file) :=
  have holds : Holds state.sets (labels.foldl Label.effect 0) := Holds.run Holds.empty reached
  ⟨holds, holds.members, fun some_step idle => run_shows some_step reached idle⟩

/-- Two threads: a socket that is accepted, named and moved, and one that is closed. -/
def sockets : List Label :=
  [.call 1 (.add ['i', 'n'] 5 none), .call 2 (.add ['i', 'n'] 6 none), .dump 1,
    .call 1 (.move ['o', 'u', 't'] ['i', 'n'] 5), .dump 2, .call 2 (.del ['i', 'n'] 6), .dump 1, .dump 2]

theorem run_monitors_sockets : ∃ state, monitor.run DbgSetInit sockets = some state ∧
    Holds state.sets (sockets.foldl Label.effect 0) :=
  ⟨_, rfl, (run_monitors rfl).1⟩

end Tegenaria.LibDebug
