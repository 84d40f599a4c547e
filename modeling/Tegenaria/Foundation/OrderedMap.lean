import Mathlib.Data.List.Induction
import Mathlib.Order.Defs.LinearOrder
import Mathlib.Data.List.Pairwise
import Mathlib.Data.List.Sort

/-!
# Maps with ordered keys

A map is the list of its entries, with keys that increase strictly, so two maps
with the same values at all keys are equal.  Assigning and removing keep the order,
and a list of assignments leaves the last value of every key.
-/

namespace Foundation

/-- A map whose entries are listed in the order of their keys. -/
structure OrderedMap (κ ν : Type) [LinearOrder κ] where
  entries : List (κ × ν)
  increasing : entries.Pairwise fun first second => first.1 < second.1

namespace OrderedMap

variable {κ ν : Type} [LinearOrder κ]

/-- The value of a key in a list of entries. -/
@[grind =] def valueAt (key : κ) : List (κ × ν) → Option ν
  | [] => none
  | entry :: rest => if key = entry.1 then some entry.2 else valueAt key rest

/-- The entries with a value assigned to a key, in place or in front of the first
larger key. -/
@[grind =] def assignEntry (key : κ) (value : ν) : List (κ × ν) → List (κ × ν)
  | [] => [(key, value)]
  | entry :: rest =>
      if key < entry.1 then (key, value) :: entry :: rest
      else if key = entry.1 then (key, value) :: rest
      else entry :: assignEntry key value rest

theorem mem_assignEntry {key : κ} {value : ν} {entry : κ × ν} {entries : List (κ × ν)}
    (member : entry ∈ assignEntry key value entries) : entry = (key, value) ∨ entry ∈ entries := by
  induction entries with
  | nil => exact .inl (List.mem_singleton.mp member)
  | cons first rest ih =>
      rw [assignEntry] at member
      split at member
      · exact List.mem_cons.mp member
      · split at member
        · exact (List.mem_cons.mp member).imp_right (List.mem_cons_of_mem first)
        · rcases List.mem_cons.mp member with rfl | inRest
          · exact .inr (List.mem_cons_self ..)
          · exact (ih inRest).imp_right (List.mem_cons_of_mem first)

theorem increasing_assignEntry {key : κ} {value : ν} {entries : List (κ × ν)}
    (increasing : entries.Pairwise fun first second => first.1 < second.1) :
    (assignEntry key value entries).Pairwise fun first second => first.1 < second.1 := by
  induction entries with
  | nil => exact List.pairwise_singleton ..
  | cons first rest ih =>
      obtain ⟨smallest, restIncreasing⟩ := List.pairwise_cons.mp increasing
      rw [assignEntry]
      split
      · next less =>
          refine List.pairwise_cons.mpr ⟨?_, increasing⟩
          intro entry member
          rcases List.mem_cons.mp member with rfl | inRest
          · exact less
          · exact less.trans (smallest entry inRest)
      · next notLess =>
          split
          · next same => exact List.pairwise_cons.mpr ⟨fun entry member => same ▸ smallest entry member,
              restIncreasing⟩
          · next different =>
              refine List.pairwise_cons.mpr ⟨?_, ih restIncreasing⟩
              intro entry member
              rcases mem_assignEntry member with rfl | inRest
              · exact lt_of_le_of_ne (not_lt.mp notLess) (Ne.symm different)
              · exact smallest entry inRest

theorem valueAt_assignEntry (key other : κ) (value : ν) (entries : List (κ × ν)) :
    valueAt other (assignEntry key value entries) =
      if other = key then some value else valueAt other entries := by
  induction entries with
  | nil => rfl
  | cons first rest ih =>
      rw [assignEntry]
      split
      · rfl
      · split
        · next same => simp only [valueAt, same]; split <;> rfl
        · next different =>
            simp only [valueAt, ih]
            by_cases atFirst : other = first.1
            · rw [if_pos atFirst, if_pos atFirst,
                if_neg fun atKey => different (atKey.symm.trans atFirst)]
            · rw [if_neg atFirst, if_neg atFirst]

theorem valueAt_eq_none {key : κ} {entries : List (κ × ν)} :
    valueAt key entries = none ↔ ∀ entry ∈ entries, entry.1 ≠ key := by
  induction entries with
  | nil => simp [valueAt]
  | cons first rest ih =>
      rw [valueAt, List.forall_mem_cons]
      by_cases same : key = first.1
      · simp [same]
      · simp [same, ih, Ne.symm same]

theorem valueAt_eq_some {key : κ} {value : ν} {entries : List (κ × ν)}
    (increasing : entries.Pairwise fun first second => first.1 < second.1) :
    valueAt key entries = some value ↔ (key, value) ∈ entries := by
  induction entries with
  | nil => simp [valueAt]
  | cons first rest ih =>
      obtain ⟨smallest, restIncreasing⟩ := List.pairwise_cons.mp increasing
      rw [valueAt, List.mem_cons]
      by_cases same : key = first.1
      · have notLater : (key, value) ∉ rest := fun member =>
          lt_irrefl key (same ▸ smallest (key, value) member)
        rw [if_pos same, Option.some.injEq, or_iff_left notLater, Prod.ext_iff]
        exact ⟨fun value => ⟨same, value.symm⟩, fun both => both.2.symm⟩
      · rw [if_neg same, ih restIncreasing]
        exact ⟨.inr, fun either => either.resolve_left fun atFirst => same (congrArg Prod.fst atFirst)⟩

def empty : OrderedMap κ ν := { entries := [], increasing := .nil }

/-- The value of a key. -/
def find (map : OrderedMap κ ν) (key : κ) : Option ν := valueAt key map.entries

/-- The map with a new value at a key. -/
def assign (map : OrderedMap κ ν) (key : κ) (value : ν) : OrderedMap κ ν where
  entries := assignEntry key value map.entries
  increasing := increasing_assignEntry map.increasing

/-- The map without a key. -/
def remove (map : OrderedMap κ ν) (key : κ) : OrderedMap κ ν where
  entries := map.entries.filter (·.1 ≠ key)
  increasing := map.increasing.filter _

/-- All assignments in order. -/
@[grind =] def assignAll (map : OrderedMap κ ν) (pairs : List (κ × ν)) : OrderedMap κ ν :=
  pairs.foldl (fun map pair => map.assign pair.1 pair.2) map

/-- The value that a list of assignments leaves at a key. -/
def lastValue (key : κ) (pairs : List (κ × ν)) : Option ν :=
  (pairs.filter (·.1 = key)).getLast?.map Prod.snd

@[simp] theorem find_empty (key : κ) : (empty : OrderedMap κ ν).find key = none := rfl

theorem find_assign (map : OrderedMap κ ν) (key other : κ) (value : ν) :
    (map.assign key value).find other = if other = key then some value else map.find other :=
  valueAt_assignEntry key other value map.entries

theorem find_eq_some {map : OrderedMap κ ν} {key : κ} {value : ν} :
    map.find key = some value ↔ (key, value) ∈ map.entries := valueAt_eq_some map.increasing

theorem find_eq_none {map : OrderedMap κ ν} {key : κ} :
    map.find key = none ↔ ∀ entry ∈ map.entries, entry.1 ≠ key := valueAt_eq_none

theorem find_remove (map : OrderedMap κ ν) (key other : κ) :
    (map.remove key).find other = if other = key then none else map.find other := by
  apply Option.ext
  intro value
  rw [find_eq_some, remove, List.mem_filter, decide_eq_true_iff]
  by_cases same : other = key
  · simp [same]
  · simp [same, find_eq_some]

theorem nodup_keys (map : OrderedMap κ ν) : (map.entries.map Prod.fst).Nodup := by
  rw [List.nodup_iff_pairwise_ne, List.pairwise_map]
  exact map.increasing.imp ne_of_lt

theorem nodup_entries (map : OrderedMap κ ν) : map.entries.Nodup := map.nodup_keys.of_map _

theorem assignEntry_listed {key : κ} {value : ν} {left right : List (κ × ν)}
    (increasing : (left ++ (key, value) :: right).Pairwise fun first second => first.1 < second.1)
    (other : ν) :
    assignEntry key other (left ++ (key, value) :: right) = left ++ (key, other) :: right := by
  induction left with
  | nil => rw [List.nil_append, assignEntry, if_neg (lt_irrefl key), if_pos rfl, List.nil_append]
  | cons first left ih =>
      rw [List.cons_append, List.pairwise_cons] at increasing
      have less : first.1 < key := increasing.1 (key, value) (by simp)
      rw [List.cons_append, assignEntry, if_neg (not_lt_of_gt less), if_neg (ne_of_gt less),
        ih increasing.2, List.cons_append]

/-- A new value stands where the old one was. -/
theorem entries_assign {map : OrderedMap κ ν} {key : κ} {value : ν}
    (listed : (key, value) ∈ map.entries) (other : ν) :
    ∃ left right, map.entries = left ++ (key, value) :: right ∧
      (map.assign key other).entries = left ++ (key, other) :: right := by
  obtain ⟨left, right, split⟩ := List.append_of_mem listed
  have assigned := assignEntry_listed (split ▸ map.increasing) other
  rw [← split] at assigned
  exact ⟨left, right, split, assigned⟩

/-- Maps with equal values at all keys are equal. -/
theorem ext_find {first second : OrderedMap κ ν} (same : ∀ key, first.find key = second.find key) :
    first = second := by
  have members : ∀ entry, entry ∈ first.entries ↔ entry ∈ second.entries := by
    intro entry
    rw [← find_eq_some, ← find_eq_some, same]
  have entriesEq : first.entries = second.entries := by
    have perm := (List.perm_ext_iff_of_nodup first.nodup_entries second.nodup_entries).mpr members
    exact perm.eq_of_pairwise (fun one other _ _ less greater => absurd (less.trans greater) (lt_irrefl _))
      first.increasing second.increasing
  cases first
  cases second
  cases entriesEq
  rfl

/-- A key that is not assigned keeps its value. -/
theorem find_assignAll_other {pairs : List (κ × ν)} {key : κ} (absent : key ∉ pairs.map Prod.fst)
    (map : OrderedMap κ ν) : (map.assignAll pairs).find key = map.find key := by
  induction pairs generalizing map with
  | nil => rfl
  | cons pair pairs ih =>
      rw [List.map_cons, List.mem_cons, not_or] at absent
      rw [assignAll, List.foldl_cons, ← assignAll, ih absent.2, find_assign, if_neg absent.1]

/-- Among assignments to different keys each one counts. -/
theorem find_assignAll_mem {pairs : List (κ × ν)} (distinct : (pairs.map Prod.fst).Nodup)
    {key : κ} {value : ν} (member : (key, value) ∈ pairs) (map : OrderedMap κ ν) :
    (map.assignAll pairs).find key = some value := by
  induction pairs generalizing map with
  | nil => exact absurd member List.not_mem_nil
  | cons pair pairs ih =>
      rw [List.map_cons, List.nodup_cons] at distinct
      rw [assignAll, List.foldl_cons, ← assignAll]
      rcases List.mem_cons.mp member with rfl | later
      · rw [find_assignAll_other distinct.1, find_assign, if_pos rfl]
      · exact ih distinct.2 later _

/-- A value was there before or is assigned. -/
theorem mem_of_find_assignAll {map : OrderedMap κ ν} {pairs : List (κ × ν)} {key : κ} {value : ν}
    (found : (map.assignAll pairs).find key = some value) :
    (key, value) ∈ pairs ∨ map.find key = some value := by
  induction pairs generalizing map with
  | nil => exact .inr found
  | cons pair pairs ih =>
      rw [assignAll, List.foldl_cons, ← assignAll] at found
      rcases ih found with later | before
      · exact .inl (List.mem_cons_of_mem _ later)
      · rw [find_assign] at before
        split at before
        · next same =>
            rw [same, ← Option.some.inj before]
            exact .inl (List.mem_cons_self ..)
        · exact .inr before

/-- Of the assignments to a key the last one counts. -/
theorem find_assignAll (map : OrderedMap κ ν) (pairs : List (κ × ν)) (key : κ) :
    (map.assignAll pairs).find key = (lastValue key pairs).or (map.find key) := by
  rw [lastValue]
  induction pairs using List.reverseRecOn with
  | nil => rfl
  | append_singleton pairs pair ih =>
      have assigned : map.assignAll (pairs ++ [pair]) = (map.assignAll pairs).assign pair.1 pair.2 := by
        rw [assignAll, assignAll, List.foldl_append]
        rfl
      rw [assigned, find_assign, List.filter_append]
      by_cases same : key = pair.1
      · rw [if_pos same, List.filter_cons_of_pos (by simp [same]), List.filter_nil,
          List.getLast?_concat]
        rfl
      · rw [if_neg same, ih, List.filter_cons_of_neg (by simpa using Ne.symm same), List.filter_nil,
          List.append_nil]

/-- The entries of a map that was assigned from nothing are among the assignments. -/
theorem mem_of_mem_assignAll {pairs : List (κ × ν)} {entry : κ × ν}
    (member : entry ∈ (empty.assignAll pairs).entries) : entry ∈ pairs :=
  (mem_of_find_assignAll (find_eq_some.mpr member)).resolve_right fun found => by
    simp at found

/-- A map is assigned again from its entries. -/
theorem assignAll_entries (map : OrderedMap κ ν) : empty.assignAll map.entries = map := by
  apply ext_find
  intro key
  cases found : map.find key with
  | some value => exact find_assignAll_mem map.nodup_keys (find_eq_some.mp found) _
  | none =>
      have absent : key ∉ map.entries.map Prod.fst := by
        intro member
        obtain ⟨entry, listed, rfl⟩ := List.mem_map.mp member
        exact find_eq_none.mp found entry listed rfl
      rw [find_assignAll_other absent, find_empty]

end OrderedMap

end Foundation
