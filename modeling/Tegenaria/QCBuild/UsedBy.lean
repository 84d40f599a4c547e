import Tegenaria.Foundation.OrderedMap
import Tegenaria.QCBuild.SourceFile
import Mathlib.Data.Finset.Sort
import Mathlib.Data.List.Lex
import Mathlib.Data.Char

/-!
# Who uses a component

The last part of `ListComponents` turns the dependencies of all components around: when a
component depends on another one, its title is added to the variable `USED_BY` of the other
one.  The other one is looked up by its title with an operator that creates a missing entry
with the number zero, so a dependency that is not a component is booked on the first one.
-/

namespace Tegenaria.QCBuild

open Foundation
open LibStr
open SourceInfo

def usedByName : Text := ['U', 'S', 'E', 'D', '_', 'B', 'Y']

/-- `cat("USED_BY", title)`.  The variable takes none of the special branches of `set`. -/
def catUsedBy (info : SourceInfo) (title : Text) : SourceInfo := info.assign usedByName title true

theorem set_usedBy (info : SourceInfo) (title : Text) :
    info.set usedByName title true = .ok (catUsedBy info title) := by
  have depends : sameNoCase usedByName dependsName = false := by decide
  have privateDirs : sameNoCase usedByName privateDirsName = false := by decide
  have root : sameNoCase usedByName rootName = false := by decide
  simp [SourceInfo.set, catUsedBy, depends, privateDirs, root]

/-- `titleToIdMap` as it is filled while the components are imported. -/
def titleToIdMap (comps : List SourceInfo) : OrderedMap Text Nat :=
  comps.zipIdx.foldl (fun map entry => map.assign entry.1.title entry.2) .empty

/-- `titleToIdMap[name]` -/
def subscript (map : OrderedMap Text Nat) (name : Text) : OrderedMap Text Nat × Nat :=
  match map.find name with
  | some id => (map, id)
  | none => (map.assign name 0, 0)

/-- The map and the components while `USED_BY` is generated. -/
structure UsedByState where
  map : OrderedMap Text Nat
  comps : List SourceInfo

namespace UsedByState

/-- The body of the inner loop: a component with the given title depends on a name. -/
def use (title : Text) (state : UsedByState) (name : Text) : UsedByState :=
  let (map, targetId) := subscript state.map name
  { map, comps := state.comps.modify targetId fun info => catUsedBy info title }

/-- The body of the outer loop: all dependencies of one component, in the order of the
set. -/
def useAll (state : UsedByState) (index : Nat) : UsedByState :=
  match state.comps[index]? with
  | none => state
  | some info => (info.dependsSet.sort (· ≤ ·)).foldl (use info.title) state

end UsedByState

/-- The components with their `USED_BY` lists. -/
def generateUsedBy (comps : List SourceInfo) : List SourceInfo :=
  ((List.range comps.length).foldl UsedByState.useAll { map := titleToIdMap comps, comps }).comps

/-- The text of a list to which titles are added. -/
def addTitles (list : Text) (titles : List Text) : Text :=
  titles.foldl (fun text title => if text.isEmpty then title else text ++ ' ' :: title) list

/-- The components that depend on a title. -/
def dependents (comps : List SourceInfo) (title : Text) : List SourceInfo :=
  comps.filter fun info => title ∈ info.dependsSet

/-- Every component has got the titles of those that depend on it, each of them once and in
some order, and nothing else. -/
def InvertsDepends (comps : List SourceInfo) : Prop :=
  (generateUsedBy comps).length = comps.length ∧
    ∀ index (inside : index < comps.length), ∃ (titles : List Text) (after : SourceInfo),
      (generateUsedBy comps)[index]? = some after ∧
      titles.Nodup ∧
      (∀ title, title ∈ titles ↔ ∃ info ∈ comps, info.title = title ∧
        comps[index].title ∈ info.dependsSet) ∧
      after.get usedByName = addTitles (comps[index].get usedByName) titles

/-! ## One booking -/

theorem catUsedBy_eq (info : SourceInfo) (title : Text) :
    catUsedBy info title = info.setVar usedByName (addTitles (info.get usedByName) [title]) := by
  have type : sameNoCase usedByName typeName = false := by decide
  rw [catUsedBy, assign, type, if_neg Bool.false_ne_true, if_pos rfl, isset]
  cases found : (info.get usedByName).isEmpty with
  | false => simp only [addTitles, List.foldl_cons, List.foldl_nil, found]; rfl
  | true => simp only [addTitles, List.foldl_cons, List.foldl_nil, found]; rfl

@[simp] theorem catUsedBy_dependsSet (info : SourceInfo) (title : Text) :
    (catUsedBy info title).dependsSet = info.dependsSet := by
  rw [catUsedBy_eq]
  rfl

@[simp] theorem catUsedBy_title (info : SourceInfo) (title : Text) :
    (catUsedBy info title).title = info.title := by
  have other : titleName ≠ usedByName := by decide
  rw [catUsedBy_eq]
  simp only [SourceInfo.title, SourceInfo.get, setVar, Function.update_of_ne other]

theorem catUsedBy_get (info : SourceInfo) (title : Text) :
    (catUsedBy info title).get usedByName = addTitles (info.get usedByName) [title] := by
  rw [catUsedBy_eq, SourceInfo.get, setVar]
  simp only [Function.update_self, Option.getD_some]

/-! ## All bookings -/

/-- Titles that are added to the list of one component each. -/
def book (comps : List SourceInfo) (bookings : List (Nat × Text)) : List SourceInfo :=
  bookings.foldl (fun comps booking => comps.modify booking.1 fun info => catUsedBy info booking.2) comps

/-- The titles that are added to the list of a component. -/
def booked (bookings : List (Nat × Text)) (index : Nat) : List Text :=
  (bookings.filter (·.1 = index)).map Prod.snd

theorem book_length (comps : List SourceInfo) (bookings : List (Nat × Text)) :
    (book comps bookings).length = comps.length := by
  induction bookings generalizing comps with
  | nil => rfl
  | cons booking bookings ih =>
      rw [book, List.foldl_cons, ← book, ih, List.length_modify]

/-- A component gets the titles that are booked on it. -/
theorem book_get {comps : List SourceInfo} (bookings : List (Nat × Text)) {index : Nat}
    {info : SourceInfo} (listed : comps[index]? = some info) :
    ∃ after, (book comps bookings)[index]? = some after ∧
      after.get usedByName = addTitles (info.get usedByName) (booked bookings index) := by
  induction bookings generalizing comps info with
  | nil => exact ⟨info, listed, rfl⟩
  | cons booking bookings ih =>
      rw [book, List.foldl_cons, ← book]
      by_cases here : booking.1 = index
      · have changed : (comps.modify booking.1 fun info => catUsedBy info booking.2)[index]? =
            some (catUsedBy info booking.2) := by
          rw [here, List.getElem?_modify_eq, listed]
          rfl
        obtain ⟨after, found, value⟩ := ih changed
        refine ⟨after, found, ?_⟩
        rw [value, catUsedBy_get, booked, booked, List.filter_cons_of_pos (by simpa using here)]
        rfl
      · have kept : (comps.modify booking.1 fun info => catUsedBy info booking.2)[index]? = some info := by
          rw [List.getElem?_modify_ne _ _ here, listed]
        obtain ⟨after, found, value⟩ := ih kept
        refine ⟨after, found, ?_⟩
        rw [value, booked, booked, List.filter_cons_of_neg (by simpa using here)]

/-- The component that a name stands for. -/
def target (comps : List SourceInfo) (name : Text) : Nat := ((titleToIdMap comps).find name).getD 0

/-- What one component books. -/
def bookingsOf (comps : List SourceInfo) (info : SourceInfo) : List (Nat × Text) :=
  (info.dependsSet.sort (· ≤ ·)).map fun name => (target comps name, info.title)

theorem modify_map_same {Value : Type} {change : SourceInfo → SourceInfo} {field : SourceInfo → Value}
    (same : ∀ info, field (change info) = field info) (comps : List SourceInfo) (index : Nat) :
    (comps.modify index change).map field = comps.map field := by
  apply List.ext_getElem?
  intro other
  rw [List.getElem?_map, List.getElem?_map, List.getElem?_modify]
  cases comps[other]? with
  | none => rfl
  | some info =>
      by_cases here : index = other
      · simp [here, same]
      · simp [here]

/-- The loops have changed nothing but lists of users, and the map still gives the same
answers. -/
structure Underway (comps : List SourceInfo) (state : UsedByState) : Prop where
  titles : state.comps.map SourceInfo.title = comps.map SourceInfo.title
  depends : state.comps.map dependsSet = comps.map dependsSet
  answers : ∀ name, (state.map.find name).getD 0 = target comps name

namespace Underway

variable {comps : List SourceInfo} {state : UsedByState}

theorem start (comps : List SourceInfo) : Underway comps { map := titleToIdMap comps, comps } where
  titles := rfl
  depends := rfl
  answers _ := rfl

theorem subscript_answers (underway : Underway comps state) (name : Text) :
    (subscript state.map name).2 = target comps name ∧
      ∀ other, ((subscript state.map name).1.find other).getD 0 = target comps other := by
  rw [subscript]
  cases found : state.map.find name with
  | some id =>
      refine ⟨?_, underway.answers⟩
      rw [← underway.answers name, found]
      rfl
  | none =>
      refine ⟨?_, fun other => ?_⟩
      · rw [← underway.answers name, found]
        rfl
      · rw [OrderedMap.find_assign, ← underway.answers other]
        split
        · next same =>
            rw [same, found]
            rfl
        · rfl

/-- A dependency is booked on the component that the name stands for. -/
theorem use (underway : Underway comps state) (title name : Text) :
    (state.use title name).comps = book state.comps [(target comps name, title)] ∧
      Underway comps (state.use title name) := by
  obtain ⟨answer, answers⟩ := underway.subscript_answers name
  have booked : (state.use title name).comps = book state.comps [(target comps name, title)] := by
    rw [UsedByState.use, ← answer]
    rfl
  refine ⟨booked, ?_, ?_, answers⟩
  · rw [booked, ← underway.titles]
    exact modify_map_same (catUsedBy_title · title) _ _
  · rw [booked, ← underway.depends]
    exact modify_map_same (catUsedBy_dependsSet · title) _ _

/-- All dependencies of a component are booked in order. -/
theorem uses (underway : Underway comps state) (title : Text) (names : List Text) :
    (names.foldl (UsedByState.use title) state).comps =
        book state.comps (names.map fun name => (target comps name, title)) ∧
      Underway comps (names.foldl (UsedByState.use title) state) := by
  induction names generalizing state with
  | nil => exact ⟨rfl, underway⟩
  | cons name names ih =>
      obtain ⟨first, next⟩ := underway.use title name
      obtain ⟨rest, final⟩ := ih next
      refine ⟨?_, final⟩
      rw [List.foldl_cons, rest, first]
      rfl

theorem useAll (underway : Underway comps state) (index : Nat) :
    (state.useAll index).comps = book state.comps ((comps[index]?).elim [] (bookingsOf comps)) ∧
      Underway comps (state.useAll index) := by
  have titles := congrArg (·[index]?) underway.titles
  have depends := congrArg (·[index]?) underway.depends
  simp only [List.getElem?_map] at titles depends
  rw [UsedByState.useAll]
  cases now : state.comps[index]? with
  | none =>
      rw [now, Option.map_none, eq_comm, Option.map_eq_none_iff] at titles
      rw [titles]
      exact ⟨rfl, underway⟩
  | some info =>
      rw [now, Option.map_some, eq_comm, Option.map_eq_some_iff] at titles depends
      obtain ⟨original, found, title⟩ := titles
      obtain ⟨same, again, dependsSet⟩ := depends
      cases found.symm.trans again
      have uses := underway.uses info.title (info.dependsSet.sort (· ≤ ·))
      rw [found, Option.elim_some, bookingsOf, title, dependsSet]
      exact uses

theorem useEach (underway : Underway comps state) (indices : List Nat) :
    (indices.foldl UsedByState.useAll state).comps =
      book state.comps (indices.flatMap fun index => (comps[index]?).elim [] (bookingsOf comps)) := by
  induction indices generalizing state with
  | nil => rfl
  | cons index indices ih =>
      obtain ⟨first, next⟩ := underway.useAll index
      rw [List.foldl_cons, ih next, first, List.flatMap_cons, book, book, book, List.foldl_append]

end Underway

/-- A loop over the numbers of the elements is a loop over the elements. -/
theorem flatMap_range {Element Result : Type} (f : Element → List Result) (elements : List Element) :
    ((List.range elements.length).flatMap fun index => (elements[index]?).elim [] f) =
      elements.flatMap f := by
  induction elements using List.reverseRecOn with
  | nil => rfl
  | append_singleton elements last ih =>
      rw [List.length_append, List.length_singleton, List.range_succ, List.flatMap_append,
        List.flatMap_append, ← ih]
      congr 1
      · apply List.flatMap_congr
        intro index member
        rw [List.getElem?_append_left (List.mem_range.mp member)]
      · simp

/-- The bookings of all components. -/
def bookings (comps : List SourceInfo) : List (Nat × Text) := comps.flatMap (bookingsOf comps)

theorem generateUsedBy_eq (comps : List SourceInfo) :
    generateUsedBy comps = book comps (bookings comps) := by
  rw [generateUsedBy, (Underway.start comps).useEach, flatMap_range, bookings]

/-! ## The component that a name stands for -/

section Titles

variable {comps : List SourceInfo}

theorem titleToIdMap_eq (comps : List SourceInfo) :
    titleToIdMap comps =
      OrderedMap.empty.assignAll (comps.zipIdx.map fun entry => (entry.1.title, entry.2)) := by
  rw [titleToIdMap, OrderedMap.assignAll, List.foldl_map]

theorem zipIdx_titles (comps : List SourceInfo) :
    (comps.zipIdx.map fun entry => (entry.1.title, entry.2)).map Prod.fst =
      comps.map SourceInfo.title := by
  rw [List.map_map]
  change comps.zipIdx.map (SourceInfo.title ∘ Prod.fst) = _
  rw [← List.map_map, List.zipIdx_map_fst]

theorem target_title (distinct : (comps.map SourceInfo.title).Nodup) {index : Nat} {info : SourceInfo}
    (listed : comps[index]? = some info) : target comps info.title = index := by
  have member : (info.title, index) ∈ comps.zipIdx.map fun entry => (entry.1.title, entry.2) :=
    List.mem_map.mpr ⟨(info, index), List.mem_zipIdx_iff_getElem?.mpr listed, rfl⟩
  rw [← zipIdx_titles] at distinct
  rw [target, titleToIdMap_eq, OrderedMap.find_assignAll_mem distinct member]
  rfl

/-- A name that is no title stands for the first component. -/
theorem target_unknown {name : Text} (unknown : name ∉ comps.map SourceInfo.title) :
    target comps name = 0 := by
  rw [← zipIdx_titles] at unknown
  rw [target, titleToIdMap_eq, OrderedMap.find_assignAll_other unknown, OrderedMap.find_empty]
  rfl

/-- Among the titles only one stands for a component. -/
theorem target_eq_iff (distinct : (comps.map SourceInfo.title).Nodup) {index : Nat}
    {info : SourceInfo} (listed : comps[index]? = some info) {name : Text}
    (known : name ∈ comps.map SourceInfo.title) : target comps name = index ↔ name = info.title := by
  obtain ⟨other, otherListed, rfl⟩ := List.mem_map.mp known
  obtain ⟨position, found⟩ := List.mem_iff_getElem?.mp otherListed
  rw [target_title distinct found]
  constructor
  · rintro rfl
    rw [found] at listed
    cases listed
    rfl
  · intro same
    have again := target_title distinct found
    rw [same, target_title distinct listed] at again
    exact again.symm

end Titles

/-! ## The titles that are booked -/

section Booked

variable {comps : List SourceInfo}

/-- What one component books on another one. -/
def copies (comps : List SourceInfo) (index : Nat) (info : SourceInfo) : List Text :=
  ((info.dependsSet.sort (· ≤ ·)).filter (target comps · = index)).map fun _ => info.title

theorem booked_eq (comps : List SourceInfo) (index : Nat) :
    booked (bookings comps) index = comps.flatMap (copies comps index) := by
  rw [booked, bookings, List.filter_flatMap, List.map_flatMap]
  apply List.flatMap_congr
  intro info _
  rw [bookingsOf, copies, List.filter_map, List.map_map]
  rfl

/-- The titles of those that depend on a component. -/
theorem dependents_eq (comps : List SourceInfo) (title : Text) :
    (dependents comps title).map SourceInfo.title =
      comps.flatMap fun info => if title ∈ info.dependsSet then [info.title] else [] := by
  induction comps with
  | nil => rfl
  | cons info comps ih =>
      rw [dependents, List.filter_cons, List.flatMap_cons]
      by_cases needed : title ∈ info.dependsSet
      · rw [if_pos (by simpa using needed), if_pos needed, List.map_cons, ← dependents, ih]
        rfl
      · rw [if_neg (by simpa using needed), if_neg needed, ← dependents, ih]
        rfl

/-- A component whose dependencies are all known books each title once. -/
theorem copies_known (distinct : (comps.map SourceInfo.title).Nodup) {index : Nat}
    {owner info : SourceInfo} (listed : comps[index]? = some owner)
    (known : ∀ name ∈ info.dependsSet, name ∈ comps.map SourceInfo.title) :
    copies comps index info = if owner.title ∈ info.dependsSet then [info.title] else [] := by
  have only : (info.dependsSet.sort (· ≤ ·)).filter (target comps · = index) =
      (info.dependsSet.sort (· ≤ ·)).filter (· = owner.title) := by
    apply List.filter_congr
    intro name member
    rw [Finset.mem_sort] at member
    rw [decide_eq_decide]
    exact target_eq_iff distinct listed (known name member)
  rw [copies, only, List.filter_eq, List.map_replicate]
  by_cases needed : owner.title ∈ info.dependsSet
  · rw [if_pos needed, List.count_eq_one_of_mem (Finset.sort_nodup ..) ((Finset.mem_sort _).mpr needed)]
    rfl
  · rw [if_neg needed, List.count_eq_zero_of_not_mem fun member => needed ((Finset.mem_sort _).mp member)]
    rfl

/-- When all dependencies are components, the titles that are booked are those of the
dependents. -/
theorem booked_known (distinct : (comps.map SourceInfo.title).Nodup) {index : Nat}
    {owner : SourceInfo} (listed : comps[index]? = some owner)
    (known : ∀ info ∈ comps, ∀ name ∈ info.dependsSet, name ∈ comps.map SourceInfo.title) :
    booked (bookings comps) index = (dependents comps owner.title).map SourceInfo.title := by
  rw [booked_eq, dependents_eq]
  apply List.flatMap_congr
  intro info member
  exact copies_known distinct listed (known info member)

theorem dependents_nodup (distinct : (comps.map SourceInfo.title).Nodup) (title : Text) :
    ((dependents comps title).map SourceInfo.title).Nodup :=
  distinct.sublist (List.filter_sublist.map SourceInfo.title)

theorem mem_dependents {owner title : Text} :
    title ∈ (dependents comps owner).map SourceInfo.title ↔
      ∃ info ∈ comps, info.title = title ∧ owner ∈ info.dependsSet := by
  rw [List.mem_map]
  constructor
  · rintro ⟨info, member, same⟩
    rw [dependents, List.mem_filter, decide_eq_true_iff] at member
    exact ⟨info, member.1, same, member.2⟩
  · rintro ⟨info, member, same, needed⟩
    refine ⟨info, ?_, same⟩
    rw [dependents, List.mem_filter, decide_eq_true_iff]
    exact ⟨member, needed⟩

end Booked

/-! ## The length of a list of users -/

/-- The room that titles take in a list. -/
def weight (titles : List Text) : Nat := (titles.map (·.length + 1)).sum

theorem weight_cons (title : Text) (titles : List Text) :
    weight (title :: titles) = title.length + 1 + weight titles := by
  rw [weight, List.map_cons, List.sum_cons, weight]

/-- The first title of an empty list has no blank in front of it. -/
theorem addTitles_length {titles : List Text} (named : ∀ title ∈ titles, title ≠ []) (list : Text) :
    (addTitles list titles).length + (if list = [] ∧ titles ≠ [] then 1 else 0) =
      list.length + weight titles := by
  induction titles generalizing list with
  | nil => simp [addTitles, weight]
  | cons title titles ih =>
      rw [List.forall_mem_cons] at named
      rw [weight_cons]
      cases list with
      | nil =>
          have opened : addTitles [] (title :: titles) = addTitles title titles := rfl
          have rest := ih named.2 title
          rw [if_neg (fun both => named.1 both.1)] at rest
          rw [opened, if_pos ⟨rfl, List.cons_ne_nil title titles⟩, List.length_nil]
          omega
      | cons letter list =>
          have added : addTitles (letter :: list) (title :: titles) =
              addTitles (letter :: list ++ ' ' :: title) titles := rfl
          have rest := ih named.2 (letter :: list ++ ' ' :: title)
          rw [if_neg (by simp)] at rest
          rw [added, if_neg (by simp), rest, List.length_append, List.length_cons]
          simp only [List.length_cons]
          omega

theorem weight_mono {few many : List Text} (sublist : few.Sublist many) : weight few ≤ weight many := by
  induction sublist with
  | slnil => exact le_refl _
  | cons title _ ih =>
      rw [weight_cons]
      omega
  | cons_cons title _ ih =>
      rw [weight_cons, weight_cons]
      omega

/-- A further title takes at least two letters. -/
theorem weight_strict {few many : List Text} (sublist : few.Sublist many)
    (named : ∀ title ∈ many, title ≠ []) (longer : few.length < many.length) :
    weight few + 2 ≤ weight many := by
  induction sublist with
  | slnil => exact absurd longer (lt_irrefl _)
  | cons title rest _ =>
      have positive : 0 < title.length := List.length_pos_iff.mpr (named title List.mem_cons_self)
      have smaller := weight_mono rest
      rw [weight_cons]
      omega
  | cons_cons title _ ih =>
      have rest := ih (fun other member => named other (List.mem_cons_of_mem title member))
        (by simpa using longer)
      rw [weight_cons, weight_cons]
      omega

/-! ## The inverse of the dependencies -/

section Inverse

variable {comps : List SourceInfo}

theorem invertsDepends_of_known (distinct : (comps.map SourceInfo.title).Nodup)
    (known : ∀ info ∈ comps, ∀ name ∈ info.dependsSet, name ∈ comps.map SourceInfo.title) :
    InvertsDepends comps := by
  rw [InvertsDepends, generateUsedBy_eq]
  refine ⟨book_length comps (bookings comps), fun index inside => ?_⟩
  have listed : comps[index]? = some comps[index] := List.getElem?_eq_getElem inside
  obtain ⟨after, found, value⟩ := book_get (bookings comps) listed
  rw [booked_known distinct listed known] at value
  exact ⟨_, after, found, dependents_nodup distinct comps[index].title, fun _ => mem_dependents, value⟩

theorem flatMap_sublist {Element Result : Type} {f g : Element → List Result} {elements : List Element}
    (each : ∀ element ∈ elements, (f element).Sublist (g element)) :
    (elements.flatMap f).Sublist (elements.flatMap g) := by
  induction elements with
  | nil => exact List.Sublist.refl []
  | cons element elements ih =>
      rw [List.forall_mem_cons] at each
      rw [List.flatMap_cons, List.flatMap_cons]
      exact each.1.append (ih each.2)

theorem flatMap_length_lt {Element Result : Type} {f g : Element → List Result}
    {elements : List Element} (each : ∀ element ∈ elements, (f element).Sublist (g element))
    {one : Element} (member : one ∈ elements) (longer : (f one).length < (g one).length) :
    (elements.flatMap f).length < (elements.flatMap g).length := by
  obtain ⟨before, after, rfl⟩ := List.append_of_mem member
  have front := (flatMap_sublist fun element inside => each element (List.mem_append_left _ inside)).length_le
  have back := (flatMap_sublist fun element inside =>
    each element (List.mem_append_right before (List.mem_cons_of_mem one inside))).length_le
  simp only [List.flatMap_append, List.flatMap_cons, List.length_append]
  omega

variable {first : SourceInfo} {rest : List SourceInfo}

/-- A dependent of the first component books its title there. -/
theorem copies_first (distinct : ((first :: rest).map SourceInfo.title).Nodup) (info : SourceInfo) :
    (if first.title ∈ info.dependsSet then [info.title] else []).Sublist
      (copies (first :: rest) 0 info) := by
  split
  · next needed =>
      rw [List.singleton_sublist, copies, List.mem_map]
      refine ⟨first.title, ?_, rfl⟩
      rw [List.mem_filter, decide_eq_true_iff, Finset.mem_sort]
      exact ⟨needed, target_title distinct rfl⟩
  · exact List.nil_sublist _

/-- A dependency that is no component is booked on the first one as well. -/
theorem copies_unknown (distinct : ((first :: rest).map SourceInfo.title).Nodup) {info : SourceInfo}
    {name : Text} (needed : name ∈ info.dependsSet)
    (unknown : name ∉ (first :: rest).map SourceInfo.title) :
    (if first.title ∈ info.dependsSet then [info.title] else []).length <
      (copies (first :: rest) 0 info).length := by
  have booked : ∀ other, other ∈ info.dependsSet → target (first :: rest) other = 0 →
      other ∈ (info.dependsSet.sort (· ≤ ·)).filter (target (first :: rest) · = 0) := by
    intro other member zero
    rw [List.mem_filter, decide_eq_true_iff, Finset.mem_sort]
    exact ⟨member, zero⟩
  have unknownBooked := booked name needed (target_unknown unknown)
  rw [copies, List.length_map]
  by_cases alsoFirst : first.title ∈ info.dependsSet
  · have firstBooked := booked first.title alsoFirst (target_title distinct rfl)
    have apart : first.title ≠ name := by
      rintro rfl
      exact unknown List.mem_cons_self
    have both : [first.title, name] ⊆
        (info.dependsSet.sort (· ≤ ·)).filter (target (first :: rest) · = 0) := by
      intro other member
      rcases List.mem_pair.mp member with rfl | rfl
      · exact firstBooked
      · exact unknownBooked
    have count := (List.subperm_of_subset (List.nodup_cons.mpr ⟨by simpa using apart, by simp⟩) both).length_le
    rw [if_pos alsoFirst]
    exact count
  · rw [if_neg alsoFirst]
    exact List.length_pos_of_mem unknownBooked

/-! ## Titles of components -/

theorem exists_of_bind_ok {α β : Type} {first : Except LoadFailure α} {next : α → Except LoadFailure β}
    {result : β} (done : first.bind next = .ok result) : ∃ value, first = .ok value ∧ next value = .ok result := by
  cases first with
  | error failure => cases done
  | ok value => exact ⟨value, rfl, done⟩

theorem assign_titled {info : SourceInfo} (titled : info.title ≠ []) (lvalue rvalue : Text) (concat : Bool) :
    (info.assign lvalue rvalue concat).title ≠ [] := by
  have set (value : Text) (filled : lvalue = titleName → value ≠ []) :
      (info.setVar lvalue value).title ≠ [] := by
    rw [title, get_setVar]
    split
    · next same => exact filled same.symm
    · exact titled
  rw [assign]
  split
  · next isType =>
      refine set rvalue ?_
      rintro rfl
      exact absurd isType (by decide)
  · split
    · split
      · exact set _ fun _ => by simp
      · next unset =>
          refine set rvalue ?_
          rintro rfl
          exact absurd ((isset_eq_true info titleName).mpr titled) unset
    · split
      · next empty =>
          rw [empty, title, get_eraseVar, if_neg (by decide)]
          exact titled
      · next filled => exact set rvalue fun _ => filled

theorem set_titled {info next : SourceInfo} (titled : info.title ≠ []) {lvalue rvalue : Text}
    {concat : Bool} (done : info.set lvalue rvalue concat = .ok next) : next.title ≠ [] := by
  have assigned := assign_titled titled lvalue rvalue concat
  rw [SourceInfo.set] at done
  generalize info.assign lvalue rvalue concat = info at assigned done
  split at done
  · cases done
    exact assigned
  · split at done
    · split at done
      · cases done
        exact assigned
      · cases done
    · split at done
      · rw [setRoot] at done
        split at done
        · cases done
        · cases done
          exact assign_titled (assign_titled assigned _ _ _) _ _ _
      · cases done
        exact assigned

theorem execute_titled {reader next : Reader} (titled : reader.info.title ≠ []) {line : Text}
    (done : reader.execute line = .ok next) : next.info.title ≠ [] := by
  have replaced (lvalue rvalue : Text) (concat : Bool)
      (stored : (reader.info.set lvalue rvalue concat).map (fun info => { reader with info }) = .ok next) :
      next.info.title ≠ [] := by
    cases result : reader.info.set lvalue rvalue concat with
    | error failure =>
        rw [result] at stored
        cases stored
    | ok info =>
        rw [result] at stored
        cases stored
        exact set_titled titled result
  rw [Reader.execute] at done
  split at done
  · exact replaced _ _ true done
  · exact replaced _ _ false done
  · cases done

theorem parseLine_titled {reader next : Reader} (titled : reader.info.title ≠ []) {targetMachine p : Text}
    (done : reader.parseLine targetMachine p = .ok next) : next.info.title ≠ [] := by
  rw [Reader.parseLine] at done
  split at done
  · cases done
    exact titled
  · split at done
    · cases done
      exact titled
    · split at done
      · split at done
        · rw [Reader.enterSection] at done
          split at done
          · cases done
          · cases done
            exact titled
        · split at done
          · cases done
            exact titled
          · cases done
            exact titled
      · split at done
        · exact execute_titled titled done
        · cases done
          exact titled

theorem loadLines_titled (targetMachine : Text) (fuel : Nat) {reader next : Reader}
    (titled : reader.info.title ≠ []) {p : Text}
    (done : Reader.loadLines targetMachine fuel reader p = .ok next) : next.info.title ≠ [] := by
  induction fuel generalizing reader p with
  | zero => cases done
  | succ fuel ih =>
      rw [Reader.loadLines] at done
      split at done
      · cases done
        exact titled
      · obtain ⟨later, parsed, rest⟩ := exists_of_bind_ok done
        exact ih (parseLine_titled titled parsed) rest

/-- Every component that was loaded has a title: the default is replaced by values that
are not empty only. -/
theorem loadFromFile_titled {info next : SourceInfo} {targetMachine currentDir : Text}
    {loaded : Option Text} (done : info.loadFromFile targetMachine currentDir loaded = .ok next) :
    next.title ≠ [] := by
  cases loaded with
  | none => cases done
  | some text =>
      obtain ⟨reader, read, last⟩ := exists_of_bind_ok done
      have start : info.clear.title ≠ [] := List.cons_ne_nil _ _
      exact set_titled (loadLines_titled targetMachine _ start read) last

/-- The lists of users are the inverse of the dependencies exactly when every dependency
is one of the components. -/
theorem generateUsedBy_inverts_iff (distinct : (comps.map SourceInfo.title).Nodup)
    (named : ∀ info ∈ comps, info.title ≠ []) :
    InvertsDepends comps ↔
      ∀ info ∈ comps, ∀ name ∈ info.dependsSet, name ∈ comps.map SourceInfo.title := by
  refine ⟨fun inverts info member name needed => ?_, invertsDepends_of_known distinct⟩
  by_contra unknown
  cases comps with
  | nil => exact List.not_mem_nil member
  | cons first rest =>
      obtain ⟨titles, after, found, nodup, members, value⟩ := inverts.2 0 (by simp)
      rw [generateUsedBy_eq] at found
      obtain ⟨same, sameFound, text⟩ := book_get (bookings (first :: rest))
        (show (first :: rest)[0]? = some first from rfl)
      cases found.symm.trans sameFound
      rw [value, List.getElem_cons_zero, booked_eq] at text
      have perm : titles.Perm ((dependents (first :: rest) first.title).map SourceInfo.title) :=
        (List.perm_ext_iff_of_nodup nodup (dependents_nodup distinct first.title)).mpr fun title =>
          (members title).trans mem_dependents.symm
      have same : weight titles = weight ((dependents (first :: rest) first.title).map SourceInfo.title) :=
        (perm.map _).sum_eq
      have each := fun info (_ : info ∈ first :: rest) => copies_first distinct info
      have copied : ∀ title ∈ (first :: rest).flatMap (copies (first :: rest) 0), title ≠ [] := by
        intro title inside
        obtain ⟨one, oneIn, copy⟩ := List.mem_flatMap.mp inside
        obtain ⟨-, -, rfl⟩ := List.mem_map.mp copy
        exact named one oneIn
      have more := weight_strict (flatMap_sublist each) copied
        (flatMap_length_lt each member (copies_unknown distinct needed unknown))
      have asked : ∀ title ∈ titles, title ≠ [] := by
        intro title inside
        obtain ⟨one, oneIn, rfl, -⟩ := (members title).mp inside
        exact named one oneIn
      have short := addTitles_length asked (first.get usedByName)
      have long := addTitles_length copied (first.get usedByName)
      rw [← dependents_eq, ← same] at more
      rw [← text] at long
      split at short
      · split at long <;> omega
      · split at long <;> omega

/-- A program and the library it uses. -/
theorem program_uses_library :
    InvertsDepends [component ['P'] {['L']}, component ['L'] ∅] :=
  (generateUsedBy_inverts_iff (by decide) (by decide)).mpr (by decide)

/-- A dependency that is not part of the project puts the program on its own list. -/
theorem unknown_dependency_booked : ¬ InvertsDepends [component ['P'] {['Q']}] := by
  rintro ⟨-, inverts⟩
  obtain ⟨titles, after, found, -, members, value⟩ := inverts 0 (by decide)
  have nobody : titles = [] := by
    rw [List.eq_nil_iff_forall_not_mem]
    intro title member
    obtain ⟨info, inside, -, needed⟩ := (members title).mp member
    rw [List.mem_singleton.mp inside] at needed
    exact absurd needed (by decide)
  have unknown : target [component ['P'] {['Q']}] ['Q'] = 0 := target_unknown (by decide)
  have onFirst : booked (bookings [component ['P'] {['Q']}]) 0 = [['P']] := by
    rw [booked_eq, List.flatMap_singleton, copies]
    have needs : (component ['P'] {['Q']}).dependsSet.sort (· ≤ ·) = [['Q']] := Finset.sort_singleton ..
    rw [needs, List.filter_cons_of_pos (by simpa using unknown)]
    rfl
  rw [generateUsedBy_eq] at found
  obtain ⟨same, sameFound, text⟩ := book_get (bookings [component ['P'] {['Q']}])
    (show [component ['P'] {['Q']}][0]? = some (component ['P'] {['Q']}) from rfl)
  cases found.symm.trans sameFound
  rw [value, nobody, onFirst] at text
  exact absurd text (by decide)

end Inverse

end Tegenaria.QCBuild
