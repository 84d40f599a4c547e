import Tegenaria.Foundation.Responder
import Tegenaria.LibStr.Text
import Mathlib.Data.List.Induction

/-!
# String lists

A list of strings kept in one string, each element with a `;` after it.  Every
operation cuts the string into its elements again.
-/

namespace Tegenaria.LibStr

open Foundation

def errOk : Int := 0

def errNotFound : Int := 2

def errAlreadyExists : Int := 3

def errWrongParameter : Int := 4

/-- `none` stands for a null pointer, here and in the other operations. -/
def strListSplit : Option Text → List Text
  | none => []
  | some str => strtok [';'] str

def strListInit (vec : List Text) : Text :=
  vec.foldl (fun str elem => str ++ elem ++ [';']) []

def strListExists (str : Text) : Option Text → Int
  | none => 0
  | some elem => if (strtok [';'] (cStr str)).any (sameNoCase · elem) then 1 else 0

/-- The new list and the error code. -/
def strListAdd (str : Text) : Option Text → Text × Int
  | none => (str, errWrongParameter)
  | some elem =>
      if strListExists str (some elem) = 0 then
        (str ++ elem ++ [';'], errOk)
      else
        (str, errAlreadyExists)

/-- One round of the loop of `StrListRemove`: the new list and the flag. -/
def removeToken (elem : Text) (state : Text × Bool) (token : Text) : Text × Bool :=
  if sameNoCase token elem then (state.1, true) else (state.1 ++ token ++ [';'], state.2)

def strListRemove (str : Text) : Option Text → Text × Int
  | none => (str, errWrongParameter)
  | some elem =>
      let (newList, found) := (strtok [';'] (cStr str)).foldl (removeToken elem) ([], false)
      (newList, if found then errOk else errNotFound)

/-- A string that can be an element of a list. -/
structure Element where
  text : Text
  nonempty : text ≠ []
  plain : ∀ letter ∈ text, letter ≠ ';' ∧ letter ≠ '\x00'

inductive ListCall where
  | add (elem : Element)
  | remove (elem : Element)
  | exists (elem : Element)

/-- A string with its list operations. -/
def stringList : Responder Text ListCall Int where
  respond str
    | .add elem => strListAdd str (some elem.text)
    | .remove elem => strListRemove str (some elem.text)
    | .exists elem => (str, strListExists str (some elem.text))

/-- The list of the elements, with the meaning of the operations. -/
def referenceList : Responder (List Text) ListCall Int where
  respond list
    | .add elem =>
        if list.any (sameNoCase · elem.text) then (list, errAlreadyExists)
        else (list ++ [elem.text], errOk)
    | .remove elem =>
        (list.eraseP (sameNoCase · elem.text),
          if list.any (sameNoCase · elem.text) then errOk else errNotFound)
    | .exists elem => (list, if list.any (sameNoCase · elem.text) then 1 else 0)

theorem sameNoCase_iff {first second : Text} :
    sameNoCase first second ↔ first.map Char.toLower = second.map Char.toLower := decide_eq_true_iff

/-- The elements of a list are plain and differ in more than the case. -/
structure ListValid (list : List Text) : Prop where
  nonempty : ∀ elem ∈ list, elem ≠ []
  plain : ∀ elem ∈ list, ∀ letter ∈ elem, letter ≠ ';' ∧ letter ≠ '\x00'
  distinct : list.Pairwise fun first second => sameNoCase first second = false

theorem strListInit_append (vec : List Text) (elem : Text) :
    strListInit (vec ++ [elem]) = strListInit vec ++ elem ++ [';'] := by
  rw [strListInit, List.foldl_append]
  rfl

theorem strListInit_eq_flatMap (vec : List Text) :
    strListInit vec = vec.flatMap fun elem => elem ++ [';'] := by
  induction vec using List.reverseRecOn with
  | nil => rfl
  | append_singleton vec elem ih => simp [strListInit_append, ih]

theorem strtok_strListInit {vec : List Text} (nonempty : ∀ elem ∈ vec, elem ≠ [])
    (plain : ∀ elem ∈ vec, ∀ letter ∈ elem, letter ≠ ';') : strtok [';'] (strListInit vec) = vec := by
  have outside : ∀ elem ∈ vec, ∀ letter ∈ elem, letter ∉ [';'] := by
    intro elem member letter inside
    simpa using plain elem member letter inside
  have tokens := strtok_flatMap (List.mem_singleton_self ';') nonempty outside []
  rwa [strtok_nil, List.append_nil, List.append_nil, ← strListInit_eq_flatMap] at tokens

/-- The string of a list is cut into the same elements again. -/
theorem strtok_cStr_strListInit {vec : List Text} (nonempty : ∀ elem ∈ vec, elem ≠ [])
    (plain : ∀ elem ∈ vec, ∀ letter ∈ elem, letter ≠ ';' ∧ letter ≠ '\x00') :
    strtok [';'] (cStr (strListInit vec)) = vec := by
  have noZero : '\x00' ∉ strListInit vec := by
    rw [strListInit_eq_flatMap, List.mem_flatMap]
    rintro ⟨elem, member, inside⟩
    rcases List.mem_append.mp inside with inside | inside
    · exact (plain elem member _ inside).2 rfl
    · simp at inside
  rw [cStr_of_notMem noZero]
  exact strtok_strListInit nonempty fun elem member letter inside =>
    (plain elem member letter inside).1

theorem foldl_removeToken (elem : Text) (tokens kept : List Text) (found : Bool) :
    tokens.foldl (removeToken elem) (strListInit kept, found) =
      (strListInit (kept ++ tokens.filter (!sameNoCase · elem)),
        found || tokens.any (sameNoCase · elem)) := by
  induction tokens generalizing kept found with
  | nil => simp
  | cons token rest ih =>
      rw [List.foldl_cons, removeToken]
      by_cases same : sameNoCase token elem
      · simp [same, ih]
      · simp only [same, Bool.false_eq_true, if_false]
        rw [← strListInit_append, ih]
        simp [same]

theorem texts_nonempty (elems : List Element) : ∀ text ∈ elems.map Element.text, text ≠ [] := by
  intro text member
  obtain ⟨elem, _, rfl⟩ := List.mem_map.mp member
  exact elem.nonempty

theorem texts_plain (elems : List Element) :
    ∀ text ∈ elems.map Element.text, ∀ letter ∈ text, letter ≠ ';' ∧ letter ≠ '\x00' := by
  intro text member
  obtain ⟨elem, _, rfl⟩ := List.mem_map.mp member
  exact elem.plain

/-- At most one element of a list is removed. -/
theorem ListValid.filter_eq_eraseP {list : List Text} (valid : ListValid list) (elem : Text) :
    list.filter (!sameNoCase · elem) = list.eraseP (sameNoCase · elem) := by
  have distinct := valid.distinct
  clear valid
  induction list with
  | nil => rfl
  | cons first rest ih =>
      rw [List.pairwise_cons] at distinct
      by_cases same : sameNoCase first elem
      · rw [List.eraseP_cons, same, cond_true, List.filter_cons_of_neg (by simp [same]),
          List.filter_eq_self]
        intro other member
        have different := distinct.1 other member
        rw [Bool.eq_false_iff, ne_eq, sameNoCase_iff] at different
        rw [Bool.not_eq_true', Bool.eq_false_iff, ne_eq, sameNoCase_iff]
        rw [sameNoCase_iff] at same
        exact fun equal => different (same.trans equal.symm)
      · rw [List.eraseP_cons, Bool.eq_false_iff.mpr same, cond_false,
          List.filter_cons_of_pos (by simp [same]), ih distinct.2]

theorem ListValid.append {list : List Text} (valid : ListValid list) (elem : Element)
    (fresh : list.any (sameNoCase · elem.text) = false) : ListValid (list ++ [elem.text]) where
  nonempty := by
    intro other member
    rcases List.mem_append.mp member with member | member
    · exact valid.nonempty other member
    · exact List.mem_singleton.mp member ▸ elem.nonempty
  plain := by
    intro other member
    rcases List.mem_append.mp member with member | member
    · exact valid.plain other member
    · exact List.mem_singleton.mp member ▸ elem.plain
  distinct := by
    rw [List.pairwise_append]
    refine ⟨valid.distinct, List.pairwise_singleton _ _, ?_⟩
    intro first member second single
    rw [List.mem_singleton.mp single]
    exact Bool.eq_false_iff.mpr (List.any_eq_false.mp fresh first member)

theorem ListValid.eraseP {list : List Text} (valid : ListValid list) (elem : Text) :
    ListValid (list.eraseP (sameNoCase · elem)) where
  nonempty other member := valid.nonempty other (List.mem_of_mem_eraseP member)
  plain other member := valid.plain other (List.mem_of_mem_eraseP member)
  distinct := valid.distinct.sublist (List.eraseP_sublist ..)

/-- The string holds the elements of a valid list. -/
def Represents (str : Text) (list : List Text) : Prop := str = strListInit list ∧ ListValid list

theorem Represents.tokens {str : Text} {list : List Text} (represents : Represents str list) :
    strtok [';'] (cStr str) = list := by
  rw [represents.1]
  exact strtok_cStr_strListInit represents.2.nonempty represents.2.plain

theorem Represents.exists_eq {str : Text} {list : List Text} (represents : Represents str list)
    (elem : Text) : strListExists str (some elem) = if list.any (sameNoCase · elem) then 1 else 0 := by
  rw [strListExists, represents.tokens]

theorem stringList_follows (str : Text) (list : List Text) (call : ListCall)
    (represents : Represents str list) :
    Represents (stringList.respond str call).1 (referenceList.respond list call).1 ∧
      (stringList.respond str call).2 = (referenceList.respond list call).2 := by
  cases call with
  | add elem =>
      simp only [stringList, referenceList, strListAdd, represents.exists_eq]
      by_cases present : list.any (sameNoCase · elem.text)
      · simp [present, represents]
      · have fresh := Bool.eq_false_iff.mpr present
        simp only [fresh, Bool.false_eq_true, if_false, if_true]
        refine ⟨⟨?_, represents.2.append elem fresh⟩, trivial⟩
        rw [strListInit_append, represents.1]
  | remove elem =>
      simp only [stringList, referenceList, strListRemove, represents.tokens]
      have folded := foldl_removeToken elem.text list [] false
      rw [strListInit, List.foldl_nil, List.nil_append, Bool.false_or,
        represents.2.filter_eq_eraseP] at folded
      rw [folded]
      exact ⟨⟨rfl, represents.2.eraseP elem.text⟩, rfl⟩
  | «exists» elem =>
      simp only [stringList, referenceList, represents.exists_eq]
      exact ⟨represents, trivial⟩

/-- Whatever calls are made, the string holds the reference list, the error codes
are those of the reference, and no two elements are equal up to case; and a list
that is built at once is cut into the same elements again. -/
theorem stringList_refines :
    (∀ calls : List ListCall,
      strListSplit (some (cStr (stringList.run [] calls).1)) = (referenceList.run [] calls).1 ∧
        (stringList.run [] calls).2 = (referenceList.run [] calls).2 ∧
        (referenceList.run [] calls).1.Pairwise fun first second =>
          sameNoCase first second = false) ∧
      ∀ elements : List Element,
        strListSplit (some (cStr (strListInit (elements.map Element.text)))) =
          elements.map Element.text := by
  constructor
  · intro calls
    have empty : Represents [] [] := by
      refine ⟨rfl, ?_, ?_, List.Pairwise.nil⟩ <;> simp
    obtain ⟨represents, sameCodes⟩ := Responder.run_simulation stringList_follows empty calls
    exact ⟨represents.tokens, sameCodes, represents.2.distinct⟩
  · intro elements
    exact strtok_cStr_strListInit (texts_nonempty elements) (texts_plain elements)

/-! ## Lists from elsewhere -/

/-- A list string in the documented format, with or without a separator after the last
element. -/
def listString (elems : List Text) (closed : Bool) : Text :=
  if closed then strListInit elems else [';'].intercalate elems

theorem intercalate_concat (init : List Text) (last : Text) :
    [';'].intercalate (init ++ [last]) = strListInit init ++ last := by
  rw [strListInit_eq_flatMap]
  induction init with
  | nil => rw [List.nil_append, List.intercalate_singleton, List.flatMap_nil, List.nil_append]
  | cons first init ih =>
      rw [List.cons_append, List.intercalate_cons_of_ne_nil (by simp), ih, List.flatMap_cons,
        List.append_assoc, List.append_assoc, List.append_assoc]

/-- The reader does not need the last separator. -/
theorem strtok_listString {elems : List Text} (nonempty : ∀ elem ∈ elems, elem ≠ [])
    (plain : ∀ elem ∈ elems, ∀ letter ∈ elem, letter ≠ ';') (closed : Bool) :
    strtok [';'] (listString elems closed) = elems := by
  have tokens := strtok_strListInit nonempty plain
  cases closed with
  | true => exact tokens
  | false =>
      cases elems using List.reverseRecOn with
      | nil => rfl
      | append_singleton init last =>
          rw [strListInit_append, strtok_concat (List.mem_singleton_self _)] at tokens
          rw [listString, if_neg Bool.false_ne_true, intercalate_concat, tokens]

theorem listString_plain {elems : List Text} (plain : ∀ elem ∈ elems, '\x00' ∉ elem)
    (closed : Bool) : '\x00' ∉ listString elems closed := by
  have written : '\x00' ∉ strListInit elems := by
    rw [strListInit_eq_flatMap, List.mem_flatMap]
    rintro ⟨elem, member, inside⟩
    rcases List.mem_append.mp inside with inside | inside
    · exact plain elem member inside
    · simp at inside
  cases closed with
  | true => exact written
  | false =>
      cases elems using List.reverseRecOn with
      | nil => exact written
      | append_singleton init last =>
          rw [strListInit_append] at written
          rw [listString, if_neg Bool.false_ne_true, intercalate_concat]
          exact fun member => written (List.mem_append_left _ member)

/-- To a last element without a separator the new element is glued. -/
theorem listString_glued (init : List Text) (last elem : Text) :
    listString (init ++ [last]) false ++ elem ++ [';'] = strListInit (init ++ [last ++ elem]) := by
  rw [listString, if_neg Bool.false_ne_true, intercalate_concat, strListInit_append,
    List.append_assoc (strListInit init)]

theorem listString_extended {elems : List Text} {closed : Bool} (ended : closed = true ∨ elems = [])
    (elem : Text) : listString elems closed ++ elem ++ [';'] = strListInit (elems ++ [elem]) := by
  have same : listString elems closed = strListInit elems := by
    rcases ended with rfl | rfl
    · rfl
    · cases closed with
      | true => rfl
      | false => rfl
  rw [same, strListInit_append]

/-- A new element is appended to a list exactly if it is not on it yet and the list
ends with a separator or is empty. -/
theorem strListAdd_appends_iff (elems : List Element) (closed : Bool) (elem : Element) :
    ((strListAdd (listString (elems.map Element.text) closed) (some elem.text)).2 = errOk ∧
        strListSplit (some (cStr
          (strListAdd (listString (elems.map Element.text) closed) (some elem.text)).1)) =
          elems.map Element.text ++ [elem.text]) ↔
      strListExists (listString (elems.map Element.text) closed) (some elem.text) = 0 ∧
        (closed = true ∨ elems = []) := by
  rw [strListAdd]
  by_cases absent :
      strListExists (listString (elems.map Element.text) closed) (some elem.text) = 0
  · rw [if_pos absent]
    simp only [absent, true_and, strListSplit]
    constructor
    · intro appended
      by_contra open_
      rw [not_or] at open_
      obtain ⟨init, last, rfl⟩ := (List.eq_nil_or_concat' elems).resolve_left open_.2
      have glued : Element.text last ++ elem.text ≠ [] ∧
          ∀ letter ∈ Element.text last ++ elem.text, letter ≠ ';' ∧ letter ≠ '\x00' := by
        refine ⟨by simp [last.nonempty], ?_⟩
        exact List.forall_mem_append.mpr ⟨last.plain, elem.plain⟩
      rw [Bool.eq_false_iff.mpr open_.1, List.map_append, List.map_singleton, listString_glued,
        strtok_cStr_strListInit] at appended
      · have counted := congrArg List.length appended
        simp at counted
      · exact List.forall_mem_append.mpr ⟨texts_nonempty init, by simpa using glued.1⟩
      · exact List.forall_mem_append.mpr ⟨texts_plain init, by simpa using glued.2⟩
    · intro ended
      have added : elems.map Element.text ++ [elem.text] = (elems ++ [elem]).map Element.text := by
        simp
      rw [listString_extended (by simpa using ended), added,
        strtok_cStr_strListInit (texts_nonempty _) (texts_plain _)]
  · rw [if_neg absent]
    simp [absent, errOk, errAlreadyExists]

/-- `maciek` is added to `jozek;janek`, which has no separator at its end. -/
theorem strListAdd_glues :
    listString ["jozek".toList, "janek".toList] false = "jozek;janek".toList ∧
      strListExists "jozek;janek".toList (some "maciek".toList) = 0 ∧
      strListAdd "jozek;janek".toList (some "maciek".toList) = ("jozek;janekmaciek;".toList, errOk) ∧
      strListSplit (some (cStr "jozek;janekmaciek;".toList)) ≠
        ["jozek".toList, "janek".toList, "maciek".toList] := by
  decide

end Tegenaria.LibStr
