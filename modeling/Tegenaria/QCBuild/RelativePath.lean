import Tegenaria.Foundation.PathWalk
import Tegenaria.QCBuild.SourceFile

/-!
# Paths relative to the root of a project

`SourceInfo::loadProject` climbs from a component towards the root of the project, and
`CreateRelativePath` drops as many directories from the path of the component as the climb has
passed.  A pointer walks back over the path, from one slash to the slash before.
-/

namespace Tegenaria.QCBuild

open Foundation.PathWalk LibStr

/-- A directory of an absolute path with the slash before it. -/
structure Component where
  slash : Char
  name : Text
  separates : isSlash slash = true
  nonempty : name ≠ []
  plain : ∀ letter ∈ name, isSlash letter = false
  notParent : name ≠ ['.', '.']

namespace Component

def text (component : Component) : Text := component.slash :: component.name

end Component

namespace RelativePath

def pathOf (components : List Component) : Text := components.flatMap Component.text

/-- `/..` -/
def parent : Text := ['/', '.', '.']

/-- The relative root after a number of steps of the climb. -/
def relRootOf (count : Nat) : Text := '.' :: (List.replicate count parent).flatten

/-- The loop of `loadProject`, with the directories from the innermost one.  The result is the value for
`ROOT`, if one of the directories is the root of a project. -/
def climb (isProject : Text → Bool) : List Component → Text → Option Text
  | [], _ => none
  | last :: outer, relRootDir =>
      let rootDir := pathOf (last :: outer).reverse
      if rootDir.length ≤ 3 then none
      else if isProject rootDir then some relRootDir
      else climb isProject outer (relRootDir ++ parent)

/-- The names joined with forward slashes. -/
def relativeOf (components : List Component) : Text :=
  ['/'].intercalate (components.map Component.name)

/-- The directory that an absolute path names. -/
def directoryOf (path : Text) : List Text := walk isSlash '.' [] path

/-! ## The pointer -/

variable {left rest : Text} {components front back : List Component}

theorem pathOf_append (front back : List Component) :
    pathOf (front ++ back) = pathOf front ++ pathOf back :=
  List.flatMap_append

theorem pathOf_concat (front : List Component) (last : Component) :
    pathOf (front ++ [last]) = pathOf front ++ last.text := by
  rw [pathOf_append, pathOf, pathOf, List.flatMap_singleton]

theorem length_text (component : Component) : component.text.length = component.name.length + 1 := rfl

/-- From any place in the name the pointer goes back to the slash before the name. -/
theorem backToSlash_component (component : Component) {inside : Nat}
    (within : inside ≤ component.name.length) :
    backToSlash (left ++ component.text ++ rest) (left.length + inside) = left.length := by
  induction inside with
  | zero =>
      cases left with
      | nil => rfl
      | cons first later =>
          have atSlash : ((first :: later ++ component.text ++ rest).drop (later.length + 1)).headD '\x00' =
              component.slash := by
            rw [List.append_assoc, List.cons_append, List.drop_succ_cons, List.drop_left]
            rfl
          rw [Nat.add_zero, List.length_cons, backToSlash, atSlash, component.separates, if_pos rfl]
  | succ earlier ih =>
      have here : earlier < component.name.length := by omega
      have letter : ((left ++ component.text ++ rest).drop (left.length + earlier + 1)).headD '\x00' =
          component.name[earlier] := by
        rw [List.append_assoc, Nat.add_assoc, List.drop_append, List.drop_of_length_le (by omega),
          List.nil_append, Nat.add_sub_cancel_left, Component.text, List.cons_append, List.drop_succ_cons,
          List.drop_append_of_le_length (by omega), List.drop_eq_getElem_cons here]
        rfl
      have noSlash : isSlash component.name[earlier] = false := component.plain _ (List.getElem_mem here)
      rw [← Nat.add_assoc, backToSlash, letter, noSlash, if_neg (by decide), ih (by omega)]

/-- One step of the outer loop leaves the innermost component. -/
theorem goUp_component (component : Component) (count : Nat) {position : Nat}
    (behind : left.length < position) (within : position ≤ left.length + component.text.length) :
    goUp (left ++ component.text ++ rest) (count + 1) position =
      goUp (left ++ component.text ++ rest) count left.length := by
  rw [length_text] at within
  obtain ⟨inside, rfl⟩ : ∃ inside, position = left.length + inside + 1 :=
    ⟨position - left.length - 1, by omega⟩
  rw [goUp, backToSlash_component component (by omega)]

/-- From a slash the pointer goes back over whole components. -/
theorem goUp_components (front back : List Component) (rest : Text) :
    goUp (pathOf (front ++ back) ++ rest) back.length (pathOf (front ++ back)).length =
      some (pathOf front).length := by
  induction back using List.reverseRecOn generalizing rest with
  | nil => rw [List.append_nil, List.length_nil, goUp]
  | append_singleton earlier last ih =>
      have path : pathOf (front ++ (earlier ++ [last])) = pathOf (front ++ earlier) ++ last.text := by
        rw [← List.append_assoc, pathOf_concat]
      have length : (pathOf (front ++ earlier) ++ last.text).length =
          (pathOf (front ++ earlier)).length + last.text.length := List.length_append
      have shorter := length_text last
      have counted : (earlier ++ [last]).length = earlier.length + 1 := List.length_append
      rw [path, counted, goUp_component last earlier.length (by omega) (Nat.le_of_eq length),
        List.append_assoc, ih]

/-- The pointer starts at the last letter. -/
theorem goUp_path (front : List Component) (nonempty : back ≠ []) :
    goUp (pathOf (front ++ back)) back.length ((pathOf (front ++ back)).length - 1) =
      some (pathOf front).length := by
  obtain ⟨earlier, last, rfl⟩ := List.eq_nil_or_concat' back |>.resolve_left nonempty
  have path : pathOf (front ++ (earlier ++ [last])) = pathOf (front ++ earlier) ++ last.text ++ [] := by
    rw [← List.append_assoc, pathOf_concat, List.append_nil]
  have length : (pathOf (front ++ earlier) ++ last.text ++ []).length =
      (pathOf (front ++ earlier)).length + last.text.length := by
    rw [List.append_nil, List.length_append]
  have shorter := length_text last
  have named : 0 < last.name.length := List.length_pos_of_ne_nil last.nonempty
  have whole := goUp_components front earlier (last.text ++ [])
  have counted : (earlier ++ [last]).length = earlier.length + 1 := List.length_append
  rw [path, counted, goUp_component last earlier.length (by omega) (by omega), List.append_assoc,
    whole]

theorem relRootOf_succ (count : Nat) : relRootOf count ++ parent = relRootOf (count + 1) := by
  rw [relRootOf, relRootOf, List.replicate_succ', List.flatten_append, List.flatten_singleton]
  rfl

theorem countParents_relRootOf (count : Nat) : countParents (relRootOf count) = count := by
  have parents : countParents (List.replicate count parent).flatten = count := by
    induction count with
    | zero => rfl
    | succ count ih =>
        have next : (List.replicate (count + 1) parent).flatten =
            '/' :: '.' :: '.' :: (List.replicate count parent).flatten := rfl
        rw [next, countParents, countParents, ih]
        simp
  cases count with
  | zero => rfl
  | succ count =>
      have next : relRootOf (count + 1) =
          '.' :: '/' :: '.' :: '.' :: (List.replicate count parent).flatten := rfl
      rw [next, countParents]
      · exact parents
      · simp

/-! ## The relative path -/

/-- The letter that the normalization leaves. -/
def forward (letter : Char) : Char := if letter = '\\' then '/' else letter

theorem forward_name (component : Component) : component.name.map forward = component.name := by
  have same : ∀ letter ∈ component.name, forward letter = id letter := by
    intro letter member
    have plain := component.plain letter member
    rw [isSlash, decide_eq_false_iff_not, not_or] at plain
    exact if_neg plain.1
  rw [List.map_congr_left same, List.map_id]

theorem relativeOf_cons (first second : Component) (more : List Component) :
    relativeOf (first :: second :: more) = first.name ++ '/' :: relativeOf (second :: more) := by
  rw [relativeOf, List.map_cons, List.map_cons, List.intercalate_cons_cons, List.append_assoc]
  rfl

/-- Behind the first slash the path is the relative path, but for its slashes. -/
theorem forward_pathOf (first : Component) (later : List Component) :
    (first.name ++ pathOf later).map forward = relativeOf (first :: later) := by
  induction later generalizing first with
  | nil => rw [pathOf, List.flatMap_nil, List.append_nil, forward_name, relativeOf, List.map_singleton,
      List.intercalate_singleton]
  | cons second more ih =>
      have slash : forward second.slash = '/' := by
        have separates := second.separates
        rw [isSlash, decide_eq_true_eq] at separates
        cases separates with
        | inl back => rw [back]; rfl
        | inr ahead => rw [ahead]; rfl
      have next : pathOf (second :: more) = second.slash :: (second.name ++ pathOf more) := rfl
      rw [next, List.map_append, List.map_cons, forward_name, slash, ih, relativeOf_cons]

theorem createRelativePath_eq (front : List Component) (nonempty : back ≠ []) :
    createRelativePath (pathOf (front ++ back)) (relRootOf back.length) = some (relativeOf back) := by
  obtain ⟨first, later, rfl⟩ := List.exists_cons_of_ne_nil nonempty
  have path : pathOf (front ++ first :: later) =
      pathOf front ++ first.slash :: (first.name ++ pathOf later) := by
    rw [pathOf_append]
    rfl
  have notEmpty : pathOf (front ++ first :: later) ≠ [] := by
    rw [path]
    exact List.append_ne_nil_of_right_ne_nil _ (List.cons_ne_nil _ _)
  have behind : (pathOf (front ++ first :: later)).drop ((pathOf front).length + 1) =
      first.name ++ pathOf later := by
    rw [path, ← List.drop_drop, List.drop_left, List.drop_succ_cons, List.drop_zero]
  have up := goUp_path front nonempty
  rw [createRelativePath, if_neg notEmpty, countParents_relRootOf, up, Option.map_some, behind]
  exact congrArg some (forward_pathOf first later)

/-! ## Directories -/

theorem walk_name (component : Component) (directory : List Text) :
    walk isSlash '.' directory component.name = enter '.' directory component.name :=
  walk_part component.plain directory

/-- The path leads through its components one after another. -/
theorem walk_pathOf (components : List Component) (directory : List Text) :
    walk isSlash '.' directory (pathOf components) =
      (components.map Component.name).foldl (enter '.') directory := by
  induction components using List.reverseRecOn with
  | nil => exact walk_nil directory
  | append_singleton front last ih =>
      rw [pathOf_concat, Component.text, walk_append last.separates, ih, walk_name, List.map_append,
        List.foldl_append]
      rfl

theorem walk_relativeOf (components : List Component) (directory : List Text) :
    walk isSlash '.' directory (relativeOf components) =
      (components.map Component.name).foldl (enter '.') directory := by
  cases components with
  | nil => exact walk_nil directory
  | cons first later =>
      induction later generalizing first directory with
      | nil =>
          rw [relativeOf, List.map_singleton, List.intercalate_singleton, walk_name]
          rfl
      | cons second more ih =>
          rw [relativeOf_cons, walk_append (by decide), ih, walk_name]
          rfl

/-- The relative path leads on from the directory above it. -/
theorem directoryOf_relativeOf (above below : List Component) :
    directoryOf (pathOf above ++ '/' :: relativeOf below) = directoryOf (pathOf (above ++ below)) := by
  rw [directoryOf, walk_append (by decide), walk_relativeOf, walk_pathOf, directoryOf, walk_pathOf,
    List.map_append, List.foldl_append]

/-- Without dots a path names the directory with the names of its components. -/
theorem directoryOf_pathOf (noDot : ∀ component ∈ components, component.name ≠ ['.']) :
    directoryOf (pathOf components) = components.map Component.name := by
  induction components using List.reverseRecOn with
  | nil => exact walk_nil []
  | append_singleton front last ih =>
      have before := ih fun component member => noDot component (List.mem_append_left _ member)
      have notDot := noDot last (by simp)
      rw [directoryOf, walk_pathOf] at before ⊢
      rw [List.map_append, List.foldl_append, before]
      exact enter_name last.nonempty notDot last.notParent _

/-- The relative root leads up as many directories as it counts. -/
theorem walk_relRootOf (directory : List Text) (count : Nat) :
    walk isSlash '.' directory (relRootOf count) = directory.take (directory.length - count) := by
  induction count with
  | zero =>
      rw [Nat.sub_zero, List.take_length]
      exact walk_part (by simp [isSlash, relRootOf]) directory
  | succ count ih =>
      have up : walk isSlash '.' (directory.take (directory.length - count)) ['.', '.'] =
          (directory.take (directory.length - count)).dropLast :=
        walk_part (by simp [isSlash]) _
      have fewer : directory.length - count - 1 = directory.length - (count + 1) := by omega
      have path : relRootOf (count + 1) = relRootOf count ++ '/' :: ['.', '.'] :=
        (relRootOf_succ count).symm
      have shorter : min (directory.length - count) directory.length = directory.length - count := by omega
      rw [path, walk_append (by decide), ih, up, List.dropLast_eq_take, List.length_take,
        List.take_take, shorter, fewer]
      congr 1
      omega

/-- The path relative to a directory above is the rest of the path, and leads from there to its end. -/
theorem createRelativePath_above (components : List Component) {count : Nat} (positive : 1 ≤ count)
    (within : count ≤ components.length) :
    let above := components.take (components.length - count)
    let below := components.drop (components.length - count)
    createRelativePath (pathOf components) (relRootOf count) = some (relativeOf below) ∧
      directoryOf (pathOf above ++ '/' :: relativeOf below) = directoryOf (pathOf components) := by
  intro above below
  have split : above ++ below = components := List.take_append_drop _ components
  have length : below.length = count := by
    rw [List.length_drop]
    omega
  have nonempty : below ≠ [] := List.ne_nil_of_length_pos (by omega)
  have relative := createRelativePath_eq above nonempty
  have directory := directoryOf_relativeOf above below
  rw [split] at relative directory
  rw [length] at relative
  exact ⟨relative, directory⟩

/-! ## The climb -/

/-- The climb finds a project, and its relative root tells how far above. -/
theorem climb_eq_some {isProject : Text → Bool} {inner : List Component} (count : Nat) {found : Text}
    (climbed : climb isProject inner (relRootOf count) = some found) :
    ∃ more < inner.length, found = relRootOf (count + more) ∧
      isProject (pathOf (inner.drop more).reverse) = true := by
  induction inner generalizing count with
  | nil => exact absurd climbed (by simp [climb])
  | cons last outer ih =>
      rw [climb] at climbed
      split at climbed
      · exact absurd climbed.symm (Option.some_ne_none _)
      · split at climbed
        · next project =>
            exact ⟨0, by simp, (Option.some.inj climbed).symm, project⟩
        · rw [relRootOf_succ] at climbed
          obtain ⟨more, within, same, project⟩ := ih (count + 1) climbed
          refine ⟨more + 1, Nat.succ_lt_succ within, ?_, project⟩
          rw [same, Nat.add_assoc, Nat.add_comm 1]

end RelativePath

open RelativePath

variable (components : List Component) {count : Nat}

/-- The last components are left, joined with forward slashes.  Behind the directory above them they name
the directory of the whole path, and the relative root leads from there to the directory above. -/
theorem createRelativePath_inverts (positive : 1 ≤ count) (within : count ≤ components.length) :
    let above := components.take (components.length - count)
    let below := components.drop (components.length - count)
    createRelativePath (pathOf components) (relRootOf count) = some (relativeOf below) ∧
      directoryOf (pathOf above ++ '/' :: relativeOf below) = directoryOf (pathOf components) ∧
      ((∀ component ∈ components, component.name ≠ ['.']) →
        walk isSlash '.' (directoryOf (pathOf components)) (relRootOf count) =
          directoryOf (pathOf above)) := by
  intro above below
  obtain ⟨relative, directory⟩ := createRelativePath_above components positive within
  refine ⟨relative, directory, ?_⟩
  intro noDot
  have noDotAbove : ∀ component ∈ above, component.name ≠ ['.'] := fun component member =>
    noDot component (List.mem_of_mem_take member)
  rw [walk_relRootOf, directoryOf_pathOf noDot, directoryOf_pathOf noDotAbove, List.length_map,
    List.map_take]

/-- A component and the directory below it in a project two levels up. -/
theorem createRelativePath_inverts_two :
    let work : Component := ⟨'/', ['w'], by decide, by decide, by simp [isSlash], by decide⟩
    let tools : Component := ⟨'\\', ['t', 's'], by decide, by decide, by simp [isSlash], by decide⟩
    let build : Component := ⟨'/', ['b'], by decide, by decide, by simp [isSlash], by decide⟩
    createRelativePath (pathOf [work, tools, build]) (relRootOf 2) = some (relativeOf [tools, build]) ∧
      directoryOf (pathOf [work] ++ '/' :: relativeOf [tools, build]) =
        directoryOf (pathOf [work, tools, build]) ∧
      ((∀ component ∈ [work, tools, build], component.name ≠ ['.']) →
        walk isSlash '.' (directoryOf (pathOf [work, tools, build])) (relRootOf 2) =
          directoryOf (pathOf [work])) :=
  createRelativePath_inverts _ (by decide) (by decide)

/-- Where the climb finds the root of a project above the component, the relative path leads from there
to the component. -/
theorem createRelativePath_climb {isProject : Text → Bool} {found : Text}
    (climbed : climb isProject components.reverse ['.'] = some found) (higher : found ≠ ['.']) :
    ∃ root relative, isProject root = true ∧ createRelativePath (pathOf components) found = some relative ∧
      directoryOf (root ++ '/' :: relative) = directoryOf (pathOf components) := by
  obtain ⟨more, within, same, project⟩ := climb_eq_some 0 climbed
  rw [Nat.zero_add] at same
  have positive : 1 ≤ more := by
    refine Nat.one_le_iff_ne_zero.mpr ?_
    intro stays
    exact higher (by rw [same, stays]; rfl)
  rw [List.length_reverse] at within
  rw [List.drop_reverse, List.reverse_reverse] at project
  have relative := createRelativePath_above components positive (Nat.le_of_lt within)
  rw [same]
  exact ⟨_, _, project, relative⟩

end Tegenaria.QCBuild
