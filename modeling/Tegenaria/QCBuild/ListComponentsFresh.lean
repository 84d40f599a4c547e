import Tegenaria.Foundation.Reuse
import Tegenaria.QCBuild.ListComponents

/-!
# The components of a project, one directory after the other

A round of `ListComponents` that finds its objects as an earlier round has left them does the same as a
round with new objects, as long as the object of the component knows its directory.  From there on
components that are alike get the same users.
-/

namespace Tegenaria.QCBuild.ListComponents

open Foundation Foundation.Outcome
open LibStr SourceInfo

/-! ## Importing a component -/

section Import

variable {files : ProjectFiles} {targetMachine currentDir dir : Text} {pi pi' ci ci' result : SourceInfo}

theorem inheritVar_alike (project : pi.Alike pi') (component : ci.Alike ci') (lvalue : Text) (missing : Bool) :
    EndAlike Alike (inheritVar pi ci lvalue missing) (inheritVar pi' ci' lvalue missing) := by
  rw [inheritVar, inheritVar, project.isset, project.get]
  split_ifs
  · exact (component.set lvalue _ false).bind fun _ _ alike => alike.set lvalue inheritedNote true
  · exact .ok component

theorem importComponent_alike (project : pi.Alike pi') (component : ci.Alike ci') (dir : Text) :
    EndAlike Alike (importComponent pi ci dir) (importComponent pi' ci' dir) := by
  rw [importComponent, importComponent, project.get]
  refine (component.set rootName _ false).bind fun _ _ rooted => ?_
  refine (rooted.set compDirRelName dir false).bind fun first second placed => ?_
  rw [placed.isset]
  refine (inheritVar_alike project placed copyrightName _).bind fun first second inherited => ?_
  rw [inherited.get]
  exact inheritVar_alike project inherited licenseName _

theorem inheritVar_located {lvalue : Text} {missing : Bool} (plain : Plain lvalue) (other : compDirName ≠ lvalue)
    (located : Located ci) (done : inheritVar pi ci lvalue missing = .ok result) : Located result := by
  rw [inheritVar] at done
  split_ifs at done
  · rw [set_plain plain] at done
    simp only [Except.bind, set_plain plain, Except.ok.injEq] at done
    exact done ▸ (located.assign plain.1 other).assign plain.1 other
  · cases done
    exact located

/-- A component that is put on the list knows its directory. -/
theorem importComponent_located (located : Located ci) (done : importComponent pi ci dir = .ok result) :
    Located result := by
  have relative : Plain compDirRelName := by unfold Plain; decide
  have copyright : Plain copyrightName := by unfold Plain; decide
  have license : Plain licenseName := by unfold Plain; decide
  change (ci.set rootName (pi.get rootName) false >>= _) = _ at done
  obtain ⟨rooted, root, done⟩ := bind_eq_ok.mp done
  rw [set_plain relative] at done
  change (inheritVar pi (rooted.assign compDirRelName dir false) copyrightName _ >>= _) = _ at done
  obtain ⟨inherited, first, done⟩ := bind_eq_ok.mp done
  have placed : Located (rooted.assign compDirRelName dir false) :=
    (located.set_root root).assign relative.1 (by decide)
  exact inheritVar_located license (by decide) (inheritVar_located copyright (by decide) placed first) done

/-- What a round has added, compared with the same round on new objects. -/
structure RoundAlike (files : ProjectFiles) (targetMachine currentDir dir : Text) (state later fresh : State) :
    Prop where
  comps : ∃ new added, later.comps = state.comps ++ new ∧ fresh.comps = added ∧ List.Forall₂ Alike new added
  one : fresh.comps.length ≤ 1
  located : Located later.ci ↔ ¬ Spoils files targetMachine currentDir dir

/-- A round that starts with a component in its place does the same as on new objects. -/
theorem visit_alike {state : State} (isDir : files.isDir currentDir) (entered : skipped dir = false)
    (inProject : InProject files targetMachine currentDir dir) (located : Located state.ci) :
    EndAlike (RoundAlike files targetMachine currentDir dir state) (visit files targetMachine currentDir state dir)
      (visit files targetMachine currentDir (freshState currentDir) dir) := by
  have inside := isDir_fileSetDir isDir dir
  have here (start : Text) :
      files.fileSetDir (files.fileSetDir start currentDir) dir = files.fileSetDir currentDir dir := by
    rw [fileSetDir_isDir files start isDir]
  rw [visit, visit, if_neg (by simp [entered]), if_neg (by simp [entered]), here, here]
  refine (loadComponent_alike (files.nonempty _ inside) located).attach.bind fun left right same => ?_
  obtain ⟨left, loaded⟩ := left
  obtain ⟨right, other⟩ := right
  obtain ⟨⟨same, alike, kept, placed⟩, -, freshLoad⟩ := same
  obtain rfl : loaded = other := same
  dsimp only at alike kept placed ⊢
  cases loaded with
  | false =>
      refine .ok ⟨⟨[], [], (List.append_nil _).symm, rfl, .nil⟩, Nat.zero_le 1, kept.trans ?_⟩
      refine ⟨fun inPlace spoils => ?_, fun unspoilt => ?_⟩
      · obtain ⟨again, loadedAgain, misplaced⟩ := spoils
        cases freshLoad.symm.trans loadedAgain
        exact misplaced inPlace
      · by_contra misplaced
        exact unspoilt ⟨right, freshLoad, misplaced⟩
  | true =>
      have unspoilt : ¬ Spoils files targetMachine currentDir dir := by
        rintro ⟨again, loadedAgain, -⟩
        cases freshLoad.symm.trans loadedAgain
      have alike : left.Alike right := alike rfl
      rw [if_pos rfl, if_pos rfl]
      refine (loadProject_alike state.pi initial inside).attach.bind fun project project' found => ?_
      obtain ⟨project, found₁, reached⟩ := project
      obtain ⟨project', found₂, reached'⟩ := project'
      obtain ⟨⟨rest, projects⟩, -, climbed⟩ := found
      have success := inProject _ _ _ _ freshLoad climbed
      cases rest
      have projects : project.Alike project' := projects success
      dsimp only
      rw [alike.type]
      split_ifs with part
      · refine (importComponent_alike projects alike dir).attach.map fun one two both => ?_
        obtain ⟨imported, first, -⟩ := both
        exact ⟨⟨[one], [two], rfl, rfl, .cons imported .nil⟩, Nat.le_refl 1,
          iff_of_true (importComponent_located (placed rfl) first) unspoilt⟩
      · refine .ok ⟨⟨[], [], (List.append_nil _).symm, rfl, .nil⟩, Nat.zero_le 1, ?_⟩
        exact iff_of_true (placed rfl) unspoilt

/-- A round that starts with a component that is not in its place reads outside of a string. -/
theorem visit_spoilt {state : State} (entered : skipped dir = false) (spoilt : ¬ Located state.ci) :
    visit files targetMachine currentDir state dir = .error .outsideString := by
  rw [visit, if_neg (by simp [entered])]
  simp only [loadComponent_spoilt spoilt]
  rfl

end Import

/-! ## Users of components that are alike -/

section Users

variable {first second : SourceInfo} {comps comps' : List SourceInfo}

theorem map_same {Value : Type} {field : SourceInfo → Value}
    (same : ∀ first second, first.Alike second → field first = field second)
    (alike : List.Forall₂ Alike comps comps') : comps.map field = comps'.map field := by
  induction alike with
  | nil => rfl
  | cons one more ih => rw [List.map_cons, List.map_cons, same _ _ one, ih]

theorem titles_same (alike : List.Forall₂ Alike comps comps') : comps.map title = comps'.map title :=
  map_same (fun _ _ one => one.get titleName) alike

theorem titleToIdMap_alike (alike : List.Forall₂ Alike comps comps') : titleToIdMap comps = titleToIdMap comps' := by
  have onTitles (comps : List SourceInfo) :
      (comps.zipIdx.map fun entry => (entry.1.title, entry.2)) = (comps.map title).zipIdx := by
    rw [List.zipIdx_map]
    rfl
  rw [titleToIdMap_eq, titleToIdMap_eq, onTitles, onTitles, titles_same alike]

theorem bookings_alike (alike : List.Forall₂ Alike comps comps') : bookings comps = bookings comps' := by
  have targets : target comps = target comps' := by
    funext name
    rw [target, target, titleToIdMap_alike alike]
  have onField (comps : List SourceInfo) (onto : Text → Nat) :
      (comps.flatMap fun info => (info.dependsSet.sort (· ≤ ·)).map fun name => (onto name, info.title)) =
        (comps.map fun info => (info.dependsSet, info.title)).flatMap fun field =>
          (field.1.sort (· ≤ ·)).map fun name => (onto name, field.2) := by
    rw [List.flatMap_map]
  have fields : (comps.map fun info => (info.dependsSet, info.title)) =
      comps'.map fun info => (info.dependsSet, info.title) :=
    map_same (fun _ _ one => Prod.ext one.dependsSet (one.get titleName)) alike
  change (comps.flatMap fun info => _) = comps'.flatMap fun info => _
  simp only [bookingsOf, targets]
  rw [onField, onField, fields]

theorem catUsedBy_alike (alike : first.Alike second) (name : Text) :
    (catUsedBy first name).Alike (catUsedBy second name) := by
  rw [catUsedBy_eq, catUsedBy_eq, alike.get]
  exact ⟨alike.type, alike.dependsResolved, congrArg (Function.update · _ _) alike.vars, alike.dependsSet⟩

theorem modify_alike (alike : List.Forall₂ Alike comps comps') (index : Nat) (name : Text) :
    List.Forall₂ Alike (comps.modify index fun info => catUsedBy info name)
      (comps'.modify index fun info => catUsedBy info name) := by
  induction alike generalizing index with
  | nil => cases index <;> exact .nil
  | cons one more ih =>
      cases index with
      | zero => exact .cons (catUsedBy_alike one name) more
      | succ index => exact .cons one (ih index)

/-- The same titles are booked on components that are alike. -/
theorem generateUsedBy_alike (alike : List.Forall₂ Alike comps comps') :
    List.Forall₂ Alike (generateUsedBy comps) (generateUsedBy comps') := by
  rw [generateUsedBy_eq, generateUsedBy_eq, bookings_alike alike]
  generalize bookings comps' = all
  induction all generalizing comps comps' with
  | nil => exact alike
  | cons booking all ih => exact ih (modify_alike alike booking.1 booking.2)

end Users

/-! ## The whole call -/

section Call

variable {files : ProjectFiles} {targetMachine currentDir : Text} {dirs : List Text} {pi root : SourceInfo}

/-- The directories that are entered. -/
def visited (dirs : List Text) : List Text := dirs.filter fun dir => !skipped dir

theorem reuses (isDir : files.isDir currentDir)
    (inProject : ∀ dir ∈ visited dirs, InProject files targetMachine currentDir dir) :
    Reuse.Reuses (visit files targetMachine currentDir) (componentAt files targetMachine currentDir) State.comps
      Alike (fun state => Located state.ci) (Spoils files targetMachine currentDir) (visited dirs) where
  forth state located dir member fresh := by
    have entered : skipped dir = false := by simpa using (List.mem_filter.mp member).2
    have ends := visit_alike isDir entered (inProject dir member) located
    obtain ⟨added, done⟩ := fresh
    rw [componentAt] at done
    cases alone : visit files targetMachine currentDir (freshState currentDir) dir with
    | error failure => simp [alone, Except.map] at done
    | ok state' =>
        obtain ⟨later, done, -⟩ := ends.result_right alone
        exact ⟨later, done⟩
  back state located dir member later done := by
    have entered : skipped dir = false := by simpa using (List.mem_filter.mp member).2
    obtain ⟨fresh, alone, ⟨new, added, grown, all, alike⟩, one, placed⟩ :=
      (visit_alike isDir entered (inProject dir member) located).result_left done
    refine ⟨fresh.comps.head?, new, ?_, grown, ?_, placed⟩
    · rw [componentAt, alone]
      rfl
    · rw [all] at one ⊢
      match added with
      | [] => exact alike
      | [only] => exact alike
      | _ :: _ :: _ => exact absurd one (by simp)
  blocked state spoilt dir member later done := by
    have entered : skipped dir = false := by simpa using (List.mem_filter.mp member).2
    rw [visit_spoilt entered spoilt] at done
    cases done

theorem importAll_eq (pi : SourceInfo) (workingDir : Text) (dirs : List Text) :
    importAll files targetMachine currentDir pi workingDir dirs =
      (visited dirs).foldlM (visit files targetMachine currentDir)
        { workingDir, pi, ci := initial, comps := [], titleToIdMap := .empty } := by
  have passes (state : State) (dir : Text) : visit files targetMachine currentDir state dir =
      if (!skipped dir) = true then visit files targetMachine currentDir state dir else pure state := by
    cases out : skipped dir with
    | false => rfl
    | true =>
        rw [visit, if_pos out]
        rfl
  rw [importAll, visited, List.foldlM_filter]
  congr 1
  funext state dir
  exact passes state dir

/-- The map holds the numbers of the components that are on the list. -/
theorem map_of_visit {state later : State} {dir : Text} (map : state.titleToIdMap = titleToIdMap state.comps)
    (done : visit files targetMachine currentDir state dir = .ok later) :
    later.titleToIdMap = titleToIdMap later.comps := by
  rw [visit] at done
  split_ifs at done
  · cases done
    exact map
  · obtain ⟨⟨ci, loaded⟩, -, done⟩ := bind_eq_ok.mp done
    cases loaded with
    | false =>
        cases done
        exact map
    | true =>
        dsimp only at done
        rw [if_pos rfl] at done
        obtain ⟨⟨pi, found, workingDir⟩, -, done⟩ := bind_eq_ok.mp done
        dsimp only at done
        split_ifs at done
        · cases imported : importComponent pi ci dir with
          | error failure =>
              rw [imported] at done
              cases done
          | ok ci =>
              rw [imported] at done
              cases done
              rw [titleToIdMap, List.zipIdx_append, List.foldl_append, ← titleToIdMap, ← map]
              simp
        · cases done
          exact map

theorem useEach_eq {state : State} (map : state.titleToIdMap = titleToIdMap state.comps) :
    useEach state = generateUsedBy state.comps := by
  rw [useEach, generateUsedBy, map]

theorem map_of_run {state final : State} (map : state.titleToIdMap = titleToIdMap state.comps)
    (ends : dirs.foldlM (visit files targetMachine currentDir) state = .ok final) :
    final.titleToIdMap = titleToIdMap final.comps := by
  induction dirs generalizing state with
  | nil =>
      cases ends
      exact map
  | cons dir dirs ih =>
      rw [List.foldlM_cons, bind_eq_ok] at ends
      obtain ⟨later, done, ends⟩ := ends
      exact ih (map_of_visit map done) ends

theorem nodup_of_lists {tree : LibFile.FileSystem} {limit flags : Nat} {root mask : Text} {recursive : Bool}
    {code : Int} (limited : tree.Limited limit)
    (listed : LibFile.ListDirs.Lists tree root mask recursive flags (code, dirs)) : dirs.Nodup := by
  obtain ⟨code', dirs', again, once, -⟩ := LibFile.ListDirs.lists_directories limited mask recursive
  cases listed.unique again
  exact once

/-- `ListComponents` uses its objects again in every directory.  If the components lie in projects, then
this does no harm as long as no file ends at a line that cannot be split behind the type of a part and
before another directory that is entered: else the call reads outside of a string.  The call returns
exactly if that is so and every directory can be read by itself.  Then no directory has been entered
twice, the components are those that the directories give by themselves, in the order of the listing and
with their users, and the working directory is the one from before. -/
theorem listComponents_fresh {limit : Nat} {code : Int} (isDir : files.isDir currentDir)
    (opened : pi.loadComponent files targetMachine currentDir = .ok (root, true))
    (limited : (files.tree (files.fileSetDir currentDir (root.get rootName))).Limited limit)
    (listed : LibFile.ListDirs.Lists (files.tree (files.fileSetDir currentDir (root.get rootName))) ['.'] ['*'] true
      LibFile.FILE_SKIP_HIDDEN (code, dirs))
    (inProject : ∀ dir ∈ visited dirs, InProject files targetMachine currentDir dir) :
    ((∃ result, listComponents files targetMachine currentDir dirs pi = .ok result) ↔
      (∀ dir ∈ visited dirs, ∃ entry, componentAt files targetMachine currentDir dir = .ok entry) ∧
        ∀ dir ∈ (visited dirs).dropLast, ¬ Spoils files targetMachine currentDir dir) ∧
    ∀ result, listComponents files targetMachine currentDir dirs pi = .ok result →
      result.exitCode = 0 ∧ result.workingDir = currentDir ∧ (visited dirs).Nodup ∧
      ∃ entries, (visited dirs).mapM (componentAt files targetMachine currentDir) = .ok entries ∧
        List.Forall₂ Alike result.comps (generateUsedBy entries.reduceOption) := by
  have located : Located initial := fun part => absurd part (by decide)
  have compared := reuses isDir inProject
  have called : listComponents files targetMachine currentDir dirs pi =
      (importAll files targetMachine currentDir root (files.fileSetDir currentDir (root.get rootName)) dirs).map
        fun state => { exitCode := 0, workingDir := files.fileSetDir state.workingDir currentDir
                       pi := state.pi, comps := useEach state } := by
    rw [listComponents, opened]
    rfl
  rw [called, importAll_eq]
  generalize begun :
    ({ workingDir := _, pi := root, ci := initial, comps := [], titleToIdMap := .empty } : State) = start
  have cleanStart : Located start.ci := begun ▸ located
  refine ⟨?returns, fun result done => ?_⟩
  case returns =>
    rw [← compared.succeeds_iff cleanStart]
    cases (visited dirs).foldlM (visit files targetMachine currentDir) start with
    | error failure => simp [Except.map]
    | ok state => simp [Except.map]
  cases ran : (visited dirs).foldlM (visit files targetMachine currentDir) start with
  | error failure =>
      rw [ran] at done
      cases done
  | ok state =>
      rw [ran] at done
      cases done
      obtain ⟨entries, new, each, grown, alike⟩ := compared.results_of_run cleanStart ran
      have noneBefore : start.comps = [] := begun ▸ rfl
      have sameMap : start.titleToIdMap = titleToIdMap start.comps := begun ▸ rfl
      rw [noneBefore, List.nil_append] at grown
      refine ⟨rfl, fileSetDir_isDir files _ isDir, (nodup_of_lists limited listed).filter _, entries, each, ?_⟩
      dsimp only
      rw [useEach_eq (map_of_run sameMap ran), grown]
      exact generateUsedBy_alike alike

/-- The root `/`, a project `/prj` and two directories in it. -/
def dirNames : List Text :=
  [['/'], ['/', 'p', 'r', 'j'], ['/', 'p', 'r', 'j', '/', 'a'], ['/', 'p', 'r', 'j', '/', 'b']]

/-- What the paths lead to. -/
def places : List (Text × Text) :=
  (dirNames.map fun dir => (dir, dir)) ++
  [(['/', 'p', 'r', 'j', '/', '.', '.'], ['/']),
    (['/', 'p', 'r', 'j', '/', 'a', '/', '.', '.'], ['/', 'p', 'r', 'j']),
    (['/', 'p', 'r', 'j', '/', 'b', '/', '.', '.'], ['/', 'p', 'r', 'j']),
    (['a'], ['/', 'p', 'r', 'j', '/', 'a']), (['b'], ['/', 'p', 'r', 'j', '/', 'b'])]

/-- The file of the library in `a` has no operator in its second line. -/
def brokenProject : ProjectFiles where
  isDir dir := dir ∈ dirNames
  enter _ path := (places.find? fun place => place.1 = path).map Prod.snd
  load path :=
    if path = ['/', 'p', 'r', 'j'] ++ qcbuildSrc then some ['T', 'Y', 'P', 'E', '=', 'P', 'R', 'O', 'J', 'E', 'C', 'T']
    else if path = ['/', 'p', 'r', 'j', '/', 'a'] ++ qcbuildSrc then
      some ['T', 'Y', 'P', 'E', '=', 'L', 'I', 'B', 'R', 'A', 'R', 'Y', '\n', 'x']
    else none
  tree _ :=
    { opendir := fun path => if path = ['.', '/'] then some [['a'], ['b']] else some []
      isDir := fun path => path = ['.', '/', 'a'] ∨ path = ['.', '/', 'b']
      distinct := by
        intro path names found
        split_ifs at found <;> cases found <;> decide
      plain := by
        intro path names found
        split_ifs at found <;> cases found <;> decide }
  isDir_enter := by
    intro start path dir entered
    obtain ⟨place, found, rfl⟩ := Option.map_eq_some_iff.mp entered
    have all : ∀ place ∈ places, place.2 ∈ dirNames := by decide
    exact all place (List.mem_of_find?_eq_some found)
  enter_again := by
    intro start dir isDir
    have all : ∀ dir ∈ dirNames, (places.find? fun place => place.1 = dir).map Prod.snd = some dir := by decide
    exact all dir isDir
  enter_parent := by
    intro start dir isDir long
    simp only [dirNames, List.mem_cons, List.not_mem_nil, or_false] at isDir
    rcases isDir with rfl | rfl | rfl | rfl
    · exact absurd long (by decide)
    · exact ⟨['/'], by decide, by decide⟩
    · exact ⟨['/', 'p', 'r', 'j'], by decide, by decide⟩
    · exact ⟨['/', 'p', 'r', 'j'], by decide, by decide⟩
  nonempty := by decide
  short := by decide

theorem listComponents_fresh_broken :
    ¬ ∃ result, listComponents brokenProject [] ['/', 'p', 'r', 'j'] [['a'], ['b']] initial = .ok result := by
  have limited : (brokenProject.tree ['/', 'p', 'r', 'j']).Limited 3 := by
    intro path long
    refine decide_eq_false ?_
    rintro (rfl | rfl) <;> exact absurd long (by decide)
  have listed : LibFile.ListDirs.Lists (brokenProject.tree ['/', 'p', 'r', 'j']) ['.'] ['*'] true
      LibFile.FILE_SKIP_HIDDEN (0, [['a'], ['b']]) := ⟨4, by decide⟩
  have fails : ∀ dir ∈ visited [['a'], ['b']], ∃ left, initial.loadComponent brokenProject []
      (brokenProject.fileSetDir ['/', 'p', 'r', 'j'] dir) = .ok (left, false) := by
    intro dir member
    have inside : dir = ['a'] ∨ dir = ['b'] := by simpa using (List.mem_filter.mp member).1
    rcases inside with rfl | rfl
    · exact ⟨_, rfl⟩
    · exact ⟨_, rfl⟩
  have inProject : ∀ dir ∈ visited [['a'], ['b']], InProject brokenProject [] ['/', 'p', 'r', 'j'] dir := by
    intro dir member ci pi found workingDir loaded
    obtain ⟨left, failed⟩ := fails dir member
    rw [failed] at loaded
    cases loaded
  have isDir : brokenProject.isDir ['/', 'p', 'r', 'j'] := by
    change _ ∈ dirNames
    decide
  rw [(listComponents_fresh isDir rfl limited listed inProject).1]
  rintro ⟨-, unspoilt⟩
  exact unspoilt ['a'] (by decide) ⟨_, rfl, fun located => located rfl rfl⟩

end Call

end Tegenaria.QCBuild.ListComponents
