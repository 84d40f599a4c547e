import Mathlib.Data.List.TakeWhile
import Mathlib.Data.Nat.Bitwise
import Tegenaria.Foundation.Loop
import Tegenaria.Foundation.Traversal
import Tegenaria.LibFile.Directory

/-!
# Listing of directories

`ListDirs` keeps the directories that it has still to open on a stack.  The tree that it lists is the
one that `opendir`, `readdir` and `stat` show.  As `stat` follows symbolic links, a directory can be
seen again below itself; what ends the listing is that the system refuses long paths.

The sizes of the paths are taken as they are: the `int` that holds the size of the first path is too
small only for paths that no system opens.
-/

namespace Tegenaria.LibFile

open Foundation Traversal Loop

/-- What a system shows of its directories while nobody changes them. -/
structure FileSystem where
  /-- The names that `readdir` returns after an `opendir` that succeeds. -/
  opendir : List Char → Option (List Name)
  /-- `stat` succeeds and finds a directory. -/
  isDir : List Char → Bool
  distinct : ∀ spec names, opendir spec = some names → names.Nodup
  plain : ∀ spec names, opendir spec = some names → ∀ name ∈ names, '/' ∉ name

/-- The length from which on paths are refused. -/
def FileSystem.Limited (fs : FileSystem) (limit : Nat) : Prop :=
  ∀ path, limit < path.length → fs.isDir path = false

def FILE_SKIP_HIDDEN : Nat := 1 <<< 0

namespace ListDirs

/-- The local variables of `ListDirs` that change. -/
structure State where
  directories : List (List Char)
  dirs : List (List Char)
  deriving DecidableEq

section Model

variable (fs : FileSystem) (recursive : Bool) (flags : Nat) (skip : Nat)

/-- The body of the inner loop. -/
def readEntry (path : List Char) (state : State) (d_name : Name) : State :=
  if flags &&& FILE_SKIP_HIDDEN ≠ 0 ∧ d_name.head? = some '.' then state
  else if d_name ≠ ['.'] ∧ d_name ≠ ['.', '.'] then
    if fs.isDir (path ++ '/' :: d_name) then
      { dirs := state.dirs ++
          [if path.length = skip then d_name else path.drop (skip + 1) ++ '/' :: d_name]
        directories :=
          if recursive then (path ++ '/' :: d_name) :: state.directories else state.directories }
    else state
  else state

/-- The body of the outer loop. -/
def step (state : State) : Step State (Int × List (List Char)) :=
  match state.directories with
  | [] => .done (0, state.dirs)
  | path :: directories =>
      match fs.opendir (path ++ ['/']) with
      | none => .done (-1, state.dirs)
      | some names => .next (names.foldl (readEntry fs recursive flags skip path) { state with directories })

end Model

/-- The call ends with a result and a list. -/
def Lists (fs : FileSystem) (path _mask : List Char) (recursive : Bool) (flags : Nat)
    (result : Int × List (List Char)) : Prop :=
  Returns (step fs recursive flags path.length) ⟨[path], []⟩ result

/-! ## The tree below the first path -/

section Tree

variable (fs : FileSystem) (flags : Nat) (root : List Char)

/-- The names on a path, each behind a separator. -/
def tail (names : List Name) : List Char := names.flatMap fun name => '/' :: name

/-- The path that `ListDirs` builds from the names on it. -/
def place (names : List Name) : List Char := root ++ tail names

/-- The names on a path, with separators between them. -/
def relative (names : List Name) : List Char := (tail names).drop 1

/-- The entries that the inner loop does not skip. -/
def shown (path : List Char) (name : Name) : Bool :=
  decide (¬ (flags &&& FILE_SKIP_HIDDEN ≠ 0 ∧ name.head? = some '.')) &&
    decide (name ≠ ['.'] ∧ name ≠ ['.', '.']) && fs.isDir (path ++ '/' :: name)

/-- The directories in a directory, if it can be opened. -/
def directoriesIn (names : List Name) : List Name :=
  ((fs.opendir (place root names ++ ['/'])).getD []).filter (shown fs flags (place root names))

/-- A directory that is to be listed, given by the names that lead to it. -/
def Listed (recursive : Bool) (names : List Name) : Prop :=
  names ≠ [] ∧ Under (directoriesIn fs flags root) [] names ∧ (recursive = true ∨ names.length = 1)

/-- A directory whose entries are to be read. -/
def Entered (recursive : Bool) (names : List Name) : Prop :=
  names = [] ∨ recursive = true ∧ Under (directoriesIn fs flags root) [] names

end Tree

variable {fs : FileSystem} {flags limit : Nat} {root : List Char} {names other : List Name} {name : Name}

theorem tail_append (names : List Name) (name : Name) : tail (names ++ [name]) = tail names ++ '/' :: name := by
  rw [tail, List.flatMap_append, List.flatMap_singleton]
  rfl

theorem place_append (names : List Name) (name : Name) :
    place root (names ++ [name]) = place root names ++ '/' :: name := by
  rw [place, tail_append, ← List.append_assoc]
  rfl

theorem tail_eq_nil : tail names = [] ↔ names = [] := by
  cases names with
  | nil => exact ⟨fun _ => rfl, fun _ => rfl⟩
  | cons name names => exact ⟨nofun, nofun⟩

theorem length_le_tail (names : List Name) : names.length ≤ (tail names).length := by
  induction names with
  | nil => exact Nat.le_refl 0
  | cons name names ih =>
      rw [tail, List.flatMap_cons, List.length_append, List.length_cons, List.length_cons]
      exact Nat.add_comm names.length 1 ▸ Nat.add_le_add (Nat.le_add_left 1 _) ih

theorem length_place (names : List Name) : root.length + names.length ≤ (place root names).length := by
  rw [place, List.length_append]
  exact Nat.add_le_add_left (length_le_tail names) _

/-- Names without a separator can be read back from their path. -/
theorem tail_inj (left : ∀ name ∈ names, '/' ∉ name) (right : ∀ name ∈ other, '/' ∉ name)
    (same : tail names = tail other) : names = other := by
  induction names using List.reverseRecOn generalizing other with
  | nil => exact (tail_eq_nil.mp (same.symm.trans rfl)).symm
  | append_singleton names name ih =>
      rcases List.eq_nil_or_concat' other with rfl | ⟨others, last, rfl⟩
      · exact absurd (tail_eq_nil.mp same) (List.append_ne_nil_of_right_ne_nil _ (List.cons_ne_nil _ _))
      · rw [tail_append, tail_append] at same
        obtain ⟨front, rfl⟩ := (Separator.append_cons_inj (left name (by simp)) (right last (by simp))).mp same
        rw [ih (fun name member => left name (List.mem_append_left _ member))
          (fun name member => right name (List.mem_append_left _ member)) front]

theorem relative_inj (nonempty : names ≠ []) (otherNonempty : other ≠ [])
    (left : ∀ name ∈ names, '/' ∉ name) (right : ∀ name ∈ other, '/' ∉ name)
    (same : relative names = relative other) : names = other := by
  refine tail_inj left right ?_
  obtain ⟨first, rest, rfl⟩ := List.exists_cons_of_ne_nil nonempty
  obtain ⟨otherFirst, otherRest, rfl⟩ := List.exists_cons_of_ne_nil otherNonempty
  exact congrArg ('/' :: ·) same

/-! ## One directory -/

/-- The relative path that the inner loop writes. -/
theorem written_eq (names : List Name) (name : Name) :
    (if (place root names).length = root.length then name
      else (place root names).drop (root.length + 1) ++ '/' :: name) = relative (names ++ [name]) := by
  rw [relative, tail_append]
  rcases List.eq_nil_or_concat' names with rfl | ⟨front, last, rfl⟩
  · rw [if_pos (by rw [place]; simp [tail])]
    rfl
  · have longer : root.length < (place root (front ++ [last])).length :=
      Nat.lt_of_lt_of_le (Nat.lt_add_of_pos_right (by simp)) (length_place _)
    have nonempty : 1 ≤ (tail (front ++ [last])).length := Nat.le_trans (by simp) (length_le_tail _)
    rw [if_neg longer.ne', place, List.drop_append, Nat.add_sub_cancel_left,
      List.drop_eq_nil_of_le (Nat.le_succ _), List.nil_append, List.drop_append_of_le_length nonempty]

theorem readEntry_eq (recursive : Bool) (names : List Name) (state : State) (name : Name) :
    readEntry fs recursive flags root.length (place root names) state name =
      if shown fs flags (place root names) name then
        { dirs := state.dirs ++ [relative (names ++ [name])]
          directories :=
            if recursive then place root (names ++ [name]) :: state.directories else state.directories }
      else state := by
  rw [readEntry, written_eq, ← place_append, shown, ← place_append]
  by_cases hidden : flags &&& FILE_SKIP_HIDDEN ≠ 0 ∧ name.head? = some '.'
  · rw [if_pos hidden, if_neg (by simp [hidden])]
  · by_cases dots : name ≠ ['.'] ∧ name ≠ ['.', '.']
    · rw [if_neg hidden, if_pos dots, decide_eq_true hidden, decide_eq_true dots]
      rfl
    · rw [if_neg hidden, if_neg dots, decide_eq_false dots, Bool.and_false, Bool.false_and]
      exact (if_neg Bool.false_ne_true).symm

/-- The inner loop announces the directories that it finds and lays them on the stack. -/
theorem foldl_readEntry (recursive : Bool) (path : List Name) (state : State) (names : List Name) :
    names.foldl (readEntry fs recursive flags root.length (place root path)) state =
      { dirs := state.dirs ++
          ((names.filter (shown fs flags (place root path))).map fun name => path ++ [name]).map relative
        directories :=
          if recursive then
            ((names.filter (shown fs flags (place root path))).map fun name => path ++ [name]).reverse.map
              (place root) ++ state.directories
          else state.directories } := by
  induction names generalizing state with
  | nil => cases recursive <;> simp
  | cons name names ih =>
      rw [List.foldl_cons, ih, readEntry_eq]
      by_cases found : shown fs flags (place root path) name = true
      · rw [if_pos found, List.filter_cons_of_pos found]
        cases recursive <;> simp
      · rw [if_neg found, List.filter_cons_of_neg found]

theorem directoriesIn_of_opendir {found : List Name}
    (opened : fs.opendir (place root names ++ ['/']) = some found) :
    directoriesIn fs flags root names = found.filter (shown fs flags (place root names)) := by
  rw [directoriesIn, opened]
  rfl

/-- One round of the outer loop. -/
theorem step_cons (recursive : Bool) {rest : List (List Char)} {dirs : List (List Char)}
    (opened : fs.opendir (place root names ++ ['/']) ≠ none) :
    step fs recursive flags root.length ⟨place root names :: rest, dirs⟩ = .next
      ⟨if recursive then
          (children (directoriesIn fs flags root) names).reverse.map (place root) ++ rest else rest,
        dirs ++ (children (directoriesIn fs flags root) names).map relative⟩ := by
  obtain ⟨found, opens⟩ := Option.ne_none_iff_exists'.mp opened
  simp only [step, opens]
  rw [foldl_readEntry, children, directoriesIn_of_opendir opens]

theorem step_fails (recursive : Bool) {rest : List (List Char)} {dirs : List (List Char)}
    (refused : fs.opendir (place root names ++ ['/']) = none) :
    step fs recursive flags root.length ⟨place root names :: rest, dirs⟩ = .done (-1, dirs) := by
  simp only [step, refused]

/-! ## The whole listing -/

/-- The directories in the order in which they are opened while that succeeds. -/
def visitOrder (fs : FileSystem) (flags limit : Nat) (root : List Char) (recursive : Bool) : List (List Name) :=
  if recursive then order (directoriesIn fs flags root) limit [[]] else [[]]

/-- A directory can be opened. -/
def opens (fs : FileSystem) (root : List Char) (names : List Name) : Bool :=
  (fs.opendir (place root names ++ ['/'])).isSome

theorem opens_eq_true : opens fs root names = true ↔ fs.opendir (place root names ++ ['/']) ≠ none := by
  rw [opens, Option.isSome_iff_ne_none]

theorem bounded_directoriesIn (limited : fs.Limited limit) : Bounded (directoriesIn fs flags root) limit := by
  intro names long
  refine List.filter_eq_nil_iff.mpr fun name _ => ?_
  have longer : limit < (place root names ++ '/' :: name).length := by
    rw [← place_append]
    refine Nat.lt_of_lt_of_le ?_ (length_place _)
    rw [List.length_append, List.length_singleton]
    omega
  rw [shown, limited _ longer, Bool.and_false]
  exact Bool.false_ne_true

theorem distinct_directoriesIn (names : List Name) : (directoriesIn fs flags root names).Nodup := by
  rw [directoriesIn]
  cases opened : fs.opendir (place root names ++ ['/']) with
  | none => exact List.nodup_nil
  | some found => exact (fs.distinct _ _ opened).filter _

theorem plain_of_under (under : Under (directoriesIn fs flags root) [] names) : ∀ name ∈ names, '/' ∉ name := by
  induction under with
  | top => exact fun name member => absurd member List.not_mem_nil
  | down under below ih =>
      rename_i path last
      intro name member
      rcases List.mem_append.mp member with earlier | new
      · exact ih name earlier
      · obtain rfl := List.mem_singleton.mp new
        rw [directoriesIn] at below
        cases opened : fs.opendir (place root path ++ ['/']) with
        | none => simp [opened] at below
        | some found =>
            rw [opened] at below
            exact fs.plain _ _ opened name (List.mem_of_mem_filter below)

/-- The outer loop opens the directories on its stack, and those below them, in the order of the
traversal until one of them cannot be opened. -/
theorem returns_order (limited : fs.Limited limit) {visits stack : List (List Name)} {dirs : List (List Char)}
    (same : order (directoriesIn fs flags root) limit stack = visits) :
    Returns (step fs true flags root.length) ⟨stack.map (place root), dirs⟩
      (if visits.all (opens fs root) then 0 else -1,
        dirs ++ ((visits.takeWhile (opens fs root)).flatMap (children (directoriesIn fs flags root))).map
          relative) := by
  induction visits generalizing stack dirs with
  | nil =>
      cases stack with
      | nil =>
          have ends : step fs true flags root.length ⟨[], dirs⟩ = .done (0, dirs) := rfl
          refine (returns_done ends).mpr ?_
          rw [List.all_nil, if_pos rfl, List.takeWhile_nil, List.flatMap_nil, List.map_nil, List.append_nil]
      | cons top rest =>
          rw [order_cons (bounded_directoriesIn limited)] at same
          exact absurd same (List.cons_ne_nil _ _)
  | cons visit visits ih =>
      cases stack with
      | nil => exact absurd same.symm (List.cons_ne_nil _ _)
      | cons top rest =>
          rw [order_cons (bounded_directoriesIn limited), List.cons.injEq] at same
          obtain ⟨rfl, same⟩ := same
          by_cases opened : opens fs root top = true
          · refine (returns_next (step_cons true (Iff.mp opens_eq_true opened))).mpr ?_
            have later : Returns (step fs true flags root.length)
                ⟨((children (directoriesIn fs flags root) top).reverse ++ rest).map (place root),
                  dirs ++ (children (directoriesIn fs flags root) top).map relative⟩ _ := ih same
            rw [List.map_append] at later
            rw [if_pos rfl, List.all_cons, opened, Bool.true_and, List.takeWhile_cons_of_pos opened,
              List.flatMap_cons, List.map_append, ← List.append_assoc]
            exact later
          · have shut : opens fs root top = false := Bool.eq_false_iff.mpr opened
            refine (returns_done (step_fails true (not_not.mp (mt (Iff.mpr opens_eq_true) opened)))).mpr ?_
            rw [List.all_cons, shut, Bool.false_and, if_neg Bool.false_ne_true,
              List.takeWhile_cons_of_neg opened, List.flatMap_nil, List.map_nil, List.append_nil]

/-- What the call returns. -/
theorem lists_visits (limited : fs.Limited limit) (mask : List Char) (recursive : Bool) :
    Lists fs root mask recursive flags
      (if (visitOrder fs flags limit root recursive).all (opens fs root) then 0 else -1,
        (((visitOrder fs flags limit root recursive).takeWhile (opens fs root)).flatMap
          (children (directoriesIn fs flags root))).map relative) := by
  have rootPlace : root = place root [] := (List.append_nil root).symm
  cases recursive with
  | true =>
      have all : Returns (step fs true flags root.length) ⟨[[]].map (place root), []⟩ _ :=
        returns_order limited (show order (directoriesIn fs flags root) limit [[]] = _ from rfl)
      rwa [List.map_singleton, ← rootPlace] at all
  | false =>
      have first : (⟨[root], []⟩ : State) = ⟨[place root []], []⟩ := by rw [← rootPlace]
      rw [Lists, first, visitOrder, if_neg Bool.false_ne_true]
      by_cases opened : opens fs root [] = true
      · refine (returns_next (step_cons false (Iff.mp opens_eq_true opened))).mpr ?_
        have ends (dirs : List (List Char)) : step fs false flags root.length ⟨[], dirs⟩ = .done (0, dirs) := rfl
        rw [if_neg Bool.false_ne_true]
        refine (returns_done (ends _)).mpr ?_
        simp [opened]
      · refine (returns_done (step_fails false (not_not.mp (mt (Iff.mpr opens_eq_true) opened)))).mpr ?_
        simp [opened]

theorem nodup_visitOrder (recursive : Bool) : (visitOrder fs flags limit root recursive).Nodup := by
  cases recursive with
  | true =>
      rw [visitOrder, if_pos rfl, order_root]
      exact nodup_subtree distinct_directoriesIn
  | false => exact List.nodup_singleton []

theorem mem_visitOrder (limited : fs.Limited limit) (recursive : Bool) :
    names ∈ visitOrder fs flags limit root recursive ↔ Entered fs flags root recursive names := by
  cases recursive with
  | true =>
      have reached : names ∈ order (directoriesIn fs flags root) limit [[]] ↔
          Under (directoriesIn fs flags root) [] names := by
        rw [order_root]
        exact mem_subtree ((Nat.zero_add limit).symm ▸ bounded_directoriesIn limited)
      rw [visitOrder, if_pos rfl, reached, Entered]
      constructor
      · exact fun under => .inr ⟨rfl, under⟩
      · rintro (rfl | ⟨-, under⟩)
        · exact .top
        · exact under
  | false => simp [visitOrder, Entered]

/-- What is listed is what is announced when all directories are entered. -/
theorem listed_concat (recursive : Bool) :
    Listed fs flags root recursive (names ++ [name]) ↔
      Entered fs flags root recursive names ∧ name ∈ directoriesIn fs flags root names := by
  rw [Listed, Entered, under_nil_concat, List.length_append, List.length_singleton]
  constructor
  · rintro ⟨-, ⟨under, below⟩, rfl | alone⟩
    · exact ⟨.inr ⟨rfl, under⟩, below⟩
    · exact ⟨.inl (List.length_eq_zero_iff.mp (Nat.succ.inj alone)), below⟩
  · rintro ⟨rfl | ⟨rfl, under⟩, below⟩
    · exact ⟨List.cons_ne_nil _ _, ⟨.top, below⟩, .inr rfl⟩
    · exact ⟨List.append_ne_nil_of_right_ne_nil _ (List.cons_ne_nil _ _), ⟨under, below⟩, .inl rfl⟩

theorem Listed.plain {recursive : Bool} (listed : Listed fs flags root recursive names) :
    ∀ name ∈ names, '/' ∉ name :=
  plain_of_under listed.2.1

theorem listed_of_announced {recursive : Bool} {visits : List (List Name)}
    (entered : ∀ names ∈ visits, Entered fs flags root recursive names)
    (announced : other ∈ visits.flatMap (children (directoriesIn fs flags root))) :
    Listed fs flags root recursive other := by
  obtain ⟨path, visited, child⟩ := List.mem_flatMap.mp announced
  obtain ⟨last, below, rfl⟩ := mem_children.mp child
  exact (listed_concat recursive).mpr ⟨entered path visited, below⟩

/-- A directory that is to be listed is known by its relative path. -/
theorem relative_mem {recursive : Bool} {visits : List (List Name)}
    (entered : ∀ names ∈ visits, Entered fs flags root recursive names)
    (listed : Listed fs flags root recursive names) :
    relative names ∈ (visits.flatMap (children (directoriesIn fs flags root))).map relative ↔
      names ∈ visits.flatMap (children (directoriesIn fs flags root)) := by
  refine ⟨fun member => ?_, List.mem_map_of_mem⟩
  obtain ⟨node, announced, same⟩ := List.mem_map.mp member
  have found := listed_of_announced entered announced
  rwa [relative_inj found.1 listed.1 found.plain listed.plain same] at announced

theorem nodup_relative {recursive : Bool} {visits : List (List Name)}
    (entered : ∀ names ∈ visits, Entered fs flags root recursive names) (once : visits.Nodup) :
    ((visits.flatMap (children (directoriesIn fs flags root))).map relative).Nodup := by
  refine List.Nodup.map_on (fun first left second right same => ?_) (nodup_announced distinct_directoriesIn once)
  have listedFirst := listed_of_announced entered left
  have listedSecond := listed_of_announced entered right
  exact relative_inj listedFirst.1 listedSecond.1 listedFirst.plain listedSecond.plain same

/-- Where the opening stops, a directory stands behind the one that it is in. -/
theorem sublist_visits (limited : fs.Limited limit) {recursive : Bool} {visits later : List (List Name)}
    (begun : visits ++ later = visitOrder fs flags limit root recursive) (inside : names ≠ [])
    (announced : names ++ [name] ∈ visits.flatMap (children (directoriesIn fs flags root))) :
    [names, names ++ [name]].Sublist (visits.flatMap (children (directoriesIn fs flags root))) := by
  cases recursive with
  | true => exact sublist_announced (bounded_directoriesIn limited) begun inside announced
  | false =>
      have visited : names ∈ visits ++ later := List.mem_append_left later (mem_announced.mp announced).1
      rw [begun, visitOrder, if_neg Bool.false_ne_true] at visited
      exact absurd (List.mem_singleton.mp visited) inside

/-- Whatever the directories look like, also when links lead back to them, the call ends.  It lists no
directory twice and each behind the one that it is in, and nothing but directories that are to be
listed.  It succeeds exactly if every directory that it has to enter can be opened, and then it has
listed all of them. -/
theorem lists_directories (limited : fs.Limited limit) (mask : List Char) (recursive : Bool) :
    ∃ code dirs, Lists fs root mask recursive flags (code, dirs) ∧ dirs.Nodup ∧
      (∀ dir ∈ dirs, ∃ names, Listed fs flags root recursive names ∧ relative names = dir) ∧
      (∀ names name, names ≠ [] → Listed fs flags root recursive (names ++ [name]) →
        relative (names ++ [name]) ∈ dirs →
          [relative names, relative (names ++ [name])].Sublist dirs) ∧
      (code = 0 ∨ code = -1) ∧
      (code = 0 ↔ ∀ names, Entered fs flags root recursive names →
        fs.opendir (place root names ++ ['/']) ≠ none) ∧
      (code = 0 → ∀ names, Listed fs flags root recursive names → relative names ∈ dirs) := by
  have cut := List.takeWhile_append_dropWhile (p := opens fs root)
    (l := visitOrder fs flags limit root recursive)
  have entered : ∀ names ∈ (visitOrder fs flags limit root recursive).takeWhile (opens fs root),
      Entered fs flags root recursive names :=
    fun names member => (mem_visitOrder limited recursive).mp ((List.takeWhile_prefix _).subset member)
  have succeeds : (visitOrder fs flags limit root recursive).all (opens fs root) = true ↔
      ∀ names, Entered fs flags root recursive names → fs.opendir (place root names ++ ['/']) ≠ none := by
    simp only [List.all_eq_true, mem_visitOrder limited, opens_eq_true]
  refine ⟨_, _, lists_visits limited mask recursive, nodup_relative entered
    ((nodup_visitOrder recursive).sublist (List.takeWhile_sublist _)), ?sound, ?parents, ?codes, ?ends, ?complete⟩
  case sound =>
    intro dir member
    obtain ⟨names, announced, rfl⟩ := List.mem_map.mp member
    exact ⟨names, listed_of_announced entered announced, rfl⟩
  case parents =>
    intro names name inside listed member
    exact (sublist_visits limited cut inside ((relative_mem entered listed).mp member)).map relative
  case codes =>
    split
    · exact .inl rfl
    · exact .inr rfl
  case ends =>
    rw [← succeeds]
    split
    · next all => exact iff_of_true rfl all
    · next some => exact iff_of_false (by decide) some
  case complete =>
    intro zero names listed
    have all : (visitOrder fs flags limit root recursive).all (opens fs root) = true := by
      by_contra some
      rw [if_neg some] at zero
      exact absurd zero (by decide)
    refine (relative_mem entered listed).mpr ?_
    rw [List.takeWhile_eq_self_iff.mpr (List.all_eq_true.mp all)]
    obtain ⟨front, last, rfl⟩ := (List.eq_nil_or_concat' names).resolve_left listed.1
    obtain ⟨parent, below⟩ := (listed_concat recursive).mp listed
    exact mem_announced.mpr ⟨(mem_visitOrder limited recursive).mpr parent, below⟩

/-- A system with a link `x` to the directory that it is in, beside a hidden directory and a file. -/
def linked : FileSystem where
  opendir _ := some [['.'], ['.', '.'], ['x'], ['.', 'h'], ['f']]
  isDir path := path.getLast? ≠ some 'f' ∧ path.length ≤ 6
  distinct := by
    rintro spec names found
    exact Option.some.inj found ▸ by decide
  plain := by
    rintro spec names found
    exact Option.some.inj found ▸ by decide

theorem linked_limited : linked.Limited 6 := fun _ long =>
  decide_eq_false fun ⟨_, short⟩ => absurd long (Nat.not_lt.mpr short)

theorem lists_directories_linked :
    run (step linked true FILE_SKIP_HIDDEN 1) 4 ⟨[['r']], []⟩ = .returned (0, [['x'], ['x', '/', 'x']]) ∧
    ∃ code dirs, Lists linked ['r'] ['*'] true FILE_SKIP_HIDDEN (code, dirs) ∧ dirs.Nodup ∧
      (∀ dir ∈ dirs, ∃ names, Listed linked FILE_SKIP_HIDDEN ['r'] true names ∧ relative names = dir) ∧
      (∀ names name, names ≠ [] → Listed linked FILE_SKIP_HIDDEN ['r'] true (names ++ [name]) →
        relative (names ++ [name]) ∈ dirs →
          [relative names, relative (names ++ [name])].Sublist dirs) ∧
      (code = 0 ∨ code = -1) ∧
      (code = 0 ↔ ∀ names, Entered linked FILE_SKIP_HIDDEN ['r'] true names →
        linked.opendir (place ['r'] names ++ ['/']) ≠ none) ∧
      (code = 0 → ∀ names, Listed linked FILE_SKIP_HIDDEN ['r'] true names → relative names ∈ dirs) :=
  ⟨by decide, lists_directories linked_limited ['*'] true⟩

end ListDirs

end Tegenaria.LibFile
