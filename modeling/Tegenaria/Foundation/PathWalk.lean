import Mathlib.Data.List.Infix

/-!
# Walking along a path

A path is split at its separators.  Its parts are steps from one directory to another, and a
directory is the list of the names that lead to it.
-/

namespace Foundation.PathWalk

variable {Letter : Type} [DecidableEq Letter] {separates : Letter → Bool} {dot separator : Letter}
  {part : List Letter}

/-- An empty part and a dot stay, two dots go up, and a name goes down. -/
def enter (dot : Letter) (directory : List (List Letter)) (part : List Letter) : List (List Letter) :=
  if part = [] ∨ part = [dot] then directory
  else if part = [dot, dot] then directory.dropLast
  else directory ++ [part]

/-- The directory to which a path leads. -/
def walk (separates : Letter → Bool) (dot : Letter) (directory : List (List Letter)) (path : List Letter) :
    List (List Letter) :=
  (path.splitOnP separates).foldl (enter dot) directory

theorem walk_append (separating : separates separator = true) (directory : List (List Letter))
    (front back : List Letter) :
    walk separates dot directory (front ++ separator :: back) =
      walk separates dot (walk separates dot directory front) back := by
  rw [walk, List.splitOnP_append_cons front back separating, List.foldl_append]
  rfl

theorem walk_part (plain : ∀ letter ∈ part, separates letter = false) (directory : List (List Letter)) :
    walk separates dot directory part = enter dot directory part := by
  rw [walk, List.splitOnP_eq_singleton plain, List.foldl_cons, List.foldl_nil]

theorem walk_nil (directory : List (List Letter)) : walk separates dot directory [] = directory :=
  walk_part (by simp) directory

theorem enter_name (nonempty : part ≠ []) (notDot : part ≠ [dot]) (notDots : part ≠ [dot, dot])
    (directory : List (List Letter)) : enter dot directory part = directory ++ [part] := by
  rw [enter, if_neg (not_or_intro nonempty notDot), if_neg notDots]

end Foundation.PathWalk
