import Mathlib.Data.List.Basic
import Mathlib.Data.List.Induction
import Mathlib.Logic.Function.Basic

/-!
# Blocks, marks and arrays that are indexed by the depth

The tokens of a text open and close blocks, and some of them are marks.  A program that
reads the text often has no stack: it counts how many blocks are open and keeps what it
knows about a block in an array at this depth.  If the place is emptied when the block
is closed, the array is a stack.  A mark that is written to all deeper places, so that
blocks inside of the marked one find it, is lost there as soon as one of them is closed.
-/

namespace Foundation.Nesting

inductive Bracket where
  | opens
  | closes
  | mark
  | other
  deriving DecidableEq

def Bracket.change : Bracket → Int
  | .opens => 1
  | .closes => -1
  | .mark => 0
  | .other => 0

variable {τ α : Type} (kind : τ → Bracket)

/-- The number of blocks that are open behind the tokens. -/
def depth (tokens : List τ) : Int := tokens.foldl (fun depth token => depth + (kind token).change) 0

/-- The block of this depth that is open behind the tokens begins behind the earlier ones. -/
def OpenedAt (tokens earlier : List τ) (level : Int) : Prop :=
  ∃ brace inside, tokens = earlier ++ brace :: inside ∧ kind brace = .opens ∧ depth kind earlier + 1 = level ∧
    ∀ passed rest, inside = passed ++ rest → level ≤ depth kind (earlier ++ brace :: passed)

/-- There is a mark outside of the blocks of more than this depth, and since then no other blocks
were closed. -/
def Marked (tokens : List τ) (level : Int) : Prop :=
  ∃ earlier mark later, tokens = earlier ++ mark :: later ∧ kind mark = .mark ∧ depth kind earlier ≤ level ∧
    ∀ passed close rest, later = passed ++ close :: rest → kind close = .closes →
      level < depth kind (earlier ++ mark :: passed)

/-- There is a mark, and the block that it stands in is still open. -/
def Enclosed (tokens : List τ) : Prop :=
  ∃ earlier mark later, tokens = earlier ++ mark :: later ∧ kind mark = .mark ∧
    ∀ passed rest, later = passed ++ rest → depth kind earlier ≤ depth kind (earlier ++ mark :: passed)

section

variable {kind} {tokens earlier : List τ} {token : τ} {level : Int}

@[simp] theorem depth_nil : depth kind [] = 0 := rfl

@[simp] theorem depth_concat (tokens : List τ) (token : τ) :
    depth kind (tokens ++ [token]) = depth kind tokens + (kind token).change := by
  rw [depth, List.foldl_append]
  rfl

/-! ## Blocks -/

theorem not_openedAt_nil : ¬ OpenedAt kind [] earlier level := by
  rintro ⟨brace, inside, split, -⟩
  cases List.append_eq_nil_iff.mp split.symm |>.2

theorem OpenedAt.le_depth (opened : OpenedAt kind tokens earlier level) : level ≤ depth kind tokens := by
  obtain ⟨brace, inside, rfl, -, -, stays⟩ := opened
  exact stays inside [] (List.append_nil inside).symm

/-- A block is open behind one more token if it was open and is not closed, or if it is opened. -/
theorem openedAt_concat : OpenedAt kind (tokens ++ [token]) earlier level ↔
    (OpenedAt kind tokens earlier level ∧ level ≤ depth kind (tokens ++ [token])) ∨
      (kind token = .opens ∧ earlier = tokens ∧ level = depth kind tokens + 1) := by
  constructor
  · intro opened
    have low := opened.le_depth
    obtain ⟨brace, inside, split, opens, here, stays⟩ := opened
    rcases List.eq_nil_or_concat' inside with rfl | ⟨front, last, rfl⟩
    · obtain ⟨rfl, same⟩ := List.append_inj' split rfl
      cases same
      exact .inr ⟨opens, rfl, here.symm⟩
    · rw [← List.cons_append, ← List.append_assoc] at split
      obtain ⟨rfl, same⟩ := List.append_inj' split rfl
      cases same
      refine .inl ⟨⟨brace, front, rfl, opens, here, fun passed rest same => ?_⟩, low⟩
      exact stays passed (rest ++ [token]) (by rw [same, List.append_assoc])
  · rintro (⟨⟨brace, inside, rfl, opens, here, stays⟩, low⟩ | ⟨opens, rfl, rfl⟩)
    · refine ⟨brace, inside ++ [token], by rw [List.append_assoc]; rfl, opens, here, fun passed rest same => ?_⟩
      rcases List.eq_nil_or_concat' rest with rfl | ⟨front, last, rfl⟩
      · rw [List.append_nil] at same
        rw [← same]
        rwa [List.append_assoc] at low
      · rw [← List.append_assoc] at same
        exact stays passed front (List.append_inj' same rfl).1
    · refine ⟨token, [], rfl, opens, rfl, fun passed rest same => ?_⟩
      obtain ⟨rfl, -⟩ := List.append_eq_nil_iff.mp same.symm
      rw [depth_concat, opens]
      exact Int.le_refl _

/-- The places below the limit hold the values of the open blocks that have one. -/
def Stacked (kind : τ → Bracket) (limit : Nat) (value : List τ → Option α) (tokens : List τ)
    (slot : Nat → Option α) : Prop :=
  ∀ level < limit, ∀ content, slot level = some content ↔
    ∃ earlier, OpenedAt kind tokens earlier level ∧ value earlier = some content

variable {limit deep : Nat} {value : List τ → Option α} {slot : Nat → Option α}

theorem stacked_nil (empty : ∀ level < limit, slot level = none) : Stacked kind limit value [] slot := by
  intro level inside content
  rw [empty level inside]
  exact iff_of_false nofun fun ⟨_, opened, _⟩ => not_openedAt_nil opened

theorem Stacked.outside (stacked : Stacked kind limit value tokens slot) {level : Nat} (inside : level < limit)
    (deeper : depth kind tokens < level) : slot level = none := by
  cases found : slot level with
  | none => rfl
  | some content =>
      obtain ⟨_, opened, _⟩ := (stacked level inside content).mp found
      exact absurd opened.le_depth (Int.not_le.mpr deeper)

/-- The value of a block that is opened is written behind those of the others. -/
theorem Stacked.opens (stacked : Stacked kind limit value tokens slot) (opens : kind token = .opens)
    (here : depth kind tokens = deep) :
    Stacked kind limit value (tokens ++ [token])
      (if (value tokens).isSome then Function.update slot (deep + 1) (value tokens) else slot) := by
  intro level inside content
  have next : depth kind (tokens ++ [token]) = deep + 1 := by rw [depth_concat, opens, here]; rfl
  simp only [openedAt_concat, opens, true_and, next, here]
  by_cases own : level = deep + 1
  · subst own
    have empty : slot (deep + 1) = none := stacked.outside inside (by omega)
    have written : (if (value tokens).isSome then Function.update slot (deep + 1) (value tokens) else slot)
        (deep + 1) = value tokens := by
      split
      · exact Function.update_self ..
      · next missing => rw [empty, Option.not_isSome_iff_eq_none.mp missing]
    rw [written]
    constructor
    · exact fun found => ⟨tokens, .inr ⟨rfl, rfl⟩, found⟩
    · rintro ⟨earlier, ⟨opened, -⟩ | ⟨rfl, -⟩, found⟩
      · exact absurd opened.le_depth (by omega)
      · exact found
  · have kept : (if (value tokens).isSome then Function.update slot (deep + 1) (value tokens) else slot)
        level = slot level := by
      split
      · exact Function.update_of_ne own ..
      · rfl
    rw [kept, stacked level inside content]
    refine exists_congr fun earlier => and_congr_left fun _ => ?_
    constructor
    · exact fun opened => .inl ⟨opened, by have := opened.le_depth; omega⟩
    · rintro (⟨opened, -⟩ | ⟨-, same⟩)
      · exact opened
      · omega

theorem Stacked.closes (stacked : Stacked kind limit value tokens slot) (closes : kind token = .closes)
    (here : depth kind tokens = deep) :
    Stacked kind limit value (tokens ++ [token]) (Function.update slot deep none) := by
  intro level inside content
  have next : depth kind (tokens ++ [token]) = deep - 1 := by rw [depth_concat, closes, here]; rfl
  simp only [openedAt_concat, closes, next, reduceCtorEq, false_and, or_false]
  by_cases own : level = deep
  · subst own
    rw [Function.update_self]
    exact iff_of_false nofun fun ⟨_, ⟨_, low⟩, _⟩ => by omega
  · rw [Function.update_of_ne own, stacked level inside content]
    refine exists_congr fun earlier => and_congr_left fun _ => ?_
    exact ⟨fun opened => ⟨opened, by have := opened.le_depth; omega⟩, And.left⟩

theorem Stacked.stays (stacked : Stacked kind limit value tokens slot) (plain : (kind token).change = 0) :
    Stacked kind limit value (tokens ++ [token]) slot := by
  intro level inside content
  have notOpens : kind token ≠ .opens := fun opens => by rw [opens] at plain; cases plain
  have next : depth kind (tokens ++ [token]) = depth kind tokens := by
    rw [depth_concat, plain, Int.add_zero]
  simp only [openedAt_concat, notOpens, next, false_and, or_false, stacked level inside content]
  exact exists_congr fun earlier => and_congr_left fun _ => ⟨fun opened => ⟨opened, opened.le_depth⟩, And.left⟩

/-! ## Marks -/

theorem not_marked_nil : ¬ Marked kind [] level := by
  rintro ⟨earlier, mark, later, split, -⟩
  cases List.append_eq_nil_iff.mp split.symm |>.2

/-- A mark is seen from the depth of its block on, until a block is closed that is not deeper. -/
theorem marked_concat : Marked kind (tokens ++ [token]) level ↔
    (kind token = .mark ∧ depth kind tokens ≤ level) ∨
      (Marked kind tokens level ∧ (kind token = .closes → level < depth kind tokens)) := by
  constructor
  · rintro ⟨earlier, mark, later, split, isMark, shallow, quiet⟩
    rcases List.eq_nil_or_concat' later with rfl | ⟨front, last, rfl⟩
    · obtain ⟨rfl, same⟩ := List.append_inj' split rfl
      cases same
      exact .inl ⟨isMark, shallow⟩
    · rw [← List.cons_append, ← List.append_assoc] at split
      obtain ⟨rfl, same⟩ := List.append_inj' split rfl
      cases same
      refine .inr ⟨⟨earlier, mark, front, rfl, isMark, shallow, fun passed close rest same => ?_⟩, ?_⟩
      · exact quiet passed close (rest ++ [token]) (by rw [same, List.append_assoc]; rfl)
      · exact quiet front token [] rfl
  · rintro (⟨isMark, shallow⟩ | ⟨⟨earlier, mark, later, rfl, isMark, shallow, quiet⟩, last⟩)
    · exact ⟨tokens, token, [], rfl, isMark, shallow, fun passed close rest same => by simp at same⟩
    · refine ⟨earlier, mark, later ++ [token], by rw [List.append_assoc]; rfl, isMark, shallow,
        fun passed close rest same closes => ?_⟩
      rcases List.eq_nil_or_concat' rest with rfl | ⟨front, end_, rfl⟩
      · obtain ⟨rfl, own⟩ := List.append_inj' same rfl
        cases own
        exact last closes
      · rw [← List.cons_append, ← List.append_assoc] at same
        exact quiet passed close front (List.append_inj' same rfl).1 closes

/-- What is marked at the depth of the innermost block lies in a block that is marked. -/
theorem Marked.enclosed (marked : Marked kind tokens level) : Enclosed kind tokens := by
  obtain ⟨earlier, mark, later, rfl, isMark, shallow, quiet⟩ := marked
  refine ⟨earlier, mark, later, rfl, isMark, fun passed => ?_⟩
  induction passed using List.reverseRecOn with
  | nil =>
      intro rest _
      rw [depth_concat, isMark]
      exact Int.le_of_eq (Int.add_zero _).symm
  | append_singleton front last ih =>
      intro rest same
      rw [List.append_assoc] at same
      have before := ih _ same
      rw [← List.cons_append, ← List.append_assoc, depth_concat]
      cases last_kind : kind last with
      | opens => exact Int.le_trans before (Int.le_of_lt (Int.lt_succ _))
      | mark => rwa [Bracket.change, Int.add_zero]
      | other => rwa [Bracket.change, Int.add_zero]
      | closes =>
          have above := quiet front last rest same last_kind
          exact Int.le_sub_one_of_lt (Int.lt_of_le_of_lt shallow above)

/-- Inside of a marked block the mark is seen as long as no block of the same depth or of less was closed
since. -/
theorem Enclosed.marked_or_closed (enclosed : Enclosed kind tokens) :
    Marked kind tokens (depth kind tokens) ∨
      ∃ earlier mark passed close rest, tokens = earlier ++ mark :: (passed ++ close :: rest) ∧
        kind mark = .mark ∧ kind close = .closes ∧
        depth kind (earlier ++ mark :: passed) ≤ depth kind tokens := by
  obtain ⟨earlier, mark, later, rfl, isMark, stays⟩ := enclosed
  by_cases closed : ∃ passed close rest, later = passed ++ close :: rest ∧ kind close = .closes ∧
      depth kind (earlier ++ mark :: passed) ≤ depth kind (earlier ++ mark :: later)
  · obtain ⟨passed, close, rest, rfl, closes, low⟩ := closed
    exact .inr ⟨earlier, mark, passed, close, rest, rfl, isMark, closes, low⟩
  · refine .inl ⟨earlier, mark, later, rfl, isMark, stays later [] (List.append_nil later).symm,
      fun passed close rest same closes => ?_⟩
    by_contra low
    exact closed ⟨passed, close, rest, same, closes, Int.not_lt.mp low⟩

end

end Foundation.Nesting
