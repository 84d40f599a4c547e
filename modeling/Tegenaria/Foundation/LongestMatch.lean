import Mathlib.Data.List.Basic
import Mathlib.Data.Nat.Find
import Mathlib.Order.Lattice.Nat

/-!
# Tokens by longest match

A text is cut into tokens, each the longest one that begins where the one before ends.  Two
texts that are joined keep their tokens exactly if no token that begins in the first one goes
on into the second.
-/

namespace Foundation.LongestMatch

variable {α : Type} (isToken : List α → Bool)

/-- The length of the first token of a text: one letter if no token begins there. -/
def reach (text : List α) : Nat :=
  max 1 (Nat.findGreatest (fun size => isToken (text.take size) = true) text.length)

/-- The tokens of a text, at most as many as the fuel. -/
def munchFrom : Nat → List α → List (List α)
  | 0, _ => []
  | _ + 1, [] => []
  | fuel + 1, letter :: rest =>
      (letter :: rest).take (reach isToken (letter :: rest)) ::
        munchFrom fuel ((letter :: rest).drop (reach isToken (letter :: rest)))

/-- The tokens of a text. -/
def munch (text : List α) : List (List α) := munchFrom isToken text.length text

/-- No token of the first text goes on into the second one when they are joined. -/
def Apart (before after : List α) : Prop :=
  ∀ done left, munch isToken before = done ++ left → left ≠ [] →
    reach isToken (left.flatten ++ after) ≤ left.flatten.length

theorem reach_pos (text : List α) : 0 < reach isToken text :=
  Nat.lt_of_lt_of_le Nat.one_pos (le_max_left _ _)

theorem reach_le {text : List α} (nonempty : text ≠ []) : reach isToken text ≤ text.length :=
  max_le (List.length_pos_iff.mpr nonempty) (Nat.findGreatest_le _)

theorem reach_of_isToken {text : List α} {size : Nat} (inside : size ≤ text.length)
    (token : isToken (text.take size) = true) : size ≤ reach isToken text :=
  (Nat.le_findGreatest inside token).trans (le_max_right _ _)

/-- The first token is a token, or one letter. -/
theorem reach_cases (text : List α) :
    reach isToken text = 1 ∨ isToken (text.take (reach isToken text)) = true := by
  by_cases nothing : Nat.findGreatest (fun size => isToken (text.take size) = true) text.length = 0
  · exact .inl (by rw [reach, nothing, max_eq_left Nat.one_pos.le])
  · refine .inr ?_
    rw [reach, max_eq_right (Nat.pos_of_ne_zero nothing)]
    exact Nat.findGreatest_of_ne_zero rfl nothing

/-- Letters behind a text change its first token only if it reaches into them. -/
theorem reach_append {before after : List α} (nonempty : before ≠ [])
    (inside : reach isToken (before ++ after) ≤ before.length) :
    reach isToken (before ++ after) = reach isToken before := by
  apply le_antisymm
  · rcases reach_cases isToken (before ++ after) with single | token
    · rw [single]
      exact reach_pos isToken before
    · rw [List.take_append_of_le_length inside] at token
      exact reach_of_isToken isToken inside token
  · have short := reach_le isToken nonempty
    rcases reach_cases isToken before with single | token
    · rw [single]
      exact reach_pos isToken _
    · have same := @List.take_append_of_le_length _ before after _ short
      rw [← same] at token
      exact reach_of_isToken isToken (by rw [List.length_append]; omega) token

theorem munchFrom_enough {fuel : Nat} {text : List α} (enough : text.length ≤ fuel) :
    munchFrom isToken fuel text = munch isToken text := by
  induction fuel using Nat.strong_induction_on generalizing text with
  | _ fuel ih =>
      cases text with
      | nil => cases fuel with
        | zero => rfl
        | succ fuel => rfl
      | cons letter rest =>
          obtain ⟨fuel, rfl⟩ := Nat.exists_eq_succ_of_ne_zero
            (Nat.ne_of_gt (Nat.lt_of_lt_of_le (Nat.succ_pos _) enough))
          have positive := reach_pos isToken (letter :: rest)
          have short : ((letter :: rest).drop (reach isToken (letter :: rest))).length ≤ rest.length := by
            rw [List.length_drop, List.length_cons]
            omega
          rw [List.length_cons] at enough
          rw [munch, List.length_cons, munchFrom, munchFrom, ih fuel (Nat.lt_succ_self _) (by omega),
            ih rest.length (by omega) short]

theorem munch_nil : munch isToken [] = [] := rfl

theorem munch_eq {text : List α} (nonempty : text ≠ []) :
    munch isToken text =
      text.take (reach isToken text) :: munch isToken (text.drop (reach isToken text)) := by
  cases text with
  | nil => exact absurd rfl nonempty
  | cons letter rest =>
      have positive := reach_pos isToken (letter :: rest)
      rw [munch, List.length_cons, munchFrom, munchFrom_enough isToken]
      rw [List.length_drop, List.length_cons]
      omega

/-- Induction along the tokens of a text. -/
theorem munch_induction {motive : List α → Prop} (nil : motive [])
    (token : ∀ text, text ≠ [] → motive (text.drop (reach isToken text)) → motive text)
    (text : List α) : motive text := by
  induction size : text.length using Nat.strong_induction_on generalizing text with
  | _ size ih =>
      by_cases nonempty : text = []
      · rw [nonempty]
        exact nil
      · have positive := reach_pos isToken text
        have length := List.length_pos_iff.mpr nonempty
        exact token text nonempty (ih _ (by rw [List.length_drop]; omega) _ rfl)

theorem munch_flatten (text : List α) : (munch isToken text).flatten = text := by
  induction text using munch_induction isToken with
  | nil => rfl
  | token text nonempty ih => rw [munch_eq isToken nonempty, List.flatten_cons, ih, List.take_append_drop]

theorem ne_nil_of_mem_munch {text token : List α} (member : token ∈ munch isToken text) : token ≠ [] := by
  induction text using munch_induction isToken with
  | nil => cases member
  | token text nonempty ih =>
      rw [munch_eq isToken nonempty, List.mem_cons] at member
      rcases member with rfl | later
      · have positive := reach_pos isToken text
        have length := List.length_pos_iff.mpr nonempty
        rw [← List.length_pos_iff, List.length_take]
        omega
      · exact ih later

theorem apart_nil (after : List α) : Apart isToken [] after := by
  intro done left split nonempty
  exact absurd (List.append_eq_nil_iff.mp split.symm).2 nonempty

theorem apart_iff {before : List α} (nonempty : before ≠ []) (after : List α) :
    Apart isToken before after ↔ reach isToken (before ++ after) ≤ before.length ∧
      Apart isToken (before.drop (reach isToken before)) after := by
  have tokens := munch_eq isToken nonempty
  constructor
  · intro apart
    constructor
    · have whole := apart [] (munch isToken before) rfl (by rw [tokens]; exact List.cons_ne_nil _ _)
      rwa [munch_flatten] at whole
    · intro done left split
      refine apart (before.take (reach isToken before) :: done) left ?_
      rw [tokens, split, List.cons_append]
  · rintro ⟨first, later⟩ done left split notEmpty
    cases done with
    | nil =>
        rw [List.nil_append] at split
        rwa [← split, munch_flatten]
    | cons token done =>
        rw [tokens, List.cons_append, List.cons.injEq] at split
        exact later done left split.2 notEmpty

/-- What follows a text does not change its tokens exactly if none of them goes on into it. -/
theorem munch_append_iff (before after : List α) (tokens : List (List α)) :
    munch isToken (before ++ after) = munch isToken before ++ tokens ↔
      Apart isToken before after ∧ munch isToken after = tokens := by
  induction before using munch_induction isToken with
  | nil => rw [List.nil_append, munch_nil, List.nil_append, and_iff_right (apart_nil isToken after)]
  | token before nonempty ih =>
      have joined := munch_eq isToken (List.append_ne_nil_of_left_ne_nil nonempty after)
      have short := reach_le isToken nonempty
      rw [apart_iff isToken nonempty, and_assoc, ← ih, munch_eq isToken nonempty, List.cons_append, joined,
        List.cons.injEq]
      constructor
      · rintro ⟨first, later⟩
        have inside : reach isToken (before ++ after) ≤ before.length := by
          have length := congrArg List.length first
          have whole := reach_le isToken (List.append_ne_nil_of_left_ne_nil nonempty after)
          rw [List.length_take, List.length_take] at length
          omega
        rw [reach_append isToken nonempty inside, List.drop_append_of_le_length short] at later
        exact ⟨inside, later⟩
      · rintro ⟨inside, later⟩
        rw [reach_append isToken nonempty inside, List.drop_append_of_le_length short,
          List.take_append_of_le_length short]
        exact ⟨rfl, later⟩

/-- Words that are joined keep their tokens exactly if no token goes on from one of them
into the next ones. -/
theorem munch_flatten_iff (words : List (List α)) :
    munch isToken words.flatten = words.flatMap (munch isToken) ↔
      ∀ front word back, words = front ++ word :: back → Apart isToken word back.flatten := by
  induction words with
  | nil => exact iff_of_true rfl fun front word back split => absurd split (by simp)
  | cons first words ih =>
      rw [List.flatten_cons, List.flatMap_cons, munch_append_iff, ih]
      constructor
      · rintro ⟨apart, later⟩ front word back split
        cases front with
        | nil =>
            obtain ⟨rfl, rfl⟩ := List.cons.inj split
            exact apart
        | cons other front =>
            exact later front word back (List.cons.inj split).2
      · intro apart
        refine ⟨apart [] first words rfl, fun front word back split => ?_⟩
        exact apart (first :: front) word back (by rw [split, List.cons_append])

theorem flatMap_munch_flatten (words : List (List α)) :
    (words.flatMap (munch isToken)).flatten = words.flatten := by
  induction words with
  | nil => rfl
  | cons word words ih =>
      rw [List.flatMap_cons, List.flatten_append, munch_flatten, ih, List.flatten_cons]

/-- Lists of tokens that begin with the same letters, cut into tokens in some way, begin with the
same tokens. -/
theorem append_inj_of_flatten {first other later after : List (List α)}
    (firstTokens : ∀ token ∈ first, token ≠ []) (otherTokens : ∀ token ∈ other, token ≠ [])
    (letters : first.flatten = other.flatten) (same : first ++ later = other ++ after) :
    first = other ∧ later = after := by
  have done {tokens : List (List α)} (each : ∀ token ∈ tokens, token ≠ []) (empty : tokens.flatten = []) :
      tokens = [] :=
    List.eq_nil_iff_forall_not_mem.mpr fun token member =>
      each token member (List.flatten_eq_nil_iff.mp empty token member)
  rcases List.append_eq_append_iff.mp same with ⟨more, split, rest⟩ | ⟨more, split, rest⟩
  · subst split
    rw [List.flatten_append, List.self_eq_append_right] at letters
    rw [done (fun token member => otherTokens token (List.mem_append_right _ member)) letters] at rest ⊢
    exact ⟨(List.append_nil first).symm, rest⟩
  · subst split
    rw [List.flatten_append, List.append_right_eq_self] at letters
    rw [done (fun token member => firstTokens token (List.mem_append_right _ member)) letters] at rest ⊢
    exact ⟨List.append_nil other, rest.symm⟩

end Foundation.LongestMatch
