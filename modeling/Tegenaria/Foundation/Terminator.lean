import Mathlib.Data.List.TakeWhile

/-!
# Strings in a buffer

A string ends at the first terminator in its buffer.  A text is cut in place by writing a
terminator over a letter; what is kept of a piece, a position or a copy, can be read back
as long as later cuts are made behind it.
-/

namespace Foundation.Terminator

variable {α : Type} [DecidableEq α] {zero : α}

/-- The string that is seen from the begin of a buffer. -/
def visible (zero : α) (buffer : List α) : List α := buffer.takeWhile (· ≠ zero)

theorem visible_of_notMem {text : List α} (plain : zero ∉ text) : visible zero text = text := by
  rw [visible, List.takeWhile_eq_self_iff]
  intro letter member
  rw [decide_eq_true_iff]
  rintro rfl
  exact plain member

theorem visible_append (text rest : List α) :
    visible zero (text ++ zero :: rest) = visible zero text := by
  induction text with
  | nil => simp [visible]
  | cons letter text ih =>
      rw [List.cons_append, visible, visible, List.takeWhile_cons, List.takeWhile_cons, ← visible,
        ← visible, ih]

theorem visible_drop {text : List α} {begin : Nat} (inside : begin ≤ text.length) (rest : List α) :
    visible zero ((text ++ zero :: rest).drop begin) = visible zero (text.drop begin) := by
  rw [List.drop_append_of_le_length inside, visible_append]

/-- What is kept of a piece that begins at a position, and how it is read once all cuts
are made. -/
structure Store (zero : α) (β : Type) where
  keep : (buffer : List α) → (begin : Nat) → β
  read : (buffer : List α) → β → List α
  ended : ∀ {seen : List α} {begin : Nat}, begin ≤ seen.length → ∀ rest later,
    read (seen ++ zero :: later) (keep (seen ++ zero :: rest) begin) = visible zero (seen.drop begin)
  last : ∀ seen begin, read seen (keep seen begin) = visible zero (seen.drop begin)

/-- Positions, read when the text is cut. -/
def pointers (zero : α) : Store zero Nat where
  keep _ begin := begin
  read buffer begin := visible zero (buffer.drop begin)
  ended inside _ later := visible_drop inside later
  last _ _ := rfl

/-- Copies, made when a piece is found. -/
def copies (zero : α) : Store zero (List α) where
  keep buffer begin := visible zero (buffer.drop begin)
  read _ piece := piece
  ended inside rest _ := visible_drop inside rest
  last _ _ := rfl

end Foundation.Terminator
