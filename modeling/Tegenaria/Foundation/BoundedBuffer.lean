import Mathlib.Data.List.Basic

/-!
# Buffers with bounds

A buffer is the list of its cells.  A write outside of it has no result.  Writes one after
another, upwards from a position, replace the cells there and leave all others.
-/

namespace Foundation.BoundedBuffer

variable {Cell : Type} {buffer after : List Cell} {position start : Nat} {cell : Cell} {cells : List Cell}

def put (buffer : List Cell) (position : Nat) (cell : Cell) : Option (List Cell) :=
  if position < buffer.length then some (buffer.set position cell) else none

/-- The cells one after another. -/
def putAll (buffer : List Cell) (position : Nat) : List Cell → Option (List Cell)
  | [] => some buffer
  | cell :: rest => (put buffer position cell).bind fun buffer => putAll buffer (position + 1) rest

theorem put_inside (inside : position < buffer.length) (cell : Cell) :
    put buffer position cell = some (buffer.set position cell) := if_pos inside

theorem put_outside (outside : buffer.length ≤ position) (cell : Cell) :
    put buffer position cell = none := if_neg (Nat.not_lt_of_le outside)

theorem put_eq_some : put buffer position cell = some after ↔
    position < buffer.length ∧ after = buffer.set position cell := by
  rw [put]
  split
  · next inside => rw [Option.some.injEq, eq_comm, and_iff_right inside]
  · next outside => simp only [reduceCtorEq, outside, false_and]

theorem eq_of_put (stored : put buffer position cell = some after) : after = buffer.set position cell :=
  (Iff.mp put_eq_some stored).2

theorem length_put (stored : put buffer position cell = some after) : after.length = buffer.length := by
  rw [eq_of_put stored, List.length_set]

theorem getElem?_put_ne (stored : put buffer position cell = some after) (other : position ≠ start) :
    after[start]? = buffer[start]? := by
  rw [eq_of_put stored, List.getElem?_set_ne other]

/-- The cells behind a write are as they were. -/
theorem drop_put (stored : put buffer position cell = some after) (behind : position < start) :
    after.drop start = buffer.drop start := by
  rw [eq_of_put stored, List.drop_set_of_lt behind]

theorem take_succ_put (stored : put buffer position cell = some after) :
    after.take (position + 1) = buffer.take position ++ [cell] := by
  obtain ⟨inside, rfl⟩ := Iff.mp put_eq_some stored
  rw [List.take_add_one, List.take_set_of_le (Nat.le_refl _), List.getElem?_set_self inside,
    Option.toList_some]

theorem putAll_cons (buffer : List Cell) (position : Nat) (cell : Cell) (rest : List Cell) :
    putAll buffer position (cell :: rest) =
      (put buffer position cell).bind fun buffer => putAll buffer (position + 1) rest := rfl

/-- Writes that fit replace as many cells. -/
theorem putAll_eq (fits : position + cells.length ≤ buffer.length) :
    putAll buffer position cells =
      some (buffer.take position ++ cells ++ buffer.drop (position + cells.length)) := by
  induction cells generalizing buffer position with
  | nil => rw [putAll, List.append_nil, List.length_nil, Nat.add_zero, List.take_append_drop]
  | cons cell rest ih =>
      rw [List.length_cons] at fits
      have stored : put buffer position cell = some (buffer.set position cell) :=
        put_inside (by omega) cell
      have shorter : position + 1 + rest.length ≤ (buffer.set position cell).length := by
        rw [List.length_set]
        omega
      have last : position + 1 + rest.length = position + (rest.length + 1) := by omega
      rw [putAll_cons, stored, Option.bind_some, ih shorter, take_succ_put stored,
        drop_put stored (by omega), List.length_cons, last, List.append_assoc (buffer.take position),
        List.singleton_append]

end Foundation.BoundedBuffer
