import Mathlib.Data.List.Infix

/-!
# Streams of coded records

A text is sent as records, each with a code that is not empty.  A receiver that has got
a part of the coded stream can open the records that are complete.  What it opens is an
initial part of the text, grows with the part it has got, and is everything at the end.
-/

namespace Foundation

universe u v

/-- A piece of a text and its code. -/
structure Record (Letter : Type u) (Code : Type v) where
  plain : List Letter
  coded : List Code
  nonempty : coded ≠ []

namespace Record

variable {Letter : Type u} {Code : Type v}

/-- The text of some records. -/
def plainOf (records : List (Record Letter Code)) : List Letter := records.flatMap plain

/-- The coded stream of some records. -/
def codedOf (records : List (Record Letter Code)) : List Code := records.flatMap coded

/-- The text of the records that are complete in a part of the stream. -/
@[grind =] def opened [DecidableEq Code] : List (Record Letter Code) → List Code → List Letter
  | [], _ => []
  | record :: records, stream =>
      if record.coded <+: stream then
        record.plain ++ opened records (stream.drop record.coded.length)
      else []

theorem plainOf_append (first second : List (Record Letter Code)) :
    plainOf (first ++ second) = plainOf first ++ plainOf second := List.flatMap_append

theorem codedOf_append (first second : List (Record Letter Code)) :
    codedOf (first ++ second) = codedOf first ++ codedOf second := List.flatMap_append

theorem eq_nil_of_codedOf_eq_nil {records : List (Record Letter Code)} (nothing : codedOf records = []) :
    records = [] := by
  cases records with
  | nil => rfl
  | cons record records =>
      rw [codedOf, List.flatMap_cons, List.append_eq_nil_iff] at nothing
      exact absurd nothing.1 record.nonempty

variable [DecidableEq Code]

/-- A longer part of the stream opens more. -/
theorem opened_mono {stream longer : List Code} (initial : stream <+: longer)
    (records : List (Record Letter Code)) : opened records stream <+: opened records longer := by
  induction records generalizing stream longer with
  | nil => exact List.prefix_rfl
  | cons record records ih =>
      rw [opened, opened]
      by_cases complete : record.coded <+: stream
      · rw [if_pos complete, if_pos (complete.trans initial)]
        exact (List.prefix_append_right_inj _).mpr (ih (initial.drop _))
      · rw [if_neg complete]
        exact List.nil_prefix

/-- More records do not take anything back. -/
theorem opened_append (records more : List (Record Letter Code)) (stream : List Code) :
    opened records stream <+: opened (records ++ more) stream := by
  induction records generalizing stream with
  | nil => exact List.nil_prefix
  | cons record records ih =>
      rw [List.cons_append, opened, opened]
      split
      · exact (List.prefix_append_right_inj _).mpr (ih _)
      · exact List.nil_prefix

/-- The whole stream opens the whole text. -/
theorem opened_codedOf (records : List (Record Letter Code)) :
    opened records (codedOf records) = plainOf records := by
  induction records with
  | nil => rfl
  | cons record records ih =>
      rw [opened, codedOf, List.flatMap_cons, if_pos (List.prefix_append ..), List.drop_left,
        ← codedOf, ih]
      rfl

/-- What is opened is an initial part of the text. -/
theorem opened_initial (records : List (Record Letter Code)) (stream : List Code) :
    opened records stream <+: plainOf records := by
  induction records generalizing stream with
  | nil => exact List.prefix_rfl
  | cons record records ih =>
      rw [opened]
      split
      · exact (List.prefix_append_right_inj _).mpr (ih _)
      · exact List.nil_prefix

end Record

end Foundation
