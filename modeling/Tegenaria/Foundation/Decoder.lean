import Mathlib.Data.List.Basic

/-!
# Decoders

A decoder takes a value off the front of a token string and leaves the rest, or
fails.  Decoders are sequenced as computations with state.

`Reads` says which tokens a decoder takes: exactly these, whatever follows, as long
as the whole string is shorter than a limit.  `Consumes` says how many tokens it
takes, on any string.  `Agree` compares two decoders that
produce different values: they succeed on the same strings and leave the same rest.
-/

namespace Foundation

universe u

/-- A computation on the string that is still to be decoded. -/
abbrev Decoder (Token Value : Type u) := StateT (List Token) Option Value

namespace Decoder

variable {Token Value Result : Type u}

/-- Decode only if something is there. -/
def optional (present : Bool) (decoder : Decoder Token Value) (absent : Value) :
    Decoder Token Value :=
  if present then decoder else pure absent

/-! ## Taking known tokens -/

/-- The decoder takes the tokens and returns the value. -/
def Reads (limit : Nat) (decoder : Decoder Token Value) (tokens : List Token)
    (value : Value) : Prop :=
  ∀ rest, (tokens ++ rest).length < limit → decoder.run (tokens ++ rest) = some (value, rest)

section Reading

variable {limit : Nat} {decoder : Decoder Token Value} {tokens more : List Token} {value : Value}

theorem reads_pure (limit : Nat) (value : Value) :
    Reads limit (pure value : Decoder Token Value) [] value :=
  fun _ _ => rfl

theorem Reads.bind {further : Value → Decoder Token Result} {result : Result}
    (first : Reads limit decoder tokens value)
    (next : Reads limit (further value) more result) :
    Reads limit (decoder >>= further) (tokens ++ more) result := by
  intro rest short
  rw [List.append_assoc] at short ⊢
  have shorter : (more ++ rest).length < limit := by
    rw [List.length_append] at short
    omega
  rw [StateT.run_bind, first _ short]
  exact next rest shorter

/-- The last part of a decoder only computes. -/
theorem Reads.map {compute : Value → Result} (first : Reads limit decoder tokens value) :
    Reads limit (do let value ← decoder; pure (compute value)) tokens (compute value) := by
  have both : Reads limit (decoder >>= fun value => pure (compute value)) (tokens ++ [])
      (compute value) := first.bind (reads_pure limit _)
  rwa [List.append_nil] at both

end Reading

/-! ## Taking a known number of tokens -/

/-- The decoder takes `width` tokens, and fails only if there are fewer. -/
def Consumes (limit : Nat) (decoder : Decoder Token Value) (width : Nat) : Prop :=
  ∀ tokens, tokens.length < limit →
    (decoder.run tokens).map Prod.snd = if width ≤ tokens.length then some (tokens.drop width) else none

section Consuming

variable {limit width : Nat} {decoder : Decoder Token Value} {tokens : List Token}

theorem consumes_pure (limit : Nat) (value : Value) :
    Consumes limit (pure value : Decoder Token Value) 0 :=
  fun _ _ => rfl

theorem Consumes.run_of_le (consumes : Consumes limit decoder width) (short : tokens.length < limit)
    (enough : width ≤ tokens.length) :
    ∃ value, decoder.run tokens = some (value, tokens.drop width) := by
  have rest := consumes tokens short
  rw [if_pos enough] at rest
  obtain ⟨⟨value, left⟩, ran, same⟩ := Option.map_eq_some_iff.mp rest
  cases same
  exact ⟨value, ran⟩

theorem Consumes.run_of_lt (consumes : Consumes limit decoder width) (short : tokens.length < limit)
    (few : tokens.length < width) : decoder.run tokens = none := by
  have rest := consumes tokens short
  rw [if_neg (Nat.not_le_of_lt few)] at rest
  exact Option.map_eq_none_iff.mp rest

/-- The width of the second part may depend on what the first part has found. -/
theorem Consumes.bind_run {further : Value → Decoder Token Result} {value : Value} {more : Nat}
    (ran : decoder.run tokens = some (value, tokens.drop width))
    (next : Consumes limit (further value) more) (short : tokens.length < limit)
    (enough : width ≤ tokens.length) :
    ((decoder >>= further).run tokens).map Prod.snd =
      if width + more ≤ tokens.length then some (tokens.drop (width + more)) else none := by
  have shorter : (tokens.drop width).length < limit := by
    rw [List.length_drop]
    omega
  rw [StateT.run_bind, ran, Option.bind_eq_bind, Option.bind_some, next _ shorter,
    List.length_drop, List.drop_drop]
  by_cases whole : width + more ≤ tokens.length
  · rw [if_pos whole, if_pos (by omega)]
  · rw [if_neg whole, if_neg (by omega)]

theorem Consumes.bind {further : Value → Decoder Token Result} {more : Nat}
    (first : Consumes limit decoder width) (next : ∀ value, Consumes limit (further value) more) :
    Consumes limit (decoder >>= further) (width + more) := by
  intro tokens short
  by_cases enough : width ≤ tokens.length
  · obtain ⟨value, ran⟩ := first.run_of_le short enough
    exact bind_run ran (next value) short enough
  · rw [StateT.run_bind, first.run_of_lt short (Nat.lt_of_not_le enough), if_neg (by omega)]
    rfl

theorem Consumes.map {compute : Value → Result} (first : Consumes limit decoder width) :
    Consumes limit (do let value ← decoder; pure (compute value)) width :=
  first.bind fun value => consumes_pure limit (compute value)

theorem Consumes.optional {present : Bool} {absent : Value} (first : Consumes limit decoder width) :
    Consumes limit (Decoder.optional present decoder absent) (if present then width else 0) := by
  cases present with
  | false => exact consumes_pure limit absent
  | true => exact first

end Consuming

/-! ## Comparing decoders -/

/-- The decoders succeed on the same strings, with related values and the same
rest. -/
def Agree (related : Value → Result → Prop) (first : Decoder Token Value)
    (second : Decoder Token Result) : Prop :=
  ∀ tokens, Option.Rel (fun left right => related left.1 right.1 ∧ left.2 = right.2)
    (first.run tokens) (second.run tokens)

section Comparing

variable {related : Value → Result → Prop} {first : Decoder Token Value}
variable {second : Decoder Token Result}

theorem agree_pure {left : Value} {right : Result} (same : related left right) :
    Agree related (pure left : Decoder Token Value) (pure right) :=
  fun _ => .some ⟨same, rfl⟩

theorem agree_refl (decoder : Decoder Token Value) : Agree Eq decoder decoder := by
  intro tokens
  cases decoder.run tokens with
  | none => exact .none
  | some outcome => exact .some ⟨rfl, rfl⟩

theorem Agree.bind {Left Right : Type u} {later : Left → Right → Prop}
    {left : Value → Decoder Token Left} {right : Result → Decoder Token Right}
    (begins : Agree related first second)
    (goes_on : ∀ value result, related value result → Agree later (left value) (right result)) :
    Agree later (first >>= left) (second >>= right) := by
  intro tokens
  rw [StateT.run_bind, StateT.run_bind]
  have outcomes := begins tokens
  revert outcomes
  cases first.run tokens with
  | none =>
      cases second.run tokens with
      | none => exact fun _ => .none
      | some _ => exact fun outcomes => by cases outcomes
  | some outcome =>
      cases second.run tokens with
      | none => exact fun outcomes => by cases outcomes
      | some other =>
          rintro (⟨same, rest⟩)
          rw [Option.bind_eq_bind, Option.bind_eq_bind, Option.bind_some, Option.bind_some, rest]
          exact goes_on _ _ same other.2

/-- Decoders that agree consume the same tokens. -/
theorem Agree.rest (agree : Agree related first second) (tokens : List Token) :
    (first.run tokens).map Prod.snd = (second.run tokens).map Prod.snd := by
  have outcomes := agree tokens
  revert outcomes
  cases first.run tokens with
  | none =>
      cases second.run tokens with
      | none => exact fun _ => rfl
      | some _ => exact fun outcomes => by cases outcomes
  | some outcome =>
      cases second.run tokens with
      | none => exact fun outcomes => by cases outcomes
      | some other =>
          rintro (⟨_, rest⟩)
          exact congrArg some rest

end Comparing

end Decoder

end Foundation
