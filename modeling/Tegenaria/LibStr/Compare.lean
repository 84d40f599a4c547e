import Tegenaria.LibStr.Pattern

/-!
# Comparison of texts

The search functions compare a pattern with a text letter by letter, their UTF-8 versions
character by character, until a code differs.  The codes have bit 5 set, which takes more for
equal than the two cases of a letter: the terminator and a blank for instance.
-/

namespace Tegenaria.LibStr

open Foundation Foundation.Loop

/-- A string in memory, with its terminator. -/
def CString.memory (text : CString) : Chars := text.chars ++ [0]

def isAlpha (letter : UInt8) : Bool := (65 ≤ letter && letter ≤ 90) || (97 ≤ letter && letter ≤ 122)

/-- How a loop takes the next code from a string, and what stands behind it. -/
structure Reader where
  next : Chars → Option (Nat × Chars)
  next_nil : next [] = none
  next_cons : ∀ letter rest, ∃ code later, later <:+ rest ∧
    next (letter :: rest) = some (code, later) ∧
    next (letter :: (rest ++ [0])) = some (code, later ++ [0])
  zero : Nat
  next_zero : next [0] = some (zero, [])

/-- One byte at a time. -/
def byteReader (code : UInt8 → Nat) : Reader where
  next
    | [] => none
    | letter :: rest => some (code letter, rest)
  next_nil := rfl
  next_cons letter rest := ⟨code letter, rest, List.suffix_rfl, rfl, rfl⟩
  zero := code 0
  next_zero := rfl

/-- The byte with bit 5 set. -/
def folded (letter : UInt8) : Nat := (letter ||| 32).toNat

def foldedReader : Reader := byteReader folded

def exactReader : Reader := byteReader UInt8.toNat

section Utf8

def sqlite3Utf8Trans1 : List UInt32 :=
  (List.range 32 ++ List.range 16 ++ List.range 8 ++ [0, 1, 2, 3, 0, 1, 0, 0]).map UInt32.ofNat

/-- A byte that continues a character. -/
def continues (letter : UInt8) : Bool := letter &&& 0xc0 == 0x80

/-- Polish letters without their marks, and blanks for some punctuation. -/
def plainCode (c : UInt32) : UInt32 :=
  if c = 0x105 ∨ c = 0x104 then 97
  else if c = 0x119 ∨ c = 0x118 then 101
  else if c = 0x107 ∨ c = 0x106 then 99
  else if c = 0x142 ∨ c = 0x141 then 108
  else if c = 0x144 ∨ c = 0x143 then 110
  else if c = 0xf3 ∨ c = 0xd3 then 111
  else if c = 0x17a ∨ c = 0x179 then 122
  else if c = 0x17c ∨ c = 0x17b then 122
  else if c = 0x15a ∨ c = 0x15b then 115
  else if c = 45 ∨ c = 9 ∨ c = 44 ∨ c = 46 ∨ c = 39 then 32
  else c

/-- The code of a first byte and the bytes that continue it. -/
def multiByteCode (lead : UInt8) (tail : Chars) : UInt32 :=
  let first := sqlite3Utf8Trans1.getD (lead.toNat - 0xc0) 0
  let c := tail.foldl (fun (c : UInt32) letter => (c <<< 6) + (0x3f &&& letter.toUInt32)) first
  if c < 0x80 ∨ c &&& 0xFFFFF800 = 0xD800 ∨ c &&& 0xFFFFFFFE = 0xFFFE then 0xFFFD else c

/-- `GetUtf8`: the next character and the position behind it. -/
def getUtf8 : Chars → Option (UInt32 × Chars)
  | [] => none
  | lead :: zIn =>
      if lead ≥ 0xc0 then
        some (plainCode (multiByteCode lead (zIn.takeWhile continues)), zIn.dropWhile continues)
      else some (plainCode lead.toUInt32, zIn)

theorem continues_zero (letters : Chars) :
    (letters ++ [0]).takeWhile continues = letters.takeWhile continues ∧
      (letters ++ [0]).dropWhile continues = letters.dropWhile continues ++ [0] := by
  induction letters with
  | nil => exact ⟨rfl, rfl⟩
  | cons letter letters ih =>
      rw [List.cons_append, List.takeWhile_cons, List.takeWhile_cons, List.dropWhile_cons,
        List.dropWhile_cons, ih.1, ih.2]
      split
      · exact ⟨rfl, rfl⟩
      · exact ⟨rfl, rfl⟩

/-- One character at a time, its code with bit 5 set. -/
def utf8Reader : Reader where
  next memory := (getUtf8 memory).map fun found => ((found.1 ||| 32).toNat, found.2)
  next_nil := rfl
  next_cons lead zIn := by
    obtain ⟨sameTail, sameRest⟩ := continues_zero zIn
    simp only [getUtf8, sameTail, sameRest]
    split
    · exact ⟨_, _, List.dropWhile_suffix _, rfl, rfl⟩
    · exact ⟨_, _, List.suffix_rfl, rfl, rfl⟩
  zero := 32
  next_zero := by decide

end Utf8

/-- The pattern has ended: `accept` looks at the letter behind the match. -/
def onMatch (accept : Option UInt8 → Option Bool) (a b : Chars) : Step (Chars × Chars) (Option Chars) :=
  match accept a.head? with
  | some true => .done (some a)
  | some false => .next (a, b)
  | none => .outside

/-- One round of the loop that compares at a place.  The result is what stands behind the
match. -/
def compareStep (reader : Reader) (accept : Option UInt8 → Option Bool) :
    Chars × Chars → Step (Chars × Chars) (Option Chars)
  | (a, b) =>
      match reader.next a, reader.next b with
      | some (x, a), some (y, b) =>
          if x = y then
            match b with
            | [] => .outside
            | letter :: _ => if letter = 0 then onMatch accept a b else .next (a, b)
          else .done none
      | _, _ => .outside

/-- The comparison at a place of the text. -/
def compareAt (reader : Reader) (accept : Option UInt8 → Option Bool) (text pattern : CString)
    (place : Nat) : Outcome (Option Chars) :=
  run (compareStep reader accept) (text.memory.length + 1) (text.memory.drop place, pattern.memory)

/-- Any match will do. -/
def anywhere (_ : Option UInt8) : Option Bool := some true

/-! ## The comparison as a function of the codes -/

/-- A character as a reader sees it: its code and its first byte. -/
structure Symbol where
  code : Nat
  first : UInt8

theorem Reader.shorter (reader : Reader) {memory rest : Chars} {code : Nat}
    (found : reader.next memory = some (code, rest)) : rest.length < memory.length := by
  cases memory with
  | nil => simp [reader.next_nil] at found
  | cons letter tail =>
      obtain ⟨_, later, suffix, read, _⟩ := reader.next_cons letter tail
      rw [read, Option.some.injEq, Prod.mk.injEq] at found
      rw [← found.2, List.length_cons]
      exact Nat.lt_succ_of_le suffix.length_le

/-- The characters of a string. -/
def symbols (reader : Reader) (memory : Chars) : List Symbol :=
  match _found : reader.next memory with
  | some (code, rest) => ⟨code, memory.headD 0⟩ :: symbols reader rest
  | none => []
termination_by memory.length
decreasing_by exact reader.shorter _found

/-- The comparison of two lists of characters. -/
@[grind =] def judge (accept : Option UInt8 → Option Bool) : List Symbol → List Symbol → Outcome Bool
  | x :: xs, y :: ys =>
      if x.code = y.code then
        match ys with
        | [] => .outside
        | z :: _ =>
            if z.first = 0 then
              match accept (xs.head?.map Symbol.first) with
              | some true => .returned true
              | some false => judge accept xs ys
              | none => .outside
            else judge accept xs ys
      else .returned false
  | _, _ => .outside

section Symbols

variable {reader : Reader} {accept : Option UInt8 → Option Bool}

theorem symbols_nil : symbols reader [] = [] := by
  rw [symbols]
  split
  · next found => simp [reader.next_nil] at found
  · rfl

theorem symbols_next {memory rest : Chars} {code : Nat}
    (found : reader.next memory = some (code, rest)) :
    symbols reader memory = ⟨code, memory.headD 0⟩ :: symbols reader rest := by
  rw [symbols]
  split
  · next other =>
      rw [found, Option.some.injEq, Prod.mk.injEq] at other
      rw [other.1, other.2]
  · next other => simp [found] at other

theorem symbols_head (memory : Chars) :
    (symbols reader memory).head?.map Symbol.first = memory.head? := by
  cases memory with
  | nil => rw [symbols_nil]; rfl
  | cons letter rest =>
      obtain ⟨_, _, _, read, _⟩ := reader.next_cons letter rest
      rw [symbols_next read]
      rfl

/-- What happens when the whole pattern has matched. -/
def settle (accept : Option UInt8 → Option Bool) (behind : List Symbol) (more : Outcome Bool) :
    Outcome Bool :=
  match accept (behind.head?.map Symbol.first) with
  | some true => .returned true
  | some false => more
  | none => .outside

theorem judge_nil (accept : Option UInt8 → Option Bool) (ys : List Symbol) :
    judge accept [] ys = .outside := by
  rw [judge]
  simp

theorem judge_ne {x y : Symbol} (differs : x.code ≠ y.code) (xs ys : List Symbol) :
    judge accept (x :: xs) (y :: ys) = .returned false := by
  unfold judge
  rw [if_neg differs]

theorem judge_last {x y : Symbol} (same : x.code = y.code) (xs : List Symbol) :
    judge accept (x :: xs) [y] = .outside := by
  rw [judge, if_pos same]

theorem judge_cons {x y z : Symbol} (same : x.code = y.code) (xs ys : List Symbol) :
    judge accept (x :: xs) (y :: z :: ys) =
      if z.first = 0 then settle accept xs (judge accept xs (z :: ys)) else judge accept xs (z :: ys) := by
  rw [judge, if_pos same]
  rfl

theorem compareStep_eq {a b laterA laterB : Chars} {x y : Nat} {z : UInt8}
    (readA : reader.next a = some (x, laterA)) (readB : reader.next b = some (y, z :: laterB))
    (same : x = y) : compareStep reader accept (a, b) =
      if z = 0 then onMatch accept laterA (z :: laterB) else .next (laterA, z :: laterB) := by
  rw [compareStep, readA, readB]
  exact if_pos same

/-- The loop compares the characters. -/
theorem run_compareStep (a b : Chars) {fuel : Nat} (enough : a.length < fuel) :
    (run (compareStep reader accept) fuel (a, b)).map Option.isSome =
      judge accept (symbols reader a) (symbols reader b) := by
  induction fuel generalizing a b with
  | zero => exact absurd enough (Nat.not_lt_zero _)
  | succ fuel ih =>
      rw [run]
      cases a with
      | nil =>
          rw [symbols_nil, judge_nil, compareStep, reader.next_nil]
          rfl
      | cons letter a =>
          obtain ⟨x, later, suffix, readA, _⟩ := reader.next_cons letter a
          have shorter := suffix.length_le
          rw [List.length_cons] at enough
          rw [symbols_next readA]
          cases b with
          | nil =>
              rw [compareStep, readA, reader.next_nil, symbols_nil, judge]
              · rfl
              · simp
          | cons other b =>
              obtain ⟨y, laterB, _, readB, _⟩ := reader.next_cons other b
              rw [symbols_next readB]
              by_cases same : x = y
              · cases laterB with
                | nil =>
                    rw [symbols_nil, judge_last same, compareStep, readA, readB]
                    dsimp only
                    rw [if_pos same]
                    rfl
                | cons z laterB =>
                    obtain ⟨code, _, _, readZ, _⟩ := reader.next_cons z laterB
                    have seen := symbols_next readZ
                    have first : (z :: laterB).headD 0 = z := rfl
                    rw [seen, judge_cons same, ← seen, ← ih later _ (by omega), settle,
                      symbols_head later, compareStep_eq readA readB same]
                    by_cases terminator : z = 0
                    · rw [if_pos terminator, if_pos (first.trans terminator), onMatch]
                      cases accept later.head? with
                      | none => rfl
                      | some accepted => cases accepted <;> rfl
                    · rw [if_neg terminator, if_neg fun zero => terminator (first.symm.trans zero)]
              · rw [judge_ne same, compareStep, readA, readB]
                dsimp only
                rw [if_neg same]
                rfl

/-- Induction along the characters of a string. -/
theorem symbols_induction (reader : Reader) {motive : Chars → Prop} (nil : motive [])
    (cons : ∀ letter rest code later, later <:+ rest →
      reader.next (letter :: rest) = some (code, later) →
      reader.next (letter :: (rest ++ [0])) = some (code, later ++ [0]) →
      motive later → motive (letter :: rest)) (letters : Chars) : motive letters := by
  induction bound : letters.length using Nat.strong_induction_on generalizing letters with
  | _ size ih =>
      cases letters with
      | nil => exact nil
      | cons letter rest =>
          obtain ⟨code, later, suffix, read, readLonger⟩ := reader.next_cons letter rest
          have shorter : later.length < size := by
            rw [← bound, List.length_cons]
            exact Nat.lt_succ_of_le suffix.length_le
          exact cons letter rest code later suffix read readLonger (ih _ shorter later rfl)

theorem symbols_memory (letters : Chars) :
    symbols reader (letters ++ [0]) = symbols reader letters ++ [⟨reader.zero, 0⟩] := by
  induction letters using symbols_induction reader with
  | nil =>
      rw [List.nil_append, symbols_next reader.next_zero, symbols_nil]
      rfl
  | cons letter rest code later suffix read readLonger ih =>
      rw [List.cons_append, symbols_next readLonger, symbols_next read, ih]
      rfl

theorem first_mem_symbols {letters : Chars} {symbol : Symbol} (member : symbol ∈ symbols reader letters) :
    symbol.first ∈ letters := by
  induction letters using symbols_induction reader with
  | nil => simp [symbols_nil] at member
  | cons letter rest code later suffix read readLonger ih =>
      rw [symbols_next read, List.mem_cons] at member
      rcases member with rfl | inLater
      · exact List.mem_cons_self
      · exact List.mem_cons_of_mem _ (suffix.subset (ih inLater))

end Symbols

/-! ## The outcome of a comparison -/

/-- The codes of a pattern are those at the begin of a text. -/
def Fits (xs ps : List Symbol) : Prop := ps.map Symbol.code <+: xs.map Symbol.code

/-- The codes are the same as far as both lists go. -/
def Agree (xs ps : List Symbol) : Prop := Fits xs ps ∨ Fits ps xs

theorem Agree.cases {xs ps : List Symbol} (agree : Agree xs ps) :
    Fits xs ps ∨ (Fits ps xs ∧ xs.length < ps.length) := by
  rcases agree with fits | short
  · exact .inl fits
  · by_cases less : xs.length < ps.length
    · exact .inr ⟨short, less⟩
    · refine .inl ?_
      rw [Fits, short.eq_of_length_le (by simpa using less)]

theorem fits_cons {x p : Symbol} {xs ps : List Symbol} :
    Fits (x :: xs) (p :: ps) ↔ x.code = p.code ∧ Fits xs ps := by
  rw [Fits, List.map_cons, List.map_cons, List.cons_prefix_cons, Fits, eq_comm]

section Outcomes

variable {accept : Option UInt8 → Option Bool} {xs ps : List Symbol} {zero : Symbol}

/-- The codes agree and the pattern has not ended. -/
theorem judge_inside {x p q : Symbol} (same : x.code = p.code) (visible : q.first ≠ 0)
    (xs ps : List Symbol) : judge accept (x :: xs) (p :: q :: ps ++ [zero]) =
      judge accept xs (q :: ps ++ [zero]) := by
  rw [List.cons_append, List.cons_append, judge_cons same, if_neg visible]

theorem judge_fits (nonempty : ps ≠ []) (plain : ∀ symbol ∈ ps, symbol.first ≠ 0)
    (terminates : zero.first = 0) (fits : Fits xs ps) :
    judge accept xs (ps ++ [zero]) =
      settle accept (xs.drop ps.length) (judge accept (xs.drop ps.length) [zero]) := by
  induction ps generalizing xs with
  | nil => exact absurd rfl nonempty
  | cons p ps ih =>
      cases xs with
      | nil => simp [Fits] at fits
      | cons x xs =>
          obtain ⟨same, fitsRest⟩ := Iff.mp fits_cons fits
          rw [List.forall_mem_cons] at plain
          cases ps with
          | nil =>
              rw [List.singleton_append, judge_cons same, if_pos terminates]
              rfl
          | cons q ps =>
              rw [judge_inside same (plain.2 q List.mem_cons_self),
                ih (List.cons_ne_nil _ _) plain.2 fitsRest]
              rfl

theorem judge_short (plain : ∀ symbol ∈ ps, symbol.first ≠ 0) (short : Fits ps xs)
    (less : xs.length < ps.length) : judge accept xs (ps ++ [zero]) = .outside := by
  induction ps generalizing xs with
  | nil => exact absurd less (Nat.not_lt_zero _)
  | cons p ps ih =>
      cases xs with
      | nil => exact judge_nil _ _
      | cons x xs =>
          obtain ⟨same, shortRest⟩ := Iff.mp fits_cons short
          rw [List.forall_mem_cons] at plain
          rw [List.length_cons, List.length_cons] at less
          cases ps with
          | nil => simp at less
          | cons q ps =>
              rw [judge_inside same.symm (plain.2 q List.mem_cons_self)]
              exact ih plain.2 shortRest (by omega)

theorem judge_differs (plain : ∀ symbol ∈ ps, symbol.first ≠ 0) (differs : ¬ Agree xs ps) :
    judge accept xs (ps ++ [zero]) = .returned false := by
  induction ps generalizing xs with
  | nil => exact absurd (.inl List.nil_prefix) differs
  | cons p ps ih =>
      cases xs with
      | nil => exact absurd (.inr List.nil_prefix) differs
      | cons x xs =>
          rw [List.forall_mem_cons] at plain
          by_cases same : x.code = p.code
          · have differsRest : ¬ Agree xs ps := fun agree =>
              differs (agree.imp (fun fits => Iff.mpr fits_cons ⟨same, fits⟩)
                fun short => Iff.mpr fits_cons ⟨same.symm, short⟩)
            cases ps with
            | nil => exact absurd (.inl List.nil_prefix) differsRest
            | cons q ps =>
                rw [judge_inside same (plain.2 q List.mem_cons_self)]
                exact ih plain.2 differsRest
          · exact judge_ne same xs _

/-- Only where the whole pattern fits a place can be accepted. -/
theorem fits_of_judge (plain : ∀ symbol ∈ ps, symbol.first ≠ 0)
    (accepted : judge accept xs (ps ++ [zero]) = .returned true) : Fits xs ps := by
  by_contra differs
  by_cases agree : Agree xs ps
  · obtain ⟨short, less⟩ := agree.cases.resolve_left differs
    rw [judge_short plain short less] at accepted
    simp at accepted
  · rw [judge_differs plain agree] at accepted
    simp at accepted

end Outcomes

section CompareAt

variable {reader : Reader} {accept : Option UInt8 → Option Bool} {text pattern : CString} {place : Nat}

/-- The characters from a place of the text on, the terminator included. -/
def CString.symbolsFrom (reader : Reader) (text : CString) (place : Nat) : List Symbol :=
  symbols reader (text.memory.drop place)

theorem symbols_plain (reader : Reader) (pattern : CString) :
    ∀ symbol ∈ symbols reader pattern.chars, symbol.first ≠ 0 :=
  fun _ member zero => pattern.plain (zero ▸ first_mem_symbols member)

theorem compareAt_judge : (compareAt reader accept text pattern place).map Option.isSome =
    judge accept (text.symbolsFrom reader place)
      (symbols reader pattern.chars ++ [⟨reader.zero, 0⟩]) := by
  rw [← symbols_memory]
  exact run_compareStep _ _ (by rw [List.length_drop]; omega)

theorem compareAt_stops_iff : compareAt reader accept text pattern place ≠ .returned none ↔
    judge accept (text.symbolsFrom reader place)
      (symbols reader pattern.chars ++ [⟨reader.zero, 0⟩]) ≠ .returned false := by
  rw [← compareAt_judge]
  simp [Outcome.map_eq_returned]

theorem compareAt_hits_iff : (∃ found, compareAt reader accept text pattern place = .returned (some found)) ↔
    judge accept (text.symbolsFrom reader place)
      (symbols reader pattern.chars ++ [⟨reader.zero, 0⟩]) = .returned true := by
  rw [← compareAt_judge, Outcome.map_eq_returned]
  simp [Option.isSome_iff_exists]

end CompareAt

end Tegenaria.LibStr
