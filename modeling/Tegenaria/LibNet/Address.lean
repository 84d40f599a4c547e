import Mathlib.Logic.Function.Basic
import Tegenaria.Foundation.Memory
import Tegenaria.LibNet.Atoi

/-!
# Network addresses

`NetParseAddress` cuts a copy of an address at its first colon and its first comma, and copies
the parts into buffers of sixteen bytes without looking at their lengths or at the order of the
separators.
-/

namespace Tegenaria.LibNet

open Foundation LibStr

/-- `strchr` -/
def strchr (text : Chars) (letter : UInt8) : Option Nat :=
  if letter ∈ text then some (text.idxOf letter) else none

/-- `strcpy` with the terminator. -/
def strcpy (dst : Memory UInt8) (src : Chars) : Memory UInt8 :=
  fun address => (src ++ [0]).getD address (dst address)

structure ParsedAddress where
  exitCode : Int
  ip1 : Option (Memory UInt8)
  ip2 : Option (Memory UInt8)
  port : Option Int

/-- `NetParseAddress`; every buffer may be missing. -/
def netParseAddress (ip1 ip2 : Option (Memory UInt8)) (port : Option Int) :
    (address : Option CString) → ParsedAddress
  | none => { exitCode := -1, ip1 := ip1, ip2 := ip2, port := port }
  | some address =>
      let p := address.chars
      match strchr p 58, strchr p 44 with
      | some delim, some colon =>
          let p := (p.set delim 0).set colon 0
          { exitCode := 0
            ip1 := ip1.map (strcpy · (stringAt p 0))
            ip2 := ip2.map (strcpy · (stringAt p (colon + 1)))
            port := port.map fun _ => atoi (stringAt p (delim + 1)) }
      | some delim, none =>
          let p := p.set delim 0
          { exitCode := 0
            ip1 := ip1.map (strcpy · (stringAt p 0))
            ip2 := ip2.map (Function.update · 0 0)
            port := port.map fun _ => atoi (stringAt p (delim + 1)) }
      | none, _ => { exitCode := -1, ip1 := ip1, ip2 := ip2, port := port }

/-! ## The layouts of an address -/

section Layouts

variable {front middle back : Chars} {letter : UInt8}

theorem strchr_append (absent : letter ∉ front) :
    strchr (front ++ letter :: back) letter = some front.length := by
  rw [strchr, if_pos (by simp), List.idxOf_append_of_notMem absent, List.idxOf_cons_self]
  rfl

theorem strchr_none (absent : letter ∉ front) : strchr front letter = none := if_neg absent

theorem set_length (front back : Chars) (old : UInt8) :
    (front ++ old :: back).set front.length 0 = front ++ 0 :: back := by
  rw [List.set_append_right _ _ (Nat.le_refl _), Nat.sub_self]
  rfl

theorem stringAt_begin (plain : 0 ∉ front) : stringAt (front ++ 0 :: back) 0 = front := by
  rw [stringAt, List.drop_zero, Terminator.visible_append, Terminator.visible_of_notMem plain]

/-- A string behind a letter, up to the end of the buffer. -/
theorem stringAt_end (plain : 0 ∉ back) :
    stringAt (front ++ letter :: back) (front.length + 1) = back := by
  rw [stringAt, ← List.drop_drop, List.drop_left, List.drop_succ_cons, List.drop_zero,
    Terminator.visible_of_notMem plain]

/-- A string behind a letter, up to a terminator. -/
theorem stringAt_middle (plain : 0 ∉ middle) :
    stringAt (front ++ letter :: (middle ++ 0 :: back)) (front.length + 1) = middle := by
  rw [stringAt, ← List.drop_drop, List.drop_left, List.drop_succ_cons, List.drop_zero,
    Terminator.visible_append, Terminator.visible_of_notMem plain]

end Layouts

section Parsed

variable {ip1 ip2 : Memory UInt8} {port : Int} {address : CString} {host host1 host2 tail behind : Chars}

theorem parse_noColon (absent : 58 ∉ address.chars) :
    netParseAddress (some ip1) (some ip2) (some port) (some address) =
      { exitCode := -1, ip1 := some ip1, ip2 := some ip2, port := some port } := by
  simp only [netParseAddress, strchr_none absent]

/-- The layout `host:port`. -/
theorem parse_single (split : address.chars = host ++ 58 :: tail) (noColon : 58 ∉ host)
    (noComma : 44 ∉ host ++ tail) :
    netParseAddress (some ip1) (some ip2) (some port) (some address) =
      { exitCode := 0
        ip1 := some (strcpy ip1 host)
        ip2 := some (Function.update ip2 0 0)
        port := some (atoi tail) } := by
  have plain := address.plain
  simp only [split, List.mem_append, List.mem_cons, not_or] at plain noComma
  have comma : strchr (host ++ 58 :: tail) 44 = none := by
    refine strchr_none ?_
    simpa using noComma
  simp only [netParseAddress, split, strchr_append noColon, comma, set_length, Option.map_some,
    stringAt_begin plain.1, stringAt_end plain.2.2]

/-- The layout `host1,host2:port`. -/
theorem parse_pair (split : address.chars = host1 ++ 44 :: (host2 ++ 58 :: tail))
    (noComma : 44 ∉ host1) (noColon : 58 ∉ host1 ++ host2) :
    netParseAddress (some ip1) (some ip2) (some port) (some address) =
      { exitCode := 0
        ip1 := some (strcpy ip1 host1)
        ip2 := some (strcpy ip2 host2)
        port := some (atoi tail) } := by
  have plain := address.plain
  simp only [split, List.mem_append, List.mem_cons, not_or] at plain noColon
  have regroup : ∀ separator terminator : UInt8,
      host1 ++ separator :: (host2 ++ terminator :: tail) =
        (host1 ++ separator :: host2) ++ terminator :: tail := by simp
  have length : (host1 ++ 44 :: host2).length = (host1 ++ 0 :: host2).length := by simp
  have delim : strchr (host1 ++ 44 :: (host2 ++ 58 :: tail)) 58 =
      some (host1 ++ 44 :: host2).length := by
    rw [regroup, strchr_append (by simpa using noColon)]
  have colon := @strchr_append _ (host2 ++ 58 :: tail) 44 noComma
  have cut : ((host1 ++ 44 :: (host2 ++ 58 :: tail)).set (host1 ++ 44 :: host2).length 0).set
      host1.length 0 = host1 ++ 0 :: (host2 ++ 0 :: tail) := by
    rw [regroup, set_length, ← regroup, set_length]
  have port : stringAt (host1 ++ 0 :: (host2 ++ 0 :: tail)) ((host1 ++ 44 :: host2).length + 1) =
      tail := by
    rw [regroup, length, stringAt_end plain.2.2.2.2]
  simp only [netParseAddress, split, delim, colon, cut, port, Option.map_some,
    stringAt_begin plain.1, stringAt_middle plain.2.2.1]

/-- The layout `host:tail,behind`. -/
theorem parse_swapped (split : address.chars = host ++ 58 :: (tail ++ 44 :: behind))
    (noColon : 58 ∉ host) (noComma : 44 ∉ host ++ tail) :
    netParseAddress (some ip1) (some ip2) (some port) (some address) =
      { exitCode := 0
        ip1 := some (strcpy ip1 host)
        ip2 := some (strcpy ip2 behind)
        port := some (atoi tail) } := by
  have plain := address.plain
  simp only [split, List.mem_append, List.mem_cons, not_or] at plain noComma
  have regroup : ∀ separator terminator : UInt8,
      host ++ separator :: (tail ++ terminator :: behind) =
        (host ++ separator :: tail) ++ terminator :: behind := by simp
  have length : (host ++ 58 :: tail).length = (host ++ 0 :: tail).length := by simp
  have delim := @strchr_append _ (tail ++ 44 :: behind) 58 noColon
  have colon : strchr (host ++ 58 :: (tail ++ 44 :: behind)) 44 =
      some (host ++ 58 :: tail).length := by
    rw [regroup, strchr_append (by simpa using noComma)]
  have cut : ((host ++ 58 :: (tail ++ 44 :: behind)).set host.length 0).set
      (host ++ 58 :: tail).length 0 = host ++ 0 :: (tail ++ 0 :: behind) := by
    rw [set_length, regroup, length, set_length, ← regroup]
  have second : stringAt (host ++ 0 :: (tail ++ 0 :: behind)) ((host ++ 58 :: tail).length + 1) =
      behind := by
    rw [regroup, length, stringAt_end plain.2.2.2.2]
  simp only [netParseAddress, split, delim, colon, cut, second, Option.map_some,
    stringAt_begin plain.1, stringAt_middle plain.2.2.1]

end Parsed

/-! ## Addresses that are parsed as they should be -/

/-- A string that stands in a buffer. -/
def Holds (memory : Memory UInt8) (text : Chars) : Prop :=
  memory.slice 0 (text.length + 1) = text ++ [0]

/-- The buffers of sixteen bytes are not left, a formatted address is parsed to its parts, and
an address with a comma behind its only colon is rejected. -/
structure AddressParsed (address : CString) : Prop where
  inside (ip1 ip2 : Memory UInt8) (port : Int) : ∀ place, 16 ≤ place →
    (netParseAddress (some ip1) (some ip2) (some port) (some address)).ip1.map (· place) =
        some (ip1 place) ∧
      (netParseAddress (some ip1) (some ip2) (some port) (some address)).ip2.map (· place) =
        some (ip2 place)
  single (ip1 ip2 : Memory UInt8) (port : Int) (host : Chars) (number : Nat) :
    address.chars = host ++ 58 :: decimal number → 58 ∉ host → 44 ∉ host → host.length ≤ 15 →
      number ≤ 65535 →
    ∃ new1 new2, netParseAddress (some ip1) (some ip2) (some port) (some address) =
      { exitCode := 0, ip1 := some new1, ip2 := some new2, port := some number } ∧
        Holds new1 host ∧ Holds new2 []
  pair (ip1 ip2 : Memory UInt8) (port : Int) (host1 host2 : Chars) (number : Nat) :
    address.chars = host1 ++ 44 :: (host2 ++ 58 :: decimal number) → 58 ∉ host1 ++ host2 →
      44 ∉ host1 ++ host2 → host1.length ≤ 15 → host2.length ≤ 15 → number ≤ 65535 →
    ∃ new1 new2, netParseAddress (some ip1) (some ip2) (some port) (some address) =
      { exitCode := 0, ip1 := some new1, ip2 := some new2, port := some number } ∧
        Holds new1 host1 ∧ Holds new2 host2
  swapped (ip1 ip2 : Memory UInt8) (port : Int) (front back : Chars) :
    address.chars = front ++ 58 :: back → 58 ∉ front ++ back → 44 ∉ front → 44 ∈ back →
    (netParseAddress (some ip1) (some ip2) (some port) (some address)).exitCode = -1

/-- What is copied has at most fifteen letters, and a comma behind the only colon does not
occur. -/
structure PartsFit (address : CString) : Prop where
  single (host tail : Chars) : address.chars = host ++ 58 :: tail → 58 ∉ host → 44 ∉ host ++ tail →
    host.length ≤ 15
  pair (host1 host2 tail : Chars) : address.chars = host1 ++ 44 :: (host2 ++ 58 :: tail) →
    44 ∉ host1 → 58 ∉ host1 ++ host2 → host1.length ≤ 15 ∧ host2.length ≤ 15
  swapped (host tail behind : Chars) : address.chars = host ++ 58 :: (tail ++ 44 :: behind) →
    58 ∉ host → 44 ∉ host ++ tail →
      host.length ≤ 15 ∧ behind.length ≤ 15 ∧ 58 ∈ tail ++ behind

/-- The order of the separators. -/
inductive Layout (text : Chars) : Prop
  | noColon (absent : 58 ∉ text)
  | single (host tail : Chars) (split : text = host ++ 58 :: tail) (noColon : 58 ∉ host)
      (noComma : 44 ∉ host ++ tail)
  | pair (host1 host2 tail : Chars) (split : text = host1 ++ 44 :: (host2 ++ 58 :: tail))
      (noComma : 44 ∉ host1) (noColon : 58 ∉ host1 ++ host2)
  | swapped (host tail behind : Chars) (split : text = host ++ 58 :: (tail ++ 44 :: behind))
      (noColon : 58 ∉ host) (noComma : 44 ∉ host ++ tail)

theorem layout (text : Chars) : Layout text := by
  by_cases colon : 58 ∈ text
  · obtain ⟨host, tail, split, noColon⟩ := List.eq_append_cons_of_mem colon
    by_cases before : 44 ∈ host
    · obtain ⟨host1, host2, hosts, noComma⟩ := List.eq_append_cons_of_mem before
      refine .pair host1 host2 tail (by rw [split, hosts]; simp) noComma ?_
      rw [hosts] at noColon
      simpa using noColon
    · by_cases behind : 44 ∈ tail
      · obtain ⟨port, behind, tails, noComma⟩ := List.eq_append_cons_of_mem behind
        exact .swapped host port behind (by rw [split, tails]) noColon (by simp [before, noComma])
      · exact .single host tail split noColon (by simp [before, behind])
  · exact .noColon colon

theorem strcpy_holds (dst : Memory UInt8) (text : Chars) : Holds (strcpy dst text) text := by
  refine List.ext_getElem? fun place => ?_
  by_cases inside : place < text.length + 1
  · have listed : place < (text ++ [0]).length := by simpa using inside
    rw [Memory.slice_getElem? _ inside, Nat.zero_add, strcpy, List.getD_eq_getElem?_getD,
      List.getElem?_eq_getElem listed]
    rfl
  · rw [List.getElem?_eq_none (by simpa using inside), List.getElem?_eq_none (by simpa using inside)]

theorem strcpy_behind (dst : Memory UInt8) {text : Chars} {place : Nat} (behind : text.length < place) :
    strcpy dst text place = dst place := by
  rw [strcpy, List.getD_eq_getElem?_getD, List.getElem?_eq_none (by simpa using Nat.succ_le_of_lt behind)]
  rfl

/-- A copy stays in a buffer of sixteen bytes, whatever stands behind it, exactly if the text
and its terminator fit. -/
theorem strcpy_inside_iff (text : Chars) :
    (∀ dst : Memory UInt8, ∀ place, 16 ≤ place → strcpy dst text place = dst place) ↔
      text.length ≤ 15 := by
  constructor
  · intro inside
    by_contra long
    have overrun := inside (fun _ => 1) text.length (by omega)
    rw [strcpy, List.getD_eq_getElem?_getD, List.getElem?_concat_length] at overrun
    exact absurd overrun (by decide)
  · exact fun short dst place behind => strcpy_behind dst (by omega)

theorem comma_decimal (number : Nat) : 44 ∉ decimal number :=
  decimal_plain (fun _ small => (digit_cases small).2.2.2.2.2.1) number

/-- An address is parsed as it should be exactly if its parts fit. -/
theorem netParseAddress_iff (address : CString) : AddressParsed address ↔ PartsFit address := by
  constructor
  · intro parsed
    constructor
    · intro host tail split noColon noComma
      refine (strcpy_inside_iff host).mp fun dst place behind => ?_
      have inside := (parsed.inside dst dst 0 place behind).1
      rw [parse_single split noColon noComma] at inside
      exact Option.some.inj inside
    · intro host1 host2 tail split noComma noColon
      have inside := fun (dst : Memory UInt8) place behind => parsed.inside dst dst 0 place behind
      simp only [parse_pair split noComma noColon, Option.map_some, Option.some.injEq] at inside
      exact ⟨(strcpy_inside_iff host1).mp fun dst place behind => (inside dst place behind).1,
        (strcpy_inside_iff host2).mp fun dst place behind => (inside dst place behind).2⟩
    · intro host tail behind split noColon noComma
      have inside := fun (dst : Memory UInt8) place behind => parsed.inside dst dst 0 place behind
      simp only [parse_swapped split noColon noComma, Option.map_some, Option.some.injEq] at inside
      refine ⟨(strcpy_inside_iff host).mp fun dst place behind => (inside dst place behind).1,
        (strcpy_inside_iff behind).mp fun dst place behind => (inside dst place behind).2, ?_⟩
      by_contra only
      have rejected := parsed.swapped (fun _ => 0) (fun _ => 0) 0 host (tail ++ 44 :: behind) split
        (by simpa [noColon] using only) (fun member => noComma (List.mem_append_left _ member)) (by simp)
      rw [parse_swapped split noColon noComma] at rejected
      exact absurd (show (0 : Int) = -1 from rejected) (by decide)
  · intro fits
    constructor
    · intro ip1 ip2 port place behind
      cases layout address.chars with
      | noColon absent =>
          rw [parse_noColon absent]
          exact ⟨rfl, rfl⟩
      | single host tail split noColon noComma =>
          have short := fits.single host tail split noColon noComma
          rw [parse_single split noColon noComma]
          simp only [Option.map_some, strcpy_behind ip1 (show host.length < place by omega),
            Function.update_of_ne (show place ≠ 0 by omega), and_self]
      | pair host1 host2 tail split noComma noColon =>
          obtain ⟨short1, short2⟩ := fits.pair host1 host2 tail split noComma noColon
          rw [parse_pair split noComma noColon]
          simp only [Option.map_some, strcpy_behind ip1 (show host1.length < place by omega),
            strcpy_behind ip2 (show host2.length < place by omega), and_self]
      | swapped host tail back split noColon noComma =>
          obtain ⟨short1, short2, _⟩ := fits.swapped host tail back split noColon noComma
          rw [parse_swapped split noColon noComma]
          simp only [Option.map_some, strcpy_behind ip1 (show host.length < place by omega),
            strcpy_behind ip2 (show back.length < place by omega), and_self]
    · intro ip1 ip2 port host number split noColon noComma _ small
      rw [← atoi_decimal (show number < 2 ^ 31 by omega)]
      refine ⟨_, _, parse_single split noColon ?_, strcpy_holds ip1 host, ?_⟩
      · simpa using ⟨noComma, comma_decimal number⟩
      · simp [Holds, Memory.slice]
    · intro ip1 ip2 port host1 host2 number split noColon noComma _ _ small
      rw [← atoi_decimal (show number < 2 ^ 31 by omega)]
      exact ⟨_, _, parse_pair split (fun member => noComma (List.mem_append_left _ member)) noColon,
        strcpy_holds ip1 host1, strcpy_holds ip2 host2⟩
    · intro ip1 ip2 port front back split noColon noComma comma
      obtain ⟨tail, behind, rfl, first⟩ := List.eq_append_cons_of_mem comma
      simp only [List.mem_append, List.mem_cons, not_or] at noColon
      obtain ⟨_, _, again⟩ := fits.swapped front tail behind split noColon.1 (by simp [noComma, first])
      exact absurd again (by simp [noColon.2])

/-- A host of sixteen letters is copied over the end of its buffer, and an address with a comma
behind its only colon is accepted. -/
theorem not_addressParsed :
    ¬ AddressParsed ⟨List.replicate 16 49 ++ [58, 56, 48], by decide⟩ ∧
      ¬ AddressParsed ⟨[97, 58, 49, 44, 98], by decide⟩ := by
  constructor
  · intro parsed
    have overrun := (parsed.inside (fun _ => 1) (fun _ => 1) 0 16 (Nat.le_refl 16)).1
    exact absurd overrun (by decide)
  · intro parsed
    have rejected := parsed.swapped (fun _ => 0) (fun _ => 0) 0 [97] [49, 44, 98] rfl (by decide)
      (by decide) (by decide)
    exact absurd rejected (by decide)

end Tegenaria.LibNet
