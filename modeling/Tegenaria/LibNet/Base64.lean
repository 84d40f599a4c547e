import Mathlib.Data.List.Basic
import Mathlib.Logic.Function.Basic
import Mathlib.Algebra.Group.Nat.Defs
import Tegenaria.Foundation.Memory

/-!
# Base64

`NetBase64` collects three bytes at a time and writes four letters for them.  The index of
the block is also the variable of the loop that writes the letters.
-/

namespace Tegenaria.LibNet

open Foundation

/-! ## Encoding -/

/-- `b64_charset`: `A` to `Z`, `a` to `z`, `0` to `9`, `+` and `/`. -/
def base64Charset : List UInt8 :=
  (List.range' 65 26 ++ List.range' 97 26 ++ List.range' 48 10 ++ [43, 47]).map UInt8.ofNat

/-- The letters for `block_4`, which is computed from `block_3`. -/
def block4 (block3 : Memory UInt8) : List UInt8 :=
  [(block3 0 &&& 0xfc) >>> 2,
    ((block3 0 &&& 0x03) <<< 4) + ((block3 1 &&& 0xf0) >>> 4),
    ((block3 1 &&& 0x0f) <<< 2) + ((block3 2 &&& 0xc0) >>> 6),
    block3 2 &&& 0x3f].map fun index => base64Charset.getD index.toNat 0

structure Base64State where
  block3 : Memory UInt8
  i : Nat
  ret : List UInt8

/-- One round of the loop over the data. -/
def base64Round (state : Base64State) (letter : UInt8) : Base64State :=
  let block3 := Function.update state.block3 state.i letter
  let i := state.i + 1
  if i = 3 then { block3 := block3, i := 0, ret := state.ret ++ block4 block3 }
  else { block3 := block3, i := i, ret := state.ret }

/-- The bytes that are left, and the padding. -/
def base64Tail (state : Base64State) : List UInt8 :=
  if state.i = 0 then state.ret
  else
    let block3 : Memory UInt8 := fun j => if state.i ≤ j then 0 else state.block3 j
    state.ret ++ (block4 block3).take (state.i + 1) ++ List.replicate (3 - state.i) 61

/-- `NetBase64` of a buffer.  The block has no value at the begin. -/
def netBase64 (block3 : Memory UInt8) (data : List UInt8) : List UInt8 :=
  base64Tail (data.foldl base64Round { block3 := block3, i := 0, ret := [] })

/-! ## What base64 is -/

/-- The value of a letter of the alphabet. -/
def base64Value (letter : UInt8) : Option Nat :=
  if 65 ≤ letter ∧ letter ≤ 90 then some (letter.toNat - 65)
  else if 97 ≤ letter ∧ letter ≤ 122 then some (letter.toNat - 71)
  else if 48 ≤ letter ∧ letter ≤ 57 then some (letter.toNat + 4)
  else if letter = 43 then some 62
  else if letter = 47 then some 63
  else none

/-- Four letters stand for three bytes.  The last group may stand for fewer bytes, with `=` for
the letters that are missing and zeros for the bits. -/
@[grind =] def base64Decode : List UInt8 → Option (List UInt8)
  | [] => some []
  | a :: b :: c :: d :: rest => do
      let first ← base64Value a
      let second ← base64Value b
      if c = 61 ∧ d = 61 ∧ rest = [] then
        if second % 16 = 0 then pure [.ofNat (first * 4 + second / 16)] else none
      else do
        let third ← base64Value c
        if d = 61 ∧ rest = [] then
          if third % 4 = 0 then
            pure [.ofNat (first * 4 + second / 16), .ofNat (second % 16 * 16 + third / 4)]
          else none
        else do
          let fourth ← base64Value d
          let later ← base64Decode rest
          pure (.ofNat (first * 4 + second / 16) :: .ofNat (second % 16 * 16 + third / 4) ::
            .ofNat (third % 4 * 64 + fourth) :: later)
  | _ => none

example : base64Decode (netBase64 (fun _ => 7) [77, 97, 110, 121]) = some [77, 97, 110, 121] := by
  decide +kernel

/-! ## Blocks -/

/-- The letter for a number below 64. -/
def base64Letter (index : Nat) : UInt8 := base64Charset.getD index 0

theorem base64Value_letter : ∀ index < 64, base64Value (base64Letter index) = some index := by
  decide +kernel

theorem base64Letter_ne_pad {index : Nat} (small : index < 64) : base64Letter index ≠ 61 := by
  intro pad
  have value := base64Value_letter index small
  rw [pad] at value
  exact absurd value (by simp [base64Value])

theorem base64Letter_mem {index : Nat} (small : index < 64) : base64Letter index ∈ base64Charset := by
  have inside : index < base64Charset.length := small
  rw [base64Letter, List.getD_eq_getElem?_getD, List.getElem?_eq_getElem inside]
  exact List.getElem_mem inside

/-- The high bits of a number that are not masked. -/
theorem and_shiftRight {number mask shift bits : Nat} (masks : mask >>> shift = 2 ^ bits - 1)
    (small : number / 2 ^ shift < 2 ^ bits) : (number &&& mask) >>> shift = number / 2 ^ shift := by
  rw [Nat.shiftRight_and_distrib, masks, Nat.and_two_pow_sub_one_eq_mod, Nat.shiftRight_eq_div_pow,
    Nat.mod_eq_of_lt small]

theorem sextet_high (letter : UInt8) : ((letter &&& 0xfc) >>> 2).toNat = letter.toNat / 4 := by
  have bound := letter.toNat_lt
  exact @and_shiftRight letter.toNat 0xfc 2 6 rfl (by omega)

theorem sextet_low (letter : UInt8) : (letter &&& 0x3f).toNat = letter.toNat % 64 :=
  Nat.and_two_pow_sub_one_eq_mod letter.toNat 6

theorem sextet_second (first second : UInt8) :
    (((first &&& 0x03) <<< 4) + ((second &&& 0xf0) >>> 4)).toNat =
      first.toNat % 4 * 16 + second.toNat / 16 := by
  have bound := second.toNat_lt
  have high : ((first &&& 0x03) <<< 4).toNat = first.toNat % 4 * 16 := by
    have masked : (first &&& 0x03).toNat = first.toNat % 4 :=
      Nat.and_two_pow_sub_one_eq_mod first.toNat 2
    rw [UInt8.toNat_shiftLeft, masked, Nat.shiftLeft_eq]
    exact Nat.mod_eq_of_lt (show first.toNat % 4 * 16 < 256 by omega)
  have low : ((second &&& 0xf0) >>> 4).toNat = second.toNat / 16 :=
    @and_shiftRight second.toNat 0xf0 4 4 rfl (by omega)
  rw [UInt8.toNat_add, high, low, Nat.mod_eq_of_lt (by omega)]

theorem sextet_third (second third : UInt8) :
    (((second &&& 0x0f) <<< 2) + ((third &&& 0xc0) >>> 6)).toNat =
      second.toNat % 16 * 4 + third.toNat / 64 := by
  have bound := third.toNat_lt
  have high : ((second &&& 0x0f) <<< 2).toNat = second.toNat % 16 * 4 := by
    have masked : (second &&& 0x0f).toNat = second.toNat % 16 :=
      Nat.and_two_pow_sub_one_eq_mod second.toNat 4
    rw [UInt8.toNat_shiftLeft, masked, Nat.shiftLeft_eq]
    exact Nat.mod_eq_of_lt (show second.toNat % 16 * 4 < 256 by omega)
  have low : ((third &&& 0xc0) >>> 6).toNat = third.toNat / 64 :=
    @and_shiftRight third.toNat 0xc0 6 2 rfl (by omega)
  rw [UInt8.toNat_add, high, low, Nat.mod_eq_of_lt (by omega)]

/-- The letters of a block as numbers. -/
theorem block4_eq (block3 : Memory UInt8) :
    block4 block3 =
      [base64Letter ((block3 0).toNat / 4),
        base64Letter ((block3 0).toNat % 4 * 16 + (block3 1).toNat / 16),
        base64Letter ((block3 1).toNat % 16 * 4 + (block3 2).toNat / 64),
        base64Letter ((block3 2).toNat % 64)] := by
  rw [block4]
  simp only [List.map_cons, List.map_nil, sextet_high, sextet_second, sextet_third, sextet_low]
  rfl

/-- The code of a buffer, block by block. -/
@[grind =] def base64Blocks : List UInt8 → List UInt8
  | [] => []
  | [a] => [base64Letter (a.toNat / 4), base64Letter (a.toNat % 4 * 16), 61, 61]
  | [a, b] =>
      [base64Letter (a.toNat / 4), base64Letter (a.toNat % 4 * 16 + b.toNat / 16),
        base64Letter (b.toNat % 16 * 4), 61]
  | a :: b :: c :: rest =>
      base64Letter (a.toNat / 4) :: base64Letter (a.toNat % 4 * 16 + b.toNat / 16) ::
        base64Letter (b.toNat % 16 * 4 + c.toNat / 64) :: base64Letter (c.toNat % 64) ::
          base64Blocks rest

/-- The loop writes the blocks, whatever the block held before. -/
theorem base64Tail_foldl (block3 : Memory UInt8) (ret data : List UInt8) :
    base64Tail (data.foldl base64Round { block3 := block3, i := 0, ret := ret }) =
      ret ++ base64Blocks data := by
  fun_induction base64Blocks data generalizing block3 ret with
  | case1 => exact (List.append_nil ret).symm
  | case2 a =>
      simp only [List.foldl_cons, List.foldl_nil, base64Round, base64Tail, block4_eq]
      simp
  | case3 a b =>
      simp only [List.foldl_cons, List.foldl_nil, base64Round, base64Tail, block4_eq]
      simp
  | case4 a b c rest ih =>
      simp only [List.foldl_cons, base64Round, block4_eq]
      simp only [Nat.zero_add, Nat.reduceAdd, Nat.reduceEqDiff, if_true, if_false, ih]
      simp

theorem netBase64_eq (block3 : Memory UInt8) (data : List UInt8) :
    netBase64 block3 data = base64Blocks data := base64Tail_foldl block3 [] data

/-! ## The blocks are standard base64 -/

theorem length_base64Blocks (data : List UInt8) :
    (base64Blocks data).length = 4 * ((data.length + 2) / 3) := by
  fun_induction base64Blocks data with
  | case1 => rfl
  | case2 a => simp
  | case3 a b => simp
  | case4 a b c rest ih =>
      simp only [List.length_cons, ih]
      omega

theorem base64Blocks_alphabet (data : List UInt8) : ∃ body pad,
    base64Blocks data = body ++ List.replicate pad 61 ∧ pad ≤ 2 ∧
      ∀ letter ∈ body, letter ∈ base64Charset := by
  fun_induction base64Blocks data with
  | case1 => exact ⟨[], 0, rfl, Nat.zero_le 2, List.forall_mem_nil _⟩
  | case2 a =>
      have small := a.toNat_lt
      refine ⟨[_, _], 2, rfl, Nat.le_refl 2, ?_⟩
      simp only [List.forall_mem_cons, List.not_mem_nil, false_implies, implies_true, and_true]
      exact ⟨base64Letter_mem (by omega), base64Letter_mem (by omega)⟩
  | case3 a b =>
      have small := a.toNat_lt
      have smallNext := b.toNat_lt
      refine ⟨[_, _, _], 1, rfl, Nat.le_succ 1, ?_⟩
      simp only [List.forall_mem_cons, List.not_mem_nil, false_implies, implies_true, and_true]
      exact ⟨base64Letter_mem (by omega), base64Letter_mem (by omega),
        base64Letter_mem (by omega)⟩
  | case4 a b c rest ih =>
      obtain ⟨body, pad, split, few, inside⟩ := ih
      have small := a.toNat_lt
      have smallNext := b.toNat_lt
      have smallLast := c.toNat_lt
      refine ⟨_ :: _ :: _ :: _ :: body, pad, by rw [split]; rfl, few, ?_⟩
      simp only [List.forall_mem_cons]
      exact ⟨base64Letter_mem (by omega), base64Letter_mem (by omega),
        base64Letter_mem (by omega), base64Letter_mem (by omega), inside⟩

theorem byte_of_parts {letter : UInt8} {value : Nat} (same : value = letter.toNat) :
    UInt8.ofNat value = letter := by
  rw [same, UInt8.ofNat_toNat]

/-- The blocks are decoded to the buffer. -/
theorem base64Decode_blocks (data : List UInt8) : base64Decode (base64Blocks data) = some data := by
  fun_induction base64Blocks data with
  | case1 => rfl
  | case2 a =>
      have small := a.toNat_lt
      rw [base64Decode, base64Value_letter _ (by omega), base64Value_letter _ (by omega)]
      simp only [Option.bind_eq_bind, Option.bind_some, and_self, if_true]
      rw [if_pos (by omega), @byte_of_parts a _ (by omega)]
      rfl
  | case3 a b =>
      have small := a.toNat_lt
      have smallNext := b.toNat_lt
      rw [base64Decode, base64Value_letter _ (by omega), base64Value_letter _ (by omega),
        base64Value_letter _ (by omega)]
      simp only [Option.bind_eq_bind, Option.bind_some, base64Letter_ne_pad
        (show b.toNat % 16 * 4 < 64 by omega), false_and, if_false, and_self, if_true]
      rw [if_pos (by omega), @byte_of_parts a _ (by omega), @byte_of_parts b _ (by omega)]
      rfl
  | case4 a b c rest ih =>
      have small := a.toNat_lt
      have smallNext := b.toNat_lt
      have smallLast := c.toNat_lt
      rw [base64Decode, base64Value_letter _ (by omega), base64Value_letter _ (by omega),
        base64Value_letter _ (by omega), base64Value_letter _ (by omega), ih]
      simp only [Option.bind_eq_bind, Option.bind_some, base64Letter_ne_pad
        (show b.toNat % 16 * 4 + c.toNat / 64 < 64 by omega), base64Letter_ne_pad
        (show c.toNat % 64 < 64 by omega), false_and, if_false]
      rw [@byte_of_parts a _ (by omega), @byte_of_parts b _ (by omega), @byte_of_parts c _ (by omega)]
      rfl

/-- `NetBase64` writes standard base64. -/
theorem netBase64_standard (block3 : Memory UInt8) (data : List UInt8) :
    (netBase64 block3 data).length = 4 * ((data.length + 2) / 3) ∧
      (∃ body pad, netBase64 block3 data = body ++ List.replicate pad 61 ∧ pad ≤ 2 ∧
        ∀ letter ∈ body, letter ∈ base64Charset) ∧
      base64Decode (netBase64 block3 data) = some data := by
  rw [netBase64_eq]
  exact ⟨length_base64Blocks data, base64Blocks_alphabet data, base64Decode_blocks data⟩

end Tegenaria.LibNet
