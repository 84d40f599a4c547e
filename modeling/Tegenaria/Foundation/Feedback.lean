import Mathlib.Data.List.Basic

/-!
# Stream ciphers with ciphertext feedback

A stream cipher mixes every letter of a text with a letter of its key stream.  With
feedback the key stream depends on the coded letters before it, which both sides
know, so decoding with an equal initial state gives the text back.
-/

namespace Foundation

universe u v

/-- A key stream driven by coded letters. -/
structure Feedback (State : Type u) (Letter : Type v) where
  mix : Letter → Letter → Letter
  keyLetter : State → Letter
  feed : State → Letter → State

namespace Feedback

variable {State : Type u} {Letter : Type v} (stream : Feedback State Letter)

def encrypt : State → List Letter → List Letter
  | _, [] => []
  | state, letter :: text =>
      let coded := stream.mix letter (stream.keyLetter state)
      coded :: encrypt (stream.feed state coded) text

def decrypt : State → List Letter → List Letter
  | _, [] => []
  | state, coded :: text =>
      stream.mix coded (stream.keyLetter state) :: decrypt (stream.feed state coded) text

/-- Mixing twice with the same letter is enough for decoding to undo encoding. -/
theorem decrypt_encrypt
    (involutive : ∀ letter key, stream.mix (stream.mix letter key) key = letter)
    (state : State) (text : List Letter) :
    stream.decrypt state (stream.encrypt state text) = text := by
  induction text generalizing state with
  | nil => rfl
  | cons letter text ih => rw [encrypt, decrypt, involutive, ih]

end Feedback

/-! ## Feedback through a block function -/

/-- A register of a fixed number of letters and the position in it. -/
structure Register (Letter : Type v) where
  letters : List Letter
  position : Nat

/-- Cipher feedback: the register is replaced by its image under the block function
whenever it has been used up, and a coded letter takes the place of the key letter. -/
def blockFeedback {Letter : Type v} [Inhabited Letter] (mix : Letter → Letter → Letter)
    (block : List Letter → List Letter) : Feedback (Register Letter) Letter :=
  let refreshed (register : Register Letter) :=
    if register.position = 0 then block register.letters else register.letters
  { mix := mix
    keyLetter register := (refreshed register).getD register.position default
    feed register coded :=
      { letters := (refreshed register).set register.position coded
        position := (register.position + 1) % register.letters.length } }

end Foundation
