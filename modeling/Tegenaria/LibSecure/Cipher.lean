import Mathlib.Logic.Function.Basic
import Tegenaria.Foundation.Bytes
import Tegenaria.Foundation.Feedback
import Tegenaria.Foundation.Transition

/-!
# Cipher contexts

A context keeps a key, an initialisation vector and one message counter for each
direction.  In counter mode the counter of a message is mixed into the vector.  Two
contexts that were created with the same parameters stay in step: the counter with
which a message is decrypted is the one it was encrypted with.
-/

namespace Tegenaria.LibSecure

open Foundation

/-- The bytes of a buffer. -/
abbrev Buffer := List UInt8

/-- `BF_ENCRYPT` and `BF_DECRYPT`. -/
inductive Operation where
  | encrypt
  | decrypt

/-- What is used of OpenSSL.  `zeroKey` is a key schedule of zero bytes. -/
structure Blowfish (Key : Type) where
  zeroKey : Key
  setKey : Buffer → Key
  cfb64Encrypt : Operation → Key → (iv data : Buffer) → Buffer

namespace Blowfish

/-- Decryption with the same key and vector undoes encryption. -/
def Inverse {Key : Type} (blowfish : Blowfish Key) : Prop :=
  ∀ key iv data, blowfish.cfb64Encrypt .decrypt key iv (blowfish.cfb64Encrypt .encrypt key iv data) = data

end Blowfish

/-- A context.  The counters are the bits of an `int`. -/
structure SecureCipher (Key : Type) where
  counterEncrypt : UInt32
  counterDecrypt : UInt32
  cipher : Int
  cipherMode : Int
  key : Key
  iv : Buffer

/-- `SECURE_CIPHER_BLOWFISH` -/
def blowfishCipher : Int := 0

/-- `SECURE_BLOWFISH_KEY_SIZE` -/
def blowfishKeySize : Nat := 16

/-- `SECURE_CIPHER_MODE_CTR` -/
def counterMode : Int := 1

section Contexts

variable {Key : Type} (blowfish : Blowfish Key)

/-- `SecureCipherCreate`.  With an unknown cipher or a wrong size the context that is
returned has only zeros for the key and the vector. -/
def secureCipherCreate (cipher cipherMode : Int) (key iv : Buffer) : SecureCipher Key :=
  let ctx : SecureCipher Key :=
    { counterEncrypt := 0
      counterDecrypt := 0
      cipher := cipher
      cipherMode := cipherMode
      key := blowfish.zeroKey
      iv := List.replicate 16 0 }
  if cipher = blowfishCipher then
    if iv.length ≠ blowfishKeySize then ctx
    else if key.length ≠ blowfishKeySize then ctx
    else { ctx with key := blowfish.setKey key, iv := iv }
  else ctx

/-- The first word of the vector mixed with a counter. -/
def mixCounter (iv : Buffer) (counter : UInt32) : Buffer :=
  List.zipWith (· ^^^ ·) (iv.take 4) (Bytes.littleEndian 4 counter.toNat) ++ iv.drop 4

namespace SecureCipher

/-- The vector of the message with a given counter. -/
def messageIv (ctx : SecureCipher Key) (counter : UInt32) : Buffer :=
  if ctx.cipherMode = counterMode then mixCounter ctx.iv counter else ctx.iv

/-- The counter of the next message. -/
def nextCounter (ctx : SecureCipher Key) (counter : UInt32) : UInt32 :=
  if ctx.cipherMode = counterMode then counter + 1 else counter

end SecureCipher

/-- `SecureEncrypt` -/
def secureEncrypt (ctx : SecureCipher Key) (buffer : Buffer) : SecureCipher Key × Buffer :=
  ({ ctx with counterEncrypt := ctx.nextCounter ctx.counterEncrypt },
    blowfish.cfb64Encrypt .encrypt ctx.key (ctx.messageIv ctx.counterEncrypt) buffer)

/-- `SecureDecrypt` -/
def secureDecrypt (ctx : SecureCipher Key) (buffer : Buffer) : SecureCipher Key × Buffer :=
  ({ ctx with counterDecrypt := ctx.nextCounter ctx.counterDecrypt },
    blowfish.cfb64Encrypt .decrypt ctx.key (ctx.messageIv ctx.counterDecrypt) buffer)

/-! ## Two peers -/

inductive Side where
  | left
  | right
  deriving DecidableEq

def Side.other : Side → Side
  | .left => .right
  | .right => .left

@[simp] theorem Side.other_other (side : Side) : side.other.other = side := by cases side <;> rfl

@[simp] theorem Side.other_ne (side : Side) : side.other ≠ side := by cases side <;> decide

/-- The contexts of both sides, the messages that a side has encrypted, their code that
the other side has not decrypted yet, and the results of the decryptions of a side. -/
structure Peers (Key : Type) where
  ctx : Side → SecureCipher Key
  sent : Side → List Buffer
  inFlight : Side → List Buffer
  received : Side → List Buffer

inductive PeerAction where
  | encrypt (side : Side) (message : Buffer)
  | decrypt (side : Side)

def sendMessage (peers : Peers Key) (side : Side) (message : Buffer) : Peers Key :=
  let (ctx, coded) := secureEncrypt blowfish (peers.ctx side) message
  { peers with
    ctx := Function.update peers.ctx side ctx
    sent := Function.update peers.sent side (peers.sent side ++ [message])
    inFlight := Function.update peers.inFlight side (peers.inFlight side ++ [coded]) }

/-- The oldest message of the other side is decrypted. -/
def receiveMessage (peers : Peers Key) (side : Side) : Option (Peers Key) :=
  match peers.inFlight side.other with
  | [] => none
  | coded :: later =>
      let (ctx, message) := secureDecrypt blowfish (peers.ctx side) coded
      some
        { peers with
          ctx := Function.update peers.ctx side ctx
          inFlight := Function.update peers.inFlight side.other later
          received := Function.update peers.received side (peers.received side ++ [message]) }

def peerMachine : Machine (Peers Key) PeerAction where
  step peers
    | .encrypt side message => some (sendMessage blowfish peers side message)
    | .decrypt side => receiveMessage blowfish peers side

/-- Both contexts are created with the same parameters. -/
def createPeers (cipher cipherMode : Int) (key iv : Buffer) : Peers Key where
  ctx _ := secureCipherCreate blowfish cipher cipherMode key iv
  sent _ := []
  inFlight _ := []
  received _ := []

/-! ## The peers stay in step -/

/-- The code of a list of messages, the first of them with a given counter. -/
@[grind =] def codedFrom (ctx : SecureCipher Key) : UInt32 → List Buffer → List Buffer
  | _, [] => []
  | counter, message :: messages =>
      blowfish.cfb64Encrypt .encrypt ctx.key (ctx.messageIv counter) message ::
        codedFrom ctx (ctx.nextCounter counter) messages

/-- The counter behind a list of messages. -/
def counterBehind (ctx : SecureCipher Key) : UInt32 → List Buffer → UInt32
  | counter, [] => counter
  | counter, _ :: messages => counterBehind ctx (ctx.nextCounter counter) messages

/-- The contexts differ from the created one only in their counters, and what a side has
encrypted is what the other has decrypted and then the messages in flight, which are
coded with the counters that the other side is going to use. -/
structure InStep (created : SecureCipher Key) (peers : Peers Key) : Prop where
  parameters : ∀ side, peers.ctx side =
    { created with
      counterEncrypt := (peers.ctx side).counterEncrypt
      counterDecrypt := (peers.ctx side).counterDecrypt }
  pending : ∀ side, ∃ messages,
    peers.sent side = peers.received side.other ++ messages ∧
    peers.inFlight side =
      codedFrom blowfish created (peers.ctx side.other).counterDecrypt messages ∧
    (peers.ctx side).counterEncrypt =
      counterBehind created (peers.ctx side.other).counterDecrypt messages

variable {blowfish}

theorem codedFrom_append (ctx : SecureCipher Key) (counter : UInt32) (messages : List Buffer)
    (message : Buffer) :
    codedFrom blowfish ctx counter (messages ++ [message]) =
      codedFrom blowfish ctx counter messages ++
        [blowfish.cfb64Encrypt .encrypt ctx.key
          (ctx.messageIv (counterBehind ctx counter messages)) message] := by
  induction messages generalizing counter with
  | nil => rfl
  | cons first rest ih =>
      rw [List.cons_append, codedFrom, codedFrom, counterBehind, ih]
      rfl

theorem counterBehind_append (ctx : SecureCipher Key) (counter : UInt32) (messages : List Buffer)
    (message : Buffer) :
    counterBehind ctx counter (messages ++ [message]) =
      ctx.nextCounter (counterBehind ctx counter messages) := by
  induction messages generalizing counter with
  | nil => rfl
  | cons first rest ih => exact ih (ctx.nextCounter counter)

theorem length_codedFrom (ctx : SecureCipher Key) (counter : UInt32) (messages : List Buffer) :
    (codedFrom blowfish ctx counter messages).length = messages.length := by
  induction messages generalizing counter with
  | nil => rfl
  | cons first rest ih => rw [codedFrom, List.length_cons, ih, List.length_cons]

theorem eq_or_eq_other (side other : Side) : other = side ∨ other = side.other := by
  cases side <;> cases other <;> decide

/-- A context with the parameters of the created one codes in the same way. -/
theorem InStep.codes {created : SecureCipher Key} {peers : Peers Key}
    (inStep : InStep blowfish created peers) (side : Side) (counter : UInt32) :
    (peers.ctx side).key = created.key ∧
      (peers.ctx side).messageIv counter = created.messageIv counter ∧
      (peers.ctx side).nextCounter counter = created.nextCounter counter := by
  rw [inStep.parameters side]
  exact ⟨rfl, rfl, rfl⟩

theorem InStep.sendMessage {created : SecureCipher Key} {peers : Peers Key}
    (inStep : InStep blowfish created peers) (side : Side) (message : Buffer) :
    InStep blowfish created (sendMessage blowfish peers side message) where
  parameters := by
    intro who
    rcases eq_or_eq_other side who with rfl | rfl
    · simp only [LibSecure.sendMessage, secureEncrypt, Function.update_self]
      rw [inStep.parameters who]
    · simp only [LibSecure.sendMessage, ne_eq, Side.other_ne, not_false_eq_true,
        Function.update_of_ne]
      exact inStep.parameters side.other
  pending := by
    intro who
    obtain ⟨messages, sentEq, flightEq, counterEq⟩ := inStep.pending who
    rcases eq_or_eq_other side who with rfl | rfl
    · obtain ⟨keyEq, ivEq, nextEq⟩ := inStep.codes who (peers.ctx who).counterEncrypt
      refine ⟨messages ++ [message], ?_⟩
      simp only [LibSecure.sendMessage, secureEncrypt, Function.update_self, ne_eq, Side.other_ne,
        not_false_eq_true, Function.update_of_ne, keyEq, ivEq, nextEq, codedFrom_append,
        counterBehind_append, sentEq, flightEq, ← counterEq, List.append_assoc, and_self]
    · refine ⟨messages, ?_⟩
      rw [Side.other_other] at sentEq flightEq counterEq ⊢
      simp only [LibSecure.sendMessage, secureEncrypt, Function.update_self, ne_eq, Side.other_ne,
        not_false_eq_true, Function.update_of_ne]
      exact ⟨sentEq, flightEq, counterEq⟩

theorem InStep.receiveMessage {created : SecureCipher Key} {peers next : Peers Key}
    (inverse : blowfish.Inverse) (inStep : InStep blowfish created peers) {side : Side}
    (received : receiveMessage blowfish peers side = some next) :
    InStep blowfish created next := by
  rw [LibSecure.receiveMessage] at received
  cases flying : peers.inFlight side.other with
  | nil => simp [flying] at received
  | cons coded later =>
      simp only [flying] at received
      cases received
      refine ⟨?_, ?_⟩
      · intro who
        rcases eq_or_eq_other side who with rfl | rfl
        · simp only [secureDecrypt, Function.update_self]
          rw [inStep.parameters who]
        · simp only [ne_eq, Side.other_ne, not_false_eq_true, Function.update_of_ne]
          exact inStep.parameters side.other
      · intro who
        obtain ⟨messages, sentEq, flightEq, counterEq⟩ := inStep.pending who
        rcases eq_or_eq_other side who with rfl | rfl
        · refine ⟨messages, ?_⟩
          have apart : who ≠ who.other := (Side.other_ne who).symm
          simp only [secureDecrypt, Function.update_self, ne_eq, Side.other_ne, apart,
            not_false_eq_true, Function.update_of_ne]
          exact ⟨sentEq, flightEq, counterEq⟩
        · rw [Side.other_other] at sentEq flightEq counterEq
          obtain ⟨keyEq, ivEq, nextEq⟩ := inStep.codes side (peers.ctx side).counterDecrypt
          rw [flying] at flightEq
          cases messages with
          | nil => cases flightEq
          | cons message messages =>
              obtain ⟨codedEq, laterEq⟩ := List.cons.inj flightEq
              refine ⟨messages, ?_⟩
              simp only [secureDecrypt, Side.other_other, Function.update_self, ne_eq,
                Side.other_ne, not_false_eq_true, Function.update_of_ne, keyEq, ivEq, nextEq,
                codedEq, inverse _ _ _, List.append_assoc, List.singleton_append]
              exact ⟨sentEq, laterEq, counterEq⟩

/-- A context before its first message. -/
structure SecureCipher.Fresh (ctx : SecureCipher Key) (cipherMode : Int) : Prop where
  encrypt : ctx.counterEncrypt = 0
  decrypt : ctx.counterDecrypt = 0
  mode : ctx.cipherMode = cipherMode
  ivLength : ctx.iv.length = 16

theorem secureCipherCreate_fresh (cipher cipherMode : Int) (key iv : Buffer) :
    (secureCipherCreate blowfish cipher cipherMode key iv).Fresh cipherMode := by
  unfold secureCipherCreate
  simp only
  split_ifs with known ivSize keySize
  · exact ⟨rfl, rfl, rfl, List.length_replicate⟩
  · exact ⟨rfl, rfl, rfl, List.length_replicate⟩
  · exact ⟨rfl, rfl, rfl, not_not.mp ivSize⟩
  · exact ⟨rfl, rfl, rfl, List.length_replicate⟩

theorem inStep_createPeers (cipher cipherMode : Int) (key iv : Buffer) :
    InStep blowfish (secureCipherCreate blowfish cipher cipherMode key iv)
      (createPeers blowfish cipher cipherMode key iv) where
  parameters _ := rfl
  pending side := by
    have fresh := @secureCipherCreate_fresh _ blowfish cipher cipherMode key iv
    exact ⟨[], rfl, rfl, fresh.encrypt.trans fresh.decrypt.symm⟩

/-- Whatever the peers do, the messages that a side has decrypted are the first ones that
the other side has encrypted, and the rest is in flight. -/
theorem secureCipher_inStep (blowfish : Blowfish Key) (inverse : blowfish.Inverse)
    (cipher cipherMode : Int) (key iv : Buffer) (actions : List PeerAction) (final : Peers Key)
    (reached : (peerMachine blowfish).run (createPeers blowfish cipher cipherMode key iv) actions =
      some final) (side : Side) :
    final.received side.other = (final.sent side).take (final.received side.other).length ∧
      (final.sent side).length =
        (final.received side.other).length + (final.inFlight side).length := by
  have inStep : InStep blowfish (secureCipherCreate blowfish cipher cipherMode key iv) final := by
    refine Machine.run_preserves ?_ (inStep_createPeers cipher cipherMode key iv) reached
    intro peers action next inStep stepped
    cases action with
    | encrypt side message =>
        cases stepped
        exact inStep.sendMessage side message
    | decrypt side => exact inStep.receiveMessage inverse stepped
  obtain ⟨messages, sentEq, flightEq, _⟩ := inStep.pending side
  rw [sentEq, List.take_left, flightEq, List.length_append, length_codedFrom]
  exact ⟨rfl, rfl⟩

end Contexts

/-! ## A key with known blocks -/

/-- Blowfish under the key of sixteen zero bytes, on the two blocks that the run below
needs. -/
def knownBlock (block : Buffer) : Buffer :=
  if block = [0, 0, 0, 0, 0, 0, 0, 0] then [78, 249, 151, 69, 97, 152, 221, 120]
  else if block = [1, 0, 0, 0, 0, 0, 0, 0] then [68, 211, 194, 41, 83, 232, 244, 180]
  else block

/-- Cipher feedback over the known blocks. -/
def knownBlowfish : Blowfish Unit where
  zeroKey := ()
  setKey _ := ()
  cfb64Encrypt
    | .encrypt, _, iv, data => (blockFeedback (· ^^^ ·) knownBlock).encrypt ⟨iv.take 8, 0⟩ data
    | .decrypt, _, iv, data => (blockFeedback (· ^^^ ·) knownBlock).decrypt ⟨iv.take 8, 0⟩ data

theorem knownBlowfish_inverse : knownBlowfish.Inverse := by
  intro key iv data
  apply Feedback.decrypt_encrypt
  intro letter key
  simp [blockFeedback, UInt8.xor_assoc]

/-- Two messages of one side cross one of the other. -/
def crossing : List PeerAction :=
  [.encrypt .left [72, 105], .encrypt .right [33], .encrypt .left [79, 75], .decrypt .right,
    .decrypt .left, .decrypt .right]

theorem crossing_inStep :
    ∃ final, (peerMachine knownBlowfish).run
        (createPeers knownBlowfish 0 1 (List.replicate 16 0) (List.replicate 16 0)) crossing =
          some final ∧
      final.received .right = (final.sent .left).take (final.received .right).length := by
  obtain ⟨final, reached⟩ : ∃ final, (peerMachine knownBlowfish).run
      (createPeers knownBlowfish 0 1 (List.replicate 16 0) (List.replicate 16 0)) crossing =
        some final := ⟨_, rfl⟩
  exact ⟨final, reached, (secureCipher_inStep knownBlowfish knownBlowfish_inverse 0 1
    (List.replicate 16 0) (List.replicate 16 0) crossing final reached .left).1⟩

end Tegenaria.LibSecure
