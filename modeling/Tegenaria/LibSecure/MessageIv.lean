import Mathlib.Data.List.Range
import Tegenaria.LibSecure.Cipher

/-!
# Vectors of messages

In counter mode every message of a context is encrypted with a vector of its own.  The
contexts of two peers count alike, so their messages with the same number share one.
-/

namespace Tegenaria.LibSecure

open Foundation

/-- A message that is encrypted, its number among those of its side and the vector that is
used for it. -/
structure Encryption where
  side : Side
  number : Nat
  message : Buffer
  iv : Buffer

section Runs

variable {Key : Type} (blowfish : Blowfish Key)

/-- What one action encrypts. -/
def Peers.encryptions (peers : Peers Key) : PeerAction → List Encryption
  | .encrypt side message =>
      [{ side := side
         number := (peers.sent side).length
         message := message
         iv := (peers.ctx side).messageIv (peers.ctx side).counterEncrypt }]
  | .decrypt _ => []

/-- What is encrypted in a run. -/
def encryptionsFrom : Peers Key → List PeerAction → List Encryption
  | _, [] => []
  | peers, action :: actions =>
      peers.encryptions action ++
        ((peerMachine blowfish).step peers action).elim [] fun next => encryptionsFrom next actions

/-- The counters for encryption are the numbers of messages. -/
structure Numbered (created : SecureCipher Key) (peers : Peers Key) : Prop where
  parameters : ∀ side, (peers.ctx side).cipherMode = created.cipherMode ∧
    (peers.ctx side).iv = created.iv
  counted : ∀ side, (peers.ctx side).counterEncrypt = UInt32.ofNat (peers.sent side).length

variable {blowfish}

theorem Numbered.step {created : SecureCipher Key} (counts : created.cipherMode = counterMode)
    {peers next : Peers Key} {action : PeerAction} (numbered : Numbered created peers)
    (stepped : (peerMachine blowfish).step peers action = some next) : Numbered created next := by
  cases action with
  | encrypt side message =>
      cases stepped
      have mode := (numbered.parameters side).1.trans counts
      constructor
      · intro who
        rcases eq_or_eq_other side who with rfl | rfl
        · simp only [sendMessage, secureEncrypt, Function.update_self]
          exact numbered.parameters who
        · simp only [sendMessage, ne_eq, Side.other_ne, not_false_eq_true, Function.update_of_ne]
          exact numbered.parameters side.other
      · intro who
        rcases eq_or_eq_other side who with rfl | rfl
        · simp only [sendMessage, secureEncrypt, Function.update_self, SecureCipher.nextCounter,
            if_pos mode, numbered.counted who, List.length_append, List.length_singleton]
          exact (UInt32.ofNat_add _ 1).symm
        · simp only [sendMessage, ne_eq, Side.other_ne, not_false_eq_true, Function.update_of_ne]
          exact numbered.counted side.other
  | decrypt side =>
      replace stepped : receiveMessage blowfish peers side = some next := stepped
      rw [receiveMessage] at stepped
      cases flying : peers.inFlight side.other with
      | nil => simp [flying] at stepped
      | cons coded later =>
          simp only [flying] at stepped
          cases stepped
          constructor
          · intro who
            rcases eq_or_eq_other side who with rfl | rfl
            · simp only [secureDecrypt, Function.update_self]
              exact numbered.parameters who
            · simp only [ne_eq, Side.other_ne, not_false_eq_true, Function.update_of_ne]
              exact numbered.parameters side.other
          · intro who
            rcases eq_or_eq_other side who with rfl | rfl
            · simp only [secureDecrypt, Function.update_self]
              exact numbered.counted who
            · simp only [ne_eq, Side.other_ne, not_false_eq_true, Function.update_of_ne]
              exact numbered.counted side.other

theorem numbered_createPeers (cipher cipherMode : Int) (key iv : Buffer) :
    Numbered (secureCipherCreate blowfish cipher cipherMode key iv)
      (createPeers blowfish cipher cipherMode key iv) where
  parameters _ := ⟨rfl, rfl⟩
  counted _ := (secureCipherCreate_fresh cipher cipherMode key iv).encrypt

/-- The vectors of a run are those of the numbers of its messages. -/
theorem iv_of_number {created : SecureCipher Key} (counts : created.cipherMode = counterMode)
    {peers : Peers Key} (numbered : Numbered created peers) (actions : List PeerAction) :
    ∀ encryption ∈ encryptionsFrom blowfish peers actions,
      encryption.iv = mixCounter created.iv (UInt32.ofNat encryption.number) := by
  induction actions generalizing peers with
  | nil => exact List.forall_mem_nil _
  | cons action actions ih =>
      rw [encryptionsFrom, List.forall_mem_append]
      constructor
      · cases action with
        | encrypt side message =>
            obtain ⟨mode, iv⟩ := numbered.parameters side
            refine List.forall_mem_singleton.mpr ?_
            rw [SecureCipher.messageIv, if_pos (mode.trans counts), iv, numbered.counted side]
        | decrypt side => exact List.forall_mem_nil _
      · cases stepped : (peerMachine blowfish).step peers action with
        | none => exact List.forall_mem_nil _
        | some next => exact ih (numbered.step counts stepped)

/-- The messages that one side encrypts in a run have numbers one after the other. -/
theorem numbers_of_run {peers final : Peers Key} {actions : List PeerAction}
    (reached : (peerMachine blowfish).run peers actions = some final) (side : Side) :
    ∃ count, (final.sent side).length = (peers.sent side).length + count ∧
      ((encryptionsFrom blowfish peers actions).filter (·.side = side)).map Encryption.number =
        List.range' (peers.sent side).length count := by
  induction actions generalizing peers with
  | nil =>
      cases reached
      exact ⟨0, rfl, rfl⟩
  | cons action actions ih =>
      obtain ⟨next, stepped, rest⟩ := Machine.run_cons_eq_some.mp reached
      obtain ⟨count, length, numbers⟩ := ih rest
      rw [encryptionsFrom, stepped, Option.elim_some, List.filter_append, List.map_append, numbers]
      cases action with
      | encrypt who message =>
          cases stepped
          rcases eq_or_eq_other who side with rfl | rfl
          · refine ⟨count + 1, ?_, ?_⟩
            · rw [length]
              simp only [sendMessage, Function.update_self, List.length_append, List.length_singleton]
              omega
            · simp [sendMessage, Peers.encryptions, List.range'_succ]
          · refine ⟨count, ?_, ?_⟩
            · rw [length]
              simp [sendMessage]
            · simp [sendMessage, Peers.encryptions, (Side.other_ne who).symm]
      | decrypt who =>
          replace stepped : receiveMessage blowfish peers who = some next := stepped
          rw [receiveMessage] at stepped
          cases flying : peers.inFlight who.other with
          | nil => simp [flying] at stepped
          | cons coded later =>
              simp only [flying] at stepped
              cases stepped
              exact ⟨count, length, rfl⟩

end Runs

/-- What is mixed into a long enough vector can be told from the result. -/
theorem zipWith_xor_cancel {iv first second : Buffer} (length : first.length = second.length)
    (short : first.length ≤ iv.length)
    (same : List.zipWith (· ^^^ ·) iv first = List.zipWith (· ^^^ ·) iv second) : first = second := by
  induction iv generalizing first second with
  | nil =>
      rw [List.eq_nil_of_length_eq_zero (Nat.le_zero.mp short)] at length ⊢
      exact (List.eq_nil_of_length_eq_zero length.symm).symm
  | cons letter iv ih =>
      cases first with
      | nil => exact (List.eq_nil_of_length_eq_zero length.symm).symm
      | cons one first =>
          cases second with
          | nil => simp at length
          | cons other second =>
              rw [List.zipWith_cons_cons, List.zipWith_cons_cons, List.cons.injEq] at same
              rw [ih (Nat.succ.inj length) (Nat.le_of_succ_le_succ short) same.2,
                (UInt8.xor_right_inj letter).mp same.1]

theorem mixCounter_inj {iv : Buffer} (long : 4 ≤ iv.length) {first second : Nat}
    (firstFits : first < 2 ^ 32) (secondFits : second < 2 ^ 32) :
    mixCounter iv (UInt32.ofNat first) = mixCounter iv (UInt32.ofNat second) ↔ first = second := by
  constructor
  · intro same
    have length : (iv.take 4).length = 4 := by
      rw [List.length_take]
      omega
    have words := zipWith_xor_cancel (by simp) (by simp [length])
      (List.append_cancel_right same)
    have numbers := congrArg Bytes.ofLittleEndian words
    rw [Bytes.ofLittleEndian_littleEndian, Bytes.ofLittleEndian_littleEndian,
      UInt32.toNat_ofNat_of_lt' firstFits, UInt32.toNat_ofNat_of_lt' secondFits] at numbers
    omega
  · rintro rfl
    rfl

/-- The messages of a side have vectors of their own, and share them with the messages of
the other side that have the same numbers. -/
structure SharesVectors (encryptions : List Encryption) : Prop where
  own : encryptions.Pairwise fun first second =>
    first.side = second.side → first.iv ≠ second.iv
  shared : ∀ first ∈ encryptions, ∀ second ∈ encryptions, first.side ≠ second.side →
    (first.iv = second.iv ↔ first.number = second.number)
  numbers : ∀ side, ∃ count,
    (encryptions.filter (·.side = side)).map Encryption.number = List.range count

section Uses

variable {Key : Type} (blowfish : Blowfish Key)

/-- In counter mode each side uses every vector once, and both sides use the same ones. -/
theorem secureCipher_sharesVectors (cipher : Int) (key iv : Buffer) (actions : List PeerAction)
    (final : Peers Key)
    (reached : (peerMachine blowfish).run (createPeers blowfish cipher counterMode key iv) actions =
      some final)
    (few : ∀ side, (final.sent side).length < 2 ^ 31) :
    SharesVectors
      (encryptionsFrom blowfish (createPeers blowfish cipher counterMode key iv) actions) := by
  have fresh := @secureCipherCreate_fresh _ blowfish cipher counterMode key iv
  have ivs := @iv_of_number _ blowfish _ fresh.mode _
    (numbered_createPeers cipher counterMode key iv) actions
  have numbers := numbers_of_run reached
  generalize encryptionsFrom blowfish (createPeers blowfish cipher counterMode key iv) actions =
    encryptions at ivs numbers ⊢
  have ranges : ∀ side, (encryptions.filter (·.side = side)).map Encryption.number =
      List.range (final.sent side).length := by
    intro side
    obtain ⟨count, length, listed⟩ := numbers side
    replace length : (final.sent side).length = 0 + count := length
    rw [listed, length, Nat.zero_add]
    exact List.range_eq_range'.symm
  have small : ∀ encryption ∈ encryptions, encryption.number < 2 ^ 32 := by
    intro encryption member
    have inRange : encryption.number ∈ List.range (final.sent encryption.side).length := by
      rw [← ranges]
      exact List.mem_map_of_mem (List.mem_filter.mpr ⟨member, decide_eq_true rfl⟩)
    have bound := few encryption.side
    rw [List.mem_range] at inRange
    omega
  have same : ∀ first ∈ encryptions, ∀ second ∈ encryptions,
      first.iv = second.iv ↔ first.number = second.number := by
    intro first firstMember second secondMember
    rw [ivs first firstMember, ivs second secondMember]
    exact mixCounter_inj (by rw [fresh.ivLength]; decide) (small first firstMember)
      (small second secondMember)
  have apart : ∀ side, encryptions.Pairwise fun first second =>
      first.side = side → second.side = side → first.number ≠ second.number := by
    intro side
    have distinct := @List.nodup_range (final.sent side).length
    rw [← ranges side, List.Nodup, List.pairwise_map, List.pairwise_filter] at distinct
    simpa using distinct
  constructor
  · have both := (apart .left).and (apart .right)
    refine both.imp_of_mem fun {first second} firstMember secondMember numbers sides => ?_
    rw [ne_eq, same first firstMember second secondMember]
    cases side : first.side with
    | left => exact numbers.1 side (sides ▸ side)
    | right => exact numbers.2 side (sides ▸ side)
  · exact fun first firstMember second secondMember _ => same first firstMember second secondMember
  · exact fun side => ⟨_, ranges side⟩

end Uses

/-- Both sides encrypt one message, which differ. -/
def greetings : List PeerAction := [.encrypt .left [72, 105], .encrypt .right [33]]

theorem greetings_sharesVectors :
    SharesVectors (encryptionsFrom knownBlowfish
      (createPeers knownBlowfish blowfishCipher counterMode (List.replicate 16 0)
        (List.replicate 16 0)) greetings) := by
  obtain ⟨final, reached, sent⟩ : ∃ final, (peerMachine knownBlowfish).run
      (createPeers knownBlowfish blowfishCipher counterMode (List.replicate 16 0)
        (List.replicate 16 0)) greetings = some final ∧
      ∀ side, (final.sent side).length = 1 := by
    refine ⟨_, rfl, fun side => ?_⟩
    cases side with
    | left => rfl
    | right => rfl
  exact secureCipher_sharesVectors knownBlowfish blowfishCipher _ _ greetings final reached
    fun side => by rw [sent side]; decide

/-- Two different messages of a run have the same vector. -/
theorem greetings_share :
    ¬ (encryptionsFrom knownBlowfish
      (createPeers knownBlowfish blowfishCipher counterMode (List.replicate 16 0)
        (List.replicate 16 0)) greetings).Pairwise
      fun first second => first.message ≠ second.message → first.iv ≠ second.iv := by
  decide

end Tegenaria.LibSecure
