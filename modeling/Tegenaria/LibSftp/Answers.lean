import Tegenaria.Foundation.Decoder
import Tegenaria.LibSftp.Requests

/-!
# Answers to single requests

`processPacket` sends a request and returns the answer that the reading thread has
found for it, or fails.  Answers are decoded by popping fields off the front of the
string.

`mkdir`, `remove`, `rmdir`, `rename` and `close` expect a status packet, which
`popStatusPacket` decodes for all of them.  `createfile` expects a handle.
-/

namespace Tegenaria.LibSftp

open Foundation
open Foundation.Bytes
open Foundation.Word
open LibStr

/-! ## Packet types and status codes -/

def fxpStatus : UInt8 := 101
def fxpHandle : UInt8 := 102
def fxpData : UInt8 := 103
def fxpName : UInt8 := 104

def fxOk : Nat := 0
def fxEof : Nat := 1
def fxFailure : Nat := 4

/-! ## Popping fields -/

def popByte : Decoder UInt8 UInt8 := StateT.mk strPopByte

def popDword : Decoder UInt8 Nat := StateT.mk fun buf => strPopDword buf .bigEndian

/-- The head of every answer. -/
def popHead : Decoder UInt8 Head := do
  let size ← popDword
  let type ← popByte
  let id ← popDword
  pure ⟨size, type, id⟩

/-- The dword at an offset. -/
def dwordAt (offset : Nat) (packet : List UInt8) : Nat :=
  ofBigEndian ((packet.drop offset).take 4)

/-- The qword at an offset. -/
def qwordAt (offset : Nat) (packet : List UInt8) : Nat :=
  ofBigEndian ((packet.drop offset).take 8)

/-- The byte at an offset. -/
def byteAt (offset : Nat) (packet : List UInt8) : UInt8 := packet.getD offset 0

/-- The part of a string that its length as an `int` tells. -/
def visible (packet : List UInt8) : List UInt8 := packet.take (toI32 packet.length).toNat

section Popping

variable {packet : List UInt8}

theorem popDword_eq (packet : List UInt8) :
    popDword.run packet = strPopDword packet .bigEndian := by
  rw [popDword, StateT.run_mk]

theorem popByte_eq (packet : List UInt8) : popByte.run packet = strPopByte packet := by
  rw [popByte, StateT.run_mk]

theorem dwordAt_lt (offset : Nat) (packet : List UInt8) : dwordAt offset packet < 2 ^ 32 := by
  have bound := ofBigEndian_lt ((packet.drop offset).take 4)
  have short : ((packet.drop offset).take 4).length ≤ 4 := List.length_take_le _ _
  exact Nat.lt_of_lt_of_le bound (Nat.pow_le_pow_right (by decide : 0 < 256) short)

theorem dwordAt_drop (offset skipped : Nat) (packet : List UInt8) :
    dwordAt offset (packet.drop skipped) = dwordAt (skipped + offset) packet := by
  rw [dwordAt, List.drop_drop, dwordAt]

theorem dwordAt_take {offset count : Nat} (inside : offset + 4 ≤ count) (packet : List UInt8) :
    dwordAt offset (packet.take count) = dwordAt offset packet := by
  rw [dwordAt, List.drop_take, List.take_take, Nat.min_eq_left (by omega), dwordAt]

/-- A dword is found behind whatever stands in front of it. -/
theorem dwordAt_append {front back : List UInt8} {offset value : Nat} (small : value < 2 ^ 32)
    (here : offset = front.length) :
    dwordAt offset (front ++ (bigEndian 4 value ++ back)) = value := by
  have fits : value < 256 ^ 4 := small
  rw [dwordAt, here, List.drop_left, List.take_append_of_le_length (by simp),
    List.take_of_length_le (by simp), ofBigEndian_bigEndian, Nat.mod_eq_of_lt fits]

theorem qwordAt_append {front back : List UInt8} {offset value : Nat} (small : value < 2 ^ 64)
    (here : offset = front.length) :
    qwordAt offset (front ++ (bigEndian 8 value ++ back)) = value := by
  have fits : value < 256 ^ 8 := small
  rw [qwordAt, here, List.drop_left, List.take_append_of_le_length (by simp),
    List.take_of_length_le (by simp), ofBigEndian_bigEndian, Nat.mod_eq_of_lt fits]

theorem byteAt_take {offset count : Nat} (inside : offset < count) (packet : List UInt8) :
    byteAt offset (packet.take count) = byteAt offset packet := by
  simp [byteAt, List.getD_eq_getElem?_getD, inside]

theorem visible_length_lt (packet : List UInt8) : (visible packet).length < 2 ^ 31 := by
  have bound := toI32_upper packet.length
  have short := List.length_take_le (toI32 packet.length).toNat packet
  rw [visible]
  omega

theorem visible_length (packet : List UInt8) :
    (visible packet).length = (toI32 packet.length).toNat := by
  rw [visible, List.length_take]
  simp only [toI32]
  omega

theorem visible_length_le (packet : List UInt8) : (visible packet).length ≤ packet.length := by
  rw [visible, List.length_take]
  exact Nat.min_le_right _ _

/-- The first pop cuts a string down to its visible part. -/
theorem popDword_visible (packet : List UInt8) :
    popDword.run packet = popDword.run (visible packet) := by
  rw [popDword_eq, popDword_eq]
  have length : toI32 (visible packet).length = (toI32 packet.length).toNat := by
    rw [toI32_length (visible_length_lt packet), visible_length]
  dsimp only [strPopDword, strPopWord]
  rw [length]
  by_cases short : toI32 packet.length < 4
  · rw [if_pos (by simpa using short), if_pos (by omega)]
  · rw [if_neg (by simpa using short), if_neg (by omega), visible,
      List.take_take, Nat.min_eq_left (by omega), Int.toNat_natCast, List.drop_take,
      List.take_take, Nat.min_self]

theorem popDword_run (short : packet.length < 2 ^ 31) :
    popDword.run packet =
      if 4 ≤ packet.length then some (dwordAt 0 packet, packet.drop 4) else none := by
  rw [popDword_eq]
  split
  case isTrue long => exact strPopWord_long .bigEndian long short
  case isFalse =>
    dsimp only [strPopDword, strPopWord]
    rw [toI32_length short, if_pos (by omega)]

theorem popByte_run (short : packet.length < 2 ^ 31) :
    popByte.run packet =
      if 1 ≤ packet.length then some (byteAt 0 packet, packet.drop 1) else none := by
  rw [popByte_eq]
  cases packet with
  | nil => rfl
  | cons first others =>
      rw [List.length_cons] at short
      rw [strPopByte_cons _ (by omega), if_pos (by simp)]
      rfl

/-- The head of a string with fewer than `2 ^ 31` bytes. -/
theorem popHead_run (short : packet.length < 2 ^ 31) :
    popHead.run packet =
      if 9 ≤ packet.length then
        some (⟨dwordAt 0 packet, byteAt 4 packet, dwordAt 5 packet⟩, packet.drop 9)
      else none := by
  have behind : ∀ count, (packet.drop count).length < 2 ^ 31 := by
    intro count
    rw [List.length_drop]
    omega
  rw [popHead, StateT.run_bind, popDword_run short]
  by_cases size : 4 ≤ packet.length
  · rw [if_pos size, Option.bind_eq_bind, Option.bind_some, StateT.run_bind,
      popByte_run (behind 4), List.length_drop]
    by_cases type : 1 ≤ packet.length - 4
    · rw [if_pos type, Option.bind_eq_bind, Option.bind_some, StateT.run_bind, List.drop_drop,
        popDword_run (behind _), List.length_drop]
      by_cases id : 4 ≤ packet.length - (4 + 1)
      · rw [if_pos id, if_pos (by omega), dwordAt_drop, List.drop_drop]
        simp [byteAt]
      · rw [if_neg id, if_neg (by omega)]
        rfl
    · rw [if_neg type, if_neg (by omega)]
      rfl
  · rw [if_neg size, if_neg (by omega)]
    rfl

theorem popHead_visible (packet : List UInt8) :
    popHead.run packet = popHead.run (visible packet) := by
  rw [popHead, StateT.run_bind, StateT.run_bind, popDword_visible]

theorem le_visible_length {count : Nat} (positive : 0 < count) :
    count ≤ (visible packet).length ↔ (count : Int) ≤ toI32 packet.length := by
  rw [visible_length]
  generalize toI32 packet.length = size
  omega

/-- The head of any string, by what its length as an `int` tells. -/
theorem popHead_answer (packet : List UInt8) :
    popHead.run packet =
      if 9 ≤ toI32 packet.length then
        some (⟨dwordAt 0 packet, byteAt 4 packet, dwordAt 5 packet⟩, (visible packet).drop 9)
      else none := by
  have same : 9 ≤ (visible packet).length ↔ 9 ≤ toI32 packet.length := le_visible_length (by decide)
  rw [popHead_visible, popHead_run (visible_length_lt packet)]
  by_cases headed : 9 ≤ (visible packet).length
  · have inside : 9 ≤ (toI32 packet.length).toNat := by rwa [← visible_length]
    have size : dwordAt 0 (visible packet) = dwordAt 0 packet := dwordAt_take (by omega) packet
    have type : byteAt 4 (visible packet) = byteAt 4 packet := byteAt_take (by omega) packet
    have id : dwordAt 5 (visible packet) = dwordAt 5 packet := dwordAt_take inside packet
    rw [if_pos headed, if_pos (same.mp headed), size, type, id]
  · rw [if_neg headed, if_neg fun long => headed (same.mpr long)]

/-- The dword behind the head. -/
theorem popDword_answer (packet : List UInt8) :
    popDword.run ((visible packet).drop 9) =
      if 13 ≤ toI32 packet.length then some (dwordAt 9 packet, (visible packet).drop 13)
      else none := by
  have same : 13 ≤ (visible packet).length ↔ 13 ≤ toI32 packet.length := le_visible_length (by decide)
  have bound := visible_length_lt packet
  have behind : ((visible packet).drop 9).length < 2 ^ 31 := by
    simp only [List.length_drop]
    omega
  rw [popDword_run behind, List.length_drop, dwordAt_drop, List.drop_drop]
  by_cases whole : 13 ≤ (visible packet).length
  · have inside : 13 ≤ (toI32 packet.length).toNat := by rwa [← visible_length]
    have value : dwordAt 9 (visible packet) = dwordAt 9 packet := dwordAt_take inside packet
    rw [if_pos (by omega), if_pos (same.mp whole), value]
  · rw [if_neg (by omega), if_neg fun long => whole (same.mpr long)]

theorem popDword_reads {value : Nat} (small : value < 2 ^ 32) :
    Decoder.Reads (2 ^ 31) popDword (bigEndian 4 value) value := by
  intro rest short
  have popped : strPopWord 4 (ByteOrder.bigEndian.encode 4 value ++ rest) .bigEndian =
      some (value % 256 ^ 4, rest) := strPopWord_encode .bigEndian value (by simpa using short)
  have fits : value < 256 ^ 4 := small
  rw [Nat.mod_eq_of_lt fits] at popped
  rw [popDword_eq]
  exact popped

theorem popByte_reads (value : UInt8) : Decoder.Reads (2 ^ 31) popByte [value] value := by
  intro rest short
  rw [popByte_eq]
  exact strPopByte_cons value (by simpa [Nat.add_comm] using short)

/-- The head that a server puts in front of an answer. -/
theorem popHead_reads {size : Nat} {type : UInt8} {id : Nat} (sizeSmall : size < 2 ^ 32)
    (idSmall : id < 2 ^ 32) :
    Decoder.Reads (2 ^ 31) popHead (bigEndian 4 size ++ ([type] ++ bigEndian 4 id))
      ⟨size, type, id⟩ :=
  (popDword_reads sizeSmall).bind <| (popByte_reads type).bind (popDword_reads idSmall).map

end Popping

/-! ## Requests that are answered by a status -/

/-- What `processPacket` makes of a request: the answer, or nothing if it fails. -/
abbrev Exchange := List UInt8 → Option (List UInt8)

/-- What a call leaves behind: the decoded status, and whether the session has been
shut down. -/
structure StatusResult where
  serverStatus : Nat
  dead : Bool
  deriving DecidableEq

/-- The packet in which a server sends a status; texts may follow the code. -/
def statusAnswer (id code : Nat) (texts : List UInt8) : List UInt8 :=
  bigEndian 4 (9 + texts.length) ++ ([fxpStatus] ++ bigEndian 4 id) ++
    (bigEndian 4 code ++ texts)

/-- The fields of a status packet. -/
def popStatus : Decoder UInt8 (Head × Nat) := do
  let head ← popHead
  let serverStatus ← popDword
  pure (head, serverStatus)

/-- What `popStatusPacket` makes of the fields, if they were popped.  The status is
stored before the id and the type are compared, and it is returned in either case. -/
def checkStatus (id : UInt32) : Option ((Head × Nat) × List UInt8) → StatusResult
  | none => ⟨fxFailure, false⟩
  | some ((head, serverStatus), _) =>
      if head.id ≠ id.toNat then ⟨serverStatus, true⟩
      else if head.type ≠ fxpStatus then ⟨serverStatus, true⟩
      else ⟨serverStatus, false⟩

/-- `SftpClient::popStatusPacket` -/
def popStatusPacket (packet : List UInt8) (id : UInt32) : StatusResult :=
  checkStatus id (popStatus.run packet)

/-- Common body of the functions below.  A request that cannot be built raises an
exception. -/
def statusRequest (dead : Bool) (exchange : Exchange) (id : UInt32)
    (request : Option (List UInt8)) : Option StatusResult :=
  if dead then some ⟨fxFailure, true⟩
  else request.map fun packet =>
    match exchange packet with
    | none => ⟨fxFailure, true⟩
    | some answer => popStatusPacket answer id

/-- The functions that report the status of the server. -/
inductive StatusCall where
  | mkdir (path : CString)
  | remove (path : CString)
  | rmdir (path : CString)
  | rename (path1 path2 : CString)
  | close (handle : Int)

namespace StatusCall

def request (id : UInt32) : StatusCall → Option (List UInt8)
  | .mkdir path => mkdirPacket id path
  | .remove path => removePacket id path
  | .rmdir path => rmdirPacket id path
  | .rename path1 path2 => renamePacket id path1 path2
  | .close handle => closePacket id handle

def run (dead : Bool) (exchange : Exchange) (id : UInt32) (call : StatusCall) :
    Option StatusResult :=
  statusRequest dead exchange id (call.request id)

/-- The function returns zero. -/
def Succeeds (dead : Bool) (exchange : Exchange) (id : UInt32) (call : StatusCall) : Prop :=
  ∃ result, call.run dead exchange id = some result ∧ result.serverStatus = fxOk

end StatusCall

/-- The length field tells the truth, and the packet is of the given type and has
the given id. -/
def HeadFits (packet : List UInt8) (type : UInt8) (id : UInt32) : Prop :=
  packet.length = 4 + dwordAt 0 packet ∧ byteAt 4 packet = type ∧ dwordAt 5 packet = id.toNat

/-- A complete status packet for a request that the server has carried out. -/
def IsStatusOk (packet : List UInt8) (id : UInt32) : Prop :=
  HeadFits packet fxpStatus id ∧ 13 ≤ packet.length ∧ dwordAt 9 packet = fxOk

/-- A packet long enough for a status, with a zero where the status stands. -/
def StatusReadsOk (packet : List UInt8) : Prop :=
  13 ≤ toI32 packet.length ∧ dwordAt 9 packet = fxOk

theorem statusAnswer_length (id code : Nat) (texts : List UInt8) :
    (statusAnswer id code texts).length = 13 + texts.length := by
  simp [statusAnswer]
  omega

theorem popHead_statusAnswer (id : UInt32) (code : Nat) {texts : List UInt8}
    (short : 13 + texts.length < 2 ^ 31) :
    popHead.run (statusAnswer id.toNat code texts) =
      some (⟨9 + texts.length, fxpStatus, id.toNat⟩, bigEndian 4 code ++ texts) := by
  refine popHead_reads (by omega) id.toNat_lt _ ?_
  simp
  omega

theorem popStatus_run {packet : List UInt8} (short : packet.length < 2 ^ 31) :
    popStatus.run packet =
      if 13 ≤ packet.length then
        some ((⟨dwordAt 0 packet, byteAt 4 packet, dwordAt 5 packet⟩, dwordAt 9 packet),
          packet.drop 13)
      else none := by
  have behind : (packet.drop 9).length < 2 ^ 31 := by
    simp only [List.length_drop]
    omega
  rw [popStatus, StateT.run_bind, popHead_run short]
  by_cases headed : 9 ≤ packet.length
  · rw [if_pos headed, Option.bind_eq_bind, Option.bind_some, StateT.run_bind,
      popDword_run behind, List.length_drop]
    by_cases status : 4 ≤ packet.length - 9
    · rw [if_pos status, if_pos (by omega), dwordAt_drop, List.drop_drop]
      rfl
    · rw [if_neg status, if_neg (by omega)]
      rfl
  · rw [if_neg headed, if_neg (by omega)]
    rfl

theorem popStatus_visible (packet : List UInt8) :
    popStatus.run packet = popStatus.run (visible packet) := by
  rw [popStatus, StateT.run_bind, StateT.run_bind, popHead_visible]

theorem checkStatus_some (id : UInt32) (head : Head) (serverStatus : Nat) (rest : List UInt8) :
    (checkStatus id (some ((head, serverStatus), rest))).serverStatus = serverStatus := by
  rw [checkStatus]
  split
  · rfl
  · split <;> rfl

/-- The status that is returned is the one in the packet, whatever the head says. -/
theorem popStatusPacket_serverStatus (packet : List UInt8) (id : UInt32) :
    (popStatusPacket packet id).serverStatus =
      if 13 ≤ toI32 packet.length then dwordAt 9 packet else fxFailure := by
  have same : 13 ≤ (visible packet).length ↔ 13 ≤ toI32 packet.length := by
    rw [visible_length]
    generalize toI32 packet.length = size
    omega
  rw [popStatusPacket, popStatus_visible, popStatus_run (visible_length_lt packet)]
  by_cases whole : 13 ≤ (visible packet).length
  · have status : dwordAt 9 (visible packet) = dwordAt 9 packet := by
      rw [visible_length] at whole
      exact dwordAt_take whole packet
    rw [if_pos whole, if_pos (same.mp whole), status, checkStatus_some]
  · rw [if_neg whole, if_neg fun long => whole (same.mpr long)]
    rfl

theorem popStatusPacket_ok_iff (packet : List UInt8) (id : UInt32) :
    (popStatusPacket packet id).serverStatus = fxOk ↔ StatusReadsOk packet := by
  rw [popStatusPacket_serverStatus, StatusReadsOk]
  split
  case isTrue long => exact ⟨fun ok => ⟨long, ok⟩, fun ok => ok.2⟩
  case isFalse short => exact ⟨fun ok => absurd ok (by decide), fun ok => absurd ok.1 short⟩

/-- No call succeeds without an answer whose status is read as zero. -/
theorem StatusCall.Succeeds.answered {call : StatusCall} {dead : Bool} {exchange : Exchange}
    {id : UInt32} (succeeds : call.Succeeds dead exchange id) :
    ∃ request answer, call.request id = some request ∧ exchange request = some answer ∧
      StatusReadsOk answer := by
  obtain ⟨result, done, ok⟩ := succeeds
  cases dead with
  | true =>
      cases done
      cases ok
  | false =>
      obtain ⟨request, built, outcome⟩ := Option.map_eq_some_iff.mp done
      cases exchanged : exchange request with
      | none =>
          rw [exchanged] at outcome
          cases outcome
          cases ok
      | some answer =>
          rw [exchanged] at outcome
          cases outcome
          exact ⟨request, answer, built, exchanged, (popStatusPacket_ok_iff answer id).mp ok⟩

/-- The status packet is trusted rightly exactly when every packet that has a zero
where the status stands is complete, of the right type and for the right request. -/
theorem statusAnswer_trusted_iff (packet : List UInt8) (id : UInt32) :
    (((popStatusPacket packet id).serverStatus = fxOk → IsStatusOk packet id) ∧
      ∀ (call : StatusCall) (dead : Bool) (exchange : Exchange),
        call.Succeeds dead exchange id → ∃ request answer, call.request id = some request ∧
          exchange request = some answer ∧ (answer = packet → IsStatusOk packet id)) ↔
      (StatusReadsOk packet → HeadFits packet fxpStatus id) := by
  have complete : StatusReadsOk packet → HeadFits packet fxpStatus id → IsStatusOk packet id := by
    intro ok fits
    refine ⟨fits, ?_, ok.2⟩
    have long := ok.1
    simp only [toI32] at long
    omega
  constructor
  · rintro ⟨trusted, _⟩ ok
    exact (trusted ((popStatusPacket_ok_iff packet id).mpr ok)).1
  · intro fits
    refine ⟨fun ok => ?_, fun call dead exchange succeeds => ?_⟩
    · have reads := (popStatusPacket_ok_iff packet id).mp ok
      exact complete reads (fits reads)
    · obtain ⟨request, answer, built, exchanged, ok⟩ := succeeds.answered
      refine ⟨request, answer, built, exchanged, ?_⟩
      rintro rfl
      exact complete ok (fits ok)

/-- A data packet for another request, with no data, makes `mkdir` succeed. -/
theorem mkdir_dataPacket_succeeds :
    (StatusCall.mkdir ⟨[97], by decide⟩).Succeeds false
        (fun _ => some [0, 0, 0, 9, 103, 0, 0, 0, 2, 0, 0, 0, 0]) 1 ∧
      ¬IsStatusOk [0, 0, 0, 9, 103, 0, 0, 0, 2, 0, 0, 0, 0] 1 := by
  refine ⟨⟨⟨0, true⟩, by decide +kernel, rfl⟩, fun ok => ?_⟩
  exact absurd ok.1.2.1 (by decide)

/-! ## A request that is answered by a handle -/

/-- What `createfile` leaves behind.  `isDir` is the value that the pointer argument
points to, if it is not `NULL`. -/
structure CreateResult where
  handle : Int
  isDir : Option Int
  dead : Bool
  deriving DecidableEq

/-- `SSH2_FXP_DIRLIGO_DIR_FLAG` is the bit with this number. -/
def dirFlagBit : Nat := 30

/-- The code behind the last pop of `createfile`.  For a directory `*isDir` is
written even if the pointer is `NULL`. -/
def storeHandle (isDir : Option Int) (tmp : Nat) : Option CreateResult :=
  let handle := toI32 tmp
  if handle ≥ 0 then
    if tmp.testBit dirFlagBit then
      isDir.map fun _ => ⟨handle - 2 ^ dirFlagBit, some 1, false⟩
    else
      some ⟨handle, isDir, false⟩
  else
    some ⟨handle, isDir, false⟩

/-- The length and the value of a handle. -/
def popHandle : Decoder UInt8 Nat := do
  let _ ← popDword
  popDword

def checkHandle (isDir : Option Int) : Option (Nat × List UInt8) → Option CreateResult
  | none => some ⟨0, isDir, false⟩
  | some (tmp, _) => storeHandle isDir tmp

def checkHandleHead (id : UInt32) (isDir : Option Int) :
    Option (Head × List UInt8) → Option CreateResult
  | none => some ⟨0, isDir, false⟩
  | some (head, rest) =>
      if head.id ≠ id.toNat then some ⟨0, isDir, true⟩
      else if head.type ≠ fxpHandle then some ⟨0, isDir, true⟩
      else checkHandle isDir (popHandle.run rest)

def checkHandlePacket (id : UInt32) (isDir : Option Int) : Option (List UInt8) → Option CreateResult
  | none => some ⟨0, isDir, true⟩
  | some answer => checkHandleHead id isDir (popHead.run answer)

/-- `SftpClient::createfile`.  There is no result when the request cannot be built or
a `NULL` pointer is written through. -/
def createfile (dead : Bool) (exchange : Exchange) (id : UInt32) (path : CString)
    (access shared create flags : UInt32) (isDir : Option Int) : Option CreateResult :=
  if dead then some ⟨0, isDir, true⟩
  else (createfilePacket id path access shared create flags).bind fun packet =>
    checkHandlePacket id isDir (exchange packet)

/-- The packet in which a server sends a handle. -/
def handleAnswer (id value : UInt32) : List UInt8 :=
  bigEndian 4 13 ++ ([fxpHandle] ++ bigEndian 4 id.toNat) ++
    (bigEndian 4 4 ++ bigEndian 4 value.toNat)

/-- The server marks the handle of a directory; error codes are negative. -/
def marksDirectory (value : UInt32) : Bool := value.toNat < 2 ^ 31 && value.toNat.testBit dirFlagBit

/-- The handle without its mark. -/
def plainHandle (value : UInt32) : Int :=
  if marksDirectory value then value.toNat - 2 ^ dirFlagBit else toI32 value.toNat

/-- What the caller of `createfile` may rely on: a handle is returned as the server
sent it, every other outcome is negative, and `*isDir` tells whether the handle is
marked. -/
structure CreateReported (answer : Option (List UInt8)) (id : UInt32) (isDir : Option Int)
    (result : CreateResult) : Prop where
  handle : ∀ value, answer = some (handleAnswer id value) → result.handle = plainHandle value
  failure : (∀ value, answer ≠ some (handleAnswer id value)) → result.handle < 0
  directory : isDir ≠ none → ∀ value, answer = some (handleAnswer id value) →
    result.isDir = some (if marksDirectory value then 1 else 0)
  noDirectory : isDir ≠ none → (∀ value, answer ≠ some (handleAnswer id value)) →
    result.isDir = some 0

/-- A packet that is long enough for a handle, of the right type and for the right
request. -/
def HandleReads (packet : List UInt8) (id : UInt32) : Prop :=
  17 ≤ toI32 packet.length ∧ byteAt 4 packet = fxpHandle ∧ dwordAt 5 packet = id.toNat

/-- The answer carries a handle, in a complete packet unless it is an error code.
The pointer is there if the handle is marked, and points to zero if it is not. -/
def HandleUsable (answer : List UInt8) (id : UInt32) (isDir : Option Int) : Prop :=
  HandleReads answer id ∧
    (dwordAt 13 answer < 2 ^ 31 → answer = handleAnswer id (UInt32.ofNat (dwordAt 13 answer))) ∧
    if marksDirectory (UInt32.ofNat (dwordAt 13 answer)) then isDir ≠ none
    else isDir = none ∨ isDir = some 0

section Handles

variable {answer : List UInt8} {id : UInt32}

theorem popHandle_run {packet : List UInt8} (short : packet.length < 2 ^ 31) :
    popHandle.run packet =
      if 8 ≤ packet.length then some (dwordAt 4 packet, packet.drop 8) else none := by
  have behind : (packet.drop 4).length < 2 ^ 31 := by
    simp only [List.length_drop]
    omega
  rw [popHandle, StateT.run_bind, popDword_run short]
  by_cases length : 4 ≤ packet.length
  · rw [if_pos length, Option.bind_eq_bind, Option.bind_some, popDword_run behind,
      List.length_drop, dwordAt_drop, List.drop_drop]
    by_cases value : 4 ≤ packet.length - 4
    · rw [if_pos value, if_pos (by omega)]
    · rw [if_neg value, if_neg (by omega)]
  · rw [if_neg length, if_neg (by omega)]
    rfl

/-- The handle behind the head. -/
theorem popHandle_answer (packet : List UInt8) :
    popHandle.run ((visible packet).drop 9) =
      if 17 ≤ toI32 packet.length then some (dwordAt 13 packet, (visible packet).drop 17)
      else none := by
  have same : 17 ≤ (visible packet).length ↔ 17 ≤ toI32 packet.length := le_visible_length (by decide)
  have bound := visible_length_lt packet
  have behind : ((visible packet).drop 9).length < 2 ^ 31 := by
    simp only [List.length_drop]
    omega
  rw [popHandle_run behind, List.length_drop, dwordAt_drop, List.drop_drop]
  by_cases whole : 17 ≤ (visible packet).length
  · have inside : 17 ≤ (toI32 packet.length).toNat := by rwa [← visible_length]
    have value : dwordAt 13 (visible packet) = dwordAt 13 packet := dwordAt_take inside packet
    rw [if_pos (by omega), if_pos (same.mp whole), value]
  · rw [if_neg (by omega), if_neg fun long => whole (same.mpr long)]

/-- A handle that can be read is stored, and nothing else is. -/
theorem checkHandlePacket_reads (reads : HandleReads answer id) (isDir : Option Int) :
    checkHandlePacket id isDir (some answer) = storeHandle isDir (dwordAt 13 answer) := by
  obtain ⟨long, type, sameId⟩ := reads
  have headed : 9 ≤ toI32 answer.length := by omega
  rw [checkHandlePacket, popHead_answer, if_pos headed, checkHandleHead,
    if_neg (not_not_intro sameId), if_neg (not_not_intro type), popHandle_answer, if_pos long]
  rfl

theorem checkHandlePacket_unread (unread : ¬HandleReads answer id) (isDir : Option Int) :
    ∃ dead, checkHandlePacket id isDir (some answer) = some ⟨0, isDir, dead⟩ := by
  rw [checkHandlePacket, popHead_answer]
  by_cases headed : 9 ≤ toI32 answer.length
  case neg =>
    rw [if_neg headed]
    exact ⟨false, rfl⟩
  rw [if_pos headed, checkHandleHead]
  by_cases sameId : dwordAt 5 answer = id.toNat
  case neg =>
    rw [if_pos sameId]
    exact ⟨true, rfl⟩
  rw [if_neg (not_not_intro sameId)]
  by_cases type : byteAt 4 answer = fxpHandle
  case neg =>
    rw [if_pos type]
    exact ⟨true, rfl⟩
  rw [if_neg (not_not_intro type), popHandle_answer,
    if_neg fun long => unread ⟨long, type, sameId⟩]
  exact ⟨false, rfl⟩

theorem handleAnswer_length (id value : UInt32) : (handleAnswer id value).length = 17 := by
  simp [handleAnswer]

theorem handleAnswer_value (id value : UInt32) :
    dwordAt 13 (handleAnswer id value) = value.toNat := by
  have found := @dwordAt_append
    (bigEndian 4 13 ++ ([fxpHandle] ++ bigEndian 4 id.toNat) ++ bigEndian 4 4) [] 13 value.toNat
    value.toNat_lt (by simp)
  rwa [List.append_nil, List.append_assoc] at found

theorem handleAnswer_reads (id value : UInt32) : HandleReads (handleAnswer id value) id := by
  refine ⟨?_, ?_, ?_⟩
  · rw [handleAnswer_length]
    decide
  · rfl
  · have found := @dwordAt_append (bigEndian 4 13 ++ [fxpHandle])
      (bigEndian 4 4 ++ bigEndian 4 value.toNat) 5 id.toNat id.toNat_lt (by simp)
    rwa [← List.append_assoc, List.append_assoc (bigEndian 4 13)] at found

/-- A handle is stored without its mark. -/
theorem storeHandle_eq (isDir : Option Int) (value : UInt32) :
    storeHandle isDir value.toNat =
      if marksDirectory value then isDir.map fun _ => ⟨plainHandle value, some 1, false⟩
      else some ⟨plainHandle value, isDir, false⟩ := by
  have bound : value.toNat < 4294967296 := value.toNat_lt
  by_cases small : value.toNat < 2147483648
  · have same : toI32 value.toNat = value.toNat := toI32_of_fits (by omega) (by omega)
    have nonneg : (value.toNat : Int) ≥ 0 := Int.natCast_nonneg _
    cases marked : value.toNat.testBit dirFlagBit <;>
      simp [storeHandle, plainHandle, marksDirectory, same, nonneg, small, marked]
  · have negative : ¬toI32 value.toNat ≥ 0 := by
      simp only [toI32]
      omega
    simp [storeHandle, plainHandle, marksDirectory, negative, small]

theorem plainHandle_nonneg {value : UInt32} (small : value.toNat < 2 ^ 31) :
    0 ≤ plainHandle value := by
  rw [plainHandle]
  split
  case isTrue marked =>
    rw [marksDirectory, Bool.and_eq_true] at marked
    have large := Nat.ge_two_pow_of_testBit marked.2
    simp only [dirFlagBit] at large ⊢
    omega
  case isFalse =>
    rw [toI32_of_fits (by omega) (by omega)]
    exact Int.natCast_nonneg _

theorem ofNat_dwordAt (offset : Nat) (packet : List UInt8) :
    (UInt32.ofNat (dwordAt offset packet)).toNat = dwordAt offset packet :=
  UInt32.toNat_ofNat_of_lt' (dwordAt_lt offset packet)

/-- Which complete packet an answer is, if it is one. -/
theorem eq_ofNat_of_handleAnswer {value : UInt32} (complete : answer = handleAnswer id value) :
    UInt32.ofNat (dwordAt 13 answer) = value := by
  apply UInt32.toNat_inj.mp
  rw [ofNat_dwordAt, complete, handleAnswer_value]

theorem plainHandle_neg {value : UInt32} (large : ¬value.toNat < 2 ^ 31) : plainHandle value < 0 := by
  have bound : value.toNat < 4294967296 := value.toNat_lt
  have unmarked : marksDirectory value = false := by
    simp [marksDirectory]
    omega
  rw [plainHandle, unmarked, if_neg Bool.false_ne_true]
  simp only [toI32]
  omega

section Sent

variable {sent : UInt32} {isDir : Option Int} {result : CreateResult}

theorem sent_eq (value : dwordAt 13 answer = sent.toNat) (other : UInt32)
    (same : some answer = some (handleAnswer id other)) : sent = other := by
  rw [← eq_ofNat_of_handleAnswer (Option.some.inj same), value, UInt32.ofNat_toNat]

/-- What is reported of an answer that was stored shows that the answer is usable. -/
theorem CreateReported.usable (reported : CreateReported (some answer) id isDir result)
    (value : dwordAt 13 answer = sent.toNat)
    (stored : (if marksDirectory sent then isDir.map fun _ => ⟨plainHandle sent, some 1, false⟩
      else some ⟨plainHandle sent, isDir, false⟩) = some result) :
    (sent.toNat < 2 ^ 31 → answer = handleAnswer id sent) ∧
      if marksDirectory sent then isDir ≠ none else isDir = none ∨ isDir = some 0 := by
  have only := @sent_eq answer id sent value
  have handle : result.handle = plainHandle sent := by
    split at stored
    · obtain ⟨_, _, rfl⟩ := Option.map_eq_some_iff.mp stored
      rfl
    · cases stored
      rfl
  refine ⟨fun small => ?_, ?_⟩
  · by_contra incomplete
    have nonneg := plainHandle_nonneg small
    have negative := reported.failure fun other same => by
      rw [only other same] at incomplete
      exact incomplete (Option.some.inj same)
    omega
  · split
    case isTrue marked =>
      rw [if_pos marked] at stored
      rintro rfl
      cases stored
    case isFalse unmarked =>
      rw [if_neg unmarked] at stored
      cases stored
      by_cases given : isDir = none
      · exact Or.inl given
      · refine Or.inr ?_
        by_cases complete : answer = handleAnswer id sent
        · have told := reported.directory given sent (congrArg some complete)
          rwa [if_neg unmarked] at told
        · refine reported.noDirectory given fun other same => ?_
          rw [← only other same] at same
          exact complete (Option.some.inj same)

/-- A usable answer is stored and reported rightly. -/
theorem createReported_of_usable (value : dwordAt 13 answer = sent.toNat)
    (complete : sent.toNat < 2 ^ 31 → answer = handleAnswer id sent)
    (pointer : if marksDirectory sent then isDir ≠ none else isDir = none ∨ isDir = some 0) :
    ∃ result, (if marksDirectory sent then isDir.map fun _ => ⟨plainHandle sent, some 1, false⟩
        else some ⟨plainHandle sent, isDir, false⟩) = some result ∧
      CreateReported (some answer) id isDir result := by
  have only := @sent_eq answer id sent value
  have fails : (∀ other, some answer ≠ some (handleAnswer id other)) → ¬sent.toNat < 2 ^ 31 :=
    fun other small => other sent (congrArg some (complete small))
  by_cases marked : marksDirectory sent
  · rw [if_pos marked] at pointer ⊢
    obtain ⟨before, rfl⟩ := Option.ne_none_iff_exists'.mp pointer
    refine ⟨_, rfl, ?_, fun other => plainHandle_neg (fails other), ?_, ?_⟩
    · intro other same
      rw [only other same]
    · intro _ other same
      rw [← only other same, if_pos marked]
    · intro _ other
      rw [marksDirectory, Bool.and_eq_true, decide_eq_true_eq] at marked
      exact absurd marked.1 (fails other)
  · rw [if_neg marked] at pointer ⊢
    refine ⟨_, rfl, ?_, fun other => plainHandle_neg (fails other), ?_, ?_⟩
    · intro other same
      rw [only other same]
    · intro given other same
      rw [← only other same, if_neg marked]
      exact pointer.resolve_left given
    · intro given _
      exact pointer.resolve_left given

end Sent

/-- What becomes of an answer is reported rightly exactly when the answer is usable. -/
theorem checkHandlePacket_reports_iff (answer : List UInt8) (id : UInt32) (isDir : Option Int) :
    (∃ result, checkHandlePacket id isDir (some answer) = some result ∧
      CreateReported (some answer) id isDir result) ↔ HandleUsable answer id isDir := by
  by_cases reads : HandleReads answer id
  · have value := (ofNat_dwordAt 13 answer).symm
    have stored := checkHandlePacket_reads reads isDir
    rw [value, storeHandle_eq] at stored
    rw [stored, HandleUsable]
    constructor
    · rintro ⟨result, done, reported⟩
      have usable := reported.usable value done
      rw [ofNat_dwordAt] at usable
      exact ⟨reads, usable⟩
    · rintro ⟨_, complete, pointer⟩
      refine createReported_of_usable value ?_ pointer
      rwa [ofNat_dwordAt]
  · constructor
    · rintro ⟨result, done, reported⟩
      obtain ⟨dead, failed⟩ := checkHandlePacket_unread reads isDir
      cases failed.symm.trans done
      have negative := reported.failure fun other same => by
        rw [Option.some.inj same] at reads
        exact reads (handleAnswer_reads id other)
      cases negative
    · intro usable
      exact absurd usable.1 reads

end Handles

/-- `createfile` reports what the server has answered exactly when the session is
alive, the request can be built and is answered, and the answer is usable. -/
theorem createfile_reports_iff (dead : Bool) (exchange : Exchange) (id : UInt32) (path : CString)
    (access shared create flags : UInt32) (isDir : Option Int) :
    (∃ result, createfile dead exchange id path access shared create flags isDir = some result ∧
      CreateReported (if dead then none
        else (createfilePacket id path access shared create flags).bind exchange) id isDir
        result) ↔
      dead = false ∧ ∃ request answer,
        createfilePacket id path access shared create flags = some request ∧
        exchange request = some answer ∧ HandleUsable answer id isDir := by
  have unanswered : ∀ dead, ¬CreateReported none id isDir ⟨0, isDir, dead⟩ := by
    intro dead reported
    cases reported.failure fun _ same => by cases same
  cases dead with
  | true =>
      constructor
      · rintro ⟨result, done, reported⟩
        cases done
        exact absurd reported (unanswered true)
      · rintro ⟨alive, _⟩
        cases alive
  | false =>
      rw [createfile, if_neg Bool.false_ne_true, if_neg Bool.false_ne_true]
      cases built : createfilePacket id path access shared create flags with
      | none =>
          constructor
          · rintro ⟨result, done, _⟩
            cases done
          · rintro ⟨_, request, _, found, _⟩
            cases found
      | some request =>
          rw [Option.bind_some, Option.bind_some]
          cases answered : exchange request with
          | none =>
              constructor
              · rintro ⟨result, done, reported⟩
                cases done
                exact absurd reported (unanswered true)
              · rintro ⟨_, other, answer, same, found, _⟩
                cases same
                cases answered.symm.trans found
          | some answer =>
              rw [checkHandlePacket_reports_iff]
              constructor
              · intro usable
                exact ⟨rfl, request, answer, rfl, answered, usable⟩
              · rintro ⟨_, other, found, same, again, usable⟩
                cases same
                cases answered.symm.trans again
                exact usable

/-- On a dead session `createfile` returns the handle zero. -/
theorem createfile_dead_zero :
    createfile true (fun _ => none) 1 ⟨[97], by decide⟩ 0 0 0 0 (some 0) = some ⟨0, some 0, true⟩ ∧
      ¬CreateReported none 1 (some 0) ⟨0, some 0, true⟩ := by
  refine ⟨rfl, fun reported => ?_⟩
  cases reported.failure fun _ same => by cases same

end Tegenaria.LibSftp
