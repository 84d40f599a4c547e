import Tegenaria.Foundation.Memory
import Tegenaria.LibNet.Atoi

/-!
# Requests

A request is a command with a zero behind it, its answer is `XYZ> ` and a message with a
zero behind it.  `NetConnection::request` and `SecureConnection::request` are the same
code.  It sends as many bytes as the whole command has, although only 1022 of them are in
the buffer, and it reads one byte too many if the message does not fit.
-/

namespace Tegenaria.LibNet

open Foundation LibStr

/-! ## The functions -/

/-- The bytes that can be read and those that were written. -/
structure ByteStream where
  incoming : Chars
  outgoing : Chars

namespace ByteStream

def write (stream : ByteStream) (bytes : Chars) : ByteStream :=
  { stream with outgoing := stream.outgoing ++ bytes }

/-- The next bytes, less than `count` only if no more are left. -/
def read (stream : ByteStream) (count : Nat) : Chars × ByteStream :=
  (stream.incoming.take count, { stream with incoming := stream.incoming.drop count })

end ByteStream

/-- `vsnprintf` of a text into a buffer.  It returns the length of the whole text if that is
an `int`. -/
def vsnprintf (buf : Memory UInt8) (size : Nat) (text : Chars) : Memory UInt8 × Int :=
  (buf.store 0 (text.take (size - 1) ++ [0]), if text.length < 2 ^ 31 then text.length else -1)

/-- The state of the loop that reads a message. -/
structure MessageRead where
  serverMsg : Memory UInt8
  total : Nat
  incoming : Chars
  eofReceived : Bool

/-- The loop that reads a message byte by byte. -/
def readMessage (serverMsgSize : Nat) (total : Nat) (serverMsg : Memory UInt8) : Chars → MessageRead
  | [] => { serverMsg, total, incoming := [], eofReceived := false }
  | byte :: rest =>
      let serverMsg := Function.update serverMsg total byte
      if total = serverMsgSize then { serverMsg, total, incoming := rest, eofReceived := false }
      else if byte = 0 then { serverMsg, total, incoming := rest, eofReceived := true }
      else readMessage serverMsgSize (total + 1) serverMsg rest

/-- The loop that drops the rest of a message. -/
def flushMessage : Chars → Chars
  | [] => []
  | byte :: rest => if byte = 0 then rest else flushMessage rest

structure Reply where
  exitCode : Int
  serverCode : Option Int
  serverMsg : Option (Memory UInt8)
  stream : ByteStream

/-- The part of `request` behind the code of the server. -/
def readAnswer (stream : ByteStream) (serverMsg : Option (Memory UInt8)) (serverMsgSize : Int) :
    Option (Memory UInt8) × ByteStream :=
  match serverMsg with
  | some serverMsg =>
      if serverMsgSize > 0 then
        let message := readMessage serverMsgSize.toNat 0 serverMsg stream.incoming
        (some (Function.update message.serverMsg message.total 0),
          { stream with
            incoming :=
              if message.eofReceived then message.incoming else flushMessage message.incoming })
      else (some serverMsg, { stream with incoming := flushMessage stream.incoming })
  | none => (none, { stream with incoming := flushMessage stream.incoming })

/-- The body of both functions.  `buf` is the memory from the local buffer on; the text is
what the arguments are formatted to; `none` stands for a null pointer. -/
def request (stream : ByteStream) (buf : Memory UInt8) (serverCode : Option Int)
    (serverMsg : Option (Memory UInt8)) (serverMsgSize : Int) (fmt : Option Chars) : Reply :=
  match serverCode, fmt with
  | some code, some text =>
      let (buf, len) := vsnprintf buf (1024 - 1) text
      let stream := stream.write (buf.slice 0 (len + 1).toNat)
      let (head, stream) := stream.read 5
      if head.length ≠ 5 then { exitCode := -1, serverCode := some code, serverMsg, stream }
      else
        let (serverMsg, stream) := readAnswer stream serverMsg serverMsgSize
        { exitCode := 0, serverCode := some (atoi (head.set 4 0)), serverMsg, stream }
  | _, _ => { exitCode := -1, serverCode, serverMsg, stream }

/-- `NetConnection::request` -/
def NetConnection.request := Tegenaria.LibNet.request

/-- `SecureConnection::request` -/
def SecureConnection.request := Tegenaria.LibNet.request

/-! ## Answers -/

/-- A code of three digits and a message. -/
structure Answer where
  code : Fin 1000
  msg : Chars
  noZero : 0 ∉ msg

/-- `XYZ> ` -/
def Answer.head (answer : Answer) : Chars :=
  [digit (answer.code / 100), digit (answer.code / 10 % 10), digit (answer.code % 10), 62, 32]

/-- `XYZ> msg` with the terminator. -/
def Answer.bytes (answer : Answer) : Chars := answer.head ++ (answer.msg ++ [0])

/-- What is promised of one request: the command is sent with its terminator, the code and
as much of the message as fits are returned, nothing is written behind the buffer of the
caller, and exactly the answer is consumed. -/
structure Exchanged (text : Chars) (serverMsgSize : Int) (answer : Answer) (memory : Memory UInt8)
    (outgoing later : Chars) (reply : Reply) : Prop where
  exitCode : reply.exitCode = 0
  serverCode : reply.serverCode = some (answer.code : Nat)
  outgoing : reply.stream.outgoing = outgoing ++ (text ++ [0])
  incoming : reply.stream.incoming = later
  serverMsg : ∃ after, reply.serverMsg = some after ∧
    after.slice 0 (min answer.msg.length (serverMsgSize.toNat - 1) + 1) =
      answer.msg.take (serverMsgSize.toNat - 1) ++ [0] ∧
    ∀ address : Nat, serverMsgSize ≤ address → after address = memory address

/-- The request keeps its promise whatever is in memory, in the stream and behind the
answer. -/
def InSync
    (request : ByteStream → Memory UInt8 → Option Int → Option (Memory UInt8) → Int → Option Chars → Reply)
    (text : Chars) (serverMsgSize : Int) (answer : Answer) : Prop :=
  ∀ (buf memory : Memory UInt8) (code : Int) (outgoing later : Chars),
    Exchanged text serverMsgSize answer memory outgoing later
      (request { incoming := answer.bytes ++ later, outgoing := outgoing } buf (some code) (some memory)
        serverMsgSize (some text))

/-! ## The command -/

theorem vsnprintf_written (buf : Memory UInt8) {text : Chars} (short : text.length ≤ 1022) :
    (vsnprintf buf 1023 text).1.slice 0 ((vsnprintf buf 1023 text).2 + 1).toNat = text ++ [0] := by
  have fits : text.length < 2 ^ 31 := by omega
  have count : ((text.length : Int) + 1).toNat = (text ++ [0]).length := by
    rw [List.length_append]
    exact Int.toNat_natCast (text.length + 1)
  rw [vsnprintf, if_pos fits, List.take_of_length_le short]
  simp only [count]
  exact Memory.slice_store buf 0 _

/-- Behind the 1023 bytes that are written the bytes of the memory are sent. -/
theorem vsnprintf_leaks (buf : Memory UInt8) {text : Chars} (long : 1022 < text.length)
    (fits : text.length < 2 ^ 31) :
    ((vsnprintf buf 1023 text).1.slice 0 ((vsnprintf buf 1023 text).2 + 1).toNat)[1023]? =
      some (buf 1023) := by
  have kept : (text.take 1022 ++ [0]).length = 1023 := by
    rw [List.length_append, List.length_take, Nat.min_eq_left (by omega)]
    rfl
  rw [vsnprintf, if_pos fits, Memory.slice_getElem? _ (by simp only; omega), Nat.zero_add]
  have outside : 0 + (text.take 1022 ++ [0]).length ≤ 1023 := by omega
  exact congrArg some (Memory.store_outside buf outside)

/-- The command is sent for every content of the memory exactly if it fits in the buffer. -/
theorem vsnprintf_written_iff (text : Chars) :
    (∀ buf, (vsnprintf buf 1023 text).1.slice 0 ((vsnprintf buf 1023 text).2 + 1).toNat = text ++ [0]) ↔
      text.length ≤ 1022 := by
  constructor
  · intro written
    by_contra long
    rw [Nat.not_le] at long
    by_cases fits : text.length < 2 ^ 31
    · have first := vsnprintf_leaks (fun _ => 0) long fits
      have second := vsnprintf_leaks (fun _ => 1) long fits
      rw [written] at first second
      exact absurd (first.symm.trans second) (by decide)
    · have nothing := congrArg List.length (written fun _ => 0)
      rw [vsnprintf, if_neg fits] at nothing
      simp at nothing
  · exact fun short buf => vsnprintf_written buf short

/-! ## The message -/

/-- A message that fits is stored with its terminator, and only the message is read. -/
theorem readMessage_short {serverMsgSize total : Nat} {msg : Chars} (noZero : 0 ∉ msg)
    (fits : total + msg.length < serverMsgSize) (serverMsg : Memory UInt8) (later : Chars) :
    readMessage serverMsgSize total serverMsg (msg ++ 0 :: later) =
      { serverMsg := serverMsg.store total (msg ++ [0])
        total := total + msg.length
        incoming := later
        eofReceived := true } := by
  induction msg generalizing total serverMsg with
  | nil =>
      have notFull : total ≠ serverMsgSize := Nat.ne_of_lt fits
      rw [List.nil_append, readMessage, if_neg notFull, if_pos rfl, List.nil_append,
        ← Memory.store_update, Memory.store_nil]
      rfl
  | cons byte rest ih =>
      rw [List.mem_cons, not_or] at noZero
      rw [List.length_cons] at fits
      rw [List.cons_append, readMessage, if_neg (by omega), if_neg (Ne.symm noZero.1),
        ih noZero.2 (by omega), Memory.store_update, List.length_cons, Nat.add_assoc, Nat.add_comm 1,
        List.cons_append]

/-- A message that does not fit is read until the buffer is full. -/
theorem readMessage_long {serverMsgSize total : Nat} {msg : Chars} (noZero : 0 ∉ msg)
    (room : total ≤ serverMsgSize) (long : serverMsgSize ≤ total + msg.length)
    (serverMsg : Memory UInt8) (later : Chars) :
    (readMessage serverMsgSize total serverMsg (msg ++ 0 :: later)).total = serverMsgSize := by
  induction msg generalizing total serverMsg with
  | nil =>
      have full : total = serverMsgSize := Nat.le_antisymm room long
      rw [List.nil_append, readMessage, if_pos full]
      exact full
  | cons byte rest ih =>
      rw [List.mem_cons, not_or] at noZero
      rw [List.cons_append, readMessage]
      by_cases full : total = serverMsgSize
      · rw [if_pos full]
        exact full
      · rw [List.length_cons] at long
        rw [if_neg full, if_neg (Ne.symm noZero.1)]
        exact ih noZero.2 (by omega) (by omega) _

/-! ## The whole request -/

theorem atoi_head (answer : Answer) : atoi (answer.head.set 4 0) = (answer.code : Nat) := by
  have small := answer.code.isLt
  have hundreds : answer.code.val / 100 < 10 := by omega
  have stops : ∀ value, readDigits value [62, 0] = value := fun _ => rfl
  have same : answer.head.set 4 0 = digit (answer.code / 100) :: digit (answer.code / 10 % 10) ::
      digit (answer.code % 10) :: [62, 0] := rfl
  have value : ((0 * 10 + (answer.code.val / 100 : Nat)) * 10 + (answer.code.val / 10 % 10 : Nat)) * 10 +
      (answer.code.val % 10 : Nat) = (answer.code.val : Int) := by
    omega
  rw [same, atoi_digits hundreds rfl, readDigits_digit hundreds,
    readDigits_digit (Nat.mod_lt _ (by decide)), readDigits_digit (Nat.mod_lt _ (by decide)), stops,
    value, longToInt_of_fits (by omega) (by omega)]

section Reply

variable (buf memory : Memory UInt8) (code : Int) (outgoing later text : Chars)
variable {serverMsgSize : Int} {answer : Answer}

/-- The bytes that are sent for a command. -/
def sentCommand : Chars :=
  (vsnprintf buf 1023 text).1.slice 0 ((vsnprintf buf 1023 text).2 + 1).toNat

/-- The reply to a request whose answer has arrived. -/
theorem request_eq :
    request { incoming := answer.bytes ++ later, outgoing := outgoing } buf (some code) (some memory)
        serverMsgSize (some text) =
      let read := readAnswer
        { incoming := answer.msg ++ 0 :: later, outgoing := outgoing ++ sentCommand buf text }
        (some memory) serverMsgSize
      { exitCode := 0, serverCode := some (answer.code : Nat), serverMsg := read.1, stream := read.2 } := by
  have bytes : answer.bytes ++ later = answer.head ++ (answer.msg ++ 0 :: later) := by
    rw [Answer.bytes, List.append_assoc, List.append_assoc]
    rfl
  have five : answer.head.length = 5 := rfl
  rw [request]
  simp only [ByteStream.write, ByteStream.read, bytes, List.take_left' five, List.drop_left' five, five,
    ne_eq, not_true_eq_false, if_false, atoi_head]
  rfl

theorem readAnswer_outgoing (stream : ByteStream) (serverMsg : Option (Memory UInt8))
    (serverMsgSize : Int) : (readAnswer stream serverMsg serverMsgSize).2.outgoing = stream.outgoing := by
  cases serverMsg with
  | none => rfl
  | some memory =>
      rw [readAnswer]
      split <;> rfl

variable (stream : ByteStream)
variable (positive : 1 ≤ serverMsgSize)
include positive

/-- A message that fits is returned, and exactly the answer is consumed. -/
theorem readAnswer_short (arrived : stream.incoming = answer.msg ++ 0 :: later)
    (fits : answer.msg.length < serverMsgSize) :
    readAnswer stream (some memory) serverMsgSize =
      (some (memory.store 0 (answer.msg ++ [0])), { stream with incoming := later }) := by
  have room : 0 + answer.msg.length < serverMsgSize.toNat := by omega
  rw [readAnswer, if_pos (by omega)]
  simp only [arrived, readMessage_short answer.noZero room, if_true]
  have terminated : memory.store 0 (answer.msg ++ [0]) (0 + answer.msg.length) = 0 := by
    simp [Memory.store]
  rw [Function.update_eq_self_iff.mpr terminated.symm]

/-- A message that does not fit is followed by a zero behind the buffer. -/
theorem readAnswer_long (arrived : stream.incoming = answer.msg ++ 0 :: later)
    (long : serverMsgSize ≤ answer.msg.length) :
    ∃ after, (readAnswer stream (some memory) serverMsgSize).1 = some after ∧
      after serverMsgSize.toNat = 0 := by
  have total := readMessage_long answer.noZero (Nat.zero_le _)
    (by omega : serverMsgSize.toNat ≤ 0 + answer.msg.length) memory later
  rw [readAnswer, if_pos (by omega)]
  simp only [arrived, total]
  exact ⟨_, rfl, Function.update_self ..⟩

end Reply

/-- The condition is enough. -/
theorem inSync_of_fits {text : Chars} {serverMsgSize : Int} {answer : Answer}
    (positive : 1 ≤ serverMsgSize) (short : text.length ≤ 1022)
    (fits : answer.msg.length < serverMsgSize) : InSync request text serverMsgSize answer := by
  intro buf memory code outgoing later
  rw [request_eq, readAnswer_short memory later _ positive rfl fits]
  have kept : answer.msg.take (serverMsgSize.toNat - 1) = answer.msg :=
    List.take_of_length_le (by omega)
  refine ⟨rfl, rfl, ?_, rfl, _, rfl, ?_, ?_⟩
  · exact congrArg (outgoing ++ ·) (vsnprintf_written buf short)
  · rw [kept, Nat.min_eq_left (by omega), ← List.length_singleton (a := (0 : UInt8)),
      ← List.length_append]
    exact Memory.slice_store memory 0 _
  · intro address behind
    apply Memory.store_outside
    rw [List.length_append, List.length_singleton]
    omega

/-- The condition is necessary. -/
theorem fits_of_inSync {text : Chars} {serverMsgSize : Int} {answer : Answer}
    (positive : 1 ≤ serverMsgSize) (inSync : InSync request text serverMsgSize answer) :
    text.length ≤ 1022 ∧ answer.msg.length < serverMsgSize := by
  constructor
  · apply (vsnprintf_written_iff text).mp
    intro buf
    have sent := (inSync buf (fun _ => 0) 0 [] []).outgoing
    rw [request_eq] at sent
    exact List.append_cancel_left ((readAnswer_outgoing _ _ _).symm.trans sent)
  · by_contra long
    obtain ⟨after, isAfter, _, unchanged⟩ := (inSync (fun _ => 0) (fun _ => 1) 0 [] []).serverMsg
    rw [request_eq] at isAfter
    obtain ⟨stored, isStored, isZero⟩ := readAnswer_long (fun _ => 1) []
      { incoming := answer.msg ++ [0], outgoing := [] ++ sentCommand (fun _ => 0) text } positive rfl
      (by omega : serverMsgSize ≤ answer.msg.length)
    have same : after = stored := Option.some.inj (isAfter.symm.trans isStored)
    rw [← same, unchanged _ (by omega)] at isZero
    exact absurd isZero (by decide)

/-- A request keeps its promise exactly if the command has at most 1022 bytes and the
message is shorter than the buffer for it. -/
theorem request_inSync_iff (text : Chars) (serverMsgSize : Int) (answer : Answer)
    (positive : 1 ≤ serverMsgSize) :
    (InSync NetConnection.request text serverMsgSize answer ↔
        text.length ≤ 1022 ∧ answer.msg.length < serverMsgSize) ∧
      (InSync SecureConnection.request text serverMsgSize answer ↔
        text.length ≤ 1022 ∧ answer.msg.length < serverMsgSize) := by
  have both : InSync request text serverMsgSize answer ↔
      text.length ≤ 1022 ∧ answer.msg.length < serverMsgSize :=
    ⟨fits_of_inSync positive, fun fits => inSync_of_fits positive fits.1 fits.2⟩
  exact ⟨both, both⟩

/-- The message `ok` and a buffer of three bytes. -/
def okAnswer : Answer where
  code := 200
  msg := [111, 107]
  noZero := by decide

theorem request_inSync_ok :
    InSync NetConnection.request [108, 115] 3 okAnswer ∧
      InSync SecureConnection.request [108, 115] 3 okAnswer := by
  have both := request_inSync_iff [108, 115] 3 okAnswer (by decide)
  exact ⟨both.1.mpr (by decide), both.2.mpr (by decide)⟩

/-- With a buffer of two bytes the answer to the next request is dropped, and the byte
behind the buffer is written. -/
theorem request_boundary :
    (NetConnection.request { incoming := okAnswer.bytes ++ okAnswer.bytes, outgoing := [] }
        (fun _ => 7) (some 0) (some fun _ => 1) 2 (some [108, 115])).stream.incoming = [] ∧
      ¬InSync NetConnection.request [108, 115] 2 okAnswer ∧
      ¬InSync SecureConnection.request [108, 115] 2 okAnswer := by
  have dropped : (request { incoming := okAnswer.bytes ++ okAnswer.bytes, outgoing := [] }
      (fun _ => 7) (some 0) (some fun _ => 1) 2 (some [108, 115])).stream.incoming = [] := by
    decide
  have outOfSync : ¬InSync request [108, 115] 2 okAnswer := by
    intro inSync
    have read := (inSync (fun _ => 7) (fun _ => 1) 0 [] okAnswer.bytes).incoming
    rw [dropped] at read
    exact absurd read (by decide)
  exact ⟨dropped, outOfSync, outOfSync⟩

/-! ## Several requests -/

/-- A command, the size of the buffer and the answer of the server. -/
structure Exchange where
  text : Chars
  serverMsgSize : Int
  answer : Answer

/-- Requests that are made one after the other on a connection. -/
def runRequests (buf memory : Memory UInt8) : List Exchange → ByteStream → List Reply × ByteStream
  | [], stream => ([], stream)
  | exchange :: rest, stream =>
      let reply := request stream buf (some 0) (some memory) exchange.serverMsgSize (some exchange.text)
      let (replies, stream) := runRequests buf memory rest reply.stream
      (reply :: replies, stream)

/-- As long as commands and messages fit, each request gets its own answer. -/
theorem runRequests_inSync (buf memory : Memory UInt8) {exchanges : List Exchange}
    (fit : ∀ exchange ∈ exchanges, 1 ≤ exchange.serverMsgSize ∧ exchange.text.length ≤ 1022 ∧
      exchange.answer.msg.length < exchange.serverMsgSize) (outgoing later : Chars) :
    List.Forall₂
        (fun exchange reply => ∃ outgoing later, Exchanged exchange.text exchange.serverMsgSize
          exchange.answer memory outgoing later reply)
        exchanges
        (runRequests buf memory exchanges
          { incoming := exchanges.flatMap (·.answer.bytes) ++ later, outgoing := outgoing }).1 ∧
      (runRequests buf memory exchanges
          { incoming := exchanges.flatMap (·.answer.bytes) ++ later, outgoing := outgoing }).2 =
        { incoming := later, outgoing := outgoing ++ exchanges.flatMap (·.text ++ [0]) } := by
  induction exchanges generalizing outgoing with
  | nil => exact ⟨.nil, by simp [runRequests]⟩
  | cons exchange rest ih =>
      obtain ⟨positive, short, fits⟩ := fit exchange List.mem_cons_self
      have exchanged := inSync_of_fits positive short fits buf memory 0 outgoing
        (rest.flatMap (·.answer.bytes) ++ later)
      obtain ⟨replies, final⟩ := ih (fun other member => fit other (List.mem_cons_of_mem _ member))
        (outgoing ++ (exchange.text ++ [0]))
      rw [List.flatMap_cons, List.flatMap_cons, List.append_assoc, runRequests]
      have behind : ∀ stream : ByteStream, stream.incoming = rest.flatMap (·.answer.bytes) ++ later →
          stream.outgoing = outgoing ++ (exchange.text ++ [0]) → stream =
            { incoming := rest.flatMap (·.answer.bytes) ++ later,
              outgoing := outgoing ++ (exchange.text ++ [0]) } := by
        rintro ⟨incoming, outgoing⟩ rfl rfl
        rfl
      simp only [behind _ exchanged.incoming exchanged.outgoing]
      exact ⟨.cons ⟨_, _, exchanged⟩ replies, by rw [final, List.append_assoc]⟩

end Tegenaria.LibNet
