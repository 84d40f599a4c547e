import Tegenaria.LibSftp.FileRead

/-!
# Writing to a remote file

`SftpClient::write` sends the caller's buffer in pieces, none larger than the sector
size.  Every piece travels in a packet of its own with the offset at which it belongs,
and the next one is sent when the server has reported success.

The call and the server form one system.  In every round the server takes the request
apart, applies it to its file or refuses it, and answers with a status.
-/

namespace Tegenaria.LibSftp

open Foundation
open Foundation.Bytes
open Foundation.Word
open LibStr

/-! ## The loop of the source -/

/-- What `write` is called with, apart from the offset; `bytesToWrite` is the length of
the buffer. -/
structure WriteArguments (Time : Type) where
  handle : Int
  buffer : List UInt8
  buffer_length_lt : buffer.length < 2 ^ 31
  sectorSize : SectorSize
  partialWriteThreshold : Time

/-- Variables of `write`.  `position` tells how far the pointer to the buffer was moved. -/
structure WriteCall (Time : Type) where
  position : Nat
  offset : UInt64
  written : Int
  elapsedTotal : Time
  dead : Bool
  result : Option Int

namespace WriteCall

variable {Time : Type} [Zero Time] [Add Time] [LT Time] [DecidableLT Time]

/-- The state at the entry of the loop. -/
def start (offset : UInt64) : WriteCall Time where
  position := 0
  offset
  written := 0
  elapsedTotal := 0
  dead := false
  result := none

/-- `min(bytesToWrite - written, sectorSize_)` -/
def pieceSize (arguments : WriteArguments Time) (call : WriteCall Time) : Int :=
  min (toI32 (arguments.buffer.length - call.written)) arguments.sectorSize.bytes

/-- The request of the next round. -/
def request (arguments : WriteArguments Time) (call : WriteCall Time) (id : UInt32) :
    Option (List UInt8) :=
  writePacket id arguments.handle (arguments.buffer.drop call.position) call.offset
    (call.pieceSize arguments).toNat

/-- Leave through the error handler. -/
def fail (call : WriteCall Time) : WriteCall Time := { call with result := some (-1) }

/-- Leave through the error handler after a shutdown. -/
def failDead (call : WriteCall Time) : WriteCall Time := { call.fail with dead := true }

/-- The code behind the checks of the answer. -/
def advance (arguments : WriteArguments Time) (call : WriteCall Time) (elapsed : Time) :
    WriteCall Time :=
  let pieceSize := call.pieceSize arguments
  let written := toI32 (call.written + pieceSize)
  let elapsedTotal := call.elapsedTotal + elapsed
  { call with
    position := call.position + pieceSize.toNat
    offset := call.offset + UInt64.ofNat pieceSize.toNat
    written
    elapsedTotal
    result :=
      if arguments.partialWriteThreshold < elapsedTotal ∨ written ≥ arguments.buffer.length then
        some written
      else none }

def checkAnswer (arguments : WriteArguments Time) (call : WriteCall Time) (id : UInt32)
    (elapsed : Time) : Option ((Head × Nat) × List UInt8) → WriteCall Time
  | none => call.fail
  | some ((head, serverStatus), _) =>
      if head.id ≠ id.toNat then call.failDead
      else if head.type ≠ fxpStatus then call.failDead
      else if serverStatus ≠ fxOk then call.fail
      else call.advance arguments elapsed

/-- The loop body behind `processPacket`. -/
def receive (arguments : WriteArguments Time) (call : WriteCall Time) (id : UInt32)
    (elapsed : Time) : Option (List UInt8) → WriteCall Time
  | none => call.failDead
  | some answer => call.checkAnswer arguments id elapsed (popStatus.run answer)

end WriteCall

/-! ## The server -/

/-- The file with some bytes written at an offset.  A gap in front of them is filled
with zeros; nothing changes if there are no bytes. -/
def writeAt (content : List UInt8) (offset : Nat) (data : List UInt8) : List UInt8 :=
  if data = [] then content
  else (content ++ List.replicate (offset - content.length) 0).take offset ++ data ++
    content.drop (offset + data.length)

/-- A request to write, as a server takes it apart. -/
structure WriteRequest where
  id : Nat
  offset : Nat
  data : List UInt8
  deriving DecidableEq

/-- The packet holds a handle of four bytes and as much data as it says. -/
def AsksWrite (packet : List UInt8) : Prop :=
  packet.length = 29 + dwordAt 25 packet ∧ dwordAt 0 packet = 25 + dwordAt 25 packet ∧
    byteAt 4 packet = fxpWrite ∧ dwordAt 9 packet = 4

instance (packet : List UInt8) : Decidable (AsksWrite packet) :=
  inferInstanceAs (Decidable (_ ∧ _))

def writeRequest (packet : List UInt8) : Option WriteRequest :=
  if AsksWrite packet then some ⟨dwordAt 5 packet, qwordAt 17 packet, packet.drop 29⟩ else none

/-- A server accepts a request, or refuses it with an error code. -/
inductive Verdict where
  | accept
  | refuse (code : UInt32) (error : code.toNat ≠ fxOk)

namespace Verdict

def code : Verdict → Nat
  | .accept => fxOk
  | .refuse code _ => code.toNat

def apply (content : List UInt8) (asked : WriteRequest) : Verdict → List UInt8
  | .accept => writeAt content asked.offset asked.data
  | .refuse .. => content

end Verdict

/-- One round: the id of the request, the decision of the server, the texts behind the
status code, and the time that the round takes. -/
structure WriteRound (Time : Type) where
  id : UInt32
  verdict : Verdict
  texts : List UInt8
  texts_short : 13 + texts.length ≤ 1024 * 64
  elapsed : Time

/-- The call and the file of the server. -/
structure WriteSystem (Time : Type) where
  call : WriteCall Time
  content : List UInt8

namespace WriteSystem

variable {Time : Type} [Add Time] [LT Time] [DecidableLT Time]

/-- The server serves a request that it understands. -/
def serve (arguments : WriteArguments Time) (system : WriteSystem Time)
    (round : WriteRound Time) : Option WriteRequest → WriteSystem Time
  | none => { system with call := system.call.receive arguments round.id round.elapsed none }
  | some asked =>
      { call := system.call.receive arguments round.id round.elapsed
          (some (statusAnswer asked.id round.verdict.code round.texts))
        content := round.verdict.apply system.content asked }

/-- `processPacket` keeps the length of the packet in an `int`.  A packet that is longer
than the `int` can tell is not sent. -/
def exchange (arguments : WriteArguments Time) (system : WriteSystem Time)
    (round : WriteRound Time) : Option (List UInt8) → WriteSystem Time
  | none => { system with call := system.call.receive arguments round.id round.elapsed none }
  | some packet =>
      if toI32 packet.length < 0 then
        { system with call := system.call.receive arguments round.id round.elapsed none }
      else
        system.serve arguments round (writeRequest packet)

/-- One pass through the loop. -/
def round (arguments : WriteArguments Time) (system : WriteSystem Time)
    (round : WriteRound Time) : WriteSystem Time :=
  system.exchange arguments round (system.call.request arguments round.id)

/-- The system after a number of rounds, or where the call has returned before. -/
def after (arguments : WriteArguments Time) (start : WriteSystem Time)
    (rounds : Nat → WriteRound Time) : Nat → WriteSystem Time
  | 0 => start
  | count + 1 =>
      let system := after arguments start rounds count
      if system.call.result.isSome then system else system.round arguments (rounds count)

/-- The call returns after a number of rounds.  If all requests were accepted, the file
has the first bytes of the buffer, as many as the call returns: all of them, unless the
time was over.  If one was refused, the call fails, and the file has the bytes that were
accepted before. -/
def WritesRight (arguments : WriteArguments Time) (start : WriteSystem Time)
    (rounds : Nat → WriteRound Time) : Prop :=
  ∃ (count : Nat) (value : Int),
    (∀ index < count, (after arguments start rounds index).call.result = none) ∧
    (after arguments start rounds count).call.result = some value ∧
    ((∀ index < count, (rounds index).verdict = .accept) →
      ∃ total : Nat, value = total ∧ total ≤ arguments.buffer.length ∧
        (after arguments start rounds count).content =
          writeAt start.content start.call.offset.toNat (arguments.buffer.take total) ∧
        (total = arguments.buffer.length ∨ arguments.partialWriteThreshold <
          (after arguments start rounds count).call.elapsedTotal)) ∧
    ((∃ index < count, (rounds index).verdict ≠ .accept) →
      value = -1 ∧
        (after arguments start rounds count).call.position ≤ arguments.buffer.length ∧
        (after arguments start rounds count).content =
          writeAt start.content start.call.offset.toNat
            (arguments.buffer.take (after arguments start rounds count).call.position))

end WriteSystem

/-! ## Files -/

/-- The part of the file in front of an offset. -/
theorem front_length (content : List UInt8) (offset : Nat) :
    ((content ++ List.replicate (offset - content.length) 0).take offset).length = offset := by
  rw [List.length_take, List.length_append, List.length_replicate]
  omega

/-- Writing two pieces in a row is writing them at once. -/
theorem writeAt_append (content : List UInt8) (offset : Nat) (first second : List UInt8) :
    writeAt (writeAt content offset first) (offset + first.length) second =
      writeAt content offset (first ++ second) := by
  by_cases noFirst : first = []
  · have unchanged : writeAt content offset [] = content := if_pos rfl
    rw [noFirst, unchanged]
    rfl
  by_cases noSecond : second = []
  · rw [noSecond, writeAt, if_pos rfl, List.append_nil]
  have some_bytes : first ++ second ≠ [] := by simp [noFirst]
  have front := front_length content offset
  rw [writeAt, if_neg noSecond, writeAt, if_neg noFirst, writeAt, if_neg some_bytes]
  generalize (content ++ List.replicate (offset - content.length) 0).take offset = before at front
  have length : (before ++ first).length = offset + first.length := by
    rw [List.length_append, front]
  have taken : (before ++ first ++ content.drop (offset + first.length) ++
      List.replicate (offset + first.length -
        (before ++ first ++ content.drop (offset + first.length)).length) 0).take
        (offset + first.length) = before ++ first := by
    rw [List.append_assoc (before ++ first), List.take_append_of_le_length (by omega),
      List.take_of_length_le (by omega)]
  have dropped : (before ++ first ++ content.drop (offset + first.length)).drop
      (offset + first.length + second.length) =
      content.drop (offset + (first ++ second).length) := by
    rw [List.drop_append, length, List.drop_of_length_le (by omega), List.nil_append,
      List.drop_drop, List.length_append]
    congr 1
    omega
  rw [taken, dropped, List.append_assoc before]

/-! ## Packets -/

/-- The fields in front of the data. -/
theorem writePacket_eq (id : UInt32) (handle : Int) (buffer : List UInt8) (offset : UInt64)
    (pieceSize : Nat) :
    writePacket id handle buffer offset pieceSize =
      some (bigEndian 4 (25 + pieceSize) ++ (fxpWrite :: (bigEndian 4 id.toNat ++ (bigEndian 4 4 ++
        (bigEndian 4 (toU32 handle) ++ (bigEndian 8 offset.toNat ++ (bigEndian 4 pieceSize ++
          buffer.take pieceSize))))))) := by
  generalize head : [Field.dword (25 + pieceSize), .byte fxpWrite, .dword id.toNat, .dword 4,
    .dword (toU32 handle), .qword offset.toNat, .dword pieceSize] = fields
  have position : (fields.flatMap Field.bytes).length = 29 := by simp [← head, Field.bytes]
  have pushed : pushFields fields = some (fields.flatMap Field.bytes) :=
    pushFields_short (by simp [← head, Field.Whole]) (by omega)
  have room := Operation.resizeCopy_end (fields.flatMap Field.bytes) buffer pieceSize
  rw [position] at room
  rw [writePacket, head, pushed, Option.map_some, room, ← head]
  simp [Field.bytes]

/-- The packet is what a server understands as a request to write. -/
theorem writePacket_asks (id : UInt32) (handle : Int) {buffer : List UInt8} (offset : UInt64)
    {pieceSize : Nat} (enough : pieceSize ≤ buffer.length) (small : pieceSize < 2 ^ 31) :
    ∃ packet, writePacket id handle buffer offset pieceSize = some packet ∧
      packet.length = 29 + pieceSize ∧
      writeRequest packet = some ⟨id.toNat, offset.toNat, buffer.take pieceSize⟩ := by
  refine ⟨_, writePacket_eq id handle buffer offset pieceSize, by simp [enough]; omega, ?_⟩
  generalize isData : buffer.take pieceSize = data
  have length : data.length = pieceSize := by
    rw [← isData, List.length_take, Nat.min_eq_left enough]
  have size := @dwordAt_append [] (fxpWrite :: (bigEndian 4 id.toNat ++ (bigEndian 4 4 ++
    (bigEndian 4 (toU32 handle) ++ (bigEndian 8 offset.toNat ++ (bigEndian 4 pieceSize ++ data))))))
    0 (25 + pieceSize) (by omega) rfl
  have idField := @dwordAt_append (bigEndian 4 (25 + pieceSize) ++ [fxpWrite])
    (bigEndian 4 4 ++ (bigEndian 4 (toU32 handle) ++ (bigEndian 8 offset.toNat ++
      (bigEndian 4 pieceSize ++ data)))) 5 id.toNat id.toNat_lt (by simp)
  have handleLen := @dwordAt_append (bigEndian 4 (25 + pieceSize) ++ (fxpWrite :: bigEndian 4 id.toNat))
    (bigEndian 4 (toU32 handle) ++ (bigEndian 8 offset.toNat ++ (bigEndian 4 pieceSize ++ data)))
    9 4 (by decide) (by simp)
  have offsetField := @qwordAt_append (bigEndian 4 (25 + pieceSize) ++ (fxpWrite ::
    (bigEndian 4 id.toNat ++ (bigEndian 4 4 ++ bigEndian 4 (toU32 handle)))))
    (bigEndian 4 pieceSize ++ data) 17 offset.toNat offset.toNat_lt (by simp)
  have count := @dwordAt_append (bigEndian 4 (25 + pieceSize) ++ (fxpWrite ::
    (bigEndian 4 id.toNat ++ (bigEndian 4 4 ++ (bigEndian 4 (toU32 handle) ++
      bigEndian 8 offset.toNat))))) data 25 pieceSize (by omega) (by simp)
  simp only [List.append_assoc, List.cons_append, List.nil_append] at size idField handleLen
  simp only [List.append_assoc, List.cons_append] at offsetField count
  generalize isPacket : bigEndian 4 (25 + pieceSize) ++ (fxpWrite :: (bigEndian 4 id.toNat ++
    (bigEndian 4 4 ++ (bigEndian 4 (toU32 handle) ++ (bigEndian 8 offset.toNat ++
      (bigEndian 4 pieceSize ++ data)))))) = packet at size idField handleLen offsetField count ⊢
  have rest : packet.drop 29 = data := by
    have dropped := @List.drop_left _ (bigEndian 4 (25 + pieceSize) ++ (fxpWrite ::
      (bigEndian 4 id.toNat ++ (bigEndian 4 4 ++ (bigEndian 4 (toU32 handle) ++
        (bigEndian 8 offset.toNat ++ bigEndian 4 pieceSize)))))) data
    simpa [← isPacket] using dropped
  have asks : AsksWrite packet := by
    refine ⟨?_, by rw [size, count], ?_, handleLen⟩
    · rw [count, ← isPacket]
      simp [length]
      omega
    · rw [← isPacket]
      rfl
  rw [writeRequest, if_pos asks, idField, offsetField, rest]

/-- The fields of a status packet come back. -/
theorem popStatus_statusAnswer (id : UInt32) {code : Nat} (codeSmall : code < 2 ^ 32)
    {texts : List UInt8} (short : 13 + texts.length < 2 ^ 31) :
    popStatus.run (statusAnswer id.toNat code texts) =
      some ((⟨9 + texts.length, fxpStatus, id.toNat⟩, code), texts) := by
  have reads : Decoder.Reads (2 ^ 31) popStatus
      (bigEndian 4 (9 + texts.length) ++ ([fxpStatus] ++ bigEndian 4 id.toNat) ++ bigEndian 4 code)
      (⟨9 + texts.length, fxpStatus, id.toNat⟩, code) :=
    (popHead_reads (by omega) id.toNat_lt).bind (popDword_reads codeSmall).map
  have ran := reads texts (by simp; omega)
  rwa [List.append_assoc] at ran

/-! ## The loop -/

section Loop

variable {Time : Type} [Add Time] [LT Time] [DecidableLT Time]
variable {arguments : WriteArguments Time} {start : WriteSystem Time}
variable {rounds : Nat → WriteRound Time} {count total : Nat}

theorem Verdict.code_lt (verdict : Verdict) : verdict.code < 2 ^ 32 := by
  cases verdict with
  | accept => decide
  | refuse code _ => exact code.toNat_lt

/-- What the status does to the call. -/
theorem WriteCall.receive_verdict (call : WriteCall Time) (round : WriteRound Time) :
    call.receive arguments round.id round.elapsed
        (some (statusAnswer round.id.toNat round.verdict.code round.texts)) =
      if round.verdict.code = fxOk then call.advance arguments round.elapsed else call.fail := by
  have short := round.texts_short
  have unfolded : call.receive arguments round.id round.elapsed
      (some (statusAnswer round.id.toNat round.verdict.code round.texts)) =
      call.checkAnswer arguments round.id round.elapsed
        (popStatus.run (statusAnswer round.id.toNat round.verdict.code round.texts)) := rfl
  rw [unfolded, popStatus_statusAnswer round.id round.verdict.code_lt (by omega),
    WriteCall.checkAnswer, if_neg (not_not_intro rfl), if_neg (not_not_intro rfl)]
  by_cases ok : round.verdict.code = fxOk
  · rw [if_neg (not_not_intro ok), if_pos ok]
  · rw [if_pos ok, if_neg ok]

namespace WriteSystem

theorem after_succ (running : (after arguments start rounds count).call.result = none) :
    after arguments start rounds (count + 1) =
      (after arguments start rounds count).round arguments (rounds count) := by
  have unreturned : ¬(after arguments start rounds count).call.result.isSome = true := by
    simp [running]
  rw [after, if_neg unreturned]

/-- The first bytes of the buffer were accepted, and the call goes on. -/
structure Underway (arguments : WriteArguments Time) (start : WriteSystem Time)
    (rounds : Nat → WriteRound Time) (count total : Nat) : Prop where
  running : ∀ index ≤ count, (after arguments start rounds index).call.result = none
  accepted : ∀ index < count, (rounds index).verdict = .accept
  position : (after arguments start rounds count).call.position = total
  written : (after arguments start rounds count).call.written = total
  unfinished : total = 0 ∨ total < arguments.buffer.length
  offset : (after arguments start rounds count).call.offset.toNat = start.call.offset.toNat + total
  stored : (after arguments start rounds count).content =
    writeAt start.content start.call.offset.toNat (arguments.buffer.take total)

/-- The size of the next piece. -/
def nextPiece (arguments : WriteArguments Time) (total : Nat) : Nat :=
  min (arguments.buffer.length - total) arguments.sectorSize.bytes.toNat

theorem Underway.pieceSize (underway : Underway arguments start rounds count total) :
    (after arguments start rounds count).call.pieceSize arguments = nextPiece arguments total := by
  have bound := arguments.buffer_length_lt
  have large := arguments.sectorSize.large
  have unfinished := underway.unfinished
  rw [WriteCall.pieceSize, underway.written, toI32_of_fits (by omega) (by omega), nextPiece]
  omega

/-- A round in which the packet can be sent. -/
theorem Underway.round (underway : Underway arguments start rounds count total)
    (sendable : 29 + min arguments.buffer.length arguments.sectorSize.bytes.toNat < 2 ^ 31) :
    after arguments start rounds (count + 1) =
      { call :=
          if (rounds count).verdict.code = fxOk then
            (after arguments start rounds count).call.advance arguments (rounds count).elapsed
          else (after arguments start rounds count).call.fail
        content := (rounds count).verdict.apply (after arguments start rounds count).content
          ⟨(rounds count).id.toNat, start.call.offset.toNat + total,
            (arguments.buffer.drop total).take (nextPiece arguments total)⟩ } := by
  have enough : nextPiece arguments total ≤ (arguments.buffer.drop total).length := by
    rw [List.length_drop]
    exact Nat.min_le_left _ _
  have small : nextPiece arguments total ≤
      min arguments.buffer.length arguments.sectorSize.bytes.toNat := by
    rw [nextPiece]
    omega
  obtain ⟨packet, built, length, asked⟩ := writePacket_asks (rounds count).id arguments.handle
    (after arguments start rounds count).call.offset enough (by omega)
  have request : (after arguments start rounds count).call.request arguments (rounds count).id =
      some packet := by
    rw [WriteCall.request, underway.position, underway.pieceSize, Int.toNat_natCast, built]
  have sent : ¬toI32 packet.length < 0 := by
    rw [toI32_length (by omega)]
    omega
  rw [after_succ (underway.running count (Nat.le_refl _)), WriteSystem.round, request, exchange,
    if_neg sent, asked, serve, WriteCall.receive_verdict, underway.offset]

/-- A piece that is accepted brings the call further, or to its end. -/
theorem Underway.accept (underway : Underway arguments start rounds count total)
    (sendable : 29 + min arguments.buffer.length arguments.sectorSize.bytes.toNat < 2 ^ 31)
    (noWrap : start.call.offset.toNat + arguments.buffer.length ≤ 2 ^ 64)
    (accepts : (rounds count).verdict = .accept) :
    (∃ more, 0 < more ∧ Underway arguments start rounds (count + 1) (total + more)) ∨
      WritesRight arguments start rounds := by
  have next := underway.round sendable
  have ok : (rounds count).verdict.code = fxOk := by rw [accepts]; rfl
  rw [if_pos ok, accepts, Verdict.apply] at next
  have bound := arguments.buffer_length_lt
  have large := arguments.sectorSize.large
  have unfinished := underway.unfinished
  have running := underway.running
  have piece := underway.pieceSize
  have inside : total + nextPiece arguments total ≤ arguments.buffer.length := by
    rw [nextPiece]
    omega
  have all : ∀ index < count + 1, (rounds index).verdict = .accept := by
    intro index before
    rcases Nat.lt_succ_iff_lt_or_eq.mp before with earlier | rfl
    · exact underway.accepted index earlier
    · exact accepts
  have stored : (after arguments start rounds (count + 1)).content =
      writeAt start.content start.call.offset.toNat
        (arguments.buffer.take (total + nextPiece arguments total)) := by
    have front : (arguments.buffer.take total).length = total := by
      rw [List.length_take]
      omega
    have both := writeAt_append start.content start.call.offset.toNat (arguments.buffer.take total)
      ((arguments.buffer.drop total).take (nextPiece arguments total))
    rw [front, ← underway.stored, ← List.take_add] at both
    rw [next]
    exact both
  have written : toI32 ((after arguments start rounds count).call.written +
      (after arguments start rounds count).call.pieceSize arguments) =
      (total + nextPiece arguments total : Nat) := by
    rw [underway.written, piece, toI32_of_fits (by omega) (by omega)]
    omega
  have result := congrArg (fun system => system.call.result) next
  simp only [WriteCall.advance, written] at result
  have elapsed : (after arguments start rounds (count + 1)).call.elapsedTotal =
      (after arguments start rounds count).call.elapsedTotal + (rounds count).elapsed := by
    rw [next]
    rfl
  by_cases finished : arguments.partialWriteThreshold <
      (after arguments start rounds count).call.elapsedTotal + (rounds count).elapsed ∨
      ((total + nextPiece arguments total : Nat) : Int) ≥ arguments.buffer.length
  · rw [if_pos finished] at result
    refine Or.inr ⟨count + 1, _, fun index before => running index (by omega), result, ?_, ?_⟩
    · intro _
      refine ⟨total + nextPiece arguments total, rfl, inside, stored, ?_⟩
      rcases finished with late | whole
      · exact Or.inr (by rwa [elapsed])
      · exact Or.inl (by omega)
    · rintro ⟨index, before, refused⟩
      exact absurd (all index before) refused
  · rw [if_neg finished] at result
    rw [not_or] at finished
    have positive : 0 < nextPiece arguments total := by
      rw [nextPiece] at finished ⊢
      omega
    refine Or.inl ⟨nextPiece arguments total, positive, ?_⟩
    exact {
      running := fun index before => by
        rcases Nat.le_succ_iff.mp before with earlier | rfl
        · exact running index earlier
        · exact result
      accepted := all
      position := by
        rw [next]
        change (after arguments start rounds count).call.position +
          ((after arguments start rounds count).call.pieceSize arguments).toNat = _
        rw [underway.position, piece, Int.toNat_natCast]
      written := by
        rw [next]
        exact written
      unfinished := Or.inr (by omega)
      offset := by
        have small : nextPiece arguments total < 2 ^ 64 := by omega
        rw [next]
        change ((after arguments start rounds count).call.offset + UInt64.ofNat
          ((after arguments start rounds count).call.pieceSize arguments).toNat).toNat = _
        rw [piece, Int.toNat_natCast, UInt64.toNat_add, UInt64.toNat_ofNat_of_lt' small,
          underway.offset, Nat.mod_eq_of_lt (by omega)]
        omega
      stored }

/-- A piece that is refused ends the call. -/
theorem Underway.refuse (underway : Underway arguments start rounds count total)
    (sendable : 29 + min arguments.buffer.length arguments.sectorSize.bytes.toNat < 2 ^ 31)
    {code : UInt32} {error : code.toNat ≠ fxOk}
    (refuses : (rounds count).verdict = .refuse code error) :
    WritesRight arguments start rounds := by
  have next := underway.round sendable
  have bad : ¬(rounds count).verdict.code = fxOk := by rw [refuses]; exact error
  rw [if_neg bad, refuses, Verdict.apply] at next
  have unfinished := underway.unfinished
  refine ⟨count + 1, -1, fun index before => underway.running index (by omega), ?_, ?_, ?_⟩
  · rw [next]
    rfl
  · intro all
    cases (all count (Nat.lt_succ_self _)).symm.trans refuses
  · intro _
    have position : (after arguments start rounds (count + 1)).call.position = total := by
      rw [next]
      exact underway.position
    refine ⟨rfl, by omega, ?_⟩
    rw [position, next]
    exact underway.stored

/-- The rounds come to an end, since each of them writes some bytes. -/
theorem Underway.writesRight (underway : Underway arguments start rounds count total)
    (sendable : 29 + min arguments.buffer.length arguments.sectorSize.bytes.toNat < 2 ^ 31)
    (noWrap : start.call.offset.toNat + arguments.buffer.length ≤ 2 ^ 64) :
    WritesRight arguments start rounds := by
  generalize left : arguments.buffer.length - total = remaining
  induction remaining using Nat.strong_induction_on generalizing count total with
  | _ remaining ih =>
      cases verdict : (rounds count).verdict with
      | refuse code error => exact underway.refuse sendable verdict
      | accept =>
          rcases underway.accept sendable noWrap verdict with ⟨more, positive, further⟩ | done
          · have unfinished := further.unfinished
            exact ih _ (by omega) further rfl
          · exact done

variable [Zero Time]

theorem start_underway (arguments : WriteArguments Time) (offset : UInt64) (content : List UInt8)
    (rounds : Nat → WriteRound Time) :
    Underway arguments ⟨.start offset, content⟩ rounds 0 0 where
  running index before := by
    rw [Nat.le_zero.mp before]
    rfl
  accepted _ before := absurd before (Nat.not_lt_zero _)
  position := rfl
  written := rfl
  unfinished := Or.inl rfl
  offset := rfl
  stored := (if_pos (List.take_zero)).symm

/-- A packet that is too long for an `int` is not sent, and the call fails although the
server would accept it. -/
theorem unsendable_not_writesRight (arguments : WriteArguments Time) (offset : UInt64)
    (content : List UInt8)
    (large : 2 ^ 31 ≤ 29 + min arguments.buffer.length arguments.sectorSize.bytes.toNat) :
    ∃ rounds, ¬WritesRight arguments ⟨.start offset, content⟩ rounds := by
  obtain ⟨rounds, isRounds⟩ : ∃ rounds : Nat → WriteRound Time,
      rounds = fun _ => ⟨0, .accept, [], by decide, 0⟩ := ⟨_, rfl⟩
  have underway := start_underway arguments offset content rounds
  have bound := arguments.buffer_length_lt
  have piece : nextPiece arguments 0 = min arguments.buffer.length arguments.sectorSize.bytes.toNat := rfl
  obtain ⟨packet, built, length, _⟩ := @writePacket_asks (rounds 0).id arguments.handle
    arguments.buffer offset (nextPiece arguments 0) (by omega) (by omega)
  have request : (after arguments ⟨.start offset, content⟩ rounds 0).call.request arguments
      (rounds 0).id = some packet := by
    rw [WriteCall.request, underway.pieceSize, Int.toNat_natCast]
    exact built
  have unsent : toI32 packet.length < 0 := by
    rw [length]
    simp only [toI32]
    omega
  have failed : (after arguments ⟨.start offset, content⟩ rounds 1).call.result = some (-1) := by
    rw [after_succ (underway.running 0 (Nat.le_refl _)), WriteSystem.round, request, exchange,
      if_pos unsent]
    rfl
  refine ⟨rounds, ?_⟩
  rintro ⟨count, value, running, returned, accepted, _⟩
  rcases Nat.lt_trichotomy count 1 with none | one | more
  · rw [Nat.lt_one_iff.mp none, underway.running 0 (Nat.le_refl _)] at returned
    cases returned
  · obtain ⟨total, isTotal, _⟩ := accepted fun index _ => by rw [isRounds]
    rw [one, failed, Option.some.injEq] at returned
    omega
  · rw [running 1 more] at failed
    cases failed

/-- The buffer is delivered to every server exactly when the largest packet is shorter
than `2 ^ 31` bytes. -/
theorem write_delivers_iff (arguments : WriteArguments Time) (offset : UInt64)
    (content : List UInt8) (noWrap : offset.toNat + arguments.buffer.length ≤ 2 ^ 64) :
    (∀ rounds, WritesRight arguments ⟨.start offset, content⟩ rounds) ↔
      29 + min arguments.buffer.length arguments.sectorSize.bytes.toNat < 2 ^ 31 := by
  constructor
  · intro right
    by_contra large
    obtain ⟨rounds, wrong⟩ :=
      unsendable_not_writesRight arguments offset content (Nat.le_of_not_lt large)
    exact wrong (right rounds)
  · intro sendable rounds
    exact (start_underway arguments offset content rounds).writesRight sendable noWrap

/-- Three bytes are written behind the end of a file. -/
theorem write_delivers_shortBuffer :
    (5 : UInt64).toNat + 3 ≤ 2 ^ 64 ∧ ∀ rounds : Nat → WriteRound Nat,
      WritesRight ⟨0, [7, 8, 9], by decide, .initial, 10000⟩ ⟨.start 5, [1, 2]⟩ rounds :=
  ⟨by decide, (write_delivers_iff _ _ _ (by decide)).mpr (by decide)⟩

/-- A buffer of `2 ^ 31 - 1` bytes. -/
def hugeBuffer : WriteArguments Nat :=
  ⟨0, List.replicate (2 ^ 31 - 1) 0, by rw [List.length_replicate]; decide,
    SectorSize.initial.setSectorSize (2 ^ 31 - 1), 10000⟩

/-- The largest buffer cannot be written in one sector. -/
theorem write_hugeBuffer_fails :
    ¬∀ rounds, WritesRight hugeBuffer ⟨.start 0, []⟩ rounds := by
  intro right
  have length : hugeBuffer.buffer.length = 2 ^ 31 - 1 := List.length_replicate
  have sector : hugeBuffer.sectorSize.bytes.toNat = 2 ^ 31 - 1 := by decide
  obtain ⟨rounds, wrong⟩ := unsendable_not_writesRight hugeBuffer 0 [] (by
    rw [length, sector]
    decide)
  exact wrong (right rounds)

end WriteSystem

end Loop

end Tegenaria.LibSftp
