import Tegenaria.LibSftp.Answers
import Tegenaria.LibSftp.HostileStream

/-!
# Reading from a remote file

`SftpClient::read` asks for one piece after another, none larger than the sector size,
until it has what the caller wants, the server reports the end of the file or the
reading has taken too long.  Each answer may carry fewer bytes than were asked for.

The loop is a function of the answers, one for each round.  Times are measured in a
type of which only addition and comparison are known.
-/

namespace Tegenaria.LibSftp

open Foundation
open Foundation.Bytes
open Foundation.Word
open LibStr

/-! ## Sector sizes -/

/-- `sectorSize_`, which only `setSectorSize` changes. -/
structure SectorSize where
  bytes : Int
  large : 256 < bytes
  fits : bytes < 2 ^ 31

namespace SectorSize

/-- `SFTP_DEFAULT_SECTOR_SIZE` -/
def initial : SectorSize := ⟨1024 * 32, by decide, by decide⟩

/-- `SftpClient::setSectorSize` -/
def setSectorSize (current : SectorSize) (size : Int32) : SectorSize :=
  if small : size.toInt ≤ 256 then current
  else ⟨size.toInt, by omega, Int32.toInt_lt size⟩

end SectorSize

/-! ## The loop of the source -/

/-- What `read` is called with, apart from the buffer and the offset. -/
structure ReadArguments (Time : Type) where
  handle : Int
  bytesToRead : Int
  bytesToRead_lower : -2 ^ 31 ≤ bytesToRead
  bytesToRead_upper : bytesToRead < 2 ^ 31
  sectorSize : SectorSize
  partialReadThreshold : Time

/-- One pass through the loop: the id of its request, the answer, if `processPacket`
does not fail, and the time that it took. -/
structure ReadRound (Time : Type) where
  id : UInt32
  reply : Option (List UInt8)
  elapsed : Time

/-- Variables of `read`.  `position` tells how far the pointer to the caller's memory was
moved; the call has returned when there is a result. -/
structure ReadCall (Time : Type) where
  memory : Memory UInt8
  position : Nat
  offset : UInt64
  readed : Int
  elapsedTotal : Time
  dead : Bool
  result : Option Int

namespace ReadCall

variable {Time : Type} [Zero Time] [Add Time] [LT Time] [DecidableLT Time]

/-- The state at the entry of the loop. -/
def start (dead : Bool) (memory : Memory UInt8) (offset : UInt64) : ReadCall Time where
  memory
  position := 0
  offset
  readed := 0
  elapsedTotal := 0
  dead
  result := if dead then some (-1) else none

/-- `min(bytesToRead - readed, sectorSize_)` -/
def pieceSize (arguments : ReadArguments Time) (call : ReadCall Time) : Int :=
  min (toI32 (arguments.bytesToRead - call.readed)) arguments.sectorSize.bytes

/-- The request of the next round. -/
def request (arguments : ReadArguments Time) (call : ReadCall Time) (id : UInt32) :
    Option (List UInt8) :=
  readPacket id arguments.handle call.offset (toU32 (call.pieceSize arguments))

/-- Leave through the error handler. -/
def fail (call : ReadCall Time) : ReadCall Time := { call with result := some (-1) }

/-- Leave through the error handler after a shutdown. -/
def failDead (call : ReadCall Time) : ReadCall Time := { call.fail with dead := true }

/-- The end of the loop body. -/
def endRound (arguments : ReadArguments Time) (call : ReadCall Time) (goOn : Bool)
    (elapsed : Time) : ReadCall Time :=
  let elapsedTotal := call.elapsedTotal + elapsed
  { call with
    elapsedTotal
    result :=
      if goOn = false ∨ arguments.partialReadThreshold < elapsedTotal then some call.readed
      else none }

/-- Put received data into the caller's buffer. -/
def store (call : ReadCall Time) (data : List UInt8) (len : Nat) : ReadCall Time :=
  { call with
    memory := call.memory.copy call.position (Memory.ofList 0 data) 0 len
    position := call.position + len
    offset := call.offset + UInt64.ofNat len
    readed := toI32 (call.readed + len) }

def checkData (arguments : ReadArguments Time) (call : ReadCall Time) (elapsed : Time) :
    Option (Nat × List UInt8) → ReadCall Time
  | none => call.fail
  | some (len, packet) =>
      if packet.length < len then call.failDead
      else
        let stored := call.store packet len
        stored.endRound arguments (stored.readed ≠ arguments.bytesToRead) elapsed

def checkEof (arguments : ReadArguments Time) (call : ReadCall Time) (elapsed : Time) :
    Option (Nat × List UInt8) → ReadCall Time
  | none => call.fail
  | some (serverStatus, _) =>
      if serverStatus ≠ fxEof then call.fail else call.endRound arguments false elapsed

def checkHead (arguments : ReadArguments Time) (call : ReadCall Time) (id : UInt32)
    (elapsed : Time) : Option (Head × List UInt8) → ReadCall Time
  | none => call.fail
  | some (head, packet) =>
      if head.id ≠ id.toNat then call.failDead
      else if head.type = fxpData then call.checkData arguments elapsed (popDword.run packet)
      else if head.type = fxpStatus then call.checkEof arguments elapsed (popDword.run packet)
      else call.failDead

/-- One pass through the loop. -/
def round (arguments : ReadArguments Time) (call : ReadCall Time) (round : ReadRound Time) :
    ReadCall Time :=
  match round.reply with
  | none => call.failDead
  | some answer => call.checkHead arguments round.id round.elapsed (popHead.run answer)

/-- The call after a number of rounds, or where it has returned before. -/
def after (arguments : ReadArguments Time) (start : ReadCall Time)
    (rounds : Nat → ReadRound Time) : Nat → ReadCall Time
  | 0 => start
  | count + 1 =>
      let call := after arguments start rounds count
      if call.result.isSome then call else call.round arguments (rounds count)

end ReadCall

/-! ## What a round does -/

/-- A data packet for the request that is as long as its data needs. -/
def CarriesData (id : UInt32) (answer : List UInt8) : Prop :=
  13 + dwordAt 9 answer ≤ toI32 answer.length ∧ byteAt 4 answer = fxpData ∧
    dwordAt 5 answer = id.toNat

instance (id : UInt32) (answer : List UInt8) : Decidable (CarriesData id answer) :=
  inferInstanceAs (Decidable (_ ∧ _))

/-- The length of the data that is taken from a reply. -/
def dataLength (id : UInt32) (reply : Option (List UInt8)) : Option Nat :=
  reply.bind fun answer => if CarriesData id answer then some (dwordAt 9 answer) else none

theorem dataLength_carries {id : UInt32} {answer : List UInt8} (carries : CarriesData id answer) :
    dataLength id (some answer) = some (dwordAt 9 answer) := by
  rw [dataLength, Option.bind_some, if_pos carries]

theorem dataLength_eq_none {id : UInt32} {answer : List UInt8} (nothing : ¬CarriesData id answer) :
    dataLength id (some answer) = none := by
  rw [dataLength, Option.bind_some, if_neg nothing]

namespace ReadCall

section Failing

variable {Time : Type}

/-- The round ends the call without data: it fails, or the end of the file is
reached. -/
def Ends (call next : ReadCall Time) : Prop :=
  next.position = call.position ∧ next.readed = call.readed ∧
    (next.result = some (-1) ∨ next.result = some call.readed)

theorem fail_ends (call : ReadCall Time) : call.Ends call.fail :=
  ⟨rfl, rfl, Or.inl rfl⟩

theorem failDead_ends (call : ReadCall Time) : call.Ends call.failDead :=
  ⟨rfl, rfl, Or.inl rfl⟩

end Failing

variable {Time : Type} [Add Time] [LT Time] [DecidableLT Time]
variable {arguments : ReadArguments Time} {call : ReadCall Time}

/-- Data arrived. -/
def accept (arguments : ReadArguments Time) (call : ReadCall Time) (data : List UInt8) (len : Nat)
    (elapsed : Time) : ReadCall Time :=
  (call.store data len).endRound arguments
    ((call.store data len).readed ≠ arguments.bytesToRead) elapsed

theorem checkEof_ends (call : ReadCall Time) (elapsed : Time)
    (popped : Option (Nat × List UInt8)) : call.Ends (call.checkEof arguments elapsed popped) := by
  cases popped with
  | none => exact call.fail_ends
  | some outcome =>
      rw [checkEof]
      split
      · exact call.fail_ends
      · refine ⟨rfl, rfl, Or.inr ?_⟩
        simp [endRound]

/-- Every round takes the data of its reply, or ends the call. -/
theorem round_cases (arguments : ReadArguments Time) (call : ReadCall Time)
    (round : ReadRound Time) :
    (∃ len data, dataLength round.id round.reply = some len ∧ len ≤ data.length ∧
      call.round arguments round = call.accept arguments data len round.elapsed) ∨
    dataLength round.id round.reply = none ∧ call.Ends (call.round arguments round) := by
  obtain ⟨id, reply, elapsed⟩ := round
  cases reply with
  | none => exact Or.inr ⟨rfl, call.failDead_ends⟩
  | some answer =>
      have unfolded : call.round arguments ⟨id, some answer, elapsed⟩ =
          call.checkHead arguments id elapsed (popHead.run answer) := rfl
      rw [unfolded, popHead_answer]
      by_cases headed : 9 ≤ toI32 answer.length
      case neg =>
        rw [if_neg headed]
        refine Or.inr ⟨dataLength_eq_none fun carries => headed ?_, call.fail_ends⟩
        have long := carries.1
        omega
      rw [if_pos headed, checkHead]
      by_cases sameId : dwordAt 5 answer = id.toNat
      case neg =>
        rw [if_pos sameId]
        exact Or.inr ⟨dataLength_eq_none fun carries => sameId carries.2.2, call.failDead_ends⟩
      rw [if_neg (not_not_intro sameId)]
      by_cases type : byteAt 4 answer = fxpData
      case neg =>
        refine Or.inr ⟨dataLength_eq_none fun carries => type carries.2.1, ?_⟩
        rw [if_neg type]
        split
        · exact call.checkEof_ends elapsed _
        · exact call.failDead_ends
      rw [if_pos type, popDword_answer]
      by_cases counted : 13 ≤ toI32 answer.length
      case neg =>
        rw [if_neg counted]
        refine Or.inr ⟨dataLength_eq_none fun carries => counted ?_, call.fail_ends⟩
        have long := carries.1
        omega
      have measured : 13 + dwordAt 9 answer ≤ (visible answer).length ↔
          ((13 + dwordAt 9 answer : Nat) : Int) ≤ toI32 answer.length :=
        le_visible_length (by omega)
      rw [if_pos counted, checkData, List.length_drop]
      by_cases whole : (visible answer).length - 13 < dwordAt 9 answer
      case pos =>
        rw [if_pos whole]
        refine Or.inr ⟨dataLength_eq_none fun carries => ?_, call.failDead_ends⟩
        have long := measured.mpr carries.1
        omega
      have visibleHead : 13 ≤ (visible answer).length := (le_visible_length (by decide)).mpr counted
      refine Or.inl ⟨dwordAt 9 answer, (visible answer).drop 13, ?_, ?_, ?_⟩
      · exact dataLength_carries ⟨measured.mp (by omega), type, sameId⟩
      · rw [List.length_drop]
        omega
      · rw [if_neg whole]
        rfl

/-! ## Any server -/

section Accepting

variable {data : List UInt8} {len : Nat} {elapsed : Time}

theorem accept_result :
    (call.accept arguments data len elapsed).result =
      if toI32 (call.readed + len) = arguments.bytesToRead ∨
          arguments.partialReadThreshold < call.elapsedTotal + elapsed then
        some (toI32 (call.readed + len))
      else none := by
  by_cases all : toI32 (call.readed + len) = arguments.bytesToRead
  · simp [accept, endRound, store, all]
  · simp [accept, endRound, store, all]

theorem after_succ (arguments : ReadArguments Time) (start : ReadCall Time)
    (rounds : Nat → ReadRound Time) {count : Nat}
    (running : (after arguments start rounds count).result = none) :
    after arguments start rounds (count + 1) =
      (after arguments start rounds count).round arguments (rounds count) := by
  rw [after, running]
  rfl

theorem after_returned (arguments : ReadArguments Time) (start : ReadCall Time)
    (rounds : Nat → ReadRound Time) {count : Nat}
    (returned : (after arguments start rounds count).result ≠ none) :
    after arguments start rounds (count + 1) = after arguments start rounds count := by
  rw [after, if_pos (Option.isSome_iff_ne_none.mpr returned)]

end Accepting

/-- The buffer is not overrun, the returned count is not larger than the caller asked
for, and every round ends the call or makes the remaining count smaller. -/
structure Safe (arguments : ReadArguments Time) (start : ReadCall Time)
    (rounds : Nat → ReadRound Time) : Prop where
  copied : ∀ count, ((after arguments start rounds count).position : Int) ≤ arguments.bytesToRead
  returned : ∀ count value, (after arguments start rounds count).result = some value →
    value ≤ arguments.bytesToRead
  progress : ∀ count, (after arguments start rounds count).result = none →
    (after arguments start rounds (count + 1)).result ≠ none ∨
      arguments.bytesToRead - (after arguments start rounds (count + 1)).readed <
        arguments.bytesToRead - (after arguments start rounds count).readed

/-- Data that is taken from the reply is not more than what remains to be read.  It is
not empty, unless nothing remains or the time is over. -/
def AnswerFits (arguments : ReadArguments Time) (call : ReadCall Time) (round : ReadRound Time) :
    Prop :=
  ∀ len, dataLength round.id round.reply = some len →
    len ≤ arguments.bytesToRead - call.readed ∧
      (1 ≤ len ∨ call.readed = arguments.bytesToRead ∨
        arguments.partialReadThreshold < call.elapsedTotal + round.elapsed)

/-- The counter tells how far the buffer is filled, as long as it is not overrun. -/
theorem round_readed (counted : call.readed = call.position) (round : ReadRound Time)
    (inside : ((call.round arguments round).position : Int) ≤ arguments.bytesToRead) :
    (call.round arguments round).readed = (call.round arguments round).position := by
  have upper := arguments.bytesToRead_upper
  obtain ⟨len, data, _, _, accepted⟩ | ⟨_, position, readed, _⟩ :=
    round_cases arguments call round
  · rw [accepted] at inside ⊢
    have position : (call.accept arguments data len round.elapsed).position = call.position + len := rfl
    have readed : (call.accept arguments data len round.elapsed).readed =
      toI32 (call.readed + len) := rfl
    rw [position] at inside ⊢
    rw [readed, counted, toI32_of_fits (by omega) (by omega)]
    omega
  · rw [readed, position, counted]

variable [Zero Time]

theorem after_readed {dead : Bool} {memory : Memory UInt8} {offset : UInt64}
    {rounds : Nat → ReadRound Time}
    (inside : ∀ count, ((after arguments (start dead memory offset) rounds count).position : Int) ≤
      arguments.bytesToRead) (count : Nat) :
    (after arguments (start dead memory offset) rounds count).readed =
      (after arguments (start dead memory offset) rounds count).position := by
  induction count with
  | zero => rfl
  | succ count ih =>
      by_cases running : (after arguments (start dead memory offset) rounds count).result = none
      · have next := inside (count + 1)
        rw [after_succ _ _ _ running] at next ⊢
        exact round_readed ih _ next
      · rw [after_returned _ _ _ running, ih]

/-- What holds between two rounds when all answers fit. -/
structure Filled (arguments : ReadArguments Time) (call : ReadCall Time) : Prop where
  counted : call.readed = call.position
  inside : (call.position : Int) ≤ arguments.bytesToRead
  returned : ∀ value, call.result = some value → value ≤ arguments.bytesToRead

omit [Zero Time] in
theorem Filled.round (filled : call.Filled arguments) (nonneg : 0 ≤ arguments.bytesToRead)
    {round : ReadRound Time} (fits : AnswerFits arguments call round) :
    (call.round arguments round).Filled arguments := by
  have counted := filled.counted
  have upper := arguments.bytesToRead_upper
  have before := filled.inside
  obtain ⟨len, data, taken, _, accepted⟩ | ⟨_, position, readed, ended⟩ :=
    round_cases arguments call round
  · have inside := (fits len taken).1
    have fresh : ((call.round arguments round).position : Int) ≤ arguments.bytesToRead := by
      rw [accepted]
      change ((call.position + len : Nat) : Int) ≤ _
      omega
    refine ⟨round_readed counted round fresh, fresh, fun value returned => ?_⟩
    rw [accepted, accept_result, toI32_of_fits (by omega) (by omega)] at returned
    split at returned
    · cases returned
      omega
    · cases returned
  · refine ⟨by rw [readed, position, counted], by rw [position]; exact before, ?_⟩
    intro value returned
    rcases ended with failed | eof
    · cases failed.symm.trans returned
      omega
    · cases eof.symm.trans returned
      omega

omit [Zero Time] in
/-- An answer that fits moves the call on. -/
theorem Filled.progress (filled : call.Filled arguments) {round : ReadRound Time}
    (fits : AnswerFits arguments call round) :
    (call.round arguments round).result ≠ none ∨
      arguments.bytesToRead - (call.round arguments round).readed <
        arguments.bytesToRead - call.readed := by
  have counted := filled.counted
  have upper := arguments.bytesToRead_upper
  obtain ⟨len, data, taken, _, accepted⟩ | ⟨_, position, readed, ended⟩ :=
    round_cases arguments call round
  · obtain ⟨inside, some_bytes⟩ := fits len taken
    have advanced : toI32 (call.readed + len) = call.readed + len :=
      toI32_of_fits (by omega) (by omega)
    have newReaded : (call.accept arguments data len round.elapsed).readed =
      toI32 (call.readed + len) := rfl
    rw [accepted, newReaded, accept_result, advanced]
    rcases some_bytes with positive | all | late
    · exact Or.inr (by omega)
    · exact Or.inl (by rw [if_pos (Or.inl (by omega))]; simp)
    · exact Or.inl (by rw [if_pos (Or.inr late)]; simp)
  · refine Or.inl ?_
    rcases ended with failed | eof
    · simp [failed]
    · simp [eof]

/-- The call is safe against a server exactly when the caller does not ask for a
negative count and every answer fits. -/
theorem read_safe_iff (arguments : ReadArguments Time) (dead : Bool) (memory : Memory UInt8)
    (offset : UInt64) (rounds : Nat → ReadRound Time) :
    Safe arguments (start dead memory offset) rounds ↔
      0 ≤ arguments.bytesToRead ∧
        ∀ count, (after arguments (start dead memory offset) rounds count).result = none →
          AnswerFits arguments (after arguments (start dead memory offset) rounds count)
            (rounds count) := by
  constructor
  · intro safe
    refine ⟨safe.copied 0, fun count running len taken => ?_⟩
    have counted := after_readed safe.copied count
    have upper := arguments.bytesToRead_upper
    have next := safe.copied (count + 1)
    have moved := safe.progress count running
    rw [after_succ _ _ _ running] at next moved
    generalize after arguments (start dead memory offset) rounds count = call
      at counted next moved
    obtain ⟨other, data, same, _, accepted⟩ | ⟨nothing, _⟩ :=
      round_cases arguments call (rounds count)
    · cases taken.symm.trans same
      have position : (call.accept arguments data len (rounds count).elapsed).position =
        call.position + len := rfl
      have readed : (call.accept arguments data len (rounds count).elapsed).readed =
        toI32 (call.readed + len) := rfl
      rw [accepted, position] at next
      refine ⟨by omega, ?_⟩
      rw [accepted, readed, accept_result, toI32_of_fits (by omega) (by omega)] at moved
      by_cases positive : 1 ≤ len
      · exact Or.inl positive
      · rcases moved with ended | less
        · by_cases finished : call.readed + len = arguments.bytesToRead ∨
            arguments.partialReadThreshold < call.elapsedTotal + (rounds count).elapsed
          · rcases finished with all | late
            · exact Or.inr (Or.inl (by omega))
            · exact Or.inr (Or.inr late)
          · exact absurd (if_neg finished) ended
        · omega
    · cases nothing.symm.trans taken
  · rintro ⟨nonneg, fit⟩
    have filled : ∀ count,
        (after arguments (start dead memory offset) rounds count).Filled arguments := by
      intro count
      induction count with
      | zero =>
          refine ⟨rfl, nonneg, fun value returned => ?_⟩
          cases dead with
          | true =>
              cases returned
              omega
          | false => cases returned
      | succ count ih =>
          by_cases running : (after arguments (start dead memory offset) rounds count).result = none
          · rw [after_succ _ _ _ running]
            exact ih.round nonneg (fit count running)
          · rwa [after_returned _ _ _ running]
    refine ⟨fun count => (filled count).inside, fun count => (filled count).returned,
      fun count running => ?_⟩
    rw [after_succ _ _ _ running]
    exact (filled count).progress (fit count running)

/-- Four bytes are wanted, and the server sends eight. -/
theorem read_longAnswer_overruns :
    ¬Safe (⟨0, 4, by decide, by decide, .initial, 10000⟩ : ReadArguments Nat)
      (start false (fun _ => 0) 0) fun _ =>
        ⟨1, some [0, 0, 0, 17, 103, 0, 0, 0, 1, 0, 0, 0, 8, 1, 2, 3, 4, 5, 6, 7, 8], 1⟩ := by
  intro safe
  exact absurd (safe.copied 1) (by decide +kernel)

end ReadCall

end Tegenaria.LibSftp
