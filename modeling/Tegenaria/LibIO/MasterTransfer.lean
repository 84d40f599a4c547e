import Tegenaria.Foundation.BoundedBuffer
import Tegenaria.Foundation.PartialTransfer
import Tegenaria.LibIO.Mixer

/-!
# Transfers over the master connection

`IOMixer::masterRead` and `IOMixer::masterWrite` call `recv` or `send`, `read` or `write`, or a callback
until all bytes are moved.  What these calls return is a parameter, and so are the bytes that the remote
side sends.

Above stand `masterRead` and `masterWrite` of the frame codec, which know no calls.
-/

namespace Tegenaria.LibIO

open Foundation.BoundedBuffer Foundation.Bytes Foundation.Loop Foundation.PartialTransfer

/-- `IOMIXER_TYPE_AUTO` and so on. -/
inductive MasterType where
  | auto
  | fd
  | socket
  | callback
  deriving DecidableEq

namespace MasterType

/-- The types for which the functions have a loop. -/
def HasLoop (type : MasterType) : Prop := type ≠ .auto

end MasterType

namespace MasterTransfer

/-- The bytes that the remote side sends, and the results of the calls that receive them. -/
structure Input where
  stream : Nat → UInt8
  results : Nat → Int

/-- Bytes of the stream. -/
def Input.bytes (input : Input) (start count : Nat) : List UInt8 :=
  (List.range' start count).map input.stream

/-- The caller's buffer, the place of `dst` in it, and how many bytes of the stream were received. -/
structure Reading where
  buffer : List UInt8
  dst : Nat
  received : Nat

/-- `recv`, `read` or the callback stores the next bytes of the stream, and `dst` is moved behind them. -/
def Reading.store (input : Input) (reading : Reading) (readed : Nat) : Option Reading :=
  (putAll reading.buffer reading.dst (input.bytes reading.received readed)).map fun buffer =>
    ⟨buffer, reading.dst + readed, reading.received + readed⟩

/-- The caller's buffer, the place of `src` in it, and the bytes that were sent. -/
structure Writing where
  buffer : List UInt8
  src : Nat
  sent : List UInt8

/-- `send`, `write` or the callback sends the next bytes of the buffer, and `src` is moved behind them. -/
def Writing.send (writing : Writing) (written : Nat) : Option Writing :=
  if writing.src + written ≤ writing.buffer.length then
    some { writing with
      src := writing.src + written
      sent := writing.sent ++ (writing.buffer.drop writing.src).take written }
  else none

/-! ## The loops -/

/-- The loop of `masterRead` over a socket tests the result of `recv` twice. -/
def socketReadStep (input : Input) (progress : Progress Reading) :
    Step (Progress Reading) (Int × Reading) :=
  if progress.remaining > 0 then
    let readed := input.results progress.calls
    if readed ≤ 0 then .done (-1, progress.state)
    else if readed > 0 then
      .goOn ((progress.state.store input readed.toNat).map fun reading =>
        ⟨progress.remaining - readed, progress.calls + 1, reading⟩)
    else .next { progress with calls := progress.calls + 1 }
  else .done (0, progress.state)

/-- The loop of `masterRead` over a file descriptor. -/
def fdReadStep (input : Input) : Progress Reading → Step (Progress Reading) (Int × Reading) :=
  step input.results (Reading.store input)

/-- The loop of `masterRead` over a callback. -/
def callbackReadStep (input : Input) : Progress Reading → Step (Progress Reading) (Int × Reading) :=
  step input.results (Reading.store input)

/-- The loop of `masterWrite` over a socket. -/
def socketWriteStep (results : Nat → Int) : Progress Writing → Step (Progress Writing) (Int × Writing) :=
  step results Writing.send

/-- The loop of `masterWrite` over a file descriptor. -/
def fdWriteStep (results : Nat → Int) : Progress Writing → Step (Progress Writing) (Int × Writing) :=
  step results Writing.send

/-- The loop of `masterWrite` over a callback. -/
def callbackWriteStep (results : Nat → Int) : Progress Writing → Step (Progress Writing) (Int × Writing) :=
  step results Writing.send

/-- `IOMixer::masterRead`: the exit code, and the buffer behind the call. -/
def masterRead (mixer : IOMixer) (masterInType : MasterType) (input : Input) (fuel : Nat)
    (buffer : List UInt8) (bytesToRead : Int) : Outcome (Int × Reading) :=
  let reading : Reading := ⟨buffer, 0, 0⟩
  if mixer.masterEofReceived then .returned (-1, reading)
  else
    match masterInType with
    | .socket => run (socketReadStep input) fuel ⟨bytesToRead, 0, reading⟩
    | .fd => run (fdReadStep input) fuel ⟨bytesToRead, 0, reading⟩
    | .callback => run (callbackReadStep input) fuel ⟨bytesToRead, 0, reading⟩
    | .auto => .returned (0, reading)

/-- `IOMixer::masterWrite`: the exit code, and the bytes that were sent. -/
def masterWrite (mixer : IOMixer) (masterOutType : MasterType) (results : Nat → Int) (fuel : Nat)
    (buf : List UInt8) (bytesToWrite : Int) : Outcome (Int × Writing) :=
  let writing : Writing := ⟨buf, 0, []⟩
  if mixer.masterEofSent then .returned (0, writing)
  else
    match masterOutType with
    | .socket => run (socketWriteStep results) fuel ⟨bytesToWrite, 0, writing⟩
    | .fd => run (fdWriteStep results) fuel ⟨bytesToWrite, 0, writing⟩
    | .callback => run (callbackWriteStep results) fuel ⟨bytesToWrite, 0, writing⟩
    | .auto => .returned (0, writing)

/-! ## What the functions are for -/

/-- The buffer and the place in the stream after some bytes. -/
def readAfter (input : Input) (buffer : List UInt8) (count : Nat) : Reading :=
  ⟨input.bytes 0 count ++ buffer.drop count, count, count⟩

def writtenAfter (buf : List UInt8) (count : Nat) : Writing := ⟨buf, count, buf.take count⟩

/-- The call of a function ends with a result. -/
def EndsWith {α : Type} (call : Nat → Outcome α) (value : α) : Prop := ∃ fuel, call fuel = .returned value

/-- The function moves all bytes if each call moves between one byte and the rest, and exactly the bytes of
the calls before one that fails. -/
structure HidesPartialTransfers {State : Type} (call : Nat → Outcome (Int × State)) (results : Nat → Int)
    (after : Nat → State) (count : Nat) : Prop where
  complete : (∀ index, transferred results index < count → Partial results count index) →
    EndsWith call (0, after count)
  failed : ∀ calls, (∀ index < calls, Partial results count index) → transferred results calls < count →
    results calls ≤ 0 → EndsWith call (-1, after (transferred results calls).toNat)

/-! ## The branches -/

variable {mixer : IOMixer} {type other : MasterType} {input : Input} {results : Nat → Int}
  {buffer : List UInt8} {count : Nat}

/-- A result that is not at most zero is positive. -/
theorem socketReadStep_eq (input : Input) :
    socketReadStep input = step input.results (Reading.store input) := by
  funext progress
  rw [socketReadStep, step]
  split
  · by_cases failed : input.results progress.calls ≤ 0
    · rw [if_pos failed, if_pos failed]
    · rw [if_neg failed, if_neg failed, if_pos (by omega)]
  · rfl

theorem masterRead_loop (notReceived : mixer.masterEofReceived = false) (loops : type.HasLoop)
    (input : Input) (fuel : Nat) (buffer : List UInt8) (bytesToRead : Int) :
    masterRead mixer type input fuel buffer bytesToRead =
      run (step input.results (Reading.store input)) fuel ⟨bytesToRead, 0, ⟨buffer, 0, 0⟩⟩ := by
  rw [masterRead.eq_def, notReceived, if_neg (by decide)]
  cases type with
  | auto => exact absurd rfl loops
  | fd => rfl
  | socket => exact congrFun (congrFun (congrArg run (socketReadStep_eq input)) fuel) _
  | callback => rfl

theorem masterWrite_loop (notSent : mixer.masterEofSent = false) (loops : type.HasLoop)
    (results : Nat → Int) (fuel : Nat) (buf : List UInt8) (bytesToWrite : Int) :
    masterWrite mixer type results fuel buf bytesToWrite =
      run (step results Writing.send) fuel ⟨bytesToWrite, 0, ⟨buf, 0, []⟩⟩ := by
  rw [masterWrite.eq_def, notSent, if_neg (by decide)]
  cases type with
  | auto => exact absurd rfl loops
  | fd => rfl
  | socket => rfl
  | callback => rfl

/-! ## The bytes that are moved -/

theorem length_bytes (input : Input) (start count : Nat) : (input.bytes start count).length = count := by
  rw [Input.bytes, List.length_map, List.length_range']

theorem bytes_append (input : Input) (start first more : Nat) :
    input.bytes start first ++ input.bytes (start + first) more = input.bytes start (first + more) := by
  rw [Input.bytes, Input.bytes, Input.bytes, ← List.map_append, List.range'_append_1]

/-- Bytes are stored one behind another. -/
theorem store_moves (room : count ≤ buffer.length) :
    Moves (Reading.store input) (readAfter input buffer) count := by
  intro before more within
  have length := length_bytes input 0 before
  have whole : (input.bytes 0 before ++ buffer.drop before).length = buffer.length := by
    rw [List.length_append, List.length_drop, length]
    omega
  have fits : before + (input.bytes before more).length ≤
      (input.bytes 0 before ++ buffer.drop before).length := by
    rw [length_bytes, whole]
    omega
  have begins : (input.bytes 0 before ++ buffer.drop before).take before = input.bytes 0 before :=
    List.take_left' length
  have rest : (input.bytes 0 before ++ buffer.drop before).drop (before + more) =
      buffer.drop (before + more) := by
    rw [← List.drop_drop, List.drop_left' length, List.drop_drop]
  have joined := bytes_append input 0 before more
  rw [Nat.zero_add] at joined
  rw [Reading.store, readAfter, putAll_eq fits, length_bytes, begins, rest, joined]
  rfl

/-- Bytes are sent one behind another. -/
theorem send_moves (room : count ≤ buffer.length) : Moves Writing.send (writtenAfter buffer) count := by
  intro before more within
  have inside : before + more ≤ buffer.length := Nat.le_trans within room
  rw [Writing.send, writtenAfter, if_pos inside, ← List.take_add]
  rfl

/-- A call that runs the loop hides partial transfers. -/
theorem hides_of_loop {State : Type} {call : Nat → Outcome (Int × State)}
    {move : State → Nat → Option State} {after : Nat → State}
    (loop : ∀ fuel, call fuel = run (step results move) fuel ⟨count, 0, after 0⟩)
    (moves : Moves move after count) : HidesPartialTransfers call results after count where
  complete every := by
    simp only [EndsWith, loop]
    exact returns_complete moves every
  failed calls each incomplete failure := by
    simp only [EndsWith, loop]
    exact returns_failed moves each incomplete failure

/-! ## The codec above -/

/-- What is stored is what the codec takes off a stream with enough bytes. -/
theorem masterRead_refines (notReceived : mixer.masterEofReceived = false) (input : Input)
    (buffer : List UInt8) (count more : Nat) :
    mixer.masterRead count (input.bytes 0 (count + more)) =
      some ((readAfter input buffer count).buffer.take count, input.bytes count more) := by
  have joined := bytes_append input 0 count more
  rw [Nat.zero_add] at joined
  have length := length_bytes input 0 count
  have stored : (readAfter input buffer count).buffer.take count = input.bytes 0 count :=
    List.take_left' length
  rw [IOMixer.masterRead, notReceived, if_neg (by decide), Int.toNat_natCast, ← joined,
    readExact_append length, stored]

/-- What is sent is what the codec sends. -/
theorem masterWrite_refines (notSent : mixer.masterEofSent = false) (buf : List UInt8) (count : Nat) :
    mixer.masterWrite buf count = (writtenAfter buf count).sent := by
  rw [IOMixer.masterWrite, notSent, if_neg (by decide), Int.toNat_natCast]
  rfl

end MasterTransfer

open MasterTransfer

/-- Over a socket, a file descriptor and a callback the functions hide partial transfers, in the same way. -/
theorem masterTransfer_hides (mixer : IOMixer) (notReceived : mixer.masterEofReceived = false)
    (notSent : mixer.masterEofSent = false) {type : MasterType} (loops : type.HasLoop) {count : Nat}
    {buffer : List UInt8} (room : count ≤ buffer.length) :
    (∀ input : Input, HidesPartialTransfers (fun fuel => masterRead mixer type input fuel buffer count)
      input.results (readAfter input buffer) count) ∧
    (∀ results : Nat → Int,
      HidesPartialTransfers (fun fuel => masterWrite mixer type results fuel buffer count) results
        (writtenAfter buffer) count) ∧
    (∀ other : MasterType, other.HasLoop →
      masterRead mixer type = masterRead mixer other ∧
        masterWrite mixer type = masterWrite mixer other) := by
  refine ⟨?_, ?_, ?_⟩
  · intro input
    exact hides_of_loop
      (fun fuel => masterRead_loop notReceived loops input fuel buffer count) (store_moves room)
  · intro results
    exact hides_of_loop
      (fun fuel => masterWrite_loop notSent loops results fuel buffer count) (send_moves room)
  · intro other otherLoops
    constructor
    · funext input fuel buffer bytesToRead
      rw [masterRead_loop notReceived loops, masterRead_loop notReceived otherLoops]
    · funext results fuel buf bytesToWrite
      rw [masterWrite_loop notSent loops, masterWrite_loop notSent otherLoops]

/-- Two bytes and one byte. -/
def MasterTransfer.twoAndOne : Input :=
  ⟨fun index => .ofNat (index + 1), fun call => if call = 0 then 2 else 1⟩

theorem masterTransfer_hides_three :
    EndsWith (fun fuel => masterRead (IOMixer.new IOMixer.tagged true) .socket twoAndOne fuel [7, 7, 7] 3)
        (0, ⟨[1, 2, 3], 3, 3⟩) ∧
      masterRead (IOMixer.new IOMixer.tagged true) .socket =
        masterRead (IOMixer.new IOMixer.tagged true) .callback := by
  have later : ∀ call : Nat, transferred twoAndOne.results (call + 2) = call + 3 := by
    intro call
    induction call with
    | zero => rfl
    | succ call ih =>
        rw [transferred, ih]
        rfl
  have every : ∀ index, transferred twoAndOne.results index < (3 : Nat) →
      Partial twoAndOne.results (3 : Nat) index := by
    intro index incomplete
    rcases index with - | - | call
    · exact ⟨by decide, by decide⟩
    · exact ⟨by decide, by decide⟩
    · rw [later] at incomplete
      omega
  have socketLoops : MasterType.socket.HasLoop := by
    rw [MasterType.HasLoop]
    decide
  have callbackLoops : MasterType.callback.HasLoop := by
    rw [MasterType.HasLoop]
    decide
  have hides := masterTransfer_hides (IOMixer.new IOMixer.tagged true) rfl rfl socketLoops
    (Nat.le_refl [7, 7, 7].length)
  exact ⟨(hides.1 twoAndOne).complete every, (hides.2.2 .callback callbackLoops).1⟩

end Tegenaria.LibIO
