import Tegenaria.Foundation.Transition
import Tegenaria.LibSecure.Cipher

/-!
# Manual handshakes

`handshakeStep` is one step of a handshake through a single buffer that holds what was
read or takes what is to be written.  For connections without an underlying IO the
four-argument form calls it first with the input and then with the output buffer.  This
is right for a server that reads first, as long as its messages fit in the buffers; a
client, which writes first, gets its message in the input buffer.
-/

namespace Tegenaria.LibSecure

open Foundation

/-! ## The engine and one step -/

/-- What is used of OpenSSL.  `doHandshake` gets the content of the read BIO and returns
what it leaves there and the bytes that it emits; `sslRead` is given the wanted length. -/
structure SslEngine (Engine : Type) where
  isInitFinished : Engine → Bool
  doHandshake : Engine → Buffer → Engine × Buffer × Buffer
  sslWrite : Engine → Buffer → Engine × Buffer
  sslRead : Engine → Buffer → Nat → Engine × Buffer × Buffer

inductive Intent where
  | server
  | client
  deriving DecidableEq

/-- `SECURE_STATE_XXX` -/
inductive ConnectionState where
  | handshakeWrite
  | handshakeRead
  | established
  deriving DecidableEq

/-- A connection without an underlying IO, with all bytes that were emitted by the engine
and all bytes that were passed to it. -/
structure Connection (Engine : Type) where
  engine : Engine
  intent : Intent
  state : ConnectionState
  readBio : Buffer
  writeBio : Buffer
  emitted : Buffer
  fed : Buffer

/-- The outcome of a call: the exit code, the connection, the content of the buffer, its
size and whether more was copied than the local buffer holds. -/
structure StepResult (Engine : Type) where
  exitCode : Int
  connection : Connection Engine
  memory : Buffer
  size : Int
  overrun : Bool

/-- The size of the local buffer. -/
def localSize : Nat := 1024

/-- The text of the last message of a handshake. -/
def okText : Buffer := [79, 75]

/-- A copy to the begin of a buffer. -/
def memcpy (memory data : Buffer) : Buffer := data ++ memory.drop data.length

section Steps

variable {Engine : Type} (ssl : SslEngine Engine)

namespace Connection

/-- `SSL_is_init_finished` -/
def isFinished (connection : Connection Engine) : Bool := ssl.isInitFinished connection.engine

/-- `SSL_do_handshake` -/
def doHandshake (connection : Connection Engine) : Connection Engine :=
  let (engine, readBio, emission) := ssl.doHandshake connection.engine connection.readBio
  { connection with
    engine := engine
    readBio := readBio
    writeBio := connection.writeBio ++ emission
    emitted := connection.emitted ++ emission }

/-- `SSL_write` -/
def sslWrite (connection : Connection Engine) (text : Buffer) : Connection Engine :=
  let (engine, emission) := ssl.sslWrite connection.engine text
  { connection with
    engine := engine
    writeBio := connection.writeBio ++ emission
    emitted := connection.emitted ++ emission }

/-- `SSL_read` with a length, and the bytes that it returns. -/
def sslRead (connection : Connection Engine) (len : Nat) : Connection Engine × Buffer :=
  let (engine, readBio, text) := ssl.sslRead connection.engine connection.readBio len
  ({ connection with engine := engine, readBio := readBio }, text)

/-- `BIO_write` to the read BIO. -/
def feed (connection : Connection Engine) (data : Buffer) : Connection Engine :=
  { connection with readBio := connection.readBio ++ data, fed := connection.fed ++ data }

/-- What is left in the write BIO after `BIO_read`. -/
def drain (connection : Connection Engine) (count : Nat) : Connection Engine :=
  { connection with writeBio := connection.writeBio.drop count }

def setState (connection : Connection Engine) (state : ConnectionState) : Connection Engine :=
  { connection with state := state }

end Connection

/-- `encrypt` of the last message of a server into the buffer of the caller. -/
def sendOk (connection : Connection Engine) (memory : Buffer) (size : Int) (overrun : Bool) :
    StepResult Engine :=
  let connection := connection.sslWrite ssl okText
  let encrypted := connection.writeBio.take size.toNat
  { exitCode := 0
    connection := connection.drain size.toNat
    memory := memcpy memory encrypted
    size := if encrypted = [] then -1 else encrypted.length
    overrun := overrun }

/-- The end of a step that has not failed. -/
def endStep (connection : Connection Engine) (memory : Buffer) (size : Int) (overrun : Bool) :
    StepResult Engine :=
  if connection.state = .established ∧ connection.intent = .server then
    sendOk ssl connection memory size overrun
  else
    { exitCode := 0, connection := connection, memory := memory, size := size, overrun := overrun }

/-- A step that has failed. -/
def failStep (connection : Connection Engine) (memory : Buffer) (size : Int) (overrun : Bool) :
    StepResult Engine :=
  { exitCode := -1, connection := connection, memory := memory, size := size, overrun := overrun }

/-- The handshake is finished; a client reads the last message of the server. -/
def finishStep (connection : Connection Engine) (memory : Buffer) (size : Int) (overrun : Bool) :
    StepResult Engine :=
  let connection := connection.setState .established
  if connection.intent = .client then
    let (connection, text) := connection.sslRead ssl 2
    if text = okText then endStep ssl connection memory size overrun
    else failStep connection memory size overrun
  else endStep ssl connection memory size overrun

/-- The write turn. -/
def writeTurn (connection : Connection Engine) (memory : Buffer) (size : Int) :
    StepResult Engine :=
  let connection := connection.doHandshake ssl
  let buffer := connection.writeBio.take localSize
  let connection := connection.drain localSize
  if buffer = [] ∨ size < buffer.length then failStep connection memory size false
  else if connection.isFinished ssl then
    endStep ssl (connection.setState .established) (memcpy memory buffer) buffer.length false
  else endStep ssl (connection.setState .handshakeRead) (memcpy memory buffer) buffer.length false

/-- The read turn. -/
def readTurn (connection : Connection Engine) (memory : Buffer) (size : Int) :
    StepResult Engine :=
  let overrun := decide (size < 0 ∨ localSize < size)
  if size ≤ 0 then failStep connection memory size overrun
  else
    let connection := connection.feed (memory.take size.toNat)
    if connection.isFinished ssl then finishStep ssl connection memory size overrun
    else
      endStep ssl ((connection.doHandshake ssl).setState .handshakeWrite) memory size overrun

/-- `handshakeStep` with a custom buffer. -/
@[grind =] def handshakeStep (connection : Connection Engine) (memory : Buffer) (size : Int) :
    StepResult Engine :=
  if connection.isFinished ssl then finishStep ssl connection memory size false
  else
    match connection.state with
    | .handshakeWrite => writeTurn ssl connection memory size
    | .handshakeRead => readTurn ssl connection memory size
    | .established => endStep ssl connection memory size false

/-- The outcome of the four-argument form. -/
structure CallResult (Engine : Type) where
  exitCode : Int
  connection : Connection Engine
  outputBuffer : Buffer
  outputSize : Int
  inputBuffer : Buffer
  overrun : Bool

/-- `handshakeStep` with an output and an input buffer. -/
def handshakeCall (connection : Connection Engine) (outputBuffer : Buffer) (outputSize : Int)
    (inputBuffer : Buffer) (inputSize : Int) : CallResult Engine :=
  let first := handshakeStep ssl connection inputBuffer inputSize
  if first.exitCode ≠ 0 then
    { exitCode := -1
      connection := first.connection
      outputBuffer := outputBuffer
      outputSize := outputSize
      inputBuffer := first.memory
      overrun := first.overrun }
  else if first.connection.state ≠ .established then
    let second := handshakeStep ssl first.connection outputBuffer outputSize
    { exitCode := if second.exitCode ≠ 0 then -1 else 0
      connection := second.connection
      outputBuffer := second.memory
      outputSize := second.size
      inputBuffer := first.memory
      overrun := first.overrun || second.overrun }
  else
    { exitCode := 0
      connection := first.connection
      outputBuffer := outputBuffer
      outputSize := outputSize
      inputBuffer := first.memory
      overrun := first.overrun }

/-! ## The loop of the caller -/

/-- The connection with what the caller has seen: the input so far, the output so far, the
number of calls, whether the last call has failed, whether an input buffer was changed and
whether a copy has left the local buffer. -/
structure Caller (Engine : Type) where
  connection : Connection Engine
  given : Buffer
  returned : Buffer
  calls : Nat
  failed : Bool
  inputChanged : Bool
  overrun : Bool

/-- One round: the input that was read, the bytes behind it in the buffer, and the buffer
for the output, of which the whole size is given. -/
structure Round where
  input : Buffer
  behind : Buffer
  output : Buffer

def callRound (caller : Caller Engine) (round : Round) : Caller Engine :=
  let inputBuffer := round.input ++ round.behind
  let result := handshakeCall ssl caller.connection round.output round.output.length inputBuffer
    round.input.length
  { connection := result.connection
    given := caller.given ++ round.input
    returned :=
      if result.exitCode = 0 then
        caller.returned ++ result.outputBuffer.take result.outputSize.toNat
      else caller.returned
    calls := caller.calls + 1
    failed := result.exitCode ≠ 0
    inputChanged := caller.inputChanged || result.inputBuffer ≠ inputBuffer
    overrun := caller.overrun || result.overrun }

/-- The documented loop, which ends when the connection is established or a call fails. -/
def callerMachine : Machine (Caller Engine) Round where
  step caller round :=
    if caller.failed = false ∧ caller.connection.state ≠ .established then
      some (callRound ssl caller round)
    else none

/-- `initSSL` for a connection without an underlying IO: a server begins with the read
turn, a client with the write turn. -/
def createConnection (engine : Engine) (intent : Intent) : Connection Engine where
  engine := engine
  intent := intent
  state := match intent with
    | .server => .handshakeRead
    | .client => .handshakeWrite
  readBio := []
  writeBio := []
  emitted := []
  fed := []

def startCaller (engine : Engine) (intent : Intent) : Caller Engine where
  connection := createConnection engine intent
  given := []
  returned := []
  calls := 0
  failed := false
  inputChanged := false
  overrun := false

/-! ## Handshakes that deliver -/

/-- Every emitted byte is returned once and in order or still in the BIO, and nothing is
there when the connection is established; every input byte was passed on once; the input
buffers are as they were; no copy has left a buffer; and a client has something to send
after its first call. -/
structure Delivered (caller : Caller Engine) : Prop where
  outputs : caller.connection.emitted = caller.returned ++ caller.connection.writeBio
  complete : caller.connection.state = .established → caller.connection.writeBio = []
  inputs : caller.connection.fed = caller.given
  inputKept : caller.inputChanged = false
  inside : caller.overrun = false
  clientFirst : caller.connection.intent = .client → caller.calls ≠ 0 → caller.returned ≠ []

/-- The connection after the input of a round was passed to the engine. -/
def afterInput (connection : Connection Engine) (input : Buffer) : Connection Engine :=
  (connection.feed input).doHandshake ssl

/-- The round is one of a server, the input fits in the local buffer, and either the engine
has finished and its last bytes fit in the output buffer, or it has not finished when it is
asked a second time and what it has emitted, up to the size of the local buffer, fits in
the output buffer. -/
abbrev Proper (caller : Caller Engine) (round : Round) : Prop :=
  caller.connection.intent = .server ∧ round.input.length ≤ localSize ∧
    (round.input = [] ∨
      (afterInput ssl caller.connection round.input).isFinished ssl = true ∧
        ((afterInput ssl caller.connection round.input).sslWrite ssl okText).writeBio.length ≤
          round.output.length ∨
      (afterInput ssl caller.connection round.input).isFinished ssl = false ∧
        ((afterInput ssl caller.connection round.input).doHandshake ssl).isFinished ssl = false ∧
        (((afterInput ssl caller.connection round.input).doHandshake ssl).writeBio.take
          localSize).length ≤ round.output.length)

/-- What holds after every round of a server: between the rounds it is its turn to read. -/
structure ServerReads (caller : Caller Engine) : Prop where
  outputs : caller.connection.emitted = caller.returned ++ caller.connection.writeBio
  complete : caller.connection.state = .established → caller.connection.writeBio = []
  inputs : caller.connection.fed = caller.given
  inputKept : caller.inputChanged = false
  inside : caller.overrun = false
  server : caller.connection.intent = .server
  turn : caller.failed = false → caller.connection.state ≠ .established →
    caller.connection.state = .handshakeRead ∧ caller.connection.isFinished ssl = false

variable {ssl}

theorem ServerReads.delivered {caller : Caller Engine} (reads : ServerReads ssl caller) :
    Delivered caller where
  outputs := reads.outputs
  complete := reads.complete
  inputs := reads.inputs
  inputKept := reads.inputKept
  inside := reads.inside
  clientFirst client := absurd (reads.server.symm.trans client) (by decide)

/-- The first step of a round reads the input. -/
theorem handshakeStep_reads {connection : Connection Engine} (turn : connection.state = .handshakeRead)
    (pending : connection.isFinished ssl = false) {input : Buffer} (nonempty : input ≠ [])
    (short : input.length ≤ localSize) (behind : Buffer) :
    handshakeStep ssl connection (input ++ behind) input.length =
      { exitCode := 0
        connection := (afterInput ssl connection input).setState .handshakeWrite
        memory := input ++ behind
        size := input.length
        overrun := false } := by
  have positive := List.length_pos_iff.mpr nonempty
  have stillPending : (connection.feed input).isFinished ssl = false := pending
  have inside : decide ((input.length : Int) < 0 ∨ (localSize : Int) < input.length) = false := by
    rw [decide_eq_false_iff_not]
    omega
  simp only [handshakeStep, pending, turn, readTurn, Bool.false_eq_true, if_false, inside]
  rw [if_neg (by omega), Int.toNat_natCast, List.take_left, stillPending]
  simp [endStep, Connection.setState, afterInput]

/-- A round without input fails and changes nothing. -/
theorem handshakeStep_empty {connection : Connection Engine} (turn : connection.state = .handshakeRead)
    (pending : connection.isFinished ssl = false) (behind : Buffer) :
    handshakeStep ssl connection behind 0 = failStep connection behind 0 false := by
  simp [handshakeStep, pending, turn, readTurn, localSize]

/-- The second step of a server whose engine has finished. -/
theorem handshakeStep_finished (connection : Connection Engine)
    (server : connection.intent = .server) (finished : connection.isFinished ssl = true)
    (output : Buffer) (fits : (connection.sslWrite ssl okText).writeBio.length ≤ output.length) :
    ∃ size, size.toNat = (connection.sslWrite ssl okText).writeBio.length ∧
      handshakeStep ssl connection output output.length =
        { exitCode := 0
          connection := ((connection.setState .established).sslWrite ssl okText).drain output.length
          memory := memcpy output (connection.sslWrite ssl okText).writeBio
          size := size
          overrun := false } := by
  have whole : ((connection.setState .established).sslWrite ssl okText).writeBio.take output.length =
      (connection.sslWrite ssl okText).writeBio := List.take_of_length_le fits
  have notClient : (connection.setState .established).intent ≠ .client := by
    simp [Connection.setState, server]
  have isServer : (connection.setState .established).state = .established ∧
      (connection.setState .established).intent = .server := ⟨rfl, server⟩
  refine ⟨if (connection.sslWrite ssl okText).writeBio = [] then -1
    else (connection.sslWrite ssl okText).writeBio.length, ?_, ?_⟩
  · split
    · next nothing => rw [nothing]; rfl
    · rfl
  · rw [handshakeStep, if_pos finished, finishStep]
    simp only [if_neg notClient]
    rw [endStep, if_pos isServer, sendOk]
    simp only [Int.toNat_natCast, whole]

/-- The second step of a server whose engine has not finished: it returns bytes, or there
are none and it fails. -/
theorem handshakeStep_writes (connection : Connection Engine)
    (turn : connection.state = .handshakeWrite) (pending : connection.isFinished ssl = false)
    (stillPending : (connection.doHandshake ssl).isFinished ssl = false) (output : Buffer)
    (fits : ((connection.doHandshake ssl).writeBio.take localSize).length ≤ output.length) :
    handshakeStep ssl connection output output.length =
      if (connection.doHandshake ssl).writeBio = [] then
        failStep (connection.doHandshake ssl) output output.length false
      else
        { exitCode := 0
          connection :=
            ((connection.doHandshake ssl).drain localSize).setState .handshakeRead
          memory := memcpy output ((connection.doHandshake ssl).writeBio.take localSize)
          size := ((connection.doHandshake ssl).writeBio.take localSize).length
          overrun := false } := by
  simp only [handshakeStep, pending, turn, writeTurn, Bool.false_eq_true, if_false]
  by_cases nothing : (connection.doHandshake ssl).writeBio = []
  · have drained : (connection.doHandshake ssl).drain localSize = connection.doHandshake ssl := by
      rw [Connection.drain, nothing, List.drop_nil, ← nothing]
    rw [if_pos nothing, if_pos (.inl (by rw [nothing, List.take_nil])), drained]
  · have someBytes : (connection.doHandshake ssl).writeBio.take localSize ≠ [] := by
      rw [Ne, List.take_eq_nil_iff, not_or]
      exact ⟨by decide, nothing⟩
    have notFinished : ((connection.doHandshake ssl).drain localSize).isFinished ssl = false :=
      stillPending
    rw [if_neg nothing, if_neg (by rw [not_or]; exact ⟨someBytes, by omega⟩), notFinished]
    simp [endStep, Connection.setState]

theorem take_memcpy {memory data : Buffer} {count : Nat} (length : count = data.length) :
    (memcpy memory data).take count = data := by
  rw [length, memcpy, List.take_left]

/-- A round in which the first step fails without touching anything. -/
theorem handshakeCall_fails {connection : Connection Engine} {outputBuffer inputBuffer : Buffer}
    {outputSize inputSize : Int}
    (first : handshakeStep ssl connection inputBuffer inputSize =
      failStep connection inputBuffer inputSize false) :
    handshakeCall ssl connection outputBuffer outputSize inputBuffer inputSize =
      { exitCode := -1
        connection := connection
        outputBuffer := outputBuffer
        outputSize := outputSize
        inputBuffer := inputBuffer
        overrun := false } := by
  simp [handshakeCall, first, failStep]

/-- A round in which the first step passes the input on. -/
theorem handshakeCall_reads {connection next : Connection Engine} {outputBuffer inputBuffer : Buffer}
    {outputSize inputSize : Int}
    (first : handshakeStep ssl connection inputBuffer inputSize =
      { exitCode := 0
        connection := next
        memory := inputBuffer
        size := inputSize
        overrun := false })
    (pending : next.state ≠ .established) {second : StepResult Engine}
    (secondStep : handshakeStep ssl next outputBuffer outputSize = second) :
    handshakeCall ssl connection outputBuffer outputSize inputBuffer inputSize =
      { exitCode := if second.exitCode ≠ 0 then -1 else 0
        connection := second.connection
        outputBuffer := second.memory
        outputSize := second.size
        inputBuffer := inputBuffer
        overrun := second.overrun } := by
  simp [handshakeCall, first, pending, secondStep]

namespace Connection

/-- The emitted bytes are those that were returned and those in the BIO. -/
def Balanced (connection : Connection Engine) (returned : Buffer) : Prop :=
  connection.emitted = returned ++ connection.writeBio

theorem Balanced.doHandshake {connection : Connection Engine} {returned : Buffer}
    (balanced : connection.Balanced returned) : (connection.doHandshake ssl).Balanced returned := by
  simp only [Balanced, Connection.doHandshake] at balanced ⊢
  rw [balanced, List.append_assoc]

theorem Balanced.sslWrite {connection : Connection Engine} {returned : Buffer}
    (balanced : connection.Balanced returned) (text : Buffer) :
    (connection.sslWrite ssl text).Balanced returned := by
  simp only [Balanced, Connection.sslWrite] at balanced ⊢
  rw [balanced, List.append_assoc]

theorem Balanced.drain {connection : Connection Engine} {returned : Buffer}
    (balanced : connection.Balanced returned) (count : Nat) :
    (connection.drain count).Balanced (returned ++ connection.writeBio.take count) := by
  simp only [Balanced, Connection.drain] at balanced ⊢
  rw [balanced, List.append_assoc, List.take_append_drop]

end Connection

/-- A round that fails and leaves the bytes where they are. -/
theorem ServerReads.fail {caller : Caller Engine} (reads : ServerReads ssl caller) {round : Round}
    {result : CallResult Engine}
    (call : handshakeCall ssl caller.connection round.output round.output.length
      (round.input ++ round.behind) round.input.length = result)
    (failed : result.exitCode = -1) (balanced : result.connection.Balanced caller.returned)
    (pending : result.connection.state ≠ .established)
    (server : result.connection.intent = .server)
    (fed : result.connection.fed = caller.connection.fed ++ round.input)
    (kept : result.inputBuffer = round.input ++ round.behind) (inside : result.overrun = false) :
    ServerReads ssl (callRound ssl caller round) := by
  simp only [callRound, call]
  refine ⟨?_, fun established => absurd established pending, ?_, ?_, ?_, server, ?_⟩
  · rw [if_neg (by rw [failed]; decide)]
    exact balanced
  · rw [← reads.inputs]
    exact fed
  · simp [kept, reads.inputKept]
  · simp [inside, reads.inside]
  · simp [failed]

/-- A round that returns the first bytes of the BIO. -/
theorem ServerReads.succeed {caller : Caller Engine} (reads : ServerReads ssl caller) {round : Round}
    {result : CallResult Engine}
    (call : handshakeCall ssl caller.connection round.output round.output.length
      (round.input ++ round.behind) round.input.length = result)
    (succeeded : result.exitCode = 0)
    (balanced : result.connection.Balanced
      (caller.returned ++ result.outputBuffer.take result.outputSize.toNat))
    (complete : result.connection.state = .established → result.connection.writeBio = [])
    (turn : result.connection.state ≠ .established →
      result.connection.state = .handshakeRead ∧ result.connection.isFinished ssl = false)
    (server : result.connection.intent = .server)
    (fed : result.connection.fed = caller.connection.fed ++ round.input)
    (kept : result.inputBuffer = round.input ++ round.behind) (inside : result.overrun = false) :
    ServerReads ssl (callRound ssl caller round) := by
  simp only [callRound, call]
  refine ⟨?_, complete, ?_, ?_, ?_, server, fun _ => turn⟩
  · rw [if_pos succeeded]
    exact balanced
  · rw [← reads.inputs]
    exact fed
  · simp [kept, reads.inputKept]
  · simp [inside, reads.inside]

/-- One round of the loop. -/
theorem ServerReads.round {caller : Caller Engine} (reads : ServerReads ssl caller)
    (active : caller.failed = false) (pending : caller.connection.state ≠ .established)
    {round : Round} (proper : Proper ssl caller round) :
    ServerReads ssl (callRound ssl caller round) := by
  obtain ⟨turn, notFinished⟩ := reads.turn active pending
  obtain ⟨server, short, ways⟩ := proper
  have balanced : caller.connection.Balanced caller.returned := reads.outputs
  by_cases nothing : round.input = []
  · have first : handshakeStep ssl caller.connection (round.input ++ round.behind)
        round.input.length =
          failStep caller.connection (round.input ++ round.behind) round.input.length false := by
      rw [nothing]
      exact handshakeStep_empty turn notFinished round.behind
    exact reads.fail (handshakeCall_fails first) rfl balanced pending server
      (by rw [nothing, List.append_nil]) rfl rfl
  · have first := handshakeStep_reads turn notFinished nothing short round.behind
    have fedBalanced : (afterInput ssl caller.connection round.input).Balanced caller.returned :=
      Connection.Balanced.doHandshake balanced
    rcases ways.resolve_left nothing with ⟨finished, fits⟩ | ⟨unfinished, stillPending, fits⟩
    · obtain ⟨size, sizeEq, second⟩ := handshakeStep_finished
        ((afterInput ssl caller.connection round.input).setState .handshakeWrite)
        server finished round.output fits
      have call := handshakeCall_reads first ConnectionState.noConfusion second
      have written : ((afterInput ssl caller.connection round.input).sslWrite ssl okText).Balanced
          caller.returned := fedBalanced.sslWrite okText
      have drained := written.drain round.output.length
      rw [List.take_of_length_le fits] at drained
      refine reads.succeed call rfl ?_ ?_ (fun unready => absurd rfl unready) server rfl rfl rfl
      · simp only [take_memcpy sizeEq]
        exact drained
      · intro _
        exact List.drop_of_length_le fits
    · have second := handshakeStep_writes
        ((afterInput ssl caller.connection round.input).setState .handshakeWrite)
        rfl unfinished stillPending round.output fits
      have again : ((afterInput ssl caller.connection round.input).doHandshake ssl).Balanced
          caller.returned := fedBalanced.doHandshake
      by_cases noBytes :
          ((afterInput ssl caller.connection round.input).doHandshake ssl).writeBio = []
      · have call := handshakeCall_reads first ConnectionState.noConfusion
          (second.trans (if_pos noBytes))
        exact reads.fail call rfl again ConnectionState.noConfusion server rfl rfl rfl
      · have call := handshakeCall_reads first ConnectionState.noConfusion
          (second.trans (if_neg noBytes))
        refine reads.succeed call rfl ?_ (fun ready => nomatch ready)
          (fun _ => ⟨rfl, stillPending⟩) server rfl rfl rfl
        simp only [Int.toNat_natCast, take_memcpy]
        exact again.drain localSize

theorem serverReads_start {engine : Engine} (fresh : ssl.isInitFinished engine = false) :
    ServerReads ssl (startCaller engine .server) where
  outputs := rfl
  complete := fun _ => rfl
  inputs := rfl
  inputKept := rfl
  inside := rfl
  server := rfl
  turn := fun _ _ => ⟨rfl, fresh⟩

end Steps

/-! ## A small engine -/

/-- An engine that answers the first input, finishes with the second one, and puts a
letter in front of what it encrypts.  A client begins without an input. -/
def smallEngine (client : Bool) : SslEngine Nat where
  isInitFinished stage := stage = 2
  doHandshake stage readBio :=
    match stage, readBio with
    | 0, [] => if client then (1, [], [10, 11, 12]) else (0, [], [])
    | 0, _ :: _ => (1, [], [20, 21])
    | 1, _ :: _ => (2, [], [22])
    | stage, rest => (stage, rest, [])
  sslWrite stage text := (stage, 99 :: text)
  sslRead stage readBio len := (stage, readBio.drop len, readBio.take len)

/-- Two rounds of a server. -/
def serverRounds : List Round :=
  [{ input := [1, 2], behind := [0], output := [7, 7, 7, 7, 7, 7] },
    { input := [3], behind := [], output := [7, 7, 7, 7, 7, 7] }]

end Tegenaria.LibSecure
