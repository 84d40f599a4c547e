import Mathlib.Tactic.NormNum.Basic
import Tegenaria.LibNet.Request

/-!
# Requests and answers over a pipe

`IpcSendAnswer` sends a code as `XYZ> ` and a message with the zero behind it, and `IpcRequest` reads them.
The prefix has to arrive at once, and the message is read in whatever parts it comes.
-/

namespace Tegenaria.LibIpc

open Foundation LibStr LibNet

/-! ## The functions -/

/-- `%03d` -/
def threeDigits (code : Int) : Chars :=
  if code < 0 then 45 :: (List.replicate (2 - (decimal code.natAbs).length) 48 ++ decimal code.natAbs)
  else List.replicate (3 - (decimal code.toNat).length) 48 ++ decimal code.toNat

/-- The first five of the at most six bytes that are printed. -/
def answerHead (code : Int) : Chars := ((threeDigits code ++ [62, 32]).take 6).take 5

structure Answered where
  exitCode : Int
  sent : Chars

/-- The last arguments are the results of both calls of `write`. -/
def IpcSendAnswer (code : Int) (msg : Option Chars) (first second : Int) : Answered :=
  let head := (answerHead code).take first.toNat
  if first ≠ 5 then { exitCode := -1, sent := head }
  else
    match msg with
    | some msg =>
        { exitCode := if second = msg.length + 1 then 0 else -1
          sent := head ++ (msg ++ [0]).take second.toNat }
    | none => { exitCode := -1, sent := head }

/-- What the client meets: the bytes of the server if the pipe can be opened, whether the command can be
sent, and how much has arrived at each read, if anything has in time. -/
structure Pipe where
  incoming : Option Chars
  commandSent : Bool
  arrived : Nat → Option Nat

/-- `TimeoutReadSelect`.  It waits for the first byte, or for the end. -/
def timeoutReadSelect (arrived : Option Nat) (incoming : Chars) (len : Nat) : Option Chars :=
  arrived.map fun count => incoming.take (min len (max 1 count))

theorem length_timeoutReadSelect {arrived : Option Nat} {incoming bytes : Chars} {len : Nat}
    (readed : timeoutReadSelect arrived incoming len = some bytes) : bytes.length ≤ len := by
  obtain ⟨count, -, rfl⟩ := Option.map_eq_some_iff.mp readed
  rw [List.length_take]
  omega

/-- The loop that reads the message. -/
def readMessageParts (arrived : Nat → Option Nat) (call room : Nat) (incoming : Chars) : Chars :=
  match _ : timeoutReadSelect (arrived call) incoming room with
  | none => []
  | some bytes =>
      if _ : bytes = [] then []
      else
        bytes ++
          readMessageParts arrived (call + 1) (room - bytes.length) (incoming.drop bytes.length)
termination_by room
decreasing_by
  have fits := length_timeoutReadSelect ‹_›
  have positive := List.length_pos_iff.mpr ‹_›
  omega

structure IpcReply where
  exitCode : Int
  serverCode : Option Int
  serverMsg : Option (Memory UInt8)
  command : Chars

/-- Nothing but the code is written to the caller's variables behind a failure. -/
def failedReply (serverCode : Option Int) (serverMsg : Option (Memory UInt8)) (command : Chars) : IpcReply :=
  { exitCode := -1, serverCode := serverCode.map fun _ => -1, serverMsg, command }

def IPC_LEN_MAX : Nat := 1024 * 256

/-- `buf` is the memory from the local buffer on, and the text is what the arguments are formatted to.
`none` stands for a null pointer. -/
def IpcRequest (pipe : Pipe) (buf : Memory UInt8) (pipeName : Option Chars) (serverCode : Option Int)
    (serverMsg : Option (Memory UInt8)) (serverMsgSize : Int) (fmt : Option Chars) : IpcReply :=
  match pipeName, fmt with
  | some _, some text =>
      let serverMsg := serverMsg.map fun memory : Memory UInt8 =>
        if serverMsgSize ≠ 0 then Function.update memory 0 0 else memory
      match pipe.incoming with
      | none => failedReply serverCode serverMsg []
      | some incoming =>
          let (buf, len) := vsnprintf buf (IPC_LEN_MAX - 1) text
          let command := buf.slice 0 len.toNat
          if pipe.commandSent = false then failedReply serverCode serverMsg []
          else
            match timeoutReadSelect (pipe.arrived 0) incoming 5 with
            | none => failedReply serverCode serverMsg command
            | some head =>
                if head.length ≠ 5 then failedReply serverCode serverMsg command
                else
                  let serverMsg := serverMsg.map fun memory : Memory UInt8 =>
                    if serverMsgSize > 0 then
                      let msg := readMessageParts pipe.arrived 1 (serverMsgSize - 1).toNat (incoming.drop 5)
                      Memory.store memory 0 (msg ++ [0])
                    else memory
                  { exitCode := 0, serverCode := serverCode.map fun _ => atoi (head.set 4 0), serverMsg,
                    command }
  | _, _ => failedReply serverCode serverMsg []

/-! ## The message -/

/-- However a message arrives, it is read to its end or until the buffer is full. -/
theorem readMessageParts_eq {arrived : Nat → Option Nat} (inTime : ∀ call, arrived call ≠ none)
    (call room : Nat) (incoming : Chars) : readMessageParts arrived call room incoming = incoming.take room := by
  fun_induction readMessageParts arrived call room incoming with
  | case1 call room incoming late =>
      exact (inTime call (Option.map_eq_none_iff.mp late)).elim
  | case2 call room incoming readed =>
      obtain ⟨count, -, nothing⟩ := Option.map_eq_some_iff.mp readed
      rw [List.take_eq_nil_iff] at nothing
      rcases nothing with full | rfl
      · have zero : room = 0 := by omega
        rw [zero, List.take_zero]
      · exact List.take_nil.symm
  | case3 call room incoming bytes readed ended ih =>
      obtain ⟨count, -, rfl⟩ := Option.map_eq_some_iff.mp readed
      have fits := length_timeoutReadSelect readed
      have same (limit : Nat) : incoming.take (incoming.take limit).length = incoming.take limit := by
        rw [List.length_take, ← List.take_eq_take_min]
      rw [ih]
      generalize min room (max 1 count) = limit at fits ⊢
      have whole := List.take_add (l := incoming) (i := (incoming.take limit).length)
        (j := room - (incoming.take limit).length)
      rw [Nat.add_sub_cancel' fits, same] at whole
      exact whole.symm

/-! ## The code -/

theorem length_decimal_pos (value : Nat) : 0 < (decimal value).length := by
  obtain ⟨first, -, rest, digits⟩ := decimal_begin value
  rw [digits]
  exact Nat.zero_lt_succ _

theorem length_decimal_le (value : Nat) {count : Nat} (positive : 0 < count) :
    (decimal value).length ≤ count ↔ value < 10 ^ count := by
  fun_induction decimal value generalizing count with
  | case1 value small =>
      have first : 10 ^ 1 ≤ 10 ^ count := Nat.pow_le_pow_right (by decide) positive
      rw [List.length_singleton]
      exact iff_of_true positive (by omega)
  | case2 value large ih =>
      obtain ⟨fewer, rfl⟩ := Nat.exists_eq_add_one_of_ne_zero (Nat.ne_of_gt positive)
      rw [List.length_append, List.length_singleton, Nat.add_le_add_iff_right, Nat.pow_succ]
      rcases Nat.eq_zero_or_pos fewer with rfl | some_left
      · have longer := length_decimal_pos (value / 10)
        exact iff_of_false (by omega) (by omega)
      · rw [ih some_left]
        omega

/-- Zeros in front of digits make no difference. -/
theorem readDigits_zeros (count : Nat) (rest : Chars) :
    readDigits 0 (List.replicate count 48 ++ rest) = readDigits 0 rest := by
  induction count with
  | zero => rfl
  | succ count ih =>
      have zero : (48 : UInt8) = digit 0 := rfl
      rw [List.replicate_succ, List.cons_append, zero, readDigits_digit (by decide), ← zero]
      exact ih

/-- A text in which no digit is first. -/
def EndsNumber (rest : Chars) : Prop := ∀ letter later, rest = letter :: later → ¬(48 ≤ letter ∧ letter ≤ 57)

theorem readDigits_end {rest : Chars} (ends : EndsNumber rest) (value : Int) : readDigits value rest = value := by
  cases rest with
  | nil => rfl
  | cons letter later => rw [readDigits, if_neg (ends letter later rfl)]

theorem readDigits_padded (count value : Nat) {rest : Chars} (ends : EndsNumber rest) :
    readDigits 0 (List.replicate count 48 ++ decimal value ++ rest) = value := by
  rw [List.append_assoc, readDigits_zeros, readDigits_decimal, readDigits_end ends]

/-- Padded digits begin with a digit. -/
theorem padded_begin (count value : Nat) (rest : Chars) :
    ∃ first < 10, ∃ later, List.replicate count 48 ++ decimal value ++ rest = digit first :: later := by
  cases count with
  | zero =>
      obtain ⟨first, small, later, digits⟩ := decimal_begin value
      exact ⟨first, small, later ++ rest, by rw [List.replicate_zero, List.nil_append, digits, List.cons_append]⟩
  | succ count => exact ⟨0, by decide, _, rfl⟩

/-- A code is read back from `%03d`. -/
theorem atoi_threeDigits {code : Int} (lower : -2 ^ 31 ≤ code) (upper : code < 2 ^ 31) {rest : Chars}
    (ends : EndsNumber rest) : atoi (threeDigits code ++ rest) = code := by
  rw [threeDigits]
  split
  · next negative =>
      have read := readDigits_padded (2 - (decimal code.natAbs).length) code.natAbs ends
      have same : -(code.natAbs : Int) = code := by omega
      rw [List.cons_append, atoi, List.dropWhile_cons_of_neg (by decide)]
      exact (congrArg (fun value => longToInt (-value)) read).trans (by
        rw [same, longToInt_of_fits lower upper])
  · next natural =>
      obtain ⟨first, small, later, digits⟩ := padded_begin (3 - (decimal code.toNat).length) code.toNat rest
      have same : (code.toNat : Int) = code := by omega
      rw [atoi_digits small digits, readDigits_padded _ _ ends, same, longToInt_of_fits lower upper]

theorem readDigits_bounds {value : Int} (natural : 0 ≤ value) (front : Chars) :
    0 ≤ readDigits value (front ++ [0]) ∧ readDigits value (front ++ [0]) < (value + 1) * 10 ^ front.length := by
  induction front generalizing value with
  | nil =>
      rw [List.nil_append, readDigits_end (fun _ _ same => by cases same; decide)]
      simp only [List.length_nil, Int.pow_zero]
      omega
  | cons letter front ih =>
      rw [List.cons_append, readDigits, List.length_cons, Int.pow_succ]
      have power : 0 < (10 : Int) ^ front.length := Int.pow_pos (by decide)
      have scaled : (value + 1) * (10 ^ front.length * 10) = (value * 10 + 10) * 10 ^ front.length := by
        rw [Int.mul_comm (10 ^ front.length) 10, ← Int.mul_assoc, Int.add_mul value 1 10, Int.one_mul]
      rw [scaled]
      split
      · next isDigit =>
          have below : letter.toNat ≤ 57 := isDigit.2
          have above : 48 ≤ letter.toNat := isDigit.1
          have larger : 0 ≤ value * 10 + ((letter.toNat : Int) - 48) := by omega
          obtain ⟨lower, upper⟩ := ih larger
          refine ⟨lower, Int.lt_of_lt_of_le upper ?_⟩
          exact Int.mul_le_mul_of_nonneg_right (by omega) (Int.le_of_lt power)
      · refine ⟨natural, ?_⟩
        have one : 1 ≤ (10 : Int) ^ front.length := power
        calc value < (value * 10 + 10) * 1 := by omega
          _ ≤ (value * 10 + 10) * 10 ^ front.length := Int.mul_le_mul_of_nonneg_left one (by omega)

/-- Four letters make no number of more than four digits, and of at most three behind a sign. -/
theorem atoi_bounds {front : Chars} (short : front.length ≤ 4) :
    -999 ≤ atoi (front ++ [0]) ∧ atoi (front ++ [0]) ≤ 9999 := by
  have shrinks : ∃ left, (front ++ [0]).dropWhile isBlank = left ++ [0] ∧ left.length ≤ 4 := by
    refine ⟨front.dropWhile isBlank, ?_, Nat.le_trans (List.dropWhile_sublist _).length_le short⟩
    rw [List.dropWhile_append]
    split
    · next nothing =>
        rw [List.isEmpty_iff.mp nothing]
        rfl
    · rfl
  obtain ⟨left, blanks, fewer⟩ := shrinks
  rw [atoi, blanks]
  have power {count limit : Nat} (below : count ≤ limit) : (10 : Int) ^ count ≤ 10 ^ limit := by
    have natural : 10 ^ count ≤ 10 ^ limit := Nat.pow_le_pow_right (by decide) below
    exact_mod_cast natural
  cases left with
  | nil => exact ⟨by decide, by decide⟩
  | cons sign digits =>
      rw [List.length_cons] at fewer
      obtain ⟨lower, upper⟩ := readDigits_bounds (Int.le_refl 0) digits
      obtain ⟨lowerAll, upperAll⟩ := readDigits_bounds (Int.le_refl 0) (sign :: digits)
      have three : (10 : Int) ^ digits.length ≤ 10 ^ 3 := power (by omega)
      have four : (10 : Int) ^ (sign :: digits).length ≤ 10 ^ 4 := power (by rw [List.length_cons]; omega)
      rw [List.cons_append] at lowerAll upperAll ⊢
      split
      · next same =>
          cases same
          rw [longToInt_of_fits (by omega) (by omega)]
          omega
      · next same =>
          cases same
          rw [longToInt_of_fits (by omega) (by omega)]
          omega
      · rw [longToInt_of_fits (by omega) (by omega)]
        omega

theorem length_threeDigits (code : Int) :
    3 ≤ (threeDigits code).length ∧ ((threeDigits code).length ≤ 4 ↔ -999 ≤ code ∧ code ≤ 9999) := by
  rw [threeDigits]
  split
  · next negative =>
      have digits : _ ≤ 3 ↔ _ := length_decimal_le code.natAbs (by decide)
      simp only [List.length_cons, List.length_append, List.length_replicate]
      omega
  · next natural =>
      have digits : _ ≤ 4 ↔ _ := length_decimal_le code.toNat (by decide)
      simp only [List.length_append, List.length_replicate]
      omega

/-- The head is long enough that its last byte can be replaced. -/
theorem answerHead_set (code : Int) :
    (answerHead code).set 4 0 = (threeDigits code ++ [62, 32]).take 4 ++ [0] := by
  have long := (length_threeDigits code).1
  have enough : 4 < (threeDigits code ++ [62, 32]).length := by
    rw [List.length_append]
    exact Nat.add_le_add_right long 2
  rw [answerHead, List.take_take]
  obtain ⟨first, second, third, fourth, fifth, rest, same⟩ :
      ∃ first second third fourth fifth rest,
        threeDigits code ++ [62, 32] = first :: second :: third :: fourth :: fifth :: rest := by
    generalize threeDigits code ++ [62, 32] = text at enough
    match text with
    | first :: second :: third :: fourth :: fifth :: rest => exact ⟨_, _, _, _, _, _, rfl⟩
  rw [same]
  rfl

/-- The client reads the code that was sent exactly if it has at most four characters. -/
theorem atoi_answerHead {code : Int} (lower : -2 ^ 31 ≤ code) (upper : code < 2 ^ 31) :
    atoi ((answerHead code).set 4 0) = code ↔ -999 ≤ code ∧ code ≤ 9999 := by
  obtain ⟨long, short⟩ := length_threeDigits code
  rw [answerHead_set]
  constructor
  · intro same
    rw [← same]
    exact atoi_bounds (List.length_take_le ..)
  · intro range
    have few := short.mpr range
    rcases Nat.lt_or_ge (threeDigits code).length 4 with three | four
    · have exact_length : (threeDigits code).length = 3 := by omega
      rw [List.take_append, List.take_of_length_le (by omega), exact_length, List.append_assoc]
      exact atoi_threeDigits lower upper fun _ _ same => by cases same; decide
    · rw [List.take_append_of_le_length four, List.take_of_length_le few]
      exact atoi_threeDigits lower upper fun _ _ same => by cases same; decide

/-! ## The exchange -/

/-- The message in the buffer of the client: as much of it as fits, with a zero behind it, and nothing
behind the buffer. -/
def Received (msg : Chars) (serverMsgSize : Int) (before after : Memory UInt8) : Prop :=
  after.slice 0 (min msg.length (serverMsgSize - 1).toNat + 1) = msg.take (serverMsgSize - 1).toNat ++ [0] ∧
    ∀ address : Nat, serverMsgSize ≤ address → after address = before address

/-- What the server sends when both calls of `write` take everything. -/
theorem ipcSendAnswer_eq (code : Int) (msg : Chars) :
    IpcSendAnswer code (some msg) 5 (msg.length + 1) =
      { exitCode := 0, sent := answerHead code ++ (msg ++ [0]) } := by
  have head : (answerHead code).length ≤ 5 := List.length_take_le ..
  have all : ((msg.length : Int) + 1).toNat = (msg ++ [0]).length := by
    rw [List.length_append]
    exact Int.toNat_natCast (msg.length + 1)
  have five : (5 : Int).toNat = 5 := rfl
  rw [IpcSendAnswer, if_neg (not_not_intro rfl), if_pos rfl, all, List.take_length, five,
    List.take_of_length_le head]

/-- Without a message the server reports a failure, although the client gets the code. -/
theorem ipcSendAnswer_none (code first second : Int) : (IpcSendAnswer code none first second).exitCode = -1 := by
  rw [IpcSendAnswer]
  split <;> rfl

theorem length_answerHead (code : Int) : (answerHead code).length = 5 := by
  have long := (length_threeDigits code).1
  simp only [answerHead, List.length_take, List.length_append, List.length_cons, List.length_nil]
  omega

/-- A buffer that is filled with what was read, and closed with a zero, holds the message. -/
theorem received (msg : Chars) {serverMsgSize : Int} (room : 0 < serverMsgSize) (memory : Memory UInt8) :
    Received msg serverMsgSize memory
      (Memory.store (Function.update memory 0 0) 0 ((msg ++ [0]).take (serverMsgSize - 1).toNat ++ [0])) := by
  have size : ((serverMsgSize - 1).toNat : Int) = serverMsgSize - 1 := Int.toNat_of_nonneg (by omega)
  rw [Received]
  generalize (serverMsgSize - 1).toNat = limit at size
  have stored : ((msg ++ [0]).take limit ++ [0]).length = min limit (msg.length + 1) + 1 := by
    rw [List.length_append, List.length_take, List.length_append]
    rfl
  constructor
  · have whole := Memory.slice_store (Function.update memory 0 0) 0 ((msg ++ [0]).take limit ++ [0])
    have kept : min msg.length limit + 1 ≤ ((msg ++ [0]).take limit ++ [0]).length := by omega
    rw [← Memory.slice_take _ 0 kept, whole]
    rcases Nat.lt_or_ge msg.length limit with fits | long
    · have all : (msg ++ [0]).length ≤ limit := by rw [List.length_append]; exact fits
      rw [List.take_of_length_le all, Nat.min_eq_left (Nat.le_of_lt fits), List.take_of_length_le (Nat.le_of_lt fits),
        List.take_append_of_le_length (by rw [List.length_append]; exact Nat.le_refl _)]
      exact List.take_of_length_le (by rw [List.length_append]; exact Nat.le_refl _)
    · rw [List.take_append_of_le_length long, Nat.min_eq_right long]
      exact List.take_of_length_le (by
        rw [List.length_append, List.length_take]
        exact Nat.add_le_add_right (Nat.min_le_left _ _) 1)
  · intro address behind
    have outside : 0 + ((msg ++ [0]).take limit ++ [0]).length ≤ address := by omega
    rw [Memory.store_outside _ outside, Function.update_of_ne (by omega)]

/-- However the answer is cut on its way, if nothing comes too late then the request succeeds exactly if the
prefix arrives at once.  The client has then the message as far as it fits, and it has the code exactly if
the code has at most four characters. -/
theorem ipcRequest_arrives {code : Int} (lower : -2 ^ 31 ≤ code) (upper : code < 2 ^ 31) (msg : Chars)
    {arrived : Nat → Option Nat} (inTime : ∀ call, arrived call ≠ none) (buf memory : Memory UInt8)
    (name text : Chars) (serverCode : Int) {serverMsgSize : Int} (room : 0 < serverMsgSize)
    {answered : Answered} (answers : answered = IpcSendAnswer code (some msg) 5 (msg.length + 1))
    {reply : IpcReply} (requests : reply = IpcRequest ⟨some answered.sent, true, arrived⟩ buf (some name)
      (some serverCode) (some memory) serverMsgSize (some text)) :
    answered.exitCode = 0 ∧ (reply.exitCode = 0 ↔ ∃ count, 5 ≤ count ∧ arrived 0 = some count) ∧
      (reply.exitCode = 0 →
        (reply.serverCode = some code ↔ -999 ≤ code ∧ code ≤ 9999) ∧
          ∃ after, reply.serverMsg = some after ∧ Received msg serverMsgSize memory after) := by
  rw [ipcSendAnswer_eq] at answers
  subst answers
  obtain ⟨count, first⟩ := Option.ne_none_iff_exists'.mp (inTime 0)
  have head : timeoutReadSelect (arrived 0) (answerHead code ++ (msg ++ [0])) 5 =
      some ((answerHead code).take (min 5 (max 1 count))) := by
    rw [first, timeoutReadSelect, Option.map_some,
      List.take_append_of_le_length (by rw [length_answerHead]; exact Nat.min_le_left _ _)]
  have length : ((answerHead code).take (min 5 (max 1 count))).length ≠ 5 ↔ ¬5 ≤ count := by
    rw [List.length_take, length_answerHead]
    omega
  have drop : (answerHead code ++ (msg ++ [0])).drop 5 = msg ++ [0] := by
    rw [← length_answerHead code, List.drop_left]
  refine ⟨rfl, ?_⟩
  have nonzero : serverMsgSize ≠ 0 := by omega
  rw [IpcRequest] at requests
  simp only [Option.map_some, Bool.true_eq_false, if_false, head, length] at requests
  by_cases prompt : 5 ≤ count
  · have whole : (answerHead code).take (min 5 (max 1 count)) = answerHead code :=
      List.take_of_length_le (by rw [length_answerHead]; omega)
    simp only [not_not_intro prompt, if_false, room, if_true, drop, readMessageParts_eq inTime, whole,
      if_pos nonzero] at requests
    subst requests
    refine ⟨iff_of_true rfl ⟨count, prompt, first⟩, fun _ => ⟨?_, _, rfl, received msg room memory⟩⟩
    rw [Option.some.injEq]
    exact atoi_answerHead lower upper
  · simp only [prompt, not_false_eq_true, if_true] at requests
    subst requests
    have late : ¬∃ count, 5 ≤ count ∧ arrived 0 = some count := by
      rintro ⟨other, enough, same⟩
      rw [first] at same
      cases same
      exact prompt enough
    exact ⟨iff_of_false nofun late, nofun⟩

/-- The client of a server that answers `201> OK`, with a buffer of 64 bytes. -/
def createdReply : IpcReply :=
  IpcRequest ⟨some (IpcSendAnswer 201 (some [79, 75]) 5 3).sent, true, fun _ => some 5⟩ (fun _ => 0) (some [97])
    (some 0) (some fun _ => 0) 64 (some [98])

theorem ipcRequest_arrives_created : (IpcSendAnswer 201 (some [79, 75]) 5 3).exitCode = 0 ∧
    (createdReply.exitCode = 0 ↔ ∃ count, 5 ≤ count ∧ some 5 = some count) := by
  have lower : -2 ^ 31 ≤ (201 : Int) := by decide
  have inTime : ∀ call, (fun _ : Nat => some 5) call ≠ none := fun _ => nofun
  have room : (0 : Int) < 64 := by decide
  have all := ipcRequest_arrives lower (by decide) [79, 75] inTime (fun _ => 0) (fun _ => 0) [97] [98] 0 room rfl rfl
  exact ⟨all.1, all.2.1⟩

end Tegenaria.LibIpc
