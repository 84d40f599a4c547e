import Tegenaria.LibNet.Base64
import Tegenaria.LibNet.Request

/-!
# The SMTP client

`NetSmtpSendMail` formats each command into a buffer of 512 bytes and sends as many bytes as
the whole command has.  The rules for scripts that send and receive in turn say which bytes
are sent to a server that accepts every step: all texts as they are exactly if each is
shorter than the room it is formatted into.
-/

namespace Tegenaria.LibNet

open Foundation Foundation.Word LibStr

/-! ## Scripts -/

/-- What the server will answer, what was sent to it, and the local buffer with the memory
behind it. -/
structure Wire where
  answers : List Chars
  outgoing : Chars
  buf : Memory UInt8

/-- A part of a function; `none` is a jump to the error handler. -/
def Client (α : Type) : Type := Wire → Option α × Wire

instance : Monad Client where
  pure value wire := (some value, wire)
  bind client next wire :=
    match client wire with
    | (some value, wire) => next value wire
    | (none, wire) => (none, wire)

namespace Client

/-- `FAIL` -/
def fail (condition : Bool) : Client Unit := fun wire => (if condition then none else some (), wire)

/-- The contents of the buffer. -/
def buffer : Client (Memory UInt8) := fun wire => (some wire.buf, wire)

/-- `write` of a connection. -/
def write (bytes : Memory UInt8) (count : Int) : Client Int := fun wire =>
  if count ≤ 0 then (some (-1), wire)
  else (some count, { wire with outgoing := wire.outgoing ++ bytes.slice 0 count.toNat })

/-- `write` of a constant. -/
def writeText (text : Chars) : Client Int := write (Memory.ofList 0 text) text.length

/-- `snprintf` into the buffer, and `write` of as many bytes as it says. -/
def writeFormatted (size : Nat) (text : Chars) : Client Int := fun wire =>
  let (buf, len) := vsnprintf wire.buf size text
  write buf len { wire with buf := buf }

/-- `FAIL(written <= 0)` -/
def checked (write : Client Int) : Client Unit := do
  let written ← write
  fail (written ≤ 0)

/-- A call of `write` whose result is not used. -/
def unchecked (write : Client Int) : Client Unit := do
  let _ ← write

end Client

open Client

/-! ## The functions -/

/-- The bytes of an ASCII text. -/
@[irreducible] def bytes (text : String) : Chars := text.toList.map fun letter => .ofNat letter.toNat

/-- The end of a line. -/
def crlf : Chars := [13, 10]

def smtpEhlo : Chars := bytes "EHLO Dirligo" ++ crlf

def smtpAuthLogin : Chars := bytes "AUTH LOGIN" ++ crlf

def smtpData : Chars := bytes "DATA" ++ crlf

def smtpEnd : Chars := crlf ++ bytes "." ++ crlf

def smtpRset : Chars := bytes "RSET" ++ crlf

def smtpQuit : Chars := bytes "QUIT" ++ crlf

/-- The lines of `SMTP_HEAD_FMT`. -/
def smtpHeadLines (fromFull fromAddr receiver subject : Chars) : List Chars :=
  [bytes "From: " ++ fromFull ++ bytes " <" ++ fromAddr ++ bytes ">",
    bytes "To: <" ++ receiver ++ bytes ">",
    bytes "Subject: " ++ subject,
    bytes "Content-Type: text/plain",
    bytes "Mime-Version: 1.0",
    bytes "X-Mailer: Dirligo",
    bytes "Content-Transfer-Encoding: 7bit"]

/-- `SMTP_HEAD_FMT` with its arguments. -/
def smtpHeadFmt (fromFull fromAddr receiver subject : Chars) : Chars :=
  (smtpHeadLines fromFull fromAddr receiver subject).flatMap (· ++ crlf) ++ crlf

def smtpBase64User : Chars := bytes "334 VXNlcm5hbWU6"

def smtpBase64Pass : Chars := bytes "334 UGFzc3dvcmQ6"

def mailFromLine (fromAddr : Chars) : Chars := bytes "MAIL FROM: <" ++ fromAddr ++ bytes ">"

def mailFromFmt (fromAddr : Chars) : Chars := mailFromLine fromAddr ++ crlf

def rcptToLine (receiver : Chars) : Chars := bytes "RCPT TO: <" ++ receiver ++ bytes ">"

def rcptToFmt (receiver : Chars) : Chars := rcptToLine receiver ++ crlf

/-- `NetSmtpReadServerAnswer`.  One `read` gives at most `msgSize` bytes of an answer. -/
def netSmtpReadServerAnswer (msgSize : Nat) : Client Unit := fun wire =>
  let buf : Memory UInt8 := Function.update wire.buf 0 0
  match wire.answers with
  | [] => (none, { wire with buf := buf })
  | answer :: later =>
      let msg := answer.take msgSize
      let answers := if msgSize < answer.length then answer.drop msgSize :: later else later
      if msg = [] then (none, { wire with answers := answers, buf := buf })
      else
        let msg := msg.set (msg.length - 1) 0
        let smtpCodeGroup := (atoi msg).tdiv 100
        (if smtpCodeGroup ≠ 2 ∧ smtpCodeGroup ≠ 3 then none else some (),
          { wire with answers := answers, buf := Memory.store buf 0 msg })

/-- One round of the loop that sends the login and the password.  `strncmp` compares as many
letters as the prompt has. -/
def authRound (block3 : Memory UInt8) (login password : Chars) : Client Unit := do
  netSmtpReadServerAnswer 512
  let buf ← buffer
  if buf.slice 0 smtpBase64User.length = smtpBase64User then
    unchecked (writeFormatted 512 (netBase64 block3 login ++ crlf))
  else if buf.slice 0 smtpBase64Pass.length = smtpBase64Pass then
    unchecked (writeFormatted 512 (netBase64 block3 password ++ crlf))
  else fail true

/-- The hello message of the client. -/
def sendEhlo : Client Unit := do
  let written ← writeText smtpEhlo
  fail (written < 0)

/-- A formatted command and its answer. -/
def sendCommand (text : Chars) : Client Unit := do
  checked (writeFormatted (512 - 1) text)
  netSmtpReadServerAnswer 512

/-- The loop over the receivers. -/
def sendReceivers : List Chars → Client Unit
  | [] => pure ()
  | receiver :: rest => do
      sendCommand (rcptToFmt receiver)
      sendReceivers rest

/-- The part of `NetSmtpSendMail` behind the connect. -/
def sendMail (block3 : Memory UInt8) (fromAddr fromFull subject : Chars) (receivers : List Chars)
    (message login password : Chars) : Client Unit := do
  netSmtpReadServerAnswer 512
  sendEhlo
  netSmtpReadServerAnswer 512
  unchecked (writeText smtpAuthLogin)
  authRound block3 login password
  authRound block3 login password
  netSmtpReadServerAnswer 512
  sendCommand (mailFromFmt fromAddr)
  sendReceivers receivers
  checked (writeText smtpData)
  netSmtpReadServerAnswer 512
  checked (writeFormatted 512 (smtpHeadFmt fromFull fromAddr (receivers.headD []) subject))
  checked (write (Memory.ofList 0 message) (toI32 message.length))
  unchecked (writeText smtpEnd)
  netSmtpReadServerAnswer 512
  unchecked (writeText smtpRset)
  netSmtpReadServerAnswer 512
  unchecked (writeText smtpQuit)
  netSmtpReadServerAnswer 512

/-- The arguments of `NetSmtpSendMail`; `none` stands for a null pointer. -/
structure SmtpArgs where
  smtpHost : Option Chars
  smtpPort : Int
  fromAddr : Option Chars
  fromFull : Option Chars
  subject : Option Chars
  receivers : List Chars
  message : Option Chars
  login : Option Chars
  password : Option Chars

/-- `NetSmtpSendMail`: the exit code and what was sent.  `netConnect` gives what the server
behind a connection will answer; `buf` and `block3` are local buffers. -/
def netSmtpSendMail (netConnect : Chars → Int → Option (List Chars)) (buf block3 : Memory UInt8)
    (args : SmtpArgs) : Int × Chars :=
  match args.smtpHost, args.fromAddr, args.fromFull, args.subject, args.message, args.login,
      args.password with
  | some smtpHost, some fromAddr, some fromFull, some subject, some message, some login,
      some password =>
      if args.receivers = [] then (-1, [])
      else
        match netConnect smtpHost args.smtpPort with
        | none => (-1, [])
        | some answers =>
            let (done, wire) :=
              sendMail block3 fromAddr fromFull subject args.receivers message login password
                { answers := answers, outgoing := [], buf := buf }
            (if done.isSome then 0 else -1, wire.outgoing)
  | _, _, _, _, _, _, _ => (-1, [])

/-! ## Rules -/

namespace Client

variable {α β : Type} {client : Client α} {next : α → Client β} {wire after : Wire} {value : α}

theorem bind_ok (ran : client wire = (some value, after)) :
    (client >>= next) wire = next value after := by
  change (match client wire with
    | (some value, wire) => next value wire
    | (none, wire) => (none, wire)) = _
  rw [ran]

theorem bind_failed (failed : (client wire).1 = none) : ((client >>= next) wire).1 = none := by
  change (match client wire with
    | (some value, wire) => next value wire
    | (none, wire) => (none, wire)).1 = none
  cases ran : client wire with
  | mk result after =>
      rw [ran] at failed
      cases failed
      rfl

end Client

/-- A text that is to be sent.  It is sent as it is if it is shorter than a limit. -/
structure Sending where
  text : Chars
  limit : Nat
  checked : Bool

namespace Sending

/-- The text fits, and it is not empty if the client looks at the result of `write`. -/
def Good (sending : Sending) : Prop :=
  sending.text.length < sending.limit ∧ (sending.checked → sending.text ≠ [])

/-- The bytes that are sent for it. -/
structure Sends (sending : Sending) (piece : Chars) : Prop where
  short : piece.length ≤ sending.text.length
  same_iff : piece = sending.text ↔ sending.text.length < sending.limit
  nonempty : sending.checked → piece ≠ []

end Sending

/-- Given the answers, the script sends the texts, or it fails because one of them is not
good. -/
def Delivers (client : Client Unit) (answers : List Chars) (sendings : List Sending) : Prop :=
  ∀ later outgoing buf,
    (∃ pieces after, List.Forall₂ Sending.Sends sendings pieces ∧
      client { answers := answers ++ later, outgoing := outgoing, buf := buf } =
        (some (), { answers := later, outgoing := outgoing ++ pieces.flatten, buf := after })) ∨
    (client { answers := answers ++ later, outgoing := outgoing, buf := buf }).1 = none ∧
      ∃ sending ∈ sendings, ¬sending.Good

namespace Delivers

theorem pure : Delivers (pure ()) [] [] :=
  fun later outgoing buf => .inl ⟨[], buf, .nil, by rw [List.flatten_nil, List.append_nil]; rfl⟩

/-- Two scripts one after the other. -/
theorem seq {first second : Client Unit} {answers others : List Chars} {sendings more : List Sending}
    (delivers : Delivers first answers sendings) (next : Delivers second others more) :
    Delivers (first >>= fun _ => second) (answers ++ others) (sendings ++ more) := by
  intro later outgoing buf
  rw [List.append_assoc]
  rcases delivers (others ++ later) outgoing buf with ⟨pieces, after, sends, ran⟩ | ⟨failed, bad⟩
  · rw [Client.bind_ok ran]
    rcases next later (outgoing ++ pieces.flatten) after with
      ⟨rest, final, sendsRest, ranRest⟩ | ⟨failed, sending, member, bad⟩
    · refine .inl ⟨pieces ++ rest, final, List.rel_append sends sendsRest, ?_⟩
      rw [ranRest, List.flatten_append, List.append_assoc]
    · exact .inr ⟨failed, sending, List.mem_append_right _ member, bad⟩
  · obtain ⟨sending, member, bad⟩ := bad
    exact .inr ⟨Client.bind_failed failed, sending, List.mem_append_left _ member, bad⟩

end Delivers

/-- An answer that the client takes as a success. -/
structure Positive (answer : Chars) : Prop where
  nonempty : answer ≠ []
  short : answer.length ≤ 512
  code : (atoi (answer.set (answer.length - 1) 0)).tdiv 100 = 2 ∨
    (atoi (answer.set (answer.length - 1) 0)).tdiv 100 = 3

/-- A positive answer is read into the buffer. -/
theorem readAnswer_positive {answer : Chars} (positive : Positive answer) (later : List Chars)
    (outgoing : Chars) (buf : Memory UInt8) :
    netSmtpReadServerAnswer 512 { answers := answer :: later, outgoing := outgoing, buf := buf } =
      (some (), { answers := later, outgoing := outgoing
                  buf := Memory.store (Function.update buf 0 0) 0 (answer.set (answer.length - 1) 0) }) := by
  have accepted : ¬((atoi (answer.set (answer.length - 1) 0)).tdiv 100 ≠ 2 ∧
      (atoi (answer.set (answer.length - 1) 0)).tdiv 100 ≠ 3) := by
    rintro ⟨notTwo, notThree⟩
    exact positive.code.elim notTwo notThree
  rw [netSmtpReadServerAnswer]
  simp only [List.take_of_length_le positive.short, if_neg positive.nonempty,
    if_neg (Nat.not_lt.mpr positive.short), if_neg accepted]

theorem delivers_read {answer : Chars} (positive : Positive answer) :
    Delivers (netSmtpReadServerAnswer 512) [answer] [] := by
  intro later outgoing buf
  exact .inl ⟨[], _, .nil, by simpa using readAnswer_positive positive later outgoing buf⟩

/-! ### One text -/

/-- A call of `write` that sends a text as it is if it fits. -/
def Writes (write : Client Int) (text : Chars) (limit : Nat) : Prop :=
  ∀ wire, ∃ written piece after,
    write wire = (some written, { wire with outgoing := wire.outgoing ++ piece, buf := after }) ∧
      piece.length ≤ text.length ∧ (piece = text ↔ text.length < limit) ∧ (written ≤ 0 ↔ piece = [])

section Writes

variable {call : Client Int} {text : Chars} {limit : Nat}

theorem Writes.checked (writes : Writes call text limit) :
    Delivers (Client.checked call) [] [{ text := text, limit := limit, checked := true }] := by
  intro later outgoing buf
  obtain ⟨written, piece, after, ran, short, same, empty⟩ :=
    writes { answers := later, outgoing := outgoing, buf := buf }
  have next : Client.checked call { answers := [] ++ later, outgoing := outgoing, buf := buf } =
      fail (written ≤ 0) { answers := later, outgoing := outgoing ++ piece, buf := after } :=
    bind_ok ran
  rw [next, fail]
  by_cases nothing : piece = []
  · refine .inr ⟨by simp [empty.mpr nothing], _, List.mem_singleton_self _, ?_⟩
    rintro ⟨fits, nonempty⟩
    exact nonempty rfl ((same.mpr fits).symm.trans nothing)
  · refine .inl ⟨[piece], after, .cons ⟨short, same, fun _ => nothing⟩ .nil, ?_⟩
    rw [if_neg (by simpa using empty.not.mpr nothing), List.flatten_singleton]

theorem Writes.unchecked (writes : Writes call text limit) :
    Delivers (Client.unchecked call) [] [{ text := text, limit := limit, checked := false }] := by
  intro later outgoing buf
  obtain ⟨written, piece, after, ran, short, same, _⟩ :=
    writes { answers := later, outgoing := outgoing, buf := buf }
  refine .inl ⟨[piece], after, .cons ⟨short, same, fun absurdity => by cases absurdity⟩ .nil, ?_⟩
  rw [List.flatten_singleton]
  exact bind_ok ran

end Writes

/-- Bytes that lie in memory are written as they are. -/
theorem write_eq (memory : Memory UInt8) (count : Nat) (wire : Wire) :
    ∃ written, write memory count wire =
        (some written, { wire with outgoing := wire.outgoing ++ memory.slice 0 count }) ∧
      (written ≤ 0 ↔ memory.slice 0 count = []) := by
  rw [write]
  by_cases nothing : count = 0
  · refine ⟨-1, ?_, ?_⟩
    · rw [if_pos (by omega), nothing, Memory.slice_zero, List.append_nil]
    · simp [nothing]
  · refine ⟨count, ?_, ?_⟩
    · rw [if_neg (by omega), Int.toNat_natCast]
    · rw [← List.length_eq_zero_iff, Memory.slice_length]
      omega

theorem writeText_writes (text : Chars) : Writes (writeText text) text (text.length + 1) := by
  intro wire
  obtain ⟨written, ran, empty⟩ := write_eq (Memory.ofList 0 text) text.length wire
  rw [Memory.slice_ofList] at ran empty
  exact ⟨written, text, wire.buf, ran, Nat.le_refl _, iff_of_true rfl (Nat.lt_succ_self _), empty⟩

/-- The formatted text is in the buffer exactly if it fits. -/
theorem vsnprintf_slice_iff (buf : Memory UInt8) {size : Nat} {text : Chars} (positive : 0 < size)
    (noZero : 0 ∉ text) :
    (vsnprintf buf size text).1.slice 0 text.length = text ↔ text.length < size := by
  have stored : (vsnprintf buf size text).1 = buf.store 0 (text.take (size - 1) ++ [0]) := rfl
  rw [stored]
  constructor
  · intro same
    by_contra long
    have inside : size - 1 < text.length := by omega
    have kept : (text.take (size - 1)).length = size - 1 := by
      rw [List.length_take]
      omega
    have terminator : (buf.store 0 (text.take (size - 1) ++ [0])) (0 + (size - 1)) = 0 := by
      simp [Memory.store, kept]
    have letters := congrArg (·[size - 1]?) same
    simp only [Memory.slice_getElem? _ inside, terminator] at letters
    exact noZero (List.mem_of_getElem? letters.symm)
  · intro fits
    rw [List.take_of_length_le (by omega), ← Memory.slice_take _ _ (Nat.le_succ text.length)]
    have whole := Memory.slice_store buf 0 (text ++ [0])
    rw [List.length_append] at whole
    rw [Nat.succ_eq_add_one, show text.length + 1 = text.length + [(0 : UInt8)].length from rfl, whole,
      List.take_left]

theorem writeFormatted_writes {size : Nat} {text : Chars} (positive : 0 < size) (small : size ≤ 2 ^ 31)
    (noZero : 0 ∉ text) : Writes (writeFormatted size text) text size := by
  intro wire
  have formatted : writeFormatted size text wire =
      write (vsnprintf wire.buf size text).1 (if text.length < 2 ^ 31 then text.length else -1)
        { wire with buf := (vsnprintf wire.buf size text).1 } := rfl
  rw [formatted]
  by_cases fits : text.length < 2 ^ 31
  · obtain ⟨written, ran, empty⟩ := write_eq (vsnprintf wire.buf size text).1 text.length
      { wire with buf := (vsnprintf wire.buf size text).1 }
    rw [if_pos fits]
    exact ⟨written, _, _, ran, Nat.le_of_eq (Memory.slice_length _ _ _),
      vsnprintf_slice_iff wire.buf positive noZero, empty⟩
  · have long : text ≠ [] := by
      rintro rfl
      exact fits (by decide)
    rw [if_neg fits]
    refine ⟨-1, [], (vsnprintf wire.buf size text).1, ?_, Nat.zero_le _,
      iff_of_false long.symm (by omega), by simp⟩
    rw [write, if_pos (by decide), List.append_nil]

/-- The message is cut only by the conversion of its length. -/
theorem message_writes (message : Chars) :
    Writes (write (Memory.ofList 0 message) (toI32 message.length)) message (2 ^ 31) := by
  intro wire
  by_cases fits : message.length < 2 ^ 31
  · obtain ⟨written, ran, empty⟩ := write_eq (Memory.ofList 0 message) message.length wire
    rw [Memory.slice_ofList] at ran empty
    rw [toI32_of_fits (by omega) (by omega)]
    exact ⟨written, message, wire.buf, ran, Nat.le_refl _, iff_of_true rfl fits, empty⟩
  · have upper := toI32_upper message.length
    by_cases negative : toI32 message.length ≤ 0
    · have long : message ≠ [] := by
        rintro rfl
        exact fits (by decide)
      refine ⟨-1, [], wire.buf, ?_, Nat.zero_le _, iff_of_false long.symm (by omega), by simp⟩
      rw [write, if_pos negative, List.append_nil]
    · obtain ⟨count, same⟩ := Int.eq_ofNat_of_zero_le (by omega : 0 ≤ toI32 message.length)
      obtain ⟨written, ran, empty⟩ := write_eq (Memory.ofList 0 message) count wire
      rw [same] at upper ⊢
      refine ⟨written, _, wire.buf, ran, ?_, iff_of_false ?_ fits, empty⟩
      · rw [Memory.slice_length]
        omega
      · intro whole
        have lengths := congrArg List.length whole
        rw [Memory.slice_length] at lengths
        omega

/-! ### The prompts -/

/-- An answer that asks for the login or the password. -/
structure Prompts (answer prompt : Chars) : Prop where
  positive : Positive answer
  begins : (answer.set (answer.length - 1) 0).take prompt.length = prompt

/-- The prompt is found at the begin of the buffer. -/
theorem Prompts.slice {answer prompt : Chars} (prompts : Prompts answer prompt) (buf : Memory UInt8) :
    (buf.store 0 (answer.set (answer.length - 1) 0)).slice 0 prompt.length = prompt := by
  have long : prompt.length ≤ (answer.set (answer.length - 1) 0).length := by
    have lengths := congrArg List.length prompts.begins
    rw [List.length_take] at lengths
    omega
  rw [← Memory.slice_take _ _ long, Memory.slice_store, prompts.begins]

theorem base64Blocks_plain {letter : UInt8} (other : letter ∉ base64Charset) (notPad : letter ≠ 61)
    (data : List UInt8) : letter ∉ base64Blocks data := by
  obtain ⟨body, pad, split, _, inside⟩ := base64Blocks_alphabet data
  rw [split, List.mem_append, not_or]
  exact ⟨fun member => other (inside letter member), fun member =>
    notPad (List.eq_of_mem_replicate member)⟩

/-- The line with the code of a login or a password. -/
def credentialLine (data : Chars) : Chars := base64Blocks data ++ crlf

theorem credential_writes (block3 : Memory UInt8) (data : Chars) :
    Writes (writeFormatted 512 (netBase64 block3 data ++ crlf)) (credentialLine data) 512 := by
  rw [netBase64_eq]
  refine writeFormatted_writes (by decide) (by decide) ?_
  rw [List.mem_append, not_or]
  exact ⟨base64Blocks_plain (by decide) (by decide) data, by decide⟩

section Auth

variable (block3 : Memory UInt8) (login password : Chars) {answer : Chars}

theorem authRound_eq (positive : Positive answer) (later : List Chars) (outgoing : Chars)
    (buf : Memory UInt8) :
    authRound block3 login password { answers := answer :: later, outgoing := outgoing, buf := buf } =
      (let buf := Memory.store (Function.update buf 0 0) 0 (answer.set (answer.length - 1) 0)
      if buf.slice 0 smtpBase64User.length = smtpBase64User then
        unchecked (writeFormatted 512 (netBase64 block3 login ++ crlf))
      else if buf.slice 0 smtpBase64Pass.length = smtpBase64Pass then
        unchecked (writeFormatted 512 (netBase64 block3 password ++ crlf))
      else fail true)
      { answers := later, outgoing := outgoing
        buf := Memory.store (Function.update buf 0 0) 0 (answer.set (answer.length - 1) 0) } := by
  rw [authRound, bind_ok (readAnswer_positive positive later outgoing buf)]
  exact bind_ok rfl

theorem delivers_user (prompts : Prompts answer smtpBase64User) :
    Delivers (authRound block3 login password) [answer]
      [{ text := credentialLine login, limit := 512, checked := false }] := by
  intro later outgoing buf
  rw [List.singleton_append, authRound_eq block3 login password prompts.positive]
  simp only [prompts.slice, if_true]
  exact (credential_writes block3 login).unchecked later outgoing _

theorem delivers_pass (prompts : Prompts answer smtpBase64Pass) :
    Delivers (authRound block3 login password) [answer]
      [{ text := credentialLine password, limit := 512, checked := false }] := by
  intro later outgoing buf
  have sameLength : smtpBase64User.length = smtpBase64Pass.length := by
    simp [smtpBase64User, smtpBase64Pass, bytes]
  have notUser : smtpBase64Pass ≠ smtpBase64User := by
    simp [smtpBase64User, smtpBase64Pass, bytes]
  rw [List.singleton_append, authRound_eq block3 login password prompts.positive]
  simp only [sameLength, prompts.slice, if_neg notUser, if_true]
  exact (credential_writes block3 password).unchecked later outgoing _

end Auth

/-! ## The whole session -/

/-- A mail and the account it is sent with: C strings and at least one receiver. -/
structure Mail where
  fromAddr : Chars
  fromFull : Chars
  subject : Chars
  receivers : List Chars
  message : Chars
  login : Chars
  password : Chars
  hasReceiver : receivers ≠ []
  noZero : ∀ text ∈ [fromAddr, fromFull, subject, message, login, password] ++ receivers, 0 ∉ text

namespace Mail

variable (mail : Mail)

/-- The call of `NetSmtpSendMail`. -/
def args (smtpHost : Chars) (smtpPort : Int) : SmtpArgs where
  smtpHost := some smtpHost
  smtpPort := smtpPort
  fromAddr := some mail.fromAddr
  fromFull := some mail.fromFull
  subject := some mail.subject
  receivers := mail.receivers
  message := some mail.message
  login := some mail.login
  password := some mail.password

/-- The header of the body. -/
def header : Chars :=
  smtpHeadFmt mail.fromFull mail.fromAddr (mail.receivers.headD []) mail.subject

def constant (text : Chars) (checked : Bool) : Sending :=
  { text := text, limit := text.length + 1, checked := checked }

/-- The texts of the session with the room that each is formatted into. -/
def sendings : List Sending :=
  [constant smtpEhlo false, constant smtpAuthLogin false,
    { text := credentialLine mail.login, limit := 512, checked := false },
    { text := credentialLine mail.password, limit := 512, checked := false },
    { text := mailFromFmt mail.fromAddr, limit := 511, checked := true }] ++
  mail.receivers.map (fun receiver => { text := rcptToFmt receiver, limit := 511, checked := true }) ++
  [constant smtpData true, { text := mail.header, limit := 512, checked := true },
    { text := mail.message, limit := 2 ^ 31, checked := true }, constant smtpEnd false,
    constant smtpRset false, constant smtpQuit false]

/-- All that is to be sent. -/
def transcript : Chars := (mail.sendings.map Sending.text).flatten

end Mail

/-- A server that accepts every step: its answers to the connect and to each command. -/
structure Accepts (receivers : Nat) (answers : List Chars) : Prop where
  split : ∃ hello ehlo user pass auth sender rcpts data body rset quit,
    answers = [hello, ehlo, user, pass, auth, sender] ++ rcpts ++ [data, body, rset, quit] ∧
      Prompts user smtpBase64User ∧ Prompts pass smtpBase64Pass ∧ rcpts.length = receivers ∧
      ∀ answer ∈ [hello, ehlo, auth, sender] ++ rcpts ++ [data, body, rset, quit], Positive answer

theorem delivers_command {text answer : Chars} (noZero : 0 ∉ text) (positive : Positive answer) :
    Delivers (sendCommand text) [answer] [{ text := text, limit := 511, checked := true }] :=
  (writeFormatted_writes (by decide) (by decide) noZero).checked.seq (delivers_read positive)

theorem delivers_receivers {receivers answers : List Chars}
    (noZero : ∀ receiver ∈ receivers, 0 ∉ rcptToFmt receiver)
    (sameLength : answers.length = receivers.length)
    (positive : ∀ answer ∈ answers, Positive answer) :
    Delivers (sendReceivers receivers) answers
      (receivers.map fun receiver => { text := rcptToFmt receiver, limit := 511, checked := true }) := by
  induction receivers generalizing answers with
  | nil =>
      rw [List.length_eq_zero_iff.mp sameLength]
      exact .pure
  | cons receiver rest ih =>
      obtain ⟨answer, later, rfl⟩ := List.exists_cons_of_length_eq_add_one sameLength
      rw [List.forall_mem_cons] at noZero positive
      exact (delivers_command noZero.1 positive.1).seq
        (ih noZero.2 (Nat.succ.inj sameLength) positive.2)

theorem delivers_ehlo : Delivers sendEhlo [] [Mail.constant smtpEhlo false] := by
  intro later outgoing buf
  obtain ⟨written, piece, after, ran, short, same, empty⟩ :=
    writeText_writes smtpEhlo { answers := [] ++ later, outgoing := outgoing, buf := buf }
  have whole : piece = smtpEhlo := same.mpr (Nat.lt_succ_self _)
  have positive : ¬written ≤ 0 := by
    rw [empty, whole]
    simp [smtpEhlo, crlf]
  refine .inl ⟨[piece], after, .cons ⟨short, same, fun absurdity => by cases absurdity⟩ .nil, ?_⟩
  rw [sendEhlo, bind_ok ran, fail, if_neg (by simpa using Int.le_of_not_le positive),
    List.flatten_singleton]
  rfl

/-- No letter of the constants is a zero. -/
theorem constants_plain :
    ∀ text ∈ [crlf, bytes "MAIL FROM: <", bytes "RCPT TO: <", bytes ">", bytes "From: ", bytes " <",
      bytes "To: <", bytes "Subject: ", bytes "Content-Type: text/plain", bytes "Mime-Version: 1.0",
      bytes "X-Mailer: Dirligo", bytes "Content-Transfer-Encoding: 7bit"], 0 ∉ text := by
  simp [bytes, crlf]

theorem smtpHeadFmt_plain {fromFull fromAddr receiver subject : Chars} (fullPlain : 0 ∉ fromFull)
    (addrPlain : 0 ∉ fromAddr) (receiverPlain : 0 ∉ receiver) (subjectPlain : 0 ∉ subject) :
    0 ∉ smtpHeadFmt fromFull fromAddr receiver subject := by
  have constants := constants_plain
  simp only [List.forall_mem_cons] at constants
  have lines : ∀ line ∈ smtpHeadLines fromFull fromAddr receiver subject, 0 ∉ line := by
    simp only [smtpHeadLines, List.forall_mem_cons, List.mem_append, constants, fullPlain, addrPlain,
      receiverPlain, subjectPlain, or_self, not_false_eq_true, List.not_mem_nil, false_implies,
      implies_true, and_self]
  rw [smtpHeadFmt, List.mem_append, not_or]
  refine ⟨?_, constants.1⟩
  intro member
  obtain ⟨line, listed, inside⟩ := List.mem_flatMap.mp member
  exact (List.mem_append.mp inside).elim (lines line listed) constants.1

namespace Mail

variable (mail : Mail)

theorem mailFrom_plain : 0 ∉ mailFromFmt mail.fromAddr := by
  have constants := constants_plain
  have addrPlain := mail.noZero mail.fromAddr (by simp)
  simp only [List.forall_mem_cons] at constants
  simp only [mailFromFmt, mailFromLine, List.mem_append, constants, addrPlain, or_self, not_false_eq_true]

theorem rcptTo_plain : ∀ receiver ∈ mail.receivers, 0 ∉ rcptToFmt receiver := by
  intro receiver member
  have constants := constants_plain
  have receiverPlain := mail.noZero receiver (List.mem_append_right _ member)
  simp only [List.forall_mem_cons] at constants
  simp only [rcptToFmt, rcptToLine, List.mem_append, constants, receiverPlain, or_self, not_false_eq_true]

theorem header_plain : 0 ∉ mail.header := by
  have firstPlain : 0 ∉ mail.receivers.headD [] := by
    obtain ⟨first, rest, receivers⟩ := List.exists_cons_of_ne_nil mail.hasReceiver
    have member : first ∈ mail.receivers := receivers ▸ List.mem_cons_self
    rw [receivers]
    exact mail.noZero first (List.mem_append_right _ member)
  exact smtpHeadFmt_plain (mail.noZero mail.fromFull (by simp)) (mail.noZero mail.fromAddr (by simp))
    firstPlain (mail.noZero mail.subject (by simp))

end Mail

theorem delivers_sendMail (mail : Mail) (block3 : Memory UInt8) {answers : List Chars}
    (accepts : Accepts mail.receivers.length answers) :
    Delivers
      (sendMail block3 mail.fromAddr mail.fromFull mail.subject mail.receivers mail.message mail.login
        mail.password)
      answers mail.sendings := by
  obtain ⟨hello, ehlo, user, pass, auth, sender, rcpts, data, body, rset, quit, rfl, isUser, isPass,
    sameLength, positive⟩ := accepts.split
  simp only [List.forall_mem_append, List.forall_mem_cons] at positive
  obtain ⟨⟨⟨isHello, isEhlo, isAuth, isSender, _⟩, areRcpts⟩, isData, isBody, isRset, isQuit, _⟩ := positive
  have headerWrites : Writes (writeFormatted 512 mail.header) mail.header 512 :=
    writeFormatted_writes (by decide) (by decide) mail.header_plain
  have script := (delivers_read isHello).seq (delivers_ehlo.seq ((delivers_read isEhlo).seq
    ((writeText_writes smtpAuthLogin).unchecked.seq
    ((delivers_user block3 mail.login mail.password isUser).seq
    ((delivers_pass block3 mail.login mail.password isPass).seq ((delivers_read isAuth).seq
    ((delivers_command mail.mailFrom_plain isSender).seq
    ((delivers_receivers mail.rcptTo_plain sameLength areRcpts).seq
    ((writeText_writes smtpData).checked.seq ((delivers_read isData).seq (headerWrites.checked.seq
    ((message_writes mail.message).checked.seq ((writeText_writes smtpEnd).unchecked.seq
    ((delivers_read isBody).seq ((writeText_writes smtpRset).unchecked.seq ((delivers_read isRset).seq
    ((writeText_writes smtpQuit).unchecked.seq (delivers_read isQuit))))))))))))))))))
  rw [Mail.sendings, List.append_assoc, List.append_assoc]
  exact script

theorem flatten_short {sendings : List Sending} {pieces : List Chars}
    (sends : List.Forall₂ Sending.Sends sendings pieces) :
    pieces.flatten.length ≤ (sendings.map Sending.text).flatten.length := by
  induction sends with
  | nil => exact Nat.le_refl _
  | cons one _ ih =>
      have short := one.short
      simp only [List.map_cons, List.flatten_cons, List.length_append]
      omega

/-- What is sent is what is to be sent exactly if each text is good. -/
theorem flatten_eq_iff {sendings : List Sending} {pieces : List Chars}
    (sends : List.Forall₂ Sending.Sends sendings pieces) :
    pieces.flatten = (sendings.map Sending.text).flatten ↔ ∀ sending ∈ sendings, sending.Good := by
  induction sends with
  | nil => simp
  | @cons sending piece sendings pieces one rest ih =>
      have short := one.short
      have shortRest := flatten_short rest
      rw [List.map_cons, List.flatten_cons, List.flatten_cons, List.forall_mem_cons]
      constructor
      · intro same
        have lengths := congrArg List.length same
        simp only [List.length_append] at lengths
        obtain ⟨head, tail⟩ := List.append_inj same (by omega)
        exact ⟨⟨one.same_iff.mp head, fun checked => head ▸ one.nonempty checked⟩, ih.mp tail⟩
      · rintro ⟨good, tail⟩
        rw [one.same_iff.mpr good.1, ih.mpr tail]

/-- With a server that accepts every step the mail goes through with the bytes that are to be
sent, exactly if each text is good. -/
theorem netSmtpSendMail_transcript_iff (mail : Mail) {netConnect : Chars → Int → Option (List Chars)}
    {smtpHost : Chars} {smtpPort : Int} {answers : List Chars} (buf block3 : Memory UInt8)
    (connected : netConnect smtpHost smtpPort = some answers)
    (accepts : Accepts mail.receivers.length answers) :
    netSmtpSendMail netConnect buf block3 (mail.args smtpHost smtpPort) = (0, mail.transcript) ↔
      ∀ sending ∈ mail.sendings, sending.Good := by
  have called : netSmtpSendMail netConnect buf block3 (mail.args smtpHost smtpPort) =
      (let (done, wire) := sendMail block3 mail.fromAddr mail.fromFull mail.subject mail.receivers
          mail.message mail.login mail.password { answers := answers, outgoing := [], buf := buf }
      (if done.isSome then 0 else -1, wire.outgoing)) := by
    simp only [netSmtpSendMail, Mail.args, if_neg mail.hasReceiver, connected]
    rfl
  rw [called]
  rcases delivers_sendMail mail block3 accepts [] [] buf with
    ⟨pieces, after, sends, ran⟩ | ⟨failed, sending, member, bad⟩
  · rw [List.append_nil] at ran
    rw [ran, ← flatten_eq_iff sends]
    simp [Mail.transcript]
  · rw [List.append_nil] at failed
    refine iff_of_false ?_ fun good => bad (good sending member)
    simp [failed]

end Tegenaria.LibNet
