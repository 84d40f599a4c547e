import Tegenaria.LibNet.SmtpText

/-!
# Sending a mail

The bytes that `NetSmtpSendMail` sends to a server that accepts every step are read as a session
with the mail in it.  This is so exactly if the texts fit into the buffers, no address has the
end of a line in it, and no line of the content is one that the reader takes for something else.
-/

namespace Tegenaria.LibNet

open Foundation LibStr

namespace Mail

variable (mail : Mail)

/-- The lines up to `DATA`. -/
def commandLines : List Chars :=
  [bytes "EHLO Dirligo", bytes "AUTH LOGIN", base64Blocks mail.login, base64Blocks mail.password,
    mailFromLine mail.fromAddr] ++ mail.receivers.map rcptToLine ++ [bytes "DATA"]

/-- The header without the end of its last line and the blank line. -/
def headerText : Chars :=
  crlf.intercalate (smtpHeadLines mail.fromFull mail.fromAddr (mail.receivers.headD []) mail.subject)

/-- What a server is to read before the content. -/
def commandItems : List SmtpItem :=
  [SmtpItem.command (bytes "EHLO Dirligo"), SmtpItem.command (bytes "AUTH LOGIN"),
    SmtpItem.credential (base64Blocks mail.login), SmtpItem.credential (base64Blocks mail.password),
    SmtpItem.command (mailFromLine mail.fromAddr)] ++
    mail.receivers.map (fun receiver => SmtpItem.command (rcptToLine receiver)) ++
    [SmtpItem.command (bytes "DATA")]

/-- What a server is to read: one sender, the receivers in their order and one content. -/
def session : SmtpSession where
  items := mail.commandItems ++ ((smtpLines (mail.header ++ mail.message)).map .content ++
    .endOfData :: [.command (bytes "RSET"), .command (bytes "QUIT")])
  unfinished := []

end Mail

/-- The call sends exactly the mail. -/
structure SendsMail (mail : Mail) (result : Int × Chars) : Prop where
  formatted : result = (0, mail.transcript)
  session : smtpSession result.2 = mail.session
  message : messageOf (smtpSession result.2).contentLines = mail.message

/-- All texts are short enough, and there is a message. -/
structure Mail.Fits (mail : Mail) : Prop where
  login : mail.login.length ≤ 381
  password : mail.password.length ≤ 381
  receivers : ∀ receiver ∈ mail.receivers, receiver.length ≤ 497
  header : mail.fromFull.length + mail.fromAddr.length + (mail.receivers.headD []).length +
    mail.subject.length ≤ 382
  message : 0 < mail.message.length ∧ mail.message.length < 2 ^ 31

/-- The texts cannot be taken for something else. -/
structure Mail.Plain (mail : Mail) : Prop where
  fromAddr : ¬crlf <:+: mail.fromAddr
  receivers : ∀ receiver ∈ mail.receivers, ¬crlf <:+: receiver
  headerLines : ∀ line ∈ smtpLines mail.headerText, line ≠ [] ∧ line.head? ≠ some 46
  messageLines : ∀ line ∈ smtpLines mail.message, line.head? ≠ some 46

/-! ## The lengths -/

theorem length_credentialLine (data : Chars) :
    (credentialLine data).length < 512 ↔ data.length ≤ 381 := by
  rw [credentialLine, List.length_append, length_base64Blocks]
  simp only [crlf, List.length_cons, List.length_nil]
  omega

theorem length_mailFromFmt (fromAddr : Chars) :
    (mailFromFmt fromAddr).length = fromAddr.length + 15 := by
  have constants : (bytes "MAIL FROM: <").length = 12 ∧ (bytes ">").length = 1 := by simp [bytes]
  simp only [mailFromFmt, mailFromLine, List.length_append, constants, crlf, List.length_cons,
    List.length_nil]
  omega

theorem length_rcptToFmt (receiver : Chars) :
    (rcptToFmt receiver).length = receiver.length + 13 := by
  have constants : (bytes "RCPT TO: <").length = 10 ∧ (bytes ">").length = 1 := by simp [bytes]
  simp only [rcptToFmt, rcptToLine, List.length_append, constants, crlf, List.length_cons,
    List.length_nil]
  omega

theorem length_smtpHeadFmt (fromFull fromAddr receiver subject : Chars) :
    (smtpHeadFmt fromFull fromAddr receiver subject).length =
      fromFull.length + fromAddr.length + receiver.length + subject.length + 129 := by
  have constants : (bytes "From: ").length = 6 ∧ (bytes " <").length = 2 ∧ (bytes ">").length = 1 ∧
      (bytes "To: <").length = 5 ∧ (bytes "Subject: ").length = 9 ∧
      (bytes "Content-Type: text/plain").length = 24 ∧ (bytes "Mime-Version: 1.0").length = 17 ∧
      (bytes "X-Mailer: Dirligo").length = 17 ∧
      (bytes "Content-Transfer-Encoding: 7bit").length = 31 := by
    simp [bytes]
  simp only [smtpHeadFmt, smtpHeadLines, List.flatMap_cons, List.flatMap_nil, List.length_append,
    constants, crlf, List.length_cons, List.length_nil]
  omega

theorem constants_good :
    ∀ sending ∈ [Mail.constant smtpEhlo false, Mail.constant smtpAuthLogin false,
      Mail.constant smtpData true, Mail.constant smtpEnd false, Mail.constant smtpRset false,
      Mail.constant smtpQuit false], sending.Good := by
  simp only [List.forall_mem_cons, Mail.constant, Sending.Good, Nat.lt_succ_self, true_and]
  simp [smtpEhlo, smtpAuthLogin, smtpData, smtpEnd, smtpRset, smtpQuit, crlf]

theorem formatted_good_iff {text : Chars} {size limit : Nat} (length : text.length = size + 1)
    (checked : Bool) : Sending.Good ⟨text, limit, checked⟩ ↔ size + 1 < limit := by
  rw [Sending.Good, length, and_iff_left]
  rintro - rfl
  cases length

theorem sendings_good_iff (mail : Mail) : (∀ sending ∈ mail.sendings, sending.Good) ↔ mail.Fits := by
  have constants := constants_good
  have headerLength : mail.header.length = _ := length_smtpHeadFmt _ _ _ _
  have credential (data : Chars) : Sending.Good ⟨credentialLine data, 512, false⟩ ↔ data.length ≤ 381 := by
    rw [Sending.Good, length_credentialLine, and_iff_left]
    exact fun absurdity => by cases absurdity
  have message : Sending.Good ⟨mail.message, 2 ^ 31, true⟩ ↔
      0 < mail.message.length ∧ mail.message.length < 2 ^ 31 :=
    ⟨fun good => ⟨List.length_pos_iff.mpr (good.2 rfl), good.1⟩,
      fun ⟨nonempty, short⟩ => ⟨short, fun _ => List.length_pos_iff.mp nonempty⟩⟩
  simp only [List.forall_mem_cons] at constants
  simp only [Mail.sendings, List.forall_mem_append, List.forall_mem_cons, List.forall_mem_map, constants,
    credential, message, formatted_good_iff headerLength, formatted_good_iff (length_mailFromFmt _),
    formatted_good_iff (length_rcptToFmt _), true_and, List.not_mem_nil, false_implies, implies_true,
    and_true]
  constructor
  · rintro ⟨⟨⟨login, password, _⟩, receivers⟩, header, message⟩
    refine ⟨login, password, fun receiver member => ?_, by omega, message⟩
    have short := receivers receiver member
    omega
  · intro fits
    have header := fits.header
    refine ⟨⟨⟨fits.login, fits.password, by omega⟩, fun receiver member => ?_⟩, by omega, fits.message⟩
    have short := fits.receivers receiver member
    omega

/-! ## The lines of a session -/

theorem smtpLines_nil : smtpLines [] = [[]] := smtpLines_plain (by decide)

/-- A text that cannot be taken for a command that changes the mode. -/
theorem next_command {line : Chars} {letter : UInt8} (head : line.head? = some letter)
    (notData : upperize letter ≠ 68) (notAuth : upperize letter ≠ 65) :
    SmtpMode.command.next line = .command := by
  have heads : (bytes "DATA").head? = some 68 ∧ (bytes "AUTH LOGIN").head? = some 65 := by
    simp [bytes]
  have upper : (line.map upperize).head? = some (upperize letter) := by rw [List.head?_map, head]; rfl
  rw [SmtpMode.next, if_neg, if_neg]
  · intro same
    rw [same, heads.2] at upper
    exact notAuth (Option.some.inj upper).symm
  · intro same
    rw [same, heads.1] at upper
    exact notData (Option.some.inj upper).symm

theorem crlf_mailFromLine (fromAddr : Chars) : crlf <:+: mailFromLine fromAddr ↔ crlf <:+: fromAddr := by
  have constants : 13 ∉ bytes "MAIL FROM: <" ∧ 10 ∉ bytes ">" := by simp [bytes]
  exact crlf_surrounded constants.1 constants.2 fromAddr

theorem crlf_rcptToLine (receiver : Chars) : crlf <:+: rcptToLine receiver ↔ crlf <:+: receiver := by
  have constants : 13 ∉ bytes "RCPT TO: <" ∧ 10 ∉ bytes ">" := by simp [bytes]
  exact crlf_surrounded constants.1 constants.2 receiver

namespace Mail

variable (mail : Mail)

theorem transcript_eq : mail.transcript = mail.commandLines.flatMap (· ++ crlf) ++
    (mail.header ++ mail.message ++ (crlf ++
      ([[46], bytes "RSET", bytes "QUIT"].flatMap (· ++ crlf) ++ []))) := by
  have dot : bytes "." = [46] := by simp [bytes]
  simp only [transcript, sendings, commandLines, constant, smtpEhlo, smtpAuthLogin, smtpData, smtpEnd,
    smtpRset, smtpQuit, credentialLine, mailFromFmt, rcptToFmt, dot, List.map_append, List.map_cons,
    List.map_nil, List.map_map, List.flatten_append, List.flatten_cons, List.flatten_nil,
    List.flatMap_append, List.flatMap_cons, List.flatMap_nil, List.flatMap_map, List.append_assoc,
    List.append_nil]
  rfl

theorem content_eq : smtpLines (mail.header ++ mail.message) =
    smtpLines mail.headerText ++ [] :: smtpLines mail.message := by
  have nonempty : smtpHeadLines mail.fromFull mail.fromAddr (mail.receivers.headD []) mail.subject ≠ [] :=
    List.cons_ne_nil _ _
  have blank := smtpLines_append [] mail.message
  rw [List.nil_append, smtpLines_nil] at blank
  rw [header, smtpHeadFmt, Occurrence.flatMap_ended crlf nonempty, List.append_assoc, List.append_assoc,
    smtpLines_append, blank]
  rfl

theorem commandLines_plain (addrPlain : ¬crlf <:+: mail.fromAddr)
    (receiversPlain : ∀ receiver ∈ mail.receivers, ¬crlf <:+: receiver) :
    ∀ line ∈ mail.commandLines, ¬crlf <:+: line := by
  have constants : ¬crlf <:+: bytes "EHLO Dirligo" ∧ ¬crlf <:+: bytes "AUTH LOGIN" ∧
      ¬crlf <:+: bytes "DATA" := by
    rw [bytes, bytes, bytes]
    decide
  have credential (data : Chars) : ¬crlf <:+: base64Blocks data := fun occurs =>
    base64Blocks_plain (by decide) (by decide) data (occurs.subset (List.mem_cons_self (a := 13)))
  simp only [commandLines, List.forall_mem_append, List.forall_mem_cons, List.forall_mem_map, constants,
    credential, crlf_mailFromLine, addrPlain, crlf_rcptToLine, not_false_eq_true, true_and,
    List.not_mem_nil, false_implies, implies_true, and_true]
  exact receiversPlain

/-- The lines of what is sent. -/
theorem smtpLines_transcript (plain : ∀ line ∈ mail.commandLines, ¬crlf <:+: line) :
    smtpLines mail.transcript = mail.commandLines ++
      (smtpLines (mail.header ++ mail.message) ++ [[46], bytes "RSET", bytes "QUIT", []]) := by
  have ends : ∀ line ∈ [[46], bytes "RSET", bytes "QUIT"], ¬crlf <:+: line := by
    rw [bytes, bytes]
    decide
  rw [transcript_eq, smtpLines_ended plain, smtpLines_append, smtpLines_ended ends, smtpLines_nil]
  rfl

theorem receivers_items (receivers : List Chars) (rest : List Chars) :
    smtpItems .command (receivers.map rcptToLine ++ rest) =
      receivers.map (fun receiver => SmtpItem.command (rcptToLine receiver)) ++
        smtpItems .command rest := by
  have begins : (bytes "RCPT TO: <").head? = some 82 := by simp [bytes]
  induction receivers with
  | nil => rfl
  | cons receiver receivers ih =>
      have head : (rcptToLine receiver).head? = some 82 := by
        rw [rcptToLine, List.append_assoc, List.head?_append, begins]
        rfl
      rw [List.map_cons, List.cons_append, smtpItems, next_command head (by decide) (by decide), ih]
      rfl

theorem command_items (rest : List Chars) :
    smtpItems .command (mail.commandLines ++ rest) = mail.commandItems ++ smtpItems .content rest := by
  have begins : (bytes "MAIL FROM: <").head? = some 77 := by simp [bytes]
  have head : (mailFromLine mail.fromAddr).head? = some 77 := by
    rw [mailFromLine, List.append_assoc, List.head?_append, begins]
    rfl
  have constants : SmtpMode.command.next (bytes "EHLO Dirligo") = .command ∧
      SmtpMode.command.next (bytes "AUTH LOGIN") = .credential 1 ∧
      SmtpMode.command.next (bytes "DATA") = .content := by
    simp [SmtpMode.next, bytes, upperize]
  have asked (line : Chars) : (SmtpMode.credential 1).next line = .credential 0 := rfl
  simp only [commandLines, commandItems, List.append_assoc, List.cons_append, List.nil_append, smtpItems,
    constants, asked, next_command head (by decide) (by decide), receivers_items, SmtpMode.item_command,
    SmtpMode.item_credential, SmtpMode.next_credential_zero]

/-- What is sent is read as the mail exactly if no line of the content begins with a dot. -/
theorem session_eq_iff (plain : ∀ line ∈ mail.commandLines, ¬crlf <:+: line) :
    smtpSession mail.transcript = mail.session ↔
      ∀ line ∈ smtpLines (mail.header ++ mail.message), line.head? ≠ some 46 := by
  have tail : smtpItems .command [bytes "RSET", bytes "QUIT"] =
      [.command (bytes "RSET"), .command (bytes "QUIT")] := by
    have stays : SmtpMode.command.next (bytes "RSET") = .command := by
      simp [SmtpMode.next, bytes, upperize]
    rw [smtpItems, smtpItems, stays, smtpItems]
    rfl
  have ended : mail.commandLines ++
      (smtpLines (mail.header ++ mail.message) ++ [[46], bytes "RSET", bytes "QUIT", []]) =
      (mail.commandLines ++ (smtpLines (mail.header ++ mail.message) ++
        [46] :: [bytes "RSET", bytes "QUIT"])) ++ [[]] := by
    simp only [List.append_assoc, List.cons_append, List.nil_append]
  rw [smtpSession, smtpLines_transcript mail plain, ended, List.dropLast_concat, List.getLastD_concat,
    command_items, session, SmtpSession.mk.injEq, and_iff_left rfl, List.append_cancel_left_eq, ← tail,
    smtpItems_content_iff]

theorem contentLines_session :
    mail.session.contentLines = smtpLines (mail.header ++ mail.message) := by
  rw [SmtpSession.contentLines, session, commandItems]
  simp only [List.filterMap_append, List.filterMap_cons, List.filterMap_nil, List.filterMap_map,
    List.append_nil, List.nil_append]
  simp

end Mail

/-- No address that is read back has the end of a line in it. -/
theorem addresses_plain {mail : Mail} (session : smtpSession mail.transcript = mail.session) :
    ¬crlf <:+: mail.fromAddr ∧ ∀ receiver ∈ mail.receivers, ¬crlf <:+: receiver := by
  have commands {line : Chars} (member : .command line ∈ mail.commandItems) : ¬crlf <:+: line := by
    refine @command_plain mail.transcript line ?_
    rw [session]
    exact List.mem_append_left _ member
  constructor
  · rw [← crlf_mailFromLine]
    exact commands (by simp [Mail.commandItems])
  · intro receiver member
    rw [← crlf_rcptToLine]
    refine commands (List.mem_append_left _ (List.mem_append_right _ ?_))
    exact List.mem_map.mpr ⟨receiver, member, rfl⟩

/-- The bytes are read as the mail exactly if its texts cannot be taken for something else. -/
theorem session_iff_plain (mail : Mail) :
    smtpSession mail.transcript = mail.session ∧
      messageOf (smtpSession mail.transcript).contentLines = mail.message ↔ mail.Plain := by
  constructor
  · rintro ⟨session, message⟩
    obtain ⟨addrPlain, receiversPlain⟩ := addresses_plain session
    have content := (mail.session_eq_iff (mail.commandLines_plain addrPlain receiversPlain)).mp session
    rw [session, mail.contentLines_session, mail.content_eq, messageOf_eq_iff] at message
    rw [mail.content_eq, List.forall_mem_append, List.forall_mem_cons] at content
    refine ⟨addrPlain, receiversPlain, fun line member => ⟨?_, content.1 line member⟩, content.2.2⟩
    rintro rfl
    exact message member
  · intro texts
    have plain := mail.commandLines_plain texts.fromAddr texts.receivers
    have content : ∀ line ∈ smtpLines (mail.header ++ mail.message), line.head? ≠ some 46 := by
      rw [mail.content_eq, List.forall_mem_append, List.forall_mem_cons]
      exact ⟨fun line member => (texts.headerLines line member).2, by simp, texts.messageLines⟩
    have session := (mail.session_eq_iff plain).mpr content
    refine ⟨session, ?_⟩
    rw [session, mail.contentLines_session, mail.content_eq, messageOf_eq_iff]
    exact fun blank => (texts.headerLines [] blank).1 rfl

/-! ## The mail that arrives -/

section Result

variable {mail : Mail} {netConnect : Chars → Int → Option (List Chars)} {smtpHost : Chars}
  {smtpPort : Int} {answers : List Chars}

/-- A mail is sent exactly if its texts are short enough and plain. -/
theorem netSmtpSendMail_sends_iff (buf block3 : Memory UInt8)
    (connected : netConnect smtpHost smtpPort = some answers)
    (accepts : Accepts mail.receivers.length answers) :
    SendsMail mail (netSmtpSendMail netConnect buf block3 (mail.args smtpHost smtpPort)) ↔
      mail.Fits ∧ mail.Plain := by
  have sent := netSmtpSendMail_transcript_iff mail buf block3 connected accepts
  rw [sendings_good_iff] at sent
  constructor
  · rintro ⟨formatted, session, message⟩
    rw [formatted] at session message
    exact ⟨sent.mp formatted, (session_iff_plain mail).mp ⟨session, message⟩⟩
  · rintro ⟨fits, plain⟩
    have formatted := sent.mpr fits
    obtain ⟨session, message⟩ := (session_iff_plain mail).mpr plain
    rw [formatted]
    exact ⟨rfl, session, message⟩

end Result

/-- The answers of a server to a mail with one receiver. -/
def okAnswers : List Chars :=
  [bytes "220" ++ crlf, bytes "250" ++ crlf, smtpBase64User ++ crlf, smtpBase64Pass ++ crlf,
    bytes "235" ++ crlf, bytes "250" ++ crlf] ++ [bytes "250" ++ crlf] ++
    [bytes "354" ++ crlf, bytes "250" ++ crlf, bytes "250" ++ crlf, bytes "221" ++ crlf]

theorem okAnswers_accepts : Accepts 1 okAnswers := by
  have positive {answer : Chars} (short : answer ≠ [] ∧ answer.length ≤ 512)
      (code : (atoi (answer.set (answer.length - 1) 0)).tdiv 100 = 2 ∨
        (atoi (answer.set (answer.length - 1) 0)).tdiv 100 = 3) : Positive answer :=
    ⟨short.1, short.2, code⟩
  refine ⟨_, _, _, _, _, _, _, _, _, _, _, rfl, ⟨positive ?_ ?_, ?_⟩, ⟨positive ?_ ?_, ?_⟩, rfl, ?_⟩
  any_goals decide +kernel
  simp only [List.forall_mem_append, List.forall_mem_cons, List.not_mem_nil, false_implies, implies_true,
    and_true]
  refine ⟨⟨⟨?_, ?_, ?_, ?_⟩, ?_⟩, ?_, ?_, ?_, ?_⟩
  all_goals exact positive (by decide +kernel) (by decide +kernel)

/-- A short mail with a message. -/
def shortMail (message : Chars) (noZero : 0 ∉ message) : Mail where
  fromAddr := bytes "a@b"
  fromFull := bytes "A"
  subject := bytes "S"
  receivers := [bytes "c@d"]
  message := message
  login := bytes "l"
  password := bytes "p"
  hasReceiver := List.cons_ne_nil _ _
  noZero := by
    have constants : ∀ text ∈ [bytes "a@b", bytes "A", bytes "S", bytes "l", bytes "p", bytes "c@d"],
        0 ∉ text := by
      simp [bytes]
    simp only [List.forall_mem_cons] at constants
    simp [constants, noZero]

def hiMail : Mail := shortMail (bytes "Hi") (by simp [bytes])

/-- A mail whose message has a line that ends the content. -/
def dotMail : Mail :=
  shortMail (bytes "Hi" ++ (crlf ++ ([46] ++ (crlf ++ bytes "RSET")))) (by simp [bytes, crlf])

theorem netSmtpSendMail_sends_iff_short :
    SendsMail hiMail
      (netSmtpSendMail (fun _ _ => some okAnswers) (Memory.ofList 0 []) (Memory.ofList 0 [])
        (hiMail.args (bytes "host") 25)) ↔
      hiMail.Fits ∧ hiMail.Plain :=
  netSmtpSendMail_sends_iff _ _ rfl okAnswers_accepts

theorem netSmtpSendMail_dot :
    Accepts 1 okAnswers ∧
      ¬SendsMail dotMail
        (netSmtpSendMail (fun _ _ => some okAnswers) (Memory.ofList 0 []) (Memory.ofList 0 [])
          (dotMail.args (bytes "host") 25)) := by
  refine ⟨okAnswers_accepts, ?_⟩
  rintro ⟨formatted, session, message⟩
  rw [formatted] at session message
  have plain := (session_iff_plain _).mp ⟨session, message⟩
  refine plain.messageLines [46] ?_ rfl
  change [46] ∈ smtpLines (bytes "Hi" ++ (crlf ++ ([46] ++ (crlf ++ bytes "RSET"))))
  rw [smtpLines_append, smtpLines_append, @smtpLines_plain [46] (by decide)]
  simp

end Tegenaria.LibNet
