import Tegenaria.Foundation.Occurrence
import Tegenaria.LibNet.SmtpClient

/-!
# The text of an SMTP session

How a server reads the bytes of a client: as lines that end with CRLF.  The lines are commands,
but two of them behind `AUTH LOGIN` are the login and the password, and those behind `DATA` are
the content of a mail up to a line with a single dot; another dot at the begin of a line is
taken away.
-/

namespace Tegenaria.LibNet

open Foundation LibStr

/-- What a line says. -/
inductive SmtpItem
  | command (line : Chars)
  | credential (line : Chars)
  | content (line : Chars)
  | endOfData
  deriving DecidableEq

/-- What the next line is.  Some credentials are expected behind it. -/
inductive SmtpMode
  | command
  | credential (behind : Nat)
  | content
  deriving DecidableEq

def upperize (letter : UInt8) : UInt8 := if 97 ≤ letter ∧ letter ≤ 122 then letter - 32 else letter

/-- A line of the content without the dot that was put in front of it. -/
def unstuff (line : Chars) : Chars := if line.head? = some 46 then line.tail else line

namespace SmtpMode

def item : SmtpMode → Chars → SmtpItem
  | .command, line => .command line
  | .credential _, line => .credential line
  | .content, line => if line = [46] then .endOfData else .content (unstuff line)

def next : SmtpMode → Chars → SmtpMode
  | .command, line =>
      if line.map upperize = bytes "DATA" then .content
      else if line.map upperize = bytes "AUTH LOGIN" then .credential 1
      else .command
  | .credential 0, _ => .command
  | .credential (behind + 1), _ => .credential behind
  | .content, line => if line = [46] then .command else .content

@[simp] theorem item_command (line : Chars) : command.item line = .command line := rfl

@[simp] theorem item_credential (behind : Nat) (line : Chars) :
    (credential behind).item line = .credential line := rfl

@[simp] theorem next_credential_zero (line : Chars) : (credential 0).next line = .command := rfl

@[simp] theorem next_credential_succ (behind : Nat) (line : Chars) :
    (credential (behind + 1)).next line = .credential behind := rfl

end SmtpMode

def smtpItems : SmtpMode → List Chars → List SmtpItem
  | _, [] => []
  | mode, line :: rest => mode.item line :: smtpItems (mode.next line) rest

/-- The lines of a text; the last one has no end. -/
def smtpLines (text : Chars) : List Chars := Occurrence.pieces crlf text

/-- A session and the bytes behind its last line. -/
structure SmtpSession where
  items : List SmtpItem
  unfinished : Chars
  deriving DecidableEq

def smtpSession (text : Chars) : SmtpSession where
  items := smtpItems .command (smtpLines text).dropLast
  unfinished := (smtpLines text).getLastD []

/-- The lines of the content in a session. -/
def SmtpSession.contentLines (session : SmtpSession) : List Chars :=
  session.items.filterMap fun
    | .content line => some line
    | _ => none

/-- The message of a mail: what stands behind the first blank line of its content. -/
def messageOf (lines : List Chars) : Chars := crlf.intercalate ((lines.dropWhile (· ≠ [])).drop 1)

/-! ## Lines -/

/-- What is put around a text does not make the end of a line. -/
theorem crlf_surrounded {front back : Chars} (noReturn : 13 ∉ front) (noFeed : 10 ∉ back) (text : Chars) :
    crlf <:+: front ++ text ++ back ↔ crlf <:+: text := by
  constructor
  · intro occurs
    have inFront : crlf <:+: front ++ text := by
      clear noReturn
      induction back using List.reverseRecOn with
      | nil => rwa [List.append_nil] at occurs
      | append_singleton back letter ih =>
          rw [List.mem_append, not_or] at noFeed
          rw [← List.append_assoc, List.infix_concat_iff] at occurs
          refine ih noFeed.1 (occurs.resolve_left ?_)
          rintro ⟨before, split⟩
          have last := congrArg List.getLast? split
          simp only [crlf, List.getLast?_append, List.getLast?_singleton, List.getLast?_cons_cons,
            Option.some_or, Option.some.injEq] at last
          exact noFeed.2 (last ▸ List.mem_singleton_self _)
    clear occurs
    induction front with
    | nil => exact inFront
    | cons letter front ih =>
        rw [List.mem_cons, not_or] at noReturn
        rw [List.cons_append, List.infix_cons_iff] at inFront
        refine ih noReturn.2 (inFront.resolve_left ?_)
        rintro ⟨after, split⟩
        exact noReturn.1 (List.cons.inj split).1
  · exact fun occurs => occurs.trans ⟨front, back, rfl⟩

theorem smtpLines_append (text behind : Chars) :
    smtpLines (text ++ (crlf ++ behind)) = smtpLines text ++ smtpLines behind :=
  @Occurrence.pieces_append _ _ 13 [10] (by decide) text behind

theorem smtpLines_plain {line : Chars} (plain : ¬crlf <:+: line) : smtpLines line = [line] :=
  Occurrence.pieces_none plain

theorem smtpLines_ended {ended : List Chars} (plain : ∀ line ∈ ended, ¬crlf <:+: line) (text : Chars) :
    smtpLines (ended.flatMap (· ++ crlf) ++ text) = ended ++ smtpLines text :=
  @Occurrence.pieces_ended _ _ 13 [10] (by decide) _ plain text

theorem plain_of_mem_smtpLines {text line : Chars} (member : line ∈ smtpLines text) :
    ¬crlf <:+: line :=
  Occurrence.not_infix_of_mem_pieces (by decide) member

theorem smtpLines_ne_nil (text : Chars) : smtpLines text ≠ [] := Occurrence.pieces_ne_nil _ _

theorem intercalate_smtpLines (text : Chars) : crlf.intercalate (smtpLines text) = text :=
  Occurrence.intercalate_pieces (by decide) text

/-! ## Items -/

theorem mem_smtpItems_command {mode : SmtpMode} {lines : List Chars} {line : Chars}
    (member : .command line ∈ smtpItems mode lines) : line ∈ lines := by
  induction lines generalizing mode with
  | nil => cases member
  | cons first rest ih =>
      rw [smtpItems, List.mem_cons] at member
      rcases member with same | later
      · cases mode with
        | command => exact (SmtpItem.command.inj same) ▸ List.mem_cons_self
        | credential => cases same
        | content =>
            rw [SmtpMode.item] at same
            split at same
            · cases same
            · cases same
      · exact List.mem_cons_of_mem _ (ih later)

/-- No command of a session has the end of a line in it. -/
theorem command_plain {text line : Chars} (member : .command line ∈ (smtpSession text).items) :
    ¬crlf <:+: line :=
  plain_of_mem_smtpLines (List.dropLast_subset _ (mem_smtpItems_command member))

/-- Lines of the content are read as they are exactly if none of them begins with a dot. -/
theorem smtpItems_content_iff (lines rest : List Chars) :
    smtpItems .content (lines ++ [46] :: rest) =
        lines.map .content ++ .endOfData :: smtpItems .command rest ↔
      ∀ line ∈ lines, line.head? ≠ some 46 := by
  induction lines with
  | nil => simp [smtpItems, SmtpMode.item, SmtpMode.next]
  | cons line lines ih =>
      rw [List.cons_append, smtpItems, List.map_cons, List.cons_append, List.cons.injEq,
        List.forall_mem_cons]
      by_cases dotted : line.head? = some 46
      · refine iff_of_false ?_ fun plain => plain.1 dotted
        rintro ⟨same, _⟩
        obtain ⟨after, rfl⟩ := List.head?_eq_some_iff.mp dotted
        rw [SmtpMode.item] at same
        split at same
        · cases same
        · have lengths := congrArg List.length (SmtpItem.content.inj same)
          simp [unstuff] at lengths
      · have notEnd : line ≠ [46] := by
          rintro rfl
          exact dotted rfl
        rw [SmtpMode.item, SmtpMode.next, if_neg notEnd, if_neg notEnd, unstuff, if_neg dotted, ih,
          and_iff_right rfl, and_iff_right dotted]

/-! ## The message -/

theorem messageOf_blank {before after : List Chars} (noBlank : [] ∉ before) :
    messageOf (before ++ [] :: after) = crlf.intercalate after := by
  rw [messageOf, List.dropWhile_append_of_pos fun line member => ?_]
  · simp
  · exact decide_eq_true fun blank => noBlank (blank ▸ member)

theorem length_lt_joined (lines : List Chars) (message : Chars) :
    message.length < (crlf.intercalate (lines ++ [] :: smtpLines message)).length := by
  induction lines with
  | nil =>
      rw [List.nil_append, List.intercalate_cons_of_ne_nil (smtpLines_ne_nil message),
        intercalate_smtpLines]
      simp only [crlf, List.nil_append, List.length_append, List.length_cons]
      omega
  | cons line lines ih =>
      rw [List.cons_append, List.intercalate_cons_of_ne_nil (by simp), List.length_append]
      omega

/-- The message begins behind a blank line exactly if there is none before it. -/
theorem messageOf_eq_iff (before : List Chars) (message : Chars) :
    messageOf (before ++ [] :: smtpLines message) = message ↔ [] ∉ before := by
  constructor
  · intro same blank
    obtain ⟨front, back, rfl, first⟩ := List.eq_append_cons_of_mem blank
    rw [List.append_assoc, List.cons_append, messageOf_blank first] at same
    have longer := length_lt_joined back message
    rw [same] at longer
    exact Nat.lt_irrefl _ longer
  · intro noBlank
    rw [messageOf_blank noBlank, intercalate_smtpLines]

end Tegenaria.LibNet
