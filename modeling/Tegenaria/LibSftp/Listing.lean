import Tegenaria.LibSftp.Attributes
import Tegenaria.LibSftp.HostileStream

/-!
# Listing a remote directory

`SftpClient::readdir` asks for one packet of entries after another until the server
reports the end of the directory or sends an entry named `...`.  An entry has a name, a
long name and attributes.  Both names are popped into arrays of `MAX_PATH` bytes.

The loop is a function of the answers, one for each round.  A record is kept of all
bytes that go into the arrays.
-/

namespace Tegenaria.LibSftp

open Foundation
open Foundation.Bytes
open Foundation.Word
open LibStr

/-! ## Entries -/

/-- `MAX_PATH` -/
def maxPath : Nat := 260

/-- `SftpFileInfo` -/
structure SftpFileInfo where
  name : List UInt8
  attr : SftpFileAttr
  deriving DecidableEq

/-- One call of `StrPopRaw` for a name: the length from the packet, the bytes that were
left then, and the bytes that `memcpy` writes into the array. -/
structure NameCopy where
  length : Nat
  remaining : Nat
  written : Nat
  deriving DecidableEq

/-- How a piece of code ends: through the error handler, with or without a shutdown of the
session, with a write or a read outside of an array, or with a value and the rest of the
packet. -/
inductive Pop (Value : Type) where
  | failed (dead : Bool)
  | undefined
  | popped (value : Value) (packet : List UInt8)
  deriving DecidableEq

/-- An outcome with a record of what happened on the way. -/
structure Logged (Event Value : Type) where
  log : List Event
  outcome : Pop Value
  deriving DecidableEq

namespace Logged

variable {Event Value Result : Type}

def failed (dead : Bool) : Logged Event Value := ⟨[], .failed dead⟩

def bind (first : Logged Event Value) (further : Value → List UInt8 → Logged Event Result) :
    Logged Event Result :=
  match first.outcome with
  | .failed dead => ⟨first.log, .failed dead⟩
  | .undefined => ⟨first.log, .undefined⟩
  | .popped value packet =>
      ⟨first.log ++ (further value packet).log, (further value packet).outcome⟩

/-- The record becomes one event. -/
def enclose (first : Logged Event Value) : Logged (List Event) Value := ⟨[first.log], first.outcome⟩

end Logged

/-- `StrPopRaw` into an array of `MAX_PATH` bytes.  The length becomes an `int`, and
`memcpy` takes the `int` as a `size_t`. -/
def popArray (nameLen : Nat) (packet : List UInt8) : Logged NameCopy (List UInt8) :=
  let rawSize := toI32 nameLen
  let bufSize := toI32 packet.length
  let written := (rawSize % 2 ^ 64).toNat
  if rawSize > bufSize then ⟨[⟨nameLen, packet.length, 0⟩], .failed false⟩
  else if written > maxPath then ⟨[⟨nameLen, packet.length, written⟩], .undefined⟩
  else
    ⟨[⟨nameLen, packet.length, written⟩],
      .popped (packet.take written) ((packet.drop written).take (bufSize.toNat - written))⟩

def popCounted : Option (Nat × List UInt8) → Logged NameCopy (List UInt8)
  | none => .failed false
  | some (nameLen, packet) => popArray nameLen packet

/-- A length and that many bytes. -/
def popName (packet : List UInt8) : Logged NameCopy (List UInt8) := popCounted (popDword.run packet)

/-- The text in an array of `MAX_PATH` bytes that was zero before the copy, if it ends
inside of the array. -/
def arrayText (bytes : List UInt8) : Option (List UInt8) :=
  let array : List UInt8 := bytes ++ List.replicate (maxPath - bytes.length) 0
  if 0 ∈ array then some (array.takeWhile (· ≠ 0)) else none

/-- A failure of `popAttribs` shuts the session down. -/
def popInfo (name : List UInt8) : Option (SftpFileAttr × List UInt8) → Logged NameCopy SftpFileInfo
  | none => .failed true
  | some (attr, packet) => ⟨[], .popped ⟨name, attr⟩ packet⟩

/-- The name is read as text before the attributes are popped. -/
def popNamed (name : Option (List UInt8)) (packet : List UInt8) : Logged NameCopy SftpFileInfo :=
  match name with
  | none => ⟨[], .undefined⟩
  | some name => popInfo name (popAttribs.run packet)

/-- The part of an entry behind its long name, which is not used. -/
def popBehindNames (name _longName packet : List UInt8) : Logged NameCopy SftpFileInfo :=
  popNamed (arrayText name) packet

/-- The part of an entry behind its name. -/
def popBehindName (name packet : List UInt8) : Logged NameCopy SftpFileInfo :=
  (popName packet).bind (popBehindNames name)

/-- One pass through the inner loop, up to the comparison of the name. -/
def popEntry (packet : List UInt8) : Logged NameCopy SftpFileInfo :=
  (popName packet).bind popBehindName

/-- `"..."` -/
def lastMarker : List UInt8 := [46, 46, 46]

/-- What the loops of `readdir` collect. -/
structure Listing where
  files : List SftpFileInfo
  goOn : Bool
  deriving DecidableEq

/-- The last element marker is not put to the list. -/
def Listing.add (listing : Listing) (info : SftpFileInfo) : Listing :=
  if info.name = lastMarker then { listing with goOn := false }
  else { listing with files := listing.files ++ [info] }

/-- The inner loop.  The record has one list of copies for each pass. -/
def popEntries : (count : Nat) → Listing → List UInt8 → Logged (List NameCopy) Listing
  | 0, listing, packet => ⟨[], .popped listing packet⟩
  | count + 1, listing, packet =>
      (popEntry packet).enclose.bind fun info packet => popEntries count (listing.add info) packet

/-! ## The loop of the source -/

/-- The state of a call. -/
inductive CallState where
  | running
  | returned (exitCode : Int)
  | undefined
  deriving DecidableEq

/-- One pass through the outer loop: the id of its request and the answer, if
`processPacket` does not fail. -/
structure ListRound where
  id : UInt32
  reply : Option (List UInt8)

/-- Variables of `readdir`, with the record of the passes through the inner loop for the
last packet. -/
structure ListCall where
  files : List SftpFileInfo
  dead : Bool
  state : CallState
  passes : List (List NameCopy)
  deriving DecidableEq

namespace ListCall

/-- The state at the entry of the loop. -/
def start (dead : Bool) : ListCall where
  files := []
  dead
  state := if dead then .returned (-1) else .running
  passes := []

/-- Leave through the error handler. -/
def fail (call : ListCall) (shutdown : Bool) : ListCall :=
  { call with dead := call.dead || shutdown, state := .returned (-1), passes := [] }

/-- The end of the inner loop. -/
def endEntries (call : ListCall) (batch : Logged (List NameCopy) Listing) : ListCall :=
  match batch.outcome with
  | .failed shutdown => { call.fail shutdown with passes := batch.log }
  | .undefined => { call with state := .undefined, passes := batch.log }
  | .popped listing _ =>
      { call with
        files := listing.files
        state := if listing.goOn then .running else .returned 0
        passes := batch.log }

def checkNames (call : ListCall) : Option (Nat × List UInt8) → ListCall
  | none => call.fail false
  | some (count, packet) => call.endEntries (popEntries count ⟨call.files, true⟩ packet)

def checkEof (call : ListCall) : Option (Nat × List UInt8) → ListCall
  | none => call.fail false
  | some (serverStatus, _) =>
      if serverStatus ≠ fxEof then call.fail false
      else { call with state := .returned 0, passes := [] }

def checkHead (call : ListCall) (id : UInt32) : Option (Head × List UInt8) → ListCall
  | none => call.fail false
  | some (head, packet) =>
      if head.id ≠ id.toNat then call.fail true
      else if head.type = fxpStatus then call.checkEof (popDword.run packet)
      else if head.type = fxpName then call.checkNames (popDword.run packet)
      else call.fail true

/-- One pass through the outer loop. -/
def round (call : ListCall) (round : ListRound) : ListCall :=
  match round.reply with
  | none => call.fail true
  | some answer => call.checkHead round.id (popHead.run answer)

/-- The call after a number of rounds, or where it has ended before. -/
def after (start : ListCall) (rounds : Nat → ListRound) : Nat → ListCall
  | 0 => start
  | count + 1 =>
      let call := after start rounds count
      if call.state = .running then call.round (rounds count) else call

end ListCall

/-! ## Attributes of any flags -/

section Widths

theorem popDword_consumes : Decoder.Consumes (2 ^ 31) popDword 4 := by
  intro packet short
  rw [popDword_run short]
  split <;> rfl

theorem popPair_consumes : Decoder.Consumes (2 ^ 31) popPair (4 + 4) :=
  popDword_consumes.bind fun _ => popDword_consumes.map

/-- The length of an attribute block with the given flags. -/
def attribsLength (flags : Nat) : Nat :=
  4 + ((if hasFlag flags attrSize then 8 else 0) + ((if hasFlag flags attrUidgid then 8 else 0) +
    ((if hasFlag flags attrPermissions then 4 else 0) +
      (if hasFlag flags attrAcmodtime then 8 else 0))))

theorem four_le_attribsLength (flags : Nat) : 4 ≤ attribsLength flags := Nat.le_add_right 4 _

/-- The flags alone decide how long the block is. -/
theorem popAttribs_rest {packet : List UInt8} (short : packet.length < 2 ^ 31) :
    (popAttribs.run packet).map Prod.snd =
      if attribsLength (dwordAt 0 packet) ≤ packet.length then
        some (packet.drop (attribsLength (dwordAt 0 packet)))
      else none := by
  have width := four_le_attribsLength (dwordAt 0 packet)
  have flags := popDword_run short
  by_cases enough : 4 ≤ packet.length
  · rw [if_pos enough] at flags
    refine Decoder.Consumes.bind_run flags ?_ short enough
    exact popPair_consumes.optional.bind fun _ => popPair_consumes.optional.bind fun _ =>
      popDword_consumes.optional.bind fun _ => popPair_consumes.optional.map
  · rw [if_neg enough] at flags
    rw [if_neg (by omega), popAttribs, StateT.run_bind, flags]
    rfl

end Widths

/-! ## Lengths in a packet -/

/-- A length that must not be accepted: it is negative as an `int`, or exceeds the array or
the packet. -/
def NameCopy.Bad (copy : NameCopy) : Prop :=
  2 ^ 31 ≤ copy.length ∨ maxPath ≤ copy.length ∨ copy.remaining < copy.length

/-- The end of a name with its length in front. -/
def nameEnd (packet : List UInt8) : Nat := 4 + dwordAt 0 packet

/-- The end of the two names of an entry. -/
def namesEnd (packet : List UInt8) : Nat := nameEnd packet + nameEnd (packet.drop (nameEnd packet))

/-- The length of the entry at the front of a packet. -/
def entryLength (packet : List UInt8) : Nat :=
  namesEnd packet + attribsLength (dwordAt (namesEnd packet) packet)

/-- If there is a length, then it is shorter than the array, or it is a positive `int` that
exceeds the rest of the packet. -/
def LengthFits (packet : List UInt8) : Prop :=
  4 ≤ packet.length →
    dwordAt 0 packet < maxPath ∨ dwordAt 0 packet < 2 ^ 31 ∧ packet.length < nameEnd packet

/-- Both lengths of the entry at the front of a packet fit. -/
def EntryFits (packet : List UInt8) : Prop :=
  LengthFits packet ∧ LengthFits (packet.drop (nameEnd packet))

/-- All lengths fit in the first entries of a packet, as far as the entries are complete. -/
def EntriesFit : (count : Nat) → List UInt8 → Prop
  | 0, _ => True
  | count + 1, packet =>
      EntryFits packet ∧
        (entryLength packet ≤ packet.length → EntriesFit count (packet.drop (entryLength packet)))

/-- What happens at the front of a packet where `width` bytes are expected: they are
taken, or the packet is too short and the code fails, or a length does not fit and an array
is overrun. -/
inductive Behaves {Value : Type} (accepts : Value → Prop) (fits : Prop) (width : Nat)
    (packet : List UInt8) (result : Logged NameCopy Value) : Prop where
  | popped {value : Value} (fit : fits) (inside : width ≤ packet.length)
      (outcome : result.outcome = .popped value (packet.drop width)) (accepted : accepts value)
      (copies : ∀ copy ∈ result.log, copy.written < maxPath ∧ ¬copy.Bad)
  | failed {dead : Bool} (fit : fits) (long : packet.length < width)
      (outcome : result.outcome = .failed dead)
      (copies : ∀ copy ∈ result.log, copy.written < maxPath)
  | overruns {copy : NameCopy} (unfit : ¬fits) (logged : copy ∈ result.log)
      (large : maxPath ≤ copy.written)

section Sequences

variable {Event Value Result : Type} {first : Logged Event Value}
variable {further : Value → List UInt8 → Logged Event Result}

theorem Logged.bind_popped {value : Value} {rest : List UInt8}
    (outcome : first.outcome = .popped value rest) :
    first.bind further =
      ⟨first.log ++ (further value rest).log, (further value rest).outcome⟩ := by
  rw [bind, outcome]

theorem Logged.outcome_bind {value : Value} {rest : List UInt8}
    (outcome : first.outcome = .popped value rest) :
    (first.bind further).outcome = (further value rest).outcome := by
  rw [bind_popped outcome]

theorem Logged.bind_failed {dead : Bool} (outcome : first.outcome = .failed dead) :
    first.bind further = ⟨first.log, .failed dead⟩ := by
  rw [bind, outcome]

/-- What was recorded stays recorded. -/
theorem Logged.log_bind (first : Logged Event Value)
    (further : Value → List UInt8 → Logged Event Result) :
    first.log <+: (first.bind further).log := by
  rw [bind]
  split
  · exact List.prefix_rfl
  · exact List.prefix_rfl
  · exact List.prefix_append _ _

variable {passes : Value → List UInt8 → Logged (List Event) Result}

theorem Logged.enclose_popped {value : Value} {rest : List UInt8}
    (outcome : first.outcome = .popped value rest) :
    first.enclose.bind passes =
      ⟨first.log :: (passes value rest).log, (passes value rest).outcome⟩ := by
  rw [bind, enclose, outcome]
  rfl

theorem Logged.enclose_failed {dead : Bool} (outcome : first.outcome = .failed dead) :
    first.enclose.bind passes = ⟨[first.log], .failed dead⟩ := by
  rw [bind, enclose, outcome]

theorem Logged.enclose_undefined (outcome : first.outcome = .undefined) :
    first.enclose.bind passes = ⟨[first.log], .undefined⟩ := by
  rw [bind, enclose, outcome]

theorem Logged.enclose_log (first : Logged Event Value)
    (passes : Value → List UInt8 → Logged (List Event) Result) :
    first.log ∈ (first.enclose.bind passes).log :=
  (first.enclose.log_bind passes).mem (List.mem_singleton_self _)

end Sequences

section Entries

variable {packet : List UInt8}

theorem Behaves.bind {Value Result : Type} {accepts : Value → Prop} {accepted : Result → Prop}
    {fits later : Prop} {width more : Nat} {first : Logged NameCopy Value}
    {further : Value → List UInt8 → Logged NameCopy Result}
    (begins : Behaves accepts fits width packet first)
    (nothing : packet.length < width → later)
    (next : ∀ value, accepts value → width ≤ packet.length →
      Behaves accepted later more (packet.drop width) (further value (packet.drop width))) :
    Behaves accepted (fits ∧ later) (width + more) packet (first.bind further) := by
  cases begins with
  | failed fit long outcome copies =>
      rw [Logged.bind_failed outcome]
      exact .failed ⟨fit, nothing long⟩ (by omega) rfl copies
  | overruns unfit logged large =>
      exact .overruns (fun both => unfit both.1) ((first.log_bind further).mem logged) large
  | popped fit inside outcome accepted copies =>
      have length := List.length_drop (i := width) (l := packet)
      rw [Logged.bind_popped outcome]
      cases next _ accepted inside with
      | failed latter long outcome others =>
          refine .failed ⟨fit, latter⟩ (by omega) outcome fun copy logged => ?_
          exact (List.mem_append.mp logged).elim (fun early => (copies copy early).1) (others copy)
      | overruns unfit logged large =>
          exact .overruns (fun both => unfit both.2) (List.mem_append_right _ logged) large
      | popped latter within outcome accepted others =>
          rw [List.drop_drop] at outcome
          refine .popped ⟨fit, latter⟩ (by omega) outcome accepted fun copy logged => ?_
          exact (List.mem_append.mp logged).elim (copies copy) (others copy)

/-- The bytes of a name, by the length in front of them. -/
theorem popArray_behaves {nameLen : Nat} (small : nameLen < 2 ^ 32) (short : packet.length < 2 ^ 31) :
    Behaves (fun name => name.length < maxPath)
      (nameLen < maxPath ∨ nameLen < 2 ^ 31 ∧ packet.length < nameLen) nameLen packet
      (popArray nameLen packet) := by
  have array : maxPath = 260 := rfl
  rw [popArray, toI32_length short]
  by_cases negative : 2 ^ 31 ≤ nameLen
  · have size : toI32 nameLen = nameLen - 2 ^ 32 := by
      rw [toI32]
      omega
    rw [size, if_neg (by omega), if_pos (by omega)]
    exact .overruns (by omega) (List.mem_singleton_self _) (by simp only; omega)
  have written : ((nameLen : Int) % 2 ^ 64).toNat = nameLen := by omega
  rw [toI32_of_fits (by omega) (by omega), written]
  by_cases long : packet.length < nameLen
  · rw [if_pos (by omega)]
    refine .failed (Or.inr ⟨by omega, long⟩) long rfl fun copy logged => ?_
    obtain rfl := List.mem_singleton.mp logged
    exact (by decide : 0 < maxPath)
  rw [if_neg (by omega)]
  by_cases inside : nameLen < maxPath
  · rw [if_neg (by omega), take_rest]
    refine .popped (Or.inl inside) (by omega) rfl ?_ fun copy logged => ?_
    · rw [List.length_take]
      omega
    · obtain rfl := List.mem_singleton.mp logged
      simp only [NameCopy.Bad]
      omega
  · have unfit : ¬(nameLen < maxPath ∨ nameLen < 2 ^ 31 ∧ packet.length < nameLen) := by omega
    split
    · exact .overruns unfit (List.mem_singleton_self _) (by simp only; omega)
    · exact .overruns unfit (List.mem_singleton_self _) (by simp only; omega)

theorem popName_counted (short : packet.length < 2 ^ 31) (counted : 4 ≤ packet.length) :
    popName packet = popArray (dwordAt 0 packet) (packet.drop 4) := by
  rw [popName, popDword_run short, if_pos counted]
  rfl

theorem popName_uncounted (short : packet.length < 2 ^ 31) (few : ¬4 ≤ packet.length) :
    popName packet = .failed false := by
  rw [popName, popDword_run short, if_neg few]
  rfl

theorem popName_behaves (short : packet.length < 2 ^ 31) :
    Behaves (fun name => name.length < maxPath) (LengthFits packet) (nameEnd packet) packet
      (popName packet) := by
  by_cases counted : 4 ≤ packet.length
  case neg =>
    rw [popName_uncounted short counted]
    refine .failed (fun enough => absurd enough counted) ?_ rfl fun copy logged => by cases logged
    rw [nameEnd]
    omega
  have behind : (packet.drop 4).length < 2 ^ 31 := by
    simp only [List.length_drop]
    omega
  have length := List.length_drop (i := 4) (l := packet)
  have fits : LengthFits packet ↔ dwordAt 0 packet < maxPath ∨
      dwordAt 0 packet < 2 ^ 31 ∧ (packet.drop 4).length < dwordAt 0 packet := by
    rw [LengthFits, nameEnd]
    omega
  rw [popName_counted short counted]
  cases popArray_behaves (dwordAt_lt 0 packet) behind with
  | popped fit inside outcome accepted copies =>
      rw [List.drop_drop] at outcome
      exact .popped (fits.mpr fit) (by rw [nameEnd]; omega) outcome accepted copies
  | failed fit long outcome copies =>
      exact .failed (fits.mpr fit) (by rw [nameEnd]; omega) outcome copies
  | overruns unfit logged large => exact .overruns (fun fit => unfit (fits.mp fit)) logged large

theorem arrayText_of_lt {bytes : List UInt8} (short : bytes.length < maxPath) :
    ∃ text, arrayText bytes = some text := by
  refine ⟨_, if_pos ?_⟩
  rw [List.mem_append]
  exact Or.inr (List.mem_replicate.mpr ⟨by omega, rfl⟩)

theorem popNamed_some (text packet : List UInt8) :
    popNamed (some text) packet = popInfo text (popAttribs.run packet) := rfl

theorem popNamed_behaves {name : List UInt8} (named : name.length < maxPath)
    (short : packet.length < 2 ^ 31) :
    Behaves (fun _ => True) True (attribsLength (dwordAt 0 packet)) packet
      (popNamed (arrayText name) packet) := by
  obtain ⟨text, isText⟩ := arrayText_of_lt named
  have rest := popAttribs_rest short
  rw [isText, popNamed_some]
  by_cases inside : attribsLength (dwordAt 0 packet) ≤ packet.length
  · rw [if_pos inside] at rest
    obtain ⟨⟨attr, left⟩, ran, same⟩ := Option.map_eq_some_iff.mp rest
    obtain rfl : packet.drop _ = left := same.symm
    rw [ran]
    exact .popped trivial inside rfl trivial fun copy logged => by cases logged
  · rw [if_neg inside] at rest
    rw [Option.map_eq_none_iff.mp rest]
    exact .failed trivial (Nat.lt_of_not_le inside) rfl fun copy logged => by cases logged

theorem lengthFits_nil : LengthFits [] := fun enough => absurd enough (by decide)

/-- What happens to an entry depends on its two lengths. -/
theorem popEntry_behaves (short : packet.length < 2 ^ 31) :
    Behaves (fun _ => True) (EntryFits packet) (entryLength packet) packet (popEntry packet) := by
  have behind : ∀ rest : List UInt8, rest.length < 2 ^ 31 → ∀ width, (rest.drop width).length < 2 ^ 31 := by
    intro rest bounded width
    simp only [List.length_drop]
    omega
  have nothing : packet.length < nameEnd packet → LengthFits (packet.drop (nameEnd packet)) := by
    intro long
    rw [List.drop_eq_nil_of_le (Nat.le_of_lt long)]
    exact lengthFits_nil
  have second := behind packet short (nameEnd packet)
  have third := behind _ second (nameEnd (packet.drop (nameEnd packet)))
  have steps : Behaves (fun _ => True) _ _ packet (popEntry packet) :=
    (popName_behaves short).bind (fun long => ⟨nothing long, trivial⟩) fun name named _ =>
      (popName_behaves second).bind (fun _ => trivial) fun _ _ _ => popNamed_behaves named third
  rwa [and_true, List.drop_drop, dwordAt_drop, Nat.add_zero, ← Nat.add_assoc] at steps

/-- Popping takes at least `width` bytes. -/
def Shrinks {Event Value : Type} (width : Nat) (packet : List UInt8) (result : Logged Event Value) :
    Prop :=
  ∀ value rest, result.outcome = .popped value rest → rest.length + width ≤ packet.length

theorem Shrinks.bind {Event Value Result : Type} {width more : Nat} {first : Logged Event Value}
    {further : Value → List UInt8 → Logged Event Result} (begins : Shrinks width packet first)
    (next : ∀ value rest, rest.length ≤ packet.length → Shrinks more rest (further value rest)) :
    Shrinks (width + more) packet (first.bind further) := by
  intro value rest outcome
  cases ended : first.outcome with
  | failed dead =>
      rw [Logged.bind_failed ended] at outcome
      cases outcome
  | undefined =>
      rw [Logged.bind, ended] at outcome
      cases outcome
  | popped found left =>
      rw [Logged.bind_popped ended] at outcome
      have shorter := begins found left ended
      have again := next found left (by omega) value rest outcome
      omega

theorem popArray_shrinks (nameLen : Nat) (packet : List UInt8) :
    Shrinks 0 packet (popArray nameLen packet) := by
  intro name rest outcome
  rw [popArray] at outcome
  generalize (toI32 nameLen % 2 ^ 64).toNat = written at outcome
  generalize (toI32 packet.length).toNat = size at outcome
  by_cases long : toI32 nameLen > toI32 packet.length
  · rw [if_pos long] at outcome
    cases outcome
  rw [if_neg long] at outcome
  by_cases overrun : written > maxPath
  · rw [if_pos overrun] at outcome
    cases outcome
  · rw [if_neg overrun] at outcome
    cases outcome
    rw [List.length_take, List.length_drop]
    omega

theorem popName_shrinks (short : packet.length < 2 ^ 31) : Shrinks 4 packet (popName packet) := by
  intro name rest outcome
  by_cases counted : 4 ≤ packet.length
  · rw [popName_counted short counted] at outcome
    have shorter := popArray_shrinks _ _ name rest outcome
    rw [List.length_drop] at shorter
    omega
  · rw [popName_uncounted short counted] at outcome
    cases outcome

theorem popNamed_shrinks (name : Option (List UInt8)) (short : packet.length < 2 ^ 31) :
    Shrinks 4 packet (popNamed name packet) := by
  intro info rest outcome
  cases name with
  | none => cases outcome
  | some text =>
      have left := popAttribs_rest short
      have width := four_le_attribsLength (dwordAt 0 packet)
      rw [popNamed_some] at outcome
      cases ran : popAttribs.run packet with
      | none =>
          rw [ran] at outcome
          cases outcome
      | some found =>
          rw [ran] at outcome left
          cases outcome
          split at left
          case isFalse => cases left
          case isTrue inside =>
            have same := congrArg List.length (Option.some.inj left)
            rw [List.length_drop] at same
            omega

theorem popEntry_shrinks (short : packet.length < 2 ^ 31) :
    Shrinks (4 + (4 + 4)) packet (popEntry packet) := by
  refine (popName_shrinks short).bind fun name rest shorter => ?_
  have second : rest.length < 2 ^ 31 := by omega
  refine (popName_shrinks second).bind fun _ left again => ?_
  exact popNamed_shrinks _ (by omega)

/-- Every pass takes bytes from the packet, except for the last one. -/
theorem popEntries_log_length (count : Nat) (listing : Listing) (short : packet.length < 2 ^ 31) :
    12 * (popEntries count listing packet).log.length ≤ packet.length + 12 := by
  induction count generalizing listing packet with
  | zero => exact Nat.zero_le _
  | succ count ih =>
      have shrinks := popEntry_shrinks short
      rw [popEntries]
      generalize popEntry packet = entry at shrinks ⊢
      cases outcome : entry.outcome with
      | failed dead =>
          rw [Logged.enclose_failed outcome, List.length_singleton]
          omega
      | undefined =>
          rw [Logged.enclose_undefined outcome, List.length_singleton]
          omega
      | popped info rest =>
          have shorter := shrinks info rest outcome
          have left : rest.length < 2 ^ 31 := by omega
          have others := ih (listing.add info) left
          rw [Logged.enclose_popped outcome, List.length_cons]
          omega

/-- Nothing is written outside of the arrays, and a bad length ends the loop through the
error handler. -/
structure Harmless (batch : Logged (List NameCopy) Listing) : Prop where
  inside : ∀ pass ∈ batch.log, ∀ copy ∈ pass, copy.written < maxPath
  rejected : ∀ pass ∈ batch.log, ∀ copy ∈ pass, copy.Bad → ∃ dead, batch.outcome = .failed dead

/-- The inner loop is harmless exactly when all lengths that it comes to fit. -/
theorem popEntries_harmless_iff (count : Nat) (listing : Listing) (short : packet.length < 2 ^ 31) :
    Harmless (popEntries count listing packet) ↔ EntriesFit count packet := by
  induction count generalizing listing packet with
  | zero =>
      refine ⟨fun _ => trivial, fun _ => ⟨fun pass member => ?_, fun pass member => ?_⟩⟩
      · cases member
      · cases member
  | succ count ih =>
      have behaves := popEntry_behaves short
      rw [EntriesFit, popEntries]
      generalize popEntry packet = entry at behaves ⊢
      cases behaves with
      | popped fit inside outcome _ copies =>
          have shorter : (packet.drop (entryLength packet)).length < 2 ^ 31 := by
            simp only [List.length_drop]
            omega
          rw [Logged.enclose_popped outcome, and_iff_right fit, forall_prop_of_true inside,
            ← ih _ shorter]
          constructor
          · intro harmless
            exact ⟨fun pass member => harmless.inside pass (List.mem_cons_of_mem _ member),
              fun pass member => harmless.rejected pass (List.mem_cons_of_mem _ member)⟩
          · intro harmless
            refine ⟨fun pass member copy within => ?_, fun pass member copy within bad => ?_⟩
            · rcases List.mem_cons.mp member with rfl | later
              · exact (copies copy within).1
              · exact harmless.inside pass later copy within
            · rcases List.mem_cons.mp member with rfl | later
              · exact absurd bad (copies copy within).2
              · exact harmless.rejected pass later copy within bad
      | failed fit long outcome copies =>
          rw [Logged.enclose_failed outcome]
          refine ⟨fun _ => ⟨fit, fun whole => absurd long (Nat.not_lt_of_le whole)⟩, fun _ => ?_⟩
          refine ⟨fun pass member copy within => ?_, fun _ _ _ _ _ => ⟨_, rfl⟩⟩
          obtain rfl := List.mem_singleton.mp member
          exact copies copy within
      | overruns unfit logged large =>
          refine ⟨fun harmless => ?_, fun fits => absurd fits.1 unfit⟩
          exact absurd (harmless.inside _ (entry.enclose_log _) _ logged) (Nat.not_lt_of_le large)

end Entries

/-! ## Any server -/

/-- A packet of entries for the request. -/
def CarriesNames (id : UInt32) (answer : List UInt8) : Prop :=
  13 ≤ toI32 answer.length ∧ byteAt 4 answer = fxpName ∧ dwordAt 5 answer = id.toNat

/-- All lengths fit in the entries that the answer announces. -/
def AnswerFits (round : ListRound) : Prop :=
  ∀ answer, round.reply = some answer → CarriesNames round.id answer →
    EntriesFit (dwordAt 9 answer) ((visible answer).drop 13)

namespace ListCall

theorem checkEof_passes (call : ListCall) (popped : Option (Nat × List UInt8)) :
    (call.checkEof popped).passes = [] := by
  cases popped with
  | none => rfl
  | some outcome =>
      rw [checkEof]
      split <;> rfl

theorem endEntries_passes (call : ListCall) (batch : Logged (List NameCopy) Listing) :
    (call.endEntries batch).passes = batch.log := by
  rw [endEntries]
  split <;> rfl

/-- Every round goes through the entries of its answer, or through no entries. -/
theorem round_cases (call : ListCall) (round : ListRound) :
    (∃ answer, round.reply = some answer ∧ CarriesNames round.id answer ∧
      call.round round = call.endEntries
        (popEntries (dwordAt 9 answer) ⟨call.files, true⟩ ((visible answer).drop 13))) ∨
    (∀ answer, round.reply = some answer → ¬CarriesNames round.id answer) ∧
      (call.round round).passes = [] := by
  obtain ⟨id, reply⟩ := round
  cases reply with
  | none => exact Or.inr ⟨fun answer same => (by cases same), rfl⟩
  | some answer =>
      have other : (¬CarriesNames id answer) →
          ∀ same, some answer = some same → ¬CarriesNames id same := by
        rintro lacks _ ⟨⟩
        exact lacks
      have unfolded : call.round ⟨id, some answer⟩ = call.checkHead id (popHead.run answer) := rfl
      rw [unfolded, popHead_answer]
      by_cases headed : 9 ≤ toI32 answer.length
      case neg =>
        rw [if_neg headed]
        refine Or.inr ⟨other fun carries => headed ?_, rfl⟩
        have long := carries.1
        omega
      rw [if_pos headed, checkHead]
      by_cases sameId : dwordAt 5 answer = id.toNat
      case neg =>
        rw [if_pos sameId]
        exact Or.inr ⟨other fun carries => sameId carries.2.2, rfl⟩
      rw [if_neg (not_not_intro sameId)]
      by_cases type : byteAt 4 answer = fxpName
      case neg =>
        refine Or.inr ⟨other fun carries => type carries.2.1, ?_⟩
        rw [if_neg type]
        split
        · exact call.checkEof_passes _
        · rfl
      have notStatus : byteAt 4 answer ≠ fxpStatus := by
        rw [type]
        decide
      rw [if_neg notStatus, if_pos type, popDword_answer]
      by_cases counted : 13 ≤ toI32 answer.length
      case neg =>
        rw [if_neg counted]
        exact Or.inr ⟨other fun carries => counted carries.1, rfl⟩
      rw [if_pos counted, checkNames]
      exact Or.inl ⟨answer, rfl, ⟨counted, type, sameId⟩, rfl⟩

theorem after_succ {start : ListCall} {rounds : Nat → ListRound} {count : Nat}
    (running : (after start rounds count).state = .running) :
    after start rounds (count + 1) = (after start rounds count).round (rounds count) := by
  rw [after, if_pos running]

theorem after_ended {start : ListCall} {rounds : Nat → ListRound} {count : Nat}
    (ended : (after start rounds count).state ≠ .running) :
    after start rounds (count + 1) = after start rounds count := by
  rw [after, if_neg ended]

/-- At most `MAX_PATH - 1` bytes have gone into each array, and a bad length has made the
call fail. -/
structure SafePasses (call : ListCall) : Prop where
  inside : ∀ pass ∈ call.passes, ∀ copy ∈ pass, copy.written ≤ maxPath - 1
  rejected : ∀ pass ∈ call.passes, ∀ copy ∈ pass, copy.Bad → call.state = .returned (-1)

/-- The arrays are safe for every packet, and no packet takes more passes than it has
bytes. -/
structure Safe (start : ListCall) (rounds : Nat → ListRound) : Prop where
  arrays : ∀ count, (after start rounds count).SafePasses
  bounded : ∀ count, (after start rounds count).state = .running →
    ∀ answer, (rounds count).reply = some answer →
      (after start rounds (count + 1)).passes.length ≤ answer.length

/-- The passes of a round are bounded by its answer. -/
theorem round_bounded (call : ListCall) (round : ListRound) {answer : List UInt8}
    (replied : round.reply = some answer) : (call.round round).passes.length ≤ answer.length := by
  obtain ⟨other, same, carries, next⟩ | ⟨_, nothing⟩ := call.round_cases round
  · cases replied.symm.trans same
    have bound := visible_length_lt answer
    have long : 13 ≤ (visible answer).length := (le_visible_length (by decide)).mpr carries.1
    have short := visible_length_le answer
    have body : ((visible answer).drop 13).length < 2 ^ 31 := by
      simp only [List.length_drop]
      omega
    have passes := popEntries_log_length (dwordAt 9 answer) ⟨call.files, true⟩ body
    rw [List.length_drop] at passes
    rw [next, endEntries_passes]
    omega
  · rw [nothing]
    exact Nat.zero_le _

theorem endEntries_safe_iff (call : ListCall) (batch : Logged (List NameCopy) Listing) :
    (call.endEntries batch).SafePasses ↔ Harmless batch := by
  have array : maxPath = 260 := rfl
  have passes := call.endEntries_passes batch
  have failed : (call.endEntries batch).state = .returned (-1) ↔ ∃ dead, batch.outcome = .failed dead := by
    rw [endEntries]
    split
    case h_1 dead outcome => exact ⟨fun _ => ⟨dead, outcome⟩, fun _ => rfl⟩
    case h_2 outcome => simp [outcome]
    case h_3 listing rest outcome =>
      rw [outcome]
      cases listing.goOn <;> simp
  constructor
  · intro safe
    refine ⟨fun pass member copy within => ?_, fun pass member copy within bad => ?_⟩
    · rw [← passes] at member
      have inside := safe.inside pass member copy within
      omega
    · rw [← passes] at member
      exact failed.mp (safe.rejected pass member copy within bad)
  · intro harmless
    refine ⟨fun pass member copy within => ?_, fun pass member copy within bad => ?_⟩
    · rw [passes] at member
      have inside := harmless.inside pass member copy within
      omega
    · rw [passes] at member
      exact failed.mpr (harmless.rejected pass member copy within bad)

/-- The arrays are safe in a round exactly when the lengths in its answer fit. -/
theorem round_safe_iff (call : ListCall) (round : ListRound) :
    (call.round round).SafePasses ↔ AnswerFits round := by
  obtain ⟨answer, replied, carries, next⟩ | ⟨none, nothing⟩ := call.round_cases round
  · have bound := visible_length_lt answer
    have body : ((visible answer).drop 13).length < 2 ^ 31 := by
      simp only [List.length_drop]
      omega
    have fits : AnswerFits round ↔ EntriesFit (dwordAt 9 answer) ((visible answer).drop 13) := by
      refine ⟨fun fits => fits answer replied carries, fun fit other same _ => ?_⟩
      cases replied.symm.trans same
      exact fit
    rw [fits, next, endEntries_safe_iff, popEntries_harmless_iff _ _ body]
  · refine ⟨fun _ answer replied carries => absurd carries (none answer replied), fun _ => ?_⟩
    refine ⟨fun pass member => ?_, fun pass member => ?_⟩
    · rw [nothing] at member
      cases member
    · rw [nothing] at member
      cases member

/-- Every call is safe against a server exactly when all lengths fit in the entries that
arrive while it goes on. -/
theorem readdir_safe_iff (dead : Bool) (rounds : Nat → ListRound) :
    Safe (start dead) rounds ↔
      ∀ count, (after (start dead) rounds count).state = .running → AnswerFits (rounds count) := by
  constructor
  · intro safe count running
    have next := safe.arrays (count + 1)
    rw [after_succ running] at next
    exact (round_safe_iff _ _).mp next
  · intro fits
    refine ⟨fun count => ?_, fun count running answer replied => ?_⟩
    · induction count with
      | zero => exact ⟨fun pass member => (by cases member), fun pass member => (by cases member)⟩
      | succ count ih =>
          by_cases running : (after (start dead) rounds count).state = .running
          · rw [after_succ running]
            exact (round_safe_iff _ _).mpr (fits count running)
          · rwa [after_ended running]
    · rw [after_succ running]
      exact round_bounded _ _ replied

/-- A packet with one entry whose name has 300 bytes. -/
def longNameAnswer : List UInt8 :=
  [0, 0, 1, 69, 104, 0, 0, 0, 1, 0, 0, 0, 1, 0, 0, 1, 44] ++ List.replicate 300 65 ++
    List.replicate 12 0

/-- A name of 300 bytes is written into an array of 260 bytes. -/
theorem readdir_longName_overruns :
    (after (start false) (fun _ => ⟨1, some longNameAnswer⟩) 1).passes = [[⟨300, 312, 300⟩]] ∧
      ¬Safe (start false) fun _ => ⟨1, some longNameAnswer⟩ := by
  have passes : (after (start false) (fun _ => ⟨1, some longNameAnswer⟩) 1).passes =
      [[⟨300, 312, 300⟩]] := by decide +kernel
  refine ⟨passes, fun safe => ?_⟩
  have inside := (safe.arrays 1).inside
  rw [passes] at inside
  exact absurd (inside _ (List.mem_singleton_self _) _ (List.mem_singleton_self _)) (by decide)

end ListCall

end Tegenaria.LibSftp
