import Tegenaria.Foundation.RecordStream
import Tegenaria.Foundation.Transition
import Tegenaria.LibSecure.Cipher

/-!
# Secure connections as byte streams

`SecureConnection::write` passes a buffer to OpenSSL and moves what comes out of it to
the underlying IO through a local buffer; `read` moves one piece of ciphertext back in
and takes decrypted bytes out.  Both sides meet with a list of records: OpenSSL is an
ideal record layer, and the IO keeps all bytes in order but may split them anywhere.
-/

namespace Tegenaria.LibSecure

open Foundation
open Foundation.Record

abbrev SslRecord := Record UInt8 UInt8

/-- `SSL_write` on one side: the records of the buffer passed in a call, which hold the
whole buffer. -/
structure RecordLayer where
  sslWrite : (call : Nat) → Buffer → List SslRecord
  whole : ∀ call message, plainOf (sslWrite call message) = message

/-- The size of the local buffers of `write` and `read`. -/
def chunkSize : Nat := 1024

/-- Both ends of one direction between calls: the records made so far, the content of the
writer's BIO, the bytes in the IO, those passed to the reader's BIO and those returned
by `read`.  The rest is history: what was given to `write`, the length and the result of
every call, and whether a call of `read` has found the IO empty with bytes decrypted. -/
structure Duplex where
  calls : Nat
  records : List SslRecord
  writeBio : Buffer
  channel : Buffer
  fed : Buffer
  received : Buffer
  sent : Buffer
  results : List (Nat × Int)
  starved : Bool

namespace Duplex

def opened : Duplex where
  calls := 0
  records := []
  writeBio := []
  channel := []
  fed := []
  received := []
  sent := []
  results := []
  starved := false

/-- The decrypted bytes that `SSL_read` can return. -/
def pending (duplex : Duplex) : Buffer :=
  (Record.opened duplex.records duplex.fed).drop duplex.received.length

end Duplex

inductive StreamCall where
  /-- A call of `write`; the IO answers with the number of bytes that it has taken. -/
  | write (message : Buffer) (written : Int)
  /-- A call of `read`; the IO has given `chunk` bytes and `SSL_read` `count` bytes. -/
  | read (len chunk count : Nat)
  /-- A call of `read` while there are no bytes in the IO. -/
  | readNothing (len : Nat)

section Calls

variable (layer : RecordLayer)

/-- `encrypt`: the new records are in the BIO, and a piece of it is taken out. -/
def encrypt (duplex : Duplex) (message : Buffer) : Duplex × Buffer :=
  let records := layer.sslWrite duplex.calls message
  let bio := duplex.writeBio ++ codedOf records
  ({ duplex with
      calls := duplex.calls + 1
      records := duplex.records ++ records
      writeBio := bio.drop chunkSize }, bio.take chunkSize)

/-- `write`, where the IO takes `written` bytes or fails. -/
def write (duplex : Duplex) (message : Buffer) (written : Int) : Option Duplex :=
  let (next, encrypted) := encrypt layer duplex message
  let sent := duplex.sent ++ message
  if encrypted = [] then
    some { next with sent := sent, results := duplex.results ++ [(message.length, -1)] }
  else if -1 ≤ written ∧ written ≤ encrypted.length then
    some
      { next with
        sent := sent
        channel := duplex.channel ++ encrypted.take written.toNat
        results := duplex.results ++ [(message.length, written)] }
  else none

/-- `decrypt`: a piece of ciphertext goes to the BIO and `SSL_read` returns `count` bytes,
at least one and at most `len` of those that are decrypted, or -1 if there are none. -/
def decrypt (duplex : Duplex) (encrypted : Buffer) (len count : Nat) : Option Duplex :=
  let duplex := { duplex with fed := duplex.fed ++ encrypted }
  if duplex.pending = [] ∨ len = 0 then if count = 0 then some duplex else none
  else if 0 < count ∧ count ≤ len ∧ count ≤ duplex.pending.length then
    some { duplex with received := duplex.received ++ duplex.pending.take count }
  else none

/-- `read`, where the IO gives `chunk` bytes. -/
def read (duplex : Duplex) (len chunk count : Nat) : Option Duplex :=
  if 0 < chunk ∧ chunk ≤ chunkSize ∧ chunk ≤ duplex.channel.length then
    decrypt { duplex with channel := duplex.channel.drop chunk } (duplex.channel.take chunk) len count
  else none

def streamMachine : Machine Duplex StreamCall where
  step duplex
    | .write message written => write layer duplex message written
    | .read len chunk count => read duplex len chunk count
    | .readNothing _ =>
        if duplex.channel = [] then
          some { duplex with starved := duplex.starved || duplex.pending ≠ [] }
        else none

/-! ## Streams that arrive -/

/-- What a connection promises: `write` returns the length or -1 and leaves nothing in the
BIO, the bytes arrive in order and all of them when the IO is empty, and no call of `read`
has asked an empty IO while there were decrypted bytes. -/
structure Faithful (duplex : Duplex) : Prop where
  results : ∀ result ∈ duplex.results, result.2 = result.1 ∨ result.2 = -1
  bioEmpty : duplex.writeBio = []
  inOrder : duplex.received <+: duplex.sent
  complete : duplex.channel = [] → duplex.received = duplex.sent
  unstarved : duplex.starved = false

/-- The code of a written buffer fits in the local buffer, is as long as the written buffer
itself and is taken by the IO as a whole; a call of `read` gets all the bytes that are
decrypted, or there is more ciphertext in the IO. -/
def Fits (duplex : Duplex) : StreamCall → Prop
  | .write message written =>
      (codedOf (layer.sslWrite duplex.calls message)).length ≤ chunkSize ∧
        (codedOf (layer.sslWrite duplex.calls message) = [] ∨
          (codedOf (layer.sslWrite duplex.calls message)).length = message.length ∧
            written = message.length)
  | .read _ chunk count =>
      ({ duplex with fed := duplex.fed ++ duplex.channel.take chunk }).pending.length ≤ count ∨
        chunk < duplex.channel.length
  | .readNothing _ => True

instance (duplex : Duplex) : (call : StreamCall) → Decidable (Fits layer duplex call)
  | .write message written =>
      inferInstanceAs (Decidable
        ((codedOf (layer.sslWrite duplex.calls message)).length ≤ chunkSize ∧
          (codedOf (layer.sslWrite duplex.calls message) = [] ∨
            (codedOf (layer.sslWrite duplex.calls message)).length = message.length ∧
              written = message.length)))
  | .read _ chunk count =>
      inferInstanceAs (Decidable
        (({ duplex with fed := duplex.fed ++ duplex.channel.take chunk }).pending.length ≤ count ∨
          chunk < duplex.channel.length))
  | .readNothing _ => isTrue trivial

/-- What holds between the calls. -/
structure Intact (duplex : Duplex) : Prop where
  results : ∀ result ∈ duplex.results, result.2 = result.1 ∨ result.2 = -1
  bioEmpty : duplex.writeBio = []
  coded : codedOf duplex.records = duplex.fed ++ duplex.channel
  plain : plainOf duplex.records = duplex.sent
  initial : duplex.received <+: Record.opened duplex.records duplex.fed
  drained : duplex.received = Record.opened duplex.records duplex.fed ∨ duplex.channel ≠ []
  unstarved : duplex.starved = false

theorem intact_opened : Intact .opened where
  results := List.forall_mem_nil _
  bioEmpty := rfl
  coded := rfl
  plain := rfl
  initial := List.prefix_rfl
  drained := .inl rfl
  unstarved := rfl

variable {layer}

theorem Intact.faithful {duplex : Duplex} (intact : Intact duplex) : Faithful duplex where
  results := intact.results
  bioEmpty := intact.bioEmpty
  inOrder := intact.plain ▸ intact.initial.trans (opened_initial ..)
  complete nothing := by
    have all : duplex.fed = codedOf duplex.records := by
      rw [intact.coded, nothing, List.append_nil]
    rw [intact.drained.resolve_right (not_not.mpr nothing), all, opened_codedOf, intact.plain]
  unstarved := intact.unstarved

/-- New records are in the IO as a whole. -/
theorem Intact.append {duplex : Duplex} (intact : Intact duplex) (calls : Nat)
    (records : List SslRecord) (result : Nat × Int) (right : result.2 = result.1 ∨ result.2 = -1) :
    Intact
      { duplex with
        calls := calls
        records := duplex.records ++ records
        writeBio := []
        channel := duplex.channel ++ codedOf records
        sent := duplex.sent ++ plainOf records
        results := duplex.results ++ [result] } where
  results := List.forall_mem_append.mpr ⟨intact.results, List.forall_mem_singleton.mpr right⟩
  bioEmpty := rfl
  coded := by rw [codedOf_append, intact.coded, List.append_assoc]
  plain := by rw [plainOf_append, intact.plain]
  initial := intact.initial.trans (opened_append ..)
  drained := by
    by_cases nothing : codedOf records = []
    · rw [eq_nil_of_codedOf_eq_nil nothing, List.append_nil]
      refine intact.drained.imp_right fun more => ?_
      simp [more]
    · exact .inr (by simp [nothing])
  unstarved := intact.unstarved

theorem Intact.write {duplex next : Duplex} {message : Buffer} {written : Int}
    (intact : Intact duplex) (fits : Fits layer duplex (.write message written))
    (called : write layer duplex message written = some next) : Intact next := by
  obtain ⟨short, whole⟩ := fits
  have bio : duplex.writeBio ++ codedOf (layer.sslWrite duplex.calls message) =
      codedOf (layer.sslWrite duplex.calls message) := by rw [intact.bioEmpty, List.nil_append]
  have plain := layer.whole duplex.calls message
  simp only [LibSecure.write, encrypt, bio, List.take_of_length_le short,
    List.drop_of_length_le short] at called
  by_cases nothing : codedOf (layer.sslWrite duplex.calls message) = []
  · rw [if_pos nothing] at called
    cases called
    have appended := intact.append (duplex.calls + 1) (layer.sslWrite duplex.calls message)
      (message.length, -1) (.inr rfl)
    rwa [plain, nothing, List.append_nil] at appended
  · obtain ⟨sameLength, taken⟩ := whole.resolve_left nothing
    rw [if_neg nothing, taken, ← sameLength] at called
    rw [if_pos ⟨by omega, Int.le_refl _⟩, Int.toNat_natCast, List.take_length] at called
    cases called
    have appended := intact.append (duplex.calls + 1) (layer.sslWrite duplex.calls message)
      (message.length, message.length) (.inl rfl)
    rwa [plain, ← sameLength] at appended

/-- A piece of the stream is moved to the reader, who takes some of what is decrypted. -/
theorem Intact.feed {duplex : Duplex} (intact : Intact duplex) {chunk count : Nat}
    (enough : ({ duplex with fed := duplex.fed ++ duplex.channel.take chunk }).pending.length ≤
      count ∨ chunk < duplex.channel.length) :
    Intact
      { duplex with
        channel := duplex.channel.drop chunk
        fed := duplex.fed ++ duplex.channel.take chunk
        received := duplex.received ++
          ({ duplex with fed := duplex.fed ++ duplex.channel.take chunk }).pending.take count } := by
  have initial : duplex.received <+:
      Record.opened duplex.records (duplex.fed ++ duplex.channel.take chunk) :=
    intact.initial.trans (opened_mono (List.prefix_append ..) _)
  have split := List.prefix_iff_eq_append.mp initial
  refine ⟨intact.results, intact.bioEmpty, ?_, intact.plain, ?_, ?_, intact.unstarved⟩
  · rw [List.append_assoc, List.take_append_drop]
    exact intact.coded
  · simp only [Duplex.pending]
    nth_rewrite 2 [← split]
    exact (List.prefix_append_right_inj _).mpr (List.take_prefix ..)
  · refine enough.imp ?_ ?_
    · intro all
      rw [List.take_of_length_le all]
      exact split
    · intro more nothing
      rw [List.drop_eq_nil_iff] at nothing
      omega

theorem decrypt_eq {duplex next : Duplex} {encrypted : Buffer} {len count : Nat}
    (decrypted : decrypt duplex encrypted len count = some next) :
    next =
      { duplex with
        fed := duplex.fed ++ encrypted
        received := duplex.received ++
          ({ duplex with fed := duplex.fed ++ encrypted }).pending.take count } := by
  rw [decrypt] at decrypted
  split at decrypted
  · obtain ⟨none, decrypted⟩ := Option.ite_none_right_eq_some.mp decrypted
    cases decrypted
    rw [none, List.take_zero, List.append_nil]
  · obtain ⟨_, decrypted⟩ := Option.ite_none_right_eq_some.mp decrypted
    cases decrypted
    rfl

theorem Intact.read {duplex next : Duplex} {len chunk count : Nat} (intact : Intact duplex)
    (fits : Fits layer duplex (.read len chunk count))
    (called : read duplex len chunk count = some next) : Intact next := by
  obtain ⟨_, called⟩ := Option.ite_none_right_eq_some.mp called
  rw [decrypt_eq called]
  exact intact.feed fits

/-- A call of `read` takes bytes out of an IO that has some. -/
theorem read_progress {duplex : Duplex} (more : duplex.channel ≠ []) (len : Nat) :
    ∃ chunk count next, read duplex len chunk count = some next ∧
      next.channel.length < duplex.channel.length := by
  have positive := List.length_pos_iff.mpr more
  have inside : 0 < 1 ∧ 1 ≤ chunkSize ∧ 1 ≤ duplex.channel.length := ⟨by decide, by decide, positive⟩
  have shorter : (duplex.channel.drop 1).length < duplex.channel.length := by
    rw [List.length_drop]
    omega
  let fed : Duplex :=
    { duplex with
      channel := duplex.channel.drop 1
      fed := duplex.fed ++ duplex.channel.take 1 }
  by_cases nothing : fed.pending = [] ∨ len = 0
  · refine ⟨1, 0, fed, ?_, shorter⟩
    rw [read, if_pos inside, decrypt]
    exact (if_pos nothing).trans (if_pos rfl)
  · rw [not_or] at nothing
    have pendingPositive := List.length_pos_iff.mpr nothing.1
    refine ⟨1, 1, { fed with received := fed.received ++ fed.pending.take 1 }, ?_, shorter⟩
    rw [read, if_pos inside, decrypt]
    exact (if_neg (not_or.mpr nothing)).trans (if_pos ⟨by decide, by omega, pendingPositive⟩)

/-- In every sequence of calls that fit, the connection is a byte stream; as long as there
are bytes in the IO, a call of `read` moves some of them. -/
theorem secureConnection_stream (layer : RecordLayer) (calls : List StreamCall) (final : Duplex)
    (fits : (streamMachine layer).AllSteps (Fits layer) .opened calls)
    (reached : (streamMachine layer).run .opened calls = some final) :
    Faithful final ∧
      (final.channel ≠ [] → ∀ len, ∃ chunk count next,
        (streamMachine layer).step final (.read len chunk count) = some next ∧
          next.channel.length < final.channel.length) := by
  have preserved : ∀ duplex call next, Intact duplex → Fits layer duplex call →
      (streamMachine layer).step duplex call = some next → Intact next := by
    intro duplex call next intact fit stepped
    cases call with
    | write message written => exact intact.write fit stepped
    | read len chunk count => exact intact.read fit stepped
    | readNothing len =>
        obtain ⟨nothing, stepped⟩ := Option.ite_none_right_eq_some.mp stepped
        cases stepped
        have same := intact.drained.resolve_right (not_not.mpr nothing)
        have nonePending : duplex.pending = [] := by
          rw [Duplex.pending, ← same, List.drop_length]
        refine ⟨intact.results, intact.bioEmpty, intact.coded, intact.plain, intact.initial,
          intact.drained, ?_⟩
        simp [nonePending, intact.unstarved]
  have intact := Machine.run_invariant preserved intact_opened fits reached
  exact ⟨intact.faithful, read_progress⟩

end Calls

/-- A record layer whose records have a header of a given length. -/
def headerLayer (header : Nat) : RecordLayer where
  sslWrite _
    | [] => []
    | first :: rest =>
        [{ plain := first :: rest
           coded := List.replicate header 23 ++ (first :: rest).map (· ^^^ 90)
           nonempty := by simp }]
  whole _ message := by cases message <;> simp [plainOf]

/-- A message that arrives in two pieces. -/
def fittingCalls : List StreamCall :=
  [.write [1, 2, 3] 3, .read 10 2 0, .write [] 0, .write [4] 1, .read 10 2 4, .readNothing 10]

theorem fittingCalls_stream :
    ∃ final, (streamMachine (headerLayer 0)).run .opened fittingCalls = some final ∧
      final.received = [1, 2, 3, 4] ∧ Faithful final := by
  have arrived : ((streamMachine (headerLayer 0)).run .opened fittingCalls).map Duplex.received =
      some [1, 2, 3, 4] := by decide
  obtain ⟨final, reached, received⟩ := Option.map_eq_some_iff.mp arrived
  exact ⟨final, reached, received,
    (secureConnection_stream (headerLayer 0) fittingCalls final (by decide) reached).1⟩

/-- With records that are longer than their content `write` returns a wrong length, a reader
with a small buffer asks an empty IO for bytes that are already decrypted, and a long
message is left in the BIO. -/
theorem secureConnection_not_stream :
    ((streamMachine (headerLayer 5)).run .opened [.write [65, 66] 7]).map Duplex.results =
        some [(2, 7)] ∧
      ((streamMachine (headerLayer 5)).run .opened
        [.write [65, 66] 7, .read 1 7 1, .readNothing 1]).map
          (fun duplex => (duplex.received, duplex.starved)) = some ([65], true) ∧
      ((streamMachine (headerLayer 5)).run .opened
        [.write (List.replicate 1020 65) 1024]).map Duplex.writeBio = some [27] := by
  decide +kernel

end Tegenaria.LibSecure
