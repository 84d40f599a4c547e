import Tegenaria.LibSftp.FileRead

/-!
# Reading from an honest server

An honest server answers every request to read with some of the bytes that were asked
for, or with the end of the file.  Against such a server `read` fills the buffer with
the bytes of the file from the given offset on.

The answers have to pass the reading thread, whose buffer has 64 KiB.  The sector size
has no such bound.
-/

namespace Tegenaria.LibSftp

open Foundation
open Foundation.Bytes
open Foundation.Word
open LibStr

/-! ## An honest server -/

/-- A file whose bytes all have 64-bit offsets. -/
structure RemoteFile where
  content : List UInt8
  addressable : content.length < 2 ^ 64

/-- A request to read, as a server takes it apart. -/
structure AsksRead (request : List UInt8) (id offset count : Nat) : Prop where
  length : request.length = 29
  size : dwordAt 0 request = 25
  type : byteAt 4 request = fxpRead
  handleLen : dwordAt 9 request = 4
  id : dwordAt 5 request = id
  offset : qwordAt 17 request = offset
  count : dwordAt 25 request = count

/-- The packet in which a server sends data. -/
def dataAnswer (id : Nat) (data : List UInt8) : List UInt8 :=
  bigEndian 4 (9 + data.length) ++ ([fxpData] ++ bigEndian 4 id) ++
    (bigEndian 4 data.length ++ data)

/-- What an honest server may answer: some of the bytes that were asked for, or the end
of the file if there are none. -/
inductive HonestAnswer (file : RemoteFile) (request : List UInt8) : List UInt8 → Prop where
  | data {id offset count : Nat} (asked : AsksRead request id offset count) {data : List UInt8}
      (some_bytes : data ≠ []) (bounded : data.length ≤ count)
      (inside : data <+: file.content.drop offset) :
      HonestAnswer file request (dataAnswer id data)
  | eof {id offset count : Nat} (asked : AsksRead request id offset count)
      (past : file.content.length ≤ offset) {texts : List UInt8}
      (short : 13 + texts.length ≤ ReadLoop.bufferSize) :
      HonestAnswer file request (statusAnswer id fxEof texts)

/-- One pass through the loop, with what the server sends.  The reading thread hands
over answers that fit its buffer; for any other one the call waits forever. -/
structure ServedRound (Time : Type) where
  id : UInt32
  answer : List UInt8
  elapsed : Time

namespace ServedRound

variable {Time : Type}

def toRound (served : ServedRound Time) : ReadRound Time :=
  ⟨served.id, some served.answer, served.elapsed⟩

/-- The answer fits the buffer of `readLoop`. -/
def Delivered (served : ServedRound Time) : Prop := served.answer.length ≤ ReadLoop.bufferSize

/-- Data bytes in the answer. -/
def received (served : ServedRound Time) : Nat :=
  if byteAt 4 served.answer = fxpData then dwordAt 9 served.answer else 0

end ServedRound

namespace ReadCall

variable {Time : Type} [Add Time] [LT Time] [DecidableLT Time]

/-- The call after a number of rounds with the server. -/
def served (arguments : ReadArguments Time) (start : ReadCall Time)
    (rounds : Nat → ServedRound Time) (count : Nat) : ReadCall Time :=
  after arguments start (fun index => (rounds index).toRound) count

/-- Data bytes in the answers to the first requests. -/
def receivedTotal (rounds : Nat → ServedRound Time) (count : Nat) : Nat :=
  ((List.range count).map fun index => (rounds index).received).sum

/-- The server is honest as long as its answers are delivered and the call goes on. -/
def Honest (file : RemoteFile) (arguments : ReadArguments Time) (start : ReadCall Time)
    (rounds : Nat → ServedRound Time) : Prop :=
  ∀ count, (∀ earlier < count, (rounds earlier).Delivered) →
    (served arguments start rounds count).result = none →
    ∃ request, (served arguments start rounds count).request arguments (rounds count).id =
        some request ∧ HonestAnswer file request (rounds count).answer

/-- The call returns the number of bytes of the file that it has put into the buffer:
all that were asked for or that the file has, or those that were received when the time
was over. -/
def ReadsRight (file : RemoteFile) (arguments : ReadArguments Time) (start : ReadCall Time)
    (rounds : Nat → ServedRound Time) : Prop :=
  ∃ count total : Nat,
    (∀ earlier < count, (rounds earlier).Delivered) ∧
    (served arguments start rounds count).result = some (total : Int) ∧
    total ≤ file.content.length - start.offset.toNat ∧
    (served arguments start rounds count).memory.slice 0 total =
      (file.content.drop start.offset.toNat).take total ∧
    (total = min arguments.bytesToRead.toNat (file.content.length - start.offset.toNat) ∨
      arguments.partialReadThreshold < (served arguments start rounds count).elapsedTotal ∧
        total = receivedTotal rounds count)

end ReadCall

/-! ## Packets -/

section Packets

variable {id : UInt32}

/-- The request is what a server understands as a request to read. -/
theorem readPacket_asks (id : UInt32) (handle : Int) (offset : UInt64) {count : Nat}
    (small : count < 2 ^ 32) :
    ∃ request, readPacket id handle offset count = some request ∧
      AsksRead request id.toNat offset.toNat count := by
  have built : readPacket id handle offset count = some (bigEndian 4 25 ++ (fxpRead ::
      (bigEndian 4 id.toNat ++ (bigEndian 4 4 ++ (bigEndian 4 (toU32 handle) ++
        (bigEndian 8 offset.toNat ++ bigEndian 4 count)))))) := by
    rw [readPacket, pushFields_short (by simp [Field.Whole]) (by simp [Field.bytes])]
    simp [Field.bytes]
  refine ⟨_, built, ?_⟩
  exact {
    length := by simp
    size := @dwordAt_append [] _ 0 25 (by decide) rfl
    type := rfl
    handleLen := by
      have found := @dwordAt_append (bigEndian 4 25 ++ (fxpRead :: bigEndian 4 id.toNat))
        (bigEndian 4 (toU32 handle) ++ (bigEndian 8 offset.toNat ++ bigEndian 4 count)) 9 4
        (by decide) (by simp)
      simpa using found
    id := by
      have found := @dwordAt_append (bigEndian 4 25 ++ [fxpRead])
        (bigEndian 4 4 ++ (bigEndian 4 (toU32 handle) ++
          (bigEndian 8 offset.toNat ++ bigEndian 4 count))) 5 id.toNat id.toNat_lt (by simp)
      simpa using found
    offset := by
      have found := @qwordAt_append (bigEndian 4 25 ++ (fxpRead :: (bigEndian 4 id.toNat ++
        (bigEndian 4 4 ++ bigEndian 4 (toU32 handle))))) (bigEndian 4 count) 17 offset.toNat
        offset.toNat_lt (by simp)
      simpa using found
    count := by
      have found := @dwordAt_append (bigEndian 4 25 ++ (fxpRead :: (bigEndian 4 id.toNat ++
        (bigEndian 4 4 ++ (bigEndian 4 (toU32 handle) ++ bigEndian 8 offset.toNat))))) [] 25 count
        small (by simp)
      simpa using found }

theorem dataAnswer_length (id : Nat) (data : List UInt8) :
    (dataAnswer id data).length = 13 + data.length := by
  simp [dataAnswer]
  omega

theorem dataAnswer_type (id : Nat) (data : List UInt8) :
    byteAt 4 (dataAnswer id data) = fxpData := rfl

theorem dataAnswer_count {data : List UInt8} (small : data.length < 2 ^ 32) (id : Nat) :
    dwordAt 9 (dataAnswer id data) = data.length := by
  rw [dataAnswer]
  exact dwordAt_append small (by simp)

/-- A data packet that does not fit the buffer of the reading thread is never handed
over. -/
theorem dataAnswer_not_handled {id : Nat} {data more : List UInt8}
    (large : ReadLoop.bufferSize < 13 + data.length) (small : 13 + data.length < 2 ^ 31)
    {incoming : List (List UInt8)} (stream : incoming.flatten = dataAnswer id data ++ more)
    (buffer : Memory UInt8) (head : Head) (shared : Shared) {labels : List ReadLabel}
    {loop : ReadLoop}
    (reached : ReadLoop.machine.run (.start buffer head incoming shared) labels = some loop) :
    loop.phase = .running .idle ∨ loop.phase = .stopped := by
  have field : lengthField (dataAnswer id data ++ more) = 9 + data.length := by
    have found := @dwordAt_append [] (([fxpData] ++ bigEndian 4 id) ++
      (bigEndian 4 data.length ++ data) ++ more) 0 (9 + data.length) (by omega) rfl
    rw [dataAnswer, lengthField]
    simpa [dwordAt] using found
  exact oversized_not_handled (by omega) (by omega) stream buffer head shared reached

variable {Time : Type} [Add Time] [LT Time] [DecidableLT Time]
variable {arguments : ReadArguments Time} {call : ReadCall Time} {elapsed : Time}

/-- Data from the server is accepted. -/
theorem round_dataAnswer {data : List UInt8} (short : 13 + data.length < 2 ^ 31) :
    call.round arguments ⟨id, some (dataAnswer id.toNat data), elapsed⟩ =
      call.accept arguments data data.length elapsed := by
  have head : popHead.run (dataAnswer id.toNat data) =
      some (⟨9 + data.length, fxpData, id.toNat⟩, bigEndian 4 data.length ++ data) := by
    refine popHead_reads (by omega) id.toNat_lt _ ?_
    simp
    omega
  have count : popDword.run (bigEndian 4 data.length ++ data) = some (data.length, data) := by
    refine popDword_reads (by omega) data ?_
    simp
    omega
  have unfolded : call.round arguments ⟨id, some (dataAnswer id.toNat data), elapsed⟩ =
      call.checkHead arguments id elapsed (popHead.run (dataAnswer id.toNat data)) := rfl
  rw [unfolded, head, ReadCall.checkHead, if_neg (not_not_intro rfl), if_pos rfl, count,
    ReadCall.checkData, if_neg (Nat.lt_irrefl _)]
  rfl

/-- The end of the file ends the call. -/
theorem round_eofAnswer {texts : List UInt8} (short : 13 + texts.length < 2 ^ 31) :
    call.round arguments ⟨id, some (statusAnswer id.toNat fxEof texts), elapsed⟩ =
      call.endRound arguments false elapsed := by
  have head := popHead_statusAnswer id fxEof short
  have code : popDword.run (bigEndian 4 fxEof ++ texts) = some (fxEof, texts) := by
    refine popDword_reads (by decide) texts ?_
    simp
    omega
  have unfolded : call.round arguments ⟨id, some (statusAnswer id.toNat fxEof texts), elapsed⟩ =
      call.checkHead arguments id elapsed (popHead.run (statusAnswer id.toNat fxEof texts)) := rfl
  have other : fxpStatus ≠ fxpData := by decide
  rw [unfolded, head, ReadCall.checkHead, if_neg (not_not_intro rfl), if_neg other,
    if_pos rfl, code, ReadCall.checkEof, if_neg (not_not_intro rfl)]

end Packets

/-! ## The loop -/

namespace ReadCall

section Storing

variable {Time : Type} {arguments : ReadArguments Time}

theorem receivedTotal_succ (rounds : Nat → ServedRound Time) (count : Nat) :
    receivedTotal rounds (count + 1) = receivedTotal rounds count + (rounds count).received := by
  simp [receivedTotal, List.range_succ]

/-- The buffer holds the bytes of the file up to some point. -/
theorem slice_store {call : ReadCall Time} {content data : List UInt8} {total : Nat}
    (position : call.position = total) (stored : call.memory.slice 0 total = content.take total)
    (inside : data <+: content.drop total) :
    (call.store data data.length).memory.slice 0 (total + data.length) =
      content.take (total + data.length) := by
  obtain ⟨others, whole⟩ := inside
  simp only [store, position]
  rw [Memory.slice_append, Nat.zero_add, Memory.slice_copy,
    Memory.slice_copy_disjoint _ _ (Or.inl (by omega)), stored, Memory.slice_ofList,
    List.take_add, ← whole, List.take_left]

theorem pieceSize_eq {call : ReadCall Time} {total : Nat} (readed : call.readed = total)
    (wanted : (total : Int) < arguments.bytesToRead) :
    call.pieceSize arguments =
      min (arguments.bytesToRead - total) arguments.sectorSize.bytes := by
  have upper := arguments.bytesToRead_upper
  rw [pieceSize, readed, toI32_of_fits (by omega) (by omega)]

end Storing

variable {Time : Type} [Add Time] [LT Time] [DecidableLT Time]
variable {file : RemoteFile} {arguments : ReadArguments Time} {start : ReadCall Time}
variable {rounds : Nat → ServedRound Time} {count : Nat}

theorem served_succ (running : (served arguments start rounds count).result = none) :
    served arguments start rounds (count + 1) =
      (served arguments start rounds count).round arguments (rounds count).toRound :=
  after_succ _ _ _ running

/-- The largest answer that the server can give. -/
def largestAnswer (file : RemoteFile) (arguments : ReadArguments Time) (start : ReadCall Time) : Nat :=
  min (min arguments.sectorSize.bytes arguments.bytesToRead).toNat
    (file.content.length - start.offset.toNat)

/-- The call has filled the buffer with bytes of the file, and goes on. -/
structure Underway (file : RemoteFile) (arguments : ReadArguments Time) (start : ReadCall Time)
    (rounds : Nat → ServedRound Time) (count total : Nat) : Prop where
  running : (served arguments start rounds count).result = none
  delivered : ∀ earlier < count, (rounds earlier).Delivered
  position : (served arguments start rounds count).position = total
  readed : (served arguments start rounds count).readed = total
  wanted : (total : Int) < arguments.bytesToRead
  inside : total ≤ file.content.length - start.offset.toNat
  offset : (served arguments start rounds count).offset.toNat = start.offset.toNat + total
  stored : (served arguments start rounds count).memory.slice 0 total =
    (file.content.drop start.offset.toNat).take total
  received : receivedTotal rounds count = total

/-- What the server has been asked for. -/
theorem Underway.asked {total : Nat} (underway : Underway file arguments start rounds count total)
    {request : List UInt8}
    (built : (served arguments start rounds count).request arguments (rounds count).id =
      some request) :
    AsksRead request (rounds count).id.toNat (start.offset.toNat + total)
      (min (arguments.bytesToRead - total) arguments.sectorSize.bytes).toNat := by
  have upper := arguments.bytesToRead_upper
  have wanted := underway.wanted
  have large := arguments.sectorSize.large
  have piece := pieceSize_eq underway.readed wanted
  have size : toU32 ((served arguments start rounds count).pieceSize arguments) =
      (min (arguments.bytesToRead - total) arguments.sectorSize.bytes).toNat := by
    have wide := toU32_of_nonneg
      (by omega : 0 ≤ min (arguments.bytesToRead - total) arguments.sectorSize.bytes) (by omega)
    rw [piece]
    omega
  obtain ⟨packet, isPacket, asks⟩ := readPacket_asks (rounds count).id arguments.handle
    (served arguments start rounds count).offset (toU32_lt ((served arguments start rounds count).pieceSize arguments))
  cases isPacket.symm.trans built
  rwa [size, underway.offset] at asks

section Steps

variable {total : Nat}

/-- Data brings the call further, or to its end. -/
theorem Underway.data (underway : Underway file arguments start rounds count total)
    {data : List UInt8} (answered : (rounds count).answer = dataAnswer (rounds count).id.toNat data)
    (some_bytes : data ≠ [])
    (bounded : (data.length : Int) ≤ arguments.bytesToRead - total)
    (inside : data <+: file.content.drop (start.offset.toNat + total))
    (short : 13 + data.length ≤ ReadLoop.bufferSize) :
    (∃ more, 0 < more ∧ Underway file arguments start rounds (count + 1) (total + more)) ∨
      ReadsRight file arguments start rounds := by
  have limit : ReadLoop.bufferSize = 65536 := rfl
  have upper := arguments.bytesToRead_upper
  have large := file.addressable
  have positive := List.length_pos_iff.mpr some_bytes
  have room : data.length ≤ file.content.length - (start.offset.toNat + total) := by
    have lengths := inside.length_le
    rwa [List.length_drop] at lengths
  have served : (rounds count).toRound =
      ⟨(rounds count).id, some (dataAnswer (rounds count).id.toNat data), (rounds count).elapsed⟩ := by
    rw [ServedRound.toRound, answered]
  have next := served_succ underway.running
  rw [served, round_dataAnswer (by omega)] at next
  have delivered : ∀ earlier < count + 1, (rounds earlier).Delivered := by
    intro earlier before
    rcases Nat.lt_succ_iff_lt_or_eq.mp before with earlier | rfl
    · exact underway.delivered _ earlier
    · rw [ServedRound.Delivered, answered, dataAnswer_length]
      exact short
  have received : receivedTotal rounds (count + 1) = total + data.length := by
    rw [receivedTotal_succ, underway.received, ServedRound.received, answered, dataAnswer_type,
      if_pos rfl, dataAnswer_count (by omega)]
  have stored : (ReadCall.served arguments start rounds (count + 1)).memory.slice 0
      (total + data.length) = (file.content.drop start.offset.toNat).take (total + data.length) := by
    rw [next]
    exact slice_store underway.position underway.stored (by rwa [List.drop_drop])
  have readed : toI32 ((ReadCall.served arguments start rounds count).readed + data.length) =
      (total + data.length : Nat) := by
    rw [underway.readed, toI32_of_fits (by omega) (by omega)]
    omega
  have result := congrArg ReadCall.result next
  rw [accept_result, readed] at result
  have elapsed : (ReadCall.served arguments start rounds (count + 1)).elapsedTotal =
      (ReadCall.served arguments start rounds count).elapsedTotal + (rounds count).elapsed := by
    rw [next]
    rfl
  by_cases finished : ((total + data.length : Nat) : Int) = arguments.bytesToRead ∨
      arguments.partialReadThreshold <
        (ReadCall.served arguments start rounds count).elapsedTotal + (rounds count).elapsed
  · rw [if_pos finished] at result
    refine Or.inr ⟨count + 1, total + data.length, delivered, result, by omega, stored, ?_⟩
    rcases finished with all | late
    · exact Or.inl (by omega)
    · exact Or.inr ⟨by rwa [elapsed], received.symm⟩
  · rw [if_neg finished] at result
    rw [not_or] at finished
    refine Or.inl ⟨data.length, positive, ?_⟩
    exact {
      running := result
      delivered
      position := by
        rw [next]
        change (ReadCall.served arguments start rounds count).position + data.length = _
        rw [underway.position]
      readed := by
        rw [next]
        exact readed
      wanted := by omega
      inside := by omega
      offset := by
        have small : data.length < 2 ^ 64 := by omega
        rw [next]
        change ((ReadCall.served arguments start rounds count).offset + UInt64.ofNat data.length).toNat = _
        rw [UInt64.toNat_add, UInt64.toNat_ofNat_of_lt' small, underway.offset,
          Nat.mod_eq_of_lt (by omega)]
        omega
      stored
      received }

/-- The end of the file ends the call with all bytes of the file. -/
theorem Underway.eof (underway : Underway file arguments start rounds count total)
    {texts : List UInt8}
    (answered : (rounds count).answer = statusAnswer (rounds count).id.toNat fxEof texts)
    (past : file.content.length ≤ start.offset.toNat + total)
    (short : 13 + texts.length ≤ ReadLoop.bufferSize) :
    ReadsRight file arguments start rounds := by
  have limit : ReadLoop.bufferSize = 65536 := rfl
  have inside := underway.inside
  have wanted := underway.wanted
  have served : (rounds count).toRound =
      ⟨(rounds count).id, some (statusAnswer (rounds count).id.toNat fxEof texts),
        (rounds count).elapsed⟩ := by
    rw [ServedRound.toRound, answered]
  have next := served_succ underway.running
  rw [served, round_eofAnswer (by omega)] at next
  refine ⟨count + 1, total, ?_, ?_, underway.inside, ?_, Or.inl (by omega)⟩
  · intro earlier before
    rcases Nat.lt_succ_iff_lt_or_eq.mp before with earlier | rfl
    · exact underway.delivered _ earlier
    · rw [ServedRound.Delivered, answered, statusAnswer_length]
      exact short
  · rw [next]
    simp [endRound, underway.readed]
  · rw [next]
    exact underway.stored

/-- A round with an honest server. -/
theorem Underway.step (honest : Honest file arguments start rounds)
    (room : 13 + largestAnswer file arguments start ≤ ReadLoop.bufferSize)
    (underway : Underway file arguments start rounds count total) :
    (∃ more, 0 < more ∧ Underway file arguments start rounds (count + 1) (total + more)) ∨
      ReadsRight file arguments start rounds := by
  obtain ⟨request, built, answer⟩ := honest count underway.delivered underway.running
  have asks := underway.asked built
  have wanted := underway.wanted
  generalize answered : (rounds count).answer = packet at answer
  cases answer with
  | @data id offset size asked data some_bytes bounded inside =>
      have sameId : id = (rounds count).id.toNat := asked.id.symm.trans asks.id
      have sameOffset : offset = start.offset.toNat + total := asked.offset.symm.trans asks.offset
      have sameSize := asked.count.symm.trans asks.count
      rw [sameId] at answered
      rw [sameOffset] at inside
      have rest := inside.length_le
      rw [List.length_drop] at rest
      rw [largestAnswer] at room
      exact underway.data answered some_bytes (by omega) inside (by omega)
  | @eof id offset size asked past texts short =>
      have sameId : id = (rounds count).id.toNat := asked.id.symm.trans asks.id
      have sameOffset : offset = start.offset.toNat + total := asked.offset.symm.trans asks.offset
      rw [sameId] at answered
      rw [sameOffset] at past
      exact Or.inr (underway.eof answered past short)

/-- The rounds come to an end, since each of them brings some bytes. -/
theorem Underway.readsRight (honest : Honest file arguments start rounds)
    (room : 13 + largestAnswer file arguments start ≤ ReadLoop.bufferSize)
    (underway : Underway file arguments start rounds count total) :
    ReadsRight file arguments start rounds := by
  generalize left : (arguments.bytesToRead - total).toNat = remaining
  induction remaining using Nat.strong_induction_on generalizing count total with
  | _ remaining ih =>
      have wanted := underway.wanted
      rcases underway.step honest room with ⟨more, positive, further⟩ | done
      · exact ih _ (by omega) further rfl
      · exact done

end Steps

section Calls

variable [Zero Time]

theorem start_underway (file : RemoteFile) (wanted : 1 ≤ arguments.bytesToRead)
    (memory : Memory UInt8) (offset : UInt64) (rounds : Nat → ServedRound Time) :
    Underway file arguments (.start false memory offset) rounds 0 0 where
  running := rfl
  delivered _ before := absurd before (Nat.not_lt_zero _)
  position := rfl
  readed := rfl
  wanted := by omega
  inside := Nat.zero_le _
  offset := rfl
  stored := rfl
  received := rfl

/-- An honest server may send an answer that is never delivered. -/
theorem oversized_not_readsRight {file : RemoteFile} {memory : Memory UInt8} {offset : UInt64}
    (wanted : 1 ≤ arguments.bytesToRead)
    (large : ReadLoop.bufferSize < 13 + largestAnswer file arguments (.start false memory offset)) :
    ∃ rounds, Honest file arguments (.start false memory offset) rounds ∧
      ¬ReadsRight file arguments (.start false memory offset) rounds := by
  have limit : ReadLoop.bufferSize = 65536 := rfl
  have isOffset : (start false memory offset : ReadCall Time).offset = offset := rfl
  obtain ⟨most, isMost⟩ : ∃ most, largestAnswer file arguments (.start false memory offset) = most :=
    ⟨_, rfl⟩
  rw [isMost] at large
  rw [largestAnswer, isOffset] at isMost
  have length : ((file.content.drop offset.toNat).take most).length = most := by
    rw [List.length_take, List.length_drop]
    omega
  obtain ⟨rounds, isRounds⟩ : ∃ rounds : Nat → ServedRound Time, rounds = fun _ =>
      ⟨0, dataAnswer 0 ((file.content.drop offset.toNat).take most), 0⟩ := ⟨_, rfl⟩
  have lost : ¬(rounds 0).Delivered := by
    rw [ServedRound.Delivered, isRounds, dataAnswer_length, length]
    omega
  refine ⟨rounds, ?_, ?_⟩
  · intro count delivered running
    cases count with
    | succ count => exact absurd (delivered 0 (Nat.succ_pos _)) lost
    | zero =>
        have underway := start_underway file wanted memory offset rounds
        obtain ⟨request, built, _⟩ := readPacket_asks (rounds 0).id arguments.handle offset
          (toU32_lt ((start false memory offset : ReadCall Time).pieceSize arguments))
        have asks := underway.asked built
        refine ⟨request, built, ?_⟩
        have answered : (rounds 0).answer = dataAnswer (rounds 0).id.toNat
            ((file.content.drop offset.toNat).take most) := by
          rw [isRounds]
          rfl
        rw [answered]
        refine .data asks ?_ ?_ (List.take_prefix _ _)
        · intro nothing
          rw [nothing, List.length_nil] at length
          omega
        · rw [length]
          omega
  · rintro ⟨count, total, delivered, result, _⟩
    cases count with
    | zero => cases result
    | succ count => exact lost (delivered 0 (Nat.succ_pos _))

/-- Every honest server is read from rightly exactly when its largest answer fits the
buffer of the reading thread. -/
theorem read_honest_iff (file : RemoteFile) (arguments : ReadArguments Time)
    (wanted : 1 ≤ arguments.bytesToRead) (memory : Memory UInt8) (offset : UInt64) :
    (∀ rounds, Honest file arguments (.start false memory offset) rounds →
      ReadsRight file arguments (.start false memory offset) rounds) ↔
      13 + min (min arguments.sectorSize.bytes arguments.bytesToRead).toNat
        (file.content.length - offset.toNat) ≤ ReadLoop.bufferSize := by
  constructor
  · intro right
    by_contra large
    obtain ⟨rounds, honest, wrong⟩ :=
      @oversized_not_readsRight _ _ _ _ arguments _ file memory offset wanted (Nat.lt_of_not_le large)
    exact wrong (right rounds honest)
  · intro room rounds honest
    exact (start_underway file wanted memory offset rounds).readsRight honest room

/-- A file of five bytes is read from its second byte on. -/
theorem read_honest_shortFile :
    1 ≤ (3 : Int) ∧ ∀ rounds : Nat → ServedRound Nat,
      Honest ⟨[1, 2, 3, 4, 5], by decide⟩ ⟨0, 3, by decide, by decide, .initial, 10000⟩
          (.start false (fun _ => 0) 1) rounds →
        ReadsRight ⟨[1, 2, 3, 4, 5], by decide⟩ ⟨0, 3, by decide, by decide, .initial, 10000⟩
          (.start false (fun _ => 0) 1) rounds :=
  ⟨by decide, (read_honest_iff _ _ (by decide) (fun _ => 0) 1).mpr (by decide)⟩

/-- A file that is larger than 64 KiB. -/
def largeFile : RemoteFile := ⟨List.replicate 70000 0, by rw [List.length_replicate]; decide⟩

/-- All of a large file is read at once. -/
def largeSector : ReadArguments Nat :=
  ⟨0, 70000, by decide, by decide, SectorSize.initial.setSectorSize 70000, 10000⟩

/-- A file of 70000 bytes cannot be read in one sector of that size. -/
theorem read_largeSector_waits :
    ¬∀ rounds, Honest largeFile largeSector (.start false (fun _ => 0) 0) rounds →
      ReadsRight largeFile largeSector (.start false (fun _ => 0) 0) rounds := by
  intro right
  have length : largeFile.content.length = 70000 := List.length_replicate
  have large : ReadLoop.bufferSize <
      13 + largestAnswer largeFile largeSector (.start false (fun _ => 0) 0) := by
    rw [largestAnswer, length]
    decide
  obtain ⟨rounds, honest, wrong⟩ := oversized_not_readsRight (by decide) large
  exact wrong (right rounds honest)

end Calls

end ReadCall

end Tegenaria.LibSftp
