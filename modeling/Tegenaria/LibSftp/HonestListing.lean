import Tegenaria.LibSftp.Listing

/-!
# Listing an honest server

A server sends the entries of a directory in packets of its own choice.  It ends the
listing with a status, or with an entry named `...` behind the last entry of the last
packet.  `readdir` collects the entries of all packets in order.

The answers have to pass the reading thread, whose buffer has 64 KiB, and the size of a
file becomes a signed number.
-/

namespace Tegenaria.LibSftp

open Foundation
open Foundation.Bytes
open Foundation.Word
open LibStr

/-! ## What a server sends -/

/-- An entry whose names fit the arrays of the client.  The name is a text. -/
structure DirEntry where
  name : List UInt8
  longName : List UInt8
  attributes : Attributes
  isText : 0 ∉ name
  nameFits : name.length < maxPath
  longNameFits : longName.length < maxPath
  notExtended : attributes.extended = none

namespace DirEntry

def encode (entry : DirEntry) : List UInt8 :=
  Attributes.stringBytes entry.name ++
    (Attributes.stringBytes entry.longName ++ entry.attributes.encode)

/-- The name and the attributes that were sent. -/
def sentInfo (entry : DirEntry) : SftpFileInfo := ⟨entry.name, entry.attributes.content⟩

/-- The same with the size as the signed number that has the same 64 bits. -/
def listedInfo (entry : DirEntry) : SftpFileInfo where
  name := entry.name
  attr := { entry.attributes.content with
    size := entry.attributes.size.elim 0 fun size => size.toInt64.toInt }

end DirEntry

/-- An entry that does not end the listing. -/
structure FileEntry extends DirEntry where
  notMarker : name ≠ lastMarker

/-- The packet in which a server sends entries. -/
def nameAnswer (entries : List DirEntry) (id : Nat) : List UInt8 :=
  bigEndian 4 (9 + (entries.flatMap DirEntry.encode).length) ++ ([fxpName] ++ bigEndian 4 id) ++
    (bigEndian 4 entries.length ++ entries.flatMap DirEntry.encode)

/-- How a listing ends: with a status, or with a marker behind the entries of the last
packet. -/
inductive ListingEnd where
  | eof (texts : List UInt8)
  | marker (entries : List FileEntry) (marker : DirEntry) (isMarker : marker.name = lastMarker)

namespace ListingEnd

def entries : ListingEnd → List FileEntry
  | .eof _ => []
  | .marker entries _ _ => entries

def answer : ListingEnd → Nat → List UInt8
  | .eof texts => fun id => statusAnswer id fxEof texts
  | .marker entries last _ => nameAnswer (entries.map FileEntry.toDirEntry ++ [last])

end ListingEnd

/-- The entries of a directory, in packets. -/
structure SentListing where
  groups : List (List FileEntry)
  ending : ListingEnd

namespace SentListing

variable (sent : SentListing)

def entries : List FileEntry := sent.groups.flatten ++ sent.ending.entries

/-- The answers to the requests, each with the id of its request. -/
def answers : List (Nat → List UInt8) :=
  sent.groups.map (fun group => nameAnswer (group.map FileEntry.toDirEntry)) ++ [sent.ending.answer]

/-- The server answers the first requests with the listing. -/
def Sends (rounds : Nat → ListRound) : Prop :=
  ∀ index answer, sent.answers[index]? = some answer →
    (rounds index).reply = some (answer (rounds index).id.toNat)

/-- No packet is larger than 64 KiB. -/
def PacketsFit : Prop :=
  ∀ answer ∈ sent.answers, ∀ id, (answer id).length ≤ ReadLoop.bufferSize

end SentListing

/-- The reading thread hands over answers that fit its buffer; for any other one the call
waits forever. -/
def ListRound.Delivered (round : ListRound) : Prop :=
  ∀ answer, round.reply = some answer → answer.length ≤ ReadLoop.bufferSize

/-- The call returns zero, with the content of the entries in order. -/
def SentListing.ListedAs (sent : SentListing) (content : DirEntry → SftpFileInfo)
    (rounds : Nat → ListRound) : Prop :=
  ∃ count, (∀ earlier < count, (rounds earlier).Delivered) ∧
    (ListCall.after (.start false) rounds count).state = .returned 0 ∧
    (ListCall.after (.start false) rounds count).files =
      sent.entries.map fun entry => content entry.toDirEntry

/-! ## Entries -/

theorem joinSize_signed (size : UInt64) :
    joinSize (size.toNat / 2 ^ 32) (size.toNat % 2 ^ 32) = size.toInt64.toInt := by
  have signed : size.toInt64.toInt = (size.toNat : Int).bmod (2 ^ 64) :=
    BitVec.toInt_eq_toNat_bmod size.toBitVec
  rw [joinSize, shiftLeft_or_mod, signed, Int.bmod]
  omega

/-- A text that is shorter than the array is read back. -/
theorem arrayText_eq {text : List UInt8} (isText : 0 ∉ text) (short : text.length < maxPath) :
    arrayText text = some text := by
  have padded : maxPath - text.length = (maxPath - text.length - 1) + 1 := by omega
  have ended : (0 : UInt8) ∈ text ++ List.replicate (maxPath - text.length) 0 := by
    rw [List.mem_append]
    exact Or.inr (List.mem_replicate.mpr ⟨by omega, rfl⟩)
  have front : ∀ byte ∈ text, decide (byte ≠ 0) = true := by
    intro byte member
    exact decide_eq_true fun zero => isText (zero ▸ member)
  rw [arrayText, if_pos ended, List.takeWhile_append_of_pos front, padded, List.replicate_succ,
    List.takeWhile_cons_of_neg (by decide), List.append_nil]

section Popping

variable {rest : List UInt8}

/-- A name with its length in front. -/
theorem popName_stringBytes {name : List UInt8} (fits : name.length < maxPath)
    (short : (Attributes.stringBytes name ++ rest).length < 2 ^ 31) :
    (popName (Attributes.stringBytes name ++ rest)).outcome = .popped name rest := by
  have array : maxPath = 260 := rfl
  have length : (Attributes.stringBytes name ++ rest).length = 4 + (name ++ rest).length := by
    simp only [Attributes.stringBytes, List.length_append, bigEndian_length]
    omega
  have small : (name ++ rest).length < 2 ^ 31 := by omega
  have counted : popDword.run (Attributes.stringBytes name ++ rest) = some (name.length, name ++ rest) := by
    have reads := popDword_reads (by omega : name.length < 2 ^ 32) (name ++ rest)
    rw [Attributes.stringBytes, List.append_assoc]
    refine reads ?_
    rw [← List.append_assoc]
    exact short
  have lengths : (name ++ rest).length = name.length + rest.length := List.length_append
  have written : ((name.length : Int) % 2 ^ 64).toNat = name.length := by omega
  rw [popName, counted, popCounted, popArray, toI32_length small, toI32_of_fits (by omega) (by omega),
    if_neg (by omega), written, if_neg (by omega), take_rest, List.take_left, List.drop_left]

theorem popInfo_attributes {block : Attributes} (notExtended : block.extended = none)
    (name : List UInt8) (short : (block.encode ++ rest).length < 2 ^ 31) :
    (popInfo name (popAttribs.run (block.encode ++ rest))).outcome =
      .popped ⟨name, { block.content with size := block.size.elim 0 fun size => size.toInt64.toInt }⟩
        rest := by
  have plain : block.encode = block.plainBytes := by
    rw [Attributes.encode, block.fieldBytes_extended_eq_nil.mpr notExtended, List.append_nil]
  have size : joinSize block.halves.1 block.halves.2 =
      block.size.elim 0 fun size => size.toInt64.toInt := by
    cases present : block.size with
    | none =>
        simp only [Attributes.halves, present, Option.elim_none]
        decide
    | some size =>
        simp only [Attributes.halves, present, Option.elim_some]
        exact joinSize_signed size
  rw [plain] at short ⊢
  rw [block.popAttribs_reads rest short, size]
  rfl

/-- An entry in front of anything else is taken off the packet. -/
theorem popEntry_encode (entry : DirEntry) (short : (entry.encode ++ rest).length < 2 ^ 31) :
    (popEntry (entry.encode ++ rest)).outcome = .popped entry.listedInfo rest := by
  have whole : entry.encode ++ rest = Attributes.stringBytes entry.name ++
      (Attributes.stringBytes entry.longName ++ (entry.attributes.encode ++ rest)) := by
    simp only [DirEntry.encode, List.append_assoc]
  rw [whole] at short ⊢
  have second : (Attributes.stringBytes entry.longName ++ (entry.attributes.encode ++ rest)).length <
      2 ^ 31 := by
    rw [List.length_append] at short
    omega
  have third : (entry.attributes.encode ++ rest).length < 2 ^ 31 := by
    rw [List.length_append] at second
    omega
  rw [popEntry, Logged.outcome_bind (popName_stringBytes entry.nameFits short), popBehindName,
    Logged.outcome_bind (popName_stringBytes entry.longNameFits second), popBehindNames,
    arrayText_eq entry.isText entry.nameFits, popNamed_some]
  exact popInfo_attributes entry.notExtended entry.name third

/-- The inner loop goes through all entries of a packet. -/
theorem popEntries_encode (entries : List DirEntry) (listing : Listing)
    (short : (entries.flatMap DirEntry.encode ++ rest).length < 2 ^ 31) :
    (popEntries entries.length listing (entries.flatMap DirEntry.encode ++ rest)).outcome =
      .popped ((entries.map DirEntry.listedInfo).foldl Listing.add listing) rest := by
  induction entries generalizing listing with
  | nil => rfl
  | cons entry entries ih =>
      rw [List.flatMap_cons, List.append_assoc] at short ⊢
      have behind : (entries.flatMap DirEntry.encode ++ rest).length < 2 ^ 31 := by
        rw [List.length_append] at short
        omega
      rw [List.length_cons, popEntries, Logged.enclose_popped (popEntry_encode entry short)]
      exact ih (listing.add entry.listedInfo) behind

end Popping

/-- Entries that are no markers are put to the list. -/
theorem foldl_add_files (entries : List FileEntry) (listing : Listing) :
    ((entries.map FileEntry.toDirEntry).map DirEntry.listedInfo).foldl Listing.add listing =
      { listing with
        files := listing.files ++ entries.map fun entry => entry.toDirEntry.listedInfo } := by
  induction entries generalizing listing with
  | nil => simp
  | cons entry entries ih =>
      have added : listing.add entry.listedInfo =
          { listing with files := listing.files ++ [entry.listedInfo] } := if_neg entry.notMarker
      rw [List.map_cons, List.map_cons, List.foldl_cons, ih, added]
      simp

/-- A marker behind them ends the listing. -/
theorem foldl_add_marker (entries : List FileEntry) {marker : DirEntry}
    (isMarker : marker.name = lastMarker) (listing : Listing) :
    ((entries.map FileEntry.toDirEntry ++ [marker]).map DirEntry.listedInfo).foldl Listing.add listing =
      ⟨listing.files ++ entries.map fun entry => entry.toDirEntry.listedInfo, false⟩ := by
  have ended : ∀ before : Listing, before.add marker.listedInfo = { before with goOn := false } :=
    fun _ => if_pos isMarker
  rw [List.map_append, List.foldl_append, foldl_add_files]
  exact ended _

/-! ## Packets -/

theorem DirEntry.length_encode (entry : DirEntry) : 12 ≤ entry.encode.length := by
  simp only [encode, Attributes.stringBytes, Attributes.encode, Attributes.plainBytes,
    List.length_append, bigEndian_length]
  omega

theorem length_le_flatMap_encode (entries : List DirEntry) :
    12 * entries.length ≤ (entries.flatMap DirEntry.encode).length := by
  induction entries with
  | nil => exact Nat.le_refl 0
  | cons entry entries ih =>
      have first := entry.length_encode
      rw [List.flatMap_cons, List.length_append, List.length_cons]
      omega

theorem nameAnswer_length (entries : List DirEntry) (id : Nat) :
    (nameAnswer entries id).length = 13 + (entries.flatMap DirEntry.encode).length := by
  simp only [nameAnswer, List.length_append, List.length_singleton, bigEndian_length]
  omega

namespace ListCall

variable {call : ListCall} {id : UInt32}

/-- The entries of a packet are collected. -/
theorem round_nameAnswer (call : ListCall) (id : UInt32) {entries : List DirEntry}
    (short : (nameAnswer entries id.toNat).length ≤ ReadLoop.bufferSize) :
    (call.round ⟨id, some (nameAnswer entries id.toNat)⟩).files =
        ((entries.map DirEntry.listedInfo).foldl Listing.add ⟨call.files, true⟩).files ∧
      (call.round ⟨id, some (nameAnswer entries id.toNat)⟩).state =
        if ((entries.map DirEntry.listedInfo).foldl Listing.add ⟨call.files, true⟩).goOn then .running
        else .returned 0 := by
  have limit : ReadLoop.bufferSize = 65536 := rfl
  have many := length_le_flatMap_encode entries
  rw [nameAnswer_length] at short
  have head : popHead.run (nameAnswer entries id.toNat) =
      some (⟨9 + (entries.flatMap DirEntry.encode).length, fxpName, id.toNat⟩,
        bigEndian 4 entries.length ++ entries.flatMap DirEntry.encode) := by
    refine popHead_reads (by omega) id.toNat_lt _ ?_
    simp only [List.length_append, List.length_singleton, bigEndian_length]
    omega
  have count : popDword.run (bigEndian 4 entries.length ++ entries.flatMap DirEntry.encode) =
      some (entries.length, entries.flatMap DirEntry.encode) := by
    refine popDword_reads (by omega) _ ?_
    simp only [List.length_append, bigEndian_length]
    omega
  have body : (entries.flatMap DirEntry.encode ++ []).length < 2 ^ 31 := by
    rw [List.append_nil]
    omega
  have popped := popEntries_encode entries ⟨call.files, true⟩ body
  rw [List.append_nil] at popped
  have unfolded : call.round ⟨id, some (nameAnswer entries id.toNat)⟩ =
      call.checkHead id (popHead.run (nameAnswer entries id.toNat)) := rfl
  have other : fxpName ≠ fxpStatus := by decide
  rw [unfolded, head, checkHead, if_neg (not_not_intro rfl), if_neg other, if_pos rfl, count,
    checkNames, endEntries, popped]
  exact ⟨rfl, rfl⟩

/-- The status ends the call. -/
theorem round_eofAnswer (call : ListCall) (id : UInt32) {texts : List UInt8}
    (short : (statusAnswer id.toNat fxEof texts).length ≤ ReadLoop.bufferSize) :
    call.round ⟨id, some (statusAnswer id.toNat fxEof texts)⟩ =
      { call with state := .returned 0, passes := [] } := by
  have limit : ReadLoop.bufferSize = 65536 := rfl
  rw [statusAnswer_length] at short
  have head := popHead_statusAnswer id fxEof (by omega : 13 + texts.length < 2 ^ 31)
  have code : popDword.run (bigEndian 4 fxEof ++ texts) = some (fxEof, texts) := by
    refine popDword_reads (by decide) texts ?_
    simp
    omega
  have unfolded : call.round ⟨id, some (statusAnswer id.toNat fxEof texts)⟩ =
      call.checkHead id (popHead.run (statusAnswer id.toNat fxEof texts)) := rfl
  rw [unfolded, head, checkHead, if_neg (not_not_intro rfl), if_pos rfl, code, checkEof,
    if_neg (not_not_intro rfl)]

/-- A call that has ended stays as it is. -/
theorem after_le {start : ListCall} {rounds : Nat → ListRound} {count later : Nat}
    (ended : (after start rounds count).state ≠ .running) (le : count ≤ later) :
    after start rounds later = after start rounds count := by
  induction later, le using Nat.le_induction with
  | base => rfl
  | succ later _ ih =>
      rw [after_ended (by rwa [ih]), ih]

end ListCall

/-- A packet of entries that does not fit the buffer of the reading thread is never handed
over. -/
theorem nameAnswer_not_handled {entries : List DirEntry} {id : Nat} {more : List UInt8}
    (large : ReadLoop.bufferSize < (nameAnswer entries id).length)
    (small : (nameAnswer entries id).length < 2 ^ 31) {incoming : List (List UInt8)}
    (stream : incoming.flatten = nameAnswer entries id ++ more) (buffer : Memory UInt8) (head : Head)
    (shared : Shared) {labels : List ReadLabel} {loop : ReadLoop}
    (reached : ReadLoop.machine.run (.start buffer head incoming shared) labels = some loop) :
    loop.phase = .running .idle ∨ loop.phase = .stopped := by
  rw [nameAnswer_length] at large small
  have field : lengthField (nameAnswer entries id ++ more) =
      9 + (entries.flatMap DirEntry.encode).length := by
    have found := @dwordAt_append [] (([fxpName] ++ bigEndian 4 id) ++
      (bigEndian 4 entries.length ++ entries.flatMap DirEntry.encode) ++ more) 0
      (9 + (entries.flatMap DirEntry.encode).length) (by omega) rfl
    rw [nameAnswer, lengthField]
    simpa [dwordAt] using found
  exact oversized_not_handled (by omega) (by omega) stream buffer head shared reached

/-! ## The loop -/

namespace SentListing

variable {sent : SentListing} {rounds : Nat → ListRound}

theorem answers_group {index : Nat} (within : index < sent.groups.length) :
    sent.answers[index]? =
      some (nameAnswer (sent.groups[index].map FileEntry.toDirEntry)) := by
  rw [answers, List.getElem?_append_left (by rwa [List.length_map]), List.getElem?_map,
    List.getElem?_eq_getElem within]
  rfl

theorem answers_ending (sent : SentListing) :
    sent.answers[sent.groups.length]? = some sent.ending.answer := by
  rw [answers, List.getElem?_append_right (by rw [List.length_map]), List.length_map, Nat.sub_self]
  rfl

theorem Sends.round_eq (sends : sent.Sends rounds) {index : Nat} {answer : Nat → List UInt8}
    (here : sent.answers[index]? = some answer) :
    rounds index = ⟨(rounds index).id, some (answer (rounds index).id.toNat)⟩ := by
  rw [← sends index answer here]

theorem Sends.delivered (sends : sent.Sends rounds) (fit : sent.PacketsFit) {index : Nat}
    (within : index ≤ sent.groups.length) : (rounds index).Delivered := by
  have inside : index < sent.answers.length := by
    rw [answers, List.length_append, List.length_map, List.length_singleton]
    omega
  have here := List.getElem?_eq_getElem inside
  intro answer replied
  cases (sends index _ here).symm.trans replied
  exact fit _ (List.getElem_mem inside) _

/-- While packets follow, the call goes on with all entries so far. -/
theorem Sends.after_groups (sends : sent.Sends rounds) (fit : sent.PacketsFit) {count : Nat}
    (within : count ≤ sent.groups.length) :
    (ListCall.after (.start false) rounds count).state = .running ∧
      (ListCall.after (.start false) rounds count).files =
        (sent.groups.take count).flatten.map fun entry => entry.toDirEntry.listedInfo := by
  induction count with
  | zero => exact ⟨rfl, rfl⟩
  | succ count ih =>
      obtain ⟨running, files⟩ := ih (by omega)
      have here := answers_group within
      have short := fit _ (List.mem_of_getElem? here) (rounds count).id.toNat
      obtain ⟨collected, goesOn⟩ :=
        (ListCall.after (.start false) rounds count).round_nameAnswer (rounds count).id short
      rw [ListCall.after_succ running, sends.round_eq here]
      rw [foldl_add_files] at collected goesOn
      refine ⟨goesOn, ?_⟩
      rw [collected, files, List.take_succ_eq_append_getElem within, List.flatten_append,
        List.map_append, List.flatten_singleton]

/-- Every listing in packets of at most 64 KiB is returned entry by entry, with the sizes as
signed numbers. -/
theorem readdir_lists (sent : SentListing) (fit : sent.PacketsFit) (rounds : Nat → ListRound)
    (sends : sent.Sends rounds) : sent.ListedAs DirEntry.listedInfo rounds := by
  obtain ⟨running, files⟩ := sends.after_groups fit (Nat.le_refl _)
  rw [List.take_length] at files
  have here := sent.answers_ending
  have short := fit _ (List.mem_of_getElem? here) (rounds sent.groups.length).id.toNat
  refine ⟨sent.groups.length + 1, fun earlier before => sends.delivered fit (by omega), ?_⟩
  rw [ListCall.after_succ running, sends.round_eq here, entries]
  cases ended : sent.ending with
  | eof texts =>
      rw [ended] at short
      rw [ListingEnd.answer, ListCall.round_eofAnswer _ _ short, ListingEnd.entries, List.append_nil]
      exact ⟨rfl, files⟩
  | marker entries last isMarker =>
      rw [ended] at short
      obtain ⟨collected, stops⟩ := (ListCall.after (.start false) rounds
        sent.groups.length).round_nameAnswer (rounds sent.groups.length).id short
      rw [foldl_add_marker _ isMarker] at collected stops
      rw [ListingEnd.answer, ListingEnd.entries, List.map_append, ← files]
      exact ⟨stops, collected⟩

/-- The rounds with a server that sends the listing. -/
def replies (sent : SentListing) (index : Nat) : ListRound :=
  ⟨0, sent.answers[index]?.map fun answer => answer 0⟩

theorem replies_sends (sent : SentListing) : sent.Sends sent.replies := by
  intro index answer here
  rw [replies, here]
  rfl

end SentListing

/-- An entry named `a` with the given size. -/
def sizedEntry (size : UInt64) : FileEntry where
  name := [97]
  longName := []
  attributes := ⟨some size, none, none, none, none⟩
  isText := by decide
  nameFits := by decide
  longNameFits := by decide
  notExtended := rfl
  notMarker := by decide

/-- An entry without names and attributes. -/
def emptyEntry : FileEntry where
  name := []
  longName := []
  attributes := ⟨none, none, none, none, none⟩
  isText := by decide
  nameFits := by decide
  longNameFits := by decide
  notExtended := rfl
  notMarker := by decide

/-- The marker without a long name and attributes. -/
def plainMarker : DirEntry where
  name := lastMarker
  longName := []
  attributes := ⟨none, none, none, none, none⟩
  isText := by decide
  nameFits := by decide
  longNameFits := by decide
  notExtended := rfl

/-- Three entries in two packets with an empty one between, and a marker. -/
def smallListing : SentListing where
  groups := [[sizedEntry 5, emptyEntry], []]
  ending := .marker [sizedEntry 7] plainMarker rfl

theorem readdir_lists_small :
    smallListing.PacketsFit ∧ smallListing.ListedAs DirEntry.listedInfo smallListing.replies := by
  have fit : smallListing.PacketsFit := by
    intro answer member id
    simp only [SentListing.answers, smallListing, List.map_cons, List.map_nil, List.cons_append,
      List.nil_append, List.mem_cons, List.not_mem_nil, or_false] at member
    rcases member with rfl | rfl | rfl
    · rw [nameAnswer_length]
      decide +kernel
    · rw [nameAnswer_length]
      decide +kernel
    · change (nameAnswer _ id).length ≤ _
      rw [nameAnswer_length]
      decide +kernel
  exact ⟨fit, SentListing.readdir_lists smallListing fit _ smallListing.replies_sends⟩

/-- One packet with 5462 empty entries. -/
def largeListing : SentListing where
  groups := [List.replicate 5462 emptyEntry]
  ending := .eof []

/-- A file whose size is `2 ^ 63`. -/
def hugeFileListing : SentListing where
  groups := [[sizedEntry 0x8000000000000000]]
  ending := .eof []

/-- The packet with 5462 entries is not delivered, and the size `2 ^ 63` is not returned. -/
theorem readdir_lists_not_all :
    ¬largeListing.ListedAs DirEntry.sentInfo largeListing.replies ∧
      ¬hugeFileListing.ListedAs DirEntry.sentInfo hugeFileListing.replies := by
  constructor
  · rintro ⟨count, delivered, returned, _⟩
    cases count with
    | zero => cases returned
    | succ count =>
        have short := delivered 0 (Nat.succ_pos _) _ rfl
        have many := length_le_flatMap_encode ((List.replicate 5462 emptyEntry).map FileEntry.toDirEntry)
        rw [List.length_map, List.length_replicate] at many
        rw [nameAnswer_length] at short
        have limit : ReadLoop.bufferSize = 65536 := rfl
        omega
  · rintro ⟨count, _, returned, files⟩
    have first : (ListCall.after (.start false) hugeFileListing.replies 1).state = .running := by
      decide +kernel
    have second : (ListCall.after (.start false) hugeFileListing.replies 2).state ≠ .running ∧
        (ListCall.after (.start false) hugeFileListing.replies 2).files.map (fun info => info.attr.size) =
          [-2 ^ 63] := by
      decide +kernel
    have late : 2 ≤ count := by
      by_contra early
      have running : (ListCall.after (.start false) hugeFileListing.replies count).state = .running := by
        rcases (by omega : count = 0 ∨ count = 1) with rfl | rfl
        · rfl
        · exact first
      exact absurd (running.symm.trans returned) (by decide)
    rw [ListCall.after_le second.1 late] at files
    have sizes := congrArg (List.map fun info => info.attr.size) files
    rw [second.2] at sizes
    exact absurd sizes (by decide +kernel)

end Tegenaria.LibSftp
