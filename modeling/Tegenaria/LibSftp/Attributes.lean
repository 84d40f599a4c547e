import Tegenaria.LibSftp.Answers

/-!
# File attributes

An attribute block starts with a word of flags, followed by the fields that the
flags announce.  `popAttribs` exists twice: one version fills the structure of the
client, the other one the structure of the Windows file functions.

The blocks that a server can send are described by `Attributes`, with their encoding
and with what each version should make of them.
-/

namespace Tegenaria.LibSftp

open Foundation
open Foundation.Bytes
open Foundation.Word
open LibStr

/-! ## Decoding -/

def attrSize : Nat := 0x00000001
def attrUidgid : Nat := 0x00000002
def attrPermissions : Nat := 0x00000004
def attrAcmodtime : Nat := 0x00000008
def attrExtended : Nat := 0x80000000

/-- `flags & mask` as a condition. -/
def hasFlag (flags mask : Nat) : Bool := flags &&& mask ≠ 0

/-- `SftpFileAttr` -/
structure SftpFileAttr where
  size : Int
  flags : Nat
  uid : Nat
  guid : Nat
  perm : Nat
  atime : Nat
  mtime : Nat
  deriving DecidableEq

/-- Two dwords in a row. -/
def popPair : Decoder UInt8 (Nat × Nat) := do
  let first ← popDword
  let second ← popDword
  pure (first, second)

/-- `(uint64_t(high) << 32) | uint64_t(low)`, stored in an `int64_t`. -/
def joinSize (high low : Nat) : Int :=
  ((high <<< 32 ||| low : Nat) + 2 ^ 63 : Int) % 2 ^ 64 - 2 ^ 63

/-- `SftpClient::popAttribs` for `SftpFileAttr` -/
def popAttribs : Decoder UInt8 SftpFileAttr := do
  let flags ← popDword
  let size ← .optional (hasFlag flags attrSize) popPair (0, 0)
  let owner ← .optional (hasFlag flags attrUidgid) popPair (0, 0)
  let perm ← .optional (hasFlag flags attrPermissions) popDword 0
  let times ← .optional (hasFlag flags attrAcmodtime) popPair (0, 0)
  pure ⟨joinSize size.1 size.2, flags, owner.1, owner.2, perm, times.1, times.2⟩

/-- `FILETIME` -/
structure FileTime where
  dwLowDateTime : Nat
  dwHighDateTime : Nat
  deriving DecidableEq

namespace FileTime

/-- The 64-bit number that a `FILETIME` stands for. -/
def ticks (time : FileTime) : Nat := time.dwHighDateTime * 2 ^ 32 + time.dwLowDateTime

/-- The assignments to the two halves. -/
def ofLonglong (value : Int) : FileTime := ⟨toU32 value, toU32 (value / 2 ^ 32)⟩

/-- `Int32x32To64(time, 10000000) + 116444736000000000LL`; the macro converts its
arguments to `LONG`. -/
def ofUnix (time : Nat) : FileTime :=
  ofLonglong (toI32 time * 10000000 + 116444736000000000)

end FileTime

/-- `BY_HANDLE_FILE_INFORMATION`, without the serial number and the file index, which
stay zero. -/
structure ByHandleFileInformation where
  dwFileAttributes : Nat
  ftCreationTime : FileTime
  ftLastAccessTime : FileTime
  ftLastWriteTime : FileTime
  nFileSizeHigh : Nat
  nFileSizeLow : Nat
  nNumberOfLinks : Nat
  deriving DecidableEq

def fileAttributeDirectory : Nat := 0x10
def fileAttributeNotContentIndexed : Nat := 0x2000

/-- `SFTP_ISDIR` -/
def sftpIsDir (perm : Nat) : Bool := perm &&& 0o170000 = 0o040000

/-- The attribute bits for a permission word. -/
def fileAttributes (perm : Nat) : Nat :=
  (if sftpIsDir perm then fileAttributeDirectory else 0) ||| fileAttributeNotContentIndexed

/-- The three times; all are zero if none were sent. -/
def fileTimes (present : Bool) (times : Nat × Nat) : FileTime × FileTime :=
  if present then (.ofUnix times.1, .ofUnix times.2) else (⟨0, 0⟩, ⟨0, 0⟩)

/-- `SftpClient::popAttribs` for `BY_HANDLE_FILE_INFORMATION`.  The creation time is
not sent; it becomes the time of the last write. -/
def popAttribsWindows : Decoder UInt8 ByHandleFileInformation := do
  let flags ← popDword
  let size ← .optional (hasFlag flags attrSize) popPair (0, 0)
  let _ ← .optional (hasFlag flags attrUidgid) popPair (0, 0)
  let perm ← .optional (hasFlag flags attrPermissions) popDword 0
  let times ← .optional (hasFlag flags attrAcmodtime) popPair (0, 0)
  let (atime, mtime) := fileTimes (hasFlag flags attrAcmodtime) times
  pure ⟨fileAttributes perm, mtime, atime, mtime, size.1, size.2, 1⟩

/-! ## Blocks -/

/-- What a server sends in one block: any fields, and pairs of a name and data for the
extended flag. -/
structure Attributes where
  size : Option UInt64
  uidgid : Option (UInt32 × UInt32)
  permissions : Option UInt32
  acmodtime : Option (UInt32 × UInt32)
  extended : Option (List (List UInt8 × List UInt8))

namespace Attributes

/-- The flag of a field, if the field is there. -/
def flagOf {Content : Type} (mask : Nat) (field : Option Content) : Nat :=
  if field.isSome then mask else 0

def flags (block : Attributes) : Nat :=
  flagOf attrSize block.size ||| flagOf attrUidgid block.uidgid |||
    flagOf attrPermissions block.permissions ||| flagOf attrAcmodtime block.acmodtime |||
    flagOf attrExtended block.extended

/-- The bytes of a field, if it is there. -/
def fieldBytes {Content : Type} (encode : Content → List UInt8) (field : Option Content) :
    List UInt8 :=
  field.elim [] encode

def pairBytes (pair : UInt32 × UInt32) : List UInt8 :=
  bigEndian 4 pair.1.toNat ++ bigEndian 4 pair.2.toNat

/-- A string with its length in front. -/
def stringBytes (text : List UInt8) : List UInt8 := bigEndian 4 text.length ++ text

def extendedBytes (pairs : List (List UInt8 × List UInt8)) : List UInt8 :=
  bigEndian 4 pairs.length ++ pairs.flatMap fun pair => stringBytes pair.1 ++ stringBytes pair.2

/-- The fields that both versions of `popAttribs` know. -/
def plainBytes (block : Attributes) : List UInt8 :=
  bigEndian 4 block.flags ++ (fieldBytes (fun size => bigEndian 8 size.toNat) block.size ++
    (fieldBytes pairBytes block.uidgid ++
      (fieldBytes (fun perm => bigEndian 4 perm.toNat) block.permissions ++
        fieldBytes pairBytes block.acmodtime)))

/-- The block as the protocol encodes it. -/
def encode (block : Attributes) : List UInt8 :=
  block.plainBytes ++ fieldBytes extendedBytes block.extended

/-- The fields of a pair, or zeros. -/
def pairOf (field : Option (UInt32 × UInt32)) : Nat × Nat :=
  field.elim (0, 0) fun pair => (pair.1.toNat, pair.2.toNat)

def permOf (block : Attributes) : Nat := block.permissions.elim 0 UInt32.toNat

def sizeOf (block : Attributes) : Nat := block.size.elim 0 UInt64.toNat

/-- The encoded fields in the structure of the client. -/
def content (block : Attributes) : SftpFileAttr where
  size := block.sizeOf
  flags := block.flags
  uid := (pairOf block.uidgid).1
  guid := (pairOf block.uidgid).2
  perm := block.permOf
  atime := (pairOf block.acmodtime).1
  mtime := (pairOf block.acmodtime).2

/-- The ticks of a `FILETIME` for a Unix time. -/
def windowsTicks (time : Nat) : Nat := time * 10 ^ 7 + 116444736000000000

/-- The encoded fields in the structure of Windows. -/
structure WindowsContent (block : Attributes) (info : ByHandleFileInformation) : Prop where
  size : info.nFileSizeHigh * 2 ^ 32 + info.nFileSizeLow = block.sizeOf
  directory : info.dwFileAttributes = fileAttributes block.permOf
  links : info.nNumberOfLinks = 1
  times : ∀ times, block.acmodtime = some times →
    info.ftLastAccessTime.ticks = windowsTicks times.1.toNat ∧
      info.ftLastWriteTime.ticks = windowsTicks times.2.toNat ∧
      info.ftCreationTime.ticks = windowsTicks times.2.toNat
  noTimes : block.acmodtime = none →
    info.ftLastAccessTime = ⟨0, 0⟩ ∧ info.ftLastWriteTime = ⟨0, 0⟩ ∧ info.ftCreationTime = ⟨0, 0⟩

/-- Both versions decode the block and leave the tail. -/
structure Decoded (block : Attributes) (tail : List UInt8) : Prop where
  generic : popAttribs.run (block.encode ++ tail) = some (block.content, tail)
  windows : ∃ info, popAttribsWindows.run (block.encode ++ tail) = some (info, tail) ∧
    block.WindowsContent info

/-- The extended flag is not set, the size fits a signed number and the times are
before the year 2038. -/
structure Supported (block : Attributes) : Prop where
  notExtended : block.extended = none
  size : ∀ size, block.size = some size → size.toNat < 2 ^ 63
  times : ∀ times, block.acmodtime = some times →
    times.1.toNat < 2 ^ 31 ∧ times.2.toNat < 2 ^ 31

end Attributes

/-! ## The two versions -/

/-- Both versions pop the same fields. -/
theorem popAttribs_agree :
    Decoder.Agree (fun _ _ => True) popAttribs popAttribsWindows := by
  refine (Decoder.agree_refl popDword).bind ?_
  rintro flags _ rfl
  refine (Decoder.agree_refl _).bind ?_
  rintro size _ rfl
  refine (Decoder.agree_refl _).bind ?_
  rintro owner _ rfl
  refine (Decoder.agree_refl _).bind ?_
  rintro perm _ rfl
  refine (Decoder.agree_refl _).bind ?_
  rintro times _ rfl
  exact Decoder.agree_pure trivial

/-! ## Fields -/

theorem popPair_reads {first second : Nat} (firstSmall : first < 2 ^ 32)
    (secondSmall : second < 2 ^ 32) :
    Decoder.Reads (2 ^ 31) popPair (bigEndian 4 first ++ bigEndian 4 second) (first, second) :=
  (popDword_reads firstSmall).bind (popDword_reads secondSmall).map

theorem shiftLeft_or_mod (size : Nat) : (size / 2 ^ 32) <<< 32 ||| size % 2 ^ 32 = size := by
  rw [← Nat.shiftLeft_add_eq_or_of_lt (by omega), Nat.shiftLeft_eq]
  omega

theorem joinSize_eq {size : Nat} (small : size < 2 ^ 64) :
    joinSize (size / 2 ^ 32) (size % 2 ^ 32) = size ↔ size < 2 ^ 63 := by
  rw [joinSize, shiftLeft_or_mod]
  omega

theorem FileTime.ticks_ofLonglong {value : Int} (nonneg : 0 ≤ value) (small : value < 2 ^ 64) :
    ((FileTime.ofLonglong value).ticks : Int) = value := by
  simp only [FileTime.ticks, FileTime.ofLonglong, toU32]
  omega

/-- The conversion is right up to the year 2038. -/
theorem FileTime.ticks_ofUnix {time : Nat} (small : time < 2 ^ 32) :
    (FileTime.ofUnix time).ticks = Attributes.windowsTicks time ↔ time < 2 ^ 31 := by
  have lower := toI32_lower time
  have upper := toI32_upper time
  have ticks := FileTime.ticks_ofLonglong
    (by omega : 0 ≤ toI32 time * 10000000 + 116444736000000000) (by omega)
  rw [FileTime.ofUnix, Attributes.windowsTicks]
  simp only [toI32] at ticks ⊢
  omega

namespace Attributes

/-- A field is decoded if it is there. -/
theorem reads_field {Content Value : Type} {limit : Nat} {field : Option Content}
    {encode : Content → List UInt8} {decoder : Decoder UInt8 Value} {content : Content → Value}
    {absent : Value}
    (each : ∀ inner, field = some inner → Decoder.Reads limit decoder (encode inner) (content inner)) :
    Decoder.Reads limit (.optional field.isSome decoder absent) (fieldBytes encode field)
      (field.elim absent content) := by
  cases field with
  | none => exact Decoder.reads_pure limit absent
  | some inner => exact each inner rfl

theorem hasFlag_flags (block : Attributes) :
    hasFlag block.flags attrSize = block.size.isSome ∧
      hasFlag block.flags attrUidgid = block.uidgid.isSome ∧
      hasFlag block.flags attrPermissions = block.permissions.isSome ∧
      hasFlag block.flags attrAcmodtime = block.acmodtime.isSome := by
  simp only [flags, flagOf]
  cases block.size.isSome <;> cases block.uidgid.isSome <;> cases block.permissions.isSome <;>
    cases block.acmodtime.isSome <;> cases block.extended.isSome <;> decide

theorem flags_lt (block : Attributes) : block.flags < 2 ^ 32 := by
  simp only [flags, flagOf]
  cases block.size.isSome <;> cases block.uidgid.isSome <;> cases block.permissions.isSome <;>
    cases block.acmodtime.isSome <;> cases block.extended.isSome <;> decide

/-- The two halves of the size, or zeros. -/
def halves (block : Attributes) : Nat × Nat :=
  block.size.elim (0, 0) fun size => (size.toNat / 2 ^ 32, size.toNat % 2 ^ 32)

section Blocks

variable (block : Attributes)

theorem reads_size :
    Decoder.Reads (2 ^ 31) (.optional block.size.isSome popPair (0, 0))
      (fieldBytes (fun size => bigEndian 8 size.toNat) block.size) block.halves := by
  refine reads_field fun size _ => ?_
  have bound : size.toNat < 2 ^ 64 := size.toNat_lt
  have split : bigEndian 8 size.toNat =
      bigEndian 4 (size.toNat / 2 ^ 32) ++ bigEndian 4 (size.toNat % 2 ^ 32) :=
    bigEndian_add 4 4 size.toNat
  rw [split]
  exact popPair_reads (by omega) (by omega)

theorem reads_pair (field : Option (UInt32 × UInt32)) :
    Decoder.Reads (2 ^ 31) (.optional field.isSome popPair (0, 0)) (fieldBytes pairBytes field)
      (pairOf field) :=
  reads_field fun pair _ => popPair_reads pair.1.toNat_lt pair.2.toNat_lt

theorem reads_permissions :
    Decoder.Reads (2 ^ 31) (.optional block.permissions.isSome popDword 0)
      (fieldBytes (fun perm => bigEndian 4 perm.toNat) block.permissions) block.permOf :=
  reads_field fun perm _ => popDword_reads perm.toNat_lt

/-- The fields up to the times are taken off by the generic version. -/
theorem popAttribs_reads :
    Decoder.Reads (2 ^ 31) popAttribs block.plainBytes
      { block.content with size := joinSize block.halves.1 block.halves.2 } := by
  obtain ⟨size, owner, perm, times⟩ := block.hasFlag_flags
  refine (popDword_reads block.flags_lt).bind ?_
  rw [size, owner, perm, times]
  exact block.reads_size.bind <| (reads_pair block.uidgid).bind <|
    block.reads_permissions.bind (reads_pair block.acmodtime).map

/-- What the Windows version makes of the fields. -/
def windowsInfo : ByHandleFileInformation :=
  let times := fileTimes block.acmodtime.isSome (pairOf block.acmodtime)
  ⟨fileAttributes block.permOf, times.2, times.1, times.2, block.halves.1, block.halves.2, 1⟩

theorem popAttribsWindows_reads :
    Decoder.Reads (2 ^ 31) popAttribsWindows block.plainBytes block.windowsInfo := by
  obtain ⟨size, owner, perm, times⟩ := block.hasFlag_flags
  refine (popDword_reads block.flags_lt).bind ?_
  rw [size, owner, perm, times]
  exact block.reads_size.bind <| (reads_pair block.uidgid).bind <|
    block.reads_permissions.bind (reads_pair block.acmodtime).map

theorem halves_join : block.halves.1 * 2 ^ 32 + block.halves.2 = block.sizeOf := by
  cases present : block.size with
  | none => simp [halves, sizeOf, present]
  | some size =>
      simp only [halves, sizeOf, present, Option.elim_some]
      omega

theorem joinSize_halves :
    joinSize block.halves.1 block.halves.2 = block.sizeOf ↔
      ∀ size, block.size = some size → size.toNat < 2 ^ 63 := by
  cases present : block.size with
  | none =>
      simp only [halves, sizeOf, present, Option.elim_none]
      exact ⟨fun _ _ other => (by cases other), fun _ => by decide⟩
  | some size =>
      simp only [halves, sizeOf, present, Option.elim_some, Option.some.injEq, forall_eq']
      exact joinSize_eq size.toNat_lt

/-- The Windows structure is right exactly when the times fit a signed number. -/
theorem windowsInfo_content :
    block.WindowsContent block.windowsInfo ↔
      ∀ times, block.acmodtime = some times → times.1.toNat < 2 ^ 31 ∧ times.2.toNat < 2 ^ 31 := by
  have ticks : ∀ times, block.acmodtime = some times →
      ((block.windowsInfo.ftLastAccessTime.ticks = windowsTicks times.1.toNat ∧
        block.windowsInfo.ftLastWriteTime.ticks = windowsTicks times.2.toNat ∧
        block.windowsInfo.ftCreationTime.ticks = windowsTicks times.2.toNat) ↔
      times.1.toNat < 2 ^ 31 ∧ times.2.toNat < 2 ^ 31) := by
    intro times present
    simp only [windowsInfo, present, Option.isSome_some, fileTimes, if_true, pairOf,
      Option.elim_some, FileTime.ticks_ofUnix times.1.toNat_lt,
      FileTime.ticks_ofUnix times.2.toNat_lt, and_self]
  constructor
  · intro content times present
    exact (ticks times present).mp (content.times times present)
  · intro early
    exact {
      size := block.halves_join
      directory := rfl
      links := rfl
      times := fun times present => (ticks times present).mpr (early times present)
      noTimes := fun absent => by simp [windowsInfo, absent, fileTimes] }

/-- A block that is too long for its flags leaves something behind. -/
theorem fieldBytes_extended_eq_nil :
    fieldBytes extendedBytes block.extended = [] ↔ block.extended = none := by
  cases present : block.extended with
  | none => simp [fieldBytes]
  | some pairs =>
      have long : (extendedBytes pairs).length ≠ 0 := by
        simp only [extendedBytes, List.length_append, bigEndian_length]
        omega
      simp only [fieldBytes, Option.elim_some, reduceCtorEq, iff_false]
      exact fun none => long (congrArg List.length none)

end Blocks

/-- A block in a string that an `int` can measure is decoded by both versions, with the
tail left over, exactly when it is supported.  On every string both versions succeed
together and leave the same rest. -/
theorem popAttribs_exact (block : Attributes) (tail : List UInt8)
    (received : (block.encode ++ tail).length < 2 ^ 31) :
    (∀ packet, (popAttribs.run packet).map Prod.snd = (popAttribsWindows.run packet).map Prod.snd) ∧
      (block.Decoded tail ↔ block.Supported) := by
  refine ⟨popAttribs_agree.rest, ?_⟩
  have whole : block.encode ++ tail =
      block.plainBytes ++ (fieldBytes extendedBytes block.extended ++ tail) :=
    List.append_assoc _ _ _
  rw [whole] at received
  have generic := block.popAttribs_reads _ received
  have windows := block.popAttribsWindows_reads _ received
  rw [← whole] at generic windows
  constructor
  · intro decoded
    have same := Prod.mk.inj (Option.some.inj (generic.symm.trans decoded.generic))
    have nothing : fieldBytes extendedBytes block.extended = [] := List.append_left_eq_self.mp same.2
    have sizes := congrArg SftpFileAttr.size same.1
    dsimp only [content] at sizes
    obtain ⟨info, ran, content⟩ := decoded.windows
    cases Prod.mk.inj (Option.some.inj (windows.symm.trans ran)) with
    | intro isInfo _ =>
        rw [← isInfo] at content
        exact {
          notExtended := block.fieldBytes_extended_eq_nil.mp nothing
          size := block.joinSize_halves.mp sizes
          times := block.windowsInfo_content.mp content }
  · intro supported
    rw [block.fieldBytes_extended_eq_nil.mpr supported.notExtended, List.nil_append] at generic windows
    rw [block.joinSize_halves.mpr supported.size] at generic
    exact ⟨generic, block.windowsInfo, windows, block.windowsInfo_content.mpr supported.times⟩

/-- A directory with all fields of the year 2001. -/
theorem popAttribs_exact_directory :
    Attributes.Decoded ⟨some 4096, some (0, 0), some 0o040755, some (1000000000, 1000000000), none⟩
      [7, 7] :=
  (popAttribs_exact ⟨some 4096, some (0, 0), some 0o040755, some (1000000000, 1000000000), none⟩
    [7, 7] (by decide +kernel)).2.mpr
    ⟨rfl, fun size same => (by obtain rfl := Option.some.inj same; decide +kernel),
      fun times same => (by obtain rfl := Option.some.inj same; decide +kernel)⟩

/-- A block with the extended flag and no pairs leaves the count in front of the
tail. -/
theorem popAttribs_extended_left :
    popAttribs.run ((⟨none, none, none, none, some []⟩ : Attributes).encode ++ [7]) =
        some (⟨0, 0x80000000, 0, 0, 0, 0, 0⟩, [0, 0, 0, 0, 7]) ∧
      ¬Attributes.Decoded ⟨none, none, none, none, some []⟩ [7] := by
  have ran : popAttribs.run ((⟨none, none, none, none, some []⟩ : Attributes).encode ++ [7]) =
      some (⟨0, 0x80000000, 0, 0, 0, 0, 0⟩, [0, 0, 0, 0, 7]) := by decide +kernel
  refine ⟨ran, fun decoded => ?_⟩
  cases ran.symm.trans decoded.generic

end Attributes

end Tegenaria.LibSftp
