import Tegenaria.LibSftp.Packet

/-!
# Requests of the client

Every function of `SftpClient` builds its request by pushing fields onto an empty
string.  The first field is the size of the rest, which each function adds up by
hand.  A server reads the fields in the order in which the protocol lists them.

The requests are compared with what the server reads: the size is the right one,
the head can be decoded, and the arguments come back with nothing left over.
-/

namespace Tegenaria.LibSftp

open Foundation
open Foundation.Bytes
open Foundation.Word
open LibStr

/-! ## Packet types -/

def fxpInit : UInt8 := 1
def fxpOpen : UInt8 := 3
def fxpClose : UInt8 := 4
def fxpRead : UInt8 := 5
def fxpWrite : UInt8 := 6
def fxpStatVersion0 : UInt8 := 7
def fxpOpendir : UInt8 := 11
def fxpRemove : UInt8 := 13
def fxpMkdir : UInt8 := 14
def fxpRmdir : UInt8 := 15
def fxpRename : UInt8 := 18
def fxpExtended : UInt8 := 200
def fxpDirligoCreatefile : UInt8 := 220
def fxpDirligoMulticlose : UInt8 := 221
def fxpDirligoResetdir : UInt8 := 222
def fxpDirligoReaddirShort : UInt8 := 224

def filexferVersion : Nat := 3

/-! ## Building requests -/

/-- A string of C without its terminating zero. -/
structure CString where
  bytes : List UInt8
  zero_notMem : 0 ∉ bytes

namespace CString

def strlen (text : CString) : Nat := text.bytes.length

end CString

/-- One call of a `StrPush` function in big-endian order. -/
inductive Field where
  | byte (value : UInt8)
  | dword (value : Nat)
  | qword (value : Nat)
  | raw (source : List UInt8) (size : Int)

namespace Field

def push (packet : List UInt8) : Field → Option (List UInt8)
  | .byte value => strPushByte packet value
  | .dword value => strPushDword packet value .bigEndian
  | .qword value => strPushQword packet value .bigEndian
  | .raw source size => strPushRaw packet source size

/-- The bytes of a path, whose length is passed as an `int`. -/
def path (text : CString) : Field := .raw text.bytes (toI32 text.strlen)

end Field

/-- A packet that is built by pushing fields one after another. -/
def pushFields (fields : List Field) : Option (List UInt8) :=
  fields.foldlM Field.push []

/-- `packet.resize(packet.size() + count)` and
`memcpy(&packet[position], source, count)`, for counts that are not negative. -/
def resizeCopy (packet : List UInt8) (position : Nat) (source : List UInt8) (count : Nat) :
    List UInt8 :=
  let resized : List UInt8 := packet ++ List.replicate count 0
  resized.take position ++ source.take count ++ resized.drop (position + count)

/-- A request that carries one path. -/
def pathPacket (type : UInt8) (id : UInt32) (path : CString) : Option (List UInt8) :=
  pushFields [.dword (9 + path.strlen), .byte type, .dword id.toNat,
    .dword path.strlen, .path path]

/-- A request that carries one handle as a string of four bytes. -/
def handlePacket (type : UInt8) (id : UInt32) (handle : Int) : Option (List UInt8) :=
  pushFields [.dword 13, .byte type, .dword id.toNat, .dword 4, .dword (toU32 handle)]

def connectPacket : Option (List UInt8) :=
  pushFields [.dword 5, .byte fxpInit, .dword filexferVersion]

def openPacket (id : UInt32) (path : CString) (mode : UInt32) (isDir : Bool) :
    Option (List UInt8) :=
  let type := if isDir then fxpOpendir else fxpOpen
  let size := if isDir then 9 + path.strlen else 17 + path.strlen
  pushFields (([.dword size, .byte type, .dword id.toNat, .dword path.strlen, .path path] : List Field) ++
    if isDir then [] else ([.dword mode.toNat, .dword 0] : List Field))

def closePacket (id : UInt32) (handle : Int) : Option (List UInt8) :=
  handlePacket fxpClose id handle

/-- Nothing is sent for an empty list. -/
def multiclosePacket (id : UInt32) (handles : List Int) : Option (List UInt8) :=
  pushFields (([.dword (9 + 4 * handles.length), .byte fxpDirligoMulticlose, .dword id.toNat,
    .dword handles.length] : List Field) ++ handles.map fun handle => Field.dword (toU32 handle))

def resetdirPacket (id : UInt32) (handle : Int) : Option (List UInt8) :=
  pushFields [.dword 9, .byte fxpDirligoResetdir, .dword id.toNat,
    .dword (toU32 (toI32 handle))]

/-- One round of the loop in `read`. -/
def readPacket (id : UInt32) (handle : Int) (offset : UInt64) (pieceSize : Nat) :
    Option (List UInt8) :=
  pushFields [.dword 25, .byte fxpRead, .dword id.toNat, .dword 4, .dword (toU32 handle),
    .qword offset.toNat, .dword pieceSize]

/-- One round of the loop in `write`. -/
def writePacket (id : UInt32) (handle : Int) (buffer : List UInt8) (offset : UInt64)
    (pieceSize : Nat) : Option (List UInt8) :=
  (pushFields [.dword (25 + pieceSize), .byte fxpWrite, .dword id.toNat, .dword 4,
    .dword (toU32 handle), .qword offset.toNat, .dword pieceSize]).map fun packet =>
      resizeCopy packet 29 buffer pieceSize

def statPacket (id : UInt32) (path : CString) : Option (List UInt8) :=
  pathPacket fxpStatVersion0 id path

/-- One round of the loop in `readdir`. -/
def readdirPacket (id : UInt32) (handle : Int) : Option (List UInt8) :=
  handlePacket fxpDirligoReaddirShort id handle

/-- `"statvfs@openssh.com"` -/
def statvfsName : List UInt8 :=
  [115, 116, 97, 116, 118, 102, 115, 64, 111, 112, 101, 110, 115, 115, 104, 46, 99, 111, 109]

def statvfsPacket (id : UInt32) (path : CString) : Option (List UInt8) :=
  pushFields [.dword (13 + statvfsName.length + path.strlen), .byte fxpExtended,
    .dword id.toNat, .dword statvfsName.length,
    .raw statvfsName (toI32 statvfsName.length), .dword path.strlen, .path path]

def mkdirPacket (id : UInt32) (path : CString) : Option (List UInt8) :=
  pushFields [.dword (13 + path.strlen), .byte fxpMkdir, .dword id.toNat,
    .dword path.strlen, .path path, .dword 0]

def removePacket (id : UInt32) (path : CString) : Option (List UInt8) :=
  pathPacket fxpRemove id path

def rmdirPacket (id : UInt32) (path : CString) : Option (List UInt8) :=
  pathPacket fxpRmdir id path

def renamePacket (id : UInt32) (path1 path2 : CString) : Option (List UInt8) :=
  pushFields [.dword (13 + path1.strlen + path2.strlen), .byte fxpRename, .dword id.toNat,
    .dword path1.strlen, .path path1, .dword path2.strlen, .path path2]

def createfilePacket (id : UInt32) (path : CString) (access shared create flags : UInt32) :
    Option (List UInt8) :=
  pushFields [.dword (25 + path.strlen), .byte fxpDirligoCreatefile, .dword id.toNat,
    .dword path.strlen, .path path, .dword access.toNat, .dword shared.toNat,
    .dword create.toNat, .dword flags.toNat]

/-- A request that the client sends. -/
inductive Operation where
  | connect
  | open (path : CString) (mode : UInt32)
  | opendir (path : CString)
  | close (handle : Int)
  | multiclose (handles : List Int)
  | resetdir (handle : Int)
  | read (handle : Int) (offset : UInt64) (pieceSize : Nat)
  | write (handle : Int) (buffer : List UInt8) (offset : UInt64) (pieceSize : Nat)
  | stat (path : CString)
  | readdir (handle : Int)
  | statvfs (path : CString)
  | mkdir (path : CString)
  | remove (path : CString)
  | rmdir (path : CString)
  | rename (path1 path2 : CString)
  | createfile (path : CString) (access shared create flags : UInt32)

namespace Operation

/-- The packet that is passed to `processPacket`. -/
def packet (id : UInt32) : Operation → Option (List UInt8)
  | .connect => connectPacket
  | .open path mode => openPacket id path mode false
  | .opendir path => openPacket id path 0 true
  | .close handle => closePacket id handle
  | .multiclose handles => multiclosePacket id handles
  | .resetdir handle => resetdirPacket id handle
  | .read handle offset pieceSize => readPacket id handle offset pieceSize
  | .write handle buffer offset pieceSize => writePacket id handle buffer offset pieceSize
  | .stat path => statPacket id path
  | .readdir handle => readdirPacket id handle
  | .statvfs path => statvfsPacket id path
  | .mkdir path => mkdirPacket id path
  | .remove path => removePacket id path
  | .rmdir path => rmdirPacket id path
  | .rename path1 path2 => renamePacket id path1 path2
  | .createfile path access shared create flags =>
      createfilePacket id path access shared create flags

/-- Arguments that the server can be given.  Paths and data are shorter than
`2 ^ 31 - 64` bytes, handles have 32 bits, and a request with two paths or many
handles is shorter than `2 ^ 31` bytes as a whole. -/
def Fits : Operation → Prop
  | .connect => True
  | .open path _ | .opendir path | .stat path | .statvfs path | .mkdir path | .remove path
  | .rmdir path | .createfile path .. => path.strlen < 2 ^ 31 - 64
  | .close handle | .resetdir handle | .readdir handle => 0 ≤ handle ∧ handle < 2 ^ 32
  | .multiclose handles => handles ≠ [] ∧ 13 + 4 * handles.length < 2 ^ 31 ∧
      ∀ handle ∈ handles, 0 ≤ handle ∧ handle < 2 ^ 32
  | .read handle _ pieceSize => (0 ≤ handle ∧ handle < 2 ^ 32) ∧ pieceSize < 2 ^ 31
  | .write handle buffer _ pieceSize => (0 ≤ handle ∧ handle < 2 ^ 32) ∧
      pieceSize ≤ buffer.length ∧ pieceSize < 2 ^ 31 - 64
  | .rename path1 path2 => 17 + path1.strlen + path2.strlen < 2 ^ 31

end Operation

/-! ## Reading requests -/

/-- An argument as a server sees it. -/
inductive Argument where
  | dword (value : Nat)
  | qword (value : Nat)
  | text (bytes : List UInt8)
  | handle (value : Nat)
  | handles (values : List Nat)
  deriving DecidableEq

/-- How an argument is laid out in a packet. -/
inductive Shape where
  | dword
  | qword
  | text
  | handle
  | handles
  deriving DecidableEq

/-- Pop the given number of handles. -/
def popHandles : (count : Nat) → List UInt8 → Option (List Nat × List UInt8)
  | 0, buf => some ([], buf)
  | count + 1, buf =>
      (strPopDword buf .bigEndian).bind fun first =>
      (popHandles count first.2).map fun others => (first.1 :: others.1, others.2)

/-- Pop one argument.  A handle is a string of four bytes. -/
def Shape.pop : Shape → List UInt8 → Option (Argument × List UInt8)
  | .dword, buf => (strPopDword buf .bigEndian).map fun value => (.dword value.1, value.2)
  | .qword, buf => (strPopQword buf .bigEndian).map fun value => (.qword value.1, value.2)
  | .text, buf =>
      (strPopDword buf .bigEndian).bind fun length =>
      (strPopRaw length.1 length.2).map fun raw => (.text raw.1, raw.2)
  | .handle, buf =>
      (strPopDword buf .bigEndian).bind fun length =>
      if length.1 = 4 then
        (strPopDword length.2 .bigEndian).map fun value => (.handle value.1, value.2)
      else none
  | .handles, buf =>
      (strPopDword buf .bigEndian).bind fun count =>
      (popHandles count.1 count.2).map fun values => (.handles values.1, values.2)

def popAll : List Shape → List UInt8 → Option (List Argument × List UInt8)
  | [], buf => some ([], buf)
  | shape :: shapes, buf =>
      (shape.pop buf).bind fun first =>
      (popAll shapes first.2).map fun others => (first.1 :: others.1, others.2)

/-- The arguments of each type of request, in the order of the protocol. -/
def layout (type : UInt8) : Option (List Shape) :=
  if type = fxpInit then some [.dword]
  else if type = fxpOpen then some [.text, .dword, .dword]
  else if type = fxpClose ∨ type = fxpDirligoReaddirShort then some [.handle]
  else if type = fxpRead then some [.handle, .qword, .dword]
  else if type = fxpWrite then some [.handle, .qword, .text]
  else if type = fxpStatVersion0 ∨ type = fxpOpendir ∨ type = fxpRemove ∨ type = fxpRmdir then
    some [.text]
  else if type = fxpMkdir then some [.text, .dword]
  else if type = fxpRename ∨ type = fxpExtended then some [.text, .text]
  else if type = fxpDirligoCreatefile then some [.text, .dword, .dword, .dword, .dword]
  else if type = fxpDirligoMulticlose then some [.handles]
  else if type = fxpDirligoResetdir then some [.dword]
  else none

/-- A request as a server sees it.  The initial packet has no id. -/
structure Message where
  size : Nat
  type : UInt8
  id : Option Nat
  body : List Argument
  deriving DecidableEq

/-- Pop a whole request. -/
def popMessage (packet : List UInt8) : Option (Message × List UInt8) :=
  (strPopDword packet .bigEndian).bind fun size =>
  (strPopByte size.2).bind fun type =>
  (layout type.1).bind fun shapes =>
  if type.1 = fxpInit then
    (popAll shapes type.2).map fun body => (⟨size.1, type.1, none, body.1⟩, body.2)
  else
    (strPopDword type.2 .bigEndian).bind fun id =>
    (popAll shapes id.2).map fun body => (⟨size.1, type.1, some id.1, body.1⟩, body.2)

namespace Operation

def type : Operation → UInt8
  | .connect => fxpInit
  | .open .. => fxpOpen
  | .opendir _ => fxpOpendir
  | .close _ => fxpClose
  | .multiclose _ => fxpDirligoMulticlose
  | .resetdir _ => fxpDirligoResetdir
  | .read .. => fxpRead
  | .write .. => fxpWrite
  | .stat _ => fxpStatVersion0
  | .readdir _ => fxpDirligoReaddirShort
  | .statvfs _ => fxpExtended
  | .mkdir _ => fxpMkdir
  | .remove _ => fxpRemove
  | .rmdir _ => fxpRmdir
  | .rename .. => fxpRename
  | .createfile .. => fxpDirligoCreatefile

/-- The arguments that the caller has passed. -/
def arguments : Operation → List Argument
  | .connect => [.dword filexferVersion]
  | .open path mode => [.text path.bytes, .dword mode.toNat, .dword 0]
  | .opendir path | .stat path | .remove path | .rmdir path => [.text path.bytes]
  | .close handle | .readdir handle => [.handle handle.toNat]
  | .multiclose handles => [.handles (handles.map Int.toNat)]
  | .resetdir handle => [.dword handle.toNat]
  | .read handle offset pieceSize => [.handle handle.toNat, .qword offset.toNat, .dword pieceSize]
  | .write handle buffer offset pieceSize =>
      [.handle handle.toNat, .qword offset.toNat, .text (buffer.take pieceSize)]
  | .statvfs path => [.text statvfsName, .text path.bytes]
  | .mkdir path => [.text path.bytes, .dword 0]
  | .rename path1 path2 => [.text path1.bytes, .text path2.bytes]
  | .createfile path access shared create flags => [.text path.bytes, .dword access.toNat,
      .dword shared.toNat, .dword create.toNat, .dword flags.toNat]

/-- The id that the request is sent under. -/
def idField (id : UInt32) : Operation → Option Nat
  | .connect => none
  | _ => some id.toNat

end Operation

/-! ## Fields and arguments as bytes -/

namespace Field

def bytes : Field → List UInt8
  | .byte value => [value]
  | .dword value => bigEndian 4 value
  | .qword value => bigEndian 8 value
  | .raw source _ => source

/-- All bytes of the source are pushed. -/
def Whole : Field → Prop
  | .raw source size => size = toI32 source.length
  | .byte _ | .dword _ | .qword _ => True

theorem push_short {packet : List UInt8} {field : Field} (whole : field.Whole)
    (short : packet.length + field.bytes.length < 2 ^ 31) :
    field.push packet = some (packet ++ field.bytes) := by
  cases field with
  | byte value => rfl
  | dword value =>
      rw [bytes, bigEndian_length] at short
      exact strPushWord_short short value .bigEndian
  | qword value =>
      rw [bytes, bigEndian_length] at short
      exact strPushWord_short short value .bigEndian
  | raw source size =>
      rw [push, whole]
      exact strPushRaw_short short

end Field

/-- Pushing fields that fit into an `int` concatenates them. -/
theorem pushFields_short {fields : List Field} (whole : ∀ field ∈ fields, field.Whole)
    (short : (fields.flatMap Field.bytes).length < 2 ^ 31) :
    pushFields fields = some (fields.flatMap Field.bytes) := by
  have pushed : ∀ packet : List UInt8,
      packet.length + (fields.flatMap Field.bytes).length < 2 ^ 31 →
      fields.foldlM Field.push packet = some (packet ++ fields.flatMap Field.bytes) := by
    clear short
    induction fields with
    | nil => simp
    | cons field fields ih =>
        intro packet short
        rw [List.flatMap_cons, List.length_append] at short
        rw [List.foldlM_cons, Field.push_short (whole field List.mem_cons_self) (by omega)]
        have others := ih (fun other mem => whole other (List.mem_cons_of_mem _ mem))
          (packet ++ field.bytes) (by rw [List.length_append]; omega)
        simpa [List.append_assoc] using others
  simpa [pushFields] using pushed [] (by simpa using short)

namespace Argument

def shape : Argument → Shape
  | .dword _ => .dword
  | .qword _ => .qword
  | .text _ => .text
  | .handle _ => .handle
  | .handles _ => .handles

def bytes : Argument → List UInt8
  | .dword value => bigEndian 4 value
  | .qword value => bigEndian 8 value
  | .text content => bigEndian 4 content.length ++ content
  | .handle value => bigEndian 4 4 ++ bigEndian 4 value
  | .handles values => bigEndian 4 values.length ++ values.flatMap (bigEndian 4)

/-- The numbers have the width that they are sent in. -/
def Fits : Argument → Prop
  | .dword value | .handle value => value < 2 ^ 32
  | .qword value => value < 2 ^ 64
  | .text _ => True
  | .handles values => ∀ value ∈ values, value < 2 ^ 32

end Argument

/-! ## The server reads what was sent -/

section Reading

variable {rest : List UInt8}

theorem popDword_bigEndian {value : Nat} (fits : value < 2 ^ 32)
    (small : 4 + rest.length < 2 ^ 31) :
    strPopDword (bigEndian 4 value ++ rest) .bigEndian = some (value, rest) := by
  have popped := strPopWord_encode .bigEndian value small
  rw [Nat.mod_eq_of_lt (by omega)] at popped
  exact popped

theorem popQword_bigEndian {value : Nat} (fits : value < 2 ^ 64)
    (small : 8 + rest.length < 2 ^ 31) :
    strPopQword (bigEndian 8 value ++ rest) .bigEndian = some (value, rest) := by
  have popped := strPopWord_encode .bigEndian value small
  rw [Nat.mod_eq_of_lt (by omega)] at popped
  exact popped

theorem popHandles_bytes {values : List Nat} (fits : ∀ value ∈ values, value < 2 ^ 32)
    (small : 4 * values.length + rest.length < 2 ^ 31) :
    popHandles values.length (values.flatMap (bigEndian 4) ++ rest) = some (values, rest) := by
  induction values with
  | nil => rfl
  | cons value values ih =>
      have others := ih (fun other mem => fits other (List.mem_cons_of_mem _ mem))
        (by rw [List.length_cons] at small; omega)
      have tail : (values.flatMap (bigEndian 4)).length = 4 * values.length := by
        rw [List.length_flatMap]
        simp [Nat.mul_comm]
      rw [List.length_cons] at small
      rw [List.length_cons, List.flatMap_cons, List.append_assoc, popHandles,
        popDword_bigEndian (fits value List.mem_cons_self)
          (by rw [List.length_append, tail]; omega), Option.bind_some, others]
      rfl

theorem handles_length (values : List Nat) :
    (values.flatMap (bigEndian 4)).length = 4 * values.length := by
  induction values with
  | nil => rfl
  | cons value values ih =>
      rw [List.flatMap_cons, List.length_append, ih, bigEndian_length, List.length_cons]
      omega

/-- Every argument comes back. -/
theorem Argument.pop_bytes {argument : Argument} (fits : argument.Fits)
    (small : (argument.bytes ++ rest).length < 2 ^ 31) :
    argument.shape.pop (argument.bytes ++ rest) = some (argument, rest) := by
  rw [List.length_append] at small
  cases argument with
  | dword value =>
      rw [bytes, bigEndian_length] at small
      rw [shape, Shape.pop, bytes, popDword_bigEndian fits small]
      rfl
  | qword value =>
      rw [bytes, bigEndian_length] at small
      rw [shape, Shape.pop, bytes, popQword_bigEndian fits small]
      rfl
  | text content =>
      rw [bytes, List.length_append, bigEndian_length] at small
      rw [shape, Shape.pop, bytes, List.append_assoc,
        popDword_bigEndian (by omega) (by rw [List.length_append]; omega), Option.bind_some,
        strPopRaw_append content (by omega)]
      rfl
  | handle value =>
      rw [bytes, List.length_append, bigEndian_length, bigEndian_length] at small
      rw [shape, Shape.pop, bytes, List.append_assoc,
        popDword_bigEndian (by omega) (by rw [List.length_append, bigEndian_length]; omega),
        Option.bind_some, if_pos rfl, popDword_bigEndian fits (by omega)]
      rfl
  | handles values =>
      rw [bytes, List.length_append, bigEndian_length, handles_length] at small
      rw [shape, Shape.pop, bytes, List.append_assoc,
        popDword_bigEndian (by omega) (by rw [List.length_append, handles_length]; omega),
        Option.bind_some, popHandles_bytes fits (by omega)]
      rfl

theorem popAll_bytes {arguments : List Argument} (fits : ∀ argument ∈ arguments, argument.Fits)
    (small : (arguments.flatMap Argument.bytes ++ rest).length < 2 ^ 31) :
    popAll (arguments.map Argument.shape) (arguments.flatMap Argument.bytes ++ rest) =
      some (arguments, rest) := by
  induction arguments with
  | nil => rfl
  | cons argument arguments ih =>
      rw [List.flatMap_cons, List.append_assoc] at small
      have others := ih (fun other mem => fits other (List.mem_cons_of_mem _ mem))
        (by rw [List.length_append] at small; omega)
      rw [List.map_cons, List.flatMap_cons, List.append_assoc, popAll,
        Argument.pop_bytes (fits argument List.mem_cons_self) small, Option.bind_some, others]
      rfl

end Reading

/-! ## Requests on the wire -/

namespace Operation

/-- The bytes that follow the size and the type. -/
def payload (id : UInt32) (operation : Operation) : List UInt8 :=
  ((operation.idField id).elim [] (bigEndian 4)) ++
    operation.arguments.flatMap Argument.bytes

/-- The packet of an operation. -/
def bytes (id : UInt32) (operation : Operation) : List UInt8 :=
  bigEndian 4 (1 + (operation.payload id).length) ++ operation.type :: operation.payload id

theorem bytes_length (id : UInt32) (operation : Operation) :
    (operation.bytes id).length = 5 + (operation.payload id).length := by
  rw [bytes, List.length_append, List.length_cons, bigEndian_length]
  omega

theorem toU32_handle {handle : Int} (fits : 0 ≤ handle ∧ handle < 2 ^ 32) :
    toU32 handle = handle.toNat := by
  simp only [toU32]
  omega

/-- The detour over a signed word changes nothing. -/
theorem toU32_toI32 (value : Int) : toU32 (toI32 value) = toU32 value := by
  simp only [toU32, toI32]
  omega

theorem arguments_fit {operation : Operation} (fits : operation.Fits) :
    ∀ argument ∈ operation.arguments, argument.Fits := by
  have dword : ∀ value : UInt32, (Argument.dword value.toNat).Fits := fun value => value.toNat_lt
  have qword : ∀ value : UInt64, (Argument.qword value.toNat).Fits := fun value => value.toNat_lt
  have handle : ∀ handle : Int, 0 ≤ handle ∧ handle < 2 ^ 32 → handle.toNat < 2 ^ 32 := by
    intro handle fits
    omega
  have text : ∀ bytes, (Argument.text bytes).Fits := fun _ => trivial
  have zero : (Argument.dword 0).Fits := Nat.two_pow_pos 32
  have pair : ∀ {first second : Argument}, first.Fits → second.Fits →
      ∀ argument ∈ [first, second], argument.Fits := fun first second =>
    List.forall_mem_cons.mpr ⟨first, List.forall_mem_singleton.mpr second⟩
  cases operation with
  | connect => exact List.forall_mem_singleton.mpr (by decide : filexferVersion < 2 ^ 32)
  | «open» path mode => exact List.forall_mem_cons.mpr ⟨text _, pair (dword _) zero⟩
  | opendir path | stat path | remove path | rmdir path => exact List.forall_mem_singleton.mpr (text _)
  | statvfs path | rename path1 path2 => exact pair (text _) (text _)
  | mkdir path => exact pair (text _) zero
  | createfile path access shared create flags =>
      exact List.forall_mem_cons.mpr ⟨text _, List.forall_mem_cons.mpr ⟨dword _,
        List.forall_mem_cons.mpr ⟨dword _, pair (dword _) (dword _)⟩⟩⟩
  | close value | readdir value | resetdir value =>
      exact List.forall_mem_singleton.mpr (handle value fits)
  | read value offset pieceSize =>
      have small : pieceSize < 2 ^ 32 := by
        have := fits.2
        omega
      exact List.forall_mem_cons.mpr ⟨handle value fits.1, pair (qword _) small⟩
  | write value buffer offset pieceSize =>
      exact List.forall_mem_cons.mpr ⟨handle value fits.1, pair (qword _) (text _)⟩
  | multiclose handles =>
      intro argument mem
      rw [arguments, List.mem_singleton] at mem
      subst mem
      intro value mem
      obtain ⟨source, listed, rfl⟩ := List.mem_map.mp mem
      exact handle source (fits.2.2 source listed)

/-- A request whose size field counts the bytes behind it. -/
theorem packet_of_fields {operation : Operation} {id : UInt32} {size : Nat}
    {fields : List Field} (counted : size = 1 + (operation.payload id).length)
    (whole : ∀ field ∈ fields, field.Whole)
    (same : fields.flatMap Field.bytes = operation.type :: operation.payload id)
    (short : size + 4 < 2 ^ 31) :
    (operation.bytes id).length < 2 ^ 31 ∧
      pushFields (.dword size :: fields) = some (operation.bytes id) := by
  have content : (Field.dword size :: fields).flatMap Field.bytes = operation.bytes id := by
    rw [List.flatMap_cons, same, Operation.bytes, Field.bytes, counted]
  have bounded : (operation.bytes id).length < 2 ^ 31 := by
    rw [bytes_length]
    omega
  refine ⟨bounded, ?_⟩
  rw [← content] at bounded ⊢
  refine pushFields_short ?_ bounded
  intro field mem
  rcases List.mem_cons.mp mem with rfl | mem
  · trivial
  · exact whole field mem

/-- A request with one path. -/
theorem pathPacket_eq_bytes {operation : Operation} {path : CString} {id : UInt32}
    (field : operation.idField id = some id.toNat)
    (arguments : operation.arguments = [.text path.bytes]) (small : path.strlen < 2 ^ 31 - 64) :
    (operation.bytes id).length < 2 ^ 31 ∧
      pathPacket operation.type id path = some (operation.bytes id) := by
  refine packet_of_fields ?_ ?_ ?_ (by omega)
  · simp [payload, field, arguments, Argument.bytes, CString.strlen]
    omega
  · simp [Field.Whole, Field.path, CString.strlen]
  · simp [payload, field, arguments, Argument.bytes, Field.bytes, Field.path, CString.strlen]

/-- A request with one handle. -/
theorem handlePacket_eq_bytes {operation : Operation} {handle : Int} {id : UInt32}
    (field : operation.idField id = some id.toNat)
    (arguments : operation.arguments = [.handle handle.toNat])
    (fits : 0 ≤ handle ∧ handle < 2 ^ 32) :
    (operation.bytes id).length < 2 ^ 31 ∧
      handlePacket operation.type id handle = some (operation.bytes id) := by
  refine packet_of_fields ?_ ?_ ?_ (by omega)
  · simp [payload, field, arguments, Argument.bytes]
  · simp [Field.Whole]
  · simp [payload, field, arguments, Argument.bytes, Field.bytes, toU32_handle fits]

theorem connect_eq_bytes (id : UInt32) :
    (connect.bytes id).length < 2 ^ 31 ∧ connectPacket = some (connect.bytes id) := by
  refine packet_of_fields ?_ ?_ ?_ (by omega)
  · simp [payload, idField, arguments, Argument.bytes]
  · simp [Field.Whole]
  · simp [payload, idField, arguments, Argument.bytes, Field.bytes, type]

theorem open_eq_bytes {path : CString} (small : path.strlen < 2 ^ 31 - 64) (mode id : UInt32) :
    ((Operation.open path mode).bytes id).length < 2 ^ 31 ∧
      openPacket id path mode false = some ((Operation.open path mode).bytes id) := by
  refine packet_of_fields ?_ ?_ ?_ ?_
  · simp [payload, idField, arguments, Argument.bytes, CString.strlen]
    omega
  · simp [Field.Whole, Field.path, CString.strlen]
  · simp [payload, idField, arguments, Argument.bytes, Field.bytes, Field.path, CString.strlen,
      type]
  · simp only [Bool.false_eq_true, if_false]
    omega

theorem opendir_eq_bytes {path : CString} (small : path.strlen < 2 ^ 31 - 64) (id : UInt32) :
    ((opendir path).bytes id).length < 2 ^ 31 ∧
      openPacket id path 0 true = some ((opendir path).bytes id) :=
  pathPacket_eq_bytes rfl rfl small

theorem multiclose_eq_bytes {handles : List Int} (small : 13 + 4 * handles.length < 2 ^ 31)
    (fits : ∀ handle ∈ handles, 0 ≤ handle ∧ handle < 2 ^ 32) (id : UInt32) :
    ((multiclose handles).bytes id).length < 2 ^ 31 ∧
      multiclosePacket id handles = some ((multiclose handles).bytes id) := by
  have words : (handles.map fun handle => Field.dword (toU32 handle)).flatMap Field.bytes =
      (handles.map Int.toNat).flatMap (bigEndian 4) := by
    rw [List.flatMap_map, List.flatMap_map]
    refine List.flatMap_congr fun handle mem => ?_
    rw [Field.bytes, toU32_handle (fits handle mem)]
  refine packet_of_fields ?_ ?_ ?_ (by omega)
  · simp only [payload, idField, arguments, Option.elim_some, List.flatMap_singleton,
      Argument.bytes, List.length_append, bigEndian_length, handles_length, List.length_map]
    omega
  · simp [Field.Whole]
  · simp [payload, idField, arguments, Argument.bytes, Field.bytes, words, type]

theorem resetdir_eq_bytes {handle : Int} (fits : 0 ≤ handle ∧ handle < 2 ^ 32) (id : UInt32) :
    ((resetdir handle).bytes id).length < 2 ^ 31 ∧
      resetdirPacket id handle = some ((resetdir handle).bytes id) := by
  refine packet_of_fields ?_ ?_ ?_ (by omega)
  · simp [payload, idField, arguments, Argument.bytes]
  · simp [Field.Whole]
  · simp [payload, idField, arguments, Argument.bytes, Field.bytes, toU32_toI32,
      toU32_handle fits, type]

theorem read_eq_bytes {handle : Int} (fits : 0 ≤ handle ∧ handle < 2 ^ 32) (offset : UInt64)
    (pieceSize : Nat) (id : UInt32) :
    ((read handle offset pieceSize).bytes id).length < 2 ^ 31 ∧
      readPacket id handle offset pieceSize = some ((read handle offset pieceSize).bytes id) := by
  refine packet_of_fields ?_ ?_ ?_ (by omega)
  · simp [payload, idField, arguments, Argument.bytes]
  · simp [Field.Whole]
  · simp [payload, idField, arguments, Argument.bytes, Field.bytes, toU32_handle fits, type]

/-- Room for the data is made at the end of the packet. -/
theorem resizeCopy_end (packet buffer : List UInt8) (pieceSize : Nat) :
    resizeCopy packet packet.length buffer pieceSize = packet ++ buffer.take pieceSize := by
  rw [resizeCopy, List.take_left, List.drop_length_add_append]
  simp

theorem write_eq_bytes {handle : Int} (fits : 0 ≤ handle ∧ handle < 2 ^ 32)
    {buffer : List UInt8} {pieceSize : Nat} (enough : pieceSize ≤ buffer.length)
    (small : pieceSize < 2 ^ 31 - 64) (offset : UInt64) (id : UInt32) :
    ((write handle buffer offset pieceSize).bytes id).length < 2 ^ 31 ∧
      writePacket id handle buffer offset pieceSize =
        some ((write handle buffer offset pieceSize).bytes id) := by
  have counted : ((write handle buffer offset pieceSize).payload id).length =
      24 + pieceSize := by
    simp [payload, idField, arguments, Argument.bytes]
    omega
  refine ⟨by rw [bytes_length, counted]; omega, ?_⟩
  generalize head : [Field.dword (25 + pieceSize), .byte fxpWrite, .dword id.toNat, .dword 4,
    .dword (toU32 handle), .qword offset.toNat, .dword pieceSize] = fields
  have position : (fields.flatMap Field.bytes).length = 29 := by
    simp [← head, Field.bytes]
  have pushed : pushFields fields = some (fields.flatMap Field.bytes) :=
    pushFields_short (by simp [← head, Field.Whole]) (by omega)
  have room := resizeCopy_end (fields.flatMap Field.bytes) buffer pieceSize
  rw [position] at room
  rw [writePacket, head, pushed, Option.map_some, room, bytes, counted, ← Nat.add_assoc, ← head]
  simp [payload, idField, arguments, type, Argument.bytes, Field.bytes, toU32_handle fits,
    Nat.min_eq_left enough]

theorem statvfs_eq_bytes {path : CString} (small : path.strlen < 2 ^ 31 - 64) (id : UInt32) :
    ((statvfs path).bytes id).length < 2 ^ 31 ∧
      statvfsPacket id path = some ((statvfs path).bytes id) := by
  refine packet_of_fields ?_ ?_ ?_ ?_
  · simp [payload, idField, arguments, Argument.bytes, CString.strlen]
    omega
  · simp [Field.Whole, Field.path, CString.strlen]
  · simp [payload, idField, arguments, Argument.bytes, Field.bytes, Field.path, CString.strlen,
      type]
  · have : statvfsName.length = 19 := rfl
    omega

theorem mkdir_eq_bytes {path : CString} (small : path.strlen < 2 ^ 31 - 64) (id : UInt32) :
    ((mkdir path).bytes id).length < 2 ^ 31 ∧
      mkdirPacket id path = some ((mkdir path).bytes id) := by
  refine packet_of_fields ?_ ?_ ?_ (by omega)
  · simp [payload, idField, arguments, Argument.bytes, CString.strlen]
    omega
  · simp [Field.Whole, Field.path, CString.strlen]
  · simp [payload, idField, arguments, Argument.bytes, Field.bytes, Field.path, CString.strlen,
      type]

theorem rename_eq_bytes {path1 path2 : CString}
    (small : 17 + path1.strlen + path2.strlen < 2 ^ 31) (id : UInt32) :
    ((rename path1 path2).bytes id).length < 2 ^ 31 ∧
      renamePacket id path1 path2 = some ((rename path1 path2).bytes id) := by
  refine packet_of_fields ?_ ?_ ?_ (by omega)
  · simp [payload, idField, arguments, Argument.bytes, CString.strlen]
    omega
  · simp [Field.Whole, Field.path, CString.strlen]
  · simp [payload, idField, arguments, Argument.bytes, Field.bytes, Field.path, CString.strlen,
      type]

theorem createfile_eq_bytes {path : CString} (small : path.strlen < 2 ^ 31 - 64)
    (access shared create flags id : UInt32) :
    ((createfile path access shared create flags).bytes id).length < 2 ^ 31 ∧
      createfilePacket id path access shared create flags =
        some ((createfile path access shared create flags).bytes id) := by
  refine packet_of_fields ?_ ?_ ?_ (by omega)
  · simp [payload, idField, arguments, Argument.bytes, CString.strlen]
    omega
  · simp [Field.Whole, Field.path, CString.strlen]
  · simp [payload, idField, arguments, Argument.bytes, Field.bytes, Field.path, CString.strlen,
      type]

theorem packet_eq_bytes {operation : Operation} (fits : operation.Fits) (id : UInt32) :
    (operation.bytes id).length < 2 ^ 31 ∧ operation.packet id = some (operation.bytes id) := by
  cases operation with
  | connect => exact connect_eq_bytes id
  | «open» path mode => exact open_eq_bytes fits mode id
  | opendir path => exact opendir_eq_bytes fits id
  | close handle | readdir handle => exact handlePacket_eq_bytes rfl rfl fits
  | multiclose handles => exact multiclose_eq_bytes fits.2.1 fits.2.2 id
  | resetdir handle => exact resetdir_eq_bytes fits id
  | read handle offset pieceSize => exact read_eq_bytes fits.1 offset pieceSize id
  | write handle buffer offset pieceSize =>
      exact write_eq_bytes fits.1 fits.2.1 fits.2.2 offset id
  | stat path | remove path | rmdir path => exact pathPacket_eq_bytes rfl rfl fits
  | statvfs path => exact statvfs_eq_bytes fits id
  | mkdir path => exact mkdir_eq_bytes fits id
  | rename path1 path2 => exact rename_eq_bytes fits id
  | createfile path access shared create flags =>
      exact createfile_eq_bytes fits access shared create flags id

theorem layout_type (operation : Operation) :
    layout operation.type = some (operation.arguments.map Argument.shape) := by
  cases operation <;> rfl

/-- All requests but the first one have an id. -/
theorem idField_cases (operation : Operation) (id : UInt32) :
    operation.type = fxpInit ∧ operation.idField id = none ∨
      operation.type ≠ fxpInit ∧ operation.idField id = some id.toNat := by
  cases operation with
  | connect => exact .inl ⟨rfl, rfl⟩
  | _ => exact .inr ⟨by rw [type]; decide, rfl⟩

theorem payload_nil {operation : Operation} {id : UInt32}
    (noId : operation.idField id = none) :
    operation.payload id = operation.arguments.flatMap Argument.bytes := by
  rw [payload, noId]
  rfl

theorem payload_cons {operation : Operation} {id : UInt32}
    (hasId : operation.idField id = some id.toNat) :
    operation.payload id =
      bigEndian 4 id.toNat ++ operation.arguments.flatMap Argument.bytes := by
  rw [payload, hasId]
  rfl

theorem payload_long (operation : Operation) (id : UInt32) :
    4 ≤ (operation.payload id).length := by
  cases operation with
  | connect => exact Nat.le_refl 4
  | _ =>
      rw [payload_cons rfl, List.length_append, bigEndian_length]
      omega

/-- The server reads the request with nothing left over. -/
theorem popMessage_bytes {operation : Operation} (fits : operation.Fits) (id : UInt32) :
    popMessage (operation.bytes id) =
      some (⟨1 + (operation.payload id).length, operation.type, operation.idField id,
        operation.arguments⟩, []) := by
  have small := (packet_eq_bytes fits id).1
  rw [bytes_length] at small
  have body : (operation.arguments.flatMap Argument.bytes).length < 2 ^ 31 →
      popAll (operation.arguments.map Argument.shape)
        (operation.arguments.flatMap Argument.bytes) = some (operation.arguments, []) := by
    intro short
    have popped := popAll_bytes (arguments_fit fits) (by rwa [List.append_nil])
    rwa [List.append_nil] at popped
  rw [popMessage, bytes, popDword_bigEndian (by omega) (by rw [List.length_cons]; omega),
    Option.bind_some, strPopByte_cons _ (by omega), Option.bind_some, layout_type,
    Option.bind_some]
  rcases operation.idField_cases id with ⟨init, noId⟩ | ⟨notInit, hasId⟩
  · rw [if_pos init, payload_nil noId] at *
    rw [body (by omega), noId]
    rfl
  · rw [if_neg notInit]
    have payloadEq := payload_cons hasId
    have length := congrArg List.length payloadEq
    rw [List.length_append, bigEndian_length] at length
    rw [payloadEq, popDword_bigEndian id.toNat_lt (by omega), Option.bind_some,
      body (by omega), hasId]
    rfl

/-- The bytes of a packet at a position, read from its buffer. -/
theorem slice_packet {packet : List UInt8} {position count : Nat}
    (inside : position + count ≤ packet.length) :
    (Memory.ofList (0 : UInt8) packet).slice position count =
      (packet.drop position).take count := by
  have whole := Memory.slice_ofList (0 : UInt8) packet
  have dropped := Memory.slice_drop (Memory.ofList (0 : UInt8) packet) 0
    (by omega : position ≤ packet.length)
  rw [whole, Nat.zero_add] at dropped
  rw [dropped, Memory.slice_take _ _ (by omega)]

/-- The packet that is passed to `processPacket` has the right size field, its head
can be decoded, and the server reads the arguments with nothing left over. -/
theorem request_framed {operation : Operation} (fits : operation.Fits) (id : UInt32) :
    ∃ packet, operation.packet id = some packet ∧
      ofBigEndian (packet.take 4) = packet.length - 4 ∧
      (∃ head, decodePacketHead (Memory.ofList 0 packet) (toI32 packet.length) = some head ∧
        head.size = packet.length - 4 ∧ head.type = operation.type ∧
        ∀ number, operation.idField id = some number → head.id = number) ∧
      popMessage packet =
        some (⟨packet.length - 4, operation.type, operation.idField id,
          operation.arguments⟩, []) := by
  obtain ⟨small, built⟩ := packet_eq_bytes fits id
  have length := bytes_length id operation
  have long := operation.payload_long id
  have size : ofBigEndian ((operation.bytes id).take 4) = (operation.bytes id).length - 4 := by
    rw [length, bytes, List.take_left' (bigEndian_length 4 _), ofBigEndian_bigEndian,
      Nat.mod_eq_of_lt (by omega)]
    omega
  have signed : toI32 (operation.bytes id).length = (operation.bytes id).length :=
    toI32_of_fits (by omega) (by omega)
  refine ⟨_, built, size, ⟨_, decodePacketHead_fields (by omega), ?_, ?_, ?_⟩, ?_⟩
  · rw [slice_packet (by omega), List.drop_zero]
    exact size
  · rw [bytes]
    rfl
  · intro number hasId
    rcases operation.idField_cases id with ⟨_, noId⟩ | ⟨_, isId⟩
    · cases noId.symm.trans hasId
    · have same : id.toNat = number := Option.some.inj (isId.symm.trans hasId)
      have small : id.toNat < 256 ^ 4 := id.toNat_lt
      have tail : (operation.bytes id).drop 5 = operation.payload id := by
        rw [bytes, show 5 = (bigEndian 4 (1 + (operation.payload id).length)).length + 1 by simp,
          List.drop_length_add_append, List.drop_one, List.tail_cons]
      dsimp only
      rw [slice_packet (by omega), tail, payload_cons isId, List.take_left' (bigEndian_length 4 _),
        ofBigEndian_bigEndian, Nat.mod_eq_of_lt small, same]
  · have sizes : 1 + (operation.payload id).length = (operation.bytes id).length - 4 := by
      omega
    rw [popMessage_bytes fits id, sizes]

/-- Two bytes are written at the position 10. -/
def shortWrite : Operation := write 5 [1, 2, 3] 10 2

theorem shortWrite_framed :
    shortWrite.Fits ∧ shortWrite.arguments = [.handle 5, .qword 10, .text [1, 2]] ∧
    ∃ packet, shortWrite.packet 7 = some packet ∧
      ofBigEndian (packet.take 4) = packet.length - 4 ∧
      (∃ head, decodePacketHead (Memory.ofList 0 packet) (toI32 packet.length) = some head ∧
        head.size = packet.length - 4 ∧ head.type = shortWrite.type ∧
        ∀ number, shortWrite.idField 7 = some number → head.id = number) ∧
      popMessage packet =
        some (⟨packet.length - 4, shortWrite.type, shortWrite.idField 7,
          shortWrite.arguments⟩, []) := by
  have fits : shortWrite.Fits := by
    simp [shortWrite, Fits]
  exact ⟨fits, rfl, request_framed fits 7⟩

/-- When the last push fails, there is no packet. -/
theorem pushFields_fails {fields : List Field} {packet : List UInt8} {last : Field}
    (front : pushFields fields = some packet) (fails : last.push packet = none) :
    pushFields (fields ++ [last]) = none := by
  rw [pushFields, List.foldlM_append]
  rw [pushFields] at front
  rw [front]
  exact congrArg (fun pushed => pushed.bind some) fails

theorem rename_long {path1 path2 : CString} (short : 17 + path1.strlen < 2 ^ 31)
    (path2Short : path2.strlen < 2 ^ 31) (long : 2 ^ 31 ≤ 17 + path1.strlen + path2.strlen)
    (id : UInt32) : (rename path1 path2).packet id = none := by
  generalize head : [Field.dword (13 + path1.strlen + path2.strlen), .byte fxpRename,
    .dword id.toNat, .dword path1.strlen, .path path1, .dword path2.strlen] = fields
  have split : (rename path1 path2).packet id =
      pushFields (fields ++ [Field.raw path2.bytes (toI32 path2.bytes.length)]) := by
    rw [← head]
    rfl
  have length : (fields.flatMap Field.bytes).length = 17 + path1.strlen := by
    simp [← head, Field.bytes, Field.path, CString.strlen]
    omega
  have front : pushFields fields = some (fields.flatMap Field.bytes) :=
    pushFields_short (by simp [← head, Field.Whole, Field.path, CString.strlen]) (by omega)
  have same : path2.strlen = path2.bytes.length := rfl
  rw [split]
  refine pushFields_fails front ?_
  rw [Field.push]
  exact strPushRaw_long (by omega) (by omega) (by omega)

/-- A path of the given length. -/
def letters (count : Nat) : CString where
  bytes := List.replicate count 97
  zero_notMem := by
    intro mem
    have letter := List.eq_of_mem_replicate mem
    revert letter
    decide

theorem letters_strlen (count : Nat) : (letters count).strlen = count := List.length_replicate

/-- Two paths of `2 ^ 30` letters do not fit into one packet: the last push
overflows the length of the string. -/
theorem rename_longPath_overflows :
    (letters (2 ^ 30)).strlen < 2 ^ 31 - 64 ∧
      (rename (letters (2 ^ 30)) (letters (2 ^ 30))).packet 1 = none := by
  have strlen := letters_strlen (2 ^ 30)
  exact ⟨by omega, rename_long (by omega) (by omega) (by omega) 1⟩

end Operation

end Tegenaria.LibSftp
