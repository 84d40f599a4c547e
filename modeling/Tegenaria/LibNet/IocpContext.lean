import Tegenaria.Foundation.Transition
import Tegenaria.LibStr.Pattern

/-!
# Contexts of the completion port server

The server for Windows posts reads and sends on a socket, and its workers take the packets of those that
the system has finished.  A context has one buffer and one pair of counters for all its sends, and it is
freed by the first worker that finds the connection dropped.  Packets of one connection can be handled by
several workers, so in any order.  What the system does and what the calls return are the labels.

A send reads the buffer when the system carries it out; where the buffer has been freed before, there is
no further step.  The bytes that are received do not matter here.
-/

namespace Tegenaria.LibNet.Iocp

open Foundation LibStr

def NET_IOCP_INIT_OUTPUT_BUFFER : Nat := 128

def NET_IOCP_MAX_OUTPUT_BUFFER : Nat := 1024 * 32

/-- `outIoCtx_`: the buffer, in which allocation it is, its size, the counters, and whether `Internal` of
the overlapped structure tells that the last send is still pending. -/
structure PerIoContext where
  buffer_ : Chars
  bufferSize_ : Nat
  block : Nat
  total_ : Nat
  written_ : Nat
  pending : Bool
deriving DecidableEq

/-- A part of the buffer that was given to `WSASend`. -/
structure Send where
  block : Nat
  offset : Nat
  length : Nat
deriving DecidableEq

/-- The read of a connection: posted, finished with data, finished with none, handed to the data handler,
or not posted any more. -/
inductive Reading where
  | posted
  | arrived
  | ended
  | handling
  | idle
deriving DecidableEq

/-- A context, the sends that the system has not finished, and the packets that wait for a worker: of
sends with the number of their bytes, and of sends that have failed.  `wire` is what the other side gets,
`promised` what `NetIocpWrite` has accepted. -/
structure Connection where
  outIoCtx_ : PerIoContext
  dead_ : Bool
  reading : Reading
  sends : List Send
  completions : List Nat
  failures : Nat
  broken : Bool
  released : Bool
  misused : Bool
  wire : Chars
  promised : Chars
deriving DecidableEq

/-- What the system does, and what the workers and the data handler do. -/
inductive Label where
  /-- The read finishes with data. -/
  | arrive
  /-- The read finishes with none, or with an error. -/
  | hangUp
  /-- The first send finishes with a number of bytes. -/
  | transfer (count : Nat)
  /-- The first send fails. -/
  | abort
  /-- A worker takes the packet of the read and calls the handler. -/
  | handle
  /-- The handler calls `NetIocpWrite`, and `WSASend` posts the data or fails. -/
  | write (data : Chars) (posted : Bool)
  /-- The handler returns, and `WSARecv` posts a read or fails. -/
  | finish (posted : Bool)
  /-- A worker takes the packet of a send.  If there is a rest, `WSASend` posts it or fails. -/
  | complete (count : Nat) (posted : Bool)
  /-- A worker takes the packet of a send that has failed. -/
  | fail
  /-- A worker takes the packet of a read that has finished with nothing. -/
  | close
deriving DecidableEq

/-- What `malloc` and `memcpy` of `NetIocpWrite` leave. -/
def PerIoContext.store (out : PerIoContext) (data : Chars) : PerIoContext :=
  if out.bufferSize_ < data.length then
    { out with
      buffer_ := data
      bufferSize_ := data.length
      block := out.block + 1
      total_ := data.length
      written_ := 0 }
  else { out with buffer_ := data ++ out.buffer_.drop data.length, total_ := data.length, written_ := 0 }

/-- `NetIocpContextCreate`, with what `malloc` has left in the buffer. -/
def NetIocpContextCreate (cells : Vector UInt8 NET_IOCP_INIT_OUTPUT_BUFFER) : Connection where
  outIoCtx_ :=
    { buffer_ := cells.toList, bufferSize_ := NET_IOCP_INIT_OUTPUT_BUFFER, block := 0, total_ := 0, written_ := 0
      pending := false }
  dead_ := false
  reading := .posted
  sends := []
  completions := []
  failures := 0
  broken := false
  released := false
  misused := false
  wire := []
  promised := []

/-- A new buffer that happens to be cleared. -/
def cleared : Vector UInt8 NET_IOCP_INIT_OUTPUT_BUFFER := .replicate _ 0

namespace Connection

/-- `WSASend` for a part of the buffer. -/
def post (c : Connection) (offset length : Nat) : Connection :=
  { c with
    outIoCtx_ := { c.outIoCtx_ with pending := true }
    sends := c.sends ++ [⟨c.outIoCtx_.block, offset, length⟩] }

/-- `NetIocpContextDestroy`.  Closing the socket makes the system fail what is posted on it. -/
def NetIocpContextDestroy (c : Connection) : Connection :=
  { c with
    outIoCtx_ := { c.outIoCtx_ with pending := false }
    reading := if c.reading = .posted then .ended else c.reading
    sends := []
    failures := c.failures + c.sends.length
    broken := true
    released := true }

/-- `NetIocpWrite`, with the result, as soon as the last send is not pending. -/
def NetIocpWrite (c : Connection) (data : Chars) (posted : Bool) : Connection × Int :=
  if NET_IOCP_MAX_OUTPUT_BUFFER < data.length then (c, -1)
  else
    let c := { c with outIoCtx_ := c.outIoCtx_.store data }
    if posted then ({ c.post 0 data.length with promised := c.promised ++ data }, data.length)
    else ({ c with dead_ := true }, -1)

/-- `written_ += ioSize` -/
def advance (c : Connection) (ioSize : Nat) : Connection :=
  { c with outIoCtx_ := { c.outIoCtx_ with written_ := c.outIoCtx_.written_ + ioSize } }

/-- The case of `NetIocpWorkerLoop` for a send that was finished. -/
def writeCompleted (c : Connection) (ioSize : Nat) (posted : Bool) : Connection :=
  if ioSize = 0 then c.NetIocpContextDestroy
  else
    let c := c.advance ioSize
    if c.outIoCtx_.written_ < c.outIoCtx_.total_ then
      if posted then c.post c.outIoCtx_.written_ (c.outIoCtx_.total_ - c.outIoCtx_.written_)
      else c.NetIocpContextDestroy
    else c

/-- The end of the case of `NetIocpWorkerLoop` for a read, behind the handler. -/
def readCompleted (c : Connection) (posted : Bool) : Connection :=
  if c.dead_ then c.NetIocpContextDestroy
  else if posted then { c with reading := .posted }
  else c.NetIocpContextDestroy

/-- What is done with a context, unless it has been freed. -/
def use (c next : Connection) : Connection := if c.released then { c with misused := true } else next

def step (c : Connection) (label : Label) : Option Connection :=
  if c.misused then none
  else
    match label with
    | .arrive => if c.reading = .posted then some { c with reading := .arrived } else none
    | .hangUp => if c.reading = .posted then some { c with reading := .ended } else none
    | .transfer count =>
        match c.sends with
        | [] => none
        | send :: sends =>
            if c.broken = false ∧ count ≤ send.length ∧ (count = 0 → send.length = 0) ∧
                send.block = c.outIoCtx_.block then
              some { c with
                outIoCtx_ := { c.outIoCtx_ with pending := false }
                sends
                completions := c.completions ++ [count]
                wire := c.wire ++ (c.outIoCtx_.buffer_.drop send.offset).take count }
            else none
    | .abort =>
        match c.sends with
        | [] => none
        | _ :: sends =>
            some { c with
              outIoCtx_ := { c.outIoCtx_ with pending := false }
              sends
              failures := c.failures + 1
              broken := true }
    | .handle => if c.reading = .arrived then some (c.use { c with reading := .handling }) else none
    | .write data posted =>
        if c.reading = .handling ∧ c.outIoCtx_.pending = false then some (c.use (c.NetIocpWrite data posted).1)
        else none
    | .finish posted =>
        if c.reading = .handling then some (c.use ({ c with reading := .idle }.readCompleted posted)) else none
    | .complete count posted =>
        if count ∈ c.completions then
          some (c.use ({ c with completions := c.completions.erase count }.writeCompleted count posted))
        else none
    | .fail =>
        if c.failures = 0 then none
        else some (c.use { c with failures := c.failures - 1 }.NetIocpContextDestroy)
    | .close =>
        if c.reading = .ended then some (c.use { c with reading := .idle }.NetIocpContextDestroy) else none

end Connection

def workerLoops : Machine Connection Label where
  step := Connection.step

end Tegenaria.LibNet.Iocp
