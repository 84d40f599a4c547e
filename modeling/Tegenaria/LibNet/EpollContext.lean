import Tegenaria.Foundation.BoundedBuffer
import Tegenaria.Foundation.Outcome
import Tegenaria.Foundation.Transition
import Tegenaria.LibNet.Atoi

/-!
# Contexts of the epoll server

A worker of the epoll server serves a connection event by event.  What the socket does not take at
once is kept in a block of the context and sent when the socket is ready, and only then is the
connection read again.  The answers of the system are part of the labels.  A run ends where the code
aborts, where C leaves the behaviour open, or where a descriptor is used that was closed.
-/

namespace Tegenaria.LibNet.Epoll

open Foundation Foundation.BoundedBuffer Foundation.Outcome LibStr

/-! ## The system -/

/-- `again` stands for `EAGAIN` and `EWOULDBLOCK`. -/
inductive Errno where
  | again
  | other
deriving DecidableEq

/-- What the queue reports of a descriptor: `EPOLLIN` or `EPOLLOUT`. -/
inductive Interest where
  | input
  | output
deriving DecidableEq

inductive Stop where
  | fatal
  | undefined
  | closedFd
deriving DecidableEq

inductive Block where
  | inPlace
  | moved
  | failed
deriving DecidableEq

/-- Whether the descriptor can be removed from the queue and added again, and what `realloc` does. -/
structure Answers where
  removed : Bool
  block : Block
  added : Bool

inductive WriteResult where
  | written (count : Nat)
  | failed (errno : Errno)
deriving DecidableEq

/-- `read` tells the end of the data by no bytes. -/
inductive ReadResult where
  | data (bytes : Chars)
  | failed (errno : Errno)

/-- `write` takes no more than it was given. -/
def WriteResult.Fits (len : Nat) : WriteResult → Prop
  | .written count => count ≤ len
  | .failed _ => True

instance WriteResult.decidableFits (len : Nat) : (result : WriteResult) → Decidable (result.Fits len)
  | .written count => inferInstanceAs (Decidable (count ≤ len))
  | .failed _ => isTrue trivial

def ReadResult.Fits (len : Nat) : ReadResult → Prop
  | .data bytes => bytes.length ≤ len
  | .failed _ => True

instance ReadResult.decidableFits (len : Nat) : (result : ReadResult) → Decidable (result.Fits len)
  | .data bytes => inferInstanceAs (Decidable (bytes.length ≤ len))
  | .failed _ => isTrue trivial

/-- The cells behind the old block are those that are written next. -/
def realloc (data : Option Chars) (size : Nat) : Block → Option Chars
  | .failed => none
  | _ =>
      if size = 0 ∧ data.isSome then none
      else some ((data.getD []).take size ++ List.replicate (size - (data.getD []).length) 0)

/-- `memcpy` and `memmove` to a position of a block.  Neither may be given a null pointer. -/
def copyTo (data : Option Chars) (offset : Nat) (bytes : Chars) : Option Chars :=
  data.bind fun block => putAll block offset bytes

/-! ## The functions -/

def NET_EPOLL_SUCCESS : Int := 1
def NET_EPOLL_EOF : Int := 0
def NET_EPOLL_ERROR : Int := -1
def NET_EPOLL_WOULD_BLOCK : Int := -2
def NET_EPOLL_READBUFF : Nat := 8096

structure NetEpollContext where
  lastError_ : Int
  fd_ : Nat
  len_ : Int
  data_ : Option Chars

/-- What the worker does with the connection. -/
inductive Phase where
  | opening
  | waiting
  | reading
  | handling
  | destroyed
deriving DecidableEq

/-- A context with the worker and the descriptor.  `closed` lists the calls of `close`, `sent` is what
the socket has taken, and `accepted` is what `NetEpollWrite` has promised to send. -/
structure Connection extends NetEpollContext where
  phase : Phase
  interest : Option Interest
  errno : Errno
  closed : List Nat
  sent : Chars
  accepted : Chars

/-- The bytes a write is delayed with: those of the caller, or the block of the context itself. -/
inductive Source where
  | caller (buf : Chars)
  | context
deriving DecidableEq

/-- What is read behind the first `written` bytes once the block of the context was replaced.  The old
address of the block is valid only if it was not moved, and only as far as the new block reaches. -/
def Source.read (after : Option Chars) (block : Block) (len written : Int) : Source → Option Chars
  | .caller buf => some (buf.drop written.toNat)
  | .context =>
      if written = len then some []
      else if block ≠ .inPlace then none
      else
        after.bind fun cells =>
          if len ≤ cells.length then some ((cells.take len.toNat).drop written.toNat) else none

namespace Connection

def close (ctx : Connection) (fd : Nat) : Except Stop Connection := do
  require (fd ∉ ctx.closed) .closedFd
  return { ctx with closed := fd :: ctx.closed, interest := none }

/-- `write` -/
def write (ctx : Connection) (fd : Nat) (buf : Chars) (result : WriteResult) :
    Except Stop (Int × Connection) := do
  require (fd ∉ ctx.closed) .closedFd
  match result with
  | .written count => return (count, { ctx with sent := ctx.sent ++ buf.take count })
  | .failed errno => return (-1, { ctx with errno := errno })

end Connection

def NetEpollDelayWrite (ctx : Connection) (buf : Source) (len written : Int) (answers : Answers) :
    Except Stop Connection := do
  require (ctx.interest.isSome && answers.removed) .fatal
  let oldLen := ctx.len_
  require (oldLen ≤ 0 || oldLen + len < 2 ^ 31) .undefined
  let len_ := if oldLen > 0 then oldLen + len - written else len - written
  let offset := if oldLen > 0 then oldLen else 0
  let block := realloc ctx.data_ len_.toNat answers.block
  let bytes ← orFault .undefined (buf.read block answers.block len written)
  let stored ← orFault .undefined (copyTo block offset.toNat bytes)
  require answers.added .fatal
  return { ctx with len_, data_ := some stored, interest := some .output }

def NetEpollRead (ctx : Connection) (fd : Nat) (result : ReadResult) : Except Stop (Int × Connection) := do
  require (fd ∉ ctx.closed) .closedFd
  match result with
  | .failed .again =>
      return (NET_EPOLL_WOULD_BLOCK,
        { ctx with errno := .again, lastError_ := NET_EPOLL_WOULD_BLOCK })
  | .failed .other =>
      let ctx ← ctx.close fd
      return (NET_EPOLL_ERROR, { ctx with errno := .other, lastError_ := NET_EPOLL_ERROR })
  | .data [] =>
      let ctx ← ctx.close fd
      return (NET_EPOLL_EOF, { ctx with lastError_ := NET_EPOLL_EOF })
  | .data bytes => return (bytes.length, { ctx with lastError_ := NET_EPOLL_SUCCESS })

/-- While data is delayed, `write` is not called and `errno` is that of an earlier call. -/
def Connection.tryWrite (ctx : Connection) (fd : Nat) (buf : Chars) (result : WriteResult) :
    Except Stop (Int × Connection) :=
  if ctx.len_ = 0 then ctx.write fd buf result else return (-1, ctx)

/-- The part of `NetEpollWrite` behind the call of `write`. -/
def Connection.afterWrite (ctx : Connection) (fd : Nat) (buf : Chars) (written : Int) (answers : Answers) :
    Except Stop (Int × Connection) :=
  if written = -1 then
    match ctx.errno with
    | .again => do
        let ctx ← NetEpollDelayWrite ctx (.caller buf) buf.length 0 answers
        return (buf.length, { ctx with lastError_ := NET_EPOLL_WOULD_BLOCK })
    | .other => do
        let ctx ← ctx.close fd
        return (NET_EPOLL_ERROR, { ctx with lastError_ := NET_EPOLL_ERROR })
  else if written < buf.length then do
    let ctx ← NetEpollDelayWrite ctx (.caller buf) buf.length written answers
    return (buf.length, { ctx with lastError_ := NET_EPOLL_SUCCESS })
  else return (buf.length, { ctx with lastError_ := NET_EPOLL_SUCCESS })

def NetEpollWrite (ctx : Connection) (fd : Nat) (buf : Chars) (result : WriteResult) (answers : Answers) :
    Except Stop (Int × Connection) :=
  if ctx.fd_ ≠ fd then return (NET_EPOLL_ERROR, ctx)
  else do
    let (written, ctx) ← ctx.tryWrite fd buf result
    ctx.afterWrite fd buf written answers

/-- The part of `NetEpollWriteEvent` behind the call of `write`.  The first part of the result tells
whether the descriptor was closed. -/
def Connection.afterDelayed (ctx : Connection) (fd : Nat) (storedsize written : Int) (answers : Answers) :
    Except Stop (Int × Connection) :=
  if written = -1 then
    match ctx.errno with
    | .again => do
        let ctx ← NetEpollDelayWrite ctx .context storedsize 0 answers
        return (0, ctx)
    | .other => do
        let ctx ← ctx.close fd
        return (1, ctx)
  else if written < storedsize then do
    let ctx ← NetEpollDelayWrite ctx .context storedsize written answers
    return (0, ctx)
  else do
    let ctx := if written = storedsize then { ctx with data_ := none } else ctx
    require (ctx.interest.isSome && answers.removed) .fatal
    require answers.added .fatal
    return (0, { ctx with interest := some .input })

def NetEpollWriteEvent (ctx : Connection) (fd : Nat) (result : WriteResult) (answers : Answers) :
    Except Stop (Int × Connection) := do
  require ctx.data_.isSome .fatal
  let storedsize := ctx.len_
  require (storedsize ≠ -1) .fatal
  let ctx := { ctx with len_ := 0 }
  let (written, ctx) ← ctx.write fd ((ctx.data_.getD []).take storedsize.toNat) result
  ctx.afterDelayed fd storedsize written answers

/-! ## The worker -/

/-- What `NetEpollAccept` makes of a new descriptor; the open handler is called next. -/
def NetEpollAccept (fd : Nat) (errno : Errno) : Connection where
  lastError_ := NET_EPOLL_SUCCESS
  fd_ := fd
  len_ := 0
  data_ := none
  phase := .opening
  interest := some .input
  errno := errno
  closed := []
  sent := []
  accepted := []

/-- The events of the queue, the reads of `NetEpollReadEvent`, what a handler may do with the connection,
and anything else the thread does. -/
inductive Label where
  | hangup
  | output (result : WriteResult) (answers : Answers)
  | input
  | read (result : ReadResult)
  | handlerWrite (fd : Nat) (buf : Chars) (result : WriteResult) (answers : Answers)
  | handlerRead (len : Nat) (result : ReadResult)
  | returned
  | elsewhere (errno : Errno)

namespace Connection

def destroy (ctx : Connection) : Connection := { ctx with phase := .destroyed }

/-- The condition of the loop in `NetEpollReadEvent`, and what the slave loop does behind it. -/
def readAgain (ctx : Connection) : Connection :=
  if ctx.lastError_ = NET_EPOLL_SUCCESS then { ctx with phase := .reading }
  else if ctx.lastError_ = NET_EPOLL_EOF ∨ ctx.lastError_ = NET_EPOLL_ERROR then ctx.destroy
  else { ctx with phase := .waiting }

/-- The handlers that run have the connection in their hands. -/
def handled (ctx : Connection) : Bool := ctx.phase = .opening || ctx.phase = .handling

def serve (ctx : Connection) : Label → Except Stop Connection
  | .hangup => return (← ctx.close ctx.fd_).destroy
  | .output result answers => do
      let (ret, ctx) ← NetEpollWriteEvent ctx ctx.fd_ result answers
      return if ret ≠ 0 then ctx.destroy else ctx
  | .input => return { ctx with lastError_ := NET_EPOLL_SUCCESS, phase := .reading }
  | .read result => do
      let (readed, ctx) ← NetEpollRead ctx ctx.fd_ result
      return if readed > 0 then { ctx with phase := .handling } else ctx.readAgain
  | .handlerWrite fd buf result answers => do
      let (ret, ctx) ← NetEpollWrite ctx fd buf result answers
      return if ret = buf.length then { ctx with accepted := ctx.accepted ++ buf } else ctx
  | .handlerRead _ result => return (← NetEpollRead ctx ctx.fd_ result).2
  | .returned =>
      return if ctx.phase = .opening then { ctx with phase := .waiting } else ctx.readAgain
  | .elsewhere errno => return { ctx with errno := errno }

/-- An event is reported only of a descriptor in the queue, and only if it is asked for. -/
def Enabled (ctx : Connection) : Label → Prop
  | .hangup => ctx.phase = .waiting ∧ ctx.interest ≠ none
  | .output result _ =>
      ctx.phase = .waiting ∧ ctx.interest = some .output ∧ result.Fits ctx.len_.toNat
  | .input => ctx.phase = .waiting ∧ ctx.interest = some .input
  | .read result => ctx.phase = .reading ∧ result.Fits NET_EPOLL_READBUFF
  | .handlerWrite _ buf result _ => ctx.handled ∧ buf.length < 2 ^ 31 ∧ result.Fits buf.length
  | .handlerRead len result => ctx.handled ∧ result.Fits len
  | .returned => ctx.handled
  | .elsewhere _ => True

instance decidableEnabled (ctx : Connection) : (label : Label) → Decidable (ctx.Enabled label)
  | .hangup => inferInstanceAs (Decidable (_ ∧ _))
  | .output _ _ => inferInstanceAs (Decidable (_ ∧ _ ∧ _))
  | .input => inferInstanceAs (Decidable (_ ∧ _))
  | .read _ => inferInstanceAs (Decidable (_ ∧ _))
  | .handlerWrite _ _ _ _ => inferInstanceAs (Decidable (_ ∧ _ ∧ _))
  | .handlerRead _ _ => inferInstanceAs (Decidable (_ ∧ _))
  | .returned => inferInstanceAs (Decidable (_ = true))
  | .elsewhere _ => isTrue trivial

end Connection

/-- `NetEpollServerSlaveLoop` as far as one connection is concerned. -/
def slaveLoop : Machine (Except Stop Connection) Label where
  step
    | .ok ctx, label => if ctx.Enabled label then some (ctx.serve label) else none
    | .error _, _ => none

/-! ## The functions one by one -/

variable {ctx next : Connection} {fd : Nat} {buf : Chars} {result : WriteResult} {answers : Answers}
  {ret : Int}

/-- The bytes that wait for the socket. -/
def Connection.pending (ctx : Connection) : Chars := ctx.data_.getD []

/-- The block of the context is as long as `len_` says. -/
def Connection.Sized (ctx : Connection) : Prop := (ctx.pending.length : Int) = ctx.len_

theorem close_eq_ok : ctx.close fd = .ok next ↔
    fd ∉ ctx.closed ∧ { ctx with closed := fd :: ctx.closed, interest := none } = next := by
  simp only [Connection.close, bind_eq_ok, require_eq_ok, decide_eq_true_eq, exists_const, pure_eq_ok]

/-- The bytes that a delayed write saves. -/
def Source.bytes (ctx : Connection) (len : Int) : Source → Chars
  | .caller buf => buf
  | .context => ctx.pending.take len.toNat

theorem realloc_eq_some {data : Option Chars} {size : Nat} {answer : Block} {cells : Chars} :
    realloc data size answer = some cells ↔
      (answer ≠ .failed ∧ (data = none ∨ size ≠ 0)) ∧
        (data.getD []).take size ++ List.replicate (size - (data.getD []).length) 0 = cells := by
  have freed : ¬(size = 0 ∧ data.isSome) ↔ data = none ∨ size ≠ 0 := by
    cases data <;> simp
  cases answer with
  | failed => exact ⟨nofun, fun ⟨⟨absurd, _⟩, _⟩ => (absurd rfl).elim⟩
  | inPlace => simp only [realloc, ite_eq_iff, reduceCtorEq, and_false, false_or, freed, Option.some.injEq,
      ne_eq, not_false_eq_true, true_and]
  | moved => simp only [realloc, ite_eq_iff, reduceCtorEq, and_false, false_or, freed, Option.some.injEq,
      ne_eq, not_false_eq_true, true_and]

theorem length_realloc {data : Option Chars} {size : Nat} {answer : Block} {cells : Chars}
    (done : realloc data size answer = some cells) : cells.length = size := by
  obtain ⟨-, rfl⟩ := Iff.mp realloc_eq_some done
  rw [List.length_append, List.length_take, List.length_replicate]
  omega

/-- A block that is made larger and filled holds the old bytes and the new ones. -/
theorem copyTo_realloc {data : Option Chars} {bytes stored : Chars} {answer : Block} :
    copyTo (realloc data ((data.getD []).length + bytes.length) answer) (data.getD []).length bytes =
        some stored ↔
      (answer ≠ .failed ∧ (data = none ∨ (data.getD []).length + bytes.length ≠ 0)) ∧
        data.getD [] ++ bytes = stored := by
  rw [copyTo, Option.bind_eq_some_iff]
  constructor
  · rintro ⟨cells, grown, filled⟩
    obtain ⟨done, rfl⟩ := Iff.mp realloc_eq_some grown
    refine ⟨done, ?_⟩
    rw [putAll_eq (Nat.le_of_eq (length_realloc grown).symm), Option.some.injEq] at filled
    rw [← filled, List.take_of_length_le (Nat.le_add_right _ _), List.take_left,
      List.drop_of_length_le (by simp), List.append_nil]
  · rintro ⟨done, rfl⟩
    have grown := Iff.mpr realloc_eq_some ⟨done, rfl⟩
    refine ⟨_, grown, ?_⟩
    rw [putAll_eq (Nat.le_of_eq (length_realloc grown).symm), List.take_of_length_le (Nat.le_add_right _ _),
      List.take_left, List.drop_of_length_le (by simp), List.append_nil]

/-- When the bytes of a caller can be delayed. -/
def CanDelay (ctx : Connection) (len written : Int) (answers : Answers) : Prop :=
  ctx.interest ≠ none ∧ answers.removed ∧ answers.added ∧ answers.block ≠ .failed ∧
    (ctx.len_ = 0 ∨ ctx.len_ + len < 2 ^ 31) ∧ (ctx.data_ = none ∨ ctx.len_ + len - written ≠ 0)

/-- The state behind a delayed write. -/
def Connection.delayed (ctx : Connection) (buf : Chars) (written : Nat) : Connection :=
  { ctx with
    len_ := ctx.len_ + buf.length - written
    data_ := some (ctx.pending ++ buf.drop written)
    interest := some .output }

/-- The bytes of a caller that the socket has not taken go behind those that wait. -/
theorem delay_caller (sized : ctx.Sized) {written : Nat} (taken : written ≤ buf.length) :
    NetEpollDelayWrite ctx (.caller buf) buf.length written answers = .ok next ↔
      CanDelay ctx buf.length written answers ∧ ctx.delayed buf written = next := by
  have offset : (if ctx.len_ > 0 then ctx.len_ else 0).toNat = ctx.pending.length := by
    rw [← sized]
    split <;> omega
  have len_ : (if ctx.len_ > 0 then ctx.len_ + buf.length - written else buf.length - written) =
      ctx.len_ + buf.length - written := by
    split
    · rfl
    · have none : ctx.len_ = 0 := by rw [← sized] at *; omega
      omega
  have size : (ctx.len_ + buf.length - written).toNat = ctx.pending.length + (buf.drop written).length := by
    rw [← sized, List.length_drop]
    omega
  have small : (ctx.len_ ≤ 0 ∨ ctx.len_ + buf.length < 2 ^ 31) ↔
      (ctx.len_ = 0 ∨ ctx.len_ + buf.length < 2 ^ 31) := by
    rw [← sized]
    omega
  have kept : ctx.len_ + buf.length - written ≠ 0 ↔
      (ctx.data_.getD []).length + (buf.drop written).length ≠ 0 := by
    rw [← sized, List.length_drop, Connection.pending]
    omega
  simp only [NetEpollDelayWrite, bind_eq_ok, require_eq_ok, orFault_eq_ok, pure_eq_ok, exists_const,
    Source.read, Option.some.injEq, exists_eq_left', Int.toNat_natCast, offset, len_, size, CanDelay,
    Connection.pending, Connection.delayed, copyTo_realloc, Bool.and_eq_true, Bool.or_eq_true,
    decide_eq_true_eq, small, kept, Option.isSome_iff_ne_none]
  constructor
  · rintro ⟨⟨registered, removed⟩, room, _, ⟨⟨done, whole⟩, rfl⟩, added, same⟩
    exact ⟨⟨registered, removed, added, done, room, whole⟩, same⟩
  · rintro ⟨⟨registered, removed, added, done, room, whole⟩, same⟩
    exact ⟨⟨registered, removed⟩, room, _, ⟨⟨done, whole⟩, rfl⟩, added, same⟩

/-- When bytes that were delayed can be delayed again: none of them was taken, and the block stays. -/
def CanDelayAgain (ctx : Connection) (written : Int) (answers : Answers) : Prop :=
  ctx.interest ≠ none ∧ answers.removed ∧ answers.added ∧ answers.block = .inPlace ∧ written = 0

/-- Behind a block that was made shorter nothing can be read. -/
theorem read_context {block bytes : Chars} {answer : Block} {written : Nat} (left : written < block.length) :
    Source.context.read (realloc (some block) (block.length - written) answer) answer block.length written =
        some bytes ↔ answer = .inPlace ∧ written = 0 ∧ block = bytes := by
  have notAll : ¬(written : Int) = block.length := by omega
  rw [Source.read, if_neg notAll]
  by_cases inPlace : answer = .inPlace
  · have shrunk : realloc (some block) (block.length - written) answer =
        some (block.take (block.length - written)) := by
      rw [realloc_eq_some, Option.getD_some, Nat.sub_eq_zero_of_le (Nat.sub_le _ _), List.replicate_zero,
        List.append_nil, inPlace]
      exact ⟨⟨nofun, .inr (by omega)⟩, rfl⟩
    have reaches : (block.length : Int) ≤ (block.take (block.length - written)).length ↔ written = 0 := by
      rw [List.length_take]
      omega
    rw [if_neg (not_not_intro inPlace), shrunk, Option.bind_some, and_iff_right inPlace]
    by_cases untouched : written = 0
    · rw [if_pos (reaches.mpr untouched), untouched, Nat.sub_zero, List.take_length]
      simp
    · rw [if_neg (mt reaches.mp untouched)]
      exact ⟨nofun, fun ⟨absurd, _⟩ => (untouched absurd).elim⟩
  · rw [if_pos inPlace]
    exact ⟨nofun, fun ⟨absurd, _⟩ => (inPlace absurd).elim⟩

theorem delay_context {block : Chars} (held : ctx.data_ = some block) (empty : ctx.len_ = 0) {written : Nat}
    (left : written < block.length) :
    NetEpollDelayWrite ctx .context block.length written answers = .ok next ↔
      CanDelayAgain ctx written answers ∧
        { ctx with len_ := block.length, interest := some .output } = next := by
  have size : ((block.length : Int) - written).toNat = block.length - written := by omega
  have copied : copyTo (realloc (some block) (block.length - 0) .inPlace) (0 : Int).toNat block =
      some block := by
    have same : realloc (some block) (block.length - 0) .inPlace = some block := by
      rw [realloc_eq_some, Option.getD_some, Nat.sub_zero, Nat.sub_self, List.take_length,
        List.replicate_zero, List.append_nil]
      exact ⟨⟨nofun, .inr (by omega)⟩, rfl⟩
    rw [same, copyTo, Option.bind_some, putAll_eq (by simp), Int.toNat_zero, List.take_zero, List.nil_append,
      Nat.zero_add, List.drop_length, List.append_nil]
  simp only [NetEpollDelayWrite, bind_eq_ok, require_eq_ok, orFault_eq_ok, pure_eq_ok, exists_const,
    empty, held, gt_iff_lt, Int.lt_irrefl, if_false, size, read_context left, Bool.and_eq_true,
    Bool.or_eq_true, decide_eq_true_eq, Option.isSome_iff_ne_none, CanDelayAgain, Int.natCast_eq_zero]
  constructor
  · rintro ⟨⟨registered, removed⟩, -, _, ⟨inPlace, rfl, rfl⟩, stored, done, added, same⟩
    rw [inPlace, copied] at done
    cases done
    exact ⟨⟨registered, removed, added, inPlace, rfl⟩, by rw [← same, Int.natCast_zero, Int.sub_zero]⟩
  · rintro ⟨⟨registered, removed, added, inPlace, rfl⟩, same⟩
    refine ⟨⟨registered, removed⟩, .inl (Int.le_refl 0), block, ⟨inPlace, rfl, rfl⟩, block, ?_, added, ?_⟩
    · rw [inPlace, copied]
    · rw [← same, Int.natCast_zero, Int.sub_zero]

/-- What a write that finds no data delayed leaves to the rest of `NetEpollWrite`. -/
theorem write_eq_ok : ctx.write fd buf result = .ok (ret, next) ↔
    fd ∉ ctx.closed ∧
      match result with
      | .written count => ret = count ∧ { ctx with sent := ctx.sent ++ buf.take count } = next
      | .failed errno => ret = -1 ∧ { ctx with errno := errno } = next := by
  cases result <;>
    simp only [Connection.write, bind_eq_ok, require_eq_ok, decide_eq_true_eq, exists_const, pure_eq_ok,
      Prod.mk.injEq, @eq_comm _ ret]

theorem afterWrite_failed (sized : ctx.Sized) :
    ctx.afterWrite fd buf (-1) answers = .ok (ret, next) ↔
      match ctx.errno with
      | .again => CanDelay ctx buf.length 0 answers ∧ ret = buf.length ∧
          { ctx.delayed buf 0 with lastError_ := NET_EPOLL_WOULD_BLOCK } = next
      | .other => fd ∉ ctx.closed ∧ ret = NET_EPOLL_ERROR ∧
          { ctx with closed := fd :: ctx.closed, interest := none, lastError_ := NET_EPOLL_ERROR } = next := by
  have delays {after : Connection} : NetEpollDelayWrite ctx (.caller buf) buf.length 0 answers = .ok after ↔
      CanDelay ctx buf.length 0 answers ∧ ctx.delayed buf 0 = after :=
    delay_caller sized (Nat.zero_le buf.length)
  rw [Connection.afterWrite, if_pos rfl]
  cases errno : ctx.errno with
  | again =>
      simp only [bind_eq_ok, delays, pure_eq_ok, Prod.mk.injEq, and_assoc, exists_and_left, exists_eq_left',
        @eq_comm _ _ ret]
  | other =>
      simp only [bind_eq_ok, close_eq_ok, pure_eq_ok, Prod.mk.injEq, and_assoc, exists_and_left,
        exists_eq_left', @eq_comm _ _ ret, errno]

theorem afterWrite_written (sized : ctx.Sized) {count : Nat} (taken : count ≤ buf.length) :
    ctx.afterWrite fd buf count answers = .ok (ret, next) ↔
      (count < buf.length → CanDelay ctx buf.length count answers) ∧ ret = buf.length ∧
        { (if count < buf.length then ctx.delayed buf count else ctx) with
          lastError_ := NET_EPOLL_SUCCESS } = next := by
  have positive : ¬(count : Int) = -1 := by omega
  rw [Connection.afterWrite, if_neg positive]
  by_cases left : count < buf.length
  · simp only [bind_eq_ok, delay_caller sized taken, pure_eq_ok, Prod.mk.injEq, and_assoc, exists_and_left,
      exists_eq_left', @eq_comm _ _ ret, Int.ofNat_lt, left, true_implies, if_true]
  · simp only [pure_eq_ok, Prod.mk.injEq, @eq_comm _ _ ret, Int.ofNat_lt, left, false_implies, true_and,
      if_false]

/-- What is saved of a delayed write goes behind what waited. -/
theorem delayed_sized (sized : ctx.Sized) {written : Nat} (taken : written ≤ buf.length) :
    (ctx.delayed buf written).Sized := by
  rw [Connection.Sized] at sized ⊢
  simp only [Connection.delayed, Connection.pending, Option.getD_some, List.length_append, List.length_drop] at *
  omega

/-- A block without bytes is released when it is delayed again. -/
theorem delay_nothing (held : ctx.data_ = some []) (empty : ctx.len_ = 0) :
    ¬NetEpollDelayWrite ctx .context 0 0 answers = .ok next := by
  have gone : realloc (some []) 0 answers.block = none := by
    cases answers.block <;> rfl
  simp [NetEpollDelayWrite, bind_eq_ok, held, empty, gone, Source.read, copyTo]

/-- Whether the descriptor can be registered anew. -/
def CanRegister (ctx : Connection) (answers : Answers) : Prop :=
  ctx.interest ≠ none ∧ answers.removed ∧ answers.added

theorem afterDelayed_failed {block : Chars} (held : ctx.data_ = some block) (empty : ctx.len_ = 0) :
    ctx.afterDelayed fd block.length (-1) answers = .ok (ret, next) ↔
      match ctx.errno with
      | .again => block ≠ [] ∧ CanDelayAgain ctx 0 answers ∧ ret = 0 ∧
          { ctx with len_ := block.length, interest := some .output } = next
      | .other => fd ∉ ctx.closed ∧ ret = 1 ∧
          { ctx with closed := fd :: ctx.closed, interest := none } = next := by
  rw [Connection.afterDelayed, if_pos rfl]
  cases errno : ctx.errno with
  | again =>
      cases block with
      | nil =>
          simp only [bind_eq_ok, List.length_nil, ne_eq, not_true_eq_false, false_and, iff_false]
          rintro ⟨after, absurd, -⟩
          exact delay_nothing held empty absurd
      | cons first rest =>
          have delays {after : Connection} : NetEpollDelayWrite ctx .context (first :: rest).length 0 answers =
              .ok after ↔ CanDelayAgain ctx 0 answers ∧
                { ctx with len_ := (first :: rest).length, interest := some .output } = after :=
            delay_context held empty (Nat.zero_lt_succ rest.length)
          simp only [bind_eq_ok, delays, pure_eq_ok, Prod.mk.injEq, and_assoc, exists_and_left,
            exists_eq_left', @eq_comm _ _ ret, ne_eq, reduceCtorEq, not_false_eq_true, true_and, errno]
  | other =>
      simp only [bind_eq_ok, close_eq_ok, pure_eq_ok, Prod.mk.injEq, and_assoc, exists_and_left,
        exists_eq_left', @eq_comm _ _ ret, errno]

theorem afterDelayed_written {block : Chars} (held : ctx.data_ = some block) (empty : ctx.len_ = 0)
    {count : Nat} (taken : count ≤ block.length) :
    ctx.afterDelayed fd block.length count answers = .ok (ret, next) ↔
      if count < block.length then
        CanDelayAgain ctx count answers ∧ ret = 0 ∧
          { ctx with len_ := block.length, interest := some .output } = next
      else CanRegister ctx answers ∧ ret = 0 ∧ { ctx with data_ := none, interest := some .input } = next := by
  have positive : ¬(count : Int) = -1 := by omega
  rw [Connection.afterDelayed, if_neg positive]
  by_cases left : count < block.length
  · simp only [bind_eq_ok, delay_context held empty left, pure_eq_ok, Prod.mk.injEq, and_assoc,
      exists_and_left, exists_eq_left', @eq_comm _ _ ret, Int.ofNat_lt, left, if_true]
  · have all : (count : Int) = block.length := by omega
    simp only [all, Int.lt_irrefl, left, if_false, if_true, bind_eq_ok, require_eq_ok, exists_const, pure_eq_ok,
      Prod.mk.injEq, @eq_comm _ _ ret, CanRegister, Bool.and_eq_true, Option.isSome_iff_ne_none, and_assoc]

/-- What becomes of the bytes that waited, by the answer of `write`. -/
def Connection.Resent (ctx : Connection) (block : Chars) (answers : Answers) (ret : Int) (next : Connection) :
    WriteResult → Prop
  | .written count =>
      if count < block.length then
        CanDelayAgain ctx count answers ∧ ret = 0 ∧ { ctx with interest := some .output } = next
      else
        CanRegister ctx answers ∧ ret = 0 ∧
          { ctx with len_ := 0, data_ := none, sent := ctx.sent ++ block, interest := some .input } = next
  | .failed .again =>
      block ≠ [] ∧ CanDelayAgain ctx 0 answers ∧ ret = 0 ∧
        { ctx with errno := .again, interest := some .output } = next
  | .failed .other =>
      ret = 1 ∧
        { ctx with
          len_ := 0, errno := .other, closed := ctx.fd_ :: ctx.closed, interest := none } = next

theorem writeEvent_eq_ok (sized : ctx.Sized) {block : Chars} (held : ctx.data_ = some block)
    (fits : result.Fits block.length) :
    NetEpollWriteEvent ctx ctx.fd_ result answers = .ok (ret, next) ↔
      ctx.fd_ ∉ ctx.closed ∧ ctx.Resent block answers ret next result := by
  obtain ⟨⟨lastError_, fd_, len_, data_⟩, phase, interest, errno, closed, sent, accepted⟩ := ctx
  obtain rfl : data_ = some block := held
  obtain rfl : (block.length : Int) = len_ := sized
  have notFailed : ¬(block.length : Int) = -1 := by omega
  simp only [NetEpollWriteEvent, bind_eq_ok, require_eq_ok, exists_const, Option.isSome_some, true_and,
    decide_eq_true_eq, ne_eq, notFailed, not_false_eq_true, Option.getD_some, Prod.exists, write_eq_ok,
    Int.toNat_natCast, List.take_length, and_assoc, exists_and_left, and_congr_right_iff]
  intro isOpen
  cases result with
  | written count =>
      have taken : count ≤ block.length := fits
      simp only [and_assoc, exists_and_left, exists_eq_left', exists_eq_left, afterDelayed_written, taken,
        Connection.Resent]
      split
      · next left =>
          simp only [CanDelayAgain, Int.natCast_eq_zero, and_assoc, and_congr_right_iff]
          intro _ _ _ _ none_taken _
          rw [none_taken, List.take_zero, List.append_nil]
      · next all =>
          rw [List.take_of_length_le (Nat.le_of_not_lt all)]
          simp only [CanRegister]
  | failed errno =>
      simp only [and_assoc, exists_and_left, exists_eq_left', exists_eq_left, afterDelayed_failed]
      cases errno with
      | again => simp only [CanDelayAgain, Connection.Resent, ne_eq]
      | other => simp only [isOpen, not_false_eq_true, true_and, Connection.Resent]

/-- What `NetEpollRead` leaves behind, by the answer of `read`. -/
def Connection.Readed (ctx : Connection) (fd : Nat) (ret : Int) (next : Connection) : ReadResult → Prop
  | .data [] =>
      ret = NET_EPOLL_EOF ∧
        { ctx with closed := fd :: ctx.closed, interest := none, lastError_ := NET_EPOLL_EOF } = next
  | .data (first :: rest) =>
      ret = (first :: rest).length ∧ { ctx with lastError_ := NET_EPOLL_SUCCESS } = next
  | .failed .again =>
      ret = NET_EPOLL_WOULD_BLOCK ∧
        { ctx with errno := .again, lastError_ := NET_EPOLL_WOULD_BLOCK } = next
  | .failed .other =>
      ret = NET_EPOLL_ERROR ∧
        { ctx with
          errno := .other, closed := fd :: ctx.closed, interest := none
          lastError_ := NET_EPOLL_ERROR } = next

theorem read_eq_ok {result : ReadResult} :
    NetEpollRead ctx fd result = .ok (ret, next) ↔ fd ∉ ctx.closed ∧ ctx.Readed fd ret next result := by
  rcases result with (_ | ⟨first, rest⟩) | (_ | _) <;>
    simp only [NetEpollRead, bind_eq_ok, require_eq_ok, decide_eq_true_eq, exists_const, close_eq_ok,
      pure_eq_ok, Prod.mk.injEq, and_assoc, exists_and_left, exists_eq_left', @eq_comm _ _ ret,
      Connection.Readed, and_self_left]

end Tegenaria.LibNet.Epoll
