import Tegenaria.LibNet.EpollContext

/-!
# Connections of the epoll server

Whatever the handlers and the socket do, the socket gets the bytes that were promised, in order.  A run
goes on exactly as long as the system answers what the code relies on.
-/

namespace Tegenaria.LibNet.Epoll

open Foundation Foundation.Outcome LibStr

variable {ctx next : Connection} {fd : Nat} {buf : Chars} {result : WriteResult} {answers : Answers}
  {ret : Int}

/-! ## What holds between the steps -/

/-- As long as the descriptor is open, all that was promised was sent or waits. -/
structure Sound (ctx : Connection) : Prop where
  sized : ctx.Sized
  delivered : ctx.closed = [] → ctx.sent ++ ctx.pending = ctx.accepted
  inOrder : ctx.sent <+: ctx.accepted
  once : ctx.closed = [] ∨ ctx.closed = [ctx.fd_]
  registered : ctx.interest ≠ none ↔ ctx.closed = []
  failed : ctx.closed ≠ [] ↔ ctx.lastError_ = NET_EPOLL_EOF ∨ ctx.lastError_ = NET_EPOLL_ERROR

theorem sound_accept (fd : Nat) (errno : Errno) : Sound (NetEpollAccept fd errno) where
  sized := rfl
  delivered _ := rfl
  inOrder := List.nil_prefix
  once := .inl rfl
  registered := ⟨fun _ => rfl, fun _ => nofun⟩
  failed := ⟨fun absurd => (absurd rfl).elim, fun absurd => by rcases absurd with same | same <;> cases same⟩

theorem mem_closed_iff (once : ctx.closed = [] ∨ ctx.closed = [ctx.fd_]) :
    ctx.fd_ ∉ ctx.closed ↔ ctx.closed = [] := by
  rcases once with isOpen | shut
  · rw [isOpen]
    exact ⟨fun _ => rfl, fun _ => List.not_mem_nil⟩
  · rw [shut]
    exact ⟨fun absurd => (absurd (List.mem_singleton.mpr rfl)).elim, nofun⟩

namespace Sound

variable {errno : Errno} {lastError_ : Int}

theorem isOpen_iff (sound : Sound ctx) : ctx.fd_ ∉ ctx.closed ↔ ctx.closed = [] := mem_closed_iff sound.once

/-- Closing loses only what waits. -/
theorem shut (sound : Sound ctx) (isOpen : ctx.closed = [])
    (why : lastError_ = NET_EPOLL_EOF ∨ lastError_ = NET_EPOLL_ERROR) :
    Sound { ctx with
      errno, lastError_, closed := ctx.fd_ :: ctx.closed, interest := none } where
  sized := sound.sized
  delivered := nofun
  inOrder := sound.inOrder
  once := .inr (by rw [isOpen])
  registered := ⟨fun absurd => (absurd rfl).elim, nofun⟩
  failed := ⟨fun _ => why, fun _ => nofun⟩

/-- A call that is not an error leaves an open descriptor as it is. -/
theorem goesOn (sound : Sound ctx) (isOpen : ctx.closed = [])
    (fine : lastError_ = NET_EPOLL_SUCCESS ∨ lastError_ = NET_EPOLL_WOULD_BLOCK) :
    Sound { ctx with errno, lastError_ } where
  sized := sound.sized
  delivered := sound.delivered
  inOrder := sound.inOrder
  once := sound.once
  registered := sound.registered
  failed := by
    refine ⟨fun absurd => (absurd isOpen).elim, fun wrong => ?_⟩
    rcases fine with rfl | rfl <;> rcases wrong with same | same <;> cases same

theorem errno_changed (sound : Sound ctx) : Sound { ctx with errno } where
  sized := sound.sized
  delivered := sound.delivered
  inOrder := sound.inOrder
  once := sound.once
  registered := sound.registered
  failed := sound.failed

theorem phase_changed (sound : Sound ctx) (phase : Phase) : Sound { ctx with phase } where
  sized := sound.sized
  delivered := sound.delivered
  inOrder := sound.inOrder
  once := sound.once
  registered := sound.registered
  failed := sound.failed

/-- Bytes that were promised go to the socket, or behind those that wait. -/
theorem promised (sound : Sound ctx) (isOpen : ctx.closed = []) {count : Nat} (taken : count ≤ buf.length)
    (first : ctx.pending = [] ∨ count = 0) :
    Sound { ctx.delayed buf count with
      sent := ctx.sent ++ buf.take count, accepted := ctx.accepted ++ buf } := by
  have all : ctx.sent ++ buf.take count ++ (ctx.pending ++ buf.drop count) = ctx.accepted ++ buf := by
    rw [← sound.delivered isOpen]
    rcases first with empty | none_taken
    · rw [empty, List.nil_append, List.append_nil, List.append_assoc, List.take_append_drop]
    · rw [none_taken, List.take_zero, List.drop_zero, List.append_nil, List.append_assoc]
  exact {
    sized := delayed_sized sound.sized taken
    delivered := fun _ => all
    inOrder := ⟨_, all⟩
    once := .inl isOpen
    registered := ⟨fun _ => isOpen, fun _ => nofun⟩
    failed := sound.failed }

theorem sent_at_once (sound : Sound ctx) (isOpen : ctx.closed = []) (none : ctx.pending = []) :
    Sound { ctx with sent := ctx.sent ++ buf, accepted := ctx.accepted ++ buf } := by
  have all : ctx.sent ++ buf ++ ctx.pending = ctx.accepted ++ buf := by
    rw [← sound.delivered isOpen, none, List.append_nil, List.append_nil]
  exact {
    sized := sound.sized
    delivered := fun _ => all
    inOrder := ⟨_, all⟩
    once := sound.once
    registered := sound.registered
    failed := sound.failed }

theorem pending_eq_nil (sound : Sound ctx) (empty : ctx.len_ = 0) : ctx.pending = [] := by
  have none := sound.sized
  rw [Connection.Sized, empty, Int.natCast_eq_zero] at none
  exact List.length_eq_zero_iff.mp none

end Sound

/-- What `NetEpollWrite` can do. -/
inductive Written (ctx : Connection) (buf : Chars) (result : WriteResult) : Int → Connection → Prop where
  | mismatch : Written ctx buf result NET_EPOLL_ERROR ctx
  | failed (errno : Errno) (isOpen : ctx.fd_ ∉ ctx.closed) :
      Written ctx buf result NET_EPOLL_ERROR
        { ctx with
          errno, closed := ctx.fd_ :: ctx.closed, interest := none, lastError_ := NET_EPOLL_ERROR }
  | whole (empty : ctx.len_ = 0) (isOpen : ctx.fd_ ∉ ctx.closed) :
      Written ctx buf result buf.length
        { ctx with sent := ctx.sent ++ buf, lastError_ := NET_EPOLL_SUCCESS }
  | delayed (count : Nat) (errno : Errno) (lastError_ : Int) (taken : count ≤ buf.length)
      (first : ctx.len_ = 0 ∨ count = 0) (registered : ctx.interest ≠ none)
      (waits : (ctx.delayed buf count).len_ ≠ 0 ∨ buf = [] ∧ result = .failed .again)
      (fine : lastError_ = NET_EPOLL_SUCCESS ∨ lastError_ = NET_EPOLL_WOULD_BLOCK) :
      Written ctx buf result buf.length
        { ctx.delayed buf count with errno, lastError_, sent := ctx.sent ++ buf.take count }

theorem written_of_ok (sized : ctx.Sized) (fits : result.Fits buf.length)
    (done : NetEpollWrite ctx fd buf result answers = .ok (ret, next)) : Written ctx buf result ret next := by
  rw [NetEpollWrite] at done
  split at done
  · cases done
    exact .mismatch
  next same =>
  obtain rfl : ctx.fd_ = fd := not_not.mp same
  obtain ⟨⟨written, middle⟩, tried, rest⟩ := bind_eq_ok.mp done
  rw [Connection.tryWrite] at tried
  split at tried
  · next empty =>
      obtain ⟨isOpen, wrote⟩ := write_eq_ok.mp tried
      cases result with
      | written count =>
          obtain ⟨rfl, rfl⟩ := wrote
          obtain ⟨possible, rfl, rfl⟩ := (afterWrite_written (by exact sized) fits).mp rest
          split
          · next left =>
              have waits : ctx.len_ + buf.length - count ≠ 0 := by omega
              exact .delayed count ctx.errno _ fits (.inl empty) (possible left).1 (.inl waits) (.inl rfl)
          · next all =>
              rw [List.take_of_length_le (Nat.le_of_not_lt all)]
              exact .whole empty isOpen
      | failed errno =>
          obtain ⟨rfl, rfl⟩ := wrote
          have after := (afterWrite_failed (by exact sized)).mp rest
          cases errno with
          | again =>
              obtain ⟨possible, rfl, rfl⟩ := after
              have waits : ctx.len_ + buf.length - (0 : Nat) ≠ 0 ∨
                  buf = [] ∧ WriteResult.failed Errno.again = .failed .again := by
                by_cases nothing : buf = []
                · exact .inr ⟨nothing, rfl⟩
                · have some_left := List.length_pos_iff.mpr nothing
                  exact .inl (by omega)
              have same : Written ctx buf (.failed .again) _ _ := .delayed 0 .again NET_EPOLL_WOULD_BLOCK
                (Nat.zero_le buf.length) (.inl empty) possible.1 waits (.inr rfl)
              rw [List.take_zero, List.append_nil] at same
              exact same
          | other =>
              obtain ⟨-, rfl, rfl⟩ := after
              exact .failed .other isOpen
  · next delayed =>
      cases tried
      have after := (afterWrite_failed sized).mp rest
      cases errno : ctx.errno with
      | again =>
          rw [errno] at after
          obtain ⟨possible, rfl, rfl⟩ := after
          have waits : ctx.len_ + buf.length - (0 : Nat) ≠ 0 := by
            rw [Connection.Sized] at sized
            omega
          have same : Written ctx buf result _ _ := .delayed 0 ctx.errno NET_EPOLL_WOULD_BLOCK
            (Nat.zero_le buf.length) (.inr rfl) possible.1 (.inl waits) (.inr rfl)
          rw [List.take_zero, List.append_nil] at same
          exact same
      | other =>
          rw [errno] at after
          obtain ⟨unused, rfl, rfl⟩ := after
          exact .failed .other unused

/-! ## Every run -/

/-- What holds in every phase.  The block of a destroyed context is released. -/
def Connection.Valid (ctx : Connection) : Prop :=
  match ctx.phase with
  | .destroyed => ctx.sent <+: ctx.accepted ∧ ctx.closed = [ctx.fd_]
  | .reading => Sound ctx ∧ ctx.closed = []
  | _ => Sound ctx

namespace Sound

theorem valid_destroy (sound : Sound ctx) (shut : ctx.closed ≠ []) : ctx.destroy.Valid :=
  ⟨sound.inOrder, sound.once.resolve_left shut⟩

theorem valid_readAgain (sound : Sound ctx) : ctx.readAgain.Valid := by
  rw [Connection.readAgain]
  split
  · next success =>
      have isOpen : ctx.closed = [] := by
        by_contra shut
        rcases sound.failed.mp shut with same | same <;> rw [success] at same <;> cases same
      exact ⟨sound.phase_changed .reading, isOpen⟩
  next =>
  split
  · next ended => exact sound.valid_destroy (sound.failed.mpr ended)
  · exact sound.phase_changed .waiting

end Sound

theorem valid_handled (held : ctx.handled) : ctx.Valid ↔ Sound ctx := by
  rcases Bool.or_eq_true_iff.mp held with opening | handling
  · rw [Connection.Valid, of_decide_eq_true opening]
  · rw [Connection.Valid, of_decide_eq_true handling]

theorem valid_waiting (phase : ctx.phase = .waiting) : ctx.Valid ↔ Sound ctx := by
  rw [Connection.Valid, phase]

theorem netEpollWrite_phase (sized : ctx.Sized) (fits : result.Fits buf.length)
    (done : NetEpollWrite ctx fd buf result answers = .ok (ret, next)) : next.phase = ctx.phase := by
  cases written_of_ok sized fits done <;> rfl

/-- The handlers' writes keep the promise. -/
theorem Sound.netEpollWrite (sound : Sound ctx) (fits : result.Fits buf.length)
    (done : NetEpollWrite ctx fd buf result answers = .ok (ret, next)) :
    Sound (if ret = buf.length then { next with accepted := next.accepted ++ buf } else next) := by
  cases written_of_ok sound.sized fits done with
  | mismatch =>
      rw [if_neg (by rw [NET_EPOLL_ERROR]; omega)]
      exact sound
  | failed errno isOpen =>
      rw [if_neg (by rw [NET_EPOLL_ERROR]; omega)]
      exact sound.shut (sound.isOpen_iff.mp isOpen) (.inr rfl)
  | whole empty isOpen =>
      rw [if_pos rfl]
      have isOpen := sound.isOpen_iff.mp isOpen
      exact (sound.sent_at_once isOpen (sound.pending_eq_nil empty)).goesOn isOpen (.inl rfl)
  | delayed count errno lastError_ taken first registered waits fine =>
      rw [if_pos rfl]
      have isOpen := sound.registered.mp registered
      exact (sound.promised isOpen taken (first.imp_left sound.pending_eq_nil)).goesOn isOpen fine

theorem Sound.netEpollRead {result : ReadResult} (sound : Sound ctx)
    (done : NetEpollRead ctx ctx.fd_ result = .ok (ret, next)) : Sound next ∧ next.phase = ctx.phase := by
  obtain ⟨unused, readed⟩ := read_eq_ok.mp done
  have isOpen := sound.isOpen_iff.mp unused
  rcases result with (_ | ⟨first, rest⟩) | (_ | _)
  · obtain ⟨-, rfl⟩ := readed
    exact ⟨sound.shut isOpen (.inl rfl), rfl⟩
  · obtain ⟨-, rfl⟩ := readed
    exact ⟨sound.goesOn isOpen (.inl rfl), rfl⟩
  · obtain ⟨-, rfl⟩ := readed
    exact ⟨sound.goesOn isOpen (.inr rfl), rfl⟩
  · obtain ⟨-, rfl⟩ := readed
    exact ⟨sound.shut isOpen (.inr rfl), rfl⟩

theorem length_block (sized : ctx.Sized) {block : Chars} (held : ctx.data_ = some block) :
    ctx.len_.toNat = block.length := by
  rw [← sized, Int.toNat_natCast, Connection.pending, held, Option.getD_some]

/-- The event of a socket that is ready finds a block, or the process ends. -/
theorem exists_block (done : NetEpollWriteEvent ctx ctx.fd_ result answers = .ok (ret, next)) :
    ∃ block, ctx.data_ = some block := by
  obtain ⟨_, present, -⟩ := bind_eq_ok.mp done
  exact Option.isSome_iff_exists.mp (require_eq_ok.mp present)

/-- Data that waited is still promised: it is sent, or it waits, or the descriptor is closed. -/
theorem Sound.netEpollWriteEvent (sound : Sound ctx) (phase : ctx.phase = .waiting)
    (fits : result.Fits ctx.len_.toNat)
    (done : NetEpollWriteEvent ctx ctx.fd_ result answers = .ok (ret, next)) :
    (if ret ≠ 0 then next.destroy else next).Valid := by
  obtain ⟨block, held⟩ := exists_block done
  rw [length_block sound.sized held] at fits
  obtain ⟨unused, resent⟩ := (writeEvent_eq_ok sound.sized held fits).mp done
  have isOpen := sound.isOpen_iff.mp unused
  have reregistered : Sound { ctx with interest := some .output } :=
    { sound with registered := ⟨fun _ => isOpen, fun _ => Option.some_ne_none _⟩ }
  rcases result with count | _ | _
  · rw [Connection.Resent] at resent
    split at resent
    · obtain ⟨-, rfl, rfl⟩ := resent
      rw [if_neg (not_not_intro rfl)]
      exact (valid_waiting (by exact phase)).mpr reregistered
    · obtain ⟨-, rfl, rfl⟩ := resent
      have all : ctx.sent ++ block = ctx.accepted := by
        rw [← sound.delivered isOpen, Connection.pending, held, Option.getD_some]
      rw [if_neg (not_not_intro rfl)]
      exact (valid_waiting (by exact phase)).mpr {
        sized := rfl
        delivered := fun _ => by rw [← all]; exact List.append_nil _
        inOrder := ⟨[], by rw [← all]; exact List.append_nil _⟩
        once := sound.once
        registered := ⟨fun _ => isOpen, fun _ => Option.some_ne_none _⟩
        failed := sound.failed }
  · obtain ⟨-, -, rfl, rfl⟩ := resent
    rw [if_neg (not_not_intro rfl)]
    exact (valid_waiting (by exact phase)).mpr reregistered.errno_changed
  · obtain ⟨rfl, rfl⟩ := resent
    rw [if_pos (by decide)]
    exact ⟨sound.inOrder, congrArg (ctx.fd_ :: ·) isOpen⟩

theorem Connection.Valid.errno_changed (valid : ctx.Valid) (errno : Errno) :
    Connection.Valid { ctx with errno } := by
  obtain ⟨_, phase, _, _, _, _, _⟩ := ctx
  cases phase with
  | destroyed => exact valid
  | reading => exact ⟨Sound.errno_changed valid.1, valid.2⟩
  | opening => exact Sound.errno_changed valid
  | waiting => exact Sound.errno_changed valid
  | handling => exact Sound.errno_changed valid

theorem serve_valid {label : Label} (valid : ctx.Valid) (enabled : ctx.Enabled label)
    (done : ctx.serve label = .ok next) : next.Valid := by
  cases label with
  | hangup =>
      obtain ⟨phase, registered⟩ := enabled
      have sound := (valid_waiting phase).mp valid
      have isOpen := sound.registered.mp registered
      obtain ⟨after, shut, same⟩ := bind_eq_ok.mp done
      obtain ⟨-, rfl⟩ := close_eq_ok.mp shut
      cases same
      exact ⟨sound.inOrder, congrArg (ctx.fd_ :: ·) isOpen⟩
  | output result answers =>
      obtain ⟨phase, -, fits⟩ := enabled
      obtain ⟨⟨ret, after⟩, sent, same⟩ := bind_eq_ok.mp done
      cases same
      exact ((valid_waiting phase).mp valid).netEpollWriteEvent phase fits sent
  | input =>
      obtain ⟨phase, registered⟩ := enabled
      have sound := (valid_waiting phase).mp valid
      have isOpen := sound.registered.mp (by rw [registered]; exact nofun)
      cases done
      have reads : Sound { ctx with lastError_ := NET_EPOLL_SUCCESS } := sound.goesOn isOpen (.inl rfl)
      exact ⟨reads.phase_changed .reading, isOpen⟩
  | read result =>
      obtain ⟨phase, fits⟩ := enabled
      have sound : Sound ctx := by
        rw [Connection.Valid, phase] at valid
        exact valid.1
      obtain ⟨⟨readed, after⟩, was_read, same⟩ := bind_eq_ok.mp done
      obtain ⟨later, -⟩ := sound.netEpollRead was_read
      cases same
      split
      · exact later.phase_changed .handling
      · exact later.valid_readAgain
  | handlerWrite fd buf result answers =>
      obtain ⟨held, -, fits⟩ := enabled
      obtain ⟨⟨ret, after⟩, wrote, same⟩ := bind_eq_ok.mp done
      have before := (valid_handled held).mp valid
      have phase := netEpollWrite_phase before.sized fits wrote
      have stays : ∀ later : Connection, later.phase = after.phase → later.handled := fun later same => by
        rw [Connection.handled, same, phase]
        exact held
      cases same
      refine (valid_handled (stays _ ?_)).mpr (before.netEpollWrite fits wrote)
      split <;> rfl
  | handlerRead len result =>
      obtain ⟨held, fits⟩ := enabled
      obtain ⟨⟨ret, after⟩, was_read, same⟩ := bind_eq_ok.mp done
      obtain ⟨sound, phase⟩ := ((valid_handled held).mp valid).netEpollRead was_read
      cases same
      refine (valid_handled ?_).mpr sound
      rw [Connection.handled, phase]
      exact held
  | returned =>
      have sound := (valid_handled enabled).mp valid
      cases done
      split
      · exact sound.phase_changed .waiting
      · exact sound.valid_readAgain
  | elsewhere errno =>
      cases done
      exact valid.errno_changed errno

theorem slaveLoop_step {label : Label} {outcome : Except Stop Connection} :
    slaveLoop.step (.ok ctx) label = some outcome ↔ ctx.Enabled label ∧ ctx.serve label = outcome := by
  rw [slaveLoop]
  simp only [Option.ite_none_right_eq_some, Option.some.injEq]

/-- A property of a connection that is still served. -/
def Serving (property : Connection → Prop) (outcome : Except Stop Connection) : Prop :=
  ∀ ctx, outcome = .ok ctx → property ctx

theorem run_serving {property : Connection → Prop}
    (preserved : ∀ ctx label next, property ctx → ctx.Enabled label → ctx.serve label = .ok next →
      property next)
    {labels : List Label} {outcome : Except Stop Connection} (initial : property ctx)
    (reached : slaveLoop.run (.ok ctx) labels = some outcome) : Serving property outcome := by
  refine Machine.run_preserves ?_ ?_ reached
  · rintro (stop | ctx) label outcome held stepped next rfl
    · cases stepped
    · obtain ⟨enabled, served⟩ := slaveLoop_step.mp stepped
      exact preserved ctx label next (held ctx rfl) enabled served
  · intro other same
    cases same
    exact initial

theorem run_valid {errno : Errno} {labels : List Label}
    (reached : slaveLoop.run (.ok (NetEpollAccept fd errno)) labels = some (.ok ctx)) : ctx.Valid :=
  have initial : (NetEpollAccept fd errno).Valid := sound_accept fd errno
  run_serving (fun _ _ _ => serve_valid) initial reached ctx rfl

theorem Connection.Valid.sound (valid : ctx.Valid) (alive : ctx.phase ≠ .destroyed) : Sound ctx := by
  rw [Connection.Valid] at valid
  split at valid
  · next gone => exact (alive gone).elim
  · exact valid.1
  · exact valid

/-- A client whose bytes are sent back, the last two of them only when the socket is ready again. -/
def echo : List Label :=
  [.returned, .input, .read (.data [10, 20, 30]),
    .handlerWrite 5 [10, 20, 30] (.written 1) ⟨true, .moved, true⟩, .returned, .read (.failed .again), .output (.written 2) ⟨true, .inPlace, true⟩]

def echoed : Connection where
  lastError_ := NET_EPOLL_WOULD_BLOCK
  fd_ := 5
  len_ := 0
  data_ := none
  phase := .waiting
  interest := some .input
  errno := .again
  closed := []
  sent := [10, 20, 30]
  accepted := [10, 20, 30]

theorem run_echo : slaveLoop.run (.ok (NetEpollAccept 5 .other)) echo = some (.ok echoed) := rfl

/-- A descriptor that was closed while nobody has the context in hand is not served any more. -/
theorem serve_abandoned {label : Label} (abandoned : ctx.phase = .waiting ∧ ctx.interest = none)
    (enabled : ctx.Enabled label) (done : ctx.serve label = .ok next) :
    next.phase = .waiting ∧ next.interest = none := by
  obtain ⟨phase, unregistered⟩ := abandoned
  have unhandled : ctx.handled = false := by rw [Connection.handled, phase]; rfl
  cases label with
  | hangup => exact (enabled.2 unregistered).elim
  | output result answers => exact absurd (unregistered.symm.trans enabled.2.1) nofun
  | input => exact absurd (unregistered.symm.trans enabled.2) nofun
  | read result => exact absurd (phase.symm.trans enabled.1) nofun
  | handlerWrite fd buf result answers => exact absurd (unhandled.symm.trans enabled.1) nofun
  | handlerRead len result => exact absurd (unhandled.symm.trans enabled.1) nofun
  | returned => exact absurd (unhandled.symm.trans enabled) nofun
  | elsewhere errno =>
      cases done
      exact ⟨phase, unregistered⟩

/-- The block exists and the descriptor is registered for output exactly while something waits. -/
def Connection.Settled (ctx : Connection) : Prop :=
  ctx.closed = [] →
    (ctx.data_ = none ↔ ctx.len_ = 0) ∧
      ctx.interest = some (if ctx.len_ = 0 then .input else .output)

/-- A write of a handler is delayed: nothing waits and the socket does not take all of it, or something
waits and the last call that failed in this thread did so because it would have blocked. -/
def Connection.Delays (ctx : Connection) (buf : Chars) (result : WriteResult) : Prop :=
  if ctx.len_ = 0 then
    match result with
    | .written count => count < buf.length
    | .failed errno => errno = .again
  else ctx.errno = .again

/-- What the system must answer and what a handler must not do. -/
@[grind =] def Connection.Safe (ctx : Connection) : Label → Prop
  | .output (.written count) answers =>
      answers.removed ∧ answers.added ∧ (count = ctx.len_ ∨ count = 0 ∧ answers.block = .inPlace)
  | .output (.failed .again) answers => answers.removed ∧ answers.added ∧ answers.block = .inPlace
  | .handlerWrite fd buf result answers =>
      ctx.fd_ = fd → ctx.closed = [] ∧
        (ctx.Delays buf result → answers.removed ∧ answers.added ∧ answers.block ≠ .failed ∧
          (ctx.len_ = 0 ∨ ctx.len_ + buf.length < 2 ^ 31))
  | .handlerRead _ _ => ctx.closed = []
  | _ => True

/-- What is delayed after a call of `write`: all of it, or what the call has left. -/
theorem canDelay_iff (sound : Sound ctx) (settled : ctx.Settled) (isOpen : ctx.closed = []) {count : Nat}
    (first : ctx.len_ = 0 ∨ count = 0) (middle : Connection) (same : middle.interest = ctx.interest ∧
      middle.len_ = ctx.len_ ∧ middle.data_ = ctx.data_) :
    CanDelay middle buf.length count answers ↔
      answers.removed ∧ answers.added ∧ answers.block ≠ .failed ∧
        (ctx.len_ = 0 ∨ ctx.len_ + buf.length < 2 ^ 31) := by
  obtain ⟨interest, len_, data_⟩ := same
  have registered : ctx.interest ≠ none := sound.registered.mpr isOpen
  have positive : 0 ≤ ctx.len_ := by
    rw [← sound.sized]
    exact Int.natCast_nonneg _
  have room : ctx.data_ = none ∨ ctx.len_ + buf.length - count ≠ 0 := by
    by_cases empty : ctx.len_ = 0
    · exact .inl ((settled isOpen).1.mpr empty)
    · have none_taken := first.resolve_left empty
      exact .inr (by omega)
  rw [CanDelay, interest, len_, data_]
  constructor
  · rintro ⟨-, removed, added, block, small, -⟩
    exact ⟨removed, added, block, small⟩
  · rintro ⟨removed, added, block, small⟩
    exact ⟨registered, removed, added, block, small, room⟩

theorem afterWrite_failed_succeeds (sized : ctx.Sized) :
    (∃ ret next, ctx.afterWrite fd buf (-1) answers = .ok (ret, next)) ↔
      match ctx.errno with
      | .again => CanDelay ctx buf.length 0 answers
      | .other => fd ∉ ctx.closed := by
  simp only [afterWrite_failed sized]
  cases ctx.errno with
  | again =>
      constructor
      · rintro ⟨_, _, possible, -⟩
        exact possible
      · exact fun possible => ⟨_, _, possible, rfl, rfl⟩
  | other =>
      constructor
      · rintro ⟨_, _, unused, -⟩
        exact unused
      · exact fun unused => ⟨_, _, unused, rfl, rfl⟩

theorem afterWrite_written_succeeds (sized : ctx.Sized) {count : Nat} (taken : count ≤ buf.length) :
    (∃ ret next, ctx.afterWrite fd buf count answers = .ok (ret, next)) ↔
      (count < buf.length → CanDelay ctx buf.length count answers) := by
  simp only [afterWrite_written sized taken]
  exact ⟨fun ⟨_, _, possible, _⟩ => possible, fun possible => ⟨_, _, possible, rfl, rfl⟩⟩

theorem netEpollWrite_succeeds (sound : Sound ctx) (settled : ctx.Settled) (fits : result.Fits buf.length) :
    (∃ value, NetEpollWrite ctx fd buf result answers = .ok value) ↔
      ctx.Safe (.handlerWrite fd buf result answers) := by
  rw [NetEpollWrite, Connection.Safe]
  split
  · next other => exact ⟨fun _ same => (other same).elim, fun _ => ⟨_, rfl⟩⟩
  next same =>
  obtain rfl : ctx.fd_ = fd := not_not.mp same
  have delays {count : Nat} (isOpen : ctx.closed = []) (first : ctx.len_ = 0 ∨ count = 0) (middle : Connection)
      (kept : middle.interest = ctx.interest ∧ middle.len_ = ctx.len_ ∧ middle.data_ = ctx.data_) :
      CanDelay middle buf.length count answers ↔ answers.removed ∧ answers.added ∧ answers.block ≠ .failed ∧
        (ctx.len_ = 0 ∨ ctx.len_ + buf.length < 2 ^ 31) :=
    canDelay_iff sound settled isOpen first middle kept
  simp only [bind_succeeds, Prod.exists, Connection.tryWrite, forall_const, Connection.Delays]
  by_cases empty : ctx.len_ = 0
  · simp only [if_pos empty, write_eq_ok, sound.isOpen_iff, and_assoc, exists_and_left, and_congr_right_iff]
    intro isOpen
    cases result with
    | written count =>
        simp only [and_assoc, exists_and_left, exists_eq_left', exists_eq_left]
        rw [afterWrite_written_succeeds (by exact sound.sized) fits]
        exact forall_congr' fun _ => delays isOpen (.inl empty) _ ⟨rfl, rfl, rfl⟩
    | failed errno =>
        simp only [and_assoc, exists_and_left, exists_eq_left', exists_eq_left]
        rw [afterWrite_failed_succeeds (by exact sound.sized)]
        cases errno with
        | again =>
            have all : CanDelay { ctx with errno := .again } buf.length (0 : Nat) answers ↔ _ :=
              delays isOpen (.inl empty) _ ⟨rfl, rfl, rfl⟩
            exact ⟨fun possible _ => all.mp possible, fun fine => all.mpr (fine rfl)⟩
        | other =>
            refine ⟨fun _ again => ?_, fun _ => sound.isOpen_iff.mpr isOpen⟩
            cases again
  · have first {ret : Int} {next : Connection} :
        (pure (-1, ctx) : Except Stop (Int × Connection)) = .ok (ret, next) ↔ -1 = ret ∧ ctx = next := by
      rw [pure_eq_ok, Prod.mk.injEq]
    simp only [if_neg empty, first, and_assoc, exists_and_left, exists_eq_left',
      afterWrite_failed_succeeds sound.sized]
    cases errno : ctx.errno with
    | again =>
        constructor
        · intro possible
          have isOpen := sound.registered.mp possible.1
          exact ⟨isOpen, fun _ => (delays isOpen (.inr rfl) ctx ⟨rfl, rfl, rfl⟩).mp possible⟩
        · rintro ⟨isOpen, fine⟩
          exact (delays isOpen (.inr rfl) ctx ⟨rfl, rfl, rfl⟩).mpr (fine rfl)
    | other =>
        refine ⟨fun unused => ⟨sound.isOpen_iff.mp unused, fun again => ?_⟩, fun fine => sound.isOpen_iff.mpr fine.1⟩
        cases again

theorem netEpollWriteEvent_succeeds (sound : Sound ctx) (settled : ctx.Settled)
    (registered : ctx.interest = some .output) (fits : result.Fits ctx.len_.toNat) :
    (∃ value, NetEpollWriteEvent ctx ctx.fd_ result answers = .ok value) ↔
      ctx.Safe (.output result answers) := by
  have isOpen := sound.registered.mp (by rw [registered]; exact Option.some_ne_none _)
  obtain ⟨present, interest⟩ := settled isOpen
  have waits : ctx.len_ ≠ 0 := by
    intro empty
    rw [registered, if_pos empty] at interest
    cases interest
  obtain ⟨block, held⟩ := Option.ne_none_iff_exists'.mp (mt present.mp waits)
  have size := length_block sound.sized held
  have length : ctx.len_ = block.length := by
    rw [← sound.sized, Connection.pending, held, Option.getD_some]
  have nonempty : block ≠ [] := by
    rintro rfl
    exact waits length
  rw [size] at fits
  have stays : ctx.interest ≠ none := sound.registered.mpr isOpen
  simp only [Prod.exists, writeEvent_eq_ok sound.sized held fits, sound.isOpen_iff, and_iff_right isOpen]
  rcases result with count | _ | _
  · have taken : count ≤ block.length := fits
    have whole : (count : Int) = ctx.len_ ↔ ¬count < block.length := by omega
    rw [Connection.Safe, whole]
    by_cases left : count < block.length
    · simp only [Connection.Resent, left, if_true, not_true_eq_false, false_or]
      constructor
      · rintro ⟨_, _, ⟨_, removed, added, inPlace, none_taken⟩, _⟩
        exact ⟨removed, added, Int.natCast_eq_zero.mp none_taken, inPlace⟩
      · rintro ⟨removed, added, rfl, inPlace⟩
        exact ⟨_, _, ⟨stays, removed, added, inPlace, rfl⟩, rfl, rfl⟩
    · simp only [Connection.Resent, left, if_false, not_false_eq_true, true_or, and_true]
      constructor
      · rintro ⟨_, _, ⟨-, removed, added⟩, -⟩
        exact ⟨removed, added⟩
      · rintro ⟨removed, added⟩
        exact ⟨_, _, ⟨stays, removed, added⟩, rfl, rfl⟩
  · constructor
    · rintro ⟨_, _, _, ⟨_, removed, added, inPlace, _⟩, _⟩
      exact ⟨removed, added, inPlace⟩
    · rintro ⟨removed, added, inPlace⟩
      exact ⟨_, _, nonempty, ⟨stays, removed, added, inPlace, rfl⟩, rfl, rfl⟩
  · exact ⟨fun _ => trivial, fun _ => ⟨_, _, rfl, rfl⟩⟩

theorem netEpollRead_succeeds {result : ReadResult} (sound : Sound ctx) :
    (∃ value, NetEpollRead ctx ctx.fd_ result = .ok value) ↔ ctx.closed = [] := by
  simp only [Prod.exists, read_eq_ok, sound.isOpen_iff, exists_and_left]
  refine ⟨fun ⟨isOpen, _⟩ => isOpen, fun isOpen => ⟨isOpen, ?_⟩⟩
  rcases result with (_ | ⟨first, rest⟩) | (_ | _) <;> exact ⟨_, _, rfl, rfl⟩

/-- The process ends, or C leaves open what it does, exactly where a step is not safe. -/
theorem serve_succeeds {label : Label} (valid : ctx.Valid) (settled : ctx.Settled)
    (enabled : ctx.Enabled label) : (∃ next, ctx.serve label = .ok next) ↔ ctx.Safe label := by
  have wrapped {Value : Type} {source : Except Stop Value} {rest : Value → Connection} :
      (∃ next, (source >>= fun value => pure (rest value)) = .ok next) ↔ ∃ value, source = .ok value := by
    simp only [bind_succeeds, pure_eq_ok, exists_eq', and_true]
  cases label with
  | hangup =>
      obtain ⟨phase, registered⟩ := enabled
      have sound := (valid_waiting phase).mp valid
      have unused := sound.isOpen_iff.mpr (sound.registered.mp registered)
      exact wrapped.trans ⟨fun _ => trivial, fun _ => ⟨_, close_eq_ok.mpr ⟨unused, rfl⟩⟩⟩
  | output result answers =>
      obtain ⟨phase, registered, fits⟩ := enabled
      exact wrapped.trans
        (netEpollWriteEvent_succeeds ((valid_waiting phase).mp valid) settled registered fits)
  | input => exact ⟨fun _ => trivial, fun _ => ⟨_, rfl⟩⟩
  | read result =>
      rw [Connection.Valid, enabled.1] at valid
      exact wrapped.trans ⟨fun _ => trivial, fun _ => (netEpollRead_succeeds valid.1).mpr valid.2⟩
  | handlerWrite fd buf result answers =>
      obtain ⟨held, -, fits⟩ := enabled
      exact wrapped.trans (netEpollWrite_succeeds ((valid_handled held).mp valid) settled fits)
  | handlerRead len result =>
      exact wrapped.trans (netEpollRead_succeeds ((valid_handled enabled.1).mp valid))
  | returned => exact ⟨fun _ => trivial, fun _ => ⟨_, rfl⟩⟩
  | elsewhere errno => exact ⟨fun _ => trivial, fun _ => ⟨_, rfl⟩⟩

/-- A write of nothing does not block. -/
def Label.Prompt : Label → Prop
  | .handlerWrite _ buf (.failed .again) _ => buf ≠ []
  | _ => True

theorem settled_readAgain : ctx.readAgain.Settled ↔ ctx.Settled := by
  rw [Connection.readAgain]
  split
  · rfl
  · split <;> rfl

theorem settled_of_shut (shut : ctx.closed ≠ []) : ctx.Settled := fun isOpen => (shut isOpen).elim

theorem netEpollRead_settled {result : ReadResult} (settled : ctx.Settled)
    (done : NetEpollRead ctx fd result = .ok (ret, next)) : next.Settled := by
  obtain ⟨-, readed⟩ := read_eq_ok.mp done
  rcases result with (_ | ⟨first, rest⟩) | (_ | _)
  · obtain ⟨-, rfl⟩ := readed
    exact settled_of_shut nofun
  · obtain ⟨-, rfl⟩ := readed
    exact settled
  · obtain ⟨-, rfl⟩ := readed
    exact settled
  · obtain ⟨-, rfl⟩ := readed
    exact settled_of_shut nofun

theorem netEpollWrite_settled (sound : Sound ctx) (settled : ctx.Settled) (fits : result.Fits buf.length)
    (prompt : (Label.handlerWrite fd buf result answers).Prompt)
    (done : NetEpollWrite ctx fd buf result answers = .ok (ret, next)) : next.Settled := by
  cases written_of_ok sound.sized fits done with
  | mismatch => exact settled
  | failed errno isOpen => exact settled_of_shut nofun
  | whole empty isOpen => exact settled
  | delayed count errno lastError_ taken first registered waits fine =>
      have later : (ctx.delayed buf count).len_ ≠ 0 := by
        rcases waits with positive | ⟨rfl, rfl⟩
        · exact positive
        · exact (prompt rfl).elim
      refine fun _ => ⟨⟨nofun, fun empty => (later empty).elim⟩, ?_⟩
      exact congrArg some (if_neg later).symm

theorem netEpollWriteEvent_settled (sound : Sound ctx) (settled : ctx.Settled)
    (registered : ctx.interest = some .output) (fits : result.Fits ctx.len_.toNat)
    (done : NetEpollWriteEvent ctx ctx.fd_ result answers = .ok (ret, next)) : next.Settled := by
  obtain ⟨block, held⟩ := exists_block done
  rw [length_block sound.sized held] at fits
  obtain ⟨-, resent⟩ := (writeEvent_eq_ok sound.sized held fits).mp done
  have same : { ctx with interest := some .output } = ctx := by rw [← registered]
  rcases result with count | _ | _
  · rw [Connection.Resent] at resent
    split at resent
    · obtain ⟨-, -, rfl⟩ := resent
      rw [same]
      exact settled
    · obtain ⟨-, -, rfl⟩ := resent
      exact fun _ => ⟨iff_of_true rfl rfl, rfl⟩
  · obtain ⟨-, -, -, rfl⟩ := resent
    rw [← same] at settled
    exact settled
  · obtain ⟨-, rfl⟩ := resent
    exact settled_of_shut (List.cons_ne_nil _ _)

theorem serve_settled {label : Label} (valid : ctx.Valid) (settled : ctx.Settled)
    (enabled : ctx.Enabled label) (prompt : label.Prompt) (done : ctx.serve label = .ok next) :
    next.Settled := by
  cases label with
  | hangup =>
      obtain ⟨after, shut, same⟩ := bind_eq_ok.mp done
      obtain ⟨-, rfl⟩ := close_eq_ok.mp shut
      cases same
      exact settled_of_shut nofun
  | output result answers =>
      obtain ⟨phase, registered, fits⟩ := enabled
      obtain ⟨⟨ret, after⟩, sent, same⟩ := bind_eq_ok.mp done
      have later := netEpollWriteEvent_settled ((valid_waiting phase).mp valid) settled registered fits sent
      cases same
      split <;> exact later
  | input =>
      cases done
      exact settled
  | read result =>
      obtain ⟨⟨readed, after⟩, was_read, same⟩ := bind_eq_ok.mp done
      have later := netEpollRead_settled settled was_read
      cases same
      split
      · exact later
      · exact settled_readAgain.mpr later
  | handlerWrite fd buf result answers =>
      obtain ⟨held, -, fits⟩ := enabled
      obtain ⟨⟨ret, after⟩, wrote, same⟩ := bind_eq_ok.mp done
      have later := netEpollWrite_settled ((valid_handled held).mp valid) settled fits prompt wrote
      cases same
      split <;> exact later
  | handlerRead len result =>
      obtain ⟨⟨ret, after⟩, was_read, same⟩ := bind_eq_ok.mp done
      cases same
      exact netEpollRead_settled settled was_read
  | returned =>
      cases done
      split
      · exact settled
      · exact settled_readAgain.mpr settled
  | elsewhere errno =>
      cases done
      exact settled

theorem stopped {stop : Stop} {labels : List Label} {outcome : Except Stop Connection}
    (reached : slaveLoop.run (.error stop) labels = some outcome) : outcome = .error stop := by
  cases labels with
  | nil =>
      cases reached
      rfl
  | cons label labels =>
      obtain ⟨_, absurd, -⟩ := Machine.run_cons_eq_some.mp reached
      cases absurd

theorem continues_iff {labels : List Label} {outcome : Except Stop Connection} (valid : ctx.Valid)
    (settled : ctx.Settled) (prompt : ∀ label ∈ labels, label.Prompt)
    (reached : slaveLoop.run (.ok ctx) labels = some outcome) :
    ((∃ final, outcome = .ok final) ↔
      slaveLoop.AllSteps (fun outcome label => Serving (·.Safe label) outcome) (.ok ctx) labels) ∧
    Serving Connection.Settled outcome := by
  induction labels generalizing ctx with
  | nil =>
      cases reached
      refine ⟨iff_of_true ⟨ctx, rfl⟩ trivial, fun other same => ?_⟩
      cases same
      exact settled
  | cons label labels ih =>
      obtain ⟨next, stepped, rest⟩ := Machine.run_cons_eq_some.mp reached
      obtain ⟨enabled, served⟩ := slaveLoop_step.mp stepped
      have safe := serve_succeeds valid settled enabled
      cases next with
      | error stop =>
          obtain rfl := stopped rest
          refine ⟨iff_of_false nofun fun all => ?_, nofun⟩
          obtain ⟨next, absurd⟩ := safe.mpr (all.1 ctx rfl)
          rw [served] at absurd
          cases absurd
      | ok next =>
          obtain ⟨goesOn, later⟩ := ih (serve_valid valid enabled served)
            (serve_settled valid settled enabled (prompt label (List.mem_cons_self ..)) served)
            (fun other among => prompt other (List.mem_cons_of_mem _ among)) rest
          have here : Serving (·.Safe label) (.ok ctx) := fun other same => by
            cases same
            exact safe.mp ⟨next, served⟩
          exact ⟨goesOn.trans ⟨fun all => .cons here stepped all, fun all => all.2 _ stepped⟩, later⟩

end Tegenaria.LibNet.Epoll
