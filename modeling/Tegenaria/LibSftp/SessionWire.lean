import Tegenaria.LibSftp.Session

/-!
# The session mutex and the outgoing stream

`processPacket` unlocks the session mutex at the end of its write loop and once
more before it returns.  Only a call that leaves from inside the write loop
executes both `lock` and one `unlock`; every other call unlocks a mutex that it
does not hold, and thereby lets a third caller in while a second one is writing.

The two parts of this module state under which steps the locks and unlocks of
every caller are balanced, and under which steps the outgoing stream consists of
whole packets.
-/

namespace Tegenaria.LibSftp

open Foundation
open Foundation.Word
open LibLock

/-- The request whose packet string must not change yet. -/
@[grind =] def Stage.unsent? : Stage → Option Job
  | .entering job | .pushing job | .pushed job | .locking job | .sending job _ => some job
  | .idle | .checking .. | .waiting _ | .leaving .. => none

/-- The caller is about to unlock the mutex before the return. -/
@[grind =] def Stage.isLeaving : Stage → Bool
  | .leaving .. => true
  | .idle | .entering _ | .pushing _ | .pushed _ | .locking _ | .sending ..
  | .checking .. | .waiting _ => false

/-- The part of its packet that a caller has written inside the loop. -/
@[grind =] def Stage.totalWritten : Stage → Nat
  | .sending _ totalWritten => totalWritten
  | .idle | .entering _ | .pushing _ | .pushed _ | .locking _
  | .checking .. | .waiting _ | .leaving .. => 0

namespace Session

variable {Caller : Type} [DecidableEq Caller]

/-- How often a caller has locked the session mutex. -/
def locks (session : Session Caller) (caller : Caller) : Nat :=
  session.history.count (.locked caller)

/-- How often a caller has unlocked the session mutex. -/
def unlocks (session : Session Caller) (caller : Caller) : Nat :=
  session.history.count (.unlocked caller)

/-- No caller unlocks without having locked, and outside of `processPacket` a
caller has unlocked as often as it has locked. -/
def Balanced (session : Session Caller) : Prop :=
  ∀ caller, session.unlocks caller ≤ session.locks caller ∧
    session.locks caller ≤ session.unlocks caller + 1 ∧
    (session.stages caller = .idle → session.locks caller = session.unlocks caller)

/-- The stream consists of packets that were passed to `processPacket`, followed
by the part of one packet that its caller is still writing. -/
def Whole (session : Session Caller) : Prop :=
  ∃ packets : List (List UInt8),
    (∀ packet ∈ packets, ∃ caller, .called caller packet ∈ session.history) ∧
    ((∃ caller job totalWritten,
        session.stages caller = .sending job totalWritten ∧
        .called caller job.request ∈ session.history ∧
        session.wire = packets.flatten ++ job.request.take totalWritten) ∨
      (∀ caller job totalWritten, session.stages caller ≠ .sending job totalWritten) ∧
        session.wire = packets.flatten)

/-! ## Balanced locks -/

/-- The unlock before the return is executed by a caller that holds the mutex. -/
def OwnUnlock (session : Session Caller) : SessionLabel Caller → Prop
  | .go caller => (session.stages caller).isLeaving → session.mutex = some caller
  | _ => True

/-- A caller that writes holds the mutex. -/
def Exclusive (session : Session Caller) : Prop :=
  ∀ caller job totalWritten, session.stages caller = .sending job totalWritten →
    session.mutex = some caller

/-- The mutex knows who has locked it. -/
structure Accounted (session : Session Caller) : Prop where
  exclusive : session.Exclusive
  holder : ∀ caller, session.mutex = some caller →
    (∃ job totalWritten, session.stages caller = .sending job totalWritten) ∨
      ∃ job exitCode, session.stages caller = .leaving job exitCode
  counts : ∀ caller, session.locks caller =
    session.unlocks caller + if session.mutex = some caller then 1 else 0

theorem Accounted.balanced {session : Session Caller} (accounted : Accounted session) :
    session.Balanced := by
  intro caller
  have counts := accounted.counts caller
  by_cases holds : session.mutex = some caller
  · rw [if_pos holds] at counts
    refine ⟨by omega, by omega, fun idle => ?_⟩
    rcases accounted.holder caller holds with ⟨job, totalWritten, there⟩ |
      ⟨job, exitCode, there⟩
    · cases idle.symm.trans there
    · cases idle.symm.trans there
  · rw [if_neg holds] at counts
    exact ⟨by omega, by omega, fun _ => counts⟩

/-! ## What a step does to the write loops -/

/-- The step leaves the session mutex, the write loops and the stream alone. -/
structure Quiet (session next : Session Caller) : Prop where
  mutex : next.mutex = session.mutex
  wire : next.wire = session.wire
  sending : ∀ caller job totalWritten,
    next.stages caller = .sending job totalWritten ↔
      session.stages caller = .sending job totalWritten
  leaving : ∀ caller job exitCode, session.stages caller = .leaving job exitCode →
    next.stages caller = .leaving job exitCode
  locks : ∀ caller, next.locks caller = session.locks caller
  unlocks : ∀ caller, next.unlocks caller = session.unlocks caller

/-- The steps of `processPacket` around its write loop; all others are quiet. -/
inductive LoopMoves (session : Session Caller) :
    SessionLabel Caller → Session Caller → Prop where
  | quiet {label : SessionLabel Caller} {next : Session Caller}
      (quiet : Quiet session next) : LoopMoves session label next
  | lock {caller : Caller} {job : Job} (at_ : session.stages caller = .locking job)
      (unlocked : session.mutex = none) :
      LoopMoves session (.go caller)
        ({ session with mutex := some caller }.record (.locked caller) |>.goto
          caller (.sending job 0))
  | write {caller : Caller} {job : Job} {totalWritten : Nat} {written : Int}
      (at_ : session.stages caller = .sending job totalWritten)
      (atMost : written ≤ job.packetSize - totalWritten) (positive : written > 0) :
      LoopMoves session (.write caller written)
        ({ session with
          wire := session.wire ++
            ((session.strings job.packet).drop totalWritten).take written.toNat }.goto
          caller (.sending job (totalWritten + written.toNat)))
  | writeFailed {caller : Caller} {job : Job} {totalWritten : Nat} {written : Int}
      (at_ : session.stages caller = .sending job totalWritten) (failed : written ≤ 0) :
      LoopMoves session (.write caller written)
        (session.goto caller (.leaving job (-1)))
  | unlock {caller : Caller} {job : Job} {totalWritten : Nat}
      (at_ : session.stages caller = .sending job totalWritten)
      (finished : ¬(totalWritten : Int) < job.packetSize) :
      LoopMoves session (.go caller)
        ({ session with mutex := none }.record (.unlocked caller) |>.goto
          caller (.checking job totalWritten))
  | leave {caller : Caller} {job : Job} {exitCode : Int}
      (at_ : session.stages caller = .leaving job exitCode) :
      LoopMoves session (.go caller)
        ({ session with mutex := none }.record (.unlocked caller) |>.record
          (.returned caller job exitCode (session.strings job.answer)) |>.goto
          caller .idle)

section Frame

variable {session next : Session Caller} {label : SessionLabel Caller}

theorem Quiet.of_stages (stages : next.stages = session.stages)
    (mutex : next.mutex = session.mutex) (wire : next.wire = session.wire)
    (locks : ∀ caller, next.locks caller = session.locks caller)
    (unlocks : ∀ caller, next.unlocks caller = session.unlocks caller) :
    Quiet session next where
  mutex
  wire
  sending caller job totalWritten := by rw [stages]
  leaving caller job exitCode there := by rw [stages, there]
  locks
  unlocks

/-- A caller moves between two stages outside of the write loop. -/
theorem Quiet.goto (quiet : Quiet session next) {caller : Caller} {stage : Stage}
    (outside : ∀ job totalWritten, next.stages caller ≠ .sending job totalWritten)
    (staying : ∀ job exitCode, next.stages caller ≠ .leaving job exitCode)
    (target : ∀ job totalWritten, stage ≠ .sending job totalWritten) :
    Quiet session (next.goto caller stage) where
  mutex := quiet.mutex
  wire := quiet.wire
  sending := by
    intro other job totalWritten
    rw [← quiet.sending, goto_stages]
    split
    case isTrue same =>
      subst same
      exact iff_of_false (target job totalWritten) (outside job totalWritten)
    case isFalse => rfl
  leaving := by
    intro other job exitCode there
    have still := quiet.leaving other job exitCode there
    have different : other ≠ caller := by
      rintro rfl
      exact staying job exitCode still
    rw [goto_stages, if_neg different, still]
  locks := quiet.locks
  unlocks := quiet.unlocks

theorem Moves.loop (moves : Moves session label next) :
    LoopMoves session label next := by
  cases moves with
  | call at_ =>
      apply LoopMoves.quiet
      apply Quiet.goto
      · refine .of_stages rfl rfl rfl (fun other => ?_) (fun other => ?_)
        · exact List.count_cons_of_ne (by simp)
        · exact List.count_cons_of_ne (by simp)
      · simp [at_]
      · simp [at_]
      · simp
  | enterPush at_ | decidePush at_ | leavePush at_ | skipSending at_ | short at_
    | enterWait at_ | skipWait at_ | leaveWait at_ =>
      apply LoopMoves.quiet
      apply Quiet.goto
      · exact .of_stages rfl rfl rfl (fun _ => rfl) (fun _ => rfl)
      · simp [at_]
      · simp [at_]
      · simp
  | push | acquire | receiveKnown | receiveUnknown | copy | signal =>
      exact .quiet (.of_stages rfl rfl rfl (fun _ => rfl) (fun _ => rfl))
  | lock at_ known unlocked => exact .lock at_ unlocked
  | write at_ unfinished atMost positive => exact .write at_ atMost positive
  | writeFailed at_ unfinished failed => exact .writeFailed at_ failed
  | unlock at_ finished => exact .unlock at_ finished
  | leave at_ => exact .leave at_

theorem Moves.history_mono (moves : Moves session label next)
    {event : SessionEvent Caller} (logged : event ∈ session.history) :
    event ∈ next.history := by
  cases moves with
  | call | lock | unlock => exact List.mem_cons_of_mem _ logged
  | leave => exact List.mem_cons_of_mem _ (List.mem_cons_of_mem _ logged)
  | _ => exact logged

/-- Writers hold the mutex, as long as a caller that leaves does not unlock it for
another one. -/
theorem Moves.exclusive (exclusive : session.Exclusive)
    (own : ∀ caller, label = .go caller → (session.stages caller).isLeaving →
      ∀ other, session.mutex = some other → other = caller)
    (moves : Moves session label next) : next.Exclusive := by
  intro other otherJob otherWritten there
  cases moves.loop with
  | quiet quiet =>
      rw [quiet.mutex]
      exact exclusive _ _ _ ((quiet.sending _ _ _).mp there)
  | @lock caller job at_ unlocked =>
      by_cases same : other = caller
      · subst same
        rfl
      · rw [goto_stages, if_neg same] at there
        exact absurd (exclusive _ _ _ there) (by simp [unlocked])
  | @write caller job totalWritten written at_ =>
      by_cases same : other = caller
      · subst same
        exact exclusive _ _ _ at_
      · rw [goto_stages, if_neg same] at there
        exact exclusive _ _ _ there
  | @writeFailed caller job totalWritten written at_ =>
      by_cases same : other = caller
      · simp [same] at there
      · rw [goto_stages, if_neg same] at there
        exact exclusive _ _ _ there
  | @unlock caller job totalWritten at_ =>
      by_cases same : other = caller
      · simp [same] at there
      · rw [goto_stages, if_neg same] at there
        have holder := (exclusive _ _ _ there).symm.trans (exclusive _ _ _ at_)
        exact absurd (Option.some.inj holder) same
  | @leave caller job exitCode at_ =>
      by_cases same : other = caller
      · simp [same] at there
      · rw [goto_stages, if_neg same] at there
        exact absurd (own caller rfl (by rw [at_]; rfl) other (exclusive _ _ _ there)) same

theorem Moves.holder (accounted : Accounted session)
    (moves : Moves session label next) :
    ∀ caller, next.mutex = some caller →
      (∃ job totalWritten, next.stages caller = .sending job totalWritten) ∨
        ∃ job exitCode, next.stages caller = .leaving job exitCode := by
  intro other held
  cases moves.loop with
  | quiet quiet =>
      rw [quiet.mutex] at held
      rcases accounted.holder other held with ⟨job, totalWritten, there⟩ |
        ⟨job, exitCode, there⟩
      · exact Or.inl ⟨job, totalWritten, (quiet.sending _ _ _).mpr there⟩
      · exact Or.inr ⟨job, exitCode, quiet.leaving _ _ _ there⟩
  | @lock caller job at_ unlocked =>
      obtain rfl : caller = other := Option.some.inj held
      exact Or.inl ⟨job, 0, by simp⟩
  | @write caller job totalWritten written at_ =>
      by_cases same : other = caller
      · exact Or.inl ⟨job, totalWritten + written.toNat, by simp [same]⟩
      · simpa [same] using accounted.holder other held
  | @writeFailed caller job totalWritten written at_ =>
      by_cases same : other = caller
      · exact Or.inr ⟨job, -1, by simp [same]⟩
      · simpa [same] using accounted.holder other held
  | unlock | leave => cases held

/-- An unlock by the caller that holds the mutex balances its lock. -/
theorem counts_unlock {caller : Caller} (accounted : Accounted session)
    (held : session.mutex = some caller) (other : Caller) :
    session.locks other = session.unlocks other + if caller = other then 1 else 0 := by
  have counts := accounted.counts other
  rw [held] at counts
  simpa using counts

theorem Moves.counts (accounted : Accounted session) (owned : OwnUnlock session label)
    (moves : Moves session label next) :
    ∀ caller, next.locks caller =
      next.unlocks caller + if next.mutex = some caller then 1 else 0 := by
  intro other
  cases moves.loop with
  | quiet quiet =>
      rw [quiet.locks, quiet.unlocks, quiet.mutex]
      exact accounted.counts other
  | @lock caller job at_ unlocked =>
      have counts := accounted.counts other
      rw [unlocked] at counts
      simp only [locks, unlocks, reduceCtorEq, if_false, add_zero, goto_history, record_history,
        List.count_cons, beq_iff_eq, SessionEvent.locked.injEq, goto_mutex, record_mutex,
        Option.some.injEq] at counts ⊢
      omega
  | write | writeFailed => exact accounted.counts other
  | @unlock caller job totalWritten at_ =>
      have counts := counts_unlock accounted (accounted.exclusive _ _ _ at_) other
      simp only [locks, unlocks, goto_history, record_history, reduceCtorEq, List.count_cons,
        beq_iff_eq, SessionEvent.unlocked.injEq, goto_mutex, record_mutex, if_false,
        add_zero] at counts ⊢
      omega
  | @leave caller job exitCode at_ =>
      have counts := counts_unlock accounted (owned (by rw [at_]; rfl)) other
      simp only [locks, unlocks, goto_history, record_history, reduceCtorEq, List.count_cons,
        beq_iff_eq, SessionEvent.unlocked.injEq, goto_mutex, record_mutex, if_false,
        add_zero] at counts ⊢
      omega

theorem Moves.accounted (accounted : Accounted session)
    (owned : OwnUnlock session label) (moves : Moves session label next) :
    Accounted next where
  exclusive := by
    refine moves.exclusive accounted.exclusive ?_
    rintro caller rfl leaving other held
    exact Option.some.inj (held.symm.trans (owned leaving))
  holder := moves.holder accounted
  counts := moves.counts accounted owned

end Frame

/-! ## Whole packets -/

/-- Steps that keep the stream whole.  Requests fit an `int` and are passed in a
string of their own, the reading thread does not store an answer in a string
that is still to be sent, a write does not fail in the middle of a packet, and
the unlock before the return does not hit another caller's lock. -/
def Undisturbed (session : Session Caller) : SessionLabel Caller → Prop
  | .call caller _ packet request _ => request.length < 2 ^ 31 ∧
      ∀ other ≠ caller, ∀ job ∈ (session.stages other).unsent?, packet ≠ job.packet
  | .go caller => (session.stages caller).isLeaving →
      session.mutex = none ∨ session.mutex = some caller
  | .write caller written => written ≤ 0 →
      (session.stages caller).totalWritten = 0
  | .read =>
      match session.requests.locals none with
      | .serveSignal _ slot => ∀ caller, ∀ job ∈ (session.stages caller).unsent?,
          (session.requests.pool.table slot).outputData ≠ some job.packet
      | _ => True
  | .receive _ => True

/-- What the callers rely on while they write. -/
structure Writing (session : Session Caller) : Prop where
  exclusive : session.Exclusive
  content : ∀ caller job, (session.stages caller).unsent? = some job →
    session.strings job.packet = job.request
  size : ∀ caller job, (session.stages caller).unsent? = some job →
    job.packetSize = job.request.length
  called : ∀ caller job, (session.stages caller).unsent? = some job →
    .called caller job.request ∈ session.history
  bounded : ∀ caller job totalWritten,
    session.stages caller = .sending job totalWritten → totalWritten ≤ job.request.length
  whole : session.Whole

section Steps

variable {session next : Session Caller} {label : SessionLabel Caller}

/-- A request is still to be sent where it was, or it was just passed. -/
theorem Moves.unsent_cases (moves : Moves session label next) {caller : Caller}
    {job : Job} (unsent : (next.stages caller).unsent? = some job) :
    (session.stages caller).unsent? = some job ∨
      ∃ stale, label = .call caller job.answer job.packet job.request stale ∧
        job.packetSize = toI32 job.request.length ∧
        next.strings job.packet = job.request ∧
        .called caller job.request ∈ next.history := by
  cases moves with
  | @call mover answer packet request stale at_ =>
      by_cases same : caller = mover
      · subst same
        simp only [goto_stages, if_true, Stage.unsent?, Option.some.injEq] at unsent
        subst unsent
        exact Or.inr ⟨stale, rfl, rfl, by simp, by simp⟩
      · exact Or.inl (by simpa [same] using unsent)
  | @enterPush mover job _ at_ | @decidePush mover job _ _ _ at_
    | @leavePush mover job _ at_ | @lock mover job at_ | @write mover job _ _ at_ =>
      left
      by_cases same : caller = mover
      · simpa [same, at_, Stage.unsent?] using unsent
      · simpa [same] using unsent
  | @skipSending mover | @writeFailed mover | @unlock mover | @short mover
    | @enterWait mover | @skipWait mover | @leaveWait mover | @leave mover =>
      left
      by_cases same : caller = mover
      · simp [same, Stage.unsent?] at unsent
      · simpa [same] using unsent
  | push | acquire | receiveKnown | receiveUnknown | copy | signal => exact Or.inl unsent

/-- Neither a call nor the reading thread changes a string that is to be sent. -/
theorem Moves.content_kept (undisturbed : Undisturbed session label)
    (moves : Moves session label next) {caller : Caller} {job : Job}
    (unsent : (session.stages caller).unsent? = some job) :
    next.strings job.packet = session.strings job.packet := by
  cases moves with
  | @call mover answer packet request stale at_ =>
      have different : caller ≠ mover := by
        rintro rfl
        simp [at_, Stage.unsent?] at unsent
      have untouched := undisturbed.2 caller different job unsent
      simp [Function.update_of_ne (Ne.symm untouched)]
  | copy at_ matched =>
      simp only [Undisturbed, matched] at undisturbed
      have untouched := undisturbed caller job unsent
      change (session.shared.answer _ _).strings job.packet = _
      rw [Shared.answer_strings, shared_pool, if_neg untouched]
      rfl
  | _ => rfl

theorem Moves.content (writing : Writing session)
    (undisturbed : Undisturbed session label) (moves : Moves session label next) :
    ∀ caller job, (next.stages caller).unsent? = some job →
      next.strings job.packet = job.request := by
  intro caller job unsent
  rcases moves.unsent_cases unsent with before | ⟨_, _, _, content, _⟩
  · exact (moves.content_kept undisturbed before).trans (writing.content caller job before)
  · exact content

theorem Moves.size (writing : Writing session)
    (undisturbed : Undisturbed session label) (moves : Moves session label next) :
    ∀ caller job, (next.stages caller).unsent? = some job →
      job.packetSize = job.request.length := by
  intro caller job unsent
  rcases moves.unsent_cases unsent with before | ⟨stale, rfl, size, _⟩
  · exact writing.size caller job before
  · have fits := undisturbed.1
    rw [size, toI32_of_fits (by omega) (by omega)]

theorem Moves.called (writing : Writing session) (moves : Moves session label next) :
    ∀ caller job, (next.stages caller).unsent? = some job →
      .called caller job.request ∈ next.history := by
  intro caller job unsent
  rcases moves.unsent_cases unsent with before | ⟨_, _, _, _, called⟩
  · exact moves.history_mono (writing.called caller job before)
  · exact called

theorem Moves.bounded (writing : Writing session) (moves : Moves session label next) :
    ∀ caller job totalWritten,
      next.stages caller = .sending job totalWritten →
        totalWritten ≤ job.request.length := by
  intro other otherJob otherWritten there
  cases moves.loop with
  | quiet quiet => exact writing.bounded _ _ _ ((quiet.sending _ _ _).mp there)
  | @lock caller job at_ unlocked =>
      by_cases same : other = caller
      · rw [goto_stages, if_pos same] at there
        cases there
        exact Nat.zero_le _
      · rw [goto_stages, if_neg same] at there
        exact writing.bounded _ _ _ there
  | @write caller job totalWritten written at_ atMost positive =>
      by_cases same : other = caller
      · have size := writing.size caller job (by rw [at_]; rfl)
        rw [goto_stages, if_pos same] at there
        cases there
        omega
      · rw [goto_stages, if_neg same] at there
        exact writing.bounded _ _ _ there
  | @writeFailed caller | @unlock caller | @leave caller =>
      by_cases same : other = caller
      · simp [same] at there
      · rw [goto_stages, if_neg same] at there
        exact writing.bounded _ _ _ there

omit [DecidableEq Caller] in
/-- A step that neither starts nor ends the writing of a packet. -/
theorem Whole.of_same {session next : Session Caller} (whole : session.Whole)
    (sending : ∀ caller job totalWritten,
      next.stages caller = .sending job totalWritten ↔
        session.stages caller = .sending job totalWritten)
    (wire : next.wire = session.wire)
    (grown : ∀ event ∈ session.history, event ∈ next.history) : next.Whole := by
  obtain ⟨packets, known, parts⟩ := whole
  refine ⟨packets, fun packet mem => ?_, ?_⟩
  · obtain ⟨caller, called⟩ := known packet mem
    exact ⟨caller, grown _ called⟩
  · rw [wire]
    rcases parts with ⟨caller, job, totalWritten, there, called, sent⟩ | ⟨nobody, sent⟩
    · exact Or.inl ⟨caller, job, totalWritten, (sending _ _ _).mpr there,
        grown _ called, sent⟩
    · refine Or.inr ⟨fun caller job totalWritten there => ?_, sent⟩
      exact nobody caller job totalWritten ((sending _ _ _).mp there)

omit [DecidableEq Caller] in
/-- While one caller writes, the stream ends in what it has written so far. -/
theorem Whole.of_sending (exclusive : session.Exclusive) (whole : session.Whole)
    {caller : Caller} {job : Job} {totalWritten : Nat}
    (there : session.stages caller = .sending job totalWritten) :
    ∃ packets : List (List UInt8),
      (∀ packet ∈ packets, ∃ caller, .called caller packet ∈ session.history) ∧
      session.wire = packets.flatten ++ job.request.take totalWritten := by
  obtain ⟨packets, known, parts⟩ := whole
  rcases parts with ⟨other, otherJob, otherWritten, otherThere, _, sent⟩ | ⟨nobody, _⟩
  · have same := (exclusive _ _ _ otherThere).symm.trans (exclusive _ _ _ there)
    cases Option.some.inj same
    cases otherThere.symm.trans there
    exact ⟨packets, known, sent⟩
  · exact absurd there (nobody _ _ _)

/-- Nobody writes once the only writer has left its loop. -/
theorem nobody_sending (exclusive : session.Exclusive) {caller : Caller} {job : Job}
    {totalWritten : Nat} (there : session.stages caller = .sending job totalWritten)
    (sending : ∀ other otherJob otherWritten, other ≠ caller →
      next.stages other = .sending otherJob otherWritten →
        session.stages other = .sending otherJob otherWritten)
    (left : ∀ otherJob otherWritten,
      next.stages caller ≠ .sending otherJob otherWritten) :
    ∀ other otherJob otherWritten,
      next.stages other ≠ .sending otherJob otherWritten := by
  intro other otherJob otherWritten otherThere
  by_cases same : other = caller
  · exact left otherJob otherWritten (same ▸ otherThere)
  · have before := sending other otherJob otherWritten same otherThere
    have holder := (exclusive _ _ _ before).symm.trans (exclusive _ _ _ there)
    exact same (Option.some.inj holder)

theorem Moves.whole (writing : Writing session)
    (undisturbed : Undisturbed session label) (moves : Moves session label next) :
    next.Whole := by
  have exclusive := writing.exclusive
  have whole := writing.whole
  cases moves.loop with
  | quiet quiet => exact whole.of_same quiet.sending quiet.wire fun _ => moves.history_mono
  | @lock caller job at_ unlocked =>
      obtain ⟨packets, known, parts⟩ := whole
      have requested := writing.called _ _ (by rw [at_]; rfl)
      rcases parts with ⟨other, _, _, there, _⟩ | ⟨_, sent⟩
      · exact absurd (exclusive _ _ _ there) (by simp [unlocked])
      · refine ⟨packets, by simpa using known, Or.inl ⟨caller, job, 0, by simp, ?_, ?_⟩⟩
        · simpa using requested
        · simpa using sent
  | @write caller job totalWritten written at_ atMost positive =>
      obtain ⟨packets, known, sent⟩ := whole.of_sending exclusive at_
      have requested := writing.called _ _ (by rw [at_]; rfl)
      have content := writing.content caller job (by rw [at_]; rfl)
      refine ⟨packets, known, Or.inl ⟨_, job, totalWritten + written.toNat, by simp,
        requested, ?_⟩⟩
      rw [List.take_add, ← List.append_assoc, ← sent, ← content]
      rfl
  | @writeFailed caller job totalWritten written at_ failed =>
      obtain ⟨packets, known, sent⟩ := whole.of_sending exclusive at_
      have nothing : totalWritten = 0 := by
        have zero := undisturbed failed
        rwa [at_] at zero
      refine ⟨packets, known, Or.inr ⟨nobody_sending exclusive at_ ?_ ?_, ?_⟩⟩
      · intro other otherJob otherWritten different there
        simpa [different] using there
      · simp
      · rw [nothing, List.take_zero, List.append_nil] at sent
        exact sent
  | @unlock caller job totalWritten at_ finished =>
      obtain ⟨packets, known, sent⟩ := whole.of_sending exclusive at_
      have requested := writing.called _ _ (by rw [at_]; rfl)
      have size := writing.size caller job (by rw [at_]; rfl)
      have bounded := writing.bounded caller job totalWritten at_
      refine ⟨packets ++ [job.request], fun packet mem => ?_,
        Or.inr ⟨nobody_sending exclusive at_ ?_ ?_, ?_⟩⟩
      · rcases List.mem_append.mp mem with earlier | last
        · obtain ⟨other, called⟩ := known packet earlier
          exact ⟨other, List.mem_cons_of_mem _ called⟩
        · rw [List.mem_singleton.mp last]
          exact ⟨caller, List.mem_cons_of_mem _ requested⟩
      · intro other otherJob otherWritten different there
        simpa [different] using there
      · simp
      · rw [List.take_of_length_le (by omega)] at sent
        simpa using sent
  | @leave caller job exitCode at_ =>
      refine whole.of_same (fun other otherJob otherWritten => ?_) rfl
        fun _ => moves.history_mono
      by_cases same : other = caller
      · simp [same, at_]
      · simp [same]

theorem Moves.writing (writing : Writing session)
    (undisturbed : Undisturbed session label) (moves : Moves session label next) :
    Writing next where
  exclusive := by
    refine moves.exclusive writing.exclusive ?_
    rintro caller rfl leaving other held
    rcases undisturbed leaving with free | own
    · cases held.symm.trans free
    · exact Option.some.inj (held.symm.trans own)
  content := moves.content writing undisturbed
  size := moves.size writing undisturbed
  called := moves.called writing
  bounded := moves.bounded writing
  whole := moves.whole writing undisturbed

end Steps

/-! ## Whole runs -/

theorem start_accounted (fdType : FdType) (size : Nat) :
    Accounted (start Caller fdType size) := by
  constructor <;> simp [start, Exclusive, locks, unlocks]

omit [DecidableEq Caller] in
theorem start_writing (fdType : FdType) (size : Nat) :
    Writing (start Caller fdType size) where
  exclusive := by simp [start, Exclusive]
  content := by simp [start, Stage.unsent?]
  size := by simp [start, Stage.unsent?]
  called := by simp [start, Stage.unsent?]
  bounded := by simp [start]
  whole := ⟨[], by simp, Or.inr ⟨by simp [start], rfl⟩⟩

/-- In every run, the locks of all callers are balanced as long as only holders
of the mutex execute the unlock before the return, and the stream is whole as
long as no step disturbs it. -/
theorem balanced_and_whole {fdType : FdType} {size : Nat}
    {labels : List (SessionLabel Caller)} {session : Session Caller}
    (reached : machine.run (start Caller fdType size) labels = some session) :
    (machine.AllSteps OwnUnlock (start Caller fdType size) labels →
      session.Balanced) ∧
    (machine.AllSteps Undisturbed (start Caller fdType size) labels →
      session.Whole) := by
  constructor
  · intro owned
    have preserved : ∀ (before : Session Caller) label after, Accounted before →
        OwnUnlock before label → machine.step before label = some after →
        Accounted after := fun _ _ _ holds obeys stepped =>
      (moves_of_step stepped).accounted holds obeys
    exact (Machine.run_invariant preserved (start_accounted fdType size) owned
      reached).balanced
  · intro undisturbed
    have preserved : ∀ (before : Session Caller) label after, Writing before →
        Undisturbed before label → machine.step before label = some after →
        Writing after := fun _ _ _ holds obeys stepped =>
      (moves_of_step stepped).writing holds obeys
    exact (Machine.run_invariant preserved (start_writing fdType size) undisturbed
      reached).whole

/-! ## Runs -/

instance ownUnlockDecidable (session : Session Caller) :
    (label : SessionLabel Caller) → Decidable (OwnUnlock session label)
  | .go caller => inferInstanceAs
      (Decidable ((session.stages caller).isLeaving → session.mutex = some caller))
  | .call .. | .write .. | .receive _ | .read => isTrue trivial

instance undisturbedDecidable [Fintype Caller] (session : Session Caller) :
    (label : SessionLabel Caller) → Decidable (Undisturbed session label)
  | .call caller _ packet request _ => inferInstanceAs
      (Decidable (request.length < 2 ^ 31 ∧
        ∀ other ≠ caller, ∀ job ∈ (session.stages other).unsent?, packet ≠ job.packet))
  | .go caller => inferInstanceAs
      (Decidable ((session.stages caller).isLeaving →
        session.mutex = none ∨ session.mutex = some caller))
  | .write caller written => inferInstanceAs
      (Decidable (written ≤ 0 → (session.stages caller).totalWritten = 0))
  | .read =>
      match matched : session.requests.locals none with
      | .serveSignal id slot => decidable_of_iff
          (∀ caller, ∀ job ∈ (session.stages caller).unsent?,
            (session.requests.pool.table slot).outputData ≠ some job.packet) <| by
          simp only [Undisturbed, matched]
      | .idle | .pushFind .. | .pushFindFree .. | .pushAssign .. | .pushUnlock ..
      | .waitSemaphore .. | .waitRelease .. => isTrue <| by
          simp only [Undisturbed, matched]
  | .receive _ => isTrue trivial

/-- One caller sends its request and waits; the write of another one fails. -/
def failedWrite : List (SessionLabel Bool) :=
  beginCall true 1 ++ ([.write true 9, .go true, .go true] : List (SessionLabel Bool)) ++
    beginCall false 2 ++ ([.write false (-1), .go false] : List (SessionLabel Bool))

theorem failedWrite_balanced_and_whole :
    ∃ session, machine.run (start Bool .socket 8) failedWrite = some session ∧
      session.Balanced ∧ session.Whole ∧ session.wire = shortRequest 1 := by
  have shown : (machine.run (start Bool .socket 8) failedWrite).map Session.wire =
      some (shortRequest 1) := by
    decide +kernel
  obtain ⟨session, reached, wire⟩ := Option.map_eq_some_iff.mp shown
  have result := balanced_and_whole reached
  exact ⟨session, reached, result.1 (by decide +kernel), result.2 (by decide +kernel), wire⟩

/-- The requests that were passed to `processPacket` so far. -/
def requested (session : Session Caller) : List (List UInt8) :=
  session.history.filterMap fun event =>
    match event with
    | .called _ request => some request
    | _ => none

omit [DecidableEq Caller] in
theorem mem_requested {session : Session Caller} {caller : Caller}
    {request : List UInt8} (called : .called caller request ∈ session.history) :
    request ∈ session.requested :=
  List.mem_filterMap.mpr ⟨_, called, rfl⟩

omit [DecidableEq Caller] in
/-- In a whole stream of packets of nine bytes, the second nine bytes are a
packet. -/
theorem Whole.second {session : Session Caller} (whole : session.Whole)
    (nobody : ∀ caller, (session.stages caller).unsent? = none)
    (nine : ∀ request ∈ session.requested, request.length = 9)
    (long : 9 < session.wire.length) :
    (session.wire.drop 9).take 9 ∈ session.requested := by
  obtain ⟨packets, known, parts⟩ := whole
  have sent : session.wire = packets.flatten := by
    rcases parts with ⟨caller, job, totalWritten, there, _⟩ | ⟨_, sent⟩
    · have quiet := nobody caller
      rw [there] at quiet
      cases quiet
    · exact sent
  have member : ∀ packet ∈ packets, packet ∈ session.requested := by
    intro packet mem
    obtain ⟨caller, called⟩ := known packet mem
    exact mem_requested called
  rcases packets with _ | ⟨first, _ | ⟨second, others⟩⟩
  · simp [sent] at long
  · have length := nine first (member first (by simp))
    simp [sent, length] at long
  · have firstNine := nine first (member first (by simp))
    have secondNine := nine second (member second (by simp))
    rw [sent, List.flatten_cons, List.flatten_cons, ← firstNine, List.drop_left, firstNine,
      ← secondNine, List.take_left]
    exact member second (by simp)

/-- Caller 0 gets its answer, and its second unlock releases the mutex that
caller 1 holds while it has written three bytes; caller 2 then writes its
request in the middle of the other one. -/
def interleaved : List (SessionLabel (Fin 3)) :=
  beginCall 0 1 ++ ([.write 0 9, .go 0, .go 0, .receive (shortAnswer 1), .read, .read,
    .go 0, .go 0] : List (SessionLabel (Fin 3))) ++
  beginCall 1 2 ++ ([.write 1 3, .go 0] : List (SessionLabel (Fin 3))) ++
  beginCall 2 3 ++ ([.write 2 9, .write 1 6, .go 2, .go 1] : List (SessionLabel (Fin 3)))

theorem interleaved_broken :
    ∃ session, machine.run (start (Fin 3) .socket 8) interleaved = some session ∧
      session.wire = shortRequest 1 ++ (shortRequest 2).take 3 ++ shortRequest 3 ++
        (shortRequest 2).drop 3 ∧
      ¬session.Balanced ∧ ¬session.Whole := by
  have shown : (machine.run (start (Fin 3) .socket 8) interleaved).map (fun session =>
      (session.wire, session.requested, decide (session.unlocks 0 ≤ session.locks 0),
        decide (∀ caller, (session.stages caller).unsent? = none))) =
      some (shortRequest 1 ++ (shortRequest 2).take 3 ++ shortRequest 3 ++ (shortRequest 2).drop 3,
        [shortRequest 3, shortRequest 2, shortRequest 1], false, true) := by
    decide +kernel
  obtain ⟨session, reached, facts⟩ := Option.map_eq_some_iff.mp shown
  simp only [Prod.mk.injEq, decide_eq_false_iff_not, decide_eq_true_eq] at facts
  obtain ⟨wire, requested, unbalanced, nobody⟩ := facts
  refine ⟨session, reached, wire, fun balanced => unbalanced (balanced 0).1, fun whole => ?_⟩
  have second := whole.second nobody (by rw [requested]; decide) (by rw [wire]; decide)
  rw [wire, requested] at second
  revert second
  decide

end Session

end Tegenaria.LibSftp
