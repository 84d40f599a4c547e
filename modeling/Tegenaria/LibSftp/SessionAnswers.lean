import Tegenaria.LibSftp.Session

/-!
# Answers of concurrent calls

`processPacket` ignores what `push` and `wait` return.  When the request could
not be pushed, `wait` finds nothing to wait for, and the call returns 0 with
whatever the answer string holds.  A packet that answers a request twice leaves
the semaphore of its slot signalled, and an answer that comes after its call has
failed is copied to a string that no longer belongs to it.

The steps that exclude these situations are called orderly.  In an orderly run a
call that returns 0 has an answer of the server in its answer string, and the
answer carries the id of its request.
-/

namespace Tegenaria.LibSftp

open Foundation
open Foundation.Bytes
open Foundation.Word
open LibLock
open LibLock.PoolThreads

/-- The call that is about to push its request. -/
def Stage.entering? : Stage → Option Job
  | .entering job => some job
  | _ => none

/-- The reading thread is about to copy an answer. -/
def Reading.isCopying : Reading → Bool
  | .copying _ => true
  | _ => false

namespace Session

variable {Caller : Type} [DecidableEq Caller]

/-- The string of a call holds an answer to its request. -/
def Filled (session : Session Caller) (job : Job) : Prop :=
  ∃ packet ∈ session.received,
    session.strings job.answer = packet.bytes ∧ Int32.ofNat packet.idField = job.poolId

/-- Calls that returned 0 returned an answer to their own request, and no call
has seen a full pool or an unsuccessful wait. -/
def Answered (session : Session Caller) : Prop :=
  (∀ caller job answer, .returned caller job 0 answer ∈ session.history →
    ∃ packet ∈ session.received, answer = packet.bytes ∧ packet.idField = job.id) ∧
  (∀ thread id exitCode, .pushReturned thread id exitCode ∈ session.requests.log →
    exitCode = 0) ∧
  (∀ thread id exitCode, .waitReturned thread id exitCode ∈ session.requests.log →
    exitCode = 0)

/-- Steps that let every call find its request and its answer.  The strings of a
call are its own.  A request is pushed under an id that is not in use while a
slot is free.  A packet that matches a request is the first answer to it, and it
is not copied into a string that is used by a call with another id. -/
def Orderly (session : Session Caller) : SessionLabel Caller → Prop
  | .call caller answer packet _ _ => ∀ other ≠ caller,
      ∀ job ∈ (session.stages other).job?, answer ≠ job.answer ∧ packet ≠ job.answer
  | .go caller =>
      (∀ job ∈ (session.stages caller).entering?, job.poolId ≠ -1) ∧
      (∀ id ∈ (session.requests.locals (some caller)).looksFor?,
        session.requests.pool.find id = none) ∧
      ((session.requests.locals (some caller)).needsSlot →
        session.requests.pool.findFree ≠ none)
  | .receive packet =>
      session.requests.pool.find (Int32.ofNat packet.idField) ≠ none →
        Int32.ofNat packet.idField ≠ -1 ∧
        .serving (Int32.ofNat packet.idField) ∉
          sinceCreated (Int32.ofNat packet.idField) session.requests.log
  | .read => session.reading.isCopying →
      ∀ target ∈ (session.requests.locals none).signals?,
        ∀ caller, ∀ job ∈ (session.stages caller).job?,
          (session.requests.pool.table target.2).outputData = some job.answer →
            job.poolId = target.1
  | .write .. => True

/-! ## The invariant -/

/-- The slot belongs to the call. -/
def Holds (session : Session Caller) (slot : Nat) (job : Job) : Prop :=
  session.requests.UsedBy slot job.poolId ∧
    (session.requests.pool.table slot).outputData = some job.answer

/-- The reading thread is about to copy an answer to the request. -/
def Copying (session : Session Caller) (job : Job) : Prop :=
  ∃ packet, session.reading = .copying packet ∧
    Int32.ofNat packet.idField = job.poolId

/-- Once an answer was matched and copied, it is in the answer string. -/
def FilledOnceServed (session : Session Caller) (job : Job) : Prop :=
  .serving job.poolId ∈ sinceCreated job.poolId session.requests.log →
    ¬session.Copying job → session.Filled job

/-- The request is in the pool and nobody waits for it yet. -/
structure Awaiting (session : Session Caller) (job : Job) : Prop where
  holds : ∃ slot, session.Holds slot job
  unclaimed : ∀ waiter, .waiting waiter job.poolId ∉
    sinceCreated job.poolId session.requests.log
  filled : session.FilledOnceServed job

/-- The points at which a caller can stand inside `push`. -/
def InPush (job : Job) (point : Local) : Prop :=
  point = .pushFind job.poolId none (some job.answer) ∨
    point = .pushFindFree job.poolId none (some job.answer) ∨
    ∃ slot, point = .pushAssign job.poolId none (some job.answer) slot

/-- What is known of a caller at each stage of its call. -/
def CallerOk (session : Session Caller) (caller : Caller) : Prop :=
  match session.stages caller with
  | .idle | .entering _ => session.requests.locals (some caller) = .idle
  | .pushing job => InPush job (session.requests.locals (some caller))
  | .pushed job =>
      session.requests.locals (some caller) = .pushUnlock job.poolId 0 ∧
        session.Awaiting job
  | .locking job | .sending job _ | .checking job _ =>
      session.requests.locals (some caller) = .idle ∧ session.Awaiting job
  | .waiting job => session.FilledOnceServed job ∧
      ∃ slot, session.Holds slot job ∧
        (session.requests.locals (some caller) = .waitSemaphore job.poolId slot ∨
          session.requests.locals (some caller) = .waitRelease job.poolId slot)
  | .leaving job exitCode =>
      session.requests.locals (some caller) = .idle ∧
        (exitCode = 0 → session.Filled job)

/-- What is known of the reading thread. -/
def ReaderOk (session : Session Caller) : Prop :=
  match session.reading with
  | .idle => session.requests.locals none = .idle
  | .copying packet | .signalling packet => packet ∈ session.received ∧
      ∃ slot, session.requests.locals none =
        .serveSignal (Int32.ofNat packet.idField) slot

structure Answering (session : Session Caller) : Prop where
  pool : Invariant session.requests
  explained : Explained session.requests
  callers : ∀ caller, session.CallerOk caller
  reader : session.ReaderOk
  separate : ∀ caller other job otherJob, caller ≠ other →
    (session.stages caller).job? = some job →
    (session.stages other).job? = some otherJob → job.answer ≠ otherJob.answer
  ids : ∀ caller job, (session.stages caller).job? = some job → job.id < 2 ^ 32
  answered : session.Answered

/-! ## Ids -/

theorem idField_lt (packet : Packet) : packet.idField < 2 ^ 32 := by
  have bound := ofBigEndian_lt ((packet.bytes.drop 5).take 4)
  have long := packet.head_complete
  have four : ((packet.bytes.drop 5).take 4).length = 4 := by
    rw [List.length_take, List.length_drop]
    omega
  rw [four] at bound
  exact bound

theorem requestId_long {request : List UInt8} (long : toI32 request.length ≥ 9)
    (stale : UInt32) :
    requestId request stale =
      ofBigEndian ((Memory.ofList (0 : UInt8) request).slice 5 4) := by
  rw [requestId, decodePacketHead_fields long, Option.map_some, Option.getD_some]

theorem requestId_lt (request : List UInt8) (stale : UInt32) :
    requestId request stale < 2 ^ 32 := by
  by_cases long : toI32 request.length ≥ 9
  · rw [requestId_long long]
    have bound := ofBigEndian_lt ((Memory.ofList (0 : UInt8) request).slice 5 4)
    rw [Memory.slice_length] at bound
    exact bound
  · rw [requestId, decodePacketHead, if_neg long, Option.map_none, Option.getD_none]
    exact stale.toNat_lt

theorem eq_of_ofNat_eq {left right : Nat} (leftLt : left < 2 ^ 32)
    (rightLt : right < 2 ^ 32) (same : Int32.ofNat left = Int32.ofNat right) :
    left = right := by
  have words := congrArg (fun word => word.toUInt32.toNat) same
  simp only [Int32.toUInt32_ofNat', UInt32.toNat_ofNat'] at words
  omega

/-! ## What a step leaves intact -/

section Frame

variable {session next : Session Caller} {caller : Caller} {job : Job}

/-- The request of a call and its answer survive the step. -/
structure Unharmed (session next : Session Caller) (job : Job) : Prop where
  holds : ∀ slot, session.Holds slot job → next.Holds slot job
  filledOnceServed : ∀ slot, session.Holds slot job →
    session.FilledOnceServed job → next.FilledOnceServed job
  filled : session.Filled job → next.Filled job

/-- The step does not wait for the request. -/
def Unclaimed (session next : Session Caller) (job : Job) : Prop :=
  ∀ waiter, .waiting waiter job.poolId ∈ sinceCreated job.poolId next.requests.log →
    .waiting waiter job.poolId ∈ sinceCreated job.poolId session.requests.log

theorem Awaiting.transfer (awaiting : session.Awaiting job)
    (unharmed : Unharmed session next job) (unclaimed : Unclaimed session next job) :
    next.Awaiting job := by
  obtain ⟨slot, holds⟩ := awaiting.holds
  exact {
    holds := ⟨slot, unharmed.holds slot holds⟩
    unclaimed := fun waiter waits => awaiting.unclaimed waiter (unclaimed waiter waits)
    filled := unharmed.filledOnceServed slot holds awaiting.filled }

theorem CallerOk.transfer (ok : session.CallerOk caller)
    (stage : next.stages caller = session.stages caller)
    (point : next.requests.locals (some caller) =
      session.requests.locals (some caller))
    (unharmed : ∀ job, (session.stages caller).job? = some job →
      Unharmed session next job ∧
        (session.Awaiting job → Unclaimed session next job)) :
    next.CallerOk caller := by
  unfold CallerOk at ok ⊢
  rw [stage, point]
  cases current : session.stages caller with
  | idle | entering job | pushing job =>
      rw [current] at ok
      exact ok
  | pushed job | locking job | sending job totalWritten | checking job totalWritten =>
      rw [current] at ok
      obtain ⟨intact, unclaimed⟩ := unharmed job (by rw [current]; rfl)
      exact ⟨ok.1, ok.2.transfer intact (unclaimed ok.2)⟩
  | waiting job =>
      rw [current] at ok
      obtain ⟨filled, slot, holds, there⟩ := ok
      obtain ⟨intact, _⟩ := unharmed job (by rw [current]; rfl)
      exact ⟨intact.filledOnceServed slot holds filled, slot, intact.holds slot holds, there⟩
  | leaving job exitCode =>
      rw [current] at ok
      obtain ⟨intact, _⟩ := unharmed job (by rw [current]; rfl)
      exact ⟨ok.1, fun zero => intact.filled (ok.2 zero)⟩

/-- A step outside of the pool that does not touch the answer string. -/
theorem unharmed_of_same (requests : next.requests = session.requests)
    (reading : next.reading = session.reading)
    (received : next.received = session.received)
    (string : next.strings job.answer = session.strings job.answer) :
    Unharmed session next job ∧ Unclaimed session next job := by
  constructor
  · constructor
    case holds =>
      intro slot held
      unfold Holds at held ⊢
      rwa [requests]
    case filledOnceServed =>
      intro slot _ filled
      unfold FilledOnceServed Copying Filled at filled ⊢
      rwa [requests, reading, received, string]
    case filled =>
      intro held
      unfold Filled at held ⊢
      rwa [received, string]
  · intro waiter waits
    rwa [requests] at waits

/-- A step in the pool by a thread that does not free the slot of the request.
When it matches an answer to the request, the answer is going to be copied. -/
theorem unharmed_of_pool (pool : Invariant session.requests) {thread : Option Caller}
    {call : Call} (moves : PoolThreads.Moves session.requests thread call next.requests)
    (unreleased : ∀ slot, session.Holds slot job → ∀ id,
      session.requests.locals thread ≠ .waitRelease id slot)
    (copying : session.Copying job → next.Copying job)
    (matched : call = .serve job.poolId →
      session.requests.pool.find job.poolId ≠ none → next.Copying job)
    (received : ∀ packet ∈ session.received, packet ∈ next.received)
    (strings : next.strings = session.strings) : Unharmed session next job where
  holds slot held := by
    obtain ⟨used, output⟩ := moves.slot_kept pool held.1 (unreleased slot held)
    exact ⟨used, output.trans held.2⟩
  filledOnceServed slot held filled := by
    intro serving elsewhere
    rcases moves.serving_since serving with before | serveCall
    · obtain ⟨packet, mem, content, sameId⟩ :=
        filled before fun copies => elsewhere (copying copies)
      exact ⟨packet, received packet mem, by rw [strings, content], sameId⟩
    · refine absurd (matched serveCall fun missing => ?_) elsewhere
      exact RequestPool.find_none_iff.mp missing slot held.1.2.1 held.1.2.2
  filled held := by
    obtain ⟨packet, mem, content, sameId⟩ := held
    exact ⟨packet, received packet mem, by rw [strings, content], sameId⟩

theorem unclaimed_of_pool {thread : Option Caller} {call : Call}
    (moves : PoolThreads.Moves session.requests thread call next.requests)
    (notWait : call ≠ .wait job.poolId) : Unclaimed session next job := by
  intro waiter waits
  rcases moves.waiting_since waits with before | waitCall
  · exact before
  · exact absurd waitCall notWait

omit [DecidableEq Caller] in
/-- Two requests in the pool with one id are one request. -/
theorem Holds.slot_eq (pool : Invariant session.requests) {slot other : Nat}
    (holds : session.Holds slot job)
    (used : session.requests.UsedBy other job.poolId) : slot = other := by
  obtain ⟨⟨valid, inside, id⟩, _⟩ := holds
  exact pool.distinct slot inside other used.2.1 (by rwa [id]) (by rw [id, used.2.2])

/-- Two calls cannot hold one slot. -/
theorem Holds.caller_eq (answering : Answering session) {other : Caller} {slot : Nat}
    {otherJob : Job} (holds : session.Holds slot job)
    (current : (session.stages caller).job? = some job)
    (otherHolds : session.Holds slot otherJob)
    (otherCurrent : (session.stages other).job? = some otherJob) : caller = other := by
  by_contra different
  have answers := answering.separate caller other job otherJob different current otherCurrent
  exact answers (Option.some.inj (holds.2.symm.trans otherHolds.2))

/-- A caller that is about to free a slot waits for a request of its own. -/
theorem CallerOk.releasing (ok : session.CallerOk caller) {id : Int32} {slot : Nat}
    (there : session.requests.locals (some caller) = .waitRelease id slot) :
    ∃ job, session.stages caller = .waiting job ∧ session.Holds slot job := by
  unfold CallerOk at ok
  cases current : session.stages caller with
  | waiting job =>
      rw [current] at ok
      obtain ⟨_, other, holds, points | points⟩ := ok
      · cases there.symm.trans points
      · cases there.symm.trans points
        exact ⟨job, rfl, holds⟩
  | idle | entering job =>
      rw [current] at ok
      cases there.symm.trans ok
  | pushing job =>
      rw [current] at ok
      rcases ok with points | points | ⟨other, points⟩
      · cases there.symm.trans points
      · cases there.symm.trans points
      · cases there.symm.trans points
  | pushed job | locking job | sending job totalWritten | checking job totalWritten
    | leaving job exitCode =>
      rw [current] at ok
      cases there.symm.trans ok.1

omit [DecidableEq Caller] in
/-- The reading thread is never about to free a slot. -/
theorem ReaderOk.not_releasing (ok : session.ReaderOk) (id : Int32) (slot : Nat) :
    session.requests.locals none ≠ .waitRelease id slot := by
  intro there
  unfold ReaderOk at ok
  cases reading : session.reading with
  | idle =>
      rw [reading] at ok
      cases there.symm.trans ok
  | copying packet | signalling packet =>
      rw [reading] at ok
      obtain ⟨_, other, points⟩ := ok
      cases there.symm.trans points

/-- Copying an answer fills the string of the call it belongs to and no string
of another call. -/
theorem unharmed_of_copy (answering : Answering session) {packet : Packet}
    {id : Int32} {slot : Nat} (copying : session.reading = .copying packet)
    (matched : session.requests.locals none = .serveSignal id slot)
    (own : (session.requests.pool.table slot).outputData = some job.answer →
      job.poolId = id)
    (requests : next.requests = session.requests)
    (received : next.received = session.received)
    (strings : next.strings = (session.shared.answer slot packet.bytes).strings) :
    Unharmed session next job := by
  have reader := answering.reader
  simp only [ReaderOk, copying] at reader
  obtain ⟨mem, other, there⟩ := reader
  cases matched.symm.trans there
  have filled : session.Filled job → next.Filled job := by
    rintro ⟨old, oldMem, content, sameId⟩
    by_cases target : (session.requests.pool.table slot).outputData = some job.answer
    · refine ⟨packet, by rwa [received], ?_, (own target).symm⟩
      rw [strings, Shared.answer_strings, shared_pool, if_pos target]
    · refine ⟨old, by rwa [received], ?_, sameId⟩
      rw [strings, Shared.answer_strings, shared_pool, if_neg target]
      exact content
  constructor
  case holds =>
    intro slot held
    unfold Holds at held ⊢
    rwa [requests]
  case filledOnceServed =>
    intro mine holds before serving _
    rw [requests] at serving
    by_cases elsewhere : Int32.ofNat packet.idField = job.poolId
    · have used := (answering.pool.signalling none _ slot matched).1
      rw [elsewhere] at used
      have sameSlot := holds.slot_eq answering.pool used
      subst sameSlot
      refine ⟨packet, by rwa [received], ?_, elsewhere⟩
      rw [strings, Shared.answer_strings, shared_pool, if_pos holds.2]
    · refine filled (before serving ?_)
      rintro ⟨current, isCurrent, sameId⟩
      cases copying.symm.trans isCurrent
      exact elsewhere sameId
  case filled => exact filled

/-- A step of a caller in the pool leaves the other calls intact. -/
theorem others_of_pool (answering : Answering session) {mover : Caller} {call : Call}
    (different : caller ≠ mover)
    (moves : PoolThreads.Moves session.requests (some mover) call next.requests)
    (stage : next.stages caller = session.stages caller)
    (notServe : ∀ id, call ≠ .serve id)
    (ownWait : ∀ id, call = .wait id → ∃ job slot,
      (session.stages mover).job? = some job ∧ job.poolId = id ∧ session.Holds slot job)
    (reading : next.reading = session.reading)
    (received : next.received = session.received)
    (strings : next.strings = session.strings) : next.CallerOk caller := by
  refine (answering.callers caller).transfer stage
    (moves.locals_other (by simpa using different)) fun job current => ⟨?_, ?_⟩
  · refine unharmed_of_pool answering.pool moves ?_ ?_ ?_ (by simp [received]) strings
    · intro slot holds id there
      obtain ⟨otherJob, waits, otherHolds⟩ := (answering.callers mover).releasing there
      exact different (holds.caller_eq answering current otherHolds (by rw [waits]; rfl))
    · intro copies
      unfold Copying at copies ⊢
      rwa [reading]
    · intro serveCall
      exact absurd serveCall (notServe _)
  · intro awaiting
    refine unclaimed_of_pool moves fun waitCall => ?_
    obtain ⟨otherJob, slot, otherCurrent, sameId, otherHolds⟩ := ownWait _ waitCall
    obtain ⟨mine, holds⟩ := awaiting.holds
    have sameSlot := holds.slot_eq answering.pool (sameId ▸ otherHolds.1)
    subst sameSlot
    exact different (holds.caller_eq answering current otherHolds otherCurrent)

/-- A step of the reading thread in the pool leaves all calls intact. -/
theorem callers_of_reader (answering : Answering session) {call : Call}
    (moves : PoolThreads.Moves session.requests none call next.requests)
    (stages : next.stages = session.stages) (notWait : ∀ id, call ≠ .wait id)
    (notCopying : ∀ packet, session.reading ≠ .copying packet)
    (matched : ∀ id, call = .serve id → session.requests.pool.find id ≠ none →
      ∃ packet, next.reading = .copying packet ∧ Int32.ofNat packet.idField = id)
    (received : ∀ packet ∈ session.received, packet ∈ next.received)
    (strings : next.strings = session.strings) : next.CallerOk caller := by
  refine (answering.callers caller).transfer (by rw [stages])
    (moves.locals_other (by simp)) fun job current => ⟨?_, fun _ => ?_⟩
  · refine unharmed_of_pool answering.pool moves ?_ ?_ (matched _) received strings
    · intro slot _ id
      exact answering.reader.not_releasing id slot
    · rintro ⟨packet, copying, _⟩
      exact absurd copying (notCopying packet)
  · exact unclaimed_of_pool moves (notWait _)

end Frame

/-! ## One step -/

section Steps

variable {session next : Session Caller} {label : SessionLabel Caller}
variable {caller : Caller} {job : Job}

/-- Inside `push` an orderly caller goes on to the assignment of a slot. -/
theorem push_next (answering : Answering session)
    (current : session.stages caller = .pushing job)
    (orderly : Orderly session (.go caller)) {requests : PoolThreads (Option Caller)}
    (stepped : session.requests.step (some caller) .resume = some requests) :
    InPush job (requests.locals (some caller)) ∨
      ∃ slot, session.requests.locals (some caller) =
          .pushAssign job.poolId none (some job.answer) slot ∧
        requests = ((session.requests.modify slot
          (·.assign job.poolId none (some job.answer))).record
            (.created job.poolId)).goto (some caller) (.pushUnlock job.poolId 0) := by
  have ok := answering.callers caller
  unfold CallerOk at ok
  rw [current] at ok
  rcases ok with point | point | ⟨slot, point⟩
  · have unused := orderly.2.1 job.poolId (by rw [point]; rfl)
    simp only [PoolThreads.step, point, pushStep, unused, Option.some.injEq] at stepped
    refine Or.inl (Or.inr (Or.inl ?_))
    rw [← stepped]
    simp
  · have room := orderly.2.2 (by rw [point]; rfl)
    obtain ⟨slot, free⟩ := Option.ne_none_iff_exists'.mp room
    simp only [PoolThreads.step, point, pushStep, free, Option.some.injEq] at stepped
    refine Or.inl (Or.inr (Or.inr ⟨slot, ?_⟩))
    rw [← stepped]
    simp
  · simp only [PoolThreads.step, point, pushStep, Option.some.injEq] at stepped
    exact Or.inr ⟨slot, point, stepped.symm⟩

/-- The request is in the pool as soon as its slot is assigned. -/
theorem awaiting_of_assign (answering : Answering session) {slot : Nat}
    (point : session.requests.locals (some caller) =
      .pushAssign job.poolId none (some job.answer) slot)
    (requests : next.requests = ((session.requests.modify slot
      (·.assign job.poolId none (some job.answer))).record
        (.created job.poolId)).goto (some caller) (.pushUnlock job.poolId 0)) :
    next.Awaiting job := by
  obtain ⟨unused, inside, free⟩ := answering.pool.chosen _ _ _ _ _ point
  constructor
  case holds =>
    refine ⟨slot, ⟨unused.1, ?_, ?_⟩, ?_⟩ <;> rw [requests] <;> simp [inside]
  case unclaimed =>
    intro waiter
    rw [requests]
    simp
  case filled =>
    intro serving
    rw [requests] at serving
    simp at serving

/-- The call finds its own request. -/
theorem enterWait_next (answering : Answering session) {totalWritten : Nat}
    (current : session.stages caller = .checking job totalWritten)
    {requests : PoolThreads (Option Caller)}
    (stepped : session.requests.step (some caller) (.wait job.poolId) = some requests) :
    ∃ slot, session.Holds slot job ∧
      requests = (session.requests.record (.waiting (some caller) job.poolId)).goto
        (some caller) (.waitSemaphore job.poolId slot) := by
  have ok := answering.callers caller
  unfold CallerOk at ok
  rw [current] at ok
  obtain ⟨point, awaiting⟩ := ok
  obtain ⟨slot, holds⟩ := awaiting.holds
  cases scan : session.requests.pool.find job.poolId with
  | none =>
      exact absurd holds.1.2.2 (RequestPool.find_none_iff.mp scan slot holds.1.2.1)
  | some found =>
      obtain ⟨inside, used⟩ := RequestPool.find_some scan
      have same := holds.slot_eq answering.pool ⟨holds.1.1, inside, used⟩
      subst same
      simp only [PoolThreads.step, point, if_true, scan, Option.some.injEq] at stepped
      exact ⟨slot, holds, stepped.symm⟩

/-- At the end of `wait` the answer is there. -/
theorem filled_of_releasing (answering : Answering session) {slot : Nat}
    (holds : session.Holds slot job)
    (filled : session.FilledOnceServed job)
    (there : session.requests.locals (some caller) = .waitRelease job.poolId slot) :
    session.Filled job := by
  refine filled (answering.explained.releasing _ _ _ there).1 ?_
  rintro ⟨packet, copying, sameId⟩
  have reader := answering.reader
  simp only [ReaderOk, copying, sameId] at reader
  obtain ⟨_, other, signals⟩ := reader
  have used := (answering.pool.signalling none _ _ signals).1
  have same := holds.slot_eq answering.pool used
  subst same
  exact (answering.pool.notBoth _ _ _ _ there).2 signals

/-- A step outside of the pool leaves the other calls intact. -/
theorem others_of_same (answering : Answering session)
    (stage : next.stages caller = session.stages caller)
    (requests : next.requests = session.requests)
    (reading : next.reading = session.reading)
    (received : next.received = session.received)
    (string : ∀ job, (session.stages caller).job? = some job →
      next.strings job.answer = session.strings job.answer) : next.CallerOk caller := by
  refine (answering.callers caller).transfer stage (by rw [requests]) fun job current => ?_
  obtain ⟨unharmed, unclaimed⟩ := unharmed_of_same requests reading received (string job current)
  exact ⟨unharmed, fun _ => unclaimed⟩

/-- A caller keeps its request while it moves through the stages between `push`
and `wait`. -/
theorem Awaiting.of_same (awaiting : session.Awaiting job)
    (requests : next.requests = session.requests)
    (reading : next.reading = session.reading)
    (received : next.received = session.received)
    (strings : next.strings = session.strings) : next.Awaiting job := by
  obtain ⟨unharmed, unclaimed⟩ := unharmed_of_same requests reading received
    (congrFun strings job.answer)
  exact awaiting.transfer unharmed unclaimed

/-- A caller keeps its request and its answer when it goes on in the pool. -/
theorem unharmed_of_own (answering : Answering session) {call : Call}
    (moves : PoolThreads.Moves session.requests (some caller) call next.requests)
    (notServe : ∀ id, call ≠ .serve id)
    (unreleased : ∀ id slot,
      session.requests.locals (some caller) ≠ .waitRelease id slot)
    (reading : next.reading = session.reading)
    (received : next.received = session.received)
    (strings : next.strings = session.strings) : Unharmed session next job := by
  refine unharmed_of_pool answering.pool moves (fun slot _ id => unreleased id slot) ?_ ?_
    (by simp [received]) strings
  · intro copies
    unfold Copying at copies ⊢
    rwa [reading]
  · intro serveCall
    exact absurd serveCall (notServe _)

/-- A caller that waits for the semaphore of its slot takes the signal and is then
about to free the slot. -/
theorem waiting_next {slot : Nat} {requests : PoolThreads (Option Caller)}
    (point : session.requests.locals (some caller) = .waitSemaphore job.poolId slot)
    (stepped : session.requests.step (some caller) .resume = some requests) :
    requests.locals (some caller) = .waitRelease job.poolId slot := by
  simp only [PoolThreads.step, point, pushStep, requestStep] at stepped
  split at stepped
  case isTrue => simp [← Option.some.inj stepped]
  case isFalse => cases stepped

theorem releasing_next {slot : Nat} {requests : PoolThreads (Option Caller)}
    (point : session.requests.locals (some caller) = .waitRelease job.poolId slot)
    (stepped : session.requests.step (some caller) .resume = some requests) :
    requests.locals (some caller) = .idle := by
  simp only [PoolThreads.step, point, pushStep, requestStep, Option.some.injEq] at stepped
  simp [← stepped]

/-- The caller that takes a step; the reading thread is no caller. -/
def mover? : SessionLabel Caller → Option Caller
  | .call caller .. | .go caller | .write caller _ => some caller
  | .receive _ | .read => none

/-- What is known of a caller holds again after its own step. -/
theorem Moves.own (answering : Answering session) (orderly : Orderly session label)
    (moves : Moves session label next) (mine : mover? label = some caller) :
    next.CallerOk caller := by
  have ok := answering.callers caller
  cases moves with
  | call at_ =>
      cases mine
      simp only [CallerOk, at_] at ok
      simpa [CallerOk] using ok
  | enterPush at_ stepped =>
      cases mine
      cases PoolThreads.moves_of_step stepped with
      | enterPush point unlocked => simp [CallerOk, InPush]
  | @push _ job requests at_ stepped inside =>
      cases mine
      rcases push_next answering at_ orderly stepped with within | ⟨slot, _, rfl⟩
      · simpa [CallerOk, at_] using within
      · exact absurd (by simp) (inside job.poolId 0)
  | decidePush at_ stepped decided =>
      cases mine
      rcases push_next answering at_ orderly stepped with within | ⟨slot, point, assigned⟩
      · rcases within with point | point | ⟨slot, point⟩ <;> cases decided.symm.trans point
      · simp only [CallerOk, goto_stages, if_true]
        exact ⟨by simp [assigned], awaiting_of_assign answering point assigned⟩
  | leavePush at_ stepped =>
      cases mine
      have pool := PoolThreads.moves_of_step stepped
      simp only [CallerOk, at_] at ok
      simp only [PoolThreads.step, ok.1, pushStep, Option.some.injEq] at stepped
      simp only [CallerOk, goto_stages, if_true]
      refine ⟨by simp [← stepped], ok.2.transfer ?_ ?_⟩
      · exact unharmed_of_own answering pool (by simp) (by simp [ok.1]) rfl rfl rfl
      · exact unclaimed_of_pool pool (by simp)
  | skipSending at_ | lock at_ | write at_ | unlock at_ =>
      cases mine
      simp only [CallerOk, at_] at ok
      simp only [CallerOk, goto_stages, if_true]
      exact ⟨ok.1, ok.2.of_same rfl rfl rfl rfl⟩
  | writeFailed at_ | short at_ =>
      cases mine
      simp only [CallerOk, at_] at ok
      simp only [CallerOk, goto_stages, if_true]
      exact ⟨ok.1, by simp⟩
  | @enterWait _ job totalWritten requests at_ whole stepped found =>
      cases mine
      have pool := PoolThreads.moves_of_step stepped
      simp only [CallerOk, at_] at ok
      obtain ⟨slot, holds, after⟩ := enterWait_next answering at_ stepped
      have unharmed : Unharmed session
          ({ session with requests }.goto caller (.waiting job)) job :=
        unharmed_of_own answering pool (by simp) (by simp [ok.1]) rfl rfl rfl
      simp only [CallerOk, goto_stages, if_true]
      exact ⟨unharmed.filledOnceServed slot holds ok.2.filled, slot,
        unharmed.holds slot holds, Or.inl (by simp [after])⟩
  | skipWait at_ whole stepped missing =>
      obtain ⟨slot, _, after⟩ := enterWait_next answering at_ stepped
      simp [after] at missing
  | @acquire _ job requests at_ stepped inside =>
      cases mine
      have pool := PoolThreads.moves_of_step stepped
      simp only [CallerOk, at_] at ok
      obtain ⟨filled, slot, holds, point | point⟩ := ok
      · have unharmed : Unharmed session { session with requests } job :=
          unharmed_of_own answering pool (by simp) (by simp [point]) rfl rfl rfl
        simp only [CallerOk, at_]
        exact ⟨unharmed.filledOnceServed slot holds filled, slot,
          unharmed.holds slot holds, Or.inr (waiting_next point stepped)⟩
      · exact absurd (releasing_next point stepped) inside
  | leaveWait at_ stepped done =>
      cases mine
      simp only [CallerOk, at_] at ok
      obtain ⟨filled, slot, holds, point | point⟩ := ok
      · cases done.symm.trans (waiting_next point stepped)
      · have content := filled_of_releasing answering holds filled point
        simp only [CallerOk, goto_stages, if_true]
        exact ⟨done, fun _ => content⟩
  | leave at_ =>
      cases mine
      simp only [CallerOk, at_] at ok
      simp only [CallerOk, goto_stages, if_true]
      exact ok.1
  | receiveKnown | receiveUnknown | copy | signal => cases mine

/-- What is known of a caller is not changed by the steps of others. -/
theorem Moves.others (answering : Answering session) (orderly : Orderly session label)
    (moves : Moves session label next) (foreign : mover? label ≠ some caller) :
    next.CallerOk caller := by
  have apart {mover : Caller} (moved : mover? label = some mover) : caller ≠ mover :=
    fun same => foreign (moved.trans (congrArg some same.symm))
  cases moves with
  | call at_ =>
      have different := apart rfl
      refine others_of_same answering (by simp [different]) rfl rfl rfl fun job current => ?_
      have unshared := (orderly caller different job current).2
      simp [Function.update_of_ne unshared.symm]
  | enterPush at_ stepped | decidePush at_ stepped | leavePush at_ stepped | leaveWait at_ stepped =>
      have different := apart rfl
      exact others_of_pool answering different (PoolThreads.moves_of_step stepped)
        (by simp [different]) (by simp) (by simp) rfl rfl rfl
  | push at_ stepped | acquire at_ stepped =>
      exact others_of_pool answering (apart rfl) (PoolThreads.moves_of_step stepped)
        rfl (by simp) (by simp) rfl rfl rfl
  | skipSending at_ | lock at_ | write at_ | unlock at_ | writeFailed at_ | short at_ | leave at_ =>
      have different := apart rfl
      exact others_of_same answering (by simp [different]) rfl rfl rfl fun _ _ => rfl
  | @enterWait mover job totalWritten requests at_ whole stepped found =>
      have different := apart rfl
      obtain ⟨slot, holds, after⟩ := enterWait_next answering at_ stepped
      refine others_of_pool answering different (PoolThreads.moves_of_step stepped)
        (by simp [different]) (by simp) ?_ rfl rfl rfl
      intro id waitCall
      cases waitCall
      exact ⟨job, slot, by rw [at_]; rfl, rfl, holds⟩
  | skipWait at_ whole stepped missing =>
      obtain ⟨slot, _, after⟩ := enterWait_next answering at_ stepped
      simp [after] at missing
  | @receiveKnown packet requests id slot at_ stepped found =>
      refine callers_of_reader answering (PoolThreads.moves_of_step stepped) rfl (by simp)
        (by simp [at_]) ?_ (fun _ => List.mem_cons_of_mem _) rfl
      intro id serveCall _
      cases serveCall
      exact ⟨packet, rfl, rfl⟩
  | @receiveUnknown packet requests at_ stepped missing =>
      have pool := PoolThreads.moves_of_step stepped
      refine callers_of_reader answering pool rfl (by simp) (by simp [at_]) ?_
        (fun _ => List.mem_cons_of_mem _) rfl
      intro id serveCall found
      cases serveCall
      cases pool with
      | serveMissing point absent => exact absurd absent found
      | serveFound point present => simp at missing
  | @copy packet id slot at_ matched =>
      have own := orderly (by rw [at_]; rfl) (id, slot) (by rw [matched]; rfl)
      refine (answering.callers caller).transfer rfl rfl fun job current => ⟨?_, ?_⟩
      · exact unharmed_of_copy answering at_ matched (own caller job current) rfl rfl rfl
      · exact fun _ _ waits => waits
  | signal at_ matched stepped =>
      exact callers_of_reader answering (PoolThreads.moves_of_step stepped) rfl (by simp)
        (by simp [at_]) (by simp) (fun _ mem => mem) rfl

theorem Moves.callers (answering : Answering session) (orderly : Orderly session label)
    (moves : Moves session label next) (caller : Caller) : next.CallerOk caller := by
  by_cases mine : mover? label = some caller
  · exact moves.own answering orderly mine
  · exact moves.others answering orderly mine

theorem Moves.reader (answering : Answering session) (moves : Moves session label next) :
    next.ReaderOk := by
  have reader := answering.reader
  cases moves with
  | @receiveKnown packet requests id slot at_ stepped found =>
      cases PoolThreads.moves_of_step stepped with
      | serveMissing point absent => simp [point] at found
      | @serveFound _ target point present =>
          simp only [ReaderOk]
          exact ⟨List.mem_cons_self, target, by simp⟩
  | @receiveUnknown packet requests at_ stepped missing =>
      cases PoolThreads.moves_of_step stepped with
      | serveMissing point absent => simpa [ReaderOk, at_] using point
      | serveFound point present => simp at missing
  | @copy packet id slot at_ matched =>
      simpa [ReaderOk, at_] using reader
  | @signal packet id slot requests at_ matched stepped =>
      simp only [PoolThreads.step, matched, pushStep, requestStep, Option.some.injEq]
        at stepped
      simp [ReaderOk, ← stepped]
  | enterPush at_ stepped | push at_ stepped | decidePush at_ stepped
    | leavePush at_ stepped | enterWait at_ whole stepped | skipWait at_ whole stepped
    | acquire at_ stepped | leaveWait at_ stepped =>
      have still := (PoolThreads.moves_of_step stepped).locals_other
        (by simp : (none : Option Caller) ≠ some _)
      unfold ReaderOk at reader ⊢
      simp only [goto_reading, goto_requests, goto_received, still]
      exact reader
  | _ => exact reader

/-- Only a call changes which strings and ids are in use. -/
theorem Moves.job_kept (moves : Moves session label next)
    (current : (next.stages caller).job? = some job) :
    (session.stages caller).job? = some job ∨
      ∃ answer packet request stale, label = .call caller answer packet request stale ∧
        job = ⟨answer, packet, request, requestId request stale, toI32 request.length⟩ := by
  cases moves <;> grind

theorem Moves.separate (answering : Answering session) (orderly : Orderly session label)
    (moves : Moves session label next) :
    ∀ caller other job otherJob, caller ≠ other →
      (next.stages caller).job? = some job →
      (next.stages other).job? = some otherJob → job.answer ≠ otherJob.answer := by
  intro caller other job otherJob different current otherCurrent
  rcases moves.job_kept current with before | ⟨answer, packet, request, stale, rfl, rfl⟩
  · rcases moves.job_kept otherCurrent with
      otherBefore | ⟨answer, packet, request, stale, rfl, rfl⟩
    · exact answering.separate _ _ _ _ different before otherBefore
    · exact (orderly caller different job before).1.symm
  · rcases moves.job_kept otherCurrent with
      otherBefore | ⟨otherAnswer, otherPacket, otherRequest, otherStale, same, _⟩
    · exact (orderly other different.symm otherJob otherBefore).1
    · cases same
      exact absurd rfl different

theorem Moves.ids (answering : Answering session) (moves : Moves session label next) :
    ∀ caller job, (next.stages caller).job? = some job → job.id < 2 ^ 32 := by
  intro caller job current
  rcases moves.job_kept current with before | ⟨answer, packet, request, stale, _, new⟩
  · exact answering.ids caller job before
  · have id : job.id = requestId request stale := by rw [new]
    rw [id]
    exact requestId_lt request stale

/-- The pool moves as its threads do.  They keep to the rules of the pool and wait
for requests that are there. -/
theorem Moves.pool (answering : Answering session) (orderly : Orderly session label)
    (moves : Moves session label next) :
    next.requests = session.requests ∨
      ∃ thread call, PoolThreads.Moves session.requests thread call next.requests ∧
        Disciplined session.requests (thread, call) ∧
        ∀ id, call = .wait id → session.requests.pool.find id ≠ none := by
  cases moves with
  | @enterPush caller job requests at_ stepped =>
      have valid := orderly.1 job (by rw [at_]; rfl)
      exact Or.inr ⟨_, _, PoolThreads.moves_of_step stepped, valid, by simp⟩
  | @enterWait caller job totalWritten requests at_ whole stepped
    | @skipWait caller job totalWritten requests at_ whole stepped =>
      have ok := answering.callers caller
      simp only [CallerOk, at_] at ok
      obtain ⟨slot, holds⟩ := ok.2.holds
      refine Or.inr ⟨_, _, PoolThreads.moves_of_step stepped,
        ⟨holds.1.1, fun other _ => ok.2.unclaimed other⟩, ?_⟩
      intro id waitCall missing
      cases waitCall
      exact RequestPool.find_none_iff.mp missing slot holds.1.2.1 holds.1.2.2
  | receiveKnown at_ stepped | receiveUnknown at_ stepped =>
      exact Or.inr ⟨_, _, PoolThreads.moves_of_step stepped, orderly, by simp⟩
  | push at_ stepped | decidePush at_ stepped | leavePush at_ stepped
    | acquire at_ stepped | leaveWait at_ stepped =>
      exact Or.inr ⟨_, _, PoolThreads.moves_of_step stepped, trivial, by simp⟩
  | signal at_ matched stepped =>
      exact Or.inr ⟨_, _, PoolThreads.moves_of_step stepped, trivial, by simp⟩
  | _ => exact Or.inl rfl

theorem Moves.invariants (answering : Answering session)
    (orderly : Orderly session label) (moves : Moves session label next) :
    Invariant next.requests ∧ Explained next.requests := by
  rcases moves.pool answering orderly with same | ⟨thread, call, poolMoves, disciplined, _⟩
  · rw [same]
    exact ⟨answering.pool, answering.explained⟩
  · exact ⟨poolMoves.invariant answering.pool answering.explained disciplined,
      poolMoves.explained answering.pool answering.explained⟩

/-- A `push` that was decided has succeeded. -/
theorem Answering.push_decided (answering : Answering session)
    {thread : Option Caller} {id : Int32} {exitCode : Int}
    (decided : session.requests.locals thread = .pushUnlock id exitCode) :
    exitCode = 0 := by
  cases thread with
  | none =>
      have reader := answering.reader
      unfold ReaderOk at reader
      cases reading : session.reading with
      | idle =>
          rw [reading] at reader
          cases decided.symm.trans reader
      | copying packet | signalling packet =>
          rw [reading] at reader
          obtain ⟨_, slot, point⟩ := reader
          cases decided.symm.trans point
  | some caller =>
      have ok := answering.callers caller
      unfold CallerOk at ok
      cases current : session.stages caller with
      | idle | entering job =>
          rw [current] at ok
          cases decided.symm.trans ok
      | pushing job =>
          rw [current] at ok
          rcases ok with point | point | ⟨slot, point⟩ <;> cases decided.symm.trans point
      | pushed job =>
          rw [current] at ok
          cases decided.symm.trans ok.1
          rfl
      | locking job | sending job totalWritten | checking job totalWritten
        | leaving job code =>
          rw [current] at ok
          cases decided.symm.trans ok.1
      | waiting job =>
          rw [current] at ok
          obtain ⟨_, slot, _, point | point⟩ := ok <;> cases decided.symm.trans point

theorem Moves.received_kept (moves : Moves session label next) :
    ∀ packet ∈ session.received, packet ∈ next.received := by
  cases moves <;> simp +contextual

/-- A call that leaves with 0 has the answer to its request. -/
theorem Moves.returned (answering : Answering session)
    (moves : Moves session label next) :
    ∀ caller job answer, .returned caller job 0 answer ∈ next.history →
      ∃ packet ∈ next.received, answer = packet.bytes ∧ packet.idField = job.id := by
  intro caller job answer returned
  have old : .returned caller job 0 answer ∈ session.history →
      ∃ packet ∈ next.received, answer = packet.bytes ∧ packet.idField = job.id := by
    intro before
    obtain ⟨packet, mem, rest⟩ := answering.answered.1 caller job answer before
    exact ⟨packet, moves.received_kept packet mem, rest⟩
  cases moves with
  | @leave mover current exitCode at_ =>
      simp only [goto_history, record_history, List.mem_cons, SessionEvent.returned.injEq,
        reduceCtorEq, false_or] at returned
      rcases returned with ⟨rfl, rfl, rfl, rfl⟩ | before
      · have ok := answering.callers caller
        simp only [CallerOk, at_] at ok
        obtain ⟨packet, mem, content, sameId⟩ := ok.2 trivial
        exact ⟨packet, mem, content, eq_of_ofNat_eq (idField_lt packet)
          (answering.ids caller job (by rw [at_]; rfl)) sameId⟩
      · exact old before
  | call | lock | unlock =>
      simp only [goto_history, record_history, List.mem_cons, reduceCtorEq, false_or]
        at returned
      exact old returned
  | _ => exact old returned

/-- In an orderly step neither `push` nor `wait` fails. -/
theorem Moves.succeeded (answering : Answering session) (orderly : Orderly session label)
    (moves : Moves session label next) :
    (∀ thread id exitCode, .pushReturned thread id exitCode ∈ next.requests.log →
      exitCode = 0) ∧
    ∀ thread id exitCode, .waitReturned thread id exitCode ∈ next.requests.log →
      exitCode = 0 := by
  obtain ⟨_, pushed, waited⟩ := answering.answered
  rcases moves.pool answering orderly with same | ⟨thread, call, poolMoves, _, present⟩
  · rw [same]
    exact ⟨pushed, waited⟩
  constructor
  · intro other id exitCode returned
    rcases poolMoves.push_returned returned with before | decided
    · exact pushed other id exitCode before
    · exact answering.push_decided decided
  · intro other id exitCode returned
    rcases poolMoves.wait_returned returned with before | zero | ⟨waitCall, missing⟩
    · exact waited other id exitCode before
    · exact zero
    · exact absurd missing (present id waitCall)

theorem Moves.answering (answering : Answering session)
    (orderly : Orderly session label) (moves : Moves session label next) :
    Answering next where
  pool := (moves.invariants answering orderly).1
  explained := (moves.invariants answering orderly).2
  callers := moves.callers answering orderly
  reader := moves.reader answering
  separate := moves.separate answering orderly
  ids := moves.ids answering
  answered := ⟨moves.returned answering, moves.succeeded answering orderly⟩

end Steps

/-! ## Whole runs -/

theorem start_answering (fdType : FdType) (size : Nat) :
    Answering (start Caller fdType size) where
  pool := start_invariant size
  explained := start_explained size
  callers caller := rfl
  reader := rfl
  separate := by simp [start, Stage.job?]
  ids := by simp [start, Stage.job?]
  answered := by simp [start, Answered, PoolThreads.start]

/-- In every orderly run, every call that has returned 0 returned the bytes of a
packet that the server has sent with the id of the request, and no call had to
do with a full pool or an unsuccessful wait. -/
theorem answered_of_orderly {fdType : FdType} {size : Nat}
    {labels : List (SessionLabel Caller)} {session : Session Caller}
    (reached : machine.run (start Caller fdType size) labels = some session)
    (orderly : machine.AllSteps Orderly (start Caller fdType size) labels) :
    session.Answered := by
  have preserved : ∀ (before : Session Caller) label after, Answering before →
      Orderly before label → machine.step before label = some after →
      Answering after := fun _ _ _ holds obeys stepped =>
    (moves_of_step stepped).answering holds obeys
  exact (Machine.run_invariant preserved (start_answering fdType size) orderly
    reached).answered

/-! ## Runs -/

instance orderlyDecidable [Fintype Caller] (session : Session Caller) :
    (label : SessionLabel Caller) → Decidable (Orderly session label)
  | .call caller answer packet _ _ => inferInstanceAs (Decidable
      (∀ other ≠ caller, ∀ job ∈ (session.stages other).job?,
        answer ≠ job.answer ∧ packet ≠ job.answer))
  | .go caller =>
      -- Not the instance that goes through all numbers of the type.
      have : Decidable (∀ id ∈ (session.requests.locals (some caller)).looksFor?,
          session.requests.pool.find id = none) := Option.decidableForallMem _
      inferInstanceAs (Decidable
        ((∀ job ∈ (session.stages caller).entering?, job.poolId ≠ -1) ∧
          (∀ id ∈ (session.requests.locals (some caller)).looksFor?,
            session.requests.pool.find id = none) ∧
          ((session.requests.locals (some caller)).needsSlot →
            session.requests.pool.findFree ≠ none)))
  | .receive packet => inferInstanceAs (Decidable
      (session.requests.pool.find (Int32.ofNat packet.idField) ≠ none →
        Int32.ofNat packet.idField ≠ -1 ∧
        .serving (Int32.ofNat packet.idField) ∉
          sinceCreated (Int32.ofNat packet.idField) session.requests.log))
  | .read => inferInstanceAs (Decidable
      (session.reading.isCopying →
        ∀ target ∈ (session.requests.locals none).signals?,
          ∀ caller, ∀ job ∈ (session.stages caller).job?,
            (session.requests.pool.table target.2).outputData = some job.answer →
              job.poolId = target.1))
  | .write .. => isTrue trivial

/-- Two callers get their answers in the opposite order. -/
def crossedAnswers : List (SessionLabel Bool) :=
  beginCall true 1 ++ finishSending true ++ beginCall false 2 ++ finishSending false ++
    ([.receive (shortAnswer 2), .read, .read, .receive (shortAnswer 1), .read, .read] :
      List (SessionLabel Bool)) ++
    (List.replicate 3 (.go true) : List (SessionLabel Bool)) ++
    (List.replicate 3 (.go false) : List (SessionLabel Bool))

theorem crossedAnswers_answered :
    ∃ session, machine.run (start Bool .socket 8) crossedAnswers = some session ∧
      session.Answered ∧
      session.history.filterMap (fun event =>
        match event with
        | .returned caller _ exitCode answer => some (caller, exitCode, answer)
        | _ => none) = [(false, 0, (shortAnswer 2).bytes), (true, 0, (shortAnswer 1).bytes)] := by
  have reached : machine.run (start Bool .socket 8) crossedAnswers = some _ := rfl
  exact ⟨_, rfl, answered_of_orderly reached (by decide), rfl⟩

/-- Eight callers wait for their answers when a ninth one comes. -/
def ninthCall : List (SessionLabel (Fin 9)) :=
  (List.finRange 8).flatMap (fun caller =>
    beginCall caller.castSucc (UInt8.ofNat (caller.val + 1)) ++
      finishSending caller.castSucc) ++
  ([.call 8 9 9 (shortRequest 9) 0] : List (SessionLabel (Fin 9))) ++
  (List.replicate 5 (.go 8) : List (SessionLabel (Fin 9))) ++
  finishSending 8 ++ ([.go 8] : List (SessionLabel (Fin 9)))

/-- The ninth call returns 0 and takes its own request for the answer. -/
theorem ninthCall_fabricated :
    ∃ session, machine.run (start (Fin 9) .socket 8) ninthCall = some session ∧
      session.received = [] ∧
      .returned 8 ⟨9, 9, shortRequest 9, 9, 9⟩ 0 (shortRequest 9) ∈ session.history ∧
      ¬session.Answered := by
  have evaluated : (machine.run (start (Fin 9) .socket 8) ninthCall).map (fun session =>
      (session.received.length, session.history.head?)) =
      some (0, some (.returned 8 ⟨9, 9, shortRequest 9, 9, 9⟩ 0 (shortRequest 9))) := by
    decide +kernel
  obtain ⟨session, reached, ends⟩ := Option.map_eq_some_iff.mp evaluated
  obtain ⟨empty, last⟩ := Prod.mk.inj ends
  have nothing := List.length_eq_zero_iff.mp empty
  have event := List.mem_of_head? last
  refine ⟨session, reached, nothing, event, ?_⟩
  intro answered
  obtain ⟨packet, mem, _⟩ := answered.1 _ _ _ event
  rw [nothing] at mem
  cases mem

end Session

end Tegenaria.LibSftp
