import Tegenaria.LibJob.Job

/-!
# The life of a job

The creator of a job holds its first reference, and the worker takes one of its own as
its first step.  Whoever releases the last reference runs the destructor, which waits
for the worker thread unless it is called from there.  If the creator releases its
reference after the worker has taken one, the job is destroyed once and nobody uses it
later.
-/

namespace Tegenaria.LibJob

open Foundation

/-! ## Creator and worker -/

/-- Where the creator is: in the constructor, behind it, behind `release`, in the
destructor or behind it. -/
inductive CreatorPoint where
  | constructing (left : List Job.ConstructorStep)
  | constructed
  | released
  | deleting
  | done
  deriving DecidableEq

/-- Where the worker thread is. -/
inductive ThreadPoint where
  | started
  | referenced
  | working
  | ended
  | deleting
  | released
  | exited
  deriving DecidableEq

/-- The job, the threads that use it, how often the destructor was entered and the memory
was freed, and whether somebody used the job after its destructor was entered. -/
structure Lifetime where
  job : Job
  creator : CreatorPoint
  worker : ThreadPoint
  destroyed : Nat
  freed : Nat
  usedDead : Bool

inductive LifeStep where
  | construct
  | creatorCancel
  | creatorRelease
  | creatorDestroy
  | workerAddRef
  | workerPending
  | workerReport (code : Int)
  | workerEnd (outcome : Outcome)
  | workerRelease
  | workerDestroy
  | workerExit

namespace Lifetime

/-- A step of a method of the job. -/
def use (life : Lifetime) (job : Job) : Lifetime :=
  { life with job := job, usedDead := life.usedDead || 0 < life.destroyed }

/-- `release`, with what a thread does next if it has to delete the job or not. -/
def release (life : Lifetime) (deleting kept : Lifetime → Lifetime) : Lifetime :=
  let (job, deleteNeeded) := life.job.release
  if deleteNeeded then deleting { life.use job with destroyed := life.destroyed + 1 }
  else kept (life.use job)

/-- The destructor after its wait; it uses a dead job if it is not the only one. -/
def destroy (life : Lifetime) : Lifetime :=
  { life with freed := life.freed + 1, usedDead := life.usedDead || 1 < life.destroyed }

def step (life : Lifetime) : LifeStep → Option Lifetime
  | .construct =>
      match life.creator with
      | .constructing [] => some { life with creator := .constructed }
      | .constructing (first :: rest) =>
          some { life.use (life.job.constructorStep first) with creator := .constructing rest }
      | _ => none
  | .creatorCancel =>
      if life.creator = .constructed then some (life.use life.job.cancel) else none
  | .creatorRelease =>
      if life.creator = .constructed then
        some (life.release ({ · with creator := .deleting }) ({ · with creator := .released }))
      else none
  | .creatorDestroy =>
      if life.creator = .deleting ∧ life.worker = .exited then
        some { life.destroy with creator := .done }
      else none
  | .workerAddRef =>
      if life.worker = .started then
        some { life.use life.job.addRef with worker := .referenced }
      else none
  | .workerPending =>
      if life.worker = .referenced then
        some { life.use (life.job.setState .pending) with worker := .working }
      else none
  | .workerReport code =>
      if life.worker = .working then some (life.use (life.job.setErrorCode code)) else none
  | .workerEnd outcome =>
      if life.worker = .working then
        some { life.use (life.job.setState outcome.state) with worker := .ended }
      else none
  | .workerRelease =>
      if life.worker = .ended then
        some (life.release ({ · with worker := .deleting }) ({ · with worker := .released }))
      else none
  | .workerDestroy =>
      if life.worker = .deleting then some { life.destroy with worker := .released } else none
  | .workerExit => if life.worker = .released then some { life with worker := .exited } else none

end Lifetime

def lifeMachine : Machine Lifetime LifeStep where
  step := Lifetime.step

/-- The thread has just been started. -/
def startLife (percentCompleted : ℚ) (errorCode : Int) : Lifetime where
  job := .construct percentCompleted errorCode
  creator := .constructing Job.ConstructorStep.all
  worker := .started
  destroyed := 0
  freed := 0
  usedDead := false

/-! ## References -/

/-- The references that the creator holds. -/
@[grind =] def CreatorPoint.references : CreatorPoint → Nat
  | .constructing _ => 1
  | .constructed => 1
  | _ => 0

/-- The references that the worker holds. -/
@[grind =] def ThreadPoint.references : ThreadPoint → Nat
  | .referenced => 1
  | .working => 1
  | .ended => 1
  | _ => 0

/-- Both have given their reference back. -/
def Lifetime.bothReleased (life : Lifetime) : Bool :=
  life.creator.references = 0 ∧ life.worker.references = 0 ∧ life.worker ≠ .started

/-- The number of threads in the destructor. -/
def Lifetime.inDestructor (life : Lifetime) : Nat :=
  (if life.creator = .deleting then 1 else 0) + (if life.worker = .deleting then 1 else 0)

/-- The creator releases its reference only after the worker has taken one. -/
def ReleaseOrdered (life : Lifetime) : LifeStep → Prop
  | .creatorRelease => life.worker ≠ .started
  | _ => True

instance (life : Lifetime) : (label : LifeStep) → Decidable (ReleaseOrdered life label)
  | .creatorRelease => inferInstanceAs (Decidable (life.worker ≠ .started))
  | .construct | .creatorCancel | .creatorDestroy | .workerAddRef | .workerPending
  | .workerReport _ | .workerEnd _ | .workerRelease | .workerDestroy | .workerExit => isTrue trivial

/-- The counter is the number of references, the destructor was entered exactly if both
have released theirs, and nobody has used a dead job. -/
structure Guarded (life : Lifetime) : Prop where
  counted : life.job.refCount = life.creator.references + life.worker.references
  destroyed : life.destroyed = if life.bothReleased then 1 else 0
  freed : life.freed + life.inDestructor = life.destroyed
  unused : life.usedDead = false
  ordered : life.creator.references = 0 → life.worker ≠ .started

/-- As long as somebody holds a reference the job is not destroyed. -/
theorem Guarded.alive {life : Lifetime} (guarded : Guarded life)
    (held : life.creator.references ≠ 0 ∨ life.worker.references ≠ 0 ∨ life.worker = .started) :
    life.destroyed = 0 ∧ life.freed = 0 ∧ life.inDestructor = 0 := by
  have notBoth : life.bothReleased = false := by
    simp only [Lifetime.bothReleased, decide_eq_false_iff_not]
    rintro ⟨creator, worker, started⟩
    rcases held with held | held | held <;> contradiction
  have destroyed := guarded.destroyed
  have freed := guarded.freed
  simp only [notBoth, Bool.false_eq_true, if_false] at destroyed
  omega

/-- As long as somebody holds a reference nobody is in the destructor. -/
theorem Guarded.outside {life : Lifetime} (guarded : Guarded life)
    (held : life.creator.references ≠ 0 ∨ life.worker.references ≠ 0 ∨ life.worker = .started) :
    life.creator ≠ .deleting ∧ life.worker ≠ .deleting := by
  have nobody := (guarded.alive held).2.2
  constructor
  · intro deleting
    simp [Lifetime.inDestructor, deleting] at nobody
  · intro deleting
    simp [Lifetime.inDestructor, deleting] at nobody

/-- A step of a thread that holds a reference or has still to take it. -/
theorem Guarded.use {life : Lifetime} (guarded : Guarded life)
    (held : life.creator.references ≠ 0 ∨ life.worker.references ≠ 0 ∨ life.worker = .started)
    (job : Job) (creator : CreatorPoint) (worker : ThreadPoint)
    (counted : job.refCount = creator.references + worker.references)
    (stillHeld : creator.references ≠ 0 ∨ worker.references ≠ 0)
    (outside : creator ≠ .deleting ∧ worker ≠ .deleting)
    (ordered : creator.references = 0 → worker ≠ .started) :
    Guarded { life.use job with creator := creator, worker := worker } := by
  obtain ⟨notDestroyed, notFreed, _⟩ := guarded.alive held
  refine ⟨counted, ?_, ?_, ?_, ordered⟩
  · have notBoth : ¬(creator.references = 0 ∧ worker.references = 0 ∧ worker ≠ .started) := by
      rintro ⟨creatorNone, workerNone, _⟩
      rcases stillHeld with still | still <;> contradiction
    simp [Lifetime.use, Lifetime.bothReleased, notBoth, notDestroyed]
  · simp [Lifetime.use, Lifetime.inDestructor, outside.1, outside.2, notDestroyed, notFreed]
  · simp [Lifetime.use, guarded.unused, notDestroyed]

/-- The last reference is released: the job is destroyed by the thread that goes on in
the destructor. -/
theorem Guarded.delete {life : Lifetime} (guarded : Guarded life)
    (held : life.creator.references ≠ 0 ∨ life.worker.references ≠ 0 ∨ life.worker = .started)
    (job : Job) (creator : CreatorPoint) (worker : ThreadPoint) (noneLeft : job.refCount = 0)
    (released : creator.references = 0 ∧ worker.references = 0 ∧ worker ≠ .started)
    (inside : creator = .deleting ∧ worker ≠ .deleting ∨ creator ≠ .deleting ∧ worker = .deleting) :
    Guarded
      { life.use job with
        destroyed := life.destroyed + 1
        creator := creator
        worker := worker } := by
  obtain ⟨notDestroyed, notFreed, _⟩ := guarded.alive held
  refine ⟨?_, ?_, ?_, ?_, fun _ => released.2.2⟩
  · simp [Lifetime.use, noneLeft, released.1, released.2.1]
  · simp [Lifetime.bothReleased, released, notDestroyed]
  · rcases inside with ⟨creatorInside, workerOutside⟩ | ⟨creatorOutside, workerInside⟩
    · simp [Lifetime.use, Lifetime.inDestructor, creatorInside, workerOutside, notDestroyed, notFreed]
    · simp [Lifetime.use, Lifetime.inDestructor, creatorOutside, workerInside, notDestroyed, notFreed]
  · simp [Lifetime.use, guarded.unused, notDestroyed]

/-- The only thread in the destructor leaves it. -/
theorem Guarded.destroy {life : Lifetime} (guarded : Guarded life) (inside : life.inDestructor ≠ 0)
    (creator : CreatorPoint) (worker : ThreadPoint)
    (released : creator.references = life.creator.references ∧
      worker.references = life.worker.references ∧ (worker = .started ↔ life.worker = .started))
    (outside : creator ≠ .deleting ∧ worker ≠ .deleting) :
    Guarded { life.destroy with creator := creator, worker := worker } := by
  have freedEq := guarded.freed
  have destroyedEq := guarded.destroyed
  have both : life.bothReleased = true := by
    by_contra notBoth
    rw [if_neg notBoth] at destroyedEq
    omega
  rw [if_pos both] at destroyedEq
  simp only [Lifetime.bothReleased, decide_eq_true_iff] at both
  refine ⟨?_, ?_, ?_, ?_, ?_⟩
  · simp only [Lifetime.destroy, released.1, released.2.1]
    exact guarded.counted
  · simp [Lifetime.destroy, Lifetime.bothReleased, released, both, destroyedEq]
  · simp only [Lifetime.destroy, Lifetime.inDestructor, outside.1, outside.2, if_false]
    omega
  · simp [Lifetime.destroy, guarded.unused, destroyedEq]
  · intro _ started
    exact both.2.2 (released.2.2.mp started)

/-- A step that does not touch the job. -/
theorem Guarded.relabel {life : Lifetime} (guarded : Guarded life) (creator : CreatorPoint)
    (worker : ThreadPoint)
    (references : creator.references = life.creator.references ∧
      worker.references = life.worker.references)
    (started : worker = .started ↔ life.worker = .started)
    (deleting : (creator = .deleting ↔ life.creator = .deleting) ∧
      (worker = .deleting ↔ life.worker = .deleting)) :
    Guarded { life with creator := creator, worker := worker } where
  counted := by
    rw [references.1, references.2]
    exact guarded.counted
  destroyed := by
    have same : { life with creator := creator, worker := worker }.bothReleased =
        life.bothReleased := by
      simp only [Lifetime.bothReleased, references.1, references.2, ne_eq, started]
    rw [same]
    exact guarded.destroyed
  freed := by
    have freed := guarded.freed
    simp only [Lifetime.inDestructor] at freed ⊢
    simp only [deleting.1, deleting.2]
    exact freed
  unused := guarded.unused
  ordered noneLeft isStarted :=
    guarded.ordered (references.1.symm.trans noneLeft) (started.mp isStarted)

/-- A step of the creator. -/
theorem Guarded.creator_use {life : Lifetime} (guarded : Guarded life)
    (held : life.creator.references = 1) (job : Job) (creator : CreatorPoint)
    (sameCount : job.refCount = life.job.refCount) (stillHeld : creator.references = 1)
    (outside : creator ≠ .deleting) : Guarded { life.use job with creator := creator } := by
  have workerOutside := (guarded.outside (.inl (by omega))).2
  refine guarded.use (.inl (by omega)) job creator life.worker ?_ (.inl (by omega))
    ⟨outside, workerOutside⟩ ?_
  · rw [sameCount, guarded.counted, held, stillHeld]
  · intro noneLeft
    omega

/-- A step of the worker that neither takes nor releases its reference. -/
theorem Guarded.worker_use {life : Lifetime} (guarded : Guarded life)
    (held : life.worker.references = 1) (job : Job) (worker : ThreadPoint)
    (sameCount : job.refCount = life.job.refCount) (stillHeld : worker.references = 1) :
    Guarded { life.use job with worker := worker } := by
  have creatorOutside := (guarded.outside (.inr (.inl (by omega)))).1
  have workerOutside : worker ≠ .deleting ∧ worker ≠ .started := by
    constructor <;> rintro rfl <;> simp [ThreadPoint.references] at stillHeld
  refine guarded.use (.inr (.inl (by omega))) job life.creator worker ?_ (.inr (by omega))
    ⟨creatorOutside, workerOutside.1⟩ fun _ => workerOutside.2
  rw [sameCount, guarded.counted, held, stillHeld]

theorem Lifetime.release_last {life : Lifetime} (last : life.job.refCount = 1)
    (deleting kept : Lifetime → Lifetime) :
    life.release deleting kept =
      deleting { life.use life.job.release.1 with destroyed := life.destroyed + 1 } := by
  simp [Lifetime.release, Job.release, last]

theorem Lifetime.release_more {life : Lifetime} (more : life.job.refCount ≠ 1)
    (deleting kept : Lifetime → Lifetime) :
    life.release deleting kept = kept (life.use life.job.release.1) := by
  have notLast : life.job.refCount - 1 ≠ 0 := by omega
  simp [Lifetime.release, Job.release, notLast]

theorem Guarded.creator_release {life : Lifetime} (guarded : Guarded life)
    (constructed : life.creator = .constructed) (taken : life.worker ≠ .started) :
    Guarded (life.release ({ · with creator := .deleting }) ({ · with creator := .released })) := by
  have held : life.creator.references ≠ 0 ∨ life.worker.references ≠ 0 ∨ life.worker = .started :=
    .inl (by simp [constructed, CreatorPoint.references])
  have workerOutside := (guarded.outside held).2
  have counted := guarded.counted
  simp only [constructed, CreatorPoint.references] at counted
  by_cases last : life.job.refCount = 1
  · rw [Lifetime.release_last last]
    have noneLeft : life.job.release.1.refCount = 0 := by simp [Job.release, last]
    exact guarded.delete held life.job.release.1 .deleting life.worker noneLeft
      ⟨rfl, by omega, taken⟩ (.inl ⟨rfl, workerOutside⟩)
  · rw [Lifetime.release_more last]
    refine guarded.use held life.job.release.1 .released life.worker ?_ (.inr (by omega))
      ⟨by decide, workerOutside⟩ fun _ => taken
    simp only [Job.release, CreatorPoint.references]
    omega

theorem Guarded.worker_release {life : Lifetime} (guarded : Guarded life)
    (ended : life.worker = .ended) :
    Guarded (life.release ({ · with worker := .deleting }) ({ · with worker := .released })) := by
  have held : life.creator.references ≠ 0 ∨ life.worker.references ≠ 0 ∨ life.worker = .started :=
    .inr (.inl (by simp [ended, ThreadPoint.references]))
  have creatorOutside := (guarded.outside held).1
  have counted := guarded.counted
  simp only [ended, ThreadPoint.references] at counted
  by_cases last : life.job.refCount = 1
  · rw [Lifetime.release_last last]
    have noneLeft : life.job.release.1.refCount = 0 := by simp [Job.release, last]
    exact guarded.delete held life.job.release.1 life.creator .deleting noneLeft
      ⟨by omega, rfl, by decide⟩ (.inr ⟨creatorOutside, rfl⟩)
  · rw [Lifetime.release_more last]
    refine guarded.use held life.job.release.1 life.creator .released ?_ (.inl (by omega))
      ⟨creatorOutside, by decide⟩ fun _ => by decide
    simp only [Job.release, ThreadPoint.references]
    omega

theorem Guarded.next {life next : Lifetime} {label : LifeStep} (guarded : Guarded life)
    (ordered : ReleaseOrdered life label) (stepped : lifeMachine.step life label = some next) :
    Guarded next := by
  simp only [lifeMachine] at stepped
  cases label with
  | construct =>
      rw [Lifetime.step] at stepped
      split at stepped
      · next constructing =>
          cases stepped
          exact guarded.relabel .constructed life.worker (by rw [constructing]; exact ⟨rfl, rfl⟩)
            Iff.rfl (by simp [constructing])
      · next first rest constructing =>
          cases stepped
          refine guarded.creator_use (by rw [constructing]; rfl) _ (.constructing rest) ?_ rfl
            CreatorPoint.noConfusion
          cases first <;> rfl
      · cases stepped
  | creatorCancel =>
      obtain ⟨constructed, stepped⟩ := Option.ite_none_right_eq_some.mp stepped
      cases stepped
      have held : life.creator.references = 1 := by rw [constructed]; rfl
      exact guarded.creator_use held life.job.cancel life.creator rfl held (by simp [constructed])
  | creatorRelease =>
      obtain ⟨constructed, stepped⟩ := Option.ite_none_right_eq_some.mp stepped
      cases stepped
      exact guarded.creator_release constructed ordered
  | creatorDestroy =>
      obtain ⟨⟨deleting, exited⟩, stepped⟩ := Option.ite_none_right_eq_some.mp stepped
      cases stepped
      refine guarded.destroy (by simp [Lifetime.inDestructor, deleting]) .done life.worker ?_ ?_
      · rw [deleting]
        exact ⟨rfl, rfl, Iff.rfl⟩
      · rw [exited]
        decide
  | workerAddRef =>
      obtain ⟨started, stepped⟩ := Option.ite_none_right_eq_some.mp stepped
      cases stepped
      have creatorOutside := (guarded.outside (.inr (.inr started))).1
      refine guarded.use (.inr (.inr started)) life.job.addRef life.creator .referenced ?_
        (.inr (by decide)) ⟨creatorOutside, by decide⟩ fun _ => by decide
      have counted := guarded.counted
      simp only [started, ThreadPoint.references] at counted
      simp only [Job.addRef, ThreadPoint.references]
      omega
  | workerPending =>
      obtain ⟨referenced, stepped⟩ := Option.ite_none_right_eq_some.mp stepped
      cases stepped
      exact guarded.worker_use (by rw [referenced]; rfl) _ .working rfl rfl
  | workerReport code =>
      obtain ⟨working, stepped⟩ := Option.ite_none_right_eq_some.mp stepped
      cases stepped
      have held : life.worker.references = 1 := by rw [working]; rfl
      exact guarded.worker_use held (life.job.setErrorCode code) life.worker rfl held
  | workerEnd outcome =>
      obtain ⟨working, stepped⟩ := Option.ite_none_right_eq_some.mp stepped
      cases stepped
      exact guarded.worker_use (by rw [working]; rfl) _ .ended rfl rfl
  | workerRelease =>
      obtain ⟨ended, stepped⟩ := Option.ite_none_right_eq_some.mp stepped
      cases stepped
      exact guarded.worker_release ended
  | workerDestroy =>
      obtain ⟨deleting, stepped⟩ := Option.ite_none_right_eq_some.mp stepped
      cases stepped
      have creatorOutside : life.creator ≠ .deleting := by
        intro creatorDeleting
        have destroyedEq := guarded.destroyed
        have freedEq := guarded.freed
        simp only [Lifetime.inDestructor, deleting, creatorDeleting, if_true] at freedEq
        split at destroyedEq <;> omega
      refine guarded.destroy (by simp [Lifetime.inDestructor, deleting]) life.creator .released ?_
        ⟨creatorOutside, by decide⟩
      rw [deleting]
      exact ⟨rfl, rfl, by decide⟩
  | workerExit =>
      obtain ⟨released, stepped⟩ := Option.ite_none_right_eq_some.mp stepped
      cases stepped
      exact guarded.relabel life.creator .exited (by rw [released]; exact ⟨rfl, rfl⟩)
        (by simp [released]) (by simp [released])

theorem guarded_startLife (percentCompleted : ℚ) (errorCode : Int) :
    Guarded (startLife percentCompleted errorCode) where
  counted := rfl
  destroyed := rfl
  freed := rfl
  unused := rfl
  ordered noneLeft := nomatch noneLeft

/-- Both threads have come to their end. -/
def Lifetime.finished (life : Lifetime) : Prop :=
  (life.creator = .released ∨ life.creator = .done) ∧ life.worker = .exited

/-- As long as not both threads have come to their end, one of them can go on in order. -/
theorem Lifetime.progress {life : Lifetime} (unfinished : ¬life.finished) :
    ∃ label, ReleaseOrdered life label ∧ lifeMachine.step life label ≠ none := by
  cases worker : life.worker with
  | started => exact ⟨.workerAddRef, trivial, by simp [lifeMachine, Lifetime.step, worker]⟩
  | referenced => exact ⟨.workerPending, trivial, by simp [lifeMachine, Lifetime.step, worker]⟩
  | working => exact ⟨.workerEnd .finished, trivial, by simp [lifeMachine, Lifetime.step, worker]⟩
  | ended => exact ⟨.workerRelease, trivial, by simp [lifeMachine, Lifetime.step, worker]⟩
  | deleting => exact ⟨.workerDestroy, trivial, by simp [lifeMachine, Lifetime.step, worker]⟩
  | released => exact ⟨.workerExit, trivial, by simp [lifeMachine, Lifetime.step, worker]⟩
  | exited =>
      cases creator : life.creator with
      | constructing left =>
          refine ⟨.construct, trivial, ?_⟩
          cases left <;> simp [lifeMachine, Lifetime.step, creator]
      | constructed =>
          exact ⟨.creatorRelease, by simp [ReleaseOrdered, worker],
            by simp [lifeMachine, Lifetime.step, creator]⟩
      | deleting =>
          exact ⟨.creatorDestroy, trivial, by simp [lifeMachine, Lifetime.step, creator, worker]⟩
      | released => exact absurd ⟨.inl creator, worker⟩ unfinished
      | done => exact absurd ⟨.inr creator, worker⟩ unfinished

/-- In every run in which the creator releases its reference after the worker has taken
one, the counter is the number of references, the destructor is entered exactly when both
have released theirs, nobody uses the job after that, and the threads come to an end with
the memory freed once. -/
theorem job_destroyed_once (percentCompleted : ℚ) (errorCode : Int) (labels : List LifeStep)
    (final : Lifetime)
    (ordered : lifeMachine.AllSteps ReleaseOrdered (startLife percentCompleted errorCode) labels)
    (reached : lifeMachine.run (startLife percentCompleted errorCode) labels = some final) :
    final.job.refCount = final.creator.references + final.worker.references ∧
      final.destroyed = (if final.bothReleased then 1 else 0) ∧
      final.usedDead = false ∧
      (final.finished → final.freed = 1) ∧
      (¬final.finished → ∃ label, ReleaseOrdered final label ∧ lifeMachine.step final label ≠ none) := by
  have guarded : Guarded final :=
    Machine.run_invariant (fun _ _ _ held order stepped => Guarded.next held order stepped)
      (guarded_startLife percentCompleted errorCode) ordered reached
  refine ⟨guarded.counted, guarded.destroyed, guarded.unused, ?_, Lifetime.progress⟩
  rintro ⟨creator, worker⟩
  have destroyedEq := guarded.destroyed
  have freedEq := guarded.freed
  rcases creator with creator | creator <;>
    simp [Lifetime.bothReleased, Lifetime.inDestructor, CreatorPoint.references,
      ThreadPoint.references, creator, worker] at destroyedEq freedEq <;> omega

/-- The creator cancels the job and releases it while the worker is in its callback. -/
def orderedLife : List LifeStep :=
  [.construct, .construct, .workerAddRef, .construct, .construct, .creatorCancel, .workerPending,
    .creatorRelease, .workerEnd .stopped, .workerRelease, .workerDestroy, .workerExit]

theorem orderedLife_destroyed_once :
    ∃ final, lifeMachine.run (startLife 3 3) orderedLife = some final ∧ final.finished ∧
      final.usedDead = false ∧ final.freed = 1 := by
  have points : (lifeMachine.run (startLife 3 3) orderedLife).map
      (fun life => (life.creator, life.worker)) = some (.released, .exited) := by decide
  obtain ⟨final, reached, atEnd⟩ := Option.map_eq_some_iff.mp points
  obtain ⟨creator, worker⟩ := Prod.mk.inj atEnd
  have finished : final.finished := ⟨.inl creator, worker⟩
  obtain ⟨_, _, unused, freed, _⟩ := job_destroyed_once 3 3 orderedLife final (by decide) reached
  exact ⟨final, reached, finished, unused, freed finished⟩

/-- The creator releases the job before the worker has taken its reference: the worker uses
the job in its destructor and destroys it again. -/
theorem job_destroyed_twice :
    (lifeMachine.run (startLife 0 0)
      [.construct, .construct, .construct, .construct, .creatorCancel, .creatorRelease,
        .workerAddRef, .workerPending, .workerEnd .stopped, .workerRelease]).map
      (fun life => (life.destroyed, life.usedDead)) = some (2, true) := by
  decide

end Tegenaria.LibJob
