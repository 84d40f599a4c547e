import Mathlib.Data.List.Count

/-!
# Lock discipline

Programs of one thread that takes and releases a mutex, reads and writes the data
behind it and calls others.  What the other threads do is part of the surroundings:
each time the mutex is taken, the data are as the others have left them, and calls
may return anything.

A record is kept of all steps, the latest first.  It decides whether the mutex is held.
The rules for `Triple` follow the structure of a program.
-/

namespace Foundation

/-- A step of a program. -/
inductive LockEvent where
  | lock
  | unlock
  | read
  | write
  | call
  deriving DecidableEq

namespace LockEvent

/-- There were more locks than unlocks. -/
def Holds (events : List LockEvent) : Prop := events.count .unlock < events.count .lock

/-- Nothing was unlocked, read or written without the mutex. -/
def Sound : List LockEvent → Prop
  | [] => True
  | .lock :: earlier | .call :: earlier => Sound earlier
  | .unlock :: earlier | .read :: earlier | .write :: earlier => Holds earlier ∧ Sound earlier

/-- The record is sound, and a number of locks have not been unlocked. -/
structure Holding (locks : Nat) (events : List LockEvent) : Prop where
  sound : Sound events
  counts : events.count .lock = events.count .unlock + locks

/-- There were as many unlocks as locks, and all steps that need the mutex had it. -/
abbrev Balanced (events : List LockEvent) : Prop := Holding 0 events

section Steps

variable {locks : Nat} {events : List LockEvent}

theorem balanced_nil : Balanced [] := ⟨trivial, rfl⟩

theorem Holding.holds (holding : Holding (locks + 1) events) : Holds events := by
  have counts := holding.counts
  rw [Holds]
  omega

theorem Holding.lock (holding : Holding locks events) : Holding (locks + 1) (.lock :: events) := by
  refine ⟨holding.sound, ?_⟩
  rw [List.count_cons_self, List.count_cons_of_ne (by decide), holding.counts]
  rfl

theorem Holding.unlock (holding : Holding (locks + 1) events) :
    Holding locks (.unlock :: events) := by
  refine ⟨⟨holding.holds, holding.sound⟩, ?_⟩
  rw [List.count_cons_self, List.count_cons_of_ne (by decide), holding.counts]
  omega

theorem Holding.read (holding : Holding (locks + 1) events) :
    Holding (locks + 1) (.read :: events) := by
  refine ⟨⟨holding.holds, holding.sound⟩, ?_⟩
  rw [List.count_cons_of_ne (by decide), List.count_cons_of_ne (by decide), holding.counts]

theorem Holding.write (holding : Holding (locks + 1) events) :
    Holding (locks + 1) (.write :: events) := by
  refine ⟨⟨holding.holds, holding.sound⟩, ?_⟩
  rw [List.count_cons_of_ne (by decide), List.count_cons_of_ne (by decide), holding.counts]

theorem Holding.call (holding : Holding locks events) : Holding locks (.call :: events) := by
  refine ⟨holding.sound, ?_⟩
  rw [List.count_cons_of_ne (by decide), List.count_cons_of_ne (by decide), holding.counts]

end Steps

end LockEvent

/-! ## Programs -/

/-- What others do: the data they have left when the mutex is taken for the given time, and
what the given call returns. -/
structure Surroundings (Shared : Type) {Call : Type} (Reply : Call → Type) where
  views : Nat → Shared
  replies : Nat → (request : Call) → Reply request

/-- The record, and the data as they were seen last. -/
structure LockState (Shared : Type) where
  events : List LockEvent
  shared : Shared

/-- A program of one thread. -/
abbrev Locking (Shared : Type) {Call : Type} (Reply : Call → Type) (Value : Type) :=
  ReaderT (Surroundings Shared Reply) (StateM (LockState Shared)) Value

namespace Locking

variable {Shared Call : Type} {Reply : Call → Type} {Value Result : Type}

/-- Execute a program. -/
def exec (program : Locking Shared Reply Value) (around : Surroundings Shared Reply)
    (state : LockState Shared) : Value × LockState Shared :=
  (program.run around).run state

/-- The record of a program that starts without the mutex. -/
def events (program : Locking Shared Reply Value) (around : Surroundings Shared Reply)
    (shared : Shared) : List LockEvent :=
  (program.exec around ⟨[], shared⟩).2.events

def lock : Locking Shared Reply Unit :=
  fun around state => ((), ⟨.lock :: state.events, around.views (state.events.count .lock)⟩)

def unlock : Locking Shared Reply Unit :=
  fun _ state => ((), ⟨.unlock :: state.events, state.shared⟩)

def load : Locking Shared Reply Shared :=
  fun _ state => (state.shared, ⟨.read :: state.events, state.shared⟩)

def store (shared : Shared) : Locking Shared Reply Unit :=
  fun _ state => ((), ⟨.write :: state.events, shared⟩)

def call (request : Call) : Locking Shared Reply (Reply request) :=
  fun around state =>
    (around.replies (state.events.count .call) request, ⟨.call :: state.events, state.shared⟩)

/-! ## Rules -/

/-- Where the first condition holds before a program, the second one holds after it. -/
def Triple (around : Surroundings Shared Reply) (before : LockState Shared → Prop)
    (program : Locking Shared Reply Value) (after : Value → LockState Shared → Prop) : Prop :=
  ∀ state, before state → after (program.exec around state).1 (program.exec around state).2

section Rules

variable {around : Surroundings Shared Reply} {before : LockState Shared → Prop}
variable {program : Locking Shared Reply Value} {after : Value → LockState Shared → Prop}

theorem Triple.pure {value : Value} (implies : ∀ state, before state → after value state) :
    Triple around before (pure value : Locking Shared Reply Value) after :=
  implies

theorem Triple.bind {further : Value → Locking Shared Reply Result}
    {last : Result → LockState Shared → Prop} (first : Triple around before program after)
    (next : ∀ value, Triple around (after value) (further value) last) :
    Triple around before (program >>= further) last :=
  fun state holds => next _ _ (first state holds)

theorem Triple.lock {after : Unit → LockState Shared → Prop}
    (implies : ∀ state, before state →
      after () ⟨.lock :: state.events, around.views (state.events.count .lock)⟩) :
    Triple around before Locking.lock after :=
  implies

theorem Triple.unlock {after : Unit → LockState Shared → Prop}
    (implies : ∀ state, before state → after () ⟨.unlock :: state.events, state.shared⟩) :
    Triple around before Locking.unlock after :=
  implies

theorem Triple.load {after : Shared → LockState Shared → Prop}
    (implies : ∀ state, before state → after state.shared ⟨.read :: state.events, state.shared⟩) :
    Triple around before Locking.load after :=
  implies

theorem Triple.store {shared : Shared} {after : Unit → LockState Shared → Prop}
    (implies : ∀ state, before state → after () ⟨.write :: state.events, shared⟩) :
    Triple around before (Locking.store shared) after :=
  implies

/-- Nothing is known about the reply. -/
theorem Triple.call {request : Call} {after : Reply request → LockState Shared → Prop}
    (implies : ∀ state, before state → ∀ reply, after reply ⟨.call :: state.events, state.shared⟩) :
    Triple around before (Locking.call request) after :=
  fun state holds => implies state holds _

end Rules

/-! ## Locks that are held -/

/-- The program keeps the discipline.  Its value tells how many locks it leaves. -/
def Keeps (around : Surroundings Shared Reply) (locks : Nat) (program : Locking Shared Reply Value)
    (left : Value → Nat) : Prop :=
  Triple around (fun state => LockEvent.Holding locks state.events) program
    fun value state => LockEvent.Holding (left value) state.events

section Keeping

variable {around : Surroundings Shared Reply} {locks : Nat} {program : Locking Shared Reply Value}
variable {left : Value → Nat}

theorem Keeps.pure {value : Value} (same : left value = locks) :
    Keeps around locks (pure value : Locking Shared Reply Value) left :=
  Triple.pure fun _ holding => same ▸ holding

theorem Keeps.bind {further : Value → Locking Shared Reply Result} {last : Result → Nat}
    (first : Keeps around locks program left)
    (next : ∀ value, Keeps around (left value) (further value) last) :
    Keeps around locks (program >>= further) last :=
  Triple.bind first next

theorem Keeps.lock : Keeps around locks Locking.lock fun _ => locks + 1 :=
  Triple.lock fun _ holding => holding.lock

theorem Keeps.unlock : Keeps around (locks + 1) Locking.unlock fun _ => locks :=
  Triple.unlock fun _ holding => holding.unlock

theorem Keeps.load : Keeps around (locks + 1) Locking.load fun _ => locks + 1 :=
  Triple.load fun _ holding => holding.read

theorem Keeps.store (shared : Shared) :
    Keeps around (locks + 1) (Locking.store shared) fun _ => locks + 1 :=
  Triple.store fun _ holding => holding.write

theorem Keeps.call (request : Call) : Keeps around locks (Locking.call request) fun _ => locks :=
  Triple.call fun _ holding _ => holding.call

/-- The record of a program that starts without the mutex. -/
theorem Keeps.events (keeps : Keeps around 0 program left) (shared : Shared) :
    LockEvent.Holding (left (program.exec around ⟨[], shared⟩).1) (program.events around shared) :=
  keeps ⟨[], shared⟩ LockEvent.balanced_nil

end Keeping

/-! ## Locks that are taken -/

/-- The program takes the mutex this often. -/
def Takes (around : Surroundings Shared Reply) (count : Nat) (program : Locking Shared Reply Value) :
    Prop :=
  ∀ state, (program.exec around state).2.events.count .lock = state.events.count .lock + count

section Taking

variable {around : Surroundings Shared Reply} {count : Nat}
variable {program : Locking Shared Reply Value}

theorem Takes.pure (value : Value) : Takes around 0 (pure value : Locking Shared Reply Value) :=
  fun _ => rfl

/-- Only the first part takes the mutex. -/
theorem Takes.bind {further : Value → Locking Shared Reply Result} (first : Takes around count program)
    (next : ∀ value, Takes around 0 (further value)) : Takes around count (program >>= further) :=
  fun state => (next _ (program.exec around state).2).trans (first state)

theorem Takes.lock : Takes around 1 (Locking.lock : Locking Shared Reply Unit) :=
  fun _ => List.count_cons_self

theorem Takes.unlock : Takes around 0 (Locking.unlock : Locking Shared Reply Unit) :=
  fun _ => List.count_cons_of_ne (by decide)

theorem Takes.load : Takes around 0 (Locking.load : Locking Shared Reply Shared) :=
  fun _ => List.count_cons_of_ne (by decide)

theorem Takes.store (shared : Shared) :
    Takes around 0 (Locking.store shared : Locking Shared Reply Unit) :=
  fun _ => List.count_cons_of_ne (by decide)

theorem Takes.call (request : Call) : Takes around 0 (Locking.call request) :=
  fun _ => List.count_cons_of_ne (by decide)

end Taking

end Locking

end Foundation
