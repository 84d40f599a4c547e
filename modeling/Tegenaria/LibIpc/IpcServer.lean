import Tegenaria.Foundation.Independence
import Tegenaria.LibStr.Text

/-!
# Server loops

`IpcServerLoop` looks into the table of servers, enters its name there, binds a socket to the name and
serves one connection after another until the entry has changed.  Whatever ends the loop, the entry is
reset, also when the loop was rejected because another one has the name.
-/

namespace Tegenaria.LibIpc

open Foundation LibStr

/-- Where a loop stands. -/
inductive Phase where
  | checking
  | registering
  | binding
  | listening
  | serving
  | rereading
  | closing
  | ending (exitCode : Int)
  | returned (exitCode : Int)
deriving DecidableEq

structure Loop where
  name : Text
  phase : Phase
deriving DecidableEq

/-- The table, the loops by their threads, and the sockets bound to the names in the abstract
namespace. -/
structure Servers where
  IpcServerState : Text → Int
  bound : Text → Option Nat
  loops : Nat → Option Loop

inductive Event where
  | start (thread : Nat) (nameIn : Option Text)
  | check (thread : Nat)
  | register (thread : Nat)
  | bind (thread : Nat) (ok : Bool)
  | accept (thread : Nat) (ok : Bool)
  | handled (thread : Nat)
  | reread (thread : Nat)
  | close (thread : Nat)
  | finish (thread : Nat)
  | IpcServerKill
  | IpcServerMarkLastRequest
deriving DecidableEq

/-- An event and the name that it is about. -/
structure Label where
  name : Text
  event : Event
deriving DecidableEq

/-- A name that is missing or too long leaves the name of the loop empty. -/
def acceptedName : Option Text → Text
  | none => []
  | some name => if name.length ≥ 107 then [] else name

def startPhase : Option Text → Phase
  | none => .ending (-1)
  | some name => if name.length ≥ 107 then .ending (-1) else .checking

namespace Servers

def setEntry (servers : Servers) (name : Text) (value : Int) : Servers :=
  { servers with IpcServerState := Function.update servers.IpcServerState name value }

def setPhase (servers : Servers) (name : Text) (thread : Nat) (phase : Phase) : Servers :=
  { servers with loops := Function.update servers.loops thread (some { name, phase }) }

def setBound (servers : Servers) (name : Text) (owner : Option Nat) : Servers :=
  { servers with bound := Function.update servers.bound name owner }

/-- A loop of the name stands at the phase. -/
def At (servers : Servers) (name : Text) (thread : Nat) (phase : Phase) : Prop :=
  servers.loops thread = some { name, phase }

instance decidableAt (servers : Servers) (name : Text) (thread : Nat) (phase : Phase) :
    Decidable (servers.At name thread phase) := inferInstanceAs (Decidable (_ = _))

@[grind =] def step (servers : Servers) (name : Text) : Event → Option Servers
  | .start thread nameIn =>
      if servers.loops thread = none ∧ name = acceptedName nameIn then
        some (servers.setPhase name thread (startPhase nameIn))
      else none
  | .check thread =>
      if servers.At name thread .checking then
        some (servers.setPhase name thread
          (if servers.IpcServerState name = 1 then .ending (-1) else .registering))
      else none
  | .register thread =>
      if servers.At name thread .registering then
        some ((servers.setEntry name 1).setPhase name thread .binding)
      else none
  | .bind thread ok =>
      if servers.At name thread .binding then
        if ok then
          if servers.bound name = none then
            some ((servers.setBound name (some thread)).setPhase name thread .listening)
          else none
        else some (servers.setPhase name thread (.ending (-1)))
      else none
  | .accept thread ok =>
      -- The socket stays open if `listen` or `accept` fails.
      if servers.At name thread .listening then
        some (servers.setPhase name thread (if ok then .serving else .ending (-1)))
      else none
  | .handled thread =>
      if servers.At name thread .serving then some (servers.setPhase name thread .rereading) else none
  | .reread thread =>
      if servers.At name thread .rereading then
        some (servers.setPhase name thread
          (if servers.IpcServerState name = 1 then .listening else .closing))
      else none
  | .close thread =>
      if servers.At name thread .closing then
        some ((servers.setBound name none).setPhase name thread (.ending 0))
      else none
  | .finish thread =>
      match servers.loops thread with
      | some { name := own, phase := .ending exitCode } =>
          if own = name then some ((servers.setEntry name 0).setPhase name thread (.returned exitCode))
          else none
      | _ => none
  | .IpcServerKill => some (servers.setEntry name (-1))
  | .IpcServerMarkLastRequest => some (servers.setEntry name (-1))

end Servers

/-- The threads of a process that run server loops. -/
def machine : Machine Servers Label where
  step servers label := servers.step label.name label.event

def noServers : Servers where
  IpcServerState _ := 0
  bound _ := none
  loops _ := none

/-! ## What a step changes -/

variable {servers next : Servers} {name other : Text} {thread : Nat} {phase : Phase} {event : Event}

/-- The loop a step belongs to, and the phases it goes from and to. -/
def Event.Moves (servers : Servers) (name : Text) (event : Event) (thread : Nat) (phase : Phase) : Prop :=
  match event with
  | .start own nameIn => own = thread ∧ servers.loops thread = none ∧ startPhase nameIn = phase
  | .check own => own = thread ∧ servers.At name thread .checking ∧
      (if servers.IpcServerState name = 1 then Phase.ending (-1) else .registering) = phase
  | .register own => own = thread ∧ servers.At name thread .registering ∧ .binding = phase
  | .bind own ok => own = thread ∧ servers.At name thread .binding ∧
      (ok = true → servers.bound name = none) ∧ (if ok then Phase.listening else .ending (-1)) = phase
  | .accept own ok => own = thread ∧ servers.At name thread .listening ∧
      (if ok then Phase.serving else .ending (-1)) = phase
  | .handled own => own = thread ∧ servers.At name thread .serving ∧ .rereading = phase
  | .reread own => own = thread ∧ servers.At name thread .rereading ∧
      (if servers.IpcServerState name = 1 then Phase.listening else .closing) = phase
  | .close own => own = thread ∧ servers.At name thread .closing ∧ .ending 0 = phase
  | .finish own => own = thread ∧ ∃ exitCode, servers.At name thread (.ending exitCode) ∧
      .returned exitCode = phase
  | .IpcServerKill => False
  | .IpcServerMarkLastRequest => False

/-- What is written to the entry of the name. -/
def Event.entry (old : Int) : Event → Int
  | .register _ => 1
  | .finish _ => 0
  | .IpcServerKill => -1
  | .IpcServerMarkLastRequest => -1
  | _ => old

/-- Who has the name behind a step. -/
def Event.owner (old : Option Nat) : Event → Option Nat
  | .bind thread true => some thread
  | .close _ => none
  | _ => old

/-- A step of a loop moves this loop, and changes the entry and the owner of its own name. -/
structure Stepped (servers : Servers) (name : Text) (event : Event) (next : Servers) : Prop where
  entry : next.IpcServerState =
    Function.update servers.IpcServerState name (event.entry (servers.IpcServerState name))
  owner : next.bound = Function.update servers.bound name (event.owner (servers.bound name))
  loops : next.loops = servers.loops ∧ (∀ thread phase, ¬event.Moves servers name thread phase) ∨
    ∃ thread phase, event.Moves servers name thread phase ∧
      next.loops = Function.update servers.loops thread (some { name, phase })

theorem stepped (done : servers.step name event = some next) : Stepped servers name event next := by
  cases event with
  | start own nameIn =>
      simp only [Servers.step, Option.ite_none_right_eq_some, Option.some.injEq] at done
      obtain ⟨⟨fresh, rfl⟩, rfl⟩ := done
      exact ⟨(Function.update_eq_self ..).symm, (Function.update_eq_self ..).symm,
        .inr ⟨own, _, ⟨rfl, fresh, rfl⟩, rfl⟩⟩
  | check own =>
      simp only [Servers.step, Option.ite_none_right_eq_some, Option.some.injEq] at done
      obtain ⟨here, rfl⟩ := done
      exact ⟨(Function.update_eq_self ..).symm, (Function.update_eq_self ..).symm,
        .inr ⟨own, _, ⟨rfl, here, rfl⟩, rfl⟩⟩
  | register own =>
      simp only [Servers.step, Option.ite_none_right_eq_some, Option.some.injEq] at done
      obtain ⟨here, rfl⟩ := done
      exact ⟨rfl, (Function.update_eq_self ..).symm, .inr ⟨own, _, ⟨rfl, here, rfl⟩, rfl⟩⟩
  | bind own ok =>
      cases ok with
      | true =>
          simp only [Servers.step, Option.ite_none_right_eq_some, Option.some.injEq, if_true] at done
          obtain ⟨here, free, rfl⟩ := done
          exact ⟨(Function.update_eq_self ..).symm, rfl,
            .inr ⟨own, _, ⟨rfl, here, fun _ => free, rfl⟩, rfl⟩⟩
      | false =>
          simp only [Servers.step, Option.ite_none_right_eq_some, Option.some.injEq, Bool.false_eq_true,
            if_false] at done
          obtain ⟨here, rfl⟩ := done
          exact ⟨(Function.update_eq_self ..).symm, (Function.update_eq_self ..).symm,
            .inr ⟨own, _, ⟨rfl, here, nofun, rfl⟩, rfl⟩⟩
  | accept own ok =>
      simp only [Servers.step, Option.ite_none_right_eq_some, Option.some.injEq] at done
      obtain ⟨here, rfl⟩ := done
      exact ⟨(Function.update_eq_self ..).symm, (Function.update_eq_self ..).symm,
        .inr ⟨own, _, ⟨rfl, here, rfl⟩, rfl⟩⟩
  | handled own =>
      simp only [Servers.step, Option.ite_none_right_eq_some, Option.some.injEq] at done
      obtain ⟨here, rfl⟩ := done
      exact ⟨(Function.update_eq_self ..).symm, (Function.update_eq_self ..).symm,
        .inr ⟨own, _, ⟨rfl, here, rfl⟩, rfl⟩⟩
  | reread own =>
      simp only [Servers.step, Option.ite_none_right_eq_some, Option.some.injEq] at done
      obtain ⟨here, rfl⟩ := done
      exact ⟨(Function.update_eq_self ..).symm, (Function.update_eq_self ..).symm,
        .inr ⟨own, _, ⟨rfl, here, rfl⟩, rfl⟩⟩
  | close own =>
      simp only [Servers.step, Option.ite_none_right_eq_some, Option.some.injEq] at done
      obtain ⟨here, rfl⟩ := done
      exact ⟨(Function.update_eq_self ..).symm, rfl, .inr ⟨own, _, ⟨rfl, here, rfl⟩, rfl⟩⟩
  | finish own =>
      rw [Servers.step] at done
      split at done
      · next named exitCode here =>
          obtain ⟨rfl, done⟩ := Option.ite_none_right_eq_some.mp done
          cases done
          exact ⟨rfl, (Function.update_eq_self ..).symm, .inr ⟨own, _, ⟨rfl, exitCode, here, rfl⟩, rfl⟩⟩
      · cases done
  | IpcServerKill =>
      cases done
      exact ⟨rfl, (Function.update_eq_self ..).symm, .inl ⟨rfl, fun _ _ => id⟩⟩
  | IpcServerMarkLastRequest =>
      cases done
      exact ⟨rfl, (Function.update_eq_self ..).symm, .inl ⟨rfl, fun _ _ => id⟩⟩

/-- The loop that moves was not there, or it has the name of the step. -/
theorem from_own (moves : event.Moves servers name thread phase) :
    servers.loops thread = none ∨ ∃ before, servers.At name thread before := by
  cases event with
  | start own nameIn => exact .inl moves.2.1
  | check own => exact .inr ⟨_, moves.2.1⟩
  | register own => exact .inr ⟨_, moves.2.1⟩
  | bind own ok => exact .inr ⟨_, moves.2.1⟩
  | accept own ok => exact .inr ⟨_, moves.2.1⟩
  | handled own => exact .inr ⟨_, moves.2.1⟩
  | reread own => exact .inr ⟨_, moves.2.1⟩
  | close own => exact .inr ⟨_, moves.2.1⟩
  | finish own =>
      obtain ⟨-, exitCode, here, -⟩ := moves
      exact .inr ⟨_, here⟩
  | IpcServerKill => cases moves
  | IpcServerMarkLastRequest => cases moves

/-- A loop of another name stays where it is. -/
theorem at_other (done : servers.step name event = some next) (apart : other ≠ name) :
    next.At other thread phase ↔ servers.At other thread phase := by
  rcases (stepped done).loops with ⟨same, -⟩ | ⟨own, after, moves, changed⟩
  · rw [Servers.At, same, Servers.At]
  · rw [Servers.At, changed, Servers.At]
    by_cases own_thread : thread = own
    · subst own_thread
      rw [Function.update_self]
      constructor
      · intro equal
        cases equal
        exact (apart rfl).elim
      · intro here
        rcases from_own moves with fresh | ⟨before, owned⟩
        · cases fresh.symm.trans here
        · cases owned.symm.trans here
          exact (apart rfl).elim
    · rw [Function.update_of_ne own_thread]

/-! ## Servers of different names -/

/-- The processes agree on what concerns a name, and in the second one there is nothing else. -/
structure SameServer (name : Text) (servers part : Servers) : Prop where
  entry : servers.IpcServerState name = part.IpcServerState name
  owner : servers.bound name = part.bound name
  at_iff : ∀ thread phase, servers.At name thread phase ↔ part.At name thread phase
  only : ∀ thread, servers.loops thread = none → part.loops thread = none

namespace SameServer

variable {part : Servers}

theorem setPhase (same : SameServer name servers part) (thread : Nat) (phase : Phase) :
    SameServer name (servers.setPhase name thread phase) (part.setPhase name thread phase) where
  entry := same.entry
  owner := same.owner
  at_iff own at_phase := by
    by_cases own_thread : own = thread
    · subst own_thread
      simp only [Servers.At, Servers.setPhase, Function.update_self]
    · simp only [Servers.At, Servers.setPhase, Function.update_of_ne own_thread]
      exact same.at_iff own at_phase
  only own missing := by
    by_cases own_thread : own = thread
    · subst own_thread
      simp only [Servers.setPhase, Function.update_self, reduceCtorEq] at missing
    · simp only [Servers.setPhase, Function.update_of_ne own_thread] at missing ⊢
      exact same.only own missing

theorem setEntry (same : SameServer name servers part) (value : Int) :
    SameServer name (servers.setEntry name value) (part.setEntry name value) where
  entry := by simp only [Servers.setEntry, Function.update_self]
  owner := same.owner
  at_iff := same.at_iff
  only := same.only

theorem setBound (same : SameServer name servers part) (owner : Option Nat) :
    SameServer name (servers.setBound name owner) (part.setBound name owner) where
  entry := same.entry
  owner := by simp only [Servers.setBound, Function.update_self]
  at_iff := same.at_iff
  only := same.only

/-- A step on the name is possible in both, and they agree behind it. -/
theorem step (same : SameServer name servers part) (done : servers.step name event = some next) :
    ∃ after, part.step name event = some after ∧ SameServer name next after := by
  cases event with
  | start own nameIn =>
      simp only [Servers.step, Option.ite_none_right_eq_some, Option.some.injEq] at done ⊢
      obtain ⟨⟨fresh, named⟩, rfl⟩ := done
      exact ⟨_, ⟨⟨same.only own fresh, named⟩, rfl⟩, same.setPhase ..⟩
  | check own =>
      simp only [Servers.step, Option.ite_none_right_eq_some, Option.some.injEq] at done ⊢
      obtain ⟨here, rfl⟩ := done
      rw [same.entry]
      exact ⟨_, ⟨(same.at_iff ..).mp here, rfl⟩, same.setPhase ..⟩
  | register own =>
      simp only [Servers.step, Option.ite_none_right_eq_some, Option.some.injEq] at done ⊢
      obtain ⟨here, rfl⟩ := done
      exact ⟨_, ⟨(same.at_iff ..).mp here, rfl⟩, (same.setEntry 1).setPhase ..⟩
  | bind own ok =>
      simp only [Servers.step, Option.ite_none_right_eq_some] at done ⊢
      obtain ⟨here, done⟩ := done
      cases ok with
      | true =>
          simp only [if_true, Option.ite_none_right_eq_some, Option.some.injEq] at done ⊢
          obtain ⟨free, rfl⟩ := done
          exact ⟨_, ⟨(same.at_iff ..).mp here, by rw [← same.owner]; exact free, rfl⟩,
            (same.setBound _).setPhase ..⟩
      | false =>
          cases done
          exact ⟨_, ⟨(same.at_iff ..).mp here, rfl⟩, same.setPhase ..⟩
  | accept own ok =>
      simp only [Servers.step, Option.ite_none_right_eq_some, Option.some.injEq] at done ⊢
      obtain ⟨here, rfl⟩ := done
      exact ⟨_, ⟨(same.at_iff ..).mp here, rfl⟩, same.setPhase ..⟩
  | handled own =>
      simp only [Servers.step, Option.ite_none_right_eq_some, Option.some.injEq] at done ⊢
      obtain ⟨here, rfl⟩ := done
      exact ⟨_, ⟨(same.at_iff ..).mp here, rfl⟩, same.setPhase ..⟩
  | reread own =>
      simp only [Servers.step, Option.ite_none_right_eq_some, Option.some.injEq] at done ⊢
      obtain ⟨here, rfl⟩ := done
      rw [same.entry]
      exact ⟨_, ⟨(same.at_iff ..).mp here, rfl⟩, same.setPhase ..⟩
  | close own =>
      simp only [Servers.step, Option.ite_none_right_eq_some, Option.some.injEq] at done ⊢
      obtain ⟨here, rfl⟩ := done
      exact ⟨_, ⟨(same.at_iff ..).mp here, rfl⟩, (same.setBound none).setPhase ..⟩
  | finish own =>
      rw [Servers.step] at done
      split at done
      · next named exitCode here =>
          obtain ⟨rfl, done⟩ := Option.ite_none_right_eq_some.mp done
          cases done
          have there := (same.at_iff own (.ending exitCode)).mp here
          rw [Servers.At] at there
          refine ⟨_, ?_, (same.setEntry 0).setPhase own (.returned exitCode)⟩
          rw [Servers.step, there]
          exact if_pos rfl
      · cases done
  | IpcServerKill =>
      cases done
      exact ⟨_, rfl, same.setEntry _⟩
  | IpcServerMarkLastRequest =>
      cases done
      exact ⟨_, rfl, same.setEntry _⟩

/-- A step on another name is not seen. -/
theorem unseen (same : SameServer name servers part) (apart : other ≠ name)
    (done : servers.step other event = some next) : SameServer name next part where
  entry := by
    rw [(stepped done).entry, Function.update_of_ne apart.symm]
    exact same.entry
  owner := by
    rw [(stepped done).owner, Function.update_of_ne apart.symm]
    exact same.owner
  at_iff thread phase := (at_other done apart.symm).trans (same.at_iff thread phase)
  only thread missing := by
    refine same.only thread ?_
    rcases (stepped done).loops with ⟨kept, -⟩ | ⟨own, after, -, changed⟩
    · rwa [← kept]
    · rw [changed] at missing
      by_cases own_thread : thread = own
      · subst own_thread
        rw [Function.update_self] at missing
        cases missing
      · rwa [Function.update_of_ne own_thread] at missing

end SameServer

/-- Servers of different names do not disturb each other: in every interleaving, what was done under one
name is a run of its own, and it ends with the same entry, the same socket and the same loops. -/
theorem run_independent {labels : List Label} {final : Servers}
    (reached : machine.run noServers labels = some final) (name : Text) :
    ∃ alone, machine.run noServers (labels.filter (·.name = name)) = some alone ∧
      SameServer name final alone := by
  refine Machine.run_restrict (fun servers part label next same concerns done => ?_)
    (fun servers part label next same unseen done => ?_) ⟨rfl, rfl, fun _ _ => Iff.rfl, fun _ => id⟩ reached
  · obtain rfl := of_decide_eq_true concerns
    exact same.step done
  · exact same.unseen (of_decide_eq_false unseen) done

/-! ## The end of a server -/

/-- The phases in which a loop has a socket that it will use or close. -/
def Phase.Holding : Phase → Prop
  | .listening | .serving | .rereading | .closing => True
  | _ => False

/-- A loop that holds a socket has the name for itself. -/
def Owned (servers : Servers) : Prop :=
  ∀ name thread phase, servers.At name thread phase → phase.Holding → servers.bound name = some thread

theorem owned_noServers : Owned noServers := fun _ _ _ here => by cases here

/-- Behind a step, a loop of the name is the one that moved, or stands where it stood. -/
theorem at_own (done : servers.step name event = some next) (here : next.At name thread phase) :
    event.Moves servers name thread phase ∨
      servers.At name thread phase ∧ ∀ after, ¬event.Moves servers name thread after := by
  rcases (stepped done).loops with ⟨same, nobody⟩ | ⟨own, after, moves, changed⟩
  · rw [Servers.At, same] at here
    exact .inr ⟨here, nobody thread⟩
  · rw [Servers.At, changed] at here
    by_cases own_thread : thread = own
    · subst own_thread
      rw [Function.update_self] at here
      cases here
      exact .inl moves
    · rw [Function.update_of_ne own_thread] at here
      refine .inr ⟨here, fun other absurd => own_thread ?_⟩
      cases event <;> first | exact (absurd.1.symm.trans moves.1).symm ▸ rfl | cases absurd

theorem startPhase_not_holding (nameIn : Option Text) : ¬(startPhase nameIn).Holding := by
  cases nameIn with
  | none => exact id
  | some name =>
      rw [startPhase]
      split <;> exact id

theorem owner_eq (owned : Owned servers) (done : servers.step name event = some next)
    (moves : event.Moves servers name thread phase) (holding : phase.Holding) :
    event.owner (servers.bound name) = some thread := by
  cases event with
  | bind own ok =>
      obtain ⟨rfl, -, -, rfl⟩ := moves
      cases ok with
      | true => rfl
      | false => cases holding
  | accept own ok =>
      obtain ⟨rfl, here, rfl⟩ := moves
      exact owned _ _ _ here trivial
  | handled own =>
      obtain ⟨rfl, here, rfl⟩ := moves
      exact owned _ _ _ here trivial
  | reread own =>
      obtain ⟨rfl, here, rfl⟩ := moves
      exact owned _ _ _ here trivial
  | start own nameIn =>
      obtain ⟨-, -, rfl⟩ := moves
      exact (startPhase_not_holding nameIn holding).elim
  | check own =>
      obtain ⟨-, -, rfl⟩ := moves
      split at holding <;> cases holding
  | register own =>
      obtain ⟨-, -, rfl⟩ := moves
      cases holding
  | close own =>
      obtain ⟨-, -, rfl⟩ := moves
      cases holding
  | finish own =>
      obtain ⟨-, _, -, rfl⟩ := moves
      cases holding
  | IpcServerKill => cases moves
  | IpcServerMarkLastRequest => cases moves

theorem owned_step (owned : Owned servers) (done : servers.step name event = some next) : Owned next := by
  intro other thread phase here holding
  rw [(stepped done).owner]
  by_cases same : other = name
  · subst same
    rw [Function.update_self]
    rcases at_own done here with moves | ⟨stays, notMoved⟩
    · exact owner_eq owned done moves holding
    · have owner := owned _ _ _ stays holding
      cases event with
      | bind own ok =>
          cases ok with
          | true =>
              have free : servers.bound other = none := by
                simp only [Servers.step, if_true, Option.ite_none_right_eq_some] at done
                exact done.2.1
              rw [owner] at free
              cases free
          | false => exact owner
      | close own =>
          have closes : servers.At other own .closing := by
            simp only [Servers.step, Option.ite_none_right_eq_some] at done
            exact done.1
          have same := owned _ _ _ closes trivial
          rw [owner] at same
          cases same
          exact (notMoved _ ⟨rfl, closes, rfl⟩).elim
      | start => exact owner
      | check => exact owner
      | register => exact owner
      | accept => exact owner
      | handled => exact owner
      | reread => exact owner
      | finish => exact owner
      | IpcServerKill => exact owner
      | IpcServerMarkLastRequest => exact owner
  · rw [Function.update_of_ne same]
    exact owned _ _ _ ((at_other done same).mp here) holding

theorem run_owned {labels : List Label} (reached : machine.run noServers labels = some servers) : Owned servers :=
  have preserved : ∀ state label after, Owned state → machine.step state label = some after → Owned after :=
    fun _ _ _ owned done => owned_step owned done
  Machine.run_preserves preserved owned_noServers reached

/-- The events after which the entry is not that of a running server. -/
def Event.Resets : Event → Prop
  | .finish _ | .IpcServerKill | .IpcServerMarkLastRequest => True
  | _ => False

/-- A loop that is on its way to its next connection. -/
def Expects (servers : Servers) (name : Text) (thread : Nat) : Prop :=
  servers.At name thread .binding ∨ servers.At name thread .listening

instance decidableExpects (servers : Servers) (name : Text) (thread : Nat) :
    Decidable (Expects servers name thread) :=
  inferInstanceAs (Decidable (_ ∨ _))

theorem not_expects_startPhase (nameIn : Option Text) :
    startPhase nameIn ≠ .binding ∧ startPhase nameIn ≠ .listening := by
  cases nameIn with
  | none => simp [startPhase]
  | some name =>
      rw [startPhase]
      split <;> simp

/-- While the entry is not that of a running server, only a loop that has registered before comes to
expect a connection. -/
theorem moves_expects (idle : servers.IpcServerState name ≠ 1) (quiet : ∀ own, event ≠ .register own)
    (expecting : phase = .binding ∨ phase = .listening) (moves : event.Moves servers name thread phase) :
    servers.At name thread .binding ∧ event = .bind thread true := by
  cases event with
  | start own nameIn =>
      obtain ⟨-, -, rfl⟩ := moves
      exact (expecting.elim (not_expects_startPhase nameIn).1 (not_expects_startPhase nameIn).2).elim
  | check own =>
      obtain ⟨-, -, rfl⟩ := moves
      rw [if_neg idle] at expecting
      rcases expecting with absurd | absurd <;> cases absurd
  | register own => exact (quiet own rfl).elim
  | bind own ok =>
      obtain ⟨rfl, here, -, rfl⟩ := moves
      cases ok with
      | true => exact ⟨here, rfl⟩
      | false => rcases expecting with absurd | absurd <;> cases absurd
  | accept own ok =>
      obtain ⟨-, -, rfl⟩ := moves
      cases ok <;> rcases expecting with absurd | absurd <;> cases absurd
  | handled own =>
      obtain ⟨-, -, rfl⟩ := moves
      rcases expecting with absurd | absurd <;> cases absurd
  | reread own =>
      obtain ⟨-, -, rfl⟩ := moves
      rw [if_neg idle] at expecting
      rcases expecting with absurd | absurd <;> cases absurd
  | close own =>
      obtain ⟨-, -, rfl⟩ := moves
      rcases expecting with absurd | absurd <;> cases absurd
  | finish own =>
      obtain ⟨-, _, -, rfl⟩ := moves
      rcases expecting with absurd | absurd <;> cases absurd
  | IpcServerKill => cases moves
  | IpcServerMarkLastRequest => cases moves

theorem expects_step (idle : servers.IpcServerState name ≠ 1) (quiet : ∀ own, event ≠ .register own)
    (done : servers.step name event = some next) (expects : Expects next name thread) :
    Expects servers name thread ∧ event ≠ .accept thread true := by
  have here {phase : Phase} (expecting : phase = .binding ∨ phase = .listening)
      (stands : next.At name thread phase) :
      Expects servers name thread ∧ event ≠ .accept thread true := by
    rcases at_own done stands with moves | ⟨stays, notMoved⟩
    · obtain ⟨binds, rfl⟩ := moves_expects idle quiet expecting moves
      exact ⟨.inl binds, nofun⟩
    · refine ⟨?_, ?_⟩
      · rcases expecting with rfl | rfl
        · exact .inl stays
        · exact .inr stays
      rintro rfl
      have listens : servers.At name thread .listening := by
        simp only [Servers.step, Option.ite_none_right_eq_some] at done
        exact done.1
      exact notMoved _ ⟨rfl, listens, rfl⟩
  rcases expects with binding | listening
  · exact here (.inl rfl) binding
  · exact here (.inr rfl) listening

theorem entry_step (idle : servers.IpcServerState name ≠ 1)
    (quiet : other = name → ∀ own, event ≠ .register own) (done : servers.step other event = some next) :
    next.IpcServerState name ≠ 1 := by
  rw [(stepped done).entry]
  by_cases same : name = other
  · subst same
    rw [Function.update_self]
    cases event with
    | register own => exact (quiet rfl own rfl).elim
    | finish => exact Int.zero_ne_one
    | IpcServerKill => exact nofun
    | IpcServerMarkLastRequest => exact nofun
    | start => exact idle
    | check => exact idle
    | bind => exact idle
    | accept => exact idle
    | handled => exact idle
    | reread => exact idle
    | close => exact idle
  · rwa [Function.update_of_ne same]

/-- The connections that a loop serves in the rest of a run. -/
def served (name : Text) (thread : Nat) (labels : List Label) : Nat :=
  labels.count { name, event := .accept thread true }

theorem served_le {labels : List Label} {final : Servers} (idle : servers.IpcServerState name ≠ 1)
    (quiet : ∀ label ∈ labels, label.name = name → ∀ own, label.event ≠ .register own)
    (reached : machine.run servers labels = some final) :
    served name thread labels ≤ (if Expects servers name thread then 1 else 0) ∧
      final.IpcServerState name ≠ 1 := by
  induction labels generalizing servers with
  | nil =>
      cases reached
      exact ⟨Nat.zero_le _, idle⟩
  | cons label labels ih =>
      obtain ⟨next, done, rest⟩ := Machine.run_cons_eq_some.mp reached
      obtain ⟨now, later⟩ := List.forall_mem_cons.mp quiet
      obtain ⟨few, still⟩ := ih (entry_step idle now done) later rest
      refine ⟨?_, still⟩
      rw [served, List.count_cons, ← served]
      by_cases serves : label = { name, event := .accept thread true }
      · subst serves
        have listens : Expects servers name thread := by
          have here : servers.step name (.accept thread true) = some next := done
          simp only [Servers.step, Option.ite_none_right_eq_some] at here
          exact .inr here.1
        have idle : ¬Expects next name thread := fun expects =>
          (expects_step idle (now rfl) done expects).2 rfl
        rw [if_neg idle] at few
        rw [if_pos listens, if_pos (beq_self_eq_true _)]
        omega
      · have kept : Expects next name thread → Expects servers name thread := by
          intro expects
          by_cases same : label.name = name
          · obtain ⟨named, event⟩ := label
            obtain rfl : named = name := same
            exact (expects_step idle (now rfl) done expects).1
          · exact expects.imp (at_other done (Ne.symm same)).mp (at_other done (Ne.symm same)).mp
        rw [if_neg (by rwa [beq_iff_eq]), Nat.add_zero]
        refine Nat.le_trans few ?_
        split
        · next expects => rw [if_pos (kept expects)]
        · exact Nat.zero_le _

/-- Once a loop on a name has ended, or the server was killed or marked, every loop on the name serves at
most one connection more, unless a loop registers anew.  It makes no difference that the loop that ended
was rejected because another one was running, which is the one that stops then. -/
theorem run_deregistered {before after : List Label} {final : Servers} (resets : event.Resets)
    (quiet : ∀ label ∈ after, label.name = name → ∀ own, label.event ≠ .register own)
    (reached : machine.run noServers (before ++ { name, event } :: after) = some final) :
    final.IpcServerState name ≠ 1 ∧ ∀ thread, served name thread after ≤ 1 := by
  obtain ⟨middle, -, rest⟩ := Machine.run_append_eq_some.mp reached
  obtain ⟨next, done, later⟩ := Machine.run_cons_eq_some.mp rest
  have idle : next.IpcServerState name ≠ 1 := by
    rw [(stepped done).entry, Function.update_self]
    cases event with
    | finish => exact Int.zero_ne_one
    | IpcServerKill => exact nofun
    | IpcServerMarkLastRequest => exact nofun
    | _ => cases resets
  have bound (thread : Nat) : served name thread after ≤ (if Expects next name thread then 1 else 0) ∧
      final.IpcServerState name ≠ 1 := served_le idle quiet later
  refine ⟨(bound 0).2, fun thread => ?_⟩
  refine Nat.le_trans (bound thread).1 ?_
  split
  · exact Nat.le_refl 1
  · exact Nat.zero_le 1

/-- A server that serves its last connection because a second one was rejected. -/
def rejected : List Label :=
  [⟨['a'], .start 1 (some ['a'])⟩, ⟨['a'], .check 1⟩, ⟨['a'], .register 1⟩, ⟨['a'], .bind 1 true⟩,
    ⟨['a'], .start 2 (some ['a'])⟩, ⟨['a'], .check 2⟩]

/-- The last connection. -/
def lastConnection : List Label :=
  [⟨['b'], .IpcServerKill⟩, ⟨['a'], .accept 1 true⟩, ⟨['a'], .handled 1⟩, ⟨['a'], .reread 1⟩, ⟨['a'], .close 1⟩,
    ⟨['a'], .finish 1⟩]

def rejectedRun : List Label := rejected ++ ⟨['a'], .finish 2⟩ :: lastConnection

theorem rejectedRun_ends : ∃ final, machine.run noServers rejectedRun = some final := ⟨_, rfl⟩

theorem run_independent_rejected : ∃ final alone, machine.run noServers rejectedRun = some final ∧
    machine.run noServers (rejectedRun.filter (·.name = ['a'])) = some alone ∧
      SameServer ['a'] final alone := by
  obtain ⟨final, reached⟩ := rejectedRun_ends
  obtain ⟨alone, ran, same⟩ := run_independent reached ['a']
  exact ⟨final, alone, reached, ran, same⟩

theorem run_deregistered_rejected : ∃ final, machine.run noServers rejectedRun = some final ∧
    final.IpcServerState ['a'] ≠ 1 ∧ ∀ thread, served ['a'] thread lastConnection ≤ 1 := by
  obtain ⟨final, reached⟩ := rejectedRun_ends
  have resets : (Event.finish 2).Resets := trivial
  exact ⟨final, reached, run_deregistered resets (by simp [lastConnection]) reached⟩

/-! ## The end of a name -/

/-- The loop has ended, and it still has the socket. -/
def Leaked (name : Text) (thread : Nat) (servers : Servers) : Prop :=
  servers.bound name = some thread ∧
    ∃ exitCode, servers.At name thread (.ending exitCode) ∨ servers.At name thread (.returned exitCode)

/-- A loop that has ended does nothing but to reset the entry. -/
theorem moves_ended {before : Phase} {exitCode : Int} (here : servers.At name thread before)
    (ended : before = .ending exitCode ∨ before = .returned exitCode)
    (moves : event.Moves servers name thread phase) : ∃ exitCode, phase = .returned exitCode := by
  have elsewhere {other : Phase} (there : servers.At name thread other) :
      other = .ending exitCode ∨ other = .returned exitCode := by
    cases here.symm.trans there
    exact ended
  cases event with
  | start own nameIn => cases moves.2.1.symm.trans here
  | check own => rcases elsewhere moves.2.1 with absurd | absurd <;> cases absurd
  | register own => rcases elsewhere moves.2.1 with absurd | absurd <;> cases absurd
  | bind own ok => rcases elsewhere moves.2.1 with absurd | absurd <;> cases absurd
  | accept own ok => rcases elsewhere moves.2.1 with absurd | absurd <;> cases absurd
  | handled own => rcases elsewhere moves.2.1 with absurd | absurd <;> cases absurd
  | reread own => rcases elsewhere moves.2.1 with absurd | absurd <;> cases absurd
  | close own => rcases elsewhere moves.2.1 with absurd | absurd <;> cases absurd
  | finish own =>
      obtain ⟨-, exitCode, -, rfl⟩ := moves
      exact ⟨exitCode, rfl⟩
  | IpcServerKill => cases moves
  | IpcServerMarkLastRequest => cases moves

theorem ended_step {exitCode : Int} (done : servers.step name event = some next)
    (here : servers.At name thread (.ending exitCode) ∨ servers.At name thread (.returned exitCode)) :
    ∃ exitCode, next.At name thread (.ending exitCode) ∨ next.At name thread (.returned exitCode) := by
  rcases (stepped done).loops with ⟨same, -⟩ | ⟨own, after, moves, changed⟩
  · refine ⟨exitCode, ?_⟩
    rwa [Servers.At, Servers.At, same]
  · by_cases own_thread : own = thread
    · subst own_thread
      have returned : ∃ exitCode, after = .returned exitCode := by
        rcases here with ending | returned
        · exact moves_ended ending (.inl rfl) moves
        · exact moves_ended returned (.inr rfl) moves
      obtain ⟨exitCode, rfl⟩ := returned
      refine ⟨exitCode, .inr ?_⟩
      rw [Servers.At, changed, Function.update_self]
    · refine ⟨exitCode, ?_⟩
      rwa [Servers.At, Servers.At, changed, Function.update_of_ne (Ne.symm own_thread)]

theorem leaked_step (owned : Owned servers) (leaked : Leaked name thread servers)
    (done : servers.step other event = some next) :
    Leaked name thread next ∧ (other = name → ∀ own, event ≠ .bind own true) := by
  obtain ⟨held, exitCode, ended⟩ := leaked
  by_cases same : other = name
  · subst same
    have noBind : ∀ own, event ≠ .bind own true := by
      rintro own rfl
      simp only [Servers.step, if_true, Option.ite_none_right_eq_some, held, reduceCtorEq] at done
      exact done.2.1
    have stays : event.owner (servers.bound other) = some thread := by
      cases event with
      | bind own ok =>
          cases ok with
          | true => exact (noBind own rfl).elim
          | false => exact held
      | close own =>
          simp only [Servers.step, Option.ite_none_right_eq_some] at done
          have mine := owned _ _ _ done.1 trivial
          rw [held] at mine
          cases mine
          rcases ended with here | here <;> cases here.symm.trans done.1
      | _ => exact held
    refine ⟨⟨?_, ended_step done ended⟩, fun _ => noBind⟩
    rw [(stepped done).owner, Function.update_self]
    exact stays
  · refine ⟨⟨?_, exitCode, ?_⟩, fun absurd => (same absurd).elim⟩
    · rw [(stepped done).owner, Function.update_of_ne (Ne.symm same)]
      exact held
    · exact ended.imp (at_other done (Ne.symm same)).mpr (at_other done (Ne.symm same)).mpr

theorem run_leaked_from {labels : List Label} {final : Servers} (owned : Owned servers)
    (leaked : Leaked name thread servers) (reached : machine.run servers labels = some final) :
    final.bound name = some thread ∧ ∀ own, { name, event := .bind own true } ∉ labels := by
  induction labels generalizing servers with
  | nil =>
      cases reached
      exact ⟨leaked.1, fun _ => List.not_mem_nil⟩
  | cons label labels ih =>
      obtain ⟨next, done, rest⟩ := Machine.run_cons_eq_some.mp reached
      obtain ⟨still, noBind⟩ := leaked_step owned leaked done
      obtain ⟨held, none_later⟩ := ih (owned_step owned done) still rest
      refine ⟨held, fun own member => ?_⟩
      rcases List.mem_cons.mp member with rfl | later
      · exact noBind rfl own rfl
      · exact none_later own later

/-- A loop that fails to accept a connection leaves its socket open, and no server can be started on the
name any more. -/
theorem run_leaked {before after : List Label} {final : Servers}
    (reached : machine.run noServers (before ++ { name, event := .accept thread false } :: after) = some final) :
    final.bound name = some thread ∧ ∀ own, { name, event := .bind own true } ∉ after := by
  obtain ⟨middle, earlier, rest⟩ := Machine.run_append_eq_some.mp reached
  obtain ⟨next, done, later⟩ := Machine.run_cons_eq_some.mp rest
  have owned := run_owned earlier
  have failed : middle.step name (.accept thread false) = some next := done
  have ownedNext := owned_step owned failed
  simp only [Servers.step, Option.ite_none_right_eq_some, Bool.false_eq_true, if_false, Option.some.injEq]
    at failed
  obtain ⟨listens, rfl⟩ := failed
  refine run_leaked_from ownedNext ⟨owned _ _ _ listens trivial, -1, .inl ?_⟩ later
  exact Function.update_self ..

theorem run_leaked_failed : ∃ final,
    machine.run noServers (rejected ++ ⟨['a'], .accept 1 false⟩ :: [⟨['a'], .finish 1⟩]) = some final ∧
      final.bound ['a'] = some 1 ∧ ∀ own, (⟨['a'], .bind own true⟩ : Label) ∉ [(⟨['a'], .finish 1⟩ : Label)] := by
  have reached : ∃ final,
      machine.run noServers (rejected ++ ⟨['a'], .accept 1 false⟩ :: [⟨['a'], .finish 1⟩]) = some final := ⟨_, rfl⟩
  obtain ⟨final, reached⟩ := reached
  exact ⟨final, reached, run_leaked reached⟩

end Tegenaria.LibIpc
