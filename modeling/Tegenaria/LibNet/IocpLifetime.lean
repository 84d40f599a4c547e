import Tegenaria.LibNet.IocpConnection

/-!
# When the completion port server frees a context

The context is freed by the first worker that finds the connection dropped.  Nothing counts the packets
that are still to come, so what was posted on the socket by then leads a worker to the freed context.
-/

namespace Tegenaria.LibNet.Iocp

open Foundation LibStr

namespace Connection

variable {c next : Connection} {label : Label}

/-- Nothing of a write is on its way. -/
def Quiet (c : Connection) : Prop := c.sends = [] ∧ c.completions = []

instance decidableQuiet (c : Connection) : Decidable c.Quiet :=
  inferInstanceAs (Decidable (c.sends = [] ∧ c.completions = []))

/-- The system does not fail a send, and a worker frees the context only in the place of the read, and when
nothing of a write is on its way. -/
def Gentle (c : Connection) : Label → Prop
  | .abort => False
  | .finish posted => c.dead_ = true ∨ posted = false → c.Quiet
  | .complete count posted =>
      count ≠ 0 ∧ (c.outIoCtx_.written_ + count < c.outIoCtx_.total_ → posted = true)
  | .close => c.Quiet
  | _ => True

instance decidableGentle (c : Connection) : (label : Label) → Decidable (c.Gentle label)
  | .abort => inferInstanceAs (Decidable False)
  | .finish posted => inferInstanceAs (Decidable (c.dead_ = true ∨ posted = false → c.Quiet))
  | .complete count posted =>
      inferInstanceAs
        (Decidable (count ≠ 0 ∧ (c.outIoCtx_.written_ + count < c.outIoCtx_.total_ → posted = true)))
  | .close => inferInstanceAs (Decidable c.Quiet)
  | .arrive | .hangUp | .transfer _ | .handle | .write _ _ | .fail => isTrue trivial

/-- The context is there as long as something will be done with it. -/
structure Unharmed (c : Connection) : Prop where
  unused : c.misused = false
  failures : c.failures = 0
  reading : c.released = false → c.reading ≠ .idle
  settled : c.released = true → c.Quiet ∧ c.reading = .idle

/-- A worker has used the freed context, or will. -/
inductive Doomed (c : Connection) : Prop where
  | misused (misused : c.misused = true)
  | released (released : c.released = true) (outstanding : c.Outstanding)
  | failed (held : c.released = false) (failures : c.failures ≠ 0) (reading : c.reading ≠ .idle)

theorem Unharmed.not_doomed (unharmed : Unharmed c) : ¬ Doomed c := by
  intro doomed
  cases doomed with
  | misused misused => exact absurd misused (ne_true_of_eq_false unharmed.unused)
  | released released outstanding =>
      obtain ⟨⟨-, completions⟩, reading⟩ := unharmed.settled released
      rcases outstanding with waits | failed | busy
      · exact waits completions
      · exact failed unharmed.failures
      · exact busy reading
  | failed _ failures _ => exact failures unharmed.failures

/-- Freeing the context while a read or a packet is still to come. -/
theorem doomed_destroy (outstanding : c.sends ≠ [] ∨ c.Outstanding) : Doomed c.NetIocpContextDestroy := by
  refine .released rfl ?_
  rcases outstanding with posted | waits | failed | busy
  · have some : 0 < c.sends.length := List.length_pos_of_ne_nil posted
    exact .inr (.inl (by change c.failures + c.sends.length ≠ 0; omega))
  · exact .inl waits
  · exact .inr (.inl (by change c.failures + c.sends.length ≠ 0; omega))
  · refine .inr (.inr ?_)
    change (if c.reading = .posted then Reading.ended else c.reading) ≠ .idle
    split_ifs
    · decide
    · exact busy

/-- Freeing the context when nothing is to come. -/
theorem unharmed_destroy (unused : c.misused = false) (failures : c.failures = 0) (quiet : c.Quiet)
    (reading : c.reading = .idle) : Unharmed c.NetIocpContextDestroy := by
  obtain ⟨sends, completions⟩ := quiet
  refine ⟨unused, ?_, fun held => Bool.noConfusion held, fun _ => ⟨⟨rfl, completions⟩, ?_⟩⟩
  · change c.failures + c.sends.length = 0
    rw [failures, sends, List.length_nil]
  · change (if c.reading = .posted then Reading.ended else c.reading) = .idle
    rw [reading]
    rfl

theorem unharmed_held (unused : c.misused = false) (failures : c.failures = 0) (held : c.released = false)
    (reading : c.reading ≠ .idle) : Unharmed c :=
  ⟨unused, failures, fun _ => reading, fun released => absurd released (ne_true_of_eq_false held)⟩

theorem Unharmed.held (unharmed : Unharmed c) (busy : c.sends ≠ [] ∨ c.reading ≠ .idle) : c.released = false := by
  by_contra released
  obtain ⟨⟨sends, -⟩, reading⟩ := unharmed.settled ((Bool.not_eq_false _).mp released)
  exact busy.elim (fun posted => posted sends) fun reads => reads reading

/-! ## Steps -/

theorem Unharmed.gentle (unharmed : Unharmed c) (gentle : c.Gentle label) (moved : Moved c label next) :
    Unharmed next := by
  have reads {reading : Reading} (now : c.reading = reading) (busy : reading ≠ .idle) : c.released = false :=
    unharmed.held (.inr (now ▸ busy))
  cases moved with
  | arrive posted =>
      exact unharmed_held unharmed.unused unharmed.failures (reads posted (by decide)) Reading.noConfusion
  | hangUp posted =>
      exact unharmed_held unharmed.unused unharmed.failures (reads posted (by decide)) Reading.noConfusion
  | transfer first =>
      have held := unharmed.held (.inl (first ▸ List.cons_ne_nil _ _))
      exact unharmed_held unharmed.unused unharmed.failures held (unharmed.reading held)
  | abort => exact gentle.elim
  | misuse _ released outstanding => exact absurd (.released released outstanding) unharmed.not_doomed
  | handle held => exact unharmed_held unharmed.unused unharmed.failures held Reading.noConfusion
  | write held data posted =>
      rw [NetIocpWrite]
      split_ifs <;> exact unharmed_held unharmed.unused unharmed.failures held (unharmed.reading held)
  | finish held posted =>
      rw [readCompleted]
      split_ifs with dead sent
      · exact unharmed_destroy unharmed.unused unharmed.failures (gentle (.inl dead)) rfl
      · exact unharmed_held unharmed.unused unharmed.failures held Reading.noConfusion
      · exact unharmed_destroy unharmed.unused unharmed.failures (gentle (.inr (Bool.eq_false_iff.mpr sent))) rfl
  | complete held posted =>
      obtain ⟨some, rest⟩ := gentle
      rw [writeCompleted_eq, if_neg some]
      split_ifs with more sent
      · exact unharmed_held unharmed.unused unharmed.failures held (unharmed.reading held)
      · exact absurd (rest more) sent
      · exact unharmed_held unharmed.unused unharmed.failures held (unharmed.reading held)
  | fail _ failed => exact absurd unharmed.failures failed
  | close => exact unharmed_destroy unharmed.unused unharmed.failures gentle rfl

theorem Unharmed.harmed (unharmed : Unharmed c) (harsh : ¬ c.Gentle label) (moved : Moved c label next) :
    Doomed next := by
  have waits (unquiet : ¬ c.Quiet) : c.sends ≠ [] ∨ c.completions ≠ [] := not_and_or.mp unquiet
  cases moved with
  | abort first =>
      have held := unharmed.held (.inl (first ▸ List.cons_ne_nil _ _))
      exact .failed held (Nat.succ_ne_zero _) (unharmed.reading held)
  | misuse => exact .misused rfl
  | finish held posted =>
      obtain ⟨drops, unquiet⟩ := Classical.not_imp.mp harsh
      have freed : { c with reading := .idle }.readCompleted posted =
          { c with reading := .idle }.NetIocpContextDestroy := by
        rw [readCompleted]
        rcases drops with dead | failed
        · exact if_pos dead
        · rw [failed, if_neg Bool.false_ne_true, ite_self]
      rw [freed]
      exact doomed_destroy ((waits unquiet).imp id .inl)
  | complete held posted =>
      have busy := unharmed.reading held
      rw [writeCompleted_eq]
      split_ifs with none more sent
      · exact doomed_destroy (.inr (.inr (.inr busy)))
      · exact absurd ⟨none, fun _ => sent⟩ harsh
      · exact doomed_destroy (.inr (.inr (.inr busy)))
      · exact absurd ⟨none, fun more' => absurd more' more⟩ harsh
  | close => exact doomed_destroy ((waits harsh).imp id .inl)
  | _ => exact absurd trivial harsh

/-- Whatever still happens to a freed context is a use of it, or leaves one to come. -/
theorem doomed_of_released (released : c.released = true) (moved : Moved c label next) : Doomed next := by
  have freed (held : c.released = false) : False := absurd released (ne_true_of_eq_false held)
  cases moved with
  | arrive => exact .released released (.inr (.inr Reading.noConfusion))
  | hangUp => exact .released released (.inr (.inr Reading.noConfusion))
  | transfer => exact .released released (.inl (List.append_ne_nil_of_right_ne_nil _ (List.cons_ne_nil _ _)))
  | abort => exact .released released (.inr (.inl (Nat.succ_ne_zero _)))
  | misuse => exact .misused rfl
  | handle held => exact (freed held).elim
  | write held => exact (freed held).elim
  | finish held => exact (freed held).elim
  | complete held => exact (freed held).elim
  | fail held => exact (freed held).elim
  | close held => exact (freed held).elim

/-- After a send has failed, its packet and the read are two ways to free the context. -/
theorem doomed_of_failed (held : c.released = false) (failures : c.failures ≠ 0) (reading : c.reading ≠ .idle)
    (moved : Moved c label next) : Doomed next := by
  cases moved with
  | arrive => exact .failed held failures Reading.noConfusion
  | hangUp => exact .failed held failures Reading.noConfusion
  | transfer => exact .failed held failures reading
  | abort => exact .failed held (Nat.succ_ne_zero _) reading
  | misuse => exact .misused rfl
  | handle => exact .failed held failures Reading.noConfusion
  | write _ data posted =>
      rw [NetIocpWrite]
      split_ifs <;> exact .failed held failures reading
  | finish _ posted =>
      rw [readCompleted]
      split_ifs
      · exact doomed_destroy (.inr (.inr (.inl failures)))
      · exact .failed held failures Reading.noConfusion
      · exact doomed_destroy (.inr (.inr (.inl failures)))
  | complete _ posted =>
      rw [writeCompleted_eq]
      split_ifs
      · exact doomed_destroy (.inr (.inr (.inl failures)))
      · exact .failed held failures reading
      · exact doomed_destroy (.inr (.inr (.inl failures)))
      · exact .failed held failures reading
  | fail => exact doomed_destroy (.inr (.inr (.inr reading)))
  | close => exact doomed_destroy (.inr (.inr (.inl failures)))

/-- Once a use of the freed context is on its way, nothing can stop it. -/
theorem Doomed.step (doomed : Doomed c) (done : c.step label = some next) : Doomed next := by
  cases doomed with
  | misused misused =>
      unfold Connection.step at done
      rw [if_pos misused] at done
      cases done
  | released released _ => exact doomed_of_released released (moved_of_step done)
  | failed held failures reading => exact doomed_of_failed held failures reading (moved_of_step done)

/-- Nothing will be done with the context any more. -/
def Settled (c : Connection) : Prop := c.misused = true ∨ c.released = true ∧ ¬ c.Outstanding

end Connection

/-- No worker uses a context that was freed as long as no send fails, and a worker frees it only in the
place of the read and when nothing of a write is on its way.  Each other step lets some worker use it: when
nothing is left to be done, the freed context has been used exactly if there was such a step. -/
theorem iocp_context_lifetime {cells : Vector UInt8 NET_IOCP_INIT_OUTPUT_BUFFER} {labels : List Label}
    {final : Connection} (reached : workerLoops.run (NetIocpContextCreate cells) labels = some final) :
    (workerLoops.AllSteps Connection.Gentle (NetIocpContextCreate cells) labels → final.misused = false) ∧
    (final.Settled →
      (final.misused = true ↔ ¬ workerLoops.AllSteps Connection.Gentle (NetIocpContextCreate cells) labels)) := by
  let known (c : Connection) : Prop := c.Unharmed ∨ c.Doomed
  have start : Connection.Unharmed (NetIocpContextCreate cells) :=
    Connection.unharmed_held rfl rfl rfl Reading.noConfusion
  have after (c : Connection) (label : Label) (next : Connection) (knownBefore : known c)
      (done : workerLoops.step c label = some next) :
      known next ∧ (next.Unharmed ↔ c.Unharmed ∧ c.Gentle label) := by
    have moved := Connection.moved_of_step done
    rcases knownBefore with unharmed | doomed
    · by_cases gentle : c.Gentle label
      · have still := unharmed.gentle gentle moved
        exact ⟨.inl still, iff_of_true still ⟨unharmed, gentle⟩⟩
      · have doomed := unharmed.harmed gentle moved
        exact ⟨.inr doomed, iff_of_false (fun still => still.not_doomed doomed) fun both => gentle both.2⟩
    · have still := doomed.step done
      exact ⟨.inr still, iff_of_false (fun unharmed => unharmed.not_doomed still)
        fun both => both.1.not_doomed doomed⟩
  have knownFinal : known final :=
    Machine.run_preserves (fun c label next before done => (after c label next before done).1) (.inl start) reached
  have gentle : final.Unharmed ↔ workerLoops.AllSteps Connection.Gentle (NetIocpContextCreate cells) labels :=
    (Machine.holds_iff_allSteps (fun c label next before done => (after c label next before done).1)
      (fun c label next before done => (after c label next before done).2) (.inl start) reached).trans
        (and_iff_right start)
  refine ⟨fun all => (gentle.mpr all).unused, fun settled => ?_⟩
  rw [← gentle]
  constructor
  · intro misused unharmed
    exact absurd misused (ne_true_of_eq_false unharmed.unused)
  · intro harmed
    rcases settled with misused | ⟨released, idle⟩
    · exact misused
    · cases knownFinal.resolve_left harmed with
      | misused misused => exact misused
      | released _ outstanding => exact absurd outstanding idle
      | failed held _ _ => exact absurd released (ne_true_of_eq_false held)

/-- A connection that is closed after its data were sent. -/
def closed : List Label :=
  [.arrive, .handle, .write [1] true, .finish true, .transfer 1, .complete 1 true, .hangUp, .close]

theorem iocp_context_lifetime_closed : ∃ final,
    workerLoops.run (NetIocpContextCreate cleared) closed = some final ∧ final.released = true ∧
    final.misused = false :=
  ⟨_, rfl, rfl, (@iocp_context_lifetime cleared closed _ rfl).1 (by decide)⟩

/-- A send fails after a write: its packet and that of the read both free the context. -/
example : ((workerLoops.run (NetIocpContextCreate cleared)
    [.arrive, .handle, .write [1] true, .finish true, .abort, .fail, .close]).map Connection.misused) = some true := rfl

end Tegenaria.LibNet.Iocp
