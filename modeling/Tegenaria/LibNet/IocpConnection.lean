import Tegenaria.LibNet.IocpContext

/-!
# Connections of the completion port server

Two things can go wrong on a connection.  A write that does not wait until a worker has taken the packet
of the write before resets the counters under it, and the worker takes the difference for a rest that was
not sent.  And the first worker that finds the connection dropped frees the context, whatever packets are
still to come.
-/

namespace Tegenaria.LibNet.Iocp

open Foundation LibStr

/-! ## Steps -/

namespace Connection

/-- Something will still be done with the context. -/
def Outstanding (c : Connection) : Prop := c.completions ≠ [] ∨ c.failures ≠ 0 ∨ c.reading ≠ .idle

/-- What a step does. -/
inductive Moved (c : Connection) : Label → Connection → Prop where
  | arrive (posted : c.reading = .posted) : Moved c .arrive { c with reading := .arrived }
  | hangUp (posted : c.reading = .posted) : Moved c .hangUp { c with reading := .ended }
  | transfer {send : Send} {sends : List Send} {count : Nat} (first : c.sends = send :: sends)
      (up : c.broken = false) (within : count ≤ send.length) (something : count = 0 → send.length = 0)
      (same : send.block = c.outIoCtx_.block) :
      Moved c (.transfer count) { c with
        outIoCtx_ := { c.outIoCtx_ with pending := false }
        sends
        completions := c.completions ++ [count]
        wire := c.wire ++ (c.outIoCtx_.buffer_.drop send.offset).take count }
  | abort {send : Send} {sends : List Send} (first : c.sends = send :: sends) :
      Moved c .abort { c with
        outIoCtx_ := { c.outIoCtx_ with pending := false }
        sends
        failures := c.failures + 1
        broken := true }
  | misuse (label : Label) (released : c.released = true) (outstanding : c.Outstanding) :
      Moved c label { c with misused := true }
  | handle (held : c.released = false) (arrived : c.reading = .arrived) :
      Moved c .handle { c with reading := .handling }
  | write (held : c.released = false) (data : Chars) (posted : Bool) (handling : c.reading = .handling)
      (done : c.outIoCtx_.pending = false) : Moved c (.write data posted) (c.NetIocpWrite data posted).1
  | finish (held : c.released = false) (posted : Bool) (handling : c.reading = .handling) :
      Moved c (.finish posted) ({ c with reading := .idle }.readCompleted posted)
  | complete (held : c.released = false) {count : Nat} (posted : Bool) (waits : count ∈ c.completions) :
      Moved c (.complete count posted)
        ({ c with completions := c.completions.erase count }.writeCompleted count posted)
  | fail (held : c.released = false) (failed : c.failures ≠ 0) :
      Moved c .fail { c with failures := c.failures - 1 }.NetIocpContextDestroy
  | close (held : c.released = false) (ended : c.reading = .ended) :
      Moved c .close { c with reading := .idle }.NetIocpContextDestroy

variable {c next : Connection} {label : Label}

theorem moved_use {result : Connection} (outstanding : c.Outstanding)
    (moves : c.released = false → Moved c label result) : Moved c label (c.use result) := by
  rw [use]
  split_ifs with released
  · exact .misuse label released outstanding
  · exact moves (Bool.eq_false_iff.mpr released)

theorem moved_of_step (done : c.step label = some next) : Moved c label next := by
  have busy {reading : Reading} (now : c.reading = reading) (still : reading ≠ .idle) : c.Outstanding :=
    .inr (.inr (now ▸ still))
  unfold step at done
  split at done
  · cases done
  · cases label with
    | arrive =>
        obtain ⟨posted, done⟩ := Option.ite_none_right_eq_some.mp done
        exact Option.some.inj done ▸ .arrive posted
    | hangUp =>
        obtain ⟨posted, done⟩ := Option.ite_none_right_eq_some.mp done
        exact Option.some.inj done ▸ .hangUp posted
    | transfer count =>
        cases first : c.sends with
        | nil => simp [first] at done
        | cons send sends =>
            simp only [first, Option.ite_none_right_eq_some, Option.some.injEq] at done
            obtain ⟨⟨up, within, something, same⟩, rfl⟩ := done
            exact .transfer first up within something same
    | abort =>
        cases first : c.sends with
        | nil => simp [first] at done
        | cons send sends =>
            simp only [first, Option.some.injEq] at done
            exact done ▸ .abort first
    | handle =>
        obtain ⟨arrived, done⟩ := Option.ite_none_right_eq_some.mp done
        exact Option.some.inj done ▸ moved_use (busy arrived (by decide)) fun held => .handle held arrived
    | write data posted =>
        obtain ⟨⟨handling, sent⟩, done⟩ := Option.ite_none_right_eq_some.mp done
        exact Option.some.inj done ▸ moved_use (busy handling (by decide)) fun held =>
          .write held data posted handling sent
    | finish posted =>
        obtain ⟨handling, done⟩ := Option.ite_none_right_eq_some.mp done
        exact Option.some.inj done ▸ moved_use (busy handling (by decide)) fun held => .finish held posted handling
    | complete count posted =>
        obtain ⟨waits, done⟩ := Option.ite_none_right_eq_some.mp done
        exact Option.some.inj done ▸ moved_use (.inl (List.ne_nil_of_mem waits)) fun held =>
          .complete held posted waits
    | fail =>
        simp only [Option.ite_none_left_eq_some, Option.some.injEq] at done
        obtain ⟨failed, rfl⟩ := done
        exact moved_use (.inr (.inl failed)) fun held => .fail held failed
    | close =>
        obtain ⟨ended, done⟩ := Option.ite_none_right_eq_some.mp done
        exact Option.some.inj done ▸ moved_use (busy ended (by decide)) fun held => .close held ended

/-! ## The functions -/

theorem writeCompleted_eq (c : Connection) (ioSize : Nat) (posted : Bool) : c.writeCompleted ioSize posted =
    if ioSize = 0 then c.NetIocpContextDestroy
    else if c.outIoCtx_.written_ + ioSize < c.outIoCtx_.total_ then
      if posted then
        (c.advance ioSize).post (c.outIoCtx_.written_ + ioSize) (c.outIoCtx_.total_ - (c.outIoCtx_.written_ + ioSize))
      else (c.advance ioSize).NetIocpContextDestroy
    else c.advance ioSize := rfl

theorem store_take (out : PerIoContext) (data : Chars) :
    (out.store data).buffer_.take (out.store data).total_ = data := by
  rw [PerIoContext.store]
  split_ifs
  · exact List.take_length
  · exact List.take_left

theorem store_within (out : PerIoContext) (data : Chars) :
    (out.store data).total_ = data.length ∧ (out.store data).written_ = 0 := by
  rw [PerIoContext.store]
  split_ifs <;> exact ⟨rfl, rfl⟩

/-! ## Writes that wait -/

/-- What was accepted and was not sent yet behind a place of the buffer. -/
def rest (out : PerIoContext) (place : Nat) : Chars := (out.buffer_.take out.total_).drop place

/-- A part of what is left is what was sent, and the rest. -/
theorem rest_split (out : PerIoContext) (place count : Nat) (within : place + count ≤ out.total_) :
    rest out place = (out.buffer_.drop place).take count ++ rest out (place + count) := by
  rw [rest, rest, ← List.drop_drop, List.drop_take]
  have cut : ((out.buffer_.drop place).take (out.total_ - place)).take count = (out.buffer_.drop place).take count := by
    rw [List.take_take, Nat.min_eq_left (by omega)]
  rw [← cut]
  exact (List.take_append_drop count _).symm

theorem rest_nil {out : PerIoContext} {place : Nat} (behind : out.total_ ≤ place) : rest out place = [] := by
  rw [rest, List.drop_eq_nil_iff, List.length_take]
  exact Nat.le_trans (Nat.min_le_left _ _) behind

/-- How far the bytes have got that were accepted last. -/
inductive Progress (c : Connection) : Prop where
  | idle (sends : c.sends = []) (completions : c.completions = []) (promised : c.promised = c.wire)
  | sending
      (sends : c.sends = [⟨c.outIoCtx_.block, c.outIoCtx_.written_, c.outIoCtx_.total_ - c.outIoCtx_.written_⟩])
      (completions : c.completions = []) (pending : c.outIoCtx_.pending = true)
      (within : c.outIoCtx_.written_ ≤ c.outIoCtx_.total_)
      (promised : c.promised = c.wire ++ rest c.outIoCtx_ c.outIoCtx_.written_)
  | sent {count : Nat} (sends : c.sends = []) (completions : c.completions = [count])
      (within : c.outIoCtx_.written_ + count ≤ c.outIoCtx_.total_)
      (promised : c.promised = c.wire ++ rest c.outIoCtx_ (c.outIoCtx_.written_ + count))

/-- What is on the wire is what was accepted first. -/
structure InOrder (c : Connection) : Prop where
  released : c.released = true → c.broken = true
  sent : c.wire <+: c.promised
  progress : c.broken = false → Progress c

/-- The handler writes only when no packet of an earlier write waits for a worker. -/
def Waits (c : Connection) : Label → Prop
  | .write _ _ => c.completions = []
  | _ => True

instance decidableWaits (c : Connection) : (label : Label) → Decidable (c.Waits label)
  | .write _ _ => inferInstanceAs (Decidable (c.completions = []))
  | .arrive | .hangUp | .transfer _ | .abort | .handle | .finish _ | .complete _ _ | .fail | .close => isTrue trivial

theorem inOrder_of_broken (broken : c.broken = true) (sent : c.wire <+: c.promised) : InOrder c where
  released _ := broken
  sent := sent
  progress up := absurd broken (ne_true_of_eq_false up)

/-- Nothing has happened to what is written. -/
structure SameTraffic (c next : Connection) : Prop where
  out : next.outIoCtx_ = c.outIoCtx_
  sends : next.sends = c.sends
  completions : next.completions = c.completions
  broken : next.broken = c.broken
  released : next.released = c.released
  wire : next.wire = c.wire
  promised : next.promised = c.promised

theorem InOrder.same (ordered : InOrder c) (same : SameTraffic c next) : InOrder next where
  released isReleased := same.broken.trans (ordered.released (same.released ▸ isReleased))
  sent := same.wire ▸ same.promised ▸ ordered.sent
  progress up := by
    have out := same.out
    cases ordered.progress (same.broken ▸ up) with
    | idle noSends noPackets all =>
        exact .idle (same.sends.trans noSends) (same.completions.trans noPackets)
          (by rw [same.promised, same.wire, all])
    | sending oneSend noPackets pending within all =>
        exact .sending (by rw [same.sends, out, oneSend]) (same.completions.trans noPackets) (by rw [out, pending])
          (by rw [out]; exact within) (by rw [same.promised, same.wire, out, all])
    | sent noSends onePacket within all =>
        exact .sent (same.sends.trans noSends) (same.completions.trans onePacket) (by rw [out]; exact within)
          (by rw [same.promised, same.wire, out, all])

theorem InOrder.write (ordered : InOrder c) (quiet : c.completions = []) (done : c.outIoCtx_.pending = false)
    (data : Chars) (posted : Bool) : InOrder (c.NetIocpWrite data posted).1 := by
  obtain ⟨total, start⟩ := store_within c.outIoCtx_ data
  have idle (up : c.broken = false) : c.sends = [] ∧ c.promised = c.wire := by
    cases ordered.progress up with
    | idle sends _ promised => exact ⟨sends, promised⟩
    | sending _ _ pending _ _ => rw [done] at pending; cases pending
    | sent _ completions _ _ => rw [quiet] at completions; cases completions
  rw [NetIocpWrite]
  split_ifs
  · exact ordered
  · refine ⟨ordered.released, ordered.sent.trans (List.prefix_append _ _), fun up => ?_⟩
    obtain ⟨sends, promised⟩ := idle up
    refine .sending ?_ quiet rfl ?_ ?_
    · simp only [post, sends, List.nil_append, start, total, Nat.sub_zero]
    · change (c.outIoCtx_.store data).written_ ≤ (c.outIoCtx_.store data).total_
      rw [start]
      exact Nat.zero_le _
    · change c.promised ++ data = c.wire ++ rest (c.outIoCtx_.store data) (c.outIoCtx_.store data).written_
      rw [promised, rest, start, List.drop_zero, store_take]
  · exact ⟨ordered.released, ordered.sent, fun up => .idle (idle up).1 quiet (idle up).2⟩

theorem InOrder.complete (ordered : InOrder c) {count : Nat} (waits : count ∈ c.completions) (posted : Bool) :
    InOrder ({ c with completions := c.completions.erase count }.writeCompleted count posted) := by
  have sent (up : c.broken = false) : c.sends = [] ∧ c.completions.erase count = [] ∧
      c.outIoCtx_.written_ + count ≤ c.outIoCtx_.total_ ∧
      c.promised = c.wire ++ rest c.outIoCtx_ (c.outIoCtx_.written_ + count) := by
    cases ordered.progress up with
    | idle _ completions _ => rw [completions] at waits; cases waits
    | sending _ completions _ _ _ => rw [completions] at waits; cases waits
    | sent sends completions within promised =>
        rw [completions, List.mem_singleton] at waits
        subst waits
        exact ⟨sends, by rw [completions, List.erase_cons_head], within, promised⟩
  rw [writeCompleted_eq]
  split_ifs with _ more
  · exact inOrder_of_broken rfl ordered.sent
  · refine ⟨ordered.released, ordered.sent, fun up => ?_⟩
    obtain ⟨sends, nothing, -, promised⟩ := sent up
    refine .sending ?_ nothing rfl (Nat.le_of_lt more) promised
    simp only [post, advance, sends, List.nil_append]
  · exact inOrder_of_broken rfl ordered.sent
  · refine ⟨ordered.released, ordered.sent, fun up => ?_⟩
    obtain ⟨sends, nothing, -, promised⟩ := sent up
    rw [rest_nil (Nat.le_of_not_lt more), List.append_nil] at promised
    exact .idle sends nothing promised

/-- The system sends a part of the last write. -/
theorem InOrder.transfer (ordered : InOrder c) {send : Send} {sends : List Send} {count : Nat}
    (first : c.sends = send :: sends) (up : c.broken = false) (within : count ≤ send.length) :
    InOrder { c with
      outIoCtx_ := { c.outIoCtx_ with pending := false }
      sends
      completions := c.completions ++ [count]
      wire := c.wire ++ (c.outIoCtx_.buffer_.drop send.offset).take count } := by
  have now : send = ⟨c.outIoCtx_.block, c.outIoCtx_.written_, c.outIoCtx_.total_ - c.outIoCtx_.written_⟩ ∧
      sends = [] ∧ c.completions = [] ∧ c.outIoCtx_.written_ ≤ c.outIoCtx_.total_ ∧
      c.promised = c.wire ++ rest c.outIoCtx_ c.outIoCtx_.written_ := by
    cases ordered.progress up with
    | idle none _ _ => rw [first] at none; cases none
    | sending one completions _ inside promised =>
        rw [first, List.cons.injEq] at one
        exact ⟨one.1, one.2, completions, inside, promised⟩
    | sent none _ _ _ => rw [first] at none; cases none
  obtain ⟨rfl, rfl, completions, inside, promised⟩ := now
  have place : c.outIoCtx_.written_ + count ≤ c.outIoCtx_.total_ := by
    dsimp only at within
    omega
  rw [rest_split _ _ _ place, ← List.append_assoc] at promised
  refine ⟨ordered.released, promised ▸ List.prefix_append _ _, fun _ => .sent rfl ?_ place promised⟩
  rw [completions]
  rfl

/-- A step of a connection on which writes wait keeps the order. -/
theorem InOrder.moved (ordered : InOrder c) (waits : Waits c label) (moved : Moved c label next) : InOrder next := by
  cases moved with
  | arrive => exact ordered.same ⟨rfl, rfl, rfl, rfl, rfl, rfl, rfl⟩
  | hangUp => exact ordered.same ⟨rfl, rfl, rfl, rfl, rfl, rfl, rfl⟩
  | transfer first up within _ _ => exact ordered.transfer first up within
  | abort => exact inOrder_of_broken rfl ordered.sent
  | misuse => exact ordered.same ⟨rfl, rfl, rfl, rfl, rfl, rfl, rfl⟩
  | handle => exact ordered.same ⟨rfl, rfl, rfl, rfl, rfl, rfl, rfl⟩
  | write _ data posted _ done => exact ordered.write waits done data posted
  | finish _ posted _ =>
      rw [readCompleted]
      split_ifs
      · exact inOrder_of_broken rfl ordered.sent
      · exact ordered.same ⟨rfl, rfl, rfl, rfl, rfl, rfl, rfl⟩
      · exact inOrder_of_broken rfl ordered.sent
  | complete _ posted member => exact ordered.complete member posted
  | fail => exact inOrder_of_broken rfl ordered.sent
  | close => exact inOrder_of_broken rfl ordered.sent

end Connection

/-- As long as each write waits until a worker has taken the packets of the write before, the other side
gets what was accepted, in order and nothing twice, whatever the sends of the system have split.  If the
connection was not dropped and nothing is on its way, then it has got everything. -/
theorem iocp_wire_in_order {cells : Vector UInt8 NET_IOCP_INIT_OUTPUT_BUFFER} {labels : List Label} {final : Connection}
    (waits : workerLoops.AllSteps Connection.Waits (NetIocpContextCreate cells) labels)
    (reached : workerLoops.run (NetIocpContextCreate cells) labels = some final) :
    final.wire <+: final.promised ∧
    (final.broken = false → final.sends = [] → final.completions = [] → final.wire = final.promised) := by
  have start : Connection.InOrder (NetIocpContextCreate cells) :=
    ⟨fun released => absurd released Bool.false_ne_true, List.prefix_rfl, fun _ => .idle rfl rfl rfl⟩
  have ordered : final.InOrder :=
    Machine.run_invariant (fun _ _ _ ordered waits done => ordered.moved waits (Connection.moved_of_step done))
      start waits reached
  refine ⟨ordered.sent, fun up noSends noPackets => ?_⟩
  cases ordered.progress up with
  | idle _ _ promised => exact promised.symm
  | sending sends _ _ _ _ =>
      rw [noSends] at sends
      cases sends
  | sent _ completions _ _ =>
      rw [noPackets] at completions
      cases completions

/-- The first write is sent in two parts, the second one is on its way. -/
def inParts : List Label :=
  [.arrive, .handle, .write [1, 2, 3] true, .transfer 2, .complete 2 true, .transfer 1, .complete 1 true,
    .write [4, 5] true]

theorem iocp_wire_in_order_parts : ∃ final,
    workerLoops.run (NetIocpContextCreate cleared) inParts = some final ∧ final.wire <+: final.promised :=
  ⟨_, rfl, (@iocp_wire_in_order cleared inParts _ (by decide) rfl).1⟩

end Tegenaria.LibNet.Iocp
