import Tegenaria.LibNet.IocpConnection

/-!
# Bytes that the completion port server sends again

Sends are transferred whole.  A worker that takes the packet of a send after the next write has started
finds the counters of that write, so it posts the part of it that lies behind the length of the old send,
although all of it has been posted already.
-/

namespace Tegenaria.LibNet.Iocp

open Foundation LibStr

namespace Connection

variable {c next : Connection} {label : Label}

/-- The first send is transferred whole, and none fails. -/
def Whole (c : Connection) : Label → Prop
  | .transfer count => c.sends.head?.map Send.length = some count
  | .abort => False
  | _ => True

instance decidableWhole (c : Connection) : (label : Label) → Decidable (c.Whole label)
  | .transfer count => inferInstanceAs (Decidable (c.sends.head?.map Send.length = some count))
  | .abort => inferInstanceAs (Decidable False)
  | .arrive | .hangUp | .handle | .write _ _ | .finish _ | .complete _ _ | .fail | .close => isTrue trivial

/-- The worker that takes the packet of a send finds nothing left of the last write. -/
def Enough (c : Connection) : Label → Prop
  | .complete count _ => c.outIoCtx_.total_ ≤ c.outIoCtx_.written_ + count
  | _ => True

instance decidableEnough (c : Connection) : (label : Label) → Decidable (c.Enough label)
  | .complete count _ => inferInstanceAs (Decidable (c.outIoCtx_.total_ ≤ c.outIoCtx_.written_ + count))
  | .arrive | .hangUp | .transfer _ | .abort | .handle | .write _ _ | .finish _ | .fail | .close => isTrue trivial

/-- How many bytes are posted. -/
def posted (c : Connection) : Nat := (c.sends.map Send.length).sum

/-- What the sends that are posted will bring. -/
def inFlight (c : Connection) : Chars :=
  c.sends.flatMap fun send => (c.outIoCtx_.buffer_.drop send.offset).take send.length

/-- The sends lie inside of the buffer, and none of the accepted bytes is lost. -/
structure Fits (c : Connection) : Prop where
  size : c.outIoCtx_.bufferSize_ ≤ c.outIoCtx_.buffer_.length
  total : c.outIoCtx_.total_ ≤ c.outIoCtx_.buffer_.length
  inside : ∀ send ∈ c.sends, send.block = c.outIoCtx_.block →
    send.offset + send.length ≤ c.outIoCtx_.buffer_.length
  before : ∀ send ∈ c.sends, send.block ≤ c.outIoCtx_.block
  kept : c.promised.length ≤ c.wire.length + c.posted

/-- No byte has been posted twice. -/
def Balanced (c : Connection) : Prop := c.promised.length = c.wire.length + c.posted

/-- Only the last write is on its way. -/
inductive Sole (c : Connection) : Prop where
  | idle (sends : c.sends = []) (promised : c.promised = c.wire)
  | sending (sends : c.sends = [⟨c.outIoCtx_.block, 0, c.outIoCtx_.total_⟩]) (pending : c.outIoCtx_.pending = true)
      (promised : c.promised = c.wire ++ c.outIoCtx_.buffer_.take c.outIoCtx_.total_)

theorem Sole.promised_eq (sole : Sole c) : c.promised = c.wire ++ c.inFlight := by
  cases sole with
  | idle sends promised => rw [inFlight, sends, List.flatMap_nil, List.append_nil, promised]
  | sending sends _ promised => rw [inFlight, sends, List.flatMap_singleton, List.drop_zero, promised]

/-- What a step does to the bytes, where `enough` tells that it posts none of them again. -/
structure Brings (c next : Connection) (enough : Prop) : Prop where
  fits : Fits next
  balanced : Balanced next ↔ Balanced c ∧ enough
  sole : enough → Sole c → Sole next

theorem brings_same (fits : Fits c) (same : SameTraffic c next) : Brings c next True := by
  have posted : next.posted = c.posted := by rw [Connection.posted, Connection.posted, same.sends]
  refine ⟨⟨?_, ?_, ?_, ?_, ?_⟩, ?_, fun _ sole => ?_⟩
  · rw [same.out]
    exact fits.size
  · rw [same.out]
    exact fits.total
  · rw [same.out, same.sends]
    exact fits.inside
  · rw [same.out, same.sends]
    exact fits.before
  · rw [same.promised, same.wire, posted]
    exact fits.kept
  · rw [and_true, Balanced, Balanced, same.promised, same.wire, posted]
  · cases sole with
    | idle sends promised => exact .idle (same.sends.trans sends) (by rw [same.promised, same.wire, promised])
    | sending sends pending promised =>
        exact .sending (by rw [same.sends, same.out, sends]) (by rw [same.out, pending])
          (by rw [same.promised, same.wire, same.out, promised])

/-- The new data fit, and what was posted before lies in the buffer as before, or in a buffer from before. -/
theorem store_fits {out : PerIoContext} (size : out.bufferSize_ ≤ out.buffer_.length) (data : Chars) :
    (out.store data).bufferSize_ ≤ (out.store data).buffer_.length ∧
    data.length ≤ (out.store data).buffer_.length ∧
    ((out.store data).block = out.block ∧ (out.store data).buffer_.length = out.buffer_.length ∨
      (out.store data).block = out.block + 1) := by
  rw [PerIoContext.store]
  split_ifs with short
  · exact ⟨Nat.le_refl _, Nat.le_refl _, .inr rfl⟩
  · have room : data.length ≤ out.buffer_.length := Nat.le_trans (Nat.le_of_not_lt short) size
    have same : (data ++ out.buffer_.drop data.length).length = out.buffer_.length := by
      rw [List.length_append, List.length_drop]
      omega
    exact ⟨same ▸ size, same ▸ room, .inl ⟨rfl, same⟩⟩

theorem fits_store (fits : Fits c) (data : Chars) : Fits { c with outIoCtx_ := c.outIoCtx_.store data } := by
  obtain ⟨size, room, moved⟩ := store_fits fits.size data
  refine ⟨size, ?_, fun send member here => ?_, fun send member => ?_, fits.kept⟩
  · exact (store_within c.outIoCtx_ data).1 ▸ room
  · have earlier := fits.before send member
    dsimp only at here ⊢
    rcases moved with ⟨block, length⟩ | block
    · rw [length]
      exact fits.inside send member (here.trans block)
    · omega
  · have earlier := fits.before send member
    dsimp only
    omega

theorem posted_post (c : Connection) (offset length : Nat) : (c.post offset length).posted = c.posted + length := by
  simp [posted, post]

theorem balanced_post (c : Connection) (offset length : Nat) (promised : Chars) :
    Balanced { c.post offset length with promised } ↔ promised.length = c.wire.length + (c.posted + length) := by
  rw [← posted_post c offset length]
  exact Iff.rfl

theorem fits_post (fits : Fits c) {offset length : Nat} {promised : Chars}
    (inside : offset + length ≤ c.outIoCtx_.buffer_.length)
    (kept : promised.length ≤ c.wire.length + (c.posted + length)) :
    Fits { c.post offset length with promised } := by
  refine ⟨fits.size, fits.total, fun send member here => ?_, fun send member => ?_, ?_⟩
  · rcases List.mem_append.mp member with earlier | new
    · exact fits.inside send earlier here
    · cases List.mem_singleton.mp new
      exact inside
  · rcases List.mem_append.mp member with earlier | new
    · exact fits.before send earlier
    · cases List.mem_singleton.mp new
      exact Nat.le_refl _
  · exact (posted_post c offset length).symm ▸ kept

/-! ## Steps -/

theorem brings_write (fits : Fits c) (done : c.outIoCtx_.pending = false) (data : Chars) (posted : Bool) :
    Brings c (c.NetIocpWrite data posted).1 True := by
  obtain ⟨total, -⟩ := store_within c.outIoCtx_ data
  have stored := fits_store fits data
  have idle (sole : Sole c) : c.sends = [] ∧ c.promised = c.wire := by
    cases sole with
    | idle sends promised => exact ⟨sends, promised⟩
    | sending _ pending _ => rw [done] at pending; cases pending
  rw [NetIocpWrite]
  split_ifs
  · exact brings_same fits ⟨rfl, rfl, rfl, rfl, rfl, rfl, rfl⟩
  · have more : (c.promised ++ data).length = c.promised.length + data.length := List.length_append
    refine ⟨fits_post stored ?_ ?_, ?_, fun _ sole => ?_⟩
    · rw [Nat.zero_add]
      exact (store_fits fits.size data).2.1
    · have kept := fits.kept
      change (c.promised ++ data).length ≤ c.wire.length + (c.posted + data.length)
      omega
    · refine (balanced_post { c with outIoCtx_ := c.outIoCtx_.store data } 0 data.length _).trans ?_
      rw [and_true]
      change (c.promised ++ data).length = c.wire.length + (c.posted + data.length) ↔
        c.promised.length = c.wire.length + c.posted
      omega
    · obtain ⟨sends, promised⟩ := idle sole
      refine .sending ?_ rfl ?_
      · simp only [post, sends, List.nil_append, total]
      · change c.promised ++ data = c.wire ++ (c.outIoCtx_.store data).buffer_.take (c.outIoCtx_.store data).total_
        rw [promised, store_take]
  · have fits : Fits { c with outIoCtx_ := c.outIoCtx_.store data, dead_ := true } :=
      ⟨stored.size, stored.total, stored.inside, stored.before, stored.kept⟩
    refine ⟨fits, (and_true _).symm ▸ Iff.rfl, fun _ sole => ?_⟩
    exact .idle (idle sole).1 (idle sole).2

theorem brings_transfer (fits : Fits c) {send : Send} {sends : List Send} (first : c.sends = send :: sends)
    (same : send.block = c.outIoCtx_.block) :
    Brings c { c with
      outIoCtx_ := { c.outIoCtx_ with pending := false }
      sends
      completions := c.completions ++ [send.length]
      wire := c.wire ++ (c.outIoCtx_.buffer_.drop send.offset).take send.length } True := by
  have inside := fits.inside send (first ▸ List.mem_cons_self) same
  have sent : (c.wire ++ (c.outIoCtx_.buffer_.drop send.offset).take send.length).length =
      c.wire.length + send.length := by
    rw [List.length_append, List.length_take, List.length_drop]
    omega
  have less : c.posted = send.length + (sends.map Send.length).sum := by
    rw [posted, first, List.map_cons, List.sum_cons]
  have kept := fits.kept
  refine ⟨⟨fits.size, fits.total, fun other member => ?_, fun other member => ?_, ?_⟩, ?_, fun _ sole => ?_⟩
  · exact fits.inside other (first ▸ List.mem_cons_of_mem _ member)
  · exact fits.before other (first ▸ List.mem_cons_of_mem _ member)
  · change c.promised.length ≤ (c.wire ++ _).length + (sends.map Send.length).sum
    omega
  · rw [and_true]
    change c.promised.length = (c.wire ++ _).length + (sends.map Send.length).sum ↔
      c.promised.length = c.wire.length + c.posted
    omega
  · cases sole with
    | idle none _ =>
        rw [first] at none
        cases none
    | sending one _ promised =>
        rw [first, List.cons.injEq] at one
        obtain ⟨rfl, rfl⟩ := one
        exact .idle rfl (by rw [promised, List.drop_zero])

theorem brings_complete (fits : Fits c) (count : Nat) (posted : Bool)
    (held : ({ c with completions := c.completions.erase count }.writeCompleted count posted).released = false) :
    Brings c ({ c with completions := c.completions.erase count }.writeCompleted count posted)
      (c.outIoCtx_.total_ ≤ c.outIoCtx_.written_ + count) := by
  rw [writeCompleted_eq] at held ⊢
  split_ifs at held ⊢ with _ more
  · cases held
  · have total := fits.total
    have kept := fits.kept
    have advanced : Fits ({ c with completions := c.completions.erase count }.advance count) :=
      ⟨fits.size, fits.total, fits.inside, fits.before, fits.kept⟩
    change c.outIoCtx_.written_ + count < c.outIoCtx_.total_ at more
    refine ⟨fits_post advanced ?_ (Nat.le_trans kept ?_), ?_, fun enough => absurd more (Nat.not_lt.mpr enough)⟩
    · change c.outIoCtx_.written_ + count + (c.outIoCtx_.total_ - (c.outIoCtx_.written_ + count)) ≤
        c.outIoCtx_.buffer_.length
      omega
    · exact Nat.add_le_add_left (Nat.le_add_right _ _) _
    · refine (balanced_post ({ c with completions := c.completions.erase count }.advance count) _ _ _).trans ?_
      change c.promised.length = c.wire.length +
        (c.posted + (c.outIoCtx_.total_ - (c.outIoCtx_.written_ + count))) ↔ _
      constructor
      · intro balanced
        omega
      · rintro ⟨-, enough⟩
        omega
  · cases held
  · refine ⟨⟨fits.size, fits.total, fits.inside, fits.before, fits.kept⟩, ?_, fun _ sole => ?_⟩
    · exact (and_iff_left (Nat.le_of_not_lt more)).symm
    · cases sole with
      | idle sends promised => exact .idle sends promised
      | sending sends pending promised => exact .sending sends pending promised

/-- A step that does not release the context. -/
theorem brings_of_moved (fits : Fits c) (whole : c.Whole label) (moved : Moved c label next)
    (held : next.released = false) : Brings c next (c.Enough label) := by
  cases moved with
  | arrive => exact brings_same fits ⟨rfl, rfl, rfl, rfl, rfl, rfl, rfl⟩
  | hangUp => exact brings_same fits ⟨rfl, rfl, rfl, rfl, rfl, rfl, rfl⟩
  | transfer first _ _ _ same =>
      simp only [Whole, first, List.head?_cons, Option.map_some, Option.some.injEq] at whole
      subst whole
      exact brings_transfer fits first same
  | abort => exact whole.elim
  | misuse _ released => exact absurd released (ne_true_of_eq_false held)
  | handle => exact brings_same fits ⟨rfl, rfl, rfl, rfl, rfl, rfl, rfl⟩
  | write _ data posted _ done => exact brings_write fits done data posted
  | finish _ posted _ =>
      rw [readCompleted] at held ⊢
      split_ifs at held ⊢
      · cases held
      · exact brings_same fits ⟨rfl, rfl, rfl, rfl, rfl, rfl, rfl⟩
      · cases held
  | complete _ posted _ => exact brings_complete fits _ posted held
  | fail => cases held
  | close => cases held

/-! ## Runs -/

/-- A context that was released stays so. -/
theorem released_of_moved (released : c.released = true) (moved : Moved c label next) : next.released = true := by
  cases moved with
  | arrive => exact released
  | hangUp => exact released
  | transfer => exact released
  | abort => exact released
  | misuse => exact released
  | handle => exact released
  | write _ data posted _ _ =>
      rw [NetIocpWrite]
      split_ifs <;> exact released
  | finish held => exact absurd released (ne_true_of_eq_false held)
  | complete held => exact absurd released (ne_true_of_eq_false held)
  | fail => rfl
  | close => rfl

theorem released_of_run {labels : List Label} {final : Connection} (released : c.released = true)
    (reached : workerLoops.run c labels = some final) : final.released = true := by
  have stays (c : Connection) (label : Label) (next : Connection) (released : c.released = true)
      (done : workerLoops.step c label = some next) : next.released = true :=
    released_of_moved released (moved_of_step done)
  exact Machine.run_preserves stays released reached

theorem brings_of_run {labels : List Label} {final : Connection} (fits : Fits c)
    (whole : workerLoops.AllSteps Whole c labels) (reached : workerLoops.run c labels = some final)
    (held : final.released = false) : Brings c final (workerLoops.AllSteps Enough c labels) := by
  induction labels generalizing c with
  | nil =>
      cases reached
      exact ⟨fits, (and_iff_left trivial).symm, fun _ sole => sole⟩
  | cons label labels ih =>
      obtain ⟨next, done, rest⟩ := Machine.run_cons_eq_some.mp reached
      have nextHeld : next.released = false := by
        by_contra released
        have stays : final.released = true :=
          released_of_run ((Bool.not_eq_false _).mp released) rest
        exact absurd stays (ne_true_of_eq_false held)
      have first := brings_of_moved fits whole.1 (moved_of_step done) nextHeld
      have later := ih first.fits (whole.2 next done) rest
      have split : workerLoops.AllSteps Enough c (label :: labels) ↔
          c.Enough label ∧ workerLoops.AllSteps Enough next labels :=
        ⟨fun all => ⟨all.1, all.2 next done⟩, fun all => .cons all.1 done all.2⟩
      refine ⟨later.fits, ?_, fun all sole => ?_⟩
      · rw [later.balanced, first.balanced, split, and_assoc]
      · exact later.sole (split.mp all).2 (first.sole (split.mp all).1 sole)

end Connection

/-- When the system transfers its sends whole, the server posts a byte twice exactly if some worker takes
the packet of a send behind the start of a longer write: what is sent and posted is never shorter than
what was accepted, it has the same length exactly if every packet finds nothing left of the last write,
and then it is what was accepted. -/
theorem iocp_posts_once {cells : Vector UInt8 NET_IOCP_INIT_OUTPUT_BUFFER} {labels : List Label} {final : Connection}
    (whole : workerLoops.AllSteps Connection.Whole (NetIocpContextCreate cells) labels)
    (reached : workerLoops.run (NetIocpContextCreate cells) labels = some final) (held : final.released = false) :
    final.promised.length ≤ final.wire.length + final.posted ∧
    (final.promised.length = final.wire.length + final.posted ↔
      workerLoops.AllSteps Connection.Enough (NetIocpContextCreate cells) labels) ∧
    (workerLoops.AllSteps Connection.Enough (NetIocpContextCreate cells) labels →
      final.promised = final.wire ++ final.inFlight) := by
  have start : Connection.Fits (NetIocpContextCreate cells) :=
    ⟨Nat.le_of_eq cells.length_toList.symm, Nat.zero_le _, fun _ member => absurd member List.not_mem_nil,
      fun _ member => absurd member List.not_mem_nil, Nat.le_refl _⟩
  have brings := Connection.brings_of_run start whole reached held
  refine ⟨brings.fits.kept, brings.balanced.trans (and_iff_right rfl), fun enough => ?_⟩
  exact (brings.sole enough (.idle rfl rfl)).promised_eq

/-- The second write is longer than the first one, and starts before a worker takes its packet. -/
def overtaken : List Label :=
  [.arrive, .handle, .write [1] true, .transfer 1, .write [2, 3] true, .complete 1 true]

theorem iocp_posts_once_overtaken : ∃ final, workerLoops.run (NetIocpContextCreate cleared) overtaken = some final ∧
    final.promised.length ≠ final.wire.length + final.posted := by
  refine ⟨_, rfl, fun balanced => ?_⟩
  have enough := (@iocp_posts_once cleared overtaken _ (by decide) rfl rfl).2.1.mp balanced
  revert enough
  decide

end Tegenaria.LibNet.Iocp
