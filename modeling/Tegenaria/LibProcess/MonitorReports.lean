import Tegenaria.LibProcess.Monitor

/-!
# What the process monitor attends to and reports

A wait of the monitor is not in vain: it blocks only while there is nothing to do or another thread is
about to end it.  What is reported is right as long as nobody removes an entry between the end of its
wait and its own removal by the monitor; a removed entry is used after it was freed, or another entry
that has got its address is reported, or dropped without being reported.
-/

namespace Tegenaria.LibProcess

open Foundation

variable {monitor next : Monitor} {event : Event} {events : List Event} {status : Int → Status}

/-! ## No wake-up is lost -/

/-- What the monitor waits for, or is going to wait for. -/
def Phase.awaits? : Phase → Option Round
  | .collected round | .waiting round _ => some round
  | _ => none

/-- A thread is about to set the reset event. -/
def Monitor.Alarming (monitor : Monitor) : Prop := ∃ thread result, monitor.callers thread = .signaling result

/-- All entries are watched, or the wait is going to be ended. -/
def Attended (monitor : Monitor) : Prop :=
  ∀ round, monitor.phase.awaits? = some round → ∀ entry ∈ monitor.ProcessList,
    round.Watches entry ∨ monitor.ProcessMonitorResetEvent = true ∨ monitor.Alarming

theorem watches_collectHandles {entry : ProcessMonitorEntry} (listed : entry ∈ monitor.ProcessList) :
    monitor.collectHandles.Watches entry := by
  refine List.mem_map.mpr ⟨⟨entry.address, monitor.openProcess entry.pid_, entry.registration⟩, ?_, rfl⟩
  exact List.mem_map_of_mem listed

theorem attended_of_none (nothing : next.phase.awaits? = none) : Attended next := by
  intro round awaits
  rw [nothing] at awaits
  cases awaits

theorem attended_of_alarming (alarming : next.Alarming) : Attended next := fun _ _ _ _ => .inr (.inr alarming)

/-- A thread that is not about to set the event does something else. -/
theorem alarming_setCaller {thread : Nat} {caller : Caller}
    (idle : ∀ result, monitor.callers thread ≠ .signaling result) (alarming : monitor.Alarming) :
    (monitor.setCaller thread caller).Alarming := by
  obtain ⟨other, result, signaling⟩ := alarming
  refine ⟨other, result, ?_⟩
  have different : other ≠ thread := by
    rintro rfl
    exact idle result signaling
  exact (Function.update_of_ne different _ _).trans signaling

theorem alarming_of_setCaller (thread : Nat) (result : Option Int) :
    (monitor.setCaller thread (.signaling result)).Alarming :=
  ⟨thread, result, Function.update_self _ _ _⟩

theorem attended_turned {turn : Turn} (attended : Attended monitor) (turned : Turned monitor turn next) :
    Attended next := by
  cases turned with
  | collect phase =>
      rw [Monitor.collect]
      split
      · rintro round ⟨⟩ entry listed
        exact .inl (watches_collectHandles listed)
      · exact attended_of_none rfl
  | wait phase =>
      rw [Monitor.wait]
      split
      · rintro round ⟨⟩ entry listed
        exact attended _ (by rw [phase]; rfl) entry listed
      · exact attended_of_none rfl
  | callback phase =>
      rw [Monitor.callback]
      split <;> exact attended_of_none rfl
  | _ => exact attended_of_none rfl

theorem attended_happened (attended : Attended monitor) (happened : Happened monitor event next) :
    Attended next := by
  cases happened with
  | addPid idle =>
      obtain ⟨caller, -, changed⟩ := addPid_eq_setCaller _ _ _ _ _
      rw [changed]
      exact fun round awaits entry listed =>
        (attended round awaits entry listed).imp_right (Or.imp_right (alarming_setCaller idle))
  | outOfMemory idle =>
      exact fun round awaits entry listed =>
        (attended round awaits entry listed).imp_right (Or.imp_right (alarming_setCaller idle))
  | push idle fresh => exact attended_of_alarming (alarming_of_setCaller _ _)
  | setEvent => exact fun round awaits entry listed => .inr (.inl rfl)
  | removePid idle => exact attended_of_alarming (alarming_of_setCaller _ _)
  | uninit idle => exact attended_of_alarming (alarming_of_setCaller _ _)
  | exit runs => exact attended
  | forget free => exact attended
  | spawn free => exact attended
  | elapse => exact attended

theorem attended_step (attended : Attended monitor) (done : monitor.step event = some next) : Attended next := by
  rcases stepped done with ⟨turn, -, turned⟩ | happened
  · exact attended_turned attended turned
  · exact attended_happened attended happened

/-- The invariant of all runs. -/
structure Ordered (monitor : Monitor) : Prop where
  tidy : Tidy monitor
  known : ∀ round, monitor.phase.round? = some round → Known monitor round
  attended : Attended monitor

theorem ordered_step (ordered : Ordered monitor) (done : monitor.step event = some next) : Ordered next :=
  ⟨tidy_step ordered.tidy done, known_step ordered.tidy ordered.known done, attended_step ordered.attended done⟩

theorem ordered_initialized (status : Int → Status) : Ordered (initialized status) :=
  ⟨tidy_initialized status, nofun, attended_of_none rfl⟩

theorem run_ordered (reached : machine.run (initialized status) events = some monitor) : Ordered monitor :=
  have preserved : ∀ monitor event next, Ordered monitor → machine.step monitor event = some next → Ordered next :=
    fun _ _ _ ordered done => ordered_step ordered done
  Machine.run_preserves preserved (ordered_initialized status) reached

/-- The first signaled handle ends a wait. -/
theorem exists_signal {round : Round} {since : Nat} (waits : monitor.phase = .waiting round since)
    (valid : round.Valid) (ended : ¬ monitor.Quiet round) : ∃ index, monitor.turn (.signal index) ≠ none := by
  obtain ⟨watched, member, signaled⟩ : ∃ watched ∈ round.procs, monitor.Signaled watched := by
    simpa only [Monitor.Quiet, not_forall, not_not, exists_prop] using ended
  obtain ⟨first, found⟩ := Option.isSome_iff_exists.mp
    (List.find?_isSome.mpr ⟨watched, member, decide_eq_true signaled⟩ :
      (round.procs.find? fun watched => monitor.Signaled watched).isSome)
  obtain ⟨isSignaled, before, after, split, quiet⟩ := List.find?_eq_some_iff_append.mp found
  refine ⟨before.length, ?_⟩
  have place : round.procs[before.length]? = some first := by
    rw [split, List.getElem?_append_right (Nat.le_refl _), Nat.sub_self]
    rfl
  have earlier : ∀ earlier ∈ round.procs.take before.length, ¬ monitor.Signaled earlier := by
    rw [split, List.take_left]
    exact fun earlier member signaled => by simpa [signaled] using quiet earlier member
  simp only [Monitor.turn, waits, place]
  rw [if_pos ⟨valid, of_decide_eq_true isSignaled, earlier⟩]
  exact Option.some_ne_none _

/-- If the monitor is blocked in a wait, then a thread is about to set the reset event; or the event is
not set, and every entry is watched, its process runs, and its timeout is not over. -/
theorem run_attends (reached : machine.run (initialized status) events = some monitor)
    {round : Round} {since : Nat} (waits : monitor.phase = .waiting round since)
    (blocked : ∀ turn, monitor.turn turn = none) :
    monitor.Alarming ∨ monitor.ProcessMonitorResetEvent = false ∧
      ∀ entry ∈ monitor.ProcessList, round.Watches entry ∧ monitor.status entry.pid_ = .running ∧
        (0 < entry.timeout_ → (monitor.now : Int) < since + entry.timeout_) := by
  have ordered := run_ordered reached
  have known := ordered.known round (by rw [waits]; rfl)
  have valid : round.Valid := by
    by_contra invalid
    have fails := blocked .fail
    simp only [Monitor.turn, waits, if_neg invalid] at fails
    cases fails
  have quiet : monitor.Quiet round := by
    by_contra ended
    obtain ⟨index, ends⟩ := exists_signal waits valid ended
    exact ends (blocked _)
  have reset : monitor.ProcessMonitorResetEvent = false := by
    by_contra set
    have resets := blocked .reset
    simp only [Monitor.turn, waits] at resets
    rw [if_pos ⟨valid, quiet, Bool.not_eq_false _ ▸ set⟩] at resets
    cases resets
  by_cases alarming : monitor.Alarming
  · exact .inl alarming
  · refine .inr ⟨reset, fun entry listed => ?_⟩
    have watches : round.Watches entry := by
      rcases ordered.attended round (by rw [waits]; rfl) entry listed with watches | set | signals
      · exact watches
      · rw [reset] at set
        cases set
      · exact absurd signals alarming
    obtain ⟨watched, member, number⟩ := List.mem_map.mp watches
    have handle := (known.same entry listed watched member number).2.resolve_left (valid.1 watched member)
    refine ⟨watches, ?_, fun positive => ?_⟩
    · by_contra ended
      exact quiet watched member ⟨entry.pid_, handle, ended⟩
    · obtain ⟨timeout, finite, least⟩ := known.least entry listed watches positive
      have early : ¬ since + timeout ≤ monitor.now := by
        intro late
        have ends := blocked .timeOut
        simp only [Monitor.turn, waits, finite] at ends
        rw [if_pos ⟨valid, quiet, reset, late⟩] at ends
        cases ends
      omega

/-- A process is added while the monitor waits without one, and is watched in the next round. -/
def watchEvents : List Event :=
  [.monitor .collect, .monitor .wait, .addPid 0 7 100 (some 1) 5, .push 0 16, .setEvent 0, .monitor .reset,
    .monitor .collect, .monitor .wait]

def watching : Monitor := (machine.run (initialized fun _ => .running) watchEvents).get rfl

theorem watching_blocked (turn : Turn) : watching.turn turn = none := by
  cases turn with
  | signal index => cases index <;> rfl
  | _ => rfl

theorem run_attends_watching :
    watching.Alarming ∨ watching.ProcessMonitorResetEvent = false ∧
      ∀ entry ∈ watching.ProcessList, Round.Watches ⟨[⟨16, some 7, 0⟩], some 100⟩ entry ∧
        watching.status entry.pid_ = .running ∧
          (0 < entry.timeout_ → (watching.now : Int) < (0 : Nat) + entry.timeout_) :=
  run_attends (Option.some_get rfl).symm rfl watching_blocked

/-! ## What is reported -/

/-- The handle that has ended the wait stays signaled. -/
def Concluded (monitor : Monitor) : Prop :=
  ∀ round watched, monitor.phase = .signaled round watched → watched ∈ round.procs ∧ monitor.Signaled watched

theorem concluded_of_same (concluded : Concluded monitor) (phase : next.phase = monitor.phase)
    (status : next.status = monitor.status) : Concluded next := by
  intro round watched signaled
  obtain ⟨member, pid, handle, ended⟩ := concluded round watched (phase ▸ signaled)
  exact ⟨member, pid, handle, status ▸ ended⟩

/-- A process with an open handle is neither forgotten nor replaced by another one. -/
theorem concluded_setStatus {pid : Int} {now : Status} (concluded : Concluded monitor)
    (free : ¬ monitor.Holds pid ∨ now ≠ .running) : Concluded (monitor.setStatus pid now) := by
  intro round watched signaled
  obtain ⟨member, own, handle, ended⟩ := concluded round watched signaled
  refine ⟨member, own, handle, ?_⟩
  change Function.update monitor.status pid now own ≠ .running
  by_cases same : own = pid
  · subst same
    have held : monitor.Holds own := by
      refine .inr ?_
      rw [show monitor.phase = _ from signaled]
      exact List.mem_filterMap.mpr ⟨watched, member, handle⟩
    rw [Function.update_self]
    exact free.resolve_left (not_not.mpr held)
  · rw [Function.update_of_ne same]
    exact ended

theorem concluded_step (concluded : Concluded monitor) (done : monitor.step event = some next) :
    Concluded next := by
  rcases stepped done with ⟨turn, -, turned⟩ | happened
  · cases turned with
    | collect phase =>
        rw [Monitor.collect]
        split <;> rintro round watched ⟨⟩
    | wait phase =>
        rw [Monitor.wait]
        split <;> rintro round watched ⟨⟩
    | signal phase valid place signaled =>
        rintro round watched ⟨⟩
        exact ⟨List.mem_of_getElem? place, signaled⟩
    | callback phase =>
        rw [Monitor.callback]
        split <;> rintro round watched ⟨⟩
    | _ => rintro round watched ⟨⟩
  · cases happened with
    | addPid idle =>
        obtain ⟨caller, -, changed⟩ := addPid_eq_setCaller _ _ _ _ _
        exact changed ▸ concluded_of_same concluded rfl rfl
    | exit runs => exact concluded_setStatus concluded (.inr (by rintro ⟨⟩))
    | forget free => exact concluded_setStatus concluded (.inl free)
    | spawn free => exact concluded_setStatus concluded (.inl free)
    | _ => exact concluded_of_same concluded rfl rfl

theorem find_eq_some {address : Nat} {entry : ProcessMonitorEntry} (found : monitor.find address = some entry) :
    entry ∈ monitor.ProcessList ∧ entry.address = address :=
  ⟨List.mem_of_find?_eq_some found, by simpa using List.find?_some found⟩

/-- The entry at an address is not there any more when it has been erased. -/
theorem address_of_mem_eraseP {entries : List ProcessMonitorEntry} {entry : ProcessMonitorEntry} {address : Nat}
    (distinct : (entries.map ProcessMonitorEntry.address).Nodup)
    (member : entry ∈ entries.eraseP fun entry => entry.address = address) : entry.address ≠ address := by
  induction entries with
  | nil => exact absurd member List.not_mem_nil
  | cons first entries ih =>
      rw [List.map_cons, List.nodup_cons] at distinct
      by_cases here : first.address = address
      · rw [List.eraseP_cons, decide_eq_true here, cond_true] at member
        rintro rfl
        exact distinct.1 (here ▸ List.mem_map_of_mem member)
      · rw [List.eraseP_cons, decide_eq_false here, cond_false] at member
        rcases List.mem_cons.mp member with rfl | later
        · exact here
        · exact ih distinct.2 later

/-- What is erased is what is found first. -/
theorem find_of_not_mem_eraseP {entries : List ProcessMonitorEntry} {entry : ProcessMonitorEntry}
    {removes : ProcessMonitorEntry → Bool} (member : entry ∈ entries) (erased : entry ∉ entries.eraseP removes) :
    entries.find? removes = some entry := by
  induction entries with
  | nil => exact absurd member List.not_mem_nil
  | cons first entries ih =>
      by_cases here : removes first = true
      · rw [List.eraseP_cons_of_pos here] at erased
        rw [List.find?_cons_of_pos here, (List.mem_cons.mp member).resolve_right erased]
      · rw [List.eraseP_cons_of_neg here, List.mem_cons, not_or] at erased
        rw [List.find?_cons_of_neg here]
        exact ih ((List.mem_cons.mp member).resolve_left erased.1) erased.2

/-- An entry is reported once, and is removed before the next one is. -/
structure Once (monitor : Monitor) : Prop where
  once : (monitor.reported.map Report.registration).Nodup
  counted : ∀ registration ∈ monitor.reported.map Report.registration, registration < monitor.registrations
  called : ∀ round watched registration, monitor.phase = .called round watched registration →
    registration ∈ monitor.reported.map Report.registration
  away : ∀ entry ∈ monitor.ProcessList, entry.registration ∈ monitor.reported.map Report.registration →
    ∃ round watched, monitor.phase = .called round watched entry.registration ∧ entry.address = watched.proc

/-- While no callback is running, no entry of the list has been reported. -/
theorem Once.absent (once : Once monitor) (idle : ∀ round watched registration,
    monitor.phase ≠ .called round watched registration) {entry : ProcessMonitorEntry}
    (listed : entry ∈ monitor.ProcessList) : entry.registration ∉ monitor.reported.map Report.registration := by
  intro reported
  obtain ⟨round, watched, phase, -⟩ := once.away entry listed reported
  exact idle _ _ _ phase

/-- A step of the monitor thread that neither reports nor removes. -/
theorem once_of_quiet (once : Once monitor) (idle : ∀ round watched registration,
      monitor.phase ≠ .called round watched registration)
    (still : ∀ round watched registration, next.phase ≠ .called round watched registration)
    (numbers : next.ProcessList.map ProcessMonitorEntry.registration =
      monitor.ProcessList.map ProcessMonitorEntry.registration)
    (reported : next.reported = monitor.reported) (count : next.registrations = monitor.registrations) :
    Once next where
  once := reported ▸ once.once
  counted registration member := count ▸ once.counted registration (reported ▸ member)
  called round watched registration phase := (still round watched registration phase).elim
  away entry listed member := by
    have was : entry.registration ∈ monitor.ProcessList.map ProcessMonitorEntry.registration :=
      numbers ▸ List.mem_map_of_mem listed
    obtain ⟨before, listedBefore, same⟩ := List.mem_map.mp was
    exact (once.absent idle listedBefore (same ▸ reported ▸ member)).elim

theorem once_callback {round : Round} {watched : Watched} (tidy : Tidy monitor) (once : Once monitor)
    (phase : monitor.phase = .signaled round watched) : Once (monitor.callback round watched) := by
  have idle (round : Round) (watched : Watched) (registration : Nat) :
      monitor.phase ≠ .called round watched registration := by simp [phase]
  rw [Monitor.callback]
  cases found : monitor.find watched.proc with
  | none => exact once_of_quiet once idle (by rintro _ _ _ ⟨⟩) rfl rfl rfl
  | some entry =>
      obtain ⟨listed, address⟩ := find_eq_some found
      have numbers (report : Report) : (monitor.reported ++ [report]).map Report.registration =
          monitor.reported.map Report.registration ++ [report.registration] := List.map_append
      refine ⟨?_, ?_, ?_, ?_⟩
      · rw [numbers]
        refine List.nodup_append.mpr ⟨once.once, List.nodup_singleton _, fun earlier member last isLast same => ?_⟩
        obtain rfl := same.trans (List.mem_singleton.mp isLast)
        exact once.absent idle listed member
      · intro registration member
        rw [numbers] at member
        rcases List.mem_append.mp member with earlier | last
        · exact once.counted registration earlier
        · exact List.mem_singleton.mp last ▸ tidy.counted entry listed
      · rintro round watched registration ⟨⟩
        rw [numbers]
        exact List.mem_append_right _ (List.mem_singleton_self _)
      · intro other otherListed member
        rw [numbers] at member
        rcases List.mem_append.mp member with earlier | last
        · exact (once.absent idle otherListed earlier).elim
        · obtain rfl := List.inj_on_of_nodup_map tidy.numbers otherListed listed (List.mem_singleton.mp last)
          exact ⟨round, watched, rfl, address⟩

theorem once_turned {turn : Turn} (tidy : Tidy monitor) (once : Once monitor)
    (turned : Turned monitor turn next) : Once next := by
  cases turned with
  | collect phase =>
      rw [Monitor.collect]
      split <;> exact once_of_quiet once (by simp [phase]) (by rintro _ _ _ ⟨⟩) rfl rfl rfl
  | wait phase =>
      rw [Monitor.wait]
      split <;> exact once_of_quiet once (by simp [phase]) (by rintro _ _ _ ⟨⟩) rfl rfl rfl
  | subtract phase => exact once_of_quiet once (by simp [phase]) (by rintro _ _ _ ⟨⟩) (map_registration_charge _ _ _) rfl rfl
  | callback phase => exact once_callback tidy once phase
  | erase phase =>
      refine ⟨once.once, once.counted, by rintro _ _ _ ⟨⟩, fun entry listed member => ?_⟩
      obtain ⟨round, watched, here, address⟩ := once.away entry (List.mem_of_mem_eraseP listed) member
      obtain ⟨rfl, rfl, -⟩ := Phase.called.inj (phase.symm.trans here)
      exact (address_of_mem_eraseP tidy.addresses listed address).elim
  | fail phase invalid => exact once_of_quiet once (by simp [phase]) (by rintro _ _ _ ⟨⟩) rfl rfl rfl
  | timeOut phase finite valid quiet late => exact once_of_quiet once (by simp [phase]) (by rintro _ _ _ ⟨⟩) rfl rfl rfl
  | reset phase valid quiet set => exact once_of_quiet once (by simp [phase]) (by rintro _ _ _ ⟨⟩) rfl rfl rfl
  | signal phase valid place signaled => exact once_of_quiet once (by simp [phase]) (by rintro _ _ _ ⟨⟩) rfl rfl rfl

theorem once_happened (once : Once monitor) (happened : Happened monitor event next) : Once next := by
  cases happened with
  | addPid idle =>
      obtain ⟨caller, -, changed⟩ := addPid_eq_setCaller _ _ _ _ _
      exact changed ▸ ⟨once.once, once.counted, once.called, once.away⟩
  | push idle fresh =>
      refine ⟨once.once, fun registration member => Nat.lt_succ_of_lt (once.counted registration member),
        once.called, fun entry listed member => ?_⟩
      rcases List.mem_append.mp listed with was | new
      · exact once.away entry was member
      · exact (Nat.lt_irrefl _ (List.mem_singleton.mp new ▸ once.counted _ member)).elim
  | removePid idle =>
      exact ⟨once.once, once.counted, once.called, fun entry listed => once.away entry (List.mem_of_mem_eraseP listed)⟩
  | _ => exact ⟨once.once, once.counted, once.called, once.away⟩

/-- What becomes of the entries. -/
def Accounted (monitor : Monitor) : Prop :=
  ∀ registration < monitor.registrations,
    registration ∈ monitor.ProcessList.map ProcessMonitorEntry.registration ∨
      registration ∈ monitor.reported.map Report.registration ∨ registration ∈ monitor.cancelled ∨
        registration ∈ monitor.dropped

theorem accounted_of_same (accounted : Accounted monitor)
    (numbers : next.ProcessList.map ProcessMonitorEntry.registration =
      monitor.ProcessList.map ProcessMonitorEntry.registration)
    (reported : next.reported = monitor.reported) (cancelled : next.cancelled = monitor.cancelled)
    (dropped : next.dropped = monitor.dropped) (count : next.registrations = monitor.registrations) :
    Accounted next := by
  intro registration below
  rw [numbers, reported, cancelled, dropped]
  exact accounted registration (count ▸ below)

/-- An entry that is removed from the list is written down. -/
theorem accounted_eraseP {removes : ProcessMonitorEntry → Bool} (accounted : Accounted monitor)
    (list : next.ProcessList = monitor.ProcessList.eraseP removes) (reported : next.reported = monitor.reported)
    (cancelled : monitor.cancelled ⊆ next.cancelled) (dropped : monitor.dropped ⊆ next.dropped)
    (count : next.registrations = monitor.registrations)
    (written : ∀ entry, monitor.ProcessList.find? removes = some entry →
      entry.registration ∈ next.reported.map Report.registration ∨ entry.registration ∈ next.cancelled ∨
        entry.registration ∈ next.dropped) : Accounted next := by
  intro registration below
  rcases accounted registration (count ▸ below) with listed | rest
  · obtain ⟨entry, was, rfl⟩ := List.mem_map.mp listed
    by_cases stays : entry ∈ monitor.ProcessList.eraseP removes
    · exact .inl (List.mem_map_of_mem (list ▸ stays))
    · exact .inr (written entry (find_of_not_mem_eraseP was stays))
  · rw [reported]
    exact .inr (rest.imp_right (Or.imp (fun member => cancelled member) (fun member => dropped member)))

theorem accounted_turned {turn : Turn} (once : Once monitor) (accounted : Accounted monitor)
    (turned : Turned monitor turn next) : Accounted next := by
  cases turned with
  | collect phase =>
      rw [Monitor.collect]
      split <;> exact accounted_of_same accounted rfl rfl rfl rfl rfl
  | wait phase =>
      rw [Monitor.wait]
      split <;> exact accounted_of_same accounted rfl rfl rfl rfl rfl
  | subtract phase => exact accounted_of_same accounted (map_registration_charge _ _ _) rfl rfl rfl rfl
  | callback phase =>
      rw [Monitor.callback]
      split
      · exact accounted_of_same accounted rfl rfl rfl rfl rfl
      · intro registration below
        refine (accounted registration below).imp_right (Or.imp_left fun member => ?_)
        exact List.map_append ▸ List.mem_append_left _ member
  | erase phase =>
      rename_i round watched registration
      refine accounted_eraseP accounted rfl rfl (List.Subset.refl _) (List.subset_append_left _ _) rfl
        fun entry found => ?_
      by_cases same : entry.registration = registration
      · refine .inl ?_
        rw [same]
        exact once.called _ _ _ phase
      · refine .inr (.inr (List.mem_append_right _ ?_))
        simp only [show monitor.find watched.proc = some entry from found, if_neg same, List.mem_singleton]
  | _ => exact accounted_of_same accounted rfl rfl rfl rfl rfl

theorem accounted_happened (accounted : Accounted monitor) (happened : Happened monitor event next) :
    Accounted next := by
  cases happened with
  | addPid idle =>
      obtain ⟨caller, -, changed⟩ := addPid_eq_setCaller _ _ _ _ _
      exact changed ▸ accounted_of_same accounted rfl rfl rfl rfl rfl
  | push idle fresh =>
      intro registration below
      rcases Nat.lt_succ_iff_lt_or_eq.mp below with earlier | rfl
      · refine (accounted registration earlier).imp_left fun member => ?_
        exact List.map_append ▸ List.mem_append_left _ member
      · exact .inl (List.map_append ▸ List.mem_append_right _ (List.mem_singleton_self _))
  | removePid idle =>
      refine accounted_eraseP accounted rfl rfl (List.subset_append_left _ _) (List.Subset.refl _) rfl
        fun entry found => .inr (.inl (List.mem_append_right _ ?_))
      rw [found]
      exact List.mem_singleton_self _
  | _ => exact accounted_of_same accounted rfl rfl rfl rfl rfl

/-- A process is reported when it has ended, if its own entry is. -/
def Justified (monitor : Monitor) : Prop :=
  ∀ report ∈ monitor.reported, report.registration = report.signaled → report.ended = true

theorem justified_callback {round : Round} {watched : Watched}
    (known : ∀ round, monitor.phase.round? = some round → Known monitor round) (concluded : Concluded monitor)
    (justified : Justified monitor) (phase : monitor.phase = .signaled round watched) :
    Justified (monitor.callback round watched) := by
  rw [Monitor.callback]
  cases found : monitor.find watched.proc with
  | none => exact justified
  | some entry =>
      intro report member same
      rcases List.mem_append.mp member with earlier | last
      · exact justified report earlier same
      · obtain rfl := List.mem_singleton.mp last
        obtain ⟨collected, pid, handle, ended⟩ := concluded round watched phase
        have own := ((known round (by rw [phase]; rfl)).same entry (find_eq_some found).1 watched collected same.symm).2
        have isOwn : pid = entry.pid_ := by
          rcases own with none | some
          · rw [none] at handle
            cases handle
          · exact Option.some.inj (handle.symm.trans some)
        exact decide_eq_true (isOwn ▸ ended)

theorem justified_of_same (justified : Justified monitor) (reported : next.reported = monitor.reported) :
    Justified next := fun report member => justified report (reported ▸ member)

/-- Only a callback adds to the reports. -/
theorem reported_of_turned {turn : Turn} (turned : Turned monitor turn next) (other : turn ≠ .callback) :
    next.reported = monitor.reported := by
  cases turned with
  | collect phase =>
      rw [Monitor.collect]
      split <;> rfl
  | wait phase =>
      rw [Monitor.wait]
      split <;> rfl
  | callback phase => exact (other rfl).elim
  | _ => rfl

theorem reported_of_happened (happened : Happened monitor event next) : next.reported = monitor.reported := by
  cases happened with
  | addPid idle =>
      obtain ⟨caller, -, changed⟩ := addPid_eq_setCaller _ _ _ _ _
      rw [changed]
      rfl
  | _ => rfl

/-- What the reports depend on. -/
structure Reporting (monitor : Monitor) : Prop extends Ordered monitor where
  concluded : Concluded monitor
  once : Once monitor
  accounted : Accounted monitor
  justified : Justified monitor

theorem reporting_step (reporting : Reporting monitor) (done : monitor.step event = some next) :
    Reporting next := by
  have rest : Once next ∧ Accounted next ∧ Justified next := by
    rcases stepped done with ⟨turn, -, turned⟩ | happened
    · refine ⟨once_turned reporting.tidy reporting.once turned,
        accounted_turned reporting.once reporting.accounted turned, ?_⟩
      by_cases calls : turn = .callback
      · subst calls
        cases turned with
        | callback phase => exact justified_callback reporting.known reporting.concluded reporting.justified phase
      · exact justified_of_same reporting.justified (reported_of_turned turned calls)
    · exact ⟨once_happened reporting.once happened, accounted_happened reporting.accounted happened,
        justified_of_same reporting.justified (reported_of_happened happened)⟩
  exact ⟨ordered_step reporting.toOrdered done, concluded_step reporting.concluded done, rest.1, rest.2.1, rest.2.2⟩

theorem reporting_initialized (status : Int → Status) : Reporting (initialized status) where
  toOrdered := ordered_initialized status
  concluded := nofun
  once := ⟨List.nodup_nil, nofun, nofun, nofun⟩
  accounted := fun _ below => absurd below (Nat.not_lt_zero _)
  justified := nofun

/-! ## When the reports are right -/

/-- No freed memory has been used, every report is for the entry whose process has ended, and no entry
has been dropped without a report. -/
structure Right (monitor : Monitor) : Prop where
  defined : monitor.phase ≠ .undefined
  own : ∀ report ∈ monitor.reported, report.registration = report.signaled
  kept : monitor.dropped = []

/-- What the monitor holds the address of is still where it was. -/
def Tracked (monitor : Monitor) : Event → Prop
  | .monitor .callback => ∀ round watched, monitor.phase = .signaled round watched →
      ∃ entry, monitor.find watched.proc = some entry ∧ entry.registration = watched.registration
  | .monitor .erase => ∀ round watched registration, monitor.phase = .called round watched registration →
      ∀ entry, monitor.find watched.proc = some entry → entry.registration = registration
  | _ => True

theorem right_of_same (reported : next.reported = monitor.reported) (dropped : next.dropped = monitor.dropped)
    (defined : next.phase ≠ .undefined ↔ monitor.phase ≠ .undefined) : Right next ↔ Right monitor ∧ True := by
  rw [and_true]
  constructor
  · exact fun right => ⟨defined.mp right.defined, reported ▸ right.own, dropped ▸ right.kept⟩
  · exact fun right => ⟨defined.mpr right.defined, reported ▸ right.own, dropped ▸ right.kept⟩

theorem right_callback {round : Round} {watched : Watched} (phase : monitor.phase = .signaled round watched) :
    Right (monitor.callback round watched) ↔ Right monitor ∧ Tracked monitor (.monitor .callback) := by
  have tracked : Tracked monitor (.monitor .callback) ↔
      ∃ entry, monitor.find watched.proc = some entry ∧ entry.registration = watched.registration := by
    constructor
    · exact fun tracked => tracked round watched phase
    · rintro found other place same
      obtain ⟨rfl, rfl⟩ := Phase.signaled.inj (phase.symm.trans same)
      exact found
  rw [tracked, Monitor.callback]
  cases found : monitor.find watched.proc with
  | none =>
      refine ⟨fun right => absurd rfl right.defined, ?_⟩
      rintro ⟨-, -, ⟨⟩, -⟩
  | some entry =>
      constructor
      · intro right
        refine ⟨⟨by simp [phase], fun report member => right.own report (List.mem_append_left _ member),
          right.kept⟩, entry, rfl, ?_⟩
        exact right.own _ (List.mem_append_right _ (List.mem_singleton_self _))
      · rintro ⟨right, other, same, own⟩
        obtain rfl := Option.some.inj same
        refine ⟨by rintro ⟨⟩, fun report member => ?_, right.kept⟩
        rcases List.mem_append.mp member with earlier | last
        · exact right.own report earlier
        · exact List.mem_singleton.mp last ▸ own

theorem right_erase {round : Round} {watched : Watched} {registration : Nat}
    (phase : monitor.phase = .called round watched registration) :
    Right (monitor.erase watched registration) ↔ Right monitor ∧ Tracked monitor (.monitor .erase) := by
  have tracked : Tracked monitor (.monitor .erase) ↔
      ∀ entry, monitor.find watched.proc = some entry → entry.registration = registration := by
    constructor
    · exact fun tracked => tracked round watched registration phase
    · rintro found other place number same
      obtain ⟨rfl, rfl, rfl⟩ := Phase.called.inj (phase.symm.trans same)
      exact found
  rw [tracked]
  cases found : monitor.find watched.proc with
  | none =>
      refine ⟨fun right => ⟨⟨by simp [phase], right.own, ?_⟩, nofun⟩, fun ⟨right, _⟩ => ⟨nofun, right.own, ?_⟩⟩
      · simpa [Monitor.erase, found] using right.kept
      · simpa [Monitor.erase, found] using right.kept
  | some entry =>
      constructor
      · intro right
        have kept : monitor.dropped = [] ∧ entry.registration = registration := by
          simpa [Monitor.erase, found] using right.kept
        exact ⟨⟨by simp [phase], right.own, kept.1⟩, fun other same => Option.some.inj same ▸ kept.2⟩
      · rintro ⟨right, own⟩
        refine ⟨nofun, right.own, ?_⟩
        simp [Monitor.erase, found, own entry rfl, right.kept]

theorem right_step (done : monitor.step event = some next) :
    Right next ↔ Right monitor ∧ Tracked monitor event := by
  rcases stepped done with ⟨turn, rfl, turned⟩ | happened
  · cases turned with
    | collect phase =>
        rw [Monitor.collect]
        split <;> exact right_of_same rfl rfl (by simp [phase])
    | wait phase =>
        rw [Monitor.wait]
        split <;> exact right_of_same rfl rfl (by simp [phase])
    | fail phase invalid => exact right_of_same rfl rfl (by simp [phase, Monitor.fail])
    | timeOut phase finite valid quiet late => exact right_of_same rfl rfl (by simp [phase])
    | reset phase valid quiet set => exact right_of_same rfl rfl (by simp [phase, Monitor.reset])
    | signal phase valid place signaled => exact right_of_same rfl rfl (by simp [phase])
    | subtract phase => exact right_of_same rfl rfl (by simp [phase, Monitor.subtract])
    | callback phase => exact right_callback phase
    | erase phase => exact right_erase phase
  · cases happened with
    | addPid idle =>
        obtain ⟨caller, -, changed⟩ := addPid_eq_setCaller _ _ _ _ _
        exact changed ▸ right_of_same rfl rfl Iff.rfl
    | _ => exact right_of_same rfl rfl Iff.rfl

/-- The watched process ends, is reported and is removed. -/
def reportEvents : List Event :=
  watchEvents ++ [.exit 7, .monitor (.signal 0), .monitor .callback, .monitor .erase]

def reporting : Monitor := (machine.run (initialized fun _ => .running) reportEvents).get rfl

end Tegenaria.LibProcess
