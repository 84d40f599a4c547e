import Tegenaria.LibProcess.MonitorReports

/-!
# Timeouts of watched processes

The monitor takes the length of a wait from the timeouts only when the wait has run out, so waits that
end for another reason do not count.  It takes it from all entries of the list, also from those that
were added during the wait, whose processes can be killed early.

A listed process that cannot be opened makes all waits fail: no process is reported or killed any more
until it is removed.
-/

namespace Tegenaria.LibProcess

open Foundation

variable {monitor next final : Monitor} {event : Event} {events : List Event} {status : Int → Status}

/-- What has been taken from a timeout. -/
def ProcessMonitorEntry.taken (entry : ProcessMonitorEntry) : Nat := entry.charged + entry.surcharged

/-- The timeout of an entry has run out. -/
def ProcessMonitorEntry.Over (entry : ProcessMonitorEntry) : Prop :=
  0 < entry.allowed ∧ entry.allowed ≤ entry.taken

/-- The timeout that is left is what was allowed without what was taken; a timeout that is not positive
never runs out. -/
def ProcessMonitorEntry.Balanced (entry : ProcessMonitorEntry) : Prop :=
  entry.timeout_ = entry.allowed - entry.taken ∧ (entry.allowed ≤ 0 → entry.taken = 0)

theorem ProcessMonitorEntry.Balanced.over_iff {entry : ProcessMonitorEntry} (balanced : entry.Balanced) :
    entry.Over ↔ 0 < entry.allowed ∧ entry.timeout_ ≤ 0 := by
  obtain ⟨left, -⟩ := balanced
  rw [ProcessMonitorEntry.Over, left]
  omega

theorem taken_charge (round : Round) (timeout : Nat) (entry : ProcessMonitorEntry) :
    (charge round timeout entry).taken = if 0 < entry.timeout_ then entry.taken + timeout else entry.taken := by
  by_cases positive : 0 < entry.timeout_
  · rw [charge, if_pos positive, if_pos positive]
    simp only [ProcessMonitorEntry.taken]
    split <;> omega
  · rw [charge, if_neg positive, if_neg positive]

theorem allowed_charge (round : Round) (timeout : Nat) (entry : ProcessMonitorEntry) :
    (charge round timeout entry).allowed = entry.allowed := by
  rw [charge]
  split <;> rfl

theorem balanced_charge (round : Round) (timeout : Nat) {entry : ProcessMonitorEntry} (balanced : entry.Balanced) :
    (charge round timeout entry).Balanced := by
  obtain ⟨left, none⟩ := balanced
  by_cases positive : 0 < entry.timeout_
  · have some : (charge round timeout entry).timeout_ = entry.timeout_ - timeout := by rw [charge, if_pos positive]
    rw [ProcessMonitorEntry.Balanced, allowed_charge, taken_charge, if_pos positive, some]
    omega
  · rw [charge, if_neg positive]
    exact ⟨left, none⟩

/-- A timeout runs out in the step that takes the last of it. -/
theorem over_charge_iff (round : Round) (timeout : Nat) {entry : ProcessMonitorEntry} (balanced : entry.Balanced) :
    (charge round timeout entry).Over ↔ entry.Over ∨ 0 < entry.timeout_ ∧ entry.timeout_ - timeout ≤ 0 := by
  have before := balanced.over_iff
  obtain ⟨left, none⟩ := balanced
  rw [before, ProcessMonitorEntry.Over, allowed_charge, taken_charge]
  split <;> omega

/-! ## Kills are not early -/

/-- What the list and the time have to do with each other. -/
structure Timed (monitor : Monitor) : Prop where
  balanced : ∀ entry ∈ monitor.ProcessList, entry.Balanced
  past : ∀ entry ∈ monitor.ProcessList, entry.added + entry.charged ≤ monitor.now
  waited : ∀ round since, monitor.phase = .waiting round since → since ≤ monitor.now ∧
    ∀ entry ∈ monitor.ProcessList, round.Watches entry → entry.added + entry.charged ≤ since
  elapsed : ∀ round timeout, monitor.phase = .timedOut round timeout →
    ∀ entry ∈ monitor.ProcessList, round.Watches entry → entry.added + entry.charged + timeout ≤ monitor.now

/-- A step that takes nothing from the timeouts. -/
theorem timed_of_subset (timed : Timed monitor) (list : next.ProcessList ⊆ monitor.ProcessList)
    (now : monitor.now ≤ next.now)
    (waited : ∀ round since, next.phase = .waiting round since →
      monitor.phase = .waiting round since ∨ since = monitor.now)
    (elapsed : ∀ round timeout, next.phase = .timedOut round timeout →
      monitor.phase = .timedOut round timeout ∨
        ∃ since, monitor.phase = .waiting round since ∧ since + timeout ≤ monitor.now) : Timed next where
  balanced entry listed := timed.balanced entry (list listed)
  past entry listed := Nat.le_trans (timed.past entry (list listed)) now
  waited round since waits := by
    rcases waited round since waits with before | rfl
    · obtain ⟨begun, charged⟩ := timed.waited round since before
      exact ⟨Nat.le_trans begun now, fun entry listed => charged entry (list listed)⟩
    · exact ⟨now, fun entry listed _ => timed.past entry (list listed)⟩
  elapsed round timeout ended entry listed watches := by
    rcases elapsed round timeout ended with before | ⟨since, before, late⟩
    · exact Nat.le_trans (timed.elapsed round timeout before entry (list listed) watches) now
    · have charged := (timed.waited round since before).2 entry (list listed) watches
      omega

theorem added_charge (round : Round) (timeout : Nat) (entry : ProcessMonitorEntry) :
    (charge round timeout entry).added = entry.added := by
  rw [charge]
  split <;> rfl

/-- What is charged was waited for. -/
theorem charged_charge {round : Round} {timeout : Nat} (timed : Timed monitor)
    (phase : monitor.phase = .timedOut round timeout) {entry : ProcessMonitorEntry}
    (listed : entry ∈ monitor.ProcessList) :
    entry.added + (charge round timeout entry).charged ≤ monitor.now := by
  rw [charge]
  split
  · by_cases watches : round.Watches entry
    · have late := timed.elapsed round timeout phase entry listed watches
      rw [Nat.add_assoc] at late
      simpa only [if_pos watches] using late
    · simpa only [if_neg watches] using timed.past entry listed
  · exact timed.past entry listed

theorem timed_turned {turn : Turn} (timed : Timed monitor) (turned : Turned monitor turn next) : Timed next := by
  cases turned with
  | collect phase =>
      rw [Monitor.collect]
      split <;> exact timed_of_subset timed (List.Subset.refl _) (Nat.le_refl _) (by rintro _ _ ⟨⟩) (by rintro _ _ ⟨⟩)
  | wait phase =>
      rw [Monitor.wait]
      split
      · refine timed_of_subset timed (List.Subset.refl _) (Nat.le_refl _) ?_ (by rintro _ _ ⟨⟩)
        rintro round since ⟨⟩
        exact .inr rfl
      · exact timed_of_subset timed (List.Subset.refl _) (Nat.le_refl _) (by rintro _ _ ⟨⟩) (by rintro _ _ ⟨⟩)
  | timeOut phase finite valid quiet late =>
      refine timed_of_subset timed (List.Subset.refl _) (Nat.le_refl _) (by rintro _ _ ⟨⟩) ?_
      rintro round timeout ⟨⟩
      exact .inr ⟨_, phase, late⟩
  | subtract phase =>
      refine ⟨fun entry listed => ?_, fun entry listed => ?_, by rintro _ _ ⟨⟩, by rintro _ _ ⟨⟩⟩
      · obtain ⟨before, was, rfl⟩ := List.mem_map.mp listed
        exact balanced_charge _ _ (timed.balanced before was)
      · obtain ⟨before, was, rfl⟩ := List.mem_map.mp listed
        rw [added_charge]
        exact charged_charge timed phase was
  | callback phase =>
      rw [Monitor.callback]
      split <;> exact timed_of_subset timed (List.Subset.refl _) (Nat.le_refl _) (by rintro _ _ ⟨⟩) (by rintro _ _ ⟨⟩)
  | erase phase => exact timed_of_subset timed List.eraseP_subset (Nat.le_refl _) (by rintro _ _ ⟨⟩) (by rintro _ _ ⟨⟩)
  | _ => exact timed_of_subset timed (List.Subset.refl _) (Nat.le_refl _) (by rintro _ _ ⟨⟩) (by rintro _ _ ⟨⟩)

theorem timed_happened (known : ∀ round, monitor.phase.round? = some round → Known monitor round)
    (timed : Timed monitor) (happened : Happened monitor event next) : Timed next := by
  cases happened with
  | addPid idle =>
      obtain ⟨caller, -, changed⟩ := addPid_eq_setCaller _ _ _ _ _
      exact changed ▸ ⟨timed.balanced, timed.past, timed.waited, timed.elapsed⟩
  | push idle fresh =>
      rename_i thread address pid timeout callback ctx
      have foreign (round : Round) (collected : monitor.phase.round? = some round) :
          ¬ round.Watches (newEntry monitor address pid timeout callback ctx) := by
        intro watches
        obtain ⟨watched, member, same⟩ := List.mem_map.mp watches
        exact Nat.ne_of_lt ((known round collected).counted watched member) same
      refine ⟨fun entry listed => ?_, fun entry listed => ?_, fun round since waits => ?_,
        fun round timeout ended entry listed watches => ?_⟩
      · rcases List.mem_append.mp listed with was | new
        · exact timed.balanced entry was
        · obtain rfl := List.mem_singleton.mp new
          exact ⟨(sub_zero timeout).symm, fun _ => rfl⟩
      · rcases List.mem_append.mp listed with was | new
        · exact timed.past entry was
        · obtain rfl := List.mem_singleton.mp new
          exact Nat.le_refl _
      · obtain ⟨begun, charged⟩ := timed.waited round since waits
        refine ⟨begun, fun entry listed watches => ?_⟩
        rcases List.mem_append.mp listed with was | new
        · exact charged entry was watches
        · obtain rfl := List.mem_singleton.mp new
          exact (foreign round (by rw [show monitor.phase = _ from waits]; rfl) watches).elim
      · rcases List.mem_append.mp listed with was | new
        · exact timed.elapsed round timeout ended entry was watches
        · obtain rfl := List.mem_singleton.mp new
          exact (foreign round (by rw [show monitor.phase = _ from ended]; rfl) watches).elim
  | removePid idle =>
      exact timed_of_subset timed List.eraseP_subset (Nat.le_refl _) (fun _ _ waits => .inl waits)
        fun _ _ ended => .inl ended
  | elapse =>
      exact timed_of_subset timed (List.Subset.refl _) (Nat.le_add_right _ _) (fun _ _ waits => .inl waits)
        fun _ _ ended => .inl ended
  | _ => exact ⟨timed.balanced, timed.past, timed.waited, timed.elapsed⟩

/-- What has been killed. -/
def Monitor.killedNumbers (monitor : Monitor) : List Nat := monitor.killed.map fun kill => kill.entry.registration

/-- The kills, and which entries of the list they are for. -/
structure Killing (monitor : Monitor) : Prop where
  once : monitor.killedNumbers.Nodup
  counted : ∀ registration ∈ monitor.killedNumbers, registration < monitor.registrations
  late : ∀ kill ∈ monitor.killed, kill.entry.Over ∧ kill.entry.added + kill.entry.charged ≤ kill.time
  exact : ∀ entry ∈ monitor.ProcessList, entry.registration ∈ monitor.killedNumbers ↔ entry.Over

theorem killing_of_subset (killing : Killing monitor) (list : next.ProcessList ⊆ monitor.ProcessList)
    (killed : next.killed = monitor.killed) (count : next.registrations = monitor.registrations) :
    Killing next := by
  have numbers : next.killedNumbers = monitor.killedNumbers := by rw [Monitor.killedNumbers, killed]; rfl
  exact ⟨numbers ▸ killing.once, fun registration member => count ▸ killing.counted registration (numbers ▸ member),
    fun kill member => killing.late kill (killed ▸ member),
    fun entry listed => numbers ▸ killing.exact entry (list listed)⟩

theorem mem_overdue {timeout : Nat} {entry : ProcessMonitorEntry} :
    entry ∈ monitor.overdue timeout ↔
      entry ∈ monitor.ProcessList ∧ 0 < entry.timeout_ ∧ entry.timeout_ - timeout ≤ 0 := by
  rw [Monitor.overdue, List.mem_filter, decide_eq_true_iff]

theorem killedNumbers_subtract (round : Round) (timeout : Nat) :
    (monitor.subtract round timeout).killedNumbers =
      monitor.killedNumbers ++ (monitor.overdue timeout).map ProcessMonitorEntry.registration := by
  simp only [Monitor.killedNumbers, Monitor.subtract, List.map_append, List.map_map]
  exact congrArg _ (List.map_congr_left fun entry _ => charge_registration round timeout entry)

theorem killing_subtract {round : Round} {timeout : Nat} (tidy : Tidy monitor) (timed : Timed monitor)
    (killing : Killing monitor) (phase : monitor.phase = .timedOut round timeout) :
    Killing (monitor.subtract round timeout) := by
  have sublist : ((monitor.overdue timeout).map ProcessMonitorEntry.registration).Sublist
      (monitor.ProcessList.map ProcessMonitorEntry.registration) := List.filter_sublist.map _
  refine ⟨?_, ?_, ?_, ?_⟩
  · rw [killedNumbers_subtract]
    refine List.nodup_append.mpr ⟨killing.once, tidy.numbers.sublist sublist, ?_⟩
    rintro registration killed other member rfl
    obtain ⟨entry, due, rfl⟩ := List.mem_map.mp member
    obtain ⟨listed, positive, -⟩ := Iff.mp mem_overdue due
    -- what has been killed has nothing left
    have ended := (timed.balanced entry listed).over_iff.mp ((killing.exact entry listed).mp killed)
    exact absurd ended.2 (Int.not_le.mpr positive)
  · intro registration member
    rw [killedNumbers_subtract] at member
    rcases List.mem_append.mp member with before | new
    · exact killing.counted registration before
    · obtain ⟨entry, due, rfl⟩ := List.mem_map.mp new
      exact tidy.counted entry (Iff.mp mem_overdue due).1
  · intro kill member
    rcases List.mem_append.mp member with before | new
    · exact killing.late kill before
    · obtain ⟨entry, due, rfl⟩ := List.mem_map.mp new
      obtain ⟨listed, runsOut⟩ := Iff.mp mem_overdue due
      refine ⟨(over_charge_iff round timeout (timed.balanced entry listed)).mpr (.inr runsOut), ?_⟩
      simp only [added_charge]
      exact charged_charge timed phase listed
  · intro entry listed
    obtain ⟨before, was, rfl⟩ := List.mem_map.mp listed
    rw [killedNumbers_subtract, List.mem_append, charge_registration,
      over_charge_iff round timeout (timed.balanced before was), killing.exact before was]
    refine or_congr_right ⟨fun member => ?_, fun runsOut => ?_⟩
    · obtain ⟨other, due, same⟩ := List.mem_map.mp member
      obtain ⟨otherListed, runsOut⟩ := Iff.mp mem_overdue due
      exact List.inj_on_of_nodup_map tidy.numbers otherListed was same ▸ runsOut
    · exact List.mem_map_of_mem (Iff.mpr mem_overdue ⟨was, runsOut⟩)

theorem killing_turned {turn : Turn} (tidy : Tidy monitor) (timed : Timed monitor) (killing : Killing monitor)
    (turned : Turned monitor turn next) : Killing next := by
  cases turned with
  | collect phase =>
      rw [Monitor.collect]
      split <;> exact killing_of_subset killing (List.Subset.refl _) rfl rfl
  | wait phase =>
      rw [Monitor.wait]
      split <;> exact killing_of_subset killing (List.Subset.refl _) rfl rfl
  | subtract phase => exact killing_subtract tidy timed killing phase
  | callback phase =>
      rw [Monitor.callback]
      split <;> exact killing_of_subset killing (List.Subset.refl _) rfl rfl
  | erase phase => exact killing_of_subset killing List.eraseP_subset rfl rfl
  | _ => exact killing_of_subset killing (List.Subset.refl _) rfl rfl

theorem killing_happened (killing : Killing monitor) (happened : Happened monitor event next) : Killing next := by
  cases happened with
  | addPid idle =>
      obtain ⟨caller, -, changed⟩ := addPid_eq_setCaller _ _ _ _ _
      exact changed ▸ killing_of_subset killing (List.Subset.refl _) rfl rfl
  | push idle fresh =>
      refine ⟨killing.once, fun registration member => Nat.lt_succ_of_lt (killing.counted registration member),
        killing.late, fun entry listed => ?_⟩
      rcases List.mem_append.mp listed with was | new
      · exact killing.exact entry was
      · obtain rfl := List.mem_singleton.mp new
        refine iff_of_false (fun member => Nat.lt_irrefl _ (killing.counted _ member)) fun ended => ?_
        exact absurd ended.2 (Int.not_le.mpr ended.1)
  | removePid idle => exact killing_of_subset killing List.eraseP_subset rfl rfl
  | _ => exact killing_of_subset killing (List.Subset.refl _) rfl rfl

structure Clocked (monitor : Monitor) : Prop extends Ordered monitor where
  timed : Timed monitor
  killing : Killing monitor

theorem clocked_step (clocked : Clocked monitor) (done : monitor.step event = some next) : Clocked next := by
  have ordered := ordered_step clocked.toOrdered done
  rcases stepped done with ⟨turn, -, turned⟩ | happened
  · exact ⟨ordered, timed_turned clocked.timed turned, killing_turned clocked.tidy clocked.timed clocked.killing turned⟩
  · exact ⟨ordered, timed_happened clocked.known clocked.timed happened, killing_happened clocked.killing happened⟩

theorem clocked_initialized (status : Int → Status) : Clocked (initialized status) :=
  ⟨ordered_initialized status, ⟨nofun, nofun, nofun, nofun⟩, ⟨List.nodup_nil, nofun, nofun, nofun⟩⟩

/-- A wait that runs out is charged only to entries that were watched in it. -/
def Attentive (monitor : Monitor) (event : Event) : Prop :=
  event = .monitor .subtract → ∀ round timeout, monitor.phase = .timedOut round timeout →
    ∀ entry ∈ monitor.ProcessList, 0 < entry.timeout_ → round.Watches entry

/-- Nothing has been charged for a wait that it was not watched in. -/
def Fair (monitor : Monitor) : Prop :=
  (∀ entry ∈ monitor.ProcessList, entry.surcharged = 0) ∧ ∀ kill ∈ monitor.killed, kill.entry.surcharged = 0

theorem fair_of_subset (fair : Fair monitor) (list : next.ProcessList ⊆ monitor.ProcessList)
    (killed : next.killed = monitor.killed) : Fair next :=
  ⟨fun entry listed => fair.1 entry (list listed), fun kill member => fair.2 kill (killed ▸ member)⟩

theorem fair_step (fair : Fair monitor) (attentive : Attentive monitor event)
    (done : monitor.step event = some next) : Fair next := by
  rcases stepped done with ⟨turn, rfl, turned⟩ | happened
  · cases turned with
    | collect phase =>
        rw [Monitor.collect]
        split <;> exact fair_of_subset fair (List.Subset.refl _) rfl
    | wait phase =>
        rw [Monitor.wait]
        split <;> exact fair_of_subset fair (List.Subset.refl _) rfl
    | subtract phase =>
        rename_i round timeout
        have kept {entry : ProcessMonitorEntry} (listed : entry ∈ monitor.ProcessList) :
            (charge round timeout entry).surcharged = 0 := by
          rw [charge]
          split
          · next positive => simpa only [if_pos (attentive rfl _ _ phase entry listed positive)] using fair.1 entry listed
          · exact fair.1 entry listed
        refine ⟨fun entry listed => ?_, fun kill member => ?_⟩
        · obtain ⟨before, was, rfl⟩ := List.mem_map.mp listed
          exact kept was
        · rcases List.mem_append.mp member with before | new
          · exact fair.2 kill before
          · obtain ⟨entry, due, rfl⟩ := List.mem_map.mp new
            exact kept (Iff.mp mem_overdue due).1
    | callback phase =>
        rw [Monitor.callback]
        split <;> exact fair_of_subset fair (List.Subset.refl _) rfl
    | erase phase => exact fair_of_subset fair List.eraseP_subset rfl
    | _ => exact fair_of_subset fair (List.Subset.refl _) rfl
  · cases happened with
    | addPid idle =>
        obtain ⟨caller, -, changed⟩ := addPid_eq_setCaller _ _ _ _ _
        exact changed ▸ fair_of_subset fair (List.Subset.refl _) rfl
    | push idle fresh =>
        refine ⟨fun entry listed => ?_, fair.2⟩
        rcases List.mem_append.mp listed with was | new
        · exact fair.1 entry was
        · exact List.mem_singleton.mp new ▸ rfl
    | removePid idle => exact fair_of_subset fair List.eraseP_subset rfl
    | _ => exact fair_of_subset fair (List.Subset.refl _) rfl

/-- In every run a process is killed once at most, and exactly when the waits that have run out since it
was added, and those that were charged to it without its being watched, add up to its timeout.  As the
former are not longer than it has been in the list, no process is killed early if the latter do not
happen. -/
theorem run_kills (reached : machine.run (initialized status) events = some monitor) :
    monitor.killedNumbers.Nodup ∧
      (∀ kill ∈ monitor.killed, 0 < kill.entry.allowed ∧
        kill.entry.added + kill.entry.allowed ≤ kill.time + kill.entry.surcharged) ∧
      (∀ entry ∈ monitor.ProcessList, entry.added + entry.charged ≤ monitor.now ∧
        (entry.registration ∈ monitor.killedNumbers ↔
          0 < entry.allowed ∧ entry.allowed ≤ entry.charged + entry.surcharged)) ∧
      (machine.AllSteps Attentive (initialized status) events → ∀ kill ∈ monitor.killed,
        kill.entry.added + kill.entry.allowed ≤ kill.time) := by
  have preserved : ∀ monitor event next, Clocked monitor → machine.step monitor event = some next →
      Clocked next := fun _ _ _ clocked done => clocked_step clocked done
  have clocked := Machine.run_preserves preserved (clocked_initialized status) reached
  have fairly : ∀ monitor event next, Fair monitor → Attentive monitor event →
      machine.step monitor event = some next → Fair next := fun _ _ _ fair attentive done => fair_step fair attentive done
  have begin : Fair (initialized status) := ⟨nofun, nofun⟩
  have late (kill : Kill) (member : kill ∈ monitor.killed) : 0 < kill.entry.allowed ∧
      kill.entry.added + kill.entry.allowed ≤ kill.time + kill.entry.surcharged := by
    obtain ⟨⟨positive, ended⟩, past⟩ := clocked.killing.late kill member
    rw [ProcessMonitorEntry.taken] at ended
    exact ⟨positive, by omega⟩
  refine ⟨clocked.killing.once, late, fun entry listed => ⟨clocked.timed.past entry listed, ?_⟩,
    fun attentive kill member => ?_⟩
  · rw [clocked.killing.exact entry listed, ProcessMonitorEntry.Over, ProcessMonitorEntry.taken, Int.natCast_add]
  · have fair := Machine.run_invariant fairly begin attentive reached
    have onTime := (late kill member).2
    rwa [fair.2 kill member, Int.natCast_zero, add_zero] at onTime

/-- A process is killed after two waits, of which one is ended by a second process. -/
def killEvents : List Event :=
  [.addPid 0 7 100 (some 1) 5, .push 0 16, .setEvent 0, .addPid 0 8 (-1) (some 1) 5, .push 0 32, .setEvent 0,
    .monitor .collect, .monitor .wait, .monitor .reset, .monitor .collect, .monitor .wait, .elapse 60, .exit 8,
    .monitor (.signal 1), .monitor .callback, .monitor .erase, .monitor .collect, .monitor .wait, .elapse 100,
    .monitor .timeOut, .monitor .subtract]

def killing : Monitor := (machine.run (initialized fun _ => .running) killEvents).get rfl

theorem run_kills_killing :
    killing.killed.map Kill.time = [160] ∧ killing.killedNumbers.Nodup ∧
      (∀ kill ∈ killing.killed, 0 < kill.entry.allowed ∧
        kill.entry.added + kill.entry.allowed ≤ kill.time + kill.entry.surcharged) ∧
      (∀ entry ∈ killing.ProcessList, entry.added + entry.charged ≤ killing.now ∧
        (entry.registration ∈ killing.killedNumbers ↔
          0 < entry.allowed ∧ entry.allowed ≤ entry.charged + entry.surcharged)) ∧
      (machine.AllSteps Attentive (initialized fun _ => .running) killEvents → ∀ kill ∈ killing.killed,
        kill.entry.added + kill.entry.allowed ≤ kill.time) :=
  ⟨rfl, run_kills (Option.some_get rfl).symm⟩

/-! ## A process that cannot be opened -/

/-- The monitor goes round and round without a wait that succeeds. -/
def Phase.Spins : Phase → Prop
  | .top | .finished => True
  | .collected round | .waiting round _ => ¬ round.Valid
  | _ => False

/-- A process that is gone is in the list, and the monitor has come to it. -/
structure Stuck (pid : Int) (reported : List Report) (killed : List Kill) (monitor : Monitor) : Prop where
  listed : ∃ entry ∈ monitor.ProcessList, entry.pid_ = pid
  gone : monitor.status pid = .gone
  spins : monitor.phase.Spins
  silent : monitor.reported = reported
  spared : monitor.killed = killed

variable {pid : Int} {reported : List Report} {killed : List Kill}

/-- `OpenProcess` returns no handle for it. -/
theorem not_valid_collectHandles (listed : ∃ entry ∈ monitor.ProcessList, entry.pid_ = pid)
    (gone : monitor.status pid = .gone) : ¬ monitor.collectHandles.Valid := by
  rintro ⟨opened, -⟩
  obtain ⟨entry, member, rfl⟩ := listed
  refine opened ⟨entry.address, monitor.openProcess entry.pid_, entry.registration⟩ (List.mem_map_of_mem member) ?_
  exact if_pos gone

theorem stuck_turned {turn : Turn} (stuck : Stuck pid reported killed monitor)
    (turned : Turned monitor turn next) : Stuck pid reported killed next := by
  obtain ⟨listed, gone, spins, silent, spared⟩ := stuck
  cases turned with
  | collect phase =>
      rw [Monitor.collect]
      split
      · exact ⟨listed, gone, not_valid_collectHandles listed gone, silent, spared⟩
      · exact ⟨listed, gone, trivial, silent, spared⟩
  | wait phase =>
      rw [phase] at spins
      rw [Monitor.wait]
      split
      · exact ⟨listed, gone, spins, silent, spared⟩
      · exact ⟨listed, gone, trivial, silent, spared⟩
  | fail phase invalid => exact ⟨listed, gone, trivial, silent, spared⟩
  | timeOut phase finite valid quiet late => exact absurd valid (phase ▸ spins : Phase.Spins (.waiting _ _))
  | reset phase valid quiet set => exact absurd valid (phase ▸ spins : Phase.Spins (.waiting _ _))
  | signal phase valid place signaled => exact absurd valid (phase ▸ spins : Phase.Spins (.waiting _ _))
  | subtract phase => exact (phase ▸ spins : Phase.Spins (.timedOut _ _)).elim
  | callback phase => exact (phase ▸ spins : Phase.Spins (.signaled _ _)).elim
  | erase phase => exact (phase ▸ spins : Phase.Spins (.called _ _ _)).elim

theorem stuck_happened (stuck : Stuck pid reported killed monitor) (notSpawned : event ≠ .spawn pid)
    (notRemoved : ∀ thread, event ≠ .removePid thread pid) (happened : Happened monitor event next) :
    Stuck pid reported killed next := by
  obtain ⟨listed, gone, spins, silent, spared⟩ := stuck
  have stays {other : Int} {now : Status} (different : other ≠ pid) :
      (monitor.setStatus other now).status pid = .gone := by
    change Function.update monitor.status other now pid = .gone
    rw [Function.update_of_ne different.symm]
    exact gone
  cases happened with
  | addPid idle =>
      obtain ⟨caller, -, changed⟩ := addPid_eq_setCaller _ _ _ _ _
      exact changed ▸ ⟨listed, gone, spins, silent, spared⟩
  | push idle fresh =>
      obtain ⟨entry, member, same⟩ := listed
      exact ⟨⟨entry, List.mem_append_left _ member, same⟩, gone, spins, silent, spared⟩
  | removePid idle =>
      rename_i thread other
      obtain ⟨entry, member, same⟩ := listed
      have different : ¬ entry.pid_ = other := by
        rw [same]
        rintro rfl
        exact notRemoved thread rfl
      have kept : entry ∈ monitor.ProcessList.eraseP fun entry => entry.pid_ = other :=
        (List.mem_eraseP_of_neg (by simpa using different)).mpr member
      exact ⟨⟨entry, kept, same⟩, gone, spins, silent, spared⟩
  | exit runs =>
      refine ⟨listed, stays ?_, spins, silent, spared⟩
      rintro rfl
      rw [gone] at runs
      cases runs
  | forget free =>
      rename_i other
      refine ⟨listed, ?_, spins, silent, spared⟩
      by_cases same : other = pid
      · exact same ▸ Function.update_self _ _ _
      · exact stays same
  | spawn free =>
      refine ⟨listed, stays ?_, spins, silent, spared⟩
      rintro rfl
      exact notSpawned rfl
  | _ => exact ⟨listed, gone, spins, silent, spared⟩

/-- Once the monitor comes to a listed process that is gone, no process is reported or killed any more,
whatever happens to the others, until the process is removed or its number is used again. -/
theorem run_stalls (atTop : monitor.phase = .top) (listed : ∃ entry ∈ monitor.ProcessList, entry.pid_ = pid)
    (gone : monitor.status pid = .gone)
    (left : ∀ event ∈ events, event ≠ .spawn pid ∧ ∀ thread, event ≠ .removePid thread pid)
    (reached : machine.run monitor events = some final) :
    final.reported = monitor.reported ∧ final.killed = monitor.killed ∧ final.phase.Spins := by
  have stuck : Stuck pid monitor.reported monitor.killed final := by
    have start : Stuck pid monitor.reported monitor.killed monitor :=
      ⟨listed, gone, by rw [atTop]; trivial, rfl, rfl⟩
    clear atTop listed gone
    revert start
    generalize monitor.reported = reported
    generalize monitor.killed = killed
    intro start
    induction events generalizing monitor with
    | nil =>
        cases reached
        exact start
    | cons event events ih =>
        obtain ⟨next, done, rest⟩ := Machine.run_cons_eq_some.mp reached
        obtain ⟨notSpawned, notRemoved⟩ := left event List.mem_cons_self
        refine ih (fun event member => left event (List.mem_cons_of_mem _ member)) rest ?_
        rcases stepped done with ⟨turn, -, turned⟩ | happened
        · exact stuck_turned start turned
        · exact stuck_happened start notSpawned notRemoved happened
  exact ⟨stuck.silent, stuck.spared, stuck.spins⟩

/-- A process is added when it has been forgotten; another one ends, unnoticed. -/
def stalled : Monitor :=
  (machine.run (initialized fun pid => if pid = 7 then .gone else .running)
    [.addPid 0 7 100 (some 1) 5, .push 0 16, .setEvent 0, .addPid 0 8 50 (some 1) 5, .push 0 32,
      .setEvent 0]).get rfl

def stallEvents : List Event :=
  [.monitor .collect, .monitor .wait, .exit 8, .elapse 1000, .monitor .fail, .monitor .collect, .monitor .wait]

theorem run_stalls_stalled :
    ((machine.run stalled stallEvents).get rfl).reported = stalled.reported ∧
      ((machine.run stalled stallEvents).get rfl).killed = stalled.killed ∧
      ((machine.run stalled stallEvents).get rfl).phase.Spins :=
  run_stalls rfl (show ∃ entry ∈ stalled.ProcessList, entry.pid_ = 7 from ⟨_, List.mem_cons_self, rfl⟩) rfl
    (by simp [stallEvents]) (Option.some_get rfl).symm

end Tegenaria.LibProcess
