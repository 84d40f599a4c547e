import Mathlib.Algebra.BigOperators.Group.List.Basic
import Mathlib.Data.List.MinMax
import Mathlib.Tactic.Linarith
import Tegenaria.LibMath.WeightAvg

/-!
# Network statistics

`NetStatistics` counts packets, requests and bytes and keeps totals and maxima of times.
The counters follow the events since the last reset, but three getters return the
counter of another kind of event and the connection time comes with the wrong sign.
Times are in milliseconds; doubles are taken as rational numbers.
-/

namespace Tegenaria.LibNet

open LibMath

/-! ## Fields -/

/-- The names of the bits in `fieldsSet_`, as the numbers of the bits. -/
inductive StatField where
  | uploadSpeed
  | downloadSpeed
  | requestSpeed
  | bytesSent
  | bytesRecv
  | bytesUploaded
  | bytesDownloaded
  | packetSentCount
  | packetRecvCount
  | requestCount
  | requestTimeTotal
  | requestTimeMax
  | requestTimeAvg
  | partialReadTriggered
  | partialWriteTriggered
  | pingMax
  | pingAvg
  deriving DecidableEq

structure NetStatistics where
  uploadSpeedAvg : MathWeightAvg
  downloadSpeedAvg : MathWeightAvg
  requestTimeAvg : MathWeightAvg
  requestSpeedAvg : MathWeightAvg
  pingAvg : MathWeightAvg
  resetTime : ℚ
  packetSentCount : Nat
  packetRecvCount : Nat
  requestCount : Nat
  bytesUploaded : ℚ
  bytesDownloaded : ℚ
  bytesSent : ℚ
  bytesRecv : ℚ
  requestTimeTotal : ℚ
  requestTimeMax : ℚ
  partialReadTriggered : Bool
  partialWriteTriggered : Bool
  pingMax : ℚ
  fieldsSet : List StatField
  deriving Inhabited

namespace NetStatistics

/-- Set bits of `fieldsSet_`. -/
def mark (stats : NetStatistics) (fields : List StatField) : NetStatistics :=
  { stats with fieldsSet := stats.fieldsSet ∪ fields }

/-! ## Events -/

def insertOutcomingPacket (stats : NetStatistics) (size : Nat) : NetStatistics :=
  { stats with
    bytesSent := stats.bytesSent + size
    packetSentCount := stats.packetSentCount + 1 }.mark [.bytesSent, .packetSentCount]

def insertIncomingPacket (stats : NetStatistics) (size : Nat) : NetStatistics :=
  { stats with
    bytesRecv := stats.bytesRecv + size
    packetRecvCount := stats.packetRecvCount + 1 }.mark [.bytesRecv, .packetRecvCount]

def insertPing (stats : NetStatistics) (ping : ℚ) : NetStatistics :=
  { stats with
    pingMax := if ping > stats.pingMax then ping else stats.pingMax
    pingAvg := stats.pingAvg.insert ping }.mark [.pingMax, .pingAvg]

/-- The speed in kilobytes for a second that goes into an average. -/
def speed (size : Nat) (elapsed : ℚ) : ℚ := (size / 1024) / (elapsed / 1000 + 1 / 10)

/-- Small requests are taken as pings. -/
def insertRequest (stats : NetStatistics) (size : Nat) (elapsed : ℚ) : NetStatistics :=
  let stats :=
    { stats with
      requestTimeMax := if elapsed > stats.requestTimeMax then elapsed else stats.requestTimeMax
      requestCount := stats.requestCount + 1
      requestTimeTotal := stats.requestTimeTotal + elapsed
      requestSpeedAvg := stats.requestSpeedAvg.insert (speed size elapsed)
      requestTimeAvg := stats.requestTimeAvg.insert elapsed }
  let stats := if size < 128 then stats.insertPing elapsed else stats
  stats.mark [.requestSpeed, .requestCount, .requestTimeTotal, .requestTimeMax, .requestTimeAvg]

def triggerPartialRead (stats : NetStatistics) : NetStatistics :=
  { stats with partialReadTriggered := true }.mark [.partialReadTriggered]

def triggerPartialWrite (stats : NetStatistics) : NetStatistics :=
  { stats with partialWriteTriggered := true }.mark [.partialWriteTriggered]

def insertUploadEvent (stats : NetStatistics) (size : Nat) (elapsed : ℚ) : NetStatistics :=
  { stats with
    bytesUploaded := stats.bytesUploaded + size
    uploadSpeedAvg := stats.uploadSpeedAvg.insert (speed size elapsed) }.mark
      [.bytesUploaded, .uploadSpeed]

def insertDownloadEvent (stats : NetStatistics) (size : Nat) (elapsed : ℚ) : NetStatistics :=
  { stats with
    bytesDownloaded := stats.bytesDownloaded + size
    downloadSpeedAvg := stats.downloadSpeedAvg.insert (speed size elapsed) }.mark
      [.bytesDownloaded, .downloadSpeed]

/-- `reset` at a time. -/
def reset (stats : NetStatistics) (now : ℚ) : NetStatistics where
  resetTime := now
  uploadSpeedAvg := stats.uploadSpeedAvg.clear
  downloadSpeedAvg := stats.downloadSpeedAvg.clear
  requestTimeAvg := stats.requestTimeAvg.clear
  requestSpeedAvg := stats.requestSpeedAvg.clear
  pingAvg := stats.pingAvg.clear
  packetSentCount := 0
  packetRecvCount := 0
  requestCount := 0
  bytesSent := 0
  bytesRecv := 0
  bytesDownloaded := 0
  bytesUploaded := 0
  requestTimeTotal := 0
  requestTimeMax := 0
  partialReadTriggered := false
  partialWriteTriggered := false
  pingMax := 0
  fieldsSet := []

/-- The constructor.  `reset` sets all fields but the weights of the averages. -/
def create (now : ℚ) : NetStatistics :=
  reset
    { (default : NetStatistics) with
      uploadSpeedAvg := .create
      downloadSpeedAvg := .create
      requestTimeAvg := .create
      requestSpeedAvg := .create
      pingAvg := .create } now

/-! ## Getters -/

def getPacketSentCount (stats : NetStatistics) : Nat := stats.packetSentCount

def getPacketRecvCount (stats : NetStatistics) : Nat := stats.packetSentCount

def getRequestCount (stats : NetStatistics) : Nat := stats.packetSentCount

def getBytesUploaded (stats : NetStatistics) : ℚ := stats.bytesUploaded

def getBytesDownloaded (stats : NetStatistics) : ℚ := stats.bytesUploaded

def getBytesSent (stats : NetStatistics) : ℚ := stats.bytesSent

def getBytesReceived (stats : NetStatistics) : ℚ := stats.bytesRecv

/-- In seconds. -/
def getRequestTimeTotal (stats : NetStatistics) : ℚ := stats.requestTimeTotal / 1000

def getRequestTimeMax (stats : NetStatistics) : ℚ := stats.requestTimeMax

def getPingMax (stats : NetStatistics) : ℚ := stats.pingMax

/-- In seconds. -/
def getConnectionTime (stats : NetStatistics) (now : ℚ) : ℚ := (stats.resetTime - now) / 1000

def isPartialReadTriggered (stats : NetStatistics) : Bool := stats.partialReadTriggered

def isPartialWriteTriggered (stats : NetStatistics) : Bool := stats.partialWriteTriggered

end NetStatistics

/-! ## Histories -/

/-- A call that changes the statistics. -/
inductive Event where
  | outcomingPacket (size : Nat)
  | incomingPacket (size : Nat)
  | request (size : Nat) (elapsed : ℚ)
  | uploadEvent (size : Nat) (elapsed : ℚ)
  | downloadEvent (size : Nat) (elapsed : ℚ)
  | ping (time : ℚ)
  | partialRead
  | partialWrite
  | reset (now : ℚ)

namespace Event

def apply (stats : NetStatistics) : Event → NetStatistics
  | .outcomingPacket size => stats.insertOutcomingPacket size
  | .incomingPacket size => stats.insertIncomingPacket size
  | .request size elapsed => stats.insertRequest size elapsed
  | .uploadEvent size elapsed => stats.insertUploadEvent size elapsed
  | .downloadEvent size elapsed => stats.insertDownloadEvent size elapsed
  | .ping time => stats.insertPing time
  | .partialRead => stats.triggerPartialRead
  | .partialWrite => stats.triggerPartialWrite
  | .reset now => stats.reset now

/-- No time of the event is negative. -/
def Nonneg : Event → Prop
  | .request _ elapsed => 0 ≤ elapsed
  | .uploadEvent _ elapsed => 0 ≤ elapsed
  | .downloadEvent _ elapsed => 0 ≤ elapsed
  | .ping time => 0 ≤ time
  | _ => True

def sentSize : Event → Option Nat
  | .outcomingPacket size => some size
  | _ => none

def receivedSize : Event → Option Nat
  | .incomingPacket size => some size
  | _ => none

def uploadedSize : Event → Option Nat
  | .uploadEvent size _ => some size
  | _ => none

def downloadedSize : Event → Option Nat
  | .downloadEvent size _ => some size
  | _ => none

def requestTime : Event → Option ℚ
  | .request _ elapsed => some elapsed
  | _ => none

/-- A request of less than 128 bytes is a ping too. -/
def pingTime : Event → Option ℚ
  | .ping time => some time
  | .request size elapsed => if size < 128 then some elapsed else none
  | _ => none

/-- The time of the last reset and the events since then. -/
def sinceReset (created : ℚ) (history : List Event) : ℚ × List Event :=
  history.foldl
    (fun since event =>
      match event with
      | .reset now => (now, [])
      | event => (since.1, since.2 ++ [event]))
    (created, [])

end Event

/-- The statistics after a history of events. -/
def NetStatistics.replay (created : ℚ) (history : List Event) : NetStatistics :=
  history.foldl Event.apply (.create created)

/-- The largest of some times, `0` if there are none. -/
def maximumTime (times : List ℚ) : ℚ := times.max?.getD 0

/-- Every getter returns what the events say. -/
structure Exact (stats : NetStatistics) (resetTime : ℚ) (events : List Event) (now : ℚ) : Prop where
  packetSentCount : stats.getPacketSentCount = (events.filterMap Event.sentSize).length
  packetRecvCount : stats.getPacketRecvCount = (events.filterMap Event.receivedSize).length
  requestCount : stats.getRequestCount = (events.filterMap Event.requestTime).length
  bytesSent : stats.getBytesSent = (events.filterMap Event.sentSize).sum
  bytesReceived : stats.getBytesReceived = (events.filterMap Event.receivedSize).sum
  bytesUploaded : stats.getBytesUploaded = (events.filterMap Event.uploadedSize).sum
  bytesDownloaded : stats.getBytesDownloaded = (events.filterMap Event.downloadedSize).sum
  requestTimeTotal : stats.getRequestTimeTotal = (events.filterMap Event.requestTime).sum / 1000
  requestTimeMax : stats.getRequestTimeMax = maximumTime (events.filterMap Event.requestTime)
  pingMax : stats.getPingMax = maximumTime (events.filterMap Event.pingTime)
  connectionTime : stats.getConnectionTime now = (now - resetTime) / 1000

/-- The fields follow the events. -/
structure Follows (since : ℚ × List Event) (stats : NetStatistics) : Prop where
  resetTime : stats.resetTime = since.1
  packetSentCount : stats.packetSentCount = (since.2.filterMap Event.sentSize).length
  packetRecvCount : stats.packetRecvCount = (since.2.filterMap Event.receivedSize).length
  requestCount : stats.requestCount = (since.2.filterMap Event.requestTime).length
  bytesSent : stats.bytesSent = (since.2.filterMap Event.sentSize).sum
  bytesRecv : stats.bytesRecv = (since.2.filterMap Event.receivedSize).sum
  bytesUploaded : stats.bytesUploaded = (since.2.filterMap Event.uploadedSize).sum
  bytesDownloaded : stats.bytesDownloaded = (since.2.filterMap Event.downloadedSize).sum
  requestTimeTotal : stats.requestTimeTotal = (since.2.filterMap Event.requestTime).sum
  requestTimeMax : stats.requestTimeMax = (since.2.filterMap Event.requestTime).foldl max 0
  pingMax : stats.pingMax = (since.2.filterMap Event.pingTime).foldl max 0

/-! ## The fields follow the events -/

theorem ite_gt_eq_max (time maximum : ℚ) : (if time > maximum then time else maximum) = max maximum time := by
  rw [max_def]
  split
  · next greater => rw [if_pos greater.le]
  · next notGreater =>
      split
      · next less => exact le_antisymm less (not_lt.mp notGreater)
      · rfl

theorem maximumTime_eq {times : List ℚ} (nonneg : ∀ time ∈ times, 0 ≤ time) :
    times.foldl max 0 = maximumTime times := by
  cases times with
  | nil => rfl
  | cons first rest =>
      rw [maximumTime, List.max?_cons', List.foldl_cons, max_eq_right (nonneg first List.mem_cons_self)]
      rfl

theorem filterMap_concat {Datum : Type} (select : Event → Option Datum) (events : List Event)
    (event : Event) :
    (events ++ [event]).filterMap select = events.filterMap select ++ (select event).toList := by
  rw [List.filterMap_append]
  cases selected : select event with
  | none => rw [List.filterMap_cons_none selected]; rfl
  | some datum => rw [List.filterMap_cons_some selected]; rfl

/-- A counter after one event, by what the event brings. -/
def addCount {Datum : Type} (count : Nat) : Option Datum → Nat
  | none => count
  | some _ => count + 1

def addSize (total : ℚ) : Option Nat → ℚ
  | none => total
  | some size => total + size

def addTime (total : ℚ) : Option ℚ → ℚ
  | none => total
  | some time => total + time

def raiseTime (maximum : ℚ) : Option ℚ → ℚ
  | none => maximum
  | some time => if time > maximum then time else maximum

/-- The fields after one event that is no reset. -/
structure Gains (stats : NetStatistics) (event : Event) (next : NetStatistics) : Prop where
  resetTime : next.resetTime = stats.resetTime
  packetSentCount : next.packetSentCount = addCount stats.packetSentCount event.sentSize
  packetRecvCount : next.packetRecvCount = addCount stats.packetRecvCount event.receivedSize
  requestCount : next.requestCount = addCount stats.requestCount event.requestTime
  bytesSent : next.bytesSent = addSize stats.bytesSent event.sentSize
  bytesRecv : next.bytesRecv = addSize stats.bytesRecv event.receivedSize
  bytesUploaded : next.bytesUploaded = addSize stats.bytesUploaded event.uploadedSize
  bytesDownloaded : next.bytesDownloaded = addSize stats.bytesDownloaded event.downloadedSize
  requestTimeTotal : next.requestTimeTotal = addTime stats.requestTimeTotal event.requestTime
  requestTimeMax : next.requestTimeMax = raiseTime stats.requestTimeMax event.requestTime
  pingMax : next.pingMax = raiseTime stats.pingMax event.pingTime

theorem insertRequest_gains (stats : NetStatistics) (size : Nat) (elapsed : ℚ) :
    Gains stats (.request size elapsed) (stats.insertRequest size elapsed) := by
  by_cases small : size < 128
  · have ping : (Event.request size elapsed).pingTime = some elapsed := if_pos small
    constructor
    case pingMax =>
      rw [ping, NetStatistics.insertRequest, if_pos small]
      rfl
    all_goals
      rw [NetStatistics.insertRequest, if_pos small]
      rfl
  · have ping : (Event.request size elapsed).pingTime = none := if_neg small
    constructor
    case pingMax =>
      rw [ping, NetStatistics.insertRequest, if_neg small]
      rfl
    all_goals
      rw [NetStatistics.insertRequest, if_neg small]
      rfl

section Lists

variable {Datum : Type} (select : Event → Option Datum) (events : List Event) (event : Event)

theorem addCount_length :
    addCount (events.filterMap select).length (select event) =
      ((events ++ [event]).filterMap select).length := by
  rw [filterMap_concat, List.length_append]
  cases select event <;> rfl

theorem addSize_sum (select : Event → Option Nat) :
    addSize (events.filterMap select).sum (select event) =
      (((events ++ [event]).filterMap select).sum : Nat) := by
  rw [filterMap_concat, List.sum_append]
  cases select event with
  | none => rfl
  | some size => simp [addSize]

theorem addTime_sum (select : Event → Option ℚ) :
    addTime (events.filterMap select).sum (select event) =
      ((events ++ [event]).filterMap select).sum := by
  rw [filterMap_concat, List.sum_append]
  cases select event with
  | none => exact (add_zero _).symm
  | some time => simp [addTime]

theorem raiseTime_foldl (select : Event → Option ℚ) :
    raiseTime ((events.filterMap select).foldl max 0) (select event) =
      ((events ++ [event]).filterMap select).foldl max 0 := by
  rw [filterMap_concat, List.foldl_append]
  cases select event with
  | none => rfl
  | some time => exact ite_gt_eq_max time _

end Lists

theorem Follows.gains {since : ℚ × List Event} {stats next : NetStatistics} {event : Event}
    (follows : Follows since stats) (gains : Gains stats event next) :
    Follows (since.1, since.2 ++ [event]) next where
  resetTime := gains.resetTime.trans follows.resetTime
  packetSentCount := by rw [gains.packetSentCount, follows.packetSentCount, addCount_length]
  packetRecvCount := by rw [gains.packetRecvCount, follows.packetRecvCount, addCount_length]
  requestCount := by rw [gains.requestCount, follows.requestCount, addCount_length]
  bytesSent := by rw [gains.bytesSent, follows.bytesSent, addSize_sum]
  bytesRecv := by rw [gains.bytesRecv, follows.bytesRecv, addSize_sum]
  bytesUploaded := by rw [gains.bytesUploaded, follows.bytesUploaded, addSize_sum]
  bytesDownloaded := by rw [gains.bytesDownloaded, follows.bytesDownloaded, addSize_sum]
  requestTimeTotal := by rw [gains.requestTimeTotal, follows.requestTimeTotal, addTime_sum]
  requestTimeMax := by rw [gains.requestTimeMax, follows.requestTimeMax, raiseTime_foldl]
  pingMax := by rw [gains.pingMax, follows.pingMax, raiseTime_foldl]

/-- One event. -/
theorem Follows.apply {since : ℚ × List Event} {stats : NetStatistics}
    (follows : Follows since stats) (event : Event) :
    Follows
      (match event with
        | .reset now => (now, [])
        | event => (since.1, since.2 ++ [event]))
      (event.apply stats) := by
  cases event with
  | reset now => constructor <;> simp [Event.apply, NetStatistics.reset]
  | request size elapsed => exact follows.gains (insertRequest_gains stats size elapsed)
  | _ =>
      refine follows.gains ?_
      constructor <;> rfl

/-- A whole history. -/
theorem follows_replay (created : ℚ) (history : List Event) :
    Follows (Event.sinceReset created history) (NetStatistics.replay created history) := by
  induction history using List.reverseRecOn with
  | nil =>
      constructor <;>
        simp [Event.sinceReset, NetStatistics.replay, NetStatistics.create, NetStatistics.reset]
  | append_singleton history event ih =>
      rw [Event.sinceReset, NetStatistics.replay, List.foldl_concat, List.foldl_concat]
      exact ih.apply event

theorem nonneg_sinceReset (created : ℚ) {history : List Event}
    (nonneg : ∀ event ∈ history, event.Nonneg) :
    ∀ event ∈ (Event.sinceReset created history).2, event.Nonneg := by
  induction history using List.reverseRecOn with
  | nil => exact List.forall_mem_nil _
  | append_singleton history event ih =>
      have before := ih fun event member => nonneg event (List.mem_append_left _ member)
      have last := nonneg event (List.mem_append_right _ List.mem_cons_self)
      rw [Event.sinceReset, List.foldl_concat, ← Event.sinceReset]
      cases event with
      | reset now => exact List.forall_mem_nil _
      | _ => exact List.forall_mem_append.mpr ⟨before, List.forall_mem_singleton.mpr last⟩

/-- The maxima of times that are not negative. -/
theorem foldl_max_filterMap {events : List Event} {select : Event → Option ℚ}
    (nonneg : ∀ event ∈ events, ∀ time ∈ select event, 0 ≤ time) :
    (events.filterMap select).foldl max 0 = maximumTime (events.filterMap select) := by
  apply maximumTime_eq
  intro time member
  obtain ⟨event, listed, selected⟩ := List.mem_filterMap.mp member
  exact nonneg event listed time selected

theorem requestTime_nonneg {event : Event} (nonneg : event.Nonneg) :
    ∀ time ∈ event.requestTime, 0 ≤ time := by
  intro time selected
  cases event with
  | request size elapsed => exact Option.some.inj selected ▸ nonneg
  | _ => cases selected

theorem pingTime_nonneg {event : Event} (nonneg : event.Nonneg) :
    ∀ time ∈ event.pingTime, 0 ≤ time := by
  intro time selected
  cases event with
  | request size elapsed =>
      simp only [Event.pingTime] at selected
      split at selected
      · exact Option.some.inj selected ▸ nonneg
      · cases selected
  | ping ping => exact Option.some.inj selected ▸ nonneg
  | _ => cases selected

/-- All getters are right exactly if since the last reset as many packets were received
and as many requests were made as packets were sent, as many bytes were downloaded as
uploaded, and no time has passed. -/
theorem netStatistics_exact_iff (created : ℚ) (history : List Event) (now : ℚ)
    (nonneg : ∀ event ∈ history, event.Nonneg) :
    Exact (NetStatistics.replay created history) (Event.sinceReset created history).1
        (Event.sinceReset created history).2 now ↔
      ((Event.sinceReset created history).2.filterMap Event.receivedSize).length =
          ((Event.sinceReset created history).2.filterMap Event.sentSize).length ∧
        ((Event.sinceReset created history).2.filterMap Event.requestTime).length =
          ((Event.sinceReset created history).2.filterMap Event.sentSize).length ∧
        ((Event.sinceReset created history).2.filterMap Event.downloadedSize).sum =
          ((Event.sinceReset created history).2.filterMap Event.uploadedSize).sum ∧
        now = (Event.sinceReset created history).1 := by
  have follows := follows_replay created history
  have later := nonneg_sinceReset created nonneg
  constructor
  · intro allRight
    have received := allRight.packetRecvCount
    have requests := allRight.requestCount
    have downloaded := allRight.bytesDownloaded
    have time := allRight.connectionTime
    rw [NetStatistics.getPacketRecvCount, follows.packetSentCount] at received
    rw [NetStatistics.getRequestCount, follows.packetSentCount] at requests
    rw [NetStatistics.getBytesDownloaded, follows.bytesUploaded, Nat.cast_inj] at downloaded
    rw [NetStatistics.getConnectionTime, follows.resetTime] at time
    exact ⟨received.symm, requests.symm, downloaded.symm, by linarith⟩
  · rintro ⟨received, requests, downloaded, time⟩
    constructor
    · exact follows.packetSentCount
    · exact follows.packetSentCount.trans received.symm
    · exact follows.packetSentCount.trans requests.symm
    · exact follows.bytesSent
    · exact follows.bytesRecv
    · exact follows.bytesUploaded
    · exact follows.bytesUploaded.trans (congrArg _ downloaded.symm)
    · rw [NetStatistics.getRequestTimeTotal, follows.requestTimeTotal]
    · exact follows.requestTimeMax.trans
        (foldl_max_filterMap fun event member => requestTime_nonneg (later event member))
    · exact follows.pingMax.trans
        (foldl_max_filterMap fun event member => pingTime_nonneg (later event member))
    · rw [NetStatistics.getConnectionTime, follows.resetTime, time]

/-- One packet of each direction and one request. -/
theorem netStatistics_exact_balanced :
    Exact (NetStatistics.replay 5 [.request 30 7, .outcomingPacket 10, .incomingPacket 20])
      5 [.request 30 7, .outcomingPacket 10, .incomingPacket 20] 5 :=
  (netStatistics_exact_iff 5 [.request 30 7, .outcomingPacket 10, .incomingPacket 20] 5
    (by norm_num [Event.Nonneg])).mpr ⟨rfl, rfl, rfl, rfl⟩

/-- After one packet was sent, one received packet and one request are reported. -/
theorem netStatistics_sent_only :
    ¬Exact (NetStatistics.replay 0 [.outcomingPacket 10]) 0 [.outcomingPacket 10] 0 := by
  intro allRight
  exact absurd allRight.packetRecvCount (by decide)

/-! ## The statistics of a client -/

/-- What `SftpClient::processPacket` reports for a packet and its answer. -/
def processPacketEvents (written packetSize totalReaded : Nat) (elapsed : ℚ) : List Event :=
  [.request (written + packetSize) elapsed, .outcomingPacket written, .incomingPacket totalReaded]

/-- Without a reset all events count. -/
theorem sinceReset_all {created : ℚ} {history : List Event}
    (noReset : ∀ now, .reset now ∉ history) : Event.sinceReset created history = (created, history) := by
  induction history using List.reverseRecOn with
  | nil => rfl
  | append_singleton history event ih =>
      have before := ih fun now member => noReset now (List.mem_append_left _ member)
      rw [Event.sinceReset, List.foldl_concat, ← Event.sinceReset, before]
      cases event with
      | reset now => exact absurd (List.mem_append_right _ List.mem_cons_self) (noReset now)
      | _ => rfl

/-- The events of a list of processed packets. -/
def processedEvents (packets : List (Nat × Nat × Nat × ℚ)) : List Event :=
  packets.flatMap fun packet => processPacketEvents packet.1 packet.2.1 packet.2.2.1 packet.2.2.2

theorem sentSizes_processedEvents (packets : List (Nat × Nat × Nat × ℚ)) :
    (processedEvents packets).filterMap Event.sentSize = packets.map Prod.fst := by
  induction packets with
  | nil => rfl
  | cons packet packets ih =>
      rw [processedEvents, List.flatMap_cons, List.filterMap_append, ← processedEvents, ih]
      rfl

/-- As long as only `processPacket` reports, the three counters agree, so the getters that
return the wrong one are not noticed. -/
theorem processPacket_counts (packets : List (Nat × Nat × Nat × ℚ)) (created : ℚ) :
    (NetStatistics.replay created (processedEvents packets)).getRequestCount = packets.length ∧
      (NetStatistics.replay created (processedEvents packets)).getPacketRecvCount =
        packets.length := by
  have sent := (follows_replay created (processedEvents packets)).packetSentCount
  have noReset : ∀ now, Event.reset now ∉ processedEvents packets := by
    simp [processedEvents, processPacketEvents]
  rw [sinceReset_all noReset, sentSizes_processedEvents, List.length_map] at sent
  exact ⟨sent, sent⟩

end Tegenaria.LibNet
