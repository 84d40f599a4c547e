import Mathlib.Data.Rat.Floor
import Tegenaria.Foundation.WeightedMean
import Tegenaria.LibNet.NetStatistics

/-!
# Network quality

`getNetworkQuality` takes a weighted mean of up to five values between 0 and 1, multiplies
it by 5 and rounds.  The values of the two speeds fall when the speed grows, and a mean
below a tenth is rounded to 0, which is not in the scale.
-/

namespace Tegenaria.LibNet

open Foundation Foundation.WeightedMean

/-- `round`, which takes a half away from zero. -/
def cRound (x : ℚ) : Int := if 0 ≤ x then ⌊x + 1 / 2⌋ else ⌈x - 1 / 2⌉

namespace NetStatistics

def getUploadSpeed (stats : NetStatistics) : ℚ := stats.uploadSpeedAvg.getValue

def getDownloadSpeed (stats : NetStatistics) : ℚ := stats.downloadSpeedAvg.getValue

def getRequestTime (stats : NetStatistics) : ℚ := stats.requestTimeAvg.getValue

def getPing (stats : NetStatistics) : ℚ := stats.pingAvg.getValue

def limit (x : ℚ) : ℚ := if x < 0 then 0 else if x > 1 then 1 else x

/-- The pairs hold `sum` and `wsum`. -/
def getNetworkQuality (stats : NetStatistics) : Int :=
  let sums : ℚ × ℚ := (0, 0)
  let sums :=
    if .requestTimeAvg ∈ stats.fieldsSet then
      (sums.1 + (1 - limit (stats.getRequestTime / 500)) * 1, sums.2 + 1)
    else sums
  let sums :=
    if .downloadSpeed ∈ stats.fieldsSet then
      (sums.1 + (1 - limit (stats.getDownloadSpeed / 10000)) * (1 / 2), sums.2 + 1 / 2)
    else sums
  let sums :=
    if .uploadSpeed ∈ stats.fieldsSet then
      (sums.1 + (1 - limit (stats.getUploadSpeed / 10000)) * (1 / 2), sums.2 + 1 / 2)
    else sums
  let sums :=
    if .requestTimeMax ∈ stats.fieldsSet ∧ .requestTimeAvg ∈ stats.fieldsSet ∧
        stats.getRequestTime > 100 then
      (sums.1 + (1 - limit (stats.getRequestTimeMax / stats.getRequestTime / 4)) * (1 / 2),
        sums.2 + 1 / 2)
    else sums
  let sums :=
    if .pingAvg ∈ stats.fieldsSet then
      (sums.1 + (1 - limit (stats.getPing / 200)) * 1, sums.2 + 1)
    else sums
  let sums :=
    if stats.isPartialReadTriggered || stats.isPartialWriteTriggered then (sums.1, sums.2 + 2)
    else sums
  if sums.2 > 0 then cRound (sums.1 / sums.2 * 5) else -1

/-! ## The grade as a mean -/

/-- The weights and values that the grade is the mean of. -/
def qualityTerms (stats : NetStatistics) : List (ℚ × ℚ) :=
  (if .requestTimeAvg ∈ stats.fieldsSet then [(1, 1 - limit (stats.getRequestTime / 500))] else []) ++
  (if .downloadSpeed ∈ stats.fieldsSet then
    [(1 / 2, 1 - limit (stats.getDownloadSpeed / 10000))] else []) ++
  (if .uploadSpeed ∈ stats.fieldsSet then
    [(1 / 2, 1 - limit (stats.getUploadSpeed / 10000))] else []) ++
  (if .requestTimeMax ∈ stats.fieldsSet ∧ .requestTimeAvg ∈ stats.fieldsSet ∧
      stats.getRequestTime > 100 then
    [(1 / 2, 1 - limit (stats.getRequestTimeMax / stats.getRequestTime / 4))] else []) ++
  (if .pingAvg ∈ stats.fieldsSet then [(1, 1 - limit (stats.getPing / 200))] else []) ++
  (if stats.isPartialReadTriggered || stats.isPartialWriteTriggered then [(2, 0)] else [])

theorem foldl_optional (condition : Prop) [Decidable condition] (sums term : ℚ × ℚ) :
    (if condition then [term] else []).foldl addTerm sums =
      if condition then (sums.1 + term.2 * term.1, sums.2 + term.1) else sums := by
  split <;> rfl

theorem limit_bounds (x : ℚ) : 0 ≤ limit x ∧ limit x ≤ 1 := by
  rw [limit]
  split
  · norm_num
  · split
    · norm_num
    · next notNegative notLarge => exact ⟨not_lt.mp notNegative, not_lt.mp notLarge⟩

theorem limit_mono {x y : ℚ} (less : x ≤ y) : limit x ≤ limit y := by
  rw [limit, limit]
  split_ifs <;> linarith

theorem normal_optional (condition : Prop) [Decidable condition] {weight value : ℚ}
    (positive : 0 < weight) (nonneg : 0 ≤ value) (small : value ≤ 1) :
    WeightedMean.Normal (if condition then [(weight, value)] else []) := by
  split
  · exact List.forall_mem_singleton.mpr ⟨positive, nonneg, small⟩
  · exact List.forall_mem_nil _

theorem value_bounds (x : ℚ) : 0 ≤ 1 - limit x ∧ 1 - limit x ≤ 1 := by
  obtain ⟨nonneg, small⟩ := limit_bounds x
  constructor <;> linarith

theorem normal_qualityTerms (stats : NetStatistics) : WeightedMean.Normal (qualityTerms stats) := by
  have half : (0 : ℚ) < 1 / 2 := one_half_pos
  simp only [WeightedMean.Normal, qualityTerms, List.forall_mem_append]
  refine ⟨⟨⟨⟨⟨?_, ?_⟩, ?_⟩, ?_⟩, ?_⟩, ?_⟩
  · exact normal_optional _ one_pos (value_bounds _).1 (value_bounds _).2
  · exact normal_optional _ half (value_bounds _).1 (value_bounds _).2
  · exact normal_optional _ half (value_bounds _).1 (value_bounds _).2
  · exact normal_optional _ half (value_bounds _).1 (value_bounds _).2
  · exact normal_optional _ one_pos (value_bounds _).1 (value_bounds _).2
  · exact normal_optional _ two_pos le_rfl zero_le_one

theorem getNetworkQuality_eq (stats : NetStatistics) :
    stats.getNetworkQuality =
      if qualityTerms stats = [] then -1 else cRound (mean (qualityTerms stats) * 5) := by
  have computed : stats.getNetworkQuality =
      if ((qualityTerms stats).foldl addTerm (0, 0)).2 > 0 then
        cRound (((qualityTerms stats).foldl addTerm (0, 0)).1 /
          ((qualityTerms stats).foldl addTerm (0, 0)).2 * 5)
      else -1 := by
    simp only [qualityTerms, List.foldl_append, foldl_optional, zero_mul, add_zero]
    rfl
  rw [computed, foldl_addTerm, zero_add, zero_add]
  cases listed : qualityTerms stats with
  | nil => rfl
  | cons term rest =>
      have positive := weight_pos (normal_qualityTerms stats) (by simp [listed])
      rw [listed] at positive
      rw [if_pos positive, if_neg (List.cons_ne_nil _ _)]
      rfl

theorem cRound_of_nonneg {x : ℚ} (nonneg : 0 ≤ x) : cRound x = ⌊x + 1 / 2⌋ := if_pos nonneg

/-- Without any term there is no grade; otherwise the grade is the rounded mean. -/
theorem getNetworkQuality_floor {stats : NetStatistics} (nonempty : qualityTerms stats ≠ []) :
    stats.getNetworkQuality = ⌊mean (qualityTerms stats) * 5 + 1 / 2⌋ := by
  have nonneg := mean_nonneg (normal_qualityTerms stats)
  rw [getNetworkQuality_eq, if_neg nonempty, cRound_of_nonneg (by linarith)]

/-! ## Range -/

theorem getNetworkQuality_le (stats : NetStatistics) : stats.getNetworkQuality ≤ 5 := by
  by_cases nothing : qualityTerms stats = []
  · rw [getNetworkQuality_eq, if_pos nothing]
    decide
  · have small := mean_le_one (normal_qualityTerms stats)
    rw [getNetworkQuality_floor nothing]
    apply Int.floor_le_iff.mpr
    push_cast
    linarith

/-- The grade is in the scale exactly if the mean is at least a tenth. -/
theorem getNetworkQuality_range_iff (stats : NetStatistics) :
    stats.getNetworkQuality = -1 ∨ 1 ≤ stats.getNetworkQuality ∧ stats.getNetworkQuality ≤ 5 ↔
      qualityTerms stats = [] ∨ 1 / 10 ≤ mean (qualityTerms stats) := by
  by_cases nothing : qualityTerms stats = []
  · simp [getNetworkQuality_eq, nothing]
  · have nonneg := mean_nonneg (normal_qualityTerms stats)
    have floor := getNetworkQuality_floor nothing
    have notNone : stats.getNetworkQuality ≠ -1 := by
      have atLeast : 0 ≤ stats.getNetworkQuality := by
        rw [floor]
        exact Int.floor_nonneg.mpr (by linarith)
      omega
    rw [or_iff_right notNone, or_iff_right nothing, and_iff_left (getNetworkQuality_le stats), floor,
      Int.le_floor]
    push_cast
    constructor
    · intro atLeast
      linarith
    · intro atLeast
      linarith

/-! ## Speed -/

/-- The second statistics differ in what the grade depends on only by larger average
speeds. -/
structure Faster (stats other : NetStatistics) : Prop where
  fieldsSet : ∀ field, field ∈ other.fieldsSet ↔ field ∈ stats.fieldsSet
  requestTime : other.getRequestTime = stats.getRequestTime
  requestTimeMax : other.getRequestTimeMax = stats.getRequestTimeMax
  ping : other.getPing = stats.getPing
  partialRead : other.isPartialReadTriggered = stats.isPartialReadTriggered
  partialWrite : other.isPartialWriteTriggered = stats.isPartialWriteTriggered
  download : stats.getDownloadSpeed ≤ other.getDownloadSpeed
  upload : stats.getUploadSpeed ≤ other.getUploadSpeed

theorem below_optional (condition : Prop) [Decidable condition] (weight : ℚ) {value other : ℚ}
    (less : value ≤ other) :
    Below (if condition then [(weight, value)] else []) (if condition then [(weight, other)] else []) := by
  split
  · exact .cons ⟨rfl, less⟩ .nil
  · exact .nil

/-- Larger speeds make the values smaller. -/
theorem Faster.below {stats other : NetStatistics} (faster : Faster stats other) :
    Below (qualityTerms other) (qualityTerms stats) := by
  have slower : ∀ {speed later : ℚ}, speed ≤ later →
      1 - limit (later / 10000) ≤ 1 - limit (speed / 10000) :=
    fun less => sub_le_sub_left (limit_mono (div_le_div_of_nonneg_right less (by norm_num))) 1
  simp only [qualityTerms, faster.fieldsSet, faster.requestTime, faster.requestTimeMax, faster.ping,
    faster.partialRead, faster.partialWrite]
  refine List.rel_append (List.rel_append (List.rel_append (List.rel_append (List.rel_append
    ?_ ?_) ?_) ?_) ?_) ?_
  · exact below_optional _ _ le_rfl
  · exact below_optional _ _ (slower faster.download)
  · exact below_optional _ _ (slower faster.upload)
  · exact below_optional _ _ le_rfl
  · exact below_optional _ _ le_rfl
  · exact below_optional _ _ le_rfl

theorem Faster.nil_iff {stats other : NetStatistics} (faster : Faster stats other) :
    qualityTerms other = [] ↔ qualityTerms stats = [] := by
  rw [← List.length_eq_zero_iff, ← List.length_eq_zero_iff, faster.below.length_eq]

/-- Larger speeds never make the grade better. -/
theorem Faster.getNetworkQuality_le {stats other : NetStatistics} (faster : Faster stats other) :
    other.getNetworkQuality ≤ stats.getNetworkQuality := by
  by_cases nothing : qualityTerms stats = []
  · rw [getNetworkQuality_eq, getNetworkQuality_eq, if_pos nothing, if_pos (faster.nil_iff.mpr nothing)]
  · have means := faster.below.mean (normal_qualityTerms other)
    rw [getNetworkQuality_floor nothing, getNetworkQuality_floor (faster.nil_iff.not.mpr nothing)]
    exact Int.floor_le_floor (by linarith)

/-- They leave the grade as it is exactly if no half lies between the two means. -/
theorem Faster.le_getNetworkQuality_iff {stats other : NetStatistics} (faster : Faster stats other) :
    stats.getNetworkQuality ≤ other.getNetworkQuality ↔
      ¬∃ grade : ℤ, mean (qualityTerms other) * 5 < grade - 1 / 2 ∧
        grade - 1 / 2 ≤ mean (qualityTerms stats) * 5 := by
  by_cases nothing : qualityTerms stats = []
  · have nothingLater := faster.nil_iff.mpr nothing
    rw [getNetworkQuality_eq, getNetworkQuality_eq, if_pos nothing, if_pos nothingLater, nothing,
      nothingLater]
    refine iff_of_true le_rfl ?_
    rintro ⟨grade, above, below⟩
    exact absurd below (not_le_of_gt above)
  · rw [getNetworkQuality_floor nothing, getNetworkQuality_floor (faster.nil_iff.not.mpr nothing),
      floor_le_floor_iff]
    simp only [← lt_sub_iff_add_lt, ← sub_le_iff_le_add]

/-- The grade is in its scale, and other statistics with larger speeds have no smaller
grade. -/
def Rewards (stats other : NetStatistics) : Prop :=
  (stats.getNetworkQuality = -1 ∨ 1 ≤ stats.getNetworkQuality ∧ stats.getNetworkQuality ≤ 5) ∧
    (Faster stats other → stats.getNetworkQuality ≤ other.getNetworkQuality)

end NetStatistics

open NetStatistics

end Tegenaria.LibNet
