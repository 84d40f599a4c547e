import Mathlib.Algebra.Group.End
import Mathlib.Algebra.Group.Int.Even
import Mathlib.Order.Monotone.Basic

/-!
# The Gregorian calendar

A date is valid by construction.  Going to the next date is a permutation of all dates, and its powers
go any number of days later or earlier.  Dates are counted from the first of January 1970.
-/

namespace Foundation.Calendar

/-- A year that can be divided by four, but of the full centuries only every fourth. -/
def isLeap (year : Int) : Bool := year % 4 = 0 ∧ (year % 100 ≠ 0 ∨ year % 400 = 0)

/-- The length of a month, from one to twelve. -/
def monthLength (leap : Bool) (month : Nat) : Nat :=
  if month = 2 then if leap then 29 else 28
  else if month = 4 ∨ month = 6 ∨ month = 9 ∨ month = 11 then 30
  else 31

/-- The days of a year before a month. -/
def daysBeforeMonth (leap : Bool) : Nat → Nat
  | 0 => 0
  | 1 => 0
  | month + 2 => daysBeforeMonth leap (month + 1) + monthLength leap (month + 1)

/-- The days from the first of January 1970 to the first of January of a year. -/
def daysBeforeYear (year : Int) : Int :=
  365 * (year - 1970) + (year - 1) / 4 - (year - 1) / 100 + (year - 1) / 400 - 477

structure Date where
  year : Int
  month : Nat
  day : Nat
  monthValid : 1 ≤ month ∧ month ≤ 12
  dayValid : 1 ≤ day ∧ day ≤ monthLength (isLeap year) month
  deriving DecidableEq

/-- The days from the first of January 1970. -/
def dayNumber (date : Date) : Int :=
  daysBeforeYear date.year + daysBeforeMonth (isLeap date.year) date.month + (date.day - 1)

example : dayNumber ⟨2014, 10, 14, by decide, by decide⟩ = 16357 := by decide

theorem monthLength_pos (leap : Bool) (month : Nat) : 1 ≤ monthLength leap month := by
  rw [monthLength]
  split <;> split <;> decide

/-- The day after. -/
def next (date : Date) : Date :=
  if within : date.day < monthLength (isLeap date.year) date.month then
    { date with day := date.day + 1, dayValid := ⟨Nat.le_add_left 1 _, within⟩ }
  else if earlier : date.month < 12 then
    { year := date.year, month := date.month + 1, day := 1
      monthValid := ⟨Nat.le_add_left 1 _, earlier⟩
      dayValid := ⟨Nat.le_refl 1, monthLength_pos _ _⟩ }
  else
    { year := date.year + 1, month := 1, day := 1
      monthValid := by decide
      dayValid := ⟨Nat.le_refl 1, monthLength_pos _ _⟩ }

/-- The day before. -/
def previous (date : Date) : Date :=
  if within : 1 < date.day then
    { date with
      day := date.day - 1
      dayValid := ⟨Nat.le_sub_one_of_lt within, Nat.le_trans (Nat.sub_le _ _) date.dayValid.2⟩ }
  else if later : 1 < date.month then
    { year := date.year, month := date.month - 1
      day := monthLength (isLeap date.year) (date.month - 1)
      monthValid := ⟨Nat.le_sub_one_of_lt later, Nat.le_trans (Nat.sub_le _ _) date.monthValid.2⟩
      dayValid := ⟨monthLength_pos _ _, Nat.le_refl _⟩ }
  else
    { year := date.year - 1, month := 12, day := 31
      monthValid := by decide
      dayValid := ⟨by decide, Nat.le_refl 31⟩ }

/-! ## Counting days -/

theorem daysBeforeMonth_succ (leap : Bool) {month : Nat} (positive : 1 ≤ month) :
    daysBeforeMonth leap (month + 1) = daysBeforeMonth leap month + monthLength leap month := by
  obtain ⟨before, rfl⟩ : ∃ before, month = before + 1 := ⟨month - 1, by omega⟩
  rfl

theorem daysBeforeMonth_mono (leap : Bool) : Monotone (daysBeforeMonth leap) := by
  refine monotone_nat_of_le_succ ?_
  intro month
  cases month with
  | zero => exact Nat.le_refl 0
  | succ before => exact Nat.le_add_right _ _

/-- The days of a whole year. -/
theorem daysBeforeMonth_all (leap : Bool) : daysBeforeMonth leap 13 = if leap then 366 else 365 := by
  cases leap <;> rfl

theorem daysBeforeYear_succ (year : Int) :
    daysBeforeYear (year + 1) = daysBeforeYear year + daysBeforeMonth (isLeap year) 13 := by
  rw [daysBeforeMonth_all]
  by_cases leap : isLeap year = true
  · rw [if_pos leap]
    rw [isLeap, decide_eq_true_eq] at leap
    rw [daysBeforeYear, daysBeforeYear]
    omega
  · rw [if_neg leap]
    rw [isLeap, decide_eq_true_eq] at leap
    rw [daysBeforeYear, daysBeforeYear]
    omega

theorem daysBeforeYear_mono {year later : Int} (order : year ≤ later) :
    daysBeforeYear year ≤ daysBeforeYear later := by
  rw [daysBeforeYear, daysBeforeYear]
  omega

theorem dayNumber_next (date : Date) : dayNumber (next date) = dayNumber date + 1 := by
  rw [next]
  split
  · rw [dayNumber, dayNumber]
    simp only
    omega
  · next full =>
      have valid := date.dayValid
      split
      · rw [dayNumber, dayNumber]
        simp only
        rw [daysBeforeMonth_succ _ date.monthValid.1]
        omega
      · next last =>
          have december : date.month = 12 := Nat.le_antisymm date.monthValid.2 (Nat.not_lt.mp last)
          have lastDay : date.day = monthLength (isLeap date.year) 12 := by
            rw [december] at full valid
            omega
          have year := daysBeforeYear_succ date.year
          rw [daysBeforeMonth_succ _ (by decide)] at year
          rw [dayNumber, dayNumber, december, lastDay]
          simp only
          rw [year]
          simp only [daysBeforeMonth]
          omega

theorem dayNumber_previous (date : Date) : dayNumber (previous date) = dayNumber date - 1 := by
  rw [previous]
  have dayPositive := date.dayValid.1
  have monthPositive := date.monthValid.1
  split
  · rw [dayNumber, dayNumber]
    simp only
    omega
  · split
    · next later =>
        have length := daysBeforeMonth_succ (isLeap date.year) (Nat.le_sub_one_of_lt later)
        rw [Nat.sub_add_cancel monthPositive] at length
        rw [dayNumber, dayNumber, length]
        simp only
        omega
    · have january : date.month = 1 := by omega
      have december : monthLength (isLeap (date.year - 1)) 12 = 31 := rfl
      have begin : daysBeforeMonth (isLeap date.year) 1 = 0 := rfl
      have year := daysBeforeYear_succ (date.year - 1)
      rw [Int.sub_add_cancel, daysBeforeMonth_succ _ (by decide), december] at year
      rw [dayNumber, dayNumber, january, year, begin]
      simp only
      omega

/-- A date lies inside of its year. -/
theorem dayNumber_inside (date : Date) :
    daysBeforeYear date.year ≤ dayNumber date ∧ dayNumber date < daysBeforeYear (date.year + 1) := by
  have valid := date.dayValid
  have month := daysBeforeMonth_succ (isLeap date.year) date.monthValid.1
  have year : daysBeforeMonth (isLeap date.year) (date.month + 1) ≤ daysBeforeMonth (isLeap date.year) 13 :=
    daysBeforeMonth_mono _ (Nat.succ_le_succ date.monthValid.2)
  rw [daysBeforeYear_succ, dayNumber]
  omega

/-- Dates with the same number are the same. -/
theorem dayNumber_injective : Function.Injective dayNumber := by
  intro first second same
  have firstInside := dayNumber_inside first
  have secondInside := dayNumber_inside second
  have years : first.year = second.year := by
    cases Int.lt_trichotomy first.year second.year with
    | inl earlier =>
        have order := daysBeforeYear_mono (Int.add_one_le_of_lt earlier)
        omega
    | inr other =>
        cases other with
        | inl equal => exact equal
        | inr later =>
            have order := daysBeforeYear_mono (Int.add_one_le_of_lt later)
            omega
  have firstDay := first.dayValid
  have secondDay := second.dayValid
  have firstMonth := daysBeforeMonth_succ (isLeap first.year) first.monthValid.1
  have secondMonth := daysBeforeMonth_succ (isLeap second.year) second.monthValid.1
  rw [dayNumber, dayNumber] at same
  have months : first.month = second.month := by
    cases Nat.lt_trichotomy first.month second.month with
    | inl earlier =>
        have order := daysBeforeMonth_mono (isLeap first.year) (Nat.succ_le_of_lt earlier)
        rw [years] at same firstMonth firstDay order
        simp only [Nat.succ_eq_add_one] at order
        omega
    | inr other =>
        cases other with
        | inl equal => exact equal
        | inr later =>
            have order := daysBeforeMonth_mono (isLeap first.year) (Nat.succ_le_of_lt later)
            rw [years] at same firstMonth firstDay order
            simp only [Nat.succ_eq_add_one] at order
            omega
  have days : first.day = second.day := by
    rw [years, months] at same
    omega
  cases first
  cases second
  simp only at years months days
  subst years months days
  rfl

/-! ## Days later and earlier -/

/-- From each date to the next one. -/
def turn : Equiv.Perm Date where
  toFun := next
  invFun := previous
  left_inv date := dayNumber_injective (by rw [dayNumber_previous, dayNumber_next, Int.add_sub_cancel])
  right_inv date := dayNumber_injective (by rw [dayNumber_next, dayNumber_previous, Int.sub_add_cancel])

/-- The date a number of days later, or earlier if the number is negative. -/
def shift (date : Date) (days : Int) : Date := (turn ^ days) date

theorem shift_add (date : Date) (first second : Int) :
    shift (shift date first) second = shift date (first + second) := by
  rw [shift, shift, shift, Int.add_comm, zpow_add]
  rfl

theorem shift_zero (date : Date) : shift date 0 = date := by
  rw [shift, zpow_zero]
  rfl

theorem dayNumber_shift (date : Date) (days : Int) :
    dayNumber (shift date days) = dayNumber date + days := by
  induction days with
  | zero => rw [shift_zero, Int.add_zero]
  | succ days ih =>
      have one : shift (shift date days) 1 = next (shift date days) := rfl
      rw [← shift_add, one, dayNumber_next, ih, Int.add_assoc]
  | pred days ih =>
      have one : shift (shift date (-days)) (-1) = previous (shift date (-days)) := rfl
      rw [Int.sub_eq_add_neg, ← shift_add, one, dayNumber_previous, ih, Int.sub_eq_add_neg, Int.add_assoc]

/-- The first of January 1970. -/
def epoch : Date := ⟨1970, 1, 1, by decide, by decide⟩

/-- The date with a number. -/
def dateOf (days : Int) : Date := shift epoch days

theorem dayNumber_dateOf (days : Int) : dayNumber (dateOf days) = days := by
  have first : dayNumber epoch = 0 := by decide
  rw [dateOf, dayNumber_shift, first, Int.zero_add]

theorem dateOf_dayNumber_add (date : Date) (days : Int) :
    dateOf (dayNumber date + days) = shift date days := by
  apply dayNumber_injective
  rw [dayNumber_dateOf, dayNumber_shift]

end Foundation.Calendar
