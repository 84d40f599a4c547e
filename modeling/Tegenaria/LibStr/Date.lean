import Tegenaria.Foundation.Calendar
import Tegenaria.LibStr.Parser

/-!
# Days after a date

`StrDateAddDays` and `StrDateAddDaysUTC0` read a date, make a time of it, add days in seconds and
write the date of the sum.  Both take the midnight of the time zone of the process, without daylight saving
time.  The first writes the date in that zone, the second the date in UTC.

The time zone is a parameter, and so is the width in which `strftime` writes years before 1000.
-/

namespace Tegenaria.LibStr

open Foundation.Calendar LibNet TextParser

namespace DateText

/-- The fields of `struct tm` that are read from a date.  All others are zero. -/
structure Tm where
  year : Int
  mon : Int
  mday : Int

/-- `strtol`, cut to an `int`: the number and the string behind it, which is the whole string if there is
no number. -/
def strtol (text : Chars) : Int × Chars :=
  let number (sign : Int) (digits : Chars) :=
    if digits.takeWhile isDigit = [] then (0, text)
    else (longToInt (sign * readDigits 0 digits), digits.dropWhile isDigit)
  match text.dropWhile isBlank with
  | 45 :: digits => number (-1) digits
  | 43 :: digits => number 1 digits
  | digits => number 1 digits

/-- The branches of `strptime` for `%Y`, `%m` and `%d`. -/
def numberField (buf : Chars) : Option (Int × Chars) :=
  let (ret, s) := strtol buf
  if s = buf then none else some (ret, s)

/-- The branch of `strptime` for a letter of the format. -/
def letterField (letter : UInt8) : Chars → Option Chars
  | first :: buf => if first = letter then some buf else none
  | [] => none

/-- `strptime` with the format `%Y-%m-%d`. -/
def strptime (buf : Chars) : Option Tm :=
  (numberField buf).bind fun (year, buf) =>
  (letterField 45 buf).bind fun buf =>
  (numberField buf).bind fun (month, buf) =>
  (letterField 45 buf).bind fun buf =>
  (numberField buf).map fun (day, _) => ⟨year - 1900, month - 1, day⟩

/-- What the C library knows about the time zone of the process: the seconds that the local time is ahead
at an instant, whether that is daylight saving time, and how far a local time without daylight saving
time is ahead. -/
structure TimeZone where
  offset : Int → Int
  isDst : Int → Bool
  standardOffset : Int → Int
  agrees : ∀ wall, isDst (wall - standardOffset wall) = false →
    offset (wall - standardOffset wall) = standardOffset wall

def secondsPerDay : Int := 86400

/-- The days to a date.  Months behind the last one belong to the next years. -/
def Tm.days (tm : Tm) : Int :=
  let year := tm.year + 1900 + tm.mon / 12
  daysBeforeYear year + daysBeforeMonth (isLeap year) ((tm.mon % 12).toNat + 1) + (tm.mday - 1)

/-- `mktime` without daylight saving time. -/
def mktime (zone : TimeZone) (tm : Tm) : Int :=
  let wall := secondsPerDay * tm.days
  wall - zone.standardOffset wall

/-- The date in `localtime`. -/
def localtime (zone : TimeZone) (ts : Int) : Date := dateOf ((ts + zone.offset ts) / secondsPerDay)

/-- The date in `gmtime`. -/
def gmtime (ts : Int) : Date := dateOf (ts / secondsPerDay)

/-- A number with zeros in front. -/
def padded (width value : Nat) : Chars :=
  List.replicate (width - (decimal value).length) 48 ++ decimal value

/-- `%Y` -/
def yearText (padsYear : Bool) (year : Int) : Chars :=
  let digits := if padsYear then padded 4 year.natAbs else decimal year.natAbs
  if year < 0 then 45 :: digits else digits

/-- `strftime` with the format `%Y-%m-%d`. -/
def strftime (padsYear : Bool) (date : Date) : Chars :=
  yearText padsYear date.year ++ 45 :: (padded 2 date.month ++ 45 :: padded 2 date.day)

/-- A product of `int`s, which is undefined if it does not fit. -/
def intMul (first second : Int) : Option Int :=
  if -2 ^ 31 ≤ first * second ∧ first * second < 2 ^ 31 then some (first * second) else none

/-- `nDays * 3600 * 24` -/
def secondsOf (nDays : Int) : Option Int := (intMul nDays 3600).bind fun hours => intMul hours 24

/-- What both functions do, but for the call that turns the sum into a date. -/
def addDaysWith (dateAt : Int → Date) (zone : TimeZone) (padsYear : Bool) (date : Chars) (nDays : Int) :
    Option Chars :=
  if date.length ≠ 10 then some date
  else
    match strptime date with
    | none => some date
    | some tm => (secondsOf nDays).map fun seconds => strftime padsYear (dateAt (mktime zone tm + seconds))

end DateText

open DateText

/-- `StrDateAddDays` -/
def strDateAddDays (zone : TimeZone) : Bool → Chars → Int → Option Chars :=
  addDaysWith (localtime zone) zone

/-- `StrDateAddDaysUTC0` -/
def strDateAddDaysUTC0 (zone : TimeZone) : Bool → Chars → Int → Option Chars := addDaysWith gmtime zone

namespace DateText

/-! ## What the functions are for -/

/-- The year has four digits. -/
def HasText (date : Date) : Prop := 0 ≤ date.year ∧ date.year ≤ 9999

/-- `YYYY-MM-DD` -/
def dateText (date : Date) : Chars :=
  padded 4 date.year.toNat ++ 45 :: (padded 2 date.month ++ 45 :: padded 2 date.day)

/-- The date a number of days later is returned. -/
def AddsDays (addDays : Chars → Int → Option Chars) (date : Date) (nDays : Int) : Prop :=
  addDays (dateText date) nDays = some (dateText (shift date nDays))

/-- How far the midnight of a date is ahead. -/
def midnightOffset (zone : TimeZone) (date : Date) : Int :=
  zone.standardOffset (secondsPerDay * dayNumber date)

/-- The instant of the sum. -/
def sumInstant (zone : TimeZone) (date : Date) (nDays : Int) : Int :=
  secondsPerDay * (dayNumber date + nDays) - midnightOffset zone date

/-- The seconds fit into an `int`, and the year of the sum is written with four digits. -/
structure Computable (padsYear : Bool) (date : Date) (nDays : Int) : Prop where
  lower : -24855 ≤ nDays
  upper : nDays ≤ 24855
  fourDigits : padsYear = true ∨ 1000 ≤ (shift date nDays).year

/-- At the instant of the sum the zone is less than a day ahead of where it was at the midnight, and
not behind. -/
def StaysOnDay (zone : TimeZone) (date : Date) (nDays : Int) : Prop :=
  0 ≤ zone.offset (sumInstant zone date nDays) - midnightOffset zone date ∧
    zone.offset (sumInstant zone date nDays) - midnightOffset zone date < secondsPerDay

/-- The midnight of the zone is not before the one of UTC, and less than a day behind. -/
def BehindUtc (zone : TimeZone) (date : Date) : Prop :=
  -secondsPerDay < midnightOffset zone date ∧ midnightOffset zone date ≤ 0

/-! ## Numbers with zeros -/

variable {zone : TimeZone} {padsYear : Bool} {date : Date} {nDays : Int} {width value : Nat} {tail : Chars}

theorem padded_digits (width value : Nat) : ∀ letter ∈ padded width value, isDigit letter = true := by
  intro letter member
  cases List.mem_append.mp member with
  | inl zero =>
      rw [(List.mem_replicate.mp zero).2]
      decide
  | inr digit => exact decimal_digits value letter digit

theorem decimal_ne_nil (value : Nat) : decimal value ≠ [] := by
  obtain ⟨first, _, rest, digits⟩ := decimal_begin value
  rw [digits]
  exact List.cons_ne_nil _ _

theorem padded_ne_nil (width value : Nat) : padded width value ≠ [] :=
  List.append_ne_nil_of_right_ne_nil _ (decimal_ne_nil value)

/-- Zeros in front do not count. -/
theorem readDigits_padded (width value : Nat) (rest : Chars) :
    readDigits 0 (padded width value ++ rest) = readDigits value rest := by
  have zeros : ∀ count : Nat, ∀ later : Chars,
      readDigits 0 (List.replicate count 48 ++ later) = readDigits 0 later := by
    intro count later
    induction count with
    | zero => rfl
    | succ count ih =>
        rw [List.replicate_succ, List.cons_append, readDigits, if_pos (by decide)]
        exact ih
  rw [padded, List.append_assoc, zeros, readDigits_decimal]

theorem padded_inj {other : Nat} (same : padded width value = padded width other) : value = other := by
  have read := readDigits_padded width value []
  rw [same, readDigits_padded] at read
  exact (Int.ofNat.inj read).symm

theorem length_decimal_le (positive : 1 ≤ width) (small : value < 10 ^ width) :
    (decimal value).length ≤ width := by
  fun_induction decimal value generalizing width with
  | case1 value digit => exact positive
  | case2 value large ih =>
      obtain ⟨less, rfl⟩ : ∃ less, width = less + 1 := ⟨width - 1, by omega⟩
      rw [List.length_append, List.length_singleton]
      refine Nat.succ_le_succ (ih ?_ ?_)
      · cases less with
        | zero => exact absurd (by simpa using small) large
        | succ less => exact Nat.le_add_left 1 less
      · rw [Nat.pow_succ] at small
        omega

theorem lt_length_decimal (large : 10 ^ width ≤ value) : width < (decimal value).length := by
  fun_induction decimal value generalizing width with
  | case1 value digit =>
      cases width with
      | zero => exact Nat.zero_lt_one
      | succ less =>
          have ten : 10 ≤ 10 ^ (less + 1) := Nat.le_self_pow (Nat.succ_ne_zero less) 10
          omega
  | case2 value notDigit ih =>
      rw [List.length_append, List.length_singleton]
      cases width with
      | zero => exact Nat.succ_pos _
      | succ less =>
          refine Nat.succ_lt_succ (ih ?_)
          rw [Nat.pow_succ] at large
          omega

theorem length_padded (positive : 1 ≤ width) (small : value < 10 ^ width) :
    (padded width value).length = width := by
  have fits := length_decimal_le positive small
  rw [padded, List.length_append, List.length_replicate]
  omega

/-! ## Reading a date -/

theorem digit_plain {letter : UInt8} (digit : isDigit letter = true) :
    isBlank letter = false ∧ letter ≠ 45 ∧ letter ≠ 43 := by
  obtain ⟨lower, upper⟩ := isDigit_iff.mp digit
  have lower : 48 ≤ letter.toNat := lower
  refine ⟨?_, ?_, ?_⟩
  · have notSpace : letter ≠ 32 := by
      rintro rfl
      exact absurd lower (by decide)
    have above : ¬ letter ≤ 13 := by
      intro below
      have below : letter.toNat ≤ 13 := below
      omega
    simp [isBlank, notSpace, above]
  · rintro rfl
    exact absurd lower (by decide)
  · rintro rfl
    exact absurd lower (by decide)

/-- Behind a digit there are neither white space nor signs. -/
theorem strtol_digit {first : UInt8} (digit : isDigit first = true) (rest : Chars) :
    strtol (first :: rest) =
      (longToInt (readDigits 0 (first :: rest)), (first :: rest).dropWhile isDigit) := by
  obtain ⟨notBlank, notMinus, notPlus⟩ := digit_plain digit
  have some_ : (first :: rest).takeWhile isDigit ≠ [] := by
    rw [List.takeWhile_cons_of_pos digit]
    exact List.cons_ne_nil _ _
  rw [strtol, List.dropWhile_cons_of_neg (by rw [notBlank]; decide)]
  split
  · next same => exact absurd (List.cons.inj same).1 notMinus
  · next same => exact absurd (List.cons.inj same).1 notPlus
  · simp only [if_neg some_, Int.one_mul]

/-- A number of digits is read up to the first letter that is no digit. -/
theorem numberField_padded (width : Nat) {value : Nat} (fits : value < 2 ^ 31)
    (other : ∀ letter ∈ tail.head?, isDigit letter = false) :
    numberField (padded width value ++ tail) = some ((value : Int), tail) := by
  have digits := padded_digits width value
  obtain ⟨first, rest, text⟩ := List.exists_cons_of_ne_nil (padded_ne_nil width value)
  have firstDigit := digits first (by rw [text]; exact List.mem_cons_self)
  have read := readDigits_padded width value tail
  have passed : (padded width value ++ tail).dropWhile isDigit = tail := by
    rw [List.dropWhile_append_of_pos digits, dropWhile_stop other]
  have number : strtol (padded width value ++ tail) = ((value : Int), tail) := by
    rw [readDigits_stop other] at read
    rw [text, List.cons_append] at read passed ⊢
    rw [strtol_digit firstDigit, read, passed, longToInt_of_fits (by omega) (by omega)]
  have moved : tail ≠ padded width value ++ tail := by
    intro same
    have lengths := congrArg List.length same
    rw [text, List.cons_append, List.length_cons, List.length_append] at lengths
    omega
  rw [numberField, number]
  exact if_neg moved

theorem lastField : ∀ letter ∈ ([] : Chars).head?, isDigit letter = false := by
  intro letter first
  exact absurd first (by simp)

theorem minusField (rest : Chars) : ∀ letter ∈ (45 :: rest).head?, isDigit letter = false := by
  intro letter first
  cases Option.some.inj first
  rfl

theorem letterField_same (letter : UInt8) (rest : Chars) :
    letterField letter (letter :: rest) = some rest :=
  if_pos rfl

/-- The day of a date is at most 31. -/
theorem day_le (date : Date) : date.day ≤ 31 := by
  refine Nat.le_trans date.dayValid.2 ?_
  rw [monthLength]
  split <;> split <;> decide

theorem length_dateText (hasText : HasText date) : (dateText date).length = 10 := by
  have monthLe := date.monthValid.2
  have dayLe := day_le date
  have yearLe := hasText.2
  rw [dateText, List.length_append, List.length_cons, List.length_append, List.length_cons,
    length_padded (by decide) (by omega), length_padded (by decide) (by omega),
    length_padded (by decide) (by omega)]

theorem strptime_dateText (hasText : HasText date) :
    strptime (dateText date) = some ⟨date.year - 1900, (date.month : Int) - 1, date.day⟩ := by
  have monthLe := date.monthValid.2
  have dayLe := day_le date
  obtain ⟨nonneg, yearLe⟩ := hasText
  have yearFits : date.year.toNat < 2 ^ 31 := by omega
  have monthFits : date.month < 2 ^ 31 := by omega
  have dayFits : date.day < 2 ^ 31 := by omega
  have year := numberField_padded 4 yearFits (minusField (padded 2 date.month ++ 45 :: padded 2 date.day))
  have month := numberField_padded 2 monthFits (minusField (padded 2 date.day))
  have day := numberField_padded 2 dayFits lastField
  rw [List.append_nil] at day
  simp only [strptime, dateText, year, month, day, letterField_same, Option.bind_some, Option.map_some,
    Int.toNat_of_nonneg nonneg]

theorem days_eq (date : Date) :
    Tm.days ⟨date.year - 1900, (date.month : Int) - 1, date.day⟩ = dayNumber date := by
  obtain ⟨monthPositive, monthLe⟩ := date.monthValid
  have month : (((date.month : Int) - 1) % 12).toNat + 1 = date.month := by omega
  have year : date.year - 1900 + 1900 + ((date.month : Int) - 1) / 12 = date.year := by omega
  rw [Tm.days, dayNumber]
  simp only [month, year]

/-! ## Writing the sum -/

theorem secondsOf_small (lower : -24855 ≤ nDays) (upper : nDays ≤ 24855) :
    secondsOf nDays = some (secondsPerDay * nDays) := by
  have hours : intMul nDays 3600 = some (nDays * 3600) := if_pos (by omega)
  have seconds : intMul (nDays * 3600) 24 = some (nDays * 3600 * 24) := if_pos (by omega)
  have same : nDays * 3600 * 24 = secondsPerDay * nDays := by
    rw [secondsPerDay]
    omega
  rw [secondsOf, hours, Option.bind_some, seconds, same]

/-- More days do not fit into seconds. -/
theorem secondsOf_large (large : ¬ (-24855 ≤ nDays ∧ nDays ≤ 24855)) : secondsOf nDays = none := by
  rw [secondsOf, intMul]
  split
  · exact if_neg (by omega)
  · rfl

/-- A year with four digits is the only one with its text. -/
theorem yearText_eq_iff {year wanted : Int} (nonneg : 0 ≤ wanted) (small : wanted ≤ 9999) :
    yearText padsYear year = padded 4 wanted.toNat ↔ year = wanted ∧ (padsYear = true ∨ 1000 ≤ wanted) := by
  have number : ∀ digits : Chars, 45 :: digits ≠ padded 4 wanted.toNat := by
    intro digits same
    have sign := padded_digits 4 wanted.toNat 45 (by rw [← same]; exact List.mem_cons_self)
    exact absurd sign (by decide)
  constructor
  · intro same
    rw [yearText] at same
    have notNegative : ¬ year < 0 := by
      intro negative
      rw [if_pos negative] at same
      cases padsYear with
      | false => exact number _ same
      | true => exact number _ same
    rw [if_neg notNegative] at same
    cases padsYear with
    | true =>
        have equal := padded_inj same
        exact ⟨by omega, .inl rfl⟩
    | false =>
        have same : decimal year.natAbs = padded 4 wanted.toNat := same
        have read := readDigits_padded 4 wanted.toNat []
        rw [← same, readDigits_decimal] at read
        have equal := Int.ofNat.inj read
        have long := congrArg List.length same
        rw [length_padded (by decide) (by omega)] at long
        refine ⟨by omega, .inr ?_⟩
        by_contra few
        have short : (decimal year.natAbs).length ≤ 3 := length_decimal_le (by decide) (by omega)
        omega
  · rintro ⟨rfl, wide⟩
    have abs : year.natAbs = year.toNat := by omega
    rw [yearText, if_neg (Int.not_lt.mpr nonneg), abs]
    cases padsYear with
    | true => rfl
    | false =>
        have thousand : 1000 ≤ year := wide.resolve_left (by decide)
        have large : 10 ^ 3 ≤ year.toNat := by omega
        have long := lt_length_decimal large
        have noZeros : 4 - (decimal year.toNat).length = 0 := by omega
        rw [padded, noZeros]
        rfl

/-- No other date has the text of a date with four digits of the year. -/
theorem strftime_eq_iff {wanted : Date} (hasText : HasText wanted) :
    strftime padsYear date = dateText wanted ↔
      date = wanted ∧ (padsYear = true ∨ 1000 ≤ wanted.year) := by
  have two : ∀ written : Date, written.month < 10 ^ 2 ∧ written.day < 10 ^ 2 := by
    intro written
    have monthLe := written.monthValid.2
    have dayLe := day_le written
    omega
  constructor
  · intro same
    have lengths : (45 :: (padded 2 date.month ++ 45 :: padded 2 date.day)).length =
        (45 :: (padded 2 wanted.month ++ 45 :: padded 2 wanted.day)).length := by
      rw [List.length_cons, List.length_append, List.length_cons, List.length_cons, List.length_append,
        List.length_cons, length_padded (by decide) (two date).1, length_padded (by decide) (two date).2,
        length_padded (by decide) (two wanted).1, length_padded (by decide) (two wanted).2]
    obtain ⟨years, rest⟩ := List.append_inj' same lengths
    obtain ⟨year, wide⟩ := (yearText_eq_iff hasText.1 hasText.2).mp years
    have monthLengths : (padded 2 date.month).length = (padded 2 wanted.month).length := by
      rw [length_padded (by decide) (two date).1, length_padded (by decide) (two wanted).1]
    obtain ⟨months, days⟩ := List.append_inj (List.cons.inj rest).2 monthLengths
    have month := padded_inj months
    have day := padded_inj (List.cons.inj days).2
    refine ⟨?_, wide⟩
    cases date
    cases wanted
    simp only at year month day
    subst year month day
    rfl
  · rintro ⟨rfl, wide⟩
    rw [strftime, (yearText_eq_iff hasText.1 hasText.2).mpr ⟨rfl, wide⟩]
    rfl

/-! ## The sum -/

theorem mktime_eq (zone : TimeZone) (date : Date) :
    mktime zone ⟨date.year - 1900, (date.month : Int) - 1, date.day⟩ =
      secondsPerDay * dayNumber date - midnightOffset zone date := by
  rw [mktime, days_eq, midnightOffset]

/-- Seconds that are ahead move a date by whole days. -/
theorem dateOf_seconds (date : Date) (nDays ahead : Int) :
    dateOf ((secondsPerDay * (dayNumber date + nDays) + ahead) / secondsPerDay) =
      shift date (nDays + ahead / secondsPerDay) := by
  have split : (secondsPerDay * (dayNumber date + nDays) + ahead) / secondsPerDay =
      dayNumber date + (nDays + ahead / secondsPerDay) := by
    rw [secondsPerDay]
    omega
  rw [split, dateOf_dayNumber_add]

theorem sum_eq (zone : TimeZone) (date : Date) (nDays : Int) :
    mktime zone ⟨date.year - 1900, (date.month : Int) - 1, date.day⟩ + secondsPerDay * nDays =
      sumInstant zone date nDays := by
  rw [mktime_eq, sumInstant, Int.mul_add]
  omega

theorem addDaysWith_small (dateAt : Int → Date) (hasText : HasText date) (lower : -24855 ≤ nDays)
    (upper : nDays ≤ 24855) : addDaysWith dateAt zone padsYear (dateText date) nDays =
      some (strftime padsYear (dateAt (sumInstant zone date nDays))) := by
  rw [addDaysWith, length_dateText hasText, if_neg (by decide), strptime_dateText hasText]
  simp only [secondsOf_small lower upper, Option.map_some, sum_eq]

theorem addDaysWith_large (dateAt : Int → Date) (hasText : HasText date)
    (large : ¬ (-24855 ≤ nDays ∧ nDays ≤ 24855)) :
    addDaysWith dateAt zone padsYear (dateText date) nDays = none := by
  rw [addDaysWith, length_dateText hasText, if_neg (by decide), strptime_dateText hasText]
  simp only [secondsOf_large large, Option.map_none]

theorem localtime_sum (zone : TimeZone) (date : Date) (nDays : Int) :
    localtime zone (sumInstant zone date nDays) = shift date (nDays +
      (zone.offset (sumInstant zone date nDays) - midnightOffset zone date) / secondsPerDay) := by
  have ahead : sumInstant zone date nDays + zone.offset (sumInstant zone date nDays) =
      secondsPerDay * (dayNumber date + nDays) +
        (zone.offset (sumInstant zone date nDays) - midnightOffset zone date) := by
    rw [sumInstant]
    omega
  rw [localtime, ahead, dateOf_seconds]

theorem gmtime_sum (zone : TimeZone) (date : Date) (nDays : Int) : gmtime (sumInstant zone date nDays) =
    shift date (nDays + -midnightOffset zone date / secondsPerDay) := by
  have ahead : sumInstant zone date nDays =
      secondsPerDay * (dayNumber date + nDays) + -midnightOffset zone date := Int.sub_eq_add_neg
  rw [gmtime, ahead, dateOf_seconds]

theorem shift_eq_iff (date : Date) (nDays moved : Int) :
    shift date (nDays + moved) = shift date nDays ↔ moved = 0 := by
  constructor
  · intro same
    have days := congrArg dayNumber same
    rw [dayNumber_shift, dayNumber_shift] at days
    omega
  · rintro rfl
    rw [Int.add_zero]

/-- The right date is written if the sum is in no other day. -/
theorem addsDays_iff_of_moved {dateAt : Int → Date} (hasText : HasText date)
    (sumHasText : HasText (shift date nDays)) {moved : Int}
    (sum : dateAt (sumInstant zone date nDays) = shift date (nDays + moved)) :
    AddsDays (addDaysWith dateAt zone padsYear) date nDays ↔
      Computable padsYear date nDays ∧ moved = 0 := by
  by_cases fits : -24855 ≤ nDays ∧ nDays ≤ 24855
  · rw [AddsDays, addDaysWith_small dateAt hasText fits.1 fits.2, sum, Option.some.injEq,
      strftime_eq_iff sumHasText, shift_eq_iff]
    constructor
    · rintro ⟨same, wide⟩
      exact ⟨⟨fits.1, fits.2, wide⟩, same⟩
    · rintro ⟨computable, same⟩
      exact ⟨same, computable.fourDigits⟩
  · rw [AddsDays, addDaysWith_large dateAt hasText fits]
    constructor
    · intro absent
      exact absurd absent.symm (Option.some_ne_none _)
    · rintro ⟨computable, _⟩
      exact absurd ⟨computable.lower, computable.upper⟩ fits

theorem quotient_eq_zero (seconds : Int) :
    seconds / secondsPerDay = 0 ↔ 0 ≤ seconds ∧ seconds < secondsPerDay := by
  rw [secondsPerDay]
  omega

theorem addsDays_iff (hasText : HasText date) (sumHasText : HasText (shift date nDays)) :
    AddsDays (strDateAddDays zone padsYear) date nDays ↔
      Computable padsYear date nDays ∧ StaysOnDay zone date nDays := by
  rw [strDateAddDays, addsDays_iff_of_moved hasText sumHasText (localtime_sum zone date nDays),
    quotient_eq_zero]
  rfl

theorem addsDaysUTC0_iff (hasText : HasText date) (sumHasText : HasText (shift date nDays)) :
    AddsDays (strDateAddDaysUTC0 zone padsYear) date nDays ↔
      Computable padsYear date nDays ∧ BehindUtc zone date := by
  have range : (0 ≤ -midnightOffset zone date ∧ -midnightOffset zone date < secondsPerDay) ↔
      BehindUtc zone date := by
    rw [BehindUtc, secondsPerDay]
    omega
  rw [strDateAddDaysUTC0, addsDays_iff_of_moved hasText sumHasText (gmtime_sum zone date nDays),
    quotient_eq_zero, range]

/-- Days that are added one after another add up. -/
theorem addsDays_twice {addDays : Chars → Int → Option Chars} {more : Int}
    (first : AddsDays addDays date nDays)
    (second : AddsDays addDays (shift date nDays) more) :
    ((addDays (dateText date) nDays).bind fun sum => addDays sum more) =
      some (dateText (shift date (nDays + more))) := by
  rw [AddsDays] at first second
  rw [first, Option.bind_some, second, shift_add]

end DateText

/-- In the zone of the process days are added exactly if their seconds fit into an `int` and the zone is
not behind what it was at the midnight of the date; in UTC exactly if the zone is not ahead of UTC.
Right sums add up. -/
theorem strDateAddDays_iff (zone : TimeZone) (padsYear : Bool) {date : Date} {nDays : Int}
    (hasText : HasText date) (sumHasText : HasText (shift date nDays)) :
    (AddsDays (strDateAddDays zone padsYear) date nDays ↔
      Computable padsYear date nDays ∧ StaysOnDay zone date nDays) ∧
    (AddsDays (strDateAddDaysUTC0 zone padsYear) date nDays ↔
      Computable padsYear date nDays ∧ BehindUtc zone date) ∧
    (∀ addDays ∈ [strDateAddDays zone padsYear, strDateAddDaysUTC0 zone padsYear], ∀ more,
      AddsDays addDays date nDays → AddsDays addDays (shift date nDays) more →
        ((addDays (dateText date) nDays).bind fun sum => addDays sum more) =
          some (dateText (shift date (nDays + more)))) :=
  ⟨addsDays_iff hasText sumHasText, addsDaysUTC0_iff hasText sumHasText,
    fun _ _ _ first second => addsDays_twice first second⟩

namespace DateText

/-- A zone that is always the same time ahead. -/
def fixedZone (ahead : Int) : TimeZone where
  offset := fun _ => ahead
  isDst := fun _ => false
  standardOffset := fun _ => ahead
  agrees := fun _ _ => rfl

/-- A zone with standard time in summer.  On the 26th of October 2014 it goes an hour back. -/
def summerStandard : TimeZone where
  offset := fun ts => if ts < 1414285200 then 3600 else 0
  isDst := fun ts => 1414285200 ≤ ts
  standardOffset := fun _ => 3600
  agrees := by
    intro wall standard
    exact if_pos (Int.not_le.mp (of_decide_eq_false standard))

def october (day : Nat) (valid : 1 ≤ day ∧ day ≤ 31) : Date := ⟨2014, 10, day, by decide, valid⟩

theorem hasText_october (day : Nat) (valid : 1 ≤ day ∧ day ≤ 31) : HasText (october day valid) :=
  ⟨(by decide : (0 : Int) ≤ 2014), (by decide : (2014 : Int) ≤ 9999)⟩

theorem shift_october {day later : Nat} (valid : 1 ≤ day ∧ day ≤ 31) (laterValid : 1 ≤ later ∧ later ≤ 31)
    {nDays : Int} (sum : (later : Int) = day + nDays) :
    shift (october day valid) nDays = october later laterValid := by
  apply dayNumber_injective
  rw [dayNumber_shift, dayNumber, dayNumber, october, october]
  simp only
  omega

end DateText

theorem strDateAddDays_next :
    AddsDays (strDateAddDays (fixedZone 0) true) (october 14 (by decide)) 1 ∧
      AddsDays (strDateAddDaysUTC0 (fixedZone 0) true) (october 14 (by decide)) 1 := by
  have sum : shift (october 14 (by decide)) 1 = october 15 (by decide) := shift_october _ _ rfl
  have hasText := hasText_october 14 (by decide)
  have sumHasText : HasText (shift (october 14 (by decide)) 1) := by
    rw [sum]
    exact hasText_october 15 _
  have adds := strDateAddDays_iff (fixedZone 0) true hasText sumHasText
  have computable : Computable true (october 14 (by decide)) 1 := ⟨by decide, by decide, .inl rfl⟩
  exact ⟨adds.1.mpr ⟨computable, by decide, by decide⟩, adds.2.1.mpr ⟨computable, by decide, by decide⟩⟩

/-- One day after the 14th of October 2014 is the same day in UTC where the zone is an hour ahead.  Ten
days after the 20th the zone is behind its standard time, and the 29th is returned.  The seconds of 24856
days do not fit. -/
theorem strDateAddDays_wrong :
    (strDateAddDaysUTC0 (fixedZone 3600) true (dateText (october 14 (by decide))) 1 =
        some (dateText (october 14 (by decide))) ∧
      ¬ AddsDays (strDateAddDaysUTC0 (fixedZone 3600) true) (october 14 (by decide)) 1) ∧
    (strDateAddDays summerStandard true (dateText (october 20 (by decide))) 10 =
        some (dateText (october 29 (by decide))) ∧
      ¬ AddsDays (strDateAddDays summerStandard true) (october 20 (by decide)) 10) ∧
    ¬ AddsDays (strDateAddDays (fixedZone 0) true) (october 14 (by decide)) 24856 := by
  have written : ∀ day valid, strftime true (october day valid) = dateText (october day valid) :=
    fun day valid => (strftime_eq_iff (hasText_october day valid)).mpr ⟨rfl, .inl rfl⟩
  refine ⟨⟨?_, ?_⟩, ⟨?_, ?_⟩, ?_⟩
  · have back : 1 + -midnightOffset (fixedZone 3600) (october 14 (by decide)) / secondsPerDay = 0 := by
      decide
    rw [strDateAddDaysUTC0, addDaysWith_small _ (hasText_october _ _) (by decide) (by decide),
      gmtime_sum, back, shift_zero, written]
  · have sum : shift (october 14 (by decide)) 1 = october 15 (by decide) := shift_october _ _ rfl
    rw [addsDaysUTC0_iff (hasText_october _ _) (by rw [sum]; exact hasText_october _ _)]
    rintro ⟨_, _, notAhead⟩
    exact absurd notAhead (by decide)
  · have back : 10 + (summerStandard.offset (sumInstant summerStandard (october 20 (by decide)) 10) -
        midnightOffset summerStandard (october 20 (by decide))) / secondsPerDay = 9 := by decide
    have sum : shift (october 20 (by decide)) 9 = october 29 (by decide) := shift_october _ _ rfl
    rw [strDateAddDays, addDaysWith_small _ (hasText_october _ _) (by decide) (by decide),
      localtime_sum, back, sum, written]
  · have sum : shift (october 20 (by decide)) 10 = october 30 (by decide) := shift_october _ _ rfl
    rw [addsDays_iff (hasText_october _ _) (by rw [sum]; exact hasText_october _ _)]
    rintro ⟨_, notBehind, _⟩
    exact absurd notBehind (by decide)
  · rw [AddsDays, strDateAddDays, addDaysWith_large _ (hasText_october _ _) (by decide)]
    exact (Option.some_ne_none _).symm

end Tegenaria.LibStr
