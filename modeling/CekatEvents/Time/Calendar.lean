/-
  CekatEvents.Time.Calendar — dates of the proleptic Gregorian calendar.

  Years are integers, and year 0 comes before year 1.  A date is numbered by the days since 1970-01-01;
  that the number grows by one from each day to the next is what the lemmas of §2 say.

  Main results:

    • `epochDay_next_month`, `epochDay_next_year` — the first day after a month, and after a year;
    • `epochDay_lt_of_year_lt` — an earlier year has the earlier days.
-/
import Mathlib.Algebra.Order.Ring.Int
import Mathlib.Tactic.IntervalCases

namespace CekatEvents.Time

/-! ## §1. Years, months and days. -/

def isLeapYear (year : Int) : Bool :=
  decide (year % 4 = 0) && (!decide (year % 100 = 0) || decide (year % 400 = 0))

/-- The days of a month; months are numbered from one. -/
def lengthOfMonth (year : Int) (month : Nat) : Nat :=
  if month = 2 then if isLeapYear year then 29 else 28
  else if month = 4 ∨ month = 6 ∨ month = 9 ∨ month = 11 then 30
  else 31

/-- The leap years from year 0 up to, and without, a year. -/
def leapYearsBefore (year : Int) : Int := (year + 3) / 4 - (year + 99) / 100 + (year + 399) / 400

/-- The days of a year before a month, with a February of 30 days. -/
def daysBeforeMonth (month : Nat) : Int := ((367 * month - 362) / 12 : Nat)

/-- The days that February lacks. -/
def februaryGap (year : Int) (month : Nat) : Int :=
  if month ≤ 2 then 0 else if isLeapYear year then 1 else 2

/-- The days since 1970-01-01. -/
def epochDay (year : Int) (month day : Nat) : Int :=
  365 * year + leapYearsBefore year + daysBeforeMonth month - februaryGap year month + (day - 1) - 719528

/-- The day of the week, from Monday as zero. -/
def dayOfWeek (epochDay : Int) : Nat := ((epochDay + 3) % 7).toNat

theorem dayOfWeek_lt (epochDay : Int) : dayOfWeek epochDay < 7 := by
  unfold dayOfWeek
  omega

theorem isLeapYear_iff (year : Int) :
    isLeapYear year = true ↔ year % 4 = 0 ∧ (year % 100 ≠ 0 ∨ year % 400 = 0) := by
  simp [isLeapYear]

theorem lengthOfMonth_bounds (year : Int) (month : Nat) :
    28 ≤ lengthOfMonth year month ∧ lengthOfMonth year month ≤ 31 := by
  unfold lengthOfMonth
  split_ifs <;> omega

/-! ## §2. The number of a day. -/

/-- Years of a century apart in a 400-year cycle may differ in leap years, other years by their leap
    day. -/
theorem leapYearsBefore_succ (year : Int) :
    leapYearsBefore (year + 1) = leapYearsBefore year + if isLeapYear year then 1 else 0 := by
  unfold leapYearsBefore
  split_ifs with hleap
  · rw [isLeapYear_iff] at hleap
    omega
  · rw [isLeapYear_iff] at hleap
    omega

theorem leapYearsBefore_mono {year later : Int} (h : year ≤ later) :
    leapYearsBefore year ≤ leapYearsBefore later := by
  obtain ⟨n, rfl⟩ := Int.le.dest h
  clear h
  induction n with
  | zero => simp
  | succ n ih =>
      have hsucc := leapYearsBefore_succ (year + n)
      have hstep : leapYearsBefore (year + n) ≤ leapYearsBefore (year + n + 1) := by
        rw [hsucc]
        split_ifs <;> omega
      push_cast
      rw [← add_assoc]
      exact ih.trans hstep

/-- **The day after the last of a month** is the first of the next one. -/
theorem epochDay_next_month (year : Int) {month : Nat} (hmonth : 1 ≤ month) (hlast : month < 12) :
    epochDay year (month + 1) 1 = epochDay year month (lengthOfMonth year month) + 1 := by
  unfold epochDay februaryGap lengthOfMonth daysBeforeMonth
  interval_cases month <;> cases isLeapYear year <;> simp <;> omega

/-- **The day after the last of a year** is the first of the next one. -/
theorem epochDay_next_year (year : Int) : epochDay (year + 1) 1 1 = epochDay year 12 31 + 1 := by
  have hsucc := leapYearsBefore_succ year
  unfold epochDay februaryGap daysBeforeMonth
  rw [hsucc]
  cases isLeapYear year <;> simp <;> omega

/-- The days of a year lie between its first and its last. -/
theorem epochDay_in_year (year : Int) {month day : Nat} (hmonth : 1 ≤ month ∧ month ≤ 12)
    (hday : 1 ≤ day ∧ day ≤ lengthOfMonth year month) :
    epochDay year 1 1 ≤ epochDay year month day ∧ epochDay year month day ≤ epochDay year 12 31 := by
  obtain ⟨hone, htwelve⟩ := hmonth
  unfold lengthOfMonth at hday
  unfold epochDay februaryGap daysBeforeMonth
  interval_cases month <;> cases hleap : isLeapYear year <;> simp [hleap] at hday ⊢ <;> omega

/-- **A day of an earlier year is earlier.** -/
theorem epochDay_lt_of_year_lt {year later : Int} (h : year < later) {month day month' day' : Nat}
    (hmonth : 1 ≤ month ∧ month ≤ 12) (hday : 1 ≤ day ∧ day ≤ lengthOfMonth year month)
    (hmonth' : 1 ≤ month' ∧ month' ≤ 12) (hday' : 1 ≤ day' ∧ day' ≤ lengthOfMonth later month') :
    epochDay year month day < epochDay later month' day' := by
  have hlast := (epochDay_in_year year hmonth hday).2
  have hnext := epochDay_next_year year
  have hfirst := (epochDay_in_year later hmonth' hday').1
  have hmono : epochDay (year + 1) 1 1 ≤ epochDay later 1 1 := by
    have hleap := leapYearsBefore_mono (show year + 1 ≤ later by omega)
    unfold epochDay
    simp only [februaryGap]
    omega
  omega

/-- The last day of a year is not before any day of it, or of an earlier year. -/
theorem epochDay_le_last {year later : Int} (h : year ≤ later) {month day : Nat}
    (hmonth : 1 ≤ month ∧ month ≤ 12) (hday : 1 ≤ day ∧ day ≤ lengthOfMonth year month) :
    epochDay year month day ≤ epochDay later 12 31 := by
  rcases h.eq_or_lt with rfl | hlt
  · exact (epochDay_in_year year hmonth hday).2
  · have hlast : lengthOfMonth later 12 = 31 := rfl
    exact (epochDay_lt_of_year_lt hlt hmonth hday (by omega) (by omega)).le

/-! ## §3. Dates with a time. -/

/-- A date and a time of day. -/
structure DateTime where
  year : Int
  month : Nat
  day : Nat
  hour : Nat
  minute : Nat
  second : Nat
  month_range : 1 ≤ month ∧ month ≤ 12
  day_range : 1 ≤ day ∧ day ≤ lengthOfMonth year month
  hour_lt : hour < 24
  minute_lt : minute < 60
  second_lt : second < 60

namespace DateTime

def epochDay (d : DateTime) : Int := Time.epochDay d.year d.month d.day

def dayOfWeek (d : DateTime) : Nat := Time.dayOfWeek d.epochDay

/-- The seconds of a time of day. -/
def secondOfDay (hour minute second : Nat) : Nat := hour * 3600 + minute * 60 + second

/-- The seconds since the epoch, in UTC. -/
def epochSecond (d : DateTime) : Int := d.epochDay * 86400 + secondOfDay d.hour d.minute d.second

theorem day_le (d : DateTime) : d.day ≤ 31 := d.day_range.2.trans (lengthOfMonth_bounds d.year d.month).2

/-- The time of day is not a day. -/
theorem secondOfDay_lt (d : DateTime) : secondOfDay d.hour d.minute d.second < 86400 := by
  have hhour := d.hour_lt
  have hminute := d.minute_lt
  have hsecond := d.second_lt
  unfold secondOfDay
  omega

/-- **Dates of an earlier year are earlier.** -/
theorem epochSecond_lt {d later : DateTime} (h : d.year < later.year) : d.epochSecond < later.epochSecond := by
  have hday : d.epochDay < later.epochDay :=
    epochDay_lt_of_year_lt h d.month_range d.day_range later.month_range later.day_range
  have htime := d.secondOfDay_lt
  unfold epochSecond
  omega

end DateTime

example : epochDay 1970 1 1 = 0 := rfl

example : dayOfWeek (epochDay 1994 11 6) = 6 := rfl

end CekatEvents.Time
