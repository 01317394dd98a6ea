/-
  CekatEvents.Time.Instant — the date of a second of the epoch.

  A day is counted in cycles of 400 years, in centuries, in spans of four years and in years; the last of
  each may be a day longer than the others, which `min` gives to it.  The month of a day is the last one
  that begins no later.

  Main results:

    • `epochSecond_ofEpochSecond` — a second is that of its date;
    • `le_year_iff` — a year has begun exactly when its first second has.
-/
import CekatEvents.Time.Calendar
import Mathlib.Data.Nat.Find

namespace CekatEvents.Time

/-! ## §1. The year of a day. -/

/-- The days since the first day of the year 1. -/
def sinceYearOne (day : Int) : Int := day + 719162

/-- The years before a day within its cycle, and the day within its year. -/
def yearInCycle (day : Int) : Int :=
  let century := min (day / 36524) 3
  let inCentury := day - 36524 * century
  let span := inCentury / 1461
  100 * century + 4 * span + min (inCentury % 1461 / 365) 3

/-- The year of a day. -/
def yearOfEpochDay (day : Int) : Int :=
  400 * (sinceYearOne day / 146097) + yearInCycle (sinceYearOne day % 146097) + 1

/-- The first day of the year that comes so many years into a cycle. -/
theorem epochDay_first (cycle century span year : Int) (hcentury : 0 ≤ century ∧ century ≤ 3)
    (hspan : 0 ≤ span ∧ span ≤ 24) (hyear : 0 ≤ year ∧ year ≤ 3) :
    epochDay (400 * cycle + (100 * century + 4 * span + year) + 1) 1 1
      = 146097 * cycle + 36524 * century + 1461 * span + 365 * year - 719162 := by
  unfold epochDay leapYearsBefore daysBeforeMonth februaryGap
  rw [if_pos (by decide)]
  -- within a cycle the years before the last leap year of each span have none to add
  have hquarter : (400 * cycle + (100 * century + 4 * span + year) + 1 + 3) / 4
      = 100 * cycle + 25 * century + span + 1 := by omega
  have hhundred : (400 * cycle + (100 * century + 4 * span + year) + 1 + 99) / 100
      = 4 * cycle + century + 1 := by omega
  have hcycle : (400 * cycle + (100 * century + 4 * span + year) + 1 + 399) / 400 = cycle + 1 := by omega
  rw [hquarter, hhundred, hcycle]
  norm_num
  omega

/-- The days that a day comes after: the centuries, the spans and the years before it.  A year that is
    the last one of its span has a day more, unless the span ends a century other than the last. -/
theorem yearInCycle_spec {day : Int} (h : 0 ≤ day ∧ day < 146097) :
    ∃ century span year, (0 ≤ century ∧ century ≤ 3) ∧ (0 ≤ span ∧ span ≤ 24) ∧ (0 ≤ year ∧ year ≤ 3) ∧
      yearInCycle day = 100 * century + 4 * span + year ∧
      36524 * century + 1461 * span + 365 * year ≤ day ∧
      day ≤ 36524 * century + 1461 * span + 365 * year + 365 ∧
      (day = 36524 * century + 1461 * span + 365 * year + 365 → year = 3 ∧ (span = 24 → century = 3)) := by
  refine ⟨min (day / 36524) 3, (day - 36524 * min (day / 36524) 3) / 1461,
    min ((day - 36524 * min (day / 36524) 3) % 1461 / 365) 3, ?_⟩
  obtain ⟨century, hcentury⟩ : ∃ century, min (day / 36524) 3 = century := ⟨_, rfl⟩
  have hcenturies : 0 ≤ century ∧ century ≤ 3 := by omega
  have hin : 0 ≤ day - 36524 * century ∧ day - 36524 * century ≤ 36524 ∧
      (day - 36524 * century = 36524 → century = 3) := by omega
  have heq : yearInCycle day = 100 * century + 4 * ((day - 36524 * century) / 1461)
      + min ((day - 36524 * century) % 1461 / 365) 3 := by
    rw [← hcentury]
    rfl
  rw [heq, hcentury]
  clear heq hcentury
  omega

/-- The leap years are the last ones of the spans that end no century, and of the last one. -/
theorem isLeapYear_last (cycle : Int) {century span year : Int} (hcentury : 0 ≤ century ∧ century ≤ 3)
    (hspan : 0 ≤ span ∧ span ≤ 24) (hyear : 0 ≤ year ∧ year ≤ 3) :
    isLeapYear (400 * cycle + (100 * century + 4 * span + year) + 1) = true ↔
      year = 3 ∧ (span = 24 → century = 3) := by
  have hfour : (400 * cycle + (100 * century + 4 * span + year) + 1) % 4 = (year + 1) % 4 := by omega
  have hhundred : (400 * cycle + (100 * century + 4 * span + year) + 1) % 100 = (4 * span + year + 1) % 100 := by
    omega
  have hcycle : (400 * cycle + (100 * century + 4 * span + year) + 1) % 400
      = (100 * century + 4 * span + year + 1) % 400 := by omega
  rw [isLeapYear_iff, hfour, hhundred, hcycle]
  clear hfour hhundred hcycle
  constructor
  · intro h
    omega
  · intro h
    omega

/-- **A day lies in its year.** -/
theorem yearOfEpochDay_bounds (day : Int) :
    epochDay (yearOfEpochDay day) 1 1 ≤ day ∧ day < epochDay (yearOfEpochDay day + 1) 1 1 := by
  obtain ⟨century, span, year, hcentury, hspan, hyear, hin, hfrom, hto, hlong⟩ :=
    yearInCycle_spec (show 0 ≤ sinceYearOne day % 146097 ∧ sinceYearOne day % 146097 < 146097 by omega)
  have hday : day = 146097 * (sinceYearOne day / 146097) + sinceYearOne day % 146097 - 719162 := by
    unfold sinceYearOne
    omega
  have hfirst := epochDay_first (sinceYearOne day / 146097) century span year hcentury hspan hyear
  have hof : yearOfEpochDay day
      = 400 * (sinceYearOne day / 146097) + (100 * century + 4 * span + year) + 1 := by
    unfold yearOfEpochDay
    rw [hin]
  have hleap : isLeapYear (yearOfEpochDay day) = true ↔ year = 3 ∧ (span = 24 → century = 3) := by
    rw [hof]
    exact isLeapYear_last _ hcentury hspan hyear
  have hlength : epochDay (yearOfEpochDay day + 1) 1 1
      = epochDay (yearOfEpochDay day) 1 1 + if isLeapYear (yearOfEpochDay day) then 366 else 365 := by
    have hsucc := leapYearsBefore_succ (yearOfEpochDay day)
    unfold epochDay februaryGap
    rw [if_pos (by decide), if_pos (by decide), hsucc]
    split_ifs <;> omega
  rw [hlength, hof, hfirst, ← hof]
  generalize sinceYearOne day / 146097 = cycle at *
  generalize sinceYearOne day % 146097 = rest at *
  clear hof
  split_ifs with hyes
  · omega
  · have hshort : rest ≠ 36524 * century + 1461 * span + 365 * year + 365 := fun h => hyes (hleap.mpr (hlong h))
    omega

/-! ## §2. The month and the day. -/

/-- The month of a day of a year. -/
def monthOf (year day : Int) : Nat := Nat.findGreatest (fun month => epochDay year month 1 ≤ day) 12

/-- The day of the month, from one. -/
def dayOfMonth (year : Int) (month : Nat) (day : Int) : Nat := (day - epochDay year month 1 + 1).toNat

theorem monthOf_spec {year day : Int} (h : epochDay year 1 1 ≤ day) :
    1 ≤ monthOf year day ∧ monthOf year day ≤ 12 ∧ epochDay year (monthOf year day) 1 ≤ day :=
  ⟨Nat.le_findGreatest (by decide) h, Nat.findGreatest_le 12,
    Nat.findGreatest_spec (P := fun month => epochDay year month 1 ≤ day) (by decide : 1 ≤ 12) h⟩

/-- The days of a month follow each other. -/
theorem epochDay_day (year : Int) (month day : Nat) :
    epochDay year month day = epochDay year month 1 + (day - 1) := by
  unfold epochDay
  omega

/-- **A day lies in its month.** -/
theorem dayOfMonth_spec {year day : Int} (hfirst : epochDay year 1 1 ≤ day)
    (hlast : day < epochDay (year + 1) 1 1) :
    1 ≤ dayOfMonth year (monthOf year day) day ∧
      dayOfMonth year (monthOf year day) day ≤ lengthOfMonth year (monthOf year day) ∧
      epochDay year (monthOf year day) (dayOfMonth year (monthOf year day) day) = day := by
  obtain ⟨hone, htwelve, hbegun⟩ := monthOf_spec hfirst
  -- the day is before the next month, or before the next year
  have hnext : day ≤ epochDay year (monthOf year day) (lengthOfMonth year (monthOf year day)) := by
    rcases htwelve.eq_or_lt with heq | hlt
    · rw [heq]
      have hyear := epochDay_next_year year
      have hlength : lengthOfMonth year 12 = 31 := rfl
      rw [hlength]
      omega
    · have hlater : ¬ epochDay year (monthOf year day + 1) 1 ≤ day :=
        Nat.findGreatest_is_greatest (Nat.lt_succ_self _) hlt
      rw [epochDay_next_month year hone hlt] at hlater
      omega
  rw [epochDay_day] at hnext
  have hsame := epochDay_day year (monthOf year day) (dayOfMonth year (monthOf year day) day)
  have hlength := (lengthOfMonth_bounds year (monthOf year day)).1
  rw [hsame]
  unfold dayOfMonth
  omega

/-! ## §3. Dates and seconds. -/

namespace DateTime

/-- The date of a second of the epoch. -/
def ofEpochSecond (second : Int) : DateTime where
  year := yearOfEpochDay (second / 86400)
  month := monthOf (yearOfEpochDay (second / 86400)) (second / 86400)
  day := dayOfMonth (yearOfEpochDay (second / 86400))
    (monthOf (yearOfEpochDay (second / 86400)) (second / 86400)) (second / 86400)
  hour := (second % 86400 / 3600).toNat
  minute := (second % 86400 % 3600 / 60).toNat
  second := (second % 60).toNat
  month_range :=
    have h := monthOf_spec (yearOfEpochDay_bounds (second / 86400)).1
    ⟨h.1, h.2.1⟩
  day_range :=
    have hbounds := yearOfEpochDay_bounds (second / 86400)
    have h := dayOfMonth_spec hbounds.1 hbounds.2
    ⟨h.1, h.2.1⟩
  hour_lt := by omega
  minute_lt := by omega
  second_lt := by omega

/-- **A second is that of its date.** -/
@[simp] theorem epochSecond_ofEpochSecond (second : Int) : (ofEpochSecond second).epochSecond = second := by
  have hbounds := yearOfEpochDay_bounds (second / 86400)
  have hday : (ofEpochSecond second).epochDay = second / 86400 := (dayOfMonth_spec hbounds.1 hbounds.2).2.2
  unfold epochSecond
  rw [hday]
  unfold secondOfDay ofEpochSecond
  dsimp only
  omega

/-- Years begin in their order. -/
theorem epochDay_first_mono {year later : Int} (h : year ≤ later) : Time.epochDay year 1 1 ≤ Time.epochDay later 1 1 := by
  have hleap := leapYearsBefore_mono h
  unfold Time.epochDay
  simp only [februaryGap]
  omega

/-- **A year has begun exactly when its first second has.** -/
theorem le_year_iff {year second : Int} :
    year ≤ (ofEpochSecond second).year ↔ Time.epochDay year 1 1 * 86400 ≤ second := by
  obtain ⟨hfirst, hlast⟩ := yearOfEpochDay_bounds (second / 86400)
  show year ≤ yearOfEpochDay (second / 86400) ↔ _
  constructor
  · intro h
    have hbegun := epochDay_first_mono h
    omega
  · intro h
    by_contra hnot
    have hnext := epochDay_first_mono (show yearOfEpochDay (second / 86400) + 1 ≤ year by omega)
    omega

end DateTime

example : (DateTime.ofEpochSecond 784111777).month = 11 := by decide

end CekatEvents.Time
