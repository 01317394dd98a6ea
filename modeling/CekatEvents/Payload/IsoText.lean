/-
  CekatEvents.Payload.IsoText — reading the time of a body back.

  `Timestamp.ofMillis` is the time so many milliseconds after the epoch; `readIso` is the reader, which
  takes the 24 characters `yyyy-MM-ddTHH:mm:ss.fffZ` of a date that there is, and nothing else.

  Main result: `readIso_ofMillis` — what is written for a time of a year of four digits is read as it.
-/
import CekatEvents.Http.DateText
import CekatEvents.Payload.Timestamp
import CekatEvents.Time.Instant

namespace CekatEvents.Payload

open CekatEvents.Time

/-! ## §1. Times. -/

/-- A date, and so many milliseconds of its last second. -/
def Timestamp.ofDateTime (d : DateTime) (millisecond : Fin 1000) : Timestamp where
  year := d.year
  month := d.month
  day := d.day
  hour := d.hour
  minute := d.minute
  second := d.second
  millisecond := millisecond
  month_range := d.month_range
  day_range := ⟨d.day_range.1, d.day_le⟩
  hour_lt := d.hour_lt
  minute_lt := d.minute_lt
  second_lt := d.second_lt
  millisecond_lt := millisecond.isLt

/-- The time so many milliseconds after the epoch. -/
def Timestamp.ofMillis (millis : Int) : Timestamp :=
  .ofDateTime (.ofEpochSecond (millis / 1000)) ⟨(millis % 1000).toNat, by omega⟩

/-! ## §2. The reader. -/

/-- The number that characters spell, when they are digits. -/
def readDigits (cs : List Char) : Option Nat := (cs.mapM Http.digitOf).map Http.number

/-- The milliseconds since the epoch of a time in UTC, when there is such a time. -/
def millisOf (year : Int) (month day hour minute second millisecond : Nat) : Option Int :=
  if h : (1 ≤ month ∧ month ≤ 12) ∧ (1 ≤ day ∧ day ≤ lengthOfMonth year month) ∧
      hour < 24 ∧ minute < 60 ∧ second < 60 then
    some (DateTime.epochSecond ⟨year, month, day, hour, minute, second, h.1, h.2.1, h.2.2.1, h.2.2.2.1,
      h.2.2.2.2⟩ * 1000 + millisecond)
  else none

/-- The milliseconds since the epoch that a text stands for. -/
def readIso : List Char → Option Int
  | [y₃, y₂, y₁, y₀, '-', m₁, m₀, '-', d₁, d₀, 'T', h₁, h₀, ':', n₁, n₀, ':', s₁, s₀, '.', f₂, f₁, f₀, 'Z'] => do
      let year ← readDigits [y₃, y₂, y₁, y₀]
      let month ← readDigits [m₁, m₀]
      let day ← readDigits [d₁, d₀]
      let hour ← readDigits [h₁, h₀]
      let minute ← readDigits [n₁, n₀]
      let second ← readDigits [s₁, s₀]
      let millisecond ← readDigits [f₂, f₁, f₀]
      millisOf year month day hour minute second millisecond
  | _ => none

/-! ## §3. The round trip. -/

theorem digitOf_digit (n : Nat) : Http.digitOf (digit n) = some ⟨n % 10, by omega⟩ :=
  Http.digitOf_digit ⟨n % 10, by omega⟩

theorem readDigits_two {n : Nat} (h : n < 100) : readDigits (twoDigits n) = some n := by
  unfold readDigits twoDigits
  simp only [List.mapM_cons, List.mapM_nil, digitOf_digit, Option.pure_def, Option.bind_eq_bind,
    Option.bind_some, Option.map_some, Option.some.injEq]
  show 10 * (10 * 0 + n / 10 % 10) + n % 10 = n
  omega

theorem readDigits_three {n : Nat} (h : n < 1000) : readDigits (threeDigits n) = some n := by
  unfold readDigits threeDigits
  simp only [List.mapM_cons, List.mapM_nil, digitOf_digit, Option.pure_def, Option.bind_eq_bind,
    Option.bind_some, Option.map_some, Option.some.injEq]
  show 10 * (10 * (10 * 0 + n / 100 % 10) + n / 10 % 10) + n % 10 = n
  omega

theorem readDigits_four {n : Nat} (h : n < 10000) : readDigits (fourDigits n) = some n := by
  unfold readDigits fourDigits
  simp only [List.mapM_cons, List.mapM_nil, digitOf_digit, Option.pure_def, Option.bind_eq_bind,
    Option.bind_some, Option.map_some, Option.some.injEq]
  show 10 * (10 * (10 * (10 * 0 + n / 1000 % 10) + n / 100 % 10) + n / 10 % 10) + n % 10 = n
  omega

/-- The characters of a time, one by one. -/
theorem length_iso (t : Timestamp) : t.iso.length = 24 := rfl

/-- A date is the one that its numbers stand for. -/
theorem millisOf_dateTime (d : DateTime) (millisecond : Nat) :
    millisOf d.year d.month d.day d.hour d.minute d.second millisecond
      = some (d.epochSecond * 1000 + millisecond) :=
  dif_pos ⟨d.month_range, d.day_range, d.hour_lt, d.minute_lt, d.second_lt⟩

/-- **A date of a year of four digits is read as it was written.** -/
theorem readIso_ofDateTime {d : DateTime} (h : 0 ≤ d.year ∧ d.year ≤ 9999) (millisecond : Fin 1000) :
    readIso (Timestamp.ofDateTime d millisecond).iso = some (d.epochSecond * 1000 + millisecond.val) := by
  have hmonth := d.month_range
  have hday := d.day_le
  have hhour := d.hour_lt
  have hminute := d.minute_lt
  have hsecond := d.second_lt
  have hyear : ((d.year.toNat : Nat) : Int) = d.year := Int.toNat_of_nonneg h.1
  show (do
    let year ← readDigits (fourDigits d.year.toNat)
    let month ← readDigits (twoDigits d.month)
    let day ← readDigits (twoDigits d.day)
    let hour ← readDigits (twoDigits d.hour)
    let minute ← readDigits (twoDigits d.minute)
    let second ← readDigits (twoDigits d.second)
    let millisecond ← readDigits (threeDigits millisecond)
    millisOf year month day hour minute second millisecond) = _
  rw [readDigits_four (by omega), readDigits_two (by omega), readDigits_two (by omega),
    readDigits_two (by omega), readDigits_two (by omega), readDigits_two (by omega),
    readDigits_three millisecond.isLt]
  show millisOf (d.year.toNat : Nat) _ _ _ _ _ _ = _
  rw [hyear]
  exact millisOf_dateTime d millisecond

/-- **What is written for a time is read as it.** -/
theorem readIso_ofMillis {millis : Int} (h : 0 ≤ (Timestamp.ofMillis millis).year ∧
    (Timestamp.ofMillis millis).year ≤ 9999) : readIso (Timestamp.ofMillis millis).iso = some millis := by
  unfold Timestamp.ofMillis
  rw [readIso_ofDateTime h, DateTime.epochSecond_ofEpochSecond, Option.some.injEq]
  dsimp only
  omega

example : readIso "2026-09-13T01:15:30.250Z".toList = some 1789262130250 := by decide

end CekatEvents.Payload
