/-
  CekatEvents.Java.OccurredAt — the time of an event in the Java client (`internal/PayloadEncoder.java`).

  An `Instant` has nanoseconds.  The two instants that bound the times of events have milliseconds, and so
  has the text: the comparison with them is finer than what is written.

  Main results:

    • `occurredAt_canonical_iff` — which instants are treated as their year asks for;
    • `last_nanosecond_refused`  — the last one of the year 9999 is not.
-/
import CekatEvents.Payload.IsoText

namespace CekatEvents.Java

open CekatEvents.Payload CekatEvents.Time

/-! ## §1. Instants. -/

/-- `java.time.Instant`. -/
structure Instant where
  seconds : Int
  nanos : Nat
  nanos_lt : nanos < 1000000000
  seconds_range : -31557014167219200 ≤ seconds ∧ seconds ≤ 31556889864403199

namespace Instant

def isBefore (i other : Instant) : Bool :=
  decide (i.seconds < other.seconds ∨ (i.seconds = other.seconds ∧ i.nanos < other.nanos))

def isAfter (i other : Instant) : Bool :=
  decide (other.seconds < i.seconds ∨ (i.seconds = other.seconds ∧ other.nanos < i.nanos))

/-- The date in UTC. -/
def dateTime (i : Instant) : DateTime := .ofEpochSecond i.seconds

/-- The year in UTC. -/
def year (i : Instant) : Int := i.dateTime.year

/-- The nanoseconds since the epoch. -/
def epochNano (i : Instant) : Int := i.seconds * 1000000000 + i.nanos

/-- The instant in whole milliseconds, those that have begun. -/
def epochMilli (i : Instant) : Int := i.epochNano / 1000000

theorem epochMilli_eq (i : Instant) : i.epochMilli = i.seconds * 1000 + (i.nanos / 1000000 : Nat) := by
  unfold epochMilli epochNano
  omega

end Instant

/-! ## §2. `occurredAt`. -/

structure ValidationException where
  message : List Char

/-- `uuuu`: four digits at least, and a sign before a year that has more or is negative
    (`SignStyle.EXCEEDS_PAD`). -/
def uuuu (year : Int) : List Char :=
  let digits := if year.natAbs < 10000 then fourDigits year.natAbs else (Nat.repr year.natAbs).toList
  if 10000 ≤ year then '+' :: digits else if year < 0 then '-' :: digits else digits

/-- `OCCURRED_AT.format`, with the pattern `uuuu-MM-dd'T'HH:mm:ss.SSS'Z'`. -/
def OCCURRED_AT (i : Instant) : List Char :=
  let d := i.dateTime
  uuuu d.year ++ '-' :: (Payload.twoDigits d.month ++ '-' :: (Payload.twoDigits d.day ++ 'T' ::
    (Payload.twoDigits d.hour ++ ':' :: (Payload.twoDigits d.minute ++ ':' :: (Payload.twoDigits d.second ++ '.' ::
      (threeDigits (i.nanos / 1000000) ++ ['Z']))))))

/-- `0001-01-01T00:00:00Z`. -/
def MIN_OCCURRED_AT : Instant := ⟨-62135596800, 0, by decide, by decide⟩

/-- `9999-12-31T23:59:59.999Z`. -/
def MAX_OCCURRED_AT : Instant := ⟨253402300799, 999000000, by decide, by decide⟩

/-- `occurredAt`, with what the clock gives. -/
def occurredAt (clock : Instant) (value : Option Instant) : Except ValidationException (List Char) :=
  let time := value.getD clock
  if time.isBefore MIN_OCCURRED_AT || time.isAfter MAX_OCCURRED_AT then
    .error ⟨"occurredAt must be between years 0001 and 9999".toList⟩
  else .ok (OCCURRED_AT time)

/-! ## §3. What is accepted, and what is written. -/

theorem isBefore_min_iff {i : Instant} : i.isBefore MIN_OCCURRED_AT = true ↔ i.year < 1 := by
  have hyear : (1 : Int) ≤ i.year ↔ -62135596800 ≤ i.seconds := DateTime.le_year_iff
  unfold Instant.isBefore MIN_OCCURRED_AT
  rw [decide_eq_true_eq]
  dsimp only
  omega

/-- The instants of the last second of the year 9999 that are written like the last millisecond of it, and
    come later. -/
def Instant.PastLastMilli (i : Instant) : Prop := i.seconds = 253402300799 ∧ 999000000 < i.nanos

theorem isAfter_max_iff {i : Instant} :
    i.isAfter MAX_OCCURRED_AT = true ↔ 9999 < i.year ∨ i.PastLastMilli := by
  have hyear : (10000 : Int) ≤ i.year ↔ 253402300800 ≤ i.seconds := DateTime.le_year_iff
  unfold Instant.isAfter Instant.PastLastMilli MAX_OCCURRED_AT
  rw [decide_eq_true_eq]
  dsimp only
  omega

theorem occurredAt_ok_iff {clock i : Instant} {text : List Char} :
    occurredAt clock (some i) = .ok text ↔
      (1 ≤ i.year ∧ i.year ≤ 9999 ∧ ¬ i.PastLastMilli) ∧ OCCURRED_AT i = text := by
  have hmin : i.isBefore MIN_OCCURRED_AT = true ↔ _ := isBefore_min_iff
  have hmax : i.isAfter MAX_OCCURRED_AT = true ↔ _ := isAfter_max_iff
  unfold occurredAt
  rw [Option.getD_some]
  dsimp only
  split_ifs with hout
  · rw [Bool.or_eq_true, hmin, hmax] at hout
    refine iff_of_false (by simp) ?_
    rintro ⟨⟨hone, hlast, hmilli⟩, -⟩
    rcases hout with hout | hout | hout
    · omega
    · omega
    · exact hmilli hout
  · rw [Bool.or_eq_true, hmin, hmax, not_or, not_or] at hout
    rw [Except.ok.injEq]
    refine (and_iff_right ?_).symm
    exact ⟨by omega, by omega, hout.2.2⟩

/-- In the years of four digits the text is that of the whole milliseconds. -/
theorem OCCURRED_AT_eq {i : Instant} (h : 0 ≤ i.year ∧ i.year ≤ 9999) :
    OCCURRED_AT i = (Timestamp.ofDateTime i.dateTime ⟨i.nanos / 1000000, by have hlt := i.nanos_lt; omega⟩).iso := by
  have hyear : uuuu i.year = fourDigits i.year.toNat := by
    unfold uuuu
    rw [if_neg (by omega), if_neg (by omega), if_pos (by omega), show i.year.natAbs = i.year.toNat by omega]
  show uuuu i.year ++ _ = _
  rw [hyear]
  rfl

/-- The text is that of the whole milliseconds. -/
def CanonicalText (i : Instant) (text : List Char) : Prop := text.length = 24 ∧ readIso text = some i.epochMilli

theorem OCCURRED_AT_canonical {i : Instant} (h : 0 ≤ i.year ∧ i.year ≤ 9999) :
    CanonicalText i (OCCURRED_AT i) := by
  rw [OCCURRED_AT_eq h]
  refine ⟨length_iso _, ?_⟩
  rw [readIso_ofDateTime h, i.epochMilli_eq]
  unfold Instant.dateTime
  rw [DateTime.epochSecond_ofEpochSecond]

/-- An instant is accepted exactly in the years from 1 to 9999, and written as its whole milliseconds. -/
def Conforms (clock i : Instant) : Prop :=
  ((∃ text, occurredAt clock (some i) = .ok text) ↔ 1 ≤ i.year ∧ i.year ≤ 9999) ∧
    ∀ text, occurredAt clock (some i) = .ok text → CanonicalText i text

/-- **Every instant is treated as its year asks for, but those behind the last millisecond.** -/
theorem occurredAt_canonical_iff (clock i : Instant) : Conforms clock i ↔ ¬ i.PastLastMilli := by
  have hlast : i.PastLastMilli → 1 ≤ i.year ∧ i.year ≤ 9999 := by
    rintro ⟨hseconds, -⟩
    have hone : (1 : Int) ≤ i.year ↔ -62135596800 ≤ i.seconds := DateTime.le_year_iff
    have hnext : (10000 : Int) ≤ i.year ↔ 253402300800 ≤ i.seconds := DateTime.le_year_iff
    omega
  unfold Conforms
  simp only [occurredAt_ok_iff]
  constructor
  · rintro ⟨haccepts, -⟩ hmilli
    obtain ⟨text, ⟨-, -, hnot⟩, -⟩ := haccepts.mpr (hlast hmilli)
    exact hnot hmilli
  · intro hnot
    refine ⟨⟨?_, ?_⟩, ?_⟩
    · rintro ⟨text, ⟨hone, hend, -⟩, -⟩
      exact ⟨hone, hend⟩
    · rintro ⟨hone, hend⟩
      exact ⟨_, ⟨hone, hend, hnot⟩, rfl⟩
    · rintro text ⟨⟨hone, hend, -⟩, rfl⟩
      exact OCCURRED_AT_canonical ⟨by omega, hend⟩

/-- The last nanosecond of the year 9999. -/
def lastNanosecond : Instant := ⟨253402300799, 999999999, by decide, by decide⟩

/-- **The last nanosecond of the year 9999 is refused**, although its text could be written. -/
theorem last_nanosecond_refused :
    lastNanosecond.year = 9999 ∧ CanonicalText lastNanosecond (OCCURRED_AT lastNanosecond) ∧
      (∃ e, occurredAt MIN_OCCURRED_AT (some lastNanosecond) = .error e) ∧
      ¬ ∀ clock i, Conforms clock i := by
  have hyear : lastNanosecond.year = 9999 := by decide
  refine ⟨hyear, OCCURRED_AT_canonical (by rw [hyear]; decide), ⟨_, rfl⟩, ?_⟩
  intro h
  obtain ⟨text, htext⟩ := (h MIN_OCCURRED_AT lastNanosecond).1.mpr (by rw [hyear]; decide)
  have herror : occurredAt MIN_OCCURRED_AT (some lastNanosecond)
      = .error ⟨"occurredAt must be between years 0001 and 9999".toList⟩ := rfl
  rw [herror] at htext
  cases htext

end CekatEvents.Java
