/-
  CekatEvents.Payload.Timestamp — the time of an event, as every builder writes it.

  A time is given by its fields in UTC, to the millisecond; what else a language's time type holds is
  cut off before.  `Timestamp.iso` is the form `yyyy-MM-ddTHH:mm:ss.fffZ`, for years of four digits.
-/
import Mathlib.Data.Nat.Notation
import Mathlib.Data.Int.Notation

namespace CekatEvents.Payload

/-- A time in UTC. -/
structure Timestamp where
  year : Int
  month : Nat
  day : Nat
  hour : Nat
  minute : Nat
  second : Nat
  millisecond : Nat
  month_range : 1 ≤ month ∧ month ≤ 12
  day_range : 1 ≤ day ∧ day ≤ 31
  hour_lt : hour < 24
  minute_lt : minute < 60
  second_lt : second < 60
  millisecond_lt : millisecond < 1000

/-- A decimal digit. -/
def digit (n : Nat) : Char := Char.ofNat (0x30 + n % 10)

def twoDigits (n : Nat) : List Char := [digit (n / 10), digit n]

def threeDigits (n : Nat) : List Char := [digit (n / 100), digit (n / 10), digit n]

def fourDigits (n : Nat) : List Char := [digit (n / 1000), digit (n / 100), digit (n / 10), digit n]

/-- `yyyy-MM-ddTHH:mm:ss.fffZ`. -/
def Timestamp.iso (t : Timestamp) : List Char :=
  fourDigits t.year.toNat ++ '-' :: (twoDigits t.month ++ '-' :: (twoDigits t.day ++ 'T' ::
    (twoDigits t.hour ++ ':' :: (twoDigits t.minute ++ ':' :: (twoDigits t.second ++ '.' ::
      (threeDigits t.millisecond ++ ['Z']))))))

/-- The years the builders let through. -/
def Timestamp.inYears (t : Timestamp) : Bool := decide (1 ≤ t.year ∧ t.year ≤ 9999)

/-- Noon on a day of 2026. -/
def noon : Timestamp :=
  ⟨2026, 9, 13, 12, 0, 0, 0, by decide, by decide, by decide, by decide, by decide, by decide⟩

end CekatEvents.Payload
