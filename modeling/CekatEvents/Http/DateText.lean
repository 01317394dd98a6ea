/-
  CekatEvents.Http.DateText — the three forms of an HTTP date as texts.

  A form writes the numbers of a date without asking whether there is such a date.  The year is a text of
  its own, so that a form can be written with any year; an HTTP date has four digits, or two in RFC 850.
-/
import CekatEvents.Time.Calendar

namespace CekatEvents.Http

open CekatEvents.Time

/-! ## §1. Numbers and names. -/

def digit (d : Fin 10) : Char := Char.ofNat (48 + d)

/-- The number of a digit; nothing for another character. -/
def digitOf (c : Char) : Option (Fin 10) :=
  if h : 48 ≤ c.toNat ∧ c.toNat < 58 then some ⟨c.toNat - 48, by omega⟩ else none

def two (n : Fin 100) : List Char := [digit ⟨n / 10, by omega⟩, digit ⟨n % 10, by omega⟩]

def four (n : Fin 10000) : List (Fin 10) :=
  [⟨n / 1000, by omega⟩, ⟨n / 100 % 10, by omega⟩, ⟨n / 10 % 10, by omega⟩, ⟨n % 10, by omega⟩]

/-- The number that digits spell. -/
def number (digits : List (Fin 10)) : Nat := digits.foldl (fun (n : Nat) (d : Fin 10) => 10 * n + d.val) 0

def shortDays : List (List Char) := ["Mon", "Tue", "Wed", "Thu", "Fri", "Sat", "Sun"].map String.toList

def fullDays : List (List Char) :=
  ["Monday", "Tuesday", "Wednesday", "Thursday", "Friday", "Saturday", "Sunday"].map String.toList

def shortMonths : List (List Char) :=
  ["Jan", "Feb", "Mar", "Apr", "May", "Jun", "Jul", "Aug", "Sep", "Oct", "Nov", "Dec"].map String.toList

def shortDay (i : Fin 7) : List Char := shortDays.get (i.cast rfl)

def fullDay (i : Fin 7) : List Char := fullDays.get (i.cast rfl)

def shortMonth (i : Fin 12) : List Char := shortMonths.get (i.cast rfl)

/-! ## §2. The forms. -/

/-- The numbers of a date text; days of the week and months are counted from zero. -/
structure DateFields where
  dayOfWeek : Fin 7
  day : Fin 100
  month : Fin 12
  hour : Fin 100
  minute : Fin 100
  second : Fin 100

namespace DateFields

/-- The time of day, and what follows it. -/
def time (f : DateFields) (rest : List Char) : List Char :=
  two f.hour ++ ':' :: (two f.minute ++ ':' :: (two f.second ++ rest))

/-- `Sun, 06 Nov 1994 08:49:37 GMT`. -/
def imfFixdate (f : DateFields) (year : List Char) : List Char :=
  shortDay f.dayOfWeek ++ ',' :: ' ' :: (two f.day ++ ' ' :: (shortMonth f.month ++
    ' ' :: (year ++ ' ' :: f.time " GMT".toList)))

/-- `Sunday, 06-Nov-94 08:49:37 GMT`. -/
def rfc850 (f : DateFields) (year : List Char) : List Char :=
  fullDay f.dayOfWeek ++ ',' :: ' ' :: (two f.day ++ '-' :: (shortMonth f.month ++
    '-' :: (year ++ ' ' :: f.time " GMT".toList)))

/-- A day of two characters, the first one of which may be a blank. -/
def paddedDay (f : DateFields) (blank : Bool) : List Char :=
  if blank && decide (f.day.val < 10) then [' ', digit ⟨f.day % 10, by omega⟩] else two f.day

/-- `Sun Nov  6 08:49:37 1994`. -/
def asctime (f : DateFields) (blank : Bool) (year : List Char) : List Char :=
  shortDay f.dayOfWeek ++ ' ' :: (shortMonth f.month ++ ' ' :: (f.paddedDay blank ++
    ' ' :: f.time (' ' :: year)))

/-- The numbers of a date, without its year. -/
def ofDate (d : DateTime) : DateFields where
  dayOfWeek := ⟨d.dayOfWeek, dayOfWeek_lt _⟩
  day := ⟨d.day, by have h := d.day_le; omega⟩
  month := ⟨d.month - 1, by have h := d.month_range; omega⟩
  hour := ⟨d.hour, by have h := d.hour_lt; omega⟩
  minute := ⟨d.minute, by have h := d.minute_lt; omega⟩
  second := ⟨d.second, by have h := d.second_lt; omega⟩

end DateFields

/-! ## §3. Digits and names are told apart. -/

@[simp] theorem digitOf_digit (d : Fin 10) : digitOf (digit d) = some d := by
  revert d
  decide

theorem number_four (n : Fin 10000) : number (four n) = n := by
  show 10 * (10 * (10 * (10 * 0 + n.val / 1000) + n.val / 100 % 10) + n.val / 10 % 10) + n.val % 10 = n
  omega

example : (DateFields.mk 6 6 10 8 49 37).asctime true "1994".toList = "Sun Nov  6 08:49:37 1994".toList := by
  decide

end CekatEvents.Http
