/-
  CekatEvents.Java.HttpDates — the three date formatters of the Java client (`internal/RetryPolicy.java`).

  A `DateTimeFormatter` reads a text piece by piece, each piece handing on what it leaves, and resolves the
  numbers when nothing is left.  Every exception of a formatter is a `DateTimeParseException`, for which
  nothing is returned.  A year `uuuu` has four digits, or more behind a sign (`SignStyle.EXCEEDS_PAD`).

  Main results:

    • `imfFixdate_format`, `rfc850_format`, `asctime_format` — each formatter reads the texts of its form;
    • `httpDates_imfFixdate`, `httpDates_rfc850`, `httpDates_asctime` — and no other formatter does.
-/
import CekatEvents.Http.DateText
import CekatEvents.Java.RetryPolicy

namespace CekatEvents.Java

open CekatEvents.Http CekatEvents.Time

/-! ## §1. Pieces. -/

/-- A literal of a pattern. -/
def literal (expected text : List Char) : Option (List Char) :=
  if expected.isPrefixOf text then some (text.drop expected.length) else none

/-- The name that a text starts with, by its place; no name starts with another one. -/
def name (names : List (List Char)) (text : List Char) : Option (Nat × List Char) :=
  names.zipIdx.findSome? fun entry => (literal entry.1 text).map fun rest => (entry.2, rest)

/-- `dd`, `HH`, `mm`, `ss`. -/
def twoDigits : List Char → Option (Nat × List Char)
  | a :: b :: rest => do
      let tens ← digitOf a
      let units ← digitOf b
      some (10 * tens + units, rest)
  | _ => none

/-- `ppd`: two characters, blanks before a number that may be negative. -/
def paddedNumber : List Char → Option (Int × List Char)
  | ' ' :: b :: rest => (digitOf b).map fun d => ((d.val : Int), rest)
  | '-' :: b :: rest => (digitOf b).map fun d => (-(d.val : Int), rest)
  | text => (twoDigits text).map fun read => ((read.1 : Int), read.2)

/-- At most so many digits, and what follows them. -/
def digitRun : Nat → List Char → List (Fin 10) × List Char
  | 0, text => ([], text)
  | _ + 1, [] => ([], [])
  | n + 1, c :: rest =>
      match digitOf c with
      | none => ([], c :: rest)
      | some d => (d :: (digitRun n rest).1, (digitRun n rest).2)

/-- A number that does not fit a `long` is read without its last digit. -/
def capped (value : Int) (rest : List Char) : Int × List Char :=
  if -2 ^ 63 ≤ value ∧ value < 2 ^ 63 then (value, rest)
  else (value.tdiv 10, digit ⟨value.natAbs % 10, by omega⟩ :: rest)

/-- A sign, if there is one; true for a plus. -/
def sign : List Char → Option Bool × List Char
  | '+' :: text => (some true, text)
  | '-' :: text => (some false, text)
  | text => (none, text)

/-- No more than four digits without a sign, more than four behind a plus, and no negative zero. -/
def signedYear (sign : Option Bool) (digits : List (Fin 10)) (rest : List Char) : Option (Int × List Char) :=
  match sign with
  | none => if 4 < digits.length then none else some (capped (number digits) rest)
  | some true => if digits.length ≤ 4 then none else some (capped (number digits) rest)
  | some false => if number digits = 0 then none else some (capped (-(number digits : Int)) rest)

/-- `uuuu`. -/
def year (text : List Char) : Option (Int × List Char) :=
  let (sign, text) := sign text
  let (digits, rest) := digitRun 19 text
  if digits.length < 4 then none else signedYear sign digits rest

/-- `uu`. -/
def reducedYear (text : List Char) : Option (Int × List Char) :=
  (twoDigits text).map fun read => (2000 + (read.1 : Int), read.2)

/-! ## §2. Formatters. -/

/-- What a formatter has read; the day of the week and the month are counted from zero. -/
structure Parsed where
  dayOfWeek : Nat
  day : Int
  month : Nat
  year : Int
  hour : Nat
  minute : Nat
  second : Nat

/-- `HH:mm:ss`. -/
def timeOfDay (text : List Char) : Option ((Nat × Nat × Nat) × List Char) := do
  let (hour, text) ← twoDigits text
  let text ← literal [':'] text
  let (minute, text) ← twoDigits text
  let text ← literal [':'] text
  let (second, text) ← twoDigits text
  some ((hour, minute, second), text)

/-- The whole text has been read. -/
def complete (parsed : Parsed) (rest : List Char) : Option Parsed := if rest = [] then some parsed else none

/-- `EEE, dd MMM uuuu HH:mm:ss 'GMT'`. -/
def imfFixdateFormat (text : List Char) : Option Parsed := do
  let (dayOfWeek, text) ← name shortDays text
  let text ← literal [',', ' '] text
  let (day, text) ← twoDigits text
  let text ← literal [' '] text
  let (month, text) ← name shortMonths text
  let text ← literal [' '] text
  let (year, text) ← year text
  let text ← literal [' '] text
  let ((hour, minute, second), text) ← timeOfDay text
  let text ← literal " GMT".toList text
  complete ⟨dayOfWeek, day, month, year, hour, minute, second⟩ text

/-- `EEEE, dd-MMM-uu HH:mm:ss 'GMT'`. -/
def rfc850Format (text : List Char) : Option Parsed := do
  let (dayOfWeek, text) ← name fullDays text
  let text ← literal [',', ' '] text
  let (day, text) ← twoDigits text
  let text ← literal ['-'] text
  let (month, text) ← name shortMonths text
  let text ← literal ['-'] text
  let (year, text) ← reducedYear text
  let text ← literal [' '] text
  let ((hour, minute, second), text) ← timeOfDay text
  let text ← literal " GMT".toList text
  complete ⟨dayOfWeek, day, month, year, hour, minute, second⟩ text

/-- `EEE MMM ppd HH:mm:ss uuuu`. -/
def asctimeFormat (text : List Char) : Option Parsed := do
  let (dayOfWeek, text) ← name shortDays text
  let text ← literal [' '] text
  let (month, text) ← name shortMonths text
  let text ← literal [' '] text
  let (day, text) ← paddedNumber text
  let text ← literal [' '] text
  let ((hour, minute, second), text) ← timeOfDay text
  let text ← literal [' '] text
  let (year, text) ← year text
  complete ⟨dayOfWeek, day, month, year, hour, minute, second⟩ text

/-- `Year.MAX_VALUE`. -/
def maxYear : Int := 999999999

/-- The days that a time of day adds to its date; nothing for a time that there is not.  In the smart style
    24:00:00 is the midnight at the end of the day. -/
def excessDays (hour minute second : Nat) : Option Nat :=
  if hour = 24 ∧ minute = 0 ∧ second = 0 then some 1
  else if hour ≤ 23 ∧ minute ≤ 59 ∧ second ≤ 59 then some 0
  else none

/-- The instant of what was read, in nanoseconds.  In the smart style a day up to the 31st is taken for the
    last day of a shorter month.  The day of the week is that of the date, before the end of its day. -/
def resolve (parsed : Parsed) : Option Int := do
  let month := parsed.month + 1
  let day := min parsed.day.toNat (lengthOfMonth parsed.year month)
  let date := epochDay parsed.year month day
  if parsed.year < -maxYear ∨ maxYear < parsed.year ∨ parsed.day < 1 ∨ 31 < parsed.day then none
  else
    let excess ← excessDays parsed.hour parsed.minute parsed.second
    if parsed.dayOfWeek ≠ dayOfWeek date ∨ epochDay maxYear 12 31 < date + excess then none
    else
      let hour := if excess = 1 then 0 else parsed.hour
      some (((date + excess) * 86400 + DateTime.secondOfDay hour parsed.minute parsed.second) * 1000000000)

/-- `HTTP_DATES`: the instants of the texts that the formatters read. -/
def HTTP_DATES : List (List Char → Option Int) :=
  [imfFixdateFormat, rfc850Format, asctimeFormat].map fun format text => (format text).bind resolve

/-! ## §3. What a piece reads. -/

@[simp] theorem literal_append (expected rest : List Char) : literal expected (expected ++ rest) = some rest := by
  unfold literal
  rw [if_pos (List.isPrefixOf_iff_prefix.mpr (List.prefix_append expected rest)), List.drop_left]

@[simp] theorem literal_cons (c : Char) (rest : List Char) : literal [c] (c :: rest) = some rest :=
  literal_append [c] rest

@[simp] theorem literal_cons_cons (c d : Char) (rest : List Char) :
    literal [c, d] (c :: d :: rest) = some rest :=
  literal_append [c, d] rest

@[simp] theorem literal_self (text : List Char) : literal text text = some [] := by
  have happend := literal_append text []
  rwa [List.append_nil] at happend

theorem literal_eq_none {c d : Char} (h : c ≠ d) (expected rest : List Char) :
    literal (c :: expected) (d :: rest) = none := by
  apply if_neg
  rw [List.isPrefixOf_iff_prefix, List.cons_prefix_cons]
  exact fun hprefix => h hprefix.1

@[simp] theorem twoDigits_two (n : Fin 100) (rest : List Char) : twoDigits (two n ++ rest) = some (n.val, rest) := by
  have hvalue : 10 * (n.val / 10) + n.val % 10 = n.val := by omega
  simp [twoDigits, two, hvalue]

/-- Names that are told apart: none starts with another one. -/
def Apart (names : List (List Char)) : Prop :=
  names.Pairwise fun first second => ¬ first <+: second ∧ ¬ second <+: first

instance (names : List (List Char)) : Decidable (Apart names) :=
  inferInstanceAs (Decidable (names.Pairwise _))

theorem literal_of_mismatch {expected text : List Char} (h : ¬ expected <+: text) :
    literal expected text = none := if_neg fun hprefix => h (List.isPrefixOf_iff_prefix.mp hprefix)

/-- A text that starts with a name starts with no other one. -/
theorem name_append {names : List (List Char)} (h : Apart names) (i : Fin names.length) (rest : List Char) :
    name names (names.get i ++ rest) = some (i.val, rest) := by
  have hfrom : ∀ start, (names.zipIdx start).findSome? (fun entry =>
      (literal entry.1 (names.get i ++ rest)).map fun rest => (entry.2, rest)) = some (start + i.val, rest) := by
    induction names with
    | nil => exact i.elim0
    | cons first names ih =>
        intro start
        rw [List.zipIdx_cons, List.findSome?_cons]
        obtain ⟨hfirst, hothers⟩ := List.pairwise_cons.mp h
        cases i using Fin.cases with
        | zero => simp
        | succ j =>
            have hmem : names.get j ∈ names := List.get_mem names j
            have hnone : literal first (names.get j ++ rest) = none := by
              apply literal_of_mismatch
              intro hprefix
              -- of two beginnings of one text one starts with the other
              rcases List.prefix_or_prefix_of_prefix hprefix (List.prefix_append _ _) with hleft | hright
              · exact (hfirst _ hmem).1 hleft
              · exact (hfirst _ hmem).2 hright
            have hrest := ih hothers j (start + 1)
            have hplace : start + j.succ.val = start + 1 + j.val := by
              rw [Fin.val_succ]
              omega
            rw [List.get_cons_succ', hnone, Option.map_none, hplace]
            exact hrest
  have hzero := hfrom 0
  rwa [Nat.zero_add] at hzero

theorem name_eq_none {names : List (List Char)} {text : List Char} (h : ∀ n ∈ names, ¬ n <+: text) :
    name names text = none := by
  unfold name
  rw [List.findSome?_eq_none_iff]
  intro entry hentry
  rw [literal_of_mismatch (h _ (List.fst_mem_of_mem_zipIdx hentry))]
  rfl

@[simp] theorem name_shortDay (i : Fin 7) (rest : List Char) :
    name shortDays (shortDay i ++ rest) = some (i.val, rest) := by
  have hapart : Apart shortDays := by decide
  exact name_append hapart (i.cast rfl) rest

@[simp] theorem name_fullDay (i : Fin 7) (rest : List Char) :
    name fullDays (fullDay i ++ rest) = some (i.val, rest) := by
  have hapart : Apart fullDays := by decide
  exact name_append hapart (i.cast rfl) rest

@[simp] theorem name_shortMonth (i : Fin 12) (rest : List Char) :
    name shortMonths (shortMonth i ++ rest) = some (i.val, rest) := by
  have hapart : Apart shortMonths := by decide
  exact name_append hapart (i.cast rfl) rest

/-- A digit is neither a blank nor a sign. -/
theorem paddedNumber_digit (d : Fin 10) (text : List Char) :
    paddedNumber (digit d :: text) = (twoDigits (digit d :: text)).map fun read => ((read.1 : Int), read.2) := by
  cases text with
  | nil => fin_cases d <;> rfl
  | cons b rest => fin_cases d <;> rfl

@[simp] theorem paddedNumber_day (f : DateFields) (blank : Bool) (rest : List Char) :
    paddedNumber (f.paddedDay blank ++ rest) = some ((f.day.val : Int), rest) := by
  unfold DateFields.paddedDay
  split_ifs with hblank
  · rw [Bool.and_eq_true, decide_eq_true_eq] at hblank
    simp [paddedNumber, Nat.mod_eq_of_lt hblank.2]
  · have htwo := twoDigits_two f.day rest
    unfold two at htwo ⊢
    rw [List.cons_append, paddedNumber_digit, ← List.cons_append, htwo]
    rfl

@[simp] theorem timeOfDay_time (f : DateFields) (rest : List Char) :
    timeOfDay (f.time rest) = some ((f.hour.val, f.minute.val, f.second.val), rest) := by
  simp [timeOfDay, DateFields.time]

/-! ## §4. Years. -/

/-- A year with or without a sign; true for a plus. -/
def yearText (sign : Option Bool) (digits : List (Fin 10)) : List Char :=
  match sign with
  | none => digits.map digit
  | some true => '+' :: digits.map digit
  | some false => '-' :: digits.map digit

/-- The year that `uuuu` reads of a text. -/
def yearValue (sign : Option Bool) (digits : List (Fin 10)) : Option Int :=
  match sign with
  | none => if digits.length = 4 then some (number digits) else none
  | some true =>
      if 4 < digits.length ∧ digits.length ≤ 19 ∧ number digits < 2 ^ 63 then some (number digits) else none
  | some false =>
      if 4 ≤ digits.length ∧ digits.length ≤ 19 ∧ number digits ≠ 0 ∧ number digits ≤ 2 ^ 63 then
        some (-(number digits : Int))
      else none

/-- What may follow a year in a pattern: nothing, or a blank. -/
def EndsYear (rest : List Char) : Prop := rest = [] ∨ ∃ tail, rest = ' ' :: tail

/-- A digit is left. -/
def DigitLeft (rest : List Char) : Prop := ∃ d tail, rest = digit d :: tail

theorem digitRun_digits {rest : List Char} (h : EndsYear rest) (n : Nat) (digits : List (Fin 10)) :
    digitRun n (digits.map digit ++ rest) = (digits.take n, (digits.drop n).map digit ++ rest) := by
  induction n generalizing digits with
  | zero => rfl
  | succ n ih =>
      cases digits with
      | nil =>
          rcases h with rfl | ⟨tail, rfl⟩
          · rfl
          · rfl
      | cons d digits =>
          rw [List.map_cons, List.cons_append, digitRun, digitOf_digit, ih digits]
          rfl

/-- A digit is no sign. -/
theorem sign_digit (d : Fin 10) (rest : List Char) : sign (digit d :: rest) = (none, digit d :: rest) := by
  fin_cases d <;> rfl

theorem sign_yearText {rest : List Char} (h : EndsYear rest) (s : Option Bool) (digits : List (Fin 10)) :
    sign (yearText s digits ++ rest) = (s, digits.map digit ++ rest) := by
  cases s with
  | some plus => cases plus <;> rfl
  | none =>
      cases digits with
      | cons d digits => exact sign_digit d _
      | nil =>
          rcases h with rfl | ⟨tail, rfl⟩
          · rfl
          · rfl

theorem capped_of_fits {value : Int} (h : -2 ^ 63 ≤ value ∧ value < 2 ^ 63) (rest : List Char) :
    capped value rest = (value, rest) := if_pos h

theorem capped_of_large {value : Int} (h : ¬ (-2 ^ 63 ≤ value ∧ value < 2 ^ 63)) (rest : List Char) :
    DigitLeft (capped value rest).2 := by
  unfold capped
  rw [if_neg h]
  exact ⟨_, rest, rfl⟩

/-- A number that is read leaves a digit where there was one. -/
theorem DigitLeft.capped {rest : List Char} (h : DigitLeft rest) (value : Int) :
    DigitLeft (capped value rest).2 := by
  by_cases hfits : -2 ^ 63 ≤ value ∧ value < 2 ^ 63
  · rwa [capped_of_fits hfits]
  · exact capped_of_large hfits rest

/-- More than nineteen digits. -/
theorem digitLeft_drop {digits : List (Fin 10)} (h : 19 < digits.length) (rest : List Char) :
    DigitLeft ((digits.drop 19).map digit ++ rest) := by
  obtain ⟨d, tail, htail⟩ := List.exists_cons_of_length_pos (l := digits.drop 19) (by
    rw [List.length_drop]
    omega)
  rw [htail]
  exact ⟨d, _, rfl⟩

theorem year_yearText {rest : List Char} (h : EndsYear rest) (s : Option Bool) (digits : List (Fin 10)) :
    year (yearText s digits ++ rest) = if (digits.take 19).length < 4 then none
      else signedYear s (digits.take 19) ((digits.drop 19).map digit ++ rest) := by
  unfold year
  rw [sign_yearText h]
  dsimp only
  rw [digitRun_digits h]

theorem number_lt (digits : List (Fin 10)) : number digits < 10 ^ digits.length := by
  have hfold : ∀ (digits : List (Fin 10)) (n : Nat),
      digits.foldl (fun (n : Nat) (d : Fin 10) => 10 * n + d.val) n < 10 ^ digits.length * (n + 1) := by
    intro digits
    induction digits with
    | nil =>
        intro n
        simp
    | cons d digits ih =>
        intro n
        have hrest := ih (10 * n + d.val)
        have hd := d.isLt
        rw [List.foldl_cons, List.length_cons, Nat.pow_succ, Nat.mul_assoc]
        refine hrest.trans_le (Nat.mul_le_mul_left _ ?_)
        omega
  have hzero := hfold digits 0
  rwa [Nat.zero_add, Nat.mul_one] at hzero

/-- **The year of a text is read**, and what follows it is left. -/
theorem year_of_value {rest : List Char} (h : EndsYear rest) {s : Option Bool} {digits : List (Fin 10)}
    {value : Int} (hvalue : yearValue s digits = some value) :
    year (yearText s digits ++ rest) = some (value, rest) := by
  have hread : 4 ≤ digits.length → digits.length ≤ 19 →
      year (yearText s digits ++ rest) = signedYear s digits rest := by
    intro hfour hlong
    rw [year_yearText h, List.take_of_length_le hlong, List.drop_of_length_le hlong,
      if_neg (Nat.not_lt.mpr hfour)]
    rfl
  cases s with
  | none =>
      dsimp only [yearValue] at hvalue
      split_ifs at hvalue with hlen
      cases hvalue
      have hsmall := number_lt digits
      rw [hlen] at hsmall
      rw [hread (by omega) (by omega), signedYear, if_neg (by omega), capped_of_fits (by omega)]
  | some plus =>
      cases plus with
      | true =>
          dsimp only [yearValue] at hvalue
          split_ifs at hvalue with hlen
          cases hvalue
          rw [hread (by omega) (by omega), signedYear, if_neg (by omega), capped_of_fits (by omega)]
      | false =>
          dsimp only [yearValue] at hvalue
          split_ifs at hvalue with hlen
          cases hvalue
          rw [hread (by omega) (by omega), signedYear, if_neg (by omega), capped_of_fits (by omega)]

/-- **No year is read of another text**, or a digit is left. -/
theorem year_of_none {rest : List Char} (h : EndsYear rest) {s : Option Bool} {digits : List (Fin 10)}
    (hvalue : yearValue s digits = none) {read : Int × List Char}
    (hread : year (yearText s digits ++ rest) = some read) : DigitLeft read.2 := by
  rw [year_yearText h] at hread
  split_ifs at hread with hshort
  by_cases hlong : 19 < digits.length
  · have hleft := digitLeft_drop hlong rest
    have htaken : (digits.take 19).length = 19 := by
      rw [List.length_take]
      omega
    cases s with
    | none =>
        rw [signedYear, if_pos (by omega)] at hread
        cases hread
    | some plus =>
        cases plus with
        | true =>
            rw [signedYear, if_neg (by omega), Option.some.injEq] at hread
            rw [← hread]
            exact hleft.capped _
        | false =>
            dsimp only [signedYear] at hread
            split_ifs at hread
            rw [Option.some.injEq] at hread
            rw [← hread]
            exact hleft.capped _
  · rw [Nat.not_lt] at hlong
    rw [List.take_of_length_le hlong, List.drop_of_length_le hlong] at hread
    rw [List.take_of_length_le hlong] at hshort
    cases s with
    | none =>
        dsimp only [yearValue] at hvalue
        split_ifs at hvalue
        rw [signedYear, if_pos (by omega)] at hread
        cases hread
    | some plus =>
        cases plus with
        | true =>
            dsimp only [yearValue] at hvalue
            split_ifs at hvalue with hlen
            dsimp only [signedYear] at hread
            split_ifs at hread with hfour
            rw [Option.some.injEq] at hread
            rw [← hread]
            exact capped_of_large (by omega) _
        | false =>
            dsimp only [yearValue] at hvalue
            split_ifs at hvalue with hlen
            dsimp only [signedYear] at hread
            split_ifs at hread with hzero
            rw [Option.some.injEq] at hread
            rw [← hread]
            exact capped_of_large (by omega) _

/-! ## §5. What a formatter reads. -/

/-- What is read of a text with a year. -/
def parsedOf (f : DateFields) (year : Int) : Parsed :=
  ⟨f.dayOfWeek, f.day.val, f.month, year, f.hour, f.minute, f.second⟩

theorem digit_ne_blank (d : Fin 10) : ' ' ≠ digit d := by
  revert d
  decide

/-- **The first formatter reads the texts of its form** whose year it reads. -/
theorem imfFixdate_format (f : DateFields) (s : Option Bool) (digits : List (Fin 10)) :
    imfFixdateFormat (f.imfFixdate (yearText s digits)) = (yearValue s digits).map (parsedOf f) := by
  have hends : EndsYear (' ' :: f.time " GMT".toList) := .inr ⟨_, rfl⟩
  unfold imfFixdateFormat DateFields.imfFixdate
  simp only [name_shortDay, literal_cons_cons, twoDigits_two, literal_cons, name_shortMonth,
    Option.bind_eq_bind, Option.bind_some]
  cases hvalue : yearValue s digits with
  | some value =>
      rw [year_of_value hends hvalue]
      simp [complete, parsedOf]
  | none =>
      cases hread : year (yearText s digits ++ ' ' :: f.time " GMT".toList) with
      | none => rfl
      | some read =>
          obtain ⟨d, tail, hleft⟩ := year_of_none hends hvalue hread
          rw [Option.bind_some, hleft, literal_eq_none (digit_ne_blank d)]
          rfl

/-- **The second formatter reads the texts of its form**, the year as one from 2000 to 2099. -/
theorem rfc850_format (f : DateFields) (year : Fin 100) :
    rfc850Format (f.rfc850 (two year)) = some (parsedOf f (2000 + year.val)) := by
  unfold rfc850Format DateFields.rfc850
  simp [reducedYear, complete, parsedOf]

/-- **The third formatter reads the texts of its form** whose year it reads. -/
theorem asctime_format (f : DateFields) (blank : Bool) (s : Option Bool) (digits : List (Fin 10)) :
    asctimeFormat (f.asctime blank (yearText s digits)) = (yearValue s digits).map (parsedOf f) := by
  have hends : EndsYear [] := .inl rfl
  unfold asctimeFormat DateFields.asctime
  simp only [name_shortDay, name_shortMonth, literal_cons, paddedNumber_day, timeOfDay_time,
    Option.bind_eq_bind, Option.bind_some]
  cases hvalue : yearValue s digits with
  | some value =>
      have hread := year_of_value hends hvalue
      rw [List.append_nil] at hread
      rw [hread]
      rfl
  | none =>
      cases hread : year (yearText s digits) with
      | none => rfl
      | some read =>
          rw [← List.append_nil (yearText s digits)] at hread
          obtain ⟨d, tail, hleft⟩ := year_of_none hends hvalue hread
          rw [Option.bind_some, hleft]
          rfl

/-! ## §6. One formatter for each form. -/

/-- The character behind a short day name tells the forms apart. -/
theorem fullDay_eq (i : Fin 7) : ∃ c rest, fullDay i = shortDay i ++ c :: rest ∧ c ≠ ',' ∧ c ≠ ' ' := by
  refine ⟨(fullDay i).getD 3 ' ', (fullDay i).drop 4, ?_⟩
  revert i
  decide

/-- No full day name is a short one with a comma or a blank behind it. -/
theorem name_fullDays_short (i : Fin 7) {c : Char} (hc : c = ',' ∨ c = ' ') (rest : List Char) :
    name fullDays (shortDay i ++ c :: rest) = none := by
  have hother : ∀ full ∈ fullDays, ∀ i : Fin 7, ¬ full.take 4 <+: shortDay i ++ [','] ∧
      ¬ full.take 4 <+: shortDay i ++ [' '] := by decide
  have hlength : ∀ i, (shortDay i).length = 3 := by decide
  apply name_eq_none
  intro full hfull hprefix
  have htake : (shortDay i ++ c :: rest).take 4 = shortDay i ++ [c] := by
    have hshort : (shortDay i).take 4 = shortDay i := List.take_of_length_le (by rw [hlength]; omega)
    rw [List.take_append, hshort, hlength]
    rfl
  have hfour := hprefix.take 4
  rw [htake] at hfour
  rcases hc with rfl | rfl
  · exact (hother full hfull i).1 hfour
  · exact (hother full hfull i).2 hfour

/-- A short day name and another character than a comma. -/
theorem imfFixdateFormat_eq_none (i : Fin 7) {c : Char} (hc : c ≠ ',') (rest : List Char) :
    imfFixdateFormat (shortDay i ++ c :: rest) = none := by
  unfold imfFixdateFormat
  simp [literal_eq_none hc.symm]

/-- A short day name and another character than a blank. -/
theorem asctimeFormat_eq_none (i : Fin 7) {c : Char} (hc : c ≠ ' ') (rest : List Char) :
    asctimeFormat (shortDay i ++ c :: rest) = none := by
  unfold asctimeFormat
  simp [literal_eq_none hc.symm]

theorem rfc850Format_eq_none (i : Fin 7) {c : Char} (hc : c = ',' ∨ c = ' ') (rest : List Char) :
    rfc850Format (shortDay i ++ c :: rest) = none := by
  unfold rfc850Format
  rw [name_fullDays_short i hc]
  rfl

/-- The first instant that a formatter of the list reads. -/
def httpDate (text : List Char) : Option Int := HTTP_DATES.findSome? fun format => format text

theorem httpDate_eq (text : List Char) :
    httpDate text = ((imfFixdateFormat text).bind resolve).or
      (((rfc850Format text).bind resolve).or ((asctimeFormat text).bind resolve)) := by
  unfold httpDate HTTP_DATES
  simp only [List.map_cons, List.map_nil, List.findSome?_cons, List.findSome?_nil]
  cases (imfFixdateFormat text).bind resolve <;> cases (rfc850Format text).bind resolve <;>
    cases (asctimeFormat text).bind resolve <;> rfl

theorem httpDate_imfFixdate (f : DateFields) (s : Option Bool) (digits : List (Fin 10)) :
    httpDate (f.imfFixdate (yearText s digits)) = (yearValue s digits).bind fun year => resolve (parsedOf f year) := by
  have hrfc850 : rfc850Format (f.imfFixdate (yearText s digits)) = none :=
    rfc850Format_eq_none f.dayOfWeek (.inl rfl) _
  have hasctime : asctimeFormat (f.imfFixdate (yearText s digits)) = none :=
    asctimeFormat_eq_none f.dayOfWeek (by decide) _
  rw [httpDate_eq, imfFixdate_format, hrfc850, hasctime, Option.bind_map]
  simp

/-- Only the second formatter reads the second form. -/
theorem httpDate_rfc850_eq (f : DateFields) (year : List Char) :
    httpDate (f.rfc850 year) = (rfc850Format (f.rfc850 year)).bind resolve := by
  obtain ⟨c, rest, hday, hcomma, hblank⟩ := fullDay_eq f.dayOfWeek
  have hfixdate : imfFixdateFormat (f.rfc850 year) = none := by
    unfold DateFields.rfc850
    rw [hday, List.append_assoc]
    exact imfFixdateFormat_eq_none f.dayOfWeek hcomma _
  have hasctime : asctimeFormat (f.rfc850 year) = none := by
    unfold DateFields.rfc850
    rw [hday, List.append_assoc]
    exact asctimeFormat_eq_none f.dayOfWeek hblank _
  rw [httpDate_eq, hfixdate, hasctime]
  simp

theorem httpDate_rfc850 (f : DateFields) (year : Fin 100) :
    httpDate (f.rfc850 (two year)) = resolve (parsedOf f (2000 + year.val)) := by
  rw [httpDate_rfc850_eq, rfc850_format]
  rfl

/-- A year of more than two digits, or with a sign, is not read in the second form. -/
theorem httpDate_rfc850_long (f : DateFields) (s : Option Bool) {digits : List (Fin 10)}
    (h : 2 < digits.length) : httpDate (f.rfc850 (yearText s digits)) = none := by
  have hleft : ∀ read, reducedYear (yearText s digits ++ ' ' :: f.time " GMT".toList) = some read →
      literal [' '] read.2 = none := by
    intro read hread
    obtain ⟨a, digits, rfl⟩ := List.exists_cons_of_length_pos (Nat.lt_of_le_of_lt (Nat.zero_le 2) h)
    cases s with
    | some plus => cases plus <;> cases hread
    | none =>
        obtain ⟨b, digits, rfl⟩ := List.exists_cons_of_length_pos (l := digits) (by
          rw [List.length_cons] at h
          omega)
        obtain ⟨c, digits, rfl⟩ := List.exists_cons_of_length_pos (l := digits) (by
          rw [List.length_cons, List.length_cons] at h
          omega)
        -- a third digit stands where the pattern has a blank
        have hdigits : reducedYear (yearText none (a :: b :: c :: digits) ++ ' ' :: f.time " GMT".toList) =
            some (2000 + ((10 * a + b : Nat) : Int),
              digit c :: (digits.map digit ++ ' ' :: f.time " GMT".toList)) := by
          simp [reducedYear, twoDigits, yearText]
        rw [hdigits, Option.some.injEq] at hread
        rw [← hread]
        exact literal_eq_none (digit_ne_blank c) _ _
  rw [httpDate_rfc850_eq]
  unfold rfc850Format DateFields.rfc850
  simp only [name_fullDay, literal_cons_cons, twoDigits_two, literal_cons, name_shortMonth,
    Option.bind_eq_bind, Option.bind_some]
  cases hread : reducedYear (yearText s digits ++ ' ' :: f.time " GMT".toList) with
  | none => rfl
  | some read =>
      rw [Option.bind_some, hleft read hread]
      rfl

theorem httpDate_asctime (f : DateFields) (blank : Bool) (s : Option Bool) (digits : List (Fin 10)) :
    httpDate (f.asctime blank (yearText s digits)) =
      (yearValue s digits).bind fun year => resolve (parsedOf f year) := by
  have hfixdate : imfFixdateFormat (f.asctime blank (yearText s digits)) = none :=
    imfFixdateFormat_eq_none f.dayOfWeek (by decide) _
  have hrfc850 : rfc850Format (f.asctime blank (yearText s digits)) = none :=
    rfc850Format_eq_none f.dayOfWeek (.inr rfl) _
  rw [httpDate_eq, hfixdate, hrfc850, asctime_format, Option.bind_map]
  simp

/-! ## §7. Dates that there are. -/

/-- **A date that there is** is resolved to its instant. -/
theorem resolve_ofDate (d : DateTime) (hyear : -maxYear ≤ d.year ∧ d.year ≤ maxYear) :
    resolve (parsedOf (.ofDate d) d.year) = some (d.epochSecond * 1000000000) := by
  have hmonth : d.month - 1 + 1 = d.month := Nat.sub_add_cancel d.month_range.1
  have hday := d.day_le
  have hpos := d.day_range.1
  have hmin : min ((d.day : Int).toNat) (lengthOfMonth d.year d.month) = d.day := by
    rw [Int.toNat_natCast]
    exact Nat.min_eq_left d.day_range.2
  have hexcess : excessDays d.hour d.minute d.second = some 0 := by
    have hhour := d.hour_lt
    have hminute := d.minute_lt
    have hsecond := d.second_lt
    unfold excessDays
    rw [if_neg (by omega), if_pos (by omega)]
  have hlast : d.epochDay ≤ epochDay maxYear 12 31 := epochDay_le_last hyear.2 d.month_range d.day_range
  unfold resolve parsedOf DateFields.ofDate
  simp only [hmonth, hmin, hexcess, Option.bind_eq_bind, Option.bind_some]
  rw [if_neg (by omega), if_neg]
  · simp [DateTime.epochSecond, DateTime.epochDay]
  · show ¬ (d.dayOfWeek ≠ d.dayOfWeek ∨ epochDay maxYear 12 31 < d.epochDay + (0 : Nat))
    omega

end CekatEvents.Java
