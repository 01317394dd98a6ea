/-
  CekatEvents.Clients.RetryAfter — what the clients make of the same plain `Retry-After`.

  A plain `Retry-After` is absent, one to nine decimal digits, or a text without a digit.  Each client
  trims the text with white space of its own, tests for digits, and hands the rest to its own reading of
  dates, none of which knows a date without digits.

  Main results: `python_requested`, `go_requested`, `node_requested` and `java_requested` — every client
  reads the same time, each in its own unit.
-/
import CekatEvents.Go.Client
import CekatEvents.Java.Client
import CekatEvents.Node.Delivery
import CekatEvents.Python.Client
import Mathlib.Data.List.DropRight

namespace CekatEvents.Clients

/-! ## §1. Trimming. -/

section Trim

variable {α : Type} {p : α → Bool} {s : List α}

/-- Nothing is trimmed where there is nothing to trim. -/
theorem trim_eq_self (h : ∀ c ∈ s, p c = false) : (s.dropWhile p).rdropWhile p = s := by
  have hleft : s.dropWhile p = s := by
    apply List.dropWhile_eq_self_iff.mpr
    intro hlt
    rw [h _ (List.getElem_mem hlt)]
    exact Bool.false_ne_true
  rw [hleft]
  apply List.rdropWhile_eq_self_iff.mpr
  intro hne
  rw [h _ (List.getLast_mem hne)]
  exact Bool.false_ne_true

/-- Trimming adds no character. -/
theorem mem_of_mem_trim {c : α} (h : c ∈ (s.dropWhile p).rdropWhile p) : c ∈ s := by
  have hleft : c ∈ s.dropWhile p := (List.rdropWhile_prefix p (s.dropWhile p)).subset h
  exact (List.dropWhile_suffix p).subset hleft

/-- A text is trimmed to nothing only when all of it is. -/
theorem all_of_trim_eq_nil (h : (s.dropWhile p).rdropWhile p = []) : s.all p = true := by
  rw [List.rdropWhile_eq_nil_iff] at h
  cases hleft : s.dropWhile p with
  | nil =>
      rw [List.all_eq_true]
      exact List.dropWhile_eq_nil_iff.mp hleft
  | cons c rest =>
      -- the first character that is left is not one to trim
      have hne : s.dropWhile p ≠ [] := by
        rw [hleft]
        exact List.cons_ne_nil c rest
      have hhead := List.head_dropWhile_not p hne
      rw [h _ (List.head_mem hne)] at hhead
      cases hhead

end Trim

/-- The code of a digit. -/
theorem digit_range {c : Char} (h : c.isDigit = true) : 48 ≤ c.toNat ∧ c.toNat ≤ 57 := by
  simp only [Char.isDigit, Bool.and_eq_true, decide_eq_true_eq] at h
  exact ⟨h.1, h.2⟩

/-! ## §2. Plain values. -/

/-- One to nine decimal digits. -/
def FewDigits (text : List Char) : Prop :=
  text ≠ [] ∧ text.length ≤ 9 ∧ text.all Char.isDigit = true

/-- No digit, whichever digits a client knows beside the decimal ones. -/
def NoDigit (isDecimal : Char → Bool) (text : List Char) : Prop :=
  ∀ c ∈ text, isDecimal c = false ∧ c.isDigit = false

/-- **A plain `Retry-After`.** -/
def Plain (isDecimal : Char → Bool) : Option (List Char) → Prop
  | none => True
  | some text => FewDigits text ∨ NoDigit isDecimal text

/-- The number that decimal digits spell. -/
def digitsNumber (text : List Char) : Nat :=
  text.foldl (fun n c => 10 * n + (c.toNat - '0'.toNat)) 0

/-- The milliseconds that a plain value asks for. -/
def requestedMillis (retryAfter : Option (List Char)) : Option Nat :=
  match retryAfter with
  | none => none
  | some text =>
      if text ≠ [] ∧ text.all Char.isDigit = true then some (digitsNumber text * 1000) else none

theorem requestedMillis_digits {text : List Char} (h : FewDigits text) :
    requestedMillis (some text) = some (digitsNumber text * 1000) := if_pos ⟨h.1, h.2.2⟩

/-- A text with no digit is not all digits, unless it is empty. -/
theorem not_all_digits {isDecimal : Char → Bool} {text : List Char} (h : NoDigit isDecimal text)
    (hne : text ≠ []) : text.all Char.isDigit = false := by
  obtain ⟨c, rest, rfl⟩ := List.exists_cons_of_ne_nil hne
  rw [List.all_cons, (h c List.mem_cons_self).2, Bool.false_and]

theorem requestedMillis_noDigit {isDecimal : Char → Bool} {text : List Char}
    (h : NoDigit isDecimal text) : requestedMillis (some text) = none := by
  apply if_neg
  rintro ⟨hne, hall⟩
  rw [not_all_digits h hne] at hall
  cases hall

/-- What trimming leaves of a text with no digit has none either. -/
theorem NoDigit.trim {isDecimal p : Char → Bool} {text : List Char} (h : NoDigit isDecimal text) :
    NoDigit isDecimal ((text.dropWhile p).rdropWhile p) :=
  fun c hc => h c (mem_of_mem_trim hc)

/-- Digits stay when what is trimmed is no digit. -/
theorem FewDigits.trim {p : Char → Bool} (hp : ∀ c, c.isDigit = true → p c = false)
    {text : List Char} (h : FewDigits text) : (text.dropWhile p).rdropWhile p = text :=
  trim_eq_self fun c hc => hp c (List.all_eq_true.mp h.2.2 c hc)

/-! ## §3. The clients. -/

/-- A number of milliseconds in the unit of each client. -/
def inSeconds (millis : Nat) : Python.Seconds := (((millis : ℚ) / 1000 : ℚ) : Python.Seconds)

def inNanoseconds (millis : Nat) : Go.Duration := millis * Go.millisecond

def inMillis (millis : Nat) : Node.Millis := ((millis : ℚ) : Node.Millis)

/-! ### Every client gives up where more than five seconds are asked for. -/

theorem python_limit (ms : Nat) : Python.MAXIMUM_RETRY_AFTER_SECONDS < inSeconds ms ↔ ¬ ms ≤ 5000 := by
  unfold Python.MAXIMUM_RETRY_AFTER_SECONDS inSeconds
  rw [WithTop.coe_lt_coe, lt_div_iff₀ (by norm_num)]
  constructor
  · intro h
    have hcast : ((5000 : Nat) : ℚ) < ms := by
      push_cast
      linarith
    have hlt := Nat.cast_lt.mp hcast
    omega
  · intro h
    have hcast : ((5000 : Nat) : ℚ) < ms := Nat.cast_lt.mpr (by omega)
    push_cast at hcast
    linarith

theorem go_limit (ms : Nat) : Go.maximumRetryAfter < inNanoseconds ms ↔ ¬ ms ≤ 5000 := by
  show (5 * 1000000000 : Int) < (ms : Int) * 1000000 ↔ ¬ ms ≤ 5000
  omega

theorem node_limit (ms : Nat) : inMillis ms ≤ Node.MAXIMUM_RETRY_AFTER_MS ↔ ms ≤ 5000 := by
  unfold inMillis Node.MAXIMUM_RETRY_AFTER_MS
  rw [WithTop.coe_le_coe, show (5000 : ℚ) = ((5000 : Nat) : ℚ) by norm_num, Nat.cast_le]

theorem java_limit (ms : Nat) : Int.ofNat ms ≤ Java.MAXIMUM_RETRY_AFTER_MILLIS ↔ ms ≤ 5000 := by
  show (ms : Int) ≤ 5000 ↔ ms ≤ 5000
  omega

section Clients

variable {isDecimal : Char → Bool} {retryAfter : Option (List Char)}

/-- The Python client. -/
theorem python_requested {lib : Python.Library} (h : Plain lib.isDecimal retryAfter) (now : ℚ) :
    Python.parseRetryAfter lib retryAfter now = (requestedMillis retryAfter).map inSeconds := by
  cases retryAfter with
  | none => exact Python.parseRetryAfter_none lib now
  | some text =>
      unfold Python.parseRetryAfter
      rcases h with hdigits | hno
      · have htrim : Python.strip text = text := by
          apply hdigits.trim
          intro c hc
          have hrange := digit_range hc
          unfold Python.isSpace
          simp
          omega
        have hunit : inSeconds (digitsNumber text * 1000) = ((digitsNumber text : ℚ) : Python.Seconds) := by
          unfold inSeconds
          congr 1
          push_cast
          rw [mul_div_assoc, div_self (by norm_num), mul_one]
        rw [requestedMillis_digits hdigits, Option.map_some, hunit]
        simp only [Option.getD_some, htrim, if_neg hdigits.1, Python.isAsciiDigits, hdigits.2.2,
          if_true, if_neg (Nat.not_lt.mpr hdigits.2.1)]
        rfl
      · have hno' : NoDigit lib.isDecimal (Python.strip text) := hno.trim
        rw [requestedMillis_noDigit hno, Option.map_none]
        simp only [Option.getD_some]
        by_cases hne : Python.strip text = []
        · rw [if_pos hne]
        · have hdate : Http.isHttpDate lib.isDecimal (Python.strip text) = false :=
            Http.isHttpDate_eq_false fun c hc => (hno' c hc).1
          simp only [if_neg hne, Python.isAsciiDigits, not_all_digits hno' hne, hdate,
            Bool.false_eq_true, if_false]

/-- `http.ParseTime` reads no date without digits. -/
def DatesHaveDigits (parseTime : List Char → Option Int) : Prop :=
  ∀ text, (∀ c ∈ text, c.isDigit = false) → parseTime text = none

/-- The Go client, for which an absent header is empty. -/
theorem go_requested {parseTime : List Char → Option Int} (hdates : DatesHaveDigits parseTime)
    (h : Plain isDecimal retryAfter) (now : Int) :
    Go.parseRetryAfter parseTime (retryAfter.getD []) now =
      (requestedMillis retryAfter).map inNanoseconds := by
  cases retryAfter with
  | none => rfl
  | some text =>
      rw [Option.getD_some]
      unfold Go.parseRetryAfter
      rcases h with hdigits | hno
      · have htrim : Go.trimSpace text = text := by
          apply hdigits.trim
          intro c hc
          have hrange := digit_range hc
          unfold Go.isSpace
          simp
          omega
        have hunit : inNanoseconds (digitsNumber text * 1000) = Go.atoi text * Go.second := by
          show ((digitsNumber text * 1000 : Nat) : Int) * 1000000 = (digitsNumber text : Int) * 1000000000
          omega
        rw [requestedMillis_digits hdigits, Option.map_some, hunit]
        simp only [htrim, if_neg hdigits.1, Go.isDigits, hdigits.2.2, if_true,
          if_neg (Nat.not_lt.mpr hdigits.2.1)]
      · have hno' : NoDigit isDecimal (Go.trimSpace text) := hno.trim
        rw [requestedMillis_noDigit hno, Option.map_none]
        simp only
        by_cases hne : Go.trimSpace text = []
        · rw [if_pos hne]
        · simp only [if_neg hne, Go.isDigits, not_all_digits hno' hne, Bool.false_eq_true, if_false,
            hdates _ fun c hc => (hno' c hc).2]

/-- The Node client. -/
theorem node_requested (dateParse : List Char → Option Int) (h : Plain isDecimal retryAfter)
    (now : Int) : Node.parseRetryAfterMs dateParse retryAfter now =
      (requestedMillis retryAfter).map inMillis := by
  cases retryAfter with
  | none => rfl
  | some text =>
      unfold Node.parseRetryAfterMs
      rcases h with hdigits | hno
      · have htrim : Node.trim text = text := by
          apply hdigits.trim
          intro c hc
          have hrange := digit_range hc
          unfold Node.isWhiteSpace
          simp
          omega
        have hunit : inMillis (digitsNumber text * 1000) =
            ((digitsNumber text * 1000 : ℚ) : Node.Millis) := by
          unfold inMillis
          congr 1
          push_cast
          rfl
        rw [requestedMillis_digits hdigits, Option.map_some, hunit]
        simp only [Option.getD_some, htrim, if_neg hdigits.1, hdigits.2.2, if_true,
          if_neg (Nat.not_lt.mpr hdigits.2.1)]
        rfl
      · have hno' : NoDigit isDecimal (Node.trim text) := hno.trim
        rw [requestedMillis_noDigit hno, Option.map_none]
        simp only [Option.getD_some]
        by_cases hne : Node.trim text = []
        · rw [if_pos hne]
        · have hdate : Http.isHttpDate Char.isDigit (Node.trim text) = false :=
            Http.isHttpDate_eq_false fun c hc => (hno' c hc).2
          simp only [if_neg hne, not_all_digits hno' hne, hdate, Bool.false_eq_true, if_false]

/-- The Java client. -/
theorem java_requested {httpDates : List (List Char → Option Int)}
    (hdates : ∀ format ∈ httpDates, DatesHaveDigits format) (h : Plain isDecimal retryAfter)
    (now : Int) : Java.parseRetryAfterMillis httpDates retryAfter now =
      .ok ((requestedMillis retryAfter).map Int.ofNat) := by
  cases retryAfter with
  | none => rfl
  | some text =>
      unfold Java.parseRetryAfterMillis
      rcases h with hdigits | hno
      · have hspace : ∀ c, c.isDigit = true → Java.isWhitespace c = false := by
          intro c hc
          have hrange := digit_range hc
          unfold Java.isWhitespace
          simp
          omega
        have htrim : Java.strip text = text := hdigits.trim hspace
        have hblank : text.all Java.isWhitespace = false := by
          obtain ⟨c, rest, rfl⟩ := List.exists_cons_of_ne_nil hdigits.1
          rw [List.all_cons, hspace c (List.all_eq_true.mp hdigits.2.2 c List.mem_cons_self),
            Bool.false_and]
        have hunit : Int.ofNat (digitsNumber text * 1000) = Java.parseLong text * 1000 := rfl
        rw [requestedMillis_digits hdigits, Option.map_some, hunit]
        simp only [hblank, Bool.false_eq_true, if_false, htrim, hdigits.2.2, if_true,
          if_neg (Nat.not_lt.mpr hdigits.2.1)]
      · have hno' : NoDigit isDecimal (Java.strip text) := hno.trim
        rw [requestedMillis_noDigit hno, Option.map_none]
        simp only
        by_cases hblank : text.all Java.isWhitespace = true
        · rw [if_pos hblank]
        · have hne : Java.strip text ≠ [] := fun hnil => hblank (all_of_trim_eq_nil hnil)
          have hformats : (httpDates.findSome? fun format => format (Java.strip text)) = none := by
            rw [List.findSome?_eq_none_iff]
            intro format hformat
            exact hdates format hformat _ fun c hc => (hno' c hc).2
          simp only [if_neg hblank, not_all_digits hno' hne, Bool.false_eq_true, if_false, hformats]

end Clients

end CekatEvents.Clients
