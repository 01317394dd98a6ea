/-
  CekatEvents.Python.Retry — the retry decisions of the Python client (`retry.py`).

  Seconds are exact: the bounds are doublings of the double that `0.1` denotes, `float` of at most nine
  digits is exact, and `min` and `max` round nothing.  `float("inf")` is `⊤`.  The calendar arithmetic
  of `email.utils` and the Unicode tables of `re` belong to a `Library`, about which nothing is assumed.
-/
import CekatEvents.Python.Protocol
import CekatEvents.Http.RetryAfter
import Mathlib.Algebra.Order.Field.Rat
import Mathlib.Algebra.Order.Monoid.Unbundled.WithTop
import Mathlib.Data.Rat.Cast.Order
import Mathlib.Tactic.Linarith
import Mathlib.Tactic.NormNum

namespace CekatEvents.Python

open CekatEvents.Http

/-! ## §1. Seconds and the standard library. -/

/-- A number of seconds, or `float("inf")`. -/
abbrev Seconds := WithTop ℚ

/-- What the installed library knows. -/
structure Library where
  /-- The characters that `\d` matches: the decimal digits of its Unicode version. -/
  isDecimal : Char → Bool
  /-- `parsedate_to_datetime`, as UTC seconds since the epoch; nothing when it raises `TypeError` or
      `ValueError`. -/
  parsedateToDatetime : List Char → Option ℚ

/-! ## §2. Jitter. -/

/-- The double that `0.1` denotes. -/
def tenth : ℚ := 3602879701896397 / 36028797018963968

/-- `jitter_upper_bound`: the bound doubles up to the fifth retry and is capped at one second. -/
def jitterUpperBound (retryNumber : Nat) : ℚ :=
  min (tenth * 2 ^ (min (max retryNumber 1) 5 - 1)) 1

/-- Without the clamp to the fifth retry the bound would be the same. -/
theorem jitterUpperBound_eq {retryNumber : Nat} (h : 1 ≤ retryNumber) :
    jitterUpperBound retryNumber = min (tenth * 2 ^ (retryNumber - 1)) 1 := by
  unfold jitterUpperBound
  by_cases h5 : retryNumber ≤ 5
  · rw [max_eq_left h, min_eq_left h5]
  · have h16 : (1 : ℚ) ≤ tenth * 2 ^ 4 := by unfold tenth; norm_num
    have hpow : (2 : ℚ) ^ 4 ≤ 2 ^ (retryNumber - 1) := by
      apply pow_le_pow_right₀
      · norm_num
      · omega
    have htenth : (0 : ℚ) ≤ tenth := by unfold tenth; norm_num
    have hbig : (1 : ℚ) ≤ tenth * 2 ^ (retryNumber - 1) :=
      h16.trans (mul_le_mul_of_nonneg_left hpow htenth)
    rw [max_eq_left h, min_eq_right (by omega : 5 ≤ retryNumber)]
    rw [min_eq_right h16, min_eq_right hbig]

/-! ## §3. `Retry-After`. -/

/-- `text.isascii() and text.isdigit()`, for a text that is not empty. -/
def isAsciiDigits (text : List Char) : Bool := text.all Char.isDigit

/-- The number that decimal digits spell. -/
def digitsNumber (text : List Char) : Nat :=
  text.foldl (fun n c => 10 * n + (c.toNat - '0'.toNat)) 0

/-- `parse_retry_after` at a time. -/
def parseRetryAfter (lib : Library) (value : Option (List Char)) (now : ℚ) : Option Seconds :=
  let text := strip (value.getD [])
  if text = [] then none
  else if isAsciiDigits text then
    if 9 < text.length then some ⊤ else some ((digitsNumber text : ℚ) : Seconds)
  else if isHttpDate lib.isDecimal text then
    (lib.parsedateToDatetime text).map fun date => ((max 0 (date - now) : ℚ) : Seconds)
  else none

def MAXIMUM_RETRY_AFTER_SECONDS : Seconds := ((5 : ℚ) : Seconds)

/-- The server asks for more than the client waits. -/
def asksTooMuch (requested : Option Seconds) : Bool :=
  requested.any fun seconds => decide (MAXIMUM_RETRY_AFTER_SECONDS < seconds)

/-- `retry_delay`, over the effects of the clock and of the jitter source.  The clock is read first;
    only a date looks at it. -/
def retryDelay {m : Type → Type} [Monad m] (lib : Library) (utcnow : m ℚ) (uniform : ℚ → m ℚ)
    (retryNumber : Nat) (retryAfter : Option (List Char)) : m (Option Seconds) := do
  let now ← utcnow
  let requested := parseRetryAfter lib retryAfter now
  if asksTooMuch requested then pure none
  else do
    let jitter ← uniform (jitterUpperBound retryNumber)
    pure (some (max (jitter : Seconds) (requested.getD 0)))

/-- A value of more than nine digits is infinite; every other one is what it asks for. -/
theorem parseRetryAfter_eq (lib : Library) (value : Option (List Char)) (now : ℚ) :
    parseRetryAfter lib value now =
      if Overlong (strip (value.getD [])) then some ⊤
      else (askedSeconds lib.isDecimal (lib.parsedateToDatetime (strip (value.getD []))) now
        (strip (value.getD []))).map fun seconds : ℚ => ((seconds : ℚ) : Seconds) := by
  unfold parseRetryAfter askedSeconds
  simp only
  generalize strip (value.getD []) = text
  by_cases hnil : text = []
  · subst hnil
    have hdigits : ¬ DigitString [] := fun h => h.1 rfl
    have hdate : ¬ HttpDate lib.isDecimal [] := by
      rw [← isHttpDate_iff, isHttpDate_eq_false (fun c hc => absurd hc List.not_mem_nil)]
      exact Bool.false_ne_true
    have hlong : ¬ Overlong [] := fun h => hdigits h.1
    rw [if_pos rfl, if_neg hlong, if_neg hdigits, if_neg hdate]
    rfl
  · rw [if_neg hnil]
    by_cases hdigits : DigitString text
    · have hall : isAsciiDigits text = true := (digitString_iff.mp hdigits).2
      have hnumber : digitsNumber text = decimal text := foldl_eq_decimal text
      by_cases hlong : 9 < text.length
      · have hover : Overlong text := ⟨hdigits, hlong⟩
        rw [if_pos hall, if_pos hlong, if_pos hover]
      · have hover : ¬ Overlong text := fun h => hlong h.2
        rw [if_pos hall, if_neg hlong, if_neg hover, if_pos hdigits, hnumber]
        rfl
    · have hall : ¬ isAsciiDigits text = true := fun h => hdigits (digitString_iff.mpr ⟨hnil, h⟩)
      have hover : ¬ Overlong text := fun h => hdigits h.1
      rw [if_neg hall, if_neg hover, if_neg hdigits]
      simp only [isHttpDate_iff]
      by_cases hdate : HttpDate lib.isDecimal text
      · rw [if_pos hdate, if_pos hdate, Option.map_map]
        rfl
      · rw [if_neg hdate, if_neg hdate]
        rfl

/-- No transport failure has a `Retry-After`. -/
theorem parseRetryAfter_none (lib : Library) (now : ℚ) : parseRetryAfter lib none now = none := by
  unfold parseRetryAfter
  rw [if_pos (show strip (Option.getD none []) = [] from rfl)]

end CekatEvents.Python
