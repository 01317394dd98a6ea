/-
  CekatEvents.Go.Retry — the retry decisions of the Go client (`retry.go`).

  An `int` is an integer that wraps at the size of the platform, given by its largest value; a
  `time.Duration` counts nanoseconds.  `http.ParseTime` is a parameter, about which nothing is assumed.
-/
import CekatEvents.Go.Response
import CekatEvents.Arithmetic.Machine

namespace CekatEvents.Go

open CekatEvents.Http CekatEvents.Arithmetic

/-! ## §1. Attempts. -/

/-- `retryAttempts`: the attempts of so many retries, when an `int` can count them. -/
def retryAttempts (maxInt : Nat) (retryCount : Int) : Option Int :=
  if retryCount < 0 ∨ retryCount = maxInt then none else some (wrap maxInt (retryCount + 1))

theorem retryAttempts_eq {maxInt : Nat} {retryCount : Int} (hlo : 0 ≤ retryCount)
    (hhi : retryCount < maxInt) : retryAttempts maxInt retryCount = some (retryCount + 1) := by
  unfold retryAttempts
  rw [if_neg (by omega), wrap_eq (by omega) (by omega)]

/-! ## §2. Durations. -/

/-- Nanoseconds. -/
abbrev Duration := Int

def millisecond : Duration := 1000000

def second : Duration := 1000000000

def initialRetryMaximum : Duration := 100 * millisecond

def maximumRetryMaximum : Duration := second

def maximumRetryAfter : Duration := 5 * second

/-- `retryMaximum`. -/
def retryMaximum (attempt : Int) : Duration :=
  if attempt ≤ 1 then initialRetryMaximum
  else if 5 ≤ attempt then maximumRetryMaximum
  else initialRetryMaximum * 2 ^ (attempt - 1).toNat

/-! ## §3. `Retry-After`. -/

/-- `Time.Sub` on nanoseconds since the epoch: the difference, saturated. -/
def subTime (date now : Int) : Duration := max (-2 ^ 63) (min (2 ^ 63 - 1) (date - now))

/-- `strings.Trim(value, "0123456789") == ""`, for a text that is not empty. -/
def isDigits (value : List Char) : Bool := value.all Char.isDigit

/-- `strconv.Atoi` on at most nine digits, which fit any `int`. -/
def atoi (value : List Char) : Int :=
  (value.foldl (fun n c => 10 * n + (c.toNat - '0'.toNat)) 0 : Nat)

/-- `parseRetryAfter`. -/
def parseRetryAfter (parseTime : List Char → Option Int) (value : List Char) (now : Int) :
    Option Duration :=
  let value := trimSpace value
  if value = [] then none
  else if isDigits value then
    if 9 < value.length then some (2 ^ 63 - 1) else some (atoi value * second)
  else
    match parseTime value with
    | none => none
    | some date => if 0 < subTime date now then some (subTime date now) else some 0

end CekatEvents.Go
