/-
  CekatEvents.Dotnet.RetryPolicy — the retry decisions of the .NET client (`Internal/RetryPolicy.cs`).

  A `TimeSpan` counts ticks of 100 nanoseconds.  The exact date formats
  of `DateTimeOffset.TryParseExact` are a parameter, about which nothing is assumed.
-/
import CekatEvents.Dotnet.ResponseDecoder
import CekatEvents.Arithmetic.Machine
import Mathlib.Data.Rat.Floor

namespace CekatEvents.Dotnet

open CekatEvents.Http

/-! ## §1. Numbers. -/

/-- Ticks. -/
abbrev TimeSpan := Int

def ticksPerMillisecond : Int := 10000

def ticksPerSecond : Int := 10000000

/-- `TimeSpan.MaxValue`. -/
def maxTimeSpan : TimeSpan := 2 ^ 63 - 1

/-- `TimeSpan.FromMilliseconds`: truncated to ticks. -/
def fromMilliseconds (value : ℚ) : TimeSpan :=
  if 0 ≤ value then ⌊value * ticksPerMillisecond⌋ else -⌊-value * ticksPerMillisecond⌋

def maximumRetryAfter : TimeSpan := 5 * ticksPerSecond

/-- `JitterUpperBoundMilliseconds`. -/
def jitterUpperBoundMilliseconds (retryNumber : Int) : ℚ :=
  min (100 * 2 ^ (max 1 (min 5 retryNumber) - 1).toNat) 1000

/-! ## §2. `Retry-After`. -/

/-- `text.All(char.IsAsciiDigit)`, for a text that is not empty. -/
def allAsciiDigits (text : List Char) : Bool := text.all Char.isDigit

/-- `int.Parse` on at most nine digits. -/
def parseInt (text : List Char) : Int :=
  (text.foldl (fun n c => 10 * n + (c.toNat - '0'.toNat)) 0 : Nat)

/-- `ParseRetryAfter`. -/
def parseRetryAfter (tryParseExact : List Char → Option Int) (value : Option (List Char))
    (now : Int) : Option TimeSpan :=
  match value with
  | none => none
  | some value =>
      let text := trim value
      if text = [] then none
      else if allAsciiDigits text then
        if 9 < text.length then some maxTimeSpan else some (parseInt text * ticksPerSecond)
      else
        match tryParseExact text with
        | none => none
        | some date => if date - now < 0 then some 0 else some (date - now)

/-- `requested > MaximumRetryAfter`. -/
def asksTooMuch (requested : Option TimeSpan) : Bool :=
  requested.any fun delay => decide (maximumRetryAfter < delay)

/-- `RetryDelay`, over the effects of the clock and of the jitter source. -/
def retryDelay {m : Type → Type} [Monad m] (tryParseExact : List Char → Option Int)
    (utcNow : m Int) (jitter : ℚ → m ℚ) (retryNumber : Int) (retryAfter : Option (List Char)) :
    m (Option TimeSpan) := do
  let now ← utcNow
  let requested := parseRetryAfter tryParseExact retryAfter now
  if asksTooMuch requested then pure none
  else do
    let drawn ← jitter (jitterUpperBoundMilliseconds retryNumber)
    let jittered := fromMilliseconds drawn
    match requested with
    | some minimum => pure (some (if jittered < minimum then minimum else jittered))
    | none => pure (some jittered)

end CekatEvents.Dotnet
