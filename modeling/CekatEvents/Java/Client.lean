/-
  CekatEvents.Java.Client — delivery with retries in the Java client (`CekatClient.java`).

  `track` is the loop of `CekatClient.track` on an encoded body, over its effects: the interrupt flag of
  the thread, one execution of the transport, the clock, the jitter source and the sleeper.
-/
import CekatEvents.Java.RetryPolicy
import CekatEvents.Effects.Program

namespace CekatEvents.Java

open CekatEvents.Http CekatEvents.Effects CekatEvents.Arithmetic

/-! ## §1. Effects. -/

/-- What a transport throws. -/
inductive TransportFailure where
  | transportFailure (message : List Char)
  | interrupted

/-- The effects of a call. -/
inductive Op where
  /-- `Thread.interrupted()`. -/
  | interrupted
  | execute (body : List UInt8)
  | now
  | jitter (bound : Int)
  | sleep (millis : Int)

/-- What an effect answers; a sleep says whether it was interrupted. -/
abbrev Op.Ret : Op → Type
  | interrupted => Bool
  | execute _ => Except TransportFailure TransportResponse
  | now => Int
  | jitter _ => Int
  | sleep _ => Bool

/-- A program of the client. -/
abbrev Program (α : Type) := Prog Op Op.Ret α

/-- One effect. -/
abbrev perform (op : Op) : Program op.Ret := Prog.perform op

structure TransportException where
  message : List Char
  attempts : Int
  cause : List Char

/-- What a call throws. -/
inductive TrackThrown where
  | transport (e : TransportException)
  | decoding (e : DecodeThrown)
  | arithmetic (e : ArithmeticException)
  | interrupted

/-- A result of the call. -/
abbrev Result := Except TrackThrown Acknowledgement

/-! ## §2. The loop. -/

section Loop

variable (httpDates : List (List Char → Option Int)) (retryCount : Int) (body : List UInt8)

/-- `backoff`: whether the sleep was interrupted. -/
def backoff (retry : Int) (retryAfterMillis : Option Int) : Program Bool := do
  let jitter ← perform (.jitter (delayBoundMillis retry))
  let delay := max jitter (retryAfterMillis.getD 0)
  perform (.sleep delay)

/-- The `for` of `track`, for at most `fuel` turns. -/
def track : Nat → Int → Program Result
  | 0, _ => .cutOff
  | fuel + 1, attempt => do
      let maximumAttempts := int32 (retryCount + 1)
      if ← perform .interrupted then pure (.error .interrupted)
      else do
        match ← perform (.execute body) with
        | .error .interrupted => pure (.error .interrupted)
        | .error (.transportFailure failure) =>
            if maximumAttempts ≤ attempt then pure (.error (.transport
              ⟨"Cekat API request failed before a response was received".toList, attempt, failure⟩))
            else do
              if ← backoff attempt none then pure (.error .interrupted)
              else track fuel (int32 (attempt + 1))
        | .ok response =>
            if decide (attempt < maximumAttempts) && isRetryableStatus response.statusCode then do
              let now ← perform .now
              match parseRetryAfterMillis httpDates (response.header "Retry-After".toList) now with
              | .error e => pure (.error (.arithmetic e))
              | .ok retryAfter =>
                  if retryAfter.all fun delay => decide (delay ≤ MAXIMUM_RETRY_AFTER_MILLIS) then do
                    if ← backoff attempt retryAfter then pure (.error .interrupted)
                    else track fuel (int32 (attempt + 1))
                  else pure ((decode response attempt).mapError .decoding)
            else pure ((decode response attempt).mapError .decoding)

end Loop

end CekatEvents.Java
