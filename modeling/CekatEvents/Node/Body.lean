/-
  CekatEvents.Node.Body — reading a response body in the Node client (`body.ts`).

  A stream may go on for ever with empty chunks, so the loop has fuel.  Cancelling the reader when the
  signal aborts is cleanup that nothing waits for; what it does to the stream shows in what the reads
  answer.
-/
import CekatEvents.Node.Platform

namespace CekatEvents.Node

open CekatEvents.Effects

def MAX_RESPONSE_BYTES : Nat := 65536

/-- What was read of a body. -/
structure BoundedBody where
  rawBody : Str
  bodyTruncated : Bool
  observedBodyBytes : Nat

/-- `readWithSignal`: a read, unless the signal is aborted already. -/
def readWithSignal : Program (Except Thrown (Option (List UInt8))) := do
  match ← perform .controllerSignal with
  | some reason => pure (.error (abortReason reason))
  | none => perform .read

/-- The `while (true)` of `readBoundedBody`: what is retained, whether the body was truncated, and how
    many bytes were observed. -/
def readLoop : Nat → List UInt8 → Nat → Program (Except Thrown (List UInt8 × Bool × Nat))
  | 0, _, _ => .cutOff
  | fuel + 1, retained, observed => do
      match ← awaiting readWithSignal with
      | .error e => pure (.error e)
      | .ok none => pure (.ok (retained, false, observed))
      | .ok (some chunk) =>
          let remaining := MAX_RESPONSE_BYTES - retained.length
          let observed := observed + min chunk.length (remaining + 1)
          if chunk.length ≤ remaining then readLoop fuel (retained ++ chunk) observed
          else do
            -- a rejection is swallowed: the prefix is already known
            let _ ← perform .cancelReader
            pure (.ok (retained ++ chunk.take remaining, true, observed))

/-- `readBoundedBody`. -/
def readBoundedBody (fuel : Nat) : Program (Except Thrown BoundedBody) := do
  match ← perform .getReader with
  | .error e => pure (.error e)
  | .ok false => pure (.ok ⟨[], false, 0⟩)
  | .ok true => do
      -- an aborted signal only cancels the reader here; the first read then throws
      let _ ← perform .controllerSignal
      match ← readLoop fuel [] 0 with
      | .error e => pure (.error e)
      | .ok (retained, truncated, observed) => pure (.ok ⟨textDecode retained, truncated, observed⟩)

end CekatEvents.Node
