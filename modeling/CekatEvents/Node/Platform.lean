/-
  CekatEvents.Node.Platform — what the Node client builds on: errors, numbers, strings, and the effects
  of its asynchronous functions.

  JavaScript runs one piece of code at a time.  An effect is either synchronous (a look at a signal, a
  clock) or an `await`; only while something is awaited may a signal be aborted or a timer fire.
  `tick` is the turn of the event loop that awaiting an asynchronous function takes even when its
  promise is already settled.
-/
import CekatEvents.JsonText.Value
import CekatEvents.Http.Status
import CekatEvents.Http.DatePattern
import CekatEvents.Effects.Program
import Mathlib.Algebra.Order.Field.Rat
import Mathlib.Algebra.Order.Monoid.Unbundled.WithTop
import Mathlib.Data.Rat.Floor

namespace CekatEvents.Node

open CekatEvents.Encoding CekatEvents.JsonText CekatEvents.Effects

/-! ## §1. Errors. -/

/-- A string, by its code units. -/
abbrev Str := List CodeUnit

/-- The fields that `ApiError`, `AuthenticationError` and `EventDefinitionNotFoundError` share. -/
structure StatusError where
  message : Str
  status : Nat
  code : Option Str
  rawBody : Str
  attempts : Nat

/-- What can be thrown: the errors of the client, a fresh `AbortError`, an `Error` by its message, the
    `SyntaxError` of `JSON.parse`, and any other value, by its identity. -/
inductive Thrown where
  | api (e : StatusError)
  | authentication (e : StatusError)
  | eventDefinitionNotFound (e : StatusError)
  | responseDecode (message : List Char) (rawBody : Str) (attempts : Nat) (cause : Option Thrown)
  | transport (message : List Char) (attempts : Nat) (cause : Thrown)
  | abortError
  | error (message : List Char)
  | syntaxError
  | other (identity : Nat)

/-- `isKnownOutcomeError`. -/
def isKnownOutcomeError : Thrown → Bool
  | .api _ => true
  | .authentication _ => true
  | .eventDefinitionNotFound _ => true
  | .responseDecode _ _ _ _ => true
  | _ => false

/-- The acknowledgement of a valid 200. -/
structure Acknowledgement where
  message : Str
  eventKey : Str
  validatedProperties : List Str
  rawBody : Str

/-! ## §2. Numbers and strings. -/

/-- The double nearest to a natural number, ties to even. -/
def roundInteger (n : Nat) : Nat :=
  if n ≤ 2 ^ 53 then n
  else
    let e := Nat.log2 n - 52
    let q := n / 2 ^ e
    let r := n % 2 ^ e
    if 2 ^ e < 2 * r ∨ (2 * r = 2 ^ e ∧ q % 2 = 1) then (q + 1) * 2 ^ e else q * 2 ^ e

/-- `a + b` on integers. -/
def add (a b : Nat) : Nat := roundInteger (a + b)

/-- Sums up to `2 ^ 53` are exact. -/
theorem add_eq {a b : Nat} (h : a + b ≤ 2 ^ 53) : add a b = a + b := if_pos h

/-- A number of milliseconds, or `Infinity`. -/
abbrev Millis := WithTop ℚ

/-- The characters that `trim` takes off. -/
def isWhiteSpace (c : Char) : Bool :=
  let n := c.toNat
  (0x09 ≤ n && n ≤ 0x0D) || n == 0x20 || n == 0xA0 || n == 0x1680 ||
    (0x2000 ≤ n && n ≤ 0x200A) || n == 0x2028 || n == 0x2029 || n == 0x202F || n == 0x205F ||
    n == 0x3000 || n == 0xFEFF

/-- `trim()`. -/
def trim (s : List Char) : List Char :=
  ((s.dropWhile isWhiteSpace).reverse.dropWhile isWhiteSpace).reverse

/-- `new TextDecoder('utf-8', { fatal: false }).decode`: a leading byte-order mark is dropped. -/
def textDecode (bytes : List UInt8) : Str :=
  if [0xEF, 0xBB, 0xBF] <+: bytes then utf16 (ofUtf8Lossy (bytes.drop 3))
  else utf16 (ofUtf8Lossy bytes)

/-- Text that does not begin with a byte-order mark is decoded as it is. -/
theorem textDecode_utf8 {cs : List Char} (hmark : cs.head? ≠ some (Char.ofNat 0xFEFF)) :
    textDecode (utf8 cs) = utf16 cs := by
  have hnot : ¬ [0xEF, 0xBB, 0xBF] <+: utf8 cs := by
    rintro ⟨rest, hrest⟩
    cases cs with
    | nil => cases hrest
    | cons c cs =>
        apply hmark
        rw [List.head?_cons, Option.some.injEq]
        have hbytes : String.utf8EncodeChar (Char.ofNat 0xFEFF) = [0xEF, 0xBB, 0xBF] := by decide
        rw [← hbytes, utf8_cons] at hrest
        exact (utf8EncodeChar_append_inj hrest).symm
  rw [textDecode, if_neg hnot, ofUtf8Lossy_utf8]

/-! ## §3. Effects. -/

/-- A response before its body is read. -/
structure Response where
  status : Nat
  statusText : Str
  /-- `headers.get('retry-after')`. -/
  retryAfter : Option (List Char)

/-- The effects of a call. -/
inductive Op where
  /-- A look at `options.signal`. -/
  | callerSignal
  /-- A new `AbortController` with its timer and its listener on the caller's signal. -/
  | newController
  /-- A look at the signal of the controller. -/
  | controllerSignal
  | fetch (body : Str)
  | cancelBody
  | getReader
  | read
  | cancelReader
  | dateNow
  | random
  | sleep (milliseconds : Millis)
  | tick

/-- What a look at a signal tells: nothing when it is absent or not aborted, else its reason, which may
    be nullish. -/
abbrev Aborted := Option (Option Thrown)

/-- What an effect answers: a promise resolves, or rejects with any value. -/
abbrev Op.Ret : Op → Type
  | callerSignal => Aborted
  | newController => Unit
  | controllerSignal => Aborted
  | fetch _ => Except Thrown Response
  | cancelBody => Except Thrown Unit
  -- whether there is a body to read
  | getReader => Except Thrown Bool
  -- a chunk, or the end of the stream
  | read => Except Thrown (Option (List UInt8))
  | cancelReader => Except Thrown Unit
  | dateNow => Int
  | random => ℚ
  | sleep _ => Except Thrown Unit
  | tick => Unit

/-- A program of the client. -/
abbrev Program (α : Type) := Prog Op Op.Ret α

/-- One effect. -/
abbrev perform (op : Op) : Program op.Ret := Prog.perform op

/-- Await an asynchronous function, which resolves or rejects. -/
def awaiting {α : Type} (p : Program (Except Thrown α)) : Program (Except Thrown α) := do
  let result ← p
  perform .tick
  pure result

/-- `signal.reason ?? createAbortError()`. -/
def abortReason (reason : Option Thrown) : Thrown := reason.getD .abortError

/-- `throwIfAborted(options.signal)`: what it throws. -/
def throwIfAborted : Program (Option Thrown) := do
  let signal ← perform .callerSignal
  pure (signal.map abortReason)

end CekatEvents.Node
