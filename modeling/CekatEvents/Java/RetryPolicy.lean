/-
  CekatEvents.Java.RetryPolicy — the retry decisions of the Java client (`internal/RetryPolicy.java`).

  An `Instant` counts nanoseconds since the epoch.  The three date formatters are a parameter: each
  gives the instant of a text it parses, and nothing is assumed about them.
-/
import CekatEvents.Java.ResponseDecoder
import CekatEvents.Arithmetic.Machine

namespace CekatEvents.Java

open CekatEvents.Arithmetic

def MAXIMUM_RETRY_AFTER_MILLIS : Int := 5000

/-- `Long.MAX_VALUE`. -/
def maxLong : Int := 2 ^ 63 - 1

/-- `delayBoundMillis`. -/
def delayBoundMillis (retry : Int) : Int :=
  min (100 * 2 ^ (min (max retry 1) 5 - 1).toNat) 1000

/-- `Character.isWhitespace`: no space that does not break a line. -/
def isWhitespace (c : Char) : Bool :=
  let n := c.toNat
  (0x09 ≤ n && n ≤ 0x0D) || (0x1C ≤ n && n ≤ 0x20) || n == 0x1680 || (0x2000 ≤ n && n ≤ 0x2006) ||
    (0x2008 ≤ n && n ≤ 0x200A) || n == 0x2028 || n == 0x2029 || n == 0x205F || n == 0x3000

/-- `strip()`. -/
def strip (s : List Char) : List Char :=
  ((s.dropWhile isWhitespace).reverse.dropWhile isWhitespace).reverse

/-- `Long.parseLong` on at most nine digits. -/
def parseLong (text : List Char) : Int :=
  (text.foldl (fun n c => 10 * n + (c.toNat - '0'.toNat)) 0 : Nat)

/-- `ArithmeticException`. -/
structure ArithmeticException

/-- `Duration.toMillis`: nanoseconds truncated toward zero, when a `long` can hold them. -/
def toMillis (nanos : Int) : Except ArithmeticException Int :=
  let millis := nanos.tdiv 1000000
  if -2 ^ 63 ≤ millis ∧ millis ≤ maxLong then .ok millis else .error ⟨⟩

/-- `parseRetryAfterMillis`: only the exceptions of the formatters are caught. -/
def parseRetryAfterMillis (httpDates : List (List Char → Option Int)) (value : Option (List Char))
    (now : Int) : Except ArithmeticException (Option Int) :=
  match value with
  | none => .ok none
  | some value =>
      if value.all isWhitespace then .ok none
      else
        let trimmed := strip value
        if trimmed.all Char.isDigit then
          .ok (some (if 9 < trimmed.length then maxLong else parseLong trimmed * 1000))
        else
          match httpDates.findSome? fun format => format trimmed with
          | none => .ok none
          | some date => (toMillis (date - now)).map fun millis => some (max 0 millis)

end CekatEvents.Java
