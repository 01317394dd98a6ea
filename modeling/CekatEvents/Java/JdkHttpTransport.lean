/-
  CekatEvents.Java.JdkHttpTransport — the body subscriber of the Java transport
  (`transport/JdkHttpTransport.java`).

  A publisher hands over lists of buffers, and may hand over more after it was cancelled.
-/
import CekatEvents.Java.ResponseDecoder

namespace CekatEvents.Java

def MAX_BODY_BYTES : Nat := 65536

/-- `BoundedSubscriber`: its bytes, and whether it cancelled its subscription and completed its result. -/
structure BoundedSubscriber where
  bytes : List UInt8
  cancelled : Bool
  completed : Bool

namespace BoundedSubscriber

/-- A new one. -/
def new : BoundedSubscriber := ⟨[], false, false⟩

variable (subscriber : BoundedSubscriber)

def overflowed : Bool := decide (MAX_BODY_BYTES < subscriber.bytes.length)

/-- One turn of the loop of `onNext`; a `ByteBuffer` stands for what remains in it. -/
def write (bytes buffer : List UInt8) : List UInt8 :=
  let room := MAX_BODY_BYTES + 1 - bytes.length
  let length := min room buffer.length
  if 0 < length then bytes ++ buffer.take length else bytes

def onNext (buffers : List (List UInt8)) : BoundedSubscriber :=
  let after : BoundedSubscriber := { subscriber with bytes := buffers.foldl write subscriber.bytes }
  if after.overflowed then { after with cancelled := true, completed := true } else after

def onComplete : BoundedSubscriber := { subscriber with completed := true }

/-- `toResponse`. -/
def toResponse (statusCode : Nat) (headers : List (List Char × List (List Char)))
    (failure : Option Cause) : TransportResponse :=
  let truncated := decide (MAX_BODY_BYTES < subscriber.bytes.length)
  { statusCode, headers
    body := if truncated then subscriber.bytes.take MAX_BODY_BYTES else subscriber.bytes
    bodyTruncated := truncated
    bodyReadFailure := failure }

/-- `observedBodyBytes` of that response. -/
def observedBodyBytes : Nat := subscriber.bytes.length

end BoundedSubscriber

end CekatEvents.Java
