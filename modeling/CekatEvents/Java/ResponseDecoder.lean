/-
  CekatEvents.Java.ResponseDecoder — decoding a response in the Java client
  (`internal/ResponseDecoder.java`).

  `new String(body, UTF_8)` replaces what is not UTF-8, and keeps a byte-order mark.  `Json.parse`
  throws nothing but `IllegalArgumentException` (`Json.parse_total`), which both of its callers catch.
-/
import CekatEvents.Java.Json
import CekatEvents.Http.Status

namespace CekatEvents.Java

open CekatEvents.Encoding CekatEvents.JsonText CekatEvents.Http

/-! ## §1. Responses and exceptions. -/

/-- A Java string, by its code units. -/
abbrev Str := List CodeUnit

/-- An exception kept as a cause, by its text where the client writes it. -/
abbrev Cause := List Char

/-- `TransportResponse`: the headers in the order of its map. -/
structure TransportResponse where
  statusCode : Nat
  headers : List (List Char × List (List Char))
  body : List UInt8
  bodyTruncated : Bool
  bodyReadFailure : Option Cause

/-- `header`: the first value of a header, its name compared without case. -/
def TransportResponse.header (r : TransportResponse) (name : List Char) : Option (List Char) :=
  (r.headers.find? fun e => e.1.map Char.toLower == name.map Char.toLower && !e.2.isEmpty).bind
    fun e => e.2.head?

structure Acknowledgement where
  message : Str
  eventKey : Str
  validatedProperties : List Str
  rawBody : List UInt8

/-- The fields of `ApiException` and its subclasses. -/
structure ApiException where
  message : Str
  statusCode : Nat
  serverCode : Option Str
  rawBody : List UInt8
  attempts : Int

structure ResponseDecodeException where
  message : List Char
  rawBody : List UInt8
  attempts : Int
  cause : Option Cause

/-- What decoding throws. -/
inductive DecodeThrown where
  | responseDecode (e : ResponseDecodeException)
  | authentication (e : ApiException)
  | eventDefinitionNotFound (e : ApiException)
  | api (e : ApiException)

/-! ## §2. Decoding. -/

/-- `new String(body, StandardCharsets.UTF_8)`. -/
def newString (body : List UInt8) : Str := utf16 (ofUtf8Lossy body)

/-- `instanceof String s && !s.isEmpty()`. -/
def nonEmptyString : Option JsonValue → Option Str
  | some (.str s) => if s = [] then none else some s
  | _ => none

/-- `instanceof List<?>` of strings only. -/
def stringList : Option JsonValue → Option (List Str)
  | some (.arr xs) => xs.mapM fun x => match x with
      | .str s => some s
      | _ => none
  | _ => none

/-- `Boolean.valueOf(b).equals(v)`. -/
def isBoolean (b : Bool) : Option JsonValue → Bool
  | some (.bool c) => c == b
  | _ => false

/-- The fields of a valid success envelope. -/
def envelopeFields (envelope : JsonValue) : Option (Str × Str × List Str) := do
  let data ← envelope.get (units "data")
  let message ← nonEmptyString (data.get (units "message"))
  let eventKey ← nonEmptyString (data.get (units "event_key"))
  let properties ← stringList (data.get (units "validated_properties"))
  if isBoolean true (envelope.get (units "success")) && isBoolean true (data.get (units "success")) then
    some (message, eventKey, properties)
  else none

/-- `acknowledgement`. -/
def acknowledgement (response : TransportResponse) (attempts : Int) :
    Except DecodeThrown Acknowledgement :=
  match response.bodyReadFailure with
  | some failure => .error (.responseDecode
      ⟨"response body could not be read".toList, response.body, attempts, some failure⟩)
  | none =>
      if response.bodyTruncated then .error (.responseDecode
        ⟨"response body exceeds 65536 bytes".toList, response.body, attempts, none⟩)
      else
        match Json.parse (newString response.body) with
        | .error invalid => .error (.responseDecode ⟨"response body is not valid JSON".toList,
            response.body, attempts,
            (invalid.message (newString response.body)).map String.toList⟩)
        | .ok parsed =>
            match envelopeFields parsed with
            | some (message, eventKey, properties) =>
                .ok ⟨message, eventKey, properties, response.body⟩
            | none => .error (.responseDecode
                ⟨"response body is not a valid success envelope".toList, response.body, attempts,
                  none⟩)

/-- `parseOrNull`. -/
def parseOrNull (text : Str) : JsonValue :=
  match Json.parse text with
  | .ok parsed => parsed
  | .error _ => .null

/-- The message and the code of an error envelope: a code must be a string where it is present. -/
def errorEnvelope (envelope : JsonValue) : Option (Str × Option Str) :=
  if isBoolean false (envelope.get (units "success")) then
    match nonEmptyString (envelope.get (units "error")) with
    | none => none
    | some error =>
        match envelope.get (units "code") with
        | none => some (error, none)
        | some (.str code) => some (error, some code)
        | some _ => none
  else none

/-- The exception class of a status other than 200. -/
def statusException (statusCode : Nat) : ApiException → DecodeThrown :=
  if statusCode = 401 then .authentication
  else if statusCode = 404 then .eventDefinitionNotFound
  else .api

/-- `decode`. -/
def decode (response : TransportResponse) (attempts : Int) : Except DecodeThrown Acknowledgement :=
  if response.statusCode = 200 then acknowledgement response attempts
  else
    match errorEnvelope (parseOrNull (newString response.body)) with
    | some (message, code) => .error (statusException response.statusCode
        ⟨message, response.statusCode, code, response.body, attempts⟩)
    | none => .error (statusException response.statusCode
        ⟨utf16 (statusText response.statusCode), response.statusCode, none, response.body, attempts⟩)

end CekatEvents.Java
