/-
  CekatEvents.Go.Response — what the Go client makes of a response (`response.go`, `errors.go`).

  A Go string is the list of its characters and a byte slice the list of its bytes.  What
  `encoding/json` unmarshals into the client's structs is an `EncodingJson`, about which nothing is
  assumed; an `error` of a library is kept by its text.
-/
import CekatEvents.Encoding.Utf
import CekatEvents.Http.Status

namespace CekatEvents.Go

open CekatEvents.Encoding CekatEvents.Http

/-! ## §1. Errors and acknowledgements. -/

/-- A byte slice. -/
abbrev Bytes := List UInt8

/-- An `error` of a library, by its text. -/
abbrev Cause := List Char

structure Acknowledgement where
  message : List Char
  eventKey : List Char
  validatedProperties : List (List Char)
  rawBody : Bytes
  deriving DecidableEq

/-- The fields that `AuthenticationError`, `EventDefinitionNotFoundError` and `APIError` share. -/
structure StatusError where
  statusCode : Nat
  message : List Char
  code : List Char
  body : Bytes
  attempts : Int

structure TransportError where
  message : List Char
  attempts : Int
  deliveryOutcomeUnknown : Bool
  cause : Cause

structure ResponseDecodeError where
  message : List Char
  statusCode : Nat
  body : Bytes
  attempts : Int
  cause : Cause

/-- The errors that a call returns: those of the client, and the error of the caller's context. -/
inductive Error where
  | validation (message : List Char)
  | authentication (e : StatusError)
  | eventDefinitionNotFound (e : StatusError)
  | api (e : StatusError)
  | transport (e : TransportError)
  | responseDecode (e : ResponseDecodeError)
  | context (e : Cause)

/-! ## §2. Strings. -/

/-- `unicode.IsSpace`. -/
def isSpace (c : Char) : Bool :=
  let n := c.toNat
  (0x09 ≤ n && n ≤ 0x0D) || n == 0x20 || n == 0x85 || n == 0xA0 || n == 0x1680 ||
    (0x2000 ≤ n && n ≤ 0x200A) || n == 0x2028 || n == 0x2029 || n == 0x202F || n == 0x205F ||
    n == 0x3000

/-- `strings.TrimSpace`. -/
def trimSpace (s : List Char) : List Char :=
  ((s.dropWhile isSpace).reverse.dropWhile isSpace).reverse

/-- The table of `net/http`. -/
def statusTexts : List (Nat × String) :=
  [(100, "Continue"), (101, "Switching Protocols"), (102, "Processing"), (103, "Early Hints"),
   (200, "OK"), (201, "Created"), (202, "Accepted"), (203, "Non-Authoritative Information"),
   (204, "No Content"), (205, "Reset Content"), (206, "Partial Content"), (207, "Multi-Status"),
   (208, "Already Reported"), (226, "IM Used"), (300, "Multiple Choices"),
   (301, "Moved Permanently"), (302, "Found"), (303, "See Other"), (304, "Not Modified"),
   (305, "Use Proxy"), (307, "Temporary Redirect"), (308, "Permanent Redirect"),
   (400, "Bad Request"), (401, "Unauthorized"), (402, "Payment Required"), (403, "Forbidden"),
   (404, "Not Found"), (405, "Method Not Allowed"), (406, "Not Acceptable"),
   (407, "Proxy Authentication Required"), (408, "Request Timeout"), (409, "Conflict"),
   (410, "Gone"), (411, "Length Required"), (412, "Precondition Failed"),
   (413, "Request Entity Too Large"), (414, "Request URI Too Long"),
   (415, "Unsupported Media Type"), (416, "Requested Range Not Satisfiable"),
   (417, "Expectation Failed"), (418, "I'm a teapot"), (421, "Misdirected Request"),
   (422, "Unprocessable Entity"), (423, "Locked"), (424, "Failed Dependency"), (425, "Too Early"),
   (426, "Upgrade Required"), (428, "Precondition Required"), (429, "Too Many Requests"),
   (431, "Request Header Fields Too Large"), (451, "Unavailable For Legal Reasons"),
   (500, "Internal Server Error"), (501, "Not Implemented"), (502, "Bad Gateway"),
   (503, "Service Unavailable"), (504, "Gateway Timeout"), (505, "HTTP Version Not Supported"),
   (506, "Variant Also Negotiates"), (507, "Insufficient Storage"), (508, "Loop Detected"),
   (510, "Not Extended"), (511, "Network Authentication Required")]

/-- `http.StatusText`: empty for a status outside the table. -/
def statusText (code : Nat) : List Char :=
  ((statusTexts.find? fun e => e.1 == code).map fun e => e.2.toList).getD []

/-! ## §3. Envelopes. -/

/-- `successEnvelope`: a pointer is nothing when nil, raw bytes are empty when absent. -/
structure SuccessEnvelope where
  success : Option Bool
  data : Bytes

structure SuccessData where
  success : Option Bool
  message : Option (List Char)
  eventKey : Option (List Char)
  validatedProperties : Option (List Bytes)

structure ErrorEnvelope where
  success : Option Bool
  error : Option (List Char)
  code : Option (List Char)

/-- `json.Unmarshal` into each type that the client decodes. -/
structure EncodingJson where
  successEnvelope : Bytes → Except Cause SuccessEnvelope
  successData : Bytes → Except Cause SuccessData
  string : Bytes → Except Cause (List Char)
  /-- Into `map[string]json.RawMessage`. -/
  raw : Bytes → Except Cause (List (List Char × Bytes))
  errorEnvelope : Bytes → Except Cause ErrorEnvelope

def responseBodyLimit : Nat := 65536

/-- `errInvalidResponseEnvelope`. -/
def errInvalidResponseEnvelope : Cause := "invalid response envelope".toList

/-- `null`, as bytes. -/
def nullBytes : Bytes := [0x6E, 0x75, 0x6C, 0x6C]

/-- `isJSONObject`. -/
def isJSONObject (value : Bytes) : Bool :=
  let trimmed := trimSpace (ofUtf8Lossy value)
  decide (1 < trimmed.length) && trimmed.head? == some '{' && trimmed.getLast? == some '}'

section Decoding

variable (json : EncodingJson)

/-- One member of `validated_properties`. -/
def decodeProperty (property : Bytes) : Except Cause (List Char) :=
  if property = nullBytes then .error errInvalidResponseEnvelope else json.string property

/-- `decodeSuccessEnvelope`; the raw body is filled in by the caller. -/
def decodeSuccessEnvelope (body : Bytes) : Except Cause Acknowledgement := do
  let envelope ← json.successEnvelope body
  if envelope.success != some true || !isJSONObject envelope.data then
    .error errInvalidResponseEnvelope
  else
    let data ← json.successData envelope.data
    match data.success, data.message, data.eventKey, data.validatedProperties with
    | some true, some message, some eventKey, some properties =>
        if trimSpace message = [] || trimSpace eventKey = [] then
          .error errInvalidResponseEnvelope
        else
          let validatedProperties ← properties.mapM (decodeProperty json)
          .ok ⟨message, eventKey, validatedProperties, []⟩
    | _, _, _, _ => .error errInvalidResponseEnvelope

/-- `decodeErrorEnvelope`: message and code, both empty when the body is not an error envelope. -/
def decodeErrorEnvelope (body : Bytes) : List Char × List Char :=
  match json.raw body, json.errorEnvelope body with
  | .ok raw, .ok ⟨some false, some error, code⟩ =>
      if trimSpace error = [] then ([], [])
      else
        match (raw.find? fun e => e.1 == "code".toList).map Prod.snd with
        | none => (error, [])
        | some rawCode =>
            if rawCode = nullBytes then ([], [])
            else
              match code with
              | none => ([], [])
              | some code => (error, code)
  | _, _ => ([], [])

/-- `responseDecodeError`. -/
def responseDecodeError (body : Bytes) (attempts : Int) (cause : Cause) : Error :=
  .responseDecode ⟨"invalid response envelope".toList, 200, body, attempts, cause⟩

/-- `newStatusError`. -/
def newStatusError (statusCode : Nat) (message code : List Char) (body : Bytes) (attempts : Int) :
    Error :=
  if statusCode = 401 then .authentication ⟨statusCode, message, code, body, attempts⟩
  else if statusCode = 404 then .eventDefinitionNotFound ⟨statusCode, message, code, body, attempts⟩
  else .api ⟨statusCode, message, code, body, attempts⟩

/-- What `io.ReadAll` read of a body limited to one byte more than is retained, and its error. -/
structure Observed where
  bytes : Bytes
  err : Option Cause

/-- `readBoundedBody`: what is retained, and whether the body exceeds it. -/
def readBoundedBody (observed : Observed) : Bytes × Bool :=
  (observed.bytes.take responseBodyLimit, decide (responseBodyLimit < observed.bytes.length))

/-- `decodeResponse`. -/
def decodeResponse (statusCode : Nat) (observed : Observed) (attempts : Int) :
    Except Error Acknowledgement :=
  let (body, overflow) := readBoundedBody observed
  if statusCode = 200 then
    match observed.err with
    | some readErr => .error (responseDecodeError body attempts readErr)
    | none =>
        if overflow then .error (responseDecodeError body attempts errInvalidResponseEnvelope)
        else
          match decodeSuccessEnvelope json body with
          | .error err => .error (responseDecodeError body attempts err)
          | .ok acknowledgement => .ok { acknowledgement with rawBody := body }
  else
    let (message, code) := decodeErrorEnvelope json body
    if observed.err.isSome || message = [] then
      .error (newStatusError statusCode (statusText statusCode) [] body attempts)
    else .error (newStatusError statusCode message code body attempts)

/-- The errors of the client, as against the error of the context. -/
def Error.IsSdk : Error → Prop
  | .context _ => False
  | _ => True

theorem newStatusError_isSdk (statusCode : Nat) (message code : List Char) (body : Bytes)
    (attempts : Int) : (newStatusError statusCode message code body attempts).IsSdk := by
  unfold newStatusError
  split_ifs
  · trivial
  · trivial
  · trivial

/-- Decoding never reports the error of a context. -/
theorem decodeResponse_isSdk {statusCode : Nat} {observed : Observed} {attempts : Int} {e : Error}
    (h : decodeResponse json statusCode observed attempts = .error e) : e.IsSdk := by
  unfold decodeResponse at h
  by_cases h200 : statusCode = 200
  · simp only [h200, if_true] at h
    cases herr : observed.err with
    | some readErr =>
        rw [herr] at h
        cases h
        trivial
    | none =>
        simp only [herr] at h
        by_cases hover : (readBoundedBody observed).2 = true
        · rw [if_pos hover] at h
          cases h
          trivial
        · rw [if_neg hover] at h
          cases hdec : decodeSuccessEnvelope json (readBoundedBody observed).1 with
          | error err =>
              rw [hdec] at h
              cases h
              trivial
          | ok acknowledgement =>
              rw [hdec] at h
              cases h
  · simp only [if_neg h200] at h
    split_ifs at h
    · cases h
      exact newStatusError_isSdk _ _ _ _ _
    · cases h
      exact newStatusError_isSdk _ _ _ _ _

end Decoding

end CekatEvents.Go
