/-
  CekatEvents.Python.Protocol — decoding a response in the Python client (`protocol.py`).

  A `str` is the list of its UTF-16 code units (`json.loads` joins a surrogate pair of escapes into
  one character, so no two strings it makes have the same units).  `json.loads` is the reader of
  `JsonText` in the dialect `python`: it knows `NaN`, `Infinity` and `-Infinity`, refuses integers of
  more digits than the interpreter converts, and raises `RecursionError` at the bracket that nests
  more containers than the interpreter's recursion limit lets it.  Numbers stay as they are written,
  since no function here looks at them.

  Main result: `decode_typed_iff` — `decode` returns an acknowledgement or raises the typed error of
  the status exactly when no body it consults overflows the recursion limit.
-/
import CekatEvents.JsonText.Value
import CekatEvents.Http.Status

namespace CekatEvents.Python

open CekatEvents.Encoding CekatEvents.JsonText CekatEvents.Http

/-! ## §1. Values of the interpreter. -/

/-- A text of the interpreter, by its UTF-16 code units. -/
abbrev Str := List CodeUnit

/-- The settings of an interpreter that `json.loads` depends on. -/
structure Interpreter where
  recursionLimit : Nat
  /-- `sys.get_int_max_str_digits()`; zero for no limit. -/
  intMaxStrDigits : Nat

/-- CPython as it starts. -/
def cpython : Interpreter := ⟨1000, 4300⟩

/-- An integer literal of more digits than the interpreter converts is a `ValueError`. -/
def convertible (i : Interpreter) (n : Numeral) : Bool :=
  n.frac.isSome || n.exp.isSome || i.intMaxStrDigits == 0 ||
    decide (n.int.length ≤ i.intMaxStrDigits)

/-- What `json.loads` lets through. -/
def python (i : Interpreter) : Dialect := ⟨strictHex, convertible i, true⟩

/-- A decoded value, numbers as written. -/
abbrev PyValue := Value (Numeral ⊕ NonFinite)

/-- What `json.loads` makes of a tree. -/
def pythonDecoder : Decoder (Numeral ⊕ NonFinite) := ⟨hexUnit, .inl, .inr⟩

/-! ## §2. Responses and errors. -/

/-- An exception kept as a cause, by its text. -/
abbrev Cause := List Char

/-- A response whose status arrived. -/
structure ReceivedResponse where
  statusCode : Nat
  reasonPhrase : List Char
  headers : List (List Char × List Char)
  body : List UInt8
  bodyTruncated : Bool
  bodyReadFailure : Option Cause

/-- The acknowledgement of a valid 200. -/
structure Acknowledgement where
  message : Str
  eventKey : Str
  validatedProperties : List Str
  rawBody : List UInt8
  deriving DecidableEq

/-- The fields of `HttpError`. -/
structure HttpError where
  statusCode : Nat
  message : Str
  code : Option Str
  rawBody : List UInt8
  attempts : Nat

/-- The fields of `ResponseDecodeError`. -/
structure ResponseDecodeError where
  message : List Char
  rawBody : List UInt8
  attempts : Nat
  cause : Option Cause

/-- What decoding raises. -/
inductive Raised where
  | responseDecode (e : ResponseDecodeError)
  | authentication (e : HttpError)
  | eventDefinitionNotFound (e : HttpError)
  | api (e : HttpError)
  | recursionError

def MAX_RESPONSE_BYTES : Nat := 65536

/-- `BoundedBuffer`, by its `_data`. -/
structure BoundedBuffer where
  data : List UInt8

/-- `BoundedBuffer.append`: whether to go on, and the buffer after it. -/
def BoundedBuffer.append (buffer : BoundedBuffer) (chunk : List UInt8) : Bool × BoundedBuffer :=
  let room := MAX_RESPONSE_BYTES + 1 - buffer.data.length
  let data := if 0 < room then buffer.data ++ chunk.take room else buffer.data
  (decide (data.length ≤ MAX_RESPONSE_BYTES), ⟨data⟩)

/-- `BoundedBuffer.response`. -/
def BoundedBuffer.response (buffer : BoundedBuffer) (statusCode : Nat) (reasonPhrase : List Char)
    (headers : List (List Char × List Char)) (failure : Option Cause) : ReceivedResponse :=
  let truncated := decide (MAX_RESPONSE_BYTES < buffer.data.length)
  { statusCode, reasonPhrase, headers
    body := buffer.data.take MAX_RESPONSE_BYTES
    bodyTruncated := truncated
    bodyReadFailure := if truncated then none else failure }

/-- `observed_body_bytes` of that response. -/
def BoundedBuffer.observedBodyBytes (buffer : BoundedBuffer) : Nat := buffer.data.length

/-- The `for` of an attempt: it breaks when `append` returns `False`. -/
def BoundedBuffer.readAll (buffer : BoundedBuffer) : List (List UInt8) → BoundedBuffer
  | [] => buffer
  | chunk :: chunks =>
      if (buffer.append chunk).1 then (buffer.append chunk).2.readAll chunks else (buffer.append chunk).2

/-- The characters `str.strip` takes off. -/
def isSpace (c : Char) : Bool :=
  let n := c.toNat
  (0x09 ≤ n && n ≤ 0x0D) || (0x1C ≤ n && n ≤ 0x20) || n == 0x85 || n == 0xA0 || n == 0x1680 ||
    (0x2000 ≤ n && n ≤ 0x200A) || n == 0x2028 || n == 0x2029 || n == 0x202F || n == 0x205F ||
    n == 0x3000

/-- `str.strip()`. -/
def strip (s : List Char) : List Char :=
  ((s.dropWhile isSpace).reverse.dropWhile isSpace).reverse

/-- The first header of a name, compared without case.  No character outside ASCII is lowered to a
    letter of the one name that is asked for, `Retry-After`. -/
def ReceivedResponse.header (r : ReceivedResponse) (name : List Char) : Option (List Char) :=
  (r.headers.find? fun e => e.1.map Char.toLower == name.map Char.toLower).map Prod.snd

/-! ## §3. Decoding. -/

/-- `json.loads` on a text. -/
def loads (i : Interpreter) (text : Str) : Except Fault PyValue :=
  (JsonText.read (python i) i.recursionLimit text).map (Ast.decode pythonDecoder)

/-- `_parse`: a body that is not UTF-8, or on which `json.loads` raises a `ValueError`, counts as
    `None`; a `RecursionError` is not caught. -/
def parse (i : Interpreter) (body : List UInt8) : Except Raised PyValue :=
  match ofUtf8? body with
  | none => .ok .null
  | some cs =>
      match loads i (utf16 cs) with
      | .ok v => .ok v
      | .error .malformed => .ok .null
      | .error .tooDeep => .error .recursionError

/-- `isinstance(v, str) and v`: a string that is not empty. -/
def nonEmptyStr : Option PyValue → Option Str
  | some (.str s) => if s = [] then none else some s
  | _ => none

/-- `isinstance(v, list) and all(isinstance(item, str) for item in v)`. -/
def strList : Option PyValue → Option (List Str)
  | some (.arr xs) => xs.mapM fun x => match x with
      | .str s => some s
      | _ => none
  | _ => none

/-- `v is b` for a Boolean constant. -/
def isBool (b : Bool) : Option PyValue → Bool
  | some (.bool c) => c == b
  | _ => false

/-- The fields `_acknowledgement` takes from a success envelope. -/
def envelopeFields (envelope : PyValue) : Option (Str × Str × List Str) := do
  let data ← envelope.get (units "data")
  let message ← nonEmptyStr (data.get (units "message"))
  let eventKey ← nonEmptyStr (data.get (units "event_key"))
  let properties ← strList (data.get (units "validated_properties"))
  if isBool true (envelope.get (units "success")) && isBool true (data.get (units "success")) then
    some (message, eventKey, properties)
  else none

/-- `_acknowledgement`. -/
def acknowledgement (i : Interpreter) (response : ReceivedResponse) (attempts : Nat) :
    Except Raised Acknowledgement :=
  match response.bodyReadFailure with
  | some failure => .error (.responseDecode
      ⟨"response body could not be read".toList, response.body, attempts, some failure⟩)
  | none =>
      if response.bodyTruncated then .error (.responseDecode
        ⟨"response body exceeds 65536 bytes".toList, response.body, attempts, none⟩)
      else do
        let envelope ← parse i response.body
        match envelopeFields envelope with
        | some (message, eventKey, properties) =>
            .ok ⟨message, eventKey, properties, response.body⟩
        | none => .error (.responseDecode
            ⟨"response body is not a valid success envelope".toList, response.body, attempts, none⟩)

/-- The message and code of an error envelope: `code` must be a string where it is present. -/
def errorEnvelope (envelope : PyValue) : Option (Str × Option Str) :=
  if isBool false (envelope.get (units "success")) then
    match nonEmptyStr (envelope.get (units "error")) with
    | none => none
    | some message =>
        match envelope.get (units "code") with
        | none => some (message, none)
        | some (.str code) => some (message, some code)
        | some _ => none
  else none

/-- `reason_phrase.strip() or _status_text(status_code)`. -/
def fallbackMessage (response : ReceivedResponse) : Str :=
  if strip response.reasonPhrase = [] then utf16 (statusText response.statusCode)
  else utf16 (strip response.reasonPhrase)

/-- The error class of a status other than 200. -/
def errorType (statusCode : Nat) : HttpError → Raised :=
  if statusCode = 401 then .authentication
  else if statusCode = 404 then .eventDefinitionNotFound
  else .api

/-- `decode`. -/
def decode (i : Interpreter) (response : ReceivedResponse) (attempts : Nat) :
    Except Raised Acknowledgement :=
  if response.statusCode = 200 then acknowledgement i response attempts
  else do
    let envelope ← parse i response.body
    match errorEnvelope envelope with
    | some (message, code) => .error (errorType response.statusCode
        ⟨response.statusCode, message, code, response.body, attempts⟩)
    | none => .error (errorType response.statusCode
        ⟨response.statusCode, fallbackMessage response, none, response.body, attempts⟩)

/-! ## §4. The error a status demands. -/

/-- An HTTP error that carries the response it reports. -/
def HttpError.Reports (e : HttpError) (response : ReceivedResponse) (attempts : Nat) : Prop :=
  e.statusCode = response.statusCode ∧ e.rawBody = response.body ∧ e.attempts = attempts

/-- **The outcome a status demands**: an acknowledgement or a decode error for 200, the typed error of
    the class for every other status, each with the body and the attempt count. -/
def Typed (response : ReceivedResponse) (attempts : Nat) : Except Raised Acknowledgement → Prop
  | .ok a => response.statusCode = 200 ∧ a.rawBody = response.body
  | .error (.responseDecode e) =>
      response.statusCode = 200 ∧ e.rawBody = response.body ∧ e.attempts = attempts
  | .error (.authentication e) => response.statusCode = 401 ∧ e.Reports response attempts
  | .error (.eventDefinitionNotFound e) => response.statusCode = 404 ∧ e.Reports response attempts
  | .error (.api e) =>
      response.statusCode ≠ 200 ∧ response.statusCode ≠ 401 ∧ response.statusCode ≠ 404 ∧
        e.Reports response attempts
  | .error .recursionError => False

/-- The body of the response is looked at: always for an error status, and for a 200 unless reading
    failed or was cut off. -/
def Consulted (response : ReceivedResponse) : Prop :=
  response.statusCode ≠ 200 ∨ (response.bodyReadFailure = none ∧ response.bodyTruncated = false)

/-- The body is UTF-8 text that nests more containers than the recursion limit before it leaves the
    grammar. -/
def BodyOverflows (i : Interpreter) (body : List UInt8) : Prop :=
  ∃ cs, utf8 cs = body ∧ Overflows (python i) i.recursionLimit (skipWs (utf16 cs))

/-- Parsing raises nothing but the `RecursionError` of a body that nests too deep. -/
theorem parse_cases (i : Interpreter) (body : List UInt8) :
    (BodyOverflows i body ∧ parse i body = .error .recursionError) ∨
      (¬ BodyOverflows i body ∧ ∃ v, parse i body = .ok v) := by
  rw [parse]
  cases hdec : ofUtf8? body with
  | none =>
      refine .inr ⟨?_, _, rfl⟩
      rintro ⟨cs, hcs, -⟩
      rw [ofUtf8?_eq_some_iff.mpr hcs] at hdec
      cases hdec
  | some cs =>
      have hcs := ofUtf8?_eq_some_iff.mp hdec
      have hover : BodyOverflows i body ↔ loads i (utf16 cs) = .error .tooDeep := by
        rw [loads, map_eq_error, read_tooDeep_iff]
        constructor
        · rintro ⟨cs', hcs', h⟩
          have hsame : cs' = cs := by
            have h' := ofUtf8?_eq_some_iff.mpr hcs'
            rw [hdec, Option.some.injEq] at h'
            exact h'.symm
          exact hsame ▸ h
        · intro h
          exact ⟨cs, hcs, h⟩
      rw [hover]
      cases hl : loads i (utf16 cs) with
      | ok v => exact .inr ⟨by simp, v, by simp only [hl]⟩
      | error e =>
          cases e with
          | malformed => exact .inr ⟨by simp, .null, by simp only [hl]⟩
          | tooDeep => exact .inl ⟨rfl, by simp only [hl]⟩

theorem errorType_typed {response : ReceivedResponse} {attempts : Nat} {e : HttpError}
    (hstatus : response.statusCode ≠ 200) (he : e.Reports response attempts) :
    Typed response attempts (.error (errorType response.statusCode e)) := by
  unfold errorType
  by_cases h401 : response.statusCode = 401
  · rw [if_pos h401]
    exact ⟨h401, he⟩
  · rw [if_neg h401]
    by_cases h404 : response.statusCode = 404
    · rw [if_pos h404]
      exact ⟨h404, he⟩
    · rw [if_neg h404]
      exact ⟨hstatus, h401, h404, he⟩

theorem acknowledgement_typed_iff (i : Interpreter) {response : ReceivedResponse} (attempts : Nat)
    (hstatus : response.statusCode = 200) :
    Typed response attempts (acknowledgement i response attempts) ↔
      ¬ (Consulted response ∧ BodyOverflows i response.body) := by
  have hconsulted : Consulted response ↔
      response.bodyReadFailure = none ∧ response.bodyTruncated = false := by
    constructor
    · rintro (h | h)
      · exact absurd hstatus h
      · exact h
    · exact .inr
  rw [hconsulted, acknowledgement]
  cases hfail : response.bodyReadFailure with
  | some failure => exact iff_of_true ⟨hstatus, rfl, rfl⟩ (by simp)
  | none =>
      cases htrunc : response.bodyTruncated with
      | true => exact iff_of_true ⟨hstatus, rfl, rfl⟩ (by simp)
      | false =>
          rcases parse_cases i response.body with ⟨hover, hparse⟩ | ⟨hover, v, hparse⟩
          · rw [hparse]
            exact iff_of_false (fun h => h) (fun h => h ⟨⟨rfl, rfl⟩, hover⟩)
          · rw [hparse]
            refine iff_of_true ?_ (fun h => hover h.2)
            show Typed response attempts (match envelopeFields v with
              | some (message, eventKey, properties) =>
                  .ok ⟨message, eventKey, properties, response.body⟩
              | none => .error (.responseDecode
                  ⟨"response body is not a valid success envelope".toList, response.body, attempts,
                    none⟩))
            cases envelopeFields v with
            | none => exact ⟨hstatus, rfl, rfl⟩
            | some fields => exact ⟨hstatus, rfl⟩

/-- **Decoding stays within the typed errors exactly when no body it consults overflows the recursion
    limit.** -/
theorem decode_typed_iff (i : Interpreter) (response : ReceivedResponse) (attempts : Nat) :
    Typed response attempts (decode i response attempts) ↔
      ¬ (Consulted response ∧ BodyOverflows i response.body) := by
  rw [decode]
  by_cases hstatus : response.statusCode = 200
  · rw [if_pos hstatus]
    exact acknowledgement_typed_iff i attempts hstatus
  · rw [if_neg hstatus]
    rcases parse_cases i response.body with ⟨hover, hparse⟩ | ⟨hover, v, hparse⟩
    · rw [hparse]
      exact iff_of_false (fun h => h) (fun h => h ⟨.inl hstatus, hover⟩)
    · rw [hparse]
      refine iff_of_true ?_ (fun h => hover h.2)
      show Typed response attempts (match errorEnvelope v with
        | some (message, code) => .error (errorType response.statusCode
            ⟨response.statusCode, message, code, response.body, attempts⟩)
        | none => .error (errorType response.statusCode
            ⟨response.statusCode, fallbackMessage response, none, response.body, attempts⟩))
      cases errorEnvelope v with
      | none => exact errorType_typed hstatus ⟨rfl, rfl, rfl⟩
      | some fields => exact errorType_typed hstatus ⟨rfl, rfl, rfl⟩

theorem utf8_brackets (n : Nat) : utf8 (List.replicate n '[') = List.replicate n 0x5B := by
  induction n with
  | zero => rfl
  | succ n ih =>
      rw [List.replicate_succ, utf8_cons, ih, show String.utf8EncodeChar '[' = [0x5B] by decide]
      rfl

theorem utf16_brackets (n : Nat) : utf16 (List.replicate n '[') = List.replicate n (unit '[') :=
  utf16_replicate n (by decide)

/-- A body of more opening brackets than the recursion limit overflows it. -/
theorem brackets_overflow {i : Interpreter} {n : Nat} (h : i.recursionLimit < n) :
    BodyOverflows i (List.replicate n 0x5B) := by
  refine ⟨List.replicate n '[', utf8_brackets n, ?_⟩
  obtain ⟨k, rfl⟩ : ∃ k, n = i.recursionLimit + 1 + k := ⟨n - (i.recursionLimit + 1), by omega⟩
  have hws : skipWs (List.replicate (i.recursionLimit + 1 + k) (unit '['))
      = List.replicate (i.recursionLimit + 1 + k) (unit '[') := by
    rw [show i.recursionLimit + 1 + k = i.recursionLimit + k + 1 by omega, List.replicate_succ]
    exact skipWs_append .nil (.cons (by decide))
  rw [utf16_brackets, hws, List.replicate_add]
  exact overflows_brackets _ _ _

/-- A 401 whose body opens 65,536 arrays ends in a `RecursionError`. -/
theorem decode_untyped_of_nested_arrays :
    ¬ Typed ⟨401, [], [], List.replicate 65536 0x5B, false, none⟩ 1
      (decode cpython ⟨401, [], [], List.replicate 65536 0x5B, false, none⟩ 1) := by
  have hover : BodyOverflows cpython (List.replicate 65536 0x5B) := brackets_overflow (by decide)
  rcases parse_cases cpython (List.replicate 65536 0x5B) with ⟨-, hparse⟩ | ⟨hnot, -⟩
  · rw [decode, if_neg (by decide), hparse]
    exact fun h => h
  · exact absurd hover hnot

end CekatEvents.Python
