/-
  CekatEvents.Php.Delivery — delivering an event in the PHP client (`Client.php`, `Internal/RetryPolicy.php`,
  `Internal/ResponseDecoder.php`, `Transport/TransportResponse.php`).

  `deliver` is the loop of `Client::deliver` over its effects: one request of the transport, the clock, the
  jitter source and the sleeper.  What `json_decode` and `strtotime` make of a text is a parameter; a
  `JsonException` is caught by both callers.

  Main results:

    • `run_deliver_eq_course` — a scripted call is the course of its verdicts;
    • `php_call_contract_iff` — a call is refused before anything is sent, or it sends the body that was built
      up to the last attempt of the policy, pauses at most five seconds between two, and ends in the outcome
      that the last response demands, exactly when no retry is due after a `Retry-After` of more than nine
      digits.
-/
import CekatEvents.Encoding.Replacement
import CekatEvents.Http.Envelope
import CekatEvents.Http.RetryAfter
import CekatEvents.Php.Outcomes
import CekatEvents.Retry.Policy

namespace CekatEvents.Php.Delivery

open CekatEvents.Effects CekatEvents.Encoding CekatEvents.Http CekatEvents.Retry

/-! ## §1. Responses and exceptions. -/

/-- A throwable that is kept as a cause, by its message. -/
abbrev Throwable := Bytes

/-- `TransportResponse`: the headers in the order of its array. -/
structure TransportResponse where
  status : Nat
  headers : List (Bytes × List Bytes)
  body : Bytes
  reasonPhrase : Bytes
  bodyTruncated : Bool
  bodyReadFailure : Option Throwable

/-- `header`: the first value of the first header of the name that has one. -/
def TransportResponse.header (r : TransportResponse) (name : String) : Option Bytes :=
  (r.headers.find? fun e => sameName e.1 (octets name) && !e.2.isEmpty).bind fun e => e.2.head?

structure Acknowledgement where
  success : Bool
  message : Bytes
  eventKey : Bytes
  validatedProperties : List Bytes
  rawBody : Bytes

/-- The fields of `ApiException` and its subclasses. -/
structure ApiException where
  message : Bytes
  statusCode : Nat
  serverCode : Option Bytes
  rawBody : Bytes
  attempts : Nat

structure ResponseDecodeException where
  message : Bytes
  rawBody : Bytes
  attempts : Nat
  previous : Option Throwable

structure TransportException where
  message : Bytes
  attempts : Nat
  previous : Throwable

/-- What a call throws once the event is built. -/
inductive Thrown where
  | transport (e : TransportException)
  | responseDecode (e : ResponseDecodeException)
  | authentication (e : ApiException)
  | eventDefinitionNotFound (e : ApiException)
  | api (e : ApiException)

/-- A result of the call. -/
abbrev Result := Except Thrown Acknowledgement

/-! ## §2. `ResponseDecoder`. -/

/-- `fallbackMessage`. -/
def fallbackMessage (response : TransportResponse) : Bytes :=
  let reason := trim response.reasonPhrase
  if reason = [] then utf8 (statusText response.status) else reason

/-- The class of a status other than 200. -/
def statusException (status : Nat) : ApiException → Thrown :=
  if status = 401 then .authentication
  else if status = 404 then .eventDefinitionNotFound
  else .api

section Decode

-- `json_decode` with objects, a depth of 512 and exceptions, which are given by their message
variable (jsonDecode : Bytes → Except Throwable Parsed)

/-- `acknowledgement`. -/
def acknowledgement (body : Bytes) (attempts : Nat) : Result :=
  match jsonDecode body with
  | .error error =>
      .error (.responseDecode ⟨octets "response body is not valid JSON", body, attempts, some error⟩)
  | .ok envelope =>
      match successFields envelope with
      | some fields => .ok ⟨true, fields.message, fields.eventKey, fields.validatedProperties, body⟩
      | none => .error (.responseDecode
          ⟨octets "response body is not a valid success envelope", body, attempts, none⟩)

/-- `errorEnvelope`. -/
def errorEnvelope (body : Bytes) : Option (Bytes × Option Bytes) :=
  match jsonDecode body with
  | .error _ => none
  | .ok envelope => errorFields envelope

/-- `decode`. -/
def decode (response : TransportResponse) (attempts : Nat) : Result :=
  if response.status = 200 then
    match response.bodyReadFailure with
    | some failure => .error (.responseDecode
        ⟨octets "response body could not be read", response.body, attempts, some failure⟩)
    | none =>
        if response.bodyTruncated then .error (.responseDecode
          ⟨octets "response body exceeds 65536 bytes", response.body, attempts, none⟩)
        else acknowledgement jsonDecode response.body attempts
  else
    let (message, code) := (errorEnvelope jsonDecode response.body).getD (fallbackMessage response, none)
    .error (statusException response.status ⟨message, response.status, code, response.body, attempts⟩)

end Decode

/-! ## §3. `RetryPolicy`. -/

def MAXIMUM_RETRY_AFTER_MS : Int := 5000

def PHP_INT_MAX : Int := 9223372036854775807

/-- `delayBoundMilliseconds`. -/
def delayBoundMilliseconds (retry : Nat) : Int := min (100 * 2 ^ (min (max retry 1) 5 - 1)) 1000

/-- `parseRetryAfterMilliseconds`. -/
def parseRetryAfterMilliseconds (strtotime : Bytes → Option Int) (value : Option Bytes)
    (nowMilliseconds : Int) : Option Int :=
  let trimmed := trim (value.getD [])
  if trimmed = [] then none
  else if trimmed.all isDigitByte then
    some (if 9 < trimmed.length then PHP_INT_MAX else digitBytesNumber trimmed * 1000)
  else if isHttpDate Char.isDigit (byteChars trimmed) then
    (strtotime trimmed).map fun timestamp => max 0 (timestamp * 1000 - nowMilliseconds)
  else none

/-! ## §4. `Client`. -/

/-- A `TransportRequest`, and the timeout it is sent with. -/
structure TransportRequest where
  method : Bytes
  url : Bytes
  headers : List (Bytes × Bytes)
  body : Bytes
  timeoutSeconds : ℚ

/-- The effects of a call. -/
inductive Op where
  | send (request : TransportRequest)
  /-- `(int) floor(microtime(true) * 1000)`. -/
  | now
  /-- The jitter source, with its maximum. -/
  | random (max : Int)
  | sleepMilliseconds (milliseconds : Int)

/-- What an effect answers: a `TransportFailure` is given by its message. -/
abbrev Op.Ret : Op → Type
  | send _ => Except Throwable TransportResponse
  | now => Int
  | random _ => Int
  | sleepMilliseconds _ => Unit

/-- A program of the client. -/
abbrev Program (α : Type) := Prog Op Op.Ret α

/-- One effect. -/
abbrev perform (op : Op) : Program op.Ret := Prog.perform op

/-- `backoff`. -/
def backoff (retry : Nat) (retryAfterMilliseconds : Option Int) : Program Unit := do
  let jitter ← perform (.random (delayBoundMilliseconds retry))
  perform (.sleepMilliseconds (max jitter (retryAfterMilliseconds.getD 0)))

/-- What leaves `deliver` when no response was received. -/
def transportException (attempt : Nat) (failure : Throwable) : Thrown :=
  .transport ⟨octets "Cekat API request failed before a response was received", attempt, failure⟩

section Deliver

variable (jsonDecode : Bytes → Except Throwable Parsed) (strtotime : Bytes → Option Int)

/-- The parts of the loop of `deliver`. -/
def loop (request : TransportRequest) : Loop Op Op.Ret Throwable TransportResponse Int Result where
  attempt := perform (.send request)
  retryable response := isRetryableStatus response.status
  requested response := do
    let now ← perform .now
    pure (parseRetryAfterMilliseconds strtotime (response.header "Retry-After") now)
  short retryAfter := decide (retryAfter ≤ MAXIMUM_RETRY_AFTER_MS)
  backoff := backoff
  failed attempt failure := .error (transportException attempt failure)
  decoded attempt response := decode jsonDecode response attempt

/-- `deliver`, for at most `fuel` turns. -/
def deliver (request : TransportRequest) (retryCount fuel : Nat) : Program Result :=
  (loop jsonDecode strtotime request).deliver (retryCount + 1) fuel 1

end Deliver

/-- `ClientOptions`, as its constructor lets them be; the base URL is an origin. -/
structure ClientOptions where
  baseUrl : Bytes
  timeoutSeconds : ℚ
  retryCount : Nat
  timeout_pos : 0 < timeoutSeconds
  /-- So that the attempts can be counted. -/
  retryCount_lt : retryCount < PHP_INT_MAX

/-- What a client is constructed with, and the version of PHP. -/
structure Client where
  accessToken : Bytes
  options : ClientOptions
  phpVersion : Bytes

/-- What is sent for a body. -/
def Client.request (client : Client) (text : List CodeUnit) : TransportRequest where
  method := octets "POST"
  url := client.options.baseUrl ++ octets "/api/events/ingest"
  headers := [(octets "Authorization", octets "Bearer " ++ client.accessToken),
    (octets "Content-Type", octets "application/json"),
    (octets "User-Agent", octets "cekat-event-sdk-php/0.4.0 php/" ++ client.phpVersion)]
  body := utf8 (ofUtf16Lossy text)
  timeoutSeconds := client.options.timeoutSeconds

section Track

variable (floats : Payload.FloatText) (jsonDecode : Bytes → Except Throwable Parsed)
  (strtotime : Bytes → Option Int)

/-- `track`: the event is built once, before anything is sent. -/
def Client.track (client : Client) (seams : Seams) (heap : Heap) (eventKey : Bytes) (isCommon : Bool)
    (event : EventInput) (current : Option Bytes) (fuel : Nat) : Program (Except Raised Result) :=
  match build floats seams heap eventKey isCommon event current with
  | .error raised => pure (.error raised)
  | .ok text => do
      let result ← deliver jsonDecode strtotime (client.request text) client.options.retryCount fuel
      pure (.ok result)

end Track

/-! ## §5. Scripted calls. -/

/-- What happens to the attempts of a call, counted from one, and what the jitter source and the clock say
    after each. -/
structure Script where
  outcome : Nat → Except Throwable TransportResponse
  random : Nat → Int → Int
  clock : Nat → Int

/-- What a run records. -/
abbrev Seen := Journal TransportRequest Int

/-- The environment of a script. -/
def Script.handler (script : Script) : Handler Op Op.Ret Seen
  | .send request, j => (script.outcome (j.tried + 1), j.attempt request)
  | .now, j => (script.clock j.tried, j)
  | .random max, j => (script.random j.tried max, j)
  | .sleepMilliseconds milliseconds, j => ((), j.sleep milliseconds)

section Scripted

variable (jsonDecode : Bytes → Except Throwable Parsed) (strtotime : Bytes → Option Int)
  (request : TransportRequest)

/-- **What a script answers to the parts of the loop.** -/
def Script.environment (script : Script) :
    Environment (loop jsonDecode strtotime request) script.handler request where
  outcome := script.outcome
  asked n response := parseRetryAfterMilliseconds strtotime (response.header "Retry-After") (script.clock n)
  pause n retryAfter := max (script.random n (delayBoundMilliseconds n)) (retryAfter.getD 0)
  attempt_run _ := rfl
  requested_run _ _ := rfl
  backoff_run _ _ := rfl

/-- **A scripted call is the course of its verdicts.** -/
theorem run_deliver_eq_course (script : Script) (retryCount fuel : Nat) :
    run script.handler (deliver jsonDecode strtotime request retryCount fuel) Journal.empty =
      (course ((script.environment jsonDecode strtotime request).verdict retryCount) fuel 1).map fun c =>
        (c.result, ⟨c.sleeps.length + 1, c.log request⟩) :=
  Retry.run_deliver_eq_course _ retryCount fuel

end Scripted

/-! ## §6. What is asked of a call. -/

/-- The first value of the first `Retry-After` of a response that has one, whatever the case of its name,
    trimmed. -/
def TransportResponse.retryAfter (r : TransportResponse) : Bytes :=
  trim (((r.headers.find? fun e => e.1.map lowerByte == octets "retry-after" && !e.2.isEmpty).bind
    fun e => e.2.head?).getD [])

/-- A response, as far as its outcome depends on it. -/
def TransportResponse.answered (r : TransportResponse) : Answered where
  status := r.status
  reason := trim r.reasonPhrase
  body := r.body
  whole := r.bodyReadFailure.isNone && !r.bodyTruncated

/-- A result that reports an outcome of a response, after so many attempts. -/
def Reports (response : TransportResponse) (attempts : Nat) : Result → Outcome → Prop
  | .ok a, .acknowledged fields =>
      a = ⟨true, fields.message, fields.eventKey, fields.validatedProperties, response.body⟩
  | .error (.responseDecode e), .undecodable => e.rawBody = response.body ∧ e.attempts = attempts
  | .error (.authentication e), .authentication message code =>
      e = ⟨message, response.status, code, response.body, attempts⟩
  | .error (.eventDefinitionNotFound e), .eventDefinitionNotFound message code =>
      e = ⟨message, response.status, code, response.body, attempts⟩
  | .error (.api e), .api message code => e = ⟨message, response.status, code, response.body, attempts⟩
  | _, _ => False

/-- **The result that what happened to an attempt demands.** -/
def Typed (jsonDecode : Bytes → Except Throwable Parsed) (outcome : Except Throwable TransportResponse)
    (attempts : Nat) (result : Result) : Prop :=
  match outcome with
  | .error failure => ∃ e, result = .error (.transport e) ∧ e.attempts = attempts ∧ e.previous = failure
  | .ok response => ∃ demanded,
      Demands (fun body => (jsonDecode body).toOption) response.answered demanded ∧
        Reports response attempts result demanded

section Demanded

variable (script : Script) (strtotime : Bytes → Option Int)

/-- What the policy is told of an attempt. -/
def Script.answer (n : Nat) : Answer :=
  match script.outcome n with
  | .error _ => .nothing
  | .ok response => .response response.status (askedSeconds Char.isDigit
      ((strtotime response.retryAfter).map Int.cast) ((script.clock n : ℚ) / 1000)
      (byteChars response.retryAfter))

/-- The policy repeats an attempt. -/
def Script.repeated (n : Nat) : Bool := decide (script.answer strtotime n).Repeated

/-- The bound of the jitter before a retry doubles from a hundred milliseconds up to a thousand. -/
def jitterBound (n : Nat) : Int := ((min (100 * 2 ^ (n - 1)) 1000 : Nat) : Int)

/-- The milliseconds of jitter before a retry. -/
def Script.drawn (n : Nat) : Int := script.random n (jitterBound n)

/-- The seconds to pause before a retry. -/
def Script.pause (n : Nat) : ℚ := max ((script.drawn n : ℚ) / 1000) (script.answer strtotime n).asked

/-- A number of seconds in whole milliseconds. -/
def milliseconds (seconds : ℚ) : Int := ⌊1000 * seconds⌋

/-- An attempt is answered by a `Retry-After` of more than nine digits. -/
def Script.AnsweredOverlong (n : Nat) : Prop :=
  ∃ response, script.outcome n = .ok response ∧ Overlong (byteChars response.retryAfter)

/-- **What a delivery owes its caller**: it sends the request up to the last attempt of the policy, pauses
    between two attempts, and ends in the result that the last one demands. -/
structure Script.Delivers (jsonDecode : Bytes → Except Throwable Parsed) (retryCount : Nat)
    (request : TransportRequest) (call : Option (Except Raised Result × Seen)) (k : Nat) (result : Result) :
    Prop where
  last : LastAttempt (script.repeated strtotime) retryCount k
  runs : call = some (.ok result, ⟨k, ((List.range (k - 1)).flatMap fun n =>
    [.attempt request, .sleep (milliseconds (script.pause strtotime (n + 1)))]) ++ [.attempt request]⟩)
  drawn_bounds : ∀ n, 1 ≤ n → n < k → 0 ≤ script.drawn n ∧ script.drawn n ≤ jitterBound n
  pause_bounds : ∀ n, 1 ≤ n → n < k → 0 ≤ script.pause strtotime n ∧ script.pause strtotime n ≤ 5 ∧
    (script.answer strtotime n).asked ≤ script.pause strtotime n
  typed : Typed jsonDecode (script.outcome k) k result

/-- **What a call owes its caller**: it is refused before anything is sent, or it delivers the one body that
    was built. -/
def Script.Contract (floats : Payload.FloatText) (jsonDecode : Bytes → Except Throwable Parsed)
    (client : Client) (seams : Seams) (heap : Heap) (eventKey : Bytes) (isCommon : Bool) (event : EventInput)
    (current : Option Bytes) (fuel : Nat) : Prop :=
  let call := run script.handler (client.track floats jsonDecode strtotime seams heap eventKey isCommon event
    current fuel) Journal.empty
  (∃ raised, build floats seams heap eventKey isCommon event current = .error raised ∧
    call = some (.error raised, Journal.empty)) ∨
  ∃ text, build floats seams heap eventKey isCommon event current = .ok text ∧
    ∃ k result, script.Delivers strtotime jsonDecode client.options.retryCount (client.request text) call k
      result

end Demanded

/-! ## §7. What a call does. -/

section Decoding

variable (jsonDecode : Bytes → Except Throwable Parsed)

theorem fallbackMessage_reason {response : TransportResponse} (h : response.answered.reason ≠ []) :
    fallbackMessage response = response.answered.reason := if_neg h

theorem fallbackMessage_status {response : TransportResponse} (h : response.answered.reason = []) :
    fallbackMessage response = utf8 (statusText response.answered.status) := if_pos h

/-- What the decoder takes of an error body is what its envelope has. -/
theorem errorEnvelope_eq (body : Bytes) :
    errorEnvelope jsonDecode body = (jsonDecode body).toOption.bind errorFields := by
  unfold errorEnvelope
  cases jsonDecode body with
  | error error => rfl
  | ok envelope => rfl

/-- A body is acknowledged when it is a success envelope, as long as it is whole. -/
theorem acknowledgement_reports {response : TransportResponse} (attempts : Nat)
    (h200 : response.status = 200) (hwhole : response.answered.whole = true) :
    ∃ demanded, Demands (fun body => (jsonDecode body).toOption) response.answered demanded ∧
      Reports response attempts (acknowledgement jsonDecode response.body attempts) demanded := by
  unfold acknowledgement
  cases hparse : jsonDecode response.body with
  | error error =>
      refine ⟨.undecodable, .undecodable h200 (not_acknowledges fun _ => ?_), rfl, rfl⟩
      show (jsonDecode response.body).toOption.bind successFields = none
      rw [hparse]
      rfl
  | ok envelope =>
      simp only
      cases hfields : successFields envelope with
      | none =>
          refine ⟨.undecodable, .undecodable h200 (not_acknowledges fun _ => ?_), rfl, rfl⟩
          show (jsonDecode response.body).toOption.bind successFields = none
          rw [hparse]
          exact hfields
      | some fields =>
          refine ⟨.acknowledged fields, .acknowledged h200 ⟨hwhole, envelope, ?_, successFields_iff.mp hfields⟩,
            rfl⟩
          show (jsonDecode response.body).toOption = some envelope
          rw [hparse]
          rfl

/-- What the decoder makes of a response is what the response demands. -/
theorem decode_reports (response : TransportResponse) (attempts : Nat) :
    ∃ demanded, Demands (fun body => (jsonDecode body).toOption) response.answered demanded ∧
      Reports response attempts (decode jsonDecode response attempts) demanded := by
  unfold decode
  by_cases h200 : response.status = 200
  · rw [if_pos h200]
    cases hfailure : response.bodyReadFailure with
    | some failure =>
        refine ⟨.undecodable, .undecodable h200 (not_acknowledges fun hwhole => ?_), rfl, rfl⟩
        rw [TransportResponse.answered, hfailure] at hwhole
        cases hwhole
    | none =>
        cases htruncated : response.bodyTruncated with
        | true =>
            refine ⟨.undecodable, .undecodable h200 (not_acknowledges fun hwhole => ?_), rfl, rfl⟩
            rw [TransportResponse.answered, hfailure, htruncated] at hwhole
            cases hwhole
        | false =>
            apply acknowledgement_reports jsonDecode attempts h200
            rw [TransportResponse.answered, hfailure, htruncated]
            rfl
  · rw [if_neg h200]
    have hexplains : response.answered.Explains (fun body => (jsonDecode body).toOption)
        ((errorEnvelope jsonDecode response.body).getD (fallbackMessage response, none)).1
        ((errorEnvelope jsonDecode response.body).getD (fallbackMessage response, none)).2 := by
      rw [errorEnvelope_eq]
      exact explains_getD fallbackMessage_reason fallbackMessage_status
    unfold statusException
    by_cases h401 : response.status = 401
    · rw [if_pos h401]
      exact ⟨_, .authentication h401 hexplains, rfl⟩
    · rw [if_neg h401]
      by_cases h404 : response.status = 404
      · rw [if_pos h404]
        exact ⟨_, .eventDefinitionNotFound h404 hexplains, rfl⟩
      · rw [if_neg h404]
        exact ⟨_, .api ⟨h200, h401, h404⟩ hexplains, rfl⟩

end Decoding

section Deeds

variable {script : Script} {jsonDecode : Bytes → Except Throwable Parsed} {strtotime : Bytes → Option Int}
  {request : TransportRequest} {n : Nat}

/-- The loop ends in what its last attempt demands. -/
theorem result_typed (jsonDecode : Bytes → Except Throwable Parsed) (strtotime : Bytes → Option Int)
    (request : TransportRequest) (script : Script) (n : Nat) : Typed jsonDecode (script.outcome n) n
    ((script.environment jsonDecode strtotime request).result n) := by
  have houtcome : (script.environment jsonDecode strtotime request).outcome n = script.outcome n := rfl
  unfold Environment.result Typed
  rw [houtcome]
  cases script.outcome n with
  | error failure => exact ⟨_, rfl, rfl, rfl⟩
  | ok response => exact decode_reports jsonDecode response n

/-- A value of more than nine digits is the greatest integer; every other one is what it asks for, in whole
    milliseconds. -/
theorem parseRetryAfter_cases (strtotime : Bytes → Option Int) (response : TransportResponse) (now : Int) :
    if Overlong (byteChars response.retryAfter) then
      parseRetryAfterMilliseconds strtotime (response.header "Retry-After") now = some PHP_INT_MAX
    else askedSeconds Char.isDigit ((strtotime response.retryAfter).map Int.cast) ((now : ℚ) / 1000)
        (byteChars response.retryAfter) =
      (parseRetryAfterMilliseconds strtotime (response.header "Retry-After") now).map
        fun ms : Int => (ms : ℚ) / 1000 := by
  have htext : trim ((response.header "Retry-After").getD []) = response.retryAfter := rfl
  unfold parseRetryAfterMilliseconds askedSeconds
  rw [htext]
  simp only
  generalize response.retryAfter = text
  have hlength : (byteChars text).length = text.length := List.length_map _
  by_cases hdigits : DigitString (byteChars text)
  · obtain ⟨hne, hall⟩ := digitString_byteChars.mp hdigits
    rw [if_neg hne, if_pos hall, if_pos hdigits]
    by_cases hlong : 9 < text.length
    · have hover : Overlong (byteChars text) := ⟨hdigits, by omega⟩
      rw [if_pos hover, if_pos hlong]
    · have hover : ¬ Overlong (byteChars text) := fun h => hlong (by have hlt := h.2; omega)
      rw [if_neg hover, if_neg hlong, digitBytesNumber_eq_decimal, Option.map_some]
      push_cast
      rw [mul_div_assoc, div_self (by norm_num), mul_one]
  · have hover : ¬ Overlong (byteChars text) := fun h => hdigits h.1
    rw [if_neg hover, if_neg hdigits]
    by_cases hnil : text = []
    · subst hnil
      have hdate : ¬ HttpDate Char.isDigit (byteChars []) := by
        rw [← isHttpDate_iff]
        decide
      rw [if_pos rfl, if_neg hdate]
      rfl
    · have hall : ¬ text.all isDigitByte = true := fun h => hdigits (digitString_byteChars.mpr ⟨hnil, h⟩)
      rw [if_neg hnil, if_neg hall]
      by_cases hdate : HttpDate Char.isDigit (byteChars text)
      · rw [if_pos (isHttpDate_iff.mpr hdate), if_pos hdate, Option.map_map, Option.map_map]
        congr 1
        funext time
        show max 0 ((time : ℚ) - (now : ℚ) / 1000) = ((max 0 (time * 1000 - now) : Int) : ℚ) / 1000
        push_cast
        rw [← max_div_div_right (by norm_num : (0 : ℚ) ≤ 1000), zero_div, sub_div, mul_div_assoc,
          div_self (by norm_num), mul_one]
      · rw [if_neg (fun h => hdate (isHttpDate_iff.mp h)), if_neg hdate]
        rfl

/-- What the policy is told of a response. -/
theorem answer_of_ok {response : TransportResponse} (hout : script.outcome n = .ok response) :
    script.answer strtotime n = .response response.status (askedSeconds Char.isDigit
      ((strtotime response.retryAfter).map Int.cast) ((script.clock n : ℚ) / 1000)
      (byteChars response.retryAfter)) := by
  unfold Script.answer
  rw [hout]

theorem answeredOverlong_iff {response : TransportResponse} (hout : script.outcome n = .ok response) :
    script.AnsweredOverlong n ↔ Overlong (byteChars response.retryAfter) := by
  constructor
  · rintro ⟨r, hok, hlong⟩
    rw [hout] at hok
    cases hok
    exact hlong
  · exact fun hlong => ⟨response, hout, hlong⟩

/-- Five thousand milliseconds are five seconds. -/
theorem short_iff (ms : Option Int) :
    ms.all (loop jsonDecode strtotime request).short = true ↔
      (ms.map fun ms : Int => (ms : ℚ) / 1000).getD 0 ≤ 5 := by
  cases ms with
  | none => exact iff_of_true rfl (show (0 : ℚ) ≤ 5 by norm_num)
  | some ms =>
      show decide (ms ≤ 5000) = true ↔ (ms : ℚ) / 1000 ≤ 5
      rw [decide_eq_true_eq, div_le_iff₀ (by norm_num)]
      norm_num
      exact_mod_cast Iff.rfl

/-- **The loop repeats what the policy repeats**, but for a value of more than nine digits. -/
theorem retryable_iff (n : Nat) : (script.environment jsonDecode strtotime request).retryable n = true ↔
    script.repeated strtotime n = true ∧ ¬ script.AnsweredOverlong n := by
  have houtcome : (script.environment jsonDecode strtotime request).outcome n = script.outcome n := rfl
  unfold Script.repeated Environment.retryable Environment.requested
  rw [decide_eq_true_eq, houtcome]
  cases hout : script.outcome n with
  | error failure =>
      have hanswer : script.answer strtotime n = .nothing := by
        unfold Script.answer
        rw [hout]
      refine iff_of_true rfl ⟨?_, ?_⟩
      · rw [hanswer]
        trivial
      · rintro ⟨response, hok, -⟩
        rw [hout] at hok
        cases hok
  | ok response =>
      rw [answer_of_ok hout, answeredOverlong_iff hout, Bool.and_eq_true]
      show isRetryableStatus response.status = true ∧ (parseRetryAfterMilliseconds strtotime
        (response.header "Retry-After") (script.clock n)).all _ = true ↔ (_ ∧ _) ∧ _
      have hcases := parseRetryAfter_cases strtotime response (script.clock n)
      rw [isRetryableStatus_iff]
      by_cases hlong : Overlong (byteChars response.retryAfter)
      · rw [if_pos hlong] at hcases
        rw [hcases]
        refine iff_of_false (fun h => ?_) (fun h => h.2 hlong)
        have hle : PHP_INT_MAX ≤ MAXIMUM_RETRY_AFTER_MS := of_decide_eq_true h.2
        exact absurd hle (by decide)
      · rw [if_neg hlong] at hcases
        rw [hcases, short_iff, and_iff_left hlong]

/-- The bound of the jitter is that of the policy. -/
theorem delayBoundMilliseconds_eq {n : Nat} (h1 : 1 ≤ n) : delayBoundMilliseconds n = jitterBound n := by
  unfold delayBoundMilliseconds jitterBound
  rw [← min_doubling, Nat.max_eq_left h1]
  push_cast
  rfl

/-- The longer of two pauses in milliseconds. -/
theorem max_milliseconds (jitter ms : Int) :
    max jitter ms = milliseconds (max ((jitter : ℚ) / 1000) ((ms : ℚ) / 1000)) := by
  unfold milliseconds
  rw [max_div_div_right (by norm_num : (0 : ℚ) ≤ 1000), mul_div_cancel₀ _ (by norm_num : (1000 : ℚ) ≠ 0),
    ← Int.cast_max, Int.floor_intCast]

/-- The loop pauses for as long as the policy has it, unless the value has more than nine digits. -/
theorem delay_eq_pause (h1 : 1 ≤ n) (hshort : ¬ script.AnsweredOverlong n) :
    (script.environment jsonDecode strtotime request).delay n =
      milliseconds (script.pause strtotime n) := by
  have houtcome : (script.environment jsonDecode strtotime request).outcome n = script.outcome n := rfl
  have hdrawn : script.random n (delayBoundMilliseconds n) = script.drawn n := by
    unfold Script.drawn
    rw [delayBoundMilliseconds_eq h1]
  unfold Environment.delay Environment.requested Script.pause
  rw [houtcome]
  show max (script.random n (delayBoundMilliseconds n)) (Option.getD _ 0) = _
  rw [hdrawn, max_milliseconds]
  congr 2
  cases hout : script.outcome n with
  | error failure =>
      have hanswer : script.answer strtotime n = .nothing := by
        unfold Script.answer
        rw [hout]
      rw [hanswer]
      show ((0 : Int) : ℚ) / 1000 = 0
      rw [Int.cast_zero, zero_div]
  | ok response =>
      have hcases := parseRetryAfter_cases strtotime response (script.clock n)
      rw [answeredOverlong_iff hout] at hshort
      rw [if_neg hshort] at hcases
      rw [answer_of_ok hout, hcases]
      show (((parseRetryAfterMilliseconds strtotime (response.header "Retry-After")
        (script.clock n)).getD 0 : Int) : ℚ) / 1000 = Option.getD _ 0
      cases parseRetryAfterMilliseconds strtotime (response.header "Retry-After") (script.clock n) with
      | none => rw [Option.map_none, Option.getD_none, Option.getD_none, Int.cast_zero, zero_div]
      | some ms => rfl

/-- A pause is not negative, not shorter than what was asked for, and at most five seconds. -/
theorem pause_bounds (hdrawn : 0 ≤ script.drawn n ∧ script.drawn n ≤ jitterBound n)
    (hrepeated : script.repeated strtotime n = true) :
    0 ≤ script.pause strtotime n ∧ script.pause strtotime n ≤ 5 ∧
      (script.answer strtotime n).asked ≤ script.pause strtotime n := by
  have hasked := (of_decide_eq_true hrepeated : (script.answer strtotime n).Repeated).asked_le
  have hbound : jitterBound n ≤ 1000 := by
    unfold jitterBound
    exact_mod_cast Nat.min_le_right _ _
  have hle : (script.drawn n : ℚ) ≤ 1000 := by exact_mod_cast hdrawn.2.trans hbound
  have hnonneg : (0 : ℚ) ≤ script.drawn n := by exact_mod_cast hdrawn.1
  refine ⟨(div_nonneg hnonneg (by norm_num)).trans (le_max_left _ _), ?_, le_max_right _ _⟩
  apply max_le
  · linarith
  · exact hasked

variable {retryCount fuel : Nat}

/-- A delivery that makes the attempts of the policy repeats whatever is due. -/
theorem retryable_of_delivers (hfuel : retryCount < fuel) {k : Nat} {result : Result}
    (h : script.Delivers strtotime jsonDecode retryCount request
      ((run script.handler (deliver jsonDecode strtotime request retryCount fuel) Journal.empty).map
        fun r => (.ok r.1, r.2)) k result)
    (hdue : Due (script.repeated strtotime) retryCount n) :
    (script.environment jsonDecode strtotime request).retryable n = true := by
  obtain ⟨m, hm⟩ := exists_lastAttempt (script.environment jsonDecode strtotime request).retryable retryCount
  have hruns := h.runs
  unfold deliver at hruns
  rw [run_deliver_lastAttempt (script.environment jsonDecode strtotime request) hfuel hm, Option.map_some,
    Option.some.injEq, Prod.mk.injEq, Journal.mk.injEq] at hruns
  exact (lastAttempt_eq_iff (fun n hn => ((retryable_iff n).mp hn).1) hm h.last).mp hruns.2.1 n hdue

/-- A delivery that repeats whatever is due makes the attempts of the policy. -/
theorem delivers_of_retryable
    (hrandom : ∀ n max, 0 ≤ max → 0 ≤ script.random n max ∧ script.random n max ≤ max)
    (hfuel : retryCount < fuel) (hdue : ∀ n, Due (script.repeated strtotime) retryCount n →
      (script.environment jsonDecode strtotime request).retryable n = true) :
    ∃ k result, script.Delivers strtotime jsonDecode retryCount request
      ((run script.handler (deliver jsonDecode strtotime request retryCount fuel) Journal.empty).map
        fun r => (.ok r.1, r.2)) k result := by
  obtain ⟨m, hm⟩ := exists_lastAttempt (script.environment jsonDecode strtotime request).retryable retryCount
  obtain ⟨k, hk⟩ := exists_lastAttempt (script.repeated strtotime) retryCount
  have hmk : m = k := (lastAttempt_eq_iff (fun n hn => ((retryable_iff n).mp hn).1) hm hk).mpr hdue
  subst hmk
  have hdrawn : ∀ n, 0 ≤ script.drawn n ∧ script.drawn n ≤ jitterBound n :=
    fun n => hrandom n _ (Int.natCast_nonneg _)
  refine ⟨m, (script.environment jsonDecode strtotime request).result m, hk, ?_, fun n _ _ => hdrawn n, ?_,
    result_typed jsonDecode strtotime request script m⟩
  · unfold deliver
    rw [run_deliver_lastAttempt (script.environment jsonDecode strtotime request) hfuel hm, Option.map_some,
      log_congr fun n h1 hlt => delay_eq_pause h1 ((retryable_iff n).mp (hm.before n h1 hlt)).2]
  · intro n h1 hlt
    exact pause_bounds (hdrawn n) (hk.before n h1 hlt)

end Deeds

/-- **A call keeps its contract exactly when no retry is due after a `Retry-After` of more than nine
    digits**, whatever its attempts meet, if the jitter source keeps to the maximum it is given. -/
theorem php_call_contract_iff (floats : Payload.FloatText) (jsonDecode : Bytes → Except Throwable Parsed)
    (strtotime : Bytes → Option Int) (client : Client) (seams : Seams) (heap : Heap) (eventKey : Bytes)
    (isCommon : Bool) (event : EventInput) (current : Option Bytes) (script : Script) (fuel : Nat)
    (hrandom : ∀ n max, 0 ≤ max → 0 ≤ script.random n max ∧ script.random n max ≤ max)
    (hfuel : client.options.retryCount < fuel) :
    script.Contract strtotime floats jsonDecode client seams heap eventKey isCommon event current fuel ↔
      ∀ text, build floats seams heap eventKey isCommon event current = .ok text →
        ∀ n, Due (script.repeated strtotime) client.options.retryCount n → ¬ script.AnsweredOverlong n := by
  unfold Script.Contract Client.track
  cases build floats seams heap eventKey isCommon event current with
  | error raised =>
      refine iff_of_true (.inl ⟨raised, rfl, rfl⟩) ?_
      intro text htext
      cases htext
  | ok text =>
      have hcall : run script.handler (do
          let result ← deliver jsonDecode strtotime (client.request text) client.options.retryCount fuel
          pure (Except.ok (ε := Raised) result)) Journal.empty =
          (run script.handler (deliver jsonDecode strtotime (client.request text) client.options.retryCount fuel)
            Journal.empty).map fun r => (.ok r.1, r.2) := by
        rw [run_bind]
        cases run script.handler (deliver jsonDecode strtotime (client.request text)
          client.options.retryCount fuel) Journal.empty with
        | none => rfl
        | some r => rfl
      simp only [hcall]
      constructor
      · rintro (⟨raised, hbuild, -⟩ | ⟨_, hbuild, k, result, hdelivers⟩) text' htext n hdue
        · cases hbuild
        · cases hbuild
          exact ((retryable_iff n).mp (retryable_of_delivers hfuel hdelivers hdue)).2
      · intro hshort
        refine .inr ⟨text, rfl, ?_⟩
        apply delivers_of_retryable hrandom hfuel
        intro n hdue
        exact (retryable_iff n).mpr ⟨hdue.2.2 n hdue.1 le_rfl, hshort text rfl n hdue⟩

/-- Options with two retries. -/
def twoRetries : ClientOptions := ⟨octets "https://t.cekat.ai", 3, 2, by norm_num, by decide⟩

/-- A body that acknowledges an event. -/
def acceptedEnvelope : Parsed := .object [(octets "success", .bool true), (octets "data", .object
  [(octets "success", .bool true), (octets "message", .string (octets "accepted")),
    (octets "event_key", .string (octets "k")), (octets "validated_properties", .array [])])]

/-- A call that is not answered at first, then asked to wait for two seconds, and then acknowledged. -/
def recovering : Script where
  outcome
    | 1 => .error (octets "connection reset")
    | 2 => .ok ⟨503, [(octets "Retry-After", [octets " 2"])], [], [], false, none⟩
    | _ => .ok ⟨200, [], octets "accepted", octets "OK", false, none⟩
  random _ max := max
  clock _ := 0

theorem php_call_recovering :
    recovering.Contract (fun _ => none) ⟨fun _ => JsonText.intNumeral 0, fun _ => JsonText.intNumeral_wellFormed 0⟩
      (fun _ => .ok acceptedEnvelope) ⟨octets "t", twoRetries, octets "8.3"⟩ ⟨Payload.noon, [0x69]⟩ nulKey
      [0x6B] true (emailEvent none) none 3 := by
  refine (php_call_contract_iff _ _ _ _ _ _ _ _ _ _ recovering _ ?_ (by decide)).mpr ?_
  · exact fun _ _ hmax => ⟨hmax, le_rfl⟩
  · rintro text - n ⟨h1, hn, -⟩ ⟨response, hout, hlong⟩
    have hle : n ≤ 2 := hn
    have hcases : n = 1 ∨ n = 2 := by omega
    rcases hcases with rfl | rfl
    · cases hout
    · cases hout
      exact absurd hlong (by decide)

end CekatEvents.Php.Delivery
