/-
  CekatEvents.Ruby.Delivery — delivering an event in the Ruby client (`client.rb`, `retry_policy.rb`,
  `response_decoder.rb`).

  `deliver` is the loop of `Client#deliver` over its effects: one post of the transport, the clock, the
  jitter source and the sleeper.  Strings are bytes.  What `JSON.parse` and `Time.parse` make of a text is a
  parameter; the one raises a `ParserError` or an `EncodingError`, the other an `ArgumentError`, and all of
  these are rescued.

  Main results:

    • `run_deliver_eq_course`  — a scripted call is the course of its verdicts;
    • `ruby_call_contract_iff` — a call is refused before anything is posted, or it posts the body that was
      built up to the last attempt of the policy, pauses at most five seconds between two, and ends in the
      outcome that the last response demands, exactly when no retry is due after a `Retry-After` of more
      than nine digits.
-/
import CekatEvents.Arithmetic.Rounding
import CekatEvents.Encoding.Replacement
import CekatEvents.Http.Envelope
import CekatEvents.Http.RetryAfter
import CekatEvents.Retry.Policy
import CekatEvents.Ruby.Outcomes

namespace CekatEvents.Ruby.Delivery

open CekatEvents.Arithmetic CekatEvents.Effects CekatEvents.Encoding CekatEvents.Http CekatEvents.Retry

/-! ## §1. Responses and errors. -/

abbrev Bytes := List UInt8

/-- `Transport::Failure`, by its message. -/
structure Failure where
  message : Bytes

/-- `Transport::Response`: the headers in the order of its hash. -/
structure Response where
  status : Nat
  reason : Bytes
  headers : List (Bytes × List Bytes)
  body : Bytes
  bodyTruncated : Bool
  bodyReadFailure : Option Failure

/-- `header`: the first value of the first header of the name. -/
def Response.header (r : Response) (name : String) : Option Bytes :=
  (r.headers.find? fun e => sameName e.1 (octets name)).bind fun e => e.2.head?

structure Acknowledgement where
  success : Bool
  message : Bytes
  eventKey : Bytes
  validatedProperties : List Bytes
  rawBody : Bytes

/-- The fields of `ApiError` and its subclasses. -/
structure ApiError where
  message : Bytes
  status : Nat
  code : Option Bytes
  rawBody : Bytes
  attempts : Nat

structure ResponseDecodeError where
  message : Bytes
  rawBody : Bytes
  attempts : Nat
  cause : Option Failure

structure TransportError where
  message : Bytes
  attempts : Nat

/-- What a call raises once the event is built. -/
inductive Error where
  | transport (e : TransportError)
  | responseDecode (e : ResponseDecodeError)
  | authentication (e : ApiError)
  | eventDefinitionNotFound (e : ApiError)
  | api (e : ApiError)

/-- A result of the call. -/
abbrev Result := Except Error Acknowledgement

/-! ## §2. `response_decoder.rb`. -/

/-- The white space of `String#strip`. -/
def isStripped (b : UInt8) : Bool := b == 0x20 || decide (0x09 ≤ b ∧ b ≤ 0x0D) || b == 0

/-- `String#strip`. -/
def strip (text : Bytes) : Bytes := trimBytes isStripped text

/-- `fallback_message`. -/
def fallbackMessage (response : Response) : Bytes :=
  let reason := strip response.reason
  if reason = [] then Encoding.utf8 (statusText response.status) else reason

/-- The class of a status other than 200. -/
def errorClass (status : Nat) : ApiError → Error :=
  if status = 401 then .authentication
  else if status = 404 then .eventDefinitionNotFound
  else .api

section Decode

-- `JSON.parse`; none for what is rescued
variable (jsonParse : Bytes → Option Parsed)

def acknowledgement (response : Response) (attempts : Nat) : Result :=
  match response.bodyReadFailure with
  | some failure => .error (.responseDecode
      ⟨octets "response body could not be read", response.body, attempts, some failure⟩)
  | none =>
      if response.bodyTruncated then .error (.responseDecode
        ⟨octets "response body exceeds 65536 bytes", response.body, attempts, none⟩)
      else
        match jsonParse response.body with
        | none => .error (.responseDecode
            ⟨octets "response body is not valid JSON", response.body, attempts, none⟩)
        | some envelope =>
            match successFields envelope with
            | some fields => .ok
                ⟨true, fields.message, fields.eventKey, fields.validatedProperties, response.body⟩
            | none => .error (.responseDecode
                ⟨octets "response body is not a valid success envelope", response.body, attempts, none⟩)

/-- `error_envelope`. -/
def errorEnvelope (body : Bytes) : Option (Bytes × Option Bytes) := (jsonParse body).bind errorFields

/-- `decode`. -/
def decode (response : Response) (attempts : Nat) : Result :=
  if response.status = 200 then acknowledgement jsonParse response attempts
  else
    let (message, code) := (errorEnvelope jsonParse response.body).getD (fallbackMessage response, none)
    .error (errorClass response.status ⟨message, response.status, code, response.body, attempts⟩)

end Decode

/-! ## §3. `retry_policy.rb`. -/

def MAXIMUM_RETRY_AFTER_MS : Int := 5000

/-- `delay_bound_ms`. -/
def delayBoundMs (retryNumber : Nat) : Nat := min (100 * 2 ^ (max 1 (min 5 retryNumber) - 1)) 1000

/-- `Rational#to_i`. -/
def toI (q : ℚ) : Int := q.num.tdiv q.den

/-- A number of milliseconds: an integer, or `Float::INFINITY`. -/
inductive Milliseconds where
  | integer (n : Int)
  | infinity

/-- `parse_retry_after_ms`. -/
def parseRetryAfterMs (timeParse : Bytes → Option ℚ) (value : Option Bytes) (nowMs : Int) :
    Option Milliseconds :=
  let trimmed := strip (value.getD [])
  if trimmed = [] then none
  else if trimmed.all isDigitByte then
    some (if 9 < trimmed.length then .infinity else .integer (digitBytesNumber trimmed * 1000))
  else if isHttpDate Char.isDigit (byteChars trimmed) then
    (timeParse (trimmed ++ octets " UTC")).map fun time => .integer (max (toI (time * 1000) - nowMs) 0)
  else none

/-! ## §4. `client.rb`. -/

/-- What is posted: the same in every attempt. -/
structure Request where
  uri : Bytes
  headers : List (Bytes × Bytes)
  body : Bytes
  timeout : ℚ

/-- The effects of a call. -/
inductive Op where
  | post (request : Request)
  /-- `Time.now.to_r`. -/
  | now
  /-- `@random.rand(limit)`. -/
  | rand (limit : Nat)
  | sleep (seconds : Double)

/-- What an effect answers. -/
abbrev Op.Ret : Op → Type
  | post _ => Except Failure Response
  | now => ℚ
  | rand _ => Nat
  | sleep _ => Unit

/-- A program of the client. -/
abbrev Program (α : Type) := Prog Op Op.Ret α

/-- One effect. -/
abbrev perform (op : Op) : Program op.Ret := Prog.perform op

/-- `[jitter, retry_after_ms || 0].max`. -/
def longer (jitter : Int) (retryAfterMs : Option Milliseconds) : Milliseconds :=
  match retryAfterMs with
  | none => .integer (max jitter 0)
  | some (.integer ms) => .integer (max jitter ms)
  | some .infinity => .infinity

/-- `milliseconds / 1000.0`. -/
def Milliseconds.inSeconds : Milliseconds → Double
  | infinity => .infinite false
  | integer ms => nearest (decide (ms < 0)) |(ms : ℚ) / 1000| (abs_nonneg _)

/-- `backoff`. -/
def backoff (retryNumber : Nat) (retryAfterMs : Option Milliseconds) : Program Unit := do
  let jitter ← perform (.rand (delayBoundMs retryNumber + 1))
  perform (.sleep (longer jitter retryAfterMs).inSeconds)

/-- What leaves `deliver` when no response was received. -/
def transportError (attempt : Nat) : Error :=
  .transport ⟨octets "Cekat API request failed before a response was received", attempt⟩

section Deliver

variable (jsonParse : Bytes → Option Parsed) (timeParse : Bytes → Option ℚ)

/-- The parts of the loop of `deliver`. -/
def loop (request : Request) : Loop Op Op.Ret Failure Response Milliseconds Result where
  attempt := perform (.post request)
  retryable response := isRetryableStatus response.status
  requested response := do
    let now ← perform .now
    pure (parseRetryAfterMs timeParse (response.header "Retry-After") (toI (now * 1000)))
  short
    | .integer ms => decide (ms ≤ MAXIMUM_RETRY_AFTER_MS)
    | .infinity => false
  backoff := backoff
  failed attempt _ := .error (transportError attempt)
  decoded attempt response := decode jsonParse response attempt

/-- `deliver`, for at most `fuel` turns. -/
def deliver (request : Request) (retryCount fuel : Nat) : Program Result :=
  (loop jsonParse timeParse request).deliver (retryCount + 1) fuel 1

end Deliver

/-- What a client is constructed with; its base URL is an origin. -/
structure Client where
  accessToken : Bytes
  baseUrl : Bytes
  timeout : ℚ
  retryCount : Nat
  /-- The values of `VERSION` and `RUBY_VERSION`. -/
  version : Bytes
  rubyVersion : Bytes

/-- What is posted for a body. -/
def Client.request (client : Client) (text : List CodeUnit) : Request where
  uri := client.baseUrl ++ octets "/api/events/ingest"
  headers := [(octets "Authorization", octets "Bearer " ++ client.accessToken),
    (octets "Content-Type", octets "application/json"),
    (octets "User-Agent", octets "cekat-event-sdk-ruby/" ++ client.version ++ octets " ruby/" ++
      client.rubyVersion)]
  body := Encoding.utf8 (ofUtf16Lossy text)
  timeout := client.timeout

section Track

variable (platform : Platform) (jsonParse : Bytes → Option Parsed) (timeParse : Bytes → Option ℚ)

/-- `track`: the event is built once, before anything is posted. -/
def Client.track (client : Client) (seams : Seams) (heap : Heap) (eventKey : Field) (isCommon : Bool)
    (event : Option EventInput) (currentVisitorId : Field) (fuel : Nat) : Program (Except Raised Result) :=
  match build platform seams heap eventKey isCommon event currentVisitorId with
  | .error raised => pure (.error raised)
  | .ok text => do
      let result ← deliver jsonParse timeParse (client.request text) client.retryCount fuel
      pure (.ok result)

end Track

/-! ## §5. Scripted calls. -/

/-- What happens to the attempts of a call, counted from one, and what the jitter source and the clock say
    after each. -/
structure Script where
  outcome : Nat → Except Failure Response
  rand : Nat → Nat → Nat
  clock : Nat → ℚ

/-- What a run records. -/
abbrev Seen := Journal Request Double

/-- The environment of a script. -/
def Script.handler (script : Script) : Handler Op Op.Ret Seen
  | .post request, j => (script.outcome (j.tried + 1), j.attempt request)
  | .now, j => (script.clock j.tried, j)
  | .rand limit, j => (script.rand j.tried limit, j)
  | .sleep seconds, j => ((), j.sleep seconds)

section Scripted

variable (jsonParse : Bytes → Option Parsed) (timeParse : Bytes → Option ℚ) (request : Request)

/-- **What a script answers to the parts of the loop.** -/
def Script.environment (script : Script) :
    Environment (loop jsonParse timeParse request) script.handler request where
  outcome := script.outcome
  asked n response :=
    parseRetryAfterMs timeParse (response.header "Retry-After") (toI (script.clock n * 1000))
  pause n retryAfter := (longer (script.rand n (delayBoundMs n + 1)) retryAfter).inSeconds
  attempt_run _ := rfl
  requested_run _ _ := rfl
  backoff_run _ _ := rfl

/-- **A scripted call is the course of its verdicts.** -/
theorem run_deliver_eq_course (script : Script) (retryCount fuel : Nat) :
    run script.handler (deliver jsonParse timeParse request retryCount fuel) Journal.empty =
      (course ((script.environment jsonParse timeParse request).verdict retryCount) fuel 1).map fun c =>
        (c.result, ⟨c.sleeps.length + 1, c.log request⟩) :=
  Retry.run_deliver_eq_course _ retryCount fuel

end Scripted

/-! ## §6. What is asked of a call. -/

/-- The first value of the first `Retry-After` of a response, whatever the case of its name, stripped. -/
def Response.retryAfter (r : Response) : Bytes :=
  strip (((r.headers.find? fun e => e.1.map lowerByte == octets "retry-after").bind fun e => e.2.head?).getD [])

/-- A response, as far as its outcome depends on it. -/
def Response.answered (r : Response) : Answered where
  status := r.status
  reason := strip r.reason
  body := r.body
  whole := r.bodyReadFailure.isNone && !r.bodyTruncated

/-- A result that reports an outcome of a response, after so many attempts. -/
def Reports (response : Response) (attempts : Nat) : Result → Outcome → Prop
  | .ok a, .acknowledged fields =>
      a = ⟨true, fields.message, fields.eventKey, fields.validatedProperties, response.body⟩
  | .error (.responseDecode e), .undecodable => e.rawBody = response.body ∧ e.attempts = attempts
  | .error (.authentication e), .authentication message code =>
      e = ⟨message, response.status, code, response.body, attempts⟩
  | .error (.eventDefinitionNotFound e), .eventDefinitionNotFound message code =>
      e = ⟨message, response.status, code, response.body, attempts⟩
  | .error (.api e), .api message code => e = ⟨message, response.status, code, response.body, attempts⟩
  | _, _ => False

/-- **The result that what happened to an attempt demands.** -/
def Typed (jsonParse : Bytes → Option Parsed) (outcome : Except Failure Response) (attempts : Nat)
    (result : Result) : Prop :=
  match outcome with
  | .error _ => ∃ e, result = .error (.transport e) ∧ e.attempts = attempts
  | .ok response => ∃ demanded, Demands jsonParse response.answered demanded ∧
      Reports response attempts result demanded

/-- An instant on a clock of whole milliseconds, in seconds. -/
def wholeMillis (seconds : ℚ) : ℚ := (toI (seconds * 1000) : ℚ) / 1000

section Demanded

variable (script : Script) (timeParse : Bytes → Option ℚ)

/-- What the policy is told of an attempt. -/
def Script.answer (n : Nat) : Answer :=
  match script.outcome n with
  | .error _ => .nothing
  | .ok response => .response response.status (askedSeconds Char.isDigit
      ((timeParse (response.retryAfter ++ octets " UTC")).map wholeMillis) (wholeMillis (script.clock n))
      (byteChars response.retryAfter))

/-- The policy repeats an attempt. -/
def Script.repeated (n : Nat) : Bool := decide (script.answer timeParse n).Repeated

/-- The milliseconds of jitter before a retry: the bound doubles from a hundred up to a thousand. -/
def Script.drawn (n : Nat) : Nat := script.rand n (min (100 * 2 ^ (n - 1)) 1000 + 1)

/-- The seconds to pause before a retry. -/
def Script.pause (n : Nat) : ℚ := max ((script.drawn n : ℚ) / 1000) (script.answer timeParse n).asked

/-- The double nearest to a number of seconds. -/
def seconds (q : ℚ) : Double := nearest false |q| (abs_nonneg q)

/-- An attempt is answered by a `Retry-After` of more than nine digits. -/
def Script.AnsweredOverlong (n : Nat) : Prop :=
  ∃ response, script.outcome n = .ok response ∧ Overlong (byteChars response.retryAfter)

/-- **What a delivery owes its caller**: it posts the request up to the last attempt of the policy, pauses
    between two attempts, and ends in the result that the last one demands. -/
structure Script.Delivers (jsonParse : Bytes → Option Parsed) (retryCount : Nat) (request : Request)
    (call : Option (Except Raised Result × Seen)) (k : Nat) (result : Result) : Prop where
  last : LastAttempt (script.repeated timeParse) retryCount k
  runs : call = some (.ok result, ⟨k, ((List.range (k - 1)).flatMap fun n =>
    [.attempt request, .sleep (seconds (script.pause timeParse (n + 1)))]) ++ [.attempt request]⟩)
  drawn_le : ∀ n, 1 ≤ n → n < k → script.drawn n ≤ min (100 * 2 ^ (n - 1)) 1000
  pause_bounds : ∀ n, 1 ≤ n → n < k → 0 ≤ script.pause timeParse n ∧ script.pause timeParse n ≤ 5 ∧
    (script.answer timeParse n).asked ≤ script.pause timeParse n
  typed : Typed jsonParse (script.outcome k) k result

/-- **What a call owes its caller**: it is refused before anything is posted, or it delivers the one body
    that was built. -/
def Script.Contract (platform : Platform) (jsonParse : Bytes → Option Parsed) (client : Client) (seams : Seams)
    (heap : Heap) (eventKey : Field) (isCommon : Bool) (event : Option EventInput)
    (currentVisitorId : Field) (fuel : Nat) : Prop :=
  let call := run script.handler (client.track platform jsonParse timeParse seams heap eventKey isCommon
    event currentVisitorId fuel) Journal.empty
  (∃ raised, build platform seams heap eventKey isCommon event currentVisitorId = .error raised ∧
    call = some (.error raised, Journal.empty)) ∨
  ∃ text, build platform seams heap eventKey isCommon event currentVisitorId = .ok text ∧
    ∃ k result, script.Delivers timeParse jsonParse client.retryCount (client.request text) call k result

end Demanded

/-! ## §7. What a call does. -/

section Decoding

variable (jsonParse : Bytes → Option Parsed)

theorem fallbackMessage_reason {response : Response} (h : response.answered.reason ≠ []) :
    fallbackMessage response = response.answered.reason := if_neg h

theorem fallbackMessage_status {response : Response} (h : response.answered.reason = []) :
    fallbackMessage response = Encoding.utf8 (statusText response.answered.status) := if_pos h

/-- A 200 is acknowledged when its whole body is a success envelope. -/
theorem acknowledgement_reports {response : Response} (attempts : Nat) (h200 : response.status = 200) :
    ∃ demanded, Demands jsonParse response.answered demanded ∧
      Reports response attempts (acknowledgement jsonParse response attempts) demanded := by
  have hrefused : (response.answered.whole = true →
      (jsonParse response.body).bind successFields = none) →
      ∀ e, acknowledgement jsonParse response attempts = .error (.responseDecode e) →
      e.rawBody = response.body → e.attempts = attempts →
      ∃ demanded, Demands jsonParse response.answered demanded ∧
        Reports response attempts (acknowledgement jsonParse response attempts) demanded := by
    intro hnone e he hbody hattempts
    rw [he]
    exact ⟨.undecodable, .undecodable h200 (not_acknowledges hnone), hbody, hattempts⟩
  cases hfailure : response.bodyReadFailure with
  | some failure =>
      apply hrefused
      · intro hwhole
        rw [Response.answered, hfailure] at hwhole
        cases hwhole
      · unfold acknowledgement
        rw [hfailure]
      · rfl
      · rfl
  | none =>
      cases htruncated : response.bodyTruncated with
      | true =>
          apply hrefused
          · intro hwhole
            rw [Response.answered, hfailure, htruncated] at hwhole
            cases hwhole
          · unfold acknowledgement
            rw [hfailure, htruncated]
            rfl
          · rfl
          · rfl
      | false =>
          have hwhole : response.answered.whole = true := by
            rw [Response.answered, hfailure, htruncated]
            rfl
          cases hparse : jsonParse response.body with
          | none =>
              apply hrefused
              · exact fun _ => by rw [hparse]; rfl
              · unfold acknowledgement
                rw [hfailure, htruncated, hparse]
                rfl
              · rfl
              · rfl
          | some envelope =>
              cases hfields : successFields envelope with
              | none =>
                  apply hrefused
                  · exact fun _ => by rw [hparse, Option.bind_some, hfields]
                  · unfold acknowledgement
                    rw [hfailure, htruncated, hparse]
                    simp only [hfields]
                    rfl
                  · rfl
                  · rfl
              | some fields =>
                  refine ⟨.acknowledged fields, .acknowledged h200
                    ⟨hwhole, envelope, hparse, successFields_iff.mp hfields⟩, ?_⟩
                  unfold acknowledgement
                  rw [hfailure, htruncated, hparse]
                  simp only [hfields]
                  rfl

/-- What the decoder makes of a response is what the response demands. -/
theorem decode_reports (response : Response) (attempts : Nat) :
    ∃ demanded, Demands jsonParse response.answered demanded ∧
      Reports response attempts (decode jsonParse response attempts) demanded := by
  unfold decode
  by_cases h200 : response.status = 200
  · rw [if_pos h200]
    exact acknowledgement_reports jsonParse attempts h200
  · rw [if_neg h200]
    have hexplains : response.answered.Explains jsonParse
        ((errorEnvelope jsonParse response.body).getD (fallbackMessage response, none)).1
        ((errorEnvelope jsonParse response.body).getD (fallbackMessage response, none)).2 :=
      explains_getD fallbackMessage_reason fallbackMessage_status
    unfold errorClass
    by_cases h401 : response.status = 401
    · rw [if_pos h401]
      exact ⟨_, .authentication h401 hexplains, rfl⟩
    · rw [if_neg h401]
      by_cases h404 : response.status = 404
      · rw [if_pos h404]
        exact ⟨_, .eventDefinitionNotFound h404 hexplains, rfl⟩
      · rw [if_neg h404]
        exact ⟨_, .api ⟨h200, h401, h404⟩ hexplains, rfl⟩

end Decoding

section Deeds

variable {script : Script} {jsonParse : Bytes → Option Parsed} {timeParse : Bytes → Option ℚ}
  {request : Request} {n : Nat}

/-- The loop ends in what its last attempt demands. -/
theorem result_typed (jsonParse : Bytes → Option Parsed) (timeParse : Bytes → Option ℚ) (request : Request)
    (script : Script) (n : Nat) :
    Typed jsonParse (script.outcome n) n ((script.environment jsonParse timeParse request).result n) := by
  have houtcome : (script.environment jsonParse timeParse request).outcome n = script.outcome n := rfl
  unfold Environment.result Typed
  rw [houtcome]
  cases script.outcome n with
  | error failure => exact ⟨_, rfl, rfl⟩
  | ok response => exact decode_reports jsonParse response n

/-- A value of more than nine digits is infinite; every other one is what it asks for, in whole
    milliseconds. -/
theorem parseRetryAfterMs_cases (timeParse : Bytes → Option ℚ) (response : Response) (now : ℚ) :
    if Overlong (byteChars response.retryAfter) then
      parseRetryAfterMs timeParse (response.header "Retry-After") (toI (now * 1000)) = some .infinity
    else ∃ ms : Option Int,
      parseRetryAfterMs timeParse (response.header "Retry-After") (toI (now * 1000)) = ms.map .integer ∧
      askedSeconds Char.isDigit ((timeParse (response.retryAfter ++ octets " UTC")).map wholeMillis)
        (wholeMillis now) (byteChars response.retryAfter) = ms.map fun ms : Int => (ms : ℚ) / 1000 := by
  have htext : strip ((response.header "Retry-After").getD []) = response.retryAfter := rfl
  unfold parseRetryAfterMs askedSeconds
  rw [htext]
  simp only
  generalize response.retryAfter = text
  have hlength : (byteChars text).length = text.length := List.length_map _
  by_cases hdigits : DigitString (byteChars text)
  · obtain ⟨hne, hall⟩ := digitString_byteChars.mp hdigits
    rw [if_neg hne, if_pos hall, if_pos hdigits]
    by_cases hlong : 9 < text.length
    · have hover : Overlong (byteChars text) := ⟨hdigits, by omega⟩
      rw [if_pos hover, if_pos hlong]
    · have hover : ¬ Overlong (byteChars text) := fun h => hlong (by have hlt := h.2; omega)
      rw [if_neg hover, if_neg hlong]
      refine ⟨some (digitBytesNumber text * 1000), rfl, ?_⟩
      rw [digitBytesNumber_eq_decimal, Option.map_some]
      push_cast
      rw [mul_div_assoc, div_self (by norm_num), mul_one]
  · have hover : ¬ Overlong (byteChars text) := fun h => hdigits h.1
    rw [if_neg hover, if_neg hdigits]
    by_cases hnil : text = []
    · subst hnil
      have hdate : ¬ HttpDate Char.isDigit (byteChars []) := by
        rw [← isHttpDate_iff]
        decide
      rw [if_pos rfl, if_neg hdate]
      exact ⟨none, rfl, rfl⟩
    · have hall : ¬ text.all isDigitByte = true := fun h => hdigits (digitString_byteChars.mpr ⟨hnil, h⟩)
      rw [if_neg hnil, if_neg hall]
      by_cases hdate : HttpDate Char.isDigit (byteChars text)
      · rw [if_pos (isHttpDate_iff.mpr hdate), if_pos hdate]
        refine ⟨(timeParse (text ++ octets " UTC")).map fun time => max (toI (time * 1000) - toI (now * 1000)) 0,
          ?_, ?_⟩
        · rw [Option.map_map]
          rfl
        · rw [Option.map_map, Option.map_map]
          congr 1
          funext time
          show max 0 ((toI (time * 1000) : ℚ) / 1000 - (toI (now * 1000) : ℚ) / 1000) =
            ((max (toI (time * 1000) - toI (now * 1000)) 0 : Int) : ℚ) / 1000
          rw [max_comm, Int.cast_max, Int.cast_sub, Int.cast_zero, ← sub_div,
            ← max_div_div_right (by norm_num : (0 : ℚ) ≤ 1000), zero_div]
      · rw [if_neg (fun h => hdate (isHttpDate_iff.mp h)), if_neg hdate]
        exact ⟨none, rfl, rfl⟩

/-- What the policy is told of a response. -/
theorem answer_of_ok {response : Response} (hout : script.outcome n = .ok response) :
    script.answer timeParse n = .response response.status (askedSeconds Char.isDigit
      ((timeParse (response.retryAfter ++ octets " UTC")).map wholeMillis) (wholeMillis (script.clock n))
      (byteChars response.retryAfter)) := by
  unfold Script.answer
  rw [hout]

theorem answeredOverlong_iff {response : Response} (hout : script.outcome n = .ok response) :
    script.AnsweredOverlong n ↔ Overlong (byteChars response.retryAfter) := by
  constructor
  · rintro ⟨r, hok, hlong⟩
    rw [hout] at hok
    cases hok
    exact hlong
  · exact fun hlong => ⟨response, hout, hlong⟩

/-- Five thousand milliseconds are five seconds. -/
theorem short_iff (ms : Option Int) :
    (ms.map Milliseconds.integer).all (loop jsonParse timeParse request).short = true ↔
      (ms.map fun ms : Int => (ms : ℚ) / 1000).getD 0 ≤ 5 := by
  cases ms with
  | none => exact iff_of_true rfl (show (0 : ℚ) ≤ 5 by norm_num)
  | some ms =>
      show decide (ms ≤ 5000) = true ↔ (ms : ℚ) / 1000 ≤ 5
      rw [decide_eq_true_eq, div_le_iff₀ (by norm_num)]
      norm_num
      exact_mod_cast Iff.rfl

/-- **The loop repeats what the policy repeats**, but for a value of more than nine digits. -/
theorem retryable_iff (n : Nat) : (script.environment jsonParse timeParse request).retryable n = true ↔
    script.repeated timeParse n = true ∧ ¬ script.AnsweredOverlong n := by
  have houtcome : (script.environment jsonParse timeParse request).outcome n = script.outcome n := rfl
  unfold Script.repeated Environment.retryable Environment.requested
  rw [decide_eq_true_eq, houtcome]
  cases hout : script.outcome n with
  | error failure =>
      have hanswer : script.answer timeParse n = .nothing := by
        unfold Script.answer
        rw [hout]
      refine iff_of_true rfl ⟨?_, ?_⟩
      · rw [hanswer]
        trivial
      · rintro ⟨response, hok, -⟩
        rw [hout] at hok
        cases hok
  | ok response =>
      rw [answer_of_ok hout, answeredOverlong_iff hout, Bool.and_eq_true]
      show isRetryableStatus response.status = true ∧ (parseRetryAfterMs timeParse
        (response.header "Retry-After") (toI (script.clock n * 1000))).all _ = true ↔ (_ ∧ _) ∧ _
      have hcases := parseRetryAfterMs_cases timeParse response (script.clock n)
      rw [isRetryableStatus_iff]
      by_cases hlong : Overlong (byteChars response.retryAfter)
      · rw [if_pos hlong] at hcases
        rw [hcases]
        exact iff_of_false (fun h => Bool.noConfusion h.2) (fun h => h.2 hlong)
      · rw [if_neg hlong] at hcases
        obtain ⟨ms, hparse, hasked⟩ := hcases
        rw [hparse, hasked, short_iff, and_iff_left hlong]

/-- The bound of the jitter is that of the policy. -/
theorem delayBoundMs_eq {n : Nat} (h1 : 1 ≤ n) : delayBoundMs n = min (100 * 2 ^ (n - 1)) 1000 := by
  unfold delayBoundMs
  rw [show max 1 (min 5 n) = min n 5 by omega, min_doubling]

/-- The longer of two pauses in seconds. -/
theorem longer_inSeconds (jitter : Nat) (ms : Option Int) :
    (longer jitter (ms.map .integer)).inSeconds =
      seconds (max ((jitter : ℚ) / 1000) ((ms.map fun ms : Int => (ms : ℚ) / 1000).getD 0)) := by
  have hpause : ∀ m : Int, (Milliseconds.integer (max jitter m)).inSeconds =
      seconds (max ((jitter : ℚ) / 1000) ((m : ℚ) / 1000)) := by
    intro m
    have hpos : ¬ max (jitter : Int) m < 0 := by omega
    have hcast : ((max (jitter : Int) m : Int) : ℚ) / 1000 = max ((jitter : ℚ) / 1000) ((m : ℚ) / 1000) := by
      rw [Int.cast_max, Int.cast_natCast, max_div_div_right (by norm_num : (0 : ℚ) ≤ 1000)]
    unfold Milliseconds.inSeconds seconds
    simp only [decide_eq_false hpos, hcast]
  cases ms with
  | none =>
      have hzero := hpause 0
      rw [Int.cast_zero, zero_div] at hzero
      exact hzero
  | some m => exact hpause m

/-- The loop pauses for as long as the policy has it, unless the value has more than nine digits. -/
theorem delay_eq_pause (h1 : 1 ≤ n) (hshort : ¬ script.AnsweredOverlong n) :
    (script.environment jsonParse timeParse request).delay n = seconds (script.pause timeParse n) := by
  have houtcome : (script.environment jsonParse timeParse request).outcome n = script.outcome n := rfl
  have hdrawn : script.rand n (delayBoundMs n + 1) = script.drawn n := by
    unfold Script.drawn
    rw [delayBoundMs_eq h1]
  unfold Environment.delay Environment.requested Script.pause
  rw [houtcome]
  show (longer (script.rand n (delayBoundMs n + 1)) _).inSeconds = _
  rw [hdrawn]
  cases hout : script.outcome n with
  | error failure =>
      have hanswer : script.answer timeParse n = .nothing := by
        unfold Script.answer
        rw [hout]
      rw [hanswer]
      exact longer_inSeconds (script.drawn n) none
  | ok response =>
      have hcases := parseRetryAfterMs_cases timeParse response (script.clock n)
      rw [answeredOverlong_iff hout] at hshort
      rw [if_neg hshort] at hcases
      obtain ⟨ms, hparse, hasked⟩ := hcases
      rw [answer_of_ok hout, hasked]
      show (longer (script.drawn n) (parseRetryAfterMs timeParse (response.header "Retry-After")
        (toI (script.clock n * 1000)))).inSeconds = _
      rw [hparse]
      exact longer_inSeconds (script.drawn n) ms

/-- A pause is not negative, not shorter than what was asked for, and at most five seconds. -/
theorem pause_bounds (hdrawn : script.drawn n ≤ min (100 * 2 ^ (n - 1)) 1000)
    (hrepeated : script.repeated timeParse n = true) :
    0 ≤ script.pause timeParse n ∧ script.pause timeParse n ≤ 5 ∧
      (script.answer timeParse n).asked ≤ script.pause timeParse n := by
  have hasked := (of_decide_eq_true hrepeated : (script.answer timeParse n).Repeated).asked_le
  have hle : (script.drawn n : ℚ) ≤ 1000 := by exact_mod_cast hdrawn.trans (Nat.min_le_right _ _)
  refine ⟨(by positivity : (0 : ℚ) ≤ (script.drawn n : ℚ) / 1000).trans (le_max_left _ _), ?_, le_max_right _ _⟩
  apply max_le
  · linarith
  · exact hasked

variable {retryCount fuel : Nat}

/-- A delivery that makes the attempts of the policy repeats whatever is due. -/
theorem retryable_of_delivers (hfuel : retryCount < fuel) {k : Nat} {result : Result}
    (h : script.Delivers timeParse jsonParse retryCount request
      ((run script.handler (deliver jsonParse timeParse request retryCount fuel) Journal.empty).map
        fun r => (.ok r.1, r.2)) k result)
    (hdue : Due (script.repeated timeParse) retryCount n) :
    (script.environment jsonParse timeParse request).retryable n = true := by
  obtain ⟨m, hm⟩ := exists_lastAttempt (script.environment jsonParse timeParse request).retryable retryCount
  have hruns := h.runs
  unfold deliver at hruns
  rw [run_deliver_lastAttempt (script.environment jsonParse timeParse request) hfuel hm, Option.map_some,
    Option.some.injEq, Prod.mk.injEq, Journal.mk.injEq] at hruns
  exact (lastAttempt_eq_iff (fun n hn => ((retryable_iff n).mp hn).1) hm h.last).mp hruns.2.1 n hdue

/-- A delivery that repeats whatever is due makes the attempts of the policy. -/
theorem delivers_of_retryable (hrand : ∀ n limit, 0 < limit → script.rand n limit < limit)
    (hfuel : retryCount < fuel) (hdue : ∀ n, Due (script.repeated timeParse) retryCount n →
      (script.environment jsonParse timeParse request).retryable n = true) :
    ∃ k result, script.Delivers timeParse jsonParse retryCount request
      ((run script.handler (deliver jsonParse timeParse request retryCount fuel) Journal.empty).map
        fun r => (.ok r.1, r.2)) k result := by
  obtain ⟨m, hm⟩ := exists_lastAttempt (script.environment jsonParse timeParse request).retryable retryCount
  obtain ⟨k, hk⟩ := exists_lastAttempt (script.repeated timeParse) retryCount
  have hmk : m = k := (lastAttempt_eq_iff (fun n hn => ((retryable_iff n).mp hn).1) hm hk).mpr hdue
  subst hmk
  have hdrawn : ∀ n, script.drawn n ≤ min (100 * 2 ^ (n - 1)) 1000 := by
    intro n
    exact Nat.le_of_lt_succ (hrand n _ (Nat.succ_pos _))
  refine ⟨m, (script.environment jsonParse timeParse request).result m, hk, ?_, fun n _ _ => hdrawn n, ?_,
    result_typed jsonParse timeParse request script m⟩
  · unfold deliver
    rw [run_deliver_lastAttempt (script.environment jsonParse timeParse request) hfuel hm, Option.map_some,
      log_congr fun n h1 hlt => delay_eq_pause h1 ((retryable_iff n).mp (hm.before n h1 hlt)).2]
  · intro n h1 hlt
    exact pause_bounds (hdrawn n) (hk.before n h1 hlt)

end Deeds

/-- **A call keeps its contract exactly when no retry is due after a `Retry-After` of more than nine
    digits**, whatever its attempts meet, if the jitter source keeps to the limit it is given. -/
theorem ruby_call_contract_iff (platform : Platform) (jsonParse : Bytes → Option Parsed)
    (timeParse : Bytes → Option ℚ) (client : Client) (seams : Seams) (heap : Heap) (eventKey : Field)
    (isCommon : Bool) (event : Option EventInput) (currentVisitorId : Field) (script : Script) (fuel : Nat)
    (hrand : ∀ n limit, 0 < limit → script.rand n limit < limit) (hfuel : client.retryCount < fuel) :
    script.Contract timeParse platform jsonParse client seams heap eventKey isCommon event currentVisitorId
        fuel ↔
      ∀ text, build platform seams heap eventKey isCommon event currentVisitorId = .ok text →
        ∀ n, Due (script.repeated timeParse) client.retryCount n → ¬ script.AnsweredOverlong n := by
  unfold Script.Contract Client.track
  cases build platform seams heap eventKey isCommon event currentVisitorId with
  | error raised =>
      refine iff_of_true (.inl ⟨raised, rfl, rfl⟩) ?_
      intro text htext
      cases htext
  | ok text =>
      have hcall : run script.handler (do
          let result ← deliver jsonParse timeParse (client.request text) client.retryCount fuel
          pure (Except.ok (ε := Raised) result)) Journal.empty =
          (run script.handler (deliver jsonParse timeParse (client.request text) client.retryCount fuel)
            Journal.empty).map fun r => (.ok r.1, r.2) := by
        rw [run_bind]
        cases run script.handler (deliver jsonParse timeParse (client.request text) client.retryCount fuel)
          Journal.empty with
        | none => rfl
        | some r => rfl
      simp only [hcall]
      constructor
      · rintro (⟨raised, hbuild, -⟩ | ⟨_, hbuild, k, result, hdelivers⟩) text' htext n hdue
        · cases hbuild
        · cases hbuild
          exact ((retryable_iff n).mp (retryable_of_delivers hfuel hdelivers hdue)).2
      · intro hshort
        refine .inr ⟨text, rfl, ?_⟩
        apply delivers_of_retryable hrand hfuel
        intro n hdue
        exact (retryable_iff n).mpr ⟨hdue.2.2 n hdue.1 le_rfl, hshort text rfl n hdue⟩

/-- A body that acknowledges an event. -/
def acceptedEnvelope : Parsed := .object [(octets "success", .bool true), (octets "data", .object
  [(octets "success", .bool true), (octets "message", .string (octets "accepted")),
    (octets "event_key", .string (octets "k")), (octets "validated_properties", .array [])])]

/-- A call that is not answered at first, then asked to wait for two seconds, and then acknowledged. -/
def recovering : Script where
  outcome
    | 1 => .error ⟨octets "connection reset"⟩
    | 2 => .ok ⟨503, [], [(octets "Retry-After", [octets " 2"])], [], false, none⟩
    | _ => .ok ⟨200, octets "OK", [], octets "accepted", false, none⟩
  rand _ limit := limit - 1
  clock _ := 0

theorem ruby_call_recovering :
    recovering.Contract (fun _ => none) utf8Platform (fun _ => some acceptedEnvelope)
      ⟨octets "t", octets "https://t.cekat.ai", 3, 2, [], []⟩ fixedSeams chain (.string (letter 'k')) true
      (some (emailEvent .nil)) .nil 3 := by
  refine (ruby_call_contract_iff _ _ _ _ _ _ _ _ _ _ recovering _ ?_ (by decide)).mpr ?_
  · intro _ limit hlimit
    show limit - 1 < limit
    omega
  · rintro text - n ⟨h1, hn, -⟩ ⟨response, hout, hlong⟩
    have hle : n ≤ 2 := hn
    have hcases : n = 1 ∨ n = 2 := by omega
    rcases hcases with rfl | rfl
    · cases hout
    · cases hout
      exact absurd hlong (by decide)

end CekatEvents.Ruby.Delivery
