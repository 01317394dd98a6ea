/-
  CekatEvents.Clients.Convoy — three more delivery loops on the script of the other four.

  The loops of the Ruby and the PHP client are put together from the same parts, so that one lemma compares
  both with the plain loop; the loop of the .NET client is compared by itself.

  Main results:

    • `parts_verdict`   — a loop put together from parts does what the plain loop does, when its parts do;
    • `seven_agree_iff` — seven clients that meet one script make the same attempts and pauses and end in one
      report, exactly when Python does not overflow on the last body and .NET can read its strings.
-/
import CekatEvents.Clients.Lockstep
import CekatEvents.Dotnet.Scripted
import CekatEvents.Php.Delivery
import CekatEvents.Ruby.Delivery

namespace CekatEvents.Clients

open CekatEvents.Http CekatEvents.Effects CekatEvents.Retry CekatEvents.Arithmetic

/-! ## §1. Loops put together from parts. -/

section Demands

variable {status : Nat} {retryAfter : Option (List Char)} {body : List UInt8} {n : Int} {report : Report}

/-- What a 200 demands. -/
theorem demands_success (h : status = 200) : (Reply.response status retryAfter body).Demands n report ↔
    report = .acknowledged ∨ report = .responseDecode n := by
  show (if status = 200 then _ else _) ↔ _
  rw [if_pos h]

/-- What every other status demands. -/
theorem demands_other (h : status ≠ 200) : (Reply.response status retryAfter body).Demands n report ↔
    report = statusReport status n := by
  show (if status = 200 then _ else _) ↔ _
  rw [if_neg h]

/-- How an outcome is reported after so many attempts. -/
def outcomeReport (n : Int) : Outcome → Report
  | .acknowledged _ => .acknowledged
  | .undecodable => .responseDecode n
  | .authentication _ _ => .authentication n
  | .eventDefinitionNotFound _ _ => .eventDefinitionNotFound n
  | .api _ _ => .api n

/-- The outcome that a response demands is reported as its reply demands. -/
theorem demands_outcomeReport {parse : List UInt8 → Option Parsed} {a : Answered} {demanded : Outcome}
    (h : Http.Demands parse a demanded) :
    (Reply.response a.status retryAfter body).Demands n (outcomeReport n demanded) := by
  cases h with
  | acknowledged h200 _ => exact (demands_success h200).mpr (.inl rfl)
  | undecodable h200 _ => exact (demands_success h200).mpr (.inr rfl)
  | authentication h401 _ =>
      refine (demands_other (by omega)).mpr ?_
      unfold statusReport
      rw [if_pos h401]
      rfl
  | eventDefinitionNotFound h404 _ =>
      refine (demands_other (by omega)).mpr ?_
      unfold statusReport
      rw [if_neg (by omega), if_pos h404]
      rfl
  | api hstatus _ =>
      refine (demands_other hstatus.1).mpr ?_
      unfold statusReport
      rw [if_neg hstatus.2.1, if_neg hstatus.2.2]
      rfl

end Demands

section Parts

variable {Op : Type} {Ret : Op → Type} {φ r q ρ β δ : Type} {L : Loop Op Ret φ r q ρ}
  {h : Handler Op Ret (Journal β δ)} {request : β}

/-- An environment meets a reply: a response is retried and asks for what the reply does, `ask` being what
    milliseconds are to the loop. -/
def PartsMeet (E : Environment L h request) (ask : Nat → q) (n : Nat) : Reply → Prop
  | .noResponse => ∃ failure, E.outcome n = .error failure
  | .response status retryAfter _ => ∃ response, E.outcome n = .ok response ∧
      L.retryable response = isRetryableStatus status ∧
      E.asked n response = (requestedMillis retryAfter).map ask

/-- **A loop put together from parts does what the plain loop does**, when its parts do. -/
theorem parts_verdict {E : Environment L h request} {script : Script} (ask : Nat → q) {unit : Nat → δ}
    {n : Nat} (hmeets : PartsMeet E ask n (script.reply n))
    (hshort : ∀ ms, L.short (ask ms) = decide (ms ≤ 5000))
    (hpause : ∀ requested : Option Nat,
      E.pause n (requested.map ask) = unit (max (script.jitter n) (requested.getD 0))) (retryCount : Nat) :
    (script.verdict retryCount n).map unit E.result = E.verdict retryCount n := by
  have hrequested : E.requested n = (script.requested n).map ask := by
    unfold Environment.requested Script.requested
    cases hreply : script.reply n with
    | noResponse =>
        rw [hreply] at hmeets
        obtain ⟨failure, hout⟩ := hmeets
        rw [hout]
        rfl
    | response status retryAfter body =>
        rw [hreply] at hmeets
        obtain ⟨response, hout, -, hasked⟩ := hmeets
        rw [hout]
        exact hasked
  apply retryVerdict_map
  · unfold Script.retryable Environment.retryable
    cases hreply : script.reply n with
    | noResponse =>
        rw [hreply] at hmeets
        obtain ⟨failure, hout⟩ := hmeets
        rw [hout]
    | response status retryAfter body =>
        rw [hreply] at hmeets
        obtain ⟨response, hout, hstatus, -⟩ := hmeets
        rw [hout]
        simp only [hrequested, hstatus]
        congr 1
        cases script.requested n with
        | none => rfl
        | some ms => simp only [Option.map_some, Option.all_some, hshort]
  · intro _ _
    unfold Environment.delay Script.delay
    rw [hrequested, hpause]
  · rfl

end Parts

/-! ## §2. Bytes of a plain `Retry-After`. -/

section Bytes

variable {p : UInt8 → Bool} {text : List Char} {isDecimal : Char → Bool}

/-- Digits stay when what is trimmed is no digit. -/
theorem trimBytes_digits (hp : ∀ b, isDigitByte b = true → p b = false) (h : FewDigits text) :
    trimBytes p (Encoding.utf8 text) = Encoding.utf8 text :=
  trim_eq_self fun b hb => hp b (utf8_digits text true (fun c hc => List.all_eq_true.mp h.2.2 c hc) b hb)

/-- What trimming leaves of a text with no digit has none either. -/
theorem trimBytes_noDigit (h : NoDigit isDecimal text) :
    ∀ b ∈ trimBytes p (Encoding.utf8 text), isDigitByte b = false :=
  fun b hb => utf8_digits text false (fun c hc => (h c hc).2) b (mem_of_mem_trim hb)

/-- A text without a digit is no date. -/
theorem not_isHttpDate {bytes : List UInt8} (h : ∀ b ∈ bytes, isDigitByte b = false) :
    isHttpDate Char.isDigit (byteChars bytes) = false := by
  apply isHttpDate_eq_false
  intro c hc
  obtain ⟨b, hb, rfl⟩ := List.mem_map.mp hc
  have hvalid : (Char.ofNat b.toNat).toNat = b.toNat :=
    Encoding.toNat_ofNat_of_valid (.inl (Nat.lt_trans b.toNat_lt (by decide)))
  rw [Bool.eq_false_iff]
  intro hdigit
  have hrange := digit_range hdigit
  rw [hvalid] at hrange
  have hyes := isDigitByte_iff.mpr hrange
  rw [h b hb] at hyes
  cases hyes

theorem utf8_ne_nil (h : text ≠ []) : Encoding.utf8 text ≠ [] := by
  obtain ⟨c, rest, rfl⟩ := List.exists_cons_of_ne_nil h
  rw [Encoding.utf8_cons]
  exact fun hnil => String.utf8EncodeChar_ne_nil (List.append_eq_nil_iff.mp hnil).1

/-- **What a client of bytes makes of a plain value**: it trims, tests for digits, and leaves the rest to its
    reading of dates. -/
theorem bytes_requested {α : Type} (ask few : Nat → α) (many : α) (date : List UInt8 → Option α)
    {retryAfter : Option (List Char)} (h : Plain isDecimal retryAfter)
    (hp : ∀ b, isDigitByte b = true → p b = false) (hfew : ∀ seconds, few seconds = ask (seconds * 1000)) :
    (let trimmed := trimBytes p ((retryAfter.map Encoding.utf8).getD [])
      if trimmed = [] then none
      else if trimmed.all isDigitByte then
        some (if 9 < trimmed.length then many else few (digitBytesNumber trimmed))
      else if isHttpDate Char.isDigit (byteChars trimmed) then date trimmed
      else none) = (requestedMillis retryAfter).map ask := by
  cases retryAfter with
  | none => rfl
  | some text =>
      simp only [Option.map_some, Option.getD_some]
      rcases h with hdigits | hno
      · have hall : (Encoding.utf8 text).all isDigitByte = true := by
          rw [List.all_eq_true]
          exact utf8_digits text true fun c hc => List.all_eq_true.mp hdigits.2.2 c hc
        have hlength : (Encoding.utf8 text).length = text.length := by
          rw [utf8_of_digits hdigits.2.2, List.length_map]
        rw [trimBytes_digits hp hdigits, if_neg (utf8_ne_nil hdigits.1), if_pos hall, hlength,
          if_neg (Nat.not_lt.mpr hdigits.2.1), digitBytesNumber_utf8 hdigits.2.2,
          requestedMillis_digits hdigits, hfew]
        rfl
      · rw [requestedMillis_noDigit hno, Option.map_none]
        have hbytes : ∀ b ∈ trimBytes p (Encoding.utf8 text), isDigitByte b = false := trimBytes_noDigit hno
        by_cases hne : trimBytes p (Encoding.utf8 text) = []
        · rw [if_pos hne]
        · have hall : (trimBytes p (Encoding.utf8 text)).all isDigitByte = false := by
            obtain ⟨b, rest, hcons⟩ := List.exists_cons_of_ne_nil hne
            rw [hcons, List.all_cons, hbytes b (by rw [hcons]; exact List.mem_cons_self), Bool.false_and]
          rw [if_neg hne, hall, not_isHttpDate hbytes]
          rfl

end Bytes

/-! ## §3. The Ruby client. -/

section RubyClient

open Ruby.Delivery

variable {script : Script} {jsonParse : List UInt8 → Option Parsed} {timeParse : List UInt8 → Option ℚ}
  {request : Ruby.Delivery.Request} {ruby : Ruby.Delivery.Script} {isDecimal : Char → Bool} {n : Nat}

/-- An outcome of the Ruby client is the reply, its body retained up to the limit. -/
def RubyMeets (outcome : Except Failure Response) : Reply → Prop
  | .noResponse => ∃ failure, outcome = .error failure
  | .response status retryAfter body => ∃ r : Response, outcome = .ok r ∧ r.status = status ∧
      r.header "Retry-After" = retryAfter.map Encoding.utf8 ∧ r.body = body.take 65536 ∧
      r.bodyTruncated = decide (65536 < body.length) ∧ r.bodyReadFailure = none

/-- How a call of the Ruby client is reported. -/
def rubyReport : Ruby.Delivery.Result → Option Report
  | .ok _ => some .acknowledged
  | .error (.transport e) => some (.transport e.attempts)
  | .error (.responseDecode e) => some (.responseDecode e.attempts)
  | .error (.authentication e) => some (.authentication e.attempts)
  | .error (.eventDefinitionNotFound e) => some (.eventDefinitionNotFound e.attempts)
  | .error (.api e) => some (.api e.attempts)

/-- A number of milliseconds as the sleeper is given it. -/
def inRubySeconds (millis : Nat) : Double := (Milliseconds.integer millis).inSeconds

theorem ruby_requested {retryAfter : Option (List Char)} (h : Plain isDecimal retryAfter) (nowMs : Int) :
    parseRetryAfterMs timeParse (retryAfter.map Encoding.utf8) nowMs =
      (requestedMillis retryAfter).map fun ms => .integer ms := by
  have hspace : ∀ b, isDigitByte b = true → isStripped b = false := by
    intro b hb
    have hrange := isDigitByte_iff.mp hb
    unfold isStripped
    simp only [Bool.or_eq_false_iff, beq_eq_false_iff_ne, decide_eq_false_iff_not, UInt8.le_iff_toNat_le,
      ne_eq, ← UInt8.toNat_inj]
    show (¬ b.toNat = 32 ∧ ¬ (9 ≤ b.toNat ∧ b.toNat ≤ 13)) ∧ ¬ b.toNat = 0
    omega
  have hfew : ∀ seconds : Nat, Milliseconds.integer (seconds * 1000) =
      Milliseconds.integer ((seconds * 1000 : Nat) : Int) := by
    intro seconds
    rw [Nat.cast_mul]
    rfl
  exact bytes_requested (fun ms => Milliseconds.integer ms) (fun seconds => .integer (seconds * 1000)) .infinity
    (fun trimmed => (timeParse (trimmed ++ octets " UTC")).map fun time =>
      .integer (max (toI (time * 1000) - nowMs) 0)) h hspace hfew

/-- The Ruby client does what the plain loop does. -/
theorem ruby_verdict (hplain : ∀ n status retryAfter body,
      script.reply n = .response status retryAfter body → Plain isDecimal retryAfter)
    (hmeets : RubyMeets (ruby.outcome n) (script.reply n))
    (hjitter : ruby.rand n (delayBoundMs n + 1) = script.jitter n) (retryCount : Nat) :
    (script.verdict retryCount n).map inRubySeconds (ruby.environment jsonParse timeParse request).result =
      (ruby.environment jsonParse timeParse request).verdict retryCount n := by
  apply parts_verdict fun ms => Milliseconds.integer ms
  · cases hreply : script.reply n with
    | noResponse =>
        rw [hreply] at hmeets
        exact hmeets
    | response status retryAfter body =>
        rw [hreply] at hmeets
        obtain ⟨r, hout, hstatus, hheader, -⟩ := hmeets
        refine ⟨r, hout, ?_, ?_⟩
        · show isRetryableStatus r.status = _
          rw [hstatus]
        · show parseRetryAfterMs timeParse (r.header "Retry-After") _ = _
          rw [hheader]
          exact ruby_requested (hplain n status retryAfter body hreply) _
  · intro ms
    show decide ((ms : Int) ≤ 5000) = decide (ms ≤ 5000)
    rw [decide_eq_decide]
    omega
  · intro requested
    show (longer (ruby.rand n (delayBoundMs n + 1)) _).inSeconds = _
    rw [hjitter]
    cases requested with
    | none =>
        show (Milliseconds.integer (max (script.jitter n : Int) 0)).inSeconds = _
        unfold inRubySeconds
        rw [Option.getD_none, Nat.cast_max, Nat.cast_zero]
    | some ms =>
        show (Milliseconds.integer (max (script.jitter n : Int) ms)).inSeconds = _
        unfold inRubySeconds
        rw [Option.getD_some, Nat.cast_max]

/-- A result is reported as the outcome that it reports. -/
theorem ruby_reports {response : Response} {attempts : Nat} {result : Ruby.Delivery.Result}
    {demanded : Outcome} (h : Reports response attempts result demanded) :
    rubyReport result = some (outcomeReport attempts demanded) := by
  cases result with
  | ok a =>
      cases demanded with
      | acknowledged fields => rfl
      | _ => cases h
  | error e =>
      cases e with
      | transport e => cases h
      | responseDecode e =>
          cases demanded with
          | undecodable =>
              rw [rubyReport, h.2]
              rfl
          | _ => cases h
      | authentication e =>
          cases demanded with
          | authentication message code =>
              cases h
              rfl
          | _ => cases h
      | eventDefinitionNotFound e =>
          cases demanded with
          | eventDefinitionNotFound message code =>
              cases h
              rfl
          | _ => cases h
      | api e =>
          cases demanded with
          | api message code =>
              cases h
              rfl
          | _ => cases h

/-- What the Ruby client reports is what the reply demands. -/
theorem ruby_report (jsonParse : List UInt8 → Option Parsed) (timeParse : List UInt8 → Option ℚ)
    (request : Ruby.Delivery.Request) (hmeets : RubyMeets (ruby.outcome n) (script.reply n)) :
    ∃ report, rubyReport ((ruby.environment jsonParse timeParse request).result n) = some report ∧
      (script.reply n).Demands n report := by
  have htyped := result_typed jsonParse timeParse request ruby n
  cases hreply : script.reply n with
  | noResponse =>
      rw [hreply] at hmeets
      obtain ⟨failure, hout⟩ := hmeets
      simp only [Typed, hout] at htyped
      obtain ⟨e, hresult, hattempts⟩ := htyped
      rw [hresult, rubyReport, hattempts]
      exact ⟨_, rfl, rfl⟩
  | response status retryAfter body =>
      rw [hreply] at hmeets
      obtain ⟨r, hout, rfl, -⟩ := hmeets
      simp only [Typed, hout] at htyped
      obtain ⟨demanded, hdemands, hreports⟩ := htyped
      exact ⟨_, ruby_reports hreports, demands_outcomeReport hdemands⟩

end RubyClient

/-! ## §4. The PHP client. -/

section PhpClient

open Php.Delivery

variable {script : Script} {jsonDecode : List UInt8 → Except Throwable Parsed}
  {strtotime : List UInt8 → Option Int} {request : TransportRequest} {php : Php.Delivery.Script}
  {isDecimal : Char → Bool} {n : Nat}

/-- An outcome of the PHP client is the reply, its body retained up to the limit. -/
def PhpMeets (outcome : Except Throwable TransportResponse) : Reply → Prop
  | .noResponse => ∃ failure, outcome = .error failure
  | .response status retryAfter body => ∃ r : TransportResponse, outcome = .ok r ∧ r.status = status ∧
      r.header "Retry-After" = retryAfter.map Encoding.utf8 ∧ r.body = body.take 65536 ∧
      r.bodyTruncated = decide (65536 < body.length) ∧ r.bodyReadFailure = none

/-- How a call of the PHP client is reported. -/
def phpReport : Php.Delivery.Result → Option Report
  | .ok _ => some .acknowledged
  | .error (.transport e) => some (.transport e.attempts)
  | .error (.responseDecode e) => some (.responseDecode e.attempts)
  | .error (.authentication e) => some (.authentication e.attempts)
  | .error (.eventDefinitionNotFound e) => some (.eventDefinitionNotFound e.attempts)
  | .error (.api e) => some (.api e.attempts)

theorem php_requested {retryAfter : Option (List Char)} (h : Plain isDecimal retryAfter) (now : Int) :
    parseRetryAfterMilliseconds strtotime (retryAfter.map Encoding.utf8) now =
      (requestedMillis retryAfter).map Int.ofNat := by
  have hspace : ∀ b, isDigitByte b = true → Php.isTrimmed b = false := by
    intro b hb
    have hrange := isDigitByte_iff.mp hb
    unfold Php.isTrimmed
    simp only [Bool.or_eq_false_iff, beq_eq_false_iff_ne, ne_eq, ← UInt8.toNat_inj]
    show ((((¬ b.toNat = 32 ∧ ¬ b.toNat = 10) ∧ ¬ b.toNat = 13) ∧ ¬ b.toNat = 9) ∧ ¬ b.toNat = 11) ∧
      ¬ b.toNat = 0
    omega
  have htrim : ∀ text, Php.trim text = trimBytes Php.isTrimmed text := fun _ => rfl
  unfold parseRetryAfterMilliseconds
  rw [htrim]
  exact bytes_requested Int.ofNat (fun seconds => seconds * 1000) PHP_INT_MAX
    (fun trimmed => (strtotime trimmed).map fun timestamp => max 0 (timestamp * 1000 - now)) h hspace
    fun seconds => (Nat.cast_mul seconds 1000).symm

/-- The PHP client does what the plain loop does. -/
theorem php_verdict (hplain : ∀ n status retryAfter body,
      script.reply n = .response status retryAfter body → Plain isDecimal retryAfter)
    (hmeets : PhpMeets (php.outcome n) (script.reply n))
    (hjitter : php.random n (delayBoundMilliseconds n) = Int.ofNat (script.jitter n)) (retryCount : Nat) :
    (script.verdict retryCount n).map Int.ofNat (php.environment jsonDecode strtotime request).result =
      (php.environment jsonDecode strtotime request).verdict retryCount n := by
  apply parts_verdict Int.ofNat
  · cases hreply : script.reply n with
    | noResponse =>
        rw [hreply] at hmeets
        exact hmeets
    | response status retryAfter body =>
        rw [hreply] at hmeets
        obtain ⟨r, hout, hstatus, hheader, -⟩ := hmeets
        refine ⟨r, hout, ?_, ?_⟩
        · show isRetryableStatus r.status = _
          rw [hstatus]
        · show parseRetryAfterMilliseconds strtotime (r.header "Retry-After") _ = _
          rw [hheader]
          exact php_requested (hplain n status retryAfter body hreply) _
  · intro ms
    show decide ((ms : Int) ≤ 5000) = decide (ms ≤ 5000)
    rw [decide_eq_decide]
    omega
  · intro requested
    show max (php.random n (delayBoundMilliseconds n)) _ = _
    rw [hjitter]
    exact max_unit ofNat_mono rfl _ _

/-- A result is reported as the outcome that it reports. -/
theorem php_reports {response : TransportResponse} {attempts : Nat} {result : Php.Delivery.Result}
    {demanded : Outcome} (h : Reports response attempts result demanded) :
    phpReport result = some (outcomeReport attempts demanded) := by
  cases result with
  | ok a =>
      cases demanded with
      | acknowledged fields => rfl
      | _ => cases h
  | error e =>
      cases e with
      | transport e => cases h
      | responseDecode e =>
          cases demanded with
          | undecodable =>
              rw [phpReport, h.2]
              rfl
          | _ => cases h
      | authentication e =>
          cases demanded with
          | authentication message code =>
              cases h
              rfl
          | _ => cases h
      | eventDefinitionNotFound e =>
          cases demanded with
          | eventDefinitionNotFound message code =>
              cases h
              rfl
          | _ => cases h
      | api e =>
          cases demanded with
          | api message code =>
              cases h
              rfl
          | _ => cases h

/-- What the PHP client reports is what the reply demands. -/
theorem php_report (jsonDecode : List UInt8 → Except Throwable Parsed) (strtotime : List UInt8 → Option Int)
    (request : TransportRequest) (hmeets : PhpMeets (php.outcome n) (script.reply n)) :
    ∃ report, phpReport ((php.environment jsonDecode strtotime request).result n) = some report ∧
      (script.reply n).Demands n report := by
  have htyped := result_typed jsonDecode strtotime request php n
  cases hreply : script.reply n with
  | noResponse =>
      rw [hreply] at hmeets
      obtain ⟨failure, hout⟩ := hmeets
      simp only [Typed, hout] at htyped
      obtain ⟨e, hresult, hattempts, -⟩ := htyped
      rw [hresult, phpReport, hattempts]
      exact ⟨_, rfl, rfl⟩
  | response status retryAfter body =>
      rw [hreply] at hmeets
      obtain ⟨r, hout, rfl, -⟩ := hmeets
      simp only [Typed, hout] at htyped
      obtain ⟨demanded, hdemands, hreports⟩ := htyped
      exact ⟨_, php_reports hreports, demands_outcomeReport hdemands⟩

end PhpClient

/-! ## §5. The .NET client. -/

section DotnetClient

variable {script : Script} {tryParseExact : List Char → Option Int} {dotnet : Dotnet.Script}
  {isDecimal : Char → Bool} {n : Nat}

/-- An outcome of the .NET client is the reply, its body in chunks. -/
def DotnetMeets (outcome : Except Dotnet.Failure (Dotnet.Response × Dotnet.BodyStream)) : Reply → Prop
  | .noResponse => ∃ failure, outcome = .error failure
  | .response status retryAfter body => ∃ r stream, outcome = .ok (r, stream) ∧ r.statusCode = status ∧
      r.retryAfter.head? = retryAfter ∧ stream.chunks.flatten = body ∧ stream.ending = none

/-- How a call of the .NET client is reported. -/
def dotnetReport : Dotnet.Result → Option Report
  | .ok _ => some .acknowledged
  | .error (.transport e) => some (.transport e.attempts)
  | .error (.decoding (.responseDecode e)) => some (.responseDecode e.attempts)
  | .error (.decoding (.authentication e)) => some (.authentication e.attempts)
  | .error (.decoding (.eventDefinitionNotFound e)) => some (.eventDefinitionNotFound e.attempts)
  | .error (.decoding (.api e)) => some (.api e.attempts)
  | .error (.decoding .invalidOperation) => none
  | .error (.failure _) => none
  | .error .cancelled => none

/-- A number of milliseconds in ticks. -/
def inTicks (millis : Nat) : Dotnet.TimeSpan := millis * Dotnet.ticksPerMillisecond

theorem inTicks_le_iff {a b : Nat} : inTicks a ≤ inTicks b ↔ a ≤ b := by
  show (a : Int) * 10000 ≤ b * 10000 ↔ a ≤ b
  omega

theorem dotnet_limit (ms : Nat) : Dotnet.maximumRetryAfter < inTicks ms ↔ ¬ ms ≤ 5000 := by
  show (5 * 10000000 : Int) < (ms : Int) * 10000 ↔ ¬ ms ≤ 5000
  omega

theorem dotnet_requested {retryAfter : Option (List Char)} (hdates : DatesHaveDigits tryParseExact)
    (h : Plain isDecimal retryAfter) (now : Int) :
    Dotnet.parseRetryAfter tryParseExact retryAfter now = (requestedMillis retryAfter).map inTicks := by
  cases retryAfter with
  | none => rfl
  | some text =>
      have htrim : Dotnet.trim text = (text.dropWhile Dotnet.isWhiteSpace).rdropWhile Dotnet.isWhiteSpace := rfl
      unfold Dotnet.parseRetryAfter
      simp only [htrim]
      rcases h with hdigits | hno
      · have hkept : (text.dropWhile Dotnet.isWhiteSpace).rdropWhile Dotnet.isWhiteSpace = text := by
          apply hdigits.trim
          intro c hc
          have hrange := digit_range hc
          unfold Dotnet.isWhiteSpace
          simp
          omega
        have hunit : inTicks (digitsNumber text * 1000) = Dotnet.parseInt text * Dotnet.ticksPerSecond := by
          show ((digitsNumber text * 1000 : Nat) : Int) * 10000 = (digitsNumber text : Int) * 10000000
          omega
        rw [requestedMillis_digits hdigits, Option.map_some, hunit]
        simp only [hkept, if_neg hdigits.1, Dotnet.allAsciiDigits, hdigits.2.2, if_true,
          if_neg (Nat.not_lt.mpr hdigits.2.1)]
      · have hno' : NoDigit isDecimal ((text.dropWhile Dotnet.isWhiteSpace).rdropWhile Dotnet.isWhiteSpace) :=
          hno.trim
        rw [requestedMillis_noDigit hno, Option.map_none]
        by_cases hne : (text.dropWhile Dotnet.isWhiteSpace).rdropWhile Dotnet.isWhiteSpace = []
        · rw [if_pos hne]
        · simp only [if_neg hne, Dotnet.allAsciiDigits, not_all_digits hno' hne, Bool.false_eq_true, if_false,
            hdates _ fun c hc => (hno' c hc).2]

/-- What the .NET client receives of a reply. -/
theorem dotnet_received (hmeets : DotnetMeets (dotnet.outcome n) (script.reply n)) :
    match script.reply n with
    | .noResponse => ∃ failure, dotnet.received n = .error failure
    | .response status retryAfter body => ∃ r : Dotnet.ReceivedResponse, dotnet.received n = .ok r ∧
        r.statusCode = status ∧ r.retryAfter = retryAfter ∧ r.body = body.take 65536 ∧
        r.bodyTruncated = decide (65536 < body.length) ∧ r.bodyReadFailure = none := by
  unfold Dotnet.Script.received
  cases hreply : script.reply n with
  | noResponse =>
      rw [hreply] at hmeets
      obtain ⟨failure, hout⟩ := hmeets
      rw [hout]
      exact ⟨failure, rfl⟩
  | response status retryAfter body =>
      rw [hreply] at hmeets
      obtain ⟨r, stream, hout, hstatus, hheader, hchunks, hending⟩ := hmeets
      rw [hout]
      refine ⟨_, rfl, hstatus, hheader, ?_, ?_, ?_⟩
      · show ((stream.chunks.flatten.take 65537).take 65536) = _
        rw [hchunks, List.take_take]
        rfl
      · show decide (65536 < (stream.chunks.flatten.take 65537).length) = _
        rw [hchunks, decide_eq_decide, List.length_take]
        omega
      · show (if decide (65536 < (stream.chunks.flatten.take 65537).length) = true then none
          else Option.map Dotnet.Failure.typeName _) = none
        rw [hending, ite_self, Option.map_none, ite_self]

/-- The .NET client does what the plain loop does. -/
theorem dotnet_verdict (hplain : ∀ n status retryAfter body,
      script.reply n = .response status retryAfter body → Plain isDecimal retryAfter)
    (hdates : DatesHaveDigits tryParseExact)
    (hmeets : DotnetMeets (dotnet.outcome n) (script.reply n))
    (hjitter : dotnet.jittered n = inTicks (script.jitter n)) (retryCount : Nat) :
    (script.verdict retryCount n).map inTicks dotnet.result = dotnet.verdict tryParseExact retryCount n := by
  have hreceived := dotnet_received hmeets
  have hrequested : dotnet.requested tryParseExact n = (script.requested n).map inTicks := by
    unfold Dotnet.Script.requested Script.requested
    cases hreply : script.reply n with
    | noResponse =>
        rw [hreply] at hreceived
        obtain ⟨failure, hout⟩ := hreceived
        rw [hout]
        rfl
    | response status retryAfter body =>
        rw [hreply] at hreceived
        obtain ⟨r, hout, -, hheader, -⟩ := hreceived
        rw [hout]
        simp only [hheader]
        exact dotnet_requested hdates (hplain n status retryAfter body hreply) _
  apply retryVerdict_map
  · unfold Script.retryable Dotnet.Script.retryable
    cases hreply : script.reply n with
    | noResponse =>
        rw [hreply] at hreceived
        obtain ⟨failure, hout⟩ := hreceived
        rw [hout]
    | response status retryAfter body =>
        rw [hreply] at hreceived
        obtain ⟨r, hout, hstatus, -⟩ := hreceived
        rw [hout]
        simp only [hrequested, hstatus]
        congr 1
        cases script.requested n with
        | none => rfl
        | some ms =>
            simp only [Option.map_some, Option.all_some, Dotnet.asksTooMuch, Option.any_some, dotnet_limit,
              decide_not, Bool.not_not]
  · intro _ _
    unfold Script.delay Dotnet.Script.delay
    rw [hrequested, hjitter]
    cases script.requested n with
    | none => rw [Option.map_none, Option.getD_none, Nat.max_zero]
    | some ms =>
        -- the client compares, where the plain loop takes the maximum
        simp only [Option.map_some, Option.getD_some]
        split_ifs with hlt
        · rw [Nat.max_eq_right (inTicks_le_iff.mp (Int.le_of_lt hlt))]
        · rw [Nat.max_eq_left (inTicks_le_iff.mp (Int.not_lt.mp hlt))]
  · rfl

/-- The exception of a status is reported as the status demands. -/
theorem dotnet_statusReport (status : Nat) (e : Dotnet.HttpException) :
    dotnetReport (.error (.decoding (Dotnet.statusException status e))) =
      some (statusReport status e.attempts) := by
  unfold Dotnet.statusException statusReport
  split_ifs
  · rfl
  · rfl
  · rfl

/-- **The .NET client reports an error response as it demands exactly when it can read its strings**;
    otherwise it reports nothing. -/
theorem dotnet_report {status : Nat} {retryAfter : Option (List Char)} {body : List UInt8}
    (hmeets : DotnetMeets (dotnet.outcome n) (script.reply n))
    (hreply : script.reply n = .response status retryAfter body) (h200 : status ≠ 200) :
    (∀ ps ∈ Dotnet.errorStrings (Dotnet.parse (body.take 65536)), Dotnet.Paired ps) ∧
        dotnetReport (dotnet.result n) = some (statusReport status n) ∨
      (¬ ∀ ps ∈ Dotnet.errorStrings (Dotnet.parse (body.take 65536)), Dotnet.Paired ps) ∧
        dotnetReport (dotnet.result n) = none := by
  have hreceived := dotnet_received hmeets
  rw [hreply] at hreceived
  obtain ⟨r, hout, rfl, -, hbody, -⟩ := hreceived
  have hresult : dotnet.result n = (Dotnet.decode r n).mapError .decoding := by
    unfold Dotnet.Script.result
    rw [hout]
  rw [hresult, ← hbody]
  unfold Dotnet.decode
  rw [if_neg h200]
  rcases Dotnet.errorFields_reads (Dotnet.parse r.body) with ⟨hpaired, fields, hfields⟩ | ⟨hpaired, hfields⟩
  · refine .inl ⟨hpaired, ?_⟩
    rw [hfields]
    cases fields with
    | none => exact dotnet_statusReport _ _
    | some fields => exact dotnet_statusReport _ _
  · refine .inr ⟨hpaired, ?_⟩
    rw [hfields]
    rfl

end DotnetClient

/-! ## §6. Seven clients. -/

/-- Seven clients: the four of a fleet, and the three above. -/
structure Convoy extends Fleet where
  jsonParse : List UInt8 → Option Parsed
  timeParse : List UInt8 → Option ℚ
  rubyRequest : Ruby.Delivery.Request
  ruby : Ruby.Delivery.Script
  jsonDecode : List UInt8 → Except Php.Delivery.Throwable Parsed
  strtotime : List UInt8 → Option Int
  phpRequest : Php.Delivery.TransportRequest
  php : Php.Delivery.Script
  tryParseExact : List Char → Option Int
  dotnet : Dotnet.Script

/-- The result of each of the three that ends with an attempt. -/
def Convoy.rubyResult (clients : Convoy) (n : Nat) : Ruby.Delivery.Result :=
  (clients.ruby.environment clients.jsonParse clients.timeParse clients.rubyRequest).result n

def Convoy.phpResult (clients : Convoy) (n : Nat) : Php.Delivery.Result :=
  (clients.php.environment clients.jsonDecode clients.strtotime clients.phpRequest).result n

/-- **The clients are configured alike and meet the same script**; a 200 has a body that all decoders
    classify alike. -/
structure Convoy.Meet (clients : Convoy) (nearest : ℚ → ℚ) (script : Script) (retryCount : Nat) : Prop
    extends clients.toFleet.Meet nearest script retryCount where
  rubyMeets : ∀ n, RubyMeets (clients.ruby.outcome n) (script.reply n)
  phpMeets : ∀ n, PhpMeets (clients.php.outcome n) (script.reply n)
  dotnetMeets : ∀ n, DotnetMeets (clients.dotnet.outcome n) (script.reply n)
  allAlike : ∀ n retryAfter body, script.reply n = .response 200 retryAfter body → ∀ report,
    javaReport (clients.java.result n) = some report →
      rubyReport (clients.rubyResult n) = some report ∧ phpReport (clients.phpResult n) = some report ∧
        dotnetReport (clients.dotnet.result n) = some report
  tryParseExact : DatesHaveDigits clients.tryParseExact
  rubyJitter : ∀ n, clients.ruby.rand n (Ruby.Delivery.delayBoundMs n + 1) = script.jitter n
  phpJitter : ∀ n, clients.php.random n (Php.Delivery.delayBoundMilliseconds n) = Int.ofNat (script.jitter n)
  dotnetJitter : ∀ n, clients.dotnet.jittered n = inTicks (script.jitter n)

/-- **The seven calls agree**: they make the same attempts and the same pauses between them, and end in one
    report, which is one that the last reply demands. -/
def Convoy.Agree (clients : Convoy) (nearest : ℚ → ℚ) (script : Script) (retryCount fuel : Nat)
    (body : List UInt8) (nodeBody : Node.Str) : Prop :=
  ∃ c : Course Nat Report, (script.reply c.attempts).Demands c.attempts c.result ∧
    Delivers (asSeconds nearest) pythonReport body (run clients.python.handler
      (Python.track clients.interpreter clients.library retryCount body fuel 0) Journal.empty) c ∧
    Delivers inNanoseconds goReport body (run clients.go.handler
      (Go.deliver clients.goEnv body retryCount fuel) Journal.empty) c ∧
    Delivers inMillis nodeReport nodeBody ((run clients.node.handler
      (Node.deliver clients.nodeEnv clients.nodeFuel nodeBody retryCount fuel)
        (Journal.empty, [])).map fun r => (r.1, r.2.1)) c ∧
    Delivers Int.ofNat javaReport body (run clients.java.handler
      (Java.track clients.httpDates retryCount body fuel 1) Journal.empty) c ∧
    Delivers inRubySeconds rubyReport clients.rubyRequest (run clients.ruby.handler
      (Ruby.Delivery.deliver clients.jsonParse clients.timeParse clients.rubyRequest retryCount fuel)
        Journal.empty) c ∧
    Delivers Int.ofNat phpReport clients.phpRequest (run clients.php.handler
      (Php.Delivery.deliver clients.jsonDecode clients.strtotime clients.phpRequest retryCount fuel)
        Journal.empty) c ∧
    Delivers inTicks dotnetReport body ((run clients.dotnet.handler
      (Dotnet.trackAsync clients.tryParseExact retryCount body fuel 0)
        (Journal.empty, [], none)).map fun r => (r.1, r.2.1)) c

/-- The reply is an error response that makes the .NET client unescape a string or a member's name with an
    unpaired surrogate. -/
def Reply.ErrorUnpaired : Reply → Prop
  | noResponse => False
  | response status _ body =>
      status ≠ 200 ∧ ¬ ∀ ps ∈ Dotnet.errorStrings (Dotnet.parse (body.take 65536)), Dotnet.Paired ps

/-- A reply that is no 200 demands one report. -/
theorem Reply.demands_unique {reply : Reply} {n : Int} {report report' : Report}
    (h200 : ∀ retryAfter body, reply ≠ .response 200 retryAfter body) (h : reply.Demands n report)
    (h' : reply.Demands n report') : report = report' := by
  cases reply with
  | noResponse => exact h.trans h'.symm
  | response status retryAfter body =>
      have hstatus : status ≠ 200 := fun heq => h200 retryAfter body (by rw [heq])
      exact ((demands_other hstatus).mp h).trans ((demands_other hstatus).mp h').symm

section Agreement

variable {clients : Convoy} {nearest : ℚ → ℚ} {script : Script} {retryCount : Nat}

section Runs

variable {fuel : Nat} {c : Course Nat Nat} (body : List UInt8)

/-- The run of the Ruby client. -/
theorem Convoy.Meet.rubyRun (h : clients.Meet nearest script retryCount)
    (hc : course (script.verdict retryCount) fuel 1 = some c) :
    run clients.ruby.handler (Ruby.Delivery.deliver clients.jsonParse clients.timeParse clients.rubyRequest
      retryCount fuel) Journal.empty = some (clients.rubyResult c.attempts,
        ⟨c.attempts, (c.map inRubySeconds id).log clients.rubyRequest⟩) := by
  apply run_of_verdicts hc
  · intro n
    exact ruby_verdict h.plain (h.rubyMeets n) (h.rubyJitter n) retryCount
  · exact Ruby.Delivery.run_deliver_eq_course clients.jsonParse clients.timeParse clients.rubyRequest
      clients.ruby retryCount fuel

/-- The run of the PHP client. -/
theorem Convoy.Meet.phpRun (h : clients.Meet nearest script retryCount)
    (hc : course (script.verdict retryCount) fuel 1 = some c) :
    run clients.php.handler (Php.Delivery.deliver clients.jsonDecode clients.strtotime clients.phpRequest
      retryCount fuel) Journal.empty = some (clients.phpResult c.attempts,
        ⟨c.attempts, (c.map Int.ofNat id).log clients.phpRequest⟩) := by
  apply run_of_verdicts hc
  · intro n
    exact php_verdict h.plain (h.phpMeets n) (h.phpJitter n) retryCount
  · exact Php.Delivery.run_deliver_eq_course clients.jsonDecode clients.strtotime clients.phpRequest
      clients.php retryCount fuel

/-- The run of the .NET client. -/
theorem Convoy.Meet.dotnetRun (h : clients.Meet nearest script retryCount)
    (hc : course (script.verdict retryCount) fuel 1 = some c) :
    (run clients.dotnet.handler (Dotnet.trackAsync clients.tryParseExact retryCount body fuel 0)
      (Journal.empty, [], none)).map (fun r => (r.1, r.2.1)) = some (clients.dotnet.result c.attempts,
        ⟨c.attempts, (c.map inTicks id).log body⟩) := by
  apply run_of_verdicts hc
  · intro n
    exact dotnet_verdict h.plain h.tryParseExact (h.dotnetMeets n) (h.dotnetJitter n) retryCount
  · exact Dotnet.run_trackAsync_eq_course clients.dotnet clients.tryParseExact retryCount body
      h.retryCount_lt fuel

end Runs

/-- The results of the three are reported as those of the fleet are, unless .NET meets an unpaired
    surrogate. -/
theorem Convoy.Meet.lateReports (h : clients.Meet nearest script retryCount) {n : Nat} {report : Report}
    (hjava : javaReport (clients.java.result n) = some report) (hdemands : (script.reply n).Demands n report)
    (hpaired : ¬ (script.reply n).ErrorUnpaired) :
    rubyReport (clients.rubyResult n) = some report ∧ phpReport (clients.phpResult n) = some report ∧
      dotnetReport (clients.dotnet.result n) = some report := by
  by_cases h200 : ∃ retryAfter body, script.reply n = .response 200 retryAfter body
  · obtain ⟨retryAfter, body, hreply⟩ := h200
    exact h.allAlike n retryAfter body hreply report hjava
  · have h200 : ∀ retryAfter body, script.reply n ≠ .response 200 retryAfter body :=
      fun retryAfter body hreply => h200 ⟨retryAfter, body, hreply⟩
    obtain ⟨rubyReported, hruby, hrubyDemands⟩ :=
      ruby_report clients.jsonParse clients.timeParse clients.rubyRequest (h.rubyMeets n)
    obtain ⟨phpReported, hphp, hphpDemands⟩ :=
      php_report clients.jsonDecode clients.strtotime clients.phpRequest (h.phpMeets n)
    refine ⟨?_, ?_, ?_⟩
    · rw [Reply.demands_unique h200 hdemands hrubyDemands]
      exact hruby
    · rw [Reply.demands_unique h200 hdemands hphpDemands]
      exact hphp
    · have hdotnet := h.dotnetMeets n
      have hreceived := dotnet_received hdotnet
      cases hreply : script.reply n with
      | noResponse =>
          rw [hreply] at hdemands hreceived
          obtain ⟨failure, hout⟩ := hreceived
          unfold Dotnet.Script.result
          rw [hout, show report = _ from hdemands]
          rfl
      | response status retryAfter body =>
          have hstatus : status ≠ 200 := by
            intro heq
            exact h200 retryAfter body (by rw [hreply, heq])
          rw [hreply] at hdemands hpaired
          rcases dotnet_report hdotnet hreply hstatus with ⟨-, hreport⟩ | ⟨hunpaired, -⟩
          · rw [hreport, (demands_other hstatus).mp hdemands]
          · exact absurd ⟨hstatus, hunpaired⟩ hpaired

end Agreement

/-- **The seven clients agree exactly when the last body does not overflow the recursion limit of Python and
    has no unpaired surrogate for .NET to unescape**: they always make the same attempts and pauses. -/
theorem seven_agree_iff (clients : Convoy) (nearest : ℚ → ℚ) (script : Script) (retryCount fuel : Nat)
    (body : List UInt8) (nodeBody : Node.Str) (h : clients.Meet nearest script retryCount)
    (hfuel : retryCount < fuel) :
    clients.Agree nearest script retryCount fuel body nodeBody ↔
      ∀ n, script.Last retryCount n →
        ¬ (script.reply n).ErrorOverflows clients.interpreter ∧ ¬ (script.reply n).ErrorUnpaired := by
  obtain ⟨c, hc, hcourse⟩ := exists_plain_course script hfuel
  have hlastAttempt := (last_of_isCourse hcourse).2
  constructor
  · intro hagree n hlast
    obtain ⟨agreed, hdemands, hpython, hgo, hnode, hjava, -, -, hdotnet⟩ := hagree
    refine ⟨?_, ?_⟩
    · have hfour : clients.toFleet.Agree nearest script retryCount fuel body nodeBody :=
        ⟨agreed, hdemands, hpython, hgo, hnode, hjava⟩
      exact hfour.not_overflows h.toMeet hfuel hlast
    · intro hunpaired
      have hn : n = c.attempts := hlast.unique hlastAttempt
      subst hn
      obtain ⟨result, hrun, hreport⟩ := hdotnet
      rw [h.dotnetRun body hc, Option.some.injEq, Prod.mk.injEq] at hrun
      cases hreply : script.reply c.attempts with
      | noResponse =>
          rw [hreply] at hunpaired
          exact hunpaired
      | response status retryAfter received =>
          rw [hreply] at hunpaired
          rcases dotnet_report (h.dotnetMeets c.attempts) hreply hunpaired.1 with ⟨hpaired, -⟩ | ⟨-, hnone⟩
          · exact hunpaired.2 hpaired
          · rw [hrun.1, hreport] at hnone
            cases hnone
  · intro hlast
    obtain ⟨hover, hpaired⟩ := hlast c.attempts hlastAttempt
    obtain ⟨report, hdemands, hp, hg, hn, hj⟩ := h.reports hover
    obtain ⟨hruby, hphp, hdotnet⟩ := h.lateReports hj hdemands hpaired
    refine ⟨⟨c.attempts, c.sleeps, report⟩, hdemands, ?_, ?_, ?_, ?_, ?_, ?_, ?_⟩
    · exact delivers_of_run (h.pythonRun body hc) hp
    · exact delivers_of_run (h.goRun body hc) hg
    · exact delivers_of_run (h.nodeRun nodeBody hc) hn
    · exact delivers_of_run (h.javaRun body hc) hj
    · exact delivers_of_run (h.rubyRun hc) hruby
    · exact delivers_of_run (h.phpRun hc) hphp
    · exact delivers_of_run (h.dotnetRun body hc) hdotnet

/-- Clients that answer as a script says, where there is no 200: their libraries read no date and no JSON. -/
def Convoy.ofScript (i : Python.Interpreter) (script : Script) : Convoy where
  toFleet := Fleet.ofScript i script
  jsonParse := fun _ => none
  timeParse := fun _ => none
  rubyRequest := ⟨[], [], [], 3⟩
  ruby :=
    { outcome := fun n => match script.reply n with
        | .noResponse => .error ⟨octets "connection refused"⟩
        | .response status retryAfter body => .ok
            ⟨status, [], (retryAfter.map fun value => (octets "retry-after", [Encoding.utf8 value])).toList,
              body.take 65536, decide (65536 < body.length), none⟩
      rand := fun n _ => script.jitter n
      clock := fun _ => 0 }
  jsonDecode := fun _ => .error (octets "Syntax error")
  strtotime := fun _ => none
  phpRequest := ⟨[], [], [], [], 3⟩
  php :=
    { outcome := fun n => match script.reply n with
        | .noResponse => .error (octets "connection refused")
        | .response status retryAfter body => .ok
            ⟨status, (retryAfter.map fun value => (octets "Retry-After", [Encoding.utf8 value])).toList,
              body.take 65536, [], decide (65536 < body.length), none⟩
      random := fun n _ => Int.ofNat (script.jitter n)
      clock := fun _ => 0 }
  tryParseExact := fun _ => none
  dotnet :=
    { outcome := fun n => match script.reply n with
        | .noResponse => .error ⟨.httpRequest, "HttpRequestException".toList⟩
        | .response status retryAfter body => .ok (⟨status, 1, none, retryAfter.toList⟩,
            if h : body = [] then Dotnet.BodyStream.none
            else ⟨[body], fun _ hchunk => List.mem_singleton.mp hchunk ▸ h, none⟩)
      jitter := fun n _ => script.jitter n
      clock := fun _ => 0 }

/-- **Such clients meet their script.** -/
theorem Convoy.ofScript_meet (i : Python.Interpreter) {script : Script} {retryCount : Nat}
    (hretry : retryCount < maxInt32)
    (hplain : ∀ n status retryAfter body, script.reply n = .response status retryAfter body →
      Plain Char.isDigit retryAfter)
    (h200 : ∀ n retryAfter body, script.reply n ≠ .response 200 retryAfter body) :
    (Convoy.ofScript i script).Meet (fun q => q) script retryCount where
  toMeet := Fleet.ofScript_meet i hretry hplain h200
  rubyMeets := by
    intro n
    unfold Convoy.ofScript
    cases hreply : script.reply n with
    | noResponse =>
        simp only [hreply]
        exact ⟨_, rfl⟩
    | response status retryAfter body =>
        simp only [hreply]
        refine ⟨_, rfl, rfl, ?_, rfl, rfl, rfl⟩
        cases retryAfter with
        | none => rfl
        | some value => rfl
  phpMeets := by
    intro n
    unfold Convoy.ofScript
    cases hreply : script.reply n with
    | noResponse =>
        simp only [hreply]
        exact ⟨_, rfl⟩
    | response status retryAfter body =>
        simp only [hreply]
        refine ⟨_, rfl, rfl, ?_, rfl, rfl, rfl⟩
        cases retryAfter with
        | none => rfl
        | some value => rfl
  dotnetMeets := by
    intro n
    unfold Convoy.ofScript
    cases hreply : script.reply n with
    | noResponse =>
        simp only [hreply]
        exact ⟨_, rfl⟩
    | response status retryAfter body =>
        simp only [hreply]
        refine ⟨_, _, rfl, rfl, ?_, ?_, ?_⟩
        · cases retryAfter with
          | none => rfl
          | some value => rfl
        · split_ifs with hempty
          · rw [hempty]
            rfl
          · exact List.append_nil body
        · split_ifs
          · rfl
          · rfl
  allAlike := fun n retryAfter body hreply => absurd hreply (h200 n retryAfter body)
  tryParseExact := fun _ _ => rfl
  rubyJitter := fun _ => rfl
  phpJitter := fun _ => rfl
  dotnetJitter := by
    intro n
    show Dotnet.fromMilliseconds (script.jitter n : ℚ) = (script.jitter n : Int) * 10000
    have hproduct : (script.jitter n : ℚ) * Dotnet.ticksPerMillisecond =
        (((script.jitter n : Int) * 10000 : Int) : ℚ) := by
      rw [Int.cast_mul]
      rfl
    unfold Dotnet.fromMilliseconds
    rw [if_pos (Nat.cast_nonneg _), hproduct, Int.floor_intCast]

/-- The seven agree on a 503 that asks for two seconds and a 401: their bodies are empty. -/
theorem seven_agree_busy_then_unauthorized :
    (Convoy.ofScript Python.cpython busyThenUnauthorized).Agree (fun q => q) busyThenUnauthorized 1 2 [] [] := by
  have hreply : ∀ n, busyThenUnauthorized.reply n = .response 503 (some ['2']) [] ∨
      busyThenUnauthorized.reply n = .response 401 none [] := by
    intro n
    unfold busyThenUnauthorized
    by_cases h1 : n = 1
    · exact .inl (if_pos h1)
    · exact .inr (if_neg h1)
  have hmeet : (Convoy.ofScript Python.cpython busyThenUnauthorized).Meet (fun q => q)
      busyThenUnauthorized 1 := by
    apply Convoy.ofScript_meet
    · decide
    · intro n status retryAfter body h
      rcases hreply n with h' | h'
      · rw [h', Reply.response.injEq] at h
        rw [← h.2.1]
        exact .inl ⟨List.cons_ne_nil _ _, by decide, by decide⟩
      · rw [h', Reply.response.injEq] at h
        rw [← h.2.1]
        trivial
    · intro n retryAfter body h
      rcases hreply n with h' | h'
      · rw [h', Reply.response.injEq] at h
        exact absurd h.1 (by decide)
      · rw [h', Reply.response.injEq] at h
        exact absurd h.1 (by decide)
  have hempty : ¬ Python.BodyOverflows Python.cpython [] := by
    rcases Python.parse_cases Python.cpython [] with ⟨-, hparse⟩ | ⟨hnot, -⟩
    · cases hparse
    · exact hnot
  have hunread : ∀ ps ∈ Dotnet.errorStrings (Dotnet.parse []), Dotnet.Paired ps := by
    intro ps hps
    exact absurd hps List.not_mem_nil
  apply (seven_agree_iff _ _ _ _ _ _ _ hmeet Nat.one_lt_two).mpr
  intro n _
  rcases hreply n with h | h
  · rw [h]
    exact ⟨fun hover => hempty hover.2, fun hunpaired => hunpaired.2 hunread⟩
  · rw [h]
    exact ⟨fun hover => hempty hover.2, fun hunpaired => hunpaired.2 hunread⟩

end CekatEvents.Clients
