/-
  CekatEvents.Clients.Lockstep — four delivery loops on one script.

  Each client's verdicts are those of the plain loop, in the client's own unit of time and with the
  client's own result, so the clients make the same attempts and pauses.  What can differ is the result,
  and does for the Python client when the last body overflows its recursion limit.

  Main result: `clients_agree_iff`.
-/
import CekatEvents.Clients.PlainLoop
import CekatEvents.Go.Scripted
import CekatEvents.Java.Scripted
import CekatEvents.Node.Scripted

namespace CekatEvents.Clients

open CekatEvents.Http CekatEvents.Effects CekatEvents.Retry CekatEvents.Arithmetic

/-! ## §1. Units. -/

section Units

variable {δ : Type} [LinearOrder δ] [Zero δ]

/-- The longer of the jitter and what is asked for, in any unit that keeps the order. -/
theorem max_unit {unit : Nat → δ} (hmono : Monotone unit) (h0 : unit 0 = 0) (jitter : Nat)
    (requested : Option Nat) :
    max (unit jitter) ((requested.map unit).getD 0) = unit (max jitter (requested.getD 0)) := by
  rw [hmono.map_max]
  cases requested with
  | none =>
      show max (unit jitter) 0 = max (unit jitter) (unit 0)
      rw [h0]
  | some ms => rfl

end Units

/-- A rounding to doubles, as far as pauses need it: it keeps the order, and the integers of nine digits
    are doubles. -/
structure Rounding (nearest : ℚ → ℚ) : Prop where
  mono : Monotone nearest
  exact : ∀ n : Nat, n < 10 ^ 9 → nearest n = n

/-- A number of milliseconds as the seconds of a Python client: the double nearest to them. -/
def asSeconds (nearest : ℚ → ℚ) (millis : Nat) : Python.Seconds :=
  ((nearest ((millis : ℚ) / 1000) : ℚ) : Python.Seconds)

theorem asSeconds_mono {nearest : ℚ → ℚ} (h : Rounding nearest) : Monotone (asSeconds nearest) := by
  intro a b hab
  unfold asSeconds
  apply WithTop.coe_le_coe.mpr
  apply h.mono
  apply div_le_div_of_nonneg_right
  · exact Nat.cast_le.mpr hab
  · norm_num

/-- Whole seconds are not rounded. -/
theorem asSeconds_thousand {nearest : ℚ → ℚ} (h : Rounding nearest) {n : Nat} (hn : n < 10 ^ 9) :
    asSeconds nearest (n * 1000) = inSeconds (n * 1000) := by
  unfold asSeconds inSeconds
  have hwhole : ((n * 1000 : Nat) : ℚ) / 1000 = (n : ℚ) := by
    push_cast
    rw [mul_div_assoc, div_self (by norm_num), mul_one]
  rw [hwhole, h.exact n hn]

theorem asSeconds_zero {nearest : ℚ → ℚ} (h : Rounding nearest) : asSeconds nearest 0 = 0 := by
  have hzero := asSeconds_thousand h (show 0 < 10 ^ 9 by norm_num)
  rw [Nat.zero_mul] at hzero
  rw [hzero]
  unfold inSeconds
  simp

/-- Nine digits spell less than a thousand millions. -/
theorem digitsNumber_lt (text : List Char) (h : text.all Char.isDigit = true) :
    digitsNumber text < 10 ^ text.length := by
  have hfold : ∀ (text : List Char) (n : Nat), text.all Char.isDigit = true →
      text.foldl (fun n c => 10 * n + (c.toNat - '0'.toNat)) n < (n + 1) * 10 ^ text.length := by
    intro text
    induction text with
    | nil =>
        intro n _
        simp
    | cons c rest ih =>
        intro n hall
        rw [List.all_cons, Bool.and_eq_true] at hall
        have hrange := digit_range hall.1
        have hzero : '0'.toNat = 48 := rfl
        have hrest := ih (10 * n + (c.toNat - '0'.toNat)) hall.2
        have hstep : 10 * n + (c.toNat - '0'.toNat) + 1 ≤ (n + 1) * 10 := by omega
        rw [List.foldl_cons, List.length_cons, Nat.pow_succ, Nat.mul_comm (10 ^ rest.length) 10,
          ← Nat.mul_assoc]
        exact hrest.trans_le (Nat.mul_le_mul_right _ hstep)
  have hall := hfold text 0 h
  rw [Nat.zero_add, Nat.one_mul] at hall
  exact hall

/-- What a plain value asks for is a whole number of seconds. -/
theorem requestedMillis_seconds {isDecimal : Char → Bool} {retryAfter : Option (List Char)}
    (h : Plain isDecimal retryAfter) {ms : Nat} (hms : requestedMillis retryAfter = some ms) :
    ∃ n, n < 10 ^ 9 ∧ ms = n * 1000 := by
  cases retryAfter with
  | none => cases hms
  | some text =>
      rcases h with hdigits | hno
      · rw [requestedMillis_digits hdigits, Option.some.injEq] at hms
        refine ⟨digitsNumber text, ?_, hms.symm⟩
        have hlt := digitsNumber_lt text hdigits.2.2
        exact hlt.trans_le (Nat.pow_le_pow_right (by norm_num) hdigits.2.1)
      · rw [requestedMillis_noDigit hno] at hms
        cases hms

/-! ## §2. The Python client. -/

section PythonClient

/-- An outcome of the Python client is the reply, its body retained up to the limit. -/
def PythonMeets (outcome : Python.Outcome) : Reply → Prop
  | .noResponse => ∃ failure, outcome = .error failure
  | .response status retryAfter body => ∃ r : Python.ReceivedResponse, outcome = .ok r ∧
      r.statusCode = status ∧ r.header "Retry-After".toList = retryAfter ∧
      r.body = body.take Python.MAX_RESPONSE_BYTES ∧
      r.bodyTruncated = decide (Python.MAX_RESPONSE_BYTES < body.length) ∧ r.bodyReadFailure = none

/-- How a call of the Python client is reported; a `RecursionError` is none of the reports. -/
def pythonReport : Python.Result → Option Report
  | .ok _ => some .acknowledged
  | .error (.transport e) => some (.transport e.attempts)
  | .error (.decoding (.responseDecode e)) => some (.responseDecode e.attempts)
  | .error (.decoding (.authentication e)) => some (.authentication e.attempts)
  | .error (.decoding (.eventDefinitionNotFound e)) => some (.eventDefinitionNotFound e.attempts)
  | .error (.decoding (.api e)) => some (.api e.attempts)
  | .error (.decoding .recursionError) => none

variable {script : Script} {lib : Python.Library} {python : Python.Script} {n : Nat}

theorem python_requested_eq (hplain : ∀ n status retryAfter body,
      script.reply n = .response status retryAfter body → Plain lib.isDecimal retryAfter)
    (hmeets : PythonMeets (python.outcome n) (script.reply n)) :
    python.requested lib n = (script.requested n).map inSeconds := by
  unfold Python.Script.requested Script.requested
  cases hreply : script.reply n with
  | noResponse =>
      rw [hreply] at hmeets
      obtain ⟨failure, hout⟩ := hmeets
      rw [hout]
      rfl
  | response status retryAfter body =>
      rw [hreply] at hmeets
      obtain ⟨r, hout, -, hheader, -⟩ := hmeets
      rw [hout]
      simp only [hheader]
      exact python_requested (hplain n status retryAfter body hreply) _

/-- More than five seconds is more than five thousand milliseconds. -/
theorem asksTooMuch_inSeconds (requested : Option Nat) :
    Python.asksTooMuch (requested.map inSeconds) =
      !requested.all fun delay => decide (delay ≤ 5000) := by
  cases requested with
  | none => rfl
  | some ms =>
      have hlimit := python_limit ms
      simp only [Option.map_some, Python.asksTooMuch, Option.any_some, Option.all_some, hlimit,
        decide_not]

/-- The Python client does what the plain loop does. -/
theorem python_verdict {nearest : ℚ → ℚ} (hround : Rounding nearest)
    (hplain : ∀ n status retryAfter body,
      script.reply n = .response status retryAfter body → Plain lib.isDecimal retryAfter)
    (hmeets : PythonMeets (python.outcome n) (script.reply n))
    (hjitter : python.jitter n = nearest ((script.jitter n : ℚ) / 1000)) (i : Python.Interpreter)
    (retryCount : Nat) : (script.verdict retryCount n).map (asSeconds nearest) (python.result i) =
      python.verdict i lib retryCount n := by
  have hrequested := python_requested_eq hplain hmeets
  rw [Python.verdict_eq_retryVerdict]
  apply retryVerdict_map
  · unfold Script.retryable Python.Script.retryable
    cases hreply : script.reply n with
    | noResponse =>
        rw [hreply] at hmeets
        obtain ⟨failure, hout⟩ := hmeets
        rw [hout]
    | response status retryAfter body =>
        rw [hreply] at hmeets
        obtain ⟨r, hout, hstatus, -⟩ := hmeets
        rw [hout]
        simp only [hrequested, asksTooMuch_inSeconds, hstatus, Bool.not_not]
  · intro _ _
    have hround' : (script.requested n).map inSeconds = (script.requested n).map (asSeconds nearest) := by
      cases hreq : script.requested n with
      | none => rfl
      | some ms =>
          unfold Script.requested at hreq
          cases hreply : script.reply n with
          | noResponse =>
              rw [hreply] at hreq
              cases hreq
          | response status retryAfter body =>
              rw [hreply] at hreq
              obtain ⟨k, hk, rfl⟩ :=
                requestedMillis_seconds (hplain n status retryAfter body hreply) hreq
              rw [Option.map_some, Option.map_some, asSeconds_thousand hround hk]
    unfold Script.delay Python.Script.delay
    rw [hrequested, hround', hjitter]
    exact (max_unit (asSeconds_mono hround) (asSeconds_zero hround) _ _).symm
  · rfl

/-- What the Python client reports of an attempt that is not a 200. -/
theorem python_report (hmeets : PythonMeets (python.outcome n) (script.reply n))
    (i : Python.Interpreter) {status : Nat} {retryAfter : Option (List Char)} {body : List UInt8}
    (hreply : script.reply n = .response status retryAfter body) (h200 : status ≠ 200) :
    (Python.BodyOverflows i (body.take Python.MAX_RESPONSE_BYTES) ∧
        pythonReport (python.result i n) = none) ∨
      (¬ Python.BodyOverflows i (body.take Python.MAX_RESPONSE_BYTES) ∧
        pythonReport (python.result i n) = some (statusReport status n)) := by
  rw [hreply] at hmeets
  obtain ⟨r, hout, rfl, -, hbody, -⟩ := hmeets
  unfold Python.Script.result
  simp only [hout, Python.decoded, Python.decode, if_neg h200]
  rw [← hbody]
  rcases Python.parse_cases i r.body with ⟨hover, hparse⟩ | ⟨hover, v, hparse⟩
  · refine .inl ⟨hover, ?_⟩
    rw [hparse]
    rfl
  · refine .inr ⟨hover, ?_⟩
    have hclass : ∀ e : Python.HttpError, e.attempts = n →
        pythonReport (.error (.decoding (Python.errorType r.statusCode e))) =
          some (statusReport r.statusCode n) := by
      intro e he
      unfold Python.errorType statusReport
      split_ifs
      · exact congrArg (fun k : Nat => some (Report.authentication k)) he
      · exact congrArg (fun k : Nat => some (Report.eventDefinitionNotFound k)) he
      · exact congrArg (fun k : Nat => some (Report.api k)) he
    rw [hparse]
    simp only [bind, Except.bind]
    cases Python.errorEnvelope v with
    | none => exact hclass _ rfl
    | some fields => exact hclass _ rfl

end PythonClient

/-! ## §3. The Go client. -/

section GoClient

/-- An outcome of the Go client is the reply; an absent header is empty. -/
def GoMeets (outcome : Except Go.Cause (Go.Response × Go.Bytes)) : Reply → Prop
  | .noResponse => ∃ err, outcome = .error err
  | .response status retryAfter body => ∃ r : Go.Response, outcome = .ok (r, body) ∧
      r.statusCode = status ∧ r.retryAfter = retryAfter.getD []

/-- How an error of the Go client is reported. -/
def goErrorReport : Go.Error → Option Report
  | .transport e => some (.transport e.attempts)
  | .responseDecode e => some (.responseDecode e.attempts)
  | .authentication e => some (.authentication e.attempts)
  | .eventDefinitionNotFound e => some (.eventDefinitionNotFound e.attempts)
  | .api e => some (.api e.attempts)
  | .validation _ => none
  | .context _ => none

/-- How a call of the Go client is reported. -/
def goReport : Go.Ending → Option Report
  | .returned (some _) none => some .acknowledged
  | .returned none (some err) => goErrorReport err
  | _ => none

variable {script : Script} {env : Go.Env} {go : Go.Script} {isDecimal : Char → Bool} {n : Nat}

theorem inNanoseconds_mono : Monotone inNanoseconds := by
  intro a b hab
  show (a : Int) * 1000000 ≤ (b : Int) * 1000000
  omega

/-- The delay of the Go client is the longer of the two, since no jitter is negative. -/
theorem retryDelay_eq_max {requested : Option Go.Duration} {jitter : Go.Duration}
    (h : 0 ≤ jitter) : Go.retryDelay requested jitter = max jitter (requested.getD 0) := by
  cases requested with
  | none => exact (max_eq_left h).symm
  | some d =>
      show (if jitter < d then d else jitter) = max jitter d
      by_cases hlt : jitter < d
      · rw [if_pos hlt, max_eq_right hlt.le]
      · rw [if_neg hlt, max_eq_left (not_lt.mp hlt)]

theorem go_requested_eq (hplain : ∀ n status retryAfter body,
      script.reply n = .response status retryAfter body → Plain isDecimal retryAfter)
    (hdates : DatesHaveDigits env.parseTime) (hmeets : GoMeets (go.outcome n) (script.reply n)) :
    go.requested env n = (script.requested n).map inNanoseconds := by
  unfold Go.Script.requested Script.requested
  cases hreply : script.reply n with
  | noResponse =>
      rw [hreply] at hmeets
      obtain ⟨err, hout⟩ := hmeets
      rw [hout]
      rfl
  | response status retryAfter body =>
      rw [hreply] at hmeets
      obtain ⟨r, hout, -, hheader⟩ := hmeets
      rw [hout]
      simp only [hheader]
      exact go_requested hdates (hplain n status retryAfter body hreply) _

/-- The Go client does what the plain loop does. -/
theorem go_verdict (hplain : ∀ n status retryAfter body,
      script.reply n = .response status retryAfter body → Plain isDecimal retryAfter)
    (hdates : DatesHaveDigits env.parseTime) (hmeets : GoMeets (go.outcome n) (script.reply n))
    (hjitter : go.jitter n (Go.retryMaximum n) = inNanoseconds (script.jitter n))
    (retryCount : Nat) : (script.verdict retryCount n).map inNanoseconds (go.result env) =
      go.verdict env retryCount n := by
  have hrequested := go_requested_eq hplain hdates hmeets
  apply retryVerdict_map
  · unfold Script.retryable Go.Script.retryable
    cases hreply : script.reply n with
    | noResponse =>
        rw [hreply] at hmeets
        obtain ⟨err, hout⟩ := hmeets
        rw [hout]
    | response status retryAfter body =>
        rw [hreply] at hmeets
        obtain ⟨r, hout, hstatus, -⟩ := hmeets
        rw [hout]
        simp only [hrequested, hstatus]
        congr 1
        cases script.requested n with
        | none => rfl
        | some ms =>
            have hdecide : decide (Go.maximumRetryAfter < inNanoseconds ms) = !decide (ms ≤ 5000) :=
              (decide_eq_decide.mpr (go_limit ms)).trans decide_not
            rw [Option.map_some, Option.any_some, Option.all_some, hdecide, Bool.not_not]
  · intro _ _
    have hnonneg : 0 ≤ inNanoseconds (script.jitter n) := by
      show (0 : Int) ≤ (script.jitter n : Int) * 1000000
      omega
    unfold Script.delay Go.Script.delay
    rw [hrequested, hjitter, retryDelay_eq_max hnonneg]
    exact (max_unit inNanoseconds_mono rfl _ _).symm
  · rfl

/-- What the Go client reports of an attempt that is not a 200. -/
theorem go_report (hmeets : GoMeets (go.outcome n) (script.reply n)) {status : Nat}
    {retryAfter : Option (List Char)} {body : List UInt8}
    (hreply : script.reply n = .response status retryAfter body) (h200 : status ≠ 200) :
    goReport (go.result env n) = some (statusReport status n) := by
  rw [hreply] at hmeets
  obtain ⟨r, hout, rfl, -⟩ := hmeets
  have hclass : ∀ message code received, goReport (.returned none
      (some (Go.newStatusError r.statusCode message code received n))) =
        some (statusReport r.statusCode n) := by
    intro message code received
    unfold Go.newStatusError statusReport
    split_ifs
    · rfl
    · rfl
    · rfl
  unfold Go.Script.result
  simp only [hout, Go.decodeResponse, if_neg h200]
  split_ifs
  · exact hclass _ _ _
  · exact hclass _ _ _

end GoClient

/-! ## §4. The Node client. -/

section NodeClient

/-- An outcome of the Node client is the reply, its body in any chunks; fetch rejects with an error that
    is not the client's own and that has a text. -/
def NodeMeets (env : Node.Env) (outcome : Except Node.Thrown (Node.Response × List (List UInt8))) :
    Reply → Prop
  | .noResponse => ∃ e, outcome = .error e ∧ Node.isKnownOutcomeError e = false ∧
      ∃ cause, env.redactTransportCause e = .ok cause
  | .response status retryAfter body => ∃ (r : Node.Response) (chunks : List (List UInt8)),
      outcome = .ok (r, chunks) ∧ r.status = status ∧ r.retryAfter = retryAfter ∧
        chunks.flatten = body

/-- How a call of the Node client is reported. -/
def nodeReport : Node.Ending → Option Report
  | .resolved _ => some .acknowledged
  | .rejected (.transport _ attempts _) => some (.transport attempts)
  | .rejected (.responseDecode _ _ attempts _) => some (.responseDecode attempts)
  | .rejected (.authentication e) => some (.authentication e.attempts)
  | .rejected (.eventDefinitionNotFound e) => some (.eventDefinitionNotFound e.attempts)
  | .rejected (.api e) => some (.api e.attempts)
  | .rejected _ => none
  | .unreachable => none

variable {script : Script} {env : Node.Env} {node : Node.Script} {isDecimal : Char → Bool} {n : Nat}

theorem inMillis_mono : Monotone inMillis := by
  intro a b hab
  unfold inMillis
  exact WithTop.coe_le_coe.mpr (Nat.cast_le.mpr hab)

theorem node_requested_eq (hplain : ∀ n status retryAfter body,
      script.reply n = .response status retryAfter body → Plain isDecimal retryAfter)
    (hmeets : NodeMeets env (node.outcome n) (script.reply n)) :
    node.requested env n = (script.requested n).map inMillis := by
  unfold Node.Script.requested Script.requested
  cases hreply : script.reply n with
  | noResponse =>
      rw [hreply] at hmeets
      obtain ⟨e, hout, -⟩ := hmeets
      rw [hout]
      rfl
  | response status retryAfter body =>
      rw [hreply] at hmeets
      obtain ⟨r, chunks, hout, -, hheader, -⟩ := hmeets
      rw [hout]
      simp only [hheader]
      exact node_requested env.dateParse (hplain n status retryAfter body hreply) _

/-- The Node client does what the plain loop does. -/
theorem node_verdict (hplain : ∀ n status retryAfter body,
      script.reply n = .response status retryAfter body → Plain isDecimal retryAfter)
    (hmeets : NodeMeets env (node.outcome n) (script.reply n))
    (hjitter : node.jitter env n = script.jitter n) (retryCount : Nat) :
    (script.verdict retryCount n).map inMillis (node.result env) =
      node.verdict env retryCount n := by
  have hrequested := node_requested_eq hplain hmeets
  apply retryVerdict_map
  · unfold Script.retryable Node.Script.retryable
    cases hreply : script.reply n with
    | noResponse =>
        rw [hreply] at hmeets
        obtain ⟨e, hout, -⟩ := hmeets
        rw [hout]
    | response status retryAfter body =>
        rw [hreply] at hmeets
        obtain ⟨r, chunks, hout, hstatus, -⟩ := hmeets
        rw [hout]
        simp only [hrequested, hstatus]
        congr 1
        cases script.requested n with
        | none => rfl
        | some ms =>
            simp only [Option.map_some, Option.all_some, node_limit]
  · intro _ _
    have hzero : inMillis 0 = 0 := by
      unfold inMillis
      simp
    unfold Script.delay Node.Script.delay
    rw [hrequested, hjitter]
    exact (max_unit inMillis_mono hzero _ _).symm
  · rfl

/-- What the Node client reports of an attempt that is not a 200. -/
theorem node_report (hmeets : NodeMeets env (node.outcome n) (script.reply n)) {status : Nat}
    {retryAfter : Option (List Char)} {body : List UInt8}
    (hreply : script.reply n = .response status retryAfter body) (h200 : status ≠ 200) :
    nodeReport (node.result env n) = some (statusReport status n) := by
  rw [hreply] at hmeets
  obtain ⟨r, chunks, hout, rfl, -, -⟩ := hmeets
  have hclass : ∀ e : Node.StatusError, e.attempts = n →
      nodeReport (.rejected (Node.statusError r.status e)) = some (statusReport r.status n) := by
    intro e he
    unfold Node.statusError statusReport
    split_ifs
    · exact congrArg (fun k : Nat => some (Report.authentication k)) he
    · exact congrArg (fun k : Nat => some (Report.eventDefinitionNotFound k)) he
    · exact congrArg (fun k : Nat => some (Report.api k)) he
  unfold Node.Script.result
  simp only [hout, Node.classifyBody, if_neg h200]
  cases Node.parseApiError (Node.boundedBody chunks.flatten).rawBody with
  | none => exact hclass _ rfl
  | some fields => exact hclass _ rfl

end NodeClient

/-! ## §5. The Java client. -/

section JavaClient

/-- An outcome of the Java client is the reply, its body retained up to the limit. -/
def JavaMeets (outcome : Except (List Char) Java.TransportResponse) : Reply → Prop
  | .noResponse => ∃ failure, outcome = .error failure
  | .response status retryAfter body => ∃ r : Java.TransportResponse, outcome = .ok r ∧
      r.statusCode = status ∧ r.header "Retry-After".toList = retryAfter ∧
      r.body = body.take 65536 ∧ r.bodyTruncated = decide (65536 < body.length) ∧
      r.bodyReadFailure = none

/-- How a call of the Java client is reported. -/
def javaReport : Java.Result → Option Report
  | .ok _ => some .acknowledged
  | .error (.transport e) => some (.transport e.attempts)
  | .error (.decoding (.responseDecode e)) => some (.responseDecode e.attempts)
  | .error (.decoding (.authentication e)) => some (.authentication e.attempts)
  | .error (.decoding (.eventDefinitionNotFound e)) => some (.eventDefinitionNotFound e.attempts)
  | .error (.decoding (.api e)) => some (.api e.attempts)
  | .error (.arithmetic _) => none
  | .error .interrupted => none

variable {script : Script} {httpDates : List (List Char → Option Int)} {java : Java.Script}
  {isDecimal : Char → Bool} {n : Nat}

theorem ofNat_mono : Monotone Int.ofNat := fun _ _ h => Int.ofNat_le.mpr h

theorem java_requested_eq (hplain : ∀ n status retryAfter body,
      script.reply n = .response status retryAfter body → Plain isDecimal retryAfter)
    (hdates : ∀ format ∈ httpDates, DatesHaveDigits format)
    (hmeets : JavaMeets (java.outcome n) (script.reply n)) :
    java.requested httpDates n = .ok ((script.requested n).map Int.ofNat) := by
  unfold Java.Script.requested Script.requested
  cases hreply : script.reply n with
  | noResponse =>
      rw [hreply] at hmeets
      obtain ⟨failure, hout⟩ := hmeets
      rw [hout]
      rfl
  | response status retryAfter body =>
      rw [hreply] at hmeets
      obtain ⟨r, hout, -, hheader, -⟩ := hmeets
      rw [hout]
      simp only [hheader]
      exact java_requested hdates (hplain n status retryAfter body hreply) _

/-- The Java client does what the plain loop does. -/
theorem java_verdict (hplain : ∀ n status retryAfter body,
      script.reply n = .response status retryAfter body → Plain isDecimal retryAfter)
    (hdates : ∀ format ∈ httpDates, DatesHaveDigits format)
    (hmeets : JavaMeets (java.outcome n) (script.reply n))
    (hjitter : java.jitter n (Java.delayBoundMillis n) = Int.ofNat (script.jitter n))
    (retryCount : Nat) : (script.verdict retryCount n).map Int.ofNat java.result =
      java.verdict httpDates retryCount n := by
  have hrequested := java_requested_eq hplain hdates hmeets
  have hasked : java.asked httpDates n = (script.requested n).map Int.ofNat := by
    unfold Java.Script.asked
    rw [hrequested]
    rfl
  have hthrown : java.thrown httpDates retryCount n = none := by
    unfold Java.Script.thrown
    rw [hrequested]
    cases java.outcome n with
    | error failure => rfl
    | ok response => rfl
  unfold Java.Script.verdict
  rw [hthrown]
  apply retryVerdict_map
  · unfold Script.retryable Java.Script.retryable
    cases hreply : script.reply n with
    | noResponse =>
        rw [hreply] at hmeets
        obtain ⟨failure, hout⟩ := hmeets
        rw [hout]
    | response status retryAfter body =>
        rw [hreply] at hmeets
        obtain ⟨r, hout, hstatus, -⟩ := hmeets
        rw [hout]
        simp only [hasked, hstatus]
        congr 1
        cases script.requested n with
        | none => rfl
        | some ms =>
            simp only [Option.map_some, Option.all_some, java_limit]
  · intro _ _
    unfold Script.delay Java.Script.delay
    rw [hasked, hjitter]
    exact (max_unit ofNat_mono rfl _ _).symm
  · rfl

/-- What the Java client reports of a response. -/
theorem java_report (hmeets : JavaMeets (java.outcome n) (script.reply n)) {status : Nat}
    {retryAfter : Option (List Char)} {body : List UInt8}
    (hreply : script.reply n = .response status retryAfter body) (h200 : status ≠ 200) :
    javaReport (java.result n) = some (statusReport status n) := by
  rw [hreply] at hmeets
  obtain ⟨r, hout, rfl, -⟩ := hmeets
  have hclass : ∀ e : Java.ApiException, e.attempts = n →
      javaReport (.error (.decoding (Java.statusException r.statusCode e))) =
        some (statusReport r.statusCode n) := by
    intro e he
    unfold Java.statusException statusReport
    split_ifs
    · exact congrArg (fun k : Int => some (Report.authentication k)) he
    · exact congrArg (fun k : Int => some (Report.eventDefinitionNotFound k)) he
    · exact congrArg (fun k : Int => some (Report.api k)) he
  unfold Java.Script.result
  simp only [hout, Java.decode, if_neg h200]
  cases Java.errorEnvelope (Java.parseOrNull (Java.newString r.body)) with
  | none => exact hclass _ rfl
  | some fields => exact hclass _ rfl

/-- What the Java client reports of a 200 is an acknowledgement or a decode error. -/
theorem java_report_success (hmeets : JavaMeets (java.outcome n) (script.reply n))
    {retryAfter : Option (List Char)} {body : List UInt8}
    (hreply : script.reply n = .response 200 retryAfter body) {report : Report}
    (hreport : javaReport (java.result n) = some report) :
    report = .acknowledged ∨ report = .responseDecode n := by
  rw [hreply] at hmeets
  obtain ⟨r, hout, hstatus, -, -, htruncated, hfailure⟩ := hmeets
  have hdecode : ∀ e : Java.ResponseDecodeException, e.attempts = n →
      javaReport (.error (.decoding (.responseDecode e))) = some (.responseDecode n) :=
    fun e he => congrArg (fun k : Int => some (Report.responseDecode k)) he
  unfold Java.Script.result at hreport
  simp only [hout, Java.decode, if_pos hstatus, Java.acknowledgement, hfailure] at hreport
  by_cases hlong : r.bodyTruncated = true
  · rw [if_pos hlong] at hreport
    exact .inr (Option.some.inj (hreport.symm.trans (hdecode _ rfl)))
  · rw [if_neg hlong] at hreport
    cases hparse : Java.Json.parse (Java.newString r.body) with
    | error invalid =>
        rw [hparse] at hreport
        exact .inr (Option.some.inj (hreport.symm.trans (hdecode _ rfl)))
    | ok parsed =>
        rw [hparse] at hreport
        simp only at hreport
        cases hfields : Java.envelopeFields parsed with
        | none =>
            rw [hfields] at hreport
            exact .inr (Option.some.inj (hreport.symm.trans (hdecode _ rfl)))
        | some fields =>
            rw [hfields] at hreport
            exact .inl (Option.some.inj hreport.symm)

end JavaClient

/-! ## §6. The clients together. -/

/-- Four clients, what their libraries do, and what their environments answer. -/
structure Fleet where
  interpreter : Python.Interpreter
  library : Python.Library
  python : Python.Script
  goEnv : Go.Env
  go : Go.Script
  nodeEnv : Node.Env
  /-- How many reads of a body the Node client is given. -/
  nodeFuel : Nat
  node : Node.Script
  httpDates : List (List Char → Option Int)
  java : Java.Script

/-- **The clients are configured alike and meet the same script**: the same retries, replies and jitter;
    every `Retry-After` is plain, and a 200 has a body that all decoders classify alike. -/
structure Fleet.Meet (clients : Fleet) (nearest : ℚ → ℚ) (script : Script) (retryCount : Nat) :
    Prop where
  retryCount_lt : retryCount < maxInt32
  maxInt32_le : maxInt32 ≤ clients.goEnv.maxInt
  plain : ∀ n status retryAfter body, script.reply n = .response status retryAfter body →
    Plain clients.library.isDecimal retryAfter
  alike : ∀ n retryAfter body, script.reply n = .response 200 retryAfter body →
    ∃ report, pythonReport (clients.python.result clients.interpreter n) = some report ∧
      goReport (clients.go.result clients.goEnv n) = some report ∧
      nodeReport (clients.node.result clients.nodeEnv n) = some report ∧
      javaReport (clients.java.result n) = some report
  parseTime : DatesHaveDigits clients.goEnv.parseTime
  httpDates : ∀ format ∈ clients.httpDates, DatesHaveDigits format
  rounding : Rounding nearest
  python : ∀ n, PythonMeets (clients.python.outcome n) (script.reply n)
  go : ∀ n, GoMeets (clients.go.outcome n) (script.reply n)
  node : ∀ n, NodeMeets clients.nodeEnv (clients.node.outcome n) (script.reply n)
  java : ∀ n, JavaMeets (clients.java.outcome n) (script.reply n)
  nodeFuel : clients.node.EndsWithin clients.nodeFuel
  pythonJitter : ∀ n, clients.python.jitter n = nearest ((script.jitter n : ℚ) / 1000)
  goJitter : ∀ n : Nat, clients.go.jitter n (Go.retryMaximum n) = inNanoseconds (script.jitter n)
  nodeJitter : ∀ n, clients.node.jitter clients.nodeEnv n = script.jitter n
  javaJitter : ∀ n : Nat, clients.java.jitter n (Java.delayBoundMillis n) =
    Int.ofNat (script.jitter n)

/-- **The four calls agree**: they make the same attempts and the same pauses between them, and end in
    one report, which is one that the last reply demands. -/
def Fleet.Agree (clients : Fleet) (nearest : ℚ → ℚ) (script : Script) (retryCount fuel : Nat)
    (body : List UInt8) (nodeBody : Node.Str) : Prop :=
  ∃ c : Course Nat Report, (script.reply c.attempts).Demands c.attempts c.result ∧
    Delivers (asSeconds nearest) pythonReport body (run clients.python.handler
      (Python.track clients.interpreter clients.library retryCount body fuel 0) Journal.empty) c ∧
    Delivers inNanoseconds goReport body (run clients.go.handler
      (Go.deliver clients.goEnv body retryCount fuel) Journal.empty) c ∧
    Delivers inMillis nodeReport nodeBody ((run clients.node.handler
      (Node.deliver clients.nodeEnv clients.nodeFuel nodeBody retryCount fuel)
        (Journal.empty, [])).map fun r => (r.1, r.2.1)) c ∧
    Delivers Int.ofNat javaReport body (run clients.java.handler
      (Java.track clients.httpDates retryCount body fuel 1) Journal.empty) c

/-- The reply is an error response whose retained body overflows the recursion limit. -/
def Reply.ErrorOverflows (i : Python.Interpreter) : Reply → Prop
  | noResponse => False
  | response status _ body =>
      status ≠ 200 ∧ Python.BodyOverflows i (body.take Python.MAX_RESPONSE_BYTES)

section Agreement

variable {clients : Fleet} {nearest : ℚ → ℚ} {script : Script} {retryCount : Nat}

/-- No failure of the Node client is an error of its own. -/
theorem Fleet.Meet.failsInTransport (h : clients.Meet nearest script retryCount) :
    clients.node.FailsInTransport := by
  intro n e hout
  have hmeets := h.node n
  cases hreply : script.reply n with
  | noResponse =>
      rw [hreply] at hmeets
      obtain ⟨e', hout', hknown, -⟩ := hmeets
      rw [hout, Except.error.injEq] at hout'
      rw [hout']
      exact hknown
  | response status retryAfter body =>
      rw [hreply] at hmeets
      obtain ⟨r, chunks, hout', -⟩ := hmeets
      rw [hout] at hout'
      cases hout'

section Runs

variable {fuel : Nat} {c : Course Nat Nat} (body : List UInt8)

/-- The run of the Python client. -/
theorem Fleet.Meet.pythonRun (h : clients.Meet nearest script retryCount)
    (hc : course (script.verdict retryCount) fuel 1 = some c) :
    run clients.python.handler (Python.track clients.interpreter clients.library retryCount body fuel 0)
      Journal.empty = some (clients.python.result clients.interpreter c.attempts,
        ⟨c.attempts, (c.map (asSeconds nearest) id).log body⟩) := by
  apply run_of_verdicts hc
  · intro n
    exact python_verdict h.rounding h.plain (h.python n) (h.pythonJitter n) clients.interpreter
      retryCount
  · exact Python.run_track_eq_course clients.python clients.interpreter clients.library retryCount
      body fuel

/-- The run of the Go client. -/
theorem Fleet.Meet.goRun (h : clients.Meet nearest script retryCount)
    (hc : course (script.verdict retryCount) fuel 1 = some c) :
    run clients.go.handler (Go.deliver clients.goEnv body retryCount fuel) Journal.empty =
      some (clients.go.result clients.goEnv c.attempts,
        ⟨c.attempts, (c.map inNanoseconds id).log body⟩) := by
  have hmax : retryCount < clients.goEnv.maxInt := h.retryCount_lt.trans_le h.maxInt32_le
  apply run_of_verdicts hc
  · intro n
    exact go_verdict h.plain h.parseTime (h.go n) (h.goJitter n) retryCount
  · exact Go.run_deliver_eq_course clients.go clients.goEnv retryCount body hmax fuel

/-- The run of the Node client. -/
theorem Fleet.Meet.nodeRun (h : clients.Meet nearest script retryCount) (nodeBody : Node.Str)
    (hc : course (script.verdict retryCount) fuel 1 = some c) :
    (run clients.node.handler (Node.deliver clients.nodeEnv clients.nodeFuel nodeBody retryCount fuel)
      (Journal.empty, [])).map (fun r => (r.1, r.2.1)) =
        some (clients.node.result clients.nodeEnv c.attempts,
          ⟨c.attempts, (c.map inMillis id).log nodeBody⟩) := by
  have hmax : retryCount ≤ 2 ^ 53 - 2 := by
    have hlt := h.retryCount_lt
    unfold maxInt32 at hlt
    omega
  apply run_of_verdicts hc
  · intro n
    exact node_verdict h.plain (h.node n) (h.nodeJitter n) retryCount
  · exact Node.run_deliver_eq_course retryCount nodeBody hmax h.failsInTransport h.nodeFuel fuel

/-- The run of the Java client. -/
theorem Fleet.Meet.javaRun (h : clients.Meet nearest script retryCount)
    (hc : course (script.verdict retryCount) fuel 1 = some c) :
    run clients.java.handler (Java.track clients.httpDates retryCount body fuel 1) Journal.empty =
      some (clients.java.result c.attempts, ⟨c.attempts, (c.map Int.ofNat id).log body⟩) := by
  apply run_of_verdicts hc
  · intro n
    exact java_verdict h.plain h.httpDates (h.java n) (h.javaJitter n) retryCount
  · exact Java.run_track_eq_course clients.java clients.httpDates retryCount body h.retryCount_lt fuel

end Runs

/-- The four results of an attempt are reported alike, unless its body overflows the limit of Python. -/
theorem Fleet.Meet.reports (h : clients.Meet nearest script retryCount) {n : Nat}
    (hover : ¬ (script.reply n).ErrorOverflows clients.interpreter) :
    ∃ report, (script.reply n).Demands n report ∧
      pythonReport (clients.python.result clients.interpreter n) = some report ∧
      goReport (clients.go.result clients.goEnv n) = some report ∧
      nodeReport (clients.node.result clients.nodeEnv n) = some report ∧
      javaReport (clients.java.result n) = some report := by
  have hpython := h.python n
  have hgo := h.go n
  have hnode := h.node n
  have hjava := h.java n
  cases hreply : script.reply n with
  | noResponse =>
      rw [hreply] at hpython hgo hnode hjava
      obtain ⟨failure, hout⟩ := hpython
      obtain ⟨err, houtGo⟩ := hgo
      obtain ⟨e, houtNode, -, cause, hcause⟩ := hnode
      obtain ⟨failure', houtJava⟩ := hjava
      refine ⟨.transport n, rfl, ?_, ?_, ?_, ?_⟩
      · unfold Python.Script.result
        rw [hout]
        rfl
      · unfold Go.Script.result
        rw [houtGo]
        rfl
      · unfold Node.Script.result
        rw [houtNode]
        simp only [hcause]
        rfl
      · unfold Java.Script.result
        rw [houtJava]
        rfl
  | response status retryAfter body =>
      by_cases h200 : status = 200
      · subst h200
        obtain ⟨report, hp, hg, hn, hj⟩ := h.alike n retryAfter body hreply
        refine ⟨report, ?_, hp, hg, hn, hj⟩
        show if 200 = 200 then report = .acknowledged ∨ report = .responseDecode n
          else report = statusReport 200 n
        rw [if_pos rfl]
        exact java_report_success hjava hreply hj
      · refine ⟨statusReport status n, ?_, ?_, go_report hgo hreply h200, node_report hnode hreply h200,
          java_report hjava hreply h200⟩
        · show if status = 200 then statusReport status n = .acknowledged ∨
            statusReport status n = .responseDecode n else statusReport status n = statusReport status n
          rw [if_neg h200]
        · rw [hreply] at hover
          rcases python_report hpython clients.interpreter hreply h200 with ⟨hyes, -⟩ | ⟨-, hreport⟩
          · exact absurd ⟨h200, hyes⟩ hover
          · exact hreport

/-- Calls that agree end with an attempt whose body does not overflow the limit of Python. -/
theorem Fleet.Agree.not_overflows {fuel : Nat} {body : List UInt8} {nodeBody : Node.Str}
    (h : clients.Meet nearest script retryCount) (hfuel : retryCount < fuel)
    (hagree : clients.Agree nearest script retryCount fuel body nodeBody) {n : Nat}
    (hlast : script.Last retryCount n) :
    ¬ (script.reply n).ErrorOverflows clients.interpreter := by
  intro hover
  obtain ⟨c, hc, hcourse⟩ := exists_plain_course script hfuel
  have hn : n = c.attempts := hlast.unique (last_of_isCourse hcourse).2
  subst hn
  obtain ⟨agreed, -, ⟨result, hrun, hreport⟩, -⟩ := hagree
  rw [h.pythonRun body hc, Option.some.injEq, Prod.mk.injEq] at hrun
  cases hreply : script.reply c.attempts with
  | noResponse =>
      rw [hreply] at hover
      exact hover
  | response status retryAfter received =>
      rw [hreply] at hover
      rcases python_report (h.python c.attempts) clients.interpreter hreply hover.1 with
        ⟨-, hnone⟩ | ⟨hnot, -⟩
      · rw [hrun.1, hreport] at hnone
        cases hnone
      · exact hnot hover.2

end Agreement

/-! ## §7. Clients that meet a given script. -/

/-- The header of a reply. -/
def retryAfterHeader : List Char := "Retry-After".toList

/-- Clients in ideal environments that answer as a script says.  Their libraries read no date and no
    JSON, and their doubles are exact. -/
def Fleet.ofScript (i : Python.Interpreter) (script : Script) : Fleet where
  interpreter := i
  library := ⟨Char.isDigit, fun _ => none⟩
  python :=
    { outcome := fun n => match script.reply n with
        | .noResponse => .error ⟨"ConnectError".toList⟩
        | .response status retryAfter body => .ok
            ⟨status, [], (retryAfter.map fun value => (retryAfterHeader, value)).toList,
              body.take Python.MAX_RESPONSE_BYTES, decide (Python.MAX_RESPONSE_BYTES < body.length),
              none⟩
      uniform := fun n _ => (script.jitter n : ℚ) / 1000
      clock := fun _ => 0 }
  goEnv :=
    { json :=
        { successEnvelope := fun _ => .error "unexpected end of JSON input".toList
          successData := fun _ => .error "unexpected end of JSON input".toList
          string := fun _ => .error "unexpected end of JSON input".toList
          raw := fun _ => .error "unexpected end of JSON input".toList
          errorEnvelope := fun _ => .error "unexpected end of JSON input".toList }
      parseTime := fun _ => none
      maxInt := 2 ^ 63 - 1 }
  go :=
    { outcome := fun n => match script.reply n with
        | .noResponse => .error "connection refused".toList
        | .response status retryAfter body => .ok (⟨status, retryAfter.getD []⟩, body)
      jitter := fun n _ => inNanoseconds (script.jitter n)
      clock := fun _ => 0 }
  nodeEnv :=
    { nearest := fun q => q
      dateParse := fun _ => none
      redactTransportCause := fun e => .ok e }
  nodeFuel := 2
  node :=
    { outcome := fun n => match script.reply n with
        | .noResponse => .error (.error "fetch failed".toList)
        | .response status retryAfter body => .ok (⟨status, [], retryAfter⟩, [body])
      random := fun n => (script.jitter n : ℚ) / (Node.retryDelayBoundMs n + 1)
      clock := fun _ => 0 }
  httpDates := []
  java :=
    { outcome := fun n => match script.reply n with
        | .noResponse => .error "connection refused".toList
        | .response status retryAfter body => .ok
            ⟨status, (retryAfter.map fun value => (retryAfterHeader, [value])).toList,
              body.take 65536, decide (65536 < body.length), none⟩
      jitter := fun n _ => Int.ofNat (script.jitter n)
      clock := fun _ => 0 }

/-- **Such clients meet their script**, where every `Retry-After` is plain and there is no 200. -/
theorem Fleet.ofScript_meet (i : Python.Interpreter) {script : Script} {retryCount : Nat}
    (hretry : retryCount < maxInt32)
    (hplain : ∀ n status retryAfter body, script.reply n = .response status retryAfter body →
      Plain Char.isDigit retryAfter)
    (h200 : ∀ n retryAfter body, script.reply n ≠ .response 200 retryAfter body) :
    (Fleet.ofScript i script).Meet (fun q => q) script retryCount where
  retryCount_lt := hretry
  maxInt32_le := by
    show 2147483647 ≤ 2 ^ 63 - 1
    norm_num
  plain := hplain
  alike := fun n retryAfter body hreply => absurd hreply (h200 n retryAfter body)
  parseTime := fun _ _ => rfl
  httpDates := by
    intro format hformat
    cases hformat
  rounding := ⟨fun _ _ h => h, fun _ _ => rfl⟩
  python := by
    intro n
    unfold Fleet.ofScript
    cases hreply : script.reply n with
    | noResponse =>
        simp only [hreply]
        exact ⟨_, rfl⟩
    | response status retryAfter body =>
        simp only [hreply]
        refine ⟨_, rfl, rfl, ?_, rfl, rfl, rfl⟩
        cases retryAfter with
        | none => rfl
        | some value =>
            unfold Python.ReceivedResponse.header retryAfterHeader
            simp
  go := by
    intro n
    unfold Fleet.ofScript
    cases hreply : script.reply n with
    | noResponse =>
        simp only [hreply]
        exact ⟨_, rfl⟩
    | response status retryAfter body =>
        simp only [hreply]
        exact ⟨_, rfl, rfl, rfl⟩
  node := by
    intro n
    unfold Fleet.ofScript
    cases hreply : script.reply n with
    | noResponse =>
        simp only [hreply]
        exact ⟨_, rfl, rfl, _, rfl⟩
    | response status retryAfter body =>
        simp only [hreply]
        exact ⟨_, _, rfl, rfl, rfl, List.append_nil body⟩
  java := by
    intro n
    unfold Fleet.ofScript
    cases hreply : script.reply n with
    | noResponse =>
        simp only [hreply]
        exact ⟨_, rfl⟩
    | response status retryAfter body =>
        simp only [hreply]
        refine ⟨_, rfl, rfl, ?_, rfl, rfl, rfl⟩
        cases retryAfter with
        | none => rfl
        | some value =>
            unfold Java.TransportResponse.header retryAfterHeader
            simp
  nodeFuel := by
    intro n
    unfold Fleet.ofScript Node.Script.chunks
    cases hreply : script.reply n with
    | noResponse =>
        simp only [hreply]
        exact Nat.zero_lt_two
    | response status retryAfter body =>
        simp only [hreply]
        exact Nat.one_lt_two
  pythonJitter := fun _ => rfl
  goJitter := fun _ => rfl
  nodeJitter := by
    intro n
    have hpos : (0 : ℚ) < (Node.retryDelayBoundMs n : ℚ) + 1 := by
      have hnonneg : (0 : ℚ) ≤ (Node.retryDelayBoundMs n : ℚ) := Nat.cast_nonneg _
      linarith
    show ((⌊(script.jitter n : ℚ) / (Node.retryDelayBoundMs n + 1) *
      (Node.retryDelayBoundMs n + 1)⌋ : Int) : ℚ) = script.jitter n
    rw [div_mul_cancel₀ _ hpos.ne', Int.floor_natCast]
    rfl
  javaJitter := fun _ => rfl

/-! ## §8. When the clients agree. -/

/-- **The clients agree exactly when the last body does not overflow the recursion limit of Python**: they
    always make the same attempts and pauses, and what they report is one report unless the last reply
    is an error response on whose body Python's `json.loads` raises `RecursionError`. -/
theorem clients_agree_iff (clients : Fleet) (nearest : ℚ → ℚ) (script : Script)
    (retryCount fuel : Nat) (body : List UInt8) (nodeBody : Node.Str)
    (h : clients.Meet nearest script retryCount) (hfuel : retryCount < fuel) :
    clients.Agree nearest script retryCount fuel body nodeBody ↔
      ∀ n, script.Last retryCount n → ¬ (script.reply n).ErrorOverflows clients.interpreter := by
  constructor
  · intro hagree n hlast
    exact hagree.not_overflows h hfuel hlast
  · intro hnot
    obtain ⟨c, hc, hcourse⟩ := exists_plain_course script hfuel
    obtain ⟨report, hdemands, hp, hg, hn, hj⟩ :=
      h.reports (hnot c.attempts (last_of_isCourse hcourse).2)
    refine ⟨⟨c.attempts, c.sleeps, report⟩, hdemands, ?_, ?_, ?_, ?_⟩
    · exact delivers_of_run (h.pythonRun body hc) hp
    · exact delivers_of_run (h.goRun body hc) hg
    · exact delivers_of_run (h.nodeRun nodeBody hc) hn
    · exact delivers_of_run (h.javaRun body hc) hj

/-- A call answered by a 503 that asks for two seconds, and then by a 401. -/
def busyThenUnauthorized : Script :=
  ⟨fun n => if n = 1 then .response 503 (some ['2']) [] else .response 401 none [], fun _ => 100⟩

/-- The clients agree on it: their bodies are empty. -/
theorem clients_agree_busy_then_unauthorized :
    (Fleet.ofScript Python.cpython busyThenUnauthorized).Agree (fun q => q) busyThenUnauthorized
      1 2 [] [] := by
  have hreply : ∀ n, busyThenUnauthorized.reply n = .response 503 (some ['2']) [] ∨
      busyThenUnauthorized.reply n = .response 401 none [] := by
    intro n
    unfold busyThenUnauthorized
    by_cases h1 : n = 1
    · exact .inl (if_pos h1)
    · exact .inr (if_neg h1)
  have hmeet : (Fleet.ofScript Python.cpython busyThenUnauthorized).Meet (fun q => q)
      busyThenUnauthorized 1 := by
    apply Fleet.ofScript_meet
    · decide
    · intro n status retryAfter body h
      rcases hreply n with h' | h'
      · rw [h', Reply.response.injEq] at h
        rw [← h.2.1]
        exact .inl ⟨List.cons_ne_nil _ _, by decide, by decide⟩
      · rw [h', Reply.response.injEq] at h
        rw [← h.2.1]
        trivial
    · intro n retryAfter body h
      rcases hreply n with h' | h'
      · rw [h', Reply.response.injEq] at h
        exact absurd h.1 (by decide)
      · rw [h', Reply.response.injEq] at h
        exact absurd h.1 (by decide)
  have hempty : ¬ Python.BodyOverflows Python.cpython [] := by
    rcases Python.parse_cases Python.cpython [] with ⟨-, hparse⟩ | ⟨hnot, -⟩
    · cases hparse
    · exact hnot
  apply (clients_agree_iff _ _ _ _ _ _ _ hmeet Nat.one_lt_two).mpr
  intro n _ hover
  rcases hreply n with h | h
  · rw [h] at hover
    exact hempty hover.2
  · rw [h] at hover
    exact hempty hover.2

/-- A call whose attempts are answered by a 401 of so many opening brackets. -/
def nestedArrays (depth : Nat) : Script :=
  ⟨fun _ => .response 401 none (List.replicate depth 0x5B), fun _ => 0⟩

theorem nestedArrays_meet (depth : Nat) :
    (Fleet.ofScript Python.cpython (nestedArrays depth)).Meet (fun q => q) (nestedArrays depth) 0 := by
  apply Fleet.ofScript_meet
  · decide
  · intro n status retryAfter body h
    unfold nestedArrays at h
    rw [Reply.response.injEq] at h
    rw [← h.2.1]
    trivial
  · intro n retryAfter body h
    unfold nestedArrays at h
    rw [Reply.response.injEq] at h
    exact absurd h.1 (by decide)

/-- No more brackets than the limit are needed to part the clients. -/
theorem nestedArrays_not_agree {depth : Nat} (h : 1000 < depth) :
    ¬ (Fleet.ofScript Python.cpython (nestedArrays depth)).Agree (fun q => q) (nestedArrays depth)
      0 1 [] [] := by
  have hlast : (nestedArrays depth).Last 0 1 := by
    constructor
    · exact Nat.le_refl 1
    · intro _
      exact Nat.zero_lt_one
    · intro m h1 hlt
      omega
  intro hagree
  apply hagree.not_overflows (nestedArrays_meet depth) Nat.zero_lt_one hlast
  refine ⟨by decide, ?_⟩
  rw [List.take_replicate]
  apply Python.brackets_overflow
  show 1000 < min 65536 depth
  omega

/-- **The clients do not agree on 65,536 brackets**: where the others report an authentication error, the
    Python client raises `RecursionError`. -/
theorem clients_disagree_on_nested_arrays :
    (Fleet.ofScript Python.cpython (nestedArrays 65536)).Meet (fun q => q) (nestedArrays 65536) 0 ∧
      ¬ (Fleet.ofScript Python.cpython (nestedArrays 65536)).Agree (fun q => q) (nestedArrays 65536)
        0 1 [] [] :=
  ⟨nestedArrays_meet 65536, nestedArrays_not_agree (by decide)⟩

end CekatEvents.Clients
