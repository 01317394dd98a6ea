/-
  CekatEvents.Python.Client — delivery with retries in the Python client (`client.py`).

  `track` is the loop of `Client._track` on an encoded body, over four effects: one HTTP attempt, a
  sleep, the jitter source and the clock.  A script answers the attempts; the journal of the run
  records what was sent and slept.

  What is asked of a call is stated over `Retry.Policy`, apart from the decisions of `retry.py`.

  Main results:

    • `run_track_lastAttempt` — the loop makes the attempts up to the last one that it repeats, sleeps
      before each retry, and ends in what that attempt decodes to;
    • `track_contract_iff` — a call keeps its contract exactly when no retry is due after a `Retry-After`
      of more than nine digits.
-/
import CekatEvents.Python.Retry
import CekatEvents.Effects.Outcome
import CekatEvents.Effects.Program
import CekatEvents.Retry.Policy

namespace CekatEvents.Python

open CekatEvents.Encoding CekatEvents.Http CekatEvents.Effects CekatEvents.Retry

/-! ## §1. The loop. -/

/-- An `httpx.TransportError`, by the name of its class. -/
structure TransportFailure where
  typeName : List Char

/-- The fields of `TransportError`. -/
structure TransportError where
  message : List Char
  attempts : Nat
  cause : TransportFailure

/-- `transport_error`. -/
def transportError (cause : TransportFailure) (attempts : Nat) : TransportError :=
  let noun := if attempts = 1 then "attempt" else "attempts"
  ⟨"no response from Cekat after ".toList ++ (Nat.repr attempts).toList ++ [' '] ++ noun.toList
      ++ " (".toList ++ cause.typeName ++ "); the event may have been received".toList,
    attempts, cause⟩

/-- What a call raises. -/
inductive TrackRaised where
  | transport (e : TransportError)
  | decoding (e : Raised)

/-- What happens to an attempt. -/
abbrev Outcome := Except TransportFailure ReceivedResponse

/-- The effects of the loop. -/
inductive Op where
  | attempt (body : List UInt8)
  | sleep (seconds : Seconds)
  | uniform (upper : ℚ)
  | utcnow

/-- What an effect answers. -/
abbrev Op.Ret : Op → Type
  | attempt _ => Outcome
  | sleep _ => Unit
  | uniform _ => ℚ
  | utcnow => ℚ

/-- A program of the client. -/
abbrev Program (α : Type) := Prog Op Op.Ret α

/-- One effect. -/
abbrev perform (op : Op) : Program op.Ret := Prog.perform op

/-- A result of the call. -/
abbrev Result := Except TrackRaised Acknowledgement

/-- `decode(response, attempts)`, as the result of the call. -/
def decoded (i : Interpreter) (response : ReceivedResponse) (attempts : Nat) : Result :=
  (decode i response attempts).mapError .decoding

section Loop

variable (i : Interpreter) (lib : Library) (retryCount : Nat) (body : List UInt8)

/-- `retry_delay` with the effects of the client. -/
def clientRetryDelay (attempts : Nat) (retryAfter : Option (List Char)) :
    Program (Option Seconds) :=
  retryDelay lib (perform .utcnow) (fun upper => perform (.uniform upper)) attempts retryAfter

/-- The `while True` of `Client._track`, for at most `fuel` turns, after `attempts` attempts. -/
def track : Nat → Nat → Program Result
  | 0, _ => .cutOff
  | fuel + 1, attemptsBefore => do
      let attempts := attemptsBefore + 1
      match ← perform (.attempt body) with
      | .error error =>
          if attempts > retryCount then pure (.error (.transport (transportError error attempts)))
          else do
            let delay ← clientRetryDelay lib attempts none
            -- `or 0.0`: without a Retry-After there always is a delay
            perform (.sleep (delay.getD 0))
            track fuel attempts
      | .ok response =>
          if isRetryableStatus response.statusCode && decide (attempts ≤ retryCount) then do
            let delay ← clientRetryDelay lib attempts (response.header "Retry-After".toList)
            match delay with
            | some delay => do
                perform (.sleep delay)
                track fuel attempts
            | none => pure (decoded i response attempts)
          else pure (decoded i response attempts)

end Loop

/-! ## §2. Scripted runs. -/

/-- What the environment of a call does: the outcome of every attempt, the jitter source and the clock
    at every retry, counted from one. -/
structure Script where
  outcome : Nat → Outcome
  uniform : Nat → ℚ → ℚ
  clock : Nat → ℚ

/-- What a run records. -/
abbrev Seen := Journal (List UInt8) Seconds

/-- The environment of a script. -/
def Script.handler (script : Script) : Handler Op Op.Ret Seen
  | .attempt body, j => (script.outcome (j.tried + 1), j.attempt body)
  | .sleep seconds, j => ((), j.sleep seconds)
  | .uniform upper, j => (script.uniform j.tried upper, j)
  | .utcnow, j => (script.clock j.tried, j)

/-- The delay that the server asks for in the answer to an attempt. -/
def Script.requested (script : Script) (lib : Library) (n : Nat) : Option Seconds :=
  match script.outcome n with
  | .ok response =>
      parseRetryAfter lib (response.header "Retry-After".toList) (script.clock n)
  | .error _ => none

/-- The jitter before a retry. -/
def Script.jitter (script : Script) (n : Nat) : ℚ := script.uniform n (jitterUpperBound n)

/-- What the client sleeps before a retry. -/
def Script.delay (script : Script) (lib : Library) (n : Nat) : Seconds :=
  max (script.jitter n : Seconds) ((script.requested lib n).getD 0)

/-- The result of a call that ends with an attempt. -/
def Script.result (script : Script) (i : Interpreter) (n : Nat) : Result :=
  match script.outcome n with
  | .error error => .error (.transport (transportError error n))
  | .ok response => decoded i response n

/-- What the loop does after an attempt. -/
def Script.verdict (script : Script) (i : Interpreter) (lib : Library) (retryCount n : Nat) :
    Verdict Seconds Result :=
  match script.outcome n with
  | .error _ =>
      if n > retryCount then .stop (script.result i n) else .again (script.delay lib n)
  | .ok response =>
      if isRetryableStatus response.statusCode && decide (n ≤ retryCount) then
        if asksTooMuch (script.requested lib n) then .stop (script.result i n)
        else .again (script.delay lib n)
      else .stop (script.result i n)

section Scripted

variable (script : Script) (i : Interpreter) (lib : Library) (retryCount : Nat) (body : List UInt8)

/-- Computing a delay reads the clock and the jitter source, and leaves no trace. -/
theorem run_clientRetryDelay (attempts : Nat) (retryAfter : Option (List Char)) (j : Seen) :
    run script.handler (clientRetryDelay lib attempts retryAfter) j =
      some (let requested := parseRetryAfter lib retryAfter (script.clock j.tried)
        if asksTooMuch requested then none
        else some (max (script.uniform j.tried (jitterUpperBound attempts) : Seconds)
          (requested.getD 0)), j) := by
  simp only [clientRetryDelay, retryDelay, run_bind, run_perform, Script.handler, Option.bind_some]
  split_ifs
  · rfl
  · rfl

/-- One turn of the loop follows the verdict of its attempt. -/
theorem run_track_turn (fuel n : Nat) (j : Seen) (hj : j.tried = n) :
    run script.handler (track i lib retryCount body (fuel + 1) n) j =
      match script.verdict i lib retryCount (n + 1) with
      | .stop result => some (result, j.attempt body)
      | .again delay =>
          run script.handler (track i lib retryCount body fuel (n + 1))
            ((j.attempt body).sleep delay) := by
  subst hj
  rw [track]
  simp only [run_bind, run_perform, Script.handler, Option.bind_some, Script.verdict]
  cases hout : script.outcome (j.tried + 1) with
  | error error =>
      by_cases hlast : j.tried + 1 > retryCount
      · simp only [if_pos hlast, run_pure, Script.result, hout]
      · have hdelay : script.delay lib (j.tried + 1)
            = max (script.jitter (j.tried + 1) : Seconds) 0 := by
          simp only [Script.delay, Script.requested, hout, Option.getD_none]
        simp only [if_neg hlast, run_bind, run_clientRetryDelay, Journal.tried_attempt,
          parseRetryAfter_none, Option.bind_some, run_perform, Script.handler, hdelay]
        rfl
  | ok response =>
      have hreq : script.requested lib (j.tried + 1) = parseRetryAfter lib
          (response.header "Retry-After".toList) (script.clock (j.tried + 1)) := by
        simp only [Script.requested, hout]
      by_cases hretry : (isRetryableStatus response.statusCode
          && decide (j.tried + 1 ≤ retryCount)) = true
      · simp only [if_pos hretry, run_bind, run_clientRetryDelay, Journal.tried_attempt,
          Option.bind_some, ← hreq]
        by_cases hmuch : asksTooMuch (script.requested lib (j.tried + 1)) = true
        · simp only [if_pos hmuch, run_pure, Script.result, hout]
        · simp only [if_neg hmuch, run_bind, run_perform, Script.handler, Option.bind_some]
          rfl
      · simp only [if_neg hretry, run_pure, Script.result, hout]

/-- The last attempt allowed is not repeated. -/
theorem verdict_of_lt {n : Nat} (h : retryCount < n) :
    script.verdict i lib retryCount n = .stop (script.result i n) := by
  unfold Script.verdict
  cases script.outcome n with
  | error error => exact if_pos h
  | ok response =>
      have hlast : decide (n ≤ retryCount) = false := decide_eq_false (by omega)
      simp only [hlast, Bool.and_false, Bool.false_eq_true, if_false]

/-- The attempt may be followed by another one. -/
def Script.retryable (n : Nat) : Bool :=
  match script.outcome n with
  | .error _ => true
  | .ok response => isRetryableStatus response.statusCode && !asksTooMuch (script.requested lib n)

/-- The loop repeats what may be repeated while a retry is left. -/
theorem verdict_eq_retryVerdict (n : Nat) : script.verdict i lib retryCount n =
    retryVerdict (script.retryable lib) (script.delay lib) (script.result i) retryCount n := by
  unfold Script.verdict retryVerdict Script.retryable
  cases hout : script.outcome n with
  | error error =>
      by_cases hlast : n > retryCount
      · rw [if_pos hlast, decide_eq_false (by omega)]
        rfl
      · rw [if_neg hlast, decide_eq_true (by omega)]
        rfl
  | ok response =>
      by_cases hretry : (isRetryableStatus response.statusCode && decide (n ≤ retryCount)) = true
      · have hboth := (Bool.and_eq_true _ _).mp hretry
        by_cases hmuch : asksTooMuch (script.requested lib n) = true
        · simp only [if_pos hretry, hmuch, if_true, Bool.not_true, Bool.and_false, Bool.false_and,
            Bool.false_eq_true, if_false]
        · rw [Bool.not_eq_true] at hmuch
          simp only [hmuch, Bool.false_eq_true, if_false, hboth.1, hboth.2, Bool.not_false,
            Bool.and_self, if_true]
      · have hstop : (isRetryableStatus response.statusCode && !asksTooMuch (script.requested lib n)
            && decide (n ≤ retryCount)) ≠ true := by
          intro h
          apply hretry
          rw [Bool.and_eq_true, Bool.and_eq_true] at h
          rw [h.1.1, h.2]
          rfl
        simp only [if_neg hretry, if_neg hstop]

/-- **A run of the loop is the course of its verdicts.** -/
theorem run_track_eq_course (fuel : Nat) :
    run script.handler (track i lib retryCount body fuel 0) Journal.empty =
      (course (script.verdict i lib retryCount) fuel 1).map fun c =>
        (c.result, ⟨c.sleeps.length + 1, c.log body⟩) := by
  -- the program counts the attempts before its turn
  apply journal_eq_course
    (fun fuel n j => run script.handler (track i lib retryCount body fuel (n - 1)) j)
    (fun delay j => (j.attempt body).sleep delay) (fun j => j) (retryCount + 1)
  · intro n hn
    exact ⟨_, verdict_of_lt script i lib retryCount (by omega)⟩
  · exact Nat.le_add_left 1 retryCount
  · intro delay j
    rfl
  · intro n j
    rfl
  · intro fuel n j hj _
    rw [← hj, Nat.add_sub_cancel, Nat.add_sub_cancel,
      run_track_turn script i lib retryCount body fuel j.tried j rfl]
    cases script.verdict i lib retryCount (j.tried + 1) with
    | again delay => rfl
    | stop result => rfl
  · rfl

/-- **Every run makes the attempts up to the last one that the loop repeats**, and sleeps before each
    retry. -/
theorem run_track_lastAttempt {fuel k : Nat} (hfuel : retryCount < fuel)
    (hk : LastAttempt (script.retryable lib) retryCount k) :
    run script.handler (track i lib retryCount body fuel 0) Journal.empty =
      some (script.result i k, ⟨k, ((List.range (k - 1)).flatMap fun n =>
        [.attempt body, .sleep (script.delay lib (n + 1))]) ++ [.attempt body]⟩) := by
  have hfirst := hk.first_le
  have hle := hk.le
  have hverdict : script.verdict i lib retryCount =
      retryVerdict (script.retryable lib) (script.delay lib) (script.result i) retryCount :=
    funext fun n => verdict_eq_retryVerdict script i lib retryCount n
  have hcourse : course (script.verdict i lib retryCount) fuel 1 =
      some ⟨k, (List.range (k - 1)).map fun n => script.delay lib (n + 1), script.result i k⟩ := by
    rw [hverdict]
    exact course_eq_some_iff.mpr ⟨hk.isCourse, show k < 1 + fuel by omega⟩
  rw [run_track_eq_course, hcourse, Option.map_some, Course.log, List.length_map, List.length_range,
    List.flatMap_map, Nat.sub_add_cancel hfirst]

end Scripted

/-! ## §3. What is asked of a call. -/

/-- The value of the first `Retry-After` of a response, whatever the case of its name, without white space
    around it. -/
def ReceivedResponse.retryAfter (r : ReceivedResponse) : List Char :=
  strip (((r.headers.find? fun e => e.1.map Char.toLower == "retry-after".toList).map Prod.snd).getD [])

section Demands

variable (script : Script) (lib : Library)

/-- What the policy is told of an attempt. -/
def Script.answer (n : Nat) : Answer :=
  match script.outcome n with
  | .error _ => .nothing
  | .ok response => .response response.statusCode (askedSeconds lib.isDecimal
      (lib.parsedateToDatetime response.retryAfter) (script.clock n) response.retryAfter)

/-- The policy repeats an attempt. -/
def Script.repeated (n : Nat) : Bool := decide (script.answer lib n).Repeated

/-- The jitter before a retry: the bound doubles from a tenth of a second up to a second. -/
def Script.drawn (n : Nat) : ℚ := script.uniform n (min (tenth * 2 ^ (n - 1)) 1)

/-- The seconds to sleep before a retry. -/
def Script.pause (n : Nat) : ℚ := max (script.drawn n) (script.answer lib n).asked

/-- An attempt is answered by a `Retry-After` of more than nine digits. -/
def Script.AnsweredOverlong (n : Nat) : Prop :=
  ∃ response, script.outcome n = .ok response ∧ Overlong response.retryAfter

/-- **What a call owes its caller**, `k` being the number of attempts it makes. -/
structure Script.Contract (i : Interpreter) (retryCount : Nat) (body : List UInt8) (fuel k : Nat) :
    Prop where
  /-- The last attempt is the first one that the policy does not repeat, or after which no retry is
      left. -/
  last : LastAttempt (script.repeated lib) retryCount k
  /-- It sends the same bytes `k` times, with one sleep between two attempts, and returns what the last
      of them stands for. -/
  runs : run script.handler (track i lib retryCount body fuel 0) Journal.empty =
    some (script.result i k, ⟨k, ((List.range (k - 1)).flatMap fun n =>
      [.attempt body, .sleep ((script.pause lib (n + 1) : ℚ) : Seconds)]) ++ [.attempt body]⟩)
  drawn_bounds : ∀ n, 1 ≤ n → n < k →
    0 ≤ script.drawn n ∧ script.drawn n ≤ min (tenth * 2 ^ (n - 1)) 1
  pause_bounds : ∀ n, 1 ≤ n → n < k →
    0 ≤ script.pause lib n ∧ script.pause lib n ≤ 5 ∧ (script.answer lib n).asked ≤ script.pause lib n
  /-- No attempt follows a 200. -/
  no_success_before : ∀ n, 1 ≤ n → n < k →
    ∀ response, script.outcome n = .ok response → response.statusCode ≠ 200
  transport_iff : (∃ e, script.result i k = .error (.transport e) ∧ e.attempts = k) ↔
    ∃ failure, script.outcome k = .error failure

end Demands

/-! ## §4. What the loop does. -/

section Deeds

variable {script : Script} {lib : Library}

/-- What the loop reads of a response. -/
theorem requested_eq {n : Nat} {response : ReceivedResponse} (hout : script.outcome n = .ok response) :
    script.requested lib n = if Overlong response.retryAfter then some ⊤
      else (askedSeconds lib.isDecimal (lib.parsedateToDatetime response.retryAfter) (script.clock n)
        response.retryAfter).map fun seconds : ℚ => ((seconds : ℚ) : Seconds) := by
  unfold Script.requested
  rw [hout]
  exact parseRetryAfter_eq lib (response.header "Retry-After".toList) (script.clock n)

/-- What the policy is told of a response. -/
theorem answer_of_ok {n : Nat} {response : ReceivedResponse} (hout : script.outcome n = .ok response) :
    script.answer lib n = .response response.statusCode (askedSeconds lib.isDecimal
      (lib.parsedateToDatetime response.retryAfter) (script.clock n) response.retryAfter) := by
  unfold Script.answer
  rw [hout]

/-- Five seconds are the limit for a number of seconds. -/
theorem asksTooMuch_coe (asked : Option ℚ) :
    asksTooMuch (asked.map fun seconds : ℚ => ((seconds : ℚ) : Seconds)) = false ↔ asked.getD 0 ≤ 5 := by
  cases asked with
  | none => exact iff_of_true rfl (show (0 : ℚ) ≤ 5 by norm_num)
  | some seconds =>
      show decide (((5 : ℚ) : Seconds) < ((seconds : ℚ) : Seconds)) = false ↔ seconds ≤ 5
      rw [decide_eq_false_iff_not, WithTop.coe_lt_coe, not_lt]

theorem asksTooMuch_top : asksTooMuch (some ⊤) = true := decide_eq_true (WithTop.coe_lt_top (5 : ℚ))

/-- **The loop repeats what the policy repeats**, but for a value of more than nine digits. -/
theorem retryable_iff (n : Nat) :
    script.retryable lib n = true ↔ script.repeated lib n = true ∧ ¬ script.AnsweredOverlong n := by
  unfold Script.repeated
  rw [decide_eq_true_eq]
  cases hout : script.outcome n with
  | error failure =>
      have hanswer : script.answer lib n = .nothing := by
        unfold Script.answer
        rw [hout]
      refine iff_of_true ?_ ⟨?_, ?_⟩
      · unfold Script.retryable
        rw [hout]
      · rw [hanswer]
        trivial
      · rintro ⟨response, hok, -⟩
        rw [hout] at hok
        cases hok
  | ok response =>
      have hover : script.AnsweredOverlong n ↔ Overlong response.retryAfter := by
        constructor
        · rintro ⟨r, hok, hlong⟩
          rw [hout] at hok
          cases hok
          exact hlong
        · exact fun hlong => ⟨response, hout, hlong⟩
      have hretryable : script.retryable lib n =
          (isRetryableStatus response.statusCode && !asksTooMuch (script.requested lib n)) := by
        unfold Script.retryable
        rw [hout]
      rw [hretryable, answer_of_ok hout, hover, Bool.and_eq_true, Bool.not_eq_true', isRetryableStatus_iff,
        requested_eq hout]
      show _ ↔ (_ ∧ _) ∧ _
      by_cases hlong : Overlong response.retryAfter
      · rw [if_pos hlong, asksTooMuch_top]
        exact iff_of_false (fun h => Bool.noConfusion h.2) (fun h => h.2 hlong)
      · rw [if_neg hlong, asksTooMuch_coe, and_iff_left hlong]

/-- The jitter is drawn under the bound of the policy. -/
theorem jitter_eq_drawn {n : Nat} (h1 : 1 ≤ n) : script.jitter n = script.drawn n := by
  unfold Script.jitter Script.drawn
  rw [jitterUpperBound_eq h1]

/-- The loop sleeps for as long as the policy has it, unless the value has more than nine digits. -/
theorem delay_eq_pause {n : Nat} (h1 : 1 ≤ n) (hshort : ¬ script.AnsweredOverlong n) :
    script.delay lib n = ((script.pause lib n : ℚ) : Seconds) := by
  have hrequested : (script.requested lib n).getD 0 = (((script.answer lib n).asked : ℚ) : Seconds) := by
    cases hout : script.outcome n with
    | error failure =>
        unfold Script.requested Script.answer
        rw [hout]
        rfl
    | ok response =>
        have hlong : ¬ Overlong response.retryAfter := fun h => hshort ⟨response, hout, h⟩
        rw [requested_eq hout, if_neg hlong, answer_of_ok hout]
        show _ = (((askedSeconds lib.isDecimal (lib.parsedateToDatetime response.retryAfter)
          (script.clock n) response.retryAfter).getD 0 : ℚ) : Seconds)
        cases askedSeconds lib.isDecimal (lib.parsedateToDatetime response.retryAfter) (script.clock n)
          response.retryAfter with
        | none => rfl
        | some seconds => rfl
  unfold Script.delay Script.pause
  rw [hrequested, jitter_eq_drawn h1]
  exact (WithTop.coe_max _ _).symm

/-- A pause is not shorter than the server asked, nor negative, nor over five seconds. -/
theorem pause_bounds {n : Nat} (hdrawn : 0 ≤ script.drawn n ∧ script.drawn n ≤ 1)
    (hrepeated : script.repeated lib n = true) :
    0 ≤ script.pause lib n ∧ script.pause lib n ≤ 5 ∧ (script.answer lib n).asked ≤ script.pause lib n := by
  have hasked := (of_decide_eq_true hrepeated : (script.answer lib n).Repeated).asked_le
  refine ⟨hdrawn.1.trans (le_max_left _ _), ?_, le_max_right _ _⟩
  apply max_le
  · linarith [hdrawn.2]
  · exact hasked

/-- A 200 is not repeated. -/
theorem statusCode_ne_of_repeated {n : Nat} (hrepeated : script.repeated lib n = true)
    {response : ReceivedResponse} (hout : script.outcome n = .ok response) : response.statusCode ≠ 200 := by
  intro h200
  have hmem : (script.answer lib n).Repeated := of_decide_eq_true hrepeated
  rw [answer_of_ok hout] at hmem
  have hstatus : response.statusCode ∈ [429, 500, 502, 503, 504] := hmem.1
  rw [h200] at hstatus
  exact absurd hstatus (by decide)

/-- A call ends in a transport error exactly when its last attempt had no response. -/
theorem result_transport_iff (script : Script) (i : Interpreter) (k : Nat) :
    (∃ e, script.result i k = .error (.transport e) ∧ e.attempts = k) ↔
      ∃ failure, script.outcome k = .error failure := by
  unfold Script.result
  cases hout : script.outcome k with
  | error failure => exact iff_of_true ⟨_, rfl, rfl⟩ ⟨failure, rfl⟩
  | ok response =>
      refine iff_of_false ?_ ?_
      · rintro ⟨e, he, -⟩
        simp only [decoded] at he
        cases hdec : decode i response k with
        | ok a => simp [hdec] at he
        | error raised => simp [hdec] at he
      · rintro ⟨failure, hfail⟩
        cases hfail

section Calls

variable {i : Interpreter} {retryCount fuel : Nat} {body : List UInt8}

/-- A call that keeps its contract repeats whatever is due. -/
theorem retryable_of_contract (hfuel : retryCount < fuel) {k : Nat}
    (h : script.Contract lib i retryCount body fuel k) {n : Nat}
    (hdue : Due (script.repeated lib) retryCount n) : script.retryable lib n = true := by
  obtain ⟨m, hm⟩ := exists_lastAttempt (script.retryable lib) retryCount
  have hruns := h.runs
  rw [run_track_lastAttempt script i lib retryCount body hfuel hm, Option.some.injEq, Prod.mk.injEq,
    Journal.mk.injEq] at hruns
  exact (lastAttempt_eq_iff (fun n hn => ((retryable_iff n).mp hn).1) hm h.last).mp hruns.2.1 n hdue

/-- A call that repeats whatever is due keeps its contract. -/
theorem contract_of_retryable
    (huniform : ∀ n upper, 0 ≤ upper → 0 ≤ script.uniform n upper ∧ script.uniform n upper ≤ upper)
    (hfuel : retryCount < fuel)
    (hdue : ∀ n, Due (script.repeated lib) retryCount n → script.retryable lib n = true) :
    ∃ k, script.Contract lib i retryCount body fuel k := by
  obtain ⟨m, hm⟩ := exists_lastAttempt (script.retryable lib) retryCount
  obtain ⟨k, hk⟩ := exists_lastAttempt (script.repeated lib) retryCount
  have hmk : m = k := (lastAttempt_eq_iff (fun n hn => ((retryable_iff n).mp hn).1) hm hk).mpr hdue
  subst hmk
  have htenth : (0 : ℚ) ≤ tenth := by unfold tenth; norm_num
  have hdrawn : ∀ n, 0 ≤ script.drawn n ∧ script.drawn n ≤ min (tenth * 2 ^ (n - 1)) 1 :=
    fun n => huniform n _ (le_min (by positivity) zero_le_one)
  refine ⟨m, hk, ?_, fun n _ _ => hdrawn n, ?_, ?_, result_transport_iff script i m⟩
  · rw [run_track_lastAttempt script i lib retryCount body hfuel hm,
      log_congr fun n h1 hlt => delay_eq_pause h1 ((retryable_iff n).mp (hm.before n h1 hlt)).2]
  · intro n h1 hlt
    exact pause_bounds ⟨(hdrawn n).1, (hdrawn n).2.trans (min_le_right _ _)⟩ (hk.before n h1 hlt)
  · intro n h1 hlt response hout
    exact statusCode_ne_of_repeated (hk.before n h1 hlt) hout

end Calls

end Deeds

/-- **A call keeps its contract exactly when no retry is due after a `Retry-After` of more than nine
    digits**, whatever its attempts meet, if the jitter source keeps to the bound it is given. -/
theorem track_contract_iff (script : Script) (i : Interpreter) (lib : Library) (retryCount : Nat)
    (body : List UInt8) (fuel : Nat)
    (huniform : ∀ n upper, 0 ≤ upper → 0 ≤ script.uniform n upper ∧ script.uniform n upper ≤ upper)
    (hfuel : retryCount < fuel) :
    (∃ k, script.Contract lib i retryCount body fuel k) ↔
      ∀ n, Due (script.repeated lib) retryCount n → ¬ script.AnsweredOverlong n := by
  constructor
  · rintro ⟨k, hk⟩ n hdue
    exact ((retryable_iff n).mp (retryable_of_contract hfuel hk hdue)).2
  · intro hshort
    apply contract_of_retryable huniform hfuel
    intro n hdue
    exact (retryable_iff n).mpr ⟨hdue.2.2 n hdue.1 le_rfl, hshort n hdue⟩

/-- A header of a response that asks for a delay. -/
def retryAfterHeader (value : String) : List (List Char × List Char) :=
  [("Retry-After".toList, value.toList)]

/-- The body of an acknowledgement. -/
def acceptedBody : List UInt8 := utf8
  ("\x7b\"success\":true,\"data\":\x7b\"success\":true,\"message\":\"accepted\"," ++
    "\"event_key\":\"order_paid\",\"validated_properties\":[]\x7d\x7d").toList

/-- A call that is not answered at first, then asked to wait for two seconds, and then acknowledged. -/
def recovering : Script where
  outcome
    | 1 => .error ⟨"ConnectTimeout".toList⟩
    | 2 => .ok ⟨503, [], retryAfterHeader " 2", [], false, none⟩
    | _ => .ok ⟨200, [], [], acceptedBody, false, none⟩
  uniform _ upper := upper / 2
  clock _ := 0

theorem track_contract_recovering :
    ∃ k, recovering.Contract ⟨Char.isDigit, fun _ => none⟩ cpython 2 [0x7B, 0x7D] 3 k := by
  refine (track_contract_iff recovering cpython _ 2 _ 3 ?_ (by decide)).mpr ?_
  · intro _ upper h
    show 0 ≤ upper / 2 ∧ upper / 2 ≤ upper
    exact ⟨by positivity, half_le_self h⟩
  · rintro n ⟨h1, hn, -⟩ ⟨response, hout, hlong⟩
    have hcases : n = 1 ∨ n = 2 := by omega
    rcases hcases with rfl | rfl
    · cases hout
    · cases hout
      exact absurd hlong (by decide)

/-- A server that asks for three seconds with ten digits. -/
def padding : Script where
  outcome _ := .ok ⟨503, [], retryAfterHeader "0000000003", [], false, none⟩
  uniform _ upper := upper
  clock _ := 0

/-- **Three seconds written with ten digits end the call**, which owes two more attempts. -/
theorem padding_breaks_contract :
    ¬ ∃ k, padding.Contract ⟨Char.isDigit, fun _ => none⟩ cpython 2 [0x7B, 0x7D] 3 k := by
  rintro ⟨k, hk⟩
  have hdue : Due (padding.repeated ⟨Char.isDigit, fun _ => none⟩) 2 1 := by
    refine ⟨le_rfl, by decide, ?_⟩
    intro m h1 hm
    obtain rfl : m = 1 := by omega
    decide +kernel
  have hretryable := retryable_of_contract (by decide) hk hdue
  have hoverlong : padding.AnsweredOverlong 1 := ⟨_, rfl, by decide⟩
  exact ((retryable_iff 1).mp hretryable).2 hoverlong

end CekatEvents.Python
