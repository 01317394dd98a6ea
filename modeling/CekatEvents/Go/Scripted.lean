/-
  CekatEvents.Go.Scripted — calls of the Go client whose context is never done.

  A script answers the attempts, the jitter source and the clock; the journal of the run records what
  was sent and slept.  Main result: `run_deliver_eq_course`.
-/
import CekatEvents.Go.Client
import CekatEvents.Retry.Course

namespace CekatEvents.Go

open CekatEvents.Http CekatEvents.Effects CekatEvents.Arithmetic CekatEvents.Retry

/-- What happens to the attempts of a call, counted from one: no response, or a response with its
    complete body. -/
structure Script where
  outcome : Nat → Except Cause (Response × Bytes)
  jitter : Nat → Duration → Duration
  clock : Nat → Int

/-- What a run records. -/
abbrev Seen := Journal Bytes Duration

/-- What the client reads of a complete body. -/
def observed (body : Bytes) : Observed := ⟨body.take (responseBodyLimit + 1), none⟩

/-- The environment of a script. -/
def Script.handler (script : Script) : Handler Op Op.Ret Seen
  | .ctxErr, j => (none, j)
  | .newRequest _ body, j => (none, j.attempt body)
  | .httpDo, j => ((script.outcome j.tried).map Prod.fst, j)
  | .readAll, j =>
      (match script.outcome j.tried with
        | .ok (_, body) => observed body
        | .error _ => ⟨[], none⟩, j)
  | .timeNow, j => (script.clock j.tried, j)
  | .jitter upper, j => (script.jitter j.tried upper, j)
  | .observe _, j => ((), j)
  | .sleep delay, j => (none, j.sleep delay)

section Scripted

variable (script : Script) (env : Env) (retryCount : Nat) (body : Bytes)

/-- The delay that the server asks for in the answer to an attempt. -/
def Script.requested (n : Nat) : Option Duration :=
  match script.outcome n with
  | .ok (response, _) => parseRetryAfter env.parseTime response.retryAfter (script.clock n)
  | .error _ => none

/-- The result of a call that ends with an attempt. -/
def Script.result (n : Nat) : Ending :=
  match script.outcome n with
  | .error err => .returned none (some (.transport
      ⟨"Cekat API request failed before a response was received".toList, n, true, err⟩))
  | .ok (response, body) =>
      match decodeResponse env.json response.statusCode (observed body) n with
      | .ok acknowledgement => .returned (some acknowledgement) none
      | .error err => .returned none (some err)

/-- What the client sleeps before a retry. -/
def Script.delay (n : Nat) : Duration :=
  retryDelay (script.requested env n) (script.jitter n (retryMaximum n))

/-- The attempt may be followed by another one. -/
def Script.retryable (n : Nat) : Bool :=
  match script.outcome n with
  | .error _ => true
  | .ok (response, _) => isRetryableStatus response.statusCode &&
      !(script.requested env n).any fun delay => decide (maximumRetryAfter < delay)

/-- What the loop does after an attempt. -/
def Script.verdict (n : Nat) : Verdict Duration Ending :=
  retryVerdict (script.retryable env) (script.delay env) (script.result env) retryCount n

/-- An acknowledgement comes with a 200, which is not retried. -/
theorem decodeResponse_ok_status {json : EncodingJson} {statusCode : Nat} {o : Observed}
    {attempts : Int} {a : Acknowledgement} (h : decodeResponse json statusCode o attempts = .ok a) :
    isRetryableStatus statusCode = false := by
  by_cases h200 : statusCode = 200
  · rw [h200]
    rfl
  · unfold decodeResponse at h
    simp only [if_neg h200] at h
    split_ifs at h

/-- What `doAttempt` gives in a scripted call. -/
def Script.attemptResult (n : Nat) : AttemptResult :=
  match script.outcome n with
  | .error err => ⟨none, some (.transport
      ⟨"Cekat API request failed before a response was received".toList, n, true, err⟩), true, none⟩
  | .ok (response, body) =>
      match decodeResponse env.json response.statusCode (observed body) n with
      | .ok acknowledgement => ⟨some acknowledgement, none, false, none⟩
      | .error err =>
          if isRetryableStatus response.statusCode then
            ⟨none, some err, true, script.requested env n⟩
          else ⟨none, some err, false, none⟩

/-- An attempt without an error ends the call; one with an error is retried where it may be, and not
    once the server asks for too long a pause. -/
theorem attemptResult_cases (n : Nat) :
    (∃ a, script.attemptResult env n = ⟨some a, none, false, none⟩ ∧
        script.result env n = .returned (some a) none ∧ script.retryable env n = false) ∨
      (∃ e, script.attemptResult env n = ⟨none, some e, true, script.requested env n⟩ ∧
        script.result env n = .returned none (some e) ∧ script.retryable env n =
          !(script.requested env n).any fun delay => decide (maximumRetryAfter < delay)) ∨
      (∃ e, script.attemptResult env n = ⟨none, some e, false, none⟩ ∧
        script.result env n = .returned none (some e) ∧ script.retryable env n = false) := by
  cases hout : script.outcome n with
  | error err =>
      refine .inr (.inl ⟨.transport
        ⟨"Cekat API request failed before a response was received".toList, n, true, err⟩, ?_, ?_, ?_⟩)
      · simp only [Script.attemptResult, Script.requested, hout]
      · simp only [Script.result, hout]
      · simp only [Script.retryable, Script.requested, hout]
        rfl
  | ok answer =>
      obtain ⟨response, body⟩ := answer
      cases hdec : decodeResponse env.json response.statusCode (observed body) n with
      | ok acknowledgement =>
          refine .inl ⟨acknowledgement, ?_, ?_, ?_⟩
          · simp only [Script.attemptResult, hout, hdec]
          · simp only [Script.result, hout, hdec]
          · simp only [Script.retryable, hout, decodeResponse_ok_status hdec, Bool.false_and]
      | error err =>
          by_cases hretry : isRetryableStatus response.statusCode = true
          · refine .inr (.inl ⟨err, ?_, ?_, ?_⟩)
            · simp only [Script.attemptResult, hout, hdec, hretry, if_true]
            · simp only [Script.result, hout, hdec]
            · simp only [Script.retryable, hout, hretry, Bool.true_and]
          · rw [Bool.not_eq_true] at hretry
            refine .inr (.inr ⟨err, ?_, ?_, ?_⟩)
            · simp only [Script.attemptResult, hout, hdec, hretry, Bool.false_eq_true, if_false]
            · simp only [Script.result, hout, hdec]
            · simp only [Script.retryable, hout, hretry, Bool.false_and]

/-- An attempt sends the body once. -/
theorem run_doAttempt (n : Nat) (j : Seen) (hj : j.tried + 1 = n) :
    run script.handler (doAttempt env body n) j =
      some (script.attemptResult env n, j.attempt body) := by
  subst hj
  unfold doAttempt Script.attemptResult
  simp only [run_bind, run_perform, Script.handler, Option.bind_some, Journal.tried_attempt]
  cases hout : script.outcome (j.tried + 1) with
  | error err =>
      simp only [Except.map, run_bind, run_perform, Script.handler, Option.bind_some]
      rfl
  | ok answer =>
      obtain ⟨response, received⟩ := answer
      simp only [Except.map, finishAttempt, run_bind, run_perform, Script.handler, Option.bind_some,
        Journal.tried_attempt, hout]
      cases hdec : decodeResponse env.json response.statusCode (observed received)
          ((j.tried + 1 : Nat) : Int) with
      | ok acknowledgement => rfl
      | error err =>
          simp only
          by_cases hretry : isRetryableStatus response.statusCode = true
          · rw [if_pos hretry, if_pos hretry]
            simp only [run_bind, run_perform, Script.handler, Option.bind_some,
              Journal.tried_attempt, Script.requested, hout]
            rfl
          · rw [if_neg hretry, if_neg hretry]
            rfl

/-- One turn of the loop follows the verdict of its attempt. -/
theorem run_deliverLoop_turn (hmax : retryCount < env.maxInt) (fuel n : Nat) (j : Seen)
    (hj : j.tried + 1 = n) (hn : n ≤ retryCount + 1) :
    run script.handler (deliverLoop env body (retryCount + 1) (fuel + 1) n) j =
      match script.verdict env retryCount n with
      | .stop result => some (result, j.attempt body)
      | .again delay =>
          run script.handler (deliverLoop env body (retryCount + 1) fuel (n + 1 : Nat))
            ((j.attempt body).sleep delay) := by
  have hbound : (n : Int) ≤ (retryCount : Int) + 1 := by omega
  have hlast : (n : Int) = (retryCount : Int) + 1 ↔ ¬ n ≤ retryCount := by omega
  rw [deliverLoop, if_pos hbound]
  simp only [run_bind, run_perform, Script.handler, Option.bind_some,
    run_doAttempt script env body n j hj]
  unfold Script.verdict retryVerdict
  rcases attemptResult_cases script env n with ⟨a, hres, hend, hretry⟩ |
    ⟨e, hres, hend, hretry⟩ | ⟨e, hres, hend, hretry⟩
  · simp only [hres, hend, hretry, run_pure, Bool.false_and, Bool.false_eq_true, if_false]
  · simp only [hres, hend, run_bind, run_perform, Script.handler, Option.bind_some, Bool.not_true,
      Bool.false_or, decide_eq_true_eq, hlast]
    by_cases hleft : n ≤ retryCount
    · rw [if_neg (not_not.mpr hleft)]
      by_cases hmuch : (script.requested env n).any (fun d => decide (maximumRetryAfter < d)) = true
      · simp only [hretry, hmuch, if_true, run_pure, Bool.not_true, Bool.false_and,
          Bool.false_eq_true, if_false]
      · have hnext : wrap env.maxInt ((n : Int) + 1) = ((n + 1 : Nat) : Int) := by
          rw [wrap_eq (by omega) (by omega)]
          rfl
        rw [Bool.not_eq_true] at hmuch
        simp only [hretry, hmuch, Bool.false_eq_true, if_false, run_bind, run_perform,
          Script.handler, Option.bind_some, Journal.tried_attempt, hj, hnext, Bool.not_false,
          Bool.true_and, decide_eq_true hleft, if_true, Script.delay, hres]
    · rw [if_pos hleft]
      simp only [run_pure, decide_eq_false hleft, Bool.and_false, Bool.false_eq_true, if_false]
  · simp only [hres, hend, hretry, run_bind, run_perform, Script.handler, Option.bind_some,
      Bool.not_false, Bool.true_or, if_true, run_pure, Bool.false_and, Bool.false_eq_true, if_false]

/-- **A scripted call is the course of its verdicts.** -/
theorem run_deliver_eq_course (hmax : retryCount < env.maxInt) (fuel : Nat) :
    run script.handler (deliver env body retryCount fuel) Journal.empty =
      (course (script.verdict env retryCount) fuel 1).map fun c =>
        (c.result, ⟨c.sleeps.length + 1, c.log body⟩) := by
  have hattempts : retryAttempts env.maxInt retryCount = some ((retryCount : Int) + 1) :=
    retryAttempts_eq (by omega) (by omega)
  unfold deliver
  rw [hattempts]
  apply journal_eq_course
    (fun fuel n j => run script.handler (deliverLoop env body (retryCount + 1) fuel (n : Nat)) j)
    (fun delay j => (j.attempt body).sleep delay) (fun j => j) (retryCount + 1)
  · intro n hn
    exact ⟨_, retryVerdict_of_lt (by omega)⟩
  · exact Nat.le_add_left 1 retryCount
  · intro delay j
    rfl
  · intro n j
    rfl
  · intro fuel n j hj hn
    rw [run_deliverLoop_turn script env retryCount body hmax fuel n j hj hn]
    cases script.verdict env retryCount n with
    | again delay => rfl
    | stop result => rfl
  · rfl

end Scripted

end CekatEvents.Go
