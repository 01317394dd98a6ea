/-
  CekatEvents.Java.Scripted — calls of the Java client on a thread that is never interrupted.

  A script answers the attempts, the jitter source and the clock; the journal of the run records what
  was sent and slept.  Main result: `run_track_eq_course`.
-/
import CekatEvents.Java.Client
import CekatEvents.Effects.Outcome
import CekatEvents.Retry.Course

namespace CekatEvents.Java

open CekatEvents.Http CekatEvents.Effects CekatEvents.Arithmetic CekatEvents.Retry

/-- What happens to the attempts of a call, counted from one: a transport failure by its message, or a
    response. -/
structure Script where
  outcome : Nat → Except (List Char) TransportResponse
  jitter : Nat → Int → Int
  clock : Nat → Int

/-- What a run records. -/
abbrev Seen := Journal (List UInt8) Int

/-- The environment of a script. -/
def Script.handler (script : Script) : Handler Op Op.Ret Seen
  | .interrupted, j => (false, j)
  | .execute body, j =>
      ((script.outcome (j.tried + 1)).mapError .transportFailure, j.attempt body)
  | .now, j => (script.clock j.tried, j)
  | .jitter bound, j => (script.jitter j.tried bound, j)
  | .sleep millis, j => (false, j.sleep millis)

section Scripted

variable (script : Script) (httpDates : List (List Char → Option Int)) (retryCount : Nat)
  (body : List UInt8)

/-- The delay that the server asks for in the answer to an attempt. -/
def Script.requested (n : Nat) : Except ArithmeticException (Option Int) :=
  match script.outcome n with
  | .ok response =>
      parseRetryAfterMillis httpDates (response.header "Retry-After".toList) (script.clock n)
  | .error _ => .ok none

/-- The exception that the delay of a response throws when another attempt is left. -/
def Script.thrown (n : Nat) : Option ArithmeticException :=
  match script.outcome n, script.requested httpDates n with
  | .ok response, .error e =>
      if isRetryableStatus response.statusCode && decide (n ≤ retryCount) then some e else none
  | _, _ => none

/-- The delay, when there is one. -/
def Script.asked (n : Nat) : Option Int := (script.requested httpDates n).toOption.getD none

/-- The result of a call that ends with an attempt. -/
def Script.result (n : Nat) : Result :=
  match script.outcome n with
  | .error failure => .error (.transport
      ⟨"Cekat API request failed before a response was received".toList, n, failure⟩)
  | .ok response => (decode response n).mapError .decoding

/-- What the client sleeps before a retry. -/
def Script.delay (n : Nat) : Int :=
  max (script.jitter n (delayBoundMillis n)) ((script.asked httpDates n).getD 0)

/-- The attempt may be followed by another one. -/
def Script.retryable (n : Nat) : Bool :=
  match script.outcome n with
  | .error _ => true
  | .ok response => isRetryableStatus response.statusCode &&
      (script.asked httpDates n).all fun delay => decide (delay ≤ MAXIMUM_RETRY_AFTER_MILLIS)

/-- What the loop does after an attempt. -/
def Script.verdict (n : Nat) : Verdict Int Result :=
  match script.thrown httpDates retryCount n with
  | some e => .stop (.error (.arithmetic e))
  | none =>
      retryVerdict (script.retryable httpDates) (script.delay httpDates) script.result retryCount n

theorem thrown_eq_none {n : Nat} (h : ¬ n ≤ retryCount) :
    script.thrown httpDates retryCount n = none := by
  unfold Script.thrown
  cases script.outcome n with
  | error failure => rfl
  | ok response =>
      cases script.requested httpDates n with
      | error e => simp [h]
      | ok requested => rfl

/-- A pause leaves the sleep. -/
theorem run_backoff (n : Nat) (j : Seen) (hj : j.tried = n) (retryAfterMillis : Option Int) :
    run script.handler (backoff n retryAfterMillis) j =
      some (false,
        j.sleep (max (script.jitter n (delayBoundMillis n)) (retryAfterMillis.getD 0))) := by
  subst hj
  rfl

/-- One turn of the loop follows the verdict of its attempt. -/
theorem run_track_turn (hmax : retryCount < maxInt32) (fuel n : Nat) (j : Seen)
    (hj : j.tried + 1 = n) (hn : n ≤ retryCount + 1) :
    run script.handler (track httpDates retryCount body (fuel + 1) n) j =
      match script.verdict httpDates retryCount n with
      | .stop result => some (result, j.attempt body)
      | .again delay =>
          run script.handler (track httpDates retryCount body fuel (n + 1 : Nat))
            ((j.attempt body).sleep delay) := by
  have htried : (j.attempt body).tried = n := hj
  have hmaximum : int32 ((retryCount : Int) + 1) = (retryCount : Int) + 1 :=
    int32_eq (by omega) (by omega)
  have hleft : (n : Int) < (retryCount : Int) + 1 ↔ n ≤ retryCount := by omega
  have hnext : n ≤ retryCount → int32 ((n : Int) + 1) = ((n + 1 : Nat) : Int) := by
    intro hle
    rw [int32_eq (by omega) (by omega)]
    rfl
  rw [track]
  simp only [run_bind, run_perform, Script.handler, Option.bind_some, Bool.false_eq_true, if_false,
    hj, hmaximum]
  unfold Script.verdict retryVerdict
  cases hout : script.outcome n with
  | error failure =>
      have hthrown : script.thrown httpDates retryCount n = none := by
        unfold Script.thrown
        rw [hout]
      have hretry : script.retryable httpDates n = true := by
        unfold Script.retryable
        rw [hout]
      have hdelay : script.delay httpDates n =
          max (script.jitter n (delayBoundMillis n)) ((none : Option Int).getD 0) := by
        unfold Script.delay Script.asked Script.requested
        rw [hout]
        rfl
      simp only [hthrown, mapError_error, hretry, Bool.true_and, decide_eq_true_eq]
      by_cases hle : n ≤ retryCount
      · rw [if_neg (by omega), if_pos hle]
        simp only [run_bind, run_backoff script n (j.attempt body) htried, Option.bind_some,
          Bool.false_eq_true, if_false, hnext hle, hdelay]
      · rw [if_pos (by omega), if_neg hle]
        simp only [run_pure, Script.result, hout]
  | ok response =>
      have hrequested : script.requested httpDates n = parseRetryAfterMillis httpDates
          (response.header "Retry-After".toList) (script.clock n) := by
        unfold Script.requested
        rw [hout]
      have hresult : script.result n = (decode response n).mapError .decoding := by
        unfold Script.result
        rw [hout]
      simp only [mapError_ok, Script.retryable, Script.thrown, Script.delay, Script.asked, hout, hleft,
        hresult]
      by_cases hagain : n ≤ retryCount ∧ isRetryableStatus response.statusCode = true
      · rw [if_pos (by simp only [hagain.1, hagain.2, decide_true, Bool.and_self])]
        simp only [run_bind, run_perform, Script.handler, Option.bind_some, htried, ← hrequested]
        cases hasks : script.requested httpDates n with
        | error e => simp only [hagain.1, hagain.2, decide_true, Bool.and_self, if_true, run_pure]
        | ok requested =>
            simp only [Except.toOption, Option.getD_some]
            by_cases hshort : requested.all
                (fun delay => decide (delay ≤ MAXIMUM_RETRY_AFTER_MILLIS)) = true
            · simp only [hshort, if_true, run_bind, run_backoff script n (j.attempt body) htried,
                Option.bind_some, Bool.false_eq_true, if_false, hnext hagain.1, hagain.1, hagain.2,
                decide_true, Bool.and_self]
            · simp only [hshort, Bool.false_eq_true, if_false, run_pure, Bool.and_false,
                Bool.false_and]
      · have hstatus : (isRetryableStatus response.statusCode && decide (n ≤ retryCount)) = false := by
          rw [Bool.eq_false_iff]
          intro h
          rw [Bool.and_eq_true, decide_eq_true_eq] at h
          exact hagain ⟨h.2, h.1⟩
        have hstop : (isRetryableStatus response.statusCode &&
            ((script.requested httpDates n).toOption.getD none).all
              (fun delay => decide (delay ≤ MAXIMUM_RETRY_AFTER_MILLIS)) && decide (n ≤ retryCount))
              ≠ true := by
          simp only [ne_eq, Bool.and_eq_true, decide_eq_true_eq]
          intro h
          exact hagain ⟨h.2, h.1.1⟩
        rw [if_neg (by simpa using hagain), if_neg hstop]
        cases script.requested httpDates n with
        | error e =>
            simp only [hstatus, Bool.false_eq_true, if_false]
            rfl
        | ok requested => rfl

/-- **A scripted call is the course of its verdicts.** -/
theorem run_track_eq_course (hmax : retryCount < maxInt32) (fuel : Nat) :
    run script.handler (track httpDates retryCount body fuel 1) Journal.empty =
      (course (script.verdict httpDates retryCount) fuel 1).map fun c =>
        (c.result, ⟨c.sleeps.length + 1, c.log body⟩) := by
  apply journal_eq_course
    (fun fuel n j => run script.handler (track httpDates retryCount body fuel (n : Nat)) j)
    (fun delay j => (j.attempt body).sleep delay) (fun j => j) (retryCount + 1)
  · intro n hn
    unfold Script.verdict
    rw [thrown_eq_none script httpDates retryCount (by omega)]
    exact ⟨_, retryVerdict_of_lt (by omega)⟩
  · exact Nat.le_add_left 1 retryCount
  · intro delay j
    rfl
  · intro n j
    rfl
  · intro fuel n j hj hn
    rw [run_track_turn script httpDates retryCount body hmax fuel n j hj hn]
    cases script.verdict httpDates retryCount n with
    | again delay => rfl
    | stop result => rfl
  · rfl

end Scripted

end CekatEvents.Java
