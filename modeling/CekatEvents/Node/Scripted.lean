/-
  CekatEvents.Node.Scripted — calls of the Node client whose signal is never aborted.

  A script answers the attempts, the chunks of the bodies, `Math.random` and the clock.  The journal of
  the run records what was sent and slept; beside it stand the chunks that are still to be read.

  Main results:

    • `run_readBoundedBody` — what is retained of a body does not depend on its chunks;
    • `run_deliver_eq_course` — a scripted call is the course of its verdicts.
-/
import CekatEvents.Node.Delivery
import CekatEvents.Retry.Course

namespace CekatEvents.Node

open CekatEvents.Encoding CekatEvents.JsonText CekatEvents.Http CekatEvents.Effects
open CekatEvents.Retry

/-! ## §1. Scripts. -/

/-- What happens to the attempts of a call, counted from one: fetch rejects, or there is a response and
    the chunks of its body. -/
structure Script where
  outcome : Nat → Except Thrown (Response × List (List UInt8))
  random : Nat → ℚ
  clock : Nat → Int

/-- What a run records. -/
abbrev Seen := Journal Str Millis

/-- The journal, and the chunks that are still to be read. -/
abbrev Scene := Seen × List (List UInt8)

/-- The chunks of the answer to an attempt. -/
def Script.chunks (script : Script) (n : Nat) : List (List UInt8) :=
  match script.outcome n with
  | .ok (_, chunks) => chunks
  | .error _ => []

/-- The environment of a script. -/
def Script.handler (script : Script) : Handler Op Op.Ret Scene
  | .callerSignal, s => (none, s)
  | .newController, s => ((), s)
  | .controllerSignal, s => (none, s)
  | .fetch body, (j, _) =>
      ((script.outcome (j.tried + 1)).map Prod.fst, (j.attempt body, script.chunks (j.tried + 1)))
  | .cancelBody, s => (.ok (), s)
  | .getReader, s => (.ok true, s)
  | .read, (j, []) => (.ok none, (j, []))
  | .read, (j, chunk :: rest) => (.ok (some chunk), (j, rest))
  | .cancelReader, s => (.ok (), s)
  | .dateNow, (j, pending) => (script.clock j.tried, (j, pending))
  | .random, (j, pending) => (script.random j.tried, (j, pending))
  | .sleep milliseconds, (j, pending) => (.ok (), (j.sleep milliseconds, pending))
  | .tick, s => ((), s)

section Scripted

variable (script : Script) (env : Env) (retryCount : Nat) (body : Str)

/-! ## §2. Reading a body. -/

/-- Awaiting takes a turn of the event loop and nothing else. -/
@[simp] theorem run_awaiting {α : Type} (p : Program (Except Thrown α)) (s : Scene) :
    run script.handler (awaiting p) s = run script.handler p s := by
  unfold awaiting
  simp only [run_bind, run_perform, Script.handler, Option.bind_some, run_pure]
  cases run script.handler p s with
  | none => rfl
  | some r => rfl

/-- The signal is never aborted. -/
@[simp] theorem run_throwIfAborted (s : Scene) :
    run script.handler throwIfAborted s = some (none, s) := rfl

/-- **The loop retains a prefix of the body**, and tells whether there was more. -/
theorem run_readLoop (chunks : List (List UInt8)) :
    ∀ (fuel : Nat) (retained : List UInt8) (j : Seen), chunks.length < fuel →
      retained.length ≤ MAX_RESPONSE_BYTES →
      ∃ left, run script.handler (readLoop fuel retained retained.length) (j, chunks) =
        some (.ok ((retained ++ chunks.flatten).take MAX_RESPONSE_BYTES,
          decide (MAX_RESPONSE_BYTES < (retained ++ chunks.flatten).length),
          min (retained ++ chunks.flatten).length (MAX_RESPONSE_BYTES + 1)), (j, left)) := by
  induction chunks with
  | nil =>
      intro fuel retained j hfuel hle
      obtain ⟨fuel, rfl⟩ : ∃ k, fuel = k + 1 := ⟨fuel - 1, by omega⟩
      refine ⟨[], ?_⟩
      rw [readLoop]
      simp only [run_bind, run_awaiting, readWithSignal, run_perform, Script.handler,
        Option.bind_some, run_pure, List.flatten_nil, List.append_nil, List.take_of_length_le hle,
        decide_eq_false (Nat.not_lt.mpr hle), Nat.min_eq_left (Nat.le_succ_of_le hle)]
  | cons chunk rest ih =>
      intro fuel retained j hfuel hle
      obtain ⟨fuel, rfl⟩ : ∃ k, fuel = k + 1 := ⟨fuel - 1, by omega⟩
      rw [List.length_cons] at hfuel
      rw [readLoop]
      simp only [run_bind, run_awaiting, readWithSignal, run_perform, Script.handler,
        Option.bind_some]
      by_cases hfits : chunk.length ≤ MAX_RESPONSE_BYTES - retained.length
      · have hobserved : retained.length + min chunk.length
            (MAX_RESPONSE_BYTES - retained.length + 1) = (retained ++ chunk).length := by
          rw [List.length_append]
          omega
        obtain ⟨left, hrest⟩ := ih fuel (retained ++ chunk) j (by omega)
          (by rw [List.length_append]; omega)
        refine ⟨left, ?_⟩
        rw [if_pos hfits, hobserved, hrest, List.flatten_cons, List.append_assoc]
      · -- the chunk goes past the limit: its prefix fills what is retained
        have hlength : MAX_RESPONSE_BYTES < (retained ++ (chunk ++ rest.flatten)).length := by
          simp only [List.length_append]
          omega
        have htake : (retained ++ (chunk ++ rest.flatten)).take MAX_RESPONSE_BYTES
            = retained ++ chunk.take (MAX_RESPONSE_BYTES - retained.length) := by
          rw [List.take_append, List.take_of_length_le hle,
            List.take_append_of_le_length (by omega)]
        have hobserved : retained.length + min chunk.length
            (MAX_RESPONSE_BYTES - retained.length + 1) = MAX_RESPONSE_BYTES + 1 := by
          omega
        refine ⟨rest, ?_⟩
        simp only [if_neg hfits, run_bind, run_perform, Script.handler, Option.bind_some, run_pure,
          List.flatten_cons, htake, decide_eq_true hlength, hobserved,
          Nat.min_eq_right (Nat.succ_le_of_lt hlength)]

/-- While the chunks fit, the loop goes on with what they say. -/
theorem run_readLoop_append (before after : List (List UInt8)) (fuel : Nat) (retained : List UInt8)
    (j : Seen) (hfits : (retained ++ before.flatten).length ≤ MAX_RESPONSE_BYTES) :
    run script.handler (readLoop (fuel + before.length) retained retained.length) (j, before ++ after) =
      run script.handler
        (readLoop fuel (retained ++ before.flatten) (retained ++ before.flatten).length) (j, after) := by
  induction before generalizing retained with
  | nil => rw [List.flatten_nil, List.append_nil, List.length_nil, Nat.add_zero, List.nil_append]
  | cons chunk before ih =>
      rw [List.flatten_cons, ← List.append_assoc] at hfits ⊢
      have hchunk : chunk.length ≤ MAX_RESPONSE_BYTES - retained.length := by
        rw [List.length_append, List.length_append] at hfits
        omega
      have hobserved : retained.length + min chunk.length
          (MAX_RESPONSE_BYTES - retained.length + 1) = (retained ++ chunk).length := by
        rw [List.length_append]
        omega
      rw [← ih (retained ++ chunk) hfits, List.length_cons, ← Nat.add_assoc, readLoop, List.cons_append]
      simp only [run_bind, run_awaiting, readWithSignal, run_perform, Script.handler, Option.bind_some]
      rw [if_pos hchunk, hobserved]

/-- What is read of a complete body. -/
def boundedBody (received : List UInt8) : BoundedBody :=
  ⟨textDecode (received.take MAX_RESPONSE_BYTES), decide (MAX_RESPONSE_BYTES < received.length),
    min received.length (MAX_RESPONSE_BYTES + 1)⟩

/-- **What is read of a body depends on its bytes only**, however they are cut into chunks. -/
theorem run_readBoundedBody {fuel : Nat} {chunks : List (List UInt8)} (hfuel : chunks.length < fuel)
    (j : Seen) : ∃ left, run script.handler (readBoundedBody fuel) (j, chunks) =
      some (.ok (boundedBody chunks.flatten), (j, left)) := by
  obtain ⟨left, hloop⟩ := run_readLoop script chunks fuel [] j hfuel (Nat.zero_le _)
  rw [List.length_nil, List.nil_append] at hloop
  refine ⟨left, ?_⟩
  unfold readBoundedBody
  simp only [run_bind, run_perform, Script.handler, Option.bind_some, hloop, run_pure]
  rfl

/-- A response is classified by the bytes of its body. -/
theorem run_classifyResponse {fuel : Nat} {chunks : List (List UInt8)}
    (hfuel : chunks.length < fuel) (response : Response) (attempts : Nat) (j : Seen) :
    ∃ left, run script.handler (classifyResponse fuel response attempts) (j, chunks) =
      some (classifyBody response attempts (boundedBody chunks.flatten), (j, left)) := by
  obtain ⟨left, hread⟩ := run_readBoundedBody script hfuel j
  refine ⟨left, ?_⟩
  unfold classifyResponse
  simp only [run_bind, run_awaiting, hread, Option.bind_some, run_pure]

/-! ## §3. The attempts. -/

/-- The delay that the server asks for in the answer to an attempt. -/
def Script.requested (n : Nat) : Option Millis :=
  match script.outcome n with
  | .ok (response, _) => parseRetryAfterMs env.dateParse response.retryAfter (script.clock n)
  | .error _ => none

/-- The result of a call that ends with an attempt. -/
def Script.result (n : Nat) : Ending :=
  match script.outcome n with
  | .error error =>
      match env.redactTransportCause error with
      | .ok cause => .rejected (.transport
          "event delivery failed after transport failures".toList n cause)
      | .error e => .rejected e
  | .ok (response, chunks) =>
      match classifyBody response n (boundedBody chunks.flatten) with
      | .ok acknowledgement => .resolved acknowledgement
      | .error e => .rejected e

/-- The jitter before a retry. -/
def Script.jitter (n : Nat) : ℚ :=
  ⌊env.nearest (script.random n * (retryDelayBoundMs n + 1))⌋

/-- What the client sleeps before a retry. -/
def Script.delay (n : Nat) : Millis :=
  max (script.jitter env n : Millis) ((script.requested env n).getD 0)

/-- The attempt may be followed by another one. -/
def Script.retryable (n : Nat) : Bool :=
  match script.outcome n with
  | .error _ => true
  | .ok (response, _) => isRetryableStatus response.status &&
      (script.requested env n).all fun delay => decide (delay ≤ MAXIMUM_RETRY_AFTER_MS)

/-- What the loop does after an attempt. -/
def Script.verdict (n : Nat) : Verdict Millis Ending :=
  retryVerdict (script.retryable env) (script.delay env) (script.result env) retryCount n

/-- No attempt fails with an error that the client itself throws for a response. -/
def Script.FailsInTransport : Prop :=
  ∀ n e, script.outcome n = .error e → isKnownOutcomeError e = false

/-- Every body ends within the fuel. -/
def Script.EndsWithin (fuel : Nat) : Prop := ∀ n, (script.chunks n).length < fuel

/-- What is thrown for a response is a known outcome. -/
theorem isKnownOutcomeError_of_classifyBody {response : Response} {attempts : Nat}
    {received : BoundedBody} {e : Thrown}
    (h : classifyBody response attempts received = .error e) : isKnownOutcomeError e = true := by
  have hstatus : ∀ fields, isKnownOutcomeError (statusError response.status fields) = true := by
    intro fields
    unfold statusError
    split_ifs
    · rfl
    · rfl
    · rfl
  unfold classifyBody at h
  split_ifs at h
  · cases h
    rfl
  · cases hparse : parseAcknowledgement received.rawBody with
    | ok a =>
        rw [hparse] at h
        cases h
    | error cause =>
        rw [hparse] at h
        cases h
        rfl
  · cases hparse : parseApiError received.rawBody with
    | none =>
        rw [hparse] at h
        cases h
        exact hstatus _
    | some fields =>
        rw [hparse] at h
        cases h
        exact hstatus _

variable {script env} {fuel : Nat}

/-- An attempt that fetch rejects fails as fetch did. -/
theorem run_attempt_error {n : Nat} {e : Thrown} (hout : script.outcome n = .error e) (s : Scene)
    (hs : s.1.tried + 1 = n) (consume : Response → Program (Except Thrown Consumed)) :
    run script.handler (attempt body consume) s = some (.error e, (s.1.attempt body, [])) := by
  subst hs
  have hchunks : script.chunks (s.1.tried + 1) = [] := by
    unfold Script.chunks
    rw [hout]
  unfold attempt
  simp only [run_bind, run_perform, Script.handler, Option.bind_some, hout, Except.map, run_pure,
    run_throwIfAborted, hchunks]

/-- A response that asks for a retry the client agrees to is not read. -/
theorem run_attempt_retry {n : Nat} {response : Response} {chunks : List (List UInt8)}
    (hout : script.outcome n = .ok (response, chunks)) (hretry : script.retryable env n = true)
    {maximumAttempts : Nat} (hn : n ≠ maximumAttempts) (s : Scene) (hs : s.1.tried + 1 = n) :
    run script.handler (attempt body (consumeResponse env fuel n maximumAttempts)) s =
      some (.ok (.retry (script.requested env n)), (s.1.attempt body, chunks)) := by
  have hchunks : script.chunks n = chunks := by
    unfold Script.chunks
    rw [hout]
  have hrequested : script.requested env n =
      parseRetryAfterMs env.dateParse response.retryAfter (script.clock n) := by
    unfold Script.requested
    rw [hout]
  simp only [Script.retryable, hout, Bool.and_eq_true] at hretry
  subst hs
  rw [hrequested] at hretry ⊢
  have hagain : (isRetryableStatus response.status && s.1.tried + 1 != maximumAttempts) = true := by
    rw [hretry.1, Bool.true_and, bne_iff_ne]
    exact hn
  unfold attempt
  simp only [run_bind, run_perform, Script.handler, Option.bind_some, hout, Except.map,
    run_throwIfAborted, run_awaiting, consumeResponse, if_pos hagain, Journal.tried_attempt,
    if_pos hretry.2, cancelBody, run_pure, hchunks]

/-- Every other response is read and classified. -/
theorem run_attempt_classified {n : Nat} {response : Response} {chunks : List (List UInt8)}
    (hout : script.outcome n = .ok (response, chunks)) (hfuel : chunks.length < fuel)
    {maximumAttempts : Nat} (hstop : script.retryable env n = true → n = maximumAttempts) (s : Scene)
    (hs : s.1.tried + 1 = n) :
    ∃ left, run script.handler (attempt body (consumeResponse env fuel n maximumAttempts)) s =
      some ((classifyBody response n (boundedBody chunks.flatten)).map .acknowledged,
        (s.1.attempt body, left)) := by
  have hchunks : script.chunks n = chunks := by
    unfold Script.chunks
    rw [hout]
  have hrequested : script.requested env n =
      parseRetryAfterMs env.dateParse response.retryAfter (script.clock n) := by
    unfold Script.requested
    rw [hout]
  obtain ⟨left, hread⟩ :=
    run_classifyResponse script hfuel response n (s.1.attempt body)
  refine ⟨left, ?_⟩
  have hconsume : run script.handler (consumeResponse env fuel n maximumAttempts response)
      (s.1.attempt body, chunks) =
        some ((classifyBody response n (boundedBody chunks.flatten)).map .acknowledged,
          (s.1.attempt body, left)) := by
    have hclassified : run script.handler (do
        match ← awaiting (classifyResponse fuel response n) with
        | .ok a => pure (.ok (Consumed.acknowledged a))
        | .error e => pure (.error e)) (s.1.attempt body, chunks) =
          some ((classifyBody response n (boundedBody chunks.flatten)).map .acknowledged,
            (s.1.attempt body, left)) := by
      simp only [run_bind, run_awaiting, hread, Option.bind_some]
      cases classifyBody response n (boundedBody chunks.flatten) with
      | ok a => rfl
      | error e => rfl
    unfold consumeResponse
    by_cases hagain : (isRetryableStatus response.status && n != maximumAttempts) = true
    · rw [Bool.and_eq_true, bne_iff_ne] at hagain
      have hmuch : ¬ ((script.requested env n).all
          fun delay => decide (delay ≤ MAXIMUM_RETRY_AFTER_MS)) = true := by
        intro hall
        apply hagain.2 ∘ hstop
        simp only [Script.retryable, hout, hagain.1, hall, Bool.and_self]
      rw [hrequested, ← hs] at hmuch
      rw [if_pos (by rw [Bool.and_eq_true, bne_iff_ne]; exact hagain)]
      simp only [run_bind, run_perform, Script.handler, Option.bind_some, Journal.tried_attempt,
        if_neg hmuch]
      exact run_bind.symm.trans hclassified
    · rw [if_neg hagain]
      exact hclassified
  subst hs
  unfold attempt
  simp only [run_bind, run_perform, Script.handler, Option.bind_some, hout, Except.map,
    run_throwIfAborted, run_awaiting, hchunks, hconsume]
  cases classifyBody response (s.1.tried + 1) (boundedBody chunks.flatten) with
  | ok a => rfl
  | error e => rfl

/-! ## §4. The loop. -/

/-- A pause leaves the sleep. -/
theorem run_backoff {n : Nat} (s : Scene) (hs : s.1.tried = n) (retryAfterMs : Option Millis) :
    run script.handler (backoff env n retryAfterMs) s =
      some (.ok (), (s.1.sleep (max (script.jitter env n : Millis) (retryAfterMs.getD 0)), s.2)) := by
  subst hs
  unfold backoff abortableSleep
  simp only [run_bind, run_throwIfAborted, run_awaiting, run_perform, Script.handler,
    Option.bind_some, run_pure]
  rfl

/-- One turn of the loop follows the verdict of its attempt. -/
theorem run_deliverLoop_turn (hmax : retryCount ≤ 2 ^ 53 - 2) (hfails : script.FailsInTransport)
    (hends : script.EndsWithin fuel) (turns n : Nat) (s : Scene) (hs : s.1.tried + 1 = n)
    (hn : n ≤ retryCount + 1) :
    (run script.handler (deliverLoop env fuel body (retryCount + 1) (turns + 1) n) s).map
        (fun r => (r.1, r.2.1)) =
      match script.verdict env retryCount n with
      | .stop result => some (result, s.1.attempt body)
      | .again delay =>
          (run script.handler (deliverLoop env fuel body (retryCount + 1) turns (n + 1))
            ((s.1.attempt body).sleep delay, script.chunks n)).map fun r => (r.1, r.2.1) := by
  have htried : (s.1.attempt body).tried = n := hs
  have hnext : add n 1 = n + 1 := add_eq (by omega)
  rw [deliverLoop, if_pos hn]
  simp only [run_bind, run_throwIfAborted, run_awaiting, Option.bind_some]
  cases hout : script.outcome n with
  | error e =>
      have hretry : script.retryable env n = true := by
        unfold Script.retryable
        rw [hout]
      have hchunks : script.chunks n = [] := by
        unfold Script.chunks
        rw [hout]
      have hdelay : script.delay env n
          = max (script.jitter env n : Millis) ((none : Option Millis).getD 0) := by
        unfold Script.delay Script.requested
        rw [hout]
      simp only [run_attempt_error body hout s hs, Option.bind_some, run_bind, run_throwIfAborted,
        hfails n e hout, Bool.false_eq_true, if_false, Script.verdict, retryVerdict, hretry,
        Bool.true_and, decide_eq_true_eq, hchunks]
      by_cases hleft : n ≤ retryCount
      · rw [if_neg (by omega), if_pos hleft]
        simp only [run_bind, run_awaiting, run_backoff (s.1.attempt body, []) htried,
          Option.bind_some, hnext, hdelay]
      · rw [if_pos (by omega), if_neg hleft]
        simp only [Script.result, hout]
        cases env.redactTransportCause e with
        | ok cause => rfl
        | error e' => rfl
  | ok answer =>
      obtain ⟨response, chunks⟩ := answer
      have hchunks : script.chunks n = chunks := by
        unfold Script.chunks
        rw [hout]
      by_cases hagain : script.retryable env n = true ∧ n ≤ retryCount
      · have hverdict : script.verdict env retryCount n = .again (script.delay env n) := by
          exact retryVerdict_again hagain.1 hagain.2
        simp only [run_attempt_retry body hout hagain.1 (by omega : n ≠ retryCount + 1) s hs,
          Option.bind_some, run_bind, run_awaiting,
          run_backoff (s.1.attempt body, chunks) htried, hnext, hverdict, hchunks]
        rfl
      · have hlt : script.retryable env n = true → retryCount < n := by
          intro hretry
          by_contra hle
          exact hagain ⟨hretry, Nat.le_of_not_lt hle⟩
        have hverdict : script.verdict env retryCount n = .stop (script.result env n) :=
          retryVerdict_stop hlt
        have hlength : chunks.length < fuel := by
          have hlt := hends n
          rw [hchunks] at hlt
          exact hlt
        have hstop : script.retryable env n = true → n = retryCount + 1 := by
          intro hretry
          have hlast := hlt hretry
          omega
        obtain ⟨left, hattempt⟩ := run_attempt_classified body hout hlength hstop s hs
        simp only [hattempt, Option.bind_some, hverdict, Script.result, hout]
        cases hbody : classifyBody response n (boundedBody chunks.flatten) with
        | ok a => rfl
        | error e =>
            have hknown := isKnownOutcomeError_of_classifyBody hbody
            simp only [Except.map, run_bind, run_throwIfAborted, Option.bind_some, hknown, if_true,
              run_pure, Option.map_some]

/-- **A scripted call is the course of its verdicts.** -/
theorem run_deliver_eq_course (hmax : retryCount ≤ 2 ^ 53 - 2) (hfails : script.FailsInTransport)
    (hends : script.EndsWithin fuel) (turns : Nat) :
    (run script.handler (deliver env fuel body retryCount turns) (Journal.empty, [])).map
        (fun r => (r.1, r.2.1)) =
      (course (script.verdict env retryCount) turns 1).map fun c =>
        (c.result, ⟨c.sleeps.length + 1, c.log body⟩) := by
  have hattempts : add retryCount 1 = retryCount + 1 := add_eq (by omega)
  unfold deliver
  rw [hattempts]
  -- after a retry the chunks of its answer are still to be read
  apply journal_eq_course
    (fun turns n s => (run script.handler
      (deliverLoop env fuel body (retryCount + 1) turns n) s).map fun r => (r.1, r.2.1))
    (fun delay s => ((s.1.attempt body).sleep delay, script.chunks (s.1.tried + 1)))
    (fun s => s.1) (retryCount + 1)
  · intro n hn
    exact ⟨_, retryVerdict_of_lt (by omega)⟩
  · exact Nat.le_add_left 1 retryCount
  · intro delay s
    rfl
  · intro n s
    rfl
  · intro turns n s hs hn
    rw [run_deliverLoop_turn retryCount body hmax hfails hends turns n s hs hn]
    cases script.verdict env retryCount n with
    | stop result => rfl
    | again delay =>
        rw [← hs]
  · rfl

end Scripted

end CekatEvents.Node
