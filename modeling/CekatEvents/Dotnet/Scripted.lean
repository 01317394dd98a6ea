/-
  CekatEvents.Dotnet.Scripted — calls of the .NET client whose token is never cancelled.

  A script answers the attempts, the chunks of the bodies, the jitter source and the clock.  The journal of
  the run records what was sent and slept; beside it stand the chunks that are still to be read, and what
  the stream ends with.

  Main results:

    • `run_readLoop`             — what is observed of a body does not depend on its chunks;
    • `run_trackAsync_eq_course` — a scripted call is the course of its verdicts.
-/
import CekatEvents.Dotnet.Client
import CekatEvents.Retry.Course

namespace CekatEvents.Dotnet

open CekatEvents.Http CekatEvents.Effects CekatEvents.Arithmetic CekatEvents.Retry

/-! ## §1. Scripts. -/

/-- What a stream is read as: a chunk is never empty, and at the end it may fail. -/
structure BodyStream where
  chunks : List (List UInt8)
  chunks_ne : ∀ chunk ∈ chunks, chunk ≠ []
  ending : Option Failure

/-- The stream of an attempt without a response. -/
def BodyStream.none : BodyStream := ⟨[], fun _ h => absurd h List.not_mem_nil, Option.none⟩

/-- What happens to the attempts of a call, counted from one: the request fails, or there is a response and
    the stream of its body. -/
structure Script where
  outcome : Nat → Except Failure (Response × BodyStream)
  jitter : Nat → ℚ → ℚ
  clock : Nat → Int

/-- What a run records. -/
abbrev Seen := Journal (List UInt8) TimeSpan

/-- The journal, the chunks that are still to be read, and what comes after them. -/
abbrev Scene := Seen × List (List UInt8) × Option Failure

/-- The stream of the answer to an attempt. -/
def Script.stream (script : Script) (n : Nat) : BodyStream :=
  match script.outcome n with
  | .ok (_, stream) => stream
  | .error _ => BodyStream.none

/-- The environment of a script. -/
def Script.handler (script : Script) : Handler Op Op.Ret Scene
  | .throwIfCancellationRequested, s => (false, s)
  | .isCancellationRequested, s => (false, s)
  | .sendAsync body, (j, _) => ((script.outcome (j.tried + 1)).map Prod.fst,
      (j.attempt body, (script.stream (j.tried + 1)).chunks, (script.stream (j.tried + 1)).ending))
  | .readAsStreamAsync, s => (.ok (), s)
  | .readAsync _, (j, [], none) => (.ok [], (j, [], none))
  | .readAsync _, (j, [], some f) => (.error f, (j, [], some f))
  | .readAsync room, (j, chunk :: rest, ending) =>
      (.ok (chunk.take room),
        (j, if chunk.length ≤ room then rest else chunk.drop room :: rest, ending))
  | .getUtcNow, s => (script.clock s.1.tried, s)
  | .jitter upper, s => (script.jitter s.1.tried upper, s)
  | .delay duration, (j, pending) => (false, (j.sleep duration, pending))

section Scripted

variable (script : Script) (tryParseExact : List Char → Option Int) (retryCount : Nat) (body : List UInt8)

/-! ## §2. One attempt. -/

/-- Every failure of an attempt is one of its transport. -/
@[simp] theorem run_isTransportFailure (f : Failure) (s : Scene) :
    run script.handler (isTransportFailure f) s = some (true, s) := by
  unfold isTransportFailure
  cases f.kind with
  | httpRequest => rfl
  | io => rfl
  | operationCanceled => rfl

/-- **What is observed of a body is a prefix of it**, however it is cut into chunks; its failure is met when
    the body ends before the room does. -/
theorem run_readLoop (chunks : List (List UInt8)) (hchunks : ∀ chunk ∈ chunks, chunk ≠ [])
    (ending : Option Failure) (j : Seen) : ∀ (room : Nat) (observed : List UInt8),
      ∃ left, run script.handler (readLoop room observed) (j, chunks, ending) =
        some ((observed ++ chunks.flatten.take room, if chunks.flatten.length < room then ending else none),
          (j, left)) := by
  induction chunks with
  | nil =>
      intro room observed
      rw [readLoop]
      by_cases hroom : 0 < room
      · simp only [if_pos hroom, run_bind, run_perform, List.flatten_nil, List.take_nil, List.append_nil,
          List.length_nil]
        cases ending with
        | none => exact ⟨_, rfl⟩
        | some f => exact ⟨_, rfl⟩
      · refine ⟨([], ending), ?_⟩
        simp only [if_neg hroom, run_pure, List.flatten_nil, List.take_nil, List.append_nil, List.length_nil]
  | cons chunk rest ih =>
      intro room observed
      have hne := hchunks chunk List.mem_cons_self
      have ih := ih fun c hc => hchunks c (List.mem_cons_of_mem _ hc)
      rw [readLoop]
      by_cases hroom : 0 < room
      · have hpos : 0 < chunk.length := List.length_pos_iff.mpr hne
        have hread : chunk.take room ≠ [] := by
          rw [ne_eq, List.take_eq_nil_iff, not_or]
          exact ⟨by omega, hne⟩
        simp only [if_pos hroom, run_bind, run_perform, Script.handler, Option.bind_some, if_neg hread]
        by_cases hfits : chunk.length ≤ room
        · obtain ⟨left, hrest⟩ := ih (room - chunk.length) (observed ++ chunk)
          refine ⟨left, ?_⟩
          have hsum : rest.flatten.length < room - chunk.length ↔
              (chunk ++ rest.flatten).length < room := by
            rw [List.length_append]
            omega
          rw [if_pos hfits, List.take_of_length_le hfits, hrest, List.flatten_cons, List.append_assoc,
            List.take_append, List.take_of_length_le hfits]
          simp only [hsum]
        · -- the chunk fills the room: the loop ends
          have hlength : (chunk.take room).length = room := by
            rw [List.length_take]
            omega
          have hmore : ¬ (chunk ++ rest.flatten).length < room := by
            rw [List.length_append]
            omega
          refine ⟨(chunk.drop room :: rest, ending), ?_⟩
          rw [if_neg hfits, hlength, Nat.sub_self, readLoop, if_neg (Nat.lt_irrefl 0), run_pure,
            List.flatten_cons, if_neg hmore, List.take_append_of_le_length (by omega)]
      · obtain rfl : room = 0 := by omega
        refine ⟨(chunk :: rest, ending), ?_⟩
        rw [if_neg (Nat.lt_irrefl 0), run_pure, List.take_zero, List.append_nil, if_neg (Nat.not_lt_zero _)]

/-- What is received in an attempt. -/
def Script.received (n : Nat) : Except Failure ReceivedResponse :=
  match script.outcome n with
  | .error f => .error f
  | .ok (response, stream) =>
      .ok (Dotnet.received response (stream.chunks.flatten.take (maximumResponseBodyBytes + 1))
        (if stream.chunks.flatten.length < maximumResponseBodyBytes + 1 then stream.ending else none))

/-- **An attempt receives its response**, as far as the body is read. -/
theorem run_attemptAsync {n : Nat} (s : Scene) (hs : s.1.tried + 1 = n) :
    ∃ left, run script.handler (attemptAsync body) s =
      some (script.received n, (s.1.attempt body, left)) := by
  subst hs
  unfold attemptAsync Script.received
  simp only [run_bind, run_perform, Script.handler, Option.bind_some, Script.stream]
  cases script.outcome (s.1.tried + 1) with
  | error f => exact ⟨_, rfl⟩
  | ok answer =>
      obtain ⟨response, stream⟩ := answer
      obtain ⟨left, hread⟩ := run_readLoop script stream.chunks stream.chunks_ne stream.ending
        (s.1.attempt body) (maximumResponseBodyBytes + 1) []
      refine ⟨left, ?_⟩
      have hbody : run script.handler readBody (s.1.attempt body, stream.chunks, stream.ending) =
          some ((stream.chunks.flatten.take (maximumResponseBodyBytes + 1),
            if stream.chunks.flatten.length < maximumResponseBodyBytes + 1 then stream.ending else none),
            (s.1.attempt body, left)) := by
        unfold readBody
        simp only [run_bind, run_perform, Script.handler, Option.bind_some, hread, List.nil_append]
      simp only [Except.map, run_bind, hbody, Option.bind_some]
      split_ifs with hshort
      · cases stream.ending with
        | none => rfl
        | some f => simp only [run_bind, run_isTransportFailure, Option.bind_some, if_true, run_pure]
      · rfl

/-! ## §3. The attempts. -/

/-- The delay that the server asks for in the answer to an attempt. -/
def Script.requested (n : Nat) : Option TimeSpan :=
  match script.received n with
  | .ok response => parseRetryAfter tryParseExact response.retryAfter (script.clock n)
  | .error _ => none

/-- The jitter before a retry. -/
def Script.jittered (n : Nat) : TimeSpan :=
  fromMilliseconds (script.jitter n (jitterUpperBoundMilliseconds n))

/-- What the client sleeps before a retry. -/
def Script.delay (n : Nat) : TimeSpan :=
  match script.requested tryParseExact n with
  | some minimum => if script.jittered n < minimum then minimum else script.jittered n
  | none => script.jittered n

/-- The attempt may be followed by another one. -/
def Script.retryable (n : Nat) : Bool :=
  match script.received n with
  | .ok response =>
      isRetryableStatus response.statusCode && !asksTooMuch (script.requested tryParseExact n)
  | .error _ => true

/-- The result of a call that ends with an attempt. -/
def Script.result (n : Nat) : Result :=
  match script.received n with
  | .ok response => (decode response n).mapError .decoding
  | .error f => .error (.transport (transportException f n))

/-- What the loop does after an attempt. -/
def Script.verdict (n : Nat) : Verdict TimeSpan Result :=
  retryVerdict (script.retryable tryParseExact) (script.delay tryParseExact) script.result retryCount n

/-- Computing a delay reads the clock and the jitter source, and leaves no trace. -/
theorem run_clientRetryDelay {n : Nat} (s : Scene) (hs : s.1.tried = n) (retryAfter : Option (List Char)) :
    run script.handler (clientRetryDelay tryParseExact n retryAfter) s =
      some (let requested := parseRetryAfter tryParseExact retryAfter (script.clock n)
        if asksTooMuch requested then none
        else match requested with
          | some minimum => some (if script.jittered n < minimum then minimum else script.jittered n)
          | none => some (script.jittered n), s) := by
  subst hs
  unfold clientRetryDelay retryDelay
  simp only [run_bind, run_perform, Script.handler, Option.bind_some]
  split_ifs
  · rfl
  · cases parseRetryAfter tryParseExact retryAfter (script.clock s.1.tried) with
    | some minimum => rfl
    | none => rfl

/-! ## §4. The loop. -/

/-- One turn of the loop follows the verdict of its attempt, which leaves something unread. -/
theorem run_trackAsync_turn (hmax : retryCount < maxInt32) (fuel n : Nat) (s : Scene)
    (hs : s.1.tried + 1 = n) (hn : n ≤ retryCount + 1) {left : List (List UInt8) × Option Failure}
    (hattempt : run script.handler (attemptAsync body) s = some (script.received n, (s.1.attempt body, left))) :
    run script.handler (trackAsync tryParseExact retryCount body (fuel + 1) ((n : Int) - 1)) s =
      match script.verdict tryParseExact retryCount n with
      | .stop result => some (result, (s.1.attempt body, left))
      | .again delay =>
          run script.handler (trackAsync tryParseExact retryCount body fuel ((n + 1 : Nat) - 1 : Int))
            ((s.1.attempt body).sleep delay, left) := by
  have htried : (s.1.attempt body).tried = n := hs
  have hattempts : int32 ((n : Int) - 1 + 1) = n := by
    rw [Int.sub_add_cancel]
    exact int32_eq (by omega) (by omega)
  have hnext : ((n + 1 : Nat) : Int) - 1 = n := by omega
  have hdelay : ∀ retryAfter, run script.handler (clientRetryDelay tryParseExact n retryAfter)
      (s.1.attempt body, left) = _ :=
    run_clientRetryDelay script tryParseExact (s.1.attempt body, left) htried
  rw [trackAsync, hnext]
  simp only [run_bind, run_perform, Script.handler, Option.bind_some, Bool.false_eq_true, if_false, hattempts,
    hattempt]
  unfold Script.verdict
  cases hout : script.received n with
  | error f =>
      have hretry : script.retryable tryParseExact n = true := by
        unfold Script.retryable
        rw [hout]
      have hpause : script.delay tryParseExact n = script.jittered n := by
        unfold Script.delay Script.requested
        rw [hout]
      simp only [run_bind, run_isTransportFailure, Option.bind_some, if_true]
      by_cases hle : n ≤ retryCount
      · rw [retryVerdict_again hretry hle, if_neg (by omega), hpause]
        simp only [run_bind, hdelay, Option.bind_some, run_perform, Script.handler, Bool.false_eq_true, if_false]
        rfl
      · rw [retryVerdict_of_lt (by omega), if_pos (by omega)]
        simp only [run_pure, Script.result, hout]
  | ok response =>
      have hrequested : script.requested tryParseExact n =
          parseRetryAfter tryParseExact response.retryAfter (script.clock n) := by
        unfold Script.requested
        rw [hout]
      have hretry : script.retryable tryParseExact n = (isRetryableStatus response.statusCode &&
          !asksTooMuch (script.requested tryParseExact n)) := by
        unfold Script.retryable
        rw [hout]
      have hresult : script.result n = (decode response n).mapError .decoding := by
        unfold Script.result
        rw [hout]
      by_cases hstatus : (isRetryableStatus response.statusCode && decide ((n : Int) ≤ retryCount)) = true
      · simp only [if_pos hstatus, run_bind, hdelay, ← hrequested, Option.bind_some]
        rw [Bool.and_eq_true, decide_eq_true_eq] at hstatus
        by_cases hmuch : asksTooMuch (script.requested tryParseExact n) = true
        · -- the response asks for too much
          have hstop : script.retryable tryParseExact n = true → retryCount < n := by
            intro hagain
            rw [hretry, hmuch, Bool.not_true, Bool.and_false] at hagain
            cases hagain
          rw [retryVerdict_stop hstop, hresult]
          simp only [if_pos hmuch, run_pure]
        · have hagain : script.retryable tryParseExact n = true := by
            rw [hretry, hstatus.1, Bool.eq_false_iff.mpr hmuch]
            rfl
          rw [retryVerdict_again hagain (show n ≤ retryCount by omega)]
          unfold Script.delay
          simp only [if_neg hmuch]
          cases script.requested tryParseExact n with
          | some minimum =>
              simp only [run_bind, run_perform, Script.handler, Option.bind_some, Bool.false_eq_true, if_false]
          | none =>
              simp only [run_bind, run_perform, Script.handler, Option.bind_some, Bool.false_eq_true, if_false]
      · have hstop : script.retryable tryParseExact n = true → retryCount < n := by
          intro hagain
          rw [hretry, Bool.and_eq_true] at hagain
          by_contra hle
          apply hstatus
          rw [hagain.1, Bool.true_and, decide_eq_true_eq]
          omega
        rw [retryVerdict_stop hstop, hresult]
        simp only [if_neg hstatus, run_pure]

/-- **A scripted call is the course of its verdicts.** -/
theorem run_trackAsync_eq_course (hmax : retryCount < maxInt32) (fuel : Nat) :
    (run script.handler (trackAsync tryParseExact retryCount body fuel 0) (Journal.empty, [], none)).map
        (fun r => (r.1, r.2.1)) =
      (course (script.verdict tryParseExact retryCount) fuel 1).map fun c =>
        (c.result, ⟨c.sleeps.length + 1, c.log body⟩) := by
  -- what an attempt leaves unread
  choose left hleft using fun s : Scene => run_attemptAsync script body s rfl
  apply journal_eq_course
    (fun fuel n s => (run script.handler (trackAsync tryParseExact retryCount body fuel ((n : Int) - 1)) s).map
      fun r => (r.1, r.2.1))
    (fun delay s => ((s.1.attempt body).sleep delay, left s)) (fun s => s.1) (retryCount + 1)
  · intro n hn
    exact ⟨_, retryVerdict_of_lt (show retryCount < n by omega)⟩
  · exact Nat.le_add_left 1 retryCount
  · intro delay s
    rfl
  · intro n s
    rfl
  · intro fuel n s hs hn
    have hattempt : run script.handler (attemptAsync body) s =
        some (script.received n, (s.1.attempt body, left s)) := by
      rw [hleft s, hs]
    rw [run_trackAsync_turn script tryParseExact retryCount body hmax fuel n s hs hn hattempt]
    cases script.verdict tryParseExact retryCount n with
    | again delay => rfl
    | stop result => rfl
  · rfl

end Scripted

end CekatEvents.Dotnet
