/-
  CekatEvents.Retry.Loop — a delivery loop over the effects of a client.

  A `Loop` is what such a loop is put together from: the attempt, the two questions it asks of a response,
  the pause before a retry and the two ways to end.  `Loop.deliver` is the loop itself, for any effects.
  An `Environment` says how a handler answers the parts, attempt by attempt.

  Main results:

    • `run_deliver_turn` — one turn of the loop follows the verdict of its attempt;
    • `run_deliver_eq_course` — the run of the loop is the course of these verdicts;
    • `run_deliver_lastAttempt` — every run makes the attempts up to the last one, pauses between them, and
      ends with what the last one stands for.
-/
import CekatEvents.Effects.Program
import CekatEvents.Retry.Course
import Mathlib.Data.Nat.Find

namespace CekatEvents.Retry

open CekatEvents.Effects

/-! ## §1. The loop. -/

/-- The parts of a loop: `φ` is what an attempt fails with, `r` a response, `q` what a response may ask
    for, and `ρ` how the loop ends. -/
structure Loop (Op : Type) (Ret : Op → Type) (φ r q ρ : Type) where
  attempt : Prog Op Ret (Except φ r)
  retryable : r → Bool
  /-- What a response asks for before the next attempt. -/
  requested : r → Prog Op Ret (Option q)
  /-- The caller may be made to wait for that. -/
  short : q → Bool
  /-- The pause before a retry. -/
  backoff : Nat → Option q → Prog Op Ret Unit
  failed : Nat → φ → ρ
  decoded : Nat → r → ρ

section Deliver

variable {Op : Type} {Ret : Op → Type} {φ r q ρ : Type}

/-- The loop, for at most `fuel` turns; `attempt` is the number of the next attempt. -/
def Loop.deliver (L : Loop Op Ret φ r q ρ) (maximumAttempts : Nat) : Nat → Nat → Prog Op Ret ρ
  | 0, _ => .cutOff
  | fuel + 1, attempt => do
      match ← L.attempt with
      | .error failure =>
          if maximumAttempts ≤ attempt then pure (L.failed attempt failure)
          else do
            L.backoff attempt none
            L.deliver maximumAttempts fuel (attempt + 1)
      | .ok response =>
          if decide (attempt < maximumAttempts) && L.retryable response then do
            let requested ← L.requested response
            if requested.all L.short then do
              L.backoff attempt requested
              L.deliver maximumAttempts fuel (attempt + 1)
            else pure (L.decoded attempt response)
          else pure (L.decoded attempt response)

/-! ## §2. Its environment. -/

variable {β δ : Type}

/-- **How a handler answers the parts of a loop**: with what happens to an attempt, with what its response
    asks for, and with a sleep. -/
structure Environment (L : Loop Op Ret φ r q ρ) (h : Handler Op Ret (Journal β δ)) (request : β) where
  outcome : Nat → Except φ r
  asked : Nat → r → Option q
  pause : Nat → Option q → δ
  attempt_run : ∀ j, run h L.attempt j = some (outcome (j.tried + 1), j.attempt request)
  requested_run : ∀ response j, run h (L.requested response) j = some (asked j.tried response, j)
  backoff_run : ∀ requested j,
    run h (L.backoff j.tried requested) j = some ((), j.sleep (pause j.tried requested))

section Environments

variable {L : Loop Op Ret φ r q ρ} {h : Handler Op Ret (Journal β δ)} {request : β}
  (E : Environment L h request)

/-- What the answer to an attempt asks for. -/
def Environment.requested (n : Nat) : Option q :=
  match E.outcome n with
  | .ok response => E.asked n response
  | .error _ => none

/-- The attempt may be followed by another one. -/
def Environment.retryable (n : Nat) : Bool :=
  match E.outcome n with
  | .ok response => L.retryable response && (E.requested n).all L.short
  | .error _ => true

/-- The pause before a retry. -/
def Environment.delay (n : Nat) : δ := E.pause n (E.requested n)

/-- How a loop ends that ends with an attempt. -/
def Environment.result (n : Nat) : ρ :=
  match E.outcome n with
  | .ok response => L.decoded n response
  | .error failure => L.failed n failure

/-- What the loop does after an attempt. -/
def Environment.verdict (retryCount n : Nat) : Verdict δ ρ :=
  retryVerdict E.retryable E.delay E.result retryCount n

/-- **One turn of the loop follows the verdict of its attempt.** -/
theorem run_deliver_turn (retryCount fuel n : Nat) (j : Journal β δ) (hj : j.tried + 1 = n) :
    run h (L.deliver (retryCount + 1) (fuel + 1) n) j =
      match E.verdict retryCount n with
      | .stop result => some (result, j.attempt request)
      | .again delay =>
          run h (L.deliver (retryCount + 1) fuel (n + 1)) ((j.attempt request).sleep delay) := by
  have htried : (j.attempt request).tried = n := hj
  have hbackoff : ∀ requested, run h (L.backoff n requested) (j.attempt request) =
      some ((), (j.attempt request).sleep (E.pause n requested)) := by
    intro requested
    rw [← htried]
    exact E.backoff_run requested _
  rw [Loop.deliver]
  simp only [run_bind, E.attempt_run, Option.bind_some, hj]
  unfold Environment.verdict
  cases hout : E.outcome n with
  | error failure =>
      have hretry : E.retryable n = true := by
        unfold Environment.retryable
        rw [hout]
      have hresult : E.result n = L.failed n failure := by
        unfold Environment.result
        rw [hout]
      have hdelay : E.delay n = E.pause n none := by
        unfold Environment.delay Environment.requested
        rw [hout]
      by_cases hle : n ≤ retryCount
      · -- a retry is left
        rw [retryVerdict_again hretry hle, hdelay]
        simp only [if_neg (show ¬ retryCount + 1 ≤ n by omega), run_bind, hbackoff, Option.bind_some]
      · rw [retryVerdict_of_lt (by omega), hresult]
        simp only [if_pos (show retryCount + 1 ≤ n by omega), run_pure]
  | ok response =>
      have hrequested : E.requested n = E.asked n response := by
        unfold Environment.requested
        rw [hout]
      have hretry : E.retryable n = (L.retryable response && (E.requested n).all L.short) := by
        unfold Environment.retryable
        rw [hout]
      have hresult : E.result n = L.decoded n response := by
        unfold Environment.result
        rw [hout]
      by_cases hstatus : (decide (n < retryCount + 1) && L.retryable response) = true
      · simp only [if_pos hstatus, run_bind, E.requested_run, Option.bind_some, htried, ← hrequested]
        rw [Bool.and_eq_true, decide_eq_true_eq] at hstatus
        by_cases hshort : (E.requested n).all L.short = true
        · have hagain : E.retryable n = true := by rw [hretry, hstatus.2, hshort, Bool.and_self]
          rw [retryVerdict_again hagain (show n ≤ retryCount by omega)]
          simp only [if_pos hshort, run_bind, hbackoff, Option.bind_some]
          rfl
        · -- the response asks for too much
          have hstop : E.retryable n = true → retryCount < n := by
            intro hagain
            rw [hretry, Bool.and_eq_true] at hagain
            exact absurd hagain.2 hshort
          rw [retryVerdict_stop hstop, hresult]
          simp only [if_neg hshort, run_pure]
      · have hstop : E.retryable n = true → retryCount < n := by
          intro hagain
          rw [hretry, Bool.and_eq_true] at hagain
          by_contra hle
          apply hstatus
          rw [hagain.1, Bool.and_true, decide_eq_true_eq]
          omega
        rw [retryVerdict_stop hstop, hresult]
        simp only [if_neg hstatus, run_pure]

/-- **The run of the loop is the course of its verdicts.** -/
theorem run_deliver_eq_course (retryCount fuel : Nat) :
    run h (L.deliver (retryCount + 1) fuel 1) Journal.empty =
      (course (E.verdict retryCount) fuel 1).map fun c =>
        (c.result, ⟨c.sleeps.length + 1, c.log request⟩) := by
  apply journal_eq_course (fun fuel n j => run h (L.deliver (retryCount + 1) fuel n) j)
    (fun delay j => (j.attempt request).sleep delay) (fun j => j) (retryCount + 1)
  · intro n hn
    exact ⟨_, retryVerdict_of_lt (show retryCount < n by omega)⟩
  · exact Nat.le_add_left 1 retryCount
  · intro delay j
    rfl
  · intro n j
    rfl
  · intro fuel n j hj _
    rw [run_deliver_turn E retryCount fuel n j hj]
    cases E.verdict retryCount n with
    | again delay => rfl
    | stop result => rfl
  · rfl

end Environments

end Deliver

/-! ## §3. The last attempt. -/

section LastAttempt

/-- **The last attempt of a loop**: it may not be repeated, or no retry is left; every one before it was
    repeated. -/
structure LastAttempt (retryable : Nat → Bool) (retryCount k : Nat) : Prop where
  first_le : 1 ≤ k
  le : k ≤ retryCount + 1
  stops : retryable k = true → k = retryCount + 1
  before : ∀ m, 1 ≤ m → m < k → retryable m = true

/-- Every loop has one. -/
theorem exists_lastAttempt (retryable : Nat → Bool) (retryCount : Nat) :
    ∃ k, LastAttempt retryable retryCount k := by
  have hexists : ∃ k, 1 ≤ k ∧ (retryable k = true → k = retryCount + 1) :=
    ⟨retryCount + 1, Nat.le_add_left 1 retryCount, fun _ => rfl⟩
  obtain ⟨hfirst, hstops⟩ := Nat.find_spec hexists
  refine ⟨Nat.find hexists, hfirst, ?_, hstops, ?_⟩
  · exact Nat.find_min' hexists ⟨Nat.le_add_left 1 retryCount, fun _ => rfl⟩
  · intro m h1 hm
    by_contra hnot
    exact Nat.find_min hexists hm ⟨h1, fun hretry => absurd hretry hnot⟩

variable {δ ρ : Type} {retryable : Nat → Bool} {delay : Nat → δ} {result : Nat → ρ} {retryCount k : Nat}

/-- The course ends with the last attempt, after the pauses before each retry. -/
theorem LastAttempt.isCourse (hk : LastAttempt retryable retryCount k) :
    IsCourse (retryVerdict retryable delay result retryCount) 1
      ⟨k, (List.range (k - 1)).map fun n => delay (n + 1), result k⟩ := by
  have hfirst := hk.first_le
  have hle := hk.le
  refine ⟨hfirst, ?_, ?_, ?_⟩
  · apply retryVerdict_stop
    intro hretry
    have hlast := hk.stops hretry
    show retryCount < k
    omega
  · show 1 + ((List.range (k - 1)).map fun n => delay (n + 1)).length = k
    rw [List.length_map, List.length_range]
    omega
  · intro n hn
    have hlt : n < k - 1 := by
      rw [List.length_map, List.length_range] at hn
      exact hn
    rw [retryVerdict_again (hk.before (1 + n) (by omega) (by omega)) (by omega), List.get_eq_getElem,
      List.getElem_map, List.getElem_range, Nat.add_comm 1 n]

end LastAttempt

section Runs

variable {Op : Type} {Ret : Op → Type} {φ r q ρ β δ : Type} {L : Loop Op Ret φ r q ρ}
  {h : Handler Op Ret (Journal β δ)} {request : β}

/-- **Every run makes the attempts up to the last one**, pauses between them, and ends with what the last
    one stands for. -/
theorem run_deliver_lastAttempt (E : Environment L h request) {retryCount fuel k : Nat}
    (hfuel : retryCount < fuel) (hk : LastAttempt E.retryable retryCount k) :
    run h (L.deliver (retryCount + 1) fuel 1) Journal.empty =
      some (E.result k, ⟨k, ((List.range (k - 1)).flatMap fun n =>
        [.attempt request, .sleep (E.delay (n + 1))]) ++ [.attempt request]⟩) := by
  have hcourse : course (E.verdict retryCount) fuel 1 =
      some ⟨k, (List.range (k - 1)).map fun n => E.delay (n + 1), E.result k⟩ := by
    apply course_eq_some_iff.mpr
    refine ⟨hk.isCourse, ?_⟩
    have hle := hk.le
    show k < 1 + fuel
    omega
  have hfirst := hk.first_le
  rw [run_deliver_eq_course E retryCount fuel, hcourse, Option.map_some, Course.log, List.length_map,
    List.length_range, List.flatMap_map, Nat.sub_add_cancel hfirst]

end Runs

end CekatEvents.Retry
