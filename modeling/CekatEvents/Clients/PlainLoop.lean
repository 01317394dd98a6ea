/-
  CekatEvents.Clients.PlainLoop — one delivery loop without regard to a language.

  A `Script` says what happens to the attempts of a call and what jitter precedes each retry.  Its
  course is that of one plain loop, which counts whole milliseconds and ends with the number of its last
  attempt.

  Main results:

    • `last_of_isCourse` — the course ends with the last attempt of the script;
    • `run_of_verdicts` — a client whose verdicts are those of the plain loop, in its own unit of time
      and with its own results, makes the attempts and pauses of the plain loop.
-/
import CekatEvents.Clients.RetryAfter
import CekatEvents.Retry.Course

namespace CekatEvents.Clients

open CekatEvents.Http CekatEvents.Retry

/-! ## §1. One plain loop. -/

/-- What happens to an attempt: no response, or a complete one. -/
inductive Reply where
  | noResponse
  | response (status : Nat) (retryAfter : Option (List Char)) (body : List UInt8)

/-- What happens to the attempts of a call, counted from one, and the milliseconds of jitter before each
    retry. -/
structure Script where
  reply : Nat → Reply
  jitter : Nat → Nat

/-- How a call ends, with the attempts that are reported. -/
inductive Report where
  | acknowledged
  | responseDecode (attempts : Int)
  | authentication (attempts : Int)
  | eventDefinitionNotFound (attempts : Int)
  | api (attempts : Int)
  | transport (attempts : Int)
  deriving DecidableEq

/-- What a status other than 200 is reported as. -/
def statusReport (status : Nat) : Int → Report :=
  if status = 401 then .authentication
  else if status = 404 then .eventDefinitionNotFound
  else .api

/-- **What a call may report that ends with an attempt.** -/
def Reply.Demands : Reply → Int → Report → Prop
  | noResponse, n, report => report = .transport n
  | response status _ _, n, report =>
      if status = 200 then report = .acknowledged ∨ report = .responseDecode n
      else report = statusReport status n

section Scripts

variable (script : Script)

/-- The milliseconds that the server asks for in the answer to an attempt. -/
def Script.requested (n : Nat) : Option Nat :=
  match script.reply n with
  | .noResponse => none
  | .response _ retryAfter _ => requestedMillis retryAfter

/-- The attempt may be followed by another one. -/
def Script.retryable (n : Nat) : Bool :=
  match script.reply n with
  | .noResponse => true
  | .response status _ _ => isRetryableStatus status &&
      (script.requested n).all fun delay => decide (delay ≤ 5000)

/-- The milliseconds before a retry. -/
def Script.delay (n : Nat) : Nat := max (script.jitter n) ((script.requested n).getD 0)

/-- The plain loop, which ends with the number of its last attempt. -/
def Script.verdict (retryCount n : Nat) : Verdict Nat Nat :=
  retryVerdict script.retryable script.delay (fun n => n) retryCount n

/-- **The last attempt of a call**: it may not be repeated, and every attempt before it was. -/
structure Script.Last (retryCount n : Nat) : Prop where
  first_le : 1 ≤ n
  stops : script.retryable n = true → retryCount < n
  before : ∀ m, 1 ≤ m → m < n → script.retryable m = true ∧ m ≤ retryCount

variable {script} {retryCount : Nat}

/-- The course of the plain loop ends with its last attempt. -/
theorem last_of_isCourse {c : Course Nat Nat} (h : IsCourse (script.verdict retryCount) 1 c) :
    c.result = c.attempts ∧ script.Last retryCount c.attempts := by
  have hstops := h.stops
  have hlength := h.length_sleeps
  have hagain : ∀ n, script.retryable n = true ∧ n ≤ retryCount ∨
      script.verdict retryCount n = .stop n := by
    intro n
    by_cases hr : script.retryable n = true ∧ n ≤ retryCount
    · exact .inl hr
    · refine .inr (retryVerdict_stop ?_)
      intro hretry
      by_contra hle
      exact hr ⟨hretry, Nat.le_of_not_lt hle⟩
  have hlast : script.retryable c.attempts = true → retryCount < c.attempts := by
    intro hretry
    by_contra hle
    unfold Script.verdict at hstops
    rw [retryVerdict_again hretry (Nat.le_of_not_lt hle)] at hstops
    cases hstops
  refine ⟨?_, h.first_le, hlast, ?_⟩
  · unfold Script.verdict at hstops
    rw [retryVerdict_stop hlast, Verdict.stop.injEq] at hstops
    exact hstops.symm
  · intro m h1 hlt
    rcases hagain m with hr | hstop
    · exact hr
    · obtain ⟨k, rfl⟩ : ∃ k, m = 1 + k := ⟨m - 1, by omega⟩
      have hsleep := h.sleeps_again k (by omega)
      rw [hstop] at hsleep
      cases hsleep

/-- A call has one last attempt. -/
theorem Script.Last.unique {m n : Nat} (hm : script.Last retryCount m)
    (hn : script.Last retryCount n) : m = n := by
  rcases Nat.lt_trichotomy m n with hlt | heq | hlt
  · have hbefore := hn.before m hm.first_le hlt
    have hstops := hm.stops hbefore.1
    omega
  · exact heq
  · have hbefore := hm.before n hn.first_le hlt
    have hstops := hn.stops hbefore.1
    omega

/-- With fuel for every attempt the plain loop has a course. -/
theorem exists_plain_course (script : Script) {fuel : Nat} (hfuel : retryCount < fuel) :
    ∃ c, course (script.verdict retryCount) fuel 1 = some c ∧
      IsCourse (script.verdict retryCount) 1 c := by
  have hstop : script.verdict retryCount (retryCount + 1) = .stop (retryCount + 1) :=
    retryVerdict_of_lt (Nat.lt_succ_self retryCount)
  obtain ⟨c, hc, hle⟩ := exists_course (Nat.le_add_left 1 retryCount) hstop
  exact ⟨c, course_eq_some_iff.mpr ⟨hc, by omega⟩, hc⟩

end Scripts

/-! ## §2. What a run delivers. -/

section Delivers

variable {β δ ρ : Type}

/-- **A run makes the attempts of a course and the pauses between them, and reports its result**; the
    course counts milliseconds, and `unit` is what the client makes of them. -/
def Delivers (unit : Nat → δ) (report : ρ → Option Report) (request : β)
    (outcome : Option (ρ × Journal β δ)) (c : Course Nat Report) : Prop :=
  ∃ result, outcome = some (result, ⟨c.attempts, (c.map unit id).log request⟩) ∧
    report result = some c.result

/-- A loop whose verdicts are those of the plain loop, in its own unit and with its own results, makes
    the attempts and pauses of the plain loop. -/
theorem run_of_verdicts {script : Script} {retryCount fuel : Nat} {verdict : Nat → Verdict δ ρ}
    {unit : Nat → δ} {result : Nat → ρ} {request : β} {outcome : Option (ρ × Journal β δ)}
    {c : Course Nat Nat} (hc : course (script.verdict retryCount) fuel 1 = some c)
    (hverdict : ∀ n, (script.verdict retryCount n).map unit result = verdict n)
    (hrun : outcome = (course verdict fuel 1).map fun c =>
      (c.result, ⟨c.sleeps.length + 1, c.log request⟩)) :
    outcome = some (result c.attempts, ⟨c.attempts, (c.map unit id).log request⟩) := by
  have hcourse := (course_eq_some_iff.mp hc).1
  have hlength := hcourse.length_sleeps
  rw [hrun, course_map unit result (fun n _ => hverdict n) fuel, hc]
  simp only [Option.map_some, Course.map, Option.some.injEq, Prod.mk.injEq, Journal.mk.injEq,
    List.length_map]
  refine ⟨?_, ?_, rfl⟩
  · rw [(last_of_isCourse hcourse).1]
  · omega

/-- A run that ends in a result delivers a course exactly when the course has its attempts and pauses,
    and the result is reported as its result is. -/
theorem delivers_of_run {unit : Nat → δ} {report : ρ → Option Report} {request : β}
    {outcome : Option (ρ × Journal β δ)} {result : ρ} {c : Course Nat Nat} {r : Report}
    (hrun : outcome = some (result, ⟨c.attempts, (c.map unit id).log request⟩))
    (hreport : report result = some r) :
    Delivers unit report request outcome ⟨c.attempts, c.sleeps, r⟩ :=
  ⟨result, hrun, hreport⟩

end Delivers

end CekatEvents.Clients
