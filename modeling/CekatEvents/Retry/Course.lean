/-
  CekatEvents.Retry.Course — the course of a retry loop, whatever it retries.

  After its `n`-th attempt a retry loop has a verdict: to stop with a result, or to sleep and try
  again.  `course verdict fuel n` follows the verdicts from attempt `n` on; `IsCourse` says what the
  outcome is, without the recursion: the loop stopped at the first attempt that said so, and slept
  once for each attempt before it.

  Main results:

    • `course_eq_some_iff` — the recursion computes exactly the course;
    • `course_map` — two loops whose verdicts correspond have corresponding courses;
    • `loop_eq_course` — a loop whose every turn follows a verdict runs through its course;
    • `journal_eq_course` — what the journal of such a loop records.
-/
import Mathlib.Data.List.Basic
import Mathlib.Data.Option.Basic
import Mathlib.Tactic.Common

namespace CekatEvents.Retry

/-! ## §1. Verdicts and courses. -/

/-- What a loop does after an attempt: sleep and try again, or stop. -/
inductive Verdict (δ ρ : Type) where
  | again (delay : δ)
  | stop (result : ρ)

/-- The attempts a loop made, the delays it slept between them, and its result. -/
@[ext] structure Course (δ ρ : Type) where
  attempts : Nat
  sleeps : List δ
  result : ρ

section Courses

variable {δ δ' ρ ρ' σ : Type}

/-- Follow the verdicts from attempt `n` on, for at most `fuel` attempts. -/
def course (verdict : Nat → Verdict δ ρ) : Nat → Nat → Option (Course δ ρ)
  | 0, _ => none
  | fuel + 1, n =>
      match verdict n with
      | .stop result => some ⟨n, [], result⟩
      | .again delay =>
          (course verdict fuel (n + 1)).map fun c => { c with sleeps := delay :: c.sleeps }

/-- **The course from attempt `n` on**: every attempt before the last said to try again after the delay
    that was slept, and the last one said to stop. -/
structure IsCourse (verdict : Nat → Verdict δ ρ) (n : Nat) (c : Course δ ρ) : Prop where
  first_le : n ≤ c.attempts
  stops : verdict c.attempts = .stop c.result
  length_sleeps : n + c.sleeps.length = c.attempts
  sleeps_again : ∀ i (h : i < c.sleeps.length), verdict (n + i) = .again (c.sleeps.get ⟨i, h⟩)

variable {verdict : Nat → Verdict δ ρ}

/-- A course that begins with an attempt to be repeated goes on with the course of the next one. -/
theorem isCourse_again {n : Nat} {delay : δ} {c : Course δ ρ} (hv : verdict n = .again delay) :
    IsCourse verdict n c ↔
      ∃ c', IsCourse verdict (n + 1) c' ∧ { c' with sleeps := delay :: c'.sleeps } = c := by
  constructor
  · intro h
    cases hs : c.sleeps with
    | nil =>
        have hlen := h.length_sleeps
        rw [hs, List.length_nil, Nat.add_zero] at hlen
        have hstop := h.stops
        rw [← hlen, hv] at hstop
        cases hstop
    | cons d rest =>
        have hlen := h.length_sleeps
        rw [hs, List.length_cons] at hlen
        have hd : d = delay := by
          have h0 := h.sleeps_again 0 (by rw [hs]; exact Nat.succ_pos _)
          simp only [hs, Nat.add_zero, hv, List.get_eq_getElem, List.getElem_cons_zero,
            Verdict.again.injEq] at h0
          exact h0.symm
        refine ⟨{ c with sleeps := rest }, ⟨?_, h.stops, ?_, ?_⟩, ?_⟩
        · show n + 1 ≤ c.attempts
          omega
        · show n + 1 + rest.length = c.attempts
          omega
        · intro i hi
          have hi' : i < rest.length := hi
          have hnext := h.sleeps_again (i + 1) (by rw [hs, List.length_cons]; omega)
          simp only [hs, List.get_eq_getElem, List.getElem_cons_succ] at hnext
          rw [show n + 1 + i = n + (i + 1) by omega]
          exact hnext
        · rw [← hd, ← hs]
  · rintro ⟨c', h, rfl⟩
    refine ⟨?_, h.stops, ?_, ?_⟩
    · exact Nat.le_of_succ_le h.first_le
    · have hlen := h.length_sleeps
      show n + (c'.sleeps.length + 1) = c'.attempts
      omega
    · intro i hi
      cases i with
      | zero => exact hv
      | succ i =>
          have hnext := h.sleeps_again i (Nat.lt_of_succ_lt_succ hi)
          rw [show n + (i + 1) = n + 1 + i by omega]
          exact hnext

/-- A course that begins with an attempt to stop at ends there. -/
theorem isCourse_stop {n : Nat} {result : ρ} {c : Course δ ρ} (hv : verdict n = .stop result) :
    IsCourse verdict n c ↔ ⟨n, [], result⟩ = c := by
  constructor
  · intro h
    cases hs : c.sleeps with
    | nil =>
        have hlen := h.length_sleeps
        rw [hs, List.length_nil, Nat.add_zero] at hlen
        have hstop := h.stops
        rw [← hlen, hv, Verdict.stop.injEq] at hstop
        ext1
        · exact hlen
        · exact hs.symm
        · exact hstop
    | cons d rest =>
        have h0 := h.sleeps_again 0 (by rw [hs]; exact Nat.succ_pos _)
        rw [Nat.add_zero, hv] at h0
        cases h0
  · rintro rfl
    exact ⟨Nat.le_refl n, hv, rfl, fun i hi => absurd hi (Nat.not_lt_zero i)⟩

/-- **The recursion computes exactly the course.** -/
theorem course_eq_some_iff {fuel n : Nat} {c : Course δ ρ} :
    course verdict fuel n = some c ↔ IsCourse verdict n c ∧ c.attempts < n + fuel := by
  induction fuel generalizing n c with
  | zero =>
      refine iff_of_false (by simp [course]) ?_
      rintro ⟨h, hlt⟩
      have := h.first_le
      omega
  | succ fuel ih =>
      cases hv : verdict n with
      | stop result =>
          rw [course, hv, isCourse_stop hv, Option.some.injEq]
          constructor
          · rintro rfl
            exact ⟨rfl, by show n < n + (fuel + 1); omega⟩
          · exact fun h => h.1
      | again delay =>
          rw [course, hv, isCourse_again hv]
          simp only [Option.map_eq_some_iff, ih]
          constructor
          · rintro ⟨c', ⟨h, hlt⟩, rfl⟩
            refine ⟨⟨c', h, rfl⟩, ?_⟩
            show c'.attempts < n + (fuel + 1)
            omega
          · rintro ⟨⟨c', h, rfl⟩, hlt⟩
            have hlt' : c'.attempts < n + (fuel + 1) := hlt
            exact ⟨c', ⟨h, by omega⟩, rfl⟩

/-- A loop that stops at some attempt within its fuel has a course. -/
theorem exists_course {n last : Nat} {result : ρ} (hle : n ≤ last)
    (hstop : verdict last = .stop result) : ∃ c, IsCourse verdict n c ∧ c.attempts ≤ last := by
  obtain ⟨d, rfl⟩ : ∃ d, last = n + d := ⟨last - n, by omega⟩
  clear hle
  induction d generalizing n with
  | zero => exact ⟨_, (isCourse_stop hstop).mpr rfl, Nat.le_refl _⟩
  | succ d ih =>
      cases hv : verdict n with
      | stop r => exact ⟨_, (isCourse_stop hv).mpr rfl, Nat.le_add_right _ _⟩
      | again delay =>
          rw [show n + (d + 1) = n + 1 + d by omega] at hstop ⊢
          obtain ⟨c, hc, hle⟩ := ih hstop
          exact ⟨_, (isCourse_again hv).mpr ⟨c, hc, rfl⟩, hle⟩

/-! ## §2. Loops whose verdicts correspond. -/

/-- Translate the delays and the result. -/
def Verdict.map (f : δ → δ') (g : ρ → ρ') : Verdict δ ρ → Verdict δ' ρ'
  | again delay => again (f delay)
  | stop result => stop (g result)

def Course.map (f : δ → δ') (g : ρ → ρ') (c : Course δ ρ) : Course δ' ρ' :=
  ⟨c.attempts, c.sleeps.map f, g c.result⟩

/-- **Loops whose verdicts correspond have corresponding courses.** -/
theorem course_map {verdict' : Nat → Verdict δ' ρ'} (f : δ → δ') (g : ρ → ρ') {n : Nat}
    (h : ∀ i, n ≤ i → (verdict i).map f g = verdict' i) (fuel : Nat) :
    course verdict' fuel n = (course verdict fuel n).map (Course.map f g) := by
  induction fuel generalizing n with
  | zero => rfl
  | succ fuel ih =>
      have hn := h n (Nat.le_refl n)
      have hrest : course verdict' fuel (n + 1)
          = (course verdict fuel (n + 1)).map (Course.map f g) := ih fun i hi => h i (by omega)
      rw [course, course, ← hn]
      cases verdict n with
      | stop result => rfl
      | again delay =>
          show (course verdict' fuel (n + 1)).map _ = _
          rw [hrest, Option.map_map, Option.map_map]
          rfl

/-- The verdict of a loop with so many retries: an attempt is repeated when it may be and a retry is
    left. -/
def retryVerdict (retryable : Nat → Bool) (delay : Nat → δ) (result : Nat → ρ) (retryCount n : Nat) :
    Verdict δ ρ :=
  if retryable n && decide (n ≤ retryCount) then .again (delay n) else .stop (result n)

section RetryVerdict

variable {retryable : Nat → Bool} {delay : Nat → δ} {result : Nat → ρ} {retryCount n : Nat}

theorem retryVerdict_again (h : retryable n = true) (hn : n ≤ retryCount) :
    retryVerdict retryable delay result retryCount n = .again (delay n) := by
  unfold retryVerdict
  rw [h, decide_eq_true hn, Bool.true_and, if_pos rfl]

theorem retryVerdict_stop (h : retryable n = true → retryCount < n) :
    retryVerdict retryable delay result retryCount n = .stop (result n) := by
  unfold retryVerdict
  apply if_neg
  rw [Bool.and_eq_true, decide_eq_true_eq]
  intro hboth
  have hlt := h hboth.1
  omega

/-- No retry is left after the last attempt. -/
theorem retryVerdict_of_lt (h : retryCount < n) :
    retryVerdict retryable delay result retryCount n = .stop (result n) :=
  retryVerdict_stop fun _ => h

/-- Verdicts that agree on what may be repeated correspond. -/
theorem retryVerdict_map {retryable' : Nat → Bool} {delay' : Nat → δ'} {result' : Nat → ρ'}
    (f : δ → δ') (g : ρ → ρ') (hretryable : retryable n = retryable' n)
    (hdelay : retryable n = true → n ≤ retryCount → f (delay n) = delay' n)
    (hresult : g (result n) = result' n) :
    (retryVerdict retryable delay result retryCount n).map f g =
      retryVerdict retryable' delay' result' retryCount n := by
  by_cases hagain : retryable n = true ∧ n ≤ retryCount
  · rw [retryVerdict_again hagain.1 hagain.2, retryVerdict_again (hretryable ▸ hagain.1) hagain.2,
      ← hdelay hagain.1 hagain.2]
    rfl
  · have hlt : retryable n = true → retryCount < n := by
      intro hr
      by_contra hle
      exact hagain ⟨hr, Nat.le_of_not_lt hle⟩
    rw [retryVerdict_stop hlt, retryVerdict_stop (hretryable ▸ hlt), ← hresult]
    rfl

end RetryVerdict

/-! ## §3. Running a loop. -/

/-- **A loop whose every turn follows a verdict runs through its course.**  `again` says what a turn that
    goes on does to the state, `last` what the last turn returns, and `I` what holds before attempt
    `n`. -/
theorem loop_eq_course {τ : Type} (loop : Nat → Nat → σ → Option τ) (again : δ → σ → σ)
    (last : ρ → σ → τ) (I : Nat → σ → Prop) (hzero : ∀ n s, loop 0 n s = none)
    (hkeep : ∀ n s delay, verdict n = .again delay → I n s → I (n + 1) (again delay s))
    (hturn : ∀ fuel n s, I n s → loop (fuel + 1) n s = match verdict n with
      | .stop result => some (last result s)
      | .again delay => loop fuel (n + 1) (again delay s))
    (fuel : Nat) {n : Nat} {s : σ} (hI : I n s) :
    loop fuel n s = (course verdict fuel n).map fun c =>
      last c.result (c.sleeps.foldl (fun s delay => again delay s) s) := by
  induction fuel generalizing n s with
  | zero => rw [hzero]; rfl
  | succ fuel ih =>
      rw [hturn fuel n s hI, course]
      cases hv : verdict n with
      | stop result => rfl
      | again delay =>
          show loop fuel (n + 1) (again delay s) = _
          rw [ih (hkeep n s delay hv hI), Option.map_map]
          rfl

end Courses

/-! ## §4. What an environment records of a loop. -/

/-- What the environment of a loop sees. -/
inductive Event (β δ : Type) where
  | attempt (request : β)
  | sleep (delay : δ)
  deriving DecidableEq

/-- The attempts an environment has answered, and all it has seen in order. -/
structure Journal (β δ : Type) where
  tried : Nat
  log : List (Event β δ)

section Journals

variable {β δ ρ : Type}

/-- Nothing seen yet. -/
def Journal.empty : Journal β δ := ⟨0, []⟩

def Journal.attempt (request : β) (j : Journal β δ) : Journal β δ :=
  ⟨j.tried + 1, j.log ++ [.attempt request]⟩

def Journal.sleep (delay : δ) (j : Journal β δ) : Journal β δ :=
  ⟨j.tried, j.log ++ [.sleep delay]⟩

@[simp] theorem Journal.tried_empty : (Journal.empty : Journal β δ).tried = 0 := rfl

@[simp] theorem Journal.tried_attempt {request : β} {j : Journal β δ} :
    (j.attempt request).tried = j.tried + 1 := rfl

@[simp] theorem Journal.tried_sleep {delay : δ} {j : Journal β δ} :
    (j.sleep delay).tried = j.tried := rfl

/-- The log of a course that sends one request again and again: an attempt, then a sleep and an attempt
    for every retry. -/
def Course.log (request : β) (c : Course δ ρ) : List (Event β δ) :=
  c.sleeps.flatMap (fun delay => [.attempt request, .sleep delay]) ++ [.attempt request]

theorem foldl_journal (request : β) (sleeps : List δ) (j : Journal β δ) :
    (sleeps.foldl (fun j delay => (j.attempt request).sleep delay) j).attempt request =
      ⟨j.tried + sleeps.length + 1, j.log ++ (sleeps.flatMap fun delay =>
        [.attempt request, .sleep delay]) ++ [.attempt request]⟩ := by
  induction sleeps generalizing j with
  | nil => simp [Journal.attempt]
  | cons delay sleeps ih =>
      rw [List.foldl_cons, ih, List.flatMap_cons, List.length_cons]
      simp [Journal.attempt, Journal.sleep]
      omega

/-- **What a journal records of a loop that sends one request**: as many attempts as the course has, and
    its log.  `seen` is the journal in the state of the loop, `again` what a turn that goes on does to
    the state, and `last` an attempt that is not repeated. -/
theorem journal_eq_course {σ : Type} {verdict : Nat → Verdict δ ρ} {request : β}
    (loop : Nat → Nat → σ → Option (ρ × Journal β δ)) (again : δ → σ → σ) (seen : σ → Journal β δ)
    (last : Nat) (hlast : ∀ n, last ≤ n → ∃ result, verdict n = .stop result) (h1 : 1 ≤ last)
    (hseen : ∀ delay s, seen (again delay s) = ((seen s).attempt request).sleep delay)
    (hzero : ∀ n s, loop 0 n s = none)
    (hturn : ∀ fuel n s, (seen s).tried + 1 = n → n ≤ last →
      loop (fuel + 1) n s = match verdict n with
        | .stop result => some (result, (seen s).attempt request)
        | .again delay => loop fuel (n + 1) (again delay s))
    (fuel : Nat) {s : σ} (hs : seen s = Journal.empty) :
    loop fuel 1 s = (course verdict fuel 1).map fun c =>
      (c.result, ⟨c.sleeps.length + 1, c.log request⟩) := by
  have hloop : loop fuel 1 s = (course verdict fuel 1).map fun c =>
      (c.result, (seen (c.sleeps.foldl (fun s delay => again delay s) s)).attempt request) := by
    -- before attempt `n` the journal has seen the `n - 1` attempts before it
    apply loop_eq_course loop again (fun result s => (result, (seen s).attempt request))
      (fun n s => (seen s).tried + 1 = n ∧ n ≤ last) hzero
    · intro n s delay hv hI
      refine ⟨?_, ?_⟩
      · rw [hseen, Journal.tried_sleep, Journal.tried_attempt, hI.1]
      · by_contra hn
        obtain ⟨result, hstop⟩ := hlast n (by omega)
        rw [hstop] at hv
        cases hv
    · intro fuel n s hI
      rw [hturn fuel n s hI.1 hI.2]
    · refine ⟨?_, h1⟩
      rw [hs, Journal.tried_empty]
  have hfold : ∀ sleeps : List δ, seen (sleeps.foldl (fun s delay => again delay s) s) =
      sleeps.foldl (fun j delay => (j.attempt request).sleep delay) Journal.empty := by
    intro sleeps
    rw [← hs]
    exact (List.foldl_hom seen fun s delay => (hseen delay s).symm).symm
  rw [hloop]
  congr 1
  funext c
  rw [hfold, foldl_journal]
  simp [Journal.empty, Course.log]

end Journals

end CekatEvents.Retry
