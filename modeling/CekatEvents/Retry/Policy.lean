/-
  CekatEvents.Retry.Policy — which attempts a retry policy repeats.

  A policy looks at the answers to the attempts: there was none, or a response with a status, which may ask
  for a delay.  Five statuses are repeated, unless more than five seconds are asked for.  The last attempt
  of a call follows from its answers.  A loop that repeats some of the attempts the policy repeats ends
  with the last attempt of the policy exactly when it repeats all of those that are due.

  Main results:

    • `LastAttempt.unique` — a call has one last attempt;
    • `lastAttempt_eq_iff` — the loop and the policy end with the same attempt.
-/
import CekatEvents.Retry.Loop
import Mathlib.Algebra.Order.Field.Rat

namespace CekatEvents.Retry

/-! ## §1. Answers. -/

/-- What an attempt was answered: not at all, or with a status and perhaps the seconds to wait for. -/
inductive Answer where
  | nothing
  | response (status : Nat) (asked : Option ℚ)

namespace Answer

/-- The seconds that are asked for. -/
def asked : Answer → ℚ
  | nothing => 0
  | response _ asked => asked.getD 0

/-- **Another attempt may follow**: there was no response, or one of five statuses that does not ask for
    more than five seconds. -/
def Repeated : Answer → Prop
  | nothing => True
  | response status asked => status ∈ [429, 500, 502, 503, 504] ∧ asked.getD 0 ≤ 5

instance : DecidablePred Repeated
  | nothing => inferInstanceAs (Decidable True)
  | response status asked => inferInstanceAs (Decidable (status ∈ [429, 500, 502, 503, 504] ∧ asked.getD 0 ≤ 5))

/-- No more than five seconds are asked for before another attempt. -/
theorem Repeated.asked_le {a : Answer} (h : a.Repeated) : a.asked ≤ 5 := by
  cases a with
  | nothing =>
      show (0 : ℚ) ≤ 5
      decide
  | response status asked => exact h.2

end Answer

/-- A bound that doubles from a hundred up to a thousand is at its limit from the fifth retry on. -/
theorem min_doubling (n : Nat) : min (100 * 2 ^ (min n 5 - 1)) 1000 = min (100 * 2 ^ (n - 1)) 1000 := by
  by_cases h5 : n ≤ 5
  · rw [Nat.min_eq_left h5]
  · have hpow : 2 ^ 4 ≤ 2 ^ (n - 1) := Nat.pow_le_pow_right (by decide) (by omega)
    rw [Nat.min_eq_right (by omega : 5 ≤ n)]
    omega

/-! ## §2. The last attempt. -/

section LastAttempt

variable {p q : Nat → Bool} {retryCount k l : Nat}

/-- A call has one last attempt. -/
theorem LastAttempt.unique (hk : LastAttempt p retryCount k) (hl : LastAttempt p retryCount l) : k = l := by
  have hordered : ∀ {m n}, LastAttempt p retryCount m → LastAttempt p retryCount n → ¬ m < n := by
    intro m n hm hn hlt
    have hlast := hm.stops (hn.before m hm.first_le hlt)
    have hle := hn.le
    omega
  have hkl := hordered hk hl
  have hlk := hordered hl hk
  omega

/-- A retry is due after an attempt: it and every attempt before it are repeated, and a retry is left. -/
def Due (p : Nat → Bool) (retryCount n : Nat) : Prop :=
  1 ≤ n ∧ n ≤ retryCount ∧ ∀ m, 1 ≤ m → m ≤ n → p m = true

/-- A retry is due after every attempt before the last one, and after no other. -/
theorem LastAttempt.due_iff (hk : LastAttempt p retryCount k) {n : Nat} :
    Due p retryCount n ↔ 1 ≤ n ∧ n < k := by
  have hle := hk.le
  constructor
  · rintro ⟨h1, hn, hall⟩
    refine ⟨h1, ?_⟩
    by_contra hnot
    have hlast := hk.stops (hall k hk.first_le (Nat.le_of_not_lt hnot))
    omega
  · rintro ⟨h1, hn⟩
    exact ⟨h1, by omega, fun m hm hmn => hk.before m hm (by omega)⟩

/-- **The loop and the policy end with the same attempt** exactly when the loop repeats whatever is due. -/
theorem lastAttempt_eq_iff (hpq : ∀ n, p n = true → q n = true) (hk : LastAttempt p retryCount k)
    (hl : LastAttempt q retryCount l) : k = l ↔ ∀ n, Due q retryCount n → p n = true := by
  constructor
  · rintro rfl n hn
    obtain ⟨h1, hlt⟩ := hl.due_iff.mp hn
    exact hk.before n h1 hlt
  · intro hdue
    have hlast : LastAttempt p retryCount l := by
      refine ⟨hl.first_le, hl.le, fun hp => hl.stops (hpq l hp), ?_⟩
      intro m h1 hm
      exact hdue m (hl.due_iff.mpr ⟨h1, hm⟩)
    exact hk.unique hlast

/-- A log does not change with the pauses that are not made. -/
theorem log_congr {β δ : Type} {request : β} {delay pause : Nat → δ}
    (h : ∀ n, 1 ≤ n → n < k → delay n = pause n) :
    ((List.range (k - 1)).flatMap fun n => [Event.attempt request, .sleep (delay (n + 1))]) =
      (List.range (k - 1)).flatMap fun n => [Event.attempt request, .sleep (pause (n + 1))] := by
  apply List.flatMap_congr
  intro n hn
  have hlt := List.mem_range.mp hn
  rw [h (n + 1) (by omega) (by omega)]

end LastAttempt

end CekatEvents.Retry
