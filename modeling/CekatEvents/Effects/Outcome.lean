/-
  CekatEvents.Effects.Outcome — what a computation that may fail can raise.

  `Raises P x` says that every error of `x` is one of `P`.  A `do` block is then read step by step: it
  raises only `P` when its first step does, and the rest does on everything the first step returns
  (`raises_bind`); it returns what its steps return one after another (`bind_ok_iff`).
-/
import Mathlib.Logic.Basic

namespace CekatEvents.Effects

variable {ε α β : Type} {P : ε → Prop}

/-- Every error is one of these. -/
def Raises (P : ε → Prop) (x : Except ε α) : Prop := ∀ e, x = .error e → P e

theorem raises_ok {a : α} : Raises P (.ok a) := by
  intro e h
  cases h

@[simp] theorem raises_error_iff {e : ε} : Raises P (.error e : Except ε α) ↔ P e := by
  constructor
  · intro h
    exact h e rfl
  · intro h e' he
    cases he
    exact h

/-- A sequence returns what its steps return. -/
theorem bind_ok_iff {x : Except ε α} {f : α → Except ε β} {b : β} :
    (x >>= f) = .ok b ↔ ∃ a, x = .ok a ∧ f a = .ok b := by
  constructor
  · intro h
    cases x with
    | error e => cases h
    | ok a => exact ⟨a, rfl, h⟩
  · intro h
    obtain ⟨a, rfl, ha⟩ := h
    exact ha

/-- **A sequence raises what its steps raise**, each step on what the one before it returned. -/
theorem raises_bind {x : Except ε α} {f : α → Except ε β} :
    Raises P (x >>= f) ↔ Raises P x ∧ ∀ a, x = .ok a → Raises P (f a) := by
  cases x with
  | error e =>
      constructor
      · intro h
        refine ⟨raises_error_iff.mpr (h e rfl), ?_⟩
        intro a ha
        cases ha
      · intro h
        exact raises_error_iff.mpr (raises_error_iff.mp h.1)
  | ok a =>
      constructor
      · intro h
        refine ⟨raises_ok, ?_⟩
        intro a' ha
        cases ha
        exact h
      · intro h
        exact h.2 a rfl

theorem map_ok_iff {x : Except ε α} {f : α → β} {b : β} :
    x.map f = .ok b ↔ ∃ a, x = .ok a ∧ f a = b := by
  cases x with
  | error e => simp [Except.map]
  | ok a => simp [Except.map]

theorem raises_map {x : Except ε α} {f : α → β} : Raises P (x.map f) ↔ Raises P x := by
  cases x with
  | error e => rw [raises_error_iff]; exact raises_error_iff
  | ok a => exact iff_of_true raises_ok raises_ok

@[simp] theorem mapError_ok {ε' : Type} (f : ε → ε') (a : α) :
    (Except.ok a : Except ε α).mapError f = .ok a := rfl

@[simp] theorem mapError_error {ε' : Type} (f : ε → ε') (e : ε) :
    (Except.error e : Except ε α).mapError f = .error (f e) := rfl

theorem mapError_ok_iff {ε' : Type} {x : Except ε α} {f : ε → ε'} {a : α} :
    x.mapError f = .ok a ↔ x = .ok a := by
  cases x with
  | error e => simp
  | ok b => simp

theorem raises_mapError {ε' : Type} {P : ε' → Prop} {x : Except ε α} {f : ε → ε'} :
    Raises P (x.mapError f) ↔ Raises (fun e => P (f e)) x := by
  cases x with
  | error e => rw [raises_error_iff]; exact raises_error_iff
  | ok a => exact iff_of_true raises_ok raises_ok

/-- What a list of computations returns is returned by one of them. -/
theorem mem_of_mapM_ok {f : α → Except ε β} {xs : List α} {ys : List β} (h : xs.mapM f = .ok ys)
    {y : β} (hy : y ∈ ys) : ∃ x ∈ xs, f x = .ok y := by
  induction xs generalizing ys with
  | nil =>
      cases h
      cases hy
  | cons x rest ih =>
      rw [List.mapM_cons] at h
      obtain ⟨first, hfirst, h⟩ := bind_ok_iff.mp h
      obtain ⟨others, hothers, hpure⟩ := bind_ok_iff.mp h
      cases hpure
      rcases List.mem_cons.mp hy with rfl | hy
      · exact ⟨x, List.mem_cons_self, hfirst⟩
      · obtain ⟨x', hx', hf⟩ := ih hothers hy
        exact ⟨x', List.mem_cons_of_mem _ hx', hf⟩

/-- A computation that raises only `P`, and nothing of `P`, returns. -/
theorem exists_ok_of_raises {x : Except ε α} (h : Raises P x) (hnot : ∀ e, x = .error e → ¬ P e) :
    ∃ a, x = .ok a := by
  cases x with
  | error e => exact absurd (h e rfl) (hnot e rfl)
  | ok a => exact ⟨a, rfl⟩

end CekatEvents.Effects
