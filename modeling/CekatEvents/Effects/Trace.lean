/-
  CekatEvents.Effects.Trace — machines that run over a list of actions.

  A run is the fold of a step over its actions; `Respects` says that every action meets a condition on
  the state it is taken in.
-/

namespace CekatEvents.Effects

section Traces

variable {σ α : Type} {step : σ → α → σ} {G : σ → α → Prop} {I : σ → Prop}

/-- Every action meets the condition `G` on the state before it. -/
def Respects (step : σ → α → σ) (G : σ → α → Prop) : σ → List α → Prop
  | _, [] => True
  | s, a :: rest => G s a ∧ Respects step G (step s a) rest

/-- **What every action keeps under the condition holds after a run that respects it.** -/
theorem Respects.invariant {s : σ} {actions : List α} (h : Respects step G s actions) (hI : I s)
    (hkeep : ∀ s a, I s → G s a → I (step s a)) : I (actions.foldl step s) := by
  induction actions generalizing s with
  | nil => exact hI
  | cons a rest ih => exact ih h.2 (hkeep s a hI h.1)

end Traces

end CekatEvents.Effects
