/-
  CekatEvents.Effects.Threads — programs that run side by side over one shared state.

  A `Pool` holds a program for every thread, the state they share, and the calls answered so far.  A
  step picks any thread that is at a call and answers it; between two calls of one thread any number of
  calls of the others may be answered.  There may be any number of threads, and one that has not started
  is one that no step has picked.

  Main results:

    • `Run.invariant` — what every answer keeps of the shared state and the history holds in every
      interleaving;
    • `Run.threadInvariant` — the same with a property of each thread's remaining program.
-/
import CekatEvents.Effects.Program
import Mathlib.Logic.Function.Basic

namespace CekatEvents.Effects

open Prog

/-! ## §1. Pools. -/

/-- An answered call. -/
structure Call (ι Op : Type) (Ret : Op → Type) where
  thread : ι
  op : Op
  ret : Ret op

/-- The threads, what they share, and the calls answered so far, the latest first. -/
structure Pool (ι Op : Type) (Ret : Op → Type) (σ α : Type) where
  threads : ι → Prog Op Ret α
  shared : σ
  history : List (Call ι Op Ret)

namespace Pool

variable {ι Op : Type} {Ret : Op → Type} {σ α : Type} [DecidableEq ι]

/-- No call has been answered. -/
def start (threads : ι → Prog Op Ret α) (s : σ) : Pool ι Op Ret σ α := ⟨threads, s, []⟩

/-- One call of one thread is answered. -/
inductive Step (W : World Op Ret σ) : Pool ι Op Ret σ α → Call ι Op Ret → Pool ι Op Ret σ α → Prop
  | answer {threads : ι → Prog Op Ret α} {s s' : σ} {history : List (Call ι Op Ret)} {i : ι} {op : Op}
      {k : Ret op → Prog Op Ret α} {r : Ret op} (hi : threads i = .call op k) (h : W op s r s') :
      Step W ⟨threads, s, history⟩ ⟨i, op, r⟩
        ⟨Function.update threads i (k r), s', ⟨i, op, r⟩ :: history⟩

/-- A thread of the pool is answered. -/
theorem Step.of {W : World Op Ret σ} (p : Pool ι Op Ret σ α) (i : ι) {op : Op}
    {k : Ret op → Prog Op Ret α} (r : Ret op) {s' : σ} (hi : p.threads i = .call op k)
    (h : W op p.shared r s') :
    Step W p ⟨i, op, r⟩ ⟨Function.update p.threads i (k r), s', ⟨i, op, r⟩ :: p.history⟩ :=
  .answer hi h

/-- **An interleaving** whose every step meets the condition `G` on the pool before it. -/
abbrev Run (W : World Op Ret σ) (G : Pool ι Op Ret σ α → Call ι Op Ret → Prop) :
    Pool ι Op Ret σ α → Pool ι Op Ret σ α → Prop :=
  Relation.ReflTransGen fun p p' => ∃ call, Step W p call p' ∧ G p call

/-- Any interleaving. -/
abbrev Reaches (W : World Op Ret σ) : Pool ι Op Ret σ α → Pool ι Op Ret σ α → Prop :=
  Run W fun _ _ => True

variable {W : World Op Ret σ} {G : Pool ι Op Ret σ α → Call ι Op Ret → Prop}
  {p p' : Pool ι Op Ret σ α}

/-! ## §2. Invariants. -/

/-- **What every answer keeps holds in every interleaving.** -/
theorem Run.invariant {I : σ → List (Call ι Op Ret) → Prop} (hrun : Run W G p p')
    (hI : I p.shared p.history)
    (hkeep : ∀ (call : Call ι Op Ret) s s' history, W call.op s call.ret s' → I s history →
      I s' (call :: history)) : I p'.shared p'.history := by
  induction hrun with
  | refl => exact hI
  | tail _ hstep ih =>
      obtain ⟨call, hstep, -⟩ := hstep
      cases hstep with
      | answer hi h => exact hkeep ⟨_, _, _⟩ _ _ _ h ih

/-- **An invariant of the threads beside one of what they share.**  The thread that a step picks keeps
    it by what its call was answered, the others by what the call did to the shared state. -/
theorem Run.threadInvariant {I : σ → List (Call ι Op Ret) → Prop}
    {T : ι → Prog Op Ret α → σ → List (Call ι Op Ret) → Prop} (hrun : Run W G p p')
    (hI : I p.shared p.history) (hT : ∀ i, T i (p.threads i) p.shared p.history)
    (hkeep : ∀ (q : Pool ι Op Ret σ α) i op k r s', I q.shared q.history →
      (∀ j, T j (q.threads j) q.shared q.history) → q.threads i = .call op k →
      W op q.shared r s' → G q ⟨i, op, r⟩ →
      I s' (⟨i, op, r⟩ :: q.history) ∧ T i (k r) s' (⟨i, op, r⟩ :: q.history) ∧
        ∀ j, j ≠ i → T j (q.threads j) s' (⟨i, op, r⟩ :: q.history)) :
    I p'.shared p'.history ∧ ∀ i, T i (p'.threads i) p'.shared p'.history := by
  induction hrun with
  | refl => exact ⟨hI, hT⟩
  | tail _ hstep ih =>
      obtain ⟨call, hstep, hG⟩ := hstep
      cases hstep with
      | @answer threads s s' history i op k r hi h =>
          obtain ⟨hI', hT'⟩ := ih
          obtain ⟨hshared, hpicked, hothers⟩ := hkeep ⟨threads, s, history⟩ i op k r s' hI' hT' hi h hG
          refine ⟨hshared, ?_⟩
          intro j
          by_cases hj : j = i
          · subst hj
            show T j (Function.update threads j (k r) j) s' _
            rw [Function.update_self]
            exact hpicked
          · show T j (Function.update threads i (k r) j) s' _
            rw [Function.update_of_ne hj]
            exact hothers j hj

end Pool

/-! ## §3. What holds of every call of a history. -/

section Histories

variable {ι Op : Type} {Ret : Op → Type}

/-- Every call stands in a relation to the calls before it. -/
def Always (P : Call ι Op Ret → List (Call ι Op Ret) → Prop) (history : List (Call ι Op Ret)) : Prop :=
  ∀ newer call older, history = newer ++ call :: older → P call older

variable {P : Call ι Op Ret → List (Call ι Op Ret) → Prop}

theorem always_nil : Always P [] := by
  intro newer call older h
  cases newer with
  | nil => cases h
  | cons latest newer => cases h

/-- The calls before the latest stand as they did. -/
theorem Always.cons {call : Call ι Op Ret} {history : List (Call ι Op Ret)} (h : Always P history)
    (hcall : P call history) : Always P (call :: history) := by
  intro newer call' older heq
  cases newer with
  | nil =>
      cases heq
      exact hcall
  | cons latest newer =>
      cases heq
      exact h newer call' older rfl

end Histories

end CekatEvents.Effects
