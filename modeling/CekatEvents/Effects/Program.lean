/-
  CekatEvents.Effects.Program — programs that call operations of their environment.

  A `Prog Op Ret α` returns an `α`, or calls an operation and goes on with its answer, or is cut off
  by the fuel of a loop.  The environment is a `World`: a relation that says, from its state, how an
  operation may be answered and what state that leaves.  Everything a program can see of the outside
  (a clock, a signal, a socket) is an operation, so the world may change between any two of them.

  Main results:

    • `ensures_iff_reaches` — the structural predicate `Ensures`, which the proof rules are about, says
      the same as a statement over every configuration that a run reaches;
    • `run_of_ensures` — under a deterministic handler, a program that is never cut off returns, in a
      state that its postcondition allows;
    • `reaches_of_run` — what a handler's run reaches, any environment reaches that may answer so.
-/
import Mathlib.Logic.Relation

namespace CekatEvents.Effects

/-! ## §1. Programs. -/

/-- A program over the operations `Op`, the answers of an operation being of type `Ret op`. -/
inductive Prog (Op : Type) (Ret : Op → Type) (α : Type) where
  | done (a : α)
  | call (op : Op) (k : Ret op → Prog Op Ret α)
  | cutOff

namespace Prog

variable {Op : Type} {Ret : Op → Type} {α β : Type}

/-- Run the first program, then the second on what it returned. -/
def andThen : Prog Op Ret α → (α → Prog Op Ret β) → Prog Op Ret β
  | done a, f => f a
  | call op k, f => call op fun r => (k r).andThen f
  | cutOff, _ => cutOff

instance : Monad (Prog Op Ret) where
  pure := done
  bind := andThen

/-- Call one operation. -/
def perform (op : Op) : Prog Op Ret (Ret op) := call op done

end Prog

open Prog

/-! ## §2. Worlds and runs. -/

section Worlds

variable {Op : Type} {Ret : Op → Type} {σ α β ε : Type}

/-- How an environment of states `σ` may answer the operations. -/
abbrev World (Op : Type) (Ret : Op → Type) (σ : Type) := (op : Op) → σ → Ret op → σ → Prop

/-- A program beside the state of its environment. -/
abbrev Config (Op : Type) (Ret : Op → Type) (σ α : Type) := Prog Op Ret α × σ

/-- One operation is answered. -/
inductive Step (W : World Op Ret σ) : Config Op Ret σ α → Config Op Ret σ α → Prop
  | answer {op : Op} {k : Ret op → Prog Op Ret α} {s s' : σ} {r : Ret op} (h : W op s r s') :
      Step W (call op k, s) (k r, s')

/-- A run: any number of answers. -/
abbrev Reaches (W : World Op Ret σ) : Config Op Ret σ α → Config Op Ret σ α → Prop :=
  Relation.ReflTransGen (Step W)

/-- What must hold whenever a program calls an operation, and whenever it is cut off. -/
structure Duty (Op : Type) (σ : Type) where
  onCall : Op → σ → Prop
  onCutOff : σ → Prop

/-- Every run of the program meets its duty and ends, if it returns, as the postcondition says. -/
def Ensures (W : World Op Ret σ) (D : Duty Op σ) : Prog Op Ret α → (α → σ → Prop) → σ → Prop
  | done a, Q, s => Q a s
  | call op k, Q, s => D.onCall op s ∧ ∀ r s', W op s r s' → Ensures W D (k r) Q s'
  | cutOff, _, s => D.onCutOff s

/-- What duty and postcondition demand of one configuration. -/
def Meets (D : Duty Op σ) (Q : α → σ → Prop) : Config Op Ret σ α → Prop
  | (done a, s) => Q a s
  | (call op _, s) => D.onCall op s
  | (cutOff, s) => D.onCutOff s

variable {W : World Op Ret σ} {D : Duty Op σ}

theorem Ensures.meets {p : Prog Op Ret α} {Q : α → σ → Prop} {s : σ} (h : Ensures W D p Q s) :
    Meets D Q (p, s) := by
  cases p with
  | done a => exact h
  | call op k => exact h.1
  | cutOff => exact h

/-- Whatever a program ensures, it still ensures after any part of a run. -/
theorem Ensures.reaches {Q : α → σ → Prop} {c c' : Config Op Ret σ α}
    (h : Ensures W D c.1 Q c.2) (hrun : Reaches W c c') : Ensures W D c'.1 Q c'.2 := by
  induction hrun with
  | refl => exact h
  | tail _ hstep ih =>
      cases hstep with
      | answer hw => exact ih.2 _ _ hw

/-- **`Ensures` is a statement about every configuration a run reaches.** -/
theorem ensures_iff_reaches {p : Prog Op Ret α} {Q : α → σ → Prop} {s : σ} :
    Ensures W D p Q s ↔ ∀ c, Reaches W (p, s) c → Meets D Q c := by
  constructor
  · intro h c hrun
    exact (h.reaches hrun).meets
  · intro h
    induction p generalizing s with
    | done a => exact h _ .refl
    | cutOff => exact h _ .refl
    | call op k ih =>
        refine ⟨h _ .refl, ?_⟩
        intro r s' hw
        apply ih
        intro c hrun
        exact h c (.head (.answer hw) hrun)

/-! ## §3. Rules. -/

theorem Ensures.mono {D' : Duty Op σ} {p : Prog Op Ret α} {Q Q' : α → σ → Prop} {s : σ}
    (h : Ensures W D p Q s) (hcall : ∀ op s, D.onCall op s → D'.onCall op s)
    (hcut : ∀ s, D.onCutOff s → D'.onCutOff s) (hQ : ∀ a s, Q a s → Q' a s) :
    Ensures W D' p Q' s := by
  induction p generalizing s with
  | done a => exact hQ a s h
  | cutOff => exact hcut s h
  | call op k ih =>
      refine ⟨hcall op s h.1, ?_⟩
      intro r s' hw
      exact ih r (h.2 r s' hw)

/-- The rule of consequence. -/
theorem Ensures.imp {p : Prog Op Ret α} {Q Q' : α → σ → Prop} {s : σ} (h : Ensures W D p Q s)
    (hQ : ∀ a s, Q a s → Q' a s) : Ensures W D p Q' s :=
  h.mono (fun _ _ h => h) (fun _ h => h) hQ

/-- An environment that does less leaves more ensured. -/
theorem Ensures.narrow {W' : World Op Ret σ} {p : Prog Op Ret α} {Q : α → σ → Prop} {s : σ}
    (h : Ensures W D p Q s) (hW : ∀ op s r s', W' op s r s' → W op s r s') :
    Ensures W' D p Q s := by
  induction p generalizing s with
  | done a => exact h
  | cutOff => exact h
  | call op k ih =>
      refine ⟨h.1, ?_⟩
      intro r s' hw
      exact ih r (h.2 r s' (hW op s r s' hw))

theorem ensures_andThen {p : Prog Op Ret α} {f : α → Prog Op Ret β} {Q : β → σ → Prop} {s : σ} :
    Ensures W D (p.andThen f) Q s ↔ Ensures W D p (fun a s' => Ensures W D (f a) Q s') s := by
  induction p generalizing s with
  | done a => rfl
  | cutOff => rfl
  | call op k ih =>
      show D.onCall op s ∧ (∀ r s', W op s r s' → Ensures W D ((k r).andThen f) Q s') ↔ _
      simp only [ih]
      rfl

/-- The rule of sequencing. -/
@[simp] theorem ensures_bind {p : Prog Op Ret α} {f : α → Prog Op Ret β} {Q : β → σ → Prop} {s : σ} :
    Ensures W D (p >>= f) Q s ↔ Ensures W D p (fun a s' => Ensures W D (f a) Q s') s :=
  ensures_andThen

@[simp] theorem ensures_pure {a : α} {Q : α → σ → Prop} {s : σ} :
    Ensures W D (pure a) Q s ↔ Q a s := Iff.rfl

@[simp] theorem ensures_done {a : α} {Q : α → σ → Prop} {s : σ} :
    Ensures W D (done a) Q s ↔ Q a s := Iff.rfl

@[simp] theorem ensures_cutOff {Q : α → σ → Prop} {s : σ} :
    Ensures W D cutOff Q s ↔ D.onCutOff s := Iff.rfl

/-- The rule of one operation. -/
@[simp] theorem ensures_perform {op : Op} {Q : Ret op → σ → Prop} {s : σ} :
    Ensures W D (perform op) Q s ↔ D.onCall op s ∧ ∀ r s', W op s r s' → Q r s' := Iff.rfl

/-- The program calls no operation but the allowed ones. -/
def Only (allowed : Op → Prop) : Prog Op Ret α → Prop
  | done _ => True
  | call op k => allowed op ∧ ∀ r, Only allowed (k r)
  | cutOff => True

theorem Only.bind {allowed : Op → Prop} {p : Prog Op Ret α} {f : α → Prog Op Ret β}
    (hp : Only allowed p) (hf : ∀ a, Only allowed (f a)) : Only allowed (p >>= f) := by
  induction p with
  | done a => exact hf a
  | cutOff => trivial
  | call op k ih => exact ⟨hp.1, fun r => ih r (hp.2 r)⟩

theorem Only.perform {allowed : Op → Prop} {op : Op} (h : allowed op) :
    Only allowed (perform op : Prog Op Ret (Ret op)) := ⟨h, fun _ => trivial⟩

theorem Only.pure {allowed : Op → Prop} (a : α) : Only allowed (pure a : Prog Op Ret α) := trivial

/-- **A program of allowed operations keeps what each of them keeps.** -/
theorem Only.ensures {allowed : Op → Prop} {K : σ → σ → Prop} {p : Prog Op Ret α}
    (hp : Only allowed p) (hrefl : ∀ s, K s s) (htrans : ∀ s t u, K s t → K t u → K s u)
    (hcall : ∀ op s, allowed op → D.onCall op s) (hcut : ∀ s, D.onCutOff s)
    (hstep : ∀ op s r s', allowed op → W op s r s' → K s s') (s : σ) :
    Ensures W D p (fun _ s' => K s s') s := by
  induction p generalizing s with
  | done a => exact hrefl s
  | cutOff => exact hcut s
  | call op k ih =>
      refine ⟨hcall op s hp.1, ?_⟩
      intro r s' hw
      apply (ih r (hp.2 r) s').imp
      intro _ u hu
      exact htrans s s' u (hstep op s r s' hp.1 hw) hu

end Worlds

/-! ## §4. Deterministic environments. -/

section Handlers

variable {Op : Type} {Ret : Op → Type} {σ α β : Type}

/-- An environment that answers in one way. -/
abbrev Handler (Op : Type) (Ret : Op → Type) (σ : Type) := (op : Op) → σ → Ret op × σ

/-- The world of a handler. -/
def Handler.world (h : Handler Op Ret σ) : World Op Ret σ := fun op s r s' => h op s = (r, s')

/-- Run a program; nothing when it is cut off. -/
def run (h : Handler Op Ret σ) : Prog Op Ret α → σ → Option (α × σ)
  | done a, s => some (a, s)
  | call op k, s => run h (k (h op s).1) (h op s).2
  | cutOff, _ => none

variable {h : Handler Op Ret σ}

@[simp] theorem run_done {a : α} {s : σ} : run h (done a) s = some (a, s) := rfl

@[simp] theorem run_pure {a : α} {s : σ} : run h (pure a) s = some (a, s) := rfl

@[simp] theorem run_cutOff {s : σ} : run h (cutOff : Prog Op Ret α) s = none := rfl

@[simp] theorem run_perform {op : Op} {s : σ} : run h (perform op) s = some (h op s) := rfl

theorem run_andThen {p : Prog Op Ret α} {f : α → Prog Op Ret β} {s : σ} :
    run h (p.andThen f) s = (run h p s).bind fun r => run h (f r.1) r.2 := by
  induction p generalizing s with
  | done a => rfl
  | cutOff => rfl
  | call op k ih => exact ih _

@[simp] theorem run_bind {p : Prog Op Ret α} {f : α → Prog Op Ret β} {s : σ} :
    run h (p >>= f) s = (run h p s).bind fun r => run h (f r.1) r.2 :=
  run_andThen

/-- **A program that is never cut off returns, in a state its postcondition allows.** -/
theorem run_of_ensures {D : Duty Op σ} {p : Prog Op Ret α} {Q : α → σ → Prop} {s : σ}
    (hcut : ∀ s, ¬ D.onCutOff s) (hp : Ensures h.world D p Q s) :
    ∃ a s', run h p s = some (a, s') ∧ Q a s' := by
  induction p generalizing s with
  | done a => exact ⟨a, s, rfl, hp⟩
  | cutOff => exact absurd hp (hcut s)
  | call op k ih => exact ih _ (hp.2 _ _ rfl)

/-- A run of a handler is a run of any environment that may answer as it does. -/
theorem reaches_of_run {W : World Op Ret σ} {p : Prog Op Ret α} {a : α} {s s' : σ}
    (hW : ∀ op s, W op s (h op s).1 (h op s).2) (hrun : run h p s = some (a, s')) :
    Reaches W (p, s) (done a, s') := by
  induction p generalizing s with
  | done b =>
      cases hrun
      exact .refl
  | cutOff => cases hrun
  | call op k ih => exact .head (.answer (hW op s)) (ih _ hrun)

end Handlers

end CekatEvents.Effects
