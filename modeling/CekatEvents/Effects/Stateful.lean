/-
  CekatEvents.Effects.Stateful — code that changes a state and may throw.

  Such code is an `EStateM`: it ends with a value or an error, and with the state it leaves.  A sequence
  is read step by step, the state handed from each step to the next.  Code that only looks at the state
  and may refuse it is described by `Checks`, which sequences compose; `Preserves` says that an
  invariant outlasts code that returns.
-/
import Mathlib.Logic.Basic

namespace CekatEvents.Effects

/-! ## §1. Sequences. -/

variable {ε σ α β : Type} {x : EStateM ε σ α} {f : α → EStateM ε σ β} {s t u : σ}

theorem bind_of_ok {a : α} (h : x s = .ok a t) : (x >>= f) s = f a t := by
  show EStateM.bind x f s = _
  unfold EStateM.bind
  rw [h]

theorem bind_of_error {e : ε} (h : x s = .error e t) : (x >>= f) s = .error e t := by
  show EStateM.bind x f s = _
  unfold EStateM.bind
  rw [h]

theorem map_of_ok {g : α → β} {a : α} (h : x s = .ok a t) : (g <$> x) s = .ok (g a) t := by
  show EStateM.map g x s = _
  unfold EStateM.map
  rw [h]

theorem map_of_error {g : α → β} {e : ε} (h : x s = .error e t) : (g <$> x) s = .error e t := by
  show EStateM.map g x s = _
  unfold EStateM.map
  rw [h]

/-- The state that code leaves, whether it returns or throws. -/
def leaves (x : EStateM ε σ α) (s : σ) : σ :=
  match x s with
  | .ok _ t => t
  | .error _ t => t

/-- Code that goes on as other code does leaves what that leaves. -/
theorem leaves_eq {y : EStateM ε σ α} (h : x s = y t) : leaves x s = leaves y t := by
  unfold leaves
  rw [h]

theorem leaves_of_ok {a : α} (h : x s = .ok a t) : leaves x s = t := by
  unfold leaves
  rw [h]

theorem leaves_of_error {e : ε} (h : x s = .error e t) : leaves x s = t := by
  unfold leaves
  rw [h]

/-- A sequence returns what its steps return, one after another. -/
theorem stateful_bind_ok_iff {b : β} :
    (x >>= f) s = .ok b u ↔ ∃ a t, x s = .ok a t ∧ f a t = .ok b u := by
  constructor
  · intro h
    cases hx : x s with
    | ok a t => exact ⟨a, t, rfl, (bind_of_ok hx).symm.trans h⟩
    | error e t =>
        rw [bind_of_error hx] at h
        cases h
  · intro h
    obtain ⟨a, t, hx, hf⟩ := h
    rw [bind_of_ok hx, hf]

/-- A sequence returns when its first step does and the rest does after it. -/
theorem stateful_bind_returns_iff :
    (∃ b u, (x >>= f) s = .ok b u) ↔ ∃ a t, x s = .ok a t ∧ ∃ b u, f a t = .ok b u := by
  constructor
  · intro h
    obtain ⟨b, u, h⟩ := h
    obtain ⟨a, t, hx, hf⟩ := stateful_bind_ok_iff.mp h
    exact ⟨a, t, hx, b, u, hf⟩
  · intro h
    obtain ⟨a, t, hx, b, u, hf⟩ := h
    exact ⟨b, u, stateful_bind_ok_iff.mpr ⟨a, t, hx, hf⟩⟩

/-- A search whose test only looks at the state. -/
theorem anyM_of_looks {test : α → EStateM ε σ Bool} {p : α → Bool}
    (h : ∀ a, test a s = .ok (p a) s) (as : List α) : as.anyM test s = .ok (as.any p) s := by
  induction as with
  | nil => rfl
  | cons a as ih =>
      rw [List.anyM, bind_of_ok (h a), List.any_cons]
      cases p a with
      | true => rfl
      | false => exact ih

/-- A filter whose test only looks at the state. -/
theorem filterM_of_looks {test : α → EStateM ε σ Bool} {p : α → Bool}
    (h : ∀ a, test a s = .ok (p a) s) (as : List α) : as.filterM test s = .ok (as.filter p) s := by
  have haux : ∀ acc, List.filterAuxM test as acc s = .ok ((as.filter p).reverse ++ acc) s := by
    induction as with
    | nil => exact fun _ => rfl
    | cons a as ih =>
        intro acc
        rw [List.filterAuxM, bind_of_ok (h a), ih]
        cases hp : p a with
        | true => simp [List.filter_cons_of_pos hp]
        | false => simp [hp]
  unfold List.filterM
  rw [bind_of_ok (haux [])]
  simp only [List.append_nil, List.reverse_reverse]
  rfl

/-! ## §2. Checks. -/

/-- **Code that leaves the state alone**, and returns exactly where the condition holds. -/
structure Checks (x : EStateM ε σ α) (s : σ) (c : Prop) (a : α) : Prop where
  passes : c → x s = .ok a s
  fails : ¬ c → ∃ e t, x s = .error e t

section Checks

variable {c d : Prop} {a : α} {b : β}

theorem Checks.of_ok (h : x s = .ok a s) : Checks x s True a :=
  ⟨fun _ => h, fun hno => absurd trivial hno⟩

theorem Checks.of_error {e : ε} (h : x s = .error e t) : Checks x s False a :=
  ⟨False.elim, fun _ => ⟨e, t, h⟩⟩

theorem Checks.congr (h : Checks x s c a) (hcd : c ↔ d) : Checks x s d a := by
  rwa [← propext hcd]

/-- A check, and the next one after it. -/
theorem Checks.bind (hx : Checks x s c a) (hf : c → Checks (f a) s d b) :
    Checks (x >>= f) s (c ∧ d) b where
  passes h := by
    rw [bind_of_ok (hx.passes h.1)]
    exact (hf h.1).passes h.2
  fails hno := by
    by_cases hc : c
    · rw [bind_of_ok (hx.passes hc)]
      exact (hf hc).fails fun hd => hno ⟨hc, hd⟩
    · obtain ⟨e, t, hx⟩ := hx.fails hc
      exact ⟨e, t, bind_of_error hx⟩

/-- What was looked at decides how it goes on. -/
theorem Checks.look (hx : x s = .ok a s) (hf : Checks (f a) s d b) : Checks (x >>= f) s d b :=
  ((Checks.of_ok hx).bind fun _ => hf).congr (and_iff_right trivial)

/-- A test that throws where it fails. -/
theorem Checks.guard {p : Prop} [Decidable p] {y z : EStateM ε σ α} (hy : p → Checks y s c a)
    (hz : ¬ p → ∃ e t, z s = .error e t) : Checks (if p then y else z) s (p ∧ c) a := by
  by_cases hp : p
  · rw [if_pos hp]
    exact (hy hp).congr (and_iff_right hp).symm
  · rw [if_neg hp]
    exact ⟨fun h => absurd h.1 hp, fun _ => hz hp⟩

/-- One check for each entry of a list. -/
theorem Checks.forM {check : β → EStateM ε σ PUnit} {p : β → Prop} {bs : List β}
    (h : ∀ b ∈ bs, Checks (check b) s (p b) PUnit.unit) :
    Checks (bs.forM check) s (∀ b ∈ bs, p b) PUnit.unit := by
  induction bs with
  | nil => exact (Checks.of_ok (a := PUnit.unit) rfl).congr (by simp)
  | cons b bs ih =>
      have hrest := ih fun b' hb' => h b' (List.mem_cons_of_mem b hb')
      exact ((h b List.mem_cons_self).bind fun _ => hrest).congr List.forall_mem_cons.symm

/-- A check that passed. -/
theorem Checks.ok_iff (h : Checks x s c a) {a' : α} : x s = .ok a' t ↔ c ∧ a' = a ∧ t = s := by
  by_cases hc : c
  · rw [h.passes hc, EStateM.Result.ok.injEq]
    simp only [hc, true_and]
    exact and_congr eq_comm eq_comm
  · obtain ⟨e, u, hx⟩ := h.fails hc
    rw [hx]
    simp [hc]

end Checks

/-! ## §3. Invariants. -/

/-- Where the code returns, the invariant holds as it did before. -/
def Preserves (I : σ → Prop) (x : EStateM ε σ α) : Prop := ∀ s a t, x s = .ok a t → I s → I t

section Preserves

variable {I : σ → Prop}

theorem preserves_pure (a : α) : Preserves I (pure a : EStateM ε σ α) := by
  intro s a' t h hs
  cases h
  exact hs

theorem Preserves.bind (hx : Preserves I x) (hf : ∀ a, Preserves I (f a)) : Preserves I (x >>= f) := by
  intro s b u h hs
  obtain ⟨a, t, hfirst, hrest⟩ := stateful_bind_ok_iff.mp h
  exact hf a t b u hrest (hx s a t hfirst hs)

theorem preserves_anyM {test : α → EStateM ε σ Bool} (h : ∀ a, Preserves I (test a)) (as : List α) :
    Preserves I (as.anyM test) := by
  induction as with
  | nil => exact preserves_pure false
  | cons a as ih =>
      apply (h a).bind
      intro found
      cases found with
      | true => exact preserves_pure true
      | false => exact ih

theorem preserves_filterM {test : α → EStateM ε σ Bool} (h : ∀ a, Preserves I (test a)) (as : List α) :
    Preserves I (as.filterM test) := by
  have haux : ∀ acc, Preserves I (List.filterAuxM test as acc) := by
    induction as with
    | nil => exact fun acc => preserves_pure acc
    | cons a as ih => exact fun acc => (h a).bind fun kept => ih _
  exact (haux []).bind fun acc => preserves_pure acc.reverse

end Preserves

end CekatEvents.Effects
