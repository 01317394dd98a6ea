/-
  CekatEvents.Graph.Unfold — the trees that a graph unfolds to.

  `Unfolds T n x w` says that following the entries of `x`, without a look at identities, ends within `n`
  levels and gives `w`.  A walk looks at identities, and yet:

    * `walk_of_unfolds` — it gives `w`: an item that recurs among its own ancestors unfolds to no tree,
                          so what is only shared is never taken for a cycle;
    * `unfolds_of_walk` — and it gives nothing else;
    * `walk_ne_tooDeep` — with more levels than there are identities it never runs out of levels;
    * `walk_stable`     — and where it does not, still more levels change nothing.
-/
import CekatEvents.Graph.Walk
import Mathlib.Data.Finset.Card

namespace CekatEvents.Graph

variable {α ι σ φ ω : Type}

/-! ## §1. Unfolding. -/

/-- Nothing is wrong with the entry. -/
def Entry.Clean (e : Entry α σ φ) : Prop := e.before = none ∧ e.after = none

/-- **The item unfolds to the tree** within so many levels. -/
def Unfolds (T : Traversal α ι σ φ ω) : Nat → α → ω → Prop
  | 0, _, _ => False
  | n + 1, x, w =>
      T.shape x = .leaf (.ok w) ∨
        ∃ ident entries build ws, T.shape x = .node ident none entries build ∧
          (∀ e ∈ entries, e.Clean) ∧ List.Forall₂ (fun e w => Unfolds T n e.item w) entries ws ∧
            w = build ws

/-- Items of one identity are of one shape. -/
def Identified (T : Traversal α ι σ φ ω) : Prop :=
  ∀ x y i opening opening' entries entries' build build',
    T.shape x = .node (some i) opening entries build →
      T.shape y = .node (some i) opening' entries' build' → T.shape x = T.shape y

section Unfolding

variable {T : Traversal α ι σ φ ω}

/-- An identity names its item. -/
theorem identified_of_item {f : ι → α}
    (h : ∀ x i opening entries build, T.shape x = .node (some i) opening entries build → x = f i) :
    Identified T := by
  intro x y i opening opening' entries entries' build build' hx hy
  rw [h x i _ _ _ hx, h y i _ _ _ hy]

/-- More levels do no harm. -/
theorem Unfolds.succ {n : Nat} {x : α} {w : ω} (h : Unfolds T n x w) : Unfolds T (n + 1) x w := by
  induction n generalizing x w with
  | zero => exact absurd h id
  | succ n ih =>
      rcases h with hleaf | ⟨ident, entries, build, ws, hshape, hclean, hws, rfl⟩
      · exact .inl hleaf
      · exact .inr ⟨ident, entries, build, ws, hshape, hclean, hws.imp fun _ _ he => ih he, rfl⟩

theorem Unfolds.mono {n m : Nat} (hnm : n ≤ m) {x : α} {w : ω} (h : Unfolds T n x w) :
    Unfolds T m x w := by
  induction hnm with
  | refl => exact h
  | step _ ih => exact ih.succ

/-- There is one tree at most. -/
theorem Unfolds.unique {n m : Nat} {x : α} {w w' : ω} (h : Unfolds T n x w) (h' : Unfolds T m x w') :
    w = w' := by
  induction n generalizing m x w w' with
  | zero => exact absurd h id
  | succ n ih =>
      cases m with
      | zero => exact absurd h' id
      | succ m =>
          rcases h with hleaf | ⟨ident, entries, build, ws, hshape, -, hws, rfl⟩
          · rcases h' with hleaf' | ⟨_, _, _, _, hshape', -⟩
            · rw [hleaf] at hleaf'
              cases hleaf'
              rfl
            · rw [hleaf] at hshape'
              cases hshape'
          · rcases h' with hleaf' | ⟨_, _, _, ws', hshape', -, hws', rfl⟩
            · rw [hshape] at hleaf'
              cases hleaf'
            · rw [hshape] at hshape'
              cases hshape'
              congr 1
              clear hshape
              induction hws generalizing ws' with
              | nil =>
                  cases hws'
                  rfl
              | cons he _ ihs =>
                  cases hws' with
                  | cons he' hes' => rw [ih he he', ihs _ hes']

/-- **A measure that counts the nodes inside each other** is at most the number of levels. -/
theorem Unfolds.height_le {height : ω → Nat} (hleaf : ∀ {x w}, T.shape x = .leaf (.ok w) → height w = 0)
    (hnode : ∀ {x ident opening entries build} {ws : List ω} {k : Nat},
      T.shape x = .node ident opening entries build → (∀ w ∈ ws, height w ≤ k) → height (build ws) ≤ k + 1)
    {n : Nat} {x : α} {w : ω} (h : Unfolds T n x w) : height w ≤ n := by
  induction n generalizing x w with
  | zero => exact absurd h id
  | succ n ih =>
      rcases h with hshape | ⟨ident, entries, build, ws, hshape, -, hws, rfl⟩
      · rw [hleaf hshape]
        exact Nat.zero_le _
      · apply hnode hshape
        intro w hw
        obtain ⟨e, -, he⟩ := mem_right_of_forall₂ hws hw
        exact ih he

/-- **Two graphs that agree on items of a kind**, from which one comes to items of the kind only, unfold them
    alike. -/
theorem Unfolds.congr_on {T' : Traversal α ι σ φ ω} {P : α → Prop} (hshape : ∀ x, P x → T.shape x = T'.shape x)
    (hchild : ∀ {x ident opening entries build}, P x → T.shape x = .node ident opening entries build →
      ∀ e ∈ entries, P e.item)
    {n : Nat} {x : α} {w : ω} (hx : P x) (h : Unfolds T n x w) : Unfolds T' n x w := by
  induction n generalizing x w with
  | zero => exact h
  | succ n ih =>
      rcases h with hleaf | ⟨ident, entries, build, ws, hnode, hclean, hws, rfl⟩
      · exact .inl ((hshape x hx).symm.trans hleaf)
      · refine .inr ⟨ident, entries, build, ws, (hshape x hx).symm.trans hnode, hclean, ?_, rfl⟩
        have hmem := (List.forall₂_and_left _ _).mpr ⟨fun e he => he, hws⟩
        exact hmem.imp fun e w he => ih (hchild hx hnode e he.1) he.2

/-- What an item unfolds to is a matter of its shape. -/
theorem unfolds_congr {n : Nat} {x y : α} (h : T.shape x = T.shape y) {w : ω} :
    Unfolds T n x w ↔ Unfolds T n y w := by
  cases n with
  | zero => exact Iff.rfl
  | succ n =>
      unfold Unfolds
      rw [h]

end Unfolding

/-! ## §2. Walks and trees. -/

section Walks

variable {T : Traversal α ι σ φ ω}

theorem walkEntries_ok {walkItem : List σ → α → Except (Located σ φ) ω} {path : List σ}
    {entries : List (Entry α σ φ)} {ws : List ω} (hclean : ∀ e ∈ entries, e.Clean)
    (h : List.Forall₂ (fun e w => ∀ path, walkItem path e.item = .ok w) entries ws) :
    walkEntries walkItem path entries = .ok ws := by
  induction h with
  | nil => rfl
  | @cons e w es ws he _ ih =>
      obtain ⟨hbefore, hafter⟩ := hclean e List.mem_cons_self
      rw [walkEntries, hbefore, he (path ++ [e.step]), hafter,
        ih fun e' he' => hclean e' (List.mem_cons_of_mem e he')]

theorem walkEntries_ok_inv {walkItem : List σ → α → Except (Located σ φ) ω} {P : α → ω → Prop}
    (hP : ∀ path x w, walkItem path x = .ok w → P x w) {path : List σ}
    {entries : List (Entry α σ φ)} {ws : List ω} (h : walkEntries walkItem path entries = .ok ws) :
    (∀ e ∈ entries, e.Clean) ∧ List.Forall₂ (fun e w => P e.item w) entries ws := by
  induction entries generalizing ws with
  | nil =>
      cases h
      exact ⟨fun e he => absurd he List.not_mem_nil, .nil⟩
  | cons e es ih =>
      rw [walkEntries] at h
      cases hb : e.before with
      | some f => simp [hb] at h
      | none =>
          cases hw : walkItem (path ++ [e.step]) e.item with
          | error fault => simp [hb, hw] at h
          | ok w =>
              cases ha : e.after with
              | some f => simp [hb, hw, ha] at h
              | none =>
                  cases hrest : walkEntries walkItem path es with
                  | error fault => simp [hb, hw, ha, hrest] at h
                  | ok ws' =>
                      simp only [hb, hw, ha, hrest, Except.ok.injEq] at h
                      obtain ⟨hclean, hws⟩ := ih hrest
                      rw [← h]
                      exact ⟨List.forall_mem_cons.mpr ⟨⟨hb, ha⟩, hclean⟩, .cons (hP _ _ _ hw) hws⟩

variable [DecidableEq ι]

/-- **What a walk gives, the item unfolds to.** -/
theorem unfolds_of_walk {n : Nat} {ancestors : List ι} {path : List σ} {x : α} {w : ω}
    (h : walk T n ancestors path x = .ok w) : Unfolds T n x w := by
  induction n generalizing ancestors path x w with
  | zero => cases h
  | succ n ih =>
      rw [walk] at h
      cases hshape : T.shape x with
      | leaf result =>
          cases result with
          | error f => simp [hshape] at h
          | ok w' =>
              simp only [hshape, Except.ok.injEq] at h
              rw [← h]
              exact .inl hshape
      | node ident opening entries build =>
          cases hrec : recurs ident ancestors with
          | true => simp [hshape, hrec] at h
          | false =>
              cases opening with
              | some f => simp [hshape, hrec] at h
              | none =>
                  cases hes : walkEntries (walk T n (ident.toList ++ ancestors)) path entries with
                  | error fault => simp [hshape, hrec, hes] at h
                  | ok ws =>
                      simp only [hshape, hrec, hes, Bool.false_eq_true, if_false,
                        Except.ok.injEq] at h
                      obtain ⟨hclean, hws⟩ := walkEntries_ok_inv (P := Unfolds T n)
                        (fun _ _ _ hw => ih hw) hes
                      exact .inr ⟨ident, entries, build, ws, hshape, hclean, hws, h.symm⟩

/-- **A walk gives what the item unfolds to**, when nothing of the identity of an ancestor unfolds in as
    many levels. -/
theorem walk_of_unfolds_within (hT : Identified T) {k n : Nat} (hkn : k ≤ n) {ancestors : List ι}
    {path : List σ} {x : α} {w : ω} (h : Unfolds T k x w)
    (hancestors : ∀ i ∈ ancestors, ∀ y opening entries build w',
      T.shape y = .node (some i) opening entries build → ¬ Unfolds T k y w') :
    walk T n ancestors path x = .ok w := by
  induction k generalizing n ancestors path x w with
  | zero => exact absurd h id
  | succ k ih =>
      by_cases hless : ∃ w', Unfolds T k x w'
      · -- fewer levels are enough
        obtain ⟨w', hw'⟩ := hless
        rw [← hw'.unique h]
        apply ih (Nat.le_of_succ_le hkn) hw'
        intro i hi y opening entries build v hy hv
        exact hancestors i hi y opening entries build v hy hv.succ
      · obtain ⟨n, rfl⟩ : ∃ m, n = m + 1 := ⟨n - 1, by omega⟩
        have hkn : k ≤ n := Nat.le_of_succ_le_succ hkn
        rw [walk]
        rcases h with hleaf | ⟨ident, entries, build, ws, hshape, hclean, hws, rfl⟩
        · rw [hleaf]
        · have hrec : recurs ident ancestors = false := by
            apply recurs_eq_false_iff.mpr
            intro i hi hmem
            rw [Option.mem_def] at hi
            rw [hi] at hshape
            exact hancestors i hmem x _ _ _ _ hshape
              (.inr ⟨_, entries, build, ws, hshape, hclean, hws, rfl⟩)
          have hentries : walkEntries (walk T n (ident.toList ++ ancestors)) path entries = .ok ws := by
            apply walkEntries_ok hclean
            apply hws.imp
            intro e w he path
            apply ih hkn he
            intro i hi y opening entries' build' v hy hv
            rcases List.mem_append.mp hi with hi | hi
            · -- an item of the identity of `x` is of its shape, and that needs more levels
              rw [Option.mem_toList] at hi
              rw [hi] at hshape
              have hsame : T.shape y = T.shape x := hT y x i _ _ _ _ _ _ hy hshape
              exact hless ⟨v, (unfolds_congr hsame).mp hv⟩
            · exact hancestors i hi y opening entries' build' v hy hv.succ
          simp only [hshape, hrec, hentries, Bool.false_eq_true, if_false]

/-- **What unfolds to a tree is walked**, however much of it is shared. -/
theorem walk_of_unfolds (hT : Identified T) {k n : Nat} (hkn : k ≤ n) {path : List σ} {x : α} {w : ω}
    (h : Unfolds T k x w) : walk T n [] path x = .ok w := by
  apply walk_of_unfolds_within hT hkn h
  intro i hi
  exact absurd hi List.not_mem_nil

/-! ## §3. Enough levels. -/

/-- No fault that the graph itself tells of is that of running out of levels. -/
structure OwnFaults (T : Traversal α ι σ φ ω) : Prop where
  leaf : ∀ {x f}, T.shape x = .leaf (.error f) → f ≠ T.tooDeep
  opening : ∀ {x ident f entries build}, T.shape x = .node ident (some f) entries build →
    f ≠ T.tooDeep
  entry : ∀ {x ident opening entries build}, T.shape x = .node ident opening entries build →
    ∀ e ∈ entries, ∀ f, e.before = some f ∨ e.after = some f → f ≠ T.tooDeep
  cyclic : T.cyclic ≠ T.tooDeep

/-- From the items of a kind one comes to items of the kind only, each node of them has one of finitely
    many identities, and no fault of theirs is that of running out of levels. -/
structure FiniteOn (T : Traversal α ι σ φ ω) (S : Finset ι) (P : α → Prop) : Prop
    extends OwnFaults T where
  ident : ∀ {x ident opening entries build}, P x → T.shape x = .node ident opening entries build →
    ∃ i ∈ S, ident = some i
  child : ∀ {x ident opening entries build}, P x → T.shape x = .node ident opening entries build →
    ∀ e ∈ entries, P e.item

omit [DecidableEq ι] in
theorem OwnFaults.not_blames (hT : OwnFaults T) {ancestors : List ι} {x : α} :
    ¬ Blames T ancestors x T.tooDeep := by
  intro h
  generalize hf : T.tooDeep = f at h
  cases h with
  | leaf hshape => exact hT.leaf hshape hf.symm
  | cycle hshape hmem => exact hT.cyclic hf.symm
  | opening hshape => exact hT.opening hshape hf.symm
  | entry hshape he hfault => exact hT.entry hshape _ he _ hfault hf.symm

omit [DecidableEq ι] in
/-- **A walk runs out of levels only at an item that is as many steps away.** -/
theorem OwnFaults.reaches (hT : OwnFaults T) {n : Nat} {ancestors : List ι} {path p : List σ} {x : α}
    (h : First T n ancestors path x (p, T.tooDeep)) :
    ∃ ancestors' y, Reaches T ancestors x ancestors' n y := by
  obtain ⟨ancestors', d, y, hreach, ⟨rfl, -⟩ | ⟨-, hblames⟩⟩ := h.blames
  · exact ⟨ancestors', y, hreach⟩
  · exact absurd hblames hT.not_blames

omit [DecidableEq ι] in
/-- Entries fail by a fault of their own or by one of their items. -/
theorem walkEntries_error {walkItem : List σ → α → Except (Located σ φ) ω} {path : List σ}
    {entries : List (Entry α σ φ)} {p : List σ} {f : φ}
    (h : walkEntries walkItem path entries = .error (p, f)) :
    ∃ e ∈ entries, (e.before = some f ∨ e.after = some f) ∨
      walkItem (path ++ [e.step]) e.item = .error (p, f) := by
  induction entries with
  | nil => cases h
  | cons e es ih =>
      rw [walkEntries] at h
      cases hb : e.before with
      | some f' =>
          simp only [hb, Except.error.injEq, Prod.mk.injEq] at h
          exact ⟨e, List.mem_cons_self, .inl (.inl (by rw [hb, h.2]))⟩
      | none =>
          cases hw : walkItem (path ++ [e.step]) e.item with
          | error fault =>
              simp only [hb, hw, Except.error.injEq] at h
              rw [h] at hw
              exact ⟨e, List.mem_cons_self, .inr hw⟩
          | ok w =>
              cases ha : e.after with
              | some f' =>
                  simp only [hb, hw, ha, Except.error.injEq, Prod.mk.injEq] at h
                  exact ⟨e, List.mem_cons_self, .inl (.inr (by rw [ha, h.2]))⟩
              | none =>
                  cases hrest : walkEntries walkItem path es with
                  | error fault =>
                      simp only [hb, hw, ha, hrest] at h
                      obtain ⟨e', he', hfault⟩ := ih (hrest.trans h)
                      exact ⟨e', List.mem_cons_of_mem e he', hfault⟩
                  | ok ws' => simp [hb, hw, ha, hrest] at h

/-- **A walk never runs out of levels** when there are more of them than identities. -/
theorem walk_ne_tooDeep {S : Finset ι} {P : α → Prop} (hT : FiniteOn T S P) {n : Nat}
    {ancestors : List ι} (hsub : ∀ i ∈ ancestors, i ∈ S) (hnodup : ancestors.Nodup)
    (hlevels : S.card < n + ancestors.length) {path : List σ} {x : α} (hx : P x) (p : List σ) :
    walk T n ancestors path x ≠ .error (p, T.tooDeep) := by
  induction n generalizing ancestors path x with
  | zero =>
      -- the ancestors are as many identities
      have hle : ancestors.length ≤ S.card := by
        rw [← List.toFinset_card_of_nodup hnodup]
        apply Finset.card_le_card
        intro i hi
        exact hsub i (List.mem_toFinset.mp hi)
      omega
  | succ n ih =>
      intro h
      rw [walk] at h
      cases hshape : T.shape x with
      | leaf result =>
          cases result with
          | error f =>
              simp only [hshape, Except.error.injEq, Prod.mk.injEq] at h
              exact hT.leaf hshape h.2
          | ok w => simp [hshape] at h
      | node ident opening entries build =>
          cases hrec : recurs ident ancestors with
          | true =>
              simp only [hshape, hrec, if_true, Except.error.injEq, Prod.mk.injEq] at h
              exact hT.cyclic h.2
          | false =>
              cases opening with
              | some f =>
                  simp only [hshape, hrec, Bool.false_eq_true, if_false, Except.error.injEq,
                    Prod.mk.injEq] at h
                  exact hT.opening hshape h.2
              | none =>
                  obtain ⟨i, hi, rfl⟩ := hT.ident hx hshape
                  have hnot : i ∉ ancestors := recurs_eq_false_iff.mp hrec i rfl
                  cases hes : walkEntries (walk T n ((some i).toList ++ ancestors)) path entries with
                  | ok ws =>
                      simp only [hshape, hrec, hes, Bool.false_eq_true, if_false] at h
                      cases h
                  | error fault =>
                      simp only [hshape, hrec, hes, Bool.false_eq_true, if_false,
                        Except.error.injEq] at h
                      rw [h] at hes
                      obtain ⟨e, he, hown | hitem⟩ := walkEntries_error hes
                      · exact hT.entry hshape e he _ hown rfl
                      · refine ih ?_ ?_ ?_ (hT.child hx hshape e he) hitem
                        · intro j hj
                          rcases List.mem_cons.mp hj with rfl | hj
                          · exact hi
                          · exact hsub j hj
                        · exact List.nodup_cons.mpr ⟨hnot, hnodup⟩
                        · simp only [Option.toList_some, List.cons_append, List.nil_append,
                            List.length_cons]
                          omega

/-! ## §4. More levels. -/

omit [DecidableEq ι] in
theorem walkEntries_stable {f g : List σ → α → Except (Located σ φ) ω} {tooDeep : φ}
    (hfg : ∀ path x, (∀ p, f path x ≠ .error (p, tooDeep)) → g path x = f path x) {path : List σ}
    {entries : List (Entry α σ φ)} (h : ∀ p, walkEntries f path entries ≠ .error (p, tooDeep)) :
    walkEntries g path entries = walkEntries f path entries := by
  induction entries with
  | nil => rfl
  | cons e es ih =>
      rw [walkEntries] at h ⊢
      rw [walkEntries]
      cases hb : e.before with
      | some fault => rfl
      | none =>
          simp only [hb] at h ⊢
          have hitem : g (path ++ [e.step]) e.item = f (path ++ [e.step]) e.item := by
            apply hfg
            intro p hp
            rw [hp] at h
            exact h p rfl
          rw [hitem]
          cases hw : f (path ++ [e.step]) e.item with
          | error fault => rfl
          | ok w =>
              cases ha : e.after with
              | some fault => rfl
              | none =>
                  simp only [hw, ha] at h ⊢
                  rw [ih]
                  intro p hp
                  rw [hp] at h
                  exact h p rfl

/-- **A walk that did not run out of levels is the same with more of them.** -/
theorem walk_stable {n m : Nat} (hnm : n ≤ m) {ancestors : List ι} {path : List σ} {x : α}
    (h : ∀ p, walk T n ancestors path x ≠ .error (p, T.tooDeep)) :
    walk T m ancestors path x = walk T n ancestors path x := by
  induction n generalizing m ancestors path x with
  | zero => exact absurd rfl (h path)
  | succ n ih =>
      obtain ⟨m, rfl⟩ : ∃ k, m = k + 1 := ⟨m - 1, by omega⟩
      rw [walk] at h ⊢
      rw [walk]
      cases hshape : T.shape x with
      | leaf result => cases result <;> rfl
      | node ident opening entries build =>
          simp only [hshape] at h ⊢
          cases hrec : recurs ident ancestors with
          | true => rfl
          | false =>
              cases opening with
              | some fault => rfl
              | none =>
                  simp only [hrec, Bool.false_eq_true, if_false] at h ⊢
                  rw [walkEntries_stable (fun path x hx => ih (Nat.le_of_succ_le_succ hnm) hx)]
                  intro p hp
                  rw [hp] at h
                  exact h p rfl

end Walks

end CekatEvents.Graph
