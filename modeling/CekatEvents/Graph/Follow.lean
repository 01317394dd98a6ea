/-
  CekatEvents.Graph.Follow — relations between items and trees that follow a graph.

  A relation `M x v` says, in terms of its own, that the item `x` stands for the tree `v`.  It follows a graph
  when every pair of it is a leaf of the graph, or a node whose entries stand for the trees inside; `ok` is what
  a tree has to satisfy for the graph to let it through, and `A w v` says that what the graph builds is `v`.

    * `Follows.reaches`      — whatever is reached from it stands for a tree as well, a smaller one;
    * `Follows.not_tooDeep`  — a walk with levels for the tree does not run out of them;
    * `Follows.walk_ok`      — what a walk gives is the tree that the item stands for;
    * `Follows.walk_returns` — and it gives something exactly when that tree is let through.
-/
import CekatEvents.Graph.Unfold

namespace CekatEvents.Graph

variable {α ι σ φ ω τ : Type}

/-- What the graph makes of an item that stands for a tree: a leaf, or a node whose entries stand for the trees
    inside. -/
def Follows.Step (T : Traversal α ι σ φ ω) (M : α → τ → Prop) (A : ω → τ → Prop) (ok : τ → Prop)
    (height : τ → Nat) (x : α) (v : τ) : Prop :=
  (∃ result, T.shape x = .leaf result ∧ (∀ w, result = .ok w → A w v ∧ ok v) ∧ (ok v → ∃ w, result = .ok w)) ∨
    ∃ ident entries build vs, T.shape x = .node ident none entries build ∧
      List.Forall₂ (fun e v => M e.item v) entries vs ∧ (∀ u ∈ vs, height u < height v) ∧
      (∀ ws, List.Forall₂ A ws vs → A (build ws) v) ∧
      (ok v ↔ (∀ e ∈ entries, e.Clean) ∧ ∀ u ∈ vs, ok u)

/-- **The relation follows the graph.** -/
def Follows (T : Traversal α ι σ φ ω) (M : α → τ → Prop) (A : ω → τ → Prop) (ok : τ → Prop)
    (height : τ → Nat) : Prop := ∀ x v, M x v → Follows.Step T M A ok height x v

section Follow

variable {T : Traversal α ι σ φ ω} {M : α → τ → Prop} {A : ω → τ → Prop} {ok : τ → Prop}
  {height : τ → Nat}

/-- **What is let through unfolds**, to a tree that is the one that is meant. -/
theorem Follows.unfolds (h : Follows T M A ok height) {x : α} {v : τ} (hx : M x v) (hv : ok v) :
    ∃ w, Unfolds T (height v + 1) x w ∧ A w v := by
  induction hk : height v using Nat.strong_induction_on generalizing x v with
  | _ k ih =>
      rcases h x _ hx with ⟨result, hshape, hsame, hok⟩ | ⟨ident, entries, build, vs, hshape, hvs, hlt, hbuild, hiff⟩
      · obtain ⟨w, rfl⟩ := hok hv
        exact ⟨w, .inl hshape, (hsame w rfl).1⟩
      · obtain ⟨hclean, hall⟩ := hiff.mp hv
        -- the entries one by one, each within the levels that are left
        have hws : ∃ ws, List.Forall₂ (fun e w => Unfolds T k e.item w) entries ws ∧ List.Forall₂ A ws vs := by
          clear hshape hbuild hiff hclean
          induction hvs with
          | nil => exact ⟨[], .nil, .nil⟩
          | @cons e u es us heu _ ihs =>
              have hless : height u < k := hk ▸ hlt u List.mem_cons_self
              obtain ⟨w, hw, hAw⟩ := ih (height u) hless heu (hall u List.mem_cons_self) rfl
              obtain ⟨ws, hws, hAws⟩ := ihs (fun u' hu' => hlt u' (List.mem_cons_of_mem u hu'))
                fun u' hu' => hall u' (List.mem_cons_of_mem u hu')
              exact ⟨w :: ws, .cons (hw.mono hless) hws, .cons hAw hAws⟩
        obtain ⟨ws, hws, hAws⟩ := hws
        exact ⟨build ws, .inr ⟨ident, entries, build, ws, hshape, hclean, hws, rfl⟩, hbuild ws hAws⟩

/-- **What an item unfolds to is the tree it stands for**, and that is let through. -/
theorem Follows.of_unfolds (h : Follows T M A ok height) {n : Nat} {x : α} {v : τ} {w : ω} (hx : M x v)
    (hw : Unfolds T n x w) : A w v ∧ ok v := by
  induction n generalizing x v w with
  | zero => exact absurd hw id
  | succ n ih =>
      rcases h x _ hx with ⟨result, hshape, hsame, -⟩ | ⟨ident, entries, build, vs, hshape, hvs, -, hbuild, hiff⟩
      · rcases hw with hleaf | ⟨_, _, _, _, hnode, -⟩
        · rw [hshape] at hleaf
          exact hsame w (Shape.leaf.inj hleaf)
        · rw [hshape] at hnode
          cases hnode
      · rcases hw with hleaf | ⟨_, _, _, ws, hnode, hclean, hws, rfl⟩
        · rw [hshape] at hleaf
          cases hleaf
        · rw [hshape] at hnode
          cases hnode
          have hall : List.Forall₂ A ws vs ∧ ∀ u ∈ vs, ok u := by
            clear hshape hbuild hiff hclean
            induction hws generalizing vs with
            | nil =>
                cases hvs
                exact ⟨.nil, fun u hu => absurd hu List.not_mem_nil⟩
            | cons hew _ ihs =>
                cases hvs with
                | cons heu hus =>
                    obtain ⟨hA, hok⟩ := ih heu hew
                    obtain ⟨hAs, hoks⟩ := ihs _ hus
                    exact ⟨.cons hA hAs, List.forall_mem_cons.mpr ⟨hok, hoks⟩⟩
          exact ⟨hbuild ws hall.1, hiff.mpr ⟨hclean, hall.2⟩⟩

/-- **Whatever is reached stands for a tree as well**, which is smaller by the steps to it. -/
theorem Follows.reaches (h : Follows T M A ok height) {ancestors ancestors' : List ι} {d : Nat} {x y : α} {v : τ}
    (hx : M x v) (hy : Reaches T ancestors x ancestors' d y) : ∃ u, M y u ∧ height u + d ≤ height v := by
  induction hy with
  | start => exact ⟨v, hx, Nat.le_refl _⟩
  | child _ hshape he ih =>
      obtain ⟨u, hu, hle⟩ := ih
      rcases h _ u hu with ⟨result, hleaf, -⟩ | ⟨_, entries, _, vs, hnode, hvs, hlt, -⟩
      · rw [hshape] at hleaf
        cases hleaf
      · rw [hshape] at hnode
        cases hnode
        -- the tree at the place of the entry
        obtain ⟨i, hi, rfl⟩ := List.mem_iff_getElem.mp he
        have hi' : i < vs.length := hvs.length_eq ▸ hi
        have hless := hlt _ (List.getElem_mem hi')
        refine ⟨vs[i], hvs.get hi hi', ?_⟩
        omega

/-- **A walk with levels for the tree does not run out of them**, whether the tree is let through or not. -/
theorem Follows.not_tooDeep (h : Follows T M A ok height) (hT : OwnFaults T) {n : Nat}
    {ancestors : List ι} {path p : List σ} {x : α} {v : τ} (hx : M x v) (hn : height v < n) :
    ¬ First T n ancestors path x (p, T.tooDeep) := by
  intro hfirst
  obtain ⟨ancestors', y, hreach⟩ := hT.reaches hfirst
  obtain ⟨u, -, hle⟩ := h.reaches hx hreach
  omega

variable [DecidableEq ι]

/-- **What a walk gives is the tree that the item stands for.** -/
theorem Follows.walk_ok (h : Follows T M A ok height) {n : Nat} {ancestors : List ι} {path : List σ}
    {x : α} {v : τ} {w : ω} (hx : M x v) (hw : walk T n ancestors path x = .ok w) : A w v ∧ ok v :=
  h.of_unfolds hx (unfolds_of_walk hw)

/-- **A walk with levels enough gives something exactly when the tree is let through.** -/
theorem Follows.walk_returns (h : Follows T M A ok height) (hT : Identified T) {n : Nat} {path : List σ}
    {x : α} {v : τ} (hx : M x v) (hn : height v < n) :
    (∃ w, walk T n [] path x = .ok w) ↔ ok v := by
  constructor
  · intro hw
    obtain ⟨w, hw⟩ := hw
    exact (h.walk_ok hx hw).2
  · intro hv
    obtain ⟨w, hw, -⟩ := h.unfolds hx hv
    exact ⟨w, walk_of_unfolds hT hn hw⟩

end Follow

end CekatEvents.Graph
