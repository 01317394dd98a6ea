/-
  CekatEvents.Graph.Walk — copying an object graph into a tree, with a set of ancestors.

  A `Traversal` tells what stands at an item: a leaf, or a node with entries, each with what is checked
  before and after its item is visited.  A node may have an identity; one that stands among its own
  ancestors is a cycle.  There are two ways to go about it:

    * `visit` — one set of ancestors for the whole walk, an identity put in on the way down and taken
                out on the way up;
    * `walk`  — the ancestors handed down by value.

  They agree (`visit_eq`): the set is restored, so an item that is shared and on no cycle is never
  mistaken for one.  What a walk does is then told without it:

    * `walk_ok_iff`    — it succeeds exactly when nothing it reaches is faulty or too deep;
    * `walk_error_iff` — it fails with the first fault in the order of the entries;
    * `walk_copies`    — what it returns is the copy of the item, entry by entry.
-/
import Mathlib.Data.List.Basic
import Mathlib.Data.List.Forall2

namespace CekatEvents.Graph

/-! ## §1. Traversals. -/

/-- An entry of a node: the step that leads to its item, and what is wrong with the entry before and
    after the item is visited. -/
structure Entry (α σ φ : Type) where
  step : σ
  before : Option φ
  item : α
  after : Option φ

/-- What stands at an item. -/
inductive Shape (α ι σ φ ω : Type) where
  | leaf (result : Except φ ω)
  | node (ident : Option ι) (opening : Option φ) (entries : List (Entry α σ φ))
      (build : List ω → ω)

/-- A graph of items, and the two faults of the walk itself. -/
structure Traversal (α ι σ φ ω : Type) where
  shape : α → Shape α ι σ φ ω
  tooDeep : φ
  cyclic : φ

variable {α ι σ φ ω : Type} [DecidableEq ι]

/-- The places of a list do not matter to what is the same at every place. -/
theorem map_mapIdx {β γ δ : Type} {f : Nat → β → γ} {g : γ → δ} {h : β → δ}
    (hfg : ∀ n b, g (f n b) = h b) (bs : List β) : (bs.mapIdx f).map g = bs.map h := by
  induction bs generalizing f with
  | nil => rfl
  | cons b bs ih =>
      rw [List.mapIdx_cons, List.map_cons, List.map_cons, hfg, ih]
      intro n b
      exact hfg (n + 1) b

/-- A fault and the path to the item it was found at. -/
abbrev Located (σ φ : Type) := List σ × φ

/-- The identity stands among the ancestors. -/
def recurs (ident : Option ι) (ancestors : List ι) : Bool :=
  ident.any fun i => decide (i ∈ ancestors)

/-- Take an identity out. -/
def leave (ident : Option ι) (ancestors : List ι) : List ι :=
  ancestors.filter fun j => decide (ident ≠ some j)

section Visit

variable (T : Traversal α ι σ φ ω)

/-- Visit entries one after another, the ancestors threaded through. -/
def visitEntries (visitItem : List ι → List σ → α → Except (Located σ φ) (ω × List ι))
    (path : List σ) : List ι → List (Entry α σ φ) → Except (Located σ φ) (List ω × List ι)
  | ancestors, [] => .ok ([], ancestors)
  | ancestors, e :: es =>
      match e.before with
      | some f => .error (path, f)
      | none =>
          match visitItem ancestors (path ++ [e.step]) e.item with
          | .error fault => .error fault
          | .ok (w, ancestors) =>
              match e.after with
              | some f => .error (path, f)
              | none =>
                  match visitEntries visitItem path ancestors es with
                  | .error fault => .error fault
                  | .ok (ws, ancestors) => .ok (w :: ws, ancestors)

/-- Visit an item with so many levels left, the ancestors threaded through. -/
def visit : Nat → List ι → List σ → α → Except (Located σ φ) (ω × List ι)
  | 0, _, path, _ => .error (path, T.tooDeep)
  | n + 1, ancestors, path, x =>
      match T.shape x with
      | .leaf (.error f) => .error (path, f)
      | .leaf (.ok w) => .ok (w, ancestors)
      | .node ident opening entries build =>
          if recurs ident ancestors then .error (path, T.cyclic)
          else
            match opening with
            | some f => .error (path, f)
            | none =>
                match visitEntries (visit n) path (ident.toList ++ ancestors) entries with
                | .error fault => .error fault
                | .ok (ws, ancestors) => .ok (build ws, leave ident ancestors)

/-- Walk entries one after another, under the same ancestors. -/
def walkEntries (walkItem : List σ → α → Except (Located σ φ) ω) (path : List σ) :
    List (Entry α σ φ) → Except (Located σ φ) (List ω)
  | [] => .ok []
  | e :: es =>
      match e.before with
      | some f => .error (path, f)
      | none =>
          match walkItem (path ++ [e.step]) e.item with
          | .error fault => .error fault
          | .ok w =>
              match e.after with
              | some f => .error (path, f)
              | none =>
                  match walkEntries walkItem path es with
                  | .error fault => .error fault
                  | .ok ws => .ok (w :: ws)

/-- Walk an item with so many levels left, the ancestors handed down. -/
def walk : Nat → List ι → List σ → α → Except (Located σ φ) ω
  | 0, _, path, _ => .error (path, T.tooDeep)
  | n + 1, ancestors, path, x =>
      match T.shape x with
      | .leaf (.error f) => .error (path, f)
      | .leaf (.ok w) => .ok w
      | .node ident opening entries build =>
          if recurs ident ancestors then .error (path, T.cyclic)
          else
            match opening with
            | some f => .error (path, f)
            | none =>
                match walkEntries (walk n (ident.toList ++ ancestors)) path entries with
                | .error fault => .error fault
                | .ok ws => .ok (build ws)

end Visit

/-! ## §2. The ancestors are restored. -/

theorem leave_enter {ident : Option ι} {ancestors : List ι} (h : recurs ident ancestors = false) :
    leave ident (ident.toList ++ ancestors) = ancestors := by
  unfold leave
  cases ident with
  | none => simp
  | some i =>
      have hi : i ∉ ancestors := by simpa [recurs] using h
      rw [Option.toList_some, List.singleton_append, List.filter_cons_of_neg (by simp)]
      apply List.filter_eq_self.mpr
      intro j hj
      apply decide_eq_true
      intro heq
      rw [Option.some.injEq] at heq
      exact hi (heq ▸ hj)

omit [DecidableEq ι] in
theorem visitEntries_eq {visitItem : List ι → List σ → α → Except (Located σ φ) (ω × List ι)}
    {walkItem : List σ → α → Except (Located σ φ) ω} {ancestors : List ι}
    (h : ∀ path x, visitItem ancestors path x = (walkItem path x).map fun w => (w, ancestors))
    (path : List σ) (es : List (Entry α σ φ)) :
    visitEntries visitItem path ancestors es
      = (walkEntries walkItem path es).map fun ws => (ws, ancestors) := by
  induction es with
  | nil => rfl
  | cons e es ih =>
      unfold visitEntries walkEntries
      cases e.before with
      | some f => rfl
      | none =>
          simp only [h]
          cases walkItem (path ++ [e.step]) e.item with
          | error fault => rfl
          | ok w =>
              cases e.after with
              | some f => rfl
              | none =>
                  simp only [Except.map, ih]
                  cases walkEntries walkItem path es with
                  | error fault => rfl
                  | ok ws => rfl

/-- **The one set of ancestors serves as well as ancestors handed down**: on the way out it is what it was
    on the way in. -/
theorem visit_eq (T : Traversal α ι σ φ ω) (n : Nat) (ancestors : List ι) (path : List σ) (x : α) :
    visit T n ancestors path x = (walk T n ancestors path x).map fun w => (w, ancestors) := by
  induction n generalizing ancestors path x with
  | zero => rfl
  | succ n ih =>
      unfold visit walk
      cases T.shape x with
      | leaf result => cases result <;> rfl
      | node ident opening entries build =>
          simp only
          cases hrec : recurs ident ancestors with
          | true => rfl
          | false =>
              cases opening with
              | some f => rfl
              | none =>
                  simp only [Bool.false_eq_true, if_false,
                    visitEntries_eq (ih (ident.toList ++ ancestors)) path entries]
                  cases walkEntries (walk T n (ident.toList ++ ancestors)) path entries with
                  | error fault => rfl
                  | ok ws =>
                      simp only [Except.map]
                      rw [leave_enter hrec]

/-! ## §3. What a walk accepts. -/

section Accepts

omit [DecidableEq ι]

variable (T : Traversal α ι σ φ ω)

/-- The items reached from `x₀`, with their ancestors and the number of steps. -/
inductive Reaches (ancestors₀ : List ι) (x₀ : α) : List ι → Nat → α → Prop where
  | start : Reaches ancestors₀ x₀ ancestors₀ 0 x₀
  | child {ancestors : List ι} {d : Nat} {x : α} {ident : Option ι} {opening : Option φ}
      {entries : List (Entry α σ φ)} {build : List ω → ω} {e : Entry α σ φ} :
      Reaches ancestors₀ x₀ ancestors d x → T.shape x = .node ident opening entries build →
      e ∈ entries → Reaches ancestors₀ x₀ (ident.toList ++ ancestors) (d + 1) e.item

/-- The fault is one of the item itself, under these ancestors. -/
inductive Blames (ancestors : List ι) (x : α) : φ → Prop where
  | leaf {f : φ} : T.shape x = .leaf (.error f) → Blames ancestors x f
  | cycle {i : ι} {opening : Option φ} {entries : List (Entry α σ φ)} {build : List ω → ω} :
      T.shape x = .node (some i) opening entries build → i ∈ ancestors →
      Blames ancestors x T.cyclic
  | opening {ident : Option ι} {f : φ} {entries : List (Entry α σ φ)} {build : List ω → ω} :
      T.shape x = .node ident (some f) entries build → Blames ancestors x f
  | entry {ident : Option ι} {opening : Option φ} {entries : List (Entry α σ φ)}
      {build : List ω → ω} {e : Entry α σ φ} {f : φ} :
      T.shape x = .node ident opening entries build → e ∈ entries →
      (e.before = some f ∨ e.after = some f) → Blames ancestors x f

/-- Something is wrong with the item itself. -/
def Faulty (ancestors : List ι) (x : α) : Prop := ∃ f, Blames T ancestors x f

/-- Nothing reached in the levels that are left is faulty, and nothing lies deeper. -/
def Sound (n : Nat) (ancestors : List ι) (x : α) : Prop :=
  ∀ ancestors' d y, Reaches T ancestors x ancestors' d y → d < n ∧ ¬ Faulty T ancestors' y

variable {T}

/-- What is reached from a child is reached from its parent. -/
theorem Reaches.of_child {ancestors : List ι} {x : α} {ident : Option ι} {opening : Option φ}
    {entries : List (Entry α σ φ)} {build : List ω → ω} {e : Entry α σ φ}
    (hshape : T.shape x = .node ident opening entries build) (he : e ∈ entries)
    {ancestors' : List ι} {d : Nat} {y : α}
    (h : Reaches T (ident.toList ++ ancestors) e.item ancestors' d y) :
    Reaches T ancestors x ancestors' (d + 1) y := by
  induction h with
  | start => exact .child .start hshape he
  | child _ hs hm ih => exact .child ih hs hm

/-- What is reached is the item itself or reached from one of its children. -/
theorem Reaches.start_or_child {ancestors : List ι} {x : α} {ancestors' : List ι} {d : Nat} {y : α}
    (h : Reaches T ancestors x ancestors' d y) :
    (ancestors' = ancestors ∧ d = 0 ∧ y = x) ∨
      ∃ ident opening entries build e d', T.shape x = .node ident opening entries build ∧
        e ∈ entries ∧ d = d' + 1 ∧ Reaches T (ident.toList ++ ancestors) e.item ancestors' d' y := by
  induction h with
  | start => exact .inl ⟨rfl, rfl, rfl⟩
  | child _ hs hm ih =>
      rcases ih with ⟨rfl, rfl, rfl⟩ | ⟨ident, opening, entries, build, e, d', hx, he, rfl, hr⟩
      · exact .inr ⟨_, _, _, _, _, 0, hs, hm, rfl, .start⟩
      · exact .inr ⟨ident, opening, entries, build, e, d' + 1, hx, he, rfl, .child hr hs hm⟩

theorem blames_leaf_iff {ancestors : List ι} {x : α} {result : Except φ ω}
    (hshape : T.shape x = .leaf result) {f : φ} : Blames T ancestors x f ↔ result = .error f := by
  constructor
  · intro h
    cases h with
    | leaf h => exact Shape.leaf.inj (hshape.symm.trans h)
    | cycle h _ => rw [hshape] at h; cases h
    | opening h => rw [hshape] at h; cases h
    | entry h _ _ => rw [hshape] at h; cases h
  · intro h
    exact .leaf (h ▸ hshape)

theorem blames_node_iff {ancestors : List ι} {x : α} {ident : Option ι} {opening : Option φ}
    {entries : List (Entry α σ φ)} {build : List ω → ω}
    (hshape : T.shape x = .node ident opening entries build) {f : φ} :
    Blames T ancestors x f ↔
      (f = T.cyclic ∧ ∃ i ∈ ident, i ∈ ancestors) ∨ opening = some f ∨
        ∃ e ∈ entries, e.before = some f ∨ e.after = some f := by
  constructor
  · intro h
    cases h with
    | leaf h => rw [hshape] at h; cases h
    | cycle h hmem =>
        rw [hshape] at h
        cases h
        exact .inl ⟨rfl, _, rfl, hmem⟩
    | opening h =>
        rw [hshape] at h
        cases h
        exact .inr (.inl rfl)
    | entry h he hf =>
        rw [hshape] at h
        cases h
        exact .inr (.inr ⟨_, he, hf⟩)
  · intro h
    rcases h with ⟨rfl, i, hi, hmem⟩ | hopening | ⟨e, he, hf⟩
    · rw [Option.mem_def] at hi
      exact .cycle (hi ▸ hshape) hmem
    · exact .opening (hopening ▸ hshape)
    · exact .entry hshape he hf

/-- A leaf is in order when it gives a tree. -/
theorem not_faulty_leaf_iff {ancestors : List ι} {x : α} {result : Except φ ω}
    (hshape : T.shape x = .leaf result) : ¬ Faulty T ancestors x ↔ ∃ w, result = .ok w := by
  unfold Faulty
  simp only [blames_leaf_iff hshape]
  cases result with
  | ok w => simp
  | error f => simp

/-- A node is in order when it is not its own ancestor and nothing is wrong with its entries. -/
theorem not_faulty_node_iff {ancestors : List ι} {x : α} {ident : Option ι} {opening : Option φ}
    {entries : List (Entry α σ φ)} {build : List ω → ω}
    (hshape : T.shape x = .node ident opening entries build) :
    ¬ Faulty T ancestors x ↔
      (∀ i ∈ ident, i ∉ ancestors) ∧ opening = none ∧
        ∀ e ∈ entries, e.before = none ∧ e.after = none := by
  unfold Faulty
  simp only [blames_node_iff hshape]
  constructor
  · intro h
    refine ⟨?_, ?_, ?_⟩
    · intro i hi hmem
      exact h ⟨T.cyclic, .inl ⟨rfl, i, hi, hmem⟩⟩
    · rw [Option.eq_none_iff_forall_ne_some]
      intro f hf
      exact h ⟨f, .inr (.inl hf)⟩
    · intro e he
      constructor
      · rw [Option.eq_none_iff_forall_ne_some]
        intro f hf
        exact h ⟨f, .inr (.inr ⟨e, he, .inl hf⟩)⟩
      · rw [Option.eq_none_iff_forall_ne_some]
        intro f hf
        exact h ⟨f, .inr (.inr ⟨e, he, .inr hf⟩)⟩
  · intro h hfault
    obtain ⟨hident, hopening, hentries⟩ := h
    rcases hfault with ⟨f, ⟨-, i, hi, hmem⟩ | hf | ⟨e, he, hf⟩⟩
    · exact hident i hi hmem
    · rw [hopening] at hf
      cases hf
    · obtain ⟨hb, ha⟩ := hentries e he
      rw [hb, ha] at hf
      rcases hf with hf | hf
      · cases hf
      · cases hf

theorem not_sound_zero {ancestors : List ι} {x : α} : ¬ Sound T 0 ancestors x := by
  intro h
  exact absurd (h _ _ _ .start).1 (Nat.lt_irrefl 0)

theorem sound_leaf_iff {n : Nat} {ancestors : List ι} {x : α} {result : Except φ ω}
    (hshape : T.shape x = .leaf result) :
    Sound T (n + 1) ancestors x ↔ ∃ w, result = .ok w := by
  constructor
  · intro h
    exact (not_faulty_leaf_iff hshape).mp (h _ _ _ .start).2
  · intro h ancestors' d y hreach
    rcases hreach.start_or_child with ⟨rfl, rfl, rfl⟩ | ⟨_, _, _, _, _, _, hx, -⟩
    · exact ⟨Nat.succ_pos n, (not_faulty_leaf_iff hshape).mpr h⟩
    · rw [hshape] at hx
      cases hx

theorem sound_node_iff {n : Nat} {ancestors : List ι} {x : α} {ident : Option ι}
    {opening : Option φ} {entries : List (Entry α σ φ)} {build : List ω → ω}
    (hshape : T.shape x = .node ident opening entries build) :
    Sound T (n + 1) ancestors x ↔
      (∀ i ∈ ident, i ∉ ancestors) ∧ opening = none ∧
        ∀ e ∈ entries, e.before = none ∧ Sound T n (ident.toList ++ ancestors) e.item ∧
          e.after = none := by
  constructor
  · intro h
    obtain ⟨hident, hopening, hentries⟩ := (not_faulty_node_iff hshape).mp (h _ _ _ .start).2
    refine ⟨hident, hopening, ?_⟩
    intro e he
    refine ⟨(hentries e he).1, ?_, (hentries e he).2⟩
    intro ancestors' d y hreach
    obtain ⟨hd, hy⟩ := h _ _ _ (hreach.of_child hshape he)
    exact ⟨Nat.lt_of_succ_lt_succ hd, hy⟩
  · intro h ancestors' d y hreach
    obtain ⟨hident, hopening, hentries⟩ := h
    rcases hreach.start_or_child with ⟨rfl, rfl, rfl⟩ | ⟨_, _, _, _, e, d', hx, he, rfl, hr⟩
    · refine ⟨Nat.succ_pos n, (not_faulty_node_iff hshape).mpr ⟨hident, hopening, ?_⟩⟩
      intro e he
      exact ⟨(hentries e he).1, (hentries e he).2.2⟩
    · rw [hshape] at hx
      cases hx
      obtain ⟨hd, hy⟩ := (hentries e he).2.1 _ _ _ hr
      exact ⟨Nat.succ_lt_succ hd, hy⟩

end Accepts

theorem recurs_eq_false_iff {ident : Option ι} {ancestors : List ι} :
    recurs ident ancestors = false ↔ ∀ i ∈ ident, i ∉ ancestors := by
  cases ident with
  | none => simp [recurs]
  | some i => simp [recurs]

omit [DecidableEq ι] in
theorem walkEntries_ok_iff {walkItem : List σ → α → Except (Located σ φ) ω} {P : α → Prop}
    (h : ∀ path x, (∃ w, walkItem path x = .ok w) ↔ P x) (path : List σ)
    (es : List (Entry α σ φ)) :
    (∃ ws, walkEntries walkItem path es = .ok ws) ↔
      ∀ e ∈ es, e.before = none ∧ P e.item ∧ e.after = none := by
  induction es with
  | nil =>
      refine iff_of_true ⟨[], rfl⟩ ?_
      intro e he
      exact absurd he List.not_mem_nil
  | cons e es ih =>
      rw [List.forall_mem_cons, ← ih, ← h (path ++ [e.step]) e.item, walkEntries]
      cases e.before with
      | some f => simp
      | none =>
          cases walkItem (path ++ [e.step]) e.item with
          | error fault => simp
          | ok w =>
              cases e.after with
              | some f => simp
              | none =>
                  cases walkEntries walkItem path es with
                  | error fault => simp
                  | ok ws => simp

/-- **A walk succeeds exactly when nothing it reaches is faulty or too deep.** -/
theorem walk_ok_iff (T : Traversal α ι σ φ ω) (n : Nat) (ancestors : List ι) (path : List σ) (x : α) :
    (∃ w, walk T n ancestors path x = .ok w) ↔ Sound T n ancestors x := by
  induction n generalizing ancestors path x with
  | zero =>
      apply iff_of_false
      · intro h
        obtain ⟨w, hw⟩ := h
        cases hw
      · exact not_sound_zero
  | succ n ih =>
      rw [walk]
      cases hshape : T.shape x with
      | leaf result =>
          rw [sound_leaf_iff hshape]
          cases result with
          | error f => simp
          | ok w => simp
      | node ident opening entries build =>
          rw [sound_node_iff hshape, ← recurs_eq_false_iff,
            ← walkEntries_ok_iff (ih (ident.toList ++ ancestors)) path entries]
          cases hrec : recurs ident ancestors with
          | true => simp [hrec]
          | false =>
              cases opening with
              | some f => simp [hrec]
              | none =>
                  cases hes : walkEntries (walk T n (ident.toList ++ ancestors)) path entries with
                  | error fault => simp [hrec, hes]
                  | ok ws => simp [hrec, hes]

/-! ## §4. What a walk reports. -/

section Reports

omit [DecidableEq ι]

variable (T : Traversal α ι σ φ ω)

/-- The entry is in order, and so is everything reached through it. -/
def EntrySound (n : Nat) (ancestors : List ι) (e : Entry α σ φ) : Prop :=
  e.before = none ∧ Sound T n ancestors e.item ∧ e.after = none

/-- The first fault, with the path to where it is found, in the order of the entries: an entry counts
    only after all that stand before it are in order. -/
inductive First : Nat → List ι → List σ → α → Located σ φ → Prop where
  | tooDeep {ancestors : List ι} {path : List σ} {x : α} :
      First 0 ancestors path x (path, T.tooDeep)
  | leaf {n : Nat} {ancestors : List ι} {path : List σ} {x : α} {f : φ} :
      T.shape x = .leaf (.error f) → First (n + 1) ancestors path x (path, f)
  | cycle {n : Nat} {ancestors : List ι} {path : List σ} {x : α} {i : ι} {opening : Option φ}
      {entries : List (Entry α σ φ)} {build : List ω → ω} :
      T.shape x = .node (some i) opening entries build → i ∈ ancestors →
      First (n + 1) ancestors path x (path, T.cyclic)
  | opening {n : Nat} {ancestors : List ι} {path : List σ} {x : α} {ident : Option ι} {f : φ}
      {entries : List (Entry α σ φ)} {build : List ω → ω} :
      T.shape x = .node ident (some f) entries build → (∀ i ∈ ident, i ∉ ancestors) →
      First (n + 1) ancestors path x (path, f)
  | before {n : Nat} {ancestors : List ι} {path : List σ} {x : α} {ident : Option ι}
      {es es' : List (Entry α σ φ)} {e : Entry α σ φ} {f : φ} {build : List ω → ω} :
      T.shape x = .node ident none (es ++ e :: es') build → (∀ i ∈ ident, i ∉ ancestors) →
      (∀ e ∈ es, EntrySound T n (ident.toList ++ ancestors) e) → e.before = some f →
      First (n + 1) ancestors path x (path, f)
  | child {n : Nat} {ancestors : List ι} {path : List σ} {x : α} {ident : Option ι}
      {es es' : List (Entry α σ φ)} {e : Entry α σ φ} {fault : Located σ φ} {build : List ω → ω} :
      T.shape x = .node ident none (es ++ e :: es') build → (∀ i ∈ ident, i ∉ ancestors) →
      (∀ e ∈ es, EntrySound T n (ident.toList ++ ancestors) e) → e.before = none →
      First n (ident.toList ++ ancestors) (path ++ [e.step]) e.item fault →
      First (n + 1) ancestors path x fault
  | after {n : Nat} {ancestors : List ι} {path : List σ} {x : α} {ident : Option ι}
      {es es' : List (Entry α σ φ)} {e : Entry α σ φ} {f : φ} {build : List ω → ω} :
      T.shape x = .node ident none (es ++ e :: es') build → (∀ i ∈ ident, i ∉ ancestors) →
      (∀ e ∈ es, EntrySound T n (ident.toList ++ ancestors) e) → e.before = none →
      Sound T n (ident.toList ++ ancestors) e.item → e.after = some f →
      First (n + 1) ancestors path x (path, f)

/-- The first fault among entries. -/
inductive FirstEntry (n : Nat) (ancestors : List ι) (path : List σ) :
    List (Entry α σ φ) → Located σ φ → Prop where
  | before {es es' : List (Entry α σ φ)} {e : Entry α σ φ} {f : φ} :
      (∀ e ∈ es, EntrySound T n ancestors e) → e.before = some f →
      FirstEntry n ancestors path (es ++ e :: es') (path, f)
  | child {es es' : List (Entry α σ φ)} {e : Entry α σ φ} {fault : Located σ φ} :
      (∀ e ∈ es, EntrySound T n ancestors e) → e.before = none →
      First T n ancestors (path ++ [e.step]) e.item fault →
      FirstEntry n ancestors path (es ++ e :: es') fault
  | after {es es' : List (Entry α σ φ)} {e : Entry α σ φ} {f : φ} :
      (∀ e ∈ es, EntrySound T n ancestors e) → e.before = none → Sound T n ancestors e.item →
      e.after = some f → FirstEntry n ancestors path (es ++ e :: es') (path, f)

variable {T}

/-- One more entry in order in front. -/
theorem FirstEntry.cons {n : Nat} {ancestors : List ι} {path : List σ} {es : List (Entry α σ φ)}
    {fault : Located σ φ} {e : Entry α σ φ} (he : EntrySound T n ancestors e)
    (h : FirstEntry T n ancestors path es fault) :
    FirstEntry T n ancestors path (e :: es) fault := by
  cases h with
  | before hes hf => exact .before (List.forall_mem_cons.mpr ⟨he, hes⟩) hf
  | child hes hb hfirst => exact .child (List.forall_mem_cons.mpr ⟨he, hes⟩) hb hfirst
  | after hes hb hs ha => exact .after (List.forall_mem_cons.mpr ⟨he, hes⟩) hb hs ha

theorem First.of_entries {n : Nat} {ancestors : List ι} {path : List σ} {x : α} {ident : Option ι}
    {entries : List (Entry α σ φ)} {build : List ω → ω} {fault : Located σ φ}
    (hshape : T.shape x = .node ident none entries build) (hident : ∀ i ∈ ident, i ∉ ancestors)
    (h : FirstEntry T n (ident.toList ++ ancestors) path entries fault) :
    First T (n + 1) ancestors path x fault := by
  cases h with
  | before hes hf => exact .before hshape hident hes hf
  | child hes hb hfirst => exact .child hshape hident hes hb hfirst
  | after hes hb hs ha => exact .after hshape hident hes hb hs ha

theorem walkEntries_first {n : Nat} {ancestors : List ι}
    {walkItem : List σ → α → Except (Located σ φ) ω}
    (hok : ∀ path x, (∃ w, walkItem path x = .ok w) ↔ Sound T n ancestors x)
    (herror : ∀ path x fault, walkItem path x = .error fault → First T n ancestors path x fault)
    {path : List σ} {es : List (Entry α σ φ)} {fault : Located σ φ}
    (h : walkEntries walkItem path es = .error fault) : FirstEntry T n ancestors path es fault := by
  induction es with
  | nil => cases h
  | cons e es ih =>
      have hnone : ∀ e' ∈ ([] : List (Entry α σ φ)), EntrySound T n ancestors e' := by
        intro e' he'
        exact absurd he' List.not_mem_nil
      rw [walkEntries] at h
      cases hb : e.before with
      | some f =>
          simp only [hb, Except.error.injEq] at h
          rw [← h]
          show FirstEntry T n ancestors path ([] ++ e :: es) _
          exact .before hnone hb
      | none =>
          cases hw : walkItem (path ++ [e.step]) e.item with
          | error fault' =>
              simp only [hb, hw, Except.error.injEq] at h
              rw [← h]
              show FirstEntry T n ancestors path ([] ++ e :: es) _
              exact .child hnone hb (herror _ _ _ hw)
          | ok w =>
              have hsound := (hok _ _).mp ⟨w, hw⟩
              cases ha : e.after with
              | some f =>
                  simp only [hb, hw, ha, Except.error.injEq] at h
                  rw [← h]
                  show FirstEntry T n ancestors path ([] ++ e :: es) _
                  exact .after hnone hb hsound ha
              | none =>
                  cases hes : walkEntries walkItem path es with
                  | ok ws => simp [hb, hw, ha, hes] at h
                  | error fault' =>
                      simp only [hb, hw, ha, hes, Except.error.injEq] at h
                      exact (ih (hes.trans (congrArg Except.error h))).cons ⟨hb, hsound, ha⟩

end Reports

theorem first_of_walk {T : Traversal α ι σ φ ω} {n : Nat} {ancestors : List ι} {path : List σ}
    {x : α} {fault : Located σ φ} (h : walk T n ancestors path x = .error fault) :
    First T n ancestors path x fault := by
  induction n generalizing ancestors path x fault with
  | zero =>
      cases h
      exact .tooDeep
  | succ n ih =>
      rw [walk] at h
      cases hshape : T.shape x with
      | leaf result =>
          cases result with
          | ok w => simp [hshape] at h
          | error f =>
              simp only [hshape, Except.error.injEq] at h
              rw [← h]
              exact .leaf hshape
      | node ident opening entries build =>
          cases hrec : recurs ident ancestors with
          | true =>
              simp only [hshape, hrec, if_true, Except.error.injEq] at h
              rw [← h]
              cases ident with
              | none => cases hrec
              | some i => exact .cycle hshape (by simpa [recurs] using hrec)
          | false =>
              have hident := recurs_eq_false_iff.mp hrec
              cases opening with
              | some f =>
                  simp only [hshape, hrec, Bool.false_eq_true, if_false, Except.error.injEq] at h
                  rw [← h]
                  exact .opening hshape hident
              | none =>
                  cases hes : walkEntries (walk T n (ident.toList ++ ancestors)) path entries with
                  | ok ws => simp [hshape, hrec, hes] at h
                  | error fault' =>
                      simp only [hshape, hrec, hes, Bool.false_eq_true, if_false,
                        Except.error.injEq] at h
                      have hfirst := walkEntries_first (walk_ok_iff T n (ident.toList ++ ancestors))
                        (fun _ _ _ hf => ih hf) hes
                      exact h ▸ First.of_entries hshape hident hfirst

/-- Entries in order in front of a fault do not hide it. -/
theorem walkEntries_append {T : Traversal α ι σ φ ω} {n : Nat} {ancestors : List ι} {path : List σ}
    {es es' : List (Entry α σ φ)} {fault : Located σ φ}
    (hes : ∀ e ∈ es, EntrySound T n ancestors e)
    (h : walkEntries (walk T n ancestors) path es' = .error fault) :
    walkEntries (walk T n ancestors) path (es ++ es') = .error fault := by
  induction es with
  | nil => exact h
  | cons e es ih =>
      obtain ⟨⟨hb, hs, ha⟩, hes⟩ := List.forall_mem_cons.mp hes
      obtain ⟨w, hw⟩ := (walk_ok_iff T n ancestors (path ++ [e.step]) e.item).mpr hs
      rw [List.cons_append, walkEntries]
      simp only [hb, hw, ha, ih hes]

theorem walk_of_entries {T : Traversal α ι σ φ ω} {n : Nat} {ancestors : List ι} {path : List σ}
    {x : α} {ident : Option ι} {entries : List (Entry α σ φ)} {build : List ω → ω}
    {fault : Located σ φ} (hshape : T.shape x = .node ident none entries build)
    (hident : ∀ i ∈ ident, i ∉ ancestors)
    (h : walkEntries (walk T n (ident.toList ++ ancestors)) path entries = .error fault) :
    walk T (n + 1) ancestors path x = .error fault := by
  rw [walk]
  simp [hshape, recurs_eq_false_iff.mpr hident, h]

/-- **A walk fails with the first fault in the order of the entries.** -/
theorem walk_error_iff {T : Traversal α ι σ φ ω} {n : Nat} {ancestors : List ι} {path : List σ}
    {x : α} {fault : Located σ φ} :
    walk T n ancestors path x = .error fault ↔ First T n ancestors path x fault := by
  constructor
  · exact first_of_walk
  · intro h
    induction h with
    | tooDeep => rfl
    | leaf hshape =>
        rw [walk]
        simp [hshape]
    | cycle hshape hmem =>
        rw [walk]
        simp [hshape, recurs, hmem]
    | opening hshape hident =>
        rw [walk]
        simp [hshape, recurs_eq_false_iff.mpr hident]
    | before hshape hident hes hf =>
        apply walk_of_entries hshape hident
        apply walkEntries_append hes
        rw [walkEntries]
        simp only [hf]
    | child hshape hident hes hb _ ih =>
        apply walk_of_entries hshape hident
        apply walkEntries_append hes
        rw [walkEntries]
        simp only [hb, ih]
    | @after n ancestors path _ _ _ _ e _ _ hshape hident hes hb hs ha =>
        obtain ⟨w, hw⟩ := (walk_ok_iff _ _ _ (path ++ [e.step]) _).mpr hs
        apply walk_of_entries hshape hident
        apply walkEntries_append hes
        rw [walkEntries]
        simp only [hb, hw, ha]

omit [DecidableEq ι] in
/-- **The first fault is one of something reached**, or what is reached is too deep. -/
theorem First.blames {T : Traversal α ι σ φ ω} {n : Nat} {ancestors : List ι} {path : List σ} {x : α}
    {fault : Located σ φ} (h : First T n ancestors path x fault) :
    ∃ ancestors' d y, Reaches T ancestors x ancestors' d y ∧
      ((d = n ∧ fault.2 = T.tooDeep) ∨ (d < n ∧ Blames T ancestors' y fault.2)) := by
  induction h with
  | tooDeep => exact ⟨_, _, _, .start, .inl ⟨rfl, rfl⟩⟩
  | leaf hshape => exact ⟨_, _, _, .start, .inr ⟨Nat.succ_pos _, .leaf hshape⟩⟩
  | cycle hshape hmem => exact ⟨_, _, _, .start, .inr ⟨Nat.succ_pos _, .cycle hshape hmem⟩⟩
  | opening hshape _ => exact ⟨_, _, _, .start, .inr ⟨Nat.succ_pos _, .opening hshape⟩⟩
  | before hshape _ _ hf =>
      exact ⟨_, _, _, .start, .inr ⟨Nat.succ_pos _, .entry hshape (by simp) (.inl hf)⟩⟩
  | after hshape _ _ _ _ hf =>
      exact ⟨_, _, _, .start, .inr ⟨Nat.succ_pos _, .entry hshape (by simp) (.inr hf)⟩⟩
  | @child _ _ _ _ _ _ _ e _ _ hshape _ _ _ _ ih =>
      obtain ⟨ancestors', d, y, hreach, hy⟩ := ih
      refine ⟨ancestors', d + 1, y, hreach.of_child hshape (e := e) (by simp), ?_⟩
      rcases hy with ⟨rfl, hf⟩ | ⟨hd, hb⟩
      · exact .inl ⟨rfl, hf⟩
      · exact .inr ⟨Nat.succ_lt_succ hd, hb⟩

/-! ## §5. What a walk returns. -/

section Copies

omit [DecidableEq ι]

variable (T : Traversal α ι σ φ ω)

mutual
/-- The tree is the copy of the item. -/
inductive Copies : α → ω → Prop where
  | leaf {x : α} {w : ω} : T.shape x = .leaf (.ok w) → Copies x w
  | node {x : α} {ident : Option ι} {opening : Option φ} {entries : List (Entry α σ φ)}
      {build : List ω → ω} {ws : List ω} :
      T.shape x = .node ident opening entries build → CopiesEntries entries ws → Copies x (build ws)
/-- The trees are the copies of the entries. -/
inductive CopiesEntries : List (Entry α σ φ) → List ω → Prop where
  | nil : CopiesEntries [] []
  | cons {e : Entry α σ φ} {es : List (Entry α σ φ)} {w : ω} {ws : List ω} :
      Copies e.item w → CopiesEntries es ws → CopiesEntries (e :: es) (w :: ws)
end

variable {T}

/-- Induction on a copy: a node may use the claim for its entries, one by one. -/
theorem Copies.induction {P : α → ω → Prop}
    (leaf : ∀ {x w}, T.shape x = .leaf (.ok w) → P x w)
    (node : ∀ {x ident opening entries build ws}, T.shape x = .node ident opening entries build →
      List.Forall₂ (fun e w => P e.item w) entries ws → P x (build ws))
    {x : α} {w : ω} (h : Copies T x w) : P x w := by
  refine @Copies.rec α ι σ φ ω T (fun x w _ => P x w)
    (fun es ws _ => List.Forall₂ (fun e w => P e.item w) es ws) ?_ ?_ ?_ ?_ x w h
  · intro x w hshape
    exact leaf hshape
  · intro x ident opening entries build ws hshape _ hes
    exact node hshape hes
  · exact .nil
  · intro e es w ws _ _ hw hes
    exact .cons hw hes

end Copies

omit [DecidableEq ι] in
theorem walkEntries_copies {T : Traversal α ι σ φ ω}
    {walkItem : List σ → α → Except (Located σ φ) ω}
    (h : ∀ path x w, walkItem path x = .ok w → Copies T x w) {path : List σ}
    {es : List (Entry α σ φ)} {ws : List ω} (hes : walkEntries walkItem path es = .ok ws) :
    CopiesEntries T es ws := by
  induction es generalizing ws with
  | nil =>
      cases hes
      exact .nil
  | cons e es ih =>
      rw [walkEntries] at hes
      cases hb : e.before with
      | some f => simp [hb] at hes
      | none =>
          cases hw : walkItem (path ++ [e.step]) e.item with
          | error fault => simp [hb, hw] at hes
          | ok w =>
              cases ha : e.after with
              | some f => simp [hb, hw, ha] at hes
              | none =>
                  cases hrest : walkEntries walkItem path es with
                  | error fault => simp [hb, hw, ha, hrest] at hes
                  | ok ws' =>
                      simp only [hb, hw, ha, hrest, Except.ok.injEq] at hes
                      rw [← hes]
                      exact .cons (h _ _ _ hw) (ih hrest)

/-- **A walk returns the copy of its item.** -/
theorem walk_copies {T : Traversal α ι σ φ ω} {n : Nat} {ancestors : List ι} {path : List σ} {x : α}
    {w : ω} (h : walk T n ancestors path x = .ok w) : Copies T x w := by
  induction n generalizing ancestors path x w with
  | zero => cases h
  | succ n ih =>
      rw [walk] at h
      cases hshape : T.shape x with
      | leaf result =>
          cases result with
          | error f => simp [hshape] at h
          | ok w' =>
              simp only [hshape, Except.ok.injEq] at h
              rw [← h]
              exact .leaf hshape
      | node ident opening entries build =>
          cases hrec : recurs ident ancestors with
          | true => simp [hshape, hrec] at h
          | false =>
              cases opening with
              | some f => simp [hshape, hrec] at h
              | none =>
                  cases hes : walkEntries (walk T n (ident.toList ++ ancestors)) path entries with
                  | error fault => simp [hshape, hrec, hes] at h
                  | ok ws =>
                      simp only [hshape, hrec, hes, Bool.false_eq_true, if_false,
                        Except.ok.injEq] at h
                      rw [← h]
                      exact .node hshape (walkEntries_copies (fun _ _ _ hw => ih hw) hes)

/-! ## §6. A copy and what is reached. -/

theorem mem_left_of_forall₂ {β γ : Type} {R : β → γ → Prop} {bs : List β} {cs : List γ}
    (h : List.Forall₂ R bs cs) {b : β} (hb : b ∈ bs) : ∃ c ∈ cs, R b c := by
  induction h with
  | nil => exact absurd hb List.not_mem_nil
  | cons hr _ ih =>
      rcases List.mem_cons.mp hb with rfl | hb
      · exact ⟨_, List.mem_cons_self, hr⟩
      · obtain ⟨c, hc, hrc⟩ := ih hb
        exact ⟨c, List.mem_cons_of_mem _ hc, hrc⟩

/-- What is related to two lists in a row is two lists in a row. -/
theorem append_of_forall₂ {β γ : Type} {R : β → γ → Prop} {as bs : List β} {cs : List γ}
    (h : List.Forall₂ R (as ++ bs) cs) :
    ∃ cs₁ cs₂, cs = cs₁ ++ cs₂ ∧ List.Forall₂ R as cs₁ ∧ List.Forall₂ R bs cs₂ := by
  induction as generalizing cs with
  | nil => exact ⟨[], cs, rfl, .nil, h⟩
  | cons a as ih =>
      cases h with
      | cons ha hrest =>
          obtain ⟨cs₁, cs₂, rfl, h₁, h₂⟩ := ih hrest
          exact ⟨_ :: cs₁, cs₂, rfl, .cons ha h₁, h₂⟩

theorem mem_right_of_forall₂ {β γ : Type} {R : β → γ → Prop} {bs : List β} {cs : List γ}
    (h : List.Forall₂ R bs cs) {c : γ} (hc : c ∈ cs) : ∃ b ∈ bs, R b c :=
  mem_left_of_forall₂ h.flip hc

/-- A condition on trees that is one on their nodes. -/
structure Local (T : Traversal α ι σ φ ω) (Q : ω → Prop) (q : α → Prop) : Prop where
  leaf : ∀ {x w}, T.shape x = .leaf (.ok w) → (Q w ↔ q x)
  node : ∀ {x ident opening entries build} {ws : List ω},
    T.shape x = .node ident opening entries build → ws.length = entries.length →
    (Q (build ws) ↔ q x ∧ ∀ w ∈ ws, Q w)

omit [DecidableEq ι] in
/-- **What holds of all nodes of a copy holds of everything reached.** -/
theorem Copies.forall_iff {T : Traversal α ι σ φ ω} {Q : ω → Prop} {q : α → Prop}
    (hq : Local T Q q) {x : α} {w : ω} (h : Copies T x w) (ancestors : List ι) :
    Q w ↔ ∀ ancestors' d y, Reaches T ancestors x ancestors' d y → q y := by
  revert ancestors
  apply Copies.induction (P := fun x w => ∀ ancestors, Q w ↔
    ∀ ancestors' d y, Reaches T ancestors x ancestors' d y → q y) _ _ h
  · intro x w hshape ancestors
    rw [hq.leaf hshape]
    constructor
    · intro h ancestors' d y hreach
      rcases hreach.start_or_child with ⟨-, -, rfl⟩ | ⟨_, _, _, _, _, _, hx, -⟩
      · exact h
      · rw [hshape] at hx
        cases hx
    · intro h
      exact h _ _ _ .start
  · intro x ident opening entries build ws hshape hes ancestors
    rw [hq.node hshape hes.length_eq.symm]
    constructor
    · intro h ancestors' d y hreach
      rcases hreach.start_or_child with ⟨-, -, rfl⟩ | ⟨_, _, _, _, e, d', hx, he, rfl, hr⟩
      · exact h.1
      · rw [hshape] at hx
        cases hx
        obtain ⟨w, hw, hP⟩ := mem_left_of_forall₂ hes he
        exact (hP _).mp (h.2 w hw) _ _ _ hr
    · intro h
      refine ⟨h _ _ _ .start, ?_⟩
      intro w hw
      obtain ⟨e, he, hP⟩ := mem_right_of_forall₂ hes hw
      apply (hP (ident.toList ++ ancestors)).mpr
      intro ancestors' d y hreach
      exact h _ _ _ (hreach.of_child hshape he)

/-- A measure of trees that counts the nodes inside each other. -/
structure Counts (T : Traversal α ι σ φ ω) (height : ω → Nat) : Prop where
  leaf : ∀ {x w}, T.shape x = .leaf (.ok w) → height w = 0
  node : ∀ {x ident opening entries build} {ws : List ω} {k : Nat},
    T.shape x = .node ident opening entries build → ws.length = entries.length →
    (height (build ws) ≤ k ↔ ∃ k', k = k' + 1 ∧ ∀ w ∈ ws, height w ≤ k')

/-- The item is a node. -/
def Traversal.IsNode (T : Traversal α ι σ φ ω) (x : α) : Prop :=
  ∃ ident opening entries build, T.shape x = .node ident opening entries build

omit [DecidableEq ι] in
/-- **A copy has as many levels as there are steps to the deepest node.** -/
theorem Copies.height_le {T : Traversal α ι σ φ ω} {height : ω → Nat} (hc : Counts T height) {x : α}
    {w : ω} (h : Copies T x w) (ancestors : List ι) (k : Nat) :
    height w ≤ k ↔ ∀ ancestors' d y, Reaches T ancestors x ancestors' d y → T.IsNode y → d < k := by
  revert ancestors k
  apply Copies.induction (P := fun x w => ∀ ancestors k, height w ≤ k ↔
    ∀ ancestors' d y, Reaches T ancestors x ancestors' d y → T.IsNode y → d < k) _ _ h
  · intro x w hshape ancestors k
    rw [hc.leaf hshape]
    refine iff_of_true (Nat.zero_le k) ?_
    intro ancestors' d y hreach hnode
    obtain ⟨ident, opening, entries, build, hy⟩ := hnode
    rcases hreach.start_or_child with ⟨-, -, rfl⟩ | ⟨_, _, _, _, _, _, hx, -⟩
    · rw [hshape] at hy
      cases hy
    · rw [hshape] at hx
      cases hx
  · intro x ident opening entries build ws hshape hes ancestors k
    rw [hc.node hshape hes.length_eq.symm]
    constructor
    · intro h ancestors' d y hreach hnode
      obtain ⟨k, rfl, hws⟩ := h
      rcases hreach.start_or_child with ⟨-, rfl, -⟩ | ⟨_, _, _, _, e, d', hx, he, rfl, hr⟩
      · exact Nat.succ_pos k
      · rw [hshape] at hx
        cases hx
        obtain ⟨w, hw, hP⟩ := mem_left_of_forall₂ hes he
        exact Nat.succ_lt_succ ((hP _ k).mp (hws w hw) _ _ _ hr hnode)
    · intro h
      obtain ⟨k, rfl⟩ : ∃ k', k = k' + 1 := by
        have hpos := h _ _ _ .start ⟨_, _, _, _, hshape⟩
        exact ⟨k - 1, by omega⟩
      refine ⟨k, rfl, ?_⟩
      intro w hw
      obtain ⟨e, he, hP⟩ := mem_right_of_forall₂ hes hw
      apply (hP (ident.toList ++ ancestors) k).mpr
      intro ancestors' d y hreach hnode
      exact Nat.lt_of_succ_lt_succ (h _ _ _ (hreach.of_child hshape he) hnode)

end CekatEvents.Graph
