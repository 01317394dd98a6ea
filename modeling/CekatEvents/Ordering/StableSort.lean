/-
  CekatEvents.Ordering.StableSort — a stable sort of the different elements of a list.

  A comparison may call different elements equal.  A stable sort then keeps them in the order in which it
  found them, so what it makes of a list depends on that order, and on nothing else.

    * `TotalPreorder`              — a comparison in the sense of a sort;
    * `distinct`                   — the elements of a list in the order of their first occurrence;
    * `mergeSort_distinct_eq_iff`  — when two lists of the same elements are sorted into the same list.
-/
import Mathlib.Data.List.Basic
import Mathlib.Data.List.Induction
import Mathlib.Data.List.Perm.Lattice
import Mathlib.Data.List.Nodup
import Mathlib.Order.Lattice

namespace CekatEvents.Ordering

variable {α β : Type}

/-! ## §1. Comparisons. -/

/-- **The comparison orders its arguments**, up to those that it calls equal. -/
structure TotalPreorder (compare : α → α → Int) : Prop where
  flip : ∀ a b, compare a b ≤ 0 ↔ 0 ≤ compare b a
  trans : ∀ a b c, compare a b ≤ 0 → compare b c ≤ 0 → compare a c ≤ 0

/-- The first comparison, and where it does not decide the second one. -/
def thenCompare (first second : α → α → Int) (a b : α) : Int :=
  if first a b ≠ 0 then first a b else second a b

section Comparisons

variable {compare first second : α → α → Int}

theorem TotalPreorder.eq_comm (h : TotalPreorder compare) (a b : α) :
    compare a b = 0 ↔ compare b a = 0 := by
  have hab := h.flip a b
  have hba := h.flip b a
  omega

theorem TotalPreorder.on (h : TotalPreorder compare) (f : β → α) :
    TotalPreorder fun a b => compare (f a) (f b) :=
  ⟨fun a b => h.flip (f a) (f b), fun a b c => h.trans (f a) (f b) (f c)⟩

theorem thenCompare_nonpos_iff {a b : α} :
    thenCompare first second a b ≤ 0 ↔ first a b < 0 ∨ (first a b = 0 ∧ second a b ≤ 0) := by
  unfold thenCompare
  split_ifs with h
  · omega
  · omega

theorem thenCompare_nonneg_iff {a b : α} :
    0 ≤ thenCompare first second a b ↔ 0 < first a b ∨ (first a b = 0 ∧ 0 ≤ second a b) := by
  unfold thenCompare
  split_ifs with h
  · omega
  · omega

/-- Two comparisons one after another. -/
theorem TotalPreorder.thenCompare (hfirst : TotalPreorder first) (hsecond : TotalPreorder second) :
    TotalPreorder (thenCompare first second) where
  flip a b := by
    rw [thenCompare_nonpos_iff, thenCompare_nonneg_iff]
    have hab := hfirst.flip a b
    have hba := hfirst.flip b a
    have hsnd := hsecond.flip a b
    omega
  trans a b c := by
    rw [thenCompare_nonpos_iff, thenCompare_nonpos_iff, thenCompare_nonpos_iff]
    intro hab hbc
    have hac := hfirst.trans a b c (by omega) (by omega)
    have hcb := hfirst.flip c b
    have hba := hfirst.flip b a
    -- were `a` and `c` equal, so would be what lies between them
    have hback := hfirst.trans c a b
    have hforth := hfirst.trans b c a
    have hca := hfirst.flip c a
    have hsnd := hsecond.trans a b c
    omega

end Comparisons

/-- The comparison of a linear order. -/
def orderCompare [LinearOrder α] (a b : α) : Int := if a < b then -1 else if b < a then 1 else 0

theorem orderCompare_self [LinearOrder α] (a : α) : orderCompare a a = 0 := by
  unfold orderCompare
  rw [if_neg (lt_irrefl a), if_neg (lt_irrefl a)]

theorem orderCompare_nonpos_iff [LinearOrder α] {a b : α} : orderCompare a b ≤ 0 ↔ a ≤ b := by
  unfold orderCompare
  split_ifs with hlt hgt
  · simp [le_of_lt hlt]
  · simp [hgt]
  · simp [not_lt.mp hgt]

theorem totalPreorder_orderCompare [LinearOrder α] : TotalPreorder (orderCompare (α := α)) where
  flip a b := by
    have hneg : ∀ a b : α, 0 ≤ orderCompare b a ↔ orderCompare a b ≤ 0 := by
      intro a b
      rw [orderCompare_nonpos_iff]
      unfold orderCompare
      split_ifs with hlt hgt
      · simp [hlt]
      · simp [le_of_lt hgt]
      · simp [not_lt.mp hlt]
    exact (hneg a b).symm
  trans a b c := by
    simp only [orderCompare_nonpos_iff]
    exact le_trans

/-! ## §2. Different elements. -/

/-- The elements of a list, each where it occurs first. -/
def distinct [DecidableEq α] (xs : List α) : List α :=
  xs.foldl (fun seen x => if x ∈ seen then seen else seen ++ [x]) []

section Distinct

variable [DecidableEq α]

theorem distinct_concat (xs : List α) (x : α) :
    distinct (xs ++ [x]) = if x ∈ distinct xs then distinct xs else distinct xs ++ [x] := by
  unfold distinct
  rw [List.foldl_append]
  rfl

theorem mem_distinct {xs : List α} {a : α} : a ∈ distinct xs ↔ a ∈ xs := by
  induction xs using List.reverseRecOn with
  | nil => exact Iff.rfl
  | append_singleton xs x ih =>
      rw [distinct_concat, List.mem_append, List.mem_singleton, ← ih]
      split_ifs with hx
      · exact ⟨.inl, fun h => h.elim id fun heq => heq ▸ hx⟩
      · rw [List.mem_append, List.mem_singleton]

/-- The elements come in the order of their first occurrence. -/
theorem pairwise_distinct (xs : List α) :
    (distinct xs).Pairwise fun a b => xs.idxOf a < xs.idxOf b := by
  induction xs using List.reverseRecOn with
  | nil => exact .nil
  | append_singleton xs x ih =>
      have hold : (distinct xs).Pairwise fun a b => (xs ++ [x]).idxOf a < (xs ++ [x]).idxOf b := by
        apply ih.imp_of_mem
        intro a b ha hb hlt
        rw [List.idxOf_append_of_mem (mem_distinct.mp ha), List.idxOf_append_of_mem (mem_distinct.mp hb)]
        exact hlt
      rw [distinct_concat]
      split_ifs with hx
      · exact hold
      · refine List.pairwise_append.mpr ⟨hold, List.pairwise_singleton _ _, ?_⟩
        intro a ha b hb
        rw [List.mem_singleton] at hb
        subst hb
        have ha' := mem_distinct.mp ha
        rw [List.idxOf_append_of_mem ha', List.idxOf_append_of_notMem (fun h => hx (mem_distinct.mpr h))]
        exact Nat.lt_of_lt_of_le (List.idxOf_lt_length_iff.mpr ha') (Nat.le_add_right _ _)

theorem nodup_distinct (xs : List α) : (distinct xs).Nodup :=
  (pairwise_distinct xs).imp fun hlt heq => absurd (heq ▸ hlt) (Nat.lt_irrefl _)

omit [DecidableEq α] in
/-- Of two elements one comes first. -/
theorem pair_sublist_or {xs : List α} {a b : α} (ha : a ∈ xs) (hb : b ∈ xs) (hne : a ≠ b) :
    [a, b].Sublist xs ∨ [b, a].Sublist xs := by
  induction xs with
  | nil => cases ha
  | cons x xs ih =>
      rcases List.mem_cons.mp ha with rfl | ha'
      · rcases List.mem_cons.mp hb with rfl | hb'
        · exact absurd rfl hne
        · exact .inl ((List.singleton_sublist.mpr hb').cons_cons _)
      · rcases List.mem_cons.mp hb with rfl | hb'
        · exact .inr ((List.singleton_sublist.mpr ha').cons_cons _)
        · exact (ih ha' hb').imp (fun h => h.cons x) fun h => h.cons x

/-- The pairs of a list without repetitions have one order. -/
theorem pair_sublist_asymm {xs : List α} (h : xs.Nodup) {a b : α} (hab : [a, b].Sublist xs) :
    ¬ [b, a].Sublist xs := by
  have hidx : xs.Pairwise fun a b => xs.idxOf a < xs.idxOf b := by
    rw [List.pairwise_iff_getElem]
    intro i j hi hj hij
    rw [h.idxOf_getElem i hi, h.idxOf_getElem j hj]
    exact hij
  rw [List.pairwise_iff_forall_sublist] at hidx
  intro hba
  exact Nat.lt_asymm (hidx hab) (hidx hba)

end Distinct

/-! ## §3. Sorting. -/

section Sorting

variable [DecidableEq α] {compare : α → α → Int}

/-- What the sort puts first: what is less, and of equals what was found first. -/
def Before (compare : α → α → Int) (xs : List α) (a b : α) : Prop :=
  compare a b < 0 ∨ (compare a b = 0 ∧ xs.idxOf a < xs.idxOf b)

/-- The different elements of a list, sorted. -/
def sortDistinct (compare : α → α → Int) (xs : List α) : List α :=
  (distinct xs).mergeSort fun a b => decide (compare a b ≤ 0)

theorem mem_sortDistinct {xs : List α} {a : α} : a ∈ sortDistinct compare xs ↔ a ∈ xs :=
  List.mem_mergeSort.trans mem_distinct

theorem nodup_sortDistinct (xs : List α) : (sortDistinct compare xs).Nodup :=
  (List.mergeSort_perm _ _).nodup_iff.mpr (nodup_distinct xs)

/-- **The sort is stable.** -/
theorem pairwise_sortDistinct (h : TotalPreorder compare) (xs : List α) :
    (sortDistinct compare xs).Pairwise (Before compare xs) := by
  have htrans : ∀ a b c : α, decide (compare a b ≤ 0) = true → decide (compare b c ≤ 0) = true →
      decide (compare a c ≤ 0) = true := by
    simp only [decide_eq_true_eq]
    exact h.trans
  have htotal : ∀ a b : α, (decide (compare a b ≤ 0) || decide (compare b a ≤ 0)) = true := by
    intro a b
    have hflip := h.flip a b
    simp only [Bool.or_eq_true, decide_eq_true_eq]
    omega
  have hsorted : (sortDistinct compare xs).Pairwise fun a b => decide (compare a b ≤ 0) = true :=
    List.pairwise_mergeSort htrans htotal (distinct xs)
  have hfound := pairwise_distinct xs
  rw [List.pairwise_iff_forall_sublist] at hsorted hfound ⊢
  intro a b hab
  have hle := hsorted hab
  rw [decide_eq_true_eq] at hle
  rcases Int.lt_or_eq_of_le hle with hlt | heq
  · exact .inl hlt
  · -- were `b` found first, it would stand first
    refine .inr ⟨heq, ?_⟩
    have ha : a ∈ distinct xs := List.mem_mergeSort.mp (hab.subset List.mem_cons_self)
    have hb : b ∈ distinct xs :=
      List.mem_mergeSort.mp (hab.subset (List.mem_cons_of_mem a List.mem_cons_self))
    have hne : a ≠ b := by
      rintro rfl
      exact pair_sublist_asymm (nodup_sortDistinct xs) hab hab
    rcases pair_sublist_or ha hb hne with hforth | hback
    · exact hfound hforth
    · have hge := decide_eq_true (Int.le_of_eq ((h.eq_comm a b).mp heq))
      have hstable := List.pair_sublist_mergeSort htrans htotal hge hback
      exact absurd hstable (pair_sublist_asymm (nodup_sortDistinct xs) hab)

/-- **Two lists of the same elements are sorted into the same list** exactly when those that the comparison
    calls equal come in the same order in both. -/
theorem sortDistinct_eq_iff (h : TotalPreorder compare) {xs ys : List α} (hsame : ∀ a, a ∈ xs ↔ a ∈ ys) :
    sortDistinct compare xs = sortDistinct compare ys ↔
      ∀ a ∈ xs, ∀ b ∈ xs, a ≠ b → compare a b = 0 →
        (xs.idxOf a < xs.idxOf b ↔ ys.idxOf a < ys.idxOf b) := by
  have hxs := pairwise_sortDistinct h xs
  have hys := pairwise_sortDistinct h ys
  constructor
  · intro heq a ha b hb hne htie
    have htie' := (h.eq_comm a b).mp htie
    rw [← heq] at hys
    rw [List.pairwise_iff_forall_sublist] at hxs hys
    rcases pair_sublist_or (mem_sortDistinct.mpr ha) (mem_sortDistinct.mpr hb) hne with hab | hba
    · rcases hxs hab with hlt | hx <;> rcases hys hab with hlt' | hy <;> omega
    · rcases hxs hba with hlt | hx <;> rcases hys hba with hlt' | hy <;> omega
  · intro hties
    have hys' : (sortDistinct compare ys).Pairwise (Before compare xs) := by
      apply hys.imp_of_mem
      intro a b ha hb hab
      rcases hab with hlt | ⟨htie, hidx⟩
      · exact .inl hlt
      · refine .inr ⟨htie, (hties a ?_ b ?_ ?_ htie).mpr hidx⟩
        · exact (hsame a).mpr (mem_sortDistinct.mp ha)
        · exact (hsame b).mpr (mem_sortDistinct.mp hb)
        · rintro rfl
          exact Nat.lt_irrefl _ hidx
    have hperm : (sortDistinct compare xs).Perm (sortDistinct compare ys) := by
      rw [List.perm_ext_iff_of_nodup (nodup_sortDistinct xs) (nodup_sortDistinct ys)]
      intro a
      rw [mem_sortDistinct, mem_sortDistinct]
      exact hsame a
    refine hperm.eq_of_pairwise ?_ hxs hys'
    intro a b _ _ hab hba
    have hflip := h.flip a b
    have hflip' := h.flip b a
    rcases hab with hlt | hx <;> rcases hba with hlt' | hy <;> omega

end Sorting

end CekatEvents.Ordering
