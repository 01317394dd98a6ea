/-
  CekatEvents.JsonText.Alike — values that say the same.

  Two values are alike when they differ in the order of the members of their objects at most, and their
  numbers are related: `v.Alike N w` for a relation `N` between the numbers of the one and those of the other.

    * `Alike.trans`, `Alike.symm` — it composes and it can be turned round;
    * `Alike.numbers_iff`, `Alike.nesting_eq`, `Alike.each_iff` — alike values have the same properties.
-/
import CekatEvents.JsonText.Encode
import CekatEvents.JsonText.Entries
import Mathlib.Data.List.Perm.Basic

namespace CekatEvents.JsonText

open CekatEvents.Encoding

/-! ## §1. The relation. -/

section Alike

variable {ν μ : Type} (N : ν → μ → Prop)

mutual
/-- **The values are alike.** -/
def Value.Alike : Value ν → Value μ → Prop
  | .null, w => w = .null
  | .bool b, w => w = .bool b
  | .num n, w => ∃ m, w = .num m ∧ N n m
  | .str s, w => w = .str s
  | .arr xs, w => ∃ ys, w = .arr ys ∧ AlikeElems xs ys
  | .obj ms, w => ∃ ns ns', w = .obj ns ∧ ns'.Perm ns ∧ AlikeMembers ms ns'
/-- Elements are alike one by one. -/
def AlikeElems : List (Value ν) → List (Value μ) → Prop
  | [], ys => ys = []
  | x :: xs, ys => ∃ y ys', ys = y :: ys' ∧ x.Alike y ∧ AlikeElems xs ys'
/-- So are members, with their names. -/
def AlikeMembers : List (List CodeUnit × Value ν) → List (List CodeUnit × Value μ) → Prop
  | [], ns => ns = []
  | (k, x) :: ms, ns => ∃ y ns', ns = (k, y) :: ns' ∧ x.Alike y ∧ AlikeMembers ms ns'
end

/-- Two members are alike. -/
def MemberAlike (m : List CodeUnit × Value ν) (n : List CodeUnit × Value μ) : Prop :=
  m.1 = n.1 ∧ m.2.Alike N n.2

variable {N}

theorem alikeElems_iff {xs : List (Value ν)} {ys : List (Value μ)} :
    AlikeElems N xs ys ↔ List.Forall₂ (Value.Alike N) xs ys := by
  induction xs generalizing ys with
  | nil => exact List.forall₂_nil_left_iff.symm
  | cons x xs ih =>
      rw [List.forall₂_cons_left_iff]
      show (∃ y ys', ys = y :: ys' ∧ x.Alike N y ∧ AlikeElems N xs ys') ↔ _
      constructor
      · intro h
        obtain ⟨y, ys', rfl, hx, hxs⟩ := h
        exact ⟨y, ys', hx, ih.mp hxs, rfl⟩
      · intro h
        obtain ⟨y, ys', hx, hxs, rfl⟩ := h
        exact ⟨y, ys', rfl, hx, ih.mpr hxs⟩

theorem alikeMembers_iff {ms : List (List CodeUnit × Value ν)} {ns : List (List CodeUnit × Value μ)} :
    AlikeMembers N ms ns ↔ List.Forall₂ (MemberAlike N) ms ns := by
  induction ms generalizing ns with
  | nil => exact List.forall₂_nil_left_iff.symm
  | cons m ms ih =>
      obtain ⟨k, x⟩ := m
      rw [List.forall₂_cons_left_iff]
      show (∃ y ns', ns = (k, y) :: ns' ∧ x.Alike N y ∧ AlikeMembers N ms ns') ↔ _
      constructor
      · intro h
        obtain ⟨y, ns', rfl, hx, hms⟩ := h
        exact ⟨(k, y), ns', ⟨rfl, hx⟩, ih.mp hms, rfl⟩
      · intro h
        obtain ⟨⟨k', y⟩, ns', ⟨rfl, hx⟩, hms, rfl⟩ := h
        exact ⟨y, ns', rfl, hx, ih.mpr hms⟩

theorem alike_arr_iff {xs : List (Value ν)} {w : Value μ} :
    (Value.arr xs).Alike N w ↔ ∃ ys, w = .arr ys ∧ List.Forall₂ (Value.Alike N) xs ys := by
  simp only [← alikeElems_iff]
  exact Iff.rfl

theorem alike_obj_iff {ms : List (List CodeUnit × Value ν)} {w : Value μ} :
    (Value.obj ms).Alike N w ↔
      ∃ ns ns', w = .obj ns ∧ ns'.Perm ns ∧ List.Forall₂ (MemberAlike N) ms ns' := by
  simp only [← alikeMembers_iff]
  exact Iff.rfl

/-- What is alike element by element or member by member, in the order there is. -/
theorem alike_arr {xs : List (Value ν)} {ys : List (Value μ)} (h : List.Forall₂ (Value.Alike N) xs ys) :
    (Value.arr xs).Alike N (.arr ys) :=
  alike_arr_iff.mpr ⟨ys, rfl, h⟩

theorem alike_obj {ms : List (List CodeUnit × Value ν)} {ns : List (List CodeUnit × Value μ)}
    (h : List.Forall₂ (MemberAlike N) ms ns) : (Value.obj ms).Alike N (.obj ns) :=
  alike_obj_iff.mpr ⟨ns, ns, rfl, .refl ns, h⟩

/-- The members in another order. -/
theorem alike_obj_perm {ms ms' : List (List CodeUnit × Value ν)} {w : Value μ} (hperm : ms.Perm ms')
    (h : (Value.obj ms').Alike N w) : (Value.obj ms).Alike N w := by
  obtain ⟨ns, ns', rfl, hns, hms⟩ := alike_obj_iff.mp h
  obtain ⟨ns'', hms', hns'⟩ := List.perm_comp_forall₂ hperm hms
  exact alike_obj_iff.mpr ⟨ns, ns'', rfl, hns'.trans hns, hms'⟩

/-- Names that are given to alike values make members that are alike. -/
theorem forall₂_zip {names : List (List CodeUnit)} {xs : List (Value ν)} {ys : List (Value μ)}
    (h : List.Forall₂ (Value.Alike N) xs ys) :
    List.Forall₂ (MemberAlike N) (names.zip xs) (names.zip ys) := by
  induction h generalizing names with
  | nil =>
      rw [List.zip_nil_right, List.zip_nil_right]
      exact .nil
  | cons hx _ ih =>
      cases names with
      | nil => exact .nil
      | cons name names => exact .cons ⟨rfl, hx⟩ ih

end Alike

/-! ## §2. Composition. -/

section Composition

variable {ν μ κ : Type} {N : ν → μ → Prop} {M : μ → κ → Prop} {P : ν → κ → Prop}

/-- What is related pair by pair, the left of each being one of the list. -/
theorem forall₂_of_mem {α β : Type} {R S : α → β → Prop} {xs : List α} {ys : List β}
    (hS : ∀ x ∈ xs, ∀ y, R x y → S x y) (h : List.Forall₂ R xs ys) : List.Forall₂ S xs ys := by
  have hmem := (List.forall₂_and_left _ _).mpr ⟨fun x hx => hx, h⟩
  exact hmem.imp fun x y hxy => hS x hxy.1 y hxy.2

theorem forall₂_trans {α β γ : Type} {R : α → β → Prop} {S : β → γ → Prop} {T : α → γ → Prop}
    {xs : List α} {ys : List β} {zs : List γ} (hT : ∀ x ∈ xs, ∀ y z, R x y → S y z → T x z)
    (h : List.Forall₂ R xs ys) (h' : List.Forall₂ S ys zs) : List.Forall₂ T xs zs := by
  induction h generalizing zs with
  | nil =>
      cases h'
      exact .nil
  | cons hx _ ih =>
      cases h' with
      | cons hy hys =>
          refine .cons (hT _ List.mem_cons_self _ _ hx hy) (ih ?_ hys)
          intro x hmem
          exact hT x (List.mem_cons_of_mem _ hmem)

/-- **What is alike to something alike is alike.** -/
theorem Value.Alike.trans (hP : ∀ n m k, N n m → M m k → P n k) {v : Value ν} {w : Value μ} {u : Value κ}
    (h : v.Alike N w) (h' : w.Alike M u) : v.Alike P u := by
  induction v using Value.induction generalizing w u with
  | null =>
      cases h
      exact h'
  | bool b =>
      cases h
      exact h'
  | num n =>
      obtain ⟨m, rfl, hn⟩ := h
      obtain ⟨k, rfl, hm⟩ := h'
      exact ⟨k, rfl, hP n m k hn hm⟩
  | str s =>
      cases h
      exact h'
  | arr xs ih =>
      obtain ⟨ys, rfl, hxs⟩ := alike_arr_iff.mp h
      obtain ⟨zs, rfl, hys⟩ := alike_arr_iff.mp h'
      exact alike_arr (forall₂_trans (R := Value.Alike N) (S := Value.Alike M)
        (fun x hx _ _ hxy hyz => ih x hx hxy hyz) hxs hys)
  | obj ms ih =>
      obtain ⟨ns, ns', rfl, hns, hms⟩ := alike_obj_iff.mp h
      -- the order of the second pair is brought before that of the first
      obtain ⟨ks, ks', rfl, hks, hns'⟩ := alike_obj_iff.mp (alike_obj_perm hns h')
      refine alike_obj_iff.mpr ⟨ks, ks', rfl, hks, forall₂_trans ?_ hms hns'⟩
      intro m hm n k hmn hnk
      exact ⟨hmn.1.trans hnk.1, ih m hm hmn.2 hnk.2⟩

/-- **It can be turned round.** -/
theorem Value.Alike.symm {P' : μ → ν → Prop} (hP : ∀ n m, N n m → P' m n) {v : Value ν} {w : Value μ} (h : v.Alike N w) :
    w.Alike P' v := by
  induction v using Value.induction generalizing w with
  | null =>
      cases h
      rfl
  | bool b =>
      cases h
      rfl
  | num n =>
      obtain ⟨m, rfl, hn⟩ := h
      exact ⟨n, rfl, hP n m hn⟩
  | str s =>
      cases h
      rfl
  | arr xs ih =>
      obtain ⟨ys, rfl, hxs⟩ := alike_arr_iff.mp h
      apply alike_arr
      exact (forall₂_of_mem (S := flip (Value.Alike P')) (fun x hx _ hxy => ih x hx hxy) hxs).flip
  | obj ms ih =>
      obtain ⟨ns, ns', rfl, hns, hms⟩ := alike_obj_iff.mp h
      apply alike_obj_perm hns.symm
      apply alike_obj
      exact (forall₂_of_mem (S := flip (MemberAlike P'))
        (fun m hm _ hmn => ⟨hmn.1.symm, ih m hm hmn.2⟩) hms).flip

/-- Numbers that are put in beforehand. -/
theorem alike_map_left {f : κ → ν} {v : Value κ} {w : Value μ} :
    (v.map f).Alike N w ↔ v.Alike (fun n m => N (f n) m) w := by
  induction v using Value.induction generalizing w with
  | null => exact Iff.rfl
  | bool b => exact Iff.rfl
  | num n => exact Iff.rfl
  | str s => exact Iff.rfl
  | arr xs ih =>
      show (Value.arr (mapElems f xs)).Alike N w ↔ _
      rw [mapElems_eq_map, alike_arr_iff, alike_arr_iff]
      simp only [List.forall₂_map_left_iff]
      apply exists_congr
      intro ys
      apply and_congr_right
      intro _
      constructor
      · exact forall₂_of_mem fun x hx _ hxy => (ih x hx).mp hxy
      · exact forall₂_of_mem fun x hx _ hxy => (ih x hx).mpr hxy
  | obj ms ih =>
      show (Value.obj (mapMembers f ms)).Alike N w ↔ _
      rw [mapMembers_eq_map, alike_obj_iff, alike_obj_iff]
      simp only [List.forall₂_map_left_iff]
      apply exists₂_congr
      intro ns ns'
      apply and_congr_right
      intro _
      apply and_congr_right
      intro _
      constructor
      · exact forall₂_of_mem fun m hm _ hmn => ⟨hmn.1, (ih m hm).mp hmn.2⟩
      · exact forall₂_of_mem fun m hm _ hmn => ⟨hmn.1, (ih m hm).mpr hmn.2⟩

end Composition

/-! ## §3. What alike values have in common. -/

section Common

variable {ν μ : Type} {N : ν → μ → Prop} {v : Value ν} {w : Value μ}

/-- What related lists have on the right. -/
theorem forall_right_iff {α β : Type} {R : α → β → Prop} {A : α → Prop} {B : β → Prop} {xs : List α}
    {ys : List β} (hAB : ∀ x ∈ xs, ∀ y, R x y → (A x ↔ B y)) (h : List.Forall₂ R xs ys) :
    (∀ x ∈ xs, A x) ↔ ∀ y ∈ ys, B y := by
  induction h with
  | nil => simp
  | cons hx _ ih =>
      rw [List.forall_mem_cons, List.forall_mem_cons, hAB _ List.mem_cons_self _ hx,
        ih fun x hmem => hAB x (List.mem_cons_of_mem _ hmem)]

/-- The names of members that are alike. -/
theorem names_of_alike {ms : List (List CodeUnit × Value ν)} {ns : List (List CodeUnit × Value μ)}
    (h : List.Forall₂ (MemberAlike N) ms ns) : ms.map Prod.fst = ns.map Prod.fst := by
  induction h with
  | nil => rfl
  | cons hm _ ih => rw [List.map_cons, List.map_cons, hm.1, ih]

/-- **Conditions on the numbers that come to the same.** -/
theorem Value.Alike.numbers_iff {A : ν → Prop} {B : μ → Prop} (hAB : ∀ n m, N n m → (A n ↔ B m))
    (h : v.Alike N w) : v.Numbers A ↔ w.Numbers B := by
  induction v using Value.induction generalizing w with
  | null =>
      cases h
      exact Iff.rfl
  | bool b =>
      cases h
      exact Iff.rfl
  | num n =>
      obtain ⟨m, rfl, hn⟩ := h
      exact hAB n m hn
  | str s =>
      cases h
      exact Iff.rfl
  | arr xs ih =>
      obtain ⟨ys, rfl, hxs⟩ := alike_arr_iff.mp h
      show NumbersElem A xs ↔ NumbersElem B ys
      rw [numbersElem_iff, numbersElem_iff]
      exact forall_right_iff (fun x hx _ hxy => ih x hx hxy) hxs
  | obj ms ih =>
      obtain ⟨ns, ns', rfl, hns, hms⟩ := alike_obj_iff.mp h
      show NumbersMember A ms ↔ NumbersMember B ns
      rw [numbersMember_iff, numbersMember_iff]
      refine (forall_right_iff (B := fun n => n.2.Numbers B) (fun m hm _ hmn => ih m hm hmn.2) hms).trans ?_
      exact forall_congr' fun n => imp_congr_left hns.mem_iff

/-- **Conditions on strings, and on names in any order.** -/
theorem Value.Alike.each_iff {S : List CodeUnit → Prop} {O : List (List CodeUnit) → Prop}
    (hO : ∀ a b : List (List CodeUnit), a.Perm b → (O a ↔ O b)) (h : v.Alike N w) :
    v.Each S O ↔ w.Each S O := by
  induction v using Value.induction generalizing w with
  | null =>
      cases h
      exact Iff.rfl
  | bool b =>
      cases h
      exact Iff.rfl
  | num n =>
      obtain ⟨m, rfl, -⟩ := h
      exact Iff.rfl
  | str s =>
      cases h
      exact Iff.rfl
  | arr xs ih =>
      obtain ⟨ys, rfl, hxs⟩ := alike_arr_iff.mp h
      show EachElem S O xs ↔ EachElem S O ys
      rw [eachElem_iff, eachElem_iff]
      exact forall_right_iff (fun x hx _ hxy => ih x hx hxy) hxs
  | obj ms ih =>
      obtain ⟨ns, ns', rfl, hns, hms⟩ := alike_obj_iff.mp h
      show O (ms.map Prod.fst) ∧ EachMember S O ms ↔ O (ns.map Prod.fst) ∧ EachMember S O ns
      rw [eachMember_iff, eachMember_iff, names_of_alike hms]
      refine and_congr (hO _ _ (hns.map Prod.fst)) ?_
      refine (forall_right_iff (B := fun n => S n.1 ∧ n.2.Each S O) ?_ hms).trans ?_
      · intro m hm n hmn
        rw [hmn.1, ih m hm hmn.2]
      · exact forall_congr' fun n => imp_congr_left hns.mem_iff

/-- **Another relation between the numbers**, where those of the one value satisfy a condition. -/
theorem Value.Alike.imp {N' : ν → μ → Prop} {A : ν → Prop} (hN : ∀ n m, A n → N n m → N' n m) (hv : v.Numbers A)
    (h : v.Alike N w) : v.Alike N' w := by
  induction v using Value.induction generalizing w with
  | null => exact h
  | bool b => exact h
  | num n =>
      obtain ⟨m, rfl, hn⟩ := h
      exact ⟨m, rfl, hN n m hv hn⟩
  | str s => exact h
  | arr xs ih =>
      obtain ⟨ys, rfl, hxs⟩ := alike_arr_iff.mp h
      have hnumbers := numbersElem_iff.mp hv
      exact alike_arr (forall₂_of_mem (fun x hx _ hxy => ih x hx (hnumbers x hx) hxy) hxs)
  | obj ms ih =>
      obtain ⟨ns, ns', rfl, hns, hms⟩ := alike_obj_iff.mp h
      have hnumbers := numbersMember_iff.mp hv
      refine alike_obj_iff.mpr ⟨ns, ns', rfl, hns, forall₂_of_mem ?_ hms⟩
      intro m hm n hmn
      exact ⟨hmn.1, ih m hm (hnumbers m hm) hmn.2⟩

/-- No name repeats in the one when none does in the other. -/
theorem Value.Alike.distinct_iff (h : v.Alike N w) : v.Distinct ↔ w.Distinct :=
  h.each_iff fun _ _ hperm => hperm.nodup_iff

/-- The strings of the one are Unicode when those of the other are. -/
theorem Value.Alike.unicode_iff (h : v.Alike N w) : v.Unicode ↔ w.Unicode :=
  h.each_iff fun _ _ _ => Iff.rfl

/-- **Alike values nest alike.** -/
theorem Value.Alike.nesting_le_iff {n : Nat} (h : v.Alike N w) : v.nesting ≤ n ↔ w.nesting ≤ n := by
  induction v using Value.induction generalizing w n with
  | null =>
      cases h
      exact Iff.rfl
  | bool b =>
      cases h
      exact Iff.rfl
  | num k =>
      obtain ⟨m, rfl, -⟩ := h
      exact Iff.rfl
  | str s =>
      cases h
      exact Iff.rfl
  | arr xs ih =>
      obtain ⟨ys, rfl, hxs⟩ := alike_arr_iff.mp h
      rw [nesting_arr_le, nesting_arr_le]
      apply exists_congr
      intro m
      apply and_congr_right
      intro _
      exact forall_right_iff (fun x hx _ hxy => ih x hx hxy) hxs
  | obj ms ih =>
      obtain ⟨ns, ns', rfl, hns, hms⟩ := alike_obj_iff.mp h
      rw [nesting_obj_le, nesting_obj_le]
      apply exists_congr
      intro m
      apply and_congr_right
      intro _
      refine (forall_right_iff (B := fun e => e.2.nesting ≤ m) (fun e he _ hen => ih e he hen.2) hms).trans ?_
      exact forall_congr' fun e => imp_congr_left hns.mem_iff

theorem Value.Alike.nesting_eq (h : v.Alike N w) : v.nesting = w.nesting :=
  Nat.le_antisymm (h.nesting_le_iff.mpr (Nat.le_refl _)) (h.nesting_le_iff.mp (Nat.le_refl _))

end Common

/-! ## §4. Equal numbers. -/

section Equal

variable {ν μ : Type} {N : ν → μ → Prop} {v : Value ν} {w u : Value μ}

/-- Equal numbers satisfy the same conditions. -/
theorem alike_eq_numbers_iff (h : w.Alike Eq u) (A : μ → Prop) : w.Numbers A ↔ u.Numbers A :=
  h.numbers_iff fun n m hnm => by rw [hnm]

/-- What is alike to a value is alike to another order of it. -/
theorem Value.Alike.trans_eq (h : v.Alike N w) (hu : w.Alike Eq u) : v.Alike N u :=
  h.trans (fun _ _ _ hnm hmk => hmk ▸ hnm) hu

end Equal

end CekatEvents.JsonText
