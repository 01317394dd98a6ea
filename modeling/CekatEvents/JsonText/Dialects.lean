/-
  CekatEvents.JsonText.Dialects — comparing what two dialects accept, and decoding strings.

  Two dialects with the same constants differ only in the `\u` groups and the numerals they let
  through, so a text of the stricter one is a text of the laxer one whose tree is `Allowed`:

    Text d t text  ↔  Text d' t text ∧ t.Allowed d        (`text_restrict`)

  A dialect that does not know the constants `NaN`, `Infinity` and `-Infinity` is in the same way a part
  of one that does (`text_restrict_standard`).

  The induction is on the tree, through `Ast.induction`, since `Spells` nests inside `Separated`.
-/
import CekatEvents.JsonText.Reader

namespace CekatEvents.JsonText

open CekatEvents.Encoding

/-! ## §1. Induction on trees. -/

section Induction

variable {motive : Ast → Prop}

/-- Induction on a syntax tree: arrays and objects may use the claim for what they contain. -/
theorem Ast.induction (null : motive .null) (bool : ∀ b, motive (.bool b))
    (nonFinite : ∀ c, motive (.nonFinite c)) (num : ∀ n, motive (.num n))
    (str : ∀ ps, motive (.str ps))
    (arr : ∀ xs, (∀ x ∈ xs, motive x) → motive (.arr xs))
    (obj : ∀ ms : List (List Piece × Ast), (∀ m ∈ ms, motive m.2) → motive (.obj ms)) :
    ∀ t, motive t := by
  intro t
  induction hn : t.nesting using Nat.strong_induction_on generalizing t with
  | _ n ih =>
      cases t with
      | null => exact null
      | bool b => exact bool b
      | nonFinite c => exact nonFinite c
      | num n => exact num n
      | str ps => exact str ps
      | arr xs =>
          refine arr xs fun x hx => ih _ ?_ x rfl
          have hle := nestingElems_le.mp (Nat.le_refl (nestingElems xs)) x hx
          rw [← hn]
          exact Nat.lt_succ_of_le hle
      | obj ms =>
          refine obj ms fun m hm => ih _ ?_ m.2 rfl
          have hle := nestingMembers_le.mp (Nat.le_refl (nestingMembers ms)) m hm
          rw [← hn]
          exact Nat.lt_succ_of_le hle

end Induction

/-- A container adds no level until it holds a value. -/
theorem nesting_le_height (t : Ast) : t.nesting ≤ t.height + 1 := by
  induction t using Ast.induction with
  | null => exact Nat.zero_le _
  | bool b => exact Nat.zero_le _
  | nonFinite c => exact Nat.zero_le _
  | num n => exact Nat.zero_le _
  | str ps => exact Nat.zero_le _
  | arr xs ih =>
      refine Nat.succ_le_succ (nestingElems_le.mpr fun x hx => ?_)
      have hx' := heightElems_le.mp (Nat.le_refl (heightElems xs)) x hx
      exact Nat.le_trans (ih x hx) hx'
  | obj ms ih =>
      refine Nat.succ_le_succ (nestingMembers_le.mpr fun m hm => ?_)
      have hm' := heightMembers_le.mp (Nat.le_refl (heightMembers ms)) m hm
      exact Nat.le_trans (ih m hm) hm'

/-! ## §2. Restricting a dialect. -/

mutual
/-- Every string literal and every number of the tree is one the dialect lets through. -/
def Ast.Allowed (d : Dialect) : Ast → Prop
  | .num n => d.numeralOk n = true
  | .str ps => PiecesOk d ps
  | .arr xs => AllowedElems d xs
  | .obj ms => AllowedMembers d ms
  | _ => True
/-- The same for elements. -/
def AllowedElems (d : Dialect) : List Ast → Prop
  | [] => True
  | x :: xs => x.Allowed d ∧ AllowedElems d xs
/-- The same for members and their names. -/
def AllowedMembers (d : Dialect) : List (List Piece × Ast) → Prop
  | [] => True
  | (k, x) :: ms => (PiecesOk d k ∧ x.Allowed d) ∧ AllowedMembers d ms
end

theorem allowedElems_iff {d : Dialect} {xs : List Ast} :
    AllowedElems d xs ↔ ∀ x ∈ xs, x.Allowed d := by
  induction xs with
  | nil => simp [AllowedElems]
  | cons x xs ih => simp [AllowedElems, ih]

theorem allowedMembers_iff {d : Dialect} {ms : List (List Piece × Ast)} :
    AllowedMembers d ms ↔ ∀ m ∈ ms, PiecesOk d m.1 ∧ m.2.Allowed d := by
  induction ms with
  | nil => simp [AllowedMembers]
  | cons m ms ih =>
      obtain ⟨k, x⟩ := m
      simp [AllowedMembers, ih]

/-- `d` lets through nothing that `d'` does not, and knows the same constants. -/
structure Dialect.Within (d d' : Dialect) : Prop where
  hex : ∀ a b c e, d.hexOk a b c e = true → d'.hexOk a b c e = true
  numeral : ∀ n, d.numeralOk n = true → d'.numeralOk n = true
  constants : d.nonFinite = d'.nonFinite

theorem Separated.mono {α : Type} {P P' : α → List CodeUnit → Prop} {xs : List α}
    {u : List CodeUnit} (hu : Separated P xs u) (h : ∀ x ∈ xs, ∀ t, P x t → P' x t) :
    Separated P' xs u := by
  induction hu with
  | last ha hx hb => exact .last ha (h _ (by simp) _ hx) hb
  | more ha hx hb _ ih =>
      exact .more ha (h _ (by simp) _ hx) hb
        (ih fun x hmem => h x (List.mem_cons_of_mem _ hmem))

theorem Separated.forall_mem {α : Type} {P : α → List CodeUnit → Prop} {xs : List α}
    {u : List CodeUnit} (hu : Separated P xs u) : ∀ x ∈ xs, ∃ t, P x t := by
  induction hu with
  | last ha hx hb =>
      intro y hy
      simp only [List.mem_singleton] at hy
      exact hy ▸ ⟨_, hx⟩
  | more ha hx hb _ ih =>
      intro y hy
      rcases List.mem_cons.mp hy with rfl | hy
      · exact ⟨_, hx⟩
      · exact ih y hy

/-- The tree of a constant. -/
def Ast.isConstant : Ast → Bool
  | .null | .bool _ | .nonFinite _ => true
  | _ => false

theorem not_constant {d : Dialect} {t : Ast} (ht : t.isConstant = false) {u : List CodeUnit} :
    (u, t) ∉ constants d := by
  intro h
  rcases constants_cases h with ⟨-, rfl⟩ | ⟨-, rfl⟩ | ⟨-, rfl⟩ | ⟨-, hw⟩
  · exact absurd ht (by decide)
  · exact absurd ht (by decide)
  · exact absurd ht (by decide)
  · rcases hw with ⟨-, rfl⟩ | ⟨-, rfl⟩ | ⟨-, rfl⟩ <;> exact absurd ht (by decide)

/-- What a text spells in a dialect is allowed there. -/
theorem spells_allowed {d : Dialect} {t : Ast} {u : List CodeUnit} (h : Spells d t u) :
    t.Allowed d := by
  induction t using Ast.induction generalizing u with
  | null => trivial
  | bool b => trivial
  | nonFinite c => trivial
  | num n =>
      cases h with
      | constant hc => exact absurd hc (not_constant rfl)
      | num hn hok => exact hok
  | str ps =>
      cases h with
      | constant hc => exact absurd hc (not_constant rfl)
      | str hps => exact hps
  | arr xs ih =>
      refine allowedElems_iff.mpr fun x hx => ?_
      cases h with
      | constant hc => exact absurd hc (not_constant rfl)
      | arrEmpty _ => simp at hx
      | arr hu =>
          obtain ⟨t, ht⟩ := hu.forall_mem x hx
          exact ih x hx ht
  | obj ms ih =>
      refine allowedMembers_iff.mpr fun m hm => ?_
      cases h with
      | constant hc => exact absurd hc (not_constant rfl)
      | objEmpty _ => simp at hm
      | obj hu =>
          obtain ⟨t, ht⟩ := hu.forall_mem m hm
          cases ht with
          | mk hk ha hb hv => exact ⟨hk, ih _ hm hv⟩

mutual
/-- The tree has none of the constants that the standard does not know. -/
def Ast.Standard : Ast → Prop
  | .nonFinite _ => False
  | .arr xs => StandardElems xs
  | .obj ms => StandardMembers ms
  | _ => True
/-- The same for elements. -/
def StandardElems : List Ast → Prop
  | [] => True
  | x :: xs => x.Standard ∧ StandardElems xs
/-- The same for members. -/
def StandardMembers : List (List Piece × Ast) → Prop
  | [] => True
  | (_, x) :: ms => x.Standard ∧ StandardMembers ms
end

theorem standardElems_iff {xs : List Ast} : StandardElems xs ↔ ∀ x ∈ xs, x.Standard := by
  induction xs with
  | nil => simp [StandardElems]
  | cons x xs ih => simp [StandardElems, ih]

theorem standardMembers_iff {ms : List (List Piece × Ast)} :
    StandardMembers ms ↔ ∀ m ∈ ms, m.2.Standard := by
  induction ms with
  | nil => simp [StandardMembers]
  | cons m ms ih =>
      obtain ⟨k, x⟩ := m
      simp [StandardMembers, ih]

/-- The constants of the standard are constants of every dialect. -/
theorem constants_standard {d : Dialect} (d' : Dialect) {u : List CodeUnit} {t : Ast}
    (h : (u, t) ∈ constants d) (ht : t.Standard) : (u, t) ∈ constants d' := by
  refine List.mem_append_left _ ?_
  rcases constants_cases h with ⟨rfl, rfl⟩ | ⟨rfl, rfl⟩ | ⟨rfl, rfl⟩ | ⟨-, hw⟩
  · exact List.mem_cons_self
  · exact List.mem_cons_of_mem _ List.mem_cons_self
  · exact List.mem_cons_of_mem _ (List.mem_cons_of_mem _ List.mem_cons_self)
  · rcases hw with ⟨-, rfl⟩ | ⟨-, rfl⟩ | ⟨-, rfl⟩
    · exact ht.elim
    · exact ht.elim
    · exact ht.elim

/-- A tree keeps its text in a dialect that allows it, when the dialects have the same constants or the
    tree has only those of the standard. -/
theorem spells_transfer {d d' : Dialect} {t : Ast} {u : List CodeUnit} (h : Spells d t u)
    (hok : t.Allowed d') (hconst : d.nonFinite = d'.nonFinite ∨ t.Standard) : Spells d' t u := by
  have hconstant : ∀ {t : Ast} {u : List CodeUnit}, (u, t) ∈ constants d →
      d.nonFinite = d'.nonFinite ∨ t.Standard → Spells d' t u := by
    intro t u hc hconst
    rcases hconst with heq | hstandard
    · rw [constants, heq, ← constants] at hc
      exact .constant hc
    · exact .constant (constants_standard d' hc hstandard)
  induction t using Ast.induction generalizing u with
  | null => cases h with | constant h => exact hconstant h hconst
  | bool b => cases h with | constant h => exact hconstant h hconst
  | nonFinite c => cases h with | constant h => exact hconstant h hconst
  | num n =>
      cases h with
      | constant h => exact hconstant h hconst
      | num hn _ => exact .num hn hok
  | str ps =>
      cases h with
      | constant h => exact hconstant h hconst
      | str _ => exact .str hok
  | arr xs ih =>
      have hok := allowedElems_iff.mp hok
      cases h with
      | constant h => exact hconstant h hconst
      | arrEmpty hw => exact .arrEmpty hw
      | arr hu =>
          refine .arr (hu.mono fun x hx t ht => ih x hx ht (hok x hx) ?_)
          exact hconst.imp_right fun h => standardElems_iff.mp h x hx
  | obj ms ih =>
      have hok := allowedMembers_iff.mp hok
      cases h with
      | constant h => exact hconstant h hconst
      | objEmpty hw => exact .objEmpty hw
      | obj hu =>
          refine .obj (hu.mono fun m hm t ht => ?_)
          cases ht with
          | mk hk ha hb hv =>
              refine .mk (hok _ hm).1 ha hb (ih _ hm hv (hok _ hm).2 ?_)
              exact hconst.imp_right fun h => standardMembers_iff.mp h _ hm

/-- What a dialect allows, one that lets through the same groups and numerals allows too. -/
theorem allowed_of_allowed {d d' : Dialect}
    (hhex : ∀ a b c e, d.hexOk a b c e = true → d'.hexOk a b c e = true)
    (hnumeral : ∀ n, d.numeralOk n = true → d'.numeralOk n = true) (t : Ast) (ht : t.Allowed d) :
    t.Allowed d' := by
  have hpieces : ∀ ps, PiecesOk d ps → PiecesOk d' ps := by
    intro ps hps p hp
    have hok := hps p hp
    cases p with
    | plain u => exact hok
    | short c => exact hok
    | hex a b c e => exact hhex a b c e hok
  induction t using Ast.induction with
  | null => trivial
  | bool b => trivial
  | nonFinite c => trivial
  | num n => exact hnumeral n ht
  | str ps => exact hpieces ps ht
  | arr xs ih =>
      have ht := allowedElems_iff.mp ht
      exact allowedElems_iff.mpr fun x hx => ih x hx (ht x hx)
  | obj ms ih =>
      have ht := allowedMembers_iff.mp ht
      exact allowedMembers_iff.mpr fun m hm => ⟨hpieces m.1 (ht m hm).1, ih m hm (ht m hm).2⟩

/-- **The texts of the stricter dialect** are those of the laxer one that it allows. -/
theorem text_restrict {d d' : Dialect} (h : d.Within d') {t : Ast} {text : List CodeUnit} :
    Text d t text ↔ Text d' t text ∧ t.Allowed d := by
  constructor
  · rintro ⟨a, u, b, ha, hu, hb, rfl⟩
    have hok := spells_allowed hu
    have hok' := allowed_of_allowed h.hex h.numeral t hok
    exact ⟨⟨a, u, b, ha, spells_transfer hu hok' (.inl h.constants), hb, rfl⟩, hok⟩
  · rintro ⟨⟨a, u, b, ha, hu, hb, rfl⟩, hok⟩
    exact ⟨a, u, b, ha, spells_transfer hu hok (.inl h.constants.symm), hb, rfl⟩

/-- A dialect without the other constants has standard trees only. -/
theorem spells_standard {d : Dialect} (hd : d.nonFinite = false) {t : Ast} {u : List CodeUnit}
    (h : Spells d t u) : t.Standard := by
  induction t using Ast.induction generalizing u with
  | null => trivial
  | bool b => trivial
  | nonFinite c =>
      cases h with
      | constant hc =>
          rcases constants_cases hc with ⟨-, h⟩ | ⟨-, h⟩ | ⟨-, h⟩ | ⟨hd', -⟩
          · cases h
          · cases h
          · cases h
          · rw [hd] at hd'
            cases hd'
  | num n => trivial
  | str ps => trivial
  | arr xs ih =>
      refine standardElems_iff.mpr fun x hx => ?_
      cases h with
      | constant hc => exact absurd hc (not_constant rfl)
      | arrEmpty _ => simp at hx
      | arr hu =>
          obtain ⟨t, ht⟩ := hu.forall_mem x hx
          exact ih x hx ht
  | obj ms ih =>
      refine standardMembers_iff.mpr fun m hm => ?_
      cases h with
      | constant hc => exact absurd hc (not_constant rfl)
      | objEmpty _ => simp at hm
      | obj hu =>
          obtain ⟨t, ht⟩ := hu.forall_mem m hm
          cases ht with
          | mk hk ha hb hv => exact ih _ hm hv

/-- **The texts of a dialect without the other constants** are the standard ones of a laxer dialect that
    it allows, whether that one knows those constants or not. -/
theorem text_restrict_standard {d d' : Dialect} (hd : d.nonFinite = false)
    (hwithin : ∀ t : Ast, t.Allowed d → t.Allowed d') {t : Ast} {text : List CodeUnit} :
    Text d t text ↔ Text d' t text ∧ t.Allowed d ∧ t.Standard := by
  constructor
  · rintro ⟨a, u, b, ha, hu, hb, rfl⟩
    have hok := spells_allowed hu
    have hstandard := spells_standard hd hu
    exact ⟨⟨a, u, b, ha, spells_transfer hu (hwithin t hok) (.inr hstandard), hb, rfl⟩, hok,
      hstandard⟩
  · rintro ⟨⟨a, u, b, ha, hu, hb, rfl⟩, hok, hstandard⟩
    exact ⟨a, u, b, ha, spells_transfer hu hok (.inr hstandard), hb, rfl⟩

end CekatEvents.JsonText
