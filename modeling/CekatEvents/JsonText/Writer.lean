/-
  CekatEvents.JsonText.Writer — writing trees and values without whitespace.

  `Ast.text` writes a tree the compact way, no whitespace around commas and colons.  What is written
  is read back as it was:

    * `spells_text`   — the text of a tree that is `Proper` in a dialect spells the tree there;
    * `spells_proper` — and no other tree is spelled at all.
-/
import CekatEvents.JsonText.Value

namespace CekatEvents.JsonText

open CekatEvents.Encoding

/-! ## §1. The compact text of a tree. -/

/-- Texts one after another with commas between. -/
def commas : List (List CodeUnit) → List CodeUnit
  | [] => []
  | [t] => t
  | t :: u :: ts => t ++ unit ',' :: commas (u :: ts)

/-- The word of a constant outside the standard. -/
def NonFinite.text : NonFinite → List CodeUnit
  | .nan => [unit 'N', unit 'a', unit 'N']
  | .infinity =>
      [unit 'I', unit 'n', unit 'f', unit 'i', unit 'n', unit 'i', unit 't', unit 'y']
  | .negInfinity =>
      [unit '-', unit 'I', unit 'n', unit 'f', unit 'i', unit 'n', unit 'i', unit 't', unit 'y']

mutual
/-- The compact text of a tree. -/
def Ast.text : Ast → List CodeUnit
  | .null => [unit 'n', unit 'u', unit 'l', unit 'l']
  | .bool true => [unit 't', unit 'r', unit 'u', unit 'e']
  | .bool false => [unit 'f', unit 'a', unit 'l', unit 's', unit 'e']
  | .nonFinite c => c.text
  | .num n => n.text
  | .str ps => literalText ps
  | .arr xs => unit '[' :: (commas (elemTexts xs) ++ [unit ']'])
  | .obj ms => unit '{' :: (commas (memberTexts ms) ++ [unit '}'])
/-- The texts of elements. -/
def elemTexts : List Ast → List (List CodeUnit)
  | [] => []
  | x :: xs => x.text :: elemTexts xs
/-- The texts of members. -/
def memberTexts : List (List Piece × Ast) → List (List CodeUnit)
  | [] => []
  | (k, x) :: ms => (literalText k ++ unit ':' :: x.text) :: memberTexts ms
end

theorem elemTexts_eq_map (xs : List Ast) : elemTexts xs = xs.map Ast.text := by
  induction xs with
  | nil => rfl
  | cons x xs ih =>
      unfold elemTexts
      rw [ih, List.map_cons]

theorem memberTexts_eq_map (ms : List (List Piece × Ast)) :
    memberTexts ms = ms.map fun m => literalText m.1 ++ unit ':' :: m.2.text := by
  induction ms with
  | nil => rfl
  | cons m ms ih =>
      obtain ⟨k, x⟩ := m
      unfold memberTexts
      rw [ih, List.map_cons]

/-- Items that each spell their text are separated by the commas between the texts. -/
theorem separated_commas {α : Type} {P : α → List CodeUnit → Prop} {f : α → List CodeUnit}
    {xs : List α} (hne : xs ≠ []) (h : ∀ x ∈ xs, P x (f x)) :
    Separated P xs (commas (xs.map f)) := by
  induction xs with
  | nil => exact absurd rfl hne
  | cons x xs ih =>
      have hx : P x (f x) := h x List.mem_cons_self
      cases xs with
      | nil =>
          have hlast := Separated.last (P := P) Ws.nil hx Ws.nil
          rw [List.nil_append, List.append_nil] at hlast
          exact hlast
      | cons y ys =>
          have hrest := ih (List.cons_ne_nil y ys) fun z hz => h z (List.mem_cons_of_mem x hz)
          exact Separated.more Ws.nil hx Ws.nil hrest

/-- The elements of a text that needs no escapes. -/
def plainPieces (s : List Char) : List Piece := s.map fun c => .plain (unit c)

/-! ## §2. The trees that have a text. -/

instance (d : Dialect) (ps : List Piece) : Decidable (PiecesOk d ps) :=
  inferInstanceAs (Decidable (∀ p ∈ ps, p.ok d = true))

mutual
/-- The tree can be written in the dialect: its numbers follow the grammar, and nothing in it is
    refused. -/
def Ast.Proper (d : Dialect) : Ast → Prop
  | .null => True
  | .bool _ => True
  | .nonFinite _ => d.nonFinite = true
  | .num n => n.WellFormed ∧ d.numeralOk n = true
  | .str ps => PiecesOk d ps
  | .arr xs => ProperElems d xs
  | .obj ms => ProperMembers d ms
/-- The same for elements. -/
def ProperElems (d : Dialect) : List Ast → Prop
  | [] => True
  | x :: xs => x.Proper d ∧ ProperElems d xs
/-- The same for members and their names. -/
def ProperMembers (d : Dialect) : List (List Piece × Ast) → Prop
  | [] => True
  | (k, x) :: ms => (PiecesOk d k ∧ x.Proper d) ∧ ProperMembers d ms
end

theorem properElems_iff {d : Dialect} {xs : List Ast} :
    ProperElems d xs ↔ ∀ x ∈ xs, x.Proper d := by
  induction xs with
  | nil => simp [ProperElems]
  | cons x xs ih => simp [ProperElems, ih]

theorem properMembers_iff {d : Dialect} {ms : List (List Piece × Ast)} :
    ProperMembers d ms ↔ ∀ m ∈ ms, PiecesOk d m.1 ∧ m.2.Proper d := by
  induction ms with
  | nil => simp [ProperMembers]
  | cons m ms ih =>
      obtain ⟨k, x⟩ := m
      simp [ProperMembers, ih]

/-- **What is written is spelled.** -/
theorem spells_text {d : Dialect} {t : Ast} (h : t.Proper d) : Spells d t t.text := by
  induction t using Ast.induction with
  | null => exact .constant (by simp [constants, Ast.text])
  | bool b => cases b <;> exact .constant (by simp [constants, Ast.text])
  | nonFinite c =>
      have hd : d.nonFinite = true := h
      apply Spells.constant
      unfold constants Ast.text
      rw [if_pos hd]
      cases c <;> simp [NonFinite.text]
  | num n => exact .num h.1 h.2
  | str ps => exact .str h
  | arr xs ih =>
      have hxs := properElems_iff.mp h
      unfold Ast.text
      rw [elemTexts_eq_map]
      by_cases hne : xs = []
      · rw [hne]
        exact .arrEmpty Ws.nil
      · apply Spells.arr
        apply separated_commas hne
        intro x hx
        exact ih x hx (hxs x hx)
  | obj ms ih =>
      have hms := properMembers_iff.mp h
      unfold Ast.text
      rw [memberTexts_eq_map]
      by_cases hne : ms = []
      · rw [hne]
        exact .objEmpty Ws.nil
      · apply Spells.obj
        apply separated_commas hne
        intro m hm
        exact .mk (a := []) (b := []) (hms m hm).1 Ws.nil Ws.nil (ih m hm (hms m hm).2)

/-- What is spelled is proper. -/
theorem spells_proper {d : Dialect} {t : Ast} {u : List CodeUnit} (h : Spells d t u) :
    t.Proper d := by
  induction t using Ast.induction generalizing u with
  | null => trivial
  | bool b => trivial
  | nonFinite c =>
      show d.nonFinite = true
      cases h with
      | constant hc =>
          rcases constants_cases hc with ⟨-, h⟩ | ⟨-, h⟩ | ⟨-, h⟩ | ⟨hd, -⟩
          · cases h
          · cases h
          · cases h
          · exact hd
  | num n =>
      cases h with
      | constant hc => exact absurd hc (not_constant rfl)
      | num hn hok => exact ⟨hn, hok⟩
  | str ps =>
      cases h with
      | constant hc => exact absurd hc (not_constant rfl)
      | str hps => exact hps
  | arr xs ih =>
      apply properElems_iff.mpr
      intro x hx
      cases h with
      | constant hc => exact absurd hc (not_constant rfl)
      | arrEmpty _ => exact absurd hx List.not_mem_nil
      | arr hu =>
          obtain ⟨t, ht⟩ := hu.forall_mem x hx
          exact ih x hx ht
  | obj ms ih =>
      apply properMembers_iff.mpr
      intro m hm
      cases h with
      | constant hc => exact absurd hc (not_constant rfl)
      | objEmpty _ => exact absurd hm List.not_mem_nil
      | obj hu =>
          obtain ⟨t, ht⟩ := hu.forall_mem m hm
          cases ht with
          | mk hk ha hb hv => exact ⟨hk, ih _ hm hv⟩

theorem text_text {d : Dialect} {t : Ast} (h : t.Proper d) : Text d t t.text :=
  ⟨[], t.text, [], Ws.nil, spells_text h, Ws.nil, (List.append_nil t.text).symm⟩

end CekatEvents.JsonText
