/-
  CekatEvents.JsonText.Unicode — the literals of well-formed text.

  Outside its string literals a JSON text is ASCII, so no character stands across the edge of a
  literal: a text is well-formed UTF-16 exactly when each of its literals is.

    * `spells_clean` — the literals of a well-formed text are well formed;
    * `clean_text`   — and a tree of such literals is written as well-formed text.
-/
import CekatEvents.Encoding.Replacement
import CekatEvents.JsonText.Writer

namespace CekatEvents.JsonText

open CekatEvents.Encoding

/-! ## §1. Conditions on literals. -/

section Literals

variable (S : List Piece → Prop)

mutual
/-- Every string literal of the tree, the names of members included, satisfies the condition. -/
def Ast.Literals : Ast → Prop
  | .str ps => S ps
  | .arr xs => LiteralsElems xs
  | .obj ms => LiteralsMembers ms
  | _ => True
/-- The same for elements. -/
def LiteralsElems : List Ast → Prop
  | [] => True
  | x :: xs => x.Literals ∧ LiteralsElems xs
/-- The same for members. -/
def LiteralsMembers : List (List Piece × Ast) → Prop
  | [] => True
  | (k, x) :: ms => (S k ∧ x.Literals) ∧ LiteralsMembers ms
end

variable {S}

theorem literalsElems_iff {xs : List Ast} : LiteralsElems S xs ↔ ∀ x ∈ xs, x.Literals S := by
  induction xs with
  | nil => simp [LiteralsElems]
  | cons x xs ih => simp [LiteralsElems, ih]

theorem literalsMembers_iff {ms : List (List Piece × Ast)} :
    LiteralsMembers S ms ↔ ∀ m ∈ ms, S m.1 ∧ m.2.Literals S := by
  induction ms with
  | nil => simp [LiteralsMembers]
  | cons m ms ih =>
      obtain ⟨k, x⟩ := m
      simp [LiteralsMembers, ih]

end Literals

/-- A literal is well formed. -/
def CleanPieces (ps : List Piece) : Prop := WellFormed (literalText ps)

/-- Every literal of the tree is well formed. -/
abbrev Ast.Clean (t : Ast) : Prop := t.Literals CleanPieces

/-! ## §2. Edges. -/

theorem isBasic_of_low {u : CodeUnit} (h : u.toNat < 0x80) : isBasic u = true := by
  apply isBasic_iff.mpr
  unfold isHigh isLow
  simp only [decide_eq_false_iff_not]
  omega

theorem isBasic_of_isWs {u : CodeUnit} (h : isWs u = true) : isBasic u = true := by
  unfold isWs at h
  simp only [Bool.or_eq_true, beq_iff_eq] at h
  rcases h with ((rfl | rfl) | rfl) | rfl <;> decide

theorem Ws.startsBasic {w : List CodeUnit} (hw : Ws w) : StartsBasic w := by
  intro u hu
  exact isBasic_of_isWs (hw u (List.mem_of_mem_head? hu))

/-- Whitespace followed by a mark starts with no surrogate. -/
theorem Ws.startsBasic_append {w : List CodeUnit} (hw : Ws w) {u : CodeUnit}
    (hu : isBasic u = true) (s : List CodeUnit) : StartsBasic (w ++ u :: s) := by
  cases w with
  | nil => exact .cons hu s
  | cons v w => exact .cons (isBasic_of_isWs (hw v List.mem_cons_self)) _

/-- Leading whitespace does not matter. -/
theorem wellFormed_ws_append {w : List CodeUnit} (hw : Ws w) {s : List CodeUnit} :
    WellFormed (w ++ s) ↔ WellFormed s := by
  induction w with
  | nil => exact Iff.rfl
  | cons u w ih =>
      have hu : isBasic u = true := isBasic_of_isWs (hw u List.mem_cons_self)
      rw [List.cons_append, wellFormed_cons_iff hu]
      exact ih fun v hv => hw v (List.mem_cons_of_mem u hv)

/-- An item between whitespace and a mark is well formed where the whole is. -/
theorem wellFormed_item {a t b u : List CodeUnit} {c : CodeUnit} (ha : Ws a) (hb : Ws b)
    (hc : isBasic c = true) (h : WellFormed (a ++ (t ++ (b ++ c :: u)))) :
    WellFormed t ∧ WellFormed u := by
  rw [wellFormed_ws_append ha, wellFormed_append_iff (hb.startsBasic_append hc u),
    wellFormed_ws_append hb, wellFormed_cons_iff hc] at h
  exact h

theorem Separated.wellFormed {α : Type} {P : α → List CodeUnit → Prop} {xs : List α}
    {u : List CodeUnit} (hu : Separated P xs u) (h : WellFormed u) :
    ∀ x ∈ xs, ∃ t, P x t ∧ WellFormed t := by
  induction hu with
  | last ha hx hb =>
      intro y hy
      rw [List.mem_singleton] at hy
      rw [wellFormed_ws_append ha, wellFormed_append_iff hb.startsBasic] at h
      exact hy ▸ ⟨_, hx, h.1⟩
  | more ha hx hb _ ih =>
      obtain ⟨ht, hrest⟩ := wellFormed_item ha hb (by decide) h
      intro y hy
      rcases List.mem_cons.mp hy with rfl | hy
      · exact ⟨_, hx, ht⟩
      · exact ih hrest y hy

/-- What stands between two brackets. -/
theorem wellFormed_bracketed {o c : CodeUnit} (ho : isBasic o = true) (hc : isBasic c = true)
    {u : List CodeUnit} : WellFormed (o :: (u ++ [c])) ↔ WellFormed u := by
  rw [wellFormed_cons_iff ho, wellFormed_append_iff (.cons hc []), wellFormed_cons_iff hc]
  simp [WellFormed.nil]

/-- **The literals of a well-formed text are well formed.** -/
theorem spells_clean {d : Dialect} {t : Ast} {u : List CodeUnit} (h : Spells d t u)
    (hu : WellFormed u) : t.Clean := by
  induction t using Ast.induction generalizing u with
  | null => trivial
  | bool b => trivial
  | nonFinite c => trivial
  | num n => trivial
  | str ps =>
      cases h with
      | constant hc => exact absurd hc (not_constant rfl)
      | str hps => exact hu
  | arr xs ih =>
      apply literalsElems_iff.mpr
      intro x hx
      cases h with
      | constant hc => exact absurd hc (not_constant rfl)
      | arrEmpty _ => exact absurd hx List.not_mem_nil
      | arr hs =>
          obtain ⟨t, ht, hwf⟩ := hs.wellFormed ((wellFormed_bracketed (by decide) (by decide)).mp hu) x hx
          exact ih x hx ht hwf
  | obj ms ih =>
      apply literalsMembers_iff.mpr
      intro m hm
      cases h with
      | constant hc => exact absurd hc (not_constant rfl)
      | objEmpty _ => exact absurd hm List.not_mem_nil
      | obj hs =>
          obtain ⟨t, ht, hwf⟩ := hs.wellFormed ((wellFormed_bracketed (by decide) (by decide)).mp hu) m hm
          cases ht with
          | mk hk ha hb hv =>
              have hcolon : isBasic (unit ':') = true := by decide
              rw [wellFormed_append_iff (ha.startsBasic_append hcolon _), wellFormed_ws_append ha,
                wellFormed_cons_iff hcolon, wellFormed_ws_append hb] at hwf
              exact ⟨hwf.1, ih _ hm hv hwf.2⟩

theorem text_clean {d : Dialect} {t : Ast} {text : List CodeUnit} (h : Text d t text)
    (hwf : WellFormed text) : t.Clean := by
  obtain ⟨a, u, b, ha, hu, hb, rfl⟩ := h
  rw [wellFormed_ws_append ha, wellFormed_append_iff hb.startsBasic] at hwf
  exact spells_clean hu hwf.1

/-! ## §3. Writing clean trees. -/

theorem wellFormed_commas {ts : List (List CodeUnit)} (h : ∀ t ∈ ts, WellFormed t) :
    WellFormed (commas ts) := by
  induction ts using commas.induct with
  | case1 => exact .nil
  | case2 t => exact h t List.mem_cons_self
  | case3 t u ts ih =>
      have ht : WellFormed t := h t List.mem_cons_self
      have hrest := ih fun v hv => h v (List.mem_cons_of_mem t hv)
      exact ht.append ((wellFormed_cons_iff (by decide)).mpr hrest)

theorem digit_lt {u : CodeUnit} (h : isDigit u = true) : u.toNat < 0x80 := by
  have := isDigit_toNat.mp h
  omega

/-- A number is ASCII. -/
theorem numeral_lt {n : Numeral} (h : n.WellFormed) : ∀ u ∈ n.text, u.toNat < 0x80 := by
  have hint : ∀ u ∈ n.int, u.toNat < 0x80 := by
    intro u hu
    rcases h.int with hz | ⟨hd, -⟩
    · rw [hz, List.mem_singleton] at hu
      rw [hu]
      decide
    · exact digit_lt (hd.2 u hu)
  have hfrac : ∀ u ∈ fracText n.frac, u.toNat < 0x80 := by
    intro u hu
    cases hf : n.frac with
    | none =>
        rw [hf] at hu
        exact absurd hu List.not_mem_nil
    | some ds =>
        rw [hf] at hu
        rcases List.mem_cons.mp hu with rfl | hu
        · decide
        · exact digit_lt ((h.frac ds hf).2 u hu)
  have hexp : ∀ u ∈ expText n.exp, u.toNat < 0x80 := by
    intro u hu
    cases he : n.exp with
    | none =>
        rw [he] at hu
        exact absurd hu List.not_mem_nil
    | some e =>
        obtain ⟨hmarker, hsign, hdigits⟩ := h.exp e he
        rw [he] at hu
        rcases List.mem_cons.mp hu with rfl | hu
        · rcases hmarker with hm | hm <;> rw [hm] <;> decide
        · rcases List.mem_append.mp hu with hu | hu
          · rcases hsign u (Option.mem_toList.mp hu) with hs | hs <;> rw [hs] <;> decide
          · exact digit_lt (hdigits.2 u hu)
  intro u hu
  unfold Numeral.text at hu
  simp only [List.mem_append] at hu
  rcases hu with hu | hu | hu | hu
  · split_ifs at hu
    · rw [List.mem_singleton] at hu
      rw [hu]
      decide
    · exact absurd hu List.not_mem_nil
  · exact hint u hu
  · exact hfrac u hu
  · exact hexp u hu

/-- **A tree of well-formed literals is written as well-formed text.** -/
theorem clean_text {d : Dialect} {t : Ast} (h : t.Clean) (hp : t.Proper d) : WellFormed t.text := by
  induction t using Ast.induction with
  | null => exact .of_ascii (by decide)
  | bool b => cases b <;> exact .of_ascii (by decide)
  | nonFinite c => cases c <;> exact .of_ascii (by decide)
  | num n => exact .of_ascii (numeral_lt hp.1)
  | str ps => exact h
  | arr xs ih =>
      have hxs := literalsElems_iff.mp h
      have hps := properElems_iff.mp hp
      unfold Ast.text
      rw [wellFormed_bracketed (by decide) (by decide), elemTexts_eq_map]
      apply wellFormed_commas
      intro t ht
      obtain ⟨x, hx, rfl⟩ := List.mem_map.mp ht
      exact ih x hx (hxs x hx) (hps x hx)
  | obj ms ih =>
      have hms := literalsMembers_iff.mp h
      have hps := properMembers_iff.mp hp
      unfold Ast.text
      rw [wellFormed_bracketed (by decide) (by decide), memberTexts_eq_map]
      apply wellFormed_commas
      intro t ht
      obtain ⟨m, hm, rfl⟩ := List.mem_map.mp ht
      have hv := ih m hm (hms m hm).2 (hps m hm).2
      exact (hms m hm).1.append ((wellFormed_cons_iff (by decide)).mpr hv)

end CekatEvents.JsonText
