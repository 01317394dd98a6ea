/-
  CekatEvents.JsonText.Reread — reading back what was written, in a dialect of fewer numbers.

  A writer of one language and a reader of another, or of the same, agree on strings and differ in the
  numbers they take.  What is written has the levels of the value, and as many numbers.

  Main result: `text_written_iff` — the reader takes what is written exactly when it takes the numbers.
-/
import CekatEvents.JsonText.Dialects
import CekatEvents.JsonText.Texts

namespace CekatEvents.JsonText

open CekatEvents.Encoding

/-! ## §1. Levels. -/

/-- A value is inside as many containers as there are levels above it. -/
theorem height_le_nesting (t : Ast) : t.height ≤ t.nesting := by
  induction t using Ast.induction with
  | null => exact Nat.le_refl 0
  | bool b => exact Nat.le_refl 0
  | nonFinite c => exact Nat.le_refl 0
  | num n => exact Nat.le_refl 0
  | str ps => exact Nat.le_refl 0
  | arr xs ih =>
      apply heightElems_le.mpr
      intro x hx
      have hle := nestingElems_le.mp (Nat.le_refl (nestingElems xs)) x hx
      exact Nat.succ_le_succ (Nat.le_trans (ih x hx) hle)
  | obj ms ih =>
      apply heightMembers_le.mpr
      intro m hm
      have hle := nestingMembers_le.mp (Nat.le_refl (nestingMembers ms)) m hm
      exact Nat.succ_le_succ (Nat.le_trans (ih m hm) hle)

/-- What is read, member by member, has the levels of the tree. -/
theorem nesting_raw_le {ν : Type} {D : Decoder ν} {t : Ast} {n : Nat} : (t.raw D).nesting ≤ n ↔ t.nesting ≤ n := by
  induction t using Ast.induction generalizing n with
  | null => exact Iff.rfl
  | bool b => exact Iff.rfl
  | nonFinite c => exact Iff.rfl
  | num k => exact Iff.rfl
  | str ps => exact Iff.rfl
  | arr xs ih =>
      show valuesNesting (rawElems D xs) + 1 ≤ n ↔ nestingElems xs + 1 ≤ n
      cases n with
      | zero => exact iff_of_false (Nat.not_succ_le_zero _) (Nat.not_succ_le_zero _)
      | succ k =>
          rw [Nat.succ_le_succ_iff, Nat.succ_le_succ_iff, rawElems_eq_map, valuesNesting_le, nestingElems_le,
            List.forall_mem_map]
          exact forall₂_congr fun x hx => ih x hx
  | obj ms ih =>
      show membersNesting (rawMembers D ms) + 1 ≤ n ↔ nestingMembers ms + 1 ≤ n
      cases n with
      | zero => exact iff_of_false (Nat.not_succ_le_zero _) (Nat.not_succ_le_zero _)
      | succ k =>
          rw [Nat.succ_le_succ_iff, Nat.succ_le_succ_iff, rawMembers_eq_map, membersNesting_le, nestingMembers_le,
            List.forall_mem_map]
          exact forall₂_congr fun m hm => ih m hm

section Written

variable {ν : Type} {E : Encoder ν}

/-- **What is written has the levels of the value.** -/
theorem nesting_encode_le {v : Value ν} {n : Nat} (h : v.nesting ≤ n) : (v.encode E).nesting ≤ n := by
  induction v using Value.induction generalizing n with
  | null => exact Nat.zero_le n
  | bool b => exact Nat.zero_le n
  | num k => exact Nat.zero_le n
  | str s => exact Nat.zero_le n
  | arr xs ih =>
      obtain ⟨k, rfl, hxs⟩ := nesting_arr_le.mp h
      show nestingElems (encodeElems E xs) + 1 ≤ k + 1
      rw [encodeElems_eq_map]
      apply Nat.succ_le_succ
      apply nestingElems_le.mpr
      rw [List.forall_mem_map]
      intro x hx
      exact ih x hx (hxs x hx)
  | obj ms ih =>
      obtain ⟨k, rfl, hms⟩ := nesting_obj_le.mp h
      show nestingMembers (encodeMembers E ms) + 1 ≤ k + 1
      rw [encodeMembers_eq_map]
      apply Nat.succ_le_succ
      apply nestingMembers_le.mpr
      rw [List.forall_mem_map]
      intro m hm
      exact ih m hm (hms m hm)

/-! ## §2. Numbers. -/

/-- Numbers that are replaced alike. -/
theorem map_congr_of_numbers {μ : Type} {f g : ν → μ} {N : ν → Prop} (hfg : ∀ n, N n → f n = g n)
    {v : Value ν} (h : v.Numbers N) : v.map f = v.map g := by
  induction v using Value.induction with
  | null => rfl
  | bool b => rfl
  | num n => exact congrArg Value.num (hfg n h)
  | str s => rfl
  | arr xs ih =>
      have hxs := numbersElem_iff.mp h
      show Value.arr (mapElems f xs) = .arr (mapElems g xs)
      rw [mapElems_eq_map, mapElems_eq_map]
      exact congrArg Value.arr (List.map_congr_left fun x hx => ih x hx (hxs x hx))
  | obj ms ih =>
      have hms := numbersMember_iff.mp h
      show Value.obj (mapMembers f ms) = .obj (mapMembers g ms)
      rw [mapMembers_eq_map, mapMembers_eq_map]
      apply congrArg Value.obj
      apply List.map_congr_left
      intro m hm
      rw [ih m hm (hms m hm)]

/-- Conditions that are the same on the numbers there are. -/
theorem numbers_congr {N P Q : ν → Prop} (hPQ : ∀ n, N n → (P n ↔ Q n)) {v : Value ν} (h : v.Numbers N) :
    v.Numbers P ↔ v.Numbers Q := by
  induction v using Value.induction with
  | null => exact Iff.rfl
  | bool b => exact Iff.rfl
  | num n => exact hPQ n h
  | str s => exact Iff.rfl
  | arr xs ih =>
      have hxs := numbersElem_iff.mp h
      show NumbersElem P xs ↔ NumbersElem Q xs
      rw [numbersElem_iff, numbersElem_iff]
      exact forall₂_congr fun x hx => ih x hx (hxs x hx)
  | obj ms ih =>
      have hms := numbersMember_iff.mp h
      show NumbersMember P ms ↔ NumbersMember Q ms
      rw [numbersMember_iff, numbersMember_iff]
      exact forall₂_congr fun m hm => ih m hm (hms m hm)

/-- Of what is written, a dialect may only refuse numbers. -/
theorem allowed_encode_iff {d : Dialect} (hpieces : E.PiecesWithin d) {v : Value ν} :
    (v.encode E).Allowed d ↔ v.Numbers fun n => d.numeralOk (E.num n) = true := by
  induction v using Value.induction with
  | null => exact Iff.rfl
  | bool b => exact Iff.rfl
  | num n => exact Iff.rfl
  | str s => exact iff_of_true (hpieces.string s) trivial
  | arr xs ih =>
      show AllowedElems d (encodeElems E xs) ↔ NumbersElem _ xs
      rw [allowedElems_iff, numbersElem_iff, encodeElems_eq_map, List.forall_mem_map]
      exact forall₂_congr ih
  | obj ms ih =>
      show AllowedMembers d (encodeMembers E ms) ↔ NumbersMember _ ms
      rw [allowedMembers_iff, numbersMember_iff, encodeMembers_eq_map, List.forall_mem_map]
      apply forall₂_congr
      intro m hm
      rw [← ih m hm]
      exact and_iff_right (hpieces.string m.1)

/-- **A text that is written is one of the dialect exactly when its numbers are**, and says what was
    written. -/
theorem text_written_iff {d : Dialect} (hpieces : E.PiecesWithin d) (hnum : ∀ n, (E.num n).WellFormed)
    {v : Value ν} {t : Ast} :
    Text d t (v.encode E).text ↔ t = v.encode E ∧ v.Numbers fun n => d.numeralOk (E.num n) = true := by
  -- the dialect that takes all numbers
  let wide : Dialect := { d with numeralOk := fun _ => true }
  have hwide : d.Within wide := ⟨fun _ _ _ _ h => h, fun _ _ => rfl, rfl⟩
  have hpiecesWide : E.PiecesWithin wide := by
    intro u
    rw [← hpieces u]
    cases E.piece u with
    | plain w => rfl
    | short c => rfl
    | hex a b c e => rfl
  have hwritten : Text wide (v.encode E) (v.encode E).text :=
    text_text (proper_encode ⟨hpiecesWide, fun n => ⟨hnum n, rfl⟩⟩ v)
  rw [text_restrict hwide, ← allowed_encode_iff hpieces]
  constructor
  · rintro ⟨ht, hok⟩
    have heq := text_unique ht hwritten
    exact ⟨heq, heq ▸ hok⟩
  · rintro ⟨rfl, hok⟩
    exact ⟨hwritten, hok⟩

end Written

end CekatEvents.JsonText
