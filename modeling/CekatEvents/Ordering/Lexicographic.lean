/-
  CekatEvents.Ordering.Lexicographic — comparing texts by the numbers of their characters or bytes.

  Main result: `mergeSort_eq_self_iff` — sorting leaves a list as it is exactly when it was sorted.
-/
import Mathlib.Data.List.Basic

namespace CekatEvents.Ordering

/-- The first text is not behind the second one. -/
def lexLe : List Nat → List Nat → Bool
  | [], _ => true
  | _ :: _, [] => false
  | a :: s, b :: t => decide (a < b) || (a == b && lexLe s t)

theorem lexLe_total (s t : List Nat) : (lexLe s t || lexLe t s) = true := by
  induction s generalizing t with
  | nil => rfl
  | cons a s ih =>
      cases t with
      | nil => rfl
      | cons b t =>
          have hrest := ih t
          simp only [lexLe, Bool.or_eq_true, Bool.and_eq_true, decide_eq_true_eq, beq_iff_eq] at hrest ⊢
          rcases Nat.lt_trichotomy a b with hlt | rfl | hgt
          · exact .inl (.inl hlt)
          · exact hrest.imp (fun h => .inr ⟨rfl, h⟩) fun h => .inr ⟨rfl, h⟩
          · exact .inr (.inl hgt)

theorem lexLe_trans {s t u : List Nat} (hst : lexLe s t = true) (htu : lexLe t u = true) : lexLe s u = true := by
  induction s generalizing t u with
  | nil => rfl
  | cons a s ih =>
      cases t with
      | nil => cases hst
      | cons b t =>
          cases u with
          | nil => cases htu
          | cons c u =>
              simp only [lexLe, Bool.or_eq_true, Bool.and_eq_true, decide_eq_true_eq, beq_iff_eq] at hst htu ⊢
              rcases hst with hlt | ⟨rfl, hst⟩
              · exact .inl (by omega)
              · rcases htu with hlt | ⟨rfl, htu⟩
                · exact .inl hlt
                · exact .inr ⟨rfl, ih hst htu⟩

/-- The first byte string is not behind the second one. -/
def bytesLe (a b : List UInt8) : Bool := lexLe (a.map UInt8.toNat) (b.map UInt8.toNat)

theorem bytesLe_total (a b : List UInt8) : (bytesLe a b || bytesLe b a) = true := lexLe_total _ _

theorem bytesLe_trans {a b c : List UInt8} (hab : bytesLe a b = true) (hbc : bytesLe b c = true) :
    bytesLe a c = true :=
  lexLe_trans hab hbc

/-- **Sorting leaves a list as it is exactly when it was sorted.** -/
theorem mergeSort_eq_self_iff {α : Type} {le : α → α → Bool} (htrans : ∀ a b c, le a b → le b c → le a c)
    (htotal : ∀ a b, (le a b || le b a) = true) {l : List α} :
    l = l.mergeSort le ↔ l.Pairwise fun a b => le a b = true := by
  constructor
  · intro h
    rw [h]
    exact List.pairwise_mergeSort htrans htotal l
  · intro h
    exact (List.mergeSort_of_pairwise h).symm

end CekatEvents.Ordering
