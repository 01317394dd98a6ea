/-
  CekatEvents.Arithmetic.Binary64 — the IEEE double.

  A finite double is a sign, a significand of at most 53 bits and an exponent, the significand as large
  as the exponent allows, so that every double has one representation.  The builders look at a double
  in one way only: whether it is a number other implementations hold exactly (`Double.Portable`).
-/
import Mathlib.Tactic
import Mathlib.Data.Rat.Floor

namespace CekatEvents.Arithmetic

/-! ## §1. Doubles. -/

/-- A finite double: `mant * 2 ^ exp`, negated when `neg`. -/
structure Finite where
  neg : Bool
  mant : Nat
  exp : Int
  mant_lt : mant < 2 ^ 53
  exp_ge : -1074 ≤ exp
  exp_le : exp ≤ 971
  normal : 2 ^ 52 ≤ mant ∨ exp = -1074
  deriving DecidableEq

/-- A double. -/
inductive Double where
  | nan
  | infinite (neg : Bool)
  | finite (x : Finite)
  deriving DecidableEq

/-- The absolute value of a finite double. -/
def Finite.abs (x : Finite) : ℚ := x.mant * (2 : ℚ) ^ x.exp

/-- Its value; the two zeros have the same. -/
def Finite.value (x : Finite) : ℚ := if x.neg then -x.abs else x.abs

/-! ## §2. Portable numbers. -/

/-- The largest integer up to which doubles hold every integer. -/
def maxSafeInteger : Nat := 9007199254740991

/-- An integral number beyond the safe integers. -/
def unsafeIntegral (q : ℚ) : Bool := q.isInt && decide ((maxSafeInteger : ℚ) < |q|)

/-- A finite double that is not integral beyond the safe integers. -/
def Finite.isPortable (x : Finite) : Bool := !unsafeIntegral x.value

/-- The portable number of a double. -/
def Double.portable? : Double → Option Finite
  | .finite x => if x.isPortable then some x else none
  | _ => none

/-- **A number that every implementation holds exactly**: finite, and within the safe integers where it
    is integral. -/
def Double.Portable (x : Double) : Prop :=
  ∃ y, x = .finite y ∧ ¬ ((∃ k : ℤ, y.value = k) ∧ (maxSafeInteger : ℚ) < |y.value|)

theorem unsafeIntegral_iff {q : ℚ} :
    unsafeIntegral q = true ↔ (∃ k : ℤ, q = k) ∧ (maxSafeInteger : ℚ) < |q| := by
  unfold unsafeIntegral
  rw [Bool.and_eq_true, decide_eq_true_eq]
  apply and_congr_left
  intro _
  unfold Rat.isInt
  rw [beq_iff_eq]
  constructor
  · intro h
    exact ⟨q.num, (Rat.den_eq_one_iff q).mp h |>.symm⟩
  · intro h
    obtain ⟨k, rfl⟩ := h
    exact Rat.den_intCast k

theorem portable?_eq_some_iff {x : Double} {y : Finite} :
    x.portable? = some y ↔ x = .finite y ∧ x.Portable := by
  cases x with
  | nan => simp [Double.portable?]
  | infinite neg => simp [Double.portable?]
  | finite z =>
      unfold Double.portable? Double.Portable Finite.isPortable
      rw [Option.ite_none_right_eq_some]
      simp only [Bool.not_eq_true', Double.finite.injEq, Option.some.injEq]
      rw [← Bool.not_eq_true, unsafeIntegral_iff]
      constructor
      · intro h
        exact ⟨h.2, z, rfl, h.1⟩
      · intro h
        obtain ⟨hzy, w, hzw, hw⟩ := h
        exact ⟨hzw ▸ hw, hzy⟩

theorem portable?_isSome_iff {x : Double} : x.portable?.isSome = true ↔ x.Portable := by
  rw [Option.isSome_iff_exists]
  constructor
  · intro h
    obtain ⟨y, hy⟩ := h
    exact (portable?_eq_some_iff.mp hy).2
  · intro h
    obtain ⟨y, hxy, -⟩ := id h
    exact ⟨y, portable?_eq_some_iff.mpr ⟨hxy, h⟩⟩

end CekatEvents.Arithmetic
