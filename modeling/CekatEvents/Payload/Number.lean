/-
  CekatEvents.Payload.Number — the numbers of the properties.

  The builders let two kinds through: integers, written as decimal digits, and finite doubles.  What text
  a language writes for a double is a parameter of the models that do not look at it, `FloatText`.
  `readDouble` is the double that a number is read as.
-/
import CekatEvents.Arithmetic.Rounding
import CekatEvents.JsonText.Number

namespace CekatEvents.Payload

open CekatEvents.Arithmetic CekatEvents.Encoding CekatEvents.JsonText

/-! ## §1. Texts of numbers. -/

theorem numeral_abs_nonneg (n : Numeral) : 0 ≤ n.abs := by
  unfold Numeral.abs
  positivity

/-- **The double a number is read as**: the nearest one, with the sign that is written. -/
def readDouble (n : Numeral) : Double := nearest n.neg n.abs (numeral_abs_nonneg n)

/-- A number of a body. -/
inductive Number where
  | integer (n : Int)
  | float (x : Finite)

/-- The text of a finite double: a number of JSON. -/
structure FloatText where
  text : Finite → Numeral
  wellFormed : ∀ x, (text x).WellFormed

/-- Reading the text of a double gives the double back, up to the sign of zero. -/
def FloatText.ReadsBack (floats : FloatText) : Prop :=
  ∀ x, ∃ y, readDouble (floats.text x) = .finite y ∧ y.value = x.value

/-- What is written for a number. -/
def Number.numeral (floats : FloatText) : Number → Numeral
  | .integer n => intNumeral n
  | .float x => floats.text x

theorem Number.numeral_wellFormed (floats : FloatText) (n : Number) :
    (n.numeral floats).WellFormed := by
  cases n with
  | integer n => exact intNumeral_wellFormed n
  | float x => exact floats.wellFormed x

/-! ## §2. Exact texts. -/

/-- The value of a double written out: an integer, or one divided by a power of ten. -/
def exactNumeral (x : Finite) : Numeral :=
  if 0 ≤ x.exp then ⟨x.neg, natDigits (x.mant * 2 ^ x.exp.toNat), none, none⟩
  else ⟨x.neg, natDigits (x.mant * 5 ^ (-x.exp).toNat), none,
    some ⟨unit 'e', some (unit '-'), natDigits (-x.exp).toNat⟩⟩

theorem exactNumeral_wellFormed (x : Finite) : (exactNumeral x).WellFormed := by
  unfold exactNumeral
  split_ifs
  · refine ⟨natDigits_intPart _, ?_, ?_⟩
    · intro ds hds
      cases hds
    · intro e he
      cases he
  · refine ⟨natDigits_intPart _, ?_, ?_⟩
    · intro ds hds
      cases hds
    · intro e he
      cases he
      refine ⟨.inl rfl, ?_, natDigits_digits _⟩
      intro s hs
      cases hs
      exact .inr rfl

theorem exactNumeral_abs (x : Finite) : (exactNumeral x).abs = x.abs := by
  unfold exactNumeral
  split_ifs with h
  · obtain ⟨k, hk⟩ := Int.eq_ofNat_of_zero_le h
    show (natValue (natDigits _ ++ []) : ℚ) * (10 : ℚ) ^ ((0 : Int) - ((0 : Nat) : Int)) = _
    rw [List.append_nil, natValue_natDigits]
    unfold Finite.abs
    rw [hk]
    simp
  · obtain ⟨k, hk⟩ : ∃ k : Nat, x.exp = -k := ⟨(-x.exp).toNat, by omega⟩
    have hexp : expValue (some ⟨unit 'e', some (unit '-'), natDigits (-x.exp).toNat⟩) = -(k : Int) := by
      show (if some (unit '-') = some (unit '-') then -(natValue (natDigits (-x.exp).toNat) : Int)
        else (natValue (natDigits (-x.exp).toNat) : Int)) = _
      rw [if_pos rfl, natValue_natDigits]
      omega
    show (natValue (natDigits _ ++ []) : ℚ) * (10 : ℚ) ^ (expValue _ - ((0 : Nat) : Int)) = _
    rw [List.append_nil, natValue_natDigits, hexp]
    unfold Finite.abs
    rw [hk, show (- -(k : Int)).toNat = k by omega, Nat.cast_zero, sub_zero, zpow_neg, zpow_neg,
      zpow_natCast, zpow_natCast]
    push_cast
    rw [show (10 : ℚ) = 5 * 2 by norm_num, mul_pow, mul_inv]
    field_simp

/-- Doubles by their exact values. -/
def exactText : FloatText := ⟨exactNumeral, exactNumeral_wellFormed⟩

/-- **An exact text is read back.** -/
theorem exactText_readsBack : exactText.ReadsBack := by
  intro x
  obtain ⟨y, hy, hneg, habs⟩ := nearest_self x
  have hsign : (exactNumeral x).neg = x.neg := by
    unfold exactNumeral
    split_ifs <;> rfl
  refine ⟨y, ?_, ?_⟩
  · rw [← hy]
    unfold readDouble
    show nearest (exactNumeral x).neg (exactNumeral x).abs _ = _
    congr 1
    exact exactNumeral_abs x
  · unfold Finite.value
    rw [hneg, habs]

end CekatEvents.Payload
