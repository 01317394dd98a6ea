/-
  CekatEvents.JsonText.Number — the numbers that numerals stand for.

  `Numeral.value` is the rational number a numeral denotes.  `intNumeral` writes an integer, and
  `natDigits` the digits of a natural number, without a leading zero.
-/
import Mathlib.Data.Nat.Digits.Lemmas
import CekatEvents.JsonText.Value

namespace CekatEvents.JsonText

open CekatEvents.Encoding

/-! ## §1. Digits. -/

/-- The code unit of a decimal digit. -/
def digitUnit (d : Nat) : CodeUnit := (0x30 + d).toUInt16

/-- The digit of a code unit. -/
def unitDigit (u : CodeUnit) : Nat := u.toNat - 0x30

/-- The digits of a natural number. -/
def natDigits (n : Nat) : List CodeUnit :=
  if n = 0 then [unit '0'] else (Nat.digits 10 n).reverse.map digitUnit

/-- The number written by a list of digits. -/
def natValue (ds : List CodeUnit) : Nat := Nat.ofDigits 10 (ds.map unitDigit).reverse

theorem digitUnit_toNat {d : Nat} (h : d < 10) : (digitUnit d).toNat = 0x30 + d := by
  unfold digitUnit
  apply toNat_toUInt16
  omega

theorem unitDigit_digitUnit {d : Nat} (h : d < 10) : unitDigit (digitUnit d) = d := by
  unfold unitDigit
  rw [digitUnit_toNat h]
  omega

theorem isDigit_digitUnit {d : Nat} (h : d < 10) : isDigit (digitUnit d) = true := by
  rw [isDigit_toNat, digitUnit_toNat h]
  omega

/-- Writing digits and reading them again. -/
theorem unitDigit_map {ds : List Nat} (h : ∀ d ∈ ds, d < 10) :
    (ds.map digitUnit).map unitDigit = ds := by
  rw [List.map_map]
  conv_rhs => rw [← List.map_id ds]
  apply List.map_congr_left
  intro d hd
  exact unitDigit_digitUnit (h d hd)

theorem natValue_natDigits (n : Nat) : natValue (natDigits n) = n := by
  unfold natValue natDigits
  by_cases h : n = 0
  · rw [if_pos h, h]
    decide
  · rw [if_neg h, unitDigit_map, List.reverse_reverse, Nat.ofDigits_digits]
    intro d hd
    exact Nat.digits_lt_base (by decide) (List.mem_reverse.mp hd)

theorem natDigits_digits (n : Nat) : Digits (natDigits n) := by
  unfold natDigits
  by_cases h : n = 0
  · rw [if_pos h]
    exact ⟨List.cons_ne_nil _ _, by decide⟩
  · rw [if_neg h]
    constructor
    · rw [Ne, List.map_eq_nil_iff, List.reverse_eq_nil_iff]
      exact Nat.digits_ne_nil_iff_ne_zero.mpr h
    · intro u hu
      obtain ⟨d, hd, rfl⟩ := List.mem_map.mp hu
      exact isDigit_digitUnit (Nat.digits_lt_base (by decide) (List.mem_reverse.mp hd))

/-- There is no leading zero. -/
theorem natDigits_intPart (n : Nat) : IntPart (natDigits n) := by
  by_cases h : n = 0
  · left
    unfold natDigits
    rw [if_pos h]
  · right
    refine ⟨natDigits_digits n, ?_⟩
    have hne : Nat.digits 10 n ≠ [] := Nat.digits_ne_nil_iff_ne_zero.mpr h
    have hlast := Nat.getLast_digit_ne_zero 10 h
    unfold natDigits
    rw [if_neg h, List.head?_map, List.head?_reverse, List.getLast?_eq_getLast_of_ne_nil hne]
    intro heq
    have hunit : digitUnit ((Nat.digits 10 n).getLast hne) = unit '0' := by simpa using heq
    have hlt := Nat.digits_lt_base (b := 10) (by decide) (List.getLast_mem hne)
    have hnat := congrArg UInt16.toNat hunit
    rw [digitUnit_toNat hlt] at hnat
    have hzero : (unit '0').toNat = 0x30 := by decide
    omega

/-! ## §2. Values. -/

/-- The exponent that is written. -/
def expValue : Option Exponent → Int
  | none => 0
  | some e => if e.sign = some (unit '-') then -(natValue e.digits : Int) else natValue e.digits

/-- The absolute value of a numeral. -/
def Numeral.abs (n : Numeral) : ℚ :=
  natValue (n.int ++ n.frac.getD []) * (10 : ℚ) ^ (expValue n.exp - ((n.frac.getD []).length : Int))

/-- **The number a numeral denotes.** -/
def Numeral.value (n : Numeral) : ℚ := if n.neg then -n.abs else n.abs

/-- An integer as written. -/
def intNumeral (k : Int) : Numeral := ⟨decide (k < 0), natDigits k.natAbs, none, none⟩

theorem intNumeral_wellFormed (k : Int) : (intNumeral k).WellFormed := by
  refine ⟨natDigits_intPart _, ?_, ?_⟩
  · intro ds hds
    cases hds
  · intro e he
    cases he

/-- **An integer is written as itself.** -/
theorem intNumeral_value (k : Int) : (intNumeral k).value = k := by
  have habs : (intNumeral k).abs = (k.natAbs : ℚ) := by
    show (natValue (natDigits k.natAbs ++ []) : ℚ) * (10 : ℚ) ^ ((0 : Int) - ((0 : Nat) : Int)) = _
    rw [List.append_nil, natValue_natDigits]
    simp
  unfold Numeral.value
  rw [habs]
  show (if decide (k < 0) = true then _ else _) = _
  by_cases h : k < 0
  · rw [if_pos (decide_eq_true h)]
    have : (k.natAbs : ℤ) = -k := by omega
    rw [← Int.cast_natCast, this]
    push_cast
    ring
  · rw [if_neg (by simpa using h)]
    have : (k.natAbs : ℤ) = k := by omega
    rw [← Int.cast_natCast, this]

end CekatEvents.JsonText
