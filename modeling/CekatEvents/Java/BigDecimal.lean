/-
  CekatEvents.Java.BigDecimal — decimals and their texts (`java.math.BigDecimal`), as documented.

  `toString` writes digits and a point when the scale is not negative and the number not too small, and
  the scientific notation otherwise.  `stripTrailingZeros` throws when the scale that is left is no `int`.

  Main results:

    • `numeral_wellFormed`, `numeral_value` — the text of a decimal is a number of JSON and denotes it;
    • `bigDecimal?_numeral_iff` — the constructor reads it back, unless the exponent is no `int`;
    • `fits_or_leastZero` — which is so for one of the numbers that are sent;
    • `stripped_integral_iff` — what is left of a decimal shows whether it is an integer.
-/
import CekatEvents.Java.Jdk
import CekatEvents.JsonText.Number
import Mathlib.Data.Nat.MaxPowDiv

namespace CekatEvents.Java.BigDecimal

open CekatEvents.Encoding CekatEvents.JsonText

/-! ## §1. Values and texts. -/

/-- The number a decimal is. -/
def value (d : BigDecimal) : ℚ := d.unscaled * (10 : ℚ) ^ (-d.scale)

/-- The digits of the unscaled value. -/
def digits (d : BigDecimal) : List CodeUnit := natDigits d.unscaled.natAbs

/-- The exponent of the first digit. -/
def adjusted (d : BigDecimal) : Int := -d.scale + ((d.digits.length : Int) - 1)

/-- The digits, with zeros in front so that at least one stands before the point. -/
def padded (d : BigDecimal) : List CodeUnit :=
  List.replicate (d.scale.toNat + 1 - d.digits.length) (unit '0') ++ d.digits

/-- The number as it is written without an exponent. -/
def plainNumeral (d : BigDecimal) : Numeral :=
  let places := d.padded.length - d.scale.toNat
  ⟨decide (d.unscaled < 0), d.padded.take places,
    if d.scale = 0 then none else some (d.padded.drop places), none⟩

/-- The exponent as it is written, always with its sign. -/
def writtenExponent (n : Int) : Option Exponent :=
  if n = 0 then none
  else some ⟨unit 'E', some (if n < 0 then unit '-' else unit '+'), natDigits n.natAbs⟩

/-- The scientific notation: one digit before the point. -/
def scientificNumeral (d : BigDecimal) : Numeral :=
  ⟨decide (d.unscaled < 0), d.digits.take 1,
    if d.digits.length = 1 then none else some (d.digits.drop 1), writtenExponent d.adjusted⟩

/-- `toString`. -/
def numeral (d : BigDecimal) : Numeral :=
  if 0 ≤ d.scale ∧ -6 ≤ d.adjusted then d.plainNumeral else d.scientificNumeral

theorem zero_inRange : -2 ^ 31 ≤ (0 : Int) ∧ (0 : Int) ≤ maxInt := by
  unfold maxInt
  omega

/-- `new BigDecimal(BigInteger)`. -/
def ofInteger (n : Int) : BigDecimal := ⟨n, 0, zero_inRange⟩

@[simp] theorem ofInteger_scale (n : Int) : (ofInteger n).scale = 0 := rfl

@[simp] theorem ofInteger_unscaled (n : Int) : (ofInteger n).unscaled = n := rfl

/-- `BigDecimal.ZERO`. -/
def ZERO : BigDecimal := ofInteger 0

/-- `stripTrailingZeros`; none for the `ArithmeticException` of a scale that is no `int`. -/
def stripTrailingZeros (d : BigDecimal) : Option BigDecimal :=
  if d.unscaled = 0 then some ZERO
  else mk? (applySign (decide (d.unscaled < 0)) (d.unscaled.natAbs.divMaxPow 10))
    (d.scale - padicValNat 10 d.unscaled.natAbs)

/-! ## §2. The text is a number of JSON. -/

theorem digits_length_pos (d : BigDecimal) : 0 < d.digits.length :=
  List.length_pos_of_ne_nil (natDigits_digits _).1

theorem padded_length (d : BigDecimal) :
    d.padded.length = max (d.scale.toNat + 1) d.digits.length := by
  unfold padded
  rw [List.length_append, List.length_replicate]
  omega

theorem padded_digits (d : BigDecimal) : ∀ u ∈ d.padded, isDigit u = true := by
  unfold padded
  intro u hu
  rcases List.mem_append.mp hu with hu | hu
  · rw [(List.mem_replicate.mp hu).2]
    decide
  · exact (natDigits_digits _).2 u hu

/-- Digits that begin with no zero may be cut after any of them. -/
theorem intPart_take {ds : List CodeUnit} (h : IntPart ds) {n : Nat} (hn : 0 < n) :
    IntPart (ds.take n) := by
  rcases h with rfl | ⟨⟨hne, hds⟩, hhead⟩
  · left
    exact List.take_of_length_le hn
  · right
    refine ⟨⟨?_, fun u hu => hds u (List.mem_of_mem_take hu)⟩, ?_⟩
    · rw [Ne, List.take_eq_nil_iff]
      rintro (hzero | hnil)
      · omega
      · exact hne hnil
    · rw [List.head?_take, if_neg hn.ne']
      exact hhead

theorem plainNumeral_int (d : BigDecimal) : IntPart d.plainNumeral.int := by
  show IntPart (d.padded.take (d.padded.length - d.scale.toNat))
  have hlen := d.padded_length
  by_cases hlong : d.scale.toNat + 1 ≤ d.digits.length
  · -- there are digits enough, and no zeros are put in front of them
    have heq : d.padded = d.digits := by
      unfold padded
      rw [Nat.sub_eq_zero_of_le hlong]
      rfl
    rw [heq] at hlen ⊢
    exact intPart_take (natDigits_intPart _) (by omega)
  · left
    have hplaces : d.padded.length - d.scale.toNat = 1 := by omega
    rw [hplaces]
    unfold padded
    obtain ⟨k, hk⟩ : ∃ k, d.scale.toNat + 1 - d.digits.length = k + 1 :=
      ⟨d.scale.toNat - d.digits.length, by omega⟩
    rw [hk]
    rfl

theorem writtenExponent_wellFormed (n : Int) : ∀ e ∈ writtenExponent n, e.WellFormed := by
  intro e he
  unfold writtenExponent at he
  rw [Option.mem_def, Option.ite_none_left_eq_some, Option.some.injEq] at he
  obtain ⟨-, rfl⟩ := he
  refine ⟨.inr rfl, ?_, natDigits_digits _⟩
  intro s hs
  rw [Option.mem_def, Option.some.injEq] at hs
  subst hs
  split_ifs
  · exact .inr rfl
  · exact .inl rfl

/-- **The text of a decimal is a number of JSON.** -/
theorem numeral_wellFormed (d : BigDecimal) : d.numeral.WellFormed := by
  unfold numeral
  split_ifs with h
  · refine ⟨d.plainNumeral_int, ?_, by intro e he; cases he⟩
    intro ds hds
    obtain ⟨hscale, rfl⟩ : ¬ d.scale = 0 ∧ d.padded.drop (d.padded.length - d.scale.toNat) = ds := by
      simpa [plainNumeral] using hds
    have hlen := d.padded_length
    refine ⟨?_, fun u hu => d.padded_digits u (List.mem_of_mem_drop hu)⟩
    rw [Ne, List.drop_eq_nil_iff]
    omega
  · refine ⟨intPart_take (natDigits_intPart _) Nat.one_pos, ?_, writtenExponent_wellFormed _⟩
    intro ds hds
    obtain ⟨hone, rfl⟩ : ¬ d.digits.length = 1 ∧ d.digits.drop 1 = ds := by
      simpa [scientificNumeral] using hds
    have hpos := d.digits_length_pos
    refine ⟨?_, fun u hu => (natDigits_digits _).2 u (List.mem_of_mem_drop hu)⟩
    rw [Ne, List.drop_eq_nil_iff]
    omega

/-! ## §3. What the text denotes. -/

/-- Zeros in front do not count. -/
theorem natValue_zeros (n : Nat) (ds : List CodeUnit) :
    natValue (List.replicate n (unit '0') ++ ds) = natValue ds := by
  unfold natValue
  have hzero : unitDigit (unit '0') = 0 := by decide
  rw [List.map_append, List.map_replicate, hzero, List.reverse_append, List.reverse_replicate,
    Nat.ofDigits_append, Nat.ofDigits_replicate_zero, Nat.mul_zero, Nat.add_zero]

theorem expValue_writtenExponent (n : Int) : expValue (writtenExponent n) = n := by
  have hsign : unit '+' ≠ unit '-' := by decide
  unfold writtenExponent
  split_ifs with hzero hneg
  · rw [hzero]
    rfl
  · show (if some (unit '-') = some (unit '-') then -(natValue (natDigits n.natAbs) : Int)
      else natValue (natDigits n.natAbs)) = n
    rw [if_pos rfl, natValue_natDigits]
    omega
  · show (if some (unit '+') = some (unit '-') then -(natValue (natDigits n.natAbs) : Int)
      else natValue (natDigits n.natAbs)) = n
    rw [if_neg (by simpa using hsign), natValue_natDigits]
    omega

/-- The digits of the text, its exponent and the places behind its point. -/
structure Denotes (d : BigDecimal) (n : Numeral) : Prop where
  neg : n.neg = decide (d.unscaled < 0)
  digits : natValue (n.int ++ n.frac.getD []) = d.unscaled.natAbs
  scale : ((n.frac.getD []).length : Int) - expValue n.exp = d.scale

theorem plainNumeral_denotes (d : BigDecimal) (hscale : 0 ≤ d.scale) : Denotes d d.plainNumeral := by
  have hlen := d.padded_length
  have hvalue : natValue d.padded = d.unscaled.natAbs := by
    unfold padded
    rw [natValue_zeros]
    exact natValue_natDigits _
  have hfrac : d.plainNumeral.frac.getD [] = d.padded.drop (d.padded.length - d.scale.toNat) := by
    show (if d.scale = 0 then none else some _).getD [] = _
    split_ifs with hzero
    · symm
      rw [Option.getD_none, List.drop_eq_nil_iff, hzero]
      exact Nat.le_refl _
    · rfl
  refine ⟨rfl, ?_, ?_⟩
  · rw [hfrac]
    show natValue (d.padded.take _ ++ _) = _
    rw [List.take_append_drop, hvalue]
  · rw [hfrac, List.length_drop]
    show _ - (0 : Int) = _
    omega

theorem scientificNumeral_denotes (d : BigDecimal) : Denotes d d.scientificNumeral := by
  have hpos := d.digits_length_pos
  have hfrac : d.scientificNumeral.frac.getD [] = d.digits.drop 1 := by
    show (if d.digits.length = 1 then none else some _).getD [] = _
    split_ifs with hone
    · symm
      rw [Option.getD_none, List.drop_eq_nil_iff]
      omega
    · rfl
  refine ⟨rfl, ?_, ?_⟩
  · rw [hfrac]
    show natValue (d.digits.take 1 ++ _) = _
    rw [List.take_append_drop]
    exact natValue_natDigits _
  · rw [hfrac, List.length_drop]
    show _ - expValue (writtenExponent d.adjusted) = _
    rw [expValue_writtenExponent]
    unfold adjusted
    omega

theorem numeral_denotes (d : BigDecimal) : Denotes d d.numeral := by
  unfold numeral
  split_ifs with h
  · exact d.plainNumeral_denotes h.1
  · exact d.scientificNumeral_denotes

theorem applySign_natAbs (n : Int) : applySign (decide (n < 0)) n.natAbs = n := by
  unfold applySign
  by_cases h : n < 0
  · rw [decide_eq_true h, if_pos rfl]
    omega
  · rw [decide_eq_false h, if_neg Bool.false_ne_true]
    omega

/-- **The text of a decimal denotes it.** -/
theorem numeral_value (d : BigDecimal) : d.numeral.value = d.value := by
  obtain ⟨hneg, hdigits, hscale⟩ := d.numeral_denotes
  have habs : d.numeral.abs = d.unscaled.natAbs * (10 : ℚ) ^ (-d.scale) := by
    unfold Numeral.abs
    rw [hdigits, ← hscale, neg_sub]
  have hsign : (d.unscaled : ℚ) = if d.unscaled < 0 then -(d.unscaled.natAbs : ℚ) else d.unscaled.natAbs := by
    rw [← Int.cast_natCast]
    split_ifs
    · rw [← Int.cast_neg, show -(d.unscaled.natAbs : ℤ) = d.unscaled by omega]
    · rw [show (d.unscaled.natAbs : ℤ) = d.unscaled by omega]
  unfold Numeral.value value
  rw [habs, hneg, hsign]
  simp only [decide_eq_true_eq, ite_mul, neg_mul]

/-- The exponent that is written is an `int`. -/
def ExponentFits (d : BigDecimal) : Prop := expValue d.numeral.exp ≤ maxInt

theorem exponentValue_eq (e : Option Exponent) : exponentValue e = expValue e := by
  cases e with
  | none => rfl
  | some e =>
      show applySign _ _ = if _ then _ else _
      unfold applySign
      by_cases h : e.sign = some (unit '-')
      · rw [if_pos h, if_pos (by rw [h]; rfl)]
        rfl
      · rw [if_neg h, if_neg (by simpa using h)]
        rfl

/-- Small exponents are never out of range. -/
theorem le_expValue (d : BigDecimal) : -maxInt ≤ expValue d.numeral.exp := by
  have hscale := d.numeral_denotes.scale
  have hrange := d.inRange.2
  have hlen := Int.natCast_nonneg (d.numeral.frac.getD []).length
  unfold maxInt at hrange ⊢
  omega

/-- **The constructor reads the text of a decimal back, exactly when the exponent is an `int`.** -/
theorem bigDecimal?_numeral_iff (d : BigDecimal) : bigDecimal? d.numeral = some d ↔ d.ExponentFits := by
  obtain ⟨hneg, hdigits, hscale⟩ := d.numeral_denotes
  have hunscaled : applySign d.numeral.neg (asciiValue (d.numeral.int ++ fracDigits d.numeral))
      = d.unscaled := by
    rw [hneg]
    show applySign _ (natValue (d.numeral.int ++ d.numeral.frac.getD [])) = _
    rw [hdigits, applySign_natAbs]
  have hplaces : ((fracDigits d.numeral).length : Int) - exponentValue d.numeral.exp = d.scale := by
    rw [exponentValue_eq]
    exact hscale
  unfold bigDecimal? ExponentFits
  rw [hunscaled, hplaces, exponentValue_eq, Option.ite_none_right_eq_some, and_iff_right d.le_expValue, mk?,
    dif_pos d.inRange, and_iff_left rfl]

/-! ## §4. Trailing zeros. -/

/-- A decimal whose last digit is no zero, or zero itself. -/
def Stripped (d : BigDecimal) : Prop := d = ZERO ∨ ¬ (10 ∣ d.unscaled)

theorem value_ofNat (d : BigDecimal) (k : Nat) (h : d.scale = k) :
    d.value = d.unscaled / (10 : ℚ) ^ k := by
  unfold value
  rw [h, zpow_neg, zpow_natCast, div_eq_mul_inv]

/-- **A stripped decimal is an integer exactly when its scale is not positive.** -/
theorem stripped_integral_iff {d : BigDecimal} (h : d.Stripped) :
    (∃ k : ℤ, d.value = k) ↔ d.scale ≤ 0 := by
  constructor
  · rintro ⟨k, hk⟩
    by_contra hpos
    rcases h with rfl | h
    · exact hpos (Int.le_refl 0)
    · obtain ⟨n, hn⟩ := Int.eq_ofNat_of_zero_le (show 0 ≤ d.scale by omega)
      rw [d.value_ofNat n hn, div_eq_iff (by positivity)] at hk
      have hmul : d.unscaled = k * 10 ^ n := by exact_mod_cast hk
      obtain ⟨m, rfl⟩ := Nat.exists_eq_succ_of_ne_zero (show n ≠ 0 by omega)
      apply h
      rw [hmul, pow_succ]
      exact ⟨k * 10 ^ m, by ring⟩
  · intro hscale
    obtain ⟨n, hn⟩ := Int.eq_ofNat_of_zero_le (show 0 ≤ -d.scale by omega)
    refine ⟨d.unscaled * 10 ^ n, ?_⟩
    unfold value
    rw [hn, zpow_natCast]
    push_cast
    rfl

/-- The unscaled value is what is left of it times the power of ten that was taken away. -/
theorem unscaled_eq (d : BigDecimal) :
    d.unscaled = applySign (decide (d.unscaled < 0)) (d.unscaled.natAbs.divMaxPow 10)
      * 10 ^ padicValNat 10 d.unscaled.natAbs := by
  have hmul := Nat.divMaxPow_mul_pow_padicValNat 10 d.unscaled.natAbs
  conv_lhs => rw [← applySign_natAbs d.unscaled, ← hmul]
  unfold applySign
  split_ifs
  · push_cast
    ring
  · push_cast
    ring

theorem not_dvd_applySign {neg : Bool} {n : Nat} (h : ¬ 10 ∣ n) : ¬ (10 : Int) ∣ applySign neg n := by
  unfold applySign
  split_ifs
  · rw [Int.dvd_neg]
    omega
  · omega

/-- **What is left of a decimal has the same value, and no zero at its end.** -/
theorem stripTrailingZeros_spec {d s : BigDecimal} (h : d.stripTrailingZeros = some s) :
    s.value = d.value ∧ s.Stripped := by
  unfold stripTrailingZeros at h
  split_ifs at h with hzero
  · cases h
    refine ⟨?_, .inl rfl⟩
    unfold value
    rw [hzero]
    show ((0 : Int) : ℚ) * _ = _
    simp
  · unfold mk? at h
    rw [Option.dite_none_right_eq_some] at h
    obtain ⟨hrange, h⟩ := h
    cases h
    refine ⟨?_, .inr (not_dvd_applySign (Nat.not_dvd_divMaxPow (by decide) (by omega)))⟩
    unfold value
    conv_rhs => rw [d.unscaled_eq]
    rw [neg_sub, zpow_sub₀ (by norm_num), zpow_natCast, zpow_neg]
    push_cast
    field_simp

/-- Every scale is at least the least `int`. -/
theorem stripTrailingZeros_eq_none_iff {d : BigDecimal} : d.stripTrailingZeros = none ↔
    d.unscaled ≠ 0 ∧ d.scale - padicValNat 10 d.unscaled.natAbs < -2 ^ 31 := by
  have hrange := d.inRange
  unfold stripTrailingZeros
  split_ifs with hzero
  · simp [hzero]
  · unfold mk?
    rw [dite_eq_right_iff, and_iff_right hzero]
    constructor
    · intro h
      by_contra hle
      cases h ⟨by omega, by omega⟩
    · intro h hfits
      omega

/-- **A decimal that cannot be stripped is a large integer.** -/
theorem overflow_large {d : BigDecimal} (h : d.stripTrailingZeros = none) :
    (∃ k : ℤ, d.value = k) ∧ (10 : ℚ) ^ 400 ≤ |d.value| := by
  obtain ⟨hne, hscale⟩ := stripTrailingZeros_eq_none_iff.mp h
  obtain ⟨n, hn⟩ := Int.eq_ofNat_of_zero_le
    (show 0 ≤ -(d.scale - padicValNat 10 d.unscaled.natAbs) by omega)
  have hvalue : d.value = applySign (decide (d.unscaled < 0)) (d.unscaled.natAbs.divMaxPow 10) * (10 : ℚ) ^ n := by
    unfold value
    conv_lhs => rw [d.unscaled_eq]
    rw [← zpow_natCast (10 : ℚ) n, ← hn, neg_sub, zpow_sub₀ (by norm_num), zpow_natCast, zpow_neg]
    push_cast
    field_simp
  constructor
  · refine ⟨applySign (decide (d.unscaled < 0)) (d.unscaled.natAbs.divMaxPow 10) * 10 ^ n, ?_⟩
    rw [hvalue]
    push_cast
    rfl
  · have hone : (1 : ℚ) ≤ |((applySign (decide (d.unscaled < 0)) (d.unscaled.natAbs.divMaxPow 10) : Int) : ℚ)| := by
      rw [← Int.cast_abs]
      have hne0 : applySign (decide (d.unscaled < 0)) (d.unscaled.natAbs.divMaxPow 10) ≠ 0 := by
        intro hzero
        apply hne
        rw [d.unscaled_eq, hzero, zero_mul]
      exact_mod_cast Int.one_le_abs hne0
    rw [hvalue, abs_mul, abs_of_nonneg (show (0 : ℚ) ≤ 10 ^ n by positivity)]
    calc (10 : ℚ) ^ 400 ≤ 10 ^ n := pow_le_pow_right₀ (by norm_num) (by omega)
      _ = 1 * 10 ^ n := (one_mul _).symm
      _ ≤ _ := mul_le_mul_of_nonneg_right hone (by positivity)

/-! ## §5. Exponents that are no `int`. -/

/-- Zero of the least scale: its text is `0E+2147483648`. -/
def leastZero : BigDecimal := ⟨0, -2 ^ 31, by decide⟩

/-- An integer is written without an exponent. -/
theorem numeral_integer (n : Int) : numeral (ofInteger n) = intNumeral n := by
  have hpos := digits_length_pos (ofInteger n)
  have hplain : 0 ≤ (ofInteger n).scale ∧ -6 ≤ (ofInteger n).adjusted := by
    unfold adjusted
    rw [ofInteger_scale]
    omega
  have hpadded : (ofInteger n).padded = natDigits n.natAbs := by
    unfold padded
    rw [ofInteger_scale, Nat.sub_eq_zero_of_le (show (0 : Int).toNat + 1 ≤ _ from hpos)]
    rfl
  unfold numeral
  rw [if_pos hplain]
  unfold plainNumeral intNumeral
  rw [hpadded]
  simp only [ofInteger_scale, Int.toNat_zero, Nat.sub_zero, List.take_length, List.drop_length]
  rfl

/-- A decimal without a positive exponent is written with a small one. -/
theorem fits_of_scale_nonneg {d : BigDecimal} (h : 0 ≤ d.scale) : d.ExponentFits := by
  unfold ExponentFits numeral
  split_ifs with hplain
  · exact show (0 : Int) ≤ maxInt by decide
  · have hvalue : expValue d.scientificNumeral.exp = d.adjusted := expValue_writtenExponent _
    rw [hvalue]
    unfold maxInt
    omega

/-- There are no more digits than the number needs. -/
theorem pow_le_of_digits {n : Nat} (h : n ≠ 0) : 10 ^ ((natDigits n).length - 1) ≤ n := by
  have hlen : (natDigits n).length = (Nat.digits 10 n).length := by
    unfold natDigits
    rw [if_neg h, List.length_map, List.length_reverse]
  rw [hlen]
  have hle := Nat.base_pow_length_digits_le 10 n (by decide) h
  have hpos : 0 < (Nat.digits 10 n).length := List.length_pos_of_ne_nil (Nat.digits_ne_nil_iff_ne_zero.mpr h)
  obtain ⟨k, hk⟩ := Nat.exists_eq_succ_of_ne_zero hpos.ne'
  rw [hk, pow_succ, Nat.mul_comm] at hle
  rw [hk]
  exact Nat.le_of_mul_le_mul_left hle (by decide)

/-- **Of the numbers within the limits, only zero of the least scale has an exponent that is no `int`.** -/
theorem fits_or_leastZero {d : BigDecimal}
    (h : ¬ ((∃ k : ℤ, d.value = k) ∧ (10 : ℚ) ^ 16 ≤ |d.value|)) : d.ExponentFits ∨ d = leastZero := by
  by_cases hfits : d.ExponentFits
  · exact .inl hfits
  · right
    have hlow := d.inRange.1
    -- the text has an exponent, and the scale is negative
    have hexp : ¬ (0 ≤ d.scale ∧ -6 ≤ d.adjusted) ∧ maxInt < d.adjusted := by
      unfold ExponentFits numeral at hfits
      split_ifs at hfits with hplain
      · exact absurd (show (0 : Int) ≤ maxInt by decide) hfits
      · refine ⟨hplain, ?_⟩
        have hvalue : expValue d.scientificNumeral.exp = d.adjusted := expValue_writtenExponent _
        rw [hvalue] at hfits
        omega
    obtain ⟨hplain, hlarge⟩ := hexp
    have hscale : d.scale < 0 := by
      unfold maxInt at hlarge
      omega
    by_cases hzero : d.unscaled = 0
    · have hlen : d.digits.length = 1 := by
        unfold digits
        rw [hzero]
        rfl
      have hleast : d.scale = -2 ^ 31 := by
        unfold adjusted maxInt at hlarge
        rw [hlen] at hlarge
        omega
      obtain ⟨unscaled, scale, hrange⟩ := d
      subst hzero
      subst hleast
      rfl
    · exfalso
      apply h
      obtain ⟨n, hn⟩ := Int.eq_ofNat_of_zero_le (show 0 ≤ -d.scale by omega)
      have hvalue : d.value = ((d.unscaled * 10 ^ n : ℤ) : ℚ) := by
        unfold value
        rw [hn, zpow_natCast]
        push_cast
        rfl
      refine ⟨⟨_, hvalue⟩, ?_⟩
      have hdigits := pow_le_of_digits (show d.unscaled.natAbs ≠ 0 by omega)
      have hlen : 16 ≤ (d.digits.length - 1) + n := by
        unfold adjusted maxInt at hlarge
        omega
      have hnat : 10 ^ 16 ≤ d.unscaled.natAbs * 10 ^ n :=
        calc 10 ^ 16 ≤ 10 ^ ((d.digits.length - 1) + n) := Nat.pow_le_pow_right (by decide) hlen
          _ = 10 ^ (d.digits.length - 1) * 10 ^ n := pow_add _ _ _
          _ ≤ d.unscaled.natAbs * 10 ^ n := Nat.mul_le_mul_right _ hdigits
      have habs : |d.unscaled * 10 ^ n| = ((d.unscaled.natAbs * 10 ^ n : ℕ) : ℤ) := by
        rw [Int.abs_eq_natAbs, Int.natAbs_mul, Int.natAbs_pow]
        rfl
      rw [hvalue, ← Int.cast_abs, habs, Int.cast_natCast]
      exact_mod_cast hnat

/-- The text of zero of the least scale is no decimal for the constructor. -/
theorem leastZero_not_fits : bigDecimal? leastZero.numeral = none := by
  decide

end CekatEvents.Java.BigDecimal
