/-
  CekatEvents.Arithmetic.Rounding — the double next to a rational number.

  `nearest` rounds to the nearest double, ties to the even significand, and to an infinity from halfway
  beyond the largest double on.  It is what reading a decimal number does in every language here.

  Main results:
    * `nearest_self`           — a double is the nearest to its own value;
    * `nearest_portable_iff`   — an integer rounds to a portable double exactly when it is a safe one.
-/
import Mathlib
import CekatEvents.Arithmetic.Binary64

namespace CekatEvents.Arithmetic

/-! ## §1. Rounding to integers. -/

/-- The natural number next to a rational that is not negative; the even one when there are two. -/
def roundHalfEven (q : ℚ) : Nat :=
  if q - ⌊q⌋ < 1 / 2 then ⌊q⌋.toNat
  else if 1 / 2 < q - ⌊q⌋ then ⌊q⌋.toNat + 1
  else if ⌊q⌋.toNat % 2 = 0 then ⌊q⌋.toNat
  else ⌊q⌋.toNat + 1

theorem roundHalfEven_natCast (n : Nat) : roundHalfEven n = n := by
  unfold roundHalfEven
  simp

/-- Rounding stays between the integers around. -/
theorem roundHalfEven_bounds {q : ℚ} {a b : Nat} (ha : (a : ℚ) ≤ q) (hb : q < b) :
    a ≤ roundHalfEven q ∧ roundHalfEven q ≤ b := by
  have hle : (a : ℤ) ≤ ⌊q⌋ := Int.le_floor.mpr (by exact_mod_cast ha)
  have hlt : ⌊q⌋ < (b : ℤ) := Int.floor_lt.mpr (by exact_mod_cast hb)
  unfold roundHalfEven
  split_ifs <;> omega

/-! ## §2. Rounding to doubles. -/

/-- The exponent of the doubles around a number that is not negative. -/
def ulpExp (q : ℚ) : Int := if q = 0 then -1074 else max (-1074) (Int.log 2 q - 52)

/-- The significand next to a number that is not negative, at that exponent. -/
def nearestMant (q : ℚ) : Nat := roundHalfEven (q / (2 : ℚ) ^ ulpExp q)

theorem ulpExp_ge (q : ℚ) : -1074 ≤ ulpExp q := by
  unfold ulpExp
  split_ifs
  · exact le_refl _
  · exact le_max_left _ _

theorem zpow_two_pos (e : Int) : (0 : ℚ) < 2 ^ e := by positivity

/-- The scaled number has at most 53 bits before the point. -/
theorem scaled_lt {q : ℚ} : q / (2 : ℚ) ^ ulpExp q < ((2 ^ 53 : Nat) : ℚ) := by
  rw [div_lt_iff₀ (zpow_two_pos _)]
  unfold ulpExp
  split_ifs with hq
  · rw [hq]
    positivity
  · have hlog : q < (2 : ℚ) ^ (Int.log 2 q + 1) := by
      exact_mod_cast Int.lt_zpow_succ_log_self (b := 2) (by decide) q
    apply lt_of_lt_of_le hlog
    have hcast : ((2 ^ 53 : Nat) : ℚ) = (2 : ℚ) ^ (53 : Int) := by norm_num
    rw [hcast, ← zpow_add₀ (by norm_num)]
    apply zpow_le_zpow_right₀ (by norm_num)
    omega

/-- Above the least exponent it has exactly 53. -/
theorem le_scaled {q : ℚ} (hq : 0 ≤ q) (h : -1074 < ulpExp q) :
    ((2 ^ 52 : Nat) : ℚ) ≤ q / (2 : ℚ) ^ ulpExp q := by
  rw [le_div_iff₀ (zpow_two_pos _)]
  unfold ulpExp at h ⊢
  split_ifs at h ⊢ with hzero
  · omega
  · have hpos : 0 < q := lt_of_le_of_ne hq (Ne.symm hzero)
    have hlog : (2 : ℚ) ^ Int.log 2 q ≤ q := by
      exact_mod_cast Int.zpow_log_le_self (b := 2) (by decide) hpos
    apply le_trans _ hlog
    have hcast : ((2 ^ 52 : Nat) : ℚ) = (2 : ℚ) ^ (52 : Int) := by norm_num
    rw [hcast, ← zpow_add₀ (by norm_num)]
    apply zpow_le_zpow_right₀ (by norm_num)
    omega

theorem nearestMant_le {q : ℚ} (hq : 0 ≤ q) : nearestMant q ≤ 2 ^ 53 := by
  have hzero : ((0 : Nat) : ℚ) ≤ q / (2 : ℚ) ^ ulpExp q := by
    rw [Nat.cast_zero]
    exact div_nonneg hq (zpow_two_pos _).le
  exact (roundHalfEven_bounds hzero scaled_lt).2

theorem nearestMant_normal {q : ℚ} (hq : 0 ≤ q) : 2 ^ 52 ≤ nearestMant q ∨ ulpExp q = -1074 := by
  by_cases h : ulpExp q = -1074
  · exact .inr h
  · left
    have hge := ulpExp_ge q
    exact (roundHalfEven_bounds (le_scaled hq (by omega)) scaled_lt).1

/-- **The double next to a number** that is not negative, with a sign. -/
def nearest (neg : Bool) (q : ℚ) (hq : 0 ≤ q) : Double :=
  if hcarry : nearestMant q = 2 ^ 53 then
    -- the significand is full: the next exponent
    if h : ulpExp q + 1 ≤ 971 then
      .finite ⟨neg, 2 ^ 52, ulpExp q + 1, by norm_num, by have := ulpExp_ge q; omega, h, .inl (le_refl _)⟩
    else .infinite neg
  else if h : ulpExp q ≤ 971 then
    .finite ⟨neg, nearestMant q, ulpExp q, lt_of_le_of_ne (nearestMant_le hq) hcarry, ulpExp_ge q, h,
      nearestMant_normal hq⟩
  else .infinite neg

theorem Finite.abs_nonneg (x : Finite) : 0 ≤ x.abs := by
  unfold Finite.abs
  exact mul_nonneg (Nat.cast_nonneg _) (zpow_two_pos _).le

/-- The exponent of a double is that of the doubles around it. -/
theorem Finite.ulpExp_abs (x : Finite) : ulpExp x.abs = if x.mant = 0 then -1074 else x.exp := by
  have hpow := zpow_two_pos x.exp
  by_cases hzero : x.mant = 0
  · rw [if_pos hzero]
    unfold ulpExp Finite.abs
    rw [hzero, Nat.cast_zero, zero_mul, if_pos rfl]
  · rw [if_neg hzero]
    have hmant : (0 : ℚ) < x.mant := by exact_mod_cast Nat.pos_of_ne_zero hzero
    have hpos : 0 < x.abs := mul_pos hmant hpow
    have hlt : x.abs < ((2 : Nat) : ℚ) ^ (x.exp + 53) := by
      have hm : (x.mant : ℚ) < (2 : ℚ) ^ (53 : Int) := by exact_mod_cast x.mant_lt
      rw [Nat.cast_ofNat, zpow_add₀ (by norm_num), mul_comm]
      exact mul_lt_mul_of_pos_right hm hpow
    have hlog : Int.log 2 x.abs < x.exp + 53 := (Int.lt_zpow_iff_log_lt (by decide) hpos).mp hlt
    have hge := x.exp_ge
    unfold ulpExp
    rw [if_neg hpos.ne']
    rcases x.normal with hnormal | hleast
    · have hle : ((2 : Nat) : ℚ) ^ (x.exp + 52) ≤ x.abs := by
        have hm : (2 : ℚ) ^ (52 : Int) ≤ x.mant := by exact_mod_cast hnormal
        rw [Nat.cast_ofNat, zpow_add₀ (by norm_num), mul_comm]
        exact mul_le_mul_of_nonneg_right hm hpow.le
      have hlog' : x.exp + 52 ≤ Int.log 2 x.abs := (Int.zpow_le_iff_le_log (by decide) hpos).mp hle
      omega
    · omega

/-- **A double is the nearest to its own value.** -/
theorem nearest_self (x : Finite) : ∃ y, nearest x.neg x.abs x.abs_nonneg = .finite y ∧
    y.neg = x.neg ∧ y.abs = x.abs := by
  have hmant : nearestMant x.abs = x.mant := by
    unfold nearestMant
    rw [x.ulpExp_abs]
    by_cases hzero : x.mant = 0
    · have habs : x.abs = ((0 : Nat) : ℚ) := by simp [Finite.abs, hzero]
      rw [habs, Nat.cast_zero, zero_div, hzero]
      exact roundHalfEven_natCast 0
    · rw [if_neg hzero]
      unfold Finite.abs
      rw [mul_div_assoc, div_self (zpow_two_pos _).ne', mul_one]
      exact roundHalfEven_natCast _
  have hcarry : nearestMant x.abs ≠ 2 ^ 53 := by
    rw [hmant]
    exact x.mant_lt.ne
  have hexp : ulpExp x.abs ≤ 971 := by
    have hle := x.exp_le
    rw [x.ulpExp_abs]
    split_ifs <;> omega
  unfold nearest
  rw [dif_neg hcarry, dif_pos hexp]
  refine ⟨_, rfl, rfl, ?_⟩
  show (nearestMant x.abs : ℚ) * 2 ^ ulpExp x.abs = _
  rw [hmant, x.ulpExp_abs]
  unfold Finite.abs
  split_ifs with hzero
  · simp [hzero]
  · rfl

/-! ## §3. Integers. -/

theorem abs_value (x : Finite) : |x.value| = x.abs := by
  unfold Finite.value
  have h := abs_of_nonneg x.abs_nonneg
  split_ifs
  · rw [abs_neg, h]
  · exact h

/-- A double of a natural number is not portable when it is beyond the safe integers. -/
theorem not_portable_of_large {x : Finite} {n : Nat} (hx : x.abs = n) (hn : maxSafeInteger < n) :
    ¬ (Double.finite x).Portable := by
  intro h
  obtain ⟨y, hy, hnot⟩ := h
  cases hy
  apply hnot
  refine ⟨?_, ?_⟩
  · unfold Finite.value
    rw [hx]
    split_ifs
    · exact ⟨-(n : ℤ), by push_cast; rfl⟩
    · exact ⟨n, rfl⟩
  · rw [abs_value, hx]
    exact_mod_cast hn

theorem portable_of_small {x : Finite} (hx : x.abs ≤ maxSafeInteger) :
    (Double.finite x).Portable := by
  refine ⟨x, rfl, ?_⟩
  intro h
  rw [abs_value] at h
  exact absurd h.2 (not_lt.mpr hx)

/-- A safe integer is a double. -/
theorem exists_finite (neg : Bool) {n : Nat} (hn : n ≤ maxSafeInteger) :
    ∃ x : Finite, x.neg = neg ∧ x.abs = n := by
  by_cases hzero : n = 0
  · refine ⟨⟨neg, 0, -1074, by norm_num, by norm_num, by norm_num, .inr rfl⟩, rfl, ?_⟩
    simp [Finite.abs, hzero]
  · have hlog : Nat.log 2 n < 53 := Nat.log_lt_of_lt_pow hzero (by unfold maxSafeInteger at hn; omega)
    have hle : 2 ^ Nat.log 2 n ≤ n := Nat.pow_log_le_self 2 hzero
    have hlt : n < 2 ^ (Nat.log 2 n + 1) := Nat.lt_pow_succ_log_self (by decide) n
    -- the leading bit moves to the top
    obtain ⟨k, hk⟩ : ∃ k, Nat.log 2 n + k = 52 := ⟨52 - Nat.log 2 n, by omega⟩
    refine ⟨⟨neg, n * 2 ^ k, -k, ?_, by omega, by omega, .inl ?_⟩, rfl, ?_⟩
    · have hpow : 2 ^ (Nat.log 2 n + 1) * 2 ^ k = 2 ^ 53 := by
        rw [← Nat.pow_add]
        congr 1
        omega
      rw [← hpow]
      exact Nat.mul_lt_mul_of_pos_right hlt (by positivity)
    · rw [← hk, Nat.pow_add]
      exact Nat.mul_le_mul_right _ hle
    · show ((n * 2 ^ k : Nat) : ℚ) * 2 ^ (-(k : Int)) = n
      push_cast
      rw [zpow_neg, zpow_natCast, mul_assoc, mul_inv_cancel₀ (by positivity), mul_one]

/-- **An integer rounds to a portable double exactly when it is a safe one.** -/
theorem nearest_portable_iff (neg : Bool) (n : Nat) :
    (nearest neg n n.cast_nonneg).Portable ↔ n ≤ maxSafeInteger := by
  constructor
  · intro h
    by_contra hn
    have hlarge : 2 ^ 53 ≤ n := by unfold maxSafeInteger at hn; omega
    have hlog : 53 ≤ Int.log 2 (n : ℚ) := by
      rw [Int.log_natCast]
      exact_mod_cast Nat.le_log_of_pow_le (by decide) hlarge
    have hexp : 1 ≤ ulpExp (n : ℚ) := by
      unfold ulpExp
      rw [if_neg (by exact_mod_cast (by omega : n ≠ 0))]
      omega
    have hmant : 2 ^ 52 ≤ nearestMant (n : ℚ) :=
      (nearestMant_normal (Nat.cast_nonneg n)).resolve_right (by omega)
    -- the significand times an even power of two is an integer beyond the safe ones
    have hunsafe : ∀ (m : Nat) (e : Int), 2 ^ 52 ≤ m → 1 ≤ e →
        ∃ k : Nat, (m : ℚ) * (2 : ℚ) ^ e = k ∧ maxSafeInteger < k := by
      intro m e hm he
      obtain ⟨j, rfl⟩ : ∃ j : Nat, e = j := ⟨e.toNat, by omega⟩
      refine ⟨m * 2 ^ j, by push_cast; rw [zpow_natCast], ?_⟩
      have hpow : 2 ^ 1 ≤ 2 ^ j := Nat.pow_le_pow_right (by decide) (by omega)
      have hmul : 2 ^ 52 * 2 ^ 1 ≤ m * 2 ^ j := Nat.mul_le_mul hm hpow
      unfold maxSafeInteger
      omega
    unfold nearest at h
    split_ifs at h with hcarry h1 h2
    · obtain ⟨k, hk, hlt⟩ := hunsafe (2 ^ 52) _ (le_refl _) (by omega : 1 ≤ ulpExp (n : ℚ) + 1)
      refine not_portable_of_large ?_ hlt h
      exact hk
    · obtain ⟨y, hy, -⟩ := h
      cases hy
    · obtain ⟨k, hk, hlt⟩ := hunsafe _ _ hmant hexp
      refine not_portable_of_large ?_ hlt h
      exact hk
    · obtain ⟨y, hy, -⟩ := h
      cases hy
  · intro hn
    obtain ⟨x, hneg, habs⟩ := exists_finite neg hn
    obtain ⟨y, hy, -, hyabs⟩ := nearest_self x
    have hsame : nearest neg n n.cast_nonneg = nearest x.neg x.abs x.abs_nonneg := by
      subst hneg
      congr 1
      exact habs.symm
    rw [hsame, hy]
    apply portable_of_small
    rw [hyabs, habs]
    exact_mod_cast hn

end CekatEvents.Arithmetic
