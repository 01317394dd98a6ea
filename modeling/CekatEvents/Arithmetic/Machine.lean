/-
  CekatEvents.Arithmetic.Machine — signed machine integers as integers that wrap.

  A type of signed integers is given by its largest value `top`; it runs from `-(top + 1)` to `top`.
-/
import Mathlib.Data.Int.Init

namespace CekatEvents.Arithmetic

/-- The machine integer that an integer wraps to. -/
def wrap (top : Nat) (x : Int) : Int := (x + top + 1) % (2 * (top + 1)) - top - 1

/-- Integers that fit do not wrap. -/
theorem wrap_eq {top : Nat} {x : Int} (hlo : -(top + 1 : Int) ≤ x) (hhi : x ≤ top) :
    wrap top x = x := by
  unfold wrap
  rw [Int.emod_eq_of_lt (by omega) (by omega)]
  omega

/-- Counting up wraps as the count does. -/
theorem wrap_succ (top : Nat) (x : Int) : wrap top (wrap top x + 1) = wrap top (x + 1) := by
  unfold wrap
  have hshift : (x + top + 1) % (2 * (top + 1)) - top - 1 + 1 + top + 1
      = (x + top + 1) % (2 * (top + 1)) + 1 := by omega
  rw [hshift, Int.emod_add_emod, show x + top + 1 + 1 = x + 1 + top + 1 by omega]

/-- The largest 32-bit integer. -/
def maxInt32 : Nat := 2147483647

/-- A 32-bit integer. -/
def int32 (x : Int) : Int := wrap maxInt32 x

theorem int32_succ (x : Int) : int32 (int32 x + 1) = int32 (x + 1) := wrap_succ maxInt32 x

theorem int32_eq {x : Int} (hlo : 0 ≤ x) (hhi : x ≤ maxInt32) : int32 x = x :=
  wrap_eq (by omega) hhi

end CekatEvents.Arithmetic
