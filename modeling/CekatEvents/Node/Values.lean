/-
  CekatEvents.Node.Values — JavaScript values as the Node client is given them.

  A string is a list of code units, a number is a double, and an object (a function among them) is known
  by its identity alone: what can be asked of it is said where it is asked.
-/
import CekatEvents.Arithmetic.Binary64
import CekatEvents.Encoding.Space
import CekatEvents.Node.Platform

namespace CekatEvents.Node

open CekatEvents.Arithmetic CekatEvents.Encoding

/-- A value of the type `unknown`; `ι` is the type of the identities of objects. -/
inductive Unknown (ι : Type) where
  | undefined
  | null
  | boolean (b : Bool)
  | number (x : Double)
  | bigint (n : Int)
  | string (s : Str)
  | symbol (identity : Nat)
  | object (o : ι)
  deriving DecidableEq

/-- `value === undefined`. -/
def Unknown.isUndefined {ι : Type} : Unknown ι → Bool
  | .undefined => true
  | _ => false

theorem Unknown.eq_undefined {ι : Type} {value : Unknown ι} (h : value.isUndefined = true) :
    value = .undefined := by
  cases value with
  | undefined => rfl
  | _ => cases h

/-- The code units that `trim()` takes off. -/
def isTrimmed (u : CodeUnit) : Bool := isAsciiSpace u.toNat || isSeparator u.toNat || u == 0xFEFF

/-- `trim()` on code units. -/
def trimUnits (s : Str) : Str := Encoding.trim isTrimmed s

/-- An access token; at one that is blank, `validateAccessToken` throws. -/
structure AccessToken where
  text : Str
  nonblank : trimUnits text ≠ []

/-- A token that is not blank is not empty. -/
theorem AccessToken.text_ne_nil (token : AccessToken) : token.text ≠ [] := by
  intro h
  apply token.nonblank
  rw [h]
  rfl

end CekatEvents.Node
