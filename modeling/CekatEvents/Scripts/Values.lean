/-
  CekatEvents.Scripts.Values — what the scripts of the repository work on.

  `PyValue` is a value that `json.loads` makes: a string may hold surrogates, and a dict keeps its entries in
  order.  What `repr` makes of a value is a parameter of the scripts, which use it in messages only.
-/
import CekatEvents.Ordering.Lexicographic
import CekatEvents.Python.Validation

namespace CekatEvents.Scripts

open CekatEvents.Arithmetic CekatEvents.Ordering CekatEvents.Python.Validation

/-- A value of a parsed document. -/
inductive PyValue where
  | none
  | bool (b : Bool)
  | int (n : Int)
  | float (x : Double)
  | str (s : PyStr)
  | list (items : List PyValue)
  | dict (entries : List (PyStr × PyValue))

/-- `value == s` for a string. -/
def PyValue.isStr (v : PyValue) (s : PyStr) : Bool :=
  match v with
  | .str t => decide (t = s)
  | _ => false

theorem PyValue.isStr_iff {v : PyValue} {s : PyStr} : v.isStr s = true ↔ v = .str s := by
  cases v with
  | str t => simp [PyValue.isStr]
  | _ => simp [PyValue.isStr]

/-- A literal. -/
def text (s : String) : PyStr := ofChars s.toList

/-- `f"{n}"`. -/
def decimal (n : Nat) : PyStr := ofChars (Nat.repr n).toList

/-- `s <= t`. -/
def strLe (s t : PyStr) : Bool := lexLe (s.map Fin.val) (t.map Fin.val)

/-- `sorted`. -/
def sorted (l : List PyStr) : List PyStr := l.mergeSort strLe

/-- `", ".join`. -/
def commas (l : List PyStr) : PyStr := (text ", ").intercalate l

end CekatEvents.Scripts
