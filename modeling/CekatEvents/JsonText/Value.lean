/-
  CekatEvents.JsonText.Value — the values a parser makes of a syntax tree.

  `Value ν` is a decoded JSON value over a type `ν` of numbers.  A `Decoder` says what a language
  makes of `\u` groups, of numerals and of the extra constants; `Ast.decode` applies it, putting the
  members of an object one after another into an insertion-ordered map, so that the last of two
  members of one name wins and keeps the place of the first.
-/
import CekatEvents.JsonText.Dialects

namespace CekatEvents.JsonText

open CekatEvents.Encoding

/-! ## §1. Values. -/

/-- A decoded JSON value. -/
inductive Value (ν : Type) where
  | null
  | bool (b : Bool)
  | num (n : ν)
  | str (s : List CodeUnit)
  | arr (xs : List (Value ν))
  | obj (ms : List (List CodeUnit × Value ν))

/-- Put a key into an insertion-ordered map. -/
def putKey {κ α : Type} [DecidableEq κ] (m : List (κ × α)) (k : κ) (v : α) : List (κ × α) :=
  if m.any fun e => e.1 == k then m.map fun e => if e.1 = k then (k, v) else e else m ++ [(k, v)]

/-- The entry of a key. -/
def getKey {κ α : Type} [DecidableEq κ] (m : List (κ × α)) (k : κ) : Option α :=
  (m.find? fun e => e.1 == k).map Prod.snd

/-- The member of an object; nothing for other values. -/
def Value.get {ν : Type} (v : Value ν) (k : List CodeUnit) : Option (Value ν) :=
  match v with
  | .obj ms => getKey ms k
  | _ => none

/-! ## §2. Decoding. -/

/-- The value of an ASCII hexadecimal digit. -/
def hexValue (u : CodeUnit) : Nat :=
  if u.toNat ≤ 0x39 then u.toNat - 0x30
  else if u.toNat ≤ 0x46 then u.toNat - 0x41 + 10
  else u.toNat - 0x61 + 10

theorem isDigit_toNat {u : CodeUnit} :
    isDigit u = true ↔ 0x30 ≤ u.toNat ∧ u.toNat ≤ 0x39 := by
  simp [isDigit, UInt16.le_iff_toNat_le]

theorem isHexDigit_toNat {u : CodeUnit} :
    isHexDigit u = true ↔ (0x30 ≤ u.toNat ∧ u.toNat ≤ 0x39) ∨ (0x41 ≤ u.toNat ∧ u.toNat ≤ 0x46) ∨
      (0x61 ≤ u.toNat ∧ u.toNat ≤ 0x66) := by
  simp [isHexDigit, isDigit, UInt16.le_iff_toNat_le, or_assoc]

theorem hexValue_lt {u : CodeUnit} (hu : isHexDigit u = true) : hexValue u < 16 := by
  have h := isHexDigit_toNat.mp hu
  unfold hexValue
  split_ifs <;> omega

/-- The code unit of four hexadecimal digits. -/
def hexUnit (a b c d : CodeUnit) : CodeUnit :=
  (((hexValue a * 16 + hexValue b) * 16 + hexValue c) * 16 + hexValue d).toUInt16

/-- What a language makes of the parts of a syntax tree. -/
structure Decoder (ν : Type) where
  hex : CodeUnit → CodeUnit → CodeUnit → CodeUnit → CodeUnit
  num : Numeral → ν
  nonFinite : NonFinite → ν

/-- The code unit an element stands for. -/
def Piece.decode (hex : CodeUnit → CodeUnit → CodeUnit → CodeUnit → CodeUnit) : Piece → CodeUnit
  | .plain u => u
  | .short c => (shortEscape c).getD c
  | .hex a b c d => hex a b c d

/-- The string a literal stands for. -/
def decodeString (hex : CodeUnit → CodeUnit → CodeUnit → CodeUnit → CodeUnit) (ps : List Piece) :
    List CodeUnit :=
  ps.map (Piece.decode hex)

section Decode

variable {ν : Type} (D : Decoder ν)

mutual
/-- The value of a syntax tree. -/
def Ast.decode : Ast → Value ν
  | .null => .null
  | .bool b => .bool b
  | .nonFinite c => .num (D.nonFinite c)
  | .num n => .num (D.num n)
  | .str ps => .str (decodeString D.hex ps)
  | .arr xs => .arr (decodeElems xs)
  | .obj ms => .obj (decodeMembers [] ms)
/-- The values of elements. -/
def decodeElems : List Ast → List (Value ν)
  | [] => []
  | x :: xs => x.decode :: decodeElems xs
/-- A map with the values of members put into it. -/
def decodeMembers (acc : List (List CodeUnit × Value ν)) :
    List (List Piece × Ast) → List (List CodeUnit × Value ν)
  | [] => acc
  | (k, x) :: ms => decodeMembers (putKey acc (decodeString D.hex k) x.decode) ms
end

end Decode

theorem decodeElems_eq_map {ν : Type} (D : Decoder ν) (xs : List Ast) :
    decodeElems D xs = xs.map (Ast.decode D) := by
  induction xs with
  | nil => rfl
  | cons x xs ih => rw [decodeElems, ih, List.map_cons]

section Congruence

variable {ν : Type} {D D' : Decoder ν}

theorem decodeString_congr {d : Dialect} {ps : List Piece} (hps : PiecesOk d ps)
    (hhex : ∀ a b c e, d.hexOk a b c e = true → D.hex a b c e = D'.hex a b c e) :
    decodeString D.hex ps = decodeString D'.hex ps := by
  refine List.map_congr_left fun p hp => ?_
  have hok := hps p hp
  cases p with
  | plain u => rfl
  | short c => rfl
  | hex a b c e => exact hhex a b c e hok

theorem decodeMembers_congr {ms : List (List Piece × Ast)}
    (h : ∀ m ∈ ms, decodeString D.hex m.1 = decodeString D'.hex m.1 ∧ m.2.decode D = m.2.decode D')
    (acc : List (List CodeUnit × Value ν)) :
    decodeMembers D acc ms = decodeMembers D' acc ms := by
  induction ms generalizing acc with
  | nil => rfl
  | cons m ms ih =>
      obtain ⟨k, x⟩ := m
      obtain ⟨hk, hx⟩ := h (k, x) List.mem_cons_self
      rw [decodeMembers, decodeMembers, hk, hx]
      exact ih (fun m hm => h m (List.mem_cons_of_mem _ hm)) _

/-- Decoders that read the `\u` groups of a dialect alike decode alike what it allows. -/
theorem decode_congr {d : Dialect} (hnum : D.num = D'.num) (hconst : D.nonFinite = D'.nonFinite)
    (hhex : ∀ a b c e, d.hexOk a b c e = true → D.hex a b c e = D'.hex a b c e) {t : Ast}
    (ht : t.Allowed d) : t.decode D = t.decode D' := by
  induction t using Ast.induction with
  | null => rfl
  | bool b => rfl
  | nonFinite c => rw [Ast.decode, Ast.decode, hconst]
  | num n => rw [Ast.decode, Ast.decode, hnum]
  | str ps => rw [Ast.decode, Ast.decode, decodeString_congr ht hhex]
  | arr xs ih =>
      have ht := allowedElems_iff.mp ht
      rw [Ast.decode, Ast.decode, decodeElems_eq_map, decodeElems_eq_map]
      exact congrArg Value.arr (List.map_congr_left fun x hx => ih x hx (ht x hx))
  | obj ms ih =>
      have ht := allowedMembers_iff.mp ht
      rw [Ast.decode, Ast.decode]
      refine congrArg Value.obj (decodeMembers_congr (fun m hm => ?_) [])
      exact ⟨decodeString_congr (ht m hm).1 hhex, ih m hm (ht m hm).2⟩

end Congruence

/-! ## §3. Insertion-ordered maps. -/

section Keys

variable {κ α : Type} [DecidableEq κ]

@[simp] theorem getKey_nil (k : κ) : getKey ([] : List (κ × α)) k = none := rfl

theorem getKey_cons (e : κ × α) (m : List (κ × α)) (k : κ) :
    getKey (e :: m) k = if e.1 = k then some e.2 else getKey m k := by
  by_cases h : e.1 = k
  · simp [getKey, h]
  · simp [getKey, h]

theorem getKey_append (a b : List (κ × α)) (k : κ) :
    getKey (a ++ b) k = (getKey a k).or (getKey b k) := by
  induction a with
  | nil => rfl
  | cons e a ih =>
      rw [List.cons_append, getKey_cons, getKey_cons, ih]
      by_cases h : e.1 = k
      · rw [if_pos h, if_pos h]; rfl
      · rw [if_neg h, if_neg h]

theorem getKey_eq_none {m : List (κ × α)} {k : κ} (h : (m.any fun e => e.1 == k) = false) :
    getKey m k = none := by
  simp only [List.any_eq_false, beq_iff_eq] at h
  simpa [getKey] using fun a b hab => h (a, b) hab

theorem getKey_replace (m : List (κ × α)) (k : κ) (v : α) (j : κ) :
    getKey (m.map fun e => if e.1 = k then (k, v) else e) j
      = if j = k then (getKey m k).map fun _ => v else getKey m j := by
  induction m with
  | nil => simp
  | cons e m ih =>
      rw [List.map_cons, getKey_cons, ih, getKey_cons, getKey_cons]
      by_cases hek : e.1 = k
      · by_cases hjk : j = k
        · simp [hek, hjk]
        · simp [hek, hjk, Ne.symm hjk]
      · by_cases hjk : j = k
        · simp [hek, hjk]
        · simp [hek, hjk]

/-- **The last value put under a key is the one found.** -/
theorem getKey_putKey (m : List (κ × α)) (k : κ) (v : α) (j : κ) :
    getKey (putKey m k v) j = if j = k then some v else getKey m j := by
  rw [putKey]
  cases hany : m.any fun e => e.1 == k with
  | true =>
      rw [if_pos rfl, getKey_replace]
      have hsome : ∃ w, getKey m k = some w := by
        rw [← Option.isSome_iff_exists, getKey, Option.isSome_map, List.find?_isSome]
        simpa using hany
      obtain ⟨w, hw⟩ := hsome
      rw [hw]
      rfl
  | false =>
      rw [if_neg (by simp), getKey_append, getKey_cons, getKey_nil]
      by_cases hjk : j = k
      · rw [if_pos hjk, if_pos hjk.symm, hjk, getKey_eq_none hany]
        rfl
      · rw [if_neg hjk, if_neg (Ne.symm hjk), Option.or_none]

end Keys

end CekatEvents.JsonText
