/-
  CekatEvents.Http.FieldText — the texts that a header field may hold.

  A `FieldChar` is a tab, a space, or a visible character of ASCII, so that a `FieldText` is a text that
  every client can be handed.  Each language represents it by characters of its own: code units, bytes,
  scalar values.
-/
import CekatEvents.Encoding.Space

namespace CekatEvents.Http

open CekatEvents.Encoding

/-- A tab, a space, or a visible character of ASCII, by its code. -/
@[ext]
structure FieldChar where
  code : Nat
  valid : code = 0x09 ∨ (0x20 ≤ code ∧ code ≤ 0x7E)
  deriving DecidableEq

/-- A text of a header field. -/
abbrev FieldText := List FieldChar

namespace FieldChar

theorem code_lt (c : FieldChar) : c.code < 0x80 := by
  have h := c.valid
  omega

/-- A tab or a space. -/
def isBlank (c : FieldChar) : Bool := c.code == 0x09 || c.code == 0x20

def unit (c : FieldChar) : CodeUnit := c.code.toUInt16

def byte (c : FieldChar) : UInt8 := c.code.toUInt8

def char (c : FieldChar) : Char := Char.ofNat c.code

@[simp] theorem unit_toNat (c : FieldChar) : c.unit.toNat = c.code := by
  have h := c.code_lt
  exact toNat_toUInt16 (by omega)

@[simp] theorem byte_toNat (c : FieldChar) : c.byte.toNat = c.code := by
  have h := c.code_lt
  show c.code % 256 = c.code
  omega

@[simp] theorem char_toNat (c : FieldChar) : c.char.toNat = c.code := by
  have h := c.code_lt
  exact toNat_ofNat_of_valid (.inl (by omega))

/-- A letter in lower case. -/
def toLower (c : FieldChar) : FieldChar where
  code := if 0x41 ≤ c.code ∧ c.code ≤ 0x5A then c.code + 0x20 else c.code
  valid := by
    have h := c.valid
    split_ifs
    · omega
    · exact h

theorem toLower_code (c : FieldChar) :
    c.toLower.code = if 0x41 ≤ c.code ∧ c.code ≤ 0x5A then c.code + 0x20 else c.code := rfl

theorem unit_injective : Function.Injective FieldChar.unit := by
  intro c d h
  ext
  rw [← c.unit_toNat, h, d.unit_toNat]

theorem byte_injective : Function.Injective FieldChar.byte := by
  intro c d h
  ext
  rw [← c.byte_toNat, h, d.byte_toNat]

theorem char_injective : Function.Injective FieldChar.char := by
  intro c d h
  ext
  rw [← c.char_toNat, h, d.char_toNat]

end FieldChar

/-- A literal text; a character that no field may hold is left out. -/
def fieldText (s : String) : FieldText :=
  s.toList.filterMap fun c =>
    if h : c.toNat = 0x09 ∨ (0x20 ≤ c.toNat ∧ c.toNat ≤ 0x7E) then some ⟨c.toNat, h⟩ else none

/-- A header name is compared in lower case. -/
def lowerCase (name : FieldText) : FieldText := name.map FieldChar.toLower

def semicolon : FieldChar := ⟨0x3B, by decide⟩

def equalsSign : FieldChar := ⟨0x3D, by decide⟩

end CekatEvents.Http
