/-
  CekatEvents.Http.Octets — header fields and envelopes for the clients whose strings are bytes.

  The Ruby and the PHP client parse a body with a library of their language, which makes hashes or objects
  of it.  What they read of the result is the same, and so is what they read of a header field.
-/
import CekatEvents.Encoding.Trimming
import Mathlib.Data.List.DropRight

namespace CekatEvents.Http

open CekatEvents.Encoding

/-! ## §1. Bytes. -/

/-- A text of the source as bytes. -/
def octets (s : String) : List UInt8 := utf8 s.toList

/-- An ASCII letter in lower case. -/
def lowerByte (b : UInt8) : UInt8 := if 0x41 ≤ b ∧ b ≤ 0x5A then b + 0x20 else b

/-- Names that are equal but for the case of ASCII letters. -/
def sameName (a b : List UInt8) : Bool := a.map lowerByte == b.map lowerByte

/-- An ASCII digit. -/
def isDigitByte (b : UInt8) : Bool := decide (0x30 ≤ b ∧ b ≤ 0x39)

/-- The number that ASCII digits spell. -/
def digitBytesNumber (text : List UInt8) : Nat := text.foldl (fun n b => 10 * n + (b.toNat - 0x30)) 0

/-- Every byte as the character of its number, as patterns of ASCII see it. -/
def byteChars (text : List UInt8) : List Char := text.map fun b => Char.ofNat b.toNat

/-- The text between what is trimmed at both ends. -/
def trimBytes (isTrimmed : UInt8 → Bool) (text : List UInt8) : List UInt8 :=
  (text.dropWhile isTrimmed).rdropWhile isTrimmed

theorem isDigitByte_iff {b : UInt8} : isDigitByte b = true ↔ 0x30 ≤ b.toNat ∧ b.toNat ≤ 0x39 := by
  unfold isDigitByte
  rw [decide_eq_true_eq, UInt8.le_iff_toNat_le, UInt8.le_iff_toNat_le]
  rfl

/-- A text has a digit among its bytes exactly when it has one among its characters. -/
theorem utf8_digits (text : List Char) (p : Bool) (h : ∀ c ∈ text, c.isDigit = p) :
    ∀ b ∈ utf8 text, isDigitByte b = p := by
  intro b hb
  obtain ⟨c, hc, hb⟩ := List.mem_flatMap.mp hb
  have hdigit := h c hc
  have hrange : c.isDigit = true ↔ 0x30 ≤ c.toNat ∧ c.toNat ≤ 0x39 := by
    simp only [Char.isDigit, Bool.and_eq_true, decide_eq_true_eq]
    rfl
  by_cases hlow : c.toNat < 0x80
  · rw [utf8EncodeChar_low hlow, List.mem_singleton] at hb
    have hbyte : b.toNat = c.toNat := by
      rw [hb]
      show c.toNat % 256 = c.toNat
      omega
    rw [← hdigit, Bool.eq_iff_iff, isDigitByte_iff, hrange, hbyte]
  · have hhigh := utf8EncodeChar_high (Nat.le_of_not_lt hlow) b hb
    rw [← hdigit, Bool.eq_iff_iff, isDigitByte_iff, hrange]
    omega

/-- Digits are the bytes of their codes. -/
theorem utf8_of_digits {text : List Char} (h : text.all Char.isDigit = true) :
    utf8 text = text.map fun c => c.toNat.toUInt8 := by
  induction text with
  | nil => rfl
  | cons c text ih =>
      rw [List.all_cons, Bool.and_eq_true] at h
      have hlow : c.toNat < 0x80 := by
        have hdigit := h.1
        simp only [Char.isDigit, Bool.and_eq_true, decide_eq_true_eq] at hdigit
        have hle : c.toNat ≤ 57 := hdigit.2
        omega
      rw [utf8_cons, utf8EncodeChar_low hlow, ih h.2, List.map_cons, List.singleton_append]

/-- The number of digits does not depend on how they are stored. -/
theorem digitBytesNumber_utf8 {text : List Char} (h : text.all Char.isDigit = true) :
    digitBytesNumber (utf8 text) = text.foldl (fun n c => 10 * n + (c.toNat - '0'.toNat)) 0 := by
  unfold digitBytesNumber
  rw [utf8_of_digits h, List.foldl_map]
  apply List.foldl_ext
  intro n c hc
  have hdigit := List.all_eq_true.mp h c hc
  simp only [Char.isDigit, Bool.and_eq_true, decide_eq_true_eq] at hdigit
  have hle : c.toNat ≤ 57 := hdigit.2
  show 10 * n + (c.toNat % 256 - 0x30) = 10 * n + (c.toNat - 48)
  omega

/-! ## §2. Parsed bodies. -/

/-- What a parser makes of a body.  The names of an object are distinct, and no number is looked at. -/
inductive Parsed where
  | null
  | bool (b : Bool)
  | number
  | string (s : List UInt8)
  | array (items : List Parsed)
  | object (members : List (List UInt8 × Parsed))

/-- The member of an object. -/
def Parsed.member (name : String) : Parsed → Option Parsed
  | .object members => (members.find? fun m => m.1 == octets name).map Prod.snd
  | _ => none

def Parsed.string? : Parsed → Option (List UInt8)
  | .string s => some s
  | _ => none

/-- A string that is not empty. -/
def nonemptyString : Option Parsed → Option (List UInt8)
  | some (.string s) => if s = [] then none else some s
  | _ => none

/-- An array of strings only. -/
def stringArray : Option Parsed → Option (List (List UInt8))
  | some (.array items) => items.mapM Parsed.string?
  | _ => none

/-- The Boolean itself. -/
def isBool (b : Bool) : Option Parsed → Bool
  | some (.bool c) => c == b
  | _ => false

/-! ## §3. Envelopes. -/

/-- What an acknowledgement takes of a success envelope. -/
structure SuccessFields where
  message : List UInt8
  eventKey : List UInt8
  validatedProperties : List (List UInt8)

/-- The fields of a valid success envelope. -/
def successFields (envelope : Parsed) : Option SuccessFields := do
  let data ← envelope.member "data"
  let message ← nonemptyString (data.member "message")
  let eventKey ← nonemptyString (data.member "event_key")
  let properties ← stringArray (data.member "validated_properties")
  if isBool true (envelope.member "success") && isBool true (data.member "success") then
    some ⟨message, eventKey, properties⟩
  else none

/-- The message and the code of an error envelope: a code must be a string where it is present. -/
def errorFields (envelope : Parsed) : Option (List UInt8 × Option (List UInt8)) :=
  if isBool false (envelope.member "success") then
    match nonemptyString (envelope.member "error") with
    | none => none
    | some error =>
        match envelope.member "code" with
        | none => some (error, none)
        | some (.string code) => some (error, some code)
        | some _ => none
  else none

end CekatEvents.Http
