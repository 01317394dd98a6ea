/-
  CekatEvents.JsonText.Escape — how writers escape strings.

  A writer escapes a code unit by two characters where it has them (`short`), by `\u` and four digits
  where it wants to (`hex`), and writes it as it stands otherwise.  An `Escaping` carries the reasons
  why the literal can be read back: a two-character escape stands for its unit, nothing is written
  plain that may not be, and the two units of a surrogate pair are treated alike.
-/
import CekatEvents.JsonText.Encode

namespace CekatEvents.JsonText

open CekatEvents.Encoding

/-! ## §1. Hexadecimal escapes. -/

/-- A lowercase hexadecimal digit. -/
def hexDigit (n : Nat) : CodeUnit := (if n < 10 then 0x30 + n else 0x57 + n).toUInt16

/-- The escape of a code unit by its four digits. -/
def hexPiece (u : CodeUnit) : Piece :=
  .hex (hexDigit (u.toNat / 4096)) (hexDigit (u.toNat / 256 % 16)) (hexDigit (u.toNat / 16 % 16))
    (hexDigit (u.toNat % 16))

theorem hexDigit_value : ∀ n < 16, hexValue (hexDigit n) = n ∧ isHexDigit (hexDigit n) = true ∧
    (hexDigit n).toNat < 0x80 := by
  decide

/-- The digits of a code unit. -/
theorem hexDigits_lt (u : CodeUnit) : u.toNat / 4096 < 16 ∧ u.toNat / 256 % 16 < 16 ∧
    u.toNat / 16 % 16 < 16 ∧ u.toNat % 16 < 16 := by
  have hu : u.toNat < 0x10000 := u.toNat_lt
  omega

theorem hexPiece_decode (u : CodeUnit) : (hexPiece u).decode hexUnit = u := by
  obtain ⟨ha, hb, hc, hd⟩ := hexDigits_lt u
  show hexUnit _ _ _ _ = u
  unfold hexUnit
  rw [(hexDigit_value _ ha).1, (hexDigit_value _ hb).1, (hexDigit_value _ hc).1,
    (hexDigit_value _ hd).1]
  have hsum : ((u.toNat / 4096 * 16 + u.toNat / 256 % 16) * 16 + u.toNat / 16 % 16) * 16
      + u.toNat % 16 = u.toNat := by omega
  rw [hsum]
  exact UInt16.ofNat_toNat

theorem hexPiece_strict (u : CodeUnit) : (hexPiece u).ok rfc8259 = true := by
  obtain ⟨ha, hb, hc, hd⟩ := hexDigits_lt u
  show strictHex _ _ _ _ = true
  unfold strictHex
  rw [(hexDigit_value _ ha).2.1, (hexDigit_value _ hb).2.1, (hexDigit_value _ hc).2.1,
    (hexDigit_value _ hd).2.1]
  rfl

theorem hexPiece_ascii (u : CodeUnit) : ∀ w ∈ (hexPiece u).text, w.toNat < 0x80 := by
  obtain ⟨ha, hb, hc, hd⟩ := hexDigits_lt u
  intro w hw
  unfold hexPiece Piece.text at hw
  simp only [List.mem_cons, List.not_mem_nil, or_false] at hw
  rcases hw with rfl | rfl | rfl | rfl | rfl | rfl
  · decide
  · decide
  · exact (hexDigit_value _ ha).2.2
  · exact (hexDigit_value _ hb).2.2
  · exact (hexDigit_value _ hc).2.2
  · exact (hexDigit_value _ hd).2.2

/-! ## §2. Escapings. -/

/-- How a writer escapes code units. -/
structure Escaping where
  short : CodeUnit → Option CodeUnit
  hex : CodeUnit → Bool
  short_ok : ∀ u c, short u = some c → shortEscape c = some u
  plain_ok : ∀ u, short u = none → hex u = false → isPlain u = true
  pair_ok : ∀ u v, isHigh u = true → isLow v = true → hex u = hex v

/-- The element a code unit is written as. -/
def Escaping.piece (e : Escaping) (u : CodeUnit) : Piece :=
  match e.short u with
  | some c => .short c
  | none => if e.hex u then hexPiece u else .plain u

theorem shortEscape_basic {c u : CodeUnit} (h : shortEscape c = some u) :
    c.toNat < 0x80 ∧ u.toNat < 0x80 := by
  unfold shortEscape at h
  split_ifs at h with h1 h2 h3 h4 h5 h6
  · cases h
    rcases h1 with rfl | rfl | rfl <;> decide
  all_goals
    cases h
    subst_vars
    decide

variable {ν : Type} (e : Escaping) (num : ν → Numeral)

theorem Escaping.decode (u : CodeUnit) : (e.piece u).decode hexUnit = u := by
  unfold Escaping.piece
  cases hshort : e.short u with
  | some c =>
      show (shortEscape c).getD c = u
      rw [e.short_ok u c hshort]
      rfl
  | none =>
      cases hhex : e.hex u with
      | true => exact hexPiece_decode u
      | false => rfl

theorem Escaping.ok (u : CodeUnit) : (e.piece u).ok rfc8259 = true := by
  unfold Escaping.piece
  cases hshort : e.short u with
  | some c =>
      show (shortEscape c).isSome = true
      rw [e.short_ok u c hshort]
      rfl
  | none =>
      cases hhex : e.hex u with
      | true => exact hexPiece_strict u
      | false => exact e.plain_ok u hshort hhex

/-- A unit of a surrogate pair has no two-character escape. -/
theorem Escaping.short_surrogate {u : CodeUnit} (hu : isBasic u = false) : e.short u = none := by
  cases hshort : e.short u with
  | none => rfl
  | some c =>
      have hlow := (shortEscape_basic (e.short_ok u c hshort)).2
      rw [isBasic_of_low hlow] at hu
      cases hu

/-- The encoder of an escaping. -/
def Escaping.encoder : Encoder ν := ⟨e.piece, num⟩

/-- **What an escaping writes is read back.** -/
theorem Escaping.inverts {μ : Type} {D : Decoder μ} (hhex : D.hex = hexUnit) {f : ν → μ}
    (hnum : ∀ n, D.num (num n) = f n) : (e.encoder num).Inverts D f := by
  constructor
  · intro u
    rw [hhex]
    exact e.decode u
  · exact hnum

theorem Escaping.within {d : Dialect} (hhex : d.hexOk = strictHex)
    (hnum : ∀ n, (num n).WellFormed ∧ d.numeralOk (num n) = true) : (e.encoder num).Within d := by
  constructor
  · intro u
    show (e.piece u).ok d = true
    rw [← e.ok u]
    cases e.piece u with
    | plain v => rfl
    | short c => rfl
    | hex a b c f =>
        show d.hexOk a b c f = _
        rw [hhex]
        rfl
  · exact hnum

theorem Escaping.seamless : (e.encoder num).Seamless := by
  constructor
  · intro u hu
    show WellFormed (e.piece u).text
    apply wellFormed_piece hu
    unfold Escaping.piece
    cases hshort : e.short u with
    | some c =>
        right
        intro w hw
        have hc := (shortEscape_basic (e.short_ok u c hshort)).1
        have hw : w = unit '\\' ∨ w = c := by simpa [Piece.text] using hw
        rcases hw with rfl | rfl
        · decide
        · exact hc
    | none =>
        cases hhex : e.hex u with
        | true => exact .inr (hexPiece_ascii u)
        | false => exact .inl rfl
  · intro u v hu hv
    have hbu : isBasic u = false := by
      unfold isBasic
      rw [hu]
      rfl
    have hbv : isBasic v = false := by
      unfold isBasic
      rw [hv]
      simp
    show WellFormed ((e.piece u).text ++ (e.piece v).text)
    unfold Escaping.piece
    rw [e.short_surrogate hbu, e.short_surrogate hbv, e.pair_ok u v hu hv]
    cases e.hex v with
    | true => exact (WellFormed.of_ascii (hexPiece_ascii u)).append (.of_ascii (hexPiece_ascii v))
    | false =>
        refine ⟨[pairChar u v], ?_⟩
        rw [utf16_cons, utf16Char_pairChar hu hv]
        rfl

/-! ## §3. The least that must be escaped. -/

/-- The two-character escapes of a quotation mark, a backslash and five controls. -/
def shortOf (u : CodeUnit) : Option CodeUnit :=
  if u = unit '"' then some (unit '"')
  else if u = unit '\\' then some (unit '\\')
  else if u = 0x08 then some (unit 'b')
  else if u = 0x0C then some (unit 'f')
  else if u = 0x0A then some (unit 'n')
  else if u = 0x0D then some (unit 'r')
  else if u = 0x09 then some (unit 't')
  else none

theorem shortOf_ok (u c : CodeUnit) (h : shortOf u = some c) : shortEscape c = some u := by
  unfold shortOf at h
  split_ifs at h <;> cases h <;> subst_vars <;> decide

/-- A writer that escapes by `\u` the other controls, and the units it is told to. -/
def escapingAlso (more : CodeUnit → Bool)
    (pair_ok : ∀ u v, isHigh u = true → isLow v = true → more u = more v) : Escaping where
  short := shortOf
  hex u := decide (u.toNat < 0x20) || more u
  short_ok := shortOf_ok
  plain_ok := by
    intro u hshort hhex
    rw [Bool.or_eq_false_iff, decide_eq_false_iff_not] at hhex
    unfold isPlain
    have hquote : u ≠ unit '"' := by
      intro h
      rw [h] at hshort
      exact absurd hshort (by decide)
    have hslash : u ≠ unit '\\' := by
      intro h
      rw [h] at hshort
      exact absurd hshort (by decide)
    have hge : (0x20 : CodeUnit) ≤ u := by
      rw [UInt16.le_iff_toNat_le]
      show 0x20 ≤ u.toNat
      omega
    simp [hquote, hslash, hge]
  pair_ok := by
    intro u v hu hv
    have hu' : ¬ u.toNat < 0x20 := by
      unfold isHigh at hu
      rw [decide_eq_true_eq] at hu
      omega
    have hv' : ¬ v.toNat < 0x20 := by
      unfold isLow at hv
      rw [decide_eq_true_eq] at hv
      omega
    rw [pair_ok u v hu hv, decide_eq_false hu', decide_eq_false hv']

/-- A writer that escapes no more than it must. -/
def minimalEscaping : Escaping := escapingAlso (fun _ => false) fun _ _ _ _ => rfl

end CekatEvents.JsonText
