/-
  CekatEvents.Encoding.Replacement — decoding that puts U+FFFD for what is ill formed.

  Go decodes bytes one rune at a time and replaces a byte that starts no character (`runes`), and
  reads UTF-16 the same way (`ofUtf16Lossy`).  Both replace nothing in well-formed text.  The last
  section splits well-formed UTF-16 at a unit that is no surrogate.
-/
import CekatEvents.Encoding.Utf

namespace CekatEvents.Encoding

/-! ## §1. Runes of a byte string. -/

/-- U+FFFD. -/
def replacement : Char := Char.ofNat 0xFFFD

/-- The runes of a byte string, nothing for a byte that starts no character; the first argument bounds
    the rounds. -/
def runeRounds : Nat → List UInt8 → List (Option Char)
  | 0, _ => []
  | n + 1, bytes =>
      if bytes = [] then [] else
      match bytes.toByteArray.utf8DecodeChar? 0 with
      | some c => some c :: runeRounds n (bytes.drop c.utf8Size)
      | none => none :: runeRounds n (bytes.drop 1)

/-- The runes of a byte string. -/
def runes (bytes : List UInt8) : List (Option Char) := runeRounds bytes.length bytes

/-- Every byte that starts no character replaced. -/
def ofUtf8Bytewise (bytes : List UInt8) : List Char :=
  (runes bytes).map fun r => r.getD replacement

theorem runeRounds_utf8 (cs : List Char) (n : Nat) (hn : (utf8 cs).length ≤ n) :
    runeRounds n (utf8 cs) = cs.map some := by
  induction cs generalizing n with
  | nil => cases n <;> simp [utf8, runeRounds]
  | cons c cs ih =>
      have hpos := c.utf8Size_pos
      rw [utf8_cons, List.length_append, String.length_utf8EncodeChar] at hn
      obtain ⟨n, rfl⟩ : ∃ k, n = k + 1 := ⟨n - 1, by omega⟩
      have hhead : (String.utf8EncodeChar c ++ utf8 cs).toByteArray.utf8DecodeChar? 0 = some c := by
        rw [List.toByteArray_append]
        exact ByteArray.utf8DecodeChar?_utf8EncodeChar_append
      have hdrop : (String.utf8EncodeChar c ++ utf8 cs).drop c.utf8Size = utf8 cs := by
        rw [← String.length_utf8EncodeChar, List.drop_left]
      have hne : String.utf8EncodeChar c ++ utf8 cs ≠ [] := by
        simp [String.utf8EncodeChar_ne_nil]
      rw [utf8_cons]
      unfold runeRounds
      rw [if_neg hne, hhead]
      show some c :: runeRounds n ((String.utf8EncodeChar c ++ utf8 cs).drop c.utf8Size) = _
      rw [hdrop, ih n (by omega), List.map_cons]

/-- **In well-formed bytes every rune is a character.** -/
@[simp] theorem runes_utf8 (cs : List Char) : runes (utf8 cs) = cs.map some :=
  runeRounds_utf8 cs _ (Nat.le_refl _)

@[simp] theorem ofUtf8Bytewise_utf8 (cs : List Char) : ofUtf8Bytewise (utf8 cs) = cs := by
  unfold ofUtf8Bytewise
  rw [runes_utf8, List.map_map]
  exact List.map_id cs

/-! ## §2. UTF-16 with unpaired surrogates. -/

/-- A code unit outside the surrogate range. -/
def isBasic (u : CodeUnit) : Bool := !isHigh u && !isLow u

/-- The text of the code units, each unpaired surrogate replaced. -/
def ofUtf16Lossy : List CodeUnit → List Char
  | [] => []
  | [u] => if isBasic u then [Char.ofNat u.toNat] else [replacement]
  | u :: v :: s =>
      if isHigh u && isLow v then pairChar u v :: ofUtf16Lossy s
      else if isBasic u then Char.ofNat u.toNat :: ofUtf16Lossy (v :: s)
      else replacement :: ofUtf16Lossy (v :: s)

theorem isBasic_iff {u : CodeUnit} : isBasic u = true ↔ isHigh u = false ∧ isLow u = false := by
  unfold isBasic
  simp

/-- Where the strict decoder succeeds, nothing is replaced. -/
theorem ofUtf16Lossy_of_some (s : List CodeUnit) (cs : List Char) (h : ofUtf16? s = some cs) :
    ofUtf16Lossy s = cs := by
  induction s using ofUtf16?.induct generalizing cs with
  | case1 =>
      cases h
      rfl
  | case2 u hu => simp [ofUtf16?, hu] at h
  | case3 u hu =>
      simp only [Bool.or_eq_true, not_or, Bool.not_eq_true] at hu
      simp [ofUtf16?, hu] at h
      simp [ofUtf16Lossy, isBasic, hu, h]
  | case4 u v s hu hv ih =>
      simp only [ofUtf16?, hu, hv, if_true, Option.map_eq_some_iff] at h
      obtain ⟨ds, hds, rfl⟩ := h
      simp [ofUtf16Lossy, hu, hv, ih ds hds]
  | case5 u v s hu hv => simp [ofUtf16?, hu, hv] at h
  | case6 u v s hu hlo => simp [ofUtf16?, hu, hlo] at h
  | case7 u v s hu hlo ih =>
      simp only [Bool.not_eq_true] at hu hlo
      simp only [ofUtf16?, hu, hlo, Bool.false_eq_true, if_false, Option.map_eq_some_iff] at h
      obtain ⟨ds, hds, rfl⟩ := h
      simp [ofUtf16Lossy, isBasic, hu, hlo, ih ds hds]

@[simp] theorem ofUtf16Lossy_utf16 (cs : List Char) : ofUtf16Lossy (utf16 cs) = cs :=
  ofUtf16Lossy_of_some _ cs (ofUtf16?_utf16 cs)

/-- On well-formed units the passage to characters loses nothing. -/
theorem utf16_ofUtf16Lossy {s : List CodeUnit} (h : WellFormed s) : utf16 (ofUtf16Lossy s) = s := by
  obtain ⟨cs, rfl⟩ := h
  rw [ofUtf16Lossy_utf16]

theorem ofUtf16Lossy_cons {u : CodeUnit} (hu : isBasic u = true) (s : List CodeUnit) :
    ofUtf16Lossy (u :: s) = Char.ofNat u.toNat :: ofUtf16Lossy s := by
  have hhi := (isBasic_iff.mp hu).1
  cases s with
  | nil => simp [ofUtf16Lossy, hu]
  | cons v s => simp [ofUtf16Lossy, hhi, hu]

/-! ## §3. Splitting well-formed units. -/

/-- A character is one unit that is no surrogate, or a surrogate pair. -/
theorem utf16Char_cases (c : Char) :
    (∃ u, isBasic u = true ∧ utf16Char c = [u]) ∨
      ∃ u v, isHigh u = true ∧ isLow v = true ∧ utf16Char c = [u, v] := by
  have hc := scalar_range c
  unfold utf16Char
  by_cases hlow : c.toNat < 0x10000
  · have hn : c.toNat.toUInt16.toNat = c.toNat := toNat_toUInt16 hlow
    rw [if_pos hlow]
    refine .inl ⟨_, ?_, rfl⟩
    apply isBasic_iff.mpr
    unfold isHigh isLow
    rw [hn]
    simp only [decide_eq_false_iff_not]
    omega
  · rw [if_neg hlow]
    refine .inr ⟨_, _, ?_, ?_, rfl⟩
    · unfold isHigh
      rw [toNat_toUInt16 (by omega)]
      exact decide_eq_true (by omega)
    · unfold isLow
      rw [toNat_toUInt16 (by omega)]
      exact decide_eq_true (by omega)

/-- The units do not start with a surrogate. -/
def StartsBasic (s : List CodeUnit) : Prop := ∀ u ∈ s.head?, isBasic u = true

theorem StartsBasic.cons {u : CodeUnit} (hu : isBasic u = true) (s : List CodeUnit) :
    StartsBasic (u :: s) := by
  intro v hv
  rw [List.head?_cons, Option.mem_some_iff] at hv
  exact hv ▸ hu

theorem ofUtf16?_cons_basic {u : CodeUnit} (hu : isBasic u = true) (s : List CodeUnit) :
    ofUtf16? (u :: s) = (ofUtf16? s).map (Char.ofNat u.toNat :: ·) := by
  obtain ⟨hhi, hlo⟩ := isBasic_iff.mp hu
  cases s with
  | nil => simp [ofUtf16?, hhi, hlo]
  | cons v s => simp [ofUtf16?, hhi, hlo]

theorem wellFormed_cons_iff {u : CodeUnit} (hu : isBasic u = true) {s : List CodeUnit} :
    WellFormed (u :: s) ↔ WellFormed s := by
  rw [wellFormed_iff, wellFormed_iff, ofUtf16?_cons_basic hu, Option.isSome_map]

/-- **No character stands across a unit that is no surrogate.** -/
theorem wellFormed_append_iff {a s : List CodeUnit} (hs : StartsBasic s) :
    WellFormed (a ++ s) ↔ WellFormed a ∧ WellFormed s := by
  constructor
  · intro h
    rw [wellFormed_iff] at h
    suffices hsplit : (ofUtf16? a).isSome = true ∧ (ofUtf16? s).isSome = true by
      rw [wellFormed_iff, wellFormed_iff]
      exact hsplit
    induction a using ofUtf16?.induct with
    | case1 => exact ⟨rfl, h⟩
    | case2 u hu =>
        -- a surrogate at the end would need its partner at the start of the rest
        exfalso
        cases s with
        | nil => simp [ofUtf16?, hu] at h
        | cons v s =>
            obtain ⟨-, hlow⟩ := isBasic_iff.mp (hs v rfl)
            simp only [Bool.or_eq_true] at hu
            cases hhi : isHigh u with
            | true => simp [ofUtf16?, hhi, hlow] at h
            | false => simp [ofUtf16?, hhi, hu.resolve_left (by simp [hhi])] at h
    | case3 u hu =>
        simp only [Bool.or_eq_true, not_or, Bool.not_eq_true] at hu
        have hbasic : isBasic u = true := isBasic_iff.mpr hu
        rw [List.singleton_append, ofUtf16?_cons_basic hbasic, Option.isSome_map] at h
        rw [ofUtf16?_cons_basic hbasic]
        exact ⟨rfl, h⟩
    | case4 u v a hu hv ih =>
        simp only [List.cons_append, ofUtf16?, hu, hv, if_true, Option.isSome_map] at h ⊢
        exact ih h
    | case5 u v a hu hv => simp [ofUtf16?, hu, hv] at h
    | case6 u v a hu hlo => simp [ofUtf16?, hu, hlo] at h
    | case7 u v a hu hlo ih =>
        simp only [Bool.not_eq_true] at hu hlo
        have hbasic : isBasic u = true := isBasic_iff.mpr ⟨hu, hlo⟩
        rw [List.cons_append, ofUtf16?_cons_basic hbasic, Option.isSome_map] at h
        rw [ofUtf16?_cons_basic hbasic, Option.isSome_map]
        exact ih h
  · intro h
    exact h.1.append h.2

end CekatEvents.Encoding
