/-
  CekatEvents.Encoding.Utf — UTF-16 code units, UTF-8 bytes, and the passage between them.

  Java, JavaScript and .NET strings are lists of 16-bit code units that need not be well-formed
  Unicode; a response body is a list of bytes that need not be well-formed UTF-8.  This file fixes
  both and the two decodings used on bodies:

    * `utf16` / `ofUtf16?`   — Unicode scalar values to code units, and the partial inverse that
                               fails exactly on an unpaired surrogate;
    * `utf8`  / `ofUtf8?`    — scalar values to bytes, and the strict decoder;
    * `ofUtf8Lossy`          — the decoder that puts U+FFFD for each maximal ill-formed subpart.

  Main results: `ofUtf16?_eq_some_iff`, `ofUtf8?_eq_some_iff`, `ofUtf8Lossy_utf8`.
-/
import Mathlib.Tactic

namespace CekatEvents.Encoding

/-! ## §1. Code units. -/

/-- A UTF-16 code unit. -/
abbrev CodeUnit := UInt16

/-- The code unit of a character of the basic multilingual plane. -/
def unit (c : Char) : CodeUnit := c.toNat.toUInt16

/-- The code units of a literal text of the basic multilingual plane. -/
def units (s : String) : List CodeUnit := s.toList.map unit

/-- A text is searched along its units, and not along all the 2¹⁶ values of a unit. -/
instance (priority := 2000) decidableForallUnits {p : CodeUnit → Prop} [DecidablePred p]
    (s : List CodeUnit) : Decidable (∀ u ∈ s, p u) :=
  List.decidableBAll p s

/-- A high (leading) surrogate. -/
def isHigh (u : CodeUnit) : Bool := decide (0xD800 ≤ u.toNat ∧ u.toNat ≤ 0xDBFF)

/-- A low (trailing) surrogate. -/
def isLow (u : CodeUnit) : Bool := decide (0xDC00 ≤ u.toNat ∧ u.toNat ≤ 0xDFFF)

/-! ## §2. UTF-16. -/

/-- The code units of one scalar value: itself, or a surrogate pair. -/
def utf16Char (c : Char) : List CodeUnit :=
  if c.toNat < 0x10000 then [c.toNat.toUInt16]
  else [(0xD800 + (c.toNat - 0x10000) / 0x400).toUInt16,
        (0xDC00 + (c.toNat - 0x10000) % 0x400).toUInt16]

/-- The code units of a text. -/
def utf16 (cs : List Char) : List CodeUnit := cs.flatMap utf16Char

/-- The scalar value of a surrogate pair. -/
def pairChar (u v : CodeUnit) : Char :=
  Char.ofNat (0x10000 + (u.toNat - 0xD800) * 0x400 + (v.toNat - 0xDC00))

/-- The text with the given code units, when they hold no unpaired surrogate. -/
def ofUtf16? : List CodeUnit → Option (List Char)
  | [] => some []
  | [u] => if isHigh u || isLow u then none else some [Char.ofNat u.toNat]
  | u :: v :: s =>
      if isHigh u then
        if isLow v then (ofUtf16? s).map (pairChar u v :: ·) else none
      else if isLow u then none
      else (ofUtf16? (v :: s)).map (Char.ofNat u.toNat :: ·)

@[simp] theorem utf16_nil : utf16 [] = [] := rfl

@[simp] theorem utf16_cons (c : Char) (cs : List Char) :
    utf16 (c :: cs) = utf16Char c ++ utf16 cs := rfl

@[simp] theorem utf16_append (a b : List Char) : utf16 (a ++ b) = utf16 a ++ utf16 b := by
  simp [utf16]

/-- A character of one unit, repeated. -/
theorem utf16_replicate (n : Nat) {c : Char} {u : CodeUnit} (h : utf16Char c = [u]) :
    utf16 (List.replicate n c) = List.replicate n u := by
  induction n with
  | zero => rfl
  | succ n ih =>
      rw [List.replicate_succ, utf16_cons, ih, h]
      rfl

theorem scalar_range (c : Char) :
    c.toNat < 0xD800 ∨ (0xDFFF < c.toNat ∧ c.toNat < 0x110000) := c.valid

theorem toNat_toUInt16 {n : Nat} (h : n < 0x10000) : n.toUInt16.toNat = n := by
  simpa [Nat.toUInt16] using h

theorem toNat_ofNat_of_valid {n : Nat} (h : n.isValidChar) : (Char.ofNat n).toNat = n := by
  rw [Char.ofNat, dif_pos h]
  rfl

/-- The three shapes of a non-empty list of code units the decoder takes apart: a character of the
    basic plane, or a surrogate pair. -/
theorem ofUtf16?_utf16Char_append (c : Char) (s : List CodeUnit) :
    ofUtf16? (utf16Char c ++ s) = (ofUtf16? s).map (c :: ·) := by
  have hc := scalar_range c
  unfold utf16Char
  by_cases h : c.toNat < 0x10000
  · have hn : c.toNat.toUInt16.toNat = c.toNat := toNat_toUInt16 h
    have hhi : isHigh c.toNat.toUInt16 = false := by
      simp only [isHigh, hn, decide_eq_false_iff_not]; omega
    have hlo : isLow c.toNat.toUInt16 = false := by
      simp only [isLow, hn, decide_eq_false_iff_not]; omega
    rw [if_pos h]
    cases s with
    | nil => simp [ofUtf16?, hhi, hlo, hn]
    | cons v s => simp [ofUtf16?, hhi, hlo, hn]
  · rw [if_neg h]
    have hhin : (0xD800 + (c.toNat - 0x10000) / 0x400).toUInt16.toNat
        = 0xD800 + (c.toNat - 0x10000) / 0x400 := toNat_toUInt16 (by omega)
    have hlon : (0xDC00 + (c.toNat - 0x10000) % 0x400).toUInt16.toNat
        = 0xDC00 + (c.toNat - 0x10000) % 0x400 := toNat_toUInt16 (by omega)
    have hhi : isHigh (0xD800 + (c.toNat - 0x10000) / 0x400).toUInt16 = true := by
      simp only [isHigh, hhin, decide_eq_true_eq]; omega
    have hlo : isLow (0xDC00 + (c.toNat - 0x10000) % 0x400).toUInt16 = true := by
      simp only [isLow, hlon, decide_eq_true_eq]; omega
    have hpair : pairChar (0xD800 + (c.toNat - 0x10000) / 0x400).toUInt16
        (0xDC00 + (c.toNat - 0x10000) % 0x400).toUInt16 = c := by
      unfold pairChar
      rw [hhin, hlon]
      have hval : 0x10000 + (0xD800 + (c.toNat - 0x10000) / 0x400 - 0xD800) * 0x400
          + (0xDC00 + (c.toNat - 0x10000) % 0x400 - 0xDC00) = c.toNat := by omega
      rw [hval, Char.ofNat_toNat]
    simp only [List.cons_append, List.nil_append, ofUtf16?]
    rw [hhi, hlo, hpair, if_pos rfl, if_pos rfl]

@[simp] theorem ofUtf16?_utf16 (cs : List Char) : ofUtf16? (utf16 cs) = some cs := by
  induction cs with
  | nil => rfl
  | cons c cs ih => rw [utf16_cons, ofUtf16?_utf16Char_append, ih]; rfl

/-- Different texts have different code units. -/
theorem utf16_injective : Function.Injective utf16 := by
  intro a b h
  have ha := ofUtf16?_utf16 a
  rw [h, ofUtf16?_utf16] at ha
  exact (Option.some.inj ha).symm

theorem utf16Char_of_basic {u : CodeUnit} (hhi : isHigh u = false) (hlo : isLow u = false) :
    utf16Char (Char.ofNat u.toNat) = [u] := by
  have hlt : u.toNat < 0x10000 := u.toNat_lt
  simp only [isHigh, isLow, decide_eq_false_iff_not] at hhi hlo
  have hvalid : u.toNat.isValidChar := by
    simp only [Nat.isValidChar]; omega
  have hn := toNat_ofNat_of_valid hvalid
  simp [utf16Char, hn, hlt, Nat.toUInt16]

theorem utf16Char_pairChar {u v : CodeUnit} (hu : isHigh u = true) (hv : isLow v = true) :
    utf16Char (pairChar u v) = [u, v] := by
  simp only [isHigh, isLow, decide_eq_true_eq] at hu hv
  have hvalid : (0x10000 + (u.toNat - 0xD800) * 0x400 + (v.toNat - 0xDC00)).isValidChar := by
    simp only [Nat.isValidChar]; omega
  have hn := toNat_ofNat_of_valid hvalid
  have hdiv : 0xD800 + (0x10000 + (u.toNat - 0xD800) * 0x400 + (v.toNat - 0xDC00) - 0x10000) / 0x400
      = u.toNat := by omega
  have hmod : 0xDC00 + (0x10000 + (u.toNat - 0xD800) * 0x400 + (v.toNat - 0xDC00) - 0x10000) % 0x400
      = v.toNat := by omega
  unfold utf16Char pairChar
  rw [hn, if_neg (by omega), hdiv, hmod]
  simp [Nat.toUInt16]

/-- Decoding loses nothing: the text found has the given code units. -/
theorem utf16_of_ofUtf16? : ∀ {s : List CodeUnit} {cs : List Char},
    ofUtf16? s = some cs → utf16 cs = s := by
  intro s
  induction s using ofUtf16?.induct with
  | case1 => intro cs h; cases h; rfl
  | case2 u hu => intro cs h; simp [ofUtf16?, hu] at h
  | case3 u hu =>
      intro cs h
      simp only [Bool.or_eq_true, not_or, Bool.not_eq_true] at hu
      simp [ofUtf16?, hu] at h
      simp [← h, utf16Char_of_basic hu.1 hu.2]
  | case4 u v s hu hv ih =>
      intro cs h
      simp only [ofUtf16?, hu, hv, if_true, Option.map_eq_some_iff] at h
      obtain ⟨ds, hds, rfl⟩ := h
      simp [utf16Char_pairChar hu hv, ih hds]
  | case5 u v s hu hv => intro cs h; simp [ofUtf16?, hu, hv] at h
  | case6 u v s hu hlo => intro cs h; simp [ofUtf16?, hu, hlo] at h
  | case7 u v s hu hlo ih =>
      intro cs h
      simp only [Bool.not_eq_true] at hu hlo
      simp only [ofUtf16?, hu, hlo, Bool.false_eq_true, if_false, Option.map_eq_some_iff] at h
      obtain ⟨ds, hds, rfl⟩ := h
      simp [utf16Char_of_basic hu hlo, ih hds]

/-- **The decoder is the inverse of `utf16`.** -/
theorem ofUtf16?_eq_some_iff {s : List CodeUnit} {cs : List Char} :
    ofUtf16? s = some cs ↔ utf16 cs = s := by
  constructor
  · exact utf16_of_ofUtf16?
  · rintro rfl
    exact ofUtf16?_utf16 cs

/-- A list of code units that is the UTF-16 form of some text. -/
def WellFormed (s : List CodeUnit) : Prop := ∃ cs, utf16 cs = s

theorem wellFormed_iff {s : List CodeUnit} : WellFormed s ↔ (ofUtf16? s).isSome = true := by
  simp [WellFormed, Option.isSome_iff_exists, ofUtf16?_eq_some_iff]

instance (s : List CodeUnit) : Decidable (WellFormed s) := decidable_of_iff _ wellFormed_iff.symm

theorem WellFormed.nil : WellFormed [] := ⟨[], rfl⟩

theorem WellFormed.append {a b : List CodeUnit} (ha : WellFormed a) (hb : WellFormed b) :
    WellFormed (a ++ b) := by
  obtain ⟨as, rfl⟩ := ha
  obtain ⟨bs, rfl⟩ := hb
  exact ⟨as ++ bs, utf16_append as bs⟩

/-- A code unit outside the surrogate range stands for a character by itself. -/
theorem WellFormed.cons {u : CodeUnit} {s : List CodeUnit} (hhi : isHigh u = false)
    (hlo : isLow u = false) (hs : WellFormed s) : WellFormed (u :: s) := by
  obtain ⟨cs, rfl⟩ := hs
  exact ⟨Char.ofNat u.toNat :: cs, by simp [utf16Char_of_basic hhi hlo]⟩

/-- ASCII text is well formed. -/
theorem WellFormed.of_ascii {s : List CodeUnit} (h : ∀ u ∈ s, u.toNat < 0x80) : WellFormed s := by
  induction s with
  | nil => exact .nil
  | cons u s ih =>
      have hu := h u List.mem_cons_self
      refine .cons ?_ ?_ (ih fun v hv => h v (List.mem_cons_of_mem u hv))
      · simp only [isHigh, decide_eq_false_iff_not]; omega
      · simp only [isLow, decide_eq_false_iff_not]; omega

/-! ## §3. UTF-8. -/

/-- The UTF-8 bytes of a text. -/
def utf8 (cs : List Char) : List UInt8 := cs.flatMap String.utf8EncodeChar

/-- The strict decoder: fails on the first ill-formed sequence. -/
def ofUtf8? (bytes : List UInt8) : Option (List Char) :=
  bytes.toByteArray.utf8Decode?.map Array.toList

@[simp] theorem utf8_cons (c : Char) (cs : List Char) :
    utf8 (c :: cs) = String.utf8EncodeChar c ++ utf8 cs := rfl

theorem toByteArray_utf8 (cs : List Char) : (utf8 cs).toByteArray = cs.utf8Encode := rfl

@[simp] theorem ofUtf8?_utf8 (cs : List Char) : ofUtf8? (utf8 cs) = some cs := by
  simp [ofUtf8?, toByteArray_utf8]

/-- **The strict decoder is the inverse of `utf8`.** -/
theorem ofUtf8?_eq_some_iff {bytes : List UInt8} {cs : List Char} :
    ofUtf8? bytes = some cs ↔ utf8 cs = bytes := by
  constructor
  · intro h
    simp only [ofUtf8?, Option.map_eq_some_iff] at h
    obtain ⟨arr, harr, rfl⟩ := h
    have hsome : bytes.toByteArray.utf8Decode?.isSome := by simp [harr]
    have hget := ByteArray.utf8Encode_get_utf8Decode? (b := bytes.toByteArray) (h := hsome)
    simp only [harr, Option.get_some] at hget
    rw [← toByteArray_utf8] at hget
    simpa using congrArg (fun b : ByteArray => b.data.toList) hget
  · rintro rfl
    exact ofUtf8?_utf8 cs

/-- The first character of a sequence of bytes is determined by them. -/
theorem utf8EncodeChar_append_inj {c d : Char} {x y : List UInt8}
    (h : String.utf8EncodeChar c ++ x = String.utf8EncodeChar d ++ y) : c = d := by
  have hdecode : ∀ (c : Char) (x : List UInt8),
      (String.utf8EncodeChar c ++ x).toByteArray.utf8DecodeChar? 0 = some c := by
    intro c x
    rw [List.toByteArray_append]
    exact ByteArray.utf8DecodeChar?_utf8EncodeChar_append
  have hc := hdecode c x
  rw [h, hdecode d y, Option.some.injEq] at hc
  exact hc.symm

/-- A continuation byte. -/
def isTail (b : UInt8) : Bool := decide (0x80 ≤ b ∧ b ≤ 0xBF)

/-- `b` may stand second in a well-formed sequence led by `a` (three and four byte forms). -/
def secondOk (a b : UInt8) : Bool :=
  if a = 0xE0 then decide (0xA0 ≤ b ∧ b ≤ 0xBF)
  else if a = 0xED then decide (0x80 ≤ b ∧ b ≤ 0x9F)
  else if a = 0xF0 then decide (0x90 ≤ b ∧ b ≤ 0xBF)
  else if a = 0xF4 then decide (0x80 ≤ b ∧ b ≤ 0x8F)
  else isTail b

/-- The length of the maximal subpart to replace where no character can be decoded. -/
def illFormedLength : List UInt8 → Nat
  | a :: b :: rest =>
      if 0xE0 ≤ a ∧ a ≤ 0xF4 ∧ secondOk a b = true then
        if 0xF0 ≤ a ∧ (rest.head?.any isTail) = true then 3 else 2
      else 1
  | _ => 1

/-- Decoding with U+FFFD for each maximal ill-formed subpart; the first argument bounds the rounds. -/
def lossyRounds : Nat → List UInt8 → List Char
  | 0, _ => []
  | n + 1, bytes =>
      if bytes = [] then [] else
      match bytes.toByteArray.utf8DecodeChar? 0 with
      | some c => c :: lossyRounds n (bytes.drop c.utf8Size)
      | none => Char.ofNat 0xFFFD :: lossyRounds n (bytes.drop (illFormedLength bytes))

/-- The lenient decoder of Java's `new String(bytes, UTF_8)` and of `TextDecoder`. -/
def ofUtf8Lossy (bytes : List UInt8) : List Char := lossyRounds bytes.length bytes

theorem lossyRounds_utf8 : ∀ (cs : List Char) (n : Nat), (utf8 cs).length ≤ n →
    lossyRounds n (utf8 cs) = cs := by
  intro cs
  induction cs with
  | nil => intro n _; cases n <;> simp [utf8, lossyRounds]
  | cons c cs ih =>
      intro n hn
      have hpos := c.utf8Size_pos
      rw [utf8_cons, List.length_append, String.length_utf8EncodeChar] at hn
      obtain ⟨n, rfl⟩ : ∃ k, n = k + 1 := ⟨n - 1, by omega⟩
      have hhead : (String.utf8EncodeChar c ++ utf8 cs).toByteArray.utf8DecodeChar? 0 = some c := by
        rw [List.toByteArray_append]
        exact ByteArray.utf8DecodeChar?_utf8EncodeChar_append
      have hdrop : (String.utf8EncodeChar c ++ utf8 cs).drop c.utf8Size = utf8 cs := by
        rw [← String.length_utf8EncodeChar, List.drop_left]
      have hne : String.utf8EncodeChar c ++ utf8 cs ≠ [] := by
        simp [String.utf8EncodeChar_ne_nil]
      rw [utf8_cons, lossyRounds, if_neg hne, hhead]
      simp only [hdrop]
      rw [ih n (by omega)]

/-- **On well-formed bytes the lenient decoder replaces nothing.** -/
@[simp] theorem ofUtf8Lossy_utf8 (cs : List Char) : ofUtf8Lossy (utf8 cs) = cs :=
  lossyRounds_utf8 cs _ (Nat.le_refl _)

end CekatEvents.Encoding
