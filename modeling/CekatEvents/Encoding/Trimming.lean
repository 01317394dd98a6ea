/-
  CekatEvents.Encoding.Trimming — trimming a text and trimming what it is encoded as.

  Languages trim different white space, and they trim different things: characters, code units.
  A settled text is one without the characters that only some of them take for white space; all of them
  then trim the same of it.

    * `trim_flatMap` — an encoding of characters that are trimmed as a whole;
    * `trim_utf16`   — the same for the code units of a settled text.
-/
import CekatEvents.Encoding.Space

namespace CekatEvents.Encoding

/-! ## §1. Trimming what is encoded. -/

section Trim

variable {α β : Type} {p : α → Bool} {q : β → Bool}

theorem dropWhile_congr {p' : α → Bool} {s : List α} (h : ∀ c ∈ s, p c = p' c) :
    s.dropWhile p = s.dropWhile p' := by
  induction s with
  | nil => rfl
  | cons c s ih =>
      rw [List.dropWhile_cons, List.dropWhile_cons, h c List.mem_cons_self,
        ih fun d hd => h d (List.mem_cons_of_mem c hd)]

/-- Two tests that agree on a text trim it alike. -/
theorem trim_congr {p' : α → Bool} {s : List α} (h : ∀ c ∈ s, p c = p' c) : trim p s = trim p' s := by
  unfold trim
  rw [dropWhile_congr h]
  congr 1
  apply dropWhile_congr
  intro c hc
  exact h c ((List.dropWhile_suffix p').subset (List.mem_reverse.mp hc))

theorem dropWhile_flatMap {f : α → List β} {s : List α} (hne : ∀ c ∈ s, f c ≠ [])
    (h : ∀ c ∈ s, ∀ u ∈ f c, q u = p c) : (s.flatMap f).dropWhile q = (s.dropWhile p).flatMap f := by
  induction s with
  | nil => rfl
  | cons c s ih =>
      have hrest := ih (fun d hd => hne d (List.mem_cons_of_mem c hd))
        fun d hd => h d (List.mem_cons_of_mem c hd)
      rw [List.flatMap_cons, List.dropWhile_cons]
      cases hc : p c with
      | true =>
          rw [List.dropWhile_append_of_pos, hrest, if_pos rfl]
          intro u hu
          rw [h c List.mem_cons_self u hu, hc]
      | false =>
          obtain ⟨u, us, hus⟩ := List.exists_cons_of_ne_nil (hne c List.mem_cons_self)
          have hu : q u = false := by
            rw [h c List.mem_cons_self u (hus ▸ List.mem_cons_self), hc]
          rw [if_neg Bool.false_ne_true, List.flatMap_cons, hus, List.cons_append,
            List.dropWhile_cons_of_neg (by rw [hu]; exact Bool.false_ne_true)]

/-- **Where every element is encoded by elements that are all trimmed or all kept**, trimming and encoding can
    be done in either order. -/
theorem trim_flatMap {f : α → List β} {s : List α} (hne : ∀ c ∈ s, f c ≠ [])
    (h : ∀ c ∈ s, ∀ u ∈ f c, q u = p c) : trim q (s.flatMap f) = (trim p s).flatMap f := by
  have hsub : ∀ c ∈ (s.dropWhile p).reverse, c ∈ s := fun c hc =>
    (List.dropWhile_suffix p).subset (List.mem_reverse.mp hc)
  unfold trim
  rw [dropWhile_flatMap hne h, List.reverse_flatMap, dropWhile_flatMap (p := p), List.flatMap_reverse]
  · intro c hc
    rw [Function.comp_apply, Ne, List.reverse_eq_nil_iff]
    exact hne c (hsub c hc)
  · intro c hc u hu
    exact h c (hsub c hc) u (List.mem_reverse.mp hu)

end Trim

/-! ## §2. Settled texts. -/

/-- White space in every language: tab, line feed, vertical tab, carriage return and space. -/
def isCommonSpace (n : Nat) : Bool := n == 0x09 || n == 0x0A || n == 0x0B || n == 0x0D || n == 0x20

/-- White space in some languages only: NUL, form feed, the information separators, next line, the spaces
    and separators outside ASCII, and the byte-order mark. -/
def isDisputedSpace (n : Nat) : Bool :=
  n == 0 || n == 0x0C || decide (0x1C ≤ n ∧ n ≤ 0x1F) || n == 0x85 || isSeparator n || n == 0xFEFF

/-- **A text without disputed white space.** -/
def Settled (cs : List Char) : Prop := ∀ c ∈ cs, isDisputedSpace c.toNat = false

/-- What every language leaves of a settled text. -/
def trimCommon (cs : List Char) : List Char := trim (fun c => isCommonSpace c.toNat) cs

/-- **Characters.** -/
theorem trim_settled {space : Char → Bool} {cs : List Char} (hcs : Settled cs)
    (hspace : ∀ c : Char, isDisputedSpace c.toNat = false → space c = isCommonSpace c.toNat) :
    trim space cs = trimCommon cs :=
  trim_congr fun c hc => hspace c (hcs c hc)

/-- A unit of a character: the character itself, or a surrogate. -/
theorem mem_utf16Char {c : Char} {u : CodeUnit} (h : u ∈ utf16Char c) :
    u.toNat = c.toNat ∨ (0x10000 ≤ c.toNat ∧ 0xD800 ≤ u.toNat ∧ u.toNat ≤ 0xDFFF) := by
  have hrange := scalar_range c
  unfold utf16Char at h
  split_ifs at h with hbasic
  · rw [List.mem_singleton] at h
    left
    rw [h, toNat_toUInt16 hbasic]
  · right
    rw [List.mem_cons, List.mem_singleton] at h
    rcases h with rfl | rfl
    · rw [toNat_toUInt16 (by omega)]
      omega
    · rw [toNat_toUInt16 (by omega)]
      omega

theorem utf16Char_ne_nil (c : Char) : utf16Char c ≠ [] := by
  unfold utf16Char
  split_ifs
  · exact List.cons_ne_nil _ _
  · exact List.cons_ne_nil _ _

theorem utf16_eq_nil_iff {cs : List Char} : utf16 cs = [] ↔ cs = [] :=
  ⟨fun h => utf16_injective h, fun h => h ▸ utf16_nil⟩

/-- Beyond the Basic Multilingual Plane, and at surrogates, there is no white space. -/
theorem isCommonSpace_large {n : Nat} (h : 0x21 ≤ n) : isCommonSpace n = false := by
  unfold isCommonSpace
  simp only [Bool.or_eq_false_iff, beq_eq_false_iff_ne]
  omega

/-- **Code units.** -/
theorem trim_utf16 {space : CodeUnit → Bool} {cs : List Char} (hcs : Settled cs)
    (hspace : ∀ u : CodeUnit, isDisputedSpace u.toNat = false → space u = isCommonSpace u.toNat) :
    trim space (utf16 cs) = utf16 (trimCommon cs) := by
  apply trim_flatMap (fun c _ => utf16Char_ne_nil c)
  intro c hc u hu
  rcases mem_utf16Char hu with heq | ⟨hc', hlow, hhigh⟩
  · rw [hspace u (heq ▸ hcs c hc), heq]
  · have hdisputed : isDisputedSpace u.toNat = false := by
      unfold isDisputedSpace isSeparator isBreakingSeparator
      simp only [Bool.or_eq_false_iff, beq_eq_false_iff_ne, decide_eq_false_iff_not]
      omega
    rw [hspace u hdisputed, isCommonSpace_large (by omega), isCommonSpace_large (by omega)]

/-- ASCII is one byte for each character. -/
theorem utf8EncodeChar_low {c : Char} (h : c.toNat < 0x80) :
    String.utf8EncodeChar c = [c.toNat.toUInt8] := by
  have hle : c.val.toNat ≤ 0x7F := Nat.le_of_lt_succ h
  unfold String.utf8EncodeChar
  simp only [if_pos hle]
  rfl

/-- The bytes of other characters are none of ASCII. -/
theorem utf8EncodeChar_high {c : Char} (h : 0x80 ≤ c.toNat) :
    ∀ b ∈ String.utf8EncodeChar c, 0x80 ≤ b.toNat := by
  have hgt : ¬ c.val.toNat ≤ 0x7F := Nat.not_le.mpr h
  have hlt : c.val.toNat < 0x110000 := by
    rcases c.valid with hlow | hhigh
    · exact Nat.lt_trans hlow (by decide)
    · exact hhigh.2
  unfold String.utf8EncodeChar
  simp only [if_neg hgt]
  split_ifs
  all_goals
    simp only [List.forall_mem_cons, List.not_mem_nil, false_imp_iff, implies_true, and_true,
      UInt8.toNat_ofNat']
    omega

theorem utf8_eq_nil_iff {cs : List Char} : utf8 cs = [] ↔ cs = [] := by
  constructor
  · intro h
    rw [← ofUtf8Bytewise_utf8 cs, h]
    rfl
  · intro h
    rw [h]
    rfl

end CekatEvents.Encoding
