/-
  CekatEvents.Encoding.Hex — bytes as lower-case hexadecimal digits, and bytes with some bits fixed.

  Main results:

    • `hexEncode_injective` — different bytes have different digits;
    • `masked_eq_iff`       — what two bytes agree in when they are equal with some bits fixed.
-/
import Mathlib.Data.Nat.Bitwise

namespace CekatEvents.Encoding

/-! ## §1. Digits. -/

/-- The ASCII character of a hexadecimal digit. -/
def hexDigit (n : Nat) : UInt8 := if n < 10 then (0x30 + n).toUInt8 else (0x57 + n).toUInt8

/-- `0`–`9` and `a`–`f`. -/
def isLowerHex (c : UInt8) : Bool := decide ((0x30 ≤ c ∧ c ≤ 0x39) ∨ (0x61 ≤ c ∧ c ≤ 0x66))

def hexByte (b : UInt8) : List UInt8 := [hexDigit (b.toNat / 16), hexDigit (b.toNat % 16)]

def hexEncode (bytes : List UInt8) : List UInt8 := bytes.flatMap hexByte

theorem isLowerHex_hexDigit {n : Nat} (h : n < 16) : isLowerHex (hexDigit n) = true := by
  revert n
  decide

theorem hexDigit_injective {m n : Nat} (hm : m < 16) (hn : n < 16) (h : hexDigit m = hexDigit n) : m = n := by
  have hall : ∀ m < 16, ∀ n < 16, hexDigit m = hexDigit n → m = n := by decide
  exact hall m hm n hn h

theorem hexByte_injective {a b : UInt8} (h : hexByte a = hexByte b) : a = b := by
  have ha := a.toNat_lt
  have hb := b.toNat_lt
  unfold hexByte at h
  rw [List.cons.injEq, List.cons.injEq] at h
  have hhigh := hexDigit_injective (by omega) (by omega) h.1
  have hlow := hexDigit_injective (by omega) (by omega) h.2.1
  apply UInt8.toNat_inj.mp
  omega

@[simp] theorem hexEncode_nil : hexEncode [] = [] := rfl

theorem hexEncode_cons (b : UInt8) (bytes : List UInt8) : hexEncode (b :: bytes) = hexByte b ++ hexEncode bytes :=
  List.flatMap_cons

theorem hexEncode_append (bytes more : List UInt8) : hexEncode (bytes ++ more) = hexEncode bytes ++ hexEncode more :=
  List.flatMap_append

@[simp] theorem length_hexEncode (bytes : List UInt8) : (hexEncode bytes).length = 2 * bytes.length := by
  induction bytes with
  | nil => rfl
  | cons b bytes ih =>
      rw [hexEncode_cons, List.length_append, ih, List.length_cons]
      show 2 + 2 * bytes.length = _
      omega

/-- **There is nothing but digits.** -/
theorem isLowerHex_of_mem {bytes : List UInt8} {c : UInt8} (h : c ∈ hexEncode bytes) : isLowerHex c = true := by
  obtain ⟨b, -, hc⟩ := List.mem_flatMap.mp h
  have hb := b.toNat_lt
  unfold hexByte at hc
  simp only [List.mem_cons, List.not_mem_nil, or_false] at hc
  rcases hc with rfl | rfl
  · exact isLowerHex_hexDigit (by omega)
  · exact isLowerHex_hexDigit (by omega)

/-- **Different bytes have different digits.** -/
theorem hexEncode_injective {bytes more : List UInt8} (h : hexEncode bytes = hexEncode more) : bytes = more := by
  induction bytes generalizing more with
  | nil =>
      cases more with
      | nil => rfl
      | cons b more => cases h
  | cons a bytes ih =>
      cases more with
      | nil => cases h
      | cons b more =>
          rw [hexEncode_cons, hexEncode_cons] at h
          obtain ⟨hbyte, hrest⟩ := List.append_inj h rfl
          rw [hexByte_injective hbyte, ih hrest]

/-- The digits of the first bytes. -/
theorem hexEncode_take (bytes : List UInt8) (n : Nat) : hexEncode (bytes.take n) = (hexEncode bytes).take (2 * n) := by
  rw [← List.take_append_drop n bytes, hexEncode_append, List.take_append_drop]
  rcases Nat.le_total n bytes.length with hle | hle
  · have hlen : (hexEncode (bytes.take n)).length = 2 * n := by
      rw [length_hexEncode, List.length_take_of_le hle]
    rw [← hlen, List.take_left]
  · rw [List.drop_eq_nil_of_le hle, hexEncode_nil, List.append_nil, List.take_of_length_le hle,
      List.take_of_length_le (by rw [length_hexEncode]; omega)]

/-- The digits of the other bytes. -/
theorem hexEncode_drop (bytes : List UInt8) (n : Nat) : hexEncode (bytes.drop n) = (hexEncode bytes).drop (2 * n) := by
  have hcut : hexEncode (bytes.take n) ++ hexEncode (bytes.drop n)
      = hexEncode (bytes.take n) ++ (hexEncode bytes).drop (2 * n) := by
    rw [← hexEncode_append, List.take_append_drop, hexEncode_take, List.take_append_drop]
  exact List.append_cancel_left hcut

/-! ## §2. Fixed bits. -/

/-- **Two bytes are equal, once the bits outside a mask are fixed, when they agree inside it.** -/
theorem masked_eq_iff {mask fixed a b : UInt8} (h : mask &&& fixed = 0) :
    (a &&& mask) ||| fixed = (b &&& mask) ||| fixed ↔
      ∀ k, mask.toNat.testBit k = true → a.toNat.testBit k = b.toNat.testBit k := by
  have hapart : ∀ k, (mask.toNat.testBit k && fixed.toNat.testBit k) = false := by
    intro k
    rw [← Nat.testBit_and, ← UInt8.toNat_and, h]
    exact Nat.zero_testBit k
  rw [← UInt8.toNat_inj]
  simp only [UInt8.toNat_or, UInt8.toNat_and]
  constructor
  · intro heq k hk
    have hbit := congrArg (fun n => n.testBit k) heq
    have hfixed := hapart k
    simp only [Nat.testBit_or, Nat.testBit_and, hk, Bool.true_and, Bool.and_true] at hbit hfixed
    rwa [hfixed, Bool.or_false, Bool.or_false] at hbit
  · intro hagree
    apply Nat.eq_of_testBit_eq
    intro k
    simp only [Nat.testBit_or, Nat.testBit_and]
    cases hk : mask.toNat.testBit k with
    | false => rw [Bool.and_false, Bool.and_false]
    | true => rw [hagree k hk]

end CekatEvents.Encoding
