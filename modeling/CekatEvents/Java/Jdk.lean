/-
  CekatEvents.Java.Jdk — the parts of the Java class library the core relies on.

  Each definition follows the class documentation: `Character.digit` with its digit and fullwidth
  letter ranges, `Integer.parseInt` with its optional sign, and the numbers written by
  `new BigDecimal(String)` with the documented bounds on exponent and scale.  The sizes a virtual
  machine can hold (string lengths, the magnitude of a `BigInteger`) are not modelled here.

  Main results:
    * `parseInt_strictHex`    — four ASCII hexadecimal digits are read as their value;
    * `BigDecimal.ofString?_text` — on a JSON number the constructor computes `bigDecimal?`.
-/
import Mathlib.Data.Nat.Digits.Defs
import CekatEvents.JsonText.Value

namespace CekatEvents.Java

open CekatEvents.Encoding CekatEvents.JsonText

/-! ## §1. `Character.digit`. -/

/-- The first code units of the runs of ten decimal digits of the basic multilingual plane, after the
    ASCII one. -/
def otherZeroDigits : List Nat :=
  [0x0660, 0x06F0, 0x07C0, 0x0966, 0x09E6, 0x0A66, 0x0AE6, 0x0B66, 0x0BE6, 0x0C66, 0x0CE6, 0x0D66,
   0x0DE6, 0x0E50, 0x0ED0, 0x0F20, 0x1040, 0x1090, 0x17E0, 0x1810, 0x1946, 0x19D0, 0x1A80, 0x1A90,
   0x1B50, 0x1BB0, 0x1C40, 0x1C50, 0xA620, 0xA8D0, 0xA900, 0xA9D0, 0xA9F0, 0xAA50, 0xABF0, 0xFF10]

/-- The run of decimal digits that holds the code unit. -/
def zeroDigit? (c : CodeUnit) : Option Nat :=
  if 0x30 ≤ c.toNat ∧ c.toNat < 0x3A then some 0x30
  else otherZeroDigits.find? fun z => z ≤ c.toNat && c.toNat < z + 10

/-- The run of letters that holds the code unit: ASCII or fullwidth, either case. -/
def letterA? (c : CodeUnit) : Option Nat :=
  if 0x41 ≤ c.toNat ∧ c.toNat < 0x5B then some 0x41
  else if 0x61 ≤ c.toNat ∧ c.toNat < 0x7B then some 0x61
  else if 0xFF21 ≤ c.toNat ∧ c.toNat < 0xFF3B then some 0xFF21
  else if 0xFF41 ≤ c.toNat ∧ c.toNat < 0xFF5B then some 0xFF41
  else none

/-- The digit value of a code unit in any radix. -/
def digitValue (c : CodeUnit) : Option Nat :=
  match zeroDigit? c with
  | some z => some (c.toNat - z)
  | none => (letterA? c).map fun a => c.toNat - a + 10

/-- `Character.digit(c, radix)`, with `none` for -1. -/
def Character.digit (c : CodeUnit) (radix : Nat) : Option Nat :=
  (digitValue c).filter fun n => n < radix

/-- `Character.isDigit(c)`. -/
def Character.isDigit (c : CodeUnit) : Bool := (zeroDigit? c).isSome

theorem zeroDigit?_of_isDigit {u : CodeUnit} (hu : isDigit u = true) :
    zeroDigit? u = some 0x30 := by
  have h := isDigit_toNat.mp hu
  rw [zeroDigit?, if_pos (by omega)]

/-- Below the Arabic-Indic digits only the ASCII ones are decimal digits. -/
theorem zeroDigit?_of_low {u : CodeUnit} (hu : isDigit u = false) (hlow : u.toNat < 0x660) :
    zeroDigit? u = none := by
  have hne : ¬ (0x30 ≤ u.toNat ∧ u.toNat < 0x3A) := by
    intro h
    rw [isDigit_toNat.mpr (by omega)] at hu
    exact Bool.noConfusion hu
  rw [zeroDigit?, if_neg hne, List.find?_eq_none]
  intro z hz
  have hz : 0x660 ≤ z := by
    revert z
    decide
  simp only [Bool.and_eq_true, decide_eq_true_eq]
  omega

/-- Up to `'9'` the only decimal digits are the ASCII ones. -/
theorem isDigit_ascii (c : CodeUnit) :
    (Character.isDigit c && decide (c ≤ unit '9')) = isDigit c := by
  have h9 : (unit '9').toNat = 0x39 := by decide
  cases hc : isDigit c with
  | true =>
      have h := isDigit_toNat.mp hc
      have hle : c ≤ unit '9' := by rw [UInt16.le_iff_toNat_le]; omega
      simp [Character.isDigit, zeroDigit?_of_isDigit hc, hle]
  | false =>
      by_cases hle : c ≤ unit '9'
      · have hlow : c.toNat ≤ 0x39 := by rw [UInt16.le_iff_toNat_le] at hle; omega
        simp [Character.isDigit, zeroDigit?_of_low hc (by omega)]
      · simp [hle]

theorem digit_ten {u : CodeUnit} (hu : isDigit u = true) :
    Character.digit u 10 = some (u.toNat - 0x30) := by
  have h := isDigit_toNat.mp hu
  have hlt : u.toNat - 0x30 < 10 := by omega
  simp [Character.digit, digitValue, zeroDigit?_of_isDigit hu, Option.filter, hlt]

theorem digitValue_hex {u : CodeUnit} (hu : isHexDigit u = true) :
    digitValue u = some (hexValue u) := by
  have h := isHexDigit_toNat.mp hu
  cases hd : isDigit u with
  | true =>
      have hle := (isDigit_toNat.mp hd).2
      rw [digitValue, zeroDigit?_of_isDigit hd, hexValue, if_pos hle]
  | false =>
      have hgt : ¬ u.toNat ≤ 0x39 := by
        intro hle
        rw [isDigit_toNat.mpr (by omega)] at hd
        exact Bool.noConfusion hd
      rw [digitValue, zeroDigit?_of_low hd (by omega), hexValue, if_neg hgt]
      show (letterA? u).map _ = _
      by_cases hup : u.toNat ≤ 0x46
      · rw [letterA?, if_pos (by omega), if_pos hup]
        rfl
      · rw [letterA?, if_neg (by omega), if_pos (by omega), if_neg hup]
        rfl

theorem digit_hex {u : CodeUnit} (hu : isHexDigit u = true) :
    Character.digit u 16 = some (hexValue u) := by
  simp [Character.digit, digitValue_hex hu, Option.filter, hexValue_lt hu]

/-! ## §2. `Integer.parseInt`. -/

/-- The number written by a list of digits, most significant first. -/
def digitsValue (radix : Nat) (ds : List Nat) : Nat := Nat.ofDigits radix ds.reverse

/-- Take an optional leading sign off. -/
def signed : List CodeUnit → Bool × List CodeUnit
  | [] => (false, [])
  | c :: s => if c = unit '-' then (true, s) else if c = unit '+' then (false, s) else (false, c :: s)

def applySign (neg : Bool) (n : Nat) : Int := if neg then -(n : Int) else n

@[simp] theorem applySign_false (n : Nat) : applySign false n = n := rfl

theorem applySign_bounds {neg : Bool} {n : Nat} {m : Int} :
    -m ≤ applySign neg n ∧ applySign neg n ≤ m ↔ (n : Int) ≤ m := by
  cases neg with
  | false => simp only [applySign_false]; omega
  | true =>
      show -m ≤ -(n : Int) ∧ -(n : Int) ≤ m ↔ (n : Int) ≤ m
      omega

/-- `Integer.parseInt(s, radix)`, with `none` for a `NumberFormatException`. -/
def Integer.parseInt (s : List CodeUnit) (radix : Nat) : Option Int :=
  match (signed s).2.mapM fun c => Character.digit c radix with
  | none => none
  | some ds =>
      if ds = [] then none
      else if -2 ^ 31 ≤ applySign (signed s).1 (digitsValue radix ds) ∧
          applySign (signed s).1 (digitsValue radix ds) < 2 ^ 31 then
        some (applySign (signed s).1 (digitsValue radix ds))
      else none

/-- The narrowing cast `(char) i`. -/
def toChar (i : Int) : CodeUnit := (i % 2 ^ 16).toNat.toUInt16

theorem hexDigit_ne_sign {u : CodeUnit} (hu : isHexDigit u = true) : u ≠ unit '-' ∧ u ≠ unit '+' := by
  constructor
  · intro h
    rw [h] at hu
    exact absurd hu (by decide)
  · intro h
    rw [h] at hu
    exact absurd hu (by decide)

/-- **Four hexadecimal digits are read as their value.** -/
theorem parseInt_strictHex {a b c d : CodeUnit} (h : strictHex a b c d = true) :
    (Integer.parseInt [a, b, c, d] 16).map toChar = some (hexUnit a b c d) := by
  simp only [strictHex, Bool.and_eq_true] at h
  obtain ⟨⟨⟨ha, hb⟩, hc⟩, hd⟩ := h
  obtain ⟨hminus, hplus⟩ := hexDigit_ne_sign ha
  have hsign : signed [a, b, c, d] = (false, [a, b, c, d]) := by
    rw [signed, if_neg hminus, if_neg hplus]
  have hmap : [a, b, c, d].mapM (fun u => Character.digit u 16)
      = some [hexValue a, hexValue b, hexValue c, hexValue d] := by
    simp [List.mapM_cons, digit_hex ha, digit_hex hb, digit_hex hc, digit_hex hd]
  have hval : digitsValue 16 [hexValue a, hexValue b, hexValue c, hexValue d]
      = ((hexValue a * 16 + hexValue b) * 16 + hexValue c) * 16 + hexValue d := by
    simp only [digitsValue, List.reverse_cons, List.reverse_nil, List.nil_append,
      List.cons_append, Nat.ofDigits_cons, Nat.ofDigits_nil]
    omega
  have hla := hexValue_lt ha
  have hlb := hexValue_lt hb
  have hlc := hexValue_lt hc
  have hld := hexValue_lt hd
  rw [Integer.parseInt, hsign]
  simp only [hmap, hval, applySign_false]
  rw [if_neg (by simp), if_pos (by omega)]
  simp only [Option.map_some, toChar, hexUnit, Option.some.injEq]
  congr 1
  omega

/-! ## §3. `BigDecimal`. -/

/-- The largest `int`. -/
def maxInt : Int := 2 ^ 31 - 1

/-- An arbitrary-precision decimal: the unscaled value times ten to the minus scale. -/
structure BigDecimal where
  unscaled : Int
  scale : Int
  inRange : -2 ^ 31 ≤ scale ∧ scale ≤ maxInt
  deriving DecidableEq

/-- The decimal with a scale, when the scale is an `int`. -/
def BigDecimal.mk? (unscaled scale : Int) : Option BigDecimal :=
  if h : -2 ^ 31 ≤ scale ∧ scale ≤ maxInt then some ⟨unscaled, scale, h⟩ else none

/-- The value of a run of decimal digits. -/
def decimalValue (s : List CodeUnit) : Option Nat :=
  (s.mapM fun c => Character.digit c 10).map (digitsValue 10)

/-- The exponent of a number text: nothing, or a marker, an optional sign and digits. -/
def exponentOf : List CodeUnit → Option Int
  | [] => some 0
  | c :: s =>
      if (c = unit 'e' ∨ c = unit 'E') ∧ (signed s).2 ≠ [] then
        match decimalValue (signed s).2 with
        | none => none
        | some n => if (n : Int) ≤ maxInt then some (applySign (signed s).1 n) else none
      else none

/-- The fraction digits of a number text and what follows them. -/
def fractionOf : List CodeUnit → List CodeUnit × List CodeUnit
  | [] => ([], [])
  | c :: s =>
      if c = unit '.' then (s.takeWhile Character.isDigit, s.dropWhile Character.isDigit)
      else ([], c :: s)

/-- `new BigDecimal(String)`, with `none` for a `NumberFormatException`. -/
def BigDecimal.ofString? (text : List CodeUnit) : Option BigDecimal :=
  let int := (signed text).2.takeWhile Character.isDigit
  let frac := fractionOf ((signed text).2.dropWhile Character.isDigit)
  if int ++ frac.1 = [] then none
  else
    match decimalValue (int ++ frac.1), exponentOf frac.2 with
    | some n, some e => BigDecimal.mk? (applySign (signed text).1 n) (frac.1.length - e)
    | _, _ => none

/-! ## §4. Numbers of the JSON grammar. -/

/-- The value of ASCII digits. -/
def asciiValue (ds : List CodeUnit) : Nat := digitsValue 10 (ds.map fun u => u.toNat - 0x30)

/-- The fraction digits of a number. -/
def fracDigits (n : Numeral) : List CodeUnit := n.frac.getD []

/-- The exponent of a number; zero when none is written. -/
def exponentValue : Option Exponent → Int
  | none => 0
  | some e => applySign (e.sign == some (unit '-')) (asciiValue e.digits)

/-- The decimal a number denotes, when its exponent and scale are in range. -/
def bigDecimal? (n : Numeral) : Option BigDecimal :=
  if -maxInt ≤ exponentValue n.exp ∧ exponentValue n.exp ≤ maxInt then
    BigDecimal.mk? (applySign n.neg (asciiValue (n.int ++ fracDigits n)))
      ((fracDigits n).length - exponentValue n.exp)
  else none

theorem decimalValue_digits {ds : List CodeUnit} (h : ∀ u ∈ ds, isDigit u = true) :
    decimalValue ds = some (asciiValue ds) := by
  have hmap : ds.mapM (fun c => Character.digit c 10) = some (ds.map fun u => u.toNat - 0x30) := by
    induction ds with
    | nil => rfl
    | cons u ds ih =>
        have ih := ih fun v hv => h v (List.mem_cons_of_mem u hv)
        simp [List.mapM_cons, digit_ten (h u List.mem_cons_self), ih]
  rw [decimalValue, hmap]
  rfl

theorem signed_digits {ds : List CodeUnit} (h : Digits ds) : signed ds = (false, ds) := by
  cases ds with
  | nil => exact absurd rfl h.1
  | cons u ds =>
      have hu : isHexDigit u = true := by
        simp [isHexDigit, h.2 u List.mem_cons_self]
      obtain ⟨hminus, hplus⟩ := hexDigit_ne_sign hu
      rw [signed, if_neg hminus, if_neg hplus]

theorem exponentOf_expText {e : Option Exponent} (h : ∀ x ∈ e, x.WellFormed) :
    exponentOf (expText e)
      = if -maxInt ≤ exponentValue e ∧ exponentValue e ≤ maxInt then some (exponentValue e)
        else none := by
  cases e with
  | none => simp [exponentOf, expText, exponentValue, maxInt]
  | some x =>
      obtain ⟨hm, hsg, hds⟩ := h x rfl
      have hsigned : signed (x.sign.toList ++ x.digits)
          = (x.sign == some (unit '-'), x.digits) := by
        cases hsign : x.sign with
        | none => exact signed_digits hds
        | some s =>
            rcases hsg s hsign with rfl | rfl
            · simp [signed, show unit '+' ≠ unit '-' by decide]
            · simp [signed]
      show exponentOf (x.marker :: (x.sign.toList ++ x.digits)) = _
      rw [exponentOf, hsigned, if_pos ⟨hm, hds.1⟩, decimalValue_digits hds.2]
      by_cases hle : (asciiValue x.digits : Int) ≤ maxInt
      · have hb : -maxInt ≤ exponentValue (some x) ∧ exponentValue (some x) ≤ maxInt :=
          applySign_bounds.mpr hle
        rw [if_pos hb]
        simp only [hle, if_true]
        rfl
      · have hb : ¬ (-maxInt ≤ exponentValue (some x) ∧ exponentValue (some x) ≤ maxInt) :=
          fun h => hle (applySign_bounds.mp h)
        rw [if_neg hb]
        simp only [hle, if_false]

theorem isDigit_jdk {u : CodeUnit} (h : isDigit u = true) : Character.isDigit u = true := by
  rw [Character.isDigit, zeroDigit?_of_isDigit h]
  rfl

/-- The text does not start with a digit of any script. -/
def NoJdkDigit (s : List CodeUnit) : Prop := ∀ u ∈ s.head?, Character.isDigit u = false

theorem takeWhile_jdk {ds r : List CodeUnit} (hd : ∀ u ∈ ds, isDigit u = true) (hr : NoJdkDigit r) :
    (ds ++ r).takeWhile Character.isDigit = ds ∧ (ds ++ r).dropWhile Character.isDigit = r := by
  induction ds with
  | nil =>
      cases r with
      | nil => exact ⟨rfl, rfl⟩
      | cons u r =>
          have hu : Character.isDigit u = false := hr u (by simp)
          simp [hu]
  | cons u ds ih =>
      have hu := isDigit_jdk (hd u List.mem_cons_self)
      have ih := ih fun v hv => hd v (List.mem_cons_of_mem u hv)
      simp [hu, ih.1, ih.2]

theorem expText_noJdkDigit {e : Option Exponent} (h : ∀ x ∈ e, x.WellFormed) :
    NoJdkDigit (expText e) := by
  intro u hu
  cases e with
  | none => simp [expText] at hu
  | some x =>
      simp only [expText, List.head?_cons, Option.mem_def, Option.some.injEq] at hu
      rcases (h x rfl).1 with hm | hm <;> rw [← hu, hm] <;> decide

theorem fractionOf_fracText {f : Option (List CodeUnit)} {e : Option Exponent}
    (hf : ∀ ds ∈ f, Digits ds) (he : ∀ x ∈ e, x.WellFormed) :
    fractionOf (fracText f ++ expText e) = (f.getD [], expText e) := by
  cases f with
  | none =>
      cases e with
      | none => rfl
      | some x =>
          have hne : x.marker ≠ unit '.' := by
            rcases (he x rfl).1 with hm | hm <;> rw [hm] <;> decide
          show fractionOf (x.marker :: _) = _
          rw [fractionOf, if_neg hne]
          rfl
  | some ds =>
      obtain ⟨htake, hdrop⟩ := takeWhile_jdk (hf ds rfl).2 (expText_noJdkDigit he)
      show fractionOf (unit '.' :: (ds ++ expText e)) = _
      rw [fractionOf, if_pos rfl, htake, hdrop]
      rfl

theorem IntPart.digits {ds : List CodeUnit} (h : IntPart ds) : Digits ds := by
  rcases h with rfl | ⟨hds, -⟩
  · exact ⟨by simp, by decide⟩
  · exact hds

theorem fracText_noJdkDigit {f : Option (List CodeUnit)} {e : Option Exponent}
    (he : ∀ x ∈ e, x.WellFormed) : NoJdkDigit (fracText f ++ expText e) := by
  cases f with
  | none => exact expText_noJdkDigit he
  | some ds =>
      intro u hu
      simp only [fracText, List.cons_append, List.head?_cons, Option.mem_def,
        Option.some.injEq] at hu
      rw [← hu]
      decide

/-- **On a JSON number the constructor computes the decimal it denotes.** -/
theorem BigDecimal.ofString?_text {n : Numeral} (hn : n.WellFormed) :
    BigDecimal.ofString? n.text = bigDecimal? n := by
  obtain ⟨hint, hfrac, hexp⟩ := hn
  have hds := IntPart.digits hint
  have hsigned : signed n.text = (n.neg, n.int ++ (fracText n.frac ++ expText n.exp)) := by
    rw [Numeral.text]
    cases hneg : n.neg with
    | true => simp [signed]
    | false =>
        cases hi : n.int with
        | nil => exact absurd hi hds.1
        | cons u ds =>
            have hu : isHexDigit u = true := by
              simp [isHexDigit, hds.2 u (by rw [hi]; exact List.mem_cons_self)]
            obtain ⟨hminus, hplus⟩ := hexDigit_ne_sign hu
            simp [signed, hminus, hplus]
  obtain ⟨htake, hdrop⟩ := takeWhile_jdk hds.2 (fracText_noJdkDigit (f := n.frac) hexp)
  have hdigits : ∀ u ∈ n.int ++ fracDigits n, isDigit u = true := by
    intro u hu
    rcases List.mem_append.mp hu with hu | hu
    · exact hds.2 u hu
    · cases hf : n.frac with
      | none => simp [fracDigits, hf] at hu
      | some fs =>
          simp only [fracDigits, hf, Option.getD_some] at hu
          exact (hfrac fs hf).2 u hu
  have hne : n.int ++ fracDigits n ≠ [] := by simp [hds.1]
  rw [BigDecimal.ofString?, hsigned]
  simp only [htake, hdrop, fractionOf_fracText hfrac hexp]
  show (if n.int ++ fracDigits n = [] then none else _) = _
  rw [if_neg hne]
  show (match decimalValue (n.int ++ fracDigits n), exponentOf (expText n.exp) with
    | some m, some e => BigDecimal.mk? (applySign n.neg m) ((fracDigits n).length - e)
    | _, _ => none) = _
  rw [decimalValue_digits hdigits, exponentOf_expText hexp, bigDecimal?]
  by_cases hrange : -maxInt ≤ exponentValue n.exp ∧ exponentValue n.exp ≤ maxInt
  · rw [if_pos hrange, if_pos hrange]
  · rw [if_neg hrange, if_neg hrange]

end CekatEvents.Java
