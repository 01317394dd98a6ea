/-
  CekatEvents.Http.RetryAfter — what a `Retry-After` asks for.

  The value is a number of seconds in decimal digits, or an HTTP date in one of three forms.  The grammar
  is written out here apart from the pattern that implementations match; what counts as a digit of a date
  and which instant a date names are parameters.

  Main results:

    • `isHttpDate_iff` — the pattern accepts exactly the texts of the grammar;
    • `digitBytesNumber_eq_decimal` — digits spell the same number whether they are bytes or characters.
-/
import CekatEvents.Http.DatePattern
import CekatEvents.Http.Octets
import Mathlib.Algebra.Order.Field.Rat
import Mathlib.Data.List.Induction
import Mathlib.Data.Nat.Digits.Defs

namespace CekatEvents.Http

/-! ## §1. Decimal digits. -/

/-- The number that decimal digits denote. -/
def decimal (text : List Char) : Nat := Nat.ofDigits 10 (text.reverse.map fun c => c.toNat - '0'.toNat)

theorem decimal_append_singleton (text : List Char) (c : Char) :
    decimal (text ++ [c]) = 10 * decimal text + (c.toNat - '0'.toNat) := by
  unfold decimal
  rw [List.reverse_append, List.reverse_singleton, List.singleton_append, List.map_cons,
    Nat.ofDigits_cons, Nat.add_comm]

/-- Reading digits from the left gives the number that they denote. -/
theorem foldl_eq_decimal (text : List Char) :
    text.foldl (fun n c => 10 * n + (c.toNat - '0'.toNat)) 0 = decimal text := by
  induction text using List.reverseRecOn with
  | nil => rfl
  | append_singleton text c ih =>
      rw [List.foldl_append, ih, decimal_append_singleton]
      rfl

/-! ## §2. The grammar of a date. -/

/-- So many letters. -/
def Letters (n : Nat) (text : List Char) : Prop := text.length = n ∧ ∀ c ∈ text, c.isAlpha = true

section Grammar

variable (isDigit : Char → Bool)

/-- So many digits. -/
def Digits (n : Nat) (text : List Char) : Prop := text.length = n ∧ ∀ c ∈ text, isDigit c = true

/-- Two digits each for hours, minutes and seconds, with colons between them. -/
def TimeOfDay (text : List Char) : Prop :=
  ∃ hour minute second, Digits isDigit 2 hour ∧ Digits isDigit 2 minute ∧ Digits isDigit 2 second ∧
    text = hour ++ ([':'] ++ (minute ++ ([':'] ++ second)))

/-- A day of two digits, the first of which may be a blank. -/
def PaddedDay (text : List Char) : Prop :=
  ∃ first second, (first = ' ' ∨ isDigit first = true) ∧ isDigit second = true ∧ text = [first, second]

/-- **The three forms of an HTTP date.** -/
inductive HttpDate : List Char → Prop where
  | imfFixdate {dayName day month year time : List Char} (hname : Letters 3 dayName)
      (hday : Digits isDigit 2 day) (hmonth : Letters 3 month) (hyear : Digits isDigit 4 year)
      (htime : TimeOfDay isDigit time) :
      HttpDate (dayName ++ ([',', ' '] ++ (day ++ ([' '] ++ (month ++ ([' '] ++ (year ++ ([' '] ++
        (time ++ [' ', 'G', 'M', 'T'])))))))))
  | rfc850 {dayName day month year time : List Char} {letters : Nat} (hletters : 6 ≤ letters ∧ letters ≤ 9)
      (hname : Letters letters dayName) (hday : Digits isDigit 2 day) (hmonth : Letters 3 month)
      (hyear : Digits isDigit 2 year) (htime : TimeOfDay isDigit time) :
      HttpDate (dayName ++ ([',', ' '] ++ (day ++ (['-'] ++ (month ++ (['-'] ++ (year ++ ([' '] ++
        (time ++ [' ', 'G', 'M', 'T'])))))))))
  | asctime {dayName month day time year : List Char} (hname : Letters 3 dayName)
      (hmonth : Letters 3 month) (hday : PaddedDay isDigit day) (htime : TimeOfDay isDigit time)
      (hyear : Digits isDigit 4 year) :
      HttpDate (dayName ++ ([' '] ++ (month ++ ([' '] ++ (day ++ ([' '] ++ (time ++ ([' '] ++ year))))))))

end Grammar

/-! ## §3. The pattern accepts the grammar. -/

section Pattern

variable {isDigit : Char → Bool}

/-- A text that fits two patterns in a row is in two parts. -/
theorem fullmatch_append {front rear : List CharClass} {text : List Char} :
    fullmatch isDigit (front ++ rear) text = true ↔
      ∃ a b, text = a ++ b ∧ fullmatch isDigit front a = true ∧ fullmatch isDigit rear b = true := by
  induction front generalizing text with
  | nil =>
      constructor
      · intro h
        exact ⟨[], text, rfl, rfl, h⟩
      · rintro ⟨a, b, rfl, ha, hb⟩
        cases a with
        | nil => exact hb
        | cons c a => cases ha
  | cons p front ih =>
      cases text with
      | nil =>
          refine iff_of_false (by rintro ⟨⟩) ?_
          rintro ⟨a, b, htext, ha, -⟩
          obtain ⟨rfl, -⟩ := List.append_eq_nil_iff.mp htext.symm
          cases ha
      | cons c text =>
          rw [List.cons_append, fullmatch, Bool.and_eq_true, ih]
          constructor
          · rintro ⟨hc, a, b, rfl, ha, hb⟩
            exact ⟨c :: a, b, rfl, by rw [fullmatch, hc, ha, Bool.and_self], hb⟩
          · rintro ⟨a, b, htext, ha, hb⟩
            cases a with
            | nil => cases ha
            | cons d a =>
                rw [List.cons_append, List.cons.injEq] at htext
                obtain ⟨rfl, rfl⟩ := htext
                rw [fullmatch, Bool.and_eq_true] at ha
                exact ⟨ha.1, a, b, rfl, ha.2, hb⟩

theorem fullmatch_append_of {front rear : List CharClass} {a b : List Char}
    (ha : fullmatch isDigit front a = true) (hb : fullmatch isDigit rear b = true) :
    fullmatch isDigit (front ++ rear) (a ++ b) = true := fullmatch_append.mpr ⟨a, b, rfl, ha, hb⟩

/-- A pattern of one class fits the texts of its length and its characters. -/
theorem fullmatch_replicate {p : CharClass} {n : Nat} {text : List Char} :
    fullmatch isDigit (List.replicate n p) text = true ↔
      text.length = n ∧ ∀ c ∈ text, p.matches isDigit c = true := by
  induction n generalizing text with
  | zero =>
      cases text with
      | nil => exact iff_of_true rfl ⟨rfl, by simp⟩
      | cons c text => exact iff_of_false (by rintro ⟨⟩) (by rintro ⟨⟨⟩, -⟩)
  | succ n ih =>
      cases text with
      | nil => exact iff_of_false (by rintro ⟨⟩) (by rintro ⟨⟨⟩, -⟩)
      | cons c text =>
          rw [List.replicate_succ, fullmatch, Bool.and_eq_true, ih, List.forall_mem_cons,
            List.length_cons, Nat.add_right_cancel_iff]
          exact and_left_comm

/-- A pattern of fixed characters. -/
def spelled (fixed : List Char) : List CharClass := fixed.map .exactly

/-- It fits one text. -/
theorem fullmatch_exactly {fixed text : List Char} :
    fullmatch isDigit (spelled fixed) text = true ↔ text = fixed := by
  unfold spelled
  induction fixed generalizing text with
  | nil =>
      cases text with
      | nil => exact iff_of_true rfl rfl
      | cons c text => exact iff_of_false (by rintro ⟨⟩) (by rintro ⟨⟩)
  | cons d fixed ih =>
      cases text with
      | nil => exact iff_of_false (by rintro ⟨⟩) (by rintro ⟨⟩)
      | cons c text =>
          rw [List.map_cons, fullmatch, Bool.and_eq_true, ih, List.cons.injEq]
          exact and_congr_left' beq_iff_eq

theorem fullmatch_fixed (fixed : List Char) : fullmatch isDigit (spelled fixed) fixed = true :=
  fullmatch_exactly.mpr rfl

theorem fullmatch_letters {n : Nat} {text : List Char} :
    fullmatch isDigit (List.replicate n .letter) text = true ↔ Letters n text := fullmatch_replicate

theorem fullmatch_digits {n : Nat} {text : List Char} :
    fullmatch isDigit (List.replicate n .digit) text = true ↔ Digits isDigit n text := fullmatch_replicate

theorem fullmatch_timeOfDay {text : List Char} :
    fullmatch isDigit timeOfDay text = true ↔ TimeOfDay isDigit text := by
  have hform : timeOfDay = List.replicate 2 .digit ++ (spelled [':'] ++ (List.replicate 2 .digit ++
      (spelled [':'] ++ List.replicate 2 .digit))) := rfl
  rw [hform]
  simp only [fullmatch_append, fullmatch_digits, fullmatch_exactly]
  constructor
  · rintro ⟨hour, _, rfl, hh, _, _, rfl, rfl, minute, _, rfl, hm, _, second, rfl, rfl, hs⟩
    exact ⟨hour, minute, second, hh, hm, hs, rfl⟩
  · rintro ⟨hour, minute, second, hh, hm, hs, rfl⟩
    exact ⟨hour, _, rfl, hh, _, _, rfl, rfl, minute, _, rfl, hm, _, second, rfl, rfl, hs⟩

theorem fullmatch_paddedDay {text : List Char} :
    fullmatch isDigit [.blankOrDigit, .digit] text = true ↔ PaddedDay isDigit text := by
  have hform : [CharClass.blankOrDigit, .digit] = List.replicate 1 .blankOrDigit ++ List.replicate 1 .digit :=
    rfl
  rw [hform, fullmatch_append]
  simp only [fullmatch_replicate, List.length_eq_one_iff]
  have hblank : ∀ c, CharClass.blankOrDigit.matches isDigit c = true ↔ c = ' ' ∨ isDigit c = true := by
    intro c
    show (c == ' ' || isDigit c) = true ↔ _
    rw [Bool.or_eq_true, beq_iff_eq]
  constructor
  · rintro ⟨_, _, rfl, ⟨⟨first, rfl⟩, hfirst⟩, ⟨second, rfl⟩, hsecond⟩
    exact ⟨first, second, (hblank first).mp (hfirst first (List.mem_singleton_self first)),
      hsecond second (List.mem_singleton_self second), rfl⟩
  · rintro ⟨first, second, hfirst, hsecond, rfl⟩
    refine ⟨[first], [second], rfl, ⟨⟨first, rfl⟩, ?_⟩, ⟨second, rfl⟩, ?_⟩
    · intro c hc
      rw [List.mem_singleton.mp hc]
      exact (hblank first).mpr hfirst
    · intro c hc
      rw [List.mem_singleton.mp hc]
      exact hsecond

/-! ### The forms in their parts. -/

theorem imfFixdate_parts : imfFixdate = List.replicate 3 .letter ++ (spelled [',', ' '] ++
    (List.replicate 2 .digit ++ (spelled [' '] ++ (List.replicate 3 .letter ++
    (spelled [' '] ++ (List.replicate 4 .digit ++ (spelled [' '] ++
    (timeOfDay ++ spelled [' ', 'G', 'M', 'T'])))))))) := rfl

theorem rfc850_parts (letters : Nat) : rfc850 letters = List.replicate letters .letter ++
    (spelled [',', ' '] ++ (List.replicate 2 .digit ++ (spelled ['-'] ++
    (List.replicate 3 .letter ++ (spelled ['-'] ++ (List.replicate 2 .digit ++
    (spelled [' '] ++ (timeOfDay ++ spelled [' ', 'G', 'M', 'T'])))))))) := by
  unfold rfc850
  rw [List.append_assoc, List.append_assoc]
  rfl

theorem asctime_parts : asctime = List.replicate 3 .letter ++ (spelled [' '] ++
    (List.replicate 3 .letter ++ (spelled [' '] ++ ([.blankOrDigit, .digit] ++
    (spelled [' '] ++ (timeOfDay ++ (spelled [' '] ++ List.replicate 4 .digit))))))) := rfl

/-- A text of one of the forms is in the grammar. -/
theorem httpDate_of_fullmatch {form : List CharClass} {text : List Char} (hform : form ∈ httpDateForms)
    (h : fullmatch isDigit form text = true) : HttpDate isDigit text := by
  have hcases : form = imfFixdate ∨ (∃ letters, (6 ≤ letters ∧ letters ≤ 9) ∧ form = rfc850 letters) ∨
      form = asctime := by
    simp only [httpDateForms, List.mem_cons, List.not_mem_nil, or_false] at hform
    rcases hform with rfl | rfl | rfl | rfl | rfl | rfl
    · exact .inl rfl
    · exact .inr (.inl ⟨6, by decide, rfl⟩)
    · exact .inr (.inl ⟨7, by decide, rfl⟩)
    · exact .inr (.inl ⟨8, by decide, rfl⟩)
    · exact .inr (.inl ⟨9, by decide, rfl⟩)
    · exact .inr (.inr rfl)
  rcases hcases with rfl | ⟨letters, hletters, rfl⟩ | rfl
  · rw [imfFixdate_parts] at h
    simp only [fullmatch_append, fullmatch_digits, fullmatch_letters, fullmatch_exactly,
      fullmatch_timeOfDay] at h
    obtain ⟨_, _, rfl, hname, _, _, rfl, rfl, _, _, rfl, hday, _, _, rfl, rfl, _, _, rfl, hmonth,
      _, _, rfl, rfl, _, _, rfl, hyear, _, _, rfl, rfl, _, _, rfl, htime, rfl⟩ := h
    exact .imfFixdate hname hday hmonth hyear htime
  · rw [rfc850_parts] at h
    simp only [fullmatch_append, fullmatch_digits, fullmatch_letters, fullmatch_exactly,
      fullmatch_timeOfDay] at h
    obtain ⟨_, _, rfl, hname, _, _, rfl, rfl, _, _, rfl, hday, _, _, rfl, rfl, _, _, rfl, hmonth,
      _, _, rfl, rfl, _, _, rfl, hyear, _, _, rfl, rfl, _, _, rfl, htime, rfl⟩ := h
    exact .rfc850 hletters hname hday hmonth hyear htime
  · rw [asctime_parts] at h
    simp only [fullmatch_append, fullmatch_digits, fullmatch_letters, fullmatch_exactly,
      fullmatch_timeOfDay, fullmatch_paddedDay] at h
    obtain ⟨_, _, rfl, hname, _, _, rfl, rfl, _, _, rfl, hmonth, _, _, rfl, rfl, _, _, rfl, hday,
      _, _, rfl, rfl, _, _, rfl, htime, _, _, rfl, rfl, hyear⟩ := h
    exact .asctime hname hmonth hday htime hyear

/-- A text of the grammar is of one of the forms. -/
theorem HttpDate.fullmatch {text : List Char} (h : HttpDate isDigit text) :
    ∃ form ∈ httpDateForms, Http.fullmatch isDigit form text = true := by
  cases h with
  | imfFixdate hname hday hmonth hyear htime =>
      refine ⟨Http.imfFixdate, List.mem_cons_self, ?_⟩
      rw [imfFixdate_parts]
      apply fullmatch_append_of (fullmatch_letters.mpr hname)
      apply fullmatch_append_of (fullmatch_fixed _)
      apply fullmatch_append_of (fullmatch_digits.mpr hday)
      apply fullmatch_append_of (fullmatch_fixed _)
      apply fullmatch_append_of (fullmatch_letters.mpr hmonth)
      apply fullmatch_append_of (fullmatch_fixed _)
      apply fullmatch_append_of (fullmatch_digits.mpr hyear)
      apply fullmatch_append_of (fullmatch_fixed _)
      exact fullmatch_append_of (fullmatch_timeOfDay.mpr htime) (fullmatch_fixed _)
  | @rfc850 _ _ _ _ _ letters hletters hname hday hmonth hyear htime =>
      refine ⟨Http.rfc850 letters, ?_, ?_⟩
      · have hfour : letters = 6 ∨ letters = 7 ∨ letters = 8 ∨ letters = 9 := by omega
        rcases hfour with rfl | rfl | rfl | rfl <;> simp [httpDateForms]
      · rw [rfc850_parts]
        apply fullmatch_append_of (fullmatch_letters.mpr hname)
        apply fullmatch_append_of (fullmatch_fixed _)
        apply fullmatch_append_of (fullmatch_digits.mpr hday)
        apply fullmatch_append_of (fullmatch_fixed _)
        apply fullmatch_append_of (fullmatch_letters.mpr hmonth)
        apply fullmatch_append_of (fullmatch_fixed _)
        apply fullmatch_append_of (fullmatch_digits.mpr hyear)
        apply fullmatch_append_of (fullmatch_fixed _)
        exact fullmatch_append_of (fullmatch_timeOfDay.mpr htime) (fullmatch_fixed _)
  | asctime hname hmonth hday htime hyear =>
      refine ⟨Http.asctime, by simp [httpDateForms], ?_⟩
      rw [asctime_parts]
      apply fullmatch_append_of (fullmatch_letters.mpr hname)
      apply fullmatch_append_of (fullmatch_fixed _)
      apply fullmatch_append_of (fullmatch_letters.mpr hmonth)
      apply fullmatch_append_of (fullmatch_fixed _)
      apply fullmatch_append_of (fullmatch_paddedDay.mpr hday)
      apply fullmatch_append_of (fullmatch_fixed _)
      apply fullmatch_append_of (fullmatch_timeOfDay.mpr htime)
      exact fullmatch_append_of (fullmatch_fixed _) (fullmatch_digits.mpr hyear)

/-- **The pattern accepts exactly the texts of the grammar.** -/
theorem isHttpDate_iff {text : List Char} : isHttpDate isDigit text = true ↔ HttpDate isDigit text := by
  unfold isHttpDate
  rw [List.any_eq_true]
  constructor
  · rintro ⟨form, hform, h⟩
    exact httpDate_of_fullmatch hform h
  · exact HttpDate.fullmatch

instance (text : List Char) : Decidable (HttpDate isDigit text) :=
  decidable_of_iff (isHttpDate isDigit text = true) isHttpDate_iff

end Pattern

/-! ## §4. What a value asks for. -/

/-- All of a text is decimal digits, and there is one. -/
def DigitString (text : List Char) : Prop := text ≠ [] ∧ ∀ c ∈ text, c.isDigit = true

theorem digitString_iff {text : List Char} :
    DigitString text ↔ text ≠ [] ∧ text.all Char.isDigit = true := by
  rw [List.all_eq_true]
  exact Iff.rfl

instance (text : List Char) : Decidable (DigitString text) := decidable_of_iff _ digitString_iff.symm

/-- More than nine digits. -/
def Overlong (text : List Char) : Prop := DigitString text ∧ 9 < text.length

instance (text : List Char) : Decidable (Overlong text) :=
  inferInstanceAs (Decidable (DigitString text ∧ 9 < text.length))

/-- **The seconds that a value asks for** at a time: the number that its digits denote, or the time until
    the date that it is; nothing when it is neither.  `date` is the instant it names as a date, if there
    is one. -/
def askedSeconds (isDigit : Char → Bool) (date : Option ℚ) (now : ℚ) (text : List Char) : Option ℚ :=
  if DigitString text then some (decimal text)
  else if HttpDate isDigit text then date.map fun date => max 0 (date - now)
  else none

/-! ## §5. Values as bytes. -/

theorem toNat_byteChar (b : UInt8) : (Char.ofNat b.toNat).toNat = b.toNat := by
  have hlt : b.toNat < 0xD800 := by
    have hbyte := b.toNat_lt
    omega
  unfold Char.ofNat
  rw [dif_pos (show b.toNat.isValidChar from .inl hlt)]
  rfl

theorem isDigit_byteChar (b : UInt8) : (Char.ofNat b.toNat).isDigit = isDigitByte b := by
  have hrange : ∀ c : Char, c.isDigit = true ↔ 0x30 ≤ c.toNat ∧ c.toNat ≤ 0x39 := by
    intro c
    simp only [Char.isDigit, Bool.and_eq_true, decide_eq_true_eq]
    rfl
  rw [Bool.eq_iff_iff, isDigitByte_iff, hrange, toNat_byteChar]

/-- Bytes are decimal digits when their characters are. -/
theorem digitString_byteChars {text : List UInt8} :
    DigitString (byteChars text) ↔ text ≠ [] ∧ text.all isDigitByte = true := by
  unfold byteChars
  rw [digitString_iff, List.all_map, ne_eq, List.map_eq_nil_iff]
  have hsame : Char.isDigit ∘ (fun b : UInt8 => Char.ofNat b.toNat) = isDigitByte :=
    funext isDigit_byteChar
  rw [hsame]

/-- The number that digits of bytes spell is the number they denote. -/
theorem digitBytesNumber_eq_decimal (text : List UInt8) :
    digitBytesNumber text = decimal (byteChars text) := by
  unfold digitBytesNumber byteChars
  rw [← foldl_eq_decimal, List.foldl_map]
  simp only [toNat_byteChar]
  rfl

end CekatEvents.Http
