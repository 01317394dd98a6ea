/-
  CekatEvents.Clients.DeltaSeconds — a `Retry-After` of decimal digits.

  Every client takes more than nine digits for more than any pause it would wait for, and never looks at
  the number they spell.  Nine digits are not more than nine digits with zeros in front.

  Main results:

    • `honoured_iff` — a number of seconds is honoured exactly when it is written with at most nine digits
      or is larger than five anyway;
    • `padded_three_not_honoured` — three seconds written with ten digits are not.
-/
import CekatEvents.Clients.RetryAfter
import CekatEvents.Encoding.Space

namespace CekatEvents.Clients

open CekatEvents.Encoding

/-! ## §1. Values. -/

/-- **A value of decimal digits**, with tabs and spaces around them. -/
structure DeltaSeconds where
  before : List Char
  digits : List Char
  after : List Char
  digits_ne : digits ≠ []
  digits_all : ∀ c ∈ digits, c.isDigit = true
  before_blank : ∀ c ∈ before, c = ' ' ∨ c = '\t'
  after_blank : ∀ c ∈ after, c = ' ' ∨ c = '\t'

namespace DeltaSeconds

variable (v : DeltaSeconds)

/-- The text of the header. -/
def text : List Char := v.before ++ (v.digits ++ v.after)

/-- The number that it denotes. -/
def seconds : Nat := digitsNumber v.digits

variable {v}

theorem all_digits : v.digits.all Char.isDigit = true := List.all_eq_true.mpr v.digits_all

/-- Any white space that takes tabs and spaces but no digits leaves the digits. -/
theorem trim_text {space : Char → Bool} (hblank : space ' ' = true ∧ space '\t' = true)
    (hdigit : ∀ c, c.isDigit = true → space c = false) : trim space v.text = v.digits := by
  have hpad : ∀ c, c = ' ' ∨ c = '\t' → space c = true := by
    rintro c (rfl | rfl)
    · exact hblank.1
    · exact hblank.2
  exact trim_padded (fun c hc => hpad c (v.before_blank c hc)) (fun c hc => hpad c (v.after_blank c hc))
    (fun c hc => hdigit c (v.digits_all c hc)) v.digits_ne

end DeltaSeconds

/-! ## §2. What honouring a value means. -/

section Clients

variable (v : DeltaSeconds)

/-- The Python client retries exactly after at most five seconds, and then waits for that long. -/
def PythonHonours (lib : Python.Library) (now : ℚ) : Prop :=
  let requested := Python.parseRetryAfter lib (some v.text) now
  (Python.asksTooMuch requested = false ↔ v.seconds ≤ 5) ∧
    (v.seconds ≤ 5 → requested = some (inSeconds (v.seconds * 1000)))

def GoHonours (parseTime : List Char → Option Int) (now : Int) : Prop :=
  let requested := Go.parseRetryAfter parseTime v.text now
  ((requested.any fun d => decide (Go.maximumRetryAfter < d)) = false ↔ v.seconds ≤ 5) ∧
    (v.seconds ≤ 5 → requested = some (inNanoseconds (v.seconds * 1000)))

def NodeHonours (dateParse : List Char → Option Int) (now : Int) : Prop :=
  let requested := Node.parseRetryAfterMs dateParse (some v.text) now
  ((requested.all fun delay => decide (delay ≤ Node.MAXIMUM_RETRY_AFTER_MS)) = true ↔ v.seconds ≤ 5) ∧
    (v.seconds ≤ 5 → requested = some (inMillis (v.seconds * 1000)))

def JavaHonours (httpDates : List (List Char → Option Int)) (now : Int) : Prop :=
  ∃ requested, Java.parseRetryAfterMillis httpDates (some v.text) now = .ok requested ∧
    ((requested.all fun delay => decide (delay ≤ Java.MAXIMUM_RETRY_AFTER_MILLIS)) = true ↔
      v.seconds ≤ 5) ∧
    (v.seconds ≤ 5 → requested = some (Int.ofNat (v.seconds * 1000)))

/-- Nine digits are enough, or the number is too large for a retry anyway. -/
def Plainly : Prop := v.digits.length ≤ 9 ∨ 5 < v.seconds

/-! ## §3. The clients. -/

variable {v}

/-- A digit is no white space of any client. -/
theorem digit_not_space {c : Char} (h : c.isDigit = true) :
    Python.isSpace c = false ∧ Go.isSpace c = false ∧ Node.isWhiteSpace c = false ∧
      Java.isWhitespace c = false := by
  have hrange := digit_range h
  unfold Python.isSpace Go.isSpace Node.isWhiteSpace Java.isWhitespace
  simp
  omega

/-- What all clients have in common: a delay is too long when it has more than nine digits, or is read as
    it is. -/
theorem honours_iff {agreed exact : Prop}
    (hlong : 9 < v.digits.length → ¬ agreed)
    (hshort : v.digits.length ≤ 9 → (agreed ↔ v.seconds ≤ 5) ∧ exact) :
    ((agreed ↔ v.seconds ≤ 5) ∧ (v.seconds ≤ 5 → exact)) ↔ Plainly v := by
  constructor
  · intro h
    by_contra hnot
    have hlen : 9 < v.digits.length ∧ v.seconds ≤ 5 := by
      unfold Plainly at hnot
      omega
    exact hlong hlen.1 (h.1.mpr hlen.2)
  · rintro (hlen | hmany)
    · exact ⟨(hshort hlen).1, fun _ => (hshort hlen).2⟩
    · by_cases hlen : v.digits.length ≤ 9
      · exact ⟨(hshort hlen).1, fun _ => (hshort hlen).2⟩
      · refine ⟨iff_of_false (hlong (by omega)) (by omega), ?_⟩
        intro hle
        omega

/-- What the Python client reads. -/
theorem python_parses (lib : Python.Library) (now : ℚ) :
    Python.parseRetryAfter lib (some v.text) now =
      if 9 < v.digits.length then some ⊤ else some ((v.seconds : ℚ) : Python.Seconds) := by
  have htrim : Python.strip v.text = v.digits :=
    v.trim_text ⟨rfl, rfl⟩ fun c hc => (digit_not_space hc).1
  unfold Python.parseRetryAfter
  rw [Option.getD_some, htrim]
  simp only [if_neg v.digits_ne, Python.isAsciiDigits, v.all_digits, if_true]
  rfl

theorem python_honours_iff (lib : Python.Library) (now : ℚ) :
    PythonHonours v lib now ↔ Plainly v := by
  unfold PythonHonours
  rw [python_parses]
  apply honours_iff
  · intro hlen
    rw [if_pos hlen]
    show ¬ decide (((5 : ℚ) : Python.Seconds) < ⊤) = false
    rw [decide_eq_false_iff_not, not_not]
    exact WithTop.coe_lt_top _
  · intro hlen
    rw [if_neg (by omega)]
    refine ⟨?_, ?_⟩
    · show decide (((5 : ℚ) : Python.Seconds) < ((v.seconds : ℚ) : Python.Seconds)) = false ↔ _
      rw [decide_eq_false_iff_not, WithTop.coe_lt_coe, not_lt]
      exact_mod_cast Iff.rfl
    · unfold inSeconds
      congr 2
      push_cast
      rw [mul_div_assoc, div_self (by norm_num), mul_one]

/-- What the Go client reads. -/
theorem go_parses (parseTime : List Char → Option Int) (now : Int) :
    Go.parseRetryAfter parseTime v.text now =
      if 9 < v.digits.length then some (2 ^ 63 - 1) else some (v.seconds * Go.second) := by
  have htrim : Go.trimSpace v.text = v.digits :=
    v.trim_text ⟨rfl, rfl⟩ fun c hc => (digit_not_space hc).2.1
  unfold Go.parseRetryAfter
  simp only [htrim, if_neg v.digits_ne, Go.isDigits, v.all_digits, if_true]
  rfl

theorem go_honours_iff (parseTime : List Char → Option Int) (now : Int) :
    GoHonours v parseTime now ↔ Plainly v := by
  unfold GoHonours
  rw [go_parses]
  apply honours_iff
  · intro hlen
    rw [if_pos hlen]
    decide
  · intro hlen
    rw [if_neg (by omega)]
    refine ⟨?_, ?_⟩
    · have hle : ¬ ((5 : Int) * 1000000000 < (v.seconds : Int) * 1000000000) ↔ v.seconds ≤ 5 := by
        omega
      rw [Option.any_some, decide_eq_false_iff_not]
      exact hle
    · have hunit : (v.seconds : Int) * 1000000000 = ((v.seconds * 1000 : Nat) : Int) * 1000000 := by
        omega
      exact congrArg some hunit

/-- What the Node client reads. -/
theorem node_parses (dateParse : List Char → Option Int) (now : Int) :
    Node.parseRetryAfterMs dateParse (some v.text) now =
      if 9 < v.digits.length then some ⊤ else some (inMillis (v.seconds * 1000)) := by
  have htrim : Node.trim v.text = v.digits :=
    v.trim_text ⟨rfl, rfl⟩ fun c hc => (digit_not_space hc).2.2.1
  unfold Node.parseRetryAfterMs inMillis
  rw [Option.getD_some, htrim]
  simp only [if_neg v.digits_ne, v.all_digits, if_true]
  push_cast
  rfl

theorem node_honours_iff (dateParse : List Char → Option Int) (now : Int) :
    NodeHonours v dateParse now ↔ Plainly v := by
  unfold NodeHonours
  rw [node_parses]
  apply honours_iff
  · intro hlen
    rw [if_pos hlen]
    simp [Node.MAXIMUM_RETRY_AFTER_MS]
  · intro hlen
    rw [if_neg (by omega)]
    refine ⟨?_, rfl⟩
    show decide ((((v.seconds * 1000 : Nat) : ℚ) : Node.Millis) ≤ ((5000 : ℚ) : Node.Millis)) = true ↔ _
    rw [decide_eq_true_eq, WithTop.coe_le_coe]
    constructor
    · intro h
      have hle : v.seconds * 1000 ≤ 5000 := by exact_mod_cast h
      omega
    · intro h
      have hle : v.seconds * 1000 ≤ 5000 := by omega
      exact_mod_cast hle

/-- What the Java client reads. -/
theorem java_parses (httpDates : List (List Char → Option Int)) (now : Int) :
    Java.parseRetryAfterMillis httpDates (some v.text) now =
      .ok (some (if 9 < v.digits.length then Java.maxLong else v.seconds * 1000)) := by
  have htrim : Java.strip v.text = v.digits :=
    v.trim_text ⟨rfl, rfl⟩ fun c hc => (digit_not_space hc).2.2.2
  have hblank : v.text.all Java.isWhitespace = false := by
    rw [Bool.eq_false_iff]
    intro hall
    have hnil : trim Java.isWhitespace v.text = [] := trim_eq_nil_iff.mpr hall
    exact v.digits_ne (htrim.symm.trans hnil)
  unfold Java.parseRetryAfterMillis
  simp only [hblank, Bool.false_eq_true, if_false, htrim, v.all_digits, if_true]
  rfl

theorem java_honours_iff (httpDates : List (List Char → Option Int)) (now : Int) :
    JavaHonours v httpDates now ↔ Plainly v := by
  unfold JavaHonours
  rw [java_parses]
  simp only [Except.ok.injEq, exists_eq_left']
  apply honours_iff
  · intro hlen
    rw [if_pos hlen]
    decide
  · intro hlen
    rw [if_neg (by omega)]
    refine ⟨?_, rfl⟩
    show decide ((v.seconds : Int) * 1000 ≤ 5000) = true ↔ _
    rw [decide_eq_true_eq]
    omega

variable (v)

/-- **The clients honour a number of seconds exactly when it has at most nine digits or is larger than
    five**, whatever their libraries make of dates. -/
theorem honoured_iff (lib : Python.Library) (parseTime dateParse : List Char → Option Int)
    (httpDates : List (List Char → Option Int)) (pythonNow : ℚ) (goNow nodeNow javaNow : Int) :
    (PythonHonours v lib pythonNow ∧ GoHonours v parseTime goNow ∧ NodeHonours v dateParse nodeNow ∧
      JavaHonours v httpDates javaNow) ↔ (v.digits.length ≤ 9 ∨ 5 < v.seconds) := by
  rw [python_honours_iff, go_honours_iff, node_honours_iff, java_honours_iff]
  simp only [and_self]
  exact Iff.rfl

end Clients

/-- The number three, written with ten digits. -/
def paddedThree : DeltaSeconds where
  before := []
  digits := "0000000003".toList
  after := []
  digits_ne := by decide
  digits_all := List.all_eq_true.mp (by decide)
  before_blank := by simp
  after_blank := by simp

/-- **Three seconds written with ten digits are not honoured** by any client. -/
theorem padded_three_not_honoured :
    paddedThree.seconds = 3 ∧
      ¬ PythonHonours paddedThree ⟨Char.isDigit, fun _ => none⟩ 0 ∧
      ¬ GoHonours paddedThree (fun _ => none) 0 ∧ ¬ NodeHonours paddedThree (fun _ => none) 0 ∧
      ¬ JavaHonours paddedThree [] 0 := by
  have hnot : ¬ Plainly paddedThree := by
    rintro (hlen | hmany)
    · exact absurd hlen (by decide)
    · exact absurd hmany (by decide)
  exact ⟨by decide, fun h => hnot ((python_honours_iff _ _).mp h),
    fun h => hnot ((go_honours_iff _ _).mp h), fun h => hnot ((node_honours_iff _ _).mp h),
    fun h => hnot ((java_honours_iff _ _).mp h)⟩

end CekatEvents.Clients
