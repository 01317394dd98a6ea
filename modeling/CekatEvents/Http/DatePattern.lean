/-
  CekatEvents.Http.DatePattern — the pattern of an HTTP date that several clients share.

  The Python and the Node client test a `Retry-After` text against one regular expression with three
  alternatives before they hand it to a date parser.  What `\d` matches differs between them, so it is
  a parameter.
-/
import Mathlib.Data.List.Basic

namespace CekatEvents.Http

/-- One position of a date pattern. -/
inductive CharClass where
  | letter
  | digit
  | blankOrDigit
  | exactly (c : Char)

def CharClass.matches (isDigit : Char → Bool) (c : Char) : CharClass → Bool
  | letter => c.isAlpha
  | digit => isDigit c
  | blankOrDigit => c == ' ' || isDigit c
  | exactly d => c == d

/-- A text of one character for each position of a pattern. -/
def fullmatch (isDigit : Char → Bool) : List CharClass → List Char → Bool
  | [], [] => true
  | p :: ps, c :: cs => p.matches isDigit c && fullmatch isDigit ps cs
  | _, _ => false

/-- `\d{2}:\d{2}:\d{2}`. -/
def timeOfDay : List CharClass :=
  [.digit, .digit, .exactly ':', .digit, .digit, .exactly ':', .digit, .digit]

/-- ` GMT`. -/
def gmt : List CharClass := [.exactly ' ', .exactly 'G', .exactly 'M', .exactly 'T']

/-- IMF-fixdate. -/
def imfFixdate : List CharClass :=
  [.letter, .letter, .letter, .exactly ',', .exactly ' ', .digit, .digit, .exactly ' ',
    .letter, .letter, .letter, .exactly ' ', .digit, .digit, .digit, .digit, .exactly ' ']
    ++ timeOfDay ++ gmt

/-- RFC 850, with a day name of so many letters. -/
def rfc850 (dayName : Nat) : List CharClass :=
  List.replicate dayName .letter ++ [.exactly ',', .exactly ' ', .digit, .digit, .exactly '-',
    .letter, .letter, .letter, .exactly '-', .digit, .digit, .exactly ' '] ++ timeOfDay ++ gmt

/-- asctime. -/
def asctime : List CharClass :=
  [.letter, .letter, .letter, .exactly ' ', .letter, .letter, .letter, .exactly ' ',
    .blankOrDigit, .digit, .exactly ' '] ++ timeOfDay ++
    [.exactly ' ', .digit, .digit, .digit, .digit]

/-- The alternatives of the expression; a day name has six to nine letters. -/
def httpDateForms : List (List CharClass) :=
  [imfFixdate, rfc850 6, rfc850 7, rfc850 8, rfc850 9, asctime]

/-- The text is of one of the forms. -/
def isHttpDate (isDigit : Char → Bool) (text : List Char) : Bool :=
  httpDateForms.any fun form => fullmatch isDigit form text

/-- A text that fits a pattern with a digit has one. -/
theorem exists_digit_of_fullmatch {isDigit : Char → Bool} {form : List CharClass} :
    ∀ {text : List Char}, fullmatch isDigit form text = true → CharClass.digit ∈ form →
      ∃ c ∈ text, isDigit c = true := by
  induction form with
  | nil =>
      intro text _ hmem
      cases hmem
  | cons p ps ih =>
      intro text hmatch hmem
      cases text with
      | nil => cases hmatch
      | cons c cs =>
          simp only [fullmatch, Bool.and_eq_true] at hmatch
          rcases List.mem_cons.mp hmem with rfl | hrest
          · exact ⟨c, List.mem_cons_self, hmatch.1⟩
          · obtain ⟨d, hd, hdigit⟩ := ih hmatch.2 hrest
            exact ⟨d, List.mem_cons_of_mem c hd, hdigit⟩

/-- No HTTP date is without digits. -/
theorem isHttpDate_eq_false {isDigit : Char → Bool} {text : List Char}
    (h : ∀ c ∈ text, isDigit c = false) : isHttpDate isDigit text = false := by
  unfold isHttpDate
  rw [List.any_eq_false]
  intro form hform hmatch
  have hdigit : CharClass.digit ∈ form := by
    simp only [httpDateForms, List.mem_cons, List.not_mem_nil, or_false] at hform
    rcases hform with rfl | rfl | rfl | rfl | rfl | rfl
    · simp [imfFixdate]
    · simp [rfc850]
    · simp [rfc850]
    · simp [rfc850]
    · simp [rfc850]
    · simp [asctime]
  obtain ⟨c, hc, hyes⟩ := exists_digit_of_fullmatch hmatch hdigit
  rw [h c hc] at hyes
  cases hyes

end CekatEvents.Http
