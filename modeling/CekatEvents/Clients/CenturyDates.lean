/-
  CekatEvents.Clients.CenturyDates — what the clients make of the two-digit year of an RFC 850 date.

  Each client hands the date to its library, and each library has a century of its own: the first ones of
  the hundred years are of this century, the others of the last one.  The dates here are those of 2000 to
  2099, on a clock that counts whole milliseconds, which every client can represent.

  Main result: `rfc850_agree_iff` — the clients read the same delay where the date is past, or near enough
  and of the first fifty years.
-/
import CekatEvents.Clients.RetryAfter
import CekatEvents.Java.RetryDates

namespace CekatEvents.Clients

open CekatEvents.Http CekatEvents.Time

/-! ## §1. The text of a date. -/

/-- The codes of letters. -/
theorem alpha_range {c : Char} (h : c.isAlpha = true) : 65 ≤ c.toNat ∧ c.toNat ≤ 122 := by
  rcases Bool.or_eq_true _ _ |>.mp h with hupper | hlower
  · have hcode : 65 ≤ c.toNat ∧ c.toNat ≤ 90 := of_decide_eq_true hupper
    omega
  · obtain ⟨hfirst, hlast⟩ := Bool.and_eq_true _ _ |>.mp hlower
    have hle : 97 ≤ c.toNat := of_decide_eq_true hfirst
    have hge : c.toNat ≤ 122 := of_decide_eq_true hlast
    omega

/-- An RFC 850 date: its year is one of 2000 to 2099, of which the text has the last two digits. -/
structure CenturyDate where
  date : DateTime
  yy : Fin 100
  year : date.year = 2000 + yy.val

namespace CenturyDate

def text (c : CenturyDate) : List Char := (DateFields.ofDate c.date).rfc850 (two c.yy)

/-- The seconds since the epoch, when the years up to `last` are of this century. -/
def epochSecond (last : Nat) (c : CenturyDate) : Int :=
  let year := if c.yy.val ≤ last then c.date.year else c.date.year - 100
  Time.epochDay year c.date.month c.date.day * 86400 +
    DateTime.secondOfDay c.date.hour c.date.minute c.date.second

/-- The years of this century. -/
theorem epochSecond_of_le {last : Nat} {c : CenturyDate} (h : c.yy.val ≤ last) :
    c.epochSecond last = c.date.epochSecond := by
  unfold epochSecond
  rw [if_pos h]
  rfl

/-- A year of the last century is earlier. -/
theorem epochSecond_of_lt {last : Nat} {c : CenturyDate} (h : last < c.yy.val) :
    c.epochSecond last < c.date.epochSecond := by
  have hyear := c.year
  have hyy := c.yy.isLt
  have hleap : isLeapYear (c.date.year - 100) = isLeapYear c.date.year := by
    rw [Bool.eq_iff_iff, isLeapYear_iff, isLeapYear_iff]
    omega
  -- the year ends in other digits than 00, so both years have the same months
  have hlength : lengthOfMonth (c.date.year - 100) c.date.month = lengthOfMonth c.date.year c.date.month := by
    unfold lengthOfMonth
    rw [hleap]
  have hday := c.date.day_range
  let earlier : DateTime := { c.date with year := c.date.year - 100, day_range := by rw [hlength]; exact hday }
  have hlt : earlier.epochSecond < c.date.epochSecond := DateTime.epochSecond_lt (show c.date.year - 100 < c.date.year by omega)
  unfold epochSecond
  rw [if_neg (Nat.not_le.mpr h)]
  exact hlt

/-- The text starts with a letter. -/
theorem text_head (c : CenturyDate) : ∃ first rest, c.text = first :: rest ∧ first.isAlpha = true := by
  have hhead : ∀ i, fullDay i ≠ [] ∧ ((fullDay i).headD '0').isAlpha = true := by decide
  obtain ⟨hne, halpha⟩ := hhead (DateFields.ofDate c.date).dayOfWeek
  obtain ⟨first, tail, hday⟩ := List.exists_cons_of_ne_nil hne
  rw [hday] at halpha
  unfold text DateFields.rfc850
  rw [hday]
  exact ⟨first, _, rfl, halpha⟩

/-- It ends with `GMT`. -/
theorem text_last (c : CenturyDate) : ∃ front, c.text = front ++ ['T'] := by
  let f := DateFields.ofDate c.date
  have hgmt : " GMT".toList = [' ', 'G', 'M', 'T'] := by decide
  refine ⟨fullDay f.dayOfWeek ++ ',' :: ' ' :: (two f.day ++ '-' :: (shortMonth f.month ++ '-' :: (two c.yy ++
    ' ' :: (two f.hour ++ ':' :: (two f.minute ++ ':' :: (two f.second ++ [' ', 'G', 'M'])))))), ?_⟩
  unfold text DateFields.rfc850 DateFields.time
  rw [hgmt]
  simp [f]

/-- A client trims nothing of it. -/
theorem trim_text (c : CenturyDate) {p : Char → Bool} (hp : ∀ x, x.isAlpha = true → p x = false) :
    (c.text.dropWhile p).rdropWhile p = c.text := by
  obtain ⟨first, rest, hhead, halpha⟩ := c.text_head
  obtain ⟨front, hlast⟩ := c.text_last
  have hleft : c.text.dropWhile p = c.text := by
    rw [hhead, List.dropWhile_cons_of_neg (by rw [hp first halpha]; decide)]
  rw [hleft, hlast, List.rdropWhile_concat_neg]
  rw [hp 'T' (by decide)]
  decide

/-- It is not all digits. -/
theorem text_not_digits (c : CenturyDate) : c.text.all Char.isDigit = false := by
  obtain ⟨first, rest, hhead, halpha⟩ := c.text_head
  have hdigit : first.isDigit = false := by
    rw [← Bool.not_eq_true]
    intro hdigit
    have hdigits := digit_range hdigit
    have hletters := alpha_range halpha
    omega
  rw [hhead, List.all_cons, hdigit, Bool.false_and]

theorem text_ne_nil (c : CenturyDate) : c.text ≠ [] := by
  obtain ⟨first, rest, hhead, -⟩ := c.text_head
  rw [hhead]
  exact List.cons_ne_nil first rest

end CenturyDate

/-! ## §2. The pattern. -/

section Pattern

variable {isDigit : Char → Bool}

theorem fullmatch_append {ps qs : List CharClass} {cs ds : List Char}
    (hps : fullmatch isDigit ps cs = true) (hqs : fullmatch isDigit qs ds = true) :
    fullmatch isDigit (ps ++ qs) (cs ++ ds) = true := by
  induction ps generalizing cs with
  | nil =>
      cases cs with
      | nil => exact hqs
      | cons c cs => cases hps
  | cons p ps ih =>
      cases cs with
      | nil => cases hps
      | cons c cs =>
          rw [fullmatch, Bool.and_eq_true] at hps
          rw [List.cons_append, List.cons_append, fullmatch, hps.1, ih hps.2]
          rfl

theorem fullmatch_letters {cs : List Char} (h : cs.all Char.isAlpha = true) :
    fullmatch isDigit (List.replicate cs.length .letter) cs = true := by
  induction cs with
  | nil => rfl
  | cons c cs ih =>
      rw [List.all_cons, Bool.and_eq_true] at h
      rw [List.length_cons, List.replicate_succ, fullmatch, CharClass.matches, h.1, ih h.2]
      rfl

theorem fullmatch_two (h : ∀ d, isDigit (digit d) = true) (n : Fin 100) :
    fullmatch isDigit [.digit, .digit] (two n) = true := by
  simp [fullmatch, CharClass.matches, two, h]

/-- **The text is one of the HTTP dates** of the pattern. -/
theorem isHttpDate_text (h : ∀ d, isDigit (digit d) = true) (c : CenturyDate) :
    isHttpDate isDigit c.text = true := by
  let f := DateFields.ofDate c.date
  have hday : ∀ i, (fullDay i).all Char.isAlpha = true ∧ rfc850 (fullDay i).length ∈ httpDateForms := by
    intro i
    fin_cases i <;> exact ⟨by decide, by simp [httpDateForms, fullDay, fullDays]⟩
  have hmonth : ∀ i, fullmatch isDigit [.letter, .letter, .letter] (shortMonth i) = true := by
    intro i
    fin_cases i <;> rfl
  have htime : fullmatch isDigit (timeOfDay ++ gmt) (f.time " GMT".toList) = true := by
    have hgmt : fullmatch isDigit gmt " GMT".toList = true := rfl
    have hcolon : ∀ n : Fin 100, fullmatch isDigit [.exactly ':', .digit, .digit] (':' :: two n) = true := by
      intro n
      have hmark : fullmatch isDigit [.exactly ':'] [':'] = true := rfl
      exact fullmatch_append hmark (fullmatch_two h n)
    have hall := fullmatch_append (fullmatch_two h f.hour)
      (fullmatch_append (hcolon f.minute) (fullmatch_append (hcolon f.second) hgmt))
    simpa [DateFields.time, timeOfDay] using hall
  have hexactly : ∀ x : Char, fullmatch isDigit [.exactly x] [x] = true := by
    intro x
    simp [fullmatch, CharClass.matches]
  have hdate := fullmatch_append (fullmatch_letters (hday f.dayOfWeek).1) <|
    fullmatch_append (hexactly ',') <| fullmatch_append (hexactly ' ') <|
    fullmatch_append (fullmatch_two h f.day) <| fullmatch_append (hexactly '-') <|
    fullmatch_append (hmonth f.month) <| fullmatch_append (hexactly '-') <|
    fullmatch_append (fullmatch_two h c.yy) <| fullmatch_append (hexactly ' ') htime
  unfold isHttpDate
  rw [List.any_eq_true]
  refine ⟨_, (hday f.dayOfWeek).2, ?_⟩
  simpa [CenturyDate.text, DateFields.rfc850, Http.rfc850, f] using hdate

end Pattern

/-! ## §3. The clients. -/

/-- The date functions of Go, Python and JavaScript. -/
structure Libraries where
  parseTime : List Char → Option Int
  python : Python.Library
  dateParse : List Char → Option Int

/-- **The libraries read the date.**  Up to 68 Go and Python take the year for one of this century, and
    JavaScript up to 49.  `\d` matches the ASCII digits in Python. -/
structure ReadsCentury (libs : Libraries) (c : CenturyDate) : Prop where
  go : libs.parseTime c.text = some (c.epochSecond 68 * 1000000000)
  python : libs.python.parsedateToDatetime c.text = some (c.epochSecond 68 : ℚ)
  decimal : ∀ d, libs.python.isDecimal (digit d) = true
  node : libs.dateParse c.text = some (c.epochSecond 49 * 1000)

section Clients

variable {libs : Libraries} {c : CenturyDate} {now : Int}

/-- A delay that is not negative. -/
theorem max_zero_cast (z : Int) : max (0 : ℚ) (z : ℚ) = (z.toNat : ℚ) := by
  rw [← Int.cast_natCast, Int.toNat_eq_max, max_comm]
  push_cast
  rfl

/-- The Go client, at a time in milliseconds. -/
theorem go_century (h : ReadsCentury libs c) :
    Go.parseRetryAfter libs.parseTime c.text (now * 1000000) =
      if c.epochSecond 68 * 1000 ≤ now then some 0
      else some (min (2 ^ 63 - 1) ((c.epochSecond 68 * 1000 - now) * 1000000)) := by
  have htrim : Go.trimSpace c.text = c.text := by
    apply c.trim_text
    intro x hx
    have hrange := alpha_range hx
    unfold Go.isSpace
    simp
    omega
  have hsub : Go.subTime (c.epochSecond 68 * 1000000000) (now * 1000000) =
      max (-2 ^ 63) (min (2 ^ 63 - 1) ((c.epochSecond 68 * 1000 - now) * 1000000)) := by
    have hunit : c.epochSecond 68 * 1000000000 - now * 1000000 =
        (c.epochSecond 68 * 1000 - now) * 1000000 := by omega
    unfold Go.subTime
    rw [hunit]
  have hpast : c.epochSecond 68 * 1000 ≤ now →
      ¬ (0 : Int) < max (-2 ^ 63) (min (2 ^ 63 - 1) ((c.epochSecond 68 * 1000 - now) * 1000000)) := by omega
  have hfuture : ¬ c.epochSecond 68 * 1000 ≤ now →
      (0 : Int) < max (-2 ^ 63) (min (2 ^ 63 - 1) ((c.epochSecond 68 * 1000 - now) * 1000000)) ∧
        max (-2 ^ 63) (min (2 ^ 63 - 1) ((c.epochSecond 68 * 1000 - now) * 1000000)) =
          min (2 ^ 63 - 1) ((c.epochSecond 68 * 1000 - now) * 1000000) := by omega
  unfold Go.parseRetryAfter
  dsimp only
  rw [htrim, if_neg c.text_ne_nil, Go.isDigits, c.text_not_digits, if_neg Bool.false_ne_true, h.go]
  dsimp only
  rw [hsub]
  by_cases hwhen : c.epochSecond 68 * 1000 ≤ now
  · rw [if_pos hwhen]
    exact if_neg (hpast hwhen)
  · rw [if_neg hwhen]
    exact (if_pos (hfuture hwhen).1).trans (congrArg some (hfuture hwhen).2)

/-- The Python client. -/
theorem python_century (h : ReadsCentury libs c) :
    Python.parseRetryAfter libs.python (some c.text) ((now : ℚ) / 1000) =
      some (inSeconds (c.epochSecond 68 * 1000 - now).toNat) := by
  have htrim : Python.strip c.text = c.text := by
    apply c.trim_text
    intro x hx
    have hrange := alpha_range hx
    unfold Python.isSpace
    simp
    omega
  have hdelay : max 0 ((c.epochSecond 68 : ℚ) - (now : ℚ) / 1000) =
      ((c.epochSecond 68 * 1000 - now).toNat : ℚ) / 1000 := by
    have hunit : (c.epochSecond 68 : ℚ) - (now : ℚ) / 1000 = ((c.epochSecond 68 * 1000 - now : Int) : ℚ) / 1000 := by
      push_cast
      ring
    have hpos : (0 : ℚ) ≤ 1000 := by norm_num
    have hmax := max_div_div_right hpos 0 ((c.epochSecond 68 * 1000 - now : Int) : ℚ)
    rw [zero_div] at hmax
    rw [hunit, ← max_zero_cast]
    exact hmax
  unfold Python.parseRetryAfter
  dsimp only
  rw [Option.getD_some, htrim, if_neg c.text_ne_nil, Python.isAsciiDigits, c.text_not_digits,
    if_neg Bool.false_ne_true, isHttpDate_text h.decimal, if_pos rfl, h.python, Option.map_some, hdelay]
  rfl

/-- The Node client. -/
theorem node_century (h : ReadsCentury libs c) :
    Node.parseRetryAfterMs libs.dateParse (some c.text) now =
      some (inMillis (c.epochSecond 49 * 1000 - now).toNat) := by
  have htrim : Node.trim c.text = c.text := by
    apply c.trim_text
    intro x hx
    have hrange := alpha_range hx
    unfold Node.isWhiteSpace
    simp
    omega
  have hdigits : ∀ d, (digit d).isDigit = true := by decide
  unfold Node.parseRetryAfterMs
  dsimp only
  rw [Option.getD_some, htrim, if_neg c.text_ne_nil, c.text_not_digits, if_neg Bool.false_ne_true,
    isHttpDate_text hdigits, if_pos rfl, h.node, Option.map_some, max_zero_cast]
  rfl

/-- The Java client. -/
theorem java_century (c : CenturyDate) (now : Int) :
    Java.parseRetryAfterMillis Java.HTTP_DATES (some c.text) (now * 1000000) =
      if -2 ^ 63 ≤ c.date.epochSecond * 1000 - now ∧ c.date.epochSecond * 1000 - now < 2 ^ 63 then
        .ok (some (Int.ofNat (c.date.epochSecond * 1000 - now).toNat))
      else .error ⟨⟩ := by
  have hstrip : Java.strip c.text = c.text := by
    apply c.trim_text
    intro x hx
    have hrange := alpha_range hx
    unfold Java.isWhitespace
    simp
    omega
  have hdate : Java.httpDate c.text = some (c.date.epochSecond * 1000000000) :=
    (Java.IsHttpDate.rfc850 c.yy c.year).httpDate
  obtain ⟨first, rest, hhead, hdigit⟩ := Java.head_of_httpDate hdate
  have hmillis : (c.date.epochSecond * 1000000000 - now * 1000000).tdiv 1000000 =
      c.date.epochSecond * 1000 - now := by
    rw [show c.date.epochSecond * 1000000000 - now * 1000000 =
      (c.date.epochSecond * 1000 - now) * 1000000 by omega]
    exact Int.mul_tdiv_cancel _ (by decide)
  rw [Java.parse_date (hstrip.trans hhead) hdigit, hstrip, hdate]
  dsimp only
  unfold Java.toMillis Java.maxLong
  dsimp only
  rw [hmillis]
  by_cases hfits : -2 ^ 63 ≤ c.date.epochSecond * 1000 - now ∧ c.date.epochSecond * 1000 - now < 2 ^ 63
  · rw [if_pos hfits, if_pos (by omega)]
    show Except.ok (some (max 0 (c.date.epochSecond * 1000 - now))) = _
    rw [max_comm, ← Int.toNat_eq_max]
    rfl
  · rw [if_neg hfits, if_neg (by omega)]
    rfl

/-- The four clients are asked for the same delay, or for none, at a time in milliseconds. -/
structure Delays (libs : Libraries) (c : CenturyDate) (now : Int) (requested : Option Nat) : Prop where
  go : Go.parseRetryAfter libs.parseTime c.text (now * 1000000) = requested.map inNanoseconds
  python : Python.parseRetryAfter libs.python (some c.text) ((now : ℚ) / 1000) = requested.map inSeconds
  node : Node.parseRetryAfterMs libs.dateParse (some c.text) now = requested.map inMillis
  java : Java.parseRetryAfterMillis Java.HTTP_DATES (some c.text) (now * 1000000) =
    .ok (requested.map Int.ofNat)

/-- **The clients agree** on the requested delay. -/
def Agree (libs : Libraries) (c : CenturyDate) (now : Int) : Prop := ∃ requested, Delays libs c now requested

/-- Clients that agree make the same retry decision: each waits for at most five seconds. -/
theorem Delays.decisions {requested : Option Nat} (h : Delays libs c now requested) :
    ((Go.parseRetryAfter libs.parseTime c.text (now * 1000000)).any
        (fun delay => decide (Go.maximumRetryAfter < delay)) = !requested.all fun ms => decide (ms ≤ 5000)) ∧
      (Python.asksTooMuch (Python.parseRetryAfter libs.python (some c.text) ((now : ℚ) / 1000)) =
        !requested.all fun ms => decide (ms ≤ 5000)) ∧
      ((Node.parseRetryAfterMs libs.dateParse (some c.text) now).all
        (fun delay => decide (delay ≤ Node.MAXIMUM_RETRY_AFTER_MS)) = requested.all fun ms => decide (ms ≤ 5000)) ∧
      ∃ delay, Java.parseRetryAfterMillis Java.HTTP_DATES (some c.text) (now * 1000000) = .ok delay ∧
        (delay.all fun delay => decide (delay ≤ Java.MAXIMUM_RETRY_AFTER_MILLIS)) =
          requested.all fun ms => decide (ms ≤ 5000) := by
  rw [h.go, h.python, h.node, h.java]
  cases requested with
  | none => exact ⟨rfl, rfl, rfl, none, rfl, rfl⟩
  | some ms =>
      refine ⟨?_, ?_, ?_, some (Int.ofNat ms), rfl, ?_⟩
      · rw [Option.map_some, Option.any_some, Option.all_some]
        exact (decide_eq_decide.mpr (go_limit ms)).trans decide_not
      · unfold Python.asksTooMuch
        rw [Option.map_some, Option.any_some, Option.all_some]
        exact (decide_eq_decide.mpr (python_limit ms)).trans decide_not
      · simp only [Option.map_some, Option.all_some, node_limit]
      · simp only [Option.all_some, java_limit]

theorem inMillis_inj {m n : Nat} : inMillis m = inMillis n ↔ m = n := by
  unfold inMillis
  rw [WithTop.coe_inj, Nat.cast_inj]

end Clients

/-! ## §4. When they agree. -/

/-- **The clients agree on an RFC 850 date of this century** exactly when it is past, and not so long that
    its milliseconds do not fit a `long`; or its year is one that every library takes for one of this
    century, and its nanoseconds fit a `time.Duration`. -/
theorem rfc850_agree_iff (libs : Libraries) (c : CenturyDate) (h : ReadsCentury libs c) (now : Int) :
    Agree libs c now ↔
      (c.date.epochSecond * 1000 ≤ now ∧ now - c.date.epochSecond * 1000 ≤ 2 ^ 63) ∨
        (c.yy.val ≤ 49 ∧ now < c.date.epochSecond * 1000 ∧
          (c.date.epochSecond * 1000 - now) * 1000000 < 2 ^ 63) := by
  have hearly : c.yy.val ≤ 68 → c.epochSecond 68 = c.date.epochSecond := CenturyDate.epochSecond_of_le
  have hlate : 68 < c.yy.val → c.epochSecond 68 < c.date.epochSecond := CenturyDate.epochSecond_of_lt
  have hearly' : c.yy.val ≤ 49 → c.epochSecond 49 = c.date.epochSecond := CenturyDate.epochSecond_of_le
  have hlate' : 49 < c.yy.val → c.epochSecond 49 < c.date.epochSecond := CenturyDate.epochSecond_of_lt
  constructor
  · rintro ⟨requested, hdelays⟩
    have hjava := hdelays.java
    rw [java_century] at hjava
    split_ifs at hjava with hfits
    rw [Except.ok.injEq] at hjava
    have hnode := hdelays.node
    have hgo := hdelays.go
    cases requested with
    | none => cases hjava
    | some ms =>
        have hms : (c.date.epochSecond * 1000 - now).toNat = ms := Int.ofNat.inj (Option.some.inj hjava)
        rw [node_century h, Option.map_some, Option.some.injEq, inMillis_inj] at hnode
        rw [go_century h] at hgo
        by_cases hpast : c.date.epochSecond * 1000 ≤ now
        · exact .inl ⟨hpast, by omega⟩
        · -- a date to come: Node reads the same year, and so does Go
          have hyear : c.yy.val ≤ 49 := by
            by_contra hlast
            have hless := hlate' (by omega)
            omega
          have hsame := hearly (by omega)
          rw [hsame, if_neg hpast, Option.map_some, Option.some.injEq] at hgo
          have hnanos : min (2 ^ 63 - 1) ((c.date.epochSecond * 1000 - now) * 1000000) = (ms : Int) * 1000000 := hgo
          exact .inr ⟨hyear, by omega, by omega⟩
  · rintro (⟨hpast, hlong⟩ | ⟨hyear, hfuture, hnear⟩)
    · have hgo : c.epochSecond 68 * 1000 ≤ now := by
        rcases Nat.lt_or_ge 68 c.yy.val with hlast | hthis
        · have hless := hlate hlast
          omega
        · rw [hearly hthis]
          exact hpast
      have hnode : c.epochSecond 49 * 1000 ≤ now := by
        rcases Nat.lt_or_ge 49 c.yy.val with hlast | hthis
        · have hless := hlate' hlast
          omega
        · rw [hearly' hthis]
          exact hpast
      refine ⟨some 0, ?_, ?_, ?_, ?_⟩
      · rw [go_century h, if_pos hgo]
        rfl
      · rw [python_century h, show (c.epochSecond 68 * 1000 - now).toNat = 0 by omega]
        rfl
      · rw [node_century h, show (c.epochSecond 49 * 1000 - now).toNat = 0 by omega]
        rfl
      · rw [java_century, if_pos (by omega), show (c.date.epochSecond * 1000 - now).toNat = 0 by omega]
        rfl
    · have hgo := hearly (by omega)
      have hnanos : min (2 ^ 63 - 1) ((c.date.epochSecond * 1000 - now) * 1000000) =
          ((c.date.epochSecond * 1000 - now).toNat : Int) * 1000000 := by omega
      refine ⟨some (c.date.epochSecond * 1000 - now).toNat, ?_, ?_, ?_, ?_⟩
      · rw [go_century h, hgo, if_neg (by omega), hnanos]
        rfl
      · rw [python_century h, hgo]
        rfl
      · rw [node_century h, hearly' hyear]
        rfl
      · rw [java_century, if_pos (by omega)]
        rfl

/-! ## §5. A library of each kind. -/

/-- A date function that reads what the second formatter of the Java client reads, with a century. -/
def readCentury (last : Nat) (text : List Char) : Option Int :=
  (Java.rfc850Format text).map fun parsed =>
    let year := if parsed.year - 2000 ≤ (last : Int) then parsed.year else parsed.year - 100
    Time.epochDay year (parsed.month + 1) parsed.day.toNat * 86400 +
      DateTime.secondOfDay parsed.hour parsed.minute parsed.second

theorem readCentury_text (last : Nat) (c : CenturyDate) : readCentury last c.text = some (c.epochSecond last) := by
  have hmonth : c.date.month - 1 + 1 = c.date.month := Nat.sub_add_cancel c.date.month_range.1
  have hlast : (2000 + (c.yy.val : Int) - 2000 ≤ (last : Int)) ↔ c.yy.val ≤ last := by omega
  unfold readCentury CenturyDate.text CenturyDate.epochSecond
  rw [Java.rfc850_format, c.year]
  simp only [Option.map_some, Java.parsedOf, DateFields.ofDate, hmonth, hlast, Int.toNat_natCast]

def centuryLibraries : Libraries where
  parseTime text := (readCentury 68 text).map (· * 1000000000)
  python := ⟨Char.isDigit, fun text => (readCentury 68 text).map fun seconds => (seconds : ℚ)⟩
  dateParse text := (readCentury 49 text).map (· * 1000)

theorem readsCentury (c : CenturyDate) : ReadsCentury centuryLibraries c := by
  have hdigits : ∀ d, (digit d).isDigit = true := by decide
  refine ⟨?_, ?_, hdigits, ?_⟩
  · show (readCentury 68 c.text).map _ = _
    rw [readCentury_text]
    rfl
  · show (readCentury 68 c.text).map (fun seconds => (seconds : ℚ)) = some ((c.epochSecond 68 : Int) : ℚ)
    rw [readCentury_text]
    rfl
  · show (readCentury 49 c.text).map _ = _
    rw [readCentury_text]
    rfl

theorem zero_lt_sixty : 0 < 60 := by decide

/-- The first of January of a year. -/
def newYear (yy : Fin 100) : CenturyDate where
  date := ⟨2000 + yy.val, 1, 1, 0, 0, 0, by decide, ⟨by decide, (lengthOfMonth_bounds _ 1).1.trans' (by decide)⟩,
    by decide, zero_lt_sixty, zero_lt_sixty⟩
  yy := yy
  year := rfl

/-- A date that is past asks for no delay. -/
theorem past_agree : Agree centuryLibraries (newYear 60) (3000000000000) :=
  (rfc850_agree_iff centuryLibraries (newYear 60) (readsCentury _) 3000000000000).mpr (.inl (by decide))

/-- **At the end of the year 2049 Node takes the next year for one that is past.** -/
theorem next_year_differs :
    ¬ ∀ (libs : Libraries) (c : CenturyDate), ReadsCentury libs c → ∀ now, Agree libs c now := by
  intro h
  have hreads := readsCentury (newYear 50)
  obtain ⟨requested, hdelays⟩ := h centuryLibraries (newYear 50) hreads 2524607999000
  have hjava := hdelays.java
  have hnode := hdelays.node
  have hthis : (newYear 50).date.epochSecond = 2524608000 := by decide
  have hlast : (newYear 50).epochSecond 49 = -631152000 := by decide
  rw [java_century, hthis, if_pos (by decide), Except.ok.injEq] at hjava
  rw [node_century hreads, hlast] at hnode
  cases requested with
  | none => cases hjava
  | some ms =>
      have hms : Int.toNat 1000 = ms := Int.ofNat.inj (Option.some.inj hjava)
      rw [Option.map_some, Option.some.injEq, inMillis_inj] at hnode
      rw [← hms] at hnode
      exact absurd hnode (by decide)

end CekatEvents.Clients
