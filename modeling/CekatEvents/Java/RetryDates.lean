/-
  CekatEvents.Java.RetryDates — dates as `Retry-After` in the Java client (`internal/RetryPolicy.java`,
  `CekatClient.java`).

  `parseRetryAfterMillis` catches what the formatters throw.  They also read years far away, signed ones
  of more than four digits among them, and `Duration.toMillis` throws for what is too far.

  Main results:

    • `track_typed`       — a call throws nothing of its own while no delay is too far;
    • `contract_iff`      — the header is read as documented exactly when its date is an ordinary one;
    • `far_year_thrown`   — a year of nine digits makes the exception escape.
-/
import CekatEvents.Java.Client
import CekatEvents.Java.HttpDates

namespace CekatEvents.Java

open CekatEvents.Http CekatEvents.Time CekatEvents.Effects

/-! ## §1. Which branch reads a date. -/

theorem strip_of_blank {value : List Char} (h : value.all isWhitespace = true) : strip value = [] := by
  have hdrop : value.dropWhile isWhitespace = [] :=
    List.dropWhile_eq_nil_iff.mpr fun c hc => List.all_eq_true.mp h c hc
  unfold strip
  rw [hdrop]
  rfl

/-- A text that does not start with a digit is read as a date. -/
theorem parse_date {value : List Char} {c : Char} {rest : List Char} (h : strip value = c :: rest)
    (hc : c.isDigit = false) (now : Int) :
    parseRetryAfterMillis HTTP_DATES (some value) now =
      match httpDate (strip value) with
      | none => .ok none
      | some date => (toMillis (date - now)).map fun millis => some (max 0 millis) := by
  have hblank : ¬ value.all isWhitespace = true := by
    intro hall
    rw [strip_of_blank hall] at h
    cases h
  have hdigits : ¬ (strip value).all Char.isDigit = true := by
    rw [h, List.all_cons, hc, Bool.false_and]
    decide
  unfold parseRetryAfterMillis
  dsimp only
  rw [if_neg hblank, if_neg hdigits]
  rfl

/-- What a formatter reads starts with the name of a day, hence not with a digit. -/
theorem head_of_httpDate {text : List Char} {date : Int} (h : httpDate text = some date) :
    ∃ c rest, text = c :: rest ∧ c.isDigit = false := by
  have hletters : ∀ n ∈ shortDays ++ fullDays, ∃ c rest, n = c :: rest ∧ c.isDigit = false := by
    intro n hn
    have hhead : ∀ n ∈ shortDays ++ fullDays, n ≠ [] ∧ (n.headD '0').isDigit = false := by decide
    obtain ⟨hne, hdigit⟩ := hhead n hn
    obtain ⟨c, rest, rfl⟩ := List.exists_cons_of_ne_nil hne
    exact ⟨c, rest, rfl, hdigit⟩
  have hnamed : ∃ n ∈ shortDays ++ fullDays, n <+: text := by
    by_contra hnone
    have hshort : name shortDays text = none :=
      name_eq_none fun n hn hprefix => hnone ⟨n, List.mem_append_left _ hn, hprefix⟩
    have hfull : name fullDays text = none :=
      name_eq_none fun n hn hprefix => hnone ⟨n, List.mem_append_right _ hn, hprefix⟩
    rw [httpDate_eq, imfFixdateFormat, rfc850Format, asctimeFormat, hshort, hfull] at h
    cases h
  obtain ⟨n, hn, hprefix⟩ := hnamed
  obtain ⟨c, rest, rfl, hdigit⟩ := hletters n hn
  obtain ⟨tail, rfl⟩ := hprefix
  exact ⟨c, rest ++ tail, rfl, hdigit⟩

/-! ## §2. The loop. -/

/-- Every response has the header, and the clock stands still. -/
structure Serves {σ : Type} (W : World Op Op.Ret σ) (value : Option (List Char)) (now : Int) : Prop where
  header : ∀ body s response s', W (.execute body) s (.ok response) s' →
    response.header "Retry-After".toList = value
  clock : ∀ s time s', W .now s time s' → time = now

/-- A call may do what it likes. -/
def anyDuty (σ : Type) : Duty Op σ := ⟨fun _ _ => True, fun _ => True⟩

/-- The call ended with a result or an exception of the SDK, or was interrupted. -/
def Typed (result : Result) : Prop := ∀ e, result ≠ .error (.arithmetic e)

section Loop

variable {σ : Type} {W : World Op Op.Ret σ}

theorem backoff_ensures {retry : Int} {retryAfterMillis : Option Int} {Q : Bool → σ → Prop} {s : σ}
    (h : ∀ interrupted s, Q interrupted s) :
    Ensures W (anyDuty σ) (backoff retry retryAfterMillis) Q s := by
  unfold backoff
  simp only [ensures_bind, ensures_perform]
  exact ⟨trivial, fun _ _ _ => ⟨trivial, fun _ _ _ => h _ _⟩⟩

/-- **A call throws nothing of its own** while the delay of the header can be counted. -/
theorem track_typed {httpDates : List (List Char → Option Int)} {value : Option (List Char)} {now : Int}
    (hserves : Serves W value now) {requested : Option Int}
    (hparse : parseRetryAfterMillis httpDates value now = .ok requested) (retryCount : Int)
    (body : List UInt8) (fuel : Nat) (attempt : Int) (s : σ) :
    Ensures W (anyDuty σ) (track httpDates retryCount body fuel attempt) (fun result _ => Typed result) s := by
  induction fuel generalizing attempt s with
  | zero => trivial
  | succ fuel ih =>
      rw [track]
      simp only [ensures_bind, ensures_perform]
      refine ⟨trivial, fun interrupted s₁ _ => ?_⟩
      cases interrupted with
      | true =>
          rw [if_pos rfl]
          intro e h
          cases h
      | false =>
          rw [if_neg Bool.false_ne_true]
          simp only [ensures_bind, ensures_perform]
          refine ⟨trivial, fun answer s₂ hanswer => ?_⟩
          have hagain : ∀ retryAfterMillis s, Ensures W (anyDuty σ)
              (backoff attempt retryAfterMillis >>= fun interrupted =>
                if interrupted = true then pure (.error .interrupted)
                else track httpDates retryCount body fuel (Arithmetic.int32 (attempt + 1)))
              (fun result _ => Typed result) s := by
            intro retryAfterMillis s
            rw [ensures_bind]
            apply backoff_ensures
            intro interrupted s
            split_ifs
            · intro e h
              cases h
            · exact ih _ s
          have hdecoded : ∀ response s, Ensures W (anyDuty σ)
              (pure ((decode response attempt).mapError TrackThrown.decoding)) (fun result _ => Typed result) s := by
            intro response s e h
            cases hdecode : decode response attempt with
            | ok acknowledgement =>
                rw [hdecode] at h
                cases h
            | error thrown =>
                rw [hdecode] at h
                cases h
          rcases answer with (⟨message⟩ | _) | response
          · dsimp only
            split_ifs
            · intro e h
              cases h
            · exact hagain none s₂
          · intro e h
            cases h
          · dsimp only
            split_ifs
            · rw [ensures_bind, ensures_perform]
              refine ⟨trivial, fun time s₃ htime => ?_⟩
              rw [hserves.clock _ _ _ htime, hserves.header _ _ _ _ hanswer, hparse]
              dsimp only
              split_ifs
              · exact hagain requested s₃
              · exact hdecoded response s₃
            · exact hdecoded response s₂

end Loop

/-! ## §3. What is documented. -/

/-- An HTTP date in one of its forms: a year of four digits, or of two in RFC 850, which this client takes
    for one from 2000 to 2099. -/
inductive IsHttpDate (d : DateTime) : List Char → Prop
  | imfFixdate (year : Fin 10000) (h : d.year = year.val) :
      IsHttpDate d ((DateFields.ofDate d).imfFixdate ((four year).map digit))
  | rfc850 (year : Fin 100) (h : d.year = 2000 + year.val) : 
      IsHttpDate d ((DateFields.ofDate d).rfc850 (two year))
  | asctime (blank : Bool) (year : Fin 10000) (h : d.year = year.val) :
      IsHttpDate d ((DateFields.ofDate d).asctime blank ((four year).map digit))

/-- A text of the first or the third form with any digits for a year, perhaps signed; its numbers need not
    make a date. -/
inductive IsDateText (f : DateFields) (sign : Option Bool) (digits : List (Fin 10)) : List Char → Prop
  | imfFixdate : IsDateText f sign digits (f.imfFixdate (yearText sign digits))
  | asctime (blank : Bool) : IsDateText f sign digits (f.asctime blank (yearText sign digits))

/-- **The contract of a header at an instant.**  It is read as nothing or as a number of milliseconds that
    is not negative, and no call that is answered with it fails with another exception than those of the
    SDK; a date is read as the time until then; and no date with a longer year is accepted. -/
structure Contract (value : Option (List Char)) (now : Int) : Prop where
  returns : ∃ requested, parseRetryAfterMillis HTTP_DATES value now = .ok requested ∧
    ∀ millis ∈ requested, 0 ≤ millis
  typed : ∀ (σ : Type) (W : World Op Op.Ret σ), Serves W value now → ∀ retryCount body fuel attempt s,
    Ensures W (anyDuty σ) (track HTTP_DATES retryCount body fuel attempt) (fun result _ => Typed result) s
  dates : ∀ d text, IsHttpDate d text → value.map strip = some text →
    parseRetryAfterMillis HTTP_DATES value now =
      .ok (some (max 0 ((d.epochSecond * 1000000000 - now).tdiv 1000000)))
  longYears : ∀ f sign digits text,
    IsDateText f sign digits text ∨ text = f.rfc850 (yearText sign digits) → 4 < digits.length →
      value.map strip = some text → parseRetryAfterMillis HTTP_DATES value now = .ok none

/-- A `long` can count the milliseconds. -/
def Fits (nanos : Int) : Prop := -2 ^ 63 ≤ nanos.tdiv 1000000 ∧ nanos.tdiv 1000000 ≤ maxLong

/-- **The date of the header is an ordinary one**, if there is one: it is not written with a longer year
    that the formatters read, and the milliseconds until then fit a `long`. -/
structure Ordinary (value : Option (List Char)) (now : Int) : Prop where
  year : ∀ f sign digits text, IsDateText f sign digits text → 4 < digits.length →
    value.map strip = some text → (yearValue sign digits).bind (fun year => resolve (parsedOf f year)) = none
  fits : ∀ date, (value.map strip).bind httpDate = some date → Fits (date - now)

theorem toMillis_of_fits {nanos : Int} (h : Fits nanos) : toMillis nanos = .ok (nanos.tdiv 1000000) :=
  if_pos h

theorem toMillis_of_large {nanos : Int} (h : ¬ Fits nanos) : toMillis nanos = .error ⟨⟩ := if_neg h

/-- The instant of a date text. -/
theorem IsDateText.httpDate {f : DateFields} {sign : Option Bool} {digits : List (Fin 10)} {text : List Char}
    (h : IsDateText f sign digits text) :
    httpDate text = (yearValue sign digits).bind fun year => resolve (parsedOf f year) := by
  cases h with
  | imfFixdate => exact httpDate_imfFixdate f sign digits
  | asctime blank => exact httpDate_asctime f blank sign digits

theorem yearValue_four (year : Fin 10000) : yearValue none (four year) = some (year.val : Int) := by
  unfold yearValue
  rw [number_four]
  rfl

/-- The instant of an HTTP date. -/
theorem IsHttpDate.httpDate {d : DateTime} {text : List Char} (h : IsHttpDate d text) :
    httpDate text = some (d.epochSecond * 1000000000) := by
  cases h with
  | imfFixdate year hyear =>
      have hresolve := resolve_ofDate d (by unfold maxYear; omega)
      have hdate := httpDate_imfFixdate (.ofDate d) none (four year)
      rw [yearValue_four, Option.bind_some, ← hyear, hresolve] at hdate
      exact hdate
  | rfc850 year hyear =>
      have hresolve := resolve_ofDate d (by unfold maxYear; omega)
      rw [httpDate_rfc850, ← hyear, hresolve]
  | asctime blank year hyear =>
      have hresolve := resolve_ofDate d (by unfold maxYear; omega)
      have hdate := httpDate_asctime (.ofDate d) blank none (four year)
      rw [yearValue_four, Option.bind_some, ← hyear, hresolve] at hdate
      exact hdate

/-- A form starts with a letter. -/
theorem head_of_day (i : Fin 7) (rest : List Char) :
    ∃ c tail, shortDay i ++ rest = c :: tail ∧ c.isDigit = false := by
  have hhead : ∀ i, shortDay i ≠ [] ∧ ((shortDay i).headD '0').isDigit = false := by decide
  obtain ⟨hne, hdigit⟩ := hhead i
  obtain ⟨c, tail, htail⟩ := List.exists_cons_of_ne_nil hne
  rw [htail] at hdigit ⊢
  exact ⟨c, tail ++ rest, rfl, hdigit⟩

theorem head_of_fullDay (i : Fin 7) (rest : List Char) :
    ∃ c tail, fullDay i ++ rest = c :: tail ∧ c.isDigit = false := by
  obtain ⟨c, tail, hday, -⟩ := fullDay_eq i
  rw [hday, List.append_assoc]
  exact head_of_day i _

theorem IsDateText.head {f : DateFields} {sign : Option Bool} {digits : List (Fin 10)} {text : List Char}
    (h : IsDateText f sign digits text) : ∃ c rest, text = c :: rest ∧ c.isDigit = false := by
  cases h with
  | imfFixdate => exact head_of_day f.dayOfWeek _
  | asctime blank => exact head_of_day f.dayOfWeek _

/-! ## §4. Ordinary dates. -/

/-- The exception of `toMillis` is the only one. -/
theorem returns_of_fits {value : Option (List Char)} {now : Int}
    (h : ∀ date, (value.map strip).bind httpDate = some date → Fits (date - now)) :
    ∃ requested, parseRetryAfterMillis HTTP_DATES value now = .ok requested ∧
      ∀ millis ∈ requested, 0 ≤ millis := by
  have hnothing : ∀ millis ∈ (none : Option Int), 0 ≤ millis := by
    intro millis hmem
    cases hmem
  cases value with
  | none => exact ⟨none, rfl, hnothing⟩
  | some value =>
      unfold parseRetryAfterMillis
      dsimp only
      split_ifs with hblank hdigits hlong
      · exact ⟨none, rfl, hnothing⟩
      · refine ⟨_, rfl, ?_⟩
        rintro millis ⟨⟩
        decide
      · refine ⟨_, rfl, ?_⟩
        rintro millis ⟨⟩
        unfold parseLong
        omega
      · cases hdate : httpDate (strip value) with
        | none =>
            rw [show (HTTP_DATES.findSome? fun format => format (strip value)) = none from hdate]
            exact ⟨none, rfl, hnothing⟩
        | some date =>
            rw [show (HTTP_DATES.findSome? fun format => format (strip value)) = some date from hdate]
            dsimp only
            rw [toMillis_of_fits (h date hdate)]
            refine ⟨_, rfl, ?_⟩
            rintro millis ⟨⟩
            exact le_max_left 0 _

/-- **The header keeps its contract exactly when its date is an ordinary one.** -/
theorem contract_iff (value : Option (List Char)) (now : Int) : Contract value now ↔ Ordinary value now := by
  constructor
  · intro h
    constructor
    · intro f sign digits text htext hlong hvalue
      have hnone := h.longYears f sign digits text (.inl htext) hlong hvalue
      obtain ⟨text', rfl, rfl⟩ := Option.map_eq_some_iff.mp hvalue
      obtain ⟨c, rest, hhead, hdigit⟩ := htext.head
      rw [parse_date hhead hdigit, htext.httpDate] at hnone
      cases hresolve : (yearValue sign digits).bind fun year => resolve (parsedOf f year) with
      | none => rfl
      | some date =>
          rw [hresolve] at hnone
          dsimp only at hnone
          by_cases hfits : Fits (date - now)
          · rw [toMillis_of_fits hfits] at hnone
            cases hnone
          · rw [toMillis_of_large hfits] at hnone
            cases hnone
    · intro date hdate
      obtain ⟨text, hvalue, hdate⟩ := Option.bind_eq_some_iff.mp hdate
      obtain ⟨text', rfl, rfl⟩ := Option.map_eq_some_iff.mp hvalue
      obtain ⟨c, rest, hhead, hdigit⟩ := head_of_httpDate hdate
      obtain ⟨requested, hparse, -⟩ := h.returns
      rw [parse_date hhead hdigit, hdate] at hparse
      dsimp only at hparse
      by_contra hlarge
      rw [toMillis_of_large hlarge] at hparse
      cases hparse
  · intro h
    have hreturns := returns_of_fits h.fits
    refine ⟨hreturns, ?_, ?_, ?_⟩
    · intro σ W hserves retryCount body fuel attempt s
      obtain ⟨requested, hparse, -⟩ := hreturns
      exact track_typed hserves hparse retryCount body fuel attempt s
    · intro d text htext hvalue
      have hfits := h.fits _ (by rw [hvalue, Option.bind_some]; exact htext.httpDate)
      obtain ⟨text', rfl, rfl⟩ := Option.map_eq_some_iff.mp hvalue
      obtain ⟨c, rest, hhead, hdigit⟩ := head_of_httpDate htext.httpDate
      rw [parse_date hhead hdigit, htext.httpDate]
      dsimp only
      rw [toMillis_of_fits hfits]
      rfl
    · intro f sign digits text htext hlong hvalue
      rcases htext with htext | htext
      · have hnone := h.year f sign digits text htext hlong hvalue
        obtain ⟨text', rfl, rfl⟩ := Option.map_eq_some_iff.mp hvalue
        obtain ⟨c, rest, hhead, hdigit⟩ := htext.head
        rw [parse_date hhead hdigit, htext.httpDate, hnone]
      · obtain ⟨text', rfl, hstrip⟩ := Option.map_eq_some_iff.mp hvalue
        obtain ⟨c, rest, hhead, hdigit⟩ := head_of_fullDay f.dayOfWeek _
        rw [parse_date ((hstrip.trans htext).trans hhead) hdigit, hstrip, htext,
          httpDate_rfc850_long f sign (by omega)]

/-! ## §5. A year far away. -/

/-- The first of January of the last year that there is. -/
def farFields : DateFields := ⟨4, 1, 0, 0, 0, 0⟩

/-- `Fri, 01 Jan +999999999 00:00:00 GMT`. -/
def farHeader : List Char := farFields.imfFixdate (yearText (some true) (List.replicate 9 9))

/-- **The exception of `toMillis` escapes** for a date of the year 999999999. -/
theorem far_year_thrown : ¬ ∀ value now, Contract value now := by
  intro h
  obtain ⟨requested, hparse, -⟩ := (h (some farHeader) 0).returns
  have hstrip : strip farHeader = farHeader := by decide
  have hyear : yearValue (some true) (List.replicate 9 9) = some 999999999 := by decide
  have hresolve : resolve (parsedOf farFields 999999999) = some 31556889801244800000000000 := by decide
  have hdate : httpDate farHeader = some 31556889801244800000000000 := by
    unfold farHeader
    rw [httpDate_imfFixdate, hyear, Option.bind_some, hresolve]
  have hlarge : ¬ Fits (31556889801244800000000000 - 0) := by
    unfold Fits maxLong
    decide
  obtain ⟨c, rest, hhead, hdigit⟩ := head_of_httpDate hdate
  rw [parse_date (hstrip.trans hhead) hdigit, hstrip, hdate] at hparse
  dsimp only at hparse
  rw [toMillis_of_large hlarge] at hparse
  cases hparse

end CekatEvents.Java
