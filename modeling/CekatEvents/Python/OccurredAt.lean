/-
  CekatEvents.Python.OccurredAt — the time of an event in the Python client, from the fields of a datetime.

  A datetime shows the fields of its own zone, to the microsecond.  `Aware` keeps of it what a body needs,
  and `Datetime.aware` is that.  The subtraction of the offset raises outside the years that a datetime can
  have; `%Y` does not pad a year.

  Main results:

    • `sends_canonical_iff` — which datetimes are sent, or refused, as they should be;
    • `short_year_sent`     — one of the year 999 is sent with a text of 23 characters.
-/
import CekatEvents.Payload.IsoText
import CekatEvents.Python.Outcomes

namespace CekatEvents.Python.Validation

open CekatEvents.Encoding CekatEvents.JsonText CekatEvents.Payload CekatEvents.Time

/-! ## §1. Datetimes. -/

/-- An aware `datetime`.  The offset is in microseconds, and less than a day. -/
structure Datetime where
  date : DateTime
  microsecond : Nat
  utcoffset : Int
  year_range : 1 ≤ date.year ∧ date.year ≤ 9999
  microsecond_lt : microsecond < 1000000
  utcoffset_range : -86400000000 < utcoffset ∧ utcoffset < 86400000000

namespace Datetime

/-- The microseconds since the epoch of the UTC time: the fields, less the offset. -/
def utcMicro (d : Datetime) : Int := d.date.epochSecond * 1000000 + d.microsecond - d.utcoffset

/-- The UTC time in whole milliseconds, those that have begun. -/
def utcMilli (d : Datetime) : Int := d.utcMicro / 1000

/-- The date of the UTC time. -/
def utcDate (d : Datetime) : DateTime := .ofEpochSecond (d.utcMicro / 1000000)

/-- The UTC time is in a year that a datetime can have. -/
def UtcInRange (d : Datetime) : Prop := 1 ≤ d.utcDate.year ∧ d.utcDate.year ≤ 9999

instance (d : Datetime) : Decidable d.UtcInRange := inferInstanceAs (Decidable (_ ∧ _))

/-- The fields of the UTC time, `microsecond // 1000` of the last one. -/
def utcFields (d : Datetime) : Timestamp :=
  .ofDateTime d.utcDate ⟨(d.utcMicro % 1000000 / 1000).toNat, by omega⟩

/-- **What a body needs of a datetime.** -/
def aware (d : Datetime) : Aware where
  year := d.date.year
  utc := if d.UtcInRange then some d.utcFields else none
  year_range := d.year_range
  utc_range := by
    intro t ht
    rw [Option.mem_def] at ht
    split_ifs at ht with hin
    cases ht
    exact decide_eq_true hin

theorem aware_utc {d : Datetime} (h : d.UtcInRange) : d.aware.utc = some d.utcFields := if_pos h

theorem aware_utc_none {d : Datetime} (h : ¬ d.UtcInRange) : d.aware.utc = none := if_neg h

/-- **The fields of the UTC time are those of its whole milliseconds**: the seconds do not change when
    what is finer is cut off. -/
theorem utcFields_eq (d : Datetime) : d.utcFields = .ofMillis d.utcMilli := by
  have hsecond : d.utcMicro / 1000000 = d.utcMilli / 1000 := by
    unfold utcMilli
    omega
  have hfraction : d.utcMicro % 1000000 / 1000 = d.utcMilli % 1000 := by
    unfold utcMilli
    omega
  unfold utcFields utcDate Timestamp.ofMillis
  rw [hsecond]
  congr 2
  rw [hfraction]

end Datetime

/-! ## §2. The text. -/

/-- The characters of `%Y`. -/
theorem length_yearText {year : Nat} : (yearText year).length < 4 ↔ year < 1000 := by
  unfold yearText
  split_ifs with hone htwo hthree
  · exact iff_of_true (show 1 < 4 by decide) (by omega)
  · exact iff_of_true (show 2 < 4 by decide) (by omega)
  · exact iff_of_true (show 3 < 4 by decide) (by omega)
  · exact iff_of_false (show ¬ 4 < 4 by decide) hthree

/-- A year of fewer digits makes the text shorter. -/
theorem length_strftime_lt {t : Timestamp} (h : t.year < 1000) : (strftime t).length < 24 := by
  have hyear : (yearText t.year.toNat).length < 4 := length_yearText.mpr (by omega)
  have hrest : (t.iso.drop 4).length = 20 := rfl
  unfold strftime
  rw [List.length_append, hrest]
  omega

/-- The member is a text of the form of the schema, which stands for the UTC time in whole milliseconds. -/
def SendsTime (d : Datetime) (v : Value Numeral) : Prop :=
  ∃ text, v.get (units "occurred_at") = some (.str (utf16 text)) ∧ text.length = 24 ∧
    MatchesIso (utf16 text) ∧ readIso text = some d.utcMilli

/-- **A datetime is sent as its UTC time in whole milliseconds**, and refused where that is outside the
    years from 1 to 9999. -/
def SendsCanonical (d : Datetime) : Prop :=
  ∀ (floats : FloatText) (seams : Seams) (heap : Heap) (eventKey : Field) (isCommon : Bool) (event : Event)
    (ambient : Field), event.occurredAt = .aware d.aware →
    (d.UtcInRange →
      (Unobjectionable seams heap eventKey event ambient →
        ∃ body, buildBody floats seams heap eventKey isCommon (some event) ambient = .ok body) ∧
      ∀ body, buildBody floats seams heap eventKey isCommon (some event) ambient = .ok body →
        ∃ v, BodyReads body v ∧ SendsTime d v) ∧
    (¬ d.UtcInRange →
      ∃ message, buildBody floats seams heap eventKey isCommon (some event) ambient
        = .error (.validation message))

section Build

variable {floats : FloatText} {seams : Seams} {heap : Heap} {eventKey : Field} {isCommon : Bool}
  {event : Event} {ambient : Field} {d : Datetime}

/-- What is sent for a datetime, whatever the platform makes of its year. -/
theorem buildBody_time (hevent : event.occurredAt = .aware d.aware) (hin : d.UtcInRange) {body : List UInt8}
    (h : buildBody floats seams heap eventKey isCommon (some event) ambient = .ok body) :
    ∃ v, BodyReads body v ∧ v.get (units "occurred_at") = some (.str (utf16 (strftime d.utcFields))) := by
  obtain ⟨key, t, o, b, -, -, -, ht, -, hwrites, hreads⟩ := buildBody_reads h
  rw [hevent] at ht
  have hfields : t = d.utcFields := Option.some.inj (ht.symm.trans (Datetime.aware_utc hin))
  refine ⟨_, hreads, ?_⟩
  rw [← hfields, ← show b.occurredAt = utf16 (strftime t) from hwrites.occurredAt]
  exact Body.get _ "occurred_at" (by simp [memberNames, Body.values, Body.map])

theorem strftime_canonical (hlate : 1000 ≤ d.utcDate.year) (hin : d.UtcInRange) :
    (strftime d.utcFields).length = 24 ∧ MatchesIso (utf16 (strftime d.utcFields)) ∧
      readIso (strftime d.utcFields) = some d.utcMilli := by
  have hyear : 0 ≤ d.utcFields.year ∧ d.utcFields.year ≤ 9999 :=
    ⟨show 0 ≤ d.utcDate.year by omega, hin.2⟩
  rw [strftime_eq (show 1000 ≤ d.utcFields.year from hlate)]
  refine ⟨length_iso _, d.utcFields.iso_matches, ?_⟩
  rw [d.utcFields_eq] at hyear ⊢
  exact readIso_ofMillis hyear

/-- **A UTC time outside the calendar is refused.** -/
theorem buildBody_out_of_range (hevent : event.occurredAt = .aware d.aware) (hout : ¬ d.UtcInRange) :
    ∃ message, buildBody floats seams heap eventKey isCommon (some event) ambient
      = .error (.validation message) := by
  have hcontained := buildBody_contained floats seams heap eventKey isCommon (some event) ambient
  cases hbuild : buildBody floats seams heap eventKey isCommon (some event) ambient with
  | ok body =>
      obtain ⟨-, t, -, -, -, -, -, ht, -⟩ := buildBody_reads hbuild
      rw [hevent] at ht
      cases ht.symm.trans (Datetime.aware_utc_none hout)
  | error raised =>
      obtain ⟨message, rfl⟩ := (hcontained raised hbuild).message
      exact ⟨message, rfl⟩

end Build

/-- **A UTC year of fewer than four digits is sent with a text that is too short.** -/
theorem not_sendsCanonical {d : Datetime} (hone : 1 ≤ d.utcDate.year) (hshort : d.utcDate.year < 1000) :
    ¬ SendsCanonical d := by
  intro h
  have hin : d.UtcInRange := ⟨hone, by omega⟩
  obtain ⟨haccepts, hsends⟩ := (h exactText fixedSeams (fun _ => .list []) (.str (ofChars ['k'])) true
    (emailEvent (.aware d.aware)) .none rfl).1 hin
  obtain ⟨body, hbody⟩ := haccepts (emailEvent_unobjectionable _ _)
  obtain ⟨v, hreads, text, hget, hlength, -⟩ := hsends body hbody
  obtain ⟨w, hreads', hget'⟩ := buildBody_time rfl hin hbody
  cases hreads.unique hreads'
  -- the text is the one that the platform made, which is too short
  have htext : text = strftime d.utcFields := by
    rw [hget, Option.some.injEq, Value.str.injEq] at hget'
    exact utf16_injective hget'
  have hlt := length_strftime_lt (show d.utcFields.year < 1000 from hshort)
  rw [← htext] at hlt
  omega

/-- **A datetime is treated as it should be exactly when its UTC year does not have fewer than four
    digits.** -/
theorem sends_canonical_iff (d : Datetime) :
    SendsCanonical d ↔ ¬ (1 ≤ d.utcDate.year ∧ d.utcDate.year < 1000) := by
  constructor
  · rintro h ⟨hone, hshort⟩
    exact not_sendsCanonical hone hshort h
  · intro hyear floats seams heap eventKey isCommon event ambient hevent
    refine ⟨fun hin => ⟨fun hunobjectionable => ?_, fun body hbody => ?_⟩, buildBody_out_of_range hevent⟩
    · refine (buildBody_accepts_iff ?_).mpr ⟨hunobjectionable, ?_⟩
      · intro hnone
        rw [hevent] at hnone
        cases hnone
      · rw [hevent]
        exact ⟨_, Datetime.aware_utc hin⟩
    · obtain ⟨v, hreads, hget⟩ := buildBody_time hevent hin hbody
      have hlate : 1000 ≤ d.utcDate.year := by
        have hone := hin.1
        omega
      exact ⟨v, hreads, _, hget, strftime_canonical hlate hin⟩

/-- The end of the year 999, in UTC. -/
def shortYear : Datetime :=
  ⟨⟨999, 12, 31, 23, 59, 59, by decide, by decide, by decide, by decide, by decide⟩, 999999, 0, by decide,
    by decide, by decide⟩

/-- **A datetime of the year 999 is sent**, with a text of 23 characters. -/
theorem short_year_sent :
    (strftime shortYear.utcFields) = "999-12-31T23:59:59.999Z".toList ∧
      ¬ ∀ d, SendsCanonical d := by
  refine ⟨by decide, ?_⟩
  intro h
  exact not_sendsCanonical (by decide) (by decide) (h shortYear)

end CekatEvents.Python.Validation
