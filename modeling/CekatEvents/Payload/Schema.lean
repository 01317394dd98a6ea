/-
  CekatEvents.Payload.Schema — the schema of a request body (`event-payload.schema.json`,
  `json-value.schema.json`).

  The schema is a condition on the value a body is read as.  A number is an integer for it when it has no
  fraction, however it is written, and an integer must be a safe one.

  Main result: `Body.schema` — a body of nonempty identity and portable numbers satisfies it.
-/
import CekatEvents.Payload.Body
import CekatEvents.Payload.Number
import CekatEvents.Payload.Timestamp

namespace CekatEvents.Payload

open CekatEvents.Arithmetic CekatEvents.Encoding CekatEvents.JsonText

/-! ## §1. The schema. -/

/-- The units of the pattern, a zero for a digit. -/
def isoPattern : List CodeUnit := units "0000-00-00T00:00:00.000Z"

/-- A unit fits one of the pattern: a digit where that is a zero, itself elsewhere. -/
def fitsPattern (p u : CodeUnit) : Bool := if p = unit '0' then isDigit u else u == p

/-- The pattern of `occurred_at`. -/
def MatchesIso (s : List CodeUnit) : Prop := List.Forall₂ (fun p u => fitsPattern p u = true) isoPattern s

/-- A member, if it is there, is a string that satisfies the condition. -/
def StringMember (C : List CodeUnit → Prop) (v : Value Numeral) (name : String) : Prop :=
  ∀ w ∈ v.get (units name), ∃ s, w = .str s ∧ C s

/-- A number of the schema: an integer must be a safe one. -/
def SchemaNumber (n : Numeral) : Prop := unsafeIntegral n.value = false

/-- **The value of a body satisfies the schema.** -/
structure Schema (v : Value Numeral) : Prop where
  onlyMembers : ∃ ms, v = .obj ms ∧ ∀ m ∈ ms, m.1 ∈ memberNames
  eventKey : ∃ s, v.get (units "event_key") = some (.str s) ∧ s ≠ []
  isCommon : ∃ b, v.get (units "is_common") = some (.bool b)
  contact : (∃ s, v.get (units "email") = some (.str s) ∧ s ≠ []) ∨
    ∃ s, v.get (units "phone_number") = some (.str s) ∧ s ≠ []
  eventId : StringMember (· ≠ []) v "event_id"
  occurredAt : StringMember MatchesIso v "occurred_at"
  contactName : StringMember (fun _ => True) v "contact_name"
  phoneNumber : StringMember (fun _ => True) v "phone_number"
  email : StringMember (fun _ => True) v "email"
  visitorId : StringMember (fun _ => True) v "visitor_id"
  properties : ∀ w ∈ v.get (units "properties"),
    ∃ ms, w = .obj ms ∧ ∀ m ∈ ms, m.2.Numbers SchemaNumber

/-! ## §2. Times. -/

/-- A digit is one unit. -/
theorem utf16_digit (n : Nat) (s : List Char) :
    utf16 (digit n :: s) = digitUnit (n % 10) :: utf16 s := by
  have hmod : n % 10 < 10 := Nat.mod_lt _ (by decide)
  have hchar : utf16Char (digit n) = [digitUnit (n % 10)] := by
    unfold digit
    revert hmod
    generalize n % 10 = k
    intro hk
    revert k
    decide
  rw [utf16_cons, hchar]
  rfl

theorem fits_digit (n : Nat) : fitsPattern (unit '0') (digitUnit (n % 10)) = true := by
  show isDigit _ = true
  exact isDigit_digitUnit (Nat.mod_lt _ (by decide))

/-- **A time is written as the schema has it.** -/
theorem Timestamp.iso_matches (t : Timestamp) : MatchesIso (utf16 t.iso) := by
  have hdash : ∀ s, utf16 ('-' :: s) = unit '-' :: utf16 s := fun _ => rfl
  have hcolon : ∀ s, utf16 (':' :: s) = unit ':' :: utf16 s := fun _ => rfl
  have hT : ∀ s, utf16 ('T' :: s) = unit 'T' :: utf16 s := fun _ => rfl
  have hdot : ∀ s, utf16 ('.' :: s) = unit '.' :: utf16 s := fun _ => rfl
  have hZ : utf16 ['Z'] = [unit 'Z'] := rfl
  have hpattern : isoPattern = [unit '0', unit '0', unit '0', unit '0', unit '-', unit '0', unit '0',
      unit '-', unit '0', unit '0', unit 'T', unit '0', unit '0', unit ':', unit '0', unit '0',
      unit ':', unit '0', unit '0', unit '.', unit '0', unit '0', unit '0', unit 'Z'] := rfl
  unfold MatchesIso Timestamp.iso fourDigits twoDigits threeDigits
  rw [hpattern]
  simp only [List.cons_append, List.nil_append, utf16_digit, hdash, hcolon, hT, hdot, hZ,
    List.forall₂_cons, fits_digit, List.forall₂_nil_left_iff, true_and, and_true]
  decide

/-! ## §3. Numbers. -/

/-- Portability is a matter of the value. -/
theorem portable_congr {x y : Finite} (h : x.value = y.value) :
    (Double.finite x).Portable ↔ (Double.finite y).Portable := by
  unfold Double.Portable
  simp only [Double.finite.injEq, exists_eq_left', h]

theorem abs_intCast (k : ℤ) : |(k : ℚ)| = (k.natAbs : ℚ) := by
  rw [Nat.cast_natAbs, Int.cast_abs]

theorem numeral_value_abs (n : Numeral) : |n.value| = n.abs := by
  unfold Numeral.value
  split_ifs
  · rw [abs_neg, abs_of_nonneg (numeral_abs_nonneg n)]
  · exact abs_of_nonneg (numeral_abs_nonneg n)

/-- A number that is read as a portable double is one of the schema. -/
theorem schemaNumber_of_portable {n : Numeral} (h : (readDouble n).Portable) : SchemaNumber n := by
  unfold SchemaNumber
  rw [← Bool.not_eq_true, unsafeIntegral_iff]
  intro hunsafe
  obtain ⟨⟨k, hk⟩, hlarge⟩ := hunsafe
  have habs : n.abs = (k.natAbs : ℚ) := by
    rw [← numeral_value_abs, hk, abs_intCast]
  rw [numeral_value_abs, habs] at hlarge
  have hround : readDouble n = nearest n.neg (k.natAbs : ℚ) (Nat.cast_nonneg _) := by
    unfold readDouble
    congr 1
  rw [hround, nearest_portable_iff] at h
  exact absurd (by exact_mod_cast hlarge : maxSafeInteger < k.natAbs) (Nat.not_lt.mpr h)

/-- A number within the limits of the builders. -/
def Number.Portable : Number → Prop
  | .integer n => n.natAbs ≤ maxSafeInteger
  | .float x => (Double.finite x).Portable

/-- **A portable number is written as one of the schema.** -/
theorem Number.schema {floats : FloatText} (hfloats : floats.ReadsBack) {n : Number}
    (hn : n.Portable) : SchemaNumber (n.numeral floats) := by
  cases n with
  | integer k =>
      show unsafeIntegral (intNumeral k).value = false
      rw [← Bool.not_eq_true, unsafeIntegral_iff, intNumeral_value, abs_intCast]
      intro hunsafe
      have hlarge : maxSafeInteger < k.natAbs := by exact_mod_cast hunsafe.2
      exact absurd hn (Nat.not_le.mpr hlarge)
  | float x =>
      obtain ⟨y, hy, hvalue⟩ := hfloats x
      apply schemaNumber_of_portable
      show (readDouble (floats.text x)).Portable
      rw [hy, portable_congr hvalue]
      exact hn

/-! ## §4. Bodies. -/

/-- The members of a body, by their names. -/
theorem Body.get {ν : Type} (b : Body ν) (name : String) {o : Option (Value ν)}
    (h : (units name, o) ∈ memberNames.zip b.values) : b.value.get (units name) = o :=
  getKey_present memberNames_nodup h

theorem stringMember_some {C : List CodeUnit → Prop} {v : Value Numeral} {name : String}
    {s : List CodeUnit} (h : v.get (units name) = some (.str s)) (hs : C s) :
    StringMember C v name := by
  intro w hw
  rw [h] at hw
  cases hw
  exact ⟨s, rfl, hs⟩

theorem stringMember_optional {v : Value Numeral} {name : String} {o : Option (List CodeUnit)}
    (h : v.get (units name) = o.map .str) : StringMember (fun _ => True) v name := by
  intro w hw
  rw [h] at hw
  obtain ⟨s, -, rfl⟩ := Option.map_eq_some_iff.mp hw
  exact ⟨s, rfl, trivial⟩

/-- **A body with an event key, an event ID, an identity and properties within the limits satisfies the
    schema.** -/
theorem Body.schema {b : Body Numeral} (hkey : b.eventKey ≠ []) (hid : b.eventId ≠ [])
    (htime : MatchesIso b.occurredAt)
    (hcontact : (∃ s, b.email = some s ∧ s ≠ []) ∨ ∃ s, b.phoneNumber = some s ∧ s ≠ [])
    (hproperties : ∀ w ∈ b.properties, (∃ ms, w = .obj ms) ∧ w.Numbers SchemaNumber) :
    Schema b.value := by
  have hemail : b.value.get (units "email") = b.email.map .str :=
    b.get "email" (by simp [memberNames, Body.values])
  have hphone : b.value.get (units "phone_number") = b.phoneNumber.map .str :=
    b.get "phone_number" (by simp [memberNames, Body.values])
  have hcontactName : b.value.get (units "contact_name") = b.contactName.map .str :=
    b.get "contact_name" (by simp [memberNames, Body.values])
  have heventKey : b.value.get (units "event_key") = some (.str b.eventKey) :=
    b.get "event_key" (by simp [memberNames, Body.values])
  have heventId : b.value.get (units "event_id") = some (.str b.eventId) :=
    b.get "event_id" (by simp [memberNames, Body.values])
  have hoccurredAt : b.value.get (units "occurred_at") = some (.str b.occurredAt) :=
    b.get "occurred_at" (by simp [memberNames, Body.values])
  refine ⟨⟨_, rfl, ?_⟩, ⟨_, heventKey, hkey⟩,
    ⟨b.isCommon, b.get "is_common" (by simp [memberNames, Body.values])⟩, ?_,
    stringMember_some heventId hid, stringMember_some hoccurredAt htime,
    stringMember_optional hcontactName, stringMember_optional hphone,
    stringMember_optional hemail, stringMember_optional b.get_visitorId, ?_⟩
  · intro m hm
    exact (mem_present hm).1
  · rw [hemail, hphone]
    rcases hcontact with ⟨s, hs, hne⟩ | ⟨s, hs, hne⟩
    · exact .inl ⟨s, by rw [hs]; rfl, hne⟩
    · exact .inr ⟨s, by rw [hs]; rfl, hne⟩
  · intro w hw
    rw [b.get_properties] at hw
    obtain ⟨⟨ms, rfl⟩, hnumbers⟩ := hproperties w hw
    exact ⟨ms, rfl, numbersMember_iff.mp hnumbers⟩

end CekatEvents.Payload
