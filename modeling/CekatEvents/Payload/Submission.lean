/-
  CekatEvents.Payload.Submission — an event in no language's terms, and what its body is to say.

  A submission has texts of characters, times to the millisecond, and properties that are a value of JSON
  whose numbers are rational; a number that is sent stands for the double it is read as (`Reads`).  What a
  builder is to do with it does not depend on a language: `Accepted` says which submissions are sent, `body`
  what is sent of one, `Says` that a text in UTF-8 says that, and `Served` that a builder does all this.

    * `Number.reads`, `Number.portable_iff` — the numbers of the builders and those of a submission;
    * `Body.alike`                          — bodies are alike when their fields are;
    * `Submission.tells_of_body`             — a body of the same fields says the submission.
-/
import CekatEvents.Effects.Outcome
import CekatEvents.Encoding.Trimming
import CekatEvents.JsonText.Alike
import CekatEvents.JsonText.Texts
import CekatEvents.Payload.Schema

namespace CekatEvents.Payload

open CekatEvents.Arithmetic CekatEvents.Effects CekatEvents.Encoding CekatEvents.JsonText

/-! ## §1. Numbers. -/

/-- **The number as it is written is read as the double of this value.** -/
def Reads (n : Numeral) (q : ℚ) : Prop := ∃ x : Finite, readDouble n = .finite x ∧ x.value = q

/-- The value of a finite double. -/
def IsDouble (q : ℚ) : Prop := ∃ x : Finite, x.value = q

/-- What denotes the value of a double is read as it. -/
theorem reads_of_value {n : Numeral} (h : IsDouble n.value) : Reads n n.value := by
  obtain ⟨x, hx⟩ := h
  have habs : x.abs = n.abs := by rw [← abs_value, hx, numeral_value_abs]
  -- the double with the sign that is written, which may be a zero of the other sign
  obtain ⟨y, hy, hneg, hyabs⟩ := nearest_self { x with neg := n.neg }
  have habs' : ({ x with neg := n.neg } : Finite).abs = n.abs := habs
  refine ⟨y, ?_, ?_⟩
  · rw [← hy]
    unfold readDouble
    congr 1
    exact habs'.symm
  · unfold Finite.value Numeral.value
    rw [hneg, hyabs, habs']

/-- A finite double is portable when its value is. -/
theorem finite_portable_iff {x : Finite} : (Double.finite x).Portable ↔ unsafeIntegral x.value = false := by
  rw [← portable?_isSome_iff]
  unfold Double.portable? Finite.isPortable
  cases h : unsafeIntegral x.value with
  | false => simp [h]
  | true => simp [h]

theorem Reads.portable_iff {n : Numeral} {q : ℚ} (h : Reads n q) :
    (readDouble n).Portable ↔ unsafeIntegral q = false := by
  obtain ⟨x, hx, rfl⟩ := h
  rw [hx]
  exact finite_portable_iff

/-- The value of a number of a body. -/
def Number.value : Number → ℚ
  | .integer n => n
  | .float x => x.value

/-- **A number is within the limits of the builders when its value is.** -/
theorem Number.portable_iff {n : Number} : n.Portable ↔ unsafeIntegral n.value = false := by
  cases n with
  | float x => exact finite_portable_iff
  | integer k =>
      show k.natAbs ≤ maxSafeInteger ↔ unsafeIntegral (k : ℚ) = false
      rw [← Bool.not_eq_true, unsafeIntegral_iff, abs_intCast, not_and, not_lt, Nat.cast_le]
      constructor
      · intro h _
        exact h
      · intro h
        exact h ⟨k, rfl⟩

/-- **A number is read as its value**, when that is one of a double. -/
theorem Number.reads {floats : FloatText} (hfloats : floats.ReadsBack) {n : Number} (h : IsDouble n.value) :
    Reads (n.numeral floats) n.value := by
  cases n with
  | float x => exact hfloats x
  | integer k =>
      have hvalue : (intNumeral k).value = Number.value (.integer k) := intNumeral_value k
      rw [← hvalue] at h ⊢
      exact reads_of_value h

/-- **Numbers of the values that are meant are written so that they are read as them.** -/
theorem written_alike {ν : Type} {value : ν → ℚ} {numeral : ν → Numeral}
    (hreads : ∀ n, IsDouble (value n) → Reads (numeral n) (value n)) {o : Option (Value ν)} {p : Option (Value ℚ)}
    (h : Option.Rel (Value.Alike fun n q => value n = q) o p) (hp : ∀ v ∈ p, v.Numbers IsDouble) :
    Option.Rel (Value.Alike Reads) (o.map (Value.map numeral)) p := by
  cases h with
  | none => exact .none
  | @some w v halike =>
      apply Option.Rel.some
      -- the numbers of the copy are those that were given, so they are doubles as well
      have hdoubles : w.Numbers fun n => IsDouble (value n) := by
        rw [halike.numbers_iff (B := IsDouble) fun n q hnq => by rw [hnq]]
        exact hp v rfl
      rw [alike_map_left]
      apply halike.imp _ hdoubles
      intro n q hn hnq
      rw [← hnq]
      exact hreads n hn

/-! ## §2. Bodies. -/

/-- **The bodies have alike fields.** -/
structure Body.Alike {ν μ : Type} (N : ν → μ → Prop) (b : Body ν) (c : Body μ) : Prop where
  eventKey : b.eventKey = c.eventKey
  eventId : b.eventId = c.eventId
  occurredAt : b.occurredAt = c.occurredAt
  isCommon : b.isCommon = c.isCommon
  email : b.email = c.email
  phoneNumber : b.phoneNumber = c.phoneNumber
  contactName : b.contactName = c.contactName
  visitorId : b.visitorId = c.visitorId
  properties : Option.Rel (Value.Alike N) b.properties c.properties

section Bodies

variable {ν μ : Type} {N : ν → μ → Prop}

/-- Members that are present are alike when their values are. -/
theorem present_alike {names : List (List CodeUnit)} {xs : List (Option (Value ν))}
    {ys : List (Option (Value μ))} (h : List.Forall₂ (Option.Rel (Value.Alike N)) xs ys) :
    List.Forall₂ (MemberAlike N) (present names xs) (present names ys) := by
  induction h generalizing names with
  | nil =>
      cases names with
      | nil => exact .nil
      | cons name names => exact .nil
  | cons hx _ ih =>
      cases names with
      | nil => exact .nil
      | cons name names =>
          rw [present_cons, present_cons]
          cases hx with
          | none => exact ih
          | some hx => exact .cons ⟨rfl, hx⟩ ih

theorem optionalString_alike (o : Option (List CodeUnit)) :
    Option.Rel (Value.Alike N) (o.map Value.str) (o.map Value.str) := by
  cases o with
  | none => exact .none
  | some s => exact .some rfl

/-- **Bodies of alike fields are alike.** -/
theorem Body.Alike.value {b : Body ν} {c : Body μ} (h : b.Alike N c) : b.value.Alike N c.value := by
  apply alike_obj
  apply present_alike
  unfold Body.values
  rw [h.eventKey, h.eventId, h.occurredAt, h.isCommon, h.email, h.phoneNumber, h.contactName, h.visitorId]
  refine .cons (.some rfl) (.cons (.some rfl) (.cons (.some rfl) (.cons (.some rfl) ?_)))
  refine .cons (optionalString_alike _) (.cons (optionalString_alike _) (.cons (optionalString_alike _) ?_))
  exact .cons (optionalString_alike _) (.cons h.properties .nil)

end Bodies

/-! ## §3. Submissions. -/

/-- An event, with the visitor, the clock and the generated ID that a call finds. -/
structure Submission where
  eventKey : List Char
  isCommon : Bool
  email : Option (List Char)
  phoneNumber : Option (List Char)
  contactName : Option (List Char)
  visitorId : Option (List Char)
  ambientVisitorId : Option (List Char)
  eventId : Option (List Char)
  newEventId : List Char
  occurredAt : Option Timestamp
  now : Timestamp
  properties : Option (Value ℚ)

/-- No name begins with NUL. -/
def Assignable (names : List (List CodeUnit)) : Prop := ∀ name ∈ names, name.head? ≠ some 0

theorem assignable_perm {names names' : List (List CodeUnit)} (h : names.Perm names') :
    Assignable names ↔ Assignable names' := by
  unfold Assignable
  simp only [h.mem_iff]

/-- A value that every language can hold: strings of Unicode, no name twice, none that begins with NUL, and
    numbers that are doubles. -/
structure Held (v : Value ℚ) : Prop where
  unicode : v.Unicode
  distinct : v.Distinct
  assignable : v.Each (fun _ => True) Assignable
  doubles : v.Numbers IsDouble

theorem Held.elem {vs : List (Value ℚ)} (h : Held (.arr vs)) : ∀ v ∈ vs, Held v := by
  intro v hv
  exact ⟨eachElem_iff.mp h.unicode v hv, eachElem_iff.mp h.distinct v hv, eachElem_iff.mp h.assignable v hv,
    numbersElem_iff.mp h.doubles v hv⟩

/-- The names and the values of an object. -/
theorem Held.zip {names : List (List CodeUnit)} {vs : List (Value ℚ)} (h : Held (.obj (names.zip vs)))
    (hlen : vs.length = names.length) :
    names.Nodup ∧ (∀ name ∈ names, WellFormed name) ∧ ∀ v ∈ vs, Held v := by
  have hfst : (names.zip vs).map Prod.fst = names := List.map_fst_zip (Nat.le_of_eq hlen.symm)
  have hsnd : (names.zip vs).map Prod.snd = vs := List.map_snd_zip (Nat.le_of_eq hlen)
  have hunicode := eachMember_iff.mp h.unicode.2
  refine ⟨((distinct_zip_iff hlen).mp h.distinct).1, ?_, ?_⟩
  · intro name hname
    rw [← hfst] at hname
    obtain ⟨m, hm, rfl⟩ := List.mem_map.mp hname
    exact (hunicode m hm).1
  · rw [← hsnd, List.forall_mem_map]
    intro m hm
    exact ⟨(hunicode m hm).2, (eachMember_iff.mp h.distinct.2 m hm).2, (eachMember_iff.mp h.assignable.2 m hm).2,
      numbersMember_iff.mp h.doubles m hm⟩

/-- Values that are held are held one by one. -/
theorem forall₂_held {α : Type} {R : α → Value ℚ → Prop} {xs : List α} {vs : List (Value ℚ)}
    (h : List.Forall₂ R xs vs) (hvs : ∀ v ∈ vs, Held v) : List.Forall₂ (fun x v => R x v ∧ Held v) xs vs := by
  induction h with
  | nil => exact .nil
  | cons hx _ ih =>
      obtain ⟨hv, hvs⟩ := List.forall_mem_cons.mp hvs
      exact .cons ⟨hx, hv⟩ (ih hvs)

/-- The order of members does not matter to that. -/
theorem Held.alike {v w : Value ℚ} (h : w.Alike Eq v) (hv : Held v) : Held w :=
  ⟨h.unicode_iff.mpr hv.unicode, h.distinct_iff.mpr hv.distinct,
    (h.each_iff fun _ _ => assignable_perm).mpr hv.assignable,
    (alike_eq_numbers_iff h _).mpr hv.doubles⟩

/-- Properties that every language can hold: an object with members, and not too deep. -/
structure Plain (v : Value ℚ) : Prop extends Held v where
  members : ∃ m ms, v = .obj (m :: ms)
  nesting : v.nesting ≤ 99

/-- A text that all languages trim alike. -/
def OptionSettled (o : Option (List Char)) : Prop := ∀ cs ∈ o, Settled cs

/-- A text that is sent as it is given is not empty when there is one. -/
def Filled (o : Option (List Char)) : Prop := ∀ cs ∈ o, Settled cs ∧ cs ≠ []

/-- **The submissions that every language can be given.** -/
structure Submission.Neutral (s : Submission) : Prop where
  eventKey : Settled s.eventKey
  email : Filled s.email
  phoneNumber : Filled s.phoneNumber
  contactName : Filled s.contactName
  visitorId : OptionSettled s.visitorId
  ambientVisitorId : OptionSettled s.ambientVisitorId
  eventId : OptionSettled s.eventId
  time : ∀ t ∈ s.occurredAt, 1000 ≤ t.year ∧ t.year ≤ 9999
  now : 1000 ≤ s.now.year ∧ s.now.year ≤ 9999
  properties : ∀ v ∈ s.properties, Plain v

/-- There is a text, and it is not blank. -/
def NotBlank (o : Option (List Char)) : Prop := ∃ cs, o = some cs ∧ trimCommon cs ≠ []

/-- The text without the white space around it, nothing when nothing is left. -/
def trimmed (o : Option (List Char)) : Option (List Char) := trimToNone (fun c => isCommonSpace c.toNat) o

theorem trimmed_some (cs : List Char) :
    trimmed (some cs) = if trimCommon cs = [] then none else some (trimCommon cs) := by
  show Option.filter (fun t => !t.isEmpty) (some (trimCommon cs)) = _
  rw [Option.filter_some]
  by_cases h : trimCommon cs = []
  · rw [if_pos h, h]
    rfl
  · rw [if_neg h, if_pos (by simpa using h)]

theorem notBlank_iff_trimmed {o : Option (List Char)} : NotBlank o ↔ (trimmed o).isNone = false := by
  cases o with
  | none => simp [NotBlank, trimmed, trimToNone]
  | some cs =>
      rw [trimmed_some]
      by_cases h : trimCommon cs = []
      · simp [NotBlank, h]
      · simp [NotBlank, h]

/-- What is left is not empty. -/
theorem trimmed_ne_nil {o : Option (List Char)} {cs : List Char} (h : trimmed o = some cs) : cs ≠ [] :=
  (trimToNone_eq_some_iff.mp h).1

/-- **The submission is to be sent**: it has a key and an identity, and the numbers of its properties are within
    the safe integers where they are integral. -/
structure Submission.Accepted (s : Submission) : Prop where
  eventKey : trimCommon s.eventKey ≠ []
  identity : NotBlank s.email ∨ NotBlank s.phoneNumber
  numbers : ∀ v ∈ s.properties, v.Numbers fun q => unsafeIntegral q = false

/-- The event ID that is sent. -/
def Submission.sentEventId (s : Submission) : List Char := (trimmed s.eventId).getD s.newEventId

/-- The time that is sent. -/
def Submission.time (s : Submission) : Timestamp := s.occurredAt.getD s.now

/-- The visitor that is sent: the one of the event before the ambient one. -/
def Submission.sentVisitorId (s : Submission) : Option (List Char) :=
  (trimmed s.visitorId).or (trimmed s.ambientVisitorId)

/-- The body of the submission, with these properties. -/
def Submission.bodyWith {ν : Type} (s : Submission) (properties : Option (Value ν)) : Body ν where
  eventKey := utf16 s.eventKey
  eventId := utf16 s.sentEventId
  occurredAt := utf16 s.time.iso
  isCommon := s.isCommon
  email := s.email.map utf16
  phoneNumber := s.phoneNumber.map utf16
  contactName := s.contactName.map utf16
  visitorId := s.sentVisitorId.map utf16
  properties := properties

/-- **What is to be sent.** -/
def Submission.body (s : Submission) : Body ℚ := s.bodyWith s.properties

/-- **The text says the submission**: in UTF-8, up to the order of members, every number being read as the
    double that was given. -/
def Submission.Says (s : Submission) (text : List UInt8) : Prop :=
  ∃ v, BodyReads text v ∧ v.Alike Reads s.body.value

/-- The bytes of the text that a builder returns. -/
def inUtf8 {ε : Type} (x : Except ε (List CodeUnit)) : Except ε (List UInt8) :=
  x.map fun text => utf8 (ofUtf16Lossy text)

/-- **A builder does what there is to do**: it returns a text that says the submission when that is to be sent,
    and fails by an error of this kind when it is not. -/
def Submission.Served (s : Submission) {ε : Type} (P : ε → Prop) (x : Except ε (List UInt8)) : Prop :=
  (s.Accepted ∧ ∃ body, x = .ok body ∧ s.Says body) ∨ (¬ s.Accepted ∧ ∃ e, x = .error e ∧ P e)

theorem Submission.served_of {s : Submission} {ε : Type} {P : ε → Prop} {x : Except ε (List UInt8)}
    (hraises : Raises P x) (haccepts : (∃ body, x = .ok body) ↔ s.Accepted)
    (htells : ∀ body, x = .ok body → s.Says body) : s.Served P x := by
  cases x with
  | ok body => exact .inl ⟨haccepts.mp ⟨body, rfl⟩, body, rfl, htells body rfl⟩
  | error e =>
      refine .inr ⟨?_, e, rfl, hraises e rfl⟩
      intro h
      obtain ⟨body, hbody⟩ := haccepts.mpr h
      cases hbody

theorem Submission.Served.sends {s : Submission} {ε : Type} {P : ε → Prop} {x : Except ε (List UInt8)}
    (h : s.Served P x) (haccepted : s.Accepted) : ∃ body, x = .ok body ∧ s.Says body := by
  rcases h with hsent | hrefused
  · exact hsent.2
  · exact absurd haccepted hrefused.1

theorem Submission.Served.refuses {s : Submission} {ε : Type} {P : ε → Prop} {x : Except ε (List UInt8)}
    (h : s.Served P x) (hrefused : ¬ s.Accepted) : ∃ e, x = .error e ∧ P e := by
  rcases h with hsent | hrefuses
  · exact absurd hsent.1 hrefused
  · exact hrefuses.2

/-- **A body of the same fields says the submission.** -/
theorem Submission.tells_of_body {s : Submission} {text : List UInt8} {b : Body Numeral}
    (hreads : BodyReads text b.value) (h : b.Alike Reads s.body) : s.Says text :=
  ⟨b.value, hreads, h.value⟩

section Bodies

variable {s : Submission} {ν : Type} {N : ν → ℚ → Prop} {o : Option (Value ν)}

theorem Submission.Neutral.distinct (hs : s.Neutral) (ho : Option.Rel (Value.Alike N) o s.properties) :
    (s.bodyWith o).value.Distinct := by
  rw [Body.distinct_iff]
  intro w hw
  have hw : o = some w := hw
  rw [hw] at ho
  generalize hp : s.properties = p at ho
  cases ho with
  | some halike => exact halike.distinct_iff.mpr (hs.properties _ hp).distinct

/-- **Every string of the body is Unicode.** -/
theorem Submission.Neutral.unicode (hs : s.Neutral) (ho : Option.Rel (Value.Alike N) o s.properties) :
    (s.bodyWith o).value.Unicode := by
  have htext : ∀ p : Option (List Char), ∀ t ∈ (p.map utf16).toList, WellFormed t := by
    intro p t ht
    obtain ⟨cs, -, rfl⟩ := Option.map_eq_some_iff.mp (Option.mem_toList.mp ht)
    exact ⟨cs, rfl⟩
  unfold Value.Unicode
  rw [Body.each_iff memberNames_wellFormed _ trivial]
  constructor
  · unfold Body.strings Submission.bodyWith
    simp only [List.forall_mem_append, List.forall_mem_cons]
    exact ⟨⟨⟨⟨⟨⟨_, rfl⟩, ⟨_, rfl⟩, ⟨_, rfl⟩, fun t ht => absurd ht List.not_mem_nil⟩, htext _⟩, htext _⟩,
      htext _⟩, htext _⟩
  · intro w hw
    have hw : o = some w := hw
    rw [hw] at ho
    generalize hp : s.properties = p at ho
    cases ho with
    | some halike => exact halike.unicode_iff.mpr (hs.properties _ hp).unicode

/-- **A text that is read as the body says the submission**, when its numbers are read as their values. -/
theorem Submission.Neutral.tells (hs : s.Neutral) {value : ν → ℚ} {numeral : ν → Numeral}
    (hreads : ∀ n, IsDouble (value n) → Reads (numeral n) (value n))
    (ho : Option.Rel (Value.Alike fun n q => value n = q) o s.properties) {text : List UInt8}
    (h : BodyReads text ((s.bodyWith o).value.map numeral)) : s.Says text := by
  refine ⟨_, h, ?_⟩
  rw [Body.value_map]
  apply Body.Alike.value
  refine ⟨rfl, rfl, rfl, rfl, rfl, rfl, rfl, rfl, ?_⟩
  apply written_alike hreads ho
  exact fun v hv => (hs.properties v hv).doubles

end Bodies

theorem Submission.Neutral.year {s : Submission} (h : s.Neutral) : 1000 ≤ s.time.year ∧ s.time.year ≤ 9999 := by
  unfold Submission.time
  cases ht : s.occurredAt with
  | none => exact h.now
  | some t => exact h.time t ht

end CekatEvents.Payload
