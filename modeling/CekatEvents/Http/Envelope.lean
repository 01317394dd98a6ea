/-
  CekatEvents.Http.Envelope — the outcome that a response demands.

  An acknowledgement is demanded by a 200 whose whole body is a success envelope, a decode error by every
  other 200, and an error of the status by every other status.  Envelopes are described by the members
  they have, apart from the code that takes them apart.

  Main results:

    • `successFields_iff`, `errorFields_iff` — what is taken of a body is what its envelope has;
    • `explains_getD`, `not_acknowledges` — so what is reported of a body is what it demands.
-/
import CekatEvents.Http.Octets
import CekatEvents.Http.Status

namespace CekatEvents.Http

open CekatEvents.Encoding

/-! ## §1. Envelopes. -/

/-- The first member of a name has a value. -/
def Parsed.Has (v : Parsed) (name : String) (value : Parsed) : Prop :=
  ∃ before after, v = .object (before ++ (octets name, value) :: after) ∧ ∀ m ∈ before, m.1 ≠ octets name

theorem member_iff {v value : Parsed} {name : String} : v.member name = some value ↔ v.Has name value := by
  unfold Parsed.Has
  cases v with
  | object members =>
      show (members.find? fun m => m.1 == octets name).map Prod.snd = some value ↔ _
      rw [Option.map_eq_some_iff]
      constructor
      · rintro ⟨m, hfind, rfl⟩
        rw [List.find?_eq_some_iff_append] at hfind
        obtain ⟨hname, before, after, rfl, hbefore⟩ := hfind
        refine ⟨before, after, ?_, ?_⟩
        · rw [← beq_iff_eq.mp hname]
        · intro n hn heq
          have hnot := hbefore n hn
          rw [heq, beq_self_eq_true] at hnot
          cases hnot
      · rintro ⟨before, after, hmembers, hbefore⟩
        cases hmembers
        refine ⟨(octets name, value), ?_, rfl⟩
        rw [List.find?_eq_some_iff_append]
        refine ⟨beq_self_eq_true _, before, after, rfl, ?_⟩
        intro n hn
        rw [Bool.not_eq_true', beq_eq_false_iff_ne]
        exact hbefore n hn
  | null => exact iff_of_false (by rintro ⟨⟩) (by rintro ⟨_, _, ⟨⟩, -⟩)
  | bool _ => exact iff_of_false (by rintro ⟨⟩) (by rintro ⟨_, _, ⟨⟩, -⟩)
  | number => exact iff_of_false (by rintro ⟨⟩) (by rintro ⟨_, _, ⟨⟩, -⟩)
  | string _ => exact iff_of_false (by rintro ⟨⟩) (by rintro ⟨_, _, ⟨⟩, -⟩)
  | array _ => exact iff_of_false (by rintro ⟨⟩) (by rintro ⟨_, _, ⟨⟩, -⟩)

theorem isBool_iff {v : Parsed} {name : String} {b : Bool} :
    isBool b (v.member name) = true ↔ v.Has name (.bool b) := by
  rw [← member_iff]
  cases v.member name with
  | none => exact iff_of_false Bool.false_ne_true (by rintro ⟨⟩)
  | some value =>
      cases value with
      | bool c =>
          show (c == b) = true ↔ _
          rw [beq_iff_eq, Option.some.injEq, Parsed.bool.injEq]
      | _ => exact iff_of_false Bool.false_ne_true (by rintro ⟨⟩)

theorem nonemptyString_iff {v : Parsed} {name : String} {s : List UInt8} :
    nonemptyString (v.member name) = some s ↔ v.Has name (.string s) ∧ s ≠ [] := by
  rw [← member_iff]
  cases v.member name with
  | none => exact iff_of_false (by rintro ⟨⟩) (by rintro ⟨⟨⟩, -⟩)
  | some value =>
      cases value with
      | string t =>
          show (if t = [] then none else some t) = some s ↔ some (Parsed.string t) = some (.string s) ∧ s ≠ []
          by_cases ht : t = []
          · rw [if_pos ht]
            refine iff_of_false (by rintro ⟨⟩) ?_
            rintro ⟨heq, hs⟩
            cases heq
            exact hs ht
          · rw [if_neg ht]
            constructor
            · intro h
              cases h
              exact ⟨rfl, ht⟩
            · rintro ⟨heq, -⟩
              cases heq
              rfl
      | _ => exact iff_of_false (by rintro ⟨⟩) (by rintro ⟨⟨⟩, -⟩)

theorem mapM_string?_iff {items : List Parsed} {texts : List (List UInt8)} :
    items.mapM Parsed.string? = some texts ↔ items = texts.map .string := by
  induction items generalizing texts with
  | nil =>
      rw [List.mapM_nil]
      cases texts with
      | nil => exact iff_of_true rfl rfl
      | cons _ _ => exact iff_of_false (by rintro ⟨⟩) (by rintro ⟨⟩)
  | cons item items ih =>
      simp only [List.mapM_cons, Option.pure_def, Option.bind_eq_bind, Option.bind_eq_some_iff, ih]
      constructor
      · rintro ⟨t, ht, ts, rfl, heq⟩
        cases heq
        cases item with
        | string s =>
            cases ht
            rfl
        | _ => cases ht
      · intro h
        cases texts with
        | nil => cases h
        | cons t ts =>
            cases h
            exact ⟨t, rfl, ts, rfl, rfl⟩

theorem stringArray_iff {v : Parsed} {name : String} {texts : List (List UInt8)} :
    stringArray (v.member name) = some texts ↔ v.Has name (.array (texts.map .string)) := by
  rw [← member_iff]
  cases v.member name with
  | none => exact iff_of_false (by rintro ⟨⟩) (by rintro ⟨⟩)
  | some value =>
      cases value with
      | array items =>
          rw [Option.some.injEq, Parsed.array.injEq]
          exact mapM_string?_iff
      | _ => exact iff_of_false (by rintro ⟨⟩) (by rintro ⟨⟩)

/-- **A success envelope**, with what it acknowledges. -/
structure Parsed.IsSuccess (v : Parsed) (fields : SuccessFields) : Prop where
  success : v.Has "success" (.bool true)
  data : ∃ data, v.Has "data" data ∧ data.Has "success" (.bool true) ∧
    data.Has "message" (.string fields.message) ∧ data.Has "event_key" (.string fields.eventKey) ∧
    data.Has "validated_properties" (.array (fields.validatedProperties.map .string))
  message_ne : fields.message ≠ []
  eventKey_ne : fields.eventKey ≠ []

/-- **An error envelope**, with its message and its code: a code is a string where there is one. -/
structure Parsed.IsError (v : Parsed) (message : List UInt8) (code : Option (List UInt8)) : Prop where
  success : v.Has "success" (.bool false)
  error : v.Has "error" (.string message)
  message_ne : message ≠ []
  code : ((∀ value, ¬ v.Has "code" value) ∧ code = none) ∨ ∃ text, v.Has "code" (.string text) ∧ code = some text

/-- **What is taken of a body is what its success envelope has.** -/
theorem successFields_iff {v : Parsed} {fields : SuccessFields} :
    successFields v = some fields ↔ v.IsSuccess fields := by
  unfold successFields
  simp only [Option.bind_eq_bind, Option.bind_eq_some_iff]
  constructor
  · rintro ⟨data, hdata, message, hmessage, eventKey, heventKey, properties, hproperties, hfields⟩
    split at hfields
    · next hsuccess =>
        cases hfields
        rw [Bool.and_eq_true, isBool_iff, isBool_iff] at hsuccess
        rw [nonemptyString_iff] at hmessage heventKey
        exact ⟨hsuccess.1, ⟨data, member_iff.mp hdata, hsuccess.2, hmessage.1, heventKey.1,
          stringArray_iff.mp hproperties⟩, hmessage.2, heventKey.2⟩
    · cases hfields
  · rintro ⟨hsuccess, ⟨data, hdata, hinner, hmessage, heventKey, hproperties⟩, hmessageNe, heventKeyNe⟩
    refine ⟨data, member_iff.mpr hdata, fields.message, nonemptyString_iff.mpr ⟨hmessage, hmessageNe⟩,
      fields.eventKey, nonemptyString_iff.mpr ⟨heventKey, heventKeyNe⟩, fields.validatedProperties,
      stringArray_iff.mpr hproperties, ?_⟩
    rw [isBool_iff.mpr hsuccess, isBool_iff.mpr hinner]
    rfl

/-- **What is taken of a body is what its error envelope has.** -/
theorem errorFields_iff {v : Parsed} {message : List UInt8} {code : Option (List UInt8)} :
    errorFields v = some (message, code) ↔ v.IsError message code := by
  unfold errorFields
  constructor
  · intro h
    split at h
    · next hsuccess =>
        split at h
        · cases h
        · next error herror =>
            rw [nonemptyString_iff] at herror
            split at h
            · next hcode =>
                cases h
                refine ⟨isBool_iff.mp hsuccess, herror.1, herror.2, .inl ⟨?_, rfl⟩⟩
                intro value hvalue
                rw [← member_iff, hcode] at hvalue
                cases hvalue
            · next text hcode =>
                cases h
                exact ⟨isBool_iff.mp hsuccess, herror.1, herror.2, .inr ⟨text, member_iff.mp hcode, rfl⟩⟩
            · cases h
    · cases h
  · rintro ⟨hsuccess, herror, hmessage, hcode⟩
    rw [isBool_iff.mpr hsuccess, if_pos rfl, nonemptyString_iff.mpr ⟨herror, hmessage⟩]
    simp only
    rcases hcode with ⟨hnone, rfl⟩ | ⟨text, htext, rfl⟩
    · have hmember : v.member "code" = none := by
        rw [Option.eq_none_iff_forall_ne_some]
        intro value hvalue
        exact hnone value (member_iff.mp hvalue)
      rw [hmember]
    · rw [member_iff.mpr htext]

/-! ## §2. What a response demands. -/

/-- A response, as far as its outcome depends on it: `reason` is trimmed, and `whole` says that the body
    was read to its end. -/
structure Answered where
  status : Nat
  reason : List UInt8
  body : List UInt8
  whole : Bool

/-- An outcome, apart from what is reported of every response. -/
inductive Outcome where
  | acknowledged (fields : SuccessFields)
  | undecodable
  | authentication (message : List UInt8) (code : Option (List UInt8))
  | eventDefinitionNotFound (message : List UInt8) (code : Option (List UInt8))
  | api (message : List UInt8) (code : Option (List UInt8))

section Demands

variable (parse : List UInt8 → Option Parsed)

/-- The whole body is a success envelope. -/
def Answered.Acknowledges (a : Answered) (fields : SuccessFields) : Prop :=
  a.whole = true ∧ ∃ v, parse a.body = some v ∧ v.IsSuccess fields

/-- The message and the code of an error: those of the error envelope, else the reason phrase, else the
    text that stands for the status. -/
inductive Answered.Explains (a : Answered) : List UInt8 → Option (List UInt8) → Prop where
  | envelope {v : Parsed} {message : List UInt8} {code : Option (List UInt8)}
      (hparse : parse a.body = some v) (herror : v.IsError message code) : Explains a message code
  | reason (hnone : ∀ v message code, parse a.body = some v → ¬ v.IsError message code)
      (hreason : a.reason ≠ []) : Explains a a.reason none
  | status (hnone : ∀ v message code, parse a.body = some v → ¬ v.IsError message code)
      (hreason : a.reason = []) {text : List Char} (htext : StatusText a.status text) :
      Explains a (utf8 text) none

/-- **The outcome that a response demands.** -/
inductive Demands (a : Answered) : Outcome → Prop where
  | acknowledged {fields : SuccessFields} (h200 : a.status = 200) (h : a.Acknowledges parse fields) :
      Demands a (.acknowledged fields)
  | undecodable (h200 : a.status = 200) (h : ∀ fields, ¬ a.Acknowledges parse fields) :
      Demands a .undecodable
  | authentication {message : List UInt8} {code : Option (List UInt8)} (h401 : a.status = 401)
      (h : a.Explains parse message code) : Demands a (.authentication message code)
  | eventDefinitionNotFound {message : List UInt8} {code : Option (List UInt8)} (h404 : a.status = 404)
      (h : a.Explains parse message code) : Demands a (.eventDefinitionNotFound message code)
  | api {message : List UInt8} {code : Option (List UInt8)}
      (hstatus : a.status ≠ 200 ∧ a.status ≠ 401 ∧ a.status ≠ 404)
      (h : a.Explains parse message code) : Demands a (.api message code)

end Demands

section Outcomes

variable {parse : List UInt8 → Option Parsed} {a : Answered}

/-- What an implementation takes of the body of an error, with a fallback of its own, explains it. -/
theorem explains_getD {fallback : List UInt8}
    (hreason : a.reason ≠ [] → fallback = a.reason)
    (hstatus : a.reason = [] → fallback = utf8 (statusText a.status)) :
    a.Explains parse (((parse a.body).bind errorFields).getD (fallback, none)).1
      (((parse a.body).bind errorFields).getD (fallback, none)).2 := by
  cases henvelope : (parse a.body).bind errorFields with
  | some fields =>
      obtain ⟨v, hparse, hfields⟩ := Option.bind_eq_some_iff.mp henvelope
      exact .envelope hparse (errorFields_iff.mp hfields)
  | none =>
      have hnone : ∀ v message code, parse a.body = some v → ¬ v.IsError message code := by
        intro v message code hparse herror
        rw [hparse, Option.bind_some, errorFields_iff.mpr herror] at henvelope
        cases henvelope
      show a.Explains parse fallback none
      by_cases hnil : a.reason = []
      · rw [hstatus hnil]
        exact .status hnone hnil (statusText_spec a.status)
      · rw [hreason hnil]
        exact .reason hnone hnil

/-- A body of which nothing is taken acknowledges nothing. -/
theorem not_acknowledges (h : a.whole = true → (parse a.body).bind successFields = none)
    (fields : SuccessFields) : ¬ a.Acknowledges parse fields := by
  rintro ⟨hwhole, v, hparse, hsuccess⟩
  have hnone := h hwhole
  rw [hparse, Option.bind_some, successFields_iff.mpr hsuccess] at hnone
  cases hnone

end Outcomes

end CekatEvents.Http
