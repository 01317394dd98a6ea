/-
  CekatEvents.Node.Event — what `buildPayload` makes of an event.

  In any realm whose dates, strings and clocks answer alike in every state, an event is known by the
  values that its fields are read as.  `ValidFields` says when these are the fields of a valid event;
  then the payload is `sentPayload`, with the properties that the copier makes of theirs, and otherwise
  an error is thrown.
-/
import CekatEvents.Node.Heap

namespace CekatEvents.Node

open CekatEvents.Effects CekatEvents.Encoding CekatEvents.JsonText

/-! ## §1. Valid events. -/

/-- The fields of an event. -/
def fieldNames : List String := "occurredAt" :: "properties" :: stringFields

section Fields

variable {ι σ : Type}

/-- Reading a field of the event gives its value and changes nothing. -/
def ReadsFields (R : Realm ι σ) (s : σ) (event : ι) (fields : String → Unknown ι) : Prop :=
  ∀ name ∈ fieldNames, field R event name s = .ok (fields name) s

/-- A string, or nothing. -/
def Unknown.isText (value : Unknown ι) : Bool := value.isUndefined || value.isString

/-- The year of a value, if it is a date. -/
def BuiltIns.yearOf (b : BuiltIns ι) (value : Unknown ι) : Except (Raised ι) (Option Int) :=
  if b.instanceofDate value then b.getUTCFullYear value else .ok none

/-- The value is a date of a year that can be written. -/
def HasYear (b : BuiltIns ι) (value : Unknown ι) : Prop :=
  ∃ y, b.yearOf value = .ok (some y) ∧ 1 ≤ y ∧ y ≤ 9999

/-- The fields, the properties apart, are those of a valid event. -/
structure ValidFields (b : BuiltIns ι) (fields : String → Unknown ι) : Prop where
  strings : ∀ name ∈ stringFields, (fields name).isText = true
  year : (fields "occurredAt").isUndefined = true ∨ HasYear b (fields "occurredAt")
  identity : (fields "email").isNonblankString = true ∨ (fields "phoneNumber").isNonblankString = true
  time : (fields "occurredAt").isNullish = true ∨ ∃ iso, b.toISOString (fields "occurredAt") = .ok iso

end Fields

/-! ## §2. Payloads. -/

section Payloads

variable {ι : Type}

/-- A string without the blanks around it, where anything is left. -/
def normalized : Unknown ι → Unknown ι
  | .string s => if trimUnits s = [] then .undefined else .string (trimUnits s)
  | _ => .undefined

/-- A value, or another one where it is nothing. -/
def Unknown.orElse (first second : Unknown ι) : Unknown ι :=
  if first.isNullish then second else first

/-- A value that is sent where there is one. -/
def Unknown.given (value : Unknown ι) : Option (Unknown ι) :=
  if value.isUndefined then none else some value

/-- The time that is sent. -/
def timeOf (b : BuiltIns ι) (occurredAt : Unknown ι) : Unknown ι :=
  if occurredAt.isNullish then .string b.now
  else
    match b.toISOString occurredAt with
    | .ok iso => iso
    | .error _ => .undefined

/-- **The payload of a valid event.** -/
def sentPayload (b : BuiltIns ι) (eventKey : Unknown ι) (isCommon : Bool)
    (fields : String → Unknown ι) (ambient : Unknown ι)
    (properties : Option (Value Arithmetic.Finite)) : WirePayload ι where
  eventKey := eventKey
  eventId := (normalized (fields "eventId")).orElse (.string b.newEventId)
  occurredAt := timeOf b (fields "occurredAt")
  isCommon := isCommon
  email := (fields "email").given
  phoneNumber := (fields "phoneNumber").given
  contactName := (fields "contactName").given
  visitorId := ((normalized (fields "visitorId")).orElse (normalized ambient)).given
  properties := properties

/-- The fields of a literal. -/
def literalFields (entries : List (Key × Unknown ι)) (name : String) : Unknown ι :=
  (getKey entries (.string (units name))).getD .undefined

end Payloads

/-- `Object.prototype` is there and lends events no field. -/
structure Heap.Pristine (h : Heap) : Prop where
  rooted : objectPrototype.index < h.next
  last : (h.objects objectPrototype).prototype = none
  fields : ∀ name ∈ fieldNames, (h.objects objectPrototype).getOwn (.string (units name)) = none

theorem readsFields_literal (env : Environment) {h : Heap} {event : Address}
    {entries : List (Key × Unknown Address)} (hobject : h.objects event = literal entries)
    (hnodup : (entries.map Prod.fst).Nodup) (hpristine : h.Pristine) :
    ReadsFields (heapRealm env) h event (literalFields entries) := by
  intro name hname
  have hown := literal_getOwn hnodup (.string (units name))
  rw [← hobject] at hown
  have hlookup : h.lookup (.string (units name)) (h.next + 1) event
      = (getKey entries (.string (units name))).map fun v => .data v true := by
    rw [Heap.lookup, hown]
    cases getKey entries (.string (units name)) with
    | some v => rfl
    | none =>
        rw [hobject]
        show h.lookup (.string (units name)) h.next objectPrototype = none
        cases h.next with
        | zero => rfl
        | succ n =>
            rw [Heap.lookup, hpristine.fields name hname]
            simp only [hpristine.last]
  show env.valueOf event (h.lookup (.string (units name)) (h.next + 1) event) h = _
  unfold literalFields
  rw [hlookup]
  cases getKey entries (.string (units name)) with
  | some v => rfl
  | none => rfl

/-! ## §3. The checks. -/

section Checks

variable {ι σ : Type} {R : Realm ι σ} {b : BuiltIns ι} {s : σ} {event : ι}
  {fields : String → Unknown ι}

theorem refuse_fails {α : Type} (message : Str) :
    ∃ e t, (refuse message : JS ι σ α) s = .error e t :=
  ⟨_, s, rfl⟩

theorem requireString_checks {name : String} {value : Unknown ι}
    (hread : field R event name s = .ok value s) :
    Checks (requireString R event name) s (value.isText = true) () := by
  unfold requireString Unknown.isText
  apply Checks.look hread
  cases value.isUndefined with
  | true => exact (Checks.of_ok (a := ()) rfl).congr (by simp)
  | false =>
      apply Checks.look hread
      cases value.isString with
      | true => exact (Checks.of_ok (a := ()) rfl).congr (by simp)
      | false => exact (Checks.of_error (a := ()) rfl).congr (by simp)

theorem yearOf_answers (hR : R.Answers b) {value : Unknown ι}
    (hread : field R event "occurredAt" s = .ok value s) :
    yearOf R event s = answers (b.yearOf value) s := by
  have hdate : R.instanceofDate value s = .ok (b.instanceofDate value) s := by
    rw [hR.instanceofDate]
    rfl
  unfold yearOf BuiltIns.yearOf
  rw [bind_of_ok hread, bind_of_ok hdate]
  cases b.instanceofDate value with
  | true =>
      rw [if_pos rfl, if_pos rfl, bind_of_ok hread, hR.getUTCFullYear]
  | false => rfl

theorem requireTime_checks (hR : R.Answers b) {value : Unknown ι}
    (hread : field R event "occurredAt" s = .ok value s) :
    Checks (requireTime R event) s (value.isUndefined = true ∨ HasYear b value) () := by
  unfold requireTime
  apply Checks.look hread
  cases value.isUndefined with
  | true => exact (Checks.of_ok (a := ()) rfl).congr (by simp)
  | false =>
      have hyear := yearOf_answers hR hread
      rw [if_neg Bool.false_ne_true]
      have hfalse : HasYear b value ↔ (false = true ∨ HasYear b value) := by simp
      refine Checks.congr ?_ hfalse
      unfold HasYear
      cases hvalue : b.yearOf value with
      | error e =>
          rw [hvalue] at hyear
          exact (Checks.of_error (bind_of_error hyear)).congr (by simp)
      | ok year =>
          rw [hvalue] at hyear
          apply Checks.look hyear
          have hpass : (year.any fun y => decide (1 ≤ y) && decide (y ≤ 9999)) = true ∧ True ↔
              ∃ y, (Except.ok year : Except (Raised ι) _) = .ok (some y) ∧ 1 ≤ y ∧ y ≤ 9999 := by
            cases year <;> simp
          exact (Checks.guard (fun _ => Checks.of_ok rfl) fun _ => refuse_fails _).congr hpass

/-- A field that is a string or nothing is lacking where it is blank. -/
theorem lacks_reads {name : String} {value : Unknown ι} (htext : value.isText = true)
    (hread : field R event name s = .ok value s) :
    lacks R event name s = .ok (!value.isNonblankString) s := by
  unfold lacks
  rw [bind_of_ok hread]
  cases value with
  | undefined =>
      rw [bind_of_ok (show optionalTrim R .undefined s = .ok .undefined s from rfl)]
      show (field R event name >>= _) s = _
      rw [bind_of_ok hread]
      rfl
  | string text =>
      rw [bind_of_ok (show optionalTrim R (.string text) s = .ok (.string (trimUnits text)) s from rfl)]
      cases htrim : trimUnits text with
      | nil =>
          show EStateM.Result.ok true s = .ok (!(!decide (trimUnits text = []))) s
          rw [htrim]
          rfl
      | cons u us =>
          show (field R event name >>= _) s = .ok (!(!decide (trimUnits text = []))) s
          rw [bind_of_ok hread, htrim]
          rfl
  | _ => cases htext

theorem requireIdentity_checks {email phoneNumber : Unknown ι} (hemail : email.isText = true)
    (hphoneNumber : phoneNumber.isText = true)
    (hreadEmail : field R event "email" s = .ok email s)
    (hreadPhoneNumber : field R event "phoneNumber" s = .ok phoneNumber s) :
    Checks (requireIdentity R event) s
      (email.isNonblankString = true ∨ phoneNumber.isNonblankString = true) () := by
  unfold requireIdentity
  apply Checks.look (lacks_reads hemail hreadEmail)
  cases email.isNonblankString with
  | true => exact (Checks.of_ok (a := ()) rfl).congr (by simp)
  | false =>
      apply Checks.look (lacks_reads hphoneNumber hreadPhoneNumber)
      cases phoneNumber.isNonblankString with
      | true => exact (Checks.of_ok (a := ()) rfl).congr (by simp)
      | false => exact (Checks.of_error (a := ()) rfl).congr (by simp)

/-- The checks that are made before anything is sent. -/
theorem validateEvent_checks (hR : R.Answers b) {eventKey : Unknown ι}
    (hreads : ReadsFields R s event fields) :
    Checks (validateEvent R eventKey (.object event)) s
      (eventKey.isNonblankString = true ∧ R.callable event = false ∧
        (∀ name ∈ stringFields, (fields name).isText = true) ∧
        ((fields "occurredAt").isUndefined = true ∨ HasYear b (fields "occurredAt")) ∧
        ((fields "email").isNonblankString = true ∨ (fields "phoneNumber").isNonblankString = true))
      event := by
  have hstring : ∀ name ∈ stringFields, field R event name s = .ok (fields name) s :=
    fun name hname => hreads name (List.mem_cons_of_mem _ (List.mem_cons_of_mem _ hname))
  have hemail : "email" ∈ stringFields := by decide
  have hphoneNumber : "phoneNumber" ∈ stringFields := by decide
  unfold validateEvent
  refine Checks.guard (fun _ => ?_) fun _ => refuse_fails _
  cases hcallable : R.callable event with
  | true =>
      simp only [hcallable, if_true]
      exact (Checks.of_error (a := event) rfl).congr (by simp)
  | false =>
      simp only [hcallable, Bool.false_eq_true, if_false]
      have htime := requireTime_checks hR (hreads "occurredAt" List.mem_cons_self)
      have hstrings : Checks (stringFields.forM (requireString R event)) s
          (∀ name ∈ stringFields, (fields name).isText = true) PUnit.unit :=
        Checks.forM fun name hname => requireString_checks (hstring name hname)
      have hidentity : (∀ name ∈ stringFields, (fields name).isText = true) →
          Checks (requireIdentity R event) s
            ((fields "email").isNonblankString = true ∨
              (fields "phoneNumber").isNonblankString = true) () := fun htext =>
        requireIdentity_checks (htext "email" hemail) (htext "phoneNumber" hphoneNumber)
          (hstring "email" hemail) (hstring "phoneNumber" hphoneNumber)
      refine Checks.congr (hstrings.bind fun htext => htime.bind fun _ => (hidentity htext).bind
        fun _ => Checks.of_ok rfl) ?_
      simp

end Checks

/-! ## §4. The payload. -/

section Payload

variable {ι σ : Type} {R : Realm ι σ} {b : BuiltIns ι} {s : σ} {event : ι}
  {fields : String → Unknown ι}

theorem normalizeVisitorId_text {value : Unknown ι} (htext : value.isText = true) :
    normalizeVisitorId R value s = .ok (normalized value) s := by
  cases value with
  | undefined => rfl
  | string text =>
      show EStateM.Result.ok _ s = .ok (if trimUnits text = [] then _ else _) s
      cases trimUnits text with
      | nil => rfl
      | cons u us => rfl
  | _ => cases htext

theorem nullish_of_ok {first second : Unknown ι} {code : JS ι σ (Unknown ι)}
    (hcode : code s = .ok second s) : nullish first code s = .ok (first.orElse second) s := by
  unfold nullish Unknown.orElse
  cases first.isNullish with
  | true => exact hcode
  | false => rfl

theorem sentField_reads {name : String} {value : Unknown ι}
    (hread : field R event name s = .ok value s) :
    sentField R event name s = .ok value.given s := by
  unfold sentField Unknown.given
  rw [bind_of_ok hread]
  cases value.isUndefined with
  | true => rfl
  | false =>
      rw [if_neg Bool.false_ne_true, bind_of_ok hread]
      rfl

/-- The properties are copied where there are some. -/
theorem sentProperties_reads [DecidableEq ι] (frames : Nat) {value : Unknown ι}
    (hread : field R event "properties" s = .ok value s) :
    sentProperties R frames event s
      = if value.isUndefined then .ok none s
        else ((fun copied => some copied.1) <$>
          copyJsonValue R frames [] value (units "properties")) s := by
  unfold sentProperties
  rw [bind_of_ok hread]
  cases value.isUndefined with
  | true => rfl
  | false =>
      rw [if_neg Bool.false_ne_true, bind_of_ok hread]
      rfl

theorem newEventId_answers (hR : R.Answers b) :
    ((Unknown.string <$> R.newEventId) : JS ι σ (Unknown ι)) s = .ok (.string b.newEventId) s := by
  rw [hR.newEventId]
  rfl

theorem sentTime_checks (hR : R.Answers b) (occurredAt : Unknown ι) :
    Checks (sentTime R occurredAt) s
      (occurredAt.isNullish = true ∨ ∃ iso, b.toISOString occurredAt = .ok iso)
      (timeOf b occurredAt) := by
  unfold sentTime timeOf
  rw [hR.now, hR.toISOString]
  cases occurredAt.isNullish with
  | true => exact (Checks.of_ok (a := Unknown.string b.now) rfl).congr (by simp)
  | false =>
      show Checks (answers (b.toISOString occurredAt)) s _ (match b.toISOString occurredAt with
        | .ok iso => iso
        | .error _ => .undefined)
      cases b.toISOString occurredAt with
      | ok iso => exact (Checks.of_ok (a := iso) rfl).congr (by simp)
      | error e =>
          exact (Checks.of_error (a := Unknown.undefined) (e := e) (t := s) rfl).congr (by simp)

variable [DecidableEq ι]

/-- **What is sent of an event**, as far as its time can be written and its properties copied. -/
theorem payloadOf_reads (hR : R.Answers b) {frames : Nat} {eventKey ambient : Unknown ι}
    {isCommon : Bool} (hreads : ReadsFields R s event fields)
    (htext : ∀ name ∈ stringFields, (fields name).isText = true) (hambient : ambient.isText = true) :
    payloadOf R frames eventKey isCommon event ambient s
      = (sentTime R (fields "occurredAt") >>= fun time =>
          (fun properties => { sentPayload b eventKey isCommon fields ambient properties with
            occurredAt := time }) <$> sentProperties R frames event) s := by
  have hstring : ∀ name ∈ stringFields, field R event name s = .ok (fields name) s :=
    fun name hname => hreads name (List.mem_cons_of_mem _ (List.mem_cons_of_mem _ hname))
  have hvisitorId : normalizeVisitorId R (fields "visitorId") s = _ :=
    normalizeVisitorId_text (htext "visitorId" (by decide))
  have heventId : normalizeVisitorId R (fields "eventId") s = _ :=
    normalizeVisitorId_text (htext "eventId" (by decide))
  unfold payloadOf
  rw [bind_of_ok (hstring "visitorId" (by decide)), bind_of_ok hvisitorId,
    bind_of_ok (nullish_of_ok (normalizeVisitorId_text hambient)),
    bind_of_ok (hstring "eventId" (by decide)), bind_of_ok heventId,
    bind_of_ok (nullish_of_ok (newEventId_answers hR)),
    bind_of_ok (hreads "occurredAt" List.mem_cons_self)]
  have hchecks : Checks (sentTime R (fields "occurredAt")) s _ _ :=
    sentTime_checks hR (fields "occurredAt")
  by_cases htime : (fields "occurredAt").isNullish = true ∨
      ∃ iso, b.toISOString (fields "occurredAt") = .ok iso
  · have hsent := hchecks.passes htime
    rw [bind_of_ok hsent, bind_of_ok hsent,
      bind_of_ok (sentField_reads (hstring "email" (by decide))),
      bind_of_ok (sentField_reads (hstring "phoneNumber" (by decide))),
      bind_of_ok (sentField_reads (hstring "contactName" (by decide)))]
    rfl
  · obtain ⟨e, t, hfails⟩ := hchecks.fails htime
    rw [bind_of_error hfails, bind_of_error hfails]

/-- **The payload of a valid event** is `sentPayload`, as far as the properties can be copied. -/
theorem buildPayload_valid (hR : R.Answers b) {frames : Nat} {eventKey ambient : Unknown ι}
    {isCommon : Bool} (hkey : eventKey.isNonblankString = true) (hobject : R.callable event = false)
    (hreads : ReadsFields R s event fields) (hvalid : ValidFields b fields)
    (hambient : ambient.isText = true) :
    buildPayload R frames eventKey isCommon (.object event) ambient s
      = (sentPayload b eventKey isCommon fields ambient <$> sentProperties R frames event) s := by
  have hchecks : validateEvent R eventKey (.object event) s = _ :=
    (validateEvent_checks hR hreads).passes
      ⟨hkey, hobject, hvalid.strings, hvalid.year, hvalid.identity⟩
  have htime : sentTime R (fields "occurredAt") s = _ :=
    (sentTime_checks hR (fields "occurredAt")).passes hvalid.time
  unfold buildPayload
  rw [bind_of_ok hchecks, payloadOf_reads hR hreads hvalid.strings hambient, bind_of_ok htime]
  rfl

/-- An event that is sent is valid. -/
theorem validFields_of_buildPayload (hR : R.Answers b) {frames : Nat} {eventKey ambient : Unknown ι}
    {isCommon : Bool} (hreads : ReadsFields R s event fields) (hambient : ambient.isText = true)
    {payload : WirePayload ι} {t : σ}
    (hsent : buildPayload R frames eventKey isCommon (.object event) ambient s = .ok payload t) :
    ValidFields b fields := by
  obtain ⟨o, u, hvalidate, hpayload⟩ := stateful_bind_ok_iff.mp hsent
  obtain ⟨⟨-, -, hstrings, hyear, hidentity⟩, rfl, rfl⟩ :=
    (validateEvent_checks hR hreads).ok_iff.mp hvalidate
  rw [payloadOf_reads hR hreads hstrings hambient] at hpayload
  obtain ⟨time, v, htime, -⟩ := stateful_bind_ok_iff.mp hpayload
  exact ⟨hstrings, hyear, hidentity, ((sentTime_checks hR _).ok_iff.mp htime).1⟩

end Payload

end CekatEvents.Node
