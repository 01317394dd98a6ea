/-
  CekatEvents.Node.Outcomes — the properties that `buildPayload` sends.

  Properties are to be a string-keyed object.  The copier that makes the JSON of the values inside
  makes that of the properties, too, and so lets everything through that is JSON: an array, a string,
  a number, a Boolean or `null` is sent as it is.  Nothing bounds the depth of properties, either: the stack
  does.

  Main result: `properties_behave_iff` — properties are sent or refused as they are to be, exactly where
  they are no such value and the stack holds.
-/
import CekatEvents.Node.Event
import CekatEvents.Node.Mirror

namespace CekatEvents.Node

open CekatEvents.Arithmetic CekatEvents.Effects CekatEvents.Encoding CekatEvents.JsonText
  CekatEvents.Payload

/-! ## §1. What is asked of properties. -/

/-- What `buildPayload` is called with, the properties apart, is valid. -/
structure OtherwiseValid (env : Environment) (h : Heap) (eventKey : Unknown Address) (event : Address)
    (ambient : Unknown Address) (fields : String → Unknown Address) : Prop where
  key : eventKey.isNonblankString = true
  object : event.callable = false
  reads : ReadsFields (heapRealm env) h event fields
  valid : ValidFields env.toBuiltIns fields
  ambient : ambient.isText = true

/-- **Properties are sent as an object that is read as the caller's, or refused by a
    `ValidationError`**; the caller's objects stay as they are, a cycle is refused, and an object that is
    JSON is not, however much of it is shared. -/
structure PropertiesBehave (env : Environment) (floats : FloatText) (frames : Nat) (h : Heap)
    (eventKey : Unknown Address) (isCommon : Bool) (event : Address) (ambient : Unknown Address)
    (properties : Unknown Address) : Prop where
  refused : ∀ e t, buildPayload (heapRealm env) frames eventKey isCommon (.object event) ambient h
    = .error e t → (∃ message, e = .validation message) ∧ t = h
  sent : ∀ p t, buildPayload (heapRealm env) frames eventKey isCommon (.object event) ambient h
    = .ok p t → t = h ∧ (p.properties = none → properties = .undefined) ∧
      ∀ w ∈ p.properties, (∃ ms, w = .obj ms) ∧
        ∃ u, DecodesTo (stringify floats.text w) u ∧ Mirrors h ReadsAs u properties
  cyclic : Cyclic h properties →
    ∃ e t, buildPayload (heapRealm env) frames eventKey isCommon (.object event) ambient h = .error e t
  shared : ∀ ms, Mirrors h SendsAs (.obj ms) properties →
    ∃ p t, buildPayload (heapRealm env) frames eventKey isCommon (.object event) ambient h = .ok p t

/-! ## §2. The four ways it ends. -/

section Ends

variable {env : Environment} {h : Heap} {eventKey : Unknown Address} {isCommon : Bool}
  {event : Address} {ambient : Unknown Address} {fields : String → Unknown Address} {frames : Nat}

theorem not_cyclic_of_undefined : ¬ Cyclic h .undefined := by
  intro hcyclic
  obtain ⟨o, hreach, -⟩ := hcyclic
  rcases Relation.ReflTransGen.cases_head hreach with heq | ⟨v, hchild, -⟩
  · cases heq
  · obtain ⟨o', key, heq, -⟩ := hchild
    cases heq

/-- Without properties the event is sent. -/
theorem buildPayload_undefined (hevent : OtherwiseValid env h eventKey event ambient fields)
    (hvalue : fields "properties" = .undefined) :
    buildPayload (heapRealm env) frames eventKey isCommon (.object event) ambient h
      = .ok (sentPayload env.toBuiltIns eventKey isCommon fields ambient none) h := by
  have hproperties := sentProperties_reads frames (hevent.reads "properties" (by decide))
  rw [hvalue] at hproperties
  rw [buildPayload_valid (heapRealm_answers env) hevent.key hevent.object hevent.reads hevent.valid hevent.ambient]
  exact map_of_ok hproperties

/-- Properties that are JSON are sent as they are. -/
theorem buildPayload_mirrored (hevent : OtherwiseValid env h eventKey event ambient fields)
    (hroom : ¬ Overflows h frames (fields "properties"))
    {w : Value Finite} (hmirrors : Mirrors h SendsAs w (fields "properties")) :
    buildPayload (heapRealm env) frames eventKey isCommon (.object event) ambient h
      = .ok (sentPayload env.toBuiltIns eventKey isCommon fields ambient (some w)) h := by
  have hproperties := sentProperties_reads frames (hevent.reads "properties" (by decide))
  rw [defined_of_mirrors hmirrors, if_neg Bool.false_ne_true,
    map_of_ok (copyJsonValue_copies hroom hmirrors)] at hproperties
  rw [buildPayload_valid (heapRealm_answers env) hevent.key hevent.object hevent.reads hevent.valid hevent.ambient]
  exact map_of_ok hproperties

/-- Other properties are refused. -/
theorem buildPayload_refused (hevent : OtherwiseValid env h eventKey event ambient fields)
    (hroom : ¬ Overflows h frames (fields "properties"))
    (hdefined : fields "properties" ≠ .undefined)
    (hnone : ∀ w, ¬ Mirrors h SendsAs w (fields "properties")) :
    ∃ message, buildPayload (heapRealm env) frames eventKey isCommon (.object event) ambient h
      = .error (.validation message) h := by
  have hproperties := sentProperties_reads frames (hevent.reads "properties" (by decide))
  have hfalse : (fields "properties").isUndefined = false := by
    apply Bool.eq_false_iff.mpr
    intro htrue
    exact hdefined (Unknown.eq_undefined htrue)
  obtain ⟨message, hrefused⟩ : ∃ message, copyJsonValue (heapRealm env) frames [] _ _ h = _ :=
    copyJsonValue_refuses hroom hnone
  rw [hfalse, if_neg Bool.false_ne_true, map_of_error hrefused] at hproperties
  rw [buildPayload_valid (heapRealm_answers env) hevent.key hevent.object hevent.reads hevent.valid hevent.ambient]
  exact ⟨message, map_of_error hproperties⟩

/-- Properties that are too deep for the stack end the call with its error. -/
theorem buildPayload_overflows (hevent : OtherwiseValid env h eventKey event ambient fields)
    (hdefined : fields "properties" ≠ .undefined) (hover : Overflows h frames (fields "properties")) :
    buildPayload (heapRealm env) frames eventKey isCommon (.object event) ambient h
      = .error .rangeError h := by
  have hproperties := sentProperties_reads frames (hevent.reads "properties" (by decide))
  have hfalse : (fields "properties").isUndefined = false := by
    apply Bool.eq_false_iff.mpr
    intro htrue
    exact hdefined (Unknown.eq_undefined htrue)
  rw [hfalse, if_neg Bool.false_ne_true, map_of_error (copyJsonValue_overflows hover)] at hproperties
  rw [buildPayload_valid (heapRealm_answers env) hevent.key hevent.object hevent.reads hevent.valid hevent.ambient]
  exact map_of_error hproperties

end Ends

/-! ## §3. Where properties behave. -/

section Behave

variable {env : Environment} {floats : FloatText} {frames : Nat} {h : Heap}
  {eventKey : Unknown Address} {isCommon : Bool} {event : Address} {ambient properties : Unknown Address}

theorem behave_of_refused {message : Str} (hrefused : buildPayload (heapRealm env) frames eventKey
    isCommon (.object event) ambient h = .error (.validation message) h)
    (hnone : ∀ w, ¬ Mirrors h SendsAs w properties) :
    PropertiesBehave env floats frames h eventKey isCommon event ambient properties where
  refused e t herror := by
    rw [hrefused] at herror
    cases herror
    exact ⟨⟨message, rfl⟩, rfl⟩
  sent p t hok := by
    rw [hrefused] at hok
    cases hok
  cyclic _ := ⟨_, _, hrefused⟩
  shared ms hms := absurd hms (hnone _)

theorem behave_of_sent {p : WirePayload Address} (hsent : buildPayload (heapRealm env) frames eventKey
    isCommon (.object event) ambient h = .ok p h) (hacyclic : ¬ Cyclic h properties)
    (hdefined : p.properties = none → properties = .undefined)
    (hobject : ∀ w ∈ p.properties, (∃ ms, w = .obj ms) ∧
      ∃ u, DecodesTo (stringify floats.text w) u ∧ Mirrors h ReadsAs u properties) :
    PropertiesBehave env floats frames h eventKey isCommon event ambient properties where
  refused e t herror := by
    rw [hsent] at herror
    cases herror
  sent p' t hok := by
    rw [hsent] at hok
    cases hok
    exact ⟨rfl, hdefined, hobject⟩
  cyclic hcyclic := absurd hcyclic hacyclic
  shared ms _ := ⟨_, _, hsent⟩

end Behave

/-- **Properties behave exactly where they are left out, or the stack holds them and they are an object that is
    no array, or no JSON.** -/
theorem properties_behave_iff (env : Environment) {floats : FloatText} (hfloats : floats.ReadsBack)
    (h : Heap) (frames : Nat) {eventKey : Unknown Address} (isCommon : Bool) {event : Address}
    {ambient : Unknown Address} {fields : String → Unknown Address}
    (hevent : OtherwiseValid env h eventKey event ambient fields) :
    PropertiesBehave env floats frames h eventKey isCommon event ambient (fields "properties") ↔
      fields "properties" = .undefined ∨
        ¬ Overflows h frames (fields "properties") ∧
          ((∃ o, fields "properties" = .object o ∧ (h.objects o).length = none) ∨
            ∀ w, ¬ Mirrors h SendsAs w (fields "properties")) := by
  by_cases hundefined : fields "properties" = .undefined
  · apply iff_of_true _ (.inl hundefined)
    apply behave_of_sent (buildPayload_undefined hevent hundefined)
    · rw [hundefined]
      exact not_cyclic_of_undefined
    · exact fun _ => hundefined
    · intro w hw
      cases hw
  rw [or_iff_right hundefined]
  by_cases hroom : Overflows h frames (fields "properties")
  · -- a `RangeError` is no `ValidationError`
    apply iff_of_false _ fun hwhen => hwhen.1 hroom
    intro hbehave
    obtain ⟨⟨message, hmessage⟩, -⟩ :=
      hbehave.refused _ _ (buildPayload_overflows hevent hundefined hroom)
    cases hmessage
  rw [and_iff_right hroom]
  by_cases hjson : ∃ w, Mirrors h SendsAs w (fields "properties")
  · obtain ⟨w, hmirrors⟩ := hjson
    have hsent : buildPayload (heapRealm env) frames eventKey isCommon (.object event) ambient h = _ :=
      buildPayload_mirrored hevent hroom hmirrors
    constructor
    · intro hbehave
      obtain ⟨-, -, hobject⟩ := hbehave.sent _ _ hsent
      obtain ⟨⟨ms, rfl⟩, -⟩ := hobject w rfl
      exact .inl (length_of_mirrors_obj hmirrors)
    · intro hwhen
      obtain ⟨o, hvalue, hlength⟩ : ∃ o, fields "properties" = .object o ∧
          (h.objects o).length = none := by
        rcases hwhen with hobject | hnone
        · exact hobject
        · exact absurd hmirrors (hnone w)
      have hobject : ∃ ms, w = .obj ms := obj_of_mirrors (hvalue ▸ hmirrors) hlength
      apply behave_of_sent hsent (mirrors_acyclic hmirrors)
      · intro hnothing
        cases hnothing
      · intro w' hw'
        cases hw'
        exact ⟨hobject, stringify_mirrors hfloats hmirrors⟩
  · have hnone : ∀ w, ¬ Mirrors h SendsAs w (fields "properties") := fun w hw => hjson ⟨w, hw⟩
    obtain ⟨message, hrefused⟩ : ∃ message, buildPayload (heapRealm env) frames eventKey isCommon
        (.object event) ambient h = .error (.validation message) h :=
      buildPayload_refused hevent hroom hundefined hnone
    exact iff_of_true (behave_of_refused hrefused hnone) (.inr hnone)

/-! ## §4. Two events. -/

/-- An environment without getters and dates. -/
def quietEnvironment : Environment where
  callGetter _ _ := throw (.thrown .undefined)
  trim _ := .error (.thrown .undefined)
  instanceofDate _ := false
  getUTCFullYear _ := .ok none
  toISOString _ := .error (.thrown .undefined)
  now := units "2026-09-13T01:15:30.250Z"
  newEventId := units "generated-event-id"

/-- An object of nothing. -/
def bareObject : Obj where
  prototype := none
  length := none
  properties := []
  nodup := List.nodup_nil
  length_le := noLength_le

/-- The properties of an event of an email. -/
def emailEvent (properties : Unknown Address) : List (Key × Unknown Address) :=
  [(.string (units "email"), .string (units "a@example.com")), (.string (units "properties"), properties)]

theorem emailEvent_nodup (properties : Unknown Address) :
    ((emailEvent properties).map Prod.fst).Nodup := by
  show [Key.string (units "email"), Key.string (units "properties")].Nodup
  decide

/-- A heap of `Object.prototype`, an event and an object of nothing. -/
def eventHeap (properties : Unknown Address) : Heap where
  objects o := if o.index = 1 then literal (emailEvent properties) else bareObject
  next := 3

theorem eventHeap_valid (properties : Unknown Address) :
    OtherwiseValid quietEnvironment (eventHeap properties) (.string (units "order_viewed")) ⟨1, false⟩
      .undefined (literalFields (emailEvent properties)) where
  key := by decide
  object := rfl
  reads := by
    exact readsFields_literal _ rfl (emailEvent_nodup properties)
      ⟨Nat.zero_lt_succ 2, rfl, fun _ _ => rfl⟩
  valid := by
    refine ⟨?_, .inl rfl, .inl rfl, .inl rfl⟩
    unfold stringFields
    simp only [List.forall_mem_cons]
    exact ⟨rfl, rfl, rfl, rfl, rfl, fun _ h => nomatch h⟩
  ambient := rfl

/-- What is on the heap lies on it where the properties do. -/
theorem eventHeap_below {properties : Unknown Address} (hbelow : properties.Below 3) {o : Address}
    {key : Str} {value : Unknown Address} (hvalue : HasValue (eventHeap properties) o key value) :
    value.Below 3 := by
  have hown : ((eventHeap properties).objects o).getOwn (.string key) = some (.data value true) := hvalue
  by_cases hindex : o.index = 1
  · have hevent : (eventHeap properties).objects o = literal (emailEvent properties) := if_pos hindex
    rw [hevent, literal_getOwn (emailEvent_nodup properties), emailEvent, getKey_cons,
      getKey_cons] at hown
    split_ifs at hown
    · cases hown
      trivial
    · cases hown
      exact hbelow
    · cases hown
  · have hbare : (eventHeap properties).objects o = bareObject := if_neg hindex
    rw [hbare] at hown
    cases hown

theorem eventHeap_closed {properties : Unknown Address} (hbelow : properties.Below 3) :
    (eventHeap properties).Closed := fun _ _ _ _ hvalue => eventHeap_below hbelow hvalue

/-- Properties that are an object behave. -/
theorem record_behaves : PropertiesBehave quietEnvironment exactText 4
    (eventHeap (.object ⟨2, false⟩)) (.string (units "order_viewed")) false ⟨1, false⟩ .undefined
    (.object ⟨2, false⟩) := by
  have hbelow : Unknown.Below 3 (.object ⟨2, false⟩) := Nat.lt_succ_self 2
  exact (properties_behave_iff quietEnvironment exactText_readsBack _ 4 false
    (eventHeap_valid (.object ⟨2, false⟩))).mpr
      (.inr ⟨not_overflows_of_closed (eventHeap_closed hbelow) hbelow (by decide), .inl ⟨_, rfl, rfl⟩⟩)

/-- **Properties that are `null`** are sent as they are. -/
theorem null_is_sent : ¬ PropertiesBehave quietEnvironment exactText 4 (eventHeap .null)
    (.string (units "order_viewed")) false ⟨1, false⟩ .undefined .null := by
  intro hbehave
  have hbelow : Unknown.Below 3 .null := trivial
  have hmirrors : Mirrors (eventHeap .null) SendsAs .null .null := rfl
  have hsent : buildPayload (heapRealm quietEnvironment) 4 (.string (units "order_viewed")) false
      (.object ⟨1, false⟩) .undefined (eventHeap .null) = _ :=
    buildPayload_mirrored (eventHeap_valid .null)
      (not_overflows_of_closed (eventHeap_closed hbelow) hbelow (by decide)) hmirrors
  obtain ⟨-, -, hobject⟩ := hbehave.sent _ _ hsent
  obtain ⟨⟨ms, hms⟩, -⟩ := hobject .null rfl
  cases hms

end CekatEvents.Node
