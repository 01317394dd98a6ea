/-
  CekatEvents.Node.Submission — what `buildPayload` of the Node client makes of a submission, and
  `JSON.stringify` of the payload.

  The event is an object of which each field is read as the value of that field, getters and prototypes
  included; its properties are a value that mirrors those of the submission, on a finite heap.

  Main results:
    * `mirrored_sends` — a mirrored value is copied when its numbers are within the limits, and only then;
    * `Stands.served`  — the payload serves the submission, by validation errors alone.
-/
import CekatEvents.JsonText.Copied
import CekatEvents.Node.Outcomes
import CekatEvents.Payload.Submission

namespace CekatEvents.Node

open CekatEvents.Arithmetic CekatEvents.Effects CekatEvents.Encoding CekatEvents.Graph
  CekatEvents.JsonText CekatEvents.Payload

/-! ## §1. Properties. -/

/-- The double is this number. -/
def IsNumber (x : Double) (q : ℚ) : Prop := ∃ y, x = .finite y ∧ y.value = q

/-- The value mirrors one that every language holds. -/
def MirrorsHeld (h : Heap) (v : Unknown Address) (w : Value ℚ) : Prop := Mirrors h IsNumber w v ∧ Held w

section Properties

variable {h : Heap} {o : Address} {ν : Type} {N : Double → ν → Prop}

/-- The entries of elements that are mirrored. -/
theorem elems_entries {xs : List (Value ν)} {index : Nat} (hmirrors : MirrorsElems h N xs o index) :
    (∀ e ∈ (List.range' index xs.length).map fun i =>
      entryOf (.index i) ((h.objects o).getOwn (.string (indexKey i))), e.Clean) ∧
    List.Forall₂ (fun e x => Mirrors h N x e.item) ((List.range' index xs.length).map fun i =>
      entryOf (.index i) ((h.objects o).getOwn (.string (indexKey i)))) xs := by
  induction xs generalizing index with
  | nil => exact ⟨fun e he => absurd he List.not_mem_nil, .nil⟩
  | cons x xs ih =>
      obtain ⟨⟨value, hvalue, hx⟩, hrest⟩ := hmirrors
      obtain ⟨hclean, hentries⟩ := ih hrest
      have hvalue : (h.objects o).getOwn (.string (indexKey index)) = some (.data value true) := hvalue
      rw [List.length_cons, List.range'_succ, List.map_cons, hvalue]
      exact ⟨List.forall_mem_cons.mpr ⟨entryOf_clean_iff.mpr ⟨value, rfl⟩, hclean⟩, .cons hx hentries⟩

/-- The entries of members that are mirrored. -/
theorem members_entries {ms : List (Str × Value ν)} (hmirrors : MirrorsMembers h N ms o) :
    (∀ e ∈ (ms.map Prod.fst).map fun key => entryOf (.key key) ((h.objects o).getOwn (.string key)),
      e.Clean) ∧
    List.Forall₂ (fun e x => Mirrors h N x e.item)
      ((ms.map Prod.fst).map fun key => entryOf (.key key) ((h.objects o).getOwn (.string key)))
      (ms.map Prod.snd) := by
  induction ms with
  | nil => exact ⟨fun e he => absurd he List.not_mem_nil, .nil⟩
  | cons m ms ih =>
      obtain ⟨key, x⟩ := m
      obtain ⟨⟨value, hvalue, hx⟩, hrest⟩ := hmirrors
      obtain ⟨hclean, hentries⟩ := ih hrest
      have hvalue : (h.objects o).getOwn (.string key) = some (.data value true) := hvalue
      rw [List.map_cons, List.map_cons, List.map_cons, hvalue]
      exact ⟨List.forall_mem_cons.mpr ⟨entryOf_clean_iff.mpr ⟨value, rfl⟩, hclean⟩, .cons hx hentries⟩

/-- A number is copied when it is within the limits. -/
theorem number_follows {x : Double} {q : ℚ} (hx : IsNumber x q) :
    Follows.Step (graph h) (MirrorsHeld h) (Value.Alike fun y q => Finite.value y = q)
      (Value.Numbers fun q => unsafeIntegral q = false) Value.nesting (.number x) (.num q) := by
  obtain ⟨y, rfl, rfl⟩ := hx
  cases hy : (Double.finite y).portable? with
  | some z =>
      have hshape : (graph h).shape (.number (.finite y)) = .leaf (.ok (.num z)) := by rw [shape_number, hy]
      obtain ⟨heq, hportable⟩ := portable?_eq_some_iff.mp hy
      cases heq
      exact leaf_step hshape ⟨_, rfl, rfl⟩ (finite_portable_iff.mp hportable)
  | none =>
      have hshape : (graph h).shape (.number (.finite y)) = .leaf (.error .invalid) := by rw [shape_number, hy]
      apply number_step hshape
      · intro w hw
        cases hw
      · intro hsafe
        have hsome := portable?_isSome_iff.mpr (finite_portable_iff.mpr hsafe)
        rw [hy] at hsome
        cases hsome

/-- **What mirrors a value follows the graph that `copyJsonValue` walks.** -/
theorem mirrors_follows (h : Heap) :
    Graph.Follows (graph h) (MirrorsHeld h) (Value.Alike fun y q => Finite.value y = q)
      (Value.Numbers fun q => unsafeIntegral q = false) Value.nesting := by
  intro v w hv
  obtain ⟨hmirrors, hheld⟩ := hv
  cases w with
  | null =>
      cases hmirrors
      exact leaf_step rfl rfl trivial
  | bool b =>
      cases hmirrors
      exact leaf_step rfl rfl trivial
  | str s =>
      cases hmirrors
      exact leaf_step rfl rfl trivial
  | num q =>
      obtain ⟨x, rfl, hx⟩ := hmirrors
      exact number_follows hx
  | arr xs =>
      -- the entries of an array are those of its indices
      obtain ⟨o, rfl, hplain, helems⟩ := hmirrors
      obtain ⟨hclean, hentries⟩ := elems_entries helems
      have hopening : (h.objects o).opening = none := by
        rw [opening_eq_none_iff, hplain.length]
        exact ⟨hplain.symbols, hplain.keys⟩
      have hsame : (h.objects o).entries = (List.range' 0 xs.length).map fun i =>
          entryOf (.index i) ((h.objects o).getOwn (.string (indexKey i))) := by
        unfold Obj.entries
        rw [hplain.length]
        simp only [List.range_eq_range']
      refine array_step (shape_node_iff.mpr ⟨o, rfl, hplain.callable, rfl, hopening.symm, hsame.symm, rfl⟩)
        (forall₂_held hentries hheld.elem) hclean ?_
      intro ws
      unfold Obj.build
      rw [hplain.length]
  | obj ms =>
      -- the entries of an object are those of its enumerable keys
      obtain ⟨o, rfl, hplain, hkeys, hmembers⟩ := hmirrors
      obtain ⟨hclean, hentries⟩ := members_entries hmembers
      have hopening : (h.objects o).opening = none := by
        rw [opening_eq_none_iff, hplain.length]
        exact ⟨hplain.symbols, hplain.prototype⟩
      have hsame : (h.objects o).entries = (ms.map Prod.fst).map fun key =>
          entryOf (.key key) ((h.objects o).getOwn (.string key)) := by
        unfold Obj.entries
        rw [hplain.length]
        simp only [hkeys]
      have hzip : (ms.map Prod.fst).zip (ms.map Prod.snd) = ms := by
        rw [← List.unzip_fst, ← List.unzip_snd, List.zip_unzip]
      rw [← hzip] at hheld ⊢
      have hlen : (ms.map Prod.snd).length = (ms.map Prod.fst).length := by
        rw [List.length_map, List.length_map]
      refine object_step (shape_node_iff.mpr ⟨o, rfl, hplain.callable, rfl, hopening.symm, hsame.symm, rfl⟩)
        (forall₂_held hentries (hheld.zip hlen).2.2) hclean ?_ ?_
      · exact (List.length_map _).symm
      · intro ws _
        unfold Obj.build
        rw [hplain.length]
        simp only [hkeys]

/-- **A value that is mirrored is copied when its numbers are within the limits**, and the copy is that value. -/
theorem mirrored_sends {v : Unknown Address} {w : Value ℚ} (hv : MirrorsHeld h v w) :
    ((∃ u, Mirrors h SendsAs u v) ↔ w.Numbers fun q => unsafeIntegral q = false) ∧
      ∀ u, Mirrors h SendsAs u v → u.Alike (fun y q => Finite.value y = q) w := by
  refine ⟨⟨?_, ?_⟩, ?_⟩
  · intro hsends
    obtain ⟨u, hu⟩ := hsends
    exact ((mirrors_follows h).of_unfolds hv (unfolds_of_mirrors hu)).2
  · intro hsafe
    obtain ⟨u, hu, -⟩ := (mirrors_follows h).unfolds hv hsafe
    exact ⟨u, mirrors_of_unfolds hu⟩
  · intro u hu
    exact ((mirrors_follows h).of_unfolds hv (unfolds_of_mirrors hu)).1

/-- The stack holds a value that is mirrored when it has a frame for each level. -/
theorem not_overflows_of_mirrors {v : Unknown Address} {w : Value ℚ} (hv : MirrorsHeld h v w) {frames : Nat}
    (hframes : w.nesting < frames) : ¬ Overflows h frames v := by
  rintro ⟨path, hfirst⟩
  exact (mirrors_follows h).not_tooDeep (graph_ownFaults h) hv hframes hfirst

end Properties

/-! ## §2. Payloads as they are posted. -/

section Posted

variable {ι : Type}

/-- The string that a value is. -/
def Unknown.string? : Unknown ι → Option Str
  | .string s => some s
  | _ => none

/-- The same for a field that may be left out. -/
def optionalString? : Option (Unknown ι) → Option (Option Str)
  | none => some none
  | some value => value.string?.map some

/-- The body that a payload is written as.  Its fields are strings, the time apart: that is whatever
    `toISOString` answers, and what is no string is not followed here. -/
def WirePayload.body? (payload : WirePayload ι) : Option (Body Finite) := do
  let eventKey ← payload.eventKey.string?
  let eventId ← payload.eventId.string?
  let occurredAt ← payload.occurredAt.string?
  let email ← optionalString? payload.email
  let phoneNumber ← optionalString? payload.phoneNumber
  let contactName ← optionalString? payload.contactName
  let visitorId ← optionalString? payload.visitorId
  some ⟨eventKey, eventId, occurredAt, payload.isCommon, email, phoneNumber, contactName, visitorId,
    payload.properties⟩

/-- `JSON.stringify(payload)`, in the bytes that `fetch` posts. -/
def WirePayload.posted? (floats : FloatText) (payload : WirePayload ι) : Option (List UInt8) :=
  payload.body?.map fun b => utf8 (ofUtf16Lossy (stringify floats.text b.value))

/-- What is posted after `buildPayload`, unless that throws. -/
def posted? {σ : Type} (floats : FloatText) :
    EStateM.Result (Raised ι) σ (WirePayload ι) → Option (Except (Raised ι) (List UInt8))
  | .ok payload _ => (payload.posted? floats).map .ok
  | .error e _ => some (.error e)

/-- A `ValidationError`. -/
def Raised.IsValidation (e : Raised ι) : Prop := ∃ message, e = .validation message

end Posted

/-! ## §3. Texts and times. -/

/-- **A settled text is trimmed as everywhere.** -/
theorem trimUnits_settled {cs : List Char} (h : Settled cs) : trimUnits (utf16 cs) = utf16 (trimCommon cs) := by
  apply trim_utf16 h
  intro u hu
  unfold isDisputedSpace at hu
  simp only [Bool.or_eq_false_iff, beq_eq_false_iff_ne, decide_eq_false_iff_not] at hu
  obtain ⟨⟨⟨⟨⟨-, hfeed⟩, -⟩, -⟩, hseparator⟩, hmark⟩ := hu
  have hmark' : (u == 0xFEFF) = false := by
    rw [beq_eq_false_iff_ne]
    intro heq
    exact hmark (congrArg UInt16.toNat heq)
  unfold isTrimmed
  rw [hseparator, hmark', Bool.or_false, Bool.or_false]
  unfold isAsciiSpace isCommonSpace
  rw [Bool.eq_iff_iff]
  simp only [Bool.or_eq_true, beq_iff_eq, decide_eq_true_eq]
  omega

/-- The value of a text that may be absent. -/
def textValue (o : Option (List Char)) : Unknown Address := o.elim .undefined fun cs => .string (utf16 cs)

theorem isText_textValue (o : Option (List Char)) : (textValue o).isText = true := by
  cases o <;> rfl

theorem isNonblankString_utf16 {cs : List Char} (h : Settled cs) :
    (Unknown.string (utf16 cs) : Unknown Address).isNonblankString = true ↔ trimCommon cs ≠ [] := by
  show (!decide (trimUnits (utf16 cs) = [])) = true ↔ _
  rw [trimUnits_settled h, Bool.not_eq_true', decide_eq_false_iff_not, utf16_eq_nil_iff]

theorem isNonblankString_textValue {o : Option (List Char)} (h : Filled o) :
    (textValue o).isNonblankString = true ↔ NotBlank o := by
  cases o with
  | none => simp [NotBlank, textValue, Unknown.isNonblankString]
  | some cs =>
      refine (isNonblankString_utf16 (h cs rfl).1).trans ?_
      simp [NotBlank]

theorem given_textValue (o : Option (List Char)) :
    optionalString? (textValue o).given = some (o.map utf16) := by
  cases o <;> rfl

theorem normalized_textValue {o : Option (List Char)} (h : OptionSettled o) :
    normalized (textValue o) = textValue (Payload.trimmed o) := by
  cases o with
  | none => rfl
  | some cs =>
      show (if trimUnits (utf16 cs) = [] then _ else _) = _
      rw [trimUnits_settled (h cs rfl), trimmed_some]
      by_cases hempty : trimCommon cs = []
      · rw [if_pos (utf16_eq_nil_iff.mpr hempty), if_pos hempty]
        rfl
      · rw [if_neg (mt utf16_eq_nil_iff.mp hempty), if_neg hempty]
        rfl

theorem orElse_textValue (o p : Option (List Char)) :
    (textValue o).orElse (textValue p) = textValue (o.or p) := by
  cases o <;> rfl

/-- The value is a `Date` of the time. -/
structure DateOf (env : Environment) (value : Unknown Address) (t : Timestamp) : Prop where
  object : ∃ o, value = .object o
  isDate : env.instanceofDate value = true
  year : env.getUTCFullYear value = .ok (some t.year)
  text : env.toISOString value = .ok (.string (utf16 t.iso))

/-- The value stands for the time. -/
def TimeStands (env : Environment) (value : Unknown Address) : Option Timestamp → Prop
  | none => value = .undefined
  | some t => DateOf env value t

/-- The value stands for the properties. -/
def PropertiesStand (h : Heap) (value : Unknown Address) : Option (Value ℚ) → Prop
  | none => value = .undefined
  | some v => ∃ w, Mirrors h IsNumber w value ∧ w.Alike Eq v

/-! ## §4. Calls. -/

/-- **The arguments of a call, its clock and its generator stand for the submission**, and the stack has a frame
    for every level of its properties. -/
structure Stands (env : Environment) (h : Heap) (frames : Nat) (event : Address)
    (fields : String → Unknown Address) (s : Submission) : Prop where
  object : event.callable = false
  reads : ReadsFields (heapRealm env) h event fields
  email : fields "email" = textValue s.email
  phoneNumber : fields "phoneNumber" = textValue s.phoneNumber
  contactName : fields "contactName" = textValue s.contactName
  visitorId : fields "visitorId" = textValue s.visitorId
  eventId : fields "eventId" = textValue s.eventId
  occurredAt : TimeStands env (fields "occurredAt") s.occurredAt
  properties : PropertiesStand h (fields "properties") s.properties
  newEventId : env.newEventId = utf16 s.newEventId
  now : env.now = utf16 s.now.iso
  frames : ∀ v ∈ s.properties, v.nesting < frames

section Calls

variable {env : Environment} {h : Heap} {frames : Nat} {event : Address} {fields : String → Unknown Address}
  {s : Submission}

theorem Stands.strings (hstands : Stands env h frames event fields s) :
    ∀ name ∈ stringFields, (fields name).isText = true := by
  unfold stringFields
  simp only [List.forall_mem_cons, hstands.email, hstands.phoneNumber, hstands.contactName, hstands.visitorId,
    hstands.eventId, isText_textValue, true_and]
  exact fun name hname => absurd hname List.not_mem_nil

/-- A time that stands for one passes its check, and is sent as it is. -/
theorem Stands.year (hstands : Stands env h frames event fields s) (hs : s.Neutral) :
    ((fields "occurredAt").isUndefined = true ∨ HasYear env.toBuiltIns (fields "occurredAt")) ∧
      ((fields "occurredAt").isNullish = true ∨ ∃ iso, env.toISOString (fields "occurredAt") = .ok iso) ∧
      timeOf env.toBuiltIns (fields "occurredAt") = .string (utf16 s.time.iso) := by
  have htime := hstands.occurredAt
  unfold Submission.time timeOf
  cases ht : s.occurredAt with
  | none =>
      rw [ht] at htime
      have hnone : fields "occurredAt" = .undefined := htime
      rw [hnone, hstands.now]
      exact ⟨.inl rfl, .inl rfl, rfl⟩
  | some t =>
      rw [ht] at htime
      have hdate : DateOf env (fields "occurredAt") t := htime
      obtain ⟨o, ho⟩ := hdate.object
      have hrange := hs.time t ht
      have hyear : env.yearOf (fields "occurredAt") = .ok (some (t.year : Int)) := by
        unfold BuiltIns.yearOf
        rw [hdate.isDate, if_pos rfl, hdate.year]
      refine ⟨.inr ⟨t.year, hyear, by omega, by omega⟩, .inr ⟨_, hdate.text⟩, ?_⟩
      rw [hdate.text, ho]
      rfl

/-- **What is refused before the properties are looked at.** -/
theorem Stands.unaccepted (hstands : Stands env h frames event fields s) (hs : s.Neutral)
    (hrefused : ¬ (trimCommon s.eventKey ≠ [] ∧ (NotBlank s.email ∨ NotBlank s.phoneNumber)))
    (ambient : Unknown Address) : ∃ message t, buildPayload (heapRealm env) frames
      (.string (utf16 s.eventKey)) s.isCommon (.object event) ambient h = .error (.validation message) t := by
  have hvalidate : ∃ message t, validateEvent (heapRealm env) (.string (utf16 s.eventKey)) (.object event) h
      = .error (.validation message) t := by
    unfold validateEvent
    by_cases hkey : trimCommon s.eventKey = []
    · rw [if_neg (mt (isNonblankString_utf16 hs.eventKey).mp (not_not.mpr hkey))]
      exact ⟨_, h, rfl⟩
    · rw [if_pos ((isNonblankString_utf16 hs.eventKey).mpr hkey)]
      have hidentity : ¬ (NotBlank s.email ∨ NotBlank s.phoneNumber) := fun hor => hrefused ⟨hkey, hor⟩
      rw [not_or] at hidentity
      have hread : ∀ name ∈ stringFields, field (heapRealm env) event name h = .ok (fields name) h :=
        fun name hname => hstands.reads name (List.mem_cons_of_mem _ (List.mem_cons_of_mem _ hname))
      -- the strings and the time pass, and the identity is looked for last
      have hstrings : stringFields.forM (requireString (heapRealm env) event) h = .ok PUnit.unit h :=
        (Checks.forM fun name hname => requireString_checks (hread name hname)).passes hstands.strings
      have htime : requireTime (heapRealm env) event h = .ok () h :=
        (requireTime_checks (heapRealm_answers env) (hstands.reads "occurredAt" List.mem_cons_self)).passes (hstands.year hs).1
      -- each of the two is blank or not there
      have hlacks : ∀ name ∈ stringFields, (fields name).isNonblankString = false →
          lacks (heapRealm env) event name h = .ok true h := by
        intro name hname hblank
        rw [lacks_reads (hstands.strings name hname) (hread name hname), hblank]
        rfl
      have hemail : (fields "email").isNonblankString = false := by
        rw [hstands.email, ← Bool.not_eq_true, isNonblankString_textValue hs.email]
        exact hidentity.1
      have hphone : (fields "phoneNumber").isNonblankString = false := by
        rw [hstands.phoneNumber, ← Bool.not_eq_true, isNonblankString_textValue hs.phoneNumber]
        exact hidentity.2
      have hraises : requireIdentity (heapRealm env) event h
          = refuse (units "event must include a non-blank email or phone number") h := by
        unfold requireIdentity
        rw [bind_of_ok (hlacks "email" (by decide) hemail), if_pos rfl,
          bind_of_ok (hlacks "phoneNumber" (by decide) hphone), if_pos rfl]
      refine ⟨units "event must include a non-blank email or phone number", h, ?_⟩
      show (if event.callable then _ else _ : JS Address Heap Address) h = _
      rw [hstands.object, if_neg Bool.false_ne_true, bind_of_ok hstrings, bind_of_ok htime]
      exact bind_of_error hraises
  obtain ⟨message, t, hvalidate⟩ := hvalidate
  exact ⟨message, t, bind_of_error hvalidate⟩

/-- Without that, the arguments are valid. -/
theorem Stands.valid (hstands : Stands env h frames event fields s) (hs : s.Neutral)
    (hkey : trimCommon s.eventKey ≠ []) (hidentity : NotBlank s.email ∨ NotBlank s.phoneNumber) :
    OtherwiseValid env h (.string (utf16 s.eventKey)) event (textValue s.ambientVisitorId) fields where
  key := (isNonblankString_utf16 hs.eventKey).mpr hkey
  object := hstands.object
  reads := hstands.reads
  valid := by
    refine ⟨hstands.strings, (hstands.year hs).1, ?_, (hstands.year hs).2.1⟩
    rw [hstands.email, hstands.phoneNumber, isNonblankString_textValue hs.email,
      isNonblankString_textValue hs.phoneNumber]
    exact hidentity
  ambient := isText_textValue _

/-- **What is posted of a payload** with these properties says the submission. -/
theorem Stands.posted (hstands : Stands env h frames event fields s) (hs : s.Neutral) {floats : FloatText}
    (hfloats : floats.ReadsBack) {o : Option (Value Finite)}
    (ho : Option.Rel (Value.Alike fun y q => Finite.value y = q) o s.properties) :
    ∃ body, (sentPayload env.toBuiltIns (.string (utf16 s.eventKey)) s.isCommon fields (textValue s.ambientVisitorId)
      o).posted? floats = some body ∧ s.Says body := by
  have hid : (normalized (fields "eventId")).orElse (.string env.newEventId) = .string (utf16 s.sentEventId) := by
    unfold Submission.sentEventId
    rw [hstands.eventId, normalized_textValue hs.eventId, hstands.newEventId]
    cases Payload.trimmed s.eventId <;> rfl
  have hvisitor : (normalized (fields "visitorId")).orElse (normalized (textValue s.ambientVisitorId))
      = textValue s.sentVisitorId := by
    rw [hstands.visitorId, normalized_textValue hs.visitorId, normalized_textValue hs.ambientVisitorId,
      orElse_textValue]
    rfl
  have hbody : (sentPayload env.toBuiltIns (.string (utf16 s.eventKey)) s.isCommon fields (textValue s.ambientVisitorId)
      o).body? = some (s.bodyWith o) := by
    unfold sentPayload WirePayload.body?
    simp only [hid, (hstands.year hs).2.2, hstands.email, hstands.phoneNumber, hstands.contactName, hvisitor,
      given_textValue]
    rfl
  refine ⟨_, congrArg _ hbody, ?_⟩
  exact hs.tells (fun x _ => hfloats x) ho (stringify_reads floats.wellFormed (hs.distinct ho))

/-- **`buildPayload` serves the submission.** -/
theorem Stands.served (hstands : Stands env h frames event fields s) (hs : s.Neutral) {floats : FloatText}
    (hfloats : floats.ReadsBack) :
    ∃ x, posted? floats (buildPayload (heapRealm env) frames (.string (utf16 s.eventKey)) s.isCommon (.object event)
      (textValue s.ambientVisitorId) h) = some x ∧ s.Served Raised.IsValidation x := by
  by_cases hfields : trimCommon s.eventKey ≠ [] ∧ (NotBlank s.email ∨ NotBlank s.phoneNumber)
  swap
  -- refused by `validateEvent`
  · obtain ⟨message, t, hrefused⟩ := hstands.unaccepted hs hfields (textValue s.ambientVisitorId)
    rw [hrefused]
    exact ⟨_, rfl, .inr ⟨fun haccepted => hfields ⟨haccepted.eventKey, haccepted.identity⟩, _, rfl, message, rfl⟩⟩
  obtain ⟨hkey, hidentity⟩ := hfields
  have hvalid := hstands.valid hs hkey hidentity
  have hproperties := hstands.properties
  cases hp : s.properties with
  | none =>
      rw [hp] at hproperties
      rw [buildPayload_undefined hvalid hproperties]
      have hrel : Option.Rel (Value.Alike fun y q => Finite.value y = q) none s.properties := by
        rw [hp]
        exact .none
      obtain ⟨body, hbody, htells⟩ := hstands.posted hs hfloats hrel
      refine ⟨.ok body, congrArg (Option.map Except.ok) hbody, .inl ⟨⟨hkey, hidentity, ?_⟩, body, rfl, htells⟩⟩
      intro v hv
      rw [hp] at hv
      cases hv
  | some v =>
      rw [hp] at hproperties
      obtain ⟨w, hmirrors, halike⟩ := hproperties
      have hplain := hs.properties v hp
      have hheld : MirrorsHeld h (fields "properties") w := ⟨hmirrors, hplain.toHeld.alike halike⟩
      obtain ⟨hsends, hsame⟩ := mirrored_sends hheld
      have hroom : ¬ Overflows h frames (fields "properties") := by
        apply not_overflows_of_mirrors hheld
        rw [halike.nesting_eq]
        exact hstands.frames v hp
      have hnumbers : (w.Numbers fun q => unsafeIntegral q = false) ↔ v.Numbers fun q => unsafeIntegral q = false :=
        alike_eq_numbers_iff halike _
      -- the properties are copied, or `copyJsonValue` refuses a number of them
      by_cases hu : ∃ u, Mirrors h SendsAs u (fields "properties")
      · obtain ⟨u, hu⟩ := hu
        rw [buildPayload_mirrored hvalid hroom hu]
        have hrel : Option.Rel (Value.Alike fun y q => Finite.value y = q) (some u) s.properties := by
          rw [hp]
          exact .some ((hsame u hu).trans_eq halike)
        obtain ⟨body, hbody, htells⟩ := hstands.posted hs hfloats hrel
        refine ⟨.ok body, congrArg (Option.map Except.ok) hbody, .inl ⟨⟨hkey, hidentity, ?_⟩, body, rfl, htells⟩⟩
        intro v' hv'
        rw [hp] at hv'
        cases hv'
        exact hnumbers.mp (hsends.mp ⟨u, hu⟩)
      · have hdefined : fields "properties" ≠ .undefined := by
          intro hundefined
          have hfalse := defined_of_mirrors hmirrors
          rw [hundefined] at hfalse
          cases hfalse
        have hnone : ∀ u, ¬ Mirrors h SendsAs u (fields "properties") := fun u hmirror => hu ⟨u, hmirror⟩
        obtain ⟨message, hrefused⟩ : ∃ message, buildPayload (heapRealm env) frames (.string (utf16 s.eventKey))
            s.isCommon (.object event) (textValue s.ambientVisitorId) h = .error (.validation message) h :=
          buildPayload_refused hvalid hroom hdefined hnone
        rw [hrefused]
        refine ⟨_, rfl, .inr ⟨?_, _, rfl, message, rfl⟩⟩
        intro haccepted
        exact hu (hsends.mpr (hnumbers.mpr (haccepted.numbers v hp)))

end Calls

end CekatEvents.Node
