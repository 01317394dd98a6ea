/-
  CekatEvents.Ruby.Submission — what the payload builder of the Ruby client makes of a submission.

  Its texts are strings of UTF-8; its properties are a hash that shows them, whether its keys are strings or
  symbols and its numbers integers, floats or other real numbers.  Of the interpreter it is asked that `strip`
  strips what every language strips, and that the generator writes a string of UTF-8 as it is.

  Main result: `Stands.served` — `build` serves the submission.
-/
import CekatEvents.JsonText.Copied
import CekatEvents.Payload.Submission
import CekatEvents.Ruby.Outcomes

namespace CekatEvents.Ruby

open CekatEvents.Arithmetic CekatEvents.Effects CekatEvents.Encoding CekatEvents.Graph
  CekatEvents.JsonText CekatEvents.Payload

/-! ## §1. Properties. -/

/-- The value of a number. -/
def Item.number? : Item → Option ℚ
  | .integer n => some n
  | .float (.finite x) => some x.value
  | .numeric true (.finite x) => some x.value
  | _ => none

/-- **The value that an item shows.** -/
inductive Shows (heap : Heap) : Item → Value ℚ → Prop where
  | nil : Shows heap .nil .null
  | bool (b : Bool) : Shows heap (.bool b) (.bool b)
  | string {s : RString} {cs : List Char} : utf8? s = some cs → Shows heap (.string s) (.str (utf16 cs))
  | symbol {s : RString} {cs : List Char} : utf8? s = some cs → Shows heap (.symbol s) (.str (utf16 cs))
  | number {x : Item} {q : ℚ} : x.number? = some q → Shows heap x (.num q)
  | array {id : Nat} {items : List Item} {vs : List (Value ℚ)} :
      heap id = .array items → List.Forall₂ (Shows heap) items vs → Shows heap (.ref id) (.arr vs)
  | hash {id : Nat} {pairs : List (Key × Item)} {names : List (List Char)} {vs : List (Value ℚ)} :
      heap id = .hash pairs → (pairs.map fun p => p.1.name?) = names.map some →
      List.Forall₂ (fun p v => Shows heap p.2 v) pairs vs →
      Shows heap (.ref id) (.obj ((names.map utf16).zip vs))

/-- An item that shows a value that every language holds. -/
def ShowsHeld (heap : Heap) (x : Item) (v : Value ℚ) : Prop := Shows heap x v ∧ Held v

theorem hashNames_eq {pairs : List (Key × Item)} {names : List (List Char)}
    (h : (pairs.map fun p => p.1.name?) = names.map some) : hashNames pairs = names.map utf16 := by
  induction pairs generalizing names with
  | nil =>
      cases names with
      | nil => rfl
      | cons name names => cases h
  | cons p ps ih =>
      cases names with
      | nil => cases h
      | cons name names =>
          obtain ⟨hname, hnames⟩ := List.cons.inj h
          unfold hashNames at ih ⊢
          rw [List.map_cons, List.map_cons, ih hnames, keyName_ok_iff.mpr hname]
          rfl

section Walk

variable {heap : Heap}

/-- A float is let through when it is within the limits. -/
theorem float_step {x : Item} {y : Finite} (hshape : (graph heap).shape x = .leaf (portableFloat (.finite y))) :
    Follows.Step (graph heap) (ShowsHeld heap) (Value.Alike fun n q => Number.value n = q)
      (Value.Numbers fun q => unsafeIntegral q = false) Value.nesting x (.num y.value) := by
  apply number_step hshape
  · intro w hw
    unfold portableFloat at hw
    cases hy : (Double.finite y).portable? with
    | none =>
        rw [hy] at hw
        cases hw
    | some z =>
        rw [hy] at hw
        cases hw
        obtain ⟨heq, hportable⟩ := portable?_eq_some_iff.mp hy
        cases heq
        exact ⟨_, rfl, rfl, finite_portable_iff.mp hportable⟩
  · intro hsafe
    exact portableFloat_ok_iff.mpr (finite_portable_iff.mpr hsafe)

theorem number_follows {x : Item} {q : ℚ} (h : x.number? = some q) :
    Follows.Step (graph heap) (ShowsHeld heap) (Value.Alike fun n q => Number.value n = q)
      (Value.Numbers fun q => unsafeIntegral q = false) Value.nesting x (.num q) := by
  cases x with
  | integer n =>
      cases h
      have hsafe : n.natAbs ≤ maxSafeInteger ↔ unsafeIntegral (n : ℚ) = false := Number.portable_iff (n := .integer n)
      apply number_step rfl
      · intro w hw
        split_ifs at hw with hn
        cases hw
        exact ⟨_, rfl, rfl, hsafe.mp hn⟩
      · intro hn
        exact ⟨_, if_pos (hsafe.mpr hn)⟩
  | float y =>
      cases y with
      | finite z =>
          cases h
          exact float_step rfl
      | nan => cases h
      | infinite neg => cases h
  | numeric real y =>
      cases real with
      | false => cases h
      | true =>
          cases y with
          | finite z =>
              cases h
              exact float_step rfl
          | nan => cases h
          | infinite neg => cases h
  | _ => cases h

/-- **What the properties show follows the graph that `normalize` walks.** -/
theorem shows_follows (heap : Heap) :
    Follows (graph heap) (ShowsHeld heap) (Value.Alike fun n q => Number.value n = q)
      (Value.Numbers fun q => unsafeIntegral q = false) Value.nesting := by
  intro x v hx
  obtain ⟨h, hheld⟩ := hx
  have htext : ∀ {s : RString} {cs : List Char}, utf8? s = some cs → textLeaf s = .ok (.str (utf16 cs)) := by
    intro s cs hs
    unfold textLeaf
    rw [hs]
  cases h with
  | nil => exact leaf_step rfl rfl trivial
  | bool b => exact leaf_step rfl rfl trivial
  | string hs => exact leaf_step (congrArg Shape.leaf (htext hs)) rfl trivial
  | symbol hs => exact leaf_step (congrArg Shape.leaf (htext hs)) rfl trivial
  | number hq => exact number_follows hq
  | @array id items vs hcell hvs =>
      refine array_step (shape_array hcell) (forall₂_items ?_ (forall₂_held hvs hheld.elem)) ?_ fun _ => rfl
      · exact (map_mapIdx (h := fun x => x) (fun _ _ => rfl) _).trans (List.map_id' _)
      · intro e he
        obtain ⟨i, hi, rfl⟩ := List.mem_mapIdx.mp he
        exact ⟨rfl, rfl⟩
  | @hash id pairs names vs hcell hnames hvs =>
      have hlen : (names.map utf16).length = pairs.length := by
        have hlen := congrArg List.length hnames
        rwa [List.length_map, List.length_map, eq_comm, ← List.length_map (f := utf16)] at hlen
      -- different names in UTF-16 are different in UTF-8
      obtain ⟨hnodup, -, hall⟩ := hheld.zip (hvs.length_eq.symm.trans hlen.symm)
      have hnamed : Named pairs := ⟨names, hnames, hnodup.of_map utf16⟩
      refine object_step (shape_hash hcell) (forall₂_items (hashEntries_items [] pairs) (forall₂_held ?_ hall)) ?_ ?_ ?_
      · exact List.forall₂_map_left_iff.mpr hvs
      · intro e he
        exact ⟨hashEntries_named_iff.mpr hnamed e he, hashEntries_after he⟩
      · rw [hlen, ← List.length_map (f := Entry.item), hashEntries_items, List.length_map]
      · intro ws _
        rw [hashNames_eq hnames]

theorem graph_identified (heap : Heap) : Identified (graph heap) := by
  apply @identified_of_item _ _ _ _ _ _ Item.ref
  intro x i opening entries build hx
  cases x with
  | ref id =>
      cases hcell : heap id with
      | array items =>
          rw [shape_array hcell] at hx
          cases hx
          rfl
      | hash pairs =>
          rw [shape_hash hcell] at hx
          cases hx
          rfl
  | _ => cases hx

/-- **A hash that shows a value is let through when its numbers are within the limits**, and is that value. -/
theorem normalize_shown {platform : Platform} {id : Nat} {v : Value ℚ} (h : ShowsHeld heap (.ref id) v)
    (hdeep : v.nesting ≤ MAX_DEPTH) :
    ((v.Numbers fun q => unsafeIntegral q = false) → ∃ w, normalize platform heap id = .ok w) ∧
      ∀ w, normalize platform heap id = .ok w →
        w.Alike (fun n q => Number.value n = q) v ∧ v.Numbers fun q => unsafeIntegral q = false := by
  have hwalk : ∀ w, normalize platform heap id = .ok w ↔ walk (graph heap) (MAX_DEPTH + 1) [] [] (.ref id) = .ok w := by
    intro w
    unfold normalize
    rw [visit_eq]
    cases walk (graph heap) (MAX_DEPTH + 1) [] [] (.ref id) with
    | error fault => exact iff_of_false (by rintro ⟨⟩) (by rintro ⟨⟩)
    | ok u => simp [Except.map]
  simp only [hwalk]
  constructor
  · intro hv
    exact ((shows_follows heap).walk_returns (graph_identified heap) h (Nat.lt_succ_of_le hdeep)).mpr hv
  · intro w hw
    exact (shows_follows heap).walk_ok h hw

end Walk

/-- The object stands for the properties. -/
def PropertiesStand (heap : Heap) (properties : Properties) : Option (Value ℚ) → Prop
  | none => properties = .nil
  | some v => ∃ id w, properties = .hash id ∧ Shows heap (.ref id) w ∧ w.Alike Eq v

/-- **The properties of a submission are let through when their numbers are within the limits.** -/
theorem PropertiesStand.built {platform : Platform} {heap : Heap} {properties : Properties} {p : Option (Value ℚ)}
    (h : PropertiesStand heap properties p) (hp : ∀ v ∈ p, Plain v) :
    ((∀ v ∈ p, v.Numbers fun q => unsafeIntegral q = false) →
        ∃ o, buildProperties platform heap properties = .ok o) ∧
      ∀ o, buildProperties platform heap properties = .ok o →
        Option.Rel (Value.Alike fun n q => Number.value n = q) o p ∧
          ∀ v ∈ p, v.Numbers fun q => unsafeIntegral q = false := by
  cases p with
  | none =>
      have hnone : properties = .nil := h
      rw [hnone]
      refine ⟨fun _ => ⟨none, rfl⟩, ?_⟩
      intro o ho
      cases ho
      exact ⟨.none, fun v hv => absurd hv (by simp)⟩
  | some v =>
      obtain ⟨id, w, rfl, hshows, halike⟩ := h
      have hv := hp v rfl
      have hnumbers : (w.Numbers fun q => unsafeIntegral q = false) ↔ v.Numbers fun q => unsafeIntegral q = false :=
        alike_eq_numbers_iff halike _
      have hdeep : w.nesting ≤ MAX_DEPTH := by
        rw [halike.nesting_eq]
        exact hv.nesting.trans (by decide)
      obtain ⟨haccepts, honly⟩ := @normalize_shown heap platform _ _ ⟨hshows, hv.toHeld.alike halike⟩ hdeep
      constructor
      · intro hsafe
        obtain ⟨u, hu⟩ := haccepts (hnumbers.mpr (hsafe v rfl))
        exact ⟨_, map_ok_iff.mpr ⟨u, hu, rfl⟩⟩
      · intro o ho
        obtain ⟨u, hu, rfl⟩ := map_ok_iff.mp ho
        obtain ⟨hsame, hportable⟩ := honly u hu
        refine ⟨.some (hsame.trans_eq halike), ?_⟩
        intro v' hv'
        cases hv'
        exact hnumbers.mp hportable

/-! ## §2. Texts. -/

/-- A text as a string of UTF-8. -/
def rstring (cs : List Char) : RString := ⟨Encoding.utf8 cs, .utf8⟩

/-- A text that may be absent. -/
def fieldOf (o : Option (List Char)) : Field := o.elim .nil fun cs => .string (rstring cs)

/-- **`String#strip` strips a settled text as every language does**: the spaces of ASCII and, at the end, NUL. -/
def Platform.Strips (platform : Platform) : Prop :=
  ∀ cs, Settled cs → platform.strip (rstring cs) = .ok (rstring (trimCommon cs))

/-- **The generator writes a string of UTF-8 as it is.** -/
def Platform.Exports (platform : Platform) : Prop := ∀ cs, platform.export? (rstring cs) = some cs

theorem utf8?_rstring (cs : List Char) : utf8? (rstring cs) = some cs := ofUtf8?_utf8 cs

theorem rstring_isEmpty (cs : List Char) : (rstring cs).bytes.isEmpty = cs.isEmpty := by
  rw [Bool.eq_iff_iff, List.isEmpty_iff, List.isEmpty_iff]
  exact utf8_eq_nil_iff

section Texts

variable {platform : Platform} (hstrips : platform.Strips)

include hstrips

/-- What is blank is what nothing is left of. -/
theorem isBlank_fieldOf {o : Option (List Char)} (h : OptionSettled o) :
    isBlank platform (fieldOf o) = .ok (trimmed o).isNone := by
  cases o with
  | none => rfl
  | some cs =>
      show (strip platform (rstring cs) >>= _) = _
      unfold strip
      rw [hstrips cs (h cs rfl)]
      show Except.ok (rstring (trimCommon cs)).bytes.isEmpty = _
      rw [rstring_isEmpty, trimmed_some]
      cases trimCommon cs <;> rfl

theorem normalizeVisitorId_fieldOf {o : Option (List Char)} (h : OptionSettled o) :
    normalizeVisitorId platform (fieldOf o) = .ok ((trimmed o).map rstring) := by
  cases o with
  | none => rfl
  | some cs =>
      show (strip platform (rstring cs) >>= _) = _
      unfold strip
      rw [hstrips cs (h cs rfl)]
      show Except.ok (if (rstring (trimCommon cs)).bytes.isEmpty then _ else _) = _
      rw [rstring_isEmpty, trimmed_some]
      cases trimCommon cs <;> rfl

theorem resolveVisitor_fieldOf {o p : Option (List Char)} (ho : OptionSettled o) (hp : OptionSettled p) :
    resolveVisitor platform (fieldOf o) (fieldOf p)
      = .ok (((trimmed o).or (trimmed p)).map rstring) := by
  unfold resolveVisitor
  rw [normalizeVisitorId_fieldOf hstrips ho]
  cases trimmed o with
  | some cs => rfl
  | none => exact normalizeVisitorId_fieldOf hstrips hp

end Texts

theorem utf8Field_fieldOf (o : Option (List Char)) (path : String) : utf8Field (fieldOf o) path = .ok o := by
  cases o with
  | none => rfl
  | some cs =>
      show (utf8 (rstring cs) path).map some = _
      unfold utf8
      rw [utf8?_rstring]
      rfl

/-! ## §3. Calls. -/

/-- **The arguments of a call, its clock and its generator stand for the submission.** -/
structure Stands (seams : Seams) (heap : Heap) (event : EventInput) (s : Submission) : Prop where
  email : event.email = fieldOf s.email
  phoneNumber : event.phoneNumber = fieldOf s.phoneNumber
  contactName : event.contactName = fieldOf s.contactName
  visitorId : event.visitorId = fieldOf s.visitorId
  eventId : event.eventId = fieldOf s.eventId
  occurredAt : event.occurredAt = s.occurredAt.elim .nil .time
  properties : PropertiesStand heap event.properties s.properties
  newEventId : seams.newEventId = rstring s.newEventId
  clock : seams.clock = s.now

/-- What is put together before the properties. -/
def sentHead (s : Submission) : Payload :=
  ⟨s.eventKey, rstring s.sentEventId, s.time.iso, s.isCommon, s.email, s.phoneNumber, s.contactName,
    s.sentVisitorId, none⟩

/-- The payload is written as a body of the same fields. -/
theorem value_eq (p : Payload) (eventId : List Char) :
    p.value eventId = (Body.mk (utf16 p.eventKey) (utf16 eventId) (utf16 p.occurredAt) p.isCommon
      (p.email.map utf16) (p.phoneNumber.map utf16) (p.contactName.map utf16) (p.visitorId.map utf16)
      p.properties).value := by
  have hopt : ∀ (name : String) (o : Option (List Char)), optionalMember name o
      = ((o.map utf16).map (Value.str (ν := Number))).toList.map fun v => (units name, v) := by
    intro name o
    cases o <;> rfl
  have hnil : present (ν := Number) [] [] = [] := rfl
  unfold Payload.value Body.value Body.values memberNames
  simp only [present_cons, hopt, hnil, List.append_nil, List.append_assoc]
  rfl

section Calls

variable {platform : Platform} {seams : Seams} {heap : Heap} {event : EventInput} {s : Submission}

/-- A time within the years is sent as it is. -/
theorem Stands.time (h : Stands seams heap event s) (hs : s.Neutral) :
    Ruby.occurredAt seams.clock event.occurredAt = .ok s.time.iso := by
  have hyears : s.time.inYears = true := by
    have hrange := hs.year
    exact decide_eq_true ⟨by omega, hrange.2⟩
  unfold Submission.time at hyears ⊢
  rw [h.occurredAt, h.clock]
  cases ht : s.occurredAt with
  | none =>
      rw [ht] at hyears
      exact if_pos hyears
  | some t =>
      rw [ht] at hyears
      exact if_pos hyears

theorem Stands.typed (h : Stands seams heap event s) : event.Typed := by
  have hfield : ∀ o, fieldOf o ≠ .other := by
    intro o
    cases o <;> exact Field.noConfusion
  unfold EventInput.Typed EventInput.stringFields
  simp only [List.forall_mem_cons, h.email, h.phoneNumber, h.contactName, h.visitorId, h.eventId, ne_eq, hfield,
    not_false_eq_true, true_and]
  exact fun f hf => absurd hf List.not_mem_nil

/-- **What is put together of a submission** that has a key and an identity. -/
theorem Stands.head (h : Stands seams heap event s) (hs : s.Neutral) (hstrips : platform.Strips)
    (hkey : trimCommon s.eventKey ≠ []) (hidentity : NotBlank s.email ∨ NotBlank s.phoneNumber) :
    prepareHead platform seams (.string (rstring s.eventKey)) s.isCommon (some event) (fieldOf s.ambientVisitorId)
      = .ok (event, sentHead s) := by
  have hblank := isBlank_fieldOf hstrips (o := some s.eventKey) fun cs hcs => Option.some.inj hcs ▸ hs.eventKey
  have hrequire : requireKey platform (.string (rstring s.eventKey)) = .ok (rstring s.eventKey) := by
    show (isBlank platform (fieldOf (some s.eventKey)) >>= _) = _
    rw [hblank, trimmed_some, if_neg hkey]
    rfl
  have hidentified : requireIdentity platform event = .ok () := by
    unfold requireIdentity
    rw [h.email, h.phoneNumber, isBlank_fieldOf hstrips fun cs hcs => (hs.email cs hcs).1,
      isBlank_fieldOf hstrips fun cs hcs => (hs.phoneNumber cs hcs).1]
    rw [notBlank_iff_trimmed, notBlank_iff_trimmed] at hidentity
    rcases hidentity with hemail | hphone
    · rw [hemail]
      rfl
    · rw [hphone]
      cases (trimmed s.email).isNone <;> rfl
  unfold prepareHead
  simp only [bind_ok_iff]
  refine ⟨_, hrequire, event, requireEvent_ok_iff.mpr rfl, (), checkFields_ok_iff.mpr h.typed, (), hidentified,
    s.eventKey, utf8_ok_iff.mpr (utf8?_rstring _), (trimmed s.eventId).map rstring, ?_, _, h.time hs,
    s.email, ?_, s.phoneNumber, ?_, s.contactName, ?_, s.sentVisitorId.map rstring, ?_, s.sentVisitorId, ?_, ?_⟩
  · rw [h.eventId]
    exact normalizeVisitorId_fieldOf hstrips hs.eventId
  · rw [h.email]
    exact utf8Field_fieldOf _ _
  · rw [h.phoneNumber]
    exact utf8Field_fieldOf _ _
  · rw [h.contactName]
    exact utf8Field_fieldOf _ _
  · rw [h.visitorId]
    exact resolveVisitor_fieldOf hstrips hs.visitorId hs.ambientVisitorId
  · refine Eq.trans ?_ (utf8Field_fieldOf s.sentVisitorId "visitor_id")
    cases s.sentVisitorId <;> rfl
  · unfold sentHead Submission.sentEventId
    rw [h.newEventId]
    cases trimmed s.eventId <;> rfl

/-- **What is refused before the properties are looked at.** -/
theorem Stands.unaccepted (h : Stands seams heap event s) (hs : s.Neutral) (hstrips : platform.Strips)
    (hrefused : ¬ (trimCommon s.eventKey ≠ [] ∧ (NotBlank s.email ∨ NotBlank s.phoneNumber))) :
    ∃ message, prepareHead platform seams (.string (rstring s.eventKey)) s.isCommon (some event)
      (fieldOf s.ambientVisitorId) = .error (.validation message) := by
  have hblank := isBlank_fieldOf hstrips (o := some s.eventKey) fun cs hcs => Option.some.inj hcs ▸ hs.eventKey
  unfold prepareHead
  by_cases hkey : trimCommon s.eventKey = []
  · have hrequire : requireKey platform (.string (rstring s.eventKey))
        = .error (.validation "event key must not be blank".toList) := by
      show (isBlank platform (fieldOf (some s.eventKey)) >>= _) = _
      rw [hblank, trimmed_some, if_pos hkey]
      rfl
    rw [hrequire]
    exact ⟨_, rfl⟩
  · have hidentity : ¬ (NotBlank s.email ∨ NotBlank s.phoneNumber) := fun hor => hrefused ⟨hkey, hor⟩
    rw [not_or, notBlank_iff_trimmed, notBlank_iff_trimmed, Bool.not_eq_false, Bool.not_eq_false] at hidentity
    have hrequire : requireKey platform (.string (rstring s.eventKey)) = .ok (rstring s.eventKey) := by
      show (isBlank platform (fieldOf (some s.eventKey)) >>= _) = _
      rw [hblank, trimmed_some, if_neg hkey]
      rfl
    have hidentified : requireIdentity platform event
        = .error (.validation "event must include a nonblank email or phone number".toList) := by
      unfold requireIdentity
      rw [h.email, h.phoneNumber, isBlank_fieldOf hstrips fun cs hcs => (hs.email cs hcs).1,
        isBlank_fieldOf hstrips fun cs hcs => (hs.phoneNumber cs hcs).1, hidentity.1, hidentity.2]
      rfl
    have hfields : checkFields event = .ok () := checkFields_ok_iff.mpr h.typed
    refine ⟨"event must include a nonblank email or phone number".toList, ?_⟩
    rw [hrequire]
    show (checkFields event >>= fun _ => requireIdentity platform event >>= _) = _
    rw [hfields]
    show (requireIdentity platform event >>= _) = _
    rw [hidentified]
    rfl

/-- **What is generated for a body** with these properties says the submission. -/
theorem generate_tells {o : Option (Value Number)} (hs : s.Neutral) (hexports : platform.Exports)
    (hfloats : platform.floatText.ReadsBack) (ho : Option.Rel (Value.Alike fun n q => Number.value n = q) o s.properties) :
    ∃ text, generate platform { sentHead s with properties := o } = .ok text ∧
      s.Says (Encoding.utf8 (ofUtf16Lossy text)) := by
  have hexport : platform.export? (sentHead s).eventId = some s.sentEventId := hexports s.sentEventId
  have hvalue : ({ sentHead s with properties := o } : Payload).value s.sentEventId = (s.bodyWith o).value :=
    value_eq _ _
  have hshallow : ¬ maxNesting < (s.bodyWith o).value.nesting := by
    rw [not_lt]
    apply Body.nesting_le.mpr
    intro w hw
    have hw : o = some w := hw
    rw [hw] at ho
    generalize hp : s.properties = p at ho
    cases ho with
    | some halike =>
        rw [halike.nesting_eq]
        exact (hs.properties _ hp).nesting
  refine ⟨_, ?_, hs.tells (fun _ => Number.reads hfloats) ho (minimalEscaping.reads
    (Number.numeral_wellFormed platform.floatText) (hs.distinct ho) (hs.unicode ho))⟩
  unfold generate
  simp only [hexport, hvalue, if_neg hshallow]

/-- **`build` serves the submission.** -/
theorem Stands.served (h : Stands seams heap event s) (hs : s.Neutral) (hstrips : platform.Strips)
    (hexports : platform.Exports) (hfloats : platform.floatText.ReadsBack) :
    s.Served Raised.IsValidation (inUtf8 (build platform seams heap (.string (rstring s.eventKey)) s.isCommon
      (some event) (fieldOf s.ambientVisitorId))) := by
  by_cases hfields : trimCommon s.eventKey ≠ [] ∧ (NotBlank s.email ∨ NotBlank s.phoneNumber)
  swap
  · obtain ⟨message, hrefused⟩ := h.unaccepted hs hstrips hfields
    have hbuild : build platform seams heap (.string (rstring s.eventKey)) s.isCommon (some event)
        (fieldOf s.ambientVisitorId) = .error (.validation message) := by
      unfold build
      rw [hrefused]
      rfl
    rw [hbuild]
    exact .inr ⟨fun haccepted => hfields ⟨haccepted.eventKey, haccepted.identity⟩, _, rfl, trivial⟩
  have hhead := h.head hs hstrips hfields.1 hfields.2
  obtain ⟨haccepts, honly⟩ := @PropertiesStand.built platform heap _ _ h.properties hs.properties
  cases ho : buildProperties platform heap event.properties with
  | error e =>
      have hbuild : build platform seams heap (.string (rstring s.eventKey)) s.isCommon (some event)
          (fieldOf s.ambientVisitorId) = .error e := by
        unfold build
        rw [hhead]
        show (buildProperties platform heap event.properties >>= _) = _
        rw [ho]
        rfl
      rw [hbuild]
      refine .inr ⟨?_, e, rfl, buildProperties_contained heap event.properties e ho⟩
      intro haccepted
      obtain ⟨o, hok⟩ := haccepts haccepted.numbers
      rw [ho] at hok
      cases hok
  | ok o =>
      obtain ⟨hrel, hnumbers⟩ := honly o ho
      obtain ⟨text, htext, htells⟩ := generate_tells hs hexports hfloats hrel
      have hbuild : build platform seams heap (.string (rstring s.eventKey)) s.isCommon (some event)
          (fieldOf s.ambientVisitorId) = .ok text := by
        unfold build
        simp only [bind_ok_iff]
        refine ⟨_, hhead, o, ho, ?_⟩
        simp only [htext]
        rfl
      rw [hbuild]
      exact .inl ⟨⟨hfields.1, hfields.2, hnumbers⟩, _, rfl, htells⟩

end Calls

end CekatEvents.Ruby
