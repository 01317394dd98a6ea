/-
  CekatEvents.Node.Orders — the order operations beside `customEvent`.

  An order is to be the same event with two members more.  The merge spreads the properties before
  anything looks at them: what a spread takes over of an array, a string, a class instance or through a
  getter or a proxy's trap is an ordinary object, which the validation then lets through; and the amount
  goes into it, which may be an integer too large to be sent.

  Main result: `order_adds_iff`.
-/
import CekatEvents.Node.Client
import CekatEvents.Node.Outcomes
import CekatEvents.Node.Spread

namespace CekatEvents.Node

open CekatEvents.Arithmetic CekatEvents.Effects CekatEvents.Encoding CekatEvents.JsonText

/-! ## §1. What orders promise. -/

/-- The members of an order. -/
def orderMembers (amount : Finite) (currency : Str) : List (Str × Value Finite) :=
  [(units "amount", .num amount), (units "currency", .str currency)]

section Properties

variable {ι : Type}

/-- The two properties of an order. -/
def orderEntries (amount : Finite) (currency : Str) : List (Key × Unknown ι) :=
  [(.string (units "amount"), .number (.finite amount)),
    (.string (units "currency"), .string currency)]

/-- The properties of an order: those that are spread, and its two. -/
def orderProperties (members : List (Key × Unknown ι)) (amount : Finite) (currency : Str) :
    List (Key × Unknown ι) :=
  members ++ orderEntries amount currency

/-- The event of an order. -/
def orderEvent (own : List (Key × Unknown ι)) (properties : ι) : List (Key × Unknown ι) :=
  putKey own (.string (units "properties")) (.object properties)

end Properties

section Promises

variable {ι σ : Type} (R : Realm ι σ)

/-- With room enough on the stack the call hands a payload to `deliver`. -/
def Accepts (run : Nat → JS ι σ (Settlement ι)) (s : σ) : Prop :=
  ∃ bound, ∀ frames ≥ bound, ∃ payload options t, run frames s = .ok (.delivering payload options) t

/-- **An order is accepted exactly where `customEvent` accepts the event**, and then sends what that
    sends, no properties counting as empty ones, and its two members, in whatever order. -/
structure AddsToCustom [DecidableEq ι] (visitor : Option Str) (operation : Operation)
    (args : Arguments ι) (amount : Finite) (currency : Str) (s : σ) : Prop where
  accepts : Accepts (fun frames => call R frames visitor operation args) s ↔
    Accepts (fun frames => call R frames visitor .customEvent args) s
  members : ∀ frames frames' p q options options' t u,
    call R frames visitor operation args s = .ok (.delivering p options) t →
    call R frames' visitor .customEvent args s = .ok (.delivering q options') u →
      ∃ ms ms', q.properties.getD (.obj []) = .obj ms ∧ p.properties = some (.obj ms') ∧
        ms'.Perm (ms ++ orderMembers amount currency)

/-- The properties are left out, or give the JSON of an object with these members. -/
def GivesMembers (properties : Unknown ι) (ms : List (Str × Value Finite)) (s : σ) : Prop :=
  (properties = .undefined ∧ ms = []) ∨ ∃ t, Yields R (.obj ms) [] properties s t

/-- The event is valid, and its properties give JSON where there are some. -/
def TakenAsIs (b : BuiltIns ι) (fields : String → Unknown ι) (s : σ) : Prop :=
  ValidFields b fields ∧
    (fields "properties" = .undefined ∨ ∃ w t, Yields R w [] (fields "properties") s t)

/-- The object of the properties of an order. -/
def newProperties (members : List (Key × Unknown ι)) (amount : Finite) (currency : Str) (s : σ) :
    ι × σ :=
  R.allocate (orderProperties members amount currency) s

/-- The object of the event, made after that of its properties. -/
def newEvent (own members : List (Key × Unknown ι)) (amount : Finite) (currency : Str) (s : σ) :
    ι × σ :=
  R.allocate (orderEvent own (newProperties R members amount currency s).1)
    (newProperties R members amount currency s).2

/-- **A spread of the properties gives these members**: asked for the two names they have neither, and
    what the spread takes over, through getters and traps, gives the JSON of the members when the two
    new objects are made. -/
def SpreadGives (order : List (Key × Unknown ι) → List (Key × Unknown ι)) (own : List (Key × Unknown ι))
    (properties : Unknown ι) (amount : Finite) (currency : Str) (ms : List (Str × Value Finite))
    (s : σ) : Prop :=
  ∃ u members v t, LacksOrderKeys R properties s u ∧ spread R properties u = .ok members v ∧
    EntriesYield R [(newProperties R members amount currency v).1] (order members) ms
      (newEvent R own members amount currency v).2 t

/-- The event is valid by its own enumerable properties, the amount is portable, and what a spread takes
    over of the properties gives JSON, under keys that are strings. -/
def TakenMerged (b : BuiltIns ι) (order : List (Key × Unknown ι) → List (Key × Unknown ι))
    (own : List (Key × Unknown ι)) (properties : Unknown ι) (amount : Finite) (currency : Str)
    (s : σ) : Prop :=
  ValidFields b (literalFields own) ∧ (Double.finite amount).Portable ∧
    ∃ ms, SpreadGives R order own properties amount currency ms s

/-- An order of a finite amount and a currency that is not blank, of an event whose properties have
    neither name.  Reading the event changes nothing, and nor do its properties when they are asked:
    `fields` are the values of its fields, `own` is what a spread takes over of it.  What the spread of
    the properties runs puts no field of events on `Object.prototype`.  The key is the one that
    `customEvent` is called with. -/
structure OrderCall (Ready : σ → Prop) (s : σ) (args : Arguments ι) (event : ι)
    (fields : String → Unknown ι) (own : List (Key × Unknown ι)) (amount : Finite)
    (currency : Str) : Prop where
  givenEvent : args.event = .object event
  object : R.callable event = false
  reads : ReadsFields R s event fields
  ownSpread : ∀ u, LacksOrderKeys R (fields "properties") s u → spread R (.object event) u = .ok own u
  lacks : ∀ u members v, LacksOrderKeys R (fields "properties") s u →
    spread R (fields "properties") u = .ok members v →
      ∀ name ∈ ["amount", "currency"], Key.string (units name) ∉ members.map Prod.fst
  ready : ∀ u members v, LacksOrderKeys R (fields "properties") s u →
    spread R (fields "properties") u = .ok members v → Ready v
  givenAmount : args.amount = .number (.finite amount)
  givenCurrency : args.currency = .string currency
  nonblank : trimUnits currency ≠ []
  key : args.eventKey.isNonblankString = true

end Promises

/-! ## §2. Payloads. -/

section Payloads

variable {ι σ : Type} [DecidableEq ι] {R : Realm ι σ} {b : BuiltIns ι} {s : σ} {event : ι}
  {fields : String → Unknown ι} {eventKey ambient : Unknown ι} {isCommon : Bool}

/-- An event that is taken is sent, with room enough. -/
theorem sent_of_taken (hR : R.Answers b) (isCommon : Bool) (hkey : eventKey.isNonblankString = true)
    (hobject : R.callable event = false) (hreads : ReadsFields R s event fields)
    (hambient : ambient.isText = true) (htaken : TakenAsIs R b fields s) :
    ∃ bound, ∀ frames ≥ bound, ∃ p t, buildPayload R frames eventKey isCommon
      (.object event) ambient s = .ok p t := by
  obtain ⟨hvalid, hproperties⟩ := htaken
  have hread := hreads "properties" (by decide)
  have hbuilt : ∀ frames, buildPayload R frames eventKey isCommon (.object event) ambient s = _ :=
    fun frames => buildPayload_valid hR hkey hobject hreads hvalid hambient
  rcases hproperties with hundefined | ⟨w, t, hyields⟩
  · refine ⟨0, fun frames _ => ⟨_, s, (hbuilt frames).trans (map_of_ok (a := none) ?_)⟩⟩
    rw [sentProperties_reads frames hread, hundefined]
    rfl
  · refine ⟨w.nesting + 1, fun frames hframes => ⟨_, t, (hbuilt frames).trans (map_of_ok (a := some w) ?_)⟩⟩
    have hcopied : copyJsonValue R frames [] _ (units "properties") s = _ :=
      copyJsonValue_of_yields hframes hyields
    rw [sentProperties_reads frames hread, defined_of_yields hyields, if_neg Bool.false_ne_true,
      map_of_ok hcopied]

/-- An event that is sent is taken, and its properties are what is sent of them. -/
theorem taken_of_sent (hR : R.Answers b) (hreads : ReadsFields R s event fields)
    (hobject : R.callable event = false) (hkey : eventKey.isNonblankString = true)
    (hambient : ambient.isText = true) {frames : Nat} {p : WirePayload ι} {t : σ}
    (hsent : buildPayload R frames eventKey isCommon (.object event) ambient s = .ok p t) :
    ValidFields b fields ∧ ((fields "properties" = .undefined ∧ p.properties = none) ∨
      ∃ w u, Yields R w [] (fields "properties") s u ∧ p.properties = some w) := by
  have hvalid := validFields_of_buildPayload hR hreads hambient hsent
  refine ⟨hvalid, ?_⟩
  rw [buildPayload_valid hR hkey hobject hreads hvalid hambient] at hsent
  have hproperties := sentProperties_reads frames (hreads "properties" (by decide))
  cases hundefined : (fields "properties").isUndefined with
  | true =>
      left
      rw [hundefined, if_pos rfl] at hproperties
      rw [map_of_ok hproperties] at hsent
      cases hsent
      exact ⟨Unknown.eq_undefined hundefined, rfl⟩
  | false =>
      right
      rw [hundefined, if_neg Bool.false_ne_true] at hproperties
      cases hcopy : copyJsonValue R frames [] (fields "properties") (units "properties") s with
      | error e u =>
          rw [map_of_error hcopy] at hproperties
          rw [map_of_error hproperties] at hsent
          cases hsent
      | ok copied u =>
          obtain ⟨w, ancestors⟩ := copied
          rw [map_of_ok hcopy] at hproperties
          rw [map_of_ok hproperties] at hsent
          cases hsent
          exact ⟨w, _, (yields_of_copyJsonValue hcopy).2, rfl⟩

end Payloads

/-! ## §3. Calls. -/

section Calls

variable {ι σ : Type} [DecidableEq ι] {R : Realm ι σ} {visitor : Option Str} {s t : σ}
  {p : WirePayload ι}

/-- What is tracked is what is built. -/
theorem track_delivering_iff {frames : Nat} {eventKey event given : Unknown ι} {isCommon : Bool} :
    (∃ options, track R frames visitor eventKey isCommon event given s
      = .ok (.delivering p options) t) ↔
      buildPayload R frames eventKey isCommon event (currentVisitorId visitor) s = .ok p t := by
  unfold track
  simp only [asynchronous_delivering_iff]
  constructor
  · intro h
    obtain ⟨options, h⟩ := h
    obtain ⟨payload, u, hbuilt, hpure⟩ := stateful_bind_ok_iff.mp h
    cases hpure
    exact hbuilt
  · intro hbuilt
    exact ⟨_, bind_of_ok hbuilt⟩

theorem customEvent_delivering_iff {frames : Nat} {args : Arguments ι} :
    (∃ options, call R frames visitor .customEvent args s = .ok (.delivering p options) t) ↔
      buildPayload R frames args.eventKey false args.event (currentVisitorId visitor) s = .ok p t :=
  track_delivering_iff

/-- What an order delivers is built of the merged event, under a key of its own. -/
theorem order_delivering_iff (R : Realm ι σ) (visitor : Option Str) {operation : Operation}
    (hoperation : operation = .orderCreated ∨ operation = .orderPaid) :
    ∃ eventKey : Unknown ι, eventKey.isNonblankString = true ∧ ∀ (frames : Nat) (args : Arguments ι)
      (s t : σ) (p : WirePayload ι),
      (∃ options, call R frames visitor operation args s = .ok (.delivering p options) t) ↔
        ∃ event u, withOrderPaidProperties R args.amount args.currency args.event s = .ok event u ∧
          buildPayload R frames eventKey true event (currentVisitorId visitor) u = .ok p t := by
  have hbind : ∀ (eventKey : Unknown ι) (frames : Nat) (args : Arguments ι) (s t : σ)
      (p : WirePayload ι),
      (∃ options, (withOrderPaidProperties R args.amount args.currency args.event >>= fun event =>
        track R frames visitor eventKey true event args.options) s = .ok (.delivering p options) t) ↔
      ∃ event u, withOrderPaidProperties R args.amount args.currency args.event s = .ok event u ∧
        buildPayload R frames eventKey true event (currentVisitorId visitor) u = .ok p t := by
    intro eventKey frames args s t p
    have htrack : ∀ event u, (∃ options, track R frames visitor eventKey true event args.options u
        = .ok (.delivering p options) t) ↔
        buildPayload R frames eventKey true event (currentVisitorId visitor) u = .ok p t :=
      fun event u => track_delivering_iff
    simp only [stateful_bind_ok_iff, ← htrack]
    constructor
    · intro h
      obtain ⟨options, event, u, hmerged, htrack⟩ := h
      exact ⟨event, u, hmerged, options, htrack⟩
    · intro h
      obtain ⟨event, u, hmerged, options, htrack⟩ := h
      exact ⟨options, event, u, hmerged, htrack⟩
  rcases hoperation with rfl | rfl
  · exact ⟨commonKey "order_created", rfl, fun frames args s t p =>
      hbind (commonKey "order_created") frames args s t p⟩
  · refine ⟨commonKey "order_paid", rfl, fun frames args s t p => ?_⟩
    rw [← hbind]
    apply exists_congr
    intro options
    exact asynchronous_delivering_iff

end Calls

/-! ## §4. Merged events. -/

section Merged

variable {ι σ : Type} {R : Realm ι σ} {b : BuiltIns ι}
  {order : List (Key × Unknown ι) → List (Key × Unknown ι)} {Ready : σ → Prop}
  {Fresh : ι → List (Key × Unknown ι) → σ → Prop} {s t : σ} {args : Arguments ι} {event : ι}
  {fields : String → Unknown ι} {own members : List (Key × Unknown ι)} {amount : Finite}
  {currency : Str}

theorem orderProperties_eq (hlacks : ∀ name ∈ ["amount", "currency"],
    Key.string (units name) ∉ members.map Prod.fst) :
    putKey (putKey members (.string (units "amount")) (Unknown.number (.finite amount)))
      (.string (units "currency")) (.string currency) = orderProperties members amount currency := by
  have hamount := hlacks "amount" (by decide)
  have hcurrency := hlacks "currency" (by decide)
  have hne : Key.string (units "currency") ≠ .string (units "amount") := by decide
  rw [putKey_of_fresh _ hamount, putKey_of_fresh, List.append_assoc]
  · rfl
  · rw [List.map_append, List.mem_append]
    intro hmem
    rcases hmem with hmem | hmem
    · exact hcurrency hmem
    · exact hne (List.mem_singleton.mp hmem)

theorem orderProperties_nodup (hnodup : (members.map Prod.fst).Nodup)
    (hlacks : ∀ name ∈ ["amount", "currency"], Key.string (units name) ∉ members.map Prod.fst) :
    ((orderProperties members amount currency).map Prod.fst).Nodup := by
  rw [← orderProperties_eq hlacks]
  exact putKey_nodup (putKey_nodup hnodup _ _) _ _

/-- **What the merge makes of an event.** -/
theorem withOrderPaidProperties_ok_iff
    (hcall : OrderCall R Ready s args event fields own amount currency) {e : Unknown ι} :
    withOrderPaidProperties R args.amount args.currency args.event s = .ok e t ↔
      ∃ u members v, LacksOrderKeys R (fields "properties") s u ∧
        spread R (fields "properties") u = .ok members v ∧
          e = .object (newEvent R own members amount currency v).1 ∧
            t = (newEvent R own members amount currency v).2 := by
  have hnonblank : (Unknown.string currency : Unknown ι).isNonblankString = true := by
    show (!decide (trimUnits currency = [])) = true
    rw [decide_eq_false hcall.nonblank]
    rfl
  rw [hcall.givenAmount, hcall.givenCurrency, hcall.givenEvent]
  unfold withOrderPaidProperties
  rw [if_pos (show (Unknown.number (.finite amount) : Unknown ι).isFiniteNumber = true from rfl),
    if_pos hnonblank]
  show (if R.callable event then _ else _ : JS ι σ (Unknown ι)) s = _ ↔ _
  rw [hcall.object, if_neg Bool.false_ne_true, bind_of_ok (hcall.reads "properties" (by decide)),
    stateful_bind_ok_iff]
  constructor
  · intro h
    obtain ⟨⟨⟩, u, hchecked, h⟩ := h
    have hlacks := checkProperties_ok_iff.mp hchecked
    unfold mergeOrder at h
    rw [bind_of_ok (hcall.ownSpread u hlacks)] at h
    obtain ⟨members, v, hspread, h⟩ := stateful_bind_ok_iff.mp h
    rw [orderProperties_eq (hcall.lacks u members v hlacks hspread)] at h
    cases h
    exact ⟨u, members, v, hlacks, hspread, rfl, rfl⟩
  · intro h
    obtain ⟨u, members, v, hlacks, hspread, rfl, rfl⟩ := h
    refine ⟨(), u, checkProperties_ok_iff.mpr hlacks, ?_⟩
    unfold mergeOrder
    rw [bind_of_ok (hcall.ownSpread u hlacks), bind_of_ok hspread,
      orderProperties_eq (hcall.lacks u members v hlacks hspread)]
    rfl

/-- The two members of an order give JSON where the amount is portable. -/
theorem entriesYield_order_iff {ancestors : List ι} {ms : List (Str × Value Finite)} :
    EntriesYield R ancestors (orderEntries amount currency) ms s t ↔
      (Double.finite amount).Portable ∧ ms = orderMembers amount currency ∧ s = t := by
  constructor
  · intro h
    obtain _ | ⟨⟨name, x⟩, _ | ⟨⟨name', y⟩, _ | ⟨m, ms⟩⟩⟩ := ms
    · exact absurd h id
    · obtain ⟨-, u, -, h⟩ := h
      exact absurd h id
    · obtain ⟨hname, u, hx, hname', v, hy, rfl⟩ := h
      obtain rfl : units "amount" = name := Key.string.inj hname
      obtain rfl : units "currency" = name' := Key.string.inj hname'
      obtain ⟨⟨z, rfl, hz⟩, rfl⟩ := yields_number_iff.mp hx
      obtain ⟨rfl, rfl⟩ := yields_string_iff.mp hy
      obtain ⟨hsame, hportable⟩ := portable?_eq_some_iff.mp hz
      cases hsame
      exact ⟨hportable, rfl, rfl⟩
    · obtain ⟨-, u, -, -, v, -, h⟩ := h
      exact absurd h id
  · intro h
    obtain ⟨hportable, rfl, rfl⟩ := h
    have hsends : (Double.finite amount).portable? = some amount :=
      portable?_eq_some_iff.mpr ⟨rfl, hportable⟩
    exact ⟨rfl, s, yields_number_iff.mpr ⟨⟨amount, rfl, hsends⟩, rfl⟩, rfl, s,
      yields_string_iff.mpr ⟨rfl, rfl⟩, rfl⟩

/-- **The JSON of the properties of an order.** -/
theorem entriesYield_orderProperties_iff (hmakes : R.MakesLiterals order Ready Fresh)
    {ancestors : List ι} {all : List (Str × Value Finite)} :
    EntriesYield R ancestors (order (orderProperties members amount currency)) all s t ↔
      (Double.finite amount).Portable ∧ ∃ ms, all = ms ++ orderMembers amount currency ∧
        EntriesYield R ancestors (order members) ms s t := by
  have happended : (∀ e ∈ members, ∃ name, e.1 = Key.string name) →
      order (orderProperties members amount currency)
        = order members ++ orderEntries amount currency := by
    intro hnames
    apply hmakes.appended members _ hnames
    intro e he
    rcases List.mem_pair.mp he with rfl | rfl
    · exact ⟨_, rfl, indexKey_ne_order (by decide)⟩
    · exact ⟨_, rfl, indexKey_ne_order (by decide)⟩
  constructor
  · intro h
    -- a symbol among the entries would have been refused
    have hnames : ∀ e ∈ members, ∃ name, e.1 = Key.string name := by
      intro e he
      apply names_of_entriesYield h e
      exact (hmakes.perm _).mem_iff.mpr (List.mem_append_left _ he)
    rw [happended hnames] at h
    obtain ⟨ms, ms', u, rfl, hmembers, horder⟩ := entriesYield_append_iff.mp h
    obtain ⟨hportable, rfl, rfl⟩ := entriesYield_order_iff.mp horder
    exact ⟨hportable, ms, rfl, hmembers⟩
  · intro h
    obtain ⟨hportable, ms, rfl, hmembers⟩ := h
    have hnames : ∀ e ∈ members, ∃ name, e.1 = Key.string name :=
      fun e he => names_of_entriesYield hmembers e ((hmakes.perm _).mem_iff.mpr he)
    rw [happended hnames]
    exact entriesYield_append_iff.mpr
      ⟨ms, _, t, rfl, hmembers, entriesYield_order_iff.mpr ⟨hportable, rfl, rfl⟩⟩

/-- **What the copier makes of the new properties.** -/
theorem yields_newProperties_iff (hmakes : R.MakesLiterals order Ready Fresh) (hready : Ready s)
    (hnodup : (members.map Prod.fst).Nodup)
    (hlacks : ∀ name ∈ ["amount", "currency"], Key.string (units name) ∉ members.map Prod.fst)
    (own : List (Key × Unknown ι)) {w : Value Finite} :
    Yields R w [] (.object (newProperties R members amount currency s).1)
      (newEvent R own members amount currency s).2 t ↔
      (Double.finite amount).Portable ∧ ∃ ms, w = .obj (ms ++ orderMembers amount currency) ∧
        EntriesYield R [(newProperties R members amount currency s).1] (order members) ms
          (newEvent R own members amount currency s).2 t := by
  have hfresh : Fresh (newProperties R members amount currency s).1
      (orderProperties members amount currency) (newEvent R own members amount currency s).2 :=
    hmakes.kept _ _ _ _
      (hmakes.fresh (orderProperties members amount currency) s hready
        (orderProperties_nodup hnodup hlacks))
  rw [yields_literal hmakes (orderProperties_nodup hnodup hlacks) hfresh]
  constructor
  · intro h
    obtain ⟨all, rfl, hentries⟩ := h
    obtain ⟨hportable, ms, rfl, hmembers⟩ := (entriesYield_orderProperties_iff hmakes).mp hentries
    exact ⟨hportable, ms, rfl, hmembers⟩
  · intro h
    obtain ⟨hportable, ms, rfl, hmembers⟩ := h
    exact ⟨_, rfl, (entriesYield_orderProperties_iff hmakes).mpr ⟨hportable, ms, rfl, hmembers⟩⟩

/-- The properties play no part in the validity of the other fields. -/
theorem validFields_orderEvent {properties : ι} :
    ValidFields b (literalFields (orderEvent own properties)) ↔ ValidFields b (literalFields own) := by
  have hother : ∀ name ∈ "occurredAt" :: stringFields,
      literalFields (orderEvent own properties) name = literalFields own name := by
    intro name hname
    have hne : Key.string (units name) ≠ .string (units "properties") := by
      revert name
      decide
    unfold literalFields orderEvent
    rw [getKey_putKey, if_neg hne]
  have htime := hother "occurredAt" List.mem_cons_self
  have hemail := hother "email" (by decide)
  have hphoneNumber := hother "phoneNumber" (by decide)
  constructor
  · intro hvalid
    refine ⟨?_, htime ▸ hvalid.year, hemail ▸ hphoneNumber ▸ hvalid.identity, htime ▸ hvalid.time⟩
    intro name hname
    rw [← hother name (List.mem_cons_of_mem _ hname)]
    exact hvalid.strings name hname
  · intro hvalid
    refine ⟨?_, htime ▸ hvalid.year, hemail ▸ hphoneNumber ▸ hvalid.identity, htime ▸ hvalid.time⟩
    intro name hname
    rw [hother name (List.mem_cons_of_mem _ hname)]
    exact hvalid.strings name hname

theorem literalFields_orderEvent_properties {properties : ι} :
    literalFields (orderEvent own properties) "properties" = .object properties := by
  unfold literalFields orderEvent
  rw [getKey_putKey, if_pos rfl]
  rfl

/-- The new event is read as it was made, and is no function. -/
theorem newEvent_reads (hmakes : R.MakesLiterals order Ready Fresh)
    (hnodup : (own.map Prod.fst).Nodup) (hready : Ready s) (members : List (Key × Unknown ι))
    (amount : Finite) (currency : Str) :
    R.callable (newEvent R own members amount currency s).1 = false ∧
      ReadsFields R (newEvent R own members amount currency s).2
        (newEvent R own members amount currency s).1
        (literalFields (orderEvent own (newProperties R members amount currency s).1)) := by
  have hfresh := hmakes.fresh (orderEvent own (newProperties R members amount currency s).1)
    (newProperties R members amount currency s).2 (hmakes.ready _ _ hready) (putKey_nodup hnodup _ _)
  exact ⟨hmakes.callable _ _ _ hfresh,
    hmakes.get _ _ _ (hmakes.ready _ _ (hmakes.ready _ _ hready)) hfresh⟩

/-- No own key of the event is there twice. -/
theorem OrderCall.nodup (hcall : OrderCall R Ready s args event fields own amount currency)
    (hmakes : R.MakesLiterals order Ready Fresh) {u : σ}
    (hlacks : LacksOrderKeys R (fields "properties") s u) : (own.map Prod.fst).Nodup :=
  spread_nodup hmakes.nodup (hcall.ownSpread u hlacks)

theorem currentVisitorId_isText (visitor : Option Str) :
    (currentVisitorId visitor : Unknown ι).isText = true := by
  cases visitor with
  | none => rfl
  | some s => rfl

end Merged

/-! ## §5. What is accepted. -/

section Accepted

variable {ι σ : Type} [DecidableEq ι] {R : Realm ι σ} {b : BuiltIns ι}
  {order : List (Key × Unknown ι) → List (Key × Unknown ι)} {Ready : σ → Prop}
  {Fresh : ι → List (Key × Unknown ι) → σ → Prop} {s t : σ} {args : Arguments ι} {event : ι}
  {fields : String → Unknown ι} {own : List (Key × Unknown ι)} {amount : Finite} {currency : Str}
  {visitor : Option Str} {operation : Operation} {p : WirePayload ι} {frames : Nat}

/-- What `customEvent` sends is taken as it is. -/
theorem customEvent_sent (hR : R.Answers b)
    (hcall : OrderCall R Ready s args event fields own amount currency)
    (hsent : ∃ options, call R frames visitor .customEvent args s = .ok (.delivering p options) t) :
    ValidFields b fields ∧ ((fields "properties" = .undefined ∧ p.properties = none) ∨
      ∃ w u, Yields R w [] (fields "properties") s u ∧ p.properties = some w) := by
  have hbuilt := customEvent_delivering_iff.mp hsent
  rw [hcall.givenEvent] at hbuilt
  exact taken_of_sent hR hcall.reads hcall.object hcall.key (currentVisitorId_isText visitor) hbuilt

theorem customEvent_accepts_iff (hR : R.Answers b)
    (hcall : OrderCall R Ready s args event fields own amount currency) :
    Accepts (fun frames => call R frames visitor .customEvent args) s ↔ TakenAsIs R b fields s := by
  constructor
  · intro haccepts
    obtain ⟨bound, hsent⟩ := haccepts
    obtain ⟨p, options, u, hsent⟩ := hsent bound (Nat.le_refl bound)
    obtain ⟨hvalid, hproperties⟩ := customEvent_sent hR hcall ⟨options, hsent⟩
    refine ⟨hvalid, ?_⟩
    rcases hproperties with ⟨hundefined, -⟩ | ⟨w, t, hyields, -⟩
    · exact .inl hundefined
    · exact .inr ⟨w, t, hyields⟩
  · intro htaken
    obtain ⟨bound, hsent⟩ := sent_of_taken hR false hcall.key hcall.object hcall.reads
      (currentVisitorId_isText visitor) htaken
    refine ⟨bound, fun frames hframes => ?_⟩
    obtain ⟨p, t, hbuilt⟩ := hsent frames hframes
    rw [← hcall.givenEvent] at hbuilt
    obtain ⟨options, hdelivering⟩ := customEvent_delivering_iff.mpr hbuilt
    exact ⟨p, options, t, hdelivering⟩

/-- What an order sends is taken as it is merged, and sent so. -/
theorem order_sent (hR : R.Answers b) (hmakes : R.MakesLiterals order Ready Fresh)
    (hcall : OrderCall R Ready s args event fields own amount currency)
    (hoperation : operation = .orderCreated ∨ operation = .orderPaid)
    (hsent : ∃ options, call R frames visitor operation args s = .ok (.delivering p options) t) :
    ValidFields b (literalFields own) ∧ (Double.finite amount).Portable ∧
      ∃ ms, SpreadGives R order own (fields "properties") amount currency ms s ∧
        p.properties = some (.obj (ms ++ orderMembers amount currency)) := by
  -- the order is built of the merged event, which is a literal of its own
  obtain ⟨eventKey, hkey, hdelivers⟩ := order_delivering_iff R visitor hoperation
  obtain ⟨e, v, hmerged, hbuilt⟩ := (hdelivers frames args s t p).mp hsent
  obtain ⟨u, members, v, hlacks, hspread, rfl, rfl⟩ := (withOrderPaidProperties_ok_iff hcall).mp hmerged
  have hready := hcall.ready u members v hlacks hspread
  obtain ⟨hobject, hreads⟩ := newEvent_reads hmakes (hcall.nodup hmakes hlacks) hready members amount
    currency
  obtain ⟨hvalid, hproperties⟩ := taken_of_sent hR hreads hobject hkey
    (currentVisitorId_isText visitor) hbuilt
  rw [literalFields_orderEvent_properties] at hproperties
  rcases hproperties with ⟨hundefined, -⟩ | ⟨w, z, hyields, hp⟩
  · cases hundefined
  · obtain ⟨hportable, ms, rfl, hentries⟩ := (yields_newProperties_iff hmakes hready
      (spread_nodup hmakes.nodup hspread) (hcall.lacks u members v hlacks hspread) own).mp hyields
    exact ⟨validFields_orderEvent.mp hvalid, hportable, ms,
      ⟨u, members, v, z, hlacks, hspread, hentries⟩, hp⟩

theorem order_accepts_iff (hR : R.Answers b) (hmakes : R.MakesLiterals order Ready Fresh)
    (hcall : OrderCall R Ready s args event fields own amount currency)
    (hoperation : operation = .orderCreated ∨ operation = .orderPaid) :
    Accepts (fun frames => call R frames visitor operation args) s ↔
      TakenMerged R b order own (fields "properties") amount currency s := by
  constructor
  · intro haccepts
    obtain ⟨bound, hsent⟩ := haccepts
    obtain ⟨p, options, u, hsent⟩ := hsent bound (Nat.le_refl bound)
    obtain ⟨hvalid, hportable, ms, hgives, -⟩ := order_sent hR hmakes hcall hoperation ⟨options, hsent⟩
    exact ⟨hvalid, hportable, ms, hgives⟩
  · intro htaken
    obtain ⟨hvalid, hportable, ms, u, members, v, z, hlacks, hspread, hentries⟩ := htaken
    obtain ⟨eventKey, hkey, hdelivers⟩ := order_delivering_iff R visitor hoperation
    have hready := hcall.ready u members v hlacks hspread
    obtain ⟨hobject, hreads⟩ := newEvent_reads hmakes (hcall.nodup hmakes hlacks) hready members amount
      currency
    have hyields := (yields_newProperties_iff hmakes hready (spread_nodup hmakes.nodup hspread)
      (hcall.lacks u members v hlacks hspread) own).mpr ⟨hportable, ms, rfl, hentries⟩
    have hmerged := (withOrderPaidProperties_ok_iff hcall).mpr ⟨u, members, v, hlacks, hspread, rfl, rfl⟩
    obtain ⟨bound, hsent⟩ := sent_of_taken hR true hkey hobject hreads (currentVisitorId_isText visitor)
      ⟨validFields_orderEvent.mpr hvalid, .inr ⟨_, z, literalFields_orderEvent_properties ▸ hyields⟩⟩
    refine ⟨bound, fun frames hframes => ?_⟩
    obtain ⟨p, t, hbuilt⟩ := hsent frames hframes
    obtain ⟨options, hdelivering⟩ := (hdelivers frames args s t p).mpr ⟨_, _, hmerged, hbuilt⟩
    exact ⟨p, options, t, hdelivering⟩

/-- A spread gives one list of members. -/
theorem SpreadGives.unique {ms ms' : List (Str × Value Finite)} {properties : Unknown ι}
    (h : SpreadGives R order own properties amount currency ms s)
    (h' : SpreadGives R order own properties amount currency ms' s) : ms = ms' := by
  obtain ⟨u, members, v, t, hlacks, hspread, hentries⟩ := h
  obtain ⟨u', members', v', t', hlacks', hspread', hentries'⟩ := h'
  have hchecked := checkProperties_ok_iff.mpr hlacks
  rw [checkProperties_ok_iff.mpr hlacks', EStateM.Result.ok.injEq] at hchecked
  obtain ⟨-, rfl⟩ := hchecked
  rw [hspread, EStateM.Result.ok.injEq] at hspread'
  obtain ⟨rfl, rfl⟩ := hspread'
  exact (hentries.unique hentries').1

end Accepted

/-! ## §6. Orders on a heap. -/

section Heaps

variable {env : Environment} {h t : Heap} {own members : List (Key × Unknown Address)}
  {properties : Unknown Address} {amount : Finite} {currency : Str} {ms : List (Str × Value Finite)}

/-- The heap of an order: the properties come first. -/
def orderHeap (t : Heap) (own members : List (Key × Unknown Address)) (amount : Finite)
    (currency : Str) : Heap :=
  (t.push (orderProperties members amount currency)).push (orderEvent own ⟨t.next, false⟩)

theorem lacksOrderKeys_heap_iff (hlacks : LacksOwn h properties) :
    LacksOrderKeys (heapRealm env) properties h t ↔ t = h := by
  rw [← checkProperties_ok_iff, checkProperties_heap hlacks, EStateM.Result.ok.injEq,
    and_iff_right rfl]
  exact eq_comm

/-- The two members of an order are JSON where the amount is portable. -/
theorem entriesMirror_order_iff :
    EntriesMirror h (orderEntries amount currency) ms ↔
      ms = orderMembers amount currency ∧ (Double.finite amount).Portable := by
  constructor
  · intro hentries
    obtain ⟨m, rest, ⟨hname, hx⟩, hrest, rfl⟩ := List.forall₂_cons_left_iff.mp hentries
    obtain ⟨m', rest', ⟨hname', hs⟩, hnil, rfl⟩ := List.forall₂_cons_left_iff.mp hrest
    rw [List.forall₂_nil_left_iff.mp hnil]
    obtain ⟨name, x⟩ := m
    obtain ⟨name', s⟩ := m'
    obtain rfl : units "amount" = name := Key.string.inj hname
    obtain rfl : units "currency" = name' := Key.string.inj hname'
    obtain ⟨y, rfl, hy⟩ := mirrors_number hx
    obtain ⟨hsame, hportable⟩ := portable?_eq_some_iff.mp (show Double.portable? _ = some y from hy)
    cases hsame
    obtain rfl := mirrors_string hs
    exact ⟨rfl, hportable⟩
  · intro hboth
    obtain ⟨rfl, hportable⟩ := hboth
    have hsends : SendsAs (.finite amount) amount := portable?_eq_some_iff.mpr ⟨rfl, hportable⟩
    exact .cons ⟨rfl, _, rfl, hsends⟩ (.cons ⟨rfl, rfl⟩ .nil)

/-- The JSON of the new properties, on the heap of the order. -/
theorem mirrors_orderHeap_iff (hclosed : t.Closed) (hbelow : MembersBelow t members)
    (hnodup : (members.map Prod.fst).Nodup)
    (hlacks : ∀ name ∈ ["amount", "currency"], Key.string (units name) ∉ members.map Prod.fst)
    (hportable : (Double.finite amount).Portable) (own : List (Key × Unknown Address))
    (currency : Str) (ms : List (Str × Value Finite)) :
    Mirrors (orderHeap t own members amount currency) SendsAs
      (.obj (ms ++ orderMembers amount currency)) (.object ⟨t.next, false⟩) ↔
      EntriesMirror t members ms := by
  have hagree : Agree t (orderHeap t own members amount currency) :=
    agree_push.trans agree_push (Nat.le_succ _)
  have hobject : (orderHeap t own members amount currency).objects ⟨t.next, false⟩
      = literal (orderProperties members amount currency) := by
    have hbefore : (orderHeap t own members amount currency).objects ⟨t.next, false⟩
        = (t.push (orderProperties members amount currency)).objects ⟨t.next, false⟩ :=
      agree_push _ (Nat.lt_succ_self t.next)
    rw [hbefore, push_objects_new]
  rw [mirrors_literal hobject rfl (orderProperties_nodup hnodup hlacks)]
  unfold orderProperties
  simp only [entriesMirror_append_iff, entriesMirror_agree hclosed hagree hbelow,
    entriesMirror_order_iff]
  constructor
  · intro hmirrors
    obtain ⟨_, hall, ms', _, rfl, hentries, rfl, -⟩ := hmirrors
    obtain rfl : ms = ms' := List.append_cancel_right (Value.obj.inj hall)
    exact hentries
  · intro hentries
    exact ⟨_, rfl, ms, _, rfl, hentries, rfl, hportable⟩

/-- **On a heap a spread gives the members** that the entries it takes over are. -/
theorem spreadGives_heap_iff (hsound : env.Sound) (hclosed : h.Closed) (hpristine : h.Pristine)
    (hbelow : properties.Below h.next) (hlacks : LacksOwn h properties)
    (hportable : (Double.finite amount).Portable) :
    SpreadGives (heapRealm env) id own properties amount currency ms h ↔
      ∃ members t, spread (heapRealm env) properties h = .ok members t ∧ EntriesMirror t members ms := by
  -- the new object gives the JSON that it is, and the two members more make no difference
  have hentries : ∀ {members t u}, spread (heapRealm env) properties h = .ok members t →
      (EntriesYield (heapRealm env) [⟨t.next, false⟩] members ms
          (orderHeap t own members amount currency) u ↔
        EntriesMirror t members ms ∧ u = orderHeap t own members amount currency) := by
    intro members t u hspread
    obtain ⟨hfollows, hmembers⟩ := spread_sound hsound hclosed hpristine hbelow hspread
    have hnodup := spread_nodup (heapRealm_makesLiterals env).nodup hspread
    have hnames : ∀ name ∈ ["amount", "currency"], Key.string (units name) ∉ members.map Prod.fst :=
      fun name hname => spread_lacks hlacks hspread hname
    rw [← mirrors_orderHeap_iff hfollows.closed hmembers hnodup hnames hportable own currency ms,
      ← yields_heap_iff]
    refine Iff.trans ?_ (yields_newProperties_iff (heapRealm_makesLiterals env) hfollows.pristine hnodup
      hnames own).symm
    constructor
    · intro hyields
      exact ⟨hportable, ms, rfl, hyields⟩
    · intro hyields
      obtain ⟨-, ms', hall, hyields⟩ := hyields
      obtain rfl : ms = ms' := List.append_cancel_right (Value.obj.inj hall)
      exact hyields
  constructor
  · intro hgives
    obtain ⟨u, members, v, z, hchecked, hspread, hyields⟩ := hgives
    obtain rfl := (lacksOrderKeys_heap_iff hlacks).mp hchecked
    exact ⟨members, v, hspread, ((hentries hspread).mp hyields).1⟩
  · intro hmirror
    obtain ⟨members, t, hspread, hmirror⟩ := hmirror
    exact ⟨h, members, t, _, (lacksOrderKeys_heap_iff hlacks).mpr rfl, hspread,
      (hentries hspread).mpr ⟨hmirror, rfl⟩⟩

/-- **Without proxies a spread reads what is there**: JSON of an object is spread into its members. -/
theorem spreadGives_of_givesMembers (hsound : env.Sound) (hclosed : h.Closed) (hpristine : h.Pristine)
    (hbelow : properties.Below h.next) (hlacks : LacksOwn h properties)
    (hportable : (Double.finite amount).Portable)
    (hgives : GivesMembers (heapRealm env) properties ms h) :
    SpreadGives (heapRealm env) id own properties amount currency ms h := by
  rw [spreadGives_heap_iff hsound hclosed hpristine hbelow hlacks hportable]
  rcases hgives with ⟨rfl, rfl⟩ | ⟨t, hyields⟩
  · exact ⟨[], h, rfl, .nil⟩
  · obtain ⟨members, hspread, hentries⟩ := spread_of_mirrors (yields_heap_iff.mp hyields).1
    exact ⟨members, h, hspread, hentries⟩

/-- An order of an event on a heap in order. -/
theorem orderCall_heap {args : Arguments Address} {event : Address} {fields : String → Unknown Address}
    (hsound : env.Sound) (hclosed : h.Closed) (hpristine : h.Pristine)
    (hbelow : (fields "properties").Below h.next) (hlacks : LacksOwn h (fields "properties"))
    (hgiven : args.event = .object event) (hobject : event.callable = false)
    (hreads : ReadsFields (heapRealm env) h event fields)
    (hown : spread (heapRealm env) (.object event) h = .ok own h)
    (hamount : args.amount = .number (.finite amount)) (hcurrency : args.currency = .string currency)
    (hnonblank : trimUnits currency ≠ []) (hkey : args.eventKey.isNonblankString = true) :
    OrderCall (heapRealm env) Heap.Pristine h args event fields own amount currency where
  givenEvent := hgiven
  object := hobject
  reads := hreads
  ownSpread u hchecked := by
    rw [(lacksOrderKeys_heap_iff hlacks).mp hchecked]
    exact hown
  lacks u members v hchecked hspread name hname := by
    rw [(lacksOrderKeys_heap_iff hlacks).mp hchecked] at hspread
    exact spread_lacks hlacks hspread hname
  ready u members v hchecked hspread := by
    rw [(lacksOrderKeys_heap_iff hlacks).mp hchecked] at hspread
    exact (spread_sound hsound hclosed hpristine hbelow hspread).1.pristine
  givenAmount := hamount
  givenCurrency := hcurrency
  nonblank := hnonblank
  key := hkey

end Heaps

/-! ## §7. Where an order adds to a custom event. -/

/-- The members that are given, if there are any, are those of what is sent. -/
theorem sent_members {ι σ : Type} [DecidableEq ι] {R : Realm ι σ} {properties : Unknown ι} {s : σ}
    {ms : List (Str × Value Finite)} {sent : Option (Value Finite)}
    (hgives : GivesMembers R properties ms s)
    (hsent : (properties = .undefined ∧ sent = none) ∨
      ∃ w t, Yields R w [] properties s t ∧ sent = some w) : sent.getD (.obj []) = .obj ms := by
  rcases hgives with ⟨rfl, rfl⟩ | ⟨t, hyields⟩
  · rcases hsent with ⟨-, rfl⟩ | ⟨w, t, hyields, -⟩
    · rfl
    · cases defined_of_yields hyields
  · rcases hsent with ⟨rfl, -⟩ | ⟨w, t', hyields', rfl⟩
    · cases defined_of_yields hyields
    · exact (hyields'.unique hyields).1

/-- What is sent as an object is given. -/
theorem givesMembers_of_sent {ι σ : Type} {R : Realm ι σ} {properties : Unknown ι} {s : σ}
    {ms : List (Str × Value Finite)} {sent : Option (Value Finite)}
    (hsent : (properties = .undefined ∧ sent = none) ∨
      ∃ w t, Yields R w [] properties s t ∧ sent = some w)
    (hobject : sent.getD (.obj []) = .obj ms) : GivesMembers R properties ms s := by
  rcases hsent with ⟨hundefined, rfl⟩ | ⟨w, t, hyields, rfl⟩
  · cases hobject
    exact .inl ⟨hundefined, rfl⟩
  · obtain rfl : w = .obj ms := hobject
    exact .inr ⟨t, hyields⟩

/-- Properties that give members are taken. -/
theorem takenAsIs_of_gives {ι σ : Type} {R : Realm ι σ} {b : BuiltIns ι} {s : σ}
    {fields : String → Unknown ι} {ms : List (Str × Value Finite)} (hvalid : ValidFields b fields)
    (hgives : GivesMembers R (fields "properties") ms s) : TakenAsIs R b fields s := by
  refine ⟨hvalid, ?_⟩
  rcases hgives with ⟨hundefined, -⟩ | ⟨t, hyields⟩
  · exact .inl hundefined
  · exact .inr ⟨_, t, hyields⟩

/-- **An order adds its two members to what `customEvent` sends exactly where** the amount is portable,
    the properties are left out or give the JSON of an object, and a spread of them, which reads them
    once more, gives the same members; or where neither of the two is accepted. -/
theorem order_adds_iff {ι σ : Type} [DecidableEq ι] {R : Realm ι σ} {b : BuiltIns ι}
    {order : List (Key × Unknown ι) → List (Key × Unknown ι)} {Ready : σ → Prop}
    {Fresh : ι → List (Key × Unknown ι) → σ → Prop} (hR : R.Answers b)
    (hmakes : R.MakesLiterals order Ready Fresh) {s : σ} {args : Arguments ι} {event : ι}
    {fields : String → Unknown ι} {own : List (Key × Unknown ι)} {amount : Finite} {currency : Str}
    (hcall : OrderCall R Ready s args event fields own amount currency) (visitor : Option Str)
    {operation : Operation} (hoperation : operation = .orderCreated ∨ operation = .orderPaid) :
    AddsToCustom R visitor operation args amount currency s ↔
      (ValidFields b fields ∧ ValidFields b (literalFields own) ∧ (Double.finite amount).Portable ∧
        ∃ ms ms', GivesMembers R (fields "properties") ms s ∧
          SpreadGives R order own (fields "properties") amount currency ms' s ∧ ms'.Perm ms) ∨
      (¬ TakenAsIs R b fields s ∧
        ¬ TakenMerged R b order own (fields "properties") amount currency s) := by
  have horder : Accepts (fun frames => call R frames visitor operation args) s ↔ _ :=
    order_accepts_iff hR hmakes hcall hoperation
  have hcustom : Accepts (fun frames => call R frames visitor .customEvent args) s ↔ _ :=
    customEvent_accepts_iff hR hcall
  constructor
  · intro hadds
    by_cases htaken : TakenAsIs R b fields s
    · left
      -- both are sent, and what `customEvent` sends has to be an object
      have haccepts := hcustom.mpr htaken
      obtain ⟨bound', hpaid⟩ := hadds.accepts.mpr haccepts
      obtain ⟨bound, hplain⟩ := haccepts
      obtain ⟨q, options', u, hq⟩ := hplain bound (Nat.le_refl _)
      obtain ⟨p, options, t, hp⟩ := hpaid bound' (Nat.le_refl _)
      obtain ⟨ms, all, hms, hall, hperm⟩ := hadds.members _ _ _ _ _ _ _ _ hp hq
      obtain ⟨hvalid, hsent⟩ := customEvent_sent hR hcall ⟨options', hq⟩
      obtain ⟨hown, hportable, ms', hgives, hp⟩ := order_sent hR hmakes hcall hoperation ⟨options, hp⟩
      rw [hall] at hp
      cases hp
      exact ⟨hvalid, hown, hportable, ms, ms', givesMembers_of_sent hsent hms, hgives,
        (List.perm_append_right_iff _).mp hperm⟩
    · exact .inr ⟨htaken, fun hmerged => htaken (hcustom.mp (hadds.accepts.mp (horder.mpr hmerged)))⟩
  · intro hwhen
    rcases hwhen with ⟨hvalid, hown, hportable, ms, ms', hgives, hspread, hperm⟩ | ⟨hnot, hnot'⟩
    · refine ⟨?_, ?_⟩
      · rw [horder, hcustom]
        exact iff_of_true ⟨hown, hportable, ms', hspread⟩ (takenAsIs_of_gives hvalid hgives)
      · intro frames frames' p q options options' t u hp hq
        obtain ⟨-, hsent⟩ := customEvent_sent hR hcall ⟨options', hq⟩
        obtain ⟨-, -, ms'', hspread', hp⟩ := order_sent hR hmakes hcall hoperation ⟨options, hp⟩
        -- the spread gives the same members again
        obtain rfl := hspread.unique hspread'
        exact ⟨ms, _, sent_members hgives hsent, hp, hperm.append_right _⟩
    · refine ⟨?_, ?_⟩
      · rw [horder, hcustom]
        exact iff_of_false hnot' hnot
      · intro frames frames' p q options options' t u hp hq
        obtain ⟨hvalid, hsent⟩ := customEvent_sent hR hcall ⟨options', hq⟩
        refine absurd ⟨hvalid, ?_⟩ hnot
        rcases hsent with ⟨hundefined, -⟩ | ⟨w, t, hyields, -⟩
        · exact .inl hundefined
        · exact .inr ⟨w, t, hyields⟩

/-! ## §8. Two orders. -/

/-- The amount 0. -/
def nothing : Finite := ⟨false, 0, -1074, by decide, by decide, by decide, .inr rfl⟩

theorem nothing_portable : (Double.finite nothing).Portable := by
  refine ⟨nothing, rfl, ?_⟩
  have hvalue : nothing.value = 0 := by
    show ((0 : Nat) : ℚ) * _ = 0
    simp
  rw [hvalue, abs_zero]
  intro hlarge
  exact absurd hlarge.2 (not_lt.mpr (Nat.cast_nonneg _))

/-- The arguments of an order of nothing, and of a custom event. -/
def orderArguments : Arguments Address :=
  ⟨.number (.finite nothing), .string (units "IDR"), .string (units "order_viewed"),
    .object ⟨1, false⟩, .undefined⟩

theorem emailEvent_valid (properties : Unknown Address) :
    ValidFields quietEnvironment.toBuiltIns (literalFields (emailEvent properties)) :=
  (eventHeap_valid properties).valid

/-- No getter runs. -/
theorem quietEnvironment_sound : quietEnvironment.Sound := by
  intro _ _ _ _ _ _ _ hreturns
  cases hreturns

/-- An order of the event of an email. -/
theorem emailEvent_call {h : Heap} {properties : Unknown Address}
    (hobject : h.objects ⟨1, false⟩ = literal (emailEvent properties)) (hclosed : h.Closed)
    (hpristine : h.Pristine) (hbelow : properties.Below h.next) (hlacks : LacksOwn h properties) :
    OrderCall (heapRealm quietEnvironment) Heap.Pristine h orderArguments ⟨1, false⟩
      (literalFields (emailEvent properties)) (emailEvent properties) nothing (units "IDR") := by
  have hreads := readsFields_literal quietEnvironment hobject (emailEvent_nodup properties) hpristine
  have hspread : spread (heapRealm quietEnvironment) (.object ⟨1, false⟩) h = _ :=
    spread_literal hobject (emailEvent_nodup properties)
  exact orderCall_heap quietEnvironment_sound hclosed hpristine hbelow hlacks rfl rfl hreads hspread rfl
    rfl (by decide) (by decide)

/-- An order whose properties are an object adds its members to them. -/
theorem record_order_adds : AddsToCustom (heapRealm quietEnvironment) none .orderPaid orderArguments
    nothing (units "IDR") (eventHeap (.object ⟨2, false⟩)) := by
  have hclosed : (eventHeap (.object ⟨2, false⟩)).Closed := eventHeap_closed (Nat.lt_succ_self 2)
  have hpristine : (eventHeap (.object ⟨2, false⟩)).Pristine :=
    ⟨Nat.zero_lt_succ 2, rfl, fun _ _ => rfl⟩
  have hlacks : LacksOwn (eventHeap (.object ⟨2, false⟩)) (.object ⟨2, false⟩) := by
    intro o ho name _
    cases ho
    rfl
  have hbelow : Unknown.Below (eventHeap (.object ⟨2, false⟩)).next (.object ⟨2, false⟩) :=
    Nat.lt_succ_self 2
  have hcall := emailEvent_call rfl hclosed hpristine hbelow hlacks
  have hmirrors : Mirrors (eventHeap (.object ⟨2, false⟩)) SendsAs (.obj []) (.object ⟨2, false⟩) :=
    ⟨_, rfl, ⟨rfl, rfl, rfl, .inr rfl⟩, rfl, trivial⟩
  have hgives : GivesMembers (heapRealm quietEnvironment) (.object ⟨2, false⟩) [] _ :=
    .inr ⟨_, yields_heap_iff.mpr ⟨hmirrors, rfl⟩⟩
  have hspread : SpreadGives (heapRealm quietEnvironment) id (emailEvent (.object ⟨2, false⟩)) _ nothing
      (units "IDR") [] _ :=
    spreadGives_of_givesMembers quietEnvironment_sound hclosed hpristine hbelow hlacks nothing_portable
      hgives
  exact (order_adds_iff (heapRealm_answers _) (heapRealm_makesLiterals _) hcall none (.inr rfl)).mpr
    (.inl ⟨emailEvent_valid _, emailEvent_valid _, nothing_portable, [], [], hgives, hspread, .nil⟩)

/-- A heap where the properties of the event are of a class. -/
def classHeap : Heap where
  objects o :=
    if o.index = 2 then { bareObject with prototype := some ⟨3, false⟩ }
    else (eventHeap (.object ⟨2, false⟩)).objects o
  next := 4

theorem classHeap_closed : classHeap.Closed := by
  intro o _ key value hvalue
  have hown : (classHeap.objects o).getOwn (.string key) = some (.data value true) := hvalue
  by_cases hindex : o.index = 2
  · rw [show classHeap.objects o = _ from if_pos hindex] at hown
    cases hown
  · rw [show classHeap.objects o = _ from if_neg hindex] at hown
    have hproperties : Unknown.Below 3 (.object ⟨2, false⟩) := Nat.lt_succ_self 2
    have hbelow : value.Below 3 := eventHeap_below hproperties hown
    exact hbelow.mono (Nat.le_succ 3)

/-- **An order whose properties are of a class** is accepted, and the event is not. -/
theorem class_order_accepted : ¬ AddsToCustom (heapRealm quietEnvironment) none .orderPaid
    orderArguments nothing (units "IDR") classHeap := by
  intro hadds
  have hpristine : classHeap.Pristine := ⟨Nat.zero_lt_succ 3, rfl, fun _ _ => rfl⟩
  have hbelow : Unknown.Below classHeap.next (.object ⟨2, false⟩) := show 2 < 4 by decide
  have hlacks : LacksOwn classHeap (.object ⟨2, false⟩) := by
    intro o ho name _
    cases ho
    rfl
  have hcall := emailEvent_call rfl classHeap_closed hpristine hbelow hlacks
  have hgives : SpreadGives (heapRealm quietEnvironment) id (emailEvent (.object ⟨2, false⟩))
      (.object ⟨2, false⟩) nothing (units "IDR") [] classHeap :=
    (spreadGives_heap_iff quietEnvironment_sound classHeap_closed hpristine hbelow hlacks
      nothing_portable).mpr ⟨[], classHeap, rfl, .nil⟩
  have haccepts := hadds.accepts.mp ((order_accepts_iff (heapRealm_answers _)
    (heapRealm_makesLiterals _) hcall (.inr rfl)).mpr
      ⟨emailEvent_valid _, nothing_portable, [], hgives⟩)
  obtain ⟨-, hundefined | ⟨w, t, hyields⟩⟩ :=
    (customEvent_accepts_iff (heapRealm_answers _) hcall).mp haccepts
  · cases hundefined
  · have hmirrors : Mirrors classHeap SendsAs w (.object ⟨2, false⟩) := (yields_heap_iff.mp hyields).1
    obtain ⟨ms, rfl⟩ := obj_of_mirrors hmirrors rfl
    obtain ⟨o, ho, hplain, -⟩ := hmirrors
    cases ho
    rcases hplain.prototype with hprototype | hprototype <;> cases hprototype

end CekatEvents.Node
