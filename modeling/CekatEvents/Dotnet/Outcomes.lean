/-
  CekatEvents.Dotnet.Outcomes — what leaves `Build` of the .NET client, and what it writes.

  Strings of a `JsonElement` and the names of a parsed `JsonObject` are read without a guard, and what
  that throws leaves `Build`:

    * `build_contained_iff`  — only validation errors leave it exactly when the first thing wrong with the
                               properties is not such a reading;
    * `build_faithful_iff`   — names are written as they come, and a visitor that is not valid Unicode is left
                               out: no accepted event is written with a repeated name or without the
                               visitor chosen for it exactly when its containers repeat no name and
                               that visitor is valid Unicode.
-/
import CekatEvents.Dotnet.EventPayload
import CekatEvents.Effects.Outcome

namespace CekatEvents.Dotnet.EventPayload

open CekatEvents.Arithmetic CekatEvents.Effects CekatEvents.Encoding CekatEvents.Graph
  CekatEvents.JsonText CekatEvents.Payload

/-! ## §1. Unicode. -/

/-- **The loop over surrogates finds what is well-formed.** -/
theorem isValidUnicode_iff {s : List CodeUnit} : isValidUnicode s = true ↔ WellFormed s := by
  rw [wellFormed_iff]
  suffices heq : isValidUnicode s = (ofUtf16? s).isSome by rw [heq]
  induction s using isValidUnicode.induct with
  | case1 => rfl
  | case2 u =>
      unfold isValidUnicode ofUtf16?
      cases isHigh u || isLow u <;> rfl
  | case3 u v s h ih =>
      obtain ⟨hu, hv⟩ := Bool.and_eq_true_iff.mp h
      unfold isValidUnicode ofUtf16?
      simp only [hu, hv, Bool.and_self, if_true, Option.isSome_map, ih]
  | case4 u v s h h' =>
      unfold isValidUnicode ofUtf16?
      rw [if_neg h, if_pos h']
      cases hu : isHigh u with
      | true =>
          have hv : isLow v = false := by simpa [hu] using h
          simp [hv]
      | false =>
          have hlow : isLow u = true := by simpa [hu] using h'
          simp [hlow]
  | case5 u v s h h' ih =>
      obtain ⟨hu, hlow⟩ : isHigh u = false ∧ isLow u = false := by simpa using h'
      rw [isValidUnicode, ofUtf16?, if_neg h, if_neg h', hu, hlow]
      simpa using ih

/-! ## §2. What is thrown. -/

/-- Only validation errors. -/
def Raised.IsValidation : Raised → Prop
  | .validation _ => True
  | .foreign _ => False

abbrev Contained {α : Type} (x : Except Raised α) : Prop := Raises Raised.IsValidation x

/-- A string that is given is valid Unicode. -/
def OptionUnicode (s : Option (List CodeUnit)) : Prop := ∀ t ∈ s, WellFormed t

/-- The checks before anything is written are passed. -/
structure Checked (eventKey : Option (List CodeUnit)) (input : Option EventInput)
    (key : List CodeUnit) (ev : EventInput) : Prop where
  key_eq : eventKey = some key
  input_eq : input = some ev
  nonblank : isBlank isWhiteSpace key = false
  contact : isNullOrWhiteSpace ev.email = false ∨ isNullOrWhiteSpace ev.phoneNumber = false
  keyUnicode : WellFormed key
  email : OptionUnicode ev.email
  phoneNumber : OptionUnicode ev.phoneNumber
  contactName : OptionUnicode ev.contactName
  eventId : OptionUnicode ev.eventId

theorem isMalformed_eq_false_iff {s : Option (List CodeUnit)} :
    isMalformed s = false ↔ OptionUnicode s := by
  unfold isMalformed OptionUnicode
  cases s with
  | none => simp
  | some t =>
      rw [Option.any_some, Bool.not_eq_false', isValidUnicode_iff]
      simp

theorem check_contained (eventKey : Option (List CodeUnit)) (input : Option EventInput) :
    Contained (check eventKey input) := by
  unfold check
  split
  · exact raises_error_iff.mpr trivial
  · split_ifs
    · exact raises_error_iff.mpr trivial
    · split
      · exact raises_error_iff.mpr trivial
      · split_ifs
        · exact raises_error_iff.mpr trivial
        · split
          · exact raises_error_iff.mpr trivial
          · exact raises_ok

theorem check_ok_iff {eventKey : Option (List CodeUnit)} {input : Option EventInput}
    {key : List CodeUnit} {ev : EventInput} :
    check eventKey input = .ok (key, ev) ↔ Checked eventKey input key ev := by
  have hstrings : ∀ k i, ((checkedStrings k i).find? fun s => isMalformed s.2) = none ↔
      WellFormed k ∧ OptionUnicode i.email ∧ OptionUnicode i.phoneNumber ∧
        OptionUnicode i.contactName ∧ OptionUnicode i.eventId := by
    intro k i
    rw [List.find?_eq_none]
    unfold checkedStrings
    simp only [List.forall_mem_cons, Bool.not_eq_true, isMalformed_eq_false_iff]
    simp [OptionUnicode]
  constructor
  · intro h
    unfold check at h
    cases eventKey with
    | none => cases h
    | some k =>
        simp only at h
        split_ifs at h with hblank
        cases input with
        | none => cases h
        | some i =>
            simp only at h
            split_ifs at h with hcontact
            cases hfind : (checkedStrings k i).find? fun s => isMalformed s.2 with
            | some s => rw [hfind] at h; cases h
            | none =>
                rw [hfind] at h
                cases h
                obtain ⟨hk, he, hp, hc, hid⟩ := (hstrings _ _).mp hfind
                rw [Bool.and_eq_true, not_and_or, Bool.not_eq_true, Bool.not_eq_true] at hcontact
                exact ⟨rfl, rfl, by simpa using hblank, hcontact, hk, he, hp, hc, hid⟩
  · intro h
    have hfind := (hstrings key ev).mpr
      ⟨h.keyUnicode, h.email, h.phoneNumber, h.contactName, h.eventId⟩
    have hcontact : (isNullOrWhiteSpace ev.email && isNullOrWhiteSpace ev.phoneNumber) = false := by
      rw [Bool.and_eq_false_iff]
      exact h.contact
    rw [h.key_eq, h.input_eq]
    simp only [check, h.nonblank, hcontact, hfind, Bool.false_eq_true, if_false]

/-- **The first thing wrong with the properties, in the order they are written, is a string or a name
    that cannot be read.** -/
def FirstUnreadable (platform : Platform) (heap : Heap) (properties : Properties) : Prop :=
  ∃ x path e, root heap properties = some x ∧
    First (graph platform heap) (MaximumDepth + 1) [] [] x (path, .foreign e)

theorem raised_isValidation_iff {path : List Step} {f : Fault} :
    (f.raised path).IsValidation ↔ ∀ e, f ≠ .foreign e := by
  cases f with
  | foreign e => exact iff_of_false id (fun h => h e rfl)
  | _ => exact iff_of_true trivial (by simp)

/-- The ancestors are restored, so they can be handed down instead. -/
theorem writeProperties_eq {platform : Platform} {heap : Heap} {properties : Properties} {x : Item}
    (h : root heap properties = some x) :
    writeProperties platform heap properties =
      (walk (graph platform heap) (MaximumDepth + 1) [] [] x).mapError
        fun fault => fault.2.raised fault.1 := by
  unfold writeProperties
  rw [h]
  simp only [visit_eq]
  cases walk (graph platform heap) (MaximumDepth + 1) [] [] x with
  | error fault => rfl
  | ok w => rfl

theorem writeProperties_contained_iff {platform : Platform} {heap : Heap}
    {properties : Properties} :
    Contained (writeProperties platform heap properties) ↔
      ¬ FirstUnreadable platform heap properties := by
  unfold FirstUnreadable
  cases hroot : root heap properties with
  | none =>
      unfold writeProperties
      rw [hroot]
      exact iff_of_true (raises_error_iff.mpr trivial) (by simp)
  | some x =>
      rw [writeProperties_eq hroot]
      show Raises _ _ ↔ _
      rw [raises_mapError]
      constructor
      · intro h hfirst
        obtain ⟨y, path, e, hy, hfirst⟩ := hfirst
        cases hy
        exact raised_isValidation_iff.mp (h _ (walk_error_iff.mpr hfirst)) e rfl
      · intro h fault hfault
        apply raised_isValidation_iff.mpr
        intro e he
        exact h ⟨x, fault.1, e, rfl, he ▸ walk_error_iff.mp hfault⟩

/-- **The event gets as far as reading a string or a name that cannot be read.** -/
def ReadsUnreadable (platform : Platform) (heap : Heap) (eventKey : Option (List CodeUnit))
    (input : Option EventInput) : Prop :=
  ∃ key ev properties, Checked eventKey input key ev ∧ ev.properties = some properties ∧
    FirstUnreadable platform heap properties

/-- **`Build` returns or throws a validation error exactly when it does not come to something that cannot be
    read.** -/
theorem build_contained_iff (platform : Platform) (seams : Seams) (heap : Heap)
    (eventKey : Option (List CodeUnit)) (isCommon : Bool) (input : Option EventInput)
    (contextVisitorId : Option (List CodeUnit)) :
    Contained (build platform seams heap eventKey isCommon input contextVisitorId) ↔
      ¬ ReadsUnreadable platform heap eventKey input := by
  unfold build ReadsUnreadable
  show Raises _ (_ >>= _) ↔ _
  rw [raises_bind, and_iff_right (check_contained eventKey input)]
  constructor
  · intro h hread
    obtain ⟨key, ev, properties, hchecked, hproperties, hfirst⟩ := hread
    have h := h (key, ev) (check_ok_iff.mpr hchecked)
    simp only at h
    rw [raises_bind, hproperties] at h
    exact writeProperties_contained_iff.mp (raises_map.mp h.1) hfirst
  · intro h checked hchecked
    obtain ⟨key, ev⟩ := checked
    have hchecked := check_ok_iff.mp hchecked
    simp only
    rw [raises_bind]
    refine ⟨?_, ?_⟩
    · cases hp : ev.properties with
      | none => exact raises_ok
      | some properties =>
          have hwrite : Contained (writeProperties platform heap properties) := by
            apply writeProperties_contained_iff.mpr
            intro hfirst
            exact h ⟨key, ev, properties, hchecked, hp, hfirst⟩
          exact raises_map.mpr hwrite
    · intro properties _
      exact raises_ok

/-! ## §3. The names that are written. -/

/-- The names an element is written with. -/
def elementNames : Element → List (List CodeUnit)
  | .obj ms => ms.map Prod.fst
  | _ => []

/-- The names a container is written with. -/
def Cell.names : Cell → List (List CodeUnit)
  | .jsonObject o => o.members.map Prod.fst
  | .pairs ms => ms.map fun m => m.1.getD []
  | .dictionary entries => entries.map fun e => e.1.name
  | .jsonArray _ => []
  | .sequence _ => []

/-- The names a value is written with. -/
def Item.names (heap : Heap) : Item → List (List CodeUnit)
  | .element e => elementNames e
  | .jsonValue (some e) => elementNames e.element
  | .members ms => ms.map Prod.fst
  | .ref id => (heap id).names
  | _ => []

/-- **No container inside the properties repeats a name.** -/
def NoRepeats (platform : Platform) (heap : Heap) (x : Item) : Prop :=
  ∀ ancestors depth y, Reaches (graph platform heap) [] x ancestors depth y → (y.names heap).Nodup

/-- **The properties can be written**: they are an object, and nothing inside is faulty or deeper than 128
    levels. -/
def Writable (platform : Platform) (heap : Heap) (properties : Properties) (x : Item) : Prop :=
  root heap properties = some x ∧ Graph.Sound (graph platform heap) (MaximumDepth + 1) [] x

/-- What is written for a value: a scalar, an array, or an object with its names. -/
inductive Written (names : List (List CodeUnit)) :
    Shape Item Nat Step Fault (Value RawNumber) → Prop where
  | scalar {result : Except Fault (Value RawNumber)} :
      names = [] → (∀ w, result = .ok w → w.Distinct) → Written names (.leaf result)
  | array {ident : Option Nat} {opening : Option Fault} {entries : List (Entry Item Step Fault)} :
      names = [] → Written names (.node ident opening entries .arr)
  | object {ident : Option Nat} {opening : Option Fault} {entries : List (Entry Item Step Fault)} :
      entries.length = names.length → Written names (.node ident opening entries (object names))

theorem written_scalar {w : Value RawNumber} (h : w.Distinct) : Written [] (.leaf (.ok w)) := by
  apply Written.scalar rfl
  intro v hv
  cases hv
  exact h

theorem written_fault {f : Fault} : Written [] (.leaf (.error f)) := by
  apply Written.scalar rfl
  intro v hv
  cases hv

theorem written_integer (n : Int) : Written [] (.leaf (writeInteger n)) := by
  unfold writeInteger
  split_ifs
  · exact written_scalar trivial
  · exact written_fault

theorem written_floating (x : Double) (text : Finite → RawNumber) :
    Written [] (.leaf (writeFloating x text)) := by
  unfold writeFloating
  cases x.portable? with
  | none => exact written_fault
  | some y => exact written_scalar trivial

theorem written_element (platform : Platform) (e : Element) :
    Written (elementNames e) (elementShape platform e) := by
  cases e with
  | null => exact written_scalar trivial
  | bool b => exact written_scalar trivial
  | str s =>
      show Written [] (.leaf (if isValidUnicode s then _ else _))
      split_ifs
      · exact written_scalar trivial
      · exact written_fault
  | num n =>
      show Written [] (.leaf (writeNumber platform n))
      unfold writeNumber
      cases tryGetInt64 n.numeral with
      | some k => exact written_integer k
      | none =>
          simp only
          split_ifs
          · exact written_fault
          · cases platform.tryGetDouble n.numeral with
            | none => exact written_fault
            | some x => exact written_floating x _
  | arr xs => exact .array rfl
  | obj ms => exact .object (by simp [elementNames])

theorem written_shape (platform : Platform) (heap : Heap) (x : Item) :
    Written (x.names heap) (shape platform heap x) := by
  cases x with
  | null => exact written_scalar trivial
  | boolean b => exact written_scalar trivial
  | text s =>
      show Written [] (.leaf (if isValidUnicode s then _ else _))
      split_ifs
      · exact written_scalar trivial
      · exact written_fault
  | signed n => exact written_integer n
  | small n => exact written_scalar trivial
  | ulong n =>
      show Written [] (.leaf (if n ≤ maxSafeInteger then _ else _))
      split_ifs
      · exact written_scalar trivial
      · exact written_fault
  | single y => exact written_floating y _
  | double y => exact written_floating y _
  | decimal d =>
      show Written [] (.leaf (if unsafeIntegral d.value then _ else _))
      split_ifs
      · exact written_fault
      · exact written_scalar trivial
  | element e => exact written_element platform e
  | jsonValue written =>
      cases written with
      | none => exact written_fault
      | some e => exact written_element platform e.element
  | members ms => exact .object (by simp [Item.names])
  | other => exact written_fault
  | ref id =>
      show Written (heap id).names (cellShape id (heap id))
      cases heap id with
      | jsonArray items => exact .array rfl
      | sequence items => exact .array rfl
      | jsonObject o => exact .object (by simp [Cell.names])
      | pairs ms => exact .object (by simp [Cell.names])
      | dictionary entries => exact .object (by simp [Cell.names])

/-- Repeated names of a copy are repeated names of what is reached. -/
theorem local_distinct (platform : Platform) (heap : Heap) :
    Local (graph platform heap) Value.Distinct fun y => (y.names heap).Nodup where
  leaf := by
    intro x w hshape
    have hwritten := written_shape platform heap x
    rw [show shape platform heap x = .leaf (.ok w) from hshape] at hwritten
    cases hwritten with
    | scalar hnames hdistinct =>
        simp only [hnames]
        exact iff_of_true (hdistinct w rfl) List.nodup_nil
  node := by
    intro x ident opening entries build ws hshape hlen
    have hwritten := written_shape platform heap x
    rw [show shape platform heap x = .node ident opening entries build from hshape] at hwritten
    cases hwritten with
    | array hnames =>
        simp only [hnames]
        exact eachElem_iff.trans (and_iff_right List.nodup_nil).symm
    | object hnames => exact distinct_zip_iff (hlen.trans hnames)

/-! ## §4. What is written of an accepted event. -/

theorem writeProperties_ok_iff {platform : Platform} {heap : Heap} {properties : Properties} :
    (∃ v, writeProperties platform heap properties = .ok v) ↔
      ∃ x, Writable platform heap properties x := by
  unfold Writable
  cases hroot : root heap properties with
  | none =>
      unfold writeProperties
      rw [hroot]
      simp
  | some x =>
      rw [writeProperties_eq hroot]
      simp only [mapError_ok_iff, walk_ok_iff, Option.some.injEq, exists_eq_left']

/-- What is written repeats a name when a container does. -/
theorem writeProperties_distinct_iff {platform : Platform} {heap : Heap} {properties : Properties}
    {v : Value RawNumber} (h : writeProperties platform heap properties = .ok v) {x : Item}
    (hx : root heap properties = some x) : v.Distinct ↔ NoRepeats platform heap x := by
  rw [writeProperties_eq hx] at h
  exact (walk_copies (mapError_ok_iff.mp h)).forall_iff (local_distinct platform heap) []

theorem buildProperties_ok_iff {platform : Platform} {heap : Heap}
    {properties : Option Properties} :
    (∃ v, buildProperties platform heap properties = .ok v) ↔
      ∀ p, properties = some p → ∃ x, Writable platform heap p x := by
  cases properties with
  | none => exact iff_of_true ⟨none, rfl⟩ (by simp)
  | some p =>
      simp only [buildProperties, map_ok_iff, Option.some.injEq, forall_eq']
      rw [← writeProperties_ok_iff]
      constructor
      · intro h
        obtain ⟨o, v, hv, -⟩ := h
        exact ⟨v, hv⟩
      · intro h
        obtain ⟨v, hv⟩ := h
        exact ⟨some v, v, hv, rfl⟩

/-- The body an accepted event is written as. -/
theorem build_ok_iff {platform : Platform} {seams : Seams} {heap : Heap}
    {eventKey : Option (List CodeUnit)} {isCommon : Bool} {input : Option EventInput}
    {contextVisitorId : Option (List CodeUnit)} {text : List CodeUnit} :
    build platform seams heap eventKey isCommon input contextVisitorId = .ok text ↔
      ∃ key ev properties, Checked eventKey input key ev ∧
        buildProperties platform heap ev.properties = .ok properties ∧
        text = (({ bodyHead seams key isCommon ev contextVisitorId with
          properties := properties } : Body RawNumber).value.encode platform.encoder).text := by
  unfold build
  rw [bind_ok_iff]
  constructor
  · intro h
    obtain ⟨⟨key, ev⟩, hcheck, h⟩ := h
    simp only [bind_ok_iff] at h
    obtain ⟨properties, hproperties, h⟩ := h
    cases h
    exact ⟨key, ev, properties, check_ok_iff.mp hcheck, hproperties, rfl⟩
  · intro h
    obtain ⟨key, ev, properties, hchecked, hproperties, rfl⟩ := h
    refine ⟨(key, ev), check_ok_iff.mpr hchecked, ?_⟩
    simp only [bind_ok_iff]
    exact ⟨properties, hproperties, rfl⟩

/-- A body is written member by member. -/
theorem writes_body (platform : Platform) (b : Body RawNumber) :
    Writes (b.value.encode platform.encoder).text (b.map RawNumber.numeral).value := by
  rw [← Body.value_map]
  apply Encoder.writes
  · exact ⟨platform.piece_ok, fun n => ⟨n.wellFormed, rfl⟩⟩
  · exact ⟨platform.piece_decode, fun n => rfl⟩

theorem filter_isValidUnicode_iff {s : Option (List CodeUnit)} :
    s.filter isValidUnicode = s ↔ OptionUnicode s := by
  unfold OptionUnicode
  cases s with
  | none => simp
  | some t =>
      rw [Option.filter_some]
      cases h : isValidUnicode t with
      | true => simpa using isValidUnicode_iff.mp h
      | false =>
          have hbad : ¬ WellFormed t := by
            intro hwf
            rw [isValidUnicode_iff.mpr hwf] at h
            cases h
          simpa using hbad

/-- The text has no object with a repeated name, and the visitor chosen for the event. -/
def Faithful (input : Option EventInput) (contextVisitorId : Option (List CodeUnit))
    (text : List CodeUnit) : Prop :=
  ∃ ev v, input = some ev ∧ Writes text v ∧ v.Distinct ∧
    v.get (units "visitor_id") = (chosenVisitor ev contextVisitorId).map .str

/-- **What an accepted event is written with repeats no name and has the visitor chosen for it, exactly when
    its containers repeat none and that visitor is valid Unicode.** -/
theorem build_faithful_iff (platform : Platform) (seams : Seams) (heap : Heap)
    (eventKey : Option (List CodeUnit)) (isCommon : Bool) (input : Option EventInput)
    (contextVisitorId : Option (List CodeUnit)) :
    (∀ text, build platform seams heap eventKey isCommon input contextVisitorId = .ok text →
      Faithful input contextVisitorId text) ↔
    ∀ key ev, Checked eventKey input key ev →
      (∀ properties, ev.properties = some properties → ∃ x, Writable platform heap properties x) →
      OptionUnicode (chosenVisitor ev contextVisitorId) ∧
        ∀ properties x, ev.properties = some properties → Writable platform heap properties x →
          NoRepeats platform heap x := by
  constructor
  · intro h key ev hchecked hwritable
    obtain ⟨written, hwritten⟩ := buildProperties_ok_iff.mpr hwritable
    obtain ⟨ev', v, hinput, hwrites, hdistinct, hvisitor⟩ :=
      h _ (build_ok_iff.mpr ⟨key, ev, written, hchecked, hwritten, rfl⟩)
    rw [hchecked.input_eq, Option.some.injEq] at hinput
    subst hinput
    have hv := hwrites.unique (writes_body platform _)
    subst hv
    refine ⟨?_, ?_⟩
    · apply filter_isValidUnicode_iff.mp
      rw [Body.get_visitorId] at hvisitor
      exact Option.map_injective (fun _ _ h => Value.str.inj h) hvisitor
    · intro properties x hproperties hx
      rw [hproperties] at hwritten
      obtain ⟨w, hw, rfl⟩ := map_ok_iff.mp hwritten
      apply (writeProperties_distinct_iff hw hx.1).mp
      exact distinct_map.mp (Body.distinct_iff.mp hdistinct _ rfl)
  · intro h text htext
    obtain ⟨key, ev, written, hchecked, hwritten, rfl⟩ := build_ok_iff.mp htext
    obtain ⟨hvisitor, hnames⟩ := h key ev hchecked (buildProperties_ok_iff.mp ⟨_, hwritten⟩)
    refine ⟨ev, _, hchecked.input_eq, writes_body platform _, ?_, ?_⟩
    · apply Body.distinct_iff.mpr
      intro v hv
      obtain ⟨w, hw, rfl⟩ := Option.map_eq_some_iff.mp hv
      have hw : written = some w := hw
      apply distinct_map.mpr
      cases hp : ev.properties with
      | none =>
          rw [hp] at hwritten
          cases hwritten
          cases hw
      | some properties =>
          rw [hp] at hwritten
          obtain ⟨w', hok, hsome⟩ := map_ok_iff.mp hwritten
          rw [hw, Option.some.injEq] at hsome
          subst hsome
          obtain ⟨x, hx⟩ := writeProperties_ok_iff.mp ⟨_, hok⟩
          exact (writeProperties_distinct_iff hok hx.1).mpr (hnames properties x hp hx)
    · rw [Body.get_visitorId]
      show (((chosenVisitor ev contextVisitorId).filter isValidUnicode).map _) = _
      rw [filter_isValidUnicode_iff.mpr hvisitor]

/-! ## §5. Events that go wrong. -/

def fixedSeams : Seams := ⟨noon, ['i']⟩

/-- A decimal with all digits of its scale, as `decimal.ToString` gives it, but for where the point stands. -/
def scaledNumeral (d : Decimal) : RawNumber where
  numeral := ⟨d.neg, natDigits d.mantissa, none, some ⟨unit 'e', some (unit '-'), natDigits d.scale⟩⟩
  wellFormed := by
    refine ⟨natDigits_intPart _, ?_, ?_⟩
    · intro ds hds
      cases hds
    · intro e he
      cases he
      refine ⟨.inl rfl, ?_, natDigits_digits _⟩
      intro s hs
      cases hs
      exact .inr rfl

/-- A library that escapes what has to be escaped, and writes numbers by their exact values. -/
def plainPlatform : Platform where
  piece := minimalEscaping.piece
  piece_decode := Escaping.decode _
  piece_ok := Escaping.ok _
  singles := exactText
  doubles := exactText
  decimals := scaledNumeral
  tryGetDouble n := some (readDouble n)

/-- An event with an email, these properties and this visitor. -/
def emailEvent (properties : Option Properties) (visitorId : Option (List CodeUnit)) : EventInput :=
  ⟨some [unit 'e'], none, none, properties, visitorId, none, none⟩

/-- A key/value sequence with one key twice. -/
def repeatedKey : Heap := fun _ => .pairs [(some [unit 'a'], .null), (some [unit 'a'], .null)]

/-- The element `{"a": "\uD800"}`. -/
def unpairedElement : Element := .obj [([unit 'a'], .str [0xD800])]

/-- **An unpaired surrogate in an element throws an `InvalidOperationException`.** -/
theorem unpairedElement_thrown :
    build plainPlatform fixedSeams repeatedKey (some [unit 'k']) true
      (some (emailEvent (some (.element unpairedElement)) none)) none
        = .error (.foreign .invalidOperation) := rfl

/-- A body that repeats a name or has another visitor is not faithful. -/
theorem not_faithful {platform : Platform} {ev : EventInput} {b : Body RawNumber}
    (h : ¬ (b.value.Distinct ∧ b.visitorId.map (Value.str (ν := Numeral)) =
      (chosenVisitor ev none).map .str)) :
    ¬ Faithful (some ev) none (b.value.encode platform.encoder).text := by
  intro hfaithful
  obtain ⟨ev', v, hinput, hwrites, hdistinct, hvisitor⟩ := hfaithful
  cases hinput
  have hv := hwrites.unique (writes_body platform b)
  subst hv
  rw [Body.get_visitorId] at hvisitor
  rw [← Body.value_map] at hdistinct
  exact h ⟨distinct_map.mp hdistinct, hvisitor⟩

/-- **A key/value sequence with a repeated key is written with a repeated name, and an explicit visitor that
    is not valid Unicode is dropped.** -/
theorem accepted_not_faithful :
    (∃ text, build plainPlatform fixedSeams repeatedKey (some [unit 'k']) true
        (some (emailEvent (some (.ref 0)) none)) none = .ok text ∧
      ¬ Faithful (some (emailEvent (some (.ref 0)) none)) none text) ∧
    (∃ text, build plainPlatform fixedSeams repeatedKey (some [unit 'k']) true
        (some (emailEvent none (some [0xD800]))) none = .ok text ∧
      ¬ Faithful (some (emailEvent none (some [0xD800]))) none text) := by
  refine ⟨⟨_, rfl, ?_⟩, ⟨_, rfl, ?_⟩⟩
  · apply not_faithful
    intro h
    have hproperties := Body.distinct_iff.mp h.1 _ rfl
    exact absurd hproperties.1 (by decide)
  · apply not_faithful
    intro h
    -- the visitor is chosen, and filtered out
    have hvisitor : (none : Option (Value Numeral)) = some (.str [0xD800]) := h.2
    cases hvisitor

end CekatEvents.Dotnet.EventPayload
