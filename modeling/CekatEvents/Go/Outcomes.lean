/-
  CekatEvents.Go.Outcomes — what the request bodies of the Go client hold.

  A body is a text of JSON in UTF-8, whatever the bytes of the strings that went into it: a byte that is
  not UTF-8 is written as U+FFFD.  An identity is then not the caller's any more, and the call is not
  refused.

  Main result: `body_faithful_iff` — the body of an accepted event holds the event key and the identity
  of the caller byte for byte exactly when these strings are valid UTF-8.
-/
import CekatEvents.Effects.Outcome
import CekatEvents.Go.Validation
import CekatEvents.JsonText.Entries
import CekatEvents.JsonText.Texts
import CekatEvents.Payload.Body

namespace CekatEvents.Go

open CekatEvents.Effects CekatEvents.Encoding CekatEvents.JsonText CekatEvents.Payload

/-! ## §1. Strings that are written. -/

/-- What is written for a rune stands for it. -/
theorem runePieces_decode (r : Option Char) :
    decodeString hexUnit (runePieces r) = utf16Char (r.getD replacement) := by
  cases r with
  | none => decide
  | some c =>
      show ((utf16Char c).map htmlEscaping.piece).map (Piece.decode hexUnit) = utf16Char c
      rw [List.map_map]
      conv_rhs => rw [← List.map_id (utf16Char c)]
      apply List.map_congr_left
      intro u _
      exact htmlEscaping.decode u

/-- **A string is written with every byte that is not UTF-8 replaced.** -/
theorem stringPieces_decode (s : Bytes) :
    decodeString hexUnit (stringPieces s) = utf16 (ofUtf8Bytewise s) := by
  unfold stringPieces ofUtf8Bytewise
  induction runes s with
  | nil => rfl
  | cons r rs ih =>
      rw [List.flatMap_cons, List.map_cons, utf16_cons, ← ih, ← runePieces_decode r]
      exact List.map_append

theorem runePieces_ok (r : Option Char) : PiecesOk rfc8259 (runePieces r) := by
  intro p hp
  cases r with
  | none =>
      rw [List.mem_singleton.mp hp]
      exact hexPiece_strict _
  | some c =>
      obtain ⟨u, -, rfl⟩ := List.mem_map.mp hp
      exact htmlEscaping.ok u

theorem stringPieces_ok (s : Bytes) : PiecesOk rfc8259 (stringPieces s) := by
  intro p hp
  obtain ⟨r, -, hr⟩ := List.mem_flatMap.mp hp
  exact runePieces_ok r p hr

theorem stringPieces_clean (s : Bytes) : CleanPieces (stringPieces s) := by
  have hseamless := htmlEscaping.seamless (ν := Numeral) id
  apply (wellFormed_bracketed (by decide) (by decide)).mpr
  unfold stringPieces
  induction runes s with
  | nil => exact .nil
  | cons r rs ih =>
      rw [List.flatMap_cons, List.flatMap_append]
      apply WellFormed.append _ ih
      cases r with
      | none => exact WellFormed.of_ascii (by decide)
      | some c =>
          have hclean := hseamless.string (s := utf16 [c]) ⟨[c], rfl⟩
          rw [CleanPieces, literalText, wellFormed_bracketed (by decide) (by decide), utf16_cons,
            utf16_nil, List.append_nil] at hclean
          exact hclean

/-- A name that needs no escape. -/
theorem fieldName_decode (name : String) :
    decodeString hexUnit ((units name).map .plain) = units name := by
  unfold decodeString
  rw [List.map_map]
  exact List.map_id _

/-! ## §2. Properties that are decoded. -/

theorem anyElems_eq_map (xs : List Ast) : anyElems xs = xs.map anyValue := by
  induction xs with
  | nil => rfl
  | cons x xs ih => rw [anyElems, ih, List.map_cons]

/-- The members of a map: distinct keys, each with the value of a member. -/
theorem anyMembers_spec {C : List CodeUnit × Value Numeral → Prop}
    (ms : List (List Piece × Ast)) (acc : List (List CodeUnit × Value Numeral))
    (hms : ∀ m ∈ ms, C (utf16 (goString m.1), anyValue m.2)) (hacc : ∀ e ∈ acc, C e)
    (hnodup : (acc.map Prod.fst).Nodup) :
    (∀ e ∈ anyMembers acc ms, C e) ∧ ((anyMembers acc ms).map Prod.fst).Nodup := by
  induction ms generalizing acc with
  | nil => exact ⟨hacc, hnodup⟩
  | cons m ms ih =>
      obtain ⟨k, x⟩ := m
      obtain ⟨hm, hms⟩ := List.forall_mem_cons.mp hms
      apply ih _ hms _ (putKey_nodup hnodup _ _)
      intro e he
      rcases mem_putKey.mp he with rfl | ⟨-, he⟩
      · exact hm
      · exact hacc e he

/-- Properties as they are kept: strings are characters, no key repeats, and numbers are numbers. -/
structure Decoded (v : Value Numeral) : Prop where
  strings : v.Each WellFormed List.Nodup
  numbers : v.Numbers Numeral.WellFormed

/-- **What is decoded from a text is so.** -/
theorem anyValue_decoded {t : Ast} (h : t.Proper rfc8259) : Decoded (anyValue t) := by
  induction t using Ast.induction with
  | null => exact ⟨trivial, trivial⟩
  | bool b => exact ⟨trivial, trivial⟩
  | nonFinite c => exact ⟨trivial, trivial⟩
  | num n => exact ⟨trivial, h.1⟩
  | str ps => exact ⟨⟨_, rfl⟩, trivial⟩
  | arr xs ih =>
      have hxs := properElems_iff.mp h
      constructor
      · apply eachElem_iff.mpr
        rw [anyElems_eq_map]
        intro v hv
        obtain ⟨x, hx, rfl⟩ := List.mem_map.mp hv
        exact (ih x hx (hxs x hx)).strings
      · apply numbersElem_iff.mpr
        rw [anyElems_eq_map]
        intro v hv
        obtain ⟨x, hx, rfl⟩ := List.mem_map.mp hv
        exact (ih x hx (hxs x hx)).numbers
  | obj ms ih =>
      have hms := properMembers_iff.mp h
      have hspec := anyMembers_spec (C := fun e => WellFormed e.1 ∧ Decoded e.2) ms []
        (fun m hm => ⟨⟨_, rfl⟩, ih m hm (hms m hm).2⟩)
        (fun e he => absurd he List.not_mem_nil) List.nodup_nil
      constructor
      · refine ⟨hspec.2, eachMember_iff.mpr ?_⟩
        intro e he
        exact ⟨(hspec.1 e he).1, (hspec.1 e he).2.strings⟩
      · apply numbersMember_iff.mpr
        intro e he
        exact (hspec.1 e he).2.numbers

theorem sortElems_eq_map (xs : List (Value Numeral)) : sortElems xs = xs.map sortKeys := by
  induction xs with
  | nil => rfl
  | cons x xs ih => rw [sortElems, ih, List.map_cons]

theorem sortMembers_eq_map (ms : List (List CodeUnit × Value Numeral)) :
    sortMembers ms = ms.map fun m => (m.1, sortKeys m.2) := by
  induction ms with
  | nil => rfl
  | cons m ms ih =>
      obtain ⟨k, x⟩ := m
      rw [sortMembers, ih, List.map_cons]

/-- The members in their order are the members. -/
theorem sorted_perm (ms : List (List CodeUnit × Value Numeral)) :
    ((sortMembers ms).insertionSort byKey).Perm (ms.map fun m => (m.1, sortKeys m.2)) := by
  rw [← sortMembers_eq_map]
  exact List.perm_insertionSort byKey _

/-- Order does not matter for it. -/
theorem Decoded.sortKeys {v : Value Numeral} (h : Decoded v) : Decoded (Go.sortKeys v) := by
  induction v using Value.induction with
  | null => exact h
  | bool b => exact h
  | num n => exact h
  | str s => exact h
  | arr xs ih =>
      have hstrings := eachElem_iff.mp h.strings
      have hnumbers := numbersElem_iff.mp h.numbers
      have hxs : ∀ v ∈ sortElems xs, Decoded v := by
        rw [sortElems_eq_map]
        intro v hv
        obtain ⟨x, hx, rfl⟩ := List.mem_map.mp hv
        exact ih x hx ⟨hstrings x hx, hnumbers x hx⟩
      exact ⟨eachElem_iff.mpr fun v hv => (hxs v hv).strings,
        numbersElem_iff.mpr fun v hv => (hxs v hv).numbers⟩
  | obj ms ih =>
      have hstrings := eachMember_iff.mp h.strings.2
      have hnumbers := numbersMember_iff.mp h.numbers
      have hperm := sorted_perm ms
      have hms : ∀ m ∈ (sortMembers ms).insertionSort byKey, WellFormed m.1 ∧ Decoded m.2 := by
        intro m hm
        obtain ⟨m', hm', rfl⟩ := List.mem_map.mp (hperm.mem_iff.mp hm)
        exact ⟨(hstrings m' hm').1, ih m' hm' ⟨(hstrings m' hm').2, hnumbers m' hm'⟩⟩
      have hnodup : (((sortMembers ms).insertionSort byKey).map Prod.fst).Nodup := by
        rw [(hperm.map Prod.fst).nodup_iff, List.map_map]
        exact h.strings.1
      exact ⟨⟨hnodup, eachMember_iff.mpr fun m hm => ⟨(hms m hm).1, (hms m hm).2.strings⟩⟩,
        numbersMember_iff.mpr fun m hm => (hms m hm).2.numbers⟩

/-- What the properties of an event are kept as. -/
theorem normalizeProperties_decoded {P : Type} {platform : Platform P} {properties : Option P}
    {ms : List (List CodeUnit × Value Numeral)}
    (h : normalizeProperties platform properties = .ok ms) : Decoded (.obj ms) := by
  have hnil : Decoded (.obj []) := ⟨⟨List.nodup_nil, trivial⟩, trivial⟩
  cases properties with
  | none =>
      cases h
      exact hnil
  | some p =>
      unfold normalizeProperties at h
      obtain ⟨encoded, -, h⟩ := bind_ok_iff.mp h
      obtain ⟨t, ht, h⟩ := bind_ok_iff.mp h
      obtain ⟨normalized, hmap, h⟩ := bind_ok_iff.mp h
      have hproper := (syntaxTree_readable _ (mapError_ok_iff.mp ht)).proper
      have hmap := mapError_ok_iff.mp hmap
      -- the only way out with a map is that nothing in it is to be reported
      have hms : normalized = ms := by
        cases hpaths : unportableMembers "properties".toList normalized with
        | nil =>
            rw [hpaths] at h
            exact Except.ok.inj h
        | cons path paths =>
            rw [hpaths] at h
            cases h
      rw [← hms]
      cases t with
      | obj members =>
          cases hmap
          exact anyValue_decoded hproper
      | null =>
          cases hmap
          exact hnil
      | _ => cases hmap

/-! ## §3. The body. -/

/-- The names of the members, in the order of the fields. -/
def wireNames : List (List CodeUnit) :=
  ["event_key", "event_id", "occurred_at", "contact_name", "phone_number", "email", "visitor_id",
   "is_common", "properties"].map units

/-- What a string field is read as. -/
def readString (s : Bytes) : Value Numeral := .str (utf16 (ofUtf8Bytewise s))

/-- What a string field that may be left out is read as. -/
def readOptional (s : Bytes) : Option (Value Numeral) := if s = [] then none else some (readString s)

/-- What the members are read as. -/
def WirePayload.values (p : WirePayload) : List (Option (Value Numeral)) :=
  [some (readString p.eventKey), some (readString p.eventID), some (.str (utf16 p.occurredAt)),
   readOptional p.contactName, readOptional p.phoneNumber, readOptional p.email,
   readOptional p.visitorID, some (.bool p.isCommon),
   if p.properties.isEmpty then none else some (sortKeys (.obj p.properties))]

/-- What a member is read as. -/
def readField (m : List Piece × Ast) : List CodeUnit × Value Numeral :=
  (decodeString hexUnit m.1, m.2.decode literalDecoder)

theorem readField_field (name : String) (t : Ast) :
    readField (field name t) = (units name, t.decode literalDecoder) := by
  show (decodeString hexUnit ((units name).map .plain), t.decode literalDecoder) = _
  rw [fieldName_decode]

theorem decode_stringTree (s : Bytes) :
    (Ast.str (stringPieces s)).decode literalDecoder = readString s := by
  show Value.str (decodeString hexUnit (stringPieces s)) = _
  rw [stringPieces_decode]
  rfl

theorem readField_omitEmpty (name : String) (s : Bytes) :
    (omitEmpty name s).map readField = (readOptional s).toList.map fun v => (units name, v) := by
  unfold omitEmpty readOptional
  split_ifs
  · rfl
  · rw [List.map_singleton, readField_field, decode_stringTree]
    rfl

theorem decode_sorted {v : Value Numeral} (h : Decoded v) :
    (v.encode (htmlEscaping.encoder id)).decode literalDecoder = v := by
  have hinverts : (htmlEscaping.encoder id).Inverts literalDecoder id :=
    htmlEscaping.inverts id rfl fun _ => rfl
  have hmap : v.map id = v := value_map_id v
  have hraw := raw_encode hinverts v
  rw [hmap] at hraw
  rw [decode_eq_raw (hraw.symm ▸ h.strings.imp (fun _ _ => trivial) fun _ => id), hraw]

/-- The members of the body, in their order. -/
def WirePayload.members (p : WirePayload) : List (List Piece × Ast) :=
  [field "event_key" (.str (stringPieces p.eventKey)),
      field "event_id" (.str (stringPieces p.eventID)),
      field "occurred_at" (.str (stringPieces (utf8 p.occurredAt)))] ++
    omitEmpty "contact_name" p.contactName ++ omitEmpty "phone_number" p.phoneNumber ++
    omitEmpty "email" p.email ++ omitEmpty "visitor_id" p.visitorID ++
    [field "is_common" (.bool p.isCommon)] ++ propertiesField p.properties

theorem readField_properties {properties : List (List CodeUnit × Value Numeral)}
    (h : Decoded (.obj properties)) :
    (propertiesField properties).map readField
      = (if properties.isEmpty then none else some (sortKeys (.obj properties))).toList.map
          fun v => (units "properties", v) := by
  unfold propertiesField
  split_ifs
  · rfl
  · rw [List.map_singleton, readField_field, decode_sorted h.sortKeys]
    rfl

theorem members_read {p : WirePayload} (h : Decoded (.obj p.properties)) :
    p.members.map readField = present wireNames p.values := by
  have hbool : (Ast.bool p.isCommon).decode literalDecoder = .bool p.isCommon := rfl
  have htime : readString (utf8 p.occurredAt) = .str (utf16 p.occurredAt) := by
    unfold readString
    rw [ofUtf8Bytewise_utf8]
  unfold WirePayload.members wireNames WirePayload.values
  simp only [List.map_append, List.map_cons, List.map_nil, readField_field, decode_stringTree,
    readField_omitEmpty, readField_properties h, hbool, htime, present_cons, Option.toList_some, List.append_assoc,
    List.cons_append, List.nil_append]
  simp [present]

/-- The members are read one by one, for no name repeats. -/
theorem tree_decode {p : WirePayload} (h : Decoded (.obj p.properties)) :
    p.tree.decode literalDecoder = .obj (present wireNames p.values) := by
  have hnodup : ((present wireNames p.values).map Prod.fst).Nodup :=
    (present_names_sublist wireNames p.values).nodup (by decide)
  have hread := members_read h
  have hnames : (p.members.map fun m => decodeString literalDecoder.hex m.1)
      = (present wireNames p.values).map Prod.fst := by
    rw [← hread, List.map_map]
    rfl
  show Value.obj (decodeMembers literalDecoder [] p.members) = _
  rw [decodeMembers_distinct p.members [] (by simpa [hnames] using hnodup), List.nil_append]
  exact congrArg Value.obj hread
/-- A member is a string, the flag, or the properties. -/
inductive Written (p : WirePayload) : List Piece × Ast → Prop where
  | string {name : String} (hname : units name ∈ wireNames) (s : Bytes) :
      Written p (field name (.str (stringPieces s)))
  | flag : Written p (field "is_common" (.bool p.isCommon))
  | properties :
      Written p (field "properties" ((sortKeys (.obj p.properties)).encode (htmlEscaping.encoder id)))

theorem written_omitEmpty {p : WirePayload} {name : String} (hname : units name ∈ wireNames)
    {s : Bytes} {m : List Piece × Ast} (h : m ∈ omitEmpty name s) : Written p m := by
  unfold omitEmpty at h
  split_ifs at h with hs
  · cases h
  · rw [List.mem_singleton.mp h]
    exact .string hname s

theorem written_of_mem {p : WirePayload} {m : List Piece × Ast} (h : m ∈ p.members) :
    Written p m := by
  unfold WirePayload.members propertiesField at h
  simp only [List.mem_append, List.mem_cons, List.not_mem_nil, or_false] at h
  rcases h with ((((((h | h) | h) | h) | h) | h) | h)
  · rcases h with rfl | rfl | rfl
    · exact .string (by decide) _
    · exact .string (by decide) _
    · exact .string (by decide) _
  · exact written_omitEmpty (by decide) h
  · exact written_omitEmpty (by decide) h
  · exact written_omitEmpty (by decide) h
  · exact written_omitEmpty (by decide) h
  · rw [h]
    exact .flag
  · split_ifs at h with hempty
    · cases h
    · rw [List.mem_singleton.mp h]
      exact .properties

/-- The names need no escape. -/
theorem fieldName_plain {name : String} (h : units name ∈ wireNames) :
    ∀ u ∈ units name, isPlain u = true ∧ u.toNat < 0x80 := by
  revert h
  generalize units name = n
  intro h
  revert n
  decide

theorem fieldName_ok {name : String} (h : units name ∈ wireNames) :
    PiecesOk rfc8259 ((units name).map .plain) := by
  intro q hq
  obtain ⟨u, hu, rfl⟩ := List.mem_map.mp hq
  exact (fieldName_plain h u hu).1

theorem fieldName_clean {name : String} (h : units name ∈ wireNames) :
    CleanPieces ((units name).map .plain) := by
  apply (wellFormed_bracketed (by decide) (by decide)).mpr
  apply WellFormed.of_ascii
  intro u hu
  obtain ⟨q, hq, hu⟩ := List.mem_flatMap.mp hu
  obtain ⟨w, hw, rfl⟩ := List.mem_map.mp hq
  rw [List.mem_singleton.mp hu]
  exact (fieldName_plain h w hw).2

/-- **The body of a call can be written**, and its literals are well formed. -/
theorem tree_proper {p : WirePayload} (h : Decoded (.obj p.properties)) : p.tree.Proper rfc8259 := by
  apply properMembers_iff.mpr
  intro m hm
  cases written_of_mem hm with
  | string hname s => exact ⟨fieldName_ok hname, stringPieces_ok s⟩
  | flag => exact ⟨fieldName_ok (by decide), trivial⟩
  | properties =>
      have hpieces : (htmlEscaping.encoder (ν := Numeral) id).PiecesWithin rfc8259 := htmlEscaping.ok
      refine ⟨fieldName_ok (by decide), proper_encode_of hpieces ?_⟩
      exact h.sortKeys.numbers.imp fun n hn => ⟨hn, rfl⟩

theorem tree_clean {p : WirePayload} (h : Decoded (.obj p.properties)) : p.tree.Clean := by
  apply literalsMembers_iff.mpr
  intro m hm
  cases written_of_mem hm with
  | string hname s => exact ⟨fieldName_clean hname, stringPieces_clean s⟩
  | flag => exact ⟨fieldName_clean (by decide), trivial⟩
  | properties =>
      refine ⟨fieldName_clean (by decide), clean_encode (htmlEscaping.seamless id) ?_⟩
      exact h.sortKeys.strings.imp (fun _ => id) fun _ _ => trivial

/-- **What the body of a call is read as.** -/
theorem marshal_reads {p : WirePayload} (h : Decoded (.obj p.properties)) :
    BodyReads p.marshal (.obj (present wireNames p.values)) := by
  have hproper := tree_proper h
  refine ⟨ofUtf16Lossy p.tree.text, rfl, p.tree, ?_, tree_decode h⟩
  rw [utf16_ofUtf16Lossy (clean_text (tree_clean h) hproper)]
  exact text_text hproper

/-! ## §4. Identities. -/

/-- The string is UTF-8. -/
def ValidUTF8 (s : Bytes) : Prop := ∃ cs, utf8 cs = s

/-- The member of that name is a string of these bytes. -/
def Holds (v : Value Numeral) (name : String) (s : Bytes) : Prop :=
  ∃ cs, v.get (units name) = some (.str (utf16 cs)) ∧ utf8 cs = s

/-- The member is there when the string is not empty, and holds it. -/
def HoldsOptional (v : Value Numeral) (name : String) (s : Bytes) : Prop :=
  if s = [] then v.get (units name) = none else Holds v name s

/-- **The body holds the event key and the identity of the caller**, byte for byte. -/
def Faithful {P : Type} (body eventKey : Bytes) (event : Event P) : Prop :=
  ∃ v, BodyReads body v ∧ Holds v "event_key" eventKey ∧ HoldsOptional v "email" event.email ∧
    HoldsOptional v "phone_number" event.phoneNumber ∧
    HoldsOptional v "contact_name" event.contactName

/-- A string comes back from what it is read as exactly when it is UTF-8. -/
theorem readString_bytes_iff {s : Bytes} :
    (∃ cs, readString s = .str (utf16 cs) ∧ utf8 cs = s) ↔ ValidUTF8 s := by
  constructor
  · intro h
    obtain ⟨cs, -, hcs⟩ := h
    exact ⟨cs, hcs⟩
  · intro h
    obtain ⟨cs, rfl⟩ := h
    refine ⟨cs, ?_, rfl⟩
    unfold readString
    rw [ofUtf8Bytewise_utf8]

theorem holds_iff {v : Value Numeral} {name : String} {s : Bytes}
    (h : v.get (units name) = some (readString s)) : Holds v name s ↔ ValidUTF8 s := by
  rw [← readString_bytes_iff]
  unfold Holds
  rw [h]
  simp only [Option.some.injEq]

theorem holdsOptional_iff {v : Value Numeral} {name : String} {s : Bytes}
    (h : v.get (units name) = readOptional s) : HoldsOptional v name s ↔ ValidUTF8 s := by
  unfold HoldsOptional
  unfold readOptional at h
  split_ifs at h ⊢ with hs
  · exact iff_of_true h ⟨[], hs.symm⟩
  · exact holds_iff h

/-- The members of the body, by their names. -/
theorem values_get (p : WirePayload) (name : String) {o : Option (Value Numeral)}
    (h : (units name, o) ∈ wireNames.zip p.values) :
    (Value.obj (present wireNames p.values)).get (units name) = o :=
  getKey_present (by decide) h

/-- **A payload holds its strings** exactly when they are UTF-8. -/
theorem marshal_faithful_iff {P : Type} {p : WirePayload} (hp : Decoded (.obj p.properties))
    {eventKey : Bytes} {event : Event P} (hkey : p.eventKey = eventKey)
    (hemail : p.email = event.email) (hphone : p.phoneNumber = event.phoneNumber)
    (hcontact : p.contactName = event.contactName) :
    Faithful p.marshal eventKey event ↔ ValidUTF8 eventKey ∧ ValidUTF8 event.email ∧
      ValidUTF8 event.phoneNumber ∧ ValidUTF8 event.contactName := by
  have hmember : ∀ v, BodyReads p.marshal v ↔ v = .obj (present wireNames p.values) := by
    intro v
    constructor
    · intro hv
      exact hv.unique (marshal_reads hp)
    · intro hv
      rw [hv]
      exact marshal_reads hp
  have hzip : ∀ m, m ∈ [(units "event_key", some (readString p.eventKey)),
      (units "email", readOptional p.email), (units "phone_number", readOptional p.phoneNumber),
      (units "contact_name", readOptional p.contactName)] → m ∈ wireNames.zip p.values := by
    intro m hm
    unfold wireNames WirePayload.values
    simp only [List.mem_cons, List.not_mem_nil, or_false] at hm
    rcases hm with rfl | rfl | rfl | rfl <;> simp
  unfold Faithful
  simp only [hmember, exists_eq_left]
  rw [holds_iff (hkey ▸ values_get p "event_key" (hzip _ (by simp))),
    holdsOptional_iff (hemail ▸ values_get p "email" (hzip _ (by simp))),
    holdsOptional_iff (hphone ▸ values_get p "phone_number" (hzip _ (by simp))),
    holdsOptional_iff (hcontact ▸ values_get p "contact_name" (hzip _ (by simp)))]

/-- What an accepted event is delivered as. -/
theorem encodeBody_ok {P : Type} {platform : Platform P} {seams : Seams} {ctx : Context}
    {eventKey : Bytes} {isCommon : Bool} {event : Event P} {body : Bytes}
    (h : encodeBody platform seams ctx eventKey isCommon event = .ok body) :
    ∃ p : WirePayload, body = p.marshal ∧ Decoded (.obj p.properties) ∧ p.eventKey = eventKey ∧
      p.email = event.email ∧ p.phoneNumber = event.phoneNumber ∧
      p.contactName = event.contactName := by
  unfold encodeBody buildPayload at h
  obtain ⟨p, hp, hbody⟩ := bind_ok_iff.mp h
  obtain ⟨-, -, hp⟩ := bind_ok_iff.mp hp
  obtain ⟨properties, hproperties, hp⟩ := bind_ok_iff.mp hp
  cases hp
  exact ⟨_, (Except.ok.inj hbody).symm, normalizeProperties_decoded hproperties, rfl, rfl, rfl, rfl⟩

/-- **An accepted event reaches the server with the identity given exactly when the event key and the
    identity are UTF-8.** -/
theorem body_faithful_iff {P : Type} (platform : Platform P) (seams : Seams) (ctx : Context)
    (eventKey : Bytes) (isCommon : Bool) (event : Event P) (body : Bytes)
    (h : encodeBody platform seams ctx eventKey isCommon event = .ok body) :
    Faithful body eventKey event ↔ ValidUTF8 eventKey ∧ ValidUTF8 event.email ∧
      ValidUTF8 event.phoneNumber ∧ ValidUTF8 event.contactName := by
  obtain ⟨p, rfl, hp, hkey, hemail, hphone, hcontact⟩ := encodeBody_ok h
  exact marshal_faithful_iff hp hkey hemail hphone hcontact

/-! ## §5. A byte that is not UTF-8. -/

theorem runeSlices_utf8 (cs : List Char) :
    runeSlices (cs.map some) (utf8 cs) = cs.map fun c => (some c, String.utf8EncodeChar c) := by
  induction cs with
  | nil => rfl
  | cons c cs ih =>
      rw [List.map_cons, utf8_cons]
      show (some c, (String.utf8EncodeChar c ++ utf8 cs).take c.utf8Size) ::
        runeSlices (cs.map some) ((String.utf8EncodeChar c ++ utf8 cs).drop c.utf8Size) = _
      rw [← String.length_utf8EncodeChar, List.take_left, List.drop_left, ih]
      rfl

/-- **Valid UTF-8 is trimmed character by character.** -/
theorem TrimSpace_utf8 (cs : List Char) : TrimSpace (utf8 cs) = utf8 (trim isSpace cs) := by
  unfold TrimSpace
  rw [runes_utf8, runeSlices_utf8, trim_map]
  show ((trim isSpace cs).map fun c => (some c, String.utf8EncodeChar c)).flatMap Prod.snd = _
  rw [List.flatMap_map]
  rfl

/-- No character starts with the byte 0xFF. -/
theorem not_validUTF8_FF : ¬ ValidUTF8 [0xFF] := by
  intro h
  obtain ⟨cs, hcs⟩ := h
  cases cs with
  | nil => cases hcs
  | cons c cs =>
      have hlen := congrArg List.length hcs
      rw [utf8_cons, List.length_append, String.length_utf8EncodeChar, List.length_singleton] at hlen
      have hpos := c.utf8Size_pos
      -- a character of one byte is an ASCII character
      have hone : c.utf8Size = 1 := by omega
      have hlow := Char.utf8Size_eq_one_iff.mp hone
      rw [utf8_cons, String.utf8EncodeChar_eq_singleton hone] at hcs
      have hbyte := (List.cons.inj hcs).1
      have hnat := congrArg UInt8.toNat hbyte
      rw [UInt32.toNat_toUInt8] at hnat
      have hval : c.val.toNat ≤ 0x7F := by
        have := UInt32.le_iff_toNat_le.mp hlow
        simpa using this
      have hff : (0xFF : UInt8).toNat = 255 := rfl
      omega

/-- Properties are never given here. -/
def noProperties : Platform Empty := ⟨Empty.rec, ⟨fun _ => [], fun _ => []⟩, fun _ => []⟩

/-- An event with an email and a phone number. -/
def emailEvent (email : Bytes) : Event Empty := ⟨email, [0x30], [], [], [], none, none⟩

theorem emailEvent_accepted (email : Bytes) :
    ∃ body, encodeBody noProperties ⟨noon, [0x30]⟩ none [0x6B] false (emailEvent email)
      = .ok body := by
  have hkey : TrimSpace [0x6B] ≠ [] := by
    rw [show ([0x6B] : Bytes) = utf8 ['k'] from rfl, TrimSpace_utf8]
    decide
  have hphone : TrimSpace [0x30] ≠ [] := by
    rw [show ([0x30] : Bytes) = utf8 ['0'] from rfl, TrimSpace_utf8]
    decide
  unfold encodeBody buildPayload validateEvent emailEvent
  simp only [hkey, hphone, if_false, and_false]
  exact ⟨_, rfl⟩

/-- **An email that is not UTF-8 is accepted, and another one is sent.** -/
theorem invalidEmail_replaced :
    ∃ body, encodeBody noProperties ⟨noon, [0x30]⟩ none [0x6B] false (emailEvent [0xFF])
        = .ok body ∧ ¬ Faithful body [0x6B] (emailEvent [0xFF]) := by
  obtain ⟨body, hbody⟩ := emailEvent_accepted [0xFF]
  refine ⟨body, hbody, ?_⟩
  obtain ⟨p, rfl, hp, hkey, hemail, hphone, hcontact⟩ := encodeBody_ok hbody
  rw [marshal_faithful_iff hp hkey hemail hphone hcontact]
  intro h
  exact not_validUTF8_FF h.2.1

/-- An email of ASCII arrives. -/
theorem asciiEmail_faithful :
    ∃ body, encodeBody noProperties ⟨noon, [0x30]⟩ none [0x6B] false (emailEvent [0x65])
        = .ok body ∧ Faithful body [0x6B] (emailEvent [0x65]) := by
  obtain ⟨body, hbody⟩ := emailEvent_accepted [0x65]
  refine ⟨body, hbody, ?_⟩
  apply (body_faithful_iff _ _ _ _ _ _ _ hbody).mpr
  exact ⟨⟨['k'], rfl⟩, ⟨['e'], rfl⟩, ⟨['0'], rfl⟩, ⟨[], rfl⟩⟩

end CekatEvents.Go
