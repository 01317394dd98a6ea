/-
  CekatEvents.Go.Acknowledgement — which bodies of a 200 the Go client acknowledges.

  The documented envelope names its fields exactly; `encoding/json` finds them up to case.  An
  `Envelope same value` is therefore stated over the test of names and the reading of strings:

    * `Envelope exactName …`     — the envelope of the documents (`Valid`);
    * `Envelope matchesField …`  — the one the client sees (`Accepted`), provided no member that
                                   matches a field has a type the field does not take (`Fits`).

  What comes between the two is told of the members of the text: a `variant` of a field is the value of
  a member that comes after the field's own and has its name in another case, and a string is `Paired`
  when it has no unpaired surrogate.

  Main results:
    * `decodeSuccessEnvelope_ok_iff` — the client acknowledges what it sees as an envelope;
    * `lastNamed_matches`            — what it sees of a field is its last variant, else the field;
    * `acknowledged_iff`             — when that is the documented envelope.
-/
import CekatEvents.Go.EncodingJson

namespace CekatEvents.Go

open CekatEvents.Encoding CekatEvents.JsonText

/-! ## §1. Envelopes. -/

/-- A code unit of whitespace. -/
def isSpaceUnit (u : CodeUnit) : Bool := isBasic u && isSpace (Char.ofNat u.toNat)

/-- The string contains a character that is no whitespace. -/
def NonBlank (s : List CodeUnit) : Prop := ∃ u ∈ s, isSpaceUnit u = false

/-- The name of a member is exactly this one. -/
def exactName (name : String) (key : List Piece) : Bool := decodeString hexUnit key == units name

/-- The members a success envelope is made of: `success` and `data`, and inside `data` the second
    `success`, the two strings and the array of strings. -/
structure Parts (same : String → List Piece → Bool) (t : Ast) (ds : List (List Piece × Ast))
    (m k : List Piece) (pss : List (List Piece)) : Prop where
  success : lastNamed (same "success") (members t) = some (.bool true)
  data : lastNamed (same "data") (members t) = some (.obj ds)
  dataSuccess : lastNamed (same "success") ds = some (.bool true)
  message : lastNamed (same "message") ds = some (.str m)
  eventKey : lastNamed (same "event_key") ds = some (.str k)
  properties : lastNamed (same "validated_properties") ds = some (.arr (pss.map .str))

/-- **A success envelope**, by a test of names and a reading of strings. -/
def Envelope (same : String → List Piece → Bool) (value : List Piece → List CodeUnit) (t : Ast)
    (message eventKey : List CodeUnit) (properties : List (List CodeUnit)) : Prop :=
  ∃ ds m k pss, Parts same t ds m k pss ∧ value m = message ∧ value k = eventKey ∧
    pss.map value = properties ∧ NonBlank message ∧ NonBlank eventKey

/-- The body is a well-formed UTF-8 JSON object that is a success envelope by exact names. -/
def Valid (body : Bytes) (message eventKey : List CodeUnit) (properties : List (List CodeUnit)) :
    Prop :=
  ∃ cs t, utf8 cs = body ∧ Text rfc8259 t (utf16 cs) ∧
    Envelope exactName (decodeString hexUnit) t message eventKey properties

/-- Every member that matches a field up to case has a type the field takes. -/
structure Fits (t : Ast) : Prop where
  envelope : ∀ m ∈ members t, takes successEnvelopeFields m = true
  data : ∀ ds, lastNamed (matchesField "data") (members t) = some (.obj ds) →
    ∀ m ∈ ds, takes successDataFields m = true

/-- The code units of the Go string of a literal. -/
def goUnits (ps : List Piece) : List CodeUnit := utf16 (goString ps)

/-! ## §2. What the client sees. -/

theorem bind_ok_iff {ε α β : Type} {x : Except ε α} {f : α → Except ε β} {b : β} :
    x.bind f = .ok b ↔ ∃ a, x = .ok a ∧ f a = .ok b := by
  cases x with
  | error e =>
      constructor
      · intro h
        cases h
      · intro h
        obtain ⟨a, ha, -⟩ := h
        cases ha
  | ok a =>
      constructor
      · intro h
        exact ⟨a, rfl, h⟩
      · intro h
        obtain ⟨a', ha, h⟩ := h
        cases ha
        exact h

theorem lastNamed_mem {p : List Piece → Bool} {ms : List (List Piece × Ast)} {x : Ast}
    (h : lastNamed p ms = some x) : ∃ k, (k, x) ∈ ms := by
  induction ms with
  | nil => cases h
  | cons m ms ih =>
      obtain ⟨k, y⟩ := m
      unfold lastNamed at h
      rcases Option.or_eq_some_iff.mp h with h | ⟨-, h⟩
      · obtain ⟨k', hk'⟩ := ih h
        exact ⟨k', List.mem_cons_of_mem _ hk'⟩
      · obtain ⟨-, h⟩ := Option.ite_none_right_eq_some.mp h
        rw [Option.some.injEq] at h
        exact ⟨k, h ▸ List.mem_cons_self⟩

theorem Readable.last {t : Ast} (h : Readable t) {p : List Piece → Bool} {x : Ast}
    (hx : lastNamed p (members t) = some x) : Readable x := by
  obtain ⟨k, hk⟩ := lastNamed_mem hx
  cases t with
  | obj ms => exact h.member hk
  | _ => exact absurd hk List.not_mem_nil

section Decoding

variable (texts : UnmarshalTexts)

/-- A struct is filled from an object whose members fit, and not at all from `null`. -/
theorem unmarshalStruct_ok_iff {fields : List Field} {t : Ast} {get : String → Option Ast} :
    unmarshalStruct texts fields t = .ok get ↔
      (t = .null ∨ ∃ ms, t = .obj ms) ∧ (∀ m ∈ members t, takes fields m = true) ∧
        get = fun name => lastNamed (matchesField name) (members t) := by
  cases t with
  | null =>
      constructor
      · intro h
        cases h
        refine ⟨.inl rfl, ?_, rfl⟩
        intro m hm
        exact absurd hm List.not_mem_nil
      · intro h
        rw [h.2.2]
        rfl
  | obj ms =>
      rw [unmarshalStruct]
      simp only [members]
      cases hfind : ms.find? fun m => !takes fields m with
      | none =>
          have hall : ∀ m ∈ ms, takes fields m = true := by
            intro m hm
            simpa using List.find?_eq_none.mp hfind m hm
          constructor
          · intro h
            exact ⟨.inr ⟨ms, rfl⟩, hall, (Except.ok.inj h).symm⟩
          · intro h
            rw [h.2.2]
      | some m =>
          constructor
          · intro h
            cases h
          · intro h
            have hm := h.2.1 m (List.mem_of_find?_eq_some hfind)
            have hnot := List.find?_some hfind
            rw [hm] at hnot
            cases hnot
  | _ =>
      constructor
      · intro h
        cases h
      · intro h
        rcases h.1 with h | ⟨ms, h⟩ <;> cases h

theorem boolPointer_eq_true {x : Option Ast} : boolPointer x = some true ↔ x = some (.bool true) := by
  unfold boolPointer
  split
  · simp
  · rename_i hne
    constructor
    · intro h
      cases h
    · intro h
      exact absurd h (hne true)

theorem stringPointer_eq_some {x : Option Ast} {s : List Char} :
    stringPointer x = some s ↔ ∃ ps, x = some (.str ps) ∧ goString ps = s := by
  unfold stringPointer
  split
  · simp
  · rename_i hne
    constructor
    · intro h
      cases h
    · intro h
      obtain ⟨ps, hps, -⟩ := h
      exact absurd hps (hne ps)

theorem slicePointer_eq_some {x : Option Ast} {raws : List Bytes} :
    slicePointer x = some raws ↔ ∃ xs, x = some (.arr xs) ∧ xs.map rawMessage = raws := by
  unfold slicePointer
  split
  · simp
  · rename_i hne
    constructor
    · intro h
      cases h
    · intro h
      obtain ⟨xs, hxs, -⟩ := h
      exact absurd hxs (hne xs)

theorem successEnvelope_ok_iff {body : Bytes} {e : SuccessEnvelope} :
    (encodingJson texts).successEnvelope body = .ok e ↔
      ∃ t, syntaxTree texts body = .ok t ∧ (t = .null ∨ ∃ ms, t = .obj ms) ∧
        (∀ m ∈ members t, takes successEnvelopeFields m = true) ∧
        e = ⟨boolPointer (lastNamed (matchesField "success") (members t)),
          ((lastNamed (matchesField "data") (members t)).map rawMessage).getD []⟩ := by
  show (syntaxTree texts body).bind (fun t =>
    (unmarshalStruct texts successEnvelopeFields t).bind fun get =>
      .ok ⟨boolPointer (get "success"), ((get "data").map rawMessage).getD []⟩) = .ok e ↔ _
  simp only [bind_ok_iff, unmarshalStruct_ok_iff, Except.ok.injEq]
  constructor
  · intro h
    obtain ⟨t, ht, get, ⟨hobj, hall, rfl⟩, rfl⟩ := h
    exact ⟨t, ht, hobj, hall, rfl⟩
  · intro h
    obtain ⟨t, ht, hobj, hall, rfl⟩ := h
    exact ⟨t, ht, _, ⟨hobj, hall, rfl⟩, rfl⟩

theorem successData_ok_iff {body : Bytes} {d : SuccessData} :
    (encodingJson texts).successData body = .ok d ↔
      ∃ t, syntaxTree texts body = .ok t ∧ (t = .null ∨ ∃ ms, t = .obj ms) ∧
        (∀ m ∈ members t, takes successDataFields m = true) ∧
        d = ⟨boolPointer (lastNamed (matchesField "success") (members t)),
          stringPointer (lastNamed (matchesField "message") (members t)),
          stringPointer (lastNamed (matchesField "event_key") (members t)),
          slicePointer (lastNamed (matchesField "validated_properties") (members t))⟩ := by
  show (syntaxTree texts body).bind (fun t =>
    (unmarshalStruct texts successDataFields t).bind fun get =>
      .ok ⟨boolPointer (get "success"), stringPointer (get "message"),
        stringPointer (get "event_key"), slicePointer (get "validated_properties")⟩) = .ok d ↔ _
  simp only [bind_ok_iff, unmarshalStruct_ok_iff, Except.ok.injEq]
  constructor
  · intro h
    obtain ⟨t, ht, get, ⟨hobj, hall, rfl⟩, rfl⟩ := h
    exact ⟨t, ht, hobj, hall, rfl⟩
  · intro h
    obtain ⟨t, ht, hobj, hall, rfl⟩ := h
    exact ⟨t, ht, _, ⟨hobj, hall, rfl⟩, rfl⟩

/-- The checks of `decodeSuccessEnvelope` on what was unmarshalled. -/
theorem decodeSuccessEnvelope_ok {json : EncodingJson} {body : Bytes} {a : Acknowledgement} :
    decodeSuccessEnvelope json body = .ok a ↔
      ∃ e d message eventKey properties strings, json.successEnvelope body = .ok e ∧
        e.success = some true ∧ isJSONObject e.data = true ∧ json.successData e.data = .ok d ∧
        d.success = some true ∧ d.message = some message ∧ d.eventKey = some eventKey ∧
        d.validatedProperties = some properties ∧ trimSpace message ≠ [] ∧ trimSpace eventKey ≠ [] ∧
        properties.mapM (decodeProperty json) = .ok strings ∧ a = ⟨message, eventKey, strings, []⟩ := by
  refine Iff.trans (bind_ok_iff (x := json.successEnvelope body)) ?_
  constructor
  · intro h
    obtain ⟨e, he, h⟩ := h
    split at h
    · cases h
    · rename_i hcond
      simp only [Bool.or_eq_true, bne_iff_ne, ne_eq, Bool.not_eq_true', not_or, not_not,
        Bool.not_eq_false] at hcond
      obtain ⟨d, hd, h⟩ := bind_ok_iff.mp h
      split at h
      · rename_i message eventKey properties hs hm hk hp
        split at h
        · cases h
        · rename_i hblank
          simp only [Bool.or_eq_true, decide_eq_true_eq, not_or] at hblank
          obtain ⟨strings, hstrings, h⟩ := bind_ok_iff.mp h
          exact ⟨e, d, message, eventKey, properties, strings, he, hcond.1, hcond.2, hd, hs, hm, hk,
            hp, hblank.1, hblank.2, hstrings, (Except.ok.inj h).symm⟩
      · cases h
  · intro h
    obtain ⟨e, d, message, eventKey, properties, strings, he, hes, hobj, hd, hs, hm, hk, hp, hbm,
      hbk, hstrings, rfl⟩ := h
    refine ⟨e, he, ?_⟩
    rw [if_neg (by simp [hes, hobj])]
    refine bind_ok_iff.mpr ⟨d, hd, ?_⟩
    rw [hs, hm, hk, hp]
    show (if trimSpace message = [] || trimSpace eventKey = [] then _ else _) = _
    rw [if_neg (by simp [hbm, hbk])]
    exact bind_ok_iff.mpr ⟨strings, hstrings, rfl⟩

/-- **What the client acknowledges**: a body that reads as an envelope up to the case of names, in which
    everything that matches a field fits it. -/
theorem decodeSuccessEnvelope_ok_iff {body : Bytes} {a : Acknowledgement} :
    decodeSuccessEnvelope (encodingJson texts) body = .ok a ↔
      ∃ t ds m k pss, Text rfc8259 t (unmarshalText body) ∧ t.nesting ≤ maxNestingDepth ∧ Fits t ∧
        Parts matchesField t ds m k pss ∧ trimSpace (goString m) ≠ [] ∧
        trimSpace (goString k) ≠ [] ∧ a = ⟨goString m, goString k, pss.map goString, []⟩ := by
  rw [decodeSuccessEnvelope_ok]
  constructor
  · intro h
    obtain ⟨e, d, message, eventKey, properties, strings, he, hes, hobj, hd, hs, hm, hk, hp, hbm,
      hbk, hstrings, rfl⟩ := h
    obtain ⟨t, ht, -, hfits, rfl⟩ := (successEnvelope_ok_iff texts).mp he
    have hread := syntaxTree_readable texts ht
    obtain ⟨htext, hnest⟩ := (syntaxTree_ok_iff texts).mp ht
    -- the raw data are those of an object, and are read as it
    cases hdata : lastNamed (matchesField "data") (members t) with
    | none =>
        rw [hdata] at hobj
        have hempty : isJSONObject [] = true := hobj
        exact absurd hempty (by decide)
    | some x =>
        rw [hdata] at hobj hd
        have hx := hread.last hdata
        obtain ⟨ds, rfl⟩ := (isJSONObject_rawMessage hx).mp hobj
        obtain ⟨t', ht', -, hdfits, rfl⟩ := (successData_ok_iff texts).mp hd
        have hsame : t' = .obj ds :=
          Except.ok.inj (ht'.symm.trans (syntaxTree_rawMessage texts hx))
        subst hsame
        obtain ⟨m, hmessage, rfl⟩ := stringPointer_eq_some.mp hm
        obtain ⟨k, heventKey, rfl⟩ := stringPointer_eq_some.mp hk
        obtain ⟨xs, hxs, rfl⟩ := slicePointer_eq_some.mp hp
        have helem : ∀ y ∈ xs, Readable y := fun y hy => (hx.last hxs).elem hy
        obtain ⟨pss, rfl, rfl⟩ := (decodeProperties_ok_iff texts helem).mp hstrings
        refine ⟨t, ds, m, k, pss, htext, hnest, ⟨hfits, ?_⟩, ?_, hbm, hbk, rfl⟩
        · intro ds' hds'
          rw [hdata, Option.some.injEq, Ast.obj.injEq] at hds'
          exact hds' ▸ hdfits
        · exact ⟨boolPointer_eq_true.mp hes, hdata, boolPointer_eq_true.mp hs, hmessage, heventKey,
            hxs⟩
  · intro h
    obtain ⟨t, ds, m, k, pss, htext, hnest, hfits, hparts, hbm, hbk, rfl⟩ := h
    have ht := (syntaxTree_ok_iff texts).mpr ⟨htext, hnest⟩
    have hread := syntaxTree_readable texts ht
    have hx := hread.last hparts.data
    have hobj : t = .null ∨ ∃ ms, t = .obj ms := by
      obtain ⟨k', hk'⟩ := lastNamed_mem hparts.data
      cases t with
      | obj ms => exact .inr ⟨ms, rfl⟩
      | _ => exact absurd hk' List.not_mem_nil
    refine ⟨_, _, goString m, goString k, (pss.map Ast.str).map rawMessage, pss.map goString,
      (successEnvelope_ok_iff texts).mpr ⟨t, ht, hobj, hfits.envelope, rfl⟩, ?_, ?_,
      (successData_ok_iff texts).mpr ⟨.obj ds, ?_, .inr ⟨ds, rfl⟩, hfits.data ds hparts.data, rfl⟩,
      ?_, ?_, ?_, ?_, hbm, hbk, ?_, rfl⟩
    · exact boolPointer_eq_true.mpr hparts.success
    · rw [hparts.data]
      exact (isJSONObject_rawMessage hx).mpr ⟨ds, rfl⟩
    · rw [hparts.data]
      exact syntaxTree_rawMessage texts hx
    · exact boolPointer_eq_true.mpr hparts.dataSuccess
    · exact stringPointer_eq_some.mpr ⟨m, hparts.message, rfl⟩
    · exact stringPointer_eq_some.mpr ⟨k, hparts.eventKey, rfl⟩
    · exact slicePointer_eq_some.mpr ⟨_, hparts.properties, rfl⟩
    · apply (decodeProperties_ok_iff texts ?_).mpr ⟨pss, rfl, rfl⟩
      exact fun y hy => (hx.last hparts.properties).elem hy

end Decoding

/-! ## §3. The documented envelope. -/

/-- The complete body of a 200. -/
structure CompleteBody where
  bytes : Bytes
  retained : bytes.length ≤ responseBodyLimit

/-- Only characters of the basic plane are spaces. -/
theorem isSpaceUnit_char (c : Char) :
    (∃ u ∈ utf16Char c, isSpaceUnit u = false) ↔ isSpace c = false := by
  have hc := scalar_range c
  unfold utf16Char
  by_cases hlow : c.toNat < 0x10000
  · have hn : c.toNat.toUInt16.toNat = c.toNat := toNat_toUInt16 hlow
    have hbasic : isBasic c.toNat.toUInt16 = true := by
      apply isBasic_iff.mpr
      unfold isHigh isLow
      rw [hn]
      simp only [decide_eq_false_iff_not]
      omega
    rw [if_pos hlow]
    simp only [List.mem_singleton, exists_eq_left]
    unfold isSpaceUnit
    rw [hbasic, hn, Char.ofNat_toNat, Bool.true_and]
  · rw [if_neg hlow]
    apply iff_of_true
    · refine ⟨_, List.mem_cons_self, ?_⟩
      have hn : (0xD800 + (c.toNat - 0x10000) / 0x400).toUInt16.toNat
          = 0xD800 + (c.toNat - 0x10000) / 0x400 := toNat_toUInt16 (by omega)
      unfold isSpaceUnit isBasic isHigh
      rw [hn, decide_eq_true (by omega)]
      rfl
    · unfold isSpace
      simp only [Bool.or_eq_false_iff, Bool.and_eq_false_iff, decide_eq_false_iff_not,
        beq_eq_false_iff_ne]
      omega

/-- What is left after trimming says whether there was a character other than whitespace. -/
theorem nonBlank_utf16 {cs : List Char} : NonBlank (utf16 cs) ↔ trimSpace cs ≠ [] := by
  rw [Ne, trimSpace_eq_nil_iff]
  unfold NonBlank utf16
  constructor
  · intro h hall
    obtain ⟨u, hu, hspace⟩ := h
    obtain ⟨c, hc, huc⟩ := List.mem_flatMap.mp hu
    have hnot := (isSpaceUnit_char c).mp ⟨u, huc, hspace⟩
    rw [hall c hc] at hnot
    cases hnot
  · intro h
    by_contra hnone
    apply h
    intro c hc
    by_contra hspace
    obtain ⟨u, hu, hunit⟩ := (isSpaceUnit_char c).mpr (by simpa using hspace)
    exact hnone ⟨u, List.mem_flatMap.mpr ⟨c, hc, hu⟩, hunit⟩

section Documented

variable (texts : UnmarshalTexts)

/-- The body is acknowledged with these strings. -/
def Acknowledged (body : CompleteBody) (attempts : Int) (message eventKey : List CodeUnit)
    (properties : List (List CodeUnit)) : Prop :=
  ∃ a, decodeResponse (encodingJson texts) 200 ⟨body.bytes, none⟩ attempts = .ok a ∧
    utf16 a.message = message ∧ utf16 a.eventKey = eventKey ∧
    a.validatedProperties.map utf16 = properties

/-- The tree in which the client looks for an envelope: the body is JSON of at most 10,000 levels once
    what is not UTF-8 is replaced, and everything that matches a field fits it. -/
def Inspected (body : Bytes) (t : Ast) : Prop :=
  Text rfc8259 t (unmarshalText body) ∧ t.nesting ≤ maxNestingDepth ∧ Fits t

/-- **The client acknowledges the envelope it finds up to the case of names.** -/
theorem acknowledged_iff_inspected (body : CompleteBody) (attempts : Int)
    (message eventKey : List CodeUnit) (properties : List (List CodeUnit)) :
    Acknowledged texts body attempts message eventKey properties ↔
      ∃ t, Inspected body.bytes t ∧ Envelope matchesField goUnits t message eventKey properties := by
  -- nothing overflows, so the envelope decides
  have hdecode : decodeResponse (encodingJson texts) 200 ⟨body.bytes, none⟩ attempts
      = ((decodeSuccessEnvelope (encodingJson texts) body.bytes).mapError
          (responseDecodeError body.bytes attempts)).map
            fun acknowledgement => { acknowledgement with rawBody := body.bytes } := by
    have hover : ¬ responseBodyLimit < body.bytes.length := Nat.not_lt.mpr body.retained
    unfold decodeResponse readBoundedBody
    simp only [List.take_of_length_le body.retained, decide_eq_false hover, if_true]
    cases decodeSuccessEnvelope (encodingJson texts) body.bytes with
    | error err => rfl
    | ok acknowledgement => rfl
  unfold Acknowledged
  rw [hdecode]
  constructor
  · intro h
    obtain ⟨a, ha, rfl, rfl, rfl⟩ := h
    cases hdec : decodeSuccessEnvelope (encodingJson texts) body.bytes with
    | error err =>
        rw [hdec] at ha
        cases ha
    | ok acknowledgement =>
        rw [hdec] at ha
        cases ha
        obtain ⟨t, ds, m, k, pss, htext, hnest, hfits, hparts, hbm, hbk, rfl⟩ :=
          (decodeSuccessEnvelope_ok_iff texts).mp hdec
        refine ⟨t, ⟨htext, hnest, hfits⟩, ds, m, k, pss, hparts, rfl, rfl, ?_, ?_, ?_⟩
        · exact (List.map_map ..).symm
        · exact nonBlank_utf16.mpr hbm
        · exact nonBlank_utf16.mpr hbk
  · intro h
    obtain ⟨t, ⟨htext, hnest, hfits⟩, ds, m, k, pss, hparts, rfl, rfl, rfl, hbm, hbk⟩ := h
    have hdec := (decodeSuccessEnvelope_ok_iff texts).mpr ⟨t, ds, m, k, pss, htext, hnest, hfits,
      hparts, nonBlank_utf16.mp hbm, nonBlank_utf16.mp hbk, rfl⟩
    rw [hdec]
    exact ⟨_, rfl, rfl, rfl, List.map_map ..⟩

/-- On UTF-8 the client reads the text itself. -/
theorem valid_iff {body : Bytes} {t : Ast} (ht : Text rfc8259 t (unmarshalText body))
    {message eventKey : List CodeUnit} {properties : List (List CodeUnit)} :
    Valid body message eventKey properties ↔
      (∃ cs, utf8 cs = body) ∧
        Envelope exactName (decodeString hexUnit) t message eventKey properties := by
  constructor
  · intro h
    obtain ⟨cs, t', rfl, ht', henv⟩ := h
    unfold unmarshalText at ht
    rw [ofUtf8Bytewise_utf8] at ht
    have hsame := text_unique ht ht'
    exact ⟨⟨cs, rfl⟩, hsame ▸ henv⟩
  · intro h
    obtain ⟨⟨cs, rfl⟩, henv⟩ := h
    unfold unmarshalText at ht
    rw [ofUtf8Bytewise_utf8] at ht
    exact ⟨cs, t, rfl, ht, henv⟩

end Documented

/-! ## §4. Case variants and unpaired surrogates. -/

/-- The value of the last member that has the name up to case, where its spelling is another one. -/
def variant (name : String) : List (List Piece × Ast) → Option Ast
  | [] => none
  | (k, x) :: ms =>
      if ms.any fun m => matchesField name m.1 then variant name ms
      else if matchesField name k && !exactName name k then some x
      else none

/-- The name of a field matches itself. -/
def SelfMatching (name : String) : Prop := (ofUtf16Lossy (units name)).map foldRune = name.toList

instance (name : String) : Decidable (SelfMatching name) := decEq ..

theorem matchesField_of_exactName {name : String} (hname : SelfMatching name) {key : List Piece}
    (h : exactName name key = true) : matchesField name key = true := by
  unfold exactName at h
  unfold matchesField goString
  rw [beq_iff_eq.mp h]
  exact beq_iff_eq.mpr hname

theorem lastNamed_eq_none {p : List Piece → Bool} {ms : List (List Piece × Ast)}
    (h : ∀ m ∈ ms, p m.1 = false) : lastNamed p ms = none := by
  induction ms with
  | nil => rfl
  | cons m ms ih =>
      obtain ⟨k, x⟩ := m
      have hk : p k = false := h (k, x) List.mem_cons_self
      unfold lastNamed
      rw [ih fun m hm => h m (List.mem_cons_of_mem _ hm), hk]
      rfl

theorem lastNamed_isSome {p : List Piece → Bool} {ms : List (List Piece × Ast)}
    (h : (ms.any fun m => p m.1) = true) : (lastNamed p ms).isSome = true := by
  induction ms with
  | nil => cases h
  | cons m ms ih =>
      obtain ⟨k, x⟩ := m
      unfold lastNamed
      rw [List.any_cons, Bool.or_eq_true] at h
      rcases h with h | h
      · rw [if_pos h, Option.isSome_or]
        exact Bool.or_true _
      · rw [Option.isSome_or, ih h]
        rfl

/-- **The value that the client sees of a field**: that of the variant, else that of the field. -/
theorem lastNamed_matches {name : String} (hname : SelfMatching name)
    (ms : List (List Piece × Ast)) :
    lastNamed (matchesField name) ms = (variant name ms).or (lastNamed (exactName name) ms) := by
  induction ms with
  | nil => rfl
  | cons m ms ih =>
      obtain ⟨k, x⟩ := m
      unfold variant
      by_cases hany : (ms.any fun m => matchesField name m.1) = true
      · -- a later member decides
        have hsome := lastNamed_isSome hany
        rw [if_pos hany, lastNamed, lastNamed, ← Option.or_assoc, ← ih, Option.or_of_isSome hsome,
          Option.or_of_isSome hsome]
      · rw [if_neg hany]
        have hno : ∀ m ∈ ms, matchesField name m.1 = false := by
          intro m hm
          by_contra h
          exact hany (List.any_eq_true.mpr ⟨m, hm, by simpa using h⟩)
        have hnone : ∀ m ∈ ms, exactName name m.1 = false := by
          intro m hm
          by_contra h
          have hmatch := matchesField_of_exactName hname (by simpa using h)
          rw [hno m hm] at hmatch
          cases hmatch
        rw [lastNamed, lastNamed, lastNamed_eq_none hno, lastNamed_eq_none hnone, Option.none_or,
          Option.none_or]
        cases hexact : exactName name k with
        | true => simp [matchesField_of_exactName hname hexact]
        | false => cases matchesField name k <;> rfl

/-- The string has no unpaired surrogate. -/
def Paired (ps : List Piece) : Prop := WellFormed (decodeString hexUnit ps)

/-- Nothing is replaced in it then. -/
theorem goUnits_eq_iff {ps : List Piece} : goUnits ps = decodeString hexUnit ps ↔ Paired ps := by
  constructor
  · intro h
    exact ⟨goString ps, h⟩
  · intro h
    exact utf16_ofUtf16Lossy h

/-- Replacement makes no string blank, and fills none. -/
theorem nonBlank_ofUtf16Lossy (s : List CodeUnit) :
    NonBlank (utf16 (ofUtf16Lossy s)) ↔ NonBlank s := by
  rw [nonBlank_utf16, Ne, trimSpace_eq_nil_iff]
  have hsurrogate : ∀ u : CodeUnit, isBasic u = false → isSpaceUnit u = false := by
    intro u hu
    unfold isSpaceUnit
    rw [hu, Bool.false_and]
  have hbasic : ∀ u : CodeUnit, isBasic u = true →
      isSpaceUnit u = isSpace (Char.ofNat u.toNat) := by
    intro u hu
    unfold isSpaceUnit
    rw [hu, Bool.true_and]
  show ¬ (∀ c ∈ ofUtf16Lossy s, isSpace c = true) ↔ ∃ u ∈ s, isSpaceUnit u = false
  simp only [not_forall, Bool.not_eq_true, exists_prop]
  induction s using ofUtf16Lossy.induct with
  | case1 => simp [ofUtf16Lossy]
  | case2 u hu => simp [ofUtf16Lossy, hu, hbasic u hu]
  | case3 u hu =>
      have hu' : isBasic u = false := by simpa using hu
      have hspace : isSpace replacement = false := by decide
      simp [ofUtf16Lossy, hu', hsurrogate u hu', hspace]
  | case4 u v s hpair ih =>
      -- a pair is a character above the basic plane, and no surrogate is a space
      rw [ofUtf16Lossy, if_pos hpair]
      rw [Bool.and_eq_true] at hpair
      have hu : isBasic u = false := by simp [isBasic, hpair.1]
      refine iff_of_true ⟨pairChar u v, List.mem_cons_self, ?_⟩ ⟨u, List.mem_cons_self, hsurrogate u hu⟩
      have hchar : utf16Char (pairChar u v) = [u, v] := utf16Char_pairChar hpair.1 hpair.2
      rw [← isSpaceUnit_char, hchar]
      exact ⟨u, List.mem_cons_self, hsurrogate u hu⟩
  | case5 u v s hpair hu ih =>
      rw [ofUtf16Lossy, if_neg hpair, if_pos hu]
      simp only [List.exists_mem_cons_iff, hbasic u hu, ih]
  | case6 u v s hpair hu ih =>
      have hu' : isBasic u = false := by simpa using hu
      rw [ofUtf16Lossy, if_neg hpair, if_neg hu]
      refine iff_of_true ⟨replacement, List.mem_cons_self, by decide⟩
        ⟨u, List.mem_cons_self, hsurrogate u hu'⟩

/-! ## §5. When the client sees the documented envelope. -/

/-- The body is UTF-8. -/
def IsUtf8 (body : Bytes) : Prop := ∃ cs, utf8 cs = body

/-- The members make up an envelope, by a test of names. -/
def Complete (same : String → List Piece → Bool) (t : Ast) : Prop :=
  ∃ ds m k pss, Parts same t ds m k pss ∧ NonBlank (decodeString hexUnit m) ∧
    NonBlank (decodeString hexUnit k)

/-- The string of a field reaches the caller: a variant of the field reads the same, and where there is
    none the string is paired. -/
def KeepsString (name : String) (ms : List (List Piece × Ast)) (ps : List Piece) : Prop :=
  match variant name ms with
  | some x => ∃ ps', x = .str ps' ∧ goUnits ps' = decodeString hexUnit ps
  | none => Paired ps

/-- So do the strings of an array. -/
def KeepsStrings (name : String) (ms : List (List Piece × Ast)) (pss : List (List Piece)) : Prop :=
  match variant name ms with
  | some x => ∃ pss' : List (List Piece), x = .arr (pss'.map .str) ∧
      pss'.map goUnits = pss.map (decodeString hexUnit)
  | none => ∀ ps ∈ pss, Paired ps

/-- A variant of a flag that is true is true as well. -/
def KeepsTrue (name : String) (ms : List (List Piece × Ast)) : Prop :=
  ∀ x, variant name ms = some x → x = .bool true

/-- The fields of the data are kept. -/
structure KeptData (ds : List (List Piece × Ast)) (m k : List Piece) (pss : List (List Piece)) :
    Prop where
  success : KeepsTrue "success" ds
  message : KeepsString "message" ds m
  eventKey : KeepsString "event_key" ds k
  properties : KeepsStrings "validated_properties" ds pss

/-- The members, up to the case of their names, say what these data say. -/
structure Repeats (ds : List (List Piece × Ast)) (m k : List Piece) (pss : List (List Piece)) :
    Prop where
  success : lastNamed (matchesField "success") ds = some (.bool true)
  message : ∃ m', lastNamed (matchesField "message") ds = some (.str m') ∧
    goUnits m' = decodeString hexUnit m
  eventKey : ∃ k', lastNamed (matchesField "event_key") ds = some (.str k') ∧
    goUnits k' = decodeString hexUnit k
  properties : ∃ pss' : List (List Piece), lastNamed (matchesField "validated_properties") ds =
    some (.arr (pss'.map .str)) ∧ pss'.map goUnits = pss.map (decodeString hexUnit)

/-- The fields of an envelope are kept: a variant of `data` is an object that repeats them, and where
    there is none they are kept in the data themselves. -/
structure Kept (t : Ast) (ds : List (List Piece × Ast)) (m k : List Piece) (pss : List (List Piece)) :
    Prop where
  success : KeepsTrue "success" (members t)
  data : match variant "data" (members t) with
    | some x => ∃ ds', x = .obj ds' ∧ Repeats ds' m k pss
    | none => KeptData ds m k pss

/-- A documented envelope stays within the library's limits, and its fields are kept. -/
def Undisturbed (body : Bytes) (t : Ast) : Prop :=
  IsUtf8 body → ∀ ds m k pss, Parts exactName t ds m k pss → NonBlank (decodeString hexUnit m) →
    NonBlank (decodeString hexUnit k) → t.nesting ≤ maxNestingDepth ∧ Fits t ∧ Kept t ds m k pss

/-- No replaced byte and no variant completes an envelope. -/
def Unaided (body : Bytes) (t : Ast) : Prop :=
  t.nesting ≤ maxNestingDepth → Fits t → Complete matchesField t → IsUtf8 body ∧ Complete exactName t

/-- Replacement, the case of names and the library's limits make no difference to the body. -/
def Indifferent (body : Bytes) : Prop :=
  ∀ t, Text rfc8259 t (unmarshalText body) → Undisturbed body t ∧ Unaided body t

theorem keepsTrue_iff {name : String} (hname : SelfMatching name) {ms : List (List Piece × Ast)}
    (h : lastNamed (exactName name) ms = some (.bool true)) :
    KeepsTrue name ms ↔ lastNamed (matchesField name) ms = some (.bool true) := by
  rw [lastNamed_matches hname, h]
  unfold KeepsTrue
  cases variant name ms <;> simp

theorem keepsString_iff {name : String} (hname : SelfMatching name) {ms : List (List Piece × Ast)}
    {ps : List Piece} (h : lastNamed (exactName name) ms = some (.str ps)) :
    KeepsString name ms ps ↔ ∃ ps', lastNamed (matchesField name) ms = some (.str ps') ∧
      goUnits ps' = decodeString hexUnit ps := by
  rw [lastNamed_matches hname, h]
  unfold KeepsString
  cases variant name ms with
  | some x => simp
  | none => simp [goUnits_eq_iff]

theorem keepsStrings_iff {name : String} (hname : SelfMatching name) {ms : List (List Piece × Ast)}
    {pss : List (List Piece)} (h : lastNamed (exactName name) ms = some (.arr (pss.map .str))) :
    KeepsStrings name ms pss ↔ ∃ pss' : List (List Piece),
      lastNamed (matchesField name) ms = some (.arr (pss'.map .str)) ∧
        pss'.map goUnits = pss.map (decodeString hexUnit) := by
  rw [lastNamed_matches hname, h]
  unfold KeepsStrings
  cases variant name ms with
  | some x => simp
  | none =>
      have hinjective : Function.Injective (List.map Ast.str) :=
        List.map_injective_iff.mpr fun _ _ heq => Ast.str.inj heq
      simp only [Option.none_or, Option.some.injEq, Ast.arr.injEq]
      constructor
      · intro hpaired
        exact ⟨pss, rfl, List.map_congr_left fun ps hps => goUnits_eq_iff.mpr (hpaired ps hps)⟩
      · intro hex
        obtain ⟨pss', hsame, hunits⟩ := hex
        rw [← hinjective hsame] at hunits
        exact fun ps hps => goUnits_eq_iff.mp (List.map_inj_left.mp hunits ps hps)

/-- Kept data are those that the client sees in the same object. -/
theorem keptData_iff {t : Ast} {ds : List (List Piece × Ast)} {m k : List Piece}
    {pss : List (List Piece)} (h : Parts exactName t ds m k pss) :
    KeptData ds m k pss ↔ Repeats ds m k pss := by
  constructor
  · intro hkept
    exact ⟨(keepsTrue_iff (by decide) h.dataSuccess).mp hkept.success,
      (keepsString_iff (by decide) h.message).mp hkept.message,
      (keepsString_iff (by decide) h.eventKey).mp hkept.eventKey,
      (keepsStrings_iff (by decide) h.properties).mp hkept.properties⟩
  · intro hrepeats
    exact ⟨(keepsTrue_iff (by decide) h.dataSuccess).mpr hrepeats.success,
      (keepsString_iff (by decide) h.message).mpr hrepeats.message,
      (keepsString_iff (by decide) h.eventKey).mpr hrepeats.eventKey,
      (keepsStrings_iff (by decide) h.properties).mpr hrepeats.properties⟩

/-- An envelope is kept exactly when the client sees its strings. -/
theorem kept_iff {t : Ast} {ds : List (List Piece × Ast)} {m k : List Piece}
    {pss : List (List Piece)} (h : Parts exactName t ds m k pss)
    (hm : NonBlank (decodeString hexUnit m)) (hk : NonBlank (decodeString hexUnit k)) :
    Kept t ds m k pss ↔ Envelope matchesField goUnits t (decodeString hexUnit m)
      (decodeString hexUnit k) (pss.map (decodeString hexUnit)) := by
  -- the data that the client sees, and what they are to say
  have hdata : (match variant "data" (members t) with
      | some x => ∃ ds', x = .obj ds' ∧ Repeats ds' m k pss
      | none => KeptData ds m k pss) ↔
      ∃ ds', lastNamed (matchesField "data") (members t) = some (.obj ds') ∧ Repeats ds' m k pss := by
    rw [lastNamed_matches (by decide), h.data]
    cases variant "data" (members t) with
    | some x => simp
    | none => simp [keptData_iff h]
  constructor
  · intro hkept
    obtain ⟨ds', hds', hrepeats⟩ := hdata.mp hkept.data
    obtain ⟨m', hm', hmessage⟩ := hrepeats.message
    obtain ⟨k', hk', heventKey⟩ := hrepeats.eventKey
    obtain ⟨pss', hpss', hproperties⟩ := hrepeats.properties
    exact ⟨ds', m', k', pss', ⟨(keepsTrue_iff (by decide) h.success).mp hkept.success, hds',
      hrepeats.success, hm', hk', hpss'⟩, hmessage, heventKey, hproperties, hm, hk⟩
  · intro henv
    obtain ⟨ds', m', k', pss', hparts, hmessage, heventKey, hproperties, -, -⟩ := henv
    refine ⟨(keepsTrue_iff (by decide) h.success).mpr hparts.success, hdata.mpr ⟨ds', hparts.data, ?_⟩⟩
    exact ⟨hparts.dataSuccess, ⟨m', hparts.message, hmessage⟩, ⟨k', hparts.eventKey, heventKey⟩,
      pss', hparts.properties, hproperties⟩

/-- The client sees an envelope exactly when the members make one up. -/
theorem complete_matches_iff {t : Ast} : Complete matchesField t ↔
    ∃ message eventKey properties, Envelope matchesField goUnits t message eventKey properties := by
  constructor
  · intro h
    obtain ⟨ds, m, k, pss, hparts, hm, hk⟩ := h
    exact ⟨_, _, _, ds, m, k, pss, hparts, rfl, rfl, rfl, (nonBlank_ofUtf16Lossy _).mpr hm,
      (nonBlank_ofUtf16Lossy _).mpr hk⟩
  · intro h
    obtain ⟨_, _, _, ds, m, k, pss, hparts, rfl, rfl, rfl, hm, hk⟩ := h
    exact ⟨ds, m, k, pss, hparts, (nonBlank_ofUtf16Lossy _).mp hm, (nonBlank_ofUtf16Lossy _).mp hk⟩

/-- A text has one envelope. -/
theorem Envelope.unique {same : String → List Piece → Bool} {value : List Piece → List CodeUnit}
    {t : Ast} {message message' eventKey eventKey' : List CodeUnit}
    {properties properties' : List (List CodeUnit)}
    (h : Envelope same value t message eventKey properties)
    (h' : Envelope same value t message' eventKey' properties') :
    message = message' ∧ eventKey = eventKey' ∧ properties = properties' := by
  obtain ⟨ds, m, k, pss, hparts, rfl, rfl, rfl, -⟩ := h
  obtain ⟨ds', m', k', pss', hparts', rfl, rfl, rfl, -⟩ := h'
  have hds : ds = ds' := by simpa using hparts.data.symm.trans hparts'.data
  subst hds
  have hm : m = m' := by simpa using hparts.message.symm.trans hparts'.message
  have hk : k = k' := by simpa using hparts.eventKey.symm.trans hparts'.eventKey
  have hpss : pss.map Ast.str = pss'.map Ast.str := by
    simpa using hparts.properties.symm.trans hparts'.properties
  have hinjective : Function.Injective (List.map Ast.str) :=
    List.map_injective_iff.mpr fun _ _ heq => Ast.str.inj heq
  exact ⟨by rw [hm], by rw [hk], by rw [hinjective hpss]⟩

/-- **The Go client acknowledges exactly the documented envelopes of a body, strings unchanged, when a
    documented envelope nests within the library's limit, every member that is named like a field has a
    type the field takes, no case variant says otherwise and no string has an unpaired surrogate, and
    when neither replaced bytes nor case variants complete an envelope that is none.** -/
theorem acknowledged_iff (texts : UnmarshalTexts) (body : CompleteBody) (attempts : Int) :
    (∀ message eventKey properties,
      Acknowledged texts body attempts message eventKey properties ↔
        Valid body.bytes message eventKey properties) ↔ Indifferent body.bytes := by
  simp only [acknowledged_iff_inspected]
  constructor
  · intro h t ht
    have hsame : ∀ {t'}, Inspected body.bytes t' → t' = t := fun ht' => text_unique ht'.1 ht
    constructor
    · intro hutf8 ds m k pss hparts hm hk
      have hvalid := (valid_iff ht).mpr ⟨hutf8, ds, m, k, pss, hparts, rfl, rfl, rfl, hm, hk⟩
      obtain ⟨t', ht', henv⟩ := (h _ _ _).mpr hvalid
      obtain rfl := hsame ht'
      exact ⟨ht'.2.1, ht'.2.2, (kept_iff hparts hm hk).mpr henv⟩
    · intro hnest hfits hcomplete
      obtain ⟨message, eventKey, properties, henv⟩ := complete_matches_iff.mp hcomplete
      have hvalid := (h message eventKey properties).mp ⟨t, ⟨ht, hnest, hfits⟩, henv⟩
      obtain ⟨hutf8, ds, m, k, pss, hparts, rfl, rfl, -, hm, hk⟩ := (valid_iff ht).mp hvalid
      exact ⟨hutf8, ds, m, k, pss, hparts, hm, hk⟩
  · intro h message eventKey properties
    constructor
    · intro hack
      obtain ⟨t, ⟨ht, hnest, hfits⟩, henv⟩ := hack
      obtain ⟨hundisturbed, hunaided⟩ := h t ht
      obtain ⟨hutf8, ds, m, k, pss, hparts, hm, hk⟩ :=
        hunaided hnest hfits (complete_matches_iff.mpr ⟨_, _, _, henv⟩)
      -- the documented envelope is the one the client saw
      have hkept := (hundisturbed hutf8 ds m k pss hparts hm hk).2.2
      obtain ⟨rfl, rfl, rfl⟩ := henv.unique ((kept_iff hparts hm hk).mp hkept)
      exact (valid_iff ht).mpr ⟨hutf8, ds, m, k, pss, hparts, rfl, rfl, rfl, hm, hk⟩
    · intro hvalid
      obtain ⟨cs, t, hcs, ht, henv⟩ := hvalid
      have htext : Text rfc8259 t (unmarshalText body.bytes) := by
        unfold unmarshalText
        rw [← hcs, ofUtf8Bytewise_utf8]
        exact ht
      obtain ⟨ds, m, k, pss, hparts, rfl, rfl, rfl, hm, hk⟩ := henv
      obtain ⟨hnest, hfits, hkept⟩ := (h t htext).1 ⟨cs, hcs⟩ ds m k pss hparts hm hk
      exact ⟨t, ⟨htext, hnest, hfits⟩, (kept_iff hparts hm hk).mp hkept⟩

/-! ## §6. A field that differs in case. -/

/-- A success envelope with one more field, `Success`. -/
def extraFieldTree : Ast :=
  .obj [(plainPieces ['s', 'u', 'c', 'c', 'e', 's', 's'], .bool true),
    (plainPieces ['d', 'a', 't', 'a'],
      .obj [(plainPieces ['s', 'u', 'c', 'c', 'e', 's', 's'], .bool true),
        (plainPieces ['m', 'e', 's', 's', 'a', 'g', 'e'], .str (plainPieces ['o', 'k'])),
        (plainPieces ['e', 'v', 'e', 'n', 't', '_', 'k', 'e', 'y'], .str (plainPieces ['k'])),
        (plainPieces ['v', 'a', 'l', 'i', 'd', 'a', 't', 'e', 'd', '_', 'p', 'r', 'o', 'p', 'e', 'r',
          't', 'i', 'e', 's'], .arr [])]),
    (plainPieces ['S', 'u', 'c', 'c', 'e', 's', 's'], .bool false)]

/-- Its text. -/
def extraFieldChars : List Char :=
  ['{', '"', 's', 'u', 'c', 'c', 'e', 's', 's', '"', ':', 't', 'r', 'u', 'e', ',', '"', 'd', 'a', 't',
   'a', '"', ':', '{', '"', 's', 'u', 'c', 'c', 'e', 's', 's', '"', ':', 't', 'r', 'u', 'e', ',', '"',
   'm', 'e', 's', 's', 'a', 'g', 'e', '"', ':', '"', 'o', 'k', '"', ',', '"', 'e', 'v', 'e', 'n', 't',
   '_', 'k', 'e', 'y', '"', ':', '"', 'k', '"', ',', '"', 'v', 'a', 'l', 'i', 'd', 'a', 't', 'e', 'd',
   '_', 'p', 'r', 'o', 'p', 'e', 'r', 't', 'i', 'e', 's', '"', ':', '[', ']', '}', ',', '"', 'S', 'u',
   'c', 'c', 'e', 's', 's', '"', ':', 'f', 'a', 'l', 's', 'e', '}']

def extraField : CompleteBody where
  bytes := utf8 extraFieldChars
  retained := by decide

theorem extraField_text : Text rfc8259 extraFieldTree (utf16 extraFieldChars) := by
  have htext : utf16 extraFieldChars = extraFieldTree.text := by decide
  rw [htext]
  apply text_text
  simp only [extraFieldTree, Ast.Proper, ProperMembers, ProperElems]
  decide

/-- **A documented envelope that the client refuses** for the sake of a field that is none of its own. -/
theorem extraField_not_acknowledged :
    ¬ ∀ message eventKey properties,
      Acknowledged ⟨fun _ => [], fun _ => []⟩ extraField 1 message eventKey properties ↔
        Valid extraField.bytes message eventKey properties := by
  intro h
  have hvalid : Valid extraField.bytes (units "ok") (units "k") [] := by
    refine ⟨extraFieldChars, extraFieldTree, rfl, extraField_text, ?_⟩
    exact ⟨_, _, _, [], ⟨rfl, rfl, rfl, rfl, rfl, rfl⟩, rfl, rfl, rfl,
      ⟨unit 'o', by decide, by decide⟩, ⟨unit 'k', by decide, by decide⟩⟩
  have hack := (h _ _ _).mpr hvalid
  rw [acknowledged_iff_inspected] at hack
  obtain ⟨t, ⟨htext, -⟩, _, _, _, _, hparts, -⟩ := hack
  have hsame : t = extraFieldTree := by
    unfold unmarshalText extraField at htext
    rw [ofUtf8Bytewise_utf8] at htext
    exact text_unique htext extraField_text
  have hsuccess := hparts.success
  rw [hsame] at hsuccess
  have hlast : lastNamed (matchesField "success") (members extraFieldTree) = some (.bool false) := rfl
  rw [hlast] at hsuccess
  cases hsuccess

end CekatEvents.Go
