/-
  CekatEvents.Go.Submission — what `Client.track` of the Go client sends of a submission.

  The properties are any map that `json.Marshal` writes as a text with the members of the submission's
  properties, in whatever order and with whatever literals for its numbers.  They are decoded, looked through
  and encoded again, the names in an order of their own.

  Main results:
    * `anyValue_eq_raw`   — decoding keeps what a text without repeated names says;
    * `portableNumber_iff` — a literal passes exactly when the double it is read as is portable;
    * `Stands.served`     — the encoder serves the submission.
-/
import CekatEvents.Go.Outcomes
import CekatEvents.JsonText.Reread
import CekatEvents.Payload.Submission

namespace CekatEvents.Go

open CekatEvents.Arithmetic CekatEvents.Effects CekatEvents.Encoding CekatEvents.JsonText
  CekatEvents.Payload

/-! ## §1. Decoding. -/

/-- Members of different names are put one after another. -/
theorem anyMembers_distinct (ms : List (List Piece × Ast)) (acc : List (List CodeUnit × Value Numeral))
    (h : (acc.map Prod.fst ++ ms.map fun m => utf16 (goString m.1)).Nodup) :
    anyMembers acc ms = acc ++ ms.map fun m => (utf16 (goString m.1), anyValue m.2) := by
  induction ms generalizing acc with
  | nil => exact (List.append_nil acc).symm
  | cons m ms ih =>
      obtain ⟨k, x⟩ := m
      -- the name is none of those before it, which the accumulator holds, and none of those after it
      rw [List.map_cons, List.nodup_middle, List.nodup_cons] at h
      obtain ⟨hfresh, hnodup⟩ := h
      have hnew : utf16 (goString k) ∉ acc.map Prod.fst := fun hmem => hfresh (List.mem_append_left _ hmem)
      show anyMembers (putKey acc (utf16 (goString k)) (anyValue x)) ms = _
      rw [putKey_of_fresh _ hnew, ih, List.append_assoc, List.map_cons, List.cons_append, List.nil_append]
      rw [List.map_append, List.append_assoc, List.map_singleton, List.singleton_append, List.nodup_middle,
        List.nodup_cons]
      exact ⟨hfresh, hnodup⟩

/-- A string of Unicode is decoded as it stands. -/
theorem goString_wellFormed {ps : List Piece} (h : WellFormed (decodeString hexUnit ps)) :
    utf16 (goString ps) = decodeString hexUnit ps := utf16_ofUtf16Lossy h

/-- **What a text without repeated names says is what it is decoded to**, when it is Unicode. -/
theorem anyValue_eq_raw {t : Ast} (hproper : t.Proper rfc8259) (hunicode : (t.raw literalDecoder).Unicode)
    (hdistinct : (t.raw literalDecoder).Distinct) : anyValue t = t.raw literalDecoder := by
  induction t using Ast.induction with
  | null => rfl
  | bool b => rfl
  | nonFinite c => exact absurd hproper Bool.false_ne_true
  | num n => rfl
  | str ps => exact congrArg Value.str (goString_wellFormed hunicode)
  | arr xs ih =>
      have hproper := properElems_iff.mp hproper
      have hunicode : EachElem WellFormed _ (rawElems literalDecoder xs) := hunicode
      have hdistinct : EachElem _ List.Nodup (rawElems literalDecoder xs) := hdistinct
      rw [rawElems_eq_map, eachElem_iff, List.forall_mem_map] at hunicode hdistinct
      show Value.arr (anyElems xs) = .arr (rawElems literalDecoder xs)
      rw [anyElems_eq_map, rawElems_eq_map]
      congr 1
      apply List.map_congr_left
      intro x hx
      exact ih x hx (hproper x hx) (hunicode x hx) (hdistinct x hx)
  | obj ms ih =>
      have hproper := properMembers_iff.mp hproper
      have hunicode : _ ∧ EachMember WellFormed _ (rawMembers literalDecoder ms) := hunicode
      have hdistinct : List.Nodup ((rawMembers literalDecoder ms).map Prod.fst) ∧
          EachMember _ List.Nodup (rawMembers literalDecoder ms) := hdistinct
      rw [rawMembers_eq_map, eachMember_iff, List.forall_mem_map] at hunicode hdistinct
      rw [List.map_map] at hdistinct
      obtain ⟨-, hunicode⟩ := hunicode
      obtain ⟨hnodup, hdistinct⟩ := hdistinct
      have hname : ∀ m ∈ ms, utf16 (goString m.1) = decodeString hexUnit m.1 :=
        fun m hm => goString_wellFormed (hunicode m hm).1
      show Value.obj (anyMembers [] ms) = .obj (rawMembers literalDecoder ms)
      rw [anyMembers_distinct, List.nil_append, rawMembers_eq_map]
      · congr 1
        apply List.map_congr_left
        intro m hm
        rw [hname m hm, ih m hm (hproper m hm).2 (hunicode m hm).2 (hdistinct m hm).2]
        rfl
      · rw [List.map_nil, List.nil_append, List.map_congr_left hname]
        exact hnodup

/-! ## §2. Numbers. -/

/-- **A literal passes exactly when the double it is read as is portable.** -/
theorem portableNumber_iff (n : Numeral) : portableNumber n = true ↔ (readDouble n).Portable := by
  unfold portableNumber
  split_ifs with hint
  · -- without a fraction and an exponent it is the integer of its digits
    rw [Bool.and_eq_true, Option.isNone_iff_eq_none, Option.isNone_iff_eq_none] at hint
    have habs : n.abs = (natValue n.int : ℚ) := by
      unfold Numeral.abs
      rw [hint.1, hint.2]
      simp [expValue]
    have hround : readDouble n = nearest n.neg (natValue n.int : ℚ) (Nat.cast_nonneg _) := by
      unfold readDouble
      congr 1
    rw [decide_eq_true_eq, hround, nearest_portable_iff]
  · exact portable?_isSome_iff

/-- **Nothing is reported exactly when every number passes.** -/
theorem unportable_eq_nil_iff {v : Value Numeral} {path : List Char} :
    unportable path v = [] ↔ v.Numbers fun n => portableNumber n = true := by
  induction v using Value.induction generalizing path with
  | null => exact iff_of_true rfl trivial
  | bool b => exact iff_of_true rfl trivial
  | str s => exact iff_of_true rfl trivial
  | num n =>
      show (if portableNumber n then [] else [path]) = [] ↔ portableNumber n = true
      cases portableNumber n with
      | true => simp
      | false => simp
  | arr xs ih =>
      -- an element further on has another path, so the index is generalised
      have helems : ∀ index, unportableElems path index xs = [] ↔
          ∀ x ∈ xs, x.Numbers fun n => portableNumber n = true := by
        induction xs with
        | nil => simp [unportableElems]
        | cons x xs ihs =>
            intro index
            have hx : unportable (indexPath path index) x = [] ↔ x.Numbers fun n => portableNumber n = true :=
              ih x List.mem_cons_self
            have hxs := ihs (fun y hy => ih y (List.mem_cons_of_mem x hy)) (index + 1)
            rw [List.forall_mem_cons, ← hx, ← hxs, unportableElems]
            cases unportable (indexPath path index) x with
            | nil => simp
            | cons p ps => simp
      exact (helems 0).trans numbersElem_iff.symm
  | obj ms ih =>
      have hmembers : unportableMembers path ms = [] ↔
          ∀ m ∈ ms, m.2.Numbers fun n => portableNumber n = true := by
        induction ms with
        | nil => simp [unportableMembers]
        | cons m ms ihs =>
            obtain ⟨k, x⟩ := m
            rw [List.forall_mem_cons, unportableMembers, List.append_eq_nil_iff,
              ih (k, x) List.mem_cons_self, ihs fun n hn => ih n (List.mem_cons_of_mem _ hn)]
      exact hmembers.trans numbersMember_iff.symm

/-- The order of names does not matter to what a value says. -/
theorem sortKeys_alike {μ : Type} {N : Numeral → μ → Prop} {v : Value Numeral} {w : Value μ} (h : v.Alike N w) :
    (sortKeys v).Alike N w := by
  induction v using Value.induction generalizing w with
  | null => exact h
  | bool b => exact h
  | num n => exact h
  | str s => exact h
  | arr xs ih =>
      obtain ⟨ys, rfl, hxs⟩ := alike_arr_iff.mp h
      show (Value.arr (sortElems xs)).Alike N _
      rw [sortElems_eq_map]
      exact alike_arr (List.forall₂_map_left_iff.mpr (forall₂_of_mem (fun x hx _ hxy => ih x hx hxy) hxs))
  | obj ms ih =>
      obtain ⟨ns, ns', rfl, hns, hms⟩ := alike_obj_iff.mp h
      -- the members in the order they were in are related one by one
      apply alike_obj_perm (sorted_perm ms)
      refine alike_obj_iff.mpr ⟨ns, ns', rfl, hns, List.forall₂_map_left_iff.mpr (forall₂_of_mem ?_ hms)⟩
      intro m hm n hmn
      exact ⟨hmn.1, ih m hm hmn.2⟩

/-! ## §3. Properties. -/

/-- **The text writes the value member by member**, in UTF-8. -/
def BodyWrites (text : Bytes) (w : Value Numeral) : Prop := ∃ cs, utf8 cs = text ∧ Writes (utf16 cs) w

section Properties

variable {P : Type} {platform : Platform P}

/-- The map stands for the properties: `json.Marshal` writes them. -/
def PropertiesStand (platform : Platform P) (properties : Option P) : Option (Value ℚ) → Prop
  | none => properties = none
  | some v => ∃ p text w, properties = some p ∧ platform.marshalProperties p = .ok text ∧
      BodyWrites text w ∧ w.Alike Reads v

/-- **Properties are kept as what is written of them**, when every number passes, and only then. -/
theorem normalizeProperties_ok_iff {p : P} {text : Bytes} {ms : List (List CodeUnit × Value Numeral)}
    (hmarshal : platform.marshalProperties p = .ok text) (hwrites : BodyWrites text (.obj ms))
    (hunicode : (Value.obj ms).Unicode) (hdistinct : (Value.obj ms).Distinct)
    (hdeep : (Value.obj ms).nesting ≤ maxNestingDepth) {o : List (List CodeUnit × Value Numeral)} :
    normalizeProperties platform (some p) = .ok o ↔
      (Value.obj ms).Numbers (fun n => portableNumber n = true) ∧ ms = o := by
  obtain ⟨cs, rfl, t, ht, hraw⟩ := hwrites
  have hproper : t.Proper rfc8259 := by
    obtain ⟨a, u, b, -, hu, -⟩ := ht
    exact spells_proper hu
  -- what Marshal wrote is UTF-8, so Unmarshal reads that text and no other
  have htree : syntaxTree platform.texts (utf8 cs) = .ok t := by
    apply (syntaxTree_ok_iff platform.texts).mpr
    unfold unmarshalText
    rw [ofUtf8Bytewise_utf8]
    refine ⟨ht, ?_⟩
    rw [← hraw] at hdeep
    exact nesting_raw_le.mp hdeep
  have hany : anyValue t = .obj ms := by
    rw [← hraw] at hunicode hdistinct ⊢
    exact anyValue_eq_raw hproper hunicode hdistinct
  -- the text of an object is unmarshalled into a map without an error
  have hmap : unmarshalMap platform.texts t = .ok ms := by
    cases t with
    | obj members =>
        have heq : Value.obj (anyMembers [] members) = .obj ms := hany
        exact congrArg Except.ok (Value.obj.inj heq)
    | _ => cases hraw
  have hnil : unportableMembers "properties".toList ms = [] ↔
      (Value.obj ms).Numbers fun n => portableNumber n = true := unportable_eq_nil_iff (v := .obj ms)
  rw [← hnil]
  unfold normalizeProperties
  constructor
  · intro h
    obtain ⟨encoded, hencoded, h⟩ := bind_ok_iff.mp h
    cases hmarshal.symm.trans (mapError_ok_iff.mp hencoded)
    obtain ⟨tree, ht', h⟩ := bind_ok_iff.mp h
    cases htree.symm.trans (mapError_ok_iff.mp ht')
    obtain ⟨normalized, hnormalized, h⟩ := bind_ok_iff.mp h
    cases hmap.symm.trans (mapError_ok_iff.mp hnormalized)
    cases hpaths : unportableMembers "properties".toList ms with
    | nil =>
        rw [hpaths] at h
        exact ⟨rfl, Except.ok.inj h⟩
    | cons path paths =>
        rw [hpaths] at h
        cases h
  · intro h
    obtain ⟨hpaths, rfl⟩ := h
    refine bind_ok_iff.mpr ⟨_, mapError_ok_iff.mpr hmarshal, ?_⟩
    refine bind_ok_iff.mpr ⟨_, mapError_ok_iff.mpr htree, ?_⟩
    refine bind_ok_iff.mpr ⟨_, mapError_ok_iff.mpr hmap, ?_⟩
    rw [hpaths]
    rfl

/-- A validation error. -/
def Error.IsValidation : Error → Prop
  | .validation _ => True
  | _ => False

/-- Properties are refused with a validation error. -/
theorem normalizeProperties_raises (properties : Option P) :
    Raises Error.IsValidation (normalizeProperties platform properties) := by
  have hmapped : ∀ {α : Type} (x : Except Cause α), Raises Error.IsValidation (x.mapError incompatibleProperties) :=
    fun x => raises_mapError.mpr fun _ _ => trivial
  cases properties with
  | none => exact raises_ok
  | some p =>
      unfold normalizeProperties
      refine raises_bind.mpr ⟨hmapped _, fun encoded _ => raises_bind.mpr ⟨hmapped _, fun tree _ => ?_⟩⟩
      refine raises_bind.mpr ⟨hmapped _, fun normalized _ => ?_⟩
      split
      · exact raises_ok
      · exact raises_error_iff.mpr trivial

/-- **The properties of a submission are let through when their numbers are within the limits.** -/
theorem PropertiesStand.normalized {properties : Option P} {q : Option (Value ℚ)}
    (h : PropertiesStand platform properties q) (hq : ∀ v ∈ q, Plain v) :
    ((∀ v ∈ q, v.Numbers fun x => unsafeIntegral x = false) → ∃ o, normalizeProperties platform properties = .ok o) ∧
      ∀ o, normalizeProperties platform properties = .ok o →
        Option.Rel (Value.Alike Reads) (if o.isEmpty then none else some (sortKeys (.obj o))) q ∧
          ∀ v ∈ q, v.Numbers fun x => unsafeIntegral x = false := by
  cases q with
  | none =>
      have hnone : properties = none := h
      rw [hnone]
      refine ⟨fun _ => ⟨[], rfl⟩, ?_⟩
      intro o ho
      cases ho
      exact ⟨.none, fun v hv => absurd hv (by simp)⟩
  | some v =>
      obtain ⟨p, text, w, rfl, hmarshal, hwrites, halike⟩ := h
      have hv := hq v rfl
      obtain ⟨m, ms, rfl⟩ := hv.members
      -- what is written is an object with members too, so `omitempty` keeps it
      have hsymm : (Value.obj (m :: ms)).Alike (flip Reads) w := halike.symm fun _ _ => id
      obtain ⟨ns, ns', rfl, hns, hmembers⟩ := alike_obj_iff.mp hsymm
      have hempty : ns.isEmpty = false := by
        have hlen := hns.length_eq
        have hlen' := hmembers.length_eq
        cases ns with
        | nil => simp_all
        | cons n ns => rfl
      have hnumbers : (Value.obj ns).Numbers (fun n => portableNumber n = true) ↔
          (Value.obj (m :: ms)).Numbers fun x => unsafeIntegral x = false := by
        apply halike.numbers_iff
        intro n x hnx
        rw [portableNumber_iff]
        exact hnx.portable_iff
      have hok := fun o => normalizeProperties_ok_iff (o := o) hmarshal hwrites (halike.unicode_iff.mpr hv.unicode)
        (halike.distinct_iff.mpr hv.distinct) (halike.nesting_eq ▸ hv.nesting.trans (by decide))
      constructor
      · intro hsafe
        exact ⟨ns, (hok ns).mpr ⟨hnumbers.mpr (hsafe _ rfl), rfl⟩⟩
      · intro o ho
        obtain ⟨hportable, rfl⟩ := (hok o).mp ho
        rw [hempty]
        refine ⟨.some (sortKeys_alike halike), ?_⟩
        intro u hu
        cases hu
        exact hnumbers.mp hportable

end Properties

/-! ## §4. Texts. -/

/-- **A settled text is trimmed as everywhere.** -/
theorem TrimSpace_settled {cs : List Char} (h : Settled cs) : TrimSpace (utf8 cs) = utf8 (trimCommon cs) := by
  rw [TrimSpace_utf8, trim_settled h]
  intro c hc
  unfold isDisputedSpace isSeparator isBreakingSeparator at hc
  simp only [Bool.or_eq_false_iff, beq_eq_false_iff_ne, decide_eq_false_iff_not] at hc
  unfold isSpace isCommonSpace
  rw [Bool.eq_iff_iff]
  simp only [Bool.or_eq_true, Bool.and_eq_true, beq_iff_eq, decide_eq_true_eq]
  omega

/-- The bytes of a text, none when there is no text. -/
def bytesOf (o : Option (List Char)) : Bytes := o.elim [] utf8

theorem readOptional_utf8 {cs : List Char} (h : cs ≠ []) : readOptional (utf8 cs) = some (.str (utf16 cs)) := by
  unfold readOptional readString
  rw [if_neg (mt utf8_eq_nil_iff.mp h), ofUtf8Bytewise_utf8]

/-- The text that is there is read. -/
theorem readOptional_bytesOf {o : Option (List Char)} (h : ∀ cs ∈ o, cs ≠ []) :
    readOptional (bytesOf o) = (o.map utf16).map .str := by
  cases o with
  | none => rfl
  | some cs => exact readOptional_utf8 (h cs rfl)

theorem notBlank_iff {o : Option (List Char)} (h : Filled o) : TrimSpace (bytesOf o) ≠ [] ↔ NotBlank o := by
  cases o with
  | none =>
      have hnil : TrimSpace (bytesOf none) = [] :=
        TrimSpace_settled (fun c hc => absurd hc List.not_mem_nil : Settled [])
      simp [NotBlank, hnil]
  | some cs =>
      show TrimSpace (utf8 cs) ≠ [] ↔ _
      rw [TrimSpace_settled (h cs rfl).1, Ne, utf8_eq_nil_iff]
      simp [NotBlank]

/-- **A trimmed text**, the empty string when nothing is left of it. -/
theorem TrimSpace_bytesOf {o : Option (List Char)} (h : OptionSettled o) :
    TrimSpace (bytesOf o) = bytesOf (trimmed o) := by
  cases o with
  | none => exact TrimSpace_settled (fun c hc => absurd hc List.not_mem_nil : Settled [])
  | some cs =>
      show TrimSpace (utf8 cs) = _
      rw [TrimSpace_settled (h cs rfl), trimmed_some]
      by_cases hempty : trimCommon cs = []
      · rw [if_pos hempty, hempty]
        rfl
      · rw [if_neg hempty]
        rfl

/-! ## §5. Calls. -/

/-- **The event of a call, its clock and its generator stand for the submission.** -/
structure Stands {P : Type} (platform : Platform P) (seams : Seams) (event : Event P) (s : Submission) : Prop where
  email : event.email = bytesOf s.email
  phoneNumber : event.phoneNumber = bytesOf s.phoneNumber
  contactName : event.contactName = bytesOf s.contactName
  visitorID : event.visitorID = bytesOf s.visitorId
  eventID : event.eventID = bytesOf s.eventId
  occurredAt : event.occurredAt = s.occurredAt
  properties : PropertiesStand platform event.properties s.properties
  newEventID : seams.newEventID = utf8 s.newEventId
  now : seams.now = s.now

section Calls

variable {P : Type} {platform : Platform P} {seams : Seams} {event : Event P} {s : Submission}

/-- **The event is let through when there is a key and an identity.** -/
theorem Stands.validateEvent_ok_iff (h : Stands platform seams event s) (hs : s.Neutral) {u : Unit} :
    validateEvent (utf8 s.eventKey) event = .ok u ↔
      trimCommon s.eventKey ≠ [] ∧ (NotBlank s.email ∨ NotBlank s.phoneNumber) := by
  have htime : event.occurredAt = none ∨ ∃ t, event.occurredAt = some t ∧ t.inYears = true := by
    cases ht : event.occurredAt with
    | none => exact .inl rfl
    | some t =>
        obtain ⟨hlow, hhigh⟩ := hs.time t (h.occurredAt.symm.trans ht)
        refine .inr ⟨t, rfl, ?_⟩
        unfold Timestamp.inYears
        rw [decide_eq_true_eq]
        omega
  have hblankKey : TrimSpace (utf8 s.eventKey) = [] ↔ trimCommon s.eventKey = [] := by
    rw [TrimSpace_settled hs.eventKey, utf8_eq_nil_iff]
  unfold validateEvent
  rw [h.email, h.phoneNumber, ← notBlank_iff hs.email, ← notBlank_iff hs.phoneNumber]
  show _ ↔ ¬ trimCommon s.eventKey = [] ∧ _
  rw [← hblankKey]
  by_cases hkey : TrimSpace (utf8 s.eventKey) = []
  · rw [if_pos hkey]
    exact iff_of_false nofun fun hboth => hboth.1 hkey
  · rw [if_neg hkey]
    by_cases hblank : TrimSpace (bytesOf s.email) = [] ∧ TrimSpace (bytesOf s.phoneNumber) = []
    · rw [if_pos hblank]
      exact iff_of_false nofun fun hboth => hboth.2.elim (fun he => he hblank.1) fun hp => hp hblank.2
    · rw [if_neg hblank]
      refine iff_of_true ?_ ⟨hkey, not_and_or.mp hblank⟩
      rcases htime with hnone | ⟨t, ht, hyears⟩
      · simp only [hnone]
      · simp only [ht, hyears, if_true]

theorem validateEvent_raises (eventKey : Bytes) (event : Event P) :
    Raises Error.IsValidation (validateEvent eventKey event) := by
  unfold validateEvent
  split_ifs
  · exact raises_error_iff.mpr trivial
  · exact raises_error_iff.mpr trivial
  · split
    · exact raises_ok
    · split_ifs
      · exact raises_ok
      · exact raises_error_iff.mpr trivial

/-- The payload of such an event with these properties. -/
def wireOf (s : Submission) (properties : List (List CodeUnit × Value Numeral)) : WirePayload where
  eventKey := utf8 s.eventKey
  eventID := utf8 s.sentEventId
  occurredAt := s.time.iso
  contactName := bytesOf s.contactName
  phoneNumber := bytesOf s.phoneNumber
  email := bytesOf s.email
  visitorID := bytesOf s.sentVisitorId
  isCommon := s.isCommon
  properties := properties

theorem Stands.eventID_sent (h : Stands platform seams event s) (hs : s.Neutral) :
    (if TrimSpace event.eventID = [] then seams.newEventID else TrimSpace event.eventID) = utf8 s.sentEventId := by
  unfold Submission.sentEventId
  rw [h.eventID, h.newEventID, TrimSpace_bytesOf hs.eventId]
  cases ht : trimmed s.eventId with
  | none => rfl
  | some cs => exact if_neg (mt utf8_eq_nil_iff.mp (trimmed_ne_nil ht))

/-- **The visitor of the event before the one of the context.** -/
theorem Stands.visitorID_sent (h : Stands platform seams event s) (hs : s.Neutral) :
    (if TrimSpace event.visitorID = [] then (withVisitorID none (bytesOf s.ambientVisitorId)).getD []
      else TrimSpace event.visitorID) = bytesOf s.sentVisitorId := by
  -- the context carries the trimmed ID, and none when nothing is left of it
  have hambient : (withVisitorID none (bytesOf s.ambientVisitorId)).getD [] = bytesOf (trimmed s.ambientVisitorId) := by
    unfold withVisitorID
    rw [TrimSpace_bytesOf hs.ambientVisitorId]
    by_cases hnil : bytesOf (trimmed s.ambientVisitorId) = []
    · rw [if_pos hnil, hnil]
      rfl
    · rw [if_neg hnil]
      rfl
  unfold Submission.sentVisitorId
  rw [h.visitorID, TrimSpace_bytesOf hs.visitorId, hambient]
  cases ht : trimmed s.visitorId with
  | none => rfl
  | some cs => exact if_neg (mt utf8_eq_nil_iff.mp (trimmed_ne_nil ht))

/-- **What is delivered is the payload of the submission**, once the event and its properties are let through. -/
theorem Stands.encodeBody_ok_iff (h : Stands platform seams event s) (hs : s.Neutral) {body : Bytes} :
    encodeBody platform seams (withVisitorID none (bytesOf s.ambientVisitorId)) (utf8 s.eventKey) s.isCommon event
        = .ok body ↔
      validateEvent (utf8 s.eventKey) event = .ok () ∧
        ∃ o, normalizeProperties platform event.properties = .ok o ∧ (wireOf s o).marshal = body := by
  have hpayload : ∀ o, (⟨utf8 s.eventKey,
      if TrimSpace event.eventID = [] then seams.newEventID else TrimSpace event.eventID,
      (event.occurredAt.getD seams.now).iso, event.contactName, event.phoneNumber, event.email,
      if TrimSpace event.visitorID = [] then (withVisitorID none (bytesOf s.ambientVisitorId)).getD []
        else TrimSpace event.visitorID, s.isCommon, o⟩ : WirePayload) = wireOf s o := by
    intro o
    rw [h.eventID_sent hs, h.visitorID_sent hs, h.contactName, h.phoneNumber, h.email, h.occurredAt, h.now]
    rfl
  unfold encodeBody buildPayload
  constructor
  · intro hbody
    obtain ⟨p, hp, hbody⟩ := bind_ok_iff.mp hbody
    obtain ⟨⟨⟩, hvalid, hp⟩ := bind_ok_iff.mp hp
    obtain ⟨o, ho, hp⟩ := bind_ok_iff.mp hp
    refine ⟨hvalid, o, ho, ?_⟩
    rw [← Except.ok.inj hbody, ← Except.ok.inj hp, ← hpayload o]
  · intro hboth
    obtain ⟨hvalid, o, ho, rfl⟩ := hboth
    refine bind_ok_iff.mpr ⟨wireOf s o, ?_, rfl⟩
    refine bind_ok_iff.mpr ⟨(), hvalid, bind_ok_iff.mpr ⟨o, ho, ?_⟩⟩
    exact congrArg Except.ok (hpayload o)

/-- The fields of the payload are those of a body in another order. -/
theorem wire_perm (a b c d e f g i j : Option (Value Numeral)) :
    (present wireNames [a, b, c, d, e, f, g, i, j]).Perm (present memberNames [a, b, c, i, f, e, d, g, j]) := by
  apply List.Perm.filterMap
  -- the common flag comes before the three fields of the contact, which are turned round
  refine .cons _ (.cons _ (.cons _ ?_))
  show ([(units "contact_name", d), (units "phone_number", e), (units "email", f), (units "visitor_id", g)] ++
      ((units "is_common", i) :: [(units "properties", j)])).Perm ((units "is_common", i) ::
    ([(units "email", f), (units "phone_number", e), (units "contact_name", d)] ++
      ([(units "visitor_id", g), (units "properties", j)])))
  refine List.perm_middle.trans (.cons _ ?_)
  exact (List.reverse_perm [(units "email", f), (units "phone_number", e), (units "contact_name", d)]).append_right
    [(units "visitor_id", g), (units "properties", j)]

/-- **The payload says the submission.** -/
theorem wireOf_tells (hs : s.Neutral) {o : List (List CodeUnit × Value Numeral)} (hdecoded : Decoded (.obj o))
    (ho : Option.Rel (Value.Alike Reads) (if o.isEmpty then none else some (sortKeys (.obj o))) s.properties) :
    s.Says (wireOf s o).marshal := by
  have hstring : ∀ cs, readString (utf8 cs) = .str (utf16 cs) := by
    intro cs
    unfold readString
    rw [ofUtf8Bytewise_utf8]
  have hvisitor : ∀ cs ∈ s.sentVisitorId, cs ≠ [] := by
    intro cs hcs
    unfold Submission.sentVisitorId at hcs
    rcases Option.or_eq_some_iff.mp hcs with hexplicit | ⟨-, hambient⟩
    · exact trimmed_ne_nil hexplicit
    · exact trimmed_ne_nil hambient
  refine ⟨_, marshal_reads hdecoded, alike_obj_perm (wire_perm _ _ _ _ _ _ _ _ _) ?_⟩
  apply alike_obj
  apply present_alike
  have hfilled : ∀ {o}, Filled o → ∀ cs ∈ o, cs ≠ [] := fun ho cs hcs => (ho cs hcs).2
  unfold wireOf Submission.body Body.values
  simp only [hstring, readOptional_bytesOf (hfilled hs.email), readOptional_bytesOf (hfilled hs.phoneNumber),
    readOptional_bytesOf (hfilled hs.contactName), readOptional_bytesOf hvisitor]
  refine .cons (.some rfl) (.cons (.some rfl) (.cons (.some rfl) (.cons (.some rfl) ?_)))
  refine .cons (optionalString_alike _) (.cons (optionalString_alike _) (.cons (optionalString_alike _) ?_))
  exact .cons (optionalString_alike _) (.cons ho .nil)

/-- **The encoder serves the submission.** -/
theorem Stands.served (h : Stands platform seams event s) (hs : s.Neutral) :
    s.Served Error.IsValidation (encodeBody platform seams (withVisitorID none (bytesOf s.ambientVisitorId))
      (utf8 s.eventKey) s.isCommon event) := by
  obtain ⟨haccepts, honly⟩ := h.properties.normalized hs.properties
  apply Submission.served_of
  · refine raises_bind.mpr ⟨?_, fun p _ => raises_ok⟩
    refine raises_bind.mpr ⟨validateEvent_raises _ _, fun _ _ => ?_⟩
    exact raises_bind.mpr ⟨normalizeProperties_raises _, fun o _ => raises_ok⟩
  · simp only [h.encodeBody_ok_iff hs, h.validateEvent_ok_iff hs]
    constructor
    · intro hsent
      obtain ⟨body, ⟨hkey, hidentity⟩, o, ho, -⟩ := hsent
      exact ⟨hkey, hidentity, (honly o ho).2⟩
    · intro haccepted
      obtain ⟨o, ho⟩ := haccepts haccepted.numbers
      exact ⟨_, ⟨haccepted.eventKey, haccepted.identity⟩, o, ho, rfl⟩
  · intro body hbody
    obtain ⟨-, o, ho, rfl⟩ := (h.encodeBody_ok_iff hs).mp hbody
    exact wireOf_tells hs (normalizeProperties_decoded ho) (honly o ho).1

end Calls

end CekatEvents.Go
