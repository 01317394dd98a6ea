/-
  CekatEvents.Python.Submission — what `build_body` of the Python client makes of a submission.

  The arguments of a call stand for a submission when they are its texts, its times and an object graph that
  stands for its properties, whatever of that graph is shared and whichever numbers are `int`, `float` or
  `Decimal`.

  Main result: `Stands.served` — `build_body` serves the submission.
-/
import CekatEvents.JsonText.Copied
import CekatEvents.Payload.Submission
import CekatEvents.Python.OrderArguments

namespace CekatEvents.Python.Validation

open CekatEvents.Arithmetic CekatEvents.Effects CekatEvents.Encoding CekatEvents.Graph
  CekatEvents.JsonText CekatEvents.Payload

/-! ## §1. Properties. -/

theorem forall₂_of_meansAll {heap : Heap} {xs : List Item} {vs : List (Value Number)}
    (h : MeansAll heap xs vs) : List.Forall₂ (Means heap) xs vs := by
  -- the two relations are mutual; only the lists matter here
  refine @MeansAll.rec heap (fun _ _ _ => True) (fun xs vs _ => List.Forall₂ (Means heap) xs vs)
    ?_ ?_ ?_ ?_ ?_ ?_ ?_ ?_ ?_ ?_ xs vs h
  · exact trivial
  · exact fun _ => trivial
  · exact fun _ => trivial
  · exact fun _ => trivial
  · exact fun _ => trivial
  · exact fun _ => trivial
  · exact fun _ _ _ => trivial
  · exact fun _ _ _ _ => trivial
  · exact .nil
  · exact fun hx _ _ hxs => .cons hx hxs

/-- A floating-point number is let through when it is portable. -/
theorem floatLeaf_step {heap : Heap} {x : Item} {y : Finite} (hshape : (graph heap).shape x = .leaf (floatLeaf (.finite y))) :
    Follows.Step (graph heap) (Means heap) (Value.Alike Eq) (Value.Numbers Number.Portable) Value.nesting x
      (.num (.float y)) := by
  apply number_step hshape
  · intro w hw
    obtain ⟨z, hz, hportable, rfl⟩ := floatLeaf_eq_ok hw
    cases hz
    exact ⟨_, rfl, rfl, hportable⟩
  · intro h
    exact floatLeaf_ok_iff.mpr h

/-- The names of a dict are those of its keys. -/
theorem dictNames_eq {items : List (Key × Item)} {names : List (List Char)}
    (h : (items.map fun p => p.1.name?.bind chars?) = names.map some) :
    (∀ p ∈ items, ∃ s, p.1 = .str s ∧ Encodable s) ∧ dictNames items = names.map utf16 := by
  have hkeys : ∀ p ∈ items, ∃ s, p.1 = .str s ∧ Encodable s := by
    intro p hp
    have hmem := List.mem_map_of_mem (f := fun p : Key × Item => p.1.name?.bind chars?) hp
    rw [h] at hmem
    obtain ⟨cs, -, hcs⟩ := List.mem_map.mp hmem
    obtain ⟨s, hs, hchars⟩ := Option.bind_eq_some_iff.mp hcs.symm
    cases hkey : p.1 with
    | other =>
        rw [hkey] at hs
        cases hs
    | str r =>
        rw [hkey] at hs
        cases hs
        exact ⟨s, rfl, cs, hchars⟩
  rw [keyChars_names hkeys] at h
  have hchars := (List.map_injective_iff.mpr (Option.some_injective _)) h
  refine ⟨hkeys, ?_⟩
  rw [← hchars, List.map_map]
  rfl

/-- **What the properties mean follows the graph that `_normalize` walks.** -/
theorem means_follows (heap : Heap) :
    Follows (graph heap) (Means heap) (Value.Alike Eq) (Value.Numbers Number.Portable) Value.nesting := by
  intro x v h
  cases h with
  | null => exact leaf_step rfl rfl trivial
  | bool b => exact leaf_step rfl rfl trivial
  | @str s cs hs =>
      have hleaf : (graph heap).shape (.str s) = .leaf (.ok (.str (utf16 cs))) := by
        show Shape.leaf (strLeaf s) = _
        unfold strLeaf
        rw [hs]
      exact leaf_step hleaf rfl trivial
  | int n =>
      apply number_step rfl
      · intro w hw
        split_ifs at hw with hn
        cases hw
        exact ⟨_, rfl, rfl, hn⟩
      · intro hn
        exact ⟨_, if_pos hn⟩
  | float y => exact floatLeaf_step rfl
  | @decimal neg coefficient exponent y hy =>
      -- a decimal is sent as the float it is converted to
      apply floatLeaf_step
      rw [← hy]
      rfl
  | @sequence id items vs hseq hvs =>
      refine array_step (shape_sequence hseq) ?_ ?_ fun _ => rfl
      · exact forall₂_items (sequenceEntries_items items) (forall₂_of_meansAll hvs)
      · intro e he
        obtain ⟨i, hi, rfl⟩ := List.mem_mapIdx.mp he
        exact ⟨rfl, rfl⟩
  | @dict id d names vs hcell hnames hvs =>
      obtain ⟨hkeys, hsame⟩ := dictNames_eq hnames
      refine object_step (shape_dict hcell) ?_ (dictEntries_iff.mpr hkeys) ?_ ?_
      · exact forall₂_items (dictEntries_items d.items) (forall₂_of_meansAll hvs)
      · have hlen := congrArg List.length hnames
        rw [List.length_map, List.length_map] at hlen
        unfold dictEntries
        rw [List.length_map, List.length_map, hlen]
      · intro ws _
        rw [hsame]

/-- **Properties that mean a value within the levels are let through when its numbers are portable**, and are
    that value. -/
theorem normalize_meant {heap : Heap} {x : Item} {w : Value Number} (h : Means heap x w)
    (hdeep : w.nesting ≤ MAX_DEPTH) :
    (w.Numbers Number.Portable → ∃ v, normalize heap x = .ok v) ∧
      ∀ v, normalize heap x = .ok v → v.Alike Eq w ∧ w.Numbers Number.Portable := by
  constructor
  · intro hw
    obtain ⟨v, hv, -⟩ := (means_follows heap).unfolds h hw
    exact ⟨v, normalize_eq_ok_iff.mpr (hv.mono (Nat.succ_le_succ hdeep))⟩
  · intro v hv
    exact (means_follows heap).of_unfolds h (normalize_eq_ok_iff.mp hv)

/-- The object stands for the properties. -/
def PropertiesStand (heap : Heap) (x : Item) : Option (Value ℚ) → Prop
  | none => x = .none
  | some v => ∃ w, Means heap x w ∧ w.Alike (fun n q => n.value = q) v

/-- An object means a dict. -/
theorem isMapping_of_means {heap : Heap} {x : Item} {ms : List (List CodeUnit × Value Number)}
    (h : Means heap x (.obj ms)) : isMapping heap x = true := by
  generalize hw : Value.obj ms = w at h
  cases h with
  | dict hcell _ _ => simp only [isMapping, hcell]
  | _ => cases hw

/-- **The properties of a submission are let through when their numbers are within the limits.** -/
theorem PropertiesStand.built {heap : Heap} {x : Item} {p : Option (Value ℚ)} (h : PropertiesStand heap x p)
    (hp : ∀ v ∈ p, Plain v) :
    ((∀ v ∈ p, v.Numbers fun q => unsafeIntegral q = false) → ∃ o, buildProperties heap x = .ok o) ∧
      ∀ o, buildProperties heap x = .ok o →
        Option.Rel (Value.Alike fun n q => Number.value n = q) o p ∧
          ∀ v ∈ p, v.Numbers fun q => unsafeIntegral q = false := by
  cases p with
  | none =>
      have hx : x = .none := h
      rw [hx]
      refine ⟨fun _ => ⟨none, rfl⟩, ?_⟩
      intro o ho
      cases ho
      exact ⟨.none, fun v hv => absurd hv (by simp)⟩
  | some v =>
      obtain ⟨w, hmeans, halike⟩ := h
      have hv := hp v rfl
      obtain ⟨m, ms, rfl⟩ := hv.members
      -- what means an object with members is a dict
      have hsymm : (Value.obj (m :: ms)).Alike (fun q n => Number.value n = q) w := halike.symm fun _ _ => id
      obtain ⟨ns, ns', hns, -⟩ := alike_obj_iff.mp hsymm
      rw [hns] at hmeans halike
      have hmapping := isMapping_of_means hmeans
      have hx : x ≠ .none := by
        intro hnone
        rw [hnone] at hmapping
        cases hmapping
      have hdeep : (Value.obj ns).nesting ≤ MAX_DEPTH := by
        rw [halike.nesting_eq]
        exact hv.nesting.trans (by decide)
      have hnumbers : (Value.obj ns).Numbers Number.Portable ↔
          (Value.obj (m :: ms)).Numbers fun q => unsafeIntegral q = false := by
        apply halike.numbers_iff
        intro n q hnq
        rw [← hnq]
        exact Number.portable_iff
      obtain ⟨haccepts, honly⟩ := normalize_meant hmeans hdeep
      rw [buildProperties_given hx, if_pos hmapping]
      constructor
      · intro hsafe
        obtain ⟨u, hu⟩ := haccepts (hnumbers.mpr (hsafe _ rfl))
        exact ⟨_, map_ok_iff.mpr ⟨u, hu, rfl⟩⟩
      · intro o ho
        obtain ⟨u, hu, rfl⟩ := map_ok_iff.mp ho
        obtain ⟨hsame, hportable⟩ := honly u hu
        refine ⟨.some (hsame.trans (fun n m q hnm hm => hnm ▸ hm) halike), ?_⟩
        intro v hv
        cases hv
        exact hnumbers.mp hportable

/-! ## §2. Texts. -/

theorem chars?_of_settled {c : Char} (h : isDisputedSpace c.toNat = false) :
    (char? (Fin.ofNat 0x110000 c.toNat)).elim false isSpace = isCommonSpace c.toNat := by
  have hchar : char? (Fin.ofNat 0x110000 c.toNat) = some c := by
    have hc := scalar_range c
    rw [char?_eq_some_iff]
    show c.toNat = c.toNat % 0x110000
    omega
  rw [hchar]
  show isSpace c = isCommonSpace c.toNat
  unfold isDisputedSpace isSeparator isBreakingSeparator at h
  simp only [Bool.or_eq_false_iff, beq_eq_false_iff_ne, decide_eq_false_iff_not] at h
  unfold isSpace isCommonSpace
  rw [Bool.eq_iff_iff]
  simp only [Bool.or_eq_true, Bool.and_eq_true, beq_iff_eq, decide_eq_true_eq]
  omega

/-- **A settled text is trimmed as everywhere.** -/
theorem stripStr_ofChars {cs : List Char} (h : Settled cs) : stripStr (ofChars cs) = ofChars (trimCommon cs) := by
  unfold stripStr ofChars
  rw [trim_map, trim_settled h]
  intro c hc
  exact chars?_of_settled hc

theorem ofChars_eq_nil_iff {cs : List Char} : ofChars cs = [] ↔ cs = [] := List.map_eq_nil_iff

/-- A text that may be absent, as a field. -/
def fieldOf : Option (List Char) → Field
  | none => .none
  | some cs => .str (ofChars cs)

theorem fieldOf_ne_other (o : Option (List Char)) : fieldOf o ≠ .other := by
  cases o <;> exact nofun

theorem fieldOf_nonblank_iff {o : Option (List Char)} (h : Filled o) : (fieldOf o).Nonblank ↔ NotBlank o := by
  unfold Field.Nonblank NotBlank
  cases o with
  | none => simp [fieldOf]
  | some cs =>
      simp only [fieldOf, Field.str.injEq, exists_eq_left', Option.some.injEq]
      rw [stripStr_ofChars (h cs rfl).1, Ne, ofChars_eq_nil_iff]

theorem optionalUnits?_fieldOf (o : Option (List Char)) :
    optionalUnits? (fieldOf o).given = some (o.map utf16) := by
  cases o with
  | none => rfl
  | some cs =>
      show (units? (ofChars cs)).map some = _
      unfold units?
      rw [chars?_ofChars]
      rfl

/-- **A trimmed field holds the trimmed text.** -/
theorem normalizeVisitorId_fieldOf {o : Option (List Char)} (h : OptionSettled o) :
    normalizeVisitorId (fieldOf o) = (trimmed o).map ofChars := by
  cases o with
  | none => rfl
  | some cs =>
      show (if stripStr (ofChars cs) = [] then none else some (stripStr (ofChars cs))) = _
      rw [stripStr_ofChars (h cs rfl), trimmed_some]
      by_cases hempty : trimCommon cs = []
      · rw [if_pos (ofChars_eq_nil_iff.mpr hempty), if_pos hempty]
        rfl
      · rw [if_neg (mt ofChars_eq_nil_iff.mp hempty), if_neg hempty]
        rfl

theorem optionalUnits?_map (o : Option (List Char)) :
    optionalUnits? (o.map ofChars) = some (o.map utf16) := by
  cases o with
  | none => rfl
  | some cs => exact optionalUnits?_fieldOf (some cs)

/-! ## §3. Calls. -/

/-- The object stands for the time. -/
def MomentStands (moment : Moment) : Option Timestamp → Prop
  | none => moment = .none
  | some t => ∃ m, moment = .aware m ∧ m.utc = some t

/-- **The arguments of a call, its clock and its generator stand for the submission.** -/
structure Stands (seams : Seams) (heap : Heap) (event : Event) (s : Submission) : Prop where
  email : event.email = fieldOf s.email
  phoneNumber : event.phoneNumber = fieldOf s.phoneNumber
  contactName : event.contactName = fieldOf s.contactName
  visitorId : event.visitorId = fieldOf s.visitorId
  eventId : event.eventId = fieldOf s.eventId
  occurredAt : MomentStands event.occurredAt s.occurredAt
  properties : PropertiesStand heap event.properties s.properties
  newEventId : seams.newEventId = ofChars s.newEventId
  now : seams.now.utc = some s.now

section Calls

variable {floats : FloatText} {seams : Seams} {heap : Heap} {event : Event} {s : Submission}

theorem Stands.sentEventId (h : Stands seams heap event s) (hs : s.Neutral) :
    Validation.sentEventId seams event = ofChars s.sentEventId := by
  unfold Validation.sentEventId Submission.sentEventId
  rw [h.eventId, h.newEventId, normalizeVisitorId_fieldOf hs.eventId]
  cases trimmed s.eventId <;> rfl

theorem Stands.sentVisitorId (h : Stands seams heap event s) (hs : s.Neutral) :
    Validation.sentVisitorId event (fieldOf s.ambientVisitorId) = s.sentVisitorId.map ofChars := by
  unfold Validation.sentVisitorId Submission.sentVisitorId
  rw [h.visitorId, normalizeVisitorId_fieldOf hs.visitorId, normalizeVisitorId_fieldOf hs.ambientVisitorId]
  cases trimmed s.visitorId <;> rfl

theorem Stands.sentTime (h : Stands seams heap event s) :
    Validation.sentTime seams.now event.occurredAt = some s.time := by
  have hmoment := h.occurredAt
  unfold Submission.time
  cases ht : s.occurredAt with
  | none =>
      rw [ht] at hmoment
      have hmoment : event.occurredAt = .none := hmoment
      rw [hmoment]
      exact h.now
  | some t =>
      rw [ht] at hmoment
      obtain ⟨m, hm, hutc⟩ := hmoment
      rw [hm]
      exact hutc

/-- **What is against such a call is what is against the submission.** -/
theorem Stands.unobjectionable_iff (h : Stands seams heap event s) (hs : s.Neutral) :
    Unobjectionable seams heap (.str (ofChars s.eventKey)) event (fieldOf s.ambientVisitorId) ↔ s.Accepted := by
  have hkey : (Field.str (ofChars s.eventKey)).Nonblank ↔ trimCommon s.eventKey ≠ [] := by
    unfold Field.Nonblank
    simp only [Field.str.injEq, exists_eq_left']
    rw [stripStr_ofChars hs.eventKey, Ne, ofChars_eq_nil_iff]
  have hproperties := h.properties.built hs.properties
  constructor
  · intro hcall
    refine ⟨hkey.mp hcall.key, ?_, ?_⟩
    · rw [← fieldOf_nonblank_iff hs.email, ← fieldOf_nonblank_iff hs.phoneNumber, ← h.email, ← h.phoneNumber]
      exact hcall.contact
    · obtain ⟨o, ho⟩ := buildProperties_ok_iff.mpr hcall.properties
      exact (hproperties.2 o ho).2
  · intro haccepted
    refine ⟨hkey.mpr haccepted.eventKey, ?_, ?_, ?_, ?_⟩
    · intro f hf
      unfold Event.stringFields at hf
      rw [h.email, h.phoneNumber, h.contactName, h.visitorId, h.eventId] at hf
      simp only [List.mem_cons, List.not_mem_nil, or_false] at hf
      rcases hf with rfl | rfl | rfl | rfl | rfl
      all_goals exact fieldOf_ne_other _
    · rw [h.email, h.phoneNumber, fieldOf_nonblank_iff hs.email, fieldOf_nonblank_iff hs.phoneNumber]
      exact haccepted.identity
    · intro key hk t ht
      cases hk
      -- every string of the call is made of characters
      have hfield : ∀ (o : Option (List Char)), ∀ t ∈ (fieldOf o).given.toList, Encodable t := by
        intro o t ht
        exact optionalUnits?_encodable.mp ⟨_, optionalUnits?_fieldOf o⟩ t ht
      unfold sentStrings at ht
      rw [h.email, h.phoneNumber, h.contactName, h.sentEventId hs, h.sentVisitorId hs] at ht
      simp only [List.mem_append, List.mem_cons, List.not_mem_nil, or_false] at ht
      rcases ht with ((((rfl | rfl) | ht) | ht) | ht) | ht
      · exact ⟨_, chars?_ofChars _⟩
      · exact ⟨_, chars?_ofChars _⟩
      · exact hfield _ t ht
      · exact hfield _ t ht
      · exact hfield _ t ht
      · obtain ⟨cs, -, rfl⟩ := Option.map_eq_some_iff.mp (Option.mem_toList.mp ht)
        exact ⟨_, chars?_ofChars cs⟩
    · exact buildProperties_ok_iff.mp (hproperties.1 haccepted.numbers)

/-- **`build_body` serves the submission.** -/
theorem Stands.served (h : Stands seams heap event s) (hs : s.Neutral) (hfloats : floats.ReadsBack) :
    s.Served Raised.IsValidation (buildBody floats seams heap (.str (ofChars s.eventKey)) s.isCommon (some event)
      (fieldOf s.ambientVisitorId)) := by
  have htime := h.sentTime
  apply Submission.served_of (buildBody_contained _ _ _ _ _ _ _)
  · rw [buildBody_accepts_iff fun _ => ⟨s.now, h.now⟩, h.unobjectionable_iff hs]
    apply and_iff_left
    revert htime
    cases event.occurredAt with
    | none => exact fun _ => trivial
    | aware m => exact fun hm => ⟨_, hm⟩
    | naive => exact fun hm => nomatch hm
    | other => exact fun hm => nomatch hm
  · intro body hbody
    obtain ⟨key, t, o, b, hkey, -, -, ht, ho, hwrites, hreads⟩ := buildBody_reads hbody
    cases hkey
    cases htime.symm.trans ht
    apply Submission.tells_of_body hreads
    have hstring : ∀ cs, units? (ofChars cs) = some (utf16 cs) := by
      intro cs
      unfold units?
      rw [chars?_ofChars]
      rfl
    have hiso := strftime_eq hs.year.1
    obtain ⟨hrel, -⟩ := (h.properties.built hs.properties).2 o ho
    refine ⟨?_, ?_, ?_, hwrites.isCommon, ?_, ?_, ?_, ?_, ?_⟩
    · exact (Option.some.inj (hwrites.eventKey.symm.trans (hstring _)))
    · have hid := hwrites.eventId
      rw [show (payloadOf seams s.isCommon event _ _ _ o).eventId = _ from h.sentEventId hs, hstring] at hid
      exact (Option.some.inj hid).symm
    · have hoccurred : b.occurredAt = utf16 (strftime s.time) := hwrites.occurredAt
      show b.occurredAt = utf16 s.time.iso
      rw [hoccurred, hiso]
    · have hemail := hwrites.email
      rw [show (payloadOf seams s.isCommon event _ _ _ o).email = _ from congrArg Field.given h.email,
        optionalUnits?_fieldOf] at hemail
      exact (Option.some.inj hemail).symm
    · have hphone := hwrites.phoneNumber
      rw [show (payloadOf seams s.isCommon event _ _ _ o).phoneNumber = _ from congrArg Field.given h.phoneNumber,
        optionalUnits?_fieldOf] at hphone
      exact (Option.some.inj hphone).symm
    · have hcontact := hwrites.contactName
      rw [show (payloadOf seams s.isCommon event _ _ _ o).contactName = _ from congrArg Field.given h.contactName,
        optionalUnits?_fieldOf] at hcontact
      exact (Option.some.inj hcontact).symm
    · have hvisitor := hwrites.visitorId
      rw [show (payloadOf seams s.isCommon event _ _ _ o).visitorId = _ from h.sentVisitorId hs,
        optionalUnits?_map] at hvisitor
      exact (Option.some.inj hvisitor).symm
    · show Option.Rel _ (b.properties.map _) s.properties
      rw [hwrites.properties]
      exact written_alike (fun _ => Number.reads hfloats) hrel fun v hv => (hs.properties v hv).doubles

end Calls

end CekatEvents.Python.Validation
