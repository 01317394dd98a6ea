/-
  CekatEvents.Java.Submission — what `PayloadEncoder` of the Java client makes of a submission.

  The properties are a map whose values show those of the submission: integers of any class, `Double` and
  `BigDecimal` stand for their values; a `Float` stands for no double, for it is sent as the decimal of its own
  text.  An empty map is sent as nothing, and stands for no properties.

  Main results:
    * `decimal_strips` — a `BigDecimal` that is a double can be stripped of its zeros;
    * `Stands.served`  — the encoder serves the submission, by validation errors alone.
-/
import CekatEvents.Java.Outcomes
import CekatEvents.JsonText.Copied
import CekatEvents.Payload.Submission

namespace CekatEvents.Java.PayloadEncoder

open CekatEvents.Arithmetic CekatEvents.Effects CekatEvents.Encoding CekatEvents.Graph
  CekatEvents.JsonText CekatEvents.Payload

/-! ## §1. Numbers. -/

/-- The value of a number. -/
def Item.number? : Item → Option ℚ
  | .small n => some n.1
  | .large n => some n
  | .double (.finite x) => some x.value
  | .decimal d => some d.value
  | _ => none

/-- The value of a number of the copy. -/
def JavaNumber.value : JavaNumber → ℚ
  | .integer n => n
  | .double x => x.value
  | .decimal d => d.value

/-- A double is less than ten to the four-hundredth. -/
theorem abs_lt_of_isDouble {q : ℚ} (h : IsDouble q) : |q| < 10 ^ 400 := by
  obtain ⟨x, rfl⟩ := h
  have hmant : (x.mant : ℚ) < 2 ^ 53 := by exact_mod_cast x.mant_lt
  have hexp : (2 : ℚ) ^ x.exp ≤ 2 ^ (971 : Int) := zpow_le_zpow_right₀ (by norm_num) x.exp_le
  rw [abs_value]
  unfold Finite.abs
  have hpos : (0 : ℚ) < 2 ^ (971 : Int) := zpow_two_pos 971
  -- the exponents stay powers: they are not to be computed
  calc (x.mant : ℚ) * 2 ^ x.exp ≤ x.mant * 2 ^ (971 : Int) :=
        mul_le_mul_of_nonneg_left hexp (Nat.cast_nonneg _)
    _ < 2 ^ 53 * 2 ^ (971 : Int) := mul_lt_mul_of_pos_right hmant hpos
    _ = 2 ^ 53 * 2 ^ 971 := congrArg _ (zpow_natCast 2 971)
    _ = 2 ^ (53 + 971) := (pow_add 2 53 971).symm
    _ ≤ 2 ^ (3 * 400) := pow_le_pow_right₀ (by norm_num) (by decide)
    _ = (2 ^ 3) ^ 400 := pow_mul 2 3 400
    _ ≤ 10 ^ 400 := pow_le_pow_left₀ (by norm_num) (by norm_num) 400

/-- **A `BigDecimal` that is a double can be stripped of its zeros.** -/
theorem decimal_strips {d : BigDecimal} (h : IsDouble d.value) : d.stripTrailingZeros ≠ none := by
  intro hstrip
  have hlarge := (BigDecimal.overflow_large hstrip).2
  exact absurd (abs_lt_of_isDouble h) (not_lt.mpr hlarge)

/-- **A number of the copy is read as its value.** -/
theorem JavaNumber.reads {platform : Platform} (hdoubles : platform.doubles.ReadsBack) {n : JavaNumber}
    (h : IsDouble n.value) : Payload.Reads (n.numeral platform) n.value := by
  cases n with
  | double x => exact hdoubles x
  | integer k =>
      have hvalue : (intNumeral k).value = JavaNumber.value (.integer k) := intNumeral_value k
      rw [← hvalue] at h ⊢
      exact reads_of_value h
  | decimal d =>
      have hvalue : d.numeral.value = JavaNumber.value (.decimal d) := BigDecimal.numeral_value d
      rw [← hvalue] at h ⊢
      exact reads_of_value h

/-! ## §2. Properties. -/

/-- **The value that an item shows.** -/
inductive Shows (heap : Heap) : Item → Value ℚ → Prop where
  | null : Shows heap .null .null
  | boolean (b : Bool) : Shows heap (.boolean b) (.bool b)
  | string (s : Str) : Shows heap (.string s) (.str s)
  | number {x : Item} {q : ℚ} : x.number? = some q → Shows heap x (.num q)
  | map {id : Nat} {names : List Str} {vs : List (Value ℚ)} :
      (heap.maps id).map Prod.fst = names.map Key.string →
      List.Forall₂ (fun e v => Shows heap e.2 v) (heap.maps id) vs →
      Shows heap (.ref (.map id)) (.obj (names.zip vs))
  | list {id : Nat} {vs : List (Value ℚ)} :
      List.Forall₂ (Shows heap) (heap.lists id) vs → Shows heap (.ref (.list id)) (.arr vs)

/-- An item that shows a value that every language holds. -/
def ShowsHeld (heap : Heap) (x : Item) (v : Value ℚ) : Prop := Shows heap x v ∧ Held v

/-- Different names are put in one after another. -/
theorem putAll_distinct {names : List Str} (h : names.Nodup) (ws : List Copy) : putAll names ws = names.zip ws := by
  have hfold : ∀ (es acc : List (Str × Copy)), (acc.map Prod.fst ++ es.map Prod.fst).Nodup →
      es.foldl (fun copy e => putKey copy e.1 e.2) acc = acc ++ es := by
    intro es
    induction es with
    | nil => exact fun acc _ => (List.append_nil acc).symm
    | cons e es ih =>
        intro acc hnodup
        rw [List.map_cons, List.nodup_middle, List.nodup_cons] at hnodup
        have hnew : e.1 ∉ acc.map Prod.fst := fun hmem => hnodup.1 (List.mem_append_left _ hmem)
        rw [List.foldl_cons, putKey_of_fresh _ hnew, ih, List.append_assoc, List.singleton_append]
        rw [List.map_append, List.append_assoc, List.map_singleton, List.singleton_append, List.nodup_middle,
          List.nodup_cons]
        exact hnodup
  unfold putAll
  rw [hfold, List.nil_append]
  exact (zip_names_sublist names ws).nodup h

section Walk

variable {platform : Platform} {heap : Heap}

/-- A number is let through when it is within the limits. -/
theorem number_follows {x : Item} {q : ℚ} (h : x.number? = some q) :
    Follows.Step (graph platform heap) (ShowsHeld heap) (Value.Alike fun n q => n.value = q)
      (Value.Numbers fun q => unsafeIntegral q = false) Value.nesting x (.num q) := by
  cases x with
  | small n =>
      cases h
      refine leaf_step rfl ⟨_, rfl, rfl⟩ ?_
      -- an `int` is a safe integer
      show unsafeIntegral (n.1 : ℚ) = false
      rw [← Bool.not_eq_true, unsafeIntegral_iff, abs_intCast, not_and, not_lt, Nat.cast_le]
      intro _
      have hrange := n.2
      unfold maxSafeInteger
      omega
  | large n =>
      cases h
      have hsafe : n.natAbs ≤ maxSafeInteger ↔ unsafeIntegral (n : ℚ) = false := Number.portable_iff (n := .integer n)
      apply number_step rfl
      · intro w hw
        split_ifs at hw with hn
        cases hw
        exact ⟨_, rfl, rfl, hsafe.mp hn⟩
      · intro hn
        exact ⟨_, if_pos (hsafe.mpr hn)⟩
  | double y =>
      cases y with
      | finite z =>
          cases h
          apply number_step rfl
          · intro w hw
            obtain ⟨y, hy, rfl⟩ := floatingLeaf_ok_iff.mp hw
            obtain ⟨hz, hportable⟩ := portable?_eq_some_iff.mp hy
            cases hz
            exact ⟨_, rfl, rfl, finite_portable_iff.mp hportable⟩
          · intro hz
            exact floatingLeaf_returns_iff.mpr (finite_portable_iff.mpr hz)
      | nan => cases h
      | infinite neg => cases h
  | decimal d =>
      cases h
      apply number_step rfl
      · intro w hw
        obtain ⟨hsafe, rfl⟩ := decimalLeaf_ok_iff.mp hw
        exact ⟨_, rfl, rfl, hsafe⟩
      · intro hsafe
        exact ⟨_, decimalLeaf_ok_iff.mpr ⟨hsafe, rfl⟩⟩
  | _ => cases h

/-- **What the properties show follows the graph that `normalize` walks.** -/
theorem shows_follows (platform : Platform) (heap : Heap) :
    Follows (graph platform heap) (ShowsHeld heap) (Value.Alike fun n q => n.value = q)
      (Value.Numbers fun q => unsafeIntegral q = false) Value.nesting := by
  intro x v hx
  obtain ⟨h, hheld⟩ := hx
  cases h with
  | null => exact leaf_step rfl rfl trivial
  | boolean b => exact leaf_step rfl rfl trivial
  | string s =>
      have hleaf : (graph platform heap).shape (.string s) = .leaf (.ok (.str s)) :=
        congrArg Shape.leaf (if_pos (isText_iff.mpr hheld.unicode))
      exact leaf_step hleaf rfl trivial
  | number hq => exact number_follows hq
  | @list id vs hvs =>
      refine array_step rfl (forall₂_items ?_ (forall₂_held hvs hheld.elem)) ?_ fun _ => rfl
      · exact (map_mapIdx (h := fun x => x) (fun _ _ => rfl) _).trans (List.map_id' _)
      · intro e he
        obtain ⟨i, hi, rfl⟩ := List.mem_mapIdx.mp he
        exact ⟨rfl, rfl⟩
  | @map id names vs hnames hvs =>
      have hlen : names.length = (heap.maps id).length := by
        have hlen := congrArg List.length hnames
        rwa [List.length_map, List.length_map, eq_comm] at hlen
      have hvals : vs.length = names.length := hvs.length_eq.symm.trans hlen.symm
      have hsame : ((heap.maps id).map fun e => e.1.name) = names := by
        have hkeys := congrArg (List.map Key.name) hnames
        rw [List.map_map, List.map_map] at hkeys
        exact hkeys.trans (List.map_id' names)
      obtain ⟨hnodup, hunicode, hall⟩ := hheld.zip hvals
      have hitems : List.Forall₂ (ShowsHeld heap) ((heap.maps id).map Prod.snd) vs :=
        forall₂_held (List.forall₂_map_left_iff.mpr hvs) hall
      -- the items of the entries, their keys, their number, and the map that is built of them
      refine object_step rfl (forall₂_items ?_ hitems) ?_ ?_ ?_
      · rw [List.map_map]
        rfl
      · rw [List.forall_mem_map]
        intro e he
        refine ⟨keyFault_eq_none_iff.mpr ?_, rfl⟩
        have hmem := List.mem_map_of_mem (f := Prod.fst) he
        rw [hnames] at hmem
        obtain ⟨name, hname, hkey⟩ := List.mem_map.mp hmem
        exact ⟨name, hkey.symm, hunicode name hname⟩
      · rw [List.length_map, hlen]
      · intro ws _
        rw [hsame, putAll_distinct hnodup]

theorem graph_identified (platform : Platform) (heap : Heap) : Identified (graph platform heap) := by
  apply @identified_of_item _ _ _ _ _ _ Item.ref
  intro x i opening entries build hx
  cases x with
  | ref r =>
      cases r with
      | map id =>
          cases hx
          rfl
      | list id =>
          cases hx
          rfl
  | _ => cases hx

/-- **Properties that show a value are let through when its numbers are within the limits**, and are that
    value. -/
theorem normalize_shown {properties : Nat} {v : Value ℚ} (h : ShowsHeld heap (.ref (.map properties)) v)
    (hdeep : v.nesting ≤ MAX_DEPTH) :
    ((v.Numbers fun q => unsafeIntegral q = false) → ∃ w, normalize platform heap properties = .ok w) ∧
      ∀ w, normalize platform heap properties = .ok w →
        w.Alike (fun n q => n.value = q) v ∧ v.Numbers fun q => unsafeIntegral q = false := by
  simp only [normalize_ok_iff]
  constructor
  · intro hv
    exact ((shows_follows platform heap).walk_returns (graph_identified platform heap) h
      (Nat.lt_succ_of_le hdeep)).mpr hv
  · intro w hw
    exact (shows_follows platform heap).walk_ok h hw

/-- **They never get to a decimal whose scale overflows.** -/
theorem not_firstOverflow {properties : Nat} {v : Value ℚ} (h : ShowsHeld heap (.ref (.map properties)) v) :
    ¬ FirstOverflow platform heap properties := by
  intro hfirst
  obtain ⟨ancestors, depth, d, hreach, hstrip⟩ := hfirst.exists_decimal
  -- the decimal shows a double, and those can be stripped
  obtain ⟨u, ⟨hshows, hheld⟩, -⟩ := (shows_follows platform heap).reaches h hreach
  cases hshows with
  | number hq =>
      cases hq
      exact decimal_strips hheld.doubles hstrip

end Walk

/-- The map stands for the properties. -/
def PropertiesStand (heap : Heap) (properties : Nat) : Option (Value ℚ) → Prop
  | none => heap.maps properties = []
  | some v => ∃ w, Shows heap (.ref (.map properties)) w ∧ w.Alike Eq v

/-- **The properties of a submission are let through when their numbers are within the limits.** -/
theorem PropertiesStand.sent {platform : Platform} {heap : Heap} {event : Event} {p : Option (Value ℚ)}
    (h : PropertiesStand heap event.properties p) (hp : ∀ v ∈ p, Plain v) :
    Contained (sentProperties platform heap event) ∧
      ((∀ v ∈ p, v.Numbers fun q => unsafeIntegral q = false) → ∃ o, sentProperties platform heap event = .ok o) ∧
      ∀ o, sentProperties platform heap event = .ok o →
        Option.Rel (Value.Alike fun n q => JavaNumber.value n = q) o p ∧
          ∀ v ∈ p, v.Numbers fun q => unsafeIntegral q = false := by
  cases p with
  | none =>
      have hempty : heap.maps event.properties = [] := h
      have hnone : sentProperties platform heap event = .ok none := by
        unfold sentProperties
        rw [hempty]
        rfl
      rw [hnone]
      refine ⟨raises_ok, fun _ => ⟨none, rfl⟩, ?_⟩
      intro o ho
      cases ho
      exact ⟨.none, fun v hv => absurd hv (by simp)⟩
  | some v =>
      obtain ⟨w, hshows, halike⟩ := h
      have hv := hp v rfl
      obtain ⟨m, ms, rfl⟩ := hv.members
      have hheld : ShowsHeld heap (.ref (.map event.properties)) w := ⟨hshows, hv.toHeld.alike halike⟩
      have hnumbers : (w.Numbers fun q => unsafeIntegral q = false) ↔
          (Value.obj (m :: ms)).Numbers fun q => unsafeIntegral q = false :=
        alike_eq_numbers_iff halike _
      have hdeep : w.nesting ≤ MAX_DEPTH := by
        rw [halike.nesting_eq]
        exact hv.nesting.trans (by decide)
      -- an object with members is shown by a map with entries
      have hsome : heap.maps event.properties ≠ [] := by
        intro hnil
        have hsymm : (Value.obj (m :: ms)).Alike Eq w := halike.symm fun _ _ => Eq.symm
        obtain ⟨ns, ns', hns, hperm, hmembers⟩ := alike_obj_iff.mp hsymm
        rw [hns] at hshows
        generalize hobj : Value.obj ns = u at hshows
        cases hshows with
        | @map id names vs hnames hvs =>
            rw [hnil] at hvs
            cases hvs
            rw [List.zip_nil_right] at hobj
            cases hobj
            have hlen := hmembers.length_eq.trans hperm.length_eq
            cases hlen
        | _ => cases hobj
      have hif : sentProperties platform heap event = (normalize platform heap event.properties).map some := by
        unfold sentProperties
        rw [if_neg]
        simpa using hsome
      obtain ⟨haccepts, honly⟩ := @normalize_shown platform heap _ _ hheld hdeep
      rw [hif]
      refine ⟨raises_map.mpr (normalize_contained_iff.mpr (not_firstOverflow hheld)), ?_, ?_⟩
      · intro hsafe
        obtain ⟨u, hu⟩ := haccepts (hnumbers.mpr (hsafe _ rfl))
        exact ⟨_, map_ok_iff.mpr ⟨u, hu, rfl⟩⟩
      · intro o ho
        obtain ⟨u, hu, rfl⟩ := map_ok_iff.mp ho
        obtain ⟨hsame, hportable⟩ := honly u hu
        refine ⟨.some (hsame.trans_eq halike), ?_⟩
        intro v hv
        cases hv
        exact hnumbers.mp hportable

/-! ## §3. Texts and times. -/

/-- **A settled text is trimmed as everywhere.** -/
theorem trim_settledText {cs : List Char} (h : Settled cs) :
    trim VisitorContext.isWhitespace (utf16 cs) = utf16 (trimCommon cs) := by
  apply trim_utf16 h
  intro u hu
  unfold isDisputedSpace isSeparator isBreakingSeparator at hu
  simp only [Bool.or_eq_false_iff, beq_eq_false_iff_ne, decide_eq_false_iff_not] at hu
  unfold VisitorContext.isWhitespace isCommonSpace isAsciiSpace isBreakingSeparator
  rw [Bool.eq_iff_iff]
  simp only [Bool.or_eq_true, beq_iff_eq, decide_eq_true_eq]
  omega

theorem isBlank_some_iff {cs : List Char} (h : Settled cs) : isBlank (some (utf16 cs)) = false ↔ trimCommon cs ≠ [] := by
  show Encoding.isBlank VisitorContext.isWhitespace (utf16 cs) = false ↔ _
  rw [← Bool.not_eq_true, ← trim_eq_nil_iff, trim_settledText h, utf16_eq_nil_iff]

theorem isBlank_iff {o : Option (List Char)} (h : Filled o) : isBlank (o.map utf16) = false ↔ NotBlank o := by
  cases o with
  | none => simp [isBlank, NotBlank]
  | some cs =>
      rw [Option.map_some, isBlank_some_iff (h cs rfl).1]
      simp [NotBlank]

theorem trimToNull_map {o : Option (List Char)} (h : OptionSettled o) :
    trimToNull (o.map utf16) = (trimmed o).map utf16 := by
  cases o with
  | none => rfl
  | some cs =>
      show Option.filter (fun t => !t.isEmpty) (some (trim VisitorContext.isWhitespace (utf16 cs))) = _
      rw [trim_settledText (h cs rfl), trimmed_some, Option.filter_some]
      by_cases hempty : trimCommon cs = []
      · rw [if_pos hempty, hempty]
        rfl
      · rw [if_neg hempty, if_pos]
        · rfl
        · simpa [utf16_eq_nil_iff] using hempty

theorem optionText_map (o : Option (List Char)) : OptionText (o.map utf16) := by
  intro s hs
  obtain ⟨cs, -, rfl⟩ := Option.map_eq_some_iff.mp hs
  exact ⟨cs, rfl⟩

/-- **The instant is the time**, in whole milliseconds. -/
structure InstantIs (i : Instant) (t : Timestamp) : Prop where
  year : i.dateTime.year = t.year
  month : i.dateTime.month = t.month
  day : i.dateTime.day = t.day
  hour : i.dateTime.hour = t.hour
  minute : i.dateTime.minute = t.minute
  second : i.dateTime.second = t.second
  nanos : i.nanos = t.millisecond * 1000000

theorem InstantIs.text {i : Instant} {t : Timestamp} (h : InstantIs i t) (ht : 1000 ≤ t.year ∧ t.year ≤ 9999) :
    (1 ≤ i.year ∧ i.year ≤ 9999 ∧ ¬ i.PastLastMilli) ∧ OCCURRED_AT i = t.iso := by
  have hyear : i.year = t.year := h.year
  have hmilli := t.millisecond_lt
  have hnanos := h.nanos
  refine ⟨⟨by omega, by omega, ?_⟩, ?_⟩
  · intro hpast
    have hlate := hpast.2
    omega
  · have hwhole : i.nanos / 1000000 = t.millisecond := by omega
    rw [OCCURRED_AT_eq (by omega)]
    unfold Timestamp.iso Timestamp.ofDateTime
    simp only [h.year, h.month, h.day, h.hour, h.minute, h.second, hwhole]

/-! ## §4. Calls. -/

/-- The object stands for the time. -/
def TimeStands (value : Option Instant) : Option Timestamp → Prop
  | none => value = none
  | some t => ∃ i, value = some i ∧ InstantIs i t

/-- **The arguments of a call, its clock and its generator stand for the submission.** -/
structure Stands (seams : Seams) (heap : Heap) (event : Event) (s : Submission) : Prop where
  email : event.email = s.email.map utf16
  phoneNumber : event.phoneNumber = s.phoneNumber.map utf16
  contactName : event.contactName = s.contactName.map utf16
  visitorId : event.visitorId = s.visitorId.map utf16
  eventId : event.eventId = s.eventId.map utf16
  occurredAt : TimeStands event.occurredAt s.occurredAt
  properties : PropertiesStand heap event.properties s.properties
  idGenerator : seams.idGenerator = s.newEventId
  clock : InstantIs seams.clock s.now

section Calls

variable {platform : Platform} {seams : Seams} {heap : Heap} {event : Event} {s : Submission}

theorem Stands.instant (h : Stands seams heap event s) : InstantIs (event.occurredAt.getD seams.clock) s.time := by
  have htime := h.occurredAt
  unfold Submission.time
  cases ht : s.occurredAt with
  | none =>
      rw [ht] at htime
      have hnone : event.occurredAt = none := htime
      rw [hnone]
      exact h.clock
  | some t =>
      rw [ht] at htime
      obtain ⟨i, hi, hit⟩ := htime
      rw [hi]
      exact hit

theorem Stands.chosenVisitor (h : Stands seams heap event s) (hs : s.Neutral) :
    PayloadEncoder.chosenVisitor event (s.ambientVisitorId.map utf16) = s.sentVisitorId.map utf16 := by
  unfold PayloadEncoder.chosenVisitor Submission.sentVisitorId
  rw [h.visitorId, trimToNull_map hs.visitorId, trimToNull_map hs.ambientVisitorId]
  cases trimmed s.visitorId <;> rfl

/-- **The checks are passed when there is a key and an identity.** -/
theorem Stands.sendable_iff (h : Stands seams heap event s) (hs : s.Neutral) :
    Sendable seams (utf16 s.eventKey) event (s.ambientVisitorId.map utf16) ↔
      trimCommon s.eventKey ≠ [] ∧ (NotBlank s.email ∨ NotBlank s.phoneNumber) := by
  rw [← isBlank_some_iff hs.eventKey, ← isBlank_iff hs.email, ← isBlank_iff hs.phoneNumber, ← h.email, ← h.phoneNumber]
  constructor
  · intro hcall
    exact ⟨hcall.key, hcall.contact⟩
  · intro hboth
    refine ⟨hboth.1, hboth.2, ⟨_, rfl⟩, ?_, (h.instant.text hs.year).1, ?_, ?_, ?_, ?_⟩
    · rw [h.eventId, trimToNull_map hs.eventId]
      exact optionText_map _
    · rw [h.email]
      exact optionText_map _
    · rw [h.phoneNumber]
      exact optionText_map _
    · rw [h.contactName]
      exact optionText_map _
    · rw [h.chosenVisitor hs]
      exact optionText_map _

/-- **`encode` serves the submission.** -/
theorem Stands.served (h : Stands seams heap event s) (hs : s.Neutral) (hdoubles : platform.doubles.ReadsBack) :
    s.Served Raised.IsValidation (encode platform seams heap (some (utf16 s.eventKey)) s.isCommon (some event)
      (s.ambientVisitorId.map utf16)) := by
  obtain ⟨hcontained, haccepts, honly⟩ := @PropertiesStand.sent platform heap event _ h.properties hs.properties
  apply Submission.served_of
  · apply (encode_contained s.isCommon).mpr
    rintro ⟨key, ev, hkey, hev, -, hsome, hfirst⟩
    cases hev
    exact sentProperties_contained_iff.mp hcontained hsome hfirst
  · simp only [encode_ok_iff, Option.some.injEq]
    constructor
    · rintro ⟨_, key, ev, rfl, rfl, hsendable, o, ho, -⟩
      obtain ⟨hkey, hidentity⟩ := (h.sendable_iff hs).mp hsendable
      exact ⟨hkey, hidentity, (honly o ho).2⟩
    · intro haccepted
      obtain ⟨o, ho⟩ := haccepts haccepted.numbers
      exact ⟨_, _, _, rfl, rfl, (h.sendable_iff hs).mpr ⟨haccepted.eventKey, haccepted.identity⟩, o, ho, rfl⟩
  · intro body hbody
    obtain ⟨key, ev, hkey, hev, hsendable, o, ho, rfl⟩ := encode_ok_iff.mp hbody
    cases hkey
    cases hev
    obtain ⟨hrel, -⟩ := honly o ho
    have hid : (trimToNull event.eventId).getD (utf16 seams.idGenerator) = utf16 s.sentEventId := by
      unfold Submission.sentEventId
      rw [h.eventId, trimToNull_map hs.eventId, h.idGenerator]
      cases trimmed s.eventId <;> rfl
    have hbody : sentBody seams (utf16 s.eventKey) s.isCommon event (s.ambientVisitorId.map utf16) o
        = s.bodyWith o := by
      unfold sentBody Submission.bodyWith
      rw [hid, (h.instant.text hs.year).2, h.email, h.phoneNumber, h.contactName, h.chosenVisitor hs]
    have hreads := sent_reads s.isCommon hsendable (sentProperties_ok ho)
    rw [hbody] at hreads ⊢
    exact hs.tells (fun _ => JavaNumber.reads hdoubles) hrel hreads

end Calls

end CekatEvents.Java.PayloadEncoder
