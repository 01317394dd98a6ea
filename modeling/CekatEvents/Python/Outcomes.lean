/-
  CekatEvents.Python.Outcomes — what leaves `build_body` of the Python client.

  Every exception of the library is handled: an `OverflowError` of the time and a `UnicodeEncodeError` of
  the text come out as validation errors.  One reason for a validation error lies in the time alone: a
  datetime of the year 9999 may lie beyond that year in UTC.

  Main results:
    * `normalize_ok_iff`  — `_normalize` accepts the trees of JSON values nested at most 256 levels
                            deep, shared or not, and what it returns is what they mean (`Means`);
    * `buildBody_spec`    — only validation errors leave `build_body`, it returns exactly when there is no
                            reason against it, and what it returns satisfies the schema and holds
                            what the caller gave.
-/
import CekatEvents.Effects.Outcome
import CekatEvents.JsonText.Texts
import CekatEvents.Payload.Schema
import CekatEvents.Python.Validation

namespace CekatEvents.Python.Validation

open CekatEvents.Arithmetic CekatEvents.Effects CekatEvents.Encoding CekatEvents.Graph
  CekatEvents.JsonText CekatEvents.Payload

/-! ## §1. Strings. -/

theorem char?_eq_some_iff {c : CodePoint} {a : Char} : char? c = some a ↔ a.toNat = c.val := by
  unfold char?
  by_cases h : c.val.isValidChar
  · rw [if_pos h, Option.some.injEq]
    constructor
    · intro ha
      rw [← ha]
      exact toNat_ofNat_of_valid h
    · intro ha
      rw [← ha, Char.ofNat_toNat]
  · rw [if_neg h]
    apply iff_of_false (by simp)
    intro ha
    apply h
    rw [← ha]
    exact a.valid

theorem char?_injective {c d : CodePoint} {a : Char} (hc : char? c = some a)
    (hd : char? d = some a) : c = d := by
  rw [char?_eq_some_iff] at hc hd
  exact Fin.ext (hc.symm.trans hd)

/-- The string can be encoded. -/
def Encodable (s : PyStr) : Prop := ∃ cs, chars? s = some cs

theorem chars?_cons_eq_some_iff {c : CodePoint} {s : PyStr} {cs : List Char} :
    chars? (c :: s) = some cs ↔ ∃ a as, char? c = some a ∧ chars? s = some as ∧ cs = a :: as := by
  unfold chars?
  rw [List.mapM_cons]
  constructor
  · intro h
    obtain ⟨a, ha, h⟩ := Option.bind_eq_some_iff.mp h
    obtain ⟨as, has, h⟩ := Option.bind_eq_some_iff.mp h
    exact ⟨a, as, ha, has, (Option.some.inj h).symm⟩
  · intro h
    obtain ⟨a, as, ha, has, rfl⟩ := h
    rw [ha, has]
    rfl

/-- Different strings are encoded differently. -/
theorem chars?_injective {s t : PyStr} {cs : List Char} (hs : chars? s = some cs)
    (ht : chars? t = some cs) : s = t := by
  induction s generalizing t cs with
  | nil =>
      cases hs
      cases t with
      | nil => rfl
      | cons d t =>
          obtain ⟨a, as, -, -, h⟩ := chars?_cons_eq_some_iff.mp ht
          cases h
  | cons c s ih =>
      obtain ⟨a, as, ha, has, rfl⟩ := chars?_cons_eq_some_iff.mp hs
      cases t with
      | nil => cases ht
      | cons d t =>
          obtain ⟨b, bs, hb, hbs, h⟩ := chars?_cons_eq_some_iff.mp ht
          cases h
          rw [char?_injective ha hb, ih has hbs]

/-- A string of characters. -/
@[simp] theorem chars?_ofChars (cs : List Char) : chars? (ofChars cs) = some cs := by
  induction cs with
  | nil => rfl
  | cons c cs ih =>
      apply chars?_cons_eq_some_iff.mpr
      refine ⟨c, cs, ?_, ih, rfl⟩
      rw [char?_eq_some_iff]
      have hc := scalar_range c
      show c.toNat = c.toNat % 0x110000
      omega

/-! ## §2. Properties in order. -/

/-- A value of JSON that every implementation holds, as long as what it contains is; a container is not
    inside itself. -/
def Item.Portable (heap : Heap) (ancestors : List Nat) : Item → Prop
  | .none => True
  | .bool _ => True
  | .str s => Encodable s
  | .int n => n.natAbs ≤ MAX_SAFE_INTEGER
  | .float x => x.Portable
  | .decimal (.finite neg coefficient exponent) => (decimalFloat neg coefficient exponent).Portable
  | .decimal _ => False
  | .ref id => id ∉ ancestors ∧
      ∀ d, heap id = .dict d → ∀ p ∈ d.items, ∃ s, p.1 = .str s ∧ Encodable s
  | .other => False

/-- What is inside the properties, with the containers around it and its depth. -/
abbrev Inside (heap : Heap) (x : Item) (ancestors : List Nat) (depth : Nat) (y : Item) : Prop :=
  Reaches (graph heap) [] x ancestors depth y

/-- **A tree of JSON values nested at most 256 levels deep.** -/
def PortableTree (heap : Heap) (x : Item) : Prop :=
  ∀ ancestors depth y, Inside heap x ancestors depth y → depth ≤ MAX_DEPTH ∧ y.Portable heap ancestors

theorem keyName_ok_iff {k : Key} {cs : List Char} :
    keyName k = .ok cs ↔ ∃ s, k = .str s ∧ chars? s = some cs := by
  cases k with
  | other => simp [keyName]
  | str s =>
      show (chars? s).elim (Except.error Fault.notUnicode) Except.ok = _ ↔ _
      simp only [Key.str.injEq, exists_eq_left']
      cases chars? s with
      | none => simp
      | some ds => simp

theorem shape_dict {heap : Heap} {id : Nat} {d : Dict} (h : heap id = .dict d) :
    (graph heap).shape (.ref id) = .node (some id) none (dictEntries d.items)
      fun ws => .obj ((dictNames d.items).zip ws) := by
  show shape heap (.ref id) = _
  simp only [shape, h]

/-- The elements of a sequence. -/
def Cell.sequence? : Cell → Option (List Item)
  | .dict _ => none
  | .list items => some items
  | .tuple items => some items

/-- A container is a sequence or a dict. -/
theorem Cell.sequence_or_dict (c : Cell) : (∃ items, c.sequence? = some items) ∨ ∃ d, c = .dict d := by
  cases c with
  | dict d => exact .inr ⟨d, rfl⟩
  | list items => exact .inl ⟨items, rfl⟩
  | tuple items => exact .inl ⟨items, rfl⟩

theorem shape_sequence {heap : Heap} {id : Nat} {items : List Item}
    (h : (heap id).sequence? = some items) :
    (graph heap).shape (.ref id) = .node (some id) none (sequenceEntries items) .arr := by
  show shape heap (.ref id) = _
  cases hcell : heap id with
  | dict d =>
      rw [hcell] at h
      cases h
  | list xs =>
      rw [hcell] at h
      cases h
      simp only [shape, hcell]
  | tuple xs =>
      rw [hcell] at h
      cases h
      simp only [shape, hcell]

theorem dictEntries_items (items : List (Key × Item)) :
    (dictEntries items).map Entry.item = items.map Prod.snd := by
  unfold dictEntries
  rw [List.map_map]
  rfl

theorem sequenceEntries_items (items : List Item) :
    (sequenceEntries items).map Entry.item = items := by
  unfold sequenceEntries
  rw [map_mapIdx (g := Entry.item) (h := id) fun _ _ => rfl, List.map_id]

/-- The entries of a dict are in order when its keys are strings that can be encoded. -/
theorem dictEntries_iff {items : List (Key × Item)} :
    (∀ e ∈ dictEntries items, e.before = none ∧ e.after = none) ↔
      ∀ p ∈ items, ∃ s, p.1 = .str s ∧ Encodable s := by
  unfold dictEntries
  rw [List.forall_mem_map]
  apply forall₂_congr
  intro p _
  simp only [and_true]
  cases hk : keyName p.1 with
  | ok cs =>
      obtain ⟨s, hs, hcs⟩ := keyName_ok_iff.mp hk
      exact iff_of_true rfl ⟨s, hs, cs, hcs⟩
  | error f =>
      apply iff_of_false (by simp)
      intro h
      obtain ⟨s, hs, cs, hcs⟩ := h
      rw [keyName_ok_iff.mpr ⟨s, hs, hcs⟩] at hk
      cases hk

theorem strLeaf_ok_iff {s : PyStr} : (∃ v, strLeaf s = .ok v) ↔ Encodable s := by
  unfold strLeaf Encodable
  cases chars? s with
  | none => simp
  | some cs => simp

theorem floatLeaf_ok_iff {x : Double} : (∃ v, floatLeaf x = .ok v) ↔ x.Portable := by
  rw [← portable?_isSome_iff]
  unfold floatLeaf
  cases x.portable? with
  | none => simp
  | some y => simp

/-- **What `_normalize` takes for faulty is what is not portable.** -/
theorem not_faulty_iff {heap : Heap} {ancestors : List Nat} {x : Item} :
    ¬ Faulty (graph heap) ancestors x ↔ x.Portable heap ancestors := by
  cases x with
  | none => exact (not_faulty_leaf_iff rfl).trans (iff_of_true ⟨_, rfl⟩ trivial)
  | bool b => exact (not_faulty_leaf_iff rfl).trans (iff_of_true ⟨_, rfl⟩ trivial)
  | str s => exact (not_faulty_leaf_iff rfl).trans strLeaf_ok_iff
  | int n =>
      rw [not_faulty_leaf_iff (T := graph heap) rfl]
      unfold Item.Portable
      split_ifs with h
      · exact iff_of_true ⟨_, rfl⟩ h
      · exact iff_of_false (by simp) h
  | float y => exact (not_faulty_leaf_iff rfl).trans floatLeaf_ok_iff
  | decimal d =>
      cases d with
      | finite neg coefficient exponent => exact (not_faulty_leaf_iff rfl).trans floatLeaf_ok_iff
      | infinite neg =>
          refine (not_faulty_leaf_iff (T := graph heap) rfl).trans (iff_of_false ?_ id)
          simp [decimalLeaf]
      | nan signaling =>
          refine (not_faulty_leaf_iff (T := graph heap) rfl).trans (iff_of_false ?_ id)
          simp [decimalLeaf]
  | ref id =>
      unfold Item.Portable
      rcases (heap id).sequence_or_dict with ⟨items, hseq⟩ | ⟨d, hcell⟩
      · rw [not_faulty_node_iff (shape_sequence hseq)]
        have hentries : ∀ e ∈ sequenceEntries items, e.before = none ∧ e.after = none := by
          intro e he
          obtain ⟨i, hi, rfl⟩ := List.mem_mapIdx.mp he
          exact ⟨rfl, rfl⟩
        refine and_congr (by simp) ((and_iff_right rfl).trans (iff_of_true hentries ?_))
        intro d h
        rw [h] at hseq
        cases hseq
      · rw [not_faulty_node_iff (shape_dict hcell)]
        refine and_congr (by simp) ((and_iff_right rfl).trans (dictEntries_iff.trans ?_))
        constructor
        · intro h d' hd'
          cases hcell.symm.trans hd'
          exact h
        · intro h
          exact h d hcell
  | other =>
      refine (not_faulty_leaf_iff (T := graph heap) rfl).trans (iff_of_false ?_ id)
      simp

/-- **`_normalize` accepts the trees of JSON values, and no others.** -/
theorem normalize_ok_iff {heap : Heap} {x : Item} :
    (∃ v, normalize heap x = .ok v) ↔ PortableTree heap x := by
  have hwalk := walk_ok_iff (graph heap) (MAX_DEPTH + 1) [] [] x
  unfold normalize
  rw [visit_eq]
  trans ∃ w, walk (graph heap) (MAX_DEPTH + 1) [] [] x = .ok w
  · cases walk (graph heap) (MAX_DEPTH + 1) [] [] x with
    | error fault => simp [Except.map]
    | ok w => simp [Except.map]
  · rw [hwalk]
    unfold Sound PortableTree
    apply forall_congr'
    intro ancestors
    apply forall_congr'
    intro d
    apply forall_congr'
    intro y
    apply imp_congr_right
    intro _
    exact and_congr Nat.lt_succ_iff not_faulty_iff

theorem normalize_copies {heap : Heap} {x : Item} {v : Value Number}
    (h : normalize heap x = .ok v) : Copies (graph heap) x v := by
  unfold normalize at h
  rw [visit_eq] at h
  cases hw : walk (graph heap) (MAX_DEPTH + 1) [] [] x with
  | error fault => simp [hw, Except.map] at h
  | ok w =>
      simp only [hw, Except.map, Except.ok.injEq] at h
      rw [← h]
      exact walk_copies hw

/-! ## §3. What properties mean. -/

mutual
/-- **The value of JSON that an object graph stands for.** -/
inductive Means (heap : Heap) : Item → Value Number → Prop where
  | null : Means heap .none .null
  | bool (b : Bool) : Means heap (.bool b) (.bool b)
  | str {s : PyStr} {cs : List Char} : chars? s = some cs → Means heap (.str s) (.str (utf16 cs))
  | int (n : Int) : Means heap (.int n) (.num (.integer n))
  | float (y : Finite) : Means heap (.float (.finite y)) (.num (.float y))
  | decimal {neg : Bool} {coefficient : Nat} {exponent : Int} {y : Finite} :
      decimalFloat neg coefficient exponent = .finite y →
      Means heap (.decimal (.finite neg coefficient exponent)) (.num (.float y))
  | sequence {id : Nat} {items : List Item} {vs : List (Value Number)} :
      (heap id).sequence? = some items → MeansAll heap items vs → Means heap (.ref id) (.arr vs)
  | dict {id : Nat} {d : Dict} {names : List (List Char)} {vs : List (Value Number)} :
      heap id = .dict d → (d.items.map fun p => p.1.name?.bind chars?) = names.map some →
      MeansAll heap (d.items.map Prod.snd) vs → Means heap (.ref id) (.obj ((names.map utf16).zip vs))
/-- The same for values one after another. -/
inductive MeansAll (heap : Heap) : List Item → List (Value Number) → Prop where
  | nil : MeansAll heap [] []
  | cons {x : Item} {xs : List Item} {v : Value Number} {vs : List (Value Number)} :
      Means heap x v → MeansAll heap xs vs → MeansAll heap (x :: xs) (v :: vs)
end

theorem meansAll_of_forall₂ {heap : Heap} {entries : List (Entry Item Step Fault)}
    {ws : List (Value Number)} (h : List.Forall₂ (fun e w => Means heap e.item w) entries ws) :
    MeansAll heap (entries.map Entry.item) ws := by
  induction h with
  | nil => exact .nil
  | cons hw _ ih => exact .cons hw ih

/-- Keys that are in order have names. -/
theorem keyChars_names {items : List (Key × Item)}
    (h : ∀ p ∈ items, ∃ s, p.1 = .str s ∧ Encodable s) :
    (items.map fun p => p.1.name?.bind chars?) = (items.map fun p => keyChars p.1).map some := by
  rw [List.map_map]
  apply List.map_congr_left
  intro p hp
  obtain ⟨s, hs, cs, hcs⟩ := h p hp
  have hname : keyName p.1 = .ok cs := keyName_ok_iff.mpr ⟨s, hs, hcs⟩
  show p.1.name?.bind chars? = some ((keyName p.1).toOption.getD [])
  rw [hname, hs]
  exact hcs

theorem floatLeaf_eq_ok {x : Double} {w : Value Number} (h : floatLeaf x = .ok w) :
    ∃ y, x = .finite y ∧ (Double.finite y).Portable ∧ w = .num (.float y) := by
  unfold floatLeaf at h
  cases hx : x.portable? with
  | none => rw [hx] at h; cases h
  | some y =>
      rw [hx] at h
      obtain ⟨rfl, hy⟩ := portable?_eq_some_iff.mp hx
      exact ⟨y, rfl, hy, (Except.ok.inj h).symm⟩

/-- **A copy of what is in order is what it means.** -/
theorem copy_means {heap : Heap} {x : Item} {w : Value Number} (h : Copies (graph heap) x w)
    (ancestors : List Nat)
    (hx : ∀ ancestors' d y, Reaches (graph heap) ancestors x ancestors' d y →
      y.Portable heap ancestors') : Means heap x w := by
  revert ancestors
  apply Copies.induction (P := fun x w => ∀ ancestors,
    (∀ ancestors' d y, Reaches (graph heap) ancestors x ancestors' d y →
      y.Portable heap ancestors') → Means heap x w) _ _ h
  · intro x w hshape ancestors hx
    have hshape : shape heap x = .leaf (.ok w) := hshape
    cases x with
    | none => cases hshape; exact .null
    | bool b => cases hshape; exact .bool b
    | str s =>
        obtain ⟨cs, hcs⟩ := hx _ _ _ .start
        have hleaf := Shape.leaf.inj hshape
        rw [strLeaf, hcs] at hleaf
        cases hleaf
        exact .str hcs
    | int n =>
        have hleaf := Shape.leaf.inj hshape
        split_ifs at hleaf with hn
        cases hleaf
        exact .int n
    | float y =>
        obtain ⟨z, rfl, -, rfl⟩ := floatLeaf_eq_ok (Shape.leaf.inj hshape)
        exact .float z
    | decimal d =>
        cases d with
        | finite neg coefficient exponent =>
            obtain ⟨z, hz, -, rfl⟩ := floatLeaf_eq_ok (Shape.leaf.inj hshape)
            exact .decimal hz
        | infinite neg => cases hshape
        | nan signaling => cases hshape
    | ref id =>
        rcases (heap id).sequence_or_dict with ⟨items, hseq⟩ | ⟨d, hcell⟩
        · cases (shape_sequence hseq).symm.trans hshape
        · cases (shape_dict hcell).symm.trans hshape
    | other => cases hshape
  · intro x ident opening entries build ws hshape hes ancestors hx
    have hself := hx _ _ _ .start
    have hall : MeansAll heap (entries.map Entry.item) ws := by
      have hmem := (List.forall₂_and_left _ _).mpr ⟨fun e he => he, hes⟩
      apply meansAll_of_forall₂
      apply hmem.imp
      intro e w hew
      apply hew.2 (ident.toList ++ ancestors)
      intro ancestors' d y hreach
      exact hx _ _ _ (hreach.of_child hshape hew.1)
    cases x with
    | ref id =>
        rcases (heap id).sequence_or_dict with ⟨items, hseq⟩ | ⟨d, hcell⟩
        · cases (shape_sequence hseq).symm.trans hshape
          rw [sequenceEntries_items] at hall
          exact .sequence hseq hall
        · cases (shape_dict hcell).symm.trans hshape
          rw [dictEntries_items] at hall
          have hnames := keyChars_names (hself.2 d hcell)
          have hobj := Means.dict hcell hnames hall
          rw [List.map_map] at hobj
          exact hobj
    | _ => cases hshape

/-- The numbers of a copy are portable. -/
theorem copy_portable {heap : Heap} {x : Item} {w : Value Number} (h : Copies (graph heap) x w) :
    w.Numbers Number.Portable := by
  apply Copies.induction (P := fun _ w => w.Numbers Number.Portable) _ _ h
  · intro x w hshape
    have hshape : shape heap x = .leaf (.ok w) := hshape
    cases x with
    | none => cases hshape; trivial
    | bool b => cases hshape; trivial
    | str s =>
        have hleaf := Shape.leaf.inj hshape
        unfold strLeaf at hleaf
        cases hs : chars? s with
        | none => rw [hs] at hleaf; cases hleaf
        | some cs => rw [hs] at hleaf; cases hleaf; trivial
    | int n =>
        have hleaf := Shape.leaf.inj hshape
        split_ifs at hleaf with hn
        cases hleaf
        exact hn
    | float y =>
        obtain ⟨z, -, hz, rfl⟩ := floatLeaf_eq_ok (Shape.leaf.inj hshape)
        exact hz
    | decimal d =>
        cases d with
        | finite neg coefficient exponent =>
            obtain ⟨z, -, hz, rfl⟩ := floatLeaf_eq_ok (Shape.leaf.inj hshape)
            exact hz
        | infinite neg => cases hshape
        | nan signaling => cases hshape
    | ref id =>
        rcases (heap id).sequence_or_dict with ⟨items, hseq⟩ | ⟨d, hcell⟩
        · cases (shape_sequence hseq).symm.trans hshape
        · cases (shape_dict hcell).symm.trans hshape
    | other => cases hshape
  · intro x ident opening entries build ws hshape hes
    have hws : ∀ w ∈ ws, w.Numbers Number.Portable := by
      intro w hw
      obtain ⟨e, -, hP⟩ := mem_right_of_forall₂ hes hw
      exact hP
    cases x with
    | ref id =>
        rcases (heap id).sequence_or_dict with ⟨items, hseq⟩ | ⟨d, hcell⟩
        · cases (shape_sequence hseq).symm.trans hshape
          exact numbersElem_iff.mpr hws
        · cases (shape_dict hcell).symm.trans hshape
          apply numbersMember_iff.mpr
          intro m hm
          exact hws _ (List.of_mem_zip hm).2
    | _ => cases hshape

/-- The names of a dict are distinct. -/
theorem Dict.names_nodup (d : Dict) {names : List (List Char)}
    (h : (d.items.map fun p => p.1.name?.bind chars?) = names.map some) : names.Nodup := by
  have hnames : (d.items.filterMap fun p => p.1.name?).filterMap chars? = names := by
    rw [List.filterMap_filterMap]
    have hid := congrArg (List.filterMap id) h
    rw [List.filterMap_map, List.filterMap_map] at hid
    simpa using hid
  rw [← hnames]
  apply d.nodup.filterMap
  intro s t cs hs ht
  exact chars?_injective hs ht

/-- **What a graph means has Unicode strings, and no name twice.** -/
theorem Means.each {heap : Heap} {x : Item} {v : Value Number} (h : Means heap x v) :
    v.Each WellFormed List.Nodup := by
  refine @Means.rec heap (fun _ v _ => v.Each WellFormed List.Nodup)
    (fun _ vs _ => ∀ v ∈ vs, v.Each WellFormed List.Nodup) ?_ ?_ ?_ ?_ ?_ ?_ ?_ ?_ ?_ ?_ x v h
  · trivial
  · intro b
    trivial
  · intro s cs _
    exact ⟨cs, rfl⟩
  · intro n
    trivial
  · intro y
    trivial
  · intro neg coefficient exponent y _
    trivial
  · intro id items vs _ _ hvs
    exact eachElem_iff.mpr hvs
  · intro id d names vs _ hnames _ hvs
    apply each_zip _ _ hvs
    · intro k hk
      obtain ⟨cs, -, rfl⟩ := List.mem_map.mp hk
      exact ⟨cs, rfl⟩
    · exact (zip_names_sublist _ vs).nodup ((d.names_nodup hnames).map utf16_injective)
  · intro v hv
    exact absurd hv List.not_mem_nil
  · intro x xs v vs _ _ hv hvs
    exact List.forall_mem_cons.mpr ⟨hv, hvs⟩

/-- **What `_normalize` returns is what the properties mean**, with portable numbers. -/
theorem normalize_means {heap : Heap} {x : Item} {v : Value Number} (h : normalize heap x = .ok v) :
    Means heap x v ∧ v.Numbers Number.Portable := by
  have hcopies := normalize_copies h
  have htree := normalize_ok_iff.mp ⟨v, h⟩
  refine ⟨copy_means hcopies [] ?_, copy_portable hcopies⟩
  intro ancestors d y hreach
  exact (htree _ _ _ hreach).2

/-! ## §4. What is against an event. -/

/-- The field is a string that is not blank. -/
def Field.Nonblank (f : Field) : Prop := ∃ s, f = .str s ∧ stripStr s ≠ []

/-- The event ID that is sent. -/
def sentEventId (seams : Seams) (event : Event) : PyStr :=
  (normalizeVisitorId event.eventId).getD seams.newEventId

/-- The visitor that is sent: the explicit one before the ambient one, a blank one being none. -/
def sentVisitorId (event : Event) (ambientVisitorId : Field) : Option PyStr :=
  (normalizeVisitorId event.visitorId).or (normalizeVisitorId ambientVisitorId)

/-- The strings that are sent, those of the properties apart. -/
def sentStrings (seams : Seams) (eventKey : PyStr) (event : Event) (ambientVisitorId : Field) :
    List PyStr :=
  [eventKey, sentEventId seams event] ++ event.email.given.toList ++ event.phoneNumber.given.toList ++
    event.contactName.given.toList ++ (sentVisitorId event ambientVisitorId).toList

/-- **Nothing but its time is against the event.** -/
structure Unobjectionable (seams : Seams) (heap : Heap) (eventKey : Field) (event : Event)
    (ambientVisitorId : Field) : Prop where
  key : eventKey.Nonblank
  typed : ∀ f ∈ event.stringFields, f.2 ≠ .other
  contact : event.email.Nonblank ∨ event.phoneNumber.Nonblank
  encodable : ∀ s, eventKey = .str s → ∀ t ∈ sentStrings seams s event ambientVisitorId, Encodable t
  properties : event.properties = .none ∨
    isMapping heap event.properties = true ∧ PortableTree heap event.properties

/-- The time is absent, or an aware datetime that does not lie after year 9999 in UTC. -/
def Moment.InTime : Moment → Prop
  | .none => True
  | .aware m => ∃ t, m.utc = some t
  | _ => False

/-- Only validation errors. -/
def Raised.IsValidation : Raised → Prop
  | .validation _ => True
  | _ => False

theorem Raised.IsValidation.message {e : Raised} (h : e.IsValidation) : ∃ message, e = .validation message := by
  cases e with
  | validation message => exact ⟨message, rfl⟩
  | _ => exact absurd h id

abbrev Contained {α : Type} (x : Except Raised α) : Prop := Raises Raised.IsValidation x

theorem requireKey_contained (eventKey : Field) : Contained (requireKey eventKey) := by
  cases eventKey with
  | str s =>
      show Contained (if stripStr s = [] then _ else _)
      split_ifs
      · exact raises_error_iff.mpr trivial
      · exact raises_ok
  | _ => exact raises_error_iff.mpr trivial

theorem requireKey_ok_iff {eventKey : Field} {s : PyStr} :
    requireKey eventKey = .ok s ↔ eventKey = .str s ∧ eventKey.Nonblank := by
  unfold Field.Nonblank
  cases eventKey with
  | none => simp [requireKey]
  | other => simp [requireKey]
  | str r =>
      unfold requireKey
      by_cases h : stripStr r = []
      · simp [h]
      · simp [h]

theorem requireEvent_contained (event : Option Event) : Contained (requireEvent event) := by
  cases event with
  | none => exact raises_error_iff.mpr trivial
  | some ev => exact raises_ok

theorem isOther_iff {f : Field} : f.isOther = true ↔ f = .other := by
  cases f <;> simp [Field.isOther]

theorem checkFields_contained (event : Event) : Contained (checkFields event) := by
  unfold checkFields
  split
  · exact raises_error_iff.mpr trivial
  · exact raises_ok

theorem checkFields_ok_iff {event : Event} {u : Unit} :
    checkFields event = .ok u ↔ ∀ f ∈ event.stringFields, f.2 ≠ .other := by
  unfold checkFields
  cases hfind : event.stringFields.find? fun f => f.2.isOther with
  | some f =>
      apply iff_of_false (by simp)
      intro h
      have hf := List.find?_some (p := fun f : String × Field => f.2.isOther) hfind
      exact h f (List.mem_of_find?_eq_some hfind) (isOther_iff.mp hf)
  | none =>
      apply iff_of_true rfl
      intro f hf heq
      exact List.find?_eq_none.mp hfind f hf (isOther_iff.mpr heq)

theorem orEmpty_blank_iff {f : Field} : stripStr f.orEmpty = [] ↔ ¬ f.Nonblank := by
  unfold Field.Nonblank
  cases f with
  | none => exact iff_of_true rfl (by simp)
  | other => exact iff_of_true rfl (by simp)
  | str s => simp [Field.orEmpty]

theorem requireContact_contained (event : Event) : Contained (requireContact event) := by
  unfold requireContact
  split_ifs
  · exact raises_error_iff.mpr trivial
  · exact raises_ok

theorem requireContact_ok_iff {event : Event} {u : Unit} :
    requireContact event = .ok u ↔ event.email.Nonblank ∨ event.phoneNumber.Nonblank := by
  have hblank : (stripStr event.email.orEmpty = [] ∧ stripStr event.phoneNumber.orEmpty = []) ↔
      ¬ (event.email.Nonblank ∨ event.phoneNumber.Nonblank) := by
    rw [orEmpty_blank_iff, orEmpty_blank_iff, not_or]
  unfold requireContact
  by_cases h : event.email.Nonblank ∨ event.phoneNumber.Nonblank
  · rw [if_neg fun hb => hblank.mp hb h]
    exact iff_of_true rfl h
  · rw [if_pos (hblank.mpr h)]
    exact iff_of_false (by simp) h

theorem awareTime_contained (m : Aware) : Contained (awareTime m) := by
  unfold awareTime astimezone
  cases m.utc with
  | none => exact raises_error_iff.mpr trivial
  | some t => exact raises_ok

theorem occurredAt_contained (now : Aware) (moment : Moment) : Contained (occurredAt now moment) := by
  cases moment with
  | none => exact awareTime_contained now
  | aware m => exact awareTime_contained m
  | naive => exact raises_error_iff.mpr trivial
  | other => exact raises_error_iff.mpr trivial

theorem awareTime_ok_iff {m : Aware} {text : List Char} :
    awareTime m = .ok text ↔ ∃ t, m.utc = some t ∧ strftime t = text := by
  unfold awareTime astimezone
  cases m.utc with
  | none => simp
  | some t => simp

theorem normalize_contained (heap : Heap) (x : Item) : Contained (normalize heap x) := by
  unfold normalize
  split
  · exact raises_ok
  · exact raises_error_iff.mpr trivial

/-- Only `None` means that there are no properties. -/
theorem buildProperties_given {heap : Heap} {x : Item} (h : x ≠ .none) :
    buildProperties heap x = if isMapping heap x then (normalize heap x).map some
      else .error (.validation "properties must be a dict with string keys".toList) := by
  cases x with
  | none => exact absurd rfl h
  | _ => rfl

theorem buildProperties_contained (heap : Heap) (x : Item) : Contained (buildProperties heap x) := by
  by_cases h : x = .none
  · rw [h]
    exact raises_ok
  · rw [buildProperties_given h]
    split_ifs
    · exact raises_map.mpr (normalize_contained heap x)
    · exact raises_error_iff.mpr trivial

/-- What is sent as properties. -/
def PropertiesSent (heap : Heap) (x : Item) : Option (Value Number) → Prop
  | none => x = .none
  | some v => isMapping heap x = true ∧ Means heap x v ∧ v.Numbers Number.Portable

theorem buildProperties_ok_iff {heap : Heap} {x : Item} :
    (∃ o, buildProperties heap x = .ok o) ↔
      x = .none ∨ isMapping heap x = true ∧ PortableTree heap x := by
  by_cases h : x = .none
  · rw [h]
    exact iff_of_true ⟨none, rfl⟩ (.inl rfl)
  · rw [buildProperties_given h, ← normalize_ok_iff]
    cases isMapping heap x with
    | false => simp [h]
    | true => simp [h, map_ok_iff]

theorem buildProperties_sent {heap : Heap} {x : Item} {o : Option (Value Number)}
    (h : buildProperties heap x = .ok o) : PropertiesSent heap x o := by
  by_cases hx : x = .none
  · rw [hx] at h ⊢
    cases h
    rfl
  · rw [buildProperties_given hx] at h
    split_ifs at h with hmapping
    obtain ⟨v, hv, rfl⟩ := map_ok_iff.mp h
    exact ⟨hmapping, normalize_means hv⟩

/-! ## §5. What is sent. -/

theorem units?_eq_some_iff {s : PyStr} {u : List CodeUnit} :
    units? s = some u ↔ ∃ cs, chars? s = some cs ∧ utf16 cs = u := by
  unfold units?
  rw [Option.map_eq_some_iff]

theorem optionalUnits?_eq_some_iff {o : Option PyStr} {u : Option (List CodeUnit)} :
    optionalUnits? o = some u ↔ (o = none ∧ u = none) ∨
      ∃ s cs, o = some s ∧ chars? s = some cs ∧ u = some (utf16 cs) := by
  cases o with
  | none => simp [optionalUnits?, eq_comm]
  | some s =>
      unfold optionalUnits? units?
      simp [eq_comm]

/-- The strings of a payload. -/
def Payload.strings (p : Payload) : List PyStr :=
  [p.eventKey, p.eventId] ++ p.email.toList ++ p.phoneNumber.toList ++ p.contactName.toList ++
    p.visitorId.toList

theorem units?_encodable {s : PyStr} : (∃ u, units? s = some u) ↔ Encodable s := by
  unfold Encodable
  simp only [units?_eq_some_iff]
  constructor
  · intro h
    obtain ⟨u, cs, hcs, -⟩ := h
    exact ⟨cs, hcs⟩
  · intro h
    obtain ⟨cs, hcs⟩ := h
    exact ⟨utf16 cs, cs, hcs, rfl⟩

theorem optionalUnits?_encodable {o : Option PyStr} :
    (∃ u, optionalUnits? o = some u) ↔ ∀ s ∈ o.toList, Encodable s := by
  cases o with
  | none => exact iff_of_true ⟨none, rfl⟩ (by simp)
  | some s =>
      simp only [Option.toList_some, List.mem_singleton, forall_eq, ← units?_encodable]
      unfold optionalUnits?
      simp

/-- **The text of a payload can be encoded exactly when its strings can.** -/
theorem body?_isSome_iff {p : Payload} : (∃ b, p.body? = some b) ↔ ∀ s ∈ p.strings, Encodable s := by
  unfold Payload.strings
  simp only [List.forall_mem_append, List.forall_mem_cons, ← optionalUnits?_encodable]
  simp only [← units?_encodable]
  unfold Payload.body?
  constructor
  · intro h
    obtain ⟨b, h⟩ := h
    obtain ⟨key, hkey, h⟩ := Option.bind_eq_some_iff.mp h
    obtain ⟨id, hid, h⟩ := Option.bind_eq_some_iff.mp h
    obtain ⟨email, hemail, h⟩ := Option.bind_eq_some_iff.mp h
    obtain ⟨phone, hphone, h⟩ := Option.bind_eq_some_iff.mp h
    obtain ⟨contact, hcontact, h⟩ := Option.bind_eq_some_iff.mp h
    obtain ⟨visitor, hvisitor, h⟩ := Option.bind_eq_some_iff.mp h
    exact ⟨⟨⟨⟨⟨⟨key, hkey⟩, ⟨id, hid⟩, by simp⟩, email, hemail⟩, phone, hphone⟩, contact, hcontact⟩,
      visitor, hvisitor⟩
  · intro h
    obtain ⟨⟨⟨⟨⟨⟨key, hkey⟩, ⟨id, hid⟩, -⟩, email, hemail⟩, phone, hphone⟩, contact, hcontact⟩,
      visitor, hvisitor⟩ := h
    rw [hkey, hid, hemail, hphone, hcontact, hvisitor]
    exact ⟨_, rfl⟩

/-- A body holds the strings of its payload. -/
structure Payload.Writes (p : Payload) (b : Body Number) : Prop where
  eventKey : units? p.eventKey = some b.eventKey
  eventId : units? p.eventId = some b.eventId
  email : optionalUnits? p.email = some b.email
  phoneNumber : optionalUnits? p.phoneNumber = some b.phoneNumber
  contactName : optionalUnits? p.contactName = some b.contactName
  visitorId : optionalUnits? p.visitorId = some b.visitorId
  occurredAt : b.occurredAt = utf16 p.occurredAt
  isCommon : b.isCommon = p.isCommon
  properties : b.properties = p.properties

theorem body?_writes {p : Payload} {b : Body Number} (h : p.body? = some b) : p.Writes b := by
  unfold Payload.body? at h
  obtain ⟨key, hkey, h⟩ := Option.bind_eq_some_iff.mp h
  obtain ⟨id, hid, h⟩ := Option.bind_eq_some_iff.mp h
  obtain ⟨email, hemail, h⟩ := Option.bind_eq_some_iff.mp h
  obtain ⟨phone, hphone, h⟩ := Option.bind_eq_some_iff.mp h
  obtain ⟨contact, hcontact, h⟩ := Option.bind_eq_some_iff.mp h
  obtain ⟨visitor, hvisitor, h⟩ := Option.bind_eq_some_iff.mp h
  cases h
  exact ⟨hkey, hid, hemail, hphone, hcontact, hvisitor, rfl, rfl, rfl⟩

/-- The strings of such a body are Unicode. -/
theorem Payload.Writes.strings {p : Payload} {b : Body Number} (h : p.Writes b) :
    ∀ s ∈ b.strings, WellFormed s := by
  have hone : ∀ {s u}, units? s = some u → WellFormed u := by
    intro s u hu
    obtain ⟨cs, -, rfl⟩ := units?_eq_some_iff.mp hu
    exact ⟨cs, rfl⟩
  have hoptional : ∀ {o u}, optionalUnits? o = some u → ∀ s ∈ u.toList, WellFormed s := by
    intro o u hu s hs
    rcases optionalUnits?_eq_some_iff.mp hu with ⟨-, rfl⟩ | ⟨r, cs, -, -, rfl⟩
    · exact absurd hs List.not_mem_nil
    · rw [Option.toList_some, List.mem_singleton] at hs
      exact ⟨cs, hs.symm⟩
  unfold Body.strings
  simp only [List.forall_mem_append, List.forall_mem_cons]
  refine ⟨⟨⟨⟨⟨hone h.eventKey, hone h.eventId, ⟨p.occurredAt, h.occurredAt.symm⟩, by simp⟩,
    hoptional h.email⟩, hoptional h.phoneNumber⟩, hoptional h.contactName⟩, hoptional h.visitorId⟩

/-- **The text of a payload is read as its body.** -/
theorem encode_reads (floats : FloatText) {p : Payload} {b : Body Number} (h : p.body? = some b)
    (hproperties : ∀ v ∈ p.properties, v.Each WellFormed List.Nodup) :
    ∃ body, p.encode floats = .ok body ∧
      BodyReads body ((b.map (Number.numeral floats)).value) := by
  have hwrites := body?_writes h
  refine ⟨_, by unfold Payload.encode; rw [h], ?_⟩
  rw [← b.value_map]
  apply minimalEscaping.reads (fun n => n.numeral_wellFormed floats)
  · apply Body.distinct_iff.mpr
    rw [hwrites.properties]
    intro v hv
    exact (hproperties v hv).imp (fun _ _ => trivial) fun _ => id
  · apply (b.each_iff memberNames_wellFormed trivial).mpr
    refine ⟨hwrites.strings, ?_⟩
    rw [hwrites.properties]
    intro v hv
    exact (hproperties v hv).imp (fun _ => id) fun _ _ => trivial

/-- A year of four digits is written as it is. -/
theorem strftime_eq {t : Timestamp} (h : 1000 ≤ t.year) : strftime t = t.iso := by
  have hyear : yearText t.year.toNat = fourDigits t.year.toNat := by
    unfold yearText
    rw [if_neg (by omega), if_neg (by omega), if_neg (by omega)]
  unfold strftime
  rw [hyear]
  rfl

/-! ## §6. `build_body`. -/

section Build

variable {floats : FloatText} {seams : Seams} {heap : Heap} {eventKey : Field} {isCommon : Bool}
  {event : Event} {ambient : Field}

/-- The payload of an event, once its parts are there. -/
def payloadOf (seams : Seams) (isCommon : Bool) (event : Event) (ambient : Field) (key : PyStr)
    (time : List Char) (properties : Option (Value Number)) : Payload :=
  ⟨key, sentEventId seams event, time, isCommon, event.email.given, event.phoneNumber.given,
    event.contactName.given, sentVisitorId event ambient, properties⟩

theorem buildPayload_ok_iff {p : Payload} :
    buildPayload seams heap eventKey isCommon (some event) ambient = .ok p ↔
      ∃ key time properties, requireKey eventKey = .ok key ∧ checkFields event = .ok () ∧
        requireContact event = .ok () ∧ occurredAt seams.now event.occurredAt = .ok time ∧
        buildProperties heap event.properties = .ok properties ∧
        payloadOf seams isCommon event ambient key time properties = p := by
  unfold buildPayload
  constructor
  · intro h
    obtain ⟨key, hkey, h⟩ := bind_ok_iff.mp h
    obtain ⟨ev, hev, h⟩ := bind_ok_iff.mp h
    cases hev
    obtain ⟨⟨⟩, hfields, h⟩ := bind_ok_iff.mp h
    obtain ⟨⟨⟩, hcontact, h⟩ := bind_ok_iff.mp h
    obtain ⟨time, htime, h⟩ := bind_ok_iff.mp h
    obtain ⟨properties, hproperties, h⟩ := bind_ok_iff.mp h
    exact ⟨key, time, properties, hkey, hfields, hcontact, htime, hproperties, Except.ok.inj h⟩
  · intro h
    obtain ⟨key, time, properties, hkey, hfields, hcontact, htime, hproperties, rfl⟩ := h
    rw [hkey, bind_ok_iff]
    refine ⟨key, rfl, bind_ok_iff.mpr ⟨event, rfl, bind_ok_iff.mpr ⟨(), hfields, ?_⟩⟩⟩
    refine bind_ok_iff.mpr ⟨(), hcontact, bind_ok_iff.mpr ⟨time, htime, ?_⟩⟩
    exact bind_ok_iff.mpr ⟨properties, hproperties, rfl⟩

theorem buildPayload_contained (seams : Seams) (heap : Heap) (eventKey : Field) (isCommon : Bool)
    (event : Option Event) (ambient : Field) :
    Contained (buildPayload seams heap eventKey isCommon event ambient) := by
  unfold buildPayload
  refine raises_bind.mpr ⟨requireKey_contained eventKey, fun key _ => ?_⟩
  refine raises_bind.mpr ⟨requireEvent_contained event, fun ev _ => ?_⟩
  refine raises_bind.mpr ⟨checkFields_contained ev, fun _ _ => ?_⟩
  refine raises_bind.mpr ⟨requireContact_contained ev, fun _ _ => ?_⟩
  refine raises_bind.mpr ⟨occurredAt_contained seams.now ev.occurredAt, fun _ _ => ?_⟩
  exact raises_bind.mpr ⟨buildProperties_contained heap ev.properties, fun _ _ => raises_ok⟩

/-- What the text raises is handled. -/
theorem encode_contained (floats : FloatText) (p : Payload) :
    Contained ((p.encode floats).mapError handleEncode) := by
  show Raises _ _
  rw [raises_mapError]
  intro e he
  unfold Payload.encode at he
  split at he
  · cases he
  · cases he
    trivial

/-- **Only validation errors leave `build_body`.** -/
theorem buildBody_contained (floats : FloatText) (seams : Seams) (heap : Heap) (eventKey : Field)
    (isCommon : Bool) (event : Option Event) (ambient : Field) :
    Contained (buildBody floats seams heap eventKey isCommon event ambient) :=
  raises_bind.mpr ⟨buildPayload_contained seams heap eventKey isCommon event ambient,
    fun p _ => encode_contained floats p⟩

/-- The body is that of a payload whose strings can be encoded. -/
theorem buildBody_ok_iff {body : List UInt8} :
    buildBody floats seams heap eventKey isCommon (some event) ambient = .ok body ↔
      ∃ p, buildPayload seams heap eventKey isCommon (some event) ambient = .ok p ∧
        p.encode floats = .ok body := by
  unfold buildBody
  rw [bind_ok_iff]
  simp only [mapError_ok_iff]

theorem encode_ok_iff {p : Payload} :
    (∃ body, p.encode floats = .ok body) ↔ ∀ s ∈ p.strings, Encodable s := by
  rw [← body?_isSome_iff]
  unfold Payload.encode
  cases p.body? with
  | none => simp
  | some b => simp

/-- The time that is sent. -/
def sentTime (now : Aware) : Moment → Option Timestamp
  | .none => now.utc
  | .aware m => m.utc
  | _ => none

theorem occurredAt_ok_iff {now : Aware} {moment : Moment} {text : List Char} :
    occurredAt now moment = .ok text ↔ ∃ t, sentTime now moment = some t ∧ strftime t = text := by
  cases moment with
  | none => exact awareTime_ok_iff
  | aware m => exact awareTime_ok_iff
  | naive => simp [occurredAt, sentTime]
  | other => simp [occurredAt, sentTime]

/-- **An event is accepted exactly when nothing is against it, its time included.** -/
theorem buildBody_accepts_iff (hnow : event.occurredAt = .none → ∃ t, seams.now.utc = some t) :
    (∃ body, buildBody floats seams heap eventKey isCommon (some event) ambient = .ok body) ↔
      Unobjectionable seams heap eventKey event ambient ∧ event.occurredAt.InTime := by
  have htime : (∃ text, occurredAt seams.now event.occurredAt = .ok text) ↔
      event.occurredAt.InTime := by
    simp only [occurredAt_ok_iff]
    revert hnow
    cases event.occurredAt with
    | none =>
        intro hnow
        refine iff_of_true ?_ trivial
        obtain ⟨t, ht⟩ := hnow rfl
        exact ⟨_, t, ht, rfl⟩
    | aware m => simp [sentTime, Moment.InTime]
    | naive => simp [sentTime, Moment.InTime]
    | other => simp [sentTime, Moment.InTime]
  simp only [buildBody_ok_iff, buildPayload_ok_iff]
  constructor
  · intro h
    obtain ⟨body, p, ⟨key, time, properties, hkey, hfields, hcontact, ht, hproperties, rfl⟩,
      hencode⟩ := h
    obtain ⟨rfl, hnonblank⟩ := requireKey_ok_iff.mp hkey
    refine ⟨⟨hnonblank, checkFields_ok_iff.mp hfields, requireContact_ok_iff.mp hcontact, ?_,
      buildProperties_ok_iff.mp ⟨properties, hproperties⟩⟩, htime.mp ⟨time, ht⟩⟩
    intro s hs
    cases hs
    exact encode_ok_iff.mp ⟨body, hencode⟩
  · intro h
    obtain ⟨hevent, hin⟩ := h
    obtain ⟨s, rfl, hs⟩ := hevent.key
    obtain ⟨time, ht⟩ := htime.mpr hin
    obtain ⟨properties, hproperties⟩ := buildProperties_ok_iff.mpr hevent.properties
    obtain ⟨body, hbody⟩ := (@encode_ok_iff floats
      (payloadOf seams isCommon event ambient s time properties)).mpr (hevent.encodable s rfl)
    exact ⟨body, _, ⟨s, time, properties, requireKey_ok_iff.mpr ⟨rfl, s, rfl, hs⟩,
      checkFields_ok_iff.mpr hevent.typed, requireContact_ok_iff.mpr hevent.contact, ht,
      hproperties, rfl⟩, hbody⟩

/-- The member holds the string, or is not there. -/
def Holds (v : Value Numeral) (name : String) : Option PyStr → Prop
  | none => v.get (units name) = none
  | some s => ∃ cs, chars? s = some cs ∧ v.get (units name) = some (.str (utf16 cs))

/-- **The value of a body is what the caller gave**: the identity as it is, the IDs trimmed, the explicit
    visitor before the ambient one, the properties as they are. -/
structure Delivered (floats : FloatText) (seams : Seams) (heap : Heap) (key : PyStr) (isCommon : Bool)
    (event : Event) (ambient : Field) (v : Value Numeral) : Prop where
  eventKey : Holds v "event_key" (some key)
  eventId : Holds v "event_id" (some (sentEventId seams event))
  occurredAt : ∃ t, sentTime seams.now event.occurredAt = some t ∧
    v.get (units "occurred_at") = some (.str (utf16 t.iso))
  isCommon : v.get (units "is_common") = some (.bool isCommon)
  email : Holds v "email" event.email.given
  phoneNumber : Holds v "phone_number" event.phoneNumber.given
  contactName : Holds v "contact_name" event.contactName.given
  visitorId : Holds v "visitor_id" (sentVisitorId event ambient)
  properties : ∃ o, PropertiesSent heap event.properties o ∧
    v.get (units "properties") = o.map (Value.map (Number.numeral floats))

theorem holds_of_units {v : Value Numeral} {name : String} {s : PyStr} {u : List CodeUnit}
    (hu : units? s = some u) (h : v.get (units name) = some (.str u)) : Holds v name (some s) := by
  obtain ⟨cs, hcs, rfl⟩ := units?_eq_some_iff.mp hu
  exact ⟨cs, hcs, h⟩

theorem holds_of_optional {v : Value Numeral} {name : String} {o : Option PyStr}
    {u : Option (List CodeUnit)} (hu : optionalUnits? o = some u)
    (h : v.get (units name) = u.map .str) : Holds v name o := by
  rcases optionalUnits?_eq_some_iff.mp hu with ⟨rfl, rfl⟩ | ⟨s, cs, rfl, hcs, rfl⟩
  · exact h
  · exact ⟨cs, hcs, h⟩

/-- The body of a payload holds its parts. -/
theorem Payload.Writes.delivered {key : PyStr} {t : Timestamp} {o : Option (Value Number)}
    {b : Body Number} (h : (payloadOf seams isCommon event ambient key t.iso o).Writes b)
    (ht : sentTime seams.now event.occurredAt = some t)
    (ho : PropertiesSent heap event.properties o) :
    Delivered floats seams heap key isCommon event ambient
      ((b.map (Number.numeral floats)).value) where
  eventKey := holds_of_units h.eventKey (Body.get _ "event_key" (by simp [memberNames, Body.values, Body.map]))
  eventId := holds_of_units h.eventId (Body.get _ "event_id" (by simp [memberNames, Body.values, Body.map]))
  occurredAt := by
    refine ⟨t, ht, ?_⟩
    rw [show utf16 t.iso = b.occurredAt from h.occurredAt.symm]
    exact Body.get _ "occurred_at" (by simp [memberNames, Body.values, Body.map])
  isCommon := by
    rw [show isCommon = b.isCommon from h.isCommon.symm]
    exact Body.get _ "is_common" (by simp [memberNames, Body.values, Body.map])
  email := holds_of_optional h.email (Body.get _ "email" (by simp [memberNames, Body.values, Body.map]))
  phoneNumber := holds_of_optional h.phoneNumber
    (Body.get _ "phone_number" (by simp [memberNames, Body.values, Body.map]))
  contactName := holds_of_optional h.contactName
    (Body.get _ "contact_name" (by simp [memberNames, Body.values, Body.map]))
  visitorId := holds_of_optional h.visitorId (Body.get_visitorId _)
  properties := by
    refine ⟨o, ho, ?_⟩
    rw [show o = b.properties from h.properties.symm]
    exact Body.get_properties _

/-- A string that is not empty is written as one that is not empty. -/
theorem units?_ne_nil {s : PyStr} (hs : s ≠ []) {u : List CodeUnit} (hu : units? s = some u) :
    u ≠ [] := by
  obtain ⟨cs, hcs, rfl⟩ := units?_eq_some_iff.mp hu
  intro hnil
  have hempty : cs = [] := utf16_injective hnil
  rw [hempty] at hcs
  exact hs (chars?_injective hcs rfl)

theorem Field.Nonblank.given {f : Field} (h : f.Nonblank) : ∃ s, f.given = some s ∧ s ≠ [] := by
  obtain ⟨s, rfl, hs⟩ := h
  refine ⟨s, rfl, ?_⟩
  intro hnil
  rw [hnil] at hs
  exact hs rfl

theorem sentEventId_ne_nil (hid : seams.newEventId ≠ []) : sentEventId seams event ≠ [] := by
  unfold sentEventId normalizeVisitorId
  cases event.eventId with
  | str s =>
      simp only
      split_ifs with h
      · exact hid
      · exact h
  | _ => exact hid

/-- An email or a phone number that is given is written. -/
theorem contact_written {o : Option PyStr} {u : Option (List CodeUnit)}
    (hu : optionalUnits? o = some u) {s : PyStr} (ho : o = some s) (hs : s ≠ []) :
    ∃ w, u = some w ∧ w ≠ [] := by
  rcases optionalUnits?_eq_some_iff.mp hu with ⟨hnone, -⟩ | ⟨r, cs, hr, hcs, rfl⟩
  · rw [hnone] at ho
    cases ho
  · rw [hr] at ho
    cases ho
    exact ⟨_, rfl, units?_ne_nil hs (units?_eq_some_iff.mpr ⟨cs, hcs, rfl⟩)⟩

/-- Properties are an object of portable numbers. -/
theorem PropertiesSent.object {x : Item} {v : Value Number} (h : PropertiesSent heap x (some v)) :
    ∃ ms, v = .obj ms := by
  obtain ⟨hmapping, hmeans, -⟩ := h
  cases hmeans with
  | dict _ _ _ => exact ⟨_, rfl⟩
  | sequence hseq _ =>
      rename_i id items vs _
      unfold isMapping at hmapping
      cases hcell : heap id with
      | dict d => rw [hcell] at hseq; cases hseq
      | list items => simp [hcell] at hmapping
      | tuple items => simp [hcell] at hmapping
  | _ => cases hmapping

/-- **The body of an accepted event satisfies the schema.** -/
theorem Payload.Writes.schema {key : PyStr} {t : Timestamp} {o : Option (Value Number)}
    {b : Body Number} (h : (payloadOf seams isCommon event ambient key t.iso o).Writes b)
    (hfloats : floats.ReadsBack) (hkey : key ≠ []) (hid : seams.newEventId ≠ [])
    (hcontact : event.email.Nonblank ∨ event.phoneNumber.Nonblank)
    (ho : PropertiesSent heap event.properties o) : Schema (b.map (Number.numeral floats)).value := by
  apply Body.schema (b := b.map (Number.numeral floats))
  · exact units?_ne_nil hkey h.eventKey
  · exact units?_ne_nil (sentEventId_ne_nil hid) h.eventId
  · show MatchesIso b.occurredAt
    rw [h.occurredAt]
    exact t.iso_matches
  · rcases hcontact with hemail | hphone
    · obtain ⟨s, hs, hne⟩ := hemail.given
      exact .inl (contact_written h.email hs hne)
    · obtain ⟨s, hs, hne⟩ := hphone.given
      exact .inr (contact_written h.phoneNumber hs hne)
  · intro w hw
    have hproperties : b.properties = o := h.properties
    obtain ⟨v, hv, rfl⟩ := Option.map_eq_some_iff.mp hw
    rw [hproperties] at hv
    rw [hv] at ho
    obtain ⟨ms, rfl⟩ := ho.object
    refine ⟨⟨_, rfl⟩, numbers_map_iff.mpr ?_⟩
    exact ho.2.2.imp fun n hn => Number.schema hfloats hn

/-- **A body that is returned holds the parts of an event that was let through.** -/
theorem buildBody_reads {body : List UInt8}
    (h : buildBody floats seams heap eventKey isCommon (some event) ambient = .ok body) :
    ∃ key t o b, eventKey = .str key ∧ eventKey.Nonblank ∧
      (event.email.Nonblank ∨ event.phoneNumber.Nonblank) ∧
      sentTime seams.now event.occurredAt = some t ∧ buildProperties heap event.properties = .ok o ∧
      (payloadOf seams isCommon event ambient key (strftime t) o).Writes b ∧
      BodyReads body ((b.map (Number.numeral floats)).value) := by
  obtain ⟨p, hp, hencode⟩ := buildBody_ok_iff.mp h
  obtain ⟨key, time, o, hkey, -, hcontact, hoccurred, hproperties, rfl⟩ := buildPayload_ok_iff.mp hp
  obtain ⟨hstr, hnonblank⟩ := requireKey_ok_iff.mp hkey
  have hsent := buildProperties_sent hproperties
  obtain ⟨t, ht, rfl⟩ := occurredAt_ok_iff.mp hoccurred
  obtain ⟨b, hb⟩ := body?_isSome_iff.mpr (encode_ok_iff.mp ⟨body, hencode⟩)
  obtain ⟨body', hbody', hreads⟩ := encode_reads floats hb (by
    intro v hv
    have hv : o = some v := hv
    rw [hv] at hsent
    exact hsent.2.1.each)
  cases hbody'.symm.trans hencode
  exact ⟨key, t, o, b, hstr, hnonblank, requireContact_ok_iff.mp hcontact, ht, hproperties, body?_writes hb, hreads⟩

/-- **`build_body` accepts what is valid, refuses the rest with a validation error, and sends what it was
    given.** -/
theorem buildBody_spec (floats : FloatText) (hfloats : floats.ReadsBack) (seams : Seams)
    (hnow : ∃ t, seams.now.utc = some t ∧ 1000 ≤ t.year) (hid : seams.newEventId ≠ [])
    (heap : Heap) (eventKey : Field) (isCommon : Bool) (event : Event) (ambient : Field)
    (htime : event.occurredAt = .none ∨
      ∃ m, event.occurredAt = .aware m ∧ ∀ t ∈ m.utc, 1000 ≤ t.year) :
    Contained (buildBody floats seams heap eventKey isCommon (some event) ambient) ∧
    ((∃ body, buildBody floats seams heap eventKey isCommon (some event) ambient = .ok body) ↔
      Unobjectionable seams heap eventKey event ambient ∧ event.occurredAt.InTime) ∧
    ∀ body, buildBody floats seams heap eventKey isCommon (some event) ambient = .ok body →
      ∃ v, BodyReads body v ∧ Schema v ∧
        ∀ s, eventKey = .str s → Delivered floats seams heap s isCommon event ambient v := by
  refine ⟨buildBody_contained _ _ _ _ _ _ _, ?_, ?_⟩
  · obtain ⟨t, ht, -⟩ := hnow
    exact buildBody_accepts_iff fun _ => ⟨t, ht⟩
  · intro body hbody
    obtain ⟨key, t, o, b, rfl, hnonblank, hcontact, ht, hproperties, hwrites, hreads⟩ := buildBody_reads hbody
    have hsent := buildProperties_sent hproperties
    -- the time that is sent has a year of four digits
    have hyear : 1000 ≤ t.year := by
      rcases htime with hnone | ⟨m, hm, hutc⟩
      · rw [hnone] at ht
        obtain ⟨t', ht', hyear⟩ := hnow
        cases ht'.symm.trans ht
        exact hyear
      · rw [hm] at ht
        exact hutc t ht
    rw [strftime_eq hyear] at hwrites
    refine ⟨_, hreads, ?_, ?_⟩
    · apply hwrites.schema hfloats _ hid hcontact hsent
      obtain ⟨s, hs, hne⟩ := hnonblank.given
      cases hs
      exact hne
    · intro s hs
      cases hs
      exact hwrites.delivered ht hsent

end Build

/-! ## §7. The end of the year 9999. -/

/-- A clock that shows UTC, and a generated ID. -/
def fixedSeams : Seams where
  now := ⟨2026, some noon, by decide, by intro t ht; cases ht; decide⟩
  newEventId := ofChars ['i']

/-- Half past eleven at night on the last day of the year 9999, one hour behind UTC. -/
def lateMoment : Aware := ⟨9999, none, by decide, by intro t ht; cases ht⟩

/-- An event with an email. -/
def emailEvent (moment : Moment) : Event :=
  ⟨.str (ofChars ['e']), .none, .none, .none, .none, .none, moment⟩

theorem emailEvent_unobjectionable (heap : Heap) (moment : Moment) :
    Unobjectionable fixedSeams heap (.str (ofChars ['k'])) (emailEvent moment) .none where
  key := ⟨_, rfl, by decide⟩
  typed := by
    intro f hf
    unfold Event.stringFields emailEvent at hf
    simp only [List.mem_cons, List.not_mem_nil, or_false] at hf
    rcases hf with rfl | rfl | rfl | rfl | rfl <;> simp
  contact := .inl ⟨_, rfl, by decide⟩
  encodable := by
    intro s hs t ht
    cases hs
    have hstrings : sentStrings fixedSeams (ofChars ['k']) (emailEvent moment) .none
        = [ofChars ['k'], ofChars ['i'], ofChars ['e']] := rfl
    rw [hstrings] at ht
    simp only [List.mem_cons, List.not_mem_nil, or_false] at ht
    rcases ht with rfl | rfl | rfl <;> exact ⟨_, chars?_ofChars _⟩
  properties := .inl rfl

/-- **An event may be refused for its time alone**: the year is 9999, and UTC is beyond it. -/
theorem lateMoment_refused :
    1000 ≤ lateMoment.year ∧ lateMoment.year ≤ 9999 ∧
      Unobjectionable fixedSeams (fun _ => .list []) (.str (ofChars ['k']))
        (emailEvent (.aware lateMoment)) .none ∧
      ∃ message, buildBody exactText fixedSeams (fun _ => .list []) (.str (ofChars ['k'])) true
        (some (emailEvent (.aware lateMoment))) .none = .error (.validation message) :=
  ⟨by decide, by decide, emailEvent_unobjectionable _ _,
    "occurred_at must be between years 0001 and 9999".toList, rfl⟩

/-- Noon of a day, at seven o'clock in the evening of a clock to the east. -/
def eveningMoment : Aware := ⟨2026, some noon, by decide, by intro t ht; cases ht; decide⟩

/-- A dict with the same list under two keys. -/
def sharedHeap : Heap
  | 0 => .dict ⟨[(.str (ofChars ['a']), .ref 1), (.str (ofChars ['b']), .ref 1)], by decide⟩
  | _ => .list [.int 7, .none]

/-- An event that has a time and these properties. -/
def sharedEvent : Event := { emailEvent (.aware eveningMoment) with properties := .ref 0 }

theorem sharedEvent_unobjectionable :
    Unobjectionable fixedSeams sharedHeap (.str (ofChars ['k'])) sharedEvent .none where
  key := ⟨_, rfl, by decide⟩
  typed := (emailEvent_unobjectionable sharedHeap (.aware eveningMoment)).typed
  contact := .inl ⟨_, rfl, by decide⟩
  encodable := (emailEvent_unobjectionable sharedHeap (.aware eveningMoment)).encodable
  properties := by
    have hnormalize : ∃ v, normalize sharedHeap (.ref 0) = .ok v := ⟨_, rfl⟩
    exact .inr ⟨rfl, normalize_ok_iff.mp hnormalize⟩

/-- An event with a time of its own and a list that is shared is sent. -/
theorem sharedEvent_sent :
    ∃ body v, buildBody exactText fixedSeams sharedHeap (.str (ofChars ['k'])) true (some sharedEvent)
        .none = .ok body ∧ BodyReads body v ∧ Schema v ∧
      Delivered exactText fixedSeams sharedHeap (ofChars ['k']) true sharedEvent .none v := by
  have hspec := buildBody_spec exactText exactText_readsBack fixedSeams ⟨noon, rfl, by decide⟩
    (by decide) sharedHeap (.str (ofChars ['k'])) true sharedEvent .none
    (.inr ⟨eveningMoment, rfl, by intro t ht; cases ht; decide⟩)
  obtain ⟨body, hbody⟩ := hspec.2.1.mpr ⟨sharedEvent_unobjectionable, noon, rfl⟩
  obtain ⟨v, hreads, hschema, hdelivered⟩ := hspec.2.2 body hbody
  exact ⟨body, v, hbody, hreads, hschema, hdelivered _ rfl⟩

end CekatEvents.Python.Validation
