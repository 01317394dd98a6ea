/-
  CekatEvents.Ruby.Outcomes — what leaves `build` of the Ruby client.

  Two errors that are no validation errors can leave it.  `String#strip` raises its own for a string that
  is broken in its encoding, and the emptiness of a string is tested by stripping it, before the string
  is checked to be UTF-8; `JSON.generate` raises a `NestingError` from 101 containers on, although the
  properties are let through up to 256 levels.

  Main result: `contained_and_accepts_iff` — only validation errors leave `build`, and everything that is
  valid is accepted, exactly when every string that is stripped can be stripped (`Strippable`) and no
  container stands 99 levels deep in properties that are otherwise in order (`Shallow`).
-/
import CekatEvents.Effects.Outcome
import CekatEvents.Ruby.PayloadBuilder

namespace CekatEvents.Ruby

open CekatEvents.Arithmetic CekatEvents.Effects CekatEvents.Encoding CekatEvents.Graph
  CekatEvents.JsonText CekatEvents.Payload

/-! ## §1. Properties in order. -/

/-- The name a key stands for. -/
def Key.name? : Key → Option (List Char)
  | .string s | .symbol s => utf8? s
  | .other _ => none

/-- The keys have names, and no name twice. -/
def Named (pairs : List (Key × Item)) : Prop :=
  ∃ names : List (List Char), (pairs.map fun p => p.1.name?) = names.map some ∧ names.Nodup

/-- A value of JSON that every implementation holds, as long as what it contains is; a container is not
    inside itself. -/
def Item.Portable (heap : Heap) (ancestors : List Nat) : Item → Prop
  | .nil => True
  | .bool _ => True
  | .string s => ∃ cs, utf8? s = some cs
  | .symbol s => ∃ cs, utf8? s = some cs
  | .integer n => n.natAbs ≤ maxSafeInteger
  | .float x => x.Portable
  | .numeric real toF => real = true ∧ toF.Portable
  | .ref id => id ∉ ancestors ∧ ∀ pairs, heap id = .hash pairs → Named pairs
  | .other => False

/-- A container. -/
def Item.IsContainer : Item → Prop
  | .ref _ => True
  | _ => False

/-- What is inside the properties, with the containers around it and its depth. -/
abbrev Inside (heap : Heap) (id : Nat) (ancestors : List Nat) (depth : Nat) (x : Item) : Prop :=
  Reaches (graph heap) [] (.ref id) ancestors depth x

/-- **A tree of JSON values nested at most 256 levels deep.** -/
def PortableTree (heap : Heap) (id : Nat) : Prop :=
  ∀ ancestors depth x, Inside heap id ancestors depth x → depth ≤ MAX_DEPTH ∧ x.Portable heap ancestors

theorem elim_ok_iff {s : RString} {name : List Char} :
    (utf8? s).elim (.error Fault.notUtf8) .ok = Except.ok name ↔ utf8? s = some name := by
  cases utf8? s with
  | none => simp
  | some cs => simp

theorem keyName_ok_iff {k : Key} {name : List Char} : keyName k = .ok name ↔ k.name? = some name := by
  cases k with
  | other className => exact iff_of_false (by rintro ⟨⟩) (by rintro ⟨⟩)
  | string s => exact elim_ok_iff
  | symbol s => exact elim_ok_iff

theorem shape_array {heap : Heap} {id : Nat} {items : List Item} (h : heap id = .array items) :
    (graph heap).shape (.ref id) = .node (some id) none (arrayEntries items) .arr := by
  show shape heap (.ref id) = _
  simp only [shape, h]

theorem shape_hash {heap : Heap} {id : Nat} {pairs : List (Key × Item)} (h : heap id = .hash pairs) :
    (graph heap).shape (.ref id) = .node (some id) none (hashEntries [] pairs)
      fun ws => .obj ((hashNames pairs).zip ws) := by
  show shape heap (.ref id) = _
  simp only [shape, h]

theorem hashEntries_items (seen : List (List Char)) (pairs : List (Key × Item)) :
    (hashEntries seen pairs).map Entry.item = pairs.map Prod.snd := by
  induction pairs generalizing seen with
  | nil => rfl
  | cons p ps ih =>
      obtain ⟨k, x⟩ := p
      unfold hashEntries
      cases keyName k with
      | error f => simp [ih]
      | ok name => simp [ih]

theorem hashEntries_after {seen : List (List Char)} {pairs : List (Key × Item)}
    {e : Entry Item Step Fault} (he : e ∈ hashEntries seen pairs) : e.after = none := by
  induction pairs generalizing seen with
  | nil => exact absurd he List.not_mem_nil
  | cons p ps ih =>
      obtain ⟨k, x⟩ := p
      unfold hashEntries at he
      cases hk : keyName k with
      | error f =>
          rw [hk] at he
          rcases List.mem_cons.mp he with rfl | he
          · rfl
          · exact ih he
      | ok name =>
          rw [hk] at he
          rcases List.mem_cons.mp he with rfl | he
          · rfl
          · exact ih he

/-- The entries of a hash are in order when its keys have names that are new. -/
theorem hashEntries_before_iff {seen : List (List Char)} {pairs : List (Key × Item)} :
    (∀ e ∈ hashEntries seen pairs, e.before = none) ↔
      ∃ names : List (List Char), (pairs.map fun p => p.1.name?) = names.map some ∧
        names.Nodup ∧ ∀ name ∈ names, name ∉ seen := by
  induction pairs generalizing seen with
  | nil =>
      refine iff_of_true ?_ ⟨[], rfl, List.nodup_nil, ?_⟩
      · intro e he
        exact absurd he List.not_mem_nil
      · intro name hname
        exact absurd hname List.not_mem_nil
  | cons p ps ih =>
      obtain ⟨k, x⟩ := p
      unfold hashEntries
      cases hk : keyName k with
      | error f =>
          have hnone : k.name? = none := by
            rw [Option.eq_none_iff_forall_ne_some]
            intro name hname
            rw [keyName_ok_iff.mpr hname] at hk
            cases hk
          apply iff_of_false
          · intro h
            exact absurd (h _ List.mem_cons_self) (by simp)
          · intro h
            obtain ⟨names, hnames, -⟩ := h
            cases names with
            | nil => cases hnames
            | cons n ns => simp [hnone] at hnames
      | ok name =>
          have hname := keyName_ok_iff.mp hk
          simp only [List.forall_mem_cons, ih]
          constructor
          · intro h
            obtain ⟨hself, names, hnames, hnodup, hseen⟩ := h
            have hnew : name ∉ seen := by simpa using hself
            refine ⟨name :: names, by simp [hname, hnames], ?_, ?_⟩
            · refine List.nodup_cons.mpr ⟨?_, hnodup⟩
              intro hmem
              exact hseen name hmem List.mem_cons_self
            · refine List.forall_mem_cons.mpr ⟨hnew, ?_⟩
              intro n hn hmem
              exact hseen n hn (List.mem_cons_of_mem _ hmem)
          · intro h
            obtain ⟨names, hnames, hnodup, hseen⟩ := h
            cases names with
            | nil => cases hnames
            | cons n ns =>
                simp only [List.map_cons, List.cons.injEq, hname, Option.some.injEq] at hnames
                obtain ⟨rfl, hnames⟩ := hnames
                obtain ⟨hnot, hnodup⟩ := List.nodup_cons.mp hnodup
                obtain ⟨hnew, hseen⟩ := List.forall_mem_cons.mp hseen
                refine ⟨by simp [hnew], ns, hnames, hnodup, ?_⟩
                intro m hm hmem
                rcases List.mem_cons.mp hmem with rfl | hmem
                · exact hnot hm
                · exact hseen m hm hmem

theorem hashEntries_named_iff {pairs : List (Key × Item)} :
    (∀ e ∈ hashEntries [] pairs, e.before = none) ↔ Named pairs := by
  rw [hashEntries_before_iff]
  unfold Named
  apply exists_congr
  intro names
  simp

theorem portableFloat_ok_iff {x : Double} : (∃ v, portableFloat x = .ok v) ↔ x.Portable := by
  rw [← portable?_isSome_iff]
  unfold portableFloat
  cases x.portable? with
  | none => simp
  | some y => simp

theorem textLeaf_ok_iff {s : RString} : (∃ v, textLeaf s = .ok v) ↔ ∃ cs, utf8? s = some cs := by
  unfold textLeaf
  cases utf8? s with
  | none => simp
  | some cs => simp

theorem portableFloat_nesting {x : Double} {v : Value Number} (h : portableFloat x = .ok v) :
    v.nesting = 0 := by
  unfold portableFloat at h
  cases hx : x.portable? with
  | none => rw [hx] at h; cases h
  | some y => rw [hx] at h; cases h; rfl

theorem textLeaf_nesting {s : RString} {v : Value Number} (h : textLeaf s = .ok v) :
    v.nesting = 0 := by
  unfold textLeaf at h
  cases hs : utf8? s with
  | none => rw [hs] at h; cases h
  | some cs => rw [hs] at h; cases h; rfl

/-- **What `normalize` takes for faulty is what is not portable.** -/
theorem not_faulty_iff {heap : Heap} {ancestors : List Nat} {x : Item} :
    ¬ Faulty (graph heap) ancestors x ↔ x.Portable heap ancestors := by
  cases x with
  | nil => exact (not_faulty_leaf_iff rfl).trans (iff_of_true ⟨_, rfl⟩ trivial)
  | bool b => exact (not_faulty_leaf_iff rfl).trans (iff_of_true ⟨_, rfl⟩ trivial)
  | string s => exact (not_faulty_leaf_iff rfl).trans textLeaf_ok_iff
  | symbol s => exact (not_faulty_leaf_iff rfl).trans textLeaf_ok_iff
  | integer n =>
      rw [not_faulty_leaf_iff (T := graph heap) rfl]
      unfold Item.Portable
      split_ifs with h
      · exact iff_of_true ⟨_, rfl⟩ h
      · exact iff_of_false (by rintro ⟨w, ⟨⟩⟩) h
  | float y => exact (not_faulty_leaf_iff rfl).trans portableFloat_ok_iff
  | numeric real toF =>
      rw [not_faulty_leaf_iff (T := graph heap) rfl]
      unfold Item.Portable
      cases real with
      | true => simpa using portableFloat_ok_iff
      | false => simp
  | ref id =>
      unfold Item.Portable
      cases hcell : heap id with
      | array items =>
          rw [not_faulty_node_iff (shape_array hcell)]
          have hentries : ∀ e ∈ arrayEntries items, e.before = none ∧ e.after = none := by
            intro e he
            obtain ⟨i, hi, rfl⟩ := List.mem_mapIdx.mp he
            exact ⟨rfl, rfl⟩
          refine and_congr (by simp) ((and_iff_right rfl).trans (iff_of_true hentries ?_))
          intro pairs h
          rw [hcell] at h
          cases h
      | hash pairs =>
          rw [not_faulty_node_iff (shape_hash hcell)]
          have hentries : (∀ e ∈ hashEntries [] pairs, e.before = none ∧ e.after = none) ↔
              Named pairs := by
            rw [← hashEntries_named_iff]
            apply forall₂_congr
            intro e he
            exact and_iff_left (hashEntries_after he)
          refine and_congr (by simp) ((and_iff_right rfl).trans (hentries.trans ?_))
          constructor
          · intro h pairs' heq
            rw [hcell] at heq
            cases heq
            exact h
          · intro h
            exact h pairs hcell
  | other => exact (not_faulty_leaf_iff rfl).trans (iff_of_false (by rintro ⟨w, ⟨⟩⟩) id)

/-- A value is a node of the graph when it is a container. -/
theorem isNode_iff {heap : Heap} {x : Item} : (graph heap).IsNode x ↔ x.IsContainer := by
  constructor
  · intro h
    obtain ⟨ident, opening, entries, build, h⟩ := h
    cases x with
    | ref id => trivial
    | _ => cases h
  · intro h
    cases x with
    | ref id =>
        cases hcell : heap id with
        | array items => exact ⟨_, _, _, _, shape_array hcell⟩
        | hash pairs => exact ⟨_, _, _, _, shape_hash hcell⟩
    | _ => exact absurd h id

/-- The levels of a copy are those of its graph. -/
theorem counts_nesting (heap : Heap) : Counts (graph heap) Value.nesting where
  leaf := by
    intro x w h
    cases x with
    | nil => cases h; rfl
    | bool b => cases h; rfl
    | string s => exact textLeaf_nesting (Shape.leaf.inj h)
    | symbol s => exact textLeaf_nesting (Shape.leaf.inj h)
    | integer n =>
        have h := Shape.leaf.inj h
        split_ifs at h with hn
        cases h
        rfl
    | float y => exact portableFloat_nesting (Shape.leaf.inj h)
    | numeric real toF =>
        cases real with
        | true => exact portableFloat_nesting (Shape.leaf.inj h)
        | false => cases h
    | ref id =>
        cases hcell : heap id with
        | array items => rw [shape_array hcell] at h; cases h
        | hash pairs => rw [shape_hash hcell] at h; cases h
    | other => cases h
  node := by
    intro x ident opening entries build ws k h hlen
    cases x with
    | ref id =>
        cases hcell : heap id with
        | array items =>
            rw [shape_array hcell] at h
            cases h
            exact nesting_arr_le
        | hash pairs =>
            rw [shape_hash hcell] at h
            cases h
            apply nesting_zip_le
            rw [hlen, ← List.length_map (f := Entry.item), hashEntries_items]
            simp [hashNames]
    | _ => cases h

/-- **`normalize` accepts the trees of JSON values, and no others.** -/
theorem normalize_ok_iff (platform : Platform) {heap : Heap} {id : Nat} :
    (∃ v, normalize platform heap id = .ok v) ↔ PortableTree heap id := by
  have hwalk := walk_ok_iff (graph heap) (MAX_DEPTH + 1) [] [] (.ref id)
  unfold normalize
  rw [visit_eq]
  trans ∃ w, walk (graph heap) (MAX_DEPTH + 1) [] [] (.ref id) = .ok w
  · cases walk (graph heap) (MAX_DEPTH + 1) [] [] (.ref id) with
    | error fault => simp [Except.map]
    | ok w => simp [Except.map]
  · rw [hwalk]
    unfold Sound PortableTree
    apply forall_congr'
    intro ancestors
    apply forall_congr'
    intro d
    apply forall_congr'
    intro x
    apply imp_congr_right
    intro _
    exact and_congr Nat.lt_succ_iff not_faulty_iff

theorem normalize_copies {platform : Platform} {heap : Heap} {id : Nat} {v : Value Number}
    (h : normalize platform heap id = .ok v) : Copies (graph heap) (.ref id) v := by
  unfold normalize at h
  rw [visit_eq] at h
  cases hw : walk (graph heap) (MAX_DEPTH + 1) [] [] (.ref id) with
  | error fault => simp [hw, Except.map] at h
  | ok w =>
      simp only [hw, Except.map, Except.ok.injEq] at h
      rw [← h]
      exact walk_copies hw

/-! ## §2. Strings that are stripped. -/

section Strings

variable (platform : Platform)

/-- The field is a string that cannot be stripped. -/
def Field.Broken : Field → Prop
  | .string s => ∃ m, platform.strip s = .error m
  | _ => False

/-- The field is nothing but space, or no string. -/
def Field.Blank : Field → Prop
  | .string s => ∃ t, platform.strip s = .ok t ∧ t.bytes = []
  | _ => True

/-- The field is a string that is not blank, and this is what it comes to without the space. -/
def Field.Trims (f : Field) (t : RString) : Prop :=
  ∃ s, f = .string s ∧ platform.strip s = .ok t ∧ t.bytes ≠ []

/-- The field is a string that is not blank. -/
def Field.Given (f : Field) : Prop := ∃ t, f.Trims platform t

/-- The field, if it is a string, is valid UTF-8. -/
def Field.Utf8 (f : Field) : Prop := ∀ s, f = .string s → ∃ cs, utf8? s = some cs

/-- The string fields are strings or nil. -/
def EventInput.Typed (event : EventInput) : Prop := ∀ f ∈ event.stringFields, f.2 ≠ .other

/-- There is an email or a phone number, the email being looked at first. -/
def EventInput.Identified (event : EventInput) : Prop :=
  event.email.Given platform ∨ event.email.Blank platform ∧ event.phoneNumber.Given platform

/-- The time is one, within the years that are sent. -/
def Moment.Sendable (clock : Timestamp) : Moment → Prop
  | .nil => clock.inYears = true
  | .time t => t.inYears = true
  | .other => False

/-- Only validation errors. -/
def Raised.IsValidation : Raised → Prop
  | .validation _ => True
  | _ => False

abbrev Contained {α : Type} (x : Except Raised α) : Prop := Raises Raised.IsValidation x

theorem contained_bind {α β : Type} {x : Except Raised α} {f : α → Except Raised β} :
    Contained (x >>= f) ↔ Contained x ∧ ∀ a, x = .ok a → Contained (f a) := raises_bind

theorem contained_map {α β : Type} {x : Except Raised α} {f : α → β} :
    Contained (x.map f) ↔ Contained x := raises_map

variable {platform}

/-- A field is stripped in one of three ways. -/
theorem Field.broken_or_blank_or_trims (platform : Platform) (f : Field) :
    f.Broken platform ∨ f.Blank platform ∨ ∃ t, f.Trims platform t := by
  cases f with
  | nil => exact .inr (.inl trivial)
  | other => exact .inr (.inl trivial)
  | string s =>
      cases hs : platform.strip s with
      | error m => exact .inl ⟨m, hs⟩
      | ok t =>
          by_cases ht : t.bytes = []
          · exact .inr (.inl ⟨t, hs, ht⟩)
          · exact .inr (.inr ⟨t, s, rfl, hs, ht⟩)

theorem normalizeVisitorId_broken {f : Field} (h : f.Broken platform) :
    ∃ m, normalizeVisitorId platform f = .error (.strip m) := by
  cases f with
  | nil => exact absurd h id
  | other => exact absurd h id
  | string s =>
      obtain ⟨m, hm⟩ := h
      refine ⟨m, ?_⟩
      show (strip platform s >>= _) = _
      rw [strip, hm]
      rfl

theorem normalizeVisitorId_blank {f : Field} (h : f.Blank platform) :
    normalizeVisitorId platform f = .ok none := by
  cases f with
  | nil => rfl
  | other => rfl
  | string s =>
      obtain ⟨t, hs, ht⟩ := h
      show (strip platform s >>= _) = _
      rw [strip, hs]
      show Except.ok (if t.bytes.isEmpty = true then none else some t) = _
      rw [ht]
      rfl

theorem normalizeVisitorId_trims {f : Field} {t : RString} (h : f.Trims platform t) :
    normalizeVisitorId platform f = .ok (some t) := by
  obtain ⟨s, rfl, hs, ht⟩ := h
  show (strip platform s >>= _) = _
  rw [strip, hs]
  show Except.ok (if t.bytes.isEmpty = true then none else some t) = _
  simp [ht]

/-- What `VisitorIdResolver.normalize` raises is what `strip` raises. -/
theorem normalizeVisitorId_error {f : Field} {e : Raised}
    (h : normalizeVisitorId platform f = .error e) : ¬ e.IsValidation := by
  rcases f.broken_or_blank_or_trims platform with hf | hf | ⟨t, hf⟩
  · obtain ⟨m, hm⟩ := normalizeVisitorId_broken hf
    rw [hm] at h
    cases h
    exact id
  · rw [normalizeVisitorId_blank hf] at h
    cases h
  · rw [normalizeVisitorId_trims hf] at h
    cases h

theorem normalizeVisitorId_contained_iff {f : Field} :
    Contained (normalizeVisitorId platform f) ↔ ¬ f.Broken platform := by
  constructor
  · intro h hbroken
    obtain ⟨m, hm⟩ := normalizeVisitorId_broken hbroken
    exact h _ hm
  · intro h
    rcases f.broken_or_blank_or_trims platform with hf | hf | ⟨t, hf⟩
    · exact absurd hf h
    · rw [normalizeVisitorId_blank hf]
      exact raises_ok
    · rw [normalizeVisitorId_trims hf]
      exact raises_ok

theorem normalizeVisitorId_some_iff {f : Field} {t : RString} :
    normalizeVisitorId platform f = .ok (some t) ↔ f.Trims platform t := by
  constructor
  · intro h
    rcases f.broken_or_blank_or_trims platform with hf | hf | ⟨u, hf⟩
    · obtain ⟨m, hm⟩ := normalizeVisitorId_broken hf
      rw [hm] at h
      cases h
    · rw [normalizeVisitorId_blank hf] at h
      cases h
    · rw [normalizeVisitorId_trims hf] at h
      cases h
      exact hf
  · exact normalizeVisitorId_trims

theorem normalizeVisitorId_none_iff {f : Field} :
    normalizeVisitorId platform f = .ok none ↔ f.Blank platform := by
  constructor
  · intro h
    rcases f.broken_or_blank_or_trims platform with hf | hf | ⟨u, hf⟩
    · obtain ⟨m, hm⟩ := normalizeVisitorId_broken hf
      rw [hm] at h
      cases h
    · exact hf
    · rw [normalizeVisitorId_trims hf] at h
      cases h
  · exact normalizeVisitorId_blank

/-- A field is blank when nothing is left of it. -/
theorem isBlank_eq (f : Field) :
    isBlank platform f = (normalizeVisitorId platform f).map Option.isNone := by
  cases f with
  | nil => rfl
  | other => rfl
  | string s =>
      show (strip platform s >>= _) = (strip platform s >>= _).map _
      cases strip platform s with
      | error e => rfl
      | ok t =>
          show Except.ok t.bytes.isEmpty = .ok (Option.isNone _)
          cases t.bytes.isEmpty with
          | true => rfl
          | false => rfl

theorem isBlank_contained_iff {f : Field} :
    Contained (isBlank platform f) ↔ ¬ f.Broken platform := by
  rw [isBlank_eq, contained_map, normalizeVisitorId_contained_iff]

theorem isBlank_true_iff {f : Field} : isBlank platform f = .ok true ↔ f.Blank platform := by
  rw [isBlank_eq, map_ok_iff, ← normalizeVisitorId_none_iff]
  simp

theorem isBlank_false_iff {f : Field} : isBlank platform f = .ok false ↔ f.Given platform := by
  rw [isBlank_eq, map_ok_iff]
  unfold Field.Given
  simp only [← normalizeVisitorId_some_iff]
  constructor
  · intro h
    obtain ⟨o, ho, hsome⟩ := h
    cases o with
    | none => cases hsome
    | some t => exact ⟨t, ho⟩
  · intro h
    obtain ⟨t, ht⟩ := h
    exact ⟨some t, ht, rfl⟩

/-! ## §3. The steps of `build`. -/

theorem requireKey_contained_iff {eventKey : Field} :
    Contained (requireKey platform eventKey) ↔ ¬ eventKey.Broken platform := by
  cases eventKey with
  | nil => exact iff_of_true (raises_error_iff.mpr trivial) id
  | other => exact iff_of_true (raises_error_iff.mpr trivial) id
  | string s =>
      show Contained (isBlank platform (.string s) >>= _) ↔ _
      rw [contained_bind, isBlank_contained_iff]
      apply and_iff_left
      intro b _
      cases b with
      | true => exact raises_error_iff.mpr trivial
      | false => exact raises_ok

theorem requireKey_ok_iff {eventKey : Field} {s : RString} :
    requireKey platform eventKey = .ok s ↔ eventKey = .string s ∧ eventKey.Given platform := by
  cases eventKey with
  | nil => exact iff_of_false (by rintro ⟨⟩) (by rintro ⟨⟨⟩, -⟩)
  | other => exact iff_of_false (by rintro ⟨⟩) (by rintro ⟨⟨⟩, -⟩)
  | string r =>
      rw [← isBlank_false_iff]
      show (isBlank platform (.string r) >>= _) = _ ↔ _
      rw [bind_ok_iff]
      constructor
      · intro h
        obtain ⟨b, hb, h⟩ := h
        cases b with
        | true => cases h
        | false => cases h; exact ⟨rfl, hb⟩
      · intro h
        obtain ⟨heq, hb⟩ := h
        cases heq
        exact ⟨false, hb, rfl⟩

theorem requireEvent_contained (event : Option EventInput) : Contained (requireEvent event) := by
  cases event with
  | none => exact raises_error_iff.mpr trivial
  | some ev => exact raises_ok

theorem requireEvent_ok_iff {event : Option EventInput} {ev : EventInput} :
    requireEvent event = .ok ev ↔ event = some ev := by
  cases event with
  | none => simp [requireEvent]
  | some e => simp [requireEvent]

theorem checkFields_contained (ev : EventInput) : Contained (checkFields ev) := by
  unfold checkFields
  split
  · exact raises_error_iff.mpr trivial
  · exact raises_ok

theorem checkFields_ok_iff {ev : EventInput} {u : Unit} : checkFields ev = .ok u ↔ ev.Typed := by
  have hother : ∀ f : String × Field, f.2.isOther = true ↔ f.2 = .other := by
    intro f
    cases f.2 <;> simp [Field.isOther]
  unfold checkFields EventInput.Typed
  cases hfind : ev.stringFields.find? fun f => f.2.isOther with
  | some f =>
      refine iff_of_false (by rintro ⟨⟩) ?_
      intro h
      have hf := List.find?_some (p := fun f : String × Field => f.2.isOther) hfind
      exact h f (List.mem_of_find?_eq_some hfind) ((hother f).mp hf)
  | none =>
      refine iff_of_true rfl ?_
      intro f hf heq
      exact List.find?_eq_none.mp hfind f hf ((hother f).mpr heq)

theorem requireIdentity_contained_iff {ev : EventInput} :
    Contained (requireIdentity platform ev) ↔
      ¬ ev.email.Broken platform ∧ (ev.email.Blank platform → ¬ ev.phoneNumber.Broken platform) := by
  unfold requireIdentity
  rw [contained_bind, isBlank_contained_iff]
  apply and_congr_right
  intro _
  constructor
  · intro h hblank
    have htrue := h true (isBlank_true_iff.mpr hblank)
    rw [if_pos rfl, contained_bind, isBlank_contained_iff] at htrue
    exact htrue.1
  · intro h b hb
    cases b with
    | false => exact raises_ok
    | true =>
        rw [if_pos rfl, contained_bind, isBlank_contained_iff]
        refine ⟨h (isBlank_true_iff.mp hb), ?_⟩
        intro c _
        cases c with
        | true => exact raises_error_iff.mpr trivial
        | false => exact raises_ok

theorem requireIdentity_ok_iff {ev : EventInput} {u : Unit} :
    requireIdentity platform ev = .ok u ↔ ev.Identified platform := by
  unfold requireIdentity EventInput.Identified
  rw [bind_ok_iff, ← isBlank_true_iff, ← isBlank_false_iff, ← isBlank_false_iff]
  constructor
  · intro h
    obtain ⟨b, hb, h⟩ := h
    cases b with
    | false => exact .inl hb
    | true =>
        rw [if_pos rfl, bind_ok_iff] at h
        obtain ⟨c, hc, h⟩ := h
        cases c with
        | true => cases h
        | false => exact .inr ⟨hb, hc⟩
  · intro h
    rcases h with h | ⟨hb, hc⟩
    · exact ⟨false, h, rfl⟩
    · refine ⟨true, hb, ?_⟩
      rw [if_pos rfl, bind_ok_iff]
      exact ⟨false, hc, rfl⟩

theorem utf8_contained (s : RString) (path : String) : Contained (utf8 s path) := by
  unfold utf8
  cases utf8? s with
  | none => exact raises_error_iff.mpr trivial
  | some cs => exact raises_ok

theorem utf8_ok_iff {s : RString} {path : String} {cs : List Char} :
    utf8 s path = .ok cs ↔ utf8? s = some cs := by
  unfold utf8
  cases utf8? s with
  | none => simp
  | some ds => simp

theorem utf8Field_contained (f : Field) (path : String) : Contained (utf8Field f path) := by
  cases f with
  | nil => exact raises_ok
  | other => exact raises_ok
  | string s => exact raises_map.mpr (utf8_contained s path)

theorem utf8Field_ok_iff (path : String) {f : Field} :
    (∃ o, utf8Field f path = .ok o) ↔ f.Utf8 := by
  cases f with
  | nil => exact iff_of_true ⟨none, rfl⟩ (by rintro s ⟨⟩)
  | other => exact iff_of_true ⟨none, rfl⟩ (by rintro s ⟨⟩)
  | string s =>
      show (∃ o, (utf8 s path).map some = .ok o) ↔ _
      simp only [map_ok_iff, utf8_ok_iff]
      constructor
      · intro h s' hs
        obtain ⟨o, cs, hcs, -⟩ := h
        cases hs
        exact ⟨cs, hcs⟩
      · intro h
        obtain ⟨cs, hcs⟩ := h s rfl
        exact ⟨some cs, cs, hcs, rfl⟩

theorem occurredAt_contained (clock : Timestamp) (value : Moment) :
    Contained (occurredAt clock value) := by
  cases value with
  | other => exact raises_error_iff.mpr trivial
  | nil =>
      simp only [occurredAt]
      split_ifs
      · exact raises_ok
      · exact raises_error_iff.mpr trivial
  | time t =>
      simp only [occurredAt]
      split_ifs
      · exact raises_ok
      · exact raises_error_iff.mpr trivial

theorem occurredAt_ok_iff {clock : Timestamp} {value : Moment} :
    (∃ cs, occurredAt clock value = .ok cs) ↔ value.Sendable clock := by
  cases value with
  | other => exact iff_of_false (by rintro ⟨cs, ⟨⟩⟩) id
  | nil =>
      simp only [occurredAt, Moment.Sendable]
      split_ifs with h
      · exact iff_of_true ⟨_, rfl⟩ h
      · exact iff_of_false (by rintro ⟨cs, ⟨⟩⟩) h
  | time t =>
      simp only [occurredAt, Moment.Sendable]
      split_ifs with h
      · exact iff_of_true ⟨_, rfl⟩ h
      · exact iff_of_false (by rintro ⟨cs, ⟨⟩⟩) h

theorem resolveVisitor_contained_iff {visitorId ambient : Field} :
    Contained (resolveVisitor platform visitorId ambient) ↔
      ¬ visitorId.Broken platform ∧ (visitorId.Blank platform → ¬ ambient.Broken platform) := by
  unfold resolveVisitor
  rw [contained_bind, normalizeVisitorId_contained_iff]
  apply and_congr_right
  intro _
  constructor
  · intro h hblank
    exact normalizeVisitorId_contained_iff.mp (h none (normalizeVisitorId_none_iff.mpr hblank))
  · intro h o ho
    cases o with
    | some t => exact raises_ok
    | none => exact normalizeVisitorId_contained_iff.mpr (h (normalizeVisitorId_none_iff.mp ho))

/-- The visitor that is sent: the one of the event, or else the one around it. -/
def Chosen (platform : Platform) (visitorId ambient : Field) (t : RString) : Prop :=
  visitorId.Trims platform t ∨ visitorId.Blank platform ∧ ambient.Trims platform t

theorem resolveVisitor_some_iff {visitorId ambient : Field} {t : RString} :
    resolveVisitor platform visitorId ambient = .ok (some t) ↔
      Chosen platform visitorId ambient t := by
  unfold resolveVisitor Chosen
  rw [bind_ok_iff, ← normalizeVisitorId_none_iff, ← normalizeVisitorId_some_iff,
    ← normalizeVisitorId_some_iff]
  constructor
  · intro h
    obtain ⟨o, ho, h⟩ := h
    cases o with
    | none => exact .inr ⟨ho, h⟩
    | some u => cases h; exact .inl ho
  · intro h
    rcases h with h | ⟨hnone, h⟩
    · exact ⟨some t, h, rfl⟩
    · exact ⟨none, hnone, h⟩

theorem resolveVisitor_error {visitorId ambient : Field} {e : Raised}
    (h : resolveVisitor platform visitorId ambient = .error e) : ¬ e.IsValidation := by
  unfold resolveVisitor at h
  cases hv : normalizeVisitorId platform visitorId with
  | error e' =>
      rw [hv] at h
      cases h
      exact normalizeVisitorId_error hv
  | ok o =>
      rw [hv] at h
      cases o with
      | some t => cases h
      | none => exact normalizeVisitorId_error h

/-- The visitor can be found, and it is valid UTF-8. -/
def VisitorSendable (platform : Platform) (visitorId ambient : Field) : Prop :=
  (¬ visitorId.Broken platform ∧ (visitorId.Blank platform → ¬ ambient.Broken platform)) ∧
    ∀ t, Chosen platform visitorId ambient t → ∃ cs, utf8? t = some cs

/-- The two steps of the visitor. -/
theorem visitor_ok_iff {visitorId ambient : Field} :
    (∃ o, resolveVisitor platform visitorId ambient = .ok o ∧
      ∃ v, utf8Field (o.elim .nil .string) "visitor_id" = .ok v) ↔
      VisitorSendable platform visitorId ambient := by
  unfold VisitorSendable
  rw [← resolveVisitor_contained_iff]
  constructor
  · intro h
    obtain ⟨o, ho, hv⟩ := h
    refine ⟨by rw [ho]; exact raises_ok, ?_⟩
    intro t ht
    rw [← resolveVisitor_some_iff, ho] at ht
    cases ht
    exact (utf8Field_ok_iff _).mp hv t rfl
  · intro h
    obtain ⟨hcontained, hutf⟩ := h
    cases ho : resolveVisitor platform visitorId ambient with
    | error e => exact absurd (hcontained e ho) (resolveVisitor_error ho)
    | ok o =>
        refine ⟨o, rfl, (utf8Field_ok_iff _).mpr ?_⟩
        intro s hs
        cases o with
        | none => cases hs
        | some u =>
            cases hs
            exact hutf s (resolveVisitor_some_iff.mp ho)

/-! ## §4. The head of the body. -/

/-- **Every string that is stripped can be stripped**: the event key, then the email and, when there is
    none, the phone number, then the event ID, then the visitor of the event and, when there is none, the
    one around it; each as long as everything checked before it is in order. -/
def Strippable (platform : Platform) (seams : Seams) (eventKey : Field) (event : Option EventInput)
    (ambient : Field) : Prop :=
  ¬ eventKey.Broken platform ∧
    (eventKey.Given platform → ∀ ev, event = some ev → ev.Typed →
      (¬ ev.email.Broken platform ∧
        (ev.email.Blank platform → ¬ ev.phoneNumber.Broken platform)) ∧
      (ev.Identified platform → eventKey.Utf8 →
        ¬ ev.eventId.Broken platform ∧
        (ev.occurredAt.Sendable seams.clock → ev.email.Utf8 → ev.phoneNumber.Utf8 →
          ev.contactName.Utf8 →
          ¬ ev.visitorId.Broken platform ∧
            (ev.visitorId.Blank platform → ¬ ambient.Broken platform))))

/-- **An event that is valid but for its properties.** -/
structure Valid (platform : Platform) (seams : Seams) (eventKey : Field) (event : Option EventInput)
    (ambient : Field) (ev : EventInput) : Prop where
  isEvent : event = some ev
  key : eventKey.Given platform
  keyUtf8 : eventKey.Utf8
  typed : ev.Typed
  identified : ev.Identified platform
  eventId : ¬ ev.eventId.Broken platform
  occurredAt : ev.occurredAt.Sendable seams.clock
  email : ev.email.Utf8
  phoneNumber : ev.phoneNumber.Utf8
  contactName : ev.contactName.Utf8
  visitor : VisitorSendable platform ev.visitorId ambient

/-- The event ID that is sent: the one of the event, or else a new one. -/
def EventIdIs (platform : Platform) (seams : Seams) (eventId : Field) (id : RString) : Prop :=
  eventId.Trims platform id ∨ eventId.Blank platform ∧ id = seams.newEventId

/-- The event ID that is sent can be written. -/
def EventIdWritable (platform : Platform) (seams : Seams) (ev : EventInput) : Prop :=
  ∃ id cs, EventIdIs platform seams ev.eventId id ∧ platform.export? id = some cs

theorem prepareHead_contained_iff {seams : Seams} {eventKey : Field} {isCommon : Bool}
    {event : Option EventInput} {ambient : Field} :
    Contained (prepareHead platform seams eventKey isCommon event ambient) ↔
      Strippable platform seams eventKey event ambient := by
  unfold prepareHead Strippable
  rw [contained_bind, requireKey_contained_iff]
  apply and_congr_right
  intro _
  constructor
  · intro h hgiven ev hev htyped
    obtain ⟨s, hs⟩ : ∃ s, eventKey = .string s := by
      obtain ⟨t, s, hs, -⟩ := hgiven
      exact ⟨s, hs⟩
    have h := h s (requireKey_ok_iff.mpr ⟨hs, hgiven⟩)
    rw [contained_bind] at h
    have h := h.2 ev (requireEvent_ok_iff.mpr hev)
    rw [contained_bind] at h
    have h := h.2 () (checkFields_ok_iff.mpr htyped)
    rw [contained_bind, requireIdentity_contained_iff] at h
    refine ⟨h.1, ?_⟩
    intro hidentified hkey
    have h := h.2 () (requireIdentity_ok_iff.mpr hidentified)
    obtain ⟨key, hkey⟩ := hkey s hs
    rw [contained_bind] at h
    have h := h.2 key (utf8_ok_iff.mpr hkey)
    rw [contained_bind, normalizeVisitorId_contained_iff] at h
    refine ⟨h.1, ?_⟩
    intro htime hemail hphone hcontact
    obtain ⟨o, ho⟩ : ∃ o, normalizeVisitorId platform ev.eventId = .ok o := by
      apply exists_ok_of_raises (normalizeVisitorId_contained_iff.mpr h.1)
      intro e he
      exact normalizeVisitorId_error he
    have h := h.2 o ho
    rw [contained_bind] at h
    obtain ⟨time, htime⟩ := occurredAt_ok_iff.mpr htime
    have h := h.2 time htime
    rw [contained_bind] at h
    obtain ⟨email, hemail⟩ := (utf8Field_ok_iff "email").mpr hemail
    have h := h.2 email hemail
    rw [contained_bind] at h
    obtain ⟨phone, hphone⟩ := (utf8Field_ok_iff "phone_number").mpr hphone
    have h := h.2 phone hphone
    rw [contained_bind] at h
    obtain ⟨contact, hcontact⟩ := (utf8Field_ok_iff "contact_name").mpr hcontact
    have h := h.2 contact hcontact
    rw [contained_bind] at h
    exact resolveVisitor_contained_iff.mp h.1
  · intro h s hs
    obtain ⟨hs, hgiven⟩ := requireKey_ok_iff.mp hs
    rw [contained_bind]
    refine ⟨requireEvent_contained event, ?_⟩
    intro ev hev
    have hev := requireEvent_ok_iff.mp hev
    rw [contained_bind]
    refine ⟨checkFields_contained ev, ?_⟩
    intro _ htyped
    have h := h hgiven ev hev (checkFields_ok_iff.mp htyped)
    rw [contained_bind]
    refine ⟨requireIdentity_contained_iff.mpr h.1, ?_⟩
    intro _ hidentified
    have hidentified := requireIdentity_ok_iff.mp hidentified
    rw [contained_bind]
    refine ⟨utf8_contained s _, ?_⟩
    intro key hkey
    have hkey : eventKey.Utf8 := by
      intro s' hs'
      rw [hs] at hs'
      cases hs'
      exact ⟨key, utf8_ok_iff.mp hkey⟩
    have h := h.2 hidentified hkey
    rw [contained_bind]
    refine ⟨normalizeVisitorId_contained_iff.mpr h.1, ?_⟩
    intro _ _
    rw [contained_bind]
    refine ⟨occurredAt_contained _ _, ?_⟩
    intro time htime
    rw [contained_bind]
    refine ⟨utf8Field_contained _ _, ?_⟩
    intro email hemail
    rw [contained_bind]
    refine ⟨utf8Field_contained _ _, ?_⟩
    intro phone hphone
    rw [contained_bind]
    refine ⟨utf8Field_contained _ _, ?_⟩
    intro contact hcontact
    have h := h.2 (occurredAt_ok_iff.mp ⟨time, htime⟩) ((utf8Field_ok_iff _).mp ⟨email, hemail⟩)
      ((utf8Field_ok_iff _).mp ⟨phone, hphone⟩) ((utf8Field_ok_iff _).mp ⟨contact, hcontact⟩)
    rw [contained_bind]
    refine ⟨resolveVisitor_contained_iff.mpr h, ?_⟩
    intro visitor _
    rw [contained_bind]
    refine ⟨utf8Field_contained _ _, ?_⟩
    intro _ _
    exact raises_ok

theorem eventIdIs_iff {seams : Seams} {f : Field} {id : RString} :
    EventIdIs platform seams f id ↔
      ∃ o, normalizeVisitorId platform f = .ok o ∧ o.getD seams.newEventId = id := by
  unfold EventIdIs
  rw [← normalizeVisitorId_some_iff, ← normalizeVisitorId_none_iff]
  constructor
  · intro h
    rcases h with h | ⟨h, rfl⟩
    · exact ⟨some id, h, rfl⟩
    · exact ⟨none, h, rfl⟩
  · intro h
    obtain ⟨o, ho, rfl⟩ := h
    cases o with
    | none => exact .inr ⟨ho, rfl⟩
    | some t => exact .inl ho

/-- What is put together is what the event says. -/
theorem prepareHead_ok {seams : Seams} {eventKey : Field} {isCommon : Bool}
    {event : Option EventInput} {ambient : Field} {ev : EventInput} {head : Payload}
    (h : prepareHead platform seams eventKey isCommon event ambient = .ok (ev, head)) :
    Valid platform seams eventKey event ambient ev ∧
      EventIdIs platform seams ev.eventId head.eventId := by
  unfold prepareHead at h
  simp only [bind_ok_iff] at h
  obtain ⟨s, hs, ev', hev, u, htyped, u', hidentified, key, hkey, o, ho, time, htime, email, hemail,
    phone, hphone, contact, hcontact, visitor, hvisitor, visitorId, hid, h⟩ := h
  cases h
  obtain ⟨hs, hgiven⟩ := requireKey_ok_iff.mp hs
  refine ⟨?_, eventIdIs_iff.mpr ⟨o, ho, rfl⟩⟩
  exact
    { isEvent := requireEvent_ok_iff.mp hev
      key := hgiven
      keyUtf8 := by
        intro s' hs'
        rw [hs] at hs'
        cases hs'
        exact ⟨key, utf8_ok_iff.mp hkey⟩
      typed := checkFields_ok_iff.mp htyped
      identified := requireIdentity_ok_iff.mp hidentified
      eventId := by
        apply normalizeVisitorId_contained_iff.mp
        rw [ho]
        exact raises_ok
      occurredAt := occurredAt_ok_iff.mp ⟨time, htime⟩
      email := (utf8Field_ok_iff _).mp ⟨email, hemail⟩
      phoneNumber := (utf8Field_ok_iff _).mp ⟨phone, hphone⟩
      contactName := (utf8Field_ok_iff _).mp ⟨contact, hcontact⟩
      visitor := visitor_ok_iff.mp ⟨visitor, hvisitor, visitorId, hid⟩ }

/-- A valid event is put together. -/
theorem prepareHead_of_valid {seams : Seams} {eventKey : Field} {event : Option EventInput}
    {ambient : Field} {ev : EventInput} (h : Valid platform seams eventKey event ambient ev)
    (isCommon : Bool) :
    ∃ head, prepareHead platform seams eventKey isCommon event ambient = .ok (ev, head) := by
  obtain ⟨s, hs⟩ : ∃ s, eventKey = .string s := by
    obtain ⟨t, s, hs, -⟩ := h.key
    exact ⟨s, hs⟩
  obtain ⟨key, hkey⟩ := h.keyUtf8 s hs
  obtain ⟨o, ho⟩ : ∃ o, normalizeVisitorId platform ev.eventId = .ok o := by
    apply exists_ok_of_raises (normalizeVisitorId_contained_iff.mpr h.eventId)
    intro e he
    exact normalizeVisitorId_error he
  obtain ⟨time, htime⟩ := occurredAt_ok_iff.mpr h.occurredAt
  obtain ⟨email, hemail⟩ := (utf8Field_ok_iff "email").mpr h.email
  obtain ⟨phone, hphone⟩ := (utf8Field_ok_iff "phone_number").mpr h.phoneNumber
  obtain ⟨contact, hcontact⟩ := (utf8Field_ok_iff "contact_name").mpr h.contactName
  obtain ⟨visitor, hvisitor, visitorId, hid⟩ := visitor_ok_iff.mpr h.visitor
  unfold prepareHead
  simp only [bind_ok_iff]
  exact ⟨_, s, requireKey_ok_iff.mpr ⟨hs, h.key⟩, ev, requireEvent_ok_iff.mpr h.isEvent,
    (), checkFields_ok_iff.mpr h.typed, (), requireIdentity_ok_iff.mpr h.identified,
    key, utf8_ok_iff.mpr hkey, o, ho, time, htime, email, hemail, phone, hphone, contact, hcontact,
    visitor, hvisitor, visitorId, hid, rfl⟩

/-! ## §5. The whole body. -/

/-- **No container stands 99 levels deep**: the body around the properties is one more, and what the
    generator lets through is 100. -/
def Shallow (heap : Heap) (id : Nat) : Prop :=
  ∀ ancestors depth x, Inside heap id ancestors depth x → x.IsContainer → depth < 99

theorem optionalMember_nesting {name : String} {value : Option (List Char)}
    {m : List CodeUnit × Value Number} (h : m ∈ optionalMember name value) : m.2.nesting = 0 := by
  cases value with
  | none => exact absurd h List.not_mem_nil
  | some cs =>
      have hm : m = (units name, .str (utf16 cs)) := by simpa [optionalMember] using h
      rw [hm]
      rfl

/-- The body nests one level more than the properties. -/
theorem payload_nesting_le {p : Payload} (eventId : List Char) {n : Nat} :
    (p.value eventId).nesting ≤ n + 1 ↔ ∀ v ∈ p.properties, v.nesting ≤ n := by
  have hstr : ∀ cs, (Value.str (ν := Number) cs).nesting ≤ n := by
    intro cs
    exact Nat.zero_le n
  have hopt : ∀ name value, ∀ m ∈ optionalMember name value, m.2.nesting ≤ n := by
    intro name value m hm
    rw [optionalMember_nesting hm]
    exact Nat.zero_le n
  unfold Payload.value
  rw [nesting_obj_le]
  constructor
  · intro h v hv
    obtain ⟨m, hm, h⟩ := h
    cases hm
    apply h (units "properties", v)
    simp [Option.mem_def.mp hv]
  · intro h
    refine ⟨n, rfl, ?_⟩
    simp only [List.forall_mem_append, List.forall_mem_cons, List.forall_mem_map]
    refine ⟨⟨⟨⟨⟨⟨hstr _, hstr _, hstr _, Nat.zero_le n, ?_⟩, hopt _ _⟩, hopt _ _⟩, hopt _ _⟩,
      hopt _ _⟩, ?_⟩
    · intro m hm
      exact absurd hm List.not_mem_nil
    · intro v hv
      exact h v (by simpa using hv)

theorem buildProperties_contained (heap : Heap) (properties : Properties) :
    Contained (buildProperties platform heap properties) := by
  cases properties with
  | nil => exact raises_ok
  | other => exact raises_error_iff.mpr trivial
  | hash id =>
      apply contained_map.mpr
      unfold normalize
      split
      · exact raises_ok
      · exact raises_error_iff.mpr trivial

/-- The generator raises for more than 100 levels, when it has come past the event ID. -/
theorem generate_nesting_iff {p : Payload} :
    generate platform p = .error .nesting ↔
      (∃ cs, platform.export? p.eventId = some cs) ∧ ¬ ∀ v ∈ p.properties, v.nesting ≤ 99 := by
  unfold generate
  cases platform.export? p.eventId with
  | none => simp
  | some cs =>
      simp only [Option.some.injEq, exists_eq', true_and]
      rw [← payload_nesting_le cs]
      unfold maxNesting
      split_ifs with h
      · exact iff_of_true rfl (by omega)
      · exact iff_of_false (by rintro ⟨⟩) (by omega)

theorem generate_generator {p : Payload} (h : generate platform p = .error .generator) :
    platform.export? p.eventId = none := by
  unfold generate at h
  cases he : platform.export? p.eventId with
  | none => rfl
  | some cs =>
      simp only [he] at h
      split_ifs at h
      cases h

/-- The copy of a tree nests as the tree does. -/
theorem normalize_nesting_iff {heap : Heap} {id : Nat} {v : Value Number}
    (h : normalize platform heap id = .ok v) : v.nesting ≤ 99 ↔ Shallow heap id := by
  rw [(normalize_copies h).height_le (counts_nesting heap) [] 99]
  simp only [isNode_iff]
  rfl

/-- **The properties of a valid event, when they are a tree of JSON values, are shallow.** -/
def ShallowTrees (platform : Platform) (seams : Seams) (heap : Heap) (eventKey : Field)
    (event : Option EventInput) (ambient : Field) : Prop :=
  ∀ ev id, Valid platform seams eventKey event ambient ev → EventIdWritable platform seams ev →
    ev.properties = .hash id → PortableTree heap id → Shallow heap id

theorem finish_contained_iff {p : Payload} :
    Contained (match generate platform p with
      | .ok text => pure text
      | .error .generator => .error (.validation "event is not JSON-compatible".toList)
      | .error .nesting => .error .nesting) ↔ generate platform p ≠ .error .nesting := by
  cases hg : generate platform p with
  | ok text => exact iff_of_true raises_ok (by rintro ⟨⟩)
  | error e =>
      cases e with
      | generator => exact iff_of_true (raises_error_iff.mpr trivial) (by rintro ⟨⟩)
      | nesting => exact iff_of_false (fun h => raises_error_iff.mp h) (fun h => h rfl)

/-- The outcome of a valid event whose properties are a tree. -/
theorem build_of_tree {seams : Seams} {heap : Heap} {eventKey : Field} {isCommon : Bool}
    {event : Option EventInput} {ambient : Field} {ev : EventInput} {id : Nat}
    (hvalid : Valid platform seams eventKey event ambient ev)
    (hwritable : EventIdWritable platform seams ev) (hid : ev.properties = .hash id)
    (htree : PortableTree heap id) :
    (Shallow heap id → ∃ text,
      build platform seams heap eventKey isCommon event ambient = .ok text) ∧
    (¬ Shallow heap id →
      build platform seams heap eventKey isCommon event ambient = .error .nesting) := by
  obtain ⟨head, hhead⟩ := prepareHead_of_valid hvalid isCommon
  obtain ⟨v, hv⟩ := (normalize_ok_iff platform).mpr htree
  have hexport : ∃ cs, platform.export? head.eventId = some cs := by
    obtain ⟨eventId, cs, his, hcs⟩ := hwritable
    obtain ⟨o, ho, rfl⟩ := eventIdIs_iff.mp his
    obtain ⟨o', ho', heq⟩ := eventIdIs_iff.mp (prepareHead_ok hhead).2
    rw [ho] at ho'
    cases ho'
    exact ⟨cs, heq ▸ hcs⟩
  have hbuild : build platform seams heap eventKey isCommon event ambient =
      match generate platform { head with properties := some v } with
      | .ok text => pure text
      | .error .generator => .error (.validation "event is not JSON-compatible".toList)
      | .error .nesting => .error .nesting := by
    unfold build
    rw [hhead]
    show (buildProperties platform heap ev.properties >>= _) = _
    rw [hid, buildProperties, hv]
    rfl
  have hnesting : generate platform { head with properties := some v } = .error .nesting ↔ _ :=
    generate_nesting_iff
  simp only [Option.mem_def, Option.some.injEq, forall_eq', normalize_nesting_iff hv] at hnesting
  constructor
  · intro hshallow
    cases hg : generate platform { head with properties := some v } with
    | ok text => exact ⟨text, by rw [hbuild, hg]; rfl⟩
    | error e =>
        cases e with
        | nesting => exact absurd hshallow (hnesting.mp hg).2
        | generator =>
            obtain ⟨cs, hcs⟩ := hexport
            exact absurd (generate_generator hg) (by simp [hcs])
  · intro hdeep
    rw [hbuild, hnesting.mpr ⟨hexport, hdeep⟩]

/-- **What leaves `build` is a body or a validation error exactly when what is stripped can be, and trees
    are shallow.** -/
theorem heap_contained_iff {seams : Seams} {heap : Heap} {eventKey : Field} {isCommon : Bool}
    {event : Option EventInput} {ambient : Field} :
    Contained (build platform seams heap eventKey isCommon event ambient) ↔
      Strippable platform seams eventKey event ambient ∧
        ShallowTrees platform seams heap eventKey event ambient := by
  constructor
  · intro h
    constructor
    · unfold build at h
      rw [contained_bind, prepareHead_contained_iff] at h
      exact h.1
    · intro ev id hvalid hwritable hid htree
      by_contra hdeep
      exact h _ ((build_of_tree hvalid hwritable hid htree).2 hdeep)
  · intro h
    obtain ⟨hstrip, hshallow⟩ := h
    unfold build
    rw [contained_bind, prepareHead_contained_iff]
    refine ⟨hstrip, ?_⟩
    rintro ⟨ev, head⟩ hhead
    rw [contained_bind]
    refine ⟨buildProperties_contained heap ev.properties, ?_⟩
    intro properties hproperties
    apply finish_contained_iff.mpr
    intro hnesting
    obtain ⟨hexport, hdeep⟩ := generate_nesting_iff.mp hnesting
    -- only a tree of properties nests at all
    cases hp : ev.properties with
    | nil =>
        rw [hp] at hproperties
        cases hproperties
        exact hdeep (by rintro v ⟨⟩)
    | other => rw [hp] at hproperties; cases hproperties
    | hash id =>
        rw [hp] at hproperties
        obtain ⟨v, hv, rfl⟩ := map_ok_iff.mp hproperties
        obtain ⟨hvalid, hid⟩ := prepareHead_ok hhead
        obtain ⟨cs, hcs⟩ := hexport
        have hs := hshallow ev id hvalid ⟨_, cs, hid, hcs⟩ hp ((normalize_ok_iff platform).mp ⟨v, hv⟩)
        apply hdeep
        intro w hw
        rw [Option.mem_def, Option.some.injEq] at hw
        rw [← hw]
        exact (normalize_nesting_iff hv).mpr hs

end Strings

/-- **`build` raises nothing but validation errors, and accepts every tree of JSON values of a valid event,
    exactly when what it strips can be stripped and the trees are shallow.** -/
theorem contained_and_accepts_iff (platform : Platform) (seams : Seams) (heap : Heap)
    (eventKey : Field) (isCommon : Bool) (event : Option EventInput) (ambient : Field) :
    (Contained (build platform seams heap eventKey isCommon event ambient) ∧
      ∀ ev id, Valid platform seams eventKey event ambient ev → EventIdWritable platform seams ev →
        ev.properties = .hash id → PortableTree heap id →
        ∃ text, build platform seams heap eventKey isCommon event ambient = .ok text) ↔
      Strippable platform seams eventKey event ambient ∧
        ShallowTrees platform seams heap eventKey event ambient := by
  rw [heap_contained_iff]
  apply and_iff_left_of_imp
  intro h ev id hvalid hwritable hid htree
  exact (build_of_tree hvalid hwritable hid htree).1 (h.2 ev id hvalid hwritable hid htree)

/-! ## §6. Valid events that are not accepted. -/

/-- The white space of `String#strip`. -/
def isStripped (c : Char) : Bool := c == ' ' || (9 ≤ c.toNat && c.toNat ≤ 13) || c.toNat == 0

/-- The interpreter, for strings that are marked as UTF-8. -/
def utf8Platform : Platform where
  strip s := match utf8? s with
    | none => .error "invalid byte sequence in UTF-8".toList
    | some cs =>
        .ok ⟨Encoding.utf8 (((cs.dropWhile isStripped).reverse.dropWhile isStripped).reverse), .utf8⟩
  inspect cs := '"' :: (cs ++ ['"'])
  export? := utf8?
  floatText := ⟨fun _ => intNumeral 0, fun _ => intNumeral_wellFormed 0⟩

/-- A string of one letter. -/
def letter (c : Char) : RString := ⟨Encoding.utf8 [c], .utf8⟩

theorem letter_utf8 (c : Char) : utf8? (letter c) = some [c] := ofUtf8?_utf8 [c]

theorem letter_trims {c : Char} (h : isStripped c = false) :
    (Field.string (letter c)).Trims utf8Platform (letter c) := by
  refine ⟨letter c, rfl, ?_, ?_⟩
  · simp only [utf8Platform, letter_utf8]
    simp [h, letter]
  · show Encoding.utf8 [c] ≠ []
    intro hnil
    have hone := ofUtf8?_utf8 [c]
    rw [hnil] at hone
    have hzero := ofUtf8?_utf8 []
    rw [show Encoding.utf8 [] = [] from rfl, hone] at hzero
    cases hzero

/-- A hash around an array around another, and so on: a hundred containers. -/
def chain : Heap := fun id =>
  if id = 0 then .hash [(.string (letter 'a'), .ref 1)]
  else if id < 99 then .array [.ref (id + 1)]
  else .array []

/-- The containers inside the first, each in the one before it. -/
theorem chain_inside {ancestors : List Nat} {d : Nat} {x : Item} (h : Inside chain 0 ancestors d x) :
    x = .ref d ∧ d ≤ 99 ∧ ∀ i ∈ ancestors, i < d := by
  induction h with
  | start => exact ⟨rfl, by omega, fun i hi => absurd hi List.not_mem_nil⟩
  | @child ancestors d x ident opening entries build e _ hshape he ih =>
      obtain ⟨rfl, hd, hanc⟩ := ih
      have hitem : e.item ∈ entries.map Entry.item := List.mem_map_of_mem he
      have hgoal : e.item = .ref (d + 1) ∧ d < 99 ∧ ident = some d := by
        by_cases hzero : d = 0
        · have hcell : chain d = .hash [(.string (letter 'a'), .ref 1)] := by simp [chain, hzero]
          rw [shape_hash hcell] at hshape
          cases hshape
          rw [hashEntries_items] at hitem
          exact ⟨by simpa [hzero] using hitem, by omega, rfl⟩
        · by_cases hlt : d < 99
          · have hcell : chain d = .array [.ref (d + 1)] := by simp [chain, hzero, hlt]
            rw [shape_array hcell] at hshape
            cases hshape
            exact ⟨by simpa [arrayEntries] using hitem, hlt, rfl⟩
          · have hcell : chain d = .array [] := by simp [chain, hzero, hlt]
            rw [shape_array hcell] at hshape
            cases hshape
            exact absurd he List.not_mem_nil
      obtain ⟨hitem, hlt, rfl⟩ := hgoal
      refine ⟨hitem, hlt, ?_⟩
      intro i hi
      rcases List.mem_cons.mp hi with rfl | hi
      · exact Nat.lt_succ_self i
      · exact Nat.lt_succ_of_lt (hanc i hi)

theorem chain_portable : PortableTree chain 0 := by
  intro ancestors d x h
  obtain ⟨rfl, hd, hanc⟩ := chain_inside h
  refine ⟨Nat.le_trans hd (by decide), ?_, ?_⟩
  · intro hmem
    exact absurd (hanc d hmem) (Nat.lt_irrefl d)
  · intro pairs hpairs
    unfold chain at hpairs
    split_ifs at hpairs
    cases hpairs
    exact ⟨[['a']], by simp [Key.name?, letter_utf8], by simp⟩

theorem chain_reaches {n : Nat} (hn : n ≤ 99) : ∃ ancestors, Inside chain 0 ancestors n (.ref n) := by
  induction n with
  | zero => exact ⟨[], .start⟩
  | succ n ih =>
      obtain ⟨ancestors, h⟩ := ih (by omega)
      by_cases hzero : n = 0
      · have hcell : chain n = .hash [(.string (letter 'a'), .ref (n + 1))] := by simp [chain, hzero]
        have hname : keyName (.string (letter 'a')) = .ok ['a'] :=
          keyName_ok_iff.mpr (letter_utf8 'a')
        refine ⟨_, h.child (e := ⟨.key ['a'], none, .ref (n + 1), none⟩) (shape_hash hcell) ?_⟩
        simp [hashEntries, hname]
      · have hcell : chain n = .array [.ref (n + 1)] := by
          simp only [chain, hzero, if_false, if_pos (show n < 99 by omega)]
        refine ⟨_, h.child (e := ⟨.index 0, none, .ref (n + 1), none⟩) (shape_array hcell) ?_⟩
        simp [arrayEntries]

def fixedSeams : Seams := ⟨noon, letter 'i'⟩

/-- An event with an email and these properties. -/
def emailEvent (properties : Properties) : EventInput :=
  ⟨.string (letter 'e'), .nil, .nil, .nil, properties, .nil, .nil⟩

theorem emailEvent_valid (properties : Properties) :
    Valid utf8Platform fixedSeams (.string (letter 'k')) (some (emailEvent properties)) .nil
      (emailEvent properties) where
  isEvent := rfl
  key := ⟨_, letter_trims (by decide)⟩
  keyUtf8 := by
    intro s hs
    cases hs
    exact ⟨_, letter_utf8 _⟩
  typed := by
    intro f hf
    simp only [EventInput.stringFields, emailEvent, List.mem_cons, List.not_mem_nil, or_false] at hf
    rcases hf with rfl | rfl | rfl | rfl | rfl <;> simp
  identified := .inl ⟨_, letter_trims (by decide)⟩
  eventId := id
  occurredAt := (by decide : noon.inYears = true)
  email := by
    intro s hs
    cases hs
    exact ⟨_, letter_utf8 _⟩
  phoneNumber := by rintro s ⟨⟩
  contactName := by rintro s ⟨⟩
  visitor := by
    refine ⟨⟨id, fun _ => id⟩, ?_⟩
    intro t ht
    rcases ht with ⟨s, hs, -⟩ | ⟨-, s, hs, -⟩
    · cases hs
    · cases hs

/-- **A valid event with a hundred containers inside each other is lost to a `NestingError`, and an event
    key of broken UTF-8 raises what `strip` raises.** -/
theorem chain_not_accepted :
    (Valid utf8Platform fixedSeams (.string (letter 'k')) (some (emailEvent (.hash 0))) .nil
        (emailEvent (.hash 0)) ∧ PortableTree chain 0 ∧
      build utf8Platform fixedSeams chain (.string (letter 'k')) true (some (emailEvent (.hash 0))) .nil
        = .error .nesting) ∧
    build utf8Platform fixedSeams chain (.string ⟨[0xFF], .utf8⟩) true (some (emailEvent .nil)) .nil
      = .error (.strip "invalid byte sequence in UTF-8".toList) := by
  refine ⟨⟨emailEvent_valid _, chain_portable, ?_⟩, ?_⟩
  · apply (build_of_tree (emailEvent_valid _) _ rfl chain_portable).2
    · intro h
      obtain ⟨ancestors, hreach⟩ := chain_reaches (Nat.le_refl 99)
      exact absurd (h _ _ _ hreach trivial) (by decide)
    · exact ⟨letter 'i', ['i'], .inr ⟨trivial, rfl⟩, letter_utf8 'i'⟩
  · rfl

end CekatEvents.Ruby
