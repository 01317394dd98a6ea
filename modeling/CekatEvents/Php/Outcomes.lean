/-
  CekatEvents.Php.Outcomes — what leaves `build` of the PHP client.

  One throwable that is no `ValidationException` can leave it, the `\Error` of assigning a property whose
  name begins with a NUL byte; it does when that is the first thing wrong with the properties, in the
  order of their iteration.

  Main result: `contained_and_unchanged_iff` — only validation errors leave `build`, and every tree of JSON
  values of a valid event is accepted with its keys unchanged, exactly when the event does not get as
  far as such an assignment (`AssignsNul`).
-/
import CekatEvents.Effects.Outcome
import CekatEvents.Php.PayloadBuilder

namespace CekatEvents.Php

open CekatEvents.Arithmetic CekatEvents.Effects CekatEvents.Encoding CekatEvents.Graph
  CekatEvents.JsonText CekatEvents.Payload

/-! ## §1. Properties in order. -/

/-- The bytes are valid UTF-8. -/
def IsUtf8 (s : Bytes) : Prop := ∃ cs, ofUtf8? s = some cs

/-- A value of JSON that every implementation holds, as long as what it contains is.  An array is a list or
    has keys that are strings; any name will do that is valid UTF-8. -/
def Item.Portable (heap : Heap) (ancestors : List Nat) : Item → Prop
  | .null => True
  | .bool _ => True
  | .int n => n.natAbs ≤ maxSafeInteger
  | .float x => x.Portable
  | .string s => IsUtf8 s
  | .ref id =>
      match heap id with
      | .array a => a.isList = true ∨ ∀ p ∈ a.pairs, ∃ name, p.1 = .string name ∧ IsUtf8 name
      | .object o => id ∉ ancestors ∧ ∀ p ∈ o.properties, IsUtf8 p.1
  | .other => False

/-- What is inside the properties, with the objects around it and its depth. -/
abbrev Inside (heap : Heap) (id : Nat) (ancestors : List Nat) (depth : Nat) (x : Item) : Prop :=
  Reaches (graph heap) [] (.ref id) ancestors depth x

/-- **A tree of JSON values nested at most 256 levels deep**, an object at the top. -/
def PortableTree (heap : Heap) (id : Nat) : Prop :=
  isProperList heap id = false ∧
    ∀ ancestors depth x, Inside heap id ancestors depth x →
      depth ≤ MAX_DEPTH ∧ x.Portable heap ancestors

theorem shape_list {heap : Heap} {id : Nat} {a : PhpArray} (h : heap id = .array a)
    (hlist : a.isList = true) :
    (graph heap).shape (.ref id) = .node none none (listEntries a.pairs) .list := by
  show shape heap (.ref id) = _
  simp only [shape, h, hlist, if_true]

theorem shape_array {heap : Heap} {id : Nat} {a : PhpArray} (h : heap id = .array a)
    (hlist : a.isList = false) :
    (graph heap).shape (.ref id) = .node none none (a.pairs.map arrayEntry) fun ws =>
      .object ((a.pairs.map fun p => p.1.name).zip ws) := by
  show shape heap (.ref id) = _
  simp [shape, h, hlist]

theorem shape_object {heap : Heap} {id : Nat} {o : StdClass} (h : heap id = .object o) :
    (graph heap).shape (.ref id) = .node (some id) none (o.properties.map objectEntry) fun ws =>
      .object ((o.properties.map Prod.fst).zip ws) := by
  show shape heap (.ref id) = _
  simp only [shape, h]

theorem assignFault_eq_some_iff {name : Bytes} {f : Fault} :
    assignFault name = some f ↔ startsNul name = true ∧ f = .propertyName := by
  unfold assignFault
  cases startsNul name with
  | true => simp [eq_comm]
  | false => simp

/-- What is wrong with an entry of an array that is no list. -/
theorem arrayEntry_fault {p : ArrayKey × Item} {f : Fault}
    (h : (arrayEntry p).before = some f ∨ (arrayEntry p).after = some f) {name : Bytes}
    (hp : p.1 = .string name) : f = .propertyName := by
  obtain ⟨key, x⟩ := p
  subst hp
  rcases h with h | h
  · cases h
  · exact (assignFault_eq_some_iff.mp h).2

/-- **The one fault of a portable value is a name that cannot be assigned.** -/
theorem blames_portable {heap : Heap} {ancestors : List Nat} {x : Item} {f : Fault}
    (h : Blames (graph heap) ancestors x f) (hx : x.Portable heap ancestors) : f = .propertyName := by
  cases x with
  | null => cases (blames_leaf_iff rfl).mp h
  | bool b => cases (blames_leaf_iff rfl).mp h
  | string s => cases (blames_leaf_iff rfl).mp h
  | int n =>
      have h := (blames_leaf_iff rfl).mp h
      rw [if_pos (show n.natAbs ≤ maxSafeInteger from hx)] at h
      cases h
  | float y =>
      have h := (blames_leaf_iff rfl).mp h
      obtain ⟨z, hz⟩ := Option.isSome_iff_exists.mp (portable?_isSome_iff.mpr hx)
      simp only [hz] at h
      cases h
  | other => exact absurd hx id
  | ref id =>
      cases hcell : heap id with
      | array a =>
          cases hlist : a.isList with
          | true =>
              rcases (blames_node_iff (shape_list hcell hlist)).mp h with
                ⟨-, i, hi, -⟩ | hf | ⟨e, he, hf⟩
              · cases hi
              · cases hf
              · obtain ⟨i, hi, rfl⟩ := List.mem_mapIdx.mp he
                rcases hf with hf | hf
                · cases hf
                · cases hf
          | false =>
              rcases (blames_node_iff (shape_array hcell hlist)).mp h with
                ⟨-, i, hi, -⟩ | hf | ⟨e, he, hf⟩
              · cases hi
              · cases hf
              · obtain ⟨p, hp, rfl⟩ := List.mem_map.mp he
                have hkeys : ∀ p ∈ a.pairs, ∃ name, p.1 = .string name ∧ IsUtf8 name := by
                  unfold Item.Portable at hx
                  simpa [hcell, hlist] using hx
                obtain ⟨name, hname, -⟩ := hkeys p hp
                exact arrayEntry_fault hf hname
      | object o =>
          have hx : id ∉ ancestors ∧ ∀ p ∈ o.properties, IsUtf8 p.1 := by
            unfold Item.Portable at hx
            simpa only [hcell] using hx
          rcases (blames_node_iff (shape_object hcell)).mp h with
            ⟨-, i, hi, hmem⟩ | hf | ⟨e, he, hf⟩
          · rw [Option.mem_def, Option.some.injEq] at hi
            exact absurd (hi ▸ hmem) hx.1
          · cases hf
          · obtain ⟨p, hp, rfl⟩ := List.mem_map.mp he
            rcases hf with hf | hf
            · cases hf
            · exact (assignFault_eq_some_iff.mp hf).2

/-! ## §2. What a tree means. -/

mutual
/-- The JSON value a tree of values is, its keys being what they are. -/
inductive Means (heap : Heap) : Item → Value Number → Prop where
  | null : Means heap .null .null
  | bool (b : Bool) : Means heap (.bool b) (.bool b)
  | int (n : Int) : Means heap (.int n) (.num (.integer n))
  | float (x : Finite) : Means heap (.float (.finite x)) (.num (.float x))
  | string {s : Bytes} {cs : List Char} :
      ofUtf8? s = some cs → Means heap (.string s) (.str (utf16 cs))
  | list {id : Nat} {a : PhpArray} {vs : List (Value Number)} :
      heap id = .array a → a.isList = true → MeansAll heap (a.pairs.map Prod.snd) vs →
      Means heap (.ref id) (.arr vs)
  | array {id : Nat} {a : PhpArray} {names : List (List Char)} {vs : List (Value Number)} :
      heap id = .array a → a.isList = false →
      a.pairs.map Prod.fst = names.map (fun name => .string (utf8 name)) →
      MeansAll heap (a.pairs.map Prod.snd) vs → Means heap (.ref id) (.obj ((names.map utf16).zip vs))
  | object {id : Nat} {o : StdClass} {names : List (List Char)} {vs : List (Value Number)} :
      heap id = .object o → o.properties.map Prod.fst = names.map utf8 →
      MeansAll heap (o.properties.map Prod.snd) vs →
      Means heap (.ref id) (.obj ((names.map utf16).zip vs))
/-- The same for values one after another. -/
inductive MeansAll (heap : Heap) : List Item → List (Value Number) → Prop where
  | nil : MeansAll heap [] []
  | cons {x : Item} {xs : List Item} {v : Value Number} {vs : List (Value Number)} :
      Means heap x v → MeansAll heap xs vs → MeansAll heap (x :: xs) (v :: vs)
end

/-- What the properties mean: at the top, the empty array is the empty object. -/
def PropertiesMean (heap : Heap) (id : Nat) (v : Value Number) : Prop :=
  (∃ ms, v = .obj ms ∧ Means heap (.ref id) v) ∨ Means heap (.ref id) (.arr []) ∧ v = .obj []

/-- Keys of valid UTF-8 are keys of some text. -/
theorem names_of_utf8 {α : Type} {keys : List α} {f : Bytes → α}
    (h : ∀ k ∈ keys, ∃ name, k = f name ∧ IsUtf8 name) :
    ∃ names : List (List Char), keys = names.map fun name => f (utf8 name) := by
  induction keys with
  | nil => exact ⟨[], rfl⟩
  | cons k keys ih =>
      obtain ⟨hk, hkeys⟩ := List.forall_mem_cons.mp h
      obtain ⟨s, rfl, cs, hcs⟩ := hk
      obtain ⟨names, rfl⟩ := ih hkeys
      exact ⟨cs :: names, by rw [List.map_cons, ofUtf8?_eq_some_iff.mp hcs]⟩

theorem objectValues_zip (names : List (List Char)) {ws : List Copy} {vs : List (Value Number)}
    (h : List.Forall₂ (fun w v => w.value = some v) ws vs) :
    objectValues ((names.map utf8).zip ws) = some ((names.map utf16).zip vs) := by
  induction names generalizing ws vs with
  | nil => rfl
  | cons name names ih =>
      cases h with
      | nil => rfl
      | cons hw hws =>
          rw [List.map_cons, List.map_cons, List.zip_cons_cons, List.zip_cons_cons, objectValues,
            ih hws, hw, jsonString, ofUtf8?_utf8]
          rfl

theorem listValues_eq {ws : List Copy} {vs : List (Value Number)}
    (h : List.Forall₂ (fun w v => w.value = some v) ws vs) : listValues ws = some vs := by
  induction h with
  | nil => rfl
  | cons hw _ ih =>
      rw [listValues, hw, ih]
      rfl

/-- The copies of entries, as values. -/
theorem entries_mean {heap : Heap} {entries : List (Entry Item Step Fault)} {ws : List Copy}
    (h : List.Forall₂ (fun e w => ∃ v, w.value = some v ∧ Means heap e.item v) entries ws) :
    ∃ vs, List.Forall₂ (fun w v => w.value = some v) ws vs ∧
      MeansAll heap (entries.map Entry.item) vs := by
  induction h with
  | nil => exact ⟨[], .nil, .nil⟩
  | cons hw _ ih =>
      obtain ⟨v, hv, hmeans⟩ := hw
      obtain ⟨vs, hvs, hall⟩ := ih
      exact ⟨v :: vs, .cons hv hvs, .cons hmeans hall⟩

theorem listEntries_items (pairs : List (ArrayKey × Item)) :
    (listEntries pairs).map Entry.item = pairs.map Prod.snd := by
  unfold listEntries
  apply map_mapIdx
  intro n p
  rfl

theorem arrayEntry_items (pairs : List (ArrayKey × Item)) :
    (pairs.map arrayEntry).map Entry.item = pairs.map Prod.snd := by
  rw [List.map_map]
  apply List.map_congr_left
  rintro ⟨key, x⟩ _
  cases key with
  | int n => rfl
  | string name => rfl

theorem objectEntry_items (properties : List (Bytes × Item)) :
    (properties.map objectEntry).map Entry.item = properties.map Prod.snd := by
  rw [List.map_map]
  rfl

/-- **The copy of a portable tree is what the tree means.** -/
theorem copy_means {heap : Heap} {x : Item} {w : Copy} (h : Copies (graph heap) x w)
    (ancestors : List Nat)
    (hx : ∀ ancestors' d y, Reaches (graph heap) ancestors x ancestors' d y →
      y.Portable heap ancestors') :
    ∃ v, w.value = some v ∧ Means heap x v := by
  revert ancestors
  apply Copies.induction (P := fun x w => ∀ ancestors,
    (∀ ancestors' d y, Reaches (graph heap) ancestors x ancestors' d y →
      y.Portable heap ancestors') → ∃ v, w.value = some v ∧ Means heap x v) _ _ h
  · intro x w hshape ancestors hx
    have hself := hx _ _ _ .start
    have hshape : shape heap x = .leaf (.ok w) := hshape
    cases x with
    | null => cases hshape; exact ⟨_, rfl, .null⟩
    | bool b => cases hshape; exact ⟨_, rfl, .bool b⟩
    | string s =>
        cases hshape
        obtain ⟨cs, hcs⟩ := hself
        exact ⟨.str (utf16 cs), by rw [Copy.value, jsonString, hcs]; rfl, .string hcs⟩
    | int n =>
        have hshape := Shape.leaf.inj hshape
        rw [if_pos (show n.natAbs ≤ maxSafeInteger from hself)] at hshape
        cases hshape
        exact ⟨_, rfl, .int n⟩
    | float y =>
        obtain ⟨z, hz⟩ := Option.isSome_iff_exists.mp (portable?_isSome_iff.mpr hself)
        obtain ⟨rfl, -⟩ := portable?_eq_some_iff.mp hz
        have hshape := Shape.leaf.inj hshape
        simp only [hz, Except.ok.injEq] at hshape
        rw [← hshape]
        exact ⟨_, rfl, .float z⟩
    | other => exact absurd hself id
    | ref id =>
        cases hcell : heap id with
        | array a =>
            cases hlist : a.isList with
            | true => cases (shape_list hcell hlist).symm.trans hshape
            | false => cases (shape_array hcell hlist).symm.trans hshape
        | object o => cases (shape_object hcell).symm.trans hshape
  · intro x ident opening entries build ws hshape hes ancestors hx
    have hself := hx _ _ _ .start
    have hentries : List.Forall₂ (fun e w => ∃ v, w.value = some v ∧ Means heap e.item v)
        entries ws := by
      have hmem := (List.forall₂_and_left _ _).mpr ⟨fun e he => he, hes⟩
      apply hmem.imp
      intro e w hew
      apply hew.2 (ident.toList ++ ancestors)
      intro ancestors' d y hreach
      exact hx _ _ _ (hreach.of_child hshape hew.1)
    obtain ⟨vs, hvs, hall⟩ := entries_mean hentries
    cases x with
    | ref id =>
        cases hcell : heap id with
        | array a =>
            cases hlist : a.isList with
            | true =>
                cases (shape_list hcell hlist).symm.trans hshape
                rw [listEntries_items] at hall
                exact ⟨.arr vs, by rw [Copy.value, listValues_eq hvs]; rfl, .list hcell hlist hall⟩
            | false =>
                cases (shape_array hcell hlist).symm.trans hshape
                have hkeys : ∀ p ∈ a.pairs, ∃ name, p.1 = .string name ∧ IsUtf8 name := by
                  unfold Item.Portable at hself
                  simpa [hcell, hlist] using hself
                obtain ⟨names, hnames⟩ := names_of_utf8 (List.forall_mem_map.mpr hkeys)
                have hassigned : (a.pairs.map fun p => p.1.name) = names.map utf8 := by
                  have hmap := congrArg (List.map ArrayKey.name) hnames
                  rw [List.map_map, List.map_map] at hmap
                  exact hmap
                rw [arrayEntry_items] at hall
                refine ⟨_, ?_, .array hcell hlist hnames hall⟩
                rw [hassigned, Copy.value, objectValues_zip names hvs]
                rfl
        | object o =>
            cases (shape_object hcell).symm.trans hshape
            have hkeys : ∀ p ∈ o.properties, ∃ name, p.1 = (fun s => s) name ∧ IsUtf8 name := by
              unfold Item.Portable at hself
              simp only [hcell] at hself
              intro p hp
              exact ⟨p.1, rfl, hself.2 p hp⟩
            obtain ⟨names, hnames⟩ := names_of_utf8 (List.forall_mem_map.mpr hkeys)
            rw [objectEntry_items] at hall
            refine ⟨_, ?_, .object hcell hnames hall⟩
            rw [hnames, Copy.value]
            show (objectValues ((names.map utf8).zip ws)).map _ = _
            rw [objectValues_zip names hvs]
            rfl
    | _ => cases hshape

/-- **No object of the meaning has two members of one name**, keys being distinct. -/
theorem Means.distinct {heap : Heap} {x : Item} {v : Value Number} (h : Means heap x v) :
    v.Distinct := by
  refine @Means.rec heap (fun _ v _ => v.Distinct) (fun _ vs _ => ∀ v ∈ vs, v.Distinct)
    ?_ ?_ ?_ ?_ ?_ ?_ ?_ ?_ ?_ ?_ x v h
  · trivial
  · intro b
    trivial
  · intro n
    trivial
  · intro y
    trivial
  · intro s cs _
    trivial
  · intro id a vs _ _ _ hvs
    exact eachElem_iff.mpr hvs
  · intro id a names vs _ _ hkeys _ hvs
    have hnodup := a.nodup
    rw [hkeys] at hnodup
    exact distinct_zip ((hnodup.of_map _).map utf16_injective) hvs
  · intro id o names vs _ hkeys _ hvs
    have hnodup := o.nodup
    rw [hkeys] at hnodup
    exact distinct_zip ((hnodup.of_map _).map utf16_injective) hvs
  · intro v hv
    exact absurd hv List.not_mem_nil
  · intro x xs v vs _ _ hv hvs
    exact List.forall_mem_cons.mpr ⟨hv, hvs⟩

/-! ## §3. The properties of the payload. -/

/-- Only validation errors. -/
def Raised.IsValidation : Raised → Prop
  | .validation _ => True
  | .error => False

abbrev Contained {α : Type} (x : Except Raised α) : Prop := Raises Raised.IsValidation x

/-- **The first thing wrong with the properties, in the order of their iteration, is a property whose name
    begins with a NUL byte.** -/
def FirstNul (heap : Heap) (id : Nat) : Prop :=
  isProperList heap id = false ∧
    ∃ path, First (graph heap) (MAX_DEPTH + 1) [] [] (.ref id) (path, .propertyName)

theorem raised_isValidation_iff {path : List Step} {f : Fault} :
    (f.raised path).IsValidation ↔ f ≠ .propertyName := by
  cases f with
  | propertyName => exact iff_of_false id (fun h => h rfl)
  | _ => exact iff_of_true trivial (by simp)

theorem normalizeObject_contained_iff {heap : Heap} {id : Nat} :
    Contained (normalizeObject heap id) ↔ ¬ FirstNul heap id := by
  unfold normalizeObject FirstNul
  cases isProperList heap id with
  | true => exact iff_of_true (raises_error_iff.mpr trivial) (by simp)
  | false =>
      show Raises _ ((normalizeValue heap id).map _) ↔ _
      rw [raises_map, normalizeValue, raises_mapError]
      simp only [true_and, not_exists]
      constructor
      · intro h path hfirst
        exact raised_isValidation_iff.mp (h _ (walk_error_iff.mpr hfirst)) rfl
      · intro h fault hfault
        apply raised_isValidation_iff.mpr
        rintro hf
        exact h fault.1 (hf ▸ walk_error_iff.mp hfault)

theorem asObject_of_obj {c : Copy} {ms : List (List CodeUnit × Value Number)}
    (h : c.value = some (.obj ms)) : c.asObject = c := by
  cases c with
  | object ns => rfl
  | null => cases h
  | bool b => cases h
  | num n => cases h
  | string s =>
      obtain ⟨t, -, ht⟩ := Option.map_eq_some_iff.mp h
      cases ht
  | list xs =>
      obtain ⟨vs, -, hvs⟩ := Option.map_eq_some_iff.mp h
      cases hvs

theorem asObject_of_arr {c : Copy} {vs : List (Value Number)} (h : c.value = some (.arr vs)) :
    c.asObject = .object [] := by
  cases c with
  | object ns =>
      obtain ⟨ms, -, hms⟩ := Option.map_eq_some_iff.mp h
      cases hms
  | _ => rfl

/-- The one list that is let through is empty. -/
theorem isProperList_eq_false {heap : Heap} {id : Nat} {a : PhpArray} (hcell : heap id = .array a)
    (h : isProperList heap id = false) (hlist : a.isList = true) : a.pairs = [] := by
  unfold isProperList at h
  simpa [hcell, hlist] using h

/-- **A tree of JSON values is copied to what it means**, when there is no such name. -/
theorem normalizeObject_of_tree {heap : Heap} {id : Nat} (htree : PortableTree heap id)
    (hnul : ¬ FirstNul heap id) :
    ∃ c v, normalizeObject heap id = .ok c ∧ c.value = some v ∧ PropertiesMean heap id v := by
  obtain ⟨hlist, htree⟩ := htree
  have hwalk : ∃ c, walk (graph heap) (MAX_DEPTH + 1) [] [] (.ref id) = .ok c := by
    cases hw : walk (graph heap) (MAX_DEPTH + 1) [] [] (.ref id) with
    | ok c => exact ⟨c, rfl⟩
    | error fault =>
        have hfirst := walk_error_iff.mp hw
        obtain ⟨ancestors, d, y, hreach, hy⟩ := hfirst.blames
        obtain ⟨hd, hportable⟩ := htree _ _ _ hreach
        rcases hy with ⟨rfl, -⟩ | ⟨-, hblames⟩
        · exact absurd hd (by decide)
        · have hf := blames_portable hblames hportable
          exact absurd ⟨hlist, fault.1, hf ▸ hfirst⟩ hnul
  obtain ⟨c, hc⟩ := hwalk
  obtain ⟨v, hv, hmeans⟩ := copy_means (walk_copies hc) [] fun _ _ _ hr => (htree _ _ _ hr).2
  have hnormal : normalizeObject heap id = .ok c.asObject := by
    unfold normalizeObject normalizeValue
    rw [hlist, hc]
    rfl
  rw [hnormal]
  refine ⟨c.asObject, ?_⟩
  by_cases hobj : ∃ ms, v = .obj ms
  · obtain ⟨ms, rfl⟩ := hobj
    exact ⟨_, rfl, by rw [asObject_of_obj hv, hv], .inl ⟨ms, rfl, hmeans⟩⟩
  · -- only the empty list is no object here
    have hnil : v = .arr [] := by
      cases hmeans with
      | list hcell hisList hall =>
          have hempty := isProperList_eq_false hcell hlist hisList
          rw [hempty] at hall
          cases hall
          rfl
      | array => exact absurd ⟨_, rfl⟩ hobj
      | object => exact absurd ⟨_, rfl⟩ hobj
    rw [hnil] at hv hmeans
    exact ⟨.obj [], rfl, by rw [asObject_of_arr hv]; rfl, .inr ⟨hmeans, rfl⟩⟩

/-! ## §4. The whole body. -/

/-- A string that may be absent is valid UTF-8. -/
def OptionUtf8 (o : Option Bytes) : Prop := ∀ s ∈ o, IsUtf8 s

/-- The checks before the properties are passed. -/
structure Identified (seams : Seams) (eventKey : Bytes) (event : EventInput) : Prop where
  key : trim eventKey ≠ []
  contact : trim (event.email.getD []) ≠ [] ∨ trim (event.phoneNumber.getD []) ≠ []
  occurredAt : (event.occurredAt.getD seams.now).inYears = true

/-- **An event that is valid but for its properties**: the checks are passed, and every string that is sent
    is valid UTF-8. -/
structure Valid (seams : Seams) (eventKey : Bytes) (event : EventInput) (ambient : Option Bytes) : Prop
    extends Identified seams eventKey event where
  keyUtf8 : IsUtf8 eventKey
  eventId : IsUtf8 ((trimToNull event.eventId).getD seams.newEventId)
  email : OptionUtf8 event.email
  phoneNumber : OptionUtf8 event.phoneNumber
  contactName : OptionUtf8 event.contactName
  visitorId : OptionUtf8 ((trimToNull event.visitorId).or (trimToNull ambient))

/-- **The event gets as far as assigning a property whose name begins with a NUL byte.** -/
def AssignsNul (seams : Seams) (heap : Heap) (eventKey : Bytes) (event : EventInput) : Prop :=
  Identified seams eventKey event ∧ ∃ id ∈ event.properties, FirstNul heap id

theorem checkIdentity_contained (eventKey : Bytes) (event : EventInput) :
    Contained (checkIdentity eventKey event) := by
  unfold checkIdentity
  split_ifs
  · exact raises_error_iff.mpr trivial
  · exact raises_error_iff.mpr trivial
  · exact raises_ok

theorem occurredAt_contained (now : Timestamp) (value : Option Timestamp) :
    Contained (occurredAt now value) := by
  unfold occurredAt
  simp only
  split_ifs
  · exact raises_ok
  · exact raises_error_iff.mpr trivial

/-- The two checks are passed by identified events. -/
theorem identified_iff {seams : Seams} {eventKey : Bytes} {event : EventInput} :
    Identified seams eventKey event ↔
      checkIdentity eventKey event = .ok () ∧
        ∃ time, occurredAt seams.now event.occurredAt = .ok time := by
  unfold checkIdentity occurredAt
  constructor
  · intro h
    rw [if_neg h.key, if_neg (by have := h.contact; tauto), if_pos h.occurredAt]
    exact ⟨rfl, _, rfl⟩
  · intro h
    obtain ⟨hcheck, time, htime⟩ := h
    split_ifs at hcheck with hkey hcontact
    refine ⟨hkey, by tauto, ?_⟩
    by_contra hyears
    rw [if_neg hyears] at htime
    cases htime

theorem buildProperties_contained_iff {heap : Heap} {properties : Option Nat} :
    Contained (buildProperties heap properties) ↔ ∀ id ∈ properties, ¬ FirstNul heap id := by
  cases properties with
  | none => exact iff_of_true raises_ok (by simp)
  | some id =>
      show Raises _ ((normalizeObject heap id).map some) ↔ _
      rw [raises_map]
      simpa using normalizeObject_contained_iff

/-- The last step of `build`. -/
theorem encode_contained (floats : FloatText) (p : Payload) :
    Contained (match jsonEncode floats p with
      | some text => pure text
      | none => .error (.validation
          (ascii "event is not JSON-compatible; strings must be valid UTF-8"))) := by
  cases jsonEncode floats p with
  | some text => exact raises_ok
  | none => exact raises_error_iff.mpr trivial

/-- **What leaves `build` is a body or a validation error, unless a name is assigned that begins with
    NUL.** -/
theorem tree_contained_iff {floats : FloatText} {seams : Seams} {heap : Heap} {eventKey : Bytes}
    {isCommon : Bool} {event : EventInput} {ambient : Option Bytes} :
    Contained (build floats seams heap eventKey isCommon event ambient) ↔
      ¬ AssignsNul seams heap eventKey event := by
  unfold build AssignsNul
  show Raises _ (_ >>= _) ↔ _
  rw [raises_bind, and_iff_right (checkIdentity_contained eventKey event), identified_iff]
  constructor
  · intro h hnul
    obtain ⟨⟨hcheck, time, htime⟩, id, hid, hfirst⟩ := hnul
    have h := h () hcheck
    rw [raises_bind] at h
    have h := h.2 time htime
    rw [raises_bind] at h
    exact buildProperties_contained_iff.mp h.1 id hid hfirst
  · intro h u hcheck
    rw [raises_bind]
    refine ⟨occurredAt_contained _ _, ?_⟩
    intro time htime
    rw [raises_bind]
    refine ⟨buildProperties_contained_iff.mpr ?_, ?_⟩
    · intro id hid hfirst
      exact h ⟨⟨hcheck, time, htime⟩, id, hid, hfirst⟩
    · intro properties _
      exact encode_contained floats _

theorem jsonString_of_utf8 {s : Bytes} (h : IsUtf8 s) : ∃ t, jsonString s = some t := by
  obtain ⟨cs, hcs⟩ := h
  exact ⟨utf16 cs, by rw [jsonString, hcs]; rfl⟩

theorem jsonOptional_of_utf8 {o : Option Bytes} (h : OptionUtf8 o) : ∃ t, jsonOptional o = some t := by
  cases o with
  | none => exact ⟨none, rfl⟩
  | some s =>
      obtain ⟨t, ht⟩ := jsonString_of_utf8 (h s rfl)
      exact ⟨some t, by rw [jsonOptional, ht]; rfl⟩

/-- **A valid event whose properties are a tree is accepted with its properties unchanged.** -/
theorem build_of_tree {floats : FloatText} {seams : Seams} {heap : Heap} {eventKey : Bytes}
    {event : EventInput} {ambient : Option Bytes} (isCommon : Bool)
    (hvalid : Valid seams eventKey event ambient) {id : Nat} (hid : event.properties = some id)
    (htree : PortableTree heap id) (hnul : ¬ FirstNul heap id) :
    ∃ text body v, build floats seams heap eventKey isCommon event ambient = .ok text ∧
      DecodesTo text body ∧ PropertiesMean heap id v ∧
      body.get (units "properties") = some (v.map (Number.numeral floats)) := by
  obtain ⟨hcheck, time, htime⟩ := identified_iff.mp hvalid.toIdentified
  obtain ⟨c, v, hc, hv, hmean⟩ := normalizeObject_of_tree htree hnul
  obtain ⟨key, hkey⟩ := jsonString_of_utf8 hvalid.keyUtf8
  obtain ⟨eventId, heventId⟩ := jsonString_of_utf8 hvalid.eventId
  obtain ⟨email, hemail⟩ := jsonOptional_of_utf8 hvalid.email
  obtain ⟨phone, hphone⟩ := jsonOptional_of_utf8 hvalid.phoneNumber
  obtain ⟨contact, hcontact⟩ := jsonOptional_of_utf8 hvalid.contactName
  obtain ⟨visitor, hvisitor⟩ := jsonOptional_of_utf8 hvalid.visitorId
  let b : Body Number :=
    ⟨key, eventId, utf16 time, isCommon, email, phone, contact, visitor, some v⟩
  have hbody : Payload.body { payloadHead seams eventKey isCommon event ambient time with
      properties := some c } = some b := by
    simp only [Payload.body, payloadHead, hkey, heventId, hemail, hphone, hcontact, hvisitor, hv]
    rfl
  refine ⟨(b.value.encode (jsonEscaping.encoder (Number.numeral floats))).text,
    b.value.map (Number.numeral floats), v, ?_, ?_, hmean, ?_⟩
  · unfold build
    rw [hcheck, htime, hid]
    show ((normalizeObject heap id).map some >>= _) = _
    rw [hc]
    show (match jsonEncode floats { payloadHead seams eventKey isCommon event ambient time with
      properties := some c } with
      | some text => pure text
      | none => _) = _
    rw [jsonEncode, hbody]
    rfl
  · apply jsonEscaping.decodesTo (Number.numeral_wellFormed floats)
    apply (b.each_iff (fun _ _ => trivial) b.names_nodup).mpr
    refine ⟨fun _ _ => trivial, ?_⟩
    intro w hw
    cases hw
    rcases hmean with ⟨ms, -, hmeans⟩ | ⟨-, rfl⟩
    · exact hmeans.distinct
    · exact ⟨List.nodup_nil, trivial⟩
  · rw [Body.value_map, Body.get_properties]
    rfl

/-- **`build` throws nothing but validation errors, and accepts every tree of JSON values of a valid event
    with its keys unchanged, exactly when no name is assigned that begins with a NUL byte.** -/
theorem contained_and_unchanged_iff (floats : FloatText) (seams : Seams) (heap : Heap)
    (eventKey : Bytes) (isCommon : Bool) (event : EventInput) (ambient : Option Bytes) :
    (Contained (build floats seams heap eventKey isCommon event ambient) ∧
      ∀ id, Valid seams eventKey event ambient → event.properties = some id → PortableTree heap id →
        ∃ text body v, build floats seams heap eventKey isCommon event ambient = .ok text ∧
          DecodesTo text body ∧ PropertiesMean heap id v ∧
          body.get (units "properties") = some (v.map (Number.numeral floats))) ↔
      ¬ AssignsNul seams heap eventKey event := by
  rw [tree_contained_iff]
  apply and_iff_left_of_imp
  intro h id hvalid hid htree
  apply build_of_tree isCommon hvalid hid htree
  intro hfirst
  exact h ⟨hvalid.toIdentified, id, hid, hfirst⟩

/-! ## §5. A key that is lost. -/

/-- Properties with the one key `"\0a"`. -/
def nulKey : Heap := fun _ =>
  .array ⟨[(.string [0x00, 0x61], .null)], List.nodup_singleton _⟩

/-- An event with an email and these properties. -/
def emailEvent (properties : Option Nat) : EventInput :=
  ⟨some [0x61], none, none, none, properties, none, none⟩

theorem nulKey_portable : PortableTree nulKey 0 := by
  have hcell : nulKey 0 = .array ⟨[(.string [0x00, 0x61], .null)], List.nodup_singleton _⟩ := rfl
  have hutf : IsUtf8 [0x00, 0x61] := ⟨[Char.ofNat 0, 'a'], ofUtf8?_eq_some_iff.mpr (by decide)⟩
  refine ⟨by decide, ?_⟩
  intro ancestors d x hreach
  rcases hreach.start_or_child with ⟨rfl, rfl, rfl⟩ | ⟨_, _, _, _, e, d', hshape, he, rfl, hr⟩
  · refine ⟨by decide, ?_⟩
    show _ = true ∨ ∀ p ∈ [(ArrayKey.string [0x00, 0x61], Item.null)],
      ∃ name, p.1 = .string name ∧ IsUtf8 name
    right
    intro p hp
    rw [List.mem_singleton.mp hp]
    exact ⟨_, rfl, hutf⟩
  · cases (shape_array hcell (by decide)).symm.trans hshape
    rw [List.mem_singleton.mp he] at hr
    rcases hr.start_or_child with ⟨rfl, rfl, rfl⟩ | ⟨_, _, _, _, _, _, hx, -⟩
    · exact ⟨by decide, trivial⟩
    · cases hx

/-- **A key that begins with NUL is valid UTF-8, and it raises an `\Error`.** -/
theorem nulKey_error :
    PortableTree nulKey 0 ∧ ∀ floats,
      build floats ⟨noon, [0x69]⟩ nulKey [0x6B] true (emailEvent (some 0)) none = .error .error := by
  refine ⟨nulKey_portable, ?_⟩
  intro floats
  rfl

end CekatEvents.Php
