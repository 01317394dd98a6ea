/-
  CekatEvents.Java.Outcomes — what leaves `encode` of the Java client.

  Main results:

    • `encode_spec`          — which events are sent, and that the bytes say what the event says;
    • `encode_contained_iff` — the one throwable beside validation errors, and when it is thrown.
-/
import CekatEvents.Effects.Outcome
import CekatEvents.Java.PayloadEncoder

namespace CekatEvents.Java.PayloadEncoder

open CekatEvents.Arithmetic CekatEvents.Effects CekatEvents.Encoding CekatEvents.Graph
  CekatEvents.JsonText CekatEvents.Payload

/-! ## §1. Strings. -/

/-- **The loop over surrogates lets well-formed strings through**, and no others. -/
theorem isText_iff {s : Str} : isText s = true ↔ WellFormed s := by
  rw [wellFormed_iff]
  suffices heq : isText s = (ofUtf16? s).isSome by rw [heq]
  induction s using isText.induct with
  | case1 => rfl
  | case2 u =>
      unfold isText ofUtf16?
      cases isHigh u <;> cases isLow u <;> rfl
  | case3 u v s hu hv ih =>
      unfold isText ofUtf16?
      rw [if_pos hu, if_pos hv, if_pos hu, if_pos hv, Option.isSome_map, ih]
  | case4 u v s hu hv =>
      unfold isText ofUtf16?
      rw [if_pos hu, if_neg hv, if_pos hu, if_neg hv]
      rfl
  | case5 u v s hu hlow =>
      unfold isText ofUtf16?
      rw [if_neg hu, if_pos hlow, if_neg hu, if_pos hlow]
      rfl
  | case6 u v s hu hlow ih =>
      unfold isText ofUtf16?
      rw [if_neg hu, if_neg hlow, if_neg hu, if_neg hlow, Option.isSome_map, ih]

/-- **A text is encoded as itself.** -/
theorem getBytes_of_text {s : Str} {cs : List Char} (h : ofUtf16? s = some cs) : getBytes s = utf8 cs := by
  induction s using getBytes.induct generalizing cs with
  | case1 =>
      cases h
      rfl
  | case2 u hsurrogate =>
      unfold ofUtf16? at h
      rw [if_pos hsurrogate] at h
      cases h
  | case3 u hbasic =>
      unfold ofUtf16? at h
      rw [if_neg hbasic] at h
      cases h
      unfold getBytes
      rw [if_neg hbasic]
  | case4 u v s hpair ih =>
      obtain ⟨hu, hv⟩ := Bool.and_eq_true_iff.mp hpair
      unfold ofUtf16? at h
      rw [if_pos hu, if_pos hv] at h
      obtain ⟨rest, hrest, rfl⟩ := Option.map_eq_some_iff.mp h
      rw [getBytes, if_pos hpair, ih hrest, utf8_cons]
      simp [utf8]
  | case5 u v s hpair hsurrogate ih =>
      -- an unpaired surrogate is in no text
      unfold ofUtf16? at h
      cases hu : isHigh u with
      | true =>
          have hv : isLow v = false := by simpa [hu] using hpair
          simp [hu, hv] at h
      | false =>
          have hlow : isLow u = true := by simpa [hu] using hsurrogate
          simp [hu, hlow] at h
  | case6 u v s hpair hbasic ih =>
      obtain ⟨hu, hlow⟩ : isHigh u = false ∧ isLow u = false := by simpa using hbasic
      unfold ofUtf16? at h
      rw [hu, hlow, if_neg Bool.false_ne_true, if_neg Bool.false_ne_true] at h
      obtain ⟨rest, hrest, rfl⟩ := Option.map_eq_some_iff.mp h
      rw [getBytes, if_neg hpair, if_neg hbasic, ih hrest, utf8_cons]
      simp [utf8]

/-- The bytes of a well-formed string. -/
theorem getBytes_eq {s : Str} (h : WellFormed s) : getBytes s = utf8 (ofUtf16Lossy s) := by
  obtain ⟨cs, rfl⟩ := h
  rw [getBytes_of_text (ofUtf16?_utf16 cs), ofUtf16Lossy_utf16]

theorem text_ok_iff {value s : Str} {path : String} :
    text value path = .ok s ↔ WellFormed value ∧ value = s := by
  rw [← isText_iff]
  unfold text
  split_ifs with h
  · rw [Except.ok.injEq]
    exact (and_iff_right h).symm
  · exact iff_of_false (by rintro ⟨⟩) fun hs => h hs.1

/-! ## §2. Properties in order. -/

/-- A value that every implementation holds, as long as what it contains is.  A map needs keys that are
    well-formed strings. -/
def Item.Portable (heap : Heap) (ancestors : List Ref) : Item → Prop
  | .null | .boolean _ | .small _ => True
  | .string s => WellFormed s
  | .large n => n.natAbs ≤ maxSafeInteger
  | .double x | .float x => x.Portable
  | .decimal d => unsafeIntegral d.value = false
  | .ref r => r ∉ ancestors ∧
      ∀ id, r = .map id → ∀ e ∈ heap.maps id, ∃ name, e.1 = .string name ∧ WellFormed name
  | .other => False

/-- What is inside the properties, with the containers around it and its depth. -/
abbrev Inside (platform : Platform) (heap : Heap) (properties : Nat) (ancestors : List Ref) (depth : Nat)
    (x : Item) : Prop :=
  Reaches (graph platform heap) [] (.ref (.map properties)) ancestors depth x

/-- **A tree of JSON values nested at most 256 levels deep.** -/
def PortableTree (platform : Platform) (heap : Heap) (properties : Nat) : Prop :=
  ∀ ancestors depth x, Inside platform heap properties ancestors depth x →
    depth ≤ MAX_DEPTH ∧ x.Portable heap ancestors

theorem decimalLeaf_ok_iff {d : BigDecimal} {w : Copy} :
    decimalLeaf d = .ok w ↔ unsafeIntegral d.value = false ∧ w = .num (.decimal d) := by
  unfold decimalLeaf
  rw [← Bool.not_eq_true, unsafeIntegral_iff]
  cases hstrip : d.stripTrailingZeros with
  | none =>
      -- what cannot be stripped is far beyond the safe integers
      obtain ⟨hint, hlarge⟩ := BigDecimal.overflow_large hstrip
      have hunsafe : (maxSafeInteger : ℚ) < |d.value| :=
        calc (maxSafeInteger : ℚ) < 10 ^ 16 := by norm_num [maxSafeInteger]
          _ ≤ 10 ^ 400 := pow_le_pow_right₀ (by norm_num) (by decide)
          _ ≤ |d.value| := hlarge
      exact iff_of_false (by rintro ⟨⟩) fun h => h.1 ⟨hint, hunsafe⟩
  | some s =>
      obtain ⟨hvalue, hstripped⟩ := BigDecimal.stripTrailingZeros_spec hstrip
      rw [← hvalue, BigDecimal.stripped_integral_iff hstripped]
      dsimp only
      split_ifs with hunsafe
      · exact iff_of_false (by rintro ⟨⟩) fun h => h.1 hunsafe
      · rw [and_iff_right hunsafe, Except.ok.injEq, eq_comm]

theorem floatingLeaf_ok_iff {x : Double} {number : Finite → JavaNumber} {w : Copy} :
    floatingLeaf x number = .ok w ↔ ∃ y, x.portable? = some y ∧ w = .num (number y) := by
  unfold floatingLeaf
  cases x.portable? with
  | none => simp
  | some y => simp [eq_comm]

theorem keyFault_eq_none_iff {key : Key} :
    keyFault key = none ↔ ∃ name, key = .string name ∧ WellFormed name := by
  cases key with
  | other => simp [keyFault]
  | string s => simp [keyFault, isText_iff]

variable {platform : Platform} {heap : Heap}

/-- A condition on floating-point numbers. -/
theorem floatingLeaf_returns_iff {x : Double} {number : Finite → JavaNumber} :
    (∃ w, floatingLeaf x number = .ok w) ↔ x.Portable := by
  rw [← portable?_isSome_iff, Option.isSome_iff_exists]
  simp only [floatingLeaf_ok_iff]
  constructor
  · rintro ⟨w, y, hy, -⟩
    exact ⟨y, hy⟩
  · rintro ⟨y, hy⟩
    exact ⟨_, y, hy, rfl⟩

/-- **What `normalize` takes for faulty is what is not portable.** -/
theorem not_faulty_iff {ancestors : List Ref} {x : Item} :
    ¬ Faulty (graph platform heap) ancestors x ↔ x.Portable heap ancestors := by
  cases x with
  | null => exact (not_faulty_leaf_iff rfl).trans (iff_of_true ⟨_, rfl⟩ trivial)
  | boolean b => exact (not_faulty_leaf_iff rfl).trans (iff_of_true ⟨_, rfl⟩ trivial)
  | small n => exact (not_faulty_leaf_iff rfl).trans (iff_of_true ⟨_, rfl⟩ trivial)
  | other => exact (not_faulty_leaf_iff rfl).trans (iff_of_false (by rintro ⟨w, ⟨⟩⟩) id)
  | string s =>
      rw [not_faulty_leaf_iff (T := graph platform heap) rfl]
      show _ ↔ WellFormed s
      rw [← isText_iff]
      split_ifs with h
      · exact iff_of_true ⟨_, rfl⟩ h
      · exact iff_of_false (by rintro ⟨w, ⟨⟩⟩) h
  | large n =>
      rw [not_faulty_leaf_iff (T := graph platform heap) rfl]
      show _ ↔ n.natAbs ≤ maxSafeInteger
      split_ifs with h
      · exact iff_of_true ⟨_, rfl⟩ h
      · exact iff_of_false (by rintro ⟨w, ⟨⟩⟩) h
  | double y => exact (not_faulty_leaf_iff rfl).trans floatingLeaf_returns_iff
  | float y => exact (not_faulty_leaf_iff rfl).trans floatingLeaf_returns_iff
  | decimal d =>
      rw [not_faulty_leaf_iff (T := graph platform heap) rfl]
      show (∃ w, decimalLeaf d = .ok w) ↔ _
      simp only [decimalLeaf_ok_iff]
      exact ⟨fun h => h.choose_spec.1, fun h => ⟨_, h, rfl⟩⟩
  | ref r =>
      cases r with
      | map id =>
          rw [not_faulty_node_iff (T := graph platform heap) rfl]
          refine and_congr (by simp) ((and_iff_right rfl).trans ?_)
          rw [List.forall_mem_map]
          constructor
          · rintro h id' ⟨⟩ e he
            exact keyFault_eq_none_iff.mp (h e he).1
          · intro h e he
            exact ⟨keyFault_eq_none_iff.mpr (h id rfl e he), rfl⟩
      | list id =>
          rw [not_faulty_node_iff (T := graph platform heap) rfl]
          refine and_congr (by simp) ((and_iff_right rfl).trans (iff_of_true ?_ ?_))
          · intro e he
            obtain ⟨i, hi, rfl⟩ := List.mem_mapIdx.mp he
            exact ⟨rfl, rfl⟩
          · rintro id' ⟨⟩

/-- **`normalize` accepts the trees of JSON values, and no others.** -/
theorem normalize_ok_iff {properties : Nat} {w : Copy} :
    normalize platform heap properties = .ok w ↔
      walk (graph platform heap) (MAX_DEPTH + 1) [] [] (.ref (.map properties)) = .ok w := by
  unfold normalize
  rw [visit_eq, mapError_ok_iff, map_ok_iff]
  constructor
  · rintro ⟨p, hp, rfl⟩
    obtain ⟨v, hv, rfl⟩ := map_ok_iff.mp hp
    exact hv
  · intro h
    exact ⟨(w, []), by rw [h]; rfl, rfl⟩

theorem normalize_returns_iff {properties : Nat} :
    (∃ w, normalize platform heap properties = .ok w) ↔ PortableTree platform heap properties := by
  simp only [normalize_ok_iff]
  rw [walk_ok_iff]
  unfold Sound PortableTree
  apply forall₃_congr
  intro ancestors d x
  apply imp_congr_right
  intro _
  exact and_congr Nat.lt_succ_iff not_faulty_iff

/-! ## §3. What a tree means. -/

mutual
/-- The JSON value a tree of values is.  Where the keys of a map repeat, the last value stands for all. -/
inductive Means (platform : Platform) (heap : Heap) : Item → Copy → Prop where
  | null : Means platform heap .null .null
  | boolean (b : Bool) : Means platform heap (.boolean b) (.bool b)
  | string {s : Str} : WellFormed s → Means platform heap (.string s) (.str s)
  | small (n : Int32) : Means platform heap (.small n) (.num (.integer n.1))
  | large (n : Int) : Means platform heap (.large n) (.num (.integer n))
  | double (x : Finite) : Means platform heap (.double (.finite x)) (.num (.double x))
  | float (x : Finite) :
      Means platform heap (.float (.finite x)) (.num (.decimal (floatDecimal platform x)))
  | decimal {d : BigDecimal} :
      unsafeIntegral d.value = false → Means platform heap (.decimal d) (.num (.decimal d))
  | map {id : Nat} {names : List Str} {vs : List Copy} :
      (heap.maps id).map Prod.fst = names.map Key.string → (∀ name ∈ names, WellFormed name) →
      MeansAll platform heap ((heap.maps id).map Prod.snd) vs →
      Means platform heap (.ref (.map id)) (.obj (putAll names vs))
  | list {id : Nat} {vs : List Copy} :
      MeansAll platform heap (heap.lists id) vs → Means platform heap (.ref (.list id)) (.arr vs)
/-- The same for values one after another. -/
inductive MeansAll (platform : Platform) (heap : Heap) : List Item → List Copy → Prop where
  | nil : MeansAll platform heap [] []
  | cons {x : Item} {xs : List Item} {v : Copy} {vs : List Copy} :
      Means platform heap x v → MeansAll platform heap xs vs → MeansAll platform heap (x :: xs) (v :: vs)
end

theorem meansAll_of_forall₂ {entries : List (Entry Item Step Fault)} {vs : List Copy}
    (h : List.Forall₂ (fun e v => Means platform heap e.item v) entries vs) :
    MeansAll platform heap (entries.map Entry.item) vs := by
  induction h with
  | nil => exact .nil
  | cons hv _ ih => exact .cons hv ih

/-- Keys that are all strings. -/
theorem keys_strings {es : Entries} (h : ∀ e ∈ es, ∃ name, e.1 = .string name ∧ WellFormed name) :
    es.map Prod.fst = (es.map fun e => e.1.name).map Key.string ∧
      ∀ name ∈ es.map fun e => e.1.name, WellFormed name := by
  constructor
  · rw [List.map_map]
    apply List.map_congr_left
    intro e he
    obtain ⟨name, hname, -⟩ := h e he
    show e.1 = Key.string e.1.name
    rw [hname]
    rfl
  · rw [List.forall_mem_map]
    intro e he
    obtain ⟨name, hname, htext⟩ := h e he
    rw [hname]
    exact htext

/-- A leaf means its copy. -/
theorem leaf_means {ancestors : List Ref} {x : Item} {w : Copy}
    (h : (graph platform heap).shape x = .leaf (.ok w)) (hx : x.Portable heap ancestors) :
    Means platform heap x w := by
  have hfloating : ∀ {y : Double} {number : Finite → JavaNumber}, floatingLeaf y number = .ok w →
      ∃ z, y = .finite z ∧ w = .num (number z) := by
    intro y number hy
    obtain ⟨z, hz, rfl⟩ := floatingLeaf_ok_iff.mp hy
    exact ⟨z, (portable?_eq_some_iff.mp hz).1, rfl⟩
  cases x with
  | null =>
      cases h
      exact .null
  | boolean b =>
      cases h
      exact .boolean b
  | string s =>
      have h := Shape.leaf.inj h
      rw [if_pos (isText_iff.mpr hx)] at h
      cases h
      exact .string hx
  | small n =>
      cases h
      exact .small n
  | large n =>
      have h := Shape.leaf.inj h
      rw [if_pos (show n.natAbs ≤ maxSafeInteger from hx)] at h
      cases h
      exact .large n
  | double y =>
      obtain ⟨z, rfl, rfl⟩ := hfloating (Shape.leaf.inj h)
      exact .double z
  | float y =>
      obtain ⟨z, rfl, rfl⟩ := hfloating (Shape.leaf.inj h)
      exact .float z
  | decimal d =>
      obtain ⟨hd, rfl⟩ := decimalLeaf_ok_iff.mp (Shape.leaf.inj h)
      exact .decimal hd
  | other => exact absurd hx id
  | ref r =>
      cases r with
      | map id => cases h
      | list id => cases h

/-- **The copy of a tree is what the tree means.** -/
theorem copy_means {x : Item} {w : Copy} (h : Copies (graph platform heap) x w) (ancestors : List Ref)
    (hx : ∀ ancestors' d y, Reaches (graph platform heap) ancestors x ancestors' d y →
      y.Portable heap ancestors') : Means platform heap x w := by
  revert ancestors
  apply Copies.induction (P := fun x w => ∀ ancestors,
    (∀ ancestors' d y, Reaches (graph platform heap) ancestors x ancestors' d y →
      y.Portable heap ancestors') → Means platform heap x w) _ _ h
  · intro x w hshape ancestors hx
    exact leaf_means hshape (hx _ _ _ .start)
  · intro x ident opening entries build ws hshape hes ancestors hx
    have hself := hx _ _ _ .start
    have hentries : List.Forall₂ (fun e w => Means platform heap e.item w) entries ws := by
      have hmem := (List.forall₂_and_left _ _).mpr ⟨fun e he => he, hes⟩
      apply hmem.imp
      intro e w hew
      apply hew.2 (ident.toList ++ ancestors)
      intro ancestors' d y hreach
      exact hx _ _ _ (hreach.of_child hshape hew.1)
    have hall := meansAll_of_forall₂ hentries
    cases x with
    | ref r =>
        cases r with
        | map id =>
            cases hshape
            obtain ⟨hkeys, htexts⟩ := keys_strings (hself.2 id rfl)
            rw [List.map_map] at hall
            exact .map hkeys htexts hall
        | list id =>
            cases hshape
            rw [map_mapIdx (g := Entry.item) (h := fun x => x) (fun _ _ => rfl), List.map_id'] at hall
            exact .list hall
    | _ => cases hshape

/-- No name repeats in what is put into a map. -/
theorem putAll_nodup (names : List Str) (vs : List Copy) : ((putAll names vs).map Prod.fst).Nodup :=
  foldl_putKey_nodup _ List.nodup_nil

theorem mem_putAll {names : List Str} {vs : List Copy} {m : Str × Copy} (h : m ∈ putAll names vs) :
    m.1 ∈ names ∧ m.2 ∈ vs := by
  rcases mem_of_mem_foldl_putKey h with hnil | hzip
  · exact absurd hnil List.not_mem_nil
  · exact List.of_mem_zip hzip

/-- **The strings of the meaning are text, and no object of it has two members of one name.** -/
theorem Means.each {x : Item} {v : Copy} (h : Means platform heap x v) : v.Each WellFormed List.Nodup := by
  refine @Means.rec platform heap (fun _ v _ => v.Each WellFormed List.Nodup)
    (fun _ vs _ => ∀ v ∈ vs, v.Each WellFormed List.Nodup) ?_ ?_ ?_ ?_ ?_ ?_ ?_ ?_ ?_ ?_ ?_ ?_ x v h
  · trivial
  · intro b
    trivial
  · intro s hs
    exact hs
  · intro n
    trivial
  · intro n
    trivial
  · intro y
    trivial
  · intro y
    trivial
  · intro d _
    trivial
  · intro id names vs _ htexts _ hvs
    refine ⟨putAll_nodup names vs, eachMember_iff.mpr ?_⟩
    intro m hm
    exact ⟨htexts _ (mem_putAll hm).1, hvs _ (mem_putAll hm).2⟩
  · intro id vs _ hvs
    exact eachElem_iff.mpr hvs
  · intro v hv
    exact absurd hv List.not_mem_nil
  · intro x xs v vs _ _ hv hvs
    exact List.forall_mem_cons.mpr ⟨hv, hvs⟩

/-! ## §4. The properties of the payload. -/

/-- Only validation errors. -/
def Raised.IsValidation : Raised → Prop
  | .validation _ => True
  | .arithmetic => False

abbrev Contained {α : Type} (x : Except Raised α) : Prop := Raises Raised.IsValidation x

/-- **The first thing wrong with the properties, in the order of their iteration, is a decimal whose scale
    overflows when its trailing zeros are stripped.** -/
def FirstOverflow (platform : Platform) (heap : Heap) (properties : Nat) : Prop :=
  ∃ path, First (graph platform heap) (MAX_DEPTH + 1) [] [] (.ref (.map properties)) (path, .arithmetic)

theorem raised_isValidation_iff {path : List Step} {f : Fault} :
    (f.raised path).IsValidation ↔ f ≠ .arithmetic := by
  cases f with
  | arithmetic => exact iff_of_false id (fun h => h rfl)
  | _ => exact iff_of_true trivial (by simp)

theorem normalize_contained_iff {properties : Nat} :
    Contained (normalize platform heap properties) ↔ ¬ FirstOverflow platform heap properties := by
  unfold normalize FirstOverflow Contained
  rw [visit_eq, raises_mapError, raises_map, raises_map, not_exists]
  constructor
  · intro h path hfirst
    exact raised_isValidation_iff.mp (h _ (walk_error_iff.mpr hfirst)) rfl
  · intro h fault hfault
    apply raised_isValidation_iff.mpr
    intro hf
    exact h fault.1 (hf ▸ walk_error_iff.mp hfault)

/-- Only a decimal that cannot be stripped is to blame for it. -/
theorem blames_arithmetic {ancestors : List Ref} {x : Item}
    (h : Blames (graph platform heap) ancestors x .arithmetic) :
    ∃ d, x = .decimal d ∧ d.stripTrailingZeros = none := by
  have hleaf : ∀ {result : Except Fault Copy}, (graph platform heap).shape x = .leaf result →
      result = .error .arithmetic := fun hshape => (blames_leaf_iff hshape).mp h
  have hfloating : ∀ {y : Double} {number : Finite → JavaNumber},
      floatingLeaf y number ≠ .error Fault.arithmetic := by
    intro y number
    unfold floatingLeaf
    cases y.portable? with
    | none => rintro ⟨⟩
    | some z => rintro ⟨⟩
  cases x with
  | decimal d =>
      refine ⟨d, rfl, ?_⟩
      have hfault := hleaf rfl
      unfold decimalLeaf at hfault
      cases hstrip : d.stripTrailingZeros with
      | none => rfl
      | some s =>
          rw [hstrip] at hfault
          dsimp only at hfault
          split_ifs at hfault
          cases hfault
  | ref r =>
      -- the keys of a map are checked before their values, and have faults of their own
      cases r with
      | map id =>
          rcases (blames_node_iff (T := graph platform heap) rfl).mp h with ⟨hcyclic, -⟩ | hopening | ⟨e, he, hf⟩
          · cases hcyclic
          · cases hopening
          · obtain ⟨entry, -, rfl⟩ := List.mem_map.mp he
            rcases hf with hf | hf
            · have hf : keyFault entry.1 = some .arithmetic := hf
              unfold keyFault at hf
              split at hf
              · split_ifs at hf
                cases hf
              · cases hf
            · cases hf
      | list id =>
          rcases (blames_node_iff (T := graph platform heap) rfl).mp h with ⟨hcyclic, -⟩ | hopening | ⟨e, he, hf⟩
          · cases hcyclic
          · cases hopening
          · obtain ⟨i, hi, rfl⟩ := List.mem_mapIdx.mp he
            rcases hf with hf | hf
            · cases hf
            · cases hf
  | string s =>
      have hfault := hleaf rfl
      split_ifs at hfault
      cases hfault
  | large n =>
      have hfault := hleaf rfl
      split_ifs at hfault
      cases hfault
  | double y => exact absurd (hleaf rfl) hfloating
  | float y => exact absurd (hleaf rfl) hfloating
  | null => cases hleaf rfl
  | boolean b => cases hleaf rfl
  | small n => cases hleaf rfl
  | other => cases hleaf rfl

theorem FirstOverflow.exists_decimal {properties : Nat} (h : FirstOverflow platform heap properties) :
    ∃ ancestors depth d, Inside platform heap properties ancestors depth (.decimal d) ∧
      d.stripTrailingZeros = none := by
  obtain ⟨path, hfirst⟩ := h
  obtain ⟨ancestors, depth, y, hreach, hy⟩ := hfirst.blames
  rcases hy with ⟨-, hdeep⟩ | ⟨-, hblames⟩
  · cases hdeep
  · obtain ⟨d, rfl, hstrip⟩ := blames_arithmetic hblames
    exact ⟨ancestors, depth, d, hreach, hstrip⟩

/-- What is sent for the properties of an event: nothing for an empty map. -/
def PropertiesSent (platform : Platform) (heap : Heap) (event : Event) : Option Copy → Prop
  | none => heap.maps event.properties = []
  | some v => heap.maps event.properties ≠ [] ∧ Means platform heap (.ref (.map event.properties)) v

theorem sentProperties_ok {event : Event} {o : Option Copy}
    (h : sentProperties platform heap event = .ok o) : PropertiesSent platform heap event o := by
  unfold sentProperties at h
  cases hempty : (heap.maps event.properties).isEmpty with
  | true =>
      rw [hempty, if_pos rfl] at h
      cases h
      exact List.isEmpty_iff.mp hempty
  | false =>
      rw [hempty, if_neg Bool.false_ne_true] at h
      obtain ⟨w, hw, rfl⟩ := map_ok_iff.mp h
      refine ⟨List.isEmpty_eq_false_iff.mp hempty, ?_⟩
      apply copy_means (walk_copies (normalize_ok_iff.mp hw)) []
      intro ancestors d y hreach
      exact (normalize_returns_iff.mp ⟨w, hw⟩ _ _ _ hreach).2

theorem sentProperties_returns_iff {event : Event} :
    (∃ o, sentProperties platform heap event = .ok o) ↔
      (heap.maps event.properties ≠ [] → PortableTree platform heap event.properties) := by
  unfold sentProperties
  rw [← normalize_returns_iff, Ne, ← List.isEmpty_iff]
  cases (heap.maps event.properties).isEmpty with
  | true => simp
  | false => simp [map_ok_iff]

theorem sentProperties_contained_iff {event : Event} :
    Contained (sentProperties platform heap event) ↔
      (heap.maps event.properties ≠ [] → ¬ FirstOverflow platform heap event.properties) := by
  unfold sentProperties
  rw [← normalize_contained_iff, Ne, ← List.isEmpty_iff]
  cases (heap.maps event.properties).isEmpty with
  | true => simpa using raises_ok
  | false => simpa using raises_map

/-! ## §5. The whole body. -/

/-- A string that may be absent is text. -/
def OptionText (o : Option Str) : Prop := ∀ s ∈ o, WellFormed s

/-- **The checks before the properties are passed**: there is a key and an identity, every string that is
    sent is text, and the time is in the years that are sent. -/
structure Sendable (seams : Seams) (eventKey : Str) (event : Event) (ambientVisitorId : Option Str) :
    Prop where
  key : isBlank (some eventKey) = false
  contact : isBlank event.email = false ∨ isBlank event.phoneNumber = false
  keyText : WellFormed eventKey
  eventId : OptionText (trimToNull event.eventId)
  occurredAt : 1 ≤ (event.occurredAt.getD seams.clock).year ∧ (event.occurredAt.getD seams.clock).year ≤ 9999 ∧
    ¬ (event.occurredAt.getD seams.clock).PastLastMilli
  email : OptionText event.email
  phoneNumber : OptionText event.phoneNumber
  contactName : OptionText event.contactName
  visitorId : OptionText (chosenVisitor event ambientVisitorId)

/-- The body that is sent for an event, with a copy of its properties. -/
def sentBody (seams : Seams) (eventKey : Str) (isCommon : Bool) (event : Event)
    (ambientVisitorId : Option Str) (properties : Option Copy) : Body JavaNumber where
  eventKey := eventKey
  eventId := (trimToNull event.eventId).getD (utf16 seams.idGenerator)
  occurredAt := utf16 (OCCURRED_AT (event.occurredAt.getD seams.clock))
  isCommon := isCommon
  email := event.email
  phoneNumber := event.phoneNumber
  contactName := event.contactName
  visitorId := chosenVisitor event ambientVisitorId
  properties := properties

theorem text_contained (value : Str) (path : String) : Contained (text value path) := by
  unfold text
  split_ifs
  · exact raises_ok
  · exact raises_error_iff.mpr trivial

theorem putIfPresent_ok_iff {name : String} {value o : Option Str} :
    putIfPresent name value = .ok o ↔ OptionText value ∧ value = o := by
  unfold putIfPresent OptionText
  cases value with
  | none => simp
  | some s =>
      rw [map_ok_iff]
      simp only [text_ok_iff]
      constructor
      · rintro ⟨t, ⟨htext, rfl⟩, rfl⟩
        exact ⟨by simpa using htext, rfl⟩
      · rintro ⟨htext, rfl⟩
        exact ⟨s, ⟨htext s rfl, rfl⟩, rfl⟩

theorem putIfPresent_contained (name : String) (value : Option Str) :
    Contained (putIfPresent name value) := by
  unfold putIfPresent
  cases value with
  | none => exact raises_ok
  | some s => exact raises_map.mpr (text_contained s name)

theorem sentEventId_ok_iff {seams : Seams} {event : Event} {s : Str} :
    sentEventId seams event = .ok s ↔
      OptionText (trimToNull event.eventId) ∧ (trimToNull event.eventId).getD (utf16 seams.idGenerator) = s := by
  unfold sentEventId OptionText
  cases trimToNull event.eventId with
  | none => simp
  | some explicitEventId => simp [text_ok_iff]

theorem sentEventId_contained (seams : Seams) (event : Event) : Contained (sentEventId seams event) := by
  unfold sentEventId
  cases trimToNull event.eventId with
  | none => exact raises_ok
  | some explicitEventId => exact text_contained explicitEventId _

/-- The time that is sent, as a step of the payload. -/
theorem sentTime_ok_iff {seams : Seams} {event : Event} {s : List Char} :
    ((occurredAt seams.clock event.occurredAt).mapError fun e => Raised.validation (utf16 e.message)) = .ok s ↔
      (1 ≤ (event.occurredAt.getD seams.clock).year ∧ (event.occurredAt.getD seams.clock).year ≤ 9999 ∧
        ¬ (event.occurredAt.getD seams.clock).PastLastMilli) ∧
      OCCURRED_AT (event.occurredAt.getD seams.clock) = s := by
  rw [mapError_ok_iff, ← @occurredAt_ok_iff seams.clock]
  cases event.occurredAt with
  | none => exact Iff.rfl
  | some i => exact Iff.rfl

theorem check_ok_iff {eventKey : Option Str} {event : Option Event} {key : Str} {ev : Event} :
    check eventKey event = .ok (key, ev) ↔ eventKey = some key ∧ event = some ev ∧
      isBlank (some key) = false ∧ (isBlank ev.email = false ∨ isBlank ev.phoneNumber = false) := by
  unfold check
  cases hblank : isBlank eventKey with
  | true =>
      rw [if_pos rfl]
      refine iff_of_false (by rintro ⟨⟩) ?_
      rintro ⟨rfl, -, hkey, -⟩
      rw [hblank] at hkey
      cases hkey
  | false =>
      rw [if_neg Bool.false_ne_true]
      -- a key that is not blank is there
      obtain ⟨s, rfl⟩ : ∃ s, eventKey = some s := by
        cases eventKey with
        | none => cases hblank
        | some s => exact ⟨s, rfl⟩
      cases event with
      | none => simp
      | some e =>
          dsimp only
          split_ifs with hcontact
          · refine iff_of_false (by rintro ⟨⟩) ?_
            rintro ⟨-, ⟨⟩, -, hgiven⟩
            obtain ⟨hemail, hphone⟩ := Bool.and_eq_true_iff.mp hcontact
            rw [hemail, hphone] at hgiven
            rcases hgiven with hgiven | hgiven <;> cases hgiven
          · have hgiven : isBlank e.email = false ∨ isBlank e.phoneNumber = false := by
              rw [Bool.and_eq_true, not_and_or] at hcontact
              simpa using hcontact
            simp only [Option.getD_some, Except.ok.injEq, Prod.mk.injEq, Option.some.injEq]
            constructor
            · rintro ⟨rfl, rfl⟩
              exact ⟨rfl, rfl, hblank, hgiven⟩
            · rintro ⟨rfl, rfl, -, -⟩
              exact ⟨rfl, rfl⟩

theorem check_contained (eventKey : Option Str) (event : Option Event) :
    Contained (check eventKey event) := by
  unfold check
  split_ifs
  · exact raises_error_iff.mpr trivial
  · cases event with
    | none => exact raises_error_iff.mpr trivial
    | some e =>
        dsimp only
        split_ifs
        · exact raises_error_iff.mpr trivial
        · exact raises_ok

/-- **The payload is the head with the properties**, when every check is passed. -/
theorem payload_ok_iff {seams : Seams} {eventKey : Str} {isCommon : Bool} {event : Event}
    {ambient : Option Str} (hkey : isBlank (some eventKey) = false)
    (hcontact : isBlank event.email = false ∨ isBlank event.phoneNumber = false) {body : Body JavaNumber} :
    payload platform seams heap eventKey isCommon event ambient = .ok body ↔
      Sendable seams eventKey event ambient ∧ ∃ o, sentProperties platform heap event = .ok o ∧
        sentBody seams eventKey isCommon event ambient o = body := by
  unfold payload
  simp only [bind_ok_iff, text_ok_iff, sentEventId_ok_iff, putIfPresent_ok_iff, sentTime_ok_iff]
  constructor
  · rintro ⟨_, ⟨hkeyText, rfl⟩, _, ⟨heventId, rfl⟩, _, ⟨htime, rfl⟩, _, ⟨hemail, rfl⟩, _, ⟨hphone, rfl⟩, _,
      ⟨hname, rfl⟩, _, ⟨hvisitor, rfl⟩, o, ho, hbody⟩
    exact ⟨⟨hkey, hcontact, hkeyText, heventId, htime, hemail, hphone, hname, hvisitor⟩, o, ho,
      Except.ok.inj hbody⟩
  · rintro ⟨h, o, ho, hbody⟩
    exact ⟨_, ⟨h.keyText, rfl⟩, _, ⟨h.eventId, rfl⟩, _, ⟨h.occurredAt, rfl⟩, _, ⟨h.email, rfl⟩, _,
      ⟨h.phoneNumber, rfl⟩, _, ⟨h.contactName, rfl⟩, _, ⟨h.visitorId, rfl⟩, o, ho, congrArg Except.ok hbody⟩

/-- **What leaves the payload beside validation errors is what leaves its properties.** -/
theorem payload_contained_iff {seams : Seams} {eventKey : Str} {isCommon : Bool} {event : Event}
    {ambient : Option Str} (hkey : isBlank (some eventKey) = false)
    (hcontact : isBlank event.email = false ∨ isBlank event.phoneNumber = false) :
    Contained (payload platform seams heap eventKey isCommon event ambient) ↔
      (Sendable seams eventKey event ambient → Contained (sentProperties platform heap event)) := by
  have htime : Contained ((occurredAt seams.clock event.occurredAt).mapError fun e =>
      .validation (utf16 e.message)) := raises_mapError.mpr fun _ _ => trivial
  unfold payload
  constructor
  · intro h hs
    have h := (raises_bind.mp h).2 _ (text_ok_iff.mpr ⟨hs.keyText, rfl⟩)
    have h := (raises_bind.mp h).2 _ (sentEventId_ok_iff.mpr ⟨hs.eventId, rfl⟩)
    have h := (raises_bind.mp h).2 _ (sentTime_ok_iff.mpr ⟨hs.occurredAt, rfl⟩)
    have h := (raises_bind.mp h).2 _ (putIfPresent_ok_iff.mpr ⟨hs.email, rfl⟩)
    have h := (raises_bind.mp h).2 _ (putIfPresent_ok_iff.mpr ⟨hs.phoneNumber, rfl⟩)
    have h := (raises_bind.mp h).2 _ (putIfPresent_ok_iff.mpr ⟨hs.contactName, rfl⟩)
    have h := (raises_bind.mp h).2 _ (putIfPresent_ok_iff.mpr ⟨hs.visitorId, rfl⟩)
    exact (raises_bind.mp h).1
  · intro h
    refine raises_bind.mpr ⟨text_contained _ _, fun k hk => ?_⟩
    refine raises_bind.mpr ⟨sentEventId_contained _ _, fun i hi => ?_⟩
    refine raises_bind.mpr ⟨htime, fun t ht => ?_⟩
    refine raises_bind.mpr ⟨putIfPresent_contained _ _, fun e he => ?_⟩
    refine raises_bind.mpr ⟨putIfPresent_contained _ _, fun p hp => ?_⟩
    refine raises_bind.mpr ⟨putIfPresent_contained _ _, fun n hn => ?_⟩
    refine raises_bind.mpr ⟨putIfPresent_contained _ _, fun v hv => ?_⟩
    have hsendable : Sendable seams eventKey event ambient :=
      ⟨hkey, hcontact, (text_ok_iff.mp hk).1, (sentEventId_ok_iff.mp hi).1, (sentTime_ok_iff.mp ht).1,
        (putIfPresent_ok_iff.mp he).1, (putIfPresent_ok_iff.mp hp).1, (putIfPresent_ok_iff.mp hn).1,
        (putIfPresent_ok_iff.mp hv).1⟩
    exact raises_bind.mpr ⟨h hsendable, fun _ _ => raises_ok⟩

/-- The strings of what is sent are text, and no name repeats. -/
theorem sent_each {seams : Seams} {eventKey : Str} (isCommon : Bool) {event : Event} {ambient : Option Str}
    {o : Option Copy} (h : Sendable seams eventKey event ambient) (ho : PropertiesSent platform heap event o) :
    (sentBody seams eventKey isCommon event ambient o).value.Each
      WellFormed List.Nodup := by
  rw [Body.each_iff memberNames_wellFormed _ (Body.names_nodup _)]
  constructor
  · have heventId : WellFormed ((trimToNull event.eventId).getD (utf16 seams.idGenerator)) := by
      cases hid : trimToNull event.eventId with
      | none => exact ⟨_, rfl⟩
      | some s => exact h.eventId s hid
    intro s hs
    simp only [Body.strings, sentBody, List.mem_append, List.mem_cons, List.not_mem_nil, or_false,
      Option.mem_toList] at hs
    rcases hs with ((((rfl | rfl | rfl) | hs) | hs) | hs) | hs
    · exact h.keyText
    · exact heventId
    · exact ⟨_, rfl⟩
    · exact h.email s hs
    · exact h.phoneNumber s hs
    · exact h.contactName s hs
    · exact h.visitorId s hs
  · intro v hv
    cases hv
    exact ho.2.each

/-- **`encode` returns the bytes of the body** of an event whose checks are passed. -/
theorem encode_ok_iff {seams : Seams} {eventKey : Option Str} {isCommon : Bool} {event : Option Event}
    {ambient : Option Str} {bytes : List UInt8} :
    encode platform seams heap eventKey isCommon event ambient = .ok bytes ↔
      ∃ key ev, eventKey = some key ∧ event = some ev ∧ Sendable seams key ev ambient ∧
        ∃ o, sentProperties platform heap ev = .ok o ∧ getBytes (write platform
          (sentBody seams key isCommon ev ambient o).value) = bytes := by
  unfold encode
  rw [bind_ok_iff]
  constructor
  · rintro ⟨⟨key, ev⟩, hcheck, h⟩
    obtain ⟨rfl, rfl, hkey, hcontact⟩ := check_ok_iff.mp hcheck
    obtain ⟨body, hbody, hbytes⟩ := bind_ok_iff.mp h
    obtain ⟨hsendable, o, ho, rfl⟩ := (payload_ok_iff hkey hcontact).mp hbody
    exact ⟨key, ev, rfl, rfl, hsendable, o, ho, Except.ok.inj hbytes⟩
  · rintro ⟨key, ev, rfl, rfl, hsendable, o, ho, rfl⟩
    refine ⟨(key, ev), check_ok_iff.mpr ⟨rfl, rfl, hsendable.key, hsendable.contact⟩, ?_⟩
    exact bind_ok_iff.mpr ⟨_, (payload_ok_iff hsendable.key hsendable.contact).mpr
      ⟨hsendable, o, ho, rfl⟩, rfl⟩

theorem numeral_wellFormed (platform : Platform) (n : JavaNumber) : (n.numeral platform).WellFormed := by
  cases n with
  | integer n => exact intNumeral_wellFormed n
  | double x => exact platform.doubles.wellFormed x
  | decimal d => exact d.numeral_wellFormed

/-- What is written for a body is text. -/
theorem write_wellFormed {seams : Seams} {eventKey : Str} (isCommon : Bool) {event : Event}
    {ambient : Option Str} {o : Option Copy} (h : Sendable seams eventKey event ambient)
    (ho : PropertiesSent platform heap event o) :
    WellFormed (write platform
      (sentBody seams eventKey isCommon event ambient o).value) := by
  have heach := sent_each isCommon h ho
  exact minimalEscaping.wellFormed_text (numeral_wellFormed platform)
    (heach.imp (fun _ hs => hs) fun _ _ => trivial)

/-- The bytes of a body are read as the body. -/
theorem sent_reads {seams : Seams} {eventKey : Str} (isCommon : Bool) {event : Event} {ambient : Option Str}
    {o : Option Copy} (h : Sendable seams eventKey event ambient) (ho : PropertiesSent platform heap event o) :
    BodyReads (getBytes (write platform (sentBody seams eventKey isCommon event ambient o).value))
      ((sentBody seams eventKey isCommon event ambient o).value.map (JavaNumber.numeral platform)) := by
  have heach := sent_each isCommon h ho
  rw [getBytes_eq (write_wellFormed isCommon h ho)]
  exact minimalEscaping.reads (numeral_wellFormed platform) (heach.imp (fun _ _ => trivial) fun _ hs => hs)
    (heach.imp (fun _ hs => hs) fun _ _ => trivial)

/-- **An event is sent exactly when its checks are passed and its properties are a tree; and the bytes say
    what the event says**, in UTF-8. -/
theorem encode_spec (platform : Platform) (heap : Heap) (seams : Seams) (eventKey : Option Str)
    (isCommon : Bool) (event : Option Event) (ambient : Option Str) :
    ((∃ bytes, encode platform seams heap eventKey isCommon event ambient = .ok bytes) ↔
      ∃ key ev, eventKey = some key ∧ event = some ev ∧ Sendable seams key ev ambient ∧
        (heap.maps ev.properties ≠ [] → PortableTree platform heap ev.properties)) ∧
    ∀ bytes, encode platform seams heap eventKey isCommon event ambient = .ok bytes →
      ∃ key ev o, eventKey = some key ∧ event = some ev ∧ PropertiesSent platform heap ev o ∧
        BodyReads bytes ((sentBody seams key isCommon ev ambient o).value.map (JavaNumber.numeral platform)) := by
  simp only [encode_ok_iff]
  constructor
  · constructor
    · rintro ⟨_, key, ev, hkey, hev, hsendable, o, ho, -⟩
      exact ⟨key, ev, hkey, hev, hsendable, sentProperties_returns_iff.mp ⟨o, ho⟩⟩
    · rintro ⟨key, ev, hkey, hev, hsendable, htree⟩
      obtain ⟨o, ho⟩ := sentProperties_returns_iff.mpr htree
      exact ⟨_, key, ev, hkey, hev, hsendable, o, ho, rfl⟩
  · rintro bytes ⟨key, ev, hkey, hev, hsendable, o, ho, rfl⟩
    have hsent := sentProperties_ok ho
    exact ⟨key, ev, o, hkey, hev, hsent, sent_reads isCommon hsendable hsent⟩

/-- The event gets as far as a decimal whose scale overflows. -/
def ReachesOverflow (platform : Platform) (seams : Seams) (heap : Heap) (eventKey : Option Str)
    (event : Option Event) (ambient : Option Str) : Prop :=
  ∃ key ev, eventKey = some key ∧ event = some ev ∧ Sendable seams key ev ambient ∧
    heap.maps ev.properties ≠ [] ∧ FirstOverflow platform heap ev.properties

/-- An event that gets as far as that makes `encode` throw more than a validation error. -/
theorem encode_contained {platform : Platform} {heap : Heap} {seams : Seams} {eventKey : Option Str}
    (isCommon : Bool) {event : Option Event} {ambient : Option Str} :
    Contained (encode platform seams heap eventKey isCommon event ambient) ↔
      ¬ ReachesOverflow platform seams heap eventKey event ambient := by
  unfold encode ReachesOverflow
  rw [show ∀ x : Except Raised (List UInt8), Contained x ↔ Raises _ x from fun _ => Iff.rfl, raises_bind,
    and_iff_right (check_contained eventKey event)]
  constructor
  · rintro h ⟨key, ev, rfl, rfl, hsendable, hsome, hfirst⟩
    have hcheck := check_ok_iff.mpr ⟨rfl, rfl, hsendable.key, hsendable.contact⟩
    have hpayload := (raises_bind.mp (h _ hcheck)).1
    have hproperties := (payload_contained_iff hsendable.key hsendable.contact).mp hpayload hsendable
    exact sentProperties_contained_iff.mp hproperties hsome hfirst
  · rintro h ⟨key, ev⟩ hcheck
    obtain ⟨rfl, rfl, hkey, hcontact⟩ := check_ok_iff.mp hcheck
    refine raises_bind.mpr ⟨(payload_contained_iff hkey hcontact).mpr ?_, fun _ _ => raises_ok⟩
    intro hsendable
    apply sentProperties_contained_iff.mpr
    intro hsome hfirst
    exact h ⟨key, ev, rfl, rfl, hsendable, hsome, hfirst⟩

/-- **`encode` throws validation errors and nothing else, exactly when the event does not get as far as a
    decimal whose scale overflows**; and it never does when every decimal inside can be stripped. -/
theorem encode_contained_iff (platform : Platform) (heap : Heap) (seams : Seams) (eventKey : Option Str)
    (isCommon : Bool) (event : Option Event) (ambient : Option Str) :
    (Contained (encode platform seams heap eventKey isCommon event ambient) ↔
      ¬ ReachesOverflow platform seams heap eventKey event ambient) ∧
    (ReachesOverflow platform seams heap eventKey event ambient → ∃ ev ancestors depth d, event = some ev ∧
      Inside platform heap ev.properties ancestors depth (.decimal d) ∧ d.stripTrailingZeros = none) := by
  refine ⟨encode_contained isCommon, ?_⟩
  rintro ⟨key, ev, -, hev, -, -, hfirst⟩
  obtain ⟨ancestors, depth, d, hreach, hstrip⟩ := hfirst.exists_decimal
  exact ⟨ev, ancestors, depth, d, hev, hreach, hstrip⟩

end CekatEvents.Java.PayloadEncoder
