/-
  CekatEvents.Node.Literals — new objects in a realm.

  An object literal makes an object that nothing but the code around it has: whatever other objects are
  asked, and whatever their getters and traps do, it answers with the entries it was made of.
  `Realm.MakesLiterals` states this of a realm, and `yields_literal` draws the conclusion: the JSON of a
  literal is that of its entries, which are asked one after another.
-/
import CekatEvents.Node.Event
import CekatEvents.Node.Reading

namespace CekatEvents.Node

open CekatEvents.Arithmetic CekatEvents.Effects CekatEvents.Encoding CekatEvents.JsonText

/-! ## §1. What questions leave as it is. -/

section Questions

variable {ι σ : Type} {R : Realm ι σ} {I : σ → Prop} {o p : ι} {ancestors : List ι} {s t : σ}

/-- A question about the properties of an object was answered. -/
inductive Asked (R : Realm ι σ) (p : ι) : σ → σ → Prop where
  | ownKeys {keys : List Key} {s t : σ} : R.ownKeys p s = .ok keys t → Asked R p s t
  | getOwnProperty {key : Key} {descriptor : Option (Descriptor ι)} {s t : σ} :
      R.getOwnProperty p key s = .ok descriptor t → Asked R p s t
  | getPrototypeOf {prototype : Option ι} {s t : σ} :
      R.getPrototypeOf p s = .ok prototype t → Asked R p s t
  | isArray {answer : Bool} {s t : σ} : R.isArray p s = .ok answer t → Asked R p s t
  | belowLength {index : Nat} {answer : Bool} {s t : σ} :
      R.belowLength index p s = .ok answer t → Asked R p s t

/-- No question to the object ends the invariant. -/
def Harmless (R : Realm ι σ) (I : σ → Prop) (p : ι) : Prop := ∀ s t, Asked R p s t → I s → I t

theorem Harmless.ownKeys (hp : Harmless R I p) : Preserves I (R.ownKeys p) :=
  fun s _ t h => hp s t (.ownKeys h)

theorem Harmless.propertyIsEnumerable (hp : Harmless R I p) (key : Key) :
    Preserves I (propertyIsEnumerable R p key) := by
  apply Preserves.bind
  · exact fun s _ t h => hp s t (.getOwnProperty h)
  · exact fun _ => preserves_pure _

theorem Harmless.objectKeys (hp : Harmless R I p) : Preserves I (objectKeys R p) :=
  hp.ownKeys.bind fun _ => preserves_filterM (fun s => hp.propertyIsEnumerable (.string s)) _

theorem Harmless.hasEnumerableSymbol (hp : Harmless R I p) : Preserves I (hasEnumerableSymbol R p) :=
  hp.ownKeys.bind fun _ => preserves_anyM (fun i => hp.propertyIsEnumerable (.symbol i)) _

theorem Harmless.indices (hp : Harmless R I p) {keys : List Str} (h : Indices R p keys s t)
    (hs : I s) : I t := by
  induction keys generalizing s with
  | nil =>
      obtain rfl : s = t := h
      exact hs
  | cons key keys ih =>
      obtain ⟨-, -, u, hbelow, h⟩ := h
      exact ih h (hp s u (.belowLength hbelow) hs)

theorem Harmless.opensArray (hp : Harmless R I p) (h : OpensArray R ancestors p s t) (hs : I s) :
    I t := by
  obtain ⟨u, v, x, keys, hentered, harray, hkeys, hindices⟩ := h
  have hu : I u := hp.hasEnumerableSymbol s _ u hentered.2.2 hs
  have hv : I v := hp u v (.isArray harray) hu
  exact hp.indices hindices (hp.objectKeys v keys x hkeys hv)

theorem Harmless.opensObject (hp : Harmless R I p) {keys : List Str}
    (h : OpensObject R ancestors p keys s t) (hs : I s) : I t := by
  obtain ⟨u, v, x, prototype, hentered, harray, hprototype, -, hkeys⟩ := h
  have hu : I u := hp.hasEnumerableSymbol s _ u hentered.2.2 hs
  have hv : I v := hp u v (.isArray harray) hu
  exact hp.objectKeys x keys t hkeys (hp v x (.getPrototypeOf hprototype) hv)

/-- The value asks its objects nothing that ends the invariant. -/
def Spares (R : Realm ι σ) (I : σ → Prop) (o : ι) (w : Value Finite) : Prop :=
  ∀ {ancestors value s t}, o ∈ ancestors → Yields R w ancestors value s t → I s → I t

theorem spared_of_yieldsElems (hp : Harmless R I p) {xs : List (Value Finite)}
    (hxs : ∀ x ∈ xs, Spares R I o x) (ho : o ∈ ancestors) {index : Nat}
    (h : YieldsElems R xs ancestors p index s t) (hs : I s) : I t := by
  induction xs generalizing index s with
  | nil => exact hp s t (.belowLength h) hs
  | cons x xs ih =>
      obtain ⟨value, u, v, z, hbelow, hproperty, hx, hrest⟩ := h
      have hv : I v := hp u v (.getOwnProperty hproperty) (hp s u (.belowLength hbelow) hs)
      exact ih (fun y hy => hxs y (List.mem_cons_of_mem x hy)) hrest (hxs x List.mem_cons_self ho hx hv)

theorem spared_of_yieldsMembers (hp : Harmless R I p) {ms : List (Str × Value Finite)}
    (hms : ∀ m ∈ ms, Spares R I o m.2) (ho : o ∈ ancestors)
    (h : YieldsMembers R ms ancestors p s t) (hs : I s) : I t := by
  induction ms generalizing s with
  | nil =>
      obtain rfl : s = t := h
      exact hs
  | cons m ms ih =>
      obtain ⟨key, x⟩ := m
      obtain ⟨value, enumerable, u, v, hproperty, hx, hrest⟩ := h
      have hu : I u := hp s u (.getOwnProperty hproperty) hs
      exact ih (fun m hm => hms m (List.mem_cons_of_mem _ hm)) hrest
        (hms (key, x) List.mem_cons_self ho hx hu)

/-- **A value inside an object asks that object nothing**, so it leaves what the others leave. -/
theorem spared_of_yields (hothers : ∀ p, p ≠ o → Harmless R I p) (w : Value Finite) :
    Spares R I o w := by
  induction w using Value.induction with
  | null =>
      intro ancestors value s t _ h hs
      exact h.2 ▸ hs
  | bool b =>
      intro ancestors value s t _ h hs
      exact h.2 ▸ hs
  | str text =>
      intro ancestors value s t _ h hs
      exact h.2 ▸ hs
  | num y =>
      intro ancestors value s t _ h hs
      exact h.2 ▸ hs
  | arr xs ih =>
      intro ancestors value s t ho h hs
      obtain ⟨-, p, u, rfl, hopens, helements⟩ := h
      -- an array is no ancestor of itself, so it is not the one the value stands in
      have hne : p ≠ o := by
        obtain ⟨_, _, _, _, hentered, _⟩ := hopens
        intro heq
        exact hentered.2.1 (heq ▸ ho)
      have hp := hothers p hne
      exact spared_of_yieldsElems hp ih (List.mem_cons_of_mem p ho) helements (hp.opensArray hopens hs)
  | obj ms ih =>
      intro ancestors value s t ho h hs
      obtain ⟨p, u, rfl, hopens, hmembers⟩ := h
      -- an object is no ancestor of itself either
      have hne : p ≠ o := by
        obtain ⟨_, _, _, _, hentered, _⟩ := hopens
        intro heq
        exact hentered.2.1 (heq ▸ ho)
      have hp := hothers p hne
      exact spared_of_yieldsMembers hp ih (List.mem_cons_of_mem p ho) hmembers (hp.opensObject hopens hs)

end Questions

/-! ## §2. Literals. -/

/-- **What the language promises of object literals.**  `order` is the order in which an object lists its
    properties; `Ready` says of a state that `Object.prototype` lends events no field, and `Fresh` of an
    object that it is the literal of these entries, which no other code has. -/
structure Realm.MakesLiterals {ι σ : Type} (R : Realm ι σ)
    (order : List (Key × Unknown ι) → List (Key × Unknown ι)) (Ready : σ → Prop)
    (Fresh : ι → List (Key × Unknown ι) → σ → Prop) : Prop where
  /-- No object lists a key twice. -/
  nodup : ∀ o s keys t, R.ownKeys o s = .ok keys t → keys.Nodup
  perm : ∀ entries, (order entries).Perm entries
  /-- After strings, strings that are no index come last. -/
  appended : ∀ entries more, (∀ e ∈ entries, ∃ name, e.1 = .string name) →
    (∀ e ∈ more, ∃ name, e.1 = .string name ∧ ∀ i, indexKey i ≠ name) →
      order (entries ++ more) = order entries ++ more
  ready : ∀ entries s, Ready s → Ready (R.allocate entries s).2
  fresh : ∀ entries s, Ready s → (entries.map Prod.fst).Nodup →
    Fresh (R.allocate entries s).1 entries (R.allocate entries s).2
  /-- One literal leaves another alone. -/
  kept : ∀ o entries more s, Fresh o entries s → Fresh o entries (R.allocate more s).2
  /-- And so do all other objects. -/
  others : ∀ o entries p, p ≠ o → Harmless R (Fresh o entries) p
  callable : ∀ o entries s, Fresh o entries s → R.callable o = false
  get : ∀ o entries s, Ready s → Fresh o entries s → ReadsFields R s o (literalFields entries)
  ownKeys : ∀ o entries s, Fresh o entries s →
    R.ownKeys o s = .ok ((order entries).map Prod.fst) s
  getOwnProperty : ∀ o entries s, Fresh o entries s → ∀ key,
    R.getOwnProperty o key s = .ok ((getKey entries key).map fun value => .data value true) s
  getPrototypeOf : ∀ o entries s, Fresh o entries s →
    R.getPrototypeOf o s = .ok (some R.objectPrototype) s
  isArray : ∀ o entries s, Fresh o entries s → R.isArray o s = .ok false s

/-- The entries give the JSON of the members, asked one after another. -/
def EntriesYield {ι σ : Type} (R : Realm ι σ) (ancestors : List ι) :
    List (Key × Unknown ι) → List (Str × Value Finite) → σ → σ → Prop
  | [], [], s, t => s = t
  | e :: entries, m :: ms, s, t => e.1 = .string m.1 ∧
      ∃ u, Yields R m.2 ancestors e.2 s u ∧ EntriesYield R ancestors entries ms u t
  | _, _, _, _ => False

section Entries

variable {ι σ : Type} {R : Realm ι σ} {ancestors : List ι} {entries more : List (Key × Unknown ι)}
  {ms : List (Str × Value Finite)} {s t : σ}

/-- Every key is a string. -/
theorem names_of_entriesYield (h : EntriesYield R ancestors entries ms s t) :
    ∀ e ∈ entries, ∃ name, e.1 = .string name := by
  induction entries generalizing ms s with
  | nil => exact fun e he => absurd he List.not_mem_nil
  | cons e entries ih =>
      cases ms with
      | nil => exact absurd h id
      | cons m ms =>
          obtain ⟨hname, u, -, hrest⟩ := h
          exact List.forall_mem_cons.mpr ⟨⟨m.1, hname⟩, ih hrest⟩

theorem entriesYield_append_iff :
    EntriesYield R ancestors (entries ++ more) ms s t ↔ ∃ ms₁ ms₂ u, ms = ms₁ ++ ms₂ ∧
      EntriesYield R ancestors entries ms₁ s u ∧ EntriesYield R ancestors more ms₂ u t := by
  induction entries generalizing ms s with
  | nil =>
      constructor
      · intro h
        exact ⟨[], ms, s, rfl, rfl, h⟩
      · intro h
        obtain ⟨ms₁, ms₂, u, rfl, hfirst, hsecond⟩ := h
        cases ms₁ with
        | nil =>
            obtain rfl : s = u := hfirst
            exact hsecond
        | cons m ms => exact absurd hfirst id
  | cons e entries ih =>
      cases ms with
      | nil =>
          apply iff_of_false id
          intro h
          obtain ⟨ms₁, ms₂, u, hnil, hfirst, -⟩ := h
          obtain ⟨rfl, -⟩ := List.append_eq_nil_iff.mp hnil.symm
          exact hfirst
      | cons m ms =>
          constructor
          · intro h
            obtain ⟨hname, v, hvalue, hrest⟩ := h
            obtain ⟨ms₁, ms₂, u, rfl, hfirst, hsecond⟩ := ih.mp hrest
            exact ⟨m :: ms₁, ms₂, u, rfl, ⟨hname, v, hvalue, hfirst⟩, hsecond⟩
          · intro h
            obtain ⟨ms₁, ms₂, u, happend, hfirst, hsecond⟩ := h
            cases ms₁ with
            | nil => exact absurd hfirst id
            | cons m' ms₁ =>
                obtain ⟨rfl, rfl⟩ := List.cons_eq_cons.mp happend
                obtain ⟨hname, v, hvalue, hfirst⟩ := hfirst
                exact ⟨hname, v, hvalue, ih.mpr ⟨ms₁, ms₂, u, rfl, hfirst, hsecond⟩⟩

theorem EntriesYield.unique [DecidableEq ι] {ms' : List (Str × Value Finite)} {t' : σ}
    (h : EntriesYield R ancestors entries ms s t) (h' : EntriesYield R ancestors entries ms' s t') :
    ms = ms' ∧ t = t' := by
  induction entries generalizing ms ms' s with
  | nil =>
      cases ms with
      | cons m ms => exact absurd h id
      | nil =>
          cases ms' with
          | cons m ms => exact absurd h' id
          | nil =>
              obtain rfl : s = t := h
              exact ⟨rfl, h'⟩
  | cons e entries ih =>
      cases ms with
      | nil => exact absurd h id
      | cons m ms =>
          cases ms' with
          | nil => exact absurd h' id
          | cons m' ms' =>
              obtain ⟨name, x⟩ := m
              obtain ⟨name', x'⟩ := m'
              obtain ⟨hname, u, hvalue, hrest⟩ := h
              obtain ⟨hname', u', hvalue', hrest'⟩ := h'
              obtain rfl : name = name' := Key.string.inj (hname.symm.trans hname')
              obtain ⟨rfl, rfl⟩ := hvalue.unique hvalue'
              obtain ⟨rfl, rfl⟩ := ih hrest hrest'
              exact ⟨rfl, rfl⟩

end Entries

/-! ## §3. The JSON of a literal. -/

section Literal

variable {ι σ : Type} {R : Realm ι σ} {order : List (Key × Unknown ι) → List (Key × Unknown ι)}
  {Ready : σ → Prop} {Fresh : ι → List (Key × Unknown ι) → σ → Prop} {o : ι}
  {entries : List (Key × Unknown ι)} {s t : σ}

/-- Every property of a literal is enumerable. -/
theorem propertyIsEnumerable_literal (hR : R.MakesLiterals order Ready Fresh)
    (hfresh : Fresh o entries s) (key : Key) :
    propertyIsEnumerable R o key s = .ok (getKey entries key).isSome s := by
  unfold propertyIsEnumerable
  rw [bind_of_ok (hR.getOwnProperty o entries s hfresh key)]
  cases getKey entries key with
  | none => rfl
  | some value => rfl

theorem getKey_isSome_of_order (hR : R.MakesLiterals order Ready Fresh) {key : Key}
    (hkey : key ∈ (order entries).map Prod.fst) : (getKey entries key).isSome = true := by
  obtain ⟨e, he, rfl⟩ := List.mem_map.mp hkey
  rw [Option.isSome_iff_ne_none]
  intro hnone
  exact getKey_eq_none_iff.mp hnone (List.mem_map_of_mem ((hR.perm entries).mem_iff.mp he))

theorem objectKeys_literal (hR : R.MakesLiterals order Ready Fresh) (hfresh : Fresh o entries s) :
    objectKeys R o s = .ok (stringKeys ((order entries).map Prod.fst)) s := by
  have hall : (stringKeys ((order entries).map Prod.fst)).filter
      (fun name => (getKey entries (.string name)).isSome)
        = stringKeys ((order entries).map Prod.fst) := by
    apply List.filter_eq_self.mpr
    intro name hname
    exact getKey_isSome_of_order hR (mem_stringKeys.mp hname)
  unfold objectKeys
  rw [bind_of_ok (hR.ownKeys o entries s hfresh),
    filterM_of_looks (fun name => propertyIsEnumerable_literal hR hfresh (.string name)), hall]

theorem hasEnumerableSymbol_literal (hR : R.MakesLiterals order Ready Fresh)
    (hfresh : Fresh o entries s) :
    hasEnumerableSymbol R o s = .ok (!(symbolKeys ((order entries).map Prod.fst)).isEmpty) s := by
  have hany : (symbolKeys ((order entries).map Prod.fst)).any
      (fun i => (getKey entries (.symbol i)).isSome)
        = !(symbolKeys ((order entries).map Prod.fst)).isEmpty := by
    have hall : ∀ i ∈ symbolKeys ((order entries).map Prod.fst),
        (getKey entries (.symbol i)).isSome = true :=
      fun i hi => getKey_isSome_of_order hR (mem_symbolKeys.mp hi)
    cases hsymbols : symbolKeys ((order entries).map Prod.fst) with
    | nil => rfl
    | cons i is =>
        rw [hsymbols] at hall
        rw [List.any_cons, hall i List.mem_cons_self]
        rfl
  unfold hasEnumerableSymbol
  rw [bind_of_ok (hR.ownKeys o entries s hfresh),
    anyM_of_looks (fun i => propertyIsEnumerable_literal hR hfresh (.symbol i)), hany]

/-- The members of a literal, asked by their names. -/
theorem yieldsMembers_literal (hR : R.MakesLiterals order Ready Fresh) {es : List (Key × Unknown ι)}
    (hes : ∀ e ∈ es, getKey entries e.1 = some e.2) (hfresh : Fresh o entries s)
    {ms : List (Str × Value Finite)} :
    EntriesYield R [o] es ms s t ↔
      es.map Prod.fst = (ms.map Prod.fst).map .string ∧ YieldsMembers R ms [o] o s t := by
  induction es generalizing ms s with
  | nil =>
      cases ms with
      | nil => exact (and_iff_right rfl).symm
      | cons m ms => exact iff_of_false id fun h => nomatch h.1
  | cons e es ih =>
      cases ms with
      | nil => exact iff_of_false id fun h => nomatch h.1
      | cons m ms =>
          obtain ⟨key, value⟩ := e
          obtain ⟨name, x⟩ := m
          have hproperty := hR.getOwnProperty o entries s hfresh key
          rw [hes (key, value) List.mem_cons_self] at hproperty
          -- whatever the first value runs, the literal is as it was
          have hrest : ∀ u, Yields R x [o] value s u → (EntriesYield R [o] es ms u t ↔ _) :=
            fun u hvalue => ih (fun e he => hes e (List.mem_cons_of_mem _ he))
              (spared_of_yields (hR.others o entries) x List.mem_cons_self hvalue hfresh)
          simp only [List.map_cons, List.cons_eq_cons]
          constructor
          · intro h
            obtain ⟨hname, u, hvalue, h⟩ := h
            obtain rfl : key = .string name := hname
            obtain ⟨hkeys, hmembers⟩ := (hrest u hvalue).mp h
            exact ⟨⟨rfl, hkeys⟩, value, true, s, u, hproperty, hvalue, hmembers⟩
          · intro h
            obtain ⟨⟨rfl, hkeys⟩, value', enumerable, v, u, hproperty', hvalue, hmembers⟩ := h
            rw [hproperty] at hproperty'
            cases hproperty'
            exact ⟨rfl, u, hvalue, (hrest u hvalue).mpr ⟨hkeys, hmembers⟩⟩

/-- **The JSON of a literal** is an object of the JSON of its entries. -/
theorem yields_literal (hR : R.MakesLiterals order Ready Fresh) (hnodup : (entries.map Prod.fst).Nodup)
    (hfresh : Fresh o entries s) {w : Value Finite} :
    Yields R w [] (.object o) s t ↔
      ∃ ms, w = .obj ms ∧ EntriesYield R [o] (order entries) ms s t := by
  have hes : ∀ e ∈ order entries, getKey entries e.1 = some e.2 :=
    fun e he => getKey_of_mem hnodup ((hR.perm entries).mem_iff.mp he)
  have hsymbols := hasEnumerableSymbol_literal hR hfresh
  have harray := hR.isArray o entries s hfresh
  constructor
  · intro h
    cases w with
    | null => cases h.1
    | bool b => cases h.1
    | str text => cases h.1
    | num y =>
        obtain ⟨⟨x, hx, -⟩, -⟩ := h
        cases hx
    | arr xs =>
        -- a literal is no array
        obtain ⟨-, o', u, ⟨⟩, ⟨u', v, x, keys, ⟨-, -, hentered⟩, harray', -⟩, -⟩ := h
        rw [hsymbols, EStateM.Result.ok.injEq] at hentered
        obtain ⟨-, rfl⟩ := hentered
        rw [harray] at harray'
        cases harray'
    | obj ms =>
        obtain ⟨o', u, ⟨⟩, ⟨u', v, x, prototype, ⟨-, -, hentered⟩, harray', hprototype, -, hkeys⟩,
          hmembers⟩ := h
        -- every answer leaves the state alone, up to the first member
        rw [hsymbols, EStateM.Result.ok.injEq] at hentered
        obtain ⟨hnone, rfl⟩ := hentered
        rw [harray, EStateM.Result.ok.injEq] at harray'
        obtain ⟨-, rfl⟩ := harray'
        rw [hR.getPrototypeOf o entries s hfresh, EStateM.Result.ok.injEq] at hprototype
        obtain ⟨-, rfl⟩ := hprototype
        rw [objectKeys_literal hR hfresh, EStateM.Result.ok.injEq] at hkeys
        obtain ⟨hnames, rfl⟩ := hkeys
        refine ⟨ms, rfl, (yieldsMembers_literal hR hes hfresh).mpr ⟨keys_eq_iff.mpr ⟨?_, hnames⟩, hmembers⟩⟩
        simpa using hnone
  · intro h
    obtain ⟨ms, rfl, hentries⟩ := h
    obtain ⟨hkeys, hmembers⟩ := (yieldsMembers_literal hR hes hfresh).mp hentries
    obtain ⟨hnone, hnames⟩ := keys_eq_iff.mp hkeys
    have hobjectKeys := objectKeys_literal hR hfresh
    rw [hnames] at hobjectKeys
    rw [hnone] at hsymbols
    exact ⟨o, s, rfl, ⟨s, s, s, _, ⟨hR.callable o entries s hfresh, List.not_mem_nil, hsymbols⟩, harray,
      hR.getPrototypeOf o entries s hfresh, .inl rfl, hobjectKeys⟩, hmembers⟩

end Literal

/-! ## §4. Keys of a spread. -/

section Spreads

variable {ι σ : Type} {R : Realm ι σ} {s t : σ} {members : List (Key × Unknown ι)}

/-- A spread takes over no keys but those of the object. -/
theorem spreadKeys_sublist {p : ι} {keys : List Key}
    (hspread : spreadKeys R p keys s = .ok members t) : (members.map Prod.fst).Sublist keys := by
  induction keys generalizing s members with
  | nil =>
      cases hspread
      exact .slnil
  | cons key keys ih =>
      rw [spreadKeys] at hspread
      obtain ⟨enumerable, u, -, hspread⟩ := stateful_bind_ok_iff.mp hspread
      cases enumerable with
      | false => exact (ih hspread).cons key
      | true =>
          obtain ⟨value, u', -, hspread⟩ := stateful_bind_ok_iff.mp hspread
          obtain ⟨rest, t', hrest, hpure⟩ := stateful_bind_ok_iff.mp hspread
          cases hpure
          exact (ih hrest).cons_cons key

theorem indexKey_injective : Function.Injective indexKey := by
  intro i j hij
  rw [← natValue_natDigits i, ← natValue_natDigits j]
  exact congrArg natValue hij

/-- The keys of a string that is spread. -/
theorem units_keys_nodup (text : Str) :
    ((text.mapIdx fun index u => (Key.string (indexKey index), (Unknown.string [u] : Unknown ι))).map
      Prod.fst).Nodup := by
  apply List.pairwise_iff_getElem.mpr
  intro i j hi hj hij heq
  simp only [List.getElem_map, List.getElem_mapIdx, Key.string.injEq] at heq
  exact Nat.ne_of_lt hij (indexKey_injective heq)

/-- **No key is taken over twice** where no object lists one twice. -/
theorem spread_nodup (hkeys : ∀ o s keys t, R.ownKeys o s = .ok keys t → keys.Nodup) {value : Unknown ι}
    (hspread : spread R value s = .ok members t) : (members.map Prod.fst).Nodup := by
  cases value with
  | object o =>
      obtain ⟨keys, u, hown, hspread⟩ := stateful_bind_ok_iff.mp hspread
      exact (spreadKeys_sublist hspread).nodup (hkeys o s keys u hown)
  | string text =>
      cases hspread
      exact units_keys_nodup text
  | _ =>
      cases hspread
      exact List.nodup_nil

end Spreads

end CekatEvents.Node
