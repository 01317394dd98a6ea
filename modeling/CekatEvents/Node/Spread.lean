/-
  CekatEvents.Node.Spread — what a spread takes over on a heap, and new objects there.

  A spread reads every enumerable property of an object, through its getters, and the literal it stands
  in becomes a new object.

    * `mirrors_agree`           — new objects change nothing about the JSON of the old ones;
    * `mirrors_literal`         — the JSON of a literal is that of its entries;
    * `spread_of_mirrors`       — an object that is JSON is spread into its members;
    * `heapRealm_makesLiterals` — a heap makes literals as the language promises.
-/
import CekatEvents.Node.Literals
import CekatEvents.Node.Mirror

namespace CekatEvents.Node

open CekatEvents.Arithmetic CekatEvents.Effects CekatEvents.Encoding CekatEvents.JsonText

/-! ## §1. Heaps that agree. -/

/-- The second heap has the objects of the first, and perhaps others. -/
def Agree (h h' : Heap) : Prop := ∀ o : Address, o.index < h.next → h'.objects o = h.objects o

section Agreement

variable {ν : Type} {h h' : Heap} {N : Double → ν → Prop}

theorem Agree.trans {h'' : Heap} (hagree : Agree h h') (hagree' : Agree h' h'')
    (hle : h.next ≤ h'.next) : Agree h h'' := by
  intro o ho
  rw [hagree' o (Nat.lt_of_lt_of_le ho hle), hagree o ho]

theorem mirrorsElems_agree {xs : List (Value ν)} {o : Address}
    (hobject : h'.objects o = h.objects o)
    (hxs : ∀ x ∈ xs, ∀ key value, HasValue h o key value → (Mirrors h' N x value ↔ Mirrors h N x value))
    (index : Nat) : MirrorsElems h' N xs o index ↔ MirrorsElems h N xs o index := by
  induction xs generalizing index with
  | nil => exact Iff.rfl
  | cons x xs ih =>
      apply and_congr _ (ih (fun y hy => hxs y (List.mem_cons_of_mem x hy)) (index + 1))
      apply exists_congr
      intro value
      have hsame : HasValue h' o (indexKey index) value ↔ HasValue h o (indexKey index) value := by
        unfold HasValue
        rw [hobject]
      rw [hsame]
      exact and_congr_right fun hvalue => hxs x List.mem_cons_self _ value hvalue

theorem mirrorsMembers_agree {ms : List (Str × Value ν)} {o : Address}
    (hobject : h'.objects o = h.objects o)
    (hms : ∀ m ∈ ms, ∀ key value, HasValue h o key value →
      (Mirrors h' N m.2 value ↔ Mirrors h N m.2 value)) :
    MirrorsMembers h' N ms o ↔ MirrorsMembers h N ms o := by
  induction ms with
  | nil => exact Iff.rfl
  | cons m ms ih =>
      obtain ⟨key, x⟩ := m
      apply and_congr _ (ih fun m hm => hms m (List.mem_cons_of_mem _ hm))
      apply exists_congr
      intro value
      have hsame : HasValue h' o key value ↔ HasValue h o key value := by
        unfold HasValue
        rw [hobject]
      rw [hsame]
      exact and_congr_right fun hvalue => hms _ List.mem_cons_self _ value hvalue

theorem isPlainArray_agree {o : Address} {n : Nat} (hobject : h'.objects o = h.objects o) :
    IsPlainArray h' o n ↔ IsPlainArray h o n := by
  constructor
  · intro hplain
    exact ⟨hplain.callable, hobject ▸ hplain.length, hobject ▸ hplain.symbols, hobject ▸ hplain.keys⟩
  · intro hplain
    exact ⟨hplain.callable, hobject ▸ hplain.length, hobject ▸ hplain.symbols, hobject ▸ hplain.keys⟩

theorem isPlainObject_agree {o : Address} (hobject : h'.objects o = h.objects o) :
    IsPlainObject h' o ↔ IsPlainObject h o := by
  constructor
  · intro hplain
    exact ⟨hplain.callable, hobject ▸ hplain.length, hobject ▸ hplain.symbols,
      hobject ▸ hplain.prototype⟩
  · intro hplain
    exact ⟨hplain.callable, hobject ▸ hplain.length, hobject ▸ hplain.symbols,
      hobject ▸ hplain.prototype⟩

/-- **New objects change nothing about the JSON of the old ones.** -/
theorem mirrors_agree (hclosed : h.Closed) (hagree : Agree h h') {w : Value ν} {v : Unknown Address}
    (hbelow : v.Below h.next) : Mirrors h' N w v ↔ Mirrors h N w v := by
  induction w using Value.induction generalizing v with
  | null => exact Iff.rfl
  | bool b => exact Iff.rfl
  | num n => exact Iff.rfl
  | str s => exact Iff.rfl
  | arr xs ih =>
      apply exists_congr
      intro o
      apply and_congr_right
      rintro rfl
      have hobject := hagree o hbelow
      apply and_congr (isPlainArray_agree hobject)
      apply mirrorsElems_agree hobject
      intro x hx key value hvalue
      exact ih x hx (hclosed o hbelow key value hvalue)
  | obj ms ih =>
      apply exists_congr
      intro o
      apply and_congr_right
      rintro rfl
      have hobject := hagree o hbelow
      apply and_congr (isPlainObject_agree hobject)
      rw [hobject]
      apply and_congr_right
      intro _
      apply mirrorsMembers_agree hobject
      intro m hm key value hvalue
      exact ih m hm (hclosed o hbelow key value hvalue)

end Agreement

/-- The heap with a new literal on it. -/
def Heap.push (h : Heap) (entries : List (Key × Unknown Address)) : Heap where
  objects o := if o = ⟨h.next, false⟩ then literal entries else h.objects o
  next := h.next + 1

section Push

variable {h : Heap} {entries : List (Key × Unknown Address)}

theorem push_objects_new : (h.push entries).objects ⟨h.next, false⟩ = literal entries := if_pos rfl

theorem agree_push : Agree h (h.push entries) := by
  intro o ho
  apply if_neg
  rintro rfl
  exact Nat.lt_irrefl _ ho

theorem push_pristine (hpristine : h.Pristine) : (h.push entries).Pristine := by
  have hsame : (h.push entries).objects objectPrototype = h.objects objectPrototype :=
    agree_push _ hpristine.rooted
  refine ⟨Nat.lt_succ_of_lt hpristine.rooted, ?_, ?_⟩
  · rw [hsame]
    exact hpristine.last
  · rw [hsame]
    exact hpristine.fields

end Push

/-! ## §2. The JSON of entries. -/

/-- The members are the JSON of the entries, one by one. -/
def EntriesMirror (h : Heap) (entries : List (Key × Unknown Address)) (ms : List (Str × Value Finite)) :
    Prop :=
  List.Forall₂ (fun e m => e.1 = .string m.1 ∧ Mirrors h SendsAs m.2 e.2) entries ms

section Entries

variable {h : Heap} {o : Address} {entries : List (Key × Unknown Address)}
  {ms : List (Str × Value Finite)}

/-- Properties with these values, taken by their names. -/
theorem entriesMirror_iff
    (hown : ∀ e ∈ entries, (h.objects o).getOwn e.1 = some (.data e.2 true)) :
    EntriesMirror h entries ms ↔
      entries.map Prod.fst = (ms.map Prod.fst).map .string ∧ MirrorsMembers h SendsAs ms o := by
  unfold EntriesMirror
  induction entries generalizing ms with
  | nil =>
      rw [List.forall₂_nil_left_iff]
      constructor
      · rintro rfl
        exact ⟨rfl, trivial⟩
      · intro hboth
        have hkeys := hboth.1
        simpa using hkeys.symm
  | cons e entries ih =>
      have hvalue := hown e List.mem_cons_self
      cases ms with
      | nil =>
          apply iff_of_false
          · intro hnil
            cases hnil
          · intro hboth
            cases hboth.1
      | cons m ms =>
          obtain ⟨name, x⟩ := m
          rw [List.forall₂_cons, ih fun e' he' => hown e' (List.mem_cons_of_mem e he')]
          simp only [List.map_cons, List.cons_eq_cons]
          constructor
          · intro hboth
            obtain ⟨⟨hkey, hx⟩, hkeys, hmembers⟩ := hboth
            rw [hkey] at hvalue
            exact ⟨⟨hkey, hkeys⟩, ⟨e.2, hvalue, hx⟩, hmembers⟩
          · intro hboth
            obtain ⟨⟨hkey, hkeys⟩, ⟨value, hvalue', hx⟩, hmembers⟩ := hboth
            rw [hkey] at hvalue
            have hsame : e.2 = value := by
              have heq := hvalue.symm.trans hvalue'
              simpa using heq
            exact ⟨⟨hkey, hsame ▸ hx⟩, hkeys, hmembers⟩

theorem entriesMirror_append_iff {more : List (Key × Unknown Address)} :
    EntriesMirror h (entries ++ more) ms ↔
      ∃ ms₁ ms₂, ms = ms₁ ++ ms₂ ∧ EntriesMirror h entries ms₁ ∧ EntriesMirror h more ms₂ := by
  unfold EntriesMirror
  constructor
  · intro hall
    have htake := List.forall₂_take entries.length hall
    have hdrop := List.forall₂_drop entries.length hall
    rw [List.take_left] at htake
    rw [List.drop_left] at hdrop
    exact ⟨_, _, (List.take_append_drop entries.length ms).symm, htake, hdrop⟩
  · intro hparts
    obtain ⟨ms₁, ms₂, rfl, hfirst, hsecond⟩ := hparts
    exact List.rel_append hfirst hsecond

/-- **The JSON of a literal** is an object of the JSON of its entries. -/
theorem mirrors_literal (hobject : h.objects o = literal entries) (hcallable : o.callable = false)
    (hnodup : (entries.map Prod.fst).Nodup) {w : Value Finite} :
    Mirrors h SendsAs w (.object o) ↔ ∃ ms, w = .obj ms ∧ EntriesMirror h entries ms := by
  have hown : ∀ e ∈ entries, (h.objects o).getOwn e.1 = some (.data e.2 true) := by
    intro e he
    rw [hobject, literal_getOwn hnodup, getKey_of_mem hnodup he]
    rfl
  have hkeys : (h.objects o).properties.map Prod.fst = entries.map Prod.fst := by
    rw [hobject]
    show (literalProperties entries).map Prod.fst = _
    rw [literalProperties_of_nodup hnodup, List.map_map]
    rfl
  have henumerable : ∀ key ∈ entries.map Prod.fst,
      ((h.objects o).getOwn key).any Property.enumerable = true := by
    intro key hkey
    obtain ⟨e, he, rfl⟩ := List.mem_map.mp hkey
    rw [hown e he]
    rfl
  have hstrings : (h.objects o).enumerableKeys = stringKeys (entries.map Prod.fst) := by
    unfold Obj.enumerableKeys
    rw [hkeys]
    apply List.filter_eq_self.mpr
    intro s hs
    exact henumerable _ (mem_stringKeys.mp hs)
  have hsymbols : (h.objects o).hasEnumerableSymbol = false ↔ symbolKeys (entries.map Prod.fst) = [] := by
    unfold Obj.hasEnumerableSymbol
    rw [hkeys, List.any_eq_false, List.eq_nil_iff_forall_not_mem]
    apply forall_congr'
    intro i
    constructor
    · intro hnot hi
      exact hnot hi (henumerable _ (mem_symbolKeys.mp hi))
    · intro hnot hi
      exact absurd hi hnot
  constructor
  · intro hmirrors
    obtain ⟨ms, rfl⟩ := obj_of_mirrors hmirrors (by rw [hobject]; rfl)
    obtain ⟨o', ho, hplain, hnames, hmembers⟩ := hmirrors
    cases ho
    refine ⟨ms, rfl, (entriesMirror_iff hown).mpr ⟨keys_eq_iff.mpr ⟨?_, ?_⟩, hmembers⟩⟩
    · exact hsymbols.mp hplain.symbols
    · rw [← hstrings, hnames]
  · intro hentries
    obtain ⟨ms, rfl, hentries⟩ := hentries
    obtain ⟨hnames, hmembers⟩ := (entriesMirror_iff hown).mp hentries
    obtain ⟨hnone, hnames⟩ := keys_eq_iff.mp hnames
    refine ⟨o, rfl, ⟨hcallable, ?_, hsymbols.mpr hnone, ?_⟩, ?_, hmembers⟩
    · rw [hobject]
      rfl
    · rw [hobject]
      exact .inl rfl
    · rw [hstrings, hnames]

end Entries

/-! ## §3. Spreads. -/

/-- The heap that is left is in order, and no address was taken back. -/
structure Follows (h t : Heap) : Prop where
  closed : t.Closed
  pristine : t.Pristine
  next_le : h.next ≤ t.next

theorem Follows.trans {h t u : Heap} (htu : Follows t u) (hht : Follows h t) : Follows h u :=
  ⟨htu.closed, htu.pristine, Nat.le_trans hht.next_le htu.next_le⟩

/-- **Getters leave a heap in order**: nothing on it points nowhere, and they put no field of events on
    `Object.prototype`.  They may do anything else. -/
def Environment.Sound (env : Environment) : Prop :=
  ∀ getter o h value t, h.Closed → h.Pristine → env.callGetter getter o h = .ok value t →
    Follows h t ∧ value.Below t.next

theorem Unknown.Below.mono {n m : Nat} (hnm : n ≤ m) {v : Unknown Address} (hv : v.Below n) :
    v.Below m := by
  cases v with
  | object o => exact Nat.lt_of_lt_of_le hv hnm
  | _ => trivial

/-- The members that are strings by their keys lie on the heap. -/
def MembersBelow (h : Heap) (members : List (Key × Unknown Address)) : Prop :=
  ∀ m ∈ members, ∀ s, m.1 = .string s → m.2.Below h.next

section Spreads

variable {env : Environment} {o : Address}

/-- An own property is found first. -/
theorem get_own {h : Heap} {key : Key} {property : Property}
    (hown : (h.objects o).getOwn key = some property) :
    (heapRealm env).get o key h = env.valueOf o (some property) h := by
  show env.valueOf o (h.lookup key (h.next + 1) o) h = _
  rw [Heap.lookup, hown]

/-- What is read of an enumerable property. -/
theorem get_sound (hsound : env.Sound) {h t : Heap} (hclosed : h.Closed) (hpristine : h.Pristine)
    (ho : o.index < h.next) {key : Key}
    (henumerable : ((h.objects o).getOwn key).any Property.enumerable = true) {value : Unknown Address}
    (hget : (heapRealm env).get o key h = .ok value t) :
    Follows h t ∧ ∀ s, key = .string s → value.Below t.next := by
  have hfollows : Follows h h := ⟨hclosed, hpristine, Nat.le_refl _⟩
  cases hown : (h.objects o).getOwn key with
  | none =>
      rw [hown] at henumerable
      cases henumerable
  | some property =>
      rw [get_own hown] at hget
      rw [hown] at henumerable
      cases property with
      | data v enumerable =>
          cases hget
          refine ⟨hfollows, ?_⟩
          rintro s rfl
          have htrue : enumerable = true := henumerable
          rw [htrue] at hown
          exact hclosed o ho s _ hown
      | accessor getter enumerable =>
          cases getter with
          | none =>
              cases hget
              exact ⟨hfollows, fun _ _ => trivial⟩
          | some getter =>
              obtain ⟨hfollows, hbelow⟩ := hsound getter o h value t hclosed hpristine hget
              exact ⟨hfollows, fun _ _ => hbelow⟩

/-- What a spread of some keys takes over. -/
theorem spreadKeys_sound (hsound : env.Sound) {keys : List Key} {h t : Heap} (hclosed : h.Closed)
    (hpristine : h.Pristine) (ho : o.index < h.next) {members : List (Key × Unknown Address)}
    (hspread : spreadKeys (heapRealm env) o keys h = .ok members t) :
    Follows h t ∧ MembersBelow t members := by
  induction keys generalizing h members with
  | nil =>
      cases hspread
      exact ⟨⟨hclosed, hpristine, Nat.le_refl _⟩, fun m hm => absurd hm List.not_mem_nil⟩
  | cons key keys ih =>
      rw [spreadKeys, bind_of_ok (propertyIsEnumerable_heap o key)] at hspread
      cases henumerable : ((h.objects o).getOwn key).any Property.enumerable with
      | false =>
          rw [henumerable, if_neg Bool.false_ne_true] at hspread
          exact ih hclosed hpristine ho hspread
      | true =>
          rw [henumerable, if_pos rfl] at hspread
          obtain ⟨value, u, hget, hspread⟩ := stateful_bind_ok_iff.mp hspread
          obtain ⟨rest, t', hrest, hpure⟩ := stateful_bind_ok_iff.mp hspread
          cases hpure
          obtain ⟨hfollows, hvalue⟩ := get_sound hsound hclosed hpristine ho henumerable hget
          obtain ⟨hfollows', hbelow⟩ := ih hfollows.closed hfollows.pristine
            (Nat.lt_of_lt_of_le ho hfollows.next_le) hrest
          refine ⟨hfollows'.trans hfollows, ?_⟩
          intro m hm s hs
          rcases List.mem_cons.mp hm with rfl | hm
          · exact (hvalue s hs).mono hfollows'.next_le
          · exact hbelow m hm s hs

/-- **What a spread takes over**, whatever the getters do. -/
theorem spread_sound (hsound : env.Sound) {h t : Heap} (hclosed : h.Closed) (hpristine : h.Pristine)
    {v : Unknown Address} (hbelow : v.Below h.next) {members : List (Key × Unknown Address)}
    (hspread : spread (heapRealm env) v h = .ok members t) :
    Follows h t ∧ MembersBelow t members := by
  have hfollows : Follows h h := ⟨hclosed, hpristine, Nat.le_refl _⟩
  cases v with
  | object o =>
      obtain ⟨keys, u, hkeys, hspread⟩ := stateful_bind_ok_iff.mp hspread
      cases hkeys
      exact spreadKeys_sound hsound hclosed hpristine hbelow hspread
  | string s =>
      cases hspread
      refine ⟨hfollows, ?_⟩
      intro m hm _ _
      obtain ⟨i, hi, rfl⟩ := List.mem_mapIdx.mp hm
      trivial
  | _ =>
      cases hspread
      exact ⟨hfollows, fun m hm => absurd hm List.not_mem_nil⟩

/-- The value has no own property of the names that an order sets. -/
def LacksOwn (h : Heap) (v : Unknown Address) : Prop :=
  ∀ o, v = .object o → ∀ name ∈ ["amount", "currency"],
    (h.objects o).getOwn (.string (units name)) = none

/-- The check of the two names passes. -/
theorem refuseOwn_heap {h : Heap} {names : List String}
    (hlacks : ∀ name ∈ names, (h.objects o).getOwn (.string (units name)) = none) :
    refuseOwn (heapRealm env) o names h = .ok () h := by
  induction names with
  | nil => rfl
  | cons name names ih =>
      have hown : hasOwn (heapRealm env) o (.string (units name)) h = _ := hasOwn_heap o _
      rw [hlacks name List.mem_cons_self] at hown
      rw [refuseOwn, bind_of_ok hown]
      exact ih fun name' hname' => hlacks name' (List.mem_cons_of_mem name hname')

theorem checkProperties_heap {h : Heap} {v : Unknown Address} (hlacks : LacksOwn h v) :
    checkProperties (heapRealm env) v h = .ok () h := by
  cases v with
  | object o =>
      show (if o.callable then pure () else refuseOwn (heapRealm env) o ["amount", "currency"]) h = _
      cases o.callable with
      | true => rfl
      | false =>
          rw [if_neg Bool.false_ne_true]
          exact refuseOwn_heap (hlacks o rfl)
  | _ => rfl

/-- A name with a letter is no index. -/
theorem indexKey_ne_order {name : String} (hname : name ∈ ["amount", "currency"]) (i : Nat) :
    indexKey i ≠ units name := by
  intro heq
  have hdigits : ∀ u ∈ units name, isDigit u = true := by
    rw [← heq]
    exact (natDigits_digits i).2
  have hletter : ∀ name ∈ ["amount", "currency"], ¬ ∀ u ∈ units name, isDigit u = true := by decide
  exact hletter name hname hdigits

/-- **A spread sets no name of an order** that the value does not have. -/
theorem spread_lacks {h t : Heap} {v : Unknown Address} (hlacks : LacksOwn h v)
    {members : List (Key × Unknown Address)} (hspread : spread (heapRealm env) v h = .ok members t)
    {name : String} (hname : name ∈ ["amount", "currency"]) :
    Key.string (units name) ∉ members.map Prod.fst := by
  intro hmem
  cases v with
  | object o =>
      obtain ⟨keys, u, hkeys, hspread⟩ := stateful_bind_ok_iff.mp hspread
      cases hkeys
      obtain ⟨e, he, hkey⟩ := List.mem_map.mp ((spreadKeys_sublist hspread).subset hmem)
      have hnone := hlacks o rfl name hname
      rw [← hkey] at hnone
      have hsome : (h.objects o).getOwn e.1 = some e.2 := getKey_of_mem (h.objects o).nodup he
      rw [hsome] at hnone
      cases hnone
  | string s =>
      cases hspread
      obtain ⟨m, hm, hkey⟩ := List.mem_map.mp hmem
      obtain ⟨i, hi, rfl⟩ := List.mem_mapIdx.mp hm
      have heq : indexKey i = units name := by simpa using hkey
      exact indexKey_ne_order hname i heq
  | _ =>
      cases hspread
      exact absurd hmem List.not_mem_nil

theorem stringKeys_cons_string (s : Str) (keys : List Key) :
    stringKeys (.string s :: keys) = s :: stringKeys keys := rfl

theorem stringKeys_cons_symbol (i : Nat) (keys : List Key) :
    stringKeys (.symbol i :: keys) = stringKeys keys := rfl

/-- Members that are mirrored are taken over. -/
theorem spreadKeys_of_mirrors {h : Heap} {keys : List Key} {ms : List (Str × Value Finite)}
    (hsymbols : ∀ i, Key.symbol i ∈ keys →
      ((h.objects o).getOwn (.symbol i)).any Property.enumerable = false)
    (hnames : (stringKeys keys).filter
      (fun s => ((h.objects o).getOwn (.string s)).any Property.enumerable) = ms.map Prod.fst)
    (hmembers : MirrorsMembers h SendsAs ms o) :
    ∃ members, spreadKeys (heapRealm env) o keys h = .ok members h ∧ EntriesMirror h members ms := by
  induction keys generalizing ms with
  | nil =>
      have hnil : ms = [] := List.map_eq_nil_iff.mp hnames.symm
      rw [hnil]
      exact ⟨[], rfl, .nil⟩
  | cons key keys ih =>
      have hrest : ∀ i, Key.symbol i ∈ keys →
          ((h.objects o).getOwn (.symbol i)).any Property.enumerable = false :=
        fun i hi => hsymbols i (List.mem_cons_of_mem key hi)
      rw [spreadKeys, bind_of_ok (propertyIsEnumerable_heap o key)]
      cases key with
      | symbol i =>
          rw [stringKeys_cons_symbol] at hnames
          rw [hsymbols i List.mem_cons_self, if_neg Bool.false_ne_true]
          exact ih hrest hnames hmembers
      | string s =>
          rw [stringKeys_cons_string] at hnames
          cases henumerable : ((h.objects o).getOwn (.string s)).any Property.enumerable with
          | false =>
              rw [List.filter_cons, henumerable, if_neg Bool.false_ne_true] at hnames
              rw [if_neg Bool.false_ne_true]
              exact ih hrest hnames hmembers
          | true =>
              rw [List.filter_cons, henumerable, if_pos rfl] at hnames
              cases ms with
              | nil => cases hnames
              | cons m ms =>
                  obtain ⟨name, x⟩ := m
                  rw [List.map_cons, List.cons_eq_cons] at hnames
                  obtain ⟨rfl, hnames⟩ := hnames
                  obtain ⟨⟨value, hvalue, hx⟩, hmembers⟩ := hmembers
                  obtain ⟨members, hspread, hmirror⟩ := ih hrest hnames hmembers
                  have hget : (heapRealm env).get o (.string s) h = .ok value h := get_own hvalue
                  refine ⟨(.string s, value) :: members, ?_, .cons ⟨rfl, hx⟩ hmirror⟩
                  rw [if_pos rfl, bind_of_ok hget, bind_of_ok hspread]
                  rfl

/-- **An object that is JSON is spread into its members**, and no getter runs. -/
theorem spread_of_mirrors {h : Heap} {ms : List (Str × Value Finite)} {v : Unknown Address}
    (hmirrors : Mirrors h SendsAs (.obj ms) v) :
    ∃ members, spread (heapRealm env) v h = .ok members h ∧ EntriesMirror h members ms := by
  obtain ⟨o, rfl, hplain, hnames, hmembers⟩ := hmirrors
  apply spreadKeys_of_mirrors _ hnames hmembers
  intro i hi
  have hsymbols := hplain.symbols
  unfold Obj.hasEnumerableSymbol at hsymbols
  rw [List.any_eq_false] at hsymbols
  simpa using hsymbols i (mem_symbolKeys.mpr hi)

/-- A literal is spread into its entries. -/
theorem spread_literal {h : Heap} {entries : List (Key × Unknown Address)}
    (hobject : h.objects o = literal entries) (hnodup : (entries.map Prod.fst).Nodup) :
    spread (heapRealm env) (.object o) h = .ok entries h := by
  have hkeys : (h.objects o).properties.map Prod.fst = entries.map Prod.fst := by
    rw [hobject]
    show (literalProperties entries).map Prod.fst = _
    rw [literalProperties_of_nodup hnodup, List.map_map]
    rfl
  have hspread : ∀ es : List (Key × Unknown Address),
      (∀ e ∈ es, (h.objects o).getOwn e.1 = some (.data e.2 true)) →
        spreadKeys (heapRealm env) o (es.map Prod.fst) h = .ok es h := by
    intro es hown
    induction es with
    | nil => rfl
    | cons e es ih =>
        have hvalue := hown e List.mem_cons_self
        have hget : (heapRealm env).get o e.1 h = .ok e.2 h := get_own hvalue
        rw [List.map_cons, spreadKeys, bind_of_ok (propertyIsEnumerable_heap o e.1), hvalue,
          if_pos (show (some (Property.data e.2 true)).any Property.enumerable = true from rfl),
          bind_of_ok hget, bind_of_ok (ih fun e' he' => hown e' (List.mem_cons_of_mem e he'))]
        rfl
  have hownKeys : (heapRealm env).ownKeys o h = .ok (entries.map Prod.fst) h := by
    rw [← hkeys]
    rfl
  show ((heapRealm env).ownKeys o >>= spreadKeys (heapRealm env) o) h = _
  rw [bind_of_ok hownKeys]
  apply hspread
  intro e he
  rw [hobject, literal_getOwn hnodup, getKey_of_mem hnodup he]
  rfl

/-- New objects change nothing about the JSON of what was taken over. -/
theorem entriesMirror_agree {t t' : Heap} (hclosed : t.Closed) (hagree : Agree t t')
    {members : List (Key × Unknown Address)} (hbelow : MembersBelow t members)
    {ms : List (Str × Value Finite)} :
    EntriesMirror t' members ms ↔ EntriesMirror t members ms := by
  unfold EntriesMirror
  induction members generalizing ms with
  | nil => rw [List.forall₂_nil_left_iff, List.forall₂_nil_left_iff]
  | cons m members ih =>
      have hrest : MembersBelow t members := fun m' hm' => hbelow m' (List.mem_cons_of_mem m hm')
      cases ms with
      | nil => exact iff_of_false (fun h => nomatch h) fun h => nomatch h
      | cons m' ms =>
          rw [List.forall₂_cons, List.forall₂_cons, ih hrest]
          apply and_congr_left
          intro _
          apply and_congr_right
          intro hkey
          exact mirrors_agree hclosed hagree (hbelow m List.mem_cons_self _ hkey)

end Spreads

/-! ## §4. Heaps as realms. -/

/-- The object is a literal of these entries, with no key twice. -/
structure IsLiteral (o : Address) (entries : List (Key × Unknown Address)) (h : Heap) : Prop where
  callable : o.callable = false
  allocated : o.index < h.next
  object : h.objects o = literal entries
  nodup : (entries.map Prod.fst).Nodup

/-- A question leaves a heap as it is. -/
theorem asked_heap {env : Environment} {p : Address} {h t : Heap} (hasked : Asked (heapRealm env) p h t) :
    t = h := by
  cases hasked with
  | ownKeys hanswer =>
      cases hanswer
      rfl
  | getOwnProperty hanswer =>
      cases hanswer
      rfl
  | getPrototypeOf hanswer =>
      cases hanswer
      rfl
  | isArray hanswer =>
      cases hanswer
      rfl
  | belowLength hanswer =>
      cases hanswer
      rfl

/-- **The literals of a heap** list their properties as they were put. -/
theorem heapRealm_makesLiterals (env : Environment) :
    (heapRealm env).MakesLiterals id Heap.Pristine IsLiteral where
  nodup o h keys t hkeys := by
    cases hkeys
    exact (h.objects o).nodup
  perm _ := List.Perm.refl _
  appended _ _ _ _ := rfl
  ready _ _ hpristine := push_pristine hpristine
  fresh _ h _ hnodup := ⟨rfl, Nat.lt_succ_self h.next, push_objects_new, hnodup⟩
  kept o entries more h hliteral := by
    have hkept : (h.push more).objects o = h.objects o := agree_push o hliteral.allocated
    exact ⟨hliteral.callable, Nat.lt_succ_of_lt hliteral.allocated, hkept.trans hliteral.object,
      hliteral.nodup⟩
  others _ _ _ _ _ _ hasked hliteral := asked_heap hasked ▸ hliteral
  callable _ _ _ hliteral := hliteral.callable
  get _ _ _ hpristine hliteral := readsFields_literal env hliteral.object hliteral.nodup hpristine
  ownKeys o entries h hliteral := by
    show EStateM.Result.ok ((h.objects o).properties.map Prod.fst) h = _
    rw [hliteral.object]
    show EStateM.Result.ok ((literalProperties entries).map Prod.fst) h = _
    rw [literalProperties_of_nodup hliteral.nodup, List.map_map]
    rfl
  getOwnProperty o entries h hliteral key := by
    rw [getOwnProperty_heap, hliteral.object, literal_getOwn hliteral.nodup, Option.map_map]
    rfl
  getPrototypeOf o entries h hliteral := by
    rw [getPrototypeOf_heap, hliteral.object]
    rfl
  isArray o entries h hliteral := by
    rw [isArray_heap, hliteral.object]
    rfl

/-- On a heap a value gives the JSON that it is, and changes nothing. -/
theorem yields_heap_iff {env : Environment} {h t : Heap} {w : Value Finite} {v : Unknown Address} :
    Yields (heapRealm env) w [] v h t ↔ Mirrors h SendsAs w v ∧ t = h := by
  constructor
  · intro hyields
    have hcopied : copyJsonValue (heapRealm env) (w.nesting + 1) [] v (units "properties") h = _ :=
      copyJsonValue_of_yields (Nat.lt_succ_self w.nesting) hyields
    exact mirrors_of_copyJsonValue hcopied
  · intro hboth
    obtain ⟨hmirrors, rfl⟩ := hboth
    have hcopied : copyJsonValue (heapRealm env) (w.nesting + 1) [] v (units "properties") t = _ :=
      copyJsonValue_of_mirrors (Nat.lt_succ_self w.nesting) hmirrors
    exact (yields_of_copyJsonValue hcopied).2

end CekatEvents.Node
