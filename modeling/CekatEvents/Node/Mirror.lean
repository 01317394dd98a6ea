/-
  CekatEvents.Node.Mirror — the JSON of a JavaScript value.

  `Mirrors h N w v` says that the tree `w` is the JSON of the value `v` on the heap `h`: the elements
  of a plain array one after another, the enumerable members of a plain object by their names, `N` being
  when a number stands for a number.  It speaks of trees and heaps only, not of a copier.

    * `mirrors_acyclic`         — no tree mirrors a value from which a cycle is reached;
    * `copyJsonValue_copies`    — as long as the stack holds, the copier gives the tree that mirrors the value;
    * `copyJsonValue_refuses`   — and where there is none it ends with a `ValidationError`;
    * `copyJsonValue_overflows` — where the stack does not hold it ends with a `RangeError`.
-/
import CekatEvents.JsonText.Quote
import CekatEvents.Node.Properties
import CekatEvents.Payload.Number
import Mathlib.Logic.Relation

namespace CekatEvents.Node

open CekatEvents.Arithmetic CekatEvents.Effects CekatEvents.Encoding CekatEvents.Graph
  CekatEvents.JsonText CekatEvents.Payload

/-! ## §1. The JSON of a value. -/

/-- An array of so many elements, with no enumerable property beside its elements. -/
structure IsPlainArray (h : Heap) (o : Address) (n : Nat) : Prop where
  callable : o.callable = false
  length : (h.objects o).length = some n
  symbols : (h.objects o).hasEnumerableSymbol = false
  keys : (h.objects o).enumerableKeys.all (h.objects o).isIndex = true

/-- An object that is no array and no function, of no class, and without enumerable symbols. -/
structure IsPlainObject (h : Heap) (o : Address) : Prop where
  callable : o.callable = false
  length : (h.objects o).length = none
  symbols : (h.objects o).hasEnumerableSymbol = false
  prototype : (h.objects o).prototype = some objectPrototype ∨ (h.objects o).prototype = none

/-- The property has an enumerable value. -/
def HasValue (h : Heap) (o : Address) (key : Str) (value : Unknown Address) : Prop :=
  (h.objects o).getOwn (.string key) = some (.data value true)

section Mirrors

variable {ν : Type} (h : Heap) (N : Double → ν → Prop)

mutual
/-- **The tree is the JSON of the value.** -/
def Mirrors : Value ν → Unknown Address → Prop
  | .null, v => v = .null
  | .bool b, v => v = .boolean b
  | .num n, v => ∃ x, v = .number x ∧ N x n
  | .str s, v => v = .string s
  | .arr xs, v => ∃ o, v = .object o ∧ IsPlainArray h o xs.length ∧ MirrorsElems xs o 0
  | .obj ms, v => ∃ o, v = .object o ∧ IsPlainObject h o ∧
      (h.objects o).enumerableKeys = ms.map Prod.fst ∧ MirrorsMembers ms o
/-- The trees are the JSON of the elements from an index on. -/
def MirrorsElems : List (Value ν) → Address → Nat → Prop
  | [], _, _ => True
  | x :: xs, o, i =>
      (∃ value, HasValue h o (indexKey i) value ∧ Mirrors x value) ∧ MirrorsElems xs o (i + 1)
/-- The trees are the JSON of the members. -/
def MirrorsMembers : List (Str × Value ν) → Address → Prop
  | [], _ => True
  | (key, x) :: ms, o => (∃ value, HasValue h o key value ∧ Mirrors x value) ∧ MirrorsMembers ms o
end

end Mirrors

/-- The trees that a value has. -/
theorem mirrors_cases {ν : Type} {h : Heap} {N : Double → ν → Prop} {w : Value ν}
    {v : Unknown Address} (hmirrors : Mirrors h N w v) : match v with
      | .null => w = .null
      | .boolean b => w = .bool b
      | .number x => ∃ n, w = .num n ∧ N x n
      | .string s => w = .str s
      | .object o => (∃ n, (h.objects o).length = some n) ∨ ∃ ms, w = .obj ms
      | _ => False := by
  cases w with
  | num n =>
      obtain ⟨x, rfl, hx⟩ := hmirrors
      exact ⟨n, rfl, hx⟩
  | arr xs =>
      obtain ⟨o, rfl, hplain, -⟩ := hmirrors
      exact .inl ⟨_, hplain.length⟩
  | obj ms =>
      obtain ⟨o, rfl, -⟩ := hmirrors
      exact .inr ⟨ms, rfl⟩
  | null =>
      cases hmirrors
      rfl
  | bool b =>
      cases hmirrors
      rfl
  | str s =>
      cases hmirrors
      rfl

section Kinds

variable {ν : Type} {h : Heap} {N : Double → ν → Prop} {w : Value ν}

theorem mirrors_number {x : Double} (hmirrors : Mirrors h N w (.number x)) :
    ∃ n, w = .num n ∧ N x n :=
  mirrors_cases hmirrors

theorem mirrors_string {s : Str} (hmirrors : Mirrors h N w (.string s)) : w = .str s :=
  mirrors_cases hmirrors

theorem defined_of_mirrors {v : Unknown Address} (hmirrors : Mirrors h N w v) :
    v.isUndefined = false := by
  cases v with
  | undefined => exact absurd (mirrors_cases hmirrors) id
  | _ => rfl

/-- What an object mirrors is no array. -/
theorem length_of_mirrors_obj {ms : List (Str × Value ν)} {v : Unknown Address}
    (hmirrors : Mirrors h N (.obj ms) v) : ∃ o, v = .object o ∧ (h.objects o).length = none := by
  obtain ⟨o, rfl, hplain, -⟩ := hmirrors
  exact ⟨o, rfl, hplain.length⟩

/-- An object that is no array is mirrored by objects only. -/
theorem obj_of_mirrors {o : Address} (hmirrors : Mirrors h N w (.object o))
    (hlength : (h.objects o).length = none) : ∃ ms, w = .obj ms := by
  rcases mirrors_cases hmirrors with ⟨n, harray⟩ | hobject
  · rw [harray] at hlength
    cases hlength
  · exact hobject

end Kinds

/-- A number that is sent as it is. -/
def SendsAs (x : Double) (y : Finite) : Prop := x.portable? = some y

/-! ## §2. Mirrors and unfolded graphs. -/

section Unfolded

variable {h : Heap} {o : Address}

theorem entryOf_clean_iff {step : Step} {property : Option Property} :
    (entryOf step property).Clean ↔ ∃ value, property = some (.data value true) := by
  unfold entryOf Entry.Clean
  constructor
  · intro hclean
    split at hclean
    · exact ⟨_, rfl⟩
    · cases hclean.1
  · intro hvalue
    obtain ⟨value, rfl⟩ := hvalue
    exact ⟨rfl, rfl⟩

/-- Entries that are all clean are those of values. -/
theorem mirrorsElems_of_entries {P : Unknown Address → Value Finite → Prop}
    (hP : ∀ v w, P v w → Mirrors h SendsAs w v) {index left : Nat} {ws : List (Value Finite)}
    (hclean : ∀ e ∈ (List.range' index left).map fun i =>
      entryOf (.index i) ((h.objects o).getOwn (.string (indexKey i))), e.Clean)
    (hws : List.Forall₂ (fun e w => P e.item w) ((List.range' index left).map fun i =>
      entryOf (.index i) ((h.objects o).getOwn (.string (indexKey i)))) ws) :
    ws.length = left ∧ MirrorsElems h SendsAs ws o index := by
  induction left generalizing index ws with
  | zero =>
      cases hws
      exact ⟨rfl, trivial⟩
  | succ left ih =>
      rw [List.range'_succ, List.map_cons] at hclean hws
      cases hws with
      | cons hfirst hrest =>
          obtain ⟨hlength, hmirrors⟩ := ih (fun e he => hclean e (List.mem_cons_of_mem _ he)) hrest
          obtain ⟨value, hvalue⟩ := entryOf_clean_iff.mp (hclean _ List.mem_cons_self)
          rw [hvalue] at hfirst
          exact ⟨by rw [List.length_cons, hlength], ⟨value, hvalue, hP _ _ hfirst⟩, hmirrors⟩

theorem mirrorsMembers_of_entries {P : Unknown Address → Value Finite → Prop}
    (hP : ∀ v w, P v w → Mirrors h SendsAs w v) {keys : List Str} {ws : List (Value Finite)}
    (hclean : ∀ e ∈ keys.map fun key => entryOf (.key key) ((h.objects o).getOwn (.string key)), e.Clean)
    (hws : List.Forall₂ (fun e w => P e.item w)
      (keys.map fun key => entryOf (.key key) ((h.objects o).getOwn (.string key))) ws) :
    keys = (keys.zip ws).map Prod.fst ∧ MirrorsMembers h SendsAs (keys.zip ws) o := by
  induction keys generalizing ws with
  | nil =>
      cases hws
      exact ⟨rfl, trivial⟩
  | cons key keys ih =>
      rw [List.map_cons] at hclean hws
      cases hws with
      | cons hfirst hrest =>
          obtain ⟨hkeys, hmirrors⟩ := ih (fun e he => hclean e (List.mem_cons_of_mem _ he)) hrest
          obtain ⟨value, hvalue⟩ := entryOf_clean_iff.mp (hclean _ List.mem_cons_self)
          rw [hvalue] at hfirst
          refine ⟨?_, ⟨value, hvalue, hP _ _ hfirst⟩, hmirrors⟩
          rw [List.zip_cons_cons, List.map_cons, ← hkeys]

/-- What a value unfolds to mirrors it. -/
theorem mirrors_of_unfolds {n : Nat} {v : Unknown Address} {w : Value Finite}
    (hunfolds : Unfolds (graph h) n v w) : Mirrors h SendsAs w v := by
  induction n generalizing v w with
  | zero => exact absurd hunfolds id
  | succ n ih =>
      rcases hunfolds with hleaf | ⟨ident, entries, build, ws, hshape, hclean, hws, rfl⟩
      · cases v with
        | null =>
            cases hleaf
            rfl
        | boolean b =>
            cases hleaf
            rfl
        | string s =>
            cases hleaf
            rfl
        | number x =>
            rw [shape_number] at hleaf
            cases hx : x.portable? with
            | none => simp [hx] at hleaf
            | some y =>
                simp only [hx, Shape.leaf.injEq, Except.ok.injEq] at hleaf
                rw [← hleaf]
                exact ⟨x, rfl, hx⟩
        | object o =>
            rw [shape_object] at hleaf
            split_ifs at hleaf
            cases hleaf
        | _ => cases hleaf
      · obtain ⟨o, rfl, hcallable, -, hopening, rfl, rfl⟩ := shape_node_iff.mp hshape
        obtain ⟨hsymbols, hkind⟩ := opening_eq_none_iff.mp hopening.symm
        unfold Obj.entries at hclean hws
        unfold Obj.build
        cases hlength : (h.objects o).length with
        | some n =>
            rw [hlength] at hkind
            simp only [hlength, List.range_eq_range'] at hclean hws
            obtain ⟨hlen, hmirrors⟩ := mirrorsElems_of_entries (fun _ _ hw => ih hw) hclean hws
            exact ⟨o, rfl, ⟨hcallable, by rw [hlength, hlen], hsymbols, hkind⟩, hmirrors⟩
        | none =>
            rw [hlength] at hkind
            simp only [hlength] at hclean hws
            obtain ⟨hkeys, hmirrors⟩ := mirrorsMembers_of_entries (fun _ _ hw => ih hw) hclean hws
            exact ⟨o, rfl, ⟨hcallable, hlength, hsymbols, hkind⟩, hkeys, hmirrors⟩

/-- Elements that are mirrored are entries that unfold. -/
theorem entries_of_mirrorsElems {P : Unknown Address → Value Finite → Prop} {xs : List (Value Finite)}
    (hP : ∀ x ∈ xs, ∀ v, Mirrors h SendsAs x v → P v x) {index : Nat}
    (hmirrors : MirrorsElems h SendsAs xs o index) :
    (∀ e ∈ (List.range' index xs.length).map fun i =>
      entryOf (.index i) ((h.objects o).getOwn (.string (indexKey i))), e.Clean) ∧
    List.Forall₂ (fun e w => P e.item w) ((List.range' index xs.length).map fun i =>
      entryOf (.index i) ((h.objects o).getOwn (.string (indexKey i)))) xs := by
  induction xs generalizing index with
  | nil => exact ⟨fun e he => absurd he List.not_mem_nil, .nil⟩
  | cons x xs ih =>
      obtain ⟨⟨value, hvalue, hx⟩, hrest⟩ := hmirrors
      obtain ⟨hclean, hws⟩ := ih (fun y hy => hP y (List.mem_cons_of_mem x hy)) hrest
      have hvalue : (h.objects o).getOwn (.string (indexKey index)) = some (.data value true) := hvalue
      rw [List.length_cons, List.range'_succ, List.map_cons, hvalue]
      refine ⟨List.forall_mem_cons.mpr ⟨entryOf_clean_iff.mpr ⟨value, rfl⟩, hclean⟩, .cons ?_ hws⟩
      exact hP x List.mem_cons_self value hx

theorem entries_of_mirrorsMembers {P : Unknown Address → Value Finite → Prop}
    {ms : List (Str × Value Finite)} (hP : ∀ m ∈ ms, ∀ v, Mirrors h SendsAs m.2 v → P v m.2)
    (hmirrors : MirrorsMembers h SendsAs ms o) :
    (∀ e ∈ (ms.map Prod.fst).map fun key => entryOf (.key key) ((h.objects o).getOwn (.string key)),
      e.Clean) ∧
    List.Forall₂ (fun e w => P e.item w)
      ((ms.map Prod.fst).map fun key => entryOf (.key key) ((h.objects o).getOwn (.string key)))
      (ms.map Prod.snd) := by
  induction ms with
  | nil => exact ⟨fun e he => absurd he List.not_mem_nil, .nil⟩
  | cons m ms ih =>
      obtain ⟨key, x⟩ := m
      obtain ⟨⟨value, hvalue, hx⟩, hrest⟩ := hmirrors
      obtain ⟨hclean, hws⟩ := ih (fun y hy => hP y (List.mem_cons_of_mem _ hy)) hrest
      have hvalue : (h.objects o).getOwn (.string key) = some (.data value true) := hvalue
      rw [List.map_cons, List.map_cons, List.map_cons, hvalue]
      refine ⟨List.forall_mem_cons.mpr ⟨entryOf_clean_iff.mpr ⟨value, rfl⟩, hclean⟩, .cons ?_ hws⟩
      exact hP _ List.mem_cons_self value hx

/-- **What mirrors a value it unfolds to.** -/
theorem unfolds_of_mirrors {v : Unknown Address} {w : Value Finite} (hmirrors : Mirrors h SendsAs w v) :
    Unfolds (graph h) (w.nesting + 1) v w := by
  induction w using Value.induction generalizing v with
  | null =>
      cases hmirrors
      exact .inl rfl
  | bool b =>
      cases hmirrors
      exact .inl rfl
  | num y =>
      obtain ⟨x, rfl, hx⟩ := hmirrors
      have hx : x.portable? = some y := hx
      left
      rw [shape_number, hx]
  | str s =>
      cases hmirrors
      exact .inl rfl
  | arr xs ih =>
      obtain ⟨o, rfl, hplain, helems⟩ := hmirrors
      have hlevels : ∀ x ∈ xs, ∀ v, Mirrors h SendsAs x v →
          Unfolds (graph h) (Value.arr xs).nesting v x := by
        intro x hx v hv
        have hle := valuesNesting_le.mp (Nat.le_refl (valuesNesting xs)) x hx
        exact (ih x hx hv).mono (Nat.succ_le_succ hle)
      obtain ⟨hclean, hws⟩ := entries_of_mirrorsElems hlevels helems
      have hopening : (h.objects o).opening = none := by
        rw [opening_eq_none_iff, hplain.length]
        exact ⟨hplain.symbols, hplain.keys⟩
      right
      refine ⟨_, _, _, xs, shape_node_iff.mpr
        ⟨o, rfl, hplain.callable, rfl, hopening.symm, rfl, rfl⟩, ?_, ?_, ?_⟩
      · unfold Obj.entries
        rw [hplain.length]
        simp only [List.range_eq_range']
        exact hclean
      · unfold Obj.entries
        rw [hplain.length]
        simp only [List.range_eq_range']
        exact hws
      · unfold Obj.build
        rw [hplain.length]
  | obj ms ih =>
      obtain ⟨o, rfl, hplain, hkeys, hmembers⟩ := hmirrors
      have hlevels : ∀ m ∈ ms, ∀ v, Mirrors h SendsAs m.2 v →
          Unfolds (graph h) (Value.obj ms).nesting v m.2 := by
        intro m hm v hv
        have hle := membersNesting_le.mp (Nat.le_refl (membersNesting ms)) m hm
        exact (ih m hm hv).mono (Nat.succ_le_succ hle)
      obtain ⟨hclean, hws⟩ := entries_of_mirrorsMembers hlevels hmembers
      have hopening : (h.objects o).opening = none := by
        rw [opening_eq_none_iff, hplain.length]
        exact ⟨hplain.symbols, hplain.prototype⟩
      right
      refine ⟨_, _, _, ms.map Prod.snd, shape_node_iff.mpr
        ⟨o, rfl, hplain.callable, rfl, hopening.symm, rfl, rfl⟩, ?_, ?_, ?_⟩
      · unfold Obj.entries
        rw [hplain.length]
        simp only [hkeys]
        exact hclean
      · unfold Obj.entries
        rw [hplain.length]
        simp only [hkeys]
        exact hws
      · unfold Obj.build
        rw [hplain.length]
        simp only [hkeys]
        rw [← List.unzip_fst, ← List.unzip_snd, List.zip_unzip]

end Unfolded

/-! ## §3. Cycles. -/

/-- The second value is one of an enumerable property of the first. -/
def Child (h : Heap) (v y : Unknown Address) : Prop := ∃ o key, v = .object o ∧ HasValue h o key y

/-- A cycle is reached from the value. -/
def Cyclic (h : Heap) (v : Unknown Address) : Prop :=
  ∃ o, Relation.ReflTransGen (Child h) v (.object o) ∧
    Relation.TransGen (Child h) (.object o) (.object o)

section Cycles

variable {ν : Type} {h : Heap} {N : Double → ν → Prop}

theorem mem_enumerableKeys {o : Address} {key : Str} {value : Unknown Address}
    (hvalue : HasValue h o key value) : key ∈ (h.objects o).enumerableKeys := by
  have hown : (h.objects o).getOwn (.string key) = some (.data value true) := hvalue
  apply List.mem_filter.mpr
  refine ⟨?_, by rw [hown]; rfl⟩
  have hmem : Key.string key ∈ (h.objects o).properties.map Prod.fst := by
    unfold Obj.getOwn getKey at hown
    obtain ⟨e, he, -⟩ := Option.map_eq_some_iff.mp hown
    have hkey := List.find?_some he
    simp only [beq_iff_eq] at hkey
    exact List.mem_map.mpr ⟨e, List.mem_of_find?_eq_some he, hkey⟩
  exact List.mem_filterMap.mpr ⟨_, hmem, rfl⟩

/-- The element of an index below the length is mirrored. -/
theorem mirrorsElems_get {xs : List (Value ν)} {o : Address} {index : Nat}
    (hmirrors : MirrorsElems h N xs o index) {i : Nat} (hi : i < xs.length) :
    ∃ x ∈ xs, ∃ value, HasValue h o (indexKey (index + i)) value ∧ Mirrors h N x value := by
  induction xs generalizing index i with
  | nil => exact absurd hi (Nat.not_lt_zero i)
  | cons x xs ih =>
      obtain ⟨⟨value, hvalue, hx⟩, hrest⟩ := hmirrors
      cases i with
      | zero => exact ⟨x, List.mem_cons_self, value, hvalue, hx⟩
      | succ i =>
          obtain ⟨y, hy, value', hvalue', hmirror⟩ := ih hrest (Nat.lt_of_succ_lt_succ hi)
          rw [Nat.add_right_comm] at hvalue'
          exact ⟨y, List.mem_cons_of_mem x hy, value', hvalue', hmirror⟩

theorem mirrorsMembers_get {ms : List (Str × Value ν)} {o : Address}
    (hmirrors : MirrorsMembers h N ms o) {key : Str} (hkey : key ∈ ms.map Prod.fst) :
    ∃ m ∈ ms, ∃ value, HasValue h o key value ∧ Mirrors h N m.2 value := by
  induction ms with
  | nil => exact absurd hkey List.not_mem_nil
  | cons m ms ih =>
      obtain ⟨k, x⟩ := m
      obtain ⟨⟨value, hvalue, hx⟩, hrest⟩ := hmirrors
      rcases List.mem_cons.mp hkey with rfl | hkey
      · exact ⟨(key, x), List.mem_cons_self, value, hvalue, hx⟩
      · obtain ⟨m, hm, value', hvalue', hmirror⟩ := ih hrest hkey
        exact ⟨m, List.mem_cons_of_mem _ hm, value', hvalue', hmirror⟩

/-- An element of the tree mirrors something. -/
theorem mirrorsElems_mem {xs : List (Value ν)} {o : Address} {index : Nat}
    (hmirrors : MirrorsElems h N xs o index) {x : Value ν} (hx : x ∈ xs) :
    ∃ value, Mirrors h N x value := by
  induction xs generalizing index with
  | nil => exact absurd hx List.not_mem_nil
  | cons y xs ih =>
      obtain ⟨⟨value, -, hy⟩, hrest⟩ := hmirrors
      rcases List.mem_cons.mp hx with rfl | hx
      · exact ⟨value, hy⟩
      · exact ih hrest hx

theorem mirrorsMembers_mem {ms : List (Str × Value ν)} {o : Address}
    (hmirrors : MirrorsMembers h N ms o) {m : Str × Value ν} (hm : m ∈ ms) :
    ∃ value, Mirrors h N m.2 value := by
  induction ms with
  | nil => exact absurd hm List.not_mem_nil
  | cons m' ms ih =>
      obtain ⟨key, x⟩ := m'
      obtain ⟨⟨value, -, hx⟩, hrest⟩ := hmirrors
      rcases List.mem_cons.mp hm with rfl | hm
      · exact ⟨value, hx⟩
      · exact ih hrest hm

/-- **What is reached from a value is mirrored by a part of its tree.** -/
theorem mirrors_child {w : Value ν} {v y : Unknown Address} (hmirrors : Mirrors h N w v)
    (hchild : Child h v y) : ∃ w', Mirrors h N w' y ∧ w'.nesting < w.nesting := by
  obtain ⟨o, key, rfl, hvalue⟩ := hchild
  have hkey := mem_enumerableKeys hvalue
  cases w with
  | arr xs =>
      obtain ⟨o', ho, hplain, helems⟩ := hmirrors
      cases ho
      have hindex := List.all_eq_true.mp hplain.keys key hkey
      unfold Obj.isIndex at hindex
      rw [hplain.length, Bool.and_eq_true, decide_eq_true_eq] at hindex
      obtain ⟨hlt, hdecimal, -⟩ := hindex
      simp only [Option.any_some, decide_eq_true_eq] at hlt
      obtain ⟨x, hx, value, hvalue', hmirror⟩ := mirrorsElems_get helems hlt
      rw [Nat.zero_add, hdecimal] at hvalue'
      have hsame : value = y := by
        have heq := hvalue'.symm.trans hvalue
        simpa using heq
      rw [hsame] at hmirror
      have hle := valuesNesting_le.mp (Nat.le_refl (valuesNesting xs)) x hx
      exact ⟨x, hmirror, Nat.lt_succ_of_le hle⟩
  | obj ms =>
      obtain ⟨o', ho, hplain, hkeys, hmembers⟩ := hmirrors
      cases ho
      rw [hkeys] at hkey
      obtain ⟨m, hm, value, hvalue', hmirror⟩ := mirrorsMembers_get hmembers hkey
      have hsame : value = y := by
        have heq := hvalue'.symm.trans hvalue
        simpa using heq
      rw [hsame] at hmirror
      have hle := membersNesting_le.mp (Nat.le_refl (membersNesting ms)) m hm
      exact ⟨m.2, hmirror, Nat.lt_succ_of_le hle⟩
  | null => cases hmirrors
  | bool b => cases hmirrors
  | str s => cases hmirrors
  | num n =>
      obtain ⟨x, hx, -⟩ := hmirrors
      cases hx

/-- **No tree mirrors a value from which a cycle is reached.** -/
theorem mirrors_acyclic {w : Value ν} {v : Unknown Address} (hmirrors : Mirrors h N w v) :
    ¬ Cyclic h v := by
  have hstep : ∀ {v y : Unknown Address}, Relation.TransGen (Child h) v y →
      ∀ w, Mirrors h N w v → ∃ w', Mirrors h N w' y ∧ w'.nesting < w.nesting := by
    intro v y hreach
    induction hreach with
    | single hchild => exact fun w hw => mirrors_child hw hchild
    | tail _ hchild ih =>
        intro w hw
        obtain ⟨u, hu, hlt⟩ := ih w hw
        obtain ⟨u', hu', hlt'⟩ := mirrors_child hu hchild
        exact ⟨u', hu', Nat.lt_trans hlt' hlt⟩
  intro hcyclic
  obtain ⟨o, hreach, hcycle⟩ := hcyclic
  obtain ⟨u, hu⟩ : ∃ u, Mirrors h N u (.object o) := by
    rcases Relation.reflTransGen_iff_eq_or_transGen.mp hreach with heq | hreach
    · exact ⟨w, heq ▸ hmirrors⟩
    · obtain ⟨u, hu, -⟩ := hstep hreach w hmirrors
      exact ⟨u, hu⟩
  -- each turn of the cycle would need a smaller tree
  induction hn : u.nesting using Nat.strong_induction_on generalizing u with
  | _ n ih =>
      obtain ⟨u', hu', hlt⟩ := hstep hcycle u hu
      exact ih _ (hn ▸ hlt) u' hu' rfl

end Cycles

/-! ## §4. The copier. -/

theorem graph_identified (h : Heap) : Identified (graph h) := by
  intro x y i opening opening' entries entries' build build' hx hy
  obtain ⟨o, rfl, -, ho, -⟩ := shape_node_iff.mp hx
  obtain ⟨o', rfl, -, ho', -⟩ := shape_node_iff.mp hy
  cases ho
  cases ho'
  rfl

/-- No address from `n` on occurs in the value. -/
def Unknown.Below (n : Nat) : Unknown Address → Prop
  | .object o => o.index < n
  | _ => True

/-- **A finite heap**: the values of the objects below `next` are below it. -/
def Heap.Closed (h : Heap) : Prop :=
  ∀ o : Address, o.index < h.next → ∀ key value, HasValue h o key value → value.Below h.next

/-- The addresses of objects below `next` that are no functions. -/
def Heap.addresses (h : Heap) : Finset Address := (Finset.range h.next).image fun i => ⟨i, false⟩

theorem entryOf_below {n : Nat} {step : Step} {property : Option Property}
    (hproperty : ∀ value, property = some (.data value true) → value.Below n) :
    (entryOf step property).item.Below n := by
  unfold entryOf
  split
  · exact hproperty _ rfl
  · trivial

theorem entryOf_ne_tooDeep {step : Step} {property : Option Property} {f : Fault}
    (hfault : (entryOf step property).before = some f ∨ (entryOf step property).after = some f) :
    f ≠ .tooDeep := by
  unfold entryOf at hfault
  rintro rfl
  split at hfault <;> simp at hfault

/-- The entries of an object are those of its properties. -/
theorem entries_mem {obj : Obj} {e : Entry (Unknown Address) Step Fault} (he : e ∈ obj.entries) :
    ∃ step key, e = entryOf step (obj.getOwn (.string key)) := by
  unfold Obj.entries at he
  split at he
  · obtain ⟨i, -, rfl⟩ := List.mem_map.mp he
    exact ⟨_, _, rfl⟩
  · obtain ⟨key, -, rfl⟩ := List.mem_map.mp he
    exact ⟨_, _, rfl⟩

theorem graph_ownFaults (h : Heap) : OwnFaults (graph h) where
  leaf := by
    intro v f hshape
    cases v with
    | object o =>
        rw [shape_object] at hshape
        split_ifs at hshape
        cases hshape
        exact Fault.noConfusion
    | number x =>
        rw [shape_number] at hshape
        cases hx : x.portable? with
        | none =>
            rw [hx] at hshape
            cases hshape
            exact Fault.noConfusion
        | some y =>
            rw [hx] at hshape
            cases hshape
    | null => cases hshape
    | boolean b => cases hshape
    | string s => cases hshape
    | _ =>
        cases hshape
        exact Fault.noConfusion
  opening := by
    intro v ident f entries build hshape
    obtain ⟨o, rfl, -, -, hopening, -⟩ := shape_node_iff.mp hshape
    rintro rfl
    unfold Obj.opening at hopening
    have htooDeep : (graph h).tooDeep = .tooDeep := rfl
    rw [htooDeep] at hopening
    split_ifs at hopening <;> cases hopening
  entry := by
    intro v ident opening entries build hshape e he f hfault
    obtain ⟨o, rfl, -, -, -, rfl, -⟩ := shape_node_iff.mp hshape
    obtain ⟨step, key, rfl⟩ := entries_mem he
    exact entryOf_ne_tooDeep hfault
  cyclic := Fault.noConfusion

theorem graph_finite {h : Heap} (hclosed : h.Closed) :
    FiniteOn (graph h) h.addresses (Unknown.Below h.next) where
  toOwnFaults := graph_ownFaults h
  ident := by
    intro v ident opening entries build hv hshape
    obtain ⟨o, rfl, hcallable, rfl, -⟩ := shape_node_iff.mp hshape
    refine ⟨o, Finset.mem_image.mpr ⟨o.index, Finset.mem_range.mpr hv, ?_⟩, rfl⟩
    rw [← hcallable]
  child := by
    intro v ident opening entries build hv hshape e he
    obtain ⟨o, rfl, -, -, -, rfl, -⟩ := shape_node_iff.mp hshape
    obtain ⟨step, key, rfl⟩ := entries_mem he
    exact entryOf_below fun value hvalue => hclosed o hv key value hvalue

theorem card_addresses (h : Heap) : h.addresses.card ≤ h.next := by
  have hle : h.addresses.card ≤ (Finset.range h.next).card := Finset.card_image_le
  rwa [Finset.card_range] at hle

/-- **The stack overflows on the value**: the first thing that is wrong, in the order in which the copier goes
    through it, is that there is no frame left. -/
def Overflows (h : Heap) (frames : Nat) (v : Unknown Address) : Prop :=
  ∃ path, First (graph h) frames [] [] v (path, .tooDeep)

/-- On a finite heap it never does with more frames than there are objects. -/
theorem not_overflows_of_closed {h : Heap} (hclosed : h.Closed) {v : Unknown Address}
    (hv : v.Below h.next) {frames : Nat} (hframes : h.next < frames) : ¬ Overflows h frames v := by
  rintro ⟨path, hfirst⟩
  refine walk_ne_tooDeep (graph_finite hclosed) ?_ List.nodup_nil ?_ hv path (walk_error_iff.mpr hfirst)
  · intro i hi
    exact absurd hi List.not_mem_nil
  · have hcard := card_addresses h
    simp only [List.length_nil]
    omega

section Copies

variable {env : Environment} {h : Heap} {frames : Nat} {v : Unknown Address}

/-- **The copier copies what is mirrored**, given the frames. -/
theorem copyJsonValue_of_mirrors {w : Value Finite} (hframes : w.nesting < frames)
    (hmirrors : Mirrors h SendsAs w v) :
    copyJsonValue (heapRealm env) frames [] v (units "properties") h = .ok (w, []) h := by
  have hwalk : walk (graph h) frames [] [] v = .ok w :=
    walk_of_unfolds (graph_identified h) hframes (unfolds_of_mirrors hmirrors)
  have heq := copyJsonValue_eq env h frames [] v []
  rw [visit_eq, hwalk] at heq
  exact heq

/-- **What it copies is mirrored**, and the heap is as it was. -/
theorem mirrors_of_copyJsonValue {w : Value Finite} {ancestors : List Address} {t : Heap}
    (hcopy : copyJsonValue (heapRealm env) frames [] v (units "properties") h = .ok (w, ancestors) t) :
    Mirrors h SendsAs w v ∧ t = h := by
  have heq := copyJsonValue_eq env h frames [] v []
  rw [visit_eq] at heq
  rw [show pathText [] = units "properties" from rfl, hcopy] at heq
  cases hwalk : walk (graph h) frames [] [] v with
  | error fault =>
      rw [hwalk] at heq
      cases heq
  | ok w' =>
      rw [hwalk] at heq
      cases heq
      exact ⟨mirrors_of_unfolds (unfolds_of_walk hwalk), rfl⟩

/-- As long as the stack holds, the number of frames does not matter. -/
theorem copyJsonValue_copies (hroom : ¬ Overflows h frames v) {w : Value Finite}
    (hmirrors : Mirrors h SendsAs w v) :
    copyJsonValue (heapRealm env) frames [] v (units "properties") h = .ok (w, []) h := by
  -- what the tree needs is enough, and what is enough changes nothing
  have hdeep : walk (graph h) (max frames (w.nesting + 1)) [] [] v = .ok w :=
    walk_of_unfolds (graph_identified h) (Nat.le_max_right _ _) (unfolds_of_mirrors hmirrors)
  have hstable : walk (graph h) (max frames (w.nesting + 1)) [] [] v = walk (graph h) frames [] [] v :=
    walk_stable (Nat.le_max_left _ _) fun path htooDeep => hroom ⟨path, walk_error_iff.mp htooDeep⟩
  have heq := copyJsonValue_eq env h frames [] v []
  rw [visit_eq, ← hstable, hdeep] at heq
  exact heq

/-- **What has no copy is refused**, as long as the stack holds. -/
theorem copyJsonValue_refuses (hroom : ¬ Overflows h frames v) (hnone : ∀ w, ¬ Mirrors h SendsAs w v) :
    ∃ message, copyJsonValue (heapRealm env) frames [] v (units "properties") h
      = .error (.validation message) h := by
  have heq := copyJsonValue_eq env h frames [] v []
  rw [visit_eq] at heq
  rw [show pathText [] = units "properties" from rfl] at heq
  cases hwalk : walk (graph h) frames [] [] v with
  | ok w => exact absurd (mirrors_of_unfolds (unfolds_of_walk hwalk)) (hnone w)
  | error fault =>
      rw [hwalk] at heq
      obtain ⟨path, f⟩ := fault
      cases f with
      | tooDeep => exact absurd ⟨path, walk_error_iff.mp hwalk⟩ hroom
      | invalid => exact ⟨_, heq⟩
      | invalidAt step => exact ⟨_, heq⟩
      | cycle => exact ⟨_, heq⟩

/-- **A stack that overflows ends the copier with a `RangeError`.** -/
theorem copyJsonValue_overflows (h' : Overflows h frames v) :
    copyJsonValue (heapRealm env) frames [] v (units "properties") h = .error .rangeError h := by
  obtain ⟨path, hfirst⟩ := h'
  have heq := copyJsonValue_eq env h frames [] v []
  rw [visit_eq, walk_error_iff.mpr hfirst] at heq
  exact heq

end Copies

/-! ## §5. The text of a copy. -/

/-- The numeral is read as the number, which is portable; zero may lose its sign. -/
def ReadsAs (x : Double) (n : Numeral) : Prop :=
  x.Portable ∧ ∃ y z, x = .finite y ∧ readDouble n = .finite z ∧ z.value = y.value

section Text

variable {ν μ : Type} {h : Heap}

theorem mirrorsElems_map {N : Double → ν → Prop} {N' : Double → μ → Prop} {f : ν → μ}
    {xs : List (Value ν)}
    (hxs : ∀ x ∈ xs, ∀ v, Mirrors h N x v → Mirrors h N' (x.map f) v) {o : Address} {index : Nat}
    (hmirrors : MirrorsElems h N xs o index) : MirrorsElems h N' (mapElems f xs) o index := by
  induction xs generalizing index with
  | nil => trivial
  | cons x xs ih =>
      obtain ⟨⟨value, hvalue, hx⟩, hrest⟩ := hmirrors
      exact ⟨⟨value, hvalue, hxs x List.mem_cons_self value hx⟩,
        ih (fun y hy => hxs y (List.mem_cons_of_mem x hy)) hrest⟩

theorem mirrorsMembers_map {N : Double → ν → Prop} {N' : Double → μ → Prop} {f : ν → μ}
    {ms : List (Str × Value ν)}
    (hms : ∀ m ∈ ms, ∀ v, Mirrors h N m.2 v → Mirrors h N' (m.2.map f) v) {o : Address}
    (hmirrors : MirrorsMembers h N ms o) : MirrorsMembers h N' (mapMembers f ms) o := by
  induction ms with
  | nil => trivial
  | cons m ms ih =>
      obtain ⟨key, x⟩ := m
      obtain ⟨⟨value, hvalue, hx⟩, hrest⟩ := hmirrors
      exact ⟨⟨value, hvalue, hms _ List.mem_cons_self value hx⟩,
        ih (fun y hy => hms y (List.mem_cons_of_mem _ hy)) hrest⟩

/-- Other numbers that stand for the same ones. -/
theorem mirrors_map {N : Double → ν → Prop} {N' : Double → μ → Prop} {f : ν → μ}
    (hN : ∀ x n, N x n → N' x (f n)) {w : Value ν} {v : Unknown Address}
    (hmirrors : Mirrors h N w v) : Mirrors h N' (w.map f) v := by
  induction w using Value.induction generalizing v with
  | null => exact hmirrors
  | bool b => exact hmirrors
  | num n =>
      obtain ⟨x, rfl, hx⟩ := hmirrors
      exact ⟨x, rfl, hN x n hx⟩
  | str s => exact hmirrors
  | arr xs ih =>
      obtain ⟨o, rfl, hplain, helems⟩ := hmirrors
      refine ⟨o, rfl, ?_, mirrorsElems_map (fun x hx v hv => ih x hx hv) helems⟩
      rw [mapElems_eq_map, List.length_map]
      exact hplain
  | obj ms ih =>
      obtain ⟨o, rfl, hplain, hkeys, hmembers⟩ := hmirrors
      refine ⟨o, rfl, hplain, ?_, mirrorsMembers_map (fun m hm v hv => ih m hm hv) hmembers⟩
      rw [hkeys, mapMembers_eq_map, List.map_map]
      rfl

theorem enumerableKeys_nodup (obj : Obj) : obj.enumerableKeys.Nodup := by
  have hstrings : (stringKeys (obj.properties.map Prod.fst)).Nodup := by
    apply obj.nodup.filterMap
    intro key key' s hkey hkey'
    cases key <;> cases key' <;> simp_all
  exact hstrings.filter _

/-- No name repeats in what mirrors a value. -/
theorem mirrors_distinct {N : Double → ν → Prop} {w : Value ν} {v : Unknown Address}
    (hmirrors : Mirrors h N w v) : w.Distinct := by
  induction w using Value.induction generalizing v with
  | null => trivial
  | bool b => trivial
  | num n => trivial
  | str s => trivial
  | arr xs ih =>
      obtain ⟨o, rfl, hplain, helems⟩ := hmirrors
      apply eachElem_iff.mpr
      intro x hx
      obtain ⟨value, hvalue⟩ := mirrorsElems_mem helems hx
      exact ih x hx hvalue
  | obj ms ih =>
      obtain ⟨o, rfl, hplain, hkeys, hmembers⟩ := hmirrors
      refine ⟨?_, eachMember_iff.mpr ?_⟩
      · rw [← hkeys]
        exact enumerableKeys_nodup _
      · intro m hm
        obtain ⟨value, hvalue⟩ := mirrorsMembers_mem hmembers hm
        exact ⟨trivial, ih m hm hvalue⟩

/-- **The text of a copy is read as the value that was copied.** -/
theorem stringify_mirrors {floats : FloatText} (hfloats : floats.ReadsBack) {w : Value Finite}
    {v : Unknown Address} (hmirrors : Mirrors h SendsAs w v) :
    ∃ u, DecodesTo (stringify floats.text w) u ∧ Mirrors h ReadsAs u v := by
  refine ⟨w.map floats.text, stringify_decodesTo floats.wellFormed (mirrors_distinct hmirrors), ?_⟩
  apply mirrors_map _ hmirrors
  intro x y hxy
  obtain ⟨rfl, hportable⟩ := portable?_eq_some_iff.mp (show x.portable? = some y from hxy)
  obtain ⟨z, hz, hvalue⟩ := hfloats y
  exact ⟨hportable, y, z, rfl, hz, hvalue⟩

end Text

end CekatEvents.Node
