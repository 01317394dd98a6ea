/-
  CekatEvents.Node.Reading — the JSON that a value gives when it is asked.

  In any realm an object is known by its answers, and an answer may change the state, a proxy's trap
  above all.  `Yields R w ancestors value s t` says that the value, asked from the state `s` on and
  standing inside the ancestors, gives the JSON `w` and leaves the state `t`: the elements of an array
  without other enumerable properties, the members of an object of no class, each as a property with a
  value.  It speaks of questions and answers, not of a copier or of the room on its stack.

    * `copyJsonValue_of_yields` — with room enough the copier gives the JSON;
    * `yields_of_copyJsonValue` — and whatever it gives is the JSON;
    * `Yields.unique`           — a value gives one JSON, and leaves one state.
-/
import CekatEvents.Effects.Stateful
import CekatEvents.JsonText.Encode
import CekatEvents.Node.Validation

namespace CekatEvents.Node

open CekatEvents.Arithmetic CekatEvents.Effects CekatEvents.Encoding CekatEvents.JsonText

/-! ## §1. Questions and answers. -/

section Relation

variable {ι σ : Type} (R : Realm ι σ)

/-- The object is no function, does not stand inside itself, and has no enumerable symbol. -/
def Enters (ancestors : List ι) (o : ι) (s t : σ) : Prop :=
  R.callable o = false ∧ o ∉ ancestors ∧ hasEnumerableSymbol R o s = .ok false t

/-- The keys are the indices of elements. -/
def Indices (o : ι) : List Str → σ → σ → Prop
  | [], s, t => s = t
  | key :: keys, s, t => indexKey (natValue key) = key ∧ natValue key ≤ maxSafeInteger ∧
      ∃ u, R.belowLength (natValue key) o s = .ok true u ∧ Indices o keys u t

/-- An array with no enumerable property beside its elements. -/
def OpensArray (ancestors : List ι) (o : ι) (s t : σ) : Prop :=
  ∃ u v x keys, Enters R ancestors o s u ∧ R.isArray o u = .ok true v ∧
    objectKeys R o v = .ok keys x ∧ Indices R o keys x t

/-- An object of no class, with these enumerable keys. -/
def OpensObject (ancestors : List ι) (o : ι) (keys : List Str) (s t : σ) : Prop :=
  ∃ u v x prototype, Enters R ancestors o s u ∧ R.isArray o u = .ok false v ∧
    R.getPrototypeOf o v = .ok prototype x ∧
    (prototype = some R.objectPrototype ∨ prototype = none) ∧ objectKeys R o x = .ok keys t

mutual
/-- **The value gives the JSON**, asked in the first state, and leaves the second. -/
def Yields : Value Finite → List ι → Unknown ι → σ → σ → Prop
  | .null, _, value, s, t => value = .null ∧ s = t
  | .bool b, _, value, s, t => value = .boolean b ∧ s = t
  | .num y, _, value, s, t => (∃ x, value = .number x ∧ x.portable? = some y) ∧ s = t
  | .str text, _, value, s, t => value = .string text ∧ s = t
  | .arr xs, ancestors, value, s, t => xs.length ≤ maxArrayLength ∧ ∃ o u, value = .object o ∧
      OpensArray R ancestors o s u ∧ YieldsElems xs (o :: ancestors) o 0 u t
  | .obj ms, ancestors, value, s, t => ∃ o u, value = .object o ∧
      OpensObject R ancestors o (ms.map Prod.fst) s u ∧ YieldsMembers ms (o :: ancestors) o u t
/-- The elements of an array give the JSON, from an index on. -/
def YieldsElems : List (Value Finite) → List ι → ι → Nat → σ → σ → Prop
  | [], _, o, index, s, t => R.belowLength index o s = .ok false t
  | x :: xs, ancestors, o, index, s, t => ∃ value u v z, R.belowLength index o s = .ok true u ∧
      R.getOwnProperty o (.string (indexKey index)) u = .ok (some (.data value true)) v ∧
      Yields x ancestors value v z ∧ YieldsElems xs ancestors o (index + 1) z t
/-- The members of an object give the JSON. -/
def YieldsMembers : List (Str × Value Finite) → List ι → ι → σ → σ → Prop
  | [], _, _, s, t => s = t
  | (key, x) :: ms, ancestors, o, s, t => ∃ value enumerable u v,
      R.getOwnProperty o (.string key) s = .ok (some (.data value enumerable)) u ∧
      Yields x ancestors value u v ∧ YieldsMembers ms ancestors o v t
end

end Relation

section Values

variable {ι σ : Type} {R : Realm ι σ} {w : Value Finite} {ancestors : List ι} {s t : σ}

/-- Nothing gives no JSON. -/
theorem defined_of_yields {value : Unknown ι} (h : Yields R w ancestors value s t) :
    value.isUndefined = false := by
  cases w with
  | null =>
      rw [h.1]
      rfl
  | bool b =>
      rw [h.1]
      rfl
  | str text =>
      rw [h.1]
      rfl
  | num y =>
      obtain ⟨⟨x, rfl, -⟩, -⟩ := h
      rfl
  | arr xs =>
      obtain ⟨-, o, u, rfl, -⟩ := h
      rfl
  | obj ms =>
      obtain ⟨o, u, rfl, -⟩ := h
      rfl

theorem yields_number_iff {x : Double} :
    Yields R w ancestors (.number x) s t ↔ (∃ y, w = .num y ∧ x.portable? = some y) ∧ s = t := by
  constructor
  · intro h
    cases w with
    | num y =>
        obtain ⟨⟨x', hx, hy⟩, hst⟩ := h
        cases hx
        exact ⟨⟨y, rfl, hy⟩, hst⟩
    | null => cases h.1
    | bool b => cases h.1
    | str text => cases h.1
    | arr xs =>
        obtain ⟨-, o, u, ho, -⟩ := h
        cases ho
    | obj ms =>
        obtain ⟨o, u, ho, -⟩ := h
        cases ho
  · intro h
    obtain ⟨⟨y, rfl, hy⟩, hst⟩ := h
    exact ⟨⟨x, rfl, hy⟩, hst⟩

theorem yields_string_iff {text : Str} :
    Yields R w ancestors (.string text) s t ↔ w = .str text ∧ s = t := by
  constructor
  · intro h
    cases w with
    | str text' =>
        obtain ⟨htext, hst⟩ := h
        cases htext
        exact ⟨rfl, hst⟩
    | null => cases h.1
    | bool b => cases h.1
    | num y =>
        obtain ⟨⟨x, hx, -⟩, -⟩ := h
        cases hx
    | arr xs =>
        obtain ⟨-, o, u, ho, -⟩ := h
        cases ho
    | obj ms =>
        obtain ⟨o, u, ho, -⟩ := h
        cases ho
  · intro h
    obtain ⟨rfl, hst⟩ := h
    exact ⟨rfl, hst⟩

end Values

/-! ## §2. What the copier gives. -/

section Copier

variable {ι σ : Type} {R : Realm ι σ} {o : ι} {s t : σ} {path : Str}

theorem pure_ok_iff {α : Type} {a a' : α} :
    (pure a : JS ι σ α) s = .ok a' t ↔ a = a' ∧ s = t := by
  show EStateM.Result.ok a s = .ok a' t ↔ _
  rw [EStateM.Result.ok.injEq]

theorem isArrayIndex_ok_iff {key : Str} :
    isArrayIndex R key o s = .ok true t ↔
      indexKey (natValue key) = key ∧ natValue key ≤ maxSafeInteger ∧
        R.belowLength (natValue key) o s = .ok true t := by
  unfold isArrayIndex
  rw [stateful_bind_ok_iff]
  constructor
  · intro h
    obtain ⟨below, u, hbelow, h⟩ := h
    obtain ⟨htrue, rfl⟩ := pure_ok_iff.mp h
    rw [Bool.and_eq_true, decide_eq_true_eq] at htrue
    rw [htrue.1] at hbelow
    exact ⟨htrue.2.1, htrue.2.2, hbelow⟩
  · intro h
    obtain ⟨hkey, hsafe, hbelow⟩ := h
    refine ⟨true, t, hbelow, pure_ok_iff.mpr ⟨?_, rfl⟩⟩
    rw [Bool.true_and, decide_eq_true_eq]
    exact ⟨hkey, hsafe⟩

theorem requireIndices_ok_iff {keys : List Str} :
    requireIndices R o path keys s = .ok () t ↔ Indices R o keys s t := by
  induction keys generalizing s with
  | nil =>
      unfold requireIndices Indices
      rw [pure_ok_iff]
      exact and_iff_right rfl
  | cons key keys ih =>
      rw [requireIndices, Indices, stateful_bind_ok_iff]
      constructor
      · intro h
        obtain ⟨isIndex, u, hindex, h⟩ := h
        cases isIndex with
        | false => cases h
        | true =>
            obtain ⟨hkey, hsafe, hbelow⟩ := isArrayIndex_ok_iff.mp hindex
            exact ⟨hkey, hsafe, u, hbelow, ih.mp h⟩
      · intro h
        obtain ⟨hkey, hsafe, u, hbelow, h⟩ := h
        exact ⟨true, u, isArrayIndex_ok_iff.mpr ⟨hkey, hsafe, hbelow⟩, ih.mpr h⟩

variable {copy : Copier ι σ} {ancestors ancestors' : List ι}

/-- What a copier does with the ancestors and the state. -/
def CopierYields (R : Realm ι σ) (copy : Copier ι σ) : Prop :=
  ∀ {ancestors ancestors' value path s t w}, copy ancestors value path s = .ok (w, ancestors') t →
    ancestors' = ancestors ∧ Yields R w ancestors value s t

theorem yields_of_copyElements (hcopy : CopierYields R copy) {room index : Nat}
    {xs : List (Value Finite)}
    (h : copyElements R copy o path room index ancestors s = .ok (xs, ancestors') t) :
    ancestors' = ancestors ∧ xs.length ≤ room ∧ YieldsElems R xs ancestors o index s t := by
  induction room generalizing index ancestors ancestors' s t xs with
  | zero =>
      rw [copyElements] at h
      obtain ⟨below, u, hbelow, h⟩ := stateful_bind_ok_iff.mp h
      cases below with
      | false =>
          obtain ⟨hpair, rfl⟩ := pure_ok_iff.mp h
          cases hpair
          exact ⟨rfl, Nat.le_refl _, hbelow⟩
      | true =>
          rw [if_pos rfl] at h
          obtain ⟨descriptor, v, -, h⟩ := stateful_bind_ok_iff.mp h
          split at h
          · -- the array is full
            obtain ⟨first, z, -, h⟩ := stateful_bind_ok_iff.mp h
            cases h
          · cases h
  | succ room ih =>
      rw [copyElements] at h
      obtain ⟨below, u, hbelow, h⟩ := stateful_bind_ok_iff.mp h
      cases below with
      | false =>
          obtain ⟨hpair, rfl⟩ := pure_ok_iff.mp h
          cases hpair
          exact ⟨rfl, Nat.zero_le _, hbelow⟩
      | true =>
          rw [if_pos rfl] at h
          obtain ⟨descriptor, v, hproperty, h⟩ := stateful_bind_ok_iff.mp h
          split at h
          · rename_i value
            obtain ⟨⟨x, inner⟩, z, hfirst, h⟩ := stateful_bind_ok_iff.mp h
            obtain ⟨hinner, hx⟩ := hcopy hfirst
            dsimp only at h
            obtain ⟨⟨rest, outer⟩, y, hrest, h⟩ := stateful_bind_ok_iff.mp h
            obtain ⟨hpair, rfl⟩ := pure_ok_iff.mp h
            cases hpair
            -- the next element starts with the ancestors that the first one leaves
            rw [hinner] at hrest
            obtain ⟨rfl, hlength, hrest⟩ := ih hrest
            exact ⟨rfl, Nat.succ_le_succ hlength, value, u, v, z, hbelow, hproperty, hx, hrest⟩
          · cases h

theorem yields_of_copyMembers (hcopy : CopierYields R copy) {keys : List Str}
    {ms : List (Str × Value Finite)}
    (h : copyMembers R copy o path keys ancestors s = .ok (ms, ancestors') t) :
    ancestors' = ancestors ∧ ms.map Prod.fst = keys ∧ YieldsMembers R ms ancestors o s t := by
  induction keys generalizing ancestors ancestors' s t ms with
  | nil =>
      rw [copyMembers] at h
      obtain ⟨hpair, rfl⟩ := pure_ok_iff.mp h
      cases hpair
      exact ⟨rfl, rfl, rfl⟩
  | cons key keys ih =>
      rw [copyMembers] at h
      obtain ⟨descriptor, u, hproperty, h⟩ := stateful_bind_ok_iff.mp h
      split at h
      · rename_i value enumerable
        obtain ⟨⟨x, inner⟩, v, hfirst, h⟩ := stateful_bind_ok_iff.mp h
        obtain ⟨hinner, hx⟩ := hcopy hfirst
        dsimp only at h
        obtain ⟨⟨rest, outer⟩, z, hrest, h⟩ := stateful_bind_ok_iff.mp h
        obtain ⟨hpair, rfl⟩ := pure_ok_iff.mp h
        cases hpair
        rw [hinner] at hrest
        obtain ⟨rfl, hkeys, hrest⟩ := ih hrest
        exact ⟨rfl, by rw [List.map_cons, hkeys], value, enumerable, u, v, hproperty, hx, hrest⟩
      · cases h

/-- The copier gives this JSON wherever a value does. -/
def Copies (R : Realm ι σ) (copy : Copier ι σ) (w : Value Finite) : Prop :=
  ∀ {ancestors value path s t}, Yields R w ancestors value s t →
    copy ancestors value path s = .ok (w, ancestors) t

theorem copyElements_of_yields {xs : List (Value Finite)}
    (hcopy : ∀ x ∈ xs, Copies R copy x) {room index : Nat} (hroom : xs.length ≤ room)
    (h : YieldsElems R xs ancestors o index s t) :
    copyElements R copy o path room index ancestors s = .ok (xs, ancestors) t := by
  induction xs generalizing room index s with
  | nil =>
      rw [copyElements.eq_def]
      show (R.belowLength index o >>= _) s = _
      rw [bind_of_ok h]
      rfl
  | cons x xs ih =>
      obtain ⟨room, rfl⟩ : ∃ r, room = r + 1 := ⟨room - 1, by rw [List.length_cons] at hroom; omega⟩
      obtain ⟨value, u, v, z, hbelow, hproperty, hx, hrest⟩ := h
      have hfirst : copy ancestors value (elementPath path index) v = _ :=
        hcopy x List.mem_cons_self hx
      have hlater := ih (fun y hy => hcopy y (List.mem_cons_of_mem x hy)) (Nat.le_of_succ_le_succ hroom)
        hrest
      rw [copyElements, bind_of_ok hbelow, if_pos rfl, bind_of_ok hproperty]
      dsimp only
      rw [bind_of_ok hfirst]
      dsimp only
      rw [bind_of_ok hlater]
      rfl

theorem copyMembers_of_yields {ms : List (Str × Value Finite)}
    (hcopy : ∀ m ∈ ms, Copies R copy m.2) (h : YieldsMembers R ms ancestors o s t) :
    copyMembers R copy o path (ms.map Prod.fst) ancestors s = .ok (ms, ancestors) t := by
  induction ms generalizing s with
  | nil =>
      obtain rfl : s = t := h
      rfl
  | cons m ms ih =>
      obtain ⟨key, x⟩ := m
      obtain ⟨value, enumerable, u, v, hproperty, hx, hrest⟩ := h
      have hfirst : copy ancestors value (propertyPath path key) u = _ :=
        hcopy (key, x) List.mem_cons_self hx
      have hlater := ih (fun m hm => hcopy m (List.mem_cons_of_mem _ hm)) hrest
      rw [List.map_cons, copyMembers, bind_of_ok hproperty]
      dsimp only
      rw [bind_of_ok hfirst]
      dsimp only
      rw [bind_of_ok hlater]
      rfl

variable [DecidableEq ι]

theorem yields_of_copyObject (hcopy : CopierYields R copy) {w : Value Finite}
    (hcallable : R.callable o = false) (hfresh : o ∉ ancestors)
    (h : copyObject R copy (o :: ancestors) o path s = .ok (w, ancestors') t) :
    ancestors' = o :: ancestors ∧ Yields R w ancestors (.object o) s t := by
  unfold copyObject at h
  obtain ⟨symbol, u, hsymbol, h⟩ := stateful_bind_ok_iff.mp h
  cases symbol with
  | true => cases h
  | false =>
      rw [if_neg Bool.false_ne_true] at h
      obtain ⟨isArray, v, harray, h⟩ := stateful_bind_ok_iff.mp h
      cases isArray with
      | true =>
          rw [if_pos rfl] at h
          obtain ⟨keys, x, hkeys, h⟩ := stateful_bind_ok_iff.mp h
          obtain ⟨passed, y, hindices, h⟩ := stateful_bind_ok_iff.mp h
          obtain ⟨⟨xs, inner⟩, z, hcopied, h⟩ := stateful_bind_ok_iff.mp h
          obtain ⟨hpair, rfl⟩ := pure_ok_iff.mp h
          cases hpair
          obtain ⟨rfl, hlength, helements⟩ := yields_of_copyElements hcopy hcopied
          exact ⟨rfl, hlength, o, y, rfl, ⟨u, v, x, keys, ⟨hcallable, hfresh, hsymbol⟩, harray, hkeys,
            requireIndices_ok_iff.mp hindices⟩, helements⟩
      | false =>
          rw [if_neg Bool.false_ne_true] at h
          obtain ⟨prototype, x, hprototype, h⟩ := stateful_bind_ok_iff.mp h
          split_ifs at h with hplain
          · obtain ⟨keys, y, hkeys, h⟩ := stateful_bind_ok_iff.mp h
            obtain ⟨⟨ms, inner⟩, z, hcopied, h⟩ := stateful_bind_ok_iff.mp h
            obtain ⟨hpair, rfl⟩ := pure_ok_iff.mp h
            cases hpair
            obtain ⟨rfl, rfl, hmembers⟩ := yields_of_copyMembers hcopy hcopied
            exact ⟨rfl, o, y, rfl, ⟨u, v, x, prototype, ⟨hcallable, hfresh, hsymbol⟩, harray, hprototype,
              hplain, hkeys⟩, hmembers⟩
          · cases h

end Copier

section Reading

variable {ι σ : Type} [DecidableEq ι] {R : Realm ι σ} {s t : σ} {ancestors ancestors' : List ι}
  {value : Unknown ι} {w : Value Finite} {frames : Nat} {path : Str}

/-- An ancestor is taken out again. -/
theorem filter_ne_cons {o : ι} (hfresh : o ∉ ancestors) :
    (o :: ancestors).filter (· ≠ o) = ancestors := by
  rw [List.filter_cons_of_neg (by simp)]
  apply List.filter_eq_self.mpr
  intro p hp
  rw [decide_eq_true_eq]
  intro heq
  exact hfresh (heq ▸ hp)

/-- **What the copier gives is the JSON of the value**, and the ancestors are as they were. -/
theorem yields_of_copyJsonValue
    (h : copyJsonValue R frames ancestors value path s = .ok (w, ancestors') t) :
    ancestors' = ancestors ∧ Yields R w ancestors value s t := by
  induction frames generalizing ancestors ancestors' value path s t w with
  | zero => cases h
  | succ frames ih =>
      have hleaf : ∀ {x : Value Finite}, (pure (x, ancestors) : JS ι σ _) s = .ok (w, ancestors') t →
          ancestors' = ancestors ∧ w = x ∧ s = t := by
        intro x hx
        obtain ⟨hpair, hst⟩ := pure_ok_iff.mp hx
        cases hpair
        exact ⟨rfl, rfl, hst⟩
      cases value with
      | null =>
          obtain ⟨rfl, rfl, hst⟩ := hleaf h
          exact ⟨rfl, rfl, hst⟩
      | boolean b =>
          obtain ⟨rfl, rfl, hst⟩ := hleaf h
          exact ⟨rfl, rfl, hst⟩
      | string text =>
          obtain ⟨rfl, rfl, hst⟩ := hleaf h
          exact ⟨rfl, rfl, hst⟩
      | number x =>
          rw [copyJsonValue] at h
          cases hx : x.portable? with
          | none =>
              rw [hx] at h
              cases h
          | some y =>
              rw [hx] at h
              obtain ⟨rfl, rfl, hst⟩ := hleaf h
              exact ⟨rfl, ⟨x, rfl, hx⟩, hst⟩
      | object o =>
          rw [copyJsonValue] at h
          split_ifs at h with hcallable hcycle
          · cases h
          · cases h
          · -- the object is an ancestor while its parts are copied, and none afterwards
            obtain ⟨⟨x, inner⟩, u, hobject, h⟩ := stateful_bind_ok_iff.mp h
            obtain ⟨hpair, rfl⟩ := pure_ok_iff.mp h
            cases hpair
            obtain ⟨rfl, hyields⟩ := yields_of_copyObject ih (by simpa using hcallable) hcycle hobject
            exact ⟨filter_ne_cons hcycle, hyields⟩
      | undefined => cases h
      | bigint n => cases h
      | symbol i => cases h

/-- **With room enough the copier gives the JSON of the value.** -/
theorem copyJsonValue_of_yields (hframes : w.nesting < frames) (h : Yields R w ancestors value s t) :
    copyJsonValue R frames ancestors value path s = .ok (w, ancestors) t := by
  induction w using Value.induction generalizing frames ancestors value path s t with
  | null =>
      obtain ⟨frames, rfl⟩ : ∃ n, frames = n + 1 := ⟨frames - 1, by omega⟩
      obtain ⟨rfl, rfl⟩ := h
      rfl
  | bool b =>
      obtain ⟨frames, rfl⟩ : ∃ n, frames = n + 1 := ⟨frames - 1, by omega⟩
      obtain ⟨rfl, rfl⟩ := h
      rfl
  | str text =>
      obtain ⟨frames, rfl⟩ : ∃ n, frames = n + 1 := ⟨frames - 1, by omega⟩
      obtain ⟨rfl, rfl⟩ := h
      rfl
  | num y =>
      obtain ⟨frames, rfl⟩ : ∃ n, frames = n + 1 := ⟨frames - 1, by omega⟩
      obtain ⟨⟨x, rfl, hx⟩, rfl⟩ := h
      rw [copyJsonValue, hx]
      rfl
  | arr xs ih =>
      obtain ⟨frames, rfl⟩ : ∃ n, frames = n + 1 := ⟨frames - 1, by omega⟩
      obtain ⟨hlength, o, u, rfl, ⟨a, b, c, keys, ⟨hcallable, hfresh, hsymbol⟩, harray, hkeys, hindices⟩,
        helements⟩ := h
      have hcopy : ∀ x ∈ xs, Copies R (copyJsonValue R frames) x := by
        intro x hx ancestors value path s t hyields
        have hle : x.nesting < (Value.arr xs).nesting := Nat.lt_succ_of_le (valuesNesting_le.mp le_rfl x hx)
        exact ih x hx (by omega) hyields
      rw [copyJsonValue, if_neg (by rw [hcallable]; exact Bool.false_ne_true), if_neg hfresh]
      have hobject : copyObject R (copyJsonValue R frames) (o :: ancestors) o path s
          = .ok (.arr xs, o :: ancestors) t := by
        unfold copyObject
        rw [bind_of_ok hsymbol, if_neg Bool.false_ne_true, bind_of_ok harray, if_pos rfl,
          bind_of_ok hkeys, bind_of_ok (requireIndices_ok_iff.mpr hindices),
          bind_of_ok (copyElements_of_yields hcopy hlength helements)]
        rfl
      rw [bind_of_ok hobject]
      dsimp only
      rw [filter_ne_cons hfresh]
      rfl
  | obj ms ih =>
      obtain ⟨frames, rfl⟩ : ∃ n, frames = n + 1 := ⟨frames - 1, by omega⟩
      obtain ⟨o, u, rfl, ⟨a, b, c, prototype, ⟨hcallable, hfresh, hsymbol⟩, harray, hprototype, hplain,
        hkeys⟩, hmembers⟩ := h
      have hcopy : ∀ m ∈ ms, Copies R (copyJsonValue R frames) m.2 := by
        intro m hm ancestors value path s t hyields
        have hle : m.2.nesting < (Value.obj ms).nesting := Nat.lt_succ_of_le (membersNesting_le.mp le_rfl m hm)
        exact ih m hm (by omega) hyields
      rw [copyJsonValue, if_neg (by rw [hcallable]; exact Bool.false_ne_true), if_neg hfresh]
      have hobject : copyObject R (copyJsonValue R frames) (o :: ancestors) o path s
          = .ok (.obj ms, o :: ancestors) t := by
        unfold copyObject
        rw [bind_of_ok hsymbol, if_neg Bool.false_ne_true, bind_of_ok harray, if_neg Bool.false_ne_true,
          bind_of_ok hprototype, if_pos hplain, bind_of_ok hkeys,
          bind_of_ok (copyMembers_of_yields hcopy hmembers)]
        rfl
      rw [bind_of_ok hobject]
      dsimp only
      rw [filter_ne_cons hfresh]
      rfl

/-- **A value gives one JSON**, and leaves one state. -/
theorem Yields.unique {w' : Value Finite} {t' : σ} (h : Yields R w ancestors value s t)
    (h' : Yields R w' ancestors value s t') : w = w' ∧ t = t' := by
  have hcopied : copyJsonValue R _ ancestors value [] s = _ :=
    copyJsonValue_of_yields (Nat.lt_succ_of_le (Nat.le_max_left _ w'.nesting)) h
  have hcopied' : copyJsonValue R _ ancestors value [] s = _ :=
    copyJsonValue_of_yields (Nat.lt_succ_of_le (Nat.le_max_right w.nesting _)) h'
  rw [hcopied, EStateM.Result.ok.injEq, Prod.mk.injEq] at hcopied'
  exact ⟨hcopied'.1.1, hcopied'.2⟩

end Reading

end CekatEvents.Node
