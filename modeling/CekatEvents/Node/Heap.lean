/-
  CekatEvents.Node.Heap — a realm of plain objects.

  Objects that are no proxies answer from a heap: own properties in their order, with values or with
  getters, a prototype, and a length when they are arrays.  Only a getter runs code, and that may do
  anything to the heap; what the built-in dates and clocks answer does not depend on it.
-/
import CekatEvents.Effects.Stateful
import CekatEvents.JsonText.Entries
import CekatEvents.Node.Validation

namespace CekatEvents.Node

open CekatEvents.Effects CekatEvents.Encoding CekatEvents.JsonText

/-! ## §1. Objects. -/

/-- The identity of an object, which tells whether it is a function. -/
structure Address where
  index : Nat
  callable : Bool
  deriving DecidableEq

/-- An own property: with a value, or with a getter where there is one. -/
inductive Property where
  | data (value : Unknown Address) (enumerable : Bool)
  | accessor (getter : Option Address) (enumerable : Bool)

def Property.descriptor : Property → Descriptor Address
  | .data value enumerable => .data value enumerable
  | .accessor _ enumerable => .accessor enumerable

/-- An object; no key is there twice, and an array is not too long. -/
structure Obj where
  prototype : Option Address
  length : Option Nat
  properties : List (Key × Property)
  nodup : (properties.map Prod.fst).Nodup
  length_le : ∀ n ∈ length, n ≤ maxArrayLength

/-- The property of a key. -/
def Obj.getOwn (obj : Obj) (key : Key) : Option Property := getKey obj.properties key

/-- The property is enumerable. -/
def Property.enumerable (p : Property) : Bool := p.descriptor.enumerable

/-- The keys of enumerable properties that are strings. -/
def Obj.enumerableKeys (obj : Obj) : List Str :=
  (stringKeys (obj.properties.map Prod.fst)).filter fun s => (obj.getOwn (.string s)).any Property.enumerable

theorem Obj.enumerable_of_mem (obj : Obj) :
    ∀ s ∈ obj.enumerableKeys, (obj.getOwn (.string s)).any Property.enumerable = true := by
  intro s hs
  exact (List.mem_filter.mp hs).2

/-- A symbol is the key of an enumerable property. -/
def Obj.hasEnumerableSymbol (obj : Obj) : Bool :=
  (symbolKeys (obj.properties.map Prod.fst)).any fun i =>
    (obj.getOwn (.symbol i)).any Property.enumerable

/-- `Object.prototype`. -/
def objectPrototype : Address := ⟨0, false⟩

/-- The properties of a literal, one after another. -/
def literalProperties (entries : List (Key × Unknown Address)) : List (Key × Property) :=
  entries.foldl (fun properties e => putKey properties e.1 (.data e.2 true)) []

theorem literalProperties_nodup (entries : List (Key × Unknown Address)) :
    ((literalProperties entries).map Prod.fst).Nodup := by
  have hfold : ∀ (m : List (Key × Property)), (m.map Prod.fst).Nodup →
      ((entries.foldl (fun properties e => putKey properties e.1 (.data e.2 true)) m).map
        Prod.fst).Nodup := by
    induction entries with
    | nil => exact fun _ h => h
    | cons e entries ih => exact fun m h => ih _ (putKey_nodup h _ _)
  exact hfold [] List.nodup_nil

/-- What is no array has no length to bound. -/
theorem noLength_le : ∀ n ∈ (none : Option Nat), n ≤ maxArrayLength := by
  intro n h
  cases h

/-- The object of a literal. -/
def literal (entries : List (Key × Unknown Address)) : Obj where
  prototype := some objectPrototype
  length := none
  properties := literalProperties entries
  nodup := literalProperties_nodup entries
  length_le := noLength_le

/-- Keys that are all different make as many properties. -/
theorem literalProperties_of_nodup {entries : List (Key × Unknown Address)}
    (hnodup : (entries.map Prod.fst).Nodup) :
    literalProperties entries = entries.map fun e => (e.1, .data e.2 true) := by
  have hfold : ∀ m : List (Key × Property), (m.map Prod.fst ++ entries.map Prod.fst).Nodup →
      entries.foldl (fun properties e => putKey properties e.1 (.data e.2 true)) m
        = m ++ entries.map fun e => (e.1, .data e.2 true) := by
    clear hnodup
    induction entries with
    | nil => exact fun m _ => (List.append_nil m).symm
    | cons e entries ih =>
        intro m hm
        rw [List.map_cons] at hm
        have hfresh : e.1 ∉ m.map Prod.fst := by
          intro hmem
          exact (List.nodup_append.mp hm).2.2 e.1 hmem e.1 List.mem_cons_self rfl
        rw [List.foldl_cons, putKey_of_fresh _ hfresh, ih, List.map_cons, List.append_assoc]
        · rfl
        · rw [List.map_append, List.append_assoc]
          exact hm
  exact hfold [] hnodup

theorem literal_getOwn {entries : List (Key × Unknown Address)} (hnodup : (entries.map Prod.fst).Nodup)
    (key : Key) : (literal entries).getOwn key = (getKey entries key).map fun v => .data v true := by
  show getKey (literalProperties entries) key = _
  rw [literalProperties_of_nodup hnodup]
  clear hnodup
  induction entries with
  | nil => rfl
  | cons e entries ih =>
      rw [List.map_cons, getKey_cons, getKey_cons, ih]
      split_ifs <;> rfl

/-! ## §2. Heaps. -/

/-- The objects of a program; the addresses from `next` on are free. -/
structure Heap where
  objects : Address → Obj
  next : Nat

/-- The property that a key leads to, along so many prototypes. -/
def Heap.lookup (h : Heap) (key : Key) : Nat → Address → Option Property
  | 0, _ => none
  | n + 1, o =>
      match (h.objects o).getOwn key with
      | some p => some p
      | none =>
          match (h.objects o).prototype with
          | some prototype => h.lookup key n prototype
          | none => none

/-- What runs outside the heap: getters, and the built-in functions of dates, strings and clocks. -/
structure Environment extends BuiltIns Address where
  callGetter : Address → Address → JS Address Heap (Unknown Address)

/-- A look at the heap. -/
def reads {α : Type} (f : Heap → α) : JS Address Heap α := fun h => .ok (f h) h

/-- The value of a property that was found. -/
def Environment.valueOf (env : Environment) (o : Address) :
    Option Property → JS Address Heap (Unknown Address)
  | some (.data value _) => pure value
  | some (.accessor (some getter) _) => env.callGetter getter o
  | _ => pure .undefined

/-- **The realm of a heap.** -/
def heapRealm (env : Environment) : Realm Address Heap where
  objectPrototype := objectPrototype
  callable := Address.callable
  get o key := fun h => env.valueOf o (h.lookup key (h.next + 1) o) h
  ownKeys o := reads fun h => (h.objects o).properties.map Prod.fst
  getOwnProperty o key := reads fun h => ((h.objects o).getOwn key).map Property.descriptor
  getPrototypeOf o := reads fun h => (h.objects o).prototype
  isArray o := reads fun h => (h.objects o).length.isSome
  belowLength index o := reads fun h => (h.objects o).length.any fun n => decide (index < n)
  trim value := answers (env.trim value)
  instanceofDate value := answers (.ok (env.instanceofDate value))
  getUTCFullYear value := answers (env.getUTCFullYear value)
  toISOString value := answers (env.toISOString value)
  now := answers (.ok env.now)
  newEventId := answers (.ok env.newEventId)
  allocate entries h :=
    (⟨h.next, false⟩, ⟨fun o => if o = ⟨h.next, false⟩ then literal entries else h.objects o, h.next + 1⟩)

/-! ## §3. Looks at the heap. -/

section Looks

variable {env : Environment} {h : Heap}

theorem heapRealm_objectPrototype : (heapRealm env).objectPrototype = objectPrototype := rfl

theorem heapRealm_answers (env : Environment) : (heapRealm env).Answers env.toBuiltIns :=
  ⟨fun _ => rfl, fun _ => rfl, fun _ => rfl, fun _ => rfl, rfl, rfl⟩

theorem getOwnProperty_heap (o : Address) (key : Key) :
    (heapRealm env).getOwnProperty o key h
      = .ok (((h.objects o).getOwn key).map Property.descriptor) h := rfl

theorem belowLength_heap (index : Nat) (o : Address) :
    (heapRealm env).belowLength index o h
      = .ok ((h.objects o).length.any fun n => decide (index < n)) h := rfl

theorem isArray_heap (o : Address) :
    (heapRealm env).isArray o h = .ok (h.objects o).length.isSome h := rfl

theorem getPrototypeOf_heap (o : Address) :
    (heapRealm env).getPrototypeOf o h = .ok (h.objects o).prototype h := rfl

theorem hasOwn_heap (o : Address) (key : Key) :
    hasOwn (heapRealm env) o key h = .ok ((h.objects o).getOwn key).isSome h := by
  unfold hasOwn
  rw [bind_of_ok (getOwnProperty_heap o key), Option.isSome_map]
  rfl

theorem propertyIsEnumerable_heap (o : Address) (key : Key) :
    propertyIsEnumerable (heapRealm env) o key h
      = .ok (((h.objects o).getOwn key).any Property.enumerable) h := by
  unfold propertyIsEnumerable
  rw [bind_of_ok (getOwnProperty_heap o key), Option.any_map]
  rfl

theorem objectKeys_heap (o : Address) :
    objectKeys (heapRealm env) o h = .ok (h.objects o).enumerableKeys h := by
  unfold objectKeys
  rw [bind_of_ok (rfl : (heapRealm env).ownKeys o h = _)]
  exact filterM_of_looks (fun s => propertyIsEnumerable_heap o (.string s)) _

theorem hasEnumerableSymbol_heap (o : Address) :
    hasEnumerableSymbol (heapRealm env) o h = .ok (h.objects o).hasEnumerableSymbol h := by
  unfold hasEnumerableSymbol
  rw [bind_of_ok (rfl : (heapRealm env).ownKeys o h = _)]
  exact anyM_of_looks (fun i => propertyIsEnumerable_heap o (.symbol i)) _

end Looks

end CekatEvents.Node
