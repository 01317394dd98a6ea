/-
  CekatEvents.Node.Realm — the objects of JavaScript, as the Node client asks them.

  What an object answers is a parameter, a `Realm`: a getter, or a trap of a proxy, may run any code,
  change the state of the program and throw.  The operations of the language that the client is written
  with (`Object.keys`, `Object.hasOwn`, the spread of an object literal) are built on these answers.
-/
import CekatEvents.JsonText.Number
import CekatEvents.Node.Values

namespace CekatEvents.Node

open CekatEvents.Encoding CekatEvents.JsonText

/-! ## §1. Realms. -/

/-- What is thrown. -/
inductive Raised (ι : Type) where
  /-- A `ValidationError`. -/
  | validation (message : Str)
  /-- The `RangeError` of a stack or an array that is full. -/
  | rangeError
  /-- What other code threw. -/
  | thrown (value : Unknown ι)

/-- Code that runs in a realm. -/
abbrev JS (ι σ : Type) := EStateM (Raised ι) σ

/-- The key of a property. -/
inductive Key where
  | string (s : Str)
  | symbol (identity : Nat)
  deriving DecidableEq

/-- A property descriptor: one with a value, or one with a getter or a setter. -/
inductive Descriptor (ι : Type) where
  | data (value : Unknown ι) (enumerable : Bool)
  | accessor (enumerable : Bool)

def Descriptor.enumerable {ι : Type} : Descriptor ι → Bool
  | .data _ enumerable => enumerable
  | .accessor enumerable => enumerable

/-- What objects answer; `σ` is the state of the program. -/
structure Realm (ι σ : Type) where
  /-- `Object.prototype`. -/
  objectPrototype : ι
  /-- `typeof o === 'function'`. -/
  callable : ι → Bool
  /-- `o[key]`. -/
  get : ι → Key → JS ι σ (Unknown ι)
  /-- `Reflect.ownKeys(o)`. -/
  ownKeys : ι → JS ι σ (List Key)
  /-- `Object.getOwnPropertyDescriptor(o, key)`. -/
  getOwnProperty : ι → Key → JS ι σ (Option (Descriptor ι))
  /-- `Object.getPrototypeOf(o)`. -/
  getPrototypeOf : ι → JS ι σ (Option ι)
  /-- `Array.isArray(o)`. -/
  isArray : ι → JS ι σ Bool
  /-- `index < o.length`. -/
  belowLength : Nat → ι → JS ι σ Bool
  /-- `value.trim()` of a value that is no string. -/
  trim : Unknown ι → JS ι σ (Unknown ι)
  /-- `value instanceof Date`. -/
  instanceofDate : Unknown ι → JS ι σ Bool
  /-- `value.getUTCFullYear()`; nothing for `NaN`. -/
  getUTCFullYear : Unknown ι → JS ι σ (Option Int)
  /-- `value.toISOString()`. -/
  toISOString : Unknown ι → JS ι σ (Unknown ι)
  /-- `clock.now().toISOString()`. -/
  now : JS ι σ Str
  /-- `clock.newEventId()`. -/
  newEventId : JS ι σ Str
  /-- A new object with these properties. -/
  allocate : List (Key × Unknown ι) → σ → ι × σ

/-! ## §2. Values. -/

section Values

variable {ι : Type}

/-- `value === ''`. -/
def Unknown.isEmptyString : Unknown ι → Bool
  | .string [] => true
  | _ => false

/-- `typeof value === 'string'`. -/
def Unknown.isString : Unknown ι → Bool
  | .string _ => true
  | _ => false

/-- `value === undefined || value === null`. -/
def Unknown.isNullish : Unknown ι → Bool
  | .undefined => true
  | .null => true
  | _ => false

/-- A string that is not blank. -/
def Unknown.isNonblankString : Unknown ι → Bool
  | .string s => !decide (trimUnits s = [])
  | _ => false

/-- `typeof value === 'number' && Number.isFinite(value)`. -/
def Unknown.isFiniteNumber : Unknown ι → Bool
  | .number (.finite _) => true
  | _ => false

end Values

/-! ## §3. Operations of the language. -/

section Operations

variable {ι σ : Type} (R : Realm ι σ)

/-- `value.trim()`. -/
def trimmed : Unknown ι → JS ι σ (Unknown ι)
  | .string s => pure (.string (trimUnits s))
  | value => R.trim value

/-- `value?.trim()`. -/
def optionalTrim (value : Unknown ι) : JS ι σ (Unknown ι) :=
  if value.isNullish then pure .undefined else trimmed R value

/-- `Object.hasOwn(o, key)`. -/
def hasOwn (o : ι) (key : Key) : JS ι σ Bool := do
  let descriptor ← R.getOwnProperty o key
  pure descriptor.isSome

/-- `Object.prototype.propertyIsEnumerable.call(o, key)`. -/
def propertyIsEnumerable (o : ι) (key : Key) : JS ι σ Bool := do
  let descriptor ← R.getOwnProperty o key
  pure (descriptor.any Descriptor.enumerable)

/-- The strings among keys. -/
def stringKeys (keys : List Key) : List Str :=
  keys.filterMap fun key => match key with
    | .string s => some s
    | .symbol _ => none

/-- The symbols among keys. -/
def symbolKeys (keys : List Key) : List Nat :=
  keys.filterMap fun key => match key with
    | .string _ => none
    | .symbol identity => some identity

theorem mem_stringKeys {keys : List Key} {s : Str} : s ∈ stringKeys keys ↔ Key.string s ∈ keys := by
  unfold stringKeys
  rw [List.mem_filterMap]
  constructor
  · rintro ⟨key, hkey, hs⟩
    cases key with
    | string s' =>
        cases hs
        exact hkey
    | symbol i => cases hs
  · intro hs
    exact ⟨_, hs, rfl⟩

theorem mem_symbolKeys {keys : List Key} {i : Nat} : i ∈ symbolKeys keys ↔ Key.symbol i ∈ keys := by
  unfold symbolKeys
  rw [List.mem_filterMap]
  constructor
  · rintro ⟨key, hkey, hi⟩
    cases key with
    | string s => cases hi
    | symbol i' =>
        cases hi
        exact hkey
  · intro hi
    exact ⟨_, hi, rfl⟩

/-- All keys are strings, and these. -/
theorem keys_eq_iff {keys : List Key} {names : List Str} :
    keys = names.map .string ↔ symbolKeys keys = [] ∧ stringKeys keys = names := by
  induction keys generalizing names with
  | nil =>
      cases names with
      | nil => exact iff_of_true rfl ⟨rfl, rfl⟩
      | cons name names => exact iff_of_false (List.cons_ne_nil _ _).symm fun h => nomatch h.2
  | cons key keys ih =>
      cases key with
      | symbol i =>
          apply iff_of_false
          · intro heq
            cases names with
            | nil => cases heq
            | cons name names => cases heq
          · intro hboth
            cases hboth.1
      | string s =>
          have hstring : stringKeys (.string s :: keys) = s :: stringKeys keys := rfl
          have hsymbol : symbolKeys (.string s :: keys) = symbolKeys keys := rfl
          rw [hstring, hsymbol]
          cases names with
          | nil => exact iff_of_false (List.cons_ne_nil _ _) fun h => nomatch h.2
          | cons name names =>
              rw [List.map_cons, List.cons_eq_cons, List.cons_eq_cons, ih, Key.string.injEq]
              exact and_left_comm

/-- `Object.keys(o)`. -/
def objectKeys (o : ι) : JS ι σ (List Str) := do
  let keys ← R.ownKeys o
  (stringKeys keys).filterM fun s => propertyIsEnumerable R o (.string s)

/-- `Object.getOwnPropertySymbols(o).some(key => propertyIsEnumerable.call(o, key))`. -/
def hasEnumerableSymbol (o : ι) : JS ι σ Bool := do
  let keys ← R.ownKeys o
  (symbolKeys keys).anyM fun identity => propertyIsEnumerable R o (.symbol identity)

/-- `String(index)`. -/
def indexKey (index : Nat) : Str := natDigits index

/-- The properties that a spread takes over from an object, key by key. -/
def spreadKeys (o : ι) : List Key → JS ι σ (List (Key × Unknown ι))
  | [] => pure []
  | key :: keys => do
      if ← propertyIsEnumerable R o key then
        let value ← R.get o key
        let rest ← spreadKeys o keys
        pure ((key, value) :: rest)
      else spreadKeys o keys

/-- `...value` in an object literal: a string is spread into its code units. -/
def spread : Unknown ι → JS ι σ (List (Key × Unknown ι))
  | .object o => do
      let keys ← R.ownKeys o
      spreadKeys R o keys
  | .string s => pure (s.mapIdx fun index u => (.string (indexKey index), .string [u]))
  | _ => pure []

/-- A new object. -/
def newObject (properties : List (Key × Unknown ι)) : JS ι σ (Unknown ι) :=
  fun s => .ok (.object (R.allocate properties s).1) (R.allocate properties s).2

end Operations

/-! ## §4. Built-in functions. -/

/-- What the functions of dates, strings and clocks answer, whatever the state. -/
structure BuiltIns (ι : Type) where
  trim : Unknown ι → Except (Raised ι) (Unknown ι)
  instanceofDate : Unknown ι → Bool
  getUTCFullYear : Unknown ι → Except (Raised ι) (Option Int)
  toISOString : Unknown ι → Except (Raised ι) (Unknown ι)
  now : Str
  newEventId : Str

/-- What does not look at the state. -/
def answers {ι σ α : Type} (x : Except (Raised ι) α) : JS ι σ α := fun s =>
  match x with
  | .ok a => .ok a s
  | .error e => .error e s

/-- Dates, strings and clocks answer so in the realm. -/
structure Realm.Answers {ι σ : Type} (R : Realm ι σ) (b : BuiltIns ι) : Prop where
  trim : ∀ value, R.trim value = answers (b.trim value)
  instanceofDate : ∀ value, R.instanceofDate value = answers (.ok (b.instanceofDate value))
  getUTCFullYear : ∀ value, R.getUTCFullYear value = answers (b.getUTCFullYear value)
  toISOString : ∀ value, R.toISOString value = answers (b.toISOString value)
  now : R.now = answers (.ok b.now)
  newEventId : R.newEventId = answers (.ok b.newEventId)

end CekatEvents.Node
