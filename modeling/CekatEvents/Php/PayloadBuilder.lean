/-
  CekatEvents.Php.PayloadBuilder — building a request body in the PHP client (`PayloadBuilder.php`).

  A string is its bytes.  The properties are a graph over a heap of arrays and `stdClass` objects; an
  array has no identity of its own, so that only objects are looked for among the ancestors, and a cycle
  of arrays, which references can make, is cut by the depth.  `JsonSerializable` objects, which run code
  of the caller, are left out.

  Objects of the copy are made by assigning dynamic properties.  A property whose name begins with a NUL
  byte cannot be assigned: the assignment throws an `\Error`, after the value has been made.
-/
import CekatEvents.Graph.Walk
import CekatEvents.JsonText.Texts
import CekatEvents.Payload.Body
import CekatEvents.Payload.Number
import CekatEvents.Payload.Timestamp

namespace CekatEvents.Php

open CekatEvents.Arithmetic CekatEvents.Encoding CekatEvents.Graph CekatEvents.JsonText
  CekatEvents.Payload

/-! ## §1. Values. -/

/-- A string. -/
abbrev Bytes := List UInt8

/-- The key of an array. -/
inductive ArrayKey where
  | int (n : Int)
  | string (s : Bytes)
  deriving DecidableEq

/-- A value among the properties; a container is named by its place in the heap. -/
inductive Item where
  | null
  | bool (b : Bool)
  | int (n : Int)
  | float (x : Double)
  | string (s : Bytes)
  | ref (id : Nat)
  | other

/-- An array: its keys are distinct. -/
structure PhpArray where
  pairs : List (ArrayKey × Item)
  nodup : (pairs.map Prod.fst).Nodup

/-- An `stdClass` object: its properties have distinct names. -/
structure StdClass where
  properties : List (Bytes × Item)
  nodup : (properties.map Prod.fst).Nodup

inductive Cell where
  | array (a : PhpArray)
  | object (o : StdClass)

abbrev Heap := Nat → Cell

/-- `array_is_list`. -/
def PhpArray.isList (a : PhpArray) : Bool :=
  decide (a.pairs.map Prod.fst = (List.range a.pairs.length).map fun n => .int n)

/-- A copy of the properties: lists, and objects with properties in the order they were assigned. -/
inductive Copy where
  | null
  | bool (b : Bool)
  | num (n : Number)
  | string (s : Bytes)
  | list (xs : List Copy)
  | object (ms : List (Bytes × Copy))

structure EventInput where
  email : Option Bytes
  phoneNumber : Option Bytes
  contactName : Option Bytes
  visitorId : Option Bytes
  properties : Option Nat
  eventId : Option Bytes
  occurredAt : Option Timestamp

/-! ## §2. Properties. -/

inductive Step where
  | index (n : Nat)
  | key (name : Bytes)

inductive Fault where
  | tooDeep
  | cycle
  | invalid
  | integerKey (n : Int)
  /-- Not a validation error: the `\Error` of an assignment. -/
  | propertyName

/-- ASCII text as bytes. -/
def ascii (s : String) : Bytes := s.toList.map fun c => c.toNat.toUInt8

/-- The path of a value, as messages name it. -/
def renderPath (steps : List Step) : Bytes :=
  ascii "properties" ++ steps.flatMap fun s => match s with
    | .index n => ascii "[" ++ (ascii (Nat.repr n) ++ ascii "]")
    | .key [] => ascii "[\"\"]"
    | .key name => ascii "." ++ name

/-- The name begins with a NUL byte. -/
def startsNul (name : Bytes) : Bool := name.head? == some 0

/-- What assigning a property of this name throws. -/
def assignFault (name : Bytes) : Option Fault :=
  if startsNul name then some .propertyName else none

/-- The entries of a list. -/
def listEntries (pairs : List (ArrayKey × Item)) : List (Entry Item Step Fault) :=
  pairs.mapIdx fun n p => ⟨.index n, none, p.2, none⟩

/-- An entry of an array that is no list: its key must be a string. -/
def arrayEntry : ArrayKey × Item → Entry Item Step Fault
  | (.int n, x) => ⟨.key [], some (.integerKey n), x, none⟩
  | (.string name, x) => ⟨.key name, none, x, assignFault name⟩

/-- A property of an object. -/
def objectEntry (p : Bytes × Item) : Entry Item Step Fault := ⟨.key p.1, none, p.2, assignFault p.1⟩

/-- The name a key becomes. -/
def ArrayKey.name : ArrayKey → Bytes
  | .int _ => []
  | .string name => name

/-- What `normalizeValue` finds at a value. -/
def shape (heap : Heap) : Item → Shape Item Nat Step Fault Copy
  | .null => .leaf (.ok .null)
  | .bool b => .leaf (.ok (.bool b))
  | .string s => .leaf (.ok (.string s))
  | .int n =>
      .leaf (if n.natAbs ≤ maxSafeInteger then .ok (.num (.integer n)) else .error .invalid)
  | .float x =>
      .leaf (match x.portable? with
        | some y => .ok (.num (.float y))
        | none => .error .invalid)
  | .ref id =>
      match heap id with
      | .array a =>
          if a.isList then .node none none (listEntries a.pairs) .list
          else .node none none (a.pairs.map arrayEntry) fun ws =>
            .object ((a.pairs.map fun p => p.1.name).zip ws)
      | .object o =>
          .node (some id) none (o.properties.map objectEntry) fun ws =>
            .object ((o.properties.map Prod.fst).zip ws)
  | .other => .leaf (.error .invalid)

/-- The properties as a graph. -/
def graph (heap : Heap) : Traversal Item Nat Step Fault Copy := ⟨shape heap, .tooDeep, .cycle⟩

def MAX_DEPTH : Nat := 256

/-- What leaves `build` when it does not return. -/
inductive Raised where
  | validation (message : Bytes)
  /-- `\Error`: cannot access a property starting with NUL. -/
  | error

/-- What a fault is thrown as. -/
def Fault.raised (path : List Step) : Fault → Raised
  | .tooDeep =>
      .validation (renderPath path ++ ascii " is nested too deeply or contains a cycle")
  | .cycle => .validation (renderPath path ++ ascii " contains a cycle")
  | .invalid => .validation (renderPath path ++ ascii " is not a JSON-compatible value")
  | .integerKey n => .validation (renderPath path ++ (ascii " has integer key " ++
      (ascii (toString n) ++ ascii "; use array_values() for a list or a stdClass for an object")))
  | .propertyName => .error

/-- `normalizeValue` on the properties: the ancestors are passed by value. -/
def normalizeValue (heap : Heap) (id : Nat) : Except Raised Copy :=
  (walk (graph heap) (MAX_DEPTH + 1) [] [] (.ref id)).mapError fun fault => fault.2.raised fault.1

/-- A list that is not empty. -/
def isProperList (heap : Heap) (id : Nat) : Bool :=
  match heap id with
  | .array a => !a.pairs.isEmpty && a.isList
  | .object _ => false

/-- What is no object is made the empty one. -/
def Copy.asObject : Copy → Copy
  | .object ms => .object ms
  | _ => .object []

/-- `normalizeObject`: the empty array means the empty object. -/
def normalizeObject (heap : Heap) (id : Nat) : Except Raised Copy :=
  if isProperList heap id then
    .error (.validation (ascii "properties must be an object, not a list"))
  else (normalizeValue heap id).map Copy.asObject

/-! ## §3. The body. -/

/-- The white space `trim` takes away. -/
def isTrimmed (b : UInt8) : Bool :=
  b == 0x20 || b == 0x0A || b == 0x0D || b == 0x09 || b == 0x0B || b == 0x00

/-- `trim`. -/
def trim (s : Bytes) : Bytes :=
  ((s.dropWhile isTrimmed).reverse.dropWhile isTrimmed).reverse

/-- `trimToNull`. -/
def trimToNull (value : Option Bytes) : Option Bytes :=
  match trim (value.getD []) with
  | [] => none
  | trimmed => some trimmed

/-- The array that is handed to `json_encode`. -/
structure Payload where
  eventKey : Bytes
  eventId : Bytes
  occurredAt : List Char
  isCommon : Bool
  email : Option Bytes
  phoneNumber : Option Bytes
  contactName : Option Bytes
  visitorId : Option Bytes
  properties : Option Copy

/-- A string for `json_encode`; none when it is not UTF-8. -/
def jsonString (s : Bytes) : Option (List CodeUnit) := (ofUtf8? s).map utf16

mutual
/-- A copy for `json_encode`; none when a string in it is not UTF-8. -/
def Copy.value : Copy → Option (Value Number)
  | .null => some .null
  | .bool b => some (.bool b)
  | .num n => some (.num n)
  | .string s => (jsonString s).map .str
  | .list xs => (listValues xs).map .arr
  | .object ms => (objectValues ms).map .obj
/-- The same for the elements of a list. -/
def listValues : List Copy → Option (List (Value Number))
  | [] => some []
  | x :: xs => do pure ((← x.value) :: (← listValues xs))
/-- The same for the properties of an object. -/
def objectValues : List (Bytes × Copy) → Option (List (List CodeUnit × Value Number))
  | [] => some []
  | (name, x) :: ms => do pure ((← jsonString name, ← x.value) :: (← objectValues ms))
end

/-- A string that may be absent. -/
def jsonOptional : Option Bytes → Option (Option (List CodeUnit))
  | none => some none
  | some s => (jsonString s).map some

/-- The payload for `json_encode`; none when a string in it is not UTF-8. -/
def Payload.body (p : Payload) : Option (Body Number) := do
  let eventKey ← jsonString p.eventKey
  let eventId ← jsonString p.eventId
  let email ← jsonOptional p.email
  let phoneNumber ← jsonOptional p.phoneNumber
  let contactName ← jsonOptional p.contactName
  let visitorId ← jsonOptional p.visitorId
  let properties ← match p.properties with
    | none => some none
    | some c => c.value.map some
  pure ⟨eventKey, eventId, utf16 p.occurredAt, p.isCommon, email, phoneNumber, contactName, visitorId,
    properties⟩

/-- The line separators, which stay escaped. -/
def isLineTerminator (u : CodeUnit) : Bool := u == 0x2028 || u == 0x2029

theorem isLineTerminator_pair (u v : CodeUnit) (hu : isHigh u = true) (hv : isLow v = true) :
    isLineTerminator u = isLineTerminator v := by
  have hplain : ∀ w : CodeUnit, isHigh w = true ∨ isLow w = true → isLineTerminator w = false := by
    intro w hw
    unfold isLineTerminator
    rw [Bool.or_eq_false_iff]
    constructor <;>
    · rw [beq_eq_false_iff_ne]
      rintro rfl
      revert hw
      decide
  rw [hplain u (.inl hu), hplain v (.inr hv)]

/-- The escapes of `json_encode` with unescaped slashes and Unicode. -/
def jsonEscaping : Escaping := escapingAlso isLineTerminator isLineTerminator_pair

section Build

-- what `json_encode` writes for floats, which depends on `serialize_precision`
variable (floats : FloatText)

/-- `json_encode`; none for a `JsonException`.  Its depth of 512 is beyond anything that comes here. -/
def jsonEncode (p : Payload) : Option (List CodeUnit) :=
  p.body.map fun b => (b.value.encode (jsonEscaping.encoder (Number.numeral floats))).text

/-- The clock and the generator of IDs. -/
structure Seams where
  now : Timestamp
  newEventId : Bytes

/-- `occurredAt`. -/
def occurredAt (now : Timestamp) (value : Option Timestamp) : Except Raised (List Char) :=
  let time := value.getD now
  if time.inYears then .ok time.iso
  else .error (.validation (ascii "occurredAt must be between years 0001 and 9999"))

/-- What `build` checks before it puts the payload together. -/
def checkIdentity (eventKey : Bytes) (event : EventInput) : Except Raised Unit :=
  if trim eventKey = [] then .error (.validation (ascii "event key must not be blank"))
  else if trim (event.email.getD []) = [] ∧ trim (event.phoneNumber.getD []) = [] then
    .error (.validation (ascii "event must include a nonblank email or phone number"))
  else .ok ()

/-- The properties of the payload. -/
def buildProperties (heap : Heap) : Option Nat → Except Raised (Option Copy)
  | none => .ok none
  | some id => (normalizeObject heap id).map some

/-- The payload without its properties. -/
def payloadHead (seams : Seams) (eventKey : Bytes) (isCommon : Bool) (event : EventInput)
    (ambientVisitorId : Option Bytes) (time : List Char) : Payload where
  eventKey := eventKey
  eventId := (trimToNull event.eventId).getD seams.newEventId
  occurredAt := time
  isCommon := isCommon
  email := event.email
  phoneNumber := event.phoneNumber
  contactName := event.contactName
  visitorId := (trimToNull event.visitorId).or (trimToNull ambientVisitorId)
  properties := none

/-- `build`. -/
def build (seams : Seams) (heap : Heap) (eventKey : Bytes) (isCommon : Bool) (event : EventInput)
    (ambientVisitorId : Option Bytes) : Except Raised (List CodeUnit) := do
  checkIdentity eventKey event
  let time ← occurredAt seams.now event.occurredAt
  let properties ← buildProperties heap event.properties
  let head := payloadHead seams eventKey isCommon event ambientVisitorId time
  match jsonEncode floats { head with properties := properties } with
  | some text => pure text
  | none =>
      .error (.validation (ascii "event is not JSON-compatible; strings must be valid UTF-8"))

end Build

end CekatEvents.Php
