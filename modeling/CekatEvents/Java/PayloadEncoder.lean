/-
  CekatEvents.Java.PayloadEncoder — writing a request body in the Java client (`internal/PayloadEncoder.java`,
  and the writer of `internal/Json.java`).

  Strings are UTF-16 and may hold unpaired surrogates.  The properties are a graph over a heap of maps and
  lists, in the order of their iteration; a map may be one that compares keys by identity, so that equal
  keys may repeat, and the last value of a key is sent at the place of the first.

  Two classes of numbers have a text that the code does not look at: `Double.toString`, and
  `Float.toString`, which is read into a `BigDecimal`.  Stripping the zeros of a `BigDecimal` throws an
  `ArithmeticException` when the scale that is left is no `int`.
-/
import CekatEvents.Encoding.Space
import CekatEvents.Graph.Walk
import CekatEvents.Java.BigDecimal
import CekatEvents.Java.OccurredAt
import CekatEvents.Java.VisitorContext
import CekatEvents.JsonText.Entries
import CekatEvents.JsonText.Texts
import CekatEvents.Payload.Body
import CekatEvents.Payload.Number

namespace CekatEvents.Java.PayloadEncoder

open CekatEvents.Arithmetic CekatEvents.Encoding CekatEvents.Graph CekatEvents.JsonText
  CekatEvents.Payload

/-! ## §1. Objects. -/

/-- A Java string. -/
abbrev Str := List CodeUnit

/-- An `int`, as `Byte`, `Short` and `Integer` hold one. -/
abbrev Int32 := { n : Int // -2 ^ 31 ≤ n ∧ n < 2 ^ 31 }

/-- A map or a list, named by its place in the heap. -/
inductive Ref where
  | map (id : Nat)
  | list (id : Nat)
  deriving DecidableEq

/-- A value among the properties. -/
inductive Item where
  | null
  | boolean (b : Bool)
  | string (s : Str)
  /-- `Byte`, `Short` and `Integer`. -/
  | small (n : Int32)
  /-- `Long` and `BigInteger`. -/
  | large (n : Int)
  | double (x : Double)
  | float (x : Double)
  | decimal (d : BigDecimal)
  | ref (r : Ref)
  | other

/-- The key of a map; null is one that is no string. -/
inductive Key where
  | string (s : Str)
  | other
  deriving DecidableEq

/-- The entries of a map, in the order of its iteration. -/
abbrev Entries := List (Key × Item)

structure Heap where
  maps : Nat → Entries
  lists : Nat → List Item

/-- `Event`; its properties are a map. -/
structure Event where
  email : Option Str
  phoneNumber : Option Str
  contactName : Option Str
  visitorId : Option Str
  properties : Nat
  eventId : Option Str
  occurredAt : Option Instant

/-- What the class library writes for floating-point numbers. -/
structure Platform where
  /-- `Double.toString`. -/
  doubles : FloatText
  /-- `Float.toString`. -/
  floats : FloatText
  /-- Both are numbers of small exponents. -/
  doubles_decimal : ∀ x, (bigDecimal? (doubles.text x)).isSome = true
  floats_decimal : ∀ x, ∃ d, bigDecimal? (floats.text x) = some d ∧ d.ExponentFits

/-- A number of the copy. -/
inductive JavaNumber where
  | integer (n : Int)
  | double (x : Finite)
  | decimal (d : BigDecimal)

/-- A copy of the properties. -/
abbrev Copy := Value JavaNumber

/-! ## §2. Properties. -/

inductive Step where
  | index (n : Nat)
  | key (name : Str)

/-- The path of a value, as messages name it. -/
def renderPath (steps : List Step) : Str :=
  units "properties" ++ steps.flatMap fun s => match s with
    | .index n => unit '[' :: ((Nat.repr n).toList.map unit ++ [unit ']'])
    | .key [] => units "[\"\"]"
    | .key name => unit '.' :: name

inductive Fault where
  | tooDeep
  | cycle
  | unicode
  | invalid
  | nonStringKey
  /-- Not a validation error: the `ArithmeticException` of `stripTrailingZeros`. -/
  | arithmetic

/-- The loop of `text`: whether it lets the string through. -/
def isText : Str → Bool
  | [] => true
  | [u] => !isHigh u && !isLow u
  | u :: v :: s =>
      if isHigh u then
        if isLow v then isText s else false
      else if isLow u then false
      else isText (v :: s)

/-- The number that `new BigDecimal(value.toString())` is for a `Float`. -/
def floatDecimal (platform : Platform) (x : Finite) : BigDecimal :=
  (BigDecimal.ofString? (platform.floats.text x).text).getD BigDecimal.ZERO

/-- The check of a `Double` or a `Float`, and what is returned then. -/
def floatingLeaf (x : Double) (number : Finite → JavaNumber) : Except Fault Copy :=
  match x.portable? with
  | some y => .ok (.num (number y))
  | none => .error .invalid

/-- The check of a `BigDecimal`. -/
def decimalLeaf (number : BigDecimal) : Except Fault Copy :=
  match number.stripTrailingZeros with
  | none => .error .arithmetic
  | some stripped =>
      if stripped.scale ≤ 0 ∧ (maxSafeInteger : ℚ) < |stripped.value| then .error .invalid
      else .ok (.num (.decimal number))

/-- The name a key becomes. -/
def Key.name : Key → Str
  | .string s => s
  | .other => []

/-- What is wrong with a key before its value is looked at. -/
def keyFault : Key → Option Fault
  | .string s => if isText s then none else some .unicode
  | .other => some .nonStringKey

/-- The entries of a map for the walk. -/
def mapEntry (e : Key × Item) : Entry Item Step Fault := ⟨.key e.1.name, keyFault e.1, e.2, none⟩

/-- `copy.put` for one name and value after another. -/
def putAll (names : List Str) (ws : List Copy) : List (Str × Copy) :=
  (names.zip ws).foldl (fun copy e => putKey copy e.1 e.2) []

section Graph

variable (platform : Platform)

/-- What `normalize` finds at a value. -/
def shape (heap : Heap) : Item → Shape Item Ref Step Fault Copy
  | .null => .leaf (.ok .null)
  | .boolean b => .leaf (.ok (.bool b))
  | .string s => .leaf (if isText s then .ok (.str s) else .error .unicode)
  | .small n => .leaf (.ok (.num (.integer n.1)))
  | .large n =>
      .leaf (if n.natAbs ≤ maxSafeInteger then .ok (.num (.integer n)) else .error .invalid)
  | .double x => .leaf (floatingLeaf x .double)
  | .float x => .leaf (floatingLeaf x fun y => .decimal (floatDecimal platform y))
  | .decimal d => .leaf (decimalLeaf d)
  | .ref (.map id) =>
      .node (some (.map id)) none ((heap.maps id).map mapEntry) fun ws =>
        .obj (putAll ((heap.maps id).map fun e => e.1.name) ws)
  | .ref (.list id) =>
      .node (some (.list id)) none ((heap.lists id).mapIdx fun n x => ⟨.index n, none, x, none⟩) .arr
  | .other => .leaf (.error .invalid)

/-- The properties as a graph. -/
def graph (heap : Heap) : Traversal Item Ref Step Fault Copy :=
  ⟨shape platform heap, .tooDeep, .cycle⟩

end Graph

def MAX_DEPTH : Nat := 256

/-- What leaves `encode` when it does not return. -/
inductive Raised where
  | validation (message : Str)
  | arithmetic

/-- What a fault is thrown as. -/
def Fault.raised (path : List Step) : Fault → Raised
  | .tooDeep => .validation (renderPath path ++ units " is nested too deeply")
  | .cycle => .validation (renderPath path ++ units " contains a cycle")
  | .unicode => .validation (renderPath path ++ units " must be valid Unicode")
  | .invalid => .validation (renderPath path ++ units " is not a JSON-compatible value")
  | .nonStringKey => .validation
      (renderPath path ++ units " has a non-String key; property keys must be Strings")
  | .arithmetic => .arithmetic

/-- `normalize` on the properties: one set of ancestors, a container taken out when it has been copied. -/
def normalize (platform : Platform) (heap : Heap) (properties : Nat) : Except Raised Copy :=
  ((visit (graph platform heap) (MAX_DEPTH + 1) [] [] (.ref (.map properties))).map Prod.fst).mapError
    fun fault => fault.2.raised fault.1

/-! ## §3. The body. -/

/-- `isBlank`. -/
def isBlank (value : Option Str) : Bool := value.all (Encoding.isBlank VisitorContext.isWhitespace)

/-- `trimToNull`. -/
def trimToNull (value : Option Str) : Option Str := trimToNone VisitorContext.isWhitespace value

/-- `text`. -/
def text (value : Str) (path : String) : Except Raised Str :=
  if isText value then .ok value else .error (.validation (units path ++ units " must be valid Unicode"))

/-- `putIfPresent`: what is put. -/
def putIfPresent (name : String) : Option Str → Except Raised (Option Str)
  | none => .ok none
  | some value => (text value name).map some

/-- The clock and the generator of IDs. -/
structure Seams where
  clock : Instant
  idGenerator : List Char

/-- The checks before anything is put into the payload. -/
def check (eventKey : Option Str) (event : Option Event) : Except Raised (Str × Event) :=
  if isBlank eventKey then .error (.validation (units "event key must not be blank"))
  else
    match event with
    | none => .error (.validation (units "event must not be null"))
    | some event =>
        if isBlank event.email && isBlank event.phoneNumber then
          .error (.validation (units "event must include a nonblank email or phone number"))
        else .ok (eventKey.getD [], event)

/-- The event ID that is sent. -/
def sentEventId (seams : Seams) (event : Event) : Except Raised Str :=
  match trimToNull event.eventId with
  | some explicitEventId => text explicitEventId "event_id"
  | none => .ok (utf16 seams.idGenerator)

/-- The visitor that is chosen: the event's, or else the one of the scope. -/
def chosenVisitor (event : Event) (ambientVisitorId : Option Str) : Option Str :=
  (trimToNull event.visitorId).or (trimToNull ambientVisitorId)

/-- The properties of the payload; none when there are none. -/
def sentProperties (platform : Platform) (heap : Heap) (event : Event) : Except Raised (Option Copy) :=
  if (heap.maps event.properties).isEmpty then .ok none
  else (normalize platform heap event.properties).map some

/-- The payload. -/
def payload (platform : Platform) (seams : Seams) (heap : Heap) (eventKey : Str) (isCommon : Bool)
    (event : Event) (ambientVisitorId : Option Str) : Except Raised (Body JavaNumber) := do
  let eventKey ← text eventKey "event_key"
  let eventId ← sentEventId seams event
  let occurredAt ← (occurredAt seams.clock event.occurredAt).mapError fun e =>
    .validation (utf16 e.message)
  let email ← putIfPresent "email" event.email
  let phoneNumber ← putIfPresent "phone_number" event.phoneNumber
  let contactName ← putIfPresent "contact_name" event.contactName
  let visitorId ← putIfPresent "visitor_id" (chosenVisitor event ambientVisitorId)
  let properties ← sentProperties platform heap event
  pure ⟨eventKey, eventId, utf16 occurredAt, isCommon, email, phoneNumber, contactName, visitorId,
    properties⟩

/-- What `Json.write` writes for a number: its `toString`. -/
def JavaNumber.numeral (platform : Platform) : JavaNumber → Numeral
  | .integer n => intNumeral n
  | .double x => platform.doubles.text x
  | .decimal d => d.numeral

/-- `Json.write`: two-character escapes where there are any, and `\u` for the other controls. -/
def write (platform : Platform) (value : Copy) : Str :=
  (value.encode (minimalEscaping.encoder (JavaNumber.numeral platform))).text

/-- `getBytes(UTF_8)`: a surrogate without its pair becomes a question mark. -/
def getBytes : Str → List UInt8
  | [] => []
  | [u] => if isHigh u || isLow u then [0x3F] else utf8 [Char.ofNat u.toNat]
  | u :: v :: s =>
      if isHigh u && isLow v then utf8 [pairChar u v] ++ getBytes s
      else if isHigh u || isLow u then 0x3F :: getBytes (v :: s)
      else utf8 [Char.ofNat u.toNat] ++ getBytes (v :: s)

/-- `encode`. -/
def encode (platform : Platform) (seams : Seams) (heap : Heap) (eventKey : Option Str)
    (isCommon : Bool) (event : Option Event) (ambientVisitorId : Option Str) :
    Except Raised (List UInt8) := do
  let (eventKey, event) ← check eventKey event
  let body ← payload platform seams heap eventKey isCommon event ambientVisitorId
  pure (getBytes (write platform body.value))

end CekatEvents.Java.PayloadEncoder
