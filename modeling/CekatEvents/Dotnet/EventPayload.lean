/-
  CekatEvents.Dotnet.EventPayload — writing a request body in the .NET client (`EventPayload.cs`).

  Strings are UTF-16 and may hold unpaired surrogates.  The properties are a graph over a heap of
  `JsonNode` containers, key/value sequences, dictionaries and sequences; a `JsonElement` is a tree of its
  own, read in place, whose objects may repeat names and whose strings may spell unpaired surrogates.

  Reading such a string or name throws an `InvalidOperationException`.  A `JsonObject` that was parsed is
  read when it is first enumerated, and throws the same, or an `ArgumentException` for a repeated name.
  A `JsonValue` is written to a buffer and parsed again, and what that throws is guarded.
-/
import CekatEvents.Encoding.Space
import CekatEvents.Graph.Walk
import CekatEvents.JsonText.Texts
import CekatEvents.Payload.Body
import CekatEvents.Payload.Number
import CekatEvents.Payload.Timestamp

namespace CekatEvents.Dotnet.EventPayload

open CekatEvents.Arithmetic CekatEvents.Encoding CekatEvents.Graph CekatEvents.JsonText
  CekatEvents.Payload

/-! ## §1. Objects. -/

/-- A number as it is written. -/
structure RawNumber where
  numeral : Numeral
  wellFormed : numeral.WellFormed

/-- A `JsonElement`. -/
abbrev Element := Value RawNumber

/-- An element parsed from what a writer wrote. -/
structure WrittenElement where
  element : Element
  unicode : element.Unicode

/-- A `decimal`. -/
structure Decimal where
  neg : Bool
  mantissa : Nat
  scale : Nat
  mantissa_lt : mantissa < 2 ^ 96
  scale_le : scale ≤ 28

def Decimal.value (d : Decimal) : ℚ := (if d.neg then -1 else 1) * (d.mantissa / 10 ^ d.scale)

/-- A value among the properties; a container that is no element is named by its place in the heap. -/
inductive Item where
  | null
  | boolean (b : Bool)
  | text (s : List CodeUnit)
  /-- `sbyte`, `short`, `int` and `long`. -/
  | signed (n : Int)
  /-- `byte`, `ushort` and `uint`. -/
  | small (n : Nat)
  | ulong (n : Nat)
  | single (x : Double)
  | double (x : Double)
  | decimal (d : Decimal)
  | element (e : Element)
  /-- A `JsonValue`, by the element it is written and parsed to; none when that throws. -/
  | jsonValue (written : Option WrittenElement)
  /-- The members of an object element that is itself the properties. -/
  | members (ms : List (List CodeUnit × Element))
  | ref (id : Nat)
  | other

/-- A `JsonObject`.  One that was parsed still has the members of its text; names are compared by what the
    comparer makes of them. -/
structure JsonObject where
  members : List (List CodeUnit × Item)
  parsed : Bool
  comparer : List CodeUnit → List CodeUnit
  distinct : parsed = false → (members.map Prod.fst).Nodup

/-- The key of a dictionary. -/
inductive DictionaryKey where
  | string (s : List CodeUnit)
  | other

inductive Cell where
  | jsonArray (items : List Item)
  | jsonObject (o : JsonObject)
  | pairs (ms : List (Option (List CodeUnit) × Item))
  | dictionary (entries : List (DictionaryKey × Item))
  | sequence (items : List Item)

abbrev Heap := Nat → Cell

inductive Properties where
  | element (e : Element)
  | jsonValue
  | ref (id : Nat)
  | other

structure EventInput where
  email : Option (List CodeUnit)
  phoneNumber : Option (List CodeUnit)
  contactName : Option (List CodeUnit)
  properties : Option Properties
  visitorId : Option (List CodeUnit)
  eventId : Option (List CodeUnit)
  occurredAt : Option Timestamp

/-- What the library writes and reads. -/
structure Platform where
  /-- What the writer's encoder makes of a code unit: an element that stands for it. -/
  piece : CodeUnit → Piece
  piece_decode : ∀ u, (piece u).decode hexUnit = u
  piece_ok : ∀ u, (piece u).ok rfc8259 = true
  singles : FloatText
  doubles : FloatText
  decimals : Decimal → RawNumber
  /-- `JsonElement.TryGetDouble`. -/
  tryGetDouble : Numeral → Option Double

/-! ## §2. Properties. -/

inductive Step where
  | index (n : Nat)
  | key (name : List CodeUnit)
  /-- A name inside an element, where the empty one is not marked. -/
  | member (name : List CodeUnit)

/-- The path of a value, as messages name it. -/
def renderPath (steps : List Step) : List CodeUnit :=
  units "properties" ++ steps.flatMap fun s => match s with
    | .index n => unit '[' :: ((Nat.repr n).toList.map unit ++ [unit ']'])
    | .key [] => units "[\"\"]"
    | .key name => unit '.' :: name
    | .member name => unit '.' :: name

/-- Exceptions that are not the client's own. -/
inductive Foreign where
  | invalidOperation
  | argument
  deriving DecidableEq

inductive Fault where
  | tooDeep
  | cycle
  | unicode
  | invalid
  | invalidKey
  | nonStringKey
  | foreign (e : Foreign)

/-- `IsValidUnicode`. -/
def isValidUnicode : List CodeUnit → Bool
  | [] => true
  | [u] => !(isHigh u || isLow u)
  | u :: v :: s =>
      if isHigh u && isLow v then isValidUnicode s
      else if isHigh u || isLow u then false
      else isValidUnicode (v :: s)

/-- Reading a name of an element. -/
def nameFault (name : List CodeUnit) : Option Fault :=
  if isValidUnicode name then none else some (.foreign .invalidOperation)

/-- Checking a key. -/
def keyFault (key : List CodeUnit) : Option Fault :=
  if isValidUnicode key then none else some .invalidKey

/-- The entries of an array or a sequence. -/
def itemEntries (items : List Item) : List (Entry Item Step Fault) :=
  items.mapIdx fun n x => ⟨.index n, none, x, none⟩

/-- An entry under a key, which may be null in a key/value sequence. -/
def pairEntry : Option (List CodeUnit) × Item → Entry Item Step Fault
  | (none, x) => ⟨.key [], some .invalidKey, x, none⟩
  | (some key, x) => ⟨.key key, keyFault key, x, none⟩

/-- An entry of a dictionary. -/
def dictionaryEntry : DictionaryKey × Item → Entry Item Step Fault
  | (.string key, x) => ⟨.key key, keyFault key, x, none⟩
  | (.other, x) => ⟨.key [], none, x, none⟩

/-- A key that is not a string is found before anything is written. -/
def dictionaryOpening (entries : List (DictionaryKey × Item)) : Option Fault :=
  if entries.all fun e => match e.1 with | .string _ => true | .other => false then none
  else some .nonStringKey

/-- Reading the members of a parsed object into a dictionary. -/
def parseFault (comparer : List CodeUnit → List CodeUnit) :
    List (List CodeUnit) → List (List CodeUnit) → Option Fault
  | _, [] => none
  | seen, name :: names =>
      if isValidUnicode name then
        if comparer name ∈ seen then some (.foreign .argument)
        else parseFault comparer (comparer name :: seen) names
      else some (.foreign .invalidOperation)

/-- Enumerating an object reads it first, if it was parsed. -/
def JsonObject.opening (o : JsonObject) : Option Fault :=
  if o.parsed then parseFault o.comparer [] (o.members.map Prod.fst) else none

/-- An object of the copy. -/
def object (names : List (List CodeUnit)) (ws : List (Value RawNumber)) : Value RawNumber :=
  .obj (names.zip ws)

/-- An integer of the copy. -/
def rawInt (n : Int) : RawNumber := ⟨intNumeral n, intNumeral_wellFormed n⟩

/-- `WriteInteger`. -/
def writeInteger (n : Int) : Except Fault (Value RawNumber) :=
  if n.natAbs ≤ maxSafeInteger then .ok (.num (rawInt n)) else .error .invalid

/-- `CheckFloating`, and what is written then. -/
def writeFloating (x : Double) (text : Finite → RawNumber) : Except Fault (Value RawNumber) :=
  match x.portable? with
  | some y => .ok (.num (text y))
  | none => .error .invalid

/-- `JsonElement.TryGetInt64`. -/
def tryGetInt64 (n : Numeral) : Option Int :=
  let value : Int := if n.neg then -(natValue n.int : Int) else natValue n.int
  if n.frac = none ∧ n.exp = none ∧ -2 ^ 63 ≤ value ∧ value < 2 ^ 63 then some value else none

section Graph

variable (platform : Platform)

/-- A number of an element. -/
def writeNumber (n : RawNumber) : Except Fault (Value RawNumber) :=
  match tryGetInt64 n.numeral with
  | some integer => writeInteger integer
  | none =>
      if n.numeral.frac = none ∧ n.numeral.exp = none then .error .invalid
      else
        match platform.tryGetDouble n.numeral with
        | none => .error .invalid
        | some number => writeFloating number fun _ => n

/-- `WriteElement`. -/
def elementShape : Element → Shape Item Nat Step Fault (Value RawNumber)
  | .null => .leaf (.ok .null)
  | .bool b => .leaf (.ok (.bool b))
  | .num n => .leaf (writeNumber platform n)
  | .str s =>
      .leaf (if isValidUnicode s then .ok (.str s) else .error (.foreign .invalidOperation))
  | .arr xs => .node none none (itemEntries (xs.map .element)) .arr
  | .obj ms =>
      .node none none
        (ms.map fun m => ⟨.member m.1, nameFault m.1, .element m.2, none⟩) (object (ms.map Prod.fst))

/-- The name of an entry of a dictionary. -/
def DictionaryKey.name : DictionaryKey → List CodeUnit
  | .string s => s
  | .other => []

/-- What is written for a container. -/
def cellShape (id : Nat) : Cell → Shape Item Nat Step Fault (Value RawNumber)
  | .jsonArray items => .node (some id) none (itemEntries items) .arr
  | .sequence items => .node (some id) none (itemEntries items) .arr
  | .jsonObject o =>
      .node (some id) o.opening (o.members.map fun m => pairEntry (some m.1, m.2))
        (object (o.members.map Prod.fst))
  | .pairs ms =>
      .node (some id) none (ms.map pairEntry) (object (ms.map fun m => m.1.getD []))
  | .dictionary entries =>
      .node (some id) (dictionaryOpening entries) (entries.map dictionaryEntry)
        (object (entries.map fun e => e.1.name))

/-- `WriteValue`. -/
def shape (heap : Heap) : Item → Shape Item Nat Step Fault (Value RawNumber)
  | .null => .leaf (.ok .null)
  | .boolean b => .leaf (.ok (.bool b))
  | .text s => .leaf (if isValidUnicode s then .ok (.str s) else .error .unicode)
  | .signed n => .leaf (writeInteger n)
  | .small n => .leaf (.ok (.num (rawInt n)))
  | .ulong n => .leaf (if n ≤ maxSafeInteger then .ok (.num (rawInt n)) else .error .invalid)
  | .single x =>
      .leaf (writeFloating x fun y => ⟨platform.singles.text y, platform.singles.wellFormed y⟩)
  | .double x =>
      .leaf (writeFloating x fun y => ⟨platform.doubles.text y, platform.doubles.wellFormed y⟩)
  | .decimal d =>
      .leaf (if unsafeIntegral d.value then .error .invalid else .ok (.num (platform.decimals d)))
  | .element e => elementShape platform e
  | .jsonValue none => .leaf (.error .invalid)
  | .jsonValue (some e) => elementShape platform e.element
  | .members ms =>
      .node none none (ms.map fun m => ⟨.key m.1, nameFault m.1, .element m.2, none⟩)
        (object (ms.map Prod.fst))
  | .ref id => cellShape id (heap id)
  | .other => .leaf (.error .invalid)

/-- The properties as a graph. -/
def graph (heap : Heap) : Traversal Item Nat Step Fault (Value RawNumber) :=
  ⟨shape platform heap, .tooDeep, .cycle⟩

end Graph

def MaximumDepth : Nat := 128

/-- What leaves `Build` when it does not return. -/
inductive Raised where
  | validation (message : List CodeUnit)
  | foreign (e : Foreign)

/-- What a fault is thrown as. -/
def Fault.raised (path : List Step) : Fault → Raised
  | .tooDeep => .validation (renderPath path ++ units " is nested too deeply")
  | .cycle => .validation (renderPath path ++ units " contains a cycle")
  | .unicode => .validation (renderPath path ++ units " must be valid Unicode")
  | .invalid => .validation (renderPath path ++ units " is not a JSON-compatible value")
  | .invalidKey => .validation (renderPath path ++
      units " has an invalid key; property keys must be valid Unicode strings")
  | .nonStringKey => .validation (renderPath path ++
      units " has a non-string key; property keys must be strings")
  | .foreign e => .foreign e

/-- The properties as an object to be written: an object element, a `JsonObject`, a key/value sequence or
    a dictionary. -/
def root (heap : Heap) : Properties → Option Item
  | .element (.obj ms) => some (.members ms)
  | .ref id =>
      match heap id with
      | .jsonObject _ | .pairs _ | .dictionary _ => some (.ref id)
      | .jsonArray _ | .sequence _ => none
  | _ => none

/-- `WriteProperties`: one set of ancestors, an identity taken out when it has been written. -/
def writeProperties (platform : Platform) (heap : Heap) (properties : Properties) :
    Except Raised (Value RawNumber) :=
  match root heap properties with
  | none => .error (.validation (units "properties must be a string-keyed object"))
  | some x =>
      ((visit (graph platform heap) (MaximumDepth + 1) [] [] x).map Prod.fst).mapError
        fun fault => fault.2.raised fault.1

/-! ## §3. The body. -/

/-- `char.IsWhiteSpace`. -/
def isWhiteSpace (u : CodeUnit) : Bool :=
  isAsciiSpace u.toNat || u.toNat == 0x85 || isSeparator u.toNat

/-- `string.IsNullOrWhiteSpace`. -/
def isNullOrWhiteSpace (s : Option (List CodeUnit)) : Bool := s.all (isBlank isWhiteSpace)

/-- `VisitorIdResolver.Normalize`. -/
def normalize (s : Option (List CodeUnit)) : Option (List CodeUnit) := trimToNone isWhiteSpace s

/-- The clock and the generator of IDs. -/
structure Seams where
  now : Timestamp
  newEventId : List Char

/-- The strings that are checked, with the names their messages have. -/
def checkedStrings (eventKey : List CodeUnit) (input : EventInput) :
    List (String × Option (List CodeUnit)) :=
  [("event key", some eventKey), ("email", input.email), ("phone number", input.phoneNumber),
   ("contact name", input.contactName), ("event ID", input.eventId)]

/-- A string that is given and not valid Unicode. -/
def isMalformed (s : Option (List CodeUnit)) : Bool := s.any fun s => !isValidUnicode s

/-- What `Build` checks before it writes. -/
def check (eventKey : Option (List CodeUnit)) (input : Option EventInput) :
    Except Raised (List CodeUnit × EventInput) :=
  match eventKey, input with
  | none, _ => .error (.validation (units "event key must be a non-empty string"))
  | some eventKey, input =>
      if isBlank isWhiteSpace eventKey then
        .error (.validation (units "event key must be a non-empty string"))
      else
        match input with
        | none => .error (.validation (units "event input is required"))
        | some input =>
            if isNullOrWhiteSpace input.email && isNullOrWhiteSpace input.phoneNumber then
              .error (.validation (units "at least one non-empty email or phone number is required"))
            else
              match (checkedStrings eventKey input).find? fun s => isMalformed s.2 with
              | some s => .error (.validation (units s.1 ++ units " must be valid Unicode"))
              | none => .ok (eventKey, input)

/-- The visitor that is chosen. -/
def chosenVisitor (input : EventInput) (contextVisitorId : Option (List CodeUnit)) :
    Option (List CodeUnit) :=
  (normalize input.visitorId).or (normalize contextVisitorId)

/-- The properties of the body. -/
def buildProperties (platform : Platform) (heap : Heap) :
    Option Properties → Except Raised (Option (Value RawNumber))
  | none => .ok none
  | some properties => (writeProperties platform heap properties).map some

/-- The body without its properties; a visitor that is not valid Unicode is left out. -/
def bodyHead (seams : Seams) (eventKey : List CodeUnit) (isCommon : Bool) (input : EventInput)
    (contextVisitorId : Option (List CodeUnit)) : Body RawNumber where
  eventKey := eventKey
  eventId := (normalize input.eventId).getD (utf16 seams.newEventId)
  occurredAt := utf16 (input.occurredAt.getD seams.now).iso
  isCommon := isCommon
  email := input.email
  phoneNumber := input.phoneNumber
  contactName := input.contactName
  visitorId := (chosenVisitor input contextVisitorId).filter isValidUnicode
  properties := none

/-- How the body is written. -/
def Platform.encoder (platform : Platform) : Encoder RawNumber := ⟨platform.piece, RawNumber.numeral⟩

/-- `Build`. -/
def build (platform : Platform) (seams : Seams) (heap : Heap) (eventKey : Option (List CodeUnit))
    (isCommon : Bool) (input : Option EventInput) (contextVisitorId : Option (List CodeUnit)) :
    Except Raised (List CodeUnit) := do
  let (eventKey, input) ← check eventKey input
  let properties ← buildProperties platform heap input.properties
  let head := bodyHead seams eventKey isCommon input contextVisitorId
  pure ((({ head with properties := properties } : Body RawNumber).value.encode
    platform.encoder).text)

end CekatEvents.Dotnet.EventPayload
