/-
  CekatEvents.Ruby.PayloadBuilder — building a request body in the Ruby client (`payload_builder.rb`).

  A string is its bytes and its encoding; what depends on the encodings of the interpreter is a
  parameter, `Platform`.  `String#strip` raises where the bytes are broken in the encoding of the
  string, or the encoding has no characters to speak of.  The properties are a graph over a heap of
  arrays and hashes, and `normalize` copies it with one table of ancestors.

  `JSON.generate` raises a `GeneratorError` for a string that is not UTF-8, which `build` rescues, and a
  `NestingError` for more than 100 containers inside each other, which it does not.
-/
import CekatEvents.Graph.Walk
import CekatEvents.JsonText.Escape
import CekatEvents.Payload.Number
import CekatEvents.Payload.Timestamp

namespace CekatEvents.Ruby

open CekatEvents.Arithmetic CekatEvents.Encoding CekatEvents.Graph CekatEvents.JsonText
  CekatEvents.Payload

/-! ## §1. Objects. -/

/-- The encoding a string is marked with. -/
inductive Charset where
  | utf8
  | other (name : List Char)
  deriving DecidableEq

/-- A string. -/
structure RString where
  bytes : List UInt8
  charset : Charset
  deriving DecidableEq

/-- What the interpreter and its libraries do with strings and floats. -/
structure Platform where
  /-- `String#strip`; the error is the message of what it raises. -/
  strip : RString → Except (List Char) RString
  /-- `String#inspect` of a valid UTF-8 string. -/
  inspect : List Char → List Char
  /-- The UTF-8 text the generator writes for a string; none for a `GeneratorError`. -/
  export? : RString → Option (List Char)
  /-- The text the generator writes for a finite float. -/
  floatText : FloatText

/-- A value among the properties; a container is named by its place in the heap. -/
inductive Item where
  | nil
  | bool (b : Bool)
  | string (s : RString)
  | symbol (s : RString)
  | integer (n : Int)
  | float (x : Double)
  | numeric (real : Bool) (toF : Double)
  | ref (id : Nat)
  | other

/-- The key of a hash. -/
inductive Key where
  | string (s : RString)
  | symbol (s : RString)
  | other (className : List Char)

inductive Cell where
  | array (items : List Item)
  | hash (pairs : List (Key × Item))

abbrev Heap := Nat → Cell

/-- An object given for a string field. -/
inductive Field where
  | nil
  | string (s : RString)
  | other

inductive Properties where
  | nil
  | hash (id : Nat)
  | other

/-- An object given for a time: what `getutc` makes of a `Time` or a `DateTime`. -/
inductive Moment where
  | nil
  | time (t : Timestamp)
  | other

structure EventInput where
  email : Field
  phoneNumber : Field
  contactName : Field
  visitorId : Field
  properties : Properties
  eventId : Field
  occurredAt : Moment

/-- What leaves `build` when it does not return. -/
inductive Raised where
  | validation (message : List Char)
  /-- What `String#strip` raised, by its message. -/
  | strip (message : List Char)
  | nesting

/-! ## §2. Properties. -/

inductive Step where
  | index (n : Nat)
  | key (name : List Char)

/-- The path of a value, as messages name it. -/
def renderPath (steps : List Step) : List Char :=
  "properties".toList ++ steps.flatMap fun s => match s with
    | .index n => '[' :: ((Nat.repr n).toList ++ [']'])
    | .key [] => "[\"\"]".toList
    | .key name => '.' :: name

inductive Fault where
  | tooDeep
  | cycle
  | invalid
  | notUtf8
  | badKey (className : List Char)
  | duplicateKey (name : List Char)

/-- The text of a validation error. -/
def faultText (inspect : List Char → List Char) (path : List Char) : Fault → List Char
  | .tooDeep => path ++ " is nested too deeply".toList
  | .cycle => path ++ " contains a cycle".toList
  | .invalid => path ++ " is not a JSON-compatible value".toList
  | .notUtf8 => path ++ " must be valid UTF-8".toList
  | .badKey className => path ++ " has a ".toList ++ className ++
      " key; property keys must be Strings or Symbols".toList
  | .duplicateKey name => path ++ " has duplicate key ".toList ++ inspect name

/-- `utf8`: the characters of a string whose bytes are valid UTF-8, whatever its encoding. -/
def utf8? (s : RString) : Option (List Char) := ofUtf8? s.bytes

/-- `portable_float`. -/
def portableFloat (x : Double) : Except Fault (Value Number) :=
  match x.portable? with
  | some y => .ok (.num (.float y))
  | none => .error .invalid

/-- A string of the copy. -/
def textLeaf (s : RString) : Except Fault (Value Number) :=
  match utf8? s with
  | some cs => .ok (.str (utf16 cs))
  | none => .error .notUtf8

/-- The name of a key, and the test that it is a string or a symbol of valid UTF-8. -/
def keyName : Key → Except Fault (List Char)
  | .string s | .symbol s => (utf8? s).elim (.error .notUtf8) .ok
  | .other className => .error (.badKey className)

/-- The entries of a hash: a key must not repeat the name of one before it. -/
def hashEntries : List (List Char) → List (Key × Item) → List (Entry Item Step Fault)
  | _, [] => []
  | seen, (k, x) :: ps =>
      match keyName k with
      | .error f => ⟨.key [], some f, x, none⟩ :: hashEntries seen ps
      | .ok name =>
          ⟨.key name, if name ∈ seen then some (.duplicateKey name) else none, x, none⟩ ::
            hashEntries (name :: seen) ps

/-- The entries of an array. -/
def arrayEntries (items : List Item) : List (Entry Item Step Fault) :=
  items.mapIdx fun n x => ⟨.index n, none, x, none⟩

/-- The names of a hash, where they have one. -/
def hashNames (pairs : List (Key × Item)) : List (List CodeUnit) :=
  pairs.map fun p => utf16 ((keyName p.1).toOption.getD [])

/-- What `normalize` finds at a value. -/
def shape (heap : Heap) : Item → Shape Item Nat Step Fault (Value Number)
  | .nil => .leaf (.ok .null)
  | .bool b => .leaf (.ok (.bool b))
  | .string s => .leaf (textLeaf s)
  | .symbol s => .leaf (textLeaf s)
  | .integer n =>
      .leaf (if n.natAbs ≤ maxSafeInteger then .ok (.num (.integer n)) else .error .invalid)
  | .float x => .leaf (portableFloat x)
  | .numeric real toF => .leaf (if real then portableFloat toF else .error .invalid)
  | .ref id =>
      match heap id with
      | .array items => .node (some id) none (arrayEntries items) .arr
      | .hash pairs =>
          .node (some id) none (hashEntries [] pairs) fun ws => .obj ((hashNames pairs).zip ws)
  | .other => .leaf (.error .invalid)

/-- The properties as a graph. -/
def graph (heap : Heap) : Traversal Item Nat Step Fault (Value Number) :=
  ⟨shape heap, .tooDeep, .cycle⟩

def MAX_DEPTH : Nat := 256

/-- `normalize` on the properties: with the table of ancestors empty, at depth zero. -/
def normalize (platform : Platform) (heap : Heap) (id : Nat) : Except Raised (Value Number) :=
  match visit (graph heap) (MAX_DEPTH + 1) [] [] (.ref id) with
  | .ok (value, _) => .ok value
  | .error (steps, f) => .error (.validation (faultText platform.inspect (renderPath steps) f))

/-! ## §3. The body. -/

/-- The fields of a body before it is written. -/
structure Payload where
  eventKey : List Char
  eventId : RString
  occurredAt : List Char
  isCommon : Bool
  email : Option (List Char)
  phoneNumber : Option (List Char)
  contactName : Option (List Char)
  visitorId : Option (List Char)
  properties : Option (Value Number)

/-- A member that may be absent. -/
def optionalMember (name : String) (value : Option (List Char)) :
    List (List CodeUnit × Value Number) :=
  value.toList.map fun cs => (units name, .str (utf16 cs))

/-- The payload as a hash; the event ID as the generator writes it. -/
def Payload.value (p : Payload) (eventId : List Char) : Value Number :=
  .obj ([(units "event_key", .str (utf16 p.eventKey)), (units "event_id", .str (utf16 eventId)),
      (units "occurred_at", .str (utf16 p.occurredAt)), (units "is_common", .bool p.isCommon)] ++
    optionalMember "email" p.email ++ optionalMember "phone_number" p.phoneNumber ++
    optionalMember "contact_name" p.contactName ++ optionalMember "visitor_id" p.visitorId ++
    p.properties.toList.map fun v => (units "properties", v))

/-- The errors of the generator. -/
inductive GenerateError where
  | generator
  | nesting

/-- The default `max_nesting`. -/
def maxNesting : Nat := 100

section Build

variable (platform : Platform)

/-- `JSON.generate`; the event ID stands before anything nested. -/
def generate (p : Payload) : Except GenerateError (List CodeUnit) :=
  match platform.export? p.eventId with
  | none => .error .generator
  | some eventId =>
      if maxNesting < (p.value eventId).nesting then .error .nesting
      else .ok (((p.value eventId).encode (minimalEscaping.encoder (Number.numeral platform.floatText))).text)

/-- `String#strip`, let through. -/
def strip (s : RString) : Except Raised RString := (platform.strip s).mapError .strip

/-- `blank?`. -/
def isBlank : Field → Except Raised Bool
  | .string s => do
      let stripped ← strip platform s
      pure stripped.bytes.isEmpty
  | _ => pure true

/-- `VisitorIdResolver.normalize`. -/
def normalizeVisitorId : Field → Except Raised (Option RString)
  | .string s => do
      let trimmed ← strip platform s
      pure (if trimmed.bytes.isEmpty then none else some trimmed)
  | _ => pure none

/-- `utf8`. -/
def utf8 (s : RString) (path : String) : Except Raised (List Char) :=
  match utf8? s with
  | some cs => .ok cs
  | none => .error (.validation (path.toList ++ " must be valid UTF-8".toList))

/-- `utf8` of a field that is given. -/
def utf8Field (f : Field) (path : String) : Except Raised (Option (List Char)) :=
  match f with
  | .string s => (utf8 s path).map some
  | _ => .ok none

/-- The string fields, in the order they are checked. -/
def EventInput.stringFields (event : EventInput) : List (String × Field) :=
  [("email", event.email), ("phone_number", event.phoneNumber), ("contact_name", event.contactName),
   ("visitor_id", event.visitorId), ("event_id", event.eventId)]

/-- A field that is neither nil nor a string. -/
def Field.isOther : Field → Bool
  | .other => true
  | _ => false

/-- The event key, when it is a string that is not blank. -/
def requireKey (eventKey : Field) : Except Raised RString :=
  match eventKey with
  | .string s => do
      let blank ← isBlank platform (.string s)
      if blank then .error (.validation "event key must not be blank".toList) else pure s
  | _ => .error (.validation "event key must not be blank".toList)

/-- The event, when it is one. -/
def requireEvent (event : Option EventInput) : Except Raised EventInput :=
  match event with
  | some event => .ok event
  | none => .error (.validation "event must be a CekatEventSdk::EventInput".toList)

/-- The string fields hold strings. -/
def checkFields (event : EventInput) : Except Raised Unit :=
  match event.stringFields.find? fun f => f.2.isOther with
  | some f => .error (.validation (f.1.toList ++ " must be a String".toList))
  | none => .ok ()

/-- An email or a phone number is given; the phone number is looked at when there is no email. -/
def requireIdentity (event : EventInput) : Except Raised Unit := do
  let blankEmail ← isBlank platform event.email
  if blankEmail then
    let blankPhone ← isBlank platform event.phoneNumber
    if blankPhone then
      .error (.validation "event must include a nonblank email or phone number".toList)
    else pure ()
  else pure ()

/-- `occurred_at`. -/
def occurredAt (clock : Timestamp) (value : Moment) : Except Raised (List Char) :=
  let check (t : Timestamp) : Except Raised (List Char) :=
    if t.inYears then .ok t.iso
    else .error (.validation "occurred_at must be between years 0001 and 9999".toList)
  match value with
  | .nil => check clock
  | .time t => check t
  | .other => .error (.validation "occurred_at must be a Time or DateTime".toList)

/-- The visitor of the event, else the one around it. -/
def resolveVisitor (visitorId ambient : Field) : Except Raised (Option RString) := do
  let explicit ← normalizeVisitorId platform visitorId
  match explicit with
  | some visitor => pure (some visitor)
  | none => normalizeVisitorId platform ambient

/-- The properties of the body. -/
def buildProperties (heap : Heap) : Properties → Except Raised (Option (Value Number))
  | .nil => .ok none
  | .hash id => (normalize platform heap id).map some
  | .other => .error (.validation "properties must be a Hash".toList)

/-- The clock and the generator of IDs. -/
structure Seams where
  clock : Timestamp
  newEventId : RString

/-- What `build` puts together before it comes to the properties. -/
def prepareHead (seams : Seams) (eventKey : Field) (isCommon : Bool) (event : Option EventInput)
    (ambientVisitorId : Field) : Except Raised (EventInput × Payload) := do
  let eventKey ← requireKey platform eventKey
  let event ← requireEvent event
  checkFields event
  requireIdentity platform event
  let key ← utf8 eventKey "event_key"
  let explicitId ← normalizeVisitorId platform event.eventId
  let time ← occurredAt seams.clock event.occurredAt
  let email ← utf8Field event.email "email"
  let phoneNumber ← utf8Field event.phoneNumber "phone_number"
  let contactName ← utf8Field event.contactName "contact_name"
  let visitor ← resolveVisitor platform event.visitorId ambientVisitorId
  let visitorId ← utf8Field (visitor.elim .nil .string) "visitor_id"
  pure (event, ⟨key, explicitId.getD seams.newEventId, time, isCommon, email, phoneNumber,
    contactName, visitorId, none⟩)

/-- `build`: a `GeneratorError` is rescued, a `NestingError` is not. -/
def build (seams : Seams) (heap : Heap) (eventKey : Field) (isCommon : Bool)
    (event : Option EventInput) (ambientVisitorId : Field) : Except Raised (List CodeUnit) := do
  let (event, head) ← prepareHead platform seams eventKey isCommon event ambientVisitorId
  let properties ← buildProperties platform heap event.properties
  match generate platform { head with properties := properties } with
  | .ok text => pure text
  | .error .generator => .error (.validation "event is not JSON-compatible".toList)
  | .error .nesting => .error .nesting

end Build

end CekatEvents.Ruby
