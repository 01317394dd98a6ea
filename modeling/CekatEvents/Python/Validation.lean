/-
  CekatEvents.Python.Validation — building a request body in the Python client (`validation.py`,
  `context.py`).

  A `str` is a list of code points, surrogates included; `encode("utf-8")` raises for a surrogate.  The
  properties are a graph over a heap of dicts, lists and tuples, and `_normalize` copies it with one set
  of ancestors, which a `finally` restores.

  The exceptions that the library raises are kept apart from `ValidationError`, so that what the handlers
  of `build_body` do with them is part of the model.  The interpreter is taken to have room for the
  recursion of `_normalize`, which is at most 257 levels deep.
-/
import CekatEvents.Encoding.Space
import CekatEvents.Graph.Walk
import CekatEvents.JsonText.Escape
import CekatEvents.Payload.Body
import CekatEvents.Payload.Number
import CekatEvents.Payload.Timestamp
import CekatEvents.Python.Protocol

namespace CekatEvents.Python.Validation

open CekatEvents.Arithmetic CekatEvents.Encoding CekatEvents.Graph CekatEvents.JsonText
  CekatEvents.Payload

/-! ## §1. Objects. -/

/-- A code point, which may be a surrogate. -/
abbrev CodePoint := Fin 0x110000

instance codePoints_neZero : NeZero 0x110000 := ⟨Nat.succ_ne_zero _⟩

/-- A string of the interpreter. -/
abbrev PyStr := List CodePoint

/-- The character of a code point that is no surrogate. -/
def char? (c : CodePoint) : Option Char := if c.val.isValidChar then some (Char.ofNat c.val) else none

/-- The characters of a string without surrogates. -/
def chars? (s : PyStr) : Option (List Char) := s.mapM char?

/-- A string without surrogates. -/
def ofChars (cs : List Char) : PyStr := cs.map fun c => Fin.ofNat 0x110000 c.toNat

/-- `str.strip()`. -/
def stripStr (s : PyStr) : PyStr := trim (fun c => (char? c).elim false isSpace) s

/-- A `Decimal`. -/
inductive Decimal where
  | finite (neg : Bool) (coefficient : Nat) (exponent : Int)
  | infinite (neg : Bool)
  | nan (signaling : Bool)

/-- A value among the properties; a container is named by its identity. -/
inductive Item where
  | none
  | bool (b : Bool)
  | str (s : PyStr)
  | int (n : Int)
  | float (x : Double)
  | decimal (d : Decimal)
  | ref (id : Nat)
  | other

/-- The key of a dict. -/
inductive Key where
  | str (s : PyStr)
  | other
  deriving DecidableEq

/-- The name of a key that is a string. -/
def Key.name? : Key → Option PyStr
  | .str s => some s
  | .other => none

/-- A dict: no string is a key twice. -/
structure Dict where
  items : List (Key × Item)
  nodup : (items.filterMap fun p => p.1.name?).Nodup

inductive Cell where
  | dict (d : Dict)
  | list (items : List Item)
  | tuple (items : List Item)

abbrev Heap := Nat → Cell

/-- An object given for a string field. -/
inductive Field where
  | none
  | str (s : PyStr)
  | other

/-- An aware datetime: the year it shows, and its time in UTC, nothing when that is outside the years
    a datetime can have. -/
structure Aware where
  year : Int
  utc : Option Timestamp
  year_range : 1 ≤ year ∧ year ≤ 9999
  utc_range : ∀ t ∈ utc, t.inYears = true

/-- An object given for a time. -/
inductive Moment where
  | none
  | naive
  | aware (m : Aware)
  | other

structure Event where
  email : Field
  phoneNumber : Field
  contactName : Field
  visitorId : Field
  properties : Item
  eventId : Field
  occurredAt : Moment

/-- What is raised; `value` is a `ValueError` that is no `UnicodeEncodeError`. -/
inductive Raised where
  | validation (message : List Char)
  | overflow
  | unicodeEncode
  | value

/-! ## §2. Properties. -/

def MAX_SAFE_INTEGER : Nat := maxSafeInteger

def MAX_DEPTH : Nat := 256

inductive Step where
  | index (n : Nat)
  | key (name : List Char)

/-- The path of a value, as messages name it. -/
def renderPath (steps : List Step) : List Char :=
  "properties".toList ++ steps.flatMap fun s => match s with
    | .index n => '[' :: ((Nat.repr n).toList ++ [']'])
    | .key [] => "[\"\"]".toList
    | .key name => '.' :: name

inductive Fault where
  | tooDeep
  | cycle
  | invalid
  | notUnicode
  | nonStringKey

/-- The text of a validation error. -/
def faultText (path : List Char) : Fault → List Char
  | .tooDeep => path ++ " is nested too deeply".toList
  | .cycle => path ++ " contains a cycle".toList
  | .invalid => path ++ " is not a JSON-compatible value".toList
  | .notUnicode => path ++ " must be valid Unicode".toList
  | .nonStringKey => path ++ " has a non-string key; property keys must be strings".toList

/-- A string of the copy. -/
def strLeaf (s : PyStr) : Except Fault (Value Number) :=
  match chars? s with
  | some cs => .ok (.str (utf16 cs))
  | none => .error .notUnicode

/-- A float of the copy. -/
def floatLeaf (x : Double) : Except Fault (Value Number) :=
  match x.portable? with
  | some y => .ok (.num (.float y))
  | none => .error .invalid

/-- `float(value)` of a finite decimal. -/
def decimalFloat (neg : Bool) (coefficient : Nat) (exponent : Int) : Double :=
  nearest neg (coefficient * (10 : ℚ) ^ exponent) (by positivity)

/-- A decimal of the copy. -/
def decimalLeaf : Decimal → Except Fault (Value Number)
  | .finite neg coefficient exponent => floatLeaf (decimalFloat neg coefficient exponent)
  | _ => .error .invalid

/-- The name of a key, and the test that it is a string of valid Unicode. -/
def keyName : Key → Except Fault (List Char)
  | .str s => (chars? s).elim (.error .notUnicode) .ok
  | .other => .error .nonStringKey

/-- The name of a key in the path of its value. -/
def keyChars (k : Key) : List Char := (keyName k).toOption.getD []

/-- The entries of a dict. -/
def dictEntries (items : List (Key × Item)) : List (Entry Item Step Fault) :=
  items.map fun p =>
    ⟨.key (keyChars p.1), match keyName p.1 with | .ok _ => none | .error f => some f, p.2, none⟩

/-- The entries of a list or a tuple. -/
def sequenceEntries (items : List Item) : List (Entry Item Step Fault) :=
  items.mapIdx fun n x => ⟨.index n, none, x, none⟩

/-- The names of a dict. -/
def dictNames (items : List (Key × Item)) : List (List CodeUnit) :=
  items.map fun p => utf16 (keyChars p.1)

/-- What `_normalize` finds at a value. -/
def shape (heap : Heap) : Item → Shape Item Nat Step Fault (Value Number)
  | .none => .leaf (.ok .null)
  | .bool b => .leaf (.ok (.bool b))
  | .str s => .leaf (strLeaf s)
  | .int n =>
      .leaf (if n.natAbs ≤ MAX_SAFE_INTEGER then .ok (.num (.integer n)) else .error .invalid)
  | .float x => .leaf (floatLeaf x)
  | .decimal d => .leaf (decimalLeaf d)
  | .ref id =>
      match heap id with
      | .dict d =>
          .node (some id) none (dictEntries d.items) fun ws => .obj ((dictNames d.items).zip ws)
      | .list items => .node (some id) none (sequenceEntries items) .arr
      | .tuple items => .node (some id) none (sequenceEntries items) .arr
  | .other => .leaf (.error .invalid)

/-- The properties as a graph. -/
def graph (heap : Heap) : Traversal Item Nat Step Fault (Value Number) :=
  ⟨shape heap, .tooDeep, .cycle⟩

/-- `_normalize` on the properties: with no ancestors, at depth zero. -/
def normalize (heap : Heap) (properties : Item) : Except Raised (Value Number) :=
  match visit (graph heap) (MAX_DEPTH + 1) [] [] properties with
  | .ok (value, _) => .ok value
  | .error (steps, f) => .error (.validation (faultText (renderPath steps) f))

/-- `isinstance(value, Mapping)`. -/
def isMapping (heap : Heap) : Item → Bool
  | .ref id => match heap id with
    | .dict _ => true
    | _ => false
  | _ => false

/-! ## §3. The body. -/

/-- The payload before it is written. -/
structure Payload where
  eventKey : PyStr
  eventId : PyStr
  occurredAt : List Char
  isCommon : Bool
  email : Option PyStr
  phoneNumber : Option PyStr
  contactName : Option PyStr
  visitorId : Option PyStr
  properties : Option (Value Number)

/-- The code units of a string that can be encoded. -/
def units? (s : PyStr) : Option (List CodeUnit) := (chars? s).map utf16

/-- The code units of a string that may be absent. -/
def optionalUnits? : Option PyStr → Option (Option (List CodeUnit))
  | none => some none
  | some s => (units? s).map some

/-- The payload as it is written, when its text can be encoded: what stands in a text beside its strings
    is ASCII. -/
def Payload.body? (p : Payload) : Option (Body Number) := do
  let eventKey ← units? p.eventKey
  let eventId ← units? p.eventId
  let email ← optionalUnits? p.email
  let phoneNumber ← optionalUnits? p.phoneNumber
  let contactName ← optionalUnits? p.contactName
  let visitorId ← optionalUnits? p.visitorId
  pure ⟨eventKey, eventId, utf16 p.occurredAt, p.isCommon, email, phoneNumber, contactName,
    visitorId, p.properties⟩

/-- `json.dumps(payload, ensure_ascii=False, allow_nan=False, separators=(",", ":")).encode("utf-8")`. -/
def Payload.encode (floats : FloatText) (p : Payload) : Except Raised (List UInt8) :=
  match p.body? with
  | some b =>
      .ok (CekatEvents.Encoding.utf8
        (ofUtf16Lossy (b.value.encode (minimalEscaping.encoder (Number.numeral floats))).text))
  | none => .error .unicodeEncode

/-- `normalize_visitor_id`. -/
def normalizeVisitorId : Field → Option PyStr
  | .str s => if stripStr s = [] then none else some (stripStr s)
  | _ => none

/-- The string fields, in the order they are checked. -/
def Event.stringFields (event : Event) : List (String × Field) :=
  [("email", event.email), ("phone_number", event.phoneNumber), ("contact_name", event.contactName),
   ("visitor_id", event.visitorId), ("event_id", event.eventId)]

/-- Neither `None` nor a string. -/
def Field.isOther : Field → Bool
  | .other => true
  | _ => false

/-- `value or ""`. -/
def Field.orEmpty : Field → PyStr
  | .str s => s
  | _ => []

/-- A field that is sent as it is given. -/
def Field.given : Field → Option PyStr
  | .str s => some s
  | _ => .none

/-- The event key, when it is a string that is not blank. -/
def requireKey : Field → Except Raised PyStr
  | .str s =>
      if stripStr s = [] then .error (.validation "event_key must be a non-empty string".toList)
      else .ok s
  | _ => .error (.validation "event_key must be a non-empty string".toList)

/-- The event, when it is one. -/
def requireEvent : Option Event → Except Raised Event
  | some event => .ok event
  | none => .error (.validation "event must be a cekat_event_sdk.Event".toList)

/-- The string fields hold strings. -/
def checkFields (event : Event) : Except Raised Unit :=
  match event.stringFields.find? fun f => f.2.isOther with
  | some f => .error (.validation (f.1.toList ++ " must be a string".toList))
  | none => .ok ()

/-- An email or a phone number is given. -/
def requireContact (event : Event) : Except Raised Unit :=
  if stripStr event.email.orEmpty = [] ∧ stripStr event.phoneNumber.orEmpty = [] then
    .error (.validation "at least one non-empty email or phone_number is required".toList)
  else .ok ()

/-- `moment.astimezone(timezone.utc)`. -/
def astimezone (m : Aware) : Except Raised Timestamp :=
  match m.utc with
  | some t => .ok t
  | none => .error .overflow

/-- `%Y`, which does not pad. -/
def yearText (year : Nat) : List Char :=
  if year < 10 then [digit year] else if year < 100 then twoDigits year
  else if year < 1000 then threeDigits year else fourDigits year

/-- `utc.strftime("%Y-%m-%dT%H:%M:%S.") + f"{utc.microsecond // 1000:03d}Z"`. -/
def strftime (t : Timestamp) : List Char := yearText t.year.toNat ++ t.iso.drop 4

/-- The time of an aware datetime, an `OverflowError` being handled. -/
def awareTime (m : Aware) : Except Raised (List Char) :=
  match astimezone m with
  | .ok t => .ok (strftime t)
  | .error .overflow =>
      .error (.validation "occurred_at must be between years 0001 and 9999".toList)
  | .error e => .error e

/-- The clock and the generator of IDs. -/
structure Seams where
  now : Aware
  newEventId : PyStr

/-- `_occurred_at`. -/
def occurredAt (now : Aware) : Moment → Except Raised (List Char)
  | .none => awareTime now
  | .aware m => awareTime m
  | .naive => .error (.validation "occurred_at must be timezone-aware".toList)
  | .other => .error (.validation "occurred_at must be a datetime".toList)

/-- The properties of the payload. -/
def buildProperties (heap : Heap) (properties : Item) : Except Raised (Option (Value Number)) :=
  match properties with
  | .none => .ok none
  | x =>
      if isMapping heap x then (normalize heap x).map some
      else .error (.validation "properties must be a dict with string keys".toList)

/-- `except (UnicodeEncodeError, ValueError)`. -/
def handleEncode : Raised → Raised
  | .unicodeEncode | .value =>
      .validation "event is not JSON-compatible; strings must be valid Unicode".toList
  | e => e

/-- The payload that `build_body` writes. -/
def buildPayload (seams : Seams) (heap : Heap) (eventKey : Field) (isCommon : Bool)
    (event : Option Event) (ambientVisitorId : Field) : Except Raised Payload := do
  let key ← requireKey eventKey
  let event ← requireEvent event
  checkFields event
  requireContact event
  let eventId := (normalizeVisitorId event.eventId).getD seams.newEventId
  let time ← occurredAt seams.now event.occurredAt
  let visitorId := (normalizeVisitorId event.visitorId).or (normalizeVisitorId ambientVisitorId)
  let properties ← buildProperties heap event.properties
  pure ⟨key, eventId, time, isCommon, event.email.given, event.phoneNumber.given,
    event.contactName.given, visitorId, properties⟩

/-- `build_body`. -/
def buildBody (floats : FloatText) (seams : Seams) (heap : Heap) (eventKey : Field) (isCommon : Bool)
    (event : Option Event) (ambientVisitorId : Field) : Except Raised (List UInt8) := do
  let payload ← buildPayload seams heap eventKey isCommon event ambientVisitorId
  (payload.encode floats).mapError handleEncode

end CekatEvents.Python.Validation
