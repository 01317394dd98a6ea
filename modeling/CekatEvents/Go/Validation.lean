/-
  CekatEvents.Go.Validation — building a request body in the Go client (`validation.go`, `event.go`,
  `context.go`, `Client.track`).

  A Go string is a byte slice that need not be UTF-8.  `range` and `strings.TrimSpace` take it rune by
  rune, a byte that starts no character being a rune of its own that is no space; `json.Marshal` writes
  U+FFFD for such a byte.

  The values of the properties may be of any Go type: what `json.Marshal` makes of them is a parameter,
  `Platform`.  Its text is decoded again with numbers kept as literals, the last member of a name winning;
  the map that comes out is visited in an order of the runtime's own, so that of several values that are
  not portable any may be the one reported.
-/
import Mathlib.Data.List.Sort
import CekatEvents.Encoding.Space
import CekatEvents.Go.EncodingJson
import CekatEvents.JsonText.Escape
import CekatEvents.Payload.Number
import CekatEvents.Payload.Timestamp

namespace CekatEvents.Go

open CekatEvents.Arithmetic CekatEvents.Encoding CekatEvents.JsonText CekatEvents.Payload

/-! ## §1. Strings. -/

/-- How many bytes a rune takes. -/
def runeSize (r : Option Char) : Nat := r.elim 1 Char.utf8Size

/-- The runes of a string, each with its bytes. -/
def runeSlices : List (Option Char) → Bytes → List (Option Char × Bytes)
  | [], _ => []
  | r :: rs, s => (r, s.take (runeSize r)) :: runeSlices rs (s.drop (runeSize r))

/-- `strings.TrimSpace` of a string that need not be UTF-8. -/
def TrimSpace (s : Bytes) : Bytes :=
  (trim (fun r => r.1.elim false isSpace) (runeSlices (runes s) s)).flatMap Prod.snd

/-- The units that `json.Marshal` escapes so that a text may stand in HTML or JavaScript. -/
def unsafeInHTML (u : CodeUnit) : Bool :=
  u == unit '<' || u == unit '>' || u == unit '&' || u == 0x2028 || u == 0x2029

theorem unsafeInHTML_surrogate {u : CodeUnit} (h : isBasic u = false) : unsafeInHTML u = false := by
  cases hu : unsafeInHTML u with
  | false => rfl
  | true =>
      unfold unsafeInHTML at hu
      simp only [Bool.or_eq_true, beq_iff_eq] at hu
      rcases hu with (((rfl | rfl) | rfl) | rfl) | rfl <;> exact absurd h (by decide)

/-- How `json.Marshal` escapes the characters of a string. -/
def htmlEscaping : Escaping :=
  escapingAlso unsafeInHTML fun u v hu hv => by
    have hbu : isBasic u = false := by simp [isBasic, hu]
    have hbv : isBasic v = false := by simp [isBasic, hv]
    rw [unsafeInHTML_surrogate hbu, unsafeInHTML_surrogate hbv]

/-- The elements written for a rune: an escaped U+FFFD for a byte that starts no character. -/
def runePieces : Option Char → List Piece
  | some c => (utf16Char c).map htmlEscaping.piece
  | none => [hexPiece 0xFFFD]

/-- The elements written for a string. -/
def stringPieces (s : Bytes) : List Piece := (runes s).flatMap runePieces

/-! ## §2. Events. -/

/-- `Event`; no time for the zero time, no properties for a nil map. -/
structure Event (P : Type) where
  email : Bytes
  phoneNumber : Bytes
  contactName : Bytes
  visitorID : Bytes
  eventID : Bytes
  occurredAt : Option Timestamp
  properties : Option P

/-- The visitor ID a context carries. -/
abbrev Context := Option Bytes

/-- `WithVisitorID`. -/
def withVisitorID (ctx : Context) (visitorID : Bytes) : Context :=
  if TrimSpace visitorID = [] then ctx else some (TrimSpace visitorID)

/-- `wirePayload`; a nil map has no members. -/
structure WirePayload where
  eventKey : Bytes
  eventID : Bytes
  occurredAt : List Char
  contactName : Bytes
  phoneNumber : Bytes
  email : Bytes
  visitorID : Bytes
  isCommon : Bool
  properties : List (List CodeUnit × Value Numeral)

/-- `encoding/json` and the runtime. -/
structure Platform (P : Type) where
  /-- `json.Marshal` of a map of properties: its text, or the text of the error. -/
  marshalProperties : P → Except Cause Bytes
  texts : UnmarshalTexts
  /-- Which of several values a visit of maps comes to first, by their paths. -/
  firstVisited : List (List Char) → List Char

/-- The clock and the generator of IDs. -/
structure Seams where
  now : Timestamp
  newEventID : Bytes

/-- `validateEvent`. -/
def validateEvent {P : Type} (eventKey : Bytes) (event : Event P) : Except Error Unit :=
  if TrimSpace eventKey = [] then .error (.validation "event key must not be blank".toList)
  else if TrimSpace event.email = [] ∧ TrimSpace event.phoneNumber = [] then
    .error (.validation "event must include a non-blank email or phone number".toList)
  else match event.occurredAt with
    | none => .ok ()
    | some t =>
        if t.inYears then .ok ()
        else .error (.validation "occurred at must be between years 0001 and 9999".toList)

/-! ## §3. Properties. -/

mutual
/-- A value decoded into an `any`, numbers kept as literals. -/
def anyValue : Ast → Value Numeral
  | .null => .null
  | .bool b => .bool b
  | .nonFinite _ => .null
  | .num n => .num n
  | .str ps => .str (utf16 (goString ps))
  | .arr xs => .arr (anyElems xs)
  | .obj ms => .obj (anyMembers [] ms)
/-- The elements of a slice. -/
def anyElems : List Ast → List (Value Numeral)
  | [] => []
  | x :: xs => anyValue x :: anyElems xs
/-- A map with members put into it. -/
def anyMembers (acc : List (List CodeUnit × Value Numeral)) :
    List (List Piece × Ast) → List (List CodeUnit × Value Numeral)
  | [] => acc
  | (k, x) :: ms => anyMembers (putKey acc (utf16 (goString k)) (anyValue x)) ms
end

/-- A text decoded into a map. -/
def unmarshalMap (texts : UnmarshalTexts) : Ast → Except Cause (List (List CodeUnit × Value Numeral))
  | .obj ms => .ok (anyMembers [] ms)
  | .null => .ok []
  | t => .error (texts.typeError t)

/-- `portableNumber`: beyond 64 bits `ParseInt` fails, and the number is beyond the safe ones as well. -/
def portableNumber (n : Numeral) : Bool :=
  if n.frac.isNone && n.exp.isNone then decide (natValue n.int ≤ maxSafeInteger)
  else (readDouble n).portable?.isSome

/-- `propertyPath`. -/
def propertyPath (parent : List Char) (key : List CodeUnit) : List Char :=
  if key = [] then parent ++ "[\"\"]".toList else parent ++ '.' :: ofUtf16Lossy key

/-- The path of an element. -/
def indexPath (parent : List Char) (index : Nat) : List Char :=
  parent ++ '[' :: ((Nat.repr index).toList ++ [']'])

mutual
/-- `validatePortableJSON`: the paths that may be reported. -/
def unportable (path : List Char) : Value Numeral → List (List Char)
  | .num n => if portableNumber n then [] else [path]
  | .arr xs => unportableElems path 0 xs
  | .obj ms => unportableMembers path ms
  | _ => []
/-- Elements are visited one after another. -/
def unportableElems (path : List Char) (index : Nat) : List (Value Numeral) → List (List Char)
  | [] => []
  | x :: xs =>
      match unportable (indexPath path index) x with
      | [] => unportableElems path (index + 1) xs
      | paths => paths
/-- Members are visited in any order. -/
def unportableMembers (path : List Char) : List (List CodeUnit × Value Numeral) → List (List Char)
  | [] => []
  | (k, x) :: ms => unportable (propertyPath path k) x ++ unportableMembers path ms
end

/-- The error of properties that cannot be encoded or decoded. -/
def incompatibleProperties (cause : Cause) : Error :=
  .validation ("properties is not a JSON-compatible value: ".toList ++ cause)

section Build

variable {P : Type} (platform : Platform P)

/-- `normalizeProperties`. -/
def normalizeProperties : Option P → Except Error (List (List CodeUnit × Value Numeral))
  | none => .ok []
  | some properties => do
      let encoded ← (platform.marshalProperties properties).mapError incompatibleProperties
      let tree ← (syntaxTree platform.texts encoded).mapError incompatibleProperties
      let normalized ← (unmarshalMap platform.texts tree).mapError incompatibleProperties
      match unportableMembers "properties".toList normalized with
      | [] => pure normalized
      | paths => .error (.validation
          (platform.firstVisited paths ++ " is not a JSON-compatible value".toList))

/-! ## §4. The body. -/

/-- `buildPayload`. -/
def buildPayload (seams : Seams) (ctx : Context) (eventKey : Bytes) (isCommon : Bool)
    (event : Event P) : Except Error WirePayload := do
  validateEvent eventKey event
  let properties ← normalizeProperties platform event.properties
  let visitorID := TrimSpace event.visitorID
  let visitorID := if visitorID = [] then ctx.getD [] else visitorID
  let eventID := TrimSpace event.eventID
  let eventID := if eventID = [] then seams.newEventID else eventID
  pure ⟨eventKey, eventID, (event.occurredAt.getD seams.now).iso, event.contactName,
    event.phoneNumber, event.email, visitorID, isCommon, properties⟩

/-- The members of a map in the order of their keys. -/
def byKey (a b : List CodeUnit × Value Numeral) : Prop :=
  utf8 (ofUtf16Lossy a.1) ≤ utf8 (ofUtf16Lossy b.1)

instance : DecidableRel byKey := fun a b =>
  inferInstanceAs (Decidable (utf8 (ofUtf16Lossy a.1) ≤ utf8 (ofUtf16Lossy b.1)))

mutual
/-- A value as it is marshalled, maps in the order of their keys. -/
def sortKeys : Value Numeral → Value Numeral
  | .arr xs => .arr (sortElems xs)
  | .obj ms => .obj ((sortMembers ms).insertionSort byKey)
  | v => v
/-- The same for elements. -/
def sortElems : List (Value Numeral) → List (Value Numeral)
  | [] => []
  | x :: xs => sortKeys x :: sortElems xs
/-- The same for members. -/
def sortMembers : List (List CodeUnit × Value Numeral) → List (List CodeUnit × Value Numeral)
  | [] => []
  | (k, x) :: ms => (k, sortKeys x) :: sortMembers ms
end

/-- A field of the payload. -/
def field (name : String) (t : Ast) : List Piece × Ast := ((units name).map .plain, t)

/-- A string field that is left out when it is empty. -/
def omitEmpty (name : String) (s : Bytes) : List (List Piece × Ast) :=
  if s = [] then [] else [field name (.str (stringPieces s))]

/-- The properties, left out when there are none. -/
def propertiesField (properties : List (List CodeUnit × Value Numeral)) : List (List Piece × Ast) :=
  if properties.isEmpty then []
  else [field "properties" ((sortKeys (.obj properties)).encode (htmlEscaping.encoder id))]

/-- The payload as a syntax tree. -/
def WirePayload.tree (p : WirePayload) : Ast :=
  .obj ([field "event_key" (.str (stringPieces p.eventKey)),
      field "event_id" (.str (stringPieces p.eventID)),
      field "occurred_at" (.str (stringPieces (utf8 p.occurredAt)))] ++
    omitEmpty "contact_name" p.contactName ++ omitEmpty "phone_number" p.phoneNumber ++
    omitEmpty "email" p.email ++ omitEmpty "visitor_id" p.visitorID ++
    [field "is_common" (.bool p.isCommon)] ++ propertiesField p.properties)

/-- `json.Marshal` of the payload. -/
def WirePayload.marshal (p : WirePayload) : Bytes := utf8 (ofUtf16Lossy p.tree.text)

/-- What `track` delivers. -/
def encodeBody (seams : Seams) (ctx : Context) (eventKey : Bytes) (isCommon : Bool)
    (event : Event P) : Except Error Bytes := do
  let payload ← buildPayload platform seams ctx eventKey isCommon event
  pure payload.marshal

end Build

end CekatEvents.Go
