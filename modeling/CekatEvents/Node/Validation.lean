/-
  CekatEvents.Node.Validation — the payload builder of the Node client (`validation.ts`).

  The functions are those of the source, in any realm: every look at the event or at its properties is a
  question to an object, asked as often as the source asks it.  `frames` is the depth of the stack, which
  `copyJsonValue` uses up with each level.
-/
import CekatEvents.Node.Realm

namespace CekatEvents.Node

open CekatEvents.Arithmetic CekatEvents.Encoding CekatEvents.JsonText

/-! ## §1. Errors. -/

section Errors

variable {ι σ α : Type}

/-- `throw new ValidationError(message)`. -/
def refuse (message : Str) : JS ι σ α := throw (.validation message)

/-- `invalidValue`. -/
def invalidValue (path : Str) : JS ι σ α :=
  refuse (path ++ units " is not a JSON-compatible value")

/-- `propertyPath`. -/
def propertyPath (parent key : Str) : Str :=
  if key = [] then parent ++ units "[\"\"]" else parent ++ unit '.' :: key

/-- The path of an element. -/
def elementPath (parent : Str) (index : Nat) : Str := parent ++ unit '[' :: indexKey index ++ [unit ']']

end Errors

/-! ## §2. Events. -/

section Events

variable {ι σ : Type} (R : Realm ι σ)

/-- `event[field]`. -/
def field (event : ι) (name : String) : JS ι σ (Unknown ι) := R.get event (.string (units name))

/-- A field, if it is there, is a string. -/
def requireString (event : ι) (name : String) : JS ι σ Unit := do
  let value ← field R event name
  if value.isUndefined then pure ()
  else
    let value ← field R event name
    if value.isString then pure () else refuse (units name ++ units " must be a string")

/-- `event.email?.trim() === '' || event.email === undefined`. -/
def lacks (event : ι) (name : String) : JS ι σ Bool := do
  let value ← field R event name
  let value ← optionalTrim R value
  if value.isEmptyString then pure true
  else
    let value ← field R event name
    pure value.isUndefined

/-- The fields that are strings. -/
def stringFields : List String := ["email", "phoneNumber", "contactName", "visitorId", "eventId"]

/-- The year of `occurredAt`; nothing, as for `NaN`, when it is no `Date`. -/
def yearOf (event : ι) : JS ι σ (Option Int) := do
  let occurredAt ← field R event "occurredAt"
  let isDate ← R.instanceofDate occurredAt
  if isDate then
    let occurredAt ← field R event "occurredAt"
    R.getUTCFullYear occurredAt
  else pure none

/-- `occurredAt`, if it is there, is a date of a year that can be written. -/
def requireTime (event : ι) : JS ι σ Unit := do
  let occurredAt ← field R event "occurredAt"
  if occurredAt.isUndefined then pure ()
  else
    let year ← yearOf R event
    if year.any fun y => decide (1 ≤ y) && decide (y ≤ 9999) then pure ()
    else refuse (units "occurredAt must be a valid Date between years 0001 and 9999")

/-- There is an email or a phone number. -/
def requireIdentity (event : ι) : JS ι σ Unit := do
  let lacksEmail ← lacks R event "email"
  if lacksEmail then
    let lacksPhoneNumber ← lacks R event "phoneNumber"
    if lacksPhoneNumber then
      refuse (units "event must include a non-blank email or phone number")

/-- `validateEvent`. -/
def validateEvent (eventKey : Unknown ι) (event : Unknown ι) : JS ι σ ι :=
  if eventKey.isNonblankString then
    match event with
    | .object o =>
        if R.callable o then refuse (units "event must be an object")
        else do
          stringFields.forM (requireString R o)
          requireTime R o
          requireIdentity R o
          pure o
    | _ => refuse (units "event must be an object")
  else refuse (units "event key must not be blank")

/-- `normalizeVisitorId`. -/
def normalizeVisitorId (visitorId : Unknown ι) : JS ι σ (Unknown ι) := do
  if visitorId.isUndefined then pure .undefined
  else
    let normalized ← trimmed R visitorId
    pure (if normalized.isEmptyString then .undefined else normalized)

/-- `isArrayIndex(key, o.length)`: `Number(key)` matters only where `String` gives the key back, so where
    the key is the decimal of a safe integer. -/
def isArrayIndex (key : Str) (o : ι) : JS ι σ Bool := do
  let below ← R.belowLength (natValue key) o
  pure (below && decide (indexKey (natValue key) = key ∧ natValue key ≤ maxSafeInteger))

end Events

/-! ## §3. Copying properties. -/

section Copy

variable {ι σ : Type} [DecidableEq ι] (R : Realm ι σ)

/-- A copier: of a value, under ancestors and at a path.  It gives the copy and the ancestors after it. -/
abbrev Copier (ι σ : Type) := List ι → Unknown ι → Str → JS ι σ (Value Finite × List ι)

/-- The longest array. -/
def maxArrayLength : Nat := 2 ^ 32 - 1

/-- The elements of an array from an index on, with room for so many in the copy. -/
def copyElements (copy : Copier ι σ) (o : ι) (path : Str) :
    Nat → Nat → List ι → JS ι σ (List (Value Finite) × List ι)
  | room, index, ancestors => do
      if ← R.belowLength index o then
        match ← R.getOwnProperty o (.string (indexKey index)) with
        | some (.data value true) => do
            let (copied, ancestors) ← copy ancestors value (elementPath path index)
            match room with
            -- `push` on an array that is full
            | 0 => throw .rangeError
            | room + 1 => do
                let (rest, ancestors) ← copyElements copy o path room (index + 1) ancestors
                pure (copied :: rest, ancestors)
        | _ => invalidValue (elementPath path index)
      else pure ([], ancestors)

/-- The members of an object. -/
def copyMembers (copy : Copier ι σ) (o : ι) (path : Str) :
    List Str → List ι → JS ι σ (List (Str × Value Finite) × List ι)
  | [], ancestors => pure ([], ancestors)
  | key :: keys, ancestors => do
      match ← R.getOwnProperty o (.string key) with
      | some (.data value _) => do
          let (copied, ancestors) ← copy ancestors value (propertyPath path key)
          let (rest, ancestors) ← copyMembers copy o path keys ancestors
          pure ((key, copied) :: rest, ancestors)
      | _ => invalidValue (propertyPath path key)

/-- The keys of an array are the indices of elements. -/
def requireIndices (o : ι) (path : Str) : List Str → JS ι σ Unit
  | [] => pure ()
  | key :: keys => do
      if ← isArrayIndex R key o then requireIndices o path keys
      else invalidValue path

/-- The copy of an object that is its own ancestor no more than once. -/
def copyObject (copy : Copier ι σ) (ancestors : List ι) (o : ι) (path : Str) :
    JS ι σ (Value Finite × List ι) := do
  if ← hasEnumerableSymbol R o then invalidValue path
  else if ← R.isArray o then
    let keys ← objectKeys R o
    requireIndices R o path keys
    let (elements, ancestors) ← copyElements R copy o path maxArrayLength 0 ancestors
    pure (.arr elements, ancestors)
  else
    let prototype ← R.getPrototypeOf o
    if prototype = some R.objectPrototype ∨ prototype = none then
      let keys ← objectKeys R o
      let (members, ancestors) ← copyMembers R copy o path keys ancestors
      pure (.obj members, ancestors)
    else invalidValue path

/-- `copyJsonValue`.  An object is put into the set of ancestors on the way in and taken out on the way
    out; the set does not matter any more when something was thrown. -/
def copyJsonValue : Nat → Copier ι σ
  | 0, _, _, _ => throw .rangeError
  | frames + 1, ancestors, value, path =>
      match value with
      | .null => pure (.null, ancestors)
      | .boolean b => pure (.bool b, ancestors)
      | .string s => pure (.str s, ancestors)
      | .number x =>
          match x.portable? with
          | some y => pure (.num y, ancestors)
          | none => invalidValue path
      | .object o =>
          if R.callable o then invalidValue path
          else if o ∈ ancestors then refuse (path ++ units " contains a cycle")
          else do
            let (copied, ancestors) ← copyObject R (copyJsonValue frames) (o :: ancestors) o path
            pure (copied, ancestors.filter (· ≠ o))
      | _ => invalidValue path

end Copy

/-! ## §4. Payloads. -/

/-- `WirePayload`. -/
structure WirePayload (ι : Type) where
  eventKey : Unknown ι
  eventId : Unknown ι
  occurredAt : Unknown ι
  isCommon : Bool
  email : Option (Unknown ι)
  phoneNumber : Option (Unknown ι)
  contactName : Option (Unknown ι)
  visitorId : Option (Unknown ι)
  properties : Option (Value Finite)

section Payload

variable {ι σ : Type} [DecidableEq ι] (R : Realm ι σ) (frames : Nat)

/-- `first ?? second`. -/
def nullish (first : Unknown ι) (second : JS ι σ (Unknown ι)) : JS ι σ (Unknown ι) :=
  if first.isNullish then second else pure first

/-- `(occurredAt ?? clock.now()).toISOString()`. -/
def sentTime (occurredAt : Unknown ι) : JS ι σ (Unknown ι) :=
  if occurredAt.isNullish then Unknown.string <$> R.now else R.toISOString occurredAt

/-- A field that is sent as it is: `if (event.email !== undefined) payload.email = event.email`. -/
def sentField (event : ι) (name : String) : JS ι σ (Option (Unknown ι)) := do
  let value ← field R event name
  if value.isUndefined then pure none
  else
    let value ← field R event name
    pure (some value)

/-- The properties that are sent. -/
def sentProperties (event : ι) : JS ι σ (Option (Value Finite)) := do
  let value ← field R event "properties"
  if value.isUndefined then pure none
  else
    let value ← field R event "properties"
    let (copied, _) ← copyJsonValue R frames [] value (units "properties")
    pure (some copied)

/-- What is sent of a valid event. -/
def payloadOf (eventKey : Unknown ι) (isCommon : Bool) (event : ι) (ambientVisitorId : Unknown ι) :
    JS ι σ (WirePayload ι) := do
  let visitorId ← field R event "visitorId"
  let explicitVisitorId ← normalizeVisitorId R visitorId
  let visitorId ← nullish explicitVisitorId (normalizeVisitorId R ambientVisitorId)
  let eventId ← field R event "eventId"
  let eventId ← normalizeVisitorId R eventId
  let eventId ← nullish eventId (Unknown.string <$> R.newEventId)
  let occurredAt ← field R event "occurredAt"
  let occurredAt ← sentTime R occurredAt
  let email ← sentField R event "email"
  let phoneNumber ← sentField R event "phoneNumber"
  let contactName ← sentField R event "contactName"
  let properties ← sentProperties R frames event
  pure ⟨eventKey, eventId, occurredAt, isCommon, email, phoneNumber, contactName,
    if visitorId.isUndefined then none else some visitorId, properties⟩

/-- `buildPayload`. -/
def buildPayload (eventKey : Unknown ι) (isCommon : Bool) (event : Unknown ι)
    (ambientVisitorId : Unknown ι) : JS ι σ (WirePayload ι) := do
  let event ← validateEvent R eventKey event
  payloadOf R frames eventKey isCommon event ambientVisitorId

/-- No property of one of the two names that the order operations set. -/
def refuseOwn (properties : ι) : List String → JS ι σ Unit
  | [] => pure ()
  | key :: keys => do
      if ← hasOwn R properties (.string (units key)) then
        refuse (units "properties must not contain \"" ++ units key ++
          units "\"; pass it as the orderPaid argument")
      else refuseOwn properties keys

/-- The properties of an order are looked at where they are an object. -/
def checkProperties : Unknown ι → JS ι σ Unit
  | .object p => if R.callable p then pure () else refuseOwn R p ["amount", "currency"]
  | _ => pure ()

/-- `{ ...event, properties: { ...properties, amount, currency } }`. -/
def mergeOrder (amount currency properties : Unknown ι) (event : ι) : JS ι σ (Unknown ι) := do
  let fields ← spread R (.object event)
  let members ← spread R properties
  let merged ← newObject R (putKey (putKey members (.string (units "amount")) amount)
    (.string (units "currency")) currency)
  newObject R (putKey fields (.string (units "properties")) merged)

/-- `withOrderPaidProperties`. -/
def withOrderPaidProperties (amount currency event : Unknown ι) : JS ι σ (Unknown ι) :=
  if amount.isFiniteNumber then
    if currency.isNonblankString then
      match event with
      | .object o =>
          if R.callable o then pure event
          else do
            let properties ← field R o "properties"
            checkProperties R properties
            mergeOrder R amount currency properties o
      | _ => pure event
    else refuse (units "currency must not be blank")
  else refuse (units "amount must be a finite number")

end Payload

end CekatEvents.Node
