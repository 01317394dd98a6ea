/-
  CekatEvents.Node.VisitorContext — the visitor of a request in the Node SDK (`visitor-context.ts`).

  Headers come as a `Headers` object or as a plain record.  `get` joins the values of a name; a record has
  a string, an array or anything else under each of its keys.  Header names are tokens, so that
  `toLowerCase` has ASCII letters to deal with.
-/
import CekatEvents.Browser.Allowlist
import CekatEvents.Node.Platform

namespace CekatEvents.Node.VisitorContext

open CekatEvents.Encoding CekatEvents.Browser

/-! ## §1. Cookies. -/

def VISITOR_HEADER : Str := units "x-cekat-visitor-id"

def VISITOR_COOKIE : Str := units "_cekat_visitor_id"

/-- `normalizeVisitorId`. -/
def normalizeVisitorId (visitorId : Option Str) : Option Str :=
  match visitorId with
  | none => none
  | some visitorId =>
      if Encoding.trim Browser.isTrimmed visitorId = [] then none
      else some (Encoding.trim Browser.isTrimmed visitorId)

/-- One turn of the loop of `visitorIdFromCookie`. -/
def fromCookie (cookie : Str) : Option Str :=
  if !cookie.contains 0x3D then none
  else if Encoding.trim Browser.isTrimmed (cookie.takeWhile fun u => u != 0x3D) != VISITOR_COOKIE then none
  else normalizeVisitorId (some ((cookie.dropWhile fun u => u != 0x3D).drop 1))

/-- `visitorIdFromCookie`. -/
def visitorIdFromCookie (cookieHeader : Str) : Option Str :=
  (cookieHeader.splitOn 0x3B).findSome? fromCookie

/-! ## §2. Headers. -/

/-- A value of a plain record: a string, an array of strings and others, or anything else. -/
inductive RecordValue where
  | string (s : Str)
  | array (items : List (Option Str))
  | other

/-- What is handed over as headers.  A `Headers` object is the list of its names, in lower case, and
    values. -/
inductive Headers where
  | headers (list : List (Str × Str))
  | record (entries : List (Str × RecordValue))

/-- `toLowerCase()` on a header name. -/
def toLowerCase (name : Str) : Str := name.map fun u => if 0x41 ≤ u ∧ u ≤ 0x5A then u + 0x20 else u

/-- The white space that `Headers` takes off a value. -/
def isHttpWhitespace (u : CodeUnit) : Bool := u == 0x09 || u == 0x0A || u == 0x0D || u == 0x20

/-- `new Headers(entries)`. -/
def newHeaders (entries : List (Str × Str)) : Headers :=
  .headers (entries.map fun entry => (toLowerCase entry.1, Encoding.trim isHttpWhitespace entry.2))

/-- `headers.get(name)`: the values of a name, joined by a comma and a space. -/
def get (list : List (Str × Str)) (name : Str) : Option Str :=
  match (list.filter fun entry => entry.1 = name).map Prod.snd with
  | [] => none
  | values => some ((units ", ").intercalate values)

/-- The strings of a value of a record. -/
def RecordValue.strings : RecordValue → List Str
  | .string s => [s]
  | .array items => items.filterMap id
  | .other => []

/-- `headerValues`. -/
def headerValues (headers : Headers) (name : Str) : List Str :=
  match headers with
  | .headers list => (get list name).toList
  | .record entries =>
      (entries.filter fun entry => toLowerCase entry.1 = name).flatMap fun entry => entry.2.strings

/-- `firstNonblank`. -/
def firstNonblank (values : List Str) : Option Str :=
  values.findSome? fun value => normalizeVisitorId (some value)

/-- `visitorIdFromCookies`. -/
def visitorIdFromCookies (cookieHeader : Option Str) (headerCookies : List Str) : Option Str :=
  match cookieHeader with
  | some cookieHeader => visitorIdFromCookie cookieHeader
  | none => headerCookies.findSome? visitorIdFromCookie

/-- The visitor that `runWithVisitorFromHeaders` runs its callback with. -/
def runWithVisitorFromHeaders (headers : Headers) (cookieHeader : Option Str) : Option Str :=
  let visitorId := match firstNonblank (headerValues headers VISITOR_HEADER) with
    | some visitorId => some visitorId
    | none => visitorIdFromCookies cookieHeader (headerValues headers (units "cookie"))
  normalizeVisitorId visitorId

end CekatEvents.Node.VisitorContext
