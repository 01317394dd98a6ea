/-
  CekatEvents.Go.Context — the visitor of a request in the Go SDK (`context.go`).

  Of `net/http` it uses `Header.Get`, which returns the first value of a name, and `Request.Cookie`, which
  returns the first cookie of a name that can be read.  A context is what it holds of the visitor.
-/
import CekatEvents.Encoding.Space
import CekatEvents.Go.Response

namespace CekatEvents.Go

open CekatEvents.Encoding

/-! ## §1. `net/http`. -/

/-- `textproto.CanonicalMIMEHeaderKey` of a token; whether the next letter is made upper case. -/
def canonicalMIMEHeaderKey (upper : Bool) : List Char → List Char
  | [] => []
  | c :: cs =>
      let c := if upper then c.toUpper else c.toLower
      c :: canonicalMIMEHeaderKey (c == '-') cs

/-- A header: its names in canonical form, and their values in order. -/
abbrev Header := List (List Char × List Char)

/-- The header that holds these entries. -/
def newHeader (entries : List (List Char × List Char)) : Header :=
  entries.map fun entry => (canonicalMIMEHeaderKey true entry.1, entry.2)

/-- The values of a name. -/
def Header.values (h : Header) (name : List Char) : List (List Char) :=
  (h.filter fun entry => entry.1 = canonicalMIMEHeaderKey true name).map Prod.snd

/-- `Header.Get`. -/
def Header.get (h : Header) (name : List Char) : List Char := (h.values name).head?.getD []

/-- `textproto.TrimString`. -/
def trimString (s : List Char) : List Char :=
  trim (fun c => c == ' ' || c == '\t' || c == '\n' || c == '\r') s

/-- A character of a token. -/
def isTokenRune (c : Char) : Bool := c.isAlphanum || "!#$%&'*+-.^_|~".toList.contains c || c.toNat == 0x60

/-- `validCookieValueByte`. -/
def validCookieValueByte (c : Char) : Bool :=
  decide (0x20 ≤ c.toNat) && decide (c.toNat < 0x7F) && c != '"' && c != ';' && c != '\\'

/-- `parseCookieValue`: surrounding quotes are taken off. -/
def parseCookieValue (raw : List Char) : Option (List Char) :=
  let raw := if 1 < raw.length ∧ raw.head? = some '"' ∧ raw.getLast? = some '"' then raw.tail.dropLast
    else raw
  if raw.all validCookieValueByte then some raw else none

/-- One turn of the loop of `readCookies`. -/
def readCookie (name part : List Char) : Option (List Char) :=
  let part := trimString part
  let found := trimString (part.takeWhile fun c => c != '=')
  if found = [] || !found.all isTokenRune || found != name then none
  else parseCookieValue ((part.dropWhile fun c => c != '=').drop 1)

/-- `readCookies`: the values of the cookies of a name. -/
def readCookies (h : Header) (name : List Char) : List (List Char) :=
  (h.values "Cookie".toList).flatMap fun line => ((trimString line).splitOn ';').filterMap (readCookie name)

/-- `Request.Cookie`. -/
def Header.cookie (h : Header) (name : List Char) : Option (List Char) := (readCookies h name).head?

/-! ## §2. The SDK. -/

def VisitorHeader : List Char := "X-Cekat-Visitor-ID".toList

def VisitorCookie : List Char := "_cekat_visitor_id".toList

/-- `ResolveVisitorID`. -/
def ResolveVisitorID (header cookie : List Char) : Option (List Char) :=
  if trimSpace header ≠ [] then some (trimSpace header)
  else if trimSpace cookie ≠ [] then some (trimSpace cookie)
  else none

/-- `WithVisitorID`, on the visitor of the context. -/
def WithVisitorID (ctx : Option (List Char)) (visitorID : List Char) : Option (List Char) :=
  if trimSpace visitorID = [] then ctx else some (trimSpace visitorID)

/-- `WithVisitorFromRequest`: the visitor of the request's context before and after. -/
def WithVisitorFromRequest (ctx : Option (List Char)) (h : Header) : Option (List Char) :=
  let cookie := (h.cookie VisitorCookie).getD []
  match ResolveVisitorID (h.get VisitorHeader) cookie with
  | none => ctx
  | some visitorID => WithVisitorID ctx visitorID

end CekatEvents.Go
