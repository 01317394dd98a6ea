/-
  CekatEvents.Php.VisitorExtractor — the visitor of a cookie header (`Context/VisitorExtractor.php`).
-/
import CekatEvents.Encoding.Space
import CekatEvents.Php.PayloadBuilder

namespace CekatEvents.Php.VisitorExtractor

def COOKIE : Bytes := ascii "_cekat_visitor_id"

/-- `normalize`. -/
def normalize (visitorId : Option Bytes) : Option Bytes :=
  match visitorId with
  | none => none
  | some visitorId => if trim visitorId = [] then none else some (trim visitorId)

/-- One turn of the loop of `fromCookieHeader`. -/
def fromPair (pair : Bytes) : Option Bytes :=
  if !pair.contains 0x3D || trim (pair.takeWhile fun b => b != 0x3D) != COOKIE then none
  else normalize (some ((pair.dropWhile fun b => b != 0x3D).drop 1))

/-- `fromCookieHeader`. -/
def fromCookieHeader (cookieHeader : Bytes) : Option Bytes :=
  (cookieHeader.splitOn 0x3B).findSome? fromPair

end CekatEvents.Php.VisitorExtractor
