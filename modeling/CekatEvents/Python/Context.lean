/-
  CekatEvents.Python.Context — the visitor of the current context in the Python SDK (`context.py`).

  A context variable is a cell that a scope sets; the token of the scope remembers what was in the cell.
  Header names are tokens, so that `lower` has ASCII letters to deal with.
-/
import CekatEvents.Python.Validation

namespace CekatEvents.Python.Context

open CekatEvents.Encoding CekatEvents.Python.Validation

/-! ## §1. Requests. -/

/-- `VISITOR_HEADER.lower()`. -/
def VISITOR_HEADER_lower : PyStr := ofChars "x-cekat-visitor-id".toList

def VISITOR_COOKIE : PyStr := ofChars "_cekat_visitor_id".toList

/-- `str.lower()` of a header name. -/
def lower (name : PyStr) : PyStr :=
  name.map fun c => if 65 ≤ c.val ∧ c.val ≤ 90 then Fin.ofNat 0x110000 (c.val + 32) else c

/-- `normalize_visitor_id` of a string or `None`. -/
def normalizeVisitor (value : Option PyStr) : Option PyStr :=
  normalizeVisitorId (match value with
    | some s => .str s
    | none => .none)

/-- One turn of the loop of `visitor_id_from_cookie_header`. -/
def fromPair (pair : PyStr) : Option PyStr :=
  if pair.contains 0x3D ∧ stripStr (pair.takeWhile fun c => c != 0x3D) = VISITOR_COOKIE then
    normalizeVisitor (some ((pair.dropWhile fun c => c != 0x3D).drop 1))
  else none

/-- `visitor_id_from_cookie_header`; an empty header is as good as none. -/
def visitorIdFromCookieHeader (cookieHeader : Option PyStr) : Option PyStr :=
  match cookieHeader with
  | none => none
  | some cookieHeader =>
      if cookieHeader = [] then none else (cookieHeader.splitOn 0x3B).findSome? fromPair

/-- The values of the headers of a name. -/
def valuesOf (name : PyStr) (headers : List (PyStr × PyStr)) : List PyStr :=
  (headers.filter fun header => lower header.1 = name).map Prod.snd

/-- `extract_visitor_id`: a header, then a raw cookie, then a parsed one. -/
def extractVisitorId (headers : List (PyStr × PyStr)) (cookies : PyStr → Option PyStr) :
    Option PyStr :=
  match (valuesOf VISITOR_HEADER_lower headers).findSome? fun value => normalizeVisitor (some value) with
  | some visitorId => some visitorId
  | none =>
      match (valuesOf (ofChars "cookie".toList) headers).findSome? fun value =>
          visitorIdFromCookieHeader (some value) with
      | some visitorId => some visitorId
      | none => normalizeVisitor (cookies VISITOR_COOKIE)

/-! ## §2. What is normalized. -/

/-- What is normalized stays as it is. -/
theorem normalizeVisitor_normalizeVisitor (value : Option PyStr) :
    normalizeVisitor (normalizeVisitor value) = normalizeVisitor value := by
  cases value with
  | none => rfl
  | some s =>
      show normalizeVisitor (if stripStr s = [] then none else some (stripStr s)) =
        if stripStr s = [] then none else some (stripStr s)
      split_ifs with hblank
      · rfl
      · have hstrip : stripStr (stripStr s) = stripStr s := trim_trim s
        show (if stripStr (stripStr s) = [] then none else some (stripStr (stripStr s))) = _
        rw [hstrip, if_neg hblank]

/-- A visitor that some normalized string is found to be is normalized. -/
theorem normalizeVisitor_findSome {α : Type} {f : α → Option PyStr} {xs : List α} {v : PyStr}
    (hf : ∀ x, normalizeVisitor (f x) = f x) (h : xs.findSome? f = some v) :
    normalizeVisitor (some v) = some v := by
  obtain ⟨x, -, hx⟩ := List.exists_of_findSome?_eq_some h
  rw [← hx]
  exact hf x

theorem normalizeVisitor_fromPair (pair : PyStr) :
    normalizeVisitor (fromPair pair) = fromPair pair := by
  unfold fromPair
  split_ifs
  · exact normalizeVisitor_normalizeVisitor _
  · rfl

theorem normalizeVisitor_cookieHeader (cookieHeader : Option PyStr) :
    normalizeVisitor (visitorIdFromCookieHeader cookieHeader) =
      visitorIdFromCookieHeader cookieHeader := by
  unfold visitorIdFromCookieHeader
  cases cookieHeader with
  | none => rfl
  | some cookieHeader =>
      show normalizeVisitor (if cookieHeader = [] then none
        else (cookieHeader.splitOn 0x3B).findSome? fromPair) =
          if cookieHeader = [] then none else (cookieHeader.splitOn 0x3B).findSome? fromPair
      split_ifs
      · rfl
      · cases h : (cookieHeader.splitOn 0x3B).findSome? fromPair with
        | none => rfl
        | some v => exact normalizeVisitor_findSome normalizeVisitor_fromPair h

/-- **The visitor of a request is normalized.** -/
theorem normalizeVisitor_extractVisitorId (headers : List (PyStr × PyStr))
    (cookies : PyStr → Option PyStr) :
    normalizeVisitor (extractVisitorId headers cookies) = extractVisitorId headers cookies := by
  unfold extractVisitorId
  cases hheader : (valuesOf VISITOR_HEADER_lower headers).findSome? fun value =>
      normalizeVisitor (some value) with
  | some v =>
      exact normalizeVisitor_findSome (fun value => normalizeVisitor_normalizeVisitor (some value))
        hheader
  | none =>
      cases hcookie : (valuesOf (ofChars "cookie".toList) headers).findSome? fun value =>
          visitorIdFromCookieHeader (some value) with
      | some v =>
          exact normalizeVisitor_findSome (fun value => normalizeVisitor_cookieHeader (some value))
            hcookie
      | none => exact normalizeVisitor_normalizeVisitor _

/-! ## §3. Scopes. -/

/-- What `ContextVar.set` returns: what the variable held before. -/
abbrev Token := Option PyStr

/-- Enter `visitor_scope(visitor_id)`: the new value of the variable, and the token. -/
def visitorScope (current visitorId : Option PyStr) : Option PyStr × Token :=
  (normalizeVisitor visitorId, current)

end CekatEvents.Python.Context
