/-
  CekatEvents.Browser.WebPlatform — the requests of a page, as the Fetch and XMLHttpRequest standards
  describe them.

  The URL parser, the headers that the platform keeps to itself and the settings that neither the SDK nor
  a header depends on (credentials, redirects, timeouts and so on) are parameters.  Nothing stands for an
  exception where a function returns an `Option`.

  Main results:

    • `newRequest_lawful` — a `Request` keeps to the rules of its constructor;
    • `newRequest_again`  — so it can be made again from its own members, with headers of its own.
-/
import CekatEvents.Browser.Propagation

namespace CekatEvents.Browser.Web

open CekatEvents.Encoding

/-! ## §1. Headers. -/

/-- The values of a header list, by the names in lower case. -/
abbrev Headers := Str → Option Str

/-- A character of a token of HTTP. -/
def isTokenUnit (u : CodeUnit) : Bool :=
  (decide (0x30 ≤ u) && decide (u ≤ 0x39)) || (decide (0x41 ≤ u) && decide (u ≤ 0x5A)) ||
    (decide (0x61 ≤ u) && decide (u ≤ 0x7A)) || (units "!#$%&'*+-.^_`|~").contains u

def isToken (name : Str) : Bool := !name.isEmpty && name.all isTokenUnit

/-- A byte string without a NUL or a line break. -/
def isHeaderValue (value : Str) : Bool :=
  value.all fun u => decide (u ≤ 0xFF) && u != 0 && u != 0x0A && u != 0x0D

/-- A header value loses the white space of HTTP at its ends. -/
def normalizeValue (value : Str) : Str :=
  trim (fun u => u == 0x09 || u == 0x0A || u == 0x0D || u == 0x20) value

/-- `Headers.set`, on headers that are not those of a request. -/
def Headers.set (headers : Headers) (name value : Str) : Option Headers :=
  if isToken name && isHeaderValue (normalizeValue value) then
    some (Function.update headers (toLowerCase name) (some (normalizeValue value)))
  else none

/-- `HeadersInit`. -/
inductive HeadersInit where
  | entries (entries : List (Str × Str))
  | object (headers : Headers)

/-! ## §2. Methods. -/

def toUpperCase (method : Str) : Str := method.map fun u => if 0x61 ≤ u ∧ u ≤ 0x7A then u - 0x20 else u

def forbiddenMethods : List Str := [units "CONNECT", units "TRACE", units "TRACK"]

def standardMethods : List Str :=
  [units "DELETE", units "GET", units "HEAD", units "OPTIONS", units "POST", units "PUT"]

/-- A method is checked, and written in upper case if it is a standard one. -/
def normalizeMethod (method : Str) : Option Str :=
  if !isToken method || forbiddenMethods.contains (toUpperCase method) then none
  else if standardMethods.contains (toUpperCase method) then some (toUpperCase method)
  else some method

/-- The methods whose requests have no body. -/
def isBodyless (method : Str) : Bool := [units "GET", units "HEAD"].contains method

/-- The methods of no-CORS requests. -/
def isSimple (method : Str) : Bool := [units "GET", units "HEAD", units "POST"].contains method

theorem normalizeMethod_again {method normal : Str} (h : normalizeMethod method = some normal) :
    normalizeMethod normal = some normal := by
  have hstandard : ∀ m ∈ standardMethods, normalizeMethod m = some m := by decide
  have hmethod := h
  unfold normalizeMethod at h
  split_ifs at h with hbad hupper
  · cases h
    exact hstandard _ (List.contains_iff_mem.mp hupper)
  · cases h
    exact hmethod

/-! ## §3. Requests. -/

inductive RequestMode where
  | sameOrigin
  | cors
  | noCors
  | navigate
  deriving DecidableEq

/-- A body, and the `Content-Type` of a request with it, by the one that the caller set. -/
structure Body (β : Type) where
  data : β
  contentType : Option Str → Option Str

/-- What is sent. -/
structure Request (β σ : Type) where
  url : URL
  method : Str
  mode : RequestMode
  headers : Headers
  body : Option β
  settings : σ

/-- The parts of the platform that are not modelled.  A header of a request is kept or left out, by its
    name and the whole value; a visitor header is kept, except on no-CORS requests.  The `href` of a URL
    can be parsed again. -/
structure WebPlatform (σ : Type) where
  parse : UrlParser
  keeps : RequestMode → Str → Str → Bool
  defaults : σ
  keeps_visitor : ∀ mode value, mode ≠ .noCors → keeps mode VISITOR_HEADER value = true
  reparses : ∀ url base parsed, parse url base = some parsed → ∃ again, parse parsed.href none = some again

/-- `RequestInit`, with what its other members make of the settings. -/
structure RequestInit (β σ : Type) where
  method : Option Str
  mode : Option RequestMode
  headers : Option HeadersInit
  body : Option (Body β)
  settings : σ → Option σ

section Requests

variable {β σ : Type} (platform : WebPlatform σ)

/-- **What the constructor checks of a request.** -/
structure Request.Lawful (request : Request β σ) : Prop where
  url : ∃ text base, platform.parse text base = some request.url
  method : normalizeMethod request.method = some request.method
  mode : request.mode ≠ .navigate
  simple : request.mode = .noCors → isSimple request.method = true
  headers : ∀ name value, request.headers name = some value →
    platform.keeps request.mode name value = true
  body : request.body.isSome = true → isBodyless request.method = false

variable (β) in
/-- The input of `fetch`: a URL, unless its conversion to a string throws, or a `Request`, whose body may
    have been read or locked. -/
inductive RequestInfo where
  | url (url : Option Str)
  | request (request : Request β σ) (lawful : request.Lawful platform) (bodyUsed : Bool)

variable {platform}

def RequestInfo.bodyUsed : RequestInfo β platform → Bool
  | .url _ => false
  | .request given _ used => given.body.isSome && used

variable (platform)

/-- `Headers.append`.  A value of several parts is kept if each part is, so the combined one is asked
    about. -/
def append (mode : RequestMode) (headers : Headers) (name value : Str) : Option Headers :=
  if isToken name && isHeaderValue (normalizeValue value) then
    let combined :=
      (headers (toLowerCase name)).elim (normalizeValue value) (· ++ units ", " ++ normalizeValue value)
    if platform.keeps mode (toLowerCase name) combined then
      some (Function.update headers (toLowerCase name) (some combined))
    else some headers
  else none

/-- The headers of a request are filled. -/
def fill (mode : RequestMode) : HeadersInit → Option Headers
  | .entries entries => entries.foldlM (fun headers entry => append platform mode headers entry.1 entry.2)
      fun _ => none
  | .object headers => some fun name => (headers name).filter (platform.keeps mode name)

/-- The `Content-Type` of a request with a body. -/
def describe (mode : RequestMode) (body : Option (Body β)) (headers : Headers) : Headers :=
  match body with
  | none => headers
  | some body => fun name =>
      if name = units "content-type" then (body.contentType (headers name)).filter (platform.keeps mode name)
      else headers name

/-- The request that the constructor starts with: a new one, without credentials in its URL, or the one
    that it was given. -/
def RequestInfo.start (baseURL : Str) : RequestInfo β platform → Option (Request β σ)
  | .url text => do
      let parsed ← platform.parse (← text) (some baseURL)
      if parsed.username != [] || parsed.password != [] then none
      else some ⟨parsed, units "GET", .cors, fun _ => none, none, platform.defaults⟩
  | .request given _ _ => some given

/-- What the constructor refuses: a mode of navigations, another method than the simple ones in the no-CORS
    mode, a body where the method has none, and a body that was read or locked. -/
def isRefused (mode : RequestMode) (method : Str) (hasBody unusable : Bool) : Bool :=
  decide (mode = .navigate) || (decide (mode = .noCors) && !isSimple method) ||
    (hasBody && isBodyless method) || unusable

/-- `new Request(input, init)`. -/
def newRequest (baseURL : Str) (input : RequestInfo β platform) (init : RequestInit β σ) :
    Option (Request β σ) := do
  let start ← input.start platform baseURL
  let mode := init.mode.getD start.mode
  let method ← init.method.elim (some start.method) normalizeMethod
  let settings ← init.settings start.settings
  let headers ← fill platform mode (init.headers.getD (.object start.headers))
  let body := (init.body.map (·.data)).or start.body
  if isRefused mode method body.isSome (init.body.isNone && input.bodyUsed) then none
  else some ⟨start.url, method, mode, describe platform mode init.body headers, body, settings⟩

/-! ## §4. What the constructor makes. -/

variable {platform}

/-- **The parts of a new request.** -/
theorem newRequest_eq_some {baseURL : Str} {input : RequestInfo β platform} {init : RequestInit β σ}
    {request : Request β σ} (h : newRequest platform baseURL input init = some request) :
    ∃ start headers, input.start platform baseURL = some start ∧
      init.method.elim (some start.method) normalizeMethod = some request.method ∧
      init.mode.getD start.mode = request.mode ∧
      fill platform request.mode (init.headers.getD (.object start.headers)) = some headers ∧
      request.url = start.url ∧ request.headers = describe platform request.mode init.body headers ∧
      request.mode ≠ .navigate ∧ (request.mode = .noCors → isSimple request.method = true) ∧
      (request.body.isSome = true → isBodyless request.method = false) := by
  unfold newRequest at h
  obtain ⟨start, hstart, h⟩ := Option.bind_eq_some_iff.mp h
  obtain ⟨method, hmethod, h⟩ := Option.bind_eq_some_iff.mp h
  obtain ⟨settings, -, h⟩ := Option.bind_eq_some_iff.mp h
  obtain ⟨headers, hheaders, h⟩ := Option.bind_eq_some_iff.mp h
  dsimp only at h
  split_ifs at h with hbad
  cases h
  simp only [isRefused, Bool.or_eq_true, Bool.and_eq_true, decide_eq_true_eq, Bool.not_eq_true', not_or,
    not_and, Bool.not_eq_false, Bool.not_eq_true] at hbad
  exact ⟨start, headers, hstart, hmethod, rfl, hheaders, rfl, rfl, hbad.1.1.1, hbad.1.1.2, hbad.1.2⟩

/-- The request that the constructor starts with keeps to the rules. -/
theorem RequestInfo.start_lawful {baseURL : Str} {input : RequestInfo β platform}
    {start : Request β σ} (h : input.start platform baseURL = some start) : start.Lawful platform := by
  cases input with
  | url text =>
      obtain ⟨text, htext, h⟩ := Option.bind_eq_some_iff.mp h
      obtain ⟨parsed, hparsed, h⟩ := Option.bind_eq_some_iff.mp h
      split_ifs at h
      cases h
      have hget : normalizeMethod (units "GET") = some (units "GET") := by decide
      exact ⟨⟨text, _, hparsed⟩, hget, by simp, by simp, by simp, by simp⟩
  | request given lawful used =>
      cases h
      exact lawful

/-- Every header is one that the platform keeps. -/
def Kept (platform : WebPlatform σ) (mode : RequestMode) (headers : Headers) : Prop :=
  ∀ name value, headers name = some value → platform.keeps mode name value = true

theorem Kept.append {mode : RequestMode} {headers appended : Headers} (h : Kept platform mode headers)
    {name value : Str} (happend : append platform mode headers name value = some appended) :
    Kept platform mode appended := by
  unfold Web.append at happend
  dsimp only at happend
  split_ifs at happend with hvalid hkeeps
  · cases happend
    intro other found hfound
    by_cases hother : other = toLowerCase name
    · subst hother
      rw [Function.update_self, Option.some.injEq] at hfound
      rw [← hfound]
      exact hkeeps
    · rw [Function.update_of_ne hother] at hfound
      exact h other found hfound
  · cases happend
    exact h

theorem kept_fill {mode : RequestMode} {init : HeadersInit} {headers : Headers}
    (h : fill platform mode init = some headers) : Kept platform mode headers := by
  cases init with
  | object given =>
      cases h
      intro name value hvalue
      exact (Option.filter_eq_some_iff.mp hvalue).2
  | entries entries =>
      have hfold : ∀ start : Headers, Kept platform mode start →
          entries.foldlM (fun headers entry => append platform mode headers entry.1 entry.2) start =
            some headers → Kept platform mode headers := by
        clear h
        induction entries with
        | nil =>
            intro start hstart h
            cases h
            exact hstart
        | cons entry rest ih =>
            intro start hstart h
            obtain ⟨next, hnext, hrest⟩ := Option.bind_eq_some_iff.mp h
            exact ih next (hstart.append hnext) hrest
      refine hfold _ ?_ h
      intro name value hvalue
      cases hvalue

theorem Kept.describe {mode : RequestMode} {headers : Headers} (h : Kept platform mode headers)
    (body : Option (Body β)) : Kept platform mode (describe platform mode body headers) := by
  cases body with
  | none => exact h
  | some body =>
      intro name value hvalue
      unfold Web.describe at hvalue
      dsimp only at hvalue
      split_ifs at hvalue
      · exact (Option.filter_eq_some_iff.mp hvalue).2
      · exact h name value hvalue

/-- **A new request keeps to the rules.** -/
theorem newRequest_lawful {baseURL : Str} {input : RequestInfo β platform} {init : RequestInit β σ}
    {request : Request β σ} (h : newRequest platform baseURL input init = some request) :
    request.Lawful platform := by
  obtain ⟨start, headers, hstart, hmethod, -, hfill, hurl, hheaders, hmode, hsimple, hbody⟩ :=
    newRequest_eq_some h
  have hlawful := RequestInfo.start_lawful hstart
  refine ⟨hurl ▸ hlawful.url, ?_, hmode, hsimple, ?_, hbody⟩
  · cases hinit : init.method with
    | none =>
        rw [hinit, Option.elim_none, Option.some.injEq] at hmethod
        rw [← hmethod]
        exact hlawful.method
    | some method =>
        rw [hinit, Option.elim_some] at hmethod
        exact normalizeMethod_again hmethod
  · rw [hheaders]
    exact (kept_fill hfill).describe init.body

/-- **A request can be made again** from itself and its own members, with headers of which the platform
    leaves some out. -/
theorem newRequest_again {request : Request β σ} (lawful : request.Lawful platform) (baseURL : Str)
    (headers : Headers) :
    newRequest platform baseURL (.request request lawful false)
        ⟨some request.method, some request.mode, some (.object headers), none, some⟩ =
      some { request with headers := fun name => (headers name).filter (platform.keeps request.mode name) } := by
  have hallowed : isRefused request.mode request.method request.body.isSome false = false := by
    have hsimple : (decide (request.mode = .noCors) && !isSimple request.method) = false := by
      by_cases hmode : request.mode = .noCors
      · rw [lawful.simple hmode, Bool.not_true, Bool.and_false]
      · rw [decide_eq_false hmode, Bool.false_and]
    have hbody : (request.body.isSome && isBodyless request.method) = false := by
      cases hsome : request.body.isSome with
      | false => rfl
      | true => exact lawful.body hsome
    unfold isRefused
    rw [decide_eq_false lawful.mode, hsimple, hbody]
    rfl
  have hused : (RequestInfo.request request lawful false).bodyUsed = false := Bool.and_false _
  unfold newRequest
  simp only [RequestInfo.start, Option.getD_some, Option.elim_some, lawful.method, fill, Option.map_none,
    Option.none_or, Option.isNone_none, Bool.true_and, hused, describe, Option.bind_eq_bind,
    Option.bind_some]
  rw [hallowed]
  rfl

end Requests

end CekatEvents.Browser.Web
