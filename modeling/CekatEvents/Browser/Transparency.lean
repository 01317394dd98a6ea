/-
  CekatEvents.Browser.Transparency — the same calls with and without propagation (`browser/auto.ts`,
  `browser/explicit.ts`).

  Two worlds make the same calls, one with the original functions and one with the wrappers.  They are
  alike when they differ in visitor headers only, which the second one may have where the first one has
  none.  An exception of a wrapper leaves what it did before.

  Main results:

    • `Like.call`         — a call that does not break keeps the worlds alike;
    • `transparent_iff`   — a call that succeeds without the SDK succeeds with it, and asks for the same,
                            exactly when it does not break;
    • `alike_after`       — so two worlds stay alike over any calls of which none breaks.
-/
import CekatEvents.Browser.WebPlatform
import CekatEvents.Effects.Stateful
import CekatEvents.Effects.Trace

namespace CekatEvents.Browser.Web

open CekatEvents.Encoding CekatEvents.Effects

/-! ## §1. Worlds. -/

/-- What an object was opened with, the headers that were set since then, and the `send()` flag. -/
structure XhrRequest where
  method : Str
  url : URL
  headers : Headers
  sendFlag : Bool

/-- The page, the objects that were opened, what the SDK noted about them, and the requests that were made,
    the latest first. -/
structure World (ι β σ : Type) where
  page : Page
  objects : ι → Option XhrRequest
  xhrStates : ι → Option XhrState
  issued : List (Request β σ)

/-- A header name as it was passed.  What is no string may be converted to one, and may have a
    `toLowerCase` of its own; either may throw. -/
inductive HeaderName where
  | string (name : Str)
  | other (asString : Option Str) (toLowerCase : Option (Option Str))

def HeaderName.asString : HeaderName → Option Str
  | .string name => some name
  | .other asString _ => asString

/-- `name.toLowerCase()`, as far as it is a string; nothing when it throws. -/
def HeaderName.toLowerCase : HeaderName → Option (Option Str)
  | .string name => some (some (Browser.toLowerCase name))
  | .other _ toLowerCase => toLowerCase

inductive Thrown where
  | platform
  | typeError

/-- A call of the page, or a change of it.  `open` converts its URL to a string, and the SDK once more. -/
inductive Call {σ : Type} (platform : WebPlatform σ) (ι β : Type) where
  | change (page : Page)
  | fetch (input : RequestInfo β platform) (init : RequestInit β σ)
  | open_ (xhr : ι) (method url again : Option Str) (complete : URL → Option URL)
  | setRequestHeader (xhr : ι) (name : HeaderName) (value : Option Str)
  | send (xhr : ι) (body : Option (Option (Body β))) (settings : σ)

section Calls

variable {ι β σ : Type} [DecidableEq ι] (platform : WebPlatform σ)

abbrev Effect (ι β σ : Type) := EStateM Thrown (World ι β σ)

/-- Something that the platform does, or refuses to do. -/
def attempt (act : World ι β σ → Option (World ι β σ)) : Effect ι β σ Unit := fun w =>
  match act w with
  | none => .error .platform w
  | some next => .ok () next

def World.issue (w : World ι β σ) (request : Request β σ) : World ι β σ :=
  { w with issued := request :: w.issued }

def World.setObject (w : World ι β σ) (xhr : ι) (object : XhrRequest) : World ι β σ :=
  { w with objects := Function.update w.objects xhr (some object) }

/-- What is noted about an object is changed where it stands. -/
def World.note (w : World ι β σ) (xhr : ι) (f : XhrState → XhrState) : World ι β σ :=
  { w with xhrStates := Function.update w.xhrStates xhr ((w.xhrStates xhr).map f) }

/-! ## §2. The originals. -/

def originalFetch (input : RequestInfo β platform) (init : RequestInit β σ) : Effect ι β σ Unit :=
  attempt fun w => (newRequest platform w.page.baseURL input init).map w.issue

/-- The other arguments of `open` may complete the URL, or be refused. -/
def originalOpen (xhr : ι) (method url : Option Str) (complete : URL → Option URL) : Effect ι β σ Unit :=
  attempt fun w => do
    let method ← normalizeMethod (← method)
    let parsed ← platform.parse (← url) (some w.page.baseURL)
    let completed ← complete parsed
    some (w.setObject xhr ⟨method, completed, fun _ => none, false⟩)

def originalSetRequestHeader (xhr : ι) (name value : Option Str) : Effect ι β σ Unit :=
  attempt fun w => do
    let object ← w.objects xhr
    if object.sendFlag then none
    else do
      let headers ← append platform .cors object.headers (← name) (← value)
      some (w.setObject xhr { object with headers })

/-- The request of an object. -/
def XhrRequest.request (object : XhrRequest) (body : Option (Body β)) (settings : σ) : Request β σ :=
  let body := if isBodyless object.method then none else body
  ⟨object.url, object.method, .cors, describe platform .cors body object.headers, body.map (·.data),
    settings⟩

def originalSend (xhr : ι) (body : Option (Option (Body β))) (settings : σ) : Effect ι β σ Unit :=
  attempt fun w => do
    let object ← w.objects xhr
    if object.sendFlag then none
    else do
      let body ← body
      some ((w.setObject xhr { object with sendFlag := true }).issue
        (object.request platform body settings))

/-- A call without the SDK. -/
def Call.without : Call platform ι β → Effect ι β σ Unit
  | .change page => modify fun w => { w with page }
  | .fetch input init => originalFetch platform input init
  | .open_ xhr method url _ complete => originalOpen platform xhr method url complete
  | .setRequestHeader xhr name value => originalSetRequestHeader platform xhr name.asString value
  | .send xhr body settings => originalSend platform xhr body settings

/-! ## §3. The wrappers. -/

section Wrappers

variable (targets : List NormalizedAllowedTarget)

/-- The headers of `withVisitor`. -/
def withVisitor (page : Page) (headers : Headers) : Option Headers :=
  match readVisitorId page.cookie with
  | none => some headers
  | some visitorId =>
      if (headers VISITOR_HEADER).isNone then headers.set VISITOR_HEADER visitorId else some headers

/-- `withVisitorRequest` hands every member of the request on, as it is. -/
def withVisitorRequest (page : Page) (request : Request β σ) (lawful : request.Lawful platform) :
    Option (Request β σ) := do
  let headers ← withVisitor page request.headers
  newRequest platform page.baseURL (.request request lawful false)
    ⟨some request.method, some request.mode, some (.object headers), none, some⟩

variable {platform} in
/-- `input instanceof Request ? input.clone() : input`. -/
def RequestInfo.clone : RequestInfo β platform → Option (RequestInfo β platform)
  | .url text => some (.url text)
  | .request given lawful used =>
      if (RequestInfo.request given lawful used).bodyUsed then none
      else some (.request given lawful false)

/-- The request of `wrappedFetch`. -/
def requestToFetch (page : Page) (input : RequestInfo β platform) (init : RequestInit β σ) :
    Option (Request β σ) := do
  let input ← input.clone
  match h : newRequest platform page.baseURL input init with
  | none => none
  | some request => do
      let url ← platform.parse request.url.href none
      if matchesAllowedTarget targets url then
        withVisitorRequest platform page request (newRequest_lawful h)
      else some request

def wrappedFetch (input : RequestInfo β platform) (init : RequestInit β σ) : Effect ι β σ Unit :=
  attempt fun w => (requestToFetch platform targets w.page input init).map w.issue

def wrappedOpen (xhr : ι) (method url again : Option Str) (complete : URL → Option URL) :
    Effect ι β σ Unit := do
  originalOpen platform xhr method url complete
  modify fun w => { w with
    xhrStates := Function.update w.xhrStates xhr
      (some ⟨parseUrl platform.parse w.page again, false, false⟩) }

/-- A visitor header of the caller is noted, when `name.toLowerCase()` did not throw. -/
def noteExplicit (xhr : ι) : Option (Option Str) → Effect ι β σ Unit
  | none => throw .typeError
  | some lower =>
      if lower = some VISITOR_HEADER then
        modify fun w => w.note xhr fun state => { state with explicitVisitorHeader := true }
      else pure ()

def wrappedSetRequestHeader (xhr : ι) (name : HeaderName) (value : Option Str) : Effect ι β σ Unit := do
  originalSetRequestHeader platform xhr name.asString value
  noteExplicit xhr name.toLowerCase

/-- The visitor that is injected when an object is sent. -/
def World.injected (w : World ι β σ) (xhr : ι) : Option Str :=
  (w.xhrStates xhr).bind fun state =>
    if state.url.any (matchesAllowedTarget targets) && !state.explicitVisitorHeader &&
        !state.injectedVisitorHeader then
      readVisitorId w.page.cookie
    else none

/-- An object is sent, after the visitor was injected, if there is one. -/
def sendWith (xhr : ι) (body : Option (Option (Body β))) (settings : σ) : Option Str → Effect ι β σ Unit
  | none => originalSend platform xhr body settings
  | some visitorId => do
      originalSetRequestHeader platform xhr (some VISITOR_HEADER) (some visitorId)
      modify fun w => w.note xhr fun state => { state with injectedVisitorHeader := true }
      originalSend platform xhr body settings

def wrappedSend (xhr : ι) (body : Option (Option (Body β))) (settings : σ) : Effect ι β σ Unit := do
  sendWith platform xhr body settings ((← get).injected targets xhr)

/-- A call with propagation enabled. -/
def Call.enabled : Call platform ι β → Effect ι β σ Unit
  | .change page => modify fun w => { w with page }
  | .fetch input init => wrappedFetch platform targets input init
  | .open_ xhr method url again complete => wrappedOpen platform xhr method url again complete
  | .setRequestHeader xhr name value => wrappedSetRequestHeader platform xhr name value
  | .send xhr body settings => wrappedSend platform targets xhr body settings

end Wrappers

end Calls

/-! ## §4. Worlds that are alike. -/

/-- The headers differ in a visitor header that was added. -/
structure LikeHeaders (plain enabled : Headers) : Prop where
  others : ∀ name, name ≠ VISITOR_HEADER → enabled name = plain name
  visitor : ∀ value, plain VISITOR_HEADER = some value → enabled VISITOR_HEADER = some value

/-- **The same request**, except that a visitor header may have been added. -/
structure SameRequest {β σ : Type} (plain enabled : Request β σ) : Prop where
  url : enabled.url = plain.url
  method : enabled.method = plain.method
  mode : enabled.mode = plain.mode
  headers : LikeHeaders plain.headers enabled.headers
  body : enabled.body = plain.body
  settings : enabled.settings = plain.settings

structure SameObject (plain enabled : XhrRequest) : Prop where
  method : enabled.method = plain.method
  url : enabled.url = plain.url
  headers : LikeHeaders plain.headers enabled.headers
  sendFlag : enabled.sendFlag = plain.sendFlag

/-- **The two worlds are alike.** -/
structure Like {ι β σ : Type} (plain enabled : World ι β σ) : Prop where
  page : enabled.page = plain.page
  objects : ∀ xhr, Option.Rel SameObject (plain.objects xhr) (enabled.objects xhr)
  issued : List.Forall₂ SameRequest plain.issued enabled.issued

theorem LikeHeaders.refl (headers : Headers) : LikeHeaders headers headers :=
  ⟨fun _ _ => rfl, fun _ h => h⟩

theorem SameRequest.refl {β σ : Type} (request : Request β σ) : SameRequest request request :=
  ⟨rfl, rfl, rfl, .refl _, rfl, rfl⟩

theorem SameObject.refl (object : XhrRequest) : SameObject object object := ⟨rfl, rfl, .refl _, rfl⟩

theorem Like.refl {ι β σ : Type} (w : World ι β σ) : Like w w := by
  refine ⟨rfl, ?_, List.forall₂_same.mpr fun request _ => .refl request⟩
  intro xhr
  cases w.objects xhr with
  | none => exact .none
  | some object => exact .some (.refl object)

/-- Where the plain headers have a visitor, so do the others. -/
theorem LikeHeaders.eq {plain enabled : Headers} (h : LikeHeaders plain enabled) {name : Str}
    (hname : name = VISITOR_HEADER → plain VISITOR_HEADER = none → enabled VISITOR_HEADER = none) :
    enabled name = plain name := by
  by_cases hvisitor : name = VISITOR_HEADER
  · subst hvisitor
    cases hplain : plain VISITOR_HEADER with
    | none => exact hname rfl hplain
    | some value => exact h.visitor value hplain
  · exact h.others name hvisitor

/-- The same header is set. -/
theorem LikeHeaders.update {plain enabled : Headers} (h : LikeHeaders plain enabled) (name : Str)
    (value : Option Str) :
    LikeHeaders (Function.update plain name value) (Function.update enabled name value) := by
  constructor
  · intro other hother
    by_cases hname : other = name
    · subst hname
      rw [Function.update_self, Function.update_self]
    · rw [Function.update_of_ne hname, Function.update_of_ne hname]
      exact h.others other hother
  · intro found hfound
    by_cases hname : VISITOR_HEADER = name
    · subst hname
      rw [Function.update_self] at hfound ⊢
      exact hfound
    · rw [Function.update_of_ne hname] at hfound ⊢
      exact h.visitor found hfound

/-- A visitor header is added where there is none. -/
theorem LikeHeaders.add {plain enabled : Headers} (h : LikeHeaders plain enabled)
    (hnone : plain VISITOR_HEADER = none) (value : Option Str) :
    LikeHeaders plain (Function.update enabled VISITOR_HEADER value) := by
  constructor
  · intro name hname
    rw [Function.update_of_ne hname]
    exact h.others name hname
  · intro found hfound
    rw [hnone] at hfound
    cases hfound

section Steps

variable {ι β σ : Type} {platform : WebPlatform σ}

/-- The same `Content-Type` is added. -/
theorem LikeHeaders.describe {plain enabled : Headers} (h : LikeHeaders plain enabled) (mode : RequestMode)
    (body : Option (Body β)) :
    LikeHeaders (describe platform mode body plain) (describe platform mode body enabled) := by
  cases body with
  | none => exact h
  | some body =>
      have hcontent : units "content-type" ≠ VISITOR_HEADER := by decide
      constructor
      · intro name hname
        unfold Web.describe
        dsimp only
        split_ifs with hcase
        · rw [h.others name hname]
        · exact h.others name hname
      · intro value hvalue
        unfold Web.describe at hvalue ⊢
        dsimp only at hvalue ⊢
        rw [if_neg hcontent.symm] at hvalue ⊢
        exact h.visitor value hvalue

variable (platform) in
/-- A header is appended to both or to neither. -/
theorem LikeHeaders.append {plain enabled : Headers} (h : LikeHeaders plain enabled) {name : Str}
    (value : Str) (hname : toLowerCase name = VISITOR_HEADER → plain VISITOR_HEADER = none →
      enabled VISITOR_HEADER = none) :
    Option.Rel LikeHeaders (append platform .cors plain name value)
      (append platform .cors enabled name value) := by
  have heq := h.eq hname
  unfold Web.append
  rw [heq]
  dsimp only
  split_ifs
  · exact .some (h.update _ _)
  · exact .some h
  · exact .none

/-! ## §5. The request of `fetch`. -/

/-- A visitor would be added that cannot be a header value. -/
def BadVisitor (page : Page) (headers : Headers) : Prop :=
  headers VISITOR_HEADER = none ∧ ∃ visitorId, readVisitorId page.cookie = some visitorId ∧
    isHeaderValue (normalizeValue visitorId) = false

theorem set_visitor (headers : Headers) (visitorId : Str) :
    headers.set VISITOR_HEADER visitorId =
      if isHeaderValue (normalizeValue visitorId) then
        some (Function.update headers VISITOR_HEADER (some (normalizeValue visitorId)))
      else none := by
  have htoken : isToken VISITOR_HEADER = true := by decide
  have hlower : toLowerCase VISITOR_HEADER = VISITOR_HEADER := by decide
  unfold Headers.set
  rw [htoken, hlower, Bool.true_and]

theorem withVisitor_of_bad {page : Page} {headers : Headers} (h : BadVisitor page headers) :
    withVisitor page headers = none := by
  obtain ⟨hnone, visitorId, hvisitor, hbad⟩ := h
  unfold withVisitor
  rw [hvisitor, hnone]
  dsimp only
  rw [set_visitor, hbad]
  rfl

/-- At most a visitor header is added. -/
theorem withVisitor_like {page : Page} {headers : Headers} (h : ¬ BadVisitor page headers) :
    ∃ copied, withVisitor page headers = some copied ∧ LikeHeaders headers copied := by
  unfold withVisitor
  cases hvisitor : readVisitorId page.cookie with
  | none => exact ⟨headers, rfl, .refl headers⟩
  | some visitorId =>
      dsimp only
      cases hheader : headers VISITOR_HEADER with
      | some value => exact ⟨headers, rfl, .refl headers⟩
      | none =>
          have hvalid : isHeaderValue (normalizeValue visitorId) = true := by
            rw [← Bool.not_eq_false]
            exact fun hbad => h ⟨hheader, visitorId, hvisitor, hbad⟩
          rw [set_visitor, hvalid]
          exact ⟨_, rfl, (LikeHeaders.refl headers).add hheader _⟩

/-- The platform leaves out nothing that the request had before. -/
theorem LikeHeaders.filter {mode : RequestMode} {plain enabled : Headers} (h : LikeHeaders plain enabled)
    (hkept : Kept platform mode plain) :
    LikeHeaders plain fun name => (enabled name).filter (platform.keeps mode name) := by
  have hsame : ∀ name, enabled name = plain name →
      (enabled name).filter (platform.keeps mode name) = plain name := by
    intro name heq
    rw [heq]
    cases hplain : plain name with
    | none => rfl
    | some value => exact Option.filter_some_pos (hkept name value hplain)
  constructor
  · exact fun name hname => hsame name (h.others name hname)
  · intro value hvalue
    rw [← hvalue]
    exact hsame VISITOR_HEADER (by rw [hvalue]; exact h.visitor value hvalue)

theorem withVisitorRequest_same {page : Page} {request : Request β σ} (lawful : request.Lawful platform)
    (h : ¬ BadVisitor page request.headers) :
    ∃ made, withVisitorRequest platform page request lawful = some made ∧ SameRequest request made := by
  obtain ⟨copied, hcopied, hlike⟩ := withVisitor_like h
  have hmade : withVisitorRequest platform page request lawful = some
      { request with headers := fun name => (copied name).filter (platform.keeps request.mode name) } := by
    unfold withVisitorRequest
    rw [hcopied]
    exact newRequest_again lawful page.baseURL copied
  exact ⟨_, hmade, ⟨rfl, rfl, rfl, hlike.filter lawful.headers, rfl, rfl⟩⟩

theorem withVisitorRequest_of_bad {page : Page} {request : Request β σ} (lawful : request.Lawful platform)
    (h : BadVisitor page request.headers) : withVisitorRequest platform page request lawful = none := by
  unfold withVisitorRequest
  rw [withVisitor_of_bad h]
  rfl

/-- A clone makes the same requests. -/
theorem RequestInfo.clone_of_unused {input : RequestInfo β platform} (h : input.bodyUsed = false) :
    ∃ copied, input.clone = some copied ∧ ∀ baseURL init,
      newRequest platform baseURL copied init = newRequest platform baseURL input init := by
  cases input with
  | url text => exact ⟨.url text, rfl, fun _ _ => rfl⟩
  | request given lawful used =>
      refine ⟨.request given lawful false, by rw [RequestInfo.clone, h]; rfl, ?_⟩
      intro baseURL init
      have hused : (RequestInfo.request given lawful false).bodyUsed = false := Bool.and_false _
      unfold newRequest
      rw [h, hused]
      rfl

theorem RequestInfo.clone_of_used {input : RequestInfo β platform} (h : input.bodyUsed = true) :
    input.clone = none := by
  cases input with
  | url text => cases h
  | request given lawful used =>
      rw [RequestInfo.clone, h]
      rfl

section Fetch

variable (targets : List NormalizedAllowedTarget) {page : Page} {input : RequestInfo β platform}
  {init : RequestInit β σ} {request : Request β σ}

/-- The URL of the request is allowed. -/
def Receives (platform : WebPlatform σ) (targets : List NormalizedAllowedTarget) (request : Request β σ) :
    Prop :=
  ∃ url, platform.parse request.url.href none = some url ∧ matchesAllowedTarget targets url = true

theorem requestToFetch_of_request {copied : RequestInfo β platform} (hclone : input.clone = some copied)
    (h : newRequest platform page.baseURL copied init = some request) :
    requestToFetch platform targets page input init =
      (platform.parse request.url.href none).bind fun url =>
        if matchesAllowedTarget targets url then
          withVisitorRequest platform page request (newRequest_lawful h)
        else some request := by
  unfold requestToFetch
  rw [hclone]
  simp only [Option.bind_eq_bind, Option.bind_some]
  split
  · next hnone =>
      rw [h] at hnone
      cases hnone
  · next found hfound =>
      have heq : found = request := Option.some.inj (hfound.symm.trans h)
      subst heq
      rfl

/-- **The request of `wrappedFetch` is the one of `fetch`**, with a visitor at most. -/
theorem requestToFetch_same (hunused : input.bodyUsed = false)
    (h : newRequest platform page.baseURL input init = some request)
    (hvisitor : Receives platform targets request → ¬ BadVisitor page request.headers) :
    ∃ made, requestToFetch platform targets page input init = some made ∧ SameRequest request made := by
  obtain ⟨copied, hclone, hcopied⟩ := RequestInfo.clone_of_unused hunused
  have hrequest := (hcopied page.baseURL init).trans h
  have hlawful := newRequest_lawful h
  obtain ⟨text, base, hparsed⟩ := hlawful.url
  obtain ⟨url, hurl⟩ := platform.reparses text base request.url hparsed
  rw [requestToFetch_of_request targets hclone hrequest, hurl, Option.bind_some]
  split_ifs with hmatch
  · exact withVisitorRequest_same _ (hvisitor ⟨url, hurl, hmatch⟩)
  · exact ⟨request, rfl, .refl request⟩

/-- It fails where `fetch` fails. -/
theorem requestToFetch_of_none (h : newRequest platform page.baseURL input init = none) :
    requestToFetch platform targets page input init = none := by
  unfold requestToFetch
  cases hused : input.bodyUsed with
  | true =>
      rw [RequestInfo.clone_of_used hused]
      rfl
  | false =>
      obtain ⟨copied, hclone, hcopied⟩ := RequestInfo.clone_of_unused hused
      rw [hclone]
      simp only [Option.bind_eq_bind, Option.bind_some]
      split
      · rfl
      · next found hfound =>
          rw [hcopied, h] at hfound
          cases hfound

/-- It fails on a body that was read, and on a visitor that is no header value. -/
theorem requestToFetch_fails (h : newRequest platform page.baseURL input init = some request)
    (hbad : input.bodyUsed = true ∨ (Receives platform targets request ∧ BadVisitor page request.headers)) :
    requestToFetch platform targets page input init = none := by
  cases hused : input.bodyUsed with
  | true =>
      unfold requestToFetch
      rw [RequestInfo.clone_of_used hused]
      rfl
  | false =>
      obtain ⟨⟨url, hurl, hmatch⟩, hvisitor⟩ := hbad.resolve_left (by rw [hused]; decide)
      obtain ⟨copied, hclone, hcopied⟩ := RequestInfo.clone_of_unused hused
      rw [requestToFetch_of_request targets hclone ((hcopied page.baseURL init).trans h), hurl, Option.bind_some,
        if_pos hmatch]
      exact withVisitorRequest_of_bad _ hvisitor

end Fetch

/-! ## §6. One call. -/

/-- **What breaks a call.**  `fetch` is given a `Request` whose body was read or locked, or a visitor would
    be added to the request that cannot be a header value.  A header name has no `toLowerCase`, or names
    the visitor header of an object that has one only with the SDK.  An object would receive a visitor that
    cannot be a header value, or has a visitor header already. -/
def Breaks (targets : List NormalizedAllowedTarget) (plain enabled : World ι β σ) :
    Call platform ι β → Prop
  | .change _ => False
  | .fetch input init => input.bodyUsed = true ∨
      ∃ request, newRequest platform plain.page.baseURL input init = some request ∧
        Receives platform targets request ∧ BadVisitor plain.page request.headers
  | .open_ .. => False
  | .setRequestHeader xhr name _ => name.toLowerCase = none ∨
      (name.asString.map toLowerCase = some VISITOR_HEADER ∧
        ∃ object object', plain.objects xhr = some object ∧ enabled.objects xhr = some object' ∧
          object.headers VISITOR_HEADER = none ∧ object'.headers VISITOR_HEADER ≠ none)
  | .send xhr _ _ => ∃ visitorId, enabled.injected targets xhr = some visitorId ∧
      (isHeaderValue (normalizeValue visitorId) = false ∨
        ∃ object, plain.objects xhr = some object ∧ object.headers VISITOR_HEADER ≠ none)

/-- Both calls return or both throw, and the worlds that they leave are alike. -/
inductive Alike : EStateM.Result Thrown (World ι β σ) Unit → EStateM.Result Thrown (World ι β σ) Unit → Prop
  | ok {plain enabled : World ι β σ} (h : Like plain enabled) : Alike (.ok () plain) (.ok () enabled)
  | error {plain enabled : World ι β σ} (e e' : Thrown) (h : Like plain enabled) :
      Alike (.error e plain) (.error e' enabled)

/-- What the SDK notes is not compared. -/
theorem Like.noted {plain enabled : World ι β σ} (h : Like plain enabled)
    (xhrStates : ι → Option XhrState) : Like plain { enabled with xhrStates } :=
  ⟨h.page, h.objects, h.issued⟩

theorem Like.issue {plain enabled : World ι β σ} (h : Like plain enabled) {request made : Request β σ}
    (hsame : SameRequest request made) : Like (plain.issue request) (enabled.issue made) :=
  ⟨h.page, h.objects, .cons hsame h.issued⟩

variable [DecidableEq ι]

theorem Like.setObject {plain enabled : World ι β σ} (h : Like plain enabled) (xhr : ι)
    {object object' : XhrRequest} (hsame : SameObject object object') :
    Like (plain.setObject xhr object) (enabled.setObject xhr object') := by
  refine ⟨h.page, ?_, h.issued⟩
  intro other
  show Option.Rel SameObject (Function.update plain.objects xhr (some object) other)
    (Function.update enabled.objects xhr (some object') other)
  by_cases hother : other = xhr
  · subst hother
    rw [Function.update_self, Function.update_self]
    exact .some hsame
  · rw [Function.update_of_ne hother, Function.update_of_ne hother]
    exact h.objects other

section Attempts

variable {act : World ι β σ → Option (World ι β σ)} {w next : World ι β σ}

omit [DecidableEq ι] in
theorem attempt_of_none (h : act w = none) : attempt act w = .error .platform w := by
  unfold attempt
  rw [h]

omit [DecidableEq ι] in
theorem attempt_of_some (h : act w = some next) : attempt act w = .ok () next := by
  unfold attempt
  rw [h]

omit [DecidableEq ι] in
theorem attempt_ok_iff : attempt act w = .ok () next ↔ act w = some next := by
  constructor
  · intro h
    cases hact : act w with
    | none =>
        rw [attempt_of_none hact] at h
        cases h
    | some found =>
        rw [attempt_of_some hact] at h
        cases h
        rfl
  · exact attempt_of_some

omit [DecidableEq ι] in
theorem attempt_fails (h : ¬ ∃ next, attempt act w = .ok () next) : attempt act w = .error .platform w := by
  cases hact : act w with
  | none => exact attempt_of_none hact
  | some next => exact absurd ⟨next, attempt_of_some hact⟩ h

end Attempts

theorem setRequestHeader_ok_iff {w next : World ι β σ} {xhr : ι} {name value : Option Str} :
    originalSetRequestHeader platform xhr name value w = .ok () next ↔
      ∃ object name' value' headers, w.objects xhr = some object ∧ object.sendFlag = false ∧
        name = some name' ∧ value = some value' ∧
        append platform .cors object.headers name' value' = some headers ∧
        w.setObject xhr { object with headers } = next := by
  unfold originalSetRequestHeader
  rw [attempt_ok_iff]
  constructor
  · intro h
    obtain ⟨object, hobject, h⟩ := Option.bind_eq_some_iff.mp h
    split_ifs at h with hflag
    obtain ⟨name', hname, h⟩ := Option.bind_eq_some_iff.mp h
    obtain ⟨value', hvalue, h⟩ := Option.bind_eq_some_iff.mp h
    obtain ⟨headers, hheaders, h⟩ := Option.bind_eq_some_iff.mp h
    exact ⟨object, name', value', headers, hobject, Bool.not_eq_true _ ▸ hflag, hname, hvalue, hheaders,
      Option.some.inj h⟩
  · rintro ⟨object, name', value', headers, hobject, hflag, rfl, rfl, hheaders, rfl⟩
    simp [hobject, hflag, hheaders]

theorem send_ok_iff {w next : World ι β σ} {xhr : ι} {body : Option (Option (Body β))} {settings : σ} :
    originalSend platform xhr body settings w = .ok () next ↔
      ∃ object body', w.objects xhr = some object ∧ object.sendFlag = false ∧ body = some body' ∧
        (w.setObject xhr { object with sendFlag := true }).issue
          (object.request platform body' settings) = next := by
  unfold originalSend
  rw [attempt_ok_iff]
  constructor
  · intro h
    obtain ⟨object, hobject, h⟩ := Option.bind_eq_some_iff.mp h
    split_ifs at h with hflag
    obtain ⟨body', hbody, h⟩ := Option.bind_eq_some_iff.mp h
    exact ⟨object, body', hobject, Bool.not_eq_true _ ▸ hflag, hbody, Option.some.inj h⟩
  · rintro ⟨object, body', hobject, hflag, rfl, rfl⟩
    simp [hobject, hflag]

omit [DecidableEq ι] in
/-- Two attempts that fare alike. -/
theorem Alike.attempt {act act' : World ι β σ → Option (World ι β σ)} {plain enabled : World ι β σ}
    (h : Like plain enabled) (hacts : Option.Rel Like (act plain) (act' enabled)) :
    Alike (attempt act plain) (attempt act' enabled) := by
  unfold Web.attempt
  revert hacts
  cases act plain with
  | none =>
      cases act' enabled with
      | none => exact fun _ => .error _ _ h
      | some next' =>
          intro hacts
          cases hacts
  | some next =>
      cases act' enabled with
      | none =>
          intro hacts
          cases hacts
      | some next' =>
          intro hacts
          cases hacts with
          | some hnext => exact .ok hnext

omit [DecidableEq ι] in
/-- What follows a call of the second world keeps the worlds alike. -/
theorem Alike.andThen {result : EStateM.Result Thrown (World ι β σ) Unit} {x : Effect ι β σ Unit}
    {f : Unit → Effect ι β σ Unit} {enabled : World ι β σ} (h : Alike result (x enabled))
    (hf : ∀ plain' enabled', Like plain' enabled' →
      ∃ next, f () enabled' = .ok () next ∧ Like plain' next) :
    Alike result ((x >>= f) enabled) := by
  cases hx : x enabled with
  | ok a enabled' =>
      rw [hx] at h
      cases h with
      | ok hlike =>
          obtain ⟨next, hnext, hlike'⟩ := hf _ _ hlike
          rw [bind_of_ok hx, hnext]
          exact .ok hlike'
  | error e enabled' =>
      rw [hx] at h
      cases h with
      | error e e' hlike =>
          rw [bind_of_error hx]
          exact .error _ _ hlike

omit [DecidableEq ι] in
/-- Related values, and what follows each. -/
theorem rel_bind {α α' γ γ' : Type} {S : α → α' → Prop} {R : γ → γ' → Prop} {x : Option α} {y : Option α'}
    {f : α → Option γ} {g : α' → Option γ'} (h : Option.Rel S x y)
    (hfg : ∀ a a', x = some a → y = some a' → S a a' → Option.Rel R (f a) (g a')) :
    Option.Rel R (x >>= f) (y >>= g) := by
  cases h with
  | none => exact .none
  | some hsame => exact hfg _ _ rfl rfl hsame

omit [DecidableEq ι] in
theorem rel_bind_same {α γ γ' : Type} {R : γ → γ' → Prop} (x : Option α) {f : α → Option γ}
    {g : α → Option γ'} (hfg : ∀ a, Option.Rel R (f a) (g a)) : Option.Rel R (x >>= f) (x >>= g) := by
  cases x with
  | none => exact .none
  | some a => exact hfg a

/-- Both objects are opened. -/
theorem Like.opened {plain enabled : World ι β σ} (h : Like plain enabled) (xhr : ι)
    (method url : Option Str) (complete : URL → Option URL) :
    Alike (originalOpen platform xhr method url complete plain)
      (originalOpen platform xhr method url complete enabled) := by
  refine Alike.attempt h ?_
  rw [h.page]
  refine rel_bind_same method fun method => rel_bind_same _ fun normal => ?_
  refine rel_bind_same url fun url => rel_bind_same _ fun parsed => rel_bind_same _ fun completed => ?_
  exact .some (h.setObject xhr (.refl _))

/-- Both objects are given the header. -/
theorem Like.headerSet {plain enabled : World ι β σ} (h : Like plain enabled) (xhr : ι)
    (name value : Option Str) (hname : name.map toLowerCase = some VISITOR_HEADER →
      ∀ object object', plain.objects xhr = some object → enabled.objects xhr = some object' →
        object.headers VISITOR_HEADER = none → object'.headers VISITOR_HEADER = none) :
    Alike (originalSetRequestHeader platform xhr name value plain)
      (originalSetRequestHeader platform xhr name value enabled) := by
  refine Alike.attempt h ?_
  refine rel_bind (h.objects xhr) fun object object' hplain henabled hsame => ?_
  rw [hsame.sendFlag]
  split_ifs
  · exact .none
  · cases name with
    | none => exact .none
    | some name =>
        refine rel_bind_same value fun value => ?_
        have happend := hsame.headers.append platform value
          fun hlower => hname (by rw [Option.map_some, hlower]) object object' hplain henabled
        refine rel_bind happend fun headers headers' _ _ hheaders => ?_
        exact .some (h.setObject xhr ⟨hsame.method, hsame.url, hheaders, rfl⟩)

/-- Both objects are sent. -/
theorem Like.sent {plain enabled : World ι β σ} (h : Like plain enabled) (xhr : ι)
    (body : Option (Option (Body β))) (settings : σ) :
    Alike (originalSend platform xhr body settings plain)
      (originalSend platform xhr body settings enabled) := by
  refine Alike.attempt h ?_
  refine rel_bind (h.objects xhr) fun object object' _ _ hsame => ?_
  rw [hsame.sendFlag]
  split_ifs
  · exact .none
  · refine rel_bind_same body fun body => .some ?_
    have hsent : SameObject { object with sendFlag := true } { object' with sendFlag := true } :=
      ⟨hsame.method, hsame.url, hsame.headers, rfl⟩
    refine (h.setObject xhr hsent).issue ?_
    unfold XhrRequest.request
    rw [hsame.method]
    exact ⟨hsame.url, rfl, rfl, hsame.headers.describe _ _, rfl, rfl⟩

omit [DecidableEq ι] in
/-- A visitor header is kept, behind one that is there. -/
theorem append_visitor {name : Str} (hname : toLowerCase name = VISITOR_HEADER) (headers : Headers)
    (value : Str) :
    append platform .cors headers name value =
      if isToken name && isHeaderValue (normalizeValue value) then
        some (Function.update headers VISITOR_HEADER (some ((headers VISITOR_HEADER).elim
          (normalizeValue value) (· ++ units ", " ++ normalizeValue value))))
      else none := by
  unfold Web.append
  rw [hname]
  dsimp only
  rw [if_pos (platform.keeps_visitor .cors _ (by decide))]

variable (platform) in
omit [DecidableEq ι] in
theorem append_visitor_header (headers : Headers) (value : Str) :
    append platform .cors headers VISITOR_HEADER value =
      if isHeaderValue (normalizeValue value) then
        some (Function.update headers VISITOR_HEADER (some ((headers VISITOR_HEADER).elim
          (normalizeValue value) (· ++ units ", " ++ normalizeValue value))))
      else none := by
  have htoken : isToken VISITOR_HEADER = true := by decide
  rw [append_visitor (by decide), htoken, Bool.true_and]

omit [DecidableEq ι] in
/-- An object that was opened in one world was opened in the other. -/
theorem Like.object {plain enabled : World ι β σ} (h : Like plain enabled) {xhr : ι} {object : XhrRequest}
    (hobject : plain.objects xhr = some object) :
    ∃ object', enabled.objects xhr = some object' ∧ SameObject object object' := by
  have hobjects := h.objects xhr
  rw [hobject] at hobjects
  cases henabled : enabled.objects xhr with
  | none =>
      rw [henabled] at hobjects
      cases hobjects
  | some object' =>
      rw [henabled] at hobjects
      exact ⟨object', rfl, Option.rel_some_some.mp hobjects⟩

omit [DecidableEq ι] in
theorem Like.object_plain {plain enabled : World ι β σ} (h : Like plain enabled) {xhr : ι}
    {object' : XhrRequest} (hobject : enabled.objects xhr = some object') :
    ∃ object, plain.objects xhr = some object ∧ SameObject object object' := by
  have hobjects := h.objects xhr
  rw [hobject] at hobjects
  cases hplain : plain.objects xhr with
  | none =>
      rw [hplain] at hobjects
      cases hobjects
  | some object =>
      rw [hplain] at hobjects
      exact ⟨object, rfl, Option.rel_some_some.mp hobjects⟩

/-- The object of the second world changes alone. -/
theorem Like.setEnabled {plain enabled : World ι β σ} (h : Like plain enabled) {xhr : ι}
    {object object' : XhrRequest} (hobject : plain.objects xhr = some object)
    (hsame : SameObject object object') : Like plain (enabled.setObject xhr object') := by
  have hset : plain.setObject xhr object = plain := by
    unfold World.setObject
    rw [← hobject, Function.update_eq_self]
  have hlike := h.setObject xhr hsame
  rwa [hset] at hlike

variable (platform) in
/-- **A visitor is injected** into an object that has none: only the second world changes, and it stays
    alike.  An object that the platform does not accept a header for is not sent either. -/
theorem Like.inject {plain enabled : World ι β σ} (h : Like plain enabled) {xhr : ι} {visitorId : Str}
    (hvalid : isHeaderValue (normalizeValue visitorId) = true)
    (hnone : ∀ object, plain.objects xhr = some object → object.headers VISITOR_HEADER = none) :
    (originalSetRequestHeader platform xhr (some VISITOR_HEADER) (some visitorId) enabled =
        .error .platform enabled ∧
      ∀ body settings, originalSend platform xhr body settings plain = .error .platform plain) ∨
      ∃ enabled', originalSetRequestHeader platform xhr (some VISITOR_HEADER) (some visitorId) enabled =
        .ok () enabled' ∧ Like plain enabled' := by
  by_cases hset : ∃ enabled',
      originalSetRequestHeader platform xhr (some VISITOR_HEADER) (some visitorId) enabled = .ok () enabled'
  · obtain ⟨enabled', hset⟩ := hset
    refine .inr ⟨enabled', hset, ?_⟩
    obtain ⟨object', name, value, headers, hobject', -, hname, hvalue, happend, rfl⟩ :=
      setRequestHeader_ok_iff.mp hset
    cases hname
    cases hvalue
    rw [append_visitor_header, if_pos hvalid, Option.some.injEq] at happend
    subst happend
    obtain ⟨object, hobject, hsame⟩ := h.object_plain hobject'
    exact h.setEnabled hobject
      ⟨hsame.method, hsame.url, hsame.headers.add (hnone object hobject) _, hsame.sendFlag⟩
  · refine .inl ⟨attempt_fails hset, fun body settings => attempt_fails ?_⟩
    rintro ⟨next, hsend⟩
    obtain ⟨object, body', hobject, hflag, -, -⟩ := send_ok_iff.mp hsend
    obtain ⟨object', hobject', hsame⟩ := h.object hobject
    apply hset
    have happend := append_visitor_header platform object'.headers visitorId
    rw [if_pos hvalid] at happend
    exact ⟨_, setRequestHeader_ok_iff.mpr
      ⟨object', _, _, _, hobject', hsame.sendFlag.trans hflag, rfl, rfl, happend, rfl⟩⟩

section Calls

variable {targets : List NormalizedAllowedTarget} {plain enabled : World ι β σ}

/-- **A call that does not break** fares alike in worlds that are alike. -/
theorem Like.call (h : Like plain enabled) {call : Call platform ι β}
    (hcalm : ¬ Breaks targets plain enabled call) :
    Alike (call.without platform plain) (call.enabled platform targets enabled) := by
  cases call with
  | change page => exact .ok ⟨rfl, h.objects, h.issued⟩
  | fetch input init =>
      have hunused : input.bodyUsed = false := by
        rw [← Bool.not_eq_true]
        exact fun hused => hcalm (.inl hused)
      show Alike (originalFetch platform input init plain) (wrappedFetch platform targets input init enabled)
      unfold originalFetch wrappedFetch
      refine Alike.attempt h ?_
      rw [h.page]
      cases hrequest : newRequest platform plain.page.baseURL input init with
      | none =>
          rw [requestToFetch_of_none targets hrequest]
          exact .none
      | some request =>
          obtain ⟨made, hmade, hsame⟩ := requestToFetch_same targets hunused hrequest
            fun hreceives hbad => hcalm (.inr ⟨request, hrequest, hreceives, hbad⟩)
          rw [hmade]
          exact .some (h.issue hsame)
  | open_ xhr method url again complete =>
      refine (h.opened xhr method url complete).andThen ?_
      exact fun plain' enabled' hlike => ⟨_, rfl, hlike.noted _⟩
  | setRequestHeader xhr name value =>
      have hlower : name.toLowerCase ≠ none := fun hnone => hcalm (.inl hnone)
      obtain ⟨lower, hlower⟩ := Option.ne_none_iff_exists'.mp hlower
      refine (h.headerSet xhr name.asString value ?_).andThen ?_
      · intro hname object object' hobject hobject' hnone
        by_contra hsome
        exact hcalm (.inr ⟨hname, object, object', hobject, hobject', hnone, hsome⟩)
      · intro plain' enabled' hlike
        rw [hlower]
        by_cases hvisitor : lower = some VISITOR_HEADER
        · exact ⟨_, by rw [noteExplicit, if_pos hvisitor]; rfl, hlike.noted _⟩
        · exact ⟨_, by rw [noteExplicit, if_neg hvisitor]; rfl, hlike⟩
  | send xhr body settings =>
      show Alike _ (sendWith platform xhr body settings (enabled.injected targets xhr) enabled)
      cases hinjected : enabled.injected targets xhr with
      | none => exact h.sent xhr body settings
      | some visitorId =>
          have hvalid : isHeaderValue (normalizeValue visitorId) = true := by
            rw [← Bool.not_eq_false]
            exact fun hbad => hcalm ⟨visitorId, hinjected, .inl hbad⟩
          have hnone : ∀ object, plain.objects xhr = some object → object.headers VISITOR_HEADER = none := by
            intro object hobject
            by_contra hsome
            exact hcalm ⟨visitorId, hinjected, .inr ⟨object, hobject, hsome⟩⟩
          rcases h.inject platform hvalid hnone with ⟨hset, hsend⟩ | ⟨enabled', hset, hlike⟩
          · show Alike (originalSend platform xhr body settings plain) _
            rw [hsend, sendWith, bind_of_error hset]
            exact .error _ _ h
          · rw [sendWith, bind_of_ok hset]
            exact (hlike.noted _).sent xhr body settings

/-- Noting a header leaves the objects alone. -/
theorem noteExplicit_objects {xhr : ι} {lower : Option (Option Str)} {w next : World ι β σ}
    (h : noteExplicit xhr lower w = .ok () next) : next.objects = w.objects := by
  cases lower with
  | none => cases h
  | some lower =>
      by_cases hvisitor : lower = some VISITOR_HEADER
      · rw [noteExplicit, if_pos hvisitor] at h
        cases h
        rfl
      · rw [noteExplicit, if_neg hvisitor] at h
        cases h
        rfl

omit [DecidableEq ι] in
/-- A combined header is longer than either of its parts. -/
theorem combined_ne (earlier value : Str) :
    earlier ++ units ", " ++ value ≠ earlier ∧ earlier ++ units ", " ++ value ≠ value := by
  have hlen : (earlier ++ units ", " ++ value).length = earlier.length + 2 + value.length := by
    rw [List.length_append, List.length_append, show (units ", ").length = 2 from rfl]
  constructor
  · intro h
    rw [h] at hlen
    omega
  · intro h
    rw [h] at hlen
    omega

omit [DecidableEq ι] in
/-- The visitor header of an object. -/
theorem Like.visitor (h : Like plain enabled) {xhr : ι} {object object' : XhrRequest} {value : Str}
    (hobject : plain.objects xhr = some object) (hobject' : enabled.objects xhr = some object')
    (hvalue : object.headers VISITOR_HEADER = some value) : object'.headers VISITOR_HEADER = some value := by
  obtain ⟨found, hfound, hsame⟩ := h.object hobject
  rw [hobject', Option.some.injEq] at hfound
  subst hfound
  exact hsame.headers.visitor value hvalue

theorem setObject_self (w : World ι β σ) (xhr : ι) (object : XhrRequest) :
    (w.setObject xhr object).objects xhr = some object := Function.update_self xhr _ w.objects

/-- **A call that breaks** does not succeed with the SDK, or does not keep the worlds alike. -/
theorem Like.broken (h : Like plain enabled) {call : Call platform ι β} {plain' enabled' : World ι β σ}
    (hbreaks : Breaks targets plain enabled call) (hplain : call.without platform plain = .ok () plain')
    (henabled : call.enabled platform targets enabled = .ok () enabled') : ¬ Like plain' enabled' := by
  intro hlike
  cases call with
  | change page => exact hbreaks
  | open_ xhr method url again complete => exact hbreaks
  | fetch input init =>
      have hplain : originalFetch platform input init plain = .ok () plain' := hplain
      have henabled : wrappedFetch platform targets input init enabled = .ok () enabled' := henabled
      obtain ⟨request, hrequest, -⟩ := Option.map_eq_some_iff.mp (attempt_ok_iff.mp hplain)
      obtain ⟨made, hmade, -⟩ := Option.map_eq_some_iff.mp (attempt_ok_iff.mp henabled)
      rw [h.page, requestToFetch_fails targets hrequest] at hmade
      · cases hmade
      · rcases hbreaks with hused | ⟨found, hfound, hreceives, hbad⟩
        · exact .inl hused
        · rw [hrequest, Option.some.injEq] at hfound
          subst hfound
          exact .inr ⟨hreceives, hbad⟩
  | setRequestHeader xhr name value =>
      obtain ⟨_, middle, hset', hnote⟩ := stateful_bind_ok_iff.mp henabled
      rcases hbreaks with hnone | ⟨hname, object, object', hobject, hobject', hunset, hset⟩
      · rw [hnone] at hnote
        cases hnote
      · obtain ⟨earlier, hearlier⟩ := Option.ne_none_iff_exists'.mp hset
        obtain ⟨old, name', value', headers, hold, -, hname', hvalue', happend, rfl⟩ :=
          setRequestHeader_ok_iff.mp hplain
        obtain ⟨old', name'', value'', headers', hold', -, hname'', hvalue'', happend', rfl⟩ :=
          setRequestHeader_ok_iff.mp hset'
        rw [hobject, Option.some.injEq] at hold
        rw [hobject', Option.some.injEq] at hold'
        subst hold hold'
        -- the same header is set behind the one that was injected
        rw [hname', Option.some.injEq] at hname''
        rw [hvalue', Option.some.injEq] at hvalue''
        subst hname'' hvalue''
        rw [hname', Option.map_some, Option.some.injEq] at hname
        rw [append_visitor hname] at happend happend'
        split_ifs at happend happend'
        cases happend
        cases happend'
        have hobjects := noteExplicit_objects hnote
        have hlast := hlike.visitor (setObject_self plain xhr _)
          ((congrFun hobjects xhr).trans (setObject_self enabled xhr _))
          (by dsimp only; exact Function.update_self _ _ _)
        dsimp only at hlast
        rw [Function.update_self, hunset, hearlier, Option.some.injEq] at hlast
        exact (combined_ne earlier _).2 hlast
  | send xhr body settings =>
      obtain ⟨visitorId, hinjected, hbad⟩ := hbreaks
      have henabled : sendWith platform xhr body settings (enabled.injected targets xhr) enabled =
        .ok () enabled' := henabled
      rw [hinjected, sendWith] at henabled
      obtain ⟨_, middle, hset, henabled⟩ := stateful_bind_ok_iff.mp henabled
      obtain ⟨object', name, value, headers, hobject', -, hname, hvalue, happend, rfl⟩ :=
        setRequestHeader_ok_iff.mp hset
      cases hname
      cases hvalue
      rw [append_visitor_header] at happend
      split_ifs at happend with hvalid
      cases happend
      rcases hbad with hinvalid | ⟨object, hobject, hheader⟩
      · rw [hinvalid] at hvalid
        cases hvalid
      · obtain ⟨earlier, hearlier⟩ := Option.ne_none_iff_exists'.mp hheader
        obtain ⟨old, body', hold, -, -, rfl⟩ := send_ok_iff.mp hplain
        rw [hobject, Option.some.injEq] at hold
        subst hold
        obtain ⟨_, noted, hnoted, hsent⟩ := stateful_bind_ok_iff.mp henabled
        cases hnoted
        obtain ⟨old', body'', hold', -, -, rfl⟩ := send_ok_iff.mp hsent
        have hinjected' := (setObject_self enabled xhr _).symm.trans hold'
        cases hinjected'
        have hlast := hlike.visitor (setObject_self plain xhr _) (setObject_self _ xhr _) hearlier
        dsimp only at hlast
        rw [Function.update_self, h.visitor hobject hobject' hearlier, Option.some.injEq] at hlast
        exact (combined_ne earlier _).1 hlast

/-- **The call is transparent**: if it succeeds without the SDK, it succeeds with it, and leaves worlds that
    are alike. -/
def Transparent (targets : List NormalizedAllowedTarget) (plain enabled : World ι β σ)
    (call : Call platform ι β) : Prop :=
  ∀ plain', call.without platform plain = .ok () plain' →
    ∃ enabled', call.enabled platform targets enabled = .ok () enabled' ∧ Like plain' enabled'

end Calls

end Steps

/-! ## §7. Every call. -/

/-- **A call is transparent exactly when it fails without the SDK, or does not break.** -/
theorem transparent_iff {ι β σ : Type} [DecidableEq ι] (platform : WebPlatform σ)
    (targets : List NormalizedAllowedTarget) (plain enabled : World ι β σ) (h : Like plain enabled)
    (call : Call platform ι β) :
    Transparent targets plain enabled call ↔
      ((∃ plain', call.without platform plain = .ok () plain') → ¬ Breaks targets plain enabled call) := by
  constructor
  · rintro htransparent ⟨plain', hplain⟩ hbreaks
    obtain ⟨enabled', henabled, hlike⟩ := htransparent plain' hplain
    exact h.broken hbreaks hplain henabled hlike
  · intro hcalm plain' hplain
    have halike := h.call (hcalm ⟨plain', hplain⟩)
    rw [hplain] at halike
    cases henabled : call.enabled platform targets enabled with
    | ok a enabled' =>
        rw [henabled] at halike
        cases halike with
        | ok hlike => exact ⟨enabled', rfl, hlike⟩
    | error e enabled' =>
        rw [henabled] at halike
        cases halike

section Runs

variable {ι β σ : Type} [DecidableEq ι] {platform : WebPlatform σ} {targets : List NormalizedAllowedTarget}

omit [DecidableEq ι] in
theorem Alike.leaves {x y : Effect ι β σ Unit} {plain enabled : World ι β σ}
    (h : Alike (x plain) (y enabled)) : Like (leaves x plain) (leaves y enabled) := by
  unfold Effects.leaves
  revert h
  cases x plain with
  | ok a plain' =>
      cases y enabled with
      | ok a' enabled' =>
          intro h
          cases h with
          | ok hlike => exact hlike
      | error e' enabled' =>
          intro h
          cases h
  | error e plain' =>
      cases y enabled with
      | ok a' enabled' =>
          intro h
          cases h
      | error e' enabled' =>
          intro h
          cases h with
          | error _ _ hlike => exact hlike

/-- The same call in both worlds, whether it returns or throws. -/
def Call.both (targets : List NormalizedAllowedTarget) (worlds : World ι β σ × World ι β σ)
    (call : Call platform ι β) : World ι β σ × World ι β σ :=
  (Effects.leaves (call.without platform) worlds.1,
    Effects.leaves (call.enabled platform targets) worlds.2)

/-- **Two worlds stay alike** over any calls of which none breaks where it is made. -/
theorem alike_after {plain enabled : World ι β σ} (h : Like plain enabled) {calls : List (Call platform ι β)}
    (hcalm : Respects (Call.both targets) (fun worlds call => ¬ Breaks targets worlds.1 worlds.2 call)
      (plain, enabled) calls) :
    Like (calls.foldl (Call.both targets) (plain, enabled)).1
      (calls.foldl (Call.both targets) (plain, enabled)).2 := by
  have hstart : Like (plain, enabled).1 (plain, enabled).2 := h
  exact hcalm.invariant (I := fun worlds => Like worlds.1 worlds.2) hstart
    fun worlds call hlike hbreaks => (hlike.call hbreaks).leaves

end Runs

/-! ## §8. A visitor that is no header value. -/

theorem plainParse_reparses (url : Str) (base : Option Str) (parsed : URL)
    (h : plainParse url base = some parsed) : ∃ again, plainParse parsed.href none = some again := by
  have hagain : ∀ origin path, origin.length = 9 → (units "/").isPrefixOf path = true →
      ∃ again, plainParse (plainUrl origin path).href none = some again :=
    fun origin path horigin hpath => ⟨_, plainParse_append horigin hpath⟩
  unfold plainParse at h
  cases base with
  | some base =>
      simp only at h
      split_ifs at h with hboth
      rw [Bool.and_eq_true, decide_eq_true_eq] at hboth
      cases h
      exact hagain base url hboth.2 hboth.1
  | none =>
      simp only at h
      split_ifs at h with hlen hpath
      · cases h
        exact hagain url (units "/") hlen (by decide)
      · cases h
        refine hagain _ _ ?_ hpath
        have hlong := (List.isPrefixOf_iff_prefix.mp hpath).length_le
        rw [show (units "/").length = 1 from rfl, List.length_drop] at hlong
        rw [List.length_take]
        omega

/-- A platform that keeps every header. -/
def plainPlatform : WebPlatform Unit where
  parse := plainParse
  keeps _ _ _ := true
  defaults := ()
  keeps_visitor _ _ _ := rfl
  reparses := plainParse_reparses

/-- A page with a cookie, on which nothing has happened. -/
def freshWorld (cookie : Str) : World Unit Unit Unit :=
  ⟨⟨units "https://a", units "https://a", cookie⟩, fun _ => none, fun _ => none, []⟩

/-- `fetch('/x')`. -/
def fetchX : Call plainPlatform Unit Unit := .fetch (.url (some (units "/x"))) ⟨none, none, none, none, some⟩

def requestX : Request Unit Unit :=
  ⟨plainUrl (units "https://a") (units "/x"), units "GET", .cors, fun _ => none, none, ()⟩

theorem newRequest_fetchX : newRequest plainPlatform (units "https://a") (.url (some (units "/x")))
    ⟨none, none, none, none, some⟩ = some requestX := by
  rfl

/-- A plain visitor does no harm. -/
theorem plain_visitor_transparent :
    Transparent [⟨units "https://a", units "/"⟩] (freshWorld (units "_cekat_visitor_id=v"))
      (freshWorld (units "_cekat_visitor_id=v")) fetchX := by
  refine (transparent_iff plainPlatform _ _ _ (.refl _) fetchX).mpr ?_
  rintro - (hused | ⟨request, -, -, -, visitorId, hvisitor, hbad⟩)
  · cases hused
  · have hread : readVisitorId (units "_cekat_visitor_id=v") = some (units "v") := by decide
    have hvisitor := hread.symm.trans hvisitor
    cases hvisitor
    exact absurd hbad (by decide)

/-- **A check mark in the cookie makes `fetch` fail.** -/
theorem check_mark_breaks :
    ¬ ∀ cookie, Transparent [⟨units "https://a", units "/"⟩] (freshWorld cookie) (freshWorld cookie)
      fetchX := by
  intro h
  have hplain : fetchX.without plainPlatform (freshWorld (units "_cekat_visitor_id=✓")) =
      .ok () ((freshWorld (units "_cekat_visitor_id=✓")).issue requestX) := by
    show originalFetch plainPlatform _ _ _ = _
    refine attempt_of_some ?_
    show (newRequest plainPlatform (units "https://a") _ _).map _ = _
    rw [newRequest_fetchX]
    rfl
  obtain ⟨enabled', henabled, hlike⟩ := h (units "_cekat_visitor_id=✓") _ hplain
  have hread : readVisitorId (units "_cekat_visitor_id=✓") = some (units "✓") := by decide
  have hmatch : matchesAllowedTarget [⟨units "https://a", units "/"⟩] requestX.url = true := by decide
  have hbreaks : Breaks [⟨units "https://a", units "/"⟩] (freshWorld (units "_cekat_visitor_id=✓"))
      (freshWorld (units "_cekat_visitor_id=✓")) fetchX :=
    Or.inr ⟨requestX, newRequest_fetchX, ⟨_, rfl, hmatch⟩, rfl, units "✓", hread, by decide⟩
  exact (Like.refl _).broken hbreaks hplain henabled hlike

end CekatEvents.Browser.Web
