/-
  CekatEvents.Java.ServletFilter — the visitor of a servlet request (`CekatVisitorFilter.java`,
  `CekatServletRequest.java`).

  The filter stands around every dispatch of a request.  What it leaves behind is cleaned up when the
  request returns without going asynchronous, or by a listener on the asynchronous cycle; the listener
  follows the request into the next cycle.  The container is a step relation: it may dispatch, time out,
  fail or complete whenever the specification lets it, and the application may start, dispatch and
  complete cycles from any thread.

  Main results:

    • `presents_iff` — the filter resolves the visitor that the request presents, header before cookie;
    • `reachable_sound` — in every state that a request can reach, the visitor is that of the request
      during a dispatch and that of before after it, and nothing is left when the request is over.
-/
import CekatEvents.Java.VisitorContext
import Mathlib.Logic.Relation

namespace CekatEvents.Java.ServletFilter

open CekatEvents.Encoding CekatEvents.Http CekatEvents.Java.VisitorContext

/-! ## §1. Requests and their attributes. -/

/-- What the SDK reads of a request.  Either list may be missing. -/
structure ServletRequest where
  getHeader : Str → Option Str
  cookieHeaders : Option (List Str)
  cookies : Option (List (Str × Option Str))

/-- `cookie` of `asVisitorRequest`: the raw headers, then the parsed cookies. -/
def ServletRequest.cookie (request : ServletRequest) (name : Str) : Option Str :=
  match (request.cookieHeaders.getD []).findSome? fun header => fromCookieHeader (some header) with
  | some value => some value
  | none => (request.cookies.getD []).findSome? fun cookie =>
      if cookie.1 = name then cookie.2.filter fun value => !isBlank isWhitespace value else none

/-- `asVisitorRequest`. -/
def asVisitorRequest (request : ServletRequest) : VisitorRequest :=
  ⟨request.getHeader, request.cookie⟩

/-- The attributes of the SDK; `LISTENER_ATTRIBUTE` holds an asynchronous context. -/
structure Attributes where
  VISITOR_ID_ATTRIBUTE : Option Str
  RESOLVED_ATTRIBUTE : Bool
  LISTENER_ATTRIBUTE : Option Nat

/-- The attributes of a request that the SDK has not seen. -/
def Attributes.absent : Attributes := ⟨none, false, none⟩

section Request

variable (request : ServletRequest)

/-- The visitor of the request. -/
def resolved : Option Str := resolve (asVisitorRequest request)

def visitorId (a : Attributes) : Option Str :=
  if a.RESOLVED_ATTRIBUTE then a.VISITOR_ID_ATTRIBUTE else resolved request

def store (a : Attributes) : Attributes :=
  if a.RESOLVED_ATTRIBUTE then a
  else { a with RESOLVED_ATTRIBUTE := true, VISITOR_ID_ATTRIBUTE := resolved request }

def clear (a : Attributes) : Attributes :=
  { a with VISITOR_ID_ATTRIBUTE := none, RESOLVED_ATTRIBUTE := false }

/-! ## §2. The filter and the container. -/

inductive DispatcherType where
  | REQUEST
  | ASYNC
  | ERROR
  deriving DecidableEq

/-- How the request stands with its asynchronous cycle: it has none, it has started one, a dispatch of it
    was asked for or has begun, or it was completed. -/
inductive Async where
  | none
  | started
  | dispatched
  | redispatched
  | completed
  deriving DecidableEq

/-- Where the request is.  A dispatch keeps its thread, the visitor that thread had before, and the scope
    that the filter opened; between the scope and the cleanup the filter has asked `isAsyncStarted`. -/
inductive Phase (ι : Type) where
  | fresh
  | chain (type : DispatcherType) (thread : ι) (before : Option Str) (scope : Nat)
  | closing (type : DispatcherType) (thread : ι) (before : Option Str) (isAsyncStarted : Bool)
  | container
  | ended

/-- A request in its container.  `asyncContext` is the context of the latest `startAsync`, and
    `listeners` counts the cleanup listeners registered on its cycle. -/
structure Exchange (ι : Type) where
  threads : Threads ι
  attributes : Attributes
  async : Async
  asyncContext : Nat
  listeners : Nat
  phase : Phase ι

/-- A request that has just arrived. -/
def Exchange.arrived {ι : Type} (threads : Threads ι) : Exchange ι :=
  ⟨threads, .absent, .none, 0, 0, .fresh⟩

variable {ι : Type} [DecidableEq ι]

/-- `doFilter` up to the chain. -/
def enter (type : DispatcherType) (thread : ι) (x : Exchange ι) : Exchange ι :=
  let attributes := if type = .REQUEST then store request x.attributes else x.attributes
  { x with
    attributes
    threads := x.threads.scope thread (normalize (visitorId request attributes))
    phase := .chain type thread (x.threads.current thread) x.threads.scopes.length }

/-- The chain has returned or thrown: the scope is closed and `isAsyncStarted` asked. -/
def leave (type : DispatcherType) (thread : ι) (before : Option Str) (scope : Nat)
    (x : Exchange ι) : Exchange ι :=
  { x with
    threads := x.threads.close thread scope
    phase := .closing type thread before (decide (x.async = .started)) }

/-- `registerCleanup`. -/
def registerCleanup (x : Exchange ι) : Exchange ι :=
  if x.attributes.LISTENER_ATTRIBUTE = some x.asyncContext then x
  else { x with
    attributes := { x.attributes with LISTENER_ATTRIBUTE := some x.asyncContext }
    listeners := x.listeners + 1 }

/-- The end of `doFilter`. -/
def finish (type : DispatcherType) (isAsyncStarted : Bool) (x : Exchange ι) : Exchange ι :=
  { (if isAsyncStarted then registerCleanup x
    else if type = .REQUEST then { x with attributes := clear x.attributes }
    else x) with phase := .container }

/-- `clear` of the listener, when one is registered. -/
def listenersClear (x : Exchange ι) : Attributes :=
  if x.listeners = 0 then x.attributes
  else { clear x.attributes with LISTENER_ATTRIBUTE := none }

/-- A cycle is started, or restarted: `onStartAsync` registers every listener again. -/
def startAsync (asyncContext : Nat) (x : Exchange ι) : Exchange ι :=
  { x with
    async := .started
    asyncContext
    attributes := if x.listeners = 0 then x.attributes
      else { x.attributes with LISTENER_ATTRIBUTE := some asyncContext } }

/-- **What can happen to a request.** -/
inductive Step : Exchange ι → Exchange ι → Prop
  /-- The dispatches. -/
  | request {x : Exchange ι} (thread : ι) (h : x.phase = .fresh) :
      Step x (enter request .REQUEST thread x)
  | async {x : Exchange ι} (thread : ι) (h : x.phase = .container) (ha : x.async = .dispatched) :
      Step x (enter request .ASYNC thread { x with async := .redispatched })
  | error {x : Exchange ι} (thread : ι) (h : x.phase = .container) :
      Step x (enter request .ERROR thread x)
  /-- The chain ends, and the filter with it. -/
  | leave {x : Exchange ι} {type : DispatcherType} {thread : ι} {before : Option Str} {scope : Nat}
      (h : x.phase = .chain type thread before scope) : Step x (leave type thread before scope x)
  | finish {x : Exchange ι} {type : DispatcherType} {thread : ι} {before : Option Str}
      {isAsyncStarted : Bool} (h : x.phase = .closing type thread before isAsyncStarted) :
      Step x (finish type isAsyncStarted x)
  /-- The application, from any thread. -/
  | startAsync {x : Exchange ι} {type : DispatcherType} {thread : ι} {before : Option Str}
      {scope : Nat} (asyncContext : Nat) (h : x.phase = .chain type thread before scope)
      (ha : x.async = .none ∨ x.async = .redispatched) : Step x (startAsync asyncContext x)
  | dispatch {x : Exchange ι} (h : x.phase ≠ .ended) (ha : x.async = .started) :
      Step x { x with async := .dispatched }
  | complete {x : Exchange ι} (h : x.phase ≠ .ended) (ha : x.async = .started) :
      Step x { x with async := .completed }
  /-- A cycle times out or fails. -/
  | onTimeout {x : Exchange ι} (h : x.phase ≠ .ended) (ha : x.async ≠ .none) :
      Step x { x with attributes := listenersClear x }
  | onError {x : Exchange ι} (h : x.phase ≠ .ended) (ha : x.async ≠ .none) :
      Step x { x with attributes := listenersClear x }
  /-- The last cycle is completed, by the application or by the container after a dispatch. -/
  | onComplete {x : Exchange ι} (h : x.phase = .container)
      (ha : x.async = .completed ∨ x.async = .redispatched ∨ x.async = .started) :
      Step x { x with attributes := listenersClear x, phase := .ended }
  /-- A request without a cycle is over. -/
  | gone {x : Exchange ι} (h : x.phase = .container) (ha : x.async = .none) :
      Step x { x with phase := .ended }
  /-- Other threads open and close scopes of their own, and so does any thread between dispatches. -/
  | elsewhere {x : Exchange ι} (action : Action ι)
      (h : ∀ type thread before scope, x.phase = .chain type thread before scope →
        action.thread ≠ thread)
      (h' : ∀ type thread before started, x.phase = .closing type thread before started →
        action.thread ≠ thread) :
      Step x { x with threads := step x.threads action }

end Request

/-! ## §3. The visitor that a request presents. -/

section Presents

variable {request : ServletRequest}

/-- The visitor header is missing or blank. -/
def NoHeader (request : ServletRequest) : Prop :=
  ∀ value, request.getHeader (units "X-Cekat-Visitor-ID") = some value →
    isBlank isWhitespace value = true

/-- The first visitor cookie of a raw header that is not blank. -/
def rawValue (header : Str) : Option Str :=
  firstValue (fun u => decide (u ≤ 0x20)) isWhitespace 0x3B 0x3D (units "_cekat_visitor_id") header

/-- A parsed cookie of another name, or without a value, or with a blank one. -/
def NoValue (cookie : Str × Option Str) : Prop :=
  cookie.1 = units "_cekat_visitor_id" → ∀ value, cookie.2 = some value →
    isBlank isWhitespace value = true

/-- **The visitor that a request presents**: the header; when it is missing or blank, the first cookie of
    the raw headers that is not; when there is none, the first parsed cookie that is not; or nothing. -/
inductive Presents (request : ServletRequest) : Option Str → Prop
  | header {value : Str} (hvalue : request.getHeader (units "X-Cekat-Visitor-ID") = some value)
      (hblank : isBlank isWhitespace value = false) : Presents request (some (trim isWhitespace value))
  | raw {earlier later : List Str} {header v : Str} (hheader : NoHeader request)
      (hraw : request.cookieHeaders = some (earlier ++ header :: later)) (hv : rawValue header = some v)
      (hearlier : ∀ other ∈ earlier, rawValue other = none) : Presents request (some v)
  | parsed {earlier later : List (Str × Option Str)} {value : Str} (hheader : NoHeader request)
      (hraw : ∀ header ∈ request.cookieHeaders.getD [], rawValue header = none)
      (hparsed : request.cookies = some (earlier ++ (units "_cekat_visitor_id", some value) :: later))
      (hblank : isBlank isWhitespace value = false) (hearlier : ∀ other ∈ earlier, NoValue other) :
      Presents request (some (trim isWhitespace value))
  | nothing (hheader : NoHeader request)
      (hraw : ∀ header ∈ request.cookieHeaders.getD [], rawValue header = none)
      (hparsed : ∀ cookie ∈ request.cookies.getD [], NoValue cookie) : Presents request none

/-- What is not blank is trimmed. -/
theorem normalize_of_not_blank {value : Str} (h : isBlank isWhitespace value = false) :
    normalize (some value) = some (trim isWhitespace value) := by
  apply trimToNone_eq_some_iff.mpr
  refine ⟨?_, value, rfl, rfl⟩
  rw [Ne, trim_eq_nil_iff, h]
  exact Bool.false_ne_true

theorem normalize_of_blank {value : Str} (h : isBlank isWhitespace value = true) :
    normalize (some value) = none := by
  rw [Option.eq_none_iff_forall_ne_some]
  intro v hv
  obtain ⟨hne, raw, hraw, htrim⟩ := trimToNone_eq_some_iff.mp hv
  cases hraw
  rw [trim_eq_nil_iff.mpr h] at htrim
  exact hne htrim.symm

theorem normalize_header (h : NoHeader request) : normalize (request.getHeader HEADER_NAME) = none := by
  cases hvalue : request.getHeader HEADER_NAME with
  | none => rfl
  | some value => exact normalize_of_blank (h value hvalue)

/-- The value of a raw header is trimmed already. -/
theorem normalize_rawValue {header v : Str} (h : rawValue header = some v) : normalize (some v) = some v := by
  obtain ⟨-, pair, -, -, hpair, -⟩ := firstValue_eq_some_iff.mp h
  obtain ⟨before, after, -, -, -, htrim, hne⟩ := pairValue_eq_some_iff.mp hpair
  apply trimToNone_eq_some_iff.mpr
  refine ⟨hne, v, rfl, ?_⟩
  rw [← htrim, trim_trim]

/-- The test that `cookie` makes of a parsed cookie. -/
def parsedValue (cookie : Str × Option Str) : Option Str :=
  if cookie.1 = COOKIE_NAME then cookie.2.filter fun value => !isBlank isWhitespace value else none

theorem parsedValue_eq_some_iff {cookie : Str × Option Str} {value : Str} :
    parsedValue cookie = some value ↔
      cookie = (units "_cekat_visitor_id", some value) ∧ isBlank isWhitespace value = false := by
  obtain ⟨name, content⟩ := cookie
  unfold parsedValue
  rw [Prod.mk.injEq]
  split_ifs with hname
  · have hname' : name = units "_cekat_visitor_id" := hname
    simp only [Option.filter_eq_some_iff, Bool.not_eq_true', hname', true_and]
  · constructor
    · intro h
      cases h
    · intro h
      exact absurd h.1.1 hname

theorem parsedValue_eq_none_iff {cookie : Str × Option Str} :
    parsedValue cookie = none ↔ NoValue cookie := by
  rw [Option.eq_none_iff_forall_ne_some]
  obtain ⟨name, content⟩ := cookie
  constructor
  · intro h hname value hvalue
    rw [← Bool.not_eq_false]
    exact fun hblank => h value (parsedValue_eq_some_iff.mpr ⟨Prod.ext hname hvalue, hblank⟩)
  · intro h value hvalue
    obtain ⟨heq, hblank⟩ := parsedValue_eq_some_iff.mp hvalue
    cases heq
    rw [h rfl value rfl] at hblank
    cases hblank

theorem eq_some_of_getD {α : Type} {o : Option (List α)} {before after : List α} {x : α}
    (h : o.getD [] = before ++ x :: after) : o = some (before ++ x :: after) := by
  cases o with
  | none => exact absurd h.symm (List.append_ne_nil_of_right_ne_nil _ (List.cons_ne_nil _ _))
  | some xs => exact congrArg some h

/-- The cookie of a request, raw or parsed. -/
theorem cookie_eq (request : ServletRequest) : request.cookie COOKIE_NAME =
    match (request.cookieHeaders.getD []).findSome? rawValue with
    | some value => some value
    | none => (request.cookies.getD []).findSome? parsedValue := by
  have hraw : (fun header => fromCookieHeader (some header)) = rawValue := by
    funext header
    exact fromCookieHeader_eq header
  unfold ServletRequest.cookie
  rw [hraw]
  rfl

theorem resolved_of_noHeader (h : NoHeader request) :
    resolved request = normalize (request.cookie COOKIE_NAME) := by
  unfold resolved resolve
  rw [show (asVisitorRequest request).firstHeader HEADER_NAME = request.getHeader HEADER_NAME from rfl,
    normalize_header h]
  rfl

/-- What the filter resolves, the request presents. -/
theorem presents_resolved (request : ServletRequest) : Presents request (resolved request) := by
  cases hheader : normalize (request.getHeader HEADER_NAME) with
  | some v =>
      obtain ⟨hne, value, hvalue, rfl⟩ := trimToNone_eq_some_iff.mp hheader
      have hresolved : resolved request = some (trim isWhitespace value) := by
        unfold resolved resolve
        rw [show (asVisitorRequest request).firstHeader HEADER_NAME = request.getHeader HEADER_NAME from rfl,
          hheader]
      rw [hresolved]
      refine .header hvalue ?_
      rwa [Ne, trim_eq_nil_iff, Bool.not_eq_true] at hne
  | none =>
      have hno : NoHeader request := by
        intro value hvalue
        by_contra hblank
        have hname : request.getHeader HEADER_NAME = some value := hvalue
        rw [hname, normalize_of_not_blank (Bool.not_eq_true _ ▸ hblank)] at hheader
        cases hheader
      rw [resolved_of_noHeader hno, cookie_eq]
      cases hraw : (request.cookieHeaders.getD []).findSome? rawValue with
      | some v =>
          obtain ⟨earlier, header, later, hheaders, hv, hearlier⟩ := List.findSome?_eq_some_iff.mp hraw
          show Presents request (normalize (some v))
          rw [normalize_rawValue hv]
          exact .raw hno (eq_some_of_getD hheaders) hv hearlier
      | none =>
          rw [List.findSome?_eq_none_iff] at hraw
          cases hparsed : (request.cookies.getD []).findSome? parsedValue with
          | some value =>
              obtain ⟨earlier, cookie, later, hcookies, hvalue, hearlier⟩ :=
                List.findSome?_eq_some_iff.mp hparsed
              obtain ⟨rfl, hblank⟩ := parsedValue_eq_some_iff.mp hvalue
              show Presents request (normalize (some value))
              rw [normalize_of_not_blank hblank]
              exact .parsed hno hraw (eq_some_of_getD hcookies) hblank fun other hother =>
                parsedValue_eq_none_iff.mp (hearlier other hother)
          | none =>
              rw [List.findSome?_eq_none_iff] at hparsed
              exact .nothing hno hraw fun cookie hcookie =>
                parsedValue_eq_none_iff.mp (hparsed cookie hcookie)

/-- **The filter resolves the visitor that the request presents**, and no other. -/
theorem presents_iff {v : Option Str} : Presents request v ↔ v = resolved request := by
  constructor
  · intro h
    cases h with
    | header hvalue hblank =>
        have hname : request.getHeader HEADER_NAME = some _ := hvalue
        unfold resolved resolve
        rw [show (asVisitorRequest request).firstHeader HEADER_NAME = request.getHeader HEADER_NAME from rfl,
          hname, normalize_of_not_blank hblank]
    | raw hheader hraw hv hearlier =>
        have hfind : (request.cookieHeaders.getD []).findSome? rawValue = some _ :=
          List.findSome?_eq_some_iff.mpr ⟨_, _, _, by rw [hraw]; rfl, hv, hearlier⟩
        rw [resolved_of_noHeader hheader, cookie_eq, hfind]
        exact (normalize_rawValue hv).symm
    | parsed hheader hraw hparsed hblank hearlier =>
        have hfind : (request.cookies.getD []).findSome? parsedValue = some _ :=
          List.findSome?_eq_some_iff.mpr ⟨_, _, _, by rw [hparsed]; rfl,
            parsedValue_eq_some_iff.mpr ⟨rfl, hblank⟩,
            fun other hother => parsedValue_eq_none_iff.mpr (hearlier other hother)⟩
        rw [resolved_of_noHeader hheader, cookie_eq, List.findSome?_eq_none_iff.mpr hraw, hfind]
        exact (normalize_of_not_blank hblank).symm
    | nothing hheader hraw hparsed =>
        have hfind : (request.cookies.getD []).findSome? parsedValue = none :=
          List.findSome?_eq_none_iff.mpr fun cookie hcookie =>
            parsedValue_eq_none_iff.mpr (hparsed cookie hcookie)
        rw [resolved_of_noHeader hheader, cookie_eq, List.findSome?_eq_none_iff.mpr hraw, hfind]
        rfl
  · rintro rfl
    exact presents_resolved request

end Presents

section Invariants

variable (request : ServletRequest) {ι : Type}

/-! ## §4. The invariant. -/

/-- The attributes hold the visitor of the request, or nothing. -/
def Stored (a : Attributes) : Prop :=
  a.VISITOR_ID_ATTRIBUTE = if a.RESOLVED_ATTRIBUTE then resolved request else none

/-- The filter will clean up: it has not finished the first dispatch, or its listener is registered on the
    current cycle. -/
def CleansUp (x : Exchange ι) : Prop :=
  match x.phase with
  | .chain .REQUEST _ _ _ => True
  | .closing .REQUEST _ _ _ => True
  | .ended => False
  | _ => 0 < x.listeners ∧ x.async ≠ .none

/-- **The invariant of a request.** -/
structure Invariant (x : Exchange ι) : Prop where
  stored : Stored request x.attributes
  /-- What is stored will be removed. -/
  cleansUp : x.attributes.RESOLVED_ATTRIBUTE = true → CleansUp x
  /-- The listener attribute is set only while a listener is registered. -/
  listener : x.attributes.LISTENER_ATTRIBUTE ≠ none → 0 < x.listeners
  /-- During a dispatch the visitor is that of the request, and the scope remembers the one before. -/
  chain : ∀ type thread before scope, x.phase = .chain type thread before scope →
    x.threads.current thread = resolved request ∧
      x.threads.scopes[scope]? = some ⟨before, thread, false⟩
  /-- After it the visitor is the one before. -/
  closing : ∀ type thread before started, x.phase = .closing type thread before started →
    x.threads.current thread = before ∧ (started = true → x.async ≠ .none)

variable {request : ServletRequest} {x : Exchange ι}

theorem visitorId_eq {a : Attributes} (h : Stored request a) :
    visitorId request a = resolved request := by
  unfold visitorId
  split_ifs with hresolved
  · have hvisitor : a.VISITOR_ID_ATTRIBUTE = if a.RESOLVED_ATTRIBUTE then resolved request else none := h
    rw [hvisitor, if_pos hresolved]
  · rfl

theorem stored_store {a : Attributes} (h : Stored request a) : Stored request (store request a) := by
  unfold store
  split_ifs with hresolved
  · exact h
  · rfl

theorem listener_store (a : Attributes) :
    (store request a).LISTENER_ATTRIBUTE = a.LISTENER_ATTRIBUTE := by
  unfold store
  split_ifs
  · rfl
  · rfl

/-- What the listeners leave: nothing, or what was there when none is registered. -/
theorem listenersClear_cases (x : Exchange ι) :
    (x.listeners = 0 ∧ listenersClear x = x.attributes) ∨ listenersClear x = .absent := by
  unfold listenersClear
  split_ifs with hzero
  · exact .inl ⟨hzero, rfl⟩
  · exact .inr rfl

/-! ## §5. Between dispatches. -/

/-- Between dispatches there is no thread to look at. -/
theorem invariant_idle (hphase : x.phase = .container ∨ x.phase = .fresh ∨ x.phase = .ended)
    (hstored : Stored request x.attributes)
    (hcleansUp : x.attributes.RESOLVED_ATTRIBUTE = true → CleansUp x)
    (hlistener : x.attributes.LISTENER_ATTRIBUTE ≠ none → 0 < x.listeners) :
    Invariant request x := by
  refine ⟨hstored, hcleansUp, hlistener, ?_, ?_⟩
  · intro type thread before scope h
    rw [h] at hphase
    rcases hphase with h | h | h
    · cases h
    · cases h
    · cases h
  · intro type thread before started h
    rw [h] at hphase
    rcases hphase with h | h | h
    · cases h
    · cases h
    · cases h

/-- While the request goes on, what is stored is cleaned up by the phase or by the listener. -/
theorem CleansUp.of_async {x' : Exchange ι} (h : CleansUp x) (hphase : x'.phase = x.phase)
    (hlisteners : x'.listeners = x.listeners) (hasync : x'.async ≠ .none) : CleansUp x' := by
  unfold CleansUp at h ⊢
  rw [hphase, hlisteners]
  cases hp : x.phase with
  | fresh => rw [hp] at h; exact ⟨h.1, hasync⟩
  | container => rw [hp] at h; exact ⟨h.1, hasync⟩
  | ended => rw [hp] at h; exact h
  | chain type thread before scope =>
      rw [hp] at h
      cases type with
      | REQUEST => trivial
      | ASYNC => exact ⟨h.1, hasync⟩
      | ERROR => exact ⟨h.1, hasync⟩
  | closing type thread before started =>
      rw [hp] at h
      cases type with
      | REQUEST => trivial
      | ASYNC => exact ⟨h.1, hasync⟩
      | ERROR => exact ⟨h.1, hasync⟩

/-- The application goes on with its cycle. -/
theorem Invariant.async_step (h : Invariant request x) {async : Async} (hasync : async ≠ .none) :
    Invariant request { x with async } := by
  refine ⟨h.stored, ?_, h.listener, h.chain, ?_⟩
  · intro hresolved
    exact (h.cleansUp hresolved).of_async rfl rfl hasync
  · intro type thread before started hphase
    exact ⟨(h.closing _ _ _ _ hphase).1, fun _ => hasync⟩

/-- A cycle begins, and the listener follows. -/
theorem Invariant.startAsync_step (h : Invariant request x) (asyncContext : Nat) :
    Invariant request (startAsync asyncContext x) := by
  have hne : Async.started ≠ .none := by decide
  refine ⟨?_, ?_, ?_, h.chain, ?_⟩
  · show Stored request (if x.listeners = 0 then x.attributes else _)
    split_ifs
    · exact h.stored
    · exact h.stored
  · intro hresolved
    have hstill : x.attributes.RESOLVED_ATTRIBUTE = true := by
      have hif : (if x.listeners = 0 then x.attributes else
        { x.attributes with LISTENER_ATTRIBUTE := some asyncContext }).RESOLVED_ATTRIBUTE = true :=
        hresolved
      split_ifs at hif
      · exact hif
      · exact hif
    exact (h.cleansUp hstill).of_async rfl rfl hne
  · intro hlistener
    show 0 < x.listeners
    by_cases hzero : x.listeners = 0
    · apply h.listener
      have hif : (if x.listeners = 0 then x.attributes else
        { x.attributes with LISTENER_ATTRIBUTE := some asyncContext }).LISTENER_ATTRIBUTE ≠ none :=
        hlistener
      rw [if_pos hzero] at hif
      exact hif
    · omega
  · intro type thread before started hphase
    exact ⟨(h.closing _ _ _ _ hphase).1, fun _ => hne⟩

/-- A timeout or an error leaves nothing stored. -/
theorem Invariant.listenersClear_step (h : Invariant request x) :
    Invariant request { x with attributes := listenersClear x } := by
  rcases listenersClear_cases x with ⟨-, hsame⟩ | habsent
  · rw [hsame]
    exact h
  · rw [habsent]
    refine ⟨rfl, ?_, fun hne => absurd rfl hne, h.chain, h.closing⟩
    intro hresolved
    cases hresolved

/-- After the last cycle nothing is stored. -/
theorem Invariant.onComplete_step (h : Invariant request x) (hphase : x.phase = .container) :
    Invariant request { x with attributes := listenersClear x, phase := .ended } := by
  have hcleared := h.listenersClear_step
  refine invariant_idle (.inr (.inr rfl)) hcleared.stored ?_ hcleared.listener
  intro hresolved
  have hcleans := hcleared.cleansUp hresolved
  rcases listenersClear_cases x with ⟨hzero, hsame⟩ | habsent
  · unfold CleansUp at hcleans
    simp only [hphase] at hcleans
    omega
  · rw [habsent] at hresolved
    cases hresolved

/-- **What is promised of a request.** -/
structure Sound (request : ServletRequest) (x : Exchange ι) : Prop where
  /-- During every dispatch the thread's visitor is the one that the request presents. -/
  current : ∀ type thread before scope, x.phase = .chain type thread before scope →
    ∀ v, Presents request v ↔ v = x.threads.current thread
  /-- After it the thread's visitor is what it was before. -/
  restored : ∀ type thread before started, x.phase = .closing type thread before started →
    x.threads.current thread = before
  /-- Nothing is stored once the first dispatch has returned without going asynchronous. -/
  returned : x.phase = .container → x.async = .none →
    x.attributes.VISITOR_ID_ATTRIBUTE = none ∧ x.attributes.RESOLVED_ATTRIBUTE = false
  /-- Nothing is stored once the request has ended. -/
  ended : x.phase = .ended →
    x.attributes.VISITOR_ID_ATTRIBUTE = none ∧ x.attributes.RESOLVED_ATTRIBUTE = false

theorem Invariant.sound (h : Invariant request x) : Sound request x := by
  have habsent : ¬ CleansUp x →
      x.attributes.VISITOR_ID_ATTRIBUTE = none ∧ x.attributes.RESOLVED_ATTRIBUTE = false := by
    intro hnot
    have hresolved : x.attributes.RESOLVED_ATTRIBUTE = false := by
      rw [Bool.eq_false_iff]
      exact fun hresolved => hnot (h.cleansUp hresolved)
    have hstored : x.attributes.VISITOR_ID_ATTRIBUTE =
        if x.attributes.RESOLVED_ATTRIBUTE then resolved request else none := h.stored
    rw [hresolved] at hstored
    exact ⟨hstored, hresolved⟩
  refine ⟨?_, fun _ _ _ _ hphase => (h.closing _ _ _ _ hphase).1, ?_, ?_⟩
  · intro type thread before scope hphase v
    rw [(h.chain _ _ _ _ hphase).1]
    exact presents_iff
  · intro hphase hnone
    apply habsent
    unfold CleansUp
    rw [hphase]
    exact fun hcleans => hcleans.2 hnone
  · intro hphase
    apply habsent
    unfold CleansUp
    rw [hphase]
    exact id

/-! ## §6. One step. -/

/-- The end of the filter clears what is stored, or registers its listener. -/
theorem Invariant.finish_step {type : DispatcherType} {thread : ι} {before : Option Str} {started : Bool}
    (h : Invariant request x) (hphase : x.phase = .closing type thread before started) :
    Invariant request (finish type started x) := by
  have hclosing := (h.closing _ _ _ _ hphase).2
  cases started with
  | true =>
      show Invariant request { registerCleanup x with phase := .container }
      unfold registerCleanup
      split_ifs with hregistered
      · have hlisteners : 0 < x.listeners := by
          apply h.listener
          rw [hregistered]
          exact Option.some_ne_none _
        exact invariant_idle (.inl rfl) h.stored (fun _ => ⟨hlisteners, hclosing rfl⟩) h.listener
      · exact invariant_idle (.inl rfl) h.stored (fun _ => ⟨Nat.succ_pos _, hclosing rfl⟩)
          fun _ => Nat.succ_pos _
  | false =>
      by_cases htype : type = .REQUEST
      · subst htype
        exact invariant_idle (.inl rfl) rfl (by intro hresolved; cases hresolved) h.listener
      · have hfinish : finish type false x = { x with phase := .container } := by
          show { (if type = .REQUEST then { x with attributes := clear x.attributes } else x) with
            phase := .container } = _
          rw [if_neg htype]
        rw [hfinish]
        refine invariant_idle (.inl rfl) h.stored ?_ h.listener
        intro hresolved
        have hcleans := h.cleansUp hresolved
        unfold CleansUp at hcleans
        rw [hphase] at hcleans
        cases type with
        | REQUEST => exact absurd rfl htype
        | ASYNC => exact hcleans
        | ERROR => exact hcleans

variable [DecidableEq ι]

/-- A dispatch begins with the visitor of the request. -/
theorem invariant_enter (type : DispatcherType) (thread : ι) (hstored : Stored request x.attributes)
    (hcleansUp : type ≠ .REQUEST → x.attributes.RESOLVED_ATTRIBUTE = true →
      0 < x.listeners ∧ x.async ≠ .none)
    (hlistener : x.attributes.LISTENER_ATTRIBUTE ≠ none → 0 < x.listeners) :
    Invariant request (enter request type thread x) := by
  have hattributes : Stored request (enter request type thread x).attributes := by
    show Stored request (if type = .REQUEST then store request x.attributes else x.attributes)
    split_ifs
    · exact stored_store hstored
    · exact hstored
  refine ⟨hattributes, ?_, ?_, ?_, ?_⟩
  · intro hresolved
    cases type with
    | REQUEST => trivial
    | ASYNC => exact hcleansUp (by decide) hresolved
    | ERROR => exact hcleansUp (by decide) hresolved
  · intro hne
    apply hlistener
    have hsame : (if type = .REQUEST then store request x.attributes
        else x.attributes).LISTENER_ATTRIBUTE = x.attributes.LISTENER_ATTRIBUTE := by
      split_ifs
      · exact listener_store _
      · rfl
    rw [← hsame]
    exact hne
  · intro type' thread' before scope hphase
    cases hphase
    refine ⟨?_, List.getElem?_concat_length⟩
    show Function.update x.threads.current thread
      (normalize (visitorId request (enter request type thread x).attributes)) thread = _
    rw [Function.update_self, visitorId_eq hattributes]
    exact normalize_resolve _
  · intro type' thread' before started hphase
    cases hphase

/-- The end of the chain puts back what the thread had before. -/
theorem Invariant.leave_step {type : DispatcherType} {thread : ι} {before : Option Str} {scope : Nat}
    (h : Invariant request x) (hphase : x.phase = .chain type thread before scope) :
    Invariant request (leave type thread before scope x) := by
  refine ⟨h.stored, ?_, h.listener, ?_, ?_⟩
  · intro hresolved
    have hcleans := h.cleansUp hresolved
    unfold CleansUp at hcleans ⊢
    rw [hphase] at hcleans
    cases type with
    | REQUEST => trivial
    | ASYNC => exact hcleans
    | ERROR => exact hcleans
  · intro type' thread' before' scope' hphase'
    cases hphase'
  · intro type' thread' before' started hphase'
    cases hphase'
    refine ⟨?_, ?_⟩
    · show (x.threads.close thread scope).current thread = before
      rw [close_own (h.chain _ _ _ _ hphase).2]
      exact Function.update_self _ _ _
    · intro hstarted
      have hasync : x.async = .started := of_decide_eq_true hstarted
      show x.async ≠ .none
      rw [hasync]
      decide

/-- **One step keeps the invariant.** -/
theorem Invariant.step {x' : Exchange ι} (h : Invariant request x) (hstep : Step request x x') :
    Invariant request x' := by
  -- what is stored between dispatches is the business of the listener
  have hbetween : x.phase = .container → x.attributes.RESOLVED_ATTRIBUTE = true →
      0 < x.listeners ∧ x.async ≠ .none := by
    intro hphase hresolved
    have hcleans := h.cleansUp hresolved
    unfold CleansUp at hcleans
    rw [hphase] at hcleans
    exact hcleans
  cases hstep with
  | request thread hphase =>
      exact invariant_enter .REQUEST thread h.stored (fun hne => absurd rfl hne) h.listener
  | async thread hphase ha =>
      have hlisteners : x.attributes.RESOLVED_ATTRIBUTE = true →
          0 < x.listeners ∧ Async.redispatched ≠ .none :=
        fun hresolved => ⟨(hbetween hphase hresolved).1, by decide⟩
      exact invariant_enter .ASYNC thread h.stored (fun _ => hlisteners) h.listener
  | error thread hphase =>
      exact invariant_enter .ERROR thread h.stored (fun _ => hbetween hphase) h.listener
  | leave hphase => exact h.leave_step hphase
  | finish hphase => exact h.finish_step hphase
  | startAsync asyncContext hphase ha => exact h.startAsync_step asyncContext
  | dispatch hphase ha => exact h.async_step (by decide)
  | complete hphase ha => exact h.async_step (by decide)
  | onTimeout hphase ha => exact h.listenersClear_step
  | onError hphase ha => exact h.listenersClear_step
  | onComplete hphase ha => exact h.onComplete_step hphase
  | gone hphase ha =>
      refine invariant_idle (.inr (.inr rfl)) h.stored ?_ h.listener
      intro hresolved
      exact absurd ha (hbetween hphase hresolved).2
  | elsewhere action hchain hclosing =>
      refine ⟨h.stored, h.cleansUp, h.listener, ?_, ?_⟩
      · intro type thread before scope hphase
        have hne := hchain _ _ _ _ hphase
        obtain ⟨hcurrent, hscope⟩ := h.chain _ _ _ _ hphase
        exact ⟨(current_step hne).trans hcurrent, scope_step hne hscope rfl⟩
      · intro type thread before started hphase
        obtain ⟨hcurrent, hasync⟩ := h.closing _ _ _ _ hphase
        exact ⟨(current_step (hclosing _ _ _ _ hphase)).trans hcurrent, hasync⟩

/-! ## §7. Requests in their container. -/

/-- **In every state that a request can reach** the visitor is where it belongs. -/
theorem reachable_sound (request : ServletRequest) (threads : Threads ι) (x : Exchange ι)
    (hrun : Relation.ReflTransGen (Step request) (.arrived threads) x) : Sound request x := by
  have hinvariant : Invariant request x := by
    induction hrun with
    | refl =>
        exact invariant_idle (.inr (.inl rfl)) rfl (by intro hresolved; cases hresolved)
          fun hne => absurd rfl hne
    | tail _ hstep ih => exact ih.step hstep
  exact hinvariant.sound

end Invariants

/-- A request with a padded header and a cookie of another value, which goes asynchronous, is dispatched
    again and completed: the header is the visitor of the second dispatch, and nothing is left. -/
theorem async_request_sound : ∃ x y : Exchange Unit,
    x.phase = .chain .ASYNC () (some [112]) 1 ∧ x.threads.current () = some [118] ∧ y.phase = .ended ∧
      ∃ request : ServletRequest, request.getHeader (units "X-Cekat-Visitor-ID") = some [32, 118] ∧
        request.cookieHeaders = some [units "_cekat_visitor_id=w"] ∧ Sound request x ∧ Sound request y := by
  let request : ServletRequest :=
    ⟨fun name => if name = units "X-Cekat-Visitor-ID" then some [32, 118] else none,
      some [units "_cekat_visitor_id=w"], none⟩
  let x₀ : Exchange Unit := .arrived ⟨fun _ => some [112], []⟩
  let x₁ := startAsync 1 (enter request .REQUEST () x₀)
  let x₂ := finish .REQUEST true (leave .REQUEST () (some [112]) 0 x₁)
  let x₃ := enter request .ASYNC () { x₂ with async := .redispatched }
  let x₄ := finish .ASYNC false (leave .ASYNC () (some [112]) 1 x₃)
  have hstart : Relation.ReflTransGen (Step request) x₀ x₁ :=
    .tail (.single (.request () rfl)) (.startAsync 1 rfl (.inl rfl))
  have hfirst : Relation.ReflTransGen (Step request) x₁ x₂ :=
    .tail (.single (.leave rfl)) (.finish rfl)
  have hagain : Relation.ReflTransGen (Step request) x₂ x₃ :=
    .tail (.single (.dispatch (by intro h; cases h) rfl)) (.async () rfl rfl)
  have hsecond : Relation.ReflTransGen (Step request) x₃ x₄ :=
    .tail (.single (.leave rfl)) (.finish rfl)
  have hdispatched := (hstart.trans hfirst).trans hagain
  have hended := (hdispatched.trans hsecond).tail (.onComplete rfl (.inr (.inl rfl)))
  exact ⟨x₃, _, rfl, by decide, rfl, request, by decide, rfl, reachable_sound request _ _ hdispatched,
    reachable_sound request _ _ hended⟩

end CekatEvents.Java.ServletFilter
