/-
  CekatEvents.Browser.Injection — the visitor headers of XHR objects (`browser/auto.ts`).

  The page makes its calls through the prototype, which holds the originals or the replacements of the
  active installation.  The platform keeps the headers of a request since the last successful `open`; the
  installation in a `WeakMap` what it noted about an object.  An object that was opened under an earlier
  installation is unknown to the active one.

  Main result:

    • `injections_fair` — after any calls, at most one header was injected since an object was opened, by
      the installation under which it was opened, with the cookie of that moment, and not after the caller
      had set the header.
-/
import CekatEvents.Browser.Installation
import CekatEvents.Browser.Propagation
import CekatEvents.Effects.Stateful

namespace CekatEvents.Browser

open CekatEvents.Encoding CekatEvents.Effects CekatEvents.Http

/-! ## §1. Documents. -/

/-- A header that was set, the installation that injected it if the caller did not set it, and the active
    installation and `document.cookie` of that moment. -/
structure HeaderWrite where
  injectedBy : Option Nat
  name : Str
  value : Str
  active : Option Nat
  cookie : Str

/-- What happened to an object since its last successful `open`: the installation that was active then,
    and the headers that were set, the latest first. -/
structure Request where
  openedUnder : Option Nat
  headers : List HeaderWrite

/-- The window, the page, the `WeakMap` of each installation, empty at first, and the requests of the
    platform. -/
structure Document (ι : Type) where
  window : Window
  page : Page
  xhrStates : Nat → ι → Option XhrState
  requests : ι → Option Request

/-- An exception of the platform. -/
structure DOMException where

section Calls

variable {ι : Type} [DecidableEq ι]

/-- The installation that is active. -/
def Document.active (d : Document ι) : Option Nat := d.window.activeInstallation.map (·.disable)

/-- The targets that an installation closes over. -/
def Document.targets (d : Document ι) (installation : Nat) : List NormalizedAllowedTarget :=
  (d.window.installations[installation]?).elim [] (·.targets)

/-- `xhrStates.set`. -/
def Document.setState (d : Document ι) (installation : Nat) (xhr : ι) (state : Option XhrState) :
    Document ι :=
  let states := Function.update (d.xhrStates installation) xhr state
  { d with xhrStates := Function.update d.xhrStates installation states }

/-- What an installation noted about an object is changed where it stands. -/
def Document.mapState (d : Document ι) (installation : Nat) (xhr : ι) (f : XhrState → XhrState) :
    Document ι :=
  d.setState installation xhr ((d.xhrStates installation xhr).map f)

theorem setState_self (d : Document ι) (installation : Nat) (xhr : ι) (state : Option XhrState) :
    (d.setState installation xhr state).xhrStates installation xhr = state := by
  unfold Document.setState
  simp

theorem setState_of_ne (d : Document ι) {installation i : Nat} {xhr x : ι} (state : Option XhrState)
    (h : x ≠ xhr ∨ installation ≠ i) :
    (d.setState installation xhr state).xhrStates i x = d.xhrStates i x := by
  unfold Document.setState
  by_cases hi : i = installation
  · subst hi
    have hx : x ≠ xhr := h.resolve_right (fun hne => hne rfl)
    simp [Function.update_of_ne hx]
  · simp [Function.update_of_ne hi]

abbrev Platform (ι : Type) := EStateM DOMException (Document ι)

/-! ### The functions of the platform, any of which may throw. -/

/-- A successful `open` clears the headers. -/
def platformOpen (xhr : ι) (accepted : Bool) : Platform ι Unit := fun d =>
  if accepted then .ok () { d with requests := Function.update d.requests xhr (some ⟨d.active, []⟩) }
  else .error ⟨⟩ d

/-- A header of an object that was never opened cannot be set. -/
def platformSetRequestHeader (injectedBy : Option Nat) (xhr : ι) (name value : Str) (accepted : Bool) :
    Platform ι Unit := fun d =>
  match d.requests xhr with
  | none => .error ⟨⟩ d
  | some request =>
      let header : HeaderWrite := ⟨injectedBy, name, value, d.active, d.page.cookie⟩
      let request : Request := { request with headers := header :: request.headers }
      if accepted then .ok () { d with requests := Function.update d.requests xhr (some request) }
      else .error ⟨⟩ d

def platformSend (accepted : Bool) : Platform ι Unit := fun d =>
  if accepted then .ok () d else .error ⟨⟩ d

/-! ### What the prototype holds. -/

section Prototype

variable (parse : UrlParser)

/-- `open`, on a URL that `String(url)` makes a string of unless it throws. -/
def OpenFunction.call (xhr : ι) (url : Option Str) (accepted : Bool) : OpenFunction → Platform ι Unit
  | .original => platformOpen xhr accepted
  | .wrapped installation originalOpen => do
      originalOpen.call xhr url accepted
      modify fun d => d.setState installation xhr (some ⟨parseUrl parse d.page url, false, false⟩)

def SetRequestHeaderFunction.call (injectedBy : Option Nat) (xhr : ι) (name value : Str)
    (accepted : Bool) : SetRequestHeaderFunction → Platform ι Unit
  | .original => platformSetRequestHeader injectedBy xhr name value accepted
  | .wrapped installation originalSetRequestHeader => do
      originalSetRequestHeader.call injectedBy xhr name value accepted
      if toLowerCase name = VISITOR_HEADER then
        modify fun d => d.mapState installation xhr fun state =>
          { state with explicitVisitorHeader := true }

/-- The visitor that is injected when an object is sent. -/
def Document.injected (d : Document ι) (installation : Nat) (xhr : ι) : Option Str :=
  (d.xhrStates installation xhr).bind fun state =>
    if state.url.any (matchesAllowedTarget (d.targets installation)) && !state.explicitVisitorHeader &&
        !state.injectedVisitorHeader then
      readVisitorId d.page.cookie
    else none

def SendFunction.call (xhr : ι) (headerAccepted accepted : Bool) : SendFunction → Platform ι Unit
  | .original => platformSend accepted
  | .wrapped installation originalSetRequestHeader originalSend => fun d =>
      match d.injected installation xhr with
      | none => originalSend.call xhr headerAccepted accepted d
      | some visitorId => (do
          originalSetRequestHeader.call (some installation) xhr VISITOR_HEADER visitorId headerAccepted
          modify fun d => d.mapState installation xhr fun state =>
            { state with injectedVisitorHeader := true }
          originalSend.call xhr headerAccepted accepted : Platform ι Unit) d

variable (localeCompare : Str → Str → Int)

/-- A call of the SDK, a change of the page, or a call of a method of an object; whether the platform
    accepts what it is given in the call, a header and the rest. -/
inductive Call (ι : Type) where
  | toggle (toggle : Toggle)
  | change (page : Page)
  | open_ (xhr : ι) (url : Option Str) (accepted : Bool)
  | setRequestHeader (xhr : ι) (name value : Str) (accepted : Bool)
  | send (xhr : ι) (headerAccepted accepted : Bool)

/-- The document after a call, whether it returned or threw. -/
def Document.step (d : Document ι) : Call ι → Document ι
  | .toggle toggle => { d with window := d.window.toggle parse localeCompare toggle }
  | .change page => { d with page }
  | .open_ xhr url accepted => leaves (d.window.globals.open_.call parse xhr url accepted) d
  | .setRequestHeader xhr name value accepted =>
      leaves (d.window.globals.setRequestHeader.call none xhr name value accepted) d
  | .send xhr headerAccepted accepted =>
      leaves (d.window.globals.send.call xhr headerAccepted accepted) d

/-- Nothing has been enabled, and no object has been opened. -/
def Document.initial (page : Page) : Document ι := ⟨.initial, page, fun _ _ => none, fun _ => none⟩

/-- The document after calls one after another. -/
def Document.after (page : Page) (calls : List (Call ι)) : Document ι :=
  calls.foldl (Document.step parse localeCompare) (.initial page)

end Prototype

/-! ## §2. What a call does. -/

section Cases

variable {parse : UrlParser} {localeCompare : Str → Str → Int} {d : Document ι}

/-- The object has been opened. -/
def Document.reopen (d : Document ι) (xhr : ι) : Document ι :=
  { d with requests := Function.update d.requests xhr (some ⟨d.active, []⟩) }

/-- A header has been added to the request of an object. -/
def Document.write (d : Document ι) (xhr : ι) (request : Request) (injectedBy : Option Nat)
    (name value : Str) : Document ι :=
  let header : HeaderWrite := ⟨injectedBy, name, value, d.active, d.page.cookie⟩
  { d with requests :=
    Function.update d.requests xhr (some { request with headers := header :: request.headers }) }

theorem platformOpen_cases (d : Document ι) (xhr : ι) (accepted : Bool) :
    platformOpen xhr accepted d = .error ⟨⟩ d ∨
      platformOpen xhr accepted d = .ok () (d.reopen xhr) := by
  cases accepted with
  | false => exact .inl rfl
  | true => exact .inr rfl

theorem platformSetRequestHeader_of_some {xhr : ι} {request : Request}
    (h : d.requests xhr = some request) (injectedBy : Option Nat) (name value : Str) :
    platformSetRequestHeader injectedBy xhr name value true d =
      .ok () (d.write xhr request injectedBy name value) := by
  unfold platformSetRequestHeader
  rw [h]
  rfl

theorem platformSetRequestHeader_cases (d : Document ι) (injectedBy : Option Nat) (xhr : ι)
    (name value : Str) (accepted : Bool) :
    platformSetRequestHeader injectedBy xhr name value accepted d = .error ⟨⟩ d ∨
      ∃ request, d.requests xhr = some request ∧
        platformSetRequestHeader injectedBy xhr name value accepted d =
          .ok () (d.write xhr request injectedBy name value) := by
  cases hrequest : d.requests xhr with
  | none =>
      left
      unfold platformSetRequestHeader
      rw [hrequest]
  | some request =>
      cases accepted with
      | true => exact .inr ⟨request, rfl, platformSetRequestHeader_of_some hrequest injectedBy name value⟩
      | false =>
          left
          unfold platformSetRequestHeader
          rw [hrequest]
          rfl

/-- The four functions are the originals, or the replacements of the active installation. -/
theorem Window.Consistent.dispatch {w : Window} (h : w.Consistent) :
    (w.activeInstallation.map (·.disable) = none ∧ w.globals = originals) ∨
      ∃ a, w.activeInstallation.map (·.disable) = some a ∧ w.globals = wrappers a originals ∧
        a < w.installations.length := by
  rcases h.globals with ⟨hnone, hglobals⟩ | ⟨a, installation, ha⟩
  · exact .inl ⟨by rw [hnone]; rfl, hglobals⟩
  · exact .inr ⟨a, by rw [ha.active]; rfl, ha.globals, (List.getElem?_eq_some_iff.mp ha.found).1⟩

/-- **A call of `open`** does nothing, or it opens the object, which the active installation notes. -/
theorem open_cases (parse : UrlParser) (localeCompare : Str → Str → Int) (h : d.window.Consistent) (xhr : ι)
    (url : Option Str) (accepted : Bool) :
    d.step parse localeCompare (.open_ xhr url accepted) = d ∨
      (d.active = none ∧ d.step parse localeCompare (.open_ xhr url accepted) = d.reopen xhr) ∨
      ∃ a, d.active = some a ∧ d.step parse localeCompare (.open_ xhr url accepted) =
        (d.reopen xhr).setState a xhr (some ⟨parseUrl parse d.page url, false, false⟩) := by
  show leaves (d.window.globals.open_.call parse xhr url accepted) d = _ ∨
    (_ ∧ leaves (d.window.globals.open_.call parse xhr url accepted) d = _) ∨
      ∃ a, _ ∧ leaves (d.window.globals.open_.call parse xhr url accepted) d = _
  rcases h.dispatch with ⟨hactive, hglobals⟩ | ⟨a, hactive, hglobals, -⟩
  · rw [hglobals]
    rcases platformOpen_cases d xhr accepted with hcall | hcall
    · exact .inl (leaves_of_error hcall)
    · exact .inr (.inl ⟨hactive, leaves_of_ok hcall⟩)
  · rw [hglobals]
    rcases platformOpen_cases d xhr accepted with hcall | hcall
    · exact .inl (leaves_of_error (bind_of_error hcall))
    · exact .inr (.inr ⟨a, hactive, leaves_of_ok (bind_of_ok hcall)⟩)

/-- **A call of `setRequestHeader`** does nothing, or it sets the header, and the active installation notes
    a visitor header. -/
theorem setRequestHeader_cases (parse : UrlParser) (localeCompare : Str → Str → Int)
    (h : d.window.Consistent) (xhr : ι) (name value : Str) (accepted : Bool) :
    d.step parse localeCompare (.setRequestHeader xhr name value accepted) = d ∨
      ∃ request, d.requests xhr = some request ∧
        ((d.active = none ∧ d.step parse localeCompare (.setRequestHeader xhr name value accepted) =
            d.write xhr request none name value) ∨
          ∃ a, d.active = some a ∧ d.step parse localeCompare (.setRequestHeader xhr name value accepted) =
            if toLowerCase name = VISITOR_HEADER then
              (d.write xhr request none name value).mapState a xhr fun state =>
                { state with explicitVisitorHeader := true }
            else d.write xhr request none name value) := by
  have hstep : d.step parse localeCompare (.setRequestHeader xhr name value accepted) =
      leaves (d.window.globals.setRequestHeader.call none xhr name value accepted) d := rfl
  rw [hstep]
  rcases h.dispatch with ⟨hactive, hglobals⟩ | ⟨a, hactive, hglobals, -⟩
  · rw [hglobals]
    rcases platformSetRequestHeader_cases d none xhr name value accepted with
      hcall | ⟨request, hrequest, hcall⟩
    · exact .inl (leaves_of_error hcall)
    · exact .inr ⟨request, hrequest, .inl ⟨hactive, leaves_of_ok hcall⟩⟩
  · rw [hglobals]
    rcases platformSetRequestHeader_cases d none xhr name value accepted with
      hcall | ⟨request, hrequest, hcall⟩
    · exact .inl (leaves_of_error (bind_of_error hcall))
    · refine .inr ⟨request, hrequest, .inr ⟨a, hactive, ?_⟩⟩
      split_ifs with hname
      · exact leaves_of_ok ((bind_of_ok hcall).trans (by rw [if_pos hname]; rfl))
      · exact leaves_of_ok ((bind_of_ok hcall).trans (by rw [if_neg hname]; rfl))

omit [DecidableEq ι] in
/-- A visitor is injected once, unless the caller set one. -/
theorem injected_eq_some {a : Nat} {xhr : ι} {visitorId : Str} (h : d.injected a xhr = some visitorId) :
    ∃ state, d.xhrStates a xhr = some state ∧ state.explicitVisitorHeader = false ∧
      state.injectedVisitorHeader = false ∧ readVisitorId d.page.cookie = some visitorId := by
  obtain ⟨state, hstate, h⟩ := Option.bind_eq_some_iff.mp h
  split_ifs at h with hboth
  simp only [Bool.and_eq_true, Bool.not_eq_true'] at hboth
  exact ⟨state, hstate, hboth.1.2, hboth.2, h⟩

/-- Nothing is injected. -/
theorem call_send_of_none {a : Nat} {xhr : ι} (h : d.injected a xhr = none) (headerAccepted accepted : Bool)
    (setHeader : SetRequestHeaderFunction) (send : SendFunction) :
    (SendFunction.wrapped a setHeader send).call xhr headerAccepted accepted d =
      send.call xhr headerAccepted accepted d := by
  rw [SendFunction.call]
  simp only [h]

/-- A visitor is injected, which is noted when the header has been set. -/
theorem call_send_of_some {a : Nat} {xhr : ι} {visitorId : Str} (h : d.injected a xhr = some visitorId)
    (headerAccepted accepted : Bool) (setHeader : SetRequestHeaderFunction) (send : SendFunction) :
    (SendFunction.wrapped a setHeader send).call xhr headerAccepted accepted d =
      (setHeader.call (some a) xhr VISITOR_HEADER visitorId headerAccepted >>= fun _ =>
        modify (fun d => d.mapState a xhr fun state => { state with injectedVisitorHeader := true }) >>=
          fun _ => send.call xhr headerAccepted accepted : Platform ι Unit) d := by
  rw [SendFunction.call]
  simp only [h]

omit [DecidableEq ι] in
/-- The original `send` changes nothing here. -/
theorem leaves_platformSend (d : Document ι) (accepted : Bool) :
    leaves (platformSend accepted) d = d := by
  cases accepted with
  | false => rfl
  | true => rfl

/-- **A call of `send`** changes nothing, or it sets the visitor header of an object that the active
    installation noted, and notes that. -/
theorem send_cases (parse : UrlParser) (localeCompare : Str → Str → Int) (h : d.window.Consistent) (xhr : ι)
    (headerAccepted accepted : Bool) :
    d.step parse localeCompare (.send xhr headerAccepted accepted) = d ∨
      ∃ request a state visitorId, d.requests xhr = some request ∧ d.active = some a ∧
        d.xhrStates a xhr = some state ∧ state.explicitVisitorHeader = false ∧
        state.injectedVisitorHeader = false ∧ readVisitorId d.page.cookie = some visitorId ∧
        d.step parse localeCompare (.send xhr headerAccepted accepted) =
          (d.write xhr request (some a) VISITOR_HEADER visitorId).mapState a xhr fun state =>
            { state with injectedVisitorHeader := true } := by
  have hstep : d.step parse localeCompare (.send xhr headerAccepted accepted) =
      leaves (d.window.globals.send.call xhr headerAccepted accepted) d := rfl
  rw [hstep]
  rcases h.dispatch with ⟨-, hglobals⟩ | ⟨a, hactive, hglobals, -⟩
  · rw [hglobals]
    exact .inl (leaves_platformSend d accepted)
  · rw [hglobals]
    show leaves ((SendFunction.wrapped a .original .original).call xhr headerAccepted accepted) d = _ ∨ _
    cases hinjected : d.injected a xhr with
    | none =>
        left
        have hsend := call_send_of_none hinjected headerAccepted accepted .original .original
        exact (leaves_eq hsend).trans (leaves_platformSend d accepted)
    | some visitorId =>
        have hsend := call_send_of_some hinjected headerAccepted accepted .original .original
        rcases platformSetRequestHeader_cases d (some a) xhr VISITOR_HEADER visitorId headerAccepted with
          hcall | ⟨request, hrequest, hcall⟩
        · left
          exact leaves_of_error (hsend.trans (bind_of_error hcall))
        · obtain ⟨state, hstate, hexplicit, hnot, hcookie⟩ := injected_eq_some hinjected
          refine .inr ⟨request, a, state, visitorId, hrequest, hactive, hstate, hexplicit, hnot, hcookie, ?_⟩
          exact (leaves_eq (hsend.trans (bind_of_ok hcall))).trans (leaves_platformSend _ accepted)

end Cases

end Calls

/-! ## §3. What was injected. -/

/-- The caller set the visitor header while propagation was enabled. -/
def HeaderWrite.isExplicit (header : HeaderWrite) : Prop :=
  header.injectedBy = none ∧ toLowerCase header.name = VISITOR_HEADER ∧ header.active.isSome = true

/-- **The injected header is justified**: the object was opened under the installation that injected it,
    which was still active; its value is the visitor of the cookie; and since the object was opened nothing
    had been injected, nor had the caller set the header. -/
structure HeaderWrite.Justified (header : HeaderWrite) (openedUnder : Option Nat)
    (earlier : List HeaderWrite) (installation : Nat) : Prop where
  name : header.name = VISITOR_HEADER
  openedUnder : openedUnder = some installation
  active : header.active = some installation
  value : readVisitorId header.cookie = some header.value
  once : ∀ other ∈ earlier, other.injectedBy = none
  unset : ∀ other ∈ earlier, ¬ other.isExplicit

/-- Every injected header is justified. -/
def Fair (openedUnder : Option Nat) : List HeaderWrite → Prop
  | [] => True
  | header :: earlier =>
      (∀ installation, header.injectedBy = some installation →
        header.Justified openedUnder earlier installation) ∧ Fair openedUnder earlier

theorem Fair.justified {openedUnder : Option Nat} {later earlier : List HeaderWrite} {header : HeaderWrite}
    (h : Fair openedUnder (later ++ header :: earlier)) {installation : Nat}
    (hinjected : header.injectedBy = some installation) :
    header.Justified openedUnder earlier installation := by
  induction later with
  | nil => exact h.1 installation hinjected
  | cons other later ih => exact ih h.2

/-- At most one header is injected. -/
theorem Fair.once {openedUnder : Option Nat} {headers : List HeaderWrite} (h : Fair openedUnder headers) :
    (headers.filter fun header => header.injectedBy.isSome).length ≤ 1 := by
  induction headers with
  | nil => exact Nat.zero_le 1
  | cons header earlier ih =>
      cases hinjected : header.injectedBy with
      | none =>
          rw [List.filter_cons_of_neg (by rw [hinjected]; decide)]
          exact ih h.2
      | some installation =>
          have honce := (h.1 installation hinjected).once
          have hnone : earlier.filter (fun header => header.injectedBy.isSome) = [] := by
            rw [List.filter_eq_nil_iff]
            intro other hother
            rw [honce other hother]
            decide
          rw [List.filter_cons_of_pos (by rw [hinjected]; rfl), hnone]
          exact Nat.le_refl 1

/-- What the active installation noted of an object is true of its request. -/
structure Noted (installation : Nat) (state : XhrState) (request : Request) : Prop where
  openedUnder : request.openedUnder = some installation
  explicit : state.explicitVisitorHeader = false → ∀ header ∈ request.headers, ¬ header.isExplicit
  injected : state.injectedVisitorHeader = false → ∀ header ∈ request.headers, header.injectedBy = none

section Invariant

variable {ι : Type} {parse : UrlParser} {localeCompare : Str → Str → Int} {d : Document ι}

/-- The invariant of a document. -/
structure Document.Lawful (d : Document ι) : Prop where
  window : d.window.Consistent
  fresh : ∀ installation, d.window.installations.length ≤ installation →
    ∀ xhr, d.xhrStates installation xhr = none
  noted : ∀ installation, d.active = some installation →
    ∀ xhr state, d.xhrStates installation xhr = some state →
      ∃ request, d.requests xhr = some request ∧ Noted installation state request
  fair : ∀ xhr request, d.requests xhr = some request → Fair request.openedUnder request.headers

theorem Document.lawful_initial (page : Page) : (Document.initial page : Document ι).Lawful where
  window := Window.consistent_initial
  fresh _ _ _ := rfl
  noted := by
    intro installation hactive
    cases hactive
  fair := by
    intro xhr request hrequest
    cases hrequest

/-- Enabling makes an installation that knows no object; disabling leaves none active. -/
theorem Document.Lawful.toggle (h : d.Lawful) (toggle : Toggle) :
    ({ d with window := d.window.toggle parse localeCompare toggle } : Document ι).Lawful := by
  cases toggle with
  | enable allowedTargets =>
      rcases enable_cases parse localeCompare d.window allowedTargets with
        hwindow | ⟨hnone, targets, hwindow⟩
      · rw [show d.window.toggle parse localeCompare (.enable allowedTargets) = d.window from hwindow]
        exact h
      · rw [show d.window.toggle parse localeCompare (.enable allowedTargets) = d.window.install targets
          from hwindow]
        refine ⟨h.window.install hnone targets, ?_, ?_, h.fair⟩
        · intro installation hlen xhr
          apply h.fresh
          have hlen : (d.window.installations ++ [_]).length ≤ installation := hlen
          rw [List.length_append] at hlen
          omega
        · intro installation hactive xhr state hstate
          have hactive : some d.window.installations.length = some installation := hactive
          cases hactive
          have hnew := h.fresh d.window.installations.length (Nat.le_refl _) xhr
          have hstate : d.xhrStates d.window.installations.length xhr = some state := hstate
          rw [hnew] at hstate
          cases hstate
  | disable id =>
      show ({ d with window := d.window.disable id } : Document ι).Lawful
      rcases h.window.disable_cases id with hwindow | ⟨installation, -, -, hwindow⟩
      · rw [hwindow]
        exact h
      · have hconsistent := h.window.disable id
        rw [hwindow] at hconsistent ⊢
        refine ⟨hconsistent, ?_, ?_, h.fair⟩
        · intro other hlen
          apply h.fresh
          have hlen : (d.window.installations.set id installation).length ≤ other := hlen
          rw [List.length_set] at hlen
          exact hlen
        · intro other hactive
          cases hactive

/-- **One object changes**: its request stays fair, and what the active installation notes of it is
    true. -/
theorem Document.Lawful.update [DecidableEq ι] (h : d.Lawful) {d' : Document ι} (xhr : ι)
    (request : Request) (hwindow : d'.window = d.window)
    (hrequests : d'.requests = Function.update d.requests xhr (some request))
    (hfair : Fair request.openedUnder request.headers)
    (hothers : ∀ installation other, other ≠ xhr ∨ d.active ≠ some installation →
      d'.xhrStates installation other = d.xhrStates installation other)
    (hnoted : ∀ installation state, d.active = some installation →
      d'.xhrStates installation xhr = some state → Noted installation state request) : d'.Lawful := by
  have hactive : d'.active = d.active := by
    unfold Document.active
    rw [hwindow]
  refine ⟨?_, ?_, ?_, ?_⟩
  · rw [hwindow]
    exact h.window
  · intro installation hlen other
    rw [hwindow] at hlen
    rw [hothers installation other, h.fresh installation hlen other]
    right
    -- an active installation is one of those that were made
    intro hactive
    rcases h.window.dispatch with ⟨hnone, -⟩ | ⟨a, ha, -, hlt⟩
    · rw [Document.active, hnone] at hactive
      cases hactive
    · rw [Document.active, ha] at hactive
      cases hactive
      exact absurd hlt (Nat.not_lt.mpr hlen)
  · intro installation hinstallation other state hstate
    rw [hactive] at hinstallation
    rw [hrequests]
    by_cases hxhr : other = xhr
    · subst hxhr
      rw [Function.update_self]
      exact ⟨request, rfl, hnoted installation state hinstallation hstate⟩
    · rw [Function.update_of_ne hxhr]
      rw [hothers installation other (.inl hxhr)] at hstate
      exact h.noted installation hinstallation other state hstate
  · intro other found hfound
    rw [hrequests] at hfound
    by_cases hxhr : other = xhr
    · subst hxhr
      rw [Function.update_self, Option.some.injEq] at hfound
      subst hfound
      exact hfair
    · rw [Function.update_of_ne hxhr] at hfound
      exact h.fair other found hfound

section Steps

variable [DecidableEq ι]

/-- The objects that an installation other than the active one noted, and the other objects of the active
    one. -/
theorem setState_others {installation : Nat} (hactive : d.active = some installation) (d' : Document ι)
    (hstates : d'.xhrStates = d.xhrStates) (xhr : ι) (state : Option XhrState) (i : Nat) (x : ι)
    (h : x ≠ xhr ∨ d.active ≠ some i) :
    (d'.setState installation xhr state).xhrStates i x = d.xhrStates i x := by
  have hne : x ≠ xhr ∨ installation ≠ i := by
    rcases h with hx | hi
    · exact .inl hx
    · refine .inr ?_
      rintro rfl
      exact hi hactive
  rw [setState_of_ne d' state hne, hstates]

/-- After `open` nothing has been set. -/
theorem Document.Lawful.open_ (h : d.Lawful) (xhr : ι) (url : Option Str) (accepted : Bool) :
    (d.step parse localeCompare (.open_ xhr url accepted)).Lawful := by
  rcases open_cases parse localeCompare h.window xhr url accepted with
    hstep | ⟨hactive, hstep⟩ | ⟨a, hactive, hstep⟩
  · rw [hstep]
    exact h
  · rw [hstep]
    refine h.update xhr ⟨d.active, []⟩ rfl rfl trivial (fun _ _ _ => rfl) ?_
    intro installation state hinstallation
    rw [hactive] at hinstallation
    cases hinstallation
  · rw [hstep]
    refine h.update xhr ⟨d.active, []⟩ rfl rfl trivial
      (setState_others hactive (d.reopen xhr) rfl xhr _) ?_
    intro installation state hinstallation hstate
    rw [hactive, Option.some.injEq] at hinstallation
    subst hinstallation
    refine ⟨hactive, ?_, ?_⟩
    · intro _ header hheader
      cases hheader
    · intro _ header hheader
      cases hheader

omit [DecidableEq ι] in
/-- What the active installation noted of an object that has a request. -/
theorem Document.Lawful.noted_request (h : d.Lawful) {installation : Nat} {xhr : ι} {state : XhrState}
    {request : Request} (hactive : d.active = some installation)
    (hstate : d.xhrStates installation xhr = some state) (hrequest : d.requests xhr = some request) :
    Noted installation state request := by
  obtain ⟨found, hfound, hnoted⟩ := h.noted installation hactive xhr state hstate
  rw [hrequest, Option.some.injEq] at hfound
  subst hfound
  exact hnoted

/-- A header of the caller is no injected one, and a visitor header is noted. -/
theorem Document.Lawful.setRequestHeader (h : d.Lawful) (xhr : ι) (name value : Str) (accepted : Bool) :
    (d.step parse localeCompare (.setRequestHeader xhr name value accepted)).Lawful := by
  rcases setRequestHeader_cases parse localeCompare h.window xhr name value
    accepted with hstep | ⟨request, hrequest, hwrite⟩
  · rw [hstep]
    exact h
  · have hfair : Fair request.openedUnder
        (⟨none, name, value, d.active, d.page.cookie⟩ :: request.headers) := by
      refine ⟨?_, h.fair xhr request hrequest⟩
      intro installation hinjected
      cases hinjected
    have hnone : ∀ state : XhrState, ∀ installation, Noted installation state request →
        state.injectedVisitorHeader = false →
          ∀ header ∈ (⟨none, name, value, d.active, d.page.cookie⟩ :: request.headers : List HeaderWrite),
            header.injectedBy = none := by
      intro state installation hnoted hnot header hheader
      rcases List.mem_cons.mp hheader with rfl | hheader
      · rfl
      · exact hnoted.injected hnot header hheader
    rcases hwrite with ⟨hactive, hstep⟩ | ⟨a, hactive, hstep⟩
    · rw [hstep]
      refine h.update xhr _ rfl rfl hfair (fun _ _ _ => rfl) ?_
      intro installation state hinstallation
      rw [hactive] at hinstallation
      cases hinstallation
    · rw [hstep]
      split_ifs with hname
      · refine h.update xhr _ rfl rfl hfair (setState_others hactive _ rfl xhr _) ?_
        intro installation state hinstallation hstate
        rw [hactive, Option.some.injEq] at hinstallation
        subst hinstallation
        unfold Document.mapState at hstate
        rw [setState_self, Option.map_eq_some_iff] at hstate
        obtain ⟨old, hold, rfl⟩ := hstate
        have hnoted := h.noted_request hactive hold hrequest
        refine ⟨hnoted.openedUnder, ?_, hnone old a hnoted⟩
        intro hexplicit
        cases hexplicit
      · refine h.update xhr _ rfl rfl hfair (fun _ _ _ => rfl) ?_
        intro installation state hinstallation hstate
        have hnoted := h.noted_request hinstallation hstate hrequest
        refine ⟨hnoted.openedUnder, ?_, hnone state installation hnoted⟩
        intro hexplicit header hheader
        rcases List.mem_cons.mp hheader with rfl | hheader
        · exact fun hset => hname hset.2.1
        · exact hnoted.explicit hexplicit header hheader

/-- A header is injected for an object of which nothing is noted, and it is noted. -/
theorem Document.Lawful.send (h : d.Lawful) (xhr : ι) (headerAccepted accepted : Bool) :
    (d.step parse localeCompare (.send xhr headerAccepted accepted)).Lawful := by
  rcases send_cases parse localeCompare h.window xhr headerAccepted accepted
    with hstep | ⟨request, a, old, visitorId, hrequest, hactive, hold, hexplicit, hnot, hcookie, hstep⟩
  · rw [hstep]
    exact h
  · rw [hstep]
    have hnoted := h.noted_request hactive hold hrequest
    have hunset := hnoted.explicit hexplicit
    refine h.update xhr _ rfl rfl ?_ (setState_others hactive _ rfl xhr _) ?_
    · refine ⟨?_, h.fair xhr request hrequest⟩
      intro installation hinjected
      cases hinjected
      exact ⟨rfl, hnoted.openedUnder, hactive, hcookie, hnoted.injected hnot, hunset⟩
    · intro installation state hinstallation hstate
      rw [hactive, Option.some.injEq] at hinstallation
      subst hinstallation
      unfold Document.mapState at hstate
      rw [setState_self, Option.map_eq_some_iff] at hstate
      obtain ⟨found, -, rfl⟩ := hstate
      refine ⟨hnoted.openedUnder, ?_, ?_⟩
      · intro _ header hheader
        rcases List.mem_cons.mp hheader with rfl | hheader
        · exact fun hset => absurd hset.1 (by simp)
        · exact hunset header hheader
      · intro hinjected
        cases hinjected

/-- **One call keeps the invariant.** -/
theorem Document.Lawful.step (h : d.Lawful) (call : Call ι) :
    (d.step parse localeCompare call).Lawful := by
  cases call with
  | toggle toggle => exact h.toggle toggle
  | change page => exact ⟨h.window, h.fresh, h.noted, h.fair⟩
  | open_ xhr url accepted => exact h.open_ xhr url accepted
  | setRequestHeader xhr name value accepted => exact h.setRequestHeader xhr name value accepted
  | send xhr headerAccepted accepted => exact h.send xhr headerAccepted accepted

theorem Document.lawful_after (page : Page) (calls : List (Call ι)) :
    (Document.after parse localeCompare page calls).Lawful :=
  List.foldlRecOn calls _ (lawful_initial page) fun _ h call _ => h.step call

end Steps

end Invariant

/-! ## §4. Runs. -/

/-- **After any calls**, at most one visitor header was injected into an object since its last successful
    `open`.  The installation that injected it was active when the object was opened and when it was
    injected; the caller had not set the header after that `open` with propagation enabled; and its value
    is the first value of the visitor cookie, at that moment, that is not blank. -/
theorem injections_fair {ι : Type} [DecidableEq ι] (parse : UrlParser) (localeCompare : Str → Str → Int)
    (page : Page) (calls : List (Call ι)) (xhr : ι) (request : Request)
    (hrequest : (Document.after parse localeCompare page calls).requests xhr = some request) :
    (request.headers.filter fun header => header.injectedBy.isSome).length ≤ 1 ∧
      ∀ later header earlier installation, request.headers = later ++ header :: earlier →
        header.injectedBy = some installation →
          header.name = VISITOR_HEADER ∧
          (∀ other ∈ earlier, other.injectedBy = none ∧ ¬ other.isExplicit) ∧
          request.openedUnder = some installation ∧ header.active = some installation ∧
          firstValue isTrimmed isTrimmed 0x3B 0x3D VISITOR_COOKIE header.cookie = some header.value := by
  have hfair := (Document.lawful_after page calls).fair xhr request hrequest
  refine ⟨hfair.once, ?_⟩
  intro later header earlier installation hheaders hinjected
  rw [hheaders] at hfair
  have hjustified := hfair.justified hinjected
  refine ⟨hjustified.name, ?_, hjustified.openedUnder, hjustified.active, ?_⟩
  · exact fun other hother => ⟨hjustified.once other hother, hjustified.unset other hother⟩
  · rw [← readVisitorId_eq]
    exact hjustified.value

/-- A page with a visitor. -/
def visitorPage : Page := ⟨units "https://a", units "https://a", units "_cekat_visitor_id=v"⟩

/-- Propagation is enabled, and an object is opened and sent. -/
def enableOpenSend : List (Call Unit) :=
  [.toggle (.enable [ownOrigin]), .open_ () (some (units "/x")) true, .send () true true]

def enabledDocument : Document Unit :=
  ⟨Window.initial.install [⟨units "https://a", units "/"⟩], visitorPage, fun _ _ => none, fun _ => none⟩

def openedDocument : Document Unit :=
  (enabledDocument.reopen ()).setState 0 ()
    (some ⟨some (plainUrl (units "https://a") (units "/x")), false, false⟩)

theorem enable_step : (Document.initial visitorPage : Document Unit).step plainParse (fun _ _ => 0)
    (.toggle (.enable [ownOrigin])) = enabledDocument := by
  have henable : Window.initial.toggle plainParse (fun _ _ => 0) (.enable [ownOrigin]) =
      Window.initial.install [⟨units "https://a", units "/"⟩] :=
    congrArg Prod.snd (enable_install normalize_ownOrigin rfl)
  unfold Document.step Document.initial enabledDocument
  simp only [henable]

theorem open_step : enabledDocument.step plainParse (fun _ _ => 0)
    (.open_ () (some (units "/x")) true) = openedDocument := by
  have hurl : parseUrl plainParse visitorPage (some (units "/x")) =
      some (plainUrl (units "https://a") (units "/x")) := rfl
  have hcall : (OpenFunction.wrapped 0 .original).call plainParse () (some (units "/x")) true
      enabledDocument = .ok () ((enabledDocument.reopen ()).setState 0 ()
        (some ⟨parseUrl plainParse visitorPage (some (units "/x")), false, false⟩)) := rfl
  rw [hurl] at hcall
  exact leaves_of_ok hcall

theorem openedDocument_injected : openedDocument.injected 0 () = some (units "v") := by
  have hstate : openedDocument.xhrStates 0 () =
      some ⟨some (plainUrl (units "https://a") (units "/x")), false, false⟩ := setState_self _ _ _ _
  have hmatch : matchesAllowedTarget [⟨units "https://a", units "/"⟩]
      (plainUrl (units "https://a") (units "/x")) = true := by decide
  have hcookie : readVisitorId visitorPage.cookie = some (units "v") := by decide
  unfold Document.injected
  rw [hstate, Option.bind_some]
  show (if matchesAllowedTarget [⟨units "https://a", units "/"⟩]
      (plainUrl (units "https://a") (units "/x")) && true && true then readVisitorId visitorPage.cookie
    else none) = _
  rw [hmatch]
  exact hcookie

theorem send_step : (openedDocument.step plainParse (fun _ _ => 0) (.send () true true)).requests () =
    some ⟨some 0, [⟨some 0, VISITOR_HEADER, units "v", some 0, visitorPage.cookie⟩]⟩ := by
  have hrequest : openedDocument.requests () = some ⟨some 0, []⟩ := rfl
  have hsend := call_send_of_some openedDocument_injected true true .original .original
  have hcall := platformSetRequestHeader_of_some hrequest (some 0) VISITOR_HEADER (units "v")
  have hleaves : openedDocument.step plainParse (fun _ _ => 0) (.send () true true) =
      (openedDocument.write () ⟨some 0, []⟩ (some 0) VISITOR_HEADER (units "v")).mapState 0 () fun state =>
        { state with injectedVisitorHeader := true } :=
    (leaves_eq (hsend.trans (bind_of_ok hcall))).trans (leaves_platformSend _ true)
  rw [hleaves]
  exact Function.update_self () _ openedDocument.requests

/-- One header is injected, and no more. -/
theorem one_injection :
    ((Document.after plainParse (fun _ _ => 0) visitorPage enableOpenSend).requests ()).map
        (·.headers.map (·.value)) = some [units "v"] ∧
      ([(⟨some 0, VISITOR_HEADER, units "v", some 0, visitorPage.cookie⟩ : HeaderWrite)].filter
        fun header => header.injectedBy.isSome).length ≤ 1 := by
  have hafter : (Document.after plainParse (fun _ _ => 0) visitorPage enableOpenSend).requests () =
      some ⟨some 0, [⟨some 0, VISITOR_HEADER, units "v", some 0, visitorPage.cookie⟩]⟩ := by
    unfold Document.after enableOpenSend
    rw [List.foldl_cons, List.foldl_cons, List.foldl_cons, List.foldl_nil, enable_step, open_step]
    exact send_step
  refine ⟨?_, (injections_fair plainParse (fun _ _ => 0) visitorPage enableOpenSend () _ hafter).1⟩
  rw [hafter]
  rfl

end CekatEvents.Browser
