/-
  CekatEvents.Browser.Propagation — automatic propagation of the visitor (`browser/auto.ts`,
  `browser/explicit.ts`).

  `wrappedOpen` calls the original `open` and then notes the URL, which it parses once more, against
  `location.href`; the platform resolves it against the base URL of the document.  The original `open`
  fires `readystatechange`, so a handler may run between the two, change the page, and make calls of its
  own: an `open` in progress is an entry of `pending`.

  Main results:

    • `propagation_allowed` — as long as the two parses agree, and no object is opened or sent from inside
      an `open` of it, only requests to allowed URLs receive the visitor;
    • `base_url_receives_visitor` — under a base element of another origin that origin receives it.
-/
import CekatEvents.Browser.Allowlist
import CekatEvents.Effects.Trace
import Mathlib.Logic.Function.Basic

namespace CekatEvents.Browser

open CekatEvents.Encoding CekatEvents.Effects

/-! ## §1. The page. -/

/-- `location.href`, the base URL of the document, and `document.cookie`. -/
structure Page where
  location : Str
  baseURL : Str
  cookie : Str

/-- `XhrState`. -/
structure XhrState where
  url : Option URL
  explicitVisitorHeader : Bool
  injectedVisitorHeader : Bool

/-- The input of `fetch`: a URL, or a `Request` that was made of one under some base URL. -/
inductive RequestInfo where
  | url (url : Str)
  | request (url baseURL : Str)

/-- The page, the URL that the platform opened each object with, what the SDK noted about it, the calls of
    `open` in progress, the innermost first, and the URLs of the requests that the SDK added the header
    to. -/
structure Tab (ι : Type) where
  page : Page
  opened : ι → Option URL
  xhrStates : ι → Option XhrState
  pending : List ι
  enriched : List URL

/-- What happens while propagation is enabled.  A call of `open` has two halves: the original method, with
    the URL that the platform made of its argument, and what follows it, with the second conversion of the
    argument, which may throw.  The platform may refuse to set a header. -/
inductive Action (ι : Type) where
  | change (page : Page)
  | originalOpen (xhr : ι) (url : Str)
  | opened (url : Option Str)
  | setRequestHeader (xhr : ι) (name : Str) (accepted : Bool)
  | send (xhr : ι) (accepted : Bool)
  | fetch (input : RequestInfo) (hasVisitor accepted : Bool)

section Wrappers

variable (parse : UrlParser) (targets : List NormalizedAllowedTarget) {ι : Type} [DecidableEq ι]

/-- `parseUrl`, on what `String(url)` returned. -/
def parseUrl (page : Page) (url : Option Str) : Option URL :=
  url.bind fun url => parse url (some page.location)

/-- `toLowerCase()` on a header name. -/
def toLowerCase (name : Str) : Str := name.map fun u => if 0x41 ≤ u ∧ u ≤ 0x5A then u + 0x20 else u

/-- The URL of `new Request(input, init)`. -/
def requestUrl (page : Page) : RequestInfo → Option URL
  | .url url => parse url (some page.baseURL)
  | .request url baseURL => parse url (some baseURL)

/-- The original `open` succeeds when the URL can be parsed; otherwise it throws, and nothing happens. -/
def originalOpen (b : Tab ι) (xhr : ι) (url : Str) : Tab ι :=
  match parse url (some b.page.baseURL) with
  | none => b
  | some opened =>
      { b with opened := Function.update b.opened xhr (some opened), pending := xhr :: b.pending }

/-- The rest of `wrappedOpen`. -/
def wrappedOpen (b : Tab ι) (url : Option Str) : Tab ι :=
  match b.pending with
  | [] => b
  | xhr :: pending =>
      { b with
        xhrStates := Function.update b.xhrStates xhr (some ⟨parseUrl parse b.page url, false, false⟩)
        pending }

def wrappedSetRequestHeader (b : Tab ι) (xhr : ι) (name : Str) (accepted : Bool) : Tab ι :=
  if accepted && decide (toLowerCase name = VISITOR_HEADER) then
    match b.xhrStates xhr with
    | none => b
    | some state =>
        { b with xhrStates :=
          Function.update b.xhrStates xhr (some { state with explicitVisitorHeader := true }) }
  else b

/-- `wrappedSend` up to the original `send`. -/
def wrappedSend (b : Tab ι) (xhr : ι) (accepted : Bool) : Tab ι :=
  match b.xhrStates xhr with
  | none => b
  | some state =>
      if state.url.any (matchesAllowedTarget targets) && !state.explicitVisitorHeader &&
          !state.injectedVisitorHeader && (readVisitorId b.page.cookie).isSome && accepted then
        { b with
          xhrStates :=
            Function.update b.xhrStates xhr (some { state with injectedVisitorHeader := true })
          enriched := (b.opened xhr).toList ++ b.enriched }
      else b

/-- `wrappedFetch`: the URL of the one request is checked that is also sent.  `withVisitor` leaves a
    request alone that has the header. -/
def wrappedFetch (b : Tab ι) (input : RequestInfo) (hasVisitor accepted : Bool) : Tab ι :=
  match requestUrl parse b.page input with
  | none => b
  | some url =>
      match parse url.href none with
      | none => b
      | some checked =>
          if matchesAllowedTarget targets checked && (readVisitorId b.page.cookie).isSome &&
              !hasVisitor && accepted then
            { b with enriched := url :: b.enriched }
          else b

/-- One action. -/
def step (b : Tab ι) : Action ι → Tab ι
  | .change page => { b with page }
  | .originalOpen xhr url => originalOpen parse b xhr url
  | .opened url => wrappedOpen parse b url
  | .setRequestHeader xhr name accepted => wrappedSetRequestHeader b xhr name accepted
  | .send xhr accepted => wrappedSend targets b xhr accepted
  | .fetch input hasVisitor accepted => wrappedFetch parse targets b input hasVisitor accepted

end Wrappers

/-! ## §2. What is noted of an object. -/

/-- The URLs are the same as far as the allowlist is concerned. -/
def Agrees (noted url : URL) : Prop :=
  noted.protocol = url.protocol ∧ noted.origin = url.origin ∧ noted.pathname = url.pathname

theorem Agrees.allowed {parse : UrlParser} {targets : List AllowedTarget} {noted url : URL}
    (h : Agrees noted url) (hallowed : Allowed parse targets noted) : Allowed parse targets url := by
  obtain ⟨hhttp, target, htarget, parsed, hparsed, horigin, hprefix⟩ := hallowed
  refine ⟨?_, target, htarget, parsed, hparsed, ?_, ?_⟩
  · unfold URL.isHttp at hhttp ⊢
    rw [← h.1]
    exact hhttp
  · rw [← h.2.1, horigin]
  · rw [← h.2.2]
    exact hprefix

section Runs

variable {parse : UrlParser} {ι : Type}

/-- **What the wrappers need.**  No object is opened or sent while it is being opened, and after the
    original `open` the argument resolves against `location.href` to the URL that the platform opened. -/
def Consistent (parse : UrlParser) (b : Tab ι) : Action ι → Prop
  | .originalOpen xhr _ => xhr ∉ b.pending
  | .send xhr _ => xhr ∉ b.pending
  | .opened url => ∀ xhr pending noted, b.pending = xhr :: pending →
      url.bind (fun url => parse url (some b.page.location)) = some noted →
        ∃ opened, b.opened xhr = some opened ∧ Agrees noted opened
  | _ => True

/-- What is noted of an object agrees with its URL, unless it is being opened; and only allowed URLs have
    received the header. -/
structure Safe (parse : UrlParser) (targets : List AllowedTarget) (b : Tab ι) : Prop where
  noted : ∀ xhr state noted, xhr ∉ b.pending → b.xhrStates xhr = some state → state.url = some noted →
    ∃ opened, b.opened xhr = some opened ∧ Agrees noted opened
  nodup : b.pending.Nodup
  enriched : ∀ url ∈ b.enriched, Allowed parse targets url

/-- Propagation has just been enabled; some objects may have been opened before. -/
def Tab.enabled (page : Page) (opened : ι → Option URL) : Tab ι := ⟨page, opened, fun _ => none, [], []⟩

/-- A URL that was parsed is parsed again from its `href`. -/
def Reparses (parse : UrlParser) : Prop :=
  ∀ url base parsed again, parse url base = some parsed → parse parsed.href none = some again →
    Agrees again parsed

/-! ## §3. One action. -/

section Steps

variable {targets : List AllowedTarget} {normalized : List NormalizedAllowedTarget} {b : Tab ι}

/-- `fetch` checks the URL of the request that it sends. -/
theorem Safe.wrappedFetch {localeCompare : Str → Str → Int} (h : Safe parse targets b)
    (htargets : normalizeAllowedTargets parse localeCompare targets = .ok normalized)
    (hreparses : Reparses parse) {input : RequestInfo} {hasVisitor accepted : Bool} :
    Safe parse targets (wrappedFetch parse normalized b input hasVisitor accepted) := by
  have hrequest : ∀ url, requestUrl parse b.page input = some url →
      ∃ text base, parse text base = some url := by
    intro url hurl
    cases input with
    | url text => exact ⟨text, _, hurl⟩
    | request text base => exact ⟨text, _, hurl⟩
  unfold Browser.wrappedFetch
  cases hurl : requestUrl parse b.page input with
  | none => exact h
  | some url =>
      simp only
      cases hchecked : parse url.href none with
      | none => exact h
      | some checked =>
          simp only
          split_ifs with hinject
          · simp only [Bool.and_eq_true] at hinject
            obtain ⟨text, base, htext⟩ := hrequest url hurl
            have hagrees := hreparses text base url checked htext hchecked
            refine ⟨h.noted, h.nodup, ?_⟩
            intro other hother
            rcases List.mem_cons.mp hother with rfl | hother
            · exact hagrees.allowed (allowed_of_matches htargets hinject.1.1.1)
            · exact h.enriched other hother
          · exact h

variable [DecidableEq ι]

/-- The original `open` replaces the URL of the object that is being opened. -/
theorem Safe.originalOpen (h : Safe parse targets b) {xhr : ι} {url : Str} (hxhr : xhr ∉ b.pending) :
    Safe parse targets (originalOpen parse b xhr url) := by
  unfold Browser.originalOpen
  cases hparse : parse url (some b.page.baseURL) with
  | none => exact h
  | some opened =>
      refine ⟨?_, List.nodup_cons.mpr ⟨hxhr, h.nodup⟩, h.enriched⟩
      intro other state noted hother hstate hnoted
      rw [List.mem_cons, not_or] at hother
      obtain ⟨url', hurl', hagrees⟩ := h.noted other state noted hother.2 hstate hnoted
      refine ⟨url', ?_, hagrees⟩
      show Function.update b.opened xhr (some opened) other = some url'
      rw [Function.update_of_ne hother.1]
      exact hurl'

/-- When `open` is over, what was noted agrees with what was opened. -/
theorem Safe.wrappedOpen (h : Safe parse targets b) {url : Option Str}
    (hconsistent : Consistent parse b (.opened url)) :
    Safe parse targets (wrappedOpen parse b url) := by
  unfold Browser.wrappedOpen
  cases hpending : b.pending with
  | nil => exact h
  | cons xhr pending =>
      have hnodup := h.nodup
      rw [hpending] at hnodup
      refine ⟨?_, (List.nodup_cons.mp hnodup).2, h.enriched⟩
      intro other state noted hother hstate hnoted
      have hstate : Function.update b.xhrStates xhr (some ⟨parseUrl parse b.page url, false, false⟩) other
          = some state := hstate
      by_cases hxhr : other = xhr
      · subst hxhr
        rw [Function.update_self, Option.some.injEq] at hstate
        subst hstate
        exact hconsistent other pending noted hpending hnoted
      · rw [Function.update_of_ne hxhr] at hstate
        apply h.noted other state noted _ hstate hnoted
        rw [hpending, List.mem_cons, not_or]
        exact ⟨hxhr, hother⟩

/-- The flags of an object may change. -/
theorem Safe.flags (h : Safe parse targets b) {xhr : ι} {state state' : XhrState}
    (hstate : b.xhrStates xhr = some state) (hurl : state'.url = state.url) :
    Safe parse targets { b with xhrStates := Function.update b.xhrStates xhr (some state') } := by
  refine ⟨?_, h.nodup, h.enriched⟩
  intro other found noted hother hfound hnoted
  have hfound : Function.update b.xhrStates xhr (some state') other = some found := hfound
  by_cases hxhr : other = xhr
  · subst hxhr
    rw [Function.update_self, Option.some.injEq] at hfound
    subst hfound
    exact h.noted other state noted hother hstate (hurl ▸ hnoted)
  · rw [Function.update_of_ne hxhr] at hfound
    exact h.noted other found noted hother hfound hnoted

/-- The header is added for an object whose noted URL is matched. -/
theorem Safe.wrappedSend {localeCompare : Str → Str → Int} (h : Safe parse targets b)
    (htargets : normalizeAllowedTargets parse localeCompare targets = .ok normalized) {xhr : ι}
    {accepted : Bool} (hxhr : xhr ∉ b.pending) :
    Safe parse targets (wrappedSend normalized b xhr accepted) := by
  unfold Browser.wrappedSend
  cases hstate : b.xhrStates xhr with
  | none => exact h
  | some state =>
      simp only
      split_ifs with hinject
      · simp only [Bool.and_eq_true, Option.any_eq_true] at hinject
        obtain ⟨⟨⟨⟨⟨noted, hnoted, hmatch⟩, -⟩, -⟩, -⟩, -⟩ := hinject
        obtain ⟨opened, hopened, hagrees⟩ := h.noted xhr state noted hxhr hstate hnoted
        have hflags := h.flags hstate
          (show ({ state with injectedVisitorHeader := true } : XhrState).url = state.url from rfl)
        refine ⟨hflags.noted, h.nodup, ?_⟩
        intro url hurl
        rw [hopened] at hurl
        rcases List.mem_cons.mp hurl with rfl | hurl
        · exact hagrees.allowed (allowed_of_matches htargets hmatch)
        · exact h.enriched url hurl
      · exact h

/-- **One action of a consistent run adds the header to allowed URLs only.** -/
theorem Safe.step {localeCompare : Str → Str → Int} {action : Action ι} (h : Safe parse targets b)
    (htargets : normalizeAllowedTargets parse localeCompare targets = .ok normalized)
    (hreparses : Reparses parse) (hconsistent : Consistent parse b action) :
    Safe parse targets (step parse normalized b action) := by
  cases action with
  | change page => exact ⟨h.noted, h.nodup, h.enriched⟩
  | originalOpen xhr url => exact h.originalOpen hconsistent
  | opened url => exact h.wrappedOpen hconsistent
  | setRequestHeader xhr name accepted =>
      show Safe parse targets (wrappedSetRequestHeader b xhr name accepted)
      unfold wrappedSetRequestHeader
      split_ifs
      · cases hstate : b.xhrStates xhr with
        | none => exact h
        | some state => exact h.flags hstate rfl
      · exact h
  | send xhr accepted => exact h.wrappedSend htargets hconsistent
  | fetch input hasVisitor accepted => exact h.wrappedFetch htargets hreparses

end Steps

/-! ## §4. Runs. -/

/-- **In every consistent run only requests to allowed URLs receive the visitor**, on whatever page and for
    whatever objects. -/
theorem propagation_allowed [DecidableEq ι] (parse : UrlParser) (localeCompare : Str → Str → Int)
    (targets : List AllowedTarget) (normalized : List NormalizedAllowedTarget)
    (htargets : normalizeAllowedTargets parse localeCompare targets = .ok normalized)
    (hreparses : Reparses parse) (page : Page) (opened : ι → Option URL) (actions : List (Action ι))
    (hactions : Respects (Browser.step parse normalized) (Consistent parse) (.enabled page opened)
      actions) :
    ∀ url ∈ (actions.foldl (Browser.step parse normalized) (.enabled page opened)).enriched,
      Allowed parse targets url := by
  have hstart : Safe parse targets (.enabled page opened) := by
    refine ⟨?_, List.nodup_nil, ?_⟩
    · intro xhr state noted _ hstate
      cases hstate
    · intro url hurl
      cases hurl
  have hsafe := hactions.invariant (I := Safe parse targets) hstart
    fun b action h hconsistent => h.step htargets hreparses hconsistent
  exact hsafe.enriched

end Runs

/-! ## §5. A base element. -/

/-- The URL of an origin and a path. -/
def plainUrl (origin path : Str) : URL :=
  ⟨origin ++ path, units "https:", origin, [], [], path, [], []⟩

/-- A parser of absolute paths, and of origins that are as long as `https://a`. -/
def plainParse : UrlParser := fun url base =>
  match base with
  | some base =>
      if (units "/").isPrefixOf url && decide (base.length = 9) then some (plainUrl base url) else none
  | none =>
      if url.length = 9 then some (plainUrl url (units "/"))
      else if (units "/").isPrefixOf (url.drop 9) then some (plainUrl (url.take 9) (url.drop 9))
      else none

/-- A longer text is cut after its ninth unit. -/
theorem plainParse_append {origin path : Str} (horigin : origin.length = 9)
    (hpath : (units "/").isPrefixOf path = true) :
    plainParse (origin ++ path) none = some (plainUrl origin path) := by
  have hlong : (origin ++ path).length ≠ 9 := by
    have hlen := (List.isPrefixOf_iff_prefix.mp hpath).length_le
    rw [show (units "/").length = 1 from rfl] at hlen
    rw [List.length_append]
    omega
  show (if (origin ++ path).length = 9 then some (plainUrl (origin ++ path) (units "/"))
    else if (units "/").isPrefixOf ((origin ++ path).drop 9) then
      some (plainUrl ((origin ++ path).take 9) ((origin ++ path).drop 9)) else none) = _
  rw [if_neg hlong, ← horigin, List.drop_left, List.take_left, if_pos hpath]

theorem reparses_plainParse : Reparses plainParse := by
  have hagain : ∀ origin path again, origin.length = 9 → (units "/").isPrefixOf path = true →
      plainParse (plainUrl origin path).href none = some again →
        Agrees again (plainUrl origin path) := by
    intro origin path again horigin hpath hparse
    rw [show (plainUrl origin path).href = origin ++ path from rfl, plainParse_append horigin hpath]
      at hparse
    cases hparse
    exact ⟨rfl, rfl, rfl⟩
  intro url base parsed again hparsed hhref
  unfold plainParse at hparsed
  cases base with
  | some base =>
      simp only at hparsed
      split_ifs at hparsed with hboth
      rw [Bool.and_eq_true, decide_eq_true_eq] at hboth
      cases hparsed
      exact hagain base url again hboth.2 hboth.1 hhref
  | none =>
      simp only at hparsed
      split_ifs at hparsed with hlen hpath
      · cases hparsed
        exact hagain url (units "/") again hlen (by decide) hhref
      · cases hparsed
        refine hagain _ _ again ?_ hpath hhref
        -- something is left after nine units, so there are nine
        have hlong := (List.isPrefixOf_iff_prefix.mp hpath).length_le
        rw [show (units "/").length = 1 from rfl, List.length_drop] at hlong
        rw [List.length_take]
        omega

/-- The target that the page allows. -/
def ownOrigin : AllowedTarget := ⟨units "https://a", none⟩

theorem normalize_ownOrigin : normalizeAllowedTargets plainParse (fun _ _ => 0) [ownOrigin] =
    .ok [⟨units "https://a", units "/"⟩] := by
  show Except.ok (List.mergeSort [_] _) = _
  rw [List.mergeSort_singleton]
  rfl

/-- A call of `open` with an absolute path, and a call of `send`. -/
def openAndSend : List (Action Unit) :=
  [.originalOpen () (units "/x"), .opened (some (units "/x")), .send () true]

/-- Without a base element the page's own origin receives the visitor. -/
theorem own_origin_receives_visitor :
    Allowed plainParse [ownOrigin] (plainUrl (units "https://a") (units "/x")) := by
  have hpage := propagation_allowed plainParse (fun _ _ => 0) [ownOrigin] [⟨units "https://a", units "/"⟩]
    normalize_ownOrigin reparses_plainParse
    ⟨units "https://a", units "https://a", units "_cekat_visitor_id=v"⟩ (fun _ => none) openAndSend
    ⟨List.not_mem_nil, ?_, List.not_mem_nil, trivial⟩
  · exact hpage _ List.mem_cons_self
  · rintro xhr pending noted hpending hnoted
    cases hpending
    cases hnoted
    exact ⟨_, rfl, rfl, rfl, rfl⟩

/-- **Under a base element of another origin that origin receives the visitor**: the relative URL is
    checked against `location.href` and sent to the base URL of the document. -/
theorem base_url_receives_visitor :
    ¬ ∀ (parse : UrlParser) (localeCompare : Str → Str → Int) (targets : List AllowedTarget)
      (normalized : List NormalizedAllowedTarget),
      normalizeAllowedTargets parse localeCompare targets = .ok normalized → Reparses parse →
      ∀ (page : Page) (opened : Unit → Option URL) (actions : List (Action Unit)),
        ∀ url ∈ (actions.foldl (step parse normalized) (.enabled page opened)).enriched,
          Allowed parse targets url := by
  intro h
  have hother := h plainParse (fun _ _ => 0) [ownOrigin] [⟨units "https://a", units "/"⟩]
    normalize_ownOrigin reparses_plainParse
    ⟨units "https://a", units "https://b", units "_cekat_visitor_id=v"⟩ (fun _ => none) openAndSend
    (plainUrl (units "https://b") (units "/x")) List.mem_cons_self
  obtain ⟨-, target, htarget, parsed, hparsed, horigin, -⟩ := hother
  rw [List.mem_singleton] at htarget
  subst htarget
  cases hparsed
  exact absurd horigin (by decide)

end CekatEvents.Browser
