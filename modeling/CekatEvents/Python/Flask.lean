/-
  CekatEvents.Python.Flask — the visitor of nested requests to one Flask application
  (`integrations/flask.py`).

  The scope of a request is kept in one slot of `g`, and `g` belongs to the application context that
  nested requests share.  `_enter` is one of the functions that run before a request, `_exit` one of
  those that run at its end; what the application does before, between and after them may start another
  request, and a function that runs before `_enter` may end the request early.

  Main results:

    • `sequential_current` — as long as no request begins while another one stands between its `_enter`
      and its `_exit`, every request has its own visitor;
    • `nested_request_loses_visitor` — a nested request takes the outer one's visitor away.
-/
import CekatEvents.Effects.Trace
import CekatEvents.Python.Context

namespace CekatEvents.Python.Flask

open CekatEvents.Effects CekatEvents.Python.Validation CekatEvents.Python.Context

/-! ## §1. The integration. -/

/-- What the integration reads of a request. -/
structure Request where
  headers : List (PyStr × PyStr)
  cookies : PyStr → Option PyStr

/-- The visitor of the request. -/
def Request.visitor (r : Request) : Option PyStr := extractVisitorId r.headers r.cookies

/-- How far a request has got with the functions of the integration. -/
inductive Stage where
  | beforeEnter
  | inside
  | afterExit
  deriving DecidableEq

/-- The context variable, the slot of `g`, and the active requests, the innermost first. -/
structure Context where
  current : Option PyStr
  slot : Option Token
  active : List (Request × Stage)

/-- No request is active. -/
def Context.idle (original : Option PyStr) : Context := ⟨original, none, []⟩

/-- `_exit`: the scope in the slot is taken out and left. -/
def _exit (c : Context) : Context :=
  match c.slot with
  | none => c
  | some token => { c with slot := none, current := token }

/-- `_enter`. -/
def _enter (request : Request) (c : Context) : Context :=
  let c := _exit c
  let (current, token) := visitorScope c.current request.visitor
  { c with current, slot := some token }

/-- What happens to the innermost request. -/
inductive Action where
  | begin (request : Request)
  | enter
  | exit
  | finish

/-- One action; `begin` makes a request the innermost one. -/
def act (c : Context) : Action → Context
  | .begin request => { c with active := (request, .beforeEnter) :: c.active }
  | .enter =>
      match c.active with
      | (request, _) :: outer => { _enter request c with active := (request, .inside) :: outer }
      | [] => c
  | .exit =>
      match c.active with
      | (request, _) :: outer => { _exit c with active := (request, .afterExit) :: outer }
      | [] => c
  | .finish => { c with active := c.active.tail }

/-- The order of the functions: `_enter` unless the request was ended early, then `_exit`, then the rest
    of the teardown. -/
def Legal (c : Context) : Action → Prop
  | .begin _ => True
  | .enter => ∃ request outer, c.active = (request, .beforeEnter) :: outer
  | .exit => ∃ request stage outer, c.active = (request, stage) :: outer ∧ stage ≠ .afterExit
  | .finish => ∃ request outer, c.active = (request, .afterExit) :: outer

/-! ## §2. The visitor that should be current. -/

/-- The visitor of the innermost request that is between its functions, or the original one. -/
def expected (original : Option PyStr) : List (Request × Stage) → Option PyStr
  | [] => original
  | (request, .inside) :: _ => request.visitor
  | (_, _) :: outer => expected original outer

/-- **Requests begin only when no active request is between its `_enter` and its `_exit`.** -/
def Sequential (c : Context) (action : Action) : Prop :=
  Legal c action ∧
    ∀ request, action = .begin request → ∀ active ∈ c.active, active.2 ≠ .inside

/-- At most the innermost request is between its functions, and the slot is its own. -/
inductive Tidy (original : Option PyStr) : Context → Prop
  | outside {c : Context} (hcurrent : c.current = original) (hslot : c.slot = none)
      (hactive : ∀ active ∈ c.active, active.2 ≠ .inside) : Tidy original c
  | inside {c : Context} {request : Request} {outer : List (Request × Stage)}
      (hcurrent : c.current = request.visitor) (hslot : c.slot = some original)
      (hactive : c.active = (request, .inside) :: outer)
      (houter : ∀ active ∈ outer, active.2 ≠ .inside) : Tidy original c

variable {original : Option PyStr} {c : Context}

/-- With no request between its functions the original visitor is expected. -/
theorem expected_outside {active : List (Request × Stage)} (h : ∀ a ∈ active, a.2 ≠ .inside) :
    expected original active = original := by
  induction active with
  | nil => rfl
  | cons a outer ih =>
      obtain ⟨request, stage⟩ := a
      have houter := ih fun a ha => h a (List.mem_cons_of_mem _ ha)
      cases stage with
      | inside => exact absurd rfl (h _ List.mem_cons_self)
      | beforeEnter => exact houter
      | afterExit => exact houter

theorem Tidy.current (h : Tidy original c) : c.current = expected original c.active := by
  cases h with
  | outside hcurrent hslot hactive => rw [hcurrent, expected_outside hactive]
  | inside hcurrent hslot hactive houter =>
      rw [hactive]
      exact hcurrent

/-- **One action keeps the context tidy.** -/
theorem Tidy.act {action : Action} (h : Tidy original c) (hlegal : Sequential c action) :
    Tidy original (act c action) := by
  obtain ⟨hlegal, hbegin⟩ := hlegal
  cases action with
  | begin request =>
      have houtside := hbegin request rfl
      cases h with
      | inside hcurrent hslot hactive houter =>
          rw [hactive] at houtside
          exact absurd rfl (houtside _ List.mem_cons_self)
      | outside hcurrent hslot hactive =>
          refine .outside hcurrent hslot ?_
          intro active hmem
          rcases List.mem_cons.mp hmem with rfl | hmem
          · exact fun h => by cases h
          · exact hactive active hmem
  | enter =>
      obtain ⟨request, outer, hactive⟩ := hlegal
      cases h with
      | inside hcurrent hslot hinside houter =>
          rw [hactive] at hinside
          cases hinside
      | outside hcurrent hslot hnone =>
          -- nothing is in the slot, so only the scope of this request is opened
          unfold Flask.act _enter _exit
          rw [hactive] at hnone
          simp only [hactive, hslot]
          refine .inside ?_ ?_ rfl fun active hmem => hnone active (List.mem_cons_of_mem _ hmem)
          · exact normalizeVisitor_extractVisitorId _ _
          · exact congrArg some hcurrent
  | exit =>
      obtain ⟨request, stage, outer, hactive, -⟩ := hlegal
      unfold Flask.act _exit
      cases h with
      | inside hcurrent hslot hinside houter =>
          rw [hactive] at hinside
          cases hinside
          simp only [hactive, hslot]
          refine .outside rfl rfl ?_
          intro active hmem
          rcases List.mem_cons.mp hmem with rfl | hmem
          · exact fun h => by cases h
          · exact houter active hmem
      | outside hcurrent hslot hnone =>
          rw [hactive] at hnone
          simp only [hactive, hslot]
          refine .outside hcurrent rfl ?_
          intro active hmem
          rcases List.mem_cons.mp hmem with rfl | hmem
          · exact fun h => by cases h
          · exact hnone active (List.mem_cons_of_mem _ hmem)
  | finish =>
      obtain ⟨request, outer, hactive⟩ := hlegal
      cases h with
      | inside hcurrent hslot hinside houter =>
          rw [hactive] at hinside
          cases hinside
      | outside hcurrent hslot hnone =>
          refine .outside hcurrent hslot ?_
          intro active hmem
          exact hnone active (List.mem_of_mem_tail hmem)

/-- **In every run of sequential requests the visitor is the one that should be current**: that of the
    request in whose own code it is, and the original one outside. -/
theorem sequential_current (original : Option PyStr) (actions : List Action)
    (h : Respects act Sequential (.idle original) actions) :
    (actions.foldl act (.idle original)).current =
      expected original (actions.foldl act (.idle original)).active := by
  have htidy := h.invariant (I := Tidy original) (.outside rfl rfl fun _ h => by cases h)
    fun c action h hlegal => h.act hlegal
  exact htidy.current

/-- A request with this visitor in its header. -/
def headerRequest (visitor : Char) : Request :=
  ⟨[(VISITOR_HEADER_lower, ofChars [visitor])], fun _ => none⟩

/-- Two requests one after the other; the second is in its own code. -/
theorem second_request_current :
    ([.begin (headerRequest 'a'), .enter, .exit, .finish, .begin (headerRequest 'b'), .enter].foldl act
      (.idle none)).current = expected none [(headerRequest 'b', .inside)] := by
  have hnone : ∀ active ∈ ([] : List (Request × Stage)), active.2 ≠ .inside := by
    intro active hmem
    cases hmem
  refine sequential_current none _ ⟨⟨trivial, fun _ _ => hnone⟩, ⟨⟨_, _, rfl⟩, ?_⟩,
    ⟨⟨_, _, _, rfl, by decide⟩, ?_⟩, ⟨⟨_, _, rfl⟩, ?_⟩, ⟨trivial, fun _ _ => hnone⟩,
    ⟨⟨_, _, rfl⟩, ?_⟩, trivial⟩
  · intro request h
    cases h
  · intro request h
    cases h
  · intro request h
    cases h
  · intro request h
    cases h

/-- **A nested request takes the outer one's visitor away**: `_enter` leaves the scope of the outer
    request, so that nothing puts its visitor back when the inner one has ended. -/
theorem nested_request_loses_visitor :
    ¬ ∀ (original : Option PyStr) (actions : List Action),
      Respects act Legal (.idle original) actions →
        (actions.foldl act (.idle original)).current =
          expected original (actions.foldl act (.idle original)).active := by
  intro h
  have hnested := h none [.begin (headerRequest 'a'), .enter, .begin (headerRequest 'b'), .enter, .exit,
    .finish] ⟨trivial, ⟨_, _, rfl⟩, trivial, ⟨_, _, rfl⟩, ⟨_, _, _, rfl, by decide⟩, ⟨_, _, rfl⟩, trivial⟩
  have houter : (headerRequest 'a').visitor = some (ofChars ['a']) := rfl
  have hcurrent : none = (headerRequest 'a').visitor := hnested
  rw [houter] at hcurrent
  cases hcurrent

end CekatEvents.Python.Flask
