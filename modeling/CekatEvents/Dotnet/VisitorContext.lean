/-
  CekatEvents.Dotnet.VisitorContext — the visitor of a .NET call (`AsyncLocalVisitorContext.cs`,
  `CekatClient.CurrentVisitorId`).

  A scope puts its visitor into the async local and remembers the one before; a scope without a visitor puts
  null there, as if there were no scope.  `Flow` is what one flow of execution sees: the async local, and
  the scopes that were pushed so far.

  Main results:

    • `Linked.act`                 — the async local is the visitor of the innermost open scope;
    • `scope_followed_iff`         — when an event follows that scope;
    • `blank_scope_asks_context`   — one in a scope without a visitor gets that of the injected context.
-/
import CekatEvents.Dotnet.Outcomes
import CekatEvents.Effects.Trace

namespace CekatEvents.Dotnet.VisitorContext

open CekatEvents.Dotnet.EventPayload CekatEvents.Effects CekatEvents.Encoding CekatEvents.JsonText
  CekatEvents.Payload

/-! ## §1. Scopes. -/

/-- `Scope`, with what it was pushed with. -/
structure Scope where
  visitorId : Option (List CodeUnit)
  previous : Option (List CodeUnit)
  disposed : Bool

/-- `Current.Value`, and the scopes in the order in which they were pushed. -/
structure Flow where
  current : Option (List CodeUnit)
  scopes : List Scope

inductive Action where
  | push (visitorId : Option (List CodeUnit))
  | dispose (scope : Nat)

/-- `Push`, or `Dispose` of one of the scopes. -/
def step (w : Flow) : Action → Flow
  | .push visitorId => ⟨EventPayload.normalize visitorId, w.scopes ++ [⟨visitorId, w.current, false⟩]⟩
  | .dispose i =>
      match w.scopes[i]? with
      | none => w
      | some scope =>
          if scope.disposed then w else ⟨scope.previous, w.scopes.set i { scope with disposed := true }⟩

/-- Nothing has been pushed. -/
def initial : Flow := ⟨none, []⟩

/-- The open scopes, the innermost one first. -/
def stack (scopes : List Scope) : List Scope := (scopes.filter fun s => !s.disposed).reverse

/-- **Scopes are disposed in reverse order**, as they are by nested `using` statements: those pushed later
    have been disposed. -/
def InOrder (w : Flow) : Action → Prop
  | .push _ => True
  | .dispose i => ∀ scope, w.scopes[i]? = some scope → scope.disposed = false →
      ∀ later ∈ w.scopes.drop (i + 1), later.disposed = true

/-- **The async local is the visitor of the innermost scope**, and what that scope remembers is so of the
    scopes around it. -/
def Linked : Option (List CodeUnit) → List Scope → Prop
  | current, [] => current = none
  | current, scope :: outer => current = EventPayload.normalize scope.visitorId ∧ Linked scope.previous outer

theorem normalize_normalize (visitorId : Option (List CodeUnit)) :
    EventPayload.normalize (EventPayload.normalize visitorId) = EventPayload.normalize visitorId :=
  trimToNone_trimToNone visitorId

theorem stack_push (scopes : List Scope) {scope : Scope} (h : scope.disposed = false) :
    stack (scopes ++ [scope]) = scope :: stack scopes := by
  unfold stack
  rw [List.filter_append, List.filter_cons_of_pos (by rw [h]; rfl), List.filter_nil, List.reverse_append]
  rfl

/-- The scope that is disposed in order is the innermost one, and the others stay open. -/
theorem stack_dispose {scopes : List Scope} {i : Nat} {scope : Scope} (hi : scopes[i]? = some scope)
    (hopen : scope.disposed = false) (hlater : ∀ later ∈ scopes.drop (i + 1), later.disposed = true) :
    stack scopes = scope :: stack (scopes.set i { scope with disposed := true }) := by
  obtain ⟨hlt, hget⟩ := List.getElem?_eq_some_iff.mp hi
  have hrest : (scopes.drop (i + 1)).filter (fun s => !s.disposed) = [] := by
    apply List.filter_eq_nil_iff.mpr
    intro later hmem
    rw [hlater later hmem]
    decide
  have hcut : scopes = scopes.take i ++ scope :: scopes.drop (i + 1) := by
    rw [← hget, ← List.drop_eq_getElem_cons hlt, List.take_append_drop]
  have hbefore : stack scopes = scope :: stack (scopes.take i) := by
    unfold stack
    rw [congrArg (List.filter fun s : Scope => !s.disposed) hcut, List.filter_append,
      List.filter_cons_of_pos (by rw [hopen]; rfl), hrest, List.reverse_append]
    rfl
  have hgone : ∀ rest : List Scope, ({ scope with disposed := true } :: rest).filter (fun s => !s.disposed)
      = rest.filter fun s => !s.disposed := fun rest => List.filter_cons_of_neg Bool.false_ne_true
  have hafter : stack (scopes.set i { scope with disposed := true }) = stack (scopes.take i) := by
    unfold stack
    rw [List.set_eq_take_append_cons_drop, if_pos hlt, List.filter_append, hgone, hrest,
      List.append_nil]
  rw [hbefore, hafter]

/-- **One action in order keeps the scopes linked.** -/
theorem Linked.act {w : Flow} {action : Action} (h : Linked w.current (stack w.scopes))
    (horder : InOrder w action) : Linked (step w action).current (stack (step w action).scopes) := by
  cases action with
  | push visitorId =>
      show Linked (EventPayload.normalize visitorId) (stack (w.scopes ++ [⟨visitorId, w.current, false⟩]))
      rw [stack_push w.scopes rfl]
      exact ⟨rfl, h⟩
  | dispose i =>
      dsimp only [step]
      cases hi : w.scopes[i]? with
      | none => exact h
      | some scope =>
          dsimp only
          by_cases hdisposed : scope.disposed = true
          · rw [if_pos hdisposed]
            exact h
          · rw [if_neg hdisposed]
            have hopen := Bool.eq_false_iff.mpr hdisposed
            rw [stack_dispose hi hopen (horder scope hi hopen)] at h
            exact h.2

/-- After a run in order the scopes are linked. -/
theorem linked_run {actions : List Action} (h : Respects step InOrder initial actions) :
    Linked (actions.foldl step initial).current (stack (actions.foldl step initial).scopes) :=
  h.invariant (I := fun w => Linked w.current (stack w.scopes)) (show Linked none [] from rfl)
    fun _ _ hI hG => hI.act hG

/-! ## §2. The client. -/

/-- `IVisitorContext`, by what it gives when it is asked. -/
structure IVisitorContext where
  currentVisitorId : Option (List CodeUnit)

/-- `CurrentVisitorId`, and whether the injected context was asked. -/
def currentVisitorId (shared : Option (List CodeUnit)) (visitorContext : Option IVisitorContext) :
    Option (List CodeUnit) × Bool :=
  match shared, visitorContext with
  | some visitorId, _ => (some visitorId, false)
  | none, some context => (EventPayload.normalize context.currentVisitorId, true)
  | none, none => (none, false)

/-- The body of `TrackAsync`: the event is made first, then the visitor is looked up. -/
def trackBody (platform : Platform) (seams : Seams) (heap : Heap) (eventKey : Option (List CodeUnit))
    (isCommon : Bool) (input : Except Raised (Option EventInput)) (w : Flow)
    (visitorContext : Option IVisitorContext) : Except Raised (List CodeUnit) × Bool :=
  match input with
  | .error e => (.error e, false)
  | .ok input =>
      let visitor := currentVisitorId w.current visitorContext
      (build platform seams heap eventKey isCommon input visitor.1, visitor.2)

/-- The body has this visitor, or no member for one. -/
def Carries (text : List CodeUnit) (visitorId : Option (List CodeUnit)) : Prop :=
  ∃ v, Writes text v ∧ v.get (units "visitor_id") = visitorId.map .str

/-- **Inside a scope an event without a visitor of its own carries that of the innermost scope**, trimmed,
    and none when that is blank; the injected context is not asked. -/
def FollowsScope (w : Flow) (visitorContext : Option IVisitorContext) : Prop :=
  ∀ scope outer, stack w.scopes = scope :: outer →
    ∀ (platform : Platform) (seams : Seams) (heap : Heap) (eventKey : Option (List CodeUnit)) (isCommon : Bool)
      (input : EventInput), EventPayload.normalize input.visitorId = none →
      (trackBody platform seams heap eventKey isCommon (.ok (some input)) w visitorContext).2 = false ∧
      ∀ text,
        (trackBody platform seams heap eventKey isCommon (.ok (some input)) w visitorContext).1 = .ok text →
        Carries text (EventPayload.normalize scope.visitorId)

/-- The innermost scope has a visitor of valid Unicode, or there is no injected context to ask in its
    place. -/
def Scoped (w : Flow) (visitorContext : Option IVisitorContext) : Prop :=
  ∀ scope outer, stack w.scopes = scope :: outer →
    (EventPayload.normalize scope.visitorId = none → visitorContext = none) ∧
      OptionUnicode (EventPayload.normalize scope.visitorId)

/-- The visitor that is written is the one handed to `Build`, when it is valid Unicode. -/
theorem build_carries {platform : Platform} {seams : Seams} {heap : Heap} {eventKey : Option (List CodeUnit)}
    {isCommon : Bool} {input : EventInput} {contextVisitorId : Option (List CodeUnit)} {text : List CodeUnit}
    (hinput : EventPayload.normalize input.visitorId = none)
    (h : build platform seams heap eventKey isCommon (some input) contextVisitorId = .ok text)
    {visitorId : Option (List CodeUnit)} :
    Carries text visitorId ↔ (EventPayload.normalize contextVisitorId).filter isValidUnicode = visitorId := by
  obtain ⟨key, ev, properties, hchecked, -, rfl⟩ := build_ok_iff.mp h
  have hev : ev = input := (Option.some.inj hchecked.input_eq).symm
  have hchosen : chosenVisitor ev contextVisitorId = EventPayload.normalize contextVisitorId := by
    unfold chosenVisitor
    rw [hev, hinput, Option.none_or]
  have hmember : ∀ b : Body RawNumber,
      b.visitorId = (chosenVisitor ev contextVisitorId).filter isValidUnicode →
      (Carries (b.value.encode platform.encoder).text visitorId ↔
        (EventPayload.normalize contextVisitorId).filter isValidUnicode = visitorId) := by
    intro b hb
    rw [hchosen] at hb
    rw [← hb]
    constructor
    · rintro ⟨v, hwrites, hget⟩
      rw [hwrites.unique (writes_body platform b), Body.get_visitorId] at hget
      exact Option.map_injective (fun _ _ heq => Value.str.inj heq) hget
    · intro heq
      refine ⟨_, writes_body platform b, ?_⟩
      rw [Body.get_visitorId, ← heq]
      rfl
  exact hmember _ rfl

theorem emailEvent_built (contextVisitorId : Option (List CodeUnit)) :
    ∃ text, build plainPlatform fixedSeams repeatedKey (some [unit 'k']) true (some (emailEvent none none))
      contextVisitorId = .ok text := ⟨_, rfl⟩

/-- An event that follows the innermost scope shows what that scope is. -/
theorem scoped_of_followsScope {actions : List Action} (h : Respects step InOrder initial actions)
    {visitorContext : Option IVisitorContext} (hfollows : FollowsScope (actions.foldl step initial) visitorContext) :
    Scoped (actions.foldl step initial) visitorContext := by
  have hlinked := linked_run h
  unfold FollowsScope at hfollows
  intro scope outer hstack
  obtain ⟨hasked, hcarries⟩ := hfollows scope outer hstack plainPlatform fixedSeams repeatedKey (some [unit 'k']) true
    (emailEvent none none) rfl
  rw [hstack] at hlinked
  obtain ⟨hcurrent, -⟩ := hlinked
  generalize actions.foldl step initial = w at *
  refine ⟨?_, ?_⟩
  · intro hnone
    cases visitorContext with
    | none => rfl
    | some context =>
        rw [hnone] at hcurrent
        simp only [trackBody, hcurrent, currentVisitorId] at hasked
        cases hasked
  · cases hvisitor : EventPayload.normalize scope.visitorId with
    | none =>
        intro t ht
        cases ht
    | some visitorId =>
        rw [hvisitor] at hcurrent hcarries
        obtain ⟨text, htext⟩ := emailEvent_built (some visitorId)
        have hsent := hcarries text (by simp only [trackBody, hcurrent, currentVisitorId]; exact htext)
        rw [build_carries rfl htext, ← hvisitor, normalize_normalize] at hsent
        rw [← hvisitor]
        exact filter_isValidUnicode_iff.mp hsent

/-- **An event follows the innermost scope exactly when that has a visitor of valid Unicode**, or has none
    and no context was injected. -/
theorem scope_followed_iff {actions : List Action} (h : Respects step InOrder initial actions)
    (visitorContext : Option IVisitorContext) :
    FollowsScope (actions.foldl step initial) visitorContext ↔
      Scoped (actions.foldl step initial) visitorContext := by
  constructor
  · exact scoped_of_followsScope h
  · intro hscoped scope outer hstack platform seams heap eventKey isCommon input hinput
    obtain ⟨hblank, hunicode⟩ := hscoped scope outer hstack
    have hlinked := linked_run h
    rw [hstack] at hlinked
    obtain ⟨hcurrent, -⟩ := hlinked
    generalize actions.foldl step initial = w at *
    have hlookup : currentVisitorId w.current visitorContext
        = (EventPayload.normalize scope.visitorId, false) := by
      rw [hcurrent]
      cases hvisitor : EventPayload.normalize scope.visitorId with
      | some visitorId => rfl
      | none =>
          rw [hblank hvisitor]
          rfl
    dsimp only [trackBody]
    rw [hlookup]
    refine ⟨rfl, ?_⟩
    intro text htext
    rw [build_carries hinput htext, normalize_normalize]
    exact filter_isValidUnicode_iff.mpr hunicode

/-- A scope with a visitor of valid Unicode is followed. -/
theorem scope_with_visitor_followed :
    FollowsScope (step initial (.push (some [unit 's']))) (some ⟨some [unit 'c']⟩) := by
  have hscoped : Scoped (step initial (.push (some [unit 's']))) (some ⟨some [unit 'c']⟩) := by
    intro scope outer hstack
    cases hstack
    refine ⟨fun hnone => absurd hnone (by decide), ?_⟩
    intro t ht
    cases ht
    exact WellFormed.of_ascii (by decide)
  have hrun : Respects step InOrder initial [.push (some [unit 's'])] := ⟨trivial, trivial⟩
  exact (scope_followed_iff hrun _).mpr hscoped

/-- **A scope without a visitor asks the injected context**, and its visitor is sent. -/
theorem blank_scope_asks_context :
    (∃ text, trackBody plainPlatform fixedSeams repeatedKey (some [unit 'k']) true
        (.ok (some (emailEvent none none))) (step initial (.push (some [unit ' ']))) (some ⟨some [unit 'c']⟩)
        = (.ok text, true) ∧ Carries text (some [unit 'c'])) ∧
      ¬ ∀ actions visitorContext, Respects step InOrder initial actions →
        FollowsScope (actions.foldl step initial) visitorContext := by
  refine ⟨?_, ?_⟩
  · obtain ⟨text, htext⟩ := emailEvent_built (some [unit 'c'])
    refine ⟨text, congrArg (fun body => (body, true)) htext, ?_⟩
    rw [build_carries rfl htext]
    decide
  · intro h
    have hrun : Respects step InOrder initial [.push (some [unit ' '])] := ⟨trivial, trivial⟩
    have hscoped := scoped_of_followsScope hrun (h _ (some ⟨none⟩) hrun)
    cases (hscoped _ _ rfl).1 (by decide)

end CekatEvents.Dotnet.VisitorContext
