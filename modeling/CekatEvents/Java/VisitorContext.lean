/-
  CekatEvents.Java.VisitorContext — the visitor of the current thread (`VisitorContext.java`).

  A scope remembers the visitor its thread had when it was opened, and puts it back when that thread
  closes it for the first time.  Nothing orders the closes: a scope that is closed late puts back what
  was current at its own opening.

  Main results:

    • `all_closed_restored` — once all scopes of a thread are closed its visitor is what it was at first,
      if the oldest open scope was never closed before the others;
    • `late_close_leaves_visitor` — without that condition a visitor stays behind.
-/
import CekatEvents.Effects.Trace
import CekatEvents.Encoding.Space
import CekatEvents.Http.Cookies
import Mathlib.Data.List.Basic
import Mathlib.Logic.Function.Basic

namespace CekatEvents.Java.VisitorContext

open CekatEvents.Encoding CekatEvents.Effects CekatEvents.Http

/-- A Java string. -/
abbrev Str := List CodeUnit

/-! ## §1. Requests. -/

/-- `Character.isWhitespace`. -/
def isWhitespace (u : CodeUnit) : Bool :=
  isAsciiSpace u.toNat || decide (0x1C ≤ u.toNat ∧ u.toNat ≤ 0x1F) || isBreakingSeparator u.toNat

/-- `normalize`: `strip()`, and nothing when nothing is left. -/
def normalize (visitorId : Option Str) : Option Str := trimToNone isWhitespace visitorId

def HEADER_NAME : Str := units "X-Cekat-Visitor-ID"

def COOKIE_NAME : Str := units "_cekat_visitor_id"

/-- What is normalized stays as it is. -/
theorem normalize_normalize (visitorId : Option Str) :
    normalize (normalize visitorId) = normalize visitorId :=
  trimToNone_trimToNone visitorId

/-- `VisitorRequest`. -/
structure VisitorRequest where
  firstHeader : Str → Option Str
  cookie : Str → Option Str

/-- `resolve`: the header, then the cookie. -/
def resolve (request : VisitorRequest) : Option Str :=
  match normalize (request.firstHeader HEADER_NAME) with
  | some header => some header
  | none => normalize (request.cookie COOKIE_NAME)

theorem normalize_resolve (request : VisitorRequest) :
    normalize (resolve request) = resolve request := by
  unfold resolve
  cases h : normalize (request.firstHeader HEADER_NAME) with
  | some header =>
      show normalize (some header) = some header
      rw [← h, normalize_normalize]
  | none => exact normalize_normalize _

/-- `split(";")`: the pieces without the empty ones at the end, or the whole string when nothing is
    separated. -/
def split (s : Str) : List Str :=
  let pieces := s.splitOn 0x3B
  if pieces.length = 1 then pieces else (pieces.reverse.dropWhile List.isEmpty).reverse

/-- One turn of the loop of `fromCookieHeader`; `trim()` takes away what is not above the space. -/
def fromPair (pair : Str) : Option Str :=
  if !pair.contains 0x3D ||
      trim (fun u => decide (u ≤ 0x20)) (pair.takeWhile fun u => u != 0x3D) != COOKIE_NAME then none
  else normalize (some ((pair.dropWhile fun u => u != 0x3D).drop 1))

def fromCookieHeader (cookieHeader : Option Str) : Option Str :=
  match cookieHeader with
  | none => none
  | some cookieHeader => (split cookieHeader).findSome? fromPair

/-- The empty pieces that `split` drops hold no value. -/
theorem findSome?_split {f : Str → Option Str} (hf : f [] = none) (s : Str) :
    (split s).findSome? f = (s.splitOn 0x3B).findSome? f := by
  have htrailing : ∀ pieces : List Str,
      ((pieces.reverse.dropWhile List.isEmpty).reverse).findSome? f = pieces.findSome? f := by
    intro pieces
    have hsplit : pieces = (pieces.reverse.dropWhile List.isEmpty).reverse ++
        (pieces.reverse.takeWhile List.isEmpty).reverse := by
      rw [← List.reverse_append, List.takeWhile_append_dropWhile, List.reverse_reverse]
    have hempty : ((pieces.reverse.takeWhile List.isEmpty).reverse).findSome? f = none := by
      rw [List.findSome?_eq_none_iff]
      intro piece hpiece
      have hnil := List.mem_takeWhile_imp (List.mem_reverse.mp hpiece)
      rw [List.isEmpty_iff.mp hnil, hf]
    conv_rhs => rw [hsplit, List.findSome?_append, hempty, Option.or_none]
  unfold split
  simp only
  split_ifs
  · rfl
  · exact htrailing _

/-- A raw header is read to the first value of the cookie that is not blank. -/
theorem fromCookieHeader_eq (header : Str) :
    fromCookieHeader (some header) =
      firstValue (fun u => decide (u ≤ 0x20)) isWhitespace 0x3B 0x3D COOKIE_NAME header := by
  have hpair : fromPair = pairValue (fun u => decide (u ≤ 0x20)) isWhitespace 0x3D COOKIE_NAME := by
    funext pair
    rw [← pairValue_eq_ite]
    rfl
  show (split header).findSome? fromPair = _
  rw [findSome?_split rfl, hpair]
  rfl

/-! ## §2. Scopes. -/

/-- `Scope`. -/
structure Scope (ι : Type) where
  previous : Option Str
  owner : ι
  closed : Bool

/-- `CURRENT` on every thread, and the scopes opened so far, in order. -/
structure Threads (ι : Type) where
  current : ι → Option Str
  scopes : List (Scope ι)

/-- What a thread may do. -/
inductive Action (ι : Type) where
  | openId (thread : ι) (visitorId : Option Str)
  | openRequest (thread : ι) (request : VisitorRequest)
  | close (thread : ι) (scope : Nat)

section Actions

variable {ι : Type} [DecidableEq ι]

/-- `new Scope(visitorId)`. -/
def Threads.scope (w : Threads ι) (thread : ι) (visitorId : Option Str) : Threads ι :=
  ⟨Function.update w.current thread visitorId, w.scopes ++ [⟨w.current thread, thread, false⟩]⟩

/-- `close`. -/
def Threads.close (w : Threads ι) (thread : ι) (i : Nat) : Threads ι :=
  match w.scopes[i]? with
  | none => w
  | some scope =>
      if scope.closed || decide (thread ≠ scope.owner) then w
      else ⟨Function.update w.current thread scope.previous,
        w.scopes.set i { scope with closed := true }⟩

/-- One action of one thread. -/
def step (w : Threads ι) : Action ι → Threads ι
  | .openId thread visitorId => w.scope thread (normalize visitorId)
  | .openRequest thread request => w.scope thread (resolve request)
  | .close thread i => w.close thread i

/-- The thread that acts. -/
def Action.thread {ι : Type} : Action ι → ι
  | .openId thread _ => thread
  | .openRequest thread _ => thread
  | .close thread _ => thread

end Actions

section Runs

variable {ι : Type}

/-- The scope was opened by the thread, which has not closed it. -/
def OpenBy (w : Threads ι) (t : ι) (i : Nat) : Prop :=
  ∃ scope, w.scopes[i]? = some scope ∧ scope.owner = t ∧ scope.closed = false

/-- No open scope of the thread is older. -/
def Oldest (w : Threads ι) (t : ι) (i : Nat) : Prop := OpenBy w t i ∧ ∀ j, OpenBy w t j → i ≤ j

/-- **The oldest open scope is closed last**, as it is by nested `try` statements: the thread closes it
    only when no other of its scopes is open. -/
def LastOut (t : ι) (w : Threads ι) : Action ι → Prop
  | .close thread i => thread = t → Oldest w t i → ∀ j, OpenBy w t j → j = i
  | _ => True

/-! ## §3. What one action does to the scopes of a thread. -/

/-- With no open scope the visitor is the first one, and the oldest open scope remembers it. -/
structure Remembers (t : ι) (first : Option Str) (w : Threads ι) : Prop where
  none_open : (∀ i, ¬ OpenBy w t i) → w.current t = first
  oldest : ∀ i scope, w.scopes[i]? = some scope → Oldest w t i → scope.previous = first

variable {t : ι} {w : Threads ι}

theorem openBy_lt {i : Nat} (h : OpenBy w t i) : i < w.scopes.length := by
  obtain ⟨scope, hscope, -⟩ := h
  exact (List.getElem?_eq_some_iff.mp hscope).1

/-- A closed scope is not open any more, and the others are as they were. -/
theorem openBy_set {scope : Scope ι} {i j : Nat} {current : ι → Option Str}
    (hscope : w.scopes[i]? = some scope) :
    OpenBy ⟨current, w.scopes.set i { scope with closed := true }⟩ t j ↔ OpenBy w t j ∧ j ≠ i := by
  unfold OpenBy
  by_cases hj : j = i
  · subst hj
    simp [List.getElem?_set_self (List.getElem?_eq_some_iff.mp hscope).1]
  · simp [List.getElem?_set_ne (Ne.symm hj), hj]

variable [DecidableEq ι]

/-- A new scope is open, and the others as they were. -/
theorem openBy_scope {thread : ι} {visitorId : Option Str} {i : Nat} :
    OpenBy (w.scope thread visitorId) t i ↔
      OpenBy w t i ∨ (i = w.scopes.length ∧ thread = t) := by
  unfold OpenBy Threads.scope
  by_cases hi : i < w.scopes.length
  · simp only [List.getElem?_append_left hi]
    constructor
    · exact .inl
    · rintro (h | ⟨rfl, -⟩)
      · exact h
      · omega
  · have hle : w.scopes.length ≤ i := Nat.le_of_not_lt hi
    simp only [List.getElem?_append_right hle]
    constructor
    · rintro ⟨scope, hscope, howner, -⟩
      rw [List.getElem?_singleton] at hscope
      split_ifs at hscope with hzero
      cases hscope
      exact .inr ⟨by omega, howner⟩
    · rintro (⟨scope, hscope, -⟩ | ⟨rfl, rfl⟩)
      · rw [List.getElem?_eq_none hle] at hscope
        cases hscope
      · exact ⟨⟨w.current thread, thread, false⟩, by rw [Nat.sub_self]; rfl, rfl, rfl⟩

/-- A close does nothing, or the thread closes a scope that it has open. -/
theorem close_cases (thread : ι) (i : Nat) : w.close thread i = w ∨
    ∃ scope, w.scopes[i]? = some scope ∧ scope.owner = thread ∧ scope.closed = false ∧
      w.close thread i = ⟨Function.update w.current thread scope.previous,
        w.scopes.set i { scope with closed := true }⟩ := by
  unfold Threads.close
  cases hscope : w.scopes[i]? with
  | none => exact .inl rfl
  | some scope =>
      by_cases hskip : (scope.closed || decide (thread ≠ scope.owner)) = true
      · exact .inl (if_pos hskip)
      · refine .inr ⟨scope, rfl, ?_, ?_, if_neg hskip⟩
        · by_contra howner
          apply hskip
          rw [decide_eq_true (Ne.symm howner), Bool.or_true]
        · rw [Bool.not_eq_true, Bool.or_eq_false_iff] at hskip
          exact hskip.1

/-- **One action keeps what the scopes remember**, as long as the oldest is closed last. -/
theorem Remembers.act {first : Option Str} {action : Action ι} (h : Remembers t first w)
    (hlast : LastOut t w action) : Remembers t first (step w action) := by
  -- both ways of opening a scope
  have hscope : ∀ thread visitorId, Remembers t first (w.scope thread visitorId) := by
    intro thread visitorId
    by_cases hthread : thread = t
    · subst hthread
      refine ⟨?_, ?_⟩
      · intro hnone
        exact absurd (openBy_scope.mpr (.inr ⟨rfl, rfl⟩)) (hnone w.scopes.length)
      · intro i scope hi holdest
        rcases openBy_scope.mp holdest.1 with hopen | ⟨rfl, -⟩
        · apply h.oldest i scope
          · rw [← hi]
            exact (List.getElem?_append_left (openBy_lt hopen)).symm
          · exact ⟨hopen, fun j hj => holdest.2 j (openBy_scope.mpr (.inl hj))⟩
        · -- the new scope is the oldest, so the thread had none open
          have hnone : ∀ j, ¬ OpenBy w thread j := by
            intro j hj
            have hle := holdest.2 j (openBy_scope.mpr (.inl hj))
            have hlt := openBy_lt hj
            omega
          have hnew : (w.scope thread visitorId).scopes[w.scopes.length]? =
              some ⟨w.current thread, thread, false⟩ := List.getElem?_concat_length
          rw [hnew, Option.some.injEq] at hi
          rw [← hi]
          exact h.none_open hnone
    · have hiff : ∀ i, OpenBy (w.scope thread visitorId) t i ↔ OpenBy w t i := by
        intro i
        rw [openBy_scope]
        exact or_iff_left fun hnew => hthread hnew.2
      refine ⟨?_, ?_⟩
      · intro hnone
        show Function.update w.current thread visitorId t = first
        rw [Function.update_of_ne (Ne.symm hthread)]
        exact h.none_open fun i hi => hnone i ((hiff i).mpr hi)
      · intro i scope hi holdest
        have hopen := (hiff i).mp holdest.1
        apply h.oldest i scope
        · rw [← hi]
          exact (List.getElem?_append_left (openBy_lt hopen)).symm
        · exact ⟨hopen, fun j hj => holdest.2 j ((hiff j).mpr hj)⟩
  cases action with
  | openId thread visitorId => exact hscope thread _
  | openRequest thread request => exact hscope thread _
  | close thread i =>
      show Remembers t first (w.close thread i)
      rcases close_cases (w := w) thread i with hsame | ⟨scope, hi, howner, hopen, hclose⟩
      · rw [hsame]
        exact h
      · rw [hclose]
        by_cases hthread : thread = t
        · subst hthread
          have hopenBy : OpenBy w thread i := ⟨scope, hi, howner, hopen⟩
          refine ⟨?_, ?_⟩
          · -- the last open scope is the oldest
            intro hnone
            show Function.update w.current thread scope.previous thread = first
            rw [Function.update_self]
            apply h.oldest i scope hi
            refine ⟨hopenBy, ?_⟩
            intro j hj
            by_contra hlt
            exact hnone j ((openBy_set hi).mpr ⟨hj, by omega⟩)
          · intro j scope' hj holdest
            obtain ⟨hjopen, hne⟩ := (openBy_set hi).mp holdest.1
            have hle : ∀ k, OpenBy w thread k → k ≠ i → j ≤ k :=
              fun k hk hki => holdest.2 k ((openBy_set hi).mpr ⟨hk, hki⟩)
            have hj' : w.scopes[j]? = some scope' := by
              rw [← hj]
              exact (List.getElem?_set_ne (Ne.symm hne)).symm
            apply h.oldest j scope' hj'
            refine ⟨hjopen, ?_⟩
            intro k hk
            by_cases hki : k = i
            · subst hki
              -- the closed scope was not the oldest, since another one was open
              by_contra hlt
              have hold : Oldest w thread k := by
                refine ⟨hk, ?_⟩
                intro m hm
                by_cases hmk : m = k
                · omega
                · have := hle m hm hmk
                  omega
              exact hne (hlast rfl hold j hjopen)
            · exact hle k hk hki
        · -- a scope of another thread
          have hne : ∀ j, OpenBy w t j → j ≠ i := by
            rintro j ⟨scope', hj, howner', -⟩ rfl
            rw [hi, Option.some.injEq] at hj
            subst hj
            exact hthread (howner.symm.trans howner')
          refine ⟨?_, ?_⟩
          · intro hnone
            show Function.update w.current thread scope.previous t = first
            rw [Function.update_of_ne (Ne.symm hthread)]
            apply h.none_open
            intro j hj
            exact hnone j ((openBy_set hi).mpr ⟨hj, hne j hj⟩)
          · intro j scope' hj holdest
            obtain ⟨hjopen, hji⟩ := (openBy_set hi).mp holdest.1
            apply h.oldest j scope'
            · rw [← hj]
              exact (List.getElem?_set_ne (Ne.symm hji)).symm
            · refine ⟨hjopen, ?_⟩
              intro k hk
              exact holdest.2 k ((openBy_set hi).mpr ⟨hk, hne k hk⟩)

/-- **Once every scope of a thread is closed, its visitor is the first one again**, whatever the other
    threads do and however often a scope is closed, as long as the oldest open scope is closed last. -/
theorem all_closed_restored (t : ι) (current : ι → Option Str) (actions : List (Action ι))
    (hlast : Respects VisitorContext.step (LastOut t) ⟨current, []⟩ actions)
    (hclosed : ∀ i, ¬ OpenBy (actions.foldl VisitorContext.step ⟨current, []⟩) t i) :
    (actions.foldl VisitorContext.step ⟨current, []⟩).current t = current t := by
  have hremembers := hlast.invariant (I := Remembers t (current t)) ⟨fun _ => rfl, ?_⟩
    fun w action h hlast => h.act hlast
  · exact hremembers.none_open hclosed
  · intro i scope hi
    cases hi

/-- Two scopes closed from the inside out, one of them twice. -/
theorem nested_scopes_restored :
    ([.openId () (some [97]), .openId () (some [98]), .close () 1, .close () 1, .close () 0].foldl
      VisitorContext.step ⟨fun _ => some [99], []⟩).current () = some [99] := by
  apply all_closed_restored () (fun _ => some [99])
  · refine ⟨trivial, trivial, ?_, ?_, ?_, trivial⟩
    · rintro - holdest
      -- the outer scope is older
      have hle := holdest.2 0 ⟨_, rfl, rfl, rfl⟩
      omega
    · rintro - ⟨⟨scope, hscope, -, hopen⟩, -⟩
      cases hscope
      cases hopen
    · rintro - - j ⟨scope, hscope, -, hopen⟩
      match j, hscope with
      | 0, hscope => rfl
      | 1, hscope => cases hscope; cases hopen
      | j + 2, hscope => cases hscope
  · rintro i ⟨scope, hscope, -, hopen⟩
    match i, hscope with
    | 0, hscope => cases hscope; cases hopen
    | 1, hscope => cases hscope; cases hopen
    | i + 2, hscope => cases hscope

/-- **A scope that is closed late puts the visitor of a closed scope back**: two scopes, the outer one
    closed first. -/
theorem late_close_leaves_visitor :
    ¬ ∀ (t : Unit) (current : Unit → Option Str) (actions : List (Action Unit)),
      (∀ i, ¬ OpenBy (actions.foldl VisitorContext.step ⟨current, []⟩) t i) →
        (actions.foldl VisitorContext.step ⟨current, []⟩).current t = current t := by
  intro h
  have hlate := h () (fun _ => none)
    [.openId () (some [97]), .openId () (some [98]), .close () 0, .close () 1] ?_
  · cases hlate
  · rintro i ⟨scope, hscope, -, hopen⟩
    match i, hscope with
    | 0, hscope => cases hscope; cases hopen
    | 1, hscope => cases hscope; cases hopen
    | i + 2, hscope => cases hscope

/-! ## §4. Frames. -/

/-- A thread acts on its own visitor only. -/
theorem current_step {action : Action ι} (h : action.thread ≠ t) :
    (VisitorContext.step w action).current t = w.current t := by
  cases action with
  | openId thread visitorId => exact Function.update_of_ne (Ne.symm h) _ _
  | openRequest thread request => exact Function.update_of_ne (Ne.symm h) _ _
  | close thread i =>
      rcases close_cases (w := w) thread i with hsame | ⟨scope, -, -, -, hclose⟩
      · exact congrArg (fun w => w.current t) hsame
      · show (w.close thread i).current t = w.current t
        rw [hclose]
        exact Function.update_of_ne (Ne.symm h) _ _

/-- No other thread closes a scope. -/
theorem scope_step {action : Action ι} {i : Nat} {scope : Scope ι} (h : action.thread ≠ t)
    (hscope : w.scopes[i]? = some scope) (howner : scope.owner = t) :
    (VisitorContext.step w action).scopes[i]? = some scope := by
  have hlt : i < w.scopes.length := (List.getElem?_eq_some_iff.mp hscope).1
  cases action with
  | openId thread visitorId => exact (List.getElem?_append_left hlt).trans hscope
  | openRequest thread request => exact (List.getElem?_append_left hlt).trans hscope
  | close thread j =>
      show (w.close thread j).scopes[i]? = some scope
      rcases close_cases (w := w) thread j with hsame | ⟨scope', hj, howner', -, hclose⟩
      · rw [hsame]
        exact hscope
      · rw [hclose]
        show (w.scopes.set j _)[i]? = some scope
        rw [List.getElem?_set_ne, hscope]
        rintro rfl
        rw [hscope, Option.some.injEq] at hj
        subst hj
        exact h (howner'.symm.trans howner)

/-- The thread that opened a scope closes it. -/
theorem close_own {i : Nat} {previous : Option Str} (h : w.scopes[i]? = some ⟨previous, t, false⟩) :
    w.close t i = ⟨Function.update w.current t previous,
      w.scopes.set i ⟨previous, t, true⟩⟩ := by
  unfold Threads.close
  rw [h]
  simp

end Runs

end CekatEvents.Java.VisitorContext
