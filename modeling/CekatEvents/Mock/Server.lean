/-
  CekatEvents.Mock.Server — the handlers of the mock ingest server
  (`conformance/mock-ingest-server/internal/server/server.go`).

  `handleIngest` calls two operations of the state, each of them locked by itself: it journals the
  request and then takes a response.  What it does with the response (the delay, the disconnects) does
  not touch the state any more.

  Main results:

    • `calm_journaled` — as long as no responses are installed while a handler whose journal entry is gone
      has yet to take one, every response is taken by a request that is in the journal;
    • `late_retry_not_journaled` — without that condition a late request takes a response of the next
      case.
-/
import CekatEvents.Mock.State

namespace CekatEvents.Mock

open CekatEvents.Effects

/-- A program of the server. -/
abbrev Program (α : Type) := Prog Op Op.Ret α

/-- One operation of the state. -/
abbrev perform (op : Op) : Program op.Ret := Prog.perform op

/-! ## §1. Ingest. -/

/-- What a handler answers. -/
inductive Reply where
  | aborted
  | invalidRequest
  | noContent
  | journal (requests : List RequestRecord)
  | defaultSuccess
  | scripted (response : ResponseSpec)

/-- An ingest request; the body is missing when it cannot be read. -/
structure IngestRequest where
  Method : Str
  Path : Str
  Header : Map (List Str)
  Body : Option Str

/-- `sort.Strings` on the values of each name. -/
def sortValues (rt : Runtime) (headers : Map (List Str)) : Map (List Str) :=
  (rt.range headers).entries.foldl (fun headers entry =>
    headers.insert entry.1 (entry.2.mergeSort fun a b => decide (a ≤ b))) headers

/-- The request as it is journaled. -/
def IngestRequest.record (rt : Runtime) (r : IngestRequest) (body : Str) : RequestRecord :=
  { Sequence := 0
    Method := r.Method
    Path := r.Path
    Headers := some (sortValues rt (normalizeEntries ∅ (rt.range r.Header).entries))
    Body := body }

/-- The second half of `handleIngest`. -/
def takeResponse : Program Reply := do
  let (response, queued) ← perform .NextResponse
  if !queued then pure .defaultSuccess
  else pure (.scripted response)

def handleIngest (rt : Runtime) (r : IngestRequest) : Program Reply :=
  match r.Body with
  | none => pure .aborted
  | some body => do
      perform (.Record (r.record rt body))
      takeResponse

/-! ## §2. Controls. -/

/-- A response as it is decoded from a control request. -/
structure ResponseInput where
  Status : Option Int
  Headers : Option (Map Str)
  Body : Option Str
  DelayMS : Option Int
  DisconnectBeforeHeaders : Option Bool
  DisconnectAfterHeaders : Option Bool

/-- A byte of the ASCII text. -/
def isOneOf (text : String) (c : UInt8) : Bool := text.toList.any fun x => x.toNat == c.toNat

/-- `validHeaderName`; the bytes of other characters are in none of the ranges. -/
def validHeaderName (name : Str) : Bool :=
  !name.isEmpty && name.all fun c =>
    (decide (97 ≤ c) && decide (c ≤ 122)) || (decide (65 ≤ c) && decide (c ≤ 90)) ||
      (decide (48 ≤ c) && decide (c ≤ 57)) || isOneOf "!#$%&'*+-.^_`|~" c

def validHeaderValue (value : Str) : Bool :=
  value.all fun c => !((decide (c < 32) && c != 9) || c == 127)

/-- `math.MaxInt64/int64(time.Millisecond)`. -/
def maximumDelayMS : Int := 9223372036854775807 / 1000000

/-- `responseSpec`. -/
def responseSpec (rt : Runtime) (r : ResponseInput) : Option ResponseSpec :=
  match r.Body with
  | none => none
  | some body =>
      if r.Status.isNone && !r.DisconnectBeforeHeaders.getD false then none
      else if r.Status.any fun status => decide (status < 200) || decide (599 < status) then none
      else if r.DisconnectAfterHeaders.getD false &&
          (r.Status.isNone || r.DisconnectBeforeHeaders.getD false) then none
      else if r.DelayMS.any fun delay => decide (delay < 0) || decide (maximumDelayMS < delay) then none
      else if (r.Headers.toList.flatMap fun headers => (rt.range headers).entries).any fun entry =>
          !validHeaderName entry.1 || !validHeaderValue entry.2 then none
      else some
        { Status := r.Status.getD 0
          Headers := r.Headers
          Body := body
          DelayMS := r.DelayMS.getD 0
          DisconnectBeforeHeaders := r.DisconnectBeforeHeaders.getD false
          DisconnectAfterHeaders := r.DisconnectAfterHeaders.getD false }

/-- `handleReset`; the body is missing when it cannot be read. -/
def handleReset (body : Option Str) : Program Reply :=
  if body != some [] then pure .invalidRequest
  else do
    perform .Reset
    pure .noContent

/-- `handleResponses`, on what `decodeJSON` makes of the body: nothing when it fails, and no list when
    the member is missing. -/
def handleResponses (rt : Runtime) (request : Option (Option (List ResponseInput))) : Program Reply :=
  match request.join with
  | none => pure .invalidRequest
  | some inputs =>
      match inputs.mapM (responseSpec rt) with
      | none => pure .invalidRequest
      | some responses => do
          perform (.ReplaceResponses responses)
          pure .noContent

def handleRequests : Program Reply := do
  let requests ← perform .Requests
  pure (.journal requests)

/-- A request whose path and method are those of a handler. -/
inductive Request where
  | ingest (r : IngestRequest)
  | reset (body : Option Str)
  | responses (request : Option (Option (List ResponseInput)))
  | requests

/-- The dispatch of `New`. -/
def handle (rt : Runtime) : Request → Program Reply
  | .ingest r => handleIngest rt r
  | .reset body => handleReset body
  | .responses request => handleResponses rt request
  | .requests => handleRequests

/-! ## §3. Late handlers. -/

section Interleavings

variable {ι : Type}

/-- The calls since the last `Reset`. -/
def sinceReset : History ι → History ι
  | [] => []
  | ⟨_, .Reset, _⟩ :: _ => []
  | call :: older => call :: sinceReset older

/-- A request of the thread is in the journal. -/
def InJournal (history : History ι) (i : ι) : Prop :=
  ∃ request, ⟨i, .Record request, ()⟩ ∈ sinceReset history

/-- **Every response that was taken is accounted for in the journal**: the thread that took it had
    recorded its request since the last `Reset`. -/
def Journaled (history : History ι) : Prop :=
  ∀ newer i response older, history = newer ++ ⟨i, .NextResponse, (response, true)⟩ :: older →
    InJournal older i

/-- The thread has yet to take its response, and its journal entry is gone. -/
def Stale (p : Pool ι Op Op.Ret State Reply) (i : ι) : Prop :=
  (∃ k, p.threads i = .call .NextResponse k) ∧ ¬ InJournal p.history i

/-- Responses are installed when no thread is stale. -/
def Calm (p : Pool ι Op Op.Ret State Reply) (call : Call ι Op Op.Ret) : Prop :=
  ∀ responses, call.op = .ReplaceResponses responses → responses ≠ [] → ∀ i, ¬ Stale p i

/-- Where a handler stands before its first call: it journals a request and goes on to take a response,
    or it makes one other call and answers. -/
def Begins : Program Reply → Prop
  | .done _ => True
  | .cutOff => False
  | .call (.Record _) k => k () = takeResponse
  | .call .NextResponse _ => False
  | .call (.ReplaceResponses _) k => ∃ reply, k () = .done reply
  | .call .Reset k => ∃ reply, k () = .done reply
  | .call .Requests k => ∀ requests, ∃ reply, k requests = .done reply

theorem begins_handle (rt : Runtime) (request : Request) : Begins (handle rt request) := by
  cases request with
  | ingest r =>
      show Begins (handleIngest rt r)
      unfold handleIngest
      cases r.Body with
      | none => trivial
      | some body => exact rfl
  | reset body =>
      show Begins (handleReset body)
      unfold handleReset
      split_ifs
      · trivial
      · exact ⟨_, rfl⟩
  | responses request =>
      show Begins (handleResponses rt request)
      unfold handleResponses
      cases request.join with
      | none => trivial
      | some inputs =>
          show Begins (match inputs.mapM (responseSpec rt) with
            | none => pure .invalidRequest
            | some responses => do
                perform (.ReplaceResponses responses)
                pure .noContent)
          cases inputs.mapM (responseSpec rt) with
          | none => trivial
          | some responses => exact ⟨_, rfl⟩
  | requests => exact fun _ => ⟨_, rfl⟩

/-- How far a thread has got: one that has journaled its request is in the journal still, or there is
    nothing it could take. -/
def Progress (i : ι) (s : State) (history : History ι) (p : Program Reply) : Prop :=
  Begins p ∨ (p = takeResponse ∧ (InJournal history i ∨ s.responses = []))

/-- A call that resets nothing leaves what is in the journal. -/
theorem InJournal.cons {history : History ι} {i : ι} (h : InJournal history i)
    {call : Call ι Op Op.Ret} (hop : call.op ≠ .Reset) : InJournal (call :: history) i := by
  obtain ⟨request, hrequest⟩ := h
  refine ⟨request, ?_⟩
  obtain ⟨j, op, r⟩ := call
  cases op with
  | Reset => exact absurd rfl hop
  | Record _ => exact List.mem_cons_of_mem _ hrequest
  | NextResponse => exact List.mem_cons_of_mem _ hrequest
  | ReplaceResponses _ => exact List.mem_cons_of_mem _ hrequest
  | Requests => exact List.mem_cons_of_mem _ hrequest

/-- What a call does to the threads that do not make it. -/
theorem Progress.other {i j : ι} {s s' : State} {history : History ι} {p : Program Reply} {op : Op}
    {r : op.Ret} (h : Progress j s history p) (hop : op ≠ .Reset)
    (hqueue : ¬ InJournal history j → s.responses = [] → s'.responses = []) :
    Progress j s' (⟨i, op, r⟩ :: history) p := by
  rcases h with hbegins | ⟨hp, hstands⟩
  · exact .inl hbegins
  · refine .inr ⟨hp, ?_⟩
    by_cases hj : InJournal history j
    · exact .inl (hj.cons hop)
    · exact .inr (hqueue hj (hstands.resolve_left hj))

/-- What the answer to a call says when every response is accounted for. -/
def Accounted : Call ι Op Op.Ret → History ι → Prop
  | ⟨i, .NextResponse, (_, true)⟩, older => InJournal older i
  | _, _ => True

/-- **One call of a calm run** is accounted for, and every thread gets as far as it may. -/
theorem progress_step {q : Pool ι Op Op.Ret State Reply} {i : ι} {op : Op}
    {k : op.Ret → Program Reply} {r : op.Ret} {s' : State}
    (hprogress : ∀ j, Progress j q.shared q.history (q.threads j)) (hi : q.threads i = .call op k)
    (hworld : world op q.shared r s') (hcalm : Calm q ⟨i, op, r⟩) :
    Accounted ⟨i, op, r⟩ q.history ∧ Progress i s' (⟨i, op, r⟩ :: q.history) (k r) ∧
      ∀ j, j ≠ i → Progress j s' (⟨i, op, r⟩ :: q.history) (q.threads j) := by
  obtain ⟨rt, hcall⟩ := hworld
  have hthread := hprogress i
  rw [hi] at hthread
  -- the call decides how far the thread had got
  cases op with
  | Record request =>
      cases hcall
      rcases hthread with hk | ⟨hp, -⟩
      · refine ⟨trivial, .inr ⟨hk, .inl ⟨request, List.mem_cons_self⟩⟩, ?_⟩
        intro j _
        exact (hprogress j).other (by intro h; cases h) fun _ h => h
      · cases hp
  | NextResponse =>
      rcases hthread with hk | ⟨hp, hstands⟩
      · exact hk.elim
      · have hk : ∀ r, ∃ reply, k r = .done reply := by
          have hcont : .call .NextResponse k = takeResponse := hp
          cases hcont
          rintro ⟨response, queued⟩
          cases queued with
          | false => exact ⟨_, rfl⟩
          | true => exact ⟨_, rfl⟩
        obtain ⟨reply, hreply⟩ := hk r
        have hnext : q.shared.NextResponse rt = (r, s') := hcall
        unfold State.NextResponse at hnext
        refine ⟨?_, ?_, ?_⟩
        · obtain ⟨response, queued⟩ := r
          cases queued with
          | false => trivial
          | true =>
              show InJournal q.history i
              apply hstands.resolve_right
              intro hnil
              rw [hnil] at hnext
              cases hnext
        · rw [hreply]
          exact .inl trivial
        · intro j _
          refine (hprogress j).other (by intro h; cases h) ?_
          intro _ hnil
          rw [hnil] at hnext
          cases hnext
          exact hnil
  | ReplaceResponses responses =>
      cases hcall
      rcases hthread with ⟨reply, hreply⟩ | ⟨hp, -⟩
      · refine ⟨trivial, ?_, ?_⟩
        · rw [hreply]
          exact .inl trivial
        · intro j hj
          by_cases hresponses : responses = []
          · refine (hprogress j).other (by intro h; cases h) ?_
            intro _ _
            rw [hresponses]
            rfl
          · -- no thread is stale, so the others are in the journal or have not begun
            rcases hprogress j with hbegins | ⟨htake, -⟩
            · exact .inl hbegins
            · refine .inr ⟨htake, .inl ?_⟩
              have hin : InJournal q.history j := by
                by_contra hout
                exact hcalm responses rfl hresponses j ⟨⟨_, htake⟩, hout⟩
              exact hin.cons (by intro h; cases h)
      · cases hp
  | Reset =>
      cases hcall
      rcases hthread with ⟨reply, hreply⟩ | ⟨hp, -⟩
      · refine ⟨trivial, ?_, ?_⟩
        · rw [hreply]
          exact .inl trivial
        · intro j _
          rcases hprogress j with hbegins | ⟨htake, -⟩
          · exact .inl hbegins
          · exact .inr ⟨htake, .inr rfl⟩
      · cases hp
  | Requests =>
      cases hcall
      rcases hthread with hk | ⟨hp, -⟩
      · obtain ⟨reply, hreply⟩ := hk (q.shared.Requests rt)
        refine ⟨trivial, ?_, ?_⟩
        · rw [hreply]
          exact .inl trivial
        · intro j _
          exact (hprogress j).other (by intro h; cases h) fun _ h => h
      · cases hp

variable [DecidableEq ι]

/-- **In every run that installs responses only when no thread is stale, every response is taken by a
    request that is in the journal**, whatever the handlers and their order. -/
theorem calm_journaled (rt : ι → Runtime) (requests : ι → Request) (p : Pool ι Op Op.Ret State Reply)
    (hrun : Pool.Run world Calm (Pool.start (fun i => handle (rt i) (requests i)) State.New) p) :
    Journaled p.history := by
  have hinvariant := Pool.Run.threadInvariant (I := fun _ history => Always Accounted history)
    (T := fun i p s history => Progress i s history p) hrun always_nil
    (fun i => .inl (begins_handle (rt i) (requests i))) ?_
  · intro newer i response older heq
    exact hinvariant.1 newer ⟨i, .NextResponse, (response, true)⟩ older heq
  · intro q i op k r s' hI hT hi hworld hcalm
    obtain ⟨haccounted, hpicked, hothers⟩ := progress_step hT hi hworld hcalm
    exact ⟨hI.cons haccounted, hpicked, hothers⟩

end Interleavings

/-! ## §4. A late retry. -/

/-- A retry of the previous case, and the two controls that begin the next one. -/
def lateRetry : Fin 3 → Request
  | 0 => .ingest ⟨[], [], ∅, some []⟩
  | 1 => .reset (some [])
  | 2 => .responses (some (some [⟨some 200, none, some [], none, none, none⟩]))

/-- The response that is installed for the next case. -/
def nextCase : ResponseSpec := ⟨200, none, [], 0, false, false⟩

/-- A case that installs its response before it sends its request. -/
theorem case_journaled : ∃ request : RequestRecord,
    Journaled ([⟨0, .NextResponse, (nextCase, true)⟩, ⟨0, .Record request, ()⟩,
      ⟨2, .ReplaceResponses [nextCase], ()⟩] : History (Fin 3)) := by
  obtain ⟨rt⟩ := exists_runtime
  let request : RequestRecord := IngestRequest.record rt ⟨[], [], ∅, some []⟩ []
  refine ⟨request, ?_⟩
  let p₀ : Pool (Fin 3) Op Op.Ret State Reply :=
    Pool.start (fun i => handle rt (lateRetry i)) State.New
  let p₁ : Pool (Fin 3) Op Op.Ret State Reply :=
    ⟨Function.update p₀.threads 2 (.done .noContent), ⟨[nextCase], [], 0⟩,
      [⟨2, .ReplaceResponses [nextCase], ()⟩]⟩
  let p₂ : Pool (Fin 3) Op Op.Ret State Reply :=
    ⟨Function.update p₁.threads 0 takeResponse, p₁.shared.Record rt request,
      ⟨0, .Record request, ()⟩ :: p₁.history⟩
  have hinstall : world (.ReplaceResponses [nextCase]) p₀.shared () p₁.shared := by
    refine ⟨rt, ?_⟩
    show ((), State.New.ReplaceResponses rt [nextCase]) = _
    unfold State.ReplaceResponses
    rw [copyResponses_eq]
    rfl
  have hrecord : world (.Record request) p₁.shared () p₂.shared := ⟨rt, rfl⟩
  have htake : world .NextResponse p₂.shared (nextCase, true) { p₂.shared with responses := [] } :=
    ⟨rt, rfl⟩
  have h₁ : Pool.Step world p₀ ⟨2, .ReplaceResponses [nextCase], ()⟩ p₁ :=
    Pool.Step.of (k := fun _ => .done .noContent) p₀ 2 () rfl hinstall
  have h₂ : Pool.Step world p₁ ⟨0, .Record request, ()⟩ p₂ :=
    Pool.Step.of (k := fun _ => takeResponse) p₁ 0 () rfl hrecord
  obtain ⟨k, hk⟩ : ∃ k, p₂.threads 0 = .call .NextResponse k := ⟨_, rfl⟩
  have h₃ := Pool.Step.of p₂ 0 (nextCase, true) hk htake
  -- when the response is installed no thread has made its first call
  have hcalm : Calm p₀ ⟨2, .ReplaceResponses [nextCase], ()⟩ := by
    rintro responses - - i ⟨⟨k, hi⟩, -⟩
    match i, hi with
    | 0, hi => cases hi
    | 1, hi => cases hi
    | 2, hi => cases hi
  exact calm_journaled (fun _ => rt) lateRetry _
    (.tail (.tail (.single ⟨_, h₁, hcalm⟩) ⟨_, h₂, by rintro _ ⟨⟩⟩) ⟨_, h₃, by rintro _ ⟨⟩⟩)

/-- **A late request takes a response of the next case** and is not in its journal: the reset and the new
    responses come between its two calls. -/
theorem late_retry_not_journaled :
    ¬ ∀ (rt : Fin 3 → Runtime) (requests : Fin 3 → Request) (p : Pool (Fin 3) Op Op.Ret State Reply),
      Pool.Reaches world (Pool.start (fun i => handle (rt i) (requests i)) State.New) p →
        Journaled p.history := by
  intro h
  obtain ⟨rt⟩ := exists_runtime
  let request : RequestRecord := IngestRequest.record rt ⟨[], [], ∅, some []⟩ []
  let threads : Fin 3 → Program Reply := fun i => handle rt (lateRetry i)
  let p₀ : Pool (Fin 3) Op Op.Ret State Reply := Pool.start threads State.New
  -- the request is journaled
  let p₁ : Pool (Fin 3) Op Op.Ret State Reply :=
    ⟨Function.update threads 0 takeResponse, State.New.Record rt request, [⟨0, .Record request, ()⟩]⟩
  -- the journal is reset
  let p₂ : Pool (Fin 3) Op Op.Ret State Reply :=
    ⟨Function.update p₁.threads 1 (.done .noContent), State.New, ⟨1, .Reset, ()⟩ :: p₁.history⟩
  -- a response is installed
  let p₃ : Pool (Fin 3) Op Op.Ret State Reply :=
    ⟨Function.update p₂.threads 2 (.done .noContent), ⟨[nextCase], [], 0⟩,
      ⟨2, .ReplaceResponses [nextCase], ()⟩ :: p₂.history⟩
  -- and the late request takes it
  let p₄ : Pool (Fin 3) Op Op.Ret State Reply :=
    ⟨Function.update p₃.threads 0 (.done (.scripted nextCase)), ⟨[], [], 0⟩,
      ⟨0, .NextResponse, (nextCase, true)⟩ :: p₃.history⟩
  have hrecord : world (.Record request) State.New () p₁.shared := ⟨rt, rfl⟩
  have hreset : world .Reset p₁.shared () p₂.shared := ⟨rt, rfl⟩
  have hinstall : world (.ReplaceResponses [nextCase]) p₂.shared () p₃.shared := by
    refine ⟨rt, ?_⟩
    show ((), State.New.ReplaceResponses rt [nextCase]) = _
    unfold State.ReplaceResponses
    rw [copyResponses_eq]
    rfl
  have htake : world .NextResponse p₃.shared (nextCase, true) p₄.shared := ⟨rt, rfl⟩
  have h₁ : Pool.Step world p₀ ⟨0, .Record request, ()⟩ p₁ :=
    Pool.Step.of (k := fun _ => takeResponse) p₀ 0 () rfl hrecord
  have h₂ : Pool.Step world p₁ ⟨1, .Reset, ()⟩ p₂ :=
    Pool.Step.of (k := fun _ => .done .noContent) p₁ 1 () rfl hreset
  have h₃ : Pool.Step world p₂ ⟨2, .ReplaceResponses [nextCase], ()⟩ p₃ :=
    Pool.Step.of (k := fun _ => .done .noContent) p₂ 2 () rfl hinstall
  have h₄ : Pool.Step world p₃ ⟨0, .NextResponse, (nextCase, true)⟩ p₄ := by
    obtain ⟨k, hk, hdone⟩ : ∃ k, p₃.threads 0 = .call .NextResponse k ∧
        k (nextCase, true) = .done (.scripted nextCase) := ⟨_, rfl, rfl⟩
    have hstep := Pool.Step.of p₃ 0 (nextCase, true) hk htake
    rw [hdone] at hstep
    exact hstep
  have hrun := h (fun _ => rt) lateRetry p₄
    (.tail (.tail (.tail (.single ⟨_, h₁, trivial⟩) ⟨_, h₂, trivial⟩) ⟨_, h₃, trivial⟩)
      ⟨_, h₄, trivial⟩)
  obtain ⟨request, hrequest⟩ := hrun [] 0 nextCase _ rfl
  -- since the reset the thread has recorded nothing
  rcases List.mem_cons.mp hrequest with heq | hrest
  · cases heq
  · cases hrest

end CekatEvents.Mock
