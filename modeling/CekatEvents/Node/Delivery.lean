/-
  CekatEvents.Node.Delivery — delivery with retries in the Node client (`delivery.ts`).

  `deliver`, `attempt`, `backoff` and `classifyResponse` are programs over the effects of
  `Node.Platform`.  A call without a signal is one whose signal is never aborted.  `observeBody`, an
  instrumentation hook that only tests set, is left out.

  Main result: `deliver_respects_signal`, over every configuration that a call reaches, whatever fetch,
  the body streams and the caller do.
-/
import CekatEvents.Node.Body

namespace CekatEvents.Node

open CekatEvents.Encoding CekatEvents.JsonText CekatEvents.Http CekatEvents.Effects

/-! ## §1. Retry decisions. -/

def MAXIMUM_RETRY_AFTER_MS : Millis := ((5000 : ℚ) : Millis)

/-- `retryDelayBoundMs`. -/
def retryDelayBoundMs (retryNumber : Nat) : Nat :=
  min (100 * 2 ^ min (max retryNumber 1 - 1) 4) 1000

/-- `Number(trimmed)` on at most nine digits. -/
def digitsNumber (text : List Char) : Nat :=
  text.foldl (fun n c => 10 * n + (c.toNat - '0'.toNat)) 0

/-- `parseRetryAfterMs`; `dateParse` is `Date.parse`, with nothing for `NaN`. -/
def parseRetryAfterMs (dateParse : List Char → Option Int) (value : Option (List Char))
    (now : Int) : Option Millis :=
  let trimmed := trim (value.getD [])
  if trimmed = [] then none
  else if trimmed.all Char.isDigit then
    if 9 < trimmed.length then some ⊤ else some ((digitsNumber trimmed * 1000 : ℚ) : Millis)
  else if isHttpDate Char.isDigit trimmed then
    (dateParse trimmed).map fun date => ((max 0 (date - now : Int) : ℚ) : Millis)
  else none

/-! ## §2. Classifying a response. -/

/-- What `JSON.parse` makes of a text. -/
abbrev JsValue := Value (Numeral ⊕ NonFinite)

/-- `JSON.parse`, which knows no limit of nesting; nothing for a `SyntaxError`. -/
def jsonParse (text : Str) : Option JsValue :=
  (JsonText.read rfc8259 text.length text).toOption.map (Ast.decode ⟨hexUnit, .inl, .inr⟩)

/-- A string that is not empty. -/
def nonEmptyString : Option JsValue → Option Str
  | some (.str s) => if s = [] then none else some s
  | _ => none

/-- An array of strings. -/
def stringArray : Option JsValue → Option (List Str)
  | some (.arr xs) => xs.mapM fun x => match x with
      | .str s => some s
      | _ => none
  | _ => none

/-- `v === b` for a Boolean constant. -/
def isBoolean (b : Bool) : Option JsValue → Bool
  | some (.bool c) => c == b
  | _ => false

/-- The fields that `parseAcknowledgement` takes from a success envelope. -/
def envelopeFields (value : JsValue) : Option (Str × Str × List Str) := do
  let data ← value.get (units "data")
  let message ← nonEmptyString (data.get (units "message"))
  let eventKey ← nonEmptyString (data.get (units "event_key"))
  let properties ← stringArray (data.get (units "validated_properties"))
  if isBoolean true (value.get (units "success")) && isBoolean true (data.get (units "success")) then
    some (message, eventKey, properties)
  else none

/-- `parseAcknowledgement`. -/
def parseAcknowledgement (rawBody : Str) : Except Thrown Acknowledgement :=
  match jsonParse rawBody with
  | none => .error .syntaxError
  | some value =>
      match envelopeFields value with
      | none => .error (.error "invalid success envelope".toList)
      | some (message, eventKey, properties) => .ok ⟨message, eventKey, properties, rawBody⟩

/-- `parseApiError`: the message and the code of an error envelope. -/
def parseApiError (rawBody : Str) : Option (Str × Option Str) := do
  let value ← jsonParse rawBody
  if isBoolean false (value.get (units "success")) then
    let message ← nonEmptyString (value.get (units "error"))
    match value.get (units "code") with
    | none => some (message, none)
    | some (.str code) => some (message, some code)
    | some _ => none
  else none

/-- `STATUS_TEXT`. -/
def STATUS_TEXT : List (Nat × String) :=
  [(400, "Bad Request"), (401, "Unauthorized"), (403, "Forbidden"), (404, "Not Found"),
   (409, "Conflict"), (413, "Payload Too Large"), (422, "Unprocessable Entity"),
   (429, "Too Many Requests"), (500, "Internal Server Error"), (502, "Bad Gateway"),
   (503, "Service Unavailable"), (504, "Gateway Timeout")]

/-- `response.statusText || STATUS_TEXT[response.status] || HTTP status`. -/
def fallbackMessage (response : Response) : Str :=
  if response.statusText = [] then
    utf16 (((STATUS_TEXT.find? fun e => e.1 == response.status).map fun e => e.2.toList).getD
      ("HTTP ".toList ++ (Nat.repr response.status).toList))
  else response.statusText

/-- The error class of a status other than 200. -/
def statusError (status : Nat) : StatusError → Thrown :=
  if status = 401 then .authentication
  else if status = 404 then .eventDefinitionNotFound
  else .api

/-- What `classifyResponse` makes of a body. -/
def classifyBody (response : Response) (attempts : Nat) (body : BoundedBody) :
    Except Thrown Acknowledgement :=
  if response.status = 200 then
    if body.bodyTruncated then
      .error (.responseDecode "response body exceeds 65536 bytes".toList body.rawBody attempts none)
    else
      match parseAcknowledgement body.rawBody with
      | .ok acknowledgement => .ok acknowledgement
      | .error error => .error (.responseDecode
          "response body is not a valid success envelope".toList body.rawBody attempts (some error))
  else
    match parseApiError body.rawBody with
    | some (message, code) => .error (statusError response.status
        ⟨message, response.status, code, body.rawBody, attempts⟩)
    | none => .error (statusError response.status
        ⟨fallbackMessage response, response.status, none, body.rawBody, attempts⟩)

/-- `classifyResponse`: a received status is a known outcome even when its body cannot be read. -/
def classifyResponse (fuel : Nat) (response : Response) (attempts : Nat) :
    Program (Except Thrown Acknowledgement) := do
  match ← awaiting (readBoundedBody fuel) with
  | .ok body => pure (classifyBody response attempts body)
  | .error error =>
      if response.status = 200 then pure (.error (.responseDecode
        "response body could not be read".toList [] attempts (some error)))
      else pure (classifyBody response attempts ⟨[], false, 0⟩)

/-! ## §3. The loop. -/

/-- What the loop depends on besides its effects. -/
structure Env where
  /-- The double nearest to a product. -/
  nearest : ℚ → ℚ
  dateParse : List Char → Option Int
  /-- `redactTransportCause` with the token of the client; `String` of a cause may throw. -/
  redactTransportCause : Thrown → Except Thrown Thrown

/-- What an attempt that did not fail gives. -/
inductive Consumed where
  | acknowledged (a : Acknowledgement)
  | retry (retryAfterMs : Option Millis)

/-- How a call ends; the last is `throw new Error('unreachable')`. -/
inductive Ending where
  | resolved (a : Acknowledgement)
  | rejected (e : Thrown)
  | unreachable

section Loop

variable (env : Env) (fuel : Nat) (body : Str)

/-- `cancelBody`: a rejection is swallowed. -/
def cancelBody : Program (Except Thrown Unit) := do
  let _ ← perform .cancelBody
  pure (.ok ())

/-- The function that `deliver` hands to `attempt`. -/
def consumeResponse (attempts maximumAttempts : Nat) (response : Response) :
    Program (Except Thrown Consumed) := do
  let classified := do
    match ← awaiting (classifyResponse fuel response attempts) with
    | .ok a => pure (.ok (.acknowledged a))
    | .error e => pure (.error e)
  if isRetryableStatus response.status && attempts != maximumAttempts then do
    let now ← perform .dateNow
    let requested := parseRetryAfterMs env.dateParse response.retryAfter now
    if requested.all fun delay => decide (delay ≤ MAXIMUM_RETRY_AFTER_MS) then do
      let _ ← awaiting cancelBody
      pure (.ok (.retry requested))
    else classified
  else classified

/-- `attempt`. -/
def attempt (consume : Response → Program (Except Thrown Consumed)) :
    Program (Except Thrown Consumed) := do
  perform .newController
  let outcome ← do
    match ← perform (.fetch body) with
    | .error e => pure (.error e)
    | .ok response =>
        match ← throwIfAborted with
        | some e => pure (.error e)
        | none => awaiting (consume response)
  match outcome with
  | .ok result => pure (.ok result)
  | .error error =>
      match ← throwIfAborted with
      | some e => pure (.error e)
      | none => pure (.error error)

/-- `abortableSleep`. -/
def abortableSleep (milliseconds : Millis) : Program (Except Thrown Unit) := do
  match ← throwIfAborted with
  | some e => pure (.error e)
  | none => perform (.sleep milliseconds)

/-- `backoff`. -/
def backoff (retryNumber : Nat) (retryAfterMs : Option Millis) : Program (Except Thrown Unit) := do
  match ← throwIfAborted with
  | some e => pure (.error e)
  | none => do
      let bound := retryDelayBoundMs retryNumber
      let random ← perform .random
      let jitter : ℚ := ⌊env.nearest (random * (bound + 1))⌋
      let milliseconds := max (jitter : Millis) (retryAfterMs.getD 0)
      match ← awaiting (abortableSleep milliseconds) with
      | .error e => pure (.error e)
      | .ok () =>
          match ← throwIfAborted with
          | some e => pure (.error e)
          | none => pure (.ok ())

/-- The `for` of `deliver`, for at most so many turns. -/
def deliverLoop (maximumAttempts : Nat) : Nat → Nat → Program Ending
  | 0, _ => .cutOff
  | turns + 1, attempts =>
      if attempts ≤ maximumAttempts then do
        match ← throwIfAborted with
        | some e => pure (.rejected e)
        | none => do
            let again := fun (retryAfterMs : Option Millis) => do
              match ← awaiting (backoff env attempts retryAfterMs) with
              | .error e => pure (.rejected e)
              | .ok () => deliverLoop maximumAttempts turns (add attempts 1)
            match ← awaiting (attempt body (consumeResponse env fuel attempts maximumAttempts)) with
            | .ok (.acknowledged a) => pure (.resolved a)
            | .ok (.retry retryAfterMs) => again retryAfterMs
            | .error error =>
                match ← throwIfAborted with
                | some e => pure (.rejected e)
                | none =>
                    if isKnownOutcomeError error then pure (.rejected error)
                    else if attempts = maximumAttempts then
                      match env.redactTransportCause error with
                      | .ok cause => pure (.rejected (.transport
                          "event delivery failed after transport failures".toList attempts cause))
                      | .error e => pure (.rejected e)
                    else again none
      else pure .unreachable

/-- `deliver`. -/
def deliver (retryCount : Nat) (turns : Nat) : Program Ending :=
  deliverLoop env fuel body (add retryCount 1) turns 1

end Loop

/-! ## §4. The caller's signal. -/

/-- The signals, and what has happened in the call so far. -/
structure CallState where
  /-- The caller's signal. -/
  aborted : Aborted
  /-- The signal of the current attempt. -/
  controller : Aborted
  /-- How often fetch has been called. -/
  fetched : Nat

/-- The state in which a call begins. -/
def CallState.initial (aborted : Aborted) : CallState := ⟨aborted, none, 0⟩

/-- What may happen while something is awaited: the caller aborts, which also aborts the attempt, or the
    timer of the attempt fires. -/
inductive Happens : CallState → CallState → Prop
  | abort (s : CallState) (reason : Option Thrown) (h : s.aborted = none) :
      Happens s { s with aborted := some reason,
                         controller := s.controller <|> some (some (abortReason reason)) }
  | timeout (s : CallState) :
      Happens s { s with controller := s.controller <|> some (some .abortError) }

/-- Time passes. -/
abbrev Elapse : CallState → CallState → Prop := Relation.ReflTransGen Happens

/-- **Any environment**: what is awaited may be answered in any way and at any time; the sleep that the
    client ships rejects only with the reason of an aborted signal. -/
def world : World Op Op.Ret CallState
  | .callerSignal, s, r, s' => r = s.aborted ∧ s' = s
  | .newController, s, _, s' =>
      s' = { s with controller := s.aborted.map fun reason => some (abortReason reason) }
  | .controllerSignal, s, r, s' => r = s.controller ∧ s' = s
  | .getReader, s, _, s' => s' = s
  | .dateNow, s, _, s' => s' = s
  | .random, s, _, s' => s' = s
  | .fetch _, s, _, s' => Elapse { s with fetched := s.fetched + 1 } s'
  | .cancelBody, s, _, s' => Elapse s s'
  | .read, s, _, s' => Elapse s s'
  | .cancelReader, s, _, s' => Elapse s s'
  | .tick, s, _, s' => Elapse s s'
  | .sleep _, s, r, s' => Elapse s s' ∧
      ∀ e, r = .error e → ∃ reason, s'.aborted = some reason ∧ e = abortReason reason

/-- No fetch after the abort, and none beyond the allowed number. -/
def Owes (retryCount : Nat) : Op → CallState → Prop
  | .fetch _, s => s.aborted = none ∧ s.fetched < retryCount + 1
  | _, _ => True

/-- A body may go on for ever, so a call may be cut off. -/
def duty (retryCount : Nat) : Duty Op CallState := ⟨Owes retryCount, fun _ => True⟩

/-- **How a call ends**: a rejection after the abort is the reason of the signal, and the loop is never
    left at its end. -/
def Ends : Ending → CallState → Prop
  | .resolved _, _ => True
  | .rejected e, s => ∀ reason, s.aborted = some reason → e = abortReason reason
  | .unreachable, _ => False

/-- Fetch has not been called, and an aborted signal stays aborted. -/
structure Keeps (s s' : CallState) : Prop where
  fetched : s'.fetched = s.fetched
  aborted : ∀ reason, s.aborted = some reason → s'.aborted = some reason

theorem Keeps.refl (s : CallState) : Keeps s s := ⟨rfl, fun _ h => h⟩

theorem Keeps.trans (s t u : CallState) (h : Keeps s t) (h' : Keeps t u) : Keeps s u :=
  ⟨h'.fetched.trans h.fetched, fun reason hs => h'.aborted reason (h.aborted reason hs)⟩

theorem keeps_of_elapse {s s' : CallState} (h : Elapse s s') : Keeps s s' := by
  induction h with
  | refl => exact Keeps.refl s
  | tail _ hstep ih =>
      apply ih.trans
      cases hstep with
      | abort reason hnone =>
          refine ⟨rfl, ?_⟩
          intro reason' hsome
          rw [hnone] at hsome
          cases hsome
      | timeout => exact ⟨rfl, fun _ h => h⟩

/-- The effects other than fetch. -/
def IsNotFetch : Op → Prop
  | .fetch _ => False
  | _ => True

theorem keeps_of_world {op : Op} {s s' : CallState} {r : op.Ret} (hop : IsNotFetch op)
    (h : world op s r s') : Keeps s s' := by
  cases op with
  | fetch body => cases hop
  | callerSignal => exact h.2 ▸ Keeps.refl s
  | controllerSignal => exact h.2 ▸ Keeps.refl s
  | newController =>
      cases h
      exact ⟨rfl, fun _ h => h⟩
  | getReader => exact h ▸ Keeps.refl s
  | dateNow => exact h ▸ Keeps.refl s
  | random => exact h ▸ Keeps.refl s
  | cancelBody => exact keeps_of_elapse h
  | read => exact keeps_of_elapse h
  | cancelReader => exact keeps_of_elapse h
  | tick => exact keeps_of_elapse h
  | sleep milliseconds => exact keeps_of_elapse h.1

section Call

variable {retryCount : Nat} {α : Type} {s : CallState}

/-- A part of a call that does not fetch keeps the abort. -/
theorem keeps_of_only {p : Program α} (hp : Only IsNotFetch p) :
    Ensures world (duty retryCount) p (fun _ s' => Keeps s s') s := by
  apply hp.ensures Keeps.refl Keeps.trans
  · intro op s hop
    cases op with
    | fetch body => cases hop
    | _ => trivial
  · exact fun _ => trivial
  · intro op s r s' hop h
    exact keeps_of_world hop h

theorem only_awaiting {p : Program (Except Thrown α)} (hp : Only IsNotFetch p) :
    Only IsNotFetch (awaiting p) :=
  hp.bind fun r => (Only.perform trivial).bind fun _ => Only.pure r

theorem only_readLoop (fuel : Nat) : ∀ (retained : List UInt8) (observed : Nat),
    Only IsNotFetch (readLoop fuel retained observed) := by
  induction fuel with
  | zero =>
      intro retained observed
      trivial
  | succ fuel ih =>
      intro retained observed
      have hread : Only IsNotFetch readWithSignal := by
        apply (Only.perform (show IsNotFetch .controllerSignal from trivial)).bind
        intro signal
        cases signal with
        | some reason => exact Only.pure _
        | none => exact Only.perform trivial
      apply (only_awaiting hread).bind
      intro r
      match r with
      | .error e => exact Only.pure _
      | .ok none => exact Only.pure _
      | .ok (some chunk) =>
          show Only IsNotFetch (if chunk.length ≤ MAX_RESPONSE_BYTES - retained.length then _ else _)
          split_ifs
          · exact ih _ _
          · exact (Only.perform trivial).bind fun _ => Only.pure _

theorem only_readBoundedBody (fuel : Nat) : Only IsNotFetch (readBoundedBody fuel) := by
  apply (Only.perform (show IsNotFetch .getReader from trivial)).bind
  intro r
  match r with
  | .error e => exact Only.pure _
  | .ok false => exact Only.pure _
  | .ok true =>
      apply (Only.perform (show IsNotFetch .controllerSignal from trivial)).bind
      intro _
      apply (only_readLoop fuel [] 0).bind
      intro r
      match r with
      | .error e => exact Only.pure _
      | .ok (retained, truncated, observed) => exact Only.pure _

theorem only_classifyResponse (fuel : Nat) (response : Response) (attempts : Nat) :
    Only IsNotFetch (classifyResponse fuel response attempts) := by
  apply (only_awaiting (only_readBoundedBody fuel)).bind
  intro r
  match r with
  | .ok body => exact Only.pure _
  | .error error =>
      show Only IsNotFetch (if response.status = 200 then _ else _)
      split_ifs
      · exact Only.pure _
      · exact Only.pure _

/-- Consuming a response does not fetch. -/
theorem only_consumeResponse (env : Env) (fuel attempts maximumAttempts : Nat)
    (response : Response) :
    Only IsNotFetch (consumeResponse env fuel attempts maximumAttempts response) := by
  have hclassified : Only IsNotFetch (do
      match ← awaiting (classifyResponse fuel response attempts) with
      | .ok a => pure (.ok (.acknowledged a))
      | .error e => pure (.error e) : Program (Except Thrown Consumed)) := by
    apply (only_awaiting (only_classifyResponse fuel response attempts)).bind
    intro r
    match r with
    | .ok a => exact Only.pure _
    | .error e => exact Only.pure _
  have hcancel : Only IsNotFetch cancelBody :=
    (Only.perform (show IsNotFetch .cancelBody from trivial)).bind fun _ => Only.pure _
  unfold consumeResponse
  simp only
  split_ifs
  · apply (Only.perform (show IsNotFetch .dateNow from trivial)).bind
    intro now
    split_ifs
    · exact (only_awaiting hcancel).bind fun _ => Only.pure _
    · exact hclassified
  · exact hclassified

/-! ## §5. What a call owes its caller. -/

/-- A look at the signal takes no time. -/
theorem throwIfAborted_ensures {Q : Option Thrown → CallState → Prop}
    (h : Q (s.aborted.map abortReason) s) :
    Ensures world (duty retryCount) throwIfAborted Q s := by
  unfold throwIfAborted
  simp only [ensures_bind, ensures_perform]
  refine ⟨trivial, ?_⟩
  intro r s' hstep
  obtain ⟨rfl, rfl⟩ := hstep
  exact h

/-- Awaiting a function takes a turn of the event loop. -/
theorem awaiting_ensures {p : Program (Except Thrown α)} {Q : Except Thrown α → CallState → Prop}
    (hQ : ∀ r t u, Keeps t u → Q r t → Q r u) (hp : Ensures world (duty retryCount) p Q s) :
    Ensures world (duty retryCount) (awaiting p) Q s := by
  unfold awaiting
  simp only [ensures_bind]
  apply hp.imp
  intro r t ht
  refine ⟨trivial, ?_⟩
  intro _ u htime
  exact hQ r t u (keeps_of_elapse htime) ht

/-- Consuming a response asks for a retry only when an attempt is left. -/
theorem consumeResponse_ensures (env : Env) (fuel attempts maximumAttempts : Nat)
    (response : Response) :
    Ensures world (duty retryCount) (consumeResponse env fuel attempts maximumAttempts response)
      (fun r s' => Keeps s s' ∧ ∀ delay, r = .ok (.retry delay) → attempts ≠ maximumAttempts) s := by
  by_cases hlast : attempts = maximumAttempts
  · unfold consumeResponse
    rw [if_neg (by simp [hlast])]
    simp only [ensures_bind]
    apply (keeps_of_only (only_awaiting (only_classifyResponse fuel response attempts))).imp
    intro r s' hs'
    cases r with
    | ok a => exact ⟨hs', fun delay h => by cases h⟩
    | error e => exact ⟨hs', fun delay h => by cases h⟩
  · apply (keeps_of_only (only_consumeResponse env fuel attempts maximumAttempts response)).imp
    intro r s' hs'
    exact ⟨hs', fun _ _ => hlast⟩

/-- An attempt fetches once, at its start. -/
theorem attempt_ensures {env : Env} {fuel attempts maximumAttempts : Nat} {body : Str}
    (habort : s.aborted = none) (hcount : s.fetched < retryCount + 1) :
    Ensures world (duty retryCount)
      (attempt body (consumeResponse env fuel attempts maximumAttempts))
      (fun r s' => s'.fetched = s.fetched + 1 ∧
        ∀ delay, r = .ok (.retry delay) → attempts ≠ maximumAttempts) s := by
  unfold attempt
  simp only [ensures_bind, ensures_perform]
  refine ⟨trivial, ?_⟩
  intro _ s₁ hnew
  cases hnew
  refine ⟨⟨habort, hcount⟩, ?_⟩
  intro r s₂ hfetch
  have hcount₂ : s₂.fetched = s.fetched + 1 := (keeps_of_elapse hfetch).fetched
  -- whatever the outcome of the `try`, its `catch` only looks at the signal
  have hrest : ∀ (outcome : Except Thrown Consumed) (t : CallState), Keeps s₂ t →
      (∀ delay, outcome = .ok (.retry delay) → attempts ≠ maximumAttempts) →
      Ensures world (duty retryCount) (match outcome with
        | .ok result => pure (.ok result)
        | .error error => do
            match ← throwIfAborted with
            | some e => pure (.error e)
            | none => pure (.error error) : Program (Except Thrown Consumed))
        (fun r s' => s'.fetched = s.fetched + 1 ∧
          ∀ delay, r = .ok (.retry delay) → attempts ≠ maximumAttempts) t := by
    intro outcome t ht hretry
    have hcount_t : t.fetched = s.fetched + 1 := ht.fetched.trans hcount₂
    cases outcome with
    | ok result => exact ⟨hcount_t, hretry⟩
    | error error =>
        simp only [ensures_bind]
        apply throwIfAborted_ensures
        cases t.aborted with
        | some reason => exact ⟨hcount_t, fun delay h => by cases h⟩
        | none => exact ⟨hcount_t, fun delay h => by cases h⟩
  cases r with
  | error e => exact hrest (.error e) s₂ (Keeps.refl s₂) fun delay h => by cases h
  | ok response =>
      simp only [ensures_bind]
      apply throwIfAborted_ensures
      cases s₂.aborted with
      | some reason =>
          exact hrest (.error (abortReason reason)) s₂ (Keeps.refl s₂) fun delay h => by cases h
      | none =>
          simp only [Option.map_none, ensures_bind]
          have hconsumed : Ensures world (duty retryCount)
              (awaiting (consumeResponse env fuel attempts maximumAttempts response))
              (fun r t => Keeps s₂ t ∧ ∀ delay, r = .ok (.retry delay) → attempts ≠ maximumAttempts)
              s₂ := by
            apply awaiting_ensures
            · intro r t u hu ht
              exact ⟨Keeps.trans s₂ t u ht.1 hu, ht.2⟩
            · exact consumeResponse_ensures env fuel attempts maximumAttempts response
          apply hconsumed.imp
          intro outcome t ht
          exact hrest outcome t ht.1 ht.2

/-- A rejection that is the reason of an aborted signal. -/
def ReasonIfRejected (r : Except Thrown Unit) (s : CallState) : Prop :=
  ∀ e, r = .error e → ∃ reason, s.aborted = some reason ∧ e = abortReason reason

theorem reasonIfRejected_ok {s : CallState} : ReasonIfRejected (.ok ()) s := by
  intro e he
  cases he

theorem reasonIfRejected_error {s : CallState} {reason : Option Thrown}
    (h : s.aborted = some reason) : ReasonIfRejected (.error (abortReason reason)) s := by
  intro e he
  cases he
  exact ⟨reason, h, rfl⟩

theorem ReasonIfRejected.keeps {r : Except Thrown Unit} {t u : CallState}
    (h : ReasonIfRejected r t) (hkeeps : Keeps t u) : ReasonIfRejected r u := by
  intro e he
  obtain ⟨reason, hreason, hvalue⟩ := h e he
  exact ⟨reason, hkeeps.aborted reason hreason, hvalue⟩

/-- A sleep is rejected only with the reason of an aborted signal. -/
theorem abortableSleep_ensures (milliseconds : Millis) :
    Ensures world (duty retryCount) (awaiting (abortableSleep milliseconds))
      (fun r s' => s'.fetched = s.fetched ∧ ReasonIfRejected r s') s := by
  apply awaiting_ensures
  · intro r t u hkeeps ht
    exact ⟨hkeeps.fetched.trans ht.1, ht.2.keeps hkeeps⟩
  · unfold abortableSleep
    simp only [ensures_bind]
    apply throwIfAborted_ensures
    cases hs : s.aborted with
    | some reason => exact ⟨rfl, reasonIfRejected_error hs⟩
    | none =>
        refine ⟨trivial, ?_⟩
        intro r s' hstep
        exact ⟨(keeps_of_elapse hstep.1).fetched, hstep.2⟩

/-- A rejection of the backoff is the reason of an aborted signal. -/
theorem backoff_ensures {env : Env} {attempts : Nat} {retryAfterMs : Option Millis} :
    Ensures world (duty retryCount) (awaiting (backoff env attempts retryAfterMs))
      (fun r s' => s'.fetched = s.fetched ∧ ReasonIfRejected r s') s := by
  apply awaiting_ensures
  · intro r t u hkeeps ht
    exact ⟨hkeeps.fetched.trans ht.1, ht.2.keeps hkeeps⟩
  · unfold backoff
    simp only [ensures_bind]
    apply throwIfAborted_ensures
    cases hs : s.aborted with
    | some reason => exact ⟨rfl, reasonIfRejected_error hs⟩
    | none =>
        simp only [Option.map_none, ensures_bind, ensures_perform]
        refine ⟨trivial, ?_⟩
        intro random s₁ hrandom
        cases hrandom
        apply (abortableSleep_ensures _).imp
        intro r s₂ h₂
        cases r with
        | error e => exact h₂
        | ok _ =>
            simp only [ensures_bind]
            apply throwIfAborted_ensures
            cases hs₂ : s₂.aborted with
            | some reason => exact ⟨h₂.1, reasonIfRejected_error hs₂⟩
            | none => exact ⟨h₂.1, reasonIfRejected_ok⟩

/-- A call that ends at a look at the signal that was not aborted may end in any way. -/
theorem ends_of_not_aborted {e : Thrown} (h : s.aborted = none) : Ends (.rejected e) s := by
  intro reason hreason
  rw [h] at hreason
  cases hreason

/-- **One turn after another**: before attempt `attempts`, fetch has been called once for each attempt
    before it. -/
theorem deliverLoop_ensures (env : Env) (fuel : Nat) (body : Str) (hmax : retryCount ≤ 2 ^ 53 - 2)
    (turns : Nat) : ∀ (attempts : Nat) (s : CallState), attempts ≤ retryCount + 1 →
      s.fetched + 1 = attempts →
      Ensures world (duty retryCount)
        (deliverLoop env fuel body (retryCount + 1) turns attempts) Ends s := by
  induction turns with
  | zero =>
      intro attempts s _ _
      trivial
  | succ turns ih =>
      intro attempts s hlast hcount
      rw [deliverLoop, if_pos hlast]
      simp only [ensures_bind]
      apply throwIfAborted_ensures
      cases hs : s.aborted with
      | some reason =>
          intro reason' hreason
          rw [hs] at hreason
          cases hreason
          rfl
      | none =>
          -- after a failed attempt the loop backs off, and goes on with the next one
          have hagain : ∀ (retryAfterMs : Option Millis) (t : CallState), t.fetched = s.fetched + 1 →
              attempts ≠ retryCount + 1 →
              Ensures world (duty retryCount) (do
                match ← awaiting (backoff env attempts retryAfterMs) with
                | .error e => pure (.rejected e)
                | .ok () => deliverLoop env fuel body (retryCount + 1) turns (add attempts 1))
                Ends t := by
            intro retryAfterMs t ht hne
            simp only [ensures_bind]
            apply backoff_ensures.imp
            intro r u hu
            cases r with
            | error e =>
                intro reason hreason
                obtain ⟨reason', hreason', rfl⟩ := hu.2 e rfl
                rw [hreason] at hreason'
                cases hreason'
                rfl
            | ok _ =>
                show Ensures world (duty retryCount)
                  (deliverLoop env fuel body (retryCount + 1) turns (add attempts 1)) Ends u
                rw [add_eq (by omega)]
                apply ih
                · omega
                · rw [hu.1, ht]
                  omega
          simp only [Option.map_none, ensures_bind]
          have hattempt : Ensures world (duty retryCount)
              (awaiting (attempt body (consumeResponse env fuel attempts (retryCount + 1))))
              (fun r t => t.fetched = s.fetched + 1 ∧
                ∀ delay, r = .ok (.retry delay) → attempts ≠ retryCount + 1) s := by
            apply awaiting_ensures
            · intro r t u hu ht
              exact ⟨hu.fetched.trans ht.1, ht.2⟩
            · exact attempt_ensures hs (by omega)
          apply hattempt.imp
          intro r t ht
          cases r with
          | ok consumed =>
              cases consumed with
              | acknowledged a => trivial
              | retry delay => exact hagain delay t ht.1 (ht.2 delay rfl)
          | error error =>
              simp only [ensures_bind]
              apply throwIfAborted_ensures
              cases ht' : t.aborted with
              | some reason =>
                  intro reason' hreason
                  rw [ht'] at hreason
                  cases hreason
                  rfl
              | none =>
                  simp only [Option.map_none]
                  split_ifs with hknown hfinal
                  · exact ends_of_not_aborted ht'
                  · cases env.redactTransportCause error with
                    | ok cause => exact ends_of_not_aborted ht'
                    | error e => exact ends_of_not_aborted ht'
                  · exact hagain none t ht.1 hfinal

end Call

/-- **A call respects its signal**, in every configuration that any run of it reaches. -/
theorem deliver_respects_signal (env : Env) (fuel turns : Nat) (body : Str) (retryCount : Nat)
    (aborted : Aborted) (hmax : retryCount ≤ 2 ^ 53 - 2)
    (c : Config Op Op.Ret CallState Ending)
    (hrun : Reaches world
      (deliver env fuel body retryCount turns, CallState.initial aborted) c) :
    Meets (duty retryCount) Ends c := by
  have hall : Ensures world (duty retryCount) (deliver env fuel body retryCount turns) Ends
      (CallState.initial aborted) := by
    unfold deliver
    rw [add_eq (by omega)]
    exact deliverLoop_ensures env fuel body hmax turns 1 _ (by omega) rfl
  exact ensures_iff_reaches.mp hall c hrun

/-- An environment in which the first attempt is answered by a 503 and the second by a 200, and the caller
    aborts while the first chunk of its body is read. -/
def aborting : Handler Op Op.Ret CallState
  | .callerSignal, s => (s.aborted, s)
  | .newController, s => ((), { s with controller := s.aborted.map fun reason => some (abortReason reason) })
  | .controllerSignal, s => (s.controller, s)
  | .fetch _, s => (.ok ⟨if s.fetched = 0 then 503 else 200, [], none⟩, { s with fetched := s.fetched + 1 })
  | .cancelBody, s => (.ok (), s)
  | .getReader, s => (.ok true, s)
  | .read, s => (.ok (some [0x7B]),
      match s.aborted with
      | none => { s with aborted := some (some (.other 7)),
                         controller := s.controller <|> some (some (abortReason (some (.other 7)))) }
      | some _ => s)
  | .cancelReader, s => (.ok (), s)
  | .dateNow, s => (0, s)
  | .random, s => (0, s)
  | .sleep _, s => (.ok (), s)
  | .tick, s => ((), s)

/-- The call rejects with the reason of its signal after two fetches, the second of which succeeded. -/
theorem deliver_respects_signal_aborted :
    Meets (duty 2) Ends
      ((.done (.rejected (.other 7)), ⟨some (some (.other 7)), some (some (.other 7)), 2⟩) :
        Config Op Op.Ret CallState Ending) := by
  apply deliver_respects_signal ⟨id, fun _ => none, .ok⟩ 8 3 [] 2 none (by decide)
  apply reaches_of_run (h := aborting)
  · intro op s
    cases op with
    | callerSignal => exact ⟨rfl, rfl⟩
    | controllerSignal => exact ⟨rfl, rfl⟩
    | newController => exact rfl
    | getReader => exact rfl
    | dateNow => exact rfl
    | random => exact rfl
    | fetch body => exact .refl
    | cancelBody => exact .refl
    | cancelReader => exact .refl
    | tick => exact .refl
    | sleep milliseconds => exact ⟨.refl, by rintro e ⟨⟩⟩
    | read =>
        cases hs : s.aborted with
        | none =>
            simp only [world, aborting, hs]
            exact .single (.abort s (some (.other 7)) hs)
        | some reason =>
            simp only [world, aborting, hs]
            exact .refl
  · rfl

end CekatEvents.Node
