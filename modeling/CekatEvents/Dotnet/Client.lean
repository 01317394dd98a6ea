/-
  CekatEvents.Dotnet.Client — delivery with retries in the .NET client (`CekatClient.cs`).

  `trackAsync` and `attemptAsync` are programs over the effects of the source: the caller's token, the
  request, the body stream, the clock, the jitter source and the delay.  The token may be cancelled at
  any time, also between two effects.  A failed request or read throws `HttpRequestException`,
  `IOException` or `OperationCanceledException`.

  The token is asked about the last of these only, so a connection that fails while the caller cancels
  counts as a transport failure.  Main result: `trackAsync_cancelled` — runs in which every failure
  caught with a cancelled token is a cancellation, or is followed by a retry delay, end as the caller
  may expect.
-/
import CekatEvents.Dotnet.RetryPolicy
import CekatEvents.Effects.Program

namespace CekatEvents.Dotnet

open CekatEvents.Http CekatEvents.Effects CekatEvents.Arithmetic

/-! ## §1. Effects. -/

/-- What a request or a body stream throws. -/
inductive FailureKind where
  | httpRequest
  | io
  | operationCanceled
  deriving DecidableEq

/-- An exception, by what the filter asks of it and the name of its class. -/
structure Failure where
  kind : FailureKind
  typeName : List Char

/-- A response before its body is read. -/
structure Response where
  statusCode : Nat
  versionMajor : Nat
  reasonPhrase : Option (List Char)
  /-- The values of the `Retry-After` header. -/
  retryAfter : List (List Char)

/-- The effects of a call. -/
inductive Op where
  | throwIfCancellationRequested
  | isCancellationRequested
  | sendAsync (body : List UInt8)
  | readAsStreamAsync
  | readAsync (room : Nat)
  | getUtcNow
  | jitter (upper : ℚ)
  | delay (duration : TimeSpan)

/-- What an effect answers: a read gives at most as many bytes as there is room for, and the check of
    the token and the delay say whether they threw `OperationCanceledException`. -/
abbrev Op.Ret : Op → Type
  | throwIfCancellationRequested => Bool
  | isCancellationRequested => Bool
  | sendAsync _ => Except Failure Response
  | readAsStreamAsync => Except Failure Unit
  | readAsync _ => Except Failure (List UInt8)
  | getUtcNow => Int
  | jitter _ => ℚ
  | delay _ => Bool

/-- A program of the client. -/
abbrev Program (α : Type) := Prog Op Op.Ret α

/-- One effect. -/
abbrev perform (op : Op) : Program op.Ret := Prog.perform op

/-- The fields of `CekatTransportException`. -/
structure CekatTransportException where
  message : List Char
  attempts : Int
  innerException : Failure

/-- What a call throws: an exception of the client, a failure of the request that went through the
    filter, or the cancellation of the token. -/
inductive TrackThrown where
  | transport (e : CekatTransportException)
  | decoding (e : Thrown)
  | failure (f : Failure)
  | cancelled

/-- A result of the call. -/
abbrev Result := Except TrackThrown Acknowledgement

/-! ## §2. One attempt. -/

/-- `CekatConstants.MaximumResponseBodyBytes`. -/
def maximumResponseBodyBytes : Nat := 65536

/-- `IsTransportFailure`: only a cancellation asks the token. -/
def isTransportFailure (f : Failure) : Program Bool :=
  match f.kind with
  | .httpRequest => pure true
  | .io => pure true
  | .operationCanceled => do
      let cancelled ← perform .isCancellationRequested
      pure !cancelled

/-- The loop over the body stream: what was observed, and the failure that ended it. -/
def readLoop (room : Nat) (observed : List UInt8) : Program (List UInt8 × Option Failure) :=
  if 0 < room then do
    match ← perform (.readAsync room) with
    | .error f => pure (observed, some f)
    | .ok chunk =>
        if chunk = [] then pure (observed, none)
        else readLoop (room - chunk.length) (observed ++ chunk)
  else pure (observed, none)
termination_by room
decreasing_by
  have hlen : 0 < chunk.length := List.length_pos_iff.mpr ‹_›
  omega

/-- The body of the `try`: open the stream and read it. -/
def readBody : Program (List UInt8 × Option Failure) := do
  match ← perform .readAsStreamAsync with
  | .error f => pure ([], some f)
  | .ok () => readLoop (maximumResponseBodyBytes + 1) []

/-- The response with what was read of its body. -/
def received (response : Response) (observed : List UInt8) (failure : Option Failure) :
    ReceivedResponse :=
  let truncated := decide (maximumResponseBodyBytes < observed.length)
  { statusCode := response.statusCode
    reasonPhrase := if response.versionMajor < 2 then response.reasonPhrase else none
    retryAfter := response.retryAfter.head?
    body := observed.take maximumResponseBodyBytes
    bodyTruncated := truncated
    bodyReadFailure := if truncated then none else failure.map Failure.typeName }

/-- `AttemptAsync`. -/
def attemptAsync (body : List UInt8) : Program (Except Failure ReceivedResponse) := do
  match ← perform (.sendAsync body) with
  | .error f => pure (.error f)
  | .ok response => do
      let (observed, failure) ← readBody
      match failure with
      | none => pure (.ok (received response observed none))
      | some f => do
          if ← isTransportFailure f then pure (.ok (received response observed (some f)))
          else pure (.error f)

/-! ## §3. The loop. -/

/-- The exception of a call without a response. -/
def transportException (f : Failure) (attempts : Int) : CekatTransportException :=
  let noun := if attempts = 1 then "attempt" else "attempts"
  ⟨"no response from Cekat after ".toList ++ (toString attempts).toList ++ [' '] ++ noun.toList
      ++ " (".toList ++ f.typeName ++ "); the event may have been received".toList, attempts, f⟩

section Loop

variable (tryParseExact : List Char → Option Int) (retryCount : Int) (body : List UInt8)

/-- `RetryDelay` with the effects of the client. -/
def clientRetryDelay (attempts : Int) (retryAfter : Option (List Char)) :
    Program (Option TimeSpan) :=
  retryDelay tryParseExact (perform .getUtcNow) (fun upper => perform (.jitter upper)) attempts
    retryAfter

/-- The `while (true)` of `TrackAsync`, for at most `fuel` turns, after `attempts` attempts. -/
def trackAsync : Nat → Int → Program Result
  | 0, _ => .cutOff
  | fuel + 1, attemptsBefore => do
      if ← perform .throwIfCancellationRequested then pure (.error .cancelled)
      else do
        let attempts := int32 (attemptsBefore + 1)
        match ← attemptAsync body with
        | .error f => do
            if ← isTransportFailure f then
              if attempts > retryCount then
                pure (.error (.transport (transportException f attempts)))
              else do
                let delay ← clientRetryDelay tryParseExact attempts none
                if ← perform (.delay (delay.getD 0)) then pure (.error .cancelled)
                else trackAsync fuel attempts
            else pure (.error (.failure f))
        | .ok response =>
            if isRetryableStatus response.statusCode && decide (attempts ≤ retryCount) then do
              match ← clientRetryDelay tryParseExact attempts response.retryAfter with
              | some delay => do
                  if ← perform (.delay delay) then pure (.error .cancelled)
                  else trackAsync fuel attempts
              | none => pure ((decode response attempts).mapError .decoding)
            else pure ((decode response attempts).mapError .decoding)

end Loop

/-! ## §4. The caller's token. -/

/-- The token, and what has happened in the call so far. -/
structure CallState where
  cancelled : Bool
  /-- Requests sent. -/
  begun : Nat
  /-- The response of the current attempt, once its headers arrived. -/
  response : Option Response
  /-- A failure was caught while the token was cancelled. -/
  caught : Bool

/-- The state in which a call begins. -/
def CallState.initial (cancelled : Bool) : CallState := ⟨cancelled, 0, none, false⟩

/-- The token may be cancelled while time passes. -/
inductive Elapse : CallState → CallState → Prop
  | still (s : CallState) : Elapse s s
  | cancel (s : CallState) : Elapse s { s with cancelled := true }

/-- The answers that stand for a caught failure. -/
def isFailure : (op : Op) → op.Ret → Bool
  | .sendAsync _, r => !r.isOk
  | .readAsStreamAsync, r => !r.isOk
  | .readAsync _, r => !r.isOk
  | .isCancellationRequested, r => r
  | _, _ => false

/-- What an effect may answer, called in state `s₀` and answered in state `s`.  The token tells whether
    it is cancelled; a delay throws when the token was cancelled at its start, and may do so when it has
    become cancelled since. -/
def Answers : (op : Op) → CallState → CallState → op.Ret → CallState → Prop
  | .throwIfCancellationRequested, _, s, r, s' => r = s.cancelled ∧ s' = s
  | .isCancellationRequested, _, s, r, s' => r = s.cancelled ∧ s' = s
  | .sendAsync _, _, s, r, s' => s' = { s with begun := s.begun + 1, response := r.toOption }
  | .delay _, s₀, s, r, s' =>
      (s₀.cancelled = true → r = true) ∧ (r = true → s.cancelled = true) ∧ s' = s
  | .readAsStreamAsync, _, s, _, s' => s' = s
  | .readAsync _, _, s, _, s' => s' = s
  | .getUtcNow, _, s, _, s' => s' = s
  | .jitter _, _, s, _, s' => s' = s

/-- **Any environment**: the token may be cancelled before and after every answer, and a failure is
    caught when it has been answered. -/
def world : World Op Op.Ret CallState := fun op s r s' =>
  ∃ s₁ s₂ s₃, Elapse s s₁ ∧ Answers op s s₁ r s₂ ∧ Elapse s₂ s₃ ∧
    s' = { s₃ with caught := s₃.caught || (isFailure op r && s₃.cancelled) }

/-- **The steps on which the client does what its documentation says.**  A failure caught with a
    cancelled token is a cancellation itself, or a retry delay follows it: before the headers, when an
    attempt is left; after them, when the status is retried as well and the server asks for no more than
    five seconds. -/
def DelayFollows (tryParseExact : List Char → Option Int) (retryCount : Int) :
    (op : Op) → op.Ret → CallState → Prop
  | .sendAsync _, .error f, s => s.cancelled = true →
      f.kind = .operationCanceled ∨ int32 s.begun ≤ retryCount
  | .readAsStreamAsync, .error f, s => s.cancelled = true → f.kind = .operationCanceled ∨
      (int32 s.begun ≤ retryCount ∧ s.response.any fun r => isRetryableStatus r.statusCode)
  | .readAsync _, .error f, s => s.cancelled = true → f.kind = .operationCanceled ∨
      (int32 s.begun ≤ retryCount ∧ s.response.any fun r => isRetryableStatus r.statusCode)
  | .getUtcNow, now, s => s.caught = true → ∀ response, s.response = some response →
      asksTooMuch (parseRetryAfter tryParseExact response.retryAfter.head? now) = false
  | _, _, _ => True

/-- An environment all of whose steps are such. -/
def delayingWorld (tryParseExact : List Char → Option Int) (retryCount : Int) :
    World Op Op.Ret CallState := fun op s r s' =>
  world op s r s' ∧ DelayFollows tryParseExact retryCount op r s'

/-! ## §5. What one answer does to the state of a call. -/

/-- The call is where it was; only the token may have been cancelled. -/
structure Frame (s s' : CallState) : Prop where
  begun : s'.begun = s.begun
  response : s'.response = s.response
  caught : s'.caught = s.caught
  cancelled : s.cancelled = true → s'.cancelled = true

theorem Frame.trans {s t u : CallState} (h : Frame s t) (h' : Frame t u) : Frame s u where
  begun := h'.begun.trans h.begun
  response := h'.response.trans h.response
  caught := h'.caught.trans h.caught
  cancelled := fun hs => h'.cancelled (h.cancelled hs)

theorem Elapse.frame {s s' : CallState} (h : Elapse s s') : Frame s s' := by
  cases h with
  | still => exact ⟨rfl, rfl, rfl, fun h => h⟩
  | cancel => exact ⟨rfl, rfl, rfl, fun _ => rfl⟩

/-- A failure is only caught with a cancelled token if the token is cancelled. -/
def Sound (s : CallState) : Prop := s.caught = true → s.cancelled = true

section Steps

variable {s s' : CallState}

/-- An effect that leaves the state as it is, and whose answer is not a failure. -/
theorem quiet_step {op : Op} {r : op.Ret} (h : world op s r s')
    (hop : ∀ s t r s', Answers op s t r s' → s' = t) (hr : isFailure op r = false) : Frame s s' := by
  obtain ⟨s₁, s₂, s₃, h₁, hs₂, h₃, rfl⟩ := h
  cases hop s s₁ r s₂ hs₂
  have hframe := h₁.frame.trans h₃.frame
  refine ⟨hframe.begun, hframe.response, ?_, hframe.cancelled⟩
  show (s₃.caught || (isFailure op r && s₃.cancelled)) = s.caught
  rw [hr, Bool.false_and, Bool.or_false, hframe.caught]

/-- A delay that begins with a cancelled token throws. -/
theorem delay_step {duration : TimeSpan} {r : Bool} (h : world (.delay duration) s r s') :
    Frame s s' ∧ (s.cancelled = true → r = true) := by
  have hframe := quiet_step h (fun _ _ _ _ ha => ha.2.2) rfl
  obtain ⟨s₁, s₂, s₃, -, ⟨hthrow, -, -⟩, -, -⟩ := h
  exact ⟨hframe, hthrow⟩

/-- The filter's look at the token. -/
theorem isCancellationRequested_step {r : Bool} (h : world .isCancellationRequested s r s') :
    s'.begun = s.begun ∧ (s.cancelled = true → r = true) ∧ (r = false → Frame s s') ∧
      (Sound s → Sound s') := by
  obtain ⟨s₁, s₂, s₃, h₁, ⟨hr, rfl⟩, h₃, rfl⟩ := h
  have hframe := h₁.frame.trans h₃.frame
  refine ⟨hframe.begun, ?_, ?_, ?_⟩
  · intro hs
    rw [hr]
    exact h₁.frame.cancelled hs
  · intro hfalse
    refine ⟨hframe.begun, hframe.response, ?_, hframe.cancelled⟩
    show (s₃.caught || (r && s₃.cancelled)) = s.caught
    rw [hfalse, Bool.false_and, Bool.or_false, hframe.caught]
  · intro hs hcaught
    have hcaught' : (s₃.caught || (r && s₃.cancelled)) = true := hcaught
    show s₃.cancelled = true
    rw [hframe.caught, Bool.or_eq_true, Bool.and_eq_true] at hcaught'
    rcases hcaught' with hold | hnew
    · exact hframe.cancelled (hs hold)
    · exact hnew.2

/-- A read of the body; a failure of it is caught. -/
theorem read_step {op : Op} {r : op.Ret} (h : world op s r s')
    (hop : ∀ s t r s', Answers op s t r s' → s' = t) :
    s'.begun = s.begun ∧ s'.response = s.response ∧
      s'.caught = (s.caught || (isFailure op r && s'.cancelled)) ∧ (Sound s → Sound s') := by
  obtain ⟨s₁, s₂, s₃, h₁, hs₂, h₃, rfl⟩ := h
  cases hop s s₁ r s₂ hs₂
  have hframe := h₁.frame.trans h₃.frame
  refine ⟨hframe.begun, hframe.response, ?_, ?_⟩
  · show (s₃.caught || (isFailure op r && s₃.cancelled)) = _
    rw [hframe.caught]
  · intro hs hcaught
    have hcaught' : (s₃.caught || (isFailure op r && s₃.cancelled)) = true := hcaught
    show s₃.cancelled = true
    rw [hframe.caught, Bool.or_eq_true, Bool.and_eq_true] at hcaught'
    rcases hcaught' with hold | hnew
    · exact hframe.cancelled (hs hold)
    · exact hnew.2

/-- A request sent; a failure of it is caught. -/
theorem send_step {body : List UInt8} {r : Except Failure Response}
    (h : world (.sendAsync body) s r s') (hs : s.caught = false) :
    s'.begun = s.begun + 1 ∧ s'.response = r.toOption ∧
      s'.caught = (!r.isOk && s'.cancelled) ∧ Sound s' := by
  obtain ⟨s₁, s₂, s₃, h₁, rfl, h₃, rfl⟩ := h
  have hcaught : s₃.caught = false := by rw [h₃.frame.caught, ← hs, ← h₁.frame.caught]
  refine ⟨?_, ?_, ?_, ?_⟩
  · show s₃.begun = s.begun + 1
    rw [h₃.frame.begun, ← h₁.frame.begun]
  · exact h₃.frame.response
  · show (s₃.caught || (!r.isOk && s₃.cancelled)) = (!r.isOk && s₃.cancelled)
    rw [hcaught, Bool.false_or]
  · intro h
    have h' : (s₃.caught || (!r.isOk && s₃.cancelled)) = true := h
    rw [hcaught, Bool.false_or, Bool.and_eq_true] at h'
    exact h'.2

end Steps

/-! ## §6. What a call owes its caller. -/

/-- A result that reports the cancellation. -/
def IsCancellation : Result → Prop
  | .error .cancelled => True
  | .error (.failure f) => f.kind = .operationCanceled
  | _ => False

/-- No further request is sent once a failure has been caught with a cancelled token. -/
def Owes : Op → CallState → Prop
  | .sendAsync _, s => s.caught = false
  | _, _ => True

def duty : Duty Op CallState := ⟨Owes, fun s => s.caught = false⟩

/-- **How a call ends**: with the cancellation, once a failure was caught with a cancelled token. -/
def Ends (result : Result) (s : CallState) : Prop := s.caught = true → IsCancellation result

section Call

variable {tryParseExact : List Char → Option Int} {retryCount : Int} {body : List UInt8}
  {s : CallState}

/-- The filter lets a cancellation through when the token is cancelled, and nothing else. -/
theorem isTransportFailure_ensures (f : Failure) (hs : Sound s) :
    Ensures (delayingWorld tryParseExact retryCount) duty (isTransportFailure f)
      (fun r s' => s'.begun = s.begun ∧ Sound s' ∧ (r = true → s'.caught = s.caught ∧ s'.response = s.response) ∧
        (r = false → f.kind = .operationCanceled) ∧
        (r = true → s.cancelled = true → f.kind ≠ .operationCanceled)) s := by
  unfold isTransportFailure
  cases hkind : f.kind with
  | httpRequest =>
      exact ⟨rfl, hs, fun _ => ⟨rfl, rfl⟩, fun h => by simp at h, fun _ _ h => by cases h⟩
  | io => exact ⟨rfl, hs, fun _ => ⟨rfl, rfl⟩, fun h => by simp at h, fun _ _ h => by cases h⟩
  | operationCanceled =>
      simp only [ensures_bind, ensures_perform]
      refine ⟨trivial, ?_⟩
      intro r s' hstep
      obtain ⟨hbegun, hasked, hframe, hsound⟩ := isCancellationRequested_step hstep.1
      refine ⟨hbegun, hsound hs, ?_, fun _ => trivial, ?_⟩
      · intro hr
        have hkept := hframe (by simpa using hr)
        exact ⟨hkept.caught, hkept.response⟩
      · intro hr hcancelled
        rw [hasked hcancelled] at hr
        cases hr

/-- What is left by reading a body: a failure caught with a cancelled token meets the condition. -/
structure AfterRead (retryCount : Int) (before : CallState) (failure : Option Failure)
    (s : CallState) : Prop where
  begun : s.begun = before.begun
  response : s.response = before.response
  sound : Sound s
  quiet : failure = none → s.caught = false
  condition : ∀ f, failure = some f → s.caught = true → f.kind = .operationCanceled ∨
    (int32 s.begun ≤ retryCount ∧ s.response.any fun r => isRetryableStatus r.statusCode)

/-- One read, of the stream or of its opening. -/
theorem afterRead_of_step {α : Type} {op : Op} {r : op.Ret} {s' : CallState}
    (answer : Except Failure α) (h : world op s r s') (hop : ∀ s t r s', Answers op s t r s' → s' = t)
    (hfail : isFailure op r = !answer.isOk) (hs : s.caught = false)
    (hcond : ∀ f, answer = .error f → s'.cancelled = true → f.kind = .operationCanceled ∨
      (int32 s'.begun ≤ retryCount ∧ s'.response.any fun r => isRetryableStatus r.statusCode)) :
    AfterRead retryCount s (match answer with
      | .error f => some f
      | .ok _ => none) s' := by
  obtain ⟨hbegun, hresponse, hcaught, hsound⟩ := read_step h hop
  rw [hs, Bool.false_or, hfail] at hcaught
  have hsound' : Sound s' := hsound fun h => by rw [hs] at h; cases h
  refine ⟨hbegun, hresponse, hsound', ?_, ?_⟩
  · intro hnone
    cases answer with
    | error f => cases hnone
    | ok a => exact hcaught
  · intro f hf hs'
    cases answer with
    | error g =>
        cases hf
        exact hcond f rfl (hsound' hs')
    | ok a => cases hf

theorem AfterRead.trans {failure : Option Failure} {t u : CallState}
    (h : AfterRead retryCount s none t) (h' : AfterRead retryCount t failure u) :
    AfterRead retryCount s failure u :=
  ⟨h'.begun.trans h.begun, h'.response.trans h.response, h'.sound, h'.quiet, h'.condition⟩

/-- The loop over the stream, by induction on the room left. -/
theorem readLoop_ensures (room : Nat) : ∀ (observed : List UInt8) (s : CallState),
    s.caught = false →
    Ensures (delayingWorld tryParseExact retryCount) duty (readLoop room observed)
      (fun r s' => AfterRead retryCount s r.2 s') s := by
  induction room using Nat.strong_induction_on with
  | _ room ih =>
      intro observed s hs
      have hstay : AfterRead retryCount s none s :=
        ⟨rfl, rfl, (fun h => by rw [hs] at h; cases h), fun _ => hs, fun f h => by cases h⟩
      rw [readLoop]
      by_cases hroom : 0 < room
      · rw [if_pos hroom]
        simp only [ensures_bind, ensures_perform]
        refine ⟨trivial, ?_⟩
        intro r s' hstep
        cases r with
        | error f =>
            apply afterRead_of_step (.error f : Except Failure (List UInt8)) hstep.1
            · exact fun _ _ _ _ h => h
            · rfl
            · exact hs
            · intro g hg
              cases hg
              exact hstep.2
        | ok chunk =>
            have hread : AfterRead retryCount s none s' := by
              apply afterRead_of_step (.ok chunk : Except Failure (List UInt8)) hstep.1
              · exact fun _ _ _ _ h => h
              · rfl
              · exact hs
              · intro g hg
                cases hg
            simp only
            by_cases hend : chunk = []
            · rw [if_pos hend]
              exact hread
            · rw [if_neg hend]
              have hlen : 0 < chunk.length := List.length_pos_iff.mpr hend
              apply (ih (room - chunk.length) (by omega) _ s' (hread.quiet rfl)).imp
              intro r s'' h
              exact hread.trans h
      · rw [if_neg hroom]
        exact hstay

/-- Reading a body. -/
theorem readBody_ensures (hs : s.caught = false) :
    Ensures (delayingWorld tryParseExact retryCount) duty readBody
      (fun r s' => AfterRead retryCount s r.2 s') s := by
  unfold readBody
  simp only [ensures_bind, ensures_perform]
  refine ⟨trivial, ?_⟩
  intro r s' hstep
  cases r with
  | error f =>
      apply afterRead_of_step (.error f : Except Failure Unit) hstep.1
      · exact fun _ _ _ _ h => h
      · rfl
      · exact hs
      · intro g hg
        cases hg
        exact hstep.2
  | ok u =>
      have hopen : AfterRead retryCount s none s' := by
        apply afterRead_of_step (.ok u : Except Failure Unit) hstep.1
        · exact fun _ _ _ _ h => h
        · rfl
        · exact hs
        · intro g hg
          cases hg
      apply (readLoop_ensures _ _ s' (hopen.quiet rfl)).imp
      intro r s'' h
      exact hopen.trans h

/-- What is left by an attempt with number `attempts`. -/
structure AfterAttempt (retryCount : Int) (before : CallState)
    (result : Except Failure ReceivedResponse) (s : CallState) : Prop where
  begun : s.begun = before.begun + 1
  sound : Sound s
  failed : ∀ f, result = .error f → s.caught = true →
    f.kind = .operationCanceled ∨ int32 s.begun ≤ retryCount
  received : ∀ response, result = .ok response → s.caught = true →
    int32 s.begun ≤ retryCount ∧ isRetryableStatus response.statusCode = true ∧
      ∃ r, s.response = some r ∧ response.retryAfter = r.retryAfter.head?

theorem attemptAsync_ensures (hs : s.caught = false) :
    Ensures (delayingWorld tryParseExact retryCount) duty (attemptAsync body)
      (AfterAttempt retryCount s) s := by
  unfold attemptAsync
  simp only [ensures_bind, ensures_perform]
  refine ⟨hs, ?_⟩
  intro r s₁ hstep
  obtain ⟨hbegun₁, hresponse₁, hcaught₁, hsound₁⟩ := send_step hstep.1 hs
  cases r with
  | error f =>
      refine ⟨hbegun₁, hsound₁, ?_, ?_⟩
      · intro g hg hcaught
        cases hg
        exact hstep.2 (hsound₁ hcaught)
      · intro response h
        cases h
  | ok response =>
      simp only [ensures_bind]
      apply (readBody_ensures hcaught₁).imp
      rintro ⟨observed, failure⟩ s₂ h₂
      have hbegun₂ := h₂.begun.trans hbegun₁
      have hresponse₂ := h₂.response.trans hresponse₁
      cases failure with
      | none =>
          refine ⟨hbegun₂, h₂.sound, ?_, ?_⟩
          · intro g hg
            cases hg
          · intro response' _ hcaught
            rw [h₂.quiet rfl] at hcaught
            cases hcaught
      | some f =>
          simp only [ensures_bind]
          apply (isTransportFailure_ensures f h₂.sound).imp
          intro transport s₃ h₃
          obtain ⟨hbegun₃, hsound₃, hkept₃, hother₃, hasked₃⟩ := h₃
          cases transport with
          | false =>
              refine ⟨hbegun₃.trans hbegun₂, hsound₃, ?_, ?_⟩
              · intro g hg _
                cases hg
                exact .inl (hother₃ rfl)
              · intro response' h
                cases h
          | true =>
              obtain ⟨hcaught₃, hresponse₃⟩ := hkept₃ rfl
              refine ⟨hbegun₃.trans hbegun₂, hsound₃, ?_, ?_⟩
              · intro g hg
                cases hg
              · intro response' hr hcaught
                cases hr
                rw [hcaught₃] at hcaught
                rcases h₂.condition f rfl hcaught with hkind | ⟨hlast, hstatus⟩
                · exact absurd hkind (hasked₃ rfl (h₂.sound hcaught))
                · rw [hresponse₂] at hstatus
                  rw [hbegun₃]
                  refine ⟨hlast, hstatus, response, ?_, rfl⟩
                  rw [hresponse₃, hresponse₂]
                  rfl

/-- A delay is agreed on after a caught failure, in an environment that meets the condition. -/
theorem clientRetryDelay_ensures {attempts : Int} {retryAfter : Option (List Char)}
    (hresponse : s.caught = true → retryAfter = none ∨
      ∃ r, s.response = some r ∧ retryAfter = r.retryAfter.head?) :
    Ensures (delayingWorld tryParseExact retryCount) duty
      (clientRetryDelay tryParseExact attempts retryAfter)
      (fun delay s' => Frame s s' ∧ (s.caught = true → delay ≠ none)) s := by
  unfold clientRetryDelay retryDelay
  simp only [ensures_bind, ensures_perform]
  refine ⟨trivial, ?_⟩
  intro now s₁ hclock
  have hframe₁ := quiet_step hclock.1 (fun _ _ _ _ h => h) rfl
  have hagreed : s.caught = true →
      asksTooMuch (parseRetryAfter tryParseExact retryAfter now) = false := by
    intro hcaught
    rcases hresponse hcaught with rfl | ⟨r, hr, rfl⟩
    · rfl
    · apply hclock.2
      · rw [hframe₁.caught, hcaught]
      · rw [hframe₁.response, hr]
  by_cases hmuch : asksTooMuch (parseRetryAfter tryParseExact retryAfter now) = true
  · rw [if_pos hmuch]
    refine ⟨hframe₁, ?_⟩
    intro hcaught
    rw [hagreed hcaught] at hmuch
    cases hmuch
  · rw [if_neg hmuch]
    simp only [ensures_bind, ensures_perform]
    refine ⟨trivial, ?_⟩
    intro drawn s₂ hdrawn
    have hframe := hframe₁.trans (quiet_step hdrawn.1 (fun _ _ _ _ h => h) rfl)
    cases parseRetryAfter tryParseExact retryAfter now with
    | some minimum => exact ⟨hframe, fun _ => Option.some_ne_none _⟩
    | none => exact ⟨hframe, fun _ => Option.some_ne_none _⟩

/-- A delay after a caught failure ends the call; otherwise the loop goes on. -/
theorem delay_ensures {duration : TimeSpan} {next : Program Result} (hs : Sound s)
    (hnext : ∀ s', s'.caught = false → s'.begun = s.begun →
      Ensures (delayingWorld tryParseExact retryCount) duty next Ends s') :
    Ensures (delayingWorld tryParseExact retryCount) duty (do
      if ← perform (.delay duration) then pure (.error .cancelled) else next) Ends s := by
  simp only [ensures_bind, ensures_perform]
  refine ⟨trivial, ?_⟩
  intro thrown s' hstep
  obtain ⟨hframe, hthrown⟩ := delay_step hstep.1
  cases thrown with
  | true => exact fun _ => trivial
  | false =>
      apply hnext s' _ hframe.begun
      rw [hframe.caught, Bool.eq_false_iff]
      intro hcaught
      cases hthrown (hs hcaught)

/-- **One turn after another**: a turn that goes on has caught nothing. -/
theorem trackAsync_ensures (fuel : Nat) : ∀ (attempts : Int) (s : CallState),
    s.caught = false → attempts = int32 s.begun →
    Ensures (delayingWorld tryParseExact retryCount) duty
      (trackAsync tryParseExact retryCount body fuel attempts) Ends s := by
  induction fuel with
  | zero =>
      intro attempts s hs _
      exact hs
  | succ fuel ih =>
      intro attempts s hs hattempts
      rw [trackAsync]
      simp only [ensures_bind, ensures_perform]
      refine ⟨trivial, ?_⟩
      intro cancelled s₁ htoken
      have hframe₁ := quiet_step htoken.1 (fun _ _ _ _ h => h.2) rfl
      have hs₁ : s₁.caught = false := hframe₁.caught.trans hs
      cases cancelled with
      | true => exact fun _ => trivial
      | false =>
          simp only [Bool.false_eq_true, if_false, ensures_bind]
          apply (attemptAsync_ensures hs₁).imp
          intro result s₂ h₂
          have hnumber : int32 (attempts + 1) = int32 s₂.begun := by
            rw [hattempts, int32_succ, h₂.begun, hframe₁.begun]
            rfl
          -- the next turn starts from the attempts made so far
          have hnext : ∀ t u : CallState, t.begun = s₂.begun → u.caught = false →
              u.begun = t.begun → Ensures (delayingWorld tryParseExact retryCount) duty
                (trackAsync tryParseExact retryCount body fuel (int32 (attempts + 1))) Ends u := by
            intro t u ht hu hut
            apply ih _ u hu
            rw [hnumber, hut, ht]
          cases result with
          | error f =>
              simp only [ensures_bind]
              apply (isTransportFailure_ensures f h₂.sound).imp
              intro transport s₃ h₃
              obtain ⟨hbegun₃, hsound₃, hkept₃, hother₃, hasked₃⟩ := h₃
              cases transport with
              | false => exact fun _ => hother₃ rfl
              | true =>
                  obtain ⟨hcaught₃, -⟩ := hkept₃ rfl
                  simp only [if_true]
                  by_cases hlast : int32 (attempts + 1) > retryCount
                  · rw [if_pos hlast]
                    intro hcaught
                    rw [hcaught₃] at hcaught
                    rcases h₂.failed f rfl hcaught with hkind | hleft
                    · exact absurd hkind (hasked₃ rfl (h₂.sound hcaught))
                    · rw [hnumber] at hlast
                      omega
                  · rw [if_neg hlast]
                    simp only [ensures_bind]
                    apply (clientRetryDelay_ensures fun _ => .inl rfl).imp
                    rintro delay s₄ ⟨hframe₄, -⟩
                    have hsound₄ : Sound s₄ := by
                      intro hcaught
                      rw [hframe₄.caught] at hcaught
                      exact hframe₄.cancelled (hsound₃ hcaught)
                    apply delay_ensures hsound₄
                    intro u hu hut
                    exact hnext s₄ u (hframe₄.begun.trans hbegun₃) hu hut
          | ok response =>
              simp only
              by_cases hretry : (isRetryableStatus response.statusCode
                  && decide (int32 (attempts + 1) ≤ retryCount)) = true
              · rw [if_pos hretry]
                simp only [ensures_bind]
                have hasks : s₂.caught = true → response.retryAfter = none ∨
                    ∃ r, s₂.response = some r ∧ response.retryAfter = r.retryAfter.head? :=
                  fun hcaught => .inr (h₂.received response rfl hcaught).2.2
                apply (clientRetryDelay_ensures hasks).imp
                rintro delay s₃ ⟨hframe₃, hagreed⟩
                cases delay with
                | none =>
                    intro hcaught
                    rw [hframe₃.caught] at hcaught
                    exact absurd rfl (hagreed hcaught)
                | some delay =>
                    have hsound₃ : Sound s₃ := by
                      intro hcaught
                      rw [hframe₃.caught] at hcaught
                      exact hframe₃.cancelled (h₂.sound hcaught)
                    apply delay_ensures hsound₃
                    intro u hu hut
                    exact hnext s₃ u hframe₃.begun hu hut
              · rw [if_neg hretry]
                intro hcaught
                obtain ⟨hleft, hstatus, -⟩ := h₂.received response rfl hcaught
                rw [hstatus, hnumber, decide_eq_true hleft] at hretry
                exact absurd rfl hretry

end Call

/-- **In every run whose failures meet the condition, cancellation is respected**: no request follows a
    failure caught with a cancelled token, and the call ends with the cancellation. -/
theorem trackAsync_cancelled (tryParseExact : List Char → Option Int) (retryCount : Int)
    (body : List UInt8) (fuel : Nat) (cancelled : Bool) (c : Config Op Op.Ret CallState Result)
    (hrun : Reaches (delayingWorld tryParseExact retryCount)
      (trackAsync tryParseExact retryCount body fuel 0, CallState.initial cancelled) c) :
    Meets duty Ends c := by
  have hzero : (0 : Int) = int32 (CallState.initial cancelled).begun := by
    exact (int32_eq (Int.le_refl 0) (by decide)).symm
  exact ensures_iff_reaches.mp (trackAsync_ensures fuel 0 _ rfl hzero) c hrun

/-- A request that is itself cancelled, on the only attempt. -/
theorem trackAsync_cancelled_request :
    Meets duty Ends
      ((.done (.error (.failure ⟨.operationCanceled, []⟩)), ⟨true, 1, none, true⟩) :
        Config Op Op.Ret CallState Result) := by
  obtain ⟨k, k', k'', hcheck, hsend, hask, hend⟩ : ∃ k k' k'',
      trackAsync (fun _ => none) 0 [] 1 0 = .call .throwIfCancellationRequested k ∧
      k false = .call (.sendAsync []) k' ∧
      k' (.error ⟨.operationCanceled, []⟩) = .call .isCancellationRequested k'' ∧
      k'' true = .done (.error (.failure ⟨.operationCanceled, []⟩)) :=
    ⟨_, _, _, rfl, rfl, rfl, rfl⟩
  have hfirst : delayingWorld (fun _ => none) 0 .throwIfCancellationRequested
      (CallState.initial false) false (CallState.initial false) :=
    ⟨⟨_, _, _, .still _, ⟨rfl, rfl⟩, .still _, rfl⟩, trivial⟩
  have hsecond : delayingWorld (fun _ => none) 0 (.sendAsync []) (CallState.initial false)
      (.error ⟨.operationCanceled, []⟩) ⟨true, 1, none, true⟩ :=
    ⟨⟨_, _, _, .cancel _, rfl, .still _, rfl⟩, fun _ => .inl rfl⟩
  have hthird : delayingWorld (fun _ => none) 0 .isCancellationRequested ⟨true, 1, none, true⟩
      true ⟨true, 1, none, true⟩ :=
    ⟨⟨_, _, _, .still _, ⟨rfl, rfl⟩, .still _, rfl⟩, trivial⟩
  apply trackAsync_cancelled (fun _ => none) 0 [] 1 false
  rw [hcheck, ← hend]
  refine .head (.answer hfirst) ?_
  rw [hsend]
  refine .head (.answer hsecond) ?_
  rw [hask]
  exact .single (.answer hthird)

/-- A connection that breaks while the caller cancels the only attempt is reported as a transport
    failure. -/
theorem trackAsync_reports_transport_failure :
    ¬ ∀ c, Reaches world (trackAsync (fun _ => none) 0 [] 1 0, CallState.initial false) c →
      Meets duty Ends c := by
  intro h
  have hone : int32 (0 + 1) = 1 := int32_eq (by decide) (by decide)
  obtain ⟨k, k', hcheck, hsend, hend⟩ : ∃ k k',
      trackAsync (fun _ => none) 0 [] 1 0 = .call .throwIfCancellationRequested k ∧
      k false = .call (.sendAsync []) k' ∧
      k' (.error ⟨.httpRequest, []⟩) =
        .done (.error (.transport (transportException ⟨.httpRequest, []⟩ 1))) := by
    refine ⟨_, _, rfl, rfl, ?_⟩
    simp only [hone]
    rfl
  have hfirst : world .throwIfCancellationRequested (CallState.initial false) false
      (CallState.initial false) := ⟨_, _, _, .still _, ⟨rfl, rfl⟩, .still _, rfl⟩
  have hsecond : world (.sendAsync []) (CallState.initial false) (.error ⟨.httpRequest, []⟩)
      ⟨true, 1, none, true⟩ := ⟨_, _, _, .cancel _, rfl, .still _, rfl⟩
  have hrun : Reaches world (trackAsync (fun _ => none) 0 [] 1 0, CallState.initial false)
      (.done (.error (.transport (transportException ⟨.httpRequest, []⟩ 1))),
        ⟨true, 1, none, true⟩) := by
    rw [hcheck, ← hend]
    refine .head (.answer hfirst) ?_
    rw [hsend]
    exact .single (.answer hsecond)
  exact h _ hrun rfl

end CekatEvents.Dotnet
