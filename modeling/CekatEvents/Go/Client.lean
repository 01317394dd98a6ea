/-
  CekatEvents.Go.Client — delivery with retries in the Go client (`client.go`).

  `deliver` and `doAttempt` are programs over the effects of the source: reading `ctx.Err()`, building
  and doing a request, reading a body, the clock, the jitter source, the retry observer and the sleep.
  The caller's context may become done at any time; the world of §3 is any environment that keeps the
  contract of `context.Context`.

  Main result: `deliver_respects_context`, over every configuration that a call reaches.
-/
import CekatEvents.Go.Retry
import CekatEvents.Effects.Program

namespace CekatEvents.Go

open CekatEvents.Http CekatEvents.Effects CekatEvents.Arithmetic

/-! ## §1. Effects. -/

/-- A response before its body is read. -/
structure Response where
  statusCode : Nat
  /-- `Header.Get("Retry-After")`: empty when absent. -/
  retryAfter : List Char

/-- The effects of a call.  The number of an attempt is not sent anywhere; `newRequest` carries it so
    that an attempt can be told from the one before. -/
inductive Op where
  | ctxErr
  | newRequest (attempt : Int) (body : Bytes)
  | httpDo
  | readAll
  | timeNow
  | jitter (upper : Duration)
  | observe (delay : Duration)
  | sleep (delay : Duration)

/-- What an effect answers; an `error` that is nil is `none`. -/
abbrev Op.Ret : Op → Type
  | ctxErr => Option Cause
  | newRequest _ _ => Option Cause
  | httpDo => Except Cause Response
  | readAll => Observed
  | timeNow => Int
  | jitter _ => Duration
  | observe _ => Unit
  | sleep _ => Option Cause

/-- A program of the client. -/
abbrev Program (α : Type) := Prog Op Op.Ret α

/-- One effect. -/
abbrev perform (op : Op) : Program op.Ret := Prog.perform op

/-- How a call ends. -/
inductive Ending where
  | returned (acknowledgement : Option Acknowledgement) (err : Option Error)
  | panicked (message : List Char)

/-- `attemptResult`; `retryAfter` is present when `hasRetryAfter` is set. -/
structure AttemptResult where
  acknowledgement : Option Acknowledgement
  err : Option Error
  retryable : Bool
  retryAfter : Option Duration

/-! ## §2. The loop. -/

/-- What the loop depends on besides its effects. -/
structure Env where
  json : EncodingJson
  parseTime : List Char → Option Int
  maxInt : Nat

def retryCountAttemptBoundsMessage : List Char :=
  "retry count must be no greater than maximum int minus one so total attempts are representable".toList

section Loop

variable (env : Env) (body : Bytes)

/-- The part of `doAttempt` after a response has been received. -/
def finishAttempt (response : Response) (attempt : Int) : Program AttemptResult := do
  let observed ← perform .readAll
  match decodeResponse env.json response.statusCode observed attempt with
  | .ok acknowledgement => pure ⟨some acknowledgement, none, false, none⟩
  | .error err =>
      if isRetryableStatus response.statusCode then do
        let now ← perform .timeNow
        pure ⟨none, some err, true, parseRetryAfter env.parseTime response.retryAfter now⟩
      else pure ⟨none, some err, false, none⟩

/-- `doAttempt`.  The context of the attempt, which also ends at the timeout, shows itself only in
    what the request and the body answer. -/
def doAttempt (attempt : Int) : Program AttemptResult := do
  match ← perform (.newRequest attempt body) with
  | some err => pure ⟨none, some (.transport
      ⟨"failed to create request".toList, attempt, false, err⟩), false, none⟩
  | none =>
      match ← perform .httpDo with
      | .error err =>
          match ← perform .ctxErr with
          | some _ => do
              let ctxErr ← perform .ctxErr
              pure ⟨none, ctxErr.map .context, false, none⟩
          | none => pure ⟨none, some (.transport
              ⟨"Cekat API request failed before a response was received".toList, attempt, true,
                err⟩), true, none⟩
      | .ok response => finishAttempt env response attempt

/-- The delay before a retry: the jitter, or what the server asked for when that is longer. -/
def retryDelay (retryAfter : Option Duration) (jitter : Duration) : Duration :=
  match retryAfter with
  | some requested => if jitter < requested then requested else jitter
  | none => jitter

/-- The `for` of `deliver`, for at most `fuel` turns. -/
def deliverLoop (attempts : Int) : Nat → Int → Program Ending
  | 0, _ => .cutOff
  | fuel + 1, attempt =>
      if attempt ≤ attempts then do
        match ← perform .ctxErr with
        | some err => pure (.returned none (some (.context err)))
        | none => do
            let result ← doAttempt env body attempt
            match result.err with
            | none => pure (.returned result.acknowledgement none)
            | some err =>
                match ← perform .ctxErr with
                | some _ => do
                    let ctxErr ← perform .ctxErr
                    pure (.returned none (ctxErr.map .context))
                | none =>
                    if !result.retryable || attempt = attempts then pure (.returned none (some err))
                    else if result.retryAfter.any fun d => decide (maximumRetryAfter < d) then
                      pure (.returned none (some err))
                    else do
                      let jitter ← perform (.jitter (retryMaximum attempt))
                      let delay := retryDelay result.retryAfter jitter
                      perform (.observe delay)
                      match ← perform (.sleep delay) with
                      | some _ => do
                          let ctxErr ← perform .ctxErr
                          pure (.returned none (ctxErr.map .context))
                      | none => deliverLoop attempts fuel (wrap env.maxInt (attempt + 1))
      else pure (.panicked "unreachable".toList)

/-- `deliver`. -/
def deliver (retryCount : Int) (fuel : Nat) : Program Ending :=
  match retryAttempts env.maxInt retryCount with
  | none => pure (.returned none (some (.validation retryCountAttemptBoundsMessage)))
  | some attempts => deliverLoop env body attempts fuel 1

end Loop

/-! ## §3. The caller's context. -/

/-- The context, and what has happened in the call so far. -/
structure CallState where
  /-- What `ctx.Err()` returns: not nil from when the context is done. -/
  context : Option Cause
  /-- Attempts begun. -/
  begun : Nat
  /-- The status of the last response. -/
  statusCode : Nat
  /-- What the client decodes the body it has read to. -/
  acknowledged : Option Acknowledgement

/-- The state in which a call begins. -/
def CallState.initial (context : Option Cause) : CallState := ⟨context, 0, 0, none⟩

/-- While time passes the context may become done; it stays so. -/
inductive Elapse : CallState → CallState → Prop
  | still (s : CallState) : Elapse s s
  | done (s : CallState) (err : Cause) (h : s.context = none) : Elapse s { s with context := some err }

/-- What an effect may answer.  `ctx.Err()` tells whether the context is done, and a sleep returns an
    error only when it is; every other answer is up to the environment. -/
def Answers (env : Env) : (op : Op) → CallState → op.Ret → CallState → Prop
  | .ctxErr, s, r, s' => r = s.context ∧ s' = s
  | .newRequest _ _, s, _, s' => s' = { s with begun := s.begun + 1 }
  | .httpDo, s, r, s' =>
      s' = match r with
        | .ok response => { s with statusCode := response.statusCode }
        | .error _ => s
  | .readAll, s, r, s' =>
      s' = { s with acknowledged := (decodeResponse env.json s.statusCode r s.begun).toOption }
  | .sleep _, s, r, s' => (r ≠ none → s.context ≠ none) ∧ s' = s
  | .timeNow, s, _, s' => s' = s
  | .jitter _, s, _, s' => s' = s
  | .observe _, s, _, s' => s' = s

/-- **Any environment**: time passes before each answer, and the context may become done in it.  What
    becomes done between two effects is done when the second one is answered, so that the state beside
    a program is that of the moment: the one in which an attempt has returned, or a sleep has ended. -/
def world (env : Env) : World Op Op.Ret CallState := fun op s r s' =>
  ∃ t, Elapse s t ∧ Answers env op t r s'

/-! ## §4. What one answer does to the state of a call. -/

/-- The call is where it was; only the context may have become done. -/
structure Keeps (s s' : CallState) : Prop where
  begun : s'.begun = s.begun
  statusCode : s'.statusCode = s.statusCode
  acknowledged : s'.acknowledged = s.acknowledged
  context : ∀ err, s.context = some err → s'.context = some err

theorem Keeps.refl (s : CallState) : Keeps s s := ⟨rfl, rfl, rfl, fun _ h => h⟩

theorem Keeps.trans {s t u : CallState} (h : Keeps s t) (h' : Keeps t u) : Keeps s u where
  begun := h'.begun.trans h.begun
  statusCode := h'.statusCode.trans h.statusCode
  acknowledged := h'.acknowledged.trans h.acknowledged
  context := fun err hs => h'.context err (h.context err hs)

theorem Elapse.keeps {s s' : CallState} (h : Elapse s s') : Keeps s s' := by
  cases h with
  | still => exact Keeps.refl s
  | done err hnone =>
      refine ⟨rfl, rfl, rfl, ?_⟩
      intro err' hs
      rw [hnone] at hs
      cases hs

section Steps

variable {env : Env} {s s' : CallState}

/-- A check of the context tells whether it is done. -/
theorem ctxErr_step {r : Option Cause} (h : world env .ctxErr s r s') : Keeps s s' ∧ r = s'.context := by
  obtain ⟨t, ht, rfl, rfl⟩ := h
  exact ⟨ht.keeps, rfl⟩

/-- Beginning an attempt counts it. -/
theorem newRequest_step {attempt : Int} {body : Bytes} {r : Option Cause}
    (h : world env (.newRequest attempt body) s r s') :
    s'.begun = s.begun + 1 ∧ s'.acknowledged = s.acknowledged := by
  obtain ⟨t, ht, rfl⟩ := h
  exact ⟨by rw [← ht.keeps.begun], ht.keeps.acknowledged⟩

/-- A request done leaves the attempt where it was, and a response leaves its status. -/
theorem httpDo_step {r : Except Cause Response} (h : world env .httpDo s r s') :
    s'.begun = s.begun ∧ s'.acknowledged = s.acknowledged ∧
      ∀ response, r = .ok response → s'.statusCode = response.statusCode := by
  obtain ⟨t, ht, hs'⟩ := h
  cases r with
  | error err =>
      cases hs'
      exact ⟨ht.keeps.begun, ht.keeps.acknowledged, by rintro _ ⟨⟩⟩
  | ok response =>
      cases hs'
      refine ⟨ht.keeps.begun, ht.keeps.acknowledged, ?_⟩
      rintro _ ⟨⟩
      rfl

/-- A body read leaves what the client decodes it to. -/
theorem readAll_step {r : Observed} (h : world env .readAll s r s') : s'.begun = s.begun ∧
    s'.acknowledged = (decodeResponse env.json s.statusCode r s.begun).toOption := by
  obtain ⟨t, ht, rfl⟩ := h
  refine ⟨ht.keeps.begun, ?_⟩
  rw [← ht.keeps.statusCode, ← ht.keeps.begun]

/-- A sleep returns an error only when the context is done. -/
theorem sleep_step {delay : Duration} {r : Option Cause} (h : world env (.sleep delay) s r s') :
    Keeps s s' ∧ (r ≠ none → s'.context ≠ none) := by
  obtain ⟨t, ht, hr, rfl⟩ := h
  exact ⟨ht.keeps, hr⟩

/-- The clock, the jitter source and the observer leave the call where it was. -/
theorem quiet_step {op : Op} {r : op.Ret} (h : world env op s r s')
    (hop : ∀ s r s', Answers env op s r s' → s' = s) : Keeps s s' := by
  obtain ⟨t, ht, hs'⟩ := h
  cases hop t r s' hs'
  exact ht.keeps

end Steps

/-! ## §5. What a call owes its caller. -/

/-- What must hold whenever a call has an effect: an acknowledgement, once decoded, is returned at once;
    attempts are numbered in order up to the last one allowed, and none begins when the context is
    done. -/
def Owes (retryCount : Int) : Op → CallState → Prop
  | .newRequest attempt _, s =>
      s.acknowledged = none ∧ s.context = none ∧ attempt = s.begun + 1 ∧ attempt ≤ retryCount + 1
  | _, s => s.acknowledged = none

/-- The duty of a call: a loop of more turns than retries is not cut off. -/
def duty (retryCount : Int) (fuel : Nat) : Duty Op CallState :=
  ⟨Owes retryCount, fun _ => (fuel : Int) ≤ retryCount⟩

/-- **How a call ends**: with the acknowledgement, once one was decoded; else with `ctx.Err()`, when the
    context is done; else with an error of the client.  It never panics. -/
def Ends : Ending → CallState → Prop
  | .returned acknowledgement err, s =>
      match s.acknowledged, s.context with
      | some a, _ => acknowledgement = some a ∧ err = none
      | none, some e => acknowledgement = none ∧ err = some (.context e)
      | none, none => acknowledgement = none ∧ ∃ e, err = some e ∧ e.IsSdk
  | .panicked _, _ => False

theorem ends_acknowledged {s : CallState} {a : Acknowledgement} (h : s.acknowledged = some a) :
    Ends (.returned (some a) none) s := by
  simp only [Ends, h, and_self]

theorem ends_context {s : CallState} {e : Cause} (ha : s.acknowledged = none) (h : s.context = some e) :
    Ends (.returned none (some (.context e))) s := by
  simp only [Ends, ha, h, and_self]

theorem ends_sdk {s : CallState} {e : Error} (ha : s.acknowledged = none) (h : s.context = none)
    (he : e.IsSdk) : Ends (.returned none (some e)) s := by
  simp only [Ends, ha, h]
  exact ⟨trivial, e, rfl, he⟩

/-- Before the check of the context in turn `n`. -/
structure AtTurn (n : Nat) (s : CallState) : Prop where
  begun : s.begun + 1 = n
  acknowledged : s.acknowledged = none

/-- After attempt `n`: an acknowledgement is the decoded one, and an error that is not one of the client
    was returned with the context done. -/
structure AfterAttempt (n : Nat) (result : AttemptResult) (s : CallState) : Prop where
  begun : s.begun = n
  outcome : (∃ a, s.acknowledged = some a ∧ result.err = none ∧ result.acknowledgement = some a) ∨
    (s.acknowledged = none ∧ ∃ e, result.err = some e ∧ (e.IsSdk ∨ s.context ≠ none))

section Call

variable {env : Env} {body : Bytes} {retryCount : Int} {fuel : Nat} {n : Nat} {s : CallState}

/-- Reading and decoding a response. -/
theorem finishAttempt_ensures {response : Response} (hbegun : s.begun = n) (hack : s.acknowledged = none)
    (hstatus : s.statusCode = response.statusCode) :
    Ensures (world env) (duty retryCount fuel) (finishAttempt env response n)
      (AfterAttempt n) s := by
  unfold finishAttempt
  simp only [ensures_bind, ensures_perform]
  refine ⟨hack, ?_⟩
  intro observed s₁ hread
  obtain ⟨hbegun₁, hack₁⟩ := readAll_step hread
  rw [hbegun] at hbegun₁
  rw [hstatus, hbegun] at hack₁
  cases hdec : decodeResponse env.json response.statusCode observed n with
  | ok acknowledgement =>
      rw [hdec] at hack₁
      exact ⟨hbegun₁, .inl ⟨acknowledgement, hack₁, rfl, rfl⟩⟩
  | error err =>
      have hsdk := decodeResponse_isSdk env.json hdec
      rw [hdec] at hack₁
      simp only
      by_cases hretry : isRetryableStatus response.statusCode = true
      · rw [if_pos hretry]
        simp only [ensures_bind, ensures_perform]
        refine ⟨hack₁, ?_⟩
        intro now s₂ hnow
        have hkeeps := quiet_step hnow fun s r s' h => h
        refine ⟨hkeeps.begun.trans hbegun₁, .inr ?_⟩
        exact ⟨hkeeps.acknowledged.trans hack₁, err, rfl, .inl hsdk⟩
      · rw [if_neg hretry]
        exact ⟨hbegun₁, .inr ⟨hack₁, err, rfl, .inl hsdk⟩⟩

/-- One attempt. -/
theorem doAttempt_ensures (h : AtTurn n s) (hctx : s.context = none) (hn : (n : Int) ≤ retryCount + 1) :
    Ensures (world env) (duty retryCount fuel) (doAttempt env body n) (AfterAttempt n) s := by
  unfold doAttempt
  simp only [ensures_bind, ensures_perform]
  have hnumber : (n : Int) = s.begun + 1 := by
    have hbegun := h.begun
    omega
  refine ⟨⟨h.acknowledged, hctx, hnumber, hn⟩, ?_⟩
  intro r s₁ hnew
  obtain ⟨hbegun₁, hack₁⟩ := newRequest_step hnew
  rw [h.begun] at hbegun₁
  rw [h.acknowledged] at hack₁
  cases r with
  | some err => exact ⟨hbegun₁, .inr ⟨hack₁, _, rfl, .inl trivial⟩⟩
  | none =>
      simp only [ensures_bind, ensures_perform]
      refine ⟨hack₁, ?_⟩
      intro answer s₂ hdo
      obtain ⟨hbegun₂, hack₂, hstatus⟩ := httpDo_step hdo
      rw [hbegun₁] at hbegun₂
      rw [hack₁] at hack₂
      cases answer with
      | ok response => exact finishAttempt_ensures hbegun₂ hack₂ (hstatus response rfl)
      | error err =>
          simp only [ensures_bind, ensures_perform]
          refine ⟨hack₂, ?_⟩
          intro r s₃ hcheck
          obtain ⟨hkeeps₃, hr⟩ := ctxErr_step hcheck
          cases r with
          | none =>
              refine ⟨hkeeps₃.begun.trans hbegun₂, .inr ?_⟩
              exact ⟨hkeeps₃.acknowledged.trans hack₂, _, rfl, .inl trivial⟩
          | some e =>
              simp only [ensures_bind, ensures_perform]
              refine ⟨hkeeps₃.acknowledged.trans hack₂, ?_⟩
              intro r s₄ hagain
              obtain ⟨hkeeps₄, hr₄⟩ := ctxErr_step hagain
              have hdone : s₄.context = some e := hkeeps₄.context e hr.symm
              rw [hdone] at hr₄
              have hkeeps := hkeeps₃.trans hkeeps₄
              refine ⟨hkeeps.begun.trans hbegun₂, .inr ⟨hkeeps.acknowledged.trans hack₂, .context e, ?_, ?_⟩⟩
              · rw [hr₄]
                rfl
              · rw [hdone]
                exact .inr (Option.some_ne_none e)

/-- Returning `ctx.Err()` once the context is done. -/
theorem ctxErr_ends (hack : s.acknowledged = none) {e : Cause} (he : s.context = some e) :
    Ensures (world env) (duty retryCount fuel) (do
      let ctxErr ← perform .ctxErr
      pure (Ending.returned none (ctxErr.map .context))) Ends s := by
  simp only [ensures_bind, ensures_perform]
  refine ⟨hack, ?_⟩
  intro r s' hcheck
  obtain ⟨hkeeps, hr⟩ := ctxErr_step hcheck
  have hdone := hkeeps.context e he
  rw [hr, hdone]
  exact ends_context (hkeeps.acknowledged.trans hack) hdone

/-- **One turn after another.**  The induction is on the turns left; a turn that goes on hands the next one
    the state `AtTurn`. -/
theorem deliverLoop_ensures (hmax : retryCount < env.maxInt) (left : Nat) :
    ∀ (n : Nat) (s : CallState), 1 ≤ n → (n : Int) ≤ retryCount + 1 → n + left = fuel + 1 →
      AtTurn n s →
      Ensures (world env) (duty retryCount fuel)
        (deliverLoop env body (retryCount + 1) left n) Ends s := by
  induction left with
  | zero =>
      intro n s _ hn hleft _
      show (fuel : Int) ≤ retryCount
      omega
  | succ left ih =>
      intro n s h1 hn hleft h
      rw [deliverLoop, if_pos hn]
      simp only [ensures_bind, ensures_perform]
      refine ⟨h.acknowledged, ?_⟩
      intro r s₁ hcheck
      obtain ⟨hkeeps₁, hr₁⟩ := ctxErr_step hcheck
      have hat : AtTurn n s₁ :=
        ⟨by rw [hkeeps₁.begun, h.begun], hkeeps₁.acknowledged.trans h.acknowledged⟩
      cases r with
      | some err => exact ends_context hat.acknowledged hr₁.symm
      | none =>
          simp only [ensures_bind]
          apply (doAttempt_ensures hat hr₁.symm hn).imp
          intro result s₂ h₂
          rcases h₂.outcome with ⟨a, hack₂, herr, hresult⟩ | ⟨hack₂, e, herr, hkind⟩
          · rw [herr, hresult]
            exact ends_acknowledged hack₂
          · rw [herr]
            simp only [ensures_bind, ensures_perform]
            refine ⟨hack₂, ?_⟩
            intro r s₃ hcheck₃
            obtain ⟨hkeeps₃, hr₃⟩ := ctxErr_step hcheck₃
            have hack₃ := hkeeps₃.acknowledged.trans hack₂
            cases r with
            | some c => exact ctxErr_ends hack₃ hr₃.symm
            | none =>
                -- the context is not done, so the error is one of the client
                have hsdk : e.IsSdk := by
                  rcases hkind with hsdk | hdone
                  · exact hsdk
                  · obtain ⟨c, hc⟩ := Option.ne_none_iff_exists'.mp hdone
                    rw [hkeeps₃.context c hc] at hr₃
                    cases hr₃
                have hends := ends_sdk hack₃ hr₃.symm hsdk
                simp only
                by_cases hlast : (!result.retryable || decide ((n : Int) = retryCount + 1)) = true
                · rw [if_pos hlast]
                  exact hends
                · rw [if_neg hlast]
                  have hlt : (n : Int) ≤ retryCount := by
                    have hne : (n : Int) ≠ retryCount + 1 := by
                      intro he
                      apply hlast
                      simp [he]
                    omega
                  split_ifs
                  · exact hends
                  · simp only [ensures_bind, ensures_perform]
                    refine ⟨hack₃, ?_⟩
                    intro jitter s₄ hjitter
                    have h₄ := quiet_step hjitter fun s r s' h => h
                    refine ⟨h₄.acknowledged.trans hack₃, ?_⟩
                    intro _ s₅ hobserve
                    have h₅ := h₄.trans (quiet_step hobserve fun s r s' h => h)
                    refine ⟨h₅.acknowledged.trans hack₃, ?_⟩
                    intro r s₆ hsleep
                    obtain ⟨hkeeps₆, hdone₆⟩ := sleep_step hsleep
                    have h₆ := h₅.trans hkeeps₆
                    have hack₆ := h₆.acknowledged.trans hack₃
                    cases r with
                    | some c =>
                        obtain ⟨d, hd⟩ := Option.ne_none_iff_exists'.mp
                          (hdone₆ (Option.some_ne_none c))
                        exact ctxErr_ends hack₆ hd
                    | none =>
                        have hnext : wrap env.maxInt ((n : Int) + 1) = ((n + 1 : Nat) : Int) := by
                          rw [wrap_eq (by omega) (by omega)]
                          rfl
                        rw [hnext]
                        apply ih
                        · omega
                        · omega
                        · omega
                        · refine ⟨?_, hack₆⟩
                          rw [h₆.begun, hkeeps₃.begun, h₂.begun]

end Call

/-- **A call respects its context**, in every configuration that any run of it reaches. -/
theorem deliver_respects_context (env : Env) (body : Bytes) (retryCount : Int) (fuel : Nat)
    (context : Option Cause) (hlo : 0 ≤ retryCount) (hhi : retryCount < env.maxInt)
    (c : Config Op Op.Ret CallState Ending)
    (hrun : Reaches (world env) (deliver env body retryCount fuel, CallState.initial context) c) :
    Meets (duty retryCount fuel) Ends c := by
  have hall : Ensures (world env) (duty retryCount fuel) (deliver env body retryCount fuel) Ends
      (CallState.initial context) := by
    unfold deliver
    rw [retryAttempts_eq hlo hhi]
    apply deliverLoop_ensures hhi fuel 1
    · exact Nat.le_refl 1
    · omega
    · omega
    · exact ⟨rfl, rfl⟩
  exact ensures_iff_reaches.mp hall c hrun

/-- A 32-bit client to which no body is an envelope and no text a date. -/
def Env.barren : Env :=
  ⟨⟨fun _ => .error [], fun _ => .error [], fun _ => .error [], fun _ => .error [],
    fun _ => .error []⟩, fun _ => none, 2147483647⟩

/-- An environment in which the first attempt has no response, the second is answered by a 503, and the
    context is cancelled during the sleep that follows, at whose end its timer fires as well. -/
def cancelling : Handler Op Op.Ret CallState
  | .ctxErr, s => (s.context, s)
  | .newRequest _ _, s => (none, { s with begun := s.begun + 1 })
  | .httpDo, s =>
      if s.begun = 1 then (.error "timeout".toList, s) else (.ok ⟨503, []⟩, { s with statusCode := 503 })
  | .readAll, s => (⟨[], none⟩,
      { s with acknowledged := (decodeResponse Env.barren.json s.statusCode ⟨[], none⟩ s.begun).toOption })
  | .timeNow, s => (0, s)
  | .jitter upper, s => (upper, s)
  | .observe _, s => ((), s)
  | .sleep _, s =>
      (none, if s.begun = 2 ∧ s.context = none then { s with context := some "context canceled".toList } else s)

/-- The call ends with `ctx.Err()` after two attempts, though it has retries left. -/
theorem deliver_respects_context_cancelled :
    Meets (duty 3 4) Ends
      ((.done (.returned none (some (.context "context canceled".toList))),
        ⟨some "context canceled".toList, 2, 503, none⟩) : Config Op Op.Ret CallState Ending) := by
  apply deliver_respects_context Env.barren [] 3 4 none (by decide) (by decide)
  apply reaches_of_run (h := cancelling)
  · intro op s
    cases op with
    | ctxErr => exact ⟨s, .still s, rfl, rfl⟩
    | newRequest attempt body => exact ⟨s, .still s, rfl⟩
    | httpDo =>
        refine ⟨s, .still s, ?_⟩
        by_cases hfirst : s.begun = 1
        · simp only [cancelling, if_pos hfirst, Answers]
        · simp only [cancelling, if_neg hfirst, Answers]
    | readAll => exact ⟨s, .still s, rfl⟩
    | timeNow => exact ⟨s, .still s, rfl⟩
    | jitter upper => exact ⟨s, .still s, rfl⟩
    | observe delay => exact ⟨s, .still s, rfl⟩
    | sleep delay =>
        by_cases hcancel : s.begun = 2 ∧ s.context = none
        · exact ⟨_, .done s _ hcancel.2, fun hne => absurd rfl hne, if_pos hcancel⟩
        · exact ⟨s, .still s, fun hne => absurd rfl hne, if_neg hcancel⟩
  · rfl

end CekatEvents.Go
