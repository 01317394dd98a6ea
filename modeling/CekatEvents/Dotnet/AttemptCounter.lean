/-
  CekatEvents.Dotnet.AttemptCounter — the attempt counter of `TrackAsync` at the end of its range
  (`CekatClient.cs`, `Internal/OptionsValidator.cs`).

  The counter is an `int` and the loop ends once it is above `RetryCount`; the validator accepts every
  `RetryCount` from zero on.  In `unreachable` no attempt gets a response.  `checkedTrack` is the loop
  that stops short where the counter would wrap, or where a retry number is below one.

  Main result: `accepted_gives_up_iff` — the call gives up after `RetryCount + 1` attempts exactly for
  the accepted values below the largest `int`.
-/
import CekatEvents.Dotnet.Client
import CekatEvents.Dotnet.EventPayload
import CekatEvents.Effects.Outcome

namespace CekatEvents.Dotnet

open CekatEvents.Http CekatEvents.Effects CekatEvents.Arithmetic

/-! ## §1. Options. -/

/-- `CekatClientOptions`; the base URL is what the platform makes of it. -/
structure CekatClientOptions (BaseUrl : Type) where
  accessToken : Option (List Encoding.CodeUnit)
  baseUrl : BaseUrl
  timeout : TimeSpan
  retryCount : Int
  retryCount_int : int32 retryCount = retryCount

structure ValidatedOptions (Endpoint : Type) where
  accessToken : Option (List Encoding.CodeUnit)
  endpoint : Endpoint
  timeout : TimeSpan
  retryCount : Int

/-- `MaximumTimeout`, which is `int.MaxValue` milliseconds. -/
def maximumTimeout : TimeSpan := maxInt32 * ticksPerMillisecond

/-- `OptionsValidator.Validate`, over the check of the base URL. -/
def validate {BaseUrl Endpoint : Type} (normalizeOrigin : BaseUrl → Except String Endpoint)
    (options : Option (CekatClientOptions BaseUrl)) : Except String (ValidatedOptions Endpoint) :=
  match options with
  | none => .error "options are required"
  | some options =>
      if EventPayload.isNullOrWhiteSpace options.accessToken then
        .error "access token must be a non-empty string"
      else if options.timeout ≤ 0 ∨ maximumTimeout < options.timeout then
        .error "timeout must be greater than zero and at most int.MaxValue milliseconds"
      else if options.retryCount < 0 then .error "retry count must not be negative"
      else (normalizeOrigin options.baseUrl).map fun endpoint =>
        ⟨options.accessToken, endpoint, options.timeout, options.retryCount⟩

/-! ## §2. The loop and what it asks of its parts. -/

section Loop

variable (tryParseExact : List Char → Option Int) (retryCount : Int) (body : List UInt8)

/-- `TrackAsync` over its increment and its call of `RetryDelay`. -/
def trackWith (increment : Int → Program Int)
    (retryDelay : Int → Option (List Char) → Program (Option TimeSpan)) : Nat → Int → Program Result
  | 0, _ => .cutOff
  | fuel + 1, attemptsBefore => do
      if ← perform .throwIfCancellationRequested then pure (.error .cancelled)
      else do
        let attempts ← increment attemptsBefore
        match ← attemptAsync body with
        | .error f => do
            if ← isTransportFailure f then
              if attempts > retryCount then
                pure (.error (.transport (transportException f attempts)))
              else do
                let delay ← retryDelay attempts none
                if ← perform (.delay (delay.getD 0)) then pure (.error .cancelled)
                else trackWith increment retryDelay fuel attempts
            else pure (.error (.failure f))
        | .ok response =>
            if isRetryableStatus response.statusCode && decide (attempts ≤ retryCount) then do
              match ← retryDelay attempts response.retryAfter with
              | some delay => do
                  if ← perform (.delay delay) then pure (.error .cancelled)
                  else trackWith increment retryDelay fuel attempts
              | none => pure ((decode response attempts).mapError .decoding)
            else pure ((decode response attempts).mapError .decoding)

/-- `attempts++`. -/
def increment (attempts : Int) : Program Int := pure (int32 (attempts + 1))

/-- The increment, cut off where it would wrap. -/
def checkedIncrement (attempts : Int) : Program Int :=
  if attempts + 1 ≤ maxInt32 then pure (attempts + 1) else .cutOff

/-- `RetryDelay`, cut off where the retry number is below one. -/
def checkedRetryDelay (attempts : Int) (retryAfter : Option (List Char)) :
    Program (Option TimeSpan) :=
  if 1 ≤ attempts then clientRetryDelay tryParseExact attempts retryAfter else .cutOff

/-- The loop that is cut off where the counter wraps or a retry number is below one. -/
def checkedTrack : Nat → Int → Program Result :=
  trackWith retryCount body checkedIncrement (checkedRetryDelay tryParseExact)

/-- The loop of the source is the loop over the source's own parts. -/
theorem trackAsync_eq (fuel : Nat) (attempts : Int) :
    trackAsync tryParseExact retryCount body fuel attempts =
      trackWith retryCount body increment (clientRetryDelay tryParseExact) fuel attempts := by
  induction fuel generalizing attempts with
  | zero => rfl
  | succ fuel ih =>
      rw [trackAsync, trackWith]
      simp only [ih]
      rfl

end Loop

/-! ## §3. No response. -/

/-- What the environment answers when no attempt gets a response: the request fails as a transport does,
    the token is not cancelled and no delay throws.  The state counts the requests. -/
def Fails : (op : Op) → Nat → op.Ret → Nat → Prop
  | .throwIfCancellationRequested, sent, r, sent' => r = false ∧ sent' = sent
  | .isCancellationRequested, sent, r, sent' => r = false ∧ sent' = sent
  | .sendAsync _, sent, r, sent' => (∃ f, r = .error f) ∧ sent' = sent + 1
  | .delay _, sent, r, sent' => r = false ∧ sent' = sent
  | .readAsStreamAsync, sent, _, sent' => sent' = sent
  | .readAsync _, sent, _, sent' => sent' = sent
  | .getUtcNow, sent, _, sent' => sent' = sent
  | .jitter _, sent, _, sent' => sent' = sent

/-- Any environment in which no attempt gets a response. -/
def unreachable : World Op Op.Ret Nat := Fails

/-- A program may call what it likes and is never cut off. -/
def endless : Duty Op Nat := ⟨fun _ _ => True, fun _ => False⟩

/-- **The end the documentation promises**: the transport exception, after one attempt more than there are
    retries, with their number. -/
def GaveUp (retryCount : Int) (result : Result) (sent : Nat) : Prop :=
  (sent : Int) = retryCount + 1 ∧
    ∃ f, result = .error (.transport (transportException f (retryCount + 1)))

/-- The loop comes to that end in every run, however many turns it may take beyond those it needs. -/
def GivesUp (retryCount : Int) (loop : Nat → Int → Program Result) : Prop :=
  ∃ enough, ∀ fuel, enough ≤ fuel → Ensures unreachable endless (loop fuel 0) (GaveUp retryCount) 0

/-- **What a call without a response does by the documentation**: it gives up; its counter does not wrap
    and its retry numbers are at least one, so the checked loop gives up as well. -/
def Documented (retryCount : Int) : Prop :=
  ∀ tryParseExact body, GivesUp retryCount (trackAsync tryParseExact retryCount body) ∧
    GivesUp retryCount (checkedTrack tryParseExact retryCount body)

section Runs

variable {tryParseExact : List Char → Option Int} {retryCount : Int} {body : List UInt8} {sent : Nat}

/-- Every failure is one of the transport. -/
theorem isTransportFailure_unreachable (f : Failure) {Q : Bool → Nat → Prop} (h : Q true sent) :
    Ensures unreachable endless (isTransportFailure f) Q sent := by
  unfold isTransportFailure
  cases f.kind with
  | httpRequest => exact h
  | io => exact h
  | operationCanceled =>
      refine ⟨trivial, ?_⟩
      rintro r sent' ⟨rfl, rfl⟩
      exact h

/-- An attempt sends one request, which fails. -/
theorem attemptAsync_unreachable {Q : Except Failure ReceivedResponse → Nat → Prop}
    (h : ∀ f, Q (.error f) (sent + 1)) :
    Ensures unreachable endless (attemptAsync body) Q sent := by
  unfold attemptAsync
  rw [ensures_bind, ensures_perform]
  refine ⟨trivial, ?_⟩
  rintro r sent' ⟨⟨f, rfl⟩, rfl⟩
  exact h f

/-- `RetryDelay` sends nothing. -/
theorem clientRetryDelay_unreachable (attempts : Int) {Q : Option TimeSpan → Nat → Prop}
    (h : ∀ delay, Q delay sent) :
    Ensures unreachable endless (clientRetryDelay tryParseExact attempts none) Q sent := by
  unfold clientRetryDelay retryDelay
  rw [ensures_bind, ensures_perform]
  refine ⟨trivial, ?_⟩
  rintro now sent rfl
  show Ensures unreachable endless (do
    let drawn ← perform (.jitter (jitterUpperBoundMilliseconds attempts))
    pure (some (fromMilliseconds drawn))) Q sent
  rw [ensures_bind, ensures_perform]
  refine ⟨trivial, ?_⟩
  rintro drawn sent rfl
  exact h _

/-- **A loop whose counter counts gives up**: from the `n`-th attempt on, as long as the increment adds
    one up to `retryCount + 1` and `RetryDelay` is reached with a retry number from one on. -/
theorem trackWith_gives_up (tryParseExact : List Char → Option Int) {inc : Int → Program Int}
    {delay : Int → Option (List Char) → Program (Option TimeSpan)}
    (hinc : ∀ n : Nat, (n : Int) ≤ retryCount → inc n = pure ((n : Int) + 1))
    (hdelay : ∀ attempts, 1 ≤ attempts → delay attempts none =
      clientRetryDelay tryParseExact attempts none) (fuel : Nat) :
    ∀ n : Nat, (n : Int) ≤ retryCount → retryCount < n + fuel →
      Ensures unreachable endless (trackWith retryCount body inc delay fuel n) (GaveUp retryCount) n := by
  induction fuel with
  | zero =>
      intro n hn hfuel
      omega
  | succ fuel ih =>
      intro n hn hfuel
      rw [trackWith, ensures_bind, ensures_perform]
      refine ⟨trivial, ?_⟩
      rintro cancelled n ⟨rfl, rfl⟩
      simp only [Bool.false_eq_true, if_false]
      rw [hinc n hn, ensures_bind, ensures_pure, ensures_bind]
      apply attemptAsync_unreachable
      intro f
      show Ensures unreachable endless (isTransportFailure f >>= _) _ _
      rw [ensures_bind]
      apply isTransportFailure_unreachable
      rw [if_pos rfl]
      by_cases hlast : (n : Int) + 1 > retryCount
      · rw [if_pos hlast]
        have hcount : retryCount + 1 = (n : Int) + 1 := by omega
        refine ⟨by rw [hcount]; rfl, f, ?_⟩
        rw [hcount]
      · rw [if_neg hlast, hdelay _ (by omega), ensures_bind]
        apply clientRetryDelay_unreachable
        intro d
        rw [ensures_bind, ensures_perform]
        refine ⟨trivial, ?_⟩
        rintro thrown sent ⟨rfl, rfl⟩
        -- the next turn starts with one attempt more
        have hnext := ih (n + 1) (by omega) (by omega)
        exact hnext

/-- The call gives up when the number of attempts is an `int`. -/
theorem documented_of_lt (h0 : 0 ≤ retryCount) (hlt : retryCount < maxInt32) :
    Documented retryCount := by
  intro tryParseExact body
  refine ⟨⟨retryCount.toNat + 1, ?_⟩, ⟨retryCount.toNat + 1, ?_⟩⟩
  · intro fuel hfuel
    rw [trackAsync_eq]
    refine trackWith_gives_up tryParseExact ?_ (fun _ _ => rfl) fuel 0 h0 ?_
    · intro n hn
      show pure (int32 (n + 1)) = _
      rw [int32_eq (by omega) (by omega)]
    · rw [Int.natCast_zero]
      omega
  · intro fuel hfuel
    unfold checkedTrack
    refine trackWith_gives_up tryParseExact ?_ ?_ fuel 0 h0 ?_
    · intro n hn
      exact if_pos (by omega)
    · intro attempts hattempts
      exact if_pos hattempts
    · rw [Int.natCast_zero]
      omega

/-! ## §4. The largest count. -/

/-- No `int` is above the largest one. -/
theorem int32_le (x : Int) : int32 x ≤ maxInt32 := by
  unfold int32 wrap
  have hlt := Int.emod_lt_of_pos (x + maxInt32 + 1) (show (0 : Int) < 2 * (maxInt32 + 1) by decide)
  omega

/-- The environment that lets every request fail at once. -/
def failing : Handler Op Op.Ret Nat
  | .throwIfCancellationRequested, sent => (false, sent)
  | .isCancellationRequested, sent => (false, sent)
  | .sendAsync _, sent => (.error ⟨.httpRequest, []⟩, sent + 1)
  | .readAsStreamAsync, sent => (.ok (), sent)
  | .readAsync _, sent => (.ok [], sent)
  | .getUtcNow, sent => (0, sent)
  | .jitter _, sent => (0, sent)
  | .delay _, sent => (false, sent)

theorem failing_unreachable (op : Op) (sent : Nat) (r : op.Ret) (sent' : Nat)
    (h : failing.world op sent r sent') : unreachable op sent r sent' := by
  have h : failing op sent = (r, sent') := h
  cases op with
  | throwIfCancellationRequested => cases h; exact ⟨rfl, rfl⟩
  | isCancellationRequested => cases h; exact ⟨rfl, rfl⟩
  | sendAsync body => cases h; exact ⟨⟨_, rfl⟩, rfl⟩
  | readAsStreamAsync => cases h; rfl
  | readAsync room => cases h; rfl
  | getUtcNow => cases h; rfl
  | jitter upper => cases h; rfl
  | delay duration => cases h; exact ⟨rfl, rfl⟩

/-- **With the largest count the loop never ends**: no value of the counter is above it. -/
theorem run_failing_largest (fuel : Nat) : ∀ (attempts : Int) (sent : Nat),
    run failing (trackAsync tryParseExact maxInt32 body fuel attempts) sent = none := by
  induction fuel with
  | zero =>
      intro attempts sent
      rfl
  | succ fuel ih =>
      intro attempts sent
      have hle := int32_le (attempts + 1)
      have hnot : ¬ int32 (attempts + 1) > maxInt32 := by omega
      rw [trackAsync]
      simp only [run_bind, run_perform, failing, Option.bind_some, Bool.false_eq_true, if_false,
        attemptAsync, isTransportFailure, run_pure, if_true, if_neg hnot, clientRetryDelay, retryDelay,
        parseRetryAfter, asksTooMuch, Option.any_none, ih]

/-- The call does not give up. -/
theorem not_documented_largest : ¬ Documented maxInt32 := by
  intro h
  obtain ⟨enough, hgives⟩ := (h (fun _ => none) []).1
  have hfailing := (hgives enough (Nat.le_refl enough)).narrow failing_unreachable
  obtain ⟨result, sent, hrun, -⟩ := run_of_ensures (fun _ hcut => hcut) hfailing
  rw [run_failing_largest] at hrun
  cases hrun

/-- The validator accepts the counts of an `int` from zero on. -/
theorem validate_retryCount {BaseUrl Endpoint : Type}
    {normalizeOrigin : BaseUrl → Except String Endpoint}
    {options : Option (CekatClientOptions BaseUrl)} {validated : ValidatedOptions Endpoint}
    (h : validate normalizeOrigin options = .ok validated) :
    0 ≤ validated.retryCount ∧ validated.retryCount ≤ maxInt32 := by
  cases options with
  | none => cases h
  | some options =>
      unfold validate at h
      simp only at h
      split_ifs at h with htoken htimeout hcount
      obtain ⟨endpoint, -, rfl⟩ := map_ok_iff.mp h
      refine ⟨Int.not_lt.mp hcount, ?_⟩
      show options.retryCount ≤ maxInt32
      rw [← options.retryCount_int]
      exact int32_le options.retryCount

/-- **Exactly the accepted counts below the largest `int` are documented.** -/
theorem accepted_gives_up_iff {BaseUrl Endpoint : Type}
    (normalizeOrigin : BaseUrl → Except String Endpoint) (options : Option (CekatClientOptions BaseUrl))
    (validated : ValidatedOptions Endpoint) (h : validate normalizeOrigin options = .ok validated) :
    Documented validated.retryCount ↔ validated.retryCount < maxInt32 := by
  obtain ⟨h0, hle⟩ := validate_retryCount h
  constructor
  · intro hdocumented
    rcases Int.lt_or_eq_of_le hle with hlt | heq
    · exact hlt
    · rw [heq] at hdocumented
      exact absurd hdocumented not_documented_largest
  · exact documented_of_lt h0

end Runs

/-- Two retries. -/
theorem two_retries_give_up : Documented 2 ↔ (2 : Int) < maxInt32 := by
  have hvalid : validate (fun _ : Unit => .ok ())
      (some ⟨some [104], (), ticksPerSecond, 2, by decide⟩) =
        .ok ⟨some [104], (), ticksPerSecond, 2⟩ := rfl
  exact accepted_gives_up_iff _ _ _ hvalid

/-- The largest accepted count is retried for ever. -/
theorem largest_retryCount_not_documented :
    ¬ ∀ (options : Option (CekatClientOptions Unit)) (validated : ValidatedOptions Unit),
      validate (fun _ => .ok ()) options = .ok validated → Documented validated.retryCount := by
  intro h
  have hvalid : validate (fun _ : Unit => .ok ())
      (some ⟨some [104], (), ticksPerSecond, maxInt32, by decide⟩) =
        .ok ⟨some [104], (), ticksPerSecond, maxInt32⟩ := rfl
  exact not_documented_largest (h _ _ hvalid)

end CekatEvents.Dotnet
