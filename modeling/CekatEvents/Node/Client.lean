/-
  CekatEvents.Node.Client — the six operations of the Node client (`client.ts`).

  An asynchronous function runs at once up to its first `await`, but what it throws there rejects its
  promise.  `orderPaid` and `track` are asynchronous; the other operations are not, and `orderCreated`
  checks its arguments before it calls `track`.  A client knows its configuration from its constructor
  on.

  Main result: `operations_behave_iff`.
-/
import CekatEvents.Effects.Stateful
import CekatEvents.Node.Validation

namespace CekatEvents.Node

open CekatEvents.Effects CekatEvents.Encoding CekatEvents.JsonText

/-! ## §1. Operations. -/

/-- What becomes of the promise of an operation: it is rejected, or the payload is handed to `deliver`. -/
inductive Settlement (ι : Type) where
  | rejected (e : Raised ι)
  | delivering (payload : WirePayload ι) (options : Option (Unknown ι))

/-- The body of an asynchronous function: what it throws rejects the promise. -/
def asynchronous {ι σ : Type} (body : JS ι σ (Settlement ι)) : JS ι σ (Settlement ι) := fun s =>
  match body s with
  | .ok settlement t => .ok settlement t
  | .error e t => .ok (.rejected e) t

/-- What the operations are called with. -/
structure Arguments (ι : Type) where
  amount : Unknown ι
  currency : Unknown ι
  eventKey : Unknown ι
  event : Unknown ι
  options : Unknown ι

inductive Operation where
  | userRegistration
  | userLogin
  | orderCreated
  | formSubmitted
  | orderPaid
  | customEvent
  deriving DecidableEq

section Client

variable {ι σ : Type} [DecidableEq ι] (R : Realm ι σ) (frames : Nat) (visitor : Option Str)

/-- `currentVisitorId()`. -/
def currentVisitorId : Unknown ι := (visitor.map .string).getD .undefined

/-- `track`. -/
def track (eventKey : Unknown ι) (isCommon : Bool) (event options : Unknown ι) :
    JS ι σ (Settlement ι) :=
  asynchronous do
    let payload ← buildPayload R frames eventKey isCommon event (currentVisitorId visitor)
    pure (.delivering payload (if options.isNullish then none else some options))

/-- The key of a built-in event. -/
def commonKey (name : String) : Unknown ι := .string (units name)

def userRegistration (event options : Unknown ι) : JS ι σ (Settlement ι) :=
  track R frames visitor (commonKey "user_registration") true event options

def userLogin (event options : Unknown ι) : JS ι σ (Settlement ι) :=
  track R frames visitor (commonKey "user_login") true event options

def orderCreated (amount currency event options : Unknown ι) : JS ι σ (Settlement ι) := do
  let event ← withOrderPaidProperties R amount currency event
  track R frames visitor (commonKey "order_created") true event options

def formSubmitted (event options : Unknown ι) : JS ι σ (Settlement ι) :=
  track R frames visitor (commonKey "form_submitted") true event options

def orderPaid (amount currency event options : Unknown ι) : JS ι σ (Settlement ι) :=
  asynchronous do
    let event ← withOrderPaidProperties R amount currency event
    track R frames visitor (commonKey "order_paid") true event options

def customEvent (eventKey event options : Unknown ι) : JS ι σ (Settlement ι) :=
  track R frames visitor eventKey false event options

/-- An operation with its arguments; it throws where the call throws synchronously. -/
def call (operation : Operation) (args : Arguments ι) : JS ι σ (Settlement ι) :=
  match operation with
  | .userRegistration => userRegistration R frames visitor args.event args.options
  | .userLogin => userLogin R frames visitor args.event args.options
  | .orderCreated => orderCreated R frames visitor args.amount args.currency args.event args.options
  | .formSubmitted => formSubmitted R frames visitor args.event args.options
  | .orderPaid => orderPaid R frames visitor args.amount args.currency args.event args.options
  | .customEvent => customEvent R frames visitor args.eventKey args.event args.options

end Client

/-! ## §2. What is promised. -/

/-- Two settlements that differ in the key that is sent alone. -/
inductive SameButKey {ι : Type} (created paid : Unknown ι) : Settlement ι → Settlement ι → Prop where
  | rejected (e : Raised ι) : SameButKey created paid (.rejected e) (.rejected e)
  | delivering (payload : WirePayload ι) (options : Option (Unknown ι)) :
      SameButKey created paid (.delivering { payload with eventKey := created } options)
        (.delivering { payload with eventKey := paid } options)

section Promises

variable {ι σ : Type} [DecidableEq ι] (R : Realm ι σ) (frames : Nat) (visitor : Option Str)

/-- **Every operation returns a promise**, and the two order operations come to the same, the key
    apart. -/
structure OperationsBehave (args : Arguments ι) (s : σ) : Prop where
  returns : ∀ operation, ∃ settlement t, call R frames visitor operation args s = .ok settlement t
  agree : ∃ created paid t,
    call R frames visitor .orderCreated args s = .ok created t ∧
      call R frames visitor .orderPaid args s = .ok paid t ∧
        SameButKey (commonKey "order_created") (commonKey "order_paid") created paid

/-- The properties are an object without the two keys, or no object. -/
def LacksOrderKeys (properties : Unknown ι) (s t : σ) : Prop :=
  match properties with
  | .object p =>
      if R.callable p then t = s
      else ∃ u, hasOwn R p (.string (units "amount")) s = .ok false u ∧
        hasOwn R p (.string (units "currency")) u = .ok false t
  | _ => t = s

/-- **The arguments of an order are in order**: the amount is a finite number, the currency a string that
    is not blank, and where the event is an object, reading its properties and spreading both throws
    nothing, and the properties have neither key. -/
structure OrderArguments (args : Arguments ι) (s : σ) : Prop where
  amount : args.amount.isFiniteNumber = true
  currency : args.currency.isNonblankString = true
  event : ∀ o, args.event = .object o → R.callable o = false →
    ∃ properties s₁ s₂, field R o "properties" s = .ok properties s₁ ∧
      LacksOrderKeys R properties s₁ s₂ ∧
        ∃ fields s₃, spread R (.object o) s₂ = .ok fields s₃ ∧
          ∃ members s₄, spread R properties s₃ = .ok members s₄

end Promises

/-! ## §3. Asynchronous functions. -/

section Asynchronous

variable {ι σ : Type}

/-- An asynchronous function throws nothing. -/
theorem asynchronous_returns (body : JS ι σ (Settlement ι)) (s : σ) :
    ∃ settlement t, asynchronous body s = .ok settlement t := by
  unfold asynchronous
  cases body s with
  | ok settlement t => exact ⟨settlement, t, rfl⟩
  | error e t => exact ⟨.rejected e, t, rfl⟩

/-- One that is awaited by another adds nothing. -/
theorem asynchronous_of_ok {body : JS ι σ (Settlement ι)} {s t : σ} {settlement : Settlement ι}
    (h : body s = .ok settlement t) : asynchronous body s = .ok settlement t := by
  unfold asynchronous
  rw [h]

/-- It delivers where its body does. -/
theorem asynchronous_delivering_iff {body : JS ι σ (Settlement ι)} {s t : σ} {p : WirePayload ι}
    {options : Option (Unknown ι)} :
    asynchronous body s = .ok (.delivering p options) t ↔ body s = .ok (.delivering p options) t := by
  unfold asynchronous
  cases body s with
  | ok settlement u => exact Iff.rfl
  | error e u => exact iff_of_false (fun h => nomatch h) fun h => nomatch h

end Asynchronous

/-! ## §4. The checks of an order. -/

section Checks

variable {ι σ : Type} {R : Realm ι σ}

theorem refuse_ne_ok {α : Type} {message : Str} {s t : σ} {a : α} :
    (refuse message : JS ι σ α) s ≠ .ok a t := by
  intro h
  cases h

/-- A key is let through where it is no property. -/
theorem refuseOwn_cons_iff {p : ι} {key : String} {keys : List String} {s t : σ} :
    refuseOwn R p (key :: keys) s = .ok () t ↔
      ∃ u, hasOwn R p (.string (units key)) s = .ok false u ∧ refuseOwn R p keys u = .ok () t := by
  rw [refuseOwn, stateful_bind_ok_iff]
  constructor
  · intro h
    obtain ⟨own, u, hown, h⟩ := h
    cases own with
    | true => exact absurd h refuse_ne_ok
    | false => exact ⟨u, hown, h⟩
  · intro h
    obtain ⟨u, hown, h⟩ := h
    exact ⟨false, u, hown, h⟩

theorem checkProperties_ok_iff {properties : Unknown ι} {s t : σ} :
    checkProperties R properties s = .ok () t ↔ LacksOrderKeys R properties s t := by
  have hpure : ∀ u : σ, (pure () : JS ι σ Unit) u = .ok () t ↔ t = u := by
    intro u
    show EStateM.Result.ok () u = .ok () t ↔ _
    simp [eq_comm]
  unfold checkProperties LacksOrderKeys
  cases properties with
  | object p =>
      show (if R.callable p then pure () else refuseOwn R p ["amount", "currency"] : JS ι σ Unit) s
        = .ok () t ↔ if R.callable p then t = s else _
      split_ifs
      · exact hpure s
      · rw [refuseOwn_cons_iff]
        apply exists_congr
        intro u
        apply and_congr_right
        intro _
        rw [refuseOwn_cons_iff]
        simp only [refuseOwn, hpure]
        simp
  | _ => exact hpure s

/-- The merge throws nothing but what the two spreads throw. -/
theorem mergeOrder_returns_iff {amount currency properties : Unknown ι} {o : ι} {s : σ} :
    (∃ event t, mergeOrder R amount currency properties o s = .ok event t) ↔
      ∃ fields u, spread R (.object o) s = .ok fields u ∧
        ∃ members t, spread R properties u = .ok members t := by
  unfold mergeOrder
  rw [stateful_bind_returns_iff]
  apply exists_congr
  intro fields
  apply exists_congr
  intro u
  apply and_congr_right
  intro _
  rw [stateful_bind_returns_iff]
  apply exists_congr
  intro members
  apply exists_congr
  intro t
  apply and_iff_left
  exact ⟨_, _, rfl⟩

/-- **The arguments of an order pass** exactly where they are in order. -/
theorem withOrderPaidProperties_returns_iff (args : Arguments ι) (s : σ) :
    (∃ event t, withOrderPaidProperties R args.amount args.currency args.event s = .ok event t) ↔
      OrderArguments R args s := by
  have hrefuse : ∀ message : Str, ¬ ∃ event t, (refuse message : JS ι σ (Unknown ι)) s = .ok event t := by
    intro message h
    obtain ⟨event, t, h⟩ := h
    exact refuse_ne_ok h
  unfold withOrderPaidProperties
  by_cases hamount : args.amount.isFiniteNumber = true
  · by_cases hcurrency : args.currency.isNonblankString = true
    · rw [if_pos hamount, if_pos hcurrency]
      -- an event that is no object is left to the validation
      have hother : (∀ o, args.event = .object o → R.callable o = true) → OrderArguments R args s := by
        intro h
        refine ⟨hamount, hcurrency, ?_⟩
        intro o ho hcallable
        rw [h o ho] at hcallable
        cases hcallable
      cases hevent : args.event with
      | object o =>
          by_cases hcallable : R.callable o = true
          · simp only [hcallable, if_true]
            apply iff_of_true ⟨_, s, rfl⟩
            apply hother
            intro o' ho'
            rw [hevent] at ho'
            cases ho'
            exact hcallable
          · simp only [if_neg hcallable, stateful_bind_returns_iff, mergeOrder_returns_iff]
            constructor
            · intro h
              obtain ⟨properties, s₁, hfield, ⟨⟩, s₂, hlacks, hspread⟩ := h
              have hlacks := checkProperties_ok_iff.mp hlacks
              refine ⟨hamount, hcurrency, ?_⟩
              intro o' ho' _
              rw [hevent] at ho'
              cases ho'
              exact ⟨properties, s₁, s₂, hfield, hlacks, hspread⟩
            · intro h
              obtain ⟨properties, s₁, s₂, hfield, hlacks, hspread⟩ :=
                h.event o hevent (by simpa using hcallable)
              exact ⟨properties, s₁, hfield, (), s₂, checkProperties_ok_iff.mpr hlacks, hspread⟩
      | _ =>
          apply iff_of_true ⟨_, s, rfl⟩
          apply hother
          intro o ho
          rw [hevent] at ho
          cases ho
    · rw [if_pos hamount, if_neg hcurrency]
      apply iff_of_false (hrefuse _)
      intro h
      exact hcurrency h.currency
  · rw [if_neg hamount]
    apply iff_of_false (hrefuse _)
    intro h
    exact hamount h.amount

end Checks

/-! ## §5. Orders. -/

section Orders

variable {ι σ : Type} [DecidableEq ι] {R : Realm ι σ} {frames : Nat} {visitor : Option Str}

/-- Nothing in a payload depends on its key, the key apart. -/
theorem payloadOf_key (key key' : Unknown ι) (isCommon : Bool) (event : ι) (ambient : Unknown ι) :
    payloadOf R frames key isCommon event ambient
      = (fun p => { p with eventKey := key }) <$> payloadOf R frames key' isCommon event ambient := by
  unfold payloadOf
  simp only [map_bind, map_pure]

/-- Two keys that are strings and not blank are the same to the validation. -/
theorem buildPayload_key {key key' : Unknown ι} (hkey : key.isNonblankString = true)
    (hkey' : key'.isNonblankString = true) (isCommon : Bool) (event ambient : Unknown ι) :
    buildPayload R frames key isCommon event ambient
      = (fun p => { p with eventKey := key }) <$> buildPayload R frames key' isCommon event ambient := by
  unfold buildPayload validateEvent
  rw [if_pos hkey, if_pos hkey', map_bind]
  congr 1
  funext o
  exact payloadOf_key key key' isCommon o ambient

/-- **The two order events come to the same**, the key apart. -/
theorem track_key (key key' : Unknown ι) (hkey : key.isNonblankString = true)
    (hkey' : key'.isNonblankString = true) (event options : Unknown ι) (s : σ) :
    ∃ created paid t, track R frames visitor key true event options s = .ok created t ∧
      track R frames visitor key' true event options s = .ok paid t ∧ SameButKey key key' created paid := by
  have hcreated : buildPayload R frames key true event (currentVisitorId visitor) s = _ :=
    congrFun (buildPayload_key hkey hkey' true event (currentVisitorId visitor)) s
  have hpaid : buildPayload R frames key' true event (currentVisitorId visitor) s = _ :=
    congrFun (buildPayload_key hkey' hkey' true event (currentVisitorId visitor)) s
  unfold track asynchronous
  cases h : buildPayload R frames key' true event (currentVisitorId visitor) s with
  | ok payload t =>
      rw [map_of_ok h] at hcreated hpaid
      rw [bind_of_ok hcreated, bind_of_ok hpaid]
      exact ⟨_, _, t, rfl, rfl, .delivering payload _⟩
  | error e t =>
      rw [map_of_error h] at hcreated
      rw [bind_of_error hcreated, bind_of_error h]
      exact ⟨_, _, t, rfl, rfl, .rejected e⟩

end Orders

/-! ## §6. The six operations. -/

/-- **The operations keep their promise exactly when the arguments of an order are in order.**  All
    others reject; `orderCreated` throws at once. -/
theorem operations_behave_iff {ι σ : Type} [DecidableEq ι] (R : Realm ι σ) (frames : Nat)
    (visitor : Option Str) (args : Arguments ι) (s : σ) :
    OperationsBehave R frames visitor args s ↔ OrderArguments R args s := by
  rw [← withOrderPaidProperties_returns_iff]
  constructor
  · intro h
    obtain ⟨settlement, t, hcall⟩ := h.returns .orderCreated
    obtain ⟨event, u, hevent, -⟩ := stateful_bind_ok_iff.mp hcall
    exact ⟨event, u, hevent⟩
  · intro h
    obtain ⟨event, u, hevent⟩ := h
    obtain ⟨created, paid, t, hcreated, hpaid, hsame⟩ := track_key (R := R)
      (commonKey "order_created") (commonKey "order_paid") rfl rfl event args.options u
    have hcallCreated : call R frames visitor .orderCreated args s = .ok created t := by
      show orderCreated R frames visitor _ _ _ _ s = _
      unfold orderCreated
      rw [bind_of_ok hevent, hcreated]
    have hcallPaid : call R frames visitor .orderPaid args s = .ok paid t := by
      apply asynchronous_of_ok
      rw [bind_of_ok hevent, hpaid]
    refine ⟨?_, created, paid, t, hcallCreated, hcallPaid, hsame⟩
    intro operation
    cases operation with
    | orderCreated => exact ⟨created, t, hcallCreated⟩
    | _ => exact asynchronous_returns _ s

/-- A realm of objects without properties. -/
def bareRealm : Realm Unit Unit where
  objectPrototype := ()
  callable _ := false
  get _ _ := pure .undefined
  ownKeys _ := pure []
  getOwnProperty _ _ := pure none
  getPrototypeOf _ := pure none
  isArray _ := pure false
  belowLength _ _ := pure false
  trim _ := throw (.thrown .undefined)
  instanceofDate _ := pure false
  getUTCFullYear _ := pure none
  toISOString _ := throw (.thrown .undefined)
  now := pure (units "2026-09-13T01:15:30.250Z")
  newEventId := pure (units "generated-event-id")
  allocate _ s := ((), s)

/-- **An order of no amount**: `orderCreated` throws before it returns a promise. -/
theorem orderCreated_throws :
    ¬ OperationsBehave bareRealm 1 none
      ⟨.number .nan, .string (units "IDR"), .undefined, .object (), .undefined⟩ () := by
  intro h
  obtain ⟨settlement, t, hcall⟩ := h.returns .orderCreated
  cases hcall

end CekatEvents.Node
