/-
  CekatEvents.Mock.State — the synchronized state of the mock ingest server
  (`conformance/mock-ingest-server/internal/state/state.go`).

  A mutex guards every operation, so the operations of all handlers happen one after another; the state
  is a `World` whose operations any number of threads may call.  The order in which `range` visits a map
  is up to the runtime and may differ from call to call.

  Main results:

    • `keptHeaders_copy` — a copy has the values of all names, under the names in lower case;
    • `history_accounts` — in every interleaving the snapshots list what was recorded since the last
      `Reset`, and the responses are handed out in order, each once.
-/
import CekatEvents.Effects.Threads
import Mathlib.Data.Finmap
import Mathlib.Data.List.Forall2

namespace CekatEvents.Mock

open CekatEvents.Effects

/-! ## §1. Maps. -/

/-- A Go string. -/
abbrev Str := List UInt8

/-- A Go map whose keys are strings. -/
abbrev Map (β : Type) := Finmap fun _ : Str => β

/-- What the runtime decides during a call: the order in which `range` visits a map. -/
structure Runtime where
  range : {β : Type} → Map β → AList fun _ : Str => β
  range_map : ∀ {β : Type} (m : Map β), (range m).toFinmap = m

/-- `strings.ToLower` on a header name, which is a token of ASCII characters. -/
def ToLower (name : Str) : Str := name.map fun c => if 65 ≤ c ∧ c ≤ 90 then c + 32 else c

/-- A small letter is no capital. -/
theorem add_32_not_capital {c : UInt8} (hc : 65 ≤ c ∧ c ≤ 90) : ¬ c + 32 ≤ 90 := by
  intro hcapital
  have h1 : (65 : UInt8).toNat ≤ c.toNat := UInt8.le_iff_toNat_le.mp hc.1
  have h2 : c.toNat ≤ (90 : UInt8).toNat := UInt8.le_iff_toNat_le.mp hc.2
  have h3 : (c + 32).toNat ≤ (90 : UInt8).toNat := UInt8.le_iff_toNat_le.mp hcapital
  rw [UInt8.toNat_add] at h3
  simp at h1 h2 h3
  omega

theorem ToLower_ToLower (name : Str) : ToLower (ToLower name) = ToLower name := by
  unfold ToLower
  rw [List.map_map]
  apply List.map_congr_left
  intro c _
  simp only [Function.comp_apply]
  by_cases hc : 65 ≤ c ∧ c ≤ 90
  · simp only [if_pos hc]
    apply if_neg
    intro hcapital
    exact add_32_not_capital hc hcapital.2
  · simp only [if_neg hc]

/-! ## §2. Records. -/

/-- A scripted HTTP response consumed by an ingest request. -/
structure ResponseSpec where
  Status : Int
  Headers : Option (Map Str)
  Body : Str
  DelayMS : Int
  DisconnectBeforeHeaders : Bool
  DisconnectAfterHeaders : Bool

/-- `ResponseSpec{}`. -/
def ResponseSpec.zero : ResponseSpec := ⟨0, none, [], 0, false, false⟩

/-- A journal entry. -/
structure RequestRecord where
  Sequence : UInt64
  Method : Str
  Path : Str
  Headers : Option (Map (List Str))
  Body : Str

/-- `State`, less its mutex. -/
structure State where
  responses : List ResponseSpec
  requests : List RequestRecord
  nextSeq : UInt64

/-- `New`. -/
def State.New : State := ⟨[], [], 0⟩

section Operations

variable (rt : Runtime)

/-- The loop of `copyResponseHeaders`. -/
def copyEntries {β : Type} (copy : Map β) (visited : List (Σ _ : Str, β)) : Map β :=
  visited.foldl (fun copy entry => copy.insert entry.1 entry.2) copy

def copyResponseHeaders (headers : Option (Map Str)) : Option (Map Str) :=
  headers.map fun headers => copyEntries ∅ (rt.range headers).entries

def copyResponse (response : ResponseSpec) : ResponseSpec :=
  { response with Headers := copyResponseHeaders rt response.Headers }

def copyResponses (responses : List ResponseSpec) : List ResponseSpec :=
  responses.map (copyResponse rt)

/-- The loop of `copyNormalizedHeaders`: `append` to a name that is not there yet starts from nothing. -/
def normalizeEntries (copy : Map (List Str)) (visited : List (Σ _ : Str, List Str)) :
    Map (List Str) :=
  visited.foldl (fun copy entry =>
    let normalizedKey := ToLower entry.1
    copy.insert normalizedKey ((copy.lookup normalizedKey).getD [] ++ entry.2)) copy

def copyNormalizedHeaders (headers : Option (Map (List Str))) : Option (Map (List Str)) :=
  headers.map fun headers => normalizeEntries ∅ (rt.range headers).entries

def copyRequest (request : RequestRecord) : RequestRecord :=
  { request with Headers := copyNormalizedHeaders rt request.Headers }

/-! ## §3. Operations. -/

namespace State

def Reset (_ : State) : State := ⟨[], [], 0⟩

def ReplaceResponses (responses : List ResponseSpec) (s : State) : State :=
  { s with responses := copyResponses rt responses }

def Record (request : RequestRecord) (s : State) : State :=
  let nextSeq := s.nextSeq + 1
  { s with
    nextSeq := nextSeq
    requests := s.requests ++ [{ request with
      Headers := copyNormalizedHeaders rt request.Headers
      Sequence := nextSeq }] }

def NextResponse (s : State) : (ResponseSpec × Bool) × State :=
  match s.responses with
  | [] => ((ResponseSpec.zero, false), s)
  | first :: rest => ((copyResponse rt first, true), { s with responses := rest })

def Requests (s : State) : List RequestRecord := s.requests.map (copyRequest rt)

end State

/-- The operations of `State`. -/
inductive Op where
  | Record (request : RequestRecord)
  | NextResponse
  | ReplaceResponses (responses : List ResponseSpec)
  | Reset
  | Requests

abbrev Op.Ret : Op → Type
  | .Record _ => Unit
  | .NextResponse => ResponseSpec × Bool
  | .ReplaceResponses _ => Unit
  | .Reset => Unit
  | .Requests => List RequestRecord

/-- One operation, from lock to unlock. -/
def State.call : (op : Op) → State → op.Ret × State
  | .Record request, s => ((), s.Record rt request)
  | .NextResponse, s => s.NextResponse rt
  | .ReplaceResponses responses, s => ((), s.ReplaceResponses rt responses)
  | .Reset, s => ((), s.Reset)
  | .Requests, s => (s.Requests rt, s)

end Operations

/-! ## §4. Copies of maps. -/

/-- A name is in the copy as it was visited, or as it was there before. -/
theorem lookup_copyEntries {β : Type} (k : Str) {visited : List (Σ _ : Str, β)}
    (hnodup : visited.NodupKeys) (copy : Map β) :
    (copyEntries copy visited).lookup k = (visited.dlookup k).or (copy.lookup k) := by
  induction visited generalizing copy with
  | nil => rfl
  | cons entry rest ih =>
      obtain ⟨name, value⟩ := entry
      rw [List.nodupKeys_cons] at hnodup
      show (copyEntries (copy.insert name value) rest).lookup k = _
      rw [ih hnodup.2]
      by_cases hk : k = name
      · subst hk
        rw [Finmap.lookup_insert, List.dlookup_cons_eq, List.dlookup_eq_none.mpr hnodup.1]
        rfl
      · rw [Finmap.lookup_insert_of_ne _ hk, List.dlookup_cons_ne _ _ hk]

/-- A map is copied as it is, in whatever order it is visited. -/
theorem copyResponseHeaders_eq (rt : Runtime) (headers : Option (Map Str)) :
    copyResponseHeaders rt headers = headers := by
  cases headers with
  | none => rfl
  | some headers =>
      show some (copyEntries ∅ (rt.range headers).entries) = some headers
      congr 1
      apply Finmap.ext_lookup
      intro k
      rw [lookup_copyEntries k (rt.range headers).nodupKeys, Finmap.lookup_empty, Option.or_none]
      conv => rhs; rw [← rt.range_map headers]
      rfl

@[simp] theorem copyResponse_eq (rt : Runtime) (response : ResponseSpec) :
    copyResponse rt response = response := by
  unfold copyResponse
  rw [copyResponseHeaders_eq]

@[simp] theorem copyResponses_eq (rt : Runtime) (responses : List ResponseSpec) :
    copyResponses rt responses = responses := by
  unfold copyResponses
  rw [List.map_congr_left fun response _ => copyResponse_eq rt response, List.map_id']

/-- **The headers of a request as the journal keeps them**: a name in lower case has the values of the
    names that it stands for, those of one name after those of another. -/
def KeptHeaders : Option (Map (List Str)) → Option (Map (List Str)) → Prop
  | none, none => True
  | some headers, some copy => ∀ k, ∃ names : List Str, names.Nodup ∧
      (∀ name, name ∈ names ↔ name ∈ headers ∧ ToLower name = k) ∧
      copy.lookup k =
        if names = [] then none else some (names.flatMap fun name => (headers.lookup name).getD [])
  | _, _ => False

/-- What is visited under a name is appended to what was there. -/
theorem lookup_normalizeEntries (k : Str) (visited : List (Σ _ : Str, List Str)) (copy : Map (List Str)) :
    (normalizeEntries copy visited).lookup k =
      if visited.filter (fun entry => ToLower entry.1 = k) = [] then copy.lookup k
      else some ((copy.lookup k).getD [] ++
        (visited.filter fun entry => ToLower entry.1 = k).flatMap Sigma.snd) := by
  induction visited generalizing copy with
  | nil => rfl
  | cons entry rest ih =>
      obtain ⟨name, values⟩ := entry
      show (normalizeEntries (copy.insert (ToLower name)
        ((copy.lookup (ToLower name)).getD [] ++ values)) rest).lookup k = _
      rw [ih]
      by_cases hk : ToLower name = k
      · subst hk
        rw [List.filter_cons_of_pos (by exact decide_eq_true rfl), if_neg (List.cons_ne_nil _ _),
          Finmap.lookup_insert, Option.getD_some, List.flatMap_cons, ← List.append_assoc]
        by_cases hrest : rest.filter (fun entry => ToLower entry.1 = ToLower name) = []
        · rw [if_pos hrest, hrest, List.flatMap_nil, List.append_nil]
        · rw [if_neg hrest]
      · rw [List.filter_cons_of_neg (by simpa using hk), Finmap.lookup_insert_of_ne _ (Ne.symm hk)]

/-- The copy of a map keeps its headers. -/
theorem keptHeaders_copy (rt : Runtime) (headers : Option (Map (List Str))) :
    KeptHeaders headers (copyNormalizedHeaders rt headers) := by
  cases headers with
  | none => exact trivial
  | some headers =>
      intro k
      have hnodup := (rt.range headers).nodupKeys
      have hentries : ∀ name, headers.lookup name = (rt.range headers).entries.dlookup name := by
        intro name
        conv => lhs; rw [← rt.range_map headers]
        rfl
      refine ⟨((rt.range headers).entries.filter fun entry => ToLower entry.1 = k).keys, ?_, ?_, ?_⟩
      · exact hnodup.sublist List.filter_sublist
      · intro name
        rw [← Finmap.lookup_isSome, hentries, List.dlookup_isSome]
        simp only [List.keys, List.mem_map, List.mem_filter, decide_eq_true_eq]
        constructor
        · rintro ⟨entry, ⟨hentry, hlower⟩, rfl⟩
          exact ⟨⟨entry, hentry, rfl⟩, hlower⟩
        · rintro ⟨⟨entry, hentry, rfl⟩, hlower⟩
          exact ⟨entry, ⟨hentry, hlower⟩, rfl⟩
      · show (normalizeEntries ∅ (rt.range headers).entries).lookup k = _
        rw [lookup_normalizeEntries, Finmap.lookup_empty, Option.getD_none, List.nil_append]
        have hvalues : ∀ entry ∈ (rt.range headers).entries.filter (fun entry => ToLower entry.1 = k),
            (headers.lookup entry.1).getD [] = entry.2 := by
          rintro ⟨name, values⟩ hentry
          have hlookup := List.mem_dlookup hnodup (List.mem_filter.mp hentry).1
          rw [hentries, Option.mem_def.mp hlookup]
          rfl
        have hkeys : ((rt.range headers).entries.filter fun entry => ToLower entry.1 = k).keys = [] ↔
            (rt.range headers).entries.filter (fun entry => ToLower entry.1 = k) = [] := List.map_eq_nil_iff
        simp only [hkeys]
        split_ifs
        · rfl
        · rw [List.keys, List.flatMap_map, List.flatMap_congr hvalues]

/-- The names of a map are normalized. -/
def LowerKeys (headers : Map (List Str)) : Prop := ∀ k, k ∈ headers → ToLower k = k

/-- The names that are kept are in lower case. -/
theorem KeptHeaders.lowerKeys {headers copy : Map (List Str)} (h : KeptHeaders (some headers) (some copy)) :
    LowerKeys copy := by
  intro k hk
  obtain ⟨names, -, hnames, hlookup⟩ := h k
  cases names with
  | nil =>
      rw [if_pos rfl] at hlookup
      exact absurd hk (Finmap.lookup_eq_none.mp hlookup)
  | cons name names =>
      rw [← ((hnames name).mp List.mem_cons_self).2]
      exact ToLower_ToLower name

/-- What has names in lower case is kept as it is. -/
theorem KeptHeaders.eq {headers copy : Map (List Str)} (h : KeptHeaders (some headers) (some copy))
    (hlower : LowerKeys headers) : copy = headers := by
  apply Finmap.ext_lookup
  intro k
  obtain ⟨names, hnodup, hnames, hlookup⟩ := h k
  have hself : ∀ name ∈ names, name = k := by
    intro name hname
    obtain ⟨hmem, hname⟩ := (hnames name).mp hname
    rw [← hname, hlower name hmem]
  rw [hlookup]
  by_cases hk : k ∈ headers
  · have hmem : k ∈ names := (hnames k).mpr ⟨hk, hlower k hk⟩
    have hone : names = [k] := by
      cases names with
      | nil => cases hmem
      | cons name rest =>
          obtain rfl := hself name List.mem_cons_self
          cases rest with
          | nil => rfl
          | cons other rest =>
              have hother := hself other (List.mem_cons_of_mem _ List.mem_cons_self)
              rw [hother] at hnodup
              exact absurd List.mem_cons_self (List.nodup_cons.mp hnodup).1
    obtain ⟨values, hvalues⟩ := Option.isSome_iff_exists.mp (Finmap.lookup_isSome.mpr hk)
    rw [hone, if_neg (List.cons_ne_nil _ _), List.flatMap_singleton, hvalues]
    rfl
  · have hnil : names = [] := by
      rw [List.eq_nil_iff_forall_not_mem]
      intro name hname
      have hmem := ((hnames name).mp hname).1
      rw [hself name hname] at hmem
      exact hk hmem
    rw [if_pos hnil, Finmap.lookup_eq_none.mpr hk]

/-- **What was kept is kept as it is**, in whatever order the copies are made. -/
theorem KeptHeaders.copy {headers copy : Option (Map (List Str))} (h : KeptHeaders headers copy)
    (rt : Runtime) : copyNormalizedHeaders rt copy = copy := by
  cases copy with
  | none => rfl
  | some copy =>
      cases headers with
      | none => cases h
      | some headers =>
          have hagain := keptHeaders_copy rt (some copy)
          exact congrArg some (KeptHeaders.eq hagain h.lowerKeys)

/-- **The shared state of the server**: each operation happens at once, under a runtime of its own. -/
def world : World Op Op.Ret State := fun op s r s' => ∃ rt, State.call rt op s = (r, s')

/-! ## §5. What a history has asked for. -/

section Histories

variable {ι α : Type}

/-- The calls of the handlers, the latest first. -/
abbrev History (ι : Type) := List (Call ι Op Op.Ret)

/-- The requests recorded since the last `Reset`, in order. -/
def recorded : History ι → List RequestRecord
  | [] => []
  | ⟨_, .Reset, _⟩ :: _ => []
  | ⟨_, .Record request, _⟩ :: older => recorded older ++ [request]
  | _ :: older => recorded older

/-- The responses that the last `ReplaceResponses` installed; a `Reset` installs none. -/
def installed : History ι → List ResponseSpec
  | [] => []
  | ⟨_, .Reset, _⟩ :: _ => []
  | ⟨_, .ReplaceResponses responses, _⟩ :: _ => responses
  | _ :: older => installed older

/-- The responses returned since, in order. -/
def returned : History ι → List ResponseSpec
  | [] => []
  | ⟨_, .Reset, _⟩ :: _ => []
  | ⟨_, .ReplaceResponses _, _⟩ :: _ => []
  | ⟨_, .NextResponse, (response, true)⟩ :: older => returned older ++ [response]
  | _ :: older => returned older

/-- How often responses have been installed, a `Reset` counting too. -/
def installs : History ι → Nat
  | [] => 0
  | ⟨_, .Reset, _⟩ :: older => installs older + 1
  | ⟨_, .ReplaceResponses _, _⟩ :: older => installs older + 1
  | _ :: older => installs older

/-- The installed response that is next: which installation, and which of its responses. -/
def next (history : History ι) : Nat × Nat := (installs history, (returned history).length)

/-- The order in which responses are installed. -/
def Earlier (place place' : Nat × Nat) : Prop := Prod.Lex (· < ·) (· < ·) place place'

theorem Earlier.trans {a b c : Nat × Nat} (h : Earlier a b) (h' : Earlier b c) : Earlier a c :=
  Trans.trans (r := Prod.Lex (· < ·) (· < ·)) (s := Prod.Lex (· < ·) (· < ·)) h h'

/-- The installed responses that were returned, the latest first. -/
def taken : History ι → List (Nat × Nat)
  | [] => []
  | ⟨_, .NextResponse, (_, true)⟩ :: older => next older :: taken older
  | _ :: older => taken older

/-- How many requests were recorded in all. -/
def records : History ι → Nat
  | [] => 0
  | ⟨_, .Record _, _⟩ :: older => records older + 1
  | _ :: older => records older

/-- The journal entry of a request: the request with its names in lower case, and its number. -/
structure JournalEntry (request : RequestRecord × Nat) (entry : RequestRecord) : Prop where
  Sequence : entry.Sequence.toNat = request.2
  Method : entry.Method = request.1.Method
  Path : entry.Path = request.1.Path
  Headers : KeptHeaders request.1.Headers entry.Headers
  Body : entry.Body = request.1.Body

/-- **A history that accounts for everything**, with the queue it leaves. -/
structure Accounts (queue : List ResponseSpec) (history : History ι) : Prop where
  /-- A snapshot lists the requests recorded since the last `Reset`, numbered from one. -/
  snapshot : ∀ newer i snapshot older, history = newer ++ ⟨i, .Requests, snapshot⟩ :: older →
    List.Forall₂ JournalEntry ((recorded older).zipIdx 1) snapshot
  /-- What is returned is the installed response that follows those returned before. -/
  response : ∀ newer i response older,
    history = newer ++ ⟨i, .NextResponse, (response, true)⟩ :: older →
    ∃ left, installed older = returned older ++ response :: left
  /-- The queue is empty only when every installed response has been returned. -/
  empty : ∀ newer i response older,
    history = newer ++ ⟨i, .NextResponse, (response, false)⟩ :: older →
    returned older = installed older
  /-- No installed response is returned twice, and they are returned in the order of installation. -/
  once : (taken history).Pairwise fun later earlier => Earlier earlier later
  /-- An installed response that has not been returned is still queued. -/
  queue : returned history ++ queue = installed history

/-! ## §6. What one operation keeps. -/

/-- What the answer to a call says about the calls before it. -/
def Answer : Call ι Op Op.Ret → History ι → Prop
  | ⟨_, .Requests, snapshot⟩, older =>
      List.Forall₂ JournalEntry ((recorded older).zipIdx 1) snapshot
  | ⟨_, .NextResponse, (response, true)⟩, older =>
      ∃ left, installed older = returned older ++ response :: left
  | ⟨_, .NextResponse, (_, false)⟩, older => returned older = installed older
  | _, _ => True

/-- **The invariant**: the counter, the journal and the queue are what the history asks for, and so was
    every answer. -/
structure Keeps (s : State) (history : History ι) : Prop where
  nextSeq : s.nextSeq.toNat = (recorded history).length
  journal : List.Forall₂ JournalEntry ((recorded history).zipIdx 1) s.requests
  queue : returned history ++ s.responses = installed history
  answers : Always Answer history
  once : (taken history).Pairwise fun later earlier => Earlier earlier later
  before : ∀ place ∈ taken history, Earlier place (next history)

theorem recorded_length_le (history : History ι) :
    (recorded history).length ≤ records history := by
  induction history with
  | nil => exact Nat.le_refl 0
  | cons call older ih =>
      obtain ⟨i, op, r⟩ := call
      cases op with
      | Record request =>
          show (recorded older ++ [request]).length ≤ records older + 1
          rw [List.length_append, List.length_singleton]
          omega
      | Reset => exact Nat.zero_le _
      | NextResponse => exact ih
      | ReplaceResponses responses => exact ih
      | Requests => exact ih

/-- A journal entry is copied as it is. -/
theorem JournalEntry.copy {request : RequestRecord × Nat} {entry : RequestRecord}
    (h : JournalEntry request entry) (rt : Runtime) : JournalEntry request (copyRequest rt entry) := by
  refine ⟨h.Sequence, h.Method, h.Path, ?_, h.Body⟩
  show KeptHeaders request.1.Headers (copyNormalizedHeaders rt entry.Headers)
  rw [h.Headers.copy]
  exact h.Headers

/-- **One operation keeps the invariant.** -/
theorem Keeps.step {rt : Runtime} {i : ι} {op : Op} {r : op.Ret} {s s' : State} {history : History ι}
    (h : Keeps s history) (hcall : State.call rt op s = (r, s'))
    (hrecords : records (⟨i, op, r⟩ :: history) < 2 ^ 64) : Keeps s' (⟨i, op, r⟩ :: history) := by
  cases op with
  | Record request =>
      cases hcall
      have hlength := recorded_length_le history
      have hrecords : records history + 1 < 2 ^ 64 := hrecords
      have hnext : (s.nextSeq + 1).toNat = (recorded history).length + 1 := by
        rw [UInt64.toNat_add, h.nextSeq]
        exact Nat.mod_eq_of_lt (by show (recorded history).length + 1 < 2 ^ 64; omega)
      refine ⟨?_, ?_, h.queue, h.answers.cons trivial, h.once, h.before⟩
      · show (s.nextSeq + 1).toNat = (recorded history ++ [request]).length
        rw [hnext, List.length_append, List.length_singleton]
      · show List.Forall₂ JournalEntry ((recorded history ++ [request]).zipIdx 1) (_ ++ [_])
        rw [List.zipIdx_append]
        apply List.rel_append h.journal
        refine .cons ⟨?_, rfl, rfl, keptHeaders_copy rt request.Headers, rfl⟩ .nil
        rw [hnext, Nat.add_comm]
  | NextResponse =>
      cases hqueue : s.responses with
      | nil =>
          have hr : ((ResponseSpec.zero, false), s) = (r, s') := by
            rw [← hcall]
            show _ = s.NextResponse rt
            unfold State.NextResponse
            rw [hqueue]
          cases hr
          have hempty : returned history = installed history := by
            rw [← h.queue, hqueue, List.append_nil]
          exact ⟨h.nextSeq, h.journal, h.queue, h.answers.cons hempty, h.once, h.before⟩
      | cons first rest =>
          have hr : ((first, true), { s with responses := rest }) = (r, s') := by
            rw [← hcall]
            show _ = s.NextResponse rt
            unfold State.NextResponse
            rw [hqueue]
            show _ = ((copyResponse rt first, true), _)
            rw [copyResponse_eq]
          cases hr
          have hinstalled : installed history = returned history ++ first :: rest := by
            rw [← h.queue, hqueue]
          refine ⟨h.nextSeq, h.journal, ?_, h.answers.cons ⟨rest, hinstalled⟩, ?_, ?_⟩
          · show (returned history ++ [first]) ++ rest = installed history
            rw [hinstalled, List.append_assoc, List.singleton_append]
          · exact List.Pairwise.cons h.before h.once
          · -- the next response of the same installation is one further on
            have hfurther : Earlier (next history)
                (next (⟨i, .NextResponse, (first, true)⟩ :: history)) := by
              apply Prod.Lex.right
              show (returned history).length < (returned history ++ [first]).length
              rw [List.length_append, List.length_singleton]
              omega
            intro place hplace
            rcases List.mem_cons.mp hplace with rfl | hplace
            · exact hfurther
            · exact (h.before place hplace).trans hfurther
  | ReplaceResponses responses =>
      cases hcall
      refine ⟨h.nextSeq, h.journal, ?_, h.answers.cons trivial, h.once, ?_⟩
      · show [] ++ copyResponses rt responses = responses
        rw [copyResponses_eq, List.nil_append]
      · intro place hplace
        exact (h.before place hplace).trans (Prod.Lex.left _ _ (Nat.lt_succ_self _))
  | Reset =>
      cases hcall
      refine ⟨rfl, .nil, rfl, h.answers.cons trivial, h.once, ?_⟩
      intro place hplace
      exact (h.before place hplace).trans (Prod.Lex.left _ _ (Nat.lt_succ_self _))
  | Requests =>
      cases hcall
      refine ⟨h.nextSeq, h.journal, h.queue, h.answers.cons ?_, h.once, h.before⟩
      show List.Forall₂ JournalEntry _ (s.requests.map (copyRequest rt))
      rw [List.forall₂_map_right_iff]
      exact h.journal.imp fun _ _ hentry => hentry.copy rt

/-- Nothing has been asked for. -/
theorem keeps_new : Keeps State.New ([] : History ι) where
  nextSeq := rfl
  journal := .nil
  queue := rfl
  answers := always_nil
  once := .nil
  before := fun _ h => by cases h

theorem records_le_cons (call : Call ι Op Op.Ret) (history : History ι) :
    records history ≤ records (call :: history) := by
  obtain ⟨i, op, r⟩ := call
  cases op with
  | Record request => exact Nat.le_succ _
  | Reset => exact Nat.le_refl _
  | NextResponse => exact Nat.le_refl _
  | ReplaceResponses responses => exact Nat.le_refl _
  | Requests => exact Nat.le_refl _

/-- **In every interleaving of any handlers the server accounts for everything**, as long as its 64-bit
    counter does not wrap. -/
theorem history_accounts [DecidableEq ι] (threads : ι → Prog Op Op.Ret α)
    (p : Pool ι Op Op.Ret State α) (hrun : Pool.Reaches world (Pool.start threads State.New) p)
    (hrecords : records p.history < 2 ^ 64) : Accounts p.shared.responses p.history := by
  have hkeeps : records p.history < 2 ^ 64 → Keeps p.shared p.history := by
    apply Pool.Run.invariant (I := fun s history => records history < 2 ^ 64 → Keeps s history) hrun
    · exact fun _ => keeps_new
    · rintro ⟨i, op, r⟩ s s' history ⟨rt, hcall⟩ ih hlt
      have hle := records_le_cons ⟨i, op, r⟩ history
      exact (ih (by omega)).step hcall hlt
  have h := hkeeps hrecords
  refine ⟨?_, ?_, ?_, h.once, h.queue⟩
  · exact fun newer i snapshot older heq => h.answers newer ⟨i, .Requests, snapshot⟩ older heq
  · exact fun newer i response older heq =>
      h.answers newer ⟨i, .NextResponse, (response, true)⟩ older heq
  · exact fun newer i response older heq =>
      h.answers newer ⟨i, .NextResponse, (response, false)⟩ older heq

end Histories

/-- A runtime. -/
theorem exists_runtime : Nonempty Runtime := by
  have hrange : ∀ {β : Type} (m : Map β), ∃ visited : AList fun _ : Str => β,
      visited.toFinmap = m := by
    intro β m
    induction m using Finmap.induction_on with
    | H visited => exact ⟨visited, rfl⟩
  exact ⟨⟨fun m => (hrange m).choose, fun m => (hrange m).choose_spec⟩⟩

/-- The headers with one name. -/
def oneHeader (name : Str) (values : List Str) : Option (Map (List Str)) :=
  some ((∅ : Map (List Str)).insert name values)

theorem copy_oneHeader (rt : Runtime) (name : Str) (values : List Str) :
    copyNormalizedHeaders rt (oneHeader name values) = oneHeader (ToLower name) values := by
  have hentries : (rt.range ((∅ : Map (List Str)).insert name values)).entries = [⟨name, values⟩] := by
    apply List.perm_singleton.mp
    exact AList.toFinmap_eq.mp (rt.range_map _)
  show some (normalizeEntries ∅ (rt.range ((∅ : Map (List Str)).insert name values)).entries) = _
  rw [hentries]
  rfl

/-- A request with one header, whose name is `X-A`, and its journal entry. -/
def oneRequest : RequestRecord := ⟨0, [71], [47], oneHeader [88, 45, 65] [[49]], []⟩

def oneEntry : RequestRecord := ⟨1, [71], [47], oneHeader [120, 45, 97] [[49]], []⟩

/-- One handler installs a response, records a request and asks for the journal; another takes two
    responses. -/
def installAndTake : Bool → Prog Op Op.Ret Unit
  | true => .call (.ReplaceResponses [.zero]) fun _ => .call (.Record oneRequest) fun _ =>
      .call .Requests fun _ => .done ()
  | false => .call .NextResponse fun _ => .call .NextResponse fun _ => .done ()

/-- The calls of both, in one of their orders. -/
def installedAndTaken : History Bool :=
  [⟨true, .Requests, [oneEntry]⟩, ⟨false, .NextResponse, (.zero, false)⟩, ⟨true, .Record oneRequest, ()⟩,
    ⟨false, .NextResponse, (.zero, true)⟩, ⟨true, .ReplaceResponses [.zero], ()⟩]

theorem installAndTake_accounts : Accounts [] installedAndTaken := by
  obtain ⟨rt⟩ := exists_runtime
  have hinstall : world (.ReplaceResponses [.zero]) State.New () ⟨[.zero], [], 0⟩ := by
    refine ⟨rt, ?_⟩
    show ((), State.ReplaceResponses rt [.zero] State.New) = _
    unfold State.ReplaceResponses
    rw [copyResponses_eq]
    rfl
  have htake : world .NextResponse ⟨[.zero], [], 0⟩ (.zero, true) ⟨[], [], 0⟩ := ⟨rt, rfl⟩
  have hrecord : world (.Record oneRequest) ⟨[], [], 0⟩ () ⟨[], [oneEntry], 1⟩ := by
    refine ⟨rt, ?_⟩
    show ((), State.Record rt oneRequest ⟨[], [], 0⟩) = _
    unfold State.Record
    rw [show copyNormalizedHeaders rt oneRequest.Headers = oneEntry.Headers from copy_oneHeader rt _ _]
    rfl
  have hempty : world .NextResponse ⟨[], [oneEntry], 1⟩ (.zero, false) ⟨[], [oneEntry], 1⟩ := ⟨rt, rfl⟩
  have hrequests : world .Requests ⟨[], [oneEntry], 1⟩ [oneEntry] ⟨[], [oneEntry], 1⟩ := by
    refine ⟨rt, ?_⟩
    show (([copyRequest rt oneEntry] : List RequestRecord), _) = _
    unfold copyRequest
    rw [show copyNormalizedHeaders rt oneEntry.Headers = oneEntry.Headers from copy_oneHeader rt _ _]
  let afterInstall := Function.update installAndTake true
    (.call (.Record oneRequest) fun _ => .call .Requests fun _ => .done ())
  let afterTake := Function.update afterInstall false (.call .NextResponse fun _ => .done ())
  let afterRecord := Function.update afterTake true (.call .Requests fun _ => .done ())
  let afterEmpty := Function.update afterRecord false (.done ())
  let installed : Pool Bool Op Op.Ret State Unit :=
    ⟨afterInstall, ⟨[.zero], [], 0⟩, installedAndTaken.drop 4⟩
  let taken : Pool Bool Op Op.Ret State Unit := ⟨afterTake, ⟨[], [], 0⟩, installedAndTaken.drop 3⟩
  let recorded : Pool Bool Op Op.Ret State Unit :=
    ⟨afterRecord, ⟨[], [oneEntry], 1⟩, installedAndTaken.drop 2⟩
  let exhausted : Pool Bool Op Op.Ret State Unit :=
    ⟨afterEmpty, ⟨[], [oneEntry], 1⟩, installedAndTaken.drop 1⟩
  have h₁ := Pool.Step.of (Pool.start installAndTake State.New) true () rfl hinstall
  have h₂ := Pool.Step.of installed false (ResponseSpec.zero, true) rfl htake
  have h₃ := Pool.Step.of taken true () rfl hrecord
  have h₄ := Pool.Step.of recorded false (ResponseSpec.zero, false) rfl hempty
  have h₅ := Pool.Step.of exhausted true [oneEntry] rfl hrequests
  have hinstalled : Pool.Reaches world (Pool.start installAndTake State.New) installed :=
    .single ⟨_, h₁, trivial⟩
  have htaken : Pool.Reaches world (Pool.start installAndTake State.New) taken :=
    hinstalled.tail ⟨_, h₂, trivial⟩
  have hrecorded : Pool.Reaches world (Pool.start installAndTake State.New) recorded :=
    htaken.tail ⟨_, h₃, trivial⟩
  have hexhausted : Pool.Reaches world (Pool.start installAndTake State.New) exhausted :=
    hrecorded.tail ⟨_, h₄, trivial⟩
  exact history_accounts installAndTake _ (hexhausted.tail ⟨_, h₅, trivial⟩) (by decide)

end CekatEvents.Mock
