/-
  CekatEvents.Browser.Allowlist — the destinations that may receive a visitor (`browser/allowlist.ts`,
  `browser/cookie.ts`).

  The URL parser of the platform and its `localeCompare` are parameters.
-/
import CekatEvents.Effects.Outcome
import CekatEvents.Http.Cookies
import Mathlib.Data.List.Basic

namespace CekatEvents.Browser

open CekatEvents.Encoding CekatEvents.Effects CekatEvents.Http

/-- A string, by its code units. -/
abbrev Str := List CodeUnit

/-! ## §1. URLs. -/

/-- What is read of a `URL`. -/
structure URL where
  href : Str
  protocol : Str
  origin : Str
  username : Str
  password : Str
  pathname : Str
  search : Str
  hash : Str

/-- `new URL(url, base)`; nothing when it throws. -/
abbrev UrlParser := Str → Option Str → Option URL

/-- The protocol is `http:` or `https:`. -/
def URL.isHttp (url : URL) : Bool :=
  decide (url.protocol = units "http:") || decide (url.protocol = units "https:")

/-! ## §2. Targets. -/

structure AllowedTarget where
  origin : Str
  pathPrefix : Option Str

structure NormalizedAllowedTarget where
  origin : Str
  pathPrefix : Str
  deriving DecidableEq

section Targets

variable (parse : UrlParser)

/-- `normalizeAllowedTarget`: the target, or the message of the `TypeError`. -/
def normalizeAllowedTarget (target : AllowedTarget) : Except String NormalizedAllowedTarget :=
  match parse target.origin none with
  | none => .error "Allowed target origin must be an absolute HTTP(S) origin."
  | some parsed =>
      if !parsed.isHttp || parsed.username != [] || parsed.password != [] ||
          parsed.pathname != units "/" || parsed.search != [] || parsed.hash != [] then
        .error "Allowed target origin must be an HTTP(S) origin without credentials, paths, queries, or fragments."
      else
        let pathPrefix := target.pathPrefix.getD (units "/")
        if !(units "/").isPrefixOf pathPrefix then
          .error "Allowed target pathPrefix must begin with \"/\"."
        else .ok ⟨parsed.origin, pathPrefix⟩

/-- `Map.set` on the entries of a map, in the order of their insertion. -/
def mapSet {κ α : Type} [DecidableEq κ] (entries : List (κ × α)) (key : κ) (value : α) :
    List (κ × α) :=
  if entries.any fun entry => decide (entry.1 = key) then
    entries.map fun entry => if entry.1 = key then (key, value) else entry
  else entries ++ [(key, value)]

/-- `new Map(entries)`. -/
def newMap {κ α : Type} [DecidableEq κ] (entries : List (κ × α)) : List (κ × α) :=
  entries.foldl (fun map entry => mapSet map entry.1 entry.2) []

/-- The comparison of `sort`: `origin`, then `pathPrefix`. -/
def compareTargets (localeCompare : Str → Str → Int) (left right : NormalizedAllowedTarget) : Int :=
  if localeCompare left.origin right.origin ≠ 0 then localeCompare left.origin right.origin
  else localeCompare left.pathPrefix right.pathPrefix

/-- `normalizeAllowedTargets`. -/
def normalizeAllowedTargets (localeCompare : Str → Str → Int) (targets : List AllowedTarget) :
    Except String (List NormalizedAllowedTarget) :=
  if targets.length = 0 then .error "At least one allowed target is required."
  else do
    let normalized ← targets.mapM (normalizeAllowedTarget parse)
    let unique := newMap (normalized.map fun target => (target.origin ++ [0] ++ target.pathPrefix, target))
    pure ((unique.map Prod.snd).mergeSort fun left right =>
      decide (compareTargets localeCompare left right ≤ 0))

/-- `matchesAllowedTarget`. -/
def matchesAllowedTarget (targets : List NormalizedAllowedTarget) (url : URL) : Bool :=
  url.isHttp && targets.any fun target =>
    decide (target.origin = url.origin) && target.pathPrefix.isPrefixOf url.pathname

/-- **The URL may receive a visitor**: it is an HTTP(S) URL that has the origin of an allowed target, and
    its path starts with the prefix of that target. -/
def Allowed (targets : List AllowedTarget) (url : URL) : Prop :=
  url.isHttp = true ∧ ∃ target ∈ targets, ∃ parsed, parse target.origin none = some parsed ∧
    url.origin = parsed.origin ∧ target.pathPrefix.getD (units "/") <+: url.pathname

/-! ## §3. What is matched is allowed. -/

theorem mem_mapSet {κ α : Type} [DecidableEq κ] {entries : List (κ × α)} {key : κ} {value : α}
    {entry : κ × α} (h : entry ∈ mapSet entries key value) :
    entry ∈ entries ∨ entry = (key, value) := by
  unfold mapSet at h
  split_ifs at h
  · obtain ⟨old, hold, heq⟩ := List.mem_map.mp h
    split_ifs at heq
    · exact .inr heq.symm
    · exact .inl (heq ▸ hold)
  · rw [List.mem_append, List.mem_singleton] at h
    exact h

/-- A map holds nothing but its entries. -/
theorem mem_newMap {κ α : Type} [DecidableEq κ] {entries : List (κ × α)} {entry : κ × α}
    (h : entry ∈ newMap entries) : entry ∈ entries := by
  have hfold : ∀ map : List (κ × α),
      entry ∈ entries.foldl (fun map entry => mapSet map entry.1 entry.2) map →
        entry ∈ map ∨ entry ∈ entries := by
    clear h
    induction entries with
    | nil =>
        intro map h
        exact .inl h
    | cons first rest ih =>
        intro map h
        rcases ih _ h with hmap | hrest
        · rcases mem_mapSet hmap with hold | hnew
          · exact .inl hold
          · exact .inr (hnew ▸ List.mem_cons_self)
        · exact .inr (List.mem_cons_of_mem _ hrest)
  rcases hfold [] h with hnil | hentry
  · cases hnil
  · exact hentry

variable {parse : UrlParser}

theorem normalizeAllowedTarget_ok {target : AllowedTarget} {normalized : NormalizedAllowedTarget}
    (h : normalizeAllowedTarget parse target = .ok normalized) :
    ∃ parsed, parse target.origin none = some parsed ∧ normalized.origin = parsed.origin ∧
      normalized.pathPrefix = target.pathPrefix.getD (units "/") := by
  unfold normalizeAllowedTarget at h
  cases hparse : parse target.origin none with
  | none =>
      rw [hparse] at h
      cases h
  | some parsed =>
      rw [hparse] at h
      simp only at h
      split_ifs at h
      cases h
      exact ⟨parsed, rfl, rfl, rfl⟩

/-- Every target of the list is one of those that were given. -/
theorem normalizeAllowedTargets_ok {localeCompare : Str → Str → Int} {targets : List AllowedTarget}
    {normalized : List NormalizedAllowedTarget}
    (h : normalizeAllowedTargets parse localeCompare targets = .ok normalized) :
    ∀ target ∈ normalized, ∃ given ∈ targets, normalizeAllowedTarget parse given = .ok target := by
  unfold normalizeAllowedTargets at h
  split_ifs at h
  obtain ⟨each, heach, hpure⟩ := bind_ok_iff.mp h
  cases hpure
  intro target htarget
  rw [List.mem_mergeSort] at htarget
  obtain ⟨entry, hentry, rfl⟩ := List.mem_map.mp htarget
  obtain ⟨found, hfound, rfl⟩ := List.mem_map.mp (mem_newMap hentry)
  exact mem_of_mapM_ok heach hfound

/-- **What is matched is allowed.** -/
theorem allowed_of_matches {localeCompare : Str → Str → Int} {targets : List AllowedTarget}
    {normalized : List NormalizedAllowedTarget} {url : URL}
    (h : normalizeAllowedTargets parse localeCompare targets = .ok normalized)
    (hmatch : matchesAllowedTarget normalized url = true) : Allowed parse targets url := by
  unfold matchesAllowedTarget at hmatch
  rw [Bool.and_eq_true, List.any_eq_true] at hmatch
  obtain ⟨hhttp, target, htarget, hboth⟩ := hmatch
  rw [Bool.and_eq_true, decide_eq_true_eq, List.isPrefixOf_iff_prefix] at hboth
  obtain ⟨given, hgiven, hnormalized⟩ := normalizeAllowedTargets_ok h target htarget
  obtain ⟨parsed, hparsed, horigin, hprefix⟩ := normalizeAllowedTarget_ok hnormalized
  refine ⟨hhttp, given, hgiven, parsed, hparsed, ?_, ?_⟩
  · rw [← hboth.1, horigin]
  · rw [← hprefix]
    exact hboth.2

end Targets

/-! ## §4. The visitor cookie. -/

def VISITOR_COOKIE : Str := units "_cekat_visitor_id"

def VISITOR_HEADER : Str := units "x-cekat-visitor-id"

/-- The code units that `trim()` takes off. -/
def isTrimmed (u : CodeUnit) : Bool := isAsciiSpace u.toNat || isSeparator u.toNat || u == 0xFEFF

/-- One turn of the loop of `readVisitorId`. -/
def fromCookie (cookie : Str) : Option Str :=
  if !cookie.contains 0x3D || trim isTrimmed (cookie.takeWhile fun u => u != 0x3D) != VISITOR_COOKIE then
    none
  else trimToNone isTrimmed (some ((cookie.dropWhile fun u => u != 0x3D).drop 1))

/-- `readVisitorId`. -/
def readVisitorId (cookieSource : Str) : Option Str :=
  (cookieSource.splitOn 0x3B).findSome? fromCookie

/-- The first value of the visitor cookie that is not blank. -/
theorem readVisitorId_eq (cookieSource : Str) :
    readVisitorId cookieSource = firstValue isTrimmed isTrimmed 0x3B 0x3D VISITOR_COOKIE cookieSource := by
  have hpair : fromCookie = pairValue isTrimmed isTrimmed 0x3D VISITOR_COOKIE := by
    funext pair
    rw [← pairValue_eq_ite]
    rfl
  unfold readVisitorId firstValue
  rw [hpair]

end CekatEvents.Browser
