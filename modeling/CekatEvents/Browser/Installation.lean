/-
  CekatEvents.Browser.Installation — enabling and disabling automatic propagation (`browser/auto.ts`).

  Propagation replaces four functions of the platform.  Each replacement is a closure over the functions
  that it replaced and over its installation; an installation is named by its number, which also names
  the `disable` that belongs to it.

  Main results:

    • `canonicalTargets_injective` — different targets have different canonical texts;
    • `installations_consistent` — after any calls of `enableAutoPropagation` and of the functions that it
      returned, the four functions are the originals, or the replacements of the one installation.
-/
import CekatEvents.Browser.Allowlist
import CekatEvents.JsonText.Quote

namespace CekatEvents.Browser

open CekatEvents.Encoding CekatEvents.Effects CekatEvents.JsonText

/-! ## §1. Functions. -/

/-- What `fetch` may be: the function of the platform, or `wrappedFetch`. -/
inductive FetchFunction where
  | original
  | wrapped (installation : Nat) (originalFetch : FetchFunction)
  deriving DecidableEq

/-- What the `open` of the prototype may be. -/
inductive OpenFunction where
  | original
  | wrapped (installation : Nat) (originalOpen : OpenFunction)
  deriving DecidableEq

inductive SetRequestHeaderFunction where
  | original
  | wrapped (installation : Nat) (originalSetRequestHeader : SetRequestHeaderFunction)
  deriving DecidableEq

/-- What the `send` of the prototype may be; `wrappedSend` sets its header past the other replacement. -/
inductive SendFunction where
  | original
  | wrapped (installation : Nat) (originalSetRequestHeader : SetRequestHeaderFunction)
      (originalSend : SendFunction)
  deriving DecidableEq

/-- The four functions. -/
structure Globals where
  fetch : FetchFunction
  open_ : OpenFunction
  setRequestHeader : SetRequestHeaderFunction
  send : SendFunction
  deriving DecidableEq

/-- The functions of the platform. -/
def originals : Globals := ⟨.original, .original, .original, .original⟩

/-- The replacements of an installation. -/
def wrappers (installation : Nat) (globals : Globals) : Globals where
  fetch := .wrapped installation globals.fetch
  open_ := .wrapped installation globals.open_
  setRequestHeader := .wrapped installation globals.setRequestHeader
  send := .wrapped installation globals.setRequestHeader globals.send

/-! ## §2. Canonical targets. -/

/-- A target as an object. -/
def targetValue {ν : Type} (target : NormalizedAllowedTarget) : Value ν :=
  .obj [(units "origin", .str target.origin), (units "pathPrefix", .str target.pathPrefix)]

/-- `canonicalTargets`. -/
def canonicalTargets (targets : List NormalizedAllowedTarget) : Str :=
  stringify (Empty.elim : Empty → Numeral) (.arr (targets.map targetValue))

theorem targetValue_injective {ν : Type} : Function.Injective (targetValue (ν := ν)) := by
  intro left right h
  have hmembers := Value.obj.inj h
  simp only [List.cons.injEq, Prod.mk.injEq, Value.str.injEq, true_and, and_true] at hmembers
  cases left
  cases right
  simp_all

/-- **Different targets have different canonical texts.** -/
theorem canonicalTargets_injective : Function.Injective canonicalTargets := by
  intro left right h
  have hwrites : ∀ targets, Writes (canonicalTargets targets) (.arr (targets.map targetValue)) := by
    intro targets
    have hraw : Writes (canonicalTargets targets)
        ((Value.arr (targets.map targetValue)).map (Empty.elim : Empty → Numeral)) :=
      stringify_writes (fun n => n.elim) _
    have hmap : (Value.arr (targets.map targetValue)).map (Empty.elim : Empty → Numeral) =
        .arr (targets.map targetValue) := by
      show Value.arr (mapElems _ _) = _
      rw [mapElems_eq_map, List.map_map]
      rfl
    rwa [hmap] at hraw
  have hright := hwrites right
  rw [← h] at hright
  have hsame := Value.arr.inj ((hwrites left).unique hright)
  exact targetValue_injective.list_map hsame

/-! ## §3. Installations. -/

/-- What the closures of an installation share. -/
structure Installation where
  targets : List NormalizedAllowedTarget
  captured : Globals
  disabled : Bool

/-- The value of `activeInstallation`; a `disable` is known by its installation. -/
structure ActiveInstallation where
  canonicalTargets : Str
  disable : Nat

/-- The four functions, the installations in the order in which they were made, and the variable of the
    module. -/
structure Window where
  globals : Globals
  installations : List Installation
  activeInstallation : Option ActiveInstallation

/-- Nothing has been enabled. -/
def Window.initial : Window := ⟨originals, [], none⟩

/-- What `enableAutoPropagation` throws. -/
inductive EnableError where
  | typeError (message : String)
  | error (message : String)
  deriving DecidableEq

def differentConfiguration : String :=
  "Automatic visitor propagation is already enabled with a different configuration. Disable it before enabling a new configuration."

section Propagation

variable (parse : UrlParser) (localeCompare : Str → Str → Int)

/-- `enableAutoPropagation`: the `disable` it returns, or what it throws, and the window after it. -/
def Window.enableAutoPropagation (w : Window) (allowedTargets : List AllowedTarget) :
    Except EnableError Nat × Window :=
  match normalizeAllowedTargets parse localeCompare allowedTargets with
  | .error message => (.error (.typeError message), w)
  | .ok targets =>
      let canonical := canonicalTargets targets
      match w.activeInstallation with
      | some active =>
          if active.canonicalTargets = canonical then (.ok active.disable, w)
          else (.error (.error differentConfiguration), w)
      | none =>
          let installation := w.installations.length
          (.ok installation,
            { globals := wrappers installation w.globals
              installations := w.installations ++ [⟨targets, w.globals, false⟩]
              activeInstallation := some ⟨canonical, installation⟩ })

/-- `disable`: the functions that were captured are put back, once. -/
def Window.disable (w : Window) (disable : Nat) : Window :=
  match w.installations[disable]? with
  | none => w
  | some installation =>
      if installation.disabled then w
      else
        { globals := installation.captured
          installations := w.installations.set disable { installation with disabled := true }
          activeInstallation := w.activeInstallation.filter fun active => active.disable ≠ disable }

/-- A call of `enableAutoPropagation`, or of one of the functions that it returned. -/
inductive Toggle where
  | enable (allowedTargets : List AllowedTarget)
  | disable (disable : Nat)

/-- The window after a call. -/
def Window.toggle (w : Window) : Toggle → Window
  | .enable allowedTargets => (w.enableAutoPropagation parse localeCompare allowedTargets).2
  | .disable disable => w.disable disable

/-! ## §4. The invariant. -/

/-- The installation is the active one: its replacements stand in front of the originals. -/
structure Window.Active (w : Window) (id : Nat) (installation : Installation) : Prop where
  found : w.installations[id]? = some installation
  enabled : installation.disabled = false
  captured : installation.captured = originals
  globals : w.globals = wrappers id originals
  active : w.activeInstallation = some ⟨canonicalTargets installation.targets, id⟩

/-- **All four functions are the originals, or the replacements of one active installation**, and every
    other installation is disabled. -/
structure Window.Consistent (w : Window) : Prop where
  globals : (w.activeInstallation = none ∧ w.globals = originals) ∨
    ∃ id installation, w.Active id installation
  disabled : ∀ id installation, w.installations[id]? = some installation →
    installation.disabled = false → ∃ active, w.activeInstallation = some active ∧ active.disable = id

theorem Window.consistent_initial : Window.initial.Consistent where
  globals := .inl ⟨rfl, rfl⟩
  disabled := by
    intro id installation hfound
    simp [Window.initial] at hfound

variable {parse localeCompare} {w : Window}

/-! ### Enabling. -/

theorem enable_invalid {allowedTargets : List AllowedTarget} {message : String}
    (h : normalizeAllowedTargets parse localeCompare allowedTargets = .error message) :
    w.enableAutoPropagation parse localeCompare allowedTargets = (.error (.typeError message), w) := by
  unfold Window.enableAutoPropagation
  rw [h]

/-- The same configuration once more. -/
theorem enable_same {allowedTargets : List AllowedTarget} {targets : List NormalizedAllowedTarget}
    {active : ActiveInstallation}
    (h : normalizeAllowedTargets parse localeCompare allowedTargets = .ok targets)
    (hactive : w.activeInstallation = some active)
    (hsame : active.canonicalTargets = canonicalTargets targets) :
    w.enableAutoPropagation parse localeCompare allowedTargets = (.ok active.disable, w) := by
  unfold Window.enableAutoPropagation
  rw [h]
  dsimp only
  rw [hactive]
  exact if_pos hsame

theorem enable_different {allowedTargets : List AllowedTarget} {targets : List NormalizedAllowedTarget}
    {active : ActiveInstallation}
    (h : normalizeAllowedTargets parse localeCompare allowedTargets = .ok targets)
    (hactive : w.activeInstallation = some active)
    (hdifferent : active.canonicalTargets ≠ canonicalTargets targets) :
    w.enableAutoPropagation parse localeCompare allowedTargets =
      (.error (.error differentConfiguration), w) := by
  unfold Window.enableAutoPropagation
  rw [h]
  dsimp only
  rw [hactive]
  exact if_neg hdifferent

/-- The window after a new installation. -/
def Window.install (w : Window) (targets : List NormalizedAllowedTarget) : Window where
  globals := wrappers w.installations.length w.globals
  installations := w.installations ++ [⟨targets, w.globals, false⟩]
  activeInstallation := some ⟨canonicalTargets targets, w.installations.length⟩

theorem enable_install {allowedTargets : List AllowedTarget} {targets : List NormalizedAllowedTarget}
    (h : normalizeAllowedTargets parse localeCompare allowedTargets = .ok targets)
    (hactive : w.activeInstallation = none) :
    w.enableAutoPropagation parse localeCompare allowedTargets =
      (.ok w.installations.length, w.install targets) := by
  unfold Window.enableAutoPropagation
  rw [h]
  dsimp only
  rw [hactive]
  rfl

/-- A call of `enableAutoPropagation` makes an installation where there is none, or changes nothing. -/
theorem enable_cases (parse : UrlParser) (localeCompare : Str → Str → Int) (w : Window)
    (allowedTargets : List AllowedTarget) :
    (w.enableAutoPropagation parse localeCompare allowedTargets).2 = w ∨
      w.activeInstallation = none ∧ ∃ targets,
        (w.enableAutoPropagation parse localeCompare allowedTargets).2 = w.install targets := by
  cases hnormalized : normalizeAllowedTargets parse localeCompare allowedTargets with
  | error message => exact .inl (by rw [enable_invalid hnormalized])
  | ok targets =>
      cases hactive : w.activeInstallation with
      | none => exact .inr ⟨rfl, targets, by rw [enable_install hnormalized hactive]⟩
      | some active =>
          by_cases hsame : active.canonicalTargets = canonicalTargets targets
          · exact .inl (by rw [enable_same hnormalized hactive hsame])
          · exact .inl (by rw [enable_different hnormalized hactive hsame])

/-- An installation in a window without one. -/
theorem Window.Consistent.install (h : w.Consistent) (hactive : w.activeInstallation = none)
    (targets : List NormalizedAllowedTarget) : (w.install targets).Consistent := by
  have horiginals : w.globals = originals := by
    rcases h.globals with hnone | ⟨id, installation, hid⟩
    · exact hnone.2
    · rw [hid.active] at hactive
      cases hactive
  refine ⟨.inr ⟨w.installations.length, ⟨targets, w.globals, false⟩, ?_⟩, ?_⟩
  · refine ⟨?_, rfl, horiginals, ?_, rfl⟩
    · show (w.installations ++ [_])[w.installations.length]? = _
      rw [List.getElem?_append_right (Nat.le_refl _), Nat.sub_self]
      rfl
    · show wrappers w.installations.length w.globals = _
      rw [horiginals]
  · intro id installation hfound henabled
    have hfound : (w.installations ++ [(⟨targets, w.globals, false⟩ : Installation)])[id]? =
        some installation := hfound
    refine ⟨_, rfl, ?_⟩
    show w.installations.length = id
    by_cases hold : id < w.installations.length
    · -- no older installation is enabled
      rw [List.getElem?_append_left hold] at hfound
      obtain ⟨active, hsome, -⟩ := h.disabled id installation hfound henabled
      rw [hactive] at hsome
      cases hsome
    · have hlen := (List.getElem?_eq_some_iff.mp hfound).1
      rw [List.length_append, List.length_singleton] at hlen
      omega

/-! ### Disabling. -/

/-- **A `disable` that is not the active one changes nothing.** -/
theorem Window.Consistent.disable_stale (h : w.Consistent) {id : Nat}
    (hstale : ∀ active, w.activeInstallation = some active → active.disable ≠ id) :
    w.disable id = w := by
  unfold Window.disable
  cases hfound : w.installations[id]? with
  | none => rfl
  | some installation =>
      cases hdisabled : installation.disabled with
      | true => exact if_pos hdisabled
      | false =>
          obtain ⟨active, hactive, hid⟩ := h.disabled id installation hfound hdisabled
          exact absurd hid (hstale active hactive)

/-- The active `disable` puts the originals back. -/
theorem Window.Active.disable {id : Nat} {installation : Installation} (h : w.Active id installation) :
    w.disable id = ⟨originals, w.installations.set id { installation with disabled := true }, none⟩ := by
  unfold Window.disable
  rw [h.found]
  dsimp only
  rw [if_neg (by rw [h.enabled]; decide), h.captured, h.active]
  simp

/-- A call of `disable` puts the originals back, or changes nothing. -/
theorem Window.Consistent.disable_cases (h : w.Consistent) (id : Nat) :
    w.disable id = w ∨ ∃ installation, installation.disabled = true ∧
      (∃ active, w.activeInstallation = some active ∧ active.disable = id) ∧
        w.disable id = ⟨originals, w.installations.set id installation, none⟩ := by
  by_cases hstale : ∀ active, w.activeInstallation = some active → active.disable ≠ id
  · exact .inl (h.disable_stale hstale)
  · simp only [not_forall, not_not] at hstale
    obtain ⟨active, hactive, rfl⟩ := hstale
    rcases h.globals with hnone | ⟨id, installation, hid⟩
    · rw [hnone.1] at hactive
      cases hactive
    · have hsame := hid.active
      rw [hactive, Option.some.injEq] at hsame
      subst hsame
      exact .inr ⟨{ installation with disabled := true }, rfl, ⟨_, hactive, rfl⟩, hid.disable⟩

theorem Window.Consistent.disable (h : w.Consistent) (id : Nat) : (w.disable id).Consistent := by
  rcases h.disable_cases id with hsame | ⟨disabled, hdisabled, ⟨active, hactive, rfl⟩, hdisable⟩
  · rw [hsame]
    exact h
  · rw [hdisable]
    refine ⟨.inl ⟨rfl, rfl⟩, ?_⟩
    intro other found hfound henabled
    have hfound : (w.installations.set active.disable disabled)[other]? = some found := hfound
    rw [List.getElem?_set] at hfound
    split_ifs at hfound with heq hlt
    · -- the installation itself is disabled now
      cases hfound
      rw [hdisabled] at henabled
      cases henabled
    · obtain ⟨same, hsome, rfl⟩ := h.disabled other found hfound henabled
      rw [hactive, Option.some.injEq] at hsome
      subst hsome
      exact absurd rfl heq

/-- **One call keeps the invariant.** -/
theorem Window.Consistent.toggle (h : w.Consistent) (toggle : Toggle) :
    (w.toggle parse localeCompare toggle).Consistent := by
  cases toggle with
  | disable id => exact h.disable id
  | enable allowedTargets =>
      show (w.enableAutoPropagation parse localeCompare allowedTargets).2.Consistent
      rcases enable_cases parse localeCompare w allowedTargets with
        hsame | ⟨hactive, targets, hinstall⟩
      · rw [hsame]
        exact h
      · rw [hinstall]
        exact h.install hactive targets

/-! ## §5. Runs. -/

/-- The window after calls one after another. -/
def Window.after (parse : UrlParser) (localeCompare : Str → Str → Int) (toggles : List Toggle) : Window :=
  toggles.foldl (Window.toggle parse localeCompare) .initial

theorem Window.consistent_after (toggles : List Toggle) :
    (Window.after parse localeCompare toggles).Consistent :=
  List.foldlRecOn toggles _ consistent_initial fun _ h toggle _ => h.toggle toggle

end Propagation

/-- **After any calls, current or stale**, the four functions are the originals, or the replacements of
    one active installation, which captured the originals.  Enabling the active configuration once more
    returns its `disable`; enabling another one, or an invalid one, throws; neither changes anything, and
    nor does a `disable` that is not the active one. -/
theorem installations_consistent (parse : UrlParser) (localeCompare : Str → Str → Int)
    (toggles : List Toggle) :
    let w := Window.after parse localeCompare toggles
    ((w.activeInstallation = none ∧ w.globals = originals) ∨
      ∃ id installation, w.Active id installation) ∧
    (∀ allowedTargets message,
      normalizeAllowedTargets parse localeCompare allowedTargets = .error message →
      w.enableAutoPropagation parse localeCompare allowedTargets = (.error (.typeError message), w)) ∧
    (∀ allowedTargets targets active,
      normalizeAllowedTargets parse localeCompare allowedTargets = .ok targets →
      w.activeInstallation = some active → active.canonicalTargets = canonicalTargets targets →
      w.enableAutoPropagation parse localeCompare allowedTargets = (.ok active.disable, w)) ∧
    (∀ allowedTargets targets active,
      normalizeAllowedTargets parse localeCompare allowedTargets = .ok targets →
      w.activeInstallation = some active → active.canonicalTargets ≠ canonicalTargets targets →
      w.enableAutoPropagation parse localeCompare allowedTargets =
        (.error (.error differentConfiguration), w)) ∧
    ∀ id, (∀ active, w.activeInstallation = some active → active.disable ≠ id) → w.disable id = w := by
  intro w
  have hconsistent : w.Consistent := Window.consistent_after toggles
  refine ⟨hconsistent.globals, ?_, ?_, ?_, ?_⟩
  · intro allowedTargets message h
    exact enable_invalid h
  · intro allowedTargets targets active h hactive hsame
    exact enable_same h hactive hsame
  · intro allowedTargets targets active h hactive hdifferent
    exact enable_different h hactive hdifferent
  · intro id hstale
    exact hconsistent.disable_stale hstale

end CekatEvents.Browser
