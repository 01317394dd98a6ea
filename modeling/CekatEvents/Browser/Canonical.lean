/-
  CekatEvents.Browser.Canonical — the canonical form of an allowlist (`browser/allowlist.ts`).

  `normalizeAllowedTargets` drops the targets that it has met and sorts the others.  The comparison of the
  sort is `localeCompare`, which calls some different strings equal; the targets that it calls equal stay
  in the order of the list that was given.

  Main results:

    • `sameConfiguration_iff` — two lists of the same targets are the same configuration exactly when the
      targets that the comparison calls equal come in the same order in both;
    • `composed_targets_differ` — two spellings of one path, in both orders.
-/
import CekatEvents.Browser.Installation
import CekatEvents.Browser.Propagation
import CekatEvents.Ordering.StableSort
import Mathlib.Data.List.Lex
import Mathlib.Order.Lattice

namespace CekatEvents.Browser

open CekatEvents.Encoding CekatEvents.Effects CekatEvents.Ordering

/-! ## §1. The map. -/

section Map

variable {κ α : Type} [DecidableEq κ] [DecidableEq α] {key : α → κ}

/-- An entry is put into a map of such entries. -/
theorem mapSet_entries {seen : List α} {x : α} (hkey : ∀ a ∈ seen, key a = key x → a = x) :
    mapSet (seen.map fun a => (key a, a)) (key x) x =
      (if x ∈ seen then seen else seen ++ [x]).map fun a => (key a, a) := by
  have hany : ((seen.map fun a => (key a, a)).any fun entry => decide (entry.1 = key x)) = true ↔
      x ∈ seen := by
    rw [List.any_map, List.any_eq_true]
    constructor
    · rintro ⟨a, ha, heq⟩
      exact hkey a ha (of_decide_eq_true heq) ▸ ha
    · intro hx
      exact ⟨x, hx, decide_eq_true rfl⟩
  unfold mapSet
  by_cases hx : x ∈ seen
  · rw [if_pos (hany.mpr hx), if_pos hx, List.map_map]
    apply List.map_congr_left
    intro a ha
    show (if key a = key x then (key x, x) else (key a, a)) = (key a, a)
    split_ifs with heq
    · rw [hkey a ha heq]
    · rfl
  · rw [if_neg (fun h => hx (hany.mp h)), if_neg hx, List.map_append]
    rfl

/-- **A map of entries under different keys** holds the different elements. -/
theorem newMap_entries {xs : List α} (hkey : ∀ a ∈ xs, ∀ b ∈ xs, key a = key b → a = b) :
    (newMap (xs.map fun a => (key a, a))).map Prod.snd = distinct xs := by
  have hmap : newMap (xs.map fun a => (key a, a)) = (distinct xs).map fun a => (key a, a) := by
    induction xs using List.reverseRecOn with
    | nil => rfl
    | append_singleton xs x ih =>
        have hold : ∀ a ∈ xs, ∀ b ∈ xs, key a = key b → a = b := fun a ha b hb =>
          hkey a (List.mem_append_left _ ha) b (List.mem_append_left _ hb)
        have hlast : newMap ((xs ++ [x]).map fun a => (key a, a)) =
            mapSet (newMap (xs.map fun a => (key a, a))) (key x) x := by
          unfold newMap
          rw [List.map_append, List.foldl_append]
          rfl
        rw [hlast, ih hold, distinct_concat]
        apply mapSet_entries
        intro a ha
        exact hkey a (List.mem_append_left _ (mem_distinct.mp ha)) x (by simp)
  rw [hmap, List.map_map]
  exact List.map_id _

end Map

/-! ## §2. Configurations. -/

section Targets

variable {parse : UrlParser} {localeCompare : Str → Str → Int}

/-- The comparison of the sort orders the targets. -/
theorem totalPreorder_compareTargets (h : TotalPreorder localeCompare) :
    TotalPreorder (compareTargets localeCompare) :=
  (h.on NormalizedAllowedTarget.origin).thenCompare (h.on NormalizedAllowedTarget.pathPrefix)

/-- The origin of a URL holds no NUL. -/
def OriginsWithoutNul (parse : UrlParser) : Prop :=
  ∀ url base parsed, parse url base = some parsed → (0 : CodeUnit) ∉ parsed.origin

/-- The key of a target says which target it is. -/
theorem target_of_key {left right : NormalizedAllowedTarget} (hleft : (0 : CodeUnit) ∉ left.origin)
    (hright : (0 : CodeUnit) ∉ right.origin)
    (h : left.origin ++ [0] ++ left.pathPrefix = right.origin ++ [0] ++ right.pathPrefix) :
    left = right := by
  have hl := Http.takeWhile_dropWhile_ne left.pathPrefix hleft
  have hr := Http.takeWhile_dropWhile_ne right.pathPrefix hright
  rw [List.append_assoc, List.append_assoc] at h
  have h : left.origin ++ 0 :: left.pathPrefix = right.origin ++ 0 :: right.pathPrefix := h
  rw [h] at hl
  cases left
  cases right
  simp only [NormalizedAllowedTarget.mk.injEq]
  exact ⟨hl.1.symm.trans hr.1, hl.2.symm.trans hr.2⟩

/-- **What accepted targets are normalized to.** -/
theorem normalizeAllowedTargets_eq (localeCompare : Str → Str → Int)
    (hparse : OriginsWithoutNul parse) {targets : List AllowedTarget}
    {normalized : List NormalizedAllowedTarget} (hne : targets ≠ [])
    (h : targets.mapM (normalizeAllowedTarget parse) = .ok normalized) :
    normalizeAllowedTargets parse localeCompare targets =
      .ok (sortDistinct (compareTargets localeCompare) normalized) := by
  have horigin : ∀ target ∈ normalized, (0 : CodeUnit) ∉ target.origin := by
    intro target htarget
    obtain ⟨given, -, hgiven⟩ := mem_of_mapM_ok h htarget
    obtain ⟨parsed, hparsed, heq, -⟩ := normalizeAllowedTarget_ok hgiven
    rw [heq]
    exact hparse _ _ _ hparsed
  unfold normalizeAllowedTargets
  rw [if_neg (fun hlen => hne (List.eq_nil_of_length_eq_zero hlen)), h]
  show Except.ok (List.mergeSort ((newMap _).map Prod.snd) _) = _
  rw [newMap_entries fun left hleft right hright hkey =>
    target_of_key (horigin left hleft) (horigin right hright) hkey]
  rfl

/-- **The two lists are one configuration**: they are normalized alike, and enabling the second one while
    the first one is active returns the active `disable` and changes nothing. -/
structure SameConfiguration (parse : UrlParser) (localeCompare : Str → Str → Int)
    (first second : List AllowedTarget) : Prop where
  normalized : normalizeAllowedTargets parse localeCompare first =
    normalizeAllowedTargets parse localeCompare second
  enabled : ∀ w : Window, w.activeInstallation = none →
    (w.enableAutoPropagation parse localeCompare first).2.enableAutoPropagation parse localeCompare second =
      w.enableAutoPropagation parse localeCompare first

/-- Enabling compares what the lists are normalized to. -/
theorem sameConfiguration_iff_normalized {first second : List AllowedTarget}
    {normalized : List NormalizedAllowedTarget}
    (hfirst : normalizeAllowedTargets parse localeCompare first = .ok normalized) :
    SameConfiguration parse localeCompare first second ↔
      normalizeAllowedTargets parse localeCompare first =
        normalizeAllowedTargets parse localeCompare second := by
  refine ⟨fun h => h.normalized, fun h => ⟨h, ?_⟩⟩
  intro w hnone
  rw [enable_install hfirst hnone]
  have hactive : (w.install normalized).activeInstallation =
      some ⟨canonicalTargets normalized, w.installations.length⟩ := rfl
  exact enable_same (h ▸ hfirst) hactive rfl

/-- **Two nonempty lists of the same targets are one configuration** exactly when the targets that the
    comparison calls equal first occur in the same order in both. -/
theorem sameConfiguration_iff (parse : UrlParser) (localeCompare : Str → Str → Int)
    (hparse : OriginsWithoutNul parse) (hcompare : TotalPreorder localeCompare)
    (first second : List AllowedTarget) (hfirst : first ≠ []) (hsecond : second ≠ [])
    (normalized normalized' : List NormalizedAllowedTarget)
    (hnormalized : first.mapM (normalizeAllowedTarget parse) = .ok normalized)
    (hnormalized' : second.mapM (normalizeAllowedTarget parse) = .ok normalized')
    (hsame : ∀ target, target ∈ normalized ↔ target ∈ normalized') :
    SameConfiguration parse localeCompare first second ↔
      ∀ left ∈ normalized, ∀ right ∈ normalized, left ≠ right →
        compareTargets localeCompare left right = 0 →
          (normalized.idxOf left < normalized.idxOf right ↔
            normalized'.idxOf left < normalized'.idxOf right) := by
  have hlist := normalizeAllowedTargets_eq localeCompare hparse hfirst hnormalized
  have hlist' := normalizeAllowedTargets_eq localeCompare hparse hsecond hnormalized'
  rw [sameConfiguration_iff_normalized hlist, hlist, hlist', Except.ok.injEq]
  exact sortDistinct_eq_iff (totalPreorder_compareTargets hcompare) hsame

end Targets

/-! ## §3. Two spellings of one path. -/

/-- A parser whose origins hold no NUL. -/
def cleanParse : UrlParser := fun url base =>
  (plainParse url base).filter fun parsed => !parsed.origin.contains 0

theorem originsWithoutNul_cleanParse : OriginsWithoutNul cleanParse := by
  intro url base parsed h
  have hclean := (Option.filter_eq_some_iff.mp h).2
  simpa using hclean

/-- A composed letter is taken apart. -/
def decomposed (text : Str) : List Nat :=
  text.flatMap fun u => if u = 0xE9 then [0x65, 0x301] else [u.toNat]

/-- A comparison that does not tell a composed letter from its parts. -/
def composedCompare (left right : Str) : Int := orderCompare (decomposed left) (decomposed right)

theorem totalPreorder_composedCompare : TotalPreorder composedCompare :=
  totalPreorder_orderCompare.on decomposed

theorem composedCompare_eq_zero {left right : Str} (h : decomposed left = decomposed right) :
    composedCompare left right = 0 := by
  unfold composedCompare
  rw [h]
  exact orderCompare_self _

/-- The path with the composed letter. -/
def composedTarget : AllowedTarget := ⟨units "https://a", some [0x2F, 0xE9]⟩

/-- The path with its parts. -/
def decomposedTarget : AllowedTarget := ⟨units "https://a", some [0x2F, 0x65, 0x301]⟩

theorem normalize_composed : [composedTarget, decomposedTarget].mapM (normalizeAllowedTarget cleanParse) =
    .ok [⟨units "https://a", [0x2F, 0xE9]⟩, ⟨units "https://a", [0x2F, 0x65, 0x301]⟩] := by
  rfl

theorem normalize_decomposed : [decomposedTarget, composedTarget].mapM (normalizeAllowedTarget cleanParse) =
    .ok [⟨units "https://a", [0x2F, 0x65, 0x301]⟩, ⟨units "https://a", [0x2F, 0xE9]⟩] := by
  rfl

/-- **The order of two spellings decides** whether the configuration is the same. -/
theorem composed_targets_differ : ¬ ∀ (parse : UrlParser) (localeCompare : Str → Str → Int),
    OriginsWithoutNul parse → TotalPreorder localeCompare →
    ∀ (first second : List AllowedTarget) (normalized normalized' : List NormalizedAllowedTarget),
      first ≠ [] → second ≠ [] → first.mapM (normalizeAllowedTarget parse) = .ok normalized →
      second.mapM (normalizeAllowedTarget parse) = .ok normalized' →
      (∀ target, target ∈ normalized ↔ target ∈ normalized') →
      SameConfiguration parse localeCompare first second := by
  intro h
  have hsame := (h cleanParse composedCompare originsWithoutNul_cleanParse totalPreorder_composedCompare
    [composedTarget, decomposedTarget] [decomposedTarget, composedTarget] _ _ (by simp) (by simp)
    normalize_composed normalize_decomposed (by simp [or_comm])).normalized
  rw [normalizeAllowedTargets_eq _ originsWithoutNul_cleanParse (by simp) normalize_composed,
    normalizeAllowedTargets_eq _ originsWithoutNul_cleanParse (by simp) normalize_decomposed,
    Except.ok.injEq, sortDistinct_eq_iff (totalPreorder_compareTargets totalPreorder_composedCompare)
      (by simp [or_comm])] at hsame
  have horder := hsame ⟨units "https://a", [0x2F, 0xE9]⟩ (by simp)
    ⟨units "https://a", [0x2F, 0x65, 0x301]⟩ (by simp) (by decide) (by
      unfold compareTargets
      rw [if_neg (not_not.mpr (composedCompare_eq_zero rfl))]
      exact composedCompare_eq_zero (by decide))
  exact absurd horder (by decide)

/-- A path of ASCII. -/
def plainTarget : AllowedTarget := ⟨units "https://a", some [0x2F, 0x61]⟩

/-- Two targets in two orders, one of them given twice. -/
theorem reordered_targets_same :
    SameConfiguration cleanParse composedCompare [composedTarget, plainTarget]
      [plainTarget, composedTarget, plainTarget] := by
  refine (sameConfiguration_iff cleanParse composedCompare originsWithoutNul_cleanParse
    totalPreorder_composedCompare [composedTarget, plainTarget] [plainTarget, composedTarget, plainTarget]
    (by simp) (by simp) [⟨units "https://a", [0x2F, 0xE9]⟩, ⟨units "https://a", [0x2F, 0x61]⟩]
    [⟨units "https://a", [0x2F, 0x61]⟩, ⟨units "https://a", [0x2F, 0xE9]⟩,
      ⟨units "https://a", [0x2F, 0x61]⟩] rfl rfl (by simp [or_comm])).mpr ?_
  intro left hleft right hright hne hzero
  have hforth : compareTargets composedCompare ⟨units "https://a", [0x2F, 0xE9]⟩
      ⟨units "https://a", [0x2F, 0x61]⟩ ≠ 0 := by decide
  have hback : compareTargets composedCompare ⟨units "https://a", [0x2F, 0x61]⟩
      ⟨units "https://a", [0x2F, 0xE9]⟩ ≠ 0 := by decide
  rw [List.mem_pair] at hleft hright
  rcases hleft with rfl | rfl <;> rcases hright with rfl | rfl
  · exact absurd rfl hne
  · exact absurd hzero hforth
  · exact absurd hzero hback
  · exact absurd rfl hne

end CekatEvents.Browser
