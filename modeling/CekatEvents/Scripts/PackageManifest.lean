/-
  CekatEvents.Scripts.PackageManifest — the shape of a release manifest (`parse_manifest` in
  `scripts/validate-package-manifest.py`).

  A dozen checks stand one behind the other, and each of them raises `ManifestError`.  The last one sorts the
  paths by their UTF-8 bytes, which a path with an unpaired surrogate does not have: there `encode` raises.

  Main results:

    • `decides_parseListing`       — up to the order of the paths, a listing is returned or `ManifestError` raised;
    • `parseManifest_decides_iff`  — the whole check does so exactly when no path that is to be sorted has an
                                     unpaired surrogate.
-/
import CekatEvents.Effects.Outcome
import CekatEvents.Encoding.Split
import CekatEvents.JsonText.Entries
import CekatEvents.Python.Outcomes
import CekatEvents.Scripts.Values

namespace CekatEvents.Scripts

open CekatEvents.Effects CekatEvents.Encoding CekatEvents.JsonText CekatEvents.Ordering
  CekatEvents.Python.Validation

/-! ## §1. `parse_manifest`. -/

/-- What is raised: `ManifestError`, `KeyError` and `UnicodeEncodeError`. -/
inductive Raised where
  | manifest (message : PyStr)
  | key
  | unicodeEncode

structure Artifact where
  path : PyStr
  sha256 : PyStr
  sizeBytes : Int

def LANGUAGES : List PyStr := ["go", "node", "python", "php", "java", "dotnet", "ruby"].map text

def MANIFEST_NAME : PyStr := text "manifest.json"

def slash : CodePoint := 0x2F

def backslash : CodePoint := 0x5C

def nul : CodePoint := 0

/-- `if condition: raise ManifestError(message)`. -/
def reject (condition : Bool) (message : PyStr) : Except Raised Unit :=
  if condition then .error (.manifest message) else .ok ()

/-- `entries[key]`. -/
def subscript (entries : List (PyStr × PyValue)) (key : String) : Except Raised PyValue :=
  match getKey entries (text key) with
  | some value => .ok value
  | none => .error .key

/-- `set(entries) == keys`. -/
def hasKeys (entries : List (PyStr × PyValue)) (keys : List PyStr) : Bool :=
  (entries.map Prod.fst).all keys.contains && keys.all (entries.map Prod.fst).contains

/-- `if not isinstance(value, dict): raise ManifestError(message)`. -/
def requireDict (message : PyStr) : PyValue → Except Raised (List (PyStr × PyValue))
  | .dict entries => .ok entries
  | _ => .error (.manifest message)

/-- `if not isinstance(value, list): raise ManifestError(message)`. -/
def requireList (message : PyStr) : PyValue → Except Raised (List PyValue)
  | .list items => .ok items
  | _ => .error (.manifest message)

/-- `if not isinstance(value, str): raise ManifestError(message)`. -/
def requireStr (message : PyStr) : PyValue → Except Raised PyStr
  | .str s => .ok s
  | _ => .error (.manifest message)

/-- `if not _is_int(value): raise ManifestError(message)`. -/
def requireInt (message : PyStr) : PyValue → Except Raised Int
  | .int n => .ok n
  | _ => .error (.manifest message)

/-- `SHA256_PATTERN.fullmatch`. -/
def fullmatch (sha256 : PyStr) : Bool :=
  decide (sha256.length = 64) &&
    sha256.all fun c => decide ((0x30 ≤ c.val ∧ c.val ≤ 0x39) ∨ (0x61 ≤ c.val ∧ c.val ≤ 0x66))

/-- `value.encode("utf-8")`. -/
def encodeUtf8 (value : PyStr) : Except Raised (List UInt8) :=
  match chars? value with
  | some cs => .ok (utf8 cs)
  | none => .error .unicodeEncode

/-- `sorted(paths, key=lambda value: value.encode("utf-8"))`: the keys first, then the order. -/
def sortedByBytes (paths : List PyStr) : Except Raised (List PyStr) := do
  let keys ← paths.mapM encodeUtf8
  pure (((keys.zip paths).mergeSort fun a b => bytesLe a.1 b.1).map Prod.snd)

section Parse

variable (repr : PyValue → PyStr)

/-- `_check_path`. -/
def checkPath (path : PyValue) : Except Raised PyStr := do
  let noText := text "artifact path must be a non-empty string"
  let path ← requireStr noText path
  let shown := text "artifact path " ++ repr (.str path)
  reject (decide (path = [])) noText
  reject (path.contains backslash || path.contains nul) (shown ++ text " contains a backslash or NUL")
  reject (decide (path.head? = some slash)) (shown ++ text " must be relative")
  reject ((path.splitOn slash).any [[], text ".", text ".."].contains)
    (shown ++ text " contains an empty, '.', or '..' component")
  reject (decide (path = MANIFEST_NAME)) (text "the manifest must not list itself")
  pure path

def artifactKeys : List PyStr := ["path", "sha256", "size_bytes"].map text

/-- What the loop does with one entry. -/
def parseArtifact (index : Nat) (raw : PyValue) : Except Raised Artifact := do
  let refused := text "artifacts[" ++ (decimal index ++ text "] must have exactly path, sha256, and size_bytes")
  let entries ← requireDict refused raw
  reject (!hasKeys entries artifactKeys) refused
  let path ← checkPath repr (← subscript entries "path")
  let shown := text "artifact " ++ repr (.str path)
  let noDigest := shown ++ text " sha256 must be 64 lowercase hexadecimal characters"
  let sha256 ← requireStr noDigest (← subscript entries "sha256")
  reject (!fullmatch sha256) noDigest
  let noSize := shown ++ text " size_bytes must be an integer of at least 1"
  let size ← requireInt noSize (← subscript entries "size_bytes")
  reject (decide (size < 1)) noSize
  pure ⟨path, sha256, size⟩

/-- The loop over the entries, from an index on. -/
def parseArtifacts (index : Nat) : List PyValue → Except Raised (List Artifact)
  | [] => pure []
  | raw :: rawArtifacts => do
      let artifact ← parseArtifact repr index raw
      let artifacts ← parseArtifacts (index + 1) rawArtifacts
      pure (artifact :: artifacts)

def expectedKeys : List PyStr := ["schema_version", "language", "version", "artifacts"].map text

/-- `f"{sorted(keys)}"`. -/
def showSorted (keys : List PyStr) : PyStr := repr (.list ((sorted keys).map .str))

/-- The checks of the document in front of those of its artifacts. -/
def checkHeader (document : PyValue) (language version : PyStr) : Except Raised (List (PyStr × PyValue)) := do
  let entries ← requireDict (text "manifest must be a JSON object") document
  let unknown := (entries.map Prod.fst).filter fun k => !expectedKeys.contains k
  let missing := expectedKeys.filter fun k => !(entries.map Prod.fst).contains k
  reject (!hasKeys entries expectedKeys) (text "manifest keys must be exactly " ++ (showSorted repr expectedKeys ++
    (text " (unknown " ++ (showSorted repr unknown ++ (text ", missing " ++ (showSorted repr missing ++ text ")"))))))
  let noSchema := text "schema_version must be the integer 1"
  let schemaVersion ← requireInt noSchema (← subscript entries "schema_version")
  reject (decide (schemaVersion ≠ 1)) noSchema
  let found ← subscript entries "language"
  reject (!LANGUAGES.any found.isStr) (text "language must be one of " ++ commas LANGUAGES)
  reject (!found.isStr language)
    (text "language is " ++ (repr found ++ (text ", expected " ++ repr (.str language))))
  let found ← subscript entries "version"
  reject (!found.isStr version)
    (text "version is " ++ (repr found ++ (text ", expected " ++ repr (.str version))))
  pure entries

/-- The checks in front of the order of the paths. -/
def parseListing (document : PyValue) (language version : PyStr) : Except Raised (List Artifact) := do
  let entries ← checkHeader repr document language version
  let noArray := text "artifacts must be a non-empty array"
  let rawArtifacts ← requireList noArray (← subscript entries "artifacts")
  reject rawArtifacts.isEmpty noArray
  let artifacts ← parseArtifacts repr 0 rawArtifacts
  let paths := artifacts.map Artifact.path
  reject (decide (paths.dedup.length ≠ paths.length)) (text "artifact paths must be unique")
  pure artifacts

/-- `parse_manifest`. -/
def parseManifest (document : PyValue) (language version : PyStr) : Except Raised (List Artifact) := do
  let artifacts ← parseListing repr document language version
  let paths := artifacts.map Artifact.path
  let ordered ← sortedByBytes paths
  reject (decide (paths ≠ ordered)) (text "artifacts must be sorted by path (UTF-8 byte order)")
  pure artifacts

end Parse

/-! ## §2. Checks. -/

/-- It is `ManifestError`. -/
def Raised.IsManifest (e : Raised) : Prop := ∃ message, e = .manifest message

/-- **A check**: it returns what it should, and raises `ManifestError` otherwise. -/
structure Decides {α : Type} (x : Except Raised α) (P : α → Prop) : Prop where
  ok_iff : ∀ a, x = .ok a ↔ P a
  raises : Raises Raised.IsManifest x

section Decides

variable {α β : Type} {x : Except Raised α} {P Q : α → Prop}

theorem Decides.of_iff (h : Decides x P) (hiff : ∀ a, P a ↔ Q a) : Decides x Q :=
  ⟨fun a => (h.ok_iff a).trans (hiff a), h.raises⟩

theorem decides_pure (a : α) : Decides (pure a) fun b => b = a := by
  refine ⟨?_, raises_ok⟩
  intro b
  show Except.ok a = Except.ok b ↔ b = a
  rw [Except.ok.injEq]
  exact eq_comm

/-- One check behind another one. -/
theorem Decides.bind {f : α → Except Raised β} {R : α → β → Prop} (hx : Decides x P)
    (hf : ∀ a, P a → Decides (f a) (R a)) : Decides (x >>= f) fun b => ∃ a, P a ∧ R a b := by
  constructor
  · intro b
    rw [bind_ok_iff]
    apply exists_congr
    intro a
    rw [hx.ok_iff]
    exact and_congr_right fun ha => (hf a ha).ok_iff b
  · rw [raises_bind]
    exact ⟨hx.raises, fun a ha => (hf a ((hx.ok_iff a).mp ha)).raises⟩

/-- What stands behind a condition that is refused. -/
theorem decides_reject {condition : Bool} (message : PyStr) (h : condition = false → Decides x P) :
    Decides (reject condition message >>= fun _ => x) fun a => condition = false ∧ P a := by
  cases condition with
  | true =>
      refine ⟨?_, ?_⟩
      · intro a
        refine iff_of_false ?_ fun h => Bool.noConfusion h.1
        intro hok
        cases hok
      · exact raises_error_iff.mpr ⟨message, rfl⟩
  | false => exact (h rfl).of_iff fun a => (and_iff_right rfl).symm

variable (message : PyStr) (value : PyValue)

theorem decides_requireDict : Decides (requireDict message value) fun entries => value = .dict entries := by
  cases value with
  | dict entries => exact (decides_pure entries).of_iff fun a => by simp [eq_comm]
  | _ => exact ⟨fun a => by simp [requireDict], raises_error_iff.mpr ⟨message, rfl⟩⟩

theorem decides_requireList : Decides (requireList message value) fun items => value = .list items := by
  cases value with
  | list items => exact (decides_pure items).of_iff fun a => by simp [eq_comm]
  | _ => exact ⟨fun a => by simp [requireList], raises_error_iff.mpr ⟨message, rfl⟩⟩

theorem decides_requireStr : Decides (requireStr message value) fun s => value = .str s := by
  cases value with
  | str s => exact (decides_pure s).of_iff fun a => by simp [eq_comm]
  | _ => exact ⟨fun a => by simp [requireStr], raises_error_iff.mpr ⟨message, rfl⟩⟩

theorem decides_requireInt : Decides (requireInt message value) fun n => value = .int n := by
  cases value with
  | int n => exact (decides_pure n).of_iff fun a => by simp [eq_comm]
  | _ => exact ⟨fun a => by simp [requireInt], raises_error_iff.mpr ⟨message, rfl⟩⟩

/-- A key that is there is found. -/
theorem decides_subscript {entries : List (PyStr × PyValue)} {key : String}
    (h : text key ∈ entries.map Prod.fst) :
    Decides (subscript entries key) fun v => getKey entries (text key) = some v := by
  unfold subscript
  cases hget : getKey entries (text key) with
  | none => exact absurd h (getKey_eq_none_iff.mp hget)
  | some v => exact (decides_pure v).of_iff fun a => by simp [eq_comm]

end Decides

/-! ## §3. What is accepted. -/

/-- These are the keys. -/
def KeysAre (entries : List (PyStr × PyValue)) (keys : List PyStr) : Prop :=
  ∀ k, k ∈ entries.map Prod.fst ↔ k ∈ keys

/-- **The path of an artifact**: components that name something, and no other file than the manifest. -/
def IsPath (path : PyStr) : Prop :=
  path ≠ MANIFEST_NAME ∧ backslash ∉ path ∧ nul ∉ path ∧
    ∃ components : List PyStr, components ≠ [] ∧ path = [slash].intercalate components ∧
      ∀ c ∈ components, slash ∉ c ∧ c ≠ [] ∧ c ≠ text "." ∧ c ≠ text ".."

/-- 64 lower-case hexadecimal digits. -/
def IsDigest (sha256 : PyStr) : Prop :=
  sha256.length = 64 ∧ ∀ c ∈ sha256, (0x30 ≤ c.val ∧ c.val ≤ 0x39) ∨ (0x61 ≤ c.val ∧ c.val ≤ 0x66)

/-- The entry describes the artifact. -/
def IsArtifact (raw : PyValue) (a : Artifact) : Prop :=
  ∃ entries, raw = .dict entries ∧ KeysAre entries artifactKeys ∧
    (getKey entries (text "path") = some (.str a.path) ∧ IsPath a.path) ∧
    (getKey entries (text "sha256") = some (.str a.sha256) ∧ IsDigest a.sha256) ∧
    (getKey entries (text "size_bytes") = some (.int a.sizeBytes) ∧ 1 ≤ a.sizeBytes)

/-- The document lists these artifacts, in any order. -/
def IsListing (language version : PyStr) (document : PyValue) (artifacts : List Artifact) : Prop :=
  ∃ entries, document = .dict entries ∧ KeysAre entries expectedKeys ∧
    getKey entries (text "schema_version") = some (.int 1) ∧
    (language ∈ LANGUAGES ∧ getKey entries (text "language") = some (.str language)) ∧
    getKey entries (text "version") = some (.str version) ∧
    ∃ raws, getKey entries (text "artifacts") = some (.list raws) ∧ raws ≠ [] ∧
      List.Forall₂ IsArtifact raws artifacts ∧ (artifacts.map Artifact.path).Nodup

/-- **The paths ascend in UTF-8 byte order**: they have bytes, and these are in order. -/
def Ascending (paths : List PyStr) : Prop :=
  ∃ texts : List (List Char), paths = texts.map ofChars ∧
    (texts.map utf8).Pairwise fun a b => bytesLe a b = true

theorem hasKeys_iff {entries : List (PyStr × PyValue)} {keys : List PyStr} :
    (!hasKeys entries keys) = false ↔ KeysAre entries keys := by
  unfold hasKeys KeysAre
  simp only [Bool.not_eq_false', Bool.and_eq_true, List.all_eq_true, List.contains_iff_mem]
  constructor
  · rintro ⟨hfound, hall⟩ k
    exact ⟨hfound k, hall k⟩
  · intro h
    exact ⟨fun k => (h k).mp, fun k => (h k).mpr⟩

theorem fullmatch_iff {sha256 : PyStr} : (!fullmatch sha256) = false ↔ IsDigest sha256 := by
  unfold fullmatch IsDigest
  simp only [Bool.not_eq_false', Bool.and_eq_true, List.all_eq_true, decide_eq_true_eq]

theorem isPath_iff {path : PyStr} :
    IsPath path ↔ path ≠ [] ∧ ¬ (backslash ∈ path ∨ nul ∈ path) ∧ path.head? ≠ some slash ∧
      (∀ part ∈ path.splitOn slash, part ∉ [[], text ".", text ".."]) ∧ path ≠ MANIFEST_NAME := by
  have hpart : ∀ part : PyStr, part ∉ [[], text ".", text ".."] ↔
      part ≠ [] ∧ part ≠ text "." ∧ part ≠ text ".." := by
    intro part
    simp only [List.mem_cons, List.not_mem_nil, or_false, not_or, ne_eq]
  unfold IsPath
  simp only [hpart, not_or]
  constructor
  · rintro ⟨hname, hbackslash, hnul, components, hne, hpath, hall⟩
    have hsplit : path.splitOn slash = components :=
      splitOn_eq_iff.mpr ⟨hne, fun c hc => (hall c hc).1, hpath.symm⟩
    refine ⟨?_, ⟨hbackslash, hnul⟩, ?_, ?_, hname⟩
    · rintro rfl
      rw [List.splitOn_nil] at hsplit
      exact (hall [] (hsplit ▸ List.mem_cons_self)).2.1 rfl
    · -- a leading slash has the empty component in front of it
      intro hhead
      obtain ⟨rest, rfl⟩ := List.head?_eq_some_iff.mp hhead
      rw [List.splitOn_cons_eq_if_modifyHead, if_pos (beq_self_eq_true slash)] at hsplit
      exact (hall [] (hsplit ▸ List.mem_cons_self)).2.1 rfl
    · rw [hsplit]
      exact fun c hc => (hall c hc).2
  · rintro ⟨-, ⟨hbackslash, hnul⟩, -, hall, hname⟩
    obtain ⟨hne, hslash, hjoined⟩ := splitOn_eq_iff.mp (Eq.refl (path.splitOn slash))
    exact ⟨hname, hbackslash, hnul, _, hne, hjoined.symm, fun c hc => ⟨hslash c hc, hall c hc⟩⟩

/-! ## §4. The checks, one by one. -/

section Parse

variable (repr : PyValue → PyStr)

theorem decides_checkPath (value : PyValue) :
    Decides (checkPath repr value) fun path => value = .str path ∧ IsPath path := by
  unfold checkPath
  refine ((decides_requireStr _ value).bind fun path _ => decides_reject _ fun _ => decides_reject _ fun _ =>
    decides_reject _ fun _ => decides_reject _ fun _ => decides_reject _ fun _ => decides_pure path).of_iff ?_
  intro path
  rw [isPath_iff]
  have hclean : ∀ s : PyStr, (s.contains backslash || s.contains nul) = false ↔ ¬ (backslash ∈ s ∨ nul ∈ s) := by
    intro s
    rw [← Bool.not_eq_true, Bool.or_eq_true, List.contains_iff_mem, List.contains_iff_mem]
  simp only [decide_eq_false_iff_not, List.any_eq_false, List.contains_iff_mem, hclean]
  constructor
  · rintro ⟨s, hs, hne, hclean, hhead, hparts, hname, rfl⟩
    exact ⟨hs, hne, hclean, hhead, hparts, hname⟩
  · rintro ⟨hs, hne, hclean, hhead, hparts, hname⟩
    exact ⟨path, hs, hne, hclean, hhead, hparts, hname, rfl⟩

theorem decides_parseArtifact (index : Nat) (raw : PyValue) :
    Decides (parseArtifact repr index raw) (IsArtifact raw) := by
  have hkey : ∀ {entries : List (PyStr × PyValue)} {key : String}, (!hasKeys entries artifactKeys) = false →
      text key ∈ artifactKeys → text key ∈ entries.map Prod.fst :=
    fun hkeys hmem => (hasKeys_iff.mp hkeys _).mpr hmem
  unfold parseArtifact
  refine ((decides_requireDict _ raw).bind fun entries _ => decides_reject _ fun hkeys =>
    (decides_subscript (hkey hkeys (by decide))).bind fun path _ =>
    (decides_checkPath repr path).bind fun path _ =>
    (decides_subscript (hkey hkeys (by decide))).bind fun sha256 _ =>
    (decides_requireStr _ sha256).bind fun sha256 _ => decides_reject _ fun _ =>
    (decides_subscript (hkey hkeys (by decide))).bind fun size _ =>
    (decides_requireInt _ size).bind fun size _ => decides_reject _ fun _ =>
    decides_pure (Artifact.mk path sha256 size)).of_iff ?_
  intro a
  simp only [hasKeys_iff, fullmatch_iff, decide_eq_false_iff_not, Int.not_lt]
  constructor
  · rintro ⟨entries, hraw, hkeys, _, hpath, path, ⟨rfl, hok⟩, _, hsha, sha256, rfl, hdigest, _, hsize, size,
      rfl, hpos, rfl⟩
    exact ⟨entries, hraw, hkeys, ⟨hpath, hok⟩, ⟨hsha, hdigest⟩, hsize, hpos⟩
  · rintro ⟨entries, hraw, hkeys, ⟨hpath, hok⟩, ⟨hsha, hdigest⟩, hsize, hpos⟩
    exact ⟨entries, hraw, hkeys, _, hpath, _, ⟨rfl, hok⟩, _, hsha, _, rfl, hdigest, _, hsize, _, rfl, hpos, rfl⟩

/-- **Every entry of the array is checked.** -/
theorem decides_parseArtifacts (index : Nat) (raws : List PyValue) :
    Decides (parseArtifacts repr index raws) (List.Forall₂ IsArtifact raws) := by
  induction raws generalizing index with
  | nil => exact (decides_pure []).of_iff fun artifacts => by rw [List.forall₂_nil_left_iff]
  | cons raw raws ih =>
      unfold parseArtifacts
      refine ((decides_parseArtifact repr index raw).bind fun a _ => (ih (index + 1)).bind fun rest _ =>
        decides_pure (a :: rest)).of_iff ?_
      intro artifacts
      rw [List.forall₂_cons_left_iff]
      constructor
      · rintro ⟨a, ha, rest, hrest, rfl⟩
        exact ⟨a, rest, ha, hrest, rfl⟩
      · rintro ⟨a, rest, ha, hrest, rfl⟩
        exact ⟨a, ha, rest, hrest, rfl⟩

/-- The language is one of the seven, and the one that is expected. -/
theorem language_iff {found : PyValue} {language : PyStr} :
    (!LANGUAGES.any found.isStr) = false ∧ (!found.isStr language) = false ↔
      language ∈ LANGUAGES ∧ found = .str language := by
  simp only [Bool.not_eq_false', List.any_eq_true, PyValue.isStr_iff]
  constructor
  · rintro ⟨⟨l, hl, rfl⟩, hfound⟩
    cases hfound
    exact ⟨hl, rfl⟩
  · rintro ⟨hl, rfl⟩
    exact ⟨⟨language, hl, rfl⟩, rfl⟩

theorem decides_checkHeader (document : PyValue) (language version : PyStr) :
    Decides (checkHeader repr document language version) fun entries =>
      document = .dict entries ∧ KeysAre entries expectedKeys ∧
        getKey entries (text "schema_version") = some (.int 1) ∧
        (language ∈ LANGUAGES ∧ getKey entries (text "language") = some (.str language)) ∧
        getKey entries (text "version") = some (.str version) := by
  have hkey : ∀ {entries : List (PyStr × PyValue)} {key : String}, (!hasKeys entries expectedKeys) = false →
      text key ∈ expectedKeys → text key ∈ entries.map Prod.fst :=
    fun hkeys hmem => (hasKeys_iff.mp hkeys _).mpr hmem
  unfold checkHeader
  refine ((decides_requireDict _ document).bind fun entries _ => decides_reject _ fun hkeys =>
    (decides_subscript (hkey hkeys (by decide))).bind fun schemaVersion _ =>
    (decides_requireInt _ schemaVersion).bind fun schemaVersion _ => decides_reject _ fun _ =>
    (decides_subscript (hkey hkeys (by decide))).bind fun found _ => decides_reject _ fun _ =>
    decides_reject _ fun _ =>
    (decides_subscript (hkey hkeys (by decide))).bind fun found _ => decides_reject _ fun _ =>
    decides_pure entries).of_iff ?_
  intro entries
  simp only [hasKeys_iff, decide_eq_false_iff_not, not_not]
  constructor
  · rintro ⟨entries, hdocument, hkeys, _, hschema, _, rfl, rfl, found, hfound, hlanguages, hlanguage, version',
      hversion, hsame, rfl⟩
    obtain ⟨hmem, rfl⟩ := language_iff.mp ⟨hlanguages, hlanguage⟩
    rw [Bool.not_eq_false', PyValue.isStr_iff] at hsame
    exact ⟨hdocument, hkeys, hschema, ⟨hmem, hfound⟩, hsame ▸ hversion⟩
  · rintro ⟨hdocument, hkeys, hschema, ⟨hmem, hfound⟩, hversion⟩
    obtain ⟨hlanguages, hlanguage⟩ := language_iff.mpr ⟨hmem, Eq.refl (PyValue.str language)⟩
    refine ⟨entries, hdocument, hkeys, _, hschema, 1, rfl, rfl, _, hfound, hlanguages, hlanguage, _, hversion,
      ?_, rfl⟩
    rw [Bool.not_eq_false', PyValue.isStr_iff]

theorem dedup_length_iff {paths : List PyStr} :
    decide (paths.dedup.length ≠ paths.length) = false ↔ paths.Nodup := by
  rw [decide_eq_false_iff_not, not_not, ← List.dedup_eq_self]
  exact ⟨(List.dedup_sublist paths).eq_of_length, congrArg List.length⟩

/-- **Up to the order of the paths there is an accepted listing or a `ManifestError`.** -/
theorem decides_parseListing (document : PyValue) (language version : PyStr) :
    Decides (parseListing repr document language version) (IsListing language version document) := by
  unfold parseListing
  refine ((decides_checkHeader repr document language version).bind fun entries hentries =>
    (decides_subscript ((hentries.2.1 _).mpr (by decide))).bind fun value _ =>
    (decides_requireList _ value).bind fun raws _ => decides_reject _ fun _ =>
    (decides_parseArtifacts repr 0 raws).bind fun artifacts _ => decides_reject _ fun _ =>
    decides_pure artifacts).of_iff ?_
  intro artifacts
  simp only [dedup_length_iff, List.isEmpty_eq_false_iff]
  constructor
  · rintro ⟨entries, ⟨hdocument, hkeys, hschema, hlanguage, hversion⟩, _, hget, raws, rfl, hne, _, hall, hnodup, rfl⟩
    exact ⟨entries, hdocument, hkeys, hschema, hlanguage, hversion, raws, hget, hne, hall, hnodup⟩
  · rintro ⟨entries, hdocument, hkeys, hschema, hlanguage, hversion, raws, hget, hne, hall, hnodup⟩
    exact ⟨entries, ⟨hdocument, hkeys, hschema, hlanguage, hversion⟩, _, hget, raws, rfl, hne, _, hall, hnodup, rfl⟩

end Parse

/-! ## §5. The order of the paths. -/

theorem ofChars_injective : Function.Injective ofChars := by
  intro a b h
  have ha := chars?_ofChars a
  rw [h, chars?_ofChars b] at ha
  exact (Option.some.inj ha).symm

/-- The strings without surrogates are those of characters. -/
theorem encodable_all_iff {paths : List PyStr} :
    (∀ p ∈ paths, Encodable p) ↔ ∃ texts : List (List Char), paths = texts.map ofChars := by
  constructor
  · intro h
    induction paths with
    | nil => exact ⟨[], rfl⟩
    | cons p paths ih =>
        obtain ⟨cs, hcs⟩ := h p List.mem_cons_self
        obtain ⟨texts, rfl⟩ := ih fun q hq => h q (List.mem_cons_of_mem p hq)
        refine ⟨cs :: texts, ?_⟩
        rw [List.map_cons, chars?_injective hcs (chars?_ofChars cs)]
  · rintro ⟨texts, rfl⟩ p hp
    obtain ⟨cs, -, rfl⟩ := List.mem_map.mp hp
    exact ⟨cs, chars?_ofChars cs⟩

theorem mapM_encodeUtf8 (texts : List (List Char)) : (texts.map ofChars).mapM encodeUtf8 = .ok (texts.map utf8) := by
  induction texts with
  | nil => rfl
  | cons cs texts ih =>
      rw [List.map_cons, List.mapM_cons, ih]
      simp only [encodeUtf8, chars?_ofChars]
      rfl

/-- **One surrogate is enough for the sort to raise.** -/
theorem mapM_encodeUtf8_error {paths : List PyStr} {p : PyStr} (hp : p ∈ paths) (h : ¬ Encodable p) :
    paths.mapM encodeUtf8 = .error .unicodeEncode := by
  induction paths with
  | nil => cases hp
  | cons q paths ih =>
      rw [List.mapM_cons]
      cases hq : chars? q with
      | none =>
          simp only [encodeUtf8, hq]
          rfl
      | some cs =>
          have hrest : p ∈ paths := by
            rcases List.mem_cons.mp hp with rfl | hrest
            · exact absurd ⟨cs, hq⟩ h
            · exact hrest
          rw [ih hrest]
          simp only [encodeUtf8, hq]
          rfl

theorem sortedByBytes_ofChars (texts : List (List Char)) :
    sortedByBytes (texts.map ofChars) =
      .ok ((texts.mergeSort fun a b => bytesLe (utf8 a) (utf8 b)).map ofChars) := by
  unfold sortedByBytes
  rw [mapM_encodeUtf8]
  have hzip : (texts.map utf8).zip (texts.map ofChars) = texts.map fun t => (utf8 t, ofChars t) := List.zip_map'
  -- sorting the pairs of a text and its bytes is sorting the texts
  have hsort : (texts.map fun t => (utf8 t, ofChars t)).mergeSort (fun a b => bytesLe a.1 b.1) =
      (texts.mergeSort fun a b => bytesLe (utf8 a) (utf8 b)).map fun t => (utf8 t, ofChars t) := by
    symm
    apply List.map_mergeSort
    intro a _ b _
    rfl
  show Except.ok _ = _
  rw [hzip, hsort, List.map_map]
  rfl

/-- **The paths are those sorted exactly when they ascend.** -/
theorem eq_sorted_iff {texts : List (List Char)} :
    texts.map ofChars = (texts.mergeSort fun a b => bytesLe (utf8 a) (utf8 b)).map ofChars ↔
      Ascending (texts.map ofChars) := by
  have hinjective := List.map_injective_iff.mpr ofChars_injective
  have hsorted : texts = (texts.mergeSort fun a b => bytesLe (utf8 a) (utf8 b)) ↔
      texts.Pairwise fun a b => bytesLe (utf8 a) (utf8 b) = true := by
    apply mergeSort_eq_self_iff
    · intro a b c
      exact bytesLe_trans
    · intro a b
      exact bytesLe_total _ _
  rw [hinjective.eq_iff, hsorted]
  unfold Ascending
  constructor
  · intro h
    exact ⟨texts, rfl, List.pairwise_map.mpr h⟩
  · rintro ⟨texts', heq, h⟩
    rw [hinjective heq]
    exact List.pairwise_map.mp h

/-- The last check, on paths that have bytes. -/
theorem decides_order {artifacts : List Artifact} (h : ∀ a ∈ artifacts, Encodable a.path) (message : PyStr) :
    Decides
      (do
        let ordered ← sortedByBytes (artifacts.map Artifact.path)
        reject (decide (artifacts.map Artifact.path ≠ ordered)) message
        pure artifacts)
      fun found => Ascending (artifacts.map Artifact.path) ∧ found = artifacts := by
  obtain ⟨texts, htexts⟩ := encodable_all_iff.mp (List.forall_mem_map.mpr h)
  rw [htexts, sortedByBytes_ofChars]
  refine (decides_reject _ fun _ => decides_pure artifacts).of_iff ?_
  intro found
  rw [decide_eq_false_iff_not, not_not, eq_sorted_iff]

/-- **Listings whose paths ascend are returned, and `ManifestError` is raised otherwise, exactly when no path of
    a listing has an unpaired surrogate.** -/
theorem parseManifest_decides_iff (repr : PyValue → PyStr) (document : PyValue) (language version : PyStr) :
    Decides (parseManifest repr document language version) (fun artifacts =>
        IsListing language version document artifacts ∧ Ascending (artifacts.map Artifact.path)) ↔
      ∀ artifacts, IsListing language version document artifacts → ∀ a ∈ artifacts, Encodable a.path := by
  have hlisting := decides_parseListing repr document language version
  constructor
  · intro h artifacts hartifacts a ha
    by_contra hsurrogate
    have hraised : parseManifest repr document language version = .error .unicodeEncode := by
      have hsort : sortedByBytes (artifacts.map Artifact.path) = .error .unicodeEncode := by
        unfold sortedByBytes
        rw [mapM_encodeUtf8_error (List.mem_map_of_mem ha) hsurrogate]
        rfl
      unfold parseManifest
      rw [(hlisting.ok_iff artifacts).mpr hartifacts]
      show (sortedByBytes (artifacts.map Artifact.path) >>= _) = _
      rw [hsort]
      rfl
    obtain ⟨message, hmessage⟩ := h.raises _ hraised
    cases hmessage
  · intro h
    refine (hlisting.bind fun artifacts hartifacts => decides_order (h artifacts hartifacts) _).of_iff ?_
    intro artifacts
    constructor
    · rintro ⟨found, hfound, hascending, rfl⟩
      exact ⟨hfound, hascending⟩
    · rintro ⟨hfound, hascending⟩
      exact ⟨artifacts, hfound, hascending, rfl⟩

/-- A manifest whose only path is an unpaired surrogate. -/
def surrogateManifest : PyValue :=
  .dict [(text "schema_version", .int 1), (text "language", .str (text "go")), (text "version", .str (text "0.4.0")),
    (text "artifacts", .list [.dict [(text "path", .str [0xD800]),
      (text "sha256", .str (List.replicate 64 0x30)), (text "size_bytes", .int 1)]])]

/-- It is neither accepted nor refused: the sort raises. -/
theorem surrogate_raises :
    parseManifest (fun _ => []) surrogateManifest (text "go") (text "0.4.0") = .error .unicodeEncode ∧
      ¬ Decides (parseManifest (fun _ => []) surrogateManifest (text "go") (text "0.4.0")) (fun artifacts =>
        IsListing (text "go") (text "0.4.0") surrogateManifest artifacts ∧
          Ascending (artifacts.map Artifact.path)) := by
  have hraised : parseManifest (fun _ => []) surrogateManifest (text "go") (text "0.4.0") = .error .unicodeEncode := by
    rfl
  refine ⟨hraised, ?_⟩
  intro h
  obtain ⟨message, hmessage⟩ := h.raises _ hraised
  cases hmessage

end CekatEvents.Scripts
