/-
  CekatEvents.Go.PackagePrep — which files a release archive of a Go module is made of (`publishableModules` in
  `internal/packageprep/main.go`).

  The directories with a `go.mod` are collected, and every file goes to the longest of them whose name and a
  slash it begins with.  Two such directories lie one in the other, so that the longest is the innermost.

  Main result: `publishableModules_assigned`.
-/
import CekatEvents.Encoding.Utf
import CekatEvents.Go.Response
import CekatEvents.Ordering.Lexicographic

namespace CekatEvents.Go.PackagePrep

open CekatEvents.Encoding CekatEvents.Ordering

/-! ## §1. `publishableModules`. -/

/-- One Go module inside the repository and the tracked files it owns. -/
structure ModuleSource where
  /-- Slash-separated, relative to the root module; empty for the root. -/
  dir : Bytes
  files : List Bytes

def slash : UInt8 := 0x2F

def goMod : Bytes := utf8 "go.mod".toList

def internalDir : Bytes := utf8 "internal".toList

/-- `strings.LastIndex` of a byte, nothing for -1. -/
def lastIndex (c : UInt8) : Bytes → Option Nat
  | [] => none
  | x :: s =>
      match lastIndex c s with
      | some i => some (i + 1)
      | none => if x = c then some 0 else none

/-- `strings.TrimPrefix`. -/
def trimLeading (s start : Bytes) : Bytes := if start <+: s then s.drop start.length else s

/-- `splitSlashPath`. -/
def splitSlashPath (file : Bytes) : Bytes × Bytes :=
  match lastIndex slash file with
  | none => ([], file)
  | some index => (file.take index, file.drop (index + 1))

/-- The directory that the first loop appends for a file. -/
def moduleDir? (file : Bytes) : Option Bytes :=
  let split := splitSlashPath file
  if split.2 = goMod ∧ split.1 ≠ [] then some split.1 else none

/-- `dirs` behind its loop: the root, and the directories that hold a `go.mod`. -/
def moduleDirs (files : List Bytes) : List Bytes := [] :: files.filterMap moduleDir?

/-- `owner` behind its loop. -/
def ownerOf (dirs : List Bytes) (file : Bytes) : Bytes :=
  dirs.foldl (fun owner dir =>
    if dir ≠ [] ∧ dir ++ [slash] <+: file ∧ owner.length < dir.length then dir else owner) []

/-- `owned` behind its loop; what is not in the map is read as empty. -/
def ownedBy (dirs files : List Bytes) : Bytes → List Bytes :=
  files.foldl (fun owned file =>
    let owner := ownerOf dirs file
    Function.update owned owner (owned owner ++ [trimLeading file (owner ++ [slash])])) fun _ => []

/-- `internal`, or under it. -/
def isInternal (dir : Bytes) : Bool := decide (dir = internalDir ∨ internalDir ++ [slash] <+: dir)

/-- The module that the last loop appends for a directory. -/
def publish? (owned : Bytes → List Bytes) (dir : Bytes) : Option ModuleSource :=
  if isInternal dir = true ∨ owned dir = [] then none else some ⟨dir, owned dir⟩

/-- `publishableModules`. -/
def publishableModules (files : List Bytes) : List ModuleSource :=
  let dirs := moduleDirs files
  let owned := ownedBy dirs files
  (dirs.filterMap (publish? owned)).mergeSort fun m n => bytesLe m.dir n.dir

/-! ## §2. Paths. -/

/-- No component is empty; such a path does not begin with a slash. -/
def Relative (file : Bytes) : Prop := ∀ component ∈ file.splitOn slash, component ≠ []

/-- The file is in the directory, or further down. -/
def Contains (dir file : Bytes) : Prop := dir = [] ∨ dir ++ [slash] <+: file

/-- The path of what lies in a directory. -/
def join (dir file : Bytes) : Bytes := if dir = [] then file else dir ++ slash :: file

/-- The directory is the root of a module. -/
def IsModule (files : List Bytes) (dir : Bytes) : Prop := dir = [] ∨ dir ++ slash :: goMod ∈ files

/-- **The innermost module that contains a file**: the others that do contain its directory, too. -/
structure Innermost (files : List Bytes) (file dir : Bytes) : Prop where
  isModule : IsModule files dir
  contains : Contains dir file
  innermost : ∀ other, IsModule files other → Contains other file → other = dir ∨ Contains other dir

theorem lastIndex_eq_none {c : UInt8} {s : Bytes} (h : c ∉ s) : lastIndex c s = none := by
  induction s with
  | nil => rfl
  | cons x s ih =>
      rw [List.mem_cons, not_or] at h
      rw [lastIndex, ih h.2]
      exact if_neg (Ne.symm h.1)

/-- The last occurrence is the one behind which there is none. -/
theorem lastIndex_append {c : UInt8} {dir name : Bytes} (h : c ∉ name) :
    lastIndex c (dir ++ c :: name) = some dir.length := by
  induction dir with
  | nil =>
      rw [List.nil_append, lastIndex, lastIndex_eq_none h]
      exact if_pos rfl
  | cons x dir ih => rw [List.cons_append, lastIndex, ih, List.length_cons]

/-- Cutting at the last occurrence. -/
theorem append_of_lastIndex {c : UInt8} {s : Bytes} {i : Nat} (h : lastIndex c s = some i) :
    s.take i ++ c :: s.drop (i + 1) = s := by
  induction s generalizing i with
  | nil => cases h
  | cons x s ih =>
      rw [lastIndex] at h
      cases hrest : lastIndex c s with
      | some j =>
          rw [hrest] at h
          cases h
          exact congrArg (x :: ·) (ih hrest)
      | none =>
          rw [hrest] at h
          split_ifs at h with hx
          cases h
          rw [hx]
          rfl

/-- **The first loop appends the directories of the `go.mod` files** outside of the root. -/
theorem moduleDir?_iff {file dir : Bytes} : moduleDir? file = some dir ↔ dir ≠ [] ∧ file = dir ++ slash :: goMod := by
  unfold moduleDir? splitSlashPath
  constructor
  · intro h
    cases hindex : lastIndex slash file with
    | none =>
        rw [hindex] at h
        simp at h
    | some i =>
        simp only [hindex, Option.ite_none_right_eq_some, Option.some.injEq] at h
        obtain ⟨⟨hname, hdir⟩, rfl⟩ := h
        refine ⟨hdir, ?_⟩
        rw [← hname]
        exact (append_of_lastIndex hindex).symm
  · rintro ⟨hdir, rfl⟩
    rw [lastIndex_append (by decide)]
    simp [hdir]

theorem mem_moduleDirs {files : List Bytes} {dir : Bytes} : dir ∈ moduleDirs files ↔ IsModule files dir := by
  unfold moduleDirs IsModule
  rw [List.mem_cons, List.mem_filterMap]
  simp only [moduleDir?_iff]
  constructor
  · rintro (hroot | ⟨file, hfile, -, rfl⟩)
    · exact .inl hroot
    · exact .inr hfile
  · intro h
    by_cases hdir : dir = []
    · exact .inl hdir
    · exact .inr ⟨_, h.resolve_left hdir, hdir, rfl⟩

theorem nodup_moduleDirs {files : List Bytes} (h : files.Nodup) : (moduleDirs files).Nodup := by
  unfold moduleDirs
  rw [List.nodup_cons, List.mem_filterMap]
  constructor
  · rintro ⟨file, -, hfile⟩
    exact (moduleDir?_iff.mp hfile).1 rfl
  · refine h.filterMap ?_
    intro file other dir hfile hother
    rw [(moduleDir?_iff.mp hfile).2, (moduleDir?_iff.mp hother).2]

/-! ## §3. The owner of a file. -/

/-- **Of two directories that contain a file the shorter one contains the longer one.** -/
theorem contains_of_le {file dir other : Bytes} (hdir : Contains dir file) (hother : Contains other file)
    (hle : other.length ≤ dir.length) : other = dir ∨ Contains other dir := by
  unfold Contains at *
  rcases hother with rfl | hother
  · exact .inr (.inl rfl)
  · rcases hdir with rfl | hdir
    · exact .inl (List.eq_nil_of_length_eq_zero (Nat.le_zero.mp hle))
    · have hinside : dir <+: file := (List.prefix_append dir [slash]).trans hdir
      rcases Nat.lt_or_eq_of_le hle with hlt | heq
      · refine .inr (.inr (List.prefix_of_prefix_length_le hother hinside ?_))
        rw [List.length_append]
        exact hlt
      · refine .inl (List.IsPrefix.eq_of_length ?_ heq)
        exact List.prefix_of_prefix_length_le ((List.prefix_append other [slash]).trans hother) hinside hle

/-- What the loop over the directories holds: a directory that contains the file, and none of those so far is
    longer. -/
theorem ownerOf_spec (dirs : List Bytes) (file : Bytes) :
    (ownerOf dirs file = [] ∨ ownerOf dirs file ∈ dirs) ∧ Contains (ownerOf dirs file) file ∧
      ∀ dir ∈ dirs, Contains dir file → dir.length ≤ (ownerOf dirs file).length := by
  induction dirs using List.reverseRecOn with
  | nil => exact ⟨.inl rfl, .inl rfl, List.forall_mem_nil _⟩
  | append_singleton dirs dir ih =>
      obtain ⟨hmem, hcontains, hlongest⟩ := ih
      have hstep : ownerOf (dirs ++ [dir]) file =
          if dir ≠ [] ∧ dir ++ [slash] <+: file ∧ (ownerOf dirs file).length < dir.length then dir
          else ownerOf dirs file := by
        unfold ownerOf
        rw [List.foldl_append]
        rfl
      rw [hstep, List.forall_mem_append, List.forall_mem_singleton]
      split_ifs with htaken
      · obtain ⟨-, hinside, hlonger⟩ := htaken
        refine ⟨.inr (List.mem_append_right _ (List.mem_singleton_self dir)), .inr hinside, ?_, ?_⟩
        · intro other hother hin
          exact (hlongest other hother hin).trans hlonger.le
        · exact fun _ => le_rfl
      · refine ⟨hmem.imp_right (List.mem_append_left _), hcontains, hlongest, ?_⟩
        intro hin
        rcases hin with rfl | hinside
        · exact Nat.zero_le _
        · by_contra hlonger
          rw [Nat.not_le] at hlonger
          refine htaken ⟨?_, hinside, hlonger⟩
          exact List.ne_nil_of_length_pos (Nat.zero_lt_of_lt hlonger)

/-- Two innermost modules are one. -/
theorem Innermost.unique {files : List Bytes} {file dir other : Bytes} (h : Innermost files file dir)
    (h' : Innermost files file other) : other = dir := by
  rcases h.innermost other h'.isModule h'.contains with heq | hother
  · exact heq
  · rcases h'.innermost dir h.isModule h.contains with heq | hdir
    · exact heq.symm
    · unfold Contains at hother hdir
      rcases hother with rfl | hother
      · rcases hdir with rfl | hdir
        · rfl
        · exact absurd hdir.length_le (by simp)
      · -- each would be longer than the other one
        have hlt := hother.length_le
        rw [List.length_append, List.length_singleton] at hlt
        rcases hdir with rfl | hdir
        · exact absurd hlt (by simp)
        · have hgt := hdir.length_le
          rw [List.length_append, List.length_singleton] at hgt
          omega

/-- **The loop finds the innermost module.** -/
theorem ownerOf_innermost (files : List Bytes) (file : Bytes) :
    Innermost files file (ownerOf (moduleDirs files) file) := by
  obtain ⟨hmem, hcontains, hlongest⟩ := ownerOf_spec (moduleDirs files) file
  refine ⟨?_, hcontains, ?_⟩
  · rcases hmem with hroot | hmem
    · exact .inl hroot
    · exact mem_moduleDirs.mp hmem
  · intro other hother hin
    exact contains_of_le hcontains hin (hlongest other (mem_moduleDirs.mpr hother) hin)

/-! ## §4. The files of a module. -/

theorem not_prefix_of_relative {file : Bytes} (h : Relative file) : ¬ [slash] <+: file := by
  rintro ⟨rest, rfl⟩
  apply h []
  · show [] ∈ (slash :: rest).splitOn slash
    rw [List.splitOn_cons_eq_if_modifyHead, if_pos (beq_self_eq_true slash)]
    exact List.mem_cons_self
  · rfl

/-- **What is trimmed off a file is its directory.** -/
theorem join_trimLeading {file dir : Bytes} (hfile : Relative file) (h : Contains dir file) :
    join dir (trimLeading file (dir ++ [slash])) = file := by
  unfold join trimLeading
  by_cases hroot : dir = []
  · rw [if_pos hroot, hroot, List.nil_append, if_neg (not_prefix_of_relative hfile)]
  · have hinside := h.resolve_left hroot
    rw [if_neg hroot, if_pos hinside]
    obtain ⟨rest, rfl⟩ := hinside
    rw [List.drop_left, List.append_assoc]
    rfl

/-- **The second loop appends every file to those of its owner.** -/
theorem ownedBy_eq (dirs files : List Bytes) (dir : Bytes) :
    ownedBy dirs files dir =
      (files.filter fun file => decide (ownerOf dirs file = dir)).map fun file => trimLeading file (dir ++ [slash]) := by
  induction files using List.reverseRecOn with
  | nil => rfl
  | append_singleton files file ih =>
      have hstep : ownedBy dirs (files ++ [file]) = Function.update (ownedBy dirs files) (ownerOf dirs file)
          (ownedBy dirs files (ownerOf dirs file) ++ [trimLeading file (ownerOf dirs file ++ [slash])]) := by
        unfold ownedBy
        rw [List.foldl_append]
        rfl
      rw [hstep, List.filter_append, List.map_append, ← ih]
      by_cases hdir : ownerOf dirs file = dir
      · subst hdir
        simp
      · simp [Function.update_of_ne (Ne.symm hdir), hdir]

/-- The files of a module, as they were given. -/
theorem map_join_ownedBy {files : List Bytes} (hfiles : ∀ file ∈ files, Relative file) (dir : Bytes) :
    (ownedBy (moduleDirs files) files dir).map (join dir) =
      files.filter fun file => decide (ownerOf (moduleDirs files) file = dir) := by
  rw [ownedBy_eq, List.map_map]
  apply List.map_congr_left (g := id) _ |>.trans (List.map_id _)
  intro file hfile
  obtain ⟨hfile, howner⟩ := List.mem_filter.mp hfile
  rw [decide_eq_true_eq] at howner
  exact join_trimLeading (hfiles file hfile) (howner ▸ (ownerOf_innermost files file).contains)

/-! ## §5. The modules. -/

/-- Grouping by a key loses nothing and doubles nothing. -/
theorem flatMap_filter_perm {α κ : Type} [DecidableEq κ] (key : α → κ) {keys : List κ} (h : keys.Nodup)
    (xs : List α) :
    (keys.flatMap fun k => xs.filter fun x => decide (key x = k)).Perm
      (xs.filter fun x => decide (key x ∈ keys)) := by
  induction keys with
  | nil => simp
  | cons k keys ih =>
      rw [List.nodup_cons] at h
      rw [List.flatMap_cons]
      refine ((ih h.2).append_left _).trans ?_
      have hfirst : xs.filter (fun x => decide (key x = k)) =
          (xs.filter fun x => decide (key x ∈ k :: keys)).filter fun x => decide (key x = k) := by
        rw [List.filter_filter]
        apply List.filter_congr
        intro x _
        by_cases hx : key x = k
        · simp [hx]
        · simp [hx]
      have hothers : xs.filter (fun x => decide (key x ∈ keys)) =
          (xs.filter fun x => decide (key x ∈ k :: keys)).filter fun x => !decide (key x = k) := by
        rw [List.filter_filter]
        apply List.filter_congr
        intro x _
        by_cases hx : key x = k
        · simp [hx, h.1]
        · simp [hx]
      rw [hfirst, hothers]
      exact List.filter_append_perm _ _

theorem publish?_iff {owned : Bytes → List Bytes} {dir : Bytes} {m : ModuleSource} :
    publish? owned dir = some m ↔ isInternal dir = false ∧ owned dir ≠ [] ∧ m = ⟨dir, owned dir⟩ := by
  unfold publish?
  simp only [Option.ite_none_left_eq_some, Option.some.injEq, not_or, Bool.not_eq_true, and_assoc]
  rw [eq_comm (a := m)]

theorem mem_publishableModules {files : List Bytes} {m : ModuleSource} :
    m ∈ publishableModules files ↔ isInternal m.dir = false ∧ m.files ≠ [] ∧ m.dir ∈ moduleDirs files ∧
      m.files = ownedBy (moduleDirs files) files m.dir := by
  unfold publishableModules
  rw [List.mem_mergeSort, List.mem_filterMap]
  simp only [publish?_iff]
  constructor
  · rintro ⟨dir, hdir, hinternal, hfiles, rfl⟩
    exact ⟨hinternal, hfiles, hdir, rfl⟩
  · rintro ⟨hinternal, hfiles, hdir, heq⟩
    refine ⟨m.dir, hdir, hinternal, heq ▸ hfiles, ?_⟩
    rw [← heq]

/-- **The directories strictly increase.** -/
theorem pairwise_publishableModules {files : List Bytes} (h : files.Nodup) :
    (publishableModules files).Pairwise fun m n => bytesLe m.dir n.dir = true ∧ m.dir ≠ n.dir := by
  have hsorted : (publishableModules files).Pairwise fun m n => bytesLe m.dir n.dir = true := by
    apply List.pairwise_mergeSort
    · intro m n o
      exact bytesLe_trans
    · intro m n
      exact bytesLe_total _ _
  have hdistinct : (publishableModules files).Pairwise fun m n => m.dir ≠ n.dir := by
    have hperm := List.mergeSort_perm
      ((moduleDirs files).filterMap (publish? (ownedBy (moduleDirs files) files)))
      fun m n => bytesLe m.dir n.dir
    apply (hperm.pairwise_iff Ne.symm).mpr
    apply List.pairwise_filterMap.mpr
    apply (nodup_moduleDirs h).imp
    intro dir other hne m hm n hn
    rw [(publish?_iff.mp hm).2.2, (publish?_iff.mp hn).2.2]
    exact hne
  exact hsorted.and hdistinct

/-- **The modules list the files that are not owned by an internal module.** -/
theorem flatMap_publishableModules {files : List Bytes} (h : files.Nodup)
    (hfiles : ∀ file ∈ files, Relative file) :
    ((publishableModules files).flatMap fun m => m.files.map (join m.dir)).Perm
      (files.filter fun file => !isInternal (ownerOf (moduleDirs files) file)) := by
  have hperm := List.mergeSort_perm
    ((moduleDirs files).filterMap (publish? (ownedBy (moduleDirs files) files)))
    fun m n => bytesLe m.dir n.dir
  refine (hperm.flatMap_right _).trans ?_
  -- an internal directory lists nothing, and neither does one without files
  have hlisted : ∀ dirs : List Bytes,
      (dirs.filterMap (publish? (ownedBy (moduleDirs files) files))).flatMap (fun m => m.files.map (join m.dir)) =
        (dirs.filter fun dir => !isInternal dir).flatMap fun dir =>
          files.filter fun file => decide (ownerOf (moduleDirs files) file = dir) := by
    intro dirs
    induction dirs with
    | nil => rfl
    | cons dir dirs ih =>
        rw [List.filterMap_cons, List.filter_cons]
        cases hinternal : isInternal dir with
        | true => simpa [publish?, hinternal] using ih
        | false =>
            rw [if_pos (by rfl), List.flatMap_cons, ← ih, ← map_join_ownedBy hfiles]
            by_cases hnone : ownedBy (moduleDirs files) files dir = []
            · simp [publish?, hnone]
            · simp [publish?, hinternal, hnone]
  rw [hlisted]
  refine (flatMap_filter_perm _ ((nodup_moduleDirs h).filter _) files).trans (List.Perm.of_eq ?_)
  apply List.filter_congr
  intro file _
  have howner := mem_moduleDirs.mpr (ownerOf_innermost files file).isModule
  simp [List.mem_filter, howner]

/-- **Modules made of all the files**, by the owner of each file: the innermost module that contains it. -/
structure Assigned (files : List Bytes) (owner : Bytes → Bytes) (modules : List ModuleSource) : Prop where
  owner_iff : ∀ file ∈ files, ∀ dir, Innermost files file dir ↔ dir = owner file
  increasing : modules.Pairwise fun m n => bytesLe m.dir n.dir = true ∧ m.dir ≠ n.dir
  published : ∀ m ∈ modules, isInternal m.dir = false ∧ m.files ≠ []
  /-- A module lists its own files, in the order in which they were given. -/
  listed : ∀ m ∈ modules, m.files.map (join m.dir) = files.filter fun file => decide (owner file = m.dir)
  /-- Nothing is missing but the files of internal modules, and nothing is there twice. -/
  complete : (modules.flatMap fun m => m.files.map (join m.dir)).Perm
    (files.filter fun file => !isInternal (owner file))

/-- **The modules are made of all the files.** -/
theorem publishableModules_assigned (files : List Bytes) (hdistinct : files.Nodup)
    (hfiles : ∀ file ∈ files, Relative file) : ∃ owner, Assigned files owner (publishableModules files) := by
  refine ⟨ownerOf (moduleDirs files), ?_, pairwise_publishableModules hdistinct, ?_, ?_,
    flatMap_publishableModules hdistinct hfiles⟩
  · intro file _ dir
    constructor
    · exact (ownerOf_innermost files file).unique
    · rintro rfl
      exact ownerOf_innermost files file
  · intro m hm
    obtain ⟨hinternal, hne, -, -⟩ := mem_publishableModules.mp hm
    exact ⟨hinternal, hne⟩
  · intro m hm
    obtain ⟨-, -, -, heq⟩ := mem_publishableModules.mp hm
    rw [heq]
    exact map_join_ownedBy hfiles m.dir

/-- A nested module, and a file beside it whose name begins like its own. -/
def nestedFiles : List Bytes := ["a/x".toList, "a/go.mod".toList, "ab".toList].map utf8

theorem nestedFiles_assigned : ∃ owner, Assigned nestedFiles owner (publishableModules nestedFiles) :=
  publishableModules_assigned nestedFiles (by decide) (by unfold Relative; decide)

end CekatEvents.Go.PackagePrep
