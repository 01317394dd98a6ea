/-
  CekatEvents.Scripts.Conformance — accounting for the results of a conformance runner
  (`account` in `scripts/conformance.py`).

  One loop counts the IDs and looks at every status; what is reported twice, and what is not reported at all,
  is looked for behind it.

  Main result: `account_complete_iff` — no problem is left exactly when every fixture was reported once, as
  passed or as what it declares itself to be.
-/
import CekatEvents.JsonText.Entries
import CekatEvents.Scripts.Values

namespace CekatEvents.Scripts

open CekatEvents.JsonText CekatEvents.Python.Validation

/-! ## §1. `account`. -/

/-- The fixtures by their IDs, with the languages that they declare inapplicable. -/
structure Fixtures where
  entries : List (PyStr × List PyStr)
  nodup : (entries.map Prod.fst).Nodup

def Fixtures.ids (f : Fixtures) : List PyStr := f.entries.map Prod.fst

/-- A result record. -/
structure Record where
  id : PyStr
  status : PyValue
  /-- `"runtime_deviation" in record`. -/
  runtimeDeviation : Bool

structure Outcome where
  passed : Nat
  notApplicable : Nat
  deviations : Nat
  problems : List PyStr
  warnings : List PyStr

/-- `Outcome()`. -/
def fresh : Outcome := ⟨0, 0, 0, [], []⟩

/-- `outcome.problems.append`. -/
def Outcome.problem (o : Outcome) (message : PyStr) : Outcome := { o with problems := o.problems ++ [message] }

/-- `seen[fixture_id] = seen.get(fixture_id, 0) + 1`. -/
def see (seen : List (PyStr × Nat)) (fixtureId : PyStr) : List (PyStr × Nat) :=
  putKey seen fixtureId ((getKey seen fixtureId).getD 0 + 1)

section Account

variable (repr : PyValue → PyStr) (language : PyStr) (fixtures : Fixtures)

/-- What one record does to the outcome. -/
def judge (outcome : Outcome) (record : Record) : Outcome :=
  match getKey fixtures.entries record.id with
  | none => outcome.problem (text "result for unknown fixture " ++ record.id)
  | some inapplicable =>
      if record.status.isStr (text "passed") then
        { outcome with
          passed := outcome.passed + 1
          deviations := outcome.deviations + if record.runtimeDeviation then 1 else 0 }
      else if record.status.isStr (text "not_applicable") then
        if language ∈ inapplicable then { outcome with notApplicable := outcome.notApplicable + 1 }
        else outcome.problem (record.id ++ (text " reported not_applicable but does not declare " ++
          (language ++ text " inapplicable")))
      else outcome.problem (record.id ++ (text " has status " ++ (repr record.status ++
        text "; only passed or declared not_applicable count")))

/-- The loop over the records. -/
def loop (records : List Record) (outcome : Outcome) : List (PyStr × Nat) × Outcome :=
  records.foldl (fun s record => (see s.1 record.id, judge repr language fixtures s.2 record)) ([], outcome)

/-- What was seen more than once. -/
def reportDuplicates (seen : List (PyStr × Nat)) (outcome : Outcome) : Outcome :=
  let duplicates := sorted ((seen.filter fun e => decide (1 < e.2)).map Prod.fst)
  if duplicates = [] then outcome
  else outcome.problem (text "fixtures reported more than once: " ++ commas duplicates)

/-- What was not seen. -/
def reportMissing (seen : List (PyStr × Nat)) (outcome : Outcome) : Outcome :=
  let missing := sorted (fixtures.ids.filter fun id => decide (id ∉ seen.map Prod.fst))
  if missing = [] then outcome
  else
    let shown := commas (missing.take 5) ++
      if 5 < missing.length then text " and " ++ (decimal (missing.length - 5) ++ text " more") else []
    outcome.problem (decimal missing.length ++ (text " fixture(s) have no result: " ++ shown))

/-- `account`. -/
def account (records : List Record) (outcome : Outcome) : Outcome :=
  let (seen, outcome) := loop repr language fixtures records outcome
  reportMissing fixtures seen (reportDuplicates seen outcome)

end Account

/-! ## §2. The loop. -/

section Loop

variable {repr : PyValue → PyStr} {language : PyStr} {fixtures : Fixtures}

/-- **A record counts**: its fixture is known, and it passed or the fixture declares the language
    inapplicable. -/
def Accounted (language : PyStr) (fixtures : Fixtures) (record : Record) : Prop :=
  ∃ inapplicable, getKey fixtures.entries record.id = some inapplicable ∧
    (record.status = .str (text "passed") ∨
      (record.status = .str (text "not_applicable") ∧ language ∈ inapplicable))

/-- **A record is counted, or it is a problem.** -/
theorem judge_cases (outcome : Outcome) (record : Record) :
    (Accounted language fixtures record ∧
      (judge repr language fixtures outcome record).problems = outcome.problems ∧
      (judge repr language fixtures outcome record).passed
        + (judge repr language fixtures outcome record).notApplicable
        = outcome.passed + outcome.notApplicable + 1) ∨
    (¬ Accounted language fixtures record ∧
      ∃ message, (judge repr language fixtures outcome record).problems = outcome.problems ++ [message]) := by
  unfold judge Accounted
  cases hknown : getKey fixtures.entries record.id with
  | none =>
      refine .inr ⟨?_, _, rfl⟩
      rintro ⟨inapplicable, hsome, -⟩
      cases hsome
  | some inapplicable =>
      simp only [Option.some.injEq, exists_eq_left']
      by_cases hpassed : record.status.isStr (text "passed") = true
      · rw [if_pos hpassed]
        exact .inl ⟨.inl (PyValue.isStr_iff.mp hpassed), rfl, Nat.add_right_comm _ _ _⟩
      · have hnotPassed := fun h => hpassed (PyValue.isStr_iff.mpr h)
        rw [if_neg hpassed]
        by_cases hskipped : record.status.isStr (text "not_applicable") = true
        · rw [if_pos hskipped]
          by_cases hdeclared : language ∈ inapplicable
          · rw [if_pos hdeclared]
            exact .inl ⟨.inr ⟨PyValue.isStr_iff.mp hskipped, hdeclared⟩, rfl, (Nat.add_assoc _ _ _).symm⟩
          · rw [if_neg hdeclared]
            exact .inr ⟨fun h => h.elim hnotPassed fun h => hdeclared h.2, _, rfl⟩
        · rw [if_neg hskipped]
          exact .inr ⟨fun h => h.elim hnotPassed fun h => hskipped (PyValue.isStr_iff.mpr h.1), _, rfl⟩

/-- **The loop leaves no problem exactly when every record counts**, and then it has counted them. -/
theorem judge_run (records : List Record) (outcome : Outcome) :
    ((records.foldl (judge repr language fixtures) outcome).problems = [] ↔
      outcome.problems = [] ∧ ∀ r ∈ records, Accounted language fixtures r) ∧
    ((∀ r ∈ records, Accounted language fixtures r) →
      (records.foldl (judge repr language fixtures) outcome).passed
        + (records.foldl (judge repr language fixtures) outcome).notApplicable
        = outcome.passed + outcome.notApplicable + records.length) := by
  induction records generalizing outcome with
  | nil => simp
  | cons record records ih =>
      rw [List.foldl_cons, List.forall_mem_cons]
      obtain ⟨hproblems, hcounts⟩ := ih (judge repr language fixtures outcome record)
      rcases @judge_cases repr language fixtures outcome record with
        ⟨haccounted, hsame, hone⟩ | ⟨hnot, message, hmore⟩
      · rw [hsame] at hproblems
        refine ⟨?_, ?_⟩
        · rw [hproblems, and_iff_right haccounted]
        · rintro ⟨-, hall⟩
          rw [hcounts hall, hone, List.length_cons]
          omega
      · rw [hmore] at hproblems
        refine ⟨?_, ?_⟩
        · rw [hproblems]
          simp [hnot]
        · rintro ⟨haccounted, -⟩
          exact absurd haccounted hnot

/-- The entries are the IDs that occurred, with the number of times. -/
def Counts (seen : List (PyStr × Nat)) (ids : List PyStr) : Prop :=
  ∀ e, e ∈ seen ↔ 0 < e.2 ∧ e.2 = ids.count e.1

/-- **One more ID is counted.** -/
theorem Counts.see {seen : List (PyStr × Nat)} {ids : List PyStr} (h : Counts seen ids) (fixtureId : PyStr) :
    Counts (see seen fixtureId) (ids ++ [fixtureId]) := by
  have hold : (getKey seen fixtureId).getD 0 = ids.count fixtureId := by
    cases hget : getKey seen fixtureId with
    | some n => exact ((h (fixtureId, n)).mp (mem_of_getKey hget)).2
    | none =>
        by_contra hne
        apply getKey_eq_none_iff.mp hget
        have hmem : (fixtureId, ids.count fixtureId) ∈ seen :=
          (h _).mpr ⟨Nat.pos_of_ne_zero (Ne.symm hne), rfl⟩
        exact List.mem_map_of_mem hmem
  rintro ⟨x, n⟩
  unfold Scripts.see
  rw [mem_putKey, hold, List.count_append, List.count_singleton]
  by_cases hx : x = fixtureId
  · subst hx
    simp only [Prod.mk.injEq, true_and, ne_eq, not_true_eq_false, false_and, or_false, beq_self_eq_true,
      if_true]
    omega
  · have hmem := h (x, n)
    simp [hx, Ne.symm hx, hmem]

/-- **The loop counts the IDs.** -/
theorem counts_run {seen : List (PyStr × Nat)} {ids : List PyStr} (h : Counts seen ids) (records : List Record) :
    Counts (records.foldl (fun seen record => see seen record.id) seen) (ids ++ records.map Record.id) := by
  induction records generalizing seen ids with
  | nil => simpa using h
  | cons record records ih =>
      have hrest := ih (h.see record.id)
      rwa [List.append_assoc] at hrest

/-- The two things that the loop does do not depend on each other. -/
theorem loop_eq (records : List Record) (outcome : Outcome) :
    loop repr language fixtures records outcome =
      (records.foldl (fun seen record => see seen record.id) [], records.foldl (judge repr language fixtures) outcome) := by
  unfold loop
  generalize ([] : List (PyStr × Nat)) = seen
  induction records generalizing seen outcome with
  | nil => rfl
  | cons record records ih => exact ih _ _

end Loop

/-! ## §3. What is reported behind the loop. -/

theorem sorted_eq_nil_iff {l : List PyStr} : sorted l = [] ↔ l = [] := by
  rw [← List.length_eq_zero_iff, ← List.length_eq_zero_iff]
  unfold sorted
  rw [List.length_mergeSort]

theorem problem_ne_nil (outcome : Outcome) (message : PyStr) : (outcome.problem message).problems ≠ [] :=
  List.append_ne_nil_of_right_ne_nil _ (List.cons_ne_nil _ _)

/-- **No duplicates are reported when no ID occurs twice.** -/
theorem reportDuplicates_iff {seen : List (PyStr × Nat)} {ids : List PyStr} (h : Counts seen ids)
    (outcome : Outcome) :
    (reportDuplicates seen outcome).problems = [] ↔ outcome.problems = [] ∧ ids.Nodup := by
  have hnodup : sorted ((seen.filter fun e => decide (1 < e.2)).map Prod.fst) = [] ↔ ids.Nodup := by
    rw [sorted_eq_nil_iff, List.map_eq_nil_iff, List.filter_eq_nil_iff, List.nodup_iff_count_le_one]
    simp only [decide_eq_true_eq, not_lt]
    constructor
    · intro hseen x
      by_contra hmany
      exact hmany (hseen (x, ids.count x) ((h _).mpr ⟨show 0 < ids.count x by omega, rfl⟩))
    · intro hids e he
      rw [((h e).mp he).2]
      exact hids e.1
  unfold reportDuplicates
  dsimp only
  rw [← hnodup]
  split_ifs with hnone
  · exact (and_iff_left hnone).symm
  · exact iff_of_false (problem_ne_nil _ _) fun h => hnone h.2

/-- **Nothing missing is reported when every fixture occurs.** -/
theorem reportMissing_iff {fixtures : Fixtures} {seen : List (PyStr × Nat)} {ids : List PyStr}
    (h : Counts seen ids) (outcome : Outcome) :
    (reportMissing fixtures seen outcome).problems = [] ↔ outcome.problems = [] ∧ ∀ id ∈ fixtures.ids, id ∈ ids := by
  have hseen : ∀ x, x ∈ seen.map Prod.fst ↔ x ∈ ids := by
    intro x
    rw [List.mem_map, ← List.count_pos_iff]
    constructor
    · rintro ⟨e, he, rfl⟩
      obtain ⟨hpos, heq⟩ := (h e).mp he
      rwa [← heq]
    · intro hpos
      exact ⟨(x, ids.count x), (h _).mpr ⟨hpos, rfl⟩, rfl⟩
  have hall : sorted (fixtures.ids.filter fun id => decide (id ∉ seen.map Prod.fst)) = [] ↔
      ∀ id ∈ fixtures.ids, id ∈ ids := by
    rw [sorted_eq_nil_iff, List.filter_eq_nil_iff]
    simp only [decide_eq_true_eq, not_not, hseen]
  unfold reportMissing
  dsimp only
  rw [← hall]
  split_ifs with hnone
  · exact (and_iff_left hnone).symm
  · exact iff_of_false (problem_ne_nil _ _) fun h => hnone h.2
  · exact iff_of_false (problem_ne_nil _ _) fun h => hnone h.2

/-- Neither of the two reports changes the counters. -/
theorem reports_counters (fixtures : Fixtures) (seen : List (PyStr × Nat)) (outcome : Outcome) :
    (reportMissing fixtures seen (reportDuplicates seen outcome)).passed = outcome.passed ∧
      (reportMissing fixtures seen (reportDuplicates seen outcome)).notApplicable = outcome.notApplicable := by
  have hduplicates : (reportDuplicates seen outcome).passed = outcome.passed ∧
      (reportDuplicates seen outcome).notApplicable = outcome.notApplicable := by
    unfold reportDuplicates
    dsimp only
    split_ifs <;> exact ⟨rfl, rfl⟩
  unfold reportMissing
  dsimp only
  split_ifs <;> exact hduplicates

/-- **No problem is left exactly when the records are those of the fixtures, each once, and all count**; then
    what was counted are the fixtures. -/
theorem account_complete_iff (repr : PyValue → PyStr) (language : PyStr) (fixtures : Fixtures)
    (records : List Record) :
    ((account repr language fixtures records fresh).problems = [] ↔
      (records.map Record.id).Perm fixtures.ids ∧ ∀ r ∈ records, Accounted language fixtures r) ∧
    ((account repr language fixtures records fresh).problems = [] →
      (account repr language fixtures records fresh).passed
        + (account repr language fixtures records fresh).notApplicable = fixtures.entries.length) := by
  have hcounts : Counts (records.foldl (fun seen record => see seen record.id) []) (records.map Record.id) := by
    have hnone : Counts [] [] := by
      intro e
      rw [List.count_nil]
      exact iff_of_false List.not_mem_nil (by omega)
    have hrun := counts_run hnone records
    rwa [List.nil_append] at hrun
  obtain ⟨hproblems, hcounted⟩ := @judge_run repr language fixtures records fresh
  have haccount : account repr language fixtures records fresh
      = reportMissing fixtures (records.foldl (fun seen record => see seen record.id) [])
          (reportDuplicates (records.foldl (fun seen record => see seen record.id) [])
            (records.foldl (judge repr language fixtures) fresh)) := by
    unfold account
    rw [loop_eq]
  have hperm : ((records.map Record.id).Nodup ∧ ∀ id ∈ fixtures.ids, id ∈ records.map Record.id) →
      (∀ r ∈ records, Accounted language fixtures r) → (records.map Record.id).Perm fixtures.ids := by
    rintro ⟨hnodup, hall⟩ hrecords
    apply (List.perm_ext_iff_of_nodup hnodup fixtures.nodup).mpr
    intro id
    refine ⟨?_, hall id⟩
    intro hid
    obtain ⟨r, hr, rfl⟩ := List.mem_map.mp hid
    obtain ⟨inapplicable, hknown, -⟩ := hrecords r hr
    exact List.mem_map_of_mem (mem_of_getKey hknown)
  have hiff : (account repr language fixtures records fresh).problems = [] ↔
      (records.map Record.id).Perm fixtures.ids ∧ ∀ r ∈ records, Accounted language fixtures r := by
    rw [haccount, reportMissing_iff hcounts, reportDuplicates_iff hcounts, hproblems]
    constructor
    · rintro ⟨⟨⟨-, hrecords⟩, hnodup⟩, hall⟩
      exact ⟨hperm ⟨hnodup, hall⟩ hrecords, hrecords⟩
    · rintro ⟨hsame, hrecords⟩
      exact ⟨⟨⟨rfl, hrecords⟩, hsame.nodup_iff.mpr fixtures.nodup⟩, fun id hid => hsame.mem_iff.mpr hid⟩
  refine ⟨hiff, ?_⟩
  intro hnone
  obtain ⟨hsame, hrecords⟩ := hiff.mp hnone
  obtain ⟨hpassed, hskipped⟩ := reports_counters fixtures
    (records.foldl (fun seen record => see seen record.id) [])
    (records.foldl (judge repr language fixtures) fresh)
  rw [haccount, hpassed, hskipped, hcounted hrecords]
  have hlength := hsame.length_eq
  unfold Fixtures.ids at hlength
  rw [List.length_map, List.length_map] at hlength
  show 0 + 0 + records.length = _
  omega

end CekatEvents.Scripts
