/-
  CekatEvents.JsonText.Entries — the entries of an insertion-ordered map.

  Main result: `mem_putKey` — putting a key in replaces the entry of that key, and no other.
-/
import CekatEvents.JsonText.Value

namespace CekatEvents.JsonText

variable {κ α : Type} [DecidableEq κ]

/-- An entry that is found is there. -/
theorem mem_of_getKey {m : List (κ × α)} {k : κ} {v : α} (h : getKey m k = some v) : (k, v) ∈ m := by
  obtain ⟨e, he, rfl⟩ := Option.map_eq_some_iff.mp h
  have hkey : e.1 = k := by simpa using List.find?_some he
  rw [← hkey]
  exact List.mem_of_find?_eq_some he

/-- A key is found exactly when an entry has it. -/
theorem getKey_eq_none_iff {m : List (κ × α)} {k : κ} : getKey m k = none ↔ k ∉ m.map Prod.fst := by
  unfold getKey
  rw [Option.map_eq_none_iff, List.find?_eq_none, List.mem_map, not_exists]
  simp only [beq_iff_eq, not_and]

/-- **An entry is found under its key**, when no key repeats. -/
theorem getKey_of_mem {m : List (κ × α)} (hnodup : (m.map Prod.fst).Nodup)
    {e : κ × α} (he : e ∈ m) : getKey m e.1 = some e.2 := by
  induction m with
  | nil => exact absurd he List.not_mem_nil
  | cons f m ih =>
      rw [List.map_cons, List.nodup_cons] at hnodup
      rw [getKey_cons]
      rcases List.mem_cons.mp he with rfl | he
      · exact if_pos rfl
      · have hne : f.1 ≠ e.1 := by
          intro heq
          exact hnodup.1 (heq ▸ List.mem_map_of_mem he)
        rw [if_neg hne]
        exact ih hnodup.2 he

/-- **Putting a key in replaces what it had**, and nothing else. -/
theorem mem_putKey {m : List (κ × α)} {k : κ} {v : α} {e : κ × α} :
    e ∈ putKey m k v ↔ e = (k, v) ∨ (e.1 ≠ k ∧ e ∈ m) := by
  rw [putKey]
  cases hany : m.any fun e => e.1 == k with
  | true =>
      rw [if_pos rfl, List.mem_map]
      constructor
      · rintro ⟨old, hold, rfl⟩
        split_ifs with hkey
        · exact .inl rfl
        · exact .inr ⟨hkey, hold⟩
      · rintro (rfl | ⟨hkey, he⟩)
        · obtain ⟨old, hold, hkey⟩ := List.any_eq_true.mp hany
          exact ⟨old, hold, if_pos (by simpa using hkey)⟩
        · exact ⟨e, he, if_neg hkey⟩
  | false =>
      rw [if_neg (by simp), List.mem_append, List.mem_singleton]
      have hnone : ∀ old ∈ m, old.1 ≠ k := by
        intro old hold heq
        rw [List.any_eq_false] at hany
        exact hany old hold (by simpa using heq)
      constructor
      · rintro (he | rfl)
        · exact .inr ⟨hnone e he, he⟩
        · exact .inl rfl
      · rintro (rfl | ⟨-, he⟩)
        · exact .inr rfl
        · exact .inl he

/-- A key that is there stays where it is. -/
theorem keys_putKey_of_mem {m : List (κ × α)} {k : κ} (v : α) (h : k ∈ m.map Prod.fst) :
    (putKey m k v).map Prod.fst = m.map Prod.fst := by
  have hany : (m.any fun e => e.1 == k) = true := by
    obtain ⟨e, he, rfl⟩ := List.mem_map.mp h
    exact List.any_eq_true.mpr ⟨e, he, beq_self_eq_true _⟩
  unfold putKey
  rw [if_pos hany, List.map_map]
  apply List.map_congr_left
  intro e _
  show (if e.1 = k then (k, v) else e).1 = e.1
  split_ifs with he
  · exact he.symm
  · rfl

/-- A key that is new comes last. -/
theorem putKey_of_fresh {m : List (κ × α)} {k : κ} (v : α)
    (hfresh : k ∉ m.map Prod.fst) : putKey m k v = m ++ [(k, v)] := by
  have hany : (m.any fun e => e.1 == k) = false := by
    rw [List.any_eq_false]
    intro e he
    simp only [beq_iff_eq]
    intro heq
    exact hfresh (List.mem_map.mpr ⟨e, he, heq⟩)
  unfold putKey
  rw [hany, if_neg Bool.false_ne_true]

/-- **Keys that are all different stay so.** -/
theorem putKey_nodup {m : List (κ × α)} (h : (m.map Prod.fst).Nodup) (k : κ) (v : α) :
    ((putKey m k v).map Prod.fst).Nodup := by
  by_cases hmem : k ∈ m.map Prod.fst
  · rw [keys_putKey_of_mem v hmem]
    exact h
  · rw [putKey_of_fresh v hmem, List.map_append]
    apply List.nodup_append.mpr
    refine ⟨h, List.nodup_singleton k, ?_⟩
    rintro a ha b hb rfl
    have hk : a = k := List.mem_singleton.mp hb
    exact hmem (hk ▸ ha)

/-- So they do when entry after entry is put in. -/
theorem foldl_putKey_nodup (es : List (κ × α)) {m : List (κ × α)} (h : (m.map Prod.fst).Nodup) :
    ((es.foldl (fun m e => putKey m e.1 e.2) m).map Prod.fst).Nodup := by
  induction es generalizing m with
  | nil => exact h
  | cons e es ih => exact ih (putKey_nodup h e.1 e.2)

/-- What is there after putting entries in was there before, or is one of them. -/
theorem mem_of_mem_foldl_putKey {es m : List (κ × α)} {x : κ × α}
    (h : x ∈ es.foldl (fun m e => putKey m e.1 e.2) m) : x ∈ m ∨ x ∈ es := by
  induction es generalizing m with
  | nil => exact .inl h
  | cons e es ih =>
      rcases ih h with hput | hrest
      · rcases mem_putKey.mp hput with rfl | ⟨-, hm⟩
        · exact .inr List.mem_cons_self
        · exact .inl hm
      · exact .inr (List.mem_cons_of_mem e hrest)

/-- The entry of a key when every value is replaced. -/
theorem getKey_map {β : Type} (g : α → β) (m : List (κ × α)) (k : κ) :
    getKey (m.map fun e => (e.1, g e.2)) k = (getKey m k).map g := by
  induction m with
  | nil => rfl
  | cons e m ih =>
      rw [List.map_cons, getKey_cons, getKey_cons, ih]
      split_ifs
      · rfl
      · rfl

/-- Putting a key in and replacing every value, in either order. -/
theorem map_putKey {β : Type} (g : α → β) (m : List (κ × α)) (k : κ) (v : α) :
    (putKey m k v).map (fun e => (e.1, g e.2)) = putKey (m.map fun e => (e.1, g e.2)) k (g v) := by
  have hany : ((m.map fun e => (e.1, g e.2)).any fun e => e.1 == k) = m.any fun e => e.1 == k := by
    rw [List.any_map]
    rfl
  unfold putKey
  rw [hany]
  split_ifs
  · rw [List.map_map, List.map_map]
    refine List.map_congr_left fun e _ => ?_
    show ((if e.1 = k then (k, v) else e).1, g (if e.1 = k then (k, v) else e).2) =
      if e.1 = k then (k, g v) else (e.1, g e.2)
    split_ifs
    · rfl
    · rfl
  · rw [List.map_append]
    rfl

end CekatEvents.JsonText
