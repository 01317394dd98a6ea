/-
  CekatEvents.JsonText.Copied — graphs that are copied into values of JSON.

  The clients differ in what their graphs are made of; what a copy makes of a leaf, of a sequence and of an
  object is the same everywhere.  A value is let through when its numbers satisfy a condition, and what is built
  of it is the value up to the order of members.

    * `leaf_step`, `number_step` — what has nothing inside;
    * `array_step`, `object_step` — what stands for a sequence or an object, entry by entry.
-/
import CekatEvents.Graph.Follow
import CekatEvents.JsonText.Alike

namespace CekatEvents.JsonText

open CekatEvents.Graph

section Copied

variable {α ι σ φ ν μ : Type} {T : Traversal α ι σ φ (Value ν)} {M : α → Value μ → Prop} {N : ν → μ → Prop}
  {B : μ → Prop} {x : α}

/-- A leaf that is what it stands for, and has no number. -/
theorem leaf_step {w : Value ν} {v : Value μ} (hshape : T.shape x = .leaf (.ok w)) (hw : w.Alike N v)
    (hv : v.Numbers B) : Follows.Step T M (Value.Alike N) (Value.Numbers B) Value.nesting x v := by
  refine .inl ⟨_, hshape, ?_, fun _ => ⟨w, rfl⟩⟩
  intro u hu
  cases hu
  exact ⟨hw, hv⟩

/-- A leaf that is a number, when that is let through. -/
theorem number_step {result : Except φ (Value ν)} {q : μ} (hshape : T.shape x = .leaf result)
    (hok : ∀ w, result = .ok w → ∃ n, w = .num n ∧ N n q ∧ B q) (hB : B q → ∃ w, result = .ok w) :
    Follows.Step T M (Value.Alike N) (Value.Numbers B) Value.nesting x (.num q) := by
  refine .inl ⟨_, hshape, ?_, hB⟩
  intro w hw
  obtain ⟨n, rfl, hn, hq⟩ := hok w hw
  exact ⟨⟨q, rfl, hn⟩, hq⟩

/-- The items of entries. -/
theorem forall₂_items {entries : List (Entry α σ φ)} {xs : List α} (hitems : entries.map Entry.item = xs)
    {vs : List (Value μ)} (h : List.Forall₂ M xs vs) : List.Forall₂ (fun e v => M e.item v) entries vs := by
  rw [← hitems] at h
  exact List.forall₂_map_left_iff.mp h

/-- **What stands for a sequence.** -/
theorem array_step {ident : Option ι} {entries : List (Entry α σ φ)} {build : List (Value ν) → Value ν}
    {vs : List (Value μ)} (hshape : T.shape x = .node ident none entries build)
    (hentries : List.Forall₂ (fun e v => M e.item v) entries vs) (hclean : ∀ e ∈ entries, e.Clean)
    (hbuild : ∀ ws, build ws = .arr ws) :
    Follows.Step T M (Value.Alike N) (Value.Numbers B) Value.nesting x (.arr vs) := by
  refine .inr ⟨ident, entries, build, vs, hshape, hentries, ?_, ?_, ?_⟩
  · intro u hu
    exact Nat.lt_succ_of_le (valuesNesting_le.mp le_rfl u hu)
  · intro ws hws
    rw [hbuild]
    exact alike_arr hws
  · show NumbersElem B vs ↔ _
    rw [numbersElem_iff]
    exact (and_iff_right hclean).symm

/-- **What stands for an object**, with a name for every entry. -/
theorem object_step {ident : Option ι} {entries : List (Entry α σ φ)} {build : List (Value ν) → Value ν}
    {names : List (List Encoding.CodeUnit)} {vs : List (Value μ)}
    (hshape : T.shape x = .node ident none entries build)
    (hentries : List.Forall₂ (fun e v => M e.item v) entries vs) (hclean : ∀ e ∈ entries, e.Clean)
    (hlen : names.length = entries.length)
    (hbuild : ∀ ws, ws.length = names.length → build ws = .obj (names.zip ws)) :
    Follows.Step T M (Value.Alike N) (Value.Numbers B) Value.nesting x (.obj (names.zip vs)) := by
  have hvs : vs.length = names.length := hentries.length_eq.symm.trans hlen.symm
  have hvals : (names.zip vs).map Prod.snd = vs := List.map_snd_zip (Nat.le_of_eq hvs)
  refine .inr ⟨ident, entries, build, vs, hshape, hentries, ?_, ?_, ?_⟩
  · obtain ⟨m, hm, hle⟩ := (nesting_zip_le hvs).mp (Nat.le_refl _)
    intro u hu
    have hu := hle u hu
    omega
  · intro ws hws
    rw [hbuild ws (hws.length_eq.trans hvs)]
    exact alike_obj (forall₂_zip hws)
  · show NumbersMember B _ ↔ _
    rw [numbersMember_iff, and_iff_right hclean]
    conv_rhs => rw [← hvals]
    exact List.forall_mem_map.symm

end Copied

end CekatEvents.JsonText
