/-
  CekatEvents.Payload.Body — the body of a request, as most builders put it together.

  Nine members in a fixed order: four that are always there and five that may be absent.  Strings are
  code units, so that a builder whose strings may hold unpaired surrogates has them too; `ν` is what the
  builder has for numbers.
-/
import CekatEvents.JsonText.Encode

namespace CekatEvents.Payload

open CekatEvents.Encoding CekatEvents.JsonText

/-- The fields of a body. -/
structure Body (ν : Type) where
  eventKey : List CodeUnit
  eventId : List CodeUnit
  occurredAt : List CodeUnit
  isCommon : Bool
  email : Option (List CodeUnit)
  phoneNumber : Option (List CodeUnit)
  contactName : Option (List CodeUnit)
  visitorId : Option (List CodeUnit)
  properties : Option (Value ν)

/-- The names of the members. -/
def memberNames : List (List CodeUnit) :=
  [units "event_key", units "event_id", units "occurred_at", units "is_common", units "email",
   units "phone_number", units "contact_name", units "visitor_id", units "properties"]

section Body

variable {ν : Type}

/-- The values of the members, where they are present. -/
def Body.values (b : Body ν) : List (Option (Value ν)) :=
  [some (.str b.eventKey), some (.str b.eventId), some (.str b.occurredAt), some (.bool b.isCommon),
   b.email.map .str, b.phoneNumber.map .str, b.contactName.map .str, b.visitorId.map .str,
   b.properties]

/-- The members that are present. -/
def present (names : List (List CodeUnit)) (values : List (Option (Value ν))) :
    List (List CodeUnit × Value ν) :=
  (names.zip values).filterMap fun m => m.2.map fun v => (m.1, v)

/-- The body as an object. -/
def Body.value (b : Body ν) : Value ν := .obj (present memberNames b.values)

/-- Put other numbers into the properties. -/
def Body.map {μ : Type} (f : ν → μ) (b : Body ν) : Body μ :=
  { b with properties := b.properties.map (Value.map f) }

theorem memberNames_nodup : memberNames.Nodup := by decide

theorem present_names_sublist (names : List (List CodeUnit)) (values : List (Option (Value ν))) :
    ((present names values).map Prod.fst).Sublist names := by
  unfold present
  induction names generalizing values with
  | nil => exact .slnil
  | cons name names ih =>
      cases values with
      | nil => exact List.nil_sublist _
      | cons v vs =>
          rw [List.zip_cons_cons]
          cases v with
          | none => exact (ih vs).cons name
          | some v => exact (ih vs).cons_cons name

/-- **No member of a body is there twice.** -/
theorem Body.names_nodup (b : Body ν) : ((present memberNames b.values).map Prod.fst).Nodup :=
  (present_names_sublist memberNames b.values).nodup memberNames_nodup

theorem mem_present {names : List (List CodeUnit)} {values : List (Option (Value ν))}
    {m : List CodeUnit × Value ν} (h : m ∈ present names values) :
    m.1 ∈ names ∧ some m.2 ∈ values := by
  obtain ⟨⟨name, o⟩, hmem, ho⟩ := List.mem_filterMap.mp h
  obtain ⟨v, rfl, rfl⟩ := Option.map_eq_some_iff.mp ho
  exact ⟨(List.of_mem_zip hmem).1, (List.of_mem_zip hmem).2⟩

/-- A value that is there is a member. -/
theorem exists_mem_present {names : List (List CodeUnit)} {values : List (Option (Value ν))}
    (hlen : names.length = values.length) {v : Value ν} (h : some v ∈ values) :
    ∃ name, (name, v) ∈ present names values := by
  have hsnd : (names.zip values).map Prod.snd = values := List.map_snd_zip (Nat.le_of_eq hlen.symm)
  rw [← hsnd] at h
  obtain ⟨⟨name, o⟩, hmem, rfl⟩ := List.mem_map.mp h
  exact ⟨name, List.mem_filterMap.mpr ⟨_, hmem, rfl⟩⟩

/-- Names and values are taken one after another. -/
theorem present_cons (name : List CodeUnit) (names : List (List CodeUnit)) (o : Option (Value ν))
    (values : List (Option (Value ν))) :
    present (name :: names) (o :: values)
      = (o.toList.map fun v => (name, v)) ++ present names values := by
  cases o with
  | none => rfl
  | some v => rfl

/-- A name finds its value, or nothing when that is absent. -/
theorem getKey_present {names : List (List CodeUnit)} (hnodup : names.Nodup)
    {values : List (Option (Value ν))} {name : List CodeUnit} {o : Option (Value ν)}
    (h : (name, o) ∈ names.zip values) : getKey (present names values) name = o := by
  induction names generalizing values with
  | nil => exact absurd h List.not_mem_nil
  | cons n names ih =>
      cases values with
      | nil => exact absurd h List.not_mem_nil
      | cons v vs =>
          obtain ⟨hnot, hnodup⟩ := List.nodup_cons.mp hnodup
          rw [present_cons, getKey_append]
          rw [List.zip_cons_cons, List.mem_cons, Prod.mk.injEq] at h
          rcases h with ⟨rfl, rfl⟩ | h
          · cases o with
            | some w => simp [getKey]
            | none =>
                rw [Option.toList_none, List.map_nil, getKey_nil, Option.none_or]
                apply getKey_eq_none
                rw [List.any_eq_false]
                intro m hm
                have hmem := (present_names_sublist names vs).subset (List.mem_map_of_mem hm)
                simp only [beq_iff_eq]
                intro heq
                exact hnot (heq ▸ hmem)
          · have hne : n ≠ name := by
              rintro rfl
              exact hnot (List.of_mem_zip h).1
            have hhead : getKey (v.toList.map fun w => (n, w)) name = none := by
              cases v with
              | none => rfl
              | some w => simp [getKey, hne]
            rw [hhead, Option.none_or]
            exact ih hnodup h

/-- The properties are found under their name. -/
theorem Body.get_properties (b : Body ν) : b.value.get (units "properties") = b.properties :=
  getKey_present (o := b.properties) memberNames_nodup (by simp [memberNames, Body.values])

/-- The visitor is found under its name. -/
theorem Body.get_visitorId (b : Body ν) :
    b.value.get (units "visitor_id") = b.visitorId.map .str :=
  getKey_present (o := b.visitorId.map .str) memberNames_nodup
    (by simp [memberNames, Body.values])

/-- The names are ASCII. -/
theorem memberNames_wellFormed : ∀ name ∈ memberNames, WellFormed name := by
  intro name hname
  apply WellFormed.of_ascii
  revert name
  decide

/-- What holds of the values of all members. -/
theorem Body.forall_present_iff {P : Value ν → Prop} (b : Body ν) :
    (∀ m ∈ present memberNames b.values, P m.2) ↔ ∀ o ∈ b.values, ∀ v ∈ o, P v := by
  constructor
  · intro h o ho v hv
    rw [Option.mem_def] at hv
    obtain ⟨name, hm⟩ := exists_mem_present (rfl : memberNames.length = b.values.length) (hv ▸ ho)
    exact h _ hm
  · intro h m hm
    exact h _ (mem_present hm).2 m.2 rfl

/-- The strings of a body, its properties apart. -/
def Body.strings (b : Body ν) : List (List CodeUnit) :=
  [b.eventKey, b.eventId, b.occurredAt] ++ b.email.toList ++ b.phoneNumber.toList ++
    b.contactName.toList ++ b.visitorId.toList

/-- **A condition on all strings of a body**, and on the names of every object. -/
theorem Body.each_iff {S : List CodeUnit → Prop} {O : List (List CodeUnit) → Prop}
    (hnames : ∀ name ∈ memberNames, S name) (b : Body ν)
    (hO : O ((present memberNames b.values).map Prod.fst)) :
    b.value.Each S O ↔ (∀ s ∈ b.strings, S s) ∧ ∀ v ∈ b.properties, v.Each S O := by
  have hmembers : b.value.Each S O ↔ ∀ m ∈ present memberNames b.values, m.2.Each S O := by
    show (O _ ∧ EachMember S O _) ↔ _
    rw [and_iff_right hO, eachMember_iff]
    apply forall₂_congr
    intro m hm
    exact and_iff_right (hnames _ (mem_present hm).1)
  have hstr : ∀ o : Option (List CodeUnit),
      (∀ v ∈ o.map (Value.str (ν := ν)), v.Each S O) ↔ ∀ s ∈ o.toList, S s := by
    intro o
    cases o with
    | none => simp
    | some s => simp [Value.Each]
  have hone : ∀ s, (∀ v ∈ some (Value.str (ν := ν) s), v.Each S O) ↔ S s := by
    intro s
    simp [Value.Each]
  rw [hmembers, b.forall_present_iff]
  unfold Body.values Body.strings
  simp only [List.forall_mem_cons, List.forall_mem_append, hstr, hone]
  have hbool : ∀ v ∈ some (Value.bool (ν := ν) b.isCommon), v.Each S O := by
    intro v hv
    cases hv
    trivial
  simp only [and_iff_right hbool, List.not_mem_nil, false_imp_iff, implies_true, and_true,
    and_assoc]

/-- **No name repeats in a body** when none does in its properties. -/
theorem Body.distinct_iff {b : Body ν} : b.value.Distinct ↔ ∀ v ∈ b.properties, v.Distinct := by
  unfold Value.Distinct
  rw [b.each_iff (fun _ _ => trivial) b.names_nodup]
  simp

/-- The body nests one level more than the properties. -/
theorem Body.nesting_le {b : Body ν} {n : Nat} :
    b.value.nesting ≤ n + 1 ↔ ∀ v ∈ b.properties, v.nesting ≤ n := by
  have hstr : ∀ o : Option (List CodeUnit), ∀ v ∈ o.map (Value.str (ν := ν)), v.nesting ≤ n := by
    intro o v hv
    obtain ⟨s, -, rfl⟩ := Option.map_eq_some_iff.mp hv
    exact Nat.zero_le n
  have hone : ∀ w : Value ν, w.nesting = 0 → ∀ v ∈ some w, v.nesting ≤ n := by
    intro w hw v hv
    cases hv
    rw [hw]
    exact Nat.zero_le n
  unfold Body.value
  rw [nesting_obj_le]
  trans ∀ m ∈ present memberNames b.values, m.2.nesting ≤ n
  · constructor
    · intro h
      obtain ⟨m, hm, h⟩ := h
      cases hm
      exact h
    · intro h
      exact ⟨n, rfl, h⟩
  · rw [b.forall_present_iff (P := fun v => v.nesting ≤ n)]
    unfold Body.values
    simp only [List.forall_mem_cons]
    constructor
    · intro h
      exact h.2.2.2.2.2.2.2.2.1
    · intro h
      exact ⟨hone _ rfl, hone _ rfl, hone _ rfl, hone _ rfl, hstr _, hstr _, hstr _, hstr _, h, by simp⟩

/-- The numbers of a body are those of its properties. -/
theorem Body.numbers_iff {N : ν → Prop} {b : Body ν} :
    b.value.Numbers N ↔ ∀ v ∈ b.properties, v.Numbers N := by
  have hstr : ∀ o : Option (List CodeUnit), ∀ v ∈ o.map (Value.str (ν := ν)), v.Numbers N := by
    intro o v hv
    obtain ⟨s, -, rfl⟩ := Option.map_eq_some_iff.mp hv
    trivial
  have hone : ∀ w : Value ν, w.Numbers N → ∀ v ∈ some w, v.Numbers N := by
    intro w hw v hv
    cases hv
    exact hw
  trans ∀ m ∈ present memberNames b.values, m.2.Numbers N
  · exact numbersMember_iff
  · rw [b.forall_present_iff (P := fun v => v.Numbers N)]
    unfold Body.values
    simp only [List.forall_mem_cons]
    constructor
    · intro h
      exact h.2.2.2.2.2.2.2.2.1
    · intro h
      exact ⟨hone _ trivial, hone _ trivial, hone _ trivial, hone _ trivial, hstr _, hstr _, hstr _, hstr _, h,
        by simp⟩

/-- Other numbers in a body are other numbers in its properties. -/
theorem Body.value_map {μ : Type} (f : ν → μ) (b : Body ν) : b.value.map f = (b.map f).value := by
  have hvalues : (b.map f).values = b.values.map (Option.map (Value.map f)) := by
    unfold Body.values Body.map
    simp only [List.map_cons, List.map_nil, Option.map_some, Option.map_map]
    rfl
  have hpresent : ∀ (names : List (List CodeUnit)) (values : List (Option (Value ν))),
      present names (values.map (Option.map (Value.map f)))
        = (present names values).map fun m => (m.1, m.2.map f) := by
    intro names values
    unfold present
    rw [List.map_filterMap, List.zip_map_right, List.filterMap_map]
    apply List.filterMap_congr
    intro m _
    cases hm : m.2 with
    | none => simp [hm]
    | some v => simp [hm]
  show Value.obj (mapMembers f _) = .obj _
  rw [mapMembers_eq_map, hvalues, hpresent]

end Body

end CekatEvents.Payload
