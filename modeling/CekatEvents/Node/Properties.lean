/-
  CekatEvents.Node.Properties — what `copyJsonValue` makes of plain objects.

  On a heap the copier is a walk of a graph: `copyJsonValue_eq`.  The graph says of each value what is
  wrong with it and which entries it has; the walk, with its set of ancestors and its order of faults, is
  that of `Graph.Walk`.
-/
import CekatEvents.Graph.Unfold
import CekatEvents.Node.Heap

namespace CekatEvents.Node

open CekatEvents.Arithmetic CekatEvents.Effects CekatEvents.Encoding CekatEvents.Graph
  CekatEvents.JsonText

/-! ## §1. The graph of a heap. -/

inductive Step where
  | index (n : Nat)
  | key (name : Str)
  deriving DecidableEq

/-- The path of what a step leads to. -/
def stepPath (parent : Str) : Step → Str
  | .index n => elementPath parent n
  | .key name => propertyPath parent name

/-- The path of a value, as messages name it. -/
def pathText (steps : List Step) : Str := steps.foldl stepPath (units "properties")

inductive Fault where
  | invalid
  /-- What a step leads to is no value that can be copied. -/
  | invalidAt (step : Step)
  | cycle
  | tooDeep
  deriving DecidableEq

/-- What is thrown for a fault. -/
def raised : Located Step Fault → Raised Address
  | (path, .invalid) => .validation (pathText path ++ units " is not a JSON-compatible value")
  | (path, .invalidAt step) =>
      .validation (stepPath (pathText path) step ++ units " is not a JSON-compatible value")
  | (path, .cycle) => .validation (pathText path ++ units " contains a cycle")
  | (_, .tooDeep) => .rangeError

/-- The key is the index of an element. -/
def Obj.isIndex (obj : Obj) (key : Str) : Bool :=
  (obj.length.any fun n => decide (natValue key < n)) &&
    decide (indexKey (natValue key) = key ∧ natValue key ≤ maxSafeInteger)

/-- What is wrong with an object before its entries are looked at. -/
def Obj.opening (obj : Obj) : Option Fault :=
  if obj.hasEnumerableSymbol then some .invalid
  else if obj.length.isSome then
    if obj.enumerableKeys.all obj.isIndex then none else some .invalid
  else if obj.prototype = some objectPrototype ∨ obj.prototype = none then none
  else some .invalid

/-- The entry of a property, which has to have a value. -/
def entryOf (step : Step) : Option Property → Entry (Unknown Address) Step Fault
  | some (.data value true) => ⟨step, none, value, none⟩
  | _ => ⟨step, some (.invalidAt step), .undefined, none⟩

/-- The entries of an object: its elements, or its members. -/
def Obj.entries (obj : Obj) : List (Entry (Unknown Address) Step Fault) :=
  match obj.length with
  | some n => (List.range n).map fun i => entryOf (.index i) (obj.getOwn (.string (indexKey i)))
  | none => obj.enumerableKeys.map fun key => entryOf (.key key) (obj.getOwn (.string key))

/-- The copy of an object, from those of its entries. -/
def Obj.build (obj : Obj) (copies : List (Value Finite)) : Value Finite :=
  match obj.length with
  | some _ => .arr copies
  | none => .obj (obj.enumerableKeys.zip copies)

/-- What stands at a value. -/
def shape (h : Heap) : Unknown Address → Shape (Unknown Address) Address Step Fault (Value Finite)
  | .null => .leaf (.ok .null)
  | .boolean b => .leaf (.ok (.bool b))
  | .string s => .leaf (.ok (.str s))
  | .number x =>
      match x.portable? with
      | some y => .leaf (.ok (.num y))
      | none => .leaf (.error .invalid)
  | .object o =>
      if o.callable then .leaf (.error .invalid)
      else .node (some o) (h.objects o).opening (h.objects o).entries (h.objects o).build
  | _ => .leaf (.error .invalid)

/-- **The graph of a heap.** -/
def graph (h : Heap) : Traversal (Unknown Address) Address Step Fault (Value Finite) where
  shape := shape h
  tooDeep := .tooDeep
  cyclic := .cycle

theorem shape_object (h : Heap) (o : Address) : (graph h).shape (.object o)
    = if o.callable then .leaf (.error .invalid)
      else .node (some o) (h.objects o).opening (h.objects o).entries (h.objects o).build := rfl

theorem shape_number (h : Heap) (x : Double) : (graph h).shape (.number x) = match x.portable? with
    | some y => .leaf (.ok (.num y))
    | none => .leaf (.error .invalid) := rfl

/-- The nodes are the objects that are no functions. -/
theorem shape_node_iff {h : Heap} {v : Unknown Address} {ident : Option Address}
    {opening : Option Fault} {entries : List (Entry (Unknown Address) Step Fault)}
    {build : List (Value Finite) → Value Finite} :
    (graph h).shape v = .node ident opening entries build ↔
      ∃ o, v = .object o ∧ o.callable = false ∧ ident = some o ∧ opening = (h.objects o).opening ∧
        entries = (h.objects o).entries ∧ build = (h.objects o).build := by
  constructor
  · intro hshape
    cases v with
    | object o =>
        rw [shape_object] at hshape
        split_ifs at hshape with hcallable
        cases hshape
        exact ⟨o, rfl, by simpa using hcallable, rfl, rfl, rfl, rfl⟩
    | number x =>
        rw [shape_number] at hshape
        cases hx : x.portable? <;> simp [hx] at hshape
    | _ => cases hshape
  · intro hnode
    obtain ⟨o, rfl, hcallable, rfl, rfl, rfl, rfl⟩ := hnode
    rw [shape_object, hcallable]
    rfl

/-- An array may hold no enumerable property but its elements, and another object has to be plain. -/
theorem opening_eq_none_iff {obj : Obj} : obj.opening = none ↔ obj.hasEnumerableSymbol = false ∧
    if obj.length.isSome then obj.enumerableKeys.all obj.isIndex = true
    else obj.prototype = some objectPrototype ∨ obj.prototype = none := by
  unfold Obj.opening
  cases obj.hasEnumerableSymbol with
  | true => simp
  | false =>
      cases obj.length.isSome with
      | true => simp
      | false =>
          rw [if_neg Bool.false_ne_true, if_neg Bool.false_ne_true, if_neg Bool.false_ne_true,
            ite_eq_left_iff]
          simp [or_iff_not_imp_left]

/-! ## §2. The copier is a walk. -/

/-- The end of a walk as the end of code that left the heap alone. -/
def report {α : Type} (h : Heap) :
    Except (Located Step Fault) α → EStateM.Result (Raised Address) Heap α
  | .ok a => .ok a h
  | .error fault => .error (raised fault) h

theorem pathText_step (path : List Step) (step : Step) :
    pathText (path ++ [step]) = stepPath (pathText path) step := by
  unfold pathText
  rw [List.foldl_append]
  rfl

section Copier

variable {env : Environment} {h : Heap} {o : Address} {path : List Step}

theorem isArrayIndex_heap (key : Str) :
    isArrayIndex (heapRealm env) key o h = .ok ((h.objects o).isIndex key) h := by
  unfold isArrayIndex
  rw [bind_of_ok (belowLength_heap (natValue key) o)]
  rfl

theorem requireIndices_heap (path : Str) (keys : List Str) :
    requireIndices (heapRealm env) o path keys h
      = if keys.all (h.objects o).isIndex then .ok () h
        else .error (.validation (path ++ units " is not a JSON-compatible value")) h := by
  induction keys with
  | nil => rfl
  | cons key keys ih =>
      rw [requireIndices, bind_of_ok (isArrayIndex_heap key), List.all_cons]
      cases (h.objects o).isIndex key with
      | true => exact ih
      | false => rfl

variable {copy : Copier Address Heap}
  {visitItem : List Address → List Step → Unknown Address →
    Except (Located Step Fault) (Value Finite × List Address)}

/-- Code that goes on as a walk goes on. -/
theorem report_bind {α β : Type} {m : JS Address Heap α} {k : α → JS Address Heap β}
    {x : Except (Located Step Fault) α} {f : α → Except (Located Step Fault) β}
    (hm : m h = report h x) (hk : ∀ a, k a h = report h (f a)) : (m >>= k) h = report h (x >>= f) := by
  cases x with
  | error fault => exact bind_of_error hm
  | ok a => exact (bind_of_ok hm).trans (hk a)

/-- A property with a value is visited, and then what comes after it. -/
theorem visitEntries_data (ancestors : List Address) (step : Step) (value : Unknown Address)
    (es : List (Entry (Unknown Address) Step Fault)) :
    visitEntries visitItem path ancestors (entryOf step (some (.data value true)) :: es)
      = (visitItem ancestors (path ++ [step]) value >>= fun first =>
          visitEntries visitItem path first.2 es >>= fun rest =>
            .ok (first.1 :: rest.1, rest.2)) := by
  unfold entryOf
  rw [visitEntries]
  cases visitItem ancestors (path ++ [step]) value with
  | error fault => rfl
  | ok first =>
      show _ = visitEntries visitItem path first.2 es >>= _
      simp only
      cases visitEntries visitItem path first.2 es with
      | error fault => rfl
      | ok rest => rfl

/-- The members of an object are visited one after another. -/
theorem copyMembers_heap
    (hcopy : ∀ ancestors path v, copy ancestors v (pathText path) h = report h (visitItem ancestors path v))
    {keys : List Str} (hkeys : ∀ key ∈ keys, ((h.objects o).getOwn (.string key)).any Property.enumerable)
    (ancestors : List Address) :
    copyMembers (heapRealm env) copy o (pathText path) keys ancestors h
      = report h (visitEntries visitItem path ancestors
          (keys.map fun key => entryOf (.key key) ((h.objects o).getOwn (.string key))) >>= fun r =>
            .ok (keys.zip r.1, r.2)) := by
  induction keys generalizing ancestors with
  | nil => rfl
  | cons key keys ih =>
      have hkey := hkeys key List.mem_cons_self
      have hrest : ∀ key' ∈ keys, ((h.objects o).getOwn (.string key')).any Property.enumerable :=
        fun key' hmem => hkeys key' (List.mem_cons_of_mem key hmem)
      rw [copyMembers, bind_of_ok (getOwnProperty_heap o (.string key)), List.map_cons]
      cases hown : (h.objects o).getOwn (.string key) with
      | none => rfl
      | some property =>
          cases property with
          | accessor getter enumerable => rfl
          | data value enumerable =>
              rw [hown] at hkey
              cases enumerable with
              | false => cases hkey
              | true =>
                  rw [visitEntries_data, bind_assoc]
                  have hvalue := hcopy ancestors (path ++ [.key key]) value
                  rw [pathText_step] at hvalue
                  apply report_bind hvalue
                  intro first
                  rw [bind_assoc]
                  have hmembers := report_bind (ih hrest first.2)
                    (f := fun members => .ok ((key, first.1) :: members.1, members.2)) fun _ => rfl
                  rw [bind_assoc] at hmembers
                  exact hmembers

/-- The elements of an array are visited one after another; an array never has more than there is room
    for in its copy. -/
theorem copyElements_heap
    (hcopy : ∀ ancestors path v, copy ancestors v (pathText path) h = report h (visitItem ancestors path v))
    {n : Nat} (hlength : (h.objects o).length = some n) (left : Nat) {index room : Nat}
    (hleft : index + left = n) (hroom : left ≤ room) (ancestors : List Address) :
    copyElements (heapRealm env) copy o (pathText path) room index ancestors h
      = report h (visitEntries visitItem path ancestors
          ((List.range' index left).map fun i =>
            entryOf (.index i) ((h.objects o).getOwn (.string (indexKey i))))) := by
  induction left generalizing index room ancestors with
  | zero =>
      have hbelow : ((h.objects o).length.any fun n => decide (index < n)) = false := by
        rw [hlength]
        simp only [Option.any_some, decide_eq_false_iff_not]
        omega
      rw [copyElements, bind_of_ok (belowLength_heap index o), hbelow]
      rfl
  | succ left ih =>
      have hbelow : ((h.objects o).length.any fun n => decide (index < n)) = true := by
        rw [hlength]
        simp only [Option.any_some, decide_eq_true_eq]
        omega
      rw [copyElements, bind_of_ok (belowLength_heap index o), hbelow, List.range'_succ, List.map_cons,
        if_pos rfl, bind_of_ok (getOwnProperty_heap o (.string (indexKey index)))]
      cases hown : (h.objects o).getOwn (.string (indexKey index)) with
      | none => rfl
      | some property =>
          cases property with
          | accessor getter enumerable => rfl
          | data value enumerable =>
              cases enumerable with
              | false => rfl
              | true =>
                  rw [visitEntries_data]
                  have hvalue := hcopy ancestors (path ++ [.index index]) value
                  rw [pathText_step] at hvalue
                  apply report_bind hvalue
                  intro first
                  obtain ⟨room, rfl⟩ : ∃ r, room = r + 1 := ⟨room - 1, by omega⟩
                  exact report_bind (ih (by omega) (by omega) first.2) fun _ => rfl

/-- The copy of an object is put together from those of its entries. -/
theorem copyObject_heap
    (hcopy : ∀ ancestors path v, copy ancestors v (pathText path) h = report h (visitItem ancestors path v))
    (ancestors : List Address) :
    copyObject (heapRealm env) copy ancestors o (pathText path) h
      = report h (match (h.objects o).opening with
          | some f => .error (path, f)
          | none => visitEntries visitItem path ancestors (h.objects o).entries >>= fun r =>
              .ok ((h.objects o).build r.1, r.2)) := by
  unfold copyObject Obj.opening
  rw [bind_of_ok (hasEnumerableSymbol_heap o)]
  cases (h.objects o).hasEnumerableSymbol with
  | true => rfl
  | false =>
      rw [if_neg Bool.false_ne_true, if_neg Bool.false_ne_true, bind_of_ok (isArray_heap o)]
      cases hlength : (h.objects o).length with
      | some n =>
          have helements : copyElements (heapRealm env) copy o (pathText path) maxArrayLength 0
              ancestors h = _ :=
            copyElements_heap hcopy hlength n (Nat.zero_add n) ((h.objects o).length_le n hlength)
              ancestors
          rw [← List.range_eq_range'] at helements
          rw [Option.isSome_some, if_pos rfl, if_pos rfl, bind_of_ok (objectKeys_heap o)]
          have hindices : requireIndices (heapRealm env) o (pathText path)
              (h.objects o).enumerableKeys h = _ :=
            requireIndices_heap (pathText path) (h.objects o).enumerableKeys
          cases hall : (h.objects o).enumerableKeys.all (h.objects o).isIndex with
          | false =>
              rw [hall] at hindices
              rw [bind_of_error hindices]
              rfl
          | true =>
              rw [hall] at hindices
              rw [bind_of_ok hindices]
              unfold Obj.entries Obj.build
              rw [hlength, if_pos rfl]
              exact report_bind helements fun _ => rfl
      | none =>
          rw [Option.isSome_none, if_neg Bool.false_ne_true, if_neg Bool.false_ne_true,
            bind_of_ok (getPrototypeOf_heap o), heapRealm_objectPrototype]
          by_cases hprototype : (h.objects o).prototype = some objectPrototype ∨
              (h.objects o).prototype = none
          · have hmembers : copyMembers (heapRealm env) copy o (pathText path)
                (h.objects o).enumerableKeys ancestors h = _ :=
              copyMembers_heap hcopy (h.objects o).enumerable_of_mem ancestors
            rw [if_pos hprototype, if_pos hprototype, bind_of_ok (objectKeys_heap o)]
            unfold Obj.entries Obj.build
            rw [hlength]
            have hall := report_bind hmembers
              (f := fun members => .ok (Value.obj members.1, members.2)) fun _ => rfl
            rw [bind_assoc] at hall
            exact hall
          · rw [if_neg hprototype, if_neg hprototype]
            rfl

theorem leave_some (o : Address) (ancestors : List Address) :
    leave (some o) ancestors = ancestors.filter (· ≠ o) := by
  unfold leave
  apply List.filter_congr
  intro j _
  simp [eq_comm]

/-- **The copier is the walk of the graph.** -/
theorem copyJsonValue_eq (env : Environment) (h : Heap) (frames : Nat) (ancestors : List Address)
    (v : Unknown Address) (path : List Step) :
    copyJsonValue (heapRealm env) frames ancestors v (pathText path) h
      = report h (visit (graph h) frames ancestors path v) := by
  induction frames generalizing ancestors v path with
  | zero => rfl
  | succ frames ih =>
      unfold visit
      cases v with
      | number x =>
          rw [copyJsonValue, shape_number]
          cases x.portable? with
          | some y => rfl
          | none => rfl
      | object o =>
          rw [copyJsonValue, shape_object]
          cases hcallable : o.callable with
          | true =>
              rw [if_pos (show (heapRealm env).callable o = true from hcallable), if_pos rfl]
              rfl
          | false =>
              rw [if_neg (show ¬ (heapRealm env).callable o = true by
                rw [show (heapRealm env).callable o = o.callable from rfl, hcallable]
                exact Bool.false_ne_true), if_neg Bool.false_ne_true]
              have hrec : recurs (some o) ancestors = decide (o ∈ ancestors) := rfl
              by_cases hmem : o ∈ ancestors
              · rw [if_pos hmem]
                simp only [hrec, decide_eq_true hmem, if_true]
                rfl
              · rw [if_neg hmem]
                simp only [hrec, decide_eq_false hmem, Bool.false_eq_true, if_false]
                have hobject : copyObject (heapRealm env) (copyJsonValue (heapRealm env) frames)
                    (o :: ancestors) o (pathText path) h = _ :=
                  copyObject_heap (fun ancestors path v => ih ancestors v path) (o :: ancestors)
                cases hopening : (h.objects o).opening with
                | some f =>
                    rw [hopening] at hobject
                    rw [bind_of_error hobject]
                    rfl
                | none =>
                    rw [hopening] at hobject
                    have hleave := report_bind hobject
                      (f := fun r => .ok (r.1, leave (some o) r.2)) (fun r => by
                        rw [leave_some]
                        rfl)
                    refine hleave.trans ?_
                    have hancestors : (some o).toList ++ ancestors = o :: ancestors := rfl
                    simp only [hancestors]
                    cases visitEntries (visit (graph h) frames) path (o :: ancestors)
                        (h.objects o).entries with
                    | error fault => rfl
                    | ok r => rfl
      | _ => rfl

end Copier

end CekatEvents.Node
