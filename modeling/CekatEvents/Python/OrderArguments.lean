/-
  CekatEvents.Python.OrderArguments — the arguments of an order among its properties
  (`with_order_paid_properties` in `validation.py`, `order_created` and `order_paid` in `client.py`).

  The copy of the properties is a new dict, and only that one is written to; it refers to the objects that the
  caller's dict refers to.  Before the merge `math.isfinite` looks at the amount, which a `Decimal` makes a float
  of; a signaling NaN refuses that with a `ValueError` of its own.

  Main result: `orderBody_adds_iff` — an order is refused with a validation error or sends what it should exactly
  when its amount is no signaling NaN.
-/
import CekatEvents.Effects.Stateful
import CekatEvents.Graph.Unfold
import CekatEvents.JsonText.Entries
import CekatEvents.Python.Outcomes

namespace CekatEvents.Python.Validation

open CekatEvents.Arithmetic CekatEvents.Effects CekatEvents.Encoding CekatEvents.Graph
  CekatEvents.JsonText CekatEvents.Payload

/-! ## §1. `with_order_paid_properties`. -/

/-- The objects, and the identity of the next one. -/
structure Memory where
  cells : Heap
  next : Nat

/-- Code that may change objects, and may raise. -/
abbrev Py (α : Type) := EStateM Raised Memory α

/-- What does not look at the objects. -/
def raising {α : Type} (x : Except Raised α) : Py α := fun m =>
  match x with
  | .ok a => .ok a m
  | .error e => .error e m

/-- A new object. -/
def allocate (cell : Cell) : Py Nat := fun m => .ok m.next ⟨Function.update m.cells m.next cell, m.next + 1⟩

/-- A change of an object. -/
def store (id : Nat) (cell : Cell) : Py Unit := fun m => .ok () { m with cells := Function.update m.cells id cell }

/-- The objects as they are. -/
def heapNow : Py Heap := fun m => .ok m.cells m

/-- The key of a name. -/
def nameKey (name : String) : Key := .str (ofChars name.toList)

/-- `d[name] = value`. -/
def Dict.set (d : Dict) (name : String) (value : Item) : Dict where
  items := putKey d.items (nameKey name) value
  nodup := by
    have hkeys : ∀ items : List (Key × Item),
        (items.filterMap fun p => p.1.name?) = (items.map Prod.fst).filterMap Key.name? := by
      intro items
      rw [List.filterMap_map]
      rfl
    have hold := d.nodup
    rw [hkeys] at hold ⊢
    by_cases hmem : nameKey name ∈ d.items.map Prod.fst
    · rw [keys_putKey_of_mem value hmem]
      exact hold
    · rw [putKey_of_fresh value hmem, List.map_append, List.filterMap_append]
      apply List.nodup_append.mpr
      refine ⟨hold, List.nodup_singleton _, ?_⟩
      intro s hs t ht heq
      obtain ⟨k, hk, hks⟩ := List.mem_filterMap.mp hs
      rw [List.mem_singleton.mp ht] at heq
      cases k with
      | str r =>
          cases hks
          have hname : Key.str s = nameKey name := congrArg Key.str heq
          exact hmem (hname ▸ hk)
      | other => cases hks

/-- `float(value)` of a decimal. -/
def Decimal.toFloat : Decimal → Except Raised Double
  | .finite neg coefficient exponent => .ok (decimalFloat neg coefficient exponent)
  | .infinite neg => .ok (.infinite neg)
  | .nan signaling => if signaling then .error .value else .ok .nan

/-- `if not math.isfinite(x): raise`. -/
def requireFinite : Double → Except Raised Unit
  | .finite _ => .ok ()
  | _ => .error (.validation "amount must be a finite number".toList)

/-- The amount is a number, and finite. -/
def requireAmount : Item → Except Raised Unit
  | .int _ => .ok ()
  | .float x => requireFinite x
  | .decimal d => d.toFloat >>= requireFinite
  | _ => .error (.validation "amount must be a finite number".toList)

/-- The currency, when it is a string that is not blank. -/
def requireCurrency : Field → Except Raised PyStr
  | .str s =>
      if stripStr s = [] then .error (.validation "currency must be a non-empty string".toList) else .ok s
  | _ => .error (.validation "currency must be a non-empty string".toList)

/-- What `dict(event.properties or {})` copies. -/
def copyProperties (heap : Heap) : Item → Except Raised Dict
  | .none => .ok ⟨[], .nil⟩
  | .ref id =>
      match heap id with
      | .dict d => .ok d
      | _ => .error (.validation "properties must be a dict with string keys".toList)
  | _ => .error (.validation "properties must be a dict with string keys".toList)

def RESERVED_ORDER_PAID : List String := ["amount", "currency"]

/-- No reserved name is among the properties. -/
def refuseReserved (d : Dict) : Except Raised Unit :=
  match RESERVED_ORDER_PAID.find? fun reserved => decide (nameKey reserved ∈ d.items.map Prod.fst) with
  | some reserved =>
      .error (.validation ("properties must not contain \"".toList ++ (reserved.toList ++
        "\"; pass it as the order_paid argument".toList)))
  | none => .ok ()

/-- `with_order_paid_properties`. -/
def withOrderPaidProperties (amount : Item) (currency : Field) (event : Option Event) : Py Event := do
  raising (requireAmount amount)
  let currency ← raising (requireCurrency currency)
  let event ← raising (requireEvent event)
  let heap ← heapNow
  let given ← raising (copyProperties heap event.properties)
  let properties ← allocate (.dict given)
  raising (refuseReserved given)
  store properties (.dict (given.set "amount" amount))
  store properties (.dict ((given.set "amount" amount).set "currency" (.str currency)))
  pure { event with properties := .ref properties }

/-- An order: `build_body` on the event that `with_order_paid_properties` returns. -/
def orderBody (floats : FloatText) (seams : Seams) (eventKey : Field) (isCommon : Bool) (ambient : Field)
    (amount : Item) (currency : Field) (event : Option Event) : Py (List UInt8) := do
  let event ← withOrderPaidProperties amount currency event
  let heap ← heapNow
  raising (buildBody floats seams heap eventKey isCommon (some event) ambient)

/-! ## §2. What is left alone. -/

/-- **Careful code**: the objects below a limit stay as they are, and only validation errors are raised. -/
structure Careful {α : Type} (limit : Nat) (x : Py α) : Prop where
  next_le : ∀ m, limit ≤ m.next → limit ≤ (leaves x m).next
  cells_eq : ∀ m, limit ≤ m.next → ∀ id < limit, (leaves x m).cells id = m.cells id
  raises : ∀ m e t, limit ≤ m.next → x m = .error e t → e.IsValidation

section Careful

variable {α β : Type} {limit : Nat}

/-- One step after another; what the first one returns may be a new object. -/
theorem Careful.bind {x : Py α} {f : α → Py β} (hx : Careful limit x)
    (hf : ∀ m a t, limit ≤ m.next → x m = .ok a t → Careful limit (f a)) : Careful limit (x >>= f) := by
  have hleaves : ∀ m, limit ≤ m.next → (∃ a t, x m = .ok a t ∧ leaves x m = t ∧ leaves (x >>= f) m = leaves (f a) t) ∨
      ∃ e t, x m = .error e t ∧ leaves (x >>= f) m = leaves x m := by
    intro m _
    cases hm : x m with
    | ok a t => exact .inl ⟨a, t, rfl, leaves_of_ok hm, leaves_eq (bind_of_ok hm)⟩
    | error e t => exact .inr ⟨e, t, rfl, (leaves_of_error (bind_of_error hm)).trans (leaves_of_error hm).symm⟩
  constructor
  · intro m hm
    have hnext := hx.next_le m hm
    rcases hleaves m hm with ⟨a, t, hxm, rfl, heq⟩ | ⟨e, t, -, heq⟩
    · rw [heq]
      exact (hf m a _ hm hxm).next_le _ hnext
    · rwa [heq]
  · intro m hm id hid
    have hnext := hx.next_le m hm
    rcases hleaves m hm with ⟨a, t, hxm, rfl, heq⟩ | ⟨e, t, -, heq⟩
    · rw [heq, (hf m a _ hm hxm).cells_eq _ hnext id hid]
      exact hx.cells_eq m hm id hid
    · rw [heq]
      exact hx.cells_eq m hm id hid
  · intro m e t hm herror
    cases hxm : x m with
    | ok a u =>
        rw [bind_of_ok hxm] at herror
        have hnext := hx.next_le m hm
        rw [leaves_of_ok hxm] at hnext
        exact (hf m a u hm hxm).raises u e t hnext herror
    | error e' u =>
        rw [bind_of_error hxm] at herror
        cases herror
        exact hx.raises m e t hm hxm

theorem careful_raising {x : Except Raised α} (h : Contained x) : Careful limit (raising x) := by
  cases x with
  | ok a =>
      refine ⟨fun _ hm => hm, fun _ _ _ _ => rfl, ?_⟩
      intro m e t _ herror
      cases herror
  | error e =>
      refine ⟨fun _ hm => hm, fun _ _ _ _ => rfl, ?_⟩
      intro m e' t _ herror
      cases herror
      exact h e rfl

theorem careful_pure (a : α) : Careful limit (pure a : Py α) := careful_raising (x := .ok a) raises_ok

theorem careful_heapNow : Careful limit heapNow := by
  refine ⟨fun _ hm => hm, fun _ _ _ _ => rfl, ?_⟩
  intro m e t _ herror
  cases herror

theorem careful_allocate (cell : Cell) : Careful limit (allocate cell) := by
  refine ⟨fun m hm => Nat.le_succ_of_le hm, ?_, ?_⟩
  · intro m hm id hid
    exact Function.update_of_ne (Nat.ne_of_lt (Nat.lt_of_lt_of_le hid hm)) _ _
  · intro m e t _ herror
    cases herror

/-- A change of an object that is not below the limit. -/
theorem careful_store {id : Nat} (h : limit ≤ id) (cell : Cell) : Careful limit (store id cell) := by
  refine ⟨fun _ hm => hm, ?_, ?_⟩
  · intro m _ other hother
    exact Function.update_of_ne (Nat.ne_of_lt (Nat.lt_of_lt_of_le hother h)) _ _
  · intro m e t _ herror
    cases herror

end Careful

/-! ## §3. Copies of a dict. -/

theorem graph_identified (heap : Heap) : Identified (graph heap) := by
  apply @identified_of_item _ _ _ _ _ _ Item.ref
  intro x i opening entries build hx
  cases x with
  | ref id =>
      rcases (heap id).sequence_or_dict with ⟨items, hseq⟩ | ⟨d, hcell⟩
      · rw [shape_sequence hseq] at hx
        cases hx
        rfl
      · rw [shape_dict hcell] at hx
        cases hx
        rfl
  | _ => cases hx

/-- **`_normalize` returns what the properties unfold to** within 257 levels. -/
theorem normalize_eq_ok_iff {heap : Heap} {x : Item} {v : Value Number} :
    normalize heap x = .ok v ↔ Unfolds (graph heap) (MAX_DEPTH + 1) x v := by
  unfold normalize
  rw [visit_eq]
  constructor
  · intro h
    cases hw : walk (graph heap) (MAX_DEPTH + 1) [] [] x with
    | error fault => simp [hw, Except.map] at h
    | ok w =>
        simp only [hw, Except.map, Except.ok.injEq] at h
        rw [← h]
        exact unfolds_of_walk hw
  · intro h
    rw [walk_of_unfolds (graph_identified heap) le_rfl h]
    rfl

/-- The identity is one of those below the limit. -/
def Item.Below (limit : Nat) : Item → Prop
  | .ref id => id < limit
  | _ => True

/-- The values of a container. -/
def Cell.values : Cell → List Item
  | .dict d => d.items.map Prod.snd
  | .list items => items
  | .tuple items => items

/-- **What the objects refer to is there.** -/
def Memory.Closed (m : Memory) : Prop := ∀ id < m.next, ∀ x ∈ (m.cells id).values, x.Below m.next

/-- Objects that stay as they are unfold as they did. -/
theorem unfolds_of_agree {m : Memory} (hclosed : m.Closed) {heap : Heap}
    (hagree : ∀ id < m.next, heap id = m.cells id) {n : Nat} {x : Item} (hx : x.Below m.next)
    {w : Value Number} (h : Unfolds (graph heap) n x w) : Unfolds (graph m.cells) n x w := by
  refine h.congr_on ?_ ?_ (P := Item.Below m.next) hx
  · intro y hy
    cases y with
    | ref id =>
        show shape heap (.ref id) = shape m.cells (.ref id)
        simp only [shape, hagree id hy]
    | _ => rfl
  · intro y ident opening entries build hy hshape e he
    cases y with
    | ref id =>
        have hid : id < m.next := hy
        have hvalues : e.item ∈ (heap id).values := by
          rcases (heap id).sequence_or_dict with ⟨items, hseq⟩ | ⟨d, hcell⟩
          · rw [shape_sequence hseq] at hshape
            cases hshape
            have hitems : (heap id).values = items := by
              cases hcell : heap id with
              | dict d => rw [hcell] at hseq; cases hseq
              | list xs => rw [hcell] at hseq; cases hseq; rfl
              | tuple xs => rw [hcell] at hseq; cases hseq; rfl
            rw [hitems, ← sequenceEntries_items items]
            exact List.mem_map_of_mem he
          · rw [shape_dict hcell] at hshape
            cases hshape
            rw [hcell]
            show e.item ∈ d.items.map Prod.snd
            rw [← dictEntries_items]
            exact List.mem_map_of_mem he
        rw [hagree id hid] at hvalues
        exact hclosed id hid _ hvalues
    | _ => cases hshape

/-- What a dict unfolds to. -/
theorem unfolds_dict_iff {heap : Heap} {id : Nat} {d : Dict} (h : heap id = .dict d) {n : Nat} {w : Value Number} :
    Unfolds (graph heap) (n + 1) (.ref id) w ↔
      (∀ p ∈ d.items, ∃ s, p.1 = .str s ∧ Encodable s) ∧
        ∃ ws, List.Forall₂ (fun p w => Unfolds (graph heap) n p.2 w) d.items ws ∧
          w = .obj ((dictNames d.items).zip ws) := by
  have hshape := shape_dict h
  rw [← dictEntries_iff]
  constructor
  · rintro (hleaf | ⟨ident, entries, build, ws, hnode, hclean, hws, rfl⟩)
    · rw [hshape] at hleaf
      cases hleaf
    · rw [hshape] at hnode
      cases hnode
      unfold dictEntries at hws
      rw [List.forall₂_map_left_iff] at hws
      exact ⟨hclean, ws, hws, rfl⟩
  · rintro ⟨hclean, ws, hws, rfl⟩
    refine .inr ⟨_, _, _, ws, hshape, hclean, ?_, rfl⟩
    unfold dictEntries
    rw [List.forall₂_map_left_iff]
    exact hws

/-- The two members that an order adds. -/
def orderItems (amount : Item) (s : PyStr) : List (Key × Item) :=
  [(nameKey "amount", amount), (nameKey "currency", .str s)]

theorem refuseReserved_ok_iff {d : Dict} :
    refuseReserved d = .ok () ↔
      nameKey "amount" ∉ d.items.map Prod.fst ∧ nameKey "currency" ∉ d.items.map Prod.fst := by
  have hnone : (RESERVED_ORDER_PAID.find? fun reserved => decide (nameKey reserved ∈ d.items.map Prod.fst)) = none ↔
      nameKey "amount" ∉ d.items.map Prod.fst ∧ nameKey "currency" ∉ d.items.map Prod.fst := by
    rw [List.find?_eq_none]
    simp only [RESERVED_ORDER_PAID, List.forall_mem_cons, decide_eq_true_eq, List.not_mem_nil, false_imp_iff,
      implies_true, and_true]
  rw [← hnone]
  unfold refuseReserved
  cases RESERVED_ORDER_PAID.find? fun reserved => decide (nameKey reserved ∈ d.items.map Prod.fst) with
  | none => exact iff_of_true rfl rfl
  | some reserved =>
      apply iff_of_false
      · intro h
        cases h
      · intro h
        cases h

/-- **Where no name is reserved the two members come last.** -/
theorem set_items {d : Dict} (h : refuseReserved d = .ok ()) (amount : Item) (s : PyStr) :
    ((d.set "amount" amount).set "currency" (.str s)).items = d.items ++ orderItems amount s := by
  obtain ⟨hamount, hcurrency⟩ := refuseReserved_ok_iff.mp h
  show putKey (putKey d.items (nameKey "amount") amount) (nameKey "currency") (.str s) = _
  rw [putKey_of_fresh amount hamount, putKey_of_fresh, List.append_assoc]
  · rfl
  · rw [List.map_append, List.mem_append, not_or]
    refine ⟨hcurrency, ?_⟩
    show nameKey "currency" ∉ [nameKey "amount"]
    decide

/-! ## §4. The checks. -/

/-- A number that is finite; a decimal is one before it is made a float of. -/
def Item.FiniteNumber : Item → Prop
  | .int _ => True
  | .float x => ∃ y, x = .finite y
  | .decimal d => ∃ neg coefficient exponent, d = .finite neg coefficient exponent
  | _ => False

theorem requireAmount_finite {amount : Item} (h : requireAmount amount = .ok ()) : amount.FiniteNumber := by
  cases amount with
  | int n => trivial
  | float x =>
      cases x with
      | finite y => exact ⟨y, rfl⟩
      | nan => cases h
      | infinite neg => cases h
  | decimal d =>
      cases d with
      | finite neg coefficient exponent => exact ⟨neg, coefficient, exponent, rfl⟩
      | infinite neg => cases h
      | nan signaling => cases signaling <;> cases h
  | _ => cases h

theorem requireFinite_contained (x : Double) : Contained (requireFinite x) := by
  cases x with
  | finite y => exact raises_ok
  | _ => exact raises_error_iff.mpr trivial

/-- **Only a signaling NaN is refused in another way.** -/
theorem requireAmount_contained_iff {amount : Item} :
    Contained (requireAmount amount) ↔ amount ≠ .decimal (.nan true) := by
  cases amount with
  | int n => exact iff_of_true raises_ok (by simp)
  | float x => exact iff_of_true (requireFinite_contained x) (by simp)
  | decimal d =>
      cases d with
      | finite neg coefficient exponent =>
          exact iff_of_true (requireFinite_contained (decimalFloat neg coefficient exponent)) (by simp)
      | infinite neg => exact iff_of_true (requireFinite_contained (.infinite neg)) (by simp)
      | nan signaling =>
          cases signaling with
          | false => exact iff_of_true (requireFinite_contained .nan) (by simp)
          | true => exact iff_of_false raises_error_iff.mp (by simp)
  | _ => exact iff_of_true (raises_error_iff.mpr trivial) (by simp)

theorem requireCurrency_contained (currency : Field) : Contained (requireCurrency currency) := by
  cases currency with
  | str s =>
      show Contained (if stripStr s = [] then _ else _)
      split_ifs
      · exact raises_error_iff.mpr trivial
      · exact raises_ok
  | _ => exact raises_error_iff.mpr trivial

theorem requireCurrency_ok_iff {currency : Field} {s : PyStr} :
    requireCurrency currency = .ok s ↔ currency = .str s ∧ currency.Nonblank := by
  unfold Field.Nonblank
  cases currency with
  | none => simp [requireCurrency]
  | other => simp [requireCurrency]
  | str r =>
      unfold requireCurrency
      by_cases h : stripStr r = []
      · simp [h]
      · simp [h]

theorem copyProperties_contained (heap : Heap) (x : Item) : Contained (copyProperties heap x) := by
  cases x with
  | none => exact raises_ok
  | ref id =>
      simp only [copyProperties]
      cases heap id with
      | dict d => exact raises_ok
      | _ => exact raises_error_iff.mpr trivial
  | _ => exact raises_error_iff.mpr trivial

theorem copyProperties_ok_iff {heap : Heap} {x : Item} {d : Dict} :
    copyProperties heap x = .ok d ↔ (x = .none ∧ d = ⟨[], .nil⟩) ∨ ∃ id, x = .ref id ∧ heap id = .dict d := by
  cases x with
  | none => simp [copyProperties, eq_comm]
  | ref id =>
      unfold copyProperties
      cases hcell : heap id with
      | dict d' => simp [hcell]
      | _ => simp [hcell]
  | _ => simp [copyProperties]

theorem refuseReserved_contained (d : Dict) : Contained (refuseReserved d) := by
  unfold refuseReserved
  cases RESERVED_ORDER_PAID.find? fun reserved => decide (nameKey reserved ∈ d.items.map Prod.fst) with
  | none => exact raises_ok
  | some reserved => exact raises_error_iff.mpr trivial

/-- What does not look at the objects returns, and then the rest does. -/
theorem raising_bind_ok_iff {α β : Type} {x : Except Raised α} {f : α → Py β} {b : β} {m t : Memory} :
    (raising x >>= f) m = .ok b t ↔ ∃ a, x = .ok a ∧ f a m = .ok b t := by
  cases x with
  | ok a =>
      rw [bind_of_ok (rfl : raising (.ok a) m = .ok a m)]
      simp
  | error e =>
      rw [bind_of_error (rfl : raising (.error e) m = .error e m)]
      simp

section Orders

variable {amount : Item} {currency : Field} {event : Event}

/-- **The caller's objects stay as they are**, and but for a signaling NaN only validation errors are raised. -/
theorem withOrderPaidProperties_careful (hamount : amount ≠ .decimal (.nan true)) (limit : Nat) (event : Option Event) :
    Careful limit (withOrderPaidProperties amount currency event) := by
  unfold withOrderPaidProperties
  refine (careful_raising (requireAmount_contained_iff.mpr hamount)).bind fun _ _ _ _ _ => ?_
  refine (careful_raising (requireCurrency_contained currency)).bind fun _ s _ _ _ => ?_
  refine (careful_raising (requireEvent_contained event)).bind fun _ event _ _ _ => ?_
  refine careful_heapNow.bind fun _ heap _ _ _ => ?_
  refine (careful_raising (copyProperties_contained heap event.properties)).bind fun _ given _ _ _ => ?_
  refine (careful_allocate (.dict given)).bind fun m properties t hm hallocate => ?_
  -- what is written to is the new object
  have hnew : limit ≤ properties := by
    cases hallocate
    exact hm
  refine (careful_raising (refuseReserved_contained given)).bind fun _ _ _ _ _ => ?_
  refine (careful_store hnew _).bind fun _ _ _ _ _ => ?_
  exact (careful_store hnew _).bind fun _ _ _ _ _ => careful_pure _

/-- **The event that is returned differs in its properties only**, a new dict with two members more. -/
theorem withOrderPaidProperties_ok {m t : Memory} {merged : Event}
    (h : withOrderPaidProperties amount currency (some event) m = .ok merged t) :
    ∃ s given, requireAmount amount = .ok () ∧ requireCurrency currency = .ok s ∧
      copyProperties m.cells event.properties = .ok given ∧ refuseReserved given = .ok () ∧
      merged = { event with properties := .ref m.next } ∧
      t.cells = Function.update m.cells m.next (.dict ((given.set "amount" amount).set "currency" (.str s))) := by
  unfold withOrderPaidProperties at h
  obtain ⟨⟨⟩, hamount, h⟩ := raising_bind_ok_iff.mp h
  obtain ⟨s, hcurrency, h⟩ := raising_bind_ok_iff.mp h
  obtain ⟨ev, hevent, h⟩ := raising_bind_ok_iff.mp h
  cases hevent
  rw [bind_of_ok (rfl : heapNow m = .ok m.cells m)] at h
  obtain ⟨given, hgiven, h⟩ := raising_bind_ok_iff.mp h
  rw [bind_of_ok (rfl : allocate (.dict given) m = .ok _ _)] at h
  obtain ⟨⟨⟩, hreserved, h⟩ := raising_bind_ok_iff.mp h
  cases h
  refine ⟨s, given, hamount, hcurrency, hgiven, hreserved, rfl, ?_⟩
  simp only [Function.update_idem]

end Orders

/-! ## §5. What an order sends. -/

/-- A finite number unfolds to the number it means. -/
theorem unfolds_finiteNumber (other : Heap) {heap : Heap} {amount : Item} (hamount : amount.FiniteNumber) {n : Nat}
    {w : Value Number} (h : Unfolds (graph heap) n amount w) : ∃ k, w = .num k ∧ Means other amount (.num k) := by
  have hleaf : shape heap amount = .leaf (.ok w) := by
    cases n with
    | zero => exact absurd h id
    | succ n =>
        rcases h with hleaf | ⟨ident, entries, build, ws, hnode, -⟩
        · exact hleaf
        · cases amount with
          | ref r => exact absurd hamount id
          | _ => cases hnode
  cases amount with
  | int k =>
      have hint := Shape.leaf.inj hleaf
      split_ifs at hint with hk
      cases hint
      exact ⟨_, rfl, .int k⟩
  | float x =>
      obtain ⟨y, rfl, -, rfl⟩ := floatLeaf_eq_ok (Shape.leaf.inj hleaf)
      exact ⟨_, rfl, .float y⟩
  | decimal d =>
      obtain ⟨neg, coefficient, exponent, rfl⟩ := hamount
      obtain ⟨y, hy, -, rfl⟩ := floatLeaf_eq_ok (Shape.leaf.inj hleaf)
      exact ⟨_, rfl, .decimal hy⟩
  | _ => exact absurd hamount id

theorem unfolds_str {heap : Heap} {s : PyStr} {n : Nat} {w : Value Number}
    (h : Unfolds (graph heap) n (.str s) w) : ∃ cs, chars? s = some cs ∧ w = .str (utf16 cs) := by
  cases n with
  | zero => exact absurd h id
  | succ n =>
      rcases h with hleaf | ⟨ident, entries, build, ws, hnode, -⟩
      · have hstr : strLeaf s = .ok w := Shape.leaf.inj hleaf
        unfold strLeaf at hstr
        cases hs : chars? s with
        | none => rw [hs] at hstr; cases hstr
        | some cs =>
            rw [hs] at hstr
            cases hstr
            exact ⟨cs, rfl, rfl⟩
      · cases hnode

/-- The members of an order. -/
def orderMembers (amount : Number) (currency : List Char) : List (List CodeUnit × Value Number) :=
  [(units "amount", .num amount), (units "currency", .str (utf16 currency))]

/-- **A dict with the two members unfolds to what the dict without them unfolds to**, and the two members. -/
theorem unfolds_order (other : Heap) {heap : Heap} {id : Nat} {given merged : Dict} {amount : Item} {s : PyStr}
    (hcell : heap id = .dict merged) (hitems : merged.items = given.items ++ orderItems amount s)
    (hamount : amount.FiniteNumber) {n : Nat} {w : Value Number} (h : Unfolds (graph heap) (n + 1) (.ref id) w) :
    (∀ p ∈ given.items, ∃ s, p.1 = .str s ∧ Encodable s) ∧
      ∃ ws k cs, List.Forall₂ (fun p w => Unfolds (graph heap) n p.2 w) given.items ws ∧
        Means other amount (.num k) ∧ chars? s = some cs ∧
        w = .obj ((dictNames given.items).zip ws ++ orderMembers k cs) := by
  obtain ⟨hkeys, ws, hws, rfl⟩ := (unfolds_dict_iff hcell).mp h
  rw [hitems] at hkeys hws
  obtain ⟨ws, added, rfl, hgiven, hadded⟩ := append_of_forall₂ hws
  refine ⟨fun p hp => hkeys p (List.mem_append_left _ hp), ws, ?_⟩
  cases hadded with
  | cons hnumber hrest =>
      cases hrest with
      | cons hstr hnil =>
          cases hnil
          obtain ⟨k, rfl, hmeans⟩ := unfolds_finiteNumber other hamount hnumber
          obtain ⟨cs, hcs, rfl⟩ := unfolds_str hstr
          refine ⟨k, cs, hgiven, hmeans, hcs, ?_⟩
          have hnames : dictNames merged.items = dictNames given.items ++ [units "amount", units "currency"] := by
            unfold dictNames
            rw [hitems, List.map_append]
            rfl
          have hlength : (dictNames given.items).length = ws.length := by
            unfold dictNames
            rw [List.length_map, hgiven.length_eq]
          rw [hnames, List.zip_append hlength]
          rfl

/-- What the caller hands over: an event, and the objects that it refers to are there. -/
structure Given where
  memory : Memory
  event : Event
  closed : memory.Closed
  live : event.properties.Below memory.next

/-- **The normalised properties of the caller**; none are as good as empty ones. -/
def Given.Normalised (given : Given) (ms : List (List CodeUnit × Value Number)) : Prop :=
  (given.event.properties = .none ∧ ms = []) ∨
    normalize given.memory.cells given.event.properties = .ok (.obj ms)

/-- A reserved name is among the properties. -/
def Given.Reserves (given : Given) : Prop :=
  ∃ id d, given.event.properties = .ref id ∧ given.memory.cells id = .dict d ∧
    ∃ reserved ∈ RESERVED_ORDER_PAID, nameKey reserved ∈ d.items.map Prod.fst

/-- The copy of the properties, with the two members, is normalised to what they are normalised to and the two
    members. -/
theorem normalize_merged {given : Given} {d : Dict}
    (hd : copyProperties given.memory.cells given.event.properties = .ok d) {merged : Dict} {amount : Item} {s : PyStr}
    (hitems : merged.items = d.items ++ orderItems amount s) (hamount : amount.FiniteNumber) {heap : Heap}
    (hheap : heap = Function.update given.memory.cells given.memory.next (.dict merged)) {w : Value Number}
    (h : normalize heap (.ref given.memory.next) = .ok w) :
    ∃ ms k cs, given.Normalised ms ∧ Means given.memory.cells amount (.num k) ∧ chars? s = some cs ∧
      w = .obj (ms ++ orderMembers k cs) := by
  have hcell : heap given.memory.next = .dict merged := by rw [hheap, Function.update_self]
  have hagree : ∀ id < given.memory.next, heap id = given.memory.cells id := by
    intro id hid
    rw [hheap, Function.update_of_ne (Nat.ne_of_lt hid)]
  obtain ⟨hkeys, ws, k, cs, hws, hmeans, hcs, rfl⟩ :=
    unfolds_order given.memory.cells hcell hitems hamount (normalize_eq_ok_iff.mp h)
  refine ⟨_, k, cs, ?_, hmeans, hcs, rfl⟩
  rcases copyProperties_ok_iff.mp hd with ⟨hnone, rfl⟩ | ⟨id, href, hdict⟩
  · exact .inl ⟨hnone, rfl⟩
  · right
    have hid : id < given.memory.next := by
      have hlive := given.live
      rw [href] at hlive
      exact hlive
    rw [href, normalize_eq_ok_iff, unfolds_dict_iff hdict]
    refine ⟨hkeys, ws, ?_, rfl⟩
    -- what the entries refer to has not changed
    have hmem := (List.forall₂_and_left _ _).mpr ⟨fun p hp => hp, hws⟩
    apply hmem.imp
    intro p v hp
    refine unfolds_of_agree given.closed hagree (given.closed id hid p.2 ?_) hp.2
    rw [hdict]
    exact List.mem_map_of_mem hp.1

/-- **An order is refused with a validation error, or sends the event with the two members**; what is no finite
    amount, a blank currency or a reserved name is refused, and the caller's objects stay as they are. -/
structure AddsOrder (floats : FloatText) (given : Given) (amount : Item) (currency : Field)
    (run : Py (List UInt8)) : Prop where
  contained : ∀ e t, run given.memory = .error e t → e.IsValidation
  sent : ∀ body t, run given.memory = .ok body t → ∃ v ms k cs, BodyReads body v ∧ given.Normalised ms ∧
    Means given.memory.cells amount (.num k) ∧ currency = .str (ofChars cs) ∧
    v.get (units "properties") = some ((Value.obj (ms ++ orderMembers k cs)).map (Number.numeral floats))
  refused : ¬ amount.FiniteNumber ∨ ¬ currency.Nonblank ∨ given.Reserves →
    ∃ message t, run given.memory = .error (.validation message) t
  untouched : ∀ id < given.memory.next, (leaves run given.memory).cells id = given.memory.cells id

theorem orderBody_careful (floats : FloatText) (seams : Seams) (eventKey : Field) (isCommon : Bool) (ambient : Field)
    {amount : Item} (hamount : amount ≠ .decimal (.nan true)) (currency : Field) (event : Option Event) (limit : Nat) :
    Careful limit (orderBody floats seams eventKey isCommon ambient amount currency event) := by
  unfold orderBody
  refine (withOrderPaidProperties_careful hamount limit event).bind fun _ merged _ _ _ => ?_
  refine careful_heapNow.bind fun _ heap _ _ _ => ?_
  exact careful_raising (buildBody_contained floats seams heap eventKey isCommon (some merged) ambient)

/-- A body is that of an event with the two members. -/
theorem orderBody_ok {floats : FloatText} {seams : Seams} {eventKey : Field} {isCommon : Bool} {ambient : Field}
    {amount : Item} {currency : Field} {event : Event} {m t : Memory} {body : List UInt8}
    (h : orderBody floats seams eventKey isCommon ambient amount currency (some event) m = .ok body t) :
    ∃ s d heap, amount.FiniteNumber ∧ currency = .str s ∧ currency.Nonblank ∧
      copyProperties m.cells event.properties = .ok d ∧ refuseReserved d = .ok () ∧
      heap = Function.update m.cells m.next (.dict ((d.set "amount" amount).set "currency" (.str s))) ∧
      buildBody floats seams heap eventKey isCommon (some { event with properties := .ref m.next }) ambient
        = .ok body := by
  unfold orderBody at h
  obtain ⟨merged, u, hmerged, h⟩ := stateful_bind_ok_iff.mp h
  rw [bind_of_ok (rfl : heapNow u = .ok u.cells u)] at h
  obtain ⟨s, d, hamount, hcurrency, hd, hreserved, rfl, hcells⟩ := withOrderPaidProperties_ok hmerged
  obtain ⟨hstr, hnonblank⟩ := requireCurrency_ok_iff.mp hcurrency
  refine ⟨s, d, u.cells, requireAmount_finite hamount, hstr, hnonblank, hd, hreserved, hcells, ?_⟩
  unfold raising at h
  split at h
  · rename_i heq
    cases h
    exact heq
  · cases h

/-- **An order does what it should exactly when its amount is no signaling NaN.** -/
theorem orderBody_adds_iff (floats : FloatText) (seams : Seams) (given : Given) (eventKey : Field) (isCommon : Bool)
    (ambient : Field) (amount : Item) (currency : Field) :
    AddsOrder floats given amount currency
        (orderBody floats seams eventKey isCommon ambient amount currency (some given.event)) ↔
      amount ≠ .decimal (.nan true) := by
  constructor
  · rintro h rfl
    exact h.contained .value given.memory rfl
  · intro hamount
    have hcareful := orderBody_careful floats seams eventKey isCommon ambient hamount currency (some given.event)
      given.memory.next
    refine ⟨fun e t => hcareful.raises _ e t le_rfl, ?_, ?_, hcareful.cells_eq _ le_rfl⟩
    · intro body t hrun
      obtain ⟨s, d, heap, hfinite, rfl, -, hd, hreserved, hheap, hbuild⟩ := orderBody_ok hrun
      obtain ⟨key, time, o, b, -, -, -, -, hproperties, hwrites, hreads⟩ := buildBody_reads hbuild
      rw [buildProperties_given (by simp)] at hproperties
      split_ifs at hproperties with hmapping
      obtain ⟨w, hw, rfl⟩ := map_ok_iff.mp hproperties
      obtain ⟨ms, k, cs, hms, hmeans, hcs, rfl⟩ :=
        normalize_merged hd (set_items hreserved amount s) hfinite hheap hw
      refine ⟨_, ms, k, cs, hreads, hms, hmeans, ?_, ?_⟩
      · rw [chars?_injective hcs (chars?_ofChars cs)]
      · have hsent : b.properties = some (.obj (ms ++ orderMembers k cs)) := hwrites.properties
        rw [Body.get_properties]
        show b.properties.map _ = _
        rw [hsent]
        rfl
    · intro hbad
      cases hrun : orderBody floats seams eventKey isCommon ambient amount currency (some given.event)
          given.memory with
      | error e t =>
          obtain ⟨message, rfl⟩ := (hcareful.raises _ e t le_rfl hrun).message
          exact ⟨message, t, rfl⟩
      | ok body t =>
          obtain ⟨s, d, heap, hfinite, -, hnonblank, hd, hreserved, -⟩ := orderBody_ok hrun
          rcases hbad with hbad | hbad | ⟨id, d', href, hdict, reserved, hmem, hkey⟩
          · exact absurd hfinite hbad
          · exact absurd hnonblank hbad
          · rw [href, copyProperties_ok_iff] at hd
            rcases hd with ⟨hnone, -⟩ | ⟨id', hid, hcell⟩
            · cases hnone
            · cases hid
              cases hdict.symm.trans hcell
              obtain ⟨hnoAmount, hnoCurrency⟩ := refuseReserved_ok_iff.mp hreserved
              simp only [RESERVED_ORDER_PAID, List.mem_cons, List.not_mem_nil, or_false] at hmem
              rcases hmem with rfl | rfl
              · exact absurd hkey hnoAmount
              · exact absurd hkey hnoCurrency

/-- The event with an email, and no objects. -/
def emailGiven : Given where
  memory := ⟨fun _ => .list [], 0⟩
  event := emailEvent .none
  closed := fun id hid => absurd hid (Nat.not_lt_zero id)
  live := trivial

/-- **A signaling NaN is refused with another error**: `math.isfinite` raises it. -/
theorem signaling_nan_raises :
    orderBody exactText fixedSeams (.str (ofChars "order_paid".toList)) true .none (.decimal (.nan true))
        (.str (ofChars "IDR".toList)) (some emailGiven.event) emailGiven.memory = .error .value emailGiven.memory ∧
      ¬ AddsOrder exactText emailGiven (.decimal (.nan true)) (.str (ofChars "IDR".toList))
        (orderBody exactText fixedSeams (.str (ofChars "order_paid".toList)) true .none (.decimal (.nan true))
          (.str (ofChars "IDR".toList)) (some emailGiven.event)) := by
  refine ⟨rfl, ?_⟩
  intro h
  exact h.contained .value emailGiven.memory rfl

end CekatEvents.Python.Validation
