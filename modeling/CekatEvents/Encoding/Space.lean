/-
  CekatEvents.Encoding.Space — white space at the ends of a string.

  Languages differ in what is white space; `trim` takes the test as a parameter.
-/
import CekatEvents.Encoding.Replacement
import Mathlib.Data.List.DropRight
import Mathlib.Data.List.TakeWhile

namespace CekatEvents.Encoding

/-! ## §1. Trimming. -/

section Trim

variable {α : Type} (space : α → Bool)

/-- Take white space away from both ends. -/
def trim (s : List α) : List α := ((s.dropWhile space).reverse.dropWhile space).reverse

/-- There is nothing but white space. -/
def isBlank (s : List α) : Bool := s.all space

/-- The trimmed string, nothing when there is nothing left. -/
def trimToNone (s : Option (List α)) : Option (List α) :=
  (s.map (trim space)).filter fun t => !t.isEmpty

variable {space}

/-- Trimming takes white space away and nothing else. -/
theorem trim_spec (space : α → Bool) (s : List α) :
    ∃ a b, s = a ++ (trim space s ++ b) ∧ isBlank space a = true ∧ isBlank space b = true := by
  refine ⟨s.takeWhile space, ((s.dropWhile space).reverse.takeWhile space).reverse, ?_, ?_, ?_⟩
  · unfold trim
    rw [← List.reverse_append, List.takeWhile_append_dropWhile, List.reverse_reverse,
      List.takeWhile_append_dropWhile]
  · exact List.all_takeWhile
  · unfold isBlank
    rw [List.all_reverse]
    exact List.all_takeWhile

theorem dropWhile_of_isBlank {s : List α} (h : isBlank space s = true) :
    s.dropWhile space = [] := by
  rw [List.dropWhile_eq_nil_iff]
  exact List.all_eq_true.mp h

/-- Nothing is left of what is blank, and of nothing else. -/
theorem trim_eq_nil_iff {s : List α} : trim space s = [] ↔ isBlank space s = true := by
  constructor
  · intro h
    obtain ⟨a, b, hs, ha, hb⟩ := trim_spec space s
    rw [h, List.nil_append] at hs
    unfold isBlank at ha hb ⊢
    rw [hs, List.all_append, ha, hb]
    rfl
  · intro h
    unfold trim
    rw [dropWhile_of_isBlank h]
    rfl

/-- Trimming looks at the elements one by one. -/
theorem trim_map {β : Type} (f : β → α) (s : List β) :
    trim space (s.map f) = (trim (fun x => space (f x)) s).map f := by
  unfold trim
  rw [List.dropWhile_map, ← List.map_reverse, List.dropWhile_map, ← List.map_reverse]
  rfl

/-- What is trimmed has no white space at its ends. -/
theorem trim_trim (s : List α) : trim space (trim space s) = trim space s := by
  have hfront : (trim space s).dropWhile space = trim space s := by
    rw [List.dropWhile_eq_self_iff]
    intro hl
    -- the first element is that of the string without the white space at its front
    have hsplit : s.dropWhile space = trim space s ++
        ((s.dropWhile space).reverse.takeWhile space).reverse := by
      unfold trim
      rw [← List.reverse_append, List.takeWhile_append_dropWhile, List.reverse_reverse]
    have hlen : 0 < (s.dropWhile space).length := by
      rw [hsplit, List.length_append]
      omega
    have hfirst := List.dropWhile_get_zero_not (p := space) s hlen
    have hget : ∀ h, (s.dropWhile space).get ⟨0, h⟩ = (trim space s)[0] := by
      rw [hsplit]
      intro h
      rw [List.get_eq_getElem]
      exact List.getElem_append_left hl
    rw [← hget hlen]
    exact hfirst
  unfold trim at hfront ⊢
  rw [hfront, List.reverse_reverse, List.dropWhile_idempotent]

/-- Padding is taken away from what has no white space. -/
theorem trim_padded {a b s : List α} (ha : ∀ x ∈ a, space x = true) (hb : ∀ x ∈ b, space x = true)
    (hs : ∀ x ∈ s, space x = false) (hne : s ≠ []) : trim space (a ++ (s ++ b)) = s := by
  have hends : ∀ (t : List α) (rest : List α), t ≠ [] → (∀ x ∈ t, space x = false) →
      (t ++ rest).dropWhile space = t ++ rest := by
    intro t rest ht hall
    obtain ⟨x, xs, rfl⟩ := List.exists_cons_of_ne_nil ht
    rw [List.cons_append, List.dropWhile_cons_of_neg]
    rw [hall x List.mem_cons_self]
    exact Bool.false_ne_true
  unfold trim
  rw [List.dropWhile_append_of_pos ha, hends s b hne hs, List.reverse_append,
    List.dropWhile_append_of_pos fun x hx => hb x (List.mem_reverse.mp hx)]
  have hback := hends s.reverse [] (List.reverse_ne_nil_iff.mpr hne)
    fun x hx => hs x (List.mem_reverse.mp hx)
  rw [List.append_nil] at hback
  rw [hback, List.reverse_reverse]

/-- White space at the front is taken away. -/
theorem trim_append_left {a : List α} (ha : isBlank space a = true) (s : List α) :
    trim space (a ++ s) = trim space s := by
  unfold trim
  rw [List.dropWhile_append_of_pos (List.all_eq_true.mp ha)]

/-- White space at the back is taken away. -/
theorem trim_append_right {b : List α} (hb : isBlank space b = true) (s : List α) :
    trim space (s ++ b) = trim space s := by
  have hreverse : ∀ x ∈ b.reverse, space x = true :=
    fun x hx => List.all_eq_true.mp hb x (List.mem_reverse.mp hx)
  unfold trim
  rw [List.dropWhile_append]
  cases hfront : s.dropWhile space with
  | nil =>
      rw [List.isEmpty_nil, if_pos rfl, dropWhile_of_isBlank hb]
  | cons c cs =>
      rw [List.isEmpty_cons, if_neg Bool.false_ne_true, List.reverse_append,
        List.dropWhile_append_of_pos hreverse]

theorem trimToNone_eq_some_iff {s : Option (List α)} {t : List α} :
    trimToNone space s = some t ↔ t ≠ [] ∧ ∃ r, s = some r ∧ trim space r = t := by
  unfold trimToNone
  rw [Option.filter_eq_some_iff]
  constructor
  · intro h
    obtain ⟨hmap, hne⟩ := h
    obtain ⟨r, hr, rfl⟩ := Option.map_eq_some_iff.mp hmap
    exact ⟨by simpa using hne, r, hr, rfl⟩
  · intro h
    obtain ⟨hne, r, rfl, rfl⟩ := h
    exact ⟨rfl, by simpa using hne⟩

/-- What is trimmed stays as it is. -/
theorem trimToNone_trimToNone (s : Option (List α)) : trimToNone space (trimToNone space s) = trimToNone space s := by
  cases h : trimToNone space s with
  | none => rfl
  | some t =>
      obtain ⟨hne, raw, hraw, htrim⟩ := trimToNone_eq_some_iff.mp h
      apply trimToNone_eq_some_iff.mpr
      refine ⟨hne, t, rfl, ?_⟩
      rw [← htrim, trim_trim]

end Trim

/-! ## §2. White space outside ASCII. -/

/-- The separators that are white space nearly everywhere: the spaces of various widths and the line and
    paragraph separators, without the two that may not be broken. -/
def isBreakingSeparator (n : Nat) : Bool :=
  n == 0x1680 || decide (0x2000 ≤ n ∧ n ≤ 0x2006) || decide (0x2008 ≤ n ∧ n ≤ 0x200A) ||
    n == 0x2028 || n == 0x2029 || n == 0x205F || n == 0x3000

/-- The separators, those that may not be broken included. -/
def isSeparator (n : Nat) : Bool :=
  isBreakingSeparator n || n == 0x00A0 || n == 0x2007 || n == 0x202F

/-- Horizontal tab to carriage return, and the space. -/
def isAsciiSpace (n : Nat) : Bool := decide (0x09 ≤ n ∧ n ≤ 0x0D) || n == 0x20

end CekatEvents.Encoding
