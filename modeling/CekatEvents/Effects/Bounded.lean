/-
  CekatEvents.Effects.Bounded — reading a bounded prefix of a stream that comes in chunks.

  A reader may hold one element more than it retains: the extra one proves that there was more.  What it
  holds is a prefix of what was sent, so nothing depends on the chunks, nor on when the reader stops after
  it is full.
-/
import Mathlib.Data.List.Induction

namespace CekatEvents.Effects

/-- What a reader reports of a stream. -/
structure BoundedRead (α : Type) where
  retained : List α
  truncated : Bool
  observed : Nat
  deriving DecidableEq

section Bounded

variable {α : Type} (limit : Nat)

/-- **What there is to report**: the first elements, whether there were more, and how many were looked
    at. -/
def boundedRead (bytes : List α) : BoundedRead α :=
  ⟨bytes.take limit, decide (limit < bytes.length), min bytes.length (limit + 1)⟩

/-- A chunk is held as far as there is room. -/
def hold (held chunk : List α) : List α := held ++ chunk.take (limit + 1 - held.length)

/-- What is held is reported. -/
def report (held : List α) : BoundedRead α :=
  ⟨held.take limit, decide (limit < held.length), held.length⟩

variable {limit}

/-- A stream within the limit is retained whole. -/
theorem boundedRead_of_le {bytes : List α} (h : bytes.length ≤ limit) :
    boundedRead limit bytes = ⟨bytes, false, bytes.length⟩ := by
  unfold boundedRead
  rw [List.take_of_length_le h, decide_eq_false (Nat.not_lt.mpr h),
    Nat.min_eq_left (Nat.le_succ_of_le h)]

theorem hold_take (bytes chunk : List α) :
    hold limit (bytes.take (limit + 1)) chunk = (bytes ++ chunk).take (limit + 1) := by
  unfold hold
  rw [List.take_append, List.length_take]
  congr 2
  omega

/-- **What is held after any chunks** is a prefix of what they say. -/
theorem foldl_hold (chunks : List (List α)) :
    chunks.foldl (hold limit) [] = chunks.flatten.take (limit + 1) := by
  induction chunks using List.reverseRecOn with
  | nil => rfl
  | append_singleton chunks chunk ih =>
      rw [List.foldl_append, ih, List.flatten_append, List.flatten_singleton]
      exact hold_take chunks.flatten chunk

/-- Never more than one element too many is held. -/
theorem length_foldl_hold_le (chunks : List (List α)) :
    (chunks.foldl (hold limit) []).length ≤ limit + 1 := by
  rw [foldl_hold]
  exact List.length_take_le _ _

theorem report_take (bytes : List α) : report limit (bytes.take (limit + 1)) = boundedRead limit bytes := by
  have htake : (bytes.take (limit + 1)).take limit = bytes.take limit := by
    rw [List.take_take, Nat.min_eq_left (Nat.le_succ limit)]
  have htruncated : limit < min (limit + 1) bytes.length ↔ limit < bytes.length := by
    omega
  unfold report boundedRead
  rw [htake, List.length_take, decide_eq_decide.mpr htruncated, Nat.min_comm]

/-- What is held tells what there is to report. -/
theorem report_foldl_hold (chunks : List (List α)) :
    report limit (chunks.foldl (hold limit) []) = boundedRead limit chunks.flatten := by
  rw [foldl_hold]
  exact report_take chunks.flatten

/-- Nothing more is held once it is too many. -/
theorem hold_full {held : List α} (h : limit < held.length) (chunk : List α) :
    hold limit held chunk = held := by
  unfold hold
  rw [Nat.sub_eq_zero_of_le h, List.take_zero, List.append_nil]

theorem foldl_hold_full {held : List α} (h : limit < held.length) (chunks : List (List α)) :
    chunks.foldl (hold limit) held = held := by
  induction chunks with
  | nil => rfl
  | cons chunk rest ih => rw [List.foldl_cons, hold_full h chunk, ih]

end Bounded

end CekatEvents.Effects
