/-
  CekatEvents.JsonText.Texts — what a text says.

  `Writes text v` reads a text member by member, so that an object in which a name repeats is told from
  one in which it does not; `DecodesTo text v` reads it as a parser does, the last member of a name standing
  for all.  Numbers are taken as they are written.

    * `Encoder.writes`   — a writer writes what it is given;
    * `Writes.decodesTo` — without repeated names there is no difference;
    * `Escaping.reads`   — in UTF-8 it arrives as bytes.
-/
import CekatEvents.JsonText.Escape

namespace CekatEvents.JsonText

open CekatEvents.Encoding

/-! ## §1. Trees member by member. -/

section Raw

variable {ν : Type} (D : Decoder ν)

mutual
/-- The value of a syntax tree, every member of an object kept. -/
def Ast.raw : Ast → Value ν
  | .null => .null
  | .bool b => .bool b
  | .nonFinite c => .num (D.nonFinite c)
  | .num n => .num (D.num n)
  | .str ps => .str (decodeString D.hex ps)
  | .arr xs => .arr (rawElems xs)
  | .obj ms => .obj (rawMembers ms)
/-- The same for elements. -/
def rawElems : List Ast → List (Value ν)
  | [] => []
  | x :: xs => x.raw :: rawElems xs
/-- The same for members. -/
def rawMembers : List (List Piece × Ast) → List (List CodeUnit × Value ν)
  | [] => []
  | (k, x) :: ms => (decodeString D.hex k, x.raw) :: rawMembers ms
end

variable {D}

theorem rawElems_eq_map (xs : List Ast) : rawElems D xs = xs.map (Ast.raw D) := by
  induction xs with
  | nil => rfl
  | cons x xs ih => rw [rawElems, ih, List.map_cons]

theorem rawMembers_eq_map (ms : List (List Piece × Ast)) :
    rawMembers D ms = ms.map fun m => (decodeString D.hex m.1, m.2.raw D) := by
  induction ms with
  | nil => rfl
  | cons m ms ih =>
      obtain ⟨k, x⟩ := m
      rw [rawMembers, ih, List.map_cons]

/-- **Without repeated names a parser keeps every member.** -/
theorem decode_eq_raw {t : Ast} (h : (t.raw D).Distinct) : t.decode D = t.raw D := by
  induction t using Ast.induction with
  | null => rfl
  | bool b => rfl
  | nonFinite c => rfl
  | num n => rfl
  | str ps => rfl
  | arr xs ih =>
      have h : EachElem (fun _ => True) List.Nodup (rawElems D xs) := h
      show Value.arr (decodeElems D xs) = .arr (rawElems D xs)
      rw [rawElems_eq_map] at h ⊢
      rw [decodeElems_eq_map]
      congr 1
      apply List.map_congr_left
      intro x hx
      exact ih x hx (eachElem_iff.mp h _ (List.mem_map_of_mem hx))
  | obj ms ih =>
      have h : List.Nodup ((rawMembers D ms).map Prod.fst) ∧
          EachMember (fun _ => True) List.Nodup (rawMembers D ms) := h
      show Value.obj (decodeMembers D [] ms) = .obj (rawMembers D ms)
      rw [rawMembers_eq_map] at h ⊢
      rw [List.map_map] at h
      have hnodup : (ms.map fun m => decodeString D.hex m.1).Nodup := h.1
      rw [decodeMembers_distinct ms [] (by simpa using hnodup), List.nil_append]
      congr 1
      apply List.map_congr_left
      intro m hm
      rw [ih m hm (eachMember_iff.mp h.2 _ (List.mem_map_of_mem hm)).2]

/-- **What is encoded is there member by member.** -/
theorem raw_encode {μ : Type} {E : Encoder μ} {f : μ → ν} (h : E.Inverts D f) (v : Value μ) :
    (v.encode E).raw D = v.map f := by
  induction v using Value.induction with
  | null => rfl
  | bool b => rfl
  | num n =>
      show Value.num _ = _
      rw [h.num n]
      rfl
  | str s =>
      show Value.str _ = _
      rw [h.string s]
      rfl
  | arr xs ih =>
      show Value.arr (rawElems D (encodeElems E xs)) = .arr (mapElems f xs)
      rw [rawElems_eq_map, encodeElems_eq_map, mapElems_eq_map, List.map_map]
      congr 1
      apply List.map_congr_left
      intro x hx
      exact ih x hx
  | obj ms ih =>
      show Value.obj (rawMembers D (encodeMembers E ms)) = .obj (mapMembers f ms)
      rw [rawMembers_eq_map, encodeMembers_eq_map, mapMembers_eq_map, List.map_map]
      congr 1
      apply List.map_congr_left
      intro m hm
      show (decodeString D.hex (E.string m.1), (m.2.encode E).raw D) = _
      rw [h.string m.1, ih m hm]

/-- The names of a value do not depend on its numbers. -/
theorem distinct_map {μ : Type} {f : μ → ν} {v : Value μ} : (v.map f).Distinct ↔ v.Distinct := by
  induction v using Value.induction with
  | null => exact Iff.rfl
  | bool b => exact Iff.rfl
  | num n => exact Iff.rfl
  | str s => exact Iff.rfl
  | arr xs ih =>
      show EachElem _ _ (mapElems f xs) ↔ EachElem _ _ xs
      rw [eachElem_iff, eachElem_iff, mapElems_eq_map, List.forall_mem_map]
      apply forall₂_congr
      intro x hx
      exact ih x hx
  | obj ms ih =>
      show (List.Nodup ((mapMembers f ms).map Prod.fst) ∧ EachMember _ _ (mapMembers f ms)) ↔
        (List.Nodup (ms.map Prod.fst) ∧ EachMember _ _ ms)
      rw [eachMember_iff, eachMember_iff, mapMembers_eq_map, List.forall_mem_map, List.map_map]
      apply and_congr Iff.rfl
      apply forall₂_congr
      intro m hm
      exact and_congr Iff.rfl (ih m hm)

end Raw

/-! ## §2. Texts. -/

/-- Numbers read as they are written. -/
def literalDecoder : Decoder Numeral where
  hex := hexUnit
  num n := n
  nonFinite _ := ⟨false, [unit '0'], none, none⟩

/-- **The text is standard JSON with these members**, repeated ones included. -/
def Writes (text : List CodeUnit) (v : Value Numeral) : Prop :=
  ∃ t, Text rfc8259 t text ∧ t.raw literalDecoder = v

/-- **The text is standard JSON and says this value.** -/
def DecodesTo (text : List CodeUnit) (v : Value Numeral) : Prop :=
  ∃ t, Text rfc8259 t text ∧ t.decode literalDecoder = v

theorem Writes.unique {text : List CodeUnit} {v w : Value Numeral} (hv : Writes text v)
    (hw : Writes text w) : v = w := by
  obtain ⟨t, ht, rfl⟩ := hv
  obtain ⟨t', ht', rfl⟩ := hw
  rw [text_unique ht ht']

theorem Writes.decodesTo {text : List CodeUnit} {v : Value Numeral} (h : Writes text v)
    (hv : v.Distinct) : DecodesTo text v := by
  obtain ⟨t, ht, rfl⟩ := h
  exact ⟨t, ht, decode_eq_raw hv⟩

/-- **A writer writes what it is given.** -/
theorem Encoder.writes {ν : Type} {E : Encoder ν} {f : ν → Numeral} (hwithin : E.Within rfc8259)
    (hinverts : E.Inverts literalDecoder f) (v : Value ν) :
    Writes (v.encode E).text (v.map f) :=
  ⟨_, text_text (proper_encode hwithin v), raw_encode hinverts v⟩

/-- **An escaping says what it is given**, when no name repeats and its numbers are numbers. -/
theorem Escaping.decodesTo {ν : Type} (e : Escaping) {num : ν → Numeral}
    (hnum : ∀ n, (num n).WellFormed) {v : Value ν} (hv : v.Distinct) :
    DecodesTo (v.encode (e.encoder num)).text (v.map num) := by
  have hwithin : (e.encoder num).Within rfc8259 := e.within num rfl fun n => ⟨hnum n, rfl⟩
  have hinverts : (e.encoder num).Inverts literalDecoder num := e.inverts num rfl fun _ => rfl
  exact (Encoder.writes hwithin hinverts v).decodesTo (distinct_map.mpr hv)

/-! ## §3. Bodies. -/

/-- **The body is JSON in UTF-8 and is read as this value.** -/
def BodyReads (body : List UInt8) (v : Value Numeral) : Prop :=
  ∃ cs, utf8 cs = body ∧ DecodesTo (utf16 cs) v

/-- There is one way to read it. -/
theorem BodyReads.unique {body : List UInt8} {v w : Value Numeral} (hv : BodyReads body v)
    (hw : BodyReads body w) : v = w := by
  obtain ⟨cs, rfl, t, ht, rfl⟩ := hv
  obtain ⟨cs', hcs, t', ht', rfl⟩ := hw
  have hsame : some cs' = some cs := by
    rw [← ofUtf8?_utf8 cs', hcs, ofUtf8?_utf8]
  cases hsame
  rw [text_unique ht ht']

/-- The bytes of a text. -/
theorem DecodesTo.body {text : List CodeUnit} {v : Value Numeral} (h : DecodesTo text v)
    (htext : WellFormed text) : BodyReads (utf8 (ofUtf16Lossy text)) v := by
  refine ⟨ofUtf16Lossy text, rfl, ?_⟩
  rw [utf16_ofUtf16Lossy htext]
  exact h

/-- The text of a value whose strings are Unicode. -/
theorem Escaping.wellFormed_text {ν : Type} (e : Escaping) {num : ν → Numeral}
    (hnum : ∀ n, (num n).WellFormed) {v : Value ν} (hv : v.Unicode) :
    WellFormed (v.encode (e.encoder num)).text := by
  have hwithin : (e.encoder num).Within rfc8259 := e.within num rfl fun n => ⟨hnum n, rfl⟩
  exact clean_text (clean_encode (e.seamless num) hv) (proper_encode hwithin v)

/-- **An escaping is read, in UTF-8, as what it is given.** -/
theorem Escaping.reads {ν : Type} (e : Escaping) {num : ν → Numeral}
    (hnum : ∀ n, (num n).WellFormed) {v : Value ν} (hdistinct : v.Distinct) (hunicode : v.Unicode) :
    BodyReads (utf8 (ofUtf16Lossy (v.encode (e.encoder num)).text)) (v.map num) :=
  (e.decodesTo hnum hdistinct).body (e.wellFormed_text hnum hunicode)

end CekatEvents.JsonText
