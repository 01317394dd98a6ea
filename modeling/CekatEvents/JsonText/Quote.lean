/-
  CekatEvents.JsonText.Quote — writers that look at whole strings.

  An `Encoder` writes each code unit for itself.  `JSON.stringify` escapes a surrogate where it stands
  alone and nowhere else, so a `Quoting` is handed the whole string.

    * `Quoting.decodesTo` — a faithful writer says what it is given;
    * `stringify`         — the writer of JavaScript, which is faithful to every string;
    * `stringify_reads`   — and whose text is always Unicode, so that it arrives in UTF-8.
-/
import CekatEvents.JsonText.Texts

namespace CekatEvents.JsonText

open CekatEvents.Encoding

/-! ## §1. Writers of strings. -/

/-- What a writer makes of strings and of numbers. -/
structure Quoting (ν : Type) where
  string : List CodeUnit → List Piece
  num : ν → Numeral

section Spell

variable {ν : Type} (Q : Quoting ν)

mutual
/-- The tree that is written for a value. -/
def Value.spell : Value ν → Ast
  | .null => .null
  | .bool b => .bool b
  | .num n => .num (Q.num n)
  | .str s => .str (Q.string s)
  | .arr xs => .arr (spellElems xs)
  | .obj ms => .obj (spellMembers ms)
/-- The trees of elements. -/
def spellElems : List (Value ν) → List Ast
  | [] => []
  | x :: xs => x.spell :: spellElems xs
/-- The trees of members. -/
def spellMembers : List (List CodeUnit × Value ν) → List (List Piece × Ast)
  | [] => []
  | (k, x) :: ms => (Q.string k, x.spell) :: spellMembers ms
end

/-- The writer writes standard JSON, from which strings are read as they were. -/
structure Quoting.Faithful : Prop where
  ok : ∀ s, PiecesOk rfc8259 (Q.string s)
  decode : ∀ s, decodeString hexUnit (Q.string s) = s
  num : ∀ n, (Q.num n).WellFormed

variable {Q}

theorem spellElems_eq_map (xs : List (Value ν)) : spellElems Q xs = xs.map (Value.spell Q) := by
  induction xs with
  | nil => rfl
  | cons x xs ih => rw [spellElems, ih, List.map_cons]

theorem spellMembers_eq_map (ms : List (List CodeUnit × Value ν)) :
    spellMembers Q ms = ms.map fun m => (Q.string m.1, m.2.spell Q) := by
  induction ms with
  | nil => rfl
  | cons m ms ih =>
      obtain ⟨k, x⟩ := m
      rw [spellMembers, ih, List.map_cons]

theorem proper_spell (hQ : Q.Faithful) (v : Value ν) : (v.spell Q).Proper rfc8259 := by
  induction v using Value.induction with
  | null => trivial
  | bool b => trivial
  | num n => exact ⟨hQ.num n, rfl⟩
  | str s => exact hQ.ok s
  | arr xs ih =>
      apply properElems_iff.mpr
      rw [spellElems_eq_map, List.forall_mem_map]
      exact ih
  | obj ms ih =>
      apply properMembers_iff.mpr
      rw [spellMembers_eq_map, List.forall_mem_map]
      intro m hm
      exact ⟨hQ.ok m.1, ih m hm⟩

/-- **What is written is there member by member.** -/
theorem raw_spell (hQ : Q.Faithful) (v : Value ν) : (v.spell Q).raw literalDecoder = v.map Q.num := by
  induction v using Value.induction with
  | null => rfl
  | bool b => rfl
  | num n => rfl
  | str s =>
      show Value.str (decodeString hexUnit (Q.string s)) = .str s
      rw [hQ.decode s]
  | arr xs ih =>
      show Value.arr (rawElems literalDecoder (spellElems Q xs)) = .arr (mapElems Q.num xs)
      rw [rawElems_eq_map, spellElems_eq_map, mapElems_eq_map, List.map_map]
      congr 1
      apply List.map_congr_left
      intro x hx
      exact ih x hx
  | obj ms ih =>
      show Value.obj (rawMembers literalDecoder (spellMembers Q ms)) = .obj (mapMembers Q.num ms)
      rw [rawMembers_eq_map, spellMembers_eq_map, mapMembers_eq_map, List.map_map]
      congr 1
      apply List.map_congr_left
      intro m hm
      show (decodeString hexUnit (Q.string m.1), (m.2.spell Q).raw literalDecoder) = _
      rw [hQ.decode m.1, ih m hm]

/-- **A faithful writer says what it is given**, when no name repeats. -/
theorem Quoting.decodesTo (hQ : Q.Faithful) {v : Value ν} (hv : v.Distinct) :
    DecodesTo (v.spell Q).text (v.map Q.num) := by
  have hwrites : Writes (v.spell Q).text (v.map Q.num) :=
    ⟨_, text_text (proper_spell hQ v), raw_spell hQ v⟩
  exact hwrites.decodesTo (distinct_map.mpr hv)

end Spell

/-! ## §2. `JSON.stringify`. -/

/-- The element of a code unit that is no half of a pair. -/
def loneUnit (u : CodeUnit) : Piece :=
  match shortOf u with
  | some c => .short c
  | none => if u.toNat < 0x20 ∨ isBasic u = false then hexPiece u else .plain u

/-- The elements of a string: a surrogate pair is written as it stands. -/
def quoteJSONString : List CodeUnit → List Piece
  | [] => []
  | [u] => [loneUnit u]
  | u :: v :: s =>
      if isHigh u ∧ isLow v then .plain u :: .plain v :: quoteJSONString s
      else loneUnit u :: quoteJSONString (v :: s)

theorem loneUnit_decode (u : CodeUnit) : (loneUnit u).decode hexUnit = u := by
  unfold loneUnit
  cases hshort : shortOf u with
  | some c =>
      show (shortEscape c).getD c = u
      rw [shortOf_ok u c hshort]
      rfl
  | none =>
      show Piece.decode hexUnit (if _ then _ else _) = u
      split_ifs
      · exact hexPiece_decode u
      · rfl

theorem loneUnit_ok (u : CodeUnit) : (loneUnit u).ok rfc8259 = true := by
  unfold loneUnit
  cases hshort : shortOf u with
  | some c =>
      show (shortEscape c).isSome = true
      rw [shortOf_ok u c hshort]
      rfl
  | none =>
      show Piece.ok rfc8259 (if _ then _ else _) = true
      split_ifs with h
      · exact hexPiece_strict u
      · have hlow : ¬ u.toNat < 0x20 := fun hlt => h (.inl hlt)
        exact minimalEscaping.plain_ok u hshort (by
          show (decide (u.toNat < 0x20) || false) = false
          rw [decide_eq_false hlow]
          rfl)

/-- A surrogate may stand in a literal. -/
theorem isPlain_surrogate {u : CodeUnit} (h : isBasic u = false) : isPlain u = true := by
  have hhigh : 0x80 ≤ u.toNat := by
    by_contra hlt
    rw [isBasic_of_low (Nat.lt_of_not_le hlt)] at h
    cases h
  have hhex : minimalEscaping.hex u = false := by
    show (decide (u.toNat < 0x20) || false) = false
    rw [decide_eq_false (by omega)]
    rfl
  exact minimalEscaping.plain_ok u (minimalEscaping.short_surrogate h) hhex

theorem isBasic_of_isHigh {u : CodeUnit} (h : isHigh u = true) : isBasic u = false := by
  unfold isBasic
  rw [h]
  rfl

theorem isBasic_of_isLow {u : CodeUnit} (h : isLow u = true) : isBasic u = false := by
  unfold isBasic
  rw [h]
  simp

theorem quoteJSONString_decode (s : List CodeUnit) : decodeString hexUnit (quoteJSONString s) = s := by
  induction s using quoteJSONString.induct with
  | case1 => rfl
  | case2 u =>
      show [(loneUnit u).decode hexUnit] = [u]
      rw [loneUnit_decode]
  | case3 u v s hpair ih =>
      rw [quoteJSONString, if_pos hpair]
      show u :: v :: decodeString hexUnit (quoteJSONString s) = _
      rw [ih]
  | case4 u v s hpair ih =>
      rw [quoteJSONString, if_neg hpair]
      show (loneUnit u).decode hexUnit :: decodeString hexUnit (quoteJSONString (v :: s)) = _
      rw [loneUnit_decode, ih]

theorem quoteJSONString_ok (s : List CodeUnit) : PiecesOk rfc8259 (quoteJSONString s) := by
  induction s using quoteJSONString.induct with
  | case1 => exact fun p hp => absurd hp List.not_mem_nil
  | case2 u => exact List.forall_mem_singleton.mpr (loneUnit_ok u)
  | case3 u v s hpair ih =>
      rw [quoteJSONString, if_pos hpair]
      refine List.forall_mem_cons.mpr ⟨?_, List.forall_mem_cons.mpr ⟨?_, ih⟩⟩
      · exact isPlain_surrogate (isBasic_of_isHigh hpair.1)
      · exact isPlain_surrogate (isBasic_of_isLow hpair.2)
  | case4 u v s hpair ih =>
      rw [quoteJSONString, if_neg hpair]
      exact List.forall_mem_cons.mpr ⟨loneUnit_ok u, ih⟩

/-- **`JSON.stringify`** of what has been copied: no `toJSON` is left to call. -/
def stringify {ν : Type} (num : ν → Numeral) (v : Value ν) : List CodeUnit :=
  (v.spell ⟨quoteJSONString, num⟩).text

/-- What `JSON.stringify` writes is there member by member. -/
theorem stringify_writes {ν : Type} {num : ν → Numeral} (hnum : ∀ n, (num n).WellFormed)
    (v : Value ν) : Writes (stringify num v) (v.map num) := by
  have hQ : Quoting.Faithful ⟨quoteJSONString, num⟩ := ⟨quoteJSONString_ok, quoteJSONString_decode, hnum⟩
  exact ⟨_, text_text (proper_spell hQ v), raw_spell hQ v⟩

/-- **What `JSON.stringify` writes is read as it was**, unpaired surrogates included. -/
theorem stringify_decodesTo {ν : Type} {num : ν → Numeral} (hnum : ∀ n, (num n).WellFormed)
    {v : Value ν} (hv : v.Distinct) : DecodesTo (stringify num v) (v.map num) :=
  Quoting.decodesTo ⟨quoteJSONString_ok, quoteJSONString_decode, hnum⟩ hv

/-! ## §3. The text is Unicode. -/

theorem loneUnit_wellFormed (u : CodeUnit) : WellFormed (loneUnit u).text := by
  unfold loneUnit
  cases hshort : shortOf u with
  | some c =>
      have hc := (shortEscape_basic (shortOf_ok u c hshort)).1
      refine .of_ascii (List.forall_mem_cons.mpr ⟨by decide, ?_⟩)
      exact List.forall_mem_singleton.mpr hc
  | none =>
      show WellFormed (Piece.text (if _ then _ else _))
      split_ifs with h
      · exact .of_ascii (hexPiece_ascii u)
      · -- what is not escaped is no surrogate
        have hu : isBasic u = true := by
          cases hbasic : isBasic u with
          | true => rfl
          | false => exact absurd (.inr hbasic) h
        exact (wellFormed_cons_iff hu).mpr .nil

/-- **A literal of `JSON.stringify` is well formed**, whatever the string is. -/
theorem quoteJSONString_clean (s : List CodeUnit) : CleanPieces (quoteJSONString s) := by
  apply (wellFormed_bracketed (by decide) (by decide)).mpr
  induction s using quoteJSONString.induct with
  | case1 => exact .nil
  | case2 u =>
      show WellFormed ((loneUnit u).text ++ [])
      exact (loneUnit_wellFormed u).append .nil
  | case3 u v s hpair ih =>
      rw [quoteJSONString, if_pos hpair]
      have hchar : WellFormed [u, v] := by
        refine ⟨[pairChar u v], ?_⟩
        rw [utf16_cons, utf16Char_pairChar hpair.1 hpair.2]
        rfl
      exact hchar.append ih
  | case4 u v s hpair ih =>
      rw [quoteJSONString, if_neg hpair]
      exact (loneUnit_wellFormed u).append ih

theorem clean_spell {ν : Type} {Q : Quoting ν} (hQ : ∀ s, CleanPieces (Q.string s)) (v : Value ν) :
    (v.spell Q).Clean := by
  induction v using Value.induction with
  | null => trivial
  | bool b => trivial
  | num n => trivial
  | str s => exact hQ s
  | arr xs ih =>
      apply literalsElems_iff.mpr
      rw [spellElems_eq_map, List.forall_mem_map]
      exact ih
  | obj ms ih =>
      apply literalsMembers_iff.mpr
      rw [spellMembers_eq_map, List.forall_mem_map]
      intro m hm
      exact ⟨hQ m.1, ih m hm⟩

/-- **What `JSON.stringify` writes is read, in UTF-8, as it was**, when no name repeats. -/
theorem stringify_reads {ν : Type} {num : ν → Numeral} (hnum : ∀ n, (num n).WellFormed) {v : Value ν}
    (hv : v.Distinct) : BodyReads (utf8 (ofUtf16Lossy (stringify num v))) (v.map num) := by
  have hQ : Quoting.Faithful ⟨quoteJSONString, num⟩ := ⟨quoteJSONString_ok, quoteJSONString_decode, hnum⟩
  exact (stringify_decodesTo hnum hv).body (clean_text (clean_spell quoteJSONString_clean v) (proper_spell hQ v))

end CekatEvents.JsonText
