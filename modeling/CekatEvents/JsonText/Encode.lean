/-
  CekatEvents.JsonText.Encode — writing decoded values.

  An `Encoder` is what the writers differ in: the element each code unit of a string is written as, and
  the numeral of each number.  A value is encoded as a tree, and the tree is written by `Ast.text`.

    * `proper_encode` — a writer of proper elements and numbers writes proper trees;
    * `clean_encode`  — strings of well-formed Unicode are written as well-formed text.
-/
import CekatEvents.JsonText.Entries
import CekatEvents.JsonText.Unicode

namespace CekatEvents.JsonText

open CekatEvents.Encoding

/-! ## §1. Encoders. -/

/-- What a writer makes of code units and of numbers. -/
structure Encoder (ν : Type) where
  piece : CodeUnit → Piece
  num : ν → Numeral

section Encode

variable {ν : Type} (E : Encoder ν)

/-- The elements of a string. -/
def Encoder.string (s : List CodeUnit) : List Piece := s.map E.piece

mutual
/-- The tree of a value. -/
def Value.encode : Value ν → Ast
  | .null => .null
  | .bool b => .bool b
  | .num n => .num (E.num n)
  | .str s => .str (E.string s)
  | .arr xs => .arr (encodeElems xs)
  | .obj ms => .obj (encodeMembers ms)
/-- The trees of elements. -/
def encodeElems : List (Value ν) → List Ast
  | [] => []
  | x :: xs => x.encode :: encodeElems xs
/-- The trees of members. -/
def encodeMembers : List (List CodeUnit × Value ν) → List (List Piece × Ast)
  | [] => []
  | (k, x) :: ms => (E.string k, x.encode) :: encodeMembers ms
end

end Encode

section Map

variable {ν μ : Type} (f : ν → μ)

mutual
/-- Put other numbers in. -/
def Value.map : Value ν → Value μ
  | .null => .null
  | .bool b => .bool b
  | .num n => .num (f n)
  | .str s => .str s
  | .arr xs => .arr (mapElems xs)
  | .obj ms => .obj (mapMembers ms)
/-- The same in elements. -/
def mapElems : List (Value ν) → List (Value μ)
  | [] => []
  | x :: xs => x.map :: mapElems xs
/-- The same in members. -/
def mapMembers : List (List CodeUnit × Value ν) → List (List CodeUnit × Value μ)
  | [] => []
  | (k, x) :: ms => (k, x.map) :: mapMembers ms
end

end Map

/-! ## §2. Conditions on values. -/

section Conditions

variable {ν : Type}

section Parts

variable (S : List CodeUnit → Prop) (O : List (List CodeUnit) → Prop)

mutual
/-- Every string of the value, the names of members included, satisfies the first condition, and the
    names of every object the second. -/
def Value.Each : Value ν → Prop
  | .null => True
  | .bool _ => True
  | .num _ => True
  | .str s => S s
  | .arr xs => EachElem xs
  | .obj ms => O (ms.map Prod.fst) ∧ EachMember ms
/-- The same for elements. -/
def EachElem : List (Value ν) → Prop
  | [] => True
  | x :: xs => x.Each ∧ EachElem xs
/-- The same for members. -/
def EachMember : List (List CodeUnit × Value ν) → Prop
  | [] => True
  | (k, x) :: ms => (S k ∧ x.Each) ∧ EachMember ms
end

end Parts

/-- No object of the value has two members of one name. -/
abbrev Value.Distinct (v : Value ν) : Prop := v.Each (fun _ => True) List.Nodup

/-- Every string of the value is well-formed Unicode. -/
abbrev Value.Unicode (v : Value ν) : Prop := v.Each WellFormed fun _ => True

variable {S : List CodeUnit → Prop} {O : List (List CodeUnit) → Prop}

theorem eachElem_iff {xs : List (Value ν)} : EachElem S O xs ↔ ∀ x ∈ xs, x.Each S O := by
  induction xs with
  | nil => simp [EachElem]
  | cons x xs ih => simp [EachElem, ih]

theorem eachMember_iff {ms : List (List CodeUnit × Value ν)} :
    EachMember S O ms ↔ ∀ m ∈ ms, S m.1 ∧ m.2.Each S O := by
  induction ms with
  | nil => simp [EachMember]
  | cons m ms ih =>
      obtain ⟨k, x⟩ := m
      simp [EachMember, ih]

/-- An object made of names and values one after another. -/
theorem each_zip {ks : List (List CodeUnit)} {xs : List (Value ν)} (hS : ∀ k ∈ ks, S k)
    (hO : O ((ks.zip xs).map Prod.fst)) (hx : ∀ x ∈ xs, x.Each S O) :
    (Value.obj (ks.zip xs)).Each S O := by
  refine ⟨hO, eachMember_iff.mpr ?_⟩
  intro m hm
  exact ⟨hS _ (List.of_mem_zip hm).1, hx _ (List.of_mem_zip hm).2⟩

theorem zip_names_sublist {α : Type} (ks : List (List CodeUnit)) (xs : List α) :
    ((ks.zip xs).map Prod.fst).Sublist ks := by
  induction ks generalizing xs with
  | nil => exact .slnil
  | cons k ks ih =>
      cases xs with
      | nil => exact List.nil_sublist _
      | cons x xs => exact (ih xs).cons_cons k

theorem distinct_zip {ks : List (List CodeUnit)} {xs : List (Value ν)} (hk : ks.Nodup)
    (hx : ∀ x ∈ xs, x.Distinct) : (Value.obj (ks.zip xs)).Distinct := by
  apply each_zip (fun _ _ => trivial) _ hx
  exact (zip_names_sublist ks xs).nodup hk

theorem distinct_zip_iff {ks : List (List CodeUnit)} {xs : List (Value ν)}
    (h : xs.length = ks.length) :
    (Value.obj (ks.zip xs)).Distinct ↔ ks.Nodup ∧ ∀ x ∈ xs, x.Distinct := by
  constructor
  · intro hobj
    obtain ⟨hnodup, hmembers⟩ := hobj
    rw [List.map_fst_zip (Nat.le_of_eq h.symm)] at hnodup
    refine ⟨hnodup, ?_⟩
    intro x hx
    have hsnd : (ks.zip xs).map Prod.snd = xs := List.map_snd_zip (Nat.le_of_eq h)
    rw [← hsnd] at hx
    obtain ⟨m, hm, rfl⟩ := List.mem_map.mp hx
    exact (eachMember_iff.mp hmembers m hm).2
  · intro hboth
    exact distinct_zip hboth.1 hboth.2

section Numbers

variable (N : ν → Prop)

mutual
/-- Every number of the value satisfies the condition. -/
def Value.Numbers : Value ν → Prop
  | .num n => N n
  | .arr xs => NumbersElem xs
  | .obj ms => NumbersMember ms
  | _ => True
/-- The same for elements. -/
def NumbersElem : List (Value ν) → Prop
  | [] => True
  | x :: xs => x.Numbers ∧ NumbersElem xs
/-- The same for members. -/
def NumbersMember : List (List CodeUnit × Value ν) → Prop
  | [] => True
  | (_, x) :: ms => x.Numbers ∧ NumbersMember ms
end

end Numbers

theorem numbersElem_iff {N : ν → Prop} {xs : List (Value ν)} :
    NumbersElem N xs ↔ ∀ x ∈ xs, x.Numbers N := by
  induction xs with
  | nil => simp [NumbersElem]
  | cons x xs ih => simp [NumbersElem, ih]

theorem numbersMember_iff {N : ν → Prop} {ms : List (List CodeUnit × Value ν)} :
    NumbersMember N ms ↔ ∀ m ∈ ms, m.2.Numbers N := by
  induction ms with
  | nil => simp [NumbersMember]
  | cons m ms ih =>
      obtain ⟨k, x⟩ := m
      simp [NumbersMember, ih]

mutual
/-- How many containers nest, the value itself included. -/
def Value.nesting : Value ν → Nat
  | .arr xs => valuesNesting xs + 1
  | .obj ms => membersNesting ms + 1
  | _ => 0
/-- The deepest nesting among elements. -/
def valuesNesting : List (Value ν) → Nat
  | [] => 0
  | x :: xs => max x.nesting (valuesNesting xs)
/-- The deepest nesting among members. -/
def membersNesting : List (List CodeUnit × Value ν) → Nat
  | [] => 0
  | (_, x) :: ms => max x.nesting (membersNesting ms)
end

theorem valuesNesting_le {xs : List (Value ν)} {n : Nat} :
    valuesNesting xs ≤ n ↔ ∀ x ∈ xs, x.nesting ≤ n := by
  induction xs with
  | nil => simp [valuesNesting]
  | cons x xs ih => simp [valuesNesting, ih]

theorem membersNesting_le {ms : List (List CodeUnit × Value ν)} {n : Nat} :
    membersNesting ms ≤ n ↔ ∀ m ∈ ms, m.2.nesting ≤ n := by
  induction ms with
  | nil => simp [membersNesting]
  | cons m ms ih =>
      obtain ⟨k, x⟩ := m
      simp [membersNesting, ih]

theorem nesting_arr_le {xs : List (Value ν)} {n : Nat} :
    (Value.arr xs).nesting ≤ n ↔ ∃ m, n = m + 1 ∧ ∀ x ∈ xs, x.nesting ≤ m := by
  have heq : (Value.arr xs).nesting = valuesNesting xs + 1 := rfl
  rw [heq]
  constructor
  · intro h
    have hle : valuesNesting xs ≤ n - 1 := by omega
    exact ⟨n - 1, by omega, valuesNesting_le.mp hle⟩
  · intro h
    obtain ⟨m, rfl, hxs⟩ := h
    exact Nat.succ_le_succ (valuesNesting_le.mpr hxs)

theorem nesting_obj_le {ms : List (List CodeUnit × Value ν)} {n : Nat} :
    (Value.obj ms).nesting ≤ n ↔ ∃ m, n = m + 1 ∧ ∀ e ∈ ms, e.2.nesting ≤ m := by
  have heq : (Value.obj ms).nesting = membersNesting ms + 1 := rfl
  rw [heq]
  constructor
  · intro h
    have hle : membersNesting ms ≤ n - 1 := by omega
    exact ⟨n - 1, by omega, membersNesting_le.mp hle⟩
  · intro h
    obtain ⟨m, rfl, hms⟩ := h
    exact Nat.succ_le_succ (membersNesting_le.mpr hms)

/-- An object made of names and as many values. -/
theorem nesting_zip_le {ks : List (List CodeUnit)} {xs : List (Value ν)} {n : Nat}
    (h : xs.length = ks.length) :
    (Value.obj (ks.zip xs)).nesting ≤ n ↔ ∃ m, n = m + 1 ∧ ∀ x ∈ xs, x.nesting ≤ m := by
  rw [nesting_obj_le]
  have hxs : (ks.zip xs).map Prod.snd = xs := List.map_snd_zip (Nat.le_of_eq h)
  conv_rhs => rw [← hxs]
  simp only [List.forall_mem_map]

/-- Induction on a value: arrays and objects may use the claim for what they contain. -/
theorem Value.induction {motive : Value ν → Prop} (null : motive .null)
    (bool : ∀ b, motive (.bool b)) (num : ∀ n, motive (.num n)) (str : ∀ s, motive (.str s))
    (arr : ∀ xs, (∀ x ∈ xs, motive x) → motive (.arr xs))
    (obj : ∀ ms : List (List CodeUnit × Value ν), (∀ m ∈ ms, motive m.2) → motive (.obj ms)) :
    ∀ v, motive v := by
  intro v
  induction hn : v.nesting using Nat.strong_induction_on generalizing v with
  | _ n ih =>
      cases v with
      | null => exact null
      | bool b => exact bool b
      | num n => exact num n
      | str s => exact str s
      | arr xs =>
          apply arr
          intro x hx
          have hle := valuesNesting_le.mp (Nat.le_refl (valuesNesting xs)) x hx
          exact ih _ (hn ▸ Nat.lt_succ_of_le hle) x rfl
      | obj ms =>
          apply obj
          intro m hm
          have hle := membersNesting_le.mp (Nat.le_refl (membersNesting ms)) m hm
          exact ih _ (hn ▸ Nat.lt_succ_of_le hle) m.2 rfl

/-- A weaker condition on strings and names. -/
theorem Value.Each.imp {S S' : List CodeUnit → Prop} {O O' : List (List CodeUnit) → Prop}
    (hS : ∀ s, S s → S' s) (hO : ∀ names, O names → O' names) {v : Value ν} (h : v.Each S O) :
    v.Each S' O' := by
  induction v using Value.induction with
  | null => trivial
  | bool b => trivial
  | num n => trivial
  | str s => exact hS s h
  | arr xs ih =>
      have hxs := eachElem_iff.mp h
      apply eachElem_iff.mpr
      intro x hx
      exact ih x hx (hxs x hx)
  | obj ms ih =>
      have hms := eachMember_iff.mp h.2
      refine ⟨hO _ h.1, eachMember_iff.mpr ?_⟩
      intro m hm
      exact ⟨hS _ (hms m hm).1, ih m hm (hms m hm).2⟩

/-- A weaker condition on numbers. -/
theorem Value.Numbers.imp {N N' : ν → Prop} (hN : ∀ n, N n → N' n) {v : Value ν}
    (h : v.Numbers N) : v.Numbers N' := by
  induction v using Value.induction with
  | null => trivial
  | bool b => trivial
  | num n => exact hN n h
  | str s => trivial
  | arr xs ih =>
      have hxs := numbersElem_iff.mp h
      exact numbersElem_iff.mpr fun x hx => ih x hx (hxs x hx)
  | obj ms ih =>
      have hms := numbersMember_iff.mp h
      exact numbersMember_iff.mpr fun m hm => ih m hm (hms m hm)

/-- A condition that all numbers satisfy. -/
theorem numbers_of_forall {N : ν → Prop} (h : ∀ n, N n) (v : Value ν) : v.Numbers N := by
  induction v using Value.induction with
  | null => trivial
  | bool b => trivial
  | num n => exact h n
  | str s => trivial
  | arr xs ih => exact numbersElem_iff.mpr ih
  | obj ms ih => exact numbersMember_iff.mpr ih

end Conditions

/-! ## §3. Encoding. -/

section Facts

variable {ν : Type} {E : Encoder ν}

theorem encodeElems_eq_map (xs : List (Value ν)) : encodeElems E xs = xs.map (Value.encode E) := by
  induction xs with
  | nil => rfl
  | cons x xs ih =>
      unfold encodeElems
      rw [ih, List.map_cons]

theorem encodeMembers_eq_map (ms : List (List CodeUnit × Value ν)) :
    encodeMembers E ms = ms.map fun m => (E.string m.1, m.2.encode E) := by
  induction ms with
  | nil => rfl
  | cons m ms ih =>
      obtain ⟨k, x⟩ := m
      unfold encodeMembers
      rw [ih, List.map_cons]

theorem mapElems_eq_map {μ : Type} (f : ν → μ) (xs : List (Value ν)) :
    mapElems f xs = xs.map (Value.map f) := by
  induction xs with
  | nil => rfl
  | cons x xs ih =>
      unfold mapElems
      rw [ih, List.map_cons]

theorem mapMembers_eq_map {μ : Type} (f : ν → μ) (ms : List (List CodeUnit × Value ν)) :
    mapMembers f ms = ms.map fun m => (m.1, m.2.map f) := by
  induction ms with
  | nil => rfl
  | cons m ms ih =>
      obtain ⟨k, x⟩ := m
      unfold mapMembers
      rw [ih, List.map_cons]

/-- The member of an object with other numbers in it. -/
theorem Value.get_map {μ : Type} (f : ν → μ) (v : Value ν) (k : List CodeUnit) :
    (v.map f).get k = (v.get k).map (Value.map f) := by
  cases v with
  | obj ms =>
      show getKey (mapMembers f ms) k = (getKey ms k).map (Value.map f)
      rw [mapMembers_eq_map, getKey_map]
  | _ => rfl

theorem mapMembers_decodeMembers {μ : Type} {D : Decoder ν} {E : Decoder μ} {f : ν → μ}
    (hhex : E.hex = D.hex) {ms : List (List Piece × Ast)}
    (h : ∀ m ∈ ms, (m.2.decode D).map f = m.2.decode E) (acc : List (List CodeUnit × Value ν)) :
    mapMembers f (decodeMembers D acc ms) = decodeMembers E (mapMembers f acc) ms := by
  induction ms generalizing acc with
  | nil => rfl
  | cons m ms ih =>
      obtain ⟨k, x⟩ := m
      rw [decodeMembers, decodeMembers, ih (fun m hm => h m (List.mem_cons_of_mem _ hm)),
        ← h (k, x) List.mem_cons_self, hhex, mapMembers_eq_map, map_putKey, ← mapMembers_eq_map]

/-- Decoders that read strings alike differ in the numbers only. -/
theorem map_decode {μ : Type} {D : Decoder ν} {E : Decoder μ} {f : ν → μ} (hhex : E.hex = D.hex)
    (hnum : ∀ n, f (D.num n) = E.num n) (hconst : ∀ c, f (D.nonFinite c) = E.nonFinite c) (t : Ast) :
    (t.decode D).map f = t.decode E := by
  induction t using Ast.induction with
  | null => rfl
  | bool b => rfl
  | nonFinite c => exact congrArg Value.num (hconst c)
  | num n => exact congrArg Value.num (hnum n)
  | str ps => rw [Ast.decode, Ast.decode, hhex, Value.map]
  | arr xs ih =>
      rw [Ast.decode, Ast.decode, Value.map, mapElems_eq_map, decodeElems_eq_map, decodeElems_eq_map,
        List.map_map]
      exact congrArg Value.arr (List.map_congr_left ih)
  | obj ms ih =>
      rw [Ast.decode, Ast.decode, Value.map, mapMembers_decodeMembers hhex ih]
      rfl

/-- A condition on the numbers that are put in. -/
theorem numbers_map_iff {μ : Type} {f : ν → μ} {N : μ → Prop} {v : Value ν} :
    (v.map f).Numbers N ↔ v.Numbers fun n => N (f n) := by
  induction v using Value.induction with
  | null => exact Iff.rfl
  | bool b => exact Iff.rfl
  | num n => exact Iff.rfl
  | str s => exact Iff.rfl
  | arr xs ih =>
      show NumbersElem N (mapElems f xs) ↔ NumbersElem _ xs
      rw [numbersElem_iff, numbersElem_iff, mapElems_eq_map, List.forall_mem_map]
      exact forall₂_congr ih
  | obj ms ih =>
      show NumbersMember N (mapMembers f ms) ↔ NumbersMember _ ms
      rw [numbersMember_iff, numbersMember_iff, mapMembers_eq_map, List.forall_mem_map]
      exact forall₂_congr ih

/-- The same numbers put in. -/
theorem value_map_id (v : Value ν) : v.map id = v := by
  induction v using Value.induction with
  | null => rfl
  | bool b => rfl
  | num n => rfl
  | str s => rfl
  | arr xs ih =>
      show Value.arr (mapElems id xs) = .arr xs
      rw [mapElems_eq_map, List.map_congr_left ih, List.map_id']
  | obj ms ih =>
      show Value.obj (mapMembers id ms) = .obj ms
      rw [mapMembers_eq_map]
      conv_rhs => rw [← List.map_id ms]
      congr 1
      apply List.map_congr_left
      intro m hm
      rw [ih m hm]
      rfl

/-- The dialect lets the elements through that the writer makes of code units. -/
def Encoder.PiecesWithin (E : Encoder ν) (d : Dialect) : Prop := ∀ u, (E.piece u).ok d = true

theorem Encoder.PiecesWithin.string {d : Dialect} (h : E.PiecesWithin d) (s : List CodeUnit) :
    PiecesOk d (E.string s) := by
  intro p hp
  obtain ⟨u, -, rfl⟩ := List.mem_map.mp hp
  exact h u

/-- The dialect lets the numeral of a number through. -/
def Encoder.NumberWithin (E : Encoder ν) (d : Dialect) (n : ν) : Prop :=
  (E.num n).WellFormed ∧ d.numeralOk (E.num n) = true

/-- **A writer of proper elements writes proper trees** of what has proper numbers. -/
theorem proper_encode_of {d : Dialect} (h : E.PiecesWithin d) {v : Value ν}
    (hv : v.Numbers (E.NumberWithin d)) : (v.encode E).Proper d := by
  induction v using Value.induction with
  | null => trivial
  | bool b => trivial
  | num n => exact hv
  | str s => exact h.string s
  | arr xs ih =>
      have hxs := numbersElem_iff.mp hv
      apply properElems_iff.mpr
      rw [encodeElems_eq_map]
      intro t ht
      obtain ⟨x, hx, rfl⟩ := List.mem_map.mp ht
      exact ih x hx (hxs x hx)
  | obj ms ih =>
      have hms := numbersMember_iff.mp hv
      apply properMembers_iff.mpr
      rw [encodeMembers_eq_map]
      intro t ht
      obtain ⟨m, hm, rfl⟩ := List.mem_map.mp ht
      exact ⟨h.string m.1, ih m hm (hms m hm)⟩

/-- The writer lets nothing through that the dialect refuses. -/
structure Encoder.Within (E : Encoder ν) (d : Dialect) : Prop where
  piece : E.PiecesWithin d
  num : ∀ n, E.NumberWithin d n

/-- A writer of proper elements and numbers writes proper trees. -/
theorem proper_encode {d : Dialect} (h : E.Within d) (v : Value ν) : (v.encode E).Proper d :=
  proper_encode_of h.piece (numbers_of_forall h.num v)

/-- What the writer writes is read back: each code unit as itself, each number as `f` of it. -/
structure Encoder.Inverts {μ : Type} (E : Encoder ν) (D : Decoder μ) (f : ν → μ) : Prop where
  piece : ∀ u, (E.piece u).decode D.hex = u
  num : ∀ n, D.num (E.num n) = f n

theorem Encoder.Inverts.string {μ : Type} {D : Decoder μ} {f : ν → μ} (h : E.Inverts D f)
    (s : List CodeUnit) : decodeString D.hex (E.string s) = s := by
  unfold decodeString Encoder.string
  rw [List.map_map]
  conv_rhs => rw [← List.map_id s]
  apply List.map_congr_left
  intro u _
  exact h.piece u

/-- Members of distinct names are put one after another. -/
theorem decodeMembers_distinct {μ : Type} {D : Decoder μ} (ms : List (List Piece × Ast))
    (acc : List (List CodeUnit × Value μ))
    (h : (acc.map Prod.fst ++ ms.map fun m => decodeString D.hex m.1).Nodup) :
    decodeMembers D acc ms = acc ++ ms.map fun m => (decodeString D.hex m.1, m.2.decode D) := by
  induction ms generalizing acc with
  | nil =>
      unfold decodeMembers
      simp
  | cons m ms ih =>
      obtain ⟨k, x⟩ := m
      have hk : decodeString D.hex k ∉ acc.map Prod.fst := by
        intro hmem
        have hdisj := (List.nodup_append.mp h).2.2
        exact hdisj _ hmem _ List.mem_cons_self rfl
      unfold decodeMembers
      rw [putKey_of_fresh _ hk, ih]
      · simp
      · simpa using h

/-! ## §4. The bytes of a body. -/

/-- A character is written as well-formed text, by the elements of its unit or its two units. -/
structure Encoder.Seamless (E : Encoder ν) : Prop where
  basic : ∀ u, isBasic u = true → WellFormed (E.piece u).text
  pair : ∀ u v, isHigh u = true → isLow v = true →
    WellFormed ((E.piece u).text ++ (E.piece v).text)

theorem Encoder.Seamless.string (h : E.Seamless) {s : List CodeUnit} (hs : WellFormed s) :
    CleanPieces (E.string s) := by
  apply (wellFormed_bracketed (by decide) (by decide)).mpr
  obtain ⟨cs, rfl⟩ := hs
  unfold Encoder.string
  induction cs with
  | nil => exact .nil
  | cons c cs ih =>
      rw [utf16_cons, List.map_append, List.flatMap_append]
      apply WellFormed.append _ ih
      rcases utf16Char_cases c with ⟨u, hu, hc⟩ | ⟨u, v, hu, hv, hc⟩
      · rw [hc]
        simpa using h.basic u hu
      · rw [hc]
        simpa using h.pair u v hu hv

/-- **Strings of well-formed Unicode are written as well-formed text.** -/
theorem clean_encode (h : E.Seamless) {v : Value ν} (hv : v.Unicode) : (v.encode E).Clean := by
  induction v using Value.induction with
  | null => trivial
  | bool b => trivial
  | num n => trivial
  | str s => exact h.string hv
  | arr xs ih =>
      have hxs := eachElem_iff.mp hv
      apply literalsElems_iff.mpr
      rw [encodeElems_eq_map]
      intro t ht
      obtain ⟨x, hx, rfl⟩ := List.mem_map.mp ht
      exact ih x hx (hxs x hx)
  | obj ms ih =>
      have hms := eachMember_iff.mp hv.2
      apply literalsMembers_iff.mpr
      rw [encodeMembers_eq_map]
      intro t ht
      obtain ⟨m, hm, rfl⟩ := List.mem_map.mp ht
      exact ⟨h.string (hms m hm).1, ih m hm (hms m hm).2⟩

/-- A character written as it stands, or as ASCII. -/
theorem wellFormed_piece {u : CodeUnit} (hu : isBasic u = true) {p : Piece}
    (hp : p = .plain u ∨ ∀ w ∈ p.text, w.toNat < 0x80) : WellFormed p.text := by
  rcases hp with rfl | hp
  · exact (wellFormed_cons_iff hu).mpr .nil
  · exact .of_ascii hp

end Facts

end CekatEvents.JsonText
