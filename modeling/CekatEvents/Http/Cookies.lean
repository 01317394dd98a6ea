/-
  CekatEvents.Http.Cookies — the pairs of a cookie header, over any type of characters.

  A header is cut at its semicolons, and a pair at its first equals sign; names and values are trimmed,
  possibly of different white space.  Every language has characters of its own, so the functions take
  the type of characters as a parameter:

    * `firstValue`               — the first value of a name that is not blank;
    * `firstValue_eq_some_iff`   — which value that is;
    * `firstValue_trim`          — white space around a header makes no difference;
    * `firstValue_map`           — a reading is the same in every representation of the characters.
-/
import CekatEvents.Encoding.Space

namespace CekatEvents.Http

open CekatEvents.Encoding

/-! ## §1. Pairs. -/

section Pairs

variable {α : Type} [DecidableEq α] (nameSpace space : α → Bool) (semicolon equals : α)

/-- The trimmed value of a pair of the name; nothing when there is no equals sign, the pair is of another
    name, or the value is blank. -/
def pairValue (name pair : List α) : Option (List α) :=
  if equals ∈ pair ∧ trim nameSpace (pair.takeWhile (· != equals)) = name then
    trimToNone space (some ((pair.dropWhile (· != equals)).drop 1))
  else none

/-- The value of the first pair that has one. -/
def firstValue (name header : List α) : Option (List α) :=
  (header.splitOn semicolon).findSome? (pairValue nameSpace space equals name)

variable {nameSpace space semicolon equals}

/-- The same as a test and an early return. -/
theorem pairValue_eq_ite (nameSpace space : α → Bool) (equals : α) (name pair : List α) :
    (if !pair.contains equals || trim nameSpace (pair.takeWhile fun c => c != equals) != name then none
      else trimToNone space (some ((pair.dropWhile fun c => c != equals).drop 1))) =
        pairValue nameSpace space equals name pair := by
  unfold pairValue
  by_cases hmem : equals ∈ pair <;>
    by_cases hname : trim nameSpace (pair.takeWhile fun c => c != equals) = name <;>
    simp [hmem, hname]

/-- A list is cut at the first occurrence of an element. -/
theorem takeWhile_dropWhile_ne {x : α} {before : List α} (after : List α) (h : x ∉ before) :
    (before ++ x :: after).takeWhile (· != x) = before ∧
      ((before ++ x :: after).dropWhile (· != x)).drop 1 = after := by
  have hne : ∀ y ∈ before, (y != x) = true := by
    intro y hy
    rw [bne_iff_ne]
    rintro rfl
    exact h hy
  constructor
  · rw [List.takeWhile_append_of_pos hne]
    simp
  · rw [List.dropWhile_append_of_pos hne]
    simp

/-- **The value of a pair**: what is trimmed after the first equals sign, when what is trimmed before it is
    the name. -/
theorem pairValue_eq_some_iff {name pair v : List α} :
    pairValue nameSpace space equals name pair = some v ↔
      ∃ before after, pair = before ++ equals :: after ∧ equals ∉ before ∧
        trim nameSpace before = name ∧ trim space after = v ∧ v ≠ [] := by
  constructor
  · intro h
    unfold pairValue at h
    split_ifs at h with hpair
    obtain ⟨before, after, rfl, hbefore⟩ := List.eq_append_cons_of_mem hpair.1
    obtain ⟨htake, hdrop⟩ := takeWhile_dropWhile_ne after hbefore
    rw [hdrop, trimToNone_eq_some_iff] at h
    obtain ⟨hne, raw, hraw, htrim⟩ := h
    cases hraw
    have hname := hpair.2
    rw [htake] at hname
    exact ⟨before, after, rfl, hbefore, hname, htrim, hne⟩
  · intro h
    obtain ⟨before, after, rfl, hbefore, hname, hvalue, hne⟩ := h
    obtain ⟨htake, hdrop⟩ := takeWhile_dropWhile_ne after hbefore
    have hmem : equals ∈ before ++ equals :: after :=
      List.mem_append_right before List.mem_cons_self
    unfold pairValue
    rw [htake, hdrop, if_pos ⟨hmem, hname⟩]
    exact trimToNone_eq_some_iff.mpr ⟨hne, after, rfl, hvalue⟩

/-- **The value of a header** is that of the first pair that has one. -/
theorem firstValue_eq_some_iff {name header v : List α} :
    firstValue nameSpace space semicolon equals name header = some v ↔
      ∃ earlier pair later, header.splitOn semicolon = earlier ++ pair :: later ∧
        pairValue nameSpace space equals name pair = some v ∧
        ∀ other ∈ earlier, pairValue nameSpace space equals name other = none := by
  unfold firstValue
  exact List.findSome?_eq_some_iff

end Pairs

/-! ## §2. Cuts. -/

section Cuts

variable {α : Type} [DecidableEq α]

/-- Where two lists meet, the last piece of one and the first of the other are one piece. -/
theorem splitOn_append (x : α) (s t : List α) :
    ∃ init a b rest, s.splitOn x = init ++ [a] ∧ t.splitOn x = b :: rest ∧
      (s ++ t).splitOn x = init ++ (a ++ b) :: rest := by
  obtain ⟨b, rest, hb⟩ := List.exists_cons_of_ne_nil (List.splitOn_ne_nil x t)
  induction s with
  | nil => exact ⟨[], [], b, rest, rfl, hb, hb⟩
  | cons c s ih =>
      obtain ⟨init, a, b', rest', hs, ht, happend⟩ := ih
      rw [List.cons_append, List.splitOn_cons_eq_if_modifyHead, List.splitOn_cons_eq_if_modifyHead, hs,
        happend]
      by_cases hc : (c == x) = true
      · rw [if_pos hc, if_pos hc]
        exact ⟨[] :: init, a, b', rest', rfl, ht, rfl⟩
      · rw [if_neg hc, if_neg hc]
        cases init with
        | nil => exact ⟨[], c :: a, b', rest', rfl, ht, rfl⟩
        | cons piece init => exact ⟨(c :: piece) :: init, a, b', rest', rfl, ht, rfl⟩

variable {space : α → Bool} {semicolon equals : α} {name : List α}

/-- White space in front of a pair makes no difference. -/
theorem pairValue_append_left (hequals : space equals = false) {a : List α}
    (ha : isBlank space a = true) (pair : List α) :
    pairValue space space equals name (a ++ pair) = pairValue space space equals name pair := by
  have hne : ∀ c ∈ a, (c != equals) = true := by
    intro c hc
    rw [bne_iff_ne]
    rintro rfl
    rw [List.all_eq_true.mp ha c hc] at hequals
    cases hequals
  have hmem : equals ∈ a ++ pair ↔ equals ∈ pair := by
    rw [List.mem_append, or_iff_right]
    intro hmem
    exact absurd rfl (bne_iff_ne.mp (hne equals hmem))
  unfold pairValue
  rw [List.takeWhile_append_of_pos hne, List.dropWhile_append_of_pos hne, trim_append_left ha]
  simp only [hmem]

/-- Nor does white space behind it. -/
theorem pairValue_append_right (hequals : space equals = false) {b : List α}
    (hb : isBlank space b = true) (pair : List α) :
    pairValue space space equals name (pair ++ b) = pairValue space space equals name pair := by
  by_cases hmem : equals ∈ pair
  · obtain ⟨before, after, rfl, hbefore⟩ := List.eq_append_cons_of_mem hmem
    obtain ⟨htake, hdrop⟩ := takeWhile_dropWhile_ne after hbefore
    obtain ⟨htake', hdrop'⟩ := takeWhile_dropWhile_ne (after ++ b) hbefore
    have hmem' : equals ∈ before ++ equals :: (after ++ b) :=
      List.mem_append_right before List.mem_cons_self
    unfold pairValue trimToNone
    rw [List.append_assoc, List.cons_append, htake, hdrop, htake', hdrop', Option.map_some,
      Option.map_some, trim_append_right hb]
    simp only [hmem, hmem']
  · have hnot : equals ∉ pair ++ b := by
      intro h
      rcases List.mem_append.mp h with h | h
      · exact hmem h
      · rw [List.all_eq_true.mp hb equals h] at hequals
        cases hequals
    unfold pairValue
    rw [if_neg fun h => hnot h.1, if_neg fun h => hmem h.1]

/-- A pair may be trimmed before it is read. -/
theorem pairValue_trim (hequals : space equals = false) (pair : List α) :
    pairValue space space equals name (trim space pair) = pairValue space space equals name pair := by
  obtain ⟨a, b, hpair, ha, hb⟩ := trim_spec space pair
  conv_rhs => rw [hpair, pairValue_append_left hequals ha, pairValue_append_right hequals hb]

/-- The name of a pair is the same when the pair is trimmed. -/
theorem trim_takeWhile_trim (hequals : space equals = false) {pair : List α} (hmem : equals ∈ pair) :
    trim space ((trim space pair).takeWhile (· != equals)) = trim space (pair.takeWhile (· != equals)) := by
  obtain ⟨a, b, hpair, ha, hb⟩ := trim_spec space pair
  have hnot : ∀ s : List α, isBlank space s = true → equals ∉ s := by
    intro s hs hin
    rw [List.all_eq_true.mp hs equals hin] at hequals
    cases hequals
  have hne : ∀ c ∈ a, (c != equals) = true := by
    intro c hc
    rw [bne_iff_ne]
    rintro rfl
    exact hnot a ha hc
  have hinner : equals ∈ trim space pair := by
    rw [hpair, List.mem_append, List.mem_append] at hmem
    rcases hmem with hmem | hmem | hmem
    · exact absurd hmem (hnot a ha)
    · exact hmem
    · exact absurd hmem (hnot b hb)
  obtain ⟨before, after, hbefore, hfirst⟩ := List.eq_append_cons_of_mem hinner
  conv_rhs => rw [hpair, List.takeWhile_append_of_pos hne, trim_append_left ha, hbefore,
    List.append_assoc, List.cons_append, (takeWhile_dropWhile_ne (after ++ b) hfirst).1]
  rw [hbefore, (takeWhile_dropWhile_ne after hfirst).1]

/-- So may a header. -/
theorem firstValue_trim (hequals : space equals = false) (hsemicolon : space semicolon = false)
    (header : List α) :
    firstValue space space semicolon equals name (trim space header)
      = firstValue space space semicolon equals name header := by
  have hsingle : ∀ s : List α, isBlank space s = true → s.splitOn semicolon = [s] := by
    intro s hs
    apply List.splitOn_eq_singleton
    intro hmem
    rw [List.all_eq_true.mp hs semicolon hmem] at hsemicolon
    cases hsemicolon
  obtain ⟨a, b, hheader, ha, hb⟩ := trim_spec space header
  obtain ⟨init, last, b', rest, hmiddle, hback, happend⟩ := splitOn_append semicolon (trim space header) b
  rw [hsingle b hb] at hback
  obtain ⟨rfl, rfl⟩ := List.cons_eq_cons.mp hback
  obtain ⟨earlier, a', first, pieces, hfront, hpieces, hall⟩ :=
    splitOn_append semicolon a (trim space header ++ b)
  rw [hsingle a ha] at hfront
  obtain ⟨rfl, rfl⟩ : earlier = [] ∧ a = a' := by
    cases earlier with
    | nil => exact ⟨rfl, List.singleton_inj.mp hfront⟩
    | cons piece earlier => simp at hfront
  -- a piece may be replaced by one of the same value
  have hreplace : ∀ {p p' : List α} (ps : List (List α)), pairValue space space equals name p
      = pairValue space space equals name p' → (p :: ps).findSome? (pairValue space space equals name)
        = (p' :: ps).findSome? (pairValue space space equals name) := by
    intro p p' ps hsame
    rw [List.findSome?_cons, List.findSome?_cons, hsame]
  have hwhole : header.splitOn semicolon = (a ++ first) :: pieces := by
    conv_lhs => rw [hheader, hall, List.nil_append]
  unfold firstValue
  rw [hwhole, hreplace pieces (pairValue_append_left hequals ha first), ← hpieces, happend, hmiddle,
    List.findSome?_append, List.findSome?_append,
    hreplace [] (pairValue_append_right hequals hb last)]

end Cuts

/-! ## §3. Representations. -/

section Representations

variable {α β : Type} [DecidableEq α] [DecidableEq β] {f : α → β} (hf : Function.Injective f)

include hf

theorem splitOn_map (x : α) (s : List α) :
    (s.map f).splitOn (f x) = (s.splitOn x).map (List.map f) := by
  induction s with
  | nil => rfl
  | cons c s ih =>
      have hbeq : (f c == f x) = (c == x) := by
        rw [Bool.eq_iff_iff, beq_iff_eq, beq_iff_eq]
        exact hf.eq_iff
      rw [List.map_cons, List.splitOn_cons_eq_if_modifyHead, List.splitOn_cons_eq_if_modifyHead, hbeq, ih]
      split_ifs
      · rfl
      · cases s.splitOn x with
        | nil => rfl
        | cons piece pieces => rfl

variable {nameSpace space : α → Bool} {nameSpace' space' : β → Bool}
  (hname : ∀ a, nameSpace' (f a) = nameSpace a) (hspace : ∀ a, space' (f a) = space a)

include hname hspace

omit [DecidableEq α] [DecidableEq β] hf hname in
theorem trimToNone_map (s : List α) :
    trimToNone space' (some (s.map f)) = (trimToNone space (some s)).map (List.map f) := by
  unfold trimToNone
  rw [Option.map_some, Option.map_some, trim_map, funext hspace]
  cases trim space s with
  | nil => rfl
  | cons c cs => rfl

theorem pairValue_map (equals : α) (name pair : List α) :
    pairValue nameSpace' space' (f equals) (name.map f) (pair.map f) =
      (pairValue nameSpace space equals name pair).map (List.map f) := by
  have hbne : ((fun b => b != f equals) ∘ f) = fun a => a != equals := by
    funext a
    show (f a != f equals) = (a != equals)
    rw [Bool.eq_iff_iff, bne_iff_ne, bne_iff_ne]
    exact hf.ne_iff
  have hcond : (f equals ∈ pair.map f ∧
        trim nameSpace' ((pair.map f).takeWhile (· != f equals)) = name.map f) ↔
      (equals ∈ pair ∧ trim nameSpace (pair.takeWhile (· != equals)) = name) := by
    rw [List.mem_map_of_injective hf, List.takeWhile_map, trim_map, funext hname,
      (List.map_injective_iff.mpr hf).eq_iff, hbne]
  unfold pairValue
  simp only [hcond]
  split_ifs
  · rw [List.dropWhile_map, hbne, ← List.map_drop]
    exact trimToNone_map hspace _
  · rfl

/-- **A header is read alike in every representation.** -/
theorem firstValue_map (semicolon equals : α) (name header : List α) :
    firstValue nameSpace' space' (f semicolon) (f equals) (name.map f) (header.map f) =
      (firstValue nameSpace space semicolon equals name header).map (List.map f) := by
  unfold firstValue
  rw [splitOn_map hf, List.findSome?_map, List.map_findSome?]
  congr 1
  funext pair
  exact pairValue_map hf hname hspace equals name pair

end Representations

end CekatEvents.Http
