/-
  CekatEvents.JsonText.Lexer — executable readers for string literals and numbers.

  Each reader takes the longest token from the left of the text and returns it with what is left:

    * `pieces`  — the elements of a string literal after its opening quote;
    * `number`  — a number, with its optional fraction and exponent.

  Each is exact for the grammar: `pieces_sound`/`pieces_complete`, `number_sound`/`number_complete`.
  A number is read to its end only when nothing after it could continue it (`NumEnd`).
-/
import CekatEvents.JsonText.Syntax

namespace CekatEvents.JsonText

open CekatEvents.Encoding

/-! ## §1. Strings. -/

def pushPiece (p : Piece) (r : Option (List Piece × List CodeUnit)) :
    Option (List Piece × List CodeUnit) :=
  r.map fun q => (p :: q.1, q.2)

/-- The elements of a string literal after its opening quote, up to and with the closing one. -/
def pieces (d : Dialect) : List CodeUnit → Option (List Piece × List CodeUnit)
  | [] => none
  | u :: s =>
      if u = unit '"' then some ([], s)
      else if u = unit '\\' then
        match s with
        | [] => none
        | c :: s =>
            if c = unit 'u' then
              match s with
              | a :: b :: e :: f :: s =>
                  if d.hexOk a b e f then pushPiece (.hex a b e f) (pieces d s) else none
              | _ => none
            else if (shortEscape c).isSome then pushPiece (.short c) (pieces d s)
            else none
      else if isPlain u then pushPiece (.plain u) (pieces d s)
      else none

theorem pushPiece_eq_some {p : Piece} {r : Option (List Piece × List CodeUnit)}
    {ps : List Piece} {s : List CodeUnit} :
    pushPiece p r = some (ps, s) ↔ ∃ qs, r = some (qs, s) ∧ ps = p :: qs := by
  constructor
  · intro h
    simp only [pushPiece, Option.map_eq_some_iff, Prod.mk.injEq] at h
    obtain ⟨⟨qs, s'⟩, hr, hps, hs⟩ := h
    simp only at hps hs
    exact ⟨qs, by rw [hr, hs], hps.symm⟩
  · rintro ⟨qs, hr, rfl⟩
    rw [hr]; rfl

theorem PiecesOk.cons {d : Dialect} {p : Piece} {ps : List Piece} (hp : p.ok d = true)
    (h : PiecesOk d ps) : PiecesOk d (p :: ps) := by
  intro q hq
  rcases List.mem_cons.mp hq with rfl | hq
  · exact hp
  · exact h q hq

theorem quote_ne_backslash : unit '"' ≠ unit '\\' := by decide

@[simp] theorem pieces_quote (d : Dialect) (s : List CodeUnit) :
    pieces d (unit '"' :: s) = some ([], s) := by
  rw [pieces.eq_def]; simp

@[simp] theorem pieces_hex (d : Dialect) (a b e f : CodeUnit) (s : List CodeUnit) :
    pieces d (unit '\\' :: unit 'u' :: a :: b :: e :: f :: s)
      = if d.hexOk a b e f then pushPiece (.hex a b e f) (pieces d s) else none := by
  rw [pieces.eq_def]; simp [quote_ne_backslash.symm]

@[simp] theorem pieces_short (d : Dialect) {c : CodeUnit} (hc : c ≠ unit 'u')
    (s : List CodeUnit) :
    pieces d (unit '\\' :: c :: s)
      = if (shortEscape c).isSome then pushPiece (.short c) (pieces d s) else none := by
  rw [pieces.eq_def]; simp [quote_ne_backslash.symm, hc]

@[simp] theorem pieces_plain (d : Dialect) {u : CodeUnit} (hq : u ≠ unit '"')
    (hb : u ≠ unit '\\') (s : List CodeUnit) :
    pieces d (u :: s) = if isPlain u then pushPiece (.plain u) (pieces d s) else none := by
  rw [pieces.eq_def]; simp [hq, hb]

theorem pieces_sound {d : Dialect} {s r : List CodeUnit} {ps : List Piece}
    (h : pieces d s = some (ps, r)) :
    PiecesOk d ps ∧ s = ps.flatMap Piece.text ++ unit '"' :: r := by
  induction s using pieces.induct d generalizing ps with
  | case1 => simp [pieces] at h
  | case2 s =>
      simp only [pieces_quote, Option.some.injEq, Prod.mk.injEq] at h
      obtain ⟨rfl, rfl⟩ := h
      exact ⟨fun p hp => absurd hp List.not_mem_nil, rfl⟩
  | case3 => rw [pieces.eq_def] at h; simp [quote_ne_backslash.symm] at h
  | case4 a b e f s hx hne ih =>
      rw [pieces_hex, if_pos hx, pushPiece_eq_some] at h
      obtain ⟨qs, hq, rfl⟩ := h
      obtain ⟨hok, hs⟩ := ih hq
      exact ⟨hok.cons hx, by simp [Piece.text, hs]⟩
  | case5 a b e f s hx hne => rw [pieces_hex, if_neg hx] at h; simp at h
  | case6 s hshape hne =>
      -- fewer than four units left after `\u`
      rw [pieces.eq_def] at h
      simp only [hne, if_false, if_true] at h
      exact absurd h (by simp)
  | case7 c s hc hshort hne ih =>
      rw [pieces_short d hc, if_pos hshort, pushPiece_eq_some] at h
      obtain ⟨qs, hq, rfl⟩ := h
      obtain ⟨hok, hs⟩ := ih hq
      exact ⟨hok.cons hshort, by simp [Piece.text, hs]⟩
  | case8 c s hc hshort hne => rw [pieces_short d hc, if_neg hshort] at h; simp at h
  | case9 u s hu hb hplain ih =>
      rw [pieces_plain d hu hb, if_pos hplain, pushPiece_eq_some] at h
      obtain ⟨qs, hq, rfl⟩ := h
      obtain ⟨hok, hs⟩ := ih hq
      exact ⟨hok.cons hplain, by simp [Piece.text, hs]⟩
  | case10 u s hu hb hplain => rw [pieces_plain d hu hb, if_neg hplain] at h; simp at h

theorem isPlain_ne {u : CodeUnit} (h : isPlain u = true) : u ≠ unit '"' ∧ u ≠ unit '\\' := by
  simp only [isPlain, Bool.and_eq_true, bne_iff_ne, ne_eq] at h
  exact ⟨h.1.2, h.2⟩

theorem pieces_complete {d : Dialect} {ps : List Piece} (h : PiecesOk d ps) (r : List CodeUnit) :
    pieces d (ps.flatMap Piece.text ++ unit '"' :: r) = some (ps, r) := by
  induction ps with
  | nil => exact pieces_quote d r
  | cons p ps ih =>
      have hp := h p List.mem_cons_self
      have ih := ih fun q hq => h q (List.mem_cons_of_mem p hq)
      cases p with
      | plain u =>
          have hp : isPlain u = true := hp
          obtain ⟨hq, hb⟩ := isPlain_ne hp
          simp only [List.flatMap_cons, Piece.text, List.cons_append, List.nil_append]
          rw [pieces_plain d hq hb, if_pos hp, ih]; rfl
      | short c =>
          have hp : (shortEscape c).isSome = true := hp
          have hc : c ≠ unit 'u' := by
            rintro rfl
            revert hp; decide
          simp only [List.flatMap_cons, Piece.text, List.cons_append, List.nil_append]
          rw [pieces_short d hc, if_pos hp, ih]; rfl
      | hex a b e f =>
          have hp : d.hexOk a b e f = true := hp
          simp only [List.flatMap_cons, Piece.text, List.cons_append, List.nil_append]
          rw [pieces_hex, if_pos hp, ih]; rfl

/-! ## §2. Numbers. -/

/-- The text does not start with a digit. -/
def NoDigit (s : List CodeUnit) : Prop := ∀ u ∈ s.head?, isDigit u = false

/-- The text starts with nothing that could continue a number. -/
def NumEnd (s : List CodeUnit) : Prop :=
  ∀ u ∈ s.head?, isDigit u = false ∧ u ≠ unit '.' ∧ u ≠ unit 'e' ∧ u ≠ unit 'E'

/-- A longest run of digits, when there is one. -/
def someDigits (s : List CodeUnit) : Option (List CodeUnit × List CodeUnit) :=
  if s.takeWhile isDigit = [] then none else some (s.takeWhile isDigit, s.dropWhile isDigit)

def intPart : List CodeUnit → Option (List CodeUnit × List CodeUnit)
  | [] => none
  | u :: s => if u = unit '0' then some ([u], s) else someDigits (u :: s)

def fracPart : List CodeUnit → Option (Option (List CodeUnit) × List CodeUnit)
  | [] => some (none, [])
  | u :: s =>
      if u = unit '.' then (someDigits s).map fun r => (some r.1, r.2) else some (none, u :: s)

def expSign : List CodeUnit → Option CodeUnit × List CodeUnit
  | [] => (none, [])
  | u :: s => if u = unit '+' ∨ u = unit '-' then (some u, s) else (none, u :: s)

def expPart : List CodeUnit → Option (Option Exponent × List CodeUnit)
  | [] => some (none, [])
  | u :: s =>
      if u = unit 'e' ∨ u = unit 'E' then
        (someDigits (expSign s).2).map fun r => (some ⟨u, (expSign s).1, r.1⟩, r.2)
      else some (none, u :: s)

def minus : List CodeUnit → Bool × List CodeUnit
  | [] => (false, [])
  | u :: s => if u = unit '-' then (true, s) else (false, u :: s)

def number (d : Dialect) (s : List CodeUnit) : Option (Numeral × List CodeUnit) := do
  let i ← intPart (minus s).2
  let f ← fracPart i.2
  let e ← expPart f.2
  if d.numeralOk ⟨(minus s).1, i.1, f.1, e.1⟩ then
    some (⟨(minus s).1, i.1, f.1, e.1⟩, e.2)
  else none

theorem someDigits_sound {s ds r : List CodeUnit} (h : someDigits s = some (ds, r)) :
    Digits ds ∧ s = ds ++ r := by
  unfold someDigits at h
  by_cases hne : s.takeWhile isDigit = []
  · rw [if_pos hne] at h; simp at h
  · rw [if_neg hne, Option.some.injEq, Prod.mk.injEq] at h
    obtain ⟨rfl, rfl⟩ := h
    exact ⟨⟨hne, fun u hu => List.mem_takeWhile_imp hu⟩,
      (List.takeWhile_append_dropWhile).symm⟩

theorem takeWhile_digits {ds r : List CodeUnit} (hd : ∀ u ∈ ds, isDigit u = true)
    (hr : NoDigit r) :
    (ds ++ r).takeWhile isDigit = ds ∧ (ds ++ r).dropWhile isDigit = r := by
  induction ds with
  | nil =>
      cases r with
      | nil => exact ⟨rfl, rfl⟩
      | cons u r =>
          have hu : isDigit u = false := hr u (by simp)
          simp [hu]
  | cons u ds ih =>
      have hu : isDigit u = true := hd u List.mem_cons_self
      have ih := ih fun v hv => hd v (List.mem_cons_of_mem u hv)
      simp [hu, ih.1, ih.2]

theorem someDigits_complete {ds r : List CodeUnit} (hd : Digits ds) (hr : NoDigit r) :
    someDigits (ds ++ r) = some (ds, r) := by
  obtain ⟨htake, hdrop⟩ := takeWhile_digits hd.2 hr
  unfold someDigits
  rw [htake, hdrop, if_neg hd.1]

theorem intPart_sound {s ds r : List CodeUnit} (h : intPart s = some (ds, r)) :
    IntPart ds ∧ s = ds ++ r := by
  cases s with
  | nil => simp [intPart] at h
  | cons u s =>
      rw [intPart] at h
      by_cases hu : u = unit '0'
      · rw [if_pos hu, Option.some.injEq, Prod.mk.injEq] at h
        obtain ⟨rfl, rfl⟩ := h
        exact ⟨.inl (by rw [hu]), rfl⟩
      · rw [if_neg hu] at h
        obtain ⟨hds, hs⟩ := someDigits_sound h
        refine ⟨.inr ⟨hds, ?_⟩, hs⟩
        cases ds with
        | nil => exact absurd rfl hds.1
        | cons v ds =>
            have huv : u = v := (List.cons.inj hs).1
            simpa [← huv] using hu

theorem intPart_complete {ds r : List CodeUnit} (hd : IntPart ds) (hr : NoDigit r) :
    intPart (ds ++ r) = some (ds, r) := by
  rcases hd with rfl | ⟨hds, hhead⟩
  · simp [intPart]
  · cases ds with
    | nil => exact absurd rfl hds.1
    | cons v ds =>
        have hv : v ≠ unit '0' := by simpa using hhead
        show intPart (v :: (ds ++ r)) = _
        rw [intPart, if_neg hv]
        exact someDigits_complete hds hr

theorem fracPart_sound {s r : List CodeUnit} {f : Option (List CodeUnit)}
    (h : fracPart s = some (f, r)) : (∀ ds ∈ f, Digits ds) ∧ s = fracText f ++ r := by
  cases s with
  | nil =>
      simp only [fracPart, Option.some.injEq, Prod.mk.injEq] at h
      obtain ⟨rfl, rfl⟩ := h
      exact ⟨fun ds hds => by simp at hds, rfl⟩
  | cons u s =>
      rw [fracPart] at h
      by_cases hu : u = unit '.'
      · rw [if_pos hu] at h
        simp only [Option.map_eq_some_iff, Prod.mk.injEq] at h
        obtain ⟨⟨ds, r'⟩, hr, rfl, rfl⟩ := h
        obtain ⟨hds, hs⟩ := someDigits_sound hr
        refine ⟨fun es hes => ?_, by simp [fracText, hu, hs]⟩
        cases hes
        exact hds
      · rw [if_neg hu, Option.some.injEq, Prod.mk.injEq] at h
        obtain ⟨rfl, rfl⟩ := h
        exact ⟨fun ds hds => by simp at hds, rfl⟩

theorem fracPart_complete {f : Option (List CodeUnit)} {r : List CodeUnit}
    (hf : ∀ ds ∈ f, Digits ds) (hr : NoDigit r) (hdot : ∀ u ∈ r.head?, u ≠ unit '.') :
    fracPart (fracText f ++ r) = some (f, r) := by
  cases f with
  | none =>
      cases r with
      | nil => rfl
      | cons u r =>
          have hu : u ≠ unit '.' := hdot u (by simp)
          simp [fracText, fracPart, hu]
  | some ds =>
      have hds := someDigits_complete (hf ds rfl) hr
      simp [fracText, fracPart, hds]

theorem expSign_split (s : List CodeUnit) :
    (∀ u ∈ (expSign s).1, u = unit '+' ∨ u = unit '-') ∧
      s = (expSign s).1.toList ++ (expSign s).2 := by
  cases s with
  | nil => exact ⟨fun u hu => by simp [expSign] at hu, rfl⟩
  | cons u s =>
      rw [expSign]
      by_cases hu : u = unit '+' ∨ u = unit '-'
      · rw [if_pos hu]
        refine ⟨fun v hv => ?_, rfl⟩
        cases hv
        exact hu
      · rw [if_neg hu]
        exact ⟨fun v hv => by simp at hv, rfl⟩

theorem expSign_complete {sg : Option CodeUnit} {s : List CodeUnit}
    (hsg : ∀ u ∈ sg, u = unit '+' ∨ u = unit '-')
    (hs : ∀ u ∈ s.head?, isDigit u = true) : expSign (sg.toList ++ s) = (sg, s) := by
  cases sg with
  | some u => simp [expSign, hsg u rfl]
  | none =>
      cases s with
      | nil => rfl
      | cons u s =>
          have hu : isDigit u = true := hs u (by simp)
          have hplus : u ≠ unit '+' := by rintro rfl; revert hu; decide
          have hminus : u ≠ unit '-' := by rintro rfl; revert hu; decide
          simp [expSign, hplus, hminus]

theorem expPart_sound {s r : List CodeUnit} {e : Option Exponent}
    (h : expPart s = some (e, r)) : (∀ x ∈ e, x.WellFormed) ∧ s = expText e ++ r := by
  cases s with
  | nil =>
      simp only [expPart, Option.some.injEq, Prod.mk.injEq] at h
      obtain ⟨rfl, rfl⟩ := h
      exact ⟨fun x hx => by simp at hx, rfl⟩
  | cons u s =>
      rw [expPart] at h
      by_cases hu : u = unit 'e' ∨ u = unit 'E'
      · rw [if_pos hu] at h
        simp only [Option.map_eq_some_iff, Prod.mk.injEq] at h
        obtain ⟨⟨ds, r'⟩, hr, rfl, rfl⟩ := h
        obtain ⟨hds, hs⟩ := someDigits_sound hr
        obtain ⟨hsg, hsplit⟩ := expSign_split s
        refine ⟨fun x hx => ?_, ?_⟩
        · cases hx
          exact ⟨hu, hsg, hds⟩
        · rw [hs] at hsplit
          simpa [expText] using hsplit
      · rw [if_neg hu, Option.some.injEq, Prod.mk.injEq] at h
        obtain ⟨rfl, rfl⟩ := h
        exact ⟨fun x hx => by simp at hx, rfl⟩

theorem Digits.head {ds r : List CodeUnit} (h : Digits ds) :
    ∀ u ∈ (ds ++ r).head?, isDigit u = true := by
  cases ds with
  | nil => exact absurd rfl h.1
  | cons v ds =>
      intro u hu
      simp only [List.cons_append, List.head?_cons, Option.mem_def, Option.some.injEq] at hu
      exact hu ▸ h.2 v List.mem_cons_self

theorem NumEnd.noDigit {s : List CodeUnit} (h : NumEnd s) : NoDigit s := fun u hu => (h u hu).1

theorem expPart_complete {e : Option Exponent} {r : List CodeUnit}
    (he : ∀ x ∈ e, x.WellFormed) (hr : NumEnd r) :
    expPart (expText e ++ r) = some (e, r) := by
  cases e with
  | none =>
      cases r with
      | nil => rfl
      | cons u r =>
          have hu := hr u (by simp)
          simp [expText, expPart, hu.2.2.1, hu.2.2.2]
  | some x =>
      obtain ⟨hm, hsg, hds⟩ := he x rfl
      have hsign := expSign_complete hsg (Digits.head (r := r) hds)
      have hdig := someDigits_complete hds hr.noDigit
      simp [expText, expPart, hm, hsign, hdig]

theorem minus_split (s : List CodeUnit) :
    s = (if (minus s).1 then [unit '-'] else []) ++ (minus s).2 := by
  cases s with
  | nil => rfl
  | cons u s =>
      rw [minus]
      by_cases hu : u = unit '-'
      · rw [if_pos hu]; simp [hu]
      · rw [if_neg hu]; rfl

theorem number_sound {d : Dialect} {s r : List CodeUnit} {n : Numeral}
    (h : number d s = some (n, r)) :
    n.WellFormed ∧ d.numeralOk n = true ∧ s = n.text ++ r := by
  simp only [number, Option.bind_eq_bind, Option.bind_eq_some_iff] at h
  obtain ⟨⟨i, s₁⟩, hi, ⟨f, s₂⟩, hf, ⟨e, s₃⟩, he, h⟩ := h
  by_cases hok : d.numeralOk ⟨(minus s).1, i, f, e⟩ = true
  · rw [if_pos hok, Option.some.injEq, Prod.mk.injEq] at h
    obtain ⟨rfl, rfl⟩ := h
    obtain ⟨hiw, his⟩ := intPart_sound hi
    obtain ⟨hfw, hfs⟩ := fracPart_sound hf
    obtain ⟨hew, hes⟩ := expPart_sound he
    refine ⟨⟨hiw, hfw, hew⟩, hok, ?_⟩
    simp only at hfs hes
    calc s = (if (minus s).1 then [unit '-'] else []) ++ (minus s).2 := minus_split s
      _ = (if (minus s).1 then [unit '-'] else [])
            ++ (i ++ (fracText f ++ (expText e ++ s₃))) := by rw [his, hfs, hes]
      _ = _ := by simp [Numeral.text]
  · rw [if_neg hok] at h; simp at h

theorem expText_head {e : Option Exponent} (he : ∀ x ∈ e, x.WellFormed) {r : List CodeUnit}
    (hr : NumEnd r) :
    NoDigit (expText e ++ r) ∧ ∀ u ∈ (expText e ++ r).head?, u ≠ unit '.' := by
  cases e with
  | none => exact ⟨hr.noDigit, fun u hu => (hr u hu).2.1⟩
  | some x =>
      obtain ⟨hm, -, -⟩ := he x rfl
      refine ⟨fun u hu => ?_, fun u hu => ?_⟩ <;>
        simp only [expText, List.cons_append, List.head?_cons, Option.mem_def,
          Option.some.injEq] at hu <;>
        subst hu <;> rcases hm with hm | hm <;> rw [hm] <;> decide

theorem fracText_head {f : Option (List CodeUnit)} {s : List CodeUnit} (hs : NoDigit s) :
    NoDigit (fracText f ++ s) := by
  cases f with
  | none => exact hs
  | some ds =>
      intro u hu
      simp only [fracText, List.cons_append, List.head?_cons, Option.mem_def,
        Option.some.injEq] at hu
      subst hu; decide

theorem IntPart.head {ds r : List CodeUnit} (h : IntPart ds) :
    ∀ u ∈ (ds ++ r).head?, isDigit u = true := by
  rcases h with rfl | ⟨hds, -⟩
  · intro u hu
    simp only [List.cons_append, List.head?_cons, Option.mem_def, Option.some.injEq] at hu
    subst hu; decide
  · exact hds.head

theorem minus_complete (neg : Bool) {s : List CodeUnit}
    (hs : ∀ u ∈ s.head?, isDigit u = true) :
    minus ((if neg then [unit '-'] else []) ++ s) = (neg, s) := by
  cases neg with
  | true => simp [minus]
  | false =>
      cases s with
      | nil => rfl
      | cons u s =>
          have hu : isDigit u = true := hs u (by simp)
          have hne : u ≠ unit '-' := by rintro rfl; revert hu; decide
          simp [minus, hne]

theorem number_complete {d : Dialect} {n : Numeral} (hn : n.WellFormed)
    (hok : d.numeralOk n = true) {r : List CodeUnit} (hr : NumEnd r) :
    number d (n.text ++ r) = some (n, r) := by
  obtain ⟨neg, int, frac, exp⟩ := n
  obtain ⟨hi, hf, he⟩ := hn
  simp only at hi hf he
  obtain ⟨hexp, hdot⟩ := expText_head he hr
  have htext : Numeral.text ⟨neg, int, frac, exp⟩ ++ r
      = (if neg then [unit '-'] else []) ++ (int ++ (fracText frac ++ (expText exp ++ r))) := by
    simp [Numeral.text]
  have hmin := minus_complete neg (hi.head (r := fracText frac ++ (expText exp ++ r)))
  have hint := intPart_complete hi (fracText_head (f := frac) hexp)
  have hfrac := fracPart_complete hf hexp hdot
  have hexpo := expPart_complete he hr
  rw [htext]
  simp [number, hmin, hint, hfrac, hexpo, hok]

end CekatEvents.JsonText
