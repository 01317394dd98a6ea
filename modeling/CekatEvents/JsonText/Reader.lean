/-
  CekatEvents.JsonText.Reader — an executable reader for the grammar, with its exactness.

  `read d n text` reads `text` from the left and returns its syntax, or the first fault met:
  `malformed` where the grammar is left, `tooDeep` at an opening bracket that would nest more than
  `n` containers.  The library parsers of the modelled languages are instances of it; the
  hand-written one is compared with its grammar.

  A reader of one kind of item is described by `Reads item P Q`: it returns `x` exactly on the texts
  `P x` and reports `tooDeep` exactly on the texts `Q`.  `sequence`, `member` and `value` are each
  shown to carry such a description from the readers they are built of.

  Main results:
    * `read_ok_iff`      — what is read is exactly a text of the grammar that nests within the bound;
    * `read_tooDeep_iff` — `tooDeep` is reported exactly where a further bracket opens;
    * `text_unique`      — a text spells one tree.
-/
import CekatEvents.JsonText.Lexer

namespace CekatEvents.JsonText

open CekatEvents.Encoding

/-- Why reading stopped. -/
inductive Fault where
  | malformed
  | tooDeep
  deriving DecidableEq, Repr

/-- A reader of one item from the left of a text. -/
abbrev ItemReader (α : Type) := List CodeUnit → Except Fault (α × List CodeUnit)

/-! ## §1. The reader. -/

/-- A constant the text starts with. -/
def literal (d : Dialect) (s : List CodeUnit) : Option (Ast × List CodeUnit) :=
  (constants d).findSome? fun c => if c.1 <+: s then some (c.2, s.drop c.1.length) else none

/-- A constant or a number. -/
def scalar (d : Dialect) : ItemReader Ast := fun s =>
  match literal d s with
  | some r => .ok r
  | none =>
      match number d s with
      | some (n, r) => .ok (.num n, r)
      | none => .error .malformed

/-- Items separated by commas up to the closing bracket; the second argument bounds their number. -/
def sequence {α : Type} (item : ItemReader α) (close : CodeUnit) :
    Nat → ItemReader (List α)
  | 0, _ => .error .malformed
  | k + 1, s =>
      match item (skipWs s) with
      | .error e => .error e
      | .ok (x, r) =>
          match skipWs r with
          | [] => .error .malformed
          | v :: r =>
              if v = close then .ok ([x], r)
              else if v = unit ',' then
                match sequence item close k r with
                | .error e => .error e
                | .ok (xs, r) => .ok (x :: xs, r)
              else .error .malformed

/-- What stands between two brackets: nothing, or a sequence. -/
def bracketed {α : Type} (item : ItemReader α) (close : CodeUnit) : ItemReader (List α) := fun s =>
  match skipWs s with
  | [] => .error .malformed
  | v :: r => if v = close then .ok ([], r) else sequence item close (s.length + 1) s

/-- A member of an object. -/
def member (d : Dialect) (value : ItemReader Ast) : ItemReader (List Piece × Ast)
  | [] => .error .malformed
  | u :: s =>
      if u = unit '"' then
        match pieces d s with
        | none => .error .malformed
        | some (k, r) =>
            match skipWs r with
            | [] => .error .malformed
            | v :: r =>
                if v = unit ':' then
                  match value (skipWs r) with
                  | .error e => .error e
                  | .ok (t, r) => .ok ((k, t), r)
                else .error .malformed
      else .error .malformed

/-- One value, given the reader of the values inside it; `none` where no container may open. -/
def valueWith (d : Dialect) (inner : Option (ItemReader Ast)) : ItemReader Ast
  | [] => .error .malformed
  | u :: s =>
      if u = unit '"' then
        match pieces d s with
        | some (ps, r) => .ok (.str ps, r)
        | none => .error .malformed
      else if u = unit '[' then
        match inner with
        | none => .error .tooDeep
        | some value => (bracketed value (unit ']') s).map fun r => (.arr r.1, r.2)
      else if u = unit '{' then
        match inner with
        | none => .error .tooDeep
        | some value => (bracketed (member d value) (unit '}') s).map fun r => (.obj r.1, r.2)
      else scalar d (u :: s)

/-- One value in which at most `n` containers nest. -/
def value (d : Dialect) : Nat → ItemReader Ast
  | 0 => valueWith d none
  | n + 1 => valueWith d (some (value d n))

/-- **A whole text.** -/
def read (d : Dialect) (n : Nat) (text : List CodeUnit) : Except Fault Ast :=
  match value d n (skipWs text) with
  | .error e => .error e
  | .ok (t, r) => if skipWs r = [] then .ok t else .error .malformed

/-! ## §2. Descriptions of readers. -/

/-- Some item from the left is followed, within the grammar, by a text of `Q`. -/
inductive LeadsTo {α : Type} (P : α → List CodeUnit → Prop) (Q : List CodeUnit → Prop) :
    List CodeUnit → Prop where
  | here {a s : List CodeUnit} : Ws a → Q s → LeadsTo P Q (a ++ s)
  | later {a t b s : List CodeUnit} {x : α} : Ws a → P x t → Ws b → LeadsTo P Q s →
      LeadsTo P Q (a ++ (t ++ (b ++ unit ',' :: s)))

/-- A text that starts with a unit that opens an item. -/
def Opens (s : List CodeUnit) : Prop :=
  ∃ v r, s = v :: r ∧ isWs v = false ∧ v ≠ unit ']' ∧ v ≠ unit '}'

/-- The reader returns `x` exactly on the texts of `P x`, and reports `tooDeep` exactly on `Q`. -/
structure Reads {α : Type} (item : ItemReader α) (P : α → List CodeUnit → Prop)
    (Q : List CodeUnit → Prop) : Prop where
  sound : ∀ {s x r}, item s = .ok (x, r) → ∃ t, P x t ∧ s = t ++ r
  complete : ∀ {x t}, P x t → ∀ {r}, NumEnd r → item (t ++ r) = .ok (x, r)
  deep : ∀ {s}, item s = .error .tooDeep ↔ Q s
  opens : ∀ {x t}, P x t → Opens t
  deepOpens : ∀ {s}, Q s → Opens s

theorem Opens.append {t : List CodeUnit} (h : Opens t) (r : List CodeUnit) : Opens (t ++ r) := by
  obtain ⟨v, s, rfl, hv⟩ := h
  exact ⟨v, s ++ r, rfl, hv⟩

theorem Opens.noWs {t : List CodeUnit} (h : Opens t) : NoWs t := by
  obtain ⟨v, s, rfl, hv, -⟩ := h
  exact .cons hv

theorem Opens.length_pos {t : List CodeUnit} (h : Opens t) : 0 < t.length := by
  obtain ⟨v, s, rfl, -⟩ := h
  simp

theorem numEnd_cons {u : CodeUnit} (h : isDigit u = false ∧ u ≠ unit '.' ∧ u ≠ unit 'e' ∧ u ≠ unit 'E')
    (s : List CodeUnit) : NumEnd (u :: s) := by
  intro v hv
  simp only [List.head?_cons, Option.mem_def, Option.some.injEq] at hv
  exact hv ▸ h

theorem isWs_cases {u : CodeUnit} (h : isWs u = true) :
    u = 0x20 ∨ u = 0x09 ∨ u = 0x0A ∨ u = 0x0D := by
  simpa [isWs, or_assoc] using h

theorem NumEnd.ws {w s : List CodeUnit} (hw : Ws w) (hs : NumEnd s) : NumEnd (w ++ s) := by
  cases w with
  | nil => exact hs
  | cons u w =>
      refine numEnd_cons ?_ _
      rcases isWs_cases (hw u List.mem_cons_self) with rfl | rfl | rfl | rfl <;> decide

theorem numEnd_nil : NumEnd [] := fun _ h => by simp at h

theorem numEnd_comma (s : List CodeUnit) : NumEnd (unit ',' :: s) := numEnd_cons (by decide) s

/-! ## §3. Sequences. -/

section Sequence

variable {α : Type} {item : ItemReader α} {P : α → List CodeUnit → Prop}
  {Q : List CodeUnit → Prop} {close : CodeUnit}

/-- A bracket that closes a container. -/
def Closing (close : CodeUnit) : Prop := close = unit ']' ∨ close = unit '}'

theorem Closing.numEnd (h : Closing close) (s : List CodeUnit) : NumEnd (close :: s) := by
  rcases h with rfl | rfl <;> exact numEnd_cons (by decide) s

theorem Closing.noWs (h : Closing close) (s : List CodeUnit) : NoWs (close :: s) := by
  rcases h with rfl | rfl <;> exact .cons (by decide)

theorem Closing.ne_comma (h : Closing close) : unit ',' ≠ close := by
  rcases h with rfl | rfl <;> decide

theorem noWs_comma (s : List CodeUnit) : NoWs (unit ',' :: s) := .cons (by decide)

theorem sequence_sound (h : Reads item P Q) {k : Nat} {s r : List CodeUnit} {xs : List α}
    (hs : sequence item close k s = .ok (xs, r)) :
    ∃ u, Separated P xs u ∧ s = u ++ close :: r := by
  induction k generalizing s r xs with
  | zero => simp [sequence] at hs
  | succ k ih =>
      obtain ⟨a, ha, hsplit⟩ := skipWs_split s
      rw [sequence] at hs
      cases hi : item (skipWs s) with
      | error e => simp [hi] at hs
      | ok q =>
          obtain ⟨x, s₁⟩ := q
          obtain ⟨t, hx, ht⟩ := h.sound hi
          obtain ⟨b, hb, hsplit₁⟩ := skipWs_split s₁
          simp only [hi] at hs
          cases hv : skipWs s₁ with
          | nil => simp [hv] at hs
          | cons v s₂ =>
              simp only [hv] at hs
              have hwhole : s = a ++ (t ++ (b ++ v :: s₂)) := by
                rw [hsplit, ht]; rw [hsplit₁, hv]
              by_cases hclose : v = close
              · rw [if_pos hclose] at hs
                simp only [Except.ok.injEq, Prod.mk.injEq] at hs
                obtain ⟨rfl, rfl⟩ := hs
                exact ⟨_, .last ha hx hb, by rw [hwhole, hclose]; simp⟩
              · rw [if_neg hclose] at hs
                by_cases hcomma : v = unit ','
                · rw [if_pos hcomma] at hs
                  cases hrec : sequence item close k s₂ with
                  | error e => simp [hrec] at hs
                  | ok q =>
                      simp only [hrec, Except.ok.injEq, Prod.mk.injEq] at hs
                      obtain ⟨rfl, rfl⟩ := hs
                      obtain ⟨u, hu, hs₂⟩ := ih hrec
                      exact ⟨_, .more ha hx hb hu, by rw [hwhole, hcomma, hs₂]; simp⟩
                · rw [if_neg hcomma] at hs
                  simp at hs

variable (close) in
/-- What one round of the loop does on an item that is followed by `v`. -/
theorem sequence_item (h : Reads item P Q) {k : Nat} {a t b : List CodeUnit} {x : α}
    (ha : Ws a) (hx : P x t) (hb : Ws b) {v : CodeUnit} {s : List CodeUnit}
    (hend : NumEnd (v :: s)) (hv : NoWs (v :: s)) :
    sequence item close (k + 1) (a ++ (t ++ (b ++ v :: s)))
      = if v = close then .ok ([x], s)
        else if v = unit ',' then
          match sequence item close k s with
          | .error e => .error e
          | .ok (xs, r) => .ok (x :: xs, r)
        else .error .malformed := by
  have hopen := (h.opens hx).append (b ++ v :: s)
  rw [sequence, skipWs_append ha hopen.noWs, h.complete hx (hend.ws hb)]
  simp only [skipWs_append hb hv]

theorem sequence_complete (h : Reads item P Q) (hclose : Closing close) {xs : List α}
    {u : List CodeUnit} (hu : Separated P xs u) {k : Nat} (hk : u.length < k)
    (r : List CodeUnit) : sequence item close k (u ++ close :: r) = .ok (xs, r) := by
  induction hu generalizing k with
  | @last a t b x ha hx hb =>
      obtain ⟨k, rfl⟩ : ∃ j, k = j + 1 := ⟨k - 1, by omega⟩
      have hround := sequence_item close (k := k) h ha hx hb
        (hclose.numEnd r) (hclose.noWs r)
      simpa using hround
  | @more a t b u x xs ha hx hb hu ih =>
      obtain ⟨k, rfl⟩ : ∃ j, k = j + 1 := ⟨k - 1, by omega⟩
      have hpos := (h.opens hx).length_pos
      simp only [List.length_append, List.length_cons] at hk
      have hround := sequence_item close (k := k) h ha hx hb
        (numEnd_comma (u ++ close :: r)) (noWs_comma (u ++ close :: r))
      rw [if_neg hclose.ne_comma, if_pos rfl, ih (by omega)] at hround
      simpa using hround

theorem sequence_deep (h : Reads item P Q) (hclose : Closing close) {s : List CodeUnit}
    (hs : LeadsTo P Q s) {k : Nat} (hk : s.length < k) :
    sequence item close k s = .error .tooDeep := by
  induction hs generalizing k with
  | @here a s ha hq =>
      obtain ⟨k, rfl⟩ : ∃ j, k = j + 1 := ⟨k - 1, by omega⟩
      rw [sequence, skipWs_append ha (h.deepOpens hq).noWs, h.deep.mpr hq]
  | @later a t b s x ha hx hb hs ih =>
      obtain ⟨k, rfl⟩ : ∃ j, k = j + 1 := ⟨k - 1, by omega⟩
      have hpos := (h.opens hx).length_pos
      simp only [List.length_append, List.length_cons] at hk
      rw [sequence_item close h ha hx hb (numEnd_comma s) (noWs_comma s), if_neg hclose.ne_comma,
        if_pos rfl, ih (by omega)]

theorem leadsTo_of_sequence (h : Reads item P Q) {k : Nat} {s : List CodeUnit}
    (hs : sequence item close k s = .error .tooDeep) : LeadsTo P Q s := by
  induction k generalizing s with
  | zero => simp [sequence] at hs
  | succ k ih =>
      obtain ⟨a, ha, hsplit⟩ := skipWs_split s
      rw [sequence] at hs
      cases hi : item (skipWs s) with
      | error e =>
          simp only [hi, Except.error.injEq] at hs
          rw [hsplit]
          exact .here ha (h.deep.mp (hs ▸ hi))
      | ok q =>
          obtain ⟨x, s₁⟩ := q
          obtain ⟨t, hx, ht⟩ := h.sound hi
          obtain ⟨b, hb, hsplit₁⟩ := skipWs_split s₁
          simp only [hi] at hs
          cases hv : skipWs s₁ with
          | nil => simp [hv] at hs
          | cons v s₂ =>
              simp only [hv] at hs
              by_cases hclose : v = close
              · rw [if_pos hclose] at hs
                simp at hs
              · rw [if_neg hclose] at hs
                by_cases hcomma : v = unit ','
                · rw [if_pos hcomma] at hs
                  cases hrec : sequence item close k s₂ with
                  | ok q => simp [hrec] at hs
                  | error e =>
                      simp only [hrec, Except.error.injEq] at hs
                      rw [hsplit, ht, hsplit₁, hv, hcomma]
                      exact .later ha hx hb (ih (hs ▸ hrec))
                · rw [if_neg hcomma] at hs
                  simp at hs

theorem LeadsTo.opens (h : Reads item P Q) {s : List CodeUnit} (hs : LeadsTo P Q s) :
    Opens (skipWs s) := by
  cases hs with
  | here ha hq =>
      have hopen := h.deepOpens hq
      rwa [skipWs_append ha hopen.noWs]
  | @later a t b s x ha hx hb hs =>
      have hopen := (h.opens hx).append (b ++ unit ',' :: s)
      rwa [skipWs_append ha hopen.noWs]

theorem Separated.opens (h : Reads item P Q) {xs : List α} {u : List CodeUnit}
    (hu : Separated P xs u) (r : List CodeUnit) : Opens (skipWs (u ++ r)) := by
  cases hu with
  | @last a t b x ha hx hb =>
      have hopen := (h.opens hx).append (b ++ r)
      rw [List.append_assoc, List.append_assoc, skipWs_append ha hopen.noWs]
      exact hopen
  | @more a t b u x xs ha hx hb hu =>
      have hopen := (h.opens hx).append ((b ++ unit ',' :: u) ++ r)
      rw [List.append_assoc, List.append_assoc, skipWs_append ha hopen.noWs]
      exact hopen

theorem Opens.ne_closing {s r : List CodeUnit} {v : CodeUnit} (h : Opens s) (hs : s = v :: r)
    (hclose : Closing close) : v ≠ close := by
  obtain ⟨w, t, rfl, -, hsq, hbr⟩ := h
  obtain ⟨rfl, -⟩ := List.cons.inj hs
  rcases hclose with rfl | rfl
  · exact hsq
  · exact hbr

theorem bracketed_sound (h : Reads item P Q) {s r : List CodeUnit} {xs : List α}
    (hs : bracketed item close s = .ok (xs, r)) :
    ∃ u, ((xs = [] ∧ Ws u) ∨ Separated P xs u) ∧ s = u ++ close :: r := by
  rw [bracketed] at hs
  cases hv : skipWs s with
  | nil => simp [hv] at hs
  | cons v s₁ =>
      simp only [hv] at hs
      by_cases hclose : v = close
      · rw [if_pos hclose] at hs
        simp only [Except.ok.injEq, Prod.mk.injEq] at hs
        obtain ⟨rfl, rfl⟩ := hs
        obtain ⟨w, hw, hsplit⟩ := skipWs_split s
        exact ⟨w, .inl ⟨rfl, hw⟩, by rw [hsplit, hv, hclose]⟩
      · rw [if_neg hclose] at hs
        obtain ⟨u, hu, hsplit⟩ := sequence_sound h hs
        exact ⟨u, .inr hu, hsplit⟩

theorem bracketed_empty (hclose : Closing close) {w : List CodeUnit} (hw : Ws w)
    (r : List CodeUnit) : bracketed item close (w ++ close :: r) = .ok ([], r) := by
  rw [bracketed, skipWs_append hw (hclose.noWs r)]
  simp

theorem bracketed_of_opens (hclose : Closing close) {s : List CodeUnit} (hs : Opens (skipWs s)) :
    bracketed item close s = sequence item close (s.length + 1) s := by
  rw [bracketed]
  cases hv : skipWs s with
  | nil => obtain ⟨v, r, hvr, -⟩ := hs; rw [hv] at hvr; simp at hvr
  | cons v r =>
      have hne := (hv ▸ hs).ne_closing rfl hclose
      simp [hne]

theorem bracketed_complete (h : Reads item P Q) (hclose : Closing close) {xs : List α}
    {u : List CodeUnit} (hu : Separated P xs u) (r : List CodeUnit) :
    bracketed item close (u ++ close :: r) = .ok (xs, r) := by
  rw [bracketed_of_opens hclose (hu.opens h _)]
  exact sequence_complete h hclose hu (by simp) r

theorem bracketed_deep_iff (h : Reads item P Q) (hclose : Closing close) {s : List CodeUnit} :
    bracketed item close s = .error .tooDeep ↔ LeadsTo P Q s := by
  constructor
  · intro hs
    rw [bracketed] at hs
    cases hv : skipWs s with
    | nil => simp [hv] at hs
    | cons v s₁ =>
        simp only [hv] at hs
        by_cases hcl : v = close
        · rw [if_pos hcl] at hs
          simp at hs
        · rw [if_neg hcl] at hs
          exact leadsTo_of_sequence h hs
  · intro hs
    rw [bracketed_of_opens hclose (hs.opens h)]
    exact sequence_deep h hclose hs (by omega)

end Sequence

/-! ## §4. Members. -/

section Member

variable {d : Dialect} {value : ItemReader Ast} {P : Ast → List CodeUnit → Prop}
  {Q : List CodeUnit → Prop}

/-- A member whose value is a text of `Q`. -/
def MemberLeadsTo (d : Dialect) (Q : List CodeUnit → Prop) (s : List CodeUnit) : Prop :=
  ∃ k a b u, PiecesOk d k ∧ Ws a ∧ Ws b ∧ Q u ∧ s = literalText k ++ (a ++ unit ':' :: (b ++ u))

theorem noWs_colon (s : List CodeUnit) : NoWs (unit ':' :: s) := .cons (by decide)

theorem literalText_opens (k : List Piece) (s : List CodeUnit) : Opens (literalText k ++ s) :=
  ⟨unit '"', _, rfl, by decide, by decide, by decide⟩

theorem pieces_literal {k : List Piece} (hk : PiecesOk d k) (s : List CodeUnit) :
    pieces d (k.flatMap Piece.text ++ [unit '"'] ++ s) = some (k, s) := by
  simpa using pieces_complete hk s

variable (value) in
/-- What the member reader does once the key and the colon are there. -/
theorem member_value {k : List Piece} (hk : PiecesOk d k) {a b : List CodeUnit} (ha : Ws a)
    (hb : Ws b) {s : List CodeUnit} (hs : NoWs s) :
    member d value (literalText k ++ (a ++ unit ':' :: (b ++ s)))
      = match value s with
        | .error e => .error e
        | .ok (t, r) => .ok ((k, t), r) := by
  simp only [literalText, List.cons_append, member, if_pos]
  rw [pieces_literal hk]
  simp only [skipWs_append ha (noWs_colon (b ++ s)), skipWs_append hb hs, if_pos]

/-- What the member reader has read when it gets as far as the value. -/
theorem member_cases {s : List CodeUnit} {res : Except Fault ((List Piece × Ast) × List CodeUnit)}
    (h : member d value s = res) :
    res = .error .malformed ∨
      ∃ k a b r, PiecesOk d k ∧ Ws a ∧ Ws b ∧
        s = literalText k ++ (a ++ unit ':' :: (b ++ r)) ∧
        res = (value r).map fun q => ((k, q.1), q.2) := by
  cases s with
  | nil => exact .inl h.symm
  | cons u s =>
      rw [member] at h
      by_cases hu : u = unit '"'
      · rw [if_pos hu] at h
        cases hp : pieces d s with
        | none => simp only [hp] at h; exact .inl h.symm
        | some q =>
            obtain ⟨k, s₁⟩ := q
            obtain ⟨hk, hs⟩ := pieces_sound hp
            obtain ⟨a, ha, hsplit⟩ := skipWs_split s₁
            simp only [hp] at h
            cases hv : skipWs s₁ with
            | nil => simp only [hv] at h; exact .inl h.symm
            | cons v s₂ =>
                simp only [hv] at h
                by_cases hcolon : v = unit ':'
                · rw [if_pos hcolon] at h
                  obtain ⟨b, hb, hsplit₂⟩ := skipWs_split s₂
                  refine .inr ⟨k, a, b, skipWs s₂, hk, ha, hb, ?_, ?_⟩
                  · rw [hu, hs, hsplit, hv, hcolon, ← hsplit₂]
                    simp [literalText]
                  · rw [← h]
                    cases value (skipWs s₂) <;> rfl
                · rw [if_neg hcolon] at h
                  exact .inl h.symm
      · rw [if_neg hu] at h
        exact .inl h.symm

theorem member_reads (h : Reads value P Q) :
    Reads (member d value) (Member d P) (MemberLeadsTo d Q) where
  sound := by
    intro s m r hs
    rcases member_cases hs with hbad | ⟨k, a, b, r', hk, ha, hb, hsplit, hres⟩
    · simp at hbad
    · cases hv : value r' with
      | error e => simp [hv, Except.map] at hres
      | ok q =>
          simp only [hv, Except.map, Except.ok.injEq, Prod.mk.injEq] at hres
          obtain ⟨rfl, rfl⟩ := hres
          obtain ⟨t, ht, hr⟩ := h.sound hv
          exact ⟨_, .mk hk ha hb ht, by rw [hsplit, hr]; simp⟩
  complete := by
    intro m u hm r hr
    cases hm with
    | @mk k t a b v hk ha hb hv =>
        have hopen := (h.opens hv).append r
        have hval := member_value value hk ha hb hopen.noWs
        rw [h.complete hv hr] at hval
        simpa using hval
  deep := by
    intro s
    constructor
    · intro hs
      rcases member_cases hs with hbad | ⟨k, a, b, r', hk, ha, hb, hsplit, hres⟩
      · simp at hbad
      · cases hv : value r' with
        | ok q => simp [hv, Except.map] at hres
        | error e =>
            simp only [hv, Except.map, Except.error.injEq] at hres
            exact ⟨k, a, b, r', hk, ha, hb, h.deep.mp (hres ▸ hv), hsplit⟩
    · rintro ⟨k, a, b, u, hk, ha, hb, hq, rfl⟩
      rw [member_value value hk ha hb (h.deepOpens hq).noWs, h.deep.mpr hq]
  opens := by
    intro m u hm
    cases hm with
    | mk hk ha hb hv => exact literalText_opens _ _
  deepOpens := by
    rintro s ⟨k, a, b, u, hk, ha, hb, hq, rfl⟩
    exact literalText_opens _ _

end Member

/-! ## §5. Constants and numbers. -/

theorem literal_sound {d : Dialect} {s r : List CodeUnit} {t : Ast}
    (h : literal d s = some (t, r)) : ∃ w, (w, t) ∈ constants d ∧ s = w ++ r := by
  obtain ⟨⟨w, t'⟩, hmem, hc⟩ := List.exists_of_findSome?_eq_some h
  by_cases hpre : w <+: s
  · rw [if_pos hpre, Option.some.injEq, Prod.mk.injEq] at hc
    obtain ⟨rfl, rfl⟩ := hc
    obtain ⟨v, rfl⟩ := hpre
    exact ⟨w, hmem, by simp⟩
  · rw [if_neg hpre] at hc
    simp at hc

theorem constants_cases {d : Dialect} {w : List CodeUnit} {t : Ast} (h : (w, t) ∈ constants d) :
    (w = units "null" ∧ t = .null) ∨ (w = units "true" ∧ t = .bool true) ∨
      (w = units "false" ∧ t = .bool false) ∨
      (d.nonFinite = true ∧ ((w = units "NaN" ∧ t = .nonFinite .nan) ∨
        (w = units "Infinity" ∧ t = .nonFinite .infinity) ∨
        (w = units "-Infinity" ∧ t = .nonFinite .negInfinity))) := by
  unfold constants at h
  cases hd : d.nonFinite with
  | false =>
      simp only [hd, Bool.false_eq_true, if_false, List.append_nil, List.mem_cons, Prod.mk.injEq,
        List.not_mem_nil, or_false] at h
      rcases h with h | h | h
      · exact .inl h
      · exact .inr (.inl h)
      · exact .inr (.inr (.inl h))
  | true =>
      simp only [hd, if_true, List.cons_append, List.nil_append, List.mem_cons, Prod.mk.injEq,
        List.not_mem_nil, or_false] at h
      rcases h with h | h | h | h | h | h
      · exact .inl h
      · exact .inr (.inl h)
      · exact .inr (.inr (.inl h))
      · exact .inr (.inr (.inr ⟨rfl, .inl h⟩))
      · exact .inr (.inr (.inr ⟨rfl, .inr (.inl h)⟩))
      · exact .inr (.inr (.inr ⟨rfl, .inr (.inr h)⟩))

theorem literal_complete {d : Dialect} {w : List CodeUnit} {t : Ast} (h : (w, t) ∈ constants d)
    (r : List CodeUnit) : literal d (w ++ r) = some (t, r) := by
  rcases constants_cases h with ⟨rfl, rfl⟩ | ⟨rfl, rfl⟩ | ⟨rfl, rfl⟩ | ⟨hd, hw⟩
  · simp [literal, constants, units, unit]
  · simp [literal, constants, units, unit]
  · simp [literal, constants, units, unit]
  · rcases hw with ⟨rfl, rfl⟩ | ⟨rfl, rfl⟩ | ⟨rfl, rfl⟩ <;>
      simp [literal, constants, hd, units, unit]

/-- A text that starts like a number: a digit, or a minus sign and a digit. -/
def NumStart (s : List CodeUnit) : Prop :=
  ∃ u r, isDigit u = true ∧ (s = u :: r ∨ s = unit '-' :: u :: r)

theorem numeral_numStart {n : Numeral} (hn : n.WellFormed) (r : List CodeUnit) :
    NumStart (n.text ++ r) := by
  have hhead := hn.int.head (r := fracText n.frac ++ expText n.exp ++ r)
  cases hint : n.int with
  | nil =>
      rcases hn.int with h | h
      · rw [hint] at h; simp at h
      · exact absurd hint h.1.1
  | cons u ds =>
      rw [hint] at hhead
      refine ⟨u, ds ++ (fracText n.frac ++ expText n.exp) ++ r, hhead u (by simp), ?_⟩
      cases hneg : n.neg with
      | false => left; simp [Numeral.text, hint, hneg]
      | true => right; simp [Numeral.text, hint, hneg]

theorem literal_eq_none {d : Dialect} {s : List CodeUnit} (h : NumStart s) :
    literal d s = none := by
  obtain ⟨u, r, hu, hs⟩ := h
  refine List.findSome?_eq_none_iff.mpr fun c hc => ?_
  obtain ⟨w, t⟩ := c
  refine if_neg fun hpre => ?_
  have hne : ∀ {v : CodeUnit}, isDigit v = false → v ≠ u := by
    rintro v hv rfl
    rw [hu] at hv
    exact absurd hv (by decide)
  have hhead : ∀ {v : CodeUnit} {w' : List CodeUnit}, isDigit v = false → v ≠ unit '-' →
      ¬ (v :: w') <+: s := by
    intro v w' hv hminus hpre
    rcases hs with rfl | rfl
    · exact hne hv (List.cons_prefix_cons.mp hpre).1
    · exact hminus (List.cons_prefix_cons.mp hpre).1
  rcases constants_cases hc with ⟨rfl, -⟩ | ⟨rfl, -⟩ | ⟨rfl, -⟩ | ⟨-, hw⟩
  · exact hhead (by decide) (by decide) hpre
  · exact hhead (by decide) (by decide) hpre
  · exact hhead (by decide) (by decide) hpre
  · rcases hw with ⟨rfl, -⟩ | ⟨rfl, -⟩ | ⟨rfl, -⟩
    · exact hhead (by decide) (by decide) hpre
    · exact hhead (by decide) (by decide) hpre
    · -- after the minus sign a digit would have to be `I`
      rcases hs with rfl | rfl
      · exact hne (v := unit '-') (by decide) (List.cons_prefix_cons.mp hpre).1
      · have htail := (List.cons_prefix_cons.mp hpre).2
        exact hne (v := unit 'I') (by decide) (List.cons_prefix_cons.mp htail).1

/-- The text of a constant or of a number. -/
def ScalarText (d : Dialect) (t : Ast) (u : List CodeUnit) : Prop :=
  (u, t) ∈ constants d ∨ ∃ n : Numeral, t = .num n ∧ n.WellFormed ∧ d.numeralOk n = true ∧ u = n.text

theorem scalar_sound {d : Dialect} {s r : List CodeUnit} {t : Ast}
    (h : scalar d s = .ok (t, r)) : ∃ u, ScalarText d t u ∧ s = u ++ r := by
  rw [scalar] at h
  cases hl : literal d s with
  | some q =>
      simp only [hl, Except.ok.injEq] at h
      obtain ⟨w, hw, hs⟩ := literal_sound (h ▸ hl)
      exact ⟨w, .inl hw, hs⟩
  | none =>
      cases hn : number d s with
      | none => simp [hl, hn] at h
      | some q =>
          simp only [hl, hn, Except.ok.injEq, Prod.mk.injEq] at h
          obtain ⟨rfl, rfl⟩ := h
          obtain ⟨hwf, hok, hs⟩ := number_sound hn
          exact ⟨_, .inr ⟨_, rfl, hwf, hok, rfl⟩, hs⟩

theorem scalar_complete {d : Dialect} {t : Ast} {u : List CodeUnit} (h : ScalarText d t u)
    {r : List CodeUnit} (hr : NumEnd r) : scalar d (u ++ r) = .ok (t, r) := by
  rw [scalar]
  rcases h with hc | ⟨n, rfl, hn, hok, rfl⟩
  · rw [literal_complete hc r]
  · rw [literal_eq_none (numeral_numStart hn r), number_complete hn hok hr]

theorem scalar_ne_tooDeep (d : Dialect) (s : List CodeUnit) :
    scalar d s ≠ .error .tooDeep := by
  rw [scalar]
  cases literal d s with
  | some q => simp
  | none => cases number d s <;> simp

/-- The first unit of a constant or a number opens neither a string nor a container. -/
theorem ScalarText.head {d : Dialect} {t : Ast} {u : List CodeUnit} (h : ScalarText d t u) :
    ∃ v r, u = v :: r ∧ isWs v = false ∧ v ≠ unit ']' ∧ v ≠ unit '}' ∧ v ≠ unit '"' ∧
      v ≠ unit '[' ∧ v ≠ unit '{' := by
  rcases h with hc | ⟨n, rfl, hn, -, rfl⟩
  · rcases constants_cases hc with ⟨rfl, -⟩ | ⟨rfl, -⟩ | ⟨rfl, -⟩ | ⟨-, hw⟩
    · exact ⟨_, _, rfl, by decide⟩
    · exact ⟨_, _, rfl, by decide⟩
    · exact ⟨_, _, rfl, by decide⟩
    · rcases hw with ⟨rfl, -⟩ | ⟨rfl, -⟩ | ⟨rfl, -⟩ <;> exact ⟨_, _, rfl, by decide⟩
  · obtain ⟨v, r, hv, hs⟩ := numeral_numStart hn []
    rw [List.append_nil] at hs
    rcases hs with hs | hs
    · refine ⟨v, r, hs, ?_⟩
      have hne : ∀ {w : CodeUnit}, isDigit w = false → v ≠ w := by
        rintro w hw rfl
        rw [hv] at hw
        exact absurd hw (by decide)
      refine ⟨?_, hne (by decide), hne (by decide), hne (by decide), hne (by decide),
        hne (by decide)⟩
      cases hws : isWs v with
      | false => rfl
      | true => rcases isWs_cases hws with rfl | rfl | rfl | rfl <;> exact absurd hv (by decide)
    · exact ⟨_, _, hs, by decide⟩

theorem ScalarText.spells {d : Dialect} {t : Ast} {u : List CodeUnit} (h : ScalarText d t u) :
    Spells d t u ∧ t.nesting = 0 := by
  rcases h with hc | ⟨n, rfl, hn, hok, rfl⟩
  · refine ⟨.constant hc, ?_⟩
    rcases constants_cases hc with ⟨-, rfl⟩ | ⟨-, rfl⟩ | ⟨-, rfl⟩ | ⟨-, hw⟩
    · rfl
    · rfl
    · rfl
    · rcases hw with ⟨-, rfl⟩ | ⟨-, rfl⟩ | ⟨-, rfl⟩ <;> rfl
  · exact ⟨.num hn hok, rfl⟩

/-! ## §6. Values. -/

/-- A value nests at most `n` containers. -/
def Fits (d : Dialect) (n : Nat) (t : Ast) (u : List CodeUnit) : Prop :=
  Spells d t u ∧ t.nesting ≤ n

/-- The text opens more than `n` containers inside each other before it leaves the grammar. -/
def Overflows (d : Dialect) : Nat → List CodeUnit → Prop
  | 0, s => ∃ r, s = unit '[' :: r ∨ s = unit '{' :: r
  | n + 1, s => ∃ r,
      (s = unit '[' :: r ∧ LeadsTo (Fits d n) (Overflows d n) r) ∨
      (s = unit '{' :: r ∧ LeadsTo (Member d (Fits d n)) (MemberLeadsTo d (Overflows d n)) r)

theorem Separated.and_iff {α : Type} {P : α → List CodeUnit → Prop} {R : α → Prop} {xs : List α}
    {u : List CodeUnit} :
    Separated (fun x t => P x t ∧ R x) xs u ↔ Separated P xs u ∧ ∀ x ∈ xs, R x := by
  constructor
  · intro h
    induction h with
    | last ha hx hb => exact ⟨.last ha hx.1 hb, by simpa using hx.2⟩
    | more ha hx hb _ ih => exact ⟨.more ha hx.1 hb ih.1, by simpa using ⟨hx.2, ih.2⟩⟩
  · rintro ⟨h, hR⟩
    induction h with
    | last ha hx hb => exact .last ha ⟨hx, hR _ (by simp)⟩ hb
    | more ha hx hb _ ih =>
        exact .more ha ⟨hx, hR _ (by simp)⟩ hb (ih fun x hmem => hR x (List.mem_cons_of_mem _ hmem))

theorem Separated.congr {α : Type} {P P' : α → List CodeUnit → Prop} (h : ∀ x t, P x t ↔ P' x t)
    {xs : List α} {u : List CodeUnit} : Separated P xs u ↔ Separated P' xs u := by
  have hP : P = P' := funext fun x => funext fun t => propext (h x t)
  rw [hP]

theorem member_fits_iff {d : Dialect} {n : Nat} {m : List Piece × Ast} {u : List CodeUnit} :
    Member d (Fits d n) m u ↔ Member d (Spells d) m u ∧ m.2.nesting ≤ n := by
  constructor
  · intro h
    cases h with
    | mk hk ha hb hv => exact ⟨.mk hk ha hb hv.1, hv.2⟩
  · rintro ⟨h, hn⟩
    cases h with
    | mk hk ha hb hv => exact .mk hk ha hb ⟨hv, hn⟩

theorem separated_fits_iff {d : Dialect} {n : Nat} {xs : List Ast} {u : List CodeUnit} :
    Separated (Fits d n) xs u ↔ Separated (Spells d) xs u ∧ nestingElems xs ≤ n := by
  rw [nestingElems_le]
  exact Separated.and_iff

theorem separated_member_fits_iff {d : Dialect} {n : Nat} {ms : List (List Piece × Ast)}
    {u : List CodeUnit} :
    Separated (Member d (Fits d n)) ms u ↔
      Separated (Member d (Spells d)) ms u ∧ nestingMembers ms ≤ n := by
  rw [nestingMembers_le, Separated.congr fun m t => member_fits_iff]
  exact Separated.and_iff

/-- A spelled value is a string, an array, an object, or a constant or number. -/
theorem spells_opens {d : Dialect} {t : Ast} {u : List CodeUnit} (h : Spells d t u) : Opens u := by
  cases h with
  | constant hc =>
      obtain ⟨v, r, rfl, hws, hsq, hbr, -⟩ := ScalarText.head (.inl hc)
      exact ⟨v, r, rfl, hws, hsq, hbr⟩
  | num hn hok =>
      obtain ⟨v, r, hv, hws, hsq, hbr, -⟩ := ScalarText.head (.inr ⟨_, rfl, hn, hok, rfl⟩)
      exact ⟨v, r, hv, hws, hsq, hbr⟩
  | str _ => exact ⟨_, _, rfl, by decide, by decide, by decide⟩
  | arrEmpty _ => exact ⟨_, _, rfl, by decide, by decide, by decide⟩
  | arr _ => exact ⟨_, _, rfl, by decide, by decide, by decide⟩
  | objEmpty _ => exact ⟨_, _, rfl, by decide, by decide, by decide⟩
  | obj _ => exact ⟨_, _, rfl, by decide, by decide, by decide⟩

theorem overflows_opens {d : Dialect} {n : Nat} {s : List CodeUnit} (h : Overflows d n s) :
    Opens s := by
  cases n with
  | zero =>
      obtain ⟨r, rfl | rfl⟩ := h
      · exact ⟨_, _, rfl, by decide, by decide, by decide⟩
      · exact ⟨_, _, rfl, by decide, by decide, by decide⟩
  | succ n =>
      obtain ⟨r, ⟨rfl, -⟩ | ⟨rfl, -⟩⟩ := h
      · exact ⟨_, _, rfl, by decide, by decide, by decide⟩
      · exact ⟨_, _, rfl, by decide, by decide, by decide⟩

section ValueWith

variable {d : Dialect} {inner : Option (ItemReader Ast)}

theorem valueWith_string {ps : List Piece} (hps : PiecesOk d ps) (r : List CodeUnit) :
    valueWith d inner (literalText ps ++ r) = .ok (.str ps, r) := by
  simp only [literalText, List.cons_append, valueWith, if_pos]
  rw [pieces_literal hps]

theorem valueWith_bracket (s : List CodeUnit) :
    valueWith d inner (unit '[' :: s) = match inner with
      | none => .error .tooDeep
      | some value => (bracketed value (unit ']') s).map fun r => (.arr r.1, r.2) := by
  simp only [valueWith]
  rw [if_neg (by decide), if_pos trivial]

theorem valueWith_brace (s : List CodeUnit) :
    valueWith d inner (unit '{' :: s) = match inner with
      | none => .error .tooDeep
      | some value => (bracketed (member d value) (unit '}') s).map fun r => (.obj r.1, r.2) := by
  simp only [valueWith]
  rw [if_neg (by decide), if_neg (by decide), if_pos trivial]

theorem valueWith_scalar {t : Ast} {u : List CodeUnit} (h : ScalarText d t u) {r : List CodeUnit}
    (hr : NumEnd r) : valueWith d inner (u ++ r) = .ok (t, r) := by
  have hsc := scalar_complete h hr
  obtain ⟨v, w, rfl, -, -, -, hq, hsq, hbr⟩ := h.head
  show valueWith d inner (v :: (w ++ r)) = _
  simp only [valueWith]
  rw [if_neg hq, if_neg hsq, if_neg hbr]
  exact hsc

/-- What the value reader read, by the first unit of the text. -/
theorem valueWith_cases {s : List CodeUnit} {res : Except Fault (Ast × List CodeUnit)}
    (h : valueWith d inner s = res) :
    res = .error .malformed ∨
      (∃ ps r, PiecesOk d ps ∧ s = literalText ps ++ r ∧ res = .ok (.str ps, r)) ∨
      (∃ r, s = unit '[' :: r) ∨ (∃ r, s = unit '{' :: r) ∨ scalar d s = res := by
  cases s with
  | nil => exact .inl h.symm
  | cons u s =>
      simp only [valueWith] at h
      by_cases hq : u = unit '"'
      · rw [if_pos hq] at h
        cases hp : pieces d s with
        | none => simp only [hp] at h; exact .inl h.symm
        | some q =>
            obtain ⟨ps, r⟩ := q
            obtain ⟨hps, hs⟩ := pieces_sound hp
            simp only [hp] at h
            exact .inr (.inl ⟨ps, r, hps, by simp [literalText, hq, hs], h.symm⟩)
      · rw [if_neg hq] at h
        by_cases hsq : u = unit '['
        · exact .inr (.inr (.inl ⟨s, by rw [hsq]⟩))
        · rw [if_neg hsq] at h
          by_cases hbr : u = unit '{'
          · exact .inr (.inr (.inr (.inl ⟨s, by rw [hbr]⟩)))
          · rw [if_neg hbr] at h
            exact .inr (.inr (.inr (.inr h)))

end ValueWith

theorem map_eq_ok {α β : Type} {x : Except Fault α} {f : α → β} {b : β} :
    x.map f = .ok b ↔ ∃ a, x = .ok a ∧ f a = b := by
  cases x with
  | error e => simp [Except.map]
  | ok a => simp [Except.map]

theorem map_eq_error {α β : Type} {x : Except Fault α} {f : α → β} {e : Fault} :
    x.map f = .error e ↔ x = .error e := by
  cases x <;> simp [Except.map]

theorem value_zero_reads (d : Dialect) : Reads (value d 0) (Fits d 0) (Overflows d 0) where
  sound := by
    intro s t r hs
    rcases valueWith_cases hs with hbad | ⟨ps, r', hps, hsplit, hres⟩ | ⟨r', rfl⟩ | ⟨r', rfl⟩ | hsc
    · simp at hbad
    · simp only [Except.ok.injEq, Prod.mk.injEq] at hres
      obtain ⟨rfl, rfl⟩ := hres
      exact ⟨_, ⟨.str hps, Nat.le_refl _⟩, hsplit⟩
    · rw [value, valueWith_bracket] at hs
      simp at hs
    · rw [value, valueWith_brace] at hs
      simp at hs
    · obtain ⟨u, hu, hsplit⟩ := scalar_sound hsc
      exact ⟨u, ⟨hu.spells.1, hu.spells.2.le⟩, hsplit⟩
  complete := by
    rintro t u ⟨h, hn⟩ r hr
    cases h with
    | constant hc => exact valueWith_scalar (.inl hc) hr
    | num hw hok => exact valueWith_scalar (.inr ⟨_, rfl, hw, hok, rfl⟩) hr
    | str hps => exact valueWith_string hps r
    | arrEmpty _ => simp [Ast.nesting] at hn
    | arr _ => simp [Ast.nesting] at hn
    | objEmpty _ => simp [Ast.nesting] at hn
    | obj _ => simp [Ast.nesting] at hn
  deep := by
    intro s
    constructor
    · intro hs
      rcases valueWith_cases hs with hbad | ⟨ps, r', hps, hsplit, hres⟩ | ⟨r', hr⟩ | ⟨r', hr⟩ | hsc
      · simp at hbad
      · simp at hres
      · exact ⟨r', .inl hr⟩
      · exact ⟨r', .inr hr⟩
      · exact absurd hsc (scalar_ne_tooDeep d s)
    · rintro ⟨r, rfl | rfl⟩
      · rw [value, valueWith_bracket]
      · rw [value, valueWith_brace]
  opens := fun h => spells_opens h.1
  deepOpens := overflows_opens

theorem value_succ_reads {d : Dialect} {n : Nat} (h : Reads (value d n) (Fits d n) (Overflows d n)) :
    Reads (value d (n + 1)) (Fits d (n + 1)) (Overflows d (n + 1)) where
  sound := by
    intro s t r hs
    rcases valueWith_cases hs with hbad | ⟨ps, r', hps, hsplit, hres⟩ | ⟨r', rfl⟩ | ⟨r', rfl⟩ | hsc
    · simp at hbad
    · simp only [Except.ok.injEq, Prod.mk.injEq] at hres
      obtain ⟨rfl, rfl⟩ := hres
      exact ⟨_, ⟨.str hps, Nat.zero_le _⟩, hsplit⟩
    · rw [value, valueWith_bracket] at hs
      obtain ⟨⟨xs, r''⟩, hb, hq⟩ := map_eq_ok.mp hs
      simp only [Prod.mk.injEq] at hq
      obtain ⟨rfl, rfl⟩ := hq
      obtain ⟨u, hu, hsplit⟩ := bracketed_sound h hb
      refine ⟨unit '[' :: (u ++ [unit ']']), ?_, by simp [hsplit]⟩
      rcases hu with ⟨rfl, hw⟩ | hu
      · exact ⟨.arrEmpty hw, by simp [Ast.nesting, nestingElems]⟩
      · obtain ⟨hu, hn⟩ := separated_fits_iff.mp hu
        exact ⟨.arr hu, Nat.succ_le_succ hn⟩
    · rw [value, valueWith_brace] at hs
      obtain ⟨⟨ms, r''⟩, hb, hq⟩ := map_eq_ok.mp hs
      simp only [Prod.mk.injEq] at hq
      obtain ⟨rfl, rfl⟩ := hq
      obtain ⟨u, hu, hsplit⟩ := bracketed_sound (member_reads h) hb
      refine ⟨unit '{' :: (u ++ [unit '}']), ?_, by simp [hsplit]⟩
      rcases hu with ⟨rfl, hw⟩ | hu
      · exact ⟨.objEmpty hw, by simp [Ast.nesting, nestingMembers]⟩
      · obtain ⟨hu, hn⟩ := separated_member_fits_iff.mp hu
        exact ⟨.obj hu, Nat.succ_le_succ hn⟩
    · obtain ⟨u, hu, hsplit⟩ := scalar_sound hsc
      exact ⟨u, ⟨hu.spells.1, by rw [hu.spells.2]; exact Nat.zero_le _⟩, hsplit⟩
  complete := by
    rintro t u ⟨hsp, hn⟩ r hr
    cases hsp with
    | constant hc => exact valueWith_scalar (.inl hc) hr
    | num hw hok => exact valueWith_scalar (.inr ⟨_, rfl, hw, hok, rfl⟩) hr
    | str hps => exact valueWith_string hps r
    | @arrEmpty w hw =>
        show valueWith d _ (unit '[' :: (w ++ [unit ']'] ++ r)) = _
        rw [valueWith_bracket, List.append_assoc, List.singleton_append]
        simp only [bracketed_empty (.inl rfl) hw r, Except.map]
    | @arr xs v hv =>
        have hfit := separated_fits_iff.mpr ⟨hv, Nat.le_of_succ_le_succ hn⟩
        show valueWith d _ (unit '[' :: (v ++ [unit ']'] ++ r)) = _
        rw [valueWith_bracket, List.append_assoc, List.singleton_append]
        simp only [bracketed_complete h (.inl rfl) hfit r, Except.map]
    | @objEmpty w hw =>
        show valueWith d _ (unit '{' :: (w ++ [unit '}'] ++ r)) = _
        rw [valueWith_brace, List.append_assoc, List.singleton_append]
        simp only [bracketed_empty (.inr rfl) hw r, Except.map]
    | @obj ms v hv =>
        have hfit := separated_member_fits_iff.mpr ⟨hv, Nat.le_of_succ_le_succ hn⟩
        show valueWith d _ (unit '{' :: (v ++ [unit '}'] ++ r)) = _
        rw [valueWith_brace, List.append_assoc, List.singleton_append]
        simp only [bracketed_complete (member_reads h) (.inr rfl) hfit r, Except.map]
  deep := by
    intro s
    constructor
    · intro hs
      rcases valueWith_cases hs with hbad | ⟨ps, r', hps, hsplit, hres⟩ | ⟨r', rfl⟩ | ⟨r', rfl⟩ | hsc
      · simp at hbad
      · simp at hres
      · rw [value, valueWith_bracket, map_eq_error, bracketed_deep_iff h (.inl rfl)] at hs
        exact ⟨r', .inl ⟨rfl, hs⟩⟩
      · rw [value, valueWith_brace, map_eq_error,
          bracketed_deep_iff (member_reads h) (.inr rfl)] at hs
        exact ⟨r', .inr ⟨rfl, hs⟩⟩
      · exact absurd hsc (scalar_ne_tooDeep d s)
    · rintro ⟨r, ⟨rfl, hr⟩ | ⟨rfl, hr⟩⟩
      · rw [value, valueWith_bracket, map_eq_error, bracketed_deep_iff h (.inl rfl)]
        exact hr
      · rw [value, valueWith_brace, map_eq_error, bracketed_deep_iff (member_reads h) (.inr rfl)]
        exact hr
  opens := fun h => spells_opens h.1
  deepOpens := overflows_opens

/-- **The value reader is exact**, by induction on the containers that may still open. -/
theorem value_reads (d : Dialect) (n : Nat) : Reads (value d n) (Fits d n) (Overflows d n) := by
  induction n with
  | zero => exact value_zero_reads d
  | succ n ih => exact value_succ_reads ih

/-! ## §7. Whole texts. -/

/-- **What is read is exactly a text of the grammar that nests within the bound.** -/
theorem read_ok_iff {d : Dialect} {n : Nat} {text : List CodeUnit} {t : Ast} :
    read d n text = .ok t ↔ Text d t text ∧ t.nesting ≤ n := by
  constructor
  · intro h
    obtain ⟨a, ha, hsplit⟩ := skipWs_split text
    rw [read] at h
    cases hv : value d n (skipWs text) with
    | error e => simp [hv] at h
    | ok q =>
        obtain ⟨t', r⟩ := q
        simp only [hv] at h
        by_cases hend : skipWs r = []
        · rw [if_pos hend, Except.ok.injEq] at h
          obtain ⟨b, hb, hr⟩ := skipWs_split r
          obtain ⟨u, ⟨hu, hn⟩, hs⟩ := (value_reads d n).sound hv
          rw [hend, List.append_nil] at hr
          subst h
          exact ⟨⟨a, u, b, ha, hu, hb, by rw [hsplit, hs, hr]⟩, hn⟩
        · rw [if_neg hend] at h
          simp at h
  · rintro ⟨⟨a, u, b, ha, hu, hb, rfl⟩, hn⟩
    have hval := (value_reads d n).complete ⟨hu, hn⟩ (numEnd_nil.ws hb)
    have hend := skipWs_append (s := []) hb (fun u hu => by simp at hu)
    rw [List.append_nil] at hval hend
    rw [read, skipWs_append ha ((spells_opens hu).append b).noWs, hval]
    simp [hend]

/-- **`tooDeep` is reported exactly where more than `n` containers open inside each other.** -/
theorem read_tooDeep_iff {d : Dialect} {n : Nat} {text : List CodeUnit} :
    read d n text = .error .tooDeep ↔ Overflows d n (skipWs text) := by
  rw [← (value_reads d n).deep, read]
  cases value d n (skipWs text) with
  | error e => simp
  | ok q =>
      obtain ⟨t, r⟩ := q
      by_cases hend : skipWs r = []
      · simp [hend]
      · simp [hend]

/-- Of items one of which is too deep, the first such one is led to. -/
theorem Separated.leadsTo {α : Type} {P F : α → List CodeUnit → Prop} {Q : List CodeUnit → Prop}
    {R : α → Prop} {xs : List α} {u : List CodeUnit} (hu : Separated P xs u)
    (hfits : ∀ x t, P x t → R x → F x t) (hdeep : ∀ x t, P x t → ¬ R x → ∀ r, Q (t ++ r))
    (hsome : ∃ x ∈ xs, ¬ R x) (r : List CodeUnit) : LeadsTo F Q (u ++ r) := by
  induction hu with
  | @last a t b x ha hx hb =>
      obtain ⟨y, hy, hR⟩ := hsome
      rw [List.mem_singleton.mp hy] at hR
      rw [List.append_assoc, List.append_assoc]
      exact .here ha (hdeep x t hx hR (b ++ r))
  | @more a t b u x xs ha hx hb _ ih =>
      by_cases hR : R x
      · have hrest : ∃ y ∈ xs, ¬ R y := by
          obtain ⟨y, hy, hRy⟩ := hsome
          rcases List.mem_cons.mp hy with rfl | hy
          · exact absurd hR hRy
          · exact ⟨y, hy, hRy⟩
        rw [List.append_assoc, List.append_assoc, List.append_assoc, List.cons_append]
        exact .later ha (hfits x t hx hR) hb (ih hrest)
      · rw [List.append_assoc, List.append_assoc]
        exact .here ha (hdeep x t hx hR _)

/-- A value that nests more containers than the bound overflows it, whatever follows. -/
theorem overflows_of_nesting {d : Dialect} {n : Nat} {t : Ast} {u : List CodeUnit}
    (h : Spells d t u) (hn : n < t.nesting) (r : List CodeUnit) : Overflows d n (u ++ r) := by
  induction n generalizing t u r with
  | zero =>
      cases h with
      | constant hc =>
          rw [(ScalarText.spells (.inl hc)).2] at hn
          exact absurd hn (Nat.lt_irrefl 0)
      | num _ _ => exact absurd hn (Nat.lt_irrefl 0)
      | str _ => exact absurd hn (Nat.lt_irrefl 0)
      | arrEmpty _ => exact ⟨_, .inl rfl⟩
      | arr _ => exact ⟨_, .inl rfl⟩
      | objEmpty _ => exact ⟨_, .inr rfl⟩
      | obj _ => exact ⟨_, .inr rfl⟩
  | succ n ih =>
      cases h with
      | constant hc =>
          rw [(ScalarText.spells (.inl hc)).2] at hn
          exact absurd hn (Nat.not_lt_zero _)
      | num _ _ => exact absurd hn (Nat.not_lt_zero _)
      | str _ => exact absurd hn (Nat.not_lt_zero _)
      | arrEmpty _ => exact absurd (Nat.lt_of_succ_lt_succ hn) (Nat.not_lt_zero n)
      | @arr xs u hu =>
          have hsome : ∃ x ∈ xs, ¬ x.nesting ≤ n := by
            by_contra hnone
            push Not at hnone
            exact Nat.not_lt.mpr (Nat.succ_le_succ (nestingElems_le.mpr hnone)) hn
          refine ⟨u ++ ([unit ']'] ++ r), .inl ⟨by simp, ?_⟩⟩
          exact hu.leadsTo (fun x t hx hfits => ⟨hx, hfits⟩)
            (fun x t hx hdeep r => ih hx (Nat.lt_of_not_le hdeep) r) hsome _
      | objEmpty _ => exact absurd (Nat.lt_of_succ_lt_succ hn) (Nat.not_lt_zero n)
      | @obj ms u hu =>
          have hsome : ∃ m ∈ ms, ¬ m.2.nesting ≤ n := by
            by_contra hnone
            push Not at hnone
            exact Nat.not_lt.mpr (Nat.succ_le_succ (nestingMembers_le.mpr hnone)) hn
          refine ⟨u ++ ([unit '}'] ++ r), .inr ⟨by simp, ?_⟩⟩
          refine hu.leadsTo (fun m t hm hfits => member_fits_iff.mpr ⟨hm, hfits⟩) ?_ hsome _
          intro m t hm hdeep r
          cases hm with
          | mk hk ha hb hv =>
              exact ⟨_, _, _, _, hk, ha, hb, ih hv (Nat.lt_of_not_le hdeep) r, by simp⟩

theorem LeadsTo.exists_rest {α : Type} {P : α → List CodeUnit → Prop} {Q : List CodeUnit → Prop}
    {s : List CodeUnit} (h : LeadsTo P Q s) : ∃ r, Q r ∧ r.length ≤ s.length := by
  induction h with
  | @here a s _ hs =>
      refine ⟨s, hs, ?_⟩
      rw [List.length_append]
      omega
  | later _ _ _ _ ih =>
      obtain ⟨r, hr, hle⟩ := ih
      refine ⟨r, hr, ?_⟩
      simp only [List.length_append, List.length_cons]
      omega

/-- A text that overflows a bound is longer than the bound. -/
theorem lt_length_of_overflows {d : Dialect} {n : Nat} {s : List CodeUnit} (h : Overflows d n s) :
    n < s.length := by
  induction n generalizing s with
  | zero =>
      obtain ⟨r, rfl | rfl⟩ := h
      · exact Nat.succ_pos _
      · exact Nat.succ_pos _
  | succ n ih =>
      obtain ⟨r, ⟨rfl, hr⟩ | ⟨rfl, hr⟩⟩ := h
      · obtain ⟨s, hs, hle⟩ := hr.exists_rest
        have hlt := ih hs
        rw [List.length_cons]
        omega
      · obtain ⟨s, ⟨k, a, b, u, -, -, -, hu, rfl⟩, hle⟩ := hr.exists_rest
        have hlt := ih hu
        simp only [List.length_append, List.length_cons] at hle ⊢
        omega

/-- A text that does not overflow nests within the bound. -/
theorem nesting_le_of_not_overflows {d : Dialect} {n : Nat} {t : Ast} {text : List CodeUnit}
    (h : Text d t text) (hover : ¬ Overflows d n (skipWs text)) : t.nesting ≤ n := by
  obtain ⟨a, u, b, ha, hu, -, rfl⟩ := h
  by_contra hn
  apply hover
  rw [skipWs_append ha ((spells_opens hu).append b).noWs]
  exact overflows_of_nesting hu (Nat.lt_of_not_le hn) b

/-- A text nests at most as deep as it is long. -/
theorem text_nesting_le {d : Dialect} {t : Ast} {text : List CodeUnit} (h : Text d t text) :
    t.nesting ≤ text.length := by
  refine nesting_le_of_not_overflows h fun hover => ?_
  have hlt := lt_length_of_overflows hover
  have hle := skipWs_length_le text
  omega

/-- A text spells one tree. -/
theorem text_unique {d : Dialect} {t t' : Ast} {text : List CodeUnit} (h : Text d t text)
    (h' : Text d t' text) : t = t' := by
  have hr := read_ok_iff.mpr ⟨h, Nat.le_max_left t.nesting t'.nesting⟩
  have hr' := read_ok_iff.mpr ⟨h', Nat.le_max_right t.nesting t'.nesting⟩
  rw [hr, Except.ok.injEq] at hr'
  exact hr'

/-- Opening more than `n` arrays overflows, whatever follows. -/
theorem overflows_brackets (d : Dialect) (n : Nat) (r : List CodeUnit) :
    Overflows d n (List.replicate (n + 1) (unit '[') ++ r) := by
  induction n with
  | zero => exact ⟨r, .inl rfl⟩
  | succ n ih =>
      refine ⟨List.replicate (n + 1) (unit '[') ++ r, .inl ⟨rfl, ?_⟩⟩
      exact .here (a := []) .nil ih

end CekatEvents.JsonText
