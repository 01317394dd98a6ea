/-
  CekatEvents.JsonText.Syntax — the grammar of JSON texts (RFC 8259) over UTF-16 code units.

  A text is described by the syntax tree it spells: `Spells d t u` says that the code units `u` are
  one JSON value whose syntax is `t`, and `Text d t u` adds the optional whitespace around it.  The
  tree keeps everything the parsers of this development disagree about — the four units after `\u`,
  the digits of every number — so that each parser's language is a condition on trees:

    * a `Dialect` says which `\u` groups and which numerals it lets through, and whether it knows the
      constants `NaN`, `Infinity` and `-Infinity`;
    * `rfc8259` is the dialect of the standard;
    * `Ast.height` counts the levels below the root, `Ast.nesting` the containers around a value.
-/
import Mathlib.Data.List.TakeWhile
import CekatEvents.Encoding.Utf

namespace CekatEvents.JsonText

open CekatEvents.Encoding

/-! ## §1. Lexical elements. -/

/-- JSON whitespace. -/
def isWs (u : CodeUnit) : Bool := u == 0x20 || u == 0x09 || u == 0x0A || u == 0x0D

/-- An ASCII decimal digit. -/
def isDigit (u : CodeUnit) : Bool := decide (0x30 ≤ u ∧ u ≤ 0x39)

/-- An ASCII hexadecimal digit. -/
def isHexDigit (u : CodeUnit) : Bool :=
  isDigit u || decide (0x41 ≤ u ∧ u ≤ 0x46) || decide (0x61 ≤ u ∧ u ≤ 0x66)

/-- A run of JSON whitespace. -/
def Ws (w : List CodeUnit) : Prop := ∀ u ∈ w, isWs u = true

/-- One or more digits. -/
def Digits (ds : List CodeUnit) : Prop := ds ≠ [] ∧ ∀ u ∈ ds, isDigit u = true

/-- The exponent part of a number. -/
structure Exponent where
  marker : CodeUnit
  sign : Option CodeUnit
  digits : List CodeUnit
  deriving DecidableEq, Repr

/-- The parts of a number as written. -/
structure Numeral where
  neg : Bool
  int : List CodeUnit
  frac : Option (List CodeUnit)
  exp : Option Exponent
  deriving DecidableEq, Repr

/-- The code units of a fraction part. -/
def fracText : Option (List CodeUnit) → List CodeUnit
  | none => []
  | some ds => unit '.' :: ds

/-- The code units of an exponent part. -/
def expText : Option Exponent → List CodeUnit
  | none => []
  | some e => e.marker :: (e.sign.toList ++ e.digits)

/-- The code units of a number. -/
def Numeral.text (n : Numeral) : List CodeUnit :=
  (if n.neg then [unit '-'] else []) ++ (n.int ++ (fracText n.frac ++ expText n.exp))

/-- An integer part: a lone zero, or digits that do not start with one. -/
def IntPart (ds : List CodeUnit) : Prop :=
  ds = [unit '0'] ∨ (Digits ds ∧ ds.head? ≠ some (unit '0'))

/-- An exponent part as the grammar has it. -/
def Exponent.WellFormed (e : Exponent) : Prop :=
  (e.marker = unit 'e' ∨ e.marker = unit 'E') ∧
    (∀ s ∈ e.sign, s = unit '+' ∨ s = unit '-') ∧ Digits e.digits

/-- A number as the grammar has it. -/
structure Numeral.WellFormed (n : Numeral) : Prop where
  int : IntPart n.int
  frac : ∀ ds ∈ n.frac, Digits ds
  exp : ∀ e ∈ n.exp, e.WellFormed

/-! ## §2. Strings. -/

/-- One element of a string literal: an unescaped unit, a two-character escape, or `\u` with the four
    units after it. -/
inductive Piece where
  | plain (u : CodeUnit)
  | short (c : CodeUnit)
  | hex (a b c d : CodeUnit)
  deriving DecidableEq, Repr

/-- The unit a two-character escape stands for. -/
def shortEscape (c : CodeUnit) : Option CodeUnit :=
  if c = unit '"' ∨ c = unit '\\' ∨ c = unit '/' then some c
  else if c = unit 'b' then some 0x08
  else if c = unit 'f' then some 0x0C
  else if c = unit 'n' then some 0x0A
  else if c = unit 'r' then some 0x0D
  else if c = unit 't' then some 0x09
  else none

/-- A unit that may stand unescaped in a string literal. -/
def isPlain (u : CodeUnit) : Bool := decide (0x20 ≤ u) && u != unit '"' && u != unit '\\'

/-- The code units of an element. -/
def Piece.text : Piece → List CodeUnit
  | .plain u => [u]
  | .short c => [unit '\\', c]
  | .hex a b c d => [unit '\\', unit 'u', a, b, c, d]

/-- The code units of a string literal. -/
def literalText (ps : List Piece) : List CodeUnit :=
  unit '"' :: (ps.flatMap Piece.text ++ [unit '"'])

/-! ## §3. Syntax trees and dialects. -/

/-- The constants some readers accept beside the three of the standard. -/
inductive NonFinite where
  | nan
  | infinity
  | negInfinity
  deriving DecidableEq, Repr

/-- The syntax of a JSON value. -/
inductive Ast where
  | null
  | bool (b : Bool)
  | nonFinite (c : NonFinite)
  | num (n : Numeral)
  | str (ps : List Piece)
  | arr (xs : List Ast)
  | obj (ms : List (List Piece × Ast))

/-- What a reader lets through beyond the shape of the grammar. -/
structure Dialect where
  hexOk : CodeUnit → CodeUnit → CodeUnit → CodeUnit → Bool
  numeralOk : Numeral → Bool
  nonFinite : Bool

/-- Four hexadecimal digits. -/
def strictHex (a b c d : CodeUnit) : Bool :=
  isHexDigit a && isHexDigit b && isHexDigit c && isHexDigit d

/-- The standard: four hexadecimal digits after `\u`, any number, three constants. -/
def rfc8259 : Dialect := ⟨strictHex, fun _ => true, false⟩

/-- The words of the literal constants, in the order they are tried. -/
def constants (d : Dialect) : List (List CodeUnit × Ast) :=
  [([unit 'n', unit 'u', unit 'l', unit 'l'], .null),
   ([unit 't', unit 'r', unit 'u', unit 'e'], .bool true),
   ([unit 'f', unit 'a', unit 'l', unit 's', unit 'e'], .bool false)] ++
  if d.nonFinite then
    [([unit 'N', unit 'a', unit 'N'], .nonFinite .nan),
     ([unit 'I', unit 'n', unit 'f', unit 'i', unit 'n', unit 'i', unit 't', unit 'y'],
       .nonFinite .infinity),
     ([unit '-', unit 'I', unit 'n', unit 'f', unit 'i', unit 'n', unit 'i', unit 't', unit 'y'],
       .nonFinite .negInfinity)]
  else []

/-- A string element the dialect lets through. -/
def Piece.ok (d : Dialect) : Piece → Bool
  | .plain u => isPlain u
  | .short c => (shortEscape c).isSome
  | .hex a b c e => d.hexOk a b c e

/-- A string literal the dialect lets through. -/
def PiecesOk (d : Dialect) (ps : List Piece) : Prop := ∀ p ∈ ps, p.ok d = true

/-! ## §4. The grammar. -/

/-- One or more items separated by commas, with whitespace around each. -/
inductive Separated {α : Type} (P : α → List CodeUnit → Prop) : List α → List CodeUnit → Prop where
  | last {a t b : List CodeUnit} {x : α} :
      Ws a → P x t → Ws b → Separated P [x] (a ++ (t ++ b))
  | more {a t b u : List CodeUnit} {x : α} {xs : List α} :
      Ws a → P x t → Ws b → Separated P xs u →
      Separated P (x :: xs) (a ++ (t ++ (b ++ unit ',' :: u)))

/-- A member of an object: a string, a colon and a value, with whitespace around the colon. -/
inductive Member (d : Dialect) (V : Ast → List CodeUnit → Prop) :
    List Piece × Ast → List CodeUnit → Prop where
  | mk {k : List Piece} {t : Ast} {a b u : List CodeUnit} :
      PiecesOk d k → Ws a → Ws b → V t u →
      Member d V (k, t) (literalText k ++ (a ++ unit ':' :: (b ++ u)))

/-- The code units spell one JSON value with this syntax. -/
inductive Spells (d : Dialect) : Ast → List CodeUnit → Prop where
  | constant {w : List CodeUnit} {t : Ast} : (w, t) ∈ constants d → Spells d t w
  | num {n : Numeral} : n.WellFormed → d.numeralOk n = true → Spells d (.num n) n.text
  | str {ps : List Piece} : PiecesOk d ps → Spells d (.str ps) (literalText ps)
  | arrEmpty {w : List CodeUnit} : Ws w → Spells d (.arr []) (unit '[' :: (w ++ [unit ']']))
  | arr {xs : List Ast} {u : List CodeUnit} :
      Separated (Spells d) xs u → Spells d (.arr xs) (unit '[' :: (u ++ [unit ']']))
  | objEmpty {w : List CodeUnit} : Ws w → Spells d (.obj []) (unit '{' :: (w ++ [unit '}']))
  | obj {ms : List (List Piece × Ast)} {u : List CodeUnit} :
      Separated (Member d (Spells d)) ms u → Spells d (.obj ms) (unit '{' :: (u ++ [unit '}']))

/-- **A JSON text**: one value, with optional whitespace on both sides. -/
def Text (d : Dialect) (t : Ast) (text : List CodeUnit) : Prop :=
  ∃ a u b, Ws a ∧ Spells d t u ∧ Ws b ∧ text = a ++ (u ++ b)

/-! ## §5. Depth. -/

mutual
/-- How many containers nest, the value itself included. -/
def Ast.nesting : Ast → Nat
  | .arr xs => nestingElems xs + 1
  | .obj ms => nestingMembers ms + 1
  | _ => 0
/-- The deepest nesting among elements. -/
def nestingElems : List Ast → Nat
  | [] => 0
  | x :: xs => max x.nesting (nestingElems xs)
/-- The deepest nesting among members. -/
def nestingMembers : List (List Piece × Ast) → Nat
  | [] => 0
  | (_, x) :: ms => max x.nesting (nestingMembers ms)
end

mutual
/-- How many levels below the root the deepest value sits. -/
def Ast.height : Ast → Nat
  | .arr xs => heightElems xs
  | .obj ms => heightMembers ms
  | _ => 0
/-- One more than the greatest height among elements; zero when there are none. -/
def heightElems : List Ast → Nat
  | [] => 0
  | x :: xs => max (x.height + 1) (heightElems xs)
/-- One more than the greatest height among members; zero when there are none. -/
def heightMembers : List (List Piece × Ast) → Nat
  | [] => 0
  | (_, x) :: ms => max (x.height + 1) (heightMembers ms)
end

theorem nestingElems_le {xs : List Ast} {n : Nat} :
    nestingElems xs ≤ n ↔ ∀ x ∈ xs, x.nesting ≤ n := by
  induction xs with
  | nil => simp [nestingElems]
  | cons x xs ih => simp [nestingElems, ih]

theorem nestingMembers_le {ms : List (List Piece × Ast)} {n : Nat} :
    nestingMembers ms ≤ n ↔ ∀ m ∈ ms, m.2.nesting ≤ n := by
  induction ms with
  | nil => simp [nestingMembers]
  | cons m ms ih =>
      obtain ⟨k, x⟩ := m
      simp [nestingMembers, ih]

theorem heightElems_le {xs : List Ast} {n : Nat} :
    heightElems xs ≤ n ↔ ∀ x ∈ xs, x.height + 1 ≤ n := by
  induction xs with
  | nil => simp [heightElems]
  | cons x xs ih => simp [heightElems, ih]

theorem heightMembers_le {ms : List (List Piece × Ast)} {n : Nat} :
    heightMembers ms ≤ n ↔ ∀ m ∈ ms, m.2.height + 1 ≤ n := by
  induction ms with
  | nil => simp [heightMembers]
  | cons m ms ih =>
      obtain ⟨k, x⟩ := m
      simp [heightMembers, ih]

/-! ## §6. Whitespace. -/

theorem Ws.nil : Ws [] := fun _ h => absurd h List.not_mem_nil

/-- Drop leading whitespace. -/
def skipWs (s : List CodeUnit) : List CodeUnit := s.dropWhile isWs

/-- The text does not start with whitespace. -/
def NoWs (s : List CodeUnit) : Prop := ∀ u ∈ s.head?, isWs u = false

theorem skipWs_split (s : List CodeUnit) : ∃ w, Ws w ∧ s = w ++ skipWs s :=
  ⟨s.takeWhile isWs, fun _ h => List.mem_takeWhile_imp h,
    (List.takeWhile_append_dropWhile).symm⟩

theorem skipWs_append {w s : List CodeUnit} (hw : Ws w) (hs : NoWs s) : skipWs (w ++ s) = s := by
  induction w with
  | nil =>
      cases s with
      | nil => rfl
      | cons u s =>
          have hu : isWs u = false := hs u (by simp)
          simp [skipWs, hu]
  | cons u w ih =>
      have hu : isWs u = true := hw u List.mem_cons_self
      have := ih fun v hv => hw v (List.mem_cons_of_mem u hv)
      simpa [skipWs, hu] using this

theorem NoWs.cons {u : CodeUnit} {s : List CodeUnit} (h : isWs u = false) : NoWs (u :: s) := by
  intro v hv
  simp only [List.head?_cons, Option.mem_def, Option.some.injEq] at hv
  exact hv ▸ h

theorem skipWs_length_le (s : List CodeUnit) : (skipWs s).length ≤ s.length :=
  (List.dropWhile_suffix isWs).length_le

end CekatEvents.JsonText
