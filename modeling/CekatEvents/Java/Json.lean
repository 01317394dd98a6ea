/-
  CekatEvents.Java.Json — the parser of the Java core (`internal/Json.java`) and the language it accepts.

  The parser's mutable position is the list of code units it has not read yet: `text.charAt(position)`
  is the head of `unread`, and an error's offset is the length of the text less that of `unread`.
  `value m` is the source's `value(depth)` with `m = MAX_DEPTH + 1 - depth`; the two container loops
  take a bound on their rounds, which `parse_total` shows is never reached.

  Every reading function is compared with its counterpart in `JsonText`, through `Except.toOption`:
  they return the same, up to decoding, in the dialect `java` in which a `\u` group is whatever
  `Integer.parseInt` reads and a number is whatever `new BigDecimal` takes.

  Main results:
    * `parse_ok_iff` — `parse` returns the decoding of the text's tree, for the texts of `java` with
                       at most 512 levels below the root;
    * `parse_total`  — otherwise it throws an `IllegalArgumentException`.
-/
import CekatEvents.JsonText.Value
import CekatEvents.Java.Jdk

namespace CekatEvents.Java

open CekatEvents.Encoding CekatEvents.JsonText

/-! ## §1. The parser. -/

/-- A parsed value, with numbers as `BigDecimal`. -/
abbrev JsonValue := Value BigDecimal

/-- What parsing throws: the parser's own error, or the one of `new BigDecimal`.  `outOfFuel` is the
    model's bound on the loops, not an exception. -/
inductive Thrown where
  | illegalArgument (unread : List CodeUnit) (message : String)
  | numberFormat
  | outOfFuel

/-- Every Java exception here is an `IllegalArgumentException` or a subclass of it. -/
def Thrown.isIllegalArgument : Thrown → Bool
  | .illegalArgument _ _ => true
  | .numberFormat => true
  | .outOfFuel => false

/-- The message of the parser's own error. -/
def Thrown.message (text : List CodeUnit) : Thrown → Option String
  | .illegalArgument unread message =>
      some ("invalid JSON at offset " ++ toString (text.length - unread.length) ++ ": " ++ message)
  | _ => none

/-- A step of the parser, from what is unread to what is left unread. -/
abbrev Parser (α : Type) := List CodeUnit → Except Thrown (α × List CodeUnit)

namespace Json

/-- The greatest depth of a value. -/
def MAX_DEPTH : Nat := 512

def error {α : Type} (unread : List CodeUnit) (message : String) : Except Thrown α :=
  .error (.illegalArgument unread message)

def skipWhitespace (unread : List CodeUnit) : List CodeUnit :=
  unread.dropWhile fun character =>
    character == unit ' ' || character == unit '\t' || character == unit '\n' ||
      character == unit '\r'

def peek (expected : CodeUnit) (unread : List CodeUnit) : Bool := unread.head? == some expected

def digit : List CodeUnit → Bool
  | [] => false
  | character :: _ => Character.isDigit character && decide (character ≤ unit '9')

def digits (unread : List CodeUnit) : List CodeUnit :=
  unread.dropWhile fun character => Character.isDigit character && decide (character ≤ unit '9')

def expect (expected : CodeUnit) (name : String) (unread : List CodeUnit) :
    Except Thrown (List CodeUnit) :=
  if peek expected unread then .ok (unread.drop 1) else error unread ("expected '" ++ name ++ "'")

/-- The loop of `string`, after the opening quote. -/
def stringLoop (out : List CodeUnit) : Parser (List CodeUnit)
  | [] => error [] "unterminated string"
  | character :: unread =>
      if character = unit '"' then .ok (out, unread)
      else if character < 0x20 then error unread "control character in string"
      else if character ≠ unit '\\' then stringLoop (out ++ [character]) unread
      else
        match unread with
        | [] => error [] "unterminated escape"
        | escape :: unread =>
            if escape = unit 'u' then
              match unread with
              | a :: b :: c :: d :: unread =>
                  match Integer.parseInt [a, b, c, d] 16 with
                  | some i => stringLoop (out ++ [toChar i]) unread
                  | none => error (a :: b :: c :: d :: unread) "invalid unicode escape"
              | unread => error unread "short unicode escape"
            else
              -- the one-character cases of the switch
              match shortEscape escape with
              | some u => stringLoop (out ++ [u]) unread
              | none => error unread "invalid escape"

def string (unread : List CodeUnit) : Except Thrown (List CodeUnit × List CodeUnit) :=
  stringLoop [] (unread.drop 1)

def integerPart (unread : List CodeUnit) : Except Thrown (List CodeUnit) :=
  if peek (unit '0') unread then .ok (unread.drop 1)
  else if digit unread then .ok (digits unread)
  else error unread "invalid number"

def fractionPart (unread : List CodeUnit) : Except Thrown (List CodeUnit) :=
  if peek (unit '.') unread then
    if digit (unread.drop 1) then .ok (digits (unread.drop 1))
    else error (unread.drop 1) "invalid fraction"
  else .ok unread

/-- Step over the sign of an exponent. -/
def exponentSign (unread : List CodeUnit) : List CodeUnit :=
  if peek (unit '+') unread || peek (unit '-') unread then unread.drop 1 else unread

def exponentPart (unread : List CodeUnit) : Except Thrown (List CodeUnit) :=
  if peek (unit 'e') unread || peek (unit 'E') unread then
    if digit (exponentSign (unread.drop 1)) then .ok (digits (exponentSign (unread.drop 1)))
    else error (exponentSign (unread.drop 1)) "invalid exponent"
  else .ok unread

def number (start : List CodeUnit) : Except Thrown (BigDecimal × List CodeUnit) := do
  let unread ← integerPart (if peek (unit '-') start then start.drop 1 else start)
  let unread ← fractionPart unread
  let unread ← exponentPart unread
  match BigDecimal.ofString? (start.take (start.length - unread.length)) with
  | some d => .ok (d, unread)
  | none => .error .numberFormat

def literal (word : List CodeUnit) (result : JsonValue) (unread : List CodeUnit) :
    Except Thrown (JsonValue × List CodeUnit) :=
  if word <+: unread then .ok (result, unread.drop word.length) else error unread "invalid literal"

/-- The loop of `array`. -/
def arrayLoop (value : Parser JsonValue) : Nat → List JsonValue → Parser (List JsonValue)
  | 0, _, _ => .error .outOfFuel
  | fuel + 1, result, unread => do
      let (v, unread) ← value (skipWhitespace unread)
      if peek (unit ',') (skipWhitespace unread) then
        arrayLoop value fuel (result ++ [v]) ((skipWhitespace unread).drop 1)
      else
        let unread ← expect (unit ']') "]" (skipWhitespace unread)
        .ok (result ++ [v], unread)

def array (value : Parser JsonValue) (unread : List CodeUnit) :
    Except Thrown (JsonValue × List CodeUnit) :=
  let inside := skipWhitespace (unread.drop 1)
  if peek (unit ']') inside then .ok (.arr [], inside.drop 1)
  else do
    let (result, unread) ← arrayLoop value unread.length [] inside
    .ok (.arr result, unread)

/-- The loop of `object`. -/
def objectLoop (value : Parser JsonValue) :
    Nat → List (List CodeUnit × JsonValue) → Parser (List (List CodeUnit × JsonValue))
  | 0, _, _ => .error .outOfFuel
  | fuel + 1, result, unread =>
      if peek (unit '"') (skipWhitespace unread) then do
        let (key, unread) ← string (skipWhitespace unread)
        let unread ← expect (unit ':') ":" (skipWhitespace unread)
        let (v, unread) ← value (skipWhitespace unread)
        if peek (unit ',') (skipWhitespace unread) then
          objectLoop value fuel (putKey result key v) ((skipWhitespace unread).drop 1)
        else
          let unread ← expect (unit '}') "\x7d" (skipWhitespace unread)
          .ok (putKey result key v, unread)
      else error (skipWhitespace unread) "expected object key"

def object (value : Parser JsonValue) (unread : List CodeUnit) :
    Except Thrown (JsonValue × List CodeUnit) :=
  let inside := skipWhitespace (unread.drop 1)
  if peek (unit '}') inside then .ok (.obj [], inside.drop 1)
  else do
    let (result, unread) ← objectLoop value unread.length [] inside
    .ok (.obj result, unread)

/-- One value, given the parser of the values inside it. -/
def valueStep (inner : Parser JsonValue) : Parser JsonValue
  | [] => error [] "unexpected end of input"
  | character :: unread =>
      if character = unit '{' then object inner (character :: unread)
      else if character = unit '[' then array inner (character :: unread)
      else if character = unit '"' then do
        let (s, unread) ← string (character :: unread)
        .ok (.str s, unread)
      else if character = unit 't' then literal (units "true") (.bool true) (character :: unread)
      else if character = unit 'f' then literal (units "false") (.bool false) (character :: unread)
      else if character = unit 'n' then literal (units "null") .null (character :: unread)
      else if character = unit '-' ∨ (unit '0' ≤ character ∧ character ≤ unit '9') then do
        let (d, unread) ← number (character :: unread)
        .ok (.num d, unread)
      else error (character :: unread) "unexpected character"

/-- `value(depth)` with `MAX_DEPTH + 1 - depth` levels left. -/
def value : Nat → Parser JsonValue
  | 0 => fun unread => error unread "nesting too deep"
  | levels + 1 => valueStep (value levels)

def parse (text : List CodeUnit) : Except Thrown JsonValue := do
  let (v, unread) ← value (MAX_DEPTH + 1) (skipWhitespace text)
  if skipWhitespace unread ≠ [] then error (skipWhitespace unread) "trailing content"
  .ok v

end Json

/-! ## §2. The dialect of the parser. -/

/-- The grammar's shape as the parser has it: a `\u` group is anything `parseInt` reads. -/
def shape : Dialect :=
  ⟨fun a b c d => (Integer.parseInt [a, b, c, d] 16).isSome, fun _ => true, false⟩

/-- What the parser lets through: the shape, with numbers that `BigDecimal` can hold. -/
def java : Dialect := { shape with numeralOk := fun n => (bigDecimal? n).isSome }

/-- The code unit of a `\u` group the parser reads. -/
def escapeUnit (a b c d : CodeUnit) : CodeUnit :=
  ((Integer.parseInt [a, b, c, d] 16).map toChar).getD 0

/-- What the parser makes of a tree. -/
def javaDecoder : Decoder BigDecimal :=
  ⟨escapeUnit, fun n => (bigDecimal? n).getD ⟨0, 0, by decide⟩, fun _ => ⟨0, 0, by decide⟩⟩

namespace Json

/-! ## §3. Whitespace, strings and numbers. -/

theorem skipWhitespace_eq (s : List CodeUnit) : skipWhitespace s = skipWs s := rfl

@[simp] theorem toOption_error {α : Type} (s : List CodeUnit) (m : String) :
    (error s m : Except Thrown α).toOption = none := rfl

@[simp] theorem toOption_err {ε α : Type} (e : ε) : (Except.error e : Except ε α).toOption = none := rfl

@[simp] theorem toOption_ok {ε α : Type} (a : α) : (Except.ok a : Except ε α).toOption = some a := rfl

@[simp] theorem peek_cons (u c : CodeUnit) (s : List CodeUnit) :
    peek u (c :: s) = decide (c = u) := by
  simp [peek, Bool.beq_eq_decide_eq]

@[simp] theorem peek_nil (u : CodeUnit) : peek u [] = false := rfl

theorem toOption_bind {ε α β : Type} (x : Except ε α) (f : α → Except ε β) :
    (x >>= f).toOption = x.toOption.bind fun a => (f a).toOption := by
  cases x <;> rfl

theorem stringLoop_quote (out s : List CodeUnit) :
    stringLoop out (unit '"' :: s) = .ok (out, s) := by
  rw [stringLoop.eq_def]; simp

theorem stringLoop_hex (out : List CodeUnit) (a b c d : CodeUnit) (s : List CodeUnit) :
    stringLoop out (unit '\\' :: unit 'u' :: a :: b :: c :: d :: s)
      = match Integer.parseInt [a, b, c, d] 16 with
        | some i => stringLoop (out ++ [toChar i]) s
        | none => error (a :: b :: c :: d :: s) "invalid unicode escape" := by
  rw [stringLoop.eq_def]
  simp only [ne_eq, not_true_eq_false, if_false, if_true]
  rw [if_neg (by decide), if_neg (by decide)]

theorem stringLoop_short (out : List CodeUnit) {c : CodeUnit} (hc : c ≠ unit 'u')
    (s : List CodeUnit) :
    stringLoop out (unit '\\' :: c :: s)
      = match shortEscape c with
        | some u => stringLoop (out ++ [u]) s
        | none => error s "invalid escape" := by
  rw [stringLoop.eq_def]
  simp only [ne_eq, not_true_eq_false, if_false, hc]
  rw [if_neg (by decide), if_neg (by decide)]

theorem stringLoop_plain (out : List CodeUnit) {u : CodeUnit} (hq : u ≠ unit '"')
    (hb : u ≠ unit '\\') (s : List CodeUnit) :
    stringLoop out (u :: s)
      = if u < 0x20 then error s "control character in string"
        else stringLoop (out ++ [u]) s := by
  rw [stringLoop.eq_def]
  simp [hq, hb]

theorem isPlain_iff {u : CodeUnit} (hq : u ≠ unit '"') (hb : u ≠ unit '\\') :
    isPlain u = true ↔ ¬ u < 0x20 := by
  have hq' : (u != unit '"') = true := by simpa using hq
  have hb' : (u != unit '\\') = true := by simpa using hb
  simp only [isPlain, hq', hb', Bool.and_true, decide_eq_true_eq]
  exact UInt16.not_lt.symm

theorem map_pushPiece {p : Piece} {r : Option (List Piece × List CodeUnit)} (out : List CodeUnit) :
    (pushPiece p r).map (fun q => (out ++ decodeString escapeUnit q.1, q.2))
      = r.map fun q => (out ++ [p.decode escapeUnit] ++ decodeString escapeUnit q.1, q.2) := by
  cases r <;> simp [pushPiece, decodeString]

/-- **The string loop reads what the grammar's reader reads**, appending its decoding. -/
theorem stringLoop_toOption (out s : List CodeUnit) :
    (stringLoop out s).toOption
      = (pieces java s).map fun q => (out ++ decodeString escapeUnit q.1, q.2) := by
  induction s using pieces.induct java generalizing out with
  | case1 => rfl
  | case2 s =>
      rw [stringLoop_quote, pieces_quote]
      simp [decodeString, Except.toOption]
  | case3 => rfl
  | case4 a b e f s hx hne ih =>
      have hgroup : (Integer.parseInt [a, b, e, f] 16).isSome = true := hx
      obtain ⟨i, hi⟩ := Option.isSome_iff_exists.mp hgroup
      have hdec : escapeUnit a b e f = toChar i := by rw [escapeUnit, hi]; rfl
      rw [stringLoop_hex, hi, pieces_hex, if_pos hx, map_pushPiece, Piece.decode, hdec]
      exact ih _
  | case5 a b e f s hx hne =>
      have hgroup : Integer.parseInt [a, b, e, f] 16 = none := by
        cases hp : Integer.parseInt [a, b, e, f] 16 with
        | none => rfl
        | some i => exact absurd (show java.hexOk a b e f = true by simp [java, shape, hp]) hx
      rw [stringLoop_hex, hgroup, pieces_hex, if_neg hx]
      rfl
  | case6 s hshape hne =>
      -- fewer than four units left after `\u`
      rw [stringLoop.eq_def, pieces.eq_def]
      simp only [hne, if_false, if_true, ne_eq, not_true_eq_false]
      rw [if_neg (by decide)]
      rfl
  | case7 c s hc hshort hne ih =>
      obtain ⟨u, hu⟩ := Option.isSome_iff_exists.mp hshort
      have hdec : (Piece.short c).decode escapeUnit = u := by rw [Piece.decode, hu]; rfl
      rw [stringLoop_short out hc, hu, pieces_short java hc, if_pos hshort, map_pushPiece, hdec]
      exact ih _
  | case8 c s hc hshort hne =>
      have hnone : shortEscape c = none := by simpa using hshort
      rw [stringLoop_short out hc, hnone, pieces_short java hc, if_neg hshort]
      rfl
  | case9 u s hu hb hplain ih =>
      rw [stringLoop_plain out hu hb, if_neg ((isPlain_iff hu hb).mp hplain),
        pieces_plain java hu hb, if_pos hplain, map_pushPiece, Piece.decode]
      exact ih _
  | case10 u s hu hb hplain =>
      have hlow : u < 0x20 := not_not.mp fun h => hplain ((isPlain_iff hu hb).mpr h)
      rw [stringLoop_plain out hu hb, if_pos hlow, pieces_plain java hu hb, if_neg hplain]
      rfl

theorem string_toOption (u : CodeUnit) (s : List CodeUnit) :
    (string (u :: s)).toOption
      = (pieces java s).map fun q => (decodeString escapeUnit q.1, q.2) := by
  have h := stringLoop_toOption [] s
  simpa [string] using h

theorem digits_eq (s : List CodeUnit) : digits s = s.dropWhile isDigit := by
  simp only [digits, isDigit_ascii]

theorem digit_cons (u : CodeUnit) (s : List CodeUnit) : digit (u :: s) = isDigit u :=
  isDigit_ascii u

/-- A run of digits is stepped over where the grammar's reader finds one. -/
theorem digits_toOption (s : List CodeUnit) (m : String) :
    (if digit s then (.ok (digits s) : Except Thrown (List CodeUnit)) else error s m).toOption
      = (someDigits s).map Prod.snd := by
  cases s with
  | nil => rfl
  | cons u s =>
      rw [digit_cons, digits_eq, someDigits]
      cases hu : isDigit u with
      | true => simp [hu, Except.toOption]
      | false => simp [hu]

theorem integerPart_toOption (s : List CodeUnit) :
    (integerPart s).toOption = (intPart s).map Prod.snd := by
  cases s with
  | nil => rfl
  | cons u s =>
      rw [integerPart, intPart, peek_cons]
      by_cases hu : u = unit '0'
      · simp [hu, Except.toOption]
      · simp only [hu, decide_false, Bool.false_eq_true, if_false]
        exact digits_toOption (u :: s) "invalid number"

theorem fractionPart_toOption (s : List CodeUnit) :
    (fractionPart s).toOption = (fracPart s).map Prod.snd := by
  cases s with
  | nil => rfl
  | cons u s =>
      rw [fractionPart, fracPart, peek_cons]
      by_cases hu : u = unit '.'
      · simp only [hu, decide_true, if_true, List.drop_succ_cons, List.drop_zero]
        rw [digits_toOption s "invalid fraction", Option.map_map]
        rfl
      · simp [hu, Except.toOption]

theorem exponentSign_eq (s : List CodeUnit) : exponentSign s = (expSign s).2 := by
  cases s with
  | nil => rfl
  | cons u s =>
      rw [exponentSign, expSign, peek_cons, peek_cons]
      by_cases hu : u = unit '+' ∨ u = unit '-'
      · rw [if_pos hu, if_pos (by simpa using hu)]
        rfl
      · rw [if_neg hu, if_neg (by simpa using hu)]

theorem exponentPart_toOption (s : List CodeUnit) :
    (exponentPart s).toOption = (expPart s).map Prod.snd := by
  cases s with
  | nil => rfl
  | cons u s =>
      rw [exponentPart, expPart, peek_cons, peek_cons]
      by_cases hu : u = unit 'e' ∨ u = unit 'E'
      · rw [if_pos hu, if_pos (by simpa using hu), List.drop_succ_cons, List.drop_zero,
          digits_toOption _ "invalid exponent", exponentSign_eq, Option.map_map]
        rfl
      · rw [if_neg hu, if_neg (by simpa using hu)]
        rfl

theorem minus_eq (s : List CodeUnit) :
    (if peek (unit '-') s then s.drop 1 else s) = (minus s).2 := by
  cases s with
  | nil => rfl
  | cons u s =>
      rw [peek_cons, minus]
      by_cases hu : u = unit '-'
      · simp [hu]
      · simp [hu]

theorem take_of_append {s t r : List CodeUnit} (h : s = t ++ r) :
    s.take (s.length - r.length) = t := by
  rw [h]
  simp

/-- **A number is read where the grammar's reader finds one that `BigDecimal` can hold.** -/
theorem number_toOption (s : List CodeUnit) :
    (number s).toOption
      = (JsonText.number java s).map fun q => (javaDecoder.num q.1, q.2) := by
  rw [number, minus_eq, toOption_bind, integerPart_toOption, JsonText.number]
  cases hi : intPart (minus s).2 with
  | none => rfl
  | some i =>
      simp only [Option.map_some, Option.bind_eq_bind, Option.bind_some, toOption_bind,
        fractionPart_toOption]
      cases hf : fracPart i.2 with
      | none => rfl
      | some f =>
          simp only [Option.map_some, Option.bind_some, exponentPart_toOption]
          cases he : expPart f.2 with
          | none => rfl
          | some e =>
              -- the text between the two positions is the numeral's own
              have hshape : JsonText.number shape s
                  = some (⟨(minus s).1, i.1, f.1, e.1⟩, e.2) := by
                simp [JsonText.number, hi, hf, he, shape]
              obtain ⟨hwf, -, hsplit⟩ := number_sound hshape
              have htake := take_of_append hsplit
              simp only [Option.map_some, Option.bind_some, htake, BigDecimal.ofString?_text hwf]
              show _ = Option.map _ (if (bigDecimal? _).isSome = true then _ else _)
              cases hd : bigDecimal? ⟨(minus s).1, i.1, f.1, e.1⟩ with
              | none => rfl
              | some d => simp [javaDecoder, hd, Except.toOption]

/-! ## §4. Containers. -/

theorem skipWs_idem (s : List CodeUnit) : skipWs (skipWs s) = skipWs s := by
  induction s with
  | nil => rfl
  | cons u s ih =>
      cases hu : isWs u with
      | true => simpa [skipWs, hu] using ih
      | false => simp [skipWs, hu]

theorem sequence_skipWs {α : Type} (item : ItemReader α) (close : CodeUnit) (k : Nat)
    (s : List CodeUnit) : sequence item close k (skipWs s) = sequence item close k s := by
  cases k with
  | zero => rfl
  | succ k => rw [JsonText.sequence, JsonText.sequence, skipWs_idem]

/-- The levels the parser still allows, as a check on what the grammar's reader returned. -/
def gate (levels : Nat) (q : Ast × List CodeUnit) : Option (JsonValue × List CodeUnit) :=
  if q.1.height < levels then some (q.1.decode javaDecoder, q.2) else none

section Containers

variable {inner : Parser JsonValue} {item : ItemReader Ast} {levels : Nat}

theorem expect_toOption (c : CodeUnit) (name : String) (u : CodeUnit) (s : List CodeUnit) :
    (expect c name (u :: s)).toOption = if u = c then some s else none := by
  rw [expect, peek_cons]
  by_cases hu : u = c
  · simp [hu, Except.toOption]
  · simp [hu]

/-- **The array loop reads the elements of the grammar's reader**, each within the levels left. -/
theorem arrayLoop_toOption (h : ∀ s, (inner s).toOption = (item s).toOption.bind (gate levels))
    (fuel : Nat) (acc : List JsonValue) (s : List CodeUnit) :
    (arrayLoop inner fuel acc s).toOption
      = (sequence item (unit ']') fuel s).toOption.bind fun q =>
          if ∀ t ∈ q.1, t.height < levels then
            some (acc ++ q.1.map (Ast.decode javaDecoder), q.2)
          else none := by
  induction fuel generalizing acc s with
  | zero => rfl
  | succ fuel ih =>
      rw [arrayLoop, toOption_bind, skipWhitespace_eq, h, JsonText.sequence]
      cases hi : item (skipWs s) with
      | error e => rfl
      | ok q =>
          obtain ⟨t, r⟩ := q
          simp only [toOption_ok, Option.bind_some, gate]
          rw [← skipWhitespace_eq r]
          by_cases ht : t.height < levels
          · rw [if_pos ht, Option.bind_some]
            simp only
            cases hr : skipWhitespace r with
            | nil => rfl
            | cons v r =>
                simp only [peek_cons, List.drop_succ_cons, List.drop_zero]
                by_cases hv : v = unit ','
                · have hne : v ≠ unit ']' := by rw [hv]; decide
                  rw [if_pos (by simpa using hv), ih, if_neg hne, if_pos hv]
                  cases JsonText.sequence item (unit ']') fuel r with
                  | error e => rfl
                  | ok q => simp [ht]
                · rw [if_neg (by simpa using hv), toOption_bind, expect_toOption]
                  by_cases hc : v = unit ']'
                  · simp [hc, ht]
                  · rw [if_neg hc, if_neg hc, if_neg hv]
                    rfl
          · -- a value too deep for the parser is rejected there, whatever follows it
            rw [if_neg ht, Option.bind_none]
            cases hr : skipWhitespace r with
            | nil => rfl
            | cons v r =>
                simp only
                by_cases hc : v = unit ']'
                · simp [hc, ht]
                · by_cases hv : v = unit ','
                  · rw [if_neg hc, if_pos hv]
                    cases JsonText.sequence item (unit ']') fuel r with
                    | error e => rfl
                    | ok q => simp [ht]
                  · rw [if_neg hc, if_neg hv]
                    rfl

/-- The members read, each value within the levels left, put into the map. -/
def gateMembers (levels : Nat) (acc : List (List CodeUnit × JsonValue))
    (q : List (List Piece × Ast) × List CodeUnit) :
    Option (List (List CodeUnit × JsonValue) × List CodeUnit) :=
  if ∀ m ∈ q.1, m.2.height < levels then some (decodeMembers javaDecoder acc q.1, q.2) else none

theorem gateMembers_cons (k : List Piece) (t : Ast) (acc : List (List CodeUnit × JsonValue))
    (q : List (List Piece × Ast) × List CodeUnit) :
    gateMembers levels acc ((k, t) :: q.1, q.2)
      = if t.height < levels then
          gateMembers levels (putKey acc (decodeString escapeUnit k) (t.decode javaDecoder)) q
        else none := by
  have hdec : decodeMembers javaDecoder acc ((k, t) :: q.1)
      = decodeMembers javaDecoder (putKey acc (decodeString escapeUnit k) (t.decode javaDecoder))
          q.1 := rfl
  simp only [gateMembers, List.forall_mem_cons, hdec]
  by_cases ht : t.height < levels
  · simp only [ht, true_and, if_true]
  · simp only [ht, false_and, if_false]

/-- One round of the object loop, from the key on. -/
theorem objectLoop_value (h : ∀ s, (inner s).toOption = (item s).toOption.bind (gate levels))
    (fuel : Nat) (acc : List (List CodeUnit × JsonValue)) (key : List CodeUnit)
    (s : List CodeUnit) :
    (do
      let unread ← expect (unit ':') ":" (skipWhitespace s)
      let (v, unread) ← inner (skipWhitespace unread)
      if peek (unit ',') (skipWhitespace unread) then
        objectLoop inner fuel (putKey acc key v) ((skipWhitespace unread).drop 1)
      else
        let unread ← expect (unit '}') "\x7d" (skipWhitespace unread)
        .ok (putKey acc key v, unread) : Except Thrown (List (List CodeUnit × JsonValue) × List CodeUnit)).toOption
      = match skipWhitespace s with
        | [] => none
        | c :: s =>
            if c = unit ':' then
              (item (skipWhitespace s)).toOption.bind fun q =>
                if q.1.height < levels then
                  match skipWhitespace q.2 with
                  | [] => none
                  | v :: r =>
                      if v = unit ',' then
                        (objectLoop inner fuel (putKey acc key (q.1.decode javaDecoder)) r).toOption
                      else if v = unit '}' then some (putKey acc key (q.1.decode javaDecoder), r)
                      else none
                else none
            else none := by
  rw [toOption_bind]
  cases hs : skipWhitespace s with
  | nil => rfl
  | cons c s =>
      rw [expect_toOption]
      by_cases hc : c = unit ':'
      · simp only [hc, if_true, Option.bind_some, toOption_bind, h, Option.bind_assoc]
        congr 1
        funext q
        rw [gate]
        by_cases hq : q.1.height < levels
        · simp only [hq, if_true, Option.bind_some]
          cases hr : skipWhitespace q.2 with
          | nil => rfl
          | cons v r =>
              simp only [peek_cons, List.drop_succ_cons, List.drop_zero]
              by_cases hv : v = unit ','
              · rw [if_pos (by simpa using hv), if_pos hv]
              · rw [if_neg (by simpa using hv), if_neg hv, toOption_bind, expect_toOption]
                by_cases hb : v = unit '}'
                · rw [if_pos hb, if_pos hb]
                  rfl
                · rw [if_neg hb, if_neg hb]
                  rfl
        · simp only [hq, if_false, Option.bind_none]
      · simp only [hc, if_false, Option.bind_none]

/-- **The object loop reads the members of the grammar's reader**, each value within the levels
    left, and puts them into the map one after another. -/
theorem objectLoop_toOption (h : ∀ s, (inner s).toOption = (item s).toOption.bind (gate levels))
    (fuel : Nat) (acc : List (List CodeUnit × JsonValue)) (s : List CodeUnit) :
    (objectLoop inner fuel acc s).toOption
      = (JsonText.sequence (member java item) (unit '}') fuel s).toOption.bind
          (gateMembers levels acc) := by
  induction fuel generalizing acc s with
  | zero => rfl
  | succ fuel ih =>
      rw [objectLoop, JsonText.sequence, ← skipWhitespace_eq s]
      cases hs : skipWhitespace s with
      | nil => rfl
      | cons u s =>
          rw [peek_cons, member]
          by_cases hu : u = unit '"'
          · rw [if_pos (by simpa using hu), if_pos hu, toOption_bind, string_toOption]
            cases hp : pieces java s with
            | none => rfl
            | some p =>
                obtain ⟨k, s⟩ := p
                simp only [Option.map_some, Option.bind_some]
                rw [objectLoop_value h, ← skipWhitespace_eq s]
                cases hs : skipWhitespace s with
                | nil => rfl
                | cons c s =>
                    simp only
                    by_cases hc : c = unit ':'
                    · rw [if_pos hc, if_pos hc, ← skipWhitespace_eq s]
                      cases hi : item (skipWhitespace s) with
                      | error e => rfl
                      | ok q =>
                          obtain ⟨t, r⟩ := q
                          simp only [toOption_ok, Option.bind_some, ← skipWhitespace_eq r]
                          cases hr : skipWhitespace r with
                          | nil => simp
                          | cons v r =>
                              simp only
                              by_cases hv : v = unit ','
                              · have hne : v ≠ unit '}' := by rw [hv]; decide
                                rw [if_pos hv, if_neg hne, if_pos hv, ih]
                                cases JsonText.sequence (member java item) (unit '}') fuel r with
                                | error e => simp
                                | ok q => exact (gateMembers_cons k t acc q).symm
                              · rw [if_neg hv, if_neg hv]
                                by_cases hb : v = unit '}'
                                · rw [if_pos hb, if_pos hb]
                                  exact (gateMembers_cons k t acc ([], r)).symm
                                · simp [hb]
                    · rw [if_neg hc, if_neg hc]
                      rfl
          · rw [if_neg (by simpa using hu), if_neg hu]
            rfl

theorem sequence_inside {α : Type} (item : ItemReader α) (close : CodeUnit) (k : Nat)
    {s inside : List CodeUnit} (hs : skipWhitespace s = inside) :
    JsonText.sequence item close k inside = JsonText.sequence item close k s := by
  rw [← hs, skipWhitespace_eq, sequence_skipWs]

theorem array_toOption (h : ∀ s, (inner s).toOption = (item s).toOption.bind (gate levels))
    (hnil : (item []).toOption = none) (u : CodeUnit) (s : List CodeUnit) :
    (array inner (u :: s)).toOption
      = (bracketed item (unit ']') s).toOption.bind fun q =>
          if ∀ t ∈ q.1, t.height < levels then
            some (.arr (q.1.map (Ast.decode javaDecoder)), q.2)
          else none := by
  simp only [array, bracketed, List.drop_succ_cons, List.drop_zero, ← skipWhitespace_eq s]
  cases hs : skipWhitespace s with
  | nil =>
      have hend : (inner []).toOption = none := by rw [h, hnil]; rfl
      simp only [peek_nil, Bool.false_eq_true, if_false, List.length_cons, toOption_bind, arrayLoop]
      rw [show skipWhitespace [] = [] from rfl, hend]
      rfl
  | cons v r =>
      rw [peek_cons]
      by_cases hv : v = unit ']'
      · simp [hv]
      · rw [if_neg (by simpa using hv), toOption_bind, arrayLoop_toOption h,
          sequence_inside item _ _ hs]
        simp only [hv, if_false, List.length_cons]
        cases JsonText.sequence item (unit ']') (s.length + 1) s with
        | error e => rfl
        | ok q =>
            by_cases hq : ∀ t ∈ q.1, t.height < levels
            · simp only [toOption_ok, Option.bind_some, if_pos hq, List.nil_append]
            · simp only [toOption_ok, Option.bind_some, if_neg hq, Option.bind_none]

theorem object_toOption (h : ∀ s, (inner s).toOption = (item s).toOption.bind (gate levels))
    (u : CodeUnit) (s : List CodeUnit) :
    (object inner (u :: s)).toOption
      = (bracketed (member java item) (unit '}') s).toOption.bind fun q =>
          if ∀ m ∈ q.1, m.2.height < levels then
            some (.obj (decodeMembers javaDecoder [] q.1), q.2)
          else none := by
  simp only [object, bracketed, List.drop_succ_cons, List.drop_zero, ← skipWhitespace_eq s]
  cases hs : skipWhitespace s with
  | nil => rfl
  | cons v r =>
      rw [peek_cons]
      by_cases hv : v = unit '}'
      · simp [hv, decodeMembers]
      · rw [if_neg (by simpa using hv), toOption_bind, objectLoop_toOption h,
          sequence_inside (member java item) _ _ hs]
        simp only [hv, if_false, List.length_cons]
        cases JsonText.sequence (member java item) (unit '}') (s.length + 1) s with
        | error e => rfl
        | ok q =>
            simp only [toOption_ok, Option.bind_some, gateMembers]
            by_cases hq : ∀ m ∈ q.1, m.2.height < levels
            · simp only [if_pos hq, Option.bind_some]
            · simp only [if_neg hq, Option.bind_none]

end Containers

/-! ## §5. Values and whole texts. -/

theorem literal_java_none {u : CodeUnit} (hn : u ≠ unit 'n') (ht : u ≠ unit 't')
    (hf : u ≠ unit 'f') (s : List CodeUnit) : JsonText.literal java (u :: s) = none := by
  simp [JsonText.literal, constants, java, shape, Ne.symm hn, Ne.symm ht, Ne.symm hf]

theorem number_eq_none {d : Dialect} {u : CodeUnit} (hminus : u ≠ unit '-')
    (hdigit : isDigit u = false) (s : List CodeUnit) : JsonText.number d (u :: s) = none := by
  have hzero : u ≠ unit '0' := by
    intro h
    rw [h] at hdigit
    exact absurd hdigit (by decide)
  simp [JsonText.number, minus, hminus, intPart, hzero, someDigits, hdigit]

/-- A word of the switch is read as the grammar's constant: no other constant starts like it. -/
theorem literal_toOption {word : List CodeUnit} {t : Ast} (hword : (word, t) ∈ constants java)
    (honly : ∀ c ∈ constants java, c.1.head? = word.head? → c.1 = word)
    (hstart : ∀ u ∈ word, u ≠ unit '-' ∧ isDigit u = false) (ht : t.height = 0)
    {u : CodeUnit} (hu : word.head? = some u) (s : List CodeUnit) (levels : Nat) :
    (literal word (t.decode javaDecoder) (u :: s)).toOption
      = (scalar java (u :: s)).toOption.bind (gate (levels + 1)) := by
  rw [literal, scalar]
  by_cases hpre : word <+: u :: s
  · obtain ⟨r, hr⟩ := hpre
    rw [← hr, literal_complete hword r, if_pos (List.prefix_append word r)]
    simp [gate, ht]
  · have hnone : JsonText.literal java (u :: s) = none := by
      cases hl : JsonText.literal java (u :: s) with
      | none => rfl
      | some q =>
          obtain ⟨w, hw, hsplit⟩ := literal_sound hl
          have hhead : w.head? = word.head? := by
            cases w with
            | nil => rcases constants_cases hw with ⟨h, -⟩ | ⟨h, -⟩ | ⟨h, -⟩ | ⟨h, -⟩ <;> cases h
            | cons v w =>
                rw [hu, (List.cons.inj hsplit).1]
                rfl
          have hsame := honly _ hw hhead
          exact absurd ⟨q.2, by rw [← hsame]; exact hsplit.symm⟩ hpre
    obtain ⟨hminus, hdigit⟩ := hstart u (List.mem_of_head? hu)
    rw [if_neg hpre, hnone, number_eq_none hminus hdigit]
    rfl

theorem toOption_map {ε α β : Type} (x : Except ε α) (f : α → β) :
    (x.map f).toOption = x.toOption.map f := by
  cases x <;> rfl

theorem gate_arr (levels : Nat) (q : List Ast × List CodeUnit) :
    gate (levels + 1) (.arr q.1, q.2)
      = if ∀ t ∈ q.1, t.height < levels then
          some (.arr (q.1.map (Ast.decode javaDecoder)), q.2)
        else none := by
  have hiff : (Ast.arr q.1).height < levels + 1 ↔ ∀ t ∈ q.1, t.height < levels := by
    rw [Nat.lt_succ_iff, Ast.height, heightElems_le]
    exact Iff.rfl
  rw [gate, Ast.decode, decodeElems_eq_map]
  simp only [hiff]

theorem gate_obj (levels : Nat) (q : List (List Piece × Ast) × List CodeUnit) :
    gate (levels + 1) (.obj q.1, q.2)
      = if ∀ m ∈ q.1, m.2.height < levels then
          some (.obj (decodeMembers javaDecoder [] q.1), q.2)
        else none := by
  have hiff : (Ast.obj q.1).height < levels + 1 ↔ ∀ m ∈ q.1, m.2.height < levels := by
    rw [Nat.lt_succ_iff, Ast.height, heightMembers_le]
    exact Iff.rfl
  rw [gate, Ast.decode]
  simp only [hiff]

theorem value_nil (d : Dialect) (n : Nat) : (JsonText.value d n []).toOption = none := by
  cases n <;> rfl

/-- One level of the parser against one level of the grammar's reader. -/
theorem valueStep_toOption {inner : Parser JsonValue} {levels n : Nat}
    (h : ∀ s, (inner s).toOption = (JsonText.value java n s).toOption.bind (gate levels))
    (s : List CodeUnit) :
    (valueStep inner s).toOption
      = (JsonText.value java (n + 1) s).toOption.bind (gate (levels + 1)) := by
  cases s with
  | nil => rfl
  | cons u s =>
      rw [JsonText.value]
      by_cases hbrace : u = unit '{'
      · subst hbrace
        rw [valueWith_brace, toOption_map]
        simp only [valueStep, if_true, object_toOption h]
        cases (bracketed (member java (JsonText.value java n)) (unit '}') s).toOption with
        | none => rfl
        | some q => exact (gate_obj levels q).symm
      · by_cases hsq : u = unit '['
        · subst hsq
          rw [valueWith_bracket, toOption_map]
          simp only [valueStep, if_true, hbrace, if_false, array_toOption h (value_nil java n)]
          cases (bracketed (JsonText.value java n) (unit ']') s).toOption with
          | none => rfl
          | some q => exact (gate_arr levels q).symm
        · by_cases hq : u = unit '"'
          · subst hq
            simp only [valueStep, valueWith, if_true, hbrace, hsq, if_false, toOption_bind,
              string_toOption]
            cases pieces java s with
            | none => rfl
            | some q => rfl
          · simp only [valueStep, valueWith, hbrace, hsq, hq, if_false]
            by_cases ht : u = unit 't'
            · rw [if_pos ht]
              exact literal_toOption (t := .bool true) (by simp [constants, units]) (by decide)
                (by decide) rfl (by rw [ht]; rfl) s levels
            · by_cases hf : u = unit 'f'
              · rw [if_neg ht, if_pos hf]
                exact literal_toOption (t := .bool false) (by simp [constants, units]) (by decide)
                  (by decide) rfl (by rw [hf]; rfl) s levels
              · by_cases hn : u = unit 'n'
                · rw [if_neg ht, if_neg hf, if_pos hn]
                  exact literal_toOption (t := .null) (by simp [constants, units]) (by decide)
                    (by decide) rfl (by rw [hn]; rfl) s levels
                · rw [if_neg ht, if_neg hf, if_neg hn, scalar, literal_java_none hn ht hf]
                  by_cases hnum : u = unit '-' ∨ (unit '0' ≤ u ∧ u ≤ unit '9')
                  · rw [if_pos hnum, toOption_bind, number_toOption]
                    cases JsonText.number java (u :: s) with
                    | none => rfl
                    | some q => simp [gate, Ast.height, Ast.decode]
                  · have hdigit : isDigit u = false := by
                      have hnot := fun hd => hnum (.inr hd)
                      exact decide_eq_false hnot
                    rw [if_neg hnum, number_eq_none (fun h => hnum (.inl h)) hdigit]
                    rfl

/-- **The parser against the grammar's reader**, by induction on the levels left. -/
theorem value_toOption {levels n : Nat} (hn : levels ≤ n) (s : List CodeUnit) :
    (value levels s).toOption = (JsonText.value java n s).toOption.bind (gate levels) := by
  induction levels generalizing n s with
  | zero =>
      rw [value]
      cases (JsonText.value java n s).toOption with
      | none => rfl
      | some q => simp [gate]
  | succ levels ih =>
      obtain ⟨n, rfl⟩ : ∃ k, n = k + 1 := ⟨n - 1, by omega⟩
      exact valueStep_toOption (fun s => ih (by omega) s) s

/-! ## §6. What is thrown. -/

/-- Whatever is thrown is an `IllegalArgumentException`. -/
def Contained {α : Type} (x : Except Thrown α) : Prop :=
  ∀ e, x = .error e → e.isIllegalArgument = true

theorem Contained.ok {α : Type} (a : α) : Contained (.ok a) := by
  intro e h
  cases h

theorem contained_error {α : Type} (s : List CodeUnit) (m : String) :
    Contained (error s m : Except Thrown α) := by
  intro e h
  cases h
  rfl

theorem Contained.bind {α β : Type} {x : Except Thrown α} {f : α → Except Thrown β}
    (hx : Contained x) (hf : ∀ a, x = .ok a → Contained (f a)) : Contained (x >>= f) := by
  cases x with
  | error e =>
      intro e' h
      exact hx e' (by cases h; rfl)
  | ok a => exact hf a rfl

theorem Contained.ite {α : Type} {p : Prop} [Decidable p] {x y : Except Thrown α}
    (hx : p → Contained x) (hy : ¬ p → Contained y) : Contained (if p then x else y) := by
  by_cases hp : p
  · rw [if_pos hp]; exact hx hp
  · rw [if_neg hp]; exact hy hp

theorem stringLoop_contained (out s : List CodeUnit) : Contained (stringLoop out s) := by
  induction s using pieces.induct java generalizing out with
  | case1 => exact contained_error _ _
  | case2 s => rw [stringLoop_quote]; exact .ok _
  | case3 => exact contained_error _ _
  | case4 a b e f s hx hne ih =>
      rw [stringLoop_hex]
      cases Integer.parseInt [a, b, e, f] 16 with
      | none => exact contained_error _ _
      | some i => exact ih _
  | case5 a b e f s hx hne =>
      have hgroup : Integer.parseInt [a, b, e, f] 16 = none := by
        cases hp : Integer.parseInt [a, b, e, f] 16 with
        | none => rfl
        | some i => exact absurd (show java.hexOk a b e f = true by simp [java, shape, hp]) hx
      rw [stringLoop_hex, hgroup]
      exact contained_error _ _
  | case6 s hshape hne =>
      rw [stringLoop.eq_def]
      simp only [hne, if_false, if_true, ne_eq, not_true_eq_false]
      rw [if_neg (by decide)]
      exact contained_error _ _
  | case7 c s hc hshort hne ih =>
      rw [stringLoop_short out hc]
      cases shortEscape c with
      | none => exact contained_error _ _
      | some u => exact ih _
  | case8 c s hc hshort hne =>
      have hnone : shortEscape c = none := by simpa using hshort
      rw [stringLoop_short out hc, hnone]
      exact contained_error _ _
  | case9 u s hu hb hplain ih =>
      rw [stringLoop_plain out hu hb]
      exact .ite (fun _ => contained_error _ _) (fun _ => ih _)
  | case10 u s hu hb hplain =>
      have hlow : u < 0x20 := not_not.mp fun h => hplain ((isPlain_iff hu hb).mpr h)
      rw [stringLoop_plain out hu hb, if_pos hlow]
      exact contained_error _ _

theorem expect_contained (c : CodeUnit) (name : String) (s : List CodeUnit) :
    Contained (expect c name s) :=
  .ite (fun _ => .ok _) (fun _ => contained_error _ _)

theorem number_contained (s : List CodeUnit) : Contained (number s) := by
  refine .bind ?_ fun s₁ _ => .bind ?_ fun s₂ _ => .bind ?_ fun s₃ _ => ?_
  · exact .ite (fun _ => .ok _) fun _ => .ite (fun _ => .ok _) fun _ => contained_error _ _
  · exact .ite (fun _ => .ite (fun _ => .ok _) fun _ => contained_error _ _) fun _ => .ok _
  · exact .ite (fun _ => .ite (fun _ => .ok _) fun _ => contained_error _ _) fun _ => .ok _
  · cases BigDecimal.ofString? (s.take (s.length - s₃.length)) with
    | none =>
        intro e h
        cases h
        rfl
    | some d => exact .ok _

theorem literal_contained (word : List CodeUnit) (v : JsonValue) (s : List CodeUnit) :
    Contained (literal word v s) :=
  .ite (fun _ => .ok _) (fun _ => contained_error _ _)

theorem skipWhitespace_length (s : List CodeUnit) : (skipWhitespace s).length ≤ s.length :=
  skipWs_length_le s

theorem string_shorter {s : List CodeUnit} {k r : List CodeUnit}
    (h : string s = .ok (k, r)) : r.length < s.length := by
  cases s with
  | nil => cases h
  | cons u s =>
      have hopt := string_toOption u s
      rw [h] at hopt
      cases hp : pieces java s with
      | none => rw [hp] at hopt; cases hopt
      | some q =>
          obtain ⟨ps, r'⟩ := q
          rw [hp] at hopt
          simp only [toOption_ok, Option.map_some, Option.some.injEq, Prod.mk.injEq] at hopt
          have hsplit := (pieces_sound hp).2
          rw [hopt.2, hsplit]
          simp only [List.length_cons, List.length_append]
          omega

theorem expect_shorter {c : CodeUnit} {name : String} {s r : List CodeUnit}
    (h : expect c name s = .ok r) : r.length ≤ s.length := by
  rw [expect] at h
  cases hp : peek c s with
  | false => simp [hp, error] at h
  | true =>
      simp only [hp, if_true, Except.ok.injEq] at h
      rw [← h, List.length_drop]
      omega

section Progress

variable {inner : Parser JsonValue} (hin : ∀ s, Contained (inner s))
  (hprog : ∀ {s v r}, inner s = .ok (v, r) → r.length < s.length)

include hin hprog

/-- Each round of the array loop takes at least one unit, so the bound is not reached. -/
theorem arrayLoop_contained (fuel : Nat) (acc : List JsonValue) (s : List CodeUnit)
    (hfuel : s.length < fuel) : Contained (arrayLoop inner fuel acc s) := by
  induction fuel generalizing acc s with
  | zero => omega
  | succ fuel ih =>
      have hs := skipWhitespace_length s
      refine .bind (hin _) fun q hq => .ite (fun _ => ih _ _ ?_) fun _ => ?_
      · have hlen := hprog hq
        have hr := skipWhitespace_length q.2
        rw [List.length_drop]
        omega
      · exact .bind (expect_contained _ _ _) fun _ _ => .ok _

theorem array_contained (u : CodeUnit) (s : List CodeUnit) : Contained (array inner (u :: s)) := by
  refine .ite (fun _ => .ok _) fun _ => .bind ?_ fun _ _ => .ok _
  have hs := skipWhitespace_length s
  refine arrayLoop_contained hin hprog _ _ _ ?_
  simp only [List.drop_succ_cons, List.drop_zero, List.length_cons]
  omega

/-- Each round of the object loop takes at least one unit, so the bound is not reached. -/
theorem objectLoop_contained (fuel : Nat) (acc : List (List CodeUnit × JsonValue))
    (s : List CodeUnit) (hfuel : s.length < fuel) : Contained (objectLoop inner fuel acc s) := by
  induction fuel generalizing acc s with
  | zero => omega
  | succ fuel ih =>
      refine .ite (fun _ => ?_) fun _ => contained_error _ _
      refine .bind (stringLoop_contained _ _) fun k hk => ?_
      refine .bind (expect_contained _ _ _) fun s₂ hs₂ => ?_
      refine .bind (hin _) fun q hq => .ite (fun _ => ih _ _ ?_) fun _ => ?_
      · have h₀ := skipWhitespace_length s
        have h₁ := string_shorter hk
        have h₂ := skipWhitespace_length k.2
        have h₃ := expect_shorter hs₂
        have h₄ := skipWhitespace_length s₂
        have h₅ := hprog hq
        have h₆ := skipWhitespace_length q.2
        rw [List.length_drop]
        omega
      · exact .bind (expect_contained _ _ _) fun _ _ => .ok _

theorem object_contained (u : CodeUnit) (s : List CodeUnit) :
    Contained (object inner (u :: s)) := by
  refine .ite (fun _ => .ok _) fun _ => .bind ?_ fun _ _ => .ok _
  have hs := skipWhitespace_length s
  refine objectLoop_contained hin hprog _ _ _ ?_
  simp only [List.drop_succ_cons, List.drop_zero, List.length_cons]
  omega

theorem valueStep_contained (s : List CodeUnit) : Contained (valueStep inner s) := by
  cases s with
  | nil => exact contained_error _ _
  | cons u s =>
      refine .ite (fun _ => object_contained hin hprog u s) fun _ => ?_
      refine .ite (fun _ => array_contained hin hprog u s) fun _ => ?_
      refine .ite (fun _ => .bind (stringLoop_contained _ _) fun _ _ => .ok _) fun _ => ?_
      refine .ite (fun _ => literal_contained _ _ _) fun _ => ?_
      refine .ite (fun _ => literal_contained _ _ _) fun _ => ?_
      refine .ite (fun _ => literal_contained _ _ _) fun _ => ?_
      exact .ite (fun _ => .bind (number_contained _) fun _ _ => .ok _) fun _ =>
        contained_error _ _

end Progress

/-- A value takes at least one unit. -/
theorem value_shorter {levels : Nat} {s r : List CodeUnit} {v : JsonValue}
    (h : value levels s = .ok (v, r)) : r.length < s.length := by
  have hopt := value_toOption (Nat.le_refl levels) s
  rw [h, toOption_ok] at hopt
  cases hv : JsonText.value java levels s with
  | error e => rw [hv] at hopt; cases hopt
  | ok q =>
      rw [hv, toOption_ok, Option.bind_some, gate] at hopt
      obtain ⟨u, ⟨hu, -⟩, hsplit⟩ := (value_reads java levels).sound (x := q.1) (r := q.2) hv
      have hpos := (spells_opens hu).length_pos
      by_cases hh : q.1.height < levels
      · rw [if_pos hh, Option.some.injEq, Prod.mk.injEq] at hopt
        rw [hopt.2, hsplit, List.length_append]
        omega
      · rw [if_neg hh] at hopt
        cases hopt

theorem value_contained (levels : Nat) (s : List CodeUnit) : Contained (value levels s) := by
  induction levels generalizing s with
  | zero => exact contained_error _ _
  | succ levels ih => exact valueStep_contained ih value_shorter s

/-- **Parsing throws nothing but an `IllegalArgumentException`.** -/
theorem parse_total (text : List CodeUnit) : Contained (parse text) := by
  refine .bind (value_contained _ _) fun q _ => ?_
  refine .ite (fun _ => ?_) fun _ => .ok _
  exact .bind (contained_error _ _) fun _ _ => .ok _

/-! ## §7. The language of the parser. -/

/-- The parser against the grammar's reader, on a whole text. -/
theorem parse_toOption (text : List CodeUnit) :
    (parse text).toOption
      = (JsonText.read java (MAX_DEPTH + 1) text).toOption.bind fun t =>
          if t.height ≤ MAX_DEPTH then some (t.decode javaDecoder) else none := by
  rw [parse, toOption_bind, value_toOption (Nat.le_refl _), skipWhitespace_eq, JsonText.read]
  cases JsonText.value java (MAX_DEPTH + 1) (skipWs text) with
  | error e => rfl
  | ok q =>
      obtain ⟨t, r⟩ := q
      simp only [toOption_ok, Option.bind_some, gate]
      by_cases ht : t.height ≤ MAX_DEPTH
      · rw [if_pos (Nat.lt_succ_of_le ht), Option.bind_some]
        simp only [skipWhitespace_eq]
        by_cases hend : skipWs r = []
        · simp [ht, hend]
        · simp [hend, toOption_bind]
      · rw [if_neg (fun h => ht (Nat.le_of_lt_succ h)), Option.bind_none]
        by_cases hend : skipWs r = []
        · simp [ht, hend]
        · simp [hend]

theorem toOption_eq_some {ε α : Type} {x : Except ε α} {a : α} :
    x.toOption = some a ↔ x = .ok a := by
  cases x with
  | error e => simp
  | ok b => simp

/-- **The parser returns the decoding of the text's tree**, for the texts of its dialect with at most
    `MAX_DEPTH` levels below the root. -/
theorem parse_ok_iff {text : List CodeUnit} {v : JsonValue} :
    parse text = .ok v ↔
      ∃ t, Text java t text ∧ t.height ≤ MAX_DEPTH ∧ t.decode javaDecoder = v := by
  rw [← toOption_eq_some, parse_toOption]
  simp only [Option.bind_eq_some_iff, toOption_eq_some, read_ok_iff, Option.ite_none_right_eq_some,
    Option.some.injEq]
  constructor
  · rintro ⟨t, ⟨ht, -⟩, hh, hv⟩
    exact ⟨t, ht, hh, hv⟩
  · rintro ⟨t, ht, hh, hv⟩
    have hn := nesting_le_height t
    exact ⟨t, ⟨ht, by omega⟩, hh, hv⟩

/-! ## §8. Against the standard. -/

theorem java_within_shape : java.Within shape := ⟨fun _ _ _ _ h => h, fun _ _ => rfl, rfl⟩

theorem strictHex_readable {a b c d : CodeUnit} (h : strictHex a b c d = true) :
    (Integer.parseInt [a, b, c, d] 16).isSome = true := by
  have hval := parseInt_strictHex h
  cases hp : Integer.parseInt [a, b, c, d] 16 with
  | none => rw [hp] at hval; cases hval
  | some i => rfl

theorem rfc8259_within_shape : rfc8259.Within shape :=
  ⟨fun _ _ _ _ h => strictHex_readable h, fun _ _ => rfl, rfl⟩

/-- What the class says of a text: it is parsed when it is an RFC 8259 text with at most `MAX_DEPTH`
    levels below the root, and rejected with an `IllegalArgumentException` otherwise. -/
def ParsesRfc8259 (text : List CodeUnit) : Prop :=
  ((∃ v, parse text = .ok v) ↔ ∃ t, Text rfc8259 t text ∧ t.height ≤ MAX_DEPTH) ∧
    ∀ e, parse text = .error e → e.isIllegalArgument = true

/-- A text of the shape is parsed when its numbers fit, and is of the standard when its `\u` groups
    are hexadecimal; a text of no shape is neither. -/
theorem parses_shape {t : Ast} {text : List CodeUnit} (ht : Text shape t text)
    (hh : t.height ≤ MAX_DEPTH) :
    ((∃ v, parse text = .ok v) ↔ t.Allowed java) ∧
      ((∃ t', Text rfc8259 t' text ∧ t'.height ≤ MAX_DEPTH) ↔ t.Allowed rfc8259) := by
  constructor
  · constructor
    · rintro ⟨v, hv⟩
      obtain ⟨t', ht', -, -⟩ := parse_ok_iff.mp hv
      obtain ⟨hshape, hok⟩ := (text_restrict java_within_shape).mp ht'
      rw [text_unique ht hshape]
      exact hok
    · intro hok
      exact ⟨_, parse_ok_iff.mpr ⟨t, (text_restrict java_within_shape).mpr ⟨ht, hok⟩, hh, rfl⟩⟩
  · constructor
    · rintro ⟨t', ht', -⟩
      obtain ⟨hshape, hok⟩ := (text_restrict rfc8259_within_shape).mp ht'
      rw [text_unique ht hshape]
      exact hok
    · intro hok
      exact ⟨t, (text_restrict rfc8259_within_shape).mpr ⟨ht, hok⟩, hh⟩

/-- **Exactly the texts on which the parser keeps to RFC 8259.**  Read with the parser's own notion of
    a `\u` group, either all groups are hexadecimal and all numbers fit a `BigDecimal`, or one group is
    not and one number does not. -/
theorem parse_rfc8259_iff (text : List CodeUnit) :
    ParsesRfc8259 text ↔
      ∀ t, Text shape t text → t.height ≤ MAX_DEPTH → (t.Allowed rfc8259 ↔ t.Allowed java) := by
  constructor
  · rintro ⟨hiff, -⟩ t ht hh
    obtain ⟨hjava, hrfc⟩ := parses_shape ht hh
    rw [← hjava, ← hrfc, hiff]
  · intro h
    refine ⟨?_, parse_total text⟩
    constructor
    · rintro ⟨v, hv⟩
      obtain ⟨t, ht, hh, -⟩ := parse_ok_iff.mp hv
      obtain ⟨hshape, hok⟩ := (text_restrict java_within_shape).mp ht
      exact (parses_shape hshape hh).2.mpr ((h t hshape hh).mpr hok)
    · rintro ⟨t, ht, hh⟩
      obtain ⟨hshape, hok⟩ := (text_restrict rfc8259_within_shape).mp ht
      exact (parses_shape hshape hh).1.mpr ((h t hshape hh).mp hok)

/-- A `\u` group with a sign is parsed, and a number with a large exponent is not. -/
theorem parse_signed_escape_large_exponent :
    ¬ ParsesRfc8259 (units "\"\\u+041\"") ∧ ¬ ParsesRfc8259 (units "1e2147483648") := by
  constructor
  · intro h
    have hunits : units "\"\\u+041\"" = [unit '"', unit '\\', unit 'u', unit '+', unit '0',
        unit '4', unit '1', unit '"'] := by simp [units]
    rw [hunits] at h
    have hshape : Text shape (.str [.hex (unit '+') (unit '0') (unit '4') (unit '1')])
        [unit '"', unit '\\', unit 'u', unit '+', unit '0', unit '4', unit '1', unit '"'] :=
      ((read_ok_iff (n := 0)).mp rfl).1
    obtain ⟨hjava, hrfc⟩ := parses_shape hshape (Nat.zero_le _)
    have hparsed : ∃ v, parse [unit '"', unit '\\', unit 'u', unit '+', unit '0', unit '4', unit '1',
        unit '"'] = .ok v := ⟨.str [unit 'A'], rfl⟩
    have hok := hrfc.mp (h.1.mp hparsed)
    exact absurd (hok _ List.mem_cons_self) (by decide)
  · intro h
    have hunits : units "1e2147483648" = [unit '1', unit 'e', unit '2', unit '1', unit '4', unit '7',
        unit '4', unit '8', unit '3', unit '6', unit '4', unit '8'] := by simp [units]
    rw [hunits] at h
    have hshape : Text shape (.num ⟨false, [unit '1'], none, some ⟨unit 'e', none, [unit '2', unit '1',
        unit '4', unit '7', unit '4', unit '8', unit '3', unit '6', unit '4', unit '8']⟩⟩)
        [unit '1', unit 'e', unit '2', unit '1', unit '4', unit '7', unit '4', unit '8', unit '3',
          unit '6', unit '4', unit '8'] := ((read_ok_iff (n := 0)).mp rfl).1
    obtain ⟨hjava, hrfc⟩ := parses_shape hshape (Nat.zero_le _)
    have hok : (bigDecimal? ⟨false, [unit '1'], none, some ⟨unit 'e', none, [unit '2', unit '1',
        unit '4', unit '7', unit '4', unit '8', unit '3', unit '6', unit '4', unit '8']⟩⟩).isSome
          = true := hjava.mp (h.1.mpr (hrfc.mpr rfl))
    exact absurd hok (by decide)

end Json

end CekatEvents.Java
