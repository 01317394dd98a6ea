/-
  CekatEvents.Dotnet.ResponseDecoder — decoding a response in the .NET client
  (`Internal/ResponseDecoder.cs`).

  `JsonDocument.Parse` keeps the text: an element is a syntax tree, and a string is turned into
  characters only when `GetString` asks for it.  The parser accepts every `\u` group of four
  hexadecimal digits; `GetString` throws `InvalidOperationException` where such groups leave a
  surrogate unpaired.  `TryGetProperty` looks for the last member of a name, and unescapes, with the same
  exception, the names on its way that begin like the one it looks for.

  Main results:

    • `tryGetProperty_reads`       — which names are unescaped on the way to a member;
    • `decode_typed_exception_iff` — `Decode` returns an acknowledgement or throws the typed exception of
                                     the status exactly when no string or name it unescapes holds an
                                     unpaired surrogate.
-/
import CekatEvents.JsonText.Value
import CekatEvents.Http.Status

namespace CekatEvents.Dotnet

open CekatEvents.Encoding CekatEvents.JsonText CekatEvents.Http

/-! ## §1. `System.Text.Json`. -/

/-- A .NET string, by its code units. -/
abbrev Str := List CodeUnit

/-- What `JsonDocument.Parse` lets through. -/
def dotnet : Dialect := rfc8259

/-- The nesting `JsonDocument.Parse` allows by default. -/
def maxDepth : Nat := 64

/-- An element of a parsed document. -/
abbrev JsonElement := Ast

/-- `JsonDocument.Parse(body)` after the strict UTF-8 check, with `none` for a caught exception. -/
def parse (body : List UInt8) : Option JsonElement :=
  match ofUtf8? body with
  | none => none
  | some cs => (JsonText.read dotnet maxDepth (utf16 cs)).toOption

/-- A string literal whose surrogate escapes are all paired. -/
def Paired (ps : List Piece) : Prop := WellFormed (decodeString hexUnit ps)

instance (ps : List Piece) : Decidable (Paired ps) :=
  inferInstanceAs (Decidable (WellFormed (decodeString hexUnit ps)))

/-! ## §2. Responses and exceptions. -/

/-- An exception kept as a cause, by its text. -/
abbrev Cause := List Char

/-- A response whose status arrived. -/
structure ReceivedResponse where
  statusCode : Nat
  reasonPhrase : Option (List Char)
  retryAfter : Option (List Char)
  body : List UInt8
  bodyTruncated : Bool
  bodyReadFailure : Option Cause

/-- The acknowledgement of a valid 200. -/
structure Acknowledgement where
  message : Str
  eventKey : Str
  validatedProperties : List Str
  rawBody : List UInt8

/-- The fields of the exceptions that report a status. -/
structure HttpException where
  statusCode : Nat
  message : Str
  code : Option Str
  rawBody : List UInt8
  attempts : Int

/-- The fields of `CekatResponseDecodeException`. -/
structure CekatResponseDecodeException where
  message : List Char
  rawBody : List UInt8
  attempts : Int
  innerException : Option Cause

/-- What decoding throws. -/
inductive Thrown where
  | responseDecode (e : CekatResponseDecodeException)
  | authentication (e : HttpException)
  | eventDefinitionNotFound (e : HttpException)
  | api (e : HttpException)
  | invalidOperation

/-- `GetString` on a string element. -/
def getString (ps : List Piece) : Except Thrown Str :=
  if Paired ps then .ok (decodeString hexUnit ps) else .error .invalidOperation

/-! ## §3. Members. -/

/-- The bytes that a code unit takes in UTF-8; a unit of a pair takes half of the pair's four. -/
def utf8Width (u : CodeUnit) : Nat :=
  if u < 0x80 then 1 else if u < 0x800 || isHigh u || isLow u then 2 else 3

/-- `SizeOrLength`: the bytes of a literal in the document, between its quotes. -/
def sizeOrLength (ps : List Piece) : Nat := ((ps.flatMap Piece.text).map utf8Width).sum

/-- `HasComplexChildren` of a name: it is written with an escape. -/
def hasEscape : List Piece → Bool
  | [] => false
  | .plain _ :: ps => hasEscape ps
  | _ => true

/-- What stands before the first backslash. -/
def beforeEscape : List Piece → Str
  | .plain u :: ps => u :: beforeEscape ps
  | _ => []

/-- A name with an escape is unescaped when it is longer than the name that is looked for and is the same
    up to its first backslash.  The name that is looked for is ASCII, a byte for every unit. -/
def unescapes (name : Str) (ps : List Piece) : Bool :=
  hasEscape ps && decide (name.length < sizeOrLength ps) &&
    decide ((beforeEscape ps).length < name.length) && (beforeEscape ps).isPrefixOf name

/-- One turn of the loop of `TryGetNamedPropertyValue`; `Unescape` throws as `GetString` does. -/
def nameEquals (name : Str) (ps : List Piece) : Except Thrown Bool :=
  if unescapes name ps then do
    let unescaped ← getString ps
    .ok (unescaped == name)
  else .ok (!hasEscape ps && decodeString hexUnit ps == name)

/-- The loop of `TryGetNamedPropertyValue`. -/
def findMember (name : Str) : List (List Piece × JsonElement) → Except Thrown (Option JsonElement)
  | [] => .ok none
  | m :: ms => do
      if ← nameEquals name m.1 then .ok (some m.2) else findMember name ms

/-- `TryGetProperty`: the members from the last. -/
def tryGetProperty (ms : List (List Piece × JsonElement)) (name : Str) :
    Except Thrown (Option JsonElement) :=
  findMember name ms.reverse

/-- `char.IsWhiteSpace`. -/
def isWhiteSpace (c : Char) : Bool :=
  let n := c.toNat
  (0x09 ≤ n && n ≤ 0x0D) || n == 0x20 || n == 0x85 || n == 0xA0 || n == 0x1680 ||
    (0x2000 ≤ n && n ≤ 0x200A) || n == 0x2028 || n == 0x2029 || n == 0x202F || n == 0x205F ||
    n == 0x3000

/-- `Trim()`. -/
def trim (s : List Char) : List Char :=
  ((s.dropWhile isWhiteSpace).reverse.dropWhile isWhiteSpace).reverse

/-! ## §4. Decoding. -/

/-- `NonEmptyString`: the text of a string property that is not empty. -/
def nonEmptyString (ms : List (List Piece × JsonElement)) (name : Str) :
    Except Thrown (Option Str) := do
  match ← tryGetProperty ms name with
  | some (.str ps) =>
      let text ← getString ps
      .ok (if text = [] then none else some text)
  | _ => .ok none

/-- The string literals of an array of strings; nothing when an item is something else. -/
def stringItems (xs : List JsonElement) : Option (List (List Piece)) :=
  xs.mapM fun x => match x with
    | .str ps => some ps
    | _ => none

/-- The members of `data` in an envelope that says `success` twice. -/
def successData : Option JsonElement → Except Thrown (Option (List (List Piece × JsonElement)))
  | some (.obj root) => do
      match ← tryGetProperty root (units "success") with
      | some (.bool true) =>
          match ← tryGetProperty root (units "data") with
          | some (.obj data) =>
              match ← tryGetProperty data (units "success") with
              | some (.bool true) => .ok (some data)
              | _ => .ok none
          | _ => .ok none
      | _ => .ok none
  | _ => .ok none

/-- The items of an array of strings. -/
def validatedProperties : Option JsonElement → Except Thrown (Option (List Str))
  | some (.arr xs) =>
      match stringItems xs with
      | none => .ok none
      | some items => do
          let properties ← items.mapM getString
          .ok (some properties)
  | _ => .ok none

/-- The fields of a valid success envelope; strings are read in the order they are tested. -/
def successFields (document : Option JsonElement) :
    Except Thrown (Option (Str × Str × List Str)) := do
  match ← successData document with
  | none => .ok none
  | some data =>
      match ← nonEmptyString data (units "message") with
      | none => .ok none
      | some message =>
          match ← nonEmptyString data (units "event_key") with
          | none => .ok none
          | some eventKey =>
              let validated ← tryGetProperty data (units "validated_properties")
              let properties ← validatedProperties validated
              .ok (properties.map fun properties => (message, eventKey, properties))

/-- `DecodeSuccess`. -/
def decodeSuccess (response : ReceivedResponse) (attempts : Int) :
    Except Thrown Acknowledgement :=
  match response.bodyReadFailure with
  | some failure => .error (.responseDecode
      ⟨"response body could not be read".toList, response.body, attempts, some failure⟩)
  | none =>
      if response.bodyTruncated then .error (.responseDecode
        ⟨"response body exceeds 65536 bytes".toList, response.body, attempts, none⟩)
      else do
        match ← successFields (parse response.body) with
        | some (message, eventKey, properties) =>
            .ok ⟨message, eventKey, properties, response.body⟩
        | none => .error (.responseDecode
            ⟨"response body is not a valid success envelope".toList, response.body, attempts, none⟩)

/-- The members of an error envelope, and its error literal. -/
def errorData : Option JsonElement → Except Thrown (Option (List (List Piece × JsonElement) × List Piece))
  | some (.obj root) => do
      match ← tryGetProperty root (units "success") with
      | some (.bool false) =>
          match ← tryGetProperty root (units "error") with
          | some (.str ps) => .ok (some (root, ps))
          | _ => .ok none
      | _ => .ok none
  | _ => .ok none

/-- The code of an error envelope with the text. -/
def withCode (errorText : Str) : Option JsonElement → Except Thrown (Option (Str × Option Str))
  | none => .ok (some (errorText, none))
  | some (.str ps) => do
      let code ← getString ps
      .ok (some (errorText, some code))
  | some _ => .ok none

/-- The message and code of an error envelope: the code is looked at once the message is there. -/
def errorFields (document : Option JsonElement) : Except Thrown (Option (Str × Option Str)) := do
  match ← errorData document with
  | none => .ok none
  | some (root, ps) =>
      let errorText ← getString ps
      if errorText = [] then .ok none
      else
        let code ← tryGetProperty root (units "code")
        withCode errorText code

/-- The reason phrase without surrounding whitespace, or the status text. -/
def fallbackMessage (response : ReceivedResponse) : Str :=
  match response.reasonPhrase with
  | some phrase =>
      if trim phrase = [] then utf16 (statusText response.statusCode) else utf16 (trim phrase)
  | none => utf16 (statusText response.statusCode)

/-- The exception class of a status other than 200. -/
def statusException (statusCode : Nat) : HttpException → Thrown :=
  if statusCode = 401 then .authentication
  else if statusCode = 404 then .eventDefinitionNotFound
  else .api

/-- `Decode`. -/
def decode (response : ReceivedResponse) (attempts : Int) : Except Thrown Acknowledgement :=
  if response.statusCode = 200 then decodeSuccess response attempts
  else do
    match ← errorFields (parse response.body) with
    | some (message, code) => .error (statusException response.statusCode
        ⟨response.statusCode, message, code, response.body, attempts⟩)
    | none => .error (statusException response.statusCode
        ⟨response.statusCode, fallbackMessage response, none, response.body, attempts⟩)

/-! ## §5. The strings that are unescaped. -/

/-- The last member of a name. -/
def lastMember (ms : List (List Piece × JsonElement)) (name : Str) : Option JsonElement :=
  (ms.reverse.find? fun m => decodeString hexUnit m.1 == name).map Prod.snd

/-- The names that are unescaped on the way to the last member of a name. -/
def namesRead (ms : List (List Piece × JsonElement)) (name : Str) : List (List Piece) :=
  ((ms.reverse.takeWhile fun m => decodeString hexUnit m.1 != name).map Prod.fst).filter (unescapes name)

/-- What is unescaped by looking a name up, and then by what is done with its value. -/
def lookedUp (ms : List (List Piece × JsonElement)) (name : Str)
    (k : Option JsonElement → List (List Piece)) : List (List Piece) :=
  namesRead ms name ++ k (lastMember ms name)

/-- A string, and what follows when it is not empty. -/
def thenText (rest : List (List Piece)) : Option JsonElement → List (List Piece)
  | some (.str ps) => ps :: if ps = [] then [] else rest
  | _ => []

/-- The literal of a code. -/
def codeString : Option JsonElement → List (List Piece)
  | some (.str ps) => [ps]
  | _ => []

/-- The literals of an array of strings. -/
def itemStrings : Option JsonElement → List (List Piece)
  | some (.arr xs) => (stringItems xs).getD []
  | _ => []

/-- The literals an error envelope makes `Decode` unescape: the error, and then the code. -/
def errorStrings : Option JsonElement → List (List Piece)
  | some (.obj root) =>
      lookedUp root (units "success") fun success =>
        match success with
        | some (.bool false) =>
            lookedUp root (units "error") (thenText (lookedUp root (units "code") codeString))
        | _ => []
  | _ => []

/-- The literals that the fields of an acknowledgement make `Decode` unescape: the message, the event key
    once there is a message, and the validated properties once there are both. -/
def dataStrings (data : List (List Piece × JsonElement)) : List (List Piece) :=
  lookedUp data (units "message") (thenText
    (lookedUp data (units "event_key") (thenText
      (lookedUp data (units "validated_properties") itemStrings))))

/-- The literals a success envelope makes `Decode` unescape. -/
def successStrings : Option JsonElement → List (List Piece)
  | some (.obj root) =>
      lookedUp root (units "success") fun success =>
        match success with
        | some (.bool true) =>
            lookedUp root (units "data") fun data =>
              match data with
              | some (.obj data) =>
                  lookedUp data (units "success") fun inner =>
                    match inner with
                    | some (.bool true) => dataStrings data
                    | _ => []
              | _ => []
        | _ => []
  | _ => []

/-- The literals of the body that `Decode` unescapes. -/
def stringsRead (response : ReceivedResponse) : List (List Piece) :=
  if response.statusCode = 200 then
    if response.bodyReadFailure.isSome || response.bodyTruncated then []
    else successStrings (parse response.body)
  else errorStrings (parse response.body)

/-- An exception that carries the response it reports. -/
def HttpException.Reports (e : HttpException) (response : ReceivedResponse) (attempts : Int) :
    Prop :=
  e.statusCode = response.statusCode ∧ e.rawBody = response.body ∧ e.attempts = attempts

/-- **The outcome a status demands**: an acknowledgement or a decode exception for 200, the typed
    exception of the class for every other status. -/
def Typed (response : ReceivedResponse) (attempts : Int) : Except Thrown Acknowledgement → Prop
  | .ok _ => response.statusCode = 200
  | .error (.responseDecode e) =>
      response.statusCode = 200 ∧ e.rawBody = response.body ∧ e.attempts = attempts
  | .error (.authentication e) => response.statusCode = 401 ∧ e.Reports response attempts
  | .error (.eventDefinitionNotFound e) => response.statusCode = 404 ∧ e.Reports response attempts
  | .error (.api e) =>
      response.statusCode ≠ 200 ∧ response.statusCode ≠ 401 ∧ response.statusCode ≠ 404 ∧
        e.Reports response attempts
  | .error .invalidOperation => False

/-! ## §6. Unescaping is the only thing that fails. -/

/-- The computation succeeds when all these literals are paired, and throws
    `InvalidOperationException` when one is not. -/
def ReadsExactly {α : Type} (x : Except Thrown α) (ss : List (List Piece)) : Prop :=
  ((∀ ps ∈ ss, Paired ps) ∧ ∃ v, x = .ok v) ∨
    (¬ (∀ ps ∈ ss, Paired ps) ∧ x = .error .invalidOperation)

theorem ReadsExactly.ok {α : Type} (v : α) : ReadsExactly (.ok v) [] :=
  .inl ⟨by simp, v, rfl⟩

theorem getString_reads (ps : List Piece) : ReadsExactly (getString ps) [ps] := by
  unfold getString
  by_cases h : Paired ps
  · rw [if_pos h]
    exact .inl ⟨by simpa using h, _, rfl⟩
  · rw [if_neg h]
    exact .inr ⟨by simpa using h, rfl⟩

theorem getString_eq_ok {ps : List Piece} {v : Str} (h : getString ps = .ok v) :
    v = decodeString hexUnit ps := by
  unfold getString at h
  by_cases hp : Paired ps
  · rw [if_pos hp] at h
    cases h
    rfl
  · rw [if_neg hp] at h
    cases h

theorem ReadsExactly.bind {α β : Type} {x : Except Thrown α} {f : α → Except Thrown β}
    {s t : List (List Piece)} (hx : ReadsExactly x s)
    (hf : ∀ v, x = .ok v → ReadsExactly (f v) t) : ReadsExactly (x >>= f) (s ++ t) := by
  rcases hx with ⟨hss, v, hv⟩ | ⟨hss, hv⟩
  · rcases hf v hv with ⟨htt, w, hw⟩ | ⟨htt, hw⟩
    · refine .inl ⟨fun ps hps => ?_, w, by rw [hv]; exact hw⟩
      rcases List.mem_append.mp hps with h | h
      · exact hss ps h
      · exact htt ps h
    · refine .inr ⟨fun h => htt fun ps hps => h ps (List.mem_append_right s hps), ?_⟩
      rw [hv]
      exact hw
  · refine .inr ⟨fun h => hss fun ps hps => h ps (List.mem_append_left t hps), ?_⟩
    rw [hv]
    rfl

theorem mapM_getString_reads (items : List (List Piece)) :
    ReadsExactly (items.mapM getString) items := by
  induction items with
  | nil => exact .ok _
  | cons ps items ih =>
      rw [List.mapM_cons]
      show ReadsExactly _ ([ps] ++ items)
      apply (getString_reads ps).bind
      intro v _
      have h : ReadsExactly (items.mapM getString >>= fun vs => .ok (v :: vs)) (items ++ []) :=
        ih.bind fun vs _ => .ok (v :: vs)
      rw [List.append_nil] at h
      exact h

theorem decodeString_eq_nil {ps : List Piece} : decodeString hexUnit ps = [] ↔ ps = [] := by
  simp [decodeString]

/-- What follows the reading of a literal may depend on whether it is empty. -/
theorem getString_bind_reads {α : Type} {ps : List Piece} {f : Str → Except Thrown α}
    {tt : List (List Piece)} (hnil : ps = [] → tt = [] ∧ ∃ v, f [] = .ok v)
    (hf : ∀ text, ps ≠ [] → text ≠ [] → ReadsExactly (f text) tt) :
    ReadsExactly (getString ps >>= f) (ps :: tt) := by
  refine ReadsExactly.bind (s := [ps]) (getString_reads ps) fun text htext => ?_
  have hdec := getString_eq_ok htext
  by_cases hps : ps = []
  · obtain ⟨htt, v, hv⟩ := hnil hps
    rw [hdec, decodeString_eq_nil.mpr hps, hv, htt]
    exact .ok v
  · have hne : text ≠ [] := by
      rw [hdec]
      exact fun h => hps (decodeString_eq_nil.mp h)
    exact hf text hps hne

/-! ## §7. Looking a member up. -/

theorem length_le_sizeOrLength (ps : List Piece) : ps.length ≤ sizeOrLength ps ∧
    (hasEscape ps = true → ps.length < sizeOrLength ps) := by
  have hwidth : ∀ u, 1 ≤ utf8Width u := by
    intro u
    unfold utf8Width
    split_ifs <;> omega
  induction ps with
  | nil => exact ⟨Nat.le_refl _, fun h => by cases h⟩
  | cons p ps ih =>
      obtain ⟨hle, hlt⟩ := ih
      have hsum : sizeOrLength (p :: ps) = (p.text.map utf8Width).sum + sizeOrLength ps := by
        unfold sizeOrLength
        rw [List.flatMap_cons, List.map_append, List.sum_append]
      rw [hsum, List.length_cons]
      cases p with
      | plain u =>
          have hu := hwidth u
          simp only [Piece.text, List.map_cons, List.map_nil, List.sum_cons, List.sum_nil]
          refine ⟨by omega, fun h => ?_⟩
          have hrest := hlt h
          omega
      | short c =>
          have hc := hwidth c
          have hb := hwidth (unit '\\')
          simp only [Piece.text, List.map_cons, List.map_nil, List.sum_cons, List.sum_nil]
          exact ⟨by omega, fun _ => by omega⟩
      | hex a b c d =>
          have ha := hwidth a
          have hb := hwidth (unit '\\')
          simp only [Piece.text, List.map_cons, List.map_nil, List.sum_cons, List.sum_nil]
          exact ⟨by omega, fun _ => by omega⟩

/-- The string of a literal begins with what stands before its first escape, and goes on. -/
theorem decodeString_beforeEscape {ps : List Piece} (h : hasEscape ps = true) :
    ∃ u rest, decodeString hexUnit ps = beforeEscape ps ++ u :: rest := by
  induction ps with
  | nil => cases h
  | cons p ps ih =>
      cases p with
      | plain u =>
          obtain ⟨v, rest, hdecode⟩ := ih h
          exact ⟨v, rest, congrArg (u :: ·) hdecode⟩
      | short c => exact ⟨_, _, rfl⟩
      | hex a b c d => exact ⟨_, _, rfl⟩

/-- A name with an escape that is the one that is looked for is unescaped. -/
theorem unescapes_of_eq {name : Str} {ps : List Piece} (hescape : hasEscape ps = true)
    (h : decodeString hexUnit ps = name) : unescapes name ps = true := by
  obtain ⟨u, rest, hdecode⟩ := decodeString_beforeEscape hescape
  rw [h] at hdecode
  have hlength : name.length = ps.length := by
    rw [← h]
    exact List.length_map _
  have hsize : name.length < sizeOrLength ps := by
    have hlt := (length_le_sizeOrLength ps).2 hescape
    omega
  have hbefore : (beforeEscape ps).length < name.length := by
    rw [hdecode, List.length_append, List.length_cons]
    omega
  have hprefix : (beforeEscape ps).isPrefixOf name = true :=
    List.isPrefixOf_iff_prefix.mpr ⟨u :: rest, hdecode.symm⟩
  unfold unescapes
  rw [hescape, decide_eq_true hsize, decide_eq_true hbefore, hprefix]
  rfl

/-- On the way to `success` the name `\ud800aaaa` is unescaped; `\ud800` is too short. -/
example : unescapes (units "success") [.hex (unit 'd') (unit '8') (unit '0') (unit '0'), .plain (unit 'a'),
      .plain (unit 'a'), .plain (unit 'a'), .plain (unit 'a')] = true ∧
    unescapes (units "success") [.hex (unit 'd') (unit '8') (unit '0') (unit '0')] = false := by
  decide

/-- A comparison that does not throw compares the names. -/
theorem nameEquals_eq_ok {name : Str} {ps : List Piece} {b : Bool} (h : nameEquals name ps = .ok b) :
    b = (decodeString hexUnit ps == name) := by
  unfold nameEquals at h
  by_cases hunescapes : unescapes name ps = true
  · rw [if_pos hunescapes] at h
    cases htext : getString ps with
    | error e =>
        rw [htext] at h
        cases h
    | ok text =>
        rw [htext] at h
        cases h
        rw [getString_eq_ok htext]
  · rw [if_neg hunescapes] at h
    cases h
    cases hescape : hasEscape ps with
    | false => rfl
    | true =>
        symm
        rw [Bool.not_true, Bool.false_and, beq_eq_false_iff_ne]
        exact fun heq => hunescapes (unescapes_of_eq hescape heq)

/-- A comparison unescapes the name when it has to. -/
theorem nameEquals_reads (name : Str) (ps : List Piece) :
    ReadsExactly (nameEquals name ps) (if unescapes name ps then [ps] else []) := by
  unfold nameEquals
  split_ifs
  · exact ReadsExactly.bind (t := []) (getString_reads ps) fun text _ => .ok _
  · exact .ok _

theorem findMember_reads {name : Str} (hname : WellFormed name)
    (ms : List (List Piece × JsonElement)) :
    ReadsExactly (findMember name ms)
      (((ms.takeWhile fun m => decodeString hexUnit m.1 != name).map Prod.fst).filter (unescapes name)) := by
  induction ms with
  | nil => exact .ok _
  | cons m ms ih =>
      show ReadsExactly (nameEquals name m.1 >>= fun b => if b then .ok (some m.2) else findMember name ms) _
      rw [List.takeWhile_cons]
      by_cases heq : decodeString hexUnit m.1 = name
      · -- the member itself has a name whose surrogates are paired
        have hpaired : Paired m.1 := by
          unfold Paired
          rw [heq]
          exact hname
        have hequals : nameEquals name m.1 = .ok true := by
          rcases nameEquals_reads name m.1 with ⟨-, b, hb⟩ | ⟨hnot, -⟩
          · rw [hb, nameEquals_eq_ok hb, heq, beq_self_eq_true]
          · refine absurd ?_ hnot
            intro ps hps
            split_ifs at hps
            · rw [List.mem_singleton.mp hps]
              exact hpaired
            · cases hps
        rw [hequals, heq, bne_self_eq_false]
        exact .ok _
      · have hnames : ∀ names : List (List Piece), (m.1 :: names).filter (unescapes name) =
            (if unescapes name m.1 then [m.1] else []) ++ names.filter (unescapes name) := by
          intro names
          rw [List.filter_cons]
          split_ifs <;> rfl
        rw [if_pos (bne_iff_ne.mpr heq), List.map_cons, hnames]
        refine (nameEquals_reads name m.1).bind fun b hb => ?_
        rw [nameEquals_eq_ok hb, beq_eq_false_iff_ne.mpr heq]
        exact ih

/-- **The names that are unescaped** on the way to a member are those of `namesRead`. -/
theorem tryGetProperty_reads {name : Str} (hname : WellFormed name)
    (ms : List (List Piece × JsonElement)) : ReadsExactly (tryGetProperty ms name) (namesRead ms name) :=
  findMember_reads hname ms.reverse

theorem findMember_eq_ok {name : Str} {ms : List (List Piece × JsonElement)}
    {found : Option JsonElement} (h : findMember name ms = .ok found) :
    found = (ms.find? fun m => decodeString hexUnit m.1 == name).map Prod.snd := by
  induction ms with
  | nil =>
      cases h
      rfl
  | cons m ms ih =>
      have hcons : (nameEquals name m.1 >>= fun b => if b then .ok (some m.2) else findMember name ms) =
          .ok found := h
      rw [List.find?_cons]
      cases hb : nameEquals name m.1 with
      | error e =>
          rw [hb] at hcons
          cases hcons
      | ok b =>
          rw [hb] at hcons
          rw [← nameEquals_eq_ok hb]
          cases b with
          | true =>
              cases hcons
              rfl
          | false => exact ih hcons

/-- What is found is the last member of the name. -/
theorem tryGetProperty_eq_ok {ms : List (List Piece × JsonElement)} {name : Str}
    {found : Option JsonElement} (h : tryGetProperty ms name = .ok found) : found = lastMember ms name :=
  findMember_eq_ok h

/-- **A member is looked up**, and what is done with it follows. -/
theorem lookup_reads {α : Type} {ms : List (List Piece × JsonElement)} {name : Str}
    {f : Option JsonElement → Except Thrown α} {k : Option JsonElement → List (List Piece)}
    (hname : WellFormed name) (hf : ReadsExactly (f (lastMember ms name)) (k (lastMember ms name))) :
    ReadsExactly (tryGetProperty ms name >>= f) (lookedUp ms name k) := by
  refine (tryGetProperty_reads hname ms).bind fun found hfound => ?_
  rw [tryGetProperty_eq_ok hfound]
  exact hf

/-! ## §8. Decoding. -/

theorem withCode_reads (errorText : Str) (x : Option JsonElement) :
    ReadsExactly (withCode errorText x) (codeString x) := by
  cases x with
  | none => exact .ok _
  | some x =>
      cases x with
      | str ps => exact ReadsExactly.bind (t := []) (getString_reads ps) fun code _ => .ok _
      | null => exact .ok _
      | bool b => exact .ok _
      | nonFinite c => exact .ok _
      | num n => exact .ok _
      | arr xs => exact .ok _
      | obj ms => exact .ok _

/-- Nothing is read of what is no string. -/
theorem thenText_of_no_text {rest : List (List Piece)} {x : Option JsonElement}
    (h : ∀ ps, x = some (.str ps) → False) : thenText rest x = [] := by
  unfold thenText
  split
  · rename_i ps
    exact (h ps rfl).elim
  · rfl

theorem errorFields_reads (document : Option JsonElement) :
    ReadsExactly (errorFields document) (errorStrings document) := by
  unfold errorFields errorData errorStrings
  split
  · rename_i root
    rw [bind_assoc]
    refine lookup_reads (by decide) ?_
    split
    · rw [bind_assoc]
      refine lookup_reads (by decide) ?_
      split
      · rename_i ps hps
        rw [hps]
        refine getString_bind_reads (fun hnil => ⟨if_pos hnil, none, rfl⟩) fun text hne htext => ?_
        rw [if_neg hne, if_neg htext]
        exact lookup_reads (by decide) (withCode_reads text _)
      · rename_i hother
        rw [thenText_of_no_text hother]
        exact .ok _
    · exact .ok _
  · exact .ok _

/-- Testing a string property reads its literal; what comes after depends on whether it is empty. -/
theorem nonEmptyString_bind_reads {α : Type} {ms : List (List Piece × JsonElement)} {name : Str}
    {f : Option Str → Except Thrown α} {rest : List (List Piece)} (hname : WellFormed name)
    (hnone : ∃ v, f none = .ok v) (hf : ∀ text, ReadsExactly (f (some text)) rest) :
    ReadsExactly (nonEmptyString ms name >>= f) (lookedUp ms name (thenText rest)) := by
  obtain ⟨v, hv⟩ := hnone
  unfold nonEmptyString
  rw [bind_assoc]
  refine lookup_reads hname ?_
  split
  · rename_i ps hps
    rw [hps, bind_assoc]
    refine getString_bind_reads (fun hnil => ⟨if_pos hnil, v, hv⟩) fun text hne htext => ?_
    show ReadsExactly (f (if text = [] then none else some text)) _
    rw [if_neg htext, if_neg hne]
    exact hf text
  · rename_i hother
    rw [thenText_of_no_text hother]
    show ReadsExactly (f none) []
    rw [hv]
    exact .ok v

theorem validatedProperties_reads (x : Option JsonElement) :
    ReadsExactly (validatedProperties x) (itemStrings x) := by
  unfold validatedProperties itemStrings
  split
  · rename_i xs
    cases stringItems xs with
    | none => exact .ok _
    | some items =>
        have h := (mapM_getString_reads items).bind (t := []) fun vs _ => .ok (some vs)
        rw [List.append_nil] at h
        exact h
  · exact .ok _

/-- The fields of the acknowledgement, once there is `data`. -/
theorem data_reads (data : List (List Piece × JsonElement)) : ReadsExactly (do
    match ← nonEmptyString data (units "message") with
    | none => .ok none
    | some message =>
        match ← nonEmptyString data (units "event_key") with
        | none => .ok none
        | some eventKey =>
            let validated ← tryGetProperty data (units "validated_properties")
            let properties ← validatedProperties validated
            .ok (properties.map fun properties => (message, eventKey, properties)))
    (dataStrings data) := by
  refine nonEmptyString_bind_reads (by decide) ⟨none, rfl⟩ fun message => ?_
  refine nonEmptyString_bind_reads (by decide) ⟨none, rfl⟩ fun eventKey => ?_
  refine lookup_reads (by decide) ?_
  have h := (validatedProperties_reads (lastMember data (units "validated_properties"))).bind (t := [])
    fun properties _ => .ok (properties.map fun properties => (message, eventKey, properties))
  rw [List.append_nil] at h
  exact h

theorem successFields_reads (document : Option JsonElement) :
    ReadsExactly (successFields document) (successStrings document) := by
  unfold successFields successData successStrings
  split
  · rename_i root
    rw [bind_assoc]
    refine lookup_reads (by decide) ?_
    split
    · rw [bind_assoc]
      refine lookup_reads (by decide) ?_
      split
      · rename_i data _
        rw [bind_assoc]
        refine lookup_reads (by decide) ?_
        split
        · exact data_reads data
        · exact .ok _
      · exact .ok _
    · exact .ok _
  · exact .ok _

theorem statusException_typed {response : ReceivedResponse} {attempts : Int} {e : HttpException}
    (hstatus : response.statusCode ≠ 200) (he : e.Reports response attempts) :
    Typed response attempts (.error (statusException response.statusCode e)) := by
  unfold statusException
  by_cases h401 : response.statusCode = 401
  · rw [if_pos h401]
    exact ⟨h401, he⟩
  · rw [if_neg h401]
    by_cases h404 : response.statusCode = 404
    · rw [if_pos h404]
      exact ⟨h404, he⟩
    · rw [if_neg h404]
      exact ⟨hstatus, h401, h404, he⟩

theorem decodeSuccess_typed_iff {response : ReceivedResponse} (attempts : Int)
    (hstatus : response.statusCode = 200) :
    Typed response attempts (decodeSuccess response attempts) ↔
      ∀ ps ∈ stringsRead response, Paired ps := by
  unfold decodeSuccess stringsRead
  rw [if_pos hstatus]
  cases hfail : response.bodyReadFailure with
  | some failure => exact iff_of_true ⟨hstatus, rfl, rfl⟩ (by simp)
  | none =>
      cases htrunc : response.bodyTruncated with
      | true => exact iff_of_true ⟨hstatus, rfl, rfl⟩ (by simp)
      | false =>
          simp only [Option.isSome_none, Bool.or_false, Bool.false_eq_true, if_false]
          rcases successFields_reads (parse response.body) with ⟨hss, v, hv⟩ | ⟨hss, hv⟩
          · rw [hv]
            refine iff_of_true ?_ hss
            cases v with
            | none => exact ⟨hstatus, rfl, rfl⟩
            | some fields => exact hstatus
          · rw [hv]
            exact iff_of_false (fun h => h) hss

/-- **Decoding stays within the typed exceptions exactly when every string it reads has its surrogate
    escapes paired.** -/
theorem decode_typed_exception_iff (response : ReceivedResponse) (attempts : Int) :
    Typed response attempts (decode response attempts) ↔
      ∀ ps ∈ stringsRead response, Paired ps := by
  unfold decode
  by_cases hstatus : response.statusCode = 200
  · rw [if_pos hstatus]
    exact decodeSuccess_typed_iff attempts hstatus
  · rw [if_neg hstatus, stringsRead, if_neg hstatus]
    rcases errorFields_reads (parse response.body) with ⟨hss, v, hv⟩ | ⟨hss, hv⟩
    · rw [hv]
      refine iff_of_true ?_ hss
      cases v with
      | none => exact statusException_typed hstatus ⟨rfl, rfl, rfl⟩
      | some fields => exact statusException_typed hstatus ⟨rfl, rfl, rfl⟩
    · rw [hv]
      exact iff_of_false (fun h => h) hss

/-- An error envelope whose error text is one unpaired surrogate escape. -/
def unpairedError : List Char :=
  ['{', '"', 's', 'u', 'c', 'c', 'e', 's', 's', '"', ':', 'f', 'a', 'l', 's', 'e', ',', '"', 'e', 'r',
   'r', 'o', 'r', '"', ':', '"', '\\', 'u', 'd', '8', '0', '0', '"', '}']

theorem parse_unpairedError : parse (utf8 unpairedError) = some (.obj
    [([.plain (unit 's'), .plain (unit 'u'), .plain (unit 'c'), .plain (unit 'c'), .plain (unit 'e'),
        .plain (unit 's'), .plain (unit 's')], .bool false),
     ([.plain (unit 'e'), .plain (unit 'r'), .plain (unit 'r'), .plain (unit 'o'), .plain (unit 'r')],
        .str [.hex (unit 'd') (unit '8') (unit '0') (unit '0')])]) := by
  rw [parse, ofUtf8?_utf8]
  show (JsonText.read dotnet maxDepth (utf16 unpairedError)).toOption = _
  have htext : utf16 unpairedError = [unit '{', unit '"', unit 's', unit 'u', unit 'c', unit 'c',
      unit 'e', unit 's', unit 's', unit '"', unit ':', unit 'f', unit 'a', unit 'l', unit 's',
      unit 'e', unit ',', unit '"', unit 'e', unit 'r', unit 'r', unit 'o', unit 'r', unit '"',
      unit ':', unit '"', unit '\\', unit 'u', unit 'd', unit '8', unit '0', unit '0', unit '"',
      unit '}'] := rfl
  rw [htext]
  rfl

/-- A 401 whose error text is an unpaired surrogate escape ends in `InvalidOperationException`. -/
theorem decode_untyped_of_unpaired_surrogate :
    ¬ Typed ⟨401, none, none, utf8 unpairedError, false, none⟩ 1
      (decode ⟨401, none, none, utf8 unpairedError, false, none⟩ 1) := by
  have hstrings : errorStrings (parse (utf8 unpairedError))
      = [[.hex (unit 'd') (unit '8') (unit '0') (unit '0')]] := by
    rw [parse_unpairedError]
    decide
  rcases errorFields_reads (parse (utf8 unpairedError)) with ⟨hss, -⟩ | ⟨-, hfields⟩
  · rw [hstrings] at hss
    exact absurd (hss _ List.mem_cons_self) (by decide)
  · rw [decode, if_neg (by decide), hfields]
    exact fun h => h

end CekatEvents.Dotnet
