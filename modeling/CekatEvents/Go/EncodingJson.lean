/-
  CekatEvents.Go.EncodingJson — `json.Unmarshal` into the types of the client, as documented.

  `Unmarshal` reads the characters of the bytes, each byte that is not UTF-8 replaced by U+FFFD, and
  refuses more than 10,000 containers inside each other.  A struct takes a member whose name is that
  of a field up to case, the last of several; `null` leaves a pointer nil; a value of another type is
  an error, also where a later member of the same name would do.  Unpaired surrogates of a string
  are replaced.  A `RawMessage` is kept without the whitespace of the body; the texts of the errors
  are left to the library.

  Main result: `decodeResponse_ok_iff`, what a body must be to be acknowledged.
-/
import Mathlib.Data.List.DropRight
import CekatEvents.Go.Response
import CekatEvents.JsonText.Unicode

namespace CekatEvents.Go

open CekatEvents.Encoding CekatEvents.JsonText

/-! ## §1. Reading. -/

/-- The errors of the library, by their texts. -/
structure UnmarshalTexts where
  syntaxError : Bytes → Cause
  typeError : Ast → Cause

/-- How many containers may stand inside each other. -/
def maxNestingDepth : Nat := 10000

/-- The text that `Unmarshal` reads. -/
def unmarshalText (body : Bytes) : List CodeUnit := utf16 (ofUtf8Bytewise body)

/-- A Go string of a literal. -/
def goString (ps : List Piece) : List Char := ofUtf16Lossy (decodeString hexUnit ps)

/-- A rune with its case folded: the long s and the Kelvin sign fold to ASCII letters. -/
def foldRune (c : Char) : Char :=
  if c = Char.ofNat 0x17F then 's' else if c = Char.ofNat 0x212A then 'k' else c.toLower

/-- The name of a member is that of a field, up to case. -/
def matchesField (name : String) (key : List Piece) : Bool :=
  (goString key).map foldRune == name.toList

/-- The raw bytes of a value. -/
def rawMessage (t : Ast) : Bytes := utf8 (ofUtf16Lossy t.text)

/-- The value of the last member whose name passes the test. -/
def lastNamed (p : List Piece → Bool) : List (List Piece × Ast) → Option Ast
  | [] => none
  | (k, x) :: ms => (lastNamed p ms).or (if p k then some x else none)

/-- The members of an object. -/
def members : Ast → List (List Piece × Ast)
  | .obj ms => ms
  | _ => []

/-- A field of a struct: its name and the values it takes. -/
abbrev Field := String × (Ast → Bool)

/-- The field takes the member. -/
def takes (fields : List Field) (m : List Piece × Ast) : Bool :=
  fields.all fun f => !matchesField f.1 m.1 || f.2 m.2

section Unmarshal

variable (texts : UnmarshalTexts)

/-- The tree of a body. -/
def syntaxTree (body : Bytes) : Except Cause Ast :=
  match JsonText.read rfc8259 maxNestingDepth (unmarshalText body) with
  | .ok t => .ok t
  | .error _ => .error (texts.syntaxError body)

/-- The fields of a struct, by name: the error is that of the first member that does not fit. -/
def unmarshalStruct (fields : List Field) : Ast → Except Cause (String → Option Ast)
  | .null => .ok fun _ => none
  | .obj ms =>
      match ms.find? fun m => !takes fields m with
      | some m => .error (texts.typeError m.2)
      | none => .ok fun name => lastNamed (matchesField name) ms
  | t => .error (texts.typeError t)

/-- What a `*bool` takes. -/
def isBoolValue : Ast → Bool
  | .bool _ | .null => true
  | _ => false

/-- What a `*string` takes. -/
def isStringValue : Ast → Bool
  | .str _ | .null => true
  | _ => false

/-- What a pointer to a slice takes. -/
def isArrayValue : Ast → Bool
  | .arr _ | .null => true
  | _ => false

def boolPointer : Option Ast → Option Bool
  | some (.bool b) => some b
  | _ => none

def stringPointer : Option Ast → Option (List Char)
  | some (.str ps) => some (goString ps)
  | _ => none

def slicePointer : Option Ast → Option (List Bytes)
  | some (.arr xs) => some (xs.map rawMessage)
  | _ => none

/-- The fields of `successEnvelope`. -/
def successEnvelopeFields : List Field := [("success", isBoolValue), ("data", fun _ => true)]

/-- The fields of `successData`. -/
def successDataFields : List Field :=
  [("success", isBoolValue), ("message", isStringValue), ("event_key", isStringValue),
   ("validated_properties", isArrayValue)]

/-- The fields of `errorEnvelope`. -/
def errorEnvelopeFields : List Field :=
  [("success", isBoolValue), ("error", isStringValue), ("code", isStringValue)]

/-- `json.Unmarshal` into a string: `null` leaves it as it is. -/
def unmarshalString : Ast → Except Cause (List Char)
  | .str ps => .ok (goString ps)
  | .null => .ok []
  | t => .error (texts.typeError t)

/-- `json.Unmarshal` into a `map[string]json.RawMessage`. -/
def unmarshalRaw : Ast → Except Cause (List (List Char × Bytes))
  | .obj ms => .ok (ms.foldl (fun acc m => putKey acc (goString m.1) (rawMessage m.2)) [])
  | .null => .ok []
  | t => .error (texts.typeError t)

/-- **`encoding/json`** on the types of the client. -/
def encodingJson : EncodingJson where
  successEnvelope body := do
    let get ← unmarshalStruct texts successEnvelopeFields (← syntaxTree texts body)
    .ok ⟨boolPointer (get "success"), ((get "data").map rawMessage).getD []⟩
  successData body := do
    let get ← unmarshalStruct texts successDataFields (← syntaxTree texts body)
    .ok ⟨boolPointer (get "success"), stringPointer (get "message"), stringPointer (get "event_key"),
      slicePointer (get "validated_properties")⟩
  string body := do unmarshalString texts (← syntaxTree texts body)
  raw body := do unmarshalRaw texts (← syntaxTree texts body)
  errorEnvelope body := do
    let get ← unmarshalStruct texts errorEnvelopeFields (← syntaxTree texts body)
    .ok ⟨boolPointer (get "success"), stringPointer (get "error"), stringPointer (get "code")⟩

/-! ## §2. Reading raw messages again. -/

/-- A value as it comes out of a body: it can be written, its literals are well formed, and it nests
    within the limit. -/
structure Readable (t : Ast) : Prop where
  proper : t.Proper rfc8259
  clean : t.Clean
  nesting : t.nesting ≤ maxNestingDepth

/-- What a body reads as. -/
theorem syntaxTree_ok_iff {body : Bytes} {t : Ast} :
    syntaxTree texts body = .ok t ↔
      Text rfc8259 t (unmarshalText body) ∧ t.nesting ≤ maxNestingDepth := by
  rw [← read_ok_iff]
  unfold syntaxTree
  cases JsonText.read rfc8259 maxNestingDepth (unmarshalText body) with
  | ok t' => simp
  | error e => simp

/-- It is readable again. -/
theorem syntaxTree_readable {body : Bytes} {t : Ast} (h : syntaxTree texts body = .ok t) :
    Readable t := by
  obtain ⟨htext, hn⟩ := (syntaxTree_ok_iff texts).mp h
  refine ⟨?_, text_clean htext ⟨_, rfl⟩, hn⟩
  obtain ⟨a, u, b, -, hu, -⟩ := htext
  exact spells_proper hu

theorem Readable.elem {xs : List Ast} (h : Readable (.arr xs)) {x : Ast} (hx : x ∈ xs) :
    Readable x := by
  refine ⟨properElems_iff.mp h.proper x hx, literalsElems_iff.mp h.clean x hx, ?_⟩
  have hle := nestingElems_le.mp (Nat.le_refl (nestingElems xs)) x hx
  have hn : nestingElems xs + 1 ≤ maxNestingDepth := h.nesting
  omega

theorem Readable.member {ms : List (List Piece × Ast)} (h : Readable (.obj ms))
    {m : List Piece × Ast} (hm : m ∈ ms) : Readable m.2 := by
  refine ⟨(properMembers_iff.mp h.proper m hm).2, (literalsMembers_iff.mp h.clean m hm).2, ?_⟩
  have hle := nestingMembers_le.mp (Nat.le_refl (nestingMembers ms)) m hm
  have hn : nestingMembers ms + 1 ≤ maxNestingDepth := h.nesting
  omega

theorem rawMessage_text {t : Ast} (h : Readable t) :
    Text rfc8259 t (unmarshalText (rawMessage t)) := by
  unfold unmarshalText rawMessage
  rw [ofUtf8Bytewise_utf8, utf16_ofUtf16Lossy (clean_text h.clean h.proper)]
  exact text_text h.proper

/-- **A raw message is read as the value it was made of.** -/
theorem syntaxTree_rawMessage {t : Ast} (h : Readable t) :
    syntaxTree texts (rawMessage t) = .ok t :=
  (syntaxTree_ok_iff texts).mpr ⟨rawMessage_text h, h.nesting⟩

theorem rawMessage_injective {t t' : Ast} (h : Readable t) (h' : Readable t')
    (heq : rawMessage t = rawMessage t') : t = t' :=
  text_unique (rawMessage_text h) (heq ▸ rawMessage_text h')

theorem nullBytes_eq : nullBytes = rawMessage .null := by decide

theorem readable_null : Readable .null := ⟨trivial, trivial, Nat.zero_le _⟩

/-- A property is taken exactly when it is a string. -/
theorem decodeProperty_ok_iff {x : Ast} (h : Readable x) {s : List Char} :
    decodeProperty (encodingJson texts) (rawMessage x) = .ok s ↔
      ∃ ps, x = .str ps ∧ goString ps = s := by
  unfold decodeProperty
  rw [nullBytes_eq]
  have hstring : (encodingJson texts).string (rawMessage x) = unmarshalString texts x := by
    show (syntaxTree texts (rawMessage x)).bind _ = _
    rw [syntaxTree_rawMessage texts h]
    rfl
  by_cases hnull : x = .null
  · rw [hnull, if_pos rfl]
    constructor
    · intro hs
      cases hs
    · intro hs
      obtain ⟨ps, hps, -⟩ := hs
      cases hps
  · rw [if_neg fun heq => hnull (rawMessage_injective h readable_null heq), hstring]
    cases x with
    | str ps => simp [unmarshalString]
    | null => exact absurd rfl hnull
    | _ => simp [unmarshalString]

/-- So are all of them. -/
theorem decodeProperties_ok_iff {xs : List Ast} (h : ∀ x ∈ xs, Readable x)
    {strings : List (List Char)} :
    (xs.map rawMessage).mapM (decodeProperty (encodingJson texts)) = .ok strings ↔
      ∃ pss : List (List Piece), xs = pss.map .str ∧ pss.map goString = strings := by
  induction xs generalizing strings with
  | nil =>
      constructor
      · intro hs
        cases hs
        exact ⟨[], rfl, rfl⟩
      · intro hs
        obtain ⟨pss, hx, rfl⟩ := hs
        rw [List.map_eq_nil_iff.mp hx.symm]
        rfl
  | cons x xs ih =>
      have hx := fun s => decodeProperty_ok_iff texts (h x List.mem_cons_self) (s := s)
      have hxs := @ih fun y hy => h y (List.mem_cons_of_mem x hy)
      rw [List.map_cons, List.mapM_cons]
      constructor
      · intro hs
        cases hd : decodeProperty (encodingJson texts) (rawMessage x) with
        | error e =>
            rw [hd] at hs
            cases hs
        | ok s =>
            cases hds : (xs.map rawMessage).mapM (decodeProperty (encodingJson texts)) with
            | error e =>
                rw [hd, hds] at hs
                cases hs
            | ok ss =>
                rw [hd, hds] at hs
                cases hs
                obtain ⟨ps, rfl, rfl⟩ := (hx s).mp hd
                obtain ⟨pss, rfl, rfl⟩ := hxs.mp hds
                exact ⟨ps :: pss, rfl, rfl⟩
      · intro hs
        obtain ⟨pss, hx', rfl⟩ := hs
        cases pss with
        | nil => cases hx'
        | cons ps pss =>
            rw [List.map_cons, List.cons.injEq] at hx'
            rw [(hx (goString ps)).mpr ⟨ps, hx'.1, rfl⟩,
              hxs.mpr ⟨pss, hx'.2, rfl⟩]
            rfl

end Unmarshal

/-! ## §3. Raw objects. -/

theorem trimSpace_eq_nil_iff {s : List Char} : trimSpace s = [] ↔ ∀ c ∈ s, isSpace c = true := by
  unfold trimSpace
  rw [List.reverse_eq_nil_iff, List.dropWhile_eq_nil_iff]
  constructor
  · intro h c hc
    by_contra hspace
    have hdrop : s.dropWhile isSpace ≠ [] := by
      intro hnil
      exact hspace (List.dropWhile_eq_nil_iff.mp hnil c hc)
    have hhead := List.head_dropWhile_not isSpace hdrop
    rw [h _ (List.mem_reverse.mpr (List.head_mem hdrop))] at hhead
    cases hhead
  · intro h c hc
    exact h c ((List.dropWhile_suffix isSpace).subset (List.mem_reverse.mp hc))

/-- What starts with a character that is no space keeps it. -/
theorem trimSpace_head {c : Char} (hc : isSpace c = false) (s : List Char) :
    (trimSpace (c :: s)).head? = some c := by
  have hstart : trimSpace (c :: s) <+: c :: s := by
    unfold trimSpace
    rw [List.dropWhile_cons_of_neg (by simp [hc])]
    exact List.rdropWhile_prefix isSpace _
  cases htrim : trimSpace (c :: s) with
  | nil =>
      rw [trimSpace_eq_nil_iff] at htrim
      rw [htrim c List.mem_cons_self] at hc
      cases hc
  | cons d r =>
      rw [htrim, List.cons_prefix_cons] at hstart
      rw [hstart.1]
      rfl

theorem trimSpace_eq_self {c d : Char} (hc : isSpace c = false) (hd : isSpace d = false)
    (s : List Char) : trimSpace (c :: (s ++ [d])) = c :: (s ++ [d]) := by
  unfold trimSpace
  rw [List.dropWhile_cons_of_neg (by simp [hc])]
  show List.rdropWhile isSpace ((c :: s) ++ [d]) = _
  rw [List.rdropWhile_concat_neg isSpace _ _ (by simp [hd])]
  rfl

theorem isJSONObject_false {c : Char} {s : List Char} (hc : isSpace c = false) (hne : c ≠ '{') :
    isJSONObject (utf8 (c :: s)) = false := by
  unfold isJSONObject
  rw [ofUtf8Lossy_utf8]
  simp only [trimSpace_head hc, Bool.and_eq_false_iff]
  exact .inl (.inr (by simpa using hne))

/-- The first unit of a number. -/
theorem numeral_head {n : Numeral} (h : n.WellFormed) :
    ∃ u s, n.text = u :: s ∧ (isDigit u = true ∨ u = unit '-') := by
  obtain ⟨v, r, hv, hs⟩ := numeral_numStart h []
  rw [List.append_nil] at hs
  rcases hs with hs | hs
  · exact ⟨v, r, hs, .inl hv⟩
  · exact ⟨_, _, hs, .inr rfl⟩

/-- **The raw bytes that pass for an object are those of an object.** -/
theorem isJSONObject_rawMessage {t : Ast} (h : Readable t) :
    isJSONObject (rawMessage t) = true ↔ ∃ ms, t = .obj ms := by
  have hno : ∀ {u : CodeUnit} {s : List CodeUnit}, t.text = u :: s → isBasic u = true →
      isSpace (Char.ofNat u.toNat) = false → Char.ofNat u.toNat ≠ '{' →
      isJSONObject (rawMessage t) = false := by
    intro u s htext hbasic hspace hne
    unfold rawMessage
    rw [htext, ofUtf16Lossy_cons hbasic]
    exact isJSONObject_false hspace hne
  have hfalse : ∀ {p : Prop}, isJSONObject (rawMessage t) = false → ¬ p →
      (isJSONObject (rawMessage t) = true ↔ p) := by
    intro p hf hp
    rw [hf]
    exact iff_of_false Bool.false_ne_true hp
  cases t with
  | null => exact hfalse (hno rfl (by decide) (by decide) (by decide)) (by simp)
  | bool b =>
      cases b with
      | true => exact hfalse (hno rfl (by decide) (by decide) (by decide)) (by simp)
      | false => exact hfalse (hno rfl (by decide) (by decide) (by decide)) (by simp)
  | nonFinite c => exact absurd h.proper (by simp [Ast.Proper, rfc8259])
  | num n =>
      obtain ⟨u, s, htext, hu⟩ := numeral_head h.proper.1
      apply hfalse _ (by simp)
      rcases hu with hu | rfl
      · have hrange := isDigit_toNat.mp hu
        have hchar : (Char.ofNat u.toNat).toNat = u.toNat := by
          apply toNat_ofNat_of_valid
          unfold Nat.isValidChar
          omega
        apply hno htext (isBasic_of_low (by omega))
        · unfold isSpace
          rw [hchar]
          simp only [Bool.or_eq_false_iff, Bool.and_eq_false_iff, decide_eq_false_iff_not, beq_eq_false_iff_ne]
          omega
        · intro heq
          rw [heq] at hchar
          have hbrace : ('{').toNat = 0x7B := by decide
          omega
      · exact hno htext (by decide) (by decide) (by decide)
  | str ps => exact hfalse (hno rfl (by decide) (by decide) (by decide)) (by simp)
  | arr xs => exact hfalse (hno rfl (by decide) (by decide) (by decide)) (by simp)
  | obj ms =>
      have hwf := clean_text h.clean h.proper
      unfold Ast.text at hwf
      rw [wellFormed_bracketed (by decide) (by decide)] at hwf
      obtain ⟨cs, hcs⟩ := hwf
      have htext : (Ast.obj ms).text = utf16 ('{' :: (cs ++ ['}'])) := by
        rw [utf16_cons, utf16_append, hcs]
        rfl
      refine iff_of_true ?_ ⟨ms, rfl⟩
      unfold isJSONObject rawMessage
      rw [htext, ofUtf16Lossy_utf16, ofUtf8Lossy_utf8, trimSpace_eq_self (by decide) (by decide)]
      simp [List.getLast?_cons, List.getLast?_append]

end CekatEvents.Go
