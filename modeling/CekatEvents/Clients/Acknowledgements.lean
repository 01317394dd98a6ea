/-
  CekatEvents.Clients.Acknowledgements — one HTTP 200 in the Python, the Java and the Node client.

  Three parsers stand behind three envelope checks.  The checks are one function of the decoded value,
  and each parser takes some of the trees of a grammar that is wider than all of them:

    • `json.loads` takes the constants `NaN`, `Infinity` and `-Infinity`, and integers of as many digits
      as the interpreter converts;
    • `Json.parse` takes neither those constants nor a value that is more than 512 levels below the root,
      but `\u` groups with a sign;
    • `JSON.parse` takes the standard.

  Main result: `decoders_agree_iff` — the three decoders agree exactly when `json.loads` does not run out
  of stack and these limits agree on the text, as far as it is a success envelope.
-/
import CekatEvents.Clients.BoundedBodies
import CekatEvents.Clients.ReadFailures
import CekatEvents.JsonText.Encode

namespace CekatEvents.Clients

open CekatEvents.Encoding CekatEvents.JsonText CekatEvents.Effects

/-! ## §1. Success envelopes. -/

section Envelopes

variable {ν μ : Type}

/-- The message, the event key and the validated properties. -/
abbrev Fields := List CodeUnit × List CodeUnit × List (List CodeUnit)

/-- The test for an array of strings. -/
def textList : Option (Value ν) → Option (List (List CodeUnit))
  | some (.arr xs) => xs.mapM fun x => match x with
      | .str s => some s
      | _ => none
  | _ => none

/-- The test for the constant `true`. -/
def isTrue : Option (Value ν) → Bool
  | some (.bool c) => c == true
  | _ => false

/-- The envelope test of the three decoders, over any numbers. -/
def successFields (v : Value ν) : Option Fields := do
  let data ← v.get (units "data")
  let message ← nonEmptyText (data.get (units "message"))
  let eventKey ← nonEmptyText (data.get (units "event_key"))
  let properties ← textList (data.get (units "validated_properties"))
  if isTrue (v.get (units "success")) && isTrue (data.get (units "success")) then
    some (message, eventKey, properties)
  else none

theorem python_envelopeFields (v : Python.PyValue) : Python.envelopeFields v = successFields v := by
  have htrue : Python.isBool true = isTrue := by
    funext x
    rcases x with _ | _ | _ | _ | _ | _ | _ <;> rfl
  have htext : Python.nonEmptyStr = nonEmptyText := by
    funext x
    rcases x with _ | _ | _ | _ | _ | _ | _ <;> rfl
  have hlist : Python.strList = textList := by
    funext x
    rcases x with _ | x
    · rfl
    · cases x with
      | arr xs =>
          refine congrArg (fun f => List.mapM f xs) ?_
          funext x
          cases x <;> rfl
      | _ => rfl
  unfold Python.envelopeFields successFields
  rw [htrue, htext, hlist]

theorem java_envelopeFields (v : Java.JsonValue) : Java.envelopeFields v = successFields v := by
  have htrue : Java.isBoolean true = isTrue := by
    funext x
    rcases x with _ | _ | _ | _ | _ | _ | _ <;> rfl
  have htext : Java.nonEmptyString = nonEmptyText := by
    funext x
    rcases x with _ | _ | _ | _ | _ | _ | _ <;> rfl
  have hlist : Java.stringList = textList := by
    funext x
    rcases x with _ | x
    · rfl
    · cases x with
      | arr xs =>
          refine congrArg (fun f => List.mapM f xs) ?_
          funext x
          cases x <;> rfl
      | _ => rfl
  unfold Java.envelopeFields successFields
  rw [htrue, htext, hlist]

theorem node_envelopeFields (v : Node.JsValue) : Node.envelopeFields v = successFields v := by
  have htrue : Node.isBoolean true = isTrue := by
    funext x
    rcases x with _ | _ | _ | _ | _ | _ | _ <;> rfl
  have htext : Node.nonEmptyString = nonEmptyText := by
    funext x
    rcases x with _ | _ | _ | _ | _ | _ | _ <;> rfl
  have hlist : Node.stringArray = textList := by
    funext x
    rcases x with _ | x
    · rfl
    · cases x with
      | arr xs =>
          refine congrArg (fun f => List.mapM f xs) ?_
          funext x
          cases x <;> rfl
      | _ => rfl
  unfold Node.envelopeFields successFields
  rw [htrue, htext, hlist]

theorem textList_map (f : ν → μ) (v : Option (Value ν)) :
    textList (v.map (Value.map f)) = textList v := by
  rcases v with _ | v
  · rfl
  · cases v with
    | arr xs =>
        unfold textList
        show List.mapM _ (mapElems f xs) = _
        rw [mapElems_eq_map, List.mapM_map]
        congr 1
        funext x
        cases x <;> rfl
    | _ => rfl

theorem nonEmptyText_map (f : ν → μ) (v : Option (Value ν)) :
    nonEmptyText (v.map (Value.map f)) = nonEmptyText v := by
  rcases v with _ | v
  · rfl
  · cases v <;> rfl

theorem isTrue_map (f : ν → μ) (v : Option (Value ν)) : isTrue (v.map (Value.map f)) = isTrue v := by
  rcases v with _ | v
  · rfl
  · cases v <;> rfl

/-- The test does not look at numbers. -/
theorem successFields_map (f : ν → μ) (v : Value ν) : successFields (v.map f) = successFields v := by
  unfold successFields
  rw [Value.get_map, Value.get_map]
  cases v.get (units "data") with
  | none => rfl
  | some data =>
      simp only [Option.map_some, Option.bind_eq_bind, Option.bind_some, Value.get_map,
        nonEmptyText_map, textList_map, isTrue_map]

end Envelopes

/-! ## §2. One grammar for three parsers. -/

/-- A grammar that takes more than each of the parsers: the `\u` groups of `Json.parse`, the constants of
    `json.loads`, and any number. -/
def wide : Dialect := { Java.shape with nonFinite := true }

/-- The fields of the success envelope that a tree is, in the most lenient reading. -/
def fieldsOf (t : Ast) : Option Fields := successFields (t.decode Java.javaDecoder)

/-- Where the `\u` groups are hexadecimal, there is no other reading. -/
theorem strict_fieldsOf {d : Dialect} (hd : d.hexOk = strictHex) {t : Ast} (ht : t.Allowed d) :
    successFields (t.decode Python.pythonDecoder) = fieldsOf t := by
  have hhex : ∀ a b c e, d.hexOk a b c e = true → Java.escapeUnit a b c e = hexUnit a b c e := by
    intro a b c e h
    rw [hd] at h
    rw [Java.escapeUnit, Java.parseInt_strictHex h]
    rfl
  -- what is left of a tree when its numbers are forgotten
  let outline (hex : CodeUnit → CodeUnit → CodeUnit → CodeUnit → CodeUnit) : Decoder Unit :=
    ⟨hex, fun _ => (), fun _ => ()⟩
  have hjava : (t.decode Java.javaDecoder).map (fun _ => ()) = t.decode (outline Java.escapeUnit) :=
    map_decode (by rfl) (fun _ => rfl) (fun _ => rfl) t
  have hpython : (t.decode Python.pythonDecoder).map (fun _ => ()) = t.decode (outline hexUnit) :=
    map_decode (by rfl) (fun _ => rfl) (fun _ => rfl) t
  have hsame : t.decode (outline Java.escapeUnit) = t.decode (outline hexUnit) :=
    decode_congr (by rfl) (by rfl) hhex ht
  unfold fieldsOf
  rw [← successFields_map (fun _ => ()) (t.decode Java.javaDecoder), hjava, hsame, ← hpython,
    successFields_map]

theorem python_within_wide (i : Python.Interpreter) : (Python.python i).Within wide :=
  ⟨fun _ _ _ _ h => Java.Json.strictHex_readable h, fun _ _ => rfl, rfl⟩

theorem java_text_iff {t : Ast} {text : List CodeUnit} :
    Text Java.java t text ↔ Text wide t text ∧ t.Allowed Java.java ∧ t.Standard := by
  have hwithin : ∀ t : Ast, t.Allowed Java.java → t.Allowed wide :=
    allowed_of_allowed (fun _ _ _ _ h => h) (fun _ _ => rfl)
  exact text_restrict_standard rfl hwithin

theorem rfc8259_text_iff {t : Ast} {text : List CodeUnit} :
    Text rfc8259 t text ↔ Text wide t text ∧ t.Allowed rfc8259 ∧ t.Standard := by
  have hwithin : ∀ t : Ast, t.Allowed rfc8259 → t.Allowed wide :=
    allowed_of_allowed (fun _ _ _ _ h => Java.Json.strictHex_readable h) (fun _ _ => rfl)
  exact text_restrict_standard rfl hwithin

/-! ## §3. What a decoder makes of a text. -/

/-- What comes of decoding. -/
inductive Decoding where
  | acknowledged (fields : Fields)
  | decodeError
  | otherError

/-- An envelope is acknowledged, and everything else is a decode error. -/
def Decoding.ofFields : Option Fields → Decoding
  | some fields => .acknowledged fields
  | none => .decodeError

/-- Of the texts of the wide grammar those are read whose trees satisfy the condition; every other text
    is a decode error. -/
structure ReadsAs (takes : Ast → Prop) (text : List CodeUnit) (decoding : Decoding) : Prop where
  taken : ∀ t, Text wide t text → takes t → decoding = .ofFields (fieldsOf t)
  other : (∀ t, Text wide t text → ¬ takes t) → decoding = .decodeError

/-- A text that is no envelope is a decode error, whether it is taken or not. -/
theorem ReadsAs.no_fields {takes : Ast → Prop} {text : List CodeUnit} {decoding : Decoding}
    (h : ReadsAs takes text decoding) {t : Ast} (ht : Text wide t text) (hnone : fieldsOf t = none) :
    decoding = .decodeError := by
  by_cases htakes : takes t
  · rw [h.taken t ht htakes, hnone]
    rfl
  · exact h.other fun t' ht' => text_unique ht ht' ▸ htakes

/-- An envelope is acknowledged exactly when it is taken. -/
theorem ReadsAs.fields {takes : Ast → Prop} {text : List CodeUnit} {decoding : Decoding}
    (h : ReadsAs takes text decoding) {t : Ast} (ht : Text wide t text) {fields : Fields}
    (hsome : fieldsOf t = some fields) :
    (takes t ∧ decoding = .acknowledged fields) ∨ (¬ takes t ∧ decoding = .decodeError) := by
  by_cases htakes : takes t
  · rw [h.taken t ht htakes, hsome]
    exact .inl ⟨htakes, rfl⟩
  · exact .inr ⟨htakes, h.other fun t' ht' => text_unique ht ht' ▸ htakes⟩

/-- **Decoders agree on a text exactly when it is no envelope, or one that all of them take, or none.** -/
theorem decodings_agree_iff {P J N : Ast → Prop} {text : List CodeUnit} {p j n : Decoding}
    (hp : ReadsAs P text p) (hj : ReadsAs J text j) (hn : ReadsAs N text n) :
    (p = j ∧ j = n ∧ n ≠ .otherError) ↔
      ∀ t, Text wide t text → (fieldsOf t).isSome → (P t ↔ N t) ∧ (N t ↔ J t) := by
  by_cases hex : ∃ t, Text wide t text
  · obtain ⟨t, ht⟩ := hex
    have hall : (∀ t, Text wide t text → (fieldsOf t).isSome → (P t ↔ N t) ∧ (N t ↔ J t)) ↔
        ((fieldsOf t).isSome → (P t ↔ N t) ∧ (N t ↔ J t)) := by
      constructor
      · intro h
        exact h t ht
      · intro h t' ht'
        exact text_unique ht ht' ▸ h
    rw [hall]
    cases hfields : fieldsOf t with
    | none =>
        rw [hp.no_fields ht hfields, hj.no_fields ht hfields, hn.no_fields ht hfields]
        simp
    | some fields =>
        rcases hp.fields ht hfields with ⟨hP, rfl⟩ | ⟨hP, rfl⟩ <;>
          rcases hj.fields ht hfields with ⟨hJ, rfl⟩ | ⟨hJ, rfl⟩ <;>
            rcases hn.fields ht hfields with ⟨hN, rfl⟩ | ⟨hN, rfl⟩ <;>
              simp [hP, hJ, hN]
  · have hnone : ∀ t, ¬ Text wide t text := fun t ht => hex ⟨t, ht⟩
    rw [hp.other fun t ht => absurd ht (hnone t), hj.other fun t ht => absurd ht (hnone t),
      hn.other fun t ht => absurd ht (hnone t)]
    exact iff_of_true ⟨rfl, rfl, by simp⟩ fun t ht => absurd ht (hnone t)

/-! ## §4. The three clients. -/

/-- What the Python client makes of a response. -/
def pythonDecoding : Except Python.Raised Python.Acknowledgement → Decoding
  | .ok a => .acknowledged (a.message, a.eventKey, a.validatedProperties)
  | .error (.responseDecode _) => .decodeError
  | .error _ => .otherError

/-- What the Java client makes of it. -/
def javaDecoding : Except Java.DecodeThrown Java.Acknowledgement → Decoding
  | .ok a => .acknowledged (a.message, a.eventKey, a.validatedProperties)
  | .error (.responseDecode _) => .decodeError
  | .error _ => .otherError

/-- What the Node client makes of it. -/
def nodeDecoding : Except Node.Thrown Node.Acknowledgement → Decoding
  | .ok a => .acknowledged (a.message, a.eventKey, a.validatedProperties)
  | .error (.responseDecode ..) => .decodeError
  | .error _ => .otherError

/-- What `json.loads` takes of the wide grammar. -/
def PythonTakes (i : Python.Interpreter) (t : Ast) : Prop := t.Allowed (Python.python i)

/-- What `Json.parse` takes of it. -/
structure JavaTakes (t : Ast) : Prop where
  allowed : t.Allowed Java.java
  standard : t.Standard
  height : t.height ≤ Java.Json.MAX_DEPTH

/-- What `JSON.parse` takes of it. -/
structure NodeTakes (t : Ast) : Prop where
  allowed : t.Allowed rfc8259
  standard : t.Standard

section Decoders

variable {cs : List Char}

/-- Where the recursion limit is not reached, `json.loads` takes what its dialect allows. -/
theorem python_readsAs (i : Python.Interpreter) (response : Python.ReceivedResponse)
    (hstatus : response.statusCode = 200) (hread : response.bodyReadFailure = none)
    (hcomplete : response.bodyTruncated = false) (hbody : response.body = utf8 cs)
    (hover : ¬ Python.BodyOverflows i (utf8 cs)) (attempts : Nat) :
    ReadsAs (PythonTakes i) (utf16 cs)
      (pythonDecoding (Python.decode i response attempts)) := by
  have hover : ¬ Overflows (Python.python i) i.recursionLimit (skipWs (utf16 cs)) :=
    fun h => hover ⟨cs, rfl, h⟩
  have hdecode : ∀ v, Python.parse i (utf8 cs) = .ok v →
      pythonDecoding (Python.decode i response attempts) = .ofFields (successFields v) := by
    intro v hv
    rw [Python.decode, if_pos hstatus, Python.acknowledgement, hread]
    dsimp only
    rw [hcomplete, if_neg Bool.false_ne_true, hbody, hv, ← python_envelopeFields]
    simp only [bind, Except.bind]
    cases Python.envelopeFields v with
    | none => rfl
    | some fields => rfl
  constructor
  · intro t ht htakes
    have htext := (text_restrict (python_within_wide i)).mpr ⟨ht, htakes⟩
    have hloads : Python.loads i (utf16 cs) = .ok (t.decode Python.pythonDecoder) := by
      rw [Python.loads, read_ok_iff.mpr ⟨htext, nesting_le_of_not_overflows htext hover⟩]
      rfl
    rw [← strict_fieldsOf rfl htakes]
    apply hdecode
    rw [Python.parse, ofUtf8?_utf8]
    dsimp only
    rw [hloads]
  · intro hother
    have hloads : Python.loads i (utf16 cs) = .error .malformed := by
      rw [Python.loads]
      cases hres : JsonText.read (Python.python i) i.recursionLimit (utf16 cs) with
      | ok t =>
          obtain ⟨ht, htakes⟩ := (text_restrict (python_within_wide i)).mp (read_ok_iff.mp hres).1
          exact absurd htakes (hother t ht)
      | error fault =>
          cases fault with
          | malformed => rfl
          | tooDeep => exact absurd (read_tooDeep_iff.mp hres) hover
    refine hdecode .null ?_
    rw [Python.parse, ofUtf8?_utf8]
    dsimp only
    rw [hloads]

/-- A `RecursionError` is neither an acknowledgement nor a decode error. -/
theorem python_overflows (i : Python.Interpreter) (response : Python.ReceivedResponse)
    (hstatus : response.statusCode = 200) (hread : response.bodyReadFailure = none)
    (hcomplete : response.bodyTruncated = false) (hover : Python.BodyOverflows i response.body)
    (attempts : Nat) : pythonDecoding (Python.decode i response attempts) = .otherError := by
  have hparse : Python.parse i response.body = .error .recursionError := by
    rcases Python.parse_cases i response.body with h | h
    · exact h.2
    · exact absurd hover h.1
  rw [Python.decode, if_pos hstatus, Python.acknowledgement, hread]
  dsimp only
  rw [hcomplete, if_neg Bool.false_ne_true, hparse]
  rfl

/-- `Json.parse` takes what its dialect allows, within its depth and without the constants. -/
theorem java_readsAs (response : Java.TransportResponse) (hstatus : response.statusCode = 200)
    (hread : response.bodyReadFailure = none) (hcomplete : response.bodyTruncated = false)
    (hbody : response.body = utf8 cs) (attempts : Int) :
    ReadsAs JavaTakes (utf16 cs) (javaDecoding (Java.decode response attempts)) := by
  have hdecode : Java.decode response attempts = Java.acknowledgement response attempts :=
    if_pos hstatus
  rw [hdecode, Java.acknowledgement, hread]
  dsimp only
  rw [hcomplete, if_neg Bool.false_ne_true, hbody, Java.newString, ofUtf8Lossy_utf8]
  constructor
  · intro t ht htakes
    have htext := java_text_iff.mpr ⟨ht, htakes.allowed, htakes.standard⟩
    rw [Java.Json.parse_ok_iff.mpr ⟨t, htext, htakes.height, rfl⟩]
    dsimp only
    rw [java_envelopeFields]
    show javaDecoding (match fieldsOf t with
      | some (message, eventKey, properties) => .ok ⟨message, eventKey, properties, utf8 cs⟩
      | none => _) = _
    cases fieldsOf t with
    | none => rfl
    | some fields => rfl
  · intro hother
    cases hparse : Java.Json.parse (utf16 cs) with
    | error invalid => rfl
    | ok v =>
        obtain ⟨t, htext, hheight, -⟩ := Java.Json.parse_ok_iff.mp hparse
        obtain ⟨ht, hallowed, hstandard⟩ := java_text_iff.mp htext
        exact absurd ⟨hallowed, hstandard, hheight⟩ (hother t ht)

/-- `JSON.parse` takes the texts of the standard. -/
theorem node_readsAs (response : Node.Response) (hstatus : response.status = 200)
    (body : Node.BoundedBody) (hcomplete : body.bodyTruncated = false) (hbody : body.rawBody = utf16 cs) (attempts : Nat) :
    ReadsAs NodeTakes (utf16 cs) (nodeDecoding (Node.classifyBody response attempts body)) := by
  have hclassify : ∀ parsed, Node.jsonParse (utf16 cs) = parsed →
      nodeDecoding (Node.classifyBody response attempts body) = .ofFields (parsed.bind successFields) := by
    intro parsed hparsed
    rw [Node.classifyBody, if_pos hstatus, hcomplete, if_neg Bool.false_ne_true, hbody,
      Node.parseAcknowledgement, hparsed]
    cases parsed with
    | none => rfl
    | some v =>
        dsimp only
        rw [Option.bind_some, ← node_envelopeFields]
        cases Node.envelopeFields v with
        | none => rfl
        | some fields => rfl
  constructor
  · intro t ht htakes
    have htext := rfc8259_text_iff.mpr ⟨ht, htakes.allowed, htakes.standard⟩
    rw [← strict_fieldsOf rfl htakes.allowed]
    refine hclassify (some (t.decode Python.pythonDecoder)) ?_
    rw [Node.jsonParse, read_ok_iff.mpr ⟨htext, text_nesting_le htext⟩]
    rfl
  · intro hother
    refine hclassify none ?_
    rw [Node.jsonParse]
    cases hres : JsonText.read rfc8259 (utf16 cs).length (utf16 cs) with
    | ok t =>
        obtain ⟨ht, hallowed, hstandard⟩ := rfc8259_text_iff.mp (read_ok_iff.mp hres).1
        exact absurd ⟨hallowed, hstandard⟩ (hother t ht)
    | error fault => rfl

end Decoders

/-! ## §5. One response. -/

/-- An HTTP 200 whose body arrives completely, as the three clients see it: the body in chunks, cut for
    each of them in its own way, and what comes with it. -/
structure Received where
  body : List UInt8
  reasonPhrase : List Char
  pythonHeaders : List (List Char × List Char)
  javaHeaders : List (List Char × List (List Char))
  retryAfter : Option (List Char)
  pythonChunks : List (List UInt8)
  javaDeliveries : List (List (List UInt8))
  nodeChunks : List (List UInt8)
  python_complete : pythonChunks.flatten = body
  java_complete : javaDeliveries.flatten.flatten = body
  node_complete : nodeChunks.flatten = body

namespace Received

variable (r : Received) (i : Python.Interpreter) (attempts : Nat)

/-- The response of the Python transport. -/
def pythonResponse : Python.ReceivedResponse :=
  ((Python.BoundedBuffer.mk []).readAll r.pythonChunks).response 200 r.reasonPhrase r.pythonHeaders none

/-- The response of the Java transport. -/
def javaResponse : Java.TransportResponse :=
  (r.javaDeliveries.foldl Java.BoundedSubscriber.onNext .new).toResponse 200 r.javaHeaders none

/-- The response that Node classifies. -/
def nodeResponse : Node.Response := ⟨200, utf16 r.reasonPhrase, r.retryAfter⟩

/-- What Node makes of it and of the body that it read. -/
def node : Except Node.Thrown Node.Acknowledgement :=
  Node.classifyBody r.nodeResponse attempts (Node.boundedBody r.nodeChunks.flatten)

/-- **All three return an acknowledgement with the same fields, or all three report a decode error.** -/
def Agree : Prop :=
  pythonDecoding (Python.decode i r.pythonResponse attempts) =
      javaDecoding (Java.decode r.javaResponse attempts) ∧
    javaDecoding (Java.decode r.javaResponse attempts) = nodeDecoding (r.node attempts) ∧
    nodeDecoding (r.node attempts) ≠ .otherError

/-- The limits of the three parsers agree on a text, as far as it is a success envelope. -/
def LimitsAgree (cs : List Char) : Prop :=
  ∀ t, Text wide t (utf16 cs) → (fieldsOf t).isSome →
    (PythonTakes i t ↔ NodeTakes t) ∧ (NodeTakes t ↔ JavaTakes t)

variable {r}

theorem pythonResponse_complete (hlength : r.body.length ≤ bodyLimit) :
    r.pythonResponse.body = r.body ∧ r.pythonResponse.bodyTruncated = false := by
  have hread := python_response ((Python.BoundedBuffer.mk []).readAll r.pythonChunks) 200 r.reasonPhrase
    r.pythonHeaders none
  rw [python_readAll, report_foldl_hold, r.python_complete, boundedRead_of_le hlength,
    BoundedRead.mk.injEq] at hread
  exact ⟨hread.1, hread.2.1⟩

theorem javaResponse_complete (hlength : r.body.length ≤ bodyLimit) :
    r.javaResponse.body = r.body ∧ r.javaResponse.bodyTruncated = false := by
  have hread := java_toResponse (r.javaDeliveries.foldl Java.BoundedSubscriber.onNext .new) 200
    r.javaHeaders none
  have hreport : report bodyLimit (r.javaDeliveries.flatten.foldl (hold bodyLimit) []) =
      ⟨r.body, false, r.body.length⟩ := by
    rw [report_foldl_hold, r.java_complete, boundedRead_of_le hlength]
  rw [java_deliveries, show (Java.BoundedSubscriber.new).bytes = [] from rfl, hreport,
    BoundedRead.mk.injEq] at hread
  exact ⟨hread.1, hread.2.1⟩

/-- Whatever the chunks, the Node client classifies the body that they make up. -/
theorem run_node (script : Node.Script) {fuel : Nat} (hfuel : r.nodeChunks.length < fuel)
    (j : Node.Seen) : ∃ left, run script.handler (Node.classifyResponse fuel r.nodeResponse attempts)
      (j, r.nodeChunks) = some (r.node attempts, (j, left)) :=
  Node.run_classifyResponse script hfuel r.nodeResponse attempts j

/-- The three decoders on one response. -/
theorem agree_iff {i} {cs : List Char} (hbody : utf8 cs = r.body)
    (hlength : r.body.length ≤ bodyLimit) (hmark : cs.head? ≠ some (Char.ofNat 0xFEFF)) :
    r.Agree i attempts ↔ ¬ Python.BodyOverflows i r.body ∧ LimitsAgree i cs := by
  obtain ⟨hpython, hpythonWhole⟩ := pythonResponse_complete hlength
  obtain ⟨hjava, hjavaWhole⟩ := javaResponse_complete hlength
  have hunread : r.pythonResponse.bodyReadFailure = none := by
    show (if _ then none else none) = none
    exact ite_self none
  by_cases hover : Python.BodyOverflows i r.body
  · refine iff_of_false ?_ fun h => h.1 hover
    rintro ⟨hpj, hjn, hother⟩
    rw [← hjn, ← hpj] at hother
    rw [← hpython] at hover
    exact hother (python_overflows i r.pythonResponse rfl hunread hpythonWhole hover attempts)
  · rw [and_iff_right hover]
    rw [← hbody] at hover
    have hnode : Node.boundedBody r.nodeChunks.flatten = ⟨utf16 cs, false, (utf8 cs).length⟩ := by
      have hle : (utf8 cs).length ≤ Node.MAX_RESPONSE_BYTES := by
        rw [hbody]
        exact hlength
      rw [r.node_complete, ← hbody, Node.boundedBody, List.take_of_length_le hle,
        Node.textDecode_utf8 hmark, decide_eq_false (Nat.not_lt.mpr hle),
        Nat.min_eq_left (Nat.le_succ_of_le hle)]
    have hp := python_readsAs i r.pythonResponse rfl hunread hpythonWhole (hpython.trans hbody.symm)
      hover attempts
    have hj := java_readsAs r.javaResponse rfl rfl hjavaWhole (hjava.trans hbody.symm) attempts
    have hn := node_readsAs r.nodeResponse rfl (Node.boundedBody r.nodeChunks.flatten) (by rw [hnode])
      (by rw [hnode]) attempts
    unfold Agree LimitsAgree
    rw [node, decodings_agree_iff hp hj hn]

end Received

/-- **Where the parsers' limits agree, the clients agree, and nowhere else.**

    The body is text in UTF-8 without a byte-order mark, of at most 65,536 bytes. -/
theorem decoders_agree_iff (i : Python.Interpreter) (r : Received) (attempts : Nat) {cs : List Char}
    (hbody : utf8 cs = r.body) (hlength : r.body.length ≤ bodyLimit)
    (hmark : cs.head? ≠ some (Char.ofNat 0xFEFF)) :
    (∀ (script : Node.Script) (fuel : Nat) (j : Node.Seen), r.nodeChunks.length < fuel →
      ∃ left, run script.handler (Node.classifyResponse fuel r.nodeResponse attempts)
        (j, r.nodeChunks) = some (r.node attempts, (j, left))) ∧
    (r.Agree i attempts ↔ ¬ Python.BodyOverflows i r.body ∧ Received.LimitsAgree i cs) := by
  constructor
  · intro script fuel j hfuel
    exact Received.run_node attempts script hfuel j
  · exact Received.agree_iff attempts hbody hlength hmark

/-- A success envelope with a member that no client looks at. -/
def envelopeTree : Ast :=
  .obj [(plainPieces "success".toList, .bool true),
    (plainPieces "data".toList, .obj [(plainPieces "success".toList, .bool true),
      (plainPieces "message".toList, .str (plainPieces ['m'])),
      (plainPieces "event_key".toList, .str (plainPieces ['k'])),
      (plainPieces "validated_properties".toList, .arr [])]),
    (plainPieces ['x'], .nonFinite .nan)]

/-- Its text. -/
def envelopeChars : List Char :=
  "\x7b\"success\":true,\"data\":\x7b\"success\":true,\"message\":\"m\",\"event_key\":\"k\",".toList ++
    "\"validated_properties\":[]\x7d,\"x\":NaN\x7d".toList

/-- A 200 with a text for its body, in one piece. -/
def Received.whole (cs : List Char) : Received where
  body := utf8 cs
  reasonPhrase := "OK".toList
  pythonHeaders := []
  javaHeaders := []
  retryAfter := none
  pythonChunks := [utf8 cs]
  javaDeliveries := [[utf8 cs]]
  nodeChunks := [utf8 cs]
  python_complete := by simp
  java_complete := by simp
  node_complete := by simp

/-- An envelope that holds `NaN` is acknowledged by the Python client only. -/
theorem decoders_differ_on_nan : ¬ (Received.whole envelopeChars).Agree Python.cpython 1 := by
  rw [(decoders_agree_iff Python.cpython (Received.whole envelopeChars) 1 rfl (by decide)
    (by decide)).2]
  rintro ⟨-, hlimits⟩
  have hproper : envelopeTree.Proper (Python.python Python.cpython) := by
    simp only [envelopeTree, Ast.Proper, ProperMembers, ProperElems]
    decide
  have hallowed := spells_allowed (spells_text hproper)
  have htext : Text wide envelopeTree (utf16 envelopeChars) :=
    ((text_restrict (python_within_wide Python.cpython)).mp (text_text hproper)).1
  exact ((hlimits _ htext rfl).1.mp hallowed).standard.2.2.1

end CekatEvents.Clients
