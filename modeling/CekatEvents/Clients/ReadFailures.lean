/-
  CekatEvents.Clients.ReadFailures — an error response whose body broke off.

  The conformance rules let a response other than a 200 keep its status classification when its body
  cannot be read, with the reason phrase for a message.  The Go decoder asks whether the read failed;
  the Python and the Java decoder look at whatever bytes came before it did.  None of the three has a
  phrase for every status: Go's text is empty outside the registry, and the other two write `HTTP` and
  the number.  What the bytes may say is told in the grammar's terms:

    * `ErrorEnvelope v message code` — the value is an error envelope with this message and code;
    * `Python.Reads`, `Java.Reads`   — the value a decoder sees in a sequence of bytes.

  Main result: `brokenRead_reported_iff`, when all three report the response by its reason phrase or a
  phrase of its status, and nothing of the body.
-/
import CekatEvents.Encoding.Space
import CekatEvents.Go.EncodingJson
import CekatEvents.Java.ResponseDecoder
import CekatEvents.Python.Protocol

namespace CekatEvents

open CekatEvents.Encoding CekatEvents.JsonText CekatEvents.Http

/-! ## §1. Error envelopes. -/

section Envelopes

variable {ν : Type}

/-- An error envelope: `success` is false, `error` a string that is not empty, and `code` a string
    where it is present. -/
structure ErrorEnvelope (v : Value ν) (message : List CodeUnit) (code : Option (List CodeUnit)) :
    Prop where
  success : v.get (units "success") = some (.bool false)
  error : v.get (units "error") = some (.str message)
  nonEmpty : message ≠ []
  code : v.get (units "code") = code.map .str

/-- The test for the constant `false`. -/
def isFalse : Option (Value ν) → Bool
  | some (.bool c) => c == false
  | _ => false

/-- The test for a string that is not empty. -/
def nonEmptyText : Option (Value ν) → Option (List CodeUnit)
  | some (.str s) => if s = [] then none else some s
  | _ => none

/-- The envelope test of both decoders, over any numbers. -/
def readErrorEnvelope (v : Value ν) : Option (List CodeUnit × Option (List CodeUnit)) :=
  if isFalse (v.get (units "success")) then
    match nonEmptyText (v.get (units "error")) with
    | none => none
    | some message =>
        match v.get (units "code") with
        | none => some (message, none)
        | some (.str code) => some (message, some code)
        | some _ => none
  else none

theorem isFalse_iff {v : Option (Value ν)} : isFalse v = true ↔ v = some (.bool false) := by
  unfold isFalse
  split
  · simp
  · rename_i hne
    constructor
    · intro h
      exact absurd h Bool.false_ne_true
    · intro h
      exact absurd h (hne false)

theorem nonEmptyText_iff {v : Option (Value ν)} {s : List CodeUnit} :
    nonEmptyText v = some s ↔ v = some (.str s) ∧ s ≠ [] := by
  unfold nonEmptyText
  split
  · rename_i s'
    rw [Option.ite_none_left_eq_some]
    constructor
    · intro h
      rw [Option.some.injEq] at h
      exact ⟨by rw [h.2], h.2 ▸ h.1⟩
    · intro h
      have hs : s' = s := by simpa using h.1
      exact ⟨hs ▸ h.2, by rw [hs]⟩
  · rename_i hne
    constructor
    · intro h
      exact absurd h (by simp)
    · intro h
      exact absurd h.1 (hne s)

/-- The test is the definition of an envelope. -/
theorem readErrorEnvelope_iff {v : Value ν} {message : List CodeUnit}
    {code : Option (List CodeUnit)} :
    readErrorEnvelope v = some (message, code) ↔ ErrorEnvelope v message code := by
  unfold readErrorEnvelope
  constructor
  · intro h
    obtain ⟨hsuccess, h⟩ := Option.ite_none_right_eq_some.mp h
    split at h
    · exact absurd h (by simp)
    · rename_i m herror
      obtain ⟨herror, hm⟩ := nonEmptyText_iff.mp herror
      split at h
      · rename_i hcode
        rw [Option.some.injEq, Prod.mk.injEq] at h
        obtain ⟨rfl, rfl⟩ := h
        exact ⟨isFalse_iff.mp hsuccess, herror, hm, hcode⟩
      · rename_i c hcode
        rw [Option.some.injEq, Prod.mk.injEq] at h
        obtain ⟨rfl, rfl⟩ := h
        exact ⟨isFalse_iff.mp hsuccess, herror, hm, hcode⟩
      · exact absurd h (by simp)
  · intro h
    rw [if_pos (isFalse_iff.mpr h.success), nonEmptyText_iff.mpr ⟨h.error, h.nonEmpty⟩, h.code]
    cases code with
    | none => rfl
    | some c => rfl

end Envelopes

/-! ## §2. What a decoder sees in a body. -/

/-- The bytes are text that `json.loads` reads as the value. -/
def Python.Reads (i : Python.Interpreter) (body : List UInt8) (v : Python.PyValue) : Prop :=
  ∃ cs t, utf8 cs = body ∧ Text (Python.python i) t (utf16 cs) ∧ t.nesting ≤ i.recursionLimit ∧
    t.decode Python.pythonDecoder = v

/-- The bytes, with what is not UTF-8 replaced, are text that `Json.parse` reads as the value. -/
def Java.Reads (body : List UInt8) (v : Java.JsonValue) : Prop :=
  ∃ t, Text Java.java t (Java.newString body) ∧ t.height ≤ Java.Json.MAX_DEPTH ∧
    t.decode Java.javaDecoder = v

theorem Python.errorEnvelope_eq (v : Python.PyValue) :
    Python.errorEnvelope v = readErrorEnvelope v := by
  have hfalse : ∀ x : Option Python.PyValue, Python.isBool false x = isFalse x := by
    intro x
    rcases x with _ | x
    · rfl
    · cases x <;> rfl
  have htext : ∀ x : Option Python.PyValue, Python.nonEmptyStr x = nonEmptyText x := by
    intro x
    rcases x with _ | x
    · rfl
    · cases x <;> rfl
  unfold Python.errorEnvelope readErrorEnvelope
  rw [hfalse, htext]
  congr 1
  cases nonEmptyText (v.get (units "error")) with
  | none => rfl
  | some message =>
      rcases v.get (units "code") with _ | c
      · rfl
      · cases c <;> rfl

theorem Java.errorEnvelope_eq (v : Java.JsonValue) :
    Java.errorEnvelope v = readErrorEnvelope v := by
  have hfalse : ∀ x : Option Java.JsonValue, Java.isBoolean false x = isFalse x := by
    intro x
    rcases x with _ | x
    · rfl
    · cases x <;> rfl
  have htext : ∀ x : Option Java.JsonValue, Java.nonEmptyString x = nonEmptyText x := by
    intro x
    rcases x with _ | x
    · rfl
    · cases x <;> rfl
  unfold Java.errorEnvelope readErrorEnvelope
  rw [hfalse, htext]
  congr 1
  cases nonEmptyText (v.get (units "error")) with
  | none => rfl
  | some message =>
      rcases v.get (units "code") with _ | c
      · rfl
      · cases c <;> rfl

/-- A body that `json.loads` does not read counts as `None`, which is no envelope. -/
theorem Python.parse_envelope {i : Python.Interpreter} {body : List UInt8} {v : Python.PyValue}
    (hparse : Python.parse i body = .ok v) {message : List CodeUnit}
    {code : Option (List CodeUnit)} :
    Python.errorEnvelope v = some (message, code) ↔
      ∃ w, Python.Reads i body w ∧ ErrorEnvelope w message code := by
  rw [Python.errorEnvelope_eq, readErrorEnvelope_iff]
  have hread : ∀ {w}, Python.Reads i body w → v = w := by
    intro w hw
    obtain ⟨cs, t, hcs, ht, hn, hval⟩ := hw
    have hloads : Python.loads i (utf16 cs) = .ok w := by
      unfold Python.loads
      rw [read_ok_iff.mpr ⟨ht, hn⟩, ← hval]
      rfl
    unfold Python.parse at hparse
    rw [ofUtf8?_eq_some_iff.mpr hcs] at hparse
    simp only [hloads, Except.ok.injEq] at hparse
    exact hparse.symm
  constructor
  · intro h
    refine ⟨v, ?_, h⟩
    -- `None` has no members, so the bytes were read
    have hnull : v ≠ .null := by
      intro hv
      have hsuccess := h.success
      rw [hv] at hsuccess
      cases hsuccess
    unfold Python.parse at hparse
    split at hparse
    · exact absurd (Except.ok.inj hparse).symm hnull
    · rename_i cs hdec
      split at hparse
      · rename_i w hloads
        have hw : w = v := Except.ok.inj hparse
        unfold Python.loads at hloads
        obtain ⟨t, hread, hval⟩ := map_eq_ok.mp hloads
        obtain ⟨ht, hn⟩ := read_ok_iff.mp hread
        exact ⟨cs, t, ofUtf8?_eq_some_iff.mp hdec, ht, hn, hval.trans hw⟩
      · exact absurd (Except.ok.inj hparse).symm hnull
      · cases hparse
  · intro h
    obtain ⟨w, hw, henv⟩ := h
    rw [hread hw]
    exact henv

theorem Java.parse_envelope {body : List UInt8} {message : List CodeUnit}
    {code : Option (List CodeUnit)} :
    Java.errorEnvelope (Java.parseOrNull (Java.newString body)) = some (message, code) ↔
      ∃ w, Java.Reads body w ∧ ErrorEnvelope w message code := by
  rw [Java.errorEnvelope_eq, readErrorEnvelope_iff]
  unfold Java.parseOrNull
  cases hparse : Java.Json.parse (Java.newString body) with
  | ok v =>
      have hv := Java.Json.parse_ok_iff.mp hparse
      constructor
      · intro h
        exact ⟨v, hv, h⟩
      · intro h
        obtain ⟨w, hw, henv⟩ := h
        have hwv : v = w := Except.ok.inj (hparse.symm.trans (Java.Json.parse_ok_iff.mpr hw))
        exact hwv ▸ henv
  | error e =>
      constructor
      · intro h
        cases h.success
      · intro h
        obtain ⟨w, hw, -⟩ := h
        have hok := Java.Json.parse_ok_iff.mpr hw
        rw [hparse] at hok
        cases hok

/-! ## §3. Reports of a broken response. -/

/-- A response other than a 200 whose body broke off. -/
structure BrokenRead where
  statusCode : Nat
  reasonPhrase : List Char
  /-- The bytes that arrived. -/
  received : List UInt8
  cause : List Char
  notOk : statusCode ≠ 200

/-- The response as the Python transport hands it over. -/
def BrokenRead.python (r : BrokenRead) (headers : List (List Char × List Char)) :
    Python.ReceivedResponse :=
  ⟨r.statusCode, r.reasonPhrase, headers, r.received, false, some r.cause⟩

/-- The response as the Java transport hands it over. -/
def BrokenRead.java (r : BrokenRead) (headers : List (List Char × List (List Char))) :
    Java.TransportResponse :=
  ⟨r.statusCode, headers, r.received, false, some r.cause⟩

/-- What `io.ReadAll` makes of the body. -/
def BrokenRead.go (r : BrokenRead) : Go.Observed := ⟨r.received, some r.cause⟩

/-- The reason phrase reads so, up to the white space around it. -/
def BrokenRead.Phrased (r : BrokenRead) (text : List Char) : Prop :=
  ∃ before after, before.all Python.isSpace = true ∧ after.all Python.isSpace = true ∧
    r.reasonPhrase = before ++ text ++ after

/-- The texts that report the response: its reason phrase and the phrases of its status. -/
def BrokenRead.Tells (r : BrokenRead) (text : List Char) : Prop :=
  text ≠ [] ∧ (r.Phrased text ∨ IsPhrase r.statusCode text)

/-- A message of code units reports the response. -/
def BrokenRead.Says (r : BrokenRead) (message : List CodeUnit) : Prop :=
  ∃ text, r.Tells text ∧ message = utf16 text

/-- No error envelope among the values adds to what reports the response. -/
def BrokenRead.Silent {ν : Type} (r : BrokenRead) (read : Value ν → Prop) : Prop :=
  ∀ v message code, read v → ErrorEnvelope v message code → r.Says message ∧ code = none

/-- There is an error envelope among the values. -/
def Enveloped {ν : Type} (read : Value ν → Prop) : Prop :=
  ∃ v message code, read v ∧ ErrorEnvelope v message code

/-- The fields of the HTTP error that was raised. -/
def Python.Raised.httpError : Python.Raised → Option Python.HttpError
  | .authentication e => some e
  | .eventDefinitionNotFound e => some e
  | .api e => some e
  | .responseDecode _ => none
  | .recursionError => none

def Java.DecodeThrown.apiException : Java.DecodeThrown → Option Java.ApiException
  | .authentication e => some e
  | .eventDefinitionNotFound e => some e
  | .api e => some e
  | .responseDecode _ => none

def Go.Error.statusError : Go.Error → Option Go.StatusError
  | .authentication e => some e
  | .eventDefinitionNotFound e => some e
  | .api e => some e
  | _ => none

/-- Decoding raises an HTTP error that reports the response, without a code. -/
def Python.Reports (r : BrokenRead) (result : Except Python.Raised Python.Acknowledgement) : Prop :=
  ∃ raised e, result = .error raised ∧ raised.httpError = some e ∧ r.Says e.message ∧ e.code = none

def Java.Reports (r : BrokenRead) (result : Except Java.DecodeThrown Java.Acknowledgement) : Prop :=
  ∃ thrown e, result = .error thrown ∧ thrown.apiException = some e ∧ r.Says e.message ∧
    e.serverCode = none

def Go.Reports (r : BrokenRead) (result : Except Go.Error Go.Acknowledgement) : Prop :=
  ∃ err e, result = .error err ∧ err.statusError = some e ∧ r.Tells e.message ∧ e.code = []

theorem Python.reports_errorType {r : BrokenRead} {statusCode : Nat} {e : Python.HttpError} :
    Python.Reports r (.error (Python.errorType statusCode e)) ↔ r.Says e.message ∧ e.code = none := by
  have he : (Python.errorType statusCode e).httpError = some e := by
    unfold Python.errorType
    split_ifs <;> rfl
  constructor
  · intro h
    obtain ⟨raised, e', hraised, he', hmessage⟩ := h
    rw [Except.error.injEq] at hraised
    rw [← hraised, he, Option.some.injEq] at he'
    exact he' ▸ hmessage
  · intro h
    exact ⟨_, e, rfl, he, h⟩

theorem Java.reports_statusException {r : BrokenRead} {statusCode : Nat} {e : Java.ApiException} :
    Java.Reports r (.error (Java.statusException statusCode e)) ↔
      r.Says e.message ∧ e.serverCode = none := by
  have he : (Java.statusException statusCode e).apiException = some e := by
    unfold Java.statusException
    split_ifs <;> rfl
  constructor
  · intro h
    obtain ⟨thrown, e', hthrown, he', hmessage⟩ := h
    rw [Except.error.injEq] at hthrown
    rw [← hthrown, he, Option.some.injEq] at he'
    exact he' ▸ hmessage
  · intro h
    exact ⟨_, e, rfl, he, h⟩

theorem Go.reports_newStatusError {r : BrokenRead} {statusCode : Nat} {message code : List Char}
    {body : Go.Bytes} {attempts : Int} :
    Go.Reports r (.error (Go.newStatusError statusCode message code body attempts)) ↔
      r.Tells message ∧ code = [] := by
  have he : (Go.newStatusError statusCode message code body attempts).statusError =
      some ⟨statusCode, message, code, body, attempts⟩ := by
    unfold Go.newStatusError
    split_ifs <;> rfl
  constructor
  · intro h
    obtain ⟨err, e, herr, he', hmessage⟩ := h
    rw [Except.error.injEq] at herr
    rw [← herr, he, Option.some.injEq] at he'
    subst he'
    exact hmessage
  · intro h
    exact ⟨_, _, rfl, he, h⟩

/-! ## §4. Texts of their own. -/

theorem BrokenRead.says_utf16_iff {r : BrokenRead} {text : List Char} :
    r.Says (utf16 text) ↔ r.Tells text := by
  constructor
  · intro h
    obtain ⟨text', htells, htext⟩ := h
    rw [utf16_injective htext]
    exact htells
  · intro h
    exact ⟨text, h, rfl⟩

/-- Stripping takes white space off the two ends. -/
theorem BrokenRead.phrased_strip (r : BrokenRead) : r.Phrased (Python.strip r.reasonPhrase) := by
  have htake : ∀ s : List Char, (s.takeWhile Python.isSpace).all Python.isSpace = true := by
    intro s
    exact List.all_eq_true.mpr fun c hc => List.mem_takeWhile_imp hc
  refine ⟨r.reasonPhrase.takeWhile Python.isSpace,
    ((r.reasonPhrase.dropWhile Python.isSpace).reverse.takeWhile Python.isSpace).reverse, htake _, ?_, ?_⟩
  · rw [List.all_reverse]
    exact htake _
  · unfold Python.strip
    rw [List.append_assoc, ← List.reverse_append, List.takeWhile_append_dropWhile, List.reverse_reverse,
      List.takeWhile_append_dropWhile]

/-- A blank reason phrase reads as white space only. -/
theorem BrokenRead.Phrased.blank {r : BrokenRead} {text : List Char} (h : r.Phrased text)
    (hblank : r.reasonPhrase.all Python.isSpace = true) : text.all Python.isSpace = true := by
  obtain ⟨before, after, -, -, hphrase⟩ := h
  rw [hphrase, List.all_append, List.all_append, Bool.and_eq_true, Bool.and_eq_true] at hblank
  exact hblank.1.2

theorem strip_eq_nil_iff {s : List Char} : Python.strip s = [] ↔ s.all Python.isSpace = true :=
  trim_eq_nil_iff

/-- What the clients have for a status reports the response where they have a phrase for it, or the
    reason phrase says the same. -/
theorem BrokenRead.tells_statusText_iff {r : BrokenRead} :
    r.Tells (statusText r.statusCode) ↔
      r.statusCode ∈ namedStatuses ∨ r.Phrased (numberText r.statusCode) := by
  by_cases hnamed : r.statusCode ∈ namedStatuses
  · have hphrase := statusText_phrase hnamed
    exact iff_of_true ⟨hphrase.ne_nil, .inr hphrase⟩ (.inl hnamed)
  · rw [statusText_number hnamed]
    unfold BrokenRead.Tells
    have hne : numberText r.statusCode ≠ [] := List.cons_ne_nil _ _
    simp only [hnamed, hne, ne_eq, not_false_eq_true, true_and, false_or,
      not_isPhrase_numberText, or_false]

/-- What the Python client falls back to reports the response unless it is the number of a status. -/
theorem says_fallbackMessage_iff {r : BrokenRead} {headers : List (List Char × List Char)} :
    r.Says (Python.fallbackMessage (r.python headers)) ↔
      r.reasonPhrase.all Python.isSpace = false ∨ r.statusCode ∈ namedStatuses := by
  unfold Python.fallbackMessage
  show r.Says (if Python.strip r.reasonPhrase = [] then utf16 (statusText r.statusCode)
    else utf16 (Python.strip r.reasonPhrase)) ↔ _
  by_cases hblank : Python.strip r.reasonPhrase = []
  · rw [if_pos hblank, BrokenRead.says_utf16_iff, BrokenRead.tells_statusText_iff]
    rw [strip_eq_nil_iff] at hblank
    have hphrased : ¬ r.Phrased (numberText r.statusCode) := by
      intro h
      have hletter := List.all_eq_true.mp (h.blank hblank) 'H' (List.mem_cons_self ..)
      exact absurd hletter (by decide)
    simp only [hphrased, hblank, or_false, Bool.true_eq_false, false_or]
  · rw [if_neg hblank, BrokenRead.says_utf16_iff]
    have hspace : r.reasonPhrase.all Python.isSpace = false := by
      rw [← Bool.not_eq_true, ← strip_eq_nil_iff]
      exact hblank
    exact iff_of_true ⟨hblank, .inl r.phrased_strip⟩ (.inl hspace)

/-- The table of `net/http` is the registry's. -/
theorem go_statusText_iff {status : Nat} : IsPhrase status (Go.statusText status) ↔ Registered status := by
  have htable : ∀ e ∈ Go.statusTexts, ∃ e' ∈ reasonPhrases, e'.1 = e.1 ∧ e.2 ∈ e'.2 := by
    decide +kernel
  have hcodes : ∀ e ∈ reasonPhrases, ∃ e' ∈ Go.statusTexts, e'.1 = e.1 := by decide +kernel
  constructor
  · intro h
    exact h.registered
  · intro h
    obtain ⟨e, he, rfl⟩ := h
    unfold Go.statusText
    cases hfind : Go.statusTexts.find? fun e' => e'.1 == e.1 with
    | none =>
        obtain ⟨e', he', hcode⟩ := hcodes e he
        exact absurd (List.find?_eq_none.mp hfind e' he') (by simp [hcode])
    | some found =>
        have hcode : found.1 = e.1 := by simpa using List.find?_some hfind
        obtain ⟨e', he', hcode', hphrase⟩ := htable found (List.mem_of_find?_eq_some hfind)
        exact ⟨e', he', hcode'.trans hcode, found.2, hphrase, rfl⟩

theorem go_statusText_nil {status : Nat} (h : ¬ Registered status) : Go.statusText status = [] := by
  have htable : ∀ e ∈ Go.statusTexts, ∃ e' ∈ reasonPhrases, e'.1 = e.1 := by decide +kernel
  have hfind : Go.statusTexts.find? (fun e => e.1 == status) = none := by
    rw [List.find?_eq_none]
    intro e he heq
    obtain ⟨e', he', hcode⟩ := htable e he
    exact h ⟨e', he', hcode.trans (by simpa using heq)⟩
  unfold Go.statusText
  rw [hfind]
  rfl

theorem tells_go_statusText_iff {r : BrokenRead} :
    r.Tells (Go.statusText r.statusCode) ↔ Registered r.statusCode := by
  constructor
  · intro h
    by_contra hregistered
    exact h.1 (go_statusText_nil hregistered)
  · intro h
    have hphrase := go_statusText_iff.mpr h
    exact ⟨hphrase.ne_nil, .inr hphrase⟩

/-! ## §5. What each decoder reports. -/

/-- The Python decoder reports the response exactly when the envelope it finds adds nothing, or it
    finds none and has a phrase. -/
theorem python_reports_iff (i : Python.Interpreter) (r : BrokenRead)
    (headers : List (List Char × List Char)) (attempts : Nat) :
    Python.Reports r (Python.decode i (r.python headers) attempts) ↔
      ¬ Python.BodyOverflows i r.received ∧ r.Silent (Python.Reads i r.received) ∧
        (Enveloped (Python.Reads i r.received) ∨ r.reasonPhrase.all Python.isSpace = false ∨
          r.statusCode ∈ namedStatuses) := by
  unfold Python.decode
  rw [if_neg (show (r.python headers).statusCode ≠ 200 from r.notOk)]
  show Python.Reports _ ((Python.parse i r.received).bind _) ↔ _
  rcases Python.parse_cases i r.received with ⟨hover, hparse⟩ | ⟨hover, v, hparse⟩
  · rw [hparse]
    constructor
    · intro h
      obtain ⟨raised, e, hraised, he, -⟩ := h
      cases hraised
      cases he
    · intro h
      exact absurd hover h.1
  · rw [hparse]
    dsimp only [Except.bind]
    cases henv : Python.errorEnvelope v with
    | some fields =>
        -- one value is read, and its envelope is the one that is reported
        obtain ⟨message, code⟩ := fields
        dsimp only
        rw [Python.reports_errorType]
        obtain ⟨w, hw, hfound⟩ := (Python.parse_envelope hparse).mp henv
        constructor
        · intro h
          refine ⟨hover, ?_, .inl ⟨w, message, code, hw, hfound⟩⟩
          intro w' message' code' hw' henv'
          have hsame := (Python.parse_envelope hparse).mpr ⟨w', hw', henv'⟩
          rw [henv, Option.some.injEq, Prod.mk.injEq] at hsame
          obtain ⟨rfl, rfl⟩ := hsame
          exact h
        · intro h
          exact h.2.1 w message code hw hfound
    | none =>
        have hnone : ∀ w message code, Python.Reads i r.received w →
            ¬ ErrorEnvelope w message code := by
          intro w message code hw hfound
          have hsome := (Python.parse_envelope hparse).mpr ⟨w, hw, hfound⟩
          rw [henv] at hsome
          cases hsome
        dsimp only
        rw [Python.reports_errorType, says_fallbackMessage_iff]
        constructor
        · intro h
          exact ⟨hover, fun w message code hw hfound => absurd hfound (hnone w message code hw),
            .inr h.1⟩
        · intro h
          obtain ⟨-, -, ⟨w, message, code, hw, hfound⟩ | hphrase⟩ := h
          · exact absurd hfound (hnone w message code hw)
          · exact ⟨hphrase, rfl⟩

/-- So does the Java decoder, which is told no reason phrase. -/
theorem java_reports_iff (r : BrokenRead) (headers : List (List Char × List (List Char)))
    (attempts : Int) :
    Java.Reports r (Java.decode (r.java headers) attempts) ↔
      r.Silent (Java.Reads r.received) ∧ (Enveloped (Java.Reads r.received) ∨
        r.statusCode ∈ namedStatuses ∨ r.Phrased (numberText r.statusCode)) := by
  unfold Java.decode
  rw [if_neg (show (r.java headers).statusCode ≠ 200 from r.notOk)]
  have hbody : (r.java headers).body = r.received := rfl
  rw [hbody]
  cases henv : Java.errorEnvelope (Java.parseOrNull (Java.newString r.received)) with
  | some fields =>
      obtain ⟨message, code⟩ := fields
      dsimp only
      rw [Java.reports_statusException]
      obtain ⟨w, hw, hfound⟩ := Java.parse_envelope.mp henv
      constructor
      · intro h
        refine ⟨?_, .inl ⟨w, message, code, hw, hfound⟩⟩
        intro w' message' code' hw' henv'
        have hsame := Java.parse_envelope.mpr ⟨w', hw', henv'⟩
        rw [henv, Option.some.injEq, Prod.mk.injEq] at hsame
        obtain ⟨rfl, rfl⟩ := hsame
        exact h
      · intro h
        exact h.1 w message code hw hfound
  | none =>
      have hnone : ∀ w message code, Java.Reads r.received w → ¬ ErrorEnvelope w message code := by
        intro w message code hw hfound
        have hsome := Java.parse_envelope.mpr ⟨w, hw, hfound⟩
        rw [henv] at hsome
        cases hsome
      dsimp only
      rw [Java.reports_statusException]
      show r.Says (utf16 (statusText r.statusCode)) ∧ _ ↔ _
      rw [BrokenRead.says_utf16_iff, BrokenRead.tells_statusText_iff]
      constructor
      · intro h
        exact ⟨fun w message code hw hfound => absurd hfound (hnone w message code hw), .inr h.1⟩
      · intro h
        obtain ⟨-, ⟨w, message, code, hw, hfound⟩ | hphrase⟩ := h
        · exact absurd hfound (hnone w message code hw)
        · exact ⟨hphrase, rfl⟩

/-- The Go decoder asks whether the read failed, and reports the response where the registry has a
    phrase for its status. -/
theorem go_reports_iff (json : Go.EncodingJson) (r : BrokenRead) (attempts : Int) :
    Go.Reports r (Go.decodeResponse json r.statusCode r.go attempts) ↔ Registered r.statusCode := by
  unfold Go.decodeResponse
  simp only [if_neg r.notOk]
  rw [if_pos (by simp [BrokenRead.go]), Go.reports_newStatusError, tells_go_statusText_iff]
  exact and_iff_left rfl

/-! ## §6. The three decoders. -/

/-- The three decoders report a broken response by its reason phrase or a phrase of its status, and
    nothing of its body: no code, and no text that came with it. -/
def StatusReported (i : Python.Interpreter) (json : Go.EncodingJson) (r : BrokenRead)
    (headers : List (List Char × List Char)) (attempts : Nat) : Prop :=
  Python.Reports r (Python.decode i (r.python headers) attempts) ∧
    Java.Reports r (Java.decode (r.java (headers.map fun e => (e.1, [e.2]))) attempts) ∧
    Go.Reports r (Go.decodeResponse json r.statusCode r.go attempts)

/-- **A broken response is reported by its status alone exactly when the status is registered, what
    arrived of the body does not overflow the interpreter's recursion limit and has no error envelope
    that says more than the status does, and a decoder that finds no envelope has a phrase to report.** -/
theorem brokenRead_reported_iff (i : Python.Interpreter) (json : Go.EncodingJson) (r : BrokenRead)
    (headers : List (List Char × List Char)) (attempts : Nat) :
    StatusReported i json r headers attempts ↔
      Registered r.statusCode ∧ ¬ Python.BodyOverflows i r.received ∧
      r.Silent (Python.Reads i r.received) ∧ r.Silent (Java.Reads r.received) ∧
      (Enveloped (Python.Reads i r.received) ∨ r.reasonPhrase.all Python.isSpace = false ∨
        r.statusCode ∈ namedStatuses) ∧
      (Enveloped (Java.Reads r.received) ∨ r.statusCode ∈ namedStatuses ∨
        r.Phrased (numberText r.statusCode)) := by
  unfold StatusReported
  rw [python_reports_iff, java_reports_iff, go_reports_iff]
  constructor
  · intro h
    obtain ⟨⟨hover, hpython, hphrase⟩, ⟨hjava, hnamed⟩, hregistered⟩ := h
    exact ⟨hregistered, hover, hpython, hjava, hphrase, hnamed⟩
  · intro h
    obtain ⟨hregistered, hover, hpython, hjava, hphrase, hnamed⟩ := h
    exact ⟨⟨hover, hpython, hphrase⟩, ⟨hjava, hnamed⟩, hregistered⟩

/-- A complete error envelope. -/
def envelopeChars : List Char :=
  ['{', '"', 's', 'u', 'c', 'c', 'e', 's', 's', '"', ':', 'f', 'a', 'l', 's', 'e', ',', '"', 'e', 'r',
   'r', 'o', 'r', '"', ':', '"', 'x', '"', ',', '"', 'c', 'o', 'd', 'e', '"', ':', '"', 'y', '"', '}']

/-- Its tree. -/
def envelopeTree : Ast :=
  .obj [(plainPieces ['s', 'u', 'c', 'c', 'e', 's', 's'], .bool false),
    (plainPieces ['e', 'r', 'r', 'o', 'r'], .str (plainPieces ['x'])),
    (plainPieces ['c', 'o', 'd', 'e'], .str (plainPieces ['y']))]

/-- A 500 that broke off after a complete error envelope. -/
def brokenEnvelope : BrokenRead where
  statusCode := 500
  reasonPhrase := "Internal Server Error".toList
  received := utf8 envelopeChars
  cause := "connection reset".toList
  notOk := by decide

theorem reads_envelope :
    Python.Reads Python.cpython (utf8 envelopeChars) (envelopeTree.decode Python.pythonDecoder) := by
  refine ⟨envelopeChars, envelopeTree, rfl, ?_, by decide, rfl⟩
  have htext : utf16 envelopeChars = envelopeTree.text := by decide
  rw [htext]
  apply text_text
  simp only [envelopeTree, Ast.Proper, ProperMembers]
  decide

/-- **The Python and the Java decoder take the message and the code of an envelope that arrived before
    the connection broke.** -/
theorem brokenEnvelope_not_reported :
    ¬ StatusReported Python.cpython (Go.encodingJson ⟨fun _ => [], fun _ => []⟩) brokenEnvelope []
      1 := by
  intro h
  have hsilent := ((python_reports_iff _ _ _ _).mp h.1).2.1
  have hcode := hsilent _ (units "x") (some (units "y")) reads_envelope
    ⟨rfl, rfl, by decide, rfl⟩
  exact absurd hcode.2 (by simp)

end CekatEvents
