/-
  CekatEvents.Clients.RequestVisitors — the visitor of a request whose headers may repeat.

  Python, and Node on a plain record, look at every value of a header.  Go looks at the first value, and at
  the first cookie that `net/http` can read; a `Headers` object joins the values of a name by a comma and a
  space before Node looks at them.

  Each is stated as a search through the texts of the headers: `python_requestVisitor`,
  `record_requestVisitor`, `headers_visitor` and `go_visitor`.
-/
import CekatEvents.Clients.Cookies
import CekatEvents.Go.Context
import CekatEvents.Ordering.StableSort

namespace CekatEvents.Clients

open CekatEvents.Encoding CekatEvents.Http CekatEvents.Ordering

/-! ## §1. What a request says. -/

/-- The headers of a request in order, by name and value. -/
abbrev HeaderList := List (FieldText × FieldText)

/-- `X-Cekat-Visitor-ID`, in lower case. -/
def visitorHeaderName : FieldText := fieldText "x-cekat-visitor-id"

def cookieHeaderName : FieldText := fieldText "cookie"

/-- The values of a name, in whatever case it is written. -/
def headerValues (name : FieldText) (entries : HeaderList) : List FieldText :=
  (entries.filter fun entry => lowerCase entry.1 = name).map Prod.snd

/-- A trimmed text; nothing when it is blank. -/
def nonblank (value : FieldText) : Option FieldText := trimToNone FieldChar.isBlank (some value)

/-- The first visitor that the cookie headers say, one header after another. -/
def cookiesVisitor (cookies : List FieldText) : Option FieldText := cookies.findSome? cookieVisitor

/-- **The visitor of a request**: the first header that is not blank, or the first cookie that is not. -/
def requestVisitor (entries : HeaderList) : Option FieldText :=
  ((headerValues visitorHeaderName entries).findSome? nonblank).or
    (cookiesVisitor (headerValues cookieHeaderName entries))

/-- A trimmed text is trimmed. -/
theorem nonblank_eq_some {value v : FieldText} (h : nonblank value = some v) : nonblank v = some v := by
  obtain ⟨hne, raw, hraw, htrim⟩ := trimToNone_eq_some_iff.mp h
  refine trimToNone_eq_some_iff.mpr ⟨hne, v, rfl, ?_⟩
  rw [← htrim]
  exact trim_trim raw

/-- The visitor of a cookie is trimmed. -/
theorem nonblank_cookieVisitor {header v : FieldText} (h : cookieVisitor header = some v) :
    nonblank v = some v := by
  obtain ⟨earlier, before, after, later, -, -, -, hvalue, hne, -⟩ := cookieVisitor_eq_some_iff.mp h
  exact nonblank_eq_some (trimToNone_eq_some_iff.mpr ⟨hne, after, rfl, hvalue⟩)

theorem nonblank_cookiesVisitor {cookies : List FieldText} {v : FieldText}
    (h : cookiesVisitor cookies = some v) : nonblank v = some v := by
  obtain ⟨header, -, hheader⟩ := List.exists_of_findSome?_eq_some h
  exact nonblank_cookieVisitor hheader

/-! ## §2. Values. -/

/-- The values of a name, in the characters of a language. -/
theorem filter_map_entries {β : Type} [DecidableEq β] {f : FieldChar → β} (hf : Function.Injective f)
    {lower : List β → List β} (hlower : ∀ name : FieldText, lower (name.map f) = (lowerCase name).map f)
    (name : FieldText) (entries : HeaderList) :
    (((entries.map fun entry => (entry.1.map f, entry.2.map f)).filter fun entry =>
      lower entry.1 = name.map f).map Prod.snd) = (headerValues name entries).map (List.map f) := by
  have hmatch : ∀ entry : FieldText × FieldText,
      decide (lower (entry.1.map f) = name.map f) = decide (lowerCase entry.1 = name) := by
    intro entry
    rw [decide_eq_decide, hlower, (List.map_injective_iff.mpr hf).eq_iff]
  unfold headerValues
  rw [List.filter_map, List.map_map, List.map_map]
  congr 1
  apply List.filter_congr
  intro entry _
  exact hmatch entry

/-- A search through the values of a language finds what a search through the texts finds. -/
theorem findSome?_map_texts {β : Type} {f : FieldChar → β} {look : FieldText → Option FieldText}
    {look' : List β → Option (List β)} (h : ∀ value, look' (value.map f) = (look value).map (List.map f))
    (values : List FieldText) :
    (values.map (List.map f)).findSome? look' = (values.findSome? look).map (List.map f) := by
  rw [List.findSome?_map, List.map_findSome?]
  congr 1
  funext value
  exact h value

/-! ## §3. Python. -/

theorem python_lower (name : FieldText) :
    Python.Context.lower (name.map codePoint) = (lowerCase name).map codePoint := by
  unfold Python.Context.lower lowerCase
  rw [List.map_map, List.map_map]
  apply List.map_congr_left
  intro c _
  have hlt := c.code_lt
  apply Fin.ext
  rw [Function.comp_apply, Function.comp_apply, codePoint_val c, codePoint_val c.toLower,
    FieldChar.toLower_code]
  split_ifs with hupper
  · show (c.code + 32) % 0x110000 = _
    omega
  · exact codePoint_val c

theorem python_nonblank (value : FieldText) :
    Python.Context.normalizeVisitor (some (value.map codePoint)) =
      (nonblank value).map (List.map codePoint) := by
  have htrim : trimToNone pythonSpace (some (value.map codePoint)) = _ := trimToNone_map python_blank value
  rw [nonblank, ← htrim, trimToNone_eq_ite]
  rfl

/-- What Python makes of a request without parsed cookies. -/
def pythonVisitor (entries : HeaderList) : Option Python.Validation.PyStr :=
  Python.Context.extractVisitorId
    (entries.map fun entry => (entry.1.map codePoint, entry.2.map codePoint)) fun _ => none

theorem python_requestVisitor (entries : HeaderList) :
    pythonVisitor entries = (requestVisitor entries).map (List.map codePoint) := by
  have hvalues : ∀ name, Python.Context.valuesOf (name.map codePoint)
      (entries.map fun entry => (entry.1.map codePoint, entry.2.map codePoint)) =
        (headerValues name entries).map (List.map codePoint) := by
    intro name
    exact filter_map_entries codePoint_injective python_lower name entries
  have hheader := hvalues visitorHeaderName
  have hcookie := hvalues cookieHeaderName
  rw [show visitorHeaderName.map codePoint = Python.Context.VISITOR_HEADER_lower by decide] at hheader
  rw [show cookieHeaderName.map codePoint = Python.Validation.ofChars "cookie".toList by decide] at hcookie
  unfold pythonVisitor Python.Context.extractVisitorId requestVisitor cookiesVisitor
  rw [hheader, hcookie, findSome?_map_texts python_nonblank, findSome?_map_texts python_cookie]
  cases (headerValues visitorHeaderName entries).findSome? nonblank with
  | some v => rfl
  | none =>
      cases (headerValues cookieHeaderName entries).findSome? cookieVisitor with
      | some v => rfl
      | none => rfl

/-! ## §4. Node, on a record. -/

theorem node_toLowerCase (name : FieldText) :
    Node.VisitorContext.toLowerCase (name.map FieldChar.unit) = (lowerCase name).map FieldChar.unit := by
  unfold Node.VisitorContext.toLowerCase lowerCase
  rw [List.map_map, List.map_map]
  apply List.map_congr_left
  intro c _
  have hlt := c.code_lt
  have hupper : (0x41 ≤ c.unit ∧ c.unit ≤ 0x5A) ↔ (0x41 ≤ c.code ∧ c.code ≤ 0x5A) := by
    rw [UInt16.le_iff_toNat_le, UInt16.le_iff_toNat_le, c.unit_toNat]
    exact Iff.rfl
  apply UInt16.toNat_inj.mp
  rw [Function.comp_apply, Function.comp_apply, FieldChar.unit_toNat, FieldChar.toLower_code]
  by_cases hletter : 0x41 ≤ c.code ∧ c.code ≤ 0x5A
  · rw [if_pos hletter, if_pos (hupper.mpr hletter), UInt16.toNat_add, c.unit_toNat]
    show (c.code + 0x20) % 2 ^ 16 = _
    omega
  · rw [if_neg hletter, if_neg (fun h => hletter (hupper.mp h)), c.unit_toNat]

theorem node_nonblank (value : FieldText) :
    Node.VisitorContext.normalizeVisitorId (some (value.map FieldChar.unit)) =
      (nonblank value).map (List.map FieldChar.unit) := by
  have htrim : trimToNone Browser.isTrimmed (some (value.map FieldChar.unit)) = _ :=
    trimToNone_map browser_blank value
  rw [nonblank, ← htrim, trimToNone_eq_ite]
  rfl

/-- The plain record that lists the values of each name, under the name in lower case. -/
def recordOf (entries : HeaderList) : Node.VisitorContext.Headers :=
  .record ((distinct (entries.map fun entry => lowerCase entry.1)).map fun name =>
    (name.map FieldChar.unit,
      .array ((headerValues name entries).map fun value => some (value.map FieldChar.unit))))

/-- What Node makes of a request that is handed over as a record. -/
def recordVisitor (entries : HeaderList) : Option Browser.Str :=
  Node.VisitorContext.runWithVisitorFromHeaders (recordOf entries) none

theorem lowerCase_lowerCase (name : FieldText) : lowerCase (lowerCase name) = lowerCase name := by
  unfold lowerCase
  rw [List.map_map]
  apply List.map_congr_left
  intro c _
  ext
  rw [Function.comp_apply, FieldChar.toLower_code, FieldChar.toLower_code]
  split_ifs <;> omega

/-- One element of a list without repetitions. -/
theorem filter_eq_of_nodup {α : Type} [DecidableEq α] {xs : List α} (h : xs.Nodup) (a : α) :
    xs.filter (fun x => x = a) = if a ∈ xs then [a] else [] := by
  rw [List.filter_eq]
  split_ifs with ha
  · rw [List.count_eq_one_of_mem h ha]
    rfl
  · rw [List.count_eq_zero.mpr ha]
    rfl

/-- The record lists the values of a name. -/
theorem headerValues_recordOf (name : FieldText) (entries : HeaderList) :
    Node.VisitorContext.headerValues (recordOf entries) (name.map FieldChar.unit) =
      (headerValues name entries).map (List.map FieldChar.unit) := by
  have hstrings : ∀ values : List FieldText,
      (Node.VisitorContext.RecordValue.array (values.map fun value =>
        some (value.map FieldChar.unit))).strings = values.map (List.map FieldChar.unit) := by
    intro values
    show (values.map fun value => some (value.map FieldChar.unit)).filterMap id = _
    rw [List.filterMap_map]
    exact congrFun List.filterMap_eq_map values
  have hnames : (distinct (entries.map fun entry => lowerCase entry.1)).filter
      (fun n => lowerCase n = name) =
        (distinct (entries.map fun entry => lowerCase entry.1)).filter fun n => n = name := by
    apply List.filter_congr
    intro n hn
    obtain ⟨entry, -, rfl⟩ := List.mem_map.mp (mem_distinct.mp hn)
    rw [lowerCase_lowerCase]
  have hmatch : ∀ n : FieldText, decide (Node.VisitorContext.toLowerCase (n.map FieldChar.unit) =
      name.map FieldChar.unit) = decide (lowerCase n = name) := by
    intro n
    rw [decide_eq_decide, node_toLowerCase, (List.map_injective_iff.mpr FieldChar.unit_injective).eq_iff]
  unfold recordOf Node.VisitorContext.headerValues
  dsimp only
  rw [List.filter_map, List.flatMap_map]
  simp only [Function.comp_def, hmatch, hstrings]
  rw [hnames, filter_eq_of_nodup (nodup_distinct _)]
  split_ifs with hname
  · exact List.flatMap_singleton _ _
  · -- no entry has the name
    have hnone : headerValues name entries = [] := by
      unfold headerValues
      rw [List.map_eq_nil_iff, List.filter_eq_nil_iff]
      intro entry hentry heq
      exact hname (mem_distinct.mpr (List.mem_map.mpr ⟨entry, hentry, of_decide_eq_true heq⟩))
    rw [hnone]
    rfl

/-- What Node runs the callback with, when it has found something in a header, or in a cookie. -/
theorem node_run {headers : Node.VisitorContext.Headers} (header cookie : Option FieldText)
    (hheader : Node.VisitorContext.firstNonblank
      (Node.VisitorContext.headerValues headers Node.VisitorContext.VISITOR_HEADER) =
        header.map (List.map FieldChar.unit))
    (hcookie : Node.VisitorContext.visitorIdFromCookies none
      (Node.VisitorContext.headerValues headers (units "cookie")) = cookie.map (List.map FieldChar.unit))
    (hkept : ∀ v, header = some v ∨ cookie = some v → nonblank v = some v) :
    Node.VisitorContext.runWithVisitorFromHeaders headers none =
      (header.or cookie).map (List.map FieldChar.unit) := by
  have hnormal : ∀ v, header = some v ∨ cookie = some v →
      Node.VisitorContext.normalizeVisitorId (some (v.map FieldChar.unit)) =
        some (v.map FieldChar.unit) := by
    intro v hv
    rw [node_nonblank, hkept v hv]
    rfl
  unfold Node.VisitorContext.runWithVisitorFromHeaders
  rw [hheader, hcookie]
  cases header with
  | some v => exact hnormal v (.inl rfl)
  | none =>
      cases cookie with
      | some v => exact hnormal v (.inr rfl)
      | none => rfl

/-- **Node finds the visitor in a record.** -/
theorem record_requestVisitor (entries : HeaderList) :
    recordVisitor entries = (requestVisitor entries).map (List.map FieldChar.unit) := by
  have hheader := headerValues_recordOf visitorHeaderName entries
  have hcookie := headerValues_recordOf cookieHeaderName entries
  rw [show visitorHeaderName.map FieldChar.unit = Node.VisitorContext.VISITOR_HEADER by decide] at hheader
  rw [show cookieHeaderName.map FieldChar.unit = units "cookie" by decide] at hcookie
  refine node_run ((headerValues visitorHeaderName entries).findSome? nonblank)
    (cookiesVisitor (headerValues cookieHeaderName entries)) ?_ ?_ ?_
  · unfold Node.VisitorContext.firstNonblank
    rw [hheader]
    exact findSome?_map_texts node_nonblank _
  · unfold Node.VisitorContext.visitorIdFromCookies
    rw [hcookie]
    exact findSome?_map_texts node_cookie _
  · rintro v (hv | hv)
    · obtain ⟨value, -, hvalue⟩ := List.exists_of_findSome?_eq_some hv
      exact nonblank_eq_some hvalue
    · exact nonblank_cookiesVisitor hv

/-! ## §5. Node, on a `Headers` object. -/

/-- Trimmed values, joined by a comma and a space. -/
def joined (values : List FieldText) : FieldText :=
  (fieldText ", ").intercalate (values.map (trim FieldChar.isBlank))

/-- What Node makes of a request that is handed over as a `Headers` object. -/
def headersVisitor (entries : HeaderList) : Option Browser.Str :=
  Node.VisitorContext.runWithVisitorFromHeaders (Node.VisitorContext.newHeaders
    (entries.map fun entry => (entry.1.map FieldChar.unit, entry.2.map FieldChar.unit))) none

theorem http_blank (c : FieldChar) : Node.VisitorContext.isHttpWhitespace c.unit = c.isBlank := by
  have h := c.valid
  have heq : ∀ u : CodeUnit, (c.unit == u) = decide (c.code = u.toNat) := by
    intro u
    rw [Bool.eq_iff_iff, beq_iff_eq, decide_eq_true_eq, ← UInt16.toNat_inj, c.unit_toNat]
  rw [Bool.eq_iff_iff]
  simp only [Node.VisitorContext.isHttpWhitespace, heq, FieldChar.isBlank, Bool.or_eq_true,
    decide_eq_true_eq, beq_iff_eq, UInt16.reduceToNat]
  omega

theorem intercalate_map {α β : Type} (f : α → β) (separator : List α) (pieces : List (List α)) :
    (separator.map f).intercalate (pieces.map (List.map f)) = (separator.intercalate pieces).map f := by
  induction pieces with
  | nil => rfl
  | cons piece pieces ih =>
      cases pieces with
      | nil => simp
      | cons next rest =>
          rw [List.map_cons, List.map_cons, List.intercalate_cons_cons, List.intercalate_cons_cons]
          rw [List.map_cons] at ih
          rw [ih]
          simp

/-- One value stands for all of a name, if there are any. -/
theorem headerValues_newHeaders (name : FieldText) (entries : HeaderList) :
    Node.VisitorContext.headerValues (Node.VisitorContext.newHeaders
      (entries.map fun entry => (entry.1.map FieldChar.unit, entry.2.map FieldChar.unit)))
        (name.map FieldChar.unit) =
      if headerValues name entries = [] then []
      else [(joined (headerValues name entries)).map FieldChar.unit] := by
  have htrim : ∀ value : FieldText, trim Node.VisitorContext.isHttpWhitespace (value.map FieldChar.unit) =
      (trim FieldChar.isBlank value).map FieldChar.unit := by
    intro value
    rw [trim_map, funext http_blank]
  have hmatch : ∀ entry : FieldText × FieldText, decide (Node.VisitorContext.toLowerCase
      (entry.1.map FieldChar.unit) = name.map FieldChar.unit) = decide (lowerCase entry.1 = name) := by
    intro entry
    rw [decide_eq_decide, node_toLowerCase, (List.map_injective_iff.mpr FieldChar.unit_injective).eq_iff]
  have hvalues : (((entries.map fun entry => (entry.1.map FieldChar.unit, entry.2.map FieldChar.unit)).map
      fun entry => (Node.VisitorContext.toLowerCase entry.1,
        trim Node.VisitorContext.isHttpWhitespace entry.2)).filter fun entry =>
          entry.1 = name.map FieldChar.unit).map Prod.snd =
        ((headerValues name entries).map (trim FieldChar.isBlank)).map (List.map FieldChar.unit) := by
    rw [List.map_map, List.filter_map, List.map_map]
    simp only [Function.comp_def, hmatch, htrim]
    unfold headerValues
    rw [List.map_map, List.map_map]
    rfl
  unfold Node.VisitorContext.newHeaders Node.VisitorContext.headerValues Node.VisitorContext.get
  dsimp only
  rw [hvalues]
  cases hnone : headerValues name entries with
  | nil => rfl
  | cons value values =>
      have hjoin := intercalate_map FieldChar.unit (fieldText ", ")
        ((value :: values).map (trim FieldChar.isBlank))
      rw [show (fieldText ", ").map FieldChar.unit = units ", " by decide] at hjoin
      rw [if_neg (List.cons_ne_nil _ _)]
      exact congrArg (fun text => [text]) hjoin

/-- **Node finds the visitor in what was joined.** -/
theorem headers_visitor (entries : HeaderList) :
    headersVisitor entries =
      ((nonblank (joined (headerValues visitorHeaderName entries))).or
        (cookieVisitor (joined (headerValues cookieHeaderName entries)))).map (List.map FieldChar.unit) := by
  have hheader := headerValues_newHeaders visitorHeaderName entries
  have hcookie := headerValues_newHeaders cookieHeaderName entries
  rw [show visitorHeaderName.map FieldChar.unit = Node.VisitorContext.VISITOR_HEADER by decide] at hheader
  rw [show cookieHeaderName.map FieldChar.unit = units "cookie" by decide] at hcookie
  refine node_run (nonblank (joined (headerValues visitorHeaderName entries)))
    (cookieVisitor (joined (headerValues cookieHeaderName entries))) ?_ ?_ ?_
  · unfold Node.VisitorContext.firstNonblank
    rw [hheader]
    split_ifs with hnone
    · rw [hnone]
      rfl
    · rw [List.findSome?_singleton]
      exact node_nonblank _
  · unfold Node.VisitorContext.visitorIdFromCookies
    rw [hcookie]
    split_ifs with hnone
    · rw [hnone]
      exact (node_cookie (joined [])).symm
    · exact (List.findSome?_singleton ..).trans (node_cookie _)
  · rintro v (hv | hv)
    · exact nonblank_eq_some hv
    · exact nonblank_cookieVisitor hv

/-! ## §6. Go. -/

/-- What `unicode` does to the letters of ASCII. -/
theorem ascii_casing : ∀ n < 0x80,
    (Char.ofNat n).toLower = Char.ofNat (if 0x41 ≤ n ∧ n ≤ 0x5A then n + 0x20 else n) ∧
      (Char.ofNat n).toUpper.toLower = (Char.ofNat n).toLower ∧
      (Char.ofNat n).toLower.toLower = (Char.ofNat n).toLower ∧
      (Char.ofNat n).toLower.toUpper = (Char.ofNat n).toUpper := by
  decide

theorem char_toLower (c : FieldChar) : c.char.toLower = c.toLower.char :=
  (ascii_casing c.code c.code_lt).1

/-- The canonical form forgets the case of a name. -/
theorem canonical_lowerCase (upper : Bool) (name : FieldText) :
    Go.canonicalMIMEHeaderKey upper ((lowerCase name).map FieldChar.char) =
      Go.canonicalMIMEHeaderKey upper (name.map FieldChar.char) := by
  induction name generalizing upper with
  | nil => rfl
  | cons c name ih =>
      obtain ⟨-, -, hlower, hupper⟩ := ascii_casing c.code c.code_lt
      have hfirst : (if upper then c.toLower.char.toUpper else c.toLower.char.toLower) =
          if upper then c.char.toUpper else c.char.toLower := by
        rw [← char_toLower]
        split_ifs
        · exact hupper
        · exact hlower
      show (if upper then c.toLower.char.toUpper else c.toLower.char.toLower) ::
        Go.canonicalMIMEHeaderKey _ ((lowerCase name).map FieldChar.char) = _
      rw [hfirst, ih]
      rfl

/-- The canonical form keeps all but the case of a name. -/
theorem toLower_canonical (upper : Bool) (name : FieldText) :
    (Go.canonicalMIMEHeaderKey upper (name.map FieldChar.char)).map Char.toLower =
      (lowerCase name).map FieldChar.char := by
  induction name generalizing upper with
  | nil => rfl
  | cons c name ih =>
      obtain ⟨-, hupper, hlower, -⟩ := ascii_casing c.code c.code_lt
      have hfirst : (if upper then c.char.toUpper else c.char.toLower).toLower = c.toLower.char := by
        rw [← char_toLower]
        split_ifs
        · exact hupper
        · exact hlower
      show (if upper then c.char.toUpper else c.char.toLower).toLower ::
        (Go.canonicalMIMEHeaderKey _ (name.map FieldChar.char)).map Char.toLower = _
      rw [hfirst, ih]
      rfl

/-- **Two names have one canonical form** exactly when they differ in case only. -/
theorem canonical_eq_iff (left right : FieldText) :
    Go.canonicalMIMEHeaderKey true (left.map FieldChar.char) =
        Go.canonicalMIMEHeaderKey true (right.map FieldChar.char) ↔ lowerCase left = lowerCase right := by
  constructor
  · intro h
    have hlower := congrArg (List.map Char.toLower) h
    rw [toLower_canonical, toLower_canonical] at hlower
    exact List.map_injective_iff.mpr FieldChar.char_injective hlower
  · intro h
    rw [← canonical_lowerCase true left, h, canonical_lowerCase]

/-- A request of `net/http` with these headers. -/
def goHeader (entries : HeaderList) : Go.Header :=
  Go.newHeader (entries.map fun entry => (entry.1.map FieldChar.char, entry.2.map FieldChar.char))

theorem go_values (name : FieldText) (entries : HeaderList) :
    (goHeader entries).values (name.map FieldChar.char) =
      (headerValues (lowerCase name) entries).map (List.map FieldChar.char) := by
  have hmatch : ∀ entry : FieldText × FieldText,
      decide (Go.canonicalMIMEHeaderKey true (entry.1.map FieldChar.char) =
        Go.canonicalMIMEHeaderKey true (name.map FieldChar.char)) =
          decide (lowerCase entry.1 = lowerCase name) := by
    intro entry
    rw [decide_eq_decide, canonical_eq_iff]
  unfold goHeader Go.newHeader Go.Header.values headerValues
  rw [List.map_map, List.filter_map, List.map_map, List.map_map]
  simp only [Function.comp_def, hmatch]

theorem go_blank (c : FieldChar) : Go.isSpace c.char = c.isBlank := by
  have h := c.valid
  rw [Bool.eq_iff_iff]
  simp only [Go.isSpace, FieldChar.char_toNat, FieldChar.isBlank, Bool.or_eq_true, Bool.and_eq_true,
    decide_eq_true_eq, beq_iff_eq]
  omega

theorem go_trimSpace (text : FieldText) :
    Go.trimSpace (text.map FieldChar.char) = (trim FieldChar.isBlank text).map FieldChar.char := by
  have htrim : trim Go.isSpace (text.map FieldChar.char) = _ := trim_map FieldChar.char text
  rw [funext go_blank] at htrim
  exact htrim

theorem go_trimString (text : FieldText) :
    Go.trimString (text.map FieldChar.char) = (trim FieldChar.isBlank text).map FieldChar.char := by
  have hblank : ∀ c : FieldChar, (c.char == ' ' || c.char == '\t' || c.char == '\n' || c.char == '\r') =
      c.isBlank := by
    intro c
    have h := c.valid
    have heq : ∀ d : Char, (c.char == d) = decide (c.code = d.toNat) := by
      intro d
      rw [Bool.eq_iff_iff, beq_iff_eq, decide_eq_true_eq, ← c.char_toNat]
      exact ⟨fun h => h ▸ rfl, fun h => Char.toNat_inj.mp h⟩
    rw [Bool.eq_iff_iff]
    simp only [heq, FieldChar.isBlank, Bool.or_eq_true, decide_eq_true_eq, beq_iff_eq, Char.reduceToNat]
    omega
  unfold Go.trimString
  rw [trim_map, funext hblank]

/-! ### Cookies. -/

def quotationMark : FieldChar := ⟨0x22, by decide⟩

def backslash : FieldChar := ⟨0x5C, by decide⟩

/-- What `net/http` reads of the text after the equals sign: surrounding quotation marks are taken off, and
    other ones, backslashes and tabs are not accepted. -/
def acceptedValue (raw : FieldText) : Option FieldText :=
  let raw := if 1 < raw.length ∧ raw.head? = some quotationMark ∧ raw.getLast? = some quotationMark then
    raw.tail.dropLast else raw
  if raw.all fun c => decide (0x20 ≤ c.code) && c != quotationMark && c != semicolon && c != backslash then
    some raw
  else none

/-- What `net/http` reads of a segment, if it is one of the visitor cookie. -/
def acceptedCookie (segment : FieldText) : Option FieldText :=
  let part := trim FieldChar.isBlank segment
  if trim FieldChar.isBlank (part.takeWhile (· != equalsSign)) = visitorCookie then
    acceptedValue ((part.dropWhile (· != equalsSign)).drop 1)
  else none

/-- The first visitor cookie that `net/http` reads. -/
def firstAccepted (cookies : List FieldText) : Option FieldText :=
  (cookies.flatMap fun header => (trim FieldChar.isBlank header).splitOn semicolon).findSome? acceptedCookie

theorem char_bne (c d : FieldChar) : (c.char != d.char) = (c != d) := by
  rw [Bool.eq_iff_iff, bne_iff_ne, bne_iff_ne]
  exact FieldChar.char_injective.ne_iff

theorem go_parseCookieValue (raw : FieldText) :
    Go.parseCookieValue (raw.map FieldChar.char) = (acceptedValue raw).map (List.map FieldChar.char) := by
  have hquote : ∀ o : Option FieldChar, o.map FieldChar.char = some '"' ↔ o = some quotationMark := by
    intro o
    rw [show some '"' = (some quotationMark).map FieldChar.char from rfl]
    exact (Option.map_injective FieldChar.char_injective).eq_iff
  have hquoted : (1 < (raw.map FieldChar.char).length ∧ (raw.map FieldChar.char).head? = some '"' ∧
      (raw.map FieldChar.char).getLast? = some '"') ↔
        (1 < raw.length ∧ raw.head? = some quotationMark ∧ raw.getLast? = some quotationMark) := by
    rw [List.length_map, List.head?_map, List.getLast?_map, hquote, hquote]
  have hvalid : ∀ c : FieldChar, Go.validCookieValueByte c.char = (decide (0x20 ≤ c.code) &&
      c != quotationMark && c != semicolon && c != backslash) := by
    intro c
    have h := c.valid
    have hlt : decide (c.char.toNat < 0x7F) = true := by
      rw [decide_eq_true_eq, c.char_toNat]
      omega
    unfold Go.validCookieValueByte
    rw [hlt, c.char_toNat, Bool.and_true, show '"' = quotationMark.char from rfl,
      show ';' = semicolon.char from rfl, show '\\' = backslash.char from rfl, char_bne, char_bne, char_bne]
  have hall : ∀ text : FieldText, (text.map FieldChar.char).all Go.validCookieValueByte =
      text.all fun c => decide (0x20 ≤ c.code) && c != quotationMark && c != semicolon && c != backslash := by
    intro text
    rw [List.all_map]
    congr 1
    funext c
    exact hvalid c
  unfold Go.parseCookieValue acceptedValue
  dsimp only
  by_cases hq : 1 < raw.length ∧ raw.head? = some quotationMark ∧ raw.getLast? = some quotationMark
  · rw [if_pos hq, if_pos (hquoted.mpr hq), ← List.map_tail, ← List.map_dropLast, hall]
    split_ifs <;> rfl
  · rw [if_neg hq, if_neg (fun h => hq (hquoted.mp h)), hall]
    split_ifs <;> rfl

theorem go_readCookie (segment : FieldText) :
    Go.readCookie Go.VisitorCookie (segment.map FieldChar.char) =
      (acceptedCookie segment).map (List.map FieldChar.char) := by
  have hne : (fun c => c != '=') ∘ FieldChar.char = fun c => c != equalsSign := by
    funext c
    exact char_bne c equalsSign
  have hcookie : Go.VisitorCookie = visitorCookie.map FieldChar.char := by decide
  unfold Go.readCookie acceptedCookie
  dsimp only
  rw [go_trimString, List.takeWhile_map, List.dropWhile_map, hne, go_trimString, ← List.map_drop,
    go_parseCookieValue]
  by_cases hname : trim FieldChar.isBlank
      ((trim FieldChar.isBlank segment).takeWhile fun c => c != equalsSign) = visitorCookie
  · rw [if_pos hname, hname, if_neg (by decide)]
  · have hother : ((trim FieldChar.isBlank ((trim FieldChar.isBlank segment).takeWhile
        fun c => c != equalsSign)).map FieldChar.char != Go.VisitorCookie) = true := by
      rw [bne_iff_ne, hcookie]
      exact fun h => hname (List.map_injective_iff.mpr FieldChar.char_injective h)
    rw [if_neg hname, hother, Bool.or_true, if_pos rfl]
    rfl

theorem go_cookie (entries : HeaderList) :
    (goHeader entries).cookie Go.VisitorCookie =
      (firstAccepted (headerValues cookieHeaderName entries)).map (List.map FieldChar.char) := by
  have hvalues := go_values (fieldText "Cookie") entries
  rw [show (fieldText "Cookie").map FieldChar.char = "Cookie".toList by decide,
    show lowerCase (fieldText "Cookie") = cookieHeaderName by decide] at hvalues
  have hsegments : ∀ values : List FieldText,
      (values.map (List.map FieldChar.char)).flatMap (fun line => (Go.trimString line).splitOn ';') =
        (values.flatMap fun header => (trim FieldChar.isBlank header).splitOn semicolon).map
          (List.map FieldChar.char) := by
    intro values
    rw [List.flatMap_map, List.map_flatMap]
    apply List.flatMap_congr
    intro value _
    rw [go_trimString]
    exact splitOn_map FieldChar.char_injective semicolon _
  unfold Go.Header.cookie Go.readCookies firstAccepted
  rw [hvalues, ← List.filterMap_flatMap, List.head?_filterMap, hsegments]
  exact findSome?_map_texts go_readCookie _

/-- What Go makes of a request. -/
def goVisitor (entries : HeaderList) : Option (List Char) :=
  Go.WithVisitorFromRequest none (goHeader entries)

theorem go_resolve (header cookie : FieldText) :
    Go.ResolveVisitorID (header.map FieldChar.char) (cookie.map FieldChar.char) =
      ((nonblank header).or (nonblank cookie)).map (List.map FieldChar.char) := by
  have hblank : ∀ text : FieldText, nonblank text =
      if trim FieldChar.isBlank text = [] then none else some (trim FieldChar.isBlank text) :=
    fun text => trimToNone_eq_ite _ text
  unfold Go.ResolveVisitorID
  rw [go_trimSpace, go_trimSpace, hblank, hblank]
  cases trim FieldChar.isBlank header with
  | cons c cs => rfl
  | nil =>
      cases trim FieldChar.isBlank cookie with
      | cons c cs => rfl
      | nil => rfl

/-- What was trimmed is put into the context as it is. -/
theorem go_withVisitorID {v : FieldText} (h : nonblank v = some v) :
    Go.WithVisitorID none (v.map FieldChar.char) = some (v.map FieldChar.char) := by
  obtain ⟨hne, raw, hraw, htrim⟩ := trimToNone_eq_some_iff.mp h
  cases hraw
  unfold Go.WithVisitorID
  rw [go_trimSpace, htrim, if_neg]
  exact fun hnil => hne (List.map_eq_nil_iff.mp hnil)

/-- **Go finds the visitor** in the first header, or in the first cookie. -/
theorem go_visitor (entries : HeaderList) :
    goVisitor entries =
      ((nonblank ((headerValues visitorHeaderName entries).head?.getD [])).or
        ((firstAccepted (headerValues cookieHeaderName entries)).bind nonblank)).map
          (List.map FieldChar.char) := by
  have hvalues := go_values (fieldText "X-Cekat-Visitor-ID") entries
  rw [show (fieldText "X-Cekat-Visitor-ID").map FieldChar.char = Go.VisitorHeader by decide,
    show lowerCase (fieldText "X-Cekat-Visitor-ID") = visitorHeaderName by decide] at hvalues
  have hget : (goHeader entries).get Go.VisitorHeader =
      ((headerValues visitorHeaderName entries).head?.getD []).map FieldChar.char := by
    unfold Go.Header.get
    rw [hvalues]
    cases headerValues visitorHeaderName entries with
    | nil => rfl
    | cons value values => rfl
  have hcookie : ((goHeader entries).cookie Go.VisitorCookie).getD [] =
      ((firstAccepted (headerValues cookieHeaderName entries)).getD []).map FieldChar.char := by
    rw [go_cookie]
    cases firstAccepted (headerValues cookieHeaderName entries) with
    | none => rfl
    | some value => rfl
  have hbind : nonblank ((firstAccepted (headerValues cookieHeaderName entries)).getD []) =
      (firstAccepted (headerValues cookieHeaderName entries)).bind nonblank := by
    cases firstAccepted (headerValues cookieHeaderName entries) with
    | none => rfl
    | some value => rfl
  unfold goVisitor Go.WithVisitorFromRequest
  dsimp only
  rw [hget, hcookie, go_resolve, hbind]
  cases hheader : nonblank ((headerValues visitorHeaderName entries).head?.getD []) with
  | some v => exact go_withVisitorID (nonblank_eq_some hheader)
  | none =>
      cases hfirst : (firstAccepted (headerValues cookieHeaderName entries)).bind nonblank with
      | none => rfl
      | some v =>
          obtain ⟨value, -, hvalue⟩ := Option.bind_eq_some_iff.mp hfirst
          exact go_withVisitorID (nonblank_eq_some hvalue)

end CekatEvents.Clients
