/-
  CekatEvents.Clients.Cookies — what the SDKs read of the same cookie header.

  Python, Node (on the server and in the browser), PHP and Java each take a raw header apart with the
  strings and the white space of their language.  Each of them is `firstValue` in its own representation.

  Main result: `cookieHeaders_agree`.
-/
import CekatEvents.Browser.Allowlist
import CekatEvents.Http.Cookies
import CekatEvents.Http.FieldText
import CekatEvents.Java.VisitorContext
import CekatEvents.Node.VisitorContext
import CekatEvents.Php.VisitorExtractor
import CekatEvents.Python.Context

namespace CekatEvents.Clients

open CekatEvents.Encoding CekatEvents.Http

/-! ## §1. Cookies. -/

def visitorCookie : FieldText := fieldText "_cekat_visitor_id"

/-- **The visitor of a cookie header**: the first value of the cookie that is not blank. -/
def cookieVisitor (header : FieldText) : Option FieldText :=
  firstValue FieldChar.isBlank FieldChar.isBlank semicolon equalsSign visitorCookie header

/-- The value is what is trimmed after the first equals sign of the first segment of that name that is not
    blank. -/
theorem cookieVisitor_eq_some_iff {header v : FieldText} :
    cookieVisitor header = some v ↔
      ∃ earlier before after later,
        header.splitOn semicolon = earlier ++ (before ++ equalsSign :: after) :: later ∧
        equalsSign ∉ before ∧ trim FieldChar.isBlank before = visitorCookie ∧
        trim FieldChar.isBlank after = v ∧ v ≠ [] ∧
        ∀ segment ∈ earlier, pairValue FieldChar.isBlank FieldChar.isBlank equalsSign visitorCookie
          segment = none := by
  unfold cookieVisitor
  rw [firstValue_eq_some_iff]
  constructor
  · intro h
    obtain ⟨earlier, pair, later, hsplit, hpair, hearlier⟩ := h
    obtain ⟨before, after, rfl, hbefore, hname, hvalue, hne⟩ := pairValue_eq_some_iff.mp hpair
    exact ⟨earlier, before, after, later, hsplit, hbefore, hname, hvalue, hne, hearlier⟩
  · intro h
    obtain ⟨earlier, before, after, later, hsplit, hbefore, hname, hvalue, hne, hearlier⟩ := h
    exact ⟨earlier, _, later, hsplit,
      pairValue_eq_some_iff.mpr ⟨before, after, rfl, hbefore, hname, hvalue, hne⟩, hearlier⟩

/-- The code point of a character. -/
def codePoint (c : FieldChar) : Python.Validation.CodePoint := Fin.ofNat 0x110000 c.code

theorem codePoint_val (c : FieldChar) : (codePoint c).val = c.code := by
  have h := c.code_lt
  show c.code % 0x110000 = c.code
  omega

theorem codePoint_injective : Function.Injective codePoint := by
  intro c d h
  ext
  rw [← codePoint_val, h, codePoint_val]

/-! ## §2. White space. -/

section Blanks

variable (c : FieldChar)

theorem python_blank :
    (Python.Validation.char? (codePoint c)).elim false Python.isSpace = c.isBlank := by
  have hlt := c.code_lt
  have hvalid : (codePoint c).val.isValidChar := by
    rw [codePoint_val]
    exact .inl (by omega)
  unfold Python.Validation.char?
  rw [if_pos hvalid, codePoint_val]
  show Python.isSpace c.char = c.isBlank
  rw [Bool.eq_iff_iff]
  have h := c.valid
  simp only [Python.isSpace, FieldChar.char_toNat, FieldChar.isBlank, Bool.or_eq_true,
    Bool.and_eq_true, decide_eq_true_eq, beq_iff_eq]
  omega

theorem browser_blank : Browser.isTrimmed c.unit = c.isBlank := by
  have h := c.valid
  have hmark : c.unit ≠ 0xFEFF := by
    intro he
    have hcode := congrArg UInt16.toNat he
    rw [c.unit_toNat, show (0xFEFF : CodeUnit).toNat = 0xFEFF from rfl] at hcode
    omega
  rw [Bool.eq_iff_iff]
  simp only [Browser.isTrimmed, isAsciiSpace, isSeparator, isBreakingSeparator, FieldChar.unit_toNat,
    FieldChar.isBlank, Bool.or_eq_true, decide_eq_true_eq, beq_iff_eq, hmark, or_false]
  omega

theorem php_blank : Php.isTrimmed c.byte = c.isBlank := by
  have h := c.valid
  have heq : ∀ b : UInt8, (c.byte == b) = decide (c.code = b.toNat) := by
    intro b
    rw [Bool.eq_iff_iff, beq_iff_eq, decide_eq_true_eq, ← UInt8.toNat_inj, c.byte_toNat]
  rw [Bool.eq_iff_iff]
  simp only [Php.isTrimmed, heq, FieldChar.isBlank, Bool.or_eq_true, decide_eq_true_eq, beq_iff_eq,
    UInt8.reduceToNat]
  omega

/-- `trim()` of Java. -/
theorem java_trim : decide (c.unit ≤ 0x20) = c.isBlank := by
  have h := c.valid
  rw [Bool.eq_iff_iff, decide_eq_true_eq, UInt16.le_iff_toNat_le, c.unit_toNat]
  simp only [FieldChar.isBlank, Bool.or_eq_true, beq_iff_eq, UInt16.reduceToNat]
  omega

/-- `strip()` of Java. -/
theorem java_strip : Java.VisitorContext.isWhitespace c.unit = c.isBlank := by
  have h := c.valid
  rw [Bool.eq_iff_iff]
  simp only [Java.VisitorContext.isWhitespace, isAsciiSpace, isBreakingSeparator, c.unit_toNat,
    FieldChar.isBlank, Bool.or_eq_true, decide_eq_true_eq, beq_iff_eq]
  omega

end Blanks

/-! ## §3. The clients. -/

/-- A string that is trimmed by hand. -/
theorem trimToNone_eq_ite {α : Type} [DecidableEq α] (space : α → Bool) (s : List α) :
    trimToNone space (some s) = if trim space s = [] then none else some (trim space s) := by
  unfold trimToNone
  rw [Option.map_some]
  cases trim space s with
  | nil => rfl
  | cons c cs => rfl

/-- `str.strip()`. -/
def pythonSpace (c : Python.Validation.CodePoint) : Bool :=
  (Python.Validation.char? c).elim false Python.isSpace

theorem python_cookie (header : FieldText) :
    Python.Context.visitorIdFromCookieHeader (some (header.map codePoint)) =
      (cookieVisitor header).map (List.map codePoint) := by
  have hpair : Python.Context.fromPair =
      pairValue pythonSpace pythonSpace (codePoint equalsSign) (visitorCookie.map codePoint) := by
    funext pair
    have hcookie : visitorCookie.map codePoint = Python.Context.VISITOR_COOKIE := by decide
    unfold Python.Context.fromPair pairValue
    rw [hcookie, trimToNone_eq_ite]
    simp only [List.contains_iff_mem]
    rfl
  have hread : firstValue pythonSpace pythonSpace (codePoint semicolon) (codePoint equalsSign)
      (visitorCookie.map codePoint) (header.map codePoint) = _ :=
    firstValue_map codePoint_injective python_blank python_blank semicolon equalsSign visitorCookie header
  rw [cookieVisitor, ← hread]
  unfold Python.Context.visitorIdFromCookieHeader firstValue
  rw [hpair]
  simp only
  split_ifs with hempty
  · rw [hempty]
    rfl
  · rfl

/-- What both readers of the Node SDK read. -/
theorem browser_firstValue (header : FieldText) :
    firstValue Browser.isTrimmed Browser.isTrimmed semicolon.unit equalsSign.unit
      (visitorCookie.map FieldChar.unit) (header.map FieldChar.unit) =
        (cookieVisitor header).map (List.map FieldChar.unit) :=
  firstValue_map FieldChar.unit_injective browser_blank browser_blank semicolon equalsSign visitorCookie
    header

theorem node_cookie (header : FieldText) :
    Node.VisitorContext.visitorIdFromCookie (header.map FieldChar.unit) =
      (cookieVisitor header).map (List.map FieldChar.unit) := by
  have hpair : Node.VisitorContext.fromCookie = pairValue Browser.isTrimmed Browser.isTrimmed
      equalsSign.unit (visitorCookie.map FieldChar.unit) := by
    funext pair
    have hcookie : visitorCookie.map FieldChar.unit = Node.VisitorContext.VISITOR_COOKIE := by decide
    rw [← pairValue_eq_ite, trimToNone_eq_ite, hcookie]
    show (if (!pair.contains equalsSign.unit) = true then none else _) = _
    by_cases hmem : pair.contains equalsSign.unit = true
    · rw [hmem]
      rfl
    · rw [Bool.not_eq_true] at hmem
      rw [hmem]
      rfl
  rw [← browser_firstValue]
  unfold Node.VisitorContext.visitorIdFromCookie
  rw [hpair]
  rfl

theorem browser_cookie (header : FieldText) :
    Browser.readVisitorId (header.map FieldChar.unit) =
      (cookieVisitor header).map (List.map FieldChar.unit) := by
  have hcookie : visitorCookie.map FieldChar.unit = Browser.VISITOR_COOKIE := by decide
  rw [← browser_firstValue, Browser.readVisitorId_eq, hcookie]
  rfl

theorem php_cookie (header : FieldText) :
    Php.VisitorExtractor.fromCookieHeader (header.map FieldChar.byte) =
      (cookieVisitor header).map (List.map FieldChar.byte) := by
  have hpair : Php.VisitorExtractor.fromPair = pairValue Php.isTrimmed Php.isTrimmed
      equalsSign.byte (visitorCookie.map FieldChar.byte) := by
    funext pair
    have hcookie : visitorCookie.map FieldChar.byte = Php.VisitorExtractor.COOKIE := by decide
    rw [← pairValue_eq_ite, trimToNone_eq_ite, hcookie]
    rfl
  have hread : firstValue Php.isTrimmed Php.isTrimmed semicolon.byte equalsSign.byte
      (visitorCookie.map FieldChar.byte) (header.map FieldChar.byte) = _ :=
    firstValue_map FieldChar.byte_injective php_blank php_blank semicolon equalsSign visitorCookie header
  rw [cookieVisitor, ← hread]
  unfold Php.VisitorExtractor.fromCookieHeader
  rw [hpair]
  rfl

theorem java_cookie (header : FieldText) :
    Java.VisitorContext.fromCookieHeader (some (header.map FieldChar.unit)) =
      (cookieVisitor header).map (List.map FieldChar.unit) := by
  have hcookie : visitorCookie.map FieldChar.unit = Java.VisitorContext.COOKIE_NAME := by decide
  have hread : firstValue (fun u => decide (u ≤ 0x20)) Java.VisitorContext.isWhitespace semicolon.unit
      equalsSign.unit (visitorCookie.map FieldChar.unit) (header.map FieldChar.unit) = _ :=
    firstValue_map FieldChar.unit_injective java_trim java_strip semicolon equalsSign visitorCookie header
  rw [cookieVisitor, ← hread, Java.VisitorContext.fromCookieHeader_eq, hcookie]
  rfl

/-- **Every SDK reads the same visitor of a cookie header.** -/
theorem cookieHeaders_agree (header : FieldText) :
    Python.Context.visitorIdFromCookieHeader (some (header.map codePoint)) =
        (cookieVisitor header).map (List.map codePoint) ∧
      Node.VisitorContext.visitorIdFromCookie (header.map FieldChar.unit) =
        (cookieVisitor header).map (List.map FieldChar.unit) ∧
      Browser.readVisitorId (header.map FieldChar.unit) =
        (cookieVisitor header).map (List.map FieldChar.unit) ∧
      Php.VisitorExtractor.fromCookieHeader (header.map FieldChar.byte) =
        (cookieVisitor header).map (List.map FieldChar.byte) ∧
      Java.VisitorContext.fromCookieHeader (some (header.map FieldChar.unit)) =
        (cookieVisitor header).map (List.map FieldChar.unit) :=
  ⟨python_cookie header, node_cookie header, browser_cookie header, php_cookie header,
    java_cookie header⟩

end CekatEvents.Clients
