/-
  CekatEvents.Clients.SingleReading — the requests of which every SDK reads the same visitor.

  Go stops at the first header, and at the first visitor cookie that `net/http` accepts; a `Headers`
  object joins the values of a name.  The kinds of headers and cookies for which this makes a difference
  are named here: visitor headers that repeat, visitor cookies that are blank, quoted or refused, and
  names that stand where two cookie headers meet.

  Main results:

    • `readByGo_iff`               — which cookies Go reads as they are;
    • `joined_of_noNameAtJoint`    — joining cookie headers matters at their ends alone;
    • `requestVisitors_agree_iff`  — the SDKs agree exactly when nothing that is dropped or joined matters;
    • `blank_then_visitor_differs` — a blank value before another one.
-/
import CekatEvents.Clients.RequestVisitors

namespace CekatEvents.Clients

open CekatEvents.Encoding CekatEvents.Http CekatEvents.Ordering

/-! ## §1. The texts of cookies. -/

/-- The text after the equals sign of a segment of the visitor cookie; nothing after a name alone. -/
def namedText (segment : FieldText) : Option FieldText :=
  let part := trim FieldChar.isBlank segment
  if trim FieldChar.isBlank (part.takeWhile (· != equalsSign)) = visitorCookie then
    some ((part.dropWhile (· != equalsSign)).drop 1)
  else none

/-- The segments of a cookie header. -/
def segments (header : FieldText) : List FieldText :=
  (trim FieldChar.isBlank header).splitOn semicolon

/-- The texts of the visitor cookies, one header after another. -/
def namedTexts (cookies : List FieldText) : List FieldText :=
  (cookies.flatMap segments).filterMap namedText

/-- The value of a segment. -/
abbrev segmentVisitor (segment : FieldText) : Option FieldText :=
  pairValue FieldChar.isBlank FieldChar.isBlank equalsSign visitorCookie segment

/-- The value of a segment is its text, where that is not blank. -/
theorem segmentVisitor_eq (segment : FieldText) :
    segmentVisitor segment = (namedText segment).bind nonblank := by
  have htrim : segmentVisitor (trim FieldChar.isBlank segment) = segmentVisitor segment :=
    pairValue_trim (by decide) segment
  rw [← htrim]
  unfold segmentVisitor pairValue namedText
  dsimp only
  by_cases hmem : equalsSign ∈ trim FieldChar.isBlank segment
  · simp only [hmem, true_and]
    split_ifs <;> rfl
  · -- a name alone has no value
    have hall : ∀ c ∈ trim FieldChar.isBlank segment, (c != equalsSign) = true := by
      intro c hc
      rw [bne_iff_ne]
      intro heq
      exact hmem (heq ▸ hc)
    have hnil : (trim FieldChar.isBlank segment).dropWhile (· != equalsSign) = [] :=
      List.dropWhile_eq_nil_iff.mpr hall
    rw [if_neg fun h => hmem h.1, hnil]
    split_ifs <;> rfl

theorem acceptedCookie_eq (segment : FieldText) :
    acceptedCookie segment = (namedText segment).bind acceptedValue := by
  unfold acceptedCookie namedText
  dsimp only
  split_ifs <;> rfl

theorem cookieVisitor_eq (header : FieldText) :
    cookieVisitor header = (segments header).findSome? segmentVisitor :=
  (firstValue_trim (by decide) (by decide) header).symm

/-- A search through what is read of segments is one through their texts. -/
theorem findSome?_namedTexts {look : FieldText → Option FieldText} {read : FieldText → Option FieldText}
    (hread : ∀ segment, read segment = (namedText segment).bind look) (segments : List FieldText) :
    segments.findSome? read = (segments.filterMap namedText).findSome? look := by
  induction segments with
  | nil => rfl
  | cons segment segments ih =>
      rw [List.findSome?_cons, hread, ih]
      cases hnamed : namedText segment with
      | none => rw [List.filterMap_cons_none hnamed, Option.bind_none]
      | some text => rw [List.filterMap_cons_some hnamed, List.findSome?_cons, Option.bind_some]

/-- **The visitor of the cookies** is the first text that is not blank. -/
theorem cookiesVisitor_eq (cookies : List FieldText) :
    cookiesVisitor cookies = (namedTexts cookies).findSome? nonblank := by
  unfold cookiesVisitor namedTexts
  rw [← findSome?_namedTexts segmentVisitor_eq, funext cookieVisitor_eq]
  induction cookies with
  | nil => rfl
  | cons header cookies ih =>
      rw [List.findSome?_cons, List.flatMap_cons, List.findSome?_append, ih]
      cases (segments header).findSome? segmentVisitor with
      | none => rfl
      | some v => rfl

theorem firstAccepted_eq (cookies : List FieldText) :
    firstAccepted cookies = (namedTexts cookies).findSome? acceptedValue :=
  findSome?_namedTexts acceptedCookie_eq _

/-! ## §2. The cookies that Go reads. -/

/-- `net/http` accepts every character of the text: no quotation mark, semicolon, backslash or tab. -/
def Bare (text : FieldText) : Prop :=
  ∀ c ∈ text, 0x20 ≤ c.code ∧ c ≠ quotationMark ∧ c ≠ semicolon ∧ c ≠ backslash

/-- The text stands in quotation marks, which `net/http` takes off. -/
def Quoted (text inner : FieldText) : Prop :=
  text = quotationMark :: (inner ++ [quotationMark]) ∧ Bare inner

/-- `net/http` does not accept the text. -/
def Refused (text : FieldText) : Prop := ¬ Bare text ∧ ∀ inner, ¬ Quoted text inner

/-- The first of the texts that is not refused says the visitor. -/
inductive Repeats (visitor : Option FieldText) : List FieldText → Prop where
  | bare {text : FieldText} {later : List FieldText} :
      Bare text → nonblank text = visitor → Repeats visitor (text :: later)
  | quoted {text inner : FieldText} {later : List FieldText} :
      Quoted text inner → nonblank inner = visitor → Repeats visitor (text :: later)
  | refused {text : FieldText} {later : List FieldText} :
      Refused text → Repeats visitor later → Repeats visitor (text :: later)

/-- **Go reads these texts of visitor cookies as they are.** -/
inductive ReadByGo : List FieldText → Prop where
  | nothing : ReadByGo []
  /-- A blank text is the first one that is found. -/
  | blank {text : FieldText} {later : List FieldText} :
      nonblank text = none → Bare text → (∀ t ∈ later, nonblank t = none) → ReadByGo (text :: later)
  /-- A blank text with a tab is refused, so the next one decides. -/
  | tabbed {text : FieldText} {later : List FieldText} :
      nonblank text = none → ¬ Bare text → ReadByGo later → ReadByGo (text :: later)
  | bare {text : FieldText} {later : List FieldText} :
      nonblank text ≠ none → Bare text → ReadByGo (text :: later)
  /-- A text that is refused is said again by the next one that is not.  One that is quoted is found
      without its quotation marks. -/
  | refused {text : FieldText} {later : List FieldText} :
      nonblank text ≠ none → Refused text → Repeats (nonblank text) later → ReadByGo (text :: later)

theorem all_accepted_iff {text : FieldText} :
    (text.all fun c => decide (0x20 ≤ c.code) && c != quotationMark && c != semicolon && c != backslash)
      = true ↔ Bare text := by
  unfold Bare
  simp only [List.all_eq_true, Bool.and_eq_true, decide_eq_true_eq, bne_iff_ne, and_assoc]

/-- A text in quotation marks is not accepted as it stands. -/
theorem not_bare_of_quoted {text inner : FieldText}
    (h : text = quotationMark :: (inner ++ [quotationMark])) : ¬ Bare text := by
  intro hbare
  rw [h] at hbare
  exact (hbare quotationMark List.mem_cons_self).2.1 rfl

/-- **What `net/http` accepts** is bare, or bare between quotation marks. -/
theorem acceptedValue_eq_some_iff {text value : FieldText} :
    acceptedValue text = some value ↔ (Bare text ∧ value = text) ∨ Quoted text value := by
  unfold acceptedValue
  dsimp only
  by_cases hquoted : 1 < text.length ∧ text.head? = some quotationMark ∧
      text.getLast? = some quotationMark
  · rw [if_pos hquoted]
    obtain ⟨hlength, hhead, hlast⟩ := hquoted
    obtain ⟨inner, rfl⟩ : ∃ inner, text = quotationMark :: (inner ++ [quotationMark]) := by
      obtain ⟨rest, rfl⟩ := List.head?_eq_some_iff.mp hhead
      obtain ⟨front, hfront⟩ := List.getLast?_eq_some_iff.mp hlast
      cases front with
      | nil =>
          rw [hfront] at hlength
          exact absurd hlength (Nat.lt_irrefl 1)
      | cons c front =>
          obtain ⟨-, rfl⟩ := List.cons_eq_cons.mp hfront
          exact ⟨front, rfl⟩
    rw [or_iff_right fun h => not_bare_of_quoted rfl h.1, List.tail_cons, List.dropLast_concat,
      Option.ite_none_right_eq_some, all_accepted_iff, Option.some.injEq]
    constructor
    · intro h
      obtain ⟨hbare, rfl⟩ := h
      exact ⟨rfl, hbare⟩
    · intro h
      obtain ⟨hsame, hbare⟩ := h
      obtain ⟨-, hsame⟩ := List.cons_eq_cons.mp hsame
      obtain rfl : inner = value := List.append_cancel_right hsame
      exact ⟨hbare, rfl⟩
  · rw [if_neg hquoted, or_iff_left, Option.ite_none_right_eq_some, all_accepted_iff, Option.some.injEq,
      eq_comm]
    intro h
    obtain ⟨rfl, -⟩ := h
    apply hquoted
    refine ⟨?_, rfl, ?_⟩
    · rw [List.length_cons, List.length_append, List.length_singleton]
      omega
    · rw [← List.cons_append, List.getLast?_concat]

theorem acceptedValue_eq_none_iff {text : FieldText} : acceptedValue text = none ↔ Refused text := by
  rw [Option.eq_none_iff_forall_ne_some]
  constructor
  · intro h
    exact ⟨fun hbare => h text (acceptedValue_eq_some_iff.mpr (.inl ⟨hbare, rfl⟩)),
      fun inner hquoted => h inner (acceptedValue_eq_some_iff.mpr (.inr hquoted))⟩
  · intro h value hvalue
    -- whatever is accepted is of one of the two kinds
    rcases acceptedValue_eq_some_iff.mp hvalue with ⟨hbare, -⟩ | hquoted
    · exact h.1 hbare
    · exact h.2 value hquoted

/-- Trimming takes away no character that is not blank. -/
theorem count_trim {c : FieldChar} (hc : c.isBlank = false) (text : FieldText) :
    (trim FieldChar.isBlank text).count c = text.count c := by
  obtain ⟨a, b, htext, ha, hb⟩ := trim_spec FieldChar.isBlank text
  have hnone : ∀ s : FieldText, isBlank FieldChar.isBlank s = true → s.count c = 0 := by
    intro s hs
    rw [List.count_eq_zero]
    intro hmem
    rw [List.all_eq_true.mp hs c hmem] at hc
    cases hc
  conv_rhs => rw [htext, List.count_append, List.count_append, hnone a ha, hnone b hb]
  omega

/-- A text in quotation marks says something else than what is between them. -/
theorem nonblank_quoted_ne {text inner : FieldText} (h : Quoted text inner) :
    nonblank text ≠ none ∧ nonblank inner ≠ nonblank text := by
  obtain ⟨rfl, hbare⟩ := h
  have hmark : quotationMark.isBlank = false := by decide
  have hinner : inner.count quotationMark = 0 :=
    List.count_eq_zero.mpr fun hmem => (hbare quotationMark hmem).2.1 rfl
  have hcount : (trim FieldChar.isBlank (quotationMark :: (inner ++ [quotationMark]))).count
      quotationMark = 2 := by
    rw [count_trim hmark, List.count_cons_self, List.count_append, hinner, List.count_singleton_self]
  have hsome : nonblank (quotationMark :: (inner ++ [quotationMark]))
      = some (trim FieldChar.isBlank (quotationMark :: (inner ++ [quotationMark]))) := by
    refine trimToNone_eq_some_iff.mpr ⟨?_, _, rfl, rfl⟩
    intro hnil
    rw [hnil] at hcount
    cases hcount
  rw [hsome]
  refine ⟨Option.some_ne_none _, ?_⟩
  intro hsame
  obtain ⟨-, raw, hraw, htrim⟩ := trimToNone_eq_some_iff.mp hsame
  cases hraw
  rw [← htrim, count_trim hmark, hinner] at hcount
  cases hcount

theorem repeats_iff {visitor : FieldText} {texts : List FieldText} :
    (texts.findSome? acceptedValue).bind nonblank = some visitor ↔ Repeats (some visitor) texts := by
  induction texts with
  | nil => exact iff_of_false (fun h => nomatch h) fun h => nomatch h
  | cons text later ih =>
      rw [List.findSome?_cons]
      cases haccepted : acceptedValue text with
      | none =>
          have hrefused := acceptedValue_eq_none_iff.mp haccepted
          rw [ih]
          constructor
          · exact .refused hrefused
          · intro h
            cases h with
            | bare hbare => exact absurd hbare hrefused.1
            | quoted hquoted => exact absurd hquoted (hrefused.2 _)
            | refused _ hlater => exact hlater
      | some value =>
          rw [Option.bind_some]
          have hkind := acceptedValue_eq_some_iff.mp haccepted
          constructor
          · intro hvalue
            rcases hkind with ⟨hbare, rfl⟩ | hquoted
            · exact .bare hbare hvalue
            · exact .quoted hquoted hvalue
          · intro h
            cases h with
            | bare hbare hvalue =>
                rcases hkind with ⟨-, rfl⟩ | hquoted
                · exact hvalue
                · exact absurd hbare (not_bare_of_quoted hquoted.1)
            | quoted hquoted hvalue =>
                have hsame := acceptedValue_eq_some_iff.mpr (.inr hquoted)
                rw [haccepted, Option.some.injEq] at hsame
                rw [hsame, hvalue]
            | refused hrefused _ =>
                rw [acceptedValue_eq_none_iff.mpr hrefused] at haccepted
                cases haccepted

/-- **Go finds the first text that is not blank** exactly where it reads the texts as they are. -/
theorem readByGo_iff {texts : List FieldText} :
    (texts.findSome? acceptedValue).bind nonblank = texts.findSome? nonblank ↔ ReadByGo texts := by
  induction texts with
  | nil => exact iff_of_true rfl .nothing
  | cons text later ih =>
      rw [List.findSome?_cons, List.findSome?_cons]
      cases hvisitor : nonblank text with
      | none =>
          cases haccepted : acceptedValue text with
          | none =>
              have hrefused := acceptedValue_eq_none_iff.mp haccepted
              rw [ih]
              constructor
              · exact .tabbed hvisitor hrefused.1
              · intro h
                cases h with
                | blank _ hbare _ => exact absurd hbare hrefused.1
                | tabbed _ _ hlater => exact hlater
                | bare hsome _ => exact absurd hvisitor hsome
                | refused hsome _ _ => exact absurd hvisitor hsome
          | some value =>
              -- it is bare, for what is quoted is not blank
              obtain ⟨hbare, rfl⟩ : Bare text ∧ value = text := by
                rcases acceptedValue_eq_some_iff.mp haccepted with hbare | hquoted
                · exact hbare
                · exact absurd hvisitor (nonblank_quoted_ne hquoted).1
              rw [Option.bind_some, hvisitor, eq_comm, List.findSome?_eq_none_iff]
              constructor
              · exact .blank hvisitor hbare
              · intro h
                cases h with
                | blank _ _ hlater => exact hlater
                | tabbed _ hnot _ => exact absurd hbare hnot
                | bare hsome _ => exact absurd hvisitor hsome
                | refused hsome _ _ => exact absurd hvisitor hsome
      | some visitor =>
          have hsome : nonblank text ≠ none := by
            rw [hvisitor]
            exact Option.some_ne_none visitor
          cases haccepted : acceptedValue text with
          | none =>
              have hrefused := acceptedValue_eq_none_iff.mp haccepted
              rw [repeats_iff, ← hvisitor]
              constructor
              · exact .refused hsome hrefused
              · intro h
                cases h with
                | blank hnone _ _ => exact absurd hnone hsome
                | tabbed hnone _ _ => exact absurd hnone hsome
                | bare _ hbare => exact absurd hbare hrefused.1
                | refused _ _ hlater => exact hlater
          | some value =>
              show nonblank value = some visitor ↔ _
              rw [← hvisitor]
              rcases acceptedValue_eq_some_iff.mp haccepted with ⟨hbare, rfl⟩ | hquoted
              · exact iff_of_true rfl (.bare hsome hbare)
              · -- the quotation marks are lost
                apply iff_of_false (nonblank_quoted_ne hquoted).2
                intro h
                cases h with
                | blank hnone _ _ => exact absurd hnone hsome
                | tabbed hnone _ _ => exact absurd hnone hsome
                | bare _ hbare => exact not_bare_of_quoted hquoted.1 hbare
                | refused _ hrefused _ => exact hrefused.2 value hquoted

/-! ## §3. Joints. -/

def comma : FieldChar := ⟨0x2C, by decide⟩

theorem joined_cons_cons (x y : FieldText) (rest : List FieldText) :
    joined (x :: y :: rest) = trim FieldChar.isBlank x ++ (fieldText ", " ++ joined (y :: rest)) := by
  unfold joined
  rw [List.map_cons, List.map_cons, List.intercalate_cons_cons, List.append_assoc]

/-- **No visitor cookie stands where two cookie headers meet**, at the end of one or at the beginning of
    the next. -/
def NoNameAtJoint : List FieldText → Prop
  | header :: next :: rest => (∀ segment ∈ (segments header).getLast?, namedText segment = none) ∧
      (∀ segment ∈ (segments next).head?, namedText segment = none) ∧ NoNameAtJoint (next :: rest)
  | _ => True

/-- Nothing is read of what ends in the segment, nor of it and what is joined to it. -/
def Unnamed (segment : FieldText) : Prop :=
  segmentVisitor segment = none ∧ ∀ text, segmentVisitor (segment ++ (fieldText ", " ++ text)) = none

/-- Nothing is read of another cookie, and joining makes it no visitor cookie. -/
theorem unnamed_of_namedText {segment : FieldText} (h : namedText segment = none) : Unnamed segment := by
  refine ⟨by rw [segmentVisitor_eq, h]; rfl, ?_⟩
  intro text
  rw [Option.eq_none_iff_forall_ne_some]
  intro v hv
  obtain ⟨before, after, hwhole, hbefore, hname, -, -⟩ := pairValue_eq_some_iff.mp hv
  by_cases hmem : equalsSign ∈ segment
  · -- the name is that of the segment
    obtain ⟨front, back, rfl, hfront⟩ := List.eq_append_cons_of_mem hmem
    have htake := (takeWhile_dropWhile_ne after hbefore).1
    rw [← hwhole, List.append_assoc, List.cons_append, (takeWhile_dropWhile_ne _ hfront).1] at htake
    obtain rfl := htake
    have hname' : trim FieldChar.isBlank ((trim FieldChar.isBlank (front ++ equalsSign :: back)).takeWhile
        (· != equalsSign)) = visitorCookie := by
      rw [trim_takeWhile_trim (by decide) hmem, (takeWhile_dropWhile_ne back hfront).1]
      exact hname
    unfold namedText at h
    dsimp only at h
    rw [if_pos hname'] at h
    cases h
  · -- the name has the comma in it
    have hno : ∀ c ∈ segment ++ fieldText ", ", (c != equalsSign) = true := by
      intro c hc
      rw [bne_iff_ne]
      intro heq
      subst heq
      rcases List.mem_append.mp hc with hc | hc
      · exact hmem hc
      · exact absurd hc (by decide)
    have htake := (takeWhile_dropWhile_ne after hbefore).1
    rw [← hwhole, ← List.append_assoc, List.takeWhile_append_of_pos hno] at htake
    have hcount : before.count comma = 0 := by
      rw [← count_trim (by decide) before, hname]
      decide
    have hcomma : comma ∈ before := by
      rw [← htake]
      exact List.mem_append_left _ (List.mem_append_right _ (by decide))
    exact List.count_eq_zero.mp hcount hcomma

theorem unnamed_append {segment : FieldText} (h : Unnamed segment) (text : FieldText) :
    Unnamed (segment ++ (fieldText ", " ++ text)) := by
  refine ⟨h.2 text, fun more => ?_⟩
  rw [List.append_assoc, List.append_assoc]
  exact h.2 (text ++ (fieldText ", " ++ more))

/-- One header more is joined. -/
theorem cookieVisitor_joint {text next last : FieldText} {init : List FieldText}
    (hsplit : text.splitOn semicolon = init ++ [last]) (hlast : Unnamed last)
    (hfirst : ∀ segment ∈ (segments next).head?, namedText segment = none) :
    cookieVisitor (text ++ (fieldText ", " ++ trim FieldChar.isBlank next))
        = (cookieVisitor text).or (cookieVisitor next) ∧
      ((∀ segment ∈ (segments next).getLast?, namedText segment = none) →
        ∃ init' last', (text ++ (fieldText ", " ++ trim FieldChar.isBlank next)).splitOn semicolon
          = init' ++ [last'] ∧ Unnamed last') := by
  obtain ⟨earlier, mark, first, pieces, hmark, hnext, hback⟩ :=
    splitOn_append semicolon (fieldText ", ") (trim FieldChar.isBlank next)
  -- what is put between two headers has no semicolon
  obtain ⟨rfl, rfl⟩ : earlier = [] ∧ fieldText ", " = mark := by
    rw [show (fieldText ", ").splitOn semicolon = [fieldText ", "] by decide] at hmark
    cases earlier with
    | nil => exact ⟨rfl, List.singleton_inj.mp hmark⟩
    | cons piece earlier => simp at hmark
  obtain ⟨init', last', joint, rest, hfront, hjoint, hall⟩ :=
    splitOn_append semicolon text (fieldText ", " ++ trim FieldChar.isBlank next)
  rw [hsplit] at hfront
  obtain ⟨rfl, hsingle⟩ := List.append_inj' hfront rfl
  obtain rfl := List.singleton_inj.mp hsingle
  rw [hback, List.nil_append] at hjoint
  obtain ⟨rfl, rfl⟩ := List.cons_eq_cons.mp hjoint
  have hsegments : segments next = first :: pieces := hnext
  have hfirst : namedText first = none := hfirst first (by rw [hsegments]; rfl)
  refine ⟨?_, ?_⟩
  · have htext : cookieVisitor text = init.findSome? segmentVisitor := by
      show (text.splitOn semicolon).findSome? segmentVisitor = _
      rw [hsplit, List.findSome?_append, List.findSome?_singleton, hlast.1, Option.or_none]
    have hnext : cookieVisitor next = pieces.findSome? segmentVisitor := by
      rw [cookieVisitor_eq, hsegments, List.findSome?_cons, (unnamed_of_namedText hfirst).1]
    rw [htext, hnext]
    show ((text ++ _).splitOn semicolon).findSome? segmentVisitor = _
    rw [hall, List.findSome?_append, List.findSome?_cons, hlast.2]
  · intro hend
    cases hpieces : pieces.getLast? with
    | none =>
        -- the next header is one segment, which stands at the next joint as well
        obtain rfl := List.getLast?_eq_none_iff.mp hpieces
        exact ⟨init, _, hall, unnamed_append hlast first⟩
    | some final =>
        obtain ⟨front, rfl⟩ := List.getLast?_eq_some_iff.mp hpieces
        refine ⟨init ++ (last ++ (fieldText ", " ++ first)) :: front, final, ?_, ?_⟩
        · rw [hall, List.append_assoc, List.cons_append]
        · apply unnamed_of_namedText
          apply hend final
          rw [hsegments, ← List.cons_append, List.getLast?_concat]
          rfl

theorem cookiesVisitor_cons (header : FieldText) (rest : List FieldText) :
    cookiesVisitor (header :: rest) = (cookieVisitor header).or (cookiesVisitor rest) := by
  unfold cookiesVisitor
  rw [List.findSome?_cons]
  cases cookieVisitor header with
  | none => rfl
  | some v => rfl

/-- All headers that follow are joined. -/
theorem cookieVisitor_joints {rest : List FieldText} {text next last : FieldText}
    {init : List FieldText} (hsplit : text.splitOn semicolon = init ++ [last]) (hlast : Unnamed last)
    (hfirst : ∀ segment ∈ (segments next).head?, namedText segment = none)
    (hrest : NoNameAtJoint (next :: rest)) :
    cookieVisitor (text ++ (fieldText ", " ++ joined (next :: rest)))
      = (cookieVisitor text).or (cookiesVisitor (next :: rest)) := by
  induction rest generalizing text next last init with
  | nil =>
      have hsingle : joined [next] = trim FieldChar.isBlank next := List.intercalate_singleton
      rw [hsingle, (cookieVisitor_joint hsplit hlast hfirst).1, cookiesVisitor_cons]
      exact congrArg _ (Option.or_none).symm
  | cons following rest ih =>
      -- the next header is joined to the text, and the text that this makes to the headers that follow
      obtain ⟨hend, hbegin, hrest⟩ := hrest
      obtain ⟨hvisitor, hsplits⟩ := cookieVisitor_joint hsplit hlast hfirst
      obtain ⟨init', last', hsplit', hlast'⟩ := hsplits hend
      rw [joined_cons_cons, ← List.append_assoc (fieldText ", "), ← List.append_assoc text,
        ih hsplit' hlast' hbegin hrest, hvisitor, cookiesVisitor_cons next, Option.or_assoc]

/-- **Joining cookie headers makes no difference** where no visitor cookie stands at a joint. -/
theorem joined_of_noNameAtJoint {cookies : List FieldText} (h : NoNameAtJoint cookies) :
    cookieVisitor (joined cookies) = cookiesVisitor cookies := by
  cases cookies with
  | nil => decide
  | cons header rest =>
      have htrim : cookieVisitor (trim FieldChar.isBlank header) = cookieVisitor header :=
        firstValue_trim (by decide) (by decide) header
      cases rest with
      | nil =>
          have hsingle : joined [header] = trim FieldChar.isBlank header := List.intercalate_singleton
          rw [hsingle, htrim, cookiesVisitor_cons]
          exact (Option.or_none).symm
      | cons next rest =>
          obtain ⟨hend, hbegin, hrest⟩ := h
          obtain ⟨init, last, hsplit⟩ : ∃ init last, segments header = init ++ [last] := by
            have hne : segments header ≠ [] := List.splitOn_ne_nil _ _
            exact ⟨_, _, (List.dropLast_concat_getLast hne).symm⟩
          have hlast : namedText last = none := by
            apply hend last
            rw [hsplit, List.getLast?_concat]
            rfl
          rw [joined_cons_cons, cookieVisitor_joints hsplit (unnamed_of_namedText hlast) hbegin hrest,
            htrim, cookiesVisitor_cons header]

/-! ## §4. Commas. -/

/-- What is joined has the commas of every value. -/
theorem count_comma_le_joined {values : List FieldText} {value : FieldText} (h : value ∈ values) :
    value.count comma ≤ (joined values).count comma := by
  induction values with
  | nil => cases h
  | cons x values ih =>
      cases values with
      | nil =>
          rw [List.mem_singleton] at h
          subst h
          unfold joined
          rw [List.map_singleton, List.intercalate_singleton, count_trim (by decide)]
      | cons y rest =>
          rw [joined_cons_cons, List.count_append, List.count_append, count_trim (by decide)]
          rcases List.mem_cons.mp h with rfl | hrest
          · omega
          · have hle := ih hrest
            omega

/-- **Joining two values or more adds a comma.** -/
theorem count_comma_lt_joined {x y : FieldText} {rest : List FieldText} {value : FieldText}
    (h : value ∈ x :: y :: rest) : value.count comma < (joined (x :: y :: rest)).count comma := by
  have hcomma : (fieldText ", ").count comma = 1 := by decide
  rw [joined_cons_cons, List.count_append, List.count_append, count_trim (by decide), hcomma]
  rcases List.mem_cons.mp h with rfl | hrest
  · omega
  · have hle := count_comma_le_joined hrest
    omega

/-- What two values or more are joined to is not blank. -/
theorem nonblank_joined (x y : FieldText) (rest : List FieldText) :
    nonblank (joined (x :: y :: rest)) = some (trim FieldChar.isBlank (joined (x :: y :: rest))) := by
  have hfirst : x ∈ x :: y :: rest := List.mem_cons_self
  have hcount := count_comma_lt_joined hfirst
  refine trimToNone_eq_some_iff.mpr ⟨?_, _, rfl, rfl⟩
  intro hnil
  rw [← count_trim (by decide) (joined _), hnil] at hcount
  exact absurd hcount (Nat.not_lt_zero _)

/-! ## §5. When they agree. -/

/-- **Nothing that is dropped or joined matters.**  There is one header, and it is not blank; or no header
    says a visitor, Go reads the visitor cookies as they are, and no name stands where cookie headers meet,
    or what is read there makes no difference.  If there are several blank headers, joining them leaves
    commas, and that is what the cookies would have to say. -/
def SingleReading (entries : HeaderList) : Prop :=
  let values := headerValues visitorHeaderName entries
  let cookies := headerValues cookieHeaderName entries
  (∃ value, values = [value] ∧ nonblank value ≠ none) ∨
    ((∀ value ∈ values, nonblank value = none) ∧ ReadByGo (namedTexts cookies) ∧
      if values.length ≤ 1 then
        NoNameAtJoint cookies ∨ cookieVisitor (joined cookies) = cookiesVisitor cookies
      else nonblank (joined values) = cookiesVisitor cookies)

/-- The searches of Go and of the `Headers` object find what the request says. -/
abbrev BothFind (values cookies : List FieldText) : Prop :=
  (nonblank (values.head?.getD [])).or ((firstAccepted cookies).bind nonblank) =
      (values.findSome? nonblank).or (cookiesVisitor cookies) ∧
    (nonblank (joined values)).or (cookieVisitor (joined cookies)) =
      (values.findSome? nonblank).or (cookiesVisitor cookies)

/-- Without a header that says a visitor the cookies decide. -/
theorem bothFind_of_blank {values : List FieldText} (cookies : List FieldText)
    (hblank : ∀ value ∈ values, nonblank value = none) :
    BothFind values cookies ↔ (firstAccepted cookies).bind nonblank = cookiesVisitor cookies ∧
      (nonblank (joined values)).or (cookieVisitor (joined cookies)) = cookiesVisitor cookies := by
  have hfirst : nonblank (values.head?.getD []) = none := by
    cases values with
    | nil => rfl
    | cons value rest => exact hblank value List.mem_cons_self
  unfold BothFind
  rw [hfirst, List.findSome?_eq_none_iff.mpr hblank, Option.none_or, Option.none_or]

/-- One value says of itself what it says when it is joined. -/
theorem nonblank_joined_singleton (value : FieldText) : nonblank (joined [value]) = nonblank value := by
  unfold joined nonblank
  rw [List.map_singleton, List.intercalate_singleton, trimToNone_eq_ite, trimToNone_eq_ite, trim_trim]

/-- **Several headers of which one says a visitor** are not found in what is joined. -/
theorem not_bothFind {x y : FieldText} {rest : List FieldText} (cookies : List FieldText)
    (hfound : (x :: y :: rest).findSome? nonblank ≠ none) : ¬ BothFind (x :: y :: rest) cookies := by
  intro h
  obtain ⟨found, hsome⟩ := Option.ne_none_iff_exists'.mp hfound
  obtain ⟨value, hmem, hvalue⟩ := List.exists_of_findSome?_eq_some hsome
  have hjoined := h.2
  rw [hsome, nonblank_joined, Option.some_or, Option.some_or, Option.some.injEq] at hjoined
  obtain ⟨-, raw, hraw, htrim⟩ := trimToNone_eq_some_iff.mp hvalue
  cases hraw
  -- joining added a comma to those of the value
  have hcount := count_comma_lt_joined hmem
  rw [← count_trim (by decide) (joined _), hjoined, ← htrim, count_trim (by decide)] at hcount
  exact absurd hcount (Nat.lt_irrefl _)

theorem bothFind_iff (entries : HeaderList) :
    BothFind (headerValues visitorHeaderName entries) (headerValues cookieHeaderName entries) ↔
      SingleReading entries := by
  unfold SingleReading
  dsimp only
  generalize headerValues visitorHeaderName entries = values
  generalize headerValues cookieHeaderName entries = cookies
  by_cases hblank : ∀ value ∈ values, nonblank value = none
  · have hno : ¬ ∃ value, values = [value] ∧ nonblank value ≠ none := by
      intro h
      obtain ⟨value, rfl, hvalue⟩ := h
      exact hvalue (hblank value List.mem_cons_self)
    have hjoint : NoNameAtJoint cookies ∨ cookieVisitor (joined cookies) = cookiesVisitor cookies ↔
        cookieVisitor (joined cookies) = cookiesVisitor cookies :=
      or_iff_right_of_imp joined_of_noNameAtJoint
    rw [bothFind_of_blank cookies hblank, or_iff_right hno, and_iff_right hblank, ← readByGo_iff,
      ← firstAccepted_eq, ← cookiesVisitor_eq, hjoint]
    cases values with
    | nil => exact Iff.rfl
    | cons x rest =>
        cases rest with
        | nil =>
            rw [nonblank_joined_singleton, hblank x List.mem_cons_self, Option.none_or]
            exact Iff.rfl
        | cons y rest =>
            rw [nonblank_joined, Option.some_or, if_neg (by simp)]
  · have hfound : values.findSome? nonblank ≠ none := fun h =>
      hblank (List.findSome?_eq_none_iff.mp h)
    rw [or_iff_left (fun h => hblank h.1)]
    cases values with
    | nil => exact absurd rfl hfound
    | cons x rest =>
        cases rest with
        | cons y rest =>
            refine iff_of_false (not_bothFind cookies hfound) ?_
            intro h
            obtain ⟨value, hsingle, -⟩ := h
            cases hsingle
        | nil =>
            have hx : nonblank x ≠ none := by
              intro hnone
              exact hblank (List.forall_mem_singleton.mpr hnone)
            obtain ⟨found, hsome⟩ := Option.ne_none_iff_exists'.mp hx
            refine iff_of_true ?_ ⟨x, rfl, hx⟩
            unfold BothFind
            rw [nonblank_joined_singleton, List.findSome?_singleton, hsome]
            exact ⟨by rw [List.head?_cons, Option.getD_some, hsome]; rfl, rfl⟩

/-- **The SDKs find the same visitor exactly when nothing that is dropped or joined matters.** -/
theorem requestVisitors_agree_iff (entries : HeaderList) :
    (pythonVisitor entries = (requestVisitor entries).map (List.map codePoint) ∧
      goVisitor entries = (requestVisitor entries).map (List.map FieldChar.char) ∧
      recordVisitor entries = (requestVisitor entries).map (List.map FieldChar.unit) ∧
      headersVisitor entries = (requestVisitor entries).map (List.map FieldChar.unit)) ↔
    SingleReading entries := by
  have hinjective : ∀ {β : Type} {f : FieldChar → β}, Function.Injective f → ∀ {o o' : Option FieldText},
      o.map (List.map f) = o'.map (List.map f) ↔ o = o' := fun hf =>
    (Option.map_injective (List.map_injective_iff.mpr hf)).eq_iff
  rw [← bothFind_iff, and_iff_right (python_requestVisitor entries), go_visitor,
    and_iff_right (record_requestVisitor entries), headers_visitor,
    hinjective FieldChar.char_injective, hinjective FieldChar.unit_injective]
  exact Iff.rfl

/-- A blank header before another one. -/
def blankThenVisitor : HeaderList :=
  [(fieldText "X-Cekat-Visitor-ID", fieldText " "), (fieldText "x-cekat-visitor-id", fieldText "v")]

/-- **A visitor behind a blank header** is found by Python, and by Node on a record; Go finds nothing, and a
    `Headers` object leads Node to a comma. -/
theorem blank_then_visitor_differs :
    pythonVisitor blankThenVisitor = some ((fieldText "v").map codePoint) ∧
      recordVisitor blankThenVisitor = some (units "v") ∧ goVisitor blankThenVisitor = none ∧
      headersVisitor blankThenVisitor = some (units ", v") := by
  rw [python_requestVisitor, record_requestVisitor, go_visitor, headers_visitor]
  decide

end CekatEvents.Clients
