/-
  CekatEvents.Java.Reparse — the parser of the Java client on the bodies the client sends (`Json.write` and
  `Json.parse` of `internal/Json.java`).

  The writer leaves the texts of numbers to `toString`, the parser makes a `BigDecimal` of every number.
  A `BigDecimal` of zero may have any scale, and is sent as it is; of the least scale its text has an
  exponent that is no `int`, and the parser refuses it.

  Main result: `parse_encoded_iff` — with that one exception the parser reads back what was sent, number
  by number.
-/
import CekatEvents.Graph.Unfold
import CekatEvents.Java.Json
import CekatEvents.Java.Outcomes
import CekatEvents.JsonText.Reread

namespace CekatEvents.Java.PayloadEncoder

open CekatEvents.Arithmetic CekatEvents.Effects CekatEvents.Encoding CekatEvents.Graph
  CekatEvents.JsonText CekatEvents.Payload

/-! ## §1. Levels. -/

section Levels

variable {platform : Platform} {heap : Heap}

/-- A leaf is no container. -/
theorem leaf_nesting {x : Item} {w : Copy} (h : (graph platform heap).shape x = .leaf (.ok w)) :
    w.nesting = 0 := by
  have hfloating : ∀ {y : Double} {number : Finite → JavaNumber}, floatingLeaf y number = .ok w →
      w.nesting = 0 := by
    intro y number hy
    obtain ⟨z, -, rfl⟩ := floatingLeaf_ok_iff.mp hy
    rfl
  cases x with
  | null => cases h; rfl
  | boolean b => cases h; rfl
  | small n => cases h; rfl
  | other => cases h
  | string s =>
      have h := Shape.leaf.inj h
      split_ifs at h
      cases h
      rfl
  | large n =>
      have h := Shape.leaf.inj h
      split_ifs at h
      cases h
      rfl
  | double y => exact hfloating (Shape.leaf.inj h)
  | float y => exact hfloating (Shape.leaf.inj h)
  | decimal d =>
      obtain ⟨-, rfl⟩ := decimalLeaf_ok_iff.mp (Shape.leaf.inj h)
      rfl
  | ref r =>
      cases r with
      | map id => cases h
      | list id => cases h

/-- A container has one level more than what is in it. -/
theorem node_nesting {x : Item} {ident : Option Ref} {opening : Option Fault}
    {entries : List (Entry Item Step Fault)} {build : List Copy → Copy} {ws : List Copy} {k : Nat}
    (h : (graph platform heap).shape x = .node ident opening entries build) (hws : ∀ w ∈ ws, w.nesting ≤ k) :
    (build ws).nesting ≤ k + 1 := by
  cases x with
  | ref r =>
      cases r with
      | map id =>
          cases h
          apply nesting_obj_le.mpr
          exact ⟨k, rfl, fun m hm => hws _ (mem_putAll hm).2⟩
      | list id =>
          cases h
          exact nesting_arr_le.mpr ⟨k, rfl, hws⟩
  | _ => cases h

theorem sentProperties_nesting {event : Event} {o : Option Copy}
    (h : sentProperties platform heap event = .ok o) : ∀ v ∈ o, v.nesting ≤ MAX_DEPTH + 1 := by
  intro v hv
  unfold sentProperties at h
  split_ifs at h
  · cases h
    cases hv
  · obtain ⟨w, hw, rfl⟩ := map_ok_iff.mp h
    cases hv
    exact (unfolds_of_walk (normalize_ok_iff.mp hw)).height_le leaf_nesting node_nesting

end Levels

/-! ## §2. Numbers. -/

/-- The `BigDecimal` a number is read back as. -/
def JavaNumber.reread (platform : Platform) : JavaNumber → BigDecimal
  | .integer n => BigDecimal.ofInteger n
  | .double x => (bigDecimal? (platform.doubles.text x)).getD BigDecimal.ZERO
  | .decimal d => d

/-- The text of the number has an exponent that is an `int`, or the number is zero of the least scale. -/
def JavaNumber.Ordinary : JavaNumber → Prop
  | .decimal d => d.ExponentFits ∨ d = BigDecimal.leastZero
  | _ => True

/-- **Of the numbers that are sent, the parser takes all but zero of the least scale**, as what they are. -/
theorem bigDecimal?_numeral (platform : Platform) {n : JavaNumber} (h : n.Ordinary) :
    bigDecimal? (n.numeral platform) = some (n.reread platform) ∧ n ≠ .decimal BigDecimal.leastZero ∨
      bigDecimal? (n.numeral platform) = none ∧ n = .decimal BigDecimal.leastZero := by
  cases n with
  | integer k =>
      refine .inl ⟨?_, by rintro ⟨⟩⟩
      show bigDecimal? (intNumeral k) = _
      rw [← BigDecimal.numeral_integer]
      exact (BigDecimal.bigDecimal?_numeral_iff _).mpr (BigDecimal.fits_of_scale_nonneg (Int.le_refl 0))
  | double x =>
      refine .inl ⟨?_, by rintro ⟨⟩⟩
      obtain ⟨d, hd⟩ := Option.isSome_iff_exists.mp (platform.doubles_decimal x)
      show bigDecimal? (platform.doubles.text x) = some ((bigDecimal? (platform.doubles.text x)).getD _)
      rw [hd]
      rfl
  | decimal d =>
      by_cases hd : d = BigDecimal.leastZero
      · subst hd
        exact .inr ⟨BigDecimal.leastZero_not_fits, rfl⟩
      · refine .inl ⟨(BigDecimal.bigDecimal?_numeral_iff d).mpr (h.resolve_right hd), ?_⟩
        intro heq
        exact hd (JavaNumber.decimal.inj heq)

variable {platform : Platform} {heap : Heap}

/-- A decimal within the limits is an ordinary number. -/
theorem ordinary_of_safe {d : BigDecimal} (h : unsafeIntegral d.value = false) :
    (JavaNumber.decimal d).Ordinary := by
  apply BigDecimal.fits_or_leastZero
  rintro ⟨hint, hlarge⟩
  rw [← Bool.not_eq_true, unsafeIntegral_iff] at h
  exact h ⟨hint, lt_of_lt_of_le (by norm_num [maxSafeInteger]) hlarge⟩

/-- So is the one a `Float` is read into. -/
theorem ordinary_float (platform : Platform) (x : Finite) :
    (JavaNumber.decimal (floatDecimal platform x)).Ordinary := by
  obtain ⟨d, hd, hfits⟩ := platform.floats_decimal x
  left
  unfold floatDecimal
  rw [BigDecimal.ofString?_text (platform.floats.wellFormed x), hd]
  exact hfits

/-- **All numbers of the meaning are ordinary.** -/
theorem Means.ordinary {x : Item} {v : Copy} (h : Means platform heap x v) :
    v.Numbers JavaNumber.Ordinary := by
  refine @Means.rec platform heap (fun _ v _ => v.Numbers JavaNumber.Ordinary)
    (fun _ vs _ => ∀ v ∈ vs, v.Numbers JavaNumber.Ordinary) ?_ ?_ ?_ ?_ ?_ ?_ ?_ ?_ ?_ ?_ ?_ ?_ x v h
  · trivial
  · intro b
    trivial
  · intro s _
    trivial
  · intro n
    trivial
  · intro n
    trivial
  · intro y
    trivial
  · intro y
    exact ordinary_float platform y
  · intro d hd
    exact ordinary_of_safe hd
  · intro id names vs _ _ _ hvs
    exact numbersMember_iff.mpr fun m hm => hvs _ (mem_putAll hm).2
  · intro id vs _ hvs
    exact numbersElem_iff.mpr hvs
  · intro v hv
    exact absurd hv List.not_mem_nil
  · intro x xs v vs _ _ hv hvs
    exact List.forall_mem_cons.mpr ⟨hv, hvs⟩

/-! ## §3. The parser. -/

/-- The elements of the writer's strings are read back by the parser. -/
theorem java_inverts (platform : Platform) :
    (minimalEscaping.encoder (JavaNumber.numeral platform)).PiecesWithin java ∧
      (minimalEscaping.encoder (JavaNumber.numeral platform)).Inverts javaDecoder
        fun n => javaDecoder.num (n.numeral platform) := by
  have hpiece : ∀ u, (minimalEscaping.piece u).ok java = true ∧
      (minimalEscaping.piece u).decode javaDecoder.hex = u := by
    intro u
    have hok := minimalEscaping.ok u
    have hdecode := minimalEscaping.decode u
    cases hpiece : minimalEscaping.piece u with
    | plain w =>
        rw [hpiece] at hok hdecode
        exact ⟨hok, hdecode⟩
    | short c =>
        rw [hpiece] at hok hdecode
        exact ⟨hok, hdecode⟩
    | hex a b c e =>
        rw [hpiece] at hok hdecode
        have hstrict : strictHex a b c e = true := hok
        refine ⟨Json.strictHex_readable hstrict, ?_⟩
        show escapeUnit a b c e = u
        unfold escapeUnit
        rw [parseInt_strictHex hstrict]
        exact hdecode
  exact ⟨fun u => (hpiece u).1, fun u => (hpiece u).2, fun _ => rfl⟩

/-- **What the parser makes of a written body**: the body, when it takes its numbers. -/
theorem parse_write_iff {value : Copy} (hdistinct : value.Distinct)
    (hordinary : value.Numbers JavaNumber.Ordinary) (hnesting : value.nesting ≤ Json.MAX_DEPTH) {j : JsonValue} :
    Json.parse (write platform value) = .ok j ↔
      value.Numbers (fun n => n ≠ .decimal BigDecimal.leastZero) ∧ j = value.map (JavaNumber.reread platform) := by
  obtain ⟨hpieces, hinverts⟩ := java_inverts platform
  have hnumbers : value.Numbers (fun n => java.numeralOk (n.numeral platform) = true) ↔
      value.Numbers fun n => n ≠ .decimal BigDecimal.leastZero := by
    apply numbers_congr _ hordinary
    intro n hn
    show (bigDecimal? (n.numeral platform)).isSome = true ↔ _
    rcases bigDecimal?_numeral platform hn with ⟨hsome, hne⟩ | ⟨hnone, heq⟩
    · rw [hsome]
      exact iff_of_true rfl hne
    · rw [hnone]
      exact iff_of_false Bool.false_ne_true fun hne => hne heq
  have hdecode : value.Numbers (fun n => n ≠ .decimal BigDecimal.leastZero) →
      (value.encode (minimalEscaping.encoder (JavaNumber.numeral platform))).decode javaDecoder
        = value.map (JavaNumber.reread platform) := by
    intro hne
    have hraw := raw_encode hinverts value
    rw [decode_eq_raw (by rw [hraw]; exact distinct_map.mpr hdistinct), hraw]
    refine map_congr_of_numbers (N := fun n => java.numeralOk (n.numeral platform) = true ∧ n.Ordinary) ?_ ?_
    · rintro n ⟨hok, hn⟩
      rcases bigDecimal?_numeral platform hn with ⟨hsome, -⟩ | ⟨hnone, -⟩
      · show (bigDecimal? (n.numeral platform)).getD _ = _
        rw [hsome]
        rfl
      · have hok : (bigDecimal? (n.numeral platform)).isSome = true := hok
        rw [hnone] at hok
        cases hok
    · refine (numbers_congr ?_ hordinary).mp (hnumbers.mpr hne)
      intro n hn
      exact (and_iff_left hn).symm
  rw [Json.parse_ok_iff]
  unfold write
  simp only [text_written_iff hpieces (numeral_wellFormed platform)]
  constructor
  · rintro ⟨t, ⟨rfl, hok⟩, -, rfl⟩
    have hne := hnumbers.mp hok
    exact ⟨hne, hdecode hne⟩
  · rintro ⟨hne, rfl⟩
    refine ⟨_, ⟨rfl, hnumbers.mpr hne⟩, ?_, hdecode hne⟩
    exact Nat.le_trans (height_le_nesting _) (nesting_encode_le hnesting)

/-- **The parser reads back what was sent, unless zero of the least scale is among it.** -/
theorem parse_encoded_iff (platform : Platform) (heap : Heap) (seams : Seams) (eventKey : Option Str)
    (isCommon : Bool) (event : Option Event) (ambient : Option Str) {bytes : List UInt8} {cs : List Char}
    (h : encode platform seams heap eventKey isCommon event ambient = .ok bytes) (hcs : utf8 cs = bytes) :
    ∃ key ev o, eventKey = some key ∧ event = some ev ∧ PropertiesSent platform heap ev o ∧
      ∀ j, Json.parse (utf16 cs) = .ok j ↔
        (sentBody seams key isCommon ev ambient o).value.Numbers (fun n => n ≠ .decimal BigDecimal.leastZero) ∧
          j = (sentBody seams key isCommon ev ambient o).value.map (JavaNumber.reread platform) := by
  obtain ⟨key, ev, hkey, hev, hsendable, o, ho, hbytes⟩ := encode_ok_iff.mp h
  have hsent := sentProperties_ok ho
  refine ⟨key, ev, o, hkey, hev, hsent, ?_⟩
  intro j
  have htext := write_wellFormed isCommon hsendable hsent
  have hunits : utf16 cs = write platform
      (sentBody seams key isCommon ev ambient o).value := by
    have hsame : ofUtf8? (utf8 cs) = ofUtf8? (utf8 (ofUtf16Lossy (write platform
        (sentBody seams key isCommon ev ambient o).value))) := by
      rw [hcs, ← hbytes, getBytes_eq htext]
    rw [ofUtf8?_utf8, ofUtf8?_utf8, Option.some.injEq] at hsame
    rw [hsame, utf16_ofUtf16Lossy htext]
  rw [hunits]
  have heach := sent_each isCommon hsendable hsent
  apply parse_write_iff (heach.imp (fun _ _ => trivial) fun _ hs => hs)
  · apply Body.numbers_iff.mpr
    intro v hv
    cases hv
    exact hsent.2.ordinary
  · -- 257 levels of properties and one of the body, where the parser takes 512
    have hlevels : (sentBody seams key isCommon ev ambient o).value.nesting ≤ (MAX_DEPTH + 1) + 1 :=
      Body.nesting_le.mpr (sentProperties_nesting ho)
    exact Nat.le_trans hlevels (by decide)

/-! ## §4. A zero that is not read back. -/

/-- Exact texts have no positive exponents. -/
theorem exactNumeral_decimal (x : Finite) : ∃ d, bigDecimal? (exactNumeral x) = some d ∧ 0 ≤ d.scale := by
  have hlow := x.exp_ge
  unfold exactNumeral
  split_ifs with h
  · refine ⟨⟨applySign x.neg (asciiValue (natDigits (x.mant * 2 ^ x.exp.toNat) ++ [])), 0, BigDecimal.zero_inRange⟩, ?_,
      Int.le_refl 0⟩
    unfold bigDecimal?
    rw [BigDecimal.exponentValue_eq]
    rfl
  · have hexp : expValue (some ⟨unit 'e', some (unit '-'), natDigits (-x.exp).toNat⟩) = x.exp := by
      show (if some (unit '-') = some (unit '-') then -(natValue (natDigits (-x.exp).toNat) : Int)
        else natValue (natDigits (-x.exp).toNat)) = _
      rw [if_pos rfl, natValue_natDigits]
      omega
    have hrange : -2 ^ 31 ≤ (0 : Int) - x.exp ∧ (0 : Int) - x.exp ≤ maxInt := by
      unfold maxInt
      omega
    refine ⟨⟨applySign x.neg (asciiValue (natDigits (x.mant * 5 ^ (-x.exp).toNat) ++ [])), 0 - x.exp, hrange⟩, ?_, ?_⟩
    · unfold bigDecimal?
      dsimp only
      rw [BigDecimal.exponentValue_eq, hexp]
      rw [if_pos (by unfold maxInt; omega)]
      exact dif_pos hrange
    · dsimp only
      omega

/-- The texts are exact. -/
def exactPlatform : Platform where
  doubles := exactText
  floats := exactText
  doubles_decimal x := by
    obtain ⟨d, hd, -⟩ := exactNumeral_decimal x
    exact Option.isSome_iff_exists.mpr ⟨d, hd⟩
  floats_decimal x := by
    obtain ⟨d, hd, hscale⟩ := exactNumeral_decimal x
    exact ⟨d, hd, BigDecimal.fits_of_scale_nonneg hscale⟩

/-- Properties with the one value `new BigDecimal(BigInteger.ZERO, Integer.MIN_VALUE)`. -/
def zeroHeap : Heap := ⟨fun _ => [(.string [unit 'a'], .decimal BigDecimal.leastZero)], fun _ => []⟩

/-- The copy of these properties. -/
def zeroCopy : Copy := .obj [([unit 'a'], .num (.decimal BigDecimal.leastZero))]

/-- An event with an email and properties. -/
def emailEvent : Event := ⟨some [unit 'a'], none, none, none, 0, none, none⟩

def fixedSeams : Seams := ⟨MIN_OCCURRED_AT, ['i']⟩

theorem emailEvent_sendable : Sendable fixedSeams [unit 'k'] emailEvent none where
  key := by decide
  contact := .inl (by decide)
  keyText := ⟨['k'], by decide⟩
  eventId := by rintro s ⟨⟩
  occurredAt := by
    refine ⟨by decide, by decide, ?_⟩
    rintro ⟨hseconds, -⟩
    revert hseconds
    decide
  email := by
    rintro s ⟨⟩
    exact ⟨['a'], by decide⟩
  phoneNumber := by rintro s ⟨⟩
  contactName := by rintro s ⟨⟩
  visitorId := by rintro s ⟨⟩

/-- **Zero of the least scale is sent, and not read back.** -/
theorem leastZero_not_reread : ∃ bytes cs,
    encode exactPlatform fixedSeams zeroHeap (some [unit 'k']) true (some emailEvent) none = .ok bytes ∧
      utf8 cs = bytes ∧ ¬ ∃ j, Json.parse (utf16 cs) = .ok j := by
  have hleaf : decimalLeaf BigDecimal.leastZero = .ok (.num (.decimal BigDecimal.leastZero)) := by
    apply decimalLeaf_ok_iff.mpr
    refine ⟨?_, rfl⟩
    have hzero : BigDecimal.leastZero.value = 0 := by
      unfold BigDecimal.value
      exact (congrArg (· * _) Int.cast_zero).trans (zero_mul _)
    rw [hzero]
    decide
  have hsent : sentProperties exactPlatform zeroHeap emailEvent = .ok (some zeroCopy) := by
    apply map_ok_iff.mpr
    refine ⟨_, normalize_ok_iff.mpr ?_, rfl⟩
    have htext : isText [unit 'a'] = true := by decide
    rw [show MAX_DEPTH + 1 = 255 + 1 + 1 from rfl]
    simp [walk, walkEntries, graph, shape, recurs, mapEntry, keyFault, zeroHeap, htext, hleaf, zeroCopy, putAll,
      putKey, Key.name]
  have hencode : encode exactPlatform fixedSeams zeroHeap (some [unit 'k']) true (some emailEvent) none = .ok
      (getBytes (write exactPlatform (sentBody fixedSeams [unit 'k'] true emailEvent none (some zeroCopy)).value)) :=
    encode_ok_iff.mpr ⟨_, _, rfl, rfl, emailEvent_sendable, _, hsent, rfl⟩
  have hbytes := (getBytes_eq (write_wellFormed true emailEvent_sendable (sentProperties_ok hsent))).symm
  refine ⟨_, _, hencode, hbytes, ?_⟩
  rintro ⟨j, hj⟩
  obtain ⟨key, ev, o, -, hev, hproperties, hiff⟩ := parse_encoded_iff _ _ _ _ _ _ _ hencode hbytes
  have hnumbers := Body.numbers_iff.mp ((hiff j).mp hj).1
  cases hev
  cases o with
  | none => cases hproperties
  | some v =>
      cases hproperties.2 with
      | @map _ names vs hkeys _ hall =>
          -- one entry, with the key and the value of the heap
          have hnames : names = [[unit 'a']] := by
            have hone : names.map Key.string = [[unit 'a']].map Key.string := hkeys.symm
            exact List.map_injective_iff.mpr (fun _ _ => Key.string.inj) hone
          cases hall with
          | cons hv hrest =>
              cases hrest
              cases hv
              rw [hnames] at hnumbers
              exact (numbersMember_iff.mp (hnumbers _ rfl) _ List.mem_cons_self) rfl

end CekatEvents.Java.PayloadEncoder
