/-
  CekatEvents.Clients.EventIds — the event IDs that the Go and the PHP client generate (`newEventID` in
  `validation.go`, `uuidV4` in `PayloadBuilder.php`).

  Both make sixteen random bytes into a version 4 UUID.  Go writes digits and hyphens into an array of zeros,
  PHP cuts the digits of all bytes into five pieces.

  Main result: `eventIds_agree` — they write the same text, of the form of version 4, and it keeps every bit
  that is not fixed.
-/
import CekatEvents.Encoding.Hex
import CekatEvents.Php.PayloadBuilder

namespace CekatEvents.Clients

open CekatEvents.Encoding

/-! ## §1. The generators. -/

/-- Random bytes. -/
abbrev RandomBytes := Vector UInt8 16

/-- The bytes from one place up to another. -/
def slice (bytes : List UInt8) (first last : Nat) : List UInt8 := (bytes.take last).drop first

/-- Write bytes into a text, from a place on. -/
def write (text : List UInt8) (start : Nat) (bytes : List UInt8) : List UInt8 :=
  text.take start ++ (bytes ++ text.drop (start + bytes.length))

def hyphen : UInt8 := 0x2D

/-- The version and the variant are set. -/
def stamp (random : RandomBytes) : RandomBytes :=
  let id := random.set 6 ((random[6] &&& 0x0F) ||| 0x40)
  id.set 8 ((id[8] &&& 0x3F) ||| 0x80)

/-- `newEventID`. -/
def newEventID (random : RandomBytes) : List UInt8 :=
  let id := (stamp random).toList
  let text := List.replicate 36 0
  let text := write text 0 (hexEncode (slice id 0 4))
  let text := write text 8 [hyphen]
  let text := write text 9 (hexEncode (slice id 4 6))
  let text := write text 13 [hyphen]
  let text := write text 14 (hexEncode (slice id 6 8))
  let text := write text 18 [hyphen]
  let text := write text 19 (hexEncode (slice id 8 10))
  let text := write text 23 [hyphen]
  write text 24 (hexEncode (id.drop 10))

/-- `substr`. -/
def substr (s : Php.Bytes) (offset length : Nat) : Php.Bytes := (s.drop offset).take length

/-- `uuidV4`. -/
def uuidV4 (random : RandomBytes) : Php.Bytes :=
  let hex := hexEncode (stamp random).toList
  substr hex 0 8 ++ hyphen :: (substr hex 8 4 ++ hyphen :: (substr hex 12 4 ++ hyphen ::
    (substr hex 16 4 ++ hyphen :: hex.drop 20)))

/-! ## §2. The layout. -/

/-- The digits of the bytes, with hyphens after the fourth, the sixth, the eighth and the tenth. -/
def layout (id : List UInt8) : List UInt8 :=
  hexEncode (slice id 0 4) ++ hyphen :: (hexEncode (slice id 4 6) ++ hyphen :: (hexEncode (slice id 6 8) ++
    hyphen :: (hexEncode (slice id 8 10) ++ hyphen :: hexEncode (id.drop 10))))

/-- Writing where the zeros begin. -/
theorem write_replicate {done : List UInt8} {start n : Nat} (hstart : done.length = start) (bytes : List UInt8) :
    write (done ++ List.replicate n 0) start bytes = (done ++ bytes) ++ List.replicate (n - bytes.length) 0 := by
  subst hstart
  unfold write
  rw [List.take_left, List.drop_append, List.drop_of_length_le (by omega), List.nil_append,
    List.drop_replicate, Nat.add_sub_cancel_left, List.append_assoc]

theorem length_slice {id : List UInt8} {first last : Nat} (h : last ≤ id.length) :
    (slice id first last).length = last - first := by
  unfold slice
  rw [List.length_drop, List.length_take_of_le h]

/-- **Go fills the array from the left to the right.** -/
theorem newEventID_eq (random : RandomBytes) : newEventID random = layout (stamp random).toList := by
  have hlength : (stamp random).toList.length = 16 := Vector.length_toList
  unfold newEventID layout
  generalize (stamp random).toList = id at hlength
  have hdigits : ∀ first last, last ≤ 16 → (hexEncode (slice id first last)).length = 2 * (last - first) := by
    intro first last hlast
    rw [length_hexEncode, length_slice (by omega)]
  have hrest : (hexEncode (id.drop 10)).length = 12 := by
    rw [length_hexEncode, List.length_drop, hlength]
  have h4 := hdigits 0 4 (by decide)
  have h6 := hdigits 4 6 (by decide)
  have h8 := hdigits 6 8 (by decide)
  have h10 := hdigits 8 10 (by decide)
  dsimp only
  rw [← List.nil_append (List.replicate 36 (0 : UInt8)), write_replicate List.length_nil, write_replicate (by simp [h4]),
    write_replicate (by simp [h4]), write_replicate (by simp [h4, h6]), write_replicate (by simp [h4, h6]),
    write_replicate (by simp [h4, h6, h8]), write_replicate (by simp [h4, h6, h8]),
    write_replicate (by simp [h4, h6, h8, h10]), write_replicate (by simp [h4, h6, h8, h10])]
  simp [h4, h6, h8, h10, hrest]

/-- The digits of some of the bytes are some of the digits. -/
theorem hexEncode_slice (id : List UInt8) (first last : Nat) :
    hexEncode (slice id first last) = substr (hexEncode id) (2 * first) (2 * (last - first)) := by
  unfold slice substr
  rw [hexEncode_drop, hexEncode_take, List.drop_take]
  congr 1
  omega

/-- **PHP cuts the digits where Go cuts the bytes.** -/
theorem uuidV4_eq (random : RandomBytes) : uuidV4 random = layout (stamp random).toList := by
  unfold uuidV4 layout
  rw [hexEncode_slice, hexEncode_slice, hexEncode_slice, hexEncode_slice, hexEncode_drop]

theorem length_layout {id : List UInt8} (h : id.length = 16) : (layout id).length = 36 := by
  unfold layout
  simp only [List.length_append, List.length_cons, length_hexEncode, List.length_drop, h,
    length_slice (show 4 ≤ id.length by omega), length_slice (show 6 ≤ id.length by omega),
    length_slice (show 8 ≤ id.length by omega), length_slice (show 10 ≤ id.length by omega)]

/-- **The digits are what the text has beside its hyphens.** -/
theorem filter_layout (id : List UInt8) : (layout id).filter (fun c => c != hyphen) = hexEncode id := by
  have hdigits : ∀ bytes : List UInt8, (hexEncode bytes).filter (fun c => c != hyphen) = hexEncode bytes := by
    intro bytes
    apply List.filter_eq_self.mpr
    intro c hc
    have hhex := isLowerHex_of_mem hc
    rw [bne_iff_ne]
    rintro rfl
    cases hhex
  have hmark : ∀ rest : List UInt8,
      (hyphen :: rest).filter (fun c => c != hyphen) = rest.filter fun c => c != hyphen :=
    fun rest => List.filter_cons_of_neg (by decide)
  unfold layout
  simp only [List.filter_append, hmark, hdigits, ← hexEncode_append]
  congr 1
  unfold slice
  rw [List.drop_zero]
  have hjoin : ∀ first last, first ≤ last → (id.take last).drop first ++ id.drop last = id.drop first := by
    intro first last hle
    rw [List.drop_take]
    have hcut := List.take_append_drop (last - first) (id.drop first)
    rwa [List.drop_drop, Nat.add_sub_of_le hle] at hcut
  rw [hjoin 8 10 (by decide), hjoin 6 8 (by decide), hjoin 4 6 (by decide), List.take_append_drop]

/-! ## §3. The form and the bits. -/

/-- `8`, `9`, `a` or `b`. -/
def isVariant (c : UInt8) : Bool := c == 0x38 || c == 0x39 || c == 0x61 || c == 0x62

/-- `[0-9a-f]{8}-[0-9a-f]{4}-4[0-9a-f]{3}-[89ab][0-9a-f]{3}-[0-9a-f]{12}`, one test for each character. -/
def version4 : List (UInt8 → Bool) :=
  List.replicate 8 isLowerHex ++ (· == hyphen) :: (List.replicate 4 isLowerHex ++ (· == hyphen) ::
    (· == 0x34) :: (List.replicate 3 isLowerHex ++ (· == hyphen) ::
      isVariant :: (List.replicate 3 isLowerHex ++ (· == hyphen) :: List.replicate 12 isLowerHex)))

def IsVersion4 (text : List UInt8) : Prop := List.Forall₂ (fun test c => test c = true) version4 text

/-- The bits that are neither of the version nor of the variant. -/
def isFree (byte bit : Nat) : Bool := !(byte == 6 && 4 ≤ bit) && !(byte == 8 && 6 ≤ bit)

/-- How many of them there are. -/
def freeBits : Nat := ((List.range 16).map fun byte => (List.range 8).countP (isFree byte)).sum

/-- **The bytes agree in every bit that is not fixed.** -/
def SameEntropy (random other : RandomBytes) : Prop :=
  ∀ byte (h : byte < 16), ∀ bit < 8, isFree byte bit = true →
    random[byte].toNat.testBit bit = other[byte].toNat.testBit bit

theorem stamp_get (random : RandomBytes) {byte : Nat} (h : byte < 16) :
    (stamp random)[byte] = if byte = 8 then (random[8] &&& 0x3F) ||| 0x80
      else if byte = 6 then (random[6] &&& 0x0F) ||| 0x40 else random[byte] := by
  unfold stamp
  dsimp only
  by_cases h8 : byte = 8
  · subst h8
    rw [Vector.getElem_set_self, if_pos rfl, Vector.getElem_set_ne _ _ (by decide)]
  · rw [Vector.getElem_set_ne _ _ (Ne.symm h8), if_neg h8]
    by_cases h6 : byte = 6
    · subst h6
      rw [Vector.getElem_set_self, if_pos rfl]
    · rw [Vector.getElem_set_ne _ _ (Ne.symm h6), if_neg h6]

/-- The bits that a mask keeps. -/
theorem mask_bits {mask : UInt8} {n : Nat} (h : mask.toNat = 2 ^ n - 1) (k : Nat) :
    mask.toNat.testBit k = true ↔ k < n := by
  rw [h, Nat.testBit_two_pow_sub_one, decide_eq_true_eq]

/-- A byte keeps all its bits. -/
theorem byte_eq_iff {a b : UInt8} : a = b ↔ ∀ k < 8, a.toNat.testBit k = b.toNat.testBit k := by
  constructor
  · rintro rfl k -
    rfl
  · intro h
    apply UInt8.toNat_inj.mp
    apply Nat.eq_of_testBit_eq
    intro k
    by_cases hk : k < 8
    · exact h k hk
    · have hle : 2 ^ 8 ≤ 2 ^ k := Nat.pow_le_pow_right (by decide) (by omega)
      rw [Nat.testBit_lt_two_pow (Nat.lt_of_lt_of_le a.toNat_lt hle),
        Nat.testBit_lt_two_pow (Nat.lt_of_lt_of_le b.toNat_lt hle)]

/-- **Two stamped IDs are equal when the random bytes agree in the free bits.** -/
theorem stamp_eq_iff (random other : RandomBytes) : stamp random = stamp other ↔ SameEntropy random other := by
  have hvariant : ∀ k, (0x3F : UInt8).toNat.testBit k = true ↔ k < 6 := mask_bits rfl
  have hversion : ∀ k, (0x0F : UInt8).toNat.testBit k = true ↔ k < 4 := mask_bits rfl
  have hbyte : ∀ byte (h : byte < 16), (stamp random)[byte] = (stamp other)[byte] ↔
      ∀ bit < 8, isFree byte bit = true → random[byte].toNat.testBit bit = other[byte].toNat.testBit bit := by
    intro byte h
    rw [stamp_get random h, stamp_get other h]
    by_cases h8 : byte = 8
    · subst h8
      rw [if_pos rfl, if_pos rfl, masked_eq_iff (by decide)]
      simp only [hvariant, isFree]
      constructor
      · intro hall k _ hfree
        exact hall k (by simpa using hfree)
      · intro hall k hk
        exact hall k (by omega) (by simpa using hk)
    · rw [if_neg h8, if_neg h8]
      by_cases h6 : byte = 6
      · subst h6
        rw [if_pos rfl, if_pos rfl, masked_eq_iff (by decide)]
        simp only [hversion, isFree]
        constructor
        · intro hall k _ hfree
          exact hall k (by simpa using hfree)
        · intro hall k hk
          exact hall k (by omega) (by simpa using hk)
      · rw [if_neg h6, if_neg h6, byte_eq_iff]
        simp [isFree, h6, h8]
  unfold SameEntropy
  rw [← forall₂_congr hbyte]
  exact ⟨fun heq byte h => by rw [heq], fun hall => Vector.ext hall⟩

/-! ## §4. The IDs. -/

theorem layout_injective {id other : List UInt8} (h : layout id = layout other) : id = other := by
  apply hexEncode_injective
  rw [← filter_layout id, ← filter_layout other, h]

/-- **Different random bytes give different IDs**, unless they differ in fixed bits only. -/
theorem newEventID_eq_iff (random other : RandomBytes) :
    newEventID random = newEventID other ↔ SameEntropy random other := by
  rw [newEventID_eq, newEventID_eq, ← stamp_eq_iff]
  constructor
  · intro h
    exact Vector.toList_inj.mp (layout_injective h)
  · intro h
    rw [h]

theorem forall₂_replicate {α β : Type} {R : α → β → Prop} {a : α} {n : Nat} {l : List β} (hlen : l.length = n)
    (h : ∀ b ∈ l, R a b) : List.Forall₂ R (List.replicate n a) l := by
  induction l generalizing n with
  | nil =>
      subst hlen
      exact .nil
  | cons b l ih =>
      subst hlen
      exact .cons (h b List.mem_cons_self) (ih rfl fun c hc => h c (List.mem_cons_of_mem b hc))

/-- The digits of one byte at the start of a slice. -/
theorem slice_pair {id : List UInt8} {i : Nat} (h : i + 1 < id.length) :
    slice id i (i + 2) = [id[i], id[i + 1]] := by
  unfold slice
  rw [List.drop_take, Nat.add_sub_cancel_left, List.drop_eq_getElem_cons (by omega),
    List.drop_eq_getElem_cons h]
  rfl

/-- Two bytes are a digit, which the first of them decides, and three more. -/
theorem forall₂_pair {test : UInt8 → Bool} {a b : UInt8} (h : test (hexDigit (a.toNat / 16)) = true) :
    List.Forall₂ (fun t c => t c = true) (test :: List.replicate 3 isLowerHex) (hexEncode [a, b]) := by
  have hdigits : hexEncode [a, b] = hexDigit (a.toNat / 16) :: (hexEncode [a, b]).tail := rfl
  rw [hdigits]
  refine .cons h (forall₂_replicate ?_ ?_)
  · rfl
  · intro c hc
    exact isLowerHex_of_mem (List.mem_of_mem_tail hc)

/-- Fixed bits above the others are added to them. -/
theorem fixed_toNat (b : UInt8) {mask fixed : UInt8} {n k : Nat} (hmask : mask.toNat = 2 ^ n - 1)
    (hfixed : fixed.toNat = 2 ^ n * k) : ((b &&& mask) ||| fixed).toNat = 2 ^ n * k + b.toNat % 2 ^ n := by
  rw [UInt8.toNat_or, UInt8.toNat_and, hmask, hfixed, Nat.and_two_pow_sub_one_eq_mod, Nat.or_comm,
    Nat.two_pow_add_eq_or_of_lt (Nat.mod_lt _ (Nat.two_pow_pos n))]

theorem version_digit (b : UInt8) : (hexDigit (((b &&& 0x0F) ||| 0x40).toNat / 16) == 0x34) = true := by
  have hnat : ((b &&& 0x0F) ||| 0x40).toNat = 2 ^ 4 * 4 + b.toNat % 2 ^ 4 := fixed_toNat b rfl rfl
  have hdigit : ((b &&& 0x0F) ||| 0x40).toNat / 16 = 4 := by omega
  rw [hdigit]
  rfl

theorem variant_digit (b : UInt8) : isVariant (hexDigit (((b &&& 0x3F) ||| 0x80).toNat / 16)) = true := by
  have hnat : ((b &&& 0x3F) ||| 0x80).toNat = 2 ^ 6 * 2 + b.toNat % 2 ^ 6 := fixed_toNat b rfl rfl
  have hlow : 8 ≤ ((b &&& 0x3F) ||| 0x80).toNat / 16 := by omega
  have hhigh : ((b &&& 0x3F) ||| 0x80).toNat / 16 < 12 := by omega
  revert hlow hhigh
  generalize ((b &&& 0x3F) ||| 0x80).toNat / 16 = n
  intro hlow hhigh
  interval_cases n <;> rfl

/-- **An ID is of version 4.** -/
theorem isVersion4_layout (random : RandomBytes) : IsVersion4 (layout (stamp random).toList) := by
  have hlength : (stamp random).toList.length = 16 := Vector.length_toList
  have hdigits : ∀ {bytes : List UInt8} {n : Nat}, 2 * bytes.length = n →
      List.Forall₂ (fun t c => t c = true) (List.replicate n isLowerHex) (hexEncode bytes) := by
    intro bytes n hn
    exact forall₂_replicate ((length_hexEncode bytes).trans hn) fun c => isLowerHex_of_mem
  have hmark : (hyphen == hyphen) = true := rfl
  have hslice : ∀ first last, last ≤ 16 → (slice (stamp random).toList first last).length = last - first := by
    intro first last h
    exact length_slice (by omega)
  have hrest : ((stamp random).toList.drop 10).length = 6 := by
    rw [List.length_drop, hlength]
  -- the third and the fourth group begin with the digits that are fixed
  have hversion : List.Forall₂ (fun t c => t c = true) ((· == 0x34) :: List.replicate 3 isLowerHex)
      (hexEncode (slice (stamp random).toList 6 8)) := by
    rw [slice_pair (show 6 + 1 < _ by omega), Vector.getElem_toList, stamp_get random (by decide)]
    exact forall₂_pair (version_digit _)
  have hvariant : List.Forall₂ (fun t c => t c = true) (isVariant :: List.replicate 3 isLowerHex)
      (hexEncode (slice (stamp random).toList 8 10)) := by
    rw [slice_pair (show 8 + 1 < _ by omega), Vector.getElem_toList, stamp_get random (by decide)]
    exact forall₂_pair (variant_digit _)
  refine List.rel_append (hdigits (by rw [hslice 0 4 (by decide)])) (.cons hmark ?_)
  refine List.rel_append (hdigits (by rw [hslice 4 6 (by decide)])) (.cons hmark ?_)
  refine List.rel_append hversion (.cons hmark ?_)
  exact List.rel_append hvariant (.cons hmark (hdigits (by rw [hrest])))

/-- **Go and PHP generate the same IDs**: 36 characters, of version 4, with every one of the 122 bits that
    are not fixed. -/
theorem eventIds_agree (random : RandomBytes) :
    newEventID random = uuidV4 random ∧ (newEventID random).length = 36 ∧ IsVersion4 (newEventID random) ∧
      (∀ other, newEventID random = newEventID other ↔ SameEntropy random other) ∧ freeBits = 122 := by
  refine ⟨?_, ?_, ?_, newEventID_eq_iff random, by decide⟩
  · rw [newEventID_eq, uuidV4_eq]
  · rw [newEventID_eq]
    exact length_layout Vector.length_toList
  · rw [newEventID_eq]
    exact isVersion4_layout random

end CekatEvents.Clients
