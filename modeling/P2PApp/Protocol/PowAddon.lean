import P2PApp.Library.Fnv
import P2PApp.Library.Utf8
import P2PApp.Protocol.Pow

/-!
# The two proofs of work

A node verifies puzzles with the native addon where it could be loaded and with the fallback where
not. The addon hashes the UTF-8 bytes of an id and takes the difficulty modulo `2 ^ 32`; the
fallback hashes the UTF-16 code units and takes it as it is. The bytes of a string are its units
only below `0x80`. Whether a `char` is signed is up to the compiler of the addon, and makes no
difference to that.
-/

namespace P2PApp.PowAddon

open JsonString Utf8

def prime : BitVec 32 := 0x01000193

def basis : BitVec 32 := 0x811c9dc5

/-! ## The addon -/

/-- `(uint32_t)c`. -/
def toUint32 (charIsSigned : Bool) (c : Byte) : BitVec 32 :=
  if charIsSigned then c.signExtend 32 else c.setWidth 32

/-- `simple_hash`. -/
def simpleHash (charIsSigned : Bool) (data : List Byte) : BitVec 32 :=
  data.foldl (fun hash c ↦ (hash ^^^ toUint32 charIsSigned c) * prime) basis

/-- `std::to_string`. -/
def decimal (nonce : BitVec 32) : List Byte :=
  (toString nonce.toNat).toList.map fun digit ↦ .ofNat 8 digit.toNat

/-- `VerifyPuzzle`. Integers are converted with `Uint32Value`, and `%` traps on zero. -/
def verifyPuzzle (charIsSigned : Bool) (data : List Byte) (difficulty nonce : ℕ) : Option Bool :=
  let difficulty := BitVec.ofNat 32 difficulty
  let nonce := BitVec.ofNat 32 nonce
  let attempt := data ++ decimal nonce
  let hash := simpleHash charIsSigned attempt
  if difficulty = 0 then none else some (hash % difficulty == 0)

/-! ## The fallback -/

/-- `jsSimpleHash` on any string of the language. -/
def jsSimpleHash (data : JSString) : ℕ :=
  let hash :=
    data.foldl (fun hash unit ↦ Pow.imul (Pow.xor32 hash unit.toNat) 0x01000193) 0x811c9dc5
  (BitVec.ofInt 32 hash).toNat

def jsVerifyPuzzle (data : JSString) (difficulty nonce : ℕ) : Bool :=
  let attempt := data ++ ascii (toString nonce)
  jsSimpleHash attempt % difficulty == 0

/-- The addon and the fallback say the same. -/
def Agree (charIsSigned : Bool) (data : JSString) (difficulty nonce : ℕ) : Prop :=
  verifyPuzzle charIsSigned (encode data) difficulty nonce =
    some (jsVerifyPuzzle data difficulty nonce)

instance (charIsSigned : Bool) (data : JSString) (difficulty nonce : ℕ) :
    Decidable (Agree charIsSigned data difficulty nonce) :=
  inferInstanceAs (Decidable (_ = _))

/-! ## Both hash words of 32 bits -/

theorem prime_mul_inverse : prime * 0x359c449b = 1#32 := by decide

theorem simpleHash_eq (charIsSigned : Bool) (data : List Byte) :
    simpleHash charIsSigned data = Fnv.hash prime basis (data.map (toUint32 charIsSigned)) := by
  rw [Fnv.hash, List.foldl_map]
  rfl

/-- The signed steps of the fallback are unsigned steps on the same words. -/
theorem ofInt_jsHash (data : JSString) (hash : ℤ) :
    BitVec.ofInt 32
        (data.foldl (fun hash unit ↦ Pow.imul (Pow.xor32 hash unit.toNat) 0x01000193) hash) =
      Fnv.hash prime (BitVec.ofInt 32 hash) (data.map (BitVec.setWidth 32)) := by
  induction data generalizing hash with
  | nil => rfl
  | cons unit data ih =>
    rw [List.foldl_cons, ih, List.map_cons, Fnv.hash, Fnv.hash, List.foldl_cons]
    have hprime : BitVec.ofInt 32 0x01000193 = prime := by decide
    rw [Pow.imul, Pow.toInt32, BitVec.ofInt_toInt, BitVec.ofInt_mul, Pow.xor32,
      BitVec.ofInt_toInt, BitVec.ofInt_natCast, BitVec.ofNat_toNat, hprime, Fnv.mix]

theorem jsSimpleHash_eq (data : JSString) :
    jsSimpleHash data = (Fnv.hash prime basis (data.map (BitVec.setWidth 32))).toNat :=
  congrArg BitVec.toNat (ofInt_jsHash data _)

/-- On well-formed strings this is the fallback as it is modelled elsewhere. -/
theorem jsSimpleHash_string (text : String) :
    jsSimpleHash (text.toList.flatMap fun character ↦ utf16 character.toNat) =
      Pow.jsSimpleHash text := by
  have hcodes : (text.toList.flatMap fun character ↦ utf16 character.toNat).map BitVec.toNat =
      Pow.charCodes text := by
    rw [List.map_flatMap, Pow.charCodes]
    refine List.flatMap_congr fun character _ ↦ ?_
    have hvalid : character.toNat < 0xd800 ∨ 0xdfff < character.toNat ∧
      character.toNat < 0x110000 := character.valid
    unfold utf16
    split
    · simp only [List.map_cons, List.map_nil, BitVec.toNat_ofNat]
      rw [Nat.mod_eq_of_lt (by omega)]
    · simp only [List.map_cons, List.map_nil, BitVec.toNat_ofNat]
      rw [Nat.mod_eq_of_lt (by omega), Nat.mod_eq_of_lt (by omega)]
  rw [jsSimpleHash, Pow.jsSimpleHash, ← hcodes]
  simp only [List.bind_eq_flatMap, List.pure_def, ← List.map_eq_flatMap, List.foldl_map]

/-! ## Strings below `0x80` -/

theorem toUint32_of_lt (charIsSigned : Bool) {value : ℕ} (h : value < 0x80) :
    toUint32 charIsSigned (.ofNat 8 value) = .ofNat 32 value := by
  have hnat : (BitVec.ofNat 8 value).toNat = value := toNat_byte (by omega)
  have hwidth : (BitVec.ofNat 8 value).setWidth 32 = .ofNat 32 value := by
    rw [← BitVec.ofNat_toNat, hnat]
  cases charIsSigned with
  | false => exact hwidth
  | true =>
    have hmsb : (BitVec.ofNat 8 value).msb = false := by
      rw [BitVec.msb_eq_false_iff_two_mul_lt, hnat]
      omega
    exact (BitVec.signExtend_eq_setWidth_of_msb_false hmsb).trans hwidth

/-- What the addon reads of such a string is what the fallback reads. -/
theorem map_toUint32_encode (charIsSigned : Bool) {data : JSString}
    (h : ∀ unit ∈ data, unit.toNat < 0x80) :
    (encode data).map (toUint32 charIsSigned) = data.map (BitVec.setWidth 32) := by
  rw [encode_of_lt h, List.map_map]
  refine List.map_congr_left fun unit hunit ↦ ?_
  rw [Function.comp_apply, toUint32_of_lt charIsSigned (h unit hunit), BitVec.ofNat_toNat]

theorem lt_of_mem_digits {nonce : ℕ} {digit : Char} (h : digit ∈ (toString nonce).toList) :
    digit.toNat < 0x80 := by
  have hdigit : digit ∈ Nat.toDigits 10 nonce := by rwa [← Nat.toList_repr]
  have hrange := Nat.isDigit_of_mem_toDigits (by decide) (by decide) hdigit
  simp only [Char.isDigit, Bool.and_eq_true, decide_eq_true_eq] at hrange
  exact lt_of_le_of_lt hrange.2 (by decide)

theorem map_toUint32_decimal (charIsSigned : Bool) (nonce : BitVec 32) :
    (decimal nonce).map (toUint32 charIsSigned) =
      (ascii (toString nonce.toNat)).map (BitVec.setWidth 32) := by
  rw [decimal, ascii, List.map_map, List.map_map]
  refine List.map_congr_left fun digit hdigit ↦ ?_
  have hlt := lt_of_mem_digits hdigit
  rw [Function.comp_apply, Function.comp_apply, toUint32_of_lt charIsSigned hlt,
    ← BitVec.ofNat_toNat, BitVec.toNat_ofNat, Nat.mod_eq_of_lt (by omega)]

/-! ## The attempts -/

/-- The words of a nonce, which both hashes read alike. -/
def nonceWords (nonce : ℕ) : List (BitVec 32) :=
  (ascii (toString nonce)).map (BitVec.setWidth 32)

theorem simpleHash_attempt (charIsSigned : Bool) (data : List Byte) (nonce : BitVec 32) :
    simpleHash charIsSigned (data ++ decimal nonce) =
      Fnv.hash prime (simpleHash charIsSigned data) (nonceWords nonce.toNat) := by
  rw [simpleHash_eq, simpleHash_eq, List.map_append, Fnv.hash_append, map_toUint32_decimal]
  rfl

/-- `jsSimpleHash` as a word. -/
def jsWord (data : JSString) : BitVec 32 := Fnv.hash prime basis (data.map (BitVec.setWidth 32))

theorem jsSimpleHash_attempt (data : JSString) (nonce : ℕ) :
    jsSimpleHash (data ++ ascii (toString nonce)) =
      (Fnv.hash prime (jsWord data) (nonceWords nonce)).toNat := by
  rw [jsSimpleHash_eq, List.map_append, Fnv.hash_append]
  rfl

variable {charIsSigned : Bool} {data : JSString} {difficulty nonce : ℕ}

/-- For difficulties of 32 bits the two agree if the two hashes are multiples together. -/
theorem agree_iff_of_lt (hpositive : 1 ≤ difficulty) (hdifficulty : difficulty < 2 ^ 32)
    (hnonce : nonce < 2 ^ 32) :
    Agree charIsSigned data difficulty nonce ↔
      ((Fnv.hash prime (simpleHash charIsSigned (encode data)) (nonceWords nonce)).toNat %
          difficulty = 0 ↔
        (Fnv.hash prime (jsWord data) (nonceWords nonce)).toNat % difficulty = 0) := by
  have hnat : (BitVec.ofNat 32 difficulty).toNat = difficulty := by
    rw [BitVec.toNat_ofNat, Nat.mod_eq_of_lt hdifficulty]
  have hne : ¬BitVec.ofNat 32 difficulty = 0 := by
    intro h
    rw [h] at hnat
    exact absurd hnat (by simpa using Nat.ne_of_lt hpositive)
  have hword : (BitVec.ofNat 32 nonce).toNat = nonce := by
    rw [BitVec.toNat_ofNat, Nat.mod_eq_of_lt hnonce]
  unfold Agree verifyPuzzle jsVerifyPuzzle
  dsimp only
  rw [if_neg hne, simpleHash_attempt, hword, jsSimpleHash_attempt, Option.some.injEq,
    Bool.eq_iff_iff, beq_iff_eq, beq_iff_eq, ← BitVec.toNat_inj, BitVec.toNat_umod, hnat]
  rfl

/-- A difficulty that is zero modulo `2 ^ 32` ends the process. -/
theorem not_agree_of_zero (charIsSigned : Bool) (data : JSString) (nonce : ℕ) :
    ¬Agree charIsSigned data (2 ^ 32) nonce := by
  unfold Agree verifyPuzzle
  simp

/-- Two numbers with the same divisors of 32 bits are the same. -/
theorem eq_of_dvd_alike {left right : ℕ} (hleft : left < 2 ^ 32) (hright : right < 2 ^ 32)
    (h : ∀ divisor, 1 ≤ divisor → divisor < 2 ^ 32 →
      (left % divisor = 0 ↔ right % divisor = 0)) : left = right := by
  have hzero (value : ℕ) (hvalue : value < 2 ^ 32)
      (hall : ∀ divisor, 1 ≤ divisor → divisor < 2 ^ 32 → value % divisor = 0) : value = 0 := by
    by_contra hne
    rcases Nat.lt_or_ge value 3 with hsmall | hlarge
    · have hthree := hall 3 (by norm_num) (by norm_num)
      omega
    · have hpred := hall (value - 1) (by omega) (by omega)
      obtain ⟨pred, rfl⟩ : ∃ pred, value = pred + 1 := ⟨value - 1, by omega⟩
      rw [Nat.add_sub_cancel, Nat.add_mod_left, Nat.mod_eq_of_lt (by omega)] at hpred
      cases hpred
  rcases Nat.eq_zero_or_pos left with rfl | hleftPos
  · refine (hzero right hright fun divisor hpos hlt ↦ ?_).symm
    exact (h divisor hpos hlt).1 (Nat.zero_mod _)
  rcases Nat.eq_zero_or_pos right with rfl | hrightPos
  · refine hzero left hleft fun divisor hpos hlt ↦ ?_
    exact (h divisor hpos hlt).2 (Nat.zero_mod _)
  · have hdvd := (h right hrightPos hright).2 (Nat.mod_self _)
    have hdvd' := (h left hleftPos hleft).1 (Nat.mod_self _)
    exact Nat.dvd_antisymm (Nat.dvd_of_mod_eq_zero hdvd') (Nat.dvd_of_mod_eq_zero hdvd)

/-- The two agree on some data for all difficulties of 32 bits exactly if the hashes coincide. -/
theorem agree_forall_iff (charIsSigned : Bool) (data : JSString) :
    (∀ difficulty nonce, 1 ≤ difficulty → difficulty < 2 ^ 32 → nonce < 2 ^ 32 →
      Agree charIsSigned data difficulty nonce) ↔
      simpleHash charIsSigned (encode data) = jsWord data := by
  constructor
  · intro h
    rw [← Fnv.hash_inj prime_mul_inverse (nonceWords 0), ← BitVec.toNat_inj]
    refine eq_of_dvd_alike (BitVec.isLt _) (BitVec.isLt _) fun divisor hpositive hlt ↦ ?_
    exact (agree_iff_of_lt hpositive hlt (by norm_num)).1 (h divisor 0 hpositive hlt (by norm_num))
  · intro h difficulty nonce hpositive hdifficulty hnonce
    rw [agree_iff_of_lt hpositive hdifficulty hnonce, h]

/-! ## Strings with other units -/

/-- A state from which no single byte leads to where one unit leads from the start. -/
def Far (state : BitVec 32) : Prop :=
  state >>> 16 ≠ basis >>> 16 ∧ state >>> 16 ^^^ 0xFFFF ≠ basis >>> 16

instance (state : BitVec 32) : Decidable (Far state) := inferInstanceAs (Decidable (_ ∧ _))

/-- The first byte of two. -/
theorem far_one : ∀ charIsSigned, ∀ value < 32,
    Far (Fnv.mix prime basis (toUint32 charIsSigned (.ofNat 8 (0xC0 + value)))) := by
  decide +kernel

/-- The first two bytes of three. -/
theorem far_two : ∀ charIsSigned, ∀ value < 16, ∀ next < 64,
    Far (Fnv.mix prime (Fnv.mix prime basis (toUint32 charIsSigned (.ofNat 8 (0xE0 + value))))
      (toUint32 charIsSigned (.ofNat 8 (0x80 + next)))) := by
  decide +kernel

/-- The sign of a byte fills the upper half of its word. -/
theorem toUint32_ushiftRight : ∀ charIsSigned c,
    toUint32 charIsSigned c >>> 16 = 0#32 ∨ toUint32 charIsSigned c >>> 16 = 0xFFFF := by
  decide +kernel

theorem Far.mix_ne {state : BitVec 32} (h : Far state) (charIsSigned : Bool) (last : Byte)
    (unit : CodeUnit) :
    Fnv.mix prime state (toUint32 charIsSigned last) ≠
      Fnv.mix prime basis (unit.setWidth 32) := by
  intro heq
  have hxor := congrArg (fun word : BitVec 32 ↦ word >>> 16)
    ((Fnv.mul_inj prime_mul_inverse).1 heq)
  have hunit : unit.setWidth 32 >>> 16 = 0#32 := by
    apply BitVec.eq_of_toNat_eq
    have hlt := unit.isLt
    rw [BitVec.toNat_ushiftRight, BitVec.toNat_setWidth, Nat.mod_eq_of_lt (by omega),
      Nat.shiftRight_eq_div_pow, Nat.div_eq_of_lt hlt]
    rfl
  simp only [BitVec.ushiftRight_xor_distrib, hunit] at hxor
  rcases toUint32_ushiftRight charIsSigned last with hlast | hlast
  · rw [hlast, BitVec.xor_zero, BitVec.xor_zero] at hxor
    exact h.1 hxor
  · rw [hlast, BitVec.xor_zero] at hxor
    exact h.2 hxor

/-- On a single unit from `0x80` on the hashes differ. -/
theorem simpleHash_encode_ne (charIsSigned : Bool) {unit : CodeUnit} (h : 0x80 ≤ unit.toNat) :
    simpleHash charIsSigned (encode [unit]) ≠ jsWord [unit] := by
  have hpoint : 0x80 ≤ unitPoint unit ∧ unitPoint unit < 0x10000 := by
    unfold unitPoint
    split
    · decide
    · exact ⟨h, unit.isLt⟩
  rw [encode, simpleHash_eq, encodePoint, if_neg (by omega)]
  split
  · exact (far_one charIsSigned (unitPoint unit / 64) (by omega)).mix_ne charIsSigned _ unit
  · rw [if_pos hpoint.2]
    exact (far_two charIsSigned (unitPoint unit / 4096) (by omega) (unitPoint unit / 64 % 64)
      (by omega)).mix_ne charIsSigned _ unit

/-! ## Where they agree -/

/-- Over an alphabet and below a bound, of `2 ^ 32` at least, the addon and the fallback agree on
everything exactly if the alphabet has units below `0x80` only and the bound is `2 ^ 32`. -/
theorem agree_iff_ascii (charIsSigned : Bool) (alphabet : Set CodeUnit) {bound : ℕ}
    (hbound : 2 ^ 32 ≤ bound) :
    (∀ data : JSString, (∀ unit ∈ data, unit ∈ alphabet) → ∀ difficulty nonce,
      1 ≤ difficulty → difficulty < bound → nonce < 2 ^ 32 →
        Agree charIsSigned data difficulty nonce) ↔
      (∀ unit ∈ alphabet, unit.toNat < 0x80) ∧ bound ≤ 2 ^ 32 := by
  constructor
  · intro h
    constructor
    · intro unit hunit
      by_contra hnot
      refine simpleHash_encode_ne charIsSigned (not_lt.1 hnot) ?_
      refine (agree_forall_iff charIsSigned [unit]).1 fun difficulty nonce hpositive hlt hnonce ↦ ?_
      refine h [unit] (fun other hother ↦ ?_) difficulty nonce hpositive (by omega) hnonce
      rwa [List.mem_singleton.1 hother]
    · by_contra hnot
      exact not_agree_of_zero charIsSigned [] 0
        (h [] (fun _ hmem ↦ by cases hmem) _ 0 (by norm_num) (by omega) (by norm_num))
  · rintro ⟨hascii, hle⟩ data hdata difficulty nonce hpositive hlt hnonce
    have hsame : simpleHash charIsSigned (encode data) = jsWord data := by
      rw [simpleHash_eq, jsWord,
        map_toUint32_encode charIsSigned fun unit hunit ↦ hascii unit (hdata unit hunit)]
    exact (agree_forall_iff charIsSigned data).2 hsame difficulty nonce hpositive (by omega) hnonce

theorem agree_iff_ascii_letter : Agree true [0x61] Config.POW_DIFFICULTY 0 := by
  have hiff := agree_iff_ascii true {unit | unit.toNat < 0x80} (le_refl (2 ^ 32))
  have hletter : ∀ unit ∈ ([0x61] : JSString), unit.toNat < 0x80 := by simp
  exact hiff.2 ⟨fun unit hunit ↦ hunit, le_rfl⟩ [0x61] hletter Config.POW_DIFFICULTY 0
    (by decide) (by norm_num [Config.POW_DIFFICULTY]) (by norm_num)

/-- An attempt on the id `é` that only the fallback accepts. -/
theorem not_agree_acute :
    ¬(∀ charIsSigned data difficulty nonce, 1 ≤ difficulty → nonce < 2 ^ 32 →
      Agree charIsSigned data difficulty nonce) := by
  intro h
  have hacute := h true [0xE9] Config.POW_DIFFICULTY 1252 (by decide) (by norm_num)
  exact absurd hacute (by decide +kernel)

end P2PApp.PowAddon
