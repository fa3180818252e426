import P2PApp.Library.Utf8

/-!
# Base64

Bytes as text, by `buffer.toString('base64')` and `Buffer.from(text, 'base64')`. The encoder takes
three bytes to four digits and fills the last group up with `=`. The decoder also knows the two
digits of the alphabet for URLs, passes over characters that are no digits, and ends at the first
`=`. Whatever was encoded is decoded to the same bytes.
-/

namespace P2PApp.Base64

open JsonString Utf8

/-- The padding, `=`. -/
def pad : CodeUnit := 0x3D

def digit (value : ℕ) : CodeUnit :=
  .ofNat 16 (if value < 26 then 0x41 + value
    else if value < 52 then 0x61 + (value - 26)
    else if value < 62 then 0x30 + (value - 52)
    else if value = 62 then 0x2B
    else 0x2F)

def value (unit : CodeUnit) : Option ℕ :=
  if 0x41 ≤ unit.toNat ∧ unit.toNat ≤ 0x5A then some (unit.toNat - 0x41)
  else if 0x61 ≤ unit.toNat ∧ unit.toNat ≤ 0x7A then some (unit.toNat - 0x61 + 26)
  else if 0x30 ≤ unit.toNat ∧ unit.toNat ≤ 0x39 then some (unit.toNat - 0x30 + 52)
  else if unit.toNat = 0x2B ∨ unit.toNat = 0x2D then some 62
  else if unit.toNat = 0x2F ∨ unit.toNat = 0x5F then some 63
  else none

/-- The values of the digits, six bits each. -/
def sextets : List Byte → List ℕ
  | [] => []
  | [a] => [a.toNat / 4, a.toNat % 4 * 16]
  | [a, b] => [a.toNat / 4, a.toNat % 4 * 16 + b.toNat / 16, b.toNat % 16 * 4]
  | a :: b :: c :: rest =>
    a.toNat / 4 :: (a.toNat % 4 * 16 + b.toNat / 16) :: (b.toNat % 16 * 4 + c.toNat / 64) ::
      (c.toNat % 64) :: sextets rest

/-- How many `=` follow. -/
def padding : List Byte → ℕ
  | [] => 0
  | [_] => 2
  | [_, _] => 1
  | _ :: _ :: _ :: rest => padding rest

def encode (bytes : List Byte) : JSString :=
  (sextets bytes).map digit ++ List.replicate (padding bytes) pad

/-- The bytes that the bits make up; what is left over is dropped. -/
def pack : List ℕ → List Byte
  | w :: x :: y :: z :: rest =>
    .ofNat 8 (w * 4 + x / 16) :: .ofNat 8 (x % 16 * 16 + y / 4) :: .ofNat 8 (y % 4 * 64 + z) ::
      pack rest
  | [w, x, y] => [.ofNat 8 (w * 4 + x / 16), .ofNat 8 (x % 16 * 16 + y / 4)]
  | [w, x] => [.ofNat 8 (w * 4 + x / 16)]
  | [_] | [] => []

def decode (text : JSString) : List Byte :=
  pack ((text.takeWhile fun unit ↦ unit ≠ pad).filterMap value)

theorem value_digit {sextet : ℕ} (h : sextet < 64) :
    value (digit sextet) = some sextet ∧ digit sextet ≠ pad := by
  have hall : ∀ sextet : Fin 64, value (digit sextet) = some sextet.val ∧
      digit sextet ≠ pad := by decide
  exact hall ⟨sextet, h⟩

theorem sextets_lt (bytes : List Byte) : ∀ sextet ∈ sextets bytes, sextet < 64 := by
  induction bytes using sextets.induct with
  | case1 => simp [sextets]
  | case2 a =>
    have ha := a.isLt
    simp [sextets]
    omega
  | case3 a b =>
    have ha := a.isLt
    have hb := b.isLt
    simp [sextets]
    omega
  | case4 a b c rest ih =>
    have ha := a.isLt
    have hb := b.isLt
    have hc := c.isLt
    simp only [sextets, List.mem_cons]
    rintro sextet (rfl | rfl | rfl | rfl | hrest)
    · omega
    · omega
    · omega
    · omega
    · exact ih sextet hrest

theorem pack_sextets (bytes : List Byte) : pack (sextets bytes) = bytes := by
  induction bytes using sextets.induct with
  | case1 => rfl
  | case2 a =>
    have ha := a.isLt
    simp only [sextets, pack, List.cons.injEq, and_true]
    apply BitVec.eq_of_toNat_eq
    simp only [BitVec.toNat_ofNat]
    omega
  | case3 a b =>
    have ha := a.isLt
    have hb := b.isLt
    simp only [sextets, pack, List.cons.injEq, and_true]
    constructor
    all_goals
      apply BitVec.eq_of_toNat_eq
      simp only [BitVec.toNat_ofNat]
      omega
  | case4 a b c rest ih =>
    have ha := a.isLt
    have hb := b.isLt
    have hc := c.isLt
    simp only [sextets, pack, ih, List.cons.injEq, and_true]
    refine ⟨?_, ?_, ?_⟩
    all_goals
      apply BitVec.eq_of_toNat_eq
      simp only [BitVec.toNat_ofNat]
      omega

/-- The digits are what stands before the first `=`. -/
theorem takeWhile_encode (bytes : List Byte) :
    (encode bytes).takeWhile (fun unit ↦ unit ≠ pad) = (sextets bytes).map digit := by
  have hdigits : ∀ unit ∈ (sextets bytes).map digit, decide (unit ≠ pad) = true := by
    intro unit hunit
    obtain ⟨sextet, hsextet, rfl⟩ := List.mem_map.1 hunit
    exact decide_eq_true (value_digit (sextets_lt bytes sextet hsextet)).2
  rw [encode, List.takeWhile_append_of_pos hdigits, List.takeWhile_replicate]
  simp

/-- The round trip. -/
theorem decode_encode (bytes : List Byte) : decode (encode bytes) = bytes := by
  have hvalues : ((sextets bytes).map digit).filterMap value = sextets bytes := by
    rw [List.filterMap_map]
    calc
      (sextets bytes).filterMap (value ∘ digit) = (sextets bytes).filterMap some :=
        List.filterMap_congr fun sextet hsextet ↦
          (value_digit (sextets_lt bytes sextet hsextet)).1
      _ = sextets bytes := List.filterMap_some
  rw [decode, takeWhile_encode, hvalues, pack_sextets]

theorem encode_injective : Function.Injective encode :=
  Function.LeftInverse.injective decode_encode

end P2PApp.Base64
