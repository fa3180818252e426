import Mathlib.Algebra.Group.Nat.Defs
import Mathlib.Algebra.Ring.Basic

/-!
# Multiplicative hashes

Hashes of the Fowler-Noll-Vo kind: one word after the other is added without carry and the sum
multiplied. With a multiplier that has an inverse nothing is lost on the way, so that two hashes
that differ keep differing under any common continuation.
-/

namespace P2PApp.Fnv

variable {w : ℕ}

def mix (multiplier hash word : BitVec w) : BitVec w := (hash ^^^ word) * multiplier

def hash (multiplier basis : BitVec w) (words : List (BitVec w)) : BitVec w :=
  words.foldl (mix multiplier) basis

@[simp] theorem hash_append (multiplier basis : BitVec w) (left right : List (BitVec w)) :
    hash multiplier basis (left ++ right) =
      hash multiplier (hash multiplier basis left) right := List.foldl_append ..

/-- The same in unsigned arithmetic. -/
theorem toNat_hash (multiplier basis : BitVec w) (words : List (BitVec w)) :
    (hash multiplier basis words).toNat =
      (words.map BitVec.toNat).foldl
        (fun hash word ↦ (hash ^^^ word) * multiplier.toNat % 2 ^ w) basis.toNat := by
  induction words generalizing basis with
  | nil => rfl
  | cons word words ih =>
    rw [hash, List.foldl_cons, ← hash, ih, List.map_cons, List.foldl_cons, mix, BitVec.toNat_mul,
      BitVec.toNat_xor]

variable {multiplier inverse : BitVec w} (hinverse : multiplier * inverse = 1#w)
include hinverse

theorem mul_inj {left right : BitVec w} :
    left * multiplier = right * multiplier ↔ left = right := by
  refine ⟨fun h ↦ ?_, fun h ↦ by rw [h]⟩
  have hmul := congrArg (· * inverse) h
  simpa only [BitVec.mul_assoc, hinverse, BitVec.mul_one] using hmul

theorem mix_inj {left right word : BitVec w} :
    mix multiplier left word = mix multiplier right word ↔ left = right := by
  rw [mix, mix, mul_inj hinverse, BitVec.xor_left_inj]

/-- A common continuation merges no two hashes. -/
theorem hash_inj {left right : BitVec w} (words : List (BitVec w)) :
    hash multiplier left words = hash multiplier right words ↔ left = right := by
  induction words generalizing left right with
  | nil => exact Iff.rfl
  | cons word words ih => exact ih.trans (mix_inj hinverse)

end P2PApp.Fnv
