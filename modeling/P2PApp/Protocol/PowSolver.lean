import Mathlib.Order.Bounds.Basic
import P2PApp.Protocol.PowAddon

/-!
# The solver of the fallback

`solvePuzzle` tries one nonce after the other and gives up behind `1000000`. It returns the number
zero then, which is also a nonce. The hash of an attempt is FNV-1a in unsigned words of 32 bits,
although it is computed in signed ones.
-/

namespace P2PApp.PowSolver

open JsonString PowAddon

/-- The loop from `nonce` on. -/
def jsSolveFrom (data : JSString) (difficulty nonce : ℕ) : ℕ :=
  let attempt := data ++ ascii (toString nonce)
  let hash := jsSimpleHash attempt
  if hash % difficulty = 0 then nonce
  else if 1000000 < nonce + 1 then 0
  else jsSolveFrom data difficulty (nonce + 1)
termination_by 1000000 - nonce

def jsSolvePuzzle (data : JSString) (difficulty : ℕ) : ℕ := jsSolveFrom data difficulty 0

/-- FNV-1a in unsigned arithmetic modulo `2 ^ 32`. -/
def fnv1a (codes : List ℕ) : ℕ :=
  codes.foldl (fun hash code ↦ (hash ^^^ code) * 16777619 % 2 ^ 32) 2166136261

/-- The code units of the data and of the decimal nonce behind it. -/
def attemptCodes (data : JSString) (nonce : ℕ) : List ℕ :=
  data.map BitVec.toNat ++ (toString nonce).toList.map Char.toNat

/-! ## The search -/

variable {data : JSString} {difficulty : ℕ}

theorem verifies_iff {nonce : ℕ} :
    jsVerifyPuzzle data difficulty nonce = true ↔
      jsSimpleHash (data ++ ascii (toString nonce)) % difficulty = 0 := beq_iff_eq

/-- From any nonce on the loop finds the first one that verifies, or returns zero. -/
theorem jsSolveFrom_spec {nonce : ℕ} (h : nonce ≤ 1000000) :
    (nonce ≤ jsSolveFrom data difficulty nonce ∧ jsSolveFrom data difficulty nonce ≤ 1000000 ∧
      jsVerifyPuzzle data difficulty (jsSolveFrom data difficulty nonce) = true ∧
      ∀ earlier, nonce ≤ earlier → earlier < jsSolveFrom data difficulty nonce →
        ¬jsVerifyPuzzle data difficulty earlier = true) ∨
    (jsSolveFrom data difficulty nonce = 0 ∧ ∀ later, nonce ≤ later → later ≤ 1000000 →
      ¬jsVerifyPuzzle data difficulty later = true) := by
  induction nonce using jsSolveFrom.induct data difficulty with
  | case1 nonce attempt hash hverifies =>
    rw [jsSolveFrom, if_pos hverifies]
    exact .inl ⟨le_rfl, h, verifies_iff.2 hverifies, fun earlier hlow hhigh ↦ by omega⟩
  | case2 nonce attempt hash hrejects hlast =>
    rw [jsSolveFrom, if_neg hrejects, if_pos hlast]
    refine .inr ⟨rfl, fun later hlow hhigh ↦ ?_⟩
    obtain rfl : later = nonce := by omega
    exact fun hverifies ↦ hrejects (verifies_iff.1 hverifies)
  | case3 nonce attempt hash hrejects hmore ih =>
    rw [jsSolveFrom, if_neg hrejects, if_neg hmore]
    have hnonce : ¬jsVerifyPuzzle data difficulty nonce = true :=
      fun hverifies ↦ hrejects (verifies_iff.1 hverifies)
    rcases ih (by omega) with ⟨hlow, hhigh, hverifies, hearlier⟩ | ⟨hzero, hlater⟩
    · refine .inl ⟨by omega, hhigh, hverifies, fun earlier hfrom hbelow ↦ ?_⟩
      rcases hfrom.eq_or_lt with rfl | hfurther
      · exact hnonce
      · exact hearlier earlier hfurther hbelow
    · refine .inr ⟨hzero, fun later hfrom hlast ↦ ?_⟩
      rcases hfrom.eq_or_lt with rfl | hfurther
      · exact hnonce
      · exact hlater later hfurther hlast

theorem jsSolvePuzzle_of_exists
    (h : ∃ nonce ≤ 1000000, jsVerifyPuzzle data difficulty nonce = true) :
    IsLeast {nonce | nonce ≤ 1000000 ∧ jsVerifyPuzzle data difficulty nonce = true}
      (jsSolvePuzzle data difficulty) := by
  obtain ⟨nonce, hle, hverifies⟩ := h
  rcases @jsSolveFrom_spec data difficulty 0 (Nat.zero_le _) with
    ⟨-, hhigh, hfound, hearlier⟩ | ⟨-, hnone⟩
  · refine ⟨⟨hhigh, hfound⟩, fun other hother ↦ ?_⟩
    by_contra hbelow
    exact hearlier other (Nat.zero_le _) (not_le.1 hbelow) hother.2
  · exact absurd hverifies (hnone nonce (Nat.zero_le _) hle)

theorem jsSolvePuzzle_of_forall_not
    (h : ∀ nonce ≤ 1000000, ¬jsVerifyPuzzle data difficulty nonce = true) :
    jsSolvePuzzle data difficulty = 0 := by
  rcases @jsSolveFrom_spec data difficulty 0 (Nat.zero_le _) with
    ⟨-, hhigh, hfound, -⟩ | ⟨hzero, -⟩
  · exact absurd hfound (h _ hhigh)
  · exact hzero

/-- On well-formed strings this is the solver as it is modelled elsewhere. -/
theorem jsSolvePuzzle_string (text : String) (difficulty : ℕ) :
    jsSolvePuzzle (text.toList.flatMap fun character ↦ Utf8.utf16 character.toNat) difficulty =
      Pow.solvePuzzle text difficulty := by
  have hdigits (nonce : ℕ) : ((toString nonce).toList.flatMap fun character ↦
      Utf8.utf16 character.toNat) = ascii (toString nonce) := by
    rw [ascii, List.map_eq_flatMap]
    refine List.flatMap_congr fun digit hdigit ↦ ?_
    have hlt := lt_of_mem_digits hdigit
    rw [Utf8.utf16, if_pos (by omega)]
  have hhash (nonce : ℕ) : jsSimpleHash ((text.toList.flatMap fun character ↦
      Utf8.utf16 character.toNat) ++ ascii (toString nonce)) =
        Pow.jsSimpleHash (text ++ toString nonce) := by
    rw [← hdigits, ← List.flatMap_append, ← String.toList_append, jsSimpleHash_string]
  have hloop (attempts nonce : ℕ) (h : nonce + attempts = 1000000) :
      jsSolveFrom (text.toList.flatMap fun character ↦ Utf8.utf16 character.toNat) difficulty
        nonce = Pow.solveLoop text difficulty (attempts + 1) nonce := by
    induction attempts generalizing nonce with
    | zero =>
      have hlast : 1000000 < nonce + 1 := by omega
      rw [jsSolveFrom, hhash, if_pos hlast]
      rfl
    | succ attempts ih =>
      have hmore : ¬1000000 < nonce + 1 := by omega
      rw [jsSolveFrom, hhash, if_neg hmore, ih (nonce + 1) (by omega)]
      rfl
  exact hloop 1000000 0 rfl

/-! ## The hash -/

theorem toNat_ascii_digits (nonce : ℕ) :
    (ascii (toString nonce)).map BitVec.toNat = (toString nonce).toList.map Char.toNat := by
  rw [ascii, List.map_map]
  refine List.map_congr_left fun digit hdigit ↦ ?_
  have hlt := lt_of_mem_digits hdigit
  rw [Function.comp_apply, BitVec.toNat_ofNat, Nat.mod_eq_of_lt (by omega)]

theorem jsSimpleHash_eq_fnv1a (data : JSString) (nonce : ℕ) :
    jsSimpleHash (data ++ ascii (toString nonce)) = fnv1a (attemptCodes data nonce) := by
  have hwords (units : JSString) :
      (units.map (BitVec.setWidth 32)).map BitVec.toNat = units.map BitVec.toNat := by
    rw [List.map_map]
    refine List.map_congr_left fun unit _ ↦ ?_
    have hlt := unit.isLt
    rw [Function.comp_apply, BitVec.toNat_setWidth, Nat.mod_eq_of_lt (by omega)]
  rw [jsSimpleHash_eq, Fnv.toNat_hash, hwords, List.map_append, toNat_ascii_digits]
  rfl

/-- The solver returns the least nonce up to `1000000` that the verifier accepts, and zero if there
is none; and the verifier accepts the nonces whose unsigned hash is a multiple of the difficulty. -/
theorem solver_correct (data : JSString) :
    ∀ difficulty, 1 ≤ difficulty →
      ((∃ nonce ≤ 1000000, jsVerifyPuzzle data difficulty nonce = true) →
        IsLeast {nonce | nonce ≤ 1000000 ∧ jsVerifyPuzzle data difficulty nonce = true}
          (jsSolvePuzzle data difficulty)) ∧
      ((∀ nonce ≤ 1000000, ¬jsVerifyPuzzle data difficulty nonce = true) →
        jsSolvePuzzle data difficulty = 0) ∧
      ∀ nonce, jsVerifyPuzzle data difficulty nonce = true ↔
        difficulty ∣ fnv1a (attemptCodes data nonce) := by
  intro difficulty _
  refine ⟨jsSolvePuzzle_of_exists, jsSolvePuzzle_of_forall_not, fun nonce ↦ ?_⟩
  rw [verifies_iff, jsSimpleHash_eq_fnv1a, Nat.dvd_iff_mod_eq_zero]

theorem solver_correct_advert :
    jsVerifyPuzzle (ascii "advert") Config.POW_DIFFICULTY
      (jsSolvePuzzle (ascii "advert") Config.POW_DIFFICULTY) = true := by
  have hsolver := solver_correct (ascii "advert") Config.POW_DIFFICULTY (by decide)
  have haccepts : jsVerifyPuzzle (ascii "advert") Config.POW_DIFFICULTY 450 = true := by
    decide +kernel
  exact (hsolver.1 ⟨450, by norm_num, haccepts⟩).1.2

end P2PApp.PowSolver
