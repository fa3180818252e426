import Mathlib.Algebra.BigOperators.Fin
import Mathlib.Algebra.BigOperators.Ring.Finset
import Mathlib.Data.Fintype.BigOperators
import Mathlib.Data.List.Nodup
import Mathlib.Data.Rat.Cast.Order
import Mathlib.Tactic.FieldSimp
import Mathlib.Tactic.Ring

/-!
# Reservoir sampling

A reservoir takes items while it has room. Every later item draws one of as many places as there
have been items, and takes the place if the reservoir has it. Items are told apart by their
positions; after every item all of the positions so far are in the reservoir equally often.
-/

namespace P2PApp.Reservoir

variable {α β : Type*}

def step (size : ℕ) (reservoir : List α) (item : α) (place : ℕ) : List α :=
  if reservoir.length < size then reservoir ++ [item]
  else if place < size then reservoir.set place item
  else reservoir

/-- The positions in the reservoir after `n` items, of which the `k`-th one draws `draw k`. -/
def positions (size : ℕ) (draw : ℕ → ℕ) : ℕ → List ℕ
  | 0 => []
  | n + 1 => step size (positions size draw n) n (draw (n + 1))

theorem map_step (f : α → β) (size : ℕ) (reservoir : List α) (item : α) (place : ℕ) :
    (step size reservoir item place).map f = step size (reservoir.map f) (f item) place := by
  unfold step
  rw [List.length_map]
  split_ifs
  · rw [List.map_append, List.map_singleton]
  · rw [List.map_set]
  · rfl

theorem length_positions (size : ℕ) (draw : ℕ → ℕ) (n : ℕ) :
    (positions size draw n).length = min n size := by
  induction n with
  | zero => exact (Nat.zero_min size).symm
  | succ n ih =>
    rw [positions, step, ih]
    split_ifs
    · rw [List.length_append, ih, List.length_singleton]
      omega
    · rw [List.length_set, ih]
      omega
    · rw [ih]
      omega

theorem lt_of_mem_positions {size : ℕ} {draw : ℕ → ℕ} {n position : ℕ}
    (h : position ∈ positions size draw n) : position < n := by
  induction n with
  | zero => cases h
  | succ n ih =>
    rw [positions, step] at h
    split_ifs at h
    · rcases List.mem_append.1 h with hold | hnew
      · exact (ih hold).trans (Nat.lt_succ_self n)
      · exact List.mem_singleton.1 hnew ▸ Nat.lt_succ_self n
    · rcases List.mem_or_eq_of_mem_set h with hold | rfl
      · exact (ih hold).trans (Nat.lt_succ_self n)
      · exact Nat.lt_succ_self _
    · exact (ih h).trans (Nat.lt_succ_self n)

theorem nodup_positions (size : ℕ) (draw : ℕ → ℕ) (n : ℕ) : (positions size draw n).Nodup := by
  induction n with
  | zero => exact List.nodup_nil
  | succ n ih =>
    have hfresh : n ∉ positions size draw n := fun h ↦ (lt_of_mem_positions h).false
    rw [positions, step]
    split_ifs
    · exact List.nodup_append.2 ⟨ih, List.nodup_singleton n, fun other hother last hlast ↦ by
        rintro rfl
        exact hfresh (List.mem_singleton.1 hlast ▸ hother)⟩
    · exact ih.set hfresh
    · exact ih

/-- Only the draws that are made matter. -/
theorem positions_congr {size : ℕ} {draw draw' : ℕ → ℕ} {n : ℕ}
    (h : ∀ k, size < k → k ≤ n → draw k = draw' k) :
    positions size draw n = positions size draw' n := by
  induction n with
  | zero => rfl
  | succ n ih =>
    rw [positions, positions, ih fun k hlow hhigh ↦ h k hlow (hhigh.trans (Nat.le_succ n))]
    by_cases hfull : size < n + 1
    · rw [h (n + 1) hfull le_rfl]
    · have hroom : (positions size draw' n).length < size := by
        rw [length_positions]
        omega
      rw [step, step, if_pos hroom, if_pos hroom]

theorem positions_of_le {size : ℕ} {draw : ℕ → ℕ} {n : ℕ} (h : n ≤ size) :
    positions size draw n = List.range n := by
  induction n with
  | zero => rfl
  | succ n ih =>
    have hbefore := ih (Nat.le_of_succ_le h)
    rw [positions, hbefore, step, List.length_range,
      if_pos (Nat.lt_of_succ_le h), List.range_succ]

/-! ## Draw sequences -/

/-- The draws of `m` items behind a full reservoir, each among the items so far. -/
abbrev Draws (size m : ℕ) : Type := (k : Fin m) → Fin (size + k + 1)

/-- The draw of the `n`-th item. -/
def Draws.draw {size m : ℕ} (draws : Draws size m) (n : ℕ) : ℕ :=
  if h : n - size - 1 < m then draws ⟨n - size - 1, h⟩ else 0

section Counting

variable {size m : ℕ}

theorem Draws.draw_eq (draws : Draws size m) (k : Fin m) :
    draws.draw (size + k + 1) = draws k := by
  have hindex : size + k + 1 - size - 1 = k := by omega
  rw [Draws.draw, dif_pos (by omega)]
  exact congrArg (fun k ↦ (draws k).val) (Fin.ext hindex)

/-- One more draw behind the others. -/
def Draws.snoc (draws : Draws size m) (last : Fin (size + m + 1)) : Draws size (m + 1) :=
  Fin.snoc (α := fun k : Fin (m + 1) ↦ Fin (size + k + 1)) draws last

theorem Draws.draw_snoc (draws : Draws size m) (last : Fin (size + m + 1)) {n : ℕ}
    (hlow : size < n) (hhigh : n ≤ size + m) : (draws.snoc last).draw n = draws.draw n := by
  obtain ⟨k, hk, rfl⟩ : ∃ k < m, n = size + k + 1 := ⟨n - size - 1, by omega, by omega⟩
  refine ((draws.snoc last).draw_eq (Fin.castSucc ⟨k, hk⟩)).trans ?_
  refine Eq.trans ?_ (draws.draw_eq ⟨k, hk⟩).symm
  exact congrArg Fin.val (Fin.snoc_castSucc _ _ _)

theorem Draws.draw_snoc_last (draws : Draws size m) (last : Fin (size + m + 1)) :
    (draws.snoc last).draw (size + m + 1) = last := by
  refine ((draws.snoc last).draw_eq (Fin.last m)).trans ?_
  exact congrArg Fin.val (Fin.snoc_last _ _)

theorem mem_set_iff_of_nodup [DecidableEq α] {items : List α} (hnodup : items.Nodup)
    {place : ℕ} {item other : α} (hne : other ≠ item) :
    other ∈ items.set place item ↔ other ∈ items ∧ items.idxOf other ≠ place := by
  constructor
  · intro h
    obtain ⟨index, hindex, rfl⟩ := List.mem_iff_getElem.1 h
    rw [List.length_set] at hindex
    by_cases hsame : place = index
    · subst hsame
      exact absurd (List.getElem_set_self _) hne
    · rw [List.getElem_set_of_ne hsame]
      refine ⟨List.getElem_mem hindex, ?_⟩
      rw [hnodup.idxOf_getElem]
      exact fun heq ↦ hsame heq.symm
  · rintro ⟨hmem, hindex⟩
    have hlt := List.idxOf_lt_length_of_mem hmem
    refine List.mem_of_getElem? (i := items.idxOf other) ?_
    rw [List.getElem?_set_ne (Ne.symm hindex), List.getElem?_eq_getElem hlt,
      List.getElem_idxOf hlt]

/-- A position stays in a full reservoir unless its place is drawn, and a new one gets in if the
reservoir has the place that it draws. -/
theorem mem_positions_succ {draw : ℕ → ℕ} {n position : ℕ} (hfull : size ≤ n) :
    position ∈ positions size draw (n + 1) ↔
      if position = n then draw (n + 1) < size
      else position ∈ positions size draw n ∧
        (positions size draw n).idxOf position ≠ draw (n + 1) := by
  have hlength : (positions size draw n).length = size := by
    rw [length_positions, Nat.min_eq_right hfull]
  have hfresh : n ∉ positions size draw n := fun h ↦ (lt_of_mem_positions h).false
  rw [positions, step, if_neg (by omega)]
  by_cases hplace : draw (n + 1) < size
  · rw [if_pos hplace]
    by_cases hnew : position = n
    · rw [if_pos hnew, hnew]
      exact iff_of_true (List.mem_set (hplace.trans_eq hlength.symm) n) hplace
    · rw [if_neg hnew]
      exact mem_set_iff_of_nodup (nodup_positions size draw n) hnew
  · rw [if_neg hplace]
    by_cases hnew : position = n
    · rw [if_pos hnew, hnew]
      exact iff_of_false hfresh hplace
    · rw [if_neg hnew]
      refine (and_iff_left_of_imp fun hmem ↦ ?_).symm
      have hlt := List.idxOf_lt_length_of_mem hmem
      omega

/-- The draws after which the position is in the reservoir. -/
def keeping (size m position : ℕ) : Finset (Draws size m) :=
  Finset.univ.filter fun draws ↦ position ∈ positions size draws.draw (size + m)

theorem card_draws_succ (size m : ℕ) :
    Fintype.card (Draws size (m + 1)) = Fintype.card (Draws size m) * (size + m + 1) := by
  rw [Fintype.card_pi, Fintype.card_pi, Fin.prod_univ_castSucc]
  simp

/-- The last draws that keep a position or let it in. -/
def lastDraws (draws : Draws size m) (position : ℕ) : Finset (Fin (size + m + 1)) :=
  Finset.univ.filter fun last ↦ position ∈ positions size (draws.snoc last).draw (size + m + 1)

theorem card_keeping_succ (size m position : ℕ) :
    (keeping size (m + 1) position).card =
      ∑ draws : Draws size m, (lastDraws draws position).card := by
  have hsplit := Equiv.sum_comp (Fin.snocEquiv fun k : Fin (m + 1) ↦ Fin (size + k + 1))
    fun draws ↦ if position ∈ positions size (Draws.draw draws) (size + m + 1) then 1 else 0
  rw [Fintype.sum_prod_type_right] at hsplit
  rw [keeping, Finset.card_filter]
  refine hsplit.symm.trans (Finset.sum_congr rfl fun draws _ ↦ ?_)
  rw [lastDraws, Finset.card_filter]
  rfl

theorem mem_lastDraws {draws : Draws size m} {position : ℕ} {last : Fin (size + m + 1)} :
    last ∈ lastDraws draws position ↔
      if position = size + m then last.val < size
      else position ∈ positions size draws.draw (size + m) ∧
        (positions size draws.draw (size + m)).idxOf position ≠ last := by
  have hbefore : positions size (draws.snoc last).draw (size + m) =
      positions size draws.draw (size + m) :=
    positions_congr fun n hlow hhigh ↦ draws.draw_snoc last hlow hhigh
  rw [lastDraws, Finset.mem_filter, mem_positions_succ (Nat.le_add_right size m), hbefore,
    draws.draw_snoc_last]
  simp

/-- The newest position is let in by as many draws as there are places. -/
theorem card_lastDraws_new (draws : Draws size m) :
    (lastDraws draws (size + m)).card = size := by
  have hlt : size < size + m + 1 := by omega
  have hdraws : lastDraws draws (size + m) = Finset.Iio ⟨size, hlt⟩ := by
    ext last
    rw [mem_lastDraws, if_pos rfl, Finset.mem_Iio, Fin.lt_def]
  rw [hdraws, Fin.card_Iio]

/-- Of an older position in the reservoir only one draw is the place. -/
theorem card_lastDraws_old (draws : Draws size m) {position : ℕ} (hold : position < size + m) :
    (lastDraws draws position).card =
      if position ∈ positions size draws.draw (size + m) then size + m else 0 := by
  split
  · rename_i hmem
    have hlt := List.idxOf_lt_length_of_mem hmem
    have hlength := length_positions size draws.draw (size + m)
    have hdraws : lastDraws draws position =
        Finset.univ.erase ⟨(positions size draws.draw (size + m)).idxOf position, by omega⟩ := by
      ext last
      rw [mem_lastDraws, if_neg hold.ne, Finset.mem_erase]
      simp [hmem, Fin.ext_iff, eq_comm]
    rw [hdraws, Finset.card_erase_of_mem (Finset.mem_univ _), Finset.card_univ, Fintype.card_fin,
      Nat.add_sub_cancel]
  · rename_i hmem
    rw [Finset.card_eq_zero, Finset.eq_empty_iff_forall_notMem]
    intro last hlast
    rw [mem_lastDraws, if_neg hold.ne] at hlast
    exact hmem hlast.1

/-- Every position is in the reservoir after the same share of the draw sequences. -/
theorem card_keeping {position : ℕ} (h : position < size + m) :
    (size + m) * (keeping size m position).card = size * Fintype.card (Draws size m) := by
  induction m with
  | zero =>
    have hall (draws : Draws size 0) : position ∈ positions size draws.draw (size + 0) := by
      rw [positions_of_le (by omega)]
      exact List.mem_range.2 h
    rw [keeping, Finset.filter_true_of_mem fun draws _ ↦ hall draws, Finset.card_univ]
    rfl
  | succ m ih =>
    rw [card_keeping_succ, card_draws_succ]
    rcases Nat.lt_succ_iff_lt_or_eq.1 h with hold | rfl
    · calc (size + (m + 1)) * ∑ draws : Draws size m, (lastDraws draws position).card
          = (size + (m + 1)) * ((keeping size m position).card * (size + m)) := by
            rw [Finset.sum_congr rfl fun draws _ ↦ card_lastDraws_old draws hold,
              ← Finset.sum_filter, Finset.sum_const, smul_eq_mul]
            rfl
        _ = (size + m) * (keeping size m position).card * (size + m + 1) := by ring
        _ = size * (Fintype.card (Draws size m) * (size + m + 1)) := by
            rw [ih hold, Nat.mul_assoc]
    · calc (size + (m + 1)) * ∑ draws : Draws size m, (lastDraws draws (size + m)).card
          = (size + (m + 1)) * (Fintype.card (Draws size m) * size) := by
            rw [Finset.sum_congr rfl fun draws _ ↦ card_lastDraws_new draws, Finset.sum_const,
              Finset.card_univ, smul_eq_mul]
        _ = size * (Fintype.card (Draws size m) * (size + m + 1)) := by ring

/-- The share of the draw sequences after which a position is in the reservoir. -/
theorem keeping_ratio {position : ℕ} (h : position < size + m) :
    ((keeping size m position).card : ℚ) / Fintype.card (Draws size m) =
      size / (size + m : ℕ) := by
  have hcard : (Fintype.card (Draws size m) : ℚ) ≠ 0 := by
    rw [Nat.cast_ne_zero]
    exact Fintype.card_ne_zero
  have htotal : ((size + m : ℕ) : ℚ) ≠ 0 := by
    rw [Nat.cast_ne_zero]
    omega
  rw [div_eq_div_iff hcard htotal]
  have hmul := card_keeping h
  calc ((keeping size m position).card : ℚ) * (size + m : ℕ)
      = ((size + m) * (keeping size m position).card : ℕ) := by push_cast; ring
    _ = (size : ℚ) * Fintype.card (Draws size m) := by rw [hmul]; push_cast; ring

end Counting

end P2PApp.Reservoir
