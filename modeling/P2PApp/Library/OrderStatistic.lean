import Mathlib.Data.List.Sort
import Mathlib.Data.List.Nodup

/-!
# Order statistics

What stands at a position of a sorted list, said without sorting: how many values are at most as
large, and how many at least. For a whole list that determines the value; a sample passes the two
counts on to what it was drawn from.
-/

namespace P2PApp

variable {α : Type*} [LinearOrder α]

/-- At least `rank + 1` values do not exceed this one, and at least `total - rank` are not below
it. -/
structure AtRank (values : List α) (total rank : ℕ) (value : α) : Prop where
  mem : value ∈ values
  atMost : rank < values.countP fun other ↦ other ≤ value
  atLeast : total - rank ≤ values.countP fun other ↦ value ≤ other

namespace AtRank

variable {values : List α} {rank : ℕ}

/-- What a sorted list has at a position. -/
theorem of_sorted (h : values.Pairwise (· ≤ ·)) (hrank : rank < values.length) :
    AtRank values values.length rank values[rank] where
  mem := List.getElem_mem hrank
  atMost := by
    have hprefix : ∀ other ∈ values.take (rank + 1), decide (other ≤ values[rank]) = true := by
      intro other hother
      obtain ⟨index, hindex, rfl⟩ := List.mem_take_iff_getElem.1 hother
      apply decide_eq_true
      have hle : index ≤ rank := by omega
      rcases hle.lt_or_eq with hlt | rfl
      · exact List.pairwise_iff_getElem.1 h index rank (by omega) hrank hlt
      · exact le_refl _
    have hcount := (List.take_sublist (rank + 1) values).countP_le (p := (· ≤ values[rank]))
    rw [List.countP_eq_length.2 hprefix, List.length_take] at hcount
    omega
  atLeast := by
    have hsuffix : ∀ other ∈ values.drop rank, decide (values[rank] ≤ other) = true := by
      intro other hother
      obtain ⟨index, hindex, rfl⟩ := List.mem_drop_iff_getElem.1 hother
      apply decide_eq_true
      rcases Nat.eq_zero_or_pos index with rfl | hpos
      · exact le_refl _
      · exact List.pairwise_iff_getElem.1 h rank (rank + index) hrank (by omega) (by omega)
    have hcount := (List.drop_sublist rank values).countP_le (p := (values[rank] ≤ ·))
    rw [List.countP_eq_length.2 hsuffix, List.length_drop] at hcount
    exact hcount

/-- A sample passes its counts on. -/
theorem of_subperm {more : List α} {total : ℕ} {value : α} (h : AtRank values total rank value)
    (hsample : List.Subperm values more) : AtRank more total rank value where
  mem := hsample.subset h.mem
  atMost := h.atMost.trans_le (hsample.countP_le _)
  atLeast := h.atLeast.trans (hsample.countP_le _)

/-- In a whole list the values increase with the rank. -/
theorem le_of_rank_le {rank' : ℕ} {value value' : α} (h : AtRank values values.length rank value)
    (h' : AtRank values values.length rank' value') (hrank : rank ≤ rank') : value ≤ value' := by
  by_contra hlt
  have hdisjoint : (values.countP fun other ↦ other ≤ value') ≤
      values.countP fun other ↦ ¬decide (value ≤ other) = true := by
    apply List.countP_mono_left
    intro other _ hle
    have hbelow : other < value := (of_decide_eq_true hle).trans_lt (not_le.1 hlt)
    simpa using hbelow
  have hall := @List.length_eq_countP_add_countP α (fun other ↦ decide (value ≤ other)) values
  have hfew : (values.countP fun other ↦ value ≤ other) ≤ values.length := List.countP_le_length
  have hmost := h'.atMost
  have hleast := h.atLeast
  omega

/-- A whole list determines what it has at a rank. -/
theorem unique {value value' : α} (h : AtRank values values.length rank value)
    (h' : AtRank values values.length rank value') : value = value' :=
  le_antisymm (h.le_of_rank_le h' le_rfl) (h'.le_of_rank_le h le_rfl)

end AtRank

/-! ## The last ones of a list in strict order -/

section Last

variable {β : Type*} {key : β → α} {items : List β}

/-- In a list in strict order of the keys, the items behind a position are those with larger
keys. -/
theorem countP_lt_getElem (h : items.Pairwise fun left right ↦ key left < key right) {index : ℕ}
    (hindex : index < items.length) :
    (items.countP fun other ↦ key items[index] < key other) = items.length - (index + 1) := by
  have hfront : ((items.take (index + 1)).countP fun other ↦ key items[index] < key other) = 0 := by
    rw [List.countP_eq_zero]
    intro other hother
    obtain ⟨position, hposition, rfl⟩ := List.mem_take_iff_getElem.1 hother
    rw [decide_eq_true_iff, not_lt]
    have hle : position ≤ index := by omega
    rcases hle.lt_or_eq with hlt | rfl
    · exact (List.pairwise_iff_getElem.1 h position index (by omega) hindex hlt).le
    · exact le_refl _
  have hback : ((items.drop (index + 1)).countP fun other ↦ key items[index] < key other) =
      (items.drop (index + 1)).length := by
    rw [List.countP_eq_length]
    intro other hother
    obtain ⟨position, hposition, rfl⟩ := List.mem_drop_iff_getElem.1 hother
    apply decide_eq_true
    exact List.pairwise_iff_getElem.1 h index (index + 1 + position) hindex (by omega) (by omega)
  calc (items.countP fun other ↦ key items[index] < key other)
      = ((items.take (index + 1)).countP fun other ↦ key items[index] < key other) +
          (items.drop (index + 1)).countP fun other ↦ key items[index] < key other := by
        rw [← List.countP_append, List.take_append_drop]
    _ = items.length - (index + 1) := by rw [hfront, hback, List.length_drop, Nat.zero_add]

/-- The last `count` items are those with fewer than `count` behind them. -/
theorem mem_drop_length_sub_iff (h : items.Pairwise fun left right ↦ key left < key right)
    (count : ℕ) (item : β) :
    item ∈ items.drop (items.length - count) ↔
      item ∈ items ∧ (items.countP fun other ↦ key item < key other) < count := by
  constructor
  · intro hmem
    obtain ⟨offset, hoffset, rfl⟩ := List.mem_drop_iff_getElem.1 hmem
    refine ⟨List.getElem_mem _, ?_⟩
    rw [countP_lt_getElem h]
    omega
  · rintro ⟨hmem, hfew⟩
    obtain ⟨index, hindex, rfl⟩ := List.getElem_of_mem hmem
    rw [countP_lt_getElem h] at hfew
    apply List.mem_drop_iff_getElem.2
    refine ⟨index - (items.length - count), by omega, ?_⟩
    congr 1
    omega

end Last

end P2PApp
