import Mathlib.Algebra.BigOperators.Group.Finset.Piecewise
import Mathlib.Algebra.BigOperators.Ring.Finset
import Mathlib.Algebra.Order.BigOperators.Group.Finset
import P2PApp.Library.TokenBucket

/-!
# Traffic of several buckets

Calls of several sources, each of which keeps to a bucket of its own. Taken together they keep to a
bucket that is as large and refills as fast as all of these.
-/

namespace P2PApp.TokenBucket

variable {K : Type*} [Field K] [LinearOrder K] [IsStrictOrderedRing K] {σ : Type*} [DecidableEq σ]

omit [Field K] [LinearOrder K] [IsStrictOrderedRing K] in
/-- Every item belongs to one of the sources. -/
theorem length_eq_sum_filter {items : List (σ × K)} {sources : Finset σ}
    (hsources : ∀ item ∈ items, item.1 ∈ sources) :
    items.length = ∑ source ∈ sources, (items.filter fun item ↦ item.1 = source).length := by
  induction items with
  | nil => simp
  | cons item items ih =>
    have hitem : item.1 ∈ sources := hsources item List.mem_cons_self
    have hrest := ih fun other hother ↦ hsources other (List.mem_cons_of_mem _ hother)
    have hcons (source : σ) : ((item :: items).filter fun item ↦ item.1 = source).length =
        (items.filter fun item ↦ item.1 = source).length + if item.1 = source then 1 else 0 := by
      rw [List.filter_cons]
      by_cases h : item.1 = source
      · simp [h]
      · simp [h]
    simp only [hcons]
    rw [Finset.sum_add_distrib, ← hrest, Finset.sum_ite_eq, if_pos hitem, List.length_cons]

omit [Field K] [IsStrictOrderedRing K] [DecidableEq σ] in
/-- The items between two positions lie in the window between their times. -/
theorem length_between_le {items : List (σ × K)}
    (hordered : items.Pairwise fun earlier later ↦ earlier.2 ≤ later.2) {first last : ℕ}
    (hfirst : first ≤ last) (hlast : last < items.length) :
    last - first + 1 ≤ (items.filter fun item ↦
      items[first].2 ≤ item.2 ∧ item.2 ≤ items[last].2).length := by
  have hinside : ∀ item ∈ (items.drop first).take (last - first + 1),
      decide (items[first].2 ≤ item.2 ∧ item.2 ≤ items[last].2) = true := by
    intro item hitem
    obtain ⟨offset, hoffset, rfl⟩ := List.mem_take_iff_getElem.1 hitem
    rw [List.length_drop] at hoffset
    rw [List.getElem_drop]
    have hle {position later : ℕ} (hlater : later < items.length) (h : position ≤ later) :
        items[position].2 ≤ items[later].2 := by
      rcases h.lt_or_eq with hlt | rfl
      · exact List.pairwise_iff_getElem.1 hordered position later (by omega) hlater hlt
      · exact le_refl _
    exact decide_eq_true ⟨hle (by omega) (by omega), hle hlast (by omega)⟩
  have hsublist : ((items.drop first).take (last - first + 1)).Sublist items :=
    (List.take_sublist _ _).trans (List.drop_sublist _ _)
  have hlength : ((items.drop first).take (last - first + 1)).length = last - first + 1 := by
    rw [List.length_take, List.length_drop]
    omega
  have hle := (hsublist.filter fun item ↦
    decide (items[first].2 ≤ item.2 ∧ item.2 ≤ items[last].2)).length_le
  rwa [List.filter_eq_self.2 hinside, hlength] at hle

/-- The merged traffic keeps to a bucket with the sum of the capacities and of the rates. -/
theorem Spaced.merge {capacity rate : K} {items : List (σ × K)} {sources : Finset σ}
    (hspaced : ∀ source ∈ sources,
      Spaced capacity rate ((items.filter fun item ↦ item.1 = source).map Prod.snd))
    (hsources : ∀ item ∈ items, item.1 ∈ sources)
    (hordered : items.Pairwise fun earlier later ↦ earlier.2 ≤ later.2)
    (hcapacity : 0 ≤ capacity) (hrate : 0 ≤ rate) :
    Spaced (sources.card * capacity) (sources.card * rate) (items.map Prod.snd) := by
  intro last hlast first hfirst
  rw [List.length_map] at hlast
  rw [List.getElem_map, List.getElem_map]
  have hwindow : items[first].2 ≤ items[last].2 := by
    rcases hfirst.lt_or_eq with hlt | rfl
    · exact List.pairwise_iff_getElem.1 hordered first last (by omega) hlast hlt
    · exact le_refl _
  have hsource (source : σ) (hmem : source ∈ sources) :
      ((((items.filter fun item ↦ items[first].2 ≤ item.2 ∧ item.2 ≤ items[last].2).filter
        fun item ↦ item.1 = source).length : ℕ) : K) ≤
          capacity + rate * (items[last].2 - items[first].2) := by
    have hcomm : (items.filter fun item ↦
        items[first].2 ≤ item.2 ∧ item.2 ≤ items[last].2).filter (fun item ↦ item.1 = source) =
          (items.filter fun item ↦ item.1 = source).filter fun item ↦
            items[first].2 ≤ item.2 ∧ item.2 ≤ items[last].2 := by
      rw [List.filter_filter, List.filter_filter]
      exact List.filter_congr fun item _ ↦ Bool.and_comm _ _
    have hfew := (hspaced source hmem).length_filter_le hcapacity hrate hwindow
    rw [List.filter_map, List.length_map] at hfew
    rw [hcomm]
    exact hfew
  calc ((last - first : ℕ) : K) + 1
      = ((last - first + 1 : ℕ) : K) := by push_cast; rfl
    _ ≤ ((items.filter fun item ↦
          items[first].2 ≤ item.2 ∧ item.2 ≤ items[last].2).length : K) :=
        Nat.cast_le.2 (length_between_le hordered hfirst hlast)
    _ = ∑ source ∈ sources, ((((items.filter fun item ↦
          items[first].2 ≤ item.2 ∧ item.2 ≤ items[last].2).filter
            fun item ↦ item.1 = source).length : ℕ) : K) := by
        rw [length_eq_sum_filter fun item hitem ↦ hsources item (List.mem_of_mem_filter hitem),
          Nat.cast_sum]
    _ ≤ ∑ _source ∈ sources, (capacity + rate * (items[last].2 - items[first].2)) :=
        Finset.sum_le_sum hsource
    _ = sources.card * capacity + sources.card * rate * (items[last].2 - items[first].2) := by
        rw [Finset.sum_const, nsmul_eq_mul]
        ring

/-- A larger bucket that refills faster admits what a smaller one does. -/
theorem Spaced.mono {capacity rate capacity' rate' : K} {times : List K}
    (h : Spaced capacity rate times) (hordered : times.Pairwise (· ≤ ·))
    (hcapacity : capacity ≤ capacity') (hrate : rate ≤ rate') : Spaced capacity' rate' times := by
  intro last hlast first hfirst
  have hpair := h last hlast first hfirst
  have htimes : times[first] ≤ times[last] := by
    rcases hfirst.lt_or_eq with hlt | rfl
    · exact List.pairwise_iff_getElem.1 hordered first last (by omega) hlast hlt
    · exact le_refl _
  have hflow : rate * (times[last] - times[first]) ≤ rate' * (times[last] - times[first]) :=
    mul_le_mul_of_nonneg_right hrate (sub_nonneg.2 htimes)
  linarith

omit [IsStrictOrderedRing K] in
/-- A delay that is the same for all calls does not matter. -/
theorem Spaced.map_add {capacity rate : K} {times : List K} (h : Spaced capacity rate times)
    (delay : K) : Spaced capacity rate (times.map (· + delay)) := by
  intro last hlast first hfirst
  rw [List.length_map] at hlast
  rw [List.getElem_map, List.getElem_map, add_sub_add_right_eq_sub]
  exact h last hlast first hfirst

end P2PApp.TokenBucket
