import Mathlib.Data.List.GetD
import P2PApp.Library.OrderStatistic
import P2PApp.Metrics.Histogram

/-!
# Snapshots

`getSnapshot` reports three percentiles of every reservoir, read off the sorted samples. The index
`Math.floor((p / 100) * (sorted.length - 1))` is an integer quotient here. With the thousand
samples that a reservoir has at most, the floating-point index is the same.
-/

namespace P2PApp

structure Percentiles (Value : Type*) where
  p50 : Value
  p95 : Value
  p99 : Value

structure HistogramSnapshot (Value : Type*) extends Percentiles Value where
  count : ℕ

namespace Histograms

variable {Value : Type*}

/-- The collector of a process. -/
def collector : Histograms Value := new 1000

section Definitions

variable [LinearOrder Value] [Zero Value]

def getPercentile (sorted : List Value) (p : ℕ) : Value :=
  sorted.getD (p * (sorted.length - 1) / 100) 0

def calculatePercentiles (samples : List Value) : Percentiles Value :=
  if samples = [] then ⟨0, 0, 0⟩
  else
    let sorted := samples.insertionSort (· ≤ ·)
    ⟨getPercentile sorted 50, getPercentile sorted 95, getPercentile sorted 99⟩

/-- The part of the snapshot that is about the histograms. -/
def getSnapshot (histograms : Histograms Value) : OrderedMap String (HistogramSnapshot Value) :=
  histograms.histograms.mapValues fun _ histogram ↦
    { calculatePercentiles histogram.samples with count := histogram.count }

end Definitions

/-! ## The samples -/

/-- A name has a histogram from its first value on. -/
theorem get?_recordAll (size : ℕ) (draw : String → ℕ → ℕ) (calls : List (String × Value))
    (name : String) :
    ((new size).recordAll draw calls).histograms.get? name =
      if valuesOf name calls = [] then none
      else some (((new size).recordAll draw calls).histogramOf name) := by
  induction calls using List.reverseRecOn with
  | nil => rfl
  | append_singleton calls call ih =>
    rw [recordAll_concat, valuesOf_concat]
    by_cases hname : call.1 = name
    · subst hname
      rw [if_pos rfl, if_neg (by simp), histogramOf, record, OrderedMap.get?_set_self]
      rfl
    · rw [if_neg hname, List.append_nil, histogramOf_record, if_neg (Ne.symm hname), ← ih, record,
        OrderedMap.get?_set_of_ne _ _ (Ne.symm hname)]

/-- The reservoir of a name is a sample of its values. -/
theorem subperm_samples (size : ℕ) (draw : String → ℕ → ℕ) (calls : List (String × Value))
    (name : String) :
    List.Subperm (((new size).recordAll draw calls).histogramOf name).samples
      (valuesOf name calls) := by
  have hpositions : List.Subperm (Reservoir.positions size (draw name) (valuesOf name calls).length)
      (List.range (valuesOf name calls).length) := by
    apply List.subperm_of_subset (Reservoir.nodup_positions size (draw name) _)
    intro position hposition
    exact List.mem_range.2 (Reservoir.lt_of_mem_positions hposition)
  have hvalues : ((List.range (valuesOf name calls).length).map fun position ↦
      (valuesOf name calls)[position]?) = (valuesOf name calls).map some := by
    apply List.ext_getElem
    · simp
    · intro index hindex _
      simp at hindex ⊢
  obtain ⟨sample, hperm, hsublist⟩ := hpositions
  have hmapped := hperm.map fun position ↦ (valuesOf name calls)[position]?
  rw [← (histogramOf_recordAll size draw calls name).2] at hmapped
  have hwithin := hsublist.map fun position ↦ (valuesOf name calls)[position]?
  rw [hvalues] at hwithin
  refine ⟨_, (hmapped.filterMap id).trans ?_, (hwithin.filterMap id).trans ?_⟩
  · rw [List.filterMap_map]
    simp
  · rw [List.filterMap_map]
    simp

theorem length_samples (size : ℕ) (draw : String → ℕ → ℕ) (calls : List (String × Value))
    (name : String) :
    (((new size).recordAll draw calls).histogramOf name).samples.length =
      min (valuesOf name calls).length size := by
  have hlength := congrArg List.length (histogramOf_recordAll size draw calls name).2
  rwa [List.length_map, List.length_map, Reservoir.length_positions] at hlength

/-! ## The percentiles -/

section Percentiles

variable [LinearOrder Value] [Zero Value]

/-- A percentile is what the sorted samples have at its rank. -/
theorem atRank_getPercentile {samples : List Value} (hsamples : samples ≠ []) {p : ℕ}
    (hp : p ≤ 100) :
    AtRank samples samples.length (p * (samples.length - 1) / 100)
      (getPercentile (samples.insertionSort (· ≤ ·)) p) := by
  let sorted := samples.insertionSort (· ≤ ·)
  have hlength : sorted.length = samples.length := List.length_insertionSort ..
  have hpos : 0 < sorted.length := hlength ▸ List.length_pos_of_ne_nil hsamples
  have hrank : p * (sorted.length - 1) / 100 < sorted.length := by
    calc p * (sorted.length - 1) / 100 ≤ 100 * (sorted.length - 1) / 100 :=
          Nat.div_le_div_right (Nat.mul_le_mul_right _ hp)
      _ = sorted.length - 1 := Nat.mul_div_cancel_left _ (by decide)
      _ < sorted.length := Nat.sub_lt hpos Nat.one_pos
  have hat := AtRank.of_sorted (List.pairwise_insertionSort (· ≤ ·) samples) hrank
  rw [← hlength, getPercentile, List.getD_eq_getElem _ _ hrank]
  exact hat.of_subperm (List.perm_insertionSort _ samples).subperm

theorem getPercentile_le {samples : List Value} (hsamples : samples ≠ []) {p q : ℕ} (hpq : p ≤ q)
    (hq : q ≤ 100) :
    getPercentile (samples.insertionSort (· ≤ ·)) p ≤
      getPercentile (samples.insertionSort (· ≤ ·)) q := by
  apply (atRank_getPercentile hsamples (hpq.trans hq)).le_of_rank_le
    (atRank_getPercentile hsamples hq)
  exact Nat.div_le_div_right (Nat.mul_le_mul_right _ hpq)

/-- A value that is at the rank of a percentile among some thousand of the values, and as long as
there are no more of them the only one. -/
structure IsPercentile (values : List Value) (p : ℕ) (value : Value) : Prop where
  atRank : AtRank values (min values.length 1000) (p * (min values.length 1000 - 1) / 100) value
  unique : values.length ≤ 1000 → ∀ other,
    AtRank values values.length (p * (values.length - 1) / 100) other → other = value

theorem isPercentile_getPercentile {samples values : List Value} (hsamples : samples ≠ [])
    (hsample : List.Subperm samples values) (hlength : samples.length = min values.length 1000)
    {p : ℕ} (hp : p ≤ 100) :
    IsPercentile values p (getPercentile (samples.insertionSort (· ≤ ·)) p) := by
  have hat := (atRank_getPercentile hsamples hp).of_subperm hsample
  rw [hlength] at hat
  refine ⟨hat, fun hsmall other hother ↦ ?_⟩
  rw [Nat.min_eq_left hsmall] at hat
  exact hother.unique hat

/-- Whatever is recorded in whatever order, and whatever is drawn, the snapshot has an entry for
exactly the names with a value, with the number of the values and ordered percentiles of them. -/
theorem getSnapshot_recordAll (draw : String → ℕ → ℕ) (calls : List (String × Value))
    (name : String) :
    let values := valuesOf name calls
    match (collector.recordAll draw calls).getSnapshot.get? name with
    | none => values = []
    | some snapshot => values ≠ [] ∧ snapshot.count = values.length ∧
        snapshot.p50 ≤ snapshot.p95 ∧ snapshot.p95 ≤ snapshot.p99 ∧
        IsPercentile values 50 snapshot.p50 ∧ IsPercentile values 95 snapshot.p95 ∧
        IsPercentile values 99 snapshot.p99 := by
  dsimp only
  rw [getSnapshot, OrderedMap.get?_mapValues, collector, get?_recordAll]
  by_cases hvalues : valuesOf name calls = []
  · rw [if_pos hvalues]
    exact hvalues
  · rw [if_neg hvalues]
    have hsample := subperm_samples 1000 draw calls name
    have hlength := length_samples 1000 draw calls name
    have hsamples : (((new 1000).recordAll draw calls).histogramOf name).samples ≠ [] := by
      apply List.ne_nil_of_length_pos
      rw [hlength]
      exact lt_min (List.length_pos_of_ne_nil hvalues) (by decide)
    simp only [Option.map_some, calculatePercentiles, if_neg hsamples]
    exact ⟨hvalues, (histogramOf_recordAll 1000 draw calls name).1,
      getPercentile_le hsamples (by decide) (by decide),
      getPercentile_le hsamples (by decide) (by decide),
      isPercentile_getPercentile hsamples hsample hlength (by decide),
      isPercentile_getPercentile hsamples hsample hlength (by decide),
      isPercentile_getPercentile hsamples hsample hlength (by decide)⟩

end Percentiles

end Histograms

end P2PApp
