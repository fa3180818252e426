import P2PApp.Library.OrderedMap
import P2PApp.Library.Reservoir

/-!
# Histograms

The histograms of the metrics collector. `record` counts all values of a histogram and keeps a
reservoir of them. `Math.floor(Math.random() * n)` is an outcome of a draw below `n`; the draws of
one histogram are told apart by `n`, as it counts the values.
-/

namespace P2PApp

structure Histogram (Value : Type*) where
  samples : List Value
  count : ℕ

structure Histograms (Value : Type*) where
  histograms : OrderedMap String (Histogram Value)
  RESERVOIR_SIZE : ℕ

namespace Histograms

variable {Value : Type*}

def new (RESERVOIR_SIZE : ℕ) : Histograms Value := ⟨∅, RESERVOIR_SIZE⟩

/-- The histogram of a name, which is created when it is missing. -/
def histogramOf (collector : Histograms Value) (name : String) : Histogram Value :=
  (collector.histograms.get? name).getD ⟨[], 0⟩

def record (collector : Histograms Value) (name : String) (value : Value) (draw : ℕ → ℕ) :
    Histograms Value :=
  let histogram := collector.histogramOf name
  let count := histogram.count + 1
  let samples :=
    if histogram.samples.length < collector.RESERVOIR_SIZE then histogram.samples ++ [value]
    else
      let randomIndex := draw count
      if randomIndex < collector.RESERVOIR_SIZE then histogram.samples.set randomIndex value
      else histogram.samples
  { collector with histograms := collector.histograms.set name ⟨samples, count⟩ }

/-- A sequence of calls, with the draws of each name. -/
def recordAll (collector : Histograms Value) (draw : String → ℕ → ℕ)
    (calls : List (String × Value)) : Histograms Value :=
  calls.foldl (fun collector call ↦ collector.record call.1 call.2 (draw call.1)) collector

/-- The values recorded under a name. -/
def valuesOf (name : String) (calls : List (String × Value)) : List Value :=
  calls.filterMap fun call ↦ if call.1 = name then some call.2 else none

/-- Which of `n` values are in which slots of the reservoir: what it holds after their positions
were recorded. -/
def slots (size : ℕ) (draw : ℕ → ℕ) (n : ℕ) : List ℕ :=
  (((new size).recordAll (fun _ ↦ draw) ((List.range n).map fun position ↦
    ("", position))).histogramOf "").samples

/-! ## The reservoir of a name -/

theorem histogramOf_record (collector : Histograms Value) (name other : String) (value : Value)
    (draw : ℕ → ℕ) :
    (collector.record name value draw).histogramOf other =
      if other = name then
        ⟨Reservoir.step collector.RESERVOIR_SIZE (collector.histogramOf name).samples value
          (draw ((collector.histogramOf name).count + 1)), (collector.histogramOf name).count + 1⟩
      else collector.histogramOf other := by
  rw [histogramOf, record, OrderedMap.get?_set]
  split
  · rfl
  · rfl

theorem size_recordAll (collector : Histograms Value) (draw : String → ℕ → ℕ)
    (calls : List (String × Value)) :
    (collector.recordAll draw calls).RESERVOIR_SIZE = collector.RESERVOIR_SIZE := by
  induction calls generalizing collector with
  | nil => rfl
  | cons call calls ih => exact ih _

theorem recordAll_concat (collector : Histograms Value) (draw : String → ℕ → ℕ)
    (calls : List (String × Value)) (call : String × Value) :
    collector.recordAll draw (calls ++ [call]) =
      (collector.recordAll draw calls).record call.1 call.2 (draw call.1) :=
  List.foldl_concat ..

theorem valuesOf_concat (name : String) (calls : List (String × Value)) (call : String × Value) :
    valuesOf name (calls ++ [call]) =
      valuesOf name calls ++ if call.1 = name then [call.2] else [] := by
  rw [valuesOf, List.filterMap_append, valuesOf]
  by_cases h : call.1 = name
  · simp [h]
  · simp [h]

/-- A histogram counts its values, and its reservoir holds those at the drawn positions. -/
theorem histogramOf_recordAll (size : ℕ) (draw : String → ℕ → ℕ) (calls : List (String × Value))
    (name : String) :
    (((new size).recordAll draw calls).histogramOf name).count = (valuesOf name calls).length ∧
      (((new size).recordAll draw calls).histogramOf name).samples.map some =
        (Reservoir.positions size (draw name) (valuesOf name calls).length).map fun position ↦
          (valuesOf name calls)[position]? := by
  induction calls using List.reverseRecOn with
  | nil => exact ⟨rfl, rfl⟩
  | append_singleton calls call ih =>
    obtain ⟨hcount, hsamples⟩ := ih
    rw [recordAll_concat, histogramOf_record, size_recordAll, valuesOf_concat]
    by_cases hname : call.1 = name
    · subst hname
      rw [if_pos rfl, if_pos rfl, List.length_append, List.length_singleton]
      refine ⟨congrArg (· + 1) hcount, ?_⟩
      -- The positions that are in the reservoir already stand for the same values as before.
      have hold : (Reservoir.positions size (draw call.1) (valuesOf call.1 calls).length).map
          (fun position ↦ (valuesOf call.1 calls ++ [call.2])[position]?) =
            (Reservoir.positions size (draw call.1) (valuesOf call.1 calls).length).map
              fun position ↦ (valuesOf call.1 calls)[position]? :=
        List.map_congr_left fun position hposition ↦
          List.getElem?_append_left (Reservoir.lt_of_mem_positions hposition)
      rw [Reservoir.map_step, hsamples, hcount, Reservoir.positions, Reservoir.map_step, hold,
        List.getElem?_concat_length]
      rfl
    · rw [if_neg (Ne.symm hname), if_neg hname, List.append_nil]
      exact ⟨hcount, hsamples⟩

theorem valuesOf_map_same (name : String) (values : List Value) :
    valuesOf name (values.map fun value ↦ (name, value)) = values := by
  rw [valuesOf, List.filterMap_map]
  simp

/-- The slots are those of a reservoir. -/
theorem slots_eq_positions (size : ℕ) (draw : ℕ → ℕ) (n : ℕ) :
    slots size draw n = Reservoir.positions size draw n := by
  have hsamples := (histogramOf_recordAll size (fun _ ↦ draw)
    ((List.range n).map fun position ↦ ("", position)) "").2
  rw [valuesOf_map_same, List.length_range] at hsamples
  apply List.map_injective_iff.2 (Option.some_injective ℕ)
  refine hsamples.trans (List.map_congr_left fun position hposition ↦ ?_)
  rw [List.getElem?_range (Reservoir.lt_of_mem_positions hposition)]

/-- After any calls the reservoir of a name holds as many of its values as it has room for, each at
a position of its own; and once it is full, each of the values is in it after the same share of the
draw sequences. -/
theorem reservoir_uniform (size : ℕ) (calls : List (String × Value)) (name : String) :
    let values := valuesOf name calls
    (∀ draw : String → ℕ → ℕ,
      let samples := (((new size).recordAll draw calls).histogramOf name).samples
      samples.length = min values.length size ∧
        (slots size (draw name) values.length).Nodup ∧
        samples.map some = (slots size (draw name) values.length).map fun position ↦
          values[position]?) ∧
    (size ≤ values.length → ∀ position < values.length,
      ((Finset.univ.filter fun draws : Reservoir.Draws size (values.length - size) ↦
          position ∈ slots size draws.draw values.length).card : ℚ) /
        Fintype.card (Reservoir.Draws size (values.length - size)) = size / values.length) := by
  intro values
  constructor
  · intro draw samples
    obtain ⟨-, hsamples⟩ := histogramOf_recordAll size draw calls name
    have hlength := congrArg List.length hsamples
    rw [List.length_map, List.length_map, Reservoir.length_positions] at hlength
    rw [slots_eq_positions]
    exact ⟨hlength, Reservoir.nodup_positions size (draw name) _, hsamples⟩
  · intro hfull position hposition
    obtain ⟨m, hm⟩ := Nat.exists_eq_add_of_le hfull
    rw [hm, Nat.add_sub_cancel_left]
    simp only [slots_eq_positions]
    exact Reservoir.keeping_ratio (hm ▸ hposition)

/-- Three latencies and a reservoir of two. -/
theorem reservoir_uniform_latencies :
    ((Finset.univ.filter fun draws : Reservoir.Draws 2 1 ↦ 0 ∈ slots 2 draws.draw 3).card : ℚ) /
      Fintype.card (Reservoir.Draws 2 1) = 2 / 3 := by
  have huniform := @reservoir_uniform ℕ 2
    [("latency", 10), ("latency", 12), ("latency", 900)] "latency"
  exact huniform.2 (by decide) 0 (by decide)

end Histograms

end P2PApp
