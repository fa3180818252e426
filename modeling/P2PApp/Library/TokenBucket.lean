import Mathlib.Algebra.Order.Field.Basic
import Mathlib.Data.List.NodupEquivFin
import Mathlib.Tactic.Linarith
import Mathlib.Tactic.Ring

/-!
# Token buckets

A bucket of bounded capacity refills at a constant rate and every admitted call takes one token.
The recursive description follows the bucket call by call; the closed form bounds, for every pair
of calls, the number of calls between them by what the capacity and the elapsed time allow. The
two agree, so whether a whole sequence of calls is admitted can be read off its time stamps.
-/

namespace P2PApp.TokenBucket

variable {K : Type*} [Field K] [LinearOrder K] [IsStrictOrderedRing K]

/-- The level after `elapsed` units of time. -/
def refill (capacity rate level elapsed : K) : K := min capacity (level + rate * elapsed)

/-- The readings of a clock that never goes back, starting at `stamp`. -/
def latest (stamp : K) : List K → List K
  | [] => []
  | time :: times => max stamp time :: latest (max stamp time) times

/-- Every call finds at least one token, each call taking one. -/
def AdmitsAll (capacity rate : K) : (level stamp : K) → List K → Prop
  | _, _, [] => True
  | level, stamp, time :: times =>
    1 ≤ refill capacity rate level (time - stamp) ∧
      AdmitsAll capacity rate (refill capacity rate level (time - stamp) - 1) time times

/-- No group of consecutive calls exceeds what was in the bucket and what flowed in meanwhile. -/
def Fits (capacity rate level stamp : K) (times : List K) : Prop :=
  ∀ last (hlast : last < times.length),
    (last : K) + 1 ≤ level + rate * (times[last] - stamp) ∧
      ∀ first (hfirst : first ≤ last),
        ((last - first : ℕ) : K) + 1 ≤ capacity + rate * (times[last] - times[first])

omit [IsStrictOrderedRing K] in
theorem fits_nil (capacity rate level stamp : K) : Fits capacity rate level stamp [] := by
  intro last hlast
  simp at hlast

/-- The closed form splits off the first call exactly as the bucket does. -/
theorem fits_cons (capacity rate level stamp time : K) (times : List K) :
    Fits capacity rate level stamp (time :: times) ↔
      1 ≤ refill capacity rate level (time - stamp) ∧
        Fits capacity rate (refill capacity rate level (time - stamp) - 1) time times := by
  unfold Fits refill
  constructor
  · intro h
    refine ⟨?_, ?_⟩
    · have hfirst := h 0 (by simp)
      have hcapacity := hfirst.2 0 le_rfl
      simp only [List.getElem_cons_zero, Nat.cast_zero, zero_add, Nat.sub_self, sub_self,
        mul_zero, add_zero] at hfirst hcapacity
      exact le_min hcapacity hfirst.1
    · intro last hlast
      have hnext := h (last + 1) (by simpa using hlast)
      have hfromFirst := hnext.2 0 (by omega)
      simp only [List.getElem_cons_succ, List.getElem_cons_zero, Nat.sub_zero] at hnext hfromFirst
      push_cast at hnext hfromFirst
      refine ⟨?_, ?_⟩
      · have hwhole := hnext.1
        rcases min_choice capacity (level + rate * (time - stamp)) with hmin | hmin <;> rw [hmin]
        · linarith
        · linarith
      · intro first hfirst
        have hpair := hnext.2 (first + 1) (by omega)
        simpa only [List.getElem_cons_succ, Nat.add_sub_add_right] using hpair
  · rintro ⟨hfirst, hrest⟩ last hlast
    have hcapacity := hfirst.trans (min_le_left _ _)
    have hlevel := hfirst.trans (min_le_right _ _)
    cases last with
    | zero =>
      refine ⟨by simpa using hlevel, ?_⟩
      intro first hzero
      obtain rfl : first = 0 := by omega
      simpa using hcapacity
    | succ last =>
      have hlast' : last < times.length := by simpa using hlast
      obtain ⟨hwhole, hpairs⟩ := hrest last hlast'
      have hminCapacity := min_le_left capacity (level + rate * (time - stamp))
      have hminLevel := min_le_right capacity (level + rate * (time - stamp))
      simp only [List.getElem_cons_succ]
      push_cast
      refine ⟨by linarith, ?_⟩
      intro first hfirst'
      cases first with
      | zero =>
        simp only [List.getElem_cons_zero, Nat.sub_zero]
        push_cast
        linarith
      | succ first =>
        simpa only [List.getElem_cons_succ, Nat.add_sub_add_right] using
          hpairs first (by omega)

/-- The bucket admits a whole sequence exactly when the sequence fits. -/
theorem admitsAll_iff_fits (capacity rate level stamp : K) (times : List K) :
    AdmitsAll capacity rate level stamp times ↔ Fits capacity rate level stamp times := by
  induction times generalizing level stamp with
  | nil => exact ⟨fun _ ↦ fits_nil _ _ _ _, fun _ ↦ trivial⟩
  | cons time times ih => rw [fits_cons, AdmitsAll, ih]

/-! ## Windows

Whatever lies inside a window of time is a group of calls, and a group is bounded by the capacity
and by what flows in during the window. -/

/-- Between any two calls there is time for all the calls from the one to the other. -/
def Spaced (capacity rate : K) (times : List K) : Prop :=
  ∀ last (hlast : last < times.length) first (hfirst : first ≤ last),
    ((last - first : ℕ) : K) + 1 ≤ capacity + rate * (times[last] - times[first])

omit [IsStrictOrderedRing K] in
theorem Fits.spaced {capacity rate level stamp : K} {times : List K}
    (h : Fits capacity rate level stamp times) : Spaced capacity rate times :=
  fun last hlast first hfirst ↦ (h last hlast).2 first hfirst

/-- For a full bucket, only the calls themselves matter. -/
theorem Spaced.fits {capacity rate stamp : K} {times : List K} (h : Spaced capacity rate times)
    (hrate : 0 ≤ rate) (hstamp : ∀ time ∈ times, stamp ≤ time) :
    Fits capacity rate capacity stamp times := by
  intro last hlast
  refine ⟨?_, h last hlast⟩
  have hfirst : stamp ≤ times[0] := hstamp _ (List.getElem_mem _)
  have hflow : rate * (times[last] - times[0]) ≤ rate * (times[last] - stamp) :=
    mul_le_mul_of_nonneg_left (by linarith) hrate
  have hpair := h last hlast 0 (Nat.zero_le _)
  rw [Nat.sub_zero] at hpair
  linarith

/-- Some of the calls are no closer together than all of them. -/
theorem Spaced.sublist {capacity rate : K} {times some : List K} (h : Spaced capacity rate times)
    (hsub : some.Sublist times) : Spaced capacity rate some := by
  obtain ⟨place, hplace⟩ := List.sublist_iff_exists_fin_orderEmbedding_get_eq.1 hsub
  intro last hlast first hfirst
  have hgap (n : ℕ) (hn : n < some.length) : n - first ≤
      (place ⟨n, hn⟩ : ℕ) - place ⟨first, hfirst.trans_lt hlast⟩ := by
    induction n with
    | zero => simp
    | succ n ih =>
      rcases Nat.lt_or_ge n first with hlt | hge
      · omega
      · have hnext : (place ⟨n, by omega⟩ : ℕ) < place ⟨n + 1, hn⟩ :=
          place.strictMono (by simp)
        have hback : (place ⟨first, hfirst.trans_lt hlast⟩ : ℕ) ≤ place ⟨n, by omega⟩ :=
          place.monotone (by simpa using hge)
        have := ih (by omega)
        omega
  have hle : (place ⟨first, hfirst.trans_lt hlast⟩ : ℕ) ≤ place ⟨last, hlast⟩ :=
    place.monotone (by simpa using hfirst)
  have hpair := h (place ⟨last, hlast⟩) (place ⟨last, hlast⟩).isLt
    (place ⟨first, hfirst.trans_lt hlast⟩) hle
  have hcount : ((last - first : ℕ) : K) ≤
      ((place ⟨last, hlast⟩ - place ⟨first, hfirst.trans_lt hlast⟩ : ℕ) : K) :=
    Nat.cast_le.2 (hgap last hlast)
  have hlastTime := hplace ⟨last, hlast⟩
  have hfirstTime := hplace ⟨first, hfirst.trans_lt hlast⟩
  simp only [List.get_eq_getElem] at hlastTime hfirstTime
  rw [hlastTime, hfirstTime]
  linarith

/-- No more calls fall into a window than a full bucket and the inflow during it allow. -/
theorem Spaced.length_filter_le {capacity rate : K} {times : List K}
    (h : Spaced capacity rate times) (hcapacity : 0 ≤ capacity) (hrate : 0 ≤ rate) {s t : K}
    (hst : s ≤ t) :
    ((times.filter fun time ↦ s ≤ time ∧ time ≤ t).length : K) ≤ capacity + rate * (t - s) := by
  have hwindow := h.sublist (List.filter_sublist (p := fun time ↦ decide (s ≤ time ∧ time ≤ t)))
  have hmem (time) (htime : time ∈ times.filter fun time ↦ s ≤ time ∧ time ≤ t) :
      s ≤ time ∧ time ≤ t := by
    simpa using (List.mem_filter.1 htime).2
  generalize times.filter (fun time ↦ decide (s ≤ time ∧ time ≤ t)) = inside at hwindow hmem
  cases inside with
  | nil =>
    have := mul_nonneg hrate (sub_nonneg.2 hst)
    simpa using by linarith
  | cons first rest =>
    have hpair := hwindow rest.length (by simp) 0 (Nat.zero_le _)
    have hfirst := hmem first List.mem_cons_self
    have hlast := hmem _ (List.getElem_mem (l := first :: rest) (n := rest.length) (by simp))
    have hflow : rate * ((first :: rest)[rest.length] - (first :: rest)[0]) ≤ rate * (t - s) := by
      refine mul_le_mul_of_nonneg_left ?_ hrate
      rw [List.getElem_cons_zero]
      linarith [hfirst.1, hlast.2]
    rw [Nat.sub_zero] at hpair
    rw [List.length_cons]
    push_cast
    linarith

theorem refill_refill {capacity rate level first second : K} (hrate : 0 ≤ rate)
    (hsecond : 0 ≤ second) :
    refill capacity rate (refill capacity rate level first) second =
      refill capacity rate level (first + second) := by
  have hflow := mul_nonneg hrate hsecond
  unfold refill
  calc
    _ = min capacity (min (capacity + rate * second) (level + rate * first + rate * second)) := by
      rw [min_add_add_right]
    _ = min capacity (level + rate * first + rate * second) := by
      rw [← min_assoc, min_eq_left (by linarith : capacity ≤ capacity + rate * second)]
    _ = _ := by rw [mul_add, add_assoc]

/-- A refill ahead of time does not matter to the calls after it. -/
theorem admitsAll_refill {capacity rate level stamp now : K} {times : List K} (hrate : 0 ≤ rate)
    (hnow : ∀ time ∈ times, now ≤ time) :
    AdmitsAll capacity rate (refill capacity rate level (now - stamp)) now times ↔
      AdmitsAll capacity rate level stamp times := by
  cases times with
  | nil => rfl
  | cons time times =>
    have hle := sub_nonneg.2 (hnow time List.mem_cons_self)
    rw [AdmitsAll, AdmitsAll, refill_refill hrate hle]
    rw [show now - stamp + (time - now) = time - stamp by ring]

end P2PApp.TokenBucket
