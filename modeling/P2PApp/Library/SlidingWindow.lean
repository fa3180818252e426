import Mathlib.Data.List.Basic
import Mathlib.Data.List.Pairwise

/-!
# Sliding windows over a sequence of times

What of a sequence of times lies within some distance of the present. A list from which stale times
are dropped as new ones come in is the window of the whole sequence, as long as the times come in
order: what was dropped once is stale for good.
-/

namespace P2PApp.SlidingWindow

/-- The times that are no further back than the width of the window. -/
def window (width now : ℕ) (times : List ℕ) : List ℕ := times.filter fun time ↦ now ≤ time + width

/-- Append the present and drop from the front what has left the window. -/
def push (width : ℕ) (kept : List ℕ) (now : ℕ) : List ℕ :=
  (kept ++ [now]).dropWhile fun time ↦ time + width < now

theorem window_window {width earlier now : ℕ} (h : earlier ≤ now) (times : List ℕ) :
    window width now (window width earlier times) = window width now times := by
  unfold window
  rw [List.filter_filter]
  refine List.filter_congr fun time _ ↦ ?_
  rw [← Bool.decide_and]
  exact decide_eq_decide.2 ⟨fun h ↦ h.1, fun hnow ↦ ⟨hnow, Nat.le_trans h hnow⟩⟩

/-- In order, the stale times are those at the front. -/
theorem dropWhile_eq_window {width now : ℕ} {times : List ℕ} (h : times.Pairwise (· ≤ ·)) :
    times.dropWhile (fun time ↦ time + width < now) = window width now times := by
  induction times with
  | nil => rfl
  | cons time times ih =>
    obtain ⟨hfirst, hrest⟩ := List.pairwise_cons.1 h
    by_cases hstale : time + width < now
    · rw [List.dropWhile_cons_of_pos (by simpa using hstale), ih hrest, window, window,
        List.filter_cons_of_neg (by simpa using hstale)]
    · rw [List.dropWhile_cons_of_neg (by simpa using hstale), window, eq_comm]
      refine List.filter_eq_self.2 fun other hother ↦ ?_
      have hle : time ≤ other := by
        rcases List.mem_cons.1 hother with rfl | hother
        · exact Nat.le_refl _
        · exact hfirst other hother
      rw [decide_eq_true_eq]
      omega

/-- The list that is pruned at each arrival is the window of everything that has arrived. -/
theorem push_window {width latest now : ℕ} {times : List ℕ} (hlatest : latest ≤ now)
    (h : (times ++ [now]).Pairwise (· ≤ ·)) :
    push width (window width latest times) now = window width now (times ++ [now]) := by
  have hsub : (window width latest times ++ [now]).Sublist (times ++ [now]) :=
    List.filter_sublist.append_right _
  calc
    _ = window width now (window width latest times ++ [now]) :=
      dropWhile_eq_window (h.sublist hsub)
    _ = window width now (window width latest times) ++ window width now [now] :=
      List.filter_append ..
    _ = window width now times ++ window width now [now] := by rw [window_window hlatest]
    _ = _ := (List.filter_append ..).symm

/-- A time of a sequence in order is within the window of its end if it lies between both edges. -/
theorem window_eq_filter {width now : ℕ} {times : List ℕ} (h : ∀ time ∈ times, time ≤ now) :
    window width now times = times.filter fun time ↦ now ≤ time + width ∧ time ≤ now := by
  refine List.filter_congr fun time htime ↦ ?_
  exact decide_eq_decide.2 (and_iff_left (h time htime)).symm

end P2PApp.SlidingWindow
