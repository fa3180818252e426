import Mathlib.Combinatorics.SimpleGraph.Metric

/-!
# Layers of a graph

A breadth-first search has, after `n` rounds, seen the vertices within distance `n` of its source,
and its frontier are those at distance `n`. The neighbours of the frontier that were not seen yet
are the next layer. When a layer is empty, the search has seen the connected component of its
source.
-/

namespace P2PApp.BreadthFirst

variable {V : Type*} {G : SimpleGraph V} {source : V} {n : ℕ}

/-- The state of the search after `n` rounds. -/
structure Layered (G : SimpleGraph V) (source : V) (n : ℕ) (seen frontier : Set V) : Prop where
  mem_seen : ∀ v, v ∈ seen ↔ G.edist source v ≤ n
  mem_frontier : ∀ v, v ∈ frontier ↔ G.edist source v = n

theorem layered_zero : Layered G source 0 {source} {source} where
  mem_seen v := by
    rw [Set.mem_singleton_iff, Nat.cast_zero, nonpos_iff_eq_zero, SimpleGraph.edist_eq_zero_iff,
      eq_comm]
  mem_frontier v := by
    rw [Set.mem_singleton_iff, Nat.cast_zero, SimpleGraph.edist_eq_zero_iff, eq_comm]

theorem edist_le_of_adj {u v : V} (h : G.Adj u v) : G.edist source v ≤ G.edist source u + 1 := by
  calc
    G.edist source v ≤ G.edist source u + G.edist u v := SimpleGraph.edist_triangle
    _ = G.edist source u + 1 := by rw [SimpleGraph.edist_eq_one_iff_adj.2 h]

/-- A walk that is not empty has a last step. -/
theorem exists_concat {v : V} (walk : G.Walk source v) (h : walk.length = n + 1) :
    ∃ u, ∃ before : G.Walk source u, G.Adj u v ∧ before.length = n := by
  cases walk with
  | nil => cases h
  | cons hfirst rest =>
    obtain ⟨u, before, hadj, heq⟩ := SimpleGraph.Walk.exists_cons_eq_concat hfirst rest
    rw [heq, SimpleGraph.Walk.length_concat] at h
    exact ⟨u, before, hadj, Nat.succ.inj h⟩

/-- The next layer are the neighbours of this one that are not nearer. -/
theorem edist_eq_succ_iff {v : V} :
    G.edist source v = (n + 1 : ℕ) ↔
      ¬G.edist source v ≤ n ∧ ∃ u, G.edist source u = n ∧ G.Adj u v := by
  constructor
  · intro h
    refine ⟨fun hle ↦ ?_, ?_⟩
    · rw [h, Nat.cast_le] at hle
      omega
    · obtain ⟨walk, hlength⟩ := SimpleGraph.exists_walk_of_edist_eq_coe h
      obtain ⟨u, before, hadj, hbefore⟩ := exists_concat walk hlength
      have hnear : G.edist source u ≤ n := by
        rw [← hbefore]
        exact SimpleGraph.edist_le before
      refine ⟨u, le_antisymm hnear ?_, hadj⟩
      have hfar := @edist_le_of_adj _ G source _ _ hadj
      rw [h, Nat.cast_add, Nat.cast_one] at hfar
      exact (ENat.add_le_add_iff_right ENat.one_ne_top).1 hfar
  · rintro ⟨hfar, u, hu, hadj⟩
    have hnear := @edist_le_of_adj _ G source _ _ hadj
    rw [hu] at hnear
    rw [Nat.cast_add, Nat.cast_one]
    exact le_antisymm hnear (Order.add_one_le_of_lt (not_le.1 hfar))

/-- The round lemma. -/
theorem Layered.next {seen frontier : Set V} (h : Layered G source n seen frontier)
    {seen' frontier' : Set V}
    (hfrontier : ∀ v, v ∈ frontier' ↔ v ∉ seen ∧ ∃ u ∈ frontier, G.Adj u v)
    (hseen : ∀ v, v ∈ seen' ↔ v ∈ seen ∨ v ∈ frontier') :
    Layered G source (n + 1) seen' frontier' := by
  have hnext (v : V) : v ∈ frontier' ↔ G.edist source v = (n + 1 : ℕ) := by
    rw [hfrontier, edist_eq_succ_iff, h.mem_seen]
    simp only [h.mem_frontier]
  refine ⟨fun v ↦ ?_, hnext⟩
  rw [hseen, hnext, h.mem_seen, le_iff_lt_or_eq (b := ((n + 1 : ℕ) : ℕ∞)), Nat.cast_add,
    Nat.cast_one, ENat.lt_add_one_iff (ENat.natCast_ne_top n)]

/-- When the frontier is empty, everything that can be reached was seen. -/
theorem Layered.mem_seen_iff_reachable {seen frontier : Set V}
    (h : Layered G source n seen frontier) (hempty : frontier = ∅) (v : V) :
    v ∈ seen ↔ G.Reachable source v := by
  constructor
  · intro hv
    exact SimpleGraph.reachable_of_edist_ne_top
      (ne_top_of_le_ne_top (ENat.natCast_ne_top n) ((h.mem_seen v).1 hv))
  · intro hv
    rw [SimpleGraph.reachable_iff_reflTransGen] at hv
    induction hv with
    | refl =>
      rw [h.mem_seen, SimpleGraph.edist_self]
      exact bot_le
    | @tail u v _ hadj ih =>
      rw [h.mem_seen] at ih ⊢
      have hne : G.edist source u ≠ n := fun heq ↦ by
        have hmem := (h.mem_frontier u).2 heq
        rw [hempty] at hmem
        exact hmem
      exact (edist_le_of_adj hadj).trans (Order.add_one_le_of_lt (lt_of_le_of_ne ih hne))

end P2PApp.BreadthFirst
