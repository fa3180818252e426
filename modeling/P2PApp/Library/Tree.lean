import Mathlib.Combinatorics.SimpleGraph.Acyclic
import Mathlib.Combinatorics.SimpleGraph.Metric

/-!
# Ways through a tree

Who moves to a closer neighbour as long as there is one arrives. In a tree there is only one closer
neighbour, and a way without repetition is as long as the distance of its ends.
-/

namespace P2PApp

variable {V : Type*} {graph : SimpleGraph V}

/-- What a step towards a vertex keeps holds at the vertex. -/
theorem descend (hconnected : graph.Connected) {target : V} {property : V → Prop}
    (hstep : ∀ vertex next, graph.Adj vertex next →
      graph.dist next target < graph.dist vertex target → property vertex → property next)
    {start : V} (hstart : property start) : property target := by
  obtain ⟨walk, hwalk⟩ := hconnected.exists_walk_length_eq_dist start target
  induction walk with
  | nil => exact hstart
  | @cons vertex next target hadj walk ih =>
    have hshort := SimpleGraph.dist_le walk
    rw [SimpleGraph.Walk.length_cons] at hwalk
    have htriangle : graph.dist vertex target ≤ graph.dist vertex next + graph.dist next target :=
      hconnected.dist_triangle
    rw [SimpleGraph.dist_eq_one_iff_adj.2 hadj] at htriangle
    have hcloser : graph.dist next target < graph.dist vertex target := by omega
    exact ih hstep (hstep vertex next hadj hcloser hstart) (by omega)

/-- A step to a closer vertex and a shortest way from there make a path. -/
theorem exists_path_of_closer (hconnected : graph.Connected) {vertex next target : V}
    (hadj : graph.Adj vertex next)
    (hcloser : graph.dist next target < graph.dist vertex target) :
    ∃ path : graph.Walk vertex target, path.IsPath ∧ path.snd = next := by
  obtain ⟨walk, hwalk⟩ := hconnected.exists_walk_length_eq_dist next target
  refine ⟨.cons hadj walk, SimpleGraph.Walk.isPath_of_length_eq_dist _ ?_, ?_⟩
  · have hshort := SimpleGraph.dist_le (SimpleGraph.Walk.cons hadj walk)
    rw [SimpleGraph.Walk.length_cons] at hshort ⊢
    omega
  · exact SimpleGraph.Walk.snd_cons ..

/-- In a tree only one neighbour is closer. -/
theorem eq_of_closer (htree : graph.IsTree) {vertex first second target : V}
    (hfirst : graph.Adj vertex first) (hsecond : graph.Adj vertex second)
    (hfirstCloser : graph.dist first target < graph.dist vertex target)
    (hsecondCloser : graph.dist second target < graph.dist vertex target) : first = second := by
  obtain ⟨path, hpath, rfl⟩ := exists_path_of_closer htree.connected hfirst hfirstCloser
  obtain ⟨other, hother, rfl⟩ := exists_path_of_closer htree.connected hsecond hsecondCloser
  rw [(htree.existsUnique_path vertex target).unique hpath hother]

/-- In a tree a chain without repetition is a shortest way. -/
theorem length_chain (htree : graph.IsTree) {chain : List V} {first last : V}
    (hchain : chain.IsChain graph.Adj) (hnodup : chain.Nodup) (hfirst : chain.head? = some first)
    (hlast : chain.getLast? = some last) : chain.length = graph.dist first last + 1 := by
  have hne : chain ≠ [] := by
    rintro rfl
    cases hfirst
  obtain rfl : chain.head hne = first :=
    Option.some.inj ((List.head?_eq_some_head hne).symm.trans hfirst)
  obtain rfl : chain.getLast hne = last :=
    Option.some.inj ((List.getLast?_eq_some_getLast hne).symm.trans hlast)
  have hpath : (SimpleGraph.Walk.ofSupport chain hne hchain).IsPath := by
    rw [SimpleGraph.Walk.isPath_def, SimpleGraph.Walk.support_ofSupport]
    exact hnodup
  obtain ⟨shortest, hshortest, hlength⟩ :=
    htree.connected.exists_path_of_dist (chain.head hne) (chain.getLast hne)
  have hsame := (htree.existsUnique_path _ _).unique hpath hshortest
  have hpositive := List.length_pos_of_ne_nil hne
  rw [← hlength, ← hsame, SimpleGraph.Walk.length_ofSupport]
  omega

end P2PApp
