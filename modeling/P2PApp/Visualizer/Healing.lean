import Mathlib.Data.Finset.Sort
import P2PApp.Library.TransitionSystem
import P2PApp.Visualizer.CorrectSpread

/-!
# Healing the simulated network

When nodes have been killed, `healNetwork` connects every live node that is left without a live
neighbour to two other live nodes at random. Whether this restores the connectivity of the network
is up to the shuffles, unless every cut of the network is crossed by some edge in any case.
-/

namespace P2PApp.Visualizer

variable {Latency : Type*}

/-! ## The new edges -/

/-- The variables of the loop over the live nodes. -/
structure Healing where
  newEdges : List Edge
  shuffles : ℕ

/-- The edge to a pick, unless there is one in either direction. -/
def addPick (node : String) (newEdges : List Edge) (p : String) : List Edge :=
  if newEdges.any fun e ↦
      (e.source = node && e.target = p) || (e.source = p && e.target = node) then newEdges
  else newEdges ++ [⟨node, p⟩]

/-- Two random peers, if there are two. -/
def picks (rolls : Rolls Latency) (liveNodes : List String) (call : ℕ) (node : String) :
    List String :=
  let candidates := liveNodes.filter fun n ↦ n ≠ node
  sampleK rolls call candidates (min 2 candidates.length)

def healNode (rolls : Rolls Latency) (adj : Adjacency) (deadNodes : Finset String)
    (liveNodes : List String) (healing : Healing) (node : String) : Option Healing :=
  (adj.neighbours node).map fun items ↦
    if (items.filter fun n ↦ n ∉ deadNodes).length = 0 then
      { newEdges := (picks rolls liveNodes healing.shuffles node).foldl (addPick node)
          healing.newEdges
        shuffles := healing.shuffles + 1 }
    else healing

def liveNodes (allNodes : List String) (deadNodes : Finset String) : List String :=
  allNodes.filter fun n ↦ n ∉ deadNodes

def computeHealingEdges (rolls : Rolls Latency) (edges : List Edge) (deadNodes : Finset String)
    (allNodes : List String) : Option (List Edge) :=
  let liveNodes := liveNodes allNodes deadNodes
  (buildAdjacency edges deadNodes).bind fun adj ↦
    (liveNodes.foldlM (healNode rolls adj deadNodes liveNodes) ⟨[], 0⟩).map Healing.newEdges

/-! ## The state of the visualizer -/

/-- What the actions on the network read and change. -/
structure GossipState where
  nodes : List String
  edges : List Edge
  deadNodes : Finset String

inductive Action (Latency : Type*)
  | killNode (nodeId : String)
  | healNetwork (rolls : Rolls Latency)
  | reset

namespace GossipState

def next (initial state : GossipState) : Action Latency → Option GossipState
  | .killNode nodeId => some { state with deadNodes := insert nodeId state.deadNodes }
  | .healNetwork rolls =>
    (computeHealingEdges rolls state.edges state.deadNodes state.nodes).map fun newEdges ↦
      { state with edges := state.edges ++ newEdges }
  | .reset => some initial

def system (Latency : Type*) (initial : GossipState) :
    TransitionSystem GossipState (Action Latency) := .ofPartial (next initial)

/-- A network as it is drawn. -/
structure WellFormed (state : GossipState) : Prop where
  nodup : state.nodes.Nodup
  plain : ∀ node ∈ state.nodes, node ∉ inheritedNames
  ends : ∀ edge ∈ state.edges, edge.source ∈ state.nodes ∧ edge.target ∈ state.nodes
  loopless : ∀ edge ∈ state.edges, edge.source ≠ edge.target

def live (state : GossipState) : List String := liveNodes state.nodes state.deadNodes

/-- The graph of the live nodes. -/
def graph (state : GossipState) : SimpleGraph String :=
  SimpleGraph.fromRel fun source target ↦
    ∃ edge ∈ liveEdges state.edges state.deadNodes, edge.source = source ∧ edge.target = target

def Connected (state : GossipState) : Prop :=
  ∀ node ∈ state.live, ∀ other ∈ state.live, state.graph.Reachable node other

/-- The node has no live neighbour. -/
def orphaned (state : GossipState) (node : String) : Bool :=
  (neighboursIn (liveEdges state.edges state.deadNodes) node).isEmpty

def orphans (state : GossipState) : List String := state.live.filter state.orphaned

end GossipState

/-- `INITIAL_NODES` and `INITIAL_EDGES`. -/
def initialState : GossipState where
  nodes := ["A", "B", "C", "D", "E"]
  edges := [⟨"A", "B"⟩, ⟨"A", "C"⟩, ⟨"A", "D"⟩, ⟨"B", "C"⟩, ⟨"C", "E"⟩, ⟨"D", "E"⟩]
  deadNodes := ∅

theorem wellFormed_initialState : initialState.WellFormed :=
  ⟨by decide, by decide, by decide, by decide⟩

/-! ## What the loop adds -/

/-- There is an edge between two nodes, in either direction. -/
def Linked (edges : List Edge) (node other : String) : Prop :=
  ∃ edge ∈ edges, (edge.source = node ∧ edge.target = other) ∨
    (edge.source = other ∧ edge.target = node)

theorem linked_append {edges newEdges : List Edge} {node other : String} :
    Linked (edges ++ newEdges) node other ↔
      Linked edges node other ∨ Linked newEdges node other := by
  simp only [Linked, List.mem_append, or_and_right, exists_or]

theorem linked_addPick {newEdges : List Edge} {node p first second : String} :
    Linked (addPick node newEdges p) first second ↔ Linked newEdges first second ∨
      (first = node ∧ second = p) ∨ (second = node ∧ first = p) := by
  unfold addPick
  split
  · rename_i hexists
    refine (or_iff_left_of_imp ?_).symm
    obtain ⟨edge, hedge, hends⟩ := List.any_eq_true.1 hexists
    simp only [Bool.or_eq_true, Bool.and_eq_true, decide_eq_true_eq] at hends
    rintro (⟨rfl, rfl⟩ | ⟨rfl, rfl⟩)
    · exact ⟨edge, hedge, hends⟩
    · exact ⟨edge, hedge, hends.symm⟩
  · rw [linked_append]
    refine or_congr_right ?_
    simp only [Linked, List.mem_singleton, exists_eq_left, @eq_comm _ node, @eq_comm _ p]

theorem linked_foldl_addPick {newEdges : List Edge} {node first second : String}
    (targets : List String) :
    Linked (targets.foldl (addPick node) newEdges) first second ↔ Linked newEdges first second ∨
      (first = node ∧ second ∈ targets) ∨ (second = node ∧ first ∈ targets) := by
  induction targets generalizing newEdges with
  | nil => simp
  | cons p targets ih =>
    rw [List.foldl_cons, ih, linked_addPick]
    simp only [List.mem_cons]
    tauto

section Loop

variable {rolls : Rolls Latency} {adj : Adjacency} {deadNodes : Finset String}
  {everyone : List String} {orphaned : String → Bool}

/-- The pick of an orphan, whose call of the shuffle is its number among the orphans. -/
def Picked (rolls : Rolls Latency) (everyone orphans : List String) (calls : ℕ)
    (node other : String) : Prop :=
  ∃ number, orphans[number]? = some node ∧ other ∈ picks rolls everyone (calls + number) node

theorem picked_cons {orphan : String} {orphans : List String} {calls : ℕ} {node other : String} :
    Picked rolls everyone (orphan :: orphans) calls node other ↔
      (node = orphan ∧ other ∈ picks rolls everyone calls orphan) ∨
        Picked rolls everyone orphans (calls + 1) node other := by
  constructor
  · rintro ⟨number, hnumber, hpick⟩
    cases number with
    | zero =>
      cases hnumber
      exact .inl ⟨rfl, hpick⟩
    | succ number =>
      rw [← Nat.add_assoc, Nat.add_right_comm] at hpick
      exact .inr ⟨number, hnumber, hpick⟩
  · rintro (⟨rfl, hpick⟩ | ⟨number, hnumber, hpick⟩)
    · exact ⟨0, rfl, hpick⟩
    · rw [Nat.add_right_comm, Nat.add_assoc] at hpick
      exact ⟨number + 1, hnumber, hpick⟩

/-- The loop completes, and links every orphan with its picks. -/
theorem foldlM_healNode (nodes : List String) (healing : Healing)
    (hneighbours : ∀ node ∈ nodes, ∃ items, adj.neighbours node = some items ∧
      (orphaned node = true ↔ (items.filter fun n ↦ n ∉ deadNodes).length = 0)) :
    ∃ healed, nodes.foldlM (healNode rolls adj deadNodes everyone) healing = some healed ∧
      ∀ node other, Linked healed.newEdges node other ↔ Linked healing.newEdges node other ∨
        Picked rolls everyone (nodes.filter orphaned) healing.shuffles node other ∨
        Picked rolls everyone (nodes.filter orphaned) healing.shuffles other node := by
  induction nodes generalizing healing with
  | nil => exact ⟨healing, rfl, by simp [Picked]⟩
  | cons node nodes ih =>
    obtain ⟨⟨items, hitems, horphaned⟩, hrest⟩ := List.forall_mem_cons.1 hneighbours
    rw [List.foldlM_cons, healNode, hitems, Option.map_some]
    change ∃ healed, nodes.foldlM _ _ = some healed ∧ _
    by_cases horphan : orphaned node = true
    · rw [if_pos (horphaned.1 horphan), List.filter_cons_of_pos horphan]
      obtain ⟨healed, hhealed, hlinked⟩ := ih _ hrest
      refine ⟨healed, hhealed, fun first second ↦ ?_⟩
      rw [hlinked, linked_foldl_addPick, picked_cons, picked_cons]
      tauto
    · rw [if_neg (fun hempty ↦ horphan (horphaned.2 hempty)), List.filter_cons_of_neg horphan]
      exact ih healing hrest

end Loop

/-! ## The picks -/

section Picks

variable {rolls : Rolls Latency} {everyone : List String} {call : ℕ} {node other : String}

theorem picks_eq (rolls : Rolls Latency) (everyone : List String) (call : ℕ) (node : String) :
    picks rolls everyone call node =
      (rolls.shuffle call (everyone.filter fun n ↦ n ≠ node)).take
        (min 2 (everyone.filter fun n ↦ n ≠ node).length) := by
  unfold picks sampleK slice
  dsimp only
  rw [if_pos (by omega)]
  congr 1
  omega

theorem mem_of_mem_picks (h : other ∈ picks rolls everyone call node) :
    other ∈ everyone ∧ other ≠ node := by
  rw [picks_eq] at h
  have hmem := (rolls.perm call _).mem_iff.1 (List.mem_of_mem_take h)
  simpa using hmem

theorem nodup_picks (hnodup : everyone.Nodup) : (picks rolls everyone call node).Nodup := by
  rw [picks_eq]
  exact ((rolls.perm call _).nodup_iff.2 (hnodup.filter _)).sublist (List.take_sublist _ _)

theorem length_candidates (hnodup : everyone.Nodup) (hnode : node ∈ everyone) :
    (everyone.filter fun n ↦ n ≠ node).length = everyone.length - 1 := by
  have herase : everyone.filter (fun n ↦ n ≠ node) = everyone.erase node := by
    rw [hnodup.erase_eq_filter]
    refine List.filter_congr fun n _ ↦ ?_
    by_cases h : n = node <;> simp [h]
  rw [herase, List.length_erase_of_mem hnode]

theorem length_picks (hnodup : everyone.Nodup) (hnode : node ∈ everyone) :
    (picks rolls everyone call node).length = min 2 (everyone.length - 1) := by
  rw [picks_eq, List.length_take, (rolls.perm call _).length_eq, length_candidates hnodup hnode]
  omega

theorem Picked.mem {rolls : Rolls Latency} {everyone orphans : List String} {calls : ℕ}
    {node other : String} (h : Picked rolls everyone orphans calls node other) :
    node ∈ orphans ∧ other ∈ everyone ∧ other ≠ node := by
  obtain ⟨number, hnumber, hpick⟩ := h
  exact ⟨List.mem_of_getElem? hnumber, mem_of_mem_picks hpick⟩

end Picks

/-! ## One step -/

namespace GossipState

variable {state healed : GossipState}

theorem mem_live {node : String} :
    node ∈ state.live ↔ node ∈ state.nodes ∧ node ∉ state.deadNodes := by
  simp [live, liveNodes]

theorem WellFormed.nodup_live (h : state.WellFormed) : state.live.Nodup := h.nodup.filter _

theorem mem_liveEdges {edges : List Edge} {deadNodes : Finset String} {edge : Edge} :
    edge ∈ liveEdges edges deadNodes ↔
      edge ∈ edges ∧ edge.source ∉ deadNodes ∧ edge.target ∉ deadNodes := by
  simp [liveEdges]

theorem mem_neighboursIn_iff_linked {edges : List Edge} {node other : String} :
    other ∈ neighboursIn edges node ↔ Linked edges node other := by
  rw [mem_neighboursIn, Linked]
  refine exists_congr fun edge ↦ and_congr_right fun _ ↦ or_congr_right ?_
  exact and_comm

theorem adj_graph_iff {node other : String} :
    state.graph.Adj node other ↔
      node ≠ other ∧ Linked (liveEdges state.edges state.deadNodes) node other := by
  rw [graph, SimpleGraph.fromRel_adj, Linked]
  refine and_congr_right fun _ ↦ ?_
  rw [← exists_or]
  refine exists_congr fun edge ↦ ?_
  rw [← and_or_left]

theorem WellFormed.exists_newEdges (h : state.WellFormed) (rolls : Rolls Latency) :
    ∃ newEdges, computeHealingEdges rolls state.edges state.deadNodes state.nodes = some newEdges ∧
      ∀ node other, Linked newEdges node other ↔
        Picked rolls state.live state.orphans 0 node other ∨
          Picked rolls state.live state.orphans 0 other node := by
  have hplain (edge : Edge) (hedge : edge ∈ liveEdges state.edges state.deadNodes) : edge.Plain :=
    ⟨h.plain _ (h.ends edge (mem_liveEdges.1 hedge).1).1,
      h.plain _ (h.ends edge (mem_liveEdges.1 hedge).1).2⟩
  obtain ⟨adj, hadj, hneighbours⟩ := buildAdjacency_eq_some hplain
  have hitems (node : String) (hnode : node ∈ state.live) :
      ∃ items, adj.neighbours node = some items ∧ (state.orphaned node = true ↔
        (items.filter fun n ↦ n ∉ state.deadNodes).length = 0) := by
    refine ⟨_, (hneighbours node).trans (if_neg (h.plain node (mem_live.1 hnode).1)), ?_⟩
    have hlive : (neighboursIn (liveEdges state.edges state.deadNodes) node).filter
        (fun n ↦ n ∉ state.deadNodes) =
          neighboursIn (liveEdges state.edges state.deadNodes) node := by
      refine List.filter_eq_self.2 fun other hother ↦ decide_eq_true ?_
      obtain ⟨edge, hedge, hends⟩ := mem_neighboursIn.1 hother
      obtain ⟨-, hsource, htarget⟩ := mem_liveEdges.1 hedge
      rcases hends with ⟨-, rfl⟩ | ⟨-, rfl⟩
      · exact htarget
      · exact hsource
    rw [hlive, orphaned, List.isEmpty_iff_length_eq_zero]
  obtain ⟨healing, hhealing, hlinked⟩ := @foldlM_healNode _ rolls adj state.deadNodes state.live
    state.orphaned state.live ⟨[], 0⟩ hitems
  refine ⟨healing.newEdges, ?_, fun node other ↦ ?_⟩
  · unfold computeHealingEdges
    rw [hadj]
    exact congrArg (Option.map Healing.newEdges) hhealing
  · rw [hlinked]
    simp [Linked, orphans]

/-- The step lemma of the healing: the live nodes stay, and the new edges are those of the picks. -/
theorem WellFormed.exists_healed (h : state.WellFormed) (initial : GossipState)
    (rolls : Rolls Latency) :
    ∃ healed, next initial state (.healNetwork rolls) = some healed ∧ healed.WellFormed ∧
      healed.live = state.live ∧ ∀ node other, healed.graph.Adj node other ↔
        state.graph.Adj node other ∨ Picked rolls state.live state.orphans 0 node other ∨
          Picked rolls state.live state.orphans 0 other node := by
  obtain ⟨newEdges, hcompute, hlinked⟩ := h.exists_newEdges rolls
  have hnew (edge : Edge) (hedge : edge ∈ newEdges) :
      (edge.source ∈ state.live ∧ edge.target ∈ state.live) ∧ edge.source ≠ edge.target := by
    have hself : Linked newEdges edge.source edge.target := ⟨edge, hedge, .inl ⟨rfl, rfl⟩⟩
    rcases (hlinked _ _).1 hself with hpicked | hpicked
    · obtain ⟨horphan, hother, hne⟩ := hpicked.mem
      exact ⟨⟨List.mem_of_mem_filter horphan, hother⟩, hne.symm⟩
    · obtain ⟨horphan, hother, hne⟩ := hpicked.mem
      exact ⟨⟨hother, List.mem_of_mem_filter horphan⟩, hne⟩
  have hlive : liveEdges (state.edges ++ newEdges) state.deadNodes =
      liveEdges state.edges state.deadNodes ++ newEdges := by
    rw [liveEdges, List.filter_append]
    refine congrArg _ (List.filter_eq_self.2 fun edge hedge ↦ decide_eq_true ?_)
    obtain ⟨⟨hsource, htarget⟩, -⟩ := hnew edge hedge
    exact not_or.2 ⟨(mem_live.1 hsource).2, (mem_live.1 htarget).2⟩
  refine ⟨{ state with edges := state.edges ++ newEdges }, ?_, ⟨h.nodup, h.plain, ?_, ?_⟩, rfl, ?_⟩
  · rw [next, hcompute, Option.map_some]
  · intro edge hedge
    rcases List.mem_append.1 hedge with hold | hadded
    · exact h.ends edge hold
    · exact ⟨(mem_live.1 (hnew edge hadded).1.1).1, (mem_live.1 (hnew edge hadded).1.2).1⟩
  · intro edge hedge
    rcases List.mem_append.1 hedge with hold | hadded
    · exact h.loopless edge hold
    · exact (hnew edge hadded).2
  · intro node other
    rw [adj_graph_iff, adj_graph_iff, hlive, linked_append, hlinked]
    constructor
    · rintro ⟨hne, hold | hpicked⟩
      · exact .inl ⟨hne, hold⟩
      · exact .inr hpicked
    · rintro (⟨hne, hold⟩ | hpicked | hpicked)
      · exact ⟨hne, .inl hold⟩
      · exact ⟨hpicked.mem.2.2.symm, .inr (.inl hpicked)⟩
      · exact ⟨hpicked.mem.2.2, .inr (.inr hpicked)⟩

theorem WellFormed.next {initial after : GossipState} (hinitial : initial.WellFormed)
    (h : state.WellFormed) {action : Action Latency}
    (hnext : GossipState.next initial state action = some after) : after.WellFormed := by
  cases action with
  | killNode nodeId =>
    cases hnext
    exact ⟨h.nodup, h.plain, h.ends, h.loopless⟩
  | healNetwork rolls =>
    obtain ⟨healed, hhealed, hwellFormed, -⟩ := h.exists_healed initial rolls
    cases hhealed.symm.trans hnext
    exact hwellFormed
  | reset =>
    cases hnext
    exact hinitial

theorem wellFormed_of_run {initial : GossipState} (hinitial : initial.WellFormed)
    {actions : List (Action Latency)} (hrun : (system Latency initial).Run initial actions state) :
    state.WellFormed := by
  induction hrun with
  | nil => exact hinitial
  | snoc _ hstep ih => exact WellFormed.next hinitial ih hstep

/-! ## Cuts -/

/-- Part of the live nodes that no live edge leaves, where every orphan on either side finds as many
others on its own side as it picks. -/
structure Separable (state : GossipState) (side : Finset String) : Prop where
  subset : side ⊆ state.live.toFinset
  nonempty : side.Nonempty
  proper : (state.live.toFinset \ side).Nonempty
  closed : ∀ node ∈ side, ∀ other, state.graph.Adj node other → other ∈ side
  inside : ∀ orphan ∈ state.orphans, orphan ∈ side →
    min 2 (state.live.length - 1) < side.card
  outside : ∀ orphan ∈ state.orphans, orphan ∉ side →
    min 2 (state.live.length - 1) < (state.live.toFinset \ side).card

/-- What is reachable stays in a set that no edge leaves. -/
theorem mem_of_reachable {graph : SimpleGraph String} {side : Set String}
    (hclosed : ∀ node ∈ side, ∀ other, graph.Adj node other → other ∈ side) {node other : String}
    (h : graph.Reachable node other) (hnode : node ∈ side) : other ∈ side := by
  obtain ⟨walk⟩ := h
  induction walk with
  | nil => exact hnode
  | cons hadj _ ih => exact ih (hclosed _ hnode _ hadj)

theorem WellFormed.mem_live_of_adj (h : state.WellFormed) {node other : String}
    (hadj : state.graph.Adj node other) : node ∈ state.live ∧ other ∈ state.live := by
  obtain ⟨-, edge, hedge, hends⟩ := adj_graph_iff.1 hadj
  obtain ⟨hedge, hsource, htarget⟩ := mem_liveEdges.1 hedge
  have hnodes := h.ends edge hedge
  rcases hends with ⟨rfl, rfl⟩ | ⟨rfl, rfl⟩
  · exact ⟨mem_live.2 ⟨hnodes.1, hsource⟩, mem_live.2 ⟨hnodes.2, htarget⟩⟩
  · exact ⟨mem_live.2 ⟨hnodes.2, htarget⟩, mem_live.2 ⟨hnodes.1, hsource⟩⟩

/-- A set with an orphan and its picks is not small. -/
theorem WellFormed.lt_card_of_picks (h : state.WellFormed) (rolls : Rolls Latency) {orphan : String}
    (horphan : orphan ∈ state.orphans) {side : Finset String} (hside : orphan ∈ side)
    (hpicks : ∀ other, Picked rolls state.live state.orphans 0 orphan other → other ∈ side) :
    min 2 (state.live.length - 1) < side.card := by
  obtain ⟨number, hnumber⟩ := List.getElem?_of_mem horphan
  have hnodup := @nodup_picks _ rolls state.live (0 + number) orphan h.nodup_live
  have hlength := @length_picks _ rolls state.live (0 + number) orphan h.nodup_live
    (List.mem_of_mem_filter horphan)
  have hnew : orphan ∉ (picks rolls state.live (0 + number) orphan).toFinset := by
    intro hmem
    exact (mem_of_mem_picks (List.mem_toFinset.1 hmem)).2 rfl
  have hsubset : insert orphan (picks rolls state.live (0 + number) orphan).toFinset ⊆ side := by
    refine Finset.insert_subset hside fun other hother ↦ ?_
    exact hpicks other ⟨number, hnumber, List.mem_toFinset.1 hother⟩
  have hcard := Finset.card_le_card hsubset
  rw [Finset.card_insert_of_notMem hnew, List.toFinset_card_of_nodup hnodup, hlength] at hcard
  exact hcard

/-- A network that a healing leaves disconnected is separable. -/
theorem WellFormed.separable_of_not_connected (h : state.WellFormed) {rolls : Rolls Latency}
    (hlive : healed.live = state.live)
    (hadj : ∀ node other, healed.graph.Adj node other ↔
      state.graph.Adj node other ∨ Picked rolls state.live state.orphans 0 node other ∨
        Picked rolls state.live state.orphans 0 other node)
    (hdisconnected : ¬healed.Connected) : ∃ side, state.Separable side := by
  classical
  unfold Connected at hdisconnected
  push Not at hdisconnected
  obtain ⟨first, hfirst, second, hsecond, hunreachable⟩ := hdisconnected
  rw [hlive] at hfirst hsecond
  have hextend {node other : String} (hnode : healed.graph.Reachable first node)
      (hedge : healed.graph.Adj node other) : healed.graph.Reachable first other :=
    hnode.trans hedge.reachable
  refine ⟨state.live.toFinset.filter fun node ↦ healed.graph.Reachable first node,
    Finset.filter_subset _ _, ⟨first, ?_⟩, ⟨second, ?_⟩, fun node hnode other hedge ↦ ?_,
    fun orphan horphan hside ↦ ?_, fun orphan horphan hside ↦ ?_⟩
  · simp [hfirst]
  · simp [hsecond, hunreachable]
  · rw [Finset.mem_filter, List.mem_toFinset] at hnode ⊢
    exact ⟨(h.mem_live_of_adj hedge).2, hextend hnode.2 ((hadj _ _).2 (.inl hedge))⟩
  · refine h.lt_card_of_picks rolls horphan hside fun other hpicked ↦ ?_
    rw [Finset.mem_filter, List.mem_toFinset] at hside ⊢
    exact ⟨hpicked.mem.2.1, hextend hside.2 ((hadj _ _).2 (.inr (.inl hpicked)))⟩
  · have horphanLive := List.mem_toFinset.2 (List.mem_of_mem_filter horphan)
    refine h.lt_card_of_picks rolls horphan (Finset.mem_sdiff.2 ⟨horphanLive, hside⟩)
      fun other hpicked ↦ ?_
    rw [Finset.mem_filter, not_and] at hside
    rw [Finset.mem_sdiff, Finset.mem_filter, List.mem_toFinset]
    refine ⟨hpicked.mem.2.1, fun hother ↦ hside horphanLive ?_⟩
    exact hextend hother.2 ((hadj _ _).2 (.inr (.inr hpicked)))

/-- The shuffles that put those on the side of the orphan in front. -/
def separating (state : GossipState) (side : Finset String) : Rolls Latency where
  shuffle call items :=
    let near (n : String) : Bool := n ∈ side ↔ state.orphans[call]?.any fun orphan ↦ orphan ∈ side
    items.filter near ++ items.filter fun n ↦ !near n
  perm _ items := List.filter_append_perm _ items
  jittered _ latency := latency

/-- There are enough others on the side of an orphan. -/
theorem Separable.le_length_near {side : Finset String}
    (hseparable : state.Separable side) {node : String} (horphan : node ∈ state.orphans) :
    min 2 (state.live.length - 1) ≤ ((state.live.filter fun n ↦ n ≠ node).filter
      fun n ↦ n ∈ side ↔ node ∈ side).length := by
  have hcount (own : Finset String) (hcard : min 2 (state.live.length - 1) < own.card)
      (hnear : ∀ other ∈ own, other ∈ state.live ∧ (other ∈ side ↔ node ∈ side)) :
      min 2 (state.live.length - 1) ≤ ((state.live.filter fun n ↦ n ≠ node).filter
        fun n ↦ n ∈ side ↔ node ∈ side).length := by
    have hsubset : own.erase node ⊆ ((state.live.filter fun n ↦ n ≠ node).filter
        fun n ↦ n ∈ side ↔ node ∈ side).toFinset := by
      intro other hother
      obtain ⟨hne, hown⟩ := Finset.mem_erase.1 hother
      obtain ⟨hlive, hside⟩ := hnear other hown
      simp [hlive, hne, hside]
    have hle := (Finset.card_le_card hsubset).trans (List.toFinset_card_le _)
    have hpred := Finset.pred_card_le_card_erase (s := own) (a := node)
    omega
  by_cases hside : node ∈ side
  · refine hcount side (hseparable.inside node horphan hside) fun other hother ↦ ?_
    exact ⟨List.mem_toFinset.1 (hseparable.subset hother), iff_of_true hother hside⟩
  · refine hcount _ (hseparable.outside node horphan hside) fun other hother ↦ ?_
    obtain ⟨hlive, hout⟩ := Finset.mem_sdiff.1 hother
    exact ⟨List.mem_toFinset.1 hlive, iff_of_false hout hside⟩

/-- No orphan picks across the cut. -/
theorem Separable.picked_iff (h : state.WellFormed) {side : Finset String}
    (hseparable : state.Separable side) {node other : String}
    (hpicked : Picked (state.separating side : Rolls Latency) state.live state.orphans 0 node
      other) : other ∈ side ↔ node ∈ side := by
  obtain ⟨horphan, -, -⟩ := hpicked.mem
  obtain ⟨number, hnumber, hpick⟩ := hpicked
  rw [picks_eq, length_candidates h.nodup_live (List.mem_of_mem_filter horphan)] at hpick
  have hshuffle : (state.separating side : Rolls Latency).shuffle (0 + number)
      (state.live.filter fun n ↦ n ≠ node) =
        ((state.live.filter fun n ↦ n ≠ node).filter fun n ↦ n ∈ side ↔ node ∈ side) ++
          (state.live.filter fun n ↦ n ≠ node).filter fun n ↦ ¬(n ∈ side ↔ node ∈ side) := by
    simp [separating, hnumber]
  rw [hshuffle, List.take_append_of_le_length (hseparable.le_length_near horphan)] at hpick
  exact of_decide_eq_true (List.mem_filter.1 (List.mem_of_mem_take hpick)).2

/-- A separable network is left disconnected by some shuffles. -/
theorem Separable.not_connected (h : state.WellFormed) {side : Finset String}
    (hseparable : state.Separable side) (hlive : healed.live = state.live)
    (hadj : ∀ node other, healed.graph.Adj node other ↔
      state.graph.Adj node other ∨
        Picked (state.separating side : Rolls Latency) state.live state.orphans 0 node other ∨
        Picked (state.separating side : Rolls Latency) state.live state.orphans 0 other node) :
    ¬healed.Connected := by
  intro hconnected
  obtain ⟨first, hfirst⟩ := hseparable.nonempty
  obtain ⟨second, hsecond⟩ := hseparable.proper
  obtain ⟨hsecond, hout⟩ := Finset.mem_sdiff.1 hsecond
  have hclosed (node : String) (hnode : node ∈ (side : Set String)) (other : String)
      (hedge : healed.graph.Adj node other) : other ∈ (side : Set String) := by
    rcases (hadj node other).1 hedge with hold | hpicked | hpicked
    · exact hseparable.closed node hnode other hold
    · exact (hseparable.picked_iff h hpicked).2 hnode
    · exact (hseparable.picked_iff h hpicked).1 hnode
  refine hout (mem_of_reachable hclosed (hconnected first ?_ second ?_) hfirst)
  · rw [hlive]
    exact List.mem_toFinset.1 (hseparable.subset hfirst)
  · rw [hlive]
    exact List.mem_toFinset.1 hsecond

/-! ## When a healing cannot fail -/

/-- At most five live nodes, all of them orphans, or at most two orphans beside one component. -/
def Mendable (state : GossipState) : Prop :=
  (state.live.length ≤ 5 ∧ ∀ node ∈ state.live, node ∈ state.orphans) ∨
    (state.orphans.length ≤ 2 ∧ (∃ node ∈ state.live, node ∉ state.orphans) ∧
      ∀ node ∈ state.live, node ∉ state.orphans → ∀ other ∈ state.live, other ∉ state.orphans →
        state.graph.Reachable node other)

theorem WellFormed.mem_orphans_iff (h : state.WellFormed) {node : String}
    (hnode : node ∈ state.live) : node ∈ state.orphans ↔ ∀ other, ¬state.graph.Adj node other := by
  rw [orphans, List.mem_filter, and_iff_right hnode, orphaned, List.isEmpty_iff,
    List.eq_nil_iff_forall_not_mem]
  refine forall_congr' fun other ↦ not_congr ?_
  rw [mem_neighboursIn_iff_linked, adj_graph_iff]
  refine (and_iff_right_of_imp ?_).symm
  rintro ⟨edge, hedge, ⟨rfl, rfl⟩ | ⟨rfl, rfl⟩⟩
  · exact h.loopless edge (mem_liveEdges.1 hedge).1
  · exact (h.loopless edge (mem_liveEdges.1 hedge).1).symm

theorem WellFormed.not_adj (h : state.WellFormed) {node other : String}
    (horphan : node ∈ state.orphans) : ¬state.graph.Adj node other :=
  (h.mem_orphans_iff (List.mem_of_mem_filter horphan)).1 horphan other

/-- A node that is no orphan has a neighbour, which is none either. -/
theorem WellFormed.exists_neighbour (h : state.WellFormed) {node : String}
    (hnode : node ∈ state.live) (hother : node ∉ state.orphans) :
    ∃ neighbour ∈ state.live, neighbour ∉ state.orphans ∧ state.graph.Adj node neighbour := by
  rw [h.mem_orphans_iff hnode] at hother
  push Not at hother
  obtain ⟨neighbour, hadj⟩ := hother
  exact ⟨neighbour, (h.mem_live_of_adj hadj).2, fun horphan ↦ h.not_adj horphan hadj.symm, hadj⟩

theorem card_live (h : state.WellFormed) : state.live.toFinset.card = state.live.length :=
  List.toFinset_card_of_nodup h.nodup_live

/-- At most two orphans are no part of a cut while there are other nodes. -/
theorem WellFormed.not_lt_card (h : state.WellFormed) (hfew : state.orphans.length ≤ 2)
    (hothers : ∃ node ∈ state.live, node ∉ state.orphans) {part : Finset String}
    (hnonempty : part.Nonempty) (hpart : ∀ node ∈ part, node ∈ state.orphans) :
    ¬min 2 (state.live.length - 1) < part.card := by
  obtain ⟨node, hnode, hother⟩ := hothers
  obtain ⟨neighbour, hneighbour, hneighbourOther, hadj⟩ := h.exists_neighbour hnode hother
  obtain ⟨orphan, horphan⟩ := hnonempty
  have horphan := hpart orphan horphan
  have hthree : 2 < state.live.toFinset.card := by
    refine Finset.two_lt_card.2 ⟨node, List.mem_toFinset.2 hnode, neighbour,
      List.mem_toFinset.2 hneighbour, orphan, List.mem_toFinset.2 (List.mem_of_mem_filter horphan),
      hadj.ne, ?_, ?_⟩
    · rintro rfl
      exact hother horphan
    · rintro rfl
      exact hneighbourOther horphan
  have hle : part.card ≤ state.orphans.toFinset.card :=
    Finset.card_le_card fun node hnode ↦ List.mem_toFinset.2 (hpart node hnode)
  have horphans := List.toFinset_card_le state.orphans
  rw [card_live h] at hthree
  omega

theorem Separable.not_mendable (h : state.WellFormed) {side : Finset String}
    (hseparable : state.Separable side) : ¬state.Mendable := by
  obtain ⟨first, hfirst⟩ := hseparable.nonempty
  obtain ⟨second, hsecond⟩ := hseparable.proper
  have hfirstLive := List.mem_toFinset.1 (hseparable.subset hfirst)
  obtain ⟨hsecondLive, hout⟩ := Finset.mem_sdiff.1 hsecond
  rw [List.mem_toFinset] at hsecondLive
  rintro (⟨hfive, hall⟩ | ⟨hfew, hothers, hcomponent⟩)
  · have hinside := hseparable.inside first (hall first hfirstLive) hfirst
    have houtside := hseparable.outside second (hall second hsecondLive) hout
    have htotal := Finset.card_sdiff_add_card_eq_card hseparable.subset
    rw [card_live h] at htotal
    omega
  · obtain ⟨node, hnode, hother⟩ := hothers
    by_cases hside : node ∈ side
    · have hpart (other : String) (hmem : other ∈ state.live.toFinset \ side) :
          other ∈ state.orphans := by
        obtain ⟨hlive, hotherOut⟩ := Finset.mem_sdiff.1 hmem
        by_contra hno
        exact hotherOut (mem_of_reachable hseparable.closed
          (hcomponent node hnode hother other (List.mem_toFinset.1 hlive) hno) hside)
      exact h.not_lt_card hfew ⟨node, hnode, hother⟩ hseparable.proper hpart
        (hseparable.outside second (hpart second hsecond) hout)
    · have hpart (other : String) (hmem : other ∈ side) : other ∈ state.orphans := by
        by_contra hno
        exact hside (mem_of_reachable hseparable.closed
          (hcomponent other (List.mem_toFinset.1 (hseparable.subset hmem)) hno node hnode hother)
          hmem)
      exact h.not_lt_card hfew ⟨node, hnode, hother⟩ hseparable.nonempty hpart
        (hseparable.inside first (hpart first hfirst) hfirst)

/-- Three orphans can pick each other if the rest suffices for the others. -/
theorem WellFormed.separable_of_orphans (h : state.WellFormed) {side : Finset String}
    (hside : side ⊆ state.orphans.toFinset) (hcard : side.card = 3)
    (hproper : (state.live.toFinset \ side).Nonempty)
    (houtside : ∀ orphan ∈ state.orphans, orphan ∉ side → 2 < (state.live.toFinset \ side).card) :
    state.Separable side where
  subset node hnode :=
    List.mem_toFinset.2 (List.mem_of_mem_filter (List.mem_toFinset.1 (hside hnode)))
  nonempty := Finset.card_pos.1 (hcard ▸ Nat.zero_lt_succ 2)
  proper := hproper
  closed node hnode other hadj := absurd hadj (h.not_adj (List.mem_toFinset.1 (hside hnode)))
  inside _ _ _ := by omega
  outside orphan horphan hout := (min_le_left _ _).trans_lt (houtside orphan horphan hout)

/-- Six orphans fall into two triples. -/
theorem WellFormed.exists_separable_of_six (h : state.WellFormed) (hsix : 6 ≤ state.live.length)
    (hall : ∀ node ∈ state.live, node ∈ state.orphans) : ∃ side, state.Separable side := by
  have hthree : 3 ≤ state.live.toFinset.card := by
    rw [card_live h]
    omega
  obtain ⟨side, hside, hcard⟩ := Finset.exists_subset_card_eq hthree
  have hrest : 2 < (state.live.toFinset \ side).card := by
    have htotal := Finset.card_sdiff_add_card_eq_card hside
    rw [card_live h] at htotal
    omega
  have horphans : side ⊆ state.orphans.toFinset := fun node hnode ↦
    List.mem_toFinset.2 (hall node (List.mem_toFinset.1 (hside hnode)))
  exact ⟨side, h.separable_of_orphans horphans hcard
    (Finset.card_pos.1 ((Nat.zero_le 2).trans_lt hrest)) fun _ _ _ ↦ hrest⟩

/-- Three orphans can leave a node with neighbours alone. -/
theorem WellFormed.exists_separable_of_three (h : state.WellFormed)
    (hmany : 3 ≤ state.orphans.length) {node : String} (hnode : node ∈ state.live)
    (hother : node ∉ state.orphans) : ∃ side, state.Separable side := by
  obtain ⟨neighbour, hneighbour, hneighbourOther, hadj⟩ := h.exists_neighbour hnode hother
  have hnodup : state.orphans.Nodup := h.nodup_live.filter _
  have horphans : 3 ≤ state.orphans.toFinset.card := by
    rw [List.toFinset_card_of_nodup hnodup]
    exact hmany
  obtain ⟨side, hside, hcard⟩ := Finset.exists_subset_card_eq horphans
  have hbeyond {other : String} (hlive : other ∈ state.live) (hno : other ∉ state.orphans) :
      other ∈ state.live.toFinset \ side := by
    refine Finset.mem_sdiff.2 ⟨List.mem_toFinset.2 hlive, fun hmem ↦ ?_⟩
    exact hno (List.mem_toFinset.1 (hside hmem))
  refine ⟨side, h.separable_of_orphans hside hcard ⟨node, hbeyond hnode hother⟩ ?_⟩
  intro orphan horphan hout
  have horphanBeyond : orphan ∈ state.live.toFinset \ side :=
    Finset.mem_sdiff.2 ⟨List.mem_toFinset.2 (List.mem_of_mem_filter horphan), hout⟩
  refine Finset.two_lt_card.2 ⟨node, hbeyond hnode hother, neighbour,
    hbeyond hneighbour hneighbourOther, orphan, horphanBeyond, hadj.ne, ?_, ?_⟩
  · rintro rfl
    exact hother horphan
  · rintro rfl
    exact hneighbourOther horphan

/-- All orphans can join one of two components. -/
theorem WellFormed.exists_separable_of_apart (h : state.WellFormed) {first second : String}
    (hfirst : first ∈ state.live) (hfirstOther : first ∉ state.orphans)
    (hsecond : second ∈ state.live) (hsecondOther : second ∉ state.orphans)
    (hapart : ¬state.graph.Reachable first second) : ∃ side, state.Separable side := by
  classical
  obtain ⟨neighbour, hneighbour, hneighbourOther, hadj⟩ := h.exists_neighbour hfirst hfirstOther
  have hmem (node : String) :
      node ∈ state.live.toFinset.filter
          (fun node ↦ node ∈ state.orphans ∨ state.graph.Reachable first node) ↔
        node ∈ state.live ∧ (node ∈ state.orphans ∨ state.graph.Reachable first node) := by
    rw [Finset.mem_filter, List.mem_toFinset]
  refine ⟨_, Finset.filter_subset _ _, ⟨first, (hmem _).2 ⟨hfirst, .inr (.refl _)⟩⟩,
    ⟨second, ?_⟩, fun node hnode other hedge ↦ ?_, fun orphan horphan hside ↦ ?_,
    fun orphan horphan hout ↦ ?_⟩
  · rw [Finset.mem_sdiff, hmem]
    exact ⟨List.mem_toFinset.2 hsecond, fun hin ↦ hin.2.elim hsecondOther hapart⟩
  · obtain ⟨-, horphan | hreachable⟩ := (hmem node).1 hnode
    · exact absurd hedge (h.not_adj horphan)
    · exact (hmem other).2 ⟨(h.mem_live_of_adj hedge).2, .inr (hreachable.trans hedge.reachable)⟩
  · refine (min_le_left _ _).trans_lt (Finset.two_lt_card.2 ⟨first,
      (hmem _).2 ⟨hfirst, .inr (.refl _)⟩, neighbour,
      (hmem _).2 ⟨hneighbour, .inr hadj.reachable⟩, orphan, hside, hadj.ne, ?_, ?_⟩)
    · rintro rfl
      exact hfirstOther horphan
    · rintro rfl
      exact hneighbourOther horphan
  · exact absurd ((hmem orphan).2 ⟨List.mem_of_mem_filter horphan, .inl horphan⟩) hout

theorem WellFormed.exists_separable (h : state.WellFormed) (hno : ¬state.Mendable) :
    ∃ side, state.Separable side := by
  obtain ⟨hnotSmall, hnotOne⟩ := not_or.1 hno
  by_cases hall : ∀ node ∈ state.live, node ∈ state.orphans
  · refine h.exists_separable_of_six ?_ hall
    by_contra hfive
    exact hnotSmall ⟨by omega, hall⟩
  · push Not at hall
    by_cases hfew : state.orphans.length ≤ 2
    · have hapart : ¬∀ node ∈ state.live, node ∉ state.orphans → ∀ other ∈ state.live,
          other ∉ state.orphans → state.graph.Reachable node other :=
        fun hcomponent ↦ hnotOne ⟨hfew, hall, hcomponent⟩
      push Not at hapart
      obtain ⟨first, hfirst, hfirstOther, second, hsecond, hsecondOther, hunreachable⟩ := hapart
      exact h.exists_separable_of_apart hfirst hfirstOther hsecond hsecondOther hunreachable
    · obtain ⟨node, hnode, hother⟩ := hall
      exact h.exists_separable_of_three (by omega) hnode hother

/-- Whatever was killed and healed before: the next healing connects the live nodes whatever the
shuffles are if and only if the network is mendable. -/
theorem heals_iff_mendable (Latency : Type*) {initial : GossipState} (hinitial : initial.WellFormed)
    {actions : List (Action Latency)} (hrun : (system Latency initial).Run initial actions state) :
    (∀ rolls : Rolls Latency, ∃ healed, next initial state (.healNetwork rolls) = some healed ∧
      healed.Connected) ↔ state.Mendable := by
  have h := wellFormed_of_run hinitial hrun
  constructor
  · intro hheals
    by_contra hno
    obtain ⟨side, hseparable⟩ := h.exists_separable hno
    obtain ⟨healed, hnext, hconnected⟩ := hheals (state.separating side)
    obtain ⟨other, hother, -, hlive, hadj⟩ := h.exists_healed initial (state.separating side)
    cases hother.symm.trans hnext
    exact hseparable.not_connected h hlive hadj hconnected
  · intro hmendable rolls
    obtain ⟨healed, hnext, -, hlive, hadj⟩ := h.exists_healed initial rolls
    refine ⟨healed, hnext, ?_⟩
    by_contra hdisconnected
    obtain ⟨side, hseparable⟩ := h.separable_of_not_connected hlive hadj hdisconnected
    exact hseparable.not_mendable h hmendable

/-- The nodes C and D are killed. -/
theorem heals_iff_mendable_twoKilled :
    (∀ rolls : Rolls ℕ, ∃ healed,
      next initialState { initialState with deadNodes := {"D", "C"} } (.healNetwork rolls) =
        some healed ∧ healed.Connected) ↔
      Mendable { initialState with deadNodes := {"D", "C"} } :=
  @heals_iff_mendable _ ℕ initialState wellFormed_initialState [.killNode "C", .killNode "D"]
    (TransitionSystem.run_ofPartial rfl)

end GossipState

end P2PApp.Visualizer
