import P2PApp.Visualizer.GossipWaves

/-!
# When the simulated spread is correct

A message is spread correctly if every transmission goes along a live edge, if nobody outside the
component of its source is reached, and if with a sufficient fanout everybody inside is, in the wave
of their distance. Names that an object literal inherits are not found missing in it. Where one of
them is the source or at a live edge, an exception is thrown; everywhere else the spread is correct.
-/

namespace P2PApp.Visualizer

namespace Adjacency

/-! ## The neighbours that the edges give -/

@[simp] theorem property_set (adj : Adjacency) (name other : String) (items : List String) :
    property (adj.set name items) other =
      if other = name then .array items else adj.property other := by
  unfold property
  rw [OrderedMap.get?_set]
  by_cases h : other = name <;> simp [h]

def IsArray (adj : Adjacency) (name : String) : Prop := ∃ items, adj.property name = .array items

theorem neighbours_of_property {adj : Adjacency} {name : String} {items : List String}
    (h : adj.property name = .array items) : adj.neighbours name = some items := by
  rw [neighbours, h]

theorem neighbours_set (adj : Adjacency) (name other : String) (items : List String) :
    neighbours (adj.set name items) other =
      if other = name then some items else adj.neighbours other := by
  unfold neighbours
  rw [property_set]
  by_cases h : other = name <;> simp [h]

@[simp] theorem neighbours_ensure (adj : Adjacency) (name other : String) :
    (adj.ensure name).neighbours other = adj.neighbours other := by
  unfold ensure
  cases h : adj.property name with
  | undefined =>
    refine (neighbours_set adj name other []).trans ?_
    by_cases heq : other = name
    · rw [if_pos heq, heq, neighbours, h]
    · rw [if_neg heq]
  | array items => rfl
  | inherited => rfl

theorem isArray_ensure {adj : Adjacency} {name : String} (h : adj.neighbours name ≠ none) :
    (adj.ensure name).IsArray name := by
  unfold ensure
  cases hproperty : adj.property name with
  | undefined => exact ⟨[], (property_set adj name name []).trans (if_pos rfl)⟩
  | array items => exact ⟨items, hproperty⟩
  | inherited => simp [neighbours, hproperty] at h

theorem IsArray.ensure {adj : Adjacency} {other : String} (h : adj.IsArray other) (name : String) :
    (adj.ensure name).IsArray other := by
  obtain ⟨items, hitems⟩ := h
  unfold Adjacency.ensure
  cases hproperty : adj.property name with
  | undefined =>
    have hne : other ≠ name := by
      rintro rfl
      cases hitems.symm.trans hproperty
    exact ⟨items, (property_set adj name other []).trans ((if_neg hne).trans hitems)⟩
  | array _ => exact ⟨items, hitems⟩
  | inherited => exact ⟨items, hitems⟩

/-- A push onto an array adds to the neighbours of that name. -/
theorem IsArray.push {adj : Adjacency} {name : String} (h : adj.IsArray name) (item : String) :
    ∃ adj', adj.push name item = some adj' ∧ (∀ other, adj.IsArray other → adj'.IsArray other) ∧
      ∀ other, adj'.neighbours other =
        (adj.neighbours other).map fun items ↦ items ++ if name = other then [item] else [] := by
  obtain ⟨items, hitems⟩ := h
  refine ⟨adj.set name (items ++ [item]), by rw [Adjacency.push, hitems], ?_, ?_⟩
  · rintro other ⟨found, hfound⟩
    by_cases heq : other = name
    · exact ⟨_, (property_set adj name other _).trans (if_pos heq)⟩
    · exact ⟨found, (property_set adj name other _).trans ((if_neg heq).trans hfound)⟩
  · intro other
    rw [neighbours_set]
    by_cases heq : other = name
    · subst heq
      rw [if_pos rfl, if_pos rfl, neighbours_of_property hitems]
      rfl
    · rw [if_neg heq]
      simp [Ne.symm heq]

theorem push_eq_none {adj : Adjacency} {name : String} (h : adj.neighbours name = none)
    (item : String) : adj.push name item = none := by
  unfold neighbours at h
  rw [push]
  cases hproperty : adj.property name with
  | undefined => rfl
  | array items => simp [hproperty] at h
  | inherited => rfl

end Adjacency

/-- The neighbours that an edge gives to a name. A loop gives two. -/
def Edge.ends (edge : Edge) (name : String) : List String :=
  (if edge.source = name then [edge.target] else []) ++
    if edge.target = name then [edge.source] else []

theorem addEdge_eq_some {adj : Adjacency} {edge : Edge}
    (hsource : adj.neighbours edge.source ≠ none) (htarget : adj.neighbours edge.target ≠ none) :
    ∃ adj', adj.addEdge edge = some adj' ∧ ∀ name,
      adj'.neighbours name = (adj.neighbours name).map fun items ↦ items ++ edge.ends name := by
  have hensured : ((adj.ensure edge.source).ensure edge.target).IsArray edge.source :=
    (Adjacency.isArray_ensure hsource).ensure edge.target
  obtain ⟨first, hfirst, harrays, hneighbours⟩ := hensured.push edge.target
  have htargetArray : ((adj.ensure edge.source).ensure edge.target).IsArray edge.target := by
    apply Adjacency.isArray_ensure
    rwa [Adjacency.neighbours_ensure]
  obtain ⟨second, hsecond, -, hboth⟩ := (harrays _ htargetArray).push edge.source
  refine ⟨second, Option.bind_eq_some_iff.2 ⟨first, hfirst, hsecond⟩, fun name ↦ ?_⟩
  rw [hboth, hneighbours, Adjacency.neighbours_ensure, Adjacency.neighbours_ensure, Option.map_map]
  congr 1
  funext items
  exact List.append_assoc items _ _

theorem addEdge_eq_none {adj : Adjacency} {edge : Edge}
    (h : adj.neighbours edge.source = none ∨ adj.neighbours edge.target = none) :
    adj.addEdge edge = none := by
  by_cases hsource : adj.neighbours edge.source = none
  · have hnone : ((adj.ensure edge.source).ensure edge.target).neighbours edge.source = none := by
      rwa [Adjacency.neighbours_ensure, Adjacency.neighbours_ensure]
    rw [Adjacency.addEdge, Adjacency.push_eq_none hnone]
    rfl
  · have hensured : ((adj.ensure edge.source).ensure edge.target).IsArray edge.source :=
      (Adjacency.isArray_ensure hsource).ensure edge.target
    obtain ⟨first, hfirst, -, hneighbours⟩ := hensured.push edge.target
    have hnone : first.neighbours edge.target = none := by
      rw [hneighbours, Adjacency.neighbours_ensure, Adjacency.neighbours_ensure,
        h.resolve_left hsource]
      rfl
    rw [Adjacency.addEdge, hfirst]
    exact Adjacency.push_eq_none hnone _

/-- Neither end is a name that an object literal inherits. -/
def Edge.Plain (edge : Edge) : Prop := edge.source ∉ inheritedNames ∧ edge.target ∉ inheritedNames

/-- The edges without dead nodes. -/
def liveEdges (edges : List Edge) (deadNodes : Finset String) : List Edge :=
  edges.filter fun edge ↦ ¬(edge.source ∈ deadNodes ∨ edge.target ∈ deadNodes)

/-- The neighbours that the edges give to a name. -/
def neighboursIn (edges : List Edge) (name : String) : List String :=
  edges.flatMap fun edge ↦ edge.ends name

theorem neighboursIn_cons (edge : Edge) (edges : List Edge) (name : String) :
    neighboursIn (edge :: edges) name = edge.ends name ++ neighboursIn edges name :=
  List.flatMap_cons

theorem liveEdges_cons_of_dead {edge : Edge} {deadNodes : Finset String}
    (h : edge.source ∈ deadNodes ∨ edge.target ∈ deadNodes) (edges : List Edge) :
    liveEdges (edge :: edges) deadNodes = liveEdges edges deadNodes :=
  List.filter_cons_of_neg (by simpa only [decide_eq_true_eq, not_not] using h)

theorem liveEdges_cons_of_live {edge : Edge} {deadNodes : Finset String}
    (h : ¬(edge.source ∈ deadNodes ∨ edge.target ∈ deadNodes)) (edges : List Edge) :
    liveEdges (edge :: edges) deadNodes = edge :: liveEdges edges deadNodes :=
  List.filter_cons_of_pos (decide_eq_true h)

section BuildAdjacency

variable (deadNodes : Finset String) {adj : Adjacency}
  (hinherited : ∀ name, adj.neighbours name = none ↔ name ∈ inheritedNames)
include hinherited

/-- A plain edge is added, and the names found missing stay the same. -/
theorem addEdge_of_plain {edge : Edge} (hedge : edge.Plain) :
    ∃ next, adj.addEdge edge = some next ∧
      (∀ name, next.neighbours name = none ↔ name ∈ inheritedNames) ∧
      ∀ name, next.neighbours name =
        (adj.neighbours name).map fun items ↦ items ++ edge.ends name := by
  obtain ⟨next, hnext, hneighbours⟩ := addEdge_eq_some
    (fun hnone ↦ hedge.1 ((hinherited _).1 hnone)) (fun hnone ↦ hedge.2 ((hinherited _).1 hnone))
  refine ⟨next, hnext, fun name ↦ ?_, hneighbours⟩
  rw [hneighbours, Option.map_eq_none_iff, hinherited]

theorem addEdge_of_not_plain {edge : Edge} (hedge : ¬edge.Plain) : adj.addEdge edge = none := by
  apply addEdge_eq_none
  rw [hinherited, hinherited]
  by_contra hneither
  exact hedge (not_or.1 hneither)

/-- What an iteration over the edges does. -/
theorem foldlM_addEdge_eq_some (edges : List Edge)
    (hplain : ∀ edge ∈ liveEdges edges deadNodes, edge.Plain) :
    ∃ adj', edges.foldlM (fun adj edge ↦ if edge.source ∈ deadNodes ∨ edge.target ∈ deadNodes then
        some adj else adj.addEdge edge) adj = some adj' ∧
      ∀ name, adj'.neighbours name = (adj.neighbours name).map fun items ↦
        items ++ neighboursIn (liveEdges edges deadNodes) name := by
  induction edges generalizing adj with
  | nil => exact ⟨adj, rfl, fun name ↦ by simp [liveEdges, neighboursIn]⟩
  | cons edge edges ih =>
    rw [List.foldlM_cons]
    by_cases hdead : edge.source ∈ deadNodes ∨ edge.target ∈ deadNodes
    · have hlive := liveEdges_cons_of_dead hdead edges
      rw [if_pos hdead, hlive]
      rw [hlive] at hplain
      exact ih hinherited hplain
    · have hlive := liveEdges_cons_of_live hdead edges
      rw [hlive, List.forall_mem_cons] at hplain
      obtain ⟨next, hnext, hnextInherited, hneighbours⟩ := addEdge_of_plain hinherited hplain.1
      obtain ⟨last, hlast, hall⟩ := ih hnextInherited hplain.2
      refine ⟨last, ?_, fun name ↦ ?_⟩
      · rw [if_neg hdead, hnext]
        exact hlast
      · rw [hall, hneighbours, Option.map_map, hlive, neighboursIn_cons]
        congr 1
        funext items
        exact List.append_assoc items _ _

theorem foldlM_addEdge_eq_none (edges : List Edge)
    (h : ¬∀ edge ∈ liveEdges edges deadNodes, edge.Plain) :
    edges.foldlM (fun adj edge ↦ if edge.source ∈ deadNodes ∨ edge.target ∈ deadNodes then
      some adj else adj.addEdge edge) adj = none := by
  induction edges generalizing adj with
  | nil => exact absurd (fun edge hedge ↦ absurd hedge List.not_mem_nil) h
  | cons edge edges ih =>
    rw [List.foldlM_cons]
    by_cases hdead : edge.source ∈ deadNodes ∨ edge.target ∈ deadNodes
    · rw [if_pos hdead]
      rw [liveEdges_cons_of_dead hdead] at h
      exact ih hinherited h
    · rw [liveEdges_cons_of_live hdead, List.forall_mem_cons] at h
      rw [if_neg hdead]
      by_cases hedge : edge.Plain
      · obtain ⟨next, hnext, hnextInherited, -⟩ := addEdge_of_plain hinherited hedge
        rw [hnext]
        exact ih hnextInherited fun hrest ↦ h ⟨hedge, hrest⟩
      · rw [addEdge_of_not_plain hinherited hedge]
        rfl

end BuildAdjacency

theorem neighbours_empty (name : String) :
    (∅ : Adjacency).neighbours name = if name ∈ inheritedNames then none else some [] := by
  unfold Adjacency.neighbours Adjacency.property
  by_cases h : name ∈ inheritedNames <;> simp [h]

theorem neighbours_empty_eq_none_iff (name : String) :
    (∅ : Adjacency).neighbours name = none ↔ name ∈ inheritedNames := by
  rw [neighbours_empty]
  by_cases h : name ∈ inheritedNames <;> simp [h]

/-- What is built, where every live edge is plain. -/
theorem buildAdjacency_eq_some {edges : List Edge} {deadNodes : Finset String}
    (hplain : ∀ edge ∈ liveEdges edges deadNodes, edge.Plain) :
    ∃ adj, buildAdjacency edges deadNodes = some adj ∧ ∀ name, adj.neighbours name =
      if name ∈ inheritedNames then none
      else some (neighboursIn (liveEdges edges deadNodes) name) := by
  obtain ⟨adj, hadj, hneighbours⟩ :=
    foldlM_addEdge_eq_some deadNodes neighbours_empty_eq_none_iff edges hplain
  refine ⟨adj, hadj, fun name ↦ ?_⟩
  rw [hneighbours, neighbours_empty]
  by_cases h : name ∈ inheritedNames <;> simp [h]

theorem mem_neighboursIn {edges : List Edge} {name other : String} :
    other ∈ neighboursIn edges name ↔ ∃ edge ∈ edges,
      (edge.source = name ∧ edge.target = other) ∨ (edge.target = name ∧ edge.source = other) := by
  simp only [neighboursIn, List.mem_flatMap]
  refine exists_congr fun edge ↦ and_congr_right fun _ ↦ ?_
  unfold Edge.ends
  by_cases hsource : edge.source = name <;> by_cases htarget : edge.target = name <;>
    simp [hsource, htarget, eq_comm]

/-! ## The graph -/

namespace Options

variable {Latency : Type*} (options : Options Latency)

/-- The edges without dead nodes. -/
def live : List Edge := liveEdges options.edges options.deadNodes

/-- The graph without dead nodes. -/
def graph : SimpleGraph String :=
  SimpleGraph.fromRel fun source target ↦
    ∃ edge ∈ options.live, edge.source = source ∧ edge.target = target

/-- The number of ends of live edges at a node, parallel ones included. -/
def liveDegree (name : String) : ℕ :=
  options.live.countP (fun edge ↦ edge.source = name) +
    options.live.countP fun edge ↦ edge.target = name

theorem adj_graph {name other : String} :
    options.graph.Adj name other ↔ name ≠ other ∧ other ∈ neighboursIn options.live name := by
  rw [graph, SimpleGraph.fromRel_adj, mem_neighboursIn]
  refine and_congr_right fun _ ↦ ?_
  rw [← exists_or]
  refine exists_congr fun edge ↦ ?_
  rw [← and_or_left]
  tauto

theorem length_neighboursIn (name : String) :
    (neighboursIn options.live name).length = options.liveDegree name := by
  unfold liveDegree
  induction options.live with
  | nil => rfl
  | cons edge edges ih =>
    rw [neighboursIn_cons, List.length_append, ih, List.countP_cons, List.countP_cons]
    unfold Edge.ends
    by_cases hsource : edge.source = name <;> by_cases htarget : edge.target = name <;>
      simp [hsource, htarget] <;> omega

end Options

/-- What the spread of a message should satisfy. -/
structure Correct {Latency : Type*} (options : Options Latency) (result : Result Latency) :
    Prop where
  /-- Each node is reached once. -/
  nodup : result.reached.Nodup
  reachable : ∀ node ∈ result.reached, options.graph.Reachable options.sourceNode node
  along : ∀ wave ∈ result.waves, ∀ tx ∈ wave, ∃ edge ∈ options.live,
    (edge.source = tx.fromNode ∧ edge.target = tx.toNode) ∨
      (edge.target = tx.fromNode ∧ edge.source = tx.toNode)
  complete : (∀ name, (options.liveDegree name : ℤ) ≤ options.fanout) →
    ∀ node, options.graph.Reachable options.sourceNode node → node ∈ result.reached
  /-- The wave with index `k` is the first that targets the nodes at distance `k + 1`. -/
  layers : (∀ name, (options.liveDegree name : ℤ) ≤ options.fanout) →
    ∀ node k, options.graph.Reachable options.sourceNode node →
      options.graph.dist options.sourceNode node = k + 1 →
      (∃ wave ∈ result.waves[k]?, ∃ tx ∈ wave, tx.toNode = node) ∧
      ∀ j < k, ∀ wave ∈ result.waves[j]?, ∀ tx ∈ wave, tx.toNode ≠ node

/-! ## The invariants of the loop -/

variable {Latency : Type*} {rolls : Rolls Latency} {options : Options Latency}

/-- What holds whatever the fanout. -/
structure Sound (options : Options Latency) (spread : Spread Latency) : Prop where
  nodup : spread.seen.Nodup
  reachable : ∀ node ∈ spread.seen, options.graph.Reachable options.sourceNode node
  frontier : ∀ node ∈ spread.frontier, node ∈ spread.seen ∧ node ∉ inheritedNames
  along : ∀ wave ∈ spread.waves, ∀ tx ∈ wave, tx.toNode ∈ neighboursIn options.live tx.fromNode

/-- What holds after `n` iterations with a sufficient fanout. -/
structure Layers (options : Options Latency) (n : ℕ) (spread : Spread Latency) : Prop where
  layered : BreadthFirst.Layered options.graph options.sourceNode n
    {node | node ∈ spread.seen} {node | node ∈ spread.frontier}
  length_waves : spread.frontier ≠ [] → spread.waves.length = n
  /-- The neighbours of a layer are targets of its wave. -/
  complete : ∀ j < n, ∀ node neighbour, options.graph.edist options.sourceNode node = j →
    options.graph.Adj node neighbour → ∃ wave ∈ spread.waves[j]?, ∃ tx ∈ wave, tx.toNode = neighbour
  /-- No target is farther away than the next layer. -/
  near : ∀ j : ℕ, ∀ wave ∈ spread.waves[j]?, ∀ tx ∈ wave,
    options.graph.edist options.sourceNode tx.toNode ≤ j + 1

theorem not_mem_inheritedNames (hplain : ∀ edge ∈ options.live, edge.Plain) {name other : String}
    (h : other ∈ neighboursIn options.live name) : other ∉ inheritedNames := by
  obtain ⟨edge, hedge, ⟨-, rfl⟩ | ⟨-, rfl⟩⟩ := mem_neighboursIn.1 h
  · exact (hplain edge hedge).2
  · exact (hplain edge hedge).1

theorem eq_or_adj {name other : String} (h : other ∈ neighboursIn options.live name) :
    name = other ∨ options.graph.Adj name other := by
  by_cases heq : name = other
  · exact .inl heq
  · exact .inr (options.adj_graph.2 ⟨heq, h⟩)

section Round

variable {adj : Adjacency} (hadj : ∀ name, adj.neighbours name =
  if name ∈ inheritedNames then none else some (neighboursIn options.live name))
include hadj

theorem mem_neighboursIn_of_sent {frontier : List String} {wave : Wave Latency}
    (h : wave.Sent adj options.fanout frontier) {tx : Transmission Latency}
    (htx : tx ∈ wave.waveEvents) :
    tx.fromNode ∈ frontier ∧ tx.toNode ∈ neighboursIn options.live tx.fromNode := by
  obtain ⟨hfrom, items, hitems, hto⟩ := h.sound tx htx
  rw [hadj] at hitems
  by_cases hinherited : tx.fromNode ∈ inheritedNames
  · simp [hinherited] at hitems
  · rw [if_neg hinherited] at hitems
    cases hitems
    exact ⟨hfrom, hto⟩

/-- An iteration completes, and stays inside. -/
theorem Sound.round (hplain : ∀ edge ∈ options.live, edge.Plain) {spread : Spread Latency}
    (h : Sound options spread) :
    ∃ next, round rolls options adj spread = some next ∧ Sound options next := by
  have hcompletes := (@isSome_foldlM_visit _ rolls options adj (spread.waves.length + 1)
    spread.frontier ⟨spread.seen, [], [], spread.shuffles, spread.latencies⟩).2 fun node hnode ↦ by
      rw [hadj, if_neg (h.frontier node hnode).2]
      rfl
  obtain ⟨wave, hwave⟩ := Option.isSome_iff_exists.1 hcompletes
  obtain ⟨next, hnext⟩ : ∃ next, Visualizer.round rolls options adj spread = some next := by
    rw [Visualizer.round, hwave]
    exact ⟨_, rfl⟩
  obtain ⟨wave, hfresh, hsent, hseen, hfrontier, hwaves⟩ := round_eq_some hnext
  have hnew {node : String} (hnode : node ∈ wave.nextFrontier) :
      options.graph.Reachable options.sourceNode node ∧ node ∉ inheritedNames := by
    obtain ⟨-, tx, htx, rfl⟩ := (hfresh.mem_nextFrontier node).1 hnode
    obtain ⟨hfrom, hto⟩ := mem_neighboursIn_of_sent hadj hsent htx
    have hreachable := h.reachable _ (h.frontier _ hfrom).1
    refine ⟨?_, not_mem_inheritedNames hplain hto⟩
    rcases eq_or_adj hto with heq | hneighbour
    · rwa [← heq]
    · exact hreachable.trans hneighbour.reachable
  refine ⟨next, hnext, ?_, ?_, ?_, ?_⟩
  · rw [hseen, hfresh.seen_eq, List.nodup_append]
    refine ⟨h.nodup, hfresh.nodup, ?_⟩
    rintro node hbefore _ hlater rfl
    exact ((hfresh.mem_nextFrontier node).1 hlater).1 hbefore
  · intro node hnode
    rw [hseen, hfresh.seen_eq] at hnode
    rcases List.mem_append.1 hnode with hbefore | hlater
    · exact h.reachable node hbefore
    · exact (hnew hlater).1
  · intro node hnode
    rw [hfrontier] at hnode
    refine ⟨?_, (hnew hnode).2⟩
    rw [hseen, hfresh.seen_eq]
    exact List.mem_append_right _ hnode
  · intro events hevents tx htx
    rw [hwaves] at hevents
    split at hevents
    · exact h.along events hevents tx htx
    · rcases List.mem_append.1 hevents with hbefore | hlast
      · exact h.along events hbefore tx htx
      · obtain rfl := List.mem_singleton.1 hlast
        exact (mem_neighboursIn_of_sent hadj hsent htx).2

/-- With a sufficient fanout, an iteration finds the next layer. -/
theorem Layers.round (hfanout : ∀ name, (options.liveDegree name : ℤ) ≤ options.fanout) {n : ℕ}
    {spread next : Spread Latency} (h : Layers options n spread) (hsound : Sound options spread)
    (hspread : spread.frontier ≠ []) (hnext : round rolls options adj spread = some next) :
    Layers options (n + 1) next := by
  obtain ⟨wave, hfresh, hsent, hseen, hfrontier, hwaves⟩ := round_eq_some hnext
  have hlength := h.length_waves hspread
  have htargets {node neighbour : String} (hnode : node ∈ spread.frontier)
      (hneighbour : options.graph.Adj node neighbour) :
      ∃ tx ∈ wave.waveEvents, tx.toNode = neighbour := by
    have hitems := hadj node
    rw [if_neg (hsound.frontier node hnode).2] at hitems
    refine hsent.complete node hnode _ hitems ?_ neighbour (options.adj_graph.1 hneighbour).2
    rw [options.length_neighboursIn]
    exact hfanout node
  have hsources {tx : Transmission Latency} (htx : tx ∈ wave.waveEvents) :
      tx.fromNode ∈ spread.frontier ∧
        (tx.fromNode = tx.toNode ∨ options.graph.Adj tx.fromNode tx.toNode) :=
    (mem_neighboursIn_of_sent hadj hsent htx).imp_right eq_or_adj
  have hpushed (hevents : wave.waveEvents ≠ []) :
      next.waves = spread.waves ++ [wave.waveEvents] := by
    rw [hwaves, if_neg (by simpa using hevents)]
  have hbefore (j : ℕ) (hj : j < n) : next.waves[j]? = spread.waves[j]? := by
    by_cases hevents : wave.waveEvents = []
    · rw [hwaves, if_pos (by simpa using hevents)]
    · rw [hpushed hevents, List.getElem?_append_left (hlength ▸ hj)]
  have hlast (hevents : wave.waveEvents ≠ []) : next.waves[n]? = some wave.waveEvents := by
    rw [hpushed hevents, ← hlength, List.getElem?_concat_length]
  constructor
  · refine h.layered.next (fun node ↦ ?_) fun node ↦ ?_
    · rw [Set.mem_ofPred_eq, hfrontier, hfresh.mem_nextFrontier]
      refine and_congr_right fun hunseen ↦ ⟨?_, ?_⟩
      · rintro ⟨tx, htx, rfl⟩
        obtain ⟨hfrom, hto⟩ := hsources htx
        refine ⟨tx.fromNode, hfrom, hto.resolve_left fun heq ↦ hunseen ?_⟩
        rw [← heq]
        exact (hsound.frontier _ hfrom).1
      · rintro ⟨source, hsource, hneighbour⟩
        exact htargets hsource hneighbour
    · rw [Set.mem_ofPred_eq, Set.mem_ofPred_eq, hseen, hfresh.seen_eq, hfrontier, List.mem_append]
      rfl
  · intro hmore
    rw [hfrontier] at hmore
    obtain ⟨node, hnode⟩ := List.exists_mem_of_ne_nil _ hmore
    obtain ⟨-, tx, htx, -⟩ := (hfresh.mem_nextFrontier node).1 hnode
    rw [hpushed (List.ne_nil_of_mem htx), List.length_append, hlength]
    rfl
  · intro j hj node neighbour hnode hneighbour
    rcases Nat.lt_succ_iff_lt_or_eq.1 hj with hlt | rfl
    · rw [hbefore j hlt]
      exact h.complete j hlt node neighbour hnode hneighbour
    · obtain ⟨tx, htx, hto⟩ := htargets ((h.layered.mem_frontier node).2 hnode) hneighbour
      exact ⟨wave.waveEvents, hlast (List.ne_nil_of_mem htx), tx, htx, hto⟩
  · intro j events hevents tx htx
    rcases lt_trichotomy j n with hlt | rfl | hgt
    · rw [hbefore j hlt] at hevents
      exact h.near j events hevents tx htx
    · have hsent' : tx ∈ wave.waveEvents := by
        by_cases hempty : wave.waveEvents = []
        · rw [hwaves, if_pos (by simpa using hempty), List.getElem?_eq_none hlength.le] at hevents
          cases hevents
        · rw [hlast hempty] at hevents
          cases hevents
          exact htx
      obtain ⟨hfrom, hto⟩ := hsources hsent'
      have hdist := (h.layered.mem_frontier tx.fromNode).1 hfrom
      rcases hto with heq | hneighbour
      · rw [← heq, hdist]
        exact le_self_add
      · rw [← hdist]
        exact BreadthFirst.edist_le_of_adj hneighbour
    · have hshort : next.waves.length ≤ j := by
        rw [hwaves]
        split
        · omega
        · rw [List.length_append, List.length_singleton]
          omega
      rw [List.getElem?_eq_none hshort] at hevents
      cases hevents

end Round

/-! ## The exact condition -/

/-- The source and the ends of the live edges have no names that an object literal inherits. -/
def Plain (options : Options Latency) : Prop :=
  options.sourceNode ∉ inheritedNames ∧ ∀ edge ∈ options.live, edge.Plain

theorem computeGossipWaves_eq_none (h : ¬Plain options) :
    computeGossipWaves rolls options = none := by
  unfold computeGossipWaves
  by_cases hplain : ∀ edge ∈ options.live, edge.Plain
  · have hsource : options.sourceNode ∈ inheritedNames := by
      by_contra hsource
      exact h ⟨hsource, hplain⟩
    obtain ⟨adj, hadj, hneighbours⟩ := buildAdjacency_eq_some hplain
    have hround : round rolls options adj
        ⟨[options.sourceNode], [], [options.sourceNode], 0, 0⟩ = none := by
      rw [round, List.foldlM_cons, visit, hneighbours, if_pos hsource]
      rfl
    rw [hadj, Option.bind_some, spreadFrom_eq_none (List.cons_ne_nil _ _) hround]
    rfl
  · rw [buildAdjacency, foldlM_addEdge_eq_none _ neighbours_empty_eq_none_iff _ hplain]
    rfl

theorem sound_new (hsource : options.sourceNode ∉ inheritedNames) :
    Sound options ⟨[options.sourceNode], [], [options.sourceNode], 0, 0⟩ where
  nodup := List.nodup_singleton _
  reachable node hnode := by
    rw [List.mem_singleton.1 hnode]
  frontier node hnode := by
    rw [List.mem_singleton.1 hnode]
    exact ⟨List.mem_singleton_self _, hsource⟩
  along wave hwave := absurd hwave List.not_mem_nil

theorem layers_new :
    Layers options 0 ⟨[options.sourceNode], [], [options.sourceNode], 0, 0⟩ where
  layered := by
    have hsingle : {node | node ∈ [options.sourceNode]} = ({options.sourceNode} : Set String) := by
      ext node
      exact List.mem_singleton
    rw [hsingle]
    exact BreadthFirst.layered_zero
  length_waves _ := rfl
  complete j hj := absurd hj (Nat.not_lt_zero j)
  near j wave hwave := by cases hwave

theorem Layers.mem_seen {n : ℕ} {last : Spread Latency} (h : Layers options n last)
    (hempty : last.frontier = []) (node : String) :
    node ∈ last.seen ↔ options.graph.Reachable options.sourceNode node := by
  have hnone : {node | node ∈ last.frontier} = (∅ : Set String) := by
    rw [hempty]
    ext node
    simp
  exact h.layered.mem_seen_iff_reachable hnone node

/-- Where the loop ends, the spread is correct. -/
theorem correct_of_sound {last : Spread Latency} (hempty : last.frontier = [])
    (hsound : Sound options last)
    (hlayers : (∀ name, (options.liveDegree name : ℤ) ≤ options.fanout) →
      ∃ n, Layers options n last) : Correct options ⟨last.waves, last.seen⟩ where
  nodup := hsound.nodup
  reachable := hsound.reachable
  along wave hwave tx htx := mem_neighboursIn.1 (hsound.along wave hwave tx htx)
  complete hfanout node hnode := by
    obtain ⟨n, hn⟩ := hlayers hfanout
    exact (hn.mem_seen hempty node).2 hnode
  layers hfanout node k hnode hdist := by
    obtain ⟨n, hn⟩ := hlayers hfanout
    have hedist : options.graph.edist options.sourceNode node = (k + 1 : ℕ) := by
      rw [← hdist, hnode.coe_dist_eq_edist]
    have hwithin : k < n := by
      have hnear := (hn.layered.mem_seen node).1 ((hn.mem_seen hempty node).2 hnode)
      rw [hedist, Nat.cast_le] at hnear
      exact hnear
    obtain ⟨-, before, hbefore, hadj⟩ := BreadthFirst.edist_eq_succ_iff.1 hedist
    refine ⟨hn.complete k hwithin before node hbefore hadj, ?_⟩
    rintro j hj wave hwave tx htx rfl
    have hnear := hn.near j wave hwave tx htx
    rw [hedist, ← Nat.cast_succ, Nat.cast_le] at hnear
    omega

/-- Whatever the random outcomes are, the message is spread correctly unless an inherited name is in
its way. -/
theorem correct_iff (rolls : Rolls Latency) (options : Options Latency) :
    (∃ result, computeGossipWaves rolls options = some result ∧ Correct options result) ↔
      Plain options := by
  constructor
  · rintro ⟨result, hresult, -⟩
    by_contra h
    cases (computeGossipWaves_eq_none h).symm.trans hresult
  · rintro ⟨hsource, hplain⟩
    obtain ⟨adj, hadj, hneighbours⟩ := buildAdjacency_eq_some hplain
    have hround (spread : Spread Latency)
        (h : Sound options spread ∧ ((∀ name, (options.liveDegree name : ℤ) ≤ options.fanout) →
          ∃ n, Layers options n spread)) (hfrontier : spread.frontier ≠ []) :
        ∃ next, round rolls options adj spread = some next ∧ Sound options next ∧
          ((∀ name, (options.liveDegree name : ℤ) ≤ options.fanout) →
            ∃ n, Layers options n next) := by
      obtain ⟨next, hnext, hsound⟩ := h.1.round hneighbours hplain
      refine ⟨next, hnext, hsound, fun hfanout ↦ ?_⟩
      obtain ⟨n, hn⟩ := h.2 hfanout
      exact ⟨n + 1, hn.round hneighbours hfanout h.1 hfrontier hnext⟩
    obtain ⟨last, hlast, ⟨hsound, hlayers⟩, hempty⟩ :=
      exists_spreadFrom hround ⟨sound_new hsource, fun _ ↦ ⟨0, layers_new⟩⟩
    refine ⟨⟨last.waves, last.seen⟩, ?_, correct_of_sound hempty hsound hlayers⟩
    rw [computeGossipWaves, hadj, Option.bind_some, hlast]
    rfl

/-- A node with an inherited name keeps its neighbour from telling anybody. -/
theorem constructor_not_correct :
    ¬∃ result, computeGossipWaves ⟨fun _ items ↦ items, fun _ items ↦ .refl items, fun _ ms ↦ ms⟩
        (⟨"msg-1", "A", [⟨"A", "constructor"⟩], ∅, 2, 300⟩ : Options ℕ) = some result ∧
      Correct ⟨"msg-1", "A", [⟨"A", "constructor"⟩], ∅, 2, 300⟩ result := by
  rintro ⟨result, hresult, -⟩
  have hlive : (⟨"A", "constructor"⟩ : Edge) ∈
      (⟨"msg-1", "A", [⟨"A", "constructor"⟩], ∅, 2, 300⟩ : Options ℕ).live := by
    decide
  have hinherited : "constructor" ∈ inheritedNames := List.mem_cons_self
  cases (computeGossipWaves_eq_none fun h ↦ (h.2 _ hlive).2 hinherited).symm.trans hresult

end P2PApp.Visualizer
