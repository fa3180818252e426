import P2PApp.Library.BreadthFirst
import P2PApp.Library.OrderedMap
import Mathlib.Data.Finset.Card
import Mathlib.Data.Finset.Dedup

/-!
# The simulated spread of a message

The visualizer computes the waves of a message at once: each node of the frontier transmits to a
sample of its neighbours, and those that had not seen the message are the next frontier. The
neighbours are properties of an object literal, which also has the properties that every object
inherits.

The outcomes of `Math.random` are given beforehand, numbered in the order in which they are used.
-/

namespace P2PApp.Visualizer

structure Edge where
  source : String
  target : String
  deriving DecidableEq

/-- The properties that `Object.prototype` gives to an object literal; none of them is falsy. -/
def inheritedNames : List String :=
  ["constructor", "__defineGetter__", "__defineSetter__", "hasOwnProperty", "__lookupGetter__",
    "__lookupSetter__", "isPrototypeOf", "propertyIsEnumerable", "toString", "valueOf",
    "__proto__", "toLocaleString"]

/-- An object literal with arrays for its own properties. -/
abbrev Adjacency := OrderedMap String (List String)

/-- What a property is found to be. -/
inductive Property
  | undefined
  | array (items : List String)
  | inherited

namespace Adjacency

def property (adj : Adjacency) (name : String) : Property :=
  match adj.get? name with
  | some items => .array items
  | none => if name ∈ inheritedNames then .inherited else .undefined

/-- `if (!adj[name]) adj[name] = []`. -/
def ensure (adj : Adjacency) (name : String) : Adjacency :=
  match adj.property name with
  | .undefined => adj.set name []
  | .array _ | .inherited => adj

/-- `adj[name].push(item)`, which throws unless there is an array. -/
def push (adj : Adjacency) (name item : String) : Option Adjacency :=
  match adj.property name with
  | .array items => some (adj.set name (items ++ [item]))
  | .undefined | .inherited => none

def addEdge (adj : Adjacency) (edge : Edge) : Option Adjacency :=
  let adj := (adj.ensure edge.source).ensure edge.target
  (adj.push edge.source edge.target).bind fun adj ↦ adj.push edge.target edge.source

/-- `[...(adj[node] || [])]`; what is inherited is not iterable. -/
def neighbours (adj : Adjacency) (node : String) : Option (List String) :=
  match adj.property node with
  | .undefined => some []
  | .array items => some items
  | .inherited => none

end Adjacency

def buildAdjacency (edges : List Edge) (deadNodes : Finset String) : Option Adjacency :=
  edges.foldlM
    (fun adj edge ↦
      if edge.source ∈ deadNodes ∨ edge.target ∈ deadNodes then some adj else adj.addEdge edge)
    (∅ : Adjacency)

/-- The outcomes of a sort by a random comparison and of a jittered latency. -/
structure Rolls (Latency : Type*) where
  shuffle : ℕ → List String → List String
  perm : ∀ call items, (shuffle call items).Perm items
  jittered : ℕ → Latency → Latency

/-- `slice(0, k)`, where a negative `k` counts from the end. -/
def slice {α : Type*} (items : List α) (k : ℤ) : List α :=
  if 0 ≤ k then items.take k.toNat else items.take (items.length - k.natAbs)

/-- The argument of `computeGossipWaves`. -/
structure Options (Latency : Type*) where
  msgId : String
  sourceNode : String
  edges : List Edge
  deadNodes : Finset String
  fanout : ℤ
  hopLatencyMs : Latency

structure Transmission (Latency : Type*) where
  fromNode : String
  toNode : String
  msgId : String
  hop : ℕ
  latencyMs : Latency

/-- The variables of an iteration of the loop, with the numbers of the random outcomes used. -/
structure Wave (Latency : Type*) where
  seen : List String
  waveEvents : List (Transmission Latency)
  nextFrontier : List String
  shuffles : ℕ
  latencies : ℕ

/-- The variables of the loop. -/
structure Spread (Latency : Type*) where
  seen : List String
  waves : List (List (Transmission Latency))
  frontier : List String
  shuffles : ℕ
  latencies : ℕ

structure Result (Latency : Type*) where
  waves : List (List (Transmission Latency))
  reached : List String

variable {Latency : Type*} (rolls : Rolls Latency) (options : Options Latency)

def sampleK (call : ℕ) (arr : List String) (k : ℤ) : List String :=
  slice (rolls.shuffle call arr) k

/-- What is done about a target. -/
def transmit (hop : ℕ) (node : String) (wave : Wave Latency) (t : String) : Wave Latency :=
  let latencyMs := rolls.jittered wave.latencies options.hopLatencyMs
  let wave := { wave with
    waveEvents := wave.waveEvents ++ [⟨node, t, options.msgId, hop, latencyMs⟩]
    latencies := wave.latencies + 1 }
  if t ∈ wave.seen then wave
  else { wave with seen := wave.seen ++ [t], nextFrontier := wave.nextFrontier ++ [t] }

/-- What is done about a node of the frontier. -/
def visit (adj : Adjacency) (hop : ℕ) (wave : Wave Latency) (node : String) :
    Option (Wave Latency) :=
  (adj.neighbours node).map fun neighbours ↦
    (sampleK rolls wave.shuffles neighbours options.fanout).foldl (transmit rolls options hop node)
      { wave with shuffles := wave.shuffles + 1 }

/-- An iteration of the loop. -/
def round (adj : Adjacency) (spread : Spread Latency) : Option (Spread Latency) :=
  (spread.frontier.foldlM (visit rolls options adj (spread.waves.length + 1))
    ⟨spread.seen, [], [], spread.shuffles, spread.latencies⟩).map fun wave ↦
      { seen := wave.seen
        waves := if wave.waveEvents.isEmpty then spread.waves
          else spread.waves ++ [wave.waveEvents]
        frontier := wave.nextFrontier
        shuffles := wave.shuffles
        latencies := wave.latencies }

/-! ## What an iteration does -/

variable {rolls options}

theorem mem_of_mem_slice {α : Type*} {items : List α} {k : ℤ} {item : α}
    (h : item ∈ slice items k) : item ∈ items := by
  unfold slice at h
  split at h <;> exact List.mem_of_mem_take h

theorem slice_of_length_le {α : Type*} {items : List α} {k : ℤ} (h : (items.length : ℤ) ≤ k) :
    slice items k = items := by
  rw [slice, if_pos (by omega), List.take_of_length_le (by omega)]

theorem mem_of_mem_sampleK {call : ℕ} {arr : List String} {k : ℤ} {t : String}
    (h : t ∈ sampleK rolls call arr k) : t ∈ arr :=
  (rolls.perm call arr).mem_iff.1 (mem_of_mem_slice h)

theorem mem_sampleK_of_length_le {call : ℕ} {arr : List String} {k : ℤ}
    (h : (arr.length : ℤ) ≤ k) {t : String} (ht : t ∈ arr) : t ∈ sampleK rolls call arr k := by
  have hperm := rolls.perm call arr
  rw [sampleK, slice_of_length_le (by rwa [hperm.length_eq])]
  exact hperm.mem_iff.2 ht

/-- The next frontier are the targets so far that had not been seen before, each once. -/
structure Wave.Fresh (seen : List String) (wave : Wave Latency) : Prop where
  seen_eq : wave.seen = seen ++ wave.nextFrontier
  nodup : wave.nextFrontier.Nodup
  mem_nextFrontier : ∀ t, t ∈ wave.nextFrontier ↔
    t ∉ seen ∧ ∃ event ∈ wave.waveEvents, event.toNode = t

/-- What a transmission does besides the number of its latency. -/
theorem transmit_waveEvents (hop : ℕ) (node : String) (wave : Wave Latency) (t : String) :
    (transmit rolls options hop node wave t).waveEvents = wave.waveEvents ++
      [⟨node, t, options.msgId, hop, rolls.jittered wave.latencies options.hopLatencyMs⟩] := by
  by_cases ht : t ∈ wave.seen <;> simp [transmit, ht]

theorem Wave.Fresh.transmit {seen : List String} {wave : Wave Latency} (h : wave.Fresh seen)
    (hop : ℕ) (node t : String) : (transmit rolls options hop node wave t).Fresh seen := by
  have hevents (target : String) :
      (∃ event ∈ (Visualizer.transmit rolls options hop node wave t).waveEvents,
          event.toNode = target) ↔
        (∃ event ∈ wave.waveEvents, event.toNode = target) ∨ t = target := by
    rw [transmit_waveEvents]
    simp only [List.mem_append, List.mem_singleton, or_and_right, exists_or, exists_eq_left]
  have hmem : t ∈ wave.seen ↔ t ∈ seen ∨ t ∈ wave.nextFrontier := by
    rw [h.seen_eq, List.mem_append]
  by_cases ht : t ∈ wave.seen
  · have hstate : (Visualizer.transmit rolls options hop node wave t).seen = wave.seen ∧
        (Visualizer.transmit rolls options hop node wave t).nextFrontier = wave.nextFrontier := by
      rw [Visualizer.transmit, if_pos ht]
      exact ⟨rfl, rfl⟩
    refine ⟨by rw [hstate.1, hstate.2, h.seen_eq], by rw [hstate.2]; exact h.nodup, ?_⟩
    intro target
    rw [hstate.2, hevents, h.mem_nextFrontier]
    refine and_congr_right fun hunseen ↦ ⟨.inl, ?_⟩
    rintro (hbefore | rfl)
    · exact hbefore
    · exact ((h.mem_nextFrontier t).1 ((hmem.1 ht).resolve_left hunseen)).2
  · have hstate : (Visualizer.transmit rolls options hop node wave t).seen = wave.seen ++ [t] ∧
        (Visualizer.transmit rolls options hop node wave t).nextFrontier =
          wave.nextFrontier ++ [t] := by
      rw [Visualizer.transmit, if_neg ht]
      exact ⟨rfl, rfl⟩
    rw [hmem, not_or] at ht
    refine ⟨by rw [hstate.1, hstate.2, h.seen_eq, List.append_assoc], ?_, ?_⟩
    · rw [hstate.2, ← List.concat_eq_append]
      exact h.nodup.concat ht.2
    · intro target
      rw [hstate.2, hevents, List.mem_append, List.mem_singleton, h.mem_nextFrontier]
      constructor
      · rintro (⟨hunseen, hbefore⟩ | rfl)
        · exact ⟨hunseen, .inl hbefore⟩
        · exact ⟨ht.1, .inr rfl⟩
      · rintro ⟨hunseen, hbefore | rfl⟩
        · exact .inl ⟨hunseen, hbefore⟩
        · exact .inr rfl

theorem Wave.Fresh.foldl_transmit {seen : List String} {wave : Wave Latency} (h : wave.Fresh seen)
    (hop : ℕ) (node : String) (targets : List String) :
    (targets.foldl (Visualizer.transmit rolls options hop node) wave).Fresh seen :=
  List.foldlRecOn targets _ h fun _ hwave t _ ↦ hwave.transmit hop node t

/-- The events of a node, one for each target. -/
theorem foldl_transmit_waveEvents (hop : ℕ) (node : String) (targets : List String)
    (wave : Wave Latency) :
    ∃ events, (targets.foldl (transmit rolls options hop node) wave).waveEvents =
        wave.waveEvents ++ events ∧
      events.map Transmission.toNode = targets ∧ ∀ event ∈ events, event.fromNode = node := by
  induction targets generalizing wave with
  | nil => exact ⟨[], (List.append_nil _).symm, rfl, fun event hevent ↦ by cases hevent⟩
  | cons t targets ih =>
    obtain ⟨events, hevents, htargets, hnodes⟩ := ih (transmit rolls options hop node wave t)
    rw [transmit_waveEvents, List.append_assoc, List.singleton_append] at hevents
    refine ⟨_ :: events, hevents, by rw [List.map_cons, htargets], fun event hevent ↦ ?_⟩
    rcases List.mem_cons.1 hevent with rfl | hlater
    · rfl
    · exact hnodes event hlater

/-- The events of a wave are from the nodes that were visited to neighbours of theirs, and to all of
these if the fanout suffices. -/
structure Wave.Sent (adj : Adjacency) (fanout : ℤ) (visited : List String) (wave : Wave Latency) :
    Prop where
  sound : ∀ event ∈ wave.waveEvents,
    event.fromNode ∈ visited ∧ ∃ items ∈ adj.neighbours event.fromNode, event.toNode ∈ items
  complete : ∀ node ∈ visited, ∀ items ∈ adj.neighbours node, (items.length : ℤ) ≤ fanout →
    ∀ t ∈ items, ∃ event ∈ wave.waveEvents, event.toNode = t

theorem visit_eq_some {adj : Adjacency} {hop : ℕ} {wave wave' : Wave Latency} {node : String}
    (h : visit rolls options adj hop wave node = some wave') :
    ∃ items ∈ adj.neighbours node,
      (sampleK rolls wave.shuffles items options.fanout).foldl (transmit rolls options hop node)
        { wave with shuffles := wave.shuffles + 1 } = wave' :=
  Option.map_eq_some_iff.1 h

theorem Wave.Fresh.visit {seen : List String} {wave wave' : Wave Latency} (h : wave.Fresh seen)
    {adj : Adjacency} {hop : ℕ} {node : String}
    (hvisit : visit rolls options adj hop wave node = some wave') : wave'.Fresh seen := by
  obtain ⟨items, -, rfl⟩ := visit_eq_some hvisit
  have hstart : Wave.Fresh seen { wave with shuffles := wave.shuffles + 1 } :=
    ⟨h.seen_eq, h.nodup, h.mem_nextFrontier⟩
  exact hstart.foldl_transmit hop node _

theorem Wave.Sent.visit {adj : Adjacency} {visited : List String} {wave wave' : Wave Latency}
    (h : wave.Sent adj options.fanout visited) {hop : ℕ} {node : String}
    (hvisit : visit rolls options adj hop wave node = some wave') :
    wave'.Sent adj options.fanout (visited ++ [node]) := by
  obtain ⟨items, hitems, rfl⟩ := visit_eq_some hvisit
  obtain ⟨events, hevents, htargets, hnode⟩ := @foldl_transmit_waveEvents _ rolls options hop node
    (sampleK rolls wave.shuffles items options.fanout) { wave with shuffles := wave.shuffles + 1 }
  constructor
  · intro event hevent
    rw [hevents] at hevent
    rcases List.mem_append.1 hevent with hbefore | hnew
    · exact (h.sound event hbefore).imp_left (List.mem_append_left _)
    · have htarget : event.toNode ∈ items := by
        apply mem_of_mem_sampleK
        rw [← htargets]
        exact List.mem_map_of_mem hnew
      rw [hnode event hnew]
      exact ⟨List.mem_append_right _ (List.mem_singleton_self node), items, hitems, htarget⟩
  · intro other hother found hfound hfanout t ht
    rw [hevents]
    rcases List.mem_append.1 hother with hbefore | hnew
    · obtain ⟨event, hevent, htarget⟩ := h.complete other hbefore found hfound hfanout t ht
      exact ⟨event, List.mem_append_left _ hevent, htarget⟩
    · obtain rfl := List.mem_singleton.1 hnew
      cases hitems.symm.trans hfound
      have htarget := @mem_sampleK_of_length_le _ rolls wave.shuffles _ _ hfanout t ht
      rw [← htargets] at htarget
      obtain ⟨event, hevent, rfl⟩ := List.mem_map.1 htarget
      exact ⟨event, List.mem_append_right _ hevent, rfl⟩

theorem Wave.foldlM_visit {seen : List String} {adj : Adjacency} {hop : ℕ} {nodes : List String}
    {wave wave' : Wave Latency} {visited : List String} (hfresh : wave.Fresh seen)
    (hsent : wave.Sent adj options.fanout visited)
    (h : nodes.foldlM (Visualizer.visit rolls options adj hop) wave = some wave') :
    wave'.Fresh seen ∧ wave'.Sent adj options.fanout (visited ++ nodes) := by
  induction nodes generalizing wave visited with
  | nil =>
    cases h
    rw [List.append_nil]
    exact ⟨hfresh, hsent⟩
  | cons node nodes ih =>
    rw [List.foldlM_cons] at h
    obtain ⟨middle, hfirst, hrest⟩ := Option.bind_eq_some_iff.1 h
    have hresult := ih (hfresh.visit hfirst) (hsent.visit hfirst) hrest
    rwa [List.append_assoc, List.singleton_append] at hresult

/-- The iteration completes exactly if the properties of its nodes are no inherited ones. -/
theorem isSome_foldlM_visit {adj : Adjacency} {hop : ℕ} (nodes : List String)
    (wave : Wave Latency) :
    (nodes.foldlM (visit rolls options adj hop) wave).isSome = true ↔
      ∀ node ∈ nodes, (adj.neighbours node).isSome = true := by
  induction nodes generalizing wave with
  | nil => simp
  | cons node nodes ih =>
    rw [List.foldlM_cons, List.forall_mem_cons, visit]
    cases hneighbours : adj.neighbours node with
    | none => simp
    | some items => exact (ih _).trans (by simp)

/-- The step lemma of the loop: what an iteration does to its variables. -/
theorem round_eq_some {adj : Adjacency} {spread spread' : Spread Latency}
    (h : round rolls options adj spread = some spread') :
    ∃ wave : Wave Latency, wave.Fresh spread.seen ∧
      wave.Sent adj options.fanout spread.frontier ∧ spread'.seen = wave.seen ∧
      spread'.frontier = wave.nextFrontier ∧
      spread'.waves = if wave.waveEvents.isEmpty then spread.waves
        else spread.waves ++ [wave.waveEvents] := by
  obtain ⟨wave, hwave, rfl⟩ := Option.map_eq_some_iff.1 h
  have hfresh : Wave.Fresh spread.seen
      (⟨spread.seen, [], [], spread.shuffles, spread.latencies⟩ : Wave Latency) :=
    ⟨(List.append_nil _).symm, List.nodup_nil, fun t ↦ by simp⟩
  have hsent : Wave.Sent adj options.fanout []
      (⟨spread.seen, [], [], spread.shuffles, spread.latencies⟩ : Wave Latency) :=
    ⟨fun event hevent ↦ absurd hevent List.not_mem_nil,
      fun node hnode ↦ absurd hnode List.not_mem_nil⟩
  obtain ⟨hfresh, hsent⟩ := Wave.foldlM_visit hfresh hsent hwave
  exact ⟨wave, hfresh, hsent, rfl, rfl, rfl⟩

/-! ## The loop -/

/-- The items of the arrays that were not seen. -/
def unseen (adj : Adjacency) (seen : List String) : Finset String :=
  adj.values.flatten.toFinset \ seen.toFinset

theorem mem_flatten_values {adj : Adjacency} {node t : String} {items : List String}
    (hitems : items ∈ adj.neighbours node) (ht : t ∈ items) : t ∈ adj.values.flatten := by
  unfold Adjacency.neighbours Adjacency.property at hitems
  cases hget : adj.get? node with
  | none =>
    rw [hget] at hitems
    by_cases hinherited : node ∈ inheritedNames
    · simp [hinherited] at hitems
    · simp only [hinherited, if_false, Option.mem_def, Option.some.injEq] at hitems
      rw [← hitems] at ht
      cases ht
  | some found =>
    rw [hget] at hitems
    cases hitems
    have hvalue := List.mem_map_of_mem (f := Prod.snd) (OrderedMap.get?_eq_some_iff.1 hget)
    exact List.mem_flatten.2 ⟨items, hvalue, ht⟩

/-- An iteration sees something new, or its frontier was the last. -/
theorem round_decreases {adj : Adjacency} {spread spread' : Spread Latency}
    (hfrontier : spread.frontier ≠ []) (h : round rolls options adj spread = some spread') :
    Prod.Lex (· < ·) (· < ·) ((unseen adj spread'.seen).card, spread'.frontier.length)
      ((unseen adj spread.seen).card, spread.frontier.length) := by
  obtain ⟨wave, hfresh, hsent, hseen, hnext, -⟩ := round_eq_some h
  rw [hseen, hnext]
  cases hempty : wave.nextFrontier with
  | nil =>
    have hsame : wave.seen = spread.seen := by rw [hfresh.seen_eq, hempty, List.append_nil]
    rw [hsame]
    exact .right _ (List.length_pos_iff.2 hfrontier)
  | cons t rest =>
    have ht : t ∈ wave.nextFrontier := by
      rw [hempty]
      exact List.mem_cons_self
    obtain ⟨hunseen, event, hevent, rfl⟩ := (hfresh.mem_nextFrontier t).1 ht
    obtain ⟨-, items, hitems, htarget⟩ := hsent.sound event hevent
    refine .left _ _ (Finset.card_lt_card (Finset.ssubset_iff_subset_ne.2 ⟨?_, ?_⟩))
    · refine Finset.sdiff_subset_sdiff (Finset.Subset.refl _) fun name hname ↦ ?_
      rw [List.mem_toFinset] at hname ⊢
      rw [hfresh.seen_eq]
      exact List.mem_append_left _ hname
    · intro heq
      have hmem : event.toNode ∈ unseen adj spread.seen := by
        rw [unseen, Finset.mem_sdiff, List.mem_toFinset, List.mem_toFinset]
        exact ⟨mem_flatten_values hitems htarget, hunseen⟩
      rw [← heq, unseen, Finset.mem_sdiff, List.mem_toFinset, List.mem_toFinset,
        hfresh.seen_eq] at hmem
      exact hmem.2 (List.mem_append_right _ ht)

variable (rolls options)

/-- `while (frontier.length > 0)`. -/
def spreadFrom (adj : Adjacency) (spread : Spread Latency) : Option (Spread Latency) :=
  if _ : spread.frontier = [] then some spread
  else
    match _ : round rolls options adj spread with
    | none => none
    | some next => spreadFrom adj next
  termination_by ((unseen adj spread.seen).card, spread.frontier.length)
  decreasing_by exact round_decreases (by assumption) (by assumption)

/-- The result, unless an exception is thrown. -/
def computeGossipWaves : Option (Result Latency) :=
  (buildAdjacency options.edges options.deadNodes).bind fun adj ↦
    (spreadFrom rolls options adj ⟨[options.sourceNode], [], [options.sourceNode], 0, 0⟩).map
      fun spread ↦ ⟨spread.waves, spread.seen⟩

variable {rolls options}

theorem spreadFrom_eq_none {adj : Adjacency} {spread : Spread Latency}
    (hfrontier : spread.frontier ≠ []) (h : round rolls options adj spread = none) :
    spreadFrom rolls options adj spread = none := by
  rw [spreadFrom, dif_neg hfrontier]
  split
  · rfl
  · next found hfound => cases h.symm.trans hfound

/-- The loop rule: what every iteration keeps, and completes under, the loop keeps and completes
under. -/
theorem exists_spreadFrom {adj : Adjacency} {inv : Spread Latency → Prop}
    (hround : ∀ spread, inv spread → spread.frontier ≠ [] →
      ∃ next, round rolls options adj spread = some next ∧ inv next)
    {spread : Spread Latency} (h : inv spread) :
    ∃ last, spreadFrom rolls options adj spread = some last ∧ inv last ∧ last.frontier = [] := by
  induction spread using spreadFrom.induct rolls options adj with
  | case1 spread hempty =>
    rw [spreadFrom, dif_pos hempty]
    exact ⟨spread, rfl, h, hempty⟩
  | case2 spread hfrontier hnone =>
    obtain ⟨next, hnext, -⟩ := hround spread h hfrontier
    cases hnone.symm.trans hnext
  | case3 spread hfrontier next hnext ih =>
    obtain ⟨next', hnext', hinv⟩ := hround spread h hfrontier
    cases hnext.symm.trans hnext'
    obtain ⟨last, hlast, hlastInv, hempty⟩ := ih hinv
    refine ⟨last, ?_, hlastInv, hempty⟩
    rw [spreadFrom, dif_neg hfrontier]
    split
    · next hnone => cases hnone.symm.trans hnext
    · next found hfound =>
      cases hfound.symm.trans hnext
      exact hlast

end P2PApp.Visualizer
