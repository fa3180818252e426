import Mathlib.Combinatorics.SimpleGraph.Finite
import Mathlib.Combinatorics.SimpleGraph.Hasse
import Mathlib.Combinatorics.SimpleGraph.Metric
import P2PApp.Network.Flooding

/-!
# How far a message gets

Where no node has more than `GOSSIP_FANOUT` neighbours, a message of the topic `global` is passed on
to all of them. So it gets to the end of every path on which no node before the end has used up the
hops. Not the distance counts, but the way of the copy that a node happens to accept first: later
copies are duplicates, even if they have more hops to live.
-/

namespace P2PApp.Network

variable {ι : Type*} {platform : Platform} {deployment : Deployment ι}

/-- The node has accepted the message after fewer than `MAX_TTL - 1` hops, if at all. The chain of
an announced copy counts the node itself. -/
def AcceptedInTime (world : World ι) (node : ι) (id : String) : Prop :=
  ∀ copy ∈ (world.process node).announcedLog, copy.message.id = id →
    (copy.chain.length - 1 : ℤ) < Config.MAX_TTL - 1

/-- A node draws among its neighbours only. -/
theorem Stationed.length_eligiblePeers_le {node : ι} {process : Process ι}
    [Fintype (deployment.graph.neighborSet node)] (h : Stationed deployment node process)
    (now : ℕ) (message : P2PMessage) (fromPeerId : Option String) :
    (GossipEngine.eligiblePeers process.pool now process.engine.topicRouter message
      fromPeerId).length ≤ deployment.graph.degree node := by
  have hnodup := GossipEngine.nodup_eligiblePeers process.pool now message fromPeerId
    process.engine.topicRouter
  have hsubset : (GossipEngine.eligiblePeers process.pool now process.engine.topicRouter message
      fromPeerId).toFinset ⊆ (deployment.graph.neighborFinset node).image deployment.name := by
    intro peerId hpeerId
    obtain ⟨⟨hpeer, -⟩, -⟩ := (GossipEngine.mem_eligiblePeers ..).1 (List.mem_toFinset.1 hpeerId)
    obtain ⟨other, hadj, hname⟩ := (h.peers peerId).1 hpeer
    exact Finset.mem_image.2 ⟨other, (deployment.graph.mem_neighborFinset node other).2 hadj, hname⟩
  calc (GossipEngine.eligiblePeers process.pool now process.engine.topicRouter message
          fromPeerId).length
      = (GossipEngine.eligiblePeers process.pool now process.engine.topicRouter message
          fromPeerId).toFinset.card := (List.toFinset_card_of_nodup hnodup).symm
    _ ≤ ((deployment.graph.neighborFinset node).image deployment.name).card :=
        Finset.card_le_card hsubset
    _ ≤ (deployment.graph.neighborFinset node).card := Finset.card_image_le
    _ = deployment.graph.degree node := deployment.graph.card_neighborFinset_eq_degree node

/-- With few neighbours a node can serve them all. -/
theorem Stationed.serves_neighbours {node publisher : ι} {process : Process ι}
    [Fintype (deployment.graph.neighborSet node)] (h : Stationed deployment node process)
    (hdegree : deployment.graph.degree node ≤ Config.GOSSIP_FANOUT) {copy : Copy ι}
    {fromPeerId : Option String} (now : ℕ) (htopic : copy.message.topic = "global")
    (hsender : copy.message.sender = deployment.name publisher)
    (hhead : (copy.chain ++ [node]).head? = some publisher)
    (hfrom : fromPeerId = truthy (copy.chain.getLast?.map deployment.name)) :
    Serves deployment deployment.graph.Adj process node copy fromPeerId now where
  fanout := (h.length_eligiblePeers_le now copy.message fromPeerId).trans hdegree
  eligible other hadj := by
    apply h.mem_eligiblePeers_or_mem_chain hadj hsender hhead hfrom
    intro hroutes
    exact absurd htopic hroutes.2

/-- In a network without a node of many neighbours everybody is served. -/
theorem Floods.servesAll [DecidableEq ι] [deployment.graph.LocallyFinite] {message : P2PMessage}
    {publisher : ι} {world : World ι} {event : Event ι}
    (h : Floods platform deployment deployment.graph.Adj message publisher world)
    (hdegree : ∀ node, deployment.graph.degree node ≤ Config.GOSSIP_FANOUT)
    (hsender : message.sender = deployment.name publisher) (htopic : message.topic = "global")
    (horderly : Orderly platform deployment world event) (henabled : world.Enabled event) :
    ServesAll platform deployment deployment.graph.Adj message.id world event := by
  cases event with
  | publish node id createdAt type payload options routingPath moment =>
    exact fun hid ↦ absurd hid.symm (henabled message h.published)
  | deliver node copy fromPeerId moment =>
    intro hid _
    obtain ⟨hmessage, hhead⟩ := h.copies node copy henabled hid
    have hcopyTopic : copy.message.topic = "global" := by rw [hmessage, htopic]
    have hcopySender : copy.message.sender = deployment.name publisher := by rw [hmessage, hsender]
    exact (h.honest.stationed node).serves_neighbours (hdegree node) moment.now hcopyTopic
      hcopySender hhead horderly.1
  | _ => trivial

/-- Along a path between whose ends all nodes have accepted the message in time, everybody has seen
it. -/
theorem Floods.seen_of_walk {message : P2PMessage} {publisher : ι} {world : World ι}
    {events : List (Event ι)}
    (h : Floods platform deployment deployment.graph.Adj message publisher world)
    (hquiet : Quiet events world)
    (hdelivered : ∀ node copy fromPeerId moment, .deliver node copy fromPeerId moment ∈ events →
      copy.message.id ∈ (world.process node).engine.seenMessages)
    (httl : message.ttl = Config.MAX_TTL) {first node : ι} (walk : deployment.graph.Walk first node)
    (hseen : message.id ∈ (world.process first).engine.seenMessages)
    (hwalk : ∀ other ∈ walk.support, other ≠ publisher → other ≠ node →
      AcceptedInTime world other message.id) :
    message.id ∈ (world.process node).engine.seenMessages := by
  induction walk with
  | nil => exact hseen
  | @cons first second node hadj walk ih =>
    by_cases hend : first = node
    · exact hend ▸ hseen
    refine ih (h.seen_of_following hquiet hdelivered hseen ?_ hadj) ?_
    · intro copy hcopy hid _ hhead hlast
      rw [httl]
      by_cases hpublisher : first = publisher
      · have hnodup := (h.honest.disseminates.announced first copy hcopy).nodup
        have hlength := length_eq_one_of_ends hnodup hhead (hpublisher ▸ hlast)
        rw [hlength]
        decide
      · have hintime := hwalk first (List.mem_cons_self ..) hpublisher hend copy hcopy hid
        omega
    · intro other hother
      exact hwalk other (List.mem_cons_of_mem _ hother)

/-- A published message of the topic `global` is announced at the end of every path from the
publisher between whose ends all nodes accept it in time. -/
theorem emitted_of_walk [DecidableEq ι] [deployment.graph.LocallyFinite]
    (hcredible : Credible platform deployment)
    (hdegree : ∀ node, deployment.graph.degree node ≤ Config.GOSSIP_FANOUT)
    {initial world : World ι} {events : List (Event ι)} (hinitial : initial.Initial)
    (hstationed : ∀ node, Stationed deployment node (initial.process node))
    (hrun : (World.system platform deployment.link).GuardedRun (Orderly platform deployment)
      initial events world)
    (hquiet : Quiet events world) {publisher : ι} {id createdAt : String} {type : MessageType}
    {payload : Payload} {options : MessageFactory.Options} {routingPath : Option (List String)}
    {moment : Moment} (htype : type ≠ .subAd) (htopic : options.topic.getD "global" = "global")
    (httl : options.ttl = none)
    (hpublish : .publish publisher id createdAt type payload options routingPath moment ∈ events)
    {node : ι} (walk : deployment.graph.Walk publisher node)
    (hwalk : ∀ other ∈ walk.support, other ≠ publisher → other ≠ node →
      AcceptedInTime world other id) :
    Emitted world node id := by
  have hhonest : HonestWorld platform deployment initial :=
    honestWorld_of_initial hinitial hstationed
  have horderly (current : World ι) (event : Event ι)
      (h : Orderly platform deployment current event) : Orderly platform deployment current event :=
    h
  obtain ⟨message, rfl, hmessageTtl, hfloods, hseen⟩ := floods_of_publish hcredible horderly hhonest
    hrun htype hpublish
    (fun current hcurrent _ _ ↦ (hcurrent.stationed publisher).serves_neighbours
      (hdegree publisher) moment.now htopic (hcurrent.stationed publisher).localPeerId rfl rfl)
    (fun message hid hsender hmessageTopic current event hfloods ↦ hid ▸
      hfloods.servesAll hdegree hsender (hmessageTopic.trans htopic))
  rw [httl] at hmessageTtl
  have hdelivered : ∀ node copy fromPeerId moment, .deliver node copy fromPeerId moment ∈ events →
      copy.message.id ∈ (world.process node).engine.seenMessages :=
    fun _ _ _ _ hmem ↦ seen_of_delivered hcredible horderly hhonest hrun hmem
  exact hfloods.emitted (hfloods.seen_of_walk hquiet hdelivered hmessageTtl walk hseen hwalk)

/-! ## A detour -/

/-- Only the distance would count: whoever is at most `MAX_TTL - 1` hops from the publisher
announces the message. -/
def CoversHopLimit [DecidableEq ι] (platform : Platform) (deployment : Deployment ι) : Prop :=
  ∀ (initial world : World ι) (events : List (Event ι)), initial.Initial →
    (∀ node, Stationed deployment node (initial.process node)) →
    (World.system platform deployment.link).GuardedRun (Orderly platform deployment) initial events
      world → Quiet events world →
    ∀ publisher id createdAt payload options routingPath moment,
      options.topic.getD "global" = "global" → options.ttl = none →
      .publish publisher id createdAt .chat payload options routingPath moment ∈ events →
      ∀ node, (deployment.graph.dist publisher node : ℤ) ≤ Config.MAX_TTL - 1 →
        Emitted world node id

/-- A line of eleven nodes, of which the first and the fourth are connected as well. -/
def detourGraph : SimpleGraph (Fin 11) where
  Adj left right := left.val + 1 = right.val ∨ right.val + 1 = left.val ∨ s(left, right) = s(0, 3)
  symm := by
    constructor
    intro left right h
    rw [Sym2.eq_swap]
    tauto
  loopless := ⟨by decide⟩

instance : DecidableRel detourGraph.Adj := fun left right ↦ inferInstanceAs
  (Decidable (left.val + 1 = right.val ∨ right.val + 1 = left.val ∨ s(left, right) = s(0, 3)))

/-- The way from the fourth node to the last. -/
def detourTail : detourGraph.Walk 3 10 :=
  .cons (by decide : detourGraph.Adj 3 4) (.cons (by decide : detourGraph.Adj 4 5)
    (.cons (by decide : detourGraph.Adj 5 6) (.cons (by decide : detourGraph.Adj 6 7)
      (.cons (by decide : detourGraph.Adj 7 8) (.cons (by decide : detourGraph.Adj 8 9)
        (.cons (by decide : detourGraph.Adj 9 10) .nil))))))

theorem nodeNames_injective_eleven : Function.Injective (@nodeNames 11) := by
  unfold Function.Injective
  decide +kernel

abbrev detour : Deployment (Fin 11) := .onGraph detourGraph nodeNames nodeNames_injective_eleven

def detourMessage : P2PMessage :=
  messageOnGraph detourGraph nodeNames nodeNames_injective_eleven 0 "global"

/-- The copy that goes along the line gets to the fourth node before the one that goes there
directly. -/
def detourWays : List (List (Fin 11) × Fin 11) :=
  [([0], 1), ([0, 1], 2), ([0, 1, 2], 3), ([0, 1, 2, 3], 4), ([0, 1, 2, 3, 4], 5),
    ([0, 1, 2, 3, 4, 5], 6), ([0, 1, 2, 3, 4, 5, 6], 7), ([0, 1, 2, 3, 4, 5, 6, 7], 8),
    ([0, 1, 2, 3, 4, 5, 6, 7, 8], 9), ([0], 3)]

def detourStart : World (Fin 11) :=
  worldOnGraph detourGraph nodeNames nodeNames_injective_eleven fun _ ↦ .new

def detourEvents : List (Event (Fin 11)) :=
  [publishOnGraph nodeNames 0 "global"] ++ arrivals nodeNames detourMessage detourWays

def detourEnd : World (Fin 11) :=
  detourEvents.foldl (World.next Pow.javaScript detour.link) detourStart

theorem guardedRun_detour : (World.system Pow.javaScript detour.link).GuardedRun
    (Orderly Pow.javaScript detour) detourStart detourEvents detourEnd := by
  apply TransitionSystem.guardedRun_ofNext
  decide +kernel

theorem quiet_detour : Quiet detourEvents detourEnd := by
  apply quiet_of_arrivals
  decide +kernel

/-- The last node is eight hops from the first, but the copy that the fourth node accepted has none
left before it gets there. -/
theorem not_coversHopLimit_detour : detourGraph.Connected ∧
    (∀ node, detourGraph.degree node ≤ Config.GOSSIP_FANOUT) ∧
    Credible Pow.javaScript detour ∧ ¬CoversHopLimit Pow.javaScript detour := by
  have hline : SimpleGraph.pathGraph 11 ≤ detourGraph := by
    intro left right hadj
    rw [SimpleGraph.pathGraph_adj] at hadj
    exact hadj.elim .inl fun hsucc ↦ .inr (.inl hsucc)
  refine ⟨(SimpleGraph.pathGraph_connected 10).mono hline, by decide +kernel,
    credible_javaScript detourGraph nodeNames nodeNames_injective_eleven, fun hcovers ↦ ?_⟩
  have hdistance : (detourGraph.dist 0 10 : ℤ) ≤ Config.MAX_TTL - 1 := by
    calc (detourGraph.dist 0 10 : ℤ)
        ≤ (SimpleGraph.Walk.cons (by decide : detourGraph.Adj 0 3) detourTail).length :=
          Int.ofNat_le.2 (SimpleGraph.dist_le _)
      _ ≤ Config.MAX_TTL - 1 := by decide
  obtain ⟨copy, hcopy, -⟩ := hcovers detourStart detourEnd detourEvents
    (initial_worldOnGraph ..) (stationed_worldOnGraph _ _ _ _) guardedRun_detour quiet_detour
    0 _ _ _ _ _ _ rfl rfl (List.mem_append_left _ (List.mem_singleton.2 rfl)) 10 hdistance
  have hsilent : (detourEnd.process 10).announcedLog = [] := by decide +kernel
  rw [hsilent] at hcopy
  cases hcopy

theorem emitted_of_walk_detour : Emitted detourEnd 4 "m945" := by
  have hdegree : ∀ node, detour.graph.degree node ≤ Config.GOSSIP_FANOUT := by decide +kernel
  have hintime : ∀ node : Fin 11, node ≠ 9 → AcceptedInTime detourEnd node "m945" := by
    unfold AcceptedInTime
    decide +kernel
  obtain ⟨walk, hwalk⟩ : ∃ walk : detour.graph.Walk 0 4, walk.support = [0, 3, 4] :=
    ⟨.cons (by decide : detour.graph.Adj 0 3) (.cons (by decide : detour.graph.Adj 3 4) .nil), rfl⟩
  refine emitted_of_walk (credible_javaScript detourGraph nodeNames nodeNames_injective_eleven)
    hdegree (initial_worldOnGraph ..) (stationed_worldOnGraph _ _ _ _) guardedRun_detour
    quiet_detour (by decide) rfl rfl (List.mem_append_left _ (List.mem_singleton.2 rfl)) walk ?_
  intro other hother _ _
  apply hintime
  rintro rfl
  rw [hwalk] at hother
  exact absurd hother (by decide)

end P2PApp.Network
