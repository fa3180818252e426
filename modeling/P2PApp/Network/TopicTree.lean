import Mathlib.Combinatorics.SimpleGraph.Star
import P2PApp.Library.Tree
import P2PApp.Network.Flooding
import P2PApp.Protocol.SoftState

/-!
# Topic routing on a tree

Every node has a route towards a subscriber, so a message of the topic descends to the subscriber
along the only way there is. On a tree no copy comes by another way and uses up hops. What remains
in the way is the choice of peers: a node with more next hops than `GOSSIP_FANOUT` leaves some out,
and nobody else serves them.
-/

namespace P2PApp.Network

variable {ι : Type*} {platform : Platform} {deployment : Deployment ι}

/-- An unexpired route of the node for the topic that leads to a neighbour closer to the
subscriber. -/
def RoutesTowards (deployment : Deployment ι) (topic : String) (subscriber node : ι)
    (process : Process ι) (now : ℕ) : Prop :=
  ∃ route, process.engine.topicRouter.leasedRouteOf now topic (deployment.name subscriber) =
    some route ∧ ∃ next, deployment.name next = route.nextHop ∧ deployment.graph.Adj node next ∧
      deployment.graph.dist next subscriber < deployment.graph.dist node subscriber

/-- A node that is about to accept the message has routes towards all other subscribers. -/
def Routed (platform : Platform) (deployment : Deployment ι) (topic : String)
    (subscribers : Set ι) (id : String) : World ι → Event ι → Prop :=
  AtAcceptance platform id fun node process _ _ now ↦ ∀ subscriber ∈ subscribers,
    subscriber ≠ node → RoutesTowards deployment topic subscriber node process now

/-- A node that is about to accept the message draws among no more than `GOSSIP_FANOUT` peers. -/
def Roomy (platform : Platform) (id : String) : World ι → Event ι → Prop :=
  AtAcceptance platform id fun _ process copy fromPeerId now ↦
    (GossipEngine.eligiblePeers process.pool now process.engine.topicRouter copy.message
      fromPeerId).length ≤ Config.GOSSIP_FANOUT

/-- The neighbours that are closer to a subscriber. -/
def Closer (deployment : Deployment ι) (subscriber node next : ι) : Prop :=
  deployment.graph.Adj node next ∧
    deployment.graph.dist next subscriber < deployment.graph.dist node subscriber

/-- In a tree a route towards a subscriber serves the only neighbour that is closer. -/
theorem Stationed.serves_closer {node publisher subscriber : ι} {process : Process ι}
    (h : Stationed deployment node process) (htree : deployment.graph.IsTree) {copy : Copy ι}
    {fromPeerId : Option String} {now : ℕ}
    (hsender : copy.message.sender = deployment.name publisher)
    (hhead : (copy.chain ++ [node]).head? = some publisher)
    (hfrom : fromPeerId = truthy (copy.chain.getLast?.map deployment.name))
    (hroutes : subscriber ≠ node →
      RoutesTowards deployment copy.message.topic subscriber node process now)
    (hroom : (GossipEngine.eligiblePeers process.pool now process.engine.topicRouter copy.message
      fromPeerId).length ≤ Config.GOSSIP_FANOUT) :
    Serves deployment (Closer deployment subscriber) process node copy fromPeerId now where
  fanout := hroom
  eligible other hcloser := by
    obtain ⟨hadj, hdist⟩ := hcloser
    apply h.mem_eligiblePeers_or_mem_chain hadj hsender hhead hfrom
    intro _
    have hne : subscriber ≠ node := by
      rintro rfl
      rw [SimpleGraph.dist_self] at hdist
      exact absurd hdist (Nat.not_lt_zero _)
    obtain ⟨route, hleased, next, hname, hnextAdj, hnextDist⟩ := hroutes hne
    rw [eq_of_closer htree hadj hnextAdj hdist hnextDist]
    exact TopicRouter.mem_getPeersForTopic.2 ⟨_, route, hleased, hname.symm⟩

theorem Floods.servesCloser [DecidableEq ι] {message : P2PMessage} {publisher subscriber : ι}
    {world : World ι}
    {event : Event ι}
    (h : Floods platform deployment (Closer deployment subscriber) message publisher world)
    (htree : deployment.graph.IsTree) (hsender : message.sender = deployment.name publisher)
    {subscribers : Set ι} (hsubscriber : subscriber ∈ subscribers)
    (horderly : Orderly platform deployment world event)
    (hrouted : Routed platform deployment message.topic subscribers message.id world event)
    (hroomy : Roomy platform message.id world event) (henabled : world.Enabled event) :
    ServesAll platform deployment (Closer deployment subscriber) message.id world event := by
  cases event with
  | publish node id createdAt type payload options routingPath moment =>
    exact fun hid ↦ absurd hid.symm (henabled message h.published)
  | deliver node copy fromPeerId moment =>
    intro hid hunseen
    obtain ⟨hmessage, hhead⟩ := h.copies node copy henabled hid
    have hcopyTopic : copy.message.topic = message.topic := by rw [hmessage]
    have hcopySender : copy.message.sender = deployment.name publisher := by rw [hmessage, hsender]
    apply (h.honest.stationed node).serves_closer htree hcopySender hhead horderly.1
    · intro hne
      rw [hcopyTopic]
      exact hrouted hid hunseen subscriber hsubscriber hne
    · exact hroomy hid hunseen
  | _ => trivial

/-- The message descends to the subscriber. -/
theorem Floods.seen_of_closer {message : P2PMessage} {publisher subscriber : ι} {world : World ι}
    {events : List (Event ι)}
    (h : Floods platform deployment (Closer deployment subscriber) message publisher world)
    (htree : deployment.graph.IsTree)
    (hdistance : (deployment.graph.dist publisher subscriber : ℤ) < message.ttl)
    (hquiet : Quiet events world)
    (hdelivered : ∀ node copy fromPeerId moment, .deliver node copy fromPeerId moment ∈ events →
      copy.message.id ∈ (world.process node).engine.seenMessages)
    (hseen : message.id ∈ (world.process publisher).engine.seenMessages) :
    message.id ∈ (world.process subscriber).engine.seenMessages := by
  -- Where the message is, it can still go as far as the subscriber is away.
  have hreached : message.id ∈ (world.process subscriber).engine.seenMessages ∧
      (deployment.graph.dist publisher subscriber +
        deployment.graph.dist subscriber subscriber : ℤ) < message.ttl := by
    refine @descend ι _ htree.connected subscriber
      (fun node ↦ message.id ∈ (world.process node).engine.seenMessages ∧
        (deployment.graph.dist publisher node + deployment.graph.dist node subscriber : ℤ) <
          message.ttl) ?_ publisher ?_
    · rintro node next hadj hcloser ⟨hnode, hfar⟩
      have htriangle : deployment.graph.dist publisher next ≤
          deployment.graph.dist publisher node + deployment.graph.dist node next :=
        htree.connected.dist_triangle
      rw [SimpleGraph.dist_eq_one_iff_adj.2 hadj] at htriangle
      refine ⟨?_, by omega⟩
      apply h.seen_of_following hquiet hdelivered hnode ?_ ⟨hadj, hcloser⟩
      intro copy hcopy _ hchain hhead hlast
      have hlength := length_chain htree hchain
        (h.honest.disseminates.announced node copy hcopy).nodup hhead hlast
      omega
    · rw [SimpleGraph.dist_self]
      exact ⟨hseen, by simpa using hdistance⟩
  exact hreached.1

/-- A message of a topic gets to every subscriber, as long as no node has to choose. -/
theorem emitted_of_subscribers [DecidableEq ι] (hcredible : Credible platform deployment)
    (htree : deployment.graph.IsTree)
    (hdiameter : ∀ first second, (deployment.graph.dist first second : ℤ) < Config.MAX_TTL)
    {initial world : World ι} {events : List (Event ι)} (hinitial : initial.Initial)
    (hstationed : ∀ node, Stationed deployment node (initial.process node))
    {topic id : String} {subscribers : Set ι}
    (hrun : (World.system platform deployment.link).GuardedRun
      (fun current event ↦ Orderly platform deployment current event ∧
        Routed platform deployment topic subscribers id current event ∧
        Roomy platform id current event) initial events world)
    (hquiet : Quiet events world) {publisher : ι} {createdAt : String} {type : MessageType}
    {payload : Payload} {options : MessageFactory.Options} {routingPath : Option (List String)}
    {moment : Moment} (htype : type ≠ .subAd) (htopic : options.topic.getD "global" = topic)
    (httl : options.ttl = none)
    (hpublish : .publish publisher id createdAt type payload options routingPath moment ∈ events) :
    ∀ subscriber ∈ subscribers, Emitted world subscriber id := by
  intro subscriber hsubscriber
  have hhonest : HonestWorld platform deployment initial :=
    honestWorld_of_initial hinitial hstationed
  have horderly (current : World ι) (event : Event ι)
      (h : Orderly platform deployment current event ∧
        Routed platform deployment topic subscribers id current event ∧
        Roomy platform id current event) : Orderly platform deployment current event := h.1
  subst htopic
  obtain ⟨message, rfl, hmessageTtl, hfloods, hseen⟩ := floods_of_publish hcredible horderly hhonest
    hrun htype hpublish
    (fun current hcurrent hguard _ ↦ (hcurrent.stationed publisher).serves_closer htree
      (hcurrent.stationed publisher).localPeerId rfl rfl
      (hguard.2.1 rfl subscriber hsubscriber) (hguard.2.2 rfl))
    (fun message hid hsender htopic current event hfloods hguard ↦ hid ▸
      hfloods.servesCloser htree hsender hsubscriber hguard.1
        (by rw [hid, htopic]; exact hguard.2.1) (hid ▸ hguard.2.2))
  rw [httl] at hmessageTtl
  have hdelivered : ∀ node copy fromPeerId moment, .deliver node copy fromPeerId moment ∈ events →
      copy.message.id ∈ (world.process node).engine.seenMessages :=
    fun _ _ _ _ hmem ↦ seen_of_delivered hcredible horderly hhonest hrun hmem
  have hdistance : (deployment.graph.dist publisher subscriber : ℤ) < message.ttl :=
    hmessageTtl ▸ hdiameter publisher subscriber
  exact hfloods.emitted (hfloods.seen_of_closer htree hdistance hquiet hdelivered hseen)

/-! ## A star -/

/-- The choice of peers would not matter. -/
def ReachesSubscribers [DecidableEq ι] (platform : Platform) (deployment : Deployment ι) : Prop :=
  ∀ (initial world : World ι) (events : List (Event ι)) (topic id : String)
    (subscribers : Set ι), initial.Initial →
    (∀ node, Stationed deployment node (initial.process node)) →
    (World.system platform deployment.link).GuardedRun
      (fun current event ↦ Orderly platform deployment current event ∧
        Routed platform deployment topic subscribers id current event) initial events world →
    Quiet events world →
    ∀ publisher createdAt payload options routingPath moment,
      options.topic.getD "global" = topic → options.ttl = none →
      .publish publisher id createdAt .chat payload options routingPath moment ∈ events →
      ∀ subscriber ∈ subscribers, Emitted world subscriber id

theorem nodeNames_injective_five : Function.Injective (@nodeNames 5) := by
  unfold Function.Injective
  decide +kernel

/-- Four leaves around a node. -/
abbrev star : Deployment (Fin 5) :=
  .onGraph (SimpleGraph.starGraph 0) nodeNames nodeNames_injective_five

/-- The next node on the way to a leaf. -/
def starNext (node leaf : Fin 5) : Fin 5 := if node = 0 then leaf else 0

/-- Routes for `teamA` towards all leaves. -/
def starRouter (node : Fin 5) : Router :=
  ((List.finRange 5).filter fun leaf ↦ leaf ≠ 0 ∧ leaf ≠ node).foldl (fun router leaf ↦
    (router.updateRoute "teamA" (nodeNames leaf) (nodeNames (starNext node leaf)) 1 1 []
      (WithTop.some 600000)).2) .new

def starStart : World (Fin 5) :=
  worldOnGraph (SimpleGraph.starGraph 0) nodeNames nodeNames_injective_five starRouter

def starEvents (publisher : Fin 5) (ways : List (List (Fin 5) × Fin 5)) : List (Event (Fin 5)) :=
  [publishOnGraph nodeNames publisher "teamA"] ++ arrivals nodeNames
    (messageOnGraph (SimpleGraph.starGraph 0) nodeNames nodeNames_injective_five publisher "teamA")
    ways

def starEnd (publisher : Fin 5) (ways : List (List (Fin 5) × Fin 5)) : World (Fin 5) :=
  (starEvents publisher ways).foldl (World.next Pow.javaScript star.link) starStart

/-- The routes of the star, as far as they are used. -/
def StarRouted : World (Fin 5) → Event (Fin 5) → Prop :=
  AtAcceptance Pow.javaScript "m945" fun node process _ _ now ↦ ∀ leaf : Fin 5, leaf ≠ 0 →
    leaf ≠ node → (process.engine.topicRouter.leasedRouteOf now "teamA" (nodeNames leaf)).map
      Route.nextHop = some (nodeNames (starNext node leaf))

instance (world : World (Fin 5)) : DecidablePred (StarRouted world) :=
  fun event ↦ inferInstanceAs (Decidable (AtAcceptance _ _ _ world event))

instance (world : World (Fin 5)) : DecidablePred (Roomy Pow.javaScript "m945" world) :=
  fun event ↦ inferInstanceAs (Decidable (AtAcceptance _ _ _ world event))

theorem closer_starNext {node leaf : Fin 5} (hleaf : leaf ≠ 0) (hne : leaf ≠ node) :
    star.graph.Adj node (starNext node leaf) ∧
      star.graph.dist (starNext node leaf) leaf < star.graph.dist node leaf := by
  have hconnected : star.graph.Connected := SimpleGraph.connected_starGraph 0
  unfold starNext
  split
  · rename_i hnode
    subst hnode
    refine ⟨SimpleGraph.starGraph_center_adj hleaf.symm, ?_⟩
    rw [SimpleGraph.dist_self]
    exact hconnected.pos_dist_of_ne hleaf.symm
  · rename_i hnode
    refine ⟨SimpleGraph.starGraph_center_adj' (Ne.symm hnode), ?_⟩
    have hpositive := hconnected.pos_dist_of_ne hne.symm
    have hfar : star.graph.dist node leaf ≠ 1 := by
      rw [ne_eq, SimpleGraph.dist_eq_one_iff_adj]
      intro hadj
      exact (SimpleGraph.starGraph_adj.1 hadj).2.elim hnode hleaf
    have hnear : star.graph.dist 0 leaf = 1 :=
      SimpleGraph.dist_eq_one_iff_adj.2 (SimpleGraph.starGraph_center_adj hleaf.symm)
    omega

theorem routed_of_starRouted {world : World (Fin 5)} {event : Event (Fin 5)}
    (h : StarRouted world event) :
    Routed Pow.javaScript star "teamA" {leaf | leaf ≠ 0} "m945" world event := by
  refine AtAcceptance.mono ?_ h
  intro node process _ _ now hroutes leaf hleaf hne
  obtain ⟨route, hroute, hnext⟩ := Option.map_eq_some_iff.1 (hroutes leaf hleaf hne)
  exact ⟨route, hroute, starNext node leaf, hnext.symm, closer_starNext hleaf hne⟩

theorem dist_star_lt (first second : Fin 5) :
    (star.graph.dist first second : ℤ) < Config.MAX_TTL := by
  have hconnected : star.graph.Connected := SimpleGraph.connected_starGraph 0
  have hone (leaf : Fin 5) : star.graph.dist 0 leaf ≤ 1 := by
    by_cases hleaf : leaf = 0
    · rw [hleaf, SimpleGraph.dist_self]
      exact Nat.zero_le 1
    · exact (SimpleGraph.dist_eq_one_iff_adj.2 (SimpleGraph.starGraph_center_adj
        (Ne.symm hleaf))).le
  have htriangle : star.graph.dist first second ≤
      star.graph.dist first 0 + star.graph.dist 0 second := hconnected.dist_triangle
  have hfirst := hone first
  rw [SimpleGraph.dist_comm] at hfirst
  have hsecond := hone second
  change _ < (10 : ℤ)
  omega

/-- Of the four leaves the node in the middle serves the three that it has drawn. -/
theorem not_reachesSubscribers_star : star.graph.IsTree ∧
    (∀ first second, (star.graph.dist first second : ℤ) < Config.MAX_TTL) ∧
    Credible Pow.javaScript star ∧ ¬ReachesSubscribers Pow.javaScript star := by
  refine ⟨SimpleGraph.isTree_starGraph 0, dist_star_lt,
    credible_javaScript _ nodeNames nodeNames_injective_five, fun hreaches ↦ ?_⟩
  have hrun : (World.system Pow.javaScript star.link).GuardedRun
      (fun current event ↦ Orderly Pow.javaScript star current event ∧ StarRouted current event)
      starStart (starEvents 0 [([0], 1), ([0], 2), ([0], 3)])
      (starEnd 0 [([0], 1), ([0], 2), ([0], 3)]) := by
    apply TransitionSystem.guardedRun_ofNext
    decide +kernel
  have hquiet : Quiet (starEvents 0 [([0], 1), ([0], 2), ([0], 3)])
      (starEnd 0 [([0], 1), ([0], 2), ([0], 3)]) := by
    apply quiet_of_arrivals
    decide +kernel
  obtain ⟨copy, hcopy, -⟩ := hreaches starStart _ _ "teamA" "m945" {leaf | leaf ≠ 0}
    (initial_worldOnGraph ..) (stationed_worldOnGraph _ _ _ _)
    (hrun.mono fun _ _ hguard ↦ ⟨hguard.1, routed_of_starRouted hguard.2⟩) hquiet
    0 _ _ _ _ _ rfl rfl (List.mem_append_left _ (List.mem_singleton.2 rfl)) 4 (by decide)
  have hsilent : ((starEnd 0 [([0], 1), ([0], 2), ([0], 3)]).process 4).announcedLog = [] := by
    decide +kernel
  rw [hsilent] at hcopy
  cases hcopy

/-- A leaf has one next hop, and the node in the middle the three other leaves. -/
theorem emitted_of_subscribers_star :
    Emitted (starEnd 1 [([1], 0), ([1, 0], 2), ([1, 0], 3), ([1, 0], 4)]) 2 "m945" ∧
      Emitted (starEnd 1 [([1], 0), ([1, 0], 2), ([1, 0], 3), ([1, 0], 4)]) 3 "m945" ∧
      Emitted (starEnd 1 [([1], 0), ([1, 0], 2), ([1, 0], 3), ([1, 0], 4)]) 4 "m945" := by
  have hrun : (World.system Pow.javaScript star.link).GuardedRun
      (fun current event ↦ Orderly Pow.javaScript star current event ∧ StarRouted current event ∧
        Roomy Pow.javaScript "m945" current event)
      starStart (starEvents 1 [([1], 0), ([1, 0], 2), ([1, 0], 3), ([1, 0], 4)])
      (starEnd 1 [([1], 0), ([1, 0], 2), ([1, 0], 3), ([1, 0], 4)]) := by
    apply TransitionSystem.guardedRun_ofNext
    decide +kernel
  have hquiet : Quiet (starEvents 1 [([1], 0), ([1, 0], 2), ([1, 0], 3), ([1, 0], 4)])
      (starEnd 1 [([1], 0), ([1, 0], 2), ([1, 0], 3), ([1, 0], 4)]) := by
    apply quiet_of_arrivals
    decide +kernel
  have hleaves : ∀ leaf ∈ {leaf : Fin 5 | leaf ≠ 0},
      Emitted (starEnd 1 [([1], 0), ([1, 0], 2), ([1, 0], 3), ([1, 0], 4)]) leaf "m945" :=
    emitted_of_subscribers (credible_javaScript _ nodeNames nodeNames_injective_five)
      (SimpleGraph.isTree_starGraph 0) dist_star_lt (initial_worldOnGraph ..)
      (stationed_worldOnGraph _ _ _ _)
      (hrun.mono fun _ _ hguard ↦ ⟨hguard.1, routed_of_starRouted hguard.2.1, hguard.2.2⟩) hquiet
      (by decide) rfl rfl (List.mem_append_left _ (List.mem_singleton.2 rfl))
  exact ⟨hleaves 2 (by simp), hleaves 3 (by simp), hleaves 4 (by simp)⟩

end P2PApp.Network
