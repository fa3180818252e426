import P2PApp.Library.Pipeline
import P2PApp.Network.Subscriptions
import P2PApp.Protocol.Advertisement
import P2PApp.Protocol.RelayedCopies

/-!
# A subscription along a line of nodes

A node advertises a subscription again and again, and each neighbour relays the advertisements to
the next one, as far as their `ttl` lasts. A node that they reach keeps a route over the neighbour
before it; the lease does not lapse if it is longer than the time between two advertisements and
the delays of all links on the way. Further away nobody hears of the subscription.

Seen from afar the nodes are the stations of a pipeline, and the routes follow its records.
-/

namespace P2PApp

namespace GossipEngine

variable {platform : Platform} {pool : ConnectionPool} {now : ℕ} {draws : ℕ → ℕ}
  {engine : GossipEngine} {message : P2PMessage} {fromPeerId : Option String} {topic : String}
  {sequenceNumber : ℕ} {action : SubscriptionAction}

/-- What an admitted advertisement hands to a peer with a single connection. -/
theorem Admits.copiesFor
    (h : Admits platform now engine message fromPeerId topic sequenceNumber action)
    {peerId : String} (hmem : peerId ∈ pool.getAllPeerIds) (hsingle : ¬pool.InBothMaps peerId)
    (hpeer : peerId ∉ message.routingPath.getD [] ++ [engine.localPeerId] ++ fromPeerId.toList ++
      [message.sender]) :
    copiesFor pool peerId (engine.receiveMessage platform pool now draws message fromPeerId).2 =
      if (routeAdvert now engine.topicRouter engine.localPeerId message topic sequenceNumber action
          (message.routingPath.getD []) fromPeerId).1 = true ∧ 1 < message.ttl then
        [relayed engine.localPeerId message]
      else [] := by
  obtain ⟨excluded, hnot, heffects⟩ := @Admits.effects _ pool _ draws _ _ _ _ _ _ h _ hmem hpeer
  have hone := (pool.count_copies_eq_iff excluded peerId).2 fun _ ↦ hsingle
  rw [if_pos ⟨hmem, hnot⟩] at hone
  rw [heffects]
  split
  · simp only [GossipEngine.copiesFor, List.flatMap_cons, List.flatMap_nil, List.append_nil, hone,
      List.replicate_one]
  · rfl

end GossipEngine

/-- The names of the nodes, from the origin on. -/
structure Line where
  links : ℕ
  name : ℕ → String
  injective : Function.Injective name
  named : ∀ node, name node ≠ ""

namespace Line

variable (line : Line)

/-- From whom a node gets the advertisements. The origin makes them itself. -/
def upstream : ℕ → Option String
  | 0 => none
  | node + 1 => truthy (some (line.name node))

/-- The pool of a node has one connection to the next node. -/
def Connects (node : ℕ) (pool : ConnectionPool) : Prop :=
  node < line.links →
    line.name (node + 1) ∈ pool.getAllPeerIds ∧ ¬pool.InBothMaps (line.name (node + 1))

/-- The links over which an advertisement gets. -/
def reach : ℕ := min line.links (Config.MAX_TTL.toNat - 1)

end Line

def P2PMessage.sequenceNumber (message : P2PMessage) : ℕ :=
  match message.payload with
  | .subAd _ sequenceNumber _ => sequenceNumber
  | .text _ => 0

/-- The engines of the nodes and the copies under way from each to the next, with the times at which
they were sent. The numbers of the advertisements are kept as a record, with their times. -/
structure RelayChain where
  now : ℕ
  issued : List (ℕ × ℕ)
  engine : ℕ → GossipEngine
  queue : ℕ → List (P2PMessage × ℕ)

namespace RelayChain

open GossipEngine (copiesFor relayed Admits)

inductive Event
  /-- The origin hands an advertisement to its own engine. -/
  | advertise (message : P2PMessage) (pool : ConnectionPool) (draws : ℕ → ℕ)
  /-- The oldest copy gets from a node to the next one. -/
  | deliver (node : ℕ) (pool : ConnectionPool) (draws : ℕ → ℕ)
  | gc (node : ℕ)
  | elapse (duration : ℕ)
  /-- Whatever else a node does. -/
  | other (node : ℕ) (engine : GossipEngine)

variable (platform : Platform) (line : Line) (topic : String)

def receive (chain : RelayChain) (node : ℕ) (message : P2PMessage) (pool : ConnectionPool)
    (draws : ℕ → ℕ) : RelayChain :=
  let (engine, effects) := (chain.engine node).receiveMessage platform pool chain.now draws message
    (line.upstream node)
  { chain with
    engine := Function.update chain.engine node engine
    queue := Function.update chain.queue node
      (chain.queue node ++ (copiesFor pool (line.name (node + 1)) effects).map (·, chain.now)) }

def setEngine (chain : RelayChain) (node : ℕ) (engine : GossipEngine) : RelayChain :=
  { chain with engine := Function.update chain.engine node engine }

def next (chain : RelayChain) : Event → RelayChain
  | .advertise message pool draws =>
    { chain with
      issued := chain.issued ++ [(message.sequenceNumber, chain.now)] }.receive platform line 0
        message pool draws
  | .deliver node pool draws =>
    match chain.queue node with
    | [] => chain
    | copy :: queue =>
      { chain with queue := Function.update chain.queue node queue }.receive platform line
        (node + 1) copy.1 pool draws
  | .gc node =>
    chain.setEngine node { chain.engine node with
      topicRouter := (chain.engine node).topicRouter.gc chain.now }
  | .elapse duration => { chain with now := chain.now + duration }
  | .other node engine => chain.setEngine node engine

/-- An advertisement of the origin, as it comes to a node. -/
structure Carries (node : ℕ) (message : P2PMessage) : Prop where
  type : message.type = .subAd
  payload : message.payload = .subAd topic message.sequenceNumber .join
  sender : message.sender = line.name 0
  ttl : message.ttl = Config.MAX_TTL - node
  path : message.routingPath.getD [] = (List.range node).map line.name

def routeIn (engine : GossipEngine) : Option (Route String ℕ (List String)) :=
  engine.topicRouter.routeOf topic (line.name 0)

/-- The numbers increase, the advertisements come at most `jitter` late and are accepted wherever
they arrive, a copy is under way for at most `delay`, and nothing else touches the routes towards
the origin. -/
def Enabled (jitter delay : ℕ) (chain : RelayChain) : Event → Prop
  | .advertise message pool _ =>
    line.Connects 0 pool ∧ Carries line topic 0 message ∧
      (∀ item ∈ chain.issued, item.1 < message.sequenceNumber) ∧
      (chain.engine 0).Accepts platform chain.now message none
  | .deliver node pool _ =>
    node < line.links ∧ line.Connects (node + 1) pool ∧
      ∀ copy ∈ (chain.queue node).head?,
        (chain.engine (node + 1)).Accepts platform chain.now copy.1 (line.upstream (node + 1))
  | .gc _ => True
  | .elapse duration =>
    (∀ last ∈ chain.issued.getLast?,
        chain.now + duration ≤ last.2 + (REFRESH_INTERVAL_MS + jitter)) ∧
      ∀ node < line.links, ∀ copy ∈ chain.queue node, chain.now + duration ≤ copy.2 + delay
  | .other node engine =>
    engine.localPeerId = (chain.engine node).localPeerId ∧
      routeIn line topic engine = routeIn line topic (chain.engine node)

def system (jitter delay : ℕ) : TransitionSystem RelayChain Event :=
  .ofNext (Enabled platform line topic jitter delay) (next platform line)

/-- Nothing has been advertised. -/
structure Initial (chain : RelayChain) : Prop where
  issued : chain.issued = []
  queue : ∀ node, chain.queue node = []
  localPeerId : ∀ node ≤ line.links, (chain.engine node).localPeerId = line.name node
  routes : ∀ node ≤ line.links, routeIn line topic (chain.engine node) = none

/-! ## What one advertisement does at one node -/

variable {platform line topic}

theorem upstream_getD (node : ℕ) :
    (line.upstream node).getD (line.name node) = line.name (node - 1) := by
  cases node with
  | zero => rfl
  | succ node => rw [Line.upstream, truthy_eq_some.2 ⟨rfl, line.named node⟩]; rfl

theorem mem_upstream {node : ℕ} {peerId : String} (h : peerId ∈ (line.upstream node).toList) :
    ∃ before < node, peerId = line.name before := by
  cases node with
  | zero => cases h
  | succ node =>
    rw [Line.upstream, truthy_eq_some.2 ⟨rfl, line.named node⟩] at h
    exact ⟨node, Nat.lt_succ_self _, List.mem_singleton.1 h⟩

/-- The next node is none of those that the advertisement has come from. -/
theorem Carries.next_not_mem {node : ℕ} {message : P2PMessage}
    (h : Carries line topic node message) :
    line.name (node + 1) ∉ message.routingPath.getD [] ++ [line.name node] ++
      (line.upstream node).toList ++ [message.sender] := by
  have hne (before : ℕ) (hbefore : before ≤ node) : line.name (node + 1) ≠ line.name before :=
    fun heq ↦ absurd (line.injective heq) (by omega)
  rw [h.path, h.sender]
  simp only [List.mem_append, List.mem_singleton, List.mem_map, List.mem_range, not_or]
  refine ⟨⟨⟨?_, hne node (le_refl _)⟩, ?_⟩, hne 0 (Nat.zero_le _)⟩
  · rintro ⟨before, hbefore, heq⟩
    exact hne before hbefore.le heq.symm
  · intro hmem
    obtain ⟨before, hbefore, heq⟩ := mem_upstream hmem
    exact hne before hbefore.le heq

theorem Carries.admits {node : ℕ} {message : P2PMessage} (h : Carries line topic node message)
    {engine : GossipEngine} (hlocal : engine.localPeerId = line.name node) {now : ℕ}
    (haccepts : engine.Accepts platform now message (line.upstream node)) :
    Admits platform now engine message (line.upstream node) topic message.sequenceNumber .join where
  type := h.type
  payload := h.payload
  accepts := haccepts
  loopFree hmem := by
    rw [h.path, hlocal, List.mem_map] at hmem
    obtain ⟨before, hbefore, heq⟩ := hmem
    exact absurd (line.injective heq) (List.mem_range.1 hbefore).ne

/-- The copy that a node passes on is what comes to the next one. -/
theorem Carries.relayed {node : ℕ} {message : P2PMessage} (h : Carries line topic node message) :
    Carries line topic (node + 1) (relayed (line.name node) message) where
  type := h.type
  payload := h.payload
  sender := h.sender
  ttl := by
    rw [GossipEngine.relayed, h.ttl]
    push_cast
    omega
  path := by
    rw [GossipEngine.relayed, Option.getD_some, h.path, List.range_succ, List.map_append]
    rfl

/-- What `_advertiseSubscription` creates. -/
theorem carries_advertisement {process : Adverts.Process}
    (hlocal : process.engine.localPeerId = line.name 0) (id createdAt : String) :
    Carries line topic 0 (process.advertisement platform topic .join id createdAt).1 ∧
      (process.advertisement platform topic .join id createdAt).1.sequenceNumber =
        (process.localSequences.get? topic).getD 0 + 1 :=
  ⟨⟨rfl, rfl, hlocal, rfl, rfl⟩, rfl⟩

/-- A newer advertisement replaces the route and is worth passing on. -/
theorem routeAdvert_of_newer {node : ℕ} {message : P2PMessage} (h : Carries line topic node message)
    {router : Router} (hnewer : ∀ route ∈ router.routeOf topic (line.name 0),
      route.sequenceNumber < message.sequenceNumber) (now : ℕ) :
    GossipEngine.routeAdvert now router (line.name node) message topic message.sequenceNumber .join
        (message.routingPath.getD []) (line.upstream node) =
      (true, router.setRoute topic (line.name 0)
        { nextHop := line.name (node - 1)
          hopCount := node
          sequenceNumber := message.sequenceNumber
          path := (List.range node).map line.name
          expiresAt := WithTop.some (now + Config.ROUTE_LEASE_MS) }) := by
  have himproves (existing : Route String ℕ (List String))
      (hroute : router.routeOf topic (line.name 0) = some existing) :
      TopicRouter.Improves message.sequenceNumber node existing := by
    have hlt := hnewer existing hroute
    simp only [TopicRouter.Improves, SequenceNumber.lt_nat, SequenceNumber.same_nat,
      decide_eq_false_iff_not]
    omega
  dsimp only [GossipEngine.routeAdvert]
  rw [h.sender, h.path, List.length_map, List.length_range, upstream_getD]
  rcases router.updateRoute_cases topic (line.name 0) (line.name (node - 1)) node
      message.sequenceNumber ((List.range node).map line.name)
      (WithTop.some (now + Config.ROUTE_LEASE_MS)) with
    ⟨heq, -⟩ | ⟨existing, hroute, hworse, -⟩ | ⟨existing, hroute, hworse, -⟩
  · exact heq
  · exact absurd (himproves existing hroute) hworse
  · exact absurd (himproves existing hroute) hworse

/-- What an arrival does: the node has the new route, and the next one gets a copy as long as the
advertisement lives. -/
theorem receive_spec {chain : RelayChain} {node : ℕ} {message : P2PMessage} {pool : ConnectionPool}
    (draws : ℕ → ℕ) (hcarries : Carries line topic node message)
    (hlocal : (chain.engine node).localPeerId = line.name node)
    (haccepts : (chain.engine node).Accepts platform chain.now message (line.upstream node))
    (hpool : line.Connects node pool)
    (hnewer : ∀ route ∈ routeIn line topic (chain.engine node),
      route.sequenceNumber < message.sequenceNumber) :
    (∃ engine, (chain.receive platform line node message pool draws).engine =
        Function.update chain.engine node engine ∧
      engine.localPeerId = line.name node ∧
      routeIn line topic engine = some
        { nextHop := line.name (node - 1)
          hopCount := node
          sequenceNumber := message.sequenceNumber
          path := (List.range node).map line.name
          expiresAt := WithTop.some (chain.now + Config.ROUTE_LEASE_MS) }) ∧
    (node < line.links → (chain.receive platform line node message pool draws).queue =
      Function.update chain.queue node (chain.queue node ++
        if 1 < message.ttl then [(relayed (line.name node) message, chain.now)] else [])) := by
  have hadmits := hcarries.admits hlocal haccepts
  have hroute := routeAdvert_of_newer hcarries hnewer chain.now
  refine ⟨⟨((chain.engine node).receiveMessage platform pool chain.now draws message
    (line.upstream node)).1, rfl, ?_, ?_⟩, ?_⟩
  · exact (GossipEngine.localPeerId_receiveMessage ..).trans hlocal
  · rw [routeIn, hadmits.topicRouter, hlocal, hroute]
    exact TopicRouter.routeOf_setRoute_self ..
  · intro hnode
    have hcopies := @GossipEngine.Admits.copiesFor _ pool _ draws _ _ _ _ _ _ hadmits _
      (hpool hnode).1 (hpool hnode).2 (hlocal ▸ hcarries.next_not_mem)
    rw [hlocal, hroute] at hcopies
    dsimp only [receive]
    rw [hcopies]
    split <;> simp_all

/-! ## The records of the nodes -/

/-- What a node has for the last item of its record: the route, or none if that has expired. -/
inductive Held (now : ℕ) (nextHop : String) :
    Option (ℕ × ℕ) → Option (Route String ℕ (List String)) → Prop
  | nothing : Held now nextHop none none
  | route {last : ℕ × ℕ} {route : Route String ℕ (List String)}
      (hsequenceNumber : route.sequenceNumber = last.1) (hnextHop : route.nextHop = nextHop)
      (hexpiresAt : route.expiresAt = WithTop.some (last.2 + Config.ROUTE_LEASE_MS)) :
      Held now nextHop (some last) (some route)
  | expired {last : ℕ × ℕ} (h : last.2 + Config.ROUTE_LEASE_MS < now) :
      Held now nextHop (some last) none

/-- Number and time of a copy. -/
def stamp (copy : P2PMessage × ℕ) : ℕ × ℕ := (copy.1.sequenceNumber, copy.2)

structure Tracks (line : Line) (topic : String) (jitter delay : ℕ) (chain : RelayChain)
    (pipe : Pipeline ℕ) : Prop where
  sound : pipe.Sound line.reach (REFRESH_INTERVAL_MS + jitter) delay
  now : pipe.now = chain.now
  issued : pipe.log 0 = chain.issued
  localPeerId : ∀ node ≤ line.links, (chain.engine node).localPeerId = line.name node
  carries : ∀ node < line.links, ∀ copy ∈ chain.queue node, Carries line topic (node + 1) copy.1
  underWay : ∀ node < line.reach, (chain.queue node).map stamp = pipe.underWay node
  silent : ∀ node, node < line.links → line.reach ≤ node → chain.queue node = []
  held : ∀ node ≤ line.links, Held chain.now (line.name (node - 1)) (pipe.log node).getLast?
    (routeIn line topic (chain.engine node))

variable {jitter delay : ℕ} {chain : RelayChain} {pipe : Pipeline ℕ}

theorem Held.sequenceNumber_eq {now : ℕ} {nextHop : String} {last : Option (ℕ × ℕ)}
    {held : Option (Route String ℕ (List String))} (h : Held now nextHop last held)
    {route : Route String ℕ (List String)} (hroute : route ∈ held) :
    ∃ item ∈ last, item.1 = route.sequenceNumber := by
  cases h with
  | nothing => cases hroute
  | route hsequenceNumber =>
    cases hroute
    exact ⟨_, rfl, hsequenceNumber.symm⟩
  | expired => cases hroute

theorem Held.mono {now now' : ℕ} {nextHop : String} {last : Option (ℕ × ℕ)}
    {held : Option (Route String ℕ (List String))} (h : Held now nextHop last held)
    (hnow : now ≤ now') : Held now' nextHop last held := by
  cases h with
  | nothing => exact .nothing
  | route hsequenceNumber hnextHop hexpiresAt =>
    exact .route hsequenceNumber hnextHop hexpiresAt
  | expired h => exact .expired (h.trans_le hnow)

theorem Held.gc {now : ℕ} {nextHop : String} {last : Option (ℕ × ℕ)}
    {held : Option (Route String ℕ (List String))} (h : Held now nextHop last held) :
    Held now nextHop last (held.filter fun route ↦ WithTop.some now ≤ route.expiresAt) := by
  cases h with
  | nothing => exact .nothing
  | @route last route hsequenceNumber hnextHop hexpiresAt =>
    by_cases hlasts : WithTop.some now ≤ route.expiresAt
    · have hkept : (some route).filter (fun route ↦ WithTop.some now ≤ route.expiresAt) =
          some route := Option.filter_some_pos (decide_eq_true hlasts)
      rw [hkept]
      exact .route hsequenceNumber hnextHop hexpiresAt
    · have hgone : (some route).filter (fun route ↦ WithTop.some now ≤ route.expiresAt) = none :=
        Option.filter_some_neg (decide_eq_false hlasts)
      rw [hgone]
      rw [hexpiresAt] at hlasts
      exact .expired (WithTop.coe_lt_coe.1 (not_le.1 hlasts))
  | expired h => exact .expired h

theorem lt_reach_iff {node : ℕ} : node < line.reach ↔
    node < line.links ∧ (1 : ℤ) < Config.MAX_TTL - node := by
  rw [Line.reach, lt_min_iff]
  have hmax : Config.MAX_TTL = 10 := rfl
  rw [hmax]
  omega

/-- An arrival at a node, which takes the copy from the link before it. -/
theorem Tracks.arrive (h : Tracks line topic jitter delay chain pipe) {node : ℕ}
    (hnode : node ≤ line.links) {message : P2PMessage} (hcarries : Carries line topic node message)
    {pool : ConnectionPool} (hpool : line.Connects node pool) (draws : ℕ → ℕ)
    (haccepts : (chain.engine node).Accepts platform chain.now message (line.upstream node))
    (hnewer : ∀ item ∈ pipe.log node, item.1 < message.sequenceNumber)
    (hsound : (pipe.record node message.sequenceNumber).Sound line.reach
      (REFRESH_INTERVAL_MS + jitter) delay)
    {queue : ℕ → List (P2PMessage × ℕ)} (hqueue : ∀ other, queue other =
      if other + 1 = node then (chain.queue other).tail else chain.queue other)
    {issued : List (ℕ × ℕ)}
    (hissued : (pipe.record node message.sequenceNumber).log 0 = issued) :
    Tracks line topic jitter delay
      (receive platform line { chain with queue, issued } node message pool draws)
      (pipe.record node message.sequenceNumber) := by
  have hlocal := h.localPeerId node hnode
  have hroutes (route) (hroute : route ∈ routeIn line topic (chain.engine node)) :
      route.sequenceNumber < message.sequenceNumber := by
    obtain ⟨item, hitem, heq⟩ := (h.held node hnode).sequenceNumber_eq hroute
    exact heq ▸ hnewer item (List.mem_of_getLast? hitem)
  obtain ⟨⟨engine, hengine, hlocal', hroute⟩, hcopies⟩ :=
    @receive_spec platform line topic { chain with queue, issued } node message pool draws hcarries
      hlocal haccepts hpool hroutes
  have hself : queue node = chain.queue node := by
    rw [hqueue, if_neg (Nat.succ_ne_self _)]
  have hother {other : ℕ} (hne : other ≠ node) :
      (receive platform line { chain with queue, issued } node message pool draws).queue other =
        if other + 1 = node then (chain.queue other).tail else chain.queue other := by
    rw [← hqueue]
    exact Function.update_of_ne hne ..
  have hsent (hlt : node < line.links) :
      (receive platform line { chain with queue, issued } node message pool draws).queue node =
        chain.queue node ++
          if 1 < message.ttl then [(relayed (line.name node) message, chain.now)] else [] := by
    rw [hcopies hlt, Function.update_self]
    dsimp only
    rw [hself]
  refine ⟨hsound, h.now, hissued, ?_, ?_, ?_, ?_, ?_⟩
  · intro other hle
    rw [hengine, Function.update_apply]
    split
    · subst other
      exact hlocal'
    · exact h.localPeerId other hle
  · intro other hlt copy hcopy
    by_cases hne : other = node
    · subst other
      rw [hsent hlt] at hcopy
      rcases List.mem_append.1 hcopy with hold | hnew
      · exact h.carries node hlt copy hold
      · split at hnew
        · rw [List.mem_singleton.1 hnew]
          exact hcarries.relayed
        · cases hnew
    · rw [hother hne] at hcopy
      split at hcopy
      · exact h.carries other hlt copy (List.mem_of_mem_tail hcopy)
      · exact h.carries other hlt copy hcopy
  · intro other hlt
    by_cases hne : other = node
    · subst other
      obtain ⟨hlinks, halive⟩ := lt_reach_iff.1 hlt
      rw [hsent hlinks, hcarries.ttl, if_pos halive, List.map_append, h.underWay node hlt,
        Pipeline.underWay_record_self (h.sound.delayed node hlt).length_le, h.now]
      rfl
    · rw [hother hne]
      split
      · subst node
        rw [List.map_tail, h.underWay other hlt, Pipeline.underWay_record_succ]
      · rw [h.underWay other hlt, Pipeline.underWay_record_of_ne hne ‹_›]
  · intro other hlt hle
    by_cases hne : other = node
    · subst other
      have hdead : ¬1 < message.ttl := by
        rw [hcarries.ttl]
        exact fun halive ↦ absurd (lt_reach_iff.2 ⟨hlt, halive⟩) (not_lt.2 hle)
      rw [hsent hlt, if_neg hdead, h.silent node hlt hle]
      rfl
    · rw [hother hne, h.silent other hlt hle]
      exact ite_self _
  · intro other hle
    rw [hengine, Function.update_apply, Pipeline.log_record]
    split
    · subst other
      rw [hroute, List.getLast?_concat, h.now]
      exact .route rfl rfl rfl
    · exact h.held other hle

/-- A change at one node that leaves the routes towards the origin alone, or lets them expire. -/
theorem Tracks.setEngine (h : Tracks line topic jitter delay chain pipe) {node : ℕ}
    {engine : GossipEngine} (hlocal : engine.localPeerId = (chain.engine node).localPeerId)
    (hheld : node ≤ line.links → Held chain.now (line.name (node - 1)) (pipe.log node).getLast?
      (routeIn line topic engine)) :
    Tracks line topic jitter delay (chain.setEngine node engine) pipe := by
  refine ⟨h.sound, h.now, h.issued, ?_, h.carries, h.underWay, h.silent, ?_⟩
  · intro other hle
    dsimp only [RelayChain.setEngine]
    rw [Function.update_apply]
    split
    · subst other
      exact hlocal.trans (h.localPeerId node hle)
    · exact h.localPeerId other hle
  · intro other hle
    dsimp only [RelayChain.setEngine]
    rw [Function.update_apply]
    split
    · subst other
      exact hheld hle
    · exact h.held other hle

/-- Every step of the chain is one of the pipeline, or none. -/
theorem exists_run_of_enabled (h : Tracks line topic jitter delay chain pipe) {event : Event}
    (henabled : Enabled platform line topic jitter delay chain event) :
    ∃ events pipe', (Pipeline.system line.reach (REFRESH_INTERVAL_MS + jitter) delay).Run pipe
        events pipe' ∧
      Tracks line topic jitter delay (chain.next platform line event) pipe' := by
  have hnone (htracks : Tracks line topic jitter delay (chain.next platform line event) pipe) :
      ∃ events pipe', (Pipeline.system line.reach (REFRESH_INTERVAL_MS + jitter) delay).Run pipe
          events pipe' ∧
        Tracks line topic jitter delay (chain.next platform line event) pipe' :=
    ⟨[], pipe, .nil _, htracks⟩
  have hone (abstract : Pipeline.Event ℕ) {pipe' : Pipeline ℕ}
      (hstep : (Pipeline.system line.reach (REFRESH_INTERVAL_MS + jitter) delay).step pipe abstract
        pipe')
      (htracks : Tracks line topic jitter delay (chain.next platform line event) pipe') :
      ∃ events pipe', (Pipeline.system line.reach (REFRESH_INTERVAL_MS + jitter) delay).Run pipe
          events pipe' ∧
        Tracks line topic jitter delay (chain.next platform line event) pipe' :=
    ⟨[] ++ [abstract], pipe', .snoc (.nil _) hstep, htracks⟩
  cases event with
  | advertise message pool draws =>
    obtain ⟨hpool, hcarries, hnewer, haccepts⟩ := henabled
    rw [← h.issued] at hnewer
    apply hone (.issue message.sequenceNumber) ⟨hnewer, rfl⟩
    apply h.arrive (Nat.zero_le _) hcarries hpool draws haccepts hnewer (h.sound.issue hnewer)
    · exact fun other ↦ (if_neg (Nat.succ_ne_zero _)).symm
    · rw [Pipeline.log_record, if_pos rfl, h.issued, h.now]
  | deliver node pool draws =>
    obtain ⟨hnode, hpool, haccepts⟩ := henabled
    match hcopies : chain.queue node with
    | [] =>
      apply hnone
      rw [next, hcopies]
      exact h
    | copy :: queue =>
      rw [hcopies] at haccepts
      have hreach : node < line.reach := by
        by_contra hbehind
        rw [h.silent node hnode (not_lt.1 hbehind)] at hcopies
        cases hcopies
      have hunderWay := h.underWay node hreach
      rw [hcopies, List.map_cons] at hunderWay
      have hitem : stamp copy ∈ (pipe.underWay node).head? := by
        rw [← hunderWay]
        rfl
      have hmem : stamp copy ∈ pipe.underWay node := List.mem_of_head? hitem
      have hcarries := h.carries node hnode copy (hcopies ▸ List.mem_cons_self)
      apply hone (.pass node) ⟨hreach, stamp copy, hitem, rfl⟩
      rw [next, hcopies]
      apply h.arrive hnode hcarries hpool draws (haccepts copy rfl)
        (fun item hold ↦ h.sound.lt_of_underWay hreach hmem hold) (h.sound.pass hreach hitem)
      · intro other
        rw [Function.update_apply]
        by_cases hsame : other = node
        · subst other
          rw [if_pos rfl, if_pos rfl, hcopies]
          rfl
        · rw [if_neg hsame, if_neg fun hsucc ↦ hsame (Nat.succ_injective hsucc)]
      · rw [Pipeline.log_record, if_neg (Nat.succ_ne_zero _).symm, h.issued]
  | gc node =>
    apply hnone
    refine @Tracks.setEngine line topic jitter delay chain pipe h node
      { chain.engine node with topicRouter := (chain.engine node).topicRouter.gc chain.now } rfl ?_
    intro hle
    have hgc := (h.held node hle).gc
    rw [routeIn, ← TopicRouter.routeOf_gc] at hgc
    exact hgc
  | elapse duration =>
    obtain ⟨hrecent, hdue⟩ := henabled
    rw [← h.issued, ← h.now] at hrecent
    have hunderWay : ∀ node < line.reach, ∀ item ∈ pipe.underWay node,
        pipe.now + duration ≤ item.2 + delay := by
      intro node hreach item hitem
      rw [← h.underWay node hreach] at hitem
      obtain ⟨copy, hcopy, rfl⟩ := List.mem_map.1 hitem
      rw [h.now]
      exact hdue node (lt_reach_iff.1 hreach).1 copy hcopy
    have hstep : (Pipeline.system line.reach (REFRESH_INTERVAL_MS + jitter) delay).step pipe
        (.elapse duration) { pipe with now := pipe.now + duration } := ⟨hrecent, hunderWay, rfl⟩
    exact hone (.elapse duration) hstep
      ⟨h.sound.step hstep, congrArg (· + duration) h.now, h.issued, h.localPeerId, h.carries,
        h.underWay, h.silent, fun node hle ↦ (h.held node hle).mono (Nat.le_add_right _ _)⟩
  | other node engine =>
    apply hnone
    apply h.setEngine henabled.1
    intro hle
    rw [henabled.2]
    exact h.held node hle

/-- The pipeline before anything has been advertised. -/
theorem Initial.tracks (h : Initial line topic chain) :
    Tracks line topic jitter delay chain ⟨chain.now, fun _ ↦ []⟩ where
  sound := Pipeline.sound_nil ..
  now := rfl
  issued := h.issued.symm
  localPeerId := h.localPeerId
  carries node _ copy hcopy := by
    rw [h.queue node] at hcopy
    cases hcopy
  underWay node _ := by
    rw [h.queue node]
    rfl
  silent node _ _ := h.queue node
  held node hle := by
    rw [h.routes node hle]
    exact .nothing

theorem exists_tracks_of_run (h : Initial line topic chain) {chain' : RelayChain}
    {events : List Event}
    (hrun : (system platform line topic jitter delay).Run chain events chain') :
    ∃ pipe, Tracks line topic jitter delay chain' pipe := by
  have hstep (before : RelayChain) (event : Event) (after : RelayChain) (pipe : Pipeline ℕ)
      (htracks : Tracks line topic jitter delay before pipe) (_ : True)
      (hnext : (system platform line topic jitter delay).step before event after) :
      ∃ events pipe', (Pipeline.system line.reach (REFRESH_INTERVAL_MS + jitter) delay).Run pipe
          events pipe' ∧ Tracks line topic jitter delay after pipe' := by
    rw [hnext.2]
    exact exists_run_of_enabled htracks hnext.1
  obtain ⟨_, pipe, _, htracks⟩ := hrun.guarded_true.simulates hstep h.tracks
  exact ⟨pipe, htracks⟩

/-- A node within the reach has a live route over the node before it, and the route is as old as
a refresh and the links on the way at most. A node behind the reach has none. -/
theorem routes_of_run {chain' : RelayChain} {events : List Event} (h : Initial line topic chain)
    (hrun : (system platform line topic jitter delay).Run chain events chain') {node : ℕ}
    (hnode : node ≤ line.links) :
    (node < Config.MAX_TTL → REFRESH_INTERVAL_MS + jitter + node * delay ≤ Config.ROUTE_LEASE_MS →
      ∀ first ∈ chain'.issued.head?, first.2 + node * delay < chain'.now →
      ∃ route, (chain'.engine node).topicRouter.leasedRouteOf chain'.now topic (line.name 0) =
          some route ∧
        route.nextHop = line.name (node - 1) ∧
        ∃ time, (route.sequenceNumber, time) ∈ chain'.issued ∧
          chain'.now ≤ time + (REFRESH_INTERVAL_MS + jitter) + node * delay) ∧
      (Config.MAX_TTL ≤ node →
        (chain'.engine node).topicRouter.routeOf topic (line.name 0) = none) := by
  obtain ⟨pipe, htracks⟩ := exists_tracks_of_run h hrun
  have hheld := htracks.held node hnode
  have hmax : Config.MAX_TTL = 10 := rfl
  have hreach : line.reach = min line.links 9 := rfl
  constructor
  · intro hlt hfits first hfirst hlate
    rw [← htracks.issued] at hfirst
    rw [← htracks.now] at hlate
    obtain ⟨last, hlast, item, hitem, hnumber, htime, hrecent⟩ :=
      htracks.sound.exists_recent (by omega) hfirst hlate
    rw [hlast] at hheld
    rw [htracks.issued] at hitem
    rw [htracks.now] at hrecent
    generalize hroute : routeIn line topic (chain'.engine node) = held at hheld
    cases hheld with
    | @route _ route hsequenceNumber hnextHop hexpiresAt =>
      have hlasts : WithTop.some chain'.now ≤ route.expiresAt := by
        rw [hexpiresAt]
        exact WithTop.coe_le_coe.2 (by omega)
      refine ⟨route, TopicRouter.leasedRouteOf_eq_some_iff.2 ⟨hroute, hlasts⟩, hnextHop, item.2, ?_,
        hrecent⟩
      rw [hsequenceNumber, ← hnumber]
      exact hitem
    | expired hexpired => omega
  · intro hle
    rw [htracks.sound.idle node (by omega)] at hheld
    generalize hroute : routeIn line topic (chain'.engine node) = held at hheld
    cases hheld
    exact hroute

/-! ## An example -/

instance (now : ℕ) (engine : GossipEngine) (message : P2PMessage) (fromPeerId : Option String) :
    Decidable (engine.Accepts platform now message fromPeerId) :=
  decidable_of_iff _ (engine.screen_fresh_iff platform now message fromPeerId)

instance (node : ℕ) (pool : ConnectionPool) : Decidable (line.Connects node pool) :=
  inferInstanceAs (Decidable (_ → _ ∧ ¬(_ ∧ _)))

instance (node : ℕ) (message : P2PMessage) : Decidable (Carries line topic node message) :=
  decidable_of_iff (message.type = .subAd ∧
    message.payload = .subAd topic message.sequenceNumber .join ∧ message.sender = line.name 0 ∧
    message.ttl = Config.MAX_TTL - node ∧
    message.routingPath.getD [] = (List.range node).map line.name)
    ⟨fun h ↦ ⟨h.1, h.2.1, h.2.2.1, h.2.2.2.1, h.2.2.2.2⟩,
      fun h ↦ ⟨h.type, h.payload, h.sender, h.ttl, h.path⟩⟩

instance (event : Event) : Decidable (Enabled platform line topic jitter delay chain event) :=
  match event with
  | .advertise .. => inferInstanceAs (Decidable (_ ∧ _ ∧ _ ∧ _))
  | .deliver .. => inferInstanceAs (Decidable (_ ∧ _ ∧ _))
  | .gc _ => inferInstanceAs (Decidable True)
  | .elapse _ => inferInstanceAs (Decidable (_ ∧ _))
  | .other .. => inferInstanceAs (Decidable (_ ∧ _))

/-- `origin`, `originx` and so on. -/
def neighbourOf (node : ℕ) : String := String.ofList ("origin".toList ++ List.replicate node 'x')

theorem neighbourOf_injective : Function.Injective neighbourOf := by
  intro node other heq
  have hsame := List.append_cancel_left (String.ofList_injective heq)
  have hlength := congrArg List.length hsame
  rwa [List.length_replicate, List.length_replicate] at hlength

theorem neighbourOf_ne_empty (node : ℕ) : neighbourOf node ≠ "" := by
  have hlist : "origin".toList ++ List.replicate node 'x' ≠ [] :=
    List.append_ne_nil_of_left_ne_nil (by decide) _
  exact fun heq ↦ hlist (String.ofList_eq_empty_iff.1 heq)

/-- Two links with forty milliseconds at most. -/
def threeNodes : Line where
  links := 2
  name := neighbourOf
  injective := neighbourOf_injective
  named := neighbourOf_ne_empty

def quietChain : RelayChain where
  now := 1000
  issued := []
  engine node := .new (neighbourOf node)
    (some (SecurityManager.init (neighbourOf node) ("key of " ++ neighbourOf node))) 20 5
  queue _ := []

def poolTo (node : ℕ) : ConnectionPool :=
  (ConnectionPool.new (neighbourOf node)).addInboundConnection ⟨0, neighbourOf (node + 1)⟩

def advertised (advert : Advert) (powNonce : ℕ) : P2PMessage :=
  { Advertisement.subAdOf advert powNonce with
    ttl := Config.MAX_TTL
    routingPath := some [] }

/-- An advertisement that goes to both neighbours, twenty milliseconds on each link. -/
def spread (advert : Advert) (powNonce : ℕ) : List Event :=
  [.advertise (advertised advert powNonce) (poolTo 0) fun _ ↦ 0,
    .elapse 20, .deliver 0 (poolTo 1) fun _ ↦ 0, .elapse 20, .deliver 1 (poolTo 2) fun _ ↦ 0]

def twoAdverts : List Event :=
  spread ⟨"join-1", 1, .join⟩ 797 ++
    [.elapse 5000, .gc 1, .gc 2, .elapse 9960] ++ spread ⟨"join-2", 2, .join⟩ 572 ++ [.elapse 14960]

def afterTwoAdverts : RelayChain := twoAdverts.foldl (next Pow.javaScript threeNodes) quietChain

theorem run_twoAdverts : (system Pow.javaScript threeNodes "news" 0 40).Run quietChain twoAdverts
    afterTwoAdverts := by
  apply TransitionSystem.run_ofNext
  decide +kernel

theorem initial_quietChain : Initial threeNodes "news" quietChain where
  issued := rfl
  queue _ := rfl
  localPeerId _ _ := rfl
  routes _ _ := rfl

theorem routes_of_run_twoAdverts : ∃ route,
    (afterTwoAdverts.engine 2).topicRouter.leasedRouteOf 31000 "news" "origin" = some route ∧
      route.nextHop = "originx" := by
  have hissued : (1, 1000) ∈ afterTwoAdverts.issued.head? := by decide +kernel
  have hnow : afterTwoAdverts.now = 31000 := by decide +kernel
  obtain ⟨route, hroute, hnextHop, -⟩ := (routes_of_run initial_quietChain run_twoAdverts
    (show 2 ≤ threeNodes.links from le_refl _)).1 (by decide) (by decide) _ hissued
    (by rw [hnow]; decide)
  rw [hnow] at hroute
  exact ⟨route, hroute, hnextHop⟩

end RelayChain

end P2PApp
