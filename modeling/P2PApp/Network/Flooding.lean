import P2PApp.Network.HonestNetwork

/-!
# How a message spreads

One message in a network of honest nodes, from its publication until none of its copies is in
flight. Who is next after a node is left open. As long as every node can serve all those who are
next, a node that accepts the message with hops to live passes it on to them, unless they have had
it before, and when nothing is in flight any more they have all seen it.
-/

namespace P2PApp.Network

variable {ι : Type*}

/-- The node has announced the message, as the event `message:new` of its engine. -/
def Emitted (world : World ι) (node : ι) (id : String) : Prop :=
  ∃ copy ∈ (world.process node).announcedLog, copy.message.id = id

/-- Every copy that was sent has been delivered. -/
def Quiet (events : List (Event ι)) (world : World ι) : Prop :=
  ∀ target copy, .gossip target copy ∈ world.sent →
    ∃ fromPeerId moment, .deliver target copy fromPeerId moment ∈ events

/-- Everybody among whom the node draws gets a copy, and of those who are next everybody is among
them who has not passed the message on before. -/
structure Serves (deployment : Deployment ι) (following : ι → ι → Prop) (process : Process ι)
    (node : ι) (copy : Copy ι) (fromPeerId : Option String) (now : ℕ) : Prop where
  fanout : (GossipEngine.eligiblePeers process.pool now process.engine.topicRouter copy.message
    fromPeerId).length ≤ Config.GOSSIP_FANOUT
  eligible : ∀ other, following node other → other ∈ copy.chain ∨
    deployment.name other ∈ GossipEngine.eligiblePeers process.pool now
      process.engine.topicRouter copy.message fromPeerId

/-- A copy of the message on its way from the publisher to the target. -/
structure Travels (message : P2PMessage) (publisher : ι) (copy : Copy ι) (target : ι) : Prop where
  message : copy.message = { message with
    ttl := message.ttl - copy.chain.length, routingPath := copy.message.routingPath }
  head : (copy.chain ++ [target]).head? = some publisher

/-- What a node has done with the message: it has announced a copy that came along a path from the
publisher, and while the copy had hops to live, those who are next have seen it or are to get
one. -/
def PassedOn (deployment : Deployment ι) (following : ι → ι → Prop) (message : P2PMessage)
    (publisher : ι) (world : World ι) (node : ι) : Prop :=
  ∃ copy ∈ (world.process node).announcedLog, copy.message.id = message.id ∧
    copy.message.ttl = message.ttl - copy.chain.length ∧
    copy.chain.IsChain deployment.graph.Adj ∧ copy.chain.head? = some publisher ∧
    copy.chain.getLast? = some node ∧
    (0 < copy.message.ttl → ∀ other, following node other →
      message.id ∈ (world.process other).engine.seenMessages ∨
        ∃ sent, .gossip other sent ∈ world.sent ∧ sent.message.id = message.id)

/-- Everybody who has seen the message has passed it on. -/
structure Floods (platform : Platform) (deployment : Deployment ι) (following : ι → ι → Prop)
    (message : P2PMessage) (publisher : ι) (world : World ι) : Prop where
  honest : HonestWorld platform deployment world
  published : message ∈ world.published
  copies : ∀ target copy, .gossip target copy ∈ world.sent → copy.message.id = message.id →
    Travels message publisher copy target
  passedOn : ∀ node, message.id ∈ (world.process node).engine.seenMessages →
    PassedOn deployment following message publisher world node

variable {platform : Platform} {deployment : Deployment ι} {following : ι → ι → Prop}
  {message : P2PMessage} {publisher : ι}

/-- Whenever a node is about to accept the message, a condition holds of the node, its process, the
copy, the neighbour that it comes from and the time. -/
def AtAcceptance (platform : Platform) (id : String)
    (condition : ι → Process ι → Copy ι → Option String → ℕ → Prop) (world : World ι) :
    Event ι → Prop
  | .publish node id' createdAt type payload options routingPath moment => id' = id →
    condition node (world.process node)
      ⟨(World.createMessage platform (world.process node) id' createdAt type payload options
        routingPath).1, []⟩ none moment.now
  | .deliver node copy fromPeerId moment => copy.message.id = id →
    id ∉ (world.process node).engine.seenMessages →
      condition node (world.process node) copy fromPeerId moment.now
  | _ => True

theorem AtAcceptance.mono {id : String}
    {condition condition' : ι → Process ι → Copy ι → Option String → ℕ → Prop}
    (h : ∀ node process copy fromPeerId now, condition node process copy fromPeerId now →
      condition' node process copy fromPeerId now) {world : World ι} {event : Event ι}
    (hcondition : AtAcceptance platform id condition world event) :
    AtAcceptance platform id condition' world event := by
  cases event with
  | publish => exact fun hid ↦ h _ _ _ _ _ (hcondition hid)
  | deliver => exact fun hid hunseen ↦ h _ _ _ _ _ (hcondition hid hunseen)
  | _ => trivial

instance (id : String) (condition : ι → Process ι → Copy ι → Option String → ℕ → Prop)
    [∀ node process copy fromPeerId now, Decidable (condition node process copy fromPeerId now)]
    (world : World ι) : DecidablePred (AtAcceptance platform id condition world)
  | .publish _ _ _ _ _ _ _ _ => inferInstanceAs (Decidable (_ → _))
  | .deliver _ _ _ _ => inferInstanceAs (Decidable (_ → _ → _))
  | .createControl _ => inferInstanceAs (Decidable True)
  | .sendSyncBatch .. | .deliverSyncBatch .. | .reconfigure .. => inferInstanceAs (Decidable True)

/-- Whenever a node is about to accept the message, it can serve everybody. -/
def ServesAll (platform : Platform) (deployment : Deployment ι) (following : ι → ι → Prop)
    (id : String) : World ι → Event ι → Prop :=
  AtAcceptance platform id fun node process copy fromPeerId now ↦
    Serves deployment following process node copy fromPeerId now

/-! ## One reception -/

/-- With hops to live, everybody among whom the node draws gets a copy, if that are few enough. -/
theorem Stationed.gossips {node other : ι} {process : Process ι}
    (h : Stationed deployment node process) {copy : Copy ι} {fromPeerId : Option String}
    {moment : Moment}
    (haccepts : process.engine.Accepts platform moment.now copy.message fromPeerId)
    (htype : copy.message.type ≠ .subAd) (hlive : 0 < copy.message.ttl - 1)
    (hfanout : (GossipEngine.eligiblePeers process.pool moment.now process.engine.topicRouter
      copy.message fromPeerId).length ≤ Config.GOSSIP_FANOUT)
    (heligible : deployment.name other ∈ GossipEngine.eligiblePeers process.pool moment.now
      process.engine.topicRouter copy.message fromPeerId) :
    .gossip other (copy.onward node { copy.message with ttl := copy.message.ttl - 1 }) ∈
      (process.receive platform (deployment.link node) node copy fromPeerId moment).2 := by
  have heffects := GossipEngine.receiveMessage_of_accepts process.pool moment.now moment.draws
    process.engine copy.message fromPeerId platform haccepts htype
  have hrouter := (process.engine.clocked_sameCore platform moment.now copy.message
    fromPeerId).topicRouter
  obtain ⟨⟨hpeer, -⟩, -⟩ := (GossipEngine.mem_eligiblePeers ..).1 heligible
  obtain ⟨connection, hconnection⟩ := ConnectionPool.exists_connection.2 hpeer
  obtain ⟨neighbour, hadj, hname⟩ := (h.peers _).1 hpeer
  obtain rfl := deployment.name_injective hname
  rw [← hrouter] at hfanout heligible
  obtain ⟨excluded, hforward, hreaches⟩ := GossipEngine.forwardMessage_eligible process.pool
    moment.now moment.draws
    { process.engine.clocked platform moment.now copy.message fromPeerId with
      seenMessages := insert copy.message.id process.engine.seenMessages }
    { copy.message with ttl := copy.message.ttl - 1 } fromPeerId hfanout heligible
  have hbroadcast : .broadcast { copy.message with ttl := copy.message.ttl - 1 } excluded ∈
      (process.engine.receiveMessage platform process.pool moment.now moment.draws copy.message
        fromPeerId).2 := by
    rw [heffects, if_pos hlive, hforward]
    exact List.mem_append_left _ (List.mem_singleton.2 rfl)
  apply List.mem_flatMap.2
  refine ⟨_, hbroadcast, List.mem_map.2 ⟨connection, hreaches connection hconnection, ?_⟩⟩
  rw [h.connections neighbour hadj connection hconnection]

/-- What a node makes of a message that it accepts while it can serve everybody. -/
theorem Stationed.announces {node : ι} {process : Process ι}
    (h : Stationed deployment node process) {copy : Copy ι} {fromPeerId : Option String}
    {moment : Moment}
    (haccepts : process.engine.Accepts platform moment.now copy.message fromPeerId)
    (htype : copy.message.type ≠ .subAd)
    (hserves : Serves deployment following process node copy fromPeerId moment.now) :
    ∃ announced, announced = copy.onward node { copy.message with ttl := copy.message.ttl - 1 } ∧
      announced ∈ (process.receive platform (deployment.link node) node copy fromPeerId
        moment).1.announcedLog ∧
      (0 < announced.message.ttl → ∀ other, following node other → other ∈ copy.chain ∨
        .gossip other announced ∈ (process.receive platform (deployment.link node) node copy
          fromPeerId moment).2) := by
  have hannounced : { copy.message with ttl := copy.message.ttl - 1 } ∈ announcements
      (process.engine.receiveMessage platform process.pool moment.now moment.draws copy.message
        fromPeerId).2 := by
    rw [GossipEngine.receiveMessage_of_accepts process.pool moment.now moment.draws process.engine
      copy.message fromPeerId platform haccepts htype]
    exact mem_announcements_append.2 (.inr (List.mem_singleton.2 rfl))
  refine ⟨_, rfl, List.mem_append_right _ (List.mem_map_of_mem hannounced), ?_⟩
  intro httl other hother
  rcases hserves.eligible other hother with hchain | heligible
  · exact .inl hchain
  · exact .inr (h.gossips haccepts htype httl hserves.fanout heligible)

/-- A neighbour is among those whom the node draws unless it has passed the message on itself,
provided that the routes lead there if the topic has routes. -/
theorem Stationed.mem_eligiblePeers_or_mem_chain {node other : ι} {process : Process ι}
    (h : Stationed deployment node process) {copy : Copy ι} {fromPeerId : Option String} {now : ℕ}
    (hadj : deployment.graph.Adj node other)
    (hsender : copy.message.sender = deployment.name publisher)
    (hhead : (copy.chain ++ [node]).head? = some publisher)
    (hfrom : fromPeerId = truthy (copy.chain.getLast?.map deployment.name))
    (hroutes : copy.message.topic ≠ "" ∧ copy.message.topic ≠ "global" → deployment.name other ∈
      process.engine.topicRouter.getPeersForTopic copy.message.topic now) :
    other ∈ copy.chain ∨ deployment.name other ∈ GossipEngine.eligiblePeers process.pool now
      process.engine.topicRouter copy.message fromPeerId := by
  by_cases hchain : other ∈ copy.chain
  · exact .inl hchain
  right
  apply (GossipEngine.mem_eligiblePeers ..).2
  refine ⟨⟨(h.peers _).2 ⟨other, hadj, rfl⟩, hroutes⟩, ?_, ?_⟩
  · intro hname
    obtain rfl := deployment.name_injective (hname.trans hsender)
    cases hpath : copy.chain with
    | nil =>
      rw [hpath] at hhead
      exact hadj.ne (Option.some.inj hhead)
    | cons first rest =>
      rw [hpath] at hhead hchain
      exact hchain (List.mem_cons.2 (.inl (Option.some.inj hhead).symm))
  · intro hname
    rw [hfrom] at hname
    obtain ⟨last, hlast, hsame⟩ := Option.map_eq_some_iff.1 (truthy_eq_some.1 hname).1
    obtain rfl := deployment.name_injective hsame
    exact hchain (List.mem_of_getLast? hlast)

/-- A copy that is passed on has travelled one hop more. -/
theorem Travels.onward {copy : Copy ι} {node : ι} (h : Travels message publisher copy node)
    {sent : P2PMessage} {target : ι}
    (hsent : sent = { copy.message with
      ttl := copy.message.ttl - 1, routingPath := sent.routingPath }) :
    Travels message publisher (copy.onward node sent) target where
  message := by
    have hmessage := h.message
    simp only [Copy.onward]
    rw [hsent, hmessage]
    simp only [List.length_append, List.length_singleton]
    congr 1
    push_cast
    omega
  head := by
    have hne : copy.chain ++ [node] ≠ [] := by simp
    exact (List.head?_append_of_ne_nil _ hne).trans h.head

/-- What has been passed on stays so when nothing is forgotten. -/
theorem PassedOn.mono {world after : World ι} {node : ι}
    (h : PassedOn deployment following message publisher world node)
    (hlog : (world.process node).announcedLog ⊆ (after.process node).announcedLog)
    (hgrows : Grows world after) (hsent : world.sent ⊆ after.sent) :
    PassedOn deployment following message publisher after node := by
  obtain ⟨copy, hcopy, hid, httl, hchain, hhead, hlast, hnext⟩ := h
  refine ⟨copy, hlog hcopy, hid, httl, hchain, hhead, hlast, fun hlive other hother ↦ ?_⟩
  rcases hnext hlive other hother with hseen | ⟨sent, hmem, hsame⟩
  · exact .inl (hgrows.seenMessages other hseen)
  · exact .inr ⟨sent, hsent hmem, hsame⟩

/-! ## Nothing in flight -/

/-- When nothing is in flight, those who are next have seen what came with hops to live. -/
theorem Floods.seen_of_following {world : World ι} {events : List (Event ι)}
    (h : Floods platform deployment following message publisher world)
    (hquiet : Quiet events world)
    (hdelivered : ∀ node copy fromPeerId moment, .deliver node copy fromPeerId moment ∈ events →
      copy.message.id ∈ (world.process node).engine.seenMessages)
    {node other : ι} (hseen : message.id ∈ (world.process node).engine.seenMessages)
    (hlive : ∀ copy ∈ (world.process node).announcedLog, copy.message.id = message.id →
      copy.chain.IsChain deployment.graph.Adj → copy.chain.head? = some publisher →
      copy.chain.getLast? = some node → (copy.chain.length : ℤ) < message.ttl)
    (hnext : following node other) :
    message.id ∈ (world.process other).engine.seenMessages := by
  obtain ⟨copy, hcopy, hid, httl, hchain, hhead, hlast, hpassed⟩ := h.passedOn node hseen
  have hlength := hlive copy hcopy hid hchain hhead hlast
  have hpositive : 0 < copy.message.ttl := by omega
  rcases hpassed hpositive other hnext with halready | ⟨sent, hsent, hsame⟩
  · exact halready
  · obtain ⟨fromPeerId, moment, hmem⟩ := hquiet other sent hsent
    rw [← hsame]
    exact hdelivered other sent fromPeerId moment hmem

/-- Nothing is in flight when everything that was sent is among the arrivals. -/
theorem quiet_of_arrivals {name : ι → String} {ways : List (List ι × ι)} {events : List (Event ι)}
    {world : World ι}
    (h : ∀ packet ∈ world.sent,
      packet ∈ ways.map fun way ↦ Packet.gossip way.2 (copyAlong message way.1)) :
    Quiet (events ++ arrivals name message ways) world := by
  intro target copy hsent
  obtain ⟨way, hway, heq⟩ := List.mem_map.1 (h _ hsent)
  cases heq
  exact ⟨_, _, List.mem_append_right _ (List.mem_map_of_mem hway)⟩

theorem Floods.emitted {world : World ι} {node : ι}
    (h : Floods platform deployment following message publisher world)
    (hseen : message.id ∈ (world.process node).engine.seenMessages) :
    Emitted world node message.id := by
  obtain ⟨copy, hcopy, hid, -⟩ := h.passedOn node hseen
  exact ⟨copy, hcopy, hid⟩

/-- A chain without repetition from a node to itself consists of the node. -/
theorem length_eq_one_of_ends {chain : List ι} {node : ι} (hnodup : chain.Nodup)
    (hhead : chain.head? = some node) (hlast : chain.getLast? = some node) :
    chain.length = 1 := by
  cases chain with
  | nil => cases hhead
  | cons first rest =>
    obtain rfl := Option.some.inj hhead
    cases rest with
    | nil => rfl
    | cons second rest =>
      have hmem : first ∈ second :: rest := by
        rw [List.getLast?_cons_cons] at hlast
        exact List.mem_of_getLast? hlast
      exact absurd hmem (List.nodup_cons.1 hnodup).1

/-! ## One step -/

variable [DecidableEq ι]

/-- A node that accepts the message passes it on. -/
theorem HonestWorld.passedOn_receive {world : World ι} (h : HonestWorld platform deployment world)
    (htype : message.type ≠ .subAd) {node : ι} {copy : Copy ι} (hcopy : Descends world copy)
    (hpath : (copy.chain ++ [node]).IsChain deployment.graph.Adj) {fromPeerId : Option String}
    {moment : Moment} (hid : copy.message.id = message.id)
    (haccepts : (world.process node).engine.Accepts platform moment.now copy.message fromPeerId)
    (htravels : Travels message publisher copy node)
    (hserves : Serves deployment following (world.process node) node copy fromPeerId moment.now) :
    PassedOn deployment following message publisher
      (world.receive platform deployment.link node copy fromPeerId moment) node := by
  have hgrows := grows_receive platform deployment.link world node copy fromPeerId moment
  have htypeCopy : copy.message.type ≠ .subAd := by rwa [htravels.message]
  have httlCopy : copy.message.ttl = message.ttl - copy.chain.length := by
    rw [htravels.message]
  obtain ⟨announced, rfl, hlog, hnext⟩ := (h.stationed node).announces haccepts htypeCopy hserves
  refine ⟨copy.onward node { copy.message with ttl := copy.message.ttl - 1 }, ?_, hid, ?_, hpath,
    htravels.head, by simp [Copy.onward], ?_⟩
  · rw [World.process_receive, World.process_setProcess_self]
    exact hlog
  · simp only [Copy.onward, List.length_append, List.length_singleton]
    push_cast
    omega
  · intro hlive next hfollowing
    rcases hnext hlive next hfollowing with hchain | hpacket
    · exact .inl (hgrows.seenMessages next (hid ▸ hcopy.seen next hchain))
    · exact .inr ⟨_, List.mem_append_right _ hpacket, hid⟩

theorem announcedLog_receive_subset (world : World ι) (node other : ι) (copy : Copy ι)
    (fromPeerId : Option String) (moment : Moment) :
    (world.process other).announcedLog ⊆
      ((world.receive platform deployment.link node copy fromPeerId moment).process
        other).announcedLog := by
  rw [World.process_receive]
  by_cases hother : other = node
  · subst hother
    rw [World.process_setProcess_self]
    exact List.subset_append_left _ _
  · rw [World.process_setProcess_of_ne world _ hother]
    exact List.Subset.refl _

theorem Floods.receive {world : World ι}
    (h : Floods platform deployment following message publisher world)
    (htype : message.type ≠ .subAd) {node : ι}
    {copy : Copy ι} (hcopy : Descends world copy)
    (hauthentic : Authentic platform deployment copy.message)
    (hpath : (copy.chain ++ [node]).IsChain deployment.graph.Adj) {fromPeerId : Option String}
    {moment : Moment} (hallowed : (world.process node).engine.Allowed moment.now fromPeerId)
    (htravels : copy.message.id = message.id → Travels message publisher copy node)
    (hserves : copy.message.id = message.id →
      message.id ∉ (world.process node).engine.seenMessages →
      Serves deployment following (world.process node) node copy fromPeerId moment.now) :
    Floods platform deployment following message publisher
      (world.receive platform deployment.link node copy fromPeerId moment) := by
  have hkept (other : ι) (hseen : message.id ∈ (world.process other).engine.seenMessages) :=
    (h.passedOn other hseen).mono
      (announcedLog_receive_subset world node other copy fromPeerId moment)
      (grows_receive platform deployment.link world node copy fromPeerId moment)
      (List.subset_append_left _ _)
  refine ⟨h.honest.receive hcopy hauthentic hpath hallowed, h.published, ?_, ?_⟩
  · intro target sent hmem hid
    rcases List.mem_append.1 hmem with hbefore | hnew
    · exact h.copies target sent hbefore hid
    · obtain ⟨_, passed, hpassed, heq⟩ := mem_packets hnew
      cases heq
      have hsame := (GossipEngine.of_mem_broadcasts _ _ _ _ _ _ platform hpassed).1
      have hcopyId : copy.message.id = message.id := by
        rw [← hid, Copy.onward, hsame]
      exact (htravels hcopyId).onward hsame
  · intro other hseen
    by_cases hbefore : message.id ∈ (world.process other).engine.seenMessages
    · exact hkept other hbefore
    · rw [World.process_receive] at hseen
      by_cases hother : other = node
      · subst hother
        rw [World.process_setProcess_self] at hseen
        obtain ⟨hid, haccepts⟩ := ((GossipEngine.mem_seenMessages_receiveMessage _ _ _ _ _ _
          platform message.id).1 hseen).resolve_left hbefore
        exact h.honest.passedOn_receive htype hcopy hpath hid.symm haccepts (htravels hid.symm)
          (hserves hid.symm hbefore)
      · rw [World.process_setProcess_of_ne world _ hother] at hseen
        exact absurd hseen hbefore

/-! ## The run -/

/-- Nothing changes for the message with the records of a node that are not about receptions. -/
theorem Floods.setProcess {world after : World ι}
    (h : Floods platform deployment following message publisher world)
    (hhonest : HonestWorld platform deployment after) {node : ι} {process : Process ι}
    (hprocess : after.process = (world.setProcess node process).process)
    (hengine : process.engine = (world.process node).engine)
    (hlog : process.announcedLog = (world.process node).announcedLog)
    (hpublished : world.published ⊆ after.published) (hsent : after.sent = world.sent) :
    Floods platform deployment following message publisher after := by
  have hrecords (member : ι) : (after.process member).engine = (world.process member).engine ∧
      (after.process member).announcedLog = (world.process member).announcedLog := by
    rw [hprocess]
    by_cases hmember : member = node
    · subst hmember
      rw [World.process_setProcess_self]
      exact ⟨hengine, hlog⟩
    · rw [World.process_setProcess_of_ne world _ hmember]
      exact ⟨rfl, rfl⟩
  refine ⟨hhonest, hpublished h.published, hsent ▸ h.copies, ?_⟩
  intro member hseen
  rw [(hrecords member).1] at hseen
  apply (h.passedOn member hseen).mono
  · rw [(hrecords member).2]
    exact List.Subset.refl _
  · exact ⟨hpublished, fun reader ↦ (hrecords reader).1 ▸ Finset.Subset.refl _⟩
  · rw [hsent]
    exact List.Subset.refl _

/-- A stamp adds to the publications and to the records of one process. -/
theorem Floods.stamp {world : World ι}
    (h : Floods platform deployment following message publisher world) (node : ι)
    (other : P2PMessage) (logicalClock : ℕ) :
    Floods platform deployment following message publisher
      (world.stamp node other logicalClock) :=
  h.setProcess (h.honest.stamp node other logicalClock) rfl rfl rfl
    (List.subset_append_left _ _) rfl

theorem Floods.control {world : World ι}
    (h : Floods platform deployment following message publisher world) (node : ι) :
    Floods platform deployment following message publisher (world.control node) :=
  h.setProcess (h.honest.setProcess rfl rfl rfl rfl rfl) rfl rfl rfl (List.Subset.refl _) rfl

/-- Before the message is published nobody has seen it and no copy of it is in flight. -/
theorem HonestWorld.floods_stamp {world : World ι} (h : HonestWorld platform deployment world)
    (hnew : ∀ known ∈ world.published, known.id ≠ message.id) (logicalClock : ℕ) :
    Floods platform deployment following message publisher
      (world.stamp publisher message logicalClock) := by
  refine ⟨h.stamp publisher message logicalClock,
    List.mem_append_right _ (List.mem_singleton.2 rfl), ?_, ?_⟩
  · intro target copy hmem hid
    obtain ⟨source, hsource, horigin, -⟩ := (h.disseminates.gossip target copy hmem).origin
    exact absurd (by rw [← hid, horigin]) (hnew source hsource)
  · intro node hseen
    have hbefore : message.id ∈ (world.process node).engine.seenMessages := by
      by_cases hnode : node = publisher
      · subst hnode
        rwa [World.stamp, World.process_setProcess_self] at hseen
      · rwa [World.stamp, World.process_setProcess_of_ne world _ hnode] at hseen
    obtain ⟨known, hknown, hid⟩ := h.published node _ hbefore
    exact absurd hid (hnew known hknown)

theorem Floods.next {world : World ι}
    (h : Floods platform deployment following message publisher world)
    (hcredible : Credible platform deployment) (htype : message.type ≠ .subAd) {event : Event ι}
    (horderly : Orderly platform deployment world event)
    (hserves : ServesAll platform deployment following message.id world event)
    (henabled : world.Enabled event) :
    Floods platform deployment following message publisher
      (world.next platform deployment.link event) := by
  cases event with
  | publish node id createdAt type payload options routingPath moment =>
    obtain ⟨hkey, hpuzzle⟩ := horderly
    have hother : id ≠ message.id := (henabled message h.published).symm
    apply (h.stamp node _ _).receive htype (disseminates_stamp node _ _ h.honest.disseminates).2
      ((h.honest.stationed node).authentic_createMessage hcredible hkey hpuzzle)
      (List.isChain_singleton _)
    · intro peerId hpeerId
      cases hpeerId
    · exact fun hid ↦ absurd hid hother
    · exact fun hid ↦ absurd hid hother
  | deliver node copy fromPeerId moment =>
    exact h.receive htype (h.honest.disseminates.gossip node copy henabled).toDescends
      (h.honest.authentic node copy henabled) (h.honest.paths node copy henabled) horderly.2
      (h.copies node copy henabled) hserves
  | createControl node => exact h.control node
  | sendSyncBatch node peerId copies => exact horderly.elim
  | deliverSyncBatch node deliveries fromPeerId => exact horderly.elim
  | reconfigure node pool topicRouter rateLimiter securityManager => exact horderly.elim

/-- No orderly step forgets an id. -/
theorem seenMessages_next {world : World ι} {event : Event ι}
    (horderly : Orderly platform deployment world event) (node : ι) :
    (world.process node).engine.seenMessages ⊆
      ((world.next platform deployment.link event).process node).engine.seenMessages := by
  have hset (member : ι) (process : Process ι)
      (hengine : process.engine = (world.process member).engine) :
      (world.process node).engine.seenMessages ⊆
        ((world.setProcess member process).process node).engine.seenMessages := by
    by_cases hnode : node = member
    · subst hnode
      rw [World.process_setProcess_self, hengine]
    · rw [World.process_setProcess_of_ne world _ hnode]
  cases event with
  | publish member id createdAt type payload options routingPath moment =>
    have hstamped := hset member ((world.process member).stamp (World.createMessage platform
      (world.process member) id createdAt type payload options routingPath).1
      (World.createMessage platform (world.process member) id createdAt type payload options
        routingPath).2) rfl
    exact hstamped.trans ((grows_receive platform deployment.link (world.stamp member _ _) member
      _ none moment).seenMessages node)
  | deliver member copy fromPeerId moment =>
    exact (grows_receive platform deployment.link world member copy fromPeerId
      moment).seenMessages node
  | createControl member => exact hset member _ rfl
  | sendSyncBatch member peerId copies => exact horderly.elim
  | deliverSyncBatch member deliveries fromPeerId => exact horderly.elim
  | reconfigure member pool topicRouter rateLimiter securityManager => exact horderly.elim

/-- What an honest node receives it has seen afterwards. -/
theorem HonestWorld.seen_receive {world : World ι} (h : HonestWorld platform deployment world)
    (hcredible : Credible platform deployment) {node : ι} {copy : Copy ι}
    (hauthentic : Authentic platform deployment copy.message) {fromPeerId : Option String}
    {moment : Moment} (hallowed : (world.process node).engine.Allowed moment.now fromPeerId) :
    copy.message.id ∈ ((world.receive platform deployment.link node copy fromPeerId
      moment).process node).engine.seenMessages := by
  rw [World.process_receive, World.process_setProcess_self]
  apply (GossipEngine.mem_seenMessages_receiveMessage ..).2
  by_cases hseen : copy.message.id ∈ (world.process node).engine.seenMessages
  · exact .inl hseen
  · have haccepts := (h.stationed node).accepts_iff hcredible hauthentic hallowed
    exact .inr ⟨rfl, haccepts.2 hseen⟩

section Publish

variable {world : World ι} {id createdAt : String} {type : MessageType} {payload : Payload}
  {options : MessageFactory.Options} {routingPath : Option (List String)} {moment : Moment}

/-- A publication that can be served starts a flood. -/
theorem HonestWorld.floods_publish (h : HonestWorld platform deployment world)
    (hcredible : Credible platform deployment) (htype : type ≠ .subAd)
    (horderly : Orderly platform deployment world
      (.publish publisher id createdAt type payload options routingPath moment))
    (henabled : world.Enabled
      (.publish publisher id createdAt type payload options routingPath moment))
    (hserves : Serves deployment following (world.process publisher) publisher
      ⟨(World.createMessage platform (world.process publisher) id createdAt type payload options
        routingPath).1, []⟩ none moment.now) :
    Floods platform deployment following
      (World.createMessage platform (world.process publisher) id createdAt type payload options
        routingPath).1 publisher
      (world.next platform deployment.link
        (.publish publisher id createdAt type payload options routingPath moment)) ∧
    id ∈ ((world.next platform deployment.link
      (.publish publisher id createdAt type payload options routingPath moment)).process
        publisher).engine.seenMessages := by
  obtain ⟨hkey, hpuzzle⟩ := horderly
  obtain ⟨message, hmessage⟩ : ∃ message, message = (World.createMessage platform
    (world.process publisher) id createdAt type payload options routingPath).1 := ⟨_, rfl⟩
  have hauthentic : Authentic platform deployment message :=
    hmessage ▸ (h.stationed publisher).authentic_createMessage hcredible hkey hpuzzle
  have hallowed (process : Process ι) : process.engine.Allowed moment.now none := by
    intro peerId hpeerId
    cases hpeerId
  have hstamped : Floods platform deployment following message publisher
      (world.stamp publisher message ((world.process publisher).logicalClock + 1)) :=
    h.floods_stamp (hmessage ▸ henabled) _
  have hreceived : Floods platform deployment following message publisher
      ((world.stamp publisher message ((world.process publisher).logicalClock + 1)).receive platform
        deployment.link publisher ⟨message, []⟩ none moment) := by
    apply hstamped.receive (hmessage ▸ htype)
      (disseminates_stamp publisher message _ h.disseminates).2 hauthentic
      (List.isChain_singleton _) (hallowed _)
    · exact fun _ ↦ ⟨by simp, rfl⟩
    · intro _ _
      rw [World.stamp, World.process_setProcess_self]
      rw [← hmessage] at hserves
      exact ⟨hserves.fanout, hserves.eligible⟩
  have hseen : message.id ∈ (((world.stamp publisher message
      ((world.process publisher).logicalClock + 1)).receive platform deployment.link publisher
        ⟨message, []⟩ none moment).process publisher).engine.seenMessages :=
    hstamped.honest.seen_receive hcredible hauthentic (hallowed _)
  rw [hmessage] at hreceived hseen
  exact ⟨hreceived, hseen⟩

end Publish

section Run

variable {initial world : World ι} {events : List (Event ι)}
  {guard : World ι → Event ι → Prop}

theorem seenMessages_of_guardedRun
    (horderly : ∀ world event, guard world event → Orderly platform deployment world event)
    (h : (World.system platform deployment.link).GuardedRun guard initial events world)
    (node : ι) :
    (initial.process node).engine.seenMessages ⊆ (world.process node).engine.seenMessages := by
  induction h with
  | nil => exact Finset.Subset.refl _
  | snoc _ hguard hlast ih =>
    obtain ⟨-, rfl⟩ := hlast
    exact ih.trans (seenMessages_next (horderly _ _ hguard) node)

theorem honestWorld_of_guardedRun (hcredible : Credible platform deployment)
    (horderly : ∀ world event, guard world event → Orderly platform deployment world event)
    (hhonest : HonestWorld platform deployment initial)
    (h : (World.system platform deployment.link).GuardedRun guard initial events world) :
    HonestWorld platform deployment world := by
  have hnext (before : World ι) (event : Event ι)
      (hbefore : HonestWorld platform deployment before) (hguard : guard before event)
      (henabled : before.Enabled event) :
      HonestWorld platform deployment (before.next platform deployment.link event) :=
    hbefore.next hcredible (horderly _ _ hguard) henabled
  exact h.invariant_next hnext hhonest

/-- Whatever has been delivered has been seen. -/
theorem seen_of_delivered (hcredible : Credible platform deployment)
    (horderly : ∀ world event, guard world event → Orderly platform deployment world event)
    (hhonest : HonestWorld platform deployment initial)
    (h : (World.system platform deployment.link).GuardedRun guard initial events world) {node : ι}
    {copy : Copy ι} {fromPeerId : Option String} {moment : Moment}
    (hmem : .deliver node copy fromPeerId moment ∈ events) :
    copy.message.id ∈ (world.process node).engine.seenMessages := by
  obtain ⟨before, after, first, second, hfirst, hguard, ⟨henabled, rfl⟩, hrest⟩ := h.split hmem
  have hworld := honestWorld_of_guardedRun hcredible horderly hhonest hfirst
  apply seenMessages_of_guardedRun horderly hrest node
  exact hworld.seen_receive hcredible (hworld.authentic node copy henabled)
    (horderly _ _ hguard).2

theorem Floods.of_guardedRun (hcredible : Credible platform deployment)
    (htype : message.type ≠ .subAd)
    (horderly : ∀ world event, guard world event → Orderly platform deployment world event)
    (hserves : ∀ world event, Floods platform deployment following message publisher world →
      guard world event → world.Enabled event →
        ServesAll platform deployment following message.id world event)
    (hfloods : Floods platform deployment following message publisher initial)
    (h : (World.system platform deployment.link).GuardedRun guard initial events world) :
    Floods platform deployment following message publisher world := by
  have hnext (before : World ι) (event : Event ι)
      (hbefore : Floods platform deployment following message publisher before)
      (hguard : guard before event) (henabled : before.Enabled event) :
      Floods platform deployment following message publisher
        (before.next platform deployment.link event) :=
    hbefore.next hcredible htype (horderly _ _ hguard) (hserves _ _ hbefore hguard henabled)
      henabled
  exact h.invariant_next hnext hfloods

/-- At the end of a run in which everybody could be served, those who have seen a published message
have passed it on. -/
theorem floods_of_publish (hcredible : Credible platform deployment)
    (horderly : ∀ world event, guard world event → Orderly platform deployment world event)
    (hhonest : HonestWorld platform deployment initial)
    (h : (World.system platform deployment.link).GuardedRun guard initial events world)
    {id createdAt : String} {type : MessageType} {payload : Payload}
    {options : MessageFactory.Options} {routingPath : Option (List String)} {moment : Moment}
    (htype : type ≠ .subAd)
    (hpublish : .publish publisher id createdAt type payload options routingPath moment ∈ events)
    (hserved : ∀ current, HonestWorld platform deployment current →
      guard current (.publish publisher id createdAt type payload options routingPath moment) →
        ServesAll platform deployment following id current
          (.publish publisher id createdAt type payload options routingPath moment))
    (hserves : ∀ message, message.id = id → message.sender = deployment.name publisher →
      message.topic = options.topic.getD "global" → ∀ current event,
        Floods platform deployment following message publisher current → guard current event →
          current.Enabled event → ServesAll platform deployment following id current event) :
    ∃ message, message.id = id ∧ message.ttl = options.ttl.getD Config.MAX_TTL ∧
      Floods platform deployment following message publisher world ∧
      id ∈ (world.process publisher).engine.seenMessages := by
  obtain ⟨before, after, first, second, hfirst, hguard, ⟨henabled, rfl⟩, hrest⟩ := h.split hpublish
  have hworld := honestWorld_of_guardedRun hcredible horderly hhonest hfirst
  obtain ⟨hpublished, hseen⟩ := hworld.floods_publish hcredible htype (horderly _ _ hguard) henabled
    (hserved first hworld hguard rfl)
  refine ⟨(World.createMessage platform (first.process publisher) id createdAt type payload options
    routingPath).1, rfl, rfl, ?_, seenMessages_of_guardedRun horderly hrest publisher hseen⟩
  exact hpublished.of_guardedRun hcredible htype horderly
    (hserves _ rfl (hworld.stationed publisher).localPeerId rfl) hrest

end Run

end P2PApp.Network
