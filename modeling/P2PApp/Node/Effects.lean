import P2PApp.Node.P2PNode

/-!
# What an event can do to a node

Two things about a node are of interest over whole runs: the public keys it has bound to peers, and
the ids under which its outbound clients are filed. Every event keeps both in order, in a sense
made precise by one relation, with a single exception: a relayed `HELLO` writes the key of whatever
peer it names.
-/

namespace P2PApp.Node

open JavaScript

namespace SecurityManager

theorem keyOf_registerPeerKey (manager : SecurityManager) (peerId other : Key)
    (publicKey : Value) :
    (manager.registerPeerKey peerId publicKey).keyOf other =
      if other = peerId then publicKey else manager.keyOf other := by
  rw [keyOf, registerPeerKey, OrderedMap.get?_set]
  split
  · rfl
  · rfl

/-- Verification only ever learns the key of a peer that has none. -/
theorem keyOf_verifyIncomingMessage (runtime : Runtime) (manager : SecurityManager)
    (message : Value) {peerId : Key} (hbound : (manager.keyOf peerId).truthy = true) :
    (manager.verifyIncomingMessage runtime message).2.keyOf peerId = manager.keyOf peerId := by
  unfold verifyIncomingMessage
  dsimp only
  split
  · rfl
  · by_cases hlearns : (manager.keyOf (message.property "sender").key).truthy = false ∧
        (message.property "senderPublicKey").truthy = true
    · have hother : peerId ≠ (message.property "sender").key := by
        rintro rfl
        rw [hbound] at hlearns
        cases hlearns.1
      simp [hlearns, keyOf_registerPeerKey, hother]
    · simp only [hlearns, if_false]
      split <;> rfl

/-- A message of a peer with a bound key is valid only under that key. -/
theorem verify_of_verifyIncomingMessage {runtime : Runtime} {manager : SecurityManager}
    {message : Value} {peerId : Key} (hbound : (manager.keyOf peerId).truthy = true)
    (hsender : (message.property "sender").key = peerId)
    (hvalid : (manager.verifyIncomingMessage runtime message).1 = true) :
    runtime.verify (signedFields message) (message.property "signature")
      (manager.keyOf peerId) = true := by
  subst hsender
  unfold verifyIncomingMessage at hvalid
  simp only [hbound, Bool.true_eq_false, false_and, if_false] at hvalid
  split at hvalid
  · cases hvalid
  · exact hvalid

end SecurityManager

namespace GossipEngine

variable {runtime : Runtime} {now : ℕ} {engine after : GossipEngine} {message : Value}
  {fromPeerId : Key}

theorem checkLimit_eq (engine : GossipEngine) (now : ℕ) (fromPeerId : Key) :
    ∃ rateLimiter, (engine.checkLimit now fromPeerId).2 = { engine with rateLimiter } := by
  unfold checkLimit
  split
  · exact ⟨_, rfl⟩
  · exact ⟨engine.rateLimiter, rfl⟩

@[simp] theorem securityManager_checkLimit (engine : GossipEngine) (now : ℕ) (fromPeerId : Key) :
    (engine.checkLimit now fromPeerId).2.securityManager = engine.securityManager := by
  obtain ⟨rateLimiter, heq⟩ := engine.checkLimit_eq now fromPeerId
  rw [heq]

theorem updateClock_eq {lamportTimestamp : Value}
    (h : engine.updateClock runtime lamportTimestamp = some after) :
    ∃ lamportClock, after = { engine with lamportClock } := by
  unfold updateClock at h
  split at h
  · obtain ⟨receivedTime, _, rfl⟩ := Option.map_eq_some_iff.1 h
    exact ⟨_, rfl⟩
  · cases h
    exact ⟨engine.lamportClock, rfl⟩

/-- How the clock advances depends on the clock and the stamp alone. -/
theorem lamportClock_updateClock (runtime : Runtime) (engine : GossipEngine)
    (lamportTimestamp : Value) :
    (engine.updateClock runtime lamportTimestamp).map lamportClock =
      if lamportTimestamp.truthy then
        (lamportTimestamp.toNumber runtime.toConversions).map fun receivedTime ↦
          (engine.lamportClock.max receivedTime).add 1
      else some engine.lamportClock := by
  unfold updateClock
  split
  · rw [Option.map_map]
    rfl
  · rfl

/-- What the checks of a message can do. -/
inductive Screening (runtime : Runtime) (engine : GossipEngine) (message : Value) :
    Bool → GossipEngine → Prop
  /-- They end before the signature is verified. -/
  | dropped (rateLimiter : RateLimiter Key) :
      Screening runtime engine message false { engine with rateLimiter }
  | unsigned (rateLimiter : RateLimiter Key) :
      Screening runtime engine message false
        { engine with
          rateLimiter
          securityManager := (engine.securityManager.verifyIncomingMessage runtime message).2 }
  | duplicate (rateLimiter : RateLimiter Key) (lamportClock : Number) :
      Screening runtime engine message false
        { engine with
          rateLimiter
          securityManager := (engine.securityManager.verifyIncomingMessage runtime message).2
          lamportClock }
  | passed (rateLimiter : RateLimiter Key) (lamportClock : Number)
      (hvalid : (engine.securityManager.verifyIncomingMessage runtime message).1 = true)
      (hclock : (engine.updateClock runtime (message.property "lamportTimestamp")).map
        GossipEngine.lamportClock = some lamportClock)
      (hunseen : (message.property "id").key ∉ engine.seenMessages) :
      Screening runtime engine message true
        { engine with
          rateLimiter
          securityManager := (engine.securityManager.verifyIncomingMessage runtime message).2
          lamportClock
          seenMessages := insert (message.property "id").key engine.seenMessages }

theorem screening_screen {passed : Bool}
    (h : engine.screen runtime now message fromPeerId = some (passed, after)) :
    Screening runtime engine message passed after := by
  obtain ⟨rateLimiter, hlimited⟩ := engine.checkLimit_eq now fromPeerId
  unfold screen at h
  dsimp only at h
  rw [hlimited] at h
  split at h
  · cases h
  · split at h
    · cases h
    · cases h
      exact .dropped engine.rateLimiter
    · split at h
      · cases h
        exact .dropped rateLimiter
      · split at h
        · cases h
          exact .unsigned rateLimiter
        · rename_i hvalid
          obtain ⟨clocked, hclocked, hresult⟩ := Option.map_eq_some_iff.1 h
          obtain ⟨lamportClock, rfl⟩ := updateClock_eq hclocked
          have hclock := congrArg (Option.map GossipEngine.lamportClock) hclocked
          rw [lamportClock_updateClock] at hclock
          split at hresult
          · cases hresult
            exact .duplicate rateLimiter lamportClock
          · rename_i hunseen
            cases hresult
            refine .passed rateLimiter lamportClock (eq_true_of_ne_false hvalid) ?_ hunseen
            rw [lamportClock_updateClock]
            exact hclock

/-- The checks leave the keys to the verification of the signature, if they get there. -/
theorem securityManager_screen {passed : Bool}
    (h : engine.screen runtime now message fromPeerId = some (passed, after)) :
    after.securityManager = engine.securityManager ∨
      after.securityManager =
        (engine.securityManager.verifyIncomingMessage runtime message).2 := by
  cases screening_screen h with
  | dropped rateLimiter => exact .inl rfl
  | unsigned rateLimiter => exact .inr rfl
  | duplicate rateLimiter lamportClock => exact .inr rfl
  | passed rateLimiter lamportClock hvalid hclock hunseen => exact .inr rfl

theorem eq_of_routeAdvert {payload : Value} {path : Path}
    (h : engine.routeAdvert runtime now message payload path fromPeerId = some after) :
    ∃ topicRouter, after = { engine with topicRouter } := by
  unfold routeAdvert at h
  obtain ⟨routed, _, hresult⟩ := Option.bind_eq_some_iff.1 h
  dsimp only at hresult
  split at hresult
  · cases hresult
  · cases hresult
    exact ⟨_, rfl⟩

theorem eq_of_processSubAd {announced : Bool}
    (h : engine.processSubAd runtime now message fromPeerId = some (after, announced)) :
    ∃ topicRouter, after = { engine.countParse with topicRouter } := by
  unfold processSubAd at h
  split at h
  · cases h
    exact ⟨engine.topicRouter, rfl⟩
  · split at h
    · cases h
    · split at h
      · cases h
      · split at h
        · cases h
          exact ⟨engine.topicRouter, rfl⟩
        · obtain ⟨routed, hrouted, hresult⟩ := Option.map_eq_some_iff.1 h
          cases hresult
          exact eq_of_routeAdvert hrouted

theorem eq_of_processGossip {announced : Bool}
    (h : engine.processGossip message = some (after, announced)) : after = engine := by
  unfold processGossip at h
  split at h
  · cases h
  · cases h
    rfl

theorem keyOf_receiveMessage {announced : Bool}
    (h : engine.receiveMessage runtime now message fromPeerId = some (after, announced))
    {peerId : Key} (hbound : (engine.securityManager.keyOf peerId).truthy = true) :
    after.securityManager.keyOf peerId = engine.securityManager.keyOf peerId := by
  have hscreen {passed : Bool} {screened : GossipEngine}
      (hscreened : engine.screen runtime now message fromPeerId = some (passed, screened)) :
      screened.securityManager.keyOf peerId = engine.securityManager.keyOf peerId := by
    rcases securityManager_screen hscreened with hsame | hverified
    · rw [hsame]
    · rw [hverified]
      exact SecurityManager.keyOf_verifyIncomingMessage runtime _ message hbound
  unfold receiveMessage at h
  split at h
  · cases h
  · rename_i hscreened
    cases h
    exact hscreen hscreened
  · rename_i hscreened
    rw [← hscreen hscreened]
    split at h
    · obtain ⟨topicRouter, rfl⟩ := eq_of_processSubAd h
      rfl
    · rw [eq_of_processGossip h]

end GossipEngine

namespace P2PNode

/-- The public key bound to a peer. -/
def keyOf (node : P2PNode) (peerId : Key) : Value :=
  node.gossipEngine.securityManager.keyOf peerId

/-- Every outbound client in the pool is filed under the id it was dialled with. -/
def WellDialled (node : P2PNode) : Prop :=
  ∀ peerId client, node.connectionPool.outboundConnections.get? peerId = some client →
    node.dialled[client.clientId]? = some peerId

/-- What every event other than a relayed `HELLO` does to the bindings and to the clients. -/
structure Evolves (before after : P2PNode) : Prop where
  dialled : before.dialled <+: after.dialled
  wellDialled : before.WellDialled → after.WellDialled
  bound : ∀ peerId, (before.keyOf peerId).truthy = true → after.keyOf peerId = before.keyOf peerId

namespace Evolves

theorem refl (node : P2PNode) : Evolves node node where
  dialled := List.prefix_refl _
  wellDialled h := h
  bound _ _ := rfl

theorem trans {first second third : P2PNode} (h : Evolves first second)
    (h' : Evolves second third) : Evolves first third where
  dialled := h.dialled.trans h'.dialled
  wellDialled hfirst := h'.wellDialled (h.wellDialled hfirst)
  bound peerId hbound := by
    have hsame := h.bound peerId hbound
    rw [h'.bound peerId (hsame ▸ hbound), hsame]

/-- Clients may leave the pool or change their connection as long as nothing else happens. -/
theorem of_clients {before after : P2PNode} (hdialled : after.dialled = before.dialled)
    (hclients : ∀ peerId client,
      after.connectionPool.outboundConnections.get? peerId = some client →
        ∃ old, before.connectionPool.outboundConnections.get? peerId = some old ∧
          old.clientId = client.clientId)
    (hkeys : ∀ peerId, (before.keyOf peerId).truthy = true →
      after.keyOf peerId = before.keyOf peerId) : Evolves before after where
  dialled := hdialled ▸ List.prefix_refl _
  wellDialled h peerId client hclient := by
    obtain ⟨old, hold, hid⟩ := hclients peerId client hclient
    rw [hdialled, ← hid]
    exact h peerId old hold
  bound := hkeys

/-- An event that concerns neither the bindings nor the clients. -/
theorem of_eq {before after : P2PNode} (hdialled : after.dialled = before.dialled)
    (hclients : after.connectionPool.outboundConnections =
      before.connectionPool.outboundConnections)
    (hkeys : after.gossipEngine.securityManager = before.gossipEngine.securityManager) :
    Evolves before after :=
  of_clients hdialled (fun _ client h ↦ ⟨client, hclients ▸ h, rfl⟩)
    fun _ _ ↦ by rw [keyOf, keyOf, hkeys]

end Evolves

variable {runtime : Runtime} {clock : ℕ → ℕ} {now : ℕ} {node after : P2PNode} {message : Value}
  {fromPeerId : Key}

/-! ## The gossip engine and the managers -/

theorem save_eq (h : node.save runtime message = some after) :
    ∃ saved, after = { node with saved } := by
  unfold save at h
  split at h
  · cases h
  · obtain ⟨key, _, rfl⟩ := Option.map_eq_some_iff.1 h
    exact ⟨_, rfl⟩

theorem messageNew_eq (h : node.messageNew runtime message = some after) :
    ∃ saved, after = { node with saved } := by
  unfold messageNew at h
  split at h
  · cases h
    exact ⟨_, rfl⟩
  · exact save_eq h

theorem receiveMessage_eq
    (h : node.receiveMessage runtime now message fromPeerId = some after) :
    ∃ gossipEngine announced saved,
      node.gossipEngine.receiveMessage runtime now message fromPeerId =
        some (gossipEngine, announced) ∧
      after = { node with gossipEngine, saved } := by
  unfold receiveMessage at h
  obtain ⟨⟨gossipEngine, announced⟩, hengine, hresult⟩ := Option.bind_eq_some_iff.1 h
  dsimp only at hresult
  split at hresult
  · obtain ⟨saved, rfl⟩ := messageNew_eq hresult
    exact ⟨gossipEngine, _, saved, hengine, rfl⟩
  · cases hresult
    exact ⟨gossipEngine, _, node.saved, hengine, rfl⟩

theorem receiveItem_cases {item : Value × ℕ}
    (h : node.receiveItem runtime fromPeerId item = some after) :
    after = node ∨ node.receiveMessage runtime item.2 item.1 fromPeerId = some after := by
  unfold receiveItem at h
  split at h
  · cases h
  · split at h
    · cases h
      exact .inl rfl
    · exact .inr h

/-- What holds across every message, and across a parse, holds across a batch. -/
theorem rel_of_receiveSyncBatch (rel : P2PNode → P2PNode → Prop) (hrefl : ∀ node, rel node node)
    (htrans : ∀ {first second third}, rel first second → rel second third → rel first third)
    (hcount : ∀ node, rel node node.countParse)
    (hmessage : ∀ {before after : P2PNode} {now message},
      before.receiveMessage runtime now message fromPeerId = some after → rel before after)
    (h : node.receiveSyncBatch runtime clock message fromPeerId = some after) :
    rel node after := by
  unfold receiveSyncBatch at h
  split at h
  · cases h
  · refine htrans (hcount node) (rel_of_foldlM rel hrefl htrans (fun hitem ↦ ?_) h)
    rcases receiveItem_cases hitem with rfl | hreceived
    · exact hrefl _
    · exact hmessage hreceived
  · cases h
    exact hcount node

theorem receiveSyncAck_eq (h : node.receiveSyncAck runtime message fromPeerId = some after) :
    ∃ syncManager, after = { node.countParse with syncManager } := by
  unfold receiveSyncAck at h
  split at h
  · cases h
  · split at h
    · cases h
    · split at h
      · split at h
        · cases h
          exact ⟨_, rfl⟩
        · cases h
          exact ⟨node.syncManager, rfl⟩
      · cases h
        exact ⟨node.syncManager, rfl⟩

theorem receiveAck_eq (runtime : Runtime) (node : P2PNode) (message : Value) :
    ∃ ackManager, node.receiveAck runtime message = { node.countParse with ackManager } := by
  unfold receiveAck
  split
  · exact ⟨_, rfl⟩
  · exact ⟨node.ackManager, rfl⟩

theorem updateHeartbeat_eq (now : ℕ) (node : P2PNode) (peerId : Key) :
    ∃ peers, node.updateHeartbeat now peerId = { node with peers } := by
  unfold updateHeartbeat
  split
  · exact ⟨node.peers, rfl⟩
  · exact ⟨_, rfl⟩

theorem evolves_receiveMessage
    (h : node.receiveMessage runtime now message fromPeerId = some after) :
    Evolves node after := by
  obtain ⟨gossipEngine, announced, saved, hengine, rfl⟩ := receiveMessage_eq h
  exact .of_clients rfl (fun _ client h ↦ ⟨client, h, rfl⟩)
    fun peerId hbound ↦ GossipEngine.keyOf_receiveMessage hengine hbound

theorem evolves_receiveSyncAck
    (h : node.receiveSyncAck runtime message fromPeerId = some after) : Evolves node after := by
  obtain ⟨syncManager, rfl⟩ := receiveSyncAck_eq h
  exact .of_eq rfl rfl rfl

theorem evolves_receiveAck (runtime : Runtime) (node : P2PNode) (message : Value) :
    Evolves node (node.receiveAck runtime message) := by
  obtain ⟨ackManager, heq⟩ := receiveAck_eq runtime node message
  rw [heq]
  exact .of_eq rfl rfl rfl

theorem evolves_updateHeartbeat (now : ℕ) (node : P2PNode) (peerId : Key) :
    Evolves node (node.updateHeartbeat now peerId) := by
  obtain ⟨peers, heq⟩ := updateHeartbeat_eq now node peerId
  rw [heq]
  exact .of_eq rfl rfl rfl

/-! ## Handshakes -/

/-- Registering a subscription leaves the other routes, and the new ones lead to the peer. -/
theorem routeOf_registerSubscription {peerId : Key} {router router' : Router} {topic : Value}
    (h : registerSubscription runtime now peerId router topic = some router')
    (topic' origin : Key) (route : Route Key Value (List Key))
    (hroute : router'.routeOf topic' origin = some route) :
    router.routeOf topic' origin = some route ∨ route.nextHop = peerId := by
  obtain ⟨⟨changed, updated⟩, hupdate, rfl⟩ := Option.map_eq_some_iff.1 h
  let _ := runtime.sequenceNumber
  have hsecond := congrArg Prod.snd (GossipEngine.eq_of_updateRoute hupdate)
  dsimp only at hsecond hroute
  rw [hsecond] at hroute
  rcases router.updateRoute_cases topic.key peerId peerId 0 (.number (.finite 0)) []
    (WithTop.some (now + Config.ROUTE_LEASE_MS)) with ⟨heq, _⟩ |
    ⟨existing, _, _, _, hnext, heq⟩ | ⟨existing, _, _, _, heq⟩
  · rw [heq, TopicRouter.routeOf_setRoute] at hroute
    split at hroute
    · cases hroute
      exact .inr rfl
    · exact .inl hroute
  · rw [heq, TopicRouter.routeOf_setRoute] at hroute
    split at hroute
    · cases hroute
      exact .inr hnext.symm
    · exact .inl hroute
  · rw [heq] at hroute
    exact .inl hroute

theorem registerSubscriptions_eq {peerId : Key} {subscriptions : Value}
    (h : node.registerSubscriptions runtime now peerId subscriptions = some after) :
    ∃ topicRouter : Router,
      after = { node with gossipEngine := { node.gossipEngine with topicRouter } } ∧
      ∀ topic origin route, topicRouter.routeOf topic origin = some route →
        node.gossipEngine.topicRouter.routeOf topic origin = some route ∨
          route.nextHop = peerId := by
  unfold registerSubscriptions at h
  split at h
  · obtain ⟨topicRouter, hloop, rfl⟩ := Option.map_eq_some_iff.1 h
    refine ⟨topicRouter, rfl, ?_⟩
    refine rel_of_foldlM (fun router router' : Router ↦ ∀ topic origin route,
      router'.routeOf topic origin = some route →
        router.routeOf topic origin = some route ∨ route.nextHop = peerId)
      (fun _ _ _ _ hroute ↦ .inl hroute) ?_ routeOf_registerSubscription hloop
    intro first second third h h' topic origin route hroute
    rcases h' topic origin route hroute with hbefore | hnew
    · exact h topic origin route hbefore
    · exact .inr hnew
  · cases h
    exact ⟨_, rfl, fun _ _ _ hroute ↦ .inl hroute⟩

theorem onPeerReconnected_eq {peerId : Value} (h : node.onPeerReconnected peerId = some after) :
    after = { node with
      syncManager := { node.syncManager with
        reconnected := node.syncManager.reconnected ++ [peerId.key] } } := by
  unfold onPeerReconnected at h
  split at h <;> cases h
  rfl

/-- What the node does on a relayed `HELLO`: it binds the announced peer to the announced key, and
takes the announced id for a next hop and for the peer to synchronise with. -/
structure Greeted (message : Value) (before after : P2PNode) : Prop where
  connectionPool : after.connectionPool = before.connectionPool
  dialled : after.dialled = before.dialled
  keys : after.gossipEngine.securityManager =
    before.gossipEngine.securityManager.registerPeerKey (message.property "peerId").key
      (message.property "publicKey")
  reconnected : after.syncManager.reconnected =
    before.syncManager.reconnected ++ [(message.property "peerId").key]
  routes : ∀ topic origin route,
    after.gossipEngine.topicRouter.routeOf topic origin = some route →
      before.gossipEngine.topicRouter.routeOf topic origin = some route ∨
        route.nextHop = (message.property "peerId").key

theorem greeted_receiveHello (h : node.receiveHello runtime now message = some after) :
    Greeted message node after := by
  unfold receiveHello at h
  dsimp only at h
  obtain ⟨subscribed, hsubscribed, hresult⟩ := Option.bind_eq_some_iff.1 h
  obtain ⟨topicRouter, rfl, hroutes⟩ := registerSubscriptions_eq hsubscribed
  obtain rfl := onPeerReconnected_eq hresult
  obtain ⟨peers, heq⟩ := updateHeartbeat_eq now
    (node.registerPeerKey (message.property "peerId").key (message.property "publicKey"))
    (message.property "peerId").key
  rw [heq] at hroutes ⊢
  exact ⟨rfl, rfl, rfl, rfl, hroutes⟩

/-! ## Clients -/

theorem connect_cases {peerId host port : Value}
    (h : node.connect runtime peerId host port = some after) :
    after = node ∨ ∃ client : WSClient Key, client.clientId = node.dialled.length ∧
      after = { node with
        connectionPool := { node.connectionPool with
          outboundConnections := node.connectionPool.outboundConnections.set peerId.key client }
        dialled := node.dialled ++ [peerId.key] } := by
  unfold connect at h
  split at h
  · cases h
    exact .inl rfl
  · rename_i hfresh
    split at h
    · obtain ⟨text, _, rfl⟩ := Option.map_eq_some_iff.1 h
      exact .inl rfl
    · rename_i hroom
      obtain ⟨url, _, hresult⟩ := Option.bind_eq_some_iff.1 h
      split at hresult <;> cases hresult
      rw [ConnectionPool.connect, if_neg hfresh, if_neg hroom]
      exact .inr ⟨_, rfl, rfl⟩

theorem addPeer_cases {peerId host port : Value}
    (h : node.addPeer runtime now peerId host port = some after) :
    after = node ∨
      ∃ peers, { node with peers : P2PNode }.connect runtime peerId host port = some after := by
  unfold addPeer at h
  split at h
  · cases h
    exact .inl rfl
  · exact .inr ⟨_, h⟩

/-- What holds across every addition of a peer holds across an exchange. -/
theorem rel_of_peerExchange (rel : P2PNode → P2PNode → Prop) (hrefl : ∀ node, rel node node)
    (htrans : ∀ {first second third}, rel first second → rel second third → rel first third)
    (haddPeer : ∀ {before after : P2PNode} {peerId host port},
      before.addPeer runtime now peerId host port = some after → rel before after)
    (h : node.peerExchange runtime now message = some after) : rel node after := by
  unfold peerExchange at h
  split at h
  · split at h
    · refine rel_of_foldlM rel hrefl htrans (fun hpeer ↦ ?_) h
      unfold receivePeer at hpeer
      dsimp only at hpeer
      split at hpeer
      · cases hpeer
      · split at hpeer
        · exact haddPeer hpeer
        · cases hpeer
          exact hrefl _
    · cases h
      exact hrefl node
  · cases h
    exact hrefl node

theorem evolves_connect {peerId host port : Value}
    (h : node.connect runtime peerId host port = some after) : Evolves node after := by
  rcases connect_cases h with rfl | ⟨client, hid, rfl⟩
  · exact .refl _
  · refine ⟨List.prefix_append _ _, fun hbefore other found hfound ↦ ?_, fun _ _ ↦ rfl⟩
    simp only [OrderedMap.get?_set] at hfound
    split at hfound
    · rename_i hother
      cases hfound
      simp [hother, hid]
    · have hold := hbefore other found hfound
      rw [List.getElem?_append_left (List.getElem?_eq_some_iff.1 hold).1]
      exact hold

theorem evolves_addPeer {peerId host port : Value}
    (h : node.addPeer runtime now peerId host port = some after) : Evolves node after := by
  rcases addPeer_cases h with rfl | ⟨peers, hconnected⟩
  · exact .refl _
  · refine .trans ?_ (evolves_connect hconnected)
    exact .of_eq rfl rfl rfl

theorem evolves_clearRoutesForPeer (node : P2PNode) (peerId : Key) :
    Evolves node (node.clearRoutesForPeer peerId) := .of_eq rfl rfl rfl

theorem evolves_removeOutbound (node : P2PNode) (peerId : Key) (peers : OrderedMap Key PeerInfo) :
    Evolves node { node with
      connectionPool := node.connectionPool.removeOutbound peerId
      peers } := by
  refine .of_clients rfl (fun other client hclient ↦ ?_) fun _ _ ↦ rfl
  simp only [ConnectionPool.removeOutbound, OrderedMap.get?_erase] at hclient
  split at hclient
  · cases hclient
  · exact ⟨client, hclient, rfl⟩

theorem evolves_removePeer (node : P2PNode) (peerId : Key) :
    Evolves node (node.removePeer peerId) := by
  have hremoved := evolves_removeOutbound node peerId (node.peers.erase peerId)
  unfold removePeer
  dsimp only
  split
  · split
    · exact hremoved.trans (evolves_clearRoutesForPeer _ peerId)
    · exact hremoved
  · exact .refl _

theorem evolves_clientFailed (node : P2PNode) (clientId : ℕ) :
    Evolves node (node.clientFailed clientId) := by
  unfold clientFailed
  split
  · exact (evolves_removeOutbound node _ node.peers).trans (evolves_clearRoutesForPeer _ _)
  · exact .refl _

theorem evolves_setConnected (node : P2PNode) (clientId : ℕ) (isConnected : Bool) :
    Evolves node (node.setConnected clientId isConnected) := by
  unfold setConnected
  split
  · split
    · refine .of_clients rfl (fun other client hclient ↦ ?_) fun _ _ ↦ rfl
      rw [ConnectionPool.setConnected, OrderedMap.get?_mapValues] at hclient
      obtain ⟨old, hold, rfl⟩ := Option.map_eq_some_iff.1 hclient
      refine ⟨old, hold, ?_⟩
      split <;> rfl
    · exact .refl _
  · exact .refl _

theorem evolves_socketClosed (node : P2PNode) (socketId : ℕ) :
    Evolves node (node.socketClosed socketId) := by
  unfold socketClosed
  split
  · refine .trans ?_ (evolves_clearRoutesForPeer _ _)
    exact .of_eq rfl rfl rfl
  · exact .of_eq rfl rfl rfl

/-! ## Frames and events -/

theorem evolves_handshake {socketId : ℕ}
    (h : node.handshake runtime now socketId message = some after) : Evolves node after := by
  unfold handshake at h
  dsimp only at h
  obtain ⟨subscribed, hsubscribed, hresult⟩ := Option.bind_eq_some_iff.1 h
  obtain ⟨topicRouter, rfl, _⟩ := registerSubscriptions_eq hsubscribed
  obtain rfl := onPeerReconnected_eq hresult
  exact .of_eq rfl rfl rfl

theorem receiveHello_of_relay (hhello : frameType message = .hello)
    (h : node.relay runtime clock message fromPeerId = some after) :
    node.receiveHello runtime (clock 0) message = some after := by
  unfold relay handleMessage peerExchange at h
  obtain ⟨handled, hhandled, hresult⟩ := Option.bind_eq_some_iff.1 h
  rw [hhello] at hhandled
  simp only [hhello, reduceCtorEq, and_false, if_false, Option.some.injEq] at hresult
  subst hresult
  split at hhandled
  · cases hhandled
  · exact hhandled

theorem relay_hello (hhello : frameType message = .hello)
    (h : node.relay runtime clock message fromPeerId = some after) :
    Greeted message node after := greeted_receiveHello (receiveHello_of_relay hhello h)

theorem evolves_relay (hother : frameType message ≠ .hello)
    (h : node.relay runtime clock message fromPeerId = some after) : Evolves node after := by
  unfold relay at h
  obtain ⟨handled, hhandled, hresult⟩ := Option.bind_eq_some_iff.1 h
  refine .trans ?_ (rel_of_peerExchange Evolves .refl .trans evolves_addPeer hresult)
  unfold handleMessage at hhandled
  split at hhandled
  · cases hhandled
  · split at hhandled
    · cases hhandled
      exact evolves_receiveAck runtime node message
    · exact rel_of_receiveSyncBatch Evolves .refl .trans (fun _ ↦ .of_eq rfl rfl rfl)
        evolves_receiveMessage hhandled
    · exact evolves_receiveSyncAck hhandled
    · rename_i hhello
      exact absurd hhello hother
    · cases hhandled
      exact evolves_updateHeartbeat _ node _
    · cases hhandled
      exact .refl _
    · cases hhandled
      exact .refl _
    · exact evolves_receiveMessage hhandled

/-- The message that an event relays to the listeners of the pool, with the id of its sender. -/
def relayed (node : P2PNode) : Event → Option (Value × Key)
  | .frame _ (.client clientId) (some message) =>
    node.dialled[clientId]?.map fun peerId ↦ (message, peerId)
  | .frame _ (.server socketId) (some message) =>
    match node.sockets[socketId]? with
    | some (.handshaked connectedPeerId) => some (message, connectedPeerId)
    | _ => none
  | _ => none

theorem eq_of_relayed {endpoint : Endpoint} {relayedMessage : Value}
    (h : relayed node (.frame clock endpoint (some message)) = some (relayedMessage, fromPeerId)) :
    relayedMessage = message := by
  cases endpoint with
  | client clientId =>
    obtain ⟨peerId, _, hpair⟩ := Option.map_eq_some_iff.1 h
    exact (congrArg Prod.fst hpair).symm
  | server socketId =>
    rw [relayed] at h
    split at h
    · cases h
      rfl
    · cases h

theorem next_of_relayed (runtime : Runtime) {event : Event}
    (h : relayed node event = some (message, fromPeerId)) :
    ∃ clock, next runtime node event = node.relay runtime clock message fromPeerId := by
  cases event with
  | frame clock endpoint frame =>
    refine ⟨clock, ?_⟩
    rw [next]
    unfold relayed at h
    split at h
    · rename_i heq
      cases heq
      obtain ⟨peerId, hdialled, hpair⟩ := Option.map_eq_some_iff.1 h
      cases hpair
      simp [receiveFrame, clientMessage, hdialled]
    · rename_i heq
      cases heq
      split at h
      · rename_i hsocket
        cases h
        simp [receiveFrame, serverMessage, hsocket]
      · cases h
    · cases h
  | _ => cases h

/-- An event that relays nothing lets the node evolve. -/
theorem evolves_next {event : Event} (hnone : relayed node event = none)
    (h : next runtime node event = some after) : Evolves node after := by
  cases event with
  | frame clock endpoint frame =>
    rw [next] at h
    unfold receiveFrame at h
    split at h
    · cases h
      exact .refl _
    · unfold serverMessage at h
      split at h
      · split at h
        · cases h
        · split at h
          · exact evolves_handshake h
          · cases h
            exact .refl _
      · rename_i hsocket
        simp [relayed, hsocket] at hnone
      · cases h
        exact .refl _
      · cases h
        exact .refl _
    · unfold clientMessage at h
      split at h
      · rename_i hdialled
        simp [relayed, hdialled] at hnone
      · cases h
        exact .refl _
  | databaseOpened =>
    cases h
    split
    · exact .of_eq rfl rfl rfl
    · exact .refl _
  | stop =>
    cases h
    exact .of_clients rfl (fun _ _ hclient ↦ by cases hclient) fun _ _ ↦ rfl
  | bootstrap now index =>
    rw [next, attemptBootstrap] at h
    split at h
    · split at h
      · exact evolves_addPeer h
      · cases h
        exact .refl _
    · cases h
      exact .refl _
  | addPeer now peerId host port => exact evolves_addPeer h
  | removePeer peerId =>
    cases h
    exact evolves_removePeer node peerId
  | setConnected clientId isConnected =>
    cases h
    exact evolves_setConnected node clientId isConnected
  | clientFailed clientId =>
    cases h
    exact evolves_clientFailed node clientId
  | socketClosed socketId =>
    cases h
    exact evolves_socketClosed node socketId
  | publish now message => exact evolves_receiveMessage h
  | socketOpened | sendWithAck _ _ | deliveryFailed _ | waitForAck _ _ | waitExpired _ | gc _ =>
    cases h
    exact .of_eq rfl rfl rfl

/-- The step lemma: an event greets a peer, if it relays a `HELLO`, or lets the node evolve. -/
theorem next_cases {event : Event} (h : next runtime node event = some after) :
    (∃ message fromPeerId, relayed node event = some (message, fromPeerId) ∧
      frameType message = .hello ∧ Greeted message node after) ∨ Evolves node after := by
  cases hrelayed : relayed node event with
  | none => exact .inr (evolves_next hrelayed h)
  | some entry =>
    obtain ⟨message, fromPeerId⟩ := entry
    obtain ⟨clock, hnext⟩ := next_of_relayed runtime hrelayed
    rw [hnext] at h
    by_cases hhello : frameType message = .hello
    · exact .inl ⟨message, fromPeerId, rfl, hhello, relay_hello hhello h⟩
    · exact .inr (evolves_relay hhello h)

theorem greeted_of_relayed {event : Event} (hhello : frameType message = .hello)
    (hrelayed : relayed node event = some (message, fromPeerId))
    (h : next runtime node event = some after) : Greeted message node after := by
  obtain ⟨clock, hnext⟩ := next_of_relayed runtime hrelayed
  exact relay_hello hhello (hnext ▸ h)

end P2PNode

end P2PApp.Node
