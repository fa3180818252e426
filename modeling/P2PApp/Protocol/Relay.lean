import P2PApp.Protocol.GossipEngine

/-!
# What an advertisement does at one node

An advertisement that passes the checks and has not been through the node goes to the routing table;
if it changed something there and may live on, it is handed to the neighbours that are not on its
path. Whatever the message, nothing else happens to the routes.
-/

namespace P2PApp.GossipEngine

variable (platform : Platform) (pool : ConnectionPool) (now : ℕ) (draws : ℕ → ℕ)
  (engine : GossipEngine) (message : P2PMessage) (fromPeerId : Option String)

/-- The advertisement passes the checks and has not been through this node. -/
structure Admits (topic : String) (sequenceNumber : ℕ) (action : SubscriptionAction) : Prop where
  type : message.type = .subAd
  payload : message.payload = .subAd topic sequenceNumber action
  accepts : engine.Accepts platform now message fromPeerId
  loopFree : engine.localPeerId ∉ message.routingPath.getD []

/-- A copy of the advertisement as it is passed on, to anybody but those it has been through. -/
structure Relays (localPeerId : String) (sent : P2PMessage) (excludePeerIds : List String) :
    Prop where
  alive : 1 < message.ttl
  sent_eq : sent = { message with
    ttl := message.ttl - 1
    routingPath := some (message.routingPath.getD [] ++ [localPeerId]) }
  excludes : ∀ peerId ∈ pool.getAllPeerIds, peerId ∉ excludePeerIds →
    peerId ∉ message.routingPath.getD [] ++ [localPeerId] ++ fromPeerId.toList ++
      [message.sender]

variable {platform pool now engine message fromPeerId}

theorem relays_of_mem_relayAdvert {sent : P2PMessage} {excludePeerIds : List String}
    (halive : 1 < message.ttl)
    (h : .broadcast sent excludePeerIds ∈
      (engine.relayAdvert pool message (message.routingPath.getD []) fromPeerId).2.2) :
    Relays pool message fromPeerId engine.localPeerId sent excludePeerIds := by
  unfold relayAdvert at h
  dsimp only at h
  split at h
  · obtain ⟨rfl, rfl⟩ := EngineEffect.broadcast.inj (List.mem_singleton.1 h)
    refine ⟨halive, rfl, fun peerId hmem hnot ↦ ?_⟩
    simpa [hmem] using hnot
  · cases h

theorem processSubAd_cases {topic : String} {sequenceNumber : ℕ} {action : SubscriptionAction}
    (hpayload : message.payload = .subAd topic sequenceNumber action)
    (hloop : engine.localPeerId ∉ message.routingPath.getD []) :
    (engine.processSubAd pool now message fromPeerId).1.topicRouter =
        (routeAdvert now engine.topicRouter engine.localPeerId message topic sequenceNumber action
          (message.routingPath.getD []) fromPeerId).2 ∧
      ∀ sent excludePeerIds, .broadcast sent excludePeerIds ∈
          (engine.processSubAd pool now message fromPeerId).2 →
        (routeAdvert now engine.topicRouter engine.localPeerId message topic sequenceNumber action
          (message.routingPath.getD []) fromPeerId).1 = true ∧
        Relays pool message fromPeerId engine.localPeerId sent excludePeerIds := by
  refine ⟨topicRouter_processSubAd pool now engine message fromPeerId hpayload hloop,
    fun sent excludePeerIds hmem ↦ ?_⟩
  simp only [processSubAd, hpayload, hloop, if_false] at hmem
  split at hmem
  · rename_i hchanged
    rcases List.mem_append.1 hmem with hsent | hannounced
    · obtain ⟨halive, hsent_eq, hexcludes⟩ := relays_of_mem_relayAdvert hchanged.2 hsent
      exact ⟨hchanged.1, halive, hsent_eq, hexcludes⟩
    · cases List.mem_singleton.1 hannounced
  · cases List.mem_singleton.1 hmem

variable (platform pool now engine message fromPeerId) in
/-- Everything that an advertisement can do to the routes and hand to the connections. -/
theorem receiveMessage_subAd_cases (htype : message.type = .subAd) :
    ((engine.receiveMessage platform pool now draws message fromPeerId).1.topicRouter =
        engine.topicRouter ∧
      ∀ sent excludePeerIds, .broadcast sent excludePeerIds ∉
        (engine.receiveMessage platform pool now draws message fromPeerId).2) ∨
    ∃ topic sequenceNumber action,
      Admits platform now engine message fromPeerId topic sequenceNumber action ∧
      (engine.receiveMessage platform pool now draws message fromPeerId).1.topicRouter =
        (routeAdvert now engine.topicRouter engine.localPeerId message topic sequenceNumber action
          (message.routingPath.getD []) fromPeerId).2 ∧
      ∀ sent excludePeerIds, .broadcast sent excludePeerIds ∈
          (engine.receiveMessage platform pool now draws message fromPeerId).2 →
        (routeAdvert now engine.topicRouter engine.localPeerId message topic sequenceNumber action
          (message.routingPath.getD []) fromPeerId).1 = true ∧
        Relays pool message fromPeerId engine.localPeerId sent excludePeerIds := by
  have hcore := engine.clocked_sameCore platform now message fromPeerId
  by_cases haccepts : engine.Accepts platform now message fromPeerId
  swap
  · rcases engine.receiveMessage_cases pool now draws message fromPeerId platform with
      ⟨_, heffects, hsame⟩ | ⟨hyes, _⟩
    · refine .inl ⟨hsame.topicRouter, fun _ _ hmem ↦ ?_⟩
      rw [heffects] at hmem
      cases hmem
    · exact absurd hyes haccepts
  rw [receiveMessage, engine.screen_of_accepts platform now message fromPeerId haccepts]
  dsimp only
  rw [if_pos htype]
  by_cases hloop : engine.localPeerId ∈ message.routingPath.getD []
  · refine .inl ?_
    unfold processSubAd
    split
    · exact ⟨hcore.topicRouter, fun _ _ hmem ↦ by cases hmem⟩
    · dsimp only
      rw [if_pos (hcore.localPeerId.symm ▸ hloop)]
      exact ⟨hcore.topicRouter, fun _ _ hmem ↦ by cases hmem⟩
  · cases hpayload : message.payload with
    | text content =>
      refine .inl ?_
      simp only [processSubAd, hpayload]
      exact ⟨hcore.topicRouter, fun _ _ hmem ↦ by cases hmem⟩
    | subAd topic sequenceNumber action =>
      refine .inr ⟨topic, sequenceNumber, action, ⟨htype, hpayload, haccepts, hloop⟩, ?_⟩
      rw [← hcore.topicRouter, ← hcore.localPeerId]
      exact processSubAd_cases hpayload (hcore.localPeerId.symm ▸ hloop)

end P2PApp.GossipEngine
