import P2PApp.Node.Effects

/-!
# Under which ids a neighbour is reached

The pool files an outbound client under the id it was dialled with, the router and the
synchronisation of a handshake take the id that the neighbour announces, and nothing relates the
two. What the handshake hands out therefore reaches the client exactly if the neighbour announces
the id under which it was dialled, which an alias of discovery never is.
-/

namespace P2PApp.Node.P2PNode

open JavaScript

variable {runtime : Runtime} {config : NodeConfig}

/-- The id is a next hop of a route that was installed in between, or was passed to
`onPeerReconnected`. -/
def Handed (before after : P2PNode) (peerId : Key) : Prop :=
  (∃ topic origin route,
    after.gossipEngine.topicRouter.routeOf topic origin = some route ∧
    before.gossipEngine.topicRouter.routeOf topic origin ≠ some route ∧
    route.nextHop = peerId) ∨
  ∃ peerIds, after.syncManager.reconnected = before.syncManager.reconnected ++ peerIds ∧
    peerId ∈ peerIds

/-- Sending to the id, and broadcasting to the id alone among all peers, reaches the client. -/
def ReachesClient (pool : ConnectionPool Key) (peerId : Key) (clientId : ℕ) : Prop :=
  ∃ client, client.clientId = clientId ∧ pool.send peerId = some (.outbound client) ∧
    peerId ∈ pool.getAllPeerIds ∧
    .outbound client ∈ pool.broadcast (pool.getAllPeerIds.filter fun other ↦ other ≠ peerId)

theorem reachesClient_iff {pool : ConnectionPool Key} {peerId : Key} {clientId : ℕ} :
    ReachesClient pool peerId clientId ↔
      (pool.outboundConnections.get? peerId).map WSClient.clientId = some clientId := by
  rw [Option.map_eq_some_iff]
  constructor
  · rintro ⟨client, hid, hsend, _⟩
    refine ⟨client, ?_, hid⟩
    unfold ConnectionPool.send at hsend
    split at hsend
    · rename_i found hfound
      cases hsend
      exact hfound
    · obtain ⟨inbound, _, hinbound⟩ := Option.map_eq_some_iff.1 hsend
      cases hinbound
  · rintro ⟨client, hclient, hid⟩
    refine ⟨client, hid, by rw [ConnectionPool.send, hclient], ?_, ?_⟩
    · exact ConnectionPool.mem_getAllPeerIds.2 (.inl (OrderedMap.mem_keys_iff.2 ⟨client, hclient⟩))
    · refine List.mem_append_left _ (List.mem_map.2 ⟨(peerId, client), ?_, rfl⟩)
      exact List.mem_filter.2 ⟨OrderedMap.get?_eq_some_iff.1 hclient, by simp⟩

/-! ## Invariants of the clients -/

theorem wellDialled_start (config : NodeConfig) : (start config).WellDialled := by
  intro peerId client hclient
  cases hclient

theorem wellDialled_next {node after : P2PNode} {event : Event} (hbefore : node.WellDialled)
    (h : next runtime node event = some after) : after.WellDialled := by
  rcases next_cases h with ⟨message, fromPeerId, _, _, hgreeted⟩ | hevolves
  · intro peerId client hclient
    rw [hgreeted.dialled]
    rw [hgreeted.connectionPool] at hclient
    exact hbefore peerId client hclient
  · exact hevolves.wellDialled hbefore

theorem dialled_next {node after : P2PNode} {event : Event}
    (h : next runtime node event = some after) : node.dialled <+: after.dialled := by
  rcases next_cases h with ⟨message, fromPeerId, _, _, hgreeted⟩ | hevolves
  · exact hgreeted.dialled ▸ List.prefix_refl _
  · exact hevolves.dialled

theorem wellDialled_of_run {node last : P2PNode} {events : List Event}
    (hrun : (system runtime).Run node events last) (hnode : node.WellDialled) :
    last.WellDialled := by
  have hstep (s : P2PNode) (event : Event) (t : P2PNode) (hbefore : s.WellDialled)
      (h : (system runtime).step s event t) : t.WellDialled := wellDialled_next hbefore h
  exact hrun.invariant hstep hnode

/-- The id under which a client was dialled never changes. -/
theorem dialled_of_run {node last : P2PNode} {events : List Event}
    (hrun : (system runtime).Run node events last) {clientId : ℕ} {peerId : Key}
    (hclient : node.dialled[clientId]? = some peerId) :
    last.dialled[clientId]? = some peerId := by
  have hstep (s : P2PNode) (event : Event) (t : P2PNode)
      (hbefore : s.dialled[clientId]? = some peerId) (h : (system runtime).step s event t) :
      t.dialled[clientId]? = some peerId := by
    obtain ⟨more, hmore⟩ := dialled_next h
    rw [← hmore, List.getElem?_append_left (List.getElem?_eq_some_iff.1 hbefore).1]
    exact hbefore
  exact hrun.invariant hstep hclient

/-! ## What a handshake hands out -/

theorem Greeted.handed_announced {message : Value} {node greeted : P2PNode}
    (h : Greeted message node greeted) : Handed node greeted (message.property "peerId").key :=
  .inr ⟨_, h.reconnected, List.mem_singleton_self _⟩

theorem Greeted.eq_of_handed {message : Value} {node greeted : P2PNode}
    (h : Greeted message node greeted) {peerId : Key} (hhanded : Handed node greeted peerId) :
    peerId = (message.property "peerId").key := by
  rcases hhanded with ⟨topic, origin, route, hafter, hbefore, rfl⟩ | ⟨peerIds, hpeerIds, hmem⟩
  · exact (h.routes topic origin route hafter).resolve_left hbefore
  · rw [h.reconnected, List.append_right_inj] at hpeerIds
    subst hpeerIds
    exact List.mem_singleton.1 hmem

/-- In any run, the ids that a `HELLO` on an outbound client hands out reach that client, for as
long as the pool has it, if and only if the announced id is the one it was dialled with. -/
theorem handed_reach_iff {node greeted last : P2PNode} {events later : List Event}
    {clock : ℕ → ℕ} {clientId : ℕ} {dialledId : Key} {message : Value}
    (hrun : (system runtime).Run (start config) events node)
    (hclient : node.dialled[clientId]? = some dialledId)
    (hhello : frameType message = .hello)
    (hgreeted : next runtime node (.frame clock (.client clientId) (some message)) = some greeted)
    (hlater : (system runtime).Run greeted later last)
    (hopen : (last.connectionPool.outboundConnections.get? dialledId).map WSClient.clientId =
      some clientId) :
    (∀ peerId, Handed node greeted peerId →
      ReachesClient last.connectionPool peerId clientId) ↔
      (message.property "peerId").key = dialledId := by
  have hrelayed : relayed node (.frame clock (.client clientId) (some message)) =
      some (message, dialledId) := by rw [relayed, hclient, Option.map_some]
  have hstep := greeted_of_relayed hhello hrelayed hgreeted
  have hwell : last.WellDialled := wellDialled_of_run hlater
    (wellDialled_next (wellDialled_of_run hrun (wellDialled_start config)) hgreeted)
  have hsame : last.dialled[clientId]? = some dialledId :=
    dialled_of_run hlater (hstep.dialled ▸ hclient)
  constructor
  · intro hreach
    obtain ⟨client, hfound, hid⟩ := Option.map_eq_some_iff.1
      (reachesClient_iff.1 (hreach _ hstep.handed_announced))
    have hdialled := hwell _ client hfound
    rw [hid, hsame] at hdialled
    exact (Option.some.inj hdialled).symm
  · intro hannounced peerId hhanded
    rw [hstep.eq_of_handed hhanded, hannounced]
    exact reachesClient_iff.2 hopen

/-- Whatever a handshake on an outbound client hands out reaches that client. -/
def RoutesUsable (runtime : Runtime) (config : NodeConfig) : Prop :=
  ∀ events node clock clientId dialledId message greeted later last,
    (system runtime).Run (start config) events node →
    node.dialled[clientId]? = some dialledId → frameType message = .hello →
    next runtime node (.frame clock (.client clientId) (some message)) = some greeted →
    (system runtime).Run greeted later last →
    (last.connectionPool.outboundConnections.get? dialledId).map WSClient.clientId =
      some clientId →
    ∀ peerId, Handed node greeted peerId → ReachesClient last.connectionPool peerId clientId

/-! ## A neighbour with two names -/

/-- The node dials its neighbour under the id that discovery found. -/
def dialledBob : P2PNode :=
  ([.addPeer 0 (.string "bob") (.string "127.0.0.1") (.number (.finite 9001)),
    .setConnected 0 true].foldlM (next .sample) (start exampleConfig)).get (by decide +kernel)

/-- The node dials the same neighbour from the list of its bootstrap nodes. -/
def dialledAlias : P2PNode :=
  ([.bootstrap 0 0, .setConnected 0 true].foldlM (next .sample) (start exampleConfig)).get
    (by decide +kernel)

def replyOfBob : Event := .frame (fun _ ↦ 1) (.client 0) (some (helloFrame 0 "bob" "bob-key"))

def greetedBob : P2PNode := (next .sample dialledBob replyOfBob).get (by decide +kernel)

def greetedAlias : P2PNode := (next .sample dialledAlias replyOfBob).get (by decide +kernel)

theorem reachesClient_dialledBob :
    Handed dialledBob greetedBob (.string "bob") ∧
      ReachesClient greetedBob.connectionPool (.string "bob") 0 := by
  have hclient : dialledBob.dialled[0]? = some (.string "bob") := by decide +kernel
  have hreply : next .sample dialledBob replyOfBob = some greetedBob := (Option.some_get _).symm
  have hrelayed : relayed dialledBob replyOfBob =
      some (helloFrame 0 "bob" "bob-key", .string "bob") := by
    rw [replyOfBob, relayed, hclient, Option.map_some]
  have hhanded := (greeted_of_relayed rfl hrelayed hreply).handed_announced
  refine ⟨hhanded, ?_⟩
  exact (handed_reach_iff (TransitionSystem.run_ofPartial (Option.some_get _).symm) hclient rfl
    hreply (.nil _) (by decide +kernel)).2 rfl _ hhanded

theorem not_routesUsable_alias : ¬RoutesUsable .sample exampleConfig := by
  intro h
  have hclient : dialledAlias.dialled[0]? = some (.string "bootstrap-0") := by decide +kernel
  have hreply : next .sample dialledAlias replyOfBob = some greetedAlias :=
    (Option.some_get _).symm
  have hrelayed : relayed dialledAlias replyOfBob =
      some (helloFrame 0 "bob" "bob-key", .string "bootstrap-0") := by
    rw [replyOfBob, relayed, hclient, Option.map_some]
  have hgreeted := greeted_of_relayed rfl hrelayed hreply
  have hreach := h _ dialledAlias _ 0 (.string "bootstrap-0") _ greetedAlias [] greetedAlias
    (TransitionSystem.run_ofPartial (Option.some_get _).symm) hclient rfl hreply (.nil _)
    (by decide +kernel) (.string "bob") hgreeted.handed_announced
  rw [reachesClient_iff] at hreach
  exact absurd hreach (by decide +kernel)

end P2PApp.Node.P2PNode
