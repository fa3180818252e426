import P2PApp.Node.Effects

/-!
# Connections and their peers

The pool files connections under the ids of peers, of which it keeps one per direction, while a
peer may have any number of sockets. The handlers that take an entry out of the pool look at the id
alone. So the pool knows every connected peer, and the routes of a peer go with its last connection,
exactly as long as whatever is closed is the only connection of its peer.
-/

namespace P2PApp.Node.P2PNode

open JavaScript

/-- The peer has an open socket with a completed handshake, or a client that was not removed. -/
def Connected (node : P2PNode) (peerId : Key) : Prop :=
  .handshaked peerId ∈ node.sockets ∨ peerId ∈ node.connectionPool.outboundConnections.keys

/-- The pool knows every connected peer. -/
def Present (node : P2PNode) : Prop :=
  ∀ peerId, Connected node peerId → peerId ∈ node.connectionPool.getAllPeerIds

/-- The peer whose routes an event clears. -/
def cleared (node : P2PNode) : Event → Option Key
  | .clientFailed clientId => node.dialled[clientId]?
  | .socketClosed socketId =>
    match node.sockets[socketId]? with
    | some (.handshaked connectedPeerId) => some connectedPeerId
    | _ => none
  | .removePeer peerId =>
    if node.peers.has peerId ∧ node.connectionPool.outboundConnections.has peerId then some peerId
    else none
  | _ => none

/-- After the event the pool knows every connected peer, and if the event clears the routes of a
peer, that peer is no longer connected. -/
def Settles (runtime : Runtime) (node : P2PNode) (event : Event) : Prop :=
  ∀ after, next runtime node event = some after →
    Present after ∧ ∀ peerId, cleared node event = some peerId → ¬Connected after peerId

/-- What the event closes is the only connection of its peer. -/
def ClosesLast (node : P2PNode) : Event → Prop
  | .clientFailed clientId =>
    ∀ peerId, node.dialled[clientId]? = some peerId → .handshaked peerId ∉ node.sockets
  | .removePeer peerId =>
    node.peers.has peerId = true → node.connectionPool.outboundConnections.has peerId = true →
      .handshaked peerId ∉ node.sockets
  | .socketClosed socketId =>
    ∀ peerId, node.sockets[socketId]? = some (.handshaked peerId) →
      (∀ other, other ≠ socketId → node.sockets[other]? ≠ some (.handshaked peerId)) ∧
        peerId ∉ node.connectionPool.outboundConnections.keys
  | .stop => ∀ peerId, .handshaked peerId ∉ node.sockets
  | _ => True

/-- No connection is lost. -/
structure Keeps (before after : P2PNode) : Prop where
  sockets : after.sockets = before.sockets
  inbound : after.connectionPool.inboundConnections = before.connectionPool.inboundConnections
  outbound : ∀ peerId ∈ before.connectionPool.outboundConnections.keys,
    peerId ∈ after.connectionPool.outboundConnections.keys

namespace Keeps

theorem refl (node : P2PNode) : Keeps node node := ⟨rfl, rfl, fun _ h ↦ h⟩

theorem trans {first second third : P2PNode} (h : Keeps first second) (h' : Keeps second third) :
    Keeps first third where
  sockets := h'.sockets.trans h.sockets
  inbound := h'.inbound.trans h.inbound
  outbound peerId hpeer := h'.outbound peerId (h.outbound peerId hpeer)

theorem of_eq {before after : P2PNode} (hsockets : after.sockets = before.sockets)
    (hpool : after.connectionPool = before.connectionPool) : Keeps before after :=
  ⟨hsockets, by rw [hpool], fun _ h ↦ hpool ▸ h⟩

theorem present {before after : P2PNode} (h : Keeps before after) (hbefore : Present before) :
    Present after := by
  intro peerId hconnected
  rw [ConnectionPool.mem_getAllPeerIds]
  rcases hconnected with hsocket | hclient
  · rw [h.sockets] at hsocket
    rcases ConnectionPool.mem_getAllPeerIds.1 (hbefore peerId (.inl hsocket)) with hout | hin
    · exact .inl (h.outbound peerId hout)
    · exact .inr (h.inbound ▸ hin)
  · exact .inl hclient

end Keeps

variable {runtime : Runtime} {clock : ℕ → ℕ} {now : ℕ} {node after : P2PNode} {message : Value}
  {fromPeerId : Key}

/-! ## What frames do -/

theorem keeps_receiveMessage
    (h : node.receiveMessage runtime now message fromPeerId = some after) : Keeps node after := by
  obtain ⟨gossipEngine, announced, saved, _, rfl⟩ := receiveMessage_eq h
  exact .of_eq rfl rfl

theorem keeps_receiveSyncAck
    (h : node.receiveSyncAck runtime message fromPeerId = some after) : Keeps node after := by
  obtain ⟨syncManager, rfl⟩ := receiveSyncAck_eq h
  exact .of_eq rfl rfl

theorem keeps_updateHeartbeat (now : ℕ) (node : P2PNode) (peerId : Key) :
    Keeps node (node.updateHeartbeat now peerId) := by
  obtain ⟨peers, heq⟩ := updateHeartbeat_eq now node peerId
  rw [heq]
  exact .of_eq rfl rfl

theorem keeps_receiveHello (h : node.receiveHello runtime now message = some after) :
    Keeps node after := by
  obtain ⟨subscribed, hsubscribed, hresult⟩ := Option.bind_eq_some_iff.1 h
  obtain ⟨topicRouter, rfl, _⟩ := registerSubscriptions_eq hsubscribed
  obtain rfl := onPeerReconnected_eq hresult
  have hregistered : Keeps node
      (node.registerPeerKey (message.property "peerId").key (message.property "publicKey")) :=
    .of_eq rfl rfl
  have hgreeted := hregistered.trans (keeps_updateHeartbeat now _ (message.property "peerId").key)
  exact hgreeted.trans (.of_eq rfl rfl)

theorem keeps_handleMessage
    (h : node.handleMessage runtime clock message fromPeerId = some after) : Keeps node after := by
  unfold handleMessage at h
  split at h
  · cases h
  · split at h
    · cases h
      obtain ⟨ackManager, heq⟩ := receiveAck_eq runtime node message
      rw [heq]
      exact .of_eq rfl rfl
    · exact rel_of_receiveSyncBatch Keeps .refl .trans (fun _ ↦ .of_eq rfl rfl)
        keeps_receiveMessage h
    · exact keeps_receiveSyncAck h
    · exact keeps_receiveHello h
    · cases h
      exact keeps_updateHeartbeat _ node _
    · cases h
      exact .refl _
    · cases h
      exact .refl _
    · exact keeps_receiveMessage h

theorem keeps_connect {peerId host port : Value}
    (h : node.connect runtime peerId host port = some after) : Keeps node after := by
  rcases connect_cases h with rfl | ⟨client, _, rfl⟩
  · exact .refl _
  · exact ⟨rfl, rfl, fun other hother ↦ OrderedMap.mem_keys_set.2 (.inr hother)⟩

theorem keeps_addPeer {peerId host port : Value}
    (h : node.addPeer runtime now peerId host port = some after) : Keeps node after := by
  rcases addPeer_cases h with rfl | ⟨peers, hconnected⟩
  · exact .refl _
  · refine .trans ?_ (keeps_connect hconnected)
    exact .of_eq rfl rfl

theorem keeps_relay (h : node.relay runtime clock message fromPeerId = some after) :
    Keeps node after := by
  obtain ⟨handled, hhandled, hresult⟩ := Option.bind_eq_some_iff.1 h
  have hexchanged := rel_of_peerExchange Keeps .refl .trans keeps_addPeer hresult
  exact (keeps_handleMessage hhandled).trans hexchanged

/-! ## What connections do -/

theorem present_handshake {socketId : ℕ} (hbefore : Present node)
    (h : node.handshake runtime now socketId message = some after) : Present after := by
  obtain ⟨subscribed, hsubscribed, hresult⟩ := Option.bind_eq_some_iff.1 h
  obtain ⟨topicRouter, rfl, _⟩ := registerSubscriptions_eq hsubscribed
  obtain rfl := onPeerReconnected_eq hresult
  intro peerId hconnected
  rw [ConnectionPool.mem_getAllPeerIds]
  dsimp only [ConnectionPool.addInboundConnection]
  rw [OrderedMap.mem_keys_set]
  rcases hconnected with hsocket | hclient
  · rcases List.mem_or_eq_of_mem_set hsocket with hold | hnew
    · rcases ConnectionPool.mem_getAllPeerIds.1 (hbefore peerId (.inl hold)) with hout | hin
      · exact .inl hout
      · exact .inr (.inr hin)
    · cases hnew
      exact .inr (.inl rfl)
  · exact .inl hclient

theorem present_serverMessage {socketId : ℕ} (hbefore : Present node)
    (h : node.serverMessage runtime clock socketId message = some after) : Present after := by
  unfold serverMessage at h
  split at h
  · split at h
    · cases h
    · split at h
      · exact present_handshake hbefore h
      · cases h
        exact hbefore
  · exact (keeps_relay h).present hbefore
  · cases h
    exact hbefore
  · cases h
    exact hbefore

theorem present_receiveFrame {endpoint : Endpoint} {frame : Option Value} (hbefore : Present node)
    (h : node.receiveFrame runtime clock endpoint frame = some after) : Present after := by
  unfold receiveFrame at h
  split at h
  · cases h
    exact hbefore
  · exact present_serverMessage hbefore h
  · unfold clientMessage at h
    split at h
    · exact (keeps_relay h).present hbefore
    · cases h
      exact hbefore

theorem keeps_setConnected (node : P2PNode) (clientId : ℕ) (isConnected : Bool) :
    Keeps node (node.setConnected clientId isConnected) := by
  unfold setConnected
  split
  · split
    · refine ⟨rfl, rfl, fun other hother ↦ ?_⟩
      rw [ConnectionPool.setConnected, OrderedMap.keys_mapValues]
      exact hother
    · exact .refl _
  · exact .refl _

/-- Without its client a peer is known as long as it has no open socket or was known for one. -/
theorem present_removeOutbound {peerId : Key} (hbefore : Present node)
    (hsockets : after.sockets = node.sockets)
    (hpool : after.connectionPool = node.connectionPool.removeOutbound peerId)
    (halone : ¬Connected after peerId) : Present after := by
  intro other hconnected
  have hother : other ≠ peerId := by
    rintro rfl
    exact halone hconnected
  rw [ConnectionPool.mem_getAllPeerIds, hpool]
  dsimp only [ConnectionPool.removeOutbound]
  rw [OrderedMap.mem_keys_erase]
  have hknown : other ∈ node.connectionPool.getAllPeerIds := by
    refine hbefore other (hconnected.imp (fun h ↦ hsockets ▸ h) fun h ↦ ?_)
    rw [hpool] at h
    exact (OrderedMap.mem_keys_erase.1 h).2
  rcases ConnectionPool.mem_getAllPeerIds.1 hknown with hout | hin
  · exact .inl ⟨hother, hout⟩
  · exact .inr hin

theorem connected_removeOutbound {peerId : Key} (hsockets : after.sockets = node.sockets)
    (hpool : after.connectionPool = node.connectionPool.removeOutbound peerId) :
    Connected after peerId ↔ .handshaked peerId ∈ node.sockets := by
  rw [Connected, hsockets, hpool]
  dsimp only [ConnectionPool.removeOutbound]
  simp [OrderedMap.mem_keys_erase]

/-- The routes of a peer go with its client exactly if it has no open socket. -/
theorem settled_removeOutbound {peerId : Key} (hbefore : Present node)
    (hsockets : after.sockets = node.sockets)
    (hpool : after.connectionPool = node.connectionPool.removeOutbound peerId) :
    (Present after ∧ ¬Connected after peerId) ↔ .handshaked peerId ∉ node.sockets := by
  rw [connected_removeOutbound hsockets hpool]
  refine ⟨And.right, fun halone ↦ ⟨?_, halone⟩⟩
  exact present_removeOutbound hbefore hsockets hpool
    (mt (connected_removeOutbound hsockets hpool).1 halone)

theorem handshaked_mem_set_closed {sockets : List Socket} {socketId : ℕ} {peerId : Key} :
    .handshaked peerId ∈ sockets.set socketId .closed ↔
      ∃ other, other ≠ socketId ∧ sockets[other]? = some (.handshaked peerId) := by
  rw [List.mem_iff_getElem?]
  constructor
  · rintro ⟨other, hother⟩
    rw [List.getElem?_set] at hother
    split at hother
    · split at hother <;> cases hother
    · rename_i hne
      exact ⟨other, fun heq ↦ hne heq.symm, hother⟩
  · rintro ⟨other, hne, hother⟩
    exact ⟨other, by rw [List.getElem?_set_ne (Ne.symm hne)]; exact hother⟩

/-- The routes of a peer go with its socket exactly if it has no other socket and no client. -/
theorem settled_socketClosed {socketId : ℕ} {peerId : Key} (hbefore : Present node)
    (hsockets : after.sockets = node.sockets.set socketId .closed)
    (hpool : after.connectionPool = node.connectionPool.removeInbound peerId) :
    (Present after ∧ ¬Connected after peerId) ↔
      (∀ other, other ≠ socketId → node.sockets[other]? ≠ some (.handshaked peerId)) ∧
        peerId ∉ node.connectionPool.outboundConnections.keys := by
  have hconnected (other : Key) : Connected after other ↔
      (∃ index, index ≠ socketId ∧ node.sockets[index]? = some (.handshaked other)) ∨
        other ∈ node.connectionPool.outboundConnections.keys := by
    rw [Connected, hsockets, handshaked_mem_set_closed, hpool]
    rfl
  rw [hconnected, not_or, not_exists]
  simp only [not_and]
  refine ⟨And.right, fun halone ↦ ⟨fun other hother ↦ ?_, halone⟩⟩
  have hne : other ≠ peerId := by
    rintro rfl
    rcases (hconnected other).1 hother with ⟨index, hindex, hsocket⟩ | hclient
    · exact halone.1 index hindex hsocket
    · exact halone.2 hclient
  rw [ConnectionPool.mem_getAllPeerIds, hpool]
  dsimp only [ConnectionPool.removeInbound]
  rw [OrderedMap.mem_keys_erase]
  rcases (hconnected other).1 hother with ⟨index, hindex, hsocket⟩ | hclient
  · have hold : Connected node other := .inl (List.mem_iff_getElem?.2 ⟨index, hsocket⟩)
    rcases ConnectionPool.mem_getAllPeerIds.1 (hbefore other hold) with hout | hin
    · exact .inl hout
    · exact .inr ⟨hne, hin⟩
  · exact .inl hclient

/-! ## Steps and runs -/

/-- The routes of the peer are cleared indeed. -/
theorem topicRouter_of_cleared {event : Event} {peerId : Key}
    (hcleared : cleared node event = some peerId) (h : next runtime node event = some after) :
    after.gossipEngine.topicRouter =
      node.gossipEngine.topicRouter.clearRoutesForPeer peerId := by
  cases event with
  | clientFailed clientId =>
    cases h
    simp only [cleared] at hcleared
    simp only [clientFailed, hcleared, clearRoutesForPeer]
  | socketClosed socketId =>
    cases h
    simp only [cleared] at hcleared
    split at hcleared <;> cases hcleared
    rename_i hsocket
    simp only [socketClosed, hsocket, clearRoutesForPeer]
  | removePeer other =>
    cases h
    simp only [cleared] at hcleared
    split at hcleared <;> cases hcleared
    rename_i hknown
    simp only [removePeer, hknown, if_true, clearRoutesForPeer]
  | _ => cases hcleared

theorem settles_iff_of_next {event : Event} (h : next runtime node event = some after) :
    Settles runtime node event ↔
      Present after ∧ ∀ peerId, cleared node event = some peerId → ¬Connected after peerId := by
  rw [Settles, h]
  simp

theorem settles_of_present {event : Event} (hcleared : cleared node event = none)
    (h : ∀ after, next runtime node event = some after → Present after) :
    Settles runtime node event := by
  intro after hnext
  refine ⟨h after hnext, fun peerId hpeer ↦ ?_⟩
  rw [hcleared] at hpeer
  cases hpeer

theorem settles_clientFailed (clientId : ℕ) (hbefore : Present node) :
    Settles runtime node (.clientFailed clientId) ↔ ClosesLast node (.clientFailed clientId) := by
  rw [settles_iff_of_next rfl, ClosesLast, cleared, clientFailed]
  cases hdialled : node.dialled[clientId]? with
  | none => simp [hbefore]
  | some peerId =>
    simp only [Option.some.injEq, forall_eq']
    exact settled_removeOutbound hbefore rfl rfl

theorem settles_removePeer (peerId : Key) (hbefore : Present node) :
    Settles runtime node (.removePeer peerId) ↔ ClosesLast node (.removePeer peerId) := by
  rw [settles_iff_of_next rfl, ClosesLast, cleared, removePeer]
  cases hknown : node.peers.has peerId with
  | false => simp [hbefore]
  | true =>
    cases hdialled : node.connectionPool.outboundConnections.has peerId with
    | true =>
      simp only [and_self, if_true, Option.some.injEq, forall_eq', forall_const]
      exact settled_removeOutbound hbefore rfl rfl
    | false =>
      have hkeeps : Keeps node { node with
          connectionPool := node.connectionPool.removeOutbound peerId
          peers := node.peers.erase peerId } := by
        refine ⟨rfl, rfl, fun other hother ↦ OrderedMap.mem_keys_erase.2 ⟨?_, hother⟩⟩
        rintro rfl
        rw [OrderedMap.has_iff_mem_keys.2 hother] at hdialled
        cases hdialled
      simp [hkeeps.present hbefore]

theorem settles_socketClosed (socketId : ℕ) (hbefore : Present node) :
    Settles runtime node (.socketClosed socketId) ↔ ClosesLast node (.socketClosed socketId) := by
  rw [settles_iff_of_next rfl, ClosesLast, cleared, socketClosed]
  split
  · rename_i peerId hsocket
    simp only [Option.some.injEq, forall_eq', Socket.handshaked.injEq, hsocket]
    exact settled_socketClosed hbefore rfl rfl
  · rename_i hother
    have hpresent : Present { node with sockets := node.sockets.set socketId .closed } := by
      intro peerId hconnected
      refine hbefore peerId (hconnected.imp (fun hsocket ↦ ?_) id)
      obtain ⟨index, _, hindex⟩ := handshaked_mem_set_closed.1 hsocket
      exact List.mem_iff_getElem?.2 ⟨index, hindex⟩
    simp only [reduceCtorEq, IsEmpty.forall_iff, implies_true, and_true, hpresent, true_iff]
    exact fun peerId hsocket ↦ absurd hsocket (hother peerId)

theorem settles_stop : Settles runtime node .stop ↔ ClosesLast node .stop := by
  rw [settles_iff_of_next rfl, ClosesLast, show cleared node .stop = none from rfl]
  have hconnected (peerId : Key) : Connected { node with
      storage := .closed, connectionPool := node.connectionPool.clear } peerId ↔
        .handshaked peerId ∈ node.sockets := by
    simp [Connected, ConnectionPool.clear, ConnectionPool.new]
  simp only [Present, hconnected, reduceCtorEq, IsEmpty.forall_iff, implies_true, and_true]
  refine forall_congr' fun peerId ↦ ?_
  simp [ConnectionPool.mem_getAllPeerIds, ConnectionPool.clear, ConnectionPool.new]

/-- The step lemma: an event settles exactly if it closes last connections only. -/
theorem settles_iff (runtime : Runtime) (event : Event) (hbefore : Present node) :
    Settles runtime node event ↔ ClosesLast node event := by
  cases event with
  | clientFailed clientId => exact settles_clientFailed clientId hbefore
  | removePeer peerId => exact settles_removePeer peerId hbefore
  | socketClosed socketId => exact settles_socketClosed socketId hbefore
  | stop => exact settles_stop
  | frame clock endpoint frame =>
    exact iff_of_true (settles_of_present rfl fun _ h ↦ present_receiveFrame hbefore h) trivial
  | bootstrap now index =>
    refine iff_of_true (settles_of_present rfl fun after h ↦ ?_) trivial
    rw [next, attemptBootstrap] at h
    split at h
    · split at h
      · exact (keeps_addPeer h).present hbefore
      · cases h
        exact hbefore
    · cases h
      exact hbefore
  | addPeer now peerId host port =>
    exact iff_of_true (settles_of_present rfl fun _ h ↦ (keeps_addPeer h).present hbefore) trivial
  | setConnected clientId isConnected =>
    refine iff_of_true (settles_of_present rfl fun after h ↦ ?_) trivial
    cases h
    exact (keeps_setConnected node clientId isConnected).present hbefore
  | publish now message =>
    exact iff_of_true
      (settles_of_present rfl fun _ h ↦ (keeps_receiveMessage h).present hbefore) trivial
  | databaseOpened =>
    refine iff_of_true (settles_of_present rfl fun after h ↦ ?_) trivial
    cases h
    split
    · exact (Keeps.of_eq rfl rfl).present hbefore
    · exact hbefore
  | socketOpened =>
    refine iff_of_true (settles_of_present rfl fun after h ↦ ?_) trivial
    cases h
    intro peerId hconnected
    exact hbefore peerId (hconnected.imp (fun hsocket ↦ by simpa using hsocket) id)
  | sendWithAck _ _ | deliveryFailed _ | waitForAck _ _ | waitExpired _ | gc _ =>
    refine iff_of_true (settles_of_present rfl fun after h ↦ ?_) trivial
    cases h
    exact (Keeps.of_eq rfl rfl).present hbefore

theorem present_start (config : NodeConfig) : Present (start config) := by
  intro peerId hconnected
  rcases hconnected with hsocket | hclient
  · cases hsocket
  · cases hclient

/-- In a run the pool knows every connected peer, and clears the routes of a peer only when that
is no longer connected, exactly if all that is closed is the last connection of its peer. -/
theorem settles_iff_closesLast (runtime : Runtime) (config : NodeConfig) (events : List Event)
    (node : P2PNode) :
    (system runtime).GuardedRun (Settles runtime) (start config) events node ↔
      (system runtime).GuardedRun ClosesLast (start config) events node := by
  constructor
  · intro h
    refine h.of_invariant (fun s event t hs hsettles hstep ↦ ?_) (present_start config)
    exact ⟨(settles_iff runtime event hs).1 hsettles, (hsettles t hstep).1⟩
  · intro h
    refine h.of_invariant (fun s event t hs hlast hstep ↦ ?_) (present_start config)
    have hsettles := (settles_iff runtime event hs).2 hlast
    exact ⟨hsettles, (hsettles t hstep).1⟩

/-- In every run of a node that is not stopped, all events settle. -/
def MatchesSockets (runtime : Runtime) (config : NodeConfig) : Prop :=
  ∀ events node, (system runtime).Run (start config) events node → .stop ∉ events →
    (system runtime).GuardedRun (Settles runtime) (start config) events node

/-- A peer connects once more before its first socket has closed. -/
def reconnectOfBob : List Event :=
  [.socketOpened, .frame (fun _ ↦ 1) (.server 0) (some (helloFrame 0 "bob" "bob-key")),
    .socketOpened, .frame (fun _ ↦ 2) (.server 1) (some (helloFrame 2 "bob" "bob-key")),
    .socketClosed 0]

def reconnectedBob : P2PNode :=
  (reconnectOfBob.foldlM (next .sample) (start exampleConfig)).get (by decide +kernel)

/-- The second socket of the peer stays open, but the pool has forgotten the peer. -/
theorem not_matchesSockets_reconnect : ¬MatchesSockets .sample exampleConfig := by
  intro h
  have hsettled := h reconnectOfBob reconnectedBob
    (TransitionSystem.run_ofPartial (Option.some_get _).symm) (by simp [reconnectOfBob])
  have hpresent : Present reconnectedBob := hsettled.invariant
    (fun _ _ after _ hsettles hstep ↦ (hsettles after hstep).1) (present_start exampleConfig)
  have hconnected : Connected reconnectedBob (.string "bob") := .inl (by decide +kernel)
  exact absurd (hpresent _ hconnected) (by decide +kernel)

end P2PApp.Node.P2PNode
