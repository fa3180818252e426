import P2PApp.Node.Effects

/-!
# Delivery confirmations

`sendWithAck` opens an entry with the peers that are to acknowledge a message, every `ACK` strikes
out the peer that it names as its sender, and the delivery is confirmed when nobody is left. A log
next to the node records over whose connections the acknowledgements came in. As long as those who
are struck out are the peers on the other end of the connections, a confirmation means what it says.
-/

namespace P2PApp.Node

open JavaScript

/-- What concerns deliveries in a run. -/
inductive Delivery
  | sent (messageId : Key) (peerIds : List Key)
  /-- An `ACK` for the message came in over a connection of the peer. -/
  | acknowledged (messageId fromPeerId : Key)
  /-- The event `delivery:confirmed`. -/
  | confirmed (messageId : Key)
  deriving DecidableEq

namespace Delivery

/-- Of the peers in the last `sendWithAck` of the message, those that are not outstanding have
acknowledged it since, over connections of their own. -/
def Accounted (deliveries : List Delivery) (messageId : Key) (outstanding : Finset Key) : Prop :=
  ∃ before peerIds since, deliveries = before ++ .sent messageId peerIds :: since ∧
    (∀ others, .sent messageId others ∉ since) ∧
    ∀ peerId ∈ peerIds, peerId ∉ outstanding → .acknowledged messageId peerId ∈ since

/-- Every confirmation comes after acknowledgements of all the peers. -/
def Genuine (deliveries : List Delivery) : Prop :=
  ∀ before messageId after, deliveries = before ++ .confirmed messageId :: after →
    Accounted before messageId ∅

variable {deliveries : List Delivery} {messageId : Key} {outstanding : Finset Key}

theorem accounted_sent (deliveries : List Delivery) (messageId : Key) (peerIds : List Key) :
    Accounted (deliveries ++ [.sent messageId peerIds]) messageId peerIds.toFinset := by
  refine ⟨deliveries, peerIds, [], rfl, fun _ ↦ List.not_mem_nil, ?_⟩
  intro peerId hmem hnot
  exact absurd (List.mem_toFinset.2 hmem) hnot

/-- Nothing but a new `sendWithAck` of the message unsettles the account. -/
theorem Accounted.append (h : Accounted deliveries messageId outstanding) {more : List Delivery}
    (hmore : ∀ others, .sent messageId others ∉ more) :
    Accounted (deliveries ++ more) messageId outstanding := by
  obtain ⟨before, peerIds, since, rfl, hlast, hacks⟩ := h
  refine ⟨before, peerIds, since ++ more, by simp, ?_, ?_⟩
  · intro others hmem
    rcases List.mem_append.1 hmem with hold | hnew
    · exact hlast others hold
    · exact hmore others hnew
  · intro peerId hmem hnot
    exact List.mem_append_left _ (hacks peerId hmem hnot)

/-- An acknowledgement over a connection of the peer permits striking it out. -/
theorem Accounted.acknowledge (h : Accounted deliveries messageId outstanding) (peerId : Key) :
    Accounted (deliveries ++ [.acknowledged messageId peerId]) messageId
      (outstanding.erase peerId) := by
  obtain ⟨before, peerIds, since, rfl, hlast, hacks⟩ := h
  refine ⟨before, peerIds, since ++ [.acknowledged messageId peerId], by simp, ?_, ?_⟩
  · intro others hmem
    rcases List.mem_append.1 hmem with hold | hnew
    · exact hlast others hold
    · cases List.mem_singleton.1 hnew
  · intro other hmem hnot
    rw [List.mem_append, List.mem_singleton]
    by_cases hpeer : other = peerId
    · exact .inr (by rw [hpeer])
    · exact .inl (hacks other hmem fun hout ↦ hnot (Finset.mem_erase.2 ⟨hpeer, hout⟩))

theorem genuine_nil : Genuine [] := by
  intro before messageId after h
  cases before <;> cases h

theorem Genuine.append (h : Genuine deliveries) {delivery : Delivery}
    (hconfirmed : ∀ messageId, delivery = .confirmed messageId →
      Accounted deliveries messageId ∅) : Genuine (deliveries ++ [delivery]) := by
  intro before messageId after hsplit
  rcases List.eq_nil_or_concat after with rfl | ⟨initial, last, rfl⟩
  · obtain ⟨rfl, hlast⟩ := List.append_inj' hsplit rfl
    exact hconfirmed messageId (List.cons.inj hlast).1
  · rw [List.concat_eq_append, ← List.cons_append, ← List.append_assoc] at hsplit
    exact h before messageId initial (List.append_inj' hsplit rfl).1

end Delivery

/-- The acknowledgement completes the delivery of the message. -/
def AckManager.confirms (manager : AckManager) (messageId peerId : Key) : Bool :=
  (manager.pendingAcks.get? messageId).map (fun peers ↦ peers.erase peerId) = some ∅

theorem AckManager.confirms_iff {manager : AckManager} {messageId peerId : Key} :
    manager.confirms messageId peerId = true ↔
      ∃ peers, manager.pendingAcks.get? messageId = some peers ∧ peers.erase peerId = ∅ := by
  simp [confirms]

namespace P2PNode

/-- An acknowledgement strikes one peer out of one entry, and may remove the entry. -/
theorem get?_acknowledge {manager : AckManager} {messageId peerId other : Key}
    {peers : Finset Key}
    (h : (AckManager.acknowledge manager messageId peerId).pendingAcks.get? other = some peers) :
    (other ≠ messageId ∧ manager.pendingAcks.get? other = some peers) ∨
      (other = messageId ∧ ∃ before, manager.pendingAcks.get? messageId = some before ∧
        peers = before.erase peerId) := by
  unfold AckManager.acknowledge at h
  split at h
  · rename_i before hbefore
    by_cases hother : other = messageId
    · subst hother
      refine .inr ⟨rfl, before, hbefore, ?_⟩
      dsimp only at h
      split at h
      · simp at h
      · simpa using h.symm
    · refine .inl ⟨hother, ?_⟩
      dsimp only at h
      split at h
      · simpa [OrderedMap.get?_erase, hother] using h
      · rwa [OrderedMap.get?_set_of_ne _ _ hother] at h
  · rename_i hnone
    refine .inl ⟨?_, h⟩
    rintro rfl
    rw [hnone] at h
    cases h

/-- The message that an `ACK` is for, and the sender that it names. -/
def ackOf (runtime : Runtime) (node : P2PNode) (message : Value) : Option (Key × Key) :=
  if frameType message = .ack then
    (node.gossipEngine.parse runtime (message.property "payload")).bind fun payload ↦
      if payload.nullish then none
      else some ((payload.property "ackId").key, (message.property "sender").key)
  else none

/-- The `ACK` that an event brings: its message, the sender that it names, and the peer of the
connection over which it came. -/
def receivedAck (runtime : Runtime) (node : P2PNode) (event : Event) : Option (Key × Key × Key) :=
  (relayed node event).bind fun (message, fromPeerId) ↦
    (ackOf runtime node message).map fun (messageId, sender) ↦ (messageId, sender, fromPeerId)

def deliveriesOf (runtime : Runtime) (node : P2PNode) (event : Event) : List Delivery :=
  match event, receivedAck runtime node event with
  | .sendWithAck messageId peerIds, _ => [.sent messageId peerIds]
  | _, some (messageId, sender, fromPeerId) =>
    .acknowledged messageId fromPeerId ::
      if node.ackManager.confirms messageId sender then [.confirmed messageId] else []
  | _, none => []

end P2PNode

namespace P2PNode

variable {runtime : Runtime} {clock : ℕ → ℕ} {now : ℕ} {node after : P2PNode} {message : Value}
  {fromPeerId : Key}

/-! ## Only an `ACK` reaches the manager of acknowledgements -/

/-- The manager of acknowledgements stays as it is. -/
def SameAcks (before after : P2PNode) : Prop := after.ackManager = before.ackManager

theorem SameAcks.refl (node : P2PNode) : SameAcks node node := rfl

theorem SameAcks.trans {first second third : P2PNode} (h : SameAcks first second)
    (h' : SameAcks second third) : SameAcks first third := Eq.trans h' h

theorem ackManager_receiveMessage
    (h : node.receiveMessage runtime now message fromPeerId = some after) :
    after.ackManager = node.ackManager := by
  obtain ⟨gossipEngine, announced, saved, _, rfl⟩ := receiveMessage_eq h
  rfl

theorem ackManager_receiveSyncAck
    (h : node.receiveSyncAck runtime message fromPeerId = some after) :
    after.ackManager = node.ackManager := by
  obtain ⟨syncManager, rfl⟩ := receiveSyncAck_eq h
  rfl

theorem ackManager_updateHeartbeat (now : ℕ) (node : P2PNode) (peerId : Key) :
    (node.updateHeartbeat now peerId).ackManager = node.ackManager := by
  obtain ⟨peers, heq⟩ := updateHeartbeat_eq now node peerId
  rw [heq]

theorem ackManager_receiveHello (h : node.receiveHello runtime now message = some after) :
    after.ackManager = node.ackManager := by
  obtain ⟨subscribed, hsubscribed, hresult⟩ := Option.bind_eq_some_iff.1 h
  obtain ⟨topicRouter, rfl, _⟩ := registerSubscriptions_eq hsubscribed
  obtain rfl := onPeerReconnected_eq hresult
  exact ackManager_updateHeartbeat now _ _

theorem ackManager_handshake {socketId : ℕ}
    (h : node.handshake runtime now socketId message = some after) :
    after.ackManager = node.ackManager := by
  obtain ⟨subscribed, hsubscribed, hresult⟩ := Option.bind_eq_some_iff.1 h
  obtain ⟨topicRouter, rfl, _⟩ := registerSubscriptions_eq hsubscribed
  obtain rfl := onPeerReconnected_eq hresult
  rfl

theorem ackManager_addPeer {peerId host port : Value}
    (h : node.addPeer runtime now peerId host port = some after) :
    after.ackManager = node.ackManager := by
  rcases addPeer_cases h with rfl | ⟨peers, hconnected⟩
  · rfl
  · rcases connect_cases hconnected with rfl | ⟨client, _, rfl⟩
    · rfl
    · rfl

/-- The manager after a relayed message. -/
theorem ackManager_relay (h : node.relay runtime clock message fromPeerId = some after) :
    after.ackManager = (ackOf runtime node message).elim node.ackManager fun (messageId, sender) ↦
      AckManager.acknowledge node.ackManager messageId sender := by
  obtain ⟨handled, hhandled, hexchange⟩ := Option.bind_eq_some_iff.1 h
  have hexchanged : SameAcks handled after :=
    rel_of_peerExchange SameAcks .refl .trans ackManager_addPeer hexchange
  rw [hexchanged]
  unfold handleMessage at hhandled
  split at hhandled
  · cases hhandled
  · unfold ackOf
    split at hhandled
    · rename_i htype
      cases hhandled
      rw [htype, if_pos rfl, receiveAck]
      cases node.gossipEngine.parse runtime (message.property "payload") with
      | none => rfl
      | some payload =>
        simp only [Option.bind_some]
        split <;> rfl
    all_goals
      rename_i htype
      rw [htype, if_neg (by decide)]
    · exact rel_of_receiveSyncBatch SameAcks .refl .trans (fun _ ↦ rfl) ackManager_receiveMessage
        hhandled
    · exact ackManager_receiveSyncAck hhandled
    · exact ackManager_receiveHello hhandled
    · cases hhandled
      exact ackManager_updateHeartbeat _ node _
    · cases hhandled
      rfl
    · cases hhandled
      rfl
    · exact ackManager_receiveMessage hhandled

/-- What one event does to the entries, and what it adds to the log. -/
inductive AckStep (runtime : Runtime) (node : P2PNode) (event : Event) (after : P2PNode) : Prop
  | sent (messageId : Key) (peerIds : List Key)
      (hdeliveries : deliveriesOf runtime node event = [.sent messageId peerIds])
      (hafter : after.ackManager =
        ⟨node.ackManager.pendingAcks.set messageId peerIds.toFinset⟩)
  | acknowledged (messageId sender fromPeerId : Key)
      (hreceived : receivedAck runtime node event = some (messageId, sender, fromPeerId))
      (hdeliveries : deliveriesOf runtime node event = .acknowledged messageId fromPeerId ::
        if node.ackManager.confirms messageId sender then [.confirmed messageId] else [])
      (hafter : after.ackManager = AckManager.acknowledge node.ackManager messageId sender)
  | quiet (hdeliveries : deliveriesOf runtime node event = [])
      (hafter : ∀ messageId peers, after.ackManager.pendingAcks.get? messageId = some peers →
        node.ackManager.pendingAcks.get? messageId = some peers)

theorem AckStep.of_eq {event : Event} (hdeliveries : deliveriesOf runtime node event = [])
    (h : after.ackManager = node.ackManager) : AckStep runtime node event after :=
  .quiet hdeliveries fun _ _ hpeers ↦ h ▸ hpeers

theorem deliveriesOf_frame (endpoint : Endpoint) (frame : Option Value) :
    deliveriesOf runtime node (.frame clock endpoint frame) =
      (receivedAck runtime node (.frame clock endpoint frame)).elim []
        fun (messageId, sender, fromPeerId) ↦ .acknowledged messageId fromPeerId ::
          if node.ackManager.confirms messageId sender then [.confirmed messageId] else [] := by
  unfold deliveriesOf
  cases receivedAck runtime node (.frame clock endpoint frame) <;> rfl

theorem ackStep_frame {endpoint : Endpoint} {frame : Option Value}
    (h : next runtime node (.frame clock endpoint frame) = some after) :
    AckStep runtime node (.frame clock endpoint frame) after := by
  cases hrelayed : relayed node (.frame clock endpoint frame) with
  | none =>
    have hreceived : receivedAck runtime node (.frame clock endpoint frame) = none := by
      rw [receivedAck, hrelayed, Option.bind_none]
    refine .of_eq (by rw [deliveriesOf_frame, hreceived]; rfl) ?_
    rw [next] at h
    unfold receiveFrame at h
    split at h
    · cases h
      rfl
    · unfold serverMessage at h
      split at h
      · split at h
        · cases h
        · split at h
          · exact ackManager_handshake h
          · cases h
            rfl
      · rename_i hsocket
        simp [relayed, hsocket] at hrelayed
      · cases h
        rfl
      · cases h
        rfl
    · unfold clientMessage at h
      split at h
      · rename_i hdialled
        simp [relayed, hdialled] at hrelayed
      · cases h
        rfl
  | some entry =>
    obtain ⟨message, fromPeerId⟩ := entry
    obtain ⟨clock', hnext⟩ := next_of_relayed runtime hrelayed
    rw [hnext] at h
    have hafter := ackManager_relay h
    have hreceived : receivedAck runtime node (.frame clock endpoint frame) =
        (ackOf runtime node message).map fun (messageId, sender) ↦
          (messageId, sender, fromPeerId) := by
      rw [receivedAck, hrelayed, Option.bind_some]
    cases hack : ackOf runtime node message with
    | none =>
      rw [hack] at hafter hreceived
      exact .of_eq (by rw [deliveriesOf_frame, hreceived]; rfl) hafter
    | some names =>
      rw [hack] at hafter hreceived
      exact .acknowledged names.1 names.2 fromPeerId hreceived
        (by rw [deliveriesOf_frame, hreceived]; rfl) hafter

theorem ackStep_next {event : Event} (h : next runtime node event = some after) :
    AckStep runtime node event after := by
  cases event with
  | frame clock endpoint frame => exact ackStep_frame h
  | sendWithAck messageId peerIds =>
    cases h
    exact .sent messageId peerIds rfl rfl
  | deliveryFailed messageId =>
    cases h
    refine .quiet rfl fun other peers hpeers ↦ ?_
    rw [OrderedMap.get?_erase] at hpeers
    split at hpeers
    · cases hpeers
    · exact hpeers
  | bootstrap now index =>
    refine .of_eq rfl ?_
    rw [next, attemptBootstrap] at h
    split at h
    · split at h
      · exact ackManager_addPeer h
      · cases h
        rfl
    · cases h
      rfl
  | addPeer now peerId host port => exact .of_eq rfl (ackManager_addPeer h)
  | publish now message => exact .of_eq rfl (ackManager_receiveMessage h)
  | removePeer peerId =>
    cases h
    refine .of_eq rfl ?_
    unfold removePeer
    split
    · dsimp only
      split <;> rfl
    · rfl
  | setConnected clientId isConnected =>
    cases h
    refine .of_eq rfl ?_
    unfold setConnected
    split
    · split <;> rfl
    · rfl
  | clientFailed clientId =>
    cases h
    refine .of_eq rfl ?_
    unfold clientFailed
    split <;> rfl
  | socketClosed socketId =>
    cases h
    refine .of_eq rfl ?_
    unfold socketClosed
    split <;> rfl
  | databaseOpened =>
    cases h
    refine .of_eq rfl ?_
    split <;> rfl
  | stop | socketOpened | waitForAck _ _ | waitExpired _ | gc _ =>
    cases h
    exact .of_eq rfl rfl

end P2PNode

/-- A node with the log of its deliveries. -/
structure DeliveringNode where
  node : P2PNode
  deliveries : List Delivery

namespace DeliveringNode

open P2PNode

def start (config : NodeConfig) : DeliveringNode := ⟨.start config, []⟩

def next (runtime : Runtime) (current : DeliveringNode) (event : Event) : Option DeliveringNode :=
  (P2PNode.next runtime current.node event).map fun node ↦
    ⟨node, current.deliveries ++ deliveriesOf runtime current.node event⟩

def system (runtime : Runtime) : TransitionSystem DeliveringNode Event := .ofPartial (next runtime)

/-- An `ACK` that strikes out a peer comes over a connection of this peer. -/
def AcksOwn (runtime : Runtime) (current : DeliveringNode) (event : Event) : Prop :=
  ∀ messageId sender fromPeerId peers,
    receivedAck runtime current.node event = some (messageId, sender, fromPeerId) →
    current.node.ackManager.pendingAcks.get? messageId = some peers → sender ∈ peers →
      sender = fromPeerId

instance (runtime : Runtime) (current : DeliveringNode) (event : Event) :
    Decidable (AcksOwn runtime current event) :=
  match hreceived : receivedAck runtime current.node event with
  | none => .isTrue fun _ _ _ _ h ↦ by rw [hreceived] at h; cases h
  | some (messageId, sender, fromPeerId) =>
    match hentry : current.node.ackManager.pendingAcks.get? messageId with
    | none => .isTrue fun _ _ _ _ h hpeers ↦ by
        rw [hreceived] at h
        cases h
        rw [hentry] at hpeers
        cases hpeers
    | some peers => decidable_of_iff (sender ∈ peers → sender = fromPeerId) <| by
        constructor
        · intro hown _ _ _ _ h hpeers hmem
          rw [hreceived] at h
          cases h
          rw [hentry] at hpeers
          cases hpeers
          exact hown hmem
        · intro hown hmem
          exact hown messageId sender fromPeerId peers hreceived hentry hmem

/-- Every entry is accounted for, and so was every confirmation. -/
structure Invariant (current : DeliveringNode) : Prop where
  genuine : Delivery.Genuine current.deliveries
  accounted : ∀ messageId peers,
    current.node.ackManager.pendingAcks.get? messageId = some peers →
      Delivery.Accounted current.deliveries messageId peers

variable {runtime : Runtime} {current after : DeliveringNode} {event : Event}

theorem invariant_start (config : NodeConfig) : Invariant (start config) where
  genuine := Delivery.genuine_nil
  accounted _ _ hpeers := by cases hpeers

/-- Whoever an `ACK` strikes out has acknowledged the message. -/
theorem Invariant.accounted_acknowledge (h : Invariant current)
    (hown : AcksOwn runtime current event) {messageId sender fromPeerId : Key}
    (hreceived : receivedAck runtime current.node event = some (messageId, sender, fromPeerId))
    (peers : Finset Key)
    (hpeers : current.node.ackManager.pendingAcks.get? messageId = some peers) :
    Delivery.Accounted (current.deliveries ++ [.acknowledged messageId fromPeerId]) messageId
      (peers.erase sender) := by
  have haccounted := h.accounted messageId peers hpeers
  by_cases hmem : sender ∈ peers
  · have hsender := hown messageId sender fromPeerId peers hreceived hpeers hmem
    exact hsender ▸ haccounted.acknowledge sender
  · rw [Finset.erase_eq_of_notMem hmem]
    exact haccounted.append fun others ↦ by simp

theorem Invariant.next (h : Invariant current) (hown : AcksOwn runtime current event)
    (hnext : DeliveringNode.next runtime current event = some after) : Invariant after := by
  obtain ⟨node, hnode, rfl⟩ := Option.map_eq_some_iff.1 hnext
  cases ackStep_next hnode with
  | sent messageId peerIds hdeliveries hafter =>
    refine ⟨?_, fun other peers hpeers ↦ ?_⟩
    · rw [hdeliveries]
      exact h.genuine.append fun _ hconfirmed ↦ by cases hconfirmed
    · rw [hafter, OrderedMap.get?_set] at hpeers
      rw [hdeliveries]
      split at hpeers
      · rename_i hsame
        cases hpeers
        exact hsame ▸ Delivery.accounted_sent _ _ _
      · rename_i hother
        refine (h.accounted other peers hpeers).append fun others hmem ↦ ?_
        cases List.mem_singleton.1 hmem
        exact hother rfl
  | acknowledged messageId sender fromPeerId hreceived hdeliveries hafter =>
    have haccounted := h.accounted_acknowledge hown hreceived
    rw [hdeliveries, List.append_cons]
    refine ⟨?_, fun other peers hpeers ↦ ?_⟩
    · have hgenuine : Delivery.Genuine
          (current.deliveries ++ [.acknowledged messageId fromPeerId]) :=
        h.genuine.append fun _ hconfirmed ↦ by cases hconfirmed
      split
      · rename_i hconfirms
        obtain ⟨peers, hpeers, hnobody⟩ := AckManager.confirms_iff.1 hconfirms
        refine hgenuine.append fun confirmed hconfirmed ↦ ?_
        cases hconfirmed
        exact hnobody ▸ haccounted peers hpeers
      · rwa [List.append_nil]
    · rw [hafter] at hpeers
      have hquiet (others : List Key) : Delivery.sent other others ∉
          if current.node.ackManager.confirms messageId sender then [.confirmed messageId]
          else [] := by
        split <;> simp
      rcases get?_acknowledge hpeers with ⟨-, hkept⟩ | ⟨rfl, before, hbefore, rfl⟩
      · refine ((h.accounted other peers hkept).append fun others ↦ ?_).append hquiet
        simp
      · exact (haccounted before hbefore).append hquiet
  | quiet hdeliveries hafter =>
    rw [hdeliveries, List.append_nil]
    exact ⟨h.genuine, fun messageId peers hpeers ↦ h.accounted messageId peers
      (hafter messageId peers hpeers)⟩

/-- As long as every peer that is struck out acknowledges for itself, every confirmation is
genuine. -/
theorem genuine_of_guardedRun {config : NodeConfig} {events : List Event}
    {last : DeliveringNode}
    (hrun : (system runtime).GuardedRun (AcksOwn runtime) (start config) events last) :
    Delivery.Genuine last.deliveries := by
  have hlast := hrun.invariant
    (fun _ _ _ hinvariant hown hstep ↦ Invariant.next hinvariant hown hstep)
    (invariant_start config)
  exact hlast.genuine

/-- A runtime whose `JSON.parse` knows the acknowledgement of the message `m1`. -/
def ackRuntime : Runtime :=
  { Runtime.sample with
    parseJson := fun parses text ↦
      if text = "\x7b\"ackId\":\"m1\"\x7d" then
        some (.object parses [("ackId", .string "m1")])
      else parseSample parses text }

def ackFrame (identity : ℕ) (sender : String) : Value :=
  .object identity [("type", .string "ACK"), ("sender", .string sender),
    ("payload", .string "\x7b\"ackId\":\"m1\"\x7d")]

/-- A peer connects under an id, the message goes out to `bob`, and the peer acknowledges it in
the name of `bob`. -/
def acknowledgedBy (peerId : String) : List Event :=
  [.databaseOpened, .socketOpened,
    .frame (fun _ ↦ 1) (.server 0) (some (helloFrame 0 peerId (peerId ++ "-key"))),
    .sendWithAck (.string "m1") [.string "bob"],
    .frame (fun _ ↦ 2) (.server 0) (some (ackFrame 2 "bob"))]

/-- The confirmations of every run are genuine. -/
def ConfirmsGenuinely (runtime : Runtime) : Prop :=
  ∀ config events last, (system runtime).Run (start config) events last →
    Delivery.Genuine last.deliveries

/-- The log of a run of the events, if none of them throws. -/
def logOf (runtime : Runtime) (events : List Event) : Option (List Delivery) :=
  (events.foldlM (next runtime) (start exampleConfig)).map deliveries

theorem genuine_acknowledgedBy_bob :
    ∃ deliveries, logOf ackRuntime (acknowledgedBy "bob") = some deliveries ∧
      .confirmed (.string "m1") ∈ deliveries ∧ Delivery.Genuine deliveries := by
  have hlog : logOf ackRuntime (acknowledgedBy "bob") =
      some [.sent (.string "m1") [.string "bob"],
        .acknowledged (.string "m1") (.string "bob"), .confirmed (.string "m1")] := by
    decide +kernel
  refine ⟨_, hlog, by decide, ?_⟩
  obtain ⟨last, hlast, hdeliveries⟩ := Option.map_eq_some_iff.1 hlog
  rw [← hdeliveries]
  exact genuine_of_guardedRun
    (TransitionSystem.guardedRun_ofPartial hlast (by decide +kernel))

/-- `mallory` acknowledges the message for `bob`, from whom nothing was heard. -/
theorem not_confirmsGenuinely_forged : ¬ConfirmsGenuinely ackRuntime := by
  intro h
  have hlog : logOf ackRuntime (acknowledgedBy "mallory") =
      some [.sent (.string "m1") [.string "bob"],
        .acknowledged (.string "m1") (.string "mallory"), .confirmed (.string "m1")] := by
    decide +kernel
  obtain ⟨last, hlast, hdeliveries⟩ := Option.map_eq_some_iff.1 hlog
  have hgenuine := h exampleConfig _ last (TransitionSystem.run_ofPartial hlast)
  rw [hdeliveries] at hgenuine
  obtain ⟨before, peerIds, since, hsplit, hlastSent, hacks⟩ := hgenuine
    [.sent (.string "m1") [.string "bob"], .acknowledged (.string "m1") (.string "mallory")]
    (.string "m1") [] rfl
  match before, hsplit with
  | [], hsplit =>
    obtain ⟨hsent, rfl⟩ := List.cons.inj hsplit
    cases hsent
    simpa using hacks (.string "bob") (by simp) (by simp)
  | [_], hsplit => cases (List.cons.inj (List.cons.inj hsplit).2).1
  | _ :: _ :: [], hsplit => cases (List.cons.inj (List.cons.inj hsplit).2).2
  | _ :: _ :: _ :: _, hsplit => cases (List.cons.inj (List.cons.inj hsplit).2).2

end DeliveringNode

end P2PApp.Node
