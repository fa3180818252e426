import P2PApp.Library.TransitionSystem
import P2PApp.Transport.ConnectionPool

/-!
# The registry of peers

Discovery adds peers to a registry and dials them through the connection pool. The pool refuses to
dial when it is full, and forgets a client that has run out of attempts to reconnect. The registry
hears of neither. A peer that it knows is not dialled again, so that one without a client stays
without one until it is removed. The heartbeats of a peer and the silence after them move it between
the states of its life, which ends with its removal.
-/

namespace P2PApp

namespace Config

def PEER_TIMEOUT_MS : ℕ := 15000

end Config

namespace PeerManager

/-- Whoever is `DEAD` is removed at once. -/
inductive PeerStatus
  | connecting
  | active
  | suspected
  deriving DecidableEq, Repr

structure PeerInfo where
  host : String
  port : ℕ
  lastSeen : ℕ
  status : PeerStatus
  lamportTime : ℕ
  deriving DecidableEq, Repr

/-- The socket of a client: under way, established, or gone. -/
inductive Socket
  | connecting
  | open
  | closed
  deriving DecidableEq, Repr

/-- What a `WSClient` knows about its attempts to connect. -/
structure Client (Peer : Type) where
  remotePeerId : Peer
  socket : Socket
  isClosedIntentionally : Bool
  reconnectAttempts : ℕ
  /-- Whether `reconnectTimer` is running. -/
  reconnecting : Bool
  deriving DecidableEq, Repr

end PeerManager

open PeerManager in
/-- The peers of `State`, the pool, and all clients that were created, by their numbers. -/
structure PeerManager (Peer : Type) where
  peers : OrderedMap Peer PeerInfo
  connectionPool : ConnectionPool Peer
  clients : List (Client Peer)

namespace PeerManager

variable {Peer : Type} [DecidableEq Peer]

def new (localPeerId : String) : PeerManager Peer := ⟨∅, .new localPeerId, []⟩

/-! ## Clients -/

/-- `WSClient.connect`. -/
def Client.connect (client : Client Peer) : Client Peer :=
  { client with socket := .connecting, isClosedIntentionally := false, reconnecting := false }

def Client.new (remotePeerId : Peer) : Client Peer :=
  { remotePeerId, socket := .closed, isClosedIntentionally := false, reconnectAttempts := 0
    reconnecting := false }

/-- `WSClient.disconnect`; the `close` of the socket is still to come. -/
def Client.disconnect (client : Client Peer) : Client Peer :=
  { client with isClosedIntentionally := true, reconnecting := false }

/-- The `open` handler. -/
def Client.opened (client : Client Peer) : Client Peer :=
  { client with socket := .open, reconnectAttempts := 0 }

/-- `handleReconnect` gives up. -/
def Client.GivesUp (client : Client Peer) : Prop :=
  client.isClosedIntentionally = false ∧ Config.MAX_RECONNECT_ATTEMPTS ≤ client.reconnectAttempts

instance (client : Client Peer) : Decidable client.GivesUp := inferInstanceAs (Decidable (_ ∧ _))

/-- The `close` handler. -/
def Client.closed (client : Client Peer) : Client Peer :=
  let client := { client with socket := .closed }
  if client.isClosedIntentionally ∨ client.GivesUp then client
  else { client with reconnectAttempts := client.reconnectAttempts + 1, reconnecting := true }

/-! ## The pool -/

def connect (manager : PeerManager Peer) (host : String) (port : ℕ) (peerId : Peer) :
    PeerManager Peer :=
  if manager.connectionPool.outboundConnections.has peerId then manager
  else if Config.MAX_PEERS ≤ manager.connectionPool.outboundConnections.size then manager
  else
    { manager with
      connectionPool := manager.connectionPool.connect manager.clients.length
        s!"ws://{host}:{port}" peerId
      clients := manager.clients ++ [(Client.new peerId).connect] }

def disconnect (manager : PeerManager Peer) (peerId : Peer) : PeerManager Peer :=
  match manager.connectionPool.outboundConnections.get? peerId with
  | none => manager
  | some client =>
    { manager with
      connectionPool := manager.connectionPool.removeOutbound peerId
      clients := manager.clients.modify client.clientId Client.disconnect }

/-- The client that the pool has for a peer, if it is this one, is connected or not. -/
def setConnected (manager : PeerManager Peer) (peerId : Peer) (clientId : ℕ)
    (isConnected : Bool) : ConnectionPool Peer :=
  if (manager.connectionPool.outboundConnections.get? peerId).map WSClient.clientId = some clientId
  then manager.connectionPool.setConnected peerId isConnected
  else manager.connectionPool

def clientOpened (manager : PeerManager Peer) (clientId : ℕ) : PeerManager Peer :=
  match manager.clients[clientId]? with
  | none => manager
  | some client =>
    { manager with
      connectionPool := manager.setConnected client.remotePeerId clientId true
      clients := manager.clients.set clientId client.opened }

/-- A client that gives up has `failed`, and the pool removes what it has under the id. -/
def clientClosed (manager : PeerManager Peer) (clientId : ℕ) : PeerManager Peer :=
  match manager.clients[clientId]? with
  | none => manager
  | some client =>
    let connectionPool := manager.setConnected client.remotePeerId clientId false
    { manager with
      connectionPool :=
        if client.GivesUp then connectionPool.removeOutbound client.remotePeerId else connectionPool
      clients := manager.clients.set clientId client.closed }

/-- The reconnect timer of a client. -/
def clientReconnects (manager : PeerManager Peer) (clientId : ℕ) : PeerManager Peer :=
  { manager with clients := manager.clients.modify clientId Client.connect }

/-! ## Peers -/

def addPeer (now : ℕ) (manager : PeerManager Peer) (peerId : Peer) (host : String) (port : ℕ) :
    PeerManager Peer :=
  if manager.peers.has peerId then manager
  else
    let peerInfo : PeerInfo :=
      { host, port, lastSeen := now, status := .connecting, lamportTime := 0 }
    { manager with peers := manager.peers.set peerId peerInfo }.connect host port peerId

def removePeer (manager : PeerManager Peer) (peerId : Peer) : PeerManager Peer :=
  if manager.peers.has peerId then
    let manager := manager.disconnect peerId
    { manager with peers := manager.peers.erase peerId }
  else manager

/-- A heartbeat comes with or without a Lamport time. -/
def updateHeartbeat (now : ℕ) (manager : PeerManager Peer) (peerId : Peer)
    (lamportTime : Option ℕ) : PeerManager Peer :=
  match manager.peers.get? peerId with
  | none => manager
  | some peerInfo =>
    { manager with
      peers := manager.peers.set peerId { peerInfo with
        lastSeen := now
        status := .active
        lamportTime := lamportTime.elim peerInfo.lamportTime (max peerInfo.lamportTime) } }

/-- One iteration of the `_tick` of the heartbeat manager. -/
def checkTimeout (now : ℕ) (manager : PeerManager Peer) (entry : Peer × PeerInfo) :
    PeerManager Peer :=
  let (peerId, peerInfo) := entry
  let timeSinceLastSeen := now - peerInfo.lastSeen
  if peerInfo.status = .active ∧ Config.PEER_TIMEOUT_MS < timeSinceLastSeen then
    { manager with peers := manager.peers.set peerId { peerInfo with status := .suspected } }
  else if peerInfo.status = .suspected ∧ 2 * Config.PEER_TIMEOUT_MS < timeSinceLastSeen then
    manager.removePeer peerId
  else manager

def tick (now : ℕ) (manager : PeerManager Peer) : PeerManager Peer :=
  manager.peers.entries.foldl (checkTimeout now) manager

/-! ## Runs -/

/-- Bootstrap, mDNS and every peer of a received list come as `addPeer`. -/
inductive Event (Peer : Type)
  | addPeer (now : ℕ) (peerId : Peer) (host : String) (port : ℕ)
  | removePeer (peerId : Peer)
  | updateHeartbeat (now : ℕ) (peerId : Peer) (lamportTime : Option ℕ)
  | tick (now : ℕ)
  | clientOpened (clientId : ℕ)
  | clientClosed (clientId : ℕ)
  | clientReconnects (clientId : ℕ)

def next (manager : PeerManager Peer) : Event Peer → PeerManager Peer
  | .addPeer now peerId host port => manager.addPeer now peerId host port
  | .removePeer peerId => manager.removePeer peerId
  | .updateHeartbeat now peerId lamportTime => manager.updateHeartbeat now peerId lamportTime
  | .tick now => manager.tick now
  | .clientOpened clientId => manager.clientOpened clientId
  | .clientClosed clientId => manager.clientClosed clientId
  | .clientReconnects clientId => manager.clientReconnects clientId

/-- A socket opens once and closes once, and a reconnect timer runs out once. -/
def Enabled (manager : PeerManager Peer) : Event Peer → Prop
  | .clientOpened clientId => ∃ client ∈ manager.clients[clientId]?,
    client.socket = .connecting ∧ client.isClosedIntentionally = false
  | .clientClosed clientId => ∃ client ∈ manager.clients[clientId]?, client.socket ≠ .closed
  | .clientReconnects clientId => ∃ client ∈ manager.clients[clientId]?, client.reconnecting = true
  | .addPeer .. | .removePeer _ | .updateHeartbeat .. | .tick _ => True

instance (manager : PeerManager Peer) : ∀ event, Decidable (Enabled manager event)
  | .clientOpened clientId => inferInstanceAs (Decidable (∃ client ∈ manager.clients[clientId]?, _))
  | .clientClosed clientId => inferInstanceAs (Decidable (∃ client ∈ manager.clients[clientId]?, _))
  | .clientReconnects clientId =>
    inferInstanceAs (Decidable (∃ client ∈ manager.clients[clientId]?, _))
  | .addPeer .. | .removePeer _ | .updateHeartbeat .. | .tick _ => inferInstanceAs (Decidable True)

def system : TransitionSystem (PeerManager Peer) (Event Peer) := .ofNext Enabled next

/-- Every peer that the registry knows has a client. -/
def Consistent (manager : PeerManager Peer) : Prop :=
  ∀ peerId ∈ manager.peers.keys, peerId ∈ manager.connectionPool.outboundConnections.keys

/-- Whoever has no client can be added and dialled, as long as there is room. -/
def Redials (manager : PeerManager Peer) : Prop :=
  ∀ now peerId host port, peerId ∉ manager.connectionPool.outboundConnections.keys →
    manager.connectionPool.outboundConnections.size < Config.MAX_PEERS →
      peerId ∈ (manager.addPeer now peerId host port).connectionPool.outboundConnections.keys

/-- A new peer can be dialled, and no client of a known peer gives up. -/
def Fits (manager : PeerManager Peer) : Event Peer → Prop
  | .addPeer _ peerId _ _ => peerId ∈ manager.peers.keys ∨
    peerId ∈ manager.connectionPool.outboundConnections.keys ∨
    manager.connectionPool.outboundConnections.size < Config.MAX_PEERS
  | .clientClosed clientId => ∀ client ∈ manager.clients[clientId]?,
    client.remotePeerId ∈ manager.peers.keys → ¬client.GivesUp
  | .removePeer _ | .updateHeartbeat .. | .tick _ | .clientOpened _ | .clientReconnects _ => True

/-! ## What each step does to the two maps -/

variable {manager : PeerManager Peer}

theorem keys_setConnected (peerId : Peer) (clientId : ℕ) (isConnected : Bool) :
    (manager.setConnected peerId clientId isConnected).outboundConnections.keys =
      manager.connectionPool.outboundConnections.keys := by
  unfold setConnected
  split
  · exact OrderedMap.keys_mapValues _ _
  · rfl

/-- A new peer is known from now on, and dialled if there is room. -/
theorem consistent_addPeer (h : Consistent manager) (now : ℕ) (peerId : Peer) (host : String)
    (port : ℕ) :
    Consistent (manager.addPeer now peerId host port) ↔
      Fits manager (.addPeer now peerId host port) := by
  unfold addPeer Fits
  by_cases hknown : manager.peers.has peerId = true
  · rw [if_pos hknown]
    exact iff_of_true h (.inl (OrderedMap.has_iff_mem_keys.1 hknown))
  · rw [if_neg hknown]
    have hnew : peerId ∉ manager.peers.keys := fun hmem ↦
      hknown (OrderedMap.has_iff_mem_keys.2 hmem)
    unfold connect Consistent
    dsimp only
    split
    · rename_i hdialled
      have hmem := OrderedMap.has_iff_mem_keys.1 hdialled
      refine iff_of_true (fun other hother ↦ ?_) (.inr (.inl hmem))
      rcases OrderedMap.mem_keys_set.1 hother with rfl | hold
      · exact hmem
      · exact h other hold
    · rename_i hdialled
      have hnot : peerId ∉ manager.connectionPool.outboundConnections.keys := fun hmem ↦
        hdialled (OrderedMap.has_iff_mem_keys.2 hmem)
      split
      · rename_i hfull
        refine iff_of_false (fun hall ↦ ?_) ?_
        · exact hnot (hall peerId (OrderedMap.mem_keys_set.2 (.inl rfl)))
        · rintro (hmem | hmem | hroom)
          · exact hnew hmem
          · exact hnot hmem
          · omega
      · rename_i hroom
        refine iff_of_true (fun other hother ↦ ?_) (.inr (.inr (not_le.1 hroom)))
        rw [ConnectionPool.connect, if_neg hdialled, if_neg hroom]
        refine OrderedMap.mem_keys_set.2 ?_
        exact (OrderedMap.mem_keys_set.1 hother).imp_right (h other)

theorem peers_disconnect (manager : PeerManager Peer) (peerId : Peer) :
    (manager.disconnect peerId).peers = manager.peers := by
  unfold disconnect
  split
  · rfl
  · rfl

/-- The clients of other peers stay. -/
theorem mem_keys_disconnect {peerId other : Peer} (hne : other ≠ peerId)
    (h : other ∈ manager.connectionPool.outboundConnections.keys) :
    other ∈ (manager.disconnect peerId).connectionPool.outboundConnections.keys := by
  unfold disconnect
  split
  · exact h
  · exact OrderedMap.mem_keys_erase.2 ⟨hne, h⟩

theorem Consistent.removePeer (h : Consistent manager) (peerId : Peer) :
    Consistent (manager.removePeer peerId) := by
  unfold PeerManager.removePeer
  split
  · intro other hother
    dsimp only at hother ⊢
    rw [peers_disconnect, OrderedMap.mem_keys_erase] at hother
    exact mem_keys_disconnect hother.1 (h other hother.2)
  · exact h

/-- What is known of a peer changes. -/
theorem Consistent.set (h : Consistent manager) {peerId : Peer} {peerInfo peerInfo' : PeerInfo}
    (hknown : manager.peers.get? peerId = some peerInfo) :
    Consistent { manager with peers := manager.peers.set peerId peerInfo' } := by
  intro other hother
  rcases OrderedMap.mem_keys_set.1 hother with rfl | hold
  · exact h other (OrderedMap.mem_keys_iff.2 ⟨peerInfo, hknown⟩)
  · exact h other hold

theorem Consistent.updateHeartbeat (h : Consistent manager) (now : ℕ) (peerId : Peer)
    (lamportTime : Option ℕ) :
    Consistent (manager.updateHeartbeat now peerId lamportTime) := by
  unfold PeerManager.updateHeartbeat
  split
  · exact h
  · rename_i hknown
    exact h.set hknown

/-- Suspected peers keep their clients, and peers that are given up lose them. -/
theorem Consistent.checkTimeout (h : Consistent manager) (now : ℕ) {entry : Peer × PeerInfo}
    (hknown : entry.1 ∈ manager.peers.keys) : Consistent (manager.checkTimeout now entry) := by
  unfold PeerManager.checkTimeout
  dsimp only
  split
  · obtain ⟨peerInfo, hpeerInfo⟩ := OrderedMap.mem_keys_iff.1 hknown
    exact h.set hpeerInfo
  · split
    · exact h.removePeer entry.1
    · exact h

/-- A timeout concerns one peer only. -/
theorem mem_keys_checkTimeout (now : ℕ) {entry : Peer × PeerInfo} {other : Peer}
    (hne : other ≠ entry.1) (h : other ∈ manager.peers.keys) :
    other ∈ (manager.checkTimeout now entry).peers.keys := by
  unfold checkTimeout
  dsimp only
  split
  · exact OrderedMap.mem_keys_set.2 (.inr h)
  · split
    · unfold removePeer
      split
      · dsimp only
        rw [peers_disconnect]
        exact OrderedMap.mem_keys_erase.2 ⟨hne, h⟩
      · exact h
    · exact h

theorem Consistent.foldl_checkTimeout (now : ℕ) {entries : List (Peer × PeerInfo)}
    (hnodup : (entries.map Prod.fst).Nodup) (h : Consistent manager)
    (hknown : ∀ entry ∈ entries, entry.1 ∈ manager.peers.keys) :
    Consistent (entries.foldl (PeerManager.checkTimeout now) manager) := by
  induction entries generalizing manager with
  | nil => exact h
  | cons entry entries ih =>
    obtain ⟨hfresh, hrest⟩ := List.nodup_cons.1 hnodup
    refine ih hrest (h.checkTimeout now (hknown entry List.mem_cons_self)) fun other hother ↦ ?_
    refine mem_keys_checkTimeout now (fun heq ↦ hfresh ?_)
      (hknown other (List.mem_cons_of_mem _ hother))
    exact heq ▸ List.mem_map_of_mem hother

theorem Consistent.tick (h : Consistent manager) (now : ℕ) : Consistent (manager.tick now) :=
  .foldl_checkTimeout now manager.peers.nodup h fun _ ↦ OrderedMap.mem_keys_of_mem_entries

theorem Consistent.clientOpened (h : Consistent manager) (clientId : ℕ) :
    Consistent (manager.clientOpened clientId) := by
  unfold PeerManager.clientOpened
  split
  · exact h
  · intro other hother
    dsimp only
    rw [keys_setConnected]
    exact h other hother

/-- A known peer loses its client when that gives up. -/
theorem consistent_clientClosed (h : Consistent manager) (clientId : ℕ) :
    Consistent (manager.clientClosed clientId) ↔ Fits manager (.clientClosed clientId) := by
  cases hclient : manager.clients[clientId]? with
  | none =>
    have hsame : manager.clientClosed clientId = manager := by rw [clientClosed, hclient]
    rw [hsame]
    exact iff_of_true h (by simp [Fits, hclient])
  | some client =>
    have hfits : Fits manager (.clientClosed clientId) ↔
        (client.remotePeerId ∈ manager.peers.keys → ¬client.GivesUp) := by
      simp [Fits, hclient]
    rw [hfits, clientClosed, hclient]
    unfold Consistent
    dsimp only
    by_cases hfails : client.GivesUp
    · rw [if_pos hfails]
      constructor
      · intro hall hknown
        exact absurd rfl (OrderedMap.mem_keys_erase.1 (hall client.remotePeerId hknown)).1
      · intro hunknown other hother
        refine OrderedMap.mem_keys_erase.2 ⟨fun heq ↦ hunknown (heq ▸ hother) hfails, ?_⟩
        rw [keys_setConnected]
        exact h other hother
    · rw [if_neg hfails, keys_setConnected]
      exact iff_of_true h fun _ ↦ hfails

/-- The step lemma. -/
theorem consistent_next (h : Consistent manager) (event : Event Peer) :
    Consistent (manager.next event) ↔ Fits manager event := by
  cases event with
  | addPeer now peerId host port => exact consistent_addPeer h now peerId host port
  | removePeer peerId => exact iff_of_true (h.removePeer peerId) trivial
  | updateHeartbeat now peerId lamportTime =>
    exact iff_of_true (h.updateHeartbeat now peerId lamportTime) trivial
  | tick now => exact iff_of_true (h.tick now) trivial
  | clientOpened clientId => exact iff_of_true (h.clientOpened clientId) trivial
  | clientClosed clientId => exact consistent_clientClosed h clientId
  | clientReconnects clientId => exact iff_of_true h trivial

theorem Consistent.redials (h : Consistent manager) : Redials manager := by
  intro now peerId host port hnot hroom
  have hknown : ¬manager.peers.has peerId = true := fun hhas ↦
    hnot (h peerId (OrderedMap.has_iff_mem_keys.1 hhas))
  have hdialled : ¬manager.connectionPool.outboundConnections.has peerId = true := fun hhas ↦
    hnot (OrderedMap.has_iff_mem_keys.1 hhas)
  rw [addPeer, if_neg hknown, connect, if_neg hdialled, if_neg (not_le.2 hroom)]
  dsimp only
  rw [ConnectionPool.connect, if_neg hdialled, if_neg (not_le.2 hroom)]
  exact OrderedMap.mem_keys_set.2 (.inl rfl)

/-- All along a run every known peer has a client, and whoever has none can be dialled again,
exactly if whoever is added can be dialled and no client of a known peer gives up. -/
theorem consistent_iff_fits {localPeerId : String} {events : List (Event Peer)}
    {last : PeerManager Peer} (h : system.Run (new localPeerId) events last) :
    (∀ before, before <+: events → Consistent (before.foldl next (new localPeerId)) ∧
      Redials (before.foldl next (new localPeerId))) ↔
      system.GuardedRun Fits (new localPeerId) events last := by
  have hnew : Consistent (new localPeerId : PeerManager Peer) := by
    intro peerId hmem
    cases hmem
  have hstep (manager : PeerManager Peer) (event : Event Peer) (hbefore : Consistent manager)
      (_ : Enabled manager event) : Consistent (manager.next event) ↔ Fits manager event :=
    consistent_next hbefore event
  rw [system, ← TransitionSystem.Run.forall_prefix_iff hstep h hnew]
  refine forall₂_congr fun before _ ↦ ?_
  exact and_iff_left_of_imp Consistent.redials

theorem consistent_iff_fits_bob :
    Consistent ((new "alice").next (.addPeer 0 "bob" "10.0.0.2" 8080)) := by
  have hguarded : system.GuardedRun Fits (new "alice") [.addPeer 0 "bob" "10.0.0.2" 8080]
      ((new "alice").next (.addPeer 0 "bob" "10.0.0.2" 8080)) :=
    .snoc (.nil _) (.inr (.inr (by decide))) ⟨trivial, rfl⟩
  exact ((consistent_iff_fits hguarded.run).2 hguarded _ (List.prefix_refl _)).1

/-! ## A peer that cannot be reached -/

/-- The first attempt of the client and all its retries fail. -/
def unreachable : List (Event String) :=
  .addPeer 0 "bob" "10.0.0.2" 8080 :: .clientClosed 0 ::
    (List.replicate Config.MAX_RECONNECT_ATTEMPTS [.clientReconnects 0, .clientClosed 0]).flatten

theorem run_unreachable : system.Run (new "alice") unreachable
    (unreachable.foldl next (new "alice" : PeerManager String)) :=
  TransitionSystem.run_ofNext (by decide +kernel)

/-- Nobody will ever dial `bob` again. -/
theorem not_consistent_unreachable :
    ¬∀ localPeerId events (last : PeerManager String), system.Run (new localPeerId) events last →
      Consistent last := by
  intro h
  have hbob := h _ _ _ run_unreachable "bob"
  revert hbob
  decide +kernel

end PeerManager

end P2PApp
