import P2PApp.Transport.ConnectionPool

/-!
# Copies per peer

To which peers a broadcast hands a copy, over which connections, and which connection a single send
picks. The two maps of the pool are searched one after the other and know nothing of each other. So
a peer in both of them gets two copies of a broadcast, and a client that is still reconnecting hides
an inbound connection from a send. Which connections are open is up to the sockets; any combination
is possible.
-/

namespace P2PApp.ConnectionPool

variable {Peer : Type} [DecidableEq Peer] (pool : ConnectionPool Peer)
  (isOpen : Connection Peer → Bool)

/-- The connections to a peer. -/
def connectionsOf (peerId : Peer) : List (Connection Peer) :=
  (pool.outboundConnections.get? peerId).toList.map .outbound ++
    (pool.inboundConnections.get? peerId).toList.map .inbound

/-- The copies that a broadcast hands out, each with the peer that it is meant for. -/
def copies (excludePeerIds : List Peer) : List (Peer × Connection Peer) :=
  (pool.outboundConnections.entries.filter fun entry ↦ entry.1 ∉ excludePeerIds).map
      (fun entry ↦ (entry.1, .outbound entry.2)) ++
    (pool.inboundConnections.entries.filter fun entry ↦ entry.1 ∉ excludePeerIds).map
      (fun entry ↦ (entry.1, .inbound entry.2))

theorem map_snd_copies (excludePeerIds : List Peer) :
    (pool.copies excludePeerIds).map Prod.snd = pool.broadcast excludePeerIds := by
  simp only [copies, broadcast, List.map_append, List.map_map]
  rfl

/-- Every peer that is not excluded gets one copy of a broadcast, nobody else gets any, and a peer
with an open connection gets its copies, of a broadcast or of a message sent to it, over an open
one. -/
structure Delivers (excludePeerIds : List Peer) (peerId : Peer) : Prop where
  once : ∀ other, ((pool.copies excludePeerIds).map Prod.fst).count other =
    if other ∈ pool.getAllPeerIds ∧ other ∉ excludePeerIds then 1 else 0
  broadcastOpen : ∀ copy ∈ pool.copies excludePeerIds,
    (∃ connection ∈ pool.connectionsOf copy.1, isOpen connection = true) → isOpen copy.2 = true
  sendOpen : (∃ connection ∈ pool.connectionsOf peerId, isOpen connection = true) →
    ∃ connection, pool.send peerId = some connection ∧ isOpen connection = true

/-- The peer is in both maps. -/
def InBothMaps (peerId : Peer) : Prop :=
  peerId ∈ pool.outboundConnections.keys ∧ peerId ∈ pool.inboundConnections.keys

/-- The client dialled for the peer is not open, while an inbound connection of the peer is. -/
def Hidden (peerId : Peer) : Prop :=
  ∃ client inbound, pool.outboundConnections.get? peerId = some client ∧
    pool.inboundConnections.get? peerId = some inbound ∧
    isOpen (.outbound client) = false ∧ isOpen (.inbound inbound) = true

variable {pool isOpen}

theorem mem_copies {excludePeerIds : List Peer} {copy : Peer × Connection Peer} :
    copy ∈ pool.copies excludePeerIds ↔
      copy.1 ∉ excludePeerIds ∧ copy.2 ∈ pool.connectionsOf copy.1 := by
  obtain ⟨peerId, connection⟩ := copy
  simp only [copies, connectionsOf, List.mem_append, List.mem_map, List.mem_filter,
    decide_eq_true_eq, Prod.mk.injEq, Prod.exists, Option.mem_toList,
    OrderedMap.get?_eq_some_iff]
  constructor
  · rintro (⟨_, client, ⟨hentry, hnot⟩, rfl, rfl⟩ | ⟨_, inbound, ⟨hentry, hnot⟩, rfl, rfl⟩)
    · exact ⟨hnot, .inl ⟨client, hentry, rfl⟩⟩
    · exact ⟨hnot, .inr ⟨inbound, hentry, rfl⟩⟩
  · rintro ⟨hnot, ⟨client, hentry, rfl⟩ | ⟨inbound, hentry, rfl⟩⟩
    · exact .inl ⟨peerId, client, ⟨hentry, hnot⟩, rfl, rfl⟩
    · exact .inr ⟨peerId, inbound, ⟨hentry, hnot⟩, rfl, rfl⟩

/-- A broadcast goes over all connections to the peers that are not excluded. -/
theorem mem_broadcast {excludePeerIds : List Peer} {connection : Connection Peer} :
    connection ∈ pool.broadcast excludePeerIds ↔
      ∃ peerId, peerId ∉ excludePeerIds ∧ connection ∈ pool.connectionsOf peerId := by
  rw [← map_snd_copies, List.mem_map]
  constructor
  · rintro ⟨⟨peerId, _⟩, hcopy, rfl⟩
    exact ⟨peerId, mem_copies.1 hcopy⟩
  · rintro ⟨peerId, hcopy⟩
    exact ⟨(peerId, connection), mem_copies.2 hcopy, rfl⟩

theorem exists_connection {peerId : Peer} :
    (∃ connection, connection ∈ pool.connectionsOf peerId) ↔ peerId ∈ pool.getAllPeerIds := by
  rw [mem_getAllPeerIds, OrderedMap.mem_keys_iff, OrderedMap.mem_keys_iff]
  unfold connectionsOf
  cases pool.outboundConnections.get? peerId <;> cases pool.inboundConnections.get? peerId <;> simp

/-- Everybody in the pool who is not excluded gets a copy. -/
theorem mem_map_copies {excludePeerIds : List Peer} {peerId : Peer} :
    peerId ∈ (pool.copies excludePeerIds).map Prod.fst ↔
      peerId ∈ pool.getAllPeerIds ∧ peerId ∉ excludePeerIds := by
  rw [← exists_connection, List.mem_map]
  constructor
  · rintro ⟨⟨other, connection⟩, hcopy, rfl⟩
    obtain ⟨hnot, hconnection⟩ := mem_copies.1 hcopy
    exact ⟨⟨connection, hconnection⟩, hnot⟩
  · rintro ⟨⟨connection, hconnection⟩, hnot⟩
    exact ⟨(peerId, connection), mem_copies.2 ⟨hnot, hconnection⟩, rfl⟩

/-- One copy for each of the two maps that has the peer. -/
theorem count_copies (excludePeerIds : List Peer) (peerId : Peer) :
    ((pool.copies excludePeerIds).map Prod.fst).count peerId =
      if peerId ∈ excludePeerIds then 0
      else
        pool.outboundConnections.keys.count peerId +
          pool.inboundConnections.keys.count peerId := by
  have hfiltered {ν : Type} (m : OrderedMap Peer ν) :
      ((m.entries.filter fun entry ↦ entry.1 ∉ excludePeerIds).map Prod.fst) =
        m.keys.filter fun key ↦ key ∉ excludePeerIds := by
    rw [OrderedMap.keys, List.filter_map]
    rfl
  have hkeys : (pool.copies excludePeerIds).map Prod.fst =
      (pool.outboundConnections.keys.filter fun key ↦ key ∉ excludePeerIds) ++
        pool.inboundConnections.keys.filter fun key ↦ key ∉ excludePeerIds := by
    rw [← hfiltered, ← hfiltered, copies, List.map_append, List.map_map, List.map_map]
    rfl
  rw [hkeys, List.count_append]
  split
  · rename_i hexcluded
    rw [List.count_eq_zero.2 (by simp [hexcluded]), List.count_eq_zero.2 (by simp [hexcluded])]
  · rename_i hincluded
    rw [List.count_filter (by simpa using hincluded), List.count_filter (by simpa using hincluded)]

/-- A peer gets its one copy exactly if it is not in both maps. -/
theorem count_copies_eq_iff (excludePeerIds : List Peer) (peerId : Peer) :
    ((pool.copies excludePeerIds).map Prod.fst).count peerId =
        (if peerId ∈ pool.getAllPeerIds ∧ peerId ∉ excludePeerIds then 1 else 0) ↔
      (peerId ∉ excludePeerIds → ¬pool.InBothMaps peerId) := by
  rw [count_copies, pool.outboundConnections.nodup_keys.count,
    pool.inboundConnections.nodup_keys.count]
  simp only [mem_getAllPeerIds]
  unfold InBothMaps
  by_cases hexcluded : peerId ∈ excludePeerIds
  · simp [hexcluded]
  · by_cases hout : peerId ∈ pool.outboundConnections.keys <;>
      by_cases hin : peerId ∈ pool.inboundConnections.keys <;> simp [hexcluded, hout, hin]

theorem connectionsOf_of_not_inBothMaps {peerId : Peer} (h : ¬pool.InBothMaps peerId)
    {connection other : Connection Peer} (hconnection : connection ∈ pool.connectionsOf peerId)
    (hother : other ∈ pool.connectionsOf peerId) : connection = other := by
  unfold InBothMaps at h
  rw [OrderedMap.mem_keys_iff, OrderedMap.mem_keys_iff] at h
  unfold connectionsOf at hconnection hother
  cases hout : pool.outboundConnections.get? peerId with
  | none =>
    cases hin : pool.inboundConnections.get? peerId <;> simp_all
  | some client =>
    cases hin : pool.inboundConnections.get? peerId with
    | none => simp_all
    | some inbound => exact absurd ⟨⟨client, hout⟩, inbound, hin⟩ h

theorem sendOpen_iff (peerId : Peer) :
    ((∃ connection ∈ pool.connectionsOf peerId, isOpen connection = true) →
      ∃ connection, pool.send peerId = some connection ∧ isOpen connection = true) ↔
      ¬pool.Hidden isOpen peerId := by
  unfold Hidden connectionsOf send
  cases hout : pool.outboundConnections.get? peerId with
  | none => cases hin : pool.inboundConnections.get? peerId <;> simp
  | some client =>
    cases hin : pool.inboundConnections.get? peerId with
    | none => simp
    | some inbound =>
      cases hclient : isOpen (.outbound client) <;> simp [hclient]

/-- Copies arrive as they should exactly if no peer that is to get the broadcast is in both maps,
and no open inbound connection of the addressee is hidden by a client that is not open. -/
theorem delivers_iff (pool : ConnectionPool Peer) (isOpen : Connection Peer → Bool)
    (excludePeerIds : List Peer) (peerId : Peer) :
    pool.Delivers isOpen excludePeerIds peerId ↔
      (∀ other, other ∉ excludePeerIds → ¬pool.InBothMaps other) ∧
        ¬pool.Hidden isOpen peerId := by
  constructor
  · intro h
    exact ⟨fun other ↦ (count_copies_eq_iff excludePeerIds other).1 (h.once other),
      (sendOpen_iff peerId).1 h.sendOpen⟩
  · rintro ⟨hmaps, hhidden⟩
    refine ⟨fun other ↦ (count_copies_eq_iff excludePeerIds other).2 (hmaps other), ?_,
      (sendOpen_iff peerId).2 hhidden⟩
    intro copy hcopy
    rintro ⟨connection, hconnection, hopen⟩
    obtain ⟨hnot, hmem⟩ := mem_copies.1 hcopy
    rwa [connectionsOf_of_not_inBothMaps (hmaps _ hnot) hmem hconnection]

/-- A peer that was dialled connects by itself, before the client has opened its socket. -/
def dialledBack : ConnectionPool :=
  ((new "alice").connect 0 "ws://10.0.0.2:8080" "bob").addInboundConnection ⟨0, "bob"⟩

/-- Clients are open while they are connected, and inbound connections until they are closed. -/
def isConnected : Connection → Bool
  | .outbound client => client.isConnected
  | .inbound _ => true

/-- Copies always arrive as they should. -/
def DeliversAlways : Prop :=
  ∀ (pool : ConnectionPool) (isOpen : Connection → Bool) excludePeerIds peerId,
    pool.Delivers isOpen excludePeerIds peerId

/-- Two connections to one peer, of which the broadcast takes both and a send the closed one. -/
theorem not_deliversAlways_dialledBack : ¬DeliversAlways := by
  intro h
  have hdelivers := h dialledBack isConnected [] "bob"
  have honce := hdelivers.once "bob"
  exact absurd honce (by decide +kernel)

example : dialledBack.send "bob" = some (.outbound ⟨0, "ws://10.0.0.2:8080", "bob", false⟩) := by
  decide +kernel

end P2PApp.ConnectionPool
