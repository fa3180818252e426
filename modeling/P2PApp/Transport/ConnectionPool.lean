import P2PApp.Library.OrderedMap
import P2PApp.Protocol.Message

/-!
# The connection pool

Outbound clients by the id under which they were dialled, inbound connections by the id that the
remote side announced. Sending and broadcasting are described by the connections to which a copy
of the message is handed. The pool is generic in the ids, because both discovery and handshakes
pass on what the network says; ids are strings unless stated otherwise.
-/

namespace P2PApp

/-- A `WSClient` object; `clientId` is its identity among the clients of the process, and `url` is
`ws://<host>:<port>`. -/
structure WSClient (Peer : Type := String) where
  clientId : ℕ
  url : String
  remotePeerId : Peer
  isConnected : Bool
  deriving DecidableEq, Repr

/-- The inbound relay that `WSServer` creates after a handshake on a socket. -/
structure InboundClient (Peer : Type := String) where
  socketId : ℕ
  remotePeerId : Peer
  deriving DecidableEq, Repr

inductive Connection (Peer : Type := String)
  | outbound (client : WSClient Peer)
  | inbound (client : InboundClient Peer)
  deriving DecidableEq, Repr

structure ConnectionPool (Peer : Type := String) where
  localPeerId : String
  outboundConnections : OrderedMap Peer (WSClient Peer)
  inboundConnections : OrderedMap Peer (InboundClient Peer)

namespace ConnectionPool

variable {Peer : Type}

def new (localPeerId : String) : ConnectionPool Peer := ⟨localPeerId, ∅, ∅⟩

variable [DecidableEq Peer]

/-- Dial a peer unless it is already dialled or the pool is full. -/
def connect (pool : ConnectionPool Peer) (clientId : ℕ) (url : String) (peerId : Peer) :
    ConnectionPool Peer :=
  if pool.outboundConnections.has peerId then pool
  else if Config.MAX_PEERS ≤ pool.outboundConnections.size then pool
  else
    { pool with
      outboundConnections := pool.outboundConnections.set peerId
        { clientId, url, remotePeerId := peerId, isConnected := false } }

def setConnected (pool : ConnectionPool Peer) (peerId : Peer) (isConnected : Bool) :
    ConnectionPool Peer :=
  { pool with
    outboundConnections := pool.outboundConnections.mapValues fun key client ↦
      if key = peerId then { client with isConnected } else client }

/-- The client gave up reconnecting (`failed`), or was disconnected by hand (`disconnect`). -/
def removeOutbound (pool : ConnectionPool Peer) (peerId : Peer) : ConnectionPool Peer :=
  { pool with outboundConnections := pool.outboundConnections.erase peerId }

def addInboundConnection (pool : ConnectionPool Peer) (client : InboundClient Peer) :
    ConnectionPool Peer :=
  { pool with inboundConnections := pool.inboundConnections.set client.remotePeerId client }

/-- The `close` handler of an inbound connection announced as `peerId`. -/
def removeInbound (pool : ConnectionPool Peer) (peerId : Peer) : ConnectionPool Peer :=
  { pool with inboundConnections := pool.inboundConnections.erase peerId }

def clear (pool : ConnectionPool Peer) : ConnectionPool Peer := .new pool.localPeerId

/-- The connection that `send(peerId, …)` hands the message to, if the pool knows the peer. -/
def send (pool : ConnectionPool Peer) (peerId : Peer) : Option (Connection Peer) :=
  match pool.outboundConnections.get? peerId with
  | some client => some (.outbound client)
  | none => (pool.inboundConnections.get? peerId).map .inbound

/-- The connections that `broadcast(…, excludePeerIds)` hands a copy to, in order. -/
def broadcast (pool : ConnectionPool Peer) (excludePeerIds : List Peer) :
    List (Connection Peer) :=
  (pool.outboundConnections.entries.filter fun entry ↦ entry.1 ∉ excludePeerIds).map
      (fun entry ↦ .outbound entry.2) ++
    (pool.inboundConnections.entries.filter fun entry ↦ entry.1 ∉ excludePeerIds).map
      (fun entry ↦ .inbound entry.2)

/-- The ids of both maps, each once. -/
def getAllPeerIds (pool : ConnectionPool Peer) : List Peer :=
  pool.outboundConnections.keys ++
    pool.inboundConnections.keys.filter fun peerId ↦ peerId ∉ pool.outboundConnections.keys

theorem mem_getAllPeerIds {pool : ConnectionPool Peer} {peerId : Peer} :
    peerId ∈ pool.getAllPeerIds ↔
      peerId ∈ pool.outboundConnections.keys ∨ peerId ∈ pool.inboundConnections.keys := by
  simp only [getAllPeerIds, List.mem_append, List.mem_filter, decide_eq_true_eq]
  tauto

theorem nodup_getAllPeerIds (pool : ConnectionPool Peer) : pool.getAllPeerIds.Nodup := by
  rw [getAllPeerIds, List.nodup_append]
  refine ⟨pool.outboundConnections.nodup_keys, pool.inboundConnections.nodup_keys.filter _, ?_⟩
  intro left hleft right hright heq
  subst heq
  simp only [List.mem_filter, decide_eq_true_eq] at hright
  exact hright.2 hleft

end ConnectionPool

end P2PApp
