import P2PApp.Library.TransitionSystem
import P2PApp.Node.GossipEngine
import P2PApp.Transport.ConnectionPool

/-!
# A node on unchecked frames

`P2PNode` with the components that a frame can reach: the server with the handshake state of its
sockets, the connection pool, the dispatch of relayed frames, the peer exchange, the managers of
acknowledgements and peers, and the gossip engine. Whatever runs to completion on the event loop is
one event. `none` stands for an exception or a rejected promise, which nothing in the repository
catches, so that the process ends.

The part of `onPeerReconnected` behind its first `await` is the subject of the synchronisation
modules; here the ids it is called with are recorded, and its waits come and go as events.
-/

namespace P2PApp.Node

open JavaScript

inductive FrameType
  | ack
  | syncBatch
  | syncAck
  | hello
  | heartbeat
  | peerExchange
  | peerList
  | gossip
  deriving DecidableEq

def frameType (message : Value) : FrameType :=
  match (message.property "type").key with
  | .string "ACK" => .ack
  | .string "SYNC_BATCH" => .syncBatch
  | .string "SYNC_ACK" => .syncAck
  | .string "HELLO" => .hello
  | .string "HEARTBEAT" => .heartbeat
  | .string "PEER_EXCHANGE" => .peerExchange
  | .string "PEER_LIST" => .peerList
  | _ => .gossip

/-- An entry of `config.bootstrapNodes`: a URL, or an object with the three properties. -/
inductive BootstrapNode
  | url (text : String)
  | node (peerId host port : Value)

structure NodeConfig where
  peerId : String
  publicKey : String
  enableDiscovery : Bool
  bootstrapNodes : List BootstrapNode
  rateLimitCapacity : ℚ
  rateLimitRefillRate : ℚ

/-- The database of a node opens after `start` and is closed by `stop`, which also drops the
message store. -/
inductive Storage
  | opening
  | open
  | closed
  deriving DecidableEq

/-- What `WSServer` knows of a socket: nothing yet, or the id that its handshake announced. -/
inductive Socket
  | greeting
  | handshaked (connectedPeerId : Key)
  | closed
  deriving DecidableEq

/-- The other two states of a peer are set by a component that no node starts. -/
inductive PeerStatus
  | connecting
  | active
  deriving DecidableEq

structure PeerInfo where
  host : Value
  port : Value
  lastSeen : ℕ
  status : PeerStatus

/-- For each message that awaits acknowledgements, the peers that have not sent theirs. -/
structure AckManager where
  pendingAcks : OrderedMap Key (Finset Key)

structure SyncManager where
  /-- The batch that each peer is to acknowledge next. -/
  pendingAcks : OrderedMap Key String
  /-- The ids handed to `onPeerReconnected`, in order. -/
  reconnected : List Key

structure P2PNode where
  config : NodeConfig
  storage : Storage
  /-- The keys under which messages were saved. -/
  saved : List String
  connectionPool : ConnectionPool Key
  /-- The id under which each outbound client was dialled, by the number of the client. -/
  dialled : List Key
  sockets : List Socket
  gossipEngine : GossipEngine
  peers : OrderedMap Key PeerInfo
  ackManager : AckManager
  syncManager : SyncManager

namespace P2PNode

def start (config : NodeConfig) : P2PNode where
  config
  storage := .opening
  saved := []
  connectionPool := .new config.peerId
  dialled := []
  sockets := []
  gossipEngine :=
    .new config.peerId config.publicKey config.rateLimitCapacity config.rateLimitRefillRate
  peers := ∅
  ackManager := ⟨∅⟩
  syncManager := ⟨∅, []⟩

/-! ## Peers and connections -/

def updateHeartbeat (now : ℕ) (node : P2PNode) (peerId : Key) : P2PNode :=
  match node.peers.get? peerId with
  | none => node
  | some peerInfo =>
    { node with
      peers := node.peers.set peerId { peerInfo with lastSeen := now, status := .active } }

/-- `ws://<host>:<port>`. -/
def urlOf (runtime : Runtime) (host port : Value) : Option String := do
  let host ← host.toText runtime.toConversions
  let port ← port.toText runtime.toConversions
  return "ws://" ++ host ++ ":" ++ port

/-- `connect` of the pool. The warning about a full pool prints the id, and the constructor of
`WebSocket` rejects what is no URL. -/
def connect (runtime : Runtime) (node : P2PNode) (peerId host port : Value) : Option P2PNode :=
  if node.connectionPool.outboundConnections.has peerId.key then some node
  else if Config.MAX_PEERS ≤ node.connectionPool.outboundConnections.size then
    (peerId.toText runtime.toConversions).map fun _ ↦ node
  else
    (urlOf runtime host port).bind fun url ↦
      if runtime.acceptsUrl url then
        some { node with
          connectionPool := node.connectionPool.connect node.dialled.length url peerId.key
          dialled := node.dialled ++ [peerId.key] }
      else none

def addPeer (runtime : Runtime) (now : ℕ) (node : P2PNode) (peerId host port : Value) :
    Option P2PNode :=
  if node.peers.has peerId.key then some node
  else
    connect runtime
      { node with
        peers := node.peers.set peerId.key { host, port, lastSeen := now, status := .connecting } }
      peerId host port

def clearRoutesForPeer (node : P2PNode) (peerId : Key) : P2PNode :=
  { node with
    gossipEngine := { node.gossipEngine with
      topicRouter := node.gossipEngine.topicRouter.clearRoutesForPeer peerId } }

/-- `removePeer`, which disconnects the client of a known peer. -/
def removePeer (node : P2PNode) (peerId : Key) : P2PNode :=
  if node.peers.has peerId then
    let removed := { node with
      connectionPool := node.connectionPool.removeOutbound peerId
      peers := node.peers.erase peerId }
    if node.connectionPool.outboundConnections.has peerId then removed.clearRoutesForPeer peerId
    else removed
  else node

/-! ## Synchronisation and storage -/

/-- The synchronous part of `onPeerReconnected`: the key of the watermark converts the id. -/
def onPeerReconnected (node : P2PNode) (peerId : Value) : Option P2PNode :=
  if node.storage = .open ∧ peerId.unprintable = true then none
  else
    some { node with
      syncManager := { node.syncManager with
        reconnected := node.syncManager.reconnected ++ [peerId.key] } }

def padStart (text : String) : String :=
  String.ofList (List.replicate (15 - (Pow.charCodes text).length) '0') ++ text

def makeKey (runtime : Runtime) (topic lamportTimestamp messageId : Value) : Option String := do
  let topic ← topic.toText runtime.toConversions
  let lamportTimestamp ← lamportTimestamp.toText runtime.toConversions
  let messageId ← messageId.toText runtime.toConversions
  return "msg:" ++ topic ++ ":" ++ padStart lamportTimestamp ++ ":" ++ messageId

def save (runtime : Runtime) (node : P2PNode) (message : Value) : Option P2PNode :=
  if node.storage = .closed then none
  else
    (makeKey runtime (message.property "topic") (message.property "lamportTimestamp")
      (message.property "id")).map fun key ↦ { node with saved := node.saved ++ [key] }

/-- The `message:new` handler, which does not save routing messages. -/
def messageNew (runtime : Runtime) (node : P2PNode) (message : Value) : Option P2PNode :=
  if (message.property "type").key = .string "SUB_AD" then some node
  else node.save runtime message

/-- A message for the gossip engine, with the announcement that may follow. -/
def receiveMessage (runtime : Runtime) (now : ℕ) (node : P2PNode) (message : Value)
    (fromPeerId : Key) : Option P2PNode :=
  (node.gossipEngine.receiveMessage runtime now message fromPeerId).bind
    fun (gossipEngine, announced) ↦
      if announced then messageNew runtime { node with gossipEngine } message
      else some { node with gossipEngine }

def countParse (node : P2PNode) : P2PNode :=
  { node with gossipEngine := node.gossipEngine.countParse }

/-- One iteration of `receiveSyncBatch`. -/
def receiveItem (runtime : Runtime) (fromPeerId : Key) (node : P2PNode) (item : Value × ℕ) :
    Option P2PNode :=
  if item.1.nullish then none
  else if (item.1.property "id").key ∈ node.gossipEngine.seenMessages then some node
  else node.receiveMessage runtime item.2 item.1 fromPeerId

/-- The elements of a batch, each with the clock reading of its iteration. -/
def timed (clock : ℕ → ℕ) (items : List Value) : List (Value × ℕ) :=
  items.zipIdx.map fun entry ↦ (entry.1, clock entry.2)

def receiveSyncBatch (runtime : Runtime) (clock : ℕ → ℕ) (node : P2PNode) (syncBatch : Value)
    (fromPeerId : Key) : Option P2PNode :=
  match node.gossipEngine.parse runtime (syncBatch.property "payload") with
  | none => none
  | some (.array _ messages) =>
    (timed clock messages).foldlM (receiveItem runtime fromPeerId) node.countParse
  | some _ => some node.countParse

def receiveSyncAck (runtime : Runtime) (node : P2PNode) (message : Value) (fromPeerId : Key) :
    Option P2PNode :=
  match node.gossipEngine.parse runtime (message.property "payload") with
  | none => none
  | some payload =>
    if payload.nullish then none
    else
      match node.syncManager.pendingAcks.get? fromPeerId with
      | some batchId =>
        if (payload.property "batchId").key = .string batchId then
          some { node.countParse with
            syncManager := { node.syncManager with
              pendingAcks := node.syncManager.pendingAcks.erase fromPeerId } }
        else some node.countParse
      | none => some node.countParse

/-- The peer has acknowledged the message; the last peer completes its delivery. -/
def AckManager.acknowledge (manager : AckManager) (messageId peerId : Key) : AckManager :=
  match manager.pendingAcks.get? messageId with
  | some peers =>
    let remaining := peers.erase peerId
    ⟨if remaining = ∅ then manager.pendingAcks.erase messageId
      else manager.pendingAcks.set messageId remaining⟩
  | none => manager

/-- All exceptions of `receiveAck` are caught. -/
def receiveAck (runtime : Runtime) (node : P2PNode) (ackMessage : Value) : P2PNode :=
  match node.gossipEngine.parse runtime (ackMessage.property "payload") with
  | some payload =>
    { node.countParse with
      ackManager := if payload.nullish then node.ackManager
        else AckManager.acknowledge node.ackManager (payload.property "ackId").key
          (ackMessage.property "sender").key }
  | none => node.countParse

/-! ## Frames -/

/-- One iteration of the loop over the subscriptions that a handshake shares. -/
def registerSubscription (runtime : Runtime) (now : ℕ) (peerId : Key) (router : Router)
    (topic : Value) : Option Router :=
  (GossipEngine.updateRoute runtime router topic.key peerId peerId 0 (.number (.finite 0)) []
    (now + Config.ROUTE_LEASE_MS)).map Prod.snd

def registerSubscriptions (runtime : Runtime) (now : ℕ) (node : P2PNode) (peerId : Key)
    (subscriptions : Value) : Option P2PNode :=
  match subscriptions with
  | .array _ topics =>
    (topics.foldlM (registerSubscription runtime now peerId) node.gossipEngine.topicRouter).map
      fun topicRouter ↦ { node with gossipEngine := { node.gossipEngine with topicRouter } }
  | _ => some node

def registerPeerKey (node : P2PNode) (peerId : Key) (publicKey : Value) : P2PNode :=
  { node with
    gossipEngine := { node.gossipEngine with
      securityManager := node.gossipEngine.securityManager.registerPeerKey peerId publicKey } }

/-- The `HELLO` branch of the dispatch. -/
def receiveHello (runtime : Runtime) (now : ℕ) (node : P2PNode) (message : Value) :
    Option P2PNode :=
  let peerId := message.property "peerId"
  let greeted := (node.registerPeerKey peerId.key (message.property "publicKey")).updateHeartbeat
    now peerId.key
  (greeted.registerSubscriptions runtime now peerId.key (message.property "subscriptions")).bind
    fun node ↦ node.onPeerReconnected peerId

/-- The `message:received` handler of the node. -/
def handleMessage (runtime : Runtime) (clock : ℕ → ℕ) (node : P2PNode) (message : Value)
    (fromPeerId : Key) : Option P2PNode :=
  if message.nullish then none
  else
    match frameType message with
    | .ack => some (node.receiveAck runtime message)
    | .syncBatch => node.receiveSyncBatch runtime clock message fromPeerId
    | .syncAck => node.receiveSyncAck runtime message fromPeerId
    | .hello => node.receiveHello runtime (clock 0) message
    | .heartbeat => some (node.updateHeartbeat (clock 0) (message.property "sender").key)
    | .peerExchange | .peerList => some node
    | .gossip => node.receiveMessage runtime (clock 0) message fromPeerId

/-- One iteration over a received list of peers. -/
def receivePeer (runtime : Runtime) (now : ℕ) (node : P2PNode) (peer : Value) : Option P2PNode :=
  if peer.nullish then none
  else
    let peerId := peer.property "peerId"
    if peerId.key ≠ .string node.config.peerId then
      node.addPeer runtime now peerId (peer.property "host") (peer.property "port")
    else some node

/-- The listener of the peer exchange, which is added when discovery starts. Its answer to a
request changes nothing in the node. -/
def peerExchange (runtime : Runtime) (now : ℕ) (node : P2PNode) (message : Value) :
    Option P2PNode :=
  if node.config.enableDiscovery = true ∧ frameType message = .peerList then
    match message.property "peers" with
    | .array _ peers => peers.foldlM (receivePeer runtime now) node
    | _ => some node
  else some node

/-- `message:received` of the pool, with both of its listeners. -/
def relay (runtime : Runtime) (clock : ℕ → ℕ) (node : P2PNode) (message : Value)
    (fromPeerId : Key) : Option P2PNode :=
  (node.handleMessage runtime clock message fromPeerId).bind fun node ↦
    node.peerExchange runtime (clock 0) message

/-- The first `HELLO` on a server socket. Its public key is not registered. -/
def handshake (runtime : Runtime) (now : ℕ) (node : P2PNode) (socketId : ℕ) (message : Value) :
    Option P2PNode :=
  let peerId := message.property "peerId"
  let connected := { node with
    sockets := node.sockets.set socketId (.handshaked peerId.key)
    connectionPool := node.connectionPool.addInboundConnection
      { socketId, remotePeerId := peerId.key } }
  (connected.registerSubscriptions runtime now peerId.key (message.property "subscriptions")).bind
    fun node ↦ node.onPeerReconnected peerId

/-- A parsed frame on a server socket. Before the handshake anything else closes the socket. -/
def serverMessage (runtime : Runtime) (clock : ℕ → ℕ) (node : P2PNode) (socketId : ℕ)
    (message : Value) : Option P2PNode :=
  match node.sockets[socketId]? with
  | some .greeting =>
    if message.nullish then none
    else if frameType message = .hello ∧ (message.property "peerId").truthy = true then
      node.handshake runtime (clock 0) socketId message
    else some node
  | some (.handshaked connectedPeerId) => node.relay runtime clock message connectedPeerId
  | some .closed | none => some node

/-- A parsed frame on an outbound client, relayed under the id it was dialled with. -/
def clientMessage (runtime : Runtime) (clock : ℕ → ℕ) (node : P2PNode) (clientId : ℕ)
    (message : Value) : Option P2PNode :=
  match node.dialled[clientId]? with
  | some peerId => node.relay runtime clock message peerId
  | none => some node

/-! ## Events -/

/-- The socket, or the outbound client, on which a frame arrives. -/
inductive Endpoint
  | server (socketId : ℕ)
  | client (clientId : ℕ)
  deriving DecidableEq

/-- A frame: the value its text parses to, if it does. Malformed text is dropped. -/
def receiveFrame (runtime : Runtime) (clock : ℕ → ℕ) (node : P2PNode) (endpoint : Endpoint)
    (frame : Option Value) : Option P2PNode :=
  match frame, endpoint with
  | none, _ => some node
  | some message, .server socketId => node.serverMessage runtime clock socketId message
  | some message, .client clientId => node.clientMessage runtime clock clientId message

/-- The peer that discovery dials for an entry of `bootstrapNodes`, if the entry is usable. -/
def bootstrapTarget (runtime : Runtime) (index : ℕ) : BootstrapNode → Option (Value × Value × Value)
  | .node peerId host port => some (peerId, host, port)
  | .url text => (runtime.parseUrl text).map fun (hostname, port) ↦
    (.string ("bootstrap-" ++ toString index), .string hostname, .number (.finite port))

def attemptBootstrap (runtime : Runtime) (now : ℕ) (node : P2PNode) (index : ℕ) :
    Option P2PNode :=
  match (node.config.bootstrapNodes[index]?).bind (bootstrapTarget runtime index) with
  | some (peerId, host, port) =>
    if node.config.enableDiscovery then node.addPeer runtime now peerId host port else some node
  | none => some node

def clientFailed (node : P2PNode) (clientId : ℕ) : P2PNode :=
  match node.dialled[clientId]? with
  | some peerId =>
    { node with connectionPool := node.connectionPool.removeOutbound peerId }.clearRoutesForPeer
      peerId
  | none => node

/-- A client opens its connection or loses it, which its successor in the pool does not notice. -/
def setConnected (node : P2PNode) (clientId : ℕ) (isConnected : Bool) : P2PNode :=
  match node.dialled[clientId]? with
  | some peerId =>
    if (node.connectionPool.outboundConnections.get? peerId).map WSClient.clientId = some clientId
    then { node with connectionPool := node.connectionPool.setConnected peerId isConnected }
    else node
  | none => node

def socketClosed (node : P2PNode) (socketId : ℕ) : P2PNode :=
  match node.sockets[socketId]? with
  | some (.handshaked connectedPeerId) =>
    { node with
      sockets := node.sockets.set socketId .closed
      connectionPool := node.connectionPool.removeInbound connectedPeerId }.clearRoutesForPeer
      connectedPeerId
  | _ => { node with sockets := node.sockets.set socketId .closed }

def gc (now : ℕ) (node : P2PNode) : P2PNode :=
  { node with
    gossipEngine := { node.gossipEngine with
      topicRouter := node.gossipEngine.topicRouter.gc now } }

/-- What can happen at a node. `waitForAck` and the expirations belong to the parts of the managers
that run between frames; a local message is whatever the application publishes. -/
inductive Event
  | frame (clock : ℕ → ℕ) (endpoint : Endpoint) (frame : Option Value)
  | databaseOpened
  | stop
  | bootstrap (now index : ℕ)
  | addPeer (now : ℕ) (peerId host port : Value)
  | removePeer (peerId : Key)
  | setConnected (clientId : ℕ) (isConnected : Bool)
  | clientFailed (clientId : ℕ)
  | socketOpened
  | socketClosed (socketId : ℕ)
  | publish (now : ℕ) (message : Value)
  | sendWithAck (messageId : Key) (peerIds : List Key)
  | deliveryFailed (messageId : Key)
  | waitForAck (peerId : Key) (batchId : String)
  | waitExpired (peerId : Key)
  | gc (now : ℕ)

/-- The node after an event, unless handling it throws. -/
def next (runtime : Runtime) (node : P2PNode) : Event → Option P2PNode
  | .frame clock endpoint frame => node.receiveFrame runtime clock endpoint frame
  | .databaseOpened =>
    some (if node.storage = .opening then { node with storage := .open } else node)
  | .stop => some { node with storage := .closed, connectionPool := node.connectionPool.clear }
  | .bootstrap now index => node.attemptBootstrap runtime now index
  | .addPeer now peerId host port => node.addPeer runtime now peerId host port
  | .removePeer peerId => some (node.removePeer peerId)
  | .setConnected clientId isConnected => some (node.setConnected clientId isConnected)
  | .clientFailed clientId => some (node.clientFailed clientId)
  | .socketOpened => some { node with sockets := node.sockets ++ [.greeting] }
  | .socketClosed socketId => some (node.socketClosed socketId)
  | .publish now message => node.receiveMessage runtime now message .null
  | .sendWithAck messageId peerIds =>
    some { node with ackManager := ⟨node.ackManager.pendingAcks.set messageId peerIds.toFinset⟩ }
  | .deliveryFailed messageId =>
    some { node with ackManager := ⟨node.ackManager.pendingAcks.erase messageId⟩ }
  | .waitForAck peerId batchId =>
    some { node with
      syncManager := { node.syncManager with
        pendingAcks := node.syncManager.pendingAcks.set peerId batchId } }
  | .waitExpired peerId =>
    some { node with
      syncManager := { node.syncManager with
        pendingAcks := node.syncManager.pendingAcks.erase peerId } }
  | .gc now => some (node.gc now)

/-- The runs of a node that handle every event to its end. -/
def system (runtime : Runtime) : TransitionSystem P2PNode Event := .ofPartial (next runtime)

/-! ## For closed examples -/

def exampleConfig : NodeConfig where
  peerId := "alice"
  publicKey := "alice-key"
  enableDiscovery := true
  bootstrapNodes := [.url "ws://127.0.0.1:9001"]
  rateLimitCapacity := 20
  rateLimitRefillRate := 5

def helloFrame (identity : ℕ) (peerId publicKey : String) : Value :=
  .object identity [("type", .string "HELLO"), ("peerId", .string peerId),
    ("publicKey", .string publicKey), ("subscriptions", .array (identity + 1) [.string "global"])]

end P2PNode

end P2PApp.Node
