import Mathlib.Combinatorics.SimpleGraph.Basic
import P2PApp.Network.Dissemination
import P2PApp.Protocol.Fanout
import P2PApp.Protocol.Insertion

/-!
# A network of honest nodes

Nodes with keys of their own on a fixed graph of connections. Every node signs with its key,
attaches the public key and solves the puzzle of what it publishes, and a copy is attributed to the
neighbour that sent it. Then every check but deduplication and the rate limit passes everywhere, so
that a copy that is let through by the limiter is accepted exactly if its id is new.
-/

namespace P2PApp.Network

/-- Who the nodes are, which of them are connected, and where the connections of a node lead. -/
structure Deployment (ι : Type*) where
  name : ι → String
  publicKey : ι → String
  secretKey : ι → String
  graph : SimpleGraph ι
  link : ι → Connection → ι
  name_injective : Function.Injective name

/-- What the nodes rely on from the crypto library: a signature verifies under the public key of
its signer, and neither signatures nor keys are empty. -/
structure Credible {ι : Type*} (platform : Platform) (deployment : Deployment ι) : Prop where
  verifies : ∀ node fields, platform.verify fields
    (platform.sign (deployment.secretKey node) fields) (deployment.publicKey node) = true
  sign_ne : ∀ node fields, platform.sign (deployment.secretKey node) fields ≠ ""
  publicKey_ne : ∀ node, deployment.publicKey node ≠ ""

variable {ι : Type*} {platform : Platform} {deployment : Deployment ι}

/-- The process of a node has its name and its key, is connected with its neighbours, and knows no
wrong keys. -/
structure Stationed (deployment : Deployment ι) (node : ι) (process : Process ι) : Prop where
  localPeerId : process.engine.localPeerId = deployment.name node
  secretKey : process.secretKey = deployment.secretKey node
  peers : ∀ peerId, peerId ∈ process.pool.getAllPeerIds ↔
    ∃ other, deployment.graph.Adj node other ∧ deployment.name other = peerId
  connections : ∀ other, deployment.graph.Adj node other →
    ∀ connection ∈ process.pool.connectionsOf (deployment.name other),
      deployment.link node connection = other
  keys : ∀ other publicKey,
    process.engine.boundKey (deployment.name other) = some (some publicKey) →
      publicKey = deployment.publicKey other

/-- The message comes from a node that has signed it and has solved its puzzle. -/
def Authentic (platform : Platform) (deployment : Deployment ι) (message : P2PMessage) : Prop :=
  platform.verifyPuzzle message.id Config.POW_DIFFICULTY message.powNonce = true ∧
    ∃ node, message.sender = deployment.name node ∧
      message.senderPublicKey = some (deployment.publicKey node) ∧
      message.signature =
        some (platform.sign (deployment.secretKey node) message.signedFields)

/-- What a hop changes about a message is not signed. -/
theorem Authentic.of_eq {message sent : P2PMessage} (h : Authentic platform deployment message)
    (hsame : sent = { message with ttl := sent.ttl, routingPath := sent.routingPath }) :
    Authentic platform deployment sent := by
  rw [hsame]
  exact h

theorem truthy_some {text : String} (h : text ≠ "") : truthy (some text) = some text :=
  truthy_eq_some.2 ⟨rfl, h⟩

/-- A node that knows no wrong keys accepts the signature of a node. -/
theorem Stationed.signatureValid {node : ι} {process : Process ι}
    (h : Stationed deployment node process) (hcredible : Credible platform deployment)
    {message : P2PMessage} (hauthentic : Authentic platform deployment message) :
    process.engine.SignatureValid platform message := by
  obtain ⟨-, author, hsender, hattached, hsignature⟩ := hauthentic
  intro manager hmanager
  rw [SecurityManager.verifyIncomingMessage_fst]
  refine ⟨_, deployment.publicKey author, ?_, ?_, hcredible.verifies author _⟩
  · rw [hsignature]
    exact truthy_some (hcredible.sign_ne author _)
  · rw [SecurityManager.verificationKey, hsender, hattached,
      truthy_some (hcredible.publicKey_ne author)]
    cases hkey : manager.keyOf (deployment.name author) with
    | none => rfl
    | some publicKey =>
      have hbound : process.engine.boundKey (deployment.name author) = some (some publicKey) := by
        rw [GossipEngine.boundKey, hmanager, Option.map_some, hkey]
      rw [h.keys author publicKey hbound, Option.some_or]

/-- An authentic message that the limiter lets through is accepted exactly if its id is new. -/
theorem Stationed.accepts_iff {node : ι} {process : Process ι}
    (h : Stationed deployment node process) (hcredible : Credible platform deployment)
    {message : P2PMessage} (hauthentic : Authentic platform deployment message) {now : ℕ}
    {fromPeerId : Option String} (hallowed : process.engine.Allowed now fromPeerId) :
    process.engine.Accepts platform now message fromPeerId ↔
      message.id ∉ process.engine.seenMessages :=
  ⟨fun haccepts ↦ haccepts.unseen,
    fun hunseen ↦ ⟨hauthentic.1, hallowed, h.signatureValid hcredible hauthentic, hunseen⟩⟩

/-- An authentic message teaches no wrong key. -/
theorem Stationed.receive {node : ι} {process : Process ι}
    (h : Stationed deployment node process) {copy : Copy ι}
    (hauthentic : Authentic platform deployment copy.message) {fromPeerId : Option String}
    {moment : Moment} (hallowed : process.engine.Allowed moment.now fromPeerId) :
    Stationed deployment node
      (process.receive platform (deployment.link node) node copy fromPeerId moment).1 where
  localPeerId := (GossipEngine.localPeerId_receiveMessage ..).trans h.localPeerId
  secretKey := h.secretKey
  peers := h.peers
  connections := h.connections
  keys := by
    intro other publicKey hbound
    obtain ⟨hpow, author, hsender, hattached, -⟩ := hauthentic
    have hkey := @GossipEngine.boundKey_receive platform process.engine
      ⟨copy.message, fromPeerId, process.pool, moment⟩ (deployment.name other) hallowed
    rw [if_pos hpow] at hkey
    obtain ⟨before, hbefore, hlearned⟩ := Option.map_eq_some_iff.1 (hkey.symm.trans hbound)
    unfold GossipEngine.learn at hlearned
    cases before with
    | some known =>
      have hsame : known = publicKey := by
        split at hlearned <;> simpa using hlearned
      exact hsame ▸ h.keys other known hbefore
    | none =>
      split at hlearned
      · rename_i hlearns
        rw [hattached, Option.none_or] at hlearned
        have hauthor : other = author := deployment.name_injective (hlearns.1.trans hsender)
        rw [hauthor]
        exact (Option.some.inj (truthy_eq_some.1 hlearned).1).symm
      · cases hlearned

/-- Every packet of a reception goes to a neighbour. -/
theorem Stationed.adj_of_mem_packets {node target : ι} {process : Process ι}
    (h : Stationed deployment node process) {copy sent : Copy ι} {effects : List EngineEffect}
    (hmem : .gossip target sent ∈
      Process.packets (deployment.link node) node process.pool copy effects) :
    deployment.graph.Adj node target := by
  obtain ⟨effect, -, hpacket⟩ := List.mem_flatMap.1 hmem
  cases effect with
  | messageNew message => cases hpacket
  | broadcast message excluded =>
    obtain ⟨connection, hconnection, heq⟩ := List.mem_map.1 hpacket
    obtain ⟨peerId, -, hpeer⟩ := ConnectionPool.mem_broadcast.1 hconnection
    obtain ⟨other, hadj, rfl⟩ :=
      (h.peers peerId).1 (ConnectionPool.exists_connection.1 ⟨connection, hpeer⟩)
    have hlink := h.connections other hadj connection hpeer
    injection heq with htarget
    rwa [← htarget, hlink]

/-! ## The network -/

/-- All processes are stationed, all copies in flight are authentic and have come along the graph,
and every seen id was published. -/
structure HonestWorld (platform : Platform) (deployment : Deployment ι) (world : World ι) :
    Prop where
  disseminates : Disseminates world
  stationed : ∀ node, Stationed deployment node (world.process node)
  authentic : ∀ target copy, .gossip target copy ∈ world.sent →
    Authentic platform deployment copy.message
  paths : ∀ target copy, .gossip target copy ∈ world.sent →
    (copy.chain ++ [target]).IsChain deployment.graph.Adj
  published : ∀ node, ∀ id ∈ (world.process node).engine.seenMessages,
    ∃ message ∈ world.published, message.id = id

/-- The graph does not change and nodes gossip only: a node attaches its key to what it publishes
and has solved the puzzle, and a copy is attributed to the neighbour that passed it on, whom the
limiter does not reject. -/
def Orderly (platform : Platform) (deployment : Deployment ι) (world : World ι) : Event ι → Prop
  | .publish node id _ _ _ options _ _ =>
    options.senderPublicKey = some (deployment.publicKey node) ∧
      platform.verifyPuzzle id Config.POW_DIFFICULTY
        (platform.solvePuzzle id Config.POW_DIFFICULTY) = true
  | .deliver node copy fromPeerId moment =>
    fromPeerId = truthy (copy.chain.getLast?.map deployment.name) ∧
      (world.process node).engine.Allowed moment.now fromPeerId
  | .createControl _ => True
  | .sendSyncBatch .. | .deliverSyncBatch .. | .reconfigure .. => False

instance (engine : GossipEngine) (now : ℕ) (fromPeerId : Option String) :
    Decidable (engine.Allowed now fromPeerId) :=
  decidable_of_iff _ (engine.checkLimit_fst now fromPeerId)

instance (world : World ι) : DecidablePred (Orderly platform deployment world)
  | .publish _ _ _ _ _ _ _ _ => inferInstanceAs (Decidable (_ ∧ _))
  | .deliver _ _ _ _ => inferInstanceAs (Decidable (_ ∧ _))
  | .createControl _ => inferInstanceAs (Decidable True)
  | .sendSyncBatch .. | .deliverSyncBatch .. | .reconfigure .. => inferInstanceAs (Decidable False)

/-- A network at rest with stationed processes. -/
theorem honestWorld_of_initial {world : World ι} (h : world.Initial)
    (hstationed : ∀ node, Stationed deployment node (world.process node)) :
    HonestWorld platform deployment world where
  disseminates := disseminates_of_initial h
  stationed := hstationed
  authentic target copy hmem := by
    rw [h.sent] at hmem
    cases hmem
  paths target copy hmem := by
    rw [h.sent] at hmem
    cases hmem
  published node id hid := by
    rw [h.seenMessages node] at hid
    cases hid

/-- What an orderly node publishes is authentic. -/
theorem Stationed.authentic_createMessage {node : ι} {process : Process ι}
    (h : Stationed deployment node process) {id createdAt : String} {type : MessageType}
    {payload : Payload} {options : MessageFactory.Options} {routingPath : Option (List String)}
    (hcredible : Credible platform deployment)
    (hkey : options.senderPublicKey = some (deployment.publicKey node))
    (hpuzzle : platform.verifyPuzzle id Config.POW_DIFFICULTY
      (platform.solvePuzzle id Config.POW_DIFFICULTY) = true) :
    Authentic platform deployment (World.createMessage platform process id createdAt type payload
      options routingPath).1 := by
  refine ⟨hpuzzle, node, h.localPeerId, ?_, ?_⟩
  · change truthy options.senderPublicKey = _
    rw [hkey]
    exact truthy_some (hcredible.publicKey_ne node)
  · rw [← h.secretKey]
    rfl

variable [DecidableEq ι]

theorem HonestWorld.receive {world : World ι} (h : HonestWorld platform deployment world)
    {node : ι} {copy : Copy ι} (hcopy : Descends world copy)
    (hauthentic : Authentic platform deployment copy.message)
    (hpath : (copy.chain ++ [node]).IsChain deployment.graph.Adj) {fromPeerId : Option String}
    {moment : Moment} (hallowed : (world.process node).engine.Allowed moment.now fromPeerId) :
    HonestWorld platform deployment
      (world.receive platform deployment.link node copy fromPeerId moment) where
  disseminates :=
    disseminates_receive platform deployment.link fromPeerId moment h.disseminates hcopy
  stationed := by
    intro other
    rw [World.process_receive]
    by_cases hother : other = node
    · subst hother
      rw [World.process_setProcess_self]
      exact (h.stationed other).receive hauthentic hallowed
    · rw [World.process_setProcess_of_ne world _ hother]
      exact h.stationed other
  authentic := by
    intro target sent hsent
    rcases List.mem_append.1 hsent with hbefore | hnew
    · exact h.authentic target sent hbefore
    · obtain ⟨_, message, hmessage, heq⟩ := mem_packets hnew
      cases heq
      have hsame := (GossipEngine.of_mem_broadcasts _ _ _ _ _ _ platform hmessage).1
      have httl : message.ttl = copy.message.ttl - 1 := by rw [hsame]
      rw [← httl] at hsame
      exact hauthentic.of_eq hsame
  paths := by
    intro target sent hsent
    rcases List.mem_append.1 hsent with hbefore | hnew
    · exact h.paths target sent hbefore
    · have hadj := (h.stationed node).adj_of_mem_packets hnew
      obtain ⟨_, message, -, heq⟩ := mem_packets hnew
      cases heq
      apply List.IsChain.append hpath (List.isChain_singleton _)
      simpa using hadj
  published := by
    intro other id hid
    rw [World.process_receive] at hid
    by_cases hother : other = node
    · subst hother
      rw [World.process_setProcess_self] at hid
      rcases (GossipEngine.mem_seenMessages_receiveMessage _ _ _ _ _ _ platform id).1 hid with
        hold | ⟨rfl, -⟩
      · exact h.published other id hold
      · obtain ⟨source, hsource, horigin, -⟩ := hcopy.origin
        exact ⟨source, hsource, by rw [horigin]⟩
    · rw [World.process_setProcess_of_ne world _ hother] at hid
      exact h.published other id hid

/-- A change of the counters and the records of one process. -/
theorem HonestWorld.setProcess {world : World ι} (h : HonestWorld platform deployment world)
    {node : ι} {process : Process ι} (hengine : process.engine = (world.process node).engine)
    (hpool : process.pool = (world.process node).pool)
    (hsecretKey : process.secretKey = (world.process node).secretKey)
    (hannounced : process.announcedLog = (world.process node).announcedLog)
    (hbroadcast : process.broadcastLog = (world.process node).broadcastLog) :
    HonestWorld platform deployment (world.setProcess node process) := by
  refine ⟨disseminates_setProcess node process h.disseminates (by rw [hengine]) hannounced
    hbroadcast, ?_, h.authentic, h.paths, ?_⟩
  · intro other
    by_cases hother : other = node
    · subst hother
      rw [World.process_setProcess_self]
      obtain ⟨hname, hkey, hpeers, hconnections, hkeys⟩ := h.stationed other
      exact ⟨hengine ▸ hname, hsecretKey ▸ hkey, hpool ▸ hpeers, hpool ▸ hconnections,
        hengine ▸ hkeys⟩
    · rw [World.process_setProcess_of_ne world _ hother]
      exact h.stationed other
  · intro other
    by_cases hother : other = node
    · subst hother
      rw [World.process_setProcess_self, hengine]
      exact h.published other
    · rw [World.process_setProcess_of_ne world _ hother]
      exact h.published other

theorem HonestWorld.stamp {world : World ι} (h : HonestWorld platform deployment world) (node : ι)
    (message : P2PMessage) (logicalClock : ℕ) :
    HonestWorld platform deployment (world.stamp node message logicalClock) := by
  have hset : HonestWorld platform deployment
      (world.setProcess node ((world.process node).stamp message logicalClock)) :=
    h.setProcess rfl rfl rfl rfl rfl
  refine ⟨(disseminates_stamp node message logicalClock h.disseminates).1, hset.stationed,
    hset.authentic, hset.paths, ?_⟩
  intro other id hid
  obtain ⟨known, hknown, hsame⟩ := hset.published other id hid
  exact ⟨known, List.mem_append_left _ hknown, hsame⟩

theorem HonestWorld.next {world : World ι} (h : HonestWorld platform deployment world)
    (hcredible : Credible platform deployment) {event : Event ι}
    (horderly : Orderly platform deployment world event) (henabled : world.Enabled event) :
    HonestWorld platform deployment (world.next platform deployment.link event) := by
  cases event with
  | publish node id createdAt type payload options routingPath moment =>
    obtain ⟨hkey, hpuzzle⟩ := horderly
    have hstamped := h.stamp node (World.createMessage platform (world.process node) id createdAt
      type payload options routingPath).1 (World.createMessage platform (world.process node) id
      createdAt type payload options routingPath).2
    apply hstamped.receive (disseminates_stamp node _ _ h.disseminates).2
      ((h.stationed node).authentic_createMessage hcredible hkey hpuzzle)
      (List.isChain_singleton _)
    intro peerId hpeerId
    cases hpeerId
  | deliver node copy fromPeerId moment =>
    exact h.receive (h.disseminates.gossip node copy henabled).toDescends
      (h.authentic node copy henabled) (h.paths node copy henabled) horderly.2
  | createControl node => exact h.setProcess rfl rfl rfl rfl rfl
  | sendSyncBatch node peerId copies => exact horderly.elim
  | deliverSyncBatch node deliveries fromPeerId => exact horderly.elim
  | reconfigure node pool topicRouter rateLimiter securityManager => exact horderly.elim

/-! ## A network on a given graph -/

section OnGraph

variable {size : ℕ} (graph : SimpleGraph (Fin size)) (names : Fin size → String)
  (hnames : Function.Injective names)

/-- Nodes on a graph, with keys made of their names. The number of a socket is that of the node at
its other end. -/
def Deployment.onGraph : Deployment (Fin size) where
  name := names
  publicKey node := "key of " ++ names node
  secretKey node := "key of " ++ names node
  graph := graph
  link
    | node, .inbound client => if h : client.socketId < size then ⟨client.socketId, h⟩ else node
    | node, .outbound _ => node
  name_injective := hnames

/-- The JavaScript platform with its keyed tags. -/
theorem credible_javaScript : Credible Pow.javaScript (.onGraph graph names hnames) where
  verifies node fields := by simp [Pow.javaScript, Deployment.onGraph]
  sign_ne node fields := by simp [Pow.javaScript, Pow.tag]
  publicKey_ne node := by simp [Deployment.onGraph]

variable [DecidableRel graph.Adj]

instance : DecidableRel (Deployment.onGraph graph names hnames).graph.Adj :=
  inferInstanceAs (DecidableRel graph.Adj)

/-- A pool with one connection to each neighbour. -/
def poolOnGraph (node : Fin size) : ConnectionPool where
  localPeerId := names node
  outboundConnections := ∅
  inboundConnections :=
    { entries := ((List.finRange size).filter fun other ↦ graph.Adj node other).map fun other ↦
        (names other, ⟨other, names other⟩)
      nodup := by
        rw [List.map_map]
        exact ((List.nodup_finRange size).filter _).map hnames }

def worldOnGraph (router : Fin size → Router) : World (Fin size) where
  process node :=
    { engine := { GossipEngine.new (names node)
          (some (SecurityManager.init (names node) ("key of " ++ names node)))
          Config.RATE_LIMIT_CAPACITY Config.RATE_LIMIT_REFILL_RATE with
        topicRouter := router node }
      pool := poolOnGraph graph names hnames node
      logicalClock := 0
      secretKey := "key of " ++ names node
      announcedLog := []
      broadcastLog := []
      history := [] }
  sent := []
  published := []

theorem initial_worldOnGraph (router : Fin size → Router) :
    (worldOnGraph graph names hnames router).Initial where
  logicalClock _ := rfl
  lamportClock _ := rfl
  seenMessages _ := rfl
  announcedLog _ := rfl
  broadcastLog _ := rfl
  history _ := rfl
  sent := rfl
  published := rfl

theorem stationed_worldOnGraph (router : Fin size → Router) (node : Fin size) :
    Stationed (.onGraph graph names hnames) node
      ((worldOnGraph graph names hnames router).process node) where
  localPeerId := rfl
  secretKey := rfl
  peers peerId := by
    rw [ConnectionPool.mem_getAllPeerIds]
    simp [worldOnGraph, poolOnGraph, OrderedMap.keys, Deployment.onGraph]
  connections other hadj connection hconnection := by
    rw [ConnectionPool.connectionsOf, List.mem_append] at hconnection
    rcases hconnection with houtbound | hinbound
    · cases houtbound
    · obtain ⟨client, hclient, rfl⟩ := List.mem_map.1 hinbound
      have hentry := OrderedMap.get?_eq_some_iff.1 (Option.mem_toList.1 hclient)
      obtain ⟨neighbour, -, heq⟩ := List.mem_map.1 hentry
      obtain ⟨hname, rfl⟩ := Prod.mk.injEq .. ▸ heq
      obtain rfl := hnames hname
      simp [Deployment.onGraph]
  keys other publicKey hbound := by
    have hkey : (SecurityManager.init (names node) ("key of " ++ names node)).keyOf (names other) =
        some publicKey := Option.some.inj hbound
    rw [SecurityManager.init, SecurityManager.keyOf_registerPeerKey] at hkey
    split at hkey
    · rename_i hsame
      obtain ⟨hsome, -⟩ := truthy_eq_some.1 hkey
      obtain rfl := hnames hsame
      exact (Option.some.inj hsome).symm
    · cases hkey

def nodeNames (node : Fin size) : String := "node-" ++ toString node.val

/-- A chat message of a node under an id whose puzzle is solved by the nonce 0. -/
def publishOnGraph (node : Fin size) (topic : String) : Event (Fin size) :=
  .publish node "m945" "2024-01-01T00:00:00.000Z" .chat (.text "hello")
    { topic := some topic, senderPublicKey := some ("key of " ++ names node) } none
    ⟨1000, fun _ ↦ 0⟩

/-- The message that is published so. -/
def messageOnGraph (node : Fin size) (topic : String) : P2PMessage :=
  (World.createMessage Pow.javaScript
    ((worldOnGraph graph names hnames fun _ ↦ .new).process node) "m945" "2024-01-01T00:00:00.000Z"
    .chat (.text "hello") { topic := some topic, senderPublicKey := some ("key of " ++ names node) }
    none).1

/-- The copy of a message that has come along a chain of nodes. -/
def copyAlong {ι : Type*} (message : P2PMessage) (chain : List ι) : Copy ι :=
  ⟨{ message with ttl := message.ttl - chain.length }, chain⟩

/-- The copies of a message arrive, each at the end of its way. -/
def arrivals {ι : Type*} (name : ι → String) (message : P2PMessage) (ways : List (List ι × ι)) :
    List (Event ι) :=
  ways.map fun way ↦ .deliver way.2 (copyAlong message way.1)
    (truthy (way.1.getLast?.map name)) ⟨2000, fun _ ↦ 0⟩

end OnGraph

end P2PApp.Network
