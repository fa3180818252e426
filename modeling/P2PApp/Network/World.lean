import P2PApp.Library.TransitionSystem
import P2PApp.Storage.SyncReceiver

/-!
# A network of gossiping processes

Any number of processes, each with its own gossip engine, connection pool and message factory.
What a process hands to a connection is in flight to the process at the other end for ever:
delivery may take packets in any order, more than once, or never. Connections, routes, limiters
and keys may change between any two steps.

Beside the state of the program, a process keeps what it announced and broadcast and in which
order it published and accepted messages, and a copy in flight keeps the processes it came
through. The program never reads these records.
-/

namespace P2PApp.Network

/-- A message and the processes that handled it on its way, the originator first. -/
structure Copy (ι : Type*) where
  message : P2PMessage
  chain : List ι
  deriving DecidableEq

/-- The copy that a process passes on or keeps. -/
def Copy.onward {ι : Type*} (copy : Copy ι) (node : ι) (message : P2PMessage) : Copy ι where
  message := message
  chain := copy.chain ++ [node]

inductive Occurrence
  | published (message : P2PMessage)
  | accepted (message : P2PMessage)

def Occurrence.message : Occurrence → P2PMessage
  | .published message => message
  | .accepted message => message

/-- What travels over one connection. -/
inductive Packet (ι : Type*)
  | gossip (target : ι) (copy : Copy ι)
  | syncBatch (target : ι) (copies : List (Copy ι))
  deriving DecidableEq

structure Process (ι : Type*) where
  engine : GossipEngine
  pool : ConnectionPool
  /-- The static counter of the message factory of this process. -/
  logicalClock : ℕ
  secretKey : String
  announcedLog : List (Copy ι)
  broadcastLog : List (Copy ι)
  history : List Occurrence

namespace Process

variable {ι : Type*} (platform : Platform) (link : Connection → ι) (node : ι)

/-- The packets of the `broadcast` calls among the effects of one call. -/
def packets (pool : ConnectionPool) (copy : Copy ι) (effects : List EngineEffect) :
    List (Packet ι) :=
  effects.flatMap fun
    | .broadcast message excludePeerIds => (pool.broadcast excludePeerIds).map fun connection ↦
        .gossip (link connection) (copy.onward node message)
    | .messageNew _ => []

/-- One call of `receiveMessage`, with the records kept. -/
def receive (process : Process ι) (copy : Copy ι) (fromPeerId : Option String)
    (moment : Moment) : Process ι × List (Packet ι) :=
  let (engine, effects) := process.engine.receiveMessage platform process.pool moment.now
    moment.draws copy.message fromPeerId
  let accepted := (process.engine.screen platform moment.now copy.message fromPeerId).1 = .fresh
  ({ process with
      engine
      announcedLog := process.announcedLog ++ (announcements effects).map (copy.onward node)
      broadcastLog := process.broadcastLog ++ (broadcasts effects).map (copy.onward node)
      history := if accepted then process.history ++ [.accepted copy.message]
        else process.history },
    packets link node process.pool copy effects)

/-- The factory creates a message that is not gossiped, such as a batch or an acknowledgement. -/
def createControl (process : Process ι) : Process ι :=
  { process with logicalClock := process.logicalClock + 1 }

/-- The process after the factory has stamped a message, before the engine receives it. -/
def stamp (process : Process ι) (message : P2PMessage) (logicalClock : ℕ) : Process ι :=
  { process with logicalClock, history := process.history ++ [.published message] }

def reconfigure (process : Process ι) (pool : ConnectionPool) (topicRouter : Router)
    (rateLimiter : RateLimiter String) (securityManager : Option SecurityManager) : Process ι :=
  { process with
    pool
    engine := { process.engine with topicRouter, rateLimiter, securityManager } }

end Process

structure World (ι : Type*) where
  process : ι → Process ι
  sent : List (Packet ι)
  published : List P2PMessage

inductive Event (ι : Type*)
  /-- A message is created, signed and handed to the engine of its own process. -/
  | publish (node : ι) (id createdAt : String) (type : MessageType) (payload : Payload)
      (options : MessageFactory.Options) (routingPath : Option (List String)) (moment : Moment)
  /-- A gossip copy arrives, attributed to the neighbour that the pool knows as `fromPeerId`. -/
  | deliver (node : ι) (copy : Copy ι) (fromPeerId : Option String) (moment : Moment)
  /-- A batch of stored messages is sent to a neighbour. -/
  | sendSyncBatch (node : ι) (peerId : String) (copies : List (Copy ι))
  /-- A batch arrives; the moments are those of the iterations. -/
  | deliverSyncBatch (node : ι) (deliveries : List (Copy ι × Moment)) (fromPeerId : String)
  /-- Any other message that the factory creates. -/
  | createControl (node : ι)
  /-- Connections, routes, limits and keys change. -/
  | reconfigure (node : ι) (pool : ConnectionPool) (topicRouter : Router)
      (rateLimiter : RateLimiter String) (securityManager : Option SecurityManager)

namespace World

variable {ι : Type*} [DecidableEq ι] (platform : Platform) (link : ι → Connection → ι)

def setProcess (world : World ι) (node : ι) (process : Process ι) : World ι :=
  { world with process := Function.update world.process node process }

@[simp] theorem process_setProcess_self (world : World ι) (node : ι) (process : Process ι) :
    (world.setProcess node process).process node = process := Function.update_self ..

theorem process_setProcess_of_ne (world : World ι) {node other : ι} (process : Process ι)
    (h : other ≠ node) : (world.setProcess node process).process other = world.process other :=
  Function.update_of_ne h ..

theorem forall_setProcess (property : Process ι → Prop) {world : World ι} {node : ι}
    {process : Process ι} :
    (∀ other, property ((world.setProcess node process).process other)) ↔
      property process ∧ ∀ other, other ≠ node → property (world.process other) :=
  Function.forall_update_iff world.process fun _ ↦ property

theorem forall_process_iff (property : Process ι → Prop) {world : World ι} (node : ι) :
    (∀ other, property (world.process other)) ↔
      property (world.process node) ∧ ∀ other, other ≠ node → property (world.process other) := by
  constructor
  · intro h
    exact ⟨h node, fun other _ ↦ h other⟩
  · rintro ⟨hnode, hothers⟩ other
    by_cases heq : other = node
    · exact heq ▸ hnode
    · exact hothers other heq

/-- The message that a `publish` event creates, and the counter afterwards. -/
def createMessage (process : Process ι) (id createdAt : String) (type : MessageType)
    (payload : Payload) (options : MessageFactory.Options)
    (routingPath : Option (List String)) : P2PMessage × ℕ :=
  let (message, logicalClock) := MessageFactory.createBaseMessage platform process.logicalClock id
    createdAt type process.engine.localPeerId payload options
  (SecurityManager.signOutgoingMessage platform process.secretKey { message with routingPath },
    logicalClock)

/-- A process handles a copy, and what it broadcasts is in flight. -/
def receive (world : World ι) (node : ι) (copy : Copy ι) (fromPeerId : Option String)
    (moment : Moment) : World ι :=
  let (process, packets) :=
    (world.process node).receive platform (link node) node copy fromPeerId moment
  { world.setProcess node process with sent := world.sent ++ packets }

/-- The loop of `receiveSyncBatch` at a process. -/
def receiveAll (node : ι) (fromPeerId : String) : World ι → List (Copy ι × Moment) → World ι
  | world, [] => world
  | world, (copy, moment) :: rest =>
    if copy.message.id ∈ (world.process node).engine.seenMessages then
      receiveAll node fromPeerId world rest
    else
      receiveAll node fromPeerId
        (world.receive platform link node copy (truthy (some fromPeerId)) moment) rest

/-- The factory of a process takes a stamp for a message that is not gossiped. -/
def control (world : World ι) (node : ι) : World ι :=
  world.setProcess node (world.process node).createControl

/-- A process stamps a message of its own. -/
def stamp (world : World ι) (node : ι) (message : P2PMessage) (logicalClock : ℕ) : World ι :=
  { world.setProcess node ((world.process node).stamp message logicalClock) with
    published := world.published ++ [message] }

def next (world : World ι) : Event ι → World ι
  | .publish node id createdAt type payload options routingPath moment =>
    let (message, logicalClock) :=
      createMessage platform (world.process node) id createdAt type payload options routingPath
    (world.stamp node message logicalClock).receive platform link node ⟨message, []⟩ none moment
  | .deliver node copy fromPeerId moment =>
    world.receive platform link node copy fromPeerId moment
  | .sendSyncBatch node peerId copies =>
    { world.control node with
      sent := world.sent ++ (((world.process node).pool.send peerId).map fun connection ↦
        .syncBatch (link node connection) copies).toList }
  | .deliverSyncBatch node deliveries fromPeerId =>
    -- The acknowledgement takes a stamp as well.
    (world.receiveAll platform link node fromPeerId deliveries).control node
  | .createControl node => world.control node
  | .reconfigure node pool topicRouter rateLimiter securityManager =>
    world.setProcess node
      ((world.process node).reconfigure pool topicRouter rateLimiter securityManager)

theorem process_receive (world : World ι) (node : ι) (copy : Copy ι)
    (fromPeerId : Option String) (moment : Moment) :
    (world.receive platform link node copy fromPeerId moment).process =
      (world.setProcess node ((world.process node).receive platform (link node) node copy
        fromPeerId moment).1).process := rfl

/-- The engine goes through a batch as `receiveSyncBatch` does. -/
theorem engine_receiveAll (world : World ι) (node : ι) (fromPeerId : String)
    (deliveries : List (Copy ι × Moment)) :
    ((world.receiveAll platform link node fromPeerId deliveries).process node).engine =
      (SyncReceiver.receiveMessages platform (world.process node).pool fromPeerId
        (world.process node).engine
        (deliveries.map fun delivery ↦ (delivery.1.message, delivery.2))).1 := by
  induction deliveries generalizing world with
  | nil => rfl
  | cons delivery rest ih =>
    rw [receiveAll, List.map_cons, SyncReceiver.receiveMessages]
    split
    · exact ih world
    · have hrest := ih (world.receive platform link node delivery.1 (truthy (some fromPeerId))
        delivery.2)
      rw [process_receive, process_setProcess_self] at hrest
      exact hrest

/-- Identifiers are never reused, what arrives was sent to the process, and a batch consists of
messages that its sender has stored. -/
def Enabled (world : World ι) : Event ι → Prop
  | .publish _ id _ _ _ _ _ _ => ∀ message ∈ world.published, message.id ≠ id
  | .deliver node copy _ _ => .gossip node copy ∈ world.sent
  | .sendSyncBatch node _ copies => ∀ copy ∈ copies, copy ∈ (world.process node).announcedLog
  | .deliverSyncBatch node deliveries _ =>
    .syncBatch node (deliveries.map Prod.fst) ∈ world.sent
  | .createControl _ => True
  | .reconfigure _ _ _ _ _ => True

instance (world : World ι) : DecidablePred world.Enabled
  | .publish _ id _ _ _ _ _ _ =>
    inferInstanceAs (Decidable (∀ message ∈ world.published, message.id ≠ id))
  | .deliver node copy _ _ => inferInstanceAs (Decidable (Packet.gossip node copy ∈ world.sent))
  | .sendSyncBatch node _ copies =>
    inferInstanceAs (Decidable (∀ copy ∈ copies, copy ∈ (world.process node).announcedLog))
  | .deliverSyncBatch node deliveries _ =>
    inferInstanceAs (Decidable (Packet.syncBatch node (deliveries.map Prod.fst) ∈ world.sent))
  | .createControl _ | .reconfigure _ _ _ _ _ => inferInstanceAs (Decidable True)

/-- Clocks at zero, nothing seen, nothing sent. -/
structure Initial (world : World ι) : Prop where
  logicalClock : ∀ node, (world.process node).logicalClock = 0
  lamportClock : ∀ node, (world.process node).engine.lamportClock = .new
  seenMessages : ∀ node, (world.process node).engine.seenMessages = ∅
  announcedLog : ∀ node, (world.process node).announcedLog = []
  broadcastLog : ∀ node, (world.process node).broadcastLog = []
  history : ∀ node, (world.process node).history = []
  sent : world.sent = []
  published : world.published = []

/-- The network as a transition system. -/
def system : TransitionSystem (World ι) (Event ι) := .ofNext Enabled (next platform link)

/-! ## Two connected processes -/

/-- A process of the given name whose only connection is the inbound one of its neighbour. -/
def processNamed (name neighbour : String) : Process (Fin 2) where
  engine := .new name (some (SecurityManager.init name ("key of " ++ name)))
    Config.RATE_LIMIT_CAPACITY Config.RATE_LIMIT_REFILL_RATE
  pool := (ConnectionPool.new name).addInboundConnection ⟨0, neighbour⟩
  logicalClock := 0
  secretKey := "key of " ++ name
  announcedLog := []
  broadcastLog := []
  history := []

def names : Fin 2 → String
  | 0 => "alice"
  | 1 => "bob"

def twoProcesses : World (Fin 2) where
  process node := processNamed (names node) (names (1 - node))
  sent := []
  published := []

/-- Each connection of a process leads to the other one. -/
def toTheOther : Fin 2 → Connection → Fin 2 := fun node _ ↦ 1 - node

theorem initial_twoProcesses : twoProcesses.Initial where
  logicalClock _ := rfl
  lamportClock _ := rfl
  seenMessages _ := rfl
  announcedLog _ := rfl
  broadcastLog _ := rfl
  history _ := rfl
  sent := rfl
  published := rfl

/-- A chat message published with the public key attached. -/
def publishChat (node : Fin 2) (id : String) : Event (Fin 2) :=
  .publish node id "2024-01-01T00:00:00.000Z" .chat (.text "hello")
    { topic := some "global", senderPublicKey := some ("key of " ++ names node) } none
    ⟨1000, fun _ ↦ 0⟩

/-- The message that the first process publishes under the id `one`. -/
def question : P2PMessage :=
  (createMessage Pow.javaScript (processNamed "alice" "bob") "one" "2024-01-01T00:00:00.000Z"
    .chat (.text "hello") { topic := some "global", senderPublicKey := some "key of alice" }
    none).1

/-- The copy of the question that its author sends out. -/
def questionCopy : Copy (Fin 2) where
  message := { question with ttl := 9 }
  chain := [0]

def askAndReceive : List (Event (Fin 2)) :=
  [publishChat 0 "one", .deliver 1 questionCopy (some "alice") ⟨2000, fun _ ↦ 0⟩]

theorem run_askAndReceive : (system Pow.javaScript toTheOther).Run
    twoProcesses askAndReceive
    (askAndReceive.foldl (next Pow.javaScript toTheOther) twoProcesses) := by
  apply TransitionSystem.run_ofNext
  refine ⟨(fun message hmem ↦ nomatch hmem), ?_, trivial⟩
  change Packet.gossip 1 questionCopy ∈ _
  decide +kernel

end World

end P2PApp.Network
