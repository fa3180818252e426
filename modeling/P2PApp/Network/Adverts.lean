import Mathlib.Logic.Function.Basic
import P2PApp.Library.TransitionSystem
import P2PApp.Protocol.Pow
import P2PApp.Protocol.Relay

/-!
# A network that advertises subscriptions

Nodes under their ids, each with its engine, its connection pool and the sequence numbers of its own
subscriptions. The ids in the pools are those of the nodes at the other end. What is handed to a
connection is in flight until it arrives or is lost; connections come and go, handshakes share
subscriptions, routes expire. All other traffic may change the engine, except for its routes.

Beside the state of the program, a node keeps the routes that advertisements have installed, and a
copy in flight the hops it has taken. The program never reads these records.
-/

namespace P2PApp

/-- The id of the node at the other end. -/
def Connection.remotePeerId : Connection → String
  | .outbound client => client.remotePeerId
  | .inbound client => client.remotePeerId

namespace ConnectionPool

/-- Connections are filed under the ids of the nodes at the other end, which are not empty. -/
structure Honest (pool : ConnectionPool) : Prop where
  outbound : ∀ entry ∈ pool.outboundConnections.entries,
    entry.2.remotePeerId = entry.1 ∧ entry.1 ≠ ""
  inbound : ∀ entry ∈ pool.inboundConnections.entries,
    entry.2.remotePeerId = entry.1 ∧ entry.1 ≠ ""

theorem honest_new (localPeerId : String) : (new localPeerId : ConnectionPool).Honest where
  outbound _ h := nomatch h
  inbound _ h := nomatch h

variable {pool : ConnectionPool}

theorem Honest.connect (h : pool.Honest) (clientId : ℕ) (url : String) {peerId : String}
    (hname : peerId ≠ "") : (pool.connect clientId url peerId).Honest := by
  unfold ConnectionPool.connect
  split
  · exact h
  · split
    · exact h
    · refine ⟨fun entry hentry ↦ ?_, h.inbound⟩
      rcases OrderedMap.mem_entries_set.1 hentry with rfl | ⟨hold, _⟩
      · exact ⟨rfl, hname⟩
      · exact h.outbound entry hold

theorem Honest.addInboundConnection (h : pool.Honest) {client : InboundClient}
    (hname : client.remotePeerId ≠ "") : (pool.addInboundConnection client).Honest := by
  refine ⟨h.outbound, fun entry hentry ↦ ?_⟩
  rcases OrderedMap.mem_entries_set.1 hentry with rfl | ⟨hold, _⟩
  · exact ⟨rfl, hname⟩
  · exact h.inbound entry hold

theorem Honest.removeOutbound (h : pool.Honest) (peerId : String) :
    (pool.removeOutbound peerId).Honest where
  outbound entry hentry := h.outbound entry (OrderedMap.mem_entries_filter.1 hentry).1
  inbound := h.inbound

theorem Honest.removeInbound (h : pool.Honest) (peerId : String) :
    (pool.removeInbound peerId).Honest where
  outbound := h.outbound
  inbound entry hentry := h.inbound entry (OrderedMap.mem_entries_filter.1 hentry).1

theorem Honest.foldl (h : pool.Honest) {step : ConnectionPool → String → ConnectionPool}
    (hstep : ∀ pool peerId, pool.Honest → peerId ≠ "" → (step pool peerId).Honest)
    {peerIds : List String} (hnames : ∀ peerId ∈ peerIds, peerId ≠ "") :
    (peerIds.foldl step pool).Honest := by
  induction peerIds generalizing pool with
  | nil => exact h
  | cons peerId peerIds ih =>
    obtain ⟨hname, hrest⟩ := List.forall_mem_cons.1 hnames
    exact ih (hstep pool peerId h hname) hrest

/-- A broadcast goes to neighbours that are not excluded. -/
theorem Honest.of_mem_broadcast (h : pool.Honest) {excludePeerIds : List String}
    {connection : Connection} (hmem : connection ∈ pool.broadcast excludePeerIds) :
    connection.remotePeerId ∈ pool.getAllPeerIds ∧
      connection.remotePeerId ∉ excludePeerIds ∧ connection.remotePeerId ≠ "" := by
  rw [mem_getAllPeerIds]
  rcases List.mem_append.1 hmem with hmem | hmem
  · obtain ⟨entry, hfiltered, rfl⟩ := List.mem_map.1 hmem
    obtain ⟨hentry, hnot⟩ := List.mem_filter.1 hfiltered
    obtain ⟨hid, hname⟩ := h.outbound entry hentry
    have hremote : (Connection.outbound entry.2).remotePeerId = entry.1 := hid
    rw [hremote]
    exact ⟨.inl (OrderedMap.mem_keys_of_mem_entries hentry), by simpa using hnot, hname⟩
  · obtain ⟨entry, hfiltered, rfl⟩ := List.mem_map.1 hmem
    obtain ⟨hentry, hnot⟩ := List.mem_filter.1 hfiltered
    obtain ⟨hid, hname⟩ := h.inbound entry hentry
    have hremote : (Connection.inbound entry.2).remotePeerId = entry.1 := hid
    rw [hremote]
    exact ⟨.inr (OrderedMap.mem_keys_of_mem_entries hentry), by simpa using hnot, hname⟩

end ConnectionPool

namespace Adverts

/-- A step from one node to another, with the ids in the pool of the first when it was taken. -/
structure Hop where
  source : String
  target : String
  peerIds : List String
  deriving DecidableEq

/-- A copy that its source has handed to a connection, and its hops, the present one last. -/
structure Flight where
  source : String
  connection : Connection
  message : P2PMessage
  hops : List Hop
  deriving DecidableEq

def Flight.target (flight : Flight) : String := flight.connection.remotePeerId

/-- A route that an advertisement has installed. -/
structure Installed where
  topic : String
  originPeerId : String
  route : Route String ℕ (List String)
  deriving DecidableEq

structure Process where
  engine : GossipEngine
  pool : ConnectionPool
  localSequences : OrderedMap String ℕ
  /-- The static counter of the message factory of this process. -/
  logicalClock : ℕ
  publicKey : String
  secretKey : String
  installs : List Installed

namespace Process

variable (platform : Platform)

/-- The copies of one `broadcast` call, each on its connection. -/
def flightsOf (source : String) (pool : ConnectionPool) (hops : List Hop) (message : P2PMessage)
    (excludePeerIds : List String) : List Flight :=
  (pool.broadcast excludePeerIds).map fun connection ↦
    { source, connection, message
      hops := hops ++ [⟨source, connection.remotePeerId, pool.getAllPeerIds⟩] }

def flights (source : String) (pool : ConnectionPool) (hops : List Hop)
    (effects : List EngineEffect) : List Flight :=
  effects.flatMap fun
    | .broadcast message excludePeerIds => flightsOf source pool hops message excludePeerIds
    | .messageNew _ => []

/-- The route that a call installs for an advertisement, as the table has it afterwards. -/
def installedBy (process : Process) (message : P2PMessage) (fromPeerId : Option String)
    (moment : Moment) : Option Installed :=
  let path := message.routingPath.getD []
  let router := (process.engine.receiveMessage platform process.pool moment.now moment.draws
    message fromPeerId).1.topicRouter
  match message.payload with
  | .subAd topic sequenceNumber .join =>
    if message.type = .subAd ∧ process.engine.localPeerId ∉ path ∧
        (process.engine.screen platform moment.now message fromPeerId).1 = .fresh ∧
        (GossipEngine.routeAdvert moment.now process.engine.topicRouter
          process.engine.localPeerId message topic sequenceNumber .join path fromPeerId).1 then
      (router.routeOf topic message.sender).map fun route ↦ ⟨topic, message.sender, route⟩
    else none
  | _ => none

/-- One call of `receiveMessage`, with the records kept. -/
def receive (process : Process) (node : String) (message : P2PMessage)
    (fromPeerId : Option String) (hops : List Hop) (moment : Moment) : Process × List Flight :=
  let (engine, effects) := process.engine.receiveMessage platform process.pool moment.now
    moment.draws message fromPeerId
  ({ process with
      engine
      installs :=
        process.installs ++ (process.installedBy platform message fromPeerId moment).toList },
    flights node process.pool hops effects)

/-- The signed message of `_advertiseSubscription`, and the process after its creation. -/
def advertisement (process : Process) (topic : String) (action : SubscriptionAction)
    (id createdAt : String) : P2PMessage × Process :=
  let sequenceNumber := (process.localSequences.get? topic).getD 0 + 1
  let (message, logicalClock) := MessageFactory.createSubAd platform process.logicalClock id
    createdAt process.engine.localPeerId topic sequenceNumber action [] (some process.publicKey)
  (SecurityManager.signOutgoingMessage platform process.secretKey message,
    { process with
      localSequences := process.localSequences.set topic sequenceNumber
      logicalClock })

def setRouter (process : Process) (topicRouter : Router) : Process :=
  { process with engine := { process.engine with topicRouter } }

/-- The subscriptions that a neighbour shares in a handshake. -/
def registerSubscriptions (process : Process) (peerId : String) (subscriptions : List String)
    (now : ℕ) : Process :=
  process.setRouter (subscriptions.foldl (fun router topic ↦
    (router.updateRoute topic peerId peerId 0 0 []
      (WithTop.some (now + Config.ROUTE_LEASE_MS))).2) process.engine.topicRouter)

def setPool (process : Process) (pool : ConnectionPool) : Process := { process with pool }

def clearRoutesForPeer (process : Process) (peerId : String) : Process :=
  process.setRouter (process.engine.topicRouter.clearRoutesForPeer peerId)

end Process

structure World where
  process : String → Process
  inFlight : List Flight

inductive Event
  /-- A node advertises that it has subscribed to a topic, or no longer is. -/
  | advertise (node topic : String) (action : SubscriptionAction) (id createdAt : String)
      (moment : Moment)
  /-- A copy arrives at the other end of its connection. -/
  | deliver (flight : Flight) (moment : Moment)
  | lose (flight : Flight)
  /-- A node dials a neighbour. -/
  | connect (node : String) (clientId : ℕ) (url peerId : String)
  /-- A node accepts a connection, and is told the subscriptions of the neighbour. -/
  | accept (node : String) (client : InboundClient) (subscriptions : List String) (now : ℕ)
  /-- A neighbour that a node has dialled answers with its subscriptions. -/
  | hello (node peerId : String) (subscriptions : List String) (now : ℕ)
  /-- An inbound connection closes. -/
  | close (node peerId : String)
  /-- An outbound connection fails, or is disconnected. -/
  | disconnect (node peerId : String)
  | gc (node : String) (now : ℕ)
  /-- Whatever else the node does. -/
  | other (node : String) (engine : GossipEngine)

namespace World

variable (platform : Platform)

def setProcess (world : World) (node : String) (process : Process) : World :=
  { world with process := Function.update world.process node process }

/-- A node handles an advertisement, and what it hands to its connections is in flight. -/
def receive (world : World) (node : String) (message : P2PMessage) (fromPeerId : Option String)
    (hops : List Hop) (moment : Moment) : World :=
  let (process, flights) :=
    (world.process node).receive platform node message fromPeerId hops moment
  { world.setProcess node process with inFlight := world.inFlight ++ flights }

def next (world : World) : Event → World
  | .advertise node topic action id createdAt moment =>
    let (message, process) :=
      (world.process node).advertisement platform topic action id createdAt
    (world.setProcess node process).receive platform node message none [] moment
  | .deliver flight moment =>
    { world with inFlight := world.inFlight.erase flight }.receive platform flight.target
      flight.message (truthy (some flight.source)) flight.hops moment
  | .lose flight => { world with inFlight := world.inFlight.erase flight }
  | .connect node clientId url peerId =>
    world.setProcess node
      ((world.process node).setPool ((world.process node).pool.connect clientId url peerId))
  | .accept node client subscriptions now =>
    world.setProcess node
      (((world.process node).setPool ((world.process node).pool.addInboundConnection
        client)).registerSubscriptions client.remotePeerId subscriptions now)
  | .hello node peerId subscriptions now =>
    world.setProcess node
      ((world.process node).registerSubscriptions peerId subscriptions now)
  | .close node peerId =>
    world.setProcess node
      (((world.process node).setPool
        ((world.process node).pool.removeInbound peerId)).clearRoutesForPeer peerId)
  | .disconnect node peerId =>
    world.setProcess node
      (((world.process node).setPool
        ((world.process node).pool.removeOutbound peerId)).clearRoutesForPeer peerId)
  | .gc node now =>
    world.setProcess node
      ((world.process node).setRouter ((world.process node).engine.topicRouter.gc now))
  | .other node engine => world.setProcess node { world.process node with engine }

/-- Nodes have ids, what arrives is in flight, and the other end of a connection is a node. -/
def Enabled (world : World) : Event → Prop
  | .advertise node _ _ _ _ _ => node ≠ ""
  | .deliver flight _ => flight ∈ world.inFlight
  | .lose flight => flight ∈ world.inFlight
  | .connect _ _ _ peerId => peerId ≠ ""
  | .accept _ client _ _ => client.remotePeerId ≠ ""
  | .hello _ _ _ _ => True
  | .close _ _ => True
  | .disconnect _ _ => True
  | .gc _ _ => True
  | .other node engine =>
    engine.topicRouter = (world.process node).engine.topicRouter ∧
      engine.localPeerId = (world.process node).engine.localPeerId

/-- Copies on one connection arrive in the order in which they were sent. -/
def Fifo (world : World) : Event → Prop
  | .deliver flight _ =>
    (world.inFlight.find? fun other ↦
      other.source = flight.source ∧ other.connection = flight.connection) = some flight
  | _ => True

/-- Every node runs under its own id with an honest pool, and there are no routes and no
advertisements. -/
structure Initial (world : World) : Prop where
  localPeerId : ∀ node, (world.process node).engine.localPeerId = node
  topicRouter : ∀ node, (world.process node).engine.topicRouter = .new
  pool : ∀ node, (world.process node).pool.Honest
  installs : ∀ node, (world.process node).installs = []
  inFlight : world.inFlight = []

def system : TransitionSystem World Event := .ofNext Enabled (next platform)

end World

/-! ## An example -/

/-- A node that has dialled some neighbours and accepted others. -/
def processNamed (name : String) (dialled accepted : List String) : Process where
  engine := .new name (some (SecurityManager.init name ("key of " ++ name)))
    Config.RATE_LIMIT_CAPACITY Config.RATE_LIMIT_REFILL_RATE
  pool := accepted.foldl (fun pool peerId ↦ pool.addInboundConnection ⟨0, peerId⟩)
    (dialled.foldl (fun pool peerId ↦ pool.connect 0 peerId peerId) (.new name))
  localSequences := ∅
  logicalClock := 0
  publicKey := "key of " ++ name
  secretKey := "key of " ++ name
  installs := []

/-- Two ways from the origin to `y`, one of them too long to go on from there, and a circle from the
origin through `y`, `b` and `a`. -/
def neighbours : String → List String × List String
  | "o" => (["c1", "y", "a"], [])
  | "c1" => (["c2"], ["o"])
  | "c2" => (["c3"], ["c1"])
  | "c3" => (["c4"], ["c2"])
  | "c4" => (["c5"], ["c3"])
  | "c5" => (["c6"], ["c4"])
  | "c6" => (["c7"], ["c5"])
  | "c7" => (["c8"], ["c6"])
  | "c8" => (["y"], ["c7"])
  | "y" => (["b"], ["c8", "o"])
  | "b" => (["a"], ["y"])
  | "a" => ([], ["b", "o"])
  | _ => ([], [])

def circle : World where
  process node := processNamed node (neighbours node).1 (neighbours node).2
  inFlight := []

/-- What happens in the example: the origin joins, the oldest copy between two nodes arrives, or a
connection closes. -/
inductive Scene
  | join (id : String)
  | pass (source target : String)
  | close (node peerId : String)

def moment : Moment := ⟨1000, fun _ ↦ 0⟩

/-- The event of a scene; a scene in which there is nothing to deliver is left out. -/
def Scene.event (world : World) : Scene → Option Event
  | .join id => some (.advertise "o" "news" .join id "2024-01-01T00:00:00.000Z" moment)
  | .pass source target =>
    (world.inFlight.find? fun flight ↦ flight.source = source ∧ flight.target = target).map
      fun flight ↦ .deliver flight moment
  | .close node peerId => some (.close node peerId)

def play (world : World) (scene : Scene) : World :=
  match scene.event world with
  | some event => world.next Pow.javaScript event
  | none => world

/-- The oldest copy between two nodes is the oldest one on its connection. -/
theorem find?_connection {flights : List Flight} {source target : String} {flight : Flight}
    (h : (flights.find? fun other ↦ other.source = source ∧ other.target = target) = some flight) :
    (flights.find? fun other ↦
      other.source = flight.source ∧ other.connection = flight.connection) = some flight := by
  rw [List.find?_eq_some_iff_append] at h ⊢
  obtain ⟨hends, before, after, heq, hfirst⟩ := h
  simp only [decide_eq_true_eq] at hends
  refine ⟨by simp, before, after, heq, fun other hmem ↦ ?_⟩
  have hother := hfirst other hmem
  simp only [Bool.not_eq_true', decide_eq_false_iff_not] at hother ⊢
  rintro ⟨hsource, hconnection⟩
  have htarget : other.target = flight.target := congrArg Connection.remotePeerId hconnection
  exact hother ⟨hsource.trans hends.1, htarget.trans hends.2⟩

/-- Each scene is an event that can happen, and keeps the order on its connection. -/
theorem fifo_of_event {world : World} {scene : Scene} {event : Event}
    (h : scene.event world = some event) : world.Enabled event ∧ world.Fifo event := by
  cases scene with
  | join id =>
    cases h
    exact ⟨(by decide : "o" ≠ ""), trivial⟩
  | pass source target =>
    obtain ⟨flight, hfound, rfl⟩ := Option.map_eq_some_iff.1 h
    exact ⟨List.mem_of_find?_eq_some hfound, find?_connection hfound⟩
  | close node peerId =>
    cases h
    exact ⟨trivial, trivial⟩

/-- The event of each scene meets the guard. -/
def Meets (guard : World → Event → Prop) : World → List Scene → Prop
  | _, [] => True
  | world, scene :: scenes =>
    (∀ event, scene.event world = some event → guard world event) ∧
      Meets guard (play world scene) scenes

theorem exists_run_of_meets {guard : World → Event → Prop} {world : World} {scenes : List Scene}
    (h : Meets guard world scenes) :
    ∃ events, (World.system Pow.javaScript).GuardedRun guard world events
      (scenes.foldl play world) := by
  induction scenes generalizing world with
  | nil => exact ⟨[], .nil world⟩
  | cons scene scenes ih =>
    obtain ⟨events, hrun⟩ := ih h.2
    rw [List.foldl_cons]
    cases hevent : scene.event world with
    | none =>
      have hplay : play world scene = world := by rw [play, hevent]
      rw [hplay] at hrun ⊢
      exact ⟨events, hrun⟩
    | some event =>
      have hplay : play world scene = world.next Pow.javaScript event := by rw [play, hevent]
      have hstep : (World.system Pow.javaScript).step world event (play world scene) :=
        ⟨(fifo_of_event hevent).1, hplay⟩
      exact ⟨event :: events, .cons (h.1 event hevent) hstep hrun⟩

theorem meets_fifo (world : World) (scenes : List Scene) : Meets World.Fifo world scenes := by
  induction scenes generalizing world with
  | nil => trivial
  | cons scene scenes ih => exact ⟨fun _ hevent ↦ (fifo_of_event hevent).2, ih _⟩

theorem neighbours_ne (name : String) :
    (∀ peerId ∈ (neighbours name).1, peerId ≠ "") ∧
      ∀ peerId ∈ (neighbours name).2, peerId ≠ "" := by
  unfold neighbours
  split <;> decide

theorem initial_circle : circle.Initial where
  localPeerId _ := rfl
  topicRouter _ := rfl
  pool node := by
    obtain ⟨hdialled, haccepted⟩ := neighbours_ne node
    have hpool := (ConnectionPool.honest_new node).foldl
      (fun _ peerId hpool hname ↦ hpool.connect 0 peerId hname) hdialled
    exact hpool.foldl (fun _ _ hpool hname ↦ hpool.addInboundConnection hname) haccepted
  installs _ := rfl
  inFlight := rfl

/-- The first JOIN takes the long way to `y`, the second one the short way and on to `b` and `a`.
Then `b` loses its connection to `y`, and gets the first JOIN from `a`. -/
def overtaken : List Scene :=
  [.join "m945", .pass "o" "c1", .pass "c1" "c2", .pass "c2" "c3", .pass "c3" "c4",
    .pass "c4" "c5", .pass "c5" "c6", .pass "c6" "c7", .pass "c7" "c8", .pass "c8" "y",
    .pass "o" "a", .join "m1887", .pass "o" "y", .pass "o" "y", .pass "y" "b", .pass "b" "a",
    .close "b" "y", .pass "a" "b"]

end Adverts

end P2PApp
