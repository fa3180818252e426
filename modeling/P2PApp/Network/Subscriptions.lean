import P2PApp.Library.LeaseMirror
import P2PApp.Network.Adverts
import P2PApp.Transport.Fanout
import P2PApp.Protocol.Insertion
import P2PApp.Protocol.RefreshBursts
import P2PApp.Protocol.SoftState

/-!
# The subscriptions of a node, as a neighbour knows them

A node advertises its subscriptions when they change and all of them every 15 seconds; a neighbour
keeps a route for each until it is told of the end, or has heard nothing for 30 seconds. Copies
travel over one connection in order. Whatever else the two nodes do is left open, as long as nobody
tampers with the routes towards this node or with its key, and nobody brings the neighbour one of
the copies first.

Seen from afar this is a set that is mirrored by leases, and what is true of those holds here.
-/

namespace P2PApp

namespace ConnectionPool

variable {pool : ConnectionPool}

theorem Honest.remotePeerId_of_mem (h : pool.Honest) {connection : Connection} {peerId : String}
    (hmem : connection ∈ pool.connectionsOf peerId) : connection.remotePeerId = peerId := by
  rcases List.mem_append.1 hmem with hmem | hmem
  · obtain ⟨client, hclient, rfl⟩ := List.mem_map.1 hmem
    exact (h.outbound _ (OrderedMap.get?_eq_some_iff.1 (Option.mem_toList.1 hclient))).1
  · obtain ⟨client, hclient, rfl⟩ := List.mem_map.1 hmem
    exact (h.inbound _ (OrderedMap.get?_eq_some_iff.1 (Option.mem_toList.1 hclient))).1

theorem Honest.mem_broadcast_iff (h : pool.Honest) {connection : Connection} {peerId : String}
    (hmem : connection ∈ pool.connectionsOf peerId) {excludePeerIds : List String} :
    connection ∈ pool.broadcast excludePeerIds ↔ peerId ∉ excludePeerIds := by
  rw [mem_broadcast]
  constructor
  · rintro ⟨other, hnot, hother⟩
    rwa [← h.remotePeerId_of_mem hmem, h.remotePeerId_of_mem hother]
  · exact fun hnot ↦ ⟨peerId, hnot, hmem⟩

/-- No connection gets two copies of a broadcast. -/
theorem Honest.nodup_broadcast (h : pool.Honest) (excludePeerIds : List String) :
    (pool.broadcast excludePeerIds).Nodup := by
  have hnodup {ν : Type} (m : OrderedMap String ν) (f : ν → Connection)
      (hname : ∀ entry ∈ m.entries, (f entry.2).remotePeerId = entry.1) :
      ((m.entries.filter fun entry ↦ entry.1 ∉ excludePeerIds).map
        fun entry ↦ f entry.2).Nodup := by
    refine List.Nodup.of_map Connection.remotePeerId ?_
    have hkeys : ((m.entries.filter fun entry ↦ entry.1 ∉ excludePeerIds).map
        fun entry ↦ f entry.2).map Connection.remotePeerId =
        (m.entries.filter fun entry ↦ entry.1 ∉ excludePeerIds).map Prod.fst := by
      rw [List.map_map]
      exact List.map_congr_left fun entry hentry ↦ hname entry (List.mem_filter.1 hentry).1
    rw [hkeys]
    exact m.nodup_keys.sublist (List.filter_sublist.map _)
  rw [broadcast, List.nodup_append]
  refine ⟨hnodup _ .outbound fun entry hentry ↦ (h.outbound entry hentry).1,
    hnodup _ .inbound fun entry hentry ↦ (h.inbound entry hentry).1, ?_⟩
  rintro _ hleft _ hright rfl
  obtain ⟨_, -, rfl⟩ := List.mem_map.1 hleft
  obtain ⟨_, -, heq⟩ := List.mem_map.1 hright
  cases heq

theorem Honest.filter_broadcast (h : pool.Honest) {connection : Connection} {peerId : String}
    (hmem : connection ∈ pool.connectionsOf peerId) {excludePeerIds : List String}
    (hnot : peerId ∉ excludePeerIds) :
    (pool.broadcast excludePeerIds).filter (fun other ↦ other = connection) = [connection] := by
  rw [List.filter_eq, List.count_eq_one_of_mem (h.nodup_broadcast _)
    ((h.mem_broadcast_iff hmem).2 hnot)]
  rfl

end ConnectionPool

namespace GossipEngine

variable {platform : Platform} {pool : ConnectionPool} {now : ℕ} {draws : ℕ → ℕ}
  {engine : GossipEngine} {message : P2PMessage} {fromPeerId : Option String} {topic : String}
  {sequenceNumber : ℕ} {action : SubscriptionAction}

/-- The copy that is passed on. -/
def relayed (localPeerId : String) (message : P2PMessage) : P2PMessage :=
  { message with
    ttl := message.ttl - 1
    routingPath := some (message.routingPath.getD [] ++ [localPeerId]) }

theorem Admits.topicRouter
    (h : Admits platform now engine message fromPeerId topic sequenceNumber action) :
    (engine.receiveMessage platform pool now draws message fromPeerId).1.topicRouter =
      (routeAdvert now engine.topicRouter engine.localPeerId message topic sequenceNumber action
        (message.routingPath.getD []) fromPeerId).2 :=
  topicRouter_receiveMessage pool now draws engine message fromPeerId platform h.accepts h.type
    h.payload h.loopFree

/-- What an admitted advertisement makes the engine do, if there is a peer that it has not come
from. -/
theorem Admits.effects
    (h : Admits platform now engine message fromPeerId topic sequenceNumber action)
    {peerId : String} (hmem : peerId ∈ pool.getAllPeerIds)
    (hpeer : peerId ∉ message.routingPath.getD [] ++ [engine.localPeerId] ++ fromPeerId.toList ++
      [message.sender]) :
    ∃ excluded, peerId ∉ excluded ∧
      (engine.receiveMessage platform pool now draws message fromPeerId).2 =
        if (routeAdvert now engine.topicRouter engine.localPeerId message topic sequenceNumber
            action (message.routingPath.getD []) fromPeerId).1 = true ∧ 1 < message.ttl then
          [.broadcast (relayed engine.localPeerId message) excluded,
            .messageNew (relayed engine.localPeerId message)]
        else [.messageNew message] := by
  have hcore := engine.clocked_sameCore platform now message fromPeerId
  generalize hselected : pool.getAllPeerIds.filter (fun other ↦
    other ∉ message.routingPath.getD [] ++ [engine.localPeerId] ++ fromPeerId.toList ++
      [message.sender]) = selected
  have hpeerSelected : peerId ∈ selected := by
    rw [← hselected]
    exact List.mem_filter.2 ⟨hmem, by simpa using hpeer⟩
  refine ⟨pool.getAllPeerIds.filter fun other ↦ other ∉ selected, by simp [hpeerSelected], ?_⟩
  rw [receiveMessage, engine.screen_of_accepts platform now message fromPeerId h.accepts]
  dsimp only
  rw [if_pos h.type, processSubAd, h.payload]
  dsimp only
  rw [hcore.localPeerId, hcore.topicRouter, if_neg h.loopFree]
  split
  · unfold relayAdvert
    dsimp only
    rw [hselected, if_pos (List.length_pos_of_mem hpeerSelected)]
    rfl
  · rfl

/-- What an admitted advertisement hands to one connection of an honest pool. -/
theorem Admits.flights
    (h : Admits platform now engine message fromPeerId topic sequenceNumber action)
    (hpool : pool.Honest) {connection : Connection} {peerId : String}
    (hconnection : connection ∈ pool.connectionsOf peerId)
    (hpeer : peerId ∉ message.routingPath.getD [] ++ [engine.localPeerId] ++ fromPeerId.toList ++
      [message.sender]) (source : String) (hops : List Adverts.Hop) :
    ((Adverts.Process.flights source pool hops
        (engine.receiveMessage platform pool now draws message fromPeerId).2).filter
          fun flight ↦ flight.connection = connection).map Adverts.Flight.message =
      if (routeAdvert now engine.topicRouter engine.localPeerId message topic sequenceNumber action
          (message.routingPath.getD []) fromPeerId).1 = true ∧ 1 < message.ttl then
        [relayed engine.localPeerId message]
      else [] := by
  have hmem : peerId ∈ pool.getAllPeerIds :=
    ConnectionPool.exists_connection.1 ⟨connection, hconnection⟩
  obtain ⟨excluded, hnot, heffects⟩ := @Admits.effects _ pool _ draws _ _ _ _ _ _ h _ hmem hpeer
  have hone := hpool.filter_broadcast hconnection hnot
  rw [heffects]
  split
  · simp only [Adverts.Process.flights, List.flatMap_cons, List.flatMap_nil, List.append_nil,
      Adverts.Process.flightsOf, List.filter_map, List.map_map]
    change List.map _ (List.filter (fun other ↦ other = connection) _) = _
    rw [hone]
    rfl
  · rfl

end GossipEngine

namespace Subscriptions

open Adverts (Process Flight)

/-- What one `_advertiseSubscription` takes from outside: an id, the time and random numbers. -/
structure Stamp where
  id : String
  createdAt : String
  draws : ℕ → ℕ

/-- A copy under way, with the time at which it was handed to the connection. -/
abbrev Copy := P2PMessage × ℕ

/-- A node and a neighbour with the connection between them. The copies that have arrived are kept
as a record. -/
structure Link where
  now : ℕ
  refreshedAt : ℕ
  process : Process
  localSubscriptions : OrderedMap String Unit
  connection : Connection
  inFlight : List Copy
  heard : List Copy
  neighbour : GossipEngine
  /-- Where the neighbour passes advertisements on. -/
  neighbourPool : ConnectionPool

inductive Event
  | subscribe (topic : String) (stamp : Stamp)
  | unsubscribe (topic : String) (stamp : Stamp)
  | refreshSubscriptions (stamps : String → Stamp)
  /-- The oldest copy arrives. -/
  | deliver (draws : ℕ → ℕ)
  /-- The garbage collection of the node. -/
  | gc
  /-- The garbage collection of the neighbour. -/
  | gcNeighbour
  | elapse (duration : ℕ)
  /-- Whatever else the node does. -/
  | other (engine : GossipEngine) (logicalClock : ℕ)
  /-- Whatever else the neighbour does. -/
  | otherNeighbour (engine : GossipEngine)

namespace Link

variable (platform : Platform) (link : Link)

def localPeerId : String := link.process.engine.localPeerId

def _advertiseSubscription (topic : String) (action : SubscriptionAction) (stamp : Stamp) : Link :=
  let (message, process) :=
    link.process.advertisement platform topic action stamp.id stamp.createdAt
  let (process, flights) :=
    process.receive platform link.localPeerId message none [] ⟨link.now, stamp.draws⟩
  { link with
    process
    inFlight := link.inFlight ++
      (flights.filter fun flight ↦ flight.connection = link.connection).map
        fun flight ↦ (flight.message, link.now) }

def subscribe (topic : String) (stamp : Stamp) : Link :=
  if link.localSubscriptions.has topic then link
  else
    { link with
      localSubscriptions := link.localSubscriptions.set topic () }._advertiseSubscription platform
        topic .join stamp

def unsubscribe (topic : String) (stamp : Stamp) : Link :=
  if link.localSubscriptions.has topic = false then link
  else
    { link with
      localSubscriptions := link.localSubscriptions.erase topic }._advertiseSubscription platform
        topic .leave stamp

def _refreshSubscriptions (stamps : String → Stamp) : Link :=
  link.localSubscriptions.keys.foldl
    (fun link topic ↦ link._advertiseSubscription platform topic .join (stamps topic)) link

def receive (copy : Copy) (draws : ℕ → ℕ) : Link :=
  { link with
    heard := link.heard ++ [copy]
    neighbour := (link.neighbour.receiveMessage platform link.neighbourPool link.now draws copy.1
      (truthy (some link.localPeerId))).1 }

def setEngine (engine : GossipEngine) : Link :=
  { link with process := { link.process with engine } }

def next (link : Link) : Event → Link
  | .subscribe topic stamp => link.subscribe platform topic stamp
  | .unsubscribe topic stamp => link.unsubscribe platform topic stamp
  | .refreshSubscriptions stamps =>
    { link._refreshSubscriptions platform stamps with refreshedAt := link.now }
  | .deliver draws =>
    match link.inFlight with
    | [] => link
    | copy :: inFlight => { link with inFlight }.receive platform copy draws
  | .gc =>
    link.setEngine { link.process.engine with
      topicRouter := link.process.engine.topicRouter.gc link.now }
  | .gcNeighbour =>
    { link with neighbour := { link.neighbour with
        topicRouter := link.neighbour.topicRouter.gc link.now } }
  | .elapse duration => { link with now := link.now + duration }
  | .other engine logicalClock =>
    { link with process := { link.process with engine, logicalClock } }
  | .otherNeighbour engine => { link with neighbour := engine }

/-- The route of an engine towards the node, for a topic. -/
def routeIn (engine : GossipEngine) (topic : String) : Option (Route String ℕ (List String)) :=
  engine.topicRouter.routeOf topic link.localPeerId

/-- An engine that has no key for the node, or its key. -/
def KnowsKey (engine : GossipEngine) : Prop :=
  ∀ publicKey, engine.boundKey link.localPeerId = some (some publicKey) →
    publicKey = link.process.publicKey

/-- An id with a solved puzzle that nobody has seen. -/
def Unused (id : String) : Prop :=
  platform.verifyPuzzle id Config.POW_DIFFICULTY
      (platform.solvePuzzle id Config.POW_DIFFICULTY) = true ∧
    id ∉ link.process.engine.seenMessages ∧ id ∉ link.neighbour.seenMessages ∧
    ∀ copy ∈ link.inFlight, copy.1.id ≠ id

/-- Ids are unused, the refresh timer fires in time, copies are under way for at most `delay`, and
other traffic does not concern the routes and the key of the node, nor the copies under way. -/
def Enabled (delay : ℕ) : Event → Prop
  | .subscribe _ stamp => link.Unused platform stamp.id
  | .unsubscribe _ stamp => link.Unused platform stamp.id
  | .refreshSubscriptions stamps =>
    (∀ topic ∈ link.localSubscriptions.keys, link.Unused platform (stamps topic).id) ∧
      (link.localSubscriptions.keys.map fun topic ↦ (stamps topic).id).Nodup
  | .elapse duration =>
    link.now + duration ≤ link.refreshedAt + REFRESH_INTERVAL_MS ∧
      ∀ copy ∈ link.inFlight, link.now + duration ≤ copy.2 + delay
  | .other engine _ =>
    engine.localPeerId = link.localPeerId ∧ link.KnowsKey engine ∧
      ∀ topic, link.routeIn engine topic = link.routeIn link.process.engine topic
  | .otherNeighbour engine =>
    engine.localPeerId = link.neighbour.localPeerId ∧ link.KnowsKey engine ∧
      (∀ topic, link.routeIn engine topic = link.routeIn link.neighbour topic) ∧
      ∀ copy ∈ link.inFlight, copy.1.id ∉ engine.seenMessages
  | _ => True

/-- The limiter of the neighbour lets the node through. -/
def Admitted (link : Link) : Event → Prop
  | .deliver _ => link.neighbour.Allowed link.now (some link.localPeerId)
  | _ => True

def system (delay : ℕ) : TransitionSystem Link Event :=
  .ofNext (fun link event ↦ link.Enabled platform delay event) (next platform)

/-- The neighbour has a route towards the node that has not expired. -/
def Leased (topic : String) : Prop :=
  ∃ route, link.neighbour.topicRouter.leasedRouteOf link.now topic link.localPeerId = some route ∧
    route.nextHop = link.localPeerId

/-- What a copy tells about which topic. -/
def notice (copy : Copy) : Notice String :=
  match copy.1.payload with
  | .subAd topic _ action => ⟨topic, action = .join, copy.2⟩
  | .text _ => ⟨"", false, copy.2⟩

/-- What the node relies on from the crypto library and from its connection. -/
structure Equipped (link : Link) : Prop where
  localPeerId : link.localPeerId ≠ ""
  verifies : ∀ fields, platform.verify fields (platform.sign link.process.secretKey fields)
    link.process.publicKey = true
  sign_ne : ∀ fields, platform.sign link.process.secretKey fields ≠ ""
  publicKey_ne : link.process.publicKey ≠ ""
  pool : link.process.pool.Honest
  connection : link.connection ∈
    link.process.pool.connectionsOf link.neighbour.localPeerId
  neighbour : link.neighbour.localPeerId ≠ link.localPeerId

/-- Two nodes that know nothing of each other's subscriptions. -/
structure Initial (link : Link) : Prop where
  equipped : Equipped platform link
  refreshedAt : link.refreshedAt = link.now
  inFlight : link.inFlight = []
  heard : link.heard = []
  knowsKey : link.KnowsKey link.process.engine
  neighbourKnowsKey : link.KnowsKey link.neighbour
  routes : ∀ topic, link.routeIn link.process.engine topic = none
  neighbourRoutes : ∀ topic, link.routeIn link.neighbour topic = none

/-! ## What one advertisement does -/

def sequenceOf (topic : String) : ℕ := (link.process.localSequences.get? topic).getD 0

/-- The node has signed the message, which is an advertisement as a neighbour gets it. -/
structure Announces (message : P2PMessage) (topic : String) (sequenceNumber : ℕ)
    (action : SubscriptionAction) : Prop where
  type : message.type = .subAd
  payload : message.payload = .subAd topic sequenceNumber action
  sender : message.sender = link.localPeerId
  senderPublicKey : message.senderPublicKey = some link.process.publicKey
  signature : message.signature =
    some (platform.sign link.process.secretKey message.signedFields)
  pow : platform.verifyPuzzle message.id Config.POW_DIFFICULTY message.powNonce = true
  routingPath : message.routingPath = some [link.localPeerId]

variable {platform link}

/-- Who knows no other key of the node accepts what the node has signed. -/
theorem signatureValid (h : Equipped platform link) {engine : GossipEngine}
    (hkey : link.KnowsKey engine) {message : P2PMessage}
    (hsender : message.sender = link.localPeerId)
    (hattached : message.senderPublicKey = some link.process.publicKey)
    (hsignature : message.signature =
      some (platform.sign link.process.secretKey message.signedFields)) :
    engine.SignatureValid platform message := by
  intro manager hmanager
  rw [SecurityManager.verifyIncomingMessage_fst]
  refine ⟨_, link.process.publicKey, ?_, ?_, h.verifies message.signedFields⟩
  · rw [hsignature]
    exact truthy_eq_some.2 ⟨rfl, h.sign_ne _⟩
  · rw [SecurityManager.verificationKey, hsender, hattached,
      truthy_eq_some.2 ⟨rfl, h.publicKey_ne⟩]
    cases hknown : manager.keyOf link.localPeerId with
    | none => rfl
    | some publicKey =>
      have hbound : engine.boundKey link.localPeerId = some (some publicKey) := by
        rw [GossipEngine.boundKey, hmanager, Option.map_some, hknown]
      rw [hkey publicKey hbound, Option.some_or]

theorem KnowsKey.congr {engine : GossipEngine} (h : link.KnowsKey engine) {link' : Link}
    (hpeer : link'.localPeerId = link.localPeerId)
    (hpublic : link'.process.publicKey = link.process.publicKey) : link'.KnowsKey engine := by
  unfold KnowsKey
  rw [hpeer, hpublic]
  exact h

/-- What the node has signed teaches nobody another key of it. -/
theorem KnowsKey.receive {engine : GossipEngine} (hkey : link.KnowsKey engine)
    {message : P2PMessage} (hattached : message.senderPublicKey = some link.process.publicKey)
    {pool : ConnectionPool} {now : ℕ} {draws : ℕ → ℕ} {fromPeerId : Option String}
    (haccepts : engine.Accepts platform now message fromPeerId) :
    link.KnowsKey (engine.receiveMessage platform pool now draws message fromPeerId).1 := by
  intro publicKey hbound
  have hlearned := @GossipEngine.boundKey_receive platform engine
    ⟨message, fromPeerId, pool, ⟨now, draws⟩⟩ link.localPeerId haccepts.allowed
  rw [if_pos haccepts.pow] at hlearned
  obtain ⟨before, hbefore, hafter⟩ := Option.map_eq_some_iff.1 (hlearned.symm.trans hbound)
  unfold GossipEngine.learn at hafter
  cases before with
  | some known =>
    have hsame : known = publicKey := by
      split at hafter <;> simpa using hafter
    exact hsame ▸ hkey known hbefore
  | none =>
    split at hafter
    · dsimp only at hafter
      rw [hattached, Option.none_or] at hafter
      exact (Option.some.inj (truthy_eq_some.1 hafter).1).symm
    · cases hafter

/-- The route that a node has towards itself after an advertisement. -/
def ownRoute (topic : String) : SubscriptionAction → Option (Route String ℕ (List String))
  | .join => some
    { nextHop := link.localPeerId
      hopCount := 0
      sequenceNumber := link.sequenceOf topic + 1
      path := []
      expiresAt := WithTop.some (link.now + Config.ROUTE_LEASE_MS) }
  | _ => none

/-- The connection gets a copy. Without a route towards itself the node does not say that it
leaves. -/
def Speaks (topic : String) (action : SubscriptionAction) : Prop :=
  action = .join ∨ (link.routeIn link.process.engine topic).isSome

variable (platform) in
/-- All that one `_advertiseSubscription` does. -/
structure Advertised (link link' : Link) (topic : String) (action : SubscriptionAction)
    (id : String) : Prop where
  frame : ∃ engine localSequences logicalClock installs inFlight,
    link' = { link with
      process := { link.process with engine, localSequences, logicalClock, installs }
      inFlight }
  localPeerId : link'.localPeerId = link.localPeerId
  knowsKey : link.KnowsKey link'.process.engine
  seenMessages : ∀ other, other ∈ link'.process.engine.seenMessages ↔
    other ∈ link.process.engine.seenMessages ∨ other = id
  sequenceOf : ∀ other, link'.sequenceOf other =
    if other = topic then link.sequenceOf topic + 1 else link.sequenceOf other
  routes : ∀ other, link'.routeIn link'.process.engine other =
    if other = topic then link.ownRoute topic action
    else link.routeIn link.process.engine other
  silent : ¬link.Speaks topic action → link'.inFlight = link.inFlight
  speaks : link.Speaks topic action → ∃ message,
    link.Announces platform message topic (link.sequenceOf topic + 1) action ∧ message.id = id ∧
      link'.inFlight = link.inFlight ++ [(message, link.now)]

/-- The own routes are not ahead of the own sequence numbers. -/
def Numbered (link : Link) : Prop :=
  ∀ topic route, link.routeIn link.process.engine topic = some route →
    route.sequenceNumber ≤ link.sequenceOf topic

variable (platform link) in
/-- The message that `_advertiseSubscription` creates and signs. -/
def draft (topic : String) (action : SubscriptionAction) (stamp : Stamp) : P2PMessage :=
  (link.process.advertisement platform topic action stamp.id stamp.createdAt).1

variable (platform link) in
/-- What the own engine makes of it. -/
def handled (topic : String) (action : SubscriptionAction) (stamp : Stamp) :
    GossipEngine × List EngineEffect :=
  link.process.engine.receiveMessage platform link.process.pool link.now stamp.draws
    (link.draft platform topic action stamp) none

theorem senderPublicKey_draft (h : Equipped platform link) (topic : String)
    (action : SubscriptionAction) (stamp : Stamp) :
    (link.draft platform topic action stamp).senderPublicKey = some link.process.publicKey :=
  truthy_eq_some.2 ⟨rfl, h.publicKey_ne⟩

theorem admits_draft (hequipped : Equipped platform link)
    (hkey : link.KnowsKey link.process.engine) (topic : String) (action : SubscriptionAction)
    {stamp : Stamp} (hunused : link.Unused platform stamp.id) :
    GossipEngine.Admits platform link.now link.process.engine
      (link.draft platform topic action stamp) none topic (link.sequenceOf topic + 1) action where
  type := rfl
  payload := rfl
  accepts :=
    { pow := hunused.1
      allowed := fun _ hfrom ↦ nomatch hfrom
      signature := signatureValid hequipped hkey rfl
        (senderPublicKey_draft hequipped topic action stamp) rfl
      unseen := hunused.2.1 }
  loopFree := List.not_mem_nil

theorem announces_relayed (h : Equipped platform link) (topic : String)
    (action : SubscriptionAction) {stamp : Stamp} (hunused : link.Unused platform stamp.id) :
    link.Announces platform
      (GossipEngine.relayed link.localPeerId (link.draft platform topic action stamp)) topic
      (link.sequenceOf topic + 1) action where
  type := rfl
  payload := rfl
  sender := rfl
  senderPublicKey := senderPublicKey_draft h topic action stamp
  signature := rfl
  pow := hunused.1
  routingPath := rfl

variable (platform link) in
/-- The routing table takes the advertisement, and it is worth passing on if a route changed. -/
theorem routeAdvert_draft (hnumbered : link.Numbered) (topic : String)
    {action : SubscriptionAction} (haction : action = .join ∨ action = .leave) (stamp : Stamp) :
    ((GossipEngine.routeAdvert link.now link.process.engine.topicRouter link.localPeerId
        (link.draft platform topic action stamp) topic (link.sequenceOf topic + 1) action []
        none).1 = true ↔ link.Speaks topic action) ∧
      ∀ other, (GossipEngine.routeAdvert link.now link.process.engine.topicRouter link.localPeerId
          (link.draft platform topic action stamp) topic (link.sequenceOf topic + 1) action []
          none).2.routeOf other link.localPeerId =
        if other = topic then link.ownRoute topic action
        else link.routeIn link.process.engine other := by
  rcases haction with rfl | rfl
  · have hupdate := TopicRouter.updateRoute_of_improves link.process.engine.topicRouter topic
      link.localPeerId link.localPeerId 0 (link.sequenceOf topic + 1) ([] : List String)
      (WithTop.some (link.now + Config.ROUTE_LEASE_MS)) fun existing hexisting ↦ by
        have hbehind := hnumbered topic existing hexisting
        simp only [TopicRouter.Improves, SequenceNumber.lt_nat, SequenceNumber.same_nat,
          decide_eq_false_iff_not]
        omega
    refine ⟨iff_of_true (congrArg Prod.fst hupdate) (.inl rfl), fun other ↦ ?_⟩
    refine (congrArg (fun result ↦ result.2.routeOf other link.localPeerId) hupdate).trans ?_
    rw [TopicRouter.routeOf_setRoute]
    simp only [and_true]
    rfl
  · refine ⟨?_, fun other ↦ ?_⟩
    · have hremoved := TopicRouter.removeRoute_fst link.process.engine.topicRouter topic
        link.localPeerId
      simp only [Speaks, reduceCtorEq, false_or]
      exact Eq.congr_left hremoved
    · have hremoved := TopicRouter.routeOf_removeRoute link.process.engine.topicRouter topic other
        link.localPeerId link.localPeerId
      simp only [and_true] at hremoved
      exact hremoved

theorem advertised (hequipped : Equipped platform link) (hkey : link.KnowsKey link.process.engine)
    (hnumbered : link.Numbered) (topic : String) {action : SubscriptionAction}
    (haction : action = .join ∨ action = .leave) {stamp : Stamp}
    (hunused : link.Unused platform stamp.id) :
    Advertised platform link (link._advertiseSubscription platform topic action stamp) topic action
      stamp.id := by
  have hadmits := admits_draft hequipped hkey topic action hunused
  obtain ⟨hworth, hroutes⟩ := routeAdvert_draft platform link hnumbered topic haction stamp
  have hnot : link.neighbour.localPeerId ∉ [link.localPeerId, link.localPeerId] := by
    simpa using hequipped.neighbour
  have hflights := @GossipEngine.Admits.flights _ _ _ stamp.draws _ _ _ _ _ _ hadmits
    hequipped.pool _ _ hequipped.connection hnot link.localPeerId []
  have hinFlight : (link._advertiseSubscription platform topic action stamp).inFlight =
      link.inFlight ++ (((Process.flights link.localPeerId link.process.pool []
        (link.handled platform topic action stamp).2).filter
          fun flight ↦ flight.connection = link.connection).map Flight.message).map
            fun message ↦ (message, link.now) := by
    rw [List.map_map]
    rfl
  rw [handled, hflights] at hinFlight
  refine ⟨⟨_, _, _, _, _, rfl⟩, ?_, ?_, ?_, ?_, ?_, ?_, ?_⟩
  · exact GossipEngine.localPeerId_receiveMessage ..
  · exact hkey.receive (senderPublicKey_draft hequipped topic action stamp) hadmits.accepts
  · intro other
    refine (GossipEngine.mem_seenMessages_receiveMessage ..).trans ?_
    exact or_congr_right ⟨And.left, fun heq ↦ ⟨heq, hadmits.accepts⟩⟩
  · intro other
    unfold sequenceOf
    change ((link.process.localSequences.set topic (link.sequenceOf topic + 1)).get? other).getD 0 =
      _
    rw [OrderedMap.get?_set]
    split_ifs <;> rfl
  · intro other
    have hrouter := @GossipEngine.Admits.topicRouter _ link.process.pool _ stamp.draws _ _ _ _ _ _
      hadmits
    refine Eq.trans ?_ (hroutes other)
    change (link.handled platform topic action stamp).1.topicRouter.routeOf other
      (link.handled platform topic action stamp).1.localPeerId = _
    rw [handled, hrouter, GossipEngine.localPeerId_receiveMessage]
    rfl
  · intro hsilent
    rw [hinFlight, if_neg fun h ↦ hsilent (hworth.1 h.1)]
    exact List.append_nil _
  · intro hspeaks
    refine ⟨_, announces_relayed hequipped topic action hunused, rfl, ?_⟩
    rw [hinFlight, if_pos ⟨hworth.2 hspeaks, (by decide : (1 : ℤ) < Config.MAX_TTL)⟩]
    rfl

/-! ## The invariant -/

/-- Later copies about a topic have higher sequence numbers. -/
def Precedes (first later : Copy) : Prop :=
  ∀ topic sequenceNumber sequenceNumber' action action',
    first.1.payload = .subAd topic sequenceNumber action →
      later.1.payload = .subAd topic sequenceNumber' action' → sequenceNumber < sequenceNumber'

variable (platform) in
/-- What is under way has been signed by the node, in the order of its sequence numbers, and is news
to the neighbour, whose routes towards the node lead there directly. -/
structure Sound (link : Link) : Prop where
  equipped : Equipped platform link
  knowsKey : link.KnowsKey link.process.engine
  neighbourKnowsKey : link.KnowsKey link.neighbour
  numbered : link.Numbered
  copies : ∀ copy ∈ link.inFlight, ∃ topic sequenceNumber action,
    link.Announces platform copy.1 topic sequenceNumber action ∧
      (action = .join ∨ action = .leave) ∧ sequenceNumber ≤ link.sequenceOf topic
  ordered : link.inFlight.Pairwise Precedes
  ids : (link.inFlight.map fun copy ↦ copy.1.id).Nodup
  unseen : ∀ copy ∈ link.inFlight, copy.1.id ∉ link.neighbour.seenMessages
  nextHop : ∀ topic route, link.routeIn link.neighbour topic = some route →
    route.nextHop = link.localPeerId
  behind : ∀ topic route, link.routeIn link.neighbour topic = some route →
    route.sequenceNumber ≤ link.sequenceOf topic
  news : ∀ topic route, link.routeIn link.neighbour topic = some route →
    ∀ copy ∈ link.inFlight, ∀ sequenceNumber action,
      copy.1.payload = .subAd topic sequenceNumber action → route.sequenceNumber < sequenceNumber

theorem sound_of_initial (h : Initial platform link) : Sound platform link where
  equipped := h.equipped
  knowsKey := h.knowsKey
  neighbourKnowsKey := h.neighbourKnowsKey
  numbered topic route hroute := by
    rw [h.routes topic] at hroute
    cases hroute
  copies copy hmem := by
    rw [h.inFlight] at hmem
    cases hmem
  ordered := by
    rw [h.inFlight]
    exact .nil
  ids := by
    rw [h.inFlight]
    exact .nil
  unseen copy hmem := by
    rw [h.inFlight] at hmem
    cases hmem
  nextHop topic route hroute := by
    rw [h.neighbourRoutes topic] at hroute
    cases hroute
  behind topic route hroute := by
    rw [h.neighbourRoutes topic] at hroute
    cases hroute
  news topic route hroute := by
    rw [h.neighbourRoutes topic] at hroute
    cases hroute

theorem Advertised.sequenceOf_le {link' : Link} {topic : String} {action : SubscriptionAction}
    {id : String} (h : Advertised platform link link' topic action id) (other : String) :
    link.sequenceOf other ≤ link'.sequenceOf other := by
  rw [h.sequenceOf]
  split_ifs with hother
  · rw [hother]
    exact Nat.le_succ _
  · exact le_rfl

theorem Announces.congr {link' : Link} {message : P2PMessage} {topic : String}
    {sequenceNumber : ℕ} {action : SubscriptionAction}
    (h : link.Announces platform message topic sequenceNumber action)
    (hpeer : link'.localPeerId = link.localPeerId)
    (hpublic : link'.process.publicKey = link.process.publicKey)
    (hsecret : link'.process.secretKey = link.process.secretKey) :
    link'.Announces platform message topic sequenceNumber action where
  type := h.type
  payload := h.payload
  sender := hpeer ▸ h.sender
  senderPublicKey := hpublic ▸ h.senderPublicKey
  signature := hsecret ▸ h.signature
  pow := h.pow
  routingPath := hpeer ▸ h.routingPath

/-- The copies that an advertisement adds, of which there is at most one. -/
theorem Advertised.exists_sent {link' : Link} {topic : String} {action : SubscriptionAction}
    {id : String} (h : Advertised platform link link' topic action id) :
    ∃ sent : List Copy, link'.inFlight = link.inFlight ++ sent ∧
      (∀ copy ∈ sent, copy.1.id = id ∧
        link.Announces platform copy.1 topic (link.sequenceOf topic + 1) action) ∧
      ∀ rel : Copy → Copy → Prop, sent.Pairwise rel := by
  by_cases hspeaks : link.Speaks topic action
  · obtain ⟨message, hannounces, hid, hinFlight⟩ := h.speaks hspeaks
    refine ⟨_, hinFlight, fun copy hmem ↦ ?_, fun rel ↦ List.pairwise_singleton ..⟩
    rw [List.mem_singleton.1 hmem]
    exact ⟨hid, hannounces⟩
  · refine ⟨[], ?_, ?_, fun _ ↦ .nil⟩
    · rw [h.silent hspeaks, List.append_nil]
    · intro copy hmem
      cases hmem

theorem Sound.advertise (h : Sound platform link) {link' : Link} {topic : String}
    {action : SubscriptionAction} {id : String} (haction : action = .join ∨ action = .leave)
    (hunused : link.Unused platform id)
    (hadvertised : Advertised platform link link' topic action id) : Sound platform link' := by
  have hlater := hadvertised.sequenceOf_le
  have hpeer := hadvertised.localPeerId
  obtain ⟨sent, hinFlight, hnew, hone⟩ := hadvertised.exists_sent
  have hkey := hadvertised.knowsKey
  have hroutes := hadvertised.routes
  have hsequence := hadvertised.sequenceOf
  obtain ⟨engine, localSequences, logicalClock, installs, inFlight, rfl⟩ := hadvertised.frame
  have hneighbour (other : String) : ({ link with process := { link.process with
        engine, localSequences, logicalClock, installs }, inFlight } : Link).routeIn
          link.neighbour other = link.routeIn link.neighbour other := by
    unfold routeIn
    rw [hpeer]
  refine
    { equipped := ?_, knowsKey := ?_, neighbourKnowsKey := ?_, numbered := ?_, copies := ?_
      ordered := ?_, ids := ?_, unseen := ?_, nextHop := ?_, behind := ?_, news := ?_ }
  · obtain ⟨hname, hverifies, hsign, hpublic, hpool, hconnection, hdistinct⟩ := h.equipped
    exact ⟨hpeer ▸ hname, hverifies, hsign, hpublic, hpool, hconnection, hpeer ▸ hdistinct⟩
  · exact hkey.congr hpeer rfl
  · exact h.neighbourKnowsKey.congr hpeer rfl
  · intro other route hroute
    rw [hroutes] at hroute
    split_ifs at hroute with hother
    · cases action with
      | join =>
        cases hroute
        rw [hsequence, if_pos hother]
      | leave => cases hroute
      | other => cases hroute
    · exact (h.numbered other route hroute).trans (hlater other)
  · intro copy hmem
    rw [hinFlight] at hmem
    rcases List.mem_append.1 hmem with hbefore | hsent
    · obtain ⟨about, sequenceNumber, what, hannounces, hwhat, hle⟩ := h.copies copy hbefore
      exact ⟨about, sequenceNumber, what, hannounces.congr hpeer rfl rfl, hwhat,
        hle.trans (hlater about)⟩
    · refine ⟨topic, _, action, (hnew copy hsent).2.congr hpeer rfl rfl, haction, ?_⟩
      rw [hsequence, if_pos rfl]
  · rw [hinFlight]
    refine List.pairwise_append.2 ⟨h.ordered, hone _, fun first hfirst later hlast ↦ ?_⟩
    intro about sequenceNumber sequenceNumber' what what' hpayload hpayload'
    obtain ⟨_, _, _, hannounces, -, hle⟩ := h.copies first hfirst
    cases hannounces.payload.symm.trans hpayload
    cases (hnew later hlast).2.payload.symm.trans hpayload'
    exact Nat.lt_succ_of_le hle
  · rw [hinFlight, List.map_append, List.nodup_append]
    refine ⟨h.ids, List.pairwise_map.2 (hone _), ?_⟩
    intro firstId hfirstId laterId hlaterId hsame
    obtain ⟨first, hfirst, rfl⟩ := List.mem_map.1 hfirstId
    obtain ⟨later, hlast, rfl⟩ := List.mem_map.1 hlaterId
    exact hunused.2.2.2 first hfirst (hsame.trans (hnew later hlast).1)
  · intro copy hmem
    rw [hinFlight] at hmem
    rcases List.mem_append.1 hmem with hbefore | hsent
    · exact h.unseen copy hbefore
    · rw [(hnew copy hsent).1]
      exact hunused.2.2.1
  · intro other route hroute
    rw [hneighbour] at hroute
    exact (h.nextHop other route hroute).trans hpeer.symm
  · intro other route hroute
    rw [hneighbour] at hroute
    exact (h.behind other route hroute).trans (hlater other)
  · intro other route hroute copy hmem sequenceNumber what hpayload
    rw [hneighbour] at hroute
    rw [hinFlight] at hmem
    rcases List.mem_append.1 hmem with hbefore | hsent
    · exact h.news other route hroute copy hbefore sequenceNumber what hpayload
    · cases (hnew copy hsent).2.payload.symm.trans hpayload
      exact Nat.lt_succ_of_le (h.behind topic route hroute)

/-! ## What one arrival does -/

/-- The route that a neighbour has after an advertisement. -/
def neighbourRoute (link : Link) (sequenceNumber : ℕ) :
    SubscriptionAction → Option (Route String ℕ (List String))
  | .join => some
    { nextHop := link.localPeerId
      hopCount := 1
      sequenceNumber
      path := [link.localPeerId]
      expiresAt := WithTop.some (link.now + Config.ROUTE_LEASE_MS) }
  | _ => none

/-- The oldest copy passes the checks of the neighbour. -/
theorem Sound.admits (h : Sound platform link) {copy : Copy} {rest : List Copy}
    (hinFlight : link.inFlight = copy :: rest)
    (hadmitted : link.neighbour.Allowed link.now (some link.localPeerId)) {topic : String}
    {sequenceNumber : ℕ} {action : SubscriptionAction}
    (hannounces : link.Announces platform copy.1 topic sequenceNumber action) :
    GossipEngine.Admits platform link.now link.neighbour copy.1 (some link.localPeerId) topic
      sequenceNumber action where
  type := hannounces.type
  payload := hannounces.payload
  accepts :=
    { pow := hannounces.pow
      allowed := hadmitted
      signature := signatureValid h.equipped h.neighbourKnowsKey hannounces.sender
        hannounces.senderPublicKey hannounces.signature
      unseen := h.unseen copy (hinFlight ▸ List.mem_cons_self) }
  loopFree := by
    rw [hannounces.routingPath]
    simpa using h.equipped.neighbour

/-- The neighbour has the route that the copy tells of. -/
theorem Sound.routes_receive (h : Sound platform link) {copy : Copy} {rest : List Copy}
    (hinFlight : link.inFlight = copy :: rest)
    (hadmitted : link.neighbour.Allowed link.now (some link.localPeerId)) {topic : String}
    {sequenceNumber : ℕ} {action : SubscriptionAction} (haction : action = .join ∨ action = .leave)
    (hannounces : link.Announces platform copy.1 topic sequenceNumber action) (draws : ℕ → ℕ)
    (other : String) :
    link.routeIn (link.neighbour.receiveMessage platform link.neighbourPool link.now draws copy.1
        (some link.localPeerId)).1 other =
      if other = topic then link.neighbourRoute sequenceNumber action
      else link.routeIn link.neighbour other := by
  have hrouter := @GossipEngine.Admits.topicRouter _ link.neighbourPool _ draws _ _ _ _ _ _
    (h.admits hinFlight hadmitted hannounces)
  rw [hannounces.routingPath] at hrouter
  unfold routeIn
  rw [hrouter]
  rcases haction with rfl | rfl
  · have hupdate := TopicRouter.updateRoute_of_improves link.neighbour.topicRouter topic
      link.localPeerId link.localPeerId 1 sequenceNumber [link.localPeerId]
      (WithTop.some (link.now + Config.ROUTE_LEASE_MS)) fun existing hexisting ↦ by
        have hnews := h.news topic existing hexisting copy (hinFlight ▸ List.mem_cons_self) _ _
          hannounces.payload
        simp only [TopicRouter.Improves, SequenceNumber.lt_nat, SequenceNumber.same_nat,
          decide_eq_false_iff_not]
        omega
    rw [GossipEngine.routeAdvert, hannounces.sender]
    refine (congrArg (fun result ↦ result.2.routeOf other link.localPeerId) hupdate).trans ?_
    rw [TopicRouter.routeOf_setRoute]
    simp only [and_true]
    rfl
  · rw [GossipEngine.routeAdvert, hannounces.sender]
    have hremoved := TopicRouter.routeOf_removeRoute link.neighbour.topicRouter topic other
      link.localPeerId link.localPeerId
    simp only [and_true] at hremoved
    exact hremoved

theorem Sound.receive (h : Sound platform link) {copy : Copy} {rest : List Copy}
    (hinFlight : link.inFlight = copy :: rest)
    (hadmitted : link.neighbour.Allowed link.now (some link.localPeerId)) (draws : ℕ → ℕ) :
    Sound platform ({ link with inFlight := rest }.receive platform copy draws) := by
  obtain ⟨topic, sequenceNumber, action, hannounces, haction, hle⟩ :=
    h.copies copy (hinFlight ▸ List.mem_cons_self)
  have htruthy : truthy (some link.localPeerId) = some link.localPeerId :=
    truthy_eq_some.2 ⟨rfl, h.equipped.localPeerId⟩
  have hroutes := h.routes_receive hinFlight hadmitted haction hannounces draws
  have hordered := h.ordered
  have hids := h.ids
  rw [hinFlight] at hordered hids
  obtain ⟨hname, hverifies, hsign, hpublic, hpool, hconnection, hdistinct⟩ := h.equipped
  unfold Link.receive
  change Sound platform { link with
    inFlight := rest
    heard := link.heard ++ [copy]
    neighbour := (link.neighbour.receiveMessage platform link.neighbourPool link.now draws copy.1
      (truthy (some link.localPeerId))).1 }
  rw [htruthy]
  have hlocal := GossipEngine.localPeerId_receiveMessage link.neighbourPool link.now draws
    link.neighbour copy.1 (some link.localPeerId) platform
  refine
    { equipped := ⟨hname, hverifies, hsign, hpublic, hpool, ?_, ?_⟩, knowsKey := h.knowsKey
      neighbourKnowsKey := ?_, numbered := h.numbered, copies := ?_
      ordered := hordered.of_cons, ids := (List.nodup_cons.1 hids).2, unseen := ?_, nextHop := ?_
      behind := ?_, news := ?_ }
  · rw [hlocal]
    exact hconnection
  · rw [hlocal]
    exact hdistinct
  · exact h.neighbourKnowsKey.receive hannounces.senderPublicKey
      (h.admits hinFlight hadmitted hannounces).accepts
  · intro other hother
    obtain ⟨about, sequenceNumber', action', hannounces', hrest⟩ :=
      h.copies other (hinFlight ▸ List.mem_cons_of_mem _ hother)
    exact ⟨about, sequenceNumber', action', hannounces'.congr rfl rfl rfl, hrest⟩
  · intro other hother
    rw [GossipEngine.mem_seenMessages_receiveMessage]
    rintro (hseen | ⟨hid, -⟩)
    · exact h.unseen other (hinFlight ▸ List.mem_cons_of_mem _ hother) hseen
    · exact (List.nodup_cons.1 hids).1 (List.mem_map.2 ⟨other, hother, hid⟩)
  · intro other route hroute
    replace hroute := (hroutes other).symm.trans hroute
    split_ifs at hroute
    · rcases haction with rfl | rfl <;> cases hroute
      rfl
    · exact h.nextHop other route hroute
  · intro other route hroute
    replace hroute := (hroutes other).symm.trans hroute
    split_ifs at hroute with hother
    · rcases haction with rfl | rfl <;> cases hroute
      rw [hother]
      exact hle
    · exact h.behind other route hroute
  · intro other route hroute later hlater sequenceNumber' action' hpayload
    replace hroute := (hroutes other).symm.trans hroute
    split_ifs at hroute with hother
    · rcases haction with rfl | rfl <;> cases hroute
      rw [hother] at hpayload
      exact List.rel_of_pairwise_cons hordered hlater topic _ _ _ _ hannounces.payload hpayload
    · exact h.news other route hroute later (hinFlight ▸ List.mem_cons_of_mem _ hlater) _ _
        hpayload

/-! ## The mirror of the leases -/

variable (link) in
/-- The two tables are the leases of the mirror, and the copies are its notices. -/
structure Tracks (mirror : LeaseMirror String) : Prop where
  now : mirror.now = link.now
  refreshedAt : mirror.refreshedAt = link.refreshedAt
  held : ∀ topic, (link.routeIn link.process.engine topic).map Route.expiresAt =
    (mirror.held topic).map WithTop.some
  queue : mirror.queue = link.inFlight.map notice
  heard : mirror.heard = link.heard.map notice
  belief : ∀ topic, (link.routeIn link.neighbour topic).map Route.expiresAt =
    (mirror.belief topic).map WithTop.some

variable {timing : LeaseTiming} {mirror : LeaseMirror String}

theorem Tracks.isSome_held (h : link.Tracks mirror) (topic : String) :
    (mirror.held topic).isSome = (link.routeIn link.process.engine topic).isSome := by
  have hheld := congrArg Option.isSome (h.held topic)
  rw [Option.isSome_map, Option.isSome_map] at hheld
  exact hheld.symm

theorem notice_of_announces {message : P2PMessage} {topic : String} {sequenceNumber : ℕ}
    {action : SubscriptionAction}
    (h : link.Announces platform message topic sequenceNumber action) (sentAt : ℕ) :
    notice (message, sentAt) = ⟨topic, action = .join, sentAt⟩ := by
  unfold notice
  rw [h.payload]

theorem Tracks.advertise_join (h : link.Tracks mirror) {link' : Link} {topic id : String}
    (hlease : timing.lease = Config.ROUTE_LEASE_MS)
    (hadvertised : Advertised platform link link' topic .join id) :
    link'.Tracks (mirror.announceAll timing [topic]) := by
  have hpeer := hadvertised.localPeerId
  have hroutes := hadvertised.routes
  obtain ⟨message, hannounces, -, hinFlight⟩ := hadvertised.speaks (.inl rfl)
  obtain ⟨engine, localSequences, logicalClock, installs, inFlight, rfl⟩ := hadvertised.frame
  refine ⟨h.now, h.refreshedAt, fun other ↦ ?_, ?_, h.heard, fun other ↦ ?_⟩
  · rw [hroutes, LeaseMirror.announceAll]
    simp only [List.mem_singleton]
    split_ifs
    · rw [hlease, h.now]
      rfl
    · exact h.held other
  · rw [hinFlight, List.map_append, LeaseMirror.announceAll, h.queue, h.now, List.map_singleton,
      List.map_singleton, notice_of_announces hannounces]
    rfl
  · unfold routeIn
    rw [hpeer]
    exact h.belief other

theorem Tracks.advertise_leave (h : link.Tracks mirror) {link' : Link} {topic id : String}
    (hadvertised : Advertised platform link link' topic .leave id) :
    link'.Tracks (mirror.withdraw topic) := by
  have hpeer := hadvertised.localPeerId
  have hroutes := hadvertised.routes
  have hsilent := hadvertised.silent
  have hspeaks := hadvertised.speaks
  obtain ⟨engine, localSequences, logicalClock, installs, inFlight, rfl⟩ := hadvertised.frame
  have hisSome := h.isSome_held topic
  unfold LeaseMirror.withdraw
  cases hheld : mirror.held topic with
  | none =>
    rw [hheld] at hisSome
    have hquiet : ¬link.Speaks topic .leave := by
      simp [Speaks, ← hisSome]
    refine ⟨h.now, h.refreshedAt, fun other ↦ ?_, ?_, h.heard, fun other ↦ ?_⟩
    · rw [hroutes]
      split_ifs with hother
      · rw [hother, hheld]
        rfl
      · exact h.held other
    · rw [hsilent hquiet, h.queue]
    · unfold routeIn
      rw [hpeer]
      exact h.belief other
  | some expiry =>
    rw [hheld] at hisSome
    obtain ⟨message, hannounces, -, hinFlight⟩ := hspeaks (.inr hisSome.symm)
    refine ⟨h.now, h.refreshedAt, fun other ↦ ?_, ?_, h.heard, fun other ↦ ?_⟩
    · rw [hroutes]
      dsimp only
      split_ifs with hother
      · rw [hother, Function.update_self]
        rfl
      · rw [Function.update_of_ne hother]
        exact h.held other
    · rw [hinFlight, List.map_append, h.queue, h.now, List.map_singleton,
        notice_of_announces hannounces]
      rfl
    · unfold routeIn
      rw [hpeer]
      exact h.belief other

theorem Tracks.receive (htracks : link.Tracks mirror) (h : Sound platform link)
    (hlease : timing.lease = Config.ROUTE_LEASE_MS) {copy : Copy} {rest : List Copy}
    (hinFlight : link.inFlight = copy :: rest)
    (hadmitted : link.neighbour.Allowed link.now (some link.localPeerId)) (draws : ℕ → ℕ) :
    ({ link with inFlight := rest }.receive platform copy draws).Tracks
      (mirror.next timing .deliver) := by
  obtain ⟨topic, sequenceNumber, action, hannounces, haction, -⟩ :=
    h.copies copy (hinFlight ▸ List.mem_cons_self)
  have htruthy : truthy (some link.localPeerId) = some link.localPeerId :=
    truthy_eq_some.2 ⟨rfl, h.equipped.localPeerId⟩
  have hroutes := h.routes_receive hinFlight hadmitted haction hannounces draws
  have hnotice := notice_of_announces hannounces copy.2
  have hqueue : mirror.queue = ⟨topic, action = .join, copy.2⟩ :: rest.map notice := by
    rw [htracks.queue, hinFlight, List.map_cons, ← hnotice]
  have hnext : mirror.next timing .deliver =
      { mirror with queue := rest.map notice }.hear timing
        ⟨topic, action = SubscriptionAction.join, copy.2⟩ := by
    rw [LeaseMirror.next, hqueue]
  rw [hnext]
  refine ⟨htracks.now, htracks.refreshedAt, htracks.held, rfl, ?_, fun other ↦ ?_⟩
  · change mirror.heard ++ [_] = (link.heard ++ [copy]).map notice
    rw [htracks.heard, List.map_append, List.map_singleton, ← hnotice]
  · change (link.routeIn (link.neighbour.receiveMessage platform link.neighbourPool link.now draws
      copy.1 (truthy (some link.localPeerId))).1 other).map Route.expiresAt =
        (Function.update mirror.belief topic _ other).map WithTop.some
    rw [htruthy, hroutes]
    by_cases hother : other = topic
    · subst hother
      rw [if_pos rfl, Function.update_self, hlease]
      rcases haction with rfl | rfl
      · change some (WithTop.some (link.now + _)) = some (WithTop.some (mirror.now + _))
        rw [htracks.now]
      · rfl
    · rw [if_neg hother, Function.update_of_ne hother]
      exact htracks.belief other

/-- A collection drops from the table what has expired from the leases. -/
theorem map_expiresAt_filter {found : Option (Route String ℕ (List String))} {lease : Option ℕ}
    (h : found.map Route.expiresAt = lease.map WithTop.some) (now : ℕ) :
    (found.filter fun route ↦ WithTop.some now ≤ route.expiresAt).map Route.expiresAt =
      (lease.filter fun expiry ↦ now ≤ expiry).map WithTop.some := by
  cases found with
  | none =>
    cases lease with
    | none => rfl
    | some expiry => cases h
  | some route =>
    cases lease with
    | none => cases h
    | some expiry =>
      have hexpiry : route.expiresAt = WithTop.some expiry := Option.some.inj h
      by_cases hlive : now ≤ expiry
      · rw [Option.filter_some_pos (by simpa [hexpiry] using hlive),
          Option.filter_some_pos (by simpa using hlive)]
        exact h
      · rw [Option.filter_some_neg (by simpa [hexpiry] using hlive),
          Option.filter_some_neg (by simpa using hlive)]
        rfl

theorem routeIn_gc (link : Link) (engine : GossipEngine) (now : ℕ) (topic : String) :
    link.routeIn { engine with topicRouter := engine.topicRouter.gc now } topic =
      (link.routeIn engine topic).filter fun route ↦ WithTop.some now ≤ route.expiresAt :=
  TopicRouter.routeOf_gc ..

theorem of_routeIn_gc {engine : GossipEngine} {now : ℕ} {topic : String}
    {route : Route String ℕ (List String)}
    (h : link.routeIn { engine with topicRouter := engine.topicRouter.gc now } topic = some route) :
    link.routeIn engine topic = some route := by
  rw [routeIn_gc] at h
  exact (Option.filter_eq_some_iff.1 h).1

/-- Changing the own engine, apart from the routes towards the node itself, which may expire. -/
theorem Sound.setEngine (h : Sound platform link) {engine : GossipEngine} (logicalClock : ℕ)
    (hlocal : engine.localPeerId = link.localPeerId) (hkey : link.KnowsKey engine)
    (hroutes : ∀ topic route, link.routeIn engine topic = some route →
      link.routeIn link.process.engine topic = some route) :
    Sound platform { link with process := { link.process with engine, logicalClock } } := by
  obtain ⟨hname, hverifies, hsign, hpublic, hpool, hconnection, hdistinct⟩ := h.equipped
  have hpeer : ({ link with process := { link.process with engine, logicalClock } } :
      Link).localPeerId = link.localPeerId := hlocal
  refine
    { equipped := ⟨hpeer ▸ hname, hverifies, hsign, hpublic, hpool, hconnection, hpeer ▸ hdistinct⟩
      knowsKey := ?_, neighbourKnowsKey := ?_, numbered := ?_, copies := ?_, ordered := h.ordered
      ids := h.ids, unseen := h.unseen, nextHop := ?_, behind := ?_, news := ?_ }
  · exact hkey.congr hpeer rfl
  · exact h.neighbourKnowsKey.congr hpeer rfl
  · intro topic route hroute
    unfold routeIn at hroute
    rw [hpeer] at hroute
    exact h.numbered topic route (hroutes topic route hroute)
  · intro copy hmem
    obtain ⟨topic, sequenceNumber, action, hannounces, hrest⟩ := h.copies copy hmem
    exact ⟨topic, sequenceNumber, action, hannounces.congr hpeer rfl rfl, hrest⟩
  · intro topic route hroute
    unfold routeIn at hroute
    rw [hpeer] at hroute ⊢
    exact h.nextHop topic route hroute
  · intro topic route hroute
    unfold routeIn at hroute
    rw [hpeer] at hroute
    exact h.behind topic route hroute
  · intro topic route hroute
    unfold routeIn at hroute
    rw [hpeer] at hroute
    exact h.news topic route hroute

/-- Changing the neighbour, apart from its routes towards the node, which may expire. -/
theorem Sound.setNeighbour (h : Sound platform link) {neighbour : GossipEngine}
    (hlocal : neighbour.localPeerId = link.neighbour.localPeerId) (hkey : link.KnowsKey neighbour)
    (hroutes : ∀ topic route, link.routeIn neighbour topic = some route →
      link.routeIn link.neighbour topic = some route)
    (hunseen : ∀ copy ∈ link.inFlight, copy.1.id ∉ neighbour.seenMessages) :
    Sound platform { link with neighbour } := by
  obtain ⟨hname, hverifies, hsign, hpublic, hpool, hconnection, hdistinct⟩ := h.equipped
  refine
    { equipped := ⟨hname, hverifies, hsign, hpublic, hpool, ?_, ?_⟩, knowsKey := h.knowsKey
      neighbourKnowsKey := hkey, numbered := h.numbered, copies := ?_, ordered := h.ordered
      ids := h.ids, unseen := hunseen, nextHop := ?_, behind := ?_, news := ?_ }
  · dsimp only
    rw [hlocal]
    exact hconnection
  · dsimp only
    rw [hlocal]
    exact hdistinct
  · intro copy hmem
    obtain ⟨topic, sequenceNumber, action, hannounces, hrest⟩ := h.copies copy hmem
    exact ⟨topic, sequenceNumber, action, hannounces.congr rfl rfl rfl, hrest⟩
  · exact fun topic route hroute ↦ h.nextHop topic route (hroutes topic route hroute)
  · exact fun topic route hroute ↦ h.behind topic route (hroutes topic route hroute)
  · exact fun topic route hroute ↦ h.news topic route (hroutes topic route hroute)

/-! ## The simulation -/

/-- The timers of the program, for a connection with the given delay. -/
def leaseTiming (delay : ℕ) (hdelay : REFRESH_INTERVAL_MS + delay ≤ Config.ROUTE_LEASE_MS) :
    LeaseTiming := ⟨REFRESH_INTERVAL_MS, delay, Config.ROUTE_LEASE_MS, hdelay⟩

variable (platform) in
/-- What the node has a route for it is subscribed to. The converse need not be true before the
first refresh. -/
structure Simulates (timing : LeaseTiming) (complete : Prop) (link : Link)
    (mirror : LeaseMirror String) : Prop where
  sound : Sound platform link
  tracks : link.Tracks mirror
  fresh : mirror.Fresh timing
  subscribed : ∀ topic, (mirror.held topic).isSome → topic ∈ link.localSubscriptions.keys
  complete : complete → ∀ topic ∈ link.localSubscriptions.keys, (mirror.held topic).isSome

theorem Advertised.unused {link' : Link} {topic : String} {action : SubscriptionAction}
    {id other : String} (h : Advertised platform link link' topic action id)
    (hother : link.Unused platform other) (hne : other ≠ id) : link'.Unused platform other := by
  obtain ⟨sent, hinFlight, hnew, -⟩ := h.exists_sent
  have hseen := h.seenMessages
  obtain ⟨engine, localSequences, logicalClock, installs, inFlight, rfl⟩ := h.frame
  refine ⟨hother.1, ?_, hother.2.2.1, fun copy hmem ↦ ?_⟩
  · rw [hseen]
    exact not_or_intro hother.2.1 hne
  · rw [hinFlight] at hmem
    rcases List.mem_append.1 hmem with hbefore | hsent
    · exact hother.2.2.2 copy hbefore
    · rw [(hnew copy hsent).1]
      exact hne.symm

/-- Advertising topics one after the other announces them all. -/
theorem tracks_refresh (hlease : timing.lease = Config.ROUTE_LEASE_MS) (stamps : String → Stamp)
    {topics : List String} (hsound : Sound platform link) (htracks : link.Tracks mirror)
    (hunused : ∀ topic ∈ topics, link.Unused platform (stamps topic).id)
    (hnodup : (topics.map fun topic ↦ (stamps topic).id).Nodup) :
    let link' := topics.foldl (fun link topic ↦
      link._advertiseSubscription platform topic .join (stamps topic)) link
    Sound platform link' ∧ link'.Tracks (mirror.announceAll timing topics) ∧
      link'.localSubscriptions = link.localSubscriptions ∧ link'.now = link.now := by
  induction topics generalizing link mirror with
  | nil =>
    refine ⟨hsound, ?_, rfl, rfl⟩
    simpa [LeaseMirror.announceAll] using htracks
  | cons topic topics ih =>
    obtain ⟨hfirst, hrest⟩ := List.forall_mem_cons.1 hunused
    obtain ⟨hnew, hnodup⟩ := List.nodup_cons.1 hnodup
    have hadvertised := advertised hsound.equipped hsound.knowsKey hsound.numbered topic
      (.inl rfl) hfirst
    obtain ⟨hsound', htracks', hsubscriptions, hnow⟩ :=
      ih (hsound.advertise (.inl rfl) hfirst hadvertised)
        (htracks.advertise_join hlease hadvertised) (fun other hother ↦ hadvertised.unused
          (hrest other hother) fun hsame ↦ hnew (List.mem_map.2 ⟨other, hother, hsame⟩)) hnodup
    rw [LeaseMirror.announceAll_cons] at htracks'
    exact ⟨hsound', htracks', hsubscriptions, hnow⟩

theorem Sound.reset (h : Sound platform link) (now refreshedAt : ℕ)
    (localSubscriptions : OrderedMap String Unit) :
    Sound platform { link with now, refreshedAt, localSubscriptions } := by
  obtain ⟨⟨hname, hverifies, hsign, hpublic, hpool, hconnection, hdistinct⟩, hkey, hneighbourKey,
    hnumbered, hcopies, hordered, hids, hunseen, hnextHop, hbehind, hnews⟩ := h
  refine ⟨⟨hname, hverifies, hsign, hpublic, hpool, hconnection, hdistinct⟩, hkey, hneighbourKey,
    hnumbered, fun copy hmem ↦ ?_, hordered, hids, hunseen, hnextHop, hbehind, hnews⟩
  obtain ⟨topic, sequenceNumber, action, hannounces, hrest⟩ := hcopies copy hmem
  exact ⟨topic, sequenceNumber, action, hannounces.congr rfl rfl rfl, hrest⟩

theorem Tracks.withSubscriptions (h : link.Tracks mirror)
    (localSubscriptions : OrderedMap String Unit) :
    ({ link with localSubscriptions } : Link).Tracks mirror :=
  ⟨h.now, h.refreshedAt, h.held, h.queue, h.heard, h.belief⟩

theorem Simulates.mono {complete complete' : Prop}
    (h : Simulates platform timing complete link mirror) (hmono : complete' → complete) :
    Simulates platform timing complete' link mirror :=
  { h with complete := fun hcomplete ↦ h.complete (hmono hcomplete) }

/-- A step of the program that is one step of the mirror. -/
theorem exists_run_of_next {complete : Prop} {link' : Link} (event : LeaseMirror.Event String)
    (henabled : mirror.Enabled timing event)
    (h : Simulates platform timing complete link' (mirror.next timing event)) :
    ∃ events mirror', (LeaseMirror.system timing).Run mirror events mirror' ∧
      Simulates platform timing complete link' mirror' :=
  ⟨[event], _, TransitionSystem.run_ofNext ⟨henabled, trivial⟩, h⟩

/-- A step of the program of which the mirror sees nothing. -/
theorem exists_run_of_same {complete : Prop} {link' : Link}
    (h : Simulates platform timing complete link' mirror) :
    ∃ events mirror', (LeaseMirror.system timing).Run mirror events mirror' ∧
      Simulates platform timing complete link' mirror' :=
  ⟨[], mirror, .nil mirror, h⟩

theorem Simulates.subscribe {complete : Prop}
    (h : Simulates platform timing complete link mirror)
    (hlease : timing.lease = Config.ROUTE_LEASE_MS) (topic : String) {stamp : Stamp}
    (hunused : link.Unused platform stamp.id) :
    ∃ events mirror', (LeaseMirror.system timing).Run mirror events mirror' ∧
      Simulates platform timing complete (link.subscribe platform topic stamp) mirror' := by
  unfold Link.subscribe
  split
  · exact exists_run_of_same h
  · have hsound := h.sound.reset link.now link.refreshedAt (link.localSubscriptions.set topic ())
    have hadvertised := advertised hsound.equipped hsound.knowsKey hsound.numbered topic
      (.inl rfl) hunused
    refine exists_run_of_next (.announce topic) trivial
      ⟨hsound.advertise (.inl rfl) hunused hadvertised,
        (h.tracks.withSubscriptions _).advertise_join hlease hadvertised,
        h.fresh.next trivial, fun other hother ↦ ?_, fun hcomplete other hother ↦ ?_⟩
    · obtain ⟨_, _, _, _, _, hframe⟩ := hadvertised.frame
      rw [hframe]
      refine OrderedMap.mem_keys_set.2 ?_
      by_cases hsame : other = topic
      · exact .inl hsame
      · refine .inr (h.subscribed other ?_)
        simpa [LeaseMirror.next, LeaseMirror.announceAll, hsame] using hother
    · obtain ⟨_, _, _, _, _, hframe⟩ := hadvertised.frame
      rw [hframe] at hother
      rcases OrderedMap.mem_keys_set.1 hother with hsame | hbefore
      · simp [LeaseMirror.next, LeaseMirror.announceAll, hsame]
      · have hheld := h.complete hcomplete other hbefore
        by_cases hsame : other = topic <;>
          simp [LeaseMirror.next, LeaseMirror.announceAll, hsame, hheld]

theorem Simulates.unsubscribe {complete : Prop}
    (h : Simulates platform timing complete link mirror) (topic : String) {stamp : Stamp}
    (hunused : link.Unused platform stamp.id) :
    ∃ events mirror', (LeaseMirror.system timing).Run mirror events mirror' ∧
      Simulates platform timing complete (link.unsubscribe platform topic stamp) mirror' := by
  unfold Link.unsubscribe
  split
  · exact exists_run_of_same h
  · have hsound := h.sound.reset link.now link.refreshedAt (link.localSubscriptions.erase topic)
    have hadvertised := advertised hsound.equipped hsound.knowsKey hsound.numbered topic
      (.inr rfl) hunused
    have hheld (other : String) : ((mirror.withdraw topic).held other).isSome ↔
        other ≠ topic ∧ (mirror.held other).isSome := by
      unfold LeaseMirror.withdraw
      cases hbefore : mirror.held topic <;> by_cases hsame : other = topic <;>
        simp [hsame, hbefore]
    refine exists_run_of_next (.withdraw topic) trivial
      ⟨hsound.advertise (.inr rfl) hunused hadvertised,
        (h.tracks.withSubscriptions _).advertise_leave hadvertised, h.fresh.next trivial,
        fun other hother ↦ ?_, fun hcomplete other hother ↦ ?_⟩
    · obtain ⟨_, _, _, _, _, hframe⟩ := hadvertised.frame
      rw [hframe]
      obtain ⟨hne, hbefore⟩ := (hheld other).1 hother
      exact OrderedMap.mem_keys_erase.2 ⟨hne, h.subscribed other hbefore⟩
    · obtain ⟨_, _, _, _, _, hframe⟩ := hadvertised.frame
      rw [hframe] at hother
      obtain ⟨hne, hbefore⟩ := OrderedMap.mem_keys_erase.1 hother
      exact (hheld other).2 ⟨hne, h.complete hcomplete other hbefore⟩

theorem Simulates.refreshSubscriptions {complete : Prop}
    (h : Simulates platform timing complete link mirror)
    (hlease : timing.lease = Config.ROUTE_LEASE_MS) {stamps : String → Stamp}
    (hunused : ∀ topic ∈ link.localSubscriptions.keys, link.Unused platform (stamps topic).id)
    (hnodup : (link.localSubscriptions.keys.map fun topic ↦ (stamps topic).id).Nodup) :
    ∃ events mirror', (LeaseMirror.system timing).Run mirror events mirror' ∧
      Simulates platform timing True (link.next platform (.refreshSubscriptions stamps))
        mirror' := by
  obtain ⟨hsound, htracks, hsubscriptions, hnow⟩ :=
    tracks_refresh hlease stamps h.sound h.tracks hunused hnodup
  have hkeys : (link.next platform (.refreshSubscriptions stamps)).localSubscriptions.keys =
      link.localSubscriptions.keys := congrArg OrderedMap.keys hsubscriptions
  have hheld (topic : String) : ((mirror.announceAll timing link.localSubscriptions.keys).held
      topic).isSome ↔ topic ∈ link.localSubscriptions.keys := by
    unfold LeaseMirror.announceAll
    dsimp only
    split_ifs with hmem
    · simp [hmem]
    · exact iff_of_false (fun hbefore ↦ hmem (h.subscribed topic hbefore)) hmem
  refine exists_run_of_next (.refresh link.localSubscriptions.keys) h.subscribed
    ⟨hsound.reset _ link.now _, ⟨htracks.now, h.tracks.now, htracks.held, htracks.queue,
      htracks.heard, htracks.belief⟩, h.fresh.next h.subscribed, fun topic hmem ↦ ?_,
      fun _ topic hmem ↦ ?_⟩
  · rw [hkeys]
    exact (hheld topic).1 hmem
  · rw [hkeys] at hmem
    exact (hheld topic).2 hmem

/-- Every step is matched by the mirror, and a refresh completes what the node has announced. -/
theorem Simulates.next {complete : Prop} (h : Simulates platform timing complete link mirror)
    {delay : ℕ} {hdelay : REFRESH_INTERVAL_MS + delay ≤ Config.ROUTE_LEASE_MS}
    (htiming : timing = leaseTiming delay hdelay) {event : Event}
    (henabled : link.Enabled platform delay event) (hadmitted : link.Admitted event) :
    ∃ events mirror', (LeaseMirror.system timing).Run mirror events mirror' ∧
      Simulates platform timing (complete ∨ ∃ stamps, event = .refreshSubscriptions stamps)
        (link.next platform event) mirror' := by
  have hlease : timing.lease = Config.ROUTE_LEASE_MS := by rw [htiming]; rfl
  by_cases hrefresh : ∃ stamps, event = .refreshSubscriptions stamps
  · obtain ⟨stamps, rfl⟩ := hrefresh
    obtain ⟨events, mirror', hrun, hsimulates⟩ :=
      h.refreshSubscriptions hlease henabled.1 henabled.2
    exact ⟨events, mirror', hrun, hsimulates.mono fun _ ↦ trivial⟩
  have hkeep := h.mono fun hor : complete ∨ ∃ stamps, event = .refreshSubscriptions stamps ↦
    hor.resolve_right hrefresh
  generalize (complete ∨ ∃ stamps, event = .refreshSubscriptions stamps) = complete' at hkeep ⊢
  cases event with
  | subscribe topic stamp => exact hkeep.subscribe hlease topic henabled
  | unsubscribe topic stamp => exact hkeep.unsubscribe topic henabled
  | refreshSubscriptions stamps => exact absurd ⟨stamps, rfl⟩ hrefresh
  | deliver draws =>
    unfold Link.next
    cases hinFlight : link.inFlight with
    | nil => exact exists_run_of_same hkeep
    | cons copy rest =>
      refine exists_run_of_next .deliver trivial
        ⟨hkeep.sound.receive hinFlight hadmitted draws,
          hkeep.tracks.receive hkeep.sound hlease hinFlight hadmitted draws,
          hkeep.fresh.next trivial, ?_, ?_⟩
      · rw [LeaseMirror.held_next_deliver]
        exact hkeep.subscribed
      · rw [LeaseMirror.held_next_deliver]
        exact hkeep.complete
  | gc =>
    have hsame := hkeep.fresh.expireHeld_eq
    refine exists_run_of_next .expireHeld trivial
      ⟨hkeep.sound.setEngine link.process.logicalClock rfl hkeep.sound.knowsKey
        fun _ _ ↦ of_routeIn_gc, ?_, hkeep.fresh.next trivial, ?_, ?_⟩
    · refine ⟨hkeep.tracks.now, hkeep.tracks.refreshedAt, fun topic ↦ ?_, hkeep.tracks.queue,
        hkeep.tracks.heard, hkeep.tracks.belief⟩
      have hfilter := map_expiresAt_filter (hkeep.tracks.held topic) link.now
      rw [← routeIn_gc link link.process.engine link.now topic] at hfilter
      refine hfilter.trans ?_
      rw [← hkeep.tracks.now]
      rfl
    · rw [hsame]
      exact hkeep.subscribed
    · rw [hsame]
      exact hkeep.complete
  | gcNeighbour =>
    have hsame := hkeep.fresh.expireBelief_eq
    refine exists_run_of_next .expireBelief trivial
      ⟨hkeep.sound.setNeighbour rfl hkeep.sound.neighbourKnowsKey (fun _ _ ↦ of_routeIn_gc)
        hkeep.sound.unseen, ?_, hkeep.fresh.next trivial, hkeep.subscribed, hkeep.complete⟩
    refine ⟨hkeep.tracks.now, hkeep.tracks.refreshedAt, hkeep.tracks.held, hkeep.tracks.queue,
      hkeep.tracks.heard, fun topic ↦ ?_⟩
    have hfilter := map_expiresAt_filter (hkeep.tracks.belief topic) link.now
    rw [← routeIn_gc link link.neighbour link.now topic] at hfilter
    refine hfilter.trans ?_
    rw [← hkeep.tracks.now]
    rfl
  | elapse duration =>
    have hallowed : mirror.Enabled timing (.elapse duration) := by
      refine ⟨?_, fun notice hnotice ↦ ?_⟩
      · rw [htiming, hkeep.tracks.now, hkeep.tracks.refreshedAt]
        exact henabled.1
      · rw [hkeep.tracks.queue] at hnotice
        obtain ⟨copy, hmem, rfl⟩ := List.mem_map.1 hnotice
        obtain ⟨_, _, _, hannounces, -⟩ := hkeep.sound.copies copy hmem
        rw [htiming, hkeep.tracks.now, show copy = (copy.1, copy.2) from rfl,
          notice_of_announces hannounces]
        exact henabled.2 copy hmem
    exact exists_run_of_next (.elapse duration) hallowed
      ⟨hkeep.sound.reset _ _ _, ⟨congrArg (· + duration) hkeep.tracks.now,
        hkeep.tracks.refreshedAt, hkeep.tracks.held, hkeep.tracks.queue, hkeep.tracks.heard,
        hkeep.tracks.belief⟩, hkeep.fresh.next hallowed, hkeep.subscribed, hkeep.complete⟩
  | other engine logicalClock =>
    obtain ⟨hlocal, hkey, hroutes⟩ := henabled
    have hpeer : (link.next platform (.other engine logicalClock)).localPeerId =
        link.localPeerId := hlocal
    refine exists_run_of_same ⟨hkeep.sound.setEngine logicalClock hlocal hkey
      fun topic route hroute ↦ hroutes topic ▸ hroute, ⟨hkeep.tracks.now, hkeep.tracks.refreshedAt,
        fun topic ↦ ?_, hkeep.tracks.queue, hkeep.tracks.heard, fun topic ↦ ?_⟩, hkeep.fresh,
      hkeep.subscribed, hkeep.complete⟩
    · rw [← hkeep.tracks.held topic, ← hroutes topic]
      unfold routeIn
      rw [hpeer]
      rfl
    · rw [← hkeep.tracks.belief topic]
      unfold routeIn
      rw [hpeer]
      rfl
  | otherNeighbour engine =>
    obtain ⟨hlocal, hkey, hroutes, hunseen⟩ := henabled
    refine exists_run_of_same ⟨hkeep.sound.setNeighbour hlocal hkey
      (fun topic route hroute ↦ hroutes topic ▸ hroute) hunseen, ⟨hkeep.tracks.now,
        hkeep.tracks.refreshedAt, hkeep.tracks.held, hkeep.tracks.queue, hkeep.tracks.heard,
        fun topic ↦ ?_⟩, hkeep.fresh, hkeep.subscribed, hkeep.complete⟩
    rw [← hkeep.tracks.belief topic, ← hroutes topic]
    rfl

/-! ## Every run -/

theorem simulates_of_initial (h : Initial platform link) :
    Simulates platform timing False link (.start link.now) where
  sound := sound_of_initial h
  tracks :=
    { now := rfl
      refreshedAt := h.refreshedAt.symm
      held := fun topic ↦ by rw [h.routes topic]; rfl
      queue := by rw [h.inFlight]; rfl
      heard := by rw [h.heard]; rfl
      belief := fun topic ↦ by rw [h.neighbourRoutes topic]; rfl }
  fresh := LeaseMirror.fresh_start link.now
  subscribed _ hheld := nomatch hheld
  complete hno := hno.elim

theorem exists_run_of_run {delay : ℕ} {hdelay : REFRESH_INTERVAL_MS + delay ≤ Config.ROUTE_LEASE_MS}
    {complete : Prop} {link' : Link} {events : List Event}
    (h : Simulates platform (leaseTiming delay hdelay) complete link mirror)
    (hrun : (system platform delay).GuardedRun Admitted link events link') :
    ∃ events' mirror', (LeaseMirror.system (leaseTiming delay hdelay)).Run mirror events' mirror' ∧
      Simulates platform (leaseTiming delay hdelay) complete link' mirror' := by
  refine hrun.simulates (fun before event after mirror hsimulates hadmitted hstep ↦ ?_) h
  obtain ⟨events', mirror', hrun', hsimulates'⟩ := hsimulates.next rfl hstep.1 hadmitted
  rw [hstep.2]
  exact ⟨events', mirror', hrun', hsimulates'.mono .inl⟩

theorem Simulates.leased_iff {complete : Prop}
    (h : Simulates platform timing complete link mirror) (topic : String) :
    link.Leased topic ↔ mirror.Believes topic := by
  have hbelief := h.tracks.belief topic
  unfold Leased LeaseMirror.Believes
  simp only [TopicRouter.leasedRouteOf_eq_some_iff]
  rw [h.tracks.now]
  constructor
  · rintro ⟨route, ⟨hroute, hlease⟩, -⟩
    rw [show link.routeIn link.neighbour topic = some route from hroute] at hbelief
    obtain ⟨expiry, hexpiry, heq⟩ := Option.map_eq_some_iff.1 hbelief.symm
    rw [← heq] at hlease
    exact ⟨expiry, hexpiry, WithTop.coe_le_coe.1 hlease⟩
  · rintro ⟨expiry, hexpiry, hlease⟩
    rw [hexpiry] at hbelief
    obtain ⟨route, hroute, heq⟩ := Option.map_eq_some_iff.1 hbelief
    refine ⟨route, ⟨hroute, ?_⟩, h.sound.nextHop topic route hroute⟩
    rw [heq]
    exact WithTop.coe_le_coe.2 hlease

/-- What the arrived copies say about a topic last. -/
def SaysJoined (link : Link) (topic : String) : Prop :=
  LeaseMirror.holdsAfter false (link.heard.map notice) topic = true

/-- No copy about the topic is under way. -/
def Settled (link : Link) (topic : String) : Prop :=
  LeaseMirror.about (link.inFlight.map notice) topic = []

/-- The topics of the constructor. -/
def initialSubscriptions (peerId : String) : OrderedMap String Unit :=
  ((∅ : OrderedMap String Unit).set "global" ()).set ("dm:" ++ peerId) ()

def exampleLink : Link where
  now := 1000
  refreshedAt := 1000
  process := Adverts.processNamed "alice" ["bob"] []
  localSubscriptions := initialSubscriptions "alice"
  connection := .outbound ⟨0, "bob", "bob", false⟩
  inFlight := []
  heard := []
  neighbour := .new "bob" (some (SecurityManager.init "bob" "key of bob"))
    Config.RATE_LIMIT_CAPACITY Config.RATE_LIMIT_REFILL_RATE
  neighbourPool := .new "bob"

def exampleStamps (topic : String) : Stamp :=
  ⟨if topic = "global" then "m945" else "m1887", "2024-01-01T00:00:00.000Z", fun _ ↦ 0⟩

/-- A refresh, both copies of which arrive half a second later. -/
def exampleEvents : List Event :=
  [.refreshSubscriptions exampleStamps, .elapse 500, .deliver fun _ ↦ 0, .deliver fun _ ↦ 0]

instance (link : Link) (id : String) : Decidable (link.Unused platform id) :=
  inferInstanceAs (Decidable (_ ∧ _ ∧ _ ∧ _))

theorem initial_exampleLink : Initial Pow.javaScript exampleLink where
  equipped :=
    { localPeerId := by decide
      verifies := fun fields ↦ by simp [Pow.javaScript, exampleLink, Adverts.processNamed]
      sign_ne := fun fields ↦ by simp [Pow.javaScript, Pow.tag]
      publicKey_ne := by decide
      pool := (ConnectionPool.honest_new "alice").connect 0 "bob" (by decide)
      connection := by decide
      neighbour := by decide }
  refreshedAt := rfl
  inFlight := rfl
  heard := rfl
  knowsKey publicKey hkey := by
    have hown : exampleLink.process.engine.boundKey exampleLink.localPeerId =
        some (some "key of alice") := by decide
    rw [hown] at hkey
    cases hkey
    rfl
  neighbourKnowsKey publicKey hkey := by
    have hnone : exampleLink.neighbour.boundKey exampleLink.localPeerId = some none := by decide
    rw [hnone] at hkey
    cases hkey
  routes _ := rfl
  neighbourRoutes _ := rfl

theorem guardedRun_example : (system Pow.javaScript 15000).GuardedRun Admitted exampleLink
    exampleEvents (exampleEvents.foldl (next Pow.javaScript) exampleLink) := by
  apply TransitionSystem.guardedRun_ofNext
  refine ⟨⟨?_, trivial⟩, ⟨?_, trivial⟩, ⟨trivial, ?_⟩, ⟨trivial, ?_⟩, trivial⟩
  · exact (by decide +kernel : (∀ topic ∈ exampleLink.localSubscriptions.keys,
      exampleLink.Unused Pow.javaScript (exampleStamps topic).id) ∧
        (exampleLink.localSubscriptions.keys.map fun topic ↦ (exampleStamps topic).id).Nodup)
  · unfold Enabled
    decide +kernel
  · exact (GossipEngine.checkLimit_fst ..).1 (by decide +kernel)
  · exact (GossipEngine.checkLimit_fst ..).1 (by decide +kernel)

end Link

end Subscriptions

end P2PApp
