import P2PApp.Network.Adverts

/-!
# The path of an advertisement

Every copy in flight carries the nodes it has been through, from its origin to the node that sent
it, and the hops that it may still take; every route that an advertisement has installed is the last
hop of such a path, read backwards. Nothing is assumed about the order of deliveries or about the
shape of the network, which may change all the time.
-/

namespace P2PApp.Adverts

open GossipEngine

def Flight.path (flight : Flight) : List String := flight.message.routingPath.getD []

/-- The path leads from the origin to the node that sent the copy, over hops between neighbours, and
goes with the hops that are left. -/
structure WellRouted (flight : Flight) : Prop where
  starts : flight.path.head? = some flight.message.sender
  ends : flight.path.getLast? = some flight.source
  nodup : flight.path.Nodup
  sources : flight.hops.map Hop.source = flight.path
  targets : flight.hops.map Hop.target = flight.path.tail ++ [flight.target]
  connected : ∀ hop ∈ flight.hops, hop.target ∈ hop.peerIds
  budget : flight.message.ttl + flight.path.length = Config.MAX_TTL
  alive : 1 ≤ flight.message.ttl

/-- The route of a node is the last hop of its path, which the node is not on. -/
structure PathVector (node : String) (route : Route String ℕ (List String)) : Prop where
  hopCount : route.hopCount = route.path.length
  nextHop : route.path.getLast? = some route.nextHop
  loopFree : node ∉ route.path

/-- The route to a neighbour that has shared its subscriptions. -/
structure Handshake (originPeerId : String) (route : Route String ℕ (List String)) : Prop where
  nextHop : route.nextHop = originPeerId
  hopCount : route.hopCount = 0
  sequenceNumber : route.sequenceNumber = 0
  path : route.path = []

/-- The same route, with another lease perhaps. -/
def Renews (route old : Route String ℕ (List String)) : Prop :=
  route = { old with expiresAt := route.expiresAt }

theorem Renews.refl (route : Route String ℕ (List String)) : Renews route route := rfl

theorem Renews.trans {third second first : Route String ℕ (List String)} (h : Renews third second)
    (h' : Renews second first) : Renews third first := by
  unfold Renews at *
  rw [h, h']

theorem PathVector.of_renews {node : String} {route old : Route String ℕ (List String)}
    (h : PathVector node old) (hrenews : Renews route old) : PathVector node route := by
  rw [hrenews]
  exact ⟨h.hopCount, h.nextHop, h.loopFree⟩

theorem Handshake.of_renews {originPeerId : String} {route old : Route String ℕ (List String)}
    (h : Handshake originPeerId old) (hrenews : Renews route old) :
    Handshake originPeerId route := by
  rw [hrenews]
  exact ⟨h.nextHop, h.hopCount, h.sequenceNumber, h.path⟩

/-! ## One advertisement at one node -/

section Router

variable {router : Router} {topic originPeerId : String}
  {route : Route String ℕ (List String)}

/-- After an update the table has the routes from before, with a new lease perhaps, and the one that
the update has installed. -/
theorem routeOf_updateRoute {topic' originPeerId' nextHop : String} {hopCount sequenceNumber : ℕ}
    {path : List String} {expiresAt : WithTop ℕ}
    (h : (router.updateRoute topic' originPeerId' nextHop hopCount sequenceNumber path
      expiresAt).2.routeOf topic originPeerId = some route) :
    (∃ old, router.routeOf topic originPeerId = some old ∧ Renews route old) ∨
      (topic = topic' ∧ originPeerId = originPeerId' ∧
        (router.updateRoute topic' originPeerId' nextHop hopCount sequenceNumber path
          expiresAt).1 = true ∧
        route = { nextHop, hopCount, sequenceNumber, path, expiresAt }) := by
  rcases router.updateRoute_cases topic' originPeerId' nextHop hopCount sequenceNumber path
    expiresAt with ⟨heq, _⟩ | ⟨existing, hexisting, _, _, _, heq⟩ | ⟨_, _, _, _, heq⟩ <;>
    rw [heq] at h ⊢
  · rw [TopicRouter.routeOf_setRoute] at h
    split at h
    · rename_i hsame
      cases h
      exact .inr ⟨hsame.1, hsame.2, rfl, rfl⟩
    · exact .inl ⟨route, h, .refl route⟩
  · rw [TopicRouter.routeOf_setRoute] at h
    split at h
    · rename_i hsame
      obtain ⟨rfl, rfl⟩ := hsame
      cases h
      exact .inl ⟨existing, hexisting, rfl⟩
    · exact .inl ⟨route, h, .refl route⟩
  · exact .inl ⟨route, h, .refl route⟩

theorem routeOf_of_prune {keep : String → Route String ℕ (List String) → Bool}
    (h : (router.prune keep).routeOf topic originPeerId = some route) :
    router.routeOf topic originPeerId = some route := by
  rw [TopicRouter.routeOf_prune] at h
  exact (Option.filter_eq_some_iff.1 h).1

theorem routeOf_of_removeRoute {topic' originPeerId' : String}
    (h : (router.removeRoute topic' originPeerId').2.routeOf topic originPeerId = some route) :
    router.routeOf topic originPeerId = some route := by
  rw [TopicRouter.routeOf_removeRoute] at h
  split at h
  · cases h
  · exact h

/-- The subscriptions of a neighbour leave the routes of others, and lead to the neighbour. -/
theorem routeOf_registerSubscriptions {peerId : String} {subscriptions : List String}
    {expiresAt : WithTop ℕ}
    (h : (subscriptions.foldl (fun router topic ↦
      (router.updateRoute topic peerId peerId 0 0 [] expiresAt).2) router).routeOf topic
        originPeerId = some route) :
    (∃ old, router.routeOf topic originPeerId = some old ∧ Renews route old) ∨
      (originPeerId = peerId ∧ Handshake peerId route) := by
  induction subscriptions generalizing router with
  | nil => exact .inl ⟨route, h, .refl route⟩
  | cons subscription subscriptions ih =>
    rw [List.foldl_cons] at h
    rcases ih h with ⟨middle, hmiddle, hrenews⟩ | hshared
    · rcases routeOf_updateRoute hmiddle with ⟨old, hold, hrenews'⟩ | ⟨_, rfl, _, heq⟩
      · exact .inl ⟨old, hold, hrenews.trans hrenews'⟩
      · refine .inr ⟨rfl, Handshake.of_renews ?_ hrenews⟩
        rw [heq]
        exact ⟨rfl, rfl, rfl, rfl⟩
    · exact .inr hshared

end Router

section Receive

variable {platform : Platform} {process : Process} {node : String} {message : P2PMessage}
  {fromPeerId : Option String} {hops : List Hop} {moment : Moment}

/-- What is installed is the route along the path of an admitted JOIN. -/
structure InstalledFrom (platform : Platform) (process : Process) (message : P2PMessage)
    (fromPeerId : Option String) (moment : Moment) (installed : Installed) : Prop where
  admits : Admits platform moment.now process.engine message fromPeerId installed.topic
    installed.route.sequenceNumber .join
  originPeerId : installed.originPeerId = message.sender
  nextHop : installed.route.nextHop = fromPeerId.getD process.engine.localPeerId
  hopCount : installed.route.hopCount = (message.routingPath.getD []).length
  path : installed.route.path = message.routingPath.getD []
  improves : ∀ existing,
    process.engine.topicRouter.routeOf installed.topic installed.originPeerId = some existing →
      TopicRouter.Improves installed.route.sequenceNumber installed.route.hopCount existing

/-- What an admitted JOIN that changes the table installs. -/
def installedOf (process : Process) (message : P2PMessage) (fromPeerId : Option String) (now : ℕ)
    (topic : String) (sequenceNumber : ℕ) : Installed where
  topic
  originPeerId := message.sender
  route :=
    { nextHop := fromPeerId.getD process.engine.localPeerId
      hopCount := (message.routingPath.getD []).length
      sequenceNumber
      path := message.routingPath.getD []
      expiresAt := WithTop.some (now + Config.ROUTE_LEASE_MS) }

theorem installedBy_of_admits {topic : String} {sequenceNumber : ℕ}
    (hadmits : Admits platform moment.now process.engine message fromPeerId topic sequenceNumber
      .join)
    (hchanged : (routeAdvert moment.now process.engine.topicRouter process.engine.localPeerId
      message topic sequenceNumber .join (message.routingPath.getD []) fromPeerId).1 = true) :
    process.installedBy platform message fromPeerId moment =
      some (installedOf process message fromPeerId moment.now topic sequenceNumber) := by
  have hrouter := topicRouter_receiveMessage process.pool moment.now moment.draws process.engine
    message fromPeerId platform hadmits.accepts hadmits.type hadmits.payload hadmits.loopFree
  have hfresh := (process.engine.screen_fresh_iff platform moment.now message fromPeerId).2
    hadmits.accepts
  simp only [Process.installedBy, hadmits.payload, hrouter, hadmits.type, hadmits.loopFree, hfresh,
    hchanged, not_false_eq_true, and_self, if_true]
  rcases process.engine.topicRouter.updateRoute_cases topic message.sender
    (fromPeerId.getD process.engine.localPeerId) (message.routingPath.getD []).length sequenceNumber
    (message.routingPath.getD []) (WithTop.some (moment.now + Config.ROUTE_LEASE_MS)) with
    ⟨heq, _⟩ | ⟨_, _, _, _, _, heq⟩ | ⟨_, _, _, _, heq⟩ <;>
    simp only [routeAdvert, heq, Bool.false_eq_true] at hchanged ⊢
  rw [TopicRouter.routeOf_setRoute_self]
  rfl

theorem installedFrom_of_installedBy {installed : Installed}
    (h : process.installedBy platform message fromPeerId moment = some installed) :
    InstalledFrom platform process message fromPeerId moment installed := by
  have hsome := h
  unfold Process.installedBy at hsome
  dsimp only at hsome
  split at hsome
  · rename_i topic sequenceNumber hpayload
    split at hsome
    · rename_i hcondition
      obtain ⟨htype, hloop, hfresh, hchanged⟩ := hcondition
      have hadmits : Admits platform moment.now process.engine message fromPeerId topic
          sequenceNumber .join :=
        ⟨htype, hpayload, (process.engine.screen_fresh_iff platform moment.now message
          fromPeerId).1 hfresh, hloop⟩
      rw [installedBy_of_admits hadmits hchanged] at h
      cases h
      refine ⟨hadmits, rfl, rfl, rfl, rfl, ?_⟩
      exact (process.engine.topicRouter.updateRoute_fst topic message.sender _ _ _ _ _).1 hchanged
    · cases hsome
  · cases hsome

theorem mem_installs_receive {installed : Installed} :
    installed ∈ (process.receive platform node message fromPeerId hops moment).1.installs ↔
      installed ∈ process.installs ∨
        process.installedBy platform message fromPeerId moment = some installed := by
  simp only [Process.receive, List.mem_append, Option.mem_toList]

/-- After an advertisement the table has the routes from before, with a new lease perhaps, and the
one that it has installed. -/
theorem routeOf_receive (htype : message.type = .subAd) {topic originPeerId : String}
    {route : Route String ℕ (List String)}
    (h : (process.receive platform node message fromPeerId hops
      moment).1.engine.topicRouter.routeOf topic originPeerId = some route) :
    (∃ old, process.engine.topicRouter.routeOf topic originPeerId = some old ∧ Renews route old) ∨
      process.installedBy platform message fromPeerId moment =
        some ⟨topic, originPeerId, route⟩ := by
  have hengine : (process.receive platform node message fromPeerId hops moment).1.engine =
      (process.engine.receiveMessage platform process.pool moment.now moment.draws message
        fromPeerId).1 := rfl
  rw [hengine] at h
  rcases process.engine.receiveMessage_subAd_cases platform process.pool moment.now moment.draws
    message fromPeerId htype with ⟨hsame, _⟩ | ⟨topic', sequenceNumber, action, hadmits, hrouter, _⟩
  · rw [hsame] at h
    exact .inl ⟨route, h, .refl route⟩
  · rw [hrouter] at h
    cases action with
    | join =>
      rcases routeOf_updateRoute h with hold | ⟨rfl, rfl, hchanged, rfl⟩
      · exact .inl hold
      · exact .inr (installedBy_of_admits hadmits hchanged)
    | leave => exact .inl ⟨route, routeOf_of_removeRoute h, .refl route⟩
    | other action => exact .inl ⟨route, h, .refl route⟩

/-- What a call hands to a connection has been relayed, and a JOIN has been installed. -/
theorem of_mem_flights (htype : message.type = .subAd) (hpool : process.pool.Honest)
    {flight : Flight}
    (h : flight ∈ (process.receive platform node message fromPeerId hops moment).2) :
    flight.source = node ∧ flight.target ∈ process.pool.getAllPeerIds ∧ flight.target ≠ "" ∧
      flight.hops = hops ++ [⟨node, flight.target, process.pool.getAllPeerIds⟩] ∧
      ∃ topic sequenceNumber action,
        Admits platform moment.now process.engine message fromPeerId topic sequenceNumber action ∧
        (∃ excludePeerIds, Relays process.pool message fromPeerId process.engine.localPeerId
          flight.message excludePeerIds) ∧
        (action = .join → process.installedBy platform message fromPeerId moment =
          some (installedOf process message fromPeerId moment.now topic sequenceNumber)) := by
  have hflights : (process.receive platform node message fromPeerId hops moment).2 =
      Process.flights node process.pool hops (process.engine.receiveMessage platform process.pool
        moment.now moment.draws message fromPeerId).2 := rfl
  rw [hflights] at h
  obtain ⟨effect, heffect, hflight⟩ := List.mem_flatMap.1 h
  cases effect with
  | messageNew announced => cases hflight
  | broadcast sent excludePeerIds =>
    obtain ⟨connection, hconnection, rfl⟩ := List.mem_map.1 hflight
    obtain ⟨hneighbour, _, hname⟩ := hpool.of_mem_broadcast hconnection
    refine ⟨rfl, hneighbour, hname, rfl, ?_⟩
    rcases process.engine.receiveMessage_subAd_cases platform process.pool moment.now moment.draws
      message fromPeerId htype with ⟨_, hnone⟩ | ⟨topic, sequenceNumber, action, hadmits, _, hsent⟩
    · exact absurd heffect (hnone sent excludePeerIds)
    · obtain ⟨hchanged, hrelays⟩ := hsent sent excludePeerIds heffect
      refine ⟨topic, sequenceNumber, action, hadmits, ⟨excludePeerIds, hrelays⟩, ?_⟩
      rintro rfl
      exact installedBy_of_admits hadmits hchanged

end Receive

/-! ## The invariant -/

/-- A message about to be handled, with the hops that have brought it here: none if it is a node's
own. -/
structure Arriving (node : String) (message : P2PMessage) (fromPeerId : Option String)
    (hops : List Hop) : Prop where
  type : message.type = .subAd
  fromPeerId : fromPeerId = (message.routingPath.getD []).getLast?
  starts : (message.routingPath.getD [] ++ [node]).head? = some message.sender
  nodup : (message.routingPath.getD []).Nodup
  sources : hops.map Hop.source = message.routingPath.getD []
  targets : hops.map Hop.target = (message.routingPath.getD [] ++ [node]).tail
  connected : ∀ hop ∈ hops, hop.target ∈ hop.peerIds
  budget : message.ttl + (message.routingPath.getD []).length = Config.MAX_TTL

/-- A copy in flight is an advertisement on its way between two nodes. -/
structure Travels (flight : Flight) : Prop where
  type : flight.message.type = .subAd
  source : flight.source ≠ ""
  target : flight.target ≠ ""
  wellRouted : WellRouted flight

/-- The node runs under its id with an honest pool; its routes come from handshakes and from
advertisements, and those from advertisements follow the paths. -/
structure Sound (node : String) (process : Process) : Prop where
  localPeerId : process.engine.localPeerId = node
  pool : process.pool.Honest
  installs : ∀ installed ∈ process.installs, installed.originPeerId ≠ node →
    PathVector node installed.route
  routes : ∀ topic originPeerId route,
    process.engine.topicRouter.routeOf topic originPeerId = some route →
      Handshake originPeerId route ∨ ∃ installed ∈ process.installs,
        installed.topic = topic ∧ installed.originPeerId = originPeerId ∧
        Renews route installed.route

structure Invariant (world : World) : Prop where
  processes : ∀ node, Sound node (world.process node)
  flights : ∀ flight ∈ world.inFlight, Travels flight

theorem Travels.arriving {flight : Flight} (h : Travels flight) :
    Arriving flight.target flight.message (truthy (some flight.source)) flight.hops where
  type := h.type
  fromPeerId := by
    rw [truthy_eq_some.2 ⟨rfl, h.source⟩]
    exact h.wellRouted.ends.symm
  starts := by
    rw [List.head?_append, ← h.wellRouted.starts]
    exact Option.or_eq_left_of_isSome (by rw [← Flight.path, h.wellRouted.starts]; rfl)
  nodup := h.wellRouted.nodup
  sources := h.wellRouted.sources
  targets := by
    rw [h.wellRouted.targets, List.tail_append_of_ne_nil]
    · rfl
    · intro hnil
      have hstarts := h.wellRouted.starts
      rw [Flight.path, hnil] at hstarts
      cases hstarts
  connected := h.wellRouted.connected
  budget := h.wellRouted.budget

section Arriving

variable {node : String} {message : P2PMessage} {fromPeerId : Option String} {hops : List Hop}

theorem Arriving.ne_nil (h : Arriving node message fromPeerId hops)
    (horigin : message.sender ≠ node) : message.routingPath.getD [] ≠ [] := by
  intro hnil
  have hstarts := h.starts
  rw [hnil] at hstarts
  exact horigin (Option.some.inj hstarts).symm

/-- A copy that a node passes on has one hop more. -/
theorem Arriving.wellRouted (h : Arriving node message fromPeerId hops) {pool : ConnectionPool}
    {flight : Flight} {excludePeerIds : List String}
    (hrelays : Relays pool message fromPeerId node flight.message excludePeerIds)
    (hloop : node ∉ message.routingPath.getD []) (hsource : flight.source = node)
    (htarget : flight.target ∈ pool.getAllPeerIds)
    (hhops : flight.hops = hops ++ [⟨node, flight.target, pool.getAllPeerIds⟩]) :
    WellRouted flight := by
  have hpath : flight.path = message.routingPath.getD [] ++ [node] := by
    rw [Flight.path, hrelays.sent_eq]
    rfl
  have hsender : flight.message.sender = message.sender := by rw [hrelays.sent_eq]
  have httl : flight.message.ttl = message.ttl - 1 := by rw [hrelays.sent_eq]
  refine ⟨?_, ?_, ?_, ?_, ?_, ?_, ?_, ?_⟩
  · rw [hpath, hsender, h.starts]
  · rw [hpath, hsource, List.getLast?_concat]
  · rw [hpath, List.nodup_append]
    refine ⟨h.nodup, List.nodup_singleton node, fun other hother last hlast heq ↦ ?_⟩
    rw [heq, List.mem_singleton.1 hlast] at hother
    exact hloop hother
  · rw [hhops, hpath, List.map_append, h.sources]
    rfl
  · rw [hhops, hpath, List.map_append, h.targets]
    rfl
  · intro hop hmem
    rw [hhops] at hmem
    rcases List.mem_append.1 hmem with hearlier | hlast
    · exact h.connected hop hearlier
    · cases List.mem_singleton.1 hlast
      exact htarget
  · have hbudget := h.budget
    rw [hpath, httl, List.length_append, List.length_singleton]
    push_cast
    omega
  · have halive := hrelays.alive
    rw [httl]
    omega

/-- What an advertisement of another node installs follows its path. -/
theorem Arriving.pathVector (h : Arriving node message fromPeerId hops) {platform : Platform}
    {process : Process} {moment : Moment} {installed : Installed}
    (hlocal : process.engine.localPeerId = node)
    (hinstalled : InstalledFrom platform process message fromPeerId moment installed)
    (horigin : installed.originPeerId ≠ node) : PathVector node installed.route := by
  have hne := h.ne_nil (hinstalled.originPeerId ▸ horigin)
  have hlast := List.getLast?_eq_some_getLast hne
  refine ⟨?_, ?_, ?_⟩
  · rw [hinstalled.hopCount, hinstalled.path]
  · rw [hinstalled.path, hinstalled.nextHop, h.fromPeerId, hlast]
    rfl
  · rw [hinstalled.path, ← hlocal]
    exact hinstalled.admits.loopFree

end Arriving

/-! ## Every event keeps the invariant -/

section Sound

variable {node : String} {process : Process}

/-- Replacing the table keeps a node sound if its routes are old ones or come from a handshake. -/
theorem Sound.setRouter (h : Sound node process) {topicRouter : Router}
    (hroutes : ∀ topic originPeerId route,
      topicRouter.routeOf topic originPeerId = some route →
        (∃ old, process.engine.topicRouter.routeOf topic originPeerId = some old ∧
          Renews route old) ∨ Handshake originPeerId route) :
    Sound node (process.setRouter topicRouter) where
  localPeerId := h.localPeerId
  pool := h.pool
  installs := h.installs
  routes topic originPeerId route hroute := by
    rcases hroutes topic originPeerId route hroute with ⟨old, hold, hrenews⟩ | hshared
    · rcases h.routes topic originPeerId old hold with
        hshared | ⟨installed, hmem, htopic, horigin, hrenews'⟩
      · exact .inl (hshared.of_renews hrenews)
      · exact .inr ⟨installed, hmem, htopic, horigin, hrenews.trans hrenews'⟩
    · exact .inl hshared

theorem Sound.prune (h : Sound node process)
    (keep : String → Route String ℕ (List String) → Bool) :
    Sound node (process.setRouter (process.engine.topicRouter.prune keep)) :=
  h.setRouter fun _ _ route hroute ↦ .inl ⟨route, routeOf_of_prune hroute, .refl route⟩

theorem Sound.setPool (h : Sound node process) {pool : ConnectionPool} (hpool : pool.Honest) :
    Sound node (process.setPool pool) where
  localPeerId := h.localPeerId
  pool := hpool
  installs := h.installs
  routes := h.routes

theorem Sound.registerSubscriptions (h : Sound node process) (peerId : String)
    (subscriptions : List String) (now : ℕ) :
    Sound node (process.registerSubscriptions peerId subscriptions now) := by
  refine h.setRouter fun topic originPeerId route hroute ↦ ?_
  rcases routeOf_registerSubscriptions hroute with hold | ⟨rfl, hshared⟩
  · exact .inl hold
  · exact .inr hshared

theorem Sound.other (h : Sound node process) {engine : GossipEngine}
    (hrouter : engine.topicRouter = process.engine.topicRouter)
    (hlocal : engine.localPeerId = process.engine.localPeerId) :
    Sound node { process with engine } where
  localPeerId := hlocal.trans h.localPeerId
  pool := h.pool
  installs := h.installs
  routes topic originPeerId route hroute := h.routes topic originPeerId route (hrouter ▸ hroute)

theorem Sound.receive (h : Sound node process) (platform : Platform) {message : P2PMessage}
    {fromPeerId : Option String} {hops : List Hop} (moment : Moment)
    (harriving : Arriving node message fromPeerId hops) :
    Sound node (process.receive platform node message fromPeerId hops moment).1 where
  localPeerId :=
    (localPeerId_receiveMessage process.pool moment.now moment.draws process.engine message
      fromPeerId platform).trans h.localPeerId
  pool := h.pool
  installs installed hmem horigin := by
    rcases mem_installs_receive.1 hmem with hold | hnew
    · exact h.installs installed hold horigin
    · exact harriving.pathVector h.localPeerId (installedFrom_of_installedBy hnew) horigin
  routes topic originPeerId route hroute := by
    rcases routeOf_receive harriving.type hroute with ⟨old, hold, hrenews⟩ | hnew
    · rcases h.routes topic originPeerId old hold with
        hshared | ⟨installed, hmem, htopic, horigin, hrenews'⟩
      · exact .inl (hshared.of_renews hrenews)
      · exact .inr ⟨installed, mem_installs_receive.2 (.inl hmem), htopic, horigin,
          hrenews.trans hrenews'⟩
    · exact .inr ⟨_, mem_installs_receive.2 (.inr hnew), rfl, rfl, .refl route⟩

theorem Sound.travels (h : Sound node process) {platform : Platform} {message : P2PMessage}
    {fromPeerId : Option String} {hops : List Hop} {moment : Moment}
    (harriving : Arriving node message fromPeerId hops) (hname : node ≠ "") {flight : Flight}
    (hflight : flight ∈ (process.receive platform node message fromPeerId hops moment).2) :
    Travels flight := by
  obtain ⟨hsource, hneighbour, htarget, hhops, topic, sequenceNumber, action, hadmits,
    ⟨excludePeerIds, hrelays⟩, _⟩ := of_mem_flights harriving.type h.pool hflight
  rw [h.localPeerId] at hrelays
  have hloop := hadmits.loopFree
  rw [h.localPeerId] at hloop
  refine ⟨?_, hsource ▸ hname, htarget, ?_⟩
  · rw [hrelays.sent_eq]
    exact harriving.type
  · exact harriving.wellRouted hrelays hloop hsource hneighbour hhops

theorem Sound.advertisement (h : Sound node process) (platform : Platform) (topic : String)
    (action : SubscriptionAction) (id createdAt : String) :
    Sound node (process.advertisement platform topic action id createdAt).2 ∧
      Arriving node (process.advertisement platform topic action id createdAt).1 none [] := by
  refine ⟨⟨h.localPeerId, h.pool, h.installs, h.routes⟩, rfl, rfl, ?_, List.nodup_nil, rfl, rfl,
    (fun hop hmem ↦ nomatch hmem), rfl⟩
  exact congrArg some h.localPeerId.symm

end Sound

section Invariant

variable {world : World} {node : String}

theorem Invariant.setProcess (h : Invariant world) {process : Process}
    (hprocess : Sound node process) : Invariant (world.setProcess node process) where
  processes := (Function.forall_update_iff world.process Sound).2
    ⟨hprocess, fun other _ ↦ h.processes other⟩
  flights := h.flights

theorem Invariant.erase (h : Invariant world) (flight : Flight) :
    Invariant { world with inFlight := world.inFlight.erase flight } where
  processes := h.processes
  flights other hmem := h.flights other (List.mem_of_mem_erase hmem)

theorem Invariant.receive (h : Invariant world) {platform : Platform} {message : P2PMessage}
    {fromPeerId : Option String} {hops : List Hop} {moment : Moment} (hname : node ≠ "")
    (harriving : Arriving node message fromPeerId hops) :
    Invariant (world.receive platform node message fromPeerId hops moment) := by
  have hset := h.setProcess ((h.processes node).receive platform moment harriving)
  refine ⟨hset.processes, fun flight hmem ↦ ?_⟩
  rcases List.mem_append.1 hmem with hold | hnew
  · exact h.flights flight hold
  · exact (h.processes node).travels harriving hname hnew

theorem Invariant.next (h : Invariant world) {platform : Platform} {event : Event}
    (henabled : world.Enabled event) : Invariant (world.next platform event) := by
  cases event with
  | advertise node topic action id createdAt moment =>
    obtain ⟨hprocess, harriving⟩ :=
      (h.processes node).advertisement platform topic action id createdAt
    exact (h.setProcess hprocess).receive henabled harriving
  | deliver flight moment =>
    have htravels := h.flights flight henabled
    exact (h.erase flight).receive htravels.target htravels.arriving
  | lose flight => exact h.erase flight
  | connect node clientId url peerId =>
    exact h.setProcess
      ((h.processes node).setPool ((h.processes node).pool.connect clientId url henabled))
  | accept node client subscriptions now =>
    exact h.setProcess (((h.processes node).setPool
      ((h.processes node).pool.addInboundConnection henabled)).registerSubscriptions _ _ _)
  | hello node peerId subscriptions now =>
    exact h.setProcess ((h.processes node).registerSubscriptions peerId subscriptions now)
  | close node peerId =>
    exact h.setProcess
      (((h.processes node).setPool ((h.processes node).pool.removeInbound peerId)).prune _)
  | disconnect node peerId =>
    exact h.setProcess
      (((h.processes node).setPool ((h.processes node).pool.removeOutbound peerId)).prune _)
  | gc node now => exact h.setProcess ((h.processes node).prune _)
  | other node engine => exact h.setProcess ((h.processes node).other henabled.1 henabled.2)

theorem World.Initial.invariant (h : world.Initial) : Invariant world where
  processes node :=
    { localPeerId := h.localPeerId node
      pool := h.pool node
      installs := by simp [h.installs node]
      routes topic originPeerId route hroute := by
        rw [h.topicRouter node] at hroute
        cases hroute }
  flights := by simp [h.inFlight]

end Invariant

/-- What holds of all copies in flight and of all routes. -/
structure World.FollowsPaths (world : World) : Prop where
  flights : ∀ flight ∈ world.inFlight, WellRouted flight
  installs : ∀ node, ∀ installed ∈ (world.process node).installs,
    installed.originPeerId ≠ node → PathVector node installed.route
  routes : ∀ node topic originPeerId route,
    (world.process node).engine.topicRouter.routeOf topic originPeerId = some route →
      originPeerId ≠ node → Handshake originPeerId route ∨
        (∃ installed ∈ (world.process node).installs, installed.topic = topic ∧
          installed.originPeerId = originPeerId ∧ Renews route installed.route) ∧
        PathVector node route

/-- The path-vector invariant of advertisements, in every state that a network can reach. -/
theorem followsPaths_of_run (platform : Platform) {initial world : World} {events : List Event}
    (hinitial : initial.Initial) (hrun : (World.system platform).Run initial events world) :
    world.FollowsPaths := by
  have hinvariant : Invariant world :=
    hrun.invariant_next (fun _ _ hbefore henabled ↦ hbefore.next henabled) hinitial.invariant
  refine ⟨fun flight hmem ↦ (hinvariant.flights flight hmem).wellRouted,
    fun node ↦ (hinvariant.processes node).installs,
    fun node topic originPeerId route hroute hne ↦ ?_⟩
  rcases (hinvariant.processes node).routes topic originPeerId route hroute with
    hshared | ⟨installed, hmem, htopic, horigin, hrenews⟩
  · exact .inl hshared
  · refine .inr ⟨⟨installed, hmem, htopic, horigin, hrenews⟩, ?_⟩
    exact ((hinvariant.processes node).installs installed hmem (horigin ▸ hne)).of_renews hrenews

theorem followsPaths_overtaken : (overtaken.foldl play circle).FollowsPaths := by
  obtain ⟨events, hrun⟩ := exists_run_of_meets (meets_fifo circle overtaken)
  exact followsPaths_of_run Pow.javaScript initial_circle hrun.run

end P2PApp.Adverts
