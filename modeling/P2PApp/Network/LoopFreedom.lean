import Mathlib.Data.Prod.Lex
import P2PApp.Library.Potential
import P2PApp.Network.PathVector

/-!
# Loops in the routing tables

The route of a node for a topic and an origin links it to its next hop. Along a link the sequence
number never falls, and where it stays the hop count does, provided that the next hop has never gone
back to an older advertisement. The table forgets the sequence number of a route with the route. So
an old JOIN that has been on its way for long enough is installed again after the route is cleared,
and may lead back.
-/

namespace P2PApp.Adverts

open GossipEngine

namespace World

/-- The node has a route through the other one. The entry of an origin for itself marks the end of
the routes, and is no link. -/
def Link (world : World) (topic originPeerId node nextHop : String) : Prop :=
  (∃ route, (world.process node).engine.topicRouter.routeOf topic originPeerId = some route ∧
    route.nextHop = nextHop) ∧ ¬(node = originPeerId ∧ nextHop = originPeerId)

/-- The links for a topic and an origin form no cycle. -/
def LoopFree (world : World) : Prop :=
  ∀ topic originPeerId node, ¬Relation.TransGen (world.Link topic originPeerId) node node

/-- A JOIN that is about to be installed is newer than all that the node has installed for the topic
and the origin. -/
def Forward (platform : Platform) (world : World) : Event → Prop
  | .deliver flight moment =>
    let process := world.process flight.target
    ∀ topic sequenceNumber,
      Admits platform moment.now process.engine flight.message (truthy (some flight.source)) topic
        sequenceNumber .join →
      (∀ existing,
        process.engine.topicRouter.routeOf topic flight.message.sender = some existing →
          TopicRouter.Improves sequenceNumber flight.path.length existing) →
      ∀ installed ∈ process.installs, installed.topic = topic →
        installed.originPeerId = flight.message.sender →
          installed.route.sequenceNumber < sequenceNumber
  | _ => True

end World

/-- The node is the origin, or has installed a route of this many hops with the sequence number, not
counting the node itself. -/
def Backed (world : World) (node topic originPeerId : String) (sequenceNumber hops : ℕ) : Prop :=
  node = originPeerId ∨ ∃ installed ∈ (world.process node).installs,
    installed.topic = topic ∧ installed.originPeerId = originPeerId ∧
    installed.route.sequenceNumber = sequenceNumber ∧ installed.route.hopCount + 1 = hops

/-- What a node sends on and where its routes lead has been installed there before, and the routes
of a node are the last that it has installed. -/
structure Ordered (world : World) : Prop where
  flights : ∀ flight ∈ world.inFlight, ∀ topic sequenceNumber,
    flight.message.payload = .subAd topic sequenceNumber .join →
      Backed world flight.source topic flight.message.sender sequenceNumber flight.path.length
  installs : ∀ node, ∀ installed ∈ (world.process node).installs, installed.originPeerId ≠ node →
    Backed world installed.route.nextHop installed.topic installed.originPeerId
      installed.route.sequenceNumber installed.route.hopCount
  own : ∀ node, ∀ installed ∈ (world.process node).installs, installed.originPeerId = node →
    installed.route.nextHop = node
  latest : ∀ node topic originPeerId route,
    (world.process node).engine.topicRouter.routeOf topic originPeerId = some route →
      originPeerId ≠ node → route.nextHop ≠ originPeerId →
        ∀ installed ∈ (world.process node).installs, installed.topic = topic →
          installed.originPeerId = originPeerId →
            installed.route.sequenceNumber < route.sequenceNumber ∨
              (installed.route.sequenceNumber = route.sequenceNumber ∧
                installed.route.hopCount = route.hopCount)

/-! ## No cycles among ordered routes -/

section Acyclic

variable {world : World} {topic originPeerId : String}

theorem nextHop_of_own (hinvariant : Invariant world) (hordered : Ordered world)
    {route : Route String ℕ (List String)}
    (hroute : (world.process originPeerId).engine.topicRouter.routeOf topic originPeerId =
      some route) : route.nextHop = originPeerId := by
  rcases (hinvariant.processes originPeerId).routes topic originPeerId route hroute with
    hshared | ⟨installed, hmem, _, horigin, hrenews⟩
  · exact hshared.nextHop
  · rw [hrenews]
    exact hordered.own originPeerId installed hmem horigin

/-- No link starts at the origin. -/
theorem ne_of_link (hinvariant : Invariant world) (hordered : Ordered world)
    {node nextHop : String} (hlink : world.Link topic originPeerId node nextHop) :
    originPeerId ≠ node := by
  rintro rfl
  obtain ⟨⟨route, hroute, rfl⟩, hproper⟩ := hlink
  exact hproper ⟨rfl, nextHop_of_own hinvariant hordered hroute⟩

/-- The sequence number of the route, and next to it the hop count, the other way round. -/
def potential (world : World) (topic originPeerId node : String) : ℕ ×ₗ ℕᵒᵈ :=
  match (world.process node).engine.topicRouter.routeOf topic originPeerId with
  | some route => toLex (route.sequenceNumber, OrderDual.toDual route.hopCount)
  | none => toLex (0, OrderDual.toDual 0)

theorem potential_lt (hinvariant : Invariant world) (hordered : Ordered world)
    {node nextHop : String}
    (hlink : LeadsOn (LeadsOn (world.Link topic originPeerId)) node nextHop) :
    potential world topic originPeerId node < potential world topic originPeerId nextHop := by
  obtain ⟨⟨hfirst, _⟩, last, hsecond, _, hthird⟩ := hlink
  have hnode := ne_of_link hinvariant hordered hfirst
  have hnext := ne_of_link hinvariant hordered hsecond
  have hlast := ne_of_link hinvariant hordered hthird
  obtain ⟨⟨route, hroute, rfl⟩, _⟩ := hfirst
  obtain ⟨⟨route', hroute', rfl⟩, _⟩ := hsecond
  -- The route of the first node does not come from a handshake, because it leads elsewhere.
  rcases (hinvariant.processes node).routes topic originPeerId route hroute with
    hshared | ⟨installed, hmem, htopic, horigin, hrenews⟩
  · exact absurd hshared.nextHop.symm hnext
  have hsequence : installed.route.sequenceNumber = route.sequenceNumber := by rw [hrenews]
  have hcount : installed.route.hopCount = route.hopCount := by rw [hrenews]
  have hhop : installed.route.nextHop = route.nextHop := by rw [hrenews]
  have hbacked := hordered.installs node installed hmem (horigin ▸ hnode)
  rw [htopic, horigin, hsequence, hcount, hhop] at hbacked
  rcases hbacked with heq | ⟨earlier, hearlier, htopic', horigin', hsequence', hcount'⟩
  · exact absurd heq.symm hnext
  have hlatest := hordered.latest route.nextHop topic originPeerId route' hroute' hnext hlast.symm
    earlier hearlier htopic' horigin'
  simp only [potential, hroute, hroute', Prod.Lex.toLex_lt_toLex, OrderDual.toDual_lt_toDual]
  omega

theorem loopFree_of_ordered (hinvariant : Invariant world) (hordered : Ordered world) :
    world.LoopFree :=
  fun _ _ ↦ acyclic_of_potential fun _ _ ↦ potential_lt hinvariant hordered

end Acyclic

/-! ## Every event keeps the order -/

section Ordered

variable {platform : Platform} {world after : World} {node : String}

theorem Backed.mono {node topic originPeerId : String} {sequenceNumber hops : ℕ}
    (h : Backed world node topic originPeerId sequenceNumber hops)
    (hinstalls : ∀ node, (world.process node).installs ⊆ (after.process node).installs) :
    Backed after node topic originPeerId sequenceNumber hops := by
  rcases h with heq | ⟨installed, hmem, hrest⟩
  · exact .inl heq
  · exact .inr ⟨installed, hinstalls node hmem, hrest⟩

/-- An event that installs nothing keeps the order if the routes are old ones or come from
handshakes, and nothing new is in flight. -/
theorem Ordered.of_installs (h : Ordered world)
    (hflights : ∀ flight ∈ after.inFlight, flight ∈ world.inFlight)
    (hinstalls : ∀ node, (after.process node).installs = (world.process node).installs)
    (hroutes : ∀ node topic originPeerId route,
      (after.process node).engine.topicRouter.routeOf topic originPeerId = some route →
        (∃ old, (world.process node).engine.topicRouter.routeOf topic originPeerId = some old ∧
          Renews route old) ∨ Handshake originPeerId route) : Ordered after where
  flights flight hmem topic sequenceNumber hpayload :=
    (h.flights flight (hflights flight hmem) topic sequenceNumber hpayload).mono
      fun node ↦ (hinstalls node).symm ▸ List.Subset.refl _
  installs node installed hmem horigin :=
    (h.installs node installed (hinstalls node ▸ hmem) horigin).mono
      fun node ↦ (hinstalls node).symm ▸ List.Subset.refl _
  own node installed hmem := h.own node installed (hinstalls node ▸ hmem)
  latest node topic originPeerId route hroute horigin hhop installed hmem := by
    rcases hroutes node topic originPeerId route hroute with ⟨old, hold, hrenews⟩ | hshared
    · rw [hrenews] at hhop ⊢
      exact h.latest node topic originPeerId old hold horigin hhop installed (hinstalls node ▸ hmem)
    · exact absurd hshared.nextHop hhop

theorem Ordered.setProcess (h : Ordered world) {process : Process}
    (hinstalls : process.installs = (world.process node).installs)
    (hroutes : ∀ topic originPeerId route,
      process.engine.topicRouter.routeOf topic originPeerId = some route →
        (∃ old, (world.process node).engine.topicRouter.routeOf topic originPeerId = some old ∧
          Renews route old) ∨ Handshake originPeerId route) :
    Ordered (world.setProcess node process) := by
  refine h.of_installs (fun _ hmem ↦ hmem) (fun other ↦ ?_)
    fun other topic originPeerId route hroute ↦ ?_
  · by_cases hother : other = node
    · subst hother
      simpa [World.setProcess] using hinstalls
    · simp [World.setProcess, hother]
  · by_cases hother : other = node
    · subst hother
      simp only [World.setProcess, Function.update_self] at hroute
      exact hroutes topic originPeerId route hroute
    · simp only [World.setProcess, Function.update_of_ne hother] at hroute
      exact .inl ⟨route, hroute, .refl route⟩

theorem Ordered.prune (h : Ordered world) (process : Process)
    (hinstalls : process.installs = (world.process node).installs)
    (hrouter : process.engine.topicRouter = (world.process node).engine.topicRouter)
    (keep : String → Route String ℕ (List String) → Bool) :
    Ordered (world.setProcess node
      (process.setRouter (process.engine.topicRouter.prune keep))) := by
  refine h.setProcess hinstalls fun topic originPeerId route hroute ↦ .inl ⟨route, ?_, .refl route⟩
  rw [← hrouter]
  exact routeOf_of_prune hroute

theorem Ordered.registerSubscriptions (h : Ordered world) (process : Process)
    (hinstalls : process.installs = (world.process node).installs)
    (hrouter : process.engine.topicRouter = (world.process node).engine.topicRouter)
    (peerId : String) (subscriptions : List String) (now : ℕ) :
    Ordered (world.setProcess node
      (process.registerSubscriptions peerId subscriptions now)) := by
  refine h.setProcess hinstalls fun topic originPeerId route hroute ↦ ?_
  rw [← hrouter]
  rcases routeOf_registerSubscriptions hroute with hold | ⟨rfl, hshared⟩
  · exact .inl hold
  · exact .inr hshared

theorem Ordered.erase (h : Ordered world) (flight : Flight) :
    Ordered { world with inFlight := world.inFlight.erase flight } :=
  h.of_installs (fun _ hmem ↦ List.mem_of_mem_erase hmem) (fun _ ↦ rfl)
    fun _ _ _ route hroute ↦ .inl ⟨route, hroute, .refl route⟩

/-- What a call installs is what the table has afterwards. -/
theorem routeOf_of_installedBy (node : String) (hops : List Hop) {process : Process}
    {message : P2PMessage} {fromPeerId : Option String} {moment : Moment} {installed : Installed}
    (h : process.installedBy platform message fromPeerId moment = some installed) :
    (process.receive platform node message fromPeerId hops moment).1.engine.topicRouter.routeOf
      installed.topic installed.originPeerId = some installed.route := by
  unfold Process.installedBy at h
  dsimp only at h
  split at h
  · split at h
    · obtain ⟨route, hroute, rfl⟩ := Option.map_eq_some_iff.1 h
      exact hroute
    · cases h
  · cases h

section Receive

variable {message : P2PMessage} {fromPeerId : Option String} {hops : List Hop} {moment : Moment}

theorem process_receive_self :
    (world.receive platform node message fromPeerId hops moment).process node =
      ((world.process node).receive platform node message fromPeerId hops moment).1 :=
  Function.update_self ..

theorem process_receive_of_ne {other : String} (hother : other ≠ node) :
    (world.receive platform node message fromPeerId hops moment).process other =
      world.process other :=
  Function.update_of_ne hother ..

theorem installs_receive_subset (other : String) :
    (world.process other).installs ⊆
      ((world.receive platform node message fromPeerId hops moment).process other).installs := by
  by_cases hother : other = node
  · subst hother
    rw [process_receive_self]
    exact fun installed hmem ↦ mem_installs_receive.2 (.inl hmem)
  · rw [process_receive_of_ne hother]
    exact List.Subset.refl _

/-- The advertisement has been installed at the node that it comes from. -/
def Sent (world : World) (message : P2PMessage) (fromPeerId : Option String) : Prop :=
  ∀ source, fromPeerId = some source → ∀ topic sequenceNumber,
    message.payload = .subAd topic sequenceNumber .join →
      Backed world source topic message.sender sequenceNumber
        (message.routingPath.getD []).length

theorem backed_of_mem_flights (hinvariant : Invariant world)
    (harriving : Arriving node message fromPeerId hops) {flight : Flight}
    (hmem : flight ∈
      ((world.process node).receive platform node message fromPeerId hops moment).2)
    {topic : String} {sequenceNumber : ℕ}
    (hpayload : flight.message.payload = .subAd topic sequenceNumber .join) :
    Backed (world.receive platform node message fromPeerId hops moment) flight.source topic
      flight.message.sender sequenceNumber flight.path.length := by
  obtain ⟨hsource, _, _, _, topic', sequenceNumber', action, hadmits, ⟨_, hrelays⟩, hinstalled⟩ :=
    of_mem_flights harriving.type (hinvariant.processes node).pool hmem
  have hsame : flight.message.payload = message.payload := by rw [hrelays.sent_eq]
  have hsender : flight.message.sender = message.sender := by rw [hrelays.sent_eq]
  have hpath : flight.path.length = (message.routingPath.getD []).length + 1 := by
    calc flight.path.length
        = (message.routingPath.getD [] ++ [(world.process node).engine.localPeerId]).length := by
          rw [Flight.path, hrelays.sent_eq]
          rfl
      _ = (message.routingPath.getD []).length + 1 := List.length_append
  rw [hsame, hadmits.payload] at hpayload
  cases hpayload
  refine .inr ⟨installedOf (world.process node) message fromPeerId moment.now topic sequenceNumber,
    ?_, rfl, hsender.symm, rfl, hpath.symm⟩
  rw [hsource, process_receive_self]
  exact mem_installs_receive.2 (.inr (hinstalled rfl))

/-- An advertisement of another node comes from a neighbour. -/
theorem Arriving.exists_source (h : Arriving node message fromPeerId hops)
    (horigin : message.sender ≠ node) : ∃ source, fromPeerId = some source := by
  rw [h.fromPeerId]
  exact ⟨_, List.getLast?_eq_some_getLast (h.ne_nil horigin)⟩

/-- An advertisement that comes back to its origin is not installed there. -/
theorem Arriving.nil_of_own (h : Arriving node message fromPeerId hops)
    (horigin : message.sender = node) (hloop : node ∉ message.routingPath.getD []) :
    message.routingPath.getD [] = [] := by
  cases hpath : message.routingPath.getD [] with
  | nil => rfl
  | cons first rest =>
    have hstarts := h.starts
    rw [hpath, horigin] at hstarts
    rw [hpath, ← Option.some.inj hstarts] at hloop
    exact absurd List.mem_cons_self hloop

theorem Ordered.installs_receive (h : Ordered world)
    (harriving : Arriving node message fromPeerId hops)
    (hsent : Sent world message fromPeerId) {installed : Installed}
    (hmem : installed ∈
      ((world.process node).receive platform node message fromPeerId hops moment).1.installs)
    (horigin : installed.originPeerId ≠ node) :
    Backed (world.receive platform node message fromPeerId hops moment) installed.route.nextHop
      installed.topic installed.originPeerId installed.route.sequenceNumber
      installed.route.hopCount := by
  rcases mem_installs_receive.1 hmem with hold | hnew
  · exact (h.installs node installed hold horigin).mono installs_receive_subset
  · have hfrom := installedFrom_of_installedBy hnew
    obtain ⟨source, hsource⟩ := harriving.exists_source (hfrom.originPeerId ▸ horigin)
    have hbacked := hsent source hsource _ _ hfrom.admits.payload
    rw [hfrom.originPeerId, hfrom.nextHop, hfrom.hopCount, hsource]
    exact hbacked.mono installs_receive_subset

theorem Ordered.own_receive (h : Ordered world) (hinvariant : Invariant world)
    (harriving : Arriving node message fromPeerId hops) {installed : Installed}
    (hmem : installed ∈
      ((world.process node).receive platform node message fromPeerId hops moment).1.installs)
    (horigin : installed.originPeerId = node) : installed.route.nextHop = node := by
  rcases mem_installs_receive.1 hmem with hold | hnew
  · exact h.own node installed hold horigin
  · have hfrom := installedFrom_of_installedBy hnew
    have hlocal := (hinvariant.processes node).localPeerId
    have hnil := harriving.nil_of_own (hfrom.originPeerId ▸ horigin)
      (hlocal ▸ hfrom.admits.loopFree)
    calc installed.route.nextHop
        = fromPeerId.getD (world.process node).engine.localPeerId := hfrom.nextHop
      _ = (List.getLast? []).getD node := by rw [harriving.fromPeerId, hnil, hlocal]
      _ = node := rfl

/-- The message installs nothing older than what the node has installed before. -/
def GoesForward (platform : Platform) (process : Process) (node : String) (message : P2PMessage)
    (fromPeerId : Option String) (moment : Moment) : Prop :=
  ∀ installed, process.installedBy platform message fromPeerId moment = some installed →
    installed.originPeerId ≠ node → ∀ earlier ∈ process.installs,
      earlier.topic = installed.topic → earlier.originPeerId = installed.originPeerId →
        earlier.route.sequenceNumber < installed.route.sequenceNumber

/-- The routes of the node are the last ones installed, whether or not the call installs one. -/
theorem Ordered.latest_receive (h : Ordered world)
    (harriving : Arriving node message fromPeerId hops)
    (hforward : GoesForward platform (world.process node) node message fromPeerId moment)
    {topic originPeerId : String} {route : Route String ℕ (List String)}
    (hroute : ((world.process node).receive platform node message fromPeerId hops
      moment).1.engine.topicRouter.routeOf topic originPeerId = some route)
    (horigin : originPeerId ≠ node) (hhop : route.nextHop ≠ originPeerId) {installed : Installed}
    (hmem : installed ∈
      ((world.process node).receive platform node message fromPeerId hops moment).1.installs)
    (htopic : installed.topic = topic) (hinstalled : installed.originPeerId = originPeerId) :
    installed.route.sequenceNumber < route.sequenceNumber ∨
      (installed.route.sequenceNumber = route.sequenceNumber ∧
        installed.route.hopCount = route.hopCount) := by
  rw [mem_installs_receive] at hmem
  by_cases hnew : ∃ new,
      (world.process node).installedBy platform message fromPeerId moment = some new ∧
        new.topic = topic ∧ new.originPeerId = originPeerId
  · obtain ⟨new, hnew, rfl, rfl⟩ := hnew
    rw [routeOf_of_installedBy node hops hnew] at hroute
    cases hroute
    rcases hmem with hold | hsame
    · exact .inl (hforward new hnew horigin installed hold htopic hinstalled)
    · rw [hnew] at hsame
      cases hsame
      exact .inr ⟨rfl, rfl⟩
  · rcases routeOf_receive harriving.type hroute with ⟨old, hold, hrenews⟩ | hinstalledBy
    · rcases hmem with hearlier | hsame
      · rw [hrenews] at hhop ⊢
        exact h.latest node topic originPeerId old hold horigin hhop installed hearlier htopic
          hinstalled
      · exact absurd ⟨installed, hsame, htopic, hinstalled⟩ hnew
    · exact absurd ⟨_, hinstalledBy, rfl, rfl⟩ hnew

theorem Ordered.receive (h : Ordered world) (hinvariant : Invariant world)
    (harriving : Arriving node message fromPeerId hops) (hsent : Sent world message fromPeerId)
    (hforward : GoesForward platform (world.process node) node message fromPeerId moment) :
    Ordered (world.receive platform node message fromPeerId hops moment) where
  flights flight hmem topic sequenceNumber hpayload := by
    rcases List.mem_append.1 hmem with hold | hnew
    · exact (h.flights flight hold topic sequenceNumber hpayload).mono installs_receive_subset
    · exact backed_of_mem_flights hinvariant harriving hnew hpayload
  installs other installed := by
    by_cases hother : other = node
    · subst hother
      rw [process_receive_self]
      exact h.installs_receive harriving hsent
    · rw [process_receive_of_ne hother]
      exact fun hmem horigin ↦
        (h.installs other installed hmem horigin).mono installs_receive_subset
  own other installed := by
    by_cases hother : other = node
    · subst hother
      rw [process_receive_self]
      exact h.own_receive hinvariant harriving
    · rw [process_receive_of_ne hother]
      exact h.own other installed
  latest other topic originPeerId route := by
    by_cases hother : other = node
    · subst hother
      rw [process_receive_self]
      exact fun hroute horigin hhop installed ↦
        h.latest_receive harriving hforward hroute horigin hhop
    · rw [process_receive_of_ne hother]
      exact h.latest other topic originPeerId route

end Receive

theorem Ordered.next (h : Ordered world) (hinvariant : Invariant world) {event : Event}
    (henabled : world.Enabled event) (hforward : world.Forward platform event) :
    Ordered (world.next platform event) := by
  cases event with
  | advertise node topic action id createdAt moment =>
    obtain ⟨hprocess, harriving⟩ :=
      (hinvariant.processes node).advertisement platform topic action id createdAt
    have hset : Ordered (world.setProcess node
        ((world.process node).advertisement platform topic action id createdAt).2) :=
      h.setProcess rfl fun _ _ route hroute ↦ .inl ⟨route, hroute, .refl route⟩
    refine hset.receive (hinvariant.setProcess hprocess) harriving
      (fun _ hsource ↦ nomatch hsource) fun installed hinstalled horigin ↦ ?_
    -- A node's own advertisement names the node as its origin.
    have hsender := (installedFrom_of_installedBy hinstalled).originPeerId
    exact absurd (hsender.trans (hinvariant.processes node).localPeerId) horigin
  | deliver flight moment =>
    have htravels := hinvariant.flights flight henabled
    refine (h.erase flight).receive (hinvariant.erase flight) htravels.arriving
      (fun source hsource topic sequenceNumber hpayload ↦ ?_)
      fun installed hinstalled _ earlier hearlier htopic horigin ↦ ?_
    · obtain ⟨hsame, _⟩ := truthy_eq_some.1 hsource
      cases hsame
      exact (h.flights flight henabled topic sequenceNumber hpayload).mono
        fun _ ↦ List.Subset.refl _
    · have hfrom := installedFrom_of_installedBy hinstalled
      have himproves := hfrom.improves
      rw [hfrom.originPeerId, hfrom.hopCount] at himproves
      exact hforward _ _ hfrom.admits himproves earlier hearlier htopic
        (horigin.trans hfrom.originPeerId)
  | lose flight => exact h.erase flight
  | connect node clientId url peerId =>
    exact h.setProcess rfl fun _ _ route hroute ↦ .inl ⟨route, hroute, .refl route⟩
  | accept node client subscriptions now =>
    exact h.registerSubscriptions ((world.process node).setPool
      ((world.process node).pool.addInboundConnection client)) rfl rfl _ _ _
  | hello node peerId subscriptions now =>
    exact h.registerSubscriptions (world.process node) rfl rfl _ _ _
  | close node peerId =>
    exact h.prune ((world.process node).setPool
      ((world.process node).pool.removeInbound peerId)) rfl rfl _
  | disconnect node peerId =>
    exact h.prune ((world.process node).setPool
      ((world.process node).pool.removeOutbound peerId)) rfl rfl _
  | gc node now => exact h.prune (world.process node) rfl rfl _
  | other node engine =>
    refine h.setProcess rfl fun topic originPeerId route hroute ↦ .inl ⟨route, ?_, .refl route⟩
    rw [← henabled.1]
    exact hroute

end Ordered

theorem World.Initial.ordered {world : World} (h : world.Initial) : Ordered world where
  flights := by simp [h.inFlight]
  installs := by simp [h.installs]
  own := by simp [h.installs]
  latest := by simp [h.installs]

/-- There are no loops as long as no node goes back to an older JOIN than it has installed. -/
theorem loopFree_of_forward (platform : Platform) {initial world : World} {events : List Event}
    (hinitial : initial.Initial)
    (hrun : (World.system platform).GuardedRun (World.Forward platform) initial events world) :
    world.LoopFree := by
  have hkeeps : ∀ before event, Invariant before ∧ Ordered before →
      World.Forward platform before event → before.Enabled event →
        Invariant (before.next platform event) ∧ Ordered (before.next platform event) := by
    rintro before event ⟨hinvariant, hordered⟩ hforward henabled
    exact ⟨hinvariant.next henabled, hordered.next hinvariant henabled hforward⟩
  obtain ⟨hinvariant, hordered⟩ :=
    hrun.invariant_next hkeeps ⟨hinitial.invariant, hinitial.ordered⟩
  exact loopFree_of_ordered hinvariant hordered

/-- A node that has installed nothing cannot go back. -/
theorem forward_of_installs_nil (platform : Platform) {world : World} {flight : Flight}
    (moment : Moment) (h : (world.process flight.target).installs = []) :
    world.Forward platform (.deliver flight moment) := by
  intro topic sequenceNumber _ _ installed hmem
  rw [h] at hmem
  cases hmem

theorem forward_of_pass {world : World} {source target : String} {event : Event}
    (h : (world.process target).installs = [])
    (hevent : Scene.event world (.pass source target) = some event) :
    world.Forward Pow.javaScript event := by
  obtain ⟨flight, hfound, rfl⟩ := Option.map_eq_some_iff.1 hevent
  have hends := List.find?_some hfound
  simp only [decide_eq_true_eq] at hends
  exact forward_of_installs_nil _ _ (hends.2 ▸ h)

/-- The first copy that arrives. -/
theorem loopFree_firstHop : ([.join "m945", .pass "o" "y"].foldl play circle).LoopFree := by
  have hmeets : Meets (World.Forward Pow.javaScript) circle [.join "m945", .pass "o" "y"] := by
    refine ⟨fun event hevent ↦ ?_, fun event hevent ↦ forward_of_pass ?_ hevent, trivial⟩
    · cases hevent
      trivial
    · decide +kernel
  obtain ⟨events, hrun⟩ := exists_run_of_meets hmeets
  exact loopFree_of_forward Pow.javaScript initial_circle hrun

/-- Whatever happens, there are no loops. -/
def StaysLoopFree (platform : Platform) : Prop :=
  ∀ initial world events, initial.Initial →
    (World.system platform).GuardedRun World.Fifo initial events world → world.LoopFree

/-- The route of a node in the example. -/
def nextHopOf (world : World) (node : String) : Option String :=
  ((world.process node).engine.topicRouter.routeOf "news" "o").map Route.nextHop

theorem link_of_nextHopOf {world : World} {node nextHop : String}
    (h : nextHopOf world node = some nextHop) (hnode : node ≠ "o") :
    world.Link "news" "o" node nextHop :=
  ⟨Option.map_eq_some_iff.1 h, fun hown ↦ hnode hown.1⟩

/-- After the scenes `a` and `b` lead to each other. -/
theorem not_staysLoopFree_overtaken : ¬StaysLoopFree Pow.javaScript := by
  intro h
  obtain ⟨events, hrun⟩ := exists_run_of_meets (meets_fifo circle overtaken)
  have hthere : nextHopOf (overtaken.foldl play circle) "a" = some "b" := by decide +kernel
  have hback : nextHopOf (overtaken.foldl play circle) "b" = some "a" := by decide +kernel
  refine h circle _ events initial_circle hrun "news" "o" "a" ?_
  exact .tail (.single (link_of_nextHopOf hthere (by decide)))
    (link_of_nextHopOf hback (by decide))

end P2PApp.Adverts
