import P2PApp.Library.NumberedLease
import P2PApp.Protocol.Advertisement
import P2PApp.Protocol.RefreshBursts
import P2PApp.Protocol.Relay
import P2PApp.Protocol.SoftState

/-!
# Routes after a restart

A node that restarts counts its advertisements from one again, and a node that still has a route
towards it takes them for old ones. Nothing but time removes such a route: its lease has to run out
and the collection has to come by. From then on the next advertisement is accepted, and every one
after it. So whatever route a node has at first, it has the latest one soon after.
-/

namespace P2PApp

def GC_INTERVAL_MS : ℕ := 5000

/-- A node that hears the advertisements of some origin for some topic, with the times of the last
collection and of the last advertisement, and number and next hop of the latter. -/
structure Listener where
  now : ℕ
  collectedAt : ℕ
  heardAt : ℕ
  latest : Option (ℕ × String)
  engine : GossipEngine

namespace Listener

open GossipEngine (Admits)

inductive Event
  | advert (sequenceNumber : ℕ) (message : P2PMessage) (fromPeerId : Option String)
      (pool : ConnectionPool) (draws : ℕ → ℕ)
  /-- The collection timer. -/
  | gc
  | elapse (duration : ℕ)
  /-- Whatever else the node does. -/
  | other (engine : GossipEngine)

variable (platform : Platform) (topic originPeerId : String)

def routeOf (listener : Listener) : Option (Route String ℕ (List String)) :=
  listener.engine.topicRouter.routeOf topic originPeerId

def next (listener : Listener) : Event → Listener
  | .advert sequenceNumber message fromPeerId pool draws =>
    { listener with
      heardAt := listener.now
      latest := some (sequenceNumber, fromPeerId.getD listener.engine.localPeerId)
      engine := (listener.engine.receiveMessage platform pool listener.now draws message
        fromPeerId).1 }
  | .gc =>
    { listener with
      collectedAt := listener.now
      engine := { listener.engine with
        topicRouter := listener.engine.topicRouter.gc listener.now } }
  | .elapse duration => { listener with now := listener.now + duration }
  | .other engine => { listener with engine }

/-- The numbers increase from one advertisement to the next, which comes at most `jitter` late, and
nothing else touches the route towards the origin. -/
def Enabled (jitter : ℕ) (listener : Listener) : Event → Prop
  | .advert sequenceNumber message fromPeerId _ _ =>
    message.sender = originPeerId ∧
      Admits platform listener.now listener.engine message fromPeerId topic sequenceNumber .join ∧
      ∀ latest ∈ listener.latest, latest.1 < sequenceNumber
  | .gc => True
  | .elapse duration =>
    listener.now + duration ≤ listener.collectedAt + GC_INTERVAL_MS ∧
      listener.now + duration ≤ listener.heardAt + (REFRESH_INTERVAL_MS + jitter)
  | .other engine =>
    engine.topicRouter.routeOf topic originPeerId = listener.routeOf topic originPeerId

def system (jitter : ℕ) : TransitionSystem Listener Event :=
  .ofNext (Enabled platform topic originPeerId jitter) (next platform)

/-- No advertisement has come since the restart, and the old route, if there is one, lasts at most
until `horizon`. -/
structure Restarted (jitter horizon : ℕ) (listener : Listener) : Prop where
  collectedAt : listener.collectedAt ≤ listener.now
  heardAt : listener.heardAt ≤ listener.now
  collects : listener.now ≤ listener.collectedAt + GC_INTERVAL_MS
  hears : listener.now ≤ listener.heardAt + (REFRESH_INTERVAL_MS + jitter)
  now : listener.now ≤ horizon
  latest : listener.latest = none
  expiresAt : ∀ route ∈ listener.routeOf topic originPeerId,
    route.expiresAt ≤ WithTop.some horizon

/-! ## The route as a numbered lease -/

def entryOf (route : Route String ℕ (List String)) : NumberedEntry String where
  number := route.sequenceNumber
  source := route.nextHop
  expiry := route.expiresAt

def toLease (listener : Listener) : NumberedLease String where
  now := listener.now
  sweptAt := listener.collectedAt
  heardAt := listener.heardAt
  latest := listener.latest
  entry := (listener.routeOf topic originPeerId).map entryOf

def timing {jitter : ℕ} (h : REFRESH_INTERVAL_MS + jitter ≤ Config.ROUTE_LEASE_MS) :
    NumberedTiming where
  lease := Config.ROUTE_LEASE_MS
  sweep := GC_INTERVAL_MS
  period := REFRESH_INTERVAL_MS + jitter
  covers := h

variable {platform topic originPeerId}

/-- An update of the router does to the route what a notice may do. -/
theorem hears_updateRoute (router : Router) (nextHop : String) (hopCount sequenceNumber : ℕ)
    (path : List String) (expiresAt : WithTop ℕ) :
    NumberedLease.Hears sequenceNumber nextHop expiresAt
      ((router.routeOf topic originPeerId).map entryOf)
      (((router.updateRoute topic originPeerId nextHop hopCount sequenceNumber path
        expiresAt).2.routeOf topic originPeerId).map entryOf) := by
  rcases router.updateRoute_cases topic originPeerId nextHop hopCount sequenceNumber path expiresAt
    with ⟨heq, himproves⟩ | ⟨existing, hroute, hworse, hlt, hnext, heq⟩ |
      ⟨existing, hroute, hworse, _, heq⟩
  · rw [heq, TopicRouter.routeOf_setRoute_self]
    apply NumberedLease.Hears.install
    intro old hold
    obtain ⟨route, hroute, rfl⟩ := Option.map_eq_some_iff.1 hold
    have hnotLess := (himproves route hroute).1
    rw [SequenceNumber.lt_nat, decide_eq_false_iff_not, not_lt] at hnotLess
    exact hnotLess
  · have hnumber : existing.sequenceNumber = sequenceNumber := by
      simp only [TopicRouter.Improves, SequenceNumber.lt_nat, SequenceNumber.same_nat,
        decide_eq_false_iff_not] at hworse hlt
      omega
    rw [heq, TopicRouter.routeOf_setRoute_self, hroute, hnext, ← hnumber]
    exact NumberedLease.Hears.renew rfl rfl
  · have hnumber : sequenceNumber ≤ existing.sequenceNumber := by
      simp only [TopicRouter.Improves, SequenceNumber.lt_nat, SequenceNumber.same_nat,
        decide_eq_false_iff_not] at hworse
      omega
    rw [heq, hroute]
    exact NumberedLease.Hears.ignore hnumber

/-- Every step is one of the lease, or none. -/
theorem exists_run_of_enabled {jitter : ℕ} (hjitter : REFRESH_INTERVAL_MS + jitter ≤
    Config.ROUTE_LEASE_MS) {listener : Listener} {event : Event}
    (henabled : Enabled platform topic originPeerId jitter listener event) :
    ∃ events, (NumberedLease.system (timing hjitter)).Run (listener.toLease topic originPeerId)
      events ((listener.next platform event).toLease topic originPeerId) := by
  have hone (abstract : NumberedLease.Event String)
      (hstep : (NumberedLease.system (timing hjitter)).step (listener.toLease topic originPeerId)
        abstract ((listener.next platform event).toLease topic originPeerId)) :
      ∃ events, (NumberedLease.system (timing hjitter)).Run (listener.toLease topic originPeerId)
        events ((listener.next platform event).toLease topic originPeerId) :=
    ⟨[] ++ [abstract], .snoc (.nil _) hstep⟩
  cases event with
  | advert sequenceNumber message fromPeerId pool draws =>
    obtain ⟨hsender, hadmits, hnewer⟩ := henabled
    apply hone (.hear sequenceNumber (fromPeerId.getD listener.engine.localPeerId))
    refine ⟨hnewer, _, ?_, rfl⟩
    dsimp only [next, toLease, routeOf]
    rw [GossipEngine.topicRouter_receiveMessage pool listener.now draws listener.engine message
      fromPeerId platform hadmits.accepts hadmits.type hadmits.payload hadmits.loopFree,
      GossipEngine.routeAdvert, hsender]
    exact hears_updateRoute ..
  | gc =>
    apply hone .sweep
    have hentry : ((listener.next platform .gc).routeOf topic originPeerId).map entryOf =
        ((listener.routeOf topic originPeerId).map entryOf).filter fun entry ↦
          WithTop.some listener.now ≤ entry.expiry := by
      rw [routeOf, next, TopicRouter.routeOf_gc, Option.filter_map]
      rfl
    exact congrArg (NumberedLease.mk listener.now listener.now listener.heardAt listener.latest)
      hentry
  | elapse duration =>
    exact hone (.elapse duration) ⟨henabled.1, henabled.2, rfl⟩
  | other engine =>
    have hsame : (listener.next platform (.other engine)).toLease topic originPeerId =
        listener.toLease topic originPeerId := by
      rw [toLease, toLease, routeOf, next]
      dsimp only
      rw [show engine.topicRouter.routeOf topic originPeerId = _ from henabled]
    rw [hsame]
    exact ⟨[], .nil _⟩

/-- Whatever route a node has towards a node that has restarted, once that has expired and a
collection and a refresh have passed, it has a live route over the neighbour that brought the latest
advertisement, with the number of that. -/
theorem leased_of_run {jitter horizon : ℕ}
    (hjitter : REFRESH_INTERVAL_MS + jitter ≤ Config.ROUTE_LEASE_MS)
    {listener listener' : Listener} (h : Restarted topic originPeerId jitter horizon listener)
    {events : List Event}
    (hrun : (system platform topic originPeerId jitter).Run listener events listener')
    (hlate : horizon + GC_INTERVAL_MS + (REFRESH_INTERVAL_MS + jitter) < listener'.now) :
    ∃ route, listener'.engine.topicRouter.leasedRouteOf listener'.now topic originPeerId =
        some route ∧
      listener'.latest = some (route.sequenceNumber, route.nextHop) ∧
      route.nextHop ∈ listener'.engine.topicRouter.getPeersForTopic topic listener'.now := by
  have hstart : NumberedLease.Start (timing hjitter) horizon
      (listener.toLease topic originPeerId) := by
    refine ⟨⟨h.collectedAt, h.heardAt, h.collects, h.hears⟩, h.now, h.latest, ?_⟩
    intro entry hentry
    obtain ⟨route, hroute, rfl⟩ := Option.map_eq_some_iff.1 hentry
    exact h.expiresAt route hroute
  have hstep (before : Listener) (event : Event) (after : Listener)
      (abstract : NumberedLease String) (hrel : abstract = before.toLease topic originPeerId)
      (_ : True) (hnext : (system platform topic originPeerId jitter).step before event after) :
      ∃ events abstract', (NumberedLease.system (timing hjitter)).Run abstract events abstract' ∧
        abstract' = after.toLease topic originPeerId := by
    obtain ⟨henabled, rfl⟩ := hnext
    obtain ⟨events, hrun⟩ := exists_run_of_enabled hjitter henabled
    rw [← hrel] at hrun
    exact ⟨events, _, hrun, rfl⟩
  obtain ⟨_, _, habstract, rfl⟩ := hrun.guarded_true.simulates hstep rfl
  obtain ⟨entry, hentry, hlatest, hlasts⟩ := NumberedLease.recovers hstart habstract hlate
  obtain ⟨route, hroute, rfl⟩ := Option.map_eq_some_iff.1 hentry
  have hleased : listener'.engine.topicRouter.leasedRouteOf listener'.now topic originPeerId =
      some route := TopicRouter.leasedRouteOf_eq_some_iff.2 ⟨hroute, hlasts⟩
  exact ⟨route, hleased, hlatest,
    TopicRouter.mem_getPeersForTopic.2 ⟨originPeerId, route, hleased, rfl⟩⟩

/-! ## An example -/

instance (now : ℕ) (engine : GossipEngine) (message : P2PMessage) (fromPeerId : Option String)
    (sequenceNumber : ℕ) (action : SubscriptionAction) :
    Decidable (Admits platform now engine message fromPeerId topic sequenceNumber action) :=
  decidable_of_iff (message.type = .subAd ∧ message.payload = .subAd topic sequenceNumber action ∧
    (engine.screen platform now message fromPeerId).1 = .fresh ∧
    engine.localPeerId ∉ message.routingPath.getD []) (by
      rw [GossipEngine.screen_fresh_iff]
      exact ⟨fun h ↦ ⟨h.1, h.2.1, h.2.2.1, h.2.2.2⟩,
        fun h ↦ ⟨h.type, h.payload, h.accepts, h.loopFree⟩⟩)

instance (jitter : ℕ) (listener : Listener) (event : Event) :
    Decidable (Enabled platform topic originPeerId jitter listener event) :=
  match event with
  | .advert .. => inferInstanceAs (Decidable (_ ∧ _ ∧ _))
  | .gc => inferInstanceAs (Decidable True)
  | .elapse _ => inferInstanceAs (Decidable (_ ∧ _))
  | .other _ => inferInstanceAs (Decidable (_ = _))

/-- A node that heard advertisement number nine of `origin` at the beginning. -/
def heardNine : Listener where
  now := 10000
  collectedAt := 10000
  heardAt := 10000
  latest := none
  engine :=
    { GossipEngine.new "local" (some (SecurityManager.init "local" "key of local")) 20 5 with
      topicRouter := (TopicRouter.new.updateRoute "news" "origin" "p" 1 9 ["origin"]
        (WithTop.some Config.ROUTE_LEASE_MS)).2 }

/-- Five seconds and a collection, several times. -/
def quiet (times : ℕ) : List Event :=
  (List.replicate times [Event.elapse GC_INTERVAL_MS, .gc]).flatten

def heard (advert : Advert) (powNonce : ℕ) : Event :=
  .advert advert.sequenceNumber (Advertisement.subAdOf advert powNonce) (some "p") (.new "local")
    fun _ ↦ 0

/-- The first advertisement after the restart comes while the old route is there, the second one
does not. -/
def afterRestart : List Event :=
  quiet 3 ++ heard ⟨"join-1", 1, .join⟩ 797 :: quiet 3 ++ heard ⟨"join-2", 2, .join⟩ 572 ::
    quiet 2 ++ [.elapse 1]

theorem run_afterRestart : (system Pow.javaScript "news" "origin" 0).Run heardNine afterRestart
    (afterRestart.foldl (next Pow.javaScript) heardNine) := by
  apply TransitionSystem.run_ofNext
  decide +kernel

theorem leased_of_run_afterRestart : ∃ route,
    (afterRestart.foldl (next Pow.javaScript) heardNine).engine.topicRouter.leasedRouteOf 50001
      "news" "origin" = some route ∧ route.sequenceNumber = 2 := by
  have hrestarted : Restarted "news" "origin" 0 Config.ROUTE_LEASE_MS heardNine := by
    refine ⟨le_refl _, le_refl _, by decide, by decide, by decide, rfl, ?_⟩
    decide +kernel
  obtain ⟨route, hroute, hlatest, -⟩ := leased_of_run (by decide) hrestarted run_afterRestart
    (by decide +kernel)
  have hnow : (afterRestart.foldl (next Pow.javaScript) heardNine).now = 50001 := by decide +kernel
  have hheard : (afterRestart.foldl (next Pow.javaScript) heardNine).latest = some (2, "p") := by
    decide +kernel
  rw [hnow] at hroute
  rw [hheard] at hlatest
  exact ⟨route, hroute, (Prod.mk.inj (Option.some.inj hlatest)).1.symm⟩

end Listener

end P2PApp
