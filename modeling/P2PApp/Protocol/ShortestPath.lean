import Mathlib.Order.Bounds.Basic
import P2PApp.Protocol.Advertisement

/-!
# Copies of one advertisement

The same JOIN reaches a node over several paths. The routing table compares path lengths, but the
seen set in front of it lets one copy through, the first. So the route has the length of a shortest
path exactly if the first copy took one and got past the route held before, or if that route happens
to have this length already.
-/

namespace P2PApp.Advertisement

open RoutingEvent

variable (platform : Platform) (topic originPeerId : String)

/-- Every copy carries the advertisement and has not been through this node, and no collection
comes after the lease of the route that it finds. -/
def Copies (advert : Advert) (engine : GossipEngine) : List RoutingEvent → Prop
  | [] => True
  | .receive other message fromPeerId pool moment :: events =>
    other = advert ∧ Carries topic originPeerId advert message ∧
      engine.localPeerId ∉ message.routingPath.getD [] ∧
      Copies advert (apply platform engine (.receive other message fromPeerId pool moment)) events
  | .gc now :: events =>
    (∀ route, engine.topicRouter.routeOf topic originPeerId = some route →
      WithTop.some now ≤ route.expiresAt) ∧
      Copies advert (apply platform engine (.gc now)) events

/-- The length of the path of a message. -/
def pathLength (message : P2PMessage) : ℕ := (message.routingPath.getD []).length

/-- The lengths of the paths of all copies. -/
def pathLengths : List RoutingEvent → Set ℕ
  | [] => ∅
  | .receive _ message _ _ _ :: events => insert (pathLength message) (pathLengths events)
  | .gc _ :: events => pathLengths events

/-- There is a route, and its length is the least of the given lengths. -/
def Shortest (engine : GossipEngine) (lengths : Set ℕ) : Prop :=
  ∃ route, engine.topicRouter.routeOf topic originPeerId = some route ∧
    IsLeast lengths route.hopCount

/-- The advertisement with a path of this length gets past the route that there is, if any. -/
def GetsPast (engine : GossipEngine) (advert : Advert) (hopCount : ℕ) : Prop :=
  ∀ existing, engine.topicRouter.routeOf topic originPeerId = some existing →
    TopicRouter.Improves advert.sequenceNumber hopCount existing

variable {platform topic originPeerId} {engine : GossipEngine} {advert : Advert}
  {message : P2PMessage} {fromPeerId : Option String} {pool : ConnectionPool} {moment : Moment}

/-- Behind the first copy nothing changes the route. -/
theorem routeOf_applyAll_of_seen {events : List RoutingEvent}
    (hseen : advert.id ∈ engine.seenMessages)
    (hcopies : Copies platform topic originPeerId advert engine events) :
    (applyAll platform engine events).topicRouter.routeOf topic originPeerId =
      engine.topicRouter.routeOf topic originPeerId := by
  induction events generalizing engine with
  | nil => rfl
  | cons event events ih =>
    cases event with
    | receive other message fromPeerId pool moment =>
      obtain ⟨rfl, hcarries, _, hrest⟩ := hcopies
      have hsame := apply_receive_of_seen platform fromPeerId pool moment hcarries hseen
      calc
        _ = (apply platform engine (.receive other message fromPeerId pool
            moment)).topicRouter.routeOf topic originPeerId :=
          ih (hsame.1.symm ▸ hseen) hrest
        _ = _ := by rw [hsame.2]
    | gc now =>
      obtain ⟨hlease, hrest⟩ := hcopies
      calc
        _ = (apply platform engine (.gc now)).topicRouter.routeOf topic originPeerId :=
          ih hseen hrest
        _ = (engine.topicRouter.routeOf topic originPeerId).filter fun route ↦
            WithTop.some now ≤ route.expiresAt := TopicRouter.routeOf_gc _ _ _ _
        _ = _ := by
          cases hroute : engine.topicRouter.routeOf topic originPeerId with
          | none => rfl
          | some route =>
            exact Option.filter_eq_some_iff.2 ⟨rfl, decide_eq_true (hlease route hroute)⟩

/-- The first copy of a JOIN leaves a route with its own length if it gets past what there is, and
otherwise the length of the route there is. -/
theorem hopCount_apply_receive (hjoin : advert.action = .join)
    (hcarries : Carries topic originPeerId advert message)
    (haccepts : engine.Accepts platform moment.now message fromPeerId)
    (hloop : engine.localPeerId ∉ message.routingPath.getD []) :
    (GetsPast topic originPeerId engine advert (pathLength message) ∧
      ((apply platform engine (.receive advert message fromPeerId pool
        moment)).topicRouter.routeOf topic originPeerId).map Route.hopCount =
          some (pathLength message)) ∨
    (¬GetsPast topic originPeerId engine advert (pathLength message) ∧
      ((apply platform engine (.receive advert message fromPeerId pool
        moment)).topicRouter.routeOf topic originPeerId).map Route.hopCount =
          (engine.topicRouter.routeOf topic originPeerId).map Route.hopCount) := by
  rw [apply, GossipEngine.topicRouter_receiveMessage pool moment.now moment.draws engine
    message fromPeerId platform haccepts hcarries.type hcarries.payload hloop]
  simp only [hjoin, AdvertAction.toSubscriptionAction, GossipEngine.routeAdvert, hcarries.sender]
  rcases engine.topicRouter.updateRoute_cases topic originPeerId
    (fromPeerId.getD engine.localPeerId) (pathLength message) advert.sequenceNumber
    (message.routingPath.getD []) (WithTop.some (moment.now + Config.ROUTE_LEASE_MS)) with
    ⟨heq, hall⟩ | ⟨existing, hroute, hnot, _, _, heq⟩ | ⟨existing, hroute, hnot, _, heq⟩
  · refine .inl ⟨hall, ?_⟩
    rw [pathLength] at heq
    rw [heq, TopicRouter.routeOf_setRoute_self]
    rfl
  · refine .inr ⟨fun h ↦ hnot (h existing hroute), ?_⟩
    rw [pathLength] at heq
    rw [heq, TopicRouter.routeOf_setRoute_self, hroute]
    rfl
  · refine .inr ⟨fun h ↦ hnot (h existing hroute), ?_⟩
    rw [pathLength] at heq
    rw [heq]

/-- Shortness depends on the length of the route alone. -/
theorem shortest_iff_of_map {lengths : Set ℕ} {hopCount : Option ℕ}
    (h : (engine.topicRouter.routeOf topic originPeerId).map Route.hopCount = hopCount) :
    Shortest topic originPeerId engine lengths ↔ ∃ count, hopCount = some count ∧
      IsLeast lengths count := by
  subst h
  simp only [Shortest, Option.map_eq_some_iff]
  constructor
  · rintro ⟨route, hroute, hleast⟩
    exact ⟨_, ⟨route, hroute, rfl⟩, hleast⟩
  · rintro ⟨_, ⟨route, hroute, rfl⟩, hleast⟩
    exact ⟨route, hroute, hleast⟩

/-- After the copies of a JOIN have arrived, the route has the length of a shortest path exactly if
the first copy has it and gets past the route held before, or that route stays and has it. -/
theorem shortest_iff (hjoin : advert.action = .join) {rest : List RoutingEvent}
    (hcopies : Copies platform topic originPeerId advert engine
      (.receive advert message fromPeerId pool moment :: rest))
    (haccepts : engine.Accepts platform moment.now message fromPeerId) :
    Shortest topic originPeerId
        (applyAll platform engine (.receive advert message fromPeerId pool moment :: rest))
        (pathLengths (.receive advert message fromPeerId pool moment :: rest)) ↔
      (GetsPast topic originPeerId engine advert (pathLength message) ∧
        ∀ length ∈ pathLengths rest, pathLength message ≤ length) ∨
      (¬GetsPast topic originPeerId engine advert (pathLength message) ∧
        Shortest topic originPeerId engine
          (pathLengths (.receive advert message fromPeerId pool moment :: rest))) := by
  obtain ⟨-, hcarries, hloop, hrest⟩ := hcopies
  have hseen : advert.id ∈ (apply platform engine
      (.receive advert message fromPeerId pool moment)).seenMessages := by
    rw [seenMessages_apply_receive hcarries haccepts]
    exact Finset.mem_insert_self _ _
  have hfinal : (applyAll platform engine (.receive advert message fromPeerId pool moment ::
      rest)).topicRouter.routeOf topic originPeerId = (apply platform engine
        (.receive advert message fromPeerId pool moment)).topicRouter.routeOf topic originPeerId :=
    routeOf_applyAll_of_seen hseen hrest
  rcases hopCount_apply_receive hjoin hcarries haccepts hloop with ⟨hpast, hcount⟩ |
    ⟨hstays, hcount⟩
  · rw [shortest_iff_of_map (hfinal ▸ hcount)]
    simp only [Option.some.injEq, exists_eq_left', hpast, true_and, not_true_eq_false, false_and,
      or_false]
    refine ⟨fun hleast length hlength ↦ hleast.2 (Set.mem_insert_of_mem _ hlength), fun hle ↦ ?_⟩
    refine ⟨Set.mem_insert _ _, ?_⟩
    rintro length (rfl | hlength)
    · exact le_rfl
    · exact hle length hlength
  · rw [shortest_iff_of_map (hfinal ▸ hcount), ← shortest_iff_of_map rfl]
    simp only [hstays, false_and, not_false_eq_true, true_and, false_or]

/-! ## Two orders of two copies -/

/-- A copy of the JOIN that took the given path, from the last node on it. -/
def copyOver (path : List String) (now : ℕ) : RoutingEvent :=
  .receive joinOne { subAdOf joinOne 797 with routingPath := some path } path.getLast?
    (.new "local") ⟨now, fun _ ↦ 0⟩

/-- A node that has seen nothing yet. -/
def freshNode : GossipEngine :=
  .new "local" (some (SecurityManager.init "local" "key of local")) 20 5

theorem copies_twoPaths (path path' : List String) (now now' : ℕ) (hpath : "local" ∉ path)
    (hpath' : "local" ∉ path') :
    Copies Pow.javaScript "news" "origin" joinOne freshNode
      [copyOver path now, copyOver path' now'] := by
  refine ⟨rfl, ⟨rfl, rfl, rfl, rfl⟩, hpath, rfl, ⟨rfl, rfl, rfl, rfl⟩, ?_, trivial⟩
  rw [apply, GossipEngine.localPeerId_receiveMessage]
  exact hpath'

theorem shortest_shortFirst : Shortest "news" "origin"
    (applyAll Pow.javaScript freshNode [copyOver ["origin"] 1000, copyOver ["origin", "p"] 2000])
    (pathLengths [copyOver ["origin"] 1000, copyOver ["origin", "p"] 2000]) := by
  have hcopies := copies_twoPaths ["origin"] ["origin", "p"] 1000 2000 (by decide) (by decide)
  have haccepts : freshNode.Accepts Pow.javaScript 1000
      { subAdOf joinOne 797 with routingPath := some ["origin"] } (some "origin") := by
    rw [← GossipEngine.screen_fresh_iff]
    decide +kernel
  refine (shortest_iff rfl hcopies haccepts).2 (.inl ⟨?_, ?_⟩)
  · intro existing hexisting
    cases hexisting
  · rintro length (rfl | hlength)
    · decide
    · cases hlength

/-- In every order of arrival the shortest path wins. -/
def ShortestWins (platform : Platform) : Prop :=
  ∀ topic originPeerId engine advert message fromPeerId pool moment rest,
    advert.action = .join →
    Copies platform topic originPeerId advert engine
      (.receive advert message fromPeerId pool moment :: rest) →
    engine.Accepts platform moment.now message fromPeerId →
    Shortest topic originPeerId
      (applyAll platform engine (.receive advert message fromPeerId pool moment :: rest))
      (pathLengths (.receive advert message fromPeerId pool moment :: rest))

/-- The copy over the longer path is the first to arrive. -/
theorem not_shortestWins_longFirst : ¬ShortestWins Pow.javaScript := by
  intro h
  have haccepts : freshNode.Accepts Pow.javaScript 1000
      { subAdOf joinOne 797 with routingPath := some ["origin", "p"] } (some "p") := by
    rw [← GossipEngine.screen_fresh_iff]
    decide +kernel
  obtain ⟨route, hroute, hleast⟩ := h "news" "origin" freshNode joinOne _ _ _ _ _ rfl
    (copies_twoPaths ["origin", "p"] ["origin"] 1000 2000 (by decide) (by decide)) haccepts
  have hcount : ((applyAll Pow.javaScript freshNode [copyOver ["origin", "p"] 1000,
      copyOver ["origin"] 2000]).topicRouter.routeOf "news" "origin").map Route.hopCount =
        some 2 := by decide +kernel
  have hlonger : route.hopCount = 2 := by
    have hmap := congrArg (Option.map Route.hopCount) hroute
    exact Option.some.inj (hmap.symm.trans hcount)
  have hle : route.hopCount ≤ 1 := hleast.2 (Set.mem_insert_of_mem _ (Set.mem_insert _ _))
  omega

end P2PApp.Advertisement
