import P2PApp.Library.MaxRegister
import P2PApp.Protocol.GossipEngine
import P2PApp.Protocol.Pow

/-!
# Subscription advertisements of one origin

The route that a node holds for one topic and one origin, followed through the advertisements of
that origin in the order in which they first arrive. Seen through its sequence number the route is
a maximum register: a JOIN raises it, and a LEAVE clears it whatever its own number. Duplicate
copies and garbage collection within the lease change nothing.
-/

namespace P2PApp

inductive AdvertAction
  | join
  | leave
  deriving DecidableEq, Repr

def AdvertAction.toSubscriptionAction : AdvertAction → SubscriptionAction
  | .join => .join
  | .leave => .leave

/-- What its origin puts into an advertisement for a fixed topic. -/
structure Advert where
  id : String
  sequenceNumber : ℕ
  action : AdvertAction
  deriving DecidableEq, Repr

def Advert.update (advert : Advert) : MaxRegister.Update ℕ :=
  match advert.action with
  | .join => .raise advert.sequenceNumber
  | .leave => .clear

/-- A copy of an advertisement handed to `receiveMessage`, or a tick of the collection timer. -/
inductive RoutingEvent
  | receive (advert : Advert) (message : P2PMessage) (fromPeerId : Option String)
      (pool : ConnectionPool) (moment : Moment)
  | gc (now : ℕ)

namespace RoutingEvent

def apply (platform : Platform) (engine : GossipEngine) : RoutingEvent → GossipEngine
  | .receive _ message fromPeerId pool moment =>
    (engine.receiveMessage platform pool moment.now moment.draws message fromPeerId).1
  | .gc now => { engine with topicRouter := engine.topicRouter.gc now }

def applyAll (platform : Platform) (engine : GossipEngine) (events : List RoutingEvent) :
    GossipEngine :=
  events.foldl (apply platform) engine

/-- The advertisements in the order of their first copies. -/
def arrivals (seen : Finset String) : List RoutingEvent → List Advert
  | [] => []
  | .receive advert _ _ _ _ :: events =>
    if advert.id ∈ seen then arrivals seen events
    else advert :: arrivals (insert advert.id seen) events
  | .gc _ :: events => arrivals seen events

end RoutingEvent

namespace Advertisement

open RoutingEvent

variable (platform : Platform) (topic originPeerId : String)

/-- The message is a copy of the advertisement, as its origin issued it up to the hops. -/
structure Carries (advert : Advert) (message : P2PMessage) : Prop where
  id : message.id = advert.id
  type : message.type = .subAd
  sender : message.sender = originPeerId
  payload : message.payload =
    .subAd topic advert.sequenceNumber advert.action.toSubscriptionAction

/-- Every copy carries an advertisement of the origin for the topic; a first copy passes the
checks of the engine and has not been through this node, and everything happens within one lease
after `start`. -/
def Delivers (start : ℕ) (engine : GossipEngine) : List RoutingEvent → Prop
  | [] => True
  | .receive advert message fromPeerId pool moment :: events =>
    Carries topic originPeerId advert message ∧ start ≤ moment.now ∧
      (advert.id ∉ engine.seenMessages →
        engine.Accepts platform moment.now message fromPeerId ∧
          engine.localPeerId ∉ message.routingPath.getD []) ∧
      Delivers start
        (apply platform engine (.receive advert message fromPeerId pool moment)) events
  | .gc now :: events =>
    now ≤ start + Config.ROUTE_LEASE_MS ∧
      Delivers start (apply platform engine (.gc now)) events

/-- The sequence number of the route towards the origin. -/
def version (engine : GossipEngine) : Option ℕ :=
  (engine.topicRouter.routeOf topic originPeerId).map Route.sequenceNumber

/-- The route is the one that the newest advertisement asks for. -/
def Settled (newest : Advert) (route : Option (Route String ℕ (List String))) : Prop :=
  (route.isSome = true ↔ newest.action = .join) ∧
    ∀ found, route = some found → found.sequenceNumber = newest.sequenceNumber

/-- No LEAVE arrives after the newest advertisement if that is a JOIN; the last to arrive is a
LEAVE if the newest is one. -/
def Timely (newest : Advert) (order : List Advert) : Prop :=
  match newest.action with
  | .join => ∃ before after, order = before ++ newest :: after ∧
      ∀ later ∈ after, later.action = .join
  | .leave => ∃ before last, order = before ++ [last] ∧ last.action = .leave

/-! ## One event -/

/-- Every route of the origin is within the lease that began at `start`. -/
def Fresh (start : ℕ) (engine : GossipEngine) : Prop :=
  ∀ route, engine.topicRouter.routeOf topic originPeerId = some route →
    WithTop.some (start + Config.ROUTE_LEASE_MS) ≤ route.expiresAt

/-- A route that is not within that lease is older than all advertisements still to come. -/
def Replaceable (start : ℕ) (order : List Advert) (engine : GossipEngine) : Prop :=
  ∀ route, engine.topicRouter.routeOf topic originPeerId = some route →
    WithTop.some (start + Config.ROUTE_LEASE_MS) ≤ route.expiresAt ∨
      ∀ advert ∈ order, route.sequenceNumber < advert.sequenceNumber

section Router

variable (router : Router) {topic originPeerId}

/-- An update raises the sequence number, even when it leaves the route as it is. -/
theorem version_updateRoute (nextHop : String) (hopCount sequenceNumber : ℕ)
    (path : List String) (expiresAt : WithTop ℕ) :
    ((router.updateRoute topic originPeerId nextHop hopCount sequenceNumber path
        expiresAt).2.routeOf topic originPeerId).map Route.sequenceNumber =
      MaxRegister.apply ((router.routeOf topic originPeerId).map Route.sequenceNumber)
        (.raise sequenceNumber) := by
  have hworse (existing : Route String ℕ (List String))
      (h : ¬TopicRouter.Improves sequenceNumber hopCount existing) :
      max existing.sequenceNumber sequenceNumber = existing.sequenceNumber := by
    simp only [TopicRouter.Improves, SequenceNumber.lt_nat, SequenceNumber.same_nat,
      decide_eq_false_iff_not] at h
    omega
  rcases router.updateRoute_cases topic originPeerId nextHop hopCount sequenceNumber path
    expiresAt with ⟨heq, hall⟩ | ⟨existing, hroute, hnot, _, _, heq⟩ |
      ⟨existing, hroute, hnot, _, heq⟩
  · rw [heq, TopicRouter.routeOf_setRoute_self]
    cases hroute : router.routeOf topic originPeerId with
    | none => rfl
    | some existing =>
      have himproves := (hall existing hroute).1
      simp only [SequenceNumber.lt_nat, decide_eq_false_iff_not, not_lt] at himproves
      simp [MaxRegister.apply, himproves]
  · rw [heq, TopicRouter.routeOf_setRoute_self, hroute]
    simp [MaxRegister.apply, hworse existing hnot]
  · rw [heq, hroute]
    simp [MaxRegister.apply, hworse existing hnot]

/-- After an update every route of the origin is new, renewed, or one that is not older. -/
theorem expiresAt_updateRoute (nextHop : String) (hopCount sequenceNumber : ℕ)
    (path : List String) (expiresAt : WithTop ℕ) {route : Route String ℕ (List String)}
    (h : (router.updateRoute topic originPeerId nextHop hopCount sequenceNumber path
      expiresAt).2.routeOf topic originPeerId = some route) :
    expiresAt ≤ route.expiresAt ∨
      (router.routeOf topic originPeerId = some route ∧
        sequenceNumber ≤ route.sequenceNumber) := by
  rcases router.updateRoute_cases topic originPeerId nextHop hopCount sequenceNumber path
    expiresAt with ⟨heq, _⟩ | ⟨existing, _, _, _, _, heq⟩ | ⟨existing, hroute, hnot, _, heq⟩ <;>
    rw [heq] at h
  · rw [TopicRouter.routeOf_setRoute_self, Option.some.injEq] at h
    exact .inl (h ▸ le_rfl)
  · rw [TopicRouter.routeOf_setRoute_self, Option.some.injEq] at h
    exact .inl (h ▸ le_max_right _ _)
  · rw [hroute, Option.some.injEq] at h
    simp only [TopicRouter.Improves, SequenceNumber.lt_nat, SequenceNumber.same_nat,
      decide_eq_false_iff_not] at hnot
    refine .inr ⟨h ▸ hroute, ?_⟩
    rw [← h]
    omega

end Router

section Event

variable {platform topic originPeerId} {start : ℕ} {engine : GossipEngine} {advert : Advert}
  {message : P2PMessage} (fromPeerId : Option String) (pool : ConnectionPool) (moment : Moment)

variable (platform) in
/-- A further copy changes neither the seen ids nor the routes. -/
theorem apply_receive_of_seen (hcarries : Carries topic originPeerId advert message)
    (hseen : advert.id ∈ engine.seenMessages) :
    (apply platform engine (.receive advert message fromPeerId pool moment)).seenMessages =
        engine.seenMessages ∧
      (apply platform engine (.receive advert message fromPeerId pool moment)).topicRouter =
        engine.topicRouter := by
  rcases engine.receiveMessage_cases pool moment.now moment.draws message fromPeerId platform with
    ⟨_, _, hcore⟩ | ⟨haccepts, _⟩
  · exact ⟨hcore.seenMessages, hcore.topicRouter⟩
  · exact absurd (hcarries.id ▸ hseen) haccepts.unseen

variable {fromPeerId pool moment}

theorem seenMessages_apply_receive (hcarries : Carries topic originPeerId advert message)
    (haccepts : engine.Accepts platform moment.now message fromPeerId) :
    (apply platform engine (.receive advert message fromPeerId pool moment)).seenMessages =
      insert advert.id engine.seenMessages := by
  ext id
  rw [apply, GossipEngine.mem_seenMessages_receiveMessage, Finset.mem_insert, hcarries.id]
  simp [haccepts, or_comm]

/-- A first copy acts on the route as its advertisement acts on the register. -/
theorem version_apply_receive (hcarries : Carries topic originPeerId advert message)
    (haccepts : engine.Accepts platform moment.now message fromPeerId)
    (hloop : engine.localPeerId ∉ message.routingPath.getD []) :
    version topic originPeerId
        (apply platform engine (.receive advert message fromPeerId pool moment)) =
      MaxRegister.apply (version topic originPeerId engine) advert.update := by
  rw [version, apply, GossipEngine.topicRouter_receiveMessage pool moment.now moment.draws engine
    message fromPeerId platform haccepts hcarries.type hcarries.payload hloop]
  cases haction : advert.action with
  | join =>
    simp only [AdvertAction.toSubscriptionAction, GossipEngine.routeAdvert, hcarries.sender,
      version_updateRoute, Advert.update, haction, version]
  | leave =>
    simp [AdvertAction.toSubscriptionAction, GossipEngine.routeAdvert, hcarries.sender,
      TopicRouter.routeOf_removeRoute, Advert.update, haction, MaxRegister.apply]

/-- The route that a first copy leaves is within the lease. -/
theorem fresh_apply_receive (hcarries : Carries topic originPeerId advert message)
    (haccepts : engine.Accepts platform moment.now message fromPeerId)
    (hloop : engine.localPeerId ∉ message.routingPath.getD []) (hstart : start ≤ moment.now)
    (hroute : Replaceable topic originPeerId start [advert] engine) :
    Fresh topic originPeerId start
      (apply platform engine (.receive advert message fromPeerId pool moment)) := by
  intro route h
  rw [apply, GossipEngine.topicRouter_receiveMessage pool moment.now moment.draws engine
    message fromPeerId platform haccepts hcarries.type hcarries.payload hloop] at h
  cases haction : advert.action with
  | join =>
    simp only [haction, AdvertAction.toSubscriptionAction, GossipEngine.routeAdvert,
      hcarries.sender] at h
    rcases expiresAt_updateRoute engine.topicRouter _ _ _ _ _ h with hnew | ⟨hold, hle⟩
    · exact (WithTop.coe_le_coe.2 (Nat.add_le_add_right hstart _)).trans hnew
    · refine (hroute route hold).resolve_right fun holder ↦ ?_
      exact absurd (holder advert List.mem_cons_self) (not_lt.2 hle)
  | leave =>
    simp [haction, AdvertAction.toSubscriptionAction, GossipEngine.routeAdvert, hcarries.sender,
      TopicRouter.routeOf_removeRoute] at h

variable (platform topic originPeerId engine) in
/-- A collection within the lease removes no route but an expired older one. -/
theorem routeOf_apply_gc {now : ℕ} (hnow : now ≤ start + Config.ROUTE_LEASE_MS) :
    (apply platform engine (.gc now)).topicRouter.routeOf topic originPeerId =
        engine.topicRouter.routeOf topic originPeerId ∨
      ((apply platform engine (.gc now)).topicRouter.routeOf topic originPeerId = none ∧
        ¬Fresh topic originPeerId start engine) := by
  rw [apply, TopicRouter.routeOf_gc]
  cases hroute : engine.topicRouter.routeOf topic originPeerId with
  | none => exact .inl rfl
  | some route =>
    by_cases hlease : WithTop.some now ≤ route.expiresAt
    · exact .inl (Option.filter_eq_some_iff.2 ⟨rfl, decide_eq_true hlease⟩)
    · refine .inr ⟨Option.filter_eq_none_iff.2 ?_, fun hfresh ↦ hlease ?_⟩
      · rintro _ ⟨⟩ hkept
        exact hlease (of_decide_eq_true hkept)
      exact (WithTop.coe_le_coe.2 hnow).trans (hfresh route hroute)

end Event

/-! ## The whole sequence -/

/-- The route ends where the register ends. A route that was there before may expire on the way,
but not once an advertisement has arrived. -/
theorem version_applyAll {start : ℕ} {engine : GossipEngine} {events : List RoutingEvent}
    (hdelivers : Delivers platform topic originPeerId start engine events)
    (hroute : Replaceable topic originPeerId start (arrivals engine.seenMessages events) engine) :
    ∃ content, version topic originPeerId (applyAll platform engine events) =
        MaxRegister.run content ((arrivals engine.seenMessages events).map Advert.update) ∧
      (content = version topic originPeerId engine ∨
        (content = none ∧ ¬Fresh topic originPeerId start engine)) := by
  induction events generalizing engine with
  | nil => exact ⟨_, rfl, .inl rfl⟩
  | cons event events ih =>
    cases event with
    | receive advert message fromPeerId pool moment =>
      obtain ⟨hcarries, hstart, hfirst, hrest⟩ := hdelivers
      rw [arrivals] at hroute ⊢
      by_cases hseen : advert.id ∈ engine.seenMessages
      · rw [if_pos hseen] at hroute ⊢
        have hsame := apply_receive_of_seen platform fromPeerId pool moment hcarries hseen
        have hih := ih hrest
        unfold Replaceable version Fresh at hih
        rw [hsame.1, hsame.2] at hih
        exact hih hroute
      · rw [if_neg hseen] at hroute ⊢
        obtain ⟨haccepts, hloop⟩ := hfirst hseen
        have hfresh : Fresh topic originPeerId start
            (apply platform engine (.receive advert message fromPeerId pool moment)) := by
          apply fresh_apply_receive hcarries haccepts hloop hstart
          intro route h
          refine (hroute route h).imp_right fun holder other hother ↦ ?_
          exact holder other (List.mem_singleton.1 hother ▸ List.mem_cons_self)
        have hih := ih hrest fun route h ↦ .inl (hfresh route h)
        rw [seenMessages_apply_receive hcarries haccepts] at hih
        obtain ⟨content, hfinal, hcontent⟩ := hih
        have hcontent := hcontent.resolve_right fun hexpired ↦ hexpired.2 hfresh
        refine ⟨_, ?_, .inl rfl⟩
        rw [List.map_cons, MaxRegister.run, List.foldl_cons,
          ← version_apply_receive hcarries haccepts hloop, ← hcontent]
        exact hfinal
    | gc now =>
      obtain ⟨hnow, hrest⟩ := hdelivers
      have hgc := routeOf_apply_gc platform topic originPeerId engine hnow
      have hreplaceable : Replaceable topic originPeerId start
          (arrivals engine.seenMessages events) (apply platform engine (.gc now)) := by
        intro route h
        rcases hgc with hsame | ⟨hnone, _⟩
        · exact hroute route (hsame ▸ h)
        · rw [hnone] at h
          cases h
      obtain ⟨content, hfinal, hcontent⟩ := ih hrest hreplaceable
      refine ⟨content, hfinal, ?_⟩
      unfold version Fresh at hcontent ⊢
      rcases hgc with hsame | ⟨hnone, hexpired⟩
      · rw [hsame] at hcontent
        exact hcontent
      · rw [hnone, Option.map_none] at hcontent
        exact .inr ⟨hcontent.elim id And.left, hexpired⟩

theorem update_eq_clear_iff (advert : Advert) :
    advert.update = .clear ↔ advert.action = .leave := by
  cases haction : advert.action <;> simp [Advert.update, haction]

theorem update_eq_raise_iff (advert : Advert) (number : ℕ) :
    advert.update = .raise number ↔ advert.action = .join ∧ advert.sequenceNumber = number := by
  cases haction : advert.action <;> simp [Advert.update, haction]

theorem action_ne_leave_iff (action : AdvertAction) : action ≠ .leave ↔ action = .join := by
  cases action <;> simp

theorem getLast?_update_iff (order : List Advert) :
    (order.map Advert.update).getLast? = some .clear ↔
      ∃ before last, order = before ++ [last] ∧ last.action = .leave := by
  rw [List.getLast?_map, Option.map_eq_some_iff]
  simp only [List.getLast?_eq_some_iff, update_eq_clear_iff]
  exact ⟨fun ⟨last, ⟨before, horder⟩, hleave⟩ ↦ ⟨before, last, horder, hleave⟩,
    fun ⟨before, last, horder, hleave⟩ ↦ ⟨last, ⟨before, horder⟩, hleave⟩⟩

/-- The order of arrival as the register sees it: a JOIN at a given position of the order. -/
theorem exists_split_iff {newest : Advert} {order : List Advert} (hjoin : newest.action = .join)
    (hmem : newest ∈ order) (hdistinct : (order.map Advert.sequenceNumber).Nodup) :
    (∃ before after, order.map Advert.update =
        before ++ .raise newest.sequenceNumber :: after ∧ .clear ∉ after) ↔
      ∃ before after, order = before ++ newest :: after ∧
        ∀ later ∈ after, later.action = .join := by
  constructor
  · rintro ⟨before, after, hsplit, hafter⟩
    obtain ⟨before, rest, rfl, _, hrest⟩ := List.map_eq_append_iff.1 hsplit
    obtain ⟨advert, after, rfl, hadvert, rfl⟩ := List.map_eq_cons_iff.1 hrest
    have hnumber := ((update_eq_raise_iff advert _).1 hadvert).2
    obtain rfl : advert = newest := List.inj_on_of_nodup_map hdistinct
      (List.mem_append_right _ List.mem_cons_self) hmem hnumber
    refine ⟨before, after, rfl, fun later hlater ↦ ?_⟩
    rw [← action_ne_leave_iff, Ne, ← update_eq_clear_iff]
    exact fun hclear ↦ hafter (List.mem_map.2 ⟨later, hlater, hclear⟩)
  · rintro ⟨before, after, horder, hafter⟩
    refine ⟨before.map Advert.update, after.map Advert.update, ?_, ?_⟩
    · rw [horder, List.map_append, List.map_cons,
        (update_eq_raise_iff newest _).2 ⟨hjoin, rfl⟩]
    · intro hclear
      obtain ⟨later, hlater, hupdate⟩ := List.mem_map.1 hclear
      have hleave := (update_eq_clear_iff later).1 hupdate
      rw [hafter later hlater] at hleave
      cases hleave

/-- After all advertisements have arrived the node holds the route that the newest one asks for
exactly when they arrived in a timely order. -/
theorem settled_iff (start : ℕ) (engine : GossipEngine) (events : List RoutingEvent)
    (newest : Advert)
    (hdelivers : Delivers platform topic originPeerId start engine events)
    (hroute : ∀ route, engine.topicRouter.routeOf topic originPeerId = some route →
      ∀ advert ∈ arrivals engine.seenMessages events,
        route.sequenceNumber < advert.sequenceNumber)
    (hdistinct : ((arrivals engine.seenMessages events).map Advert.sequenceNumber).Nodup)
    (hmem : newest ∈ arrivals engine.seenMessages events)
    (hnewest : ∀ advert ∈ arrivals engine.seenMessages events,
      advert.sequenceNumber ≤ newest.sequenceNumber) :
    Settled newest
        ((applyAll platform engine events).topicRouter.routeOf topic originPeerId) ↔
      Timely newest (arrivals engine.seenMessages events) := by
  obtain ⟨content, hfinal, hcontent⟩ := version_applyAll platform topic originPeerId hdelivers
    fun route h ↦ .inr (hroute route h)
  have hbefore : ∀ number ∈ content, number < newest.sequenceNumber := by
    intro number hnumber
    rcases hcontent with rfl | ⟨rfl, _⟩
    · obtain ⟨route, hfound, rfl⟩ := Option.map_eq_some_iff.1 hnumber
      exact hroute route hfound newest hmem
    · cases hnumber
  have hraised : ∀ number, .raise number ∈ (arrivals engine.seenMessages events).map
      Advert.update → number ≤ newest.sequenceNumber := by
    intro number hnumber
    obtain ⟨advert, hadvert, hupdate⟩ := List.mem_map.1 hnumber
    rw [← ((update_eq_raise_iff advert number).1 hupdate).2]
    exact hnewest advert hadvert
  have hnonempty : (arrivals engine.seenMessages events).map Advert.update ≠ [] :=
    List.ne_nil_of_mem (List.mem_map.2 ⟨newest, hmem, rfl⟩)
  have hsome := MaxRegister.run_eq_some_iff hbefore hraised
  have hnone := MaxRegister.run_eq_none_iff content hnonempty
  rw [← hfinal, version] at hsome
  rw [getLast?_update_iff, ← hfinal, version, Option.map_eq_none_iff] at hnone
  unfold Settled Timely
  cases haction : newest.action with
  | join =>
    rw [← exists_split_iff haction hmem hdistinct, ← hsome, Option.map_eq_some_iff]
    constructor
    · rintro ⟨hexists, hnumber⟩
      obtain ⟨route, hfound⟩ := Option.isSome_iff_exists.1 (hexists.2 rfl)
      exact ⟨route, hfound, hnumber route hfound⟩
    · rintro ⟨route, hfound, hnumber⟩
      refine ⟨by simp [hfound], fun found h ↦ ?_⟩
      rw [hfound, Option.some.injEq] at h
      exact h ▸ hnumber
  | leave =>
    dsimp only
    rw [← hnone]
    constructor
    · rintro ⟨hexists, _⟩
      simpa using hexists
    · intro hgone
      refine ⟨by simp [hgone], fun found h ↦ ?_⟩
      rw [hgone] at h
      cases h

/-! ## Two orders of one JOIN and one LEAVE -/

/-- A signed advertisement of `origin` for the topic `news`, as its neighbour receives it. -/
def subAdOf (advert : Advert) (powNonce : ℕ) : P2PMessage :=
  SecurityManager.signOutgoingMessage Pow.javaScript "key of origin"
    { id := advert.id
      type := .subAd
      ttl := Config.MAX_TTL - 1
      lamportTimestamp := advert.sequenceNumber
      sender := "origin"
      senderPublicKey := some "key of origin"
      topic := "global"
      payload := .subAd "news" advert.sequenceNumber advert.action.toSubscriptionAction
      createdAt := "2024-01-01T00:00:00.000Z"
      powNonce
      signature := none
      routingPath := some ["origin"] }

def joinOne : Advert := ⟨"join-1", 1, .join⟩

def leaveTwo : Advert := ⟨"leave-2", 2, .leave⟩

/-- One copy of an advertisement, from the neighbour `p` at the given time. -/
def arrival (advert : Advert) (powNonce now : ℕ) : RoutingEvent :=
  .receive advert (subAdOf advert powNonce) (some "p") (.new "local") ⟨now, fun _ ↦ 0⟩

def inOrder : List RoutingEvent :=
  [arrival joinOne 797 1000, .gc 5000, arrival leaveTwo 340 6000]

def outOfOrder : List RoutingEvent :=
  [arrival leaveTwo 340 1000, .gc 5000, arrival joinOne 797 6000]

theorem delivers_inOrder : Delivers Pow.javaScript "news" "origin" 1000
    (.new "local" (some (SecurityManager.init "local" "key of local")) 20 5) inOrder := by
  refine ⟨⟨rfl, rfl, rfl, rfl⟩, le_rfl, fun _ ↦ ⟨?_, by decide⟩, by decide,
    ⟨rfl, rfl, rfl, rfl⟩, by decide, fun _ ↦ ⟨?_, by decide +kernel⟩, trivial⟩ <;>
    rw [← GossipEngine.screen_fresh_iff] <;> decide +kernel

theorem delivers_outOfOrder : Delivers Pow.javaScript "news" "origin" 1000
    (.new "local" (some (SecurityManager.init "local" "key of local")) 20 5) outOfOrder := by
  refine ⟨⟨rfl, rfl, rfl, rfl⟩, le_rfl, fun _ ↦ ⟨?_, by decide⟩, by decide,
    ⟨rfl, rfl, rfl, rfl⟩, by decide, fun _ ↦ ⟨?_, by decide +kernel⟩, trivial⟩ <;>
    rw [← GossipEngine.screen_fresh_iff] <;> decide +kernel

/-- In the order in which they were issued, the LEAVE prevails. -/
theorem settled_inOrder : Settled leaveTwo
    ((applyAll Pow.javaScript (.new "local" (some (SecurityManager.init "local" "key of local"))
      20 5) inOrder).topicRouter.routeOf "news" "origin") := by
  apply (settled_iff Pow.javaScript "news" "origin" 1000 _ inOrder leaveTwo delivers_inOrder
    (fun route h ↦ nomatch h) (by decide) (by decide) (by decide)).2
  exact ⟨[joinOne], leaveTwo, rfl, rfl⟩

/-- The other way round the older JOIN installs a route that the LEAVE has revoked. -/
theorem not_settled_outOfOrder :
    Delivers Pow.javaScript "news" "origin" 1000
        (.new "local" (some (SecurityManager.init "local" "key of local")) 20 5) outOfOrder ∧
      arrivals ∅ outOfOrder = [leaveTwo, joinOne] ∧
      ¬Settled leaveTwo
        ((applyAll Pow.javaScript (.new "local"
          (some (SecurityManager.init "local" "key of local")) 20 5)
          outOfOrder).topicRouter.routeOf "news" "origin") := by
  refine ⟨delivers_outOfOrder, by decide, fun hsettled ↦ ?_⟩
  have hjoin := hsettled.1.1 (by decide +kernel)
  cases hjoin

end Advertisement

end P2PApp
