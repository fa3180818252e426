import P2PApp.Protocol.TopicRouter

/-!
# Leases and garbage collection

Two tables that differ only in expired entries select the same next hops. They need not react alike
to an update: `updateRoute` compares the update with the entry it finds, expired or not, and an
expired entry that the update does not supersede blocks it.
-/

namespace P2PApp

namespace TopicRouter

variable {Topic Peer Seq Path : Type*} [DecidableEq Topic] [DecidableEq Peer]

/-- The stored route for a topic and an origin, within its lease. -/
def leasedRouteOf (router : TopicRouter Topic Peer Seq Path) (now : ℕ) (topic : Topic)
    (originPeerId : Peer) : Option (Route Peer Seq Path) :=
  (router.routeOf topic originPeerId).filter fun route ↦ WithTop.some now ≤ route.expiresAt

theorem leasedRouteOf_eq_some_iff {router : TopicRouter Topic Peer Seq Path} {now : ℕ}
    {topic : Topic} {originPeerId : Peer} {route : Route Peer Seq Path} :
    router.leasedRouteOf now topic originPeerId = some route ↔
      router.routeOf topic originPeerId = some route ∧ WithTop.some now ≤ route.expiresAt := by
  simp [leasedRouteOf, Option.filter_eq_some_iff]

/-- The same routes are within their lease. -/
def SameLeases (left right : TopicRouter Topic Peer Seq Path) (now : ℕ) : Prop :=
  ∀ topic originPeerId,
    left.leasedRouteOf now topic originPeerId = right.leasedRouteOf now topic originPeerId

theorem mem_getPeersForTopic {router : TopicRouter Topic Peer Seq Path} {topic : Topic} {now : ℕ}
    {peerId : Peer} :
    peerId ∈ router.getPeersForTopic topic now ↔
      ∃ originPeerId route, router.leasedRouteOf now topic originPeerId = some route ∧
        route.nextHop = peerId := by
  simp only [leasedRouteOf_eq_some_iff, routeOf, getPeersForTopic]
  cases router.routes.get? topic with
  | none => simp
  | some topicRoutes =>
    simp only [OrderedMap.values, List.mem_toFinset, List.mem_map, List.mem_filter,
      Option.bind_some, OrderedMap.get?_eq_some_iff]
    constructor
    · rintro ⟨route, ⟨⟨entry, hentry, rfl⟩, hlease⟩, hnext⟩
      exact ⟨entry.1, entry.2, ⟨hentry, by simpa using hlease⟩, hnext⟩
    · rintro ⟨originPeerId, route, ⟨hentry, hlease⟩, hnext⟩
      exact ⟨route, ⟨⟨(originPeerId, route), hentry, rfl⟩, by simpa using hlease⟩, hnext⟩

/-- Which next hops there are after a route has been set. -/
theorem mem_getPeersForTopic_setRoute {router : TopicRouter Topic Peer Seq Path}
    {topic topic' : Topic} {originPeerId other : Peer} {route : Route Peer Seq Path} {now : ℕ} :
    other ∈ (router.setRoute topic originPeerId route).getPeersForTopic topic' now ↔
      (topic' = topic ∧ WithTop.some now ≤ route.expiresAt ∧ route.nextHop = other) ∨
      ∃ origin found, ¬(topic' = topic ∧ origin = originPeerId) ∧
        router.leasedRouteOf now topic' origin = some found ∧ found.nextHop = other := by
  simp only [mem_getPeersForTopic, leasedRouteOf_eq_some_iff, routeOf_setRoute]
  constructor
  · rintro ⟨origin, found, ⟨hfound, hlease⟩, hnext⟩
    split at hfound
    · rename_i hkeys
      cases hfound
      exact .inl ⟨hkeys.1, hlease, hnext⟩
    · rename_i hkeys
      exact .inr ⟨origin, found, hkeys, ⟨hfound, hlease⟩, hnext⟩
  · rintro (⟨rfl, hlease, hnext⟩ | ⟨origin, found, hkeys, ⟨hfound, hlease⟩, hnext⟩)
    · exact ⟨originPeerId, route, ⟨by simp, hlease⟩, hnext⟩
    · exact ⟨origin, found, ⟨by rw [if_neg hkeys, hfound], hlease⟩, hnext⟩

/-- The selected next hops depend on the leased routes only. -/
theorem SameLeases.getPeersForTopic_eq {left right : TopicRouter Topic Peer Seq Path} {now : ℕ}
    (h : SameLeases left right now) (topic : Topic) :
    left.getPeersForTopic topic now = right.getPeersForTopic topic now := by
  ext peerId
  simp only [mem_getPeersForTopic, h topic]

/-- A collection leaves the leases of every later moment as they are. -/
theorem sameLeases_gc (router : TopicRouter Topic Peer Seq Path) {now time : ℕ} (h : now ≤ time) :
    SameLeases (router.gc now) router time := by
  intro topic originPeerId
  ext route
  have hearlier : WithTop.some time ≤ route.expiresAt → WithTop.some now ≤ route.expiresAt :=
    (WithTop.coe_le_coe.2 h).trans
  simp only [leasedRouteOf_eq_some_iff, routeOf_gc, Option.filter_eq_some_iff,
    decide_eq_true_eq]
  tauto

/-- Installing one route keeps two tables alike. -/
theorem SameLeases.setRoute {left right : TopicRouter Topic Peer Seq Path} {now : ℕ}
    (h : SameLeases left right now) (topic : Topic) (originPeerId : Peer)
    (route : Route Peer Seq Path) :
    SameLeases (left.setRoute topic originPeerId route) (right.setRoute topic originPeerId route)
      now := by
  intro topic' originPeerId'
  have hsame := h topic' originPeerId'
  unfold leasedRouteOf at hsame ⊢
  rw [routeOf_setRoute, routeOf_setRoute]
  by_cases hkeys : topic' = topic ∧ originPeerId' = originPeerId
  · rw [if_pos hkeys, if_pos hkeys]
  · rw [if_neg hkeys, if_neg hkeys, hsame]

/-- A collection keeps a route or removes it because it has expired. -/
theorem routeOf_gc_cases (router : TopicRouter Topic Peer Seq Path) (now : ℕ) (topic : Topic)
    (originPeerId : Peer) :
    (router.gc now).routeOf topic originPeerId = router.routeOf topic originPeerId ∨
      (router.gc now).routeOf topic originPeerId = none ∧
        ∃ existing, router.routeOf topic originPeerId = some existing ∧
          existing.expiresAt < WithTop.some now := by
  rw [routeOf_gc]
  cases hroute : router.routeOf topic originPeerId with
  | none => exact .inl rfl
  | some existing =>
    by_cases hexpired : existing.expiresAt < WithTop.some now
    · have hgone := decide_eq_false (not_le.2 hexpired)
      exact .inr ⟨Option.filter_some_neg hgone, existing, rfl, hexpired⟩
    · exact .inl (Option.filter_some_pos (decide_eq_true (not_lt.1 hexpired)))

section UpdateRoute

variable [SequenceNumber Seq] (router : TopicRouter Topic Peer Seq Path) (now : ℕ) (topic : Topic)
  (originPeerId nextHop : Peer) (hopCount : ℕ) (sequenceNumber : Seq) (path : Path)
  (expiresAt : WithTop ℕ)

/-- An expired route that the update does not supersede is still in the table. -/
def StaleBlocks : Prop :=
  ∃ existing, router.routeOf topic originPeerId = some existing ∧
    existing.expiresAt < WithTop.some now ∧ ¬Improves sequenceNumber hopCount existing

/-- A collection just before the update makes no difference to what the update returns, nor to
the next hops selected from `now` on. -/
def GcInvisible : Prop :=
  ((router.gc now).updateRoute topic originPeerId nextHop hopCount sequenceNumber path
      expiresAt).1 =
    (router.updateRoute topic originPeerId nextHop hopCount sequenceNumber path expiresAt).1 ∧
  ∀ topic' time, now ≤ time →
    ((router.gc now).updateRoute topic originPeerId nextHop hopCount sequenceNumber path
        expiresAt).2.getPeersForTopic topic' time =
      (router.updateRoute topic originPeerId nextHop hopCount sequenceNumber path
        expiresAt).2.getPeersForTopic topic' time

/-- An update sees nothing of the table but the route it would replace. -/
theorem updateRoute_of_routeOf_eq {left right : TopicRouter Topic Peer Seq Path}
    (hroute : left.routeOf topic originPeerId = right.routeOf topic originPeerId) {time : ℕ}
    (hleases : SameLeases left right time) :
    (left.updateRoute topic originPeerId nextHop hopCount sequenceNumber path expiresAt).1 =
        (right.updateRoute topic originPeerId nextHop hopCount sequenceNumber path expiresAt).1 ∧
      SameLeases
        (left.updateRoute topic originPeerId nextHop hopCount sequenceNumber path expiresAt).2
        (right.updateRoute topic originPeerId nextHop hopCount sequenceNumber path expiresAt).2
        time := by
  unfold updateRoute
  rw [hroute]
  cases right.routeOf topic originPeerId with
  | none => exact ⟨rfl, hleases.setRoute _ _ _⟩
  | some existing =>
    simp only
    split_ifs
    · exact ⟨rfl, hleases⟩
    · exact ⟨rfl, hleases.setRoute _ _ _⟩
    · exact ⟨rfl, hleases⟩
    · exact ⟨rfl, hleases.setRoute _ _ _⟩

/-- When nothing expired is in the way, the update does the same after a collection. -/
theorem updateRoute_gc_of_not_staleBlocks
    (hfree : ¬StaleBlocks router now topic originPeerId hopCount sequenceNumber) {time : ℕ}
    (htime : now ≤ time) :
    ((router.gc now).updateRoute topic originPeerId nextHop hopCount sequenceNumber path
          expiresAt).1 =
        (router.updateRoute topic originPeerId nextHop hopCount sequenceNumber path expiresAt).1 ∧
      SameLeases
        ((router.gc now).updateRoute topic originPeerId nextHop hopCount sequenceNumber path
          expiresAt).2
        (router.updateRoute topic originPeerId nextHop hopCount sequenceNumber path expiresAt).2
        time := by
  have hleases := router.sameLeases_gc htime
  rcases router.routeOf_gc_cases now topic originPeerId with
    hkept | ⟨hgone, existing, hroute, hexpired⟩
  · exact updateRoute_of_routeOf_eq topic originPeerId nextHop hopCount sequenceNumber path
      expiresAt hkept hleases
  · -- The collected route did not block the update, so it is replaced where it was left in place.
    have himproves : ∀ other, router.routeOf topic originPeerId = some other →
        Improves sequenceNumber hopCount other := by
      intro other hother
      by_contra hworse
      rw [hroute] at hother
      cases hother
      exact hfree ⟨existing, hroute, hexpired, hworse⟩
    rw [updateRoute_of_none _ _ _ _ _ _ _ _ hgone,
      updateRoute_of_improves _ _ _ _ _ _ _ _ himproves]
    exact ⟨rfl, hleases.setRoute _ _ _⟩

/-- Collecting the garbage first goes unnoticed exactly when no expired route blocks the update. -/
theorem gcInvisible_iff :
    GcInvisible router now topic originPeerId nextHop hopCount sequenceNumber path expiresAt ↔
      ¬StaleBlocks router now topic originPeerId hopCount sequenceNumber := by
  constructor
  · rintro ⟨hreturned, _⟩ ⟨existing, hroute, hexpired, hworse⟩
    have hgone : (router.gc now).routeOf topic originPeerId = none := by
      rw [routeOf_gc, hroute]
      exact Option.filter_some_neg (decide_eq_false (not_le.2 hexpired))
    rw [updateRoute_of_none _ _ _ _ _ _ _ _ hgone] at hreturned
    exact hworse ((updateRoute_fst router topic originPeerId nextHop hopCount sequenceNumber path
      expiresAt).1 hreturned.symm existing hroute)
  · intro hfree
    constructor
    · exact (updateRoute_gc_of_not_staleBlocks router now topic originPeerId nextHop hopCount
        sequenceNumber path expiresAt hfree le_rfl).1
    · intro topic' time htime
      exact (updateRoute_gc_of_not_staleBlocks router now topic originPeerId nextHop hopCount
        sequenceNumber path expiresAt hfree htime).2.getPeersForTopic_eq topic'

end UpdateRoute

/-- `peer-A` restarts and counts its advertisements from one again. Its old route, number 9, has
expired, but it still turns the new advertisement away until the next collection. -/
theorem restart_blocked_by_expired_route :
    let router : TopicRouter String String ℕ (List String) :=
      (new.updateRoute "sports" "peer-A" "peer-B" 1 9 [] (WithTop.some 15000)).2
    ¬GcInvisible router 16000 "sports" "peer-A" "peer-B" 1 1 [] (WithTop.some 31000) := by
  intro router hinvisible
  have hreturned := hinvisible.1
  revert hreturned
  decide

end TopicRouter

end P2PApp
