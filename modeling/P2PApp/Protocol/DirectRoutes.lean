import P2PApp.Protocol.SoftState

/-!
# Routes to a neighbour

A handshake registers a neighbour as the next hop to itself: the update has no hops, and a sequence
number that no advertisement starts with. The entry that it meets decides what becomes of it. It is
installed, it renews a lease, or it is blocked by a route that advertisements have brought from
elsewhere; and it meets the same fate for every further occurrence of the topic.
-/

namespace P2PApp.TopicRouter

variable {Topic Peer Seq Path : Type*} [DecidableEq Topic] [DecidableEq Peer]
  [SequenceNumber Seq]

/-- The neighbour is the origin of a route that is as good, and which the update does not renew. -/
def Blocked (router : TopicRouter Topic Peer Seq Path) (topic : Topic) (peerId : Peer)
    (sequenceNumber : Seq) : Prop :=
  ∃ existing, router.routeOf topic peerId = some existing ∧
    ¬Improves sequenceNumber 0 existing ∧
    (SequenceNumber.lt sequenceNumber existing.sequenceNumber = true ∨ existing.nextHop ≠ peerId)

/-- The updates of a handshake, one for each topic. -/
def register (router : TopicRouter Topic Peer Seq Path) (peerId : Peer) (sequenceNumber : Seq)
    (path : Path) (expiresAt : WithTop ℕ) (topics : List Topic) : TopicRouter Topic Peer Seq Path :=
  topics.foldl (fun router topic ↦
    (router.updateRoute topic peerId peerId 0 sequenceNumber path expiresAt).2) router

variable {router : TopicRouter Topic Peer Seq Path} {topic : Topic} {peerId : Peer}
  {sequenceNumber : Seq} {path : Path} {expiresAt : WithTop ℕ}

/-- A blocked update does nothing; any other leaves a route that leads straight to the peer. -/
theorem updateRoute_direct
    (hirrefl : SequenceNumber.lt sequenceNumber sequenceNumber = false) :
    (Blocked router topic peerId sequenceNumber ∧
      (router.updateRoute topic peerId peerId 0 sequenceNumber path expiresAt).2 = router) ∨
    (¬Blocked router topic peerId sequenceNumber ∧ ∃ route : Route Peer Seq Path,
      route.nextHop = peerId ∧
      SequenceNumber.lt sequenceNumber route.sequenceNumber = false ∧
      expiresAt ≤ route.expiresAt ∧
      (router.updateRoute topic peerId peerId 0 sequenceNumber path expiresAt).2 =
        router.setRoute topic peerId route) := by
  rcases router.updateRoute_cases topic peerId peerId 0 sequenceNumber path expiresAt with
    ⟨heq, hall⟩ | ⟨existing, hroute, _, hlt, hnext, heq⟩ |
      ⟨existing, hroute, hworse, hstale, heq⟩
  · refine .inr ⟨?_, _, rfl, hirrefl, le_rfl, congrArg Prod.snd heq⟩
    rintro ⟨existing, hroute, hworse, _⟩
    exact hworse (hall existing hroute)
  · refine .inr ⟨?_, { existing with expiresAt := max existing.expiresAt expiresAt },
      hnext.symm, hlt, le_max_right _ _, congrArg Prod.snd heq⟩
    rintro ⟨other, hother, _, hstale⟩
    obtain rfl := Option.some.inj (hroute.symm.trans hother)
    rcases hstale with hgreater | hne
    · rw [hlt] at hgreater
      cases hgreater
    · exact hne hnext.symm
  · exact .inl ⟨⟨existing, hroute, hworse, hstale.imp_right Ne.symm⟩, congrArg Prod.snd heq⟩

/-- An update that is not blocked adds the peer to the next hops of its topic. -/
theorem mem_getPeersForTopic_updateRoute
    (hirrefl : SequenceNumber.lt sequenceNumber sequenceNumber = false) {now : ℕ}
    (hlease : WithTop.some now ≤ expiresAt) (topic' : Topic) :
    peerId ∈ (router.updateRoute topic peerId peerId 0 sequenceNumber path
        expiresAt).2.getPeersForTopic topic' now ↔
      peerId ∈ router.getPeersForTopic topic' now ∨
        topic' = topic ∧ ¬Blocked router topic peerId sequenceNumber := by
  rcases @updateRoute_direct _ _ _ _ _ _ _ router topic peerId sequenceNumber path expiresAt
    hirrefl with ⟨hblocked, heq⟩ | ⟨hfree, route, hnext, _, hle, heq⟩
  · rw [heq]
    exact (or_iff_left fun h ↦ h.2 hblocked).symm
  · rw [heq, mem_getPeersForTopic_setRoute]
    by_cases htopic : topic' = topic
    · exact iff_of_true (.inl ⟨htopic, hlease.trans hle, hnext⟩) (.inr ⟨htopic, hfree⟩)
    · simp [htopic, mem_getPeersForTopic]

/-- No update of the peer changes which topics are blocked. -/
theorem blocked_updateRoute
    (hirrefl : SequenceNumber.lt sequenceNumber sequenceNumber = false) (topic' : Topic) :
    Blocked (router.updateRoute topic peerId peerId 0 sequenceNumber path expiresAt).2 topic' peerId
        sequenceNumber ↔ Blocked router topic' peerId sequenceNumber := by
  rcases @updateRoute_direct _ _ _ _ _ _ _ router topic peerId sequenceNumber path expiresAt
    hirrefl with ⟨_, heq⟩ | ⟨hfree, route, hnext, hlt, _, heq⟩
  · rw [heq]
  · rw [heq]
    by_cases htopic : topic' = topic
    · subst htopic
      refine iff_of_false ?_ hfree
      rintro ⟨existing, hexisting, _, hstale⟩
      rw [routeOf_setRoute_self] at hexisting
      cases hexisting
      rcases hstale with hgreater | hother
      · rw [hlt] at hgreater
        cases hgreater
      · exact hother hnext
    · simp only [Blocked, routeOf_setRoute, htopic, false_and, if_false]

/-- A handshake makes the peer a next hop of all topics that are not blocked. -/
theorem mem_getPeersForTopic_register
    (hirrefl : SequenceNumber.lt sequenceNumber sequenceNumber = false) {now : ℕ}
    (hlease : WithTop.some now ≤ expiresAt) (topics : List Topic) (topic' : Topic) :
    peerId ∈ (router.register peerId sequenceNumber path expiresAt topics).getPeersForTopic
        topic' now ↔
      peerId ∈ router.getPeersForTopic topic' now ∨
        topic' ∈ topics ∧ ¬Blocked router topic' peerId sequenceNumber := by
  induction topics generalizing router with
  | nil => simp [register]
  | cons topic topics ih =>
    have hstep := @ih (router.updateRoute topic peerId peerId 0 sequenceNumber path expiresAt).2
    rw [mem_getPeersForTopic_updateRoute hirrefl hlease, blocked_updateRoute hirrefl] at hstep
    refine hstep.trans ?_
    rw [or_assoc, List.mem_cons]
    refine or_congr_right ?_
    constructor
    · rintro (⟨rfl, hfree⟩ | ⟨hmem, hfree⟩)
      · exact ⟨.inl rfl, hfree⟩
      · exact ⟨.inr hmem, hfree⟩
    · rintro ⟨rfl | hmem, hfree⟩
      · exact .inl ⟨rfl, hfree⟩
      · exact .inr ⟨hmem, hfree⟩

end P2PApp.TopicRouter
