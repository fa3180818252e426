import Mathlib.Data.Finset.Image
import Mathlib.Data.Finset.Dedup
import Mathlib.Order.Lattice.Nat
import Mathlib.Order.WithBot
import P2PApp.Library.OrderedMap

/-!
# The topic router

The distance-vector table: for every topic, a map from the origin of a subscription to the route
towards it. The table is generic in its keys and in the sequence numbers, because the frames of
the network reach it unchecked; the well-typed instance uses strings and natural numbers.

One lookup lemma for each operation says what it does to the route of a topic and an origin, and
everything else about the table follows from those.
-/

namespace P2PApp

/-- The comparisons that the router makes between sequence numbers. -/
class SequenceNumber (Seq : Type*) where
  lt : Seq → Seq → Bool
  same : Seq → Seq → Bool

instance : SequenceNumber ℕ where
  lt left right := decide (left < right)
  same left right := decide (left = right)

@[simp] theorem SequenceNumber.lt_nat (left right : ℕ) :
    SequenceNumber.lt left right = decide (left < right) := rfl

@[simp] theorem SequenceNumber.same_nat (left right : ℕ) :
    SequenceNumber.same left right = decide (left = right) := rfl

/-- `expiresAt` is a clock reading in milliseconds, or infinite for a direct subscription. -/
structure Route (Peer Seq Path : Type*) where
  nextHop : Peer
  hopCount : ℕ
  sequenceNumber : Seq
  path : Path
  expiresAt : WithTop ℕ
  deriving DecidableEq, Repr

structure TopicRouter (Topic Peer Seq Path : Type*) where
  routes : OrderedMap Topic (OrderedMap Peer (Route Peer Seq Path))

namespace TopicRouter

variable {Topic Peer Seq Path : Type*} [DecidableEq Topic] [DecidableEq Peer]

def new : TopicRouter Topic Peer Seq Path := ⟨∅⟩

/-- The stored route for a topic and an origin. -/
def routeOf (router : TopicRouter Topic Peer Seq Path) (topic : Topic) (originPeerId : Peer) :
    Option (Route Peer Seq Path) :=
  (router.routes.get? topic).bind fun topicRoutes ↦ topicRoutes.get? originPeerId

/-- `topicRoutes.set(originPeerId, route)` in the table of `topic`, created when it is missing. -/
def setRoute (router : TopicRouter Topic Peer Seq Path) (topic : Topic) (originPeerId : Peer)
    (route : Route Peer Seq Path) : TopicRouter Topic Peer Seq Path :=
  ⟨router.routes.set topic (((router.routes.get? topic).getD ∅).set originPeerId route)⟩

/-- Whether the update is new or better is the first component: it is then worth forwarding. -/
def updateRoute [SequenceNumber Seq] (router : TopicRouter Topic Peer Seq Path) (topic : Topic)
    (originPeerId nextHop : Peer) (hopCount : ℕ) (sequenceNumber : Seq) (path : Path)
    (expiresAt : WithTop ℕ) : Bool × TopicRouter Topic Peer Seq Path :=
  let route : Route Peer Seq Path := { nextHop, hopCount, sequenceNumber, path, expiresAt }
  match router.routeOf topic originPeerId with
  | some existing =>
    if SequenceNumber.lt sequenceNumber existing.sequenceNumber then (false, router)
    else if SequenceNumber.same sequenceNumber existing.sequenceNumber &&
        decide (existing.hopCount ≤ hopCount) then
      -- The same next hop renews the lease even though nothing is worth forwarding.
      if nextHop = existing.nextHop then
        (false, router.setRoute topic originPeerId
          { existing with expiresAt := max existing.expiresAt expiresAt })
      else (false, router)
    else (true, router.setRoute topic originPeerId route)
  | none => (true, router.setRoute topic originPeerId route)

/-- Whether a route was there is the first component. A table that becomes empty is dropped. -/
def removeRoute (router : TopicRouter Topic Peer Seq Path) (topic : Topic) (originPeerId : Peer) :
    Bool × TopicRouter Topic Peer Seq Path :=
  match router.routes.get? topic with
  | some topicRoutes =>
    let remaining := topicRoutes.erase originPeerId
    (topicRoutes.has originPeerId,
      if remaining.size = 0 then ⟨router.routes.erase topic⟩
      else ⟨router.routes.set topic remaining⟩)
  | none => (false, router)

def subscribe (router : TopicRouter Topic Peer ℕ (List Peer)) (peerId : Peer) (topic : Topic) :
    TopicRouter Topic Peer ℕ (List Peer) :=
  (router.updateRoute topic peerId peerId 0 0 [] ⊤).2

def unsubscribe (router : TopicRouter Topic Peer Seq Path) (peerId : Peer) (topic : Topic) :
    TopicRouter Topic Peer Seq Path :=
  (router.removeRoute topic peerId).2

/-- Next hops of the unexpired routes of a topic. -/
def getPeersForTopic (router : TopicRouter Topic Peer Seq Path) (topic : Topic) (now : ℕ) :
    Finset Peer :=
  match router.routes.get? topic with
  | some topicRoutes =>
    ((topicRoutes.values.filter fun route ↦ WithTop.some now ≤ route.expiresAt).map
      Route.nextHop).toFinset
  | none => ∅

/-- The topics under which a peer is an origin. -/
def topicsOf (router : TopicRouter Topic Peer Seq Path) (peerId : Peer) : List Topic :=
  (router.routes.filter fun _ topicRoutes ↦ topicRoutes.has peerId).keys

/-- Every peer is implicitly subscribed to `global` and to its own direct messages. -/
def getTopicsForPeer (router : TopicRouter String String Seq Path) (peerId : String) :
    List String :=
  let implicit := ["global", "dm:" ++ peerId]
  implicit ++ (router.topicsOf peerId).filter fun topic ↦ topic ∉ implicit

/-- Keep the routes that satisfy `keep`, and drop the tables that become empty. -/
def prune (router : TopicRouter Topic Peer Seq Path) (keep : Peer → Route Peer Seq Path → Bool) :
    TopicRouter Topic Peer Seq Path :=
  ⟨(router.routes.mapValues fun _ topicRoutes ↦ topicRoutes.filter keep).filter
    fun _ topicRoutes ↦ topicRoutes.size ≠ 0⟩

def clearRoutesForPeer (router : TopicRouter Topic Peer Seq Path) (peerId : Peer) :
    TopicRouter Topic Peer Seq Path :=
  router.prune fun originPeerId route ↦ ¬(route.nextHop = peerId ∨ originPeerId = peerId)

def gc (router : TopicRouter Topic Peer Seq Path) (now : ℕ) : TopicRouter Topic Peer Seq Path :=
  router.prune fun _ route ↦ ¬route.expiresAt < WithTop.some now

/-! ## What each operation does to one route -/

@[simp] theorem routeOf_new (topic : Topic) (originPeerId : Peer) :
    (new : TopicRouter Topic Peer Seq Path).routeOf topic originPeerId = none := rfl

theorem routeOf_setRoute (router : TopicRouter Topic Peer Seq Path) (topic topic' : Topic)
    (originPeerId originPeerId' : Peer) (route : Route Peer Seq Path) :
    (router.setRoute topic originPeerId route).routeOf topic' originPeerId' =
      if topic' = topic ∧ originPeerId' = originPeerId then some route
      else router.routeOf topic' originPeerId' := by
  unfold routeOf setRoute
  by_cases htopic : topic' = topic
  · subst htopic
    cases h : router.routes.get? topic' <;> simp [OrderedMap.get?_set]
  · simp [OrderedMap.get?_set_of_ne _ _ htopic, htopic]

@[simp] theorem routeOf_setRoute_self (router : TopicRouter Topic Peer Seq Path) (topic : Topic)
    (originPeerId : Peer) (route : Route Peer Seq Path) :
    (router.setRoute topic originPeerId route).routeOf topic originPeerId = some route := by
  simp [routeOf_setRoute]

/-- The candidate is at least as recent as the route, and shorter if it is equally recent. -/
def Improves [SequenceNumber Seq] (sequenceNumber : Seq) (hopCount : ℕ)
    (existing : Route Peer Seq Path) : Prop :=
  SequenceNumber.lt sequenceNumber existing.sequenceNumber = false ∧
    (SequenceNumber.same sequenceNumber existing.sequenceNumber = false ∨
      hopCount < existing.hopCount)

section UpdateRoute

variable [SequenceNumber Seq] (router : TopicRouter Topic Peer Seq Path) (topic : Topic)
  (originPeerId nextHop : Peer) (hopCount : ℕ) (sequenceNumber : Seq) (path : Path)
  (expiresAt : WithTop ℕ)

/-- Everything one update can do: install the candidate, renew a lease, or nothing. -/
theorem updateRoute_cases :
    (router.updateRoute topic originPeerId nextHop hopCount sequenceNumber path expiresAt =
        (true, router.setRoute topic originPeerId
          { nextHop, hopCount, sequenceNumber, path, expiresAt }) ∧
      ∀ existing, router.routeOf topic originPeerId = some existing →
        Improves sequenceNumber hopCount existing) ∨
    (∃ existing, router.routeOf topic originPeerId = some existing ∧
      ¬Improves sequenceNumber hopCount existing ∧
      SequenceNumber.lt sequenceNumber existing.sequenceNumber = false ∧
      nextHop = existing.nextHop ∧
      router.updateRoute topic originPeerId nextHop hopCount sequenceNumber path expiresAt =
        (false, router.setRoute topic originPeerId
          { existing with expiresAt := max existing.expiresAt expiresAt })) ∨
    (∃ existing, router.routeOf topic originPeerId = some existing ∧
      ¬Improves sequenceNumber hopCount existing ∧
      (SequenceNumber.lt sequenceNumber existing.sequenceNumber = true ∨
        nextHop ≠ existing.nextHop) ∧
      router.updateRoute topic originPeerId nextHop hopCount sequenceNumber path expiresAt =
        (false, router)) := by
  unfold updateRoute
  cases hroute : router.routeOf topic originPeerId with
  | none => exact .inl ⟨rfl, by simp⟩
  | some existing =>
    by_cases hlt : SequenceNumber.lt sequenceNumber existing.sequenceNumber = true
    · exact .inr (.inr ⟨existing, rfl, by simp [Improves, hlt], .inl hlt, by simp [hlt]⟩)
    · by_cases hsame : (SequenceNumber.same sequenceNumber existing.sequenceNumber &&
          decide (existing.hopCount ≤ hopCount)) = true
      · have hworse : ¬Improves sequenceNumber hopCount existing := by
          simp only [Bool.and_eq_true, decide_eq_true_eq] at hsame
          intro h
          rcases h.2 with hdiffers | hshorter
          · rw [hsame.1] at hdiffers
            cases hdiffers
          · omega
        by_cases hnext : nextHop = existing.nextHop
        · exact .inr (.inl ⟨existing, rfl, hworse, by simpa using hlt, hnext,
            by simp [hlt, hsame, hnext]⟩)
        · exact .inr (.inr ⟨existing, rfl, hworse, .inr hnext, by simp [hlt, hsame, hnext]⟩)
      · refine .inl ⟨by simp [hlt, hsame], ?_⟩
        intro other hother
        cases hother
        refine ⟨by simpa using hlt, ?_⟩
        by_cases hdiffers : SequenceNumber.same sequenceNumber existing.sequenceNumber = true
        · right
          simpa [hdiffers] using hsame
        · left
          simpa using hdiffers

/-- An update is worth forwarding exactly when it improves on the route there is, if any. -/
theorem updateRoute_fst :
    (router.updateRoute topic originPeerId nextHop hopCount sequenceNumber path
        expiresAt).1 = true ↔
      ∀ existing, router.routeOf topic originPeerId = some existing →
        Improves sequenceNumber hopCount existing := by
  rcases router.updateRoute_cases topic originPeerId nextHop hopCount sequenceNumber path
    expiresAt with ⟨heq, himproves⟩ | ⟨existing, hroute, hworse, _, _, heq⟩ |
      ⟨existing, hroute, hworse, _, heq⟩
  · rw [heq]
    exact iff_of_true rfl himproves
  · rw [heq]
    exact iff_of_false (by simp) fun h ↦ hworse (h existing hroute)
  · rw [heq]
    exact iff_of_false (by simp) fun h ↦ hworse (h existing hroute)

/-- Routes of other topics and origins are untouched. -/
theorem routeOf_updateRoute_of_ne {topic' : Topic} {originPeerId' : Peer}
    (h : ¬(topic' = topic ∧ originPeerId' = originPeerId)) :
    (router.updateRoute topic originPeerId nextHop hopCount sequenceNumber path
      expiresAt).2.routeOf topic' originPeerId' = router.routeOf topic' originPeerId' := by
  have hcases := router.updateRoute_cases topic originPeerId nextHop hopCount sequenceNumber path
    expiresAt
  rcases hcases with ⟨heq, _⟩ | ⟨_, _, _, _, _, heq⟩ | ⟨_, _, _, _, heq⟩ <;>
    rw [heq] <;> simp [routeOf_setRoute, h]

/-- An update that supersedes the route there is, if any, is installed. -/
theorem updateRoute_of_improves (h : ∀ existing, router.routeOf topic originPeerId = some existing →
    Improves sequenceNumber hopCount existing) :
    router.updateRoute topic originPeerId nextHop hopCount sequenceNumber path expiresAt =
      (true, router.setRoute topic originPeerId
        { nextHop, hopCount, sequenceNumber, path, expiresAt }) := by
  rcases router.updateRoute_cases topic originPeerId nextHop hopCount sequenceNumber path
    expiresAt with ⟨heq, _⟩ | ⟨existing, hroute, hworse, _⟩ | ⟨existing, hroute, hworse, _⟩
  · exact heq
  · exact absurd (h existing hroute) hworse
  · exact absurd (h existing hroute) hworse

theorem updateRoute_of_none (h : router.routeOf topic originPeerId = none) :
    router.updateRoute topic originPeerId nextHop hopCount sequenceNumber path expiresAt =
      (true, router.setRoute topic originPeerId
        { nextHop, hopCount, sequenceNumber, path, expiresAt }) := by
  simp [updateRoute, h]

end UpdateRoute

theorem removeRoute_fst (router : TopicRouter Topic Peer Seq Path) (topic : Topic)
    (originPeerId : Peer) :
    (router.removeRoute topic originPeerId).1 = (router.routeOf topic originPeerId).isSome := by
  unfold removeRoute routeOf
  cases router.routes.get? topic <;> simp [OrderedMap.has]

/-- A removal clears one route whatever its sequence number, and touches no other. -/
theorem routeOf_removeRoute (router : TopicRouter Topic Peer Seq Path) (topic topic' : Topic)
    (originPeerId originPeerId' : Peer) :
    (router.removeRoute topic originPeerId).2.routeOf topic' originPeerId' =
      if topic' = topic ∧ originPeerId' = originPeerId then none
      else router.routeOf topic' originPeerId' := by
  unfold removeRoute routeOf
  cases htable : router.routes.get? topic with
  | none =>
    by_cases htopic : topic' = topic
    · subst htopic
      simp [htable]
    · simp [htopic]
  | some topicRoutes =>
    by_cases htopic : topic' = topic
    · subst htopic
      by_cases hsize : (topicRoutes.erase originPeerId).size = 0
      · have hnone := OrderedMap.size_eq_zero_iff.1 hsize originPeerId'
        rw [OrderedMap.get?_erase] at hnone
        by_cases horigin : originPeerId' = originPeerId
        · simp [hsize, horigin]
        · simpa [hsize, horigin, htable] using hnone.symm
      · simp [hsize, OrderedMap.get?_erase, htable]
    · by_cases hsize : (topicRoutes.erase originPeerId).size = 0
      · simp [hsize, htopic, OrderedMap.get?_erase]
      · simp [hsize, htopic, OrderedMap.get?_set_of_ne _ _ htopic]

/-- Pruning keeps a route exactly when it satisfies the condition. -/
theorem routeOf_prune (router : TopicRouter Topic Peer Seq Path)
    (keep : Peer → Route Peer Seq Path → Bool) (topic : Topic) (originPeerId : Peer) :
    (router.prune keep).routeOf topic originPeerId =
      (router.routeOf topic originPeerId).filter (keep originPeerId) := by
  unfold routeOf prune
  rw [OrderedMap.get?_filter, OrderedMap.get?_mapValues]
  cases router.routes.get? topic with
  | none => rfl
  | some topicRoutes =>
    rw [Option.map_some, Option.bind_some, ← OrderedMap.get?_filter]
    by_cases hsize : (topicRoutes.filter keep).size = 0
    · have hnone := OrderedMap.size_eq_zero_iff.1 hsize originPeerId
      simp [Option.filter, hsize, hnone]
    · simp [Option.filter, hsize]

/-- Within its lease a route survives garbage collection. -/
theorem routeOf_gc (router : TopicRouter Topic Peer Seq Path) (now : ℕ) (topic : Topic)
    (originPeerId : Peer) :
    (router.gc now).routeOf topic originPeerId =
      (router.routeOf topic originPeerId).filter fun route ↦ WithTop.some now ≤
        route.expiresAt := by
  rw [gc, routeOf_prune]
  simp only [not_lt]

end TopicRouter

end P2PApp
