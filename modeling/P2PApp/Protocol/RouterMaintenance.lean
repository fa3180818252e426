import P2PApp.Library.LiveMap
import P2PApp.Protocol.SoftState

/-!
# Maintenance of the routing table

The router keeps a `Map` of `Map`s and deletes routes and whole tables while it iterates over both.
Here both are maps of slots, so that the loops are those of the source. What the slots hold is the
router of `TopicRouter`, whose operations these simulate.
-/

namespace P2PApp

structure LiveRouter (Topic Peer Seq Path : Type*) where
  routes : LiveMap Topic (LiveMap Peer (Route Peer Seq Path))

namespace LiveRouter

variable {Topic Peer Seq Path : Type*} [DecidableEq Topic] [DecidableEq Peer]

def new : LiveRouter Topic Peer Seq Path := ⟨∅⟩

/-- `if (!this.routes.has(topic)) this.routes.set(topic, new Map())`. -/
def withTable (router : LiveRouter Topic Peer Seq Path) (topic : Topic) :
    LiveMap Topic (LiveMap Peer (Route Peer Seq Path)) :=
  if router.routes.has topic then router.routes else router.routes.set topic ∅

def updateRoute [SequenceNumber Seq] (router : LiveRouter Topic Peer Seq Path) (topic : Topic)
    (originPeerId nextHop : Peer) (hopCount : ℕ) (sequenceNumber : Seq) (path : Path)
    (expiresAt : WithTop ℕ) : Bool × LiveRouter Topic Peer Seq Path :=
  let routes := router.withTable topic
  let topicRoutes := (routes.get? topic).getD ∅
  let route : Route Peer Seq Path := { nextHop, hopCount, sequenceNumber, path, expiresAt }
  match topicRoutes.get? originPeerId with
  | some existing =>
    if SequenceNumber.lt sequenceNumber existing.sequenceNumber then (false, ⟨routes⟩)
    else if SequenceNumber.same sequenceNumber existing.sequenceNumber &&
        decide (existing.hopCount ≤ hopCount) then
      if nextHop = existing.nextHop then
        (false, ⟨routes.set topic (topicRoutes.set originPeerId
          { existing with expiresAt := max existing.expiresAt expiresAt })⟩)
      else (false, ⟨routes⟩)
    else (true, ⟨routes.set topic (topicRoutes.set originPeerId route)⟩)
  | none => (true, ⟨routes.set topic (topicRoutes.set originPeerId route)⟩)

def removeRoute (router : LiveRouter Topic Peer Seq Path) (topic : Topic) (originPeerId : Peer) :
    Bool × LiveRouter Topic Peer Seq Path :=
  match router.routes.get? topic with
  | some topicRoutes =>
    let remaining := topicRoutes.delete originPeerId
    let routes := router.routes.set topic remaining
    (topicRoutes.has originPeerId,
      if remaining.size = 0 then ⟨routes.delete topic⟩ else ⟨routes⟩)
  | none => (false, router)

def subscribe [SequenceNumber Seq] [Zero Seq] [EmptyCollection Path]
    (router : LiveRouter Topic Peer Seq Path) (peerId : Peer) (topic : Topic) :
    LiveRouter Topic Peer Seq Path :=
  (router.updateRoute topic peerId peerId 0 0 ∅ ⊤).2

def unsubscribe (router : LiveRouter Topic Peer Seq Path) (peerId : Peer) (topic : Topic) :
    LiveRouter Topic Peer Seq Path :=
  (router.removeRoute topic peerId).2

/-- What a route adds to the next hops, if it is unexpired. -/
def addNextHop (now : ℕ) (peers : List Peer) (route : Route Peer Seq Path) : List Peer :=
  if WithTop.some now ≤ route.expiresAt ∧ route.nextHop ∉ peers then peers ++ [route.nextHop]
  else peers

/-- The next hops of the unexpired routes of a topic, in the order in which they are added. -/
def getPeersForTopic (router : LiveRouter Topic Peer Seq Path) (topic : Topic) (now : ℕ) :
    List Peer :=
  match router.routes.get? topic with
  | some topicRoutes => topicRoutes.contents.values.foldl (addNextHop now) []
  | none => []

/-- `for (const [originPeerId, route] of topicRoutes.entries())`. -/
def deleteRoutes (drop : Peer → Route Peer Seq Path → Bool) :
    LiveMap.Body Peer (Route Peer Seq Path) where
  run topicRoutes entry :=
    if drop entry.1 entry.2 then topicRoutes.delete entry.1 else topicRoutes
  length_run topicRoutes entry := by
    split
    · exact topicRoutes.length_slots_delete entry.1
    · rfl

/-- `for (const [topic, topicRoutes] of this.routes.entries())`. A table that becomes empty goes. -/
def deleteTables (drop : Peer → Route Peer Seq Path → Bool) :
    LiveMap.Body Topic (LiveMap Peer (Route Peer Seq Path)) where
  run routes entry :=
    let topicRoutes := LiveMap.iterate (deleteRoutes drop) entry.2
    let routes := routes.modify entry.1 fun _ ↦ topicRoutes
    if topicRoutes.size = 0 then routes.delete entry.1 else routes
  length_run routes entry := by
    dsimp only
    split
    · rw [LiveMap.length_slots_delete, LiveMap.length_slots_modify]
    · rw [LiveMap.length_slots_modify]

def clearRoutesForPeer (router : LiveRouter Topic Peer Seq Path) (peerId : Peer) :
    LiveRouter Topic Peer Seq Path :=
  ⟨LiveMap.iterate
    (deleteTables fun originPeerId route ↦ route.nextHop = peerId ∨ originPeerId = peerId)
    router.routes⟩

def gc (router : LiveRouter Topic Peer Seq Path) (now : ℕ) : LiveRouter Topic Peer Seq Path :=
  ⟨LiveMap.iterate (deleteTables fun _ route ↦ route.expiresAt < WithTop.some now) router.routes⟩

/-! ## What the slots hold -/

def contents (router : LiveRouter Topic Peer Seq Path) : TopicRouter Topic Peer Seq Path :=
  ⟨router.routes.contents.mapValues fun _ ↦ LiveMap.contents⟩

/-- The stored route for a topic and an origin. -/
def routeOf (router : LiveRouter Topic Peer Seq Path) (topic : Topic) (originPeerId : Peer) :
    Option (Route Peer Seq Path) :=
  (router.routes.get? topic).bind fun topicRoutes ↦ topicRoutes.get? originPeerId

omit [DecidableEq Peer] in
theorem get?_contents (router : LiveRouter Topic Peer Seq Path) (topic : Topic) :
    router.contents.routes.get? topic = (router.routes.get? topic).map LiveMap.contents :=
  OrderedMap.get?_mapValues _ _ topic

theorem routeOf_contents (router : LiveRouter Topic Peer Seq Path) (topic : Topic)
    (originPeerId : Peer) :
    router.contents.routeOf topic originPeerId = router.routeOf topic originPeerId := by
  rw [TopicRouter.routeOf, get?_contents, routeOf]
  cases router.routes.get? topic <;> rfl

section Simulation

variable (router : LiveRouter Topic Peer Seq Path) (topic : Topic)

omit [DecidableEq Peer] in
/-- There was a table, or there is an empty one now. -/
theorem withTable_cases :
    (∃ topicRoutes, router.routes.get? topic = some topicRoutes ∧
      router.withTable topic = router.routes) ∨
    (router.routes.get? topic = none ∧ router.withTable topic = router.routes.set topic ∅) := by
  unfold withTable LiveMap.has OrderedMap.has
  cases htable : router.routes.get? topic with
  | none =>
    have hnone : router.routes.contents.get? topic = none := htable
    exact .inr ⟨rfl, by rw [hnone]; rfl⟩
  | some topicRoutes =>
    have hsome : router.routes.contents.get? topic = some topicRoutes := htable
    exact .inl ⟨topicRoutes, rfl, by rw [hsome]; rfl⟩

/-- An empty table makes no difference to the routes. -/
theorem get?_withTable (originPeerId : Peer) :
    (((router.withTable topic).get? topic).getD ∅).get? originPeerId =
      router.contents.routeOf topic originPeerId := by
  rw [routeOf_contents, routeOf]
  rcases router.withTable_cases topic with ⟨topicRoutes, htable, heq⟩ | ⟨htable, heq⟩
  · rw [heq, htable]
    rfl
  · rw [heq, htable, LiveMap.get?_set_self]
    rfl

theorem contents_withTable {originPeerId : Peer} {existing : Route Peer Seq Path}
    (h : router.contents.routeOf topic originPeerId = some existing) :
    contents ⟨router.withTable topic⟩ = router.contents := by
  rw [routeOf_contents, routeOf] at h
  rcases router.withTable_cases topic with ⟨topicRoutes, htable, heq⟩ | ⟨htable, heq⟩
  · rw [heq]
  · rw [htable] at h
    cases h

theorem contents_set_withTable (originPeerId : Peer) (route : Route Peer Seq Path) :
    contents ⟨(router.withTable topic).set topic
        ((((router.withTable topic).get? topic).getD ∅).set originPeerId route)⟩ =
      router.contents.setRoute topic originPeerId route := by
  unfold TopicRouter.setRoute
  rw [get?_contents]
  unfold contents
  congr 1
  rw [LiveMap.contents_set, OrderedMap.mapValues_set, LiveMap.contents_set]
  rcases router.withTable_cases topic with ⟨topicRoutes, htable, heq⟩ | ⟨htable, heq⟩
  · rw [heq, htable]
    rfl
  · rw [heq, htable, LiveMap.get?_set_self, LiveMap.contents_set, OrderedMap.mapValues_set,
      OrderedMap.set_set]
    rfl

/-- An update of the slots is an update of what they hold. -/
theorem updateRoute_contents [SequenceNumber Seq] (originPeerId nextHop : Peer) (hopCount : ℕ)
    (sequenceNumber : Seq) (path : Path) (expiresAt : WithTop ℕ) :
    (router.updateRoute topic originPeerId nextHop hopCount sequenceNumber path expiresAt).map id
        contents =
      router.contents.updateRoute topic originPeerId nextHop hopCount sequenceNumber path
        expiresAt := by
  unfold updateRoute TopicRouter.updateRoute
  dsimp only
  rw [get?_withTable]
  cases hroute : router.contents.routeOf topic originPeerId with
  | none => exact congrArg (Prod.mk true) (router.contents_set_withTable topic originPeerId _)
  | some existing =>
    have hsame := router.contents_withTable topic hroute
    dsimp only
    split_ifs
    · exact congrArg (Prod.mk false) hsame
    · exact congrArg (Prod.mk false) (router.contents_set_withTable topic originPeerId _)
    · exact congrArg (Prod.mk false) hsame
    · exact congrArg (Prod.mk true) (router.contents_set_withTable topic originPeerId _)

theorem removeRoute_contents (originPeerId : Peer) :
    (router.removeRoute topic originPeerId).map id contents =
      router.contents.removeRoute topic originPeerId := by
  unfold removeRoute TopicRouter.removeRoute
  rw [get?_contents]
  cases htable : router.routes.get? topic with
  | none => rfl
  | some topicRoutes =>
    have hset : contents ⟨router.routes.set topic (topicRoutes.delete originPeerId)⟩ =
        ⟨router.contents.routes.set topic (topicRoutes.contents.erase originPeerId)⟩ := by
      rw [contents, LiveMap.contents_set, OrderedMap.mapValues_set, LiveMap.contents_delete]
      rfl
    have hdelete :
        contents ⟨(router.routes.set topic (topicRoutes.delete originPeerId)).delete topic⟩ =
          ⟨router.contents.routes.erase topic⟩ := by
      rw [contents, LiveMap.contents_delete, LiveMap.contents_set, OrderedMap.erase_set,
        OrderedMap.mapValues_erase]
      rfl
    have hsize : (topicRoutes.delete originPeerId).size =
        (topicRoutes.contents.erase originPeerId).size := by
      rw [LiveMap.size, LiveMap.contents_delete]
    dsimp only [Option.map_some]
    rw [hsize]
    split_ifs
    · exact congrArg (Prod.mk (topicRoutes.has originPeerId)) hdelete
    · exact congrArg (Prod.mk (topicRoutes.has originPeerId)) hset

end Simulation

section Loops

variable (drop : Peer → Route Peer Seq Path → Bool)

theorem deleteRoutes_rewritesBy :
    LiveMap.RewritesBy (deleteRoutes drop) fun entry ↦
      if drop entry.1 entry.2 then none else some entry := by
  intro topicRoutes index entry hslot
  dsimp only [deleteRoutes]
  split
  · exact LiveMap.slots_alter hslot _
  · exact (LiveMap.set_eq_self hslot).symm

/-- The inner loop leaves the routes that are not to be dropped. -/
theorem contents_iterate_deleteRoutes (topicRoutes : LiveMap Peer (Route Peer Seq Path)) :
    (LiveMap.iterate (deleteRoutes drop) topicRoutes).contents =
      topicRoutes.contents.filter fun originPeerId route ↦ !drop originPeerId route := by
  apply OrderedMap.eq_of_entries
  rw [(deleteRoutes_rewritesBy drop).entries_iterate, OrderedMap.entries_filter,
    ← List.filterMap_eq_filter]
  refine List.filterMap_congr fun entry _ ↦ ?_
  cases h : drop entry.1 entry.2 <;> simp [Option.guard, h]

theorem deleteTables_rewritesBy :
    LiveMap.RewritesBy (@deleteTables Topic Peer Seq Path _ _ drop) fun entry ↦
      if (LiveMap.iterate (deleteRoutes drop) entry.2).size = 0 then none
      else some (entry.1, LiveMap.iterate (deleteRoutes drop) entry.2) := by
  intro routes index entry hslot
  have hmodify := LiveMap.slots_alter hslot
    fun _ ↦ some (LiveMap.iterate (deleteRoutes drop) entry.2)
  dsimp only [deleteTables]
  split
  · have hmodified : (routes.modify entry.1 fun _ ↦ LiveMap.iterate (deleteRoutes drop)
        entry.2).slots[index]? = some (some (entry.1, LiveMap.iterate (deleteRoutes drop)
        entry.2)) := by
      rw [LiveMap.modify, hmodify]
      exact List.getElem?_set_self (List.getElem?_eq_some_iff.1 hslot).1
    refine (LiveMap.slots_alter hmodified fun _ ↦ none).trans ?_
    rw [LiveMap.modify, hmodify, List.set_set]
    rfl
  · exact hmodify

/-- The outer loop prunes the table. -/
theorem contents_iterate_deleteTables
    (routes : LiveMap Topic (LiveMap Peer (Route Peer Seq Path))) :
    contents ⟨LiveMap.iterate (deleteTables drop) routes⟩ =
      (contents ⟨routes⟩).prune fun originPeerId route ↦ !drop originPeerId route := by
  unfold contents TopicRouter.prune
  congr 1
  apply OrderedMap.eq_of_entries
  rw [OrderedMap.entries_mapValues, (deleteTables_rewritesBy drop).entries_iterate,
    OrderedMap.entries_filter, OrderedMap.entries_mapValues, OrderedMap.entries_mapValues]
  induction routes.contents.entries with
  | nil => rfl
  | cons entry entries ih =>
    have hcontents := contents_iterate_deleteRoutes drop entry.2
    have hsize : (LiveMap.iterate (deleteRoutes drop) entry.2).size =
        (entry.2.contents.filter fun originPeerId route ↦ !drop originPeerId route).size := by
      rw [LiveMap.size, hcontents]
    rw [List.filterMap_cons, List.map_cons, List.map_cons, List.filter_cons, hsize]
    by_cases hempty :
        (entry.2.contents.filter fun originPeerId route ↦ !drop originPeerId route).size = 0
    · simpa [hempty] using ih
    · simpa [hempty, hcontents] using ih

end Loops

theorem contents_clearRoutesForPeer (router : LiveRouter Topic Peer Seq Path) (peerId : Peer) :
    (router.clearRoutesForPeer peerId).contents = router.contents.clearRoutesForPeer peerId := by
  refine (contents_iterate_deleteTables _ router.routes).trans ?_
  simp only [TopicRouter.clearRoutesForPeer, decide_not]

theorem contents_gc (router : LiveRouter Topic Peer Seq Path) (now : ℕ) :
    (router.gc now).contents = router.contents.gc now := by
  refine (contents_iterate_deleteTables _ router.routes).trans ?_
  simp only [TopicRouter.gc, decide_not]

/-! ## Next hops -/

theorem mem_foldl_addNextHop {now : ℕ} {routes : List (Route Peer Seq Path)} {peers : List Peer}
    {peerId : Peer} : peerId ∈ routes.foldl (addNextHop now) peers ↔
      peerId ∈ peers ∨ ∃ route ∈ routes, WithTop.some now ≤ route.expiresAt ∧
        route.nextHop = peerId := by
  induction routes generalizing peers with
  | nil => simp
  | cons route routes ih =>
    have hstep : peerId ∈ addNextHop now peers route ↔
        peerId ∈ peers ∨ WithTop.some now ≤ route.expiresAt ∧ route.nextHop = peerId := by
      unfold addNextHop
      split_ifs with hadds
      · rw [List.mem_append, List.mem_singleton]
        exact or_congr_right ⟨fun heq ↦ ⟨hadds.1, heq.symm⟩, fun hnew ↦ hnew.2.symm⟩
      · constructor
        · exact .inl
        · rintro (hmem | ⟨hvalid, rfl⟩)
          · exact hmem
          · by_contra hnew
            exact hadds ⟨hvalid, hnew⟩
    rw [List.foldl_cons, ih, hstep, or_assoc]
    simp

/-- As a set, the next hops are those of what the slots hold. -/
theorem toFinset_getPeersForTopic (router : LiveRouter Topic Peer Seq Path) (topic : Topic)
    (now : ℕ) : (router.getPeersForTopic topic now).toFinset =
      router.contents.getPeersForTopic topic now := by
  unfold getPeersForTopic TopicRouter.getPeersForTopic
  rw [get?_contents]
  cases router.routes.get? topic with
  | none => rfl
  | some topicRoutes =>
    ext peerId
    simp [mem_foldl_addNextHop, and_assoc]

/-- Routes that expired before contribute nothing. -/
theorem foldl_addNextHop_filter {now : ℕ} {keep : Peer → Route Peer Seq Path → Bool}
    {entries : List (Peer × Route Peer Seq Path)}
    (h : ∀ entry ∈ entries, WithTop.some now ≤ entry.2.expiresAt → keep entry.1 entry.2 = true)
    (peers : List Peer) :
    ((entries.filter fun entry ↦ keep entry.1 entry.2).map Prod.snd).foldl (addNextHop now) peers =
      (entries.map Prod.snd).foldl (addNextHop now) peers := by
  induction entries generalizing peers with
  | nil => rfl
  | cons entry entries ih =>
    have hrest := ih (List.forall_mem_of_forall_mem_cons h)
    by_cases hkeep : keep entry.1 entry.2 = true
    · rw [List.filter_cons, if_pos hkeep, List.map_cons, List.map_cons, List.foldl_cons,
        List.foldl_cons]
      exact hrest _
    · have hexpired : ¬WithTop.some now ≤ entry.2.expiresAt := fun hvalid ↦
        hkeep (h entry List.mem_cons_self hvalid)
      have hnothing : addNextHop now peers entry.2 = peers := if_neg fun hadds ↦ hexpired hadds.1
      rw [List.filter_cons, if_neg hkeep, List.map_cons, List.foldl_cons, hnothing]
      exact hrest peers

theorem getPeersForTopic_eq (router : LiveRouter Topic Peer Seq Path) (topic : Topic) (now : ℕ) :
    router.getPeersForTopic topic now =
      (router.contents.routes.get? topic).elim []
        fun topicRoutes ↦ topicRoutes.values.foldl (addNextHop now) [] := by
  rw [get?_contents, getPeersForTopic]
  cases router.routes.get? topic <;> rfl

/-- A table that is dropped because it is empty had no next hops. -/
theorem elim_filter_size (topicRoutes : OrderedMap Peer (Route Peer Seq Path)) (now : ℕ) :
    ((some topicRoutes).filter fun topicRoutes ↦ topicRoutes.size ≠ 0).elim []
        (fun topicRoutes ↦ topicRoutes.values.foldl (addNextHop now) []) =
      topicRoutes.values.foldl (addNextHop now) [] := by
  by_cases hempty : topicRoutes.size = 0
  · have hnone : topicRoutes.values = [] := by
      rw [OrderedMap.values, List.length_eq_zero_iff.1 hempty]
      rfl
    rw [Option.filter_some, if_neg (by simpa using hempty), hnone]
    rfl
  · rw [Option.filter_some, if_pos (by simpa using hempty)]
    rfl

/-- A garbage collection is not noticed at its time or later. -/
theorem getPeersForTopic_gc (router : LiveRouter Topic Peer Seq Path) {now time : ℕ}
    (h : now ≤ time) (topic : Topic) :
    (router.gc now).getPeersForTopic topic time = router.getPeersForTopic topic time := by
  rw [getPeersForTopic_eq, getPeersForTopic_eq, contents_gc, TopicRouter.gc, TopicRouter.prune,
    OrderedMap.get?_filter, OrderedMap.get?_mapValues]
  cases router.contents.routes.get? topic with
  | none => rfl
  | some topicRoutes =>
    have hkeep (entry : Peer × Route Peer Seq Path) (_ : entry ∈ topicRoutes.entries)
        (hvalid : WithTop.some time ≤ entry.2.expiresAt) :
        decide (¬entry.2.expiresAt < WithTop.some now) = true :=
      decide_eq_true (not_lt.2 ((WithTop.coe_le_coe.2 h).trans hvalid))
    let remaining := topicRoutes.filter fun _ route ↦ decide (¬route.expiresAt < WithTop.some now)
    have hsame : remaining.values.foldl (addNextHop time) [] =
        topicRoutes.values.foldl (addNextHop time) [] :=
      @foldl_addNextHop_filter _ _ _ _ time (fun _ route ↦ ¬route.expiresAt < WithTop.some now)
        topicRoutes.entries hkeep []
    exact (elim_filter_size remaining time).trans hsame

end LiveRouter

/-! ## Empty tables -/

namespace TopicRouter

variable {Topic Peer Seq Path : Type*} [DecidableEq Topic] [DecidableEq Peer]

/-- No topic has an empty table. -/
def TablesNonempty (router : TopicRouter Topic Peer Seq Path) : Prop :=
  ∀ topic, ∀ topicRoutes ∈ router.routes.get? topic, topicRoutes.size ≠ 0

variable {router : TopicRouter Topic Peer Seq Path}

theorem TablesNonempty.setRoute (h : router.TablesNonempty) (topic : Topic) (originPeerId : Peer)
    (route : Route Peer Seq Path) : (router.setRoute topic originPeerId route).TablesNonempty := by
  intro other topicRoutes htable
  rw [TopicRouter.setRoute, OrderedMap.get?_set] at htable
  split at htable
  · cases htable
    intro hempty
    have hnone := OrderedMap.size_eq_zero_iff.1 hempty originPeerId
    rw [OrderedMap.get?_set_self] at hnone
    cases hnone
  · exact h other topicRoutes htable

theorem TablesNonempty.updateRoute [SequenceNumber Seq] (h : router.TablesNonempty) (topic : Topic)
    (originPeerId nextHop : Peer) (hopCount : ℕ) (sequenceNumber : Seq) (path : Path)
    (expiresAt : WithTop ℕ) :
    (router.updateRoute topic originPeerId nextHop hopCount sequenceNumber path
      expiresAt).2.TablesNonempty := by
  rcases router.updateRoute_cases topic originPeerId nextHop hopCount sequenceNumber path
    expiresAt with ⟨heq, -⟩ | ⟨existing, -, -, -, -, heq⟩ | ⟨existing, -, -, -, heq⟩
  · rw [heq]
    exact h.setRoute topic originPeerId _
  · rw [heq]
    exact h.setRoute topic originPeerId _
  · rw [heq]
    exact h

theorem TablesNonempty.removeRoute (h : router.TablesNonempty) (topic : Topic)
    (originPeerId : Peer) : (router.removeRoute topic originPeerId).2.TablesNonempty := by
  unfold TopicRouter.removeRoute
  cases htable : router.routes.get? topic with
  | none => exact h
  | some topicRoutes =>
    intro other found hfound
    dsimp only at hfound
    split at hfound
    · rw [OrderedMap.get?_erase] at hfound
      split at hfound
      · cases hfound
      · exact h other found hfound
    · next hremaining =>
      rw [OrderedMap.get?_set] at hfound
      split at hfound
      · cases hfound
        exact hremaining
      · exact h other found hfound

omit [DecidableEq Peer] in
theorem tablesNonempty_prune (router : TopicRouter Topic Peer Seq Path)
    (keep : Peer → Route Peer Seq Path → Bool) : (router.prune keep).TablesNonempty := by
  intro topic topicRoutes htable
  rw [prune, OrderedMap.get?_filter, Option.mem_def, Option.filter_eq_some_iff] at htable
  exact of_decide_eq_true htable.2

end TopicRouter

namespace LiveRouter

variable {Topic Peer Seq Path : Type*} [DecidableEq Topic] [DecidableEq Peer]

/-! ## Runs -/

inductive Operation (Topic Peer Seq Path : Type*)
  | subscribe (peerId : Peer) (topic : Topic)
  | unsubscribe (peerId : Peer) (topic : Topic)
  | updateRoute (topic : Topic) (originPeerId nextHop : Peer) (hopCount : ℕ) (sequenceNumber : Seq)
      (path : Path) (expiresAt : WithTop ℕ)
  | removeRoute (topic : Topic) (originPeerId : Peer)
  | clearRoutesForPeer (peerId : Peer)
  | gc (now : ℕ)

variable [SequenceNumber Seq] [Zero Seq] [EmptyCollection Path]

def next (router : LiveRouter Topic Peer Seq Path) :
    Operation Topic Peer Seq Path → LiveRouter Topic Peer Seq Path
  | .subscribe peerId topic => router.subscribe peerId topic
  | .unsubscribe peerId topic => router.unsubscribe peerId topic
  | .updateRoute topic originPeerId nextHop hopCount sequenceNumber path expiresAt =>
    (router.updateRoute topic originPeerId nextHop hopCount sequenceNumber path expiresAt).2
  | .removeRoute topic originPeerId => (router.removeRoute topic originPeerId).2
  | .clearRoutesForPeer peerId => router.clearRoutesForPeer peerId
  | .gc now => router.gc now

/-- The step lemma. -/
theorem tablesNonempty_next {router : LiveRouter Topic Peer Seq Path}
    (h : router.contents.TablesNonempty) (operation : Operation Topic Peer Seq Path) :
    (router.next operation).contents.TablesNonempty := by
  have hupdate (topic : Topic) (originPeerId nextHop : Peer) (hopCount : ℕ) (sequenceNumber : Seq)
      (path : Path) (expiresAt : WithTop ℕ) :
      (router.updateRoute topic originPeerId nextHop hopCount sequenceNumber path
        expiresAt).2.contents.TablesNonempty := by
    have hsimulates := congrArg Prod.snd (router.updateRoute_contents topic originPeerId nextHop
      hopCount sequenceNumber path expiresAt)
    rw [Prod.map_snd] at hsimulates
    rw [hsimulates]
    exact h.updateRoute topic originPeerId nextHop hopCount sequenceNumber path expiresAt
  have hremove (topic : Topic) (originPeerId : Peer) :
      (router.removeRoute topic originPeerId).2.contents.TablesNonempty := by
    have hsimulates := congrArg Prod.snd (router.removeRoute_contents topic originPeerId)
    rw [Prod.map_snd] at hsimulates
    rw [hsimulates]
    exact h.removeRoute topic originPeerId
  cases operation with
  | subscribe peerId topic => exact hupdate topic peerId peerId 0 0 ∅ ⊤
  | unsubscribe peerId topic => exact hremove topic peerId
  | updateRoute topic originPeerId nextHop hopCount sequenceNumber path expiresAt =>
    exact hupdate topic originPeerId nextHop hopCount sequenceNumber path expiresAt
  | removeRoute topic originPeerId => exact hremove topic originPeerId
  | clearRoutesForPeer peerId =>
    rw [next, contents_clearRoutesForPeer]
    exact TopicRouter.tablesNonempty_prune _ _
  | gc now =>
    rw [next, contents_gc]
    exact TopicRouter.tablesNonempty_prune _ _

/-- Through any run no topic has an empty table. The routes of a peer are cleared and the expired
ones collected exactly, and a collection is not noticed at its time or later. -/
theorem maintenance_exact (operations : List (Operation Topic Peer Seq Path)) :
    let router := operations.foldl next new
    (∀ topic, ∀ topicRoutes ∈ router.routes.get? topic, topicRoutes.size ≠ 0) ∧
    (∀ peerId topic originPeerId,
      (router.clearRoutesForPeer peerId).routeOf topic originPeerId =
        (router.routeOf topic originPeerId).filter fun route ↦
          ¬(originPeerId = peerId ∨ route.nextHop = peerId)) ∧
    (∀ now topic originPeerId, (router.gc now).routeOf topic originPeerId =
      (router.routeOf topic originPeerId).filter fun route ↦
        ¬route.expiresAt < WithTop.some now) ∧
    (∀ now topic time, now ≤ time →
      (router.gc now).getPeersForTopic topic time = router.getPeersForTopic topic time) := by
  intro router
  have hnonempty : router.contents.TablesNonempty :=
    List.foldlRecOn (motive := fun router ↦ router.contents.TablesNonempty) operations next
      (fun topic topicRoutes htable ↦ by cases htable)
      fun router hrouter operation _ ↦ tablesNonempty_next hrouter operation
  refine ⟨fun topic topicRoutes htable ↦ ?_, fun peerId topic originPeerId ↦ ?_,
    fun now topic originPeerId ↦ ?_, fun now topic time h ↦ router.getPeersForTopic_gc h topic⟩
  · refine hnonempty topic topicRoutes.contents ?_
    rw [get?_contents, Option.mem_def.1 htable]
    rfl
  · rw [← routeOf_contents, contents_clearRoutesForPeer, TopicRouter.clearRoutesForPeer,
      TopicRouter.routeOf_prune, routeOf_contents]
    simp only [or_comm]
  · rw [← routeOf_contents, contents_gc, TopicRouter.gc, TopicRouter.routeOf_prune,
      routeOf_contents]

end LiveRouter

end P2PApp
