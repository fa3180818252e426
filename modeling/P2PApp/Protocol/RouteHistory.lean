import P2PApp.Protocol.TopicRouter

/-!
# The route a history of updates leaves

A routing table sees the updates for one topic and one origin one at a time and keeps one route. In
hindsight this route is the best of all updates, by sequence number first and hop count second, and
among equals the earliest; later updates over the same next hop have prolonged its lease. Each
update is judged by whether it beats everything before it, so no order of arrival can hide the best
of them.
-/

namespace P2PApp

/-- The arguments of a call of `updateRoute`. -/
structure RouteUpdate (Topic Peer Path : Type*) where
  topic : Topic
  originPeerId : Peer
  nextHop : Peer
  hopCount : ℕ
  sequenceNumber : ℕ
  path : Path
  expiresAt : WithTop ℕ
  deriving DecidableEq, Repr

theorem TopicRouter.improves_nat_iff {Peer Path : Type*} {sequenceNumber hopCount : ℕ}
    {existing : Route Peer ℕ Path} :
    TopicRouter.Improves sequenceNumber hopCount existing ↔
      existing.sequenceNumber < sequenceNumber ∨
        (sequenceNumber = existing.sequenceNumber ∧ hopCount < existing.hopCount) := by
  simp only [TopicRouter.Improves, SequenceNumber.lt_nat, SequenceNumber.same_nat,
    decide_eq_false_iff_not]
  omega

namespace RouteUpdate

variable {Topic Peer Path : Type*}

/-- A higher sequence number, or the same one and fewer hops. -/
def Beats (update other : RouteUpdate Topic Peer Path) : Prop :=
  other.sequenceNumber < update.sequenceNumber ∨
    (update.sequenceNumber = other.sequenceNumber ∧ update.hopCount < other.hopCount)

theorem beats_trans {first second third : RouteUpdate Topic Peer Path} (h : first.Beats second)
    (h' : second.Beats third) : first.Beats third := by
  unfold Beats at *
  omega

/-- What beats an update also beats what that update is not beaten by. -/
theorem beats_of_not_beats {first second third : RouteUpdate Topic Peer Path}
    (h : first.Beats second) (h' : ¬third.Beats second) : first.Beats third := by
  unfold Beats at *
  omega

def Concerns (update : RouteUpdate Topic Peer Path) (topic : Topic) (originPeerId : Peer) : Prop :=
  update.topic = topic ∧ update.originPeerId = originPeerId

instance [DecidableEq Topic] [DecidableEq Peer] (update : RouteUpdate Topic Peer Path)
    (topic : Topic) (originPeerId : Peer) : Decidable (update.Concerns topic originPeerId) :=
  inferInstanceAs (Decidable (_ ∧ _))

variable [DecidableEq Peer]

/-- The longest lease that the update and the later ones over the same next hop ask for. -/
def lease (update : RouteUpdate Topic Peer Path) (later : List (RouteUpdate Topic Peer Path)) :
    WithTop ℕ :=
  (later.filter fun other ↦ other.sequenceNumber = update.sequenceNumber ∧
    other.nextHop = update.nextHop).foldl (fun expiresAt other ↦ max expiresAt other.expiresAt)
      update.expiresAt

/-- The route of an update, with the lease that the later ones give it. -/
def route (update : RouteUpdate Topic Peer Path) (later : List (RouteUpdate Topic Peer Path)) :
    Route Peer ℕ Path where
  nextHop := update.nextHop
  hopCount := update.hopCount
  sequenceNumber := update.sequenceNumber
  path := update.path
  expiresAt := update.lease later

/-- The lease of a route after an update that does not improve on it. -/
def renewed (existing : Route Peer ℕ Path) (next : RouteUpdate Topic Peer Path) :
    Route Peer ℕ Path :=
  if next.sequenceNumber = existing.sequenceNumber ∧ next.nextHop = existing.nextHop then
    { existing with expiresAt := max existing.expiresAt next.expiresAt }
  else existing

/-- The route is that of the earliest among the best updates; without updates there is none. -/
def Selects (updates : List (RouteUpdate Topic Peer Path)) :
    Option (Route Peer ℕ Path) → Prop
  | none => updates = []
  | some chosen => ∃ before best later, updates = before ++ best :: later ∧
      (∀ other ∈ before, best.Beats other) ∧ (∀ other ∈ later, ¬other.Beats best) ∧
      chosen = best.route later

/-- The lease is renewed exactly by equally recent updates over the same next hop. -/
theorem lease_concat (best next : RouteUpdate Topic Peer Path)
    (later : List (RouteUpdate Topic Peer Path)) :
    best.lease (later ++ [next]) =
      if next.sequenceNumber = best.sequenceNumber ∧ next.nextHop = best.nextHop then
        max (best.lease later) next.expiresAt
      else best.lease later := by
  unfold lease
  rw [List.filter_append, List.foldl_append]
  split
  · rename_i h
    rw [List.filter_cons_of_pos (by simpa using h)]
    rfl
  · rename_i h
    rw [List.filter_cons_of_neg (by simpa using h)]
    rfl

/-- To improve on the route is to beat all updates it was selected from. -/
theorem Selects.improves_iff {updates : List (RouteUpdate Topic Peer Path)}
    {existing : Option (Route Peer ℕ Path)} (h : Selects updates existing)
    (next : RouteUpdate Topic Peer Path) :
    (∀ route, existing = some route → TopicRouter.Improves next.sequenceNumber next.hopCount
      route) ↔ ∀ other ∈ updates, next.Beats other := by
  cases existing with
  | none =>
    cases h
    simp
  | some route =>
    obtain ⟨before, best, later, rfl, hbefore, hlater, rfl⟩ := h
    constructor
    · intro hroute other hother
      have hbest : next.Beats best := TopicRouter.improves_nat_iff.1 (hroute _ rfl)
      rcases List.mem_append.1 hother with hother | hother
      · exact beats_trans hbest (hbefore other hother)
      · rcases List.mem_cons.1 hother with rfl | hother
        · exact hbest
        · exact beats_of_not_beats hbest (hlater other hother)
    · rintro hall _ ⟨⟩
      exact TopicRouter.improves_nat_iff.2 (hall best (by simp))

/-- An update that improves on the route takes its place. -/
theorem Selects.replace {updates : List (RouteUpdate Topic Peer Path)}
    {existing : Option (Route Peer ℕ Path)} {next : RouteUpdate Topic Peer Path}
    (h : Selects updates existing)
    (hbeats : ∀ route, existing = some route → TopicRouter.Improves next.sequenceNumber
      next.hopCount route) : Selects (updates ++ [next]) (some (next.route [])) :=
  ⟨updates, next, [], rfl, (h.improves_iff next).1 hbeats, by simp, rfl⟩

/-- An update that does not beat the best one stands behind it. -/
theorem Selects.keep {updates : List (RouteUpdate Topic Peer Path)}
    {existing : Route Peer ℕ Path} {next : RouteUpdate Topic Peer Path}
    (h : Selects updates (some existing))
    (hworse : ¬TopicRouter.Improves next.sequenceNumber next.hopCount existing) :
    Selects (updates ++ [next]) (some (renewed existing next)) := by
  obtain ⟨before, best, later, rfl, hbefore, hlater, rfl⟩ := h
  have hnext : ¬next.Beats best := fun hbeats ↦ hworse (TopicRouter.improves_nat_iff.2 hbeats)
  refine ⟨before, best, later ++ [next], by simp, hbefore, ?_, ?_⟩
  · intro other hother
    rcases List.mem_append.1 hother with hother | hother
    · exact hlater other hother
    · rwa [List.mem_singleton.1 hother]
  · unfold renewed route
    rw [lease_concat]
    split <;> rfl

/-- What routes are compared by. -/
def rank (route : Route Peer ℕ Path) : ℕ × ℕ := (route.sequenceNumber, route.hopCount)

/-- Among the same updates, whatever their order, the same rank is selected. -/
theorem Selects.rank_eq {updates shuffled : List (RouteUpdate Topic Peer Path)}
    {existing other : Option (Route Peer ℕ Path)} (h : Selects updates existing)
    (hshuffled : Selects shuffled other) (hperm : shuffled.Perm updates) :
    other.map rank = existing.map rank := by
  have hle {updates shuffled : List (RouteUpdate Topic Peer Path)}
      {chosen route : Route Peer ℕ Path} (h : Selects updates (some chosen))
      (hshuffled : Selects shuffled (some route)) (hperm : shuffled.Perm updates) :
      ¬(route.sequenceNumber < chosen.sequenceNumber ∨
        (chosen.sequenceNumber = route.sequenceNumber ∧ chosen.hopCount < route.hopCount)) := by
    obtain ⟨before, best, later, rfl, -, -, rfl⟩ := h
    intro hbeats
    have hall := (hshuffled.improves_iff best).1 fun _ heq ↦
      TopicRouter.improves_nat_iff.2 (Option.some.inj heq ▸ hbeats)
    have hself := hall best (hperm.mem_iff.2 (by simp))
    unfold Beats at hself
    omega
  cases existing with
  | none =>
    cases h
    cases hperm.eq_nil
    cases other with
    | none => rfl
    | some route =>
      obtain ⟨before, best, later, heq, -⟩ := hshuffled
      simp at heq
  | some chosen =>
    cases other with
    | none =>
      cases hshuffled
      obtain ⟨before, best, later, rfl, -⟩ := h
      simpa using hperm.length_eq
    | some route =>
      have hforth := hle h hshuffled hperm
      have hback := hle hshuffled h hperm.symm
      rw [Option.map_some, Option.map_some, rank, rank, Option.some.injEq, Prod.mk.injEq]
      omega

end RouteUpdate

namespace TopicRouter

open RouteUpdate

variable {Topic Peer Path : Type*} [DecidableEq Topic] [DecidableEq Peer]

def update (router : TopicRouter Topic Peer ℕ Path) (update : RouteUpdate Topic Peer Path) :
    Bool × TopicRouter Topic Peer ℕ Path :=
  router.updateRoute update.topic update.originPeerId update.nextHop update.hopCount
    update.sequenceNumber update.path update.expiresAt

/-- The table after a sequence of updates. -/
def updateAll (router : TopicRouter Topic Peer ℕ Path)
    (updates : List (RouteUpdate Topic Peer Path)) : TopicRouter Topic Peer ℕ Path :=
  updates.foldl (fun router next ↦ (router.update next).2) router

/-- The updates that concern one topic and origin. -/
def concerning (topic : Topic) (originPeerId : Peer)
    (updates : List (RouteUpdate Topic Peer Path)) : List (RouteUpdate Topic Peer Path) :=
  updates.filter fun update ↦ update.Concerns topic originPeerId

theorem updateAll_concat (router : TopicRouter Topic Peer ℕ Path)
    (updates : List (RouteUpdate Topic Peer Path)) (next : RouteUpdate Topic Peer Path) :
    router.updateAll (updates ++ [next]) = ((router.updateAll updates).update next).2 := by
  rw [updateAll, List.foldl_append]
  rfl

/-- An update that does not improve on the route may renew its lease, and nothing more. -/
theorem routeOf_update_of_not_improves {router : TopicRouter Topic Peer ℕ Path}
    {next : RouteUpdate Topic Peer Path} {existing : Route Peer ℕ Path}
    (hroute : router.routeOf next.topic next.originPeerId = some existing)
    (hworse : ¬Improves next.sequenceNumber next.hopCount existing) :
    (router.update next).2.routeOf next.topic next.originPeerId =
      some (renewed existing next) := by
  rw [improves_nat_iff] at hworse
  unfold update updateRoute renewed
  rw [hroute]
  rcases lt_trichotomy next.sequenceNumber existing.sequenceNumber with hlt | heq | hgt
  · simp [hlt, hlt.ne, hroute]
  · have hhops : existing.hopCount ≤ next.hopCount := by omega
    by_cases hnext : next.nextHop = existing.nextHop <;> simp [heq, hhops, hnext, hroute]
  · omega

theorem selects_update {router : TopicRouter Topic Peer ℕ Path}
    {updates : List (RouteUpdate Topic Peer Path)} {next : RouteUpdate Topic Peer Path}
    (h : Selects updates (router.routeOf next.topic next.originPeerId)) :
    Selects (updates ++ [next])
      ((router.update next).2.routeOf next.topic next.originPeerId) := by
  by_cases hbeats : ∀ existing, router.routeOf next.topic next.originPeerId = some existing →
      Improves next.sequenceNumber next.hopCount existing
  · rw [update, updateRoute_of_improves _ _ _ _ _ _ _ _ hbeats, routeOf_setRoute_self]
    exact h.replace hbeats
  · push Not at hbeats
    obtain ⟨existing, hroute, hworse⟩ := hbeats
    rw [routeOf_update_of_not_improves hroute hworse]
    rw [hroute] at h
    exact h.keep hworse

/-- The route of a topic and an origin is selected from the updates that concern them. -/
theorem selects_updateAll {router : TopicRouter Topic Peer ℕ Path} {topic : Topic}
    {originPeerId : Peer} (hnone : router.routeOf topic originPeerId = none)
    (updates : List (RouteUpdate Topic Peer Path)) :
    Selects (concerning topic originPeerId updates)
      ((router.updateAll updates).routeOf topic originPeerId) := by
  induction updates using List.reverseRecOn with
  | nil => exact hnone.symm ▸ rfl
  | append_singleton updates next ih =>
    rw [updateAll_concat, concerning, List.filter_append]
    by_cases hconcerns : next.Concerns topic originPeerId
    · obtain ⟨rfl, rfl⟩ := hconcerns
      rw [List.filter_cons_of_pos (by simp [Concerns]), List.filter_nil]
      exact selects_update ih
    · rw [List.filter_cons_of_neg (by simpa using hconcerns), List.filter_nil, List.append_nil]
      rw [update, routeOf_updateRoute_of_ne _ _ _ _ _ _ _ _ fun h ↦
        hconcerns ⟨h.1.symm, h.2.symm⟩]
      exact ih

/-- Starting from no entry, the table holds the best of all updates; an update is reported as new
exactly if it improves on the route there is, and so on all before it; and the order of the updates
does not matter for the rank of the route. -/
theorem bestOfHistory {router : TopicRouter Topic Peer ℕ Path} {topic : Topic} {originPeerId : Peer}
    (hnone : router.routeOf topic originPeerId = none)
    (updates : List (RouteUpdate Topic Peer Path)) :
    Selects (concerning topic originPeerId updates)
        ((router.updateAll updates).routeOf topic originPeerId) ∧
      (∀ before next after, updates = before ++ next :: after → next.Concerns topic originPeerId →
        (((router.updateAll before).update next).1 = true ↔
          ∀ existing, (router.updateAll before).routeOf topic originPeerId = some existing →
            existing.sequenceNumber < next.sequenceNumber ∨
              (next.sequenceNumber = existing.sequenceNumber ∧
                next.hopCount < existing.hopCount)) ∧
        (((router.updateAll before).update next).1 = true ↔
          ∀ earlier ∈ concerning topic originPeerId before, next.Beats earlier)) ∧
      ∀ shuffled : List (RouteUpdate Topic Peer Path), shuffled.Perm updates →
        ((router.updateAll shuffled).routeOf topic originPeerId).map rank =
          ((router.updateAll updates).routeOf topic originPeerId).map rank := by
  refine ⟨selects_updateAll hnone updates, ?_, ?_⟩
  · rintro before next after - ⟨rfl, rfl⟩
    have hreports : ((router.updateAll before).update next).1 = true ↔ ∀ existing,
        (router.updateAll before).routeOf next.topic next.originPeerId = some existing →
          Improves next.sequenceNumber next.hopCount existing := updateRoute_fst ..
    refine ⟨?_, hreports.trans ((selects_updateAll hnone before).improves_iff next)⟩
    simp only [hreports, improves_nat_iff]
  · intro shuffled hperm
    exact (selects_updateAll hnone updates).rank_eq (selects_updateAll hnone shuffled)
      (hperm.filter _)

/-- A longer way in, the shorter one, the longer one once more, and a renewal of the shorter one. -/
def detours : List (RouteUpdate String String Unit) :=
  [⟨"news", "carol", "bob", 2, 1, (), .some 10⟩, ⟨"news", "carol", "alice", 1, 1, (), .some 20⟩,
    ⟨"news", "carol", "bob", 2, 1, (), .some 90⟩, ⟨"news", "carol", "alice", 3, 1, (), .some 40⟩]

theorem bestOfHistory_detours :
    Selects detours (((new : TopicRouter String String ℕ Unit).updateAll detours).routeOf "news"
      "carol") ∧
    (((new : TopicRouter String String ℕ Unit).updateAll detours.reverse).routeOf "news"
      "carol").map rank = some (1, 1) := by
  have hnone : (new : TopicRouter String String ℕ Unit).routeOf "news" "carol" = none := rfl
  have hbest := bestOfHistory hnone detours
  exact ⟨hbest.1, (hbest.2.2 detours.reverse detours.reverse_perm).trans (by decide)⟩

end TopicRouter

end P2PApp
