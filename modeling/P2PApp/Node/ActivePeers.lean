import P2PApp.Node.FailureDetection

/-!
# The gauge of active peers

The gauge `active_peers` is set again when a heartbeat makes a peer `ACTIVE` and when a peer is
removed. A tick that suspects a peer makes one fewer active and does not set it. The count is right
again only if the tick goes on to remove somebody.
-/

namespace P2PApp

namespace PeerManager

variable {Peer : Type} [DecidableEq Peer] {manager : PeerManager Peer} {peerId : Peer}

def PeerInfo.isActive (peerInfo : PeerInfo) : Bool := peerInfo.status = .active

/-- `State.getActivePeerCount`. -/
def getActivePeerCount (manager : PeerManager Peer) : ℕ :=
  manager.peers.values.countP PeerInfo.isActive

/-- The registry with its gauge, which is missing from the collector until it is first set. -/
structure Monitored (Peer : Type) where
  manager : PeerManager Peer
  activePeers : Option ℕ

variable {monitored : Monitored Peer}

namespace Monitored

def new (localPeerId : String) : Monitored Peer := ⟨.new localPeerId, none⟩

/-- `collector.set('active_peers', state.getActivePeerCount())`. -/
def counted (manager : PeerManager Peer) : Monitored Peer :=
  ⟨manager, some manager.getActivePeerCount⟩

def removePeer (monitored : Monitored Peer) (peerId : Peer) : Monitored Peer :=
  if monitored.manager.peers.has peerId then counted (monitored.manager.removePeer peerId)
  else monitored

def updateHeartbeat (now : ℕ) (monitored : Monitored Peer) (peerId : Peer)
    (lamportTime : Option ℕ) : Monitored Peer :=
  let manager := monitored.manager.updateHeartbeat now peerId lamportTime
  match monitored.manager.peers.get? peerId with
  | none => monitored
  | some peerInfo =>
    if peerInfo.status = .active then { monitored with manager } else counted manager

def checkTimeout (now : ℕ) (monitored : Monitored Peer) (entry : Peer × PeerInfo) :
    Monitored Peer :=
  if entry.2.TurnsSuspected now then
    { monitored with manager := monitored.manager.checkTimeout now entry }
  else if entry.2.TurnsDead now then monitored.removePeer entry.1
  else monitored

def tick (now : ℕ) (monitored : Monitored Peer) : Monitored Peer :=
  monitored.manager.peers.entries.foldl (checkTimeout now) monitored

def next (monitored : Monitored Peer) : Event Peer → Monitored Peer
  | .removePeer peerId => monitored.removePeer peerId
  | .updateHeartbeat now peerId lamportTime => monitored.updateHeartbeat now peerId lamportTime
  | .tick now => monitored.tick now
  | .addPeer now peerId host port =>
    { monitored with manager := monitored.manager.addPeer now peerId host port }
  | .clientOpened clientId =>
    { monitored with manager := monitored.manager.clientOpened clientId }
  | .clientClosed clientId =>
    { monitored with manager := monitored.manager.clientClosed clientId }
  | .clientReconnects clientId =>
    { monitored with manager := monitored.manager.clientReconnects clientId }

def system : TransitionSystem (Monitored Peer) (Event Peer) :=
  .ofNext (fun monitored ↦ Enabled monitored.manager) next

/-- What `/health` reports is the number of active peers. -/
def Accurate (monitored : Monitored Peer) : Prop :=
  monitored.activePeers.getD 0 = monitored.manager.getActivePeerCount

/-- The last of the peers that a tick suspects or removes is removed. -/
def LastTurnsDead (now : ℕ) (entries : List (Peer × PeerInfo)) : Prop :=
  ∀ entry ∈ (entries.filter fun entry ↦
      entry.2.TurnsSuspected now ∨ entry.2.TurnsDead now).getLast?, entry.2.TurnsDead now

/-- The condition on a step: no tick ends with a suspicion. -/
def Recounts (monitored : Monitored Peer) : Event Peer → Prop
  | .tick now => LastTurnsDead now monitored.manager.peers.entries
  | .addPeer .. | .removePeer _ | .updateHeartbeat .. | .clientOpened _ | .clientClosed _
  | .clientReconnects _ => True

/-! ## The registry does not depend on the gauge -/

theorem manager_removePeer (peerId : Peer) :
    (monitored.removePeer peerId).manager = monitored.manager.removePeer peerId := by
  unfold removePeer
  by_cases hknown : monitored.manager.peers.has peerId = true
  · rw [if_pos hknown]
    rfl
  · rw [if_neg hknown, PeerManager.removePeer, if_neg hknown]

theorem manager_checkTimeout (now : ℕ) (entry : Peer × PeerInfo) :
    (monitored.checkTimeout now entry).manager = monitored.manager.checkTimeout now entry := by
  rw [checkTimeout]
  by_cases hsuspected : entry.2.TurnsSuspected now
  · rw [if_pos hsuspected]
  · rw [if_neg hsuspected, checkTimeout_eq, if_neg hsuspected]
    by_cases hdead : entry.2.TurnsDead now
    · rw [if_pos hdead, if_pos hdead]
      exact manager_removePeer entry.1
    · rw [if_neg hdead, if_neg hdead]

theorem manager_foldl_checkTimeout (now : ℕ) (entries : List (Peer × PeerInfo)) :
    (entries.foldl (checkTimeout now) monitored).manager =
      entries.foldl (PeerManager.checkTimeout now) monitored.manager := by
  induction entries generalizing monitored with
  | nil => rfl
  | cons entry entries ih => rw [List.foldl_cons, ih, manager_checkTimeout, List.foldl_cons]

theorem manager_updateHeartbeat (now : ℕ) (peerId : Peer) (lamportTime : Option ℕ) :
    (monitored.updateHeartbeat now peerId lamportTime).manager =
      monitored.manager.updateHeartbeat now peerId lamportTime := by
  unfold updateHeartbeat
  cases hknown : monitored.manager.peers.get? peerId with
  | none => rw [PeerManager.updateHeartbeat, hknown]
  | some peerInfo =>
    dsimp only
    by_cases hactive : peerInfo.status = .active
    · rw [if_pos hactive]
    · rw [if_neg hactive]
      rfl

theorem manager_next (event : Event Peer) :
    (monitored.next event).manager = monitored.manager.next event := by
  cases event with
  | removePeer peerId => exact manager_removePeer peerId
  | updateHeartbeat now peerId lamportTime => exact manager_updateHeartbeat now peerId lamportTime
  | tick now => exact manager_foldl_checkTimeout now _
  | addPeer now peerId host port => rfl
  | clientOpened clientId => rfl
  | clientClosed clientId => rfl
  | clientReconnects clientId => rfl

end Monitored

/-! ## What each step does to the number of active peers -/

omit [DecidableEq Peer] in
theorem count_congr {manager' : PeerManager Peer} (h : manager'.peers = manager.peers) :
    manager'.getActivePeerCount = manager.getActivePeerCount := by
  rw [getActivePeerCount, h, getActivePeerCount]

/-- A new peer is not active yet. -/
theorem count_addPeer (now : ℕ) (host : String) (port : ℕ) :
    (manager.addPeer now peerId host port).getActivePeerCount = manager.getActivePeerCount := by
  unfold addPeer
  by_cases hknown : manager.peers.has peerId = true
  · rw [if_pos hknown]
  · rw [if_neg hknown]
    have hnew : peerId ∉ manager.peers.keys := fun hmem ↦
      hknown (OrderedMap.has_iff_mem_keys.2 hmem)
    rw [count_congr (peers_connect host port peerId), getActivePeerCount, getActivePeerCount]
    rw [OrderedMap.values_set_of_not_mem hnew, List.countP_append]
    rfl

/-- A heartbeat of an active peer. -/
theorem count_updateHeartbeat {peerInfo : PeerInfo}
    (hknown : manager.peers.get? peerId = some peerInfo) (hactive : peerInfo.status = .active)
    (now : ℕ) (lamportTime : Option ℕ) :
    (manager.updateHeartbeat now peerId lamportTime).getActivePeerCount =
      manager.getActivePeerCount := by
  rw [updateHeartbeat, hknown]
  have hset := OrderedMap.countP_values_set hknown (peerInfo.heard now lamportTime)
    PeerInfo.isActive
  have hold : [peerInfo].countP PeerInfo.isActive = 1 := by simp [PeerInfo.isActive, hactive]
  have hnew : [peerInfo.heard now lamportTime].countP PeerInfo.isActive = 1 := rfl
  rw [hold, hnew] at hset
  exact Nat.add_right_cancel hset

/-- A suspicion. -/
theorem count_checkTimeout {now : ℕ} {entry : Peer × PeerInfo}
    (hknown : manager.peers.get? entry.1 = some entry.2) (h : entry.2.TurnsSuspected now) :
    (manager.checkTimeout now entry).getActivePeerCount + 1 = manager.getActivePeerCount := by
  rw [checkTimeout_eq, if_pos h]
  have hset := OrderedMap.countP_values_set hknown { entry.2 with status := .suspected }
    PeerInfo.isActive
  have hold : [entry.2].countP PeerInfo.isActive = 1 := by simp [PeerInfo.isActive, h.1]
  rw [hold] at hset
  exact hset

namespace Monitored

omit [DecidableEq Peer] in
theorem lastTurnsDead_concat_of_suspected {now : ℕ} {entries : List (Peer × PeerInfo)}
    {entry : Peer × PeerInfo} (h : entry.2.TurnsSuspected now) :
    ¬LastTurnsDead now (entries ++ [entry]) := by
  intro hlast
  have hdead : entry.2.TurnsDead now := hlast entry (by simp [List.filter_append, h])
  cases h.1.symm.trans hdead.1

omit [DecidableEq Peer] in
theorem lastTurnsDead_concat_of_dead {now : ℕ} {entries : List (Peer × PeerInfo)}
    {entry : Peer × PeerInfo} (h : entry.2.TurnsDead now) :
    LastTurnsDead now (entries ++ [entry]) := by
  simp [LastTurnsDead, List.filter_append, h]

omit [DecidableEq Peer] in
theorem lastTurnsDead_concat_of_neither {now : ℕ} {entries : List (Peer × PeerInfo)}
    {entry : Peer × PeerInfo} (hsuspected : ¬entry.2.TurnsSuspected now)
    (hdead : ¬entry.2.TurnsDead now) :
    LastTurnsDead now (entries ++ [entry]) ↔ LastTurnsDead now entries := by
  simp [LastTurnsDead, List.filter_append, hsuspected, hdead]

/-- A tick as far as it got: the gauge never falls behind the count, and is ahead of it after a
suspicion until the next removal. -/
theorem foldl_checkTimeout (now : ℕ) (h : Accurate monitored) {entries : List (Peer × PeerInfo)}
    (hnodup : (entries.map Prod.fst).Nodup)
    (hknown : ∀ entry ∈ entries, monitored.manager.peers.get? entry.1 = some entry.2) :
    (entries.foldl (checkTimeout now) monitored).manager.getActivePeerCount ≤
        (entries.foldl (checkTimeout now) monitored).activePeers.getD 0 ∧
      (Accurate (entries.foldl (checkTimeout now) monitored) ↔ LastTurnsDead now entries) := by
  induction entries using List.reverseRecOn with
  | nil => exact ⟨h.ge, iff_of_true h (by simp [LastTurnsDead])⟩
  | append_singleton entries entry ih =>
    rw [List.map_append, List.nodup_append] at hnodup
    obtain ⟨hbefore, -, hfresh⟩ := hnodup
    have hknownBefore (earlier : Peer × PeerInfo) (hmem : earlier ∈ entries) :
        monitored.manager.peers.get? earlier.1 = some earlier.2 :=
      hknown earlier (List.mem_append_left _ hmem)
    have hentry : (entries.foldl (checkTimeout now) monitored).manager.peers.get? entry.1 =
        some entry.2 := by
      have hnot : entry.1 ∉ entries.map Prod.fst := fun hmem ↦
        hfresh _ hmem _ (by simp) rfl
      rw [manager_foldl_checkTimeout, get?_foldl_checkTimeout now hbefore hknownBefore, if_neg hnot]
      exact hknown entry (by simp)
    obtain ⟨hle, hiff⟩ := ih hbefore hknownBefore
    rw [List.foldl_append, List.foldl_cons, List.foldl_nil]
    generalize entries.foldl (checkTimeout now) monitored = reached at hle hiff hentry
    unfold checkTimeout
    by_cases hsuspected : entry.2.TurnsSuspected now
    · have hfewer := count_checkTimeout hentry hsuspected
      rw [if_pos hsuspected]
      refine ⟨?_, iff_of_false ?_ (lastTurnsDead_concat_of_suspected hsuspected)⟩
      · dsimp only
        omega
      · unfold Accurate
        dsimp only
        omega
    · rw [if_neg hsuspected]
      by_cases hdead : entry.2.TurnsDead now
      · have hhas : reached.manager.peers.has entry.1 = true :=
          OrderedMap.has_iff_mem_keys.2 (OrderedMap.mem_keys_iff.2 ⟨_, hentry⟩)
        rw [if_pos hdead, removePeer, if_pos hhas]
        exact ⟨le_rfl, iff_of_true rfl (lastTurnsDead_concat_of_dead hdead)⟩
      · rw [if_neg hdead, lastTurnsDead_concat_of_neither hsuspected hdead]
        exact ⟨hle, hiff⟩

/-- The step lemma. -/
theorem accurate_next (h : Accurate monitored) (event : Event Peer) :
    Accurate (monitored.next event) ↔ Recounts monitored event := by
  cases event with
  | addPeer now peerId host port =>
    refine iff_of_true ?_ trivial
    exact h.trans (count_addPeer now host port).symm
  | removePeer peerId =>
    refine iff_of_true ?_ trivial
    rw [next, removePeer]
    split
    · rfl
    · exact h
  | updateHeartbeat now peerId lamportTime =>
    refine iff_of_true ?_ trivial
    rw [next, updateHeartbeat]
    cases hknown : monitored.manager.peers.get? peerId with
    | none => exact h
    | some peerInfo =>
      dsimp only
      split
      · rename_i hactive
        exact h.trans (count_updateHeartbeat hknown hactive now lamportTime).symm
      · rfl
  | tick now =>
    have hknown (entry : Peer × PeerInfo) (hmem : entry ∈ monitored.manager.peers.entries) :
        monitored.manager.peers.get? entry.1 = some entry.2 := OrderedMap.get?_eq_some_iff.2 hmem
    exact (foldl_checkTimeout now h monitored.manager.peers.nodup hknown).2
  | clientOpened clientId =>
    exact iff_of_true (h.trans (count_congr (peers_clientOpened clientId)).symm) trivial
  | clientClosed clientId =>
    exact iff_of_true (h.trans (count_congr (peers_clientClosed clientId)).symm) trivial
  | clientReconnects clientId => exact iff_of_true h trivial

/-! ## Before the first peer is active -/

omit [DecidableEq Peer] in
/-- Nobody is suspected if nobody is active. -/
theorem recounts_of_inactive (h : monitored.manager.getActivePeerCount = 0) (event : Event Peer) :
    Recounts monitored event := by
  cases event with
  | tick now =>
    intro entry hlast
    obtain ⟨hmem, hturns⟩ := List.mem_filter.1 (List.mem_of_getLast? hlast)
    rcases of_decide_eq_true hturns with hsuspected | hdead
    · have hinactive := List.countP_eq_zero.1 h entry.2 (List.mem_map_of_mem hmem)
      exact absurd (decide_eq_true hsuspected.1) hinactive
    · exact hdead
  | addPeer | removePeer | updateHeartbeat | clientOpened | clientClosed | clientReconnects =>
    trivial

theorem isSome_removePeer (peerId : Peer) (h : monitored.activePeers.isSome = true) :
    (monitored.removePeer peerId).activePeers.isSome = true := by
  unfold removePeer
  split
  · rfl
  · exact h

theorem isSome_checkTimeout (now : ℕ) (entry : Peer × PeerInfo)
    (h : monitored.activePeers.isSome = true) :
    (monitored.checkTimeout now entry).activePeers.isSome = true := by
  unfold checkTimeout
  split
  · exact h
  · split
    · exact isSome_removePeer entry.1 h
    · exact h

/-- The gauge stays in the collector. -/
theorem isSome_next (h : monitored.activePeers.isSome = true) (event : Event Peer) :
    (monitored.next event).activePeers.isSome = true := by
  cases event with
  | removePeer peerId => exact isSome_removePeer peerId h
  | updateHeartbeat now peerId lamportTime =>
    rw [next, updateHeartbeat]
    cases monitored.manager.peers.get? peerId with
    | none => exact h
    | some peerInfo =>
      dsimp only
      split
      · exact h
      · rfl
  | tick now =>
    rw [next, tick]
    generalize monitored.manager.peers.entries = entries
    induction entries generalizing monitored with
    | nil => exact h
    | cons entry entries ih => exact ih (isSome_checkTimeout now entry h)
  | addPeer now peerId host port => exact h
  | clientOpened clientId => exact h
  | clientClosed clientId => exact h
  | clientReconnects clientId => exact h

/-- Some state up to the last one of the run has an active peer. -/
def HasBeenActive (localPeerId : String) (events : List (Event Peer)) : Prop :=
  ∃ earlier, earlier <+: events ∧
    0 < (earlier.foldl next (new localPeerId)).manager.getActivePeerCount

theorem HasBeenActive.concat {localPeerId : String} {events : List (Event Peer)}
    (h : HasBeenActive localPeerId events) (event : Event Peer) :
    HasBeenActive localPeerId (events ++ [event]) :=
  h.imp fun _ hearlier ↦ ⟨hearlier.1.trans (List.prefix_append _ _), hearlier.2⟩

/-- Before that, `/health` is right to report nobody. -/
theorem accurate_of_inactive {localPeerId : String} {events : List (Event Peer)}
    (h : ¬HasBeenActive localPeerId events) : Accurate (events.foldl next (new localPeerId)) := by
  induction events using List.reverseRecOn with
  | nil => rfl
  | append_singleton events event ih =>
    have hbefore : ¬HasBeenActive localPeerId events := fun hactive ↦ h (hactive.concat event)
    have hzero : (events.foldl next (new localPeerId)).manager.getActivePeerCount = 0 :=
      Nat.eq_zero_of_not_pos fun hpos ↦ hbefore ⟨events, List.prefix_refl _, hpos⟩
    rw [List.foldl_append]
    exact (accurate_next (ih hbefore) event).2 (recounts_of_inactive hzero event)

/-- The first peer that becomes active sets the gauge. -/
theorem isSome_of_hasBeenActive {localPeerId : String} {events : List (Event Peer)}
    (h : HasBeenActive localPeerId events) :
    (events.foldl next (new localPeerId)).activePeers.isSome = true := by
  induction events using List.reverseRecOn with
  | nil =>
    obtain ⟨earlier, hearlier, hactive⟩ := h
    rw [List.prefix_nil.1 hearlier] at hactive
    cases hactive
  | append_singleton events event ih =>
    rw [List.foldl_append, List.foldl_cons, List.foldl_nil]
    by_cases hbefore : HasBeenActive localPeerId events
    · exact isSome_next (ih hbefore) event
    · obtain ⟨earlier, hearlier, hactive⟩ := h
      have hzero : (events.foldl next (new localPeerId)).manager.getActivePeerCount = 0 :=
        Nat.eq_zero_of_not_pos fun hpos ↦ hbefore ⟨events, List.prefix_refl _, hpos⟩
      have haccurate : Accurate ((events.foldl next (new localPeerId)).next event) :=
        (accurate_next (accurate_of_inactive hbefore) event).2 (recounts_of_inactive hzero event)
      rcases List.prefix_concat_iff.1 hearlier with rfl | hshorter
      · rw [List.foldl_append, List.foldl_cons, List.foldl_nil, ← haccurate] at hactive
        cases hgauge : ((events.foldl next (new localPeerId)).next event).activePeers with
        | some count => rfl
        | none =>
          rw [hgauge] at hactive
          cases hactive
      · exact absurd ⟨earlier, hshorter, hactive⟩ hbefore

/-- Whether the gauge is asked for only when it has to be there makes no difference. -/
theorem activePeers_iff_accurate (localPeerId : String) (events : List (Event Peer)) :
    (HasBeenActive localPeerId events → (events.foldl next (new localPeerId)).activePeers =
        some (events.foldl next (new localPeerId)).manager.getActivePeerCount) ↔
      Accurate (events.foldl next (new localPeerId)) := by
  by_cases hactive : HasBeenActive localPeerId events
  · obtain ⟨count, hgauge⟩ := Option.isSome_iff_exists.1 (isSome_of_hasBeenActive hactive)
    rw [forall_prop_of_true hactive, Accurate, hgauge, Option.getD_some, Option.some_inj]
  · exact iff_of_true (fun habsurd ↦ absurd habsurd hactive) (accurate_of_inactive hactive)

/-! ## Runs -/

/-- Once somebody has been active, the gauge is the number of active peers after every step, exactly
if in every tick the last peer that it suspects or removes is removed. -/
theorem activePeers_iff_recounts {localPeerId : String} {events : List (Event Peer)}
    {last : Monitored Peer} (h : system.Run (new localPeerId) events last) :
    (∀ before, before <+: events → HasBeenActive localPeerId before →
      (before.foldl next (new localPeerId)).activePeers =
        some (before.foldl next (new localPeerId)).manager.getActivePeerCount) ↔
      system.GuardedRun Recounts (new localPeerId) events last := by
  have hstep (monitored : Monitored Peer) (event : Event Peer) (hbefore : Accurate monitored)
      (_ : Enabled monitored.manager event) :
      Accurate (monitored.next event) ↔ Recounts monitored event := accurate_next hbefore event
  have hnew : Accurate (new localPeerId : Monitored Peer) := rfl
  rw [system, ← TransitionSystem.Run.forall_prefix_iff hstep h hnew]
  exact forall₂_congr fun before _ ↦ activePeers_iff_accurate localPeerId before

/-- Bob is heard. -/
theorem activePeers_iff_recounts_bob :
    ((heardOnce.take 2).foldl next (new "alice")).activePeers = some 1 := by
  have hguarded : system.GuardedRun Recounts (new "alice") (heardOnce.take 2)
      ((heardOnce.take 2).foldl next (new "alice")) :=
    TransitionSystem.guardedRun_ofNext ⟨⟨trivial, trivial⟩, ⟨trivial, trivial⟩, trivial⟩
  have hactive : HasBeenActive "alice" (heardOnce.take 2) :=
    ⟨heardOnce.take 2, List.prefix_refl _, by decide⟩
  exact (activePeers_iff_recounts hguarded.run).2 hguarded _ (List.prefix_refl _) hactive

/-- Bob is suspected, and still counted. -/
theorem not_activePeers_heardOnce :
    ¬∀ localPeerId events (last : Monitored String), system.Run (new localPeerId) events last →
      HasBeenActive localPeerId events →
        last.activePeers = some last.manager.getActivePeerCount := by
  intro h
  have hrun : system.Run (new "alice") heardOnce (heardOnce.foldl next (new "alice")) :=
    TransitionSystem.run_ofNext (by decide)
  have hgauge := h _ _ _ hrun ⟨heardOnce.take 2, List.take_prefix _ _, by decide⟩
  revert hgauge
  decide

end Monitored

end PeerManager

end P2PApp
