import P2PApp.Node.PeerManager

/-!
# Suspicion and removal of silent peers

A tick suspects an active peer that has been silent for longer than the timeout, and removes a
suspected one that has been silent for longer than twice the timeout. Each peer is judged by its own
entry, whatever the tick does to the others. What the entries say about the past is kept along a
run: an active peer was last heard when its entry says so, and a suspected one was active until a
tick found it silent.

A peer that was added and never heard is `CONNECTING`. No tick looks at those.
-/

namespace P2PApp

namespace PeerManager

/-- The first branch of a tick: `SUSPECTED` from now on. -/
def PeerInfo.TurnsSuspected (now : ℕ) (peerInfo : PeerInfo) : Prop :=
  peerInfo.status = .active ∧ Config.PEER_TIMEOUT_MS < now - peerInfo.lastSeen

/-- The second branch: `DEAD`, and removed. -/
def PeerInfo.TurnsDead (now : ℕ) (peerInfo : PeerInfo) : Prop :=
  peerInfo.status = .suspected ∧ 2 * Config.PEER_TIMEOUT_MS < now - peerInfo.lastSeen

instance (now : ℕ) (peerInfo : PeerInfo) : Decidable (peerInfo.TurnsSuspected now) :=
  inferInstanceAs (Decidable (_ ∧ _))

instance (now : ℕ) (peerInfo : PeerInfo) : Decidable (peerInfo.TurnsDead now) :=
  inferInstanceAs (Decidable (_ ∧ _))

/-- What a tick leaves of an entry. -/
def PeerInfo.afterTick (now : ℕ) (peerInfo : PeerInfo) : Option PeerInfo :=
  if peerInfo.TurnsSuspected now then some { peerInfo with status := .suspected }
  else if peerInfo.TurnsDead now then none
  else some peerInfo

variable {Peer : Type} [DecidableEq Peer] {manager : PeerManager Peer} {peerId : Peer}

/-! ## What each step does to an entry -/

theorem get?_removePeer (other : Peer) : (manager.removePeer peerId).peers.get? other =
    if other = peerId then none else manager.peers.get? other := by
  unfold removePeer
  by_cases hknown : manager.peers.has peerId = true
  · rw [if_pos hknown]
    dsimp only
    rw [peers_disconnect, OrderedMap.get?_erase]
  · rw [if_neg hknown]
    split
    · rename_i heq
      rw [heq, OrderedMap.get?_eq_none_iff, ← OrderedMap.has_iff_mem_keys]
      exact hknown
    · rfl

theorem checkTimeout_eq (now : ℕ) (entry : Peer × PeerInfo) :
    manager.checkTimeout now entry =
      if entry.2.TurnsSuspected now then
        { manager with
          peers := manager.peers.set entry.1 { entry.2 with status := .suspected } }
      else if entry.2.TurnsDead now then manager.removePeer entry.1
      else manager := rfl

theorem get?_checkTimeout (now : ℕ) {entry : Peer × PeerInfo}
    (hknown : manager.peers.get? entry.1 = some entry.2) (other : Peer) :
    (manager.checkTimeout now entry).peers.get? other =
      if other = entry.1 then entry.2.afterTick now else manager.peers.get? other := by
  rw [checkTimeout_eq]
  unfold PeerInfo.afterTick
  by_cases hsuspected : entry.2.TurnsSuspected now
  · rw [if_pos hsuspected, if_pos hsuspected]
    exact OrderedMap.get?_set _ _ _ _
  · rw [if_neg hsuspected, if_neg hsuspected]
    by_cases hdead : entry.2.TurnsDead now
    · rw [if_pos hdead, if_pos hdead]
      exact get?_removePeer other
    · rw [if_neg hdead, if_neg hdead]
      split
      · rename_i heq
        rw [heq, hknown]
      · rfl

theorem get?_foldl_checkTimeout (now : ℕ) {entries : List (Peer × PeerInfo)}
    (hnodup : (entries.map Prod.fst).Nodup)
    (hknown : ∀ entry ∈ entries, manager.peers.get? entry.1 = some entry.2) (other : Peer) :
    (entries.foldl (checkTimeout now) manager).peers.get? other =
      if other ∈ entries.map Prod.fst then (manager.peers.get? other).bind (PeerInfo.afterTick now)
      else manager.peers.get? other := by
  induction entries generalizing manager with
  | nil => rfl
  | cons entry entries ih =>
    obtain ⟨hfresh, hrest⟩ := List.nodup_cons.1 hnodup
    have hentry := hknown entry List.mem_cons_self
    have hothers (later : Peer × PeerInfo) (hlater : later ∈ entries) :
        (manager.checkTimeout now entry).peers.get? later.1 = some later.2 := by
      have hne : later.1 ≠ entry.1 := fun heq ↦ hfresh (heq ▸ List.mem_map_of_mem hlater)
      rw [get?_checkTimeout now hentry, if_neg hne]
      exact hknown later (List.mem_cons_of_mem _ hlater)
    rw [List.foldl_cons, ih hrest hothers, get?_checkTimeout now hentry]
    by_cases heq : other = entry.1
    · subst heq
      have hmem : entry.1 ∈ (entry :: entries).map Prod.fst := List.mem_cons_self
      rw [if_neg hfresh, if_pos rfl, if_pos hmem, hentry]
      rfl
    · have hmem : other ∈ (entry :: entries).map Prod.fst ↔ other ∈ entries.map Prod.fst := by
        rw [List.map_cons, List.mem_cons, or_iff_right heq]
      simp only [hmem, if_neg heq]

/-- Every entry is judged by itself. -/
theorem get?_tick (now : ℕ) (peerId : Peer) : (manager.tick now).peers.get? peerId =
    (manager.peers.get? peerId).bind (PeerInfo.afterTick now) := by
  have hknown (entry : Peer × PeerInfo) (hmem : entry ∈ manager.peers.entries) :
      manager.peers.get? entry.1 = some entry.2 := OrderedMap.get?_eq_some_iff.2 hmem
  rw [tick, get?_foldl_checkTimeout now manager.peers.nodup hknown]
  split
  · rfl
  · rename_i hunknown
    rw [OrderedMap.get?_eq_none_iff.2 hunknown]
    rfl

theorem peers_connect (host : String) (port : ℕ) (peerId : Peer) :
    (manager.connect host port peerId).peers = manager.peers := by
  unfold connect
  split
  · rfl
  · split
    · rfl
    · rfl

theorem get?_addPeer (now : ℕ) (host : String) (port : ℕ) (other : Peer) :
    (manager.addPeer now peerId host port).peers.get? other =
      if other = peerId ∧ peerId ∉ manager.peers.keys then
        some { host, port, lastSeen := now, status := .connecting, lamportTime := 0 }
      else manager.peers.get? other := by
  unfold addPeer
  by_cases hknown : manager.peers.has peerId = true
  · rw [if_pos hknown, if_neg fun hnew ↦ hnew.2 (OrderedMap.has_iff_mem_keys.1 hknown)]
  · rw [if_neg hknown, peers_connect, OrderedMap.get?_set]
    have hnew : peerId ∉ manager.peers.keys := fun hmem ↦
      hknown (OrderedMap.has_iff_mem_keys.2 hmem)
    simp [hnew]

/-- What a heartbeat makes of the entry of its sender. -/
def PeerInfo.heard (now : ℕ) (lamportTime : Option ℕ) (peerInfo : PeerInfo) : PeerInfo :=
  { peerInfo with
    lastSeen := now
    status := .active
    lamportTime := lamportTime.elim peerInfo.lamportTime (max peerInfo.lamportTime) }

theorem get?_updateHeartbeat (now : ℕ) (lamportTime : Option ℕ) (other : Peer) :
    (manager.updateHeartbeat now peerId lamportTime).peers.get? other =
      if other = peerId then (manager.peers.get? peerId).map (PeerInfo.heard now lamportTime)
      else manager.peers.get? other := by
  cases hknown : manager.peers.get? peerId with
  | none =>
    have hsame : manager.updateHeartbeat now peerId lamportTime = manager := by
      rw [updateHeartbeat, hknown]
    rw [hsame]
    by_cases heq : other = peerId
    · rw [if_pos heq, heq, hknown]
      rfl
    · rw [if_neg heq]
  | some peerInfo =>
    rw [updateHeartbeat, hknown]
    exact OrderedMap.get?_set _ _ _ _

theorem peers_clientOpened (clientId : ℕ) :
    (manager.clientOpened clientId).peers = manager.peers := by
  unfold clientOpened
  split
  · rfl
  · rfl

theorem peers_clientClosed (clientId : ℕ) :
    (manager.clientClosed clientId).peers = manager.peers := by
  unfold clientClosed
  split
  · rfl
  · rfl

/-- Where an entry comes from: it was there, the peer was added or heard, or a tick found an
active peer silent. -/
theorem get?_next_cases {event : Event Peer} {peerInfo : PeerInfo}
    (h : (manager.next event).peers.get? peerId = some peerInfo) :
    (manager.peers.get? peerId = some peerInfo ∧
        ∀ heard lamportTime, event ≠ .updateHeartbeat heard peerId lamportTime) ∨
      (∃ host port, event = .addPeer peerInfo.lastSeen peerId host port ∧
        peerInfo.status = .connecting) ∨
      (∃ lamportTime, event = .updateHeartbeat peerInfo.lastSeen peerId lamportTime ∧
        peerId ∈ manager.peers.keys ∧ peerInfo.status = .active) ∨
      ∃ now old, event = .tick now ∧ manager.peers.get? peerId = some old ∧
        old.TurnsSuspected now ∧ peerInfo = { old with status := .suspected } := by
  cases event with
  | addPeer now other host port =>
    rw [next, get?_addPeer] at h
    by_cases hnew : peerId = other ∧ other ∉ manager.peers.keys
    · rw [if_pos hnew] at h
      cases h
      exact .inr (.inl ⟨host, port, by rw [hnew.1], rfl⟩)
    · rw [if_neg hnew] at h
      exact .inl ⟨h, fun _ _ ↦ by simp⟩
  | removePeer other =>
    rw [next, get?_removePeer] at h
    by_cases heq : peerId = other
    · rw [if_pos heq] at h
      cases h
    · rw [if_neg heq] at h
      exact .inl ⟨h, fun _ _ ↦ by simp⟩
  | updateHeartbeat now other lamportTime =>
    rw [next, get?_updateHeartbeat] at h
    by_cases heq : peerId = other
    · rw [if_pos heq] at h
      obtain ⟨old, hold, hheard⟩ := Option.map_eq_some_iff.1 h
      subst heq hheard
      exact .inr (.inr (.inl ⟨lamportTime, rfl, OrderedMap.mem_keys_iff.2 ⟨old, hold⟩, rfl⟩))
    · rw [if_neg heq] at h
      refine .inl ⟨h, fun heard lamportTime heq' ↦ heq ?_⟩
      cases heq'
      rfl
  | tick now =>
    rw [next, get?_tick] at h
    obtain ⟨old, hold, hafter⟩ := Option.bind_eq_some_iff.1 h
    unfold PeerInfo.afterTick at hafter
    by_cases hsuspected : old.TurnsSuspected now
    · rw [if_pos hsuspected] at hafter
      cases hafter
      exact .inr (.inr (.inr ⟨now, old, rfl, hold, hsuspected, rfl⟩))
    · rw [if_neg hsuspected] at hafter
      by_cases hdead : old.TurnsDead now
      · rw [if_pos hdead] at hafter
        cases hafter
      · rw [if_neg hdead] at hafter
        cases hafter
        exact .inl ⟨hold, fun _ _ ↦ by simp⟩
  | clientOpened clientId =>
    rw [next, peers_clientOpened] at h
    exact .inl ⟨h, fun _ _ ↦ by simp⟩
  | clientClosed clientId =>
    rw [next, peers_clientClosed] at h
    exact .inl ⟨h, fun _ _ ↦ by simp⟩
  | clientReconnects clientId => exact .inl ⟨h, fun _ _ ↦ by simp⟩

/-! ## What an entry says about the past -/

/-- The reading of the clock that an event comes with. -/
def Event.now? : Event Peer → Option ℕ
  | .addPeer now .. | .updateHeartbeat now .. | .tick now => some now
  | .removePeer _ | .clientOpened _ | .clientClosed _ | .clientReconnects _ => none

/-- The clock does not go backwards. -/
def Timed (events : List (Event Peer)) : Prop := (events.filterMap Event.now?).Pairwise (· ≤ ·)

/-- The peer was recorded when it was last heard. -/
def LastHeard (start : PeerManager Peer) (events : List (Event Peer)) (peerId : Peer)
    (heard : ℕ) : Prop :=
  ∃ before lamportTime after,
    events = before ++ .updateHeartbeat heard peerId lamportTime :: after ∧
      peerId ∈ (before.foldl next start).peers.keys ∧
      ∀ later lamportTime, .updateHeartbeat later peerId lamportTime ∉ after

def HasStatus (manager : PeerManager Peer) (peerId : Peer) (status : PeerStatus) : Prop :=
  (manager.peers.get? peerId).map PeerInfo.status = some status

/-- After the peer was last heard, a tick moved it from `ACTIVE` to `SUSPECTED`. -/
def SuspectedAfter (start : PeerManager Peer) (events : List (Event Peer)) (peerId : Peer)
    (heard : ℕ) : Prop :=
  ∃ before now after, events = before ++ .tick now :: after ∧
    LastHeard start before peerId heard ∧
    HasStatus (before.foldl next start) peerId .active ∧
    HasStatus ((before.foldl next start).tick now) peerId .suspected ∧
    ∀ later lamportTime, .updateHeartbeat later peerId lamportTime ∉ after

variable {start : PeerManager Peer} {events : List (Event Peer)} {heard : ℕ}

theorem LastHeard.snoc (h : LastHeard start events peerId heard) {event : Event Peer}
    (hother : ∀ later lamportTime, event ≠ .updateHeartbeat later peerId lamportTime) :
    LastHeard start (events ++ [event]) peerId heard := by
  obtain ⟨before, lamportTime, after, rfl, hknown, hlast⟩ := h
  refine ⟨before, lamportTime, after ++ [event], by simp, hknown, fun later time hmem ↦ ?_⟩
  rcases List.mem_append.1 hmem with hafter | hnew
  · exact hlast later time hafter
  · exact hother later time (List.mem_singleton.1 hnew).symm

theorem SuspectedAfter.snoc (h : SuspectedAfter start events peerId heard) {event : Event Peer}
    (hother : ∀ later lamportTime, event ≠ .updateHeartbeat later peerId lamportTime) :
    SuspectedAfter start (events ++ [event]) peerId heard := by
  obtain ⟨before, now, after, rfl, hheard, hactive, hsuspected, hlast⟩ := h
  refine ⟨before, now, after ++ [event], by simp, hheard, hactive, hsuspected,
    fun later time hmem ↦ ?_⟩
  rcases List.mem_append.1 hmem with hafter | hnew
  · exact hlast later time hafter
  · exact hother later time (List.mem_singleton.1 hnew).symm

/-- The past of an active and of a suspected peer. -/
def Remembers (start : PeerManager Peer) (events : List (Event Peer)) (peerId : Peer)
    (peerInfo : PeerInfo) : Prop :=
  (peerInfo.status = .active → LastHeard start events peerId peerInfo.lastSeen) ∧
    (peerInfo.status = .suspected → SuspectedAfter start events peerId peerInfo.lastSeen)

theorem Remembers.next (hbefore : ∀ peerInfo ∈ (events.foldl next start).peers.get? peerId,
      Remembers start events peerId peerInfo) {event : Event Peer} {peerInfo : PeerInfo}
    (h : ((events.foldl PeerManager.next start).next event).peers.get? peerId = some peerInfo) :
    Remembers start (events ++ [event]) peerId peerInfo := by
  rcases get?_next_cases h with ⟨hsame, hother⟩ | ⟨host, port, -, hstatus⟩ |
    ⟨lamportTime, rfl, hknown, hstatus⟩ | ⟨now, old, rfl, hold, hturns, rfl⟩
  · obtain ⟨hactive, hsuspected⟩ := hbefore peerInfo hsame
    exact ⟨fun hstatus ↦ (hactive hstatus).snoc hother,
      fun hstatus ↦ (hsuspected hstatus).snoc hother⟩
  · constructor
    · intro hactive
      rw [hstatus] at hactive
      cases hactive
    · intro hsuspected
      rw [hstatus] at hsuspected
      cases hsuspected
  · refine ⟨fun _ ↦ ?_, fun hsuspected ↦ ?_⟩
    · exact ⟨events, lamportTime, [], rfl, hknown, fun _ _ ↦ List.not_mem_nil⟩
    · rw [hstatus] at hsuspected
      cases hsuspected
  · refine ⟨fun hactive ↦ ?_, fun _ ↦ ?_⟩
    · cases hactive
    · have hheard := (hbefore old hold).1 hturns.1
      refine ⟨events, now, [], rfl, hheard, ?_, ?_, fun _ _ ↦ List.not_mem_nil⟩
      · rw [HasStatus, hold]
        exact congrArg some hturns.1
      · rw [HasStatus]
        rw [PeerManager.next] at h
        rw [h]
        rfl

/-- The run lemma. -/
theorem remembers_of_run {localPeerId : String} (h : system.Run (new localPeerId) events manager)
    {peerInfo : PeerInfo} (hknown : manager.peers.get? peerId = some peerInfo) :
    Remembers (new localPeerId) events peerId peerInfo := by
  induction h generalizing peerInfo with
  | nil => cases hknown
  | snoc hrun hstep ih =>
    obtain rfl := TransitionSystem.foldl_of_run hrun
    obtain ⟨-, rfl⟩ := hstep
    exact Remembers.next (fun peerInfo hget ↦ ih hget) hknown

omit [DecidableEq Peer] in
theorem Timed.before {event : Event Peer} (h : Timed (events ++ [event])) : Timed events := by
  rw [Timed, List.filterMap_append] at h
  exact (List.pairwise_append.1 h).1

omit [DecidableEq Peer] in
theorem Timed.le {event earlier : Event Peer} (h : Timed (events ++ [event]))
    (hmem : earlier ∈ events) {now before : ℕ} (hnow : event.now? = some now)
    (hbefore : earlier.now? = some before) : before ≤ now := by
  rw [Timed, List.filterMap_append] at h
  refine (List.pairwise_append.1 h).2.2 before ?_ now ?_
  · exact List.mem_filterMap.2 ⟨earlier, hmem, hbefore⟩
  · exact List.mem_filterMap.2 ⟨event, List.mem_singleton_self _, hnow⟩

/-- The entry of a peer is as recent as each of its heartbeats. -/
theorem le_lastSeen {localPeerId : String} (h : system.Run (new localPeerId) events manager)
    (htimed : Timed events) {lamportTime : Option ℕ}
    (hmem : .updateHeartbeat heard peerId lamportTime ∈ events) {peerInfo : PeerInfo}
    (hknown : manager.peers.get? peerId = some peerInfo) : heard ≤ peerInfo.lastSeen := by
  induction h generalizing peerInfo with
  | nil => cases hmem
  | @snoc middle last events event hrun hstep ih =>
    obtain ⟨-, rfl⟩ := hstep
    have holder (hnow : event.now? = some peerInfo.lastSeen)
        (hbefore : .updateHeartbeat heard peerId lamportTime ∈ events) :
        heard ≤ peerInfo.lastSeen := htimed.le hbefore hnow rfl
    rcases get?_next_cases hknown with ⟨hsame, hother⟩ | ⟨host, port, rfl, -⟩ |
      ⟨lamportTime', rfl, -, -⟩ | ⟨now, old, rfl, hold, -, rfl⟩
    · rcases List.mem_append.1 hmem with hbefore | hlast
      · exact ih htimed.before hbefore hsame
      · exact absurd (List.mem_singleton.1 hlast).symm (hother heard lamportTime)
    · rcases List.mem_append.1 hmem with hbefore | hlast
      · exact holder rfl hbefore
      · cases List.mem_singleton.1 hlast
    · rcases List.mem_append.1 hmem with hbefore | hlast
      · exact holder rfl hbefore
      · cases List.mem_singleton.1 hlast
        exact le_rfl
    · rcases List.mem_append.1 hmem with hbefore | hlast
      · have hrecent : heard ≤ old.lastSeen := ih htimed.before hbefore hold
        exact hrecent
      · cases List.mem_singleton.1 hlast

/-! ## Soundness -/

/-- A tick removes only who had been suspected before, and was silent all the while for more than
twice the timeout. It changes nobody who was heard within the timeout. A heartbeat makes whoever is
recorded `ACTIVE`. -/
theorem removal_sound {localPeerId : String} (h : system.Run (new localPeerId) events manager)
    {now : ℕ} (htimed : Timed (events ++ [.tick now])) (peerId : Peer) :
    (peerId ∈ manager.peers.keys → peerId ∉ (manager.tick now).peers.keys →
      ∃ heard, heard + 2 * Config.PEER_TIMEOUT_MS < now ∧
        SuspectedAfter (new localPeerId) events peerId heard) ∧
    (∀ heard lamportTime, .updateHeartbeat heard peerId lamportTime ∈ events →
      now ≤ heard + Config.PEER_TIMEOUT_MS →
        (manager.tick now).peers.get? peerId = manager.peers.get? peerId) ∧
    ∀ later lamportTime, peerId ∈ manager.peers.keys →
      HasStatus (manager.updateHeartbeat later peerId lamportTime) peerId .active := by
  refine ⟨fun hknown hremoved ↦ ?_, fun heard lamportTime hmem hrecent ↦ ?_,
    fun later lamportTime hknown ↦ ?_⟩
  · obtain ⟨peerInfo, hget⟩ := OrderedMap.mem_keys_iff.1 hknown
    rw [← OrderedMap.get?_eq_none_iff, get?_tick, hget, Option.bind_some,
      PeerInfo.afterTick] at hremoved
    by_cases hsuspected : peerInfo.TurnsSuspected now
    · rw [if_pos hsuspected] at hremoved
      cases hremoved
    · rw [if_neg hsuspected] at hremoved
      by_cases hdead : peerInfo.TurnsDead now
      · have hsilent := hdead.2
        exact ⟨peerInfo.lastSeen, by omega, (remembers_of_run h hget).2 hdead.1⟩
      · rw [if_neg hdead] at hremoved
        cases hremoved
  · rw [get?_tick]
    cases hget : manager.peers.get? peerId with
    | none => rfl
    | some peerInfo =>
      have hlate := le_lastSeen h htimed.before hmem hget
      have hsuspected : ¬peerInfo.TurnsSuspected now := fun hturns ↦ by
        have hsilent := hturns.2
        omega
      have hdead : ¬peerInfo.TurnsDead now := fun hturns ↦ by
        have hsilent := hturns.2
        omega
      rw [Option.bind_some, PeerInfo.afterTick, if_neg hsuspected, if_neg hdead]
  · obtain ⟨peerInfo, hget⟩ := OrderedMap.mem_keys_iff.1 hknown
    rw [HasStatus, get?_updateHeartbeat, if_pos rfl, hget]
    rfl

/-- Bob is heard once. -/
def heardOnce : List (Event String) :=
  [.addPeer 0 "bob" "10.0.0.2" 8080, .updateHeartbeat 10 "bob" none, .tick 15011]

theorem removal_sound_bob : ∃ heard, heard + 2 * Config.PEER_TIMEOUT_MS < 30011 ∧
    SuspectedAfter (new "alice") heardOnce "bob" heard := by
  have hrun : system.Run (new "alice") heardOnce (heardOnce.foldl next (new "alice")) :=
    TransitionSystem.run_ofNext (by decide)
  refine (removal_sound hrun ?_ "bob").1 ?_ ?_
  · simp [Timed, heardOnce, Event.now?]
  · decide
  · decide

/-! ## Completeness -/

/-- Neither heard nor added again. -/
def Silent (peerId : Peer) (manager : PeerManager Peer) : Event Peer → Prop
  | .updateHeartbeat _ other _ => other ≠ peerId
  | .addPeer _ other _ _ => other = peerId → peerId ∈ manager.peers.keys
  | .removePeer _ | .tick _ | .clientOpened _ | .clientClosed _ | .clientReconnects _ => True

/-- The entry of a silent peer changes when it is removed, and with a tick. -/
theorem get?_next_of_silent {event : Event Peer} (hsilent : Silent peerId manager event) :
    (manager.next event).peers.get? peerId = manager.peers.get? peerId ∨
      (event = .removePeer peerId ∧ (manager.next event).peers.get? peerId = none) ∨
      ∃ now, (manager.next event).peers.get? peerId =
        (manager.peers.get? peerId).bind (PeerInfo.afterTick now) := by
  cases event with
  | addPeer now other host port =>
    left
    rw [next, get?_addPeer, if_neg]
    rintro ⟨rfl, hnew⟩
    exact hnew (hsilent rfl)
  | removePeer other =>
    rw [next, get?_removePeer]
    by_cases heq : peerId = other
    · exact .inr (.inl ⟨by rw [heq], if_pos heq⟩)
    · exact .inl (if_neg heq)
  | updateHeartbeat now other lamportTime =>
    left
    rw [next, get?_updateHeartbeat, if_neg (Ne.symm hsilent)]
  | tick now => exact .inr (.inr ⟨now, get?_tick now peerId⟩)
  | clientOpened clientId => exact .inl (by rw [next, peers_clientOpened])
  | clientClosed clientId => exact .inl (by rw [next, peers_clientClosed])
  | clientReconnects clientId => exact .inl rfl

/-- What is recorded of the peer, if anything is. -/
def EntryMeets (property : PeerInfo → Prop) (peerId : Peer) (manager : PeerManager Peer) : Prop :=
  ∀ peerInfo ∈ manager.peers.get? peerId, property peerInfo

/-- What ticks keep of an entry stays true of a silent peer for as long as it is recorded. -/
theorem EntryMeets.of_silent {property : PeerInfo → Prop}
    (htick : ∀ now old, property old → ∀ peerInfo ∈ old.afterTick now, property peerInfo)
    {events : List (Event Peer)} {last : PeerManager Peer}
    (h : system.GuardedRun (Silent peerId) manager events last)
    (hstart : EntryMeets property peerId manager) : EntryMeets property peerId last := by
  have hnext (manager : PeerManager Peer) (event : Event Peer)
      (hbefore : EntryMeets property peerId manager) (hsilent : Silent peerId manager event)
      (_ : Enabled manager event) : EntryMeets property peerId (manager.next event) := by
    intro peerInfo hmem
    rcases get?_next_of_silent hsilent with hsame | ⟨-, hnone⟩ | ⟨now, hafter⟩
    · rw [hsame] at hmem
      exact hbefore peerInfo hmem
    · rw [hnone] at hmem
      cases hmem
    · rw [hafter] at hmem
      obtain ⟨old, hold, hnew⟩ := Option.bind_eq_some_iff.1 hmem
      exact htick now old (hbefore old hold) peerInfo hnew
  exact h.invariant_next hnext hstart

theorem not_mem_keys_iff_entryMeets :
    peerId ∉ manager.peers.keys ↔ EntryMeets (fun _ ↦ False) peerId manager := by
  rw [← OrderedMap.get?_eq_none_iff, Option.eq_none_iff_forall_ne_some]
  rfl

/-- Whoever is removed stays removed, if nobody adds it again. -/
theorem not_mem_keys_of_silent {events : List (Event Peer)} {last : PeerManager Peer}
    (h : system.GuardedRun (Silent peerId) manager events last)
    (hremoved : peerId ∉ manager.peers.keys) : peerId ∉ last.peers.keys := by
  rw [not_mem_keys_iff_entryMeets] at hremoved ⊢
  exact EntryMeets.of_silent (fun _ _ habsurd ↦ absurd habsurd id) h hremoved

theorem not_mem_keys_of_removePeer {events : List (Event Peer)} {last : PeerManager Peer}
    (h : system.GuardedRun (Silent peerId) manager events last)
    (hmem : .removePeer peerId ∈ events) : peerId ∉ last.peers.keys := by
  obtain ⟨_, _, first, second, _, _, hstep, hrest⟩ := h.split hmem
  refine not_mem_keys_of_silent hrest ?_
  rw [hstep.2, next, ← OrderedMap.get?_eq_none_iff, get?_removePeer, if_pos rfl]

/-- No tick looks at a peer that was never heard. -/
theorem connecting_of_silent {events : List (Event Peer)} {last : PeerManager Peer}
    (h : system.GuardedRun (Silent peerId) manager events last)
    (hkept : .removePeer peerId ∉ events) {peerInfo : PeerInfo}
    (hknown : manager.peers.get? peerId = some peerInfo)
    (hconnecting : peerInfo.status = .connecting) : last.peers.get? peerId = some peerInfo := by
  have hafter (now : ℕ) : peerInfo.afterTick now = some peerInfo := by
    have hsuspected : ¬peerInfo.TurnsSuspected now := fun hturns ↦ by
      cases hconnecting.symm.trans hturns.1
    have hdead : ¬peerInfo.TurnsDead now := fun hturns ↦ by
      cases hconnecting.symm.trans hturns.1
    rw [PeerInfo.afterTick, if_neg hsuspected, if_neg hdead]
  induction h with
  | nil => exact hknown
  | @snoc middle last events event hrun hsilent hstep ih =>
    have hbefore := ih fun hmem ↦ hkept (List.mem_append_left _ hmem)
    rw [hstep.2]
    rcases get?_next_of_silent hsilent with hsame | ⟨rfl, -⟩ | ⟨now, htick⟩
    · rw [hsame, hbefore]
    · exact absurd (List.mem_append_right _ (List.mem_singleton_self _)) hkept
    · rw [htick, hbefore, Option.bind_some, hafter]

/-- The entry of a peer that was last seen then, and has been heard before. -/
def PeerInfo.Fading (lastSeen : ℕ) (peerInfo : PeerInfo) : Prop :=
  peerInfo.status ≠ .connecting ∧ peerInfo.lastSeen = lastSeen

def PeerInfo.Suspected (lastSeen : ℕ) (peerInfo : PeerInfo) : Prop :=
  peerInfo.status = .suspected ∧ peerInfo.lastSeen = lastSeen

/-- A tick leaves a peer as it is, or suspects it. -/
theorem PeerInfo.afterTick_cases {now : ℕ} {old peerInfo : PeerInfo}
    (h : peerInfo ∈ old.afterTick now) :
    (peerInfo = old ∧ ¬old.TurnsSuspected now ∧ ¬old.TurnsDead now) ∨
      (old.TurnsSuspected now ∧ peerInfo = { old with status := .suspected }) := by
  unfold PeerInfo.afterTick at h
  by_cases hsuspected : old.TurnsSuspected now
  · rw [if_pos hsuspected] at h
    cases h
    exact .inr ⟨hsuspected, rfl⟩
  · rw [if_neg hsuspected] at h
    by_cases hdead : old.TurnsDead now
    · rw [if_pos hdead] at h
      cases h
    · rw [if_neg hdead] at h
      cases h
      exact .inl ⟨rfl, hsuspected, hdead⟩

theorem PeerInfo.Fading.afterTick {lastSeen now : ℕ} {old : PeerInfo} (h : old.Fading lastSeen)
    {peerInfo : PeerInfo} (hmem : peerInfo ∈ old.afterTick now) : peerInfo.Fading lastSeen := by
  rcases PeerInfo.afterTick_cases hmem with ⟨rfl, -, -⟩ | ⟨-, rfl⟩
  · exact h
  · exact ⟨by simp, h.2⟩

/-- The first tick after the silence. -/
theorem PeerInfo.Fading.suspected {lastSeen now : ℕ} {old : PeerInfo} (h : old.Fading lastSeen)
    (hlate : lastSeen + 2 * Config.PEER_TIMEOUT_MS < now) {peerInfo : PeerInfo}
    (hmem : peerInfo ∈ old.afterTick now) : peerInfo.Suspected lastSeen := by
  have hsilent := h.2
  rcases PeerInfo.afterTick_cases hmem with ⟨rfl, hsuspected, hdead⟩ | ⟨-, rfl⟩
  · cases hstatus : peerInfo.status with
    | connecting => exact absurd hstatus h.1
    | active => exact absurd ⟨hstatus, by omega⟩ hsuspected
    | suspected => exact ⟨hstatus, hsilent⟩
  · exact ⟨rfl, hsilent⟩

theorem PeerInfo.Suspected.afterTick {lastSeen now : ℕ} {old : PeerInfo}
    (h : old.Suspected lastSeen) {peerInfo : PeerInfo} (hmem : peerInfo ∈ old.afterTick now) :
    peerInfo.Suspected lastSeen := by
  rcases PeerInfo.afterTick_cases hmem with ⟨rfl, -, -⟩ | ⟨-, rfl⟩
  · exact h
  · exact ⟨rfl, h.2⟩

/-- The second tick. -/
theorem PeerInfo.Suspected.removed {lastSeen now : ℕ} {old : PeerInfo} (h : old.Suspected lastSeen)
    (hlate : lastSeen + 2 * Config.PEER_TIMEOUT_MS < now) : old.afterTick now = none := by
  have hsilent := h.2
  have hsuspected : ¬old.TurnsSuspected now := fun hturns ↦ by
    cases h.1.symm.trans hturns.1
  rw [PeerInfo.afterTick, if_neg hsuspected, if_pos ⟨h.1, by omega⟩]

/-- A peer that has been silent for twice the timeout is gone after two ticks, exactly if it was
heard before or somebody removed it. -/
theorem removed_iff_heard {peerInfo : PeerInfo}
    (hknown : manager.peers.get? peerId = some peerInfo) {before after : List (Event Peer)}
    {middle last : PeerManager Peer} {first second : ℕ}
    (hbefore : system.GuardedRun (Silent peerId) manager before middle)
    (hlate : peerInfo.lastSeen + 2 * Config.PEER_TIMEOUT_MS < first)
    (hafter : system.GuardedRun (Silent peerId) (middle.tick first) after last)
    (hclock : first ≤ second) :
    peerId ∉ (last.tick second).peers.keys ↔
      peerInfo.status ≠ .connecting ∨ .removePeer peerId ∈ before ∨ .removePeer peerId ∈ after := by
  have hfirst : system.GuardedRun (Silent peerId) middle [.tick first] (middle.tick first) :=
    .snoc (.nil _) trivial ⟨trivial, rfl⟩
  have hsecond : system.GuardedRun (Silent peerId) last [.tick second] (last.tick second) :=
    .snoc (.nil _) trivial ⟨trivial, rfl⟩
  constructor
  · intro hremoved
    by_contra hkept
    obtain ⟨hconnecting, hbeforeKept, hafterKept⟩ :
        peerInfo.status = .connecting ∧ .removePeer peerId ∉ before ∧
          .removePeer peerId ∉ after := by simpa using hkept
    have hmiddle := connecting_of_silent hbefore hbeforeKept hknown hconnecting
    have hticked := connecting_of_silent hfirst (by simp) hmiddle hconnecting
    have hlast := connecting_of_silent hafter hafterKept hticked hconnecting
    have hend := connecting_of_silent hsecond (by simp) hlast hconnecting
    exact hremoved (OrderedMap.mem_keys_iff.2 ⟨peerInfo, hend⟩)
  · rintro (hheard | hearly | hlater)
    · have hstart : EntryMeets (PeerInfo.Fading peerInfo.lastSeen) peerId manager := by
        intro found hfound
        rw [hknown] at hfound
        cases hfound
        exact ⟨hheard, rfl⟩
      have hmiddle := hstart.of_silent (fun _ _ hfading _ ↦ hfading.afterTick) hbefore
      have hticked : EntryMeets (PeerInfo.Suspected peerInfo.lastSeen) peerId
          (middle.tick first) := by
        intro found hfound
        rw [get?_tick] at hfound
        obtain ⟨old, hold, hnew⟩ := Option.bind_eq_some_iff.1 hfound
        exact (hmiddle old hold).suspected hlate hnew
      have hlast := hticked.of_silent (fun _ _ hsuspected _ ↦ hsuspected.afterTick) hafter
      rw [← OrderedMap.get?_eq_none_iff, get?_tick]
      refine Option.bind_eq_none_iff.2 fun old hold ↦ ?_
      exact (hlast old hold).removed (by omega)
    · have hmiddle := not_mem_keys_of_removePeer hbefore hearly
      have hticked := not_mem_keys_of_silent hfirst hmiddle
      exact not_mem_keys_of_silent hsecond (not_mem_keys_of_silent hafter hticked)
    · exact not_mem_keys_of_silent hsecond (not_mem_keys_of_removePeer hafter hlater)

/-- Bob was suspected at 15011. -/
theorem removed_iff_heard_bob :
    "bob" ∉ (((heardOnce.foldl next (new "alice")).tick 30011).tick 40000).peers.keys := by
  have hknown : (heardOnce.foldl next (new "alice")).peers.get? "bob" =
      some ⟨"10.0.0.2", 8080, 10, .suspected, 0⟩ := by decide
  refine (removed_iff_heard hknown (.nil _) (by decide) (.nil _) (by decide)).2 (.inl ?_)
  decide

/-- Bob was added and is never heard. -/
theorem not_removed_of_connecting :
    ¬∀ localPeerId events (manager : PeerManager String),
      system.Run (new localPeerId) events manager → ∀ peerId (peerInfo : PeerInfo),
        manager.peers.get? peerId = some peerInfo →
        ∀ first second, peerInfo.lastSeen + 2 * Config.PEER_TIMEOUT_MS < first → first ≤ second →
          peerId ∉ ((manager.tick first).tick second).peers.keys := by
  intro h
  have hrun : system.Run (new "alice") [.addPeer 0 "bob" "10.0.0.2" 8080] _ :=
    TransitionSystem.run_ofNext (by decide)
  have hbob := h _ _ _ hrun "bob" ⟨"10.0.0.2", 8080, 0, .connecting, 0⟩ (by decide)
    30001 30002 (by decide) (by decide)
  revert hbob
  decide

end PeerManager

end P2PApp
