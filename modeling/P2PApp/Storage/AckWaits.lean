import P2PApp.Storage.Watermark

/-!
# Whose acknowledgement ends a wait

A node synchronises with a peer on an inbound connection and again on an outbound `HELLO`, so two
calls for one peer may wait for acknowledgements at once, while `pendingAcks` has one entry for the
peer. A wait is never ended by what is meant for another call, but the second one takes the entry
away from the first, whose acknowledgement then falls on deaf ears. That is the only way for an
acknowledgement to be missed.
-/

namespace P2PApp

namespace SyncManager

/-- The call at `index` waits for the acknowledgement of the batch. -/
structure Waits (manager : SyncManager) (index : ℕ) (session : SyncSession) (batch : SentBatch)
    (rest : List P2PMessage) : Prop where
  hsession : manager.sessions[index]? = some session
  hphase : session.phase = .waiting batch rest

/-- An acknowledgement that arrives now resolves the wait for the batch that it names. -/
def Answerable (manager : SyncManager) : Prop :=
  ∀ index session batch rest, manager.Waits index session batch rest → ∀ turn,
    (manager.next (.receiveSyncAck session.peerId batch.id turn)).sessions[index]? =
      some (session.settle batch (some batch.id) rest turn)

/-- What ends a wait is the acknowledgement of its batch by its peer, or its own timer. -/
def EndsOwn (manager : SyncManager) (event : SyncEvent) : Prop :=
  ∀ index session batch rest, manager.Waits index session batch rest →
    (manager.next event).sessions[index]? ≠ some session →
      (∃ turn, event = .receiveSyncAck session.peerId batch.id turn) ∨
        ∃ turn, event = .ackTimeout index turn

/-- The event ends no wait but its own, and after it every wait can be answered. -/
def Undisturbed (manager : SyncManager) (event : SyncEvent) : Prop :=
  manager.EndsOwn event ∧ (manager.next event).Answerable

/-- A call that is about to send its first batch finds no other call waiting for the same peer. -/
def SoleWait (manager : SyncManager) : SyncEvent → Prop
  | .topicScanned index _ =>
    ∀ session topic, manager.sessions[index]? = some session →
      session.phase = .retrieving [topic] →
      session.messagesToSync ++
          (manager.messageStore.getByTopic topic session.lastSeenLamport).1 ≠ [] →
      ∀ other session' batch rest, other ≠ index → manager.Waits other session' batch rest →
        session'.peerId ≠ session.peerId
  | _ => True

/-- The entry of the peer is the one of the wait. -/
def Registered (manager : SyncManager) : Prop :=
  ∀ index session batch rest, manager.Waits index session batch rest →
    manager.pendingAcks.get? session.peerId = some ⟨index, batch.id⟩

/-! ## Answers and entries -/

theorem settle_ne (session : SyncSession) (batch : SentBatch) (ack : Option String)
    (rest : List P2PMessage) (turn : SyncTurn) : session.settle batch ack rest turn ≠ session := by
  intro heq
  have hsettled := session.settled_settle batch ack rest turn
  rw [heq] at hsettled
  simp at hsettled

theorem phase_of_mem_awaited {session : SyncSession} {batch : SentBatch}
    (h : batch ∈ session.awaited) : ∃ rest, session.phase = .waiting batch rest := by
  unfold SyncSession.awaited at h
  split at h
  · rename_i rest hphase
    rw [List.mem_singleton.1 h]
    exact ⟨rest, hphase⟩
  · cases h

theorem suspended_of_waits {manager : SyncManager} {index : ℕ} {session : SyncSession}
    {batch : SentBatch} {rest : List P2PMessage} (h : manager.Waits index session batch rest) :
    manager.suspended index = some (session, .waiting batch rest) := by
  rw [suspended, h.hsession, Option.map_some, h.hphase]

theorem getElem?_sessions_suspend_of_ne (manager : SyncManager) {index other : ℕ}
    (session : SyncSession) (h : other ≠ index) :
    (manager.suspend index session).sessions[other]? = manager.sessions[other]? := by
  rw [suspend, List.getElem?_set_ne h.symm]

theorem getElem?_sessions_suspend_self {manager : SyncManager} {index : ℕ}
    (session : SyncSession) (h : index < manager.sessions.length) :
    (manager.suspend index session).sessions[index]? = some session := by
  rw [suspend, List.getElem?_set_self h]

/-- An acknowledgement resumes at most the call of the entry. -/
theorem getElem?_receiveSyncAck_of_ne {manager : SyncManager} {index : ℕ}
    {fromPeerId batchId : String} (turn : SyncTurn)
    (h : manager.pendingAcks.get? fromPeerId ≠ some ⟨index, batchId⟩) :
    (manager.receiveSyncAck fromPeerId batchId turn).sessions[index]? =
      manager.sessions[index]? := by
  unfold receiveSyncAck
  split
  · rename_i pending hpending
    split
    · rename_i hbatch
      have hindex : index ≠ pending.index := by
        rintro rfl
        exact h (by rw [hpending, ← hbatch])
      split
      · exact getElem?_sessions_suspend_of_ne _ _ hindex
      · rfl
    · rfl
  · rfl

/-- A wait can be answered exactly if the entry of its peer is its own. -/
theorem answerable_iff_registered {manager : SyncManager} :
    manager.Answerable ↔ manager.Registered := by
  constructor
  · intro hanswerable index session batch rest hwaits
    by_contra hother
    have hanswered := hanswerable index session batch rest hwaits ⟨"", .new ""⟩
    rw [next, getElem?_receiveSyncAck_of_ne _ hother, hwaits.hsession] at hanswered
    exact settle_ne session batch _ rest _ (Option.some.inj hanswered).symm
  · intro hregistered index session batch rest hwaits turn
    have hindex := (List.getElem?_eq_some_iff.1 hwaits.hsession).1
    rw [next, receiveSyncAck, hregistered index session batch rest hwaits]
    simp only [if_true, suspended_of_waits hwaits]
    exact getElem?_sessions_suspend_self _ hindex

/-! ## What an event does to the waits -/

/-- With consistent entries an acknowledgement resumes a call or does nothing. -/
theorem receiveSyncAck_cases {manager : SyncManager} (h : manager.PendingConsistent)
    (fromPeerId batchId : String) (turn : SyncTurn) :
    (∃ index session session', manager.sessions[index]? = some session ∧
      Resumes manager index session (.receiveSyncAck fromPeerId batchId turn) session' ∧
      manager.receiveSyncAck fromPeerId batchId turn =
        (manager.before session (.receiveSyncAck fromPeerId batchId turn)).suspend index
          session') ∨
    manager.receiveSyncAck fromPeerId batchId turn = manager := by
  unfold receiveSyncAck
  cases hpending : manager.pendingAcks.get? fromPeerId with
  | none => exact .inr rfl
  | some pending =>
    by_cases hbatch : pending.batchId = batchId
    · obtain ⟨session, hsession, _, batch, hawaited, _⟩ := h fromPeerId pending hpending
      obtain ⟨rest, hphase⟩ := phase_of_mem_awaited hawaited
      have hsuspended := suspended_of_waits ⟨hsession, hphase⟩
      refine .inl ⟨pending.index, session, _, hsession, .acknowledged hphase ?_, ?_⟩
      · rw [hpending, ← hbatch]
      · simp only [hbatch, if_true, hsuspended]
        rfl
    · exact .inr (by simp only [hbatch, if_false])

/-- An event resumes one call, or leaves the entries and the waiting calls alone. -/
theorem next_cases {manager : SyncManager} (h : manager.PendingConsistent) (event : SyncEvent) :
    (∃ index session session', manager.sessions[index]? = some session ∧
      Resumes manager index session event session' ∧
      manager.next event = (manager.before session event).suspend index session') ∨
    ((manager.next event).pendingAcks = manager.pendingAcks ∧
      (∀ (index : ℕ) (session : SyncSession), manager.sessions[index]? = some session →
        (manager.next event).sessions[index]? = some session) ∧
      ∀ index session batch rest, (manager.next event).Waits index session batch rest →
        manager.Waits index session batch rest) := by
  have heffect := effect_next manager event
  generalize hnext : manager.next event = after at heffect
  cases heffect with
  | saved _ | flushed | routed _ | idle _ =>
    refine .inr ⟨rfl, fun index session hsession ↦ hsession, fun _ _ _ _ hwaits ↦ ?_⟩
    exact ⟨hwaits.hsession, hwaits.hphase⟩
  | begun peerId =>
    refine .inr ⟨rfl, fun index session hsession ↦ ?_, fun index session batch rest hwaits ↦ ?_⟩
    · have hindex := (List.getElem?_eq_some_iff.1 hsession).1
      exact (List.getElem?_append_left hindex).trans hsession
    · refine ⟨?_, hwaits.hphase⟩
      have hsession := hwaits.hsession
      rw [List.getElem?_append] at hsession
      split at hsession
      · exact hsession
      · -- The new call does not wait yet.
        rw [List.getElem?_singleton] at hsession
        split at hsession <;> cases hsession
        cases hwaits.hphase
  | resumed hsession hresumes => exact .inl ⟨_, _, _, hsession, hresumes, rfl⟩
  | dropped fromPeerId batchId turn =>
    rw [← hnext]
    rcases receiveSyncAck_cases h fromPeerId batchId turn with hresumed | hsame
    · exact .inl hresumed
    · refine .inr ?_
      rw [next, hsame]
      exact ⟨rfl, fun _ _ h ↦ h, fun _ _ _ _ h ↦ h⟩

/-- An event that resumes a waiting call is meant for it. -/
theorem Resumes.own {manager : SyncManager} {index : ℕ} {session session' : SyncSession}
    {event : SyncEvent} {batch : SentBatch} {rest : List P2PMessage}
    (h : Resumes manager index session event session')
    (hpending : manager.PendingConsistent) (hwaits : manager.Waits index session batch rest) :
    (∃ turn, event = .receiveSyncAck session.peerId batch.id turn) ∨
      ∃ turn, event = .ackTimeout index turn := by
  have hphase := hwaits.hphase
  cases h with
  | @acknowledged fromPeerId batchId turn _ _ _ hacked =>
    obtain ⟨owner, howner, hpeer, batch', hawaited, hid⟩ := hpending _ _ hacked
    rw [hwaits.hsession] at howner
    obtain rfl := Option.some.inj howner
    rw [SyncSession.awaited, hphase, List.mem_singleton] at hawaited
    subst hawaited
    exact .inl ⟨turn, by rw [hpeer, hid]⟩
  | @timedOut turn => exact .inr ⟨turn, rfl⟩
  | lastSeenRead hother | topicsRetrieved hother | topicScanned hother | lastSeenWritten hother =>
    rw [hphase] at hother
    cases hother

theorem endsOwn_of_consistent {manager : SyncManager} (h : manager.PendingConsistent)
    (event : SyncEvent) : manager.EndsOwn event := by
  intro index session batch rest hwaits hended
  rcases next_cases h event with ⟨resumed, owner, owner', howner, hresumes, hnext⟩ |
    ⟨_, hkept, _⟩
  · by_cases hindex : index = resumed
    · subst hindex
      obtain rfl := Option.some.inj (hwaits.hsession.symm.trans howner)
      exact hresumes.own h hwaits
    · rw [hnext, getElem?_sessions_suspend_of_ne _ _ hindex, sessions_before] at hended
      exact absurd hwaits.hsession hended
  · exact absurd (hkept index session hwaits.hsession) hended

/-! ## Entries -/

/-- Where every wait has its entry, no two calls wait for one peer. -/
theorem Registered.peerId_ne {manager : SyncManager} (h : manager.Registered)
    {index other : ℕ} {session session' : SyncSession} {batch batch' : SentBatch}
    {rest rest' : List P2PMessage} (hwaits : manager.Waits index session batch rest)
    (hother : manager.Waits other session' batch' rest') (hne : other ≠ index) :
    session'.peerId ≠ session.peerId := by
  intro hpeer
  have hentry := h index session batch rest hwaits
  rw [← hpeer, h other session' batch' rest' hother] at hentry
  exact hne (PendingAck.mk.inj (Option.some.inj hentry)).1

/-- A call that begins to wait after its scans had one topic left and found something to send. -/
theorem of_awaited_scanned {session : SyncSession} {topicMsgs : List P2PMessage}
    {topics : List String} {turn : SyncTurn}
    (h : (session.scanned topicMsgs topics turn).awaited ≠ []) :
    topics = [] ∧ session.messagesToSync ++ topicMsgs ≠ [] := by
  unfold SyncSession.scanned at h
  dsimp only at h
  split at h
  · exact absurd rfl h
  · rename_i htopics
    split at h
    · exact absurd rfl h
    · rename_i hmessages
      exact ⟨not_not.1 htopics, hmessages⟩

theorem scanned_waits (session : SyncSession) {topicMsgs : List P2PMessage} (turn : SyncTurn)
    (h : session.messagesToSync ++ topicMsgs ≠ []) :
    ∃ batch rest, (session.scanned topicMsgs [] turn).phase = .waiting batch rest := by
  have hsorted : SyncSession.sortByLamport (session.messagesToSync ++ topicMsgs) ≠ [] := by
    rw [SyncSession.sortByLamport, ne_eq, ← List.length_eq_zero_iff, List.length_insertionSort,
      List.length_eq_zero_iff]
    exact h
  simp only [SyncSession.scanned, ne_eq, not_true, if_false, h, SyncSession.iterate, hsorted]
  exact ⟨_, _, rfl⟩

/-- Where every wait has its entry, the call that an event lets wait has its peer for itself. -/
theorem Resumes.alone {manager : SyncManager} {index : ℕ} {session session' : SyncSession}
    {event : SyncEvent} (h : Resumes manager index session event session')
    (hregistered : manager.Registered) (hsole : manager.SoleWait event)
    (hsession : manager.sessions[index]? = some session) (hwaiting : session'.awaited ≠ [])
    {other : ℕ} {session'' : SyncSession} {batch : SentBatch} {rest : List P2PMessage}
    (hother : other ≠ index) (hwaits : manager.Waits other session'' batch rest) :
    session''.peerId ≠ session'.peerId := by
  rw [h.peerId.1]
  cases h with
  | lastSeenRead _ | topicsRetrieved _ | lastSeenWritten _ => exact absurd rfl hwaiting
  | acknowledged hphase _ | timedOut hphase =>
    exact hregistered.peerId_ne ⟨hsession, hphase⟩ hwaits hother
  | topicScanned hphase =>
    obtain ⟨rfl, hmessages⟩ := of_awaited_scanned hwaiting
    exact hsole session _ hsession hphase hmessages other session'' batch rest hother hwaits

/-- What an event does beside resuming a call leaves the entries of the other waits alone. -/
theorem Resumes.get?_before {manager : SyncManager} {index : ℕ} {session session' : SyncSession}
    {event : SyncEvent} (h : Resumes manager index session event session')
    (hregistered : manager.Registered) (hsession : manager.sessions[index]? = some session)
    {other : ℕ} {session'' : SyncSession} {batch : SentBatch} {rest : List P2PMessage}
    (hother : other ≠ index) (hwaits : manager.Waits other session'' batch rest) :
    (manager.before session event).pendingAcks.get? session''.peerId =
      some ⟨other, batch.id⟩ := by
  have hentry := hregistered other session'' batch rest hwaits
  cases h with
  | lastSeenRead _ | topicsRetrieved _ | topicScanned _ | lastSeenWritten _ => exact hentry
  | @acknowledged fromPeerId batchId turn _ _ _ hacked =>
    have hne : session''.peerId ≠ fromPeerId := by
      rintro rfl
      rw [hentry] at hacked
      exact hother (PendingAck.mk.inj (Option.some.inj hacked)).1
    rw [before, dropPendingAck, OrderedMap.get?_erase, if_neg hne, hentry]
  | timedOut hphase =>
    have hne := hregistered.peerId_ne ⟨hsession, hphase⟩ hwaits hother
    rw [before, dropPendingAck, OrderedMap.get?_erase, if_neg hne, hentry]

/-- The step lemma for the entries. -/
theorem Registered.next {manager : SyncManager} {event : SyncEvent} (h : manager.Registered)
    (hpending : manager.PendingConsistent) (hsole : manager.SoleWait event) :
    (manager.next event).Registered := by
  rcases next_cases hpending event with ⟨index, session, session', hsession, hresumes, hnext⟩ |
    ⟨hentries, _, hwaiting⟩
  · have hindex := (List.getElem?_eq_some_iff.1 hsession).1
    rw [hnext]
    intro other session'' batch rest hwaits
    by_cases hother : other = index
    · subst hother
      have hself := hwaits.hsession
      rw [getElem?_sessions_suspend_self _ (by rwa [sessions_before])] at hself
      obtain rfl := Option.some.inj hself
      rw [suspend, hwaits.hphase, OrderedMap.get?_set_self]
    · have hbefore : manager.Waits other session'' batch rest := by
        refine ⟨?_, hwaits.hphase⟩
        rw [← hwaits.hsession, getElem?_sessions_suspend_of_ne _ _ hother, sessions_before]
      have hkept := hresumes.get?_before h hsession hother hbefore
      rw [suspend]
      split
      · rename_i batch' rest' hphase
        have hawaited : session'.awaited ≠ [] := by
          rw [SyncSession.awaited, hphase]
          exact List.cons_ne_nil _ _
        have halone := hresumes.alone h hsole hsession hawaited hother hbefore
        rw [OrderedMap.get?_set_of_ne _ _ halone, hkept]
      · exact hkept
  · intro index session batch rest hwaits
    rw [hentries]
    exact h index session batch rest (hwaiting index session batch rest hwaits)

/-- A call that sends its first batch to a peer for which another call waits takes the entry. -/
theorem soleWait_of_registered {manager : SyncManager} {event : SyncEvent}
    (h : (manager.next event).Registered) : manager.SoleWait event := by
  cases event with
  | topicScanned index turn =>
    intro session topic hsession hphase hmessages other session' batch rest hother hwaits hpeer
    have hindex := (List.getElem?_eq_some_iff.1 hsession).1
    obtain ⟨sent, unsent, hsent⟩ := scanned_waits session turn hmessages
    have hnext : manager.next (.topicScanned index turn) =
        (manager.storeStep .flush).suspend index (session.scanned
          (manager.messageStore.getByTopic topic session.lastSeenLamport).1 [] turn) := by
      rw [next, suspended, hsession, Option.map_some, hphase]
    rw [hnext] at h
    have hresumed := h index _ sent unsent ⟨getElem?_sessions_suspend_self _ hindex, hsent⟩
    have hkept := h other session' batch rest
      ⟨by rw [getElem?_sessions_suspend_of_ne _ _ hother]; exact hwaits.hsession, hwaits.hphase⟩
    have hresumes : Resumes manager index session (.topicScanned index turn) _ :=
      .topicScanned hphase
    rw [hpeer, ← hresumes.peerId.1, hresumed] at hkept
    exact hother (PendingAck.mk.inj (Option.some.inj hkept)).1.symm
  | _ => trivial

/-- The invariant of undisturbed runs. -/
def Orderly (manager : SyncManager) : Prop := manager.Registered ∧ manager.Consistent

theorem orderly_new : new.Orderly := by
  refine ⟨fun index session batch rest hwaits ↦ ?_, consistent_of_run (.nil new)⟩
  cases hwaits.hsession

theorem Orderly.of_undisturbed {manager : SyncManager} {event : SyncEvent} (h : manager.Orderly)
    (hundisturbed : manager.Undisturbed event) :
    manager.SoleWait event ∧ (manager.next event).Orderly := by
  have hregistered := answerable_iff_registered.1 hundisturbed.2
  exact ⟨soleWait_of_registered hregistered, hregistered,
    h.2.effect (effect_next manager event)⟩

theorem Orderly.of_soleWait {manager : SyncManager} {event : SyncEvent} (h : manager.Orderly)
    (hsole : manager.SoleWait event) :
    manager.Undisturbed event ∧ (manager.next event).Orderly := by
  have hregistered := h.1.next h.2.pending hsole
  exact ⟨⟨endsOwn_of_consistent h.2.pending event, answerable_iff_registered.2 hregistered⟩,
    hregistered, h.2.effect (effect_next manager event)⟩

/-- Every acknowledgement of a run ends its wait if and only if no call sends its first batch to a
peer while another call waits for that peer. -/
theorem undisturbed_iff_soleWait {events : List SyncEvent} {manager : SyncManager} :
    system.GuardedRun Undisturbed new events manager ↔
      system.GuardedRun SoleWait new events manager := by
  constructor
  · intro hrun
    have hstep (s : SyncManager) (event : SyncEvent) (t : SyncManager) (hs : s.Orderly)
        (hundisturbed : s.Undisturbed event) (hnext : system.step s event t) :
        s.SoleWait event ∧ t.Orderly := hnext.2 ▸ hs.of_undisturbed hundisturbed
    exact hrun.of_invariant hstep orderly_new
  · intro hrun
    have hstep (s : SyncManager) (event : SyncEvent) (t : SyncManager) (hs : s.Orderly)
        (hsole : s.SoleWait event) (hnext : system.step s event t) :
        s.Undisturbed event ∧ t.Orderly := hnext.2 ▸ hs.of_soleWait hsole
    exact hrun.of_invariant hstep orderly_new

/-- A call for the peer `p` on its inbound connection and one on the outbound `HELLO`. The second
sends its first batch while the first waits for an acknowledgement. -/
def twoCalls : List SyncEvent :=
  oneBatch ++ [.onPeerReconnected "p", .lastSeenRead 1, .topicsRetrieved 1,
    .topicScanned 1 (turnOf "b1"), .topicScanned 1 (turnOf "b1")]

/-- No run disturbs a wait. -/
def NeverDisturbed : Prop :=
  ∀ events manager, system.Run new events manager →
    system.GuardedRun Undisturbed new events manager

/-- The acknowledgement of the first batch arrives, and the first call goes on waiting. -/
theorem not_neverDisturbed_twoCalls : ¬NeverDisturbed := by
  intro h
  have hrun : system.Run new twoCalls (twoCalls.foldl next new) :=
    TransitionSystem.run_ofNext (by decide +kernel)
  have hstep (s : SyncManager) (event : SyncEvent) (t : SyncManager) (_ : s.Answerable)
      (hundisturbed : s.Undisturbed event) (hnext : system.step s event t) : t.Answerable :=
    hnext.2 ▸ hundisturbed.2
  have hanswerable := (h twoCalls _ hrun).invariant hstep
    (answerable_iff_registered.2 orderly_new.1)
  have hwaiting : ∃ session ∈ (twoCalls.foldl next new).sessions[0]?,
      session.peerId = "p" ∧ session.settled = [] ∧
        ∃ batch ∈ session.awaited, batch.id = "b0" := by decide +kernel
  have hdeaf : ∀ session ∈ ((twoCalls.foldl next new).next
      (.receiveSyncAck "p" "b0" (turnOf "b2"))).sessions[0]?, session.settled = [] := by
    decide +kernel
  obtain ⟨session, hsession, hpeer, hsettled, batch, hbatch, hid⟩ := hwaiting
  obtain ⟨rest, hphase⟩ := phase_of_mem_awaited hbatch
  have hanswered := hanswerable 0 session batch rest ⟨hsession, hphase⟩ (turnOf "b2")
  rw [hpeer, hid] at hanswered
  have hunsettled := hdeaf _ hanswered
  rw [SyncSession.settled_settle] at hunsettled
  simp at hunsettled

end SyncManager

end P2PApp
