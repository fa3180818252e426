import Mathlib.Data.List.MinMax
import P2PApp.Storage.SyncManager

/-!
# What a new watermark covers

A call that writes a watermark has gone through all its batches, so the watermark covers the
messages of every batch. They are covered by acknowledgements exactly when no wait of the call
ended by its timer, for the loop goes on after a timeout as it does after an acknowledgement.
-/

namespace P2PApp

namespace SyncSession

/-- Every message that the written watermark covers was in a batch that the peer acknowledged. -/
def CoversAcked (session : SyncSession) : Prop :=
  ∀ lamportTimestamp ∈ session.updatedTo, ∀ message ∈ session.messagesToSync,
    message.lamportTimestamp ≤ lamportTimestamp →
      ∃ entry ∈ session.settled, entry.2 = some entry.1.id ∧ message ∈ entry.1.messages

instance (session : SyncSession) : Decidable session.CoversAcked :=
  inferInstanceAs (Decidable (∀ lamportTimestamp ∈ session.updatedTo, _))

def TimedOut (session : SyncSession) : Prop := ∃ entry ∈ session.settled, entry.2 = none

/-- The loop has begun, or there was nothing to send. -/
def started (session : SyncSession) : Bool :=
  match session.phase with
  | .reading | .resuming | .retrieving _ => false
  | .waiting _ _ | .updating | .returned => true

/-- What the loop has not sent yet. -/
def unsent (session : SyncSession) : List P2PMessage :=
  match session.phase with
  | .waiting _ rest => rest
  | _ => []

/-- The batches of a call, with what it has not sent yet, are its selection cut into pieces. -/
structure Consistent (session : SyncSession) : Prop where
  unstarted : session.started = false → session.settled = []
  partition : session.started = true →
    session.batches.flatMap SentBatch.messages ++ session.unsent = session.messagesToSync
  nonempty : ∀ batch ∈ session.batches, batch.messages ≠ []
  updated : ∀ lamportTimestamp ∈ session.updatedTo,
    session.phase = .returned ∧ lamportTimestamp = session.maxLamportInSync

theorem lamportTimestamp_le_maxLamportInSync {session : SyncSession} {message : P2PMessage}
    (h : message ∈ session.messagesToSync) :
    message.lamportTimestamp ≤ session.maxLamportInSync :=
  List.le_max_of_le (List.mem_map_of_mem h) le_rfl

/-! ## The head of the loop -/

section Iterate

variable (session : SyncSession) (rest : List P2PMessage) (turn : SyncTurn)

@[simp] theorem settled_iterate : (session.iterate rest turn).settled = session.settled := by
  unfold iterate
  split <;> rfl

@[simp] theorem messagesToSync_iterate :
    (session.iterate rest turn).messagesToSync = session.messagesToSync := by
  unfold iterate
  split <;> rfl

@[simp] theorem peerId_iterate : (session.iterate rest turn).peerId = session.peerId := by
  unfold iterate
  split <;> rfl

@[simp] theorem updatedTo_iterate : (session.iterate rest turn).updatedTo = session.updatedTo := by
  unfold iterate
  split <;> rfl

@[simp] theorem owed_iterate : (session.iterate rest turn).owed = session.owed := by
  unfold iterate
  split <;> rfl

theorem started_iterate : (session.iterate rest turn).started = true := by
  unfold iterate
  split
  · by_cases hless : session.lastSeenLamport < session.maxLamportInSync
    · simp [started, hless]
    · simp [started, hless]
  · rfl

/-- What the loop was about to send is in the next batch or still to be sent. -/
theorem batches_iterate :
    (session.iterate rest turn).batches.flatMap SentBatch.messages ++
        (session.iterate rest turn).unsent =
      (session.settled.map Prod.fst).flatMap SentBatch.messages ++ rest := by
  unfold iterate
  split
  · rename_i hrest
    rw [hrest]
    by_cases hless : session.lastSeenLamport < session.maxLamportInSync
    · simp [batches, awaited, unsent, hless]
    · simp [batches, awaited, unsent, hless]
  · simp [batches, awaited, unsent, List.take_append_drop]

/-- The next batch is not empty. -/
theorem mem_awaited_iterate {batch : SentBatch} (h : batch ∈ (session.iterate rest turn).awaited) :
    batch.id = turn.batchId ∧ batch.messages = rest.take batchSize ∧ batch.messages ≠ [] ∧
      batch.connection = turn.connectionPool.send session.peerId := by
  unfold iterate at h
  split at h
  · by_cases hless : session.lastSeenLamport < session.maxLamportInSync
    · simp [awaited, hless] at h
    · simp [awaited, hless] at h
  · rename_i hrest
    simp only [awaited, List.mem_singleton] at h
    subst h
    refine ⟨rfl, rfl, ?_, rfl⟩
    simpa [batchSize, List.take_eq_nil_iff] using hrest

end Iterate

/-- A call that goes on with the rest of its selection stays consistent. -/
theorem Consistent.iterate {session : SyncSession} {rest : List P2PMessage} (turn : SyncTurn)
    (hpartition : (session.settled.map Prod.fst).flatMap SentBatch.messages ++ rest =
      session.messagesToSync)
    (hnonempty : ∀ entry ∈ session.settled, entry.1.messages ≠ [])
    (hupdated : session.updatedTo = none) : (session.iterate rest turn).Consistent where
  unstarted h := by
    rw [started_iterate] at h
    cases h
  partition _ := by rw [batches_iterate, hpartition, messagesToSync_iterate]
  nonempty batch hbatch := by
    rw [batches, settled_iterate] at hbatch
    rcases List.mem_append.1 hbatch with hsettled | hawaited
    · obtain ⟨entry, hentry, rfl⟩ := List.mem_map.1 hsettled
      exact hnonempty entry hentry
    · exact (session.mem_awaited_iterate rest turn hawaited).2.2.1
  updated lamportTimestamp h := by
    rw [updatedTo_iterate, hupdated] at h
    cases h

theorem settled_settle (session : SyncSession) (batch : SentBatch) (ack : Option String)
    (rest : List P2PMessage) (turn : SyncTurn) :
    (session.settle batch ack rest turn).settled = session.settled ++ [(batch, ack)] := by
  rw [settle, settled_iterate]

theorem settled_scanned (session : SyncSession) (topicMsgs : List P2PMessage)
    (topics : List String) (turn : SyncTurn) :
    (session.scanned topicMsgs topics turn).settled = session.settled := by
  unfold scanned
  dsimp only
  split
  · rfl
  · split
    · rfl
    · rw [settled_iterate]

theorem Consistent.settle {session : SyncSession} {batch : SentBatch} {rest : List P2PMessage}
    (h : session.Consistent) (hphase : session.phase = .waiting batch rest)
    (ack : Option String) (turn : SyncTurn) : (session.settle batch ack rest turn).Consistent := by
  have hstarted : session.started = true := by rw [started, hphase]
  have hbatches : session.batches = session.settled.map Prod.fst ++ [batch] := by
    rw [batches, awaited, hphase]
  have hunsent : session.unsent = rest := by rw [unsent, hphase]
  have hupdated : session.updatedTo = none := by
    rw [Option.eq_none_iff_forall_not_mem]
    intro lamportTimestamp hmem
    rw [(h.updated lamportTimestamp hmem).1] at hphase
    cases hphase
  have hpartition := h.partition hstarted
  have hnonempty := h.nonempty
  rw [hbatches] at hpartition hnonempty
  refine Consistent.iterate turn ?_ ?_ hupdated
  · simpa [hunsent] using hpartition
  · intro entry hentry
    rcases List.mem_append.1 hentry with hold | hnew
    · exact hnonempty entry.1 (List.mem_append_left _ (List.mem_map_of_mem hold))
    · obtain rfl := List.mem_singleton.1 hnew
      exact hnonempty batch (List.mem_append_right _ (List.mem_singleton_self _))

theorem Consistent.scanned {session : SyncSession} {topics : List String} (h : session.Consistent)
    (hphase : session.phase = .retrieving topics) (topicMsgs : List P2PMessage)
    (remaining : List String) (turn : SyncTurn) :
    (session.scanned topicMsgs remaining turn).Consistent := by
  have hsettled : session.settled = [] := h.unstarted (by rw [started, hphase])
  have hupdated : session.updatedTo = none := by
    rw [Option.eq_none_iff_forall_not_mem]
    intro lamportTimestamp hmem
    rw [(h.updated lamportTimestamp hmem).1] at hphase
    cases hphase
  unfold SyncSession.scanned
  dsimp only
  split
  · exact ⟨fun _ ↦ hsettled, by simp [started], by simp [batches, awaited, hsettled],
      by simp [hupdated]⟩
  · split
    · rename_i hnothing
      obtain ⟨hnone, _⟩ := List.append_eq_nil_iff.1 hnothing
      exact ⟨fun _ ↦ hsettled, by simp [batches, awaited, unsent, hsettled, hnone],
        by simp [batches, awaited, hsettled], by simp [hupdated]⟩
    · exact Consistent.iterate turn (by simp [hsettled]) (by simp [hsettled]) hupdated

end SyncSession

namespace SyncManager

/-! ## Invariants of all runs -/

theorem Resumes.consistent {manager : SyncManager} {index : ℕ} {session session' : SyncSession}
    {event : SyncEvent} (h : Resumes manager index session event session')
    (hconsistent : session.Consistent) : session'.Consistent := by
  have hnotUpdated {phase : SyncPhase} (hphase : session.phase = phase)
      (hne : phase ≠ .returned) : session.updatedTo = none := by
    rw [Option.eq_none_iff_forall_not_mem]
    intro lamportTimestamp hmem
    exact hne (hphase.symm.trans (hconsistent.updated lamportTimestamp hmem).1)
  cases h with
  | lastSeenRead hphase =>
    have hsettled := hconsistent.unstarted (by rw [SyncSession.started, hphase])
    have hupdated := hnotUpdated hphase (by simp)
    exact ⟨fun _ ↦ hsettled, by simp [SyncSession.started],
      by simp [SyncSession.batches, SyncSession.awaited, hsettled], by simp [hupdated]⟩
  | topicsRetrieved hphase =>
    have hsettled := hconsistent.unstarted (by rw [SyncSession.started, hphase])
    have hupdated := hnotUpdated hphase (by simp)
    exact ⟨fun _ ↦ hsettled, by simp [SyncSession.started],
      by simp [SyncSession.batches, SyncSession.awaited, hsettled], by simp [hupdated]⟩
  | topicScanned hphase => exact hconsistent.scanned hphase _ _ _
  | acknowledged hphase _ => exact hconsistent.settle hphase _ _
  | timedOut hphase => exact hconsistent.settle hphase _ _
  | lastSeenWritten hphase =>
    have hpartition := hconsistent.partition (by rw [SyncSession.started, hphase])
    have hnonempty := hconsistent.nonempty
    simp only [SyncSession.batches, SyncSession.awaited, SyncSession.unsent, hphase]
      at hpartition hnonempty
    refine ⟨by simp [SyncSession.started], fun _ ↦ hpartition, hnonempty, ?_⟩
    intro lamportTimestamp hmem
    exact ⟨rfl, (Option.some.inj hmem).symm⟩

theorem Resumes.peerId {manager : SyncManager} {index : ℕ} {session session' : SyncSession}
    {event : SyncEvent} (h : Resumes manager index session event session') :
    session'.peerId = session.peerId ∧ session'.owed = session.owed := by
  cases h with
  | lastSeenRead _ | topicsRetrieved _ | lastSeenWritten _ => exact ⟨rfl, rfl⟩
  | acknowledged _ _ | timedOut _ => simp [SyncSession.settle]
  | topicScanned _ =>
    unfold SyncSession.scanned
    dsimp only
    split
    · exact ⟨rfl, rfl⟩
    · split
      · exact ⟨rfl, rfl⟩
      · simp

/-- An entry of `pendingAcks` belongs to a call for that peer that waits for the batch named. -/
def PendingConsistent (manager : SyncManager) : Prop :=
  ∀ peerId pending, manager.pendingAcks.get? peerId = some pending →
    ∃ session ∈ manager.sessions[pending.index]?, session.peerId = peerId ∧
      ∃ batch ∈ session.awaited, batch.id = pending.batchId

/-- Acknowledgements settled only the batches that they name. -/
structure Consistent (manager : SyncManager) : Prop where
  sessions : ∀ session ∈ manager.sessions, session.Consistent
  pending : manager.PendingConsistent
  acks : ∀ session ∈ manager.sessions, ∀ entry ∈ session.settled, ∀ ack ∈ entry.2,
    ack = entry.1.id

theorem pendingAcks_before {manager : SyncManager} {index : ℕ} {session session' : SyncSession}
    {event : SyncEvent} (hpending : manager.PendingConsistent)
    (hsession : manager.sessions[index]? = some session)
    (hresumes : Resumes manager index session event session') {peerId : String}
    {pending : PendingAck} (h : (manager.before session event).pendingAcks.get? peerId =
      some pending) : manager.pendingAcks.get? peerId = some pending ∧ pending.index ≠ index := by
  have hkept : manager.pendingAcks.get? peerId = some pending := by
    cases hresumes with
    | acknowledged _ _ | timedOut _ =>
      simp only [before, dropPendingAck, OrderedMap.get?_erase] at h
      split at h
      · cases h
      · exact h
    | lastSeenRead _ | topicsRetrieved _ | topicScanned _ | lastSeenWritten _ => exact h
  refine ⟨hkept, ?_⟩
  intro hindex
  obtain ⟨found, hfound, hpeer, batch, hbatch, hid⟩ := hpending peerId pending hkept
  rw [hindex, hsession] at hfound
  obtain rfl := Option.some.inj hfound
  have hwaiting {phase : SyncPhase} (hphase : session.phase = phase) :
      ∃ batch rest, phase = .waiting batch rest := by
    rw [SyncSession.awaited, hphase] at hbatch
    cases phase with
    | waiting batch rest => exact ⟨batch, rest, rfl⟩
    | reading | resuming | retrieving _ | updating | returned => cases hbatch
  cases hresumes with
  | lastSeenRead hphase | topicsRetrieved hphase | topicScanned hphase | lastSeenWritten hphase =>
    obtain ⟨_, _, himpossible⟩ := hwaiting hphase
    cases himpossible
  | acknowledged hphase hacked =>
    obtain ⟨owner, howner, hownerPeer, _⟩ := hpending _ _ hacked
    rw [hsession] at howner
    obtain rfl := Option.some.inj howner
    simp only [before, dropPendingAck] at h
    rw [← hpeer, hownerPeer, OrderedMap.get?_erase_self] at h
    cases h
  | timedOut hphase =>
    simp only [before, dropPendingAck] at h
    rw [← hpeer, OrderedMap.get?_erase_self] at h
    cases h

theorem pendingConsistent_suspend {manager : SyncManager} {index : ℕ} {session : SyncSession}
    (hindex : index < manager.sessions.length)
    (hothers : ∀ peerId pending, manager.pendingAcks.get? peerId = some pending →
      pending.index ≠ index ∧ ∃ session ∈ manager.sessions[pending.index]?,
        session.peerId = peerId ∧ ∃ batch ∈ session.awaited, batch.id = pending.batchId) :
    (manager.suspend index session).PendingConsistent := by
  intro peerId pending h
  have hold (h : manager.pendingAcks.get? peerId = some pending) :
      ∃ session' ∈ (manager.suspend index session).sessions[pending.index]?,
        session'.peerId = peerId ∧ ∃ batch ∈ session'.awaited, batch.id = pending.batchId := by
    obtain ⟨hne, hfound⟩ := hothers peerId pending h
    rwa [suspend, List.getElem?_set_ne hne.symm]
  simp only [suspend] at h
  split at h
  · rename_i batch rest hphase
    rw [OrderedMap.get?_set] at h
    split at h
    · rename_i hpeer
      obtain rfl := Option.some.inj h
      refine ⟨session, List.getElem?_set_self hindex, hpeer.symm, batch, ?_, rfl⟩
      rw [SyncSession.awaited, hphase]
      exact List.mem_singleton_self batch
    · exact hold h
  · exact hold h

/-- A property of all calls, and of what an event makes of the call it resumes, stays one of all
calls. -/
theorem forall_sessions_suspend {manager : SyncManager} {event : SyncEvent} {index : ℕ}
    {session session' : SyncSession} {property : SyncSession → Prop}
    (h : ∀ other ∈ manager.sessions, property other) (hnew : property session') :
    ∀ other ∈ ((manager.before session event).suspend index session').sessions,
      property other := by
  intro other hother
  rw [suspend, sessions_before] at hother
  rcases List.mem_or_eq_of_mem_set hother with hold | rfl
  · exact h other hold
  · exact hnew

theorem Resumes.acks {manager : SyncManager} {index : ℕ} {session session' : SyncSession}
    {event : SyncEvent} (h : Resumes manager index session event session')
    (hsession : manager.sessions[index]? = some session) (hpending : manager.PendingConsistent)
    (hacks : ∀ entry ∈ session.settled, ∀ ack ∈ entry.2, ack = entry.1.id) :
    ∀ entry ∈ session'.settled, ∀ ack ∈ entry.2, ack = entry.1.id := by
  cases h with
  | lastSeenRead _ | topicsRetrieved _ | lastSeenWritten _ => exact hacks
  | topicScanned _ =>
    rw [SyncSession.settled_scanned]
    exact hacks
  | timedOut _ =>
    rw [SyncSession.settled_settle]
    simpa [or_imp, forall_and] using hacks
  | acknowledged hphase hacked =>
    obtain ⟨owner, howner, _, batch, hbatch, hid⟩ := hpending _ _ hacked
    rw [hsession] at howner
    obtain rfl := Option.some.inj howner
    simp only [SyncSession.awaited, hphase, List.mem_singleton] at hbatch
    subst hbatch
    rw [SyncSession.settled_settle]
    simp only [List.mem_append, List.mem_singleton]
    intro entry hentry ack hack
    rcases hentry with hold | rfl
    · exact hacks entry hold ack hack
    · exact (Option.some.inj hack).symm.trans hid.symm

theorem Consistent.effect {manager manager' : SyncManager} {event : SyncEvent}
    (h : manager.Consistent) (heffect : Effect manager event manager') : manager'.Consistent := by
  cases heffect with
  | saved _ | flushed | routed _ | idle _ => exact ⟨h.sessions, h.pending, h.acks⟩
  | begun peerId =>
    have hnew (other) (hother : other ∈ manager.sessions ++ [manager.onPeerReconnected peerId]) :
        other ∈ manager.sessions ∨ other = manager.onPeerReconnected peerId := by
      simpa using hother
    refine ⟨fun other hother ↦ ?_, fun peer pending hget ↦ ?_, fun other hother ↦ ?_⟩
    · rcases hnew other hother with hold | rfl
      · exact h.sessions other hold
      · exact ⟨fun _ ↦ rfl, by simp [SyncSession.started, onPeerReconnected],
          by simp [SyncSession.batches, SyncSession.awaited, onPeerReconnected],
          by simp [onPeerReconnected]⟩
    · obtain ⟨session, hsession, hrest⟩ := h.pending peer pending hget
      have hindex := (List.getElem?_eq_some_iff.1 hsession).1
      exact ⟨session, (List.getElem?_append_left hindex).trans hsession, hrest⟩
    · rcases hnew other hother with hold | rfl
      · exact h.acks other hold
      · simp [onPeerReconnected]
  | dropped fromPeerId =>
    refine ⟨h.sessions, fun peerId pending hget ↦ ?_, h.acks⟩
    simp only [dropPendingAck, OrderedMap.get?_erase] at hget
    split at hget
    · cases hget
    · exact h.pending peerId pending hget
  | resumed hsession hresumes =>
    have hmem := List.mem_of_getElem? hsession
    have hindex := (List.getElem?_eq_some_iff.1 hsession).1
    refine ⟨forall_sessions_suspend h.sessions (hresumes.consistent (h.sessions _ hmem)), ?_,
      forall_sessions_suspend h.acks (hresumes.acks hsession h.pending (h.acks _ hmem))⟩
    apply pendingConsistent_suspend (by rwa [sessions_before])
    intro peerId pending hget
    obtain ⟨hkept, hne⟩ := pendingAcks_before h.pending hsession hresumes hget
    rw [sessions_before]
    exact ⟨hne, h.pending peerId pending hkept⟩

theorem consistent_of_run {events : List SyncEvent} {manager : SyncManager}
    (h : system.Run new events manager) : manager.Consistent := by
  have hnew : new.Consistent :=
    ⟨by simp [new], by simp [PendingConsistent, new], by simp [new]⟩
  exact h.invariant_next (fun before event hbefore _ ↦ hbefore.effect (effect_next before event))
    hnew

/-! ## Timeouts -/

theorem timedOut_settle_iff {session : SyncSession} {batch : SentBatch} {ack : Option String}
    {rest : List P2PMessage} {turn : SyncTurn} :
    (session.settle batch ack rest turn).TimedOut ↔ session.TimedOut ∨ ack = none := by
  rw [SyncSession.TimedOut, SyncSession.settled_settle]
  simp [SyncSession.TimedOut, or_and_right, exists_or]

theorem Resumes.timedOut_iff {manager : SyncManager} {index : ℕ} {session session' : SyncSession}
    {event : SyncEvent} (h : Resumes manager index session event session') :
    session'.TimedOut ↔ session.TimedOut ∨ ∃ turn, event = .ackTimeout index turn := by
  cases h with
  | lastSeenRead _ | topicsRetrieved _ | lastSeenWritten _ => simp [SyncSession.TimedOut]
  | topicScanned _ => simp [SyncSession.TimedOut, SyncSession.settled_scanned]
  | timedOut _ | acknowledged _ _ => simp [timedOut_settle_iff]

/-- A call has a batch that timed out exactly when its timer has fired. -/
theorem timedOut_of_run {events : List SyncEvent} {manager : SyncManager}
    (h : system.Run new events manager) (index : ℕ) :
    (∃ session ∈ manager.sessions[index]?, session.TimedOut) ↔
      ∃ turn, .ackTimeout index turn ∈ events := by
  induction h with
  | nil => simp [new]
  | @snoc before after events event hrun hstep ih =>
    have heffect : Effect before event after := hstep.2 ▸ effect_next before event
    have hevents : (∃ turn, .ackTimeout index turn ∈ events ++ [event]) ↔
        (∃ turn, .ackTimeout index turn ∈ events) ∨ ∃ turn, event = .ackTimeout index turn := by
      simp [exists_or, eq_comm]
    have hother (hnever : ∀ turn, event ≠ .ackTimeout index turn) :
        (∃ session ∈ before.sessions[index]?, session.TimedOut) ↔
          (∃ session ∈ before.sessions[index]?, session.TimedOut) ∨
            ∃ turn, event = .ackTimeout index turn := by
      simp [hnever]
    rw [hevents, ← ih]
    cases heffect with
    | saved _ | flushed | routed _ | dropped _ _ _ => exact hother (by simp)
    | idle hidle => exact hother fun turn heq ↦ hidle index turn heq hstep.1
    | begun peerId =>
      rw [← hother (by simp), List.getElem?_append]
      split
      · rfl
      · rename_i hindex
        rw [List.getElem?_eq_none (not_lt.1 hindex), List.getElem?_singleton]
        split <;> simp [SyncSession.TimedOut, onPeerReconnected]
    | @resumed _ resumedIndex session session' hsession hresumes =>
      rw [suspend, sessions_before]
      by_cases hindex : resumedIndex = index
      · subst hindex
        have hlength := (List.getElem?_eq_some_iff.1 hsession).1
        rw [hsession, List.getElem?_set_self hlength]
        simp [hresumes.timedOut_iff]
      · rw [List.getElem?_set_ne hindex]
        apply hother
        rintro turn rfl
        cases hresumes with
        | timedOut _ => exact hindex rfl

/-- A call none of whose waits timed out has written a watermark over acknowledged messages only,
and a timeout leaves messages uncovered that the selection does not repeat. -/
theorem coversAcked_of_run {events : List SyncEvent} {manager : SyncManager}
    (h : system.Run new events manager) (index : ℕ) (session : SyncSession)
    (hsession : manager.sessions[index]? = some session) :
    ((∀ turn, .ackTimeout index turn ∉ events) → session.CoversAcked) ∧
      (session.updatedTo.isSome = true → session.messagesToSync.Nodup → session.CoversAcked →
        ∀ turn, .ackTimeout index turn ∉ events) := by
  have hmem := List.mem_of_getElem? hsession
  have hconsistent := (consistent_of_run h).sessions session hmem
  have hacks := (consistent_of_run h).acks session hmem
  have htimedOut : session.TimedOut ↔ ∃ turn, .ackTimeout index turn ∈ events := by
    rw [← timedOut_of_run h index, hsession]
    simp
  have hselection {lamportTimestamp : ℕ} (hupdated : lamportTimestamp ∈ session.updatedTo) :
      session.settled.flatMap (fun entry ↦ entry.1.messages) = session.messagesToSync := by
    have hphase := (hconsistent.updated lamportTimestamp hupdated).1
    rw [← hconsistent.partition (by rw [SyncSession.started, hphase])]
    simp [SyncSession.batches, SyncSession.awaited, SyncSession.unsent, hphase, List.flatMap_map]
  constructor
  · intro hnever lamportTimestamp hupdated message hmessage _
    rw [← hselection hupdated] at hmessage
    obtain ⟨entry, hentry, hin⟩ := List.mem_flatMap.1 hmessage
    refine ⟨entry, hentry, ?_, hin⟩
    cases hack : entry.2 with
    | none =>
      obtain ⟨turn, hturn⟩ := htimedOut.1 ⟨entry, hentry, hack⟩
      exact absurd hturn (hnever turn)
    | some ack => rw [hacks entry hentry ack hack]
  · intro hsome hnodup hcovers turn hturn
    obtain ⟨lamportTimestamp, hupdated⟩ := Option.isSome_iff_exists.1 hsome
    obtain ⟨late, hlate, hnone⟩ := htimedOut.2 ⟨turn, hturn⟩
    have hnonempty : late.1.messages ≠ [] := by
      apply hconsistent.nonempty
      exact List.mem_append_left _ (List.mem_map_of_mem hlate)
    obtain ⟨message, hmessage⟩ := List.exists_mem_of_ne_nil _ hnonempty
    have hselected : message ∈ session.messagesToSync := by
      rw [← hselection hupdated]
      exact List.mem_flatMap.2 ⟨late, hlate, hmessage⟩
    have hbound : message.lamportTimestamp ≤ lamportTimestamp := by
      rw [(hconsistent.updated lamportTimestamp hupdated).2]
      exact SyncSession.lamportTimestamp_le_maxLamportInSync hselected
    obtain ⟨entry, hentry, hack, hin⟩ :=
      hcovers lamportTimestamp hupdated message hselected hbound
    have hne : late ≠ entry := by
      rintro rfl
      rw [hnone] at hack
      cases hack
    rw [← hselection hupdated, List.nodup_flatMap] at hnodup
    have hsymm : Std.Symm (Function.onFun List.Disjoint fun entry : SentBatch × Option String ↦
        entry.1.messages) := ⟨fun _ _ hdisjoint ↦ hdisjoint.symm⟩
    exact hnodup.2.forall hlate hentry hne hmessage hin

/-! ## One batch -/

/-- A turn at which the peer `p` is connected to the pool. -/
def turnOf (batchId : String) : SyncTurn where
  batchId
  connectionPool := (ConnectionPool.new "local").addInboundConnection ⟨0, "p"⟩

/-- One broadcast is saved, and a call for `p` sends it in the batch `b0`. -/
def oneBatch : List SyncEvent :=
  [.save (MessageStore.chatOn "global" "m0" 5), .onPeerReconnected "p", .lastSeenRead 0,
    .topicsRetrieved 0, .topicScanned 0 (turnOf "b0"), .topicScanned 0 (turnOf "b0")]

/-- The batch is acknowledged, or its timer fires; the call ends by writing the watermark. -/
def acknowledged : List SyncEvent :=
  oneBatch ++ [.receiveSyncAck "p" "b0" (turnOf "b1"), .lastSeenWritten 0]

def unacknowledged : List SyncEvent :=
  oneBatch ++ [.ackTimeout 0 (turnOf "b1"), .lastSeenWritten 0]

theorem coversAcked_acknowledged : ∃ session ∈ (acknowledged.foldl next new).sessions[0]?,
    session.updatedTo = some 5 ∧ session.CoversAcked := by
  have hrun : system.Run new acknowledged (acknowledged.foldl next new) :=
    TransitionSystem.run_ofNext (by decide +kernel)
  have hupdated : ∃ session ∈ (acknowledged.foldl next new).sessions[0]?,
      session.updatedTo = some 5 := by decide +kernel
  obtain ⟨session, hsession, hupdated⟩ := hupdated
  refine ⟨session, hsession, hupdated, ?_⟩
  exact (coversAcked_of_run hrun 0 session hsession).1 (by simp [acknowledged, oneBatch])

/-- Without any acknowledgement the watermark is written all the same. -/
theorem not_coversAcked_unacknowledged :
    system.Run new unacknowledged (unacknowledged.foldl next new) ∧
      ∃ session ∈ (unacknowledged.foldl next new).sessions[0]?,
        session.updatedTo = some 5 ∧ ¬session.CoversAcked :=
  ⟨TransitionSystem.run_ofNext (by decide +kernel), by decide +kernel⟩

end SyncManager

end P2PApp
