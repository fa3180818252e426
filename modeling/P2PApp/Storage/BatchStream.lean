import P2PApp.Library.StableSort
import P2PApp.Storage.DeltaSync

/-!
# The stream of batches

What a call of `onPeerReconnected` has collected when the last topic is scanned, it sends in the
order of the stamps, in batches of at most a hundred messages. The next batch is sent in the step
in which the wait for the last one ends.
-/

namespace P2PApp

namespace SyncSession

/-- The batches so far, one behind the other, with what is not sent yet, are the selection in the
order of the stamps. -/
structure Streams (session : SyncSession) (selection : List P2PMessage) : Prop where
  sorted : StablySorted P2PMessage.lamportTimestamp
    (session.batches.flatMap SentBatch.messages ++ session.unsent) selection
  complete : session.awaited = [] → session.unsent = []
  sized : ∀ batch ∈ session.batches, batch.messages ≠ [] ∧ batch.messages.length ≤ 100
  outstanding : session.awaited.length ≤ 1

/-- The invariant of a call that has begun to send the selection. -/
structure Streaming (session : SyncSession) (selection : List P2PMessage) : Prop where
  consistent : session.Consistent
  started : session.started = true
  selected : session.messagesToSync = sortByLamport selection
  bounded : ∀ batch ∈ session.batches, batch.messages.length ≤ batchSize

theorem length_awaited_le (session : SyncSession) : session.awaited.length ≤ 1 := by
  unfold awaited
  split
  · exact le_rfl
  · exact Nat.zero_le _

theorem unsent_of_awaited {session : SyncSession} (h : session.awaited = []) :
    session.unsent = [] := by
  unfold awaited at h
  unfold unsent
  cases hphase : session.phase with
  | waiting batch rest =>
    rw [hphase] at h
    cases h
  | reading | resuming | retrieving | updating | returned => rfl

theorem Streaming.streams {session : SyncSession} {selection : List P2PMessage}
    (h : session.Streaming selection) : session.Streams selection where
  sorted := by
    rw [h.consistent.partition h.started, h.selected]
    exact stablySorted_insertionSort P2PMessage.lamportTimestamp selection
  complete := unsent_of_awaited
  sized := fun batch hbatch ↦ ⟨h.consistent.nonempty batch hbatch, h.bounded batch hbatch⟩
  outstanding := session.length_awaited_le

theorem batches_settle (session : SyncSession) {batch : SentBatch} {rest : List P2PMessage}
    (hphase : session.phase = .waiting batch rest) (ack : Option String) (turn : SyncTurn) :
    (session.settle batch ack rest turn).batches =
      session.batches ++ (session.settle batch ack rest turn).awaited := by
  have hawaited : session.awaited = [batch] := by rw [awaited, hphase]
  rw [batches, settled_settle, batches, hawaited, List.map_append]
  rfl

theorem started_settle (session : SyncSession) (batch : SentBatch) (ack : Option String)
    (rest : List P2PMessage) (turn : SyncTurn) :
    (session.settle batch ack rest turn).started = true :=
  started_iterate _ rest turn

theorem length_le_of_mem_awaited_settle {session : SyncSession} {batch next : SentBatch}
    {ack : Option String} {rest : List P2PMessage} {turn : SyncTurn}
    (h : next ∈ (session.settle batch ack rest turn).awaited) :
    next.messages.length ≤ batchSize := by
  rw [(mem_awaited_iterate _ rest turn h).2.1]
  exact List.length_take_le _ _

theorem Streaming.settle {session : SyncSession} {selection : List P2PMessage}
    (h : session.Streaming selection) {batch : SentBatch} {rest : List P2PMessage}
    (hphase : session.phase = .waiting batch rest) (ack : Option String) (turn : SyncTurn) :
    (session.settle batch ack rest turn).Streaming selection where
  consistent := h.consistent.settle hphase ack turn
  started := session.started_settle batch ack rest turn
  selected := by
    rw [SyncSession.settle, messagesToSync_iterate]
    exact h.selected
  bounded := by
    intro next hnext
    rw [batches_settle session hphase] at hnext
    rcases List.mem_append.1 hnext with hold | hnew
    · exact h.bounded next hold
    · exact length_le_of_mem_awaited_settle hnew

/-- The last topic is scanned. -/
theorem Streaming.scanned {session : SyncSession} {topics : List String}
    (h : session.Consistent) (hphase : session.phase = .retrieving topics)
    {topicMsgs : List P2PMessage} (hne : session.messagesToSync ++ topicMsgs ≠ [])
    (turn : SyncTurn) :
    (session.scanned topicMsgs [] turn).Streaming (session.messagesToSync ++ topicMsgs) := by
  have hsettled : session.settled = [] := h.unstarted (by rw [SyncSession.started, hphase])
  have hscanned : session.scanned topicMsgs [] turn =
      { session with
          messagesToSync := sortByLamport (session.messagesToSync ++ topicMsgs) }.iterate
        (sortByLamport (session.messagesToSync ++ topicMsgs)) turn := by
    rw [SyncSession.scanned, if_neg (not_not.2 rfl), if_neg hne]
  refine ⟨h.scanned hphase topicMsgs [] turn, ?_, ?_, ?_⟩
  · rw [hscanned]
    exact started_iterate _ _ turn
  · rw [hscanned, messagesToSync_iterate]
  · intro batch hbatch
    rw [batches, settled_scanned, hsettled, hscanned] at hbatch
    rw [(mem_awaited_iterate _ _ turn hbatch).2.1]
    exact List.length_take_le _ _

end SyncSession

namespace SyncManager

/-- The acknowledgement of the batch that the call waits for, or its timer. -/
def EndsWait (index : ℕ) (session : SyncSession) (event : SyncEvent) : Prop :=
  ∃ last ∈ session.awaited,
    (∃ turn, event = .receiveSyncAck session.peerId last.id turn) ∨
      ∃ turn, event = .ackTimeout index turn

/-- The first batch is sent when a topic has been scanned, and another when the wait for the one
before it ends. -/
def SendsInTurn (manager : SyncManager) (index : ℕ) (event : SyncEvent) : Prop :=
  ∀ session ∈ manager.sessions[index]?, ∀ session' ∈ (manager.next event).sessions[index]?,
    session'.batches = session.batches ∨
      (∃ batch, session'.batches = session.batches ++ [batch]) ∧
        ((session.batches = [] ∧ ∃ turn, event = .topicScanned index turn) ∨
          EndsWait index session event)

variable {manager : SyncManager} {index : ℕ} {session session' : SyncSession} {event : SyncEvent}

/-- A call stays as it is, or the event resumes it. -/
theorem session_next (hsession : manager.sessions[index]? = some session) (event : SyncEvent) :
    (manager.next event).sessions[index]? = some session ∨
      ∃ session', (manager.next event).sessions[index]? = some session' ∧
        Resumes manager index session event session' := by
  have hlength := (List.getElem?_eq_some_iff.1 hsession).1
  have heffect := effect_next manager event
  generalize manager.next event = after at heffect
  cases heffect with
  | saved _ | flushed | routed _ | dropped _ _ _ | idle _ => exact .inl hsession
  | begun peerId => exact .inl ((List.getElem?_append_left hlength).trans hsession)
  | @resumed _ resumedIndex other resumed hother hresumes =>
    rw [suspend, sessions_before]
    by_cases heq : resumedIndex = index
    · subst heq
      obtain rfl := Option.some.inj (hsession.symm.trans hother)
      exact .inr ⟨resumed, List.getElem?_set_self hlength, hresumes⟩
    · exact .inl ((List.getElem?_set_ne heq).trans hsession)

theorem Resumes.streaming (h : Resumes manager index session event session')
    {selection : List P2PMessage} (hstreaming : session.Streaming selection) :
    session'.Streaming selection := by
  have hconsistent := h.consistent hstreaming.consistent
  have hstarted := hstreaming.started
  unfold SyncSession.started at hstarted
  cases h with
  | lastSeenRead hphase | topicsRetrieved hphase | topicScanned hphase =>
    rw [hphase] at hstarted
    cases hstarted
  | acknowledged hphase _ => exact hstreaming.settle hphase _ _
  | timedOut hphase => exact hstreaming.settle hphase _ _
  | lastSeenWritten hphase =>
    refine ⟨hconsistent, rfl, hstreaming.selected, fun batch hbatch ↦
      hstreaming.bounded batch ?_⟩
    rw [SyncSession.batches, SyncSession.awaited, hphase]
    exact hbatch

/-- A call that waits for at most one more batch has sent at most one more. -/
theorem batches_or_append {before : List SentBatch}
    (h : session'.batches = before ++ session'.awaited) :
    session'.batches = before ∨ ∃ batch, session'.batches = before ++ [batch] := by
  have hlength := session'.length_awaited_le
  rw [h]
  generalize session'.awaited = awaited at hlength
  cases awaited with
  | nil => exact .inl (List.append_nil _)
  | cons batch others =>
    have hothers : others = [] := List.length_eq_zero_iff.1 (by simpa using hlength)
    exact .inr ⟨batch, by rw [hothers]⟩

theorem sendsInTurn (h : manager.Consistent) (index : ℕ) (event : SyncEvent) :
    manager.SendsInTurn index event := by
  intro session hsession session' hsession'
  rcases session_next hsession event with hsame | ⟨resumed, hresumed, hresumes⟩
  · left
    rw [Option.some.inj (hsame.symm.trans hsession')]
  obtain rfl := Option.some.inj (hresumed.symm.trans hsession')
  have hunphased {phase : SyncPhase} (hphase : session.phase = phase)
      (hnone : ({ session with phase } : SyncSession).awaited = []) : session.awaited = [] := by
    rw [← hnone, ← hphase]
  cases hresumes with
  | lastSeenRead hphase | topicsRetrieved hphase | lastSeenWritten hphase =>
    left
    rw [SyncSession.batches, SyncSession.batches, hunphased hphase rfl]
    rfl
  | @topicScanned topic topics turn hphase =>
    have hconsistent := h.sessions session (List.mem_of_getElem? hsession)
    have hsettled := hconsistent.unstarted (by rw [SyncSession.started, hphase])
    have hbefore : session.batches = [] := by
      rw [SyncSession.batches, hsettled, hunphased hphase rfl]
      rfl
    have hafter : (session.scanned (manager.messageStore.getByTopic topic
          session.lastSeenLamport).1 topics turn).batches =
        session.batches ++ (session.scanned (manager.messageStore.getByTopic topic
          session.lastSeenLamport).1 topics turn).awaited := by
      rw [hbefore, SyncSession.batches, SyncSession.settled_scanned, hsettled]
      rfl
    exact (batches_or_append hafter).imp_right fun hsent ↦ ⟨hsent, .inl ⟨hbefore, turn, rfl⟩⟩
  | @acknowledged fromPeerId batchId turn batch rest hphase hpending =>
    have hpeer := peerId_of_acknowledged h hsession hpending
    have hawaited : session.awaited = [batch] := by rw [SyncSession.awaited, hphase]
    obtain ⟨owner, howner, -, named, hnamed, hid⟩ := h.pending _ _ hpending
    obtain rfl := Option.some.inj (hsession.symm.trans howner)
    rw [hawaited, List.mem_singleton] at hnamed
    refine (batches_or_append (session.batches_settle hphase _ turn)).imp_right fun hsent ↦
      ⟨hsent, .inr ⟨batch, ?_, .inl ⟨turn, ?_⟩⟩⟩
    · rw [hawaited]
      exact List.mem_singleton_self batch
    · rw [hpeer, ← hnamed, hid]
  | @timedOut turn batch rest hphase =>
    refine (batches_or_append (session.batches_settle hphase none turn)).imp_right fun hsent ↦
      ⟨hsent, .inr ⟨batch, ?_, .inr ⟨turn, rfl⟩⟩⟩
    rw [SyncSession.awaited, hphase]
    exact List.mem_singleton_self batch

/-- The call has begun to send the selection. -/
def StreamingAt (index : ℕ) (selection : List P2PMessage) (manager : SyncManager) : Prop :=
  ∃ session ∈ manager.sessions[index]?, session.Streaming selection

theorem StreamingAt.next {selection : List P2PMessage} (h : StreamingAt index selection manager)
    (event : SyncEvent) : StreamingAt index selection (manager.next event) := by
  obtain ⟨session, hsession, hstreaming⟩ := h
  rcases session_next hsession event with hsame | ⟨resumed, hresumed, hresumes⟩
  · exact ⟨session, hsame, hstreaming⟩
  · exact ⟨resumed, hresumed, hresumes.streaming hstreaming⟩

/-- The run lemma. -/
theorem StreamingAt.of_run {selection : List P2PMessage} (h : StreamingAt index selection manager)
    {later : List SyncEvent} {last : SyncManager} (hrun : system.Run manager later last) :
    StreamingAt index selection last :=
  hrun.invariant_next (fun _ event hbefore _ ↦ hbefore.next event) h

/-- The scan of the last topic. -/
theorem streamingAt_topicScanned (h : manager.Consistent)
    (hsession : manager.sessions[index]? = some session) {topic : String}
    (hphase : session.phase = .retrieving [topic])
    (hne : session.messagesToSync ++
      (manager.messageStore.getByTopic topic session.lastSeenLamport).1 ≠ []) (turn : SyncTurn) :
    StreamingAt index (session.messagesToSync ++
        (manager.messageStore.getByTopic topic session.lastSeenLamport).1)
      (manager.next (.topicScanned index turn)) := by
  have hlength := (List.getElem?_eq_some_iff.1 hsession).1
  refine ⟨_, ?_, .scanned (h.sessions session (List.mem_of_getElem? hsession)) hphase hne turn⟩
  rw [SyncManager.next, suspended, hsession, Option.map_some, hphase]
  exact List.getElem?_set_self hlength

end SyncManager

end P2PApp
