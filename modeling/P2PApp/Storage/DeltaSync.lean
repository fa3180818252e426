import P2PApp.Storage.Watermark

/-!
# When delta synchronisation skips nothing

One number per peer stands for everything that the peer was sent. It is right about a message that
was not sent as long as the message is stamped later: later than the watermark, and later than
the watermark that each running call for the peer is going to write. The invariant is that every
message on a topic of the peer is sent or later in this sense; it is kept by the synchronisation
itself, and lost by saves and subscriptions that come too late.
-/

namespace P2PApp

/-- The message was in a batch that was handed to a connection. -/
def SyncSession.Sent (session : SyncSession) (message : P2PMessage) : Prop :=
  ∃ batch ∈ session.batches, batch.connection.isSome = true ∧ message ∈ batch.messages

instance (session : SyncSession) : DecidablePred session.Sent := fun _ ↦
  inferInstanceAs (Decidable (∃ batch ∈ session.batches, _))

/-- A scan of its topic from the watermark finds the message. -/
def P2PMessage.Beyond (message : P2PMessage) (lastSeenLamport : ℕ) : Prop :=
  lastSeenLamport < message.lamportTimestamp ∧
    MessageStore.Captured message.topic (MessageStore.padStart lastSeenLamport ++ ":") message

instance (topic low : String) : DecidablePred (MessageStore.Captured topic low) := fun _ ↦
  decidable_of_iff _ (LexicographicRange.string_between_iff (topic ++ ":") low "~" _)

instance (message : P2PMessage) : DecidablePred message.Beyond := fun lastSeenLamport ↦
  inferInstanceAs (Decidable (lastSeenLamport < message.lamportTimestamp ∧ _))

/-- What the call will write as the watermark does not cover the message, or the call sends it. -/
def SyncSession.Spares (session : SyncSession) (message : P2PMessage) : Prop :=
  match session.phase with
  | .reading | .returned => True
  | .resuming => message.Beyond session.lastSeenLamport
  | .retrieving topics => message ∈ session.messagesToSync ∨
    (message.topic ∈ topics ∧ message.Beyond session.lastSeenLamport)
  | .waiting _ rest => message ∈ rest ∨ message.Beyond session.maxLamportInSync
  | .updating => message.Beyond session.maxLamportInSync

instance (session : SyncSession) : DecidablePred session.Spares := fun message ↦ by
  unfold SyncSession.Spares
  split <;> infer_instance

namespace SyncManager

section Peer

variable (peerId : String) (manager : SyncManager)

/-- The message was in a batch sent to the peer. -/
def SentTo (message : P2PMessage) : Prop :=
  ∃ session ∈ manager.sessions, session.peerId = peerId ∧ session.Sent message

instance : DecidablePred (SentTo peerId manager) := fun _ ↦
  inferInstanceAs (Decidable (∃ session ∈ manager.sessions, _))

/-- Neither the watermark of the peer nor a running call for it passes over the message. -/
def Ahead (message : P2PMessage) : Prop :=
  message.Beyond (manager.getLastSeenLamport peerId) ∧
    ∀ session ∈ manager.sessions, session.peerId = peerId → session.Spares message

instance : DecidablePred (Ahead peerId manager) := fun message ↦
  inferInstanceAs (Decidable (message.Beyond _ ∧ _))

/-- Every call for the peer that has returned has left nothing unsent of what was saved on the
topics of the peer when it began. -/
def DeltaComplete : Prop :=
  ∀ session ∈ manager.sessions, session.peerId = peerId → session.phase = .returned →
    ∀ message ∈ session.owed, manager.SentTo peerId message

instance : Decidable (DeltaComplete peerId manager) :=
  inferInstanceAs (Decidable (∀ session ∈ manager.sessions, _))

/-- Batches for the peer find a connection, and their waits do not time out. -/
def Acknowledges : SyncEvent → Prop
  | .topicScanned index turn => ∀ session ∈ manager.sessions[index]?, session.peerId = peerId →
    (turn.connectionPool.send peerId).isSome = true
  | .receiveSyncAck fromPeerId _ turn => fromPeerId = peerId →
    (turn.connectionPool.send peerId).isSome = true
  | .ackTimeout index _ => ∀ session ∈ manager.sessions[index]?, session.peerId ≠ peerId
  | _ => True

/-- A message that is saved on a topic of the peer is ahead and overwrites nothing unsent; what is
stored on a topic that the peer gains is sent or ahead; and the peer loses no topic on which a
call that has not read the topics yet owes it a message. -/
def Timely : SyncEvent → Prop
  | .save message =>
    (message.topic ∈ manager.topicsFor peerId → manager.Ahead peerId message) ∧
      ∀ older ∈ manager.saved, MessageStore.keyOf older = MessageStore.keyOf message →
        older = message ∨ manager.SentTo peerId older
  | .updateRoutes topicRouter =>
    (∀ message ∈ manager.saved, message.topic ∈ topicRouter.getTopicsForPeer peerId →
      message.topic ∉ manager.topicsFor peerId → manager.SentTo peerId message ∨
        (message ∈ MessageStore.survivors manager.saved ∧ manager.Ahead peerId message)) ∧
      ∀ session ∈ manager.sessions, session.peerId = peerId →
        (session.phase = .reading ∨ session.phase = .resuming) →
          ∀ message ∈ session.owed, message.topic ∈ topicRouter.getTopicsForPeer peerId ∨
            manager.SentTo peerId message
  | _ => True

instance : DecidablePred (Acknowledges peerId manager)
  | .topicScanned index _ => inferInstanceAs (Decidable (∀ session ∈ manager.sessions[index]?, _))
  | .receiveSyncAck fromPeerId _ _ => inferInstanceAs (Decidable (fromPeerId = peerId → _))
  | .ackTimeout index _ => inferInstanceAs (Decidable (∀ session ∈ manager.sessions[index]?, _))
  | .save _ | .flush | .updateRoutes _ | .onPeerReconnected _ | .lastSeenRead _
  | .topicsRetrieved _ | .lastSeenWritten _ => inferInstanceAs (Decidable True)

instance : DecidablePred (Timely peerId manager)
  | .save message =>
    inferInstanceAs (Decidable ((message.topic ∈ manager.topicsFor peerId → _) ∧ _))
  | .updateRoutes _ => inferInstanceAs (Decidable ((∀ message ∈ manager.saved, _) ∧ _))
  | .flush | .onPeerReconnected _ | .lastSeenRead _ | .topicsRetrieved _ | .topicScanned _ _
  | .receiveSyncAck _ _ _ | .ackTimeout _ _ | .lastSeenWritten _ => inferInstanceAs (Decidable True)

/-- The message is still going to be in a batch of the call. -/
def WillSend (session : SyncSession) (message : P2PMessage) : Prop :=
  match session.phase with
  | .reading | .resuming =>
    message ∈ manager.saved ∧ message.topic ∈ manager.topicsFor session.peerId
  | .retrieving topics => message ∈ session.messagesToSync ∨
    (message ∈ MessageStore.survivors manager.saved ∧ message.topic ∈ topics ∧
      message.Beyond session.lastSeenLamport)
  | .waiting _ rest => message ∈ rest
  | .updating | .returned => False

/-- What carries the argument: the watermark is right about everything on the topics of the peer,
and the calls for the peer send what they owe it. -/
structure DeltaInvariant : Prop where
  consistent : manager.Consistent
  stored : manager.messageStore = MessageStore.new.run manager.storeLog
  ahead : ∀ message ∈ manager.saved, message.topic ∈ manager.topicsFor peerId →
    manager.SentTo peerId message ∨
      (message ∈ MessageStore.survivors manager.saved ∧ manager.Ahead peerId message)
  owed : ∀ session ∈ manager.sessions, session.peerId = peerId → ∀ message ∈ session.owed,
    manager.SentTo peerId message ∨ manager.WillSend session message

end Peer

end SyncManager

namespace SyncSession

variable {session : SyncSession} {rest : List P2PMessage} {turn : SyncTurn} {message : P2PMessage}

/-- What the loop was about to send is sent with the next batch, or stays to be sent. -/
theorem sent_or_unsent_iterate
    (hreaches : (turn.connectionPool.send session.peerId).isSome = true) (h : message ∈ rest) :
    (session.iterate rest turn).Sent message ∨
      ∃ batch later, (session.iterate rest turn).phase = .waiting batch later ∧
        message ∈ later := by
  have hne : rest ≠ [] := List.ne_nil_of_mem h
  rw [← List.take_append_drop batchSize rest, List.mem_append] at h
  rw [iterate, if_neg hne]
  rcases h with hfirst | hlater
  · left
    exact ⟨_, List.mem_append_right _ (List.mem_singleton_self _), hreaches, hfirst⟩
  · right
    exact ⟨_, _, rfl, hlater⟩

theorem spares_iterate (hbeyond : message.Beyond session.maxLamportInSync) :
    (session.iterate rest turn).Spares message := by
  unfold iterate
  split
  · by_cases hless : session.lastSeenLamport < session.maxLamportInSync
    · rw [if_pos hless]
      exact hbeyond
    · rw [if_neg hless]
      trivial
  · exact .inr hbeyond

/-- A call that goes on with its loop sends what it has selected. -/
theorem sent_or_willSend_iterate (manager : SyncManager)
    (hreaches : (turn.connectionPool.send session.peerId).isSome = true) (h : message ∈ rest) :
    (session.iterate rest turn).Sent message ∨
      ((session.iterate rest turn).Spares message ∧
        manager.WillSend (session.iterate rest turn) message) := by
  rcases sent_or_unsent_iterate hreaches h with hsent | ⟨batch, later, hphase, hlater⟩
  · exact .inl hsent
  · right
    unfold Spares SyncManager.WillSend
    rw [hphase]
    exact ⟨.inl hlater, hlater⟩

theorem spares_settle {batch : SentBatch} {ack : Option String}
    (hbeyond : message.Beyond session.maxLamportInSync) :
    (session.settle batch ack rest turn).Spares message := spares_iterate hbeyond

theorem sent_or_willSend_settle (manager : SyncManager) {batch : SentBatch} {ack : Option String}
    (hreaches : (turn.connectionPool.send session.peerId).isSome = true) (h : message ∈ rest) :
    (session.settle batch ack rest turn).Sent message ∨
      ((session.settle batch ack rest turn).Spares message ∧
        manager.WillSend (session.settle batch ack rest turn) message) :=
  sent_or_willSend_iterate manager hreaches h

end SyncSession

namespace SyncManager

theorem Resumes.sent {manager : SyncManager} {index : ℕ} {session session' : SyncSession}
    {event : SyncEvent} (h : Resumes manager index session event session') {message : P2PMessage}
    (hsent : session.Sent message) : session'.Sent message := by
  obtain ⟨batch, hbatch, hrest⟩ := hsent
  refine ⟨batch, ?_, hrest⟩
  cases h with
  | lastSeenRead hphase | topicsRetrieved hphase | topicScanned hphase | lastSeenWritten hphase =>
    simp only [SyncSession.batches, SyncSession.awaited, hphase, List.append_nil] at hbatch
    simp only [SyncSession.batches, SyncSession.settled_scanned]
    exact List.mem_append_left _ hbatch
  | acknowledged hphase _ | timedOut hphase =>
    simp only [SyncSession.batches, SyncSession.awaited, hphase] at hbatch
    rw [SyncSession.batches, SyncSession.settled_settle, List.map_append]
    exact List.mem_append_left _ hbatch

/-- A scan from the watermark finds what is beyond it, unless it was overwritten. -/
theorem mem_getByTopic {manager : SyncManager} {message : P2PMessage} {lastSeenLamport : ℕ}
    (hstored : manager.messageStore = MessageStore.new.run manager.storeLog)
    (hsurvives : message ∈ MessageStore.survivors manager.saved)
    (hbeyond : message.Beyond lastSeenLamport) :
    message ∈ (manager.messageStore.getByTopic message.topic lastSeenLamport).1 := by
  rw [hstored, MessageStore.mem_getByTopic_run]
  exact ⟨hsurvives, hbeyond.2, hbeyond.1⟩

section Resumed

variable {manager : SyncManager} {index : ℕ} {session session' : SyncSession} {event : SyncEvent}
  {message : P2PMessage}

/-- The scan of one topic loses nothing that the call has found or can still find. -/
theorem sent_or_willSend_scanned {topic : String} {topics : List String} {turn : SyncTurn}
    (hstored : manager.messageStore = MessageStore.new.run manager.storeLog)
    (hreaches : (turn.connectionPool.send session.peerId).isSome = true)
    (h : message ∈ session.messagesToSync ∨
      (message ∈ MessageStore.survivors manager.saved ∧ message.topic ∈ topic :: topics ∧
        message.Beyond session.lastSeenLamport)) :
    let scanned := session.scanned
      (manager.messageStore.getByTopic topic session.lastSeenLamport).1 topics turn
    scanned.Sent message ∨ (scanned.Spares message ∧ manager.WillSend scanned message) := by
  have hfound : message ∈ session.messagesToSync ++
        (manager.messageStore.getByTopic topic session.lastSeenLamport).1 ∨
      (message ∈ MessageStore.survivors manager.saved ∧ message.topic ∈ topics ∧
        message.Beyond session.lastSeenLamport) := by
    rcases h with hselected | ⟨hsurvives, htopic, hbeyond⟩
    · exact .inl (List.mem_append_left _ hselected)
    · rcases List.mem_cons.1 htopic with rfl | htopic
      · exact .inl (List.mem_append_right _ (mem_getByTopic hstored hsurvives hbeyond))
      · exact .inr ⟨hsurvives, htopic, hbeyond⟩
  unfold SyncSession.scanned
  dsimp only
  split
  · right
    exact ⟨hfound.imp_right And.right, hfound⟩
  · rename_i htopics
    rw [not_not] at htopics
    subst htopics
    have hselected := hfound.resolve_right fun h ↦ List.not_mem_nil h.2.1
    rw [if_neg (List.ne_nil_of_mem hselected)]
    exact SyncSession.sent_or_willSend_iterate manager hreaches (mem_sortByLamport.2 hselected)

/-- An acknowledgement for the peer resumes a call for that peer. -/
theorem peerId_of_acknowledged {fromPeerId batchId : String} (hconsistent : manager.Consistent)
    (hsession : manager.sessions[index]? = some session)
    (hpending : manager.pendingAcks.get? fromPeerId = some ⟨index, batchId⟩) :
    session.peerId = fromPeerId := by
  obtain ⟨owner, howner, hpeer, _⟩ := hconsistent.pending fromPeerId _ hpending
  rw [hsession] at howner
  obtain rfl := Option.some.inj howner
  exact hpeer

/-- The call that an event resumes still spares what is ahead, or sends it. -/
theorem Resumes.spares (h : Resumes manager index session event session')
    (hsession : manager.sessions[index]? = some session) (hconsistent : manager.Consistent)
    (hstored : manager.messageStore = MessageStore.new.run manager.storeLog)
    (hacknowledges : manager.Acknowledges session.peerId event)
    (hsurvives : message ∈ MessageStore.survivors manager.saved)
    (htopic : message.topic ∈ manager.topicsFor session.peerId)
    (hbeyond : message.Beyond (manager.getLastSeenLamport session.peerId))
    (hspares : session.Spares message) : session'.Sent message ∨ session'.Spares message := by
  unfold SyncSession.Spares at hspares
  cases h with
  | lastSeenRead _ => exact .inr hbeyond
  | topicsRetrieved hphase =>
    rw [hphase] at hspares
    exact .inr (.inr ⟨htopic, hspares⟩)
  | topicScanned hphase =>
    rw [hphase] at hspares
    have hreaches := hacknowledges session hsession rfl
    have houtcome := sent_or_willSend_scanned hstored hreaches
      (hspares.imp_right fun h ↦ ⟨hsurvives, h⟩)
    exact houtcome.imp_right And.left
  | @acknowledged fromPeerId _ turn _ rest hphase hpending =>
    rw [hphase] at hspares
    have hpeer := peerId_of_acknowledged hconsistent hsession hpending
    have hreaches := hacknowledges hpeer.symm
    rcases hspares with hrest | hbeyond
    · exact (SyncSession.sent_or_willSend_settle manager hreaches hrest).imp_right And.left
    · exact .inr (SyncSession.spares_settle hbeyond)
  | timedOut _ => exact absurd rfl (hacknowledges session hsession)
  | lastSeenWritten _ => exact .inr trivial

/-- The call that an event resumes still sends what it owes, or has sent it. -/
theorem Resumes.willSend (h : Resumes manager index session event session')
    (hsession : manager.sessions[index]? = some session) (hconsistent : manager.Consistent)
    (hstored : manager.messageStore = MessageStore.new.run manager.storeLog)
    (hacknowledges : manager.Acknowledges session.peerId event)
    (hahead : message ∈ manager.saved → message.topic ∈ manager.topicsFor session.peerId →
      message ∈ MessageStore.survivors manager.saved ∧ session.Spares message)
    (hwillSend : manager.WillSend session message) :
    session'.Sent message ∨ manager.WillSend session' message := by
  unfold WillSend at hwillSend
  cases h with
  | lastSeenRead hphase =>
    rw [hphase] at hwillSend
    exact .inr hwillSend
  | topicsRetrieved hphase =>
    rw [hphase] at hwillSend
    obtain ⟨hsurvives, hspares⟩ := hahead hwillSend.1 hwillSend.2
    rw [SyncSession.Spares, hphase] at hspares
    exact .inr (.inr ⟨hsurvives, hwillSend.2, hspares⟩)
  | topicScanned hphase =>
    rw [hphase] at hwillSend
    have hreaches := hacknowledges session hsession rfl
    exact (sent_or_willSend_scanned hstored hreaches hwillSend).imp_right And.right
  | acknowledged hphase hpending =>
    rw [hphase] at hwillSend
    have hpeer := peerId_of_acknowledged hconsistent hsession hpending
    have hreaches := hacknowledges hpeer.symm
    exact (SyncSession.sent_or_willSend_settle manager hreaches hwillSend).imp_right And.right
  | timedOut _ => exact absurd rfl (hacknowledges session hsession)
  | lastSeenWritten hphase =>
    rw [hphase] at hwillSend
    exact hwillSend.elim

end Resumed

/-! ## The invariant -/

section Invariant

variable {peerId : String} {manager : SyncManager} {message : P2PMessage}

theorem saved_storeStep (manager : SyncManager) (event : MessageStore.Event) :
    (manager.storeStep event).saved = manager.saved ++ MessageStore.saved [event] := by
  simp [saved, storeStep, MessageStore.saved]

theorem stored_storeStep {event : MessageStore.Event}
    (h : manager.messageStore = MessageStore.new.run manager.storeLog) :
    (manager.storeStep event).messageStore =
      MessageStore.new.run (manager.storeStep event).storeLog := by
  simp [storeStep, h, MessageStore.run]

theorem saved_before (manager : SyncManager) (session : SyncSession) (event : SyncEvent) :
    (manager.before session event).saved = manager.saved := by
  cases event with
  | topicScanned _ _ => simp [before, saved_storeStep, MessageStore.saved]
  | _ => rfl

theorem stored_before (session : SyncSession) (event : SyncEvent)
    (h : manager.messageStore = MessageStore.new.run manager.storeLog) :
    (manager.before session event).messageStore =
      MessageStore.new.run (manager.before session event).storeLog := by
  cases event with
  | topicScanned _ _ => exact stored_storeStep h
  | _ => exact h

theorem topicRouter_before (manager : SyncManager) (session : SyncSession) (event : SyncEvent) :
    (manager.before session event).topicRouter = manager.topicRouter := by
  cases event <;> rfl

/-- What a save leaves in the store. -/
theorem survivors_save {older : P2PMessage} (h : older ∈ MessageStore.survivors manager.saved)
    (hkey : MessageStore.keyOf older = MessageStore.keyOf message → older = message) :
    older ∈ MessageStore.survivors (manager.storeStep (.save message)).saved := by
  have hsaved : MessageStore.saved [.save message] = [message] := rfl
  rw [saved_storeStep, hsaved, MessageStore.survivors_concat, List.mem_append]
  by_cases hsame : MessageStore.keyOf older = MessageStore.keyOf message
  · right
    exact List.mem_singleton.2 (hkey hsame)
  · left
    exact List.mem_filter.2 ⟨h, by simpa using hsame⟩

theorem DeltaInvariant.save (h : manager.DeltaInvariant peerId)
    (htimely : manager.Timely peerId (.save message)) :
    (manager.storeStep (.save message)).DeltaInvariant peerId := by
  obtain ⟨hahead, hfresh⟩ := htimely
  have hsurvives {older : P2PMessage} (hunsent : ¬manager.SentTo peerId older)
      (holder : older ∈ MessageStore.survivors manager.saved) :
      older ∈ MessageStore.survivors (manager.storeStep (.save message)).saved := by
    apply survivors_save holder
    intro hkey
    exact (hfresh older (MessageStore.survivors_subset _ holder) hkey).resolve_right hunsent
  have hsaved : (manager.storeStep (.save message)).saved = manager.saved ++ [message] :=
    saved_storeStep manager _
  refine ⟨h.consistent.effect (.saved message), stored_storeStep h.stored, ?_, ?_⟩
  · intro other hother htopic
    by_cases hsent : manager.SentTo peerId other
    · exact .inl hsent
    · right
      rw [hsaved, List.mem_append, List.mem_singleton] at hother
      rcases hother with hold | rfl
      · obtain ⟨hkept, hkeptAhead⟩ := (h.ahead other hold htopic).resolve_left hsent
        exact ⟨hsurvives hsent hkept, hkeptAhead⟩
      · refine ⟨?_, hahead htopic⟩
        rw [hsaved, MessageStore.survivors_concat]
        exact List.mem_append_right _ (List.mem_singleton_self other)
  · intro session hsession hpeer owed howed
    by_cases hsent : manager.SentTo peerId owed
    · exact .inl hsent
    · right
      have hwillSend := (h.owed session hsession hpeer owed howed).resolve_left hsent
      have hgrown (hold : owed ∈ manager.saved) :
          owed ∈ (manager.storeStep (.save message)).saved := by
        rw [hsaved]
        exact List.mem_append_left _ hold
      unfold WillSend at hwillSend ⊢
      split at hwillSend
      · exact ⟨hgrown hwillSend.1, hwillSend.2⟩
      · exact ⟨hgrown hwillSend.1, hwillSend.2⟩
      · exact hwillSend.imp_right fun h ↦ ⟨hsurvives hsent h.1, h.2⟩
      · exact hwillSend
      · exact hwillSend
      · exact hwillSend

theorem DeltaInvariant.routes (h : manager.DeltaInvariant peerId) {topicRouter : Router}
    (htimely : manager.Timely peerId (.updateRoutes topicRouter)) :
    DeltaInvariant peerId { manager with topicRouter } := by
  obtain ⟨hgained, hlost⟩ := htimely
  refine ⟨h.consistent.effect (.routed topicRouter), h.stored, ?_, ?_⟩
  · intro other hother htopic
    by_cases hold : other.topic ∈ manager.topicsFor peerId
    · exact h.ahead other hother hold
    · exact hgained other hother htopic hold
  · intro session hsession hpeer owed howed
    rcases h.owed session hsession hpeer owed howed with hsent | hwillSend
    · exact .inl hsent
    · have hkept (hphase : session.phase = .reading ∨ session.phase = .resuming) :
          owed.topic ∈ topicRouter.getTopicsForPeer session.peerId ∨
            manager.SentTo peerId owed := by
        rw [hpeer]
        exact hlost session hsession hpeer hphase owed howed
      unfold WillSend at hwillSend ⊢
      split at hwillSend
      · rename_i hphase
        exact (hkept (.inl hphase)).symm.imp_right fun htopic ↦ ⟨hwillSend.1, htopic⟩
      · rename_i hphase
        exact (hkept (.inr hphase)).symm.imp_right fun htopic ↦ ⟨hwillSend.1, htopic⟩
      · exact .inr hwillSend
      · exact .inr hwillSend
      · exact .inr hwillSend
      · exact .inr hwillSend

theorem DeltaInvariant.begin (h : manager.DeltaInvariant peerId) (reconnected : String) :
    DeltaInvariant peerId
      { manager with sessions := manager.sessions ++ [manager.onPeerReconnected reconnected] } := by
  have hsent {message : P2PMessage} (hmessage : manager.SentTo peerId message) :
      SentTo peerId
        { manager with sessions := manager.sessions ++ [manager.onPeerReconnected reconnected] }
        message := by
    obtain ⟨session, hsession, hrest⟩ := hmessage
    exact ⟨session, List.mem_append_left _ hsession, hrest⟩
  refine ⟨h.consistent.effect (.begun reconnected), h.stored, ?_, ?_⟩
  · intro other hother htopic
    refine (h.ahead other hother htopic).imp hsent fun hahead ↦ ⟨hahead.1, hahead.2.1, ?_⟩
    intro session hsession hpeer
    rcases List.mem_append.1 hsession with hold | hnew
    · exact hahead.2.2 session hold hpeer
    · obtain rfl := List.mem_singleton.1 hnew
      trivial
  · intro session hsession hpeer owed howed
    rcases List.mem_append.1 hsession with hold | hnew
    · exact (h.owed session hold hpeer owed howed).imp_left hsent
    · obtain rfl := List.mem_singleton.1 hnew
      right
      have hfilter := List.mem_filter.1 howed
      exact ⟨hfilter.1, of_decide_eq_true hfilter.2⟩

theorem sentTo_suspend {event : SyncEvent} {index : ℕ} {session session' : SyncSession}
    (hsession : manager.sessions[index]? = some session)
    (hresumes : Resumes manager index session event session')
    (h : manager.SentTo peerId message) :
    ((manager.before session event).suspend index session').SentTo peerId message := by
  obtain ⟨other, hother, hpeer, hsent⟩ := h
  obtain ⟨otherIndex, hlookup⟩ := List.mem_iff_getElem?.1 hother
  have hlength := (List.getElem?_eq_some_iff.1 hsession).1
  by_cases hindex : index = otherIndex
  · subst hindex
    rw [hsession] at hlookup
    obtain rfl := Option.some.inj hlookup
    refine ⟨session', ?_, hresumes.peerId.1.trans hpeer, hresumes.sent hsent⟩
    rw [suspend, sessions_before]
    exact List.mem_set hlength _
  · refine ⟨other, ?_, hpeer, hsent⟩
    rw [suspend, sessions_before]
    apply List.mem_of_getElem?
    rw [List.getElem?_set_ne hindex]
    exact hlookup

theorem mem_sessions_suspend {event : SyncEvent} {index : ℕ}
    {session session' other : SyncSession}
    (h : other ∈ ((manager.before session event).suspend index session').sessions) :
    other ∈ manager.sessions ∨ other = session' := by
  rw [suspend, sessions_before] at h
  exact List.mem_or_eq_of_mem_set h

/-- The watermark of the peer after an event: as before, or written by a call for the peer. -/
theorem getLastSeenLamport_before {event : SyncEvent} {index : ℕ}
    {session session' : SyncSession} (hresumes : Resumes manager index session event session') :
    (manager.before session event).getLastSeenLamport peerId =
        manager.getLastSeenLamport peerId ∨
      (session.peerId = peerId ∧ session.phase = .updating ∧
        (manager.before session event).getLastSeenLamport peerId = session.maxLamportInSync) := by
  cases hresumes with
  | lastSeenWritten hphase =>
    by_cases hpeer : peerId = session.peerId
    · right
      subst hpeer
      exact ⟨rfl, hphase, by simp [before, updateLastSeenLamport, getLastSeenLamport]⟩
    · left
      simp [before, updateLastSeenLamport, getLastSeenLamport, OrderedMap.get?_set_of_ne _ _ hpeer]
  | _ => exact .inl rfl

theorem willSend_congr {manager' : SyncManager} (hsaved : manager'.saved = manager.saved)
    (htopics : manager'.topicRouter = manager.topicRouter) (session : SyncSession) :
    manager'.WillSend session message ↔ manager.WillSend session message := by
  unfold WillSend topicsFor
  rw [hsaved, htopics]

section Resumed

variable {event : SyncEvent} {index : ℕ} {session session' : SyncSession}

theorem topicsFor_resumed (peer : String) :
    ((manager.before session event).suspend index session').topicsFor peer =
      manager.topicsFor peer := by
  rw [topicsFor, topicsFor, suspend, topicRouter_before]

/-- What the session has sent after its step counts as sent. -/
theorem sentTo_of_resumes (hsession : manager.sessions[index]? = some session)
    (hresumes : Resumes manager index session event session') (hpeer : session.peerId = peerId)
    {message : P2PMessage} (hmessage : session'.Sent message) :
    ((manager.before session event).suspend index session').SentTo peerId message := by
  refine ⟨session', ?_, hresumes.peerId.1.trans hpeer, hmessage⟩
  rw [suspend, sessions_before]
  exact List.mem_set (List.getElem?_eq_some_iff.1 hsession).1 _

/-- A message that all sessions spare stays beyond the watermark, which only a session that has
ended moves. -/
theorem beyond_resumed (hsession : manager.sessions[index]? = some session)
    (hresumes : Resumes manager index session event session') {message : P2PMessage}
    (hahead : manager.Ahead peerId message) :
    message.Beyond
      (((manager.before session event).suspend index session').getLastSeenLamport peerId) := by
  rcases getLastSeenLamport_before hresumes with hsame | ⟨hpeer, hphase, hwritten⟩
  · exact hsame ▸ hahead.1
  · have hspared := hahead.2 session (List.mem_of_getElem? hsession) hpeer
    rw [SyncSession.Spares, hphase] at hspared
    exact hwritten ▸ hspared

theorem DeltaInvariant.ahead_resumed (h : manager.DeltaInvariant peerId)
    (hsession : manager.sessions[index]? = some session)
    (hresumes : Resumes manager index session event session')
    (hacknowledges : manager.Acknowledges peerId event) {message : P2PMessage}
    (hmessage : message ∈ manager.saved) (htopic : message.topic ∈ manager.topicsFor peerId) :
    ((manager.before session event).suspend index session').SentTo peerId message ∨
      (message ∈ MessageStore.survivors manager.saved ∧
        ((manager.before session event).suspend index session').Ahead peerId message) := by
  rcases h.ahead message hmessage htopic with hsent | ⟨hsurvives, hahead⟩
  · exact .inl (sentTo_suspend hsession hresumes hsent)
  have hbeyond := beyond_resumed hsession hresumes hahead
  have hspares := hahead.2 session (List.mem_of_getElem? hsession)
  by_cases hpeer : session.peerId = peerId
  · have houtcome : session'.Sent message ∨ session'.Spares message := by
      subst hpeer
      exact hresumes.spares hsession h.consistent h.stored hacknowledges hsurvives htopic
        hahead.1 (hspares rfl)
    rcases houtcome with hsent | hspared
    · exact .inl (sentTo_of_resumes hsession hresumes hpeer hsent)
    · refine .inr ⟨hsurvives, hbeyond, fun later hlater hlaterPeer ↦ ?_⟩
      rcases mem_sessions_suspend hlater with hold | rfl
      · exact hahead.2 later hold hlaterPeer
      · exact hspared
  · refine .inr ⟨hsurvives, hbeyond, fun later hlater hlaterPeer ↦ ?_⟩
    rcases mem_sessions_suspend hlater with hold | rfl
    · exact hahead.2 later hold hlaterPeer
    · exact absurd (hresumes.peerId.1.symm.trans hlaterPeer) hpeer

theorem DeltaInvariant.owed_resumed (h : manager.DeltaInvariant peerId)
    (hsession : manager.sessions[index]? = some session)
    (hresumes : Resumes manager index session event session')
    (hacknowledges : manager.Acknowledges peerId event) {other : SyncSession}
    (hother : other ∈ ((manager.before session event).suspend index session').sessions)
    (hpeer : other.peerId = peerId) {owed : P2PMessage} (howed : owed ∈ other.owed) :
    ((manager.before session event).suspend index session').SentTo peerId owed ∨
      manager.WillSend other owed := by
  have hmem := List.mem_of_getElem? hsession
  have howedBefore {earlier : SyncSession} (hearlier : earlier ∈ manager.sessions)
      (hearlierPeer : earlier.peerId = peerId) (hin : owed ∈ earlier.owed) :
      ((manager.before session event).suspend index session').SentTo peerId owed ∨
        (¬manager.SentTo peerId owed ∧ manager.WillSend earlier owed) := by
    by_cases hsent : manager.SentTo peerId owed
    · exact .inl (sentTo_suspend hsession hresumes hsent)
    · exact .inr ⟨hsent, (h.owed earlier hearlier hearlierPeer owed hin).resolve_left hsent⟩
  rcases mem_sessions_suspend hother with hold | rfl
  · exact (howedBefore hold hpeer howed).imp_right And.right
  · rw [hresumes.peerId.1] at hpeer
    rw [hresumes.peerId.2] at howed
    rcases howedBefore hmem hpeer howed with hsent | ⟨hunsent, hwillSend⟩
    · exact .inl hsent
    · have hahead (hin : owed ∈ manager.saved)
          (htopic : owed.topic ∈ manager.topicsFor session.peerId) :
          owed ∈ MessageStore.survivors manager.saved ∧ session.Spares owed := by
        rw [hpeer] at htopic
        have hahead := (h.ahead owed hin htopic).resolve_left hunsent
        exact ⟨hahead.1, hahead.2.2 session hmem hpeer⟩
      have houtcome := hresumes.willSend hsession h.consistent h.stored (hpeer ▸ hacknowledges)
        hahead hwillSend
      exact houtcome.imp_left (sentTo_of_resumes hsession hresumes hpeer)

theorem DeltaInvariant.resumed (h : manager.DeltaInvariant peerId)
    (hsession : manager.sessions[index]? = some session)
    (hresumes : Resumes manager index session event session')
    (hacknowledges : manager.Acknowledges peerId event) :
    DeltaInvariant peerId ((manager.before session event).suspend index session') := by
  have hsaved : ((manager.before session event).suspend index session').saved = manager.saved :=
    saved_before manager session event
  refine ⟨h.consistent.effect (.resumed hsession hresumes), stored_before session event h.stored,
    ?_, ?_⟩
  · intro message hmessage htopic
    rw [hsaved] at hmessage ⊢
    rw [topicsFor_resumed] at htopic
    exact h.ahead_resumed hsession hresumes hacknowledges hmessage htopic
  · intro other hother hpeer owed howed
    rw [willSend_congr hsaved (topicRouter_before manager session event) other]
    exact h.owed_resumed hsession hresumes hacknowledges hother hpeer howed

end Resumed

/-- One step that is timely and acknowledges what it sends keeps the invariant. -/
theorem DeltaInvariant.next (h : manager.DeltaInvariant peerId) (event : SyncEvent)
    (hacknowledges : manager.Acknowledges peerId event) (htimely : manager.Timely peerId event) :
    (manager.next event).DeltaInvariant peerId := by
  have hconsistent := h.consistent.effect (effect_next manager event)
  have heffect := effect_next manager event
  generalize manager.next event = manager' at hconsistent heffect
  cases heffect with
  | saved _ => exact h.save htimely
  | routed _ => exact h.routes htimely
  | begun reconnected => exact h.begin reconnected
  | resumed hsession hresumes => exact h.resumed hsession hresumes hacknowledges
  | dropped _ _ _ => exact ⟨hconsistent, h.stored, h.ahead, h.owed⟩
  | idle _ => exact h
  | flushed =>
    have hsaved : (manager.storeStep .flush).saved = manager.saved := by
      simp [saved_storeStep, MessageStore.saved]
    refine ⟨hconsistent, stored_storeStep h.stored, ?_, ?_⟩
    · rw [hsaved]
      exact h.ahead
    · intro session hsession hpeer owed howed
      rw [willSend_congr hsaved rfl session]
      exact h.owed session hsession hpeer owed howed

end Invariant

theorem deltaInvariant_new (peerId : String) : new.DeltaInvariant peerId :=
  ⟨consistent_of_run (.nil new), rfl, by simp [new, saved, MessageStore.saved], by simp [new]⟩

/-- After the first call has ended, another broadcast is saved and a second call is made. -/
def secondCall (lamportTimestamp : ℕ) : List SyncEvent :=
  acknowledged ++ [.save (MessageStore.chatOn "global" "m1" lamportTimestamp),
    .onPeerReconnected "p", .lastSeenRead 1, .topicsRetrieved 1, .topicScanned 1 (turnOf "b2"),
    .topicScanned 1 (turnOf "b2"), .receiveSyncAck "p" "b2" (turnOf "b3"), .lastSeenWritten 1]

end SyncManager

end P2PApp
