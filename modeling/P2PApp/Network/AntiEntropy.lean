import P2PApp.Storage.BatchStream
import P2PApp.Storage.SyncReceiver

/-!
# Synchronisation between two nodes

The sender runs `onPeerReconnected` for the receiver, the receiver runs `receiveSyncBatch` for what
arrives, and its acknowledgements end the waits of the sender. The network may delay, reorder,
repeat or lose the copies under way in both directions, and both nodes are busy with other peers
meanwhile.

That a call returns says as such nothing about the receiver: batches are acknowledged whatever was
made of them, a timeout is passed over, and one number stands for what was sent before. The
messages have arrived when none of the three has gone wrong.
-/

namespace P2PApp.AntiEntropy

open SyncReceiver SyncManager

/-- The two nodes, and under which ids they know each other. -/
structure Peering where
  platform : Platform
  /-- The receiver in the pool of the sender. -/
  receiverId : String
  /-- The sender in the pool of the receiver. -/
  senderId : String
  /-- The pool and the own id of the receiver. -/
  pool : ConnectionPool
  localPeerId : String

/-- The `SyncManager` of the sender, the engine of the receiver, and the ids of the batches that the
receiver has acknowledged. -/
structure Pair where
  sender : SyncManager
  receiver : GossipEngine
  acknowledged : List String

inductive Event
  | sender (event : SyncEvent)
  /-- A batch arrives at the receiver. -/
  | receiveSyncBatch (batch : SentBatch) (moments : ℕ → Moment)
  /-- The receiver gets a message otherwise; the neighbour is missing if it is its own. -/
  | receiveMessage (message : P2PMessage) (moment : Moment) (fromPeerId : Option String)

section Sender

variable (manager : SyncManager)

/-- A batch of a call for the peer that was handed to a connection. -/
def HandedTo (peerId : String) (batch : SentBatch) : Prop :=
  ∃ session ∈ manager.sessions, session.peerId = peerId ∧ batch ∈ session.batches ∧
    batch.connection.isSome = true

instance (peerId : String) (batch : SentBatch) : Decidable (HandedTo manager peerId batch) :=
  inferInstanceAs (Decidable (∃ session ∈ manager.sessions, _))

/-- What a next batch would take from outside. -/
def nextTurn : SyncEvent → Option SyncTurn
  | .topicScanned _ turn | .receiveSyncAck _ _ turn | .ackTimeout _ turn => some turn
  | .save _ | .flush | .updateRoutes _ | .onPeerReconnected _ | .lastSeenRead _
  | .topicsRetrieved _ | .lastSeenWritten _ => none

/-- The id of a next batch is a new one. -/
def NewId (event : SyncEvent) : Prop :=
  ∀ turn ∈ nextTurn event, ∀ session ∈ manager.sessions, ∀ batch ∈ session.batches,
    batch.id ≠ turn.batchId

instance (event : SyncEvent) : Decidable (NewId manager event) :=
  inferInstanceAs (Decidable (∀ turn ∈ nextTurn event, _))

end Sender

variable (peering : Peering)

def next (pair : Pair) : Event → Pair
  | .sender event => { pair with sender := pair.sender.next event }
  | .receiveSyncBatch batch moments =>
    let outcome := receiveSyncBatch peering.platform peering.pool peering.localPeerId pair.receiver
      ⟨batch.id, batch.messages⟩ moments peering.senderId
    { pair with
      receiver := outcome.engine
      acknowledged := pair.acknowledged ++ (outcome.ack.map fun ack ↦ ack.2.batchId).toList }
  | .receiveMessage message moment fromPeerId =>
    { pair with
      receiver := (pair.receiver.receiveMessage peering.platform peering.pool moment.now
        moment.draws message fromPeerId).1 }

/-- An acknowledgement of the receiver is one that it has sent. -/
def Acked (pair : Pair) : SyncEvent → Prop
  | .receiveSyncAck fromPeerId batchId _ =>
    fromPeerId = peering.receiverId → batchId ∈ pair.acknowledged
  | _ => True

/-- Nothing arrives that was not sent. -/
def Enabled (pair : Pair) : Event → Prop
  | .sender event =>
    pair.sender.Enabled event ∧ NewId pair.sender event ∧ Acked peering pair event
  | .receiveSyncBatch batch _ => HandedTo pair.sender peering.receiverId batch
  | .receiveMessage _ _ _ => True

def system : TransitionSystem Pair Event := .ofNext (Enabled peering) (next peering)

def start (receiver : GossipEngine) : Pair := ⟨.new, receiver, []⟩

/-- A call for the receiver finds no other that is still running. -/
def Alone (manager : SyncManager) : SyncEvent → Prop
  | .onPeerReconnected peerId => peerId = peering.receiverId →
    ∀ session ∈ manager.sessions, session.peerId = peering.receiverId → session.phase = .returned
  | _ => True

/-- The receiver takes all of a batch that it has not seen: the limiter admits the burst, and the
messages are genuine and none of them an advertisement that the engine keeps to itself. -/
structure Admitted (engine : GossipEngine) (batch : SentBatch) (moments : ℕ → Moment) : Prop where
  distinct : (batch.messages.map P2PMessage.id).Nodup
  formed : ∃ key, ∀ message ∈ batch.messages, WellFormed peering.platform engine key message
  admits : peering.senderId ≠ "" → engine.rateLimiter.AdmitsBurst peering.senderId
    (unseenTimes engine (deliveries batch.messages moments))
  announced : ∀ message ∈ batch.messages, message.id ∉ engine.seenMessages →
    message.type = .subAd → GossipEngine.Announceable engine.localPeerId message

/-- Nothing goes wrong with a step. -/
def Smooth (pair : Pair) : Event → Prop
  | .sender event => pair.sender.Acknowledges peering.receiverId event ∧
    pair.sender.Timely peering.receiverId event ∧ Alone peering pair.sender event
  | .receiveSyncBatch batch moments => Admitted peering pair.receiver batch moments
  | .receiveMessage _ _ _ => True

/-- Everything that a call for the receiver owed it when it began has arrived when it returns. -/
def Synchronised (pair : Pair) : Prop :=
  ∀ session ∈ pair.sender.sessions, session.peerId = peering.receiverId →
    session.phase = .returned → ∀ message ∈ session.owed,
      message.id ∈ pair.receiver.seenMessages

/-! ## The batches of the sender -/

section Batches

variable {manager : SyncManager} {index : ℕ} {session session' : SyncSession} {event : SyncEvent}

/-- The batch that a topic's scan may send has the new id. -/
theorem id_of_mem_awaited_scanned {topicMsgs : List P2PMessage} {topics : List String}
    {turn : SyncTurn} {batch : SentBatch}
    (h : batch ∈ (session.scanned topicMsgs topics turn).awaited) : batch.id = turn.batchId := by
  unfold SyncSession.scanned at h
  dsimp only at h
  split at h
  · cases h
  · split at h
    · cases h
    · exact (SyncSession.mem_awaited_iterate _ _ turn h).1

/-- A call keeps its batches, and makes at most one more in a step. -/
theorem batches_of_resumes (hconsistent : session.Consistent)
    (h : Resumes manager index session event session') :
    session'.batches = session.batches ∨
      ∃ turn ∈ nextTurn event, ∃ batch, batch.id = turn.batchId ∧
        session'.batches = session.batches ++ [batch] := by
  have hone {awaited before : List SentBatch} {turn : SyncTurn}
      (hturn : turn ∈ nextTurn event) (hlength : awaited.length ≤ 1)
      (hid : ∀ batch ∈ awaited, batch.id = turn.batchId) :
      before ++ awaited = before ∨ ∃ turn ∈ nextTurn event, ∃ batch, batch.id = turn.batchId ∧
        before ++ awaited = before ++ [batch] := by
    match awaited, hlength with
    | [], _ => exact .inl (List.append_nil _)
    | [batch], _ => exact .inr ⟨turn, hturn, batch, hid batch (List.mem_singleton_self _), rfl⟩
  cases h with
  | lastSeenRead hphase | topicsRetrieved hphase | lastSeenWritten hphase =>
    left
    simp [SyncSession.batches, SyncSession.awaited, hphase]
  | @topicScanned topic topics turn hphase =>
    have hsettled := hconsistent.unstarted (by rw [SyncSession.started, hphase])
    have hnone : session.batches = [] := by
      rw [SyncSession.batches, SyncSession.awaited, hphase, hsettled]
      rfl
    rw [SyncSession.batches, SyncSession.settled_scanned, hsettled, hnone]
    exact hone rfl (SyncSession.length_awaited_le _) fun batch ↦ id_of_mem_awaited_scanned
  | @acknowledged fromPeerId batchId turn batch rest hphase _ =>
    rw [session.batches_settle hphase]
    exact hone rfl (SyncSession.length_awaited_le _) fun batch hbatch ↦
      (SyncSession.mem_awaited_iterate _ _ turn hbatch).1
  | @timedOut turn batch rest hphase =>
    rw [session.batches_settle hphase]
    exact hone rfl (SyncSession.length_awaited_le _) fun batch hbatch ↦
      (SyncSession.mem_awaited_iterate _ _ turn hbatch).1

/-- A call that is resumed had not returned. -/
theorem running_of_resumes (h : Resumes manager index session event session') :
    session.phase ≠ .returned := by
  cases h with
  | lastSeenRead hphase | topicsRetrieved hphase | topicScanned hphase | acknowledged hphase _
  | timedOut hphase | lastSeenWritten hphase =>
    rw [hphase]
    exact nofun

/-- A batch of some call. -/
def Made (manager : SyncManager) (batch : SentBatch) : Prop :=
  ∃ session ∈ manager.sessions, batch ∈ session.batches

theorem sessions_resumed (hsession : manager.sessions[index]? = some session) :
    ((manager.before session event).suspend index session').sessions =
        manager.sessions.set index session' ∧
      (manager.sessions.set index session')[index]? = some session' := by
  have hlength := (List.getElem?_eq_some_iff.1 hsession).1
  refine ⟨?_, List.getElem?_set_self hlength⟩
  rw [suspend, sessions_before]

/-- A step makes at most one batch, under the new id. -/
theorem made_next (hconsistent : manager.Consistent) (event : SyncEvent) :
    ∃ fresh : Option SentBatch,
      (∀ batch ∈ fresh, ∃ turn ∈ nextTurn event, batch.id = turn.batchId) ∧
        ∀ batch, Made (manager.next event) batch → Made manager batch ∨ batch ∈ fresh := by
  have heffect := effect_next manager event
  generalize manager.next event = after at heffect
  have hsame (after : SyncManager) (h : after.sessions = manager.sessions) :
      ∃ fresh : Option SentBatch,
        (∀ batch ∈ fresh, ∃ turn ∈ nextTurn event, batch.id = turn.batchId) ∧
          ∀ batch, Made after batch → Made manager batch ∨ batch ∈ fresh := by
    refine ⟨none, nofun, fun batch hmade ↦ .inl ?_⟩
    rw [Made, h] at hmade
    exact hmade
  cases heffect with
  | saved _ | flushed | routed _ | dropped _ _ _ | idle _ => exact hsame _ rfl
  | begun peerId =>
    refine ⟨none, nofun, ?_⟩
    rintro batch ⟨session, hsession, hbatch⟩
    rcases List.mem_append.1 hsession with hold | hnew
    · exact .inl ⟨session, hold, hbatch⟩
    · obtain rfl := List.mem_singleton.1 hnew
      cases hbatch
  | @resumed _ index session session' hsession hresumes =>
    have hmem := List.mem_of_getElem? hsession
    have hbatches := batches_of_resumes (hconsistent.sessions session hmem) hresumes
    have hfound (batch : SentBatch)
        (hmade : Made ((manager.before session event).suspend index session') batch) :
        Made manager batch ∨ batch ∈ session'.batches := by
      obtain ⟨other, hother, hbatch⟩ := hmade
      rw [(sessions_resumed hsession).1] at hother
      rcases List.mem_or_eq_of_mem_set hother with hold | rfl
      · exact .inl ⟨other, hold, hbatch⟩
      · exact .inr hbatch
    rcases hbatches with hsame | ⟨turn, hturn, fresh, hid, hsent⟩
    · refine ⟨none, nofun, fun batch hmade ↦ .inl ?_⟩
      refine (hfound batch hmade).elim id fun hbatch ↦ ⟨session, hmem, ?_⟩
      rwa [hsame] at hbatch
    · refine ⟨some fresh, ?_, fun batch hmade ↦ ?_⟩
      · rintro batch ⟨⟩
        exact ⟨turn, hturn, hid⟩
      · rcases hfound batch hmade with hold | hbatch
        · exact .inl hold
        · rw [hsent] at hbatch
          rcases List.mem_append.1 hbatch with hearlier | hnew
          · exact .inl ⟨session, hmem, hearlier⟩
          · exact .inr (List.mem_singleton.1 hnew ▸ rfl)

/-- What was handed to a connection stays so. -/
theorem handedTo_next (hconsistent : manager.Consistent) (event : SyncEvent) {peerId : String}
    {batch : SentBatch} (h : HandedTo manager peerId batch) :
    HandedTo (manager.next event) peerId batch := by
  obtain ⟨session, hsession, hpeer, hbatch, hconnection⟩ := h
  obtain ⟨index, hindex⟩ := List.mem_iff_getElem?.1 hsession
  rcases session_next hindex event with hsame | ⟨session', hresumed, hresumes⟩
  · exact ⟨session, List.mem_of_getElem? hsame, hpeer, hbatch, hconnection⟩
  · refine ⟨session', List.mem_of_getElem? hresumed, hresumes.peerId.1.trans hpeer, ?_, hconnection⟩
    rcases batches_of_resumes (hconsistent.sessions session hsession) hresumes with
      hkept | ⟨turn, -, fresh, -, hsent⟩
    · rwa [hkept]
    · rw [hsent]
      exact List.mem_append_left _ hbatch

/-- A call after a step: a new one, or one that was there and has stayed or was resumed. -/
theorem session_of_next {event : SyncEvent} {after : SyncSession}
    (h : (manager.next event).sessions[index]? = some after) :
    (∃ peerId, event = .onPeerReconnected peerId ∧ after = manager.onPeerReconnected peerId ∧
        manager.sessions[index]? = none) ∨
      ∃ before, manager.sessions[index]? = some before ∧
        (after = before ∨ Resumes manager index before event after) := by
  cases hbefore : manager.sessions[index]? with
  | some before =>
    right
    refine ⟨before, rfl, ?_⟩
    rcases session_next hbefore event with hsame | ⟨resumed, hresumed, hresumes⟩
    · exact .inl (Option.some.inj (h.symm.trans hsame))
    · obtain rfl := Option.some.inj (h.symm.trans hresumed)
      exact .inr hresumes
  | none =>
    left
    have hlength := List.getElem?_eq_none_iff.1 hbefore
    have heffect := effect_next manager event
    generalize manager.next event = next at heffect h
    cases heffect with
    | saved _ | flushed | routed _ | dropped _ _ _ | idle _ => cases hbefore.symm.trans h
    | begun peerId =>
      rw [List.getElem?_append_right hlength] at h
      refine ⟨peerId, rfl, ?_, rfl⟩
      exact List.mem_singleton.1 (List.mem_of_getElem? h)
    | resumed hsession hresumes =>
      rw [(sessions_resumed hsession).1] at h
      have hshort := (List.getElem?_eq_some_iff.1 h).1
      rw [List.length_set] at hshort
      exact absurd hlength (not_le.2 hshort)

end Batches

/-! ## The invariant -/

section Invariant

/-- All batches have ids of their own. -/
def Distinguished (manager : SyncManager) : Prop :=
  ∀ first second, Made manager first → Made manager second → first.id = second.id →
    first = second

/-- At most one call for the peer is running. -/
def OneAtATime (manager : SyncManager) (peerId : String) : Prop :=
  ∀ (i j : ℕ) (first second : SyncSession), manager.sessions[i]? = some first →
    manager.sessions[j]? = some second → first.peerId = peerId → second.peerId = peerId →
      first.phase ≠ .returned → second.phase ≠ .returned → i = j

/-- What the receiver has acknowledged it has seen, and every wait for it that has ended was ended
by its acknowledgement. -/
structure Linked (pair : Pair) : Prop where
  delta : pair.sender.DeltaInvariant peering.receiverId
  distinguished : Distinguished pair.sender
  alone : OneAtATime pair.sender peering.receiverId
  genuine : ∀ id ∈ pair.acknowledged, ∃ batch, HandedTo pair.sender peering.receiverId batch ∧
    batch.id = id ∧ ∀ message ∈ batch.messages, message.id ∈ pair.receiver.seenMessages
  settled : ∀ session ∈ pair.sender.sessions, session.peerId = peering.receiverId →
    ∀ entry ∈ session.settled, entry.1.id ∈ pair.acknowledged

variable {peering} {pair : Pair}

theorem HandedTo.made {manager : SyncManager} {peerId : String} {batch : SentBatch}
    (h : HandedTo manager peerId batch) : Made manager batch := by
  obtain ⟨session, hsession, -, hbatch, -⟩ := h
  exact ⟨session, hsession, hbatch⟩

/-- When no call for the receiver waits any more, what was sent has arrived. -/
theorem Linked.arrived (h : Linked peering pair)
    (hidle : ∀ session ∈ pair.sender.sessions, session.peerId = peering.receiverId →
      session.phase = .returned) {message : P2PMessage}
    (hsent : pair.sender.SentTo peering.receiverId message) :
    message.id ∈ pair.receiver.seenMessages := by
  obtain ⟨session, hsession, hpeer, batch, hbatch, -, hmessage⟩ := hsent
  have hmade : Made pair.sender batch := ⟨session, hsession, hbatch⟩
  have hawaited : session.awaited = [] := by
    rw [SyncSession.awaited, hidle session hsession hpeer]
  rw [SyncSession.batches, hawaited, List.append_nil] at hbatch
  obtain ⟨entry, hentry, rfl⟩ := List.mem_map.1 hbatch
  obtain ⟨taken, hhanded, hid, hseen⟩ :=
    h.genuine _ (h.settled session hsession hpeer entry hentry)
  obtain rfl := h.distinguished taken entry.1 hhanded.made hmade hid
  exact hseen message hmessage

theorem linked_start (receiver : GossipEngine) : Linked peering (start receiver) where
  delta := deltaInvariant_new peering.receiverId
  distinguished := by
    rintro first second ⟨session, hsession, -⟩
    cases hsession
  alone := by
    intro i j first second hfirst
    cases hfirst
  genuine := nofun
  settled := nofun

theorem distinguished_next {manager : SyncManager} (hconsistent : manager.Consistent)
    (h : Distinguished manager) {event : SyncEvent} (hnew : NewId manager event) :
    Distinguished (manager.next event) := by
  obtain ⟨fresh, hid, hmade⟩ := made_next hconsistent event
  have hapart (old new : SentBatch) (hold : Made manager old) (hfresh : new ∈ fresh) :
      old.id ≠ new.id := by
    obtain ⟨session, hsession, hbatch⟩ := hold
    obtain ⟨turn, hturn, hsame⟩ := hid new hfresh
    rw [hsame]
    exact hnew turn hturn session hsession old hbatch
  intro first second hfirst hsecond hsame
  rcases hmade first hfirst with hold | hfresh
  · rcases hmade second hsecond with hold' | hfresh'
    · exact h first second hold hold' hsame
    · exact absurd hsame (hapart first second hold hfresh')
  · rcases hmade second hsecond with hold' | hfresh'
    · exact absurd hsame.symm (hapart second first hold' hfresh)
    · exact Option.some.inj (hfresh.symm.trans hfresh')

theorem oneAtATime_next {manager : SyncManager} (h : OneAtATime manager peering.receiverId)
    {event : SyncEvent} (halone : Alone peering manager event) :
    OneAtATime (manager.next event) peering.receiverId := by
  -- A running call of the receiver was running before, or it is the one that begins.
  have hbefore (i : ℕ) (session : SyncSession) (hsession : (manager.next event).sessions[i]? =
      some session) (hpeer : session.peerId = peering.receiverId) (hrunning :
      session.phase ≠ .returned) : (∃ before, manager.sessions[i]? = some before ∧
        before.peerId = peering.receiverId ∧ before.phase ≠ .returned) ∨
          event = .onPeerReconnected peering.receiverId ∧ i = manager.sessions.length := by
    rcases session_of_next hsession with ⟨peerId, rfl, rfl, hnone⟩ | ⟨before, hold, hafter⟩
    · have hshort := (List.getElem?_eq_some_iff.1 hsession).1
      have hlong := List.getElem?_eq_none_iff.1 hnone
      rw [SyncManager.next, List.length_append, List.length_singleton] at hshort
      obtain rfl : peerId = peering.receiverId := hpeer
      exact .inr ⟨rfl, by omega⟩
    · left
      refine ⟨before, hold, ?_⟩
      rcases hafter with rfl | hresumes
      · exact ⟨hpeer, hrunning⟩
      · exact ⟨hresumes.peerId.1.symm.trans hpeer, running_of_resumes hresumes⟩
  have hnone (hbegins : event = .onPeerReconnected peering.receiverId) (i : ℕ)
      (before : SyncSession) (hold : manager.sessions[i]? = some before)
      (hpeer : before.peerId = peering.receiverId) : before.phase = .returned := by
    subst hbegins
    exact halone rfl before (List.mem_of_getElem? hold) hpeer
  intro i j first second hfirst hsecond hfirstPeer hsecondPeer hfirstRuns hsecondRuns
  rcases hbefore i first hfirst hfirstPeer hfirstRuns with
    ⟨before, hold, hpeer, hrunning⟩ | ⟨hbegins, hi⟩
  · rcases hbefore j second hsecond hsecondPeer hsecondRuns with
      ⟨before', hold', hpeer', hrunning'⟩ | ⟨hbegins, -⟩
    · exact h i j before before' hold hold' hpeer hpeer' hrunning hrunning'
    · exact absurd (hnone hbegins i before hold hpeer) hrunning
  · rcases hbefore j second hsecond hsecondPeer hsecondRuns with
      ⟨before', hold', hpeer', hrunning'⟩ | ⟨-, hj⟩
    · exact absurd (hnone hbegins j before' hold' hpeer') hrunning'
    · rw [hi, hj]

/-- The step lemma of the sender. -/
theorem Linked.sender (h : Linked peering pair) {event : SyncEvent}
    (henabled : Enabled peering pair (.sender event))
    (hsmooth : Smooth peering pair (.sender event)) :
    Linked peering (next peering pair (.sender event)) := by
  obtain ⟨-, hnew, hack⟩ := henabled
  obtain ⟨hacknowledges, htimely, halone⟩ := hsmooth
  have hconsistent := h.delta.consistent
  refine ⟨h.delta.next event hacknowledges htimely,
    distinguished_next hconsistent h.distinguished hnew, oneAtATime_next h.alone halone,
    fun id hid ↦ ?_, fun after hafter hpeer entry hentry ↦ ?_⟩
  · obtain ⟨batch, hhanded, hsame, hseen⟩ := h.genuine id hid
    exact ⟨batch, handedTo_next hconsistent event hhanded, hsame, hseen⟩
  · have hacks := (hconsistent.effect (effect_next pair.sender event)).acks after hafter entry
      hentry
    obtain ⟨index, hindex⟩ := List.mem_iff_getElem?.1 hafter
    rcases session_of_next hindex with ⟨peerId, -, rfl, -⟩ | ⟨before, hbefore, rfl | hresumes⟩
    · cases hentry
    · exact h.settled after (List.mem_of_getElem? hbefore) hpeer entry hentry
    have hmem := List.mem_of_getElem? hbefore
    have hsamePeer : before.peerId = peering.receiverId := hresumes.peerId.1.symm.trans hpeer
    have hearlier := h.settled before hmem hsamePeer entry
    cases hresumes with
    | lastSeenRead _ | topicsRetrieved _ | lastSeenWritten _ => exact hearlier hentry
    | topicScanned _ =>
      rw [SyncSession.settled_scanned] at hentry
      exact hearlier hentry
    | timedOut _ => exact absurd hsamePeer (hacknowledges before hbefore)
    | @acknowledged fromPeerId batchId turn batch rest hphase hpending =>
      rw [SyncSession.settled_settle] at hentry
      rcases List.mem_append.1 hentry with hold | hlast
      · exact hearlier hold
      · obtain rfl := List.mem_singleton.1 hlast
        rw [← hacks batchId rfl]
        exact hack ((peerId_of_acknowledged hconsistent hbefore hpending).symm.trans hsamePeer)

/-- What the receiver has seen it has seen for ever. -/
theorem seenMessages_next (event : Event) {id : String} (h : id ∈ pair.receiver.seenMessages) :
    id ∈ (next peering pair event).receiver.seenMessages := by
  cases event with
  | sender event => exact h
  | receiveSyncBatch batch moments =>
    exact (seenMessages_receiveMessages peering.platform peering.pool peering.senderId
      pair.receiver (deliveries batch.messages moments) id).1 h
  | receiveMessage message moment fromPeerId =>
    exact (pair.receiver.mem_seenMessages_receiveMessage peering.pool moment.now moment.draws
      message fromPeerId peering.platform id).2 (.inl h)

/-- A batch that is admitted has been seen when it is acknowledged. -/
theorem Admitted.seen {batch : SentBatch} {moments : ℕ → Moment}
    (h : Admitted peering pair.receiver batch moments) {message : P2PMessage}
    (hmessage : message ∈ batch.messages) :
    message.id ∈
      (next peering pair (.receiveSyncBatch batch moments)).receiver.seenMessages := by
  obtain ⟨key, hformed⟩ := h.formed
  have hids : (deliveries batch.messages moments).map (fun delivery ↦ delivery.1.id) =
      batch.messages.map P2PMessage.id := by
    conv_rhs => rw [← deliveries_map_fst batch.messages moments, List.map_map]
    rfl
  have hcovered := (covered_iff peering.platform peering.pool peering.senderId
    (hids ▸ h.distinct) ((forall_mem_deliveries _ _ _).2 hformed)).2
      ⟨fun hnamed ↦ (RateLimiter.acceptsAll_iff _ _ _).2 (h.admits hnamed),
        (forall_mem_deliveries _ _ fun message ↦ message.id ∉ pair.receiver.seenMessages →
          message.type = .subAd →
            GossipEngine.Announceable pair.receiver.localPeerId message).2 h.announced⟩
  rw [deliveries_map_fst] at hcovered
  exact (hcovered message hmessage).1

/-- The step lemma. -/
theorem Linked.next (h : Linked peering pair) (event : Event)
    (henabled : Enabled peering pair event) (hsmooth : Smooth peering pair event) :
    Linked peering (next peering pair event) := by
  have hseen (batch : SentBatch)
      (hbefore : ∀ message ∈ batch.messages, message.id ∈ pair.receiver.seenMessages) :
      ∀ message ∈ batch.messages,
        message.id ∈ (AntiEntropy.next peering pair event).receiver.seenMessages :=
    fun message hmessage ↦ seenMessages_next event (hbefore message hmessage)
  cases event with
  | sender event => exact h.sender henabled hsmooth
  | receiveMessage message moment fromPeerId =>
    refine ⟨h.delta, h.distinguished, h.alone, fun id hid ↦ ?_, h.settled⟩
    obtain ⟨batch, hhanded, hsame, hbefore⟩ := h.genuine id hid
    exact ⟨batch, hhanded, hsame, hseen batch hbefore⟩
  | receiveSyncBatch batch moments =>
    refine ⟨h.delta, h.distinguished, h.alone, fun id hid ↦ ?_, fun session hsession hpeer entry
      hentry ↦ List.mem_append_left _ (h.settled session hsession hpeer entry hentry)⟩
    rcases List.mem_append.1 hid with hold | hack
    · obtain ⟨earlier, hhanded, hsame, hbefore⟩ := h.genuine id hold
      exact ⟨earlier, hhanded, hsame, hseen earlier hbefore⟩
    · have hid : id = batch.id := by
        simp only [receiveSyncBatch, Option.map_map, Option.mem_toList, Option.map_eq_some_iff]
          at hack
        obtain ⟨connection, -, heq⟩ := hack
        exact heq.symm
      exact ⟨batch, henabled, hid.symm, fun message hmessage ↦ hsmooth.seen hmessage⟩

/-- The receiver has all that a call owed it at the moment at which the call returns. -/
theorem Synchronised.next (h : Synchronised peering pair) (hlinked : Linked peering pair)
    (event : Event) (henabled : Enabled peering pair event)
    (hsmooth : Smooth peering pair event) :
    Synchronised peering (AntiEntropy.next peering pair event) := by
  have hafter := hlinked.next event henabled hsmooth
  intro session hsession hpeer hreturned message howed
  cases event with
  | receiveSyncBatch batch moments | receiveMessage message moment fromPeerId =>
    exact seenMessages_next _ (h session hsession hpeer hreturned _ howed)
  | sender event =>
    obtain ⟨index, hindex⟩ := List.mem_iff_getElem?.1 hsession
    rcases session_of_next hindex with ⟨peerId, -, rfl, -⟩ | ⟨before, hbefore, rfl | hresumes⟩
    · cases hreturned
    · exact h session (List.mem_of_getElem? hbefore) hpeer hreturned message howed
    · -- The call has just returned; no other one for the receiver was running.
      have hidle (other : SyncSession) (hother : other ∈ (pair.sender.next event).sessions)
          (hotherPeer : other.peerId = peering.receiverId) : other.phase = .returned := by
        by_contra hrunning
        obtain ⟨place, hplace⟩ := List.mem_iff_getElem?.1 hother
        have hbeforePeer : before.peerId = peering.receiverId :=
          hresumes.peerId.1.symm.trans hpeer
        have hsamePlace : index = place := by
          rcases session_of_next hplace with
            ⟨peerId, rfl, -, -⟩ | ⟨earlier, hearlier, rfl | hmoves⟩
          · cases hresumes
          · exact hlinked.alone index place before other hbefore hearlier hbeforePeer hotherPeer
              (running_of_resumes hresumes) hrunning
          · exact hlinked.alone index place before earlier hbefore hearlier hbeforePeer
              (hmoves.peerId.1.symm.trans hotherPeer) (running_of_resumes hresumes)
              (running_of_resumes hmoves)
        subst hsamePlace
        obtain rfl := Option.some.inj (hindex.symm.trans hplace)
        exact hrunning hreturned
      refine hafter.arrived hidle ?_
      refine (hafter.delta.owed session hsession hpeer message howed).resolve_right
        fun hwillSend ↦ ?_
      rw [WillSend, hreturned] at hwillSend
      exact hwillSend

end Invariant

variable {peering}

/-- The receiver is a fresh node `local`, and the sender is known to it as `p`. -/
def onePeering : Peering where
  platform := Pow.javaScript
  receiverId := "local"
  senderId := "p"
  pool := poolWithPeer
  localPeerId := "local"

def oneTurn (batchId : String) : SyncTurn where
  batchId
  connectionPool := (ConnectionPool.new "p").addInboundConnection ⟨0, "local"⟩

/-- The batch that is sent. -/
def oneBatch : SentBatch := ⟨"b0", [chatOf "m0" 1313], some (.inbound ⟨0, "local"⟩)⟩

def oneMessage : List Event :=
  [.sender (.save (chatOf "m0" 1313)), .sender (.onPeerReconnected "local"),
    .sender (.lastSeenRead 0), .sender (.topicsRetrieved 0),
    .sender (.topicScanned 0 (oneTurn "b0")), .sender (.topicScanned 0 (oneTurn "b0")),
    .receiveSyncBatch oneBatch oneInstant,
    .sender (.receiveSyncAck "local" "b0" (oneTurn "b1")), .sender (.lastSeenWritten 0)]

instance (peering : Peering) (pair : Pair) : DecidablePred (Acked peering pair)
  | .receiveSyncAck fromPeerId _ _ =>
    inferInstanceAs (Decidable (fromPeerId = peering.receiverId → _))
  | .save _ | .flush | .updateRoutes _ | .onPeerReconnected _ | .lastSeenRead _
  | .topicsRetrieved _ | .topicScanned _ _ | .ackTimeout _ _ | .lastSeenWritten _ =>
    inferInstanceAs (Decidable True)

instance (peering : Peering) (manager : SyncManager) : DecidablePred (Alone peering manager)
  | .onPeerReconnected peerId => inferInstanceAs (Decidable (peerId = peering.receiverId → _))
  | .save _ | .flush | .updateRoutes _ | .receiveSyncAck _ _ _ | .lastSeenRead _
  | .topicsRetrieved _ | .topicScanned _ _ | .ackTimeout _ _ | .lastSeenWritten _ =>
    inferInstanceAs (Decidable True)

instance (peering : Peering) (pair : Pair) (event : SyncEvent) :
    Decidable (Enabled peering pair (.sender event) ∧ Smooth peering pair (.sender event)) :=
  inferInstanceAs (Decidable ((_ ∧ _ ∧ _) ∧ _ ∧ _ ∧ _))

theorem admitted_oneBatch : Admitted onePeering freshEngine oneBatch oneInstant where
  distinct := List.nodup_singleton _
  formed := by
    refine ⟨fun _ ↦ "key of p", fun message hmessage ↦ burst_wellFormed message ?_⟩
    rw [List.mem_singleton.1 hmessage]
    exact List.mem_cons_self
  admits _ := (RateLimiter.acceptsAll_iff _ _ _).1 (by decide +kernel)
  announced := by
    intro message hmessage _ htype
    rw [List.mem_singleton.1 hmessage] at htype
    cases htype

end P2PApp.AntiEntropy
