import P2PApp.Library.TransitionSystem
import P2PApp.Protocol.GossipEngine
import P2PApp.Storage.MessageStore

/-!
# The synchronisation sender

`onPeerReconnected` is an asynchronous function: it reads the watermark of the peer, retrieves the
messages of the peer's topics that are stamped later, sends them in batches, waits after each batch
for its acknowledgement or for a timeout, and writes the highest stamp as the new watermark. Any
number of calls, for the same peer or for several, are suspended at their `await`s at any time,
and between two steps the store, the routing table and the pool may change.

A state of the system is the state of the manager together with the suspended calls. A call keeps
a record of how each of its waits ended and of what it owed its peer when it began; the program
never reads these.
-/

namespace P2PApp

/-- A `SYNC_BATCH`, and the connection it was handed to if the pool knew the peer. -/
structure SentBatch where
  id : String
  messages : List P2PMessage
  connection : Option Connection
  deriving DecidableEq

/-- Where a call of `onPeerReconnected` is suspended. -/
inductive SyncPhase
  /-- Before the watermark is read. -/
  | reading
  /-- The watermark is read, the topics are not. -/
  | resuming
  /-- The first of these topics is to be scanned next. -/
  | retrieving (topics : List String)
  /-- The batch is sent and waits for its acknowledgement, the rest is not sent yet. -/
  | waiting (batch : SentBatch) (rest : List P2PMessage)
  /-- Before the new watermark is written. -/
  | updating
  | returned
  deriving DecidableEq

/-- One call of `onPeerReconnected`. -/
structure SyncSession where
  peerId : String
  phase : SyncPhase
  lastSeenLamport : ℕ
  messagesToSync : List P2PMessage
  /-- The batches whose wait has ended, each with the batch id that its acknowledgement named, or
  nothing if it timed out. -/
  settled : List (SentBatch × Option String)
  /-- The watermark that the call wrote. -/
  updatedTo : Option ℕ
  /-- The messages that were saved on the topics of the peer when the call began. -/
  owed : List P2PMessage
  deriving DecidableEq

/-- An entry of `pendingAcks`: the promise is that of the call at `index`. -/
structure PendingAck where
  index : ℕ
  batchId : String
  deriving DecidableEq

structure SyncManager where
  messageStore : MessageStore
  topicRouter : Router
  /-- The database entries under `sync:<peerId>`. -/
  lastSeen : OrderedMap String ℕ
  pendingAcks : OrderedMap String PendingAck
  sessions : List SyncSession
  /-- What happened to the store so far. -/
  storeLog : List MessageStore.Event

/-- What the loop takes from outside when it makes its next batch. -/
structure SyncTurn where
  batchId : String
  connectionPool : ConnectionPool

/-- One step: something happens to the store or the routes, or a call is made or resumed. -/
inductive SyncEvent
  | save (message : P2PMessage)
  | flush
  | updateRoutes (topicRouter : Router)
  | onPeerReconnected (peerId : String)
  | lastSeenRead (index : ℕ)
  | topicsRetrieved (index : ℕ)
  | topicScanned (index : ℕ) (turn : SyncTurn)
  | receiveSyncAck (fromPeerId batchId : String) (turn : SyncTurn)
  | ackTimeout (index : ℕ) (turn : SyncTurn)
  | lastSeenWritten (index : ℕ)

namespace SyncSession

/-- The initial batch size, which no code path changes. -/
def batchSize : ℕ := 100

def maxLamportInSync (session : SyncSession) : ℕ :=
  (session.messagesToSync.map P2PMessage.lamportTimestamp).foldr max 0

/-- The stable sort by stamp. -/
def sortByLamport (messages : List P2PMessage) : List P2PMessage :=
  messages.insertionSort fun first second ↦ first.lamportTimestamp ≤ second.lamportTimestamp

/-- The head of the loop with `rest` not sent yet: send the next batch, or leave the loop. -/
def iterate (session : SyncSession) (rest : List P2PMessage) (turn : SyncTurn) : SyncSession :=
  if rest = [] then
    { session with
      phase :=
        if session.lastSeenLamport < session.maxLamportInSync then .updating else .returned }
  else
    let batch : SentBatch :=
      { id := turn.batchId
        messages := rest.take batchSize
        connection := turn.connectionPool.send session.peerId }
    { session with phase := .waiting batch (rest.drop batchSize) }

/-- The messages of one topic are retrieved. After the last topic the messages are sorted and the
loop begins, unless there are none. -/
def scanned (session : SyncSession) (topicMsgs : List P2PMessage) (topics : List String)
    (turn : SyncTurn) : SyncSession :=
  let messagesToSync := session.messagesToSync ++ topicMsgs
  if topics ≠ [] then { session with messagesToSync, phase := .retrieving topics }
  else if messagesToSync = [] then { session with phase := .returned }
  else
    let messagesToSync := sortByLamport messagesToSync
    { session with messagesToSync }.iterate messagesToSync turn

/-- The wait for a batch ends, by an acknowledgement that named `ack` or by the timer. -/
def settle (session : SyncSession) (batch : SentBatch) (ack : Option String)
    (rest : List P2PMessage) (turn : SyncTurn) : SyncSession :=
  { session with settled := session.settled ++ [(batch, ack)] }.iterate rest turn

/-- The batch whose acknowledgement the call is waiting for. -/
def awaited (session : SyncSession) : List SentBatch :=
  match session.phase with
  | .waiting batch _ => [batch]
  | _ => []

/-- All batches of the call so far. -/
def batches (session : SyncSession) : List SentBatch :=
  session.settled.map Prod.fst ++ session.awaited

end SyncSession

namespace SyncManager

def new : SyncManager := ⟨MessageStore.new, TopicRouter.new, ∅, ∅, [], []⟩

/-- All messages saved so far. -/
def saved (manager : SyncManager) : List P2PMessage := MessageStore.saved manager.storeLog

def getLastSeenLamport (manager : SyncManager) (peerId : String) : ℕ :=
  (manager.lastSeen.get? peerId).getD 0

def topicsFor (manager : SyncManager) (peerId : String) : List String :=
  manager.topicRouter.getTopicsForPeer peerId

/-- Something happens to the store. -/
def storeStep (manager : SyncManager) (event : MessageStore.Event) : SyncManager :=
  { manager with
    messageStore := manager.messageStore.apply event
    storeLog := manager.storeLog ++ [event] }

/-- A call of `onPeerReconnected`, up to its first `await`. -/
def onPeerReconnected (manager : SyncManager) (peerId : String) : SyncSession where
  peerId
  phase := .reading
  lastSeenLamport := 0
  messagesToSync := []
  settled := []
  updatedTo := none
  owed := manager.saved.filter fun message ↦ message.topic ∈ manager.topicsFor peerId

/-- The call is suspended again. A wait for an acknowledgement replaces the one that `pendingAcks`
holds for the peer. -/
def suspend (manager : SyncManager) (index : ℕ) (session : SyncSession) : SyncManager :=
  { manager with
    sessions := manager.sessions.set index session
    pendingAcks :=
      match session.phase with
      | .waiting batch _ => manager.pendingAcks.set session.peerId { index, batchId := batch.id }
      | _ => manager.pendingAcks }

def dropPendingAck (manager : SyncManager) (peerId : String) : SyncManager :=
  { manager with pendingAcks := manager.pendingAcks.erase peerId }

def updateLastSeenLamport (manager : SyncManager) (peerId : String) (lamportTimestamp : ℕ) :
    SyncManager :=
  { manager with lastSeen := manager.lastSeen.set peerId lamportTimestamp }

/-- The call at `index` with the phase it is suspended in. -/
def suspended (manager : SyncManager) (index : ℕ) : Option (SyncSession × SyncPhase) :=
  manager.sessions[index]?.map fun session ↦ (session, session.phase)

/-- An acknowledgement settles the wait that `pendingAcks` holds for the peer, if it names the
batch of that wait. -/
def receiveSyncAck (manager : SyncManager) (fromPeerId batchId : String) (turn : SyncTurn) :
    SyncManager :=
  match manager.pendingAcks.get? fromPeerId with
  | some pending =>
    if pending.batchId = batchId then
      match manager.suspended pending.index with
      | some (session, .waiting batch rest) => (manager.dropPendingAck fromPeerId).suspend
        pending.index (session.settle batch (some batchId) rest turn)
      | _ => manager.dropPendingAck fromPeerId
    else manager
  | none => manager

def next (manager : SyncManager) : SyncEvent → SyncManager
  | .save message => manager.storeStep (.save message)
  | .flush => manager.storeStep .flush
  | .updateRoutes topicRouter => { manager with topicRouter }
  | .onPeerReconnected peerId =>
    { manager with sessions := manager.sessions ++ [manager.onPeerReconnected peerId] }
  | .lastSeenRead index =>
    match manager.suspended index with
    | some (session, .reading) => manager.suspend index
      { session with
        phase := .resuming, lastSeenLamport := manager.getLastSeenLamport session.peerId }
    | _ => manager
  | .topicsRetrieved index =>
    match manager.suspended index with
    | some (session, .resuming) => manager.suspend index
      { session with phase := .retrieving (manager.topicsFor session.peerId) }
    | _ => manager
  | .topicScanned index turn =>
    match manager.suspended index with
    | some (session, .retrieving (topic :: topics)) =>
      let topicMsgs := (manager.messageStore.getByTopic topic session.lastSeenLamport).1
      (manager.storeStep .flush).suspend index (session.scanned topicMsgs topics turn)
    | _ => manager
  | .receiveSyncAck fromPeerId batchId turn => manager.receiveSyncAck fromPeerId batchId turn
  | .ackTimeout index turn =>
    match manager.suspended index with
    | some (session, .waiting batch rest) =>
      (manager.dropPendingAck session.peerId).suspend index (session.settle batch none rest turn)
    | _ => manager
  | .lastSeenWritten index =>
    match manager.suspended index with
    | some (session, .updating) =>
      (manager.updateLastSeenLamport session.peerId session.maxLamportInSync).suspend index
        { session with phase := .returned, updatedTo := some session.maxLamportInSync }
    | _ => manager

/-- A timer exists only while its call waits. -/
def Enabled (manager : SyncManager) : SyncEvent → Prop
  | .ackTimeout index _ => ∃ session ∈ manager.sessions[index]?, session.awaited ≠ []
  | _ => True

instance (manager : SyncManager) : DecidablePred manager.Enabled
  | .ackTimeout index _ => inferInstanceAs (Decidable (∃ session ∈ manager.sessions[index]?, _))
  | .save _ | .flush | .updateRoutes _ | .onPeerReconnected _ | .lastSeenRead _
  | .topicsRetrieved _ | .topicScanned _ _ | .receiveSyncAck _ _ _ | .lastSeenWritten _ =>
    inferInstanceAs (Decidable True)

def system : TransitionSystem SyncManager SyncEvent := .ofNext Enabled next

/-! ## What one step can do -/

/-- What an event makes of the call that it resumes. -/
inductive Resumes (manager : SyncManager) (index : ℕ) (session : SyncSession) :
    SyncEvent → SyncSession → Prop
  | lastSeenRead (hphase : session.phase = .reading) :
      Resumes manager index session (.lastSeenRead index)
        { session with
          phase := .resuming, lastSeenLamport := manager.getLastSeenLamport session.peerId }
  | topicsRetrieved (hphase : session.phase = .resuming) :
      Resumes manager index session (.topicsRetrieved index)
        { session with phase := .retrieving (manager.topicsFor session.peerId) }
  | topicScanned {topic : String} {topics : List String} {turn : SyncTurn}
      (hphase : session.phase = .retrieving (topic :: topics)) :
      Resumes manager index session (.topicScanned index turn)
        (session.scanned (manager.messageStore.getByTopic topic session.lastSeenLamport).1
          topics turn)
  | acknowledged {fromPeerId batchId : String} {turn : SyncTurn} {batch : SentBatch}
      {rest : List P2PMessage} (hphase : session.phase = .waiting batch rest)
      (hpending : manager.pendingAcks.get? fromPeerId = some ⟨index, batchId⟩) :
      Resumes manager index session (.receiveSyncAck fromPeerId batchId turn)
        (session.settle batch (some batchId) rest turn)
  | timedOut {turn : SyncTurn} {batch : SentBatch} {rest : List P2PMessage}
      (hphase : session.phase = .waiting batch rest) :
      Resumes manager index session (.ackTimeout index turn)
        (session.settle batch none rest turn)
  | lastSeenWritten (hphase : session.phase = .updating) :
      Resumes manager index session (.lastSeenWritten index)
        { session with phase := .returned, updatedTo := some session.maxLamportInSync }

/-- What an event that resumes a call does beside that. -/
def before (manager : SyncManager) (session : SyncSession) : SyncEvent → SyncManager
  | .topicScanned _ _ => manager.storeStep .flush
  | .receiveSyncAck fromPeerId _ _ => manager.dropPendingAck fromPeerId
  | .ackTimeout _ _ => manager.dropPendingAck session.peerId
  | .lastSeenWritten _ =>
    manager.updateLastSeenLamport session.peerId session.maxLamportInSync
  | _ => manager

/-- Everything one step can do. -/
inductive Effect (manager : SyncManager) : SyncEvent → SyncManager → Prop
  | saved (message : P2PMessage) :
      Effect manager (.save message) (manager.storeStep (.save message))
  | flushed : Effect manager .flush (manager.storeStep .flush)
  | routed (topicRouter : Router) :
      Effect manager (.updateRoutes topicRouter) { manager with topicRouter }
  | begun (peerId : String) :
      Effect manager (.onPeerReconnected peerId)
        { manager with sessions := manager.sessions ++ [manager.onPeerReconnected peerId] }
  | resumed {event : SyncEvent} {index : ℕ} {session session' : SyncSession}
      (hsession : manager.sessions[index]? = some session)
      (hresumes : Resumes manager index session event session') :
      Effect manager event ((manager.before session event).suspend index session')
  | dropped (fromPeerId batchId : String) (turn : SyncTurn) :
      Effect manager (.receiveSyncAck fromPeerId batchId turn) (manager.dropPendingAck fromPeerId)
  | idle {event : SyncEvent}
      (hidle : ∀ index turn, event = .ackTimeout index turn → ¬manager.Enabled event) :
      Effect manager event manager

theorem suspended_eq_some {manager : SyncManager} {index : ℕ} {session : SyncSession}
    {phase : SyncPhase} (h : manager.suspended index = some (session, phase)) :
    manager.sessions[index]? = some session ∧ session.phase = phase := by
  obtain ⟨found, hfound, heq⟩ := Option.map_eq_some_iff.1 h
  obtain ⟨rfl, rfl⟩ := Prod.mk.inj heq
  exact ⟨hfound, rfl⟩

theorem effect_receiveSyncAck (manager : SyncManager) (fromPeerId batchId : String)
    (turn : SyncTurn) :
    Effect manager (.receiveSyncAck fromPeerId batchId turn)
      (manager.receiveSyncAck fromPeerId batchId turn) := by
  unfold receiveSyncAck
  split
  · rename_i pending hpending
    split
    · rename_i hbatch
      subst hbatch
      split
      · rename_i session batch rest hsuspended
        obtain ⟨hsession, hphase⟩ := suspended_eq_some hsuspended
        exact .resumed hsession (.acknowledged hphase hpending)
      · exact .dropped fromPeerId pending.batchId turn
    · exact .idle (by simp)
  · exact .idle (by simp)

theorem effect_next (manager : SyncManager) (event : SyncEvent) :
    Effect manager event (manager.next event) := by
  cases event with
  | save message => exact .saved message
  | flush => exact .flushed
  | updateRoutes topicRouter => exact .routed topicRouter
  | onPeerReconnected peerId => exact .begun peerId
  | receiveSyncAck fromPeerId batchId turn =>
    exact effect_receiveSyncAck manager fromPeerId batchId turn
  | lastSeenRead index =>
    rw [next]
    split
    · rename_i session hsuspended
      obtain ⟨hsession, hphase⟩ := suspended_eq_some hsuspended
      exact .resumed hsession (.lastSeenRead hphase)
    · exact .idle (by simp)
  | topicsRetrieved index =>
    rw [next]
    split
    · rename_i session hsuspended
      obtain ⟨hsession, hphase⟩ := suspended_eq_some hsuspended
      exact .resumed hsession (.topicsRetrieved hphase)
    · exact .idle (by simp)
  | topicScanned index turn =>
    rw [next]
    split
    · rename_i session topic topics hsuspended
      obtain ⟨hsession, hphase⟩ := suspended_eq_some hsuspended
      exact .resumed hsession (.topicScanned hphase)
    · exact .idle (by simp)
  | ackTimeout index turn =>
    rw [next]
    split
    · rename_i session batch rest hsuspended
      obtain ⟨hsession, hphase⟩ := suspended_eq_some hsuspended
      exact .resumed hsession (.timedOut hphase)
    · rename_i hother
      refine .idle fun _ _ _ ⟨session, hsession, hawaited⟩ ↦ ?_
      unfold SyncSession.awaited at hawaited
      split at hawaited
      · rename_i batch rest hphase
        apply hother session batch rest
        rw [suspended, Option.mem_def.1 hsession, Option.map_some, hphase]
      · exact hawaited rfl
  | lastSeenWritten index =>
    rw [next]
    split
    · rename_i session hsuspended
      obtain ⟨hsession, hphase⟩ := suspended_eq_some hsuspended
      exact .resumed hsession (.lastSeenWritten hphase)
    · exact .idle (by simp)

@[simp] theorem sessions_before (manager : SyncManager) (session : SyncSession)
    (event : SyncEvent) : (manager.before session event).sessions = manager.sessions := by
  cases event <;> rfl

theorem mem_sortByLamport {messages : List P2PMessage} {message : P2PMessage} :
    message ∈ SyncSession.sortByLamport messages ↔ message ∈ messages := by
  rw [SyncSession.sortByLamport, List.mem_insertionSort]

end SyncManager

end P2PApp
