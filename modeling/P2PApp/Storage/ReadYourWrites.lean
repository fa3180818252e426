import P2PApp.Library.TransitionSystem
import P2PApp.Storage.MessageStore

/-!
# Reading one's writes

The message store between its `await`s. A saved message passes from the buffer into a batch that
`db.batch` has been called with, and from there, at some moment before that call completes, into the
database. `getById` and `getByTopic` flush the buffer and wait for the batch that this gives them
before they read. A flush that finds the buffer empty gives them none, although the batch of another
flush may still be in flight.

Whatever runs to completion on the event loop is one event; the database applies and completes
batches in between. No operation of the database fails.
-/

namespace P2PApp

inductive BatchStatus
  | called
  | applied
  | completed
  deriving DecidableEq

/-- A call of `db.batch`. -/
structure WriteBatch where
  writes : List (String × StoredValue)
  status : BatchStatus
  deriving DecidableEq

inductive Query
  | byId (messageId : String)
  | byTopic (topic : String) (sinceTimestamp : ℕ)
  deriving DecidableEq

namespace Query

/-- The message is one that the read is to return. -/
def Asks : Query → P2PMessage → Prop
  | byId messageId, message => message.id = messageId
  | byTopic topic sinceTimestamp, message =>
    message.topic = topic ∧ sinceTimestamp < message.lamportTimestamp

/-- The other message is written under a key by which the read looks for the message. -/
def Shares : Query → P2PMessage → P2PMessage → Prop
  | byId _, other, message =>
    other.id = message.id ∨ MessageStore.keyOf other = MessageStore.keyOf message
  | byTopic .., other, message => MessageStore.keyOf other = MessageStore.keyOf message

/-- A range scan compares the stamps by their digits, of which there are to be fifteen. -/
def Compares : Query → P2PMessage → Prop
  | byId _, _ => True
  | byTopic .., message => message.lamportTimestamp < 10 ^ 15

end Query

inductive ReadStage
  /-- The flush of the read is awaited, with the batch that it called if it did. -/
  | flushing (batch : Option ℕ)
  /-- `getById` has read the index and is to read under the key found there. -/
  | referenced (fullKey : String)
  /-- The messages returned; `getById` returns at most one, and none is its `null`. -/
  | answered (messages : List P2PMessage)
  deriving DecidableEq

structure StoreRead where
  query : Query
  stage : ReadStage
  /-- The messages that had been saved when the read was invoked. -/
  savedBefore : List P2PMessage
  /-- How many batches had been called when the flush of the read returned. -/
  called : ℕ
  deriving DecidableEq

/-- A `MessageStore` with its database and the calls in progress. -/
structure AsyncStore where
  db : SortedMap String StoredValue
  writeBuffer : List (String × StoredValue)
  batchTimer : Bool
  batches : List WriteBatch
  reads : List StoreRead
  /-- The messages with which `save` was invoked. -/
  saved : List P2PMessage

namespace AsyncStore

open MessageStore

inductive Event
  | save (message : P2PMessage)
  | flush
  | timer
  | read (query : Query)
  /-- The batch takes effect. -/
  | apply (batch : ℕ)
  /-- The promise of the batch resolves. -/
  | complete (batch : ℕ)
  /-- A read goes on behind its `await`. -/
  | proceed (read : ℕ)

def new : AsyncStore := ⟨∅, [], false, [], [], []⟩

/-- `flush` up to its `await`, with the batch that it waits for. -/
def flush (store : AsyncStore) : AsyncStore × Option ℕ :=
  if store.writeBuffer = [] then (store, none)
  else
    ({ store with
        writeBuffer := []
        batchTimer := false
        batches := store.batches ++ [⟨store.writeBuffer, .called⟩] },
      some store.batches.length)

/-- The two records of a message. -/
def recordsOf (message : P2PMessage) : List (String × StoredValue) :=
  [(keyOf message, .message message), ("id:" ++ message.id, .reference (keyOf message))]

/-- What `save` puts into the buffer, before it looks at its length. -/
def push (store : AsyncStore) (message : P2PMessage) : AsyncStore :=
  { store with
    writeBuffer := store.writeBuffer ++ recordsOf message
    saved := store.saved ++ [message] }

def save (store : AsyncStore) (message : P2PMessage) : AsyncStore :=
  let store := store.push message
  if MAX_BUFFER_SIZE ≤ store.writeBuffer.length then store.flush.1
  else { store with batchTimer := true }

/-- `getById` and `getByTopic` up to their first `await`. -/
def invoke (store : AsyncStore) (query : Query) : AsyncStore :=
  let flushed := store.flush
  { flushed.1 with
    reads := store.reads ++
      [⟨query, .flushing flushed.2, store.saved, flushed.1.batches.length⟩] }

def setStatus (store : AsyncStore) (batch : ℕ) (status : BatchStatus) : AsyncStore :=
  { store with batches := store.batches.modify batch fun before ↦ { before with status } }

def commit (store : AsyncStore) (writes : List (String × StoredValue)) : AsyncStore :=
  { store with db := writes.foldl (fun db write ↦ db.put write.1 write.2) store.db }

def apply (store : AsyncStore) (batch : ℕ) : AsyncStore :=
  match store.batches[batch]? with
  | none => store
  | some written => (store.commit written.writes).setStatus batch .applied

/-- The messages that a range scan for the topic yields, after the comparison of the stamps. -/
def scanTopic (db : SortedMap String StoredValue) (topic : String) (sinceTimestamp : ℕ) :
    List P2PMessage :=
  ((MessageStore.mk db []).scan ("msg:" ++ topic ++ ":" ++ (padStart sinceTimestamp ++ ":"))
    ("msg:" ++ topic ++ ":~")).filter fun message ↦ sinceTimestamp < message.lamportTimestamp

/-- What a read does when it goes on. A key that is not found ends `getById` with `null`. -/
def advance (db : SortedMap String StoredValue) (read : StoreRead) : ReadStage :=
  match read.stage, read.query with
  | .flushing _, .byTopic topic sinceTimestamp => .answered (scanTopic db topic sinceTimestamp)
  | .flushing _, .byId messageId =>
    match db.get? ("id:" ++ messageId) with
    | some (.reference fullKey) => .referenced fullKey
    | _ => .answered []
  | .referenced fullKey, _ => .answered ((db.get? fullKey).bind StoredValue.message?).toList
  | .answered messages, _ => .answered messages

def proceed (store : AsyncStore) (index : ℕ) : AsyncStore :=
  { store with
    reads := store.reads.modify index fun read ↦ { read with stage := advance store.db read } }

def next (store : AsyncStore) : Event → AsyncStore
  | .save message => store.save message
  | .flush => store.flush.1
  | .timer => store.flush.1
  | .read query => store.invoke query
  | .apply batch => store.apply batch
  | .complete batch => store.setStatus batch .completed
  | .proceed index => store.proceed index

def statusOf (store : AsyncStore) (batch : ℕ) : Option BatchStatus :=
  store.batches[batch]?.map WriteBatch.status

/-- The read has what it waits for. -/
def Ready (store : AsyncStore) (read : StoreRead) : Prop :=
  match read.stage with
  | .flushing none | .referenced _ => True
  | .flushing (some batch) => store.statusOf batch = some .completed
  | .answered _ => False

def Enabled (store : AsyncStore) : Event → Prop
  | .save _ | .flush | .read _ => True
  | .timer => store.batchTimer = true
  | .apply batch => store.statusOf batch = some .called
  | .complete batch => store.statusOf batch = some .applied
  | .proceed index => ∃ read ∈ store.reads[index]?, store.Ready read

/-- A message store under all interleavings. -/
def system : TransitionSystem AsyncStore Event := .ofNext Enabled next

/-- Every read that has returned has returned the messages that it asks for and that had been saved
when it was invoked. -/
def ReadsWrites (store : AsyncStore) : Prop :=
  ∀ read ∈ store.reads, ∀ messages, read.stage = .answered messages →
    ∀ message ∈ read.savedBefore, read.query.Asks message → message ∈ messages

/-- When the read goes on, no batch that was called before its own flush returned and that holds the
message is still to take effect, and no other message was saved under a key of this one. -/
structure Settled (store : AsyncStore) (read : StoreRead) (message : P2PMessage) : Prop where
  batches : ∀ batch < read.called, ∀ written ∈ store.batches[batch]?, written.status = .called →
    ¬recordsOf message ⊆ written.writes
  sole : ∀ other ∈ store.saved, read.query.Shares other message → other = message
  digits : read.query.Compares message

/-- Whenever a read goes on, all that it asks for is settled. -/
def ReadsSettled (store : AsyncStore) : Event → Prop
  | .proceed index => ∀ read ∈ store.reads[index]?, ∀ message ∈ read.savedBefore,
      read.query.Asks message → store.Settled read message
  | _ => True

/-! ## What the stages hold -/

/-- One of the first batches holds both records of the message. -/
def CarriedBelow (batches : List WriteBatch) (bound : ℕ) (message : P2PMessage) : Prop :=
  ∃ batch < bound, ∃ written ∈ batches[batch]?, recordsOf message ⊆ written.writes

/-- The key is bound in the database. -/
def Bound (db : SortedMap String StoredValue) (key : String) : Prop :=
  ∃ value, (key, value) ∈ db.entries

/-- Where the records of the saved messages are: all of them in the buffer or in a batch, those of
the batches that took effect in the database, and no others anywhere. A read has nothing to wait for
that is still in the buffer. -/
structure Coherent (store : AsyncStore) : Prop where
  carried : ∀ message ∈ store.saved, recordsOf message ⊆ store.writeBuffer ∨
    CarriedBelow store.batches store.batches.length message
  committed : ∀ entry ∈ store.db.entries, ∃ message ∈ store.saved, entry ∈ recordsOf message
  buffered : ∀ entry ∈ store.writeBuffer, ∃ message ∈ store.saved, entry ∈ recordsOf message
  written : ∀ batch ∈ store.batches, ∀ entry ∈ batch.writes,
    ∃ message ∈ store.saved, entry ∈ recordsOf message
  applied : ∀ batch ∈ store.batches, batch.status ≠ .called → ∀ entry ∈ batch.writes,
    Bound store.db entry.1
  reads : ∀ read ∈ store.reads, ∀ message ∈ read.savedBefore,
    CarriedBelow store.batches read.called message

/-- What the stage of a read owes to a message that it asks for. -/
def Owes (db : SortedMap String StoredValue) (message : P2PMessage) : ReadStage → Prop
  | .flushing _ => True
  | .referenced fullKey => fullKey = keyOf message ∧ Bound db (keyOf message)
  | .answered messages => message ∈ messages

/-- Every read in progress is on its way to what it asks for. -/
def OnTheWay (store : AsyncStore) : Prop :=
  ∀ read ∈ store.reads, ∀ message ∈ read.savedBefore, read.query.Asks message →
    Owes store.db message read.stage

theorem recordsOf_ne_nil (message : P2PMessage) : ¬recordsOf message ⊆ [] := by
  simp [recordsOf]

theorem CarriedBelow.append {batches : List WriteBatch} {bound : ℕ} {message : P2PMessage}
    (h : CarriedBelow batches bound message) (more : List WriteBatch) :
    CarriedBelow (batches ++ more) bound message := by
  obtain ⟨batch, hlt, written, hwritten, hsubset⟩ := h
  have hlength := (List.getElem?_eq_some_iff.1 hwritten).1
  exact ⟨batch, hlt, written, (List.getElem?_append_left hlength).trans hwritten, hsubset⟩

theorem CarriedBelow.mono {batches : List WriteBatch} {bound more : ℕ} {message : P2PMessage}
    (h : CarriedBelow batches bound message) (hle : bound ≤ more) :
    CarriedBelow batches more message := by
  obtain ⟨batch, hlt, hwritten⟩ := h
  exact ⟨batch, hlt.trans_le hle, hwritten⟩

/-- The status of a batch is no matter for what it holds. -/
theorem CarriedBelow.modify {batches : List WriteBatch} {bound : ℕ} {message : P2PMessage}
    (h : CarriedBelow batches bound message) (index : ℕ) (status : BatchStatus) :
    CarriedBelow (batches.modify index fun before ↦ { before with status }) bound message := by
  obtain ⟨batch, hlt, written, hwritten, hsubset⟩ := h
  have hwrittenSome : batches[batch]? = some written := hwritten
  refine ⟨batch, hlt, if index = batch then { written with status } else written, ?_, ?_⟩
  · simp [List.getElem?_modify, hwrittenSome]
  · split <;> exact hsubset

theorem Bound.foldl {db : SortedMap String StoredValue} {key : String} (h : Bound db key)
    (writes : List (String × StoredValue)) :
    Bound (writes.foldl (fun db write ↦ db.put write.1 write.2) db) key :=
  SortedMap.put_foldl_keeps writes h

/-- What a stage owes stays when the database grows. -/
theorem Owes.mono {db later : SortedMap String StoredValue} {message : P2PMessage}
    {stage : ReadStage} (h : Owes db message stage)
    (hgrows : ∀ key, Bound db key → Bound later key) : Owes later message stage := by
  cases stage with
  | flushing batch => trivial
  | referenced fullKey => exact ⟨h.1, hgrows _ h.2⟩
  | answered messages => exact h

theorem coherent_new : Coherent new where
  carried := fun _ h ↦ by cases h
  committed := fun _ h ↦ by cases h
  buffered := fun _ h ↦ by cases h
  written := fun _ h ↦ by cases h
  applied := fun _ h ↦ by cases h
  reads := fun _ h ↦ by cases h

/-! ## One step -/

variable {store : AsyncStore}

section Records

variable {saved : List P2PMessage} {writes : List (String × StoredValue)}

/-- The records of saved messages stay such records. -/
theorem recorded_append (h : ∀ entry ∈ writes, ∃ message ∈ saved, entry ∈ recordsOf message)
    (more : List P2PMessage) :
    ∀ entry ∈ writes, ∃ message ∈ saved ++ more, entry ∈ recordsOf message := by
  intro entry hentry
  obtain ⟨other, hother, hrecord⟩ := h entry hentry
  exact ⟨other, List.mem_append_left _ hother, hrecord⟩

theorem recorded_push (h : ∀ entry ∈ writes, ∃ message ∈ saved, entry ∈ recordsOf message)
    (message : P2PMessage) :
    ∀ entry ∈ writes ++ recordsOf message, ∃ other ∈ saved ++ [message],
      entry ∈ recordsOf other := by
  intro entry hentry
  rcases List.mem_append.1 hentry with hold | hnew
  · exact recorded_append h [message] entry hold
  · exact ⟨message, List.mem_append_right _ (List.mem_singleton.2 rfl), hnew⟩

/-- A flush turns what is buffered into a batch. -/
theorem recorded_flush {batches : List WriteBatch}
    (h : ∀ entry ∈ writes, ∃ message ∈ saved, entry ∈ recordsOf message)
    (hbatches : ∀ batch ∈ batches, ∀ entry ∈ batch.writes,
      ∃ message ∈ saved, entry ∈ recordsOf message) :
    ∀ batch ∈ batches ++ [⟨writes, .called⟩], ∀ entry ∈ batch.writes,
      ∃ message ∈ saved, entry ∈ recordsOf message := by
  intro batch hbatch
  rcases List.mem_append.1 hbatch with hold | hnew
  · exact hbatches batch hold
  · obtain rfl := List.mem_singleton.1 hnew
    exact h

end Records

theorem Coherent.push (h : store.Coherent) (message : P2PMessage) :
    (store.push message).Coherent where
  carried := by
    intro other hother
    rcases List.mem_append.1 hother with hold | hnew
    · rcases h.carried other hold with hbuffer | hbatch
      · exact .inl (List.Subset.trans hbuffer (List.subset_append_left _ _))
      · exact .inr hbatch
    · obtain rfl := List.mem_singleton.1 hnew
      exact .inl (List.subset_append_right _ _)
  committed := recorded_append h.committed [message]
  buffered := recorded_push h.buffered message
  written batch hbatch := recorded_append (h.written batch hbatch) [message]
  applied := h.applied
  reads := h.reads

@[simp] theorem db_flush (store : AsyncStore) : store.flush.1.db = store.db := by
  unfold flush
  split <;> rfl

@[simp] theorem reads_flush (store : AsyncStore) : store.flush.1.reads = store.reads := by
  unfold flush
  split <;> rfl

@[simp] theorem saved_flush (store : AsyncStore) : store.flush.1.saved = store.saved := by
  unfold flush
  split <;> rfl

@[simp] theorem writeBuffer_flush (store : AsyncStore) : store.flush.1.writeBuffer = [] := by
  unfold flush
  split <;> simp [*]

theorem flush_fst_of_ne_nil (h : store.writeBuffer ≠ []) :
    store.flush.1 = { store with
      writeBuffer := []
      batchTimer := false
      batches := store.batches ++ [⟨store.writeBuffer, .called⟩] } := by
  simp [flush, h]

theorem flush_fst_of_nil (h : store.writeBuffer = []) : store.flush.1 = store := by
  simp [flush, h]

theorem Coherent.flush (h : store.Coherent) : store.flush.1.Coherent := by
  by_cases hbuffer : store.writeBuffer = []
  · rwa [flush_fst_of_nil hbuffer]
  rw [flush_fst_of_ne_nil hbuffer]
  refine ⟨?_, h.committed, ?_, recorded_flush h.buffered h.written, ?_, ?_⟩
  · intro message hmessage
    right
    rcases h.carried message hmessage with hbuffered | hbatch
    · refine ⟨store.batches.length, by simp, ⟨store.writeBuffer, .called⟩, ?_, hbuffered⟩
      simp
    · exact (hbatch.append _).mono (by simp)
  · intro entry hentry
    cases hentry
  · intro batch hbatch hstatus entry hentry
    rcases List.mem_append.1 hbatch with hold | hnew
    · exact h.applied batch hold hstatus entry hentry
    · obtain rfl := List.mem_singleton.1 hnew
      exact absurd rfl hstatus
  · intro read hread message hmessage
    exact (h.reads read hread message hmessage).append _

/-- After a flush every saved message is in a batch. -/
theorem Coherent.carried_flush (h : store.Coherent) {message : P2PMessage}
    (hmessage : message ∈ store.saved) :
    CarriedBelow store.flush.1.batches store.flush.1.batches.length message := by
  rcases h.flush.carried message (by rwa [saved_flush]) with hbuffered | hbatch
  · rw [writeBuffer_flush] at hbuffered
    exact absurd hbuffered (recordsOf_ne_nil message)
  · exact hbatch

/-- A change of the timer is no matter. -/
theorem Coherent.setTimer (h : store.Coherent) (batchTimer : Bool) :
    ({ store with batchTimer } : AsyncStore).Coherent :=
  ⟨h.carried, h.committed, h.buffered, h.written, h.applied, h.reads⟩

theorem Coherent.save (h : store.Coherent) (message : P2PMessage) :
    (store.save message).Coherent := by
  unfold AsyncStore.save
  dsimp only
  split
  · exact (h.push message).flush
  · exact (h.push message).setTimer true

theorem Coherent.invoke (h : store.Coherent) (query : Query) : (store.invoke query).Coherent := by
  have hflushed := h.flush
  refine ⟨hflushed.carried, hflushed.committed, hflushed.buffered, hflushed.written,
    hflushed.applied, ?_⟩
  intro read hread message hmessage
  rcases List.mem_append.1 hread with hold | hnew
  · exact hflushed.reads read (by rwa [reads_flush]) message hmessage
  · obtain rfl := List.mem_singleton.1 hnew
    exact h.carried_flush hmessage

theorem mem_modify_status {batches : List WriteBatch} {index : ℕ} {status : BatchStatus}
    {batch : WriteBatch}
    (h : batch ∈ batches.modify index fun before ↦ { before with status }) :
    batch ∈ batches ∨ ∃ before, batches[index]? = some before ∧
      batch = { before with status } := by
  obtain ⟨other, hother⟩ := List.mem_iff_getElem?.1 h
  rw [List.getElem?_modify] at hother
  obtain ⟨before, hbefore, rfl⟩ := Option.map_eq_some_iff.1 hother
  split
  · rename_i heq
    exact .inr ⟨before, heq ▸ hbefore, rfl⟩
  · exact .inl (List.mem_of_getElem? hbefore)

/-- A batch may leave the state of a call once its keys are bound. -/
theorem Coherent.setStatus (h : store.Coherent) {index : ℕ} (status : BatchStatus)
    (hbound : ∀ batch, store.batches[index]? = some batch → ∀ entry ∈ batch.writes,
      Bound store.db entry.1) :
    (store.setStatus index status).Coherent where
  carried := by
    intro message hmessage
    rcases h.carried message hmessage with hbuffer | hbatch
    · exact .inl hbuffer
    · right
      rw [AsyncStore.setStatus, List.length_modify]
      exact hbatch.modify index status
  committed := h.committed
  buffered := h.buffered
  written := by
    intro batch hbatch entry hentry
    rcases mem_modify_status hbatch with hold | ⟨before, hbefore, rfl⟩
    · exact h.written batch hold entry hentry
    · exact h.written before (List.mem_of_getElem? hbefore) entry hentry
  applied := by
    intro batch hbatch hstatus entry hentry
    rcases mem_modify_status hbatch with hold | ⟨before, hbefore, rfl⟩
    · exact h.applied batch hold hstatus entry hentry
    · exact hbound before hbefore entry hentry
  reads := fun read hread message hmessage ↦
    (h.reads read hread message hmessage).modify index status

theorem Coherent.apply (h : store.Coherent) (index : ℕ) : (store.apply index).Coherent := by
  unfold AsyncStore.apply
  split
  · exact h
  · rename_i written hwritten
    have hmem := List.mem_of_getElem? hwritten
    have hgrown : (store.commit written.writes).Coherent := by
      refine ⟨h.carried, ?_, h.buffered, h.written, ?_, h.reads⟩
      · intro entry hentry
        rcases SortedMap.mem_put_foldl hentry with hold | hnew
        · exact h.committed entry hold
        · exact h.written written hmem entry hnew
      · intro batch hbatch hstatus entry hentry
        exact (h.applied batch hbatch hstatus entry hentry).foldl _
    apply hgrown.setStatus
    intro batch hbatch entry hentry
    obtain rfl := Option.some.inj (hwritten.symm.trans hbatch)
    exact SortedMap.put_foldl_binds hentry

theorem Coherent.complete (h : store.Coherent) {index : ℕ}
    (happlied : store.statusOf index = some .applied) :
    (store.setStatus index .completed).Coherent := by
  apply h.setStatus
  intro batch hbatch
  apply h.applied batch (List.mem_of_getElem? hbatch)
  simp [statusOf, hbatch] at happlied
  simp [happlied]

theorem mem_reads_proceed {index : ℕ} {read : StoreRead}
    (h : read ∈ (store.proceed index).reads) :
    read ∈ store.reads ∨ ∃ before, store.reads[index]? = some before ∧
      read = { before with stage := advance store.db before } := by
  obtain ⟨other, hother⟩ := List.mem_iff_getElem?.1 h
  rw [proceed, List.getElem?_modify] at hother
  obtain ⟨before, hbefore, rfl⟩ := Option.map_eq_some_iff.1 hother
  split
  · rename_i heq
    exact .inr ⟨before, heq ▸ hbefore, rfl⟩
  · exact .inl (List.mem_of_getElem? hbefore)

theorem Coherent.proceed (h : store.Coherent) (index : ℕ) : (store.proceed index).Coherent := by
  refine ⟨h.carried, h.committed, h.buffered, h.written, h.applied, ?_⟩
  intro read hread message hmessage
  rcases mem_reads_proceed hread with hold | ⟨before, hbefore, rfl⟩
  · exact h.reads read hold message hmessage
  · exact h.reads before (List.mem_of_getElem? hbefore) message hmessage

theorem Coherent.next (h : store.Coherent) {event : Event} (henabled : store.Enabled event) :
    (store.next event).Coherent := by
  cases event with
  | save message => exact h.save message
  | flush => exact h.flush
  | timer => exact h.flush
  | read query => exact h.invoke query
  | apply batch => exact h.apply batch
  | complete batch => exact h.complete henabled
  | proceed index => exact h.proceed index

/-! ## What a settled read finds -/

/-- The records of a settled message are bound in the database. -/
theorem Coherent.bound_of_settled (h : store.Coherent) {read : StoreRead} {message : P2PMessage}
    (hread : read ∈ store.reads) (hmessage : message ∈ read.savedBefore)
    (hsettled : store.Settled read message) : ∀ record ∈ recordsOf message,
      Bound store.db record.1 := by
  intro record hrecord
  obtain ⟨batch, hlt, written, hwritten, hsubset⟩ := h.reads read hread message hmessage
  have hstatus : written.status ≠ .called := fun hcalled ↦
    hsettled.batches batch hlt written hwritten hcalled hsubset
  exact h.applied written (List.mem_of_getElem? hwritten) hstatus record (hsubset hrecord)

/-- If nobody shares its key, the message is what is stored there. -/
theorem Coherent.stored (h : store.Coherent) {message : P2PMessage}
    (hbound : Bound store.db (keyOf message))
    (hsole : ∀ other ∈ store.saved, keyOf other = keyOf message → other = message) :
    (keyOf message, .message message) ∈ store.db.entries := by
  obtain ⟨value, hvalue⟩ := hbound
  obtain ⟨other, hother, hrecord⟩ := h.committed _ hvalue
  simp only [recordsOf, List.mem_cons, Prod.mk.injEq, List.not_mem_nil, or_false] at hrecord
  rcases hrecord with ⟨hkey, rfl⟩ | ⟨hkey, -⟩
  · obtain rfl := hsole other hother hkey.symm
    exact hvalue
  · exact absurd hkey (keyOf_ne_reference message other.id)

theorem Coherent.indexed (h : store.Coherent) {message : P2PMessage}
    (hbound : Bound store.db ("id:" ++ message.id))
    (hsole : ∀ other ∈ store.saved, other.id = message.id → other = message) :
    ("id:" ++ message.id, .reference (keyOf message)) ∈ store.db.entries := by
  obtain ⟨value, hvalue⟩ := hbound
  obtain ⟨other, hother, hrecord⟩ := h.committed _ hvalue
  simp only [recordsOf, List.mem_cons, Prod.mk.injEq, List.not_mem_nil, or_false] at hrecord
  rcases hrecord with ⟨hkey, -⟩ | ⟨hkey, rfl⟩
  · exact absurd hkey.symm (keyOf_ne_reference other message.id)
  · obtain rfl := hsole other hother ((String.append_right_inj _).1 hkey).symm
    exact hvalue

theorem mem_scanTopic {db : SortedMap String StoredValue} {message : P2PMessage}
    {sinceTimestamp : ℕ} (hstored : (keyOf message, .message message) ∈ db.entries)
    (hsince : sinceTimestamp < message.lamportTimestamp)
    (hdigits : message.lamportTimestamp < 10 ^ 15) :
    message ∈ scanTopic db message.topic sinceTimestamp := by
  rw [scanTopic, List.mem_filter, decide_eq_true_eq, mem_scan]
  have hbounds := (captured_iff_between _ _ message).1 (captured_own hsince hdigits)
  exact ⟨⟨keyOf message, hstored, hbounds⟩, hsince⟩

theorem Query.shares_of_key (query : Query) {other message : P2PMessage}
    (h : keyOf other = keyOf message) : query.Shares other message := by
  cases query with
  | byId messageId => exact .inr h
  | byTopic topic sinceTimestamp => exact h

/-- A settled read goes on to what it owes. -/
theorem Coherent.owes_advance (h : store.Coherent) {read : StoreRead} {message : P2PMessage}
    (hread : read ∈ store.reads) (hmessage : message ∈ read.savedBefore)
    (hasks : read.query.Asks message) (howes : Owes store.db message read.stage)
    (hsettled : store.Settled read message) :
    Owes store.db message (advance store.db read) := by
  have hbound := h.bound_of_settled hread hmessage hsettled
  have hstored := h.stored (hbound (keyOf message, .message message) (by simp [recordsOf]))
    fun other hother hkey ↦ hsettled.sole other hother (Query.shares_of_key _ hkey)
  obtain ⟨query, stage, savedBefore, called⟩ := read
  cases stage with
  | flushing batch =>
    cases query with
    | byTopic topic sinceTimestamp =>
      obtain ⟨rfl, hsince⟩ : message.topic = topic ∧
        sinceTimestamp < message.lamportTimestamp := hasks
      exact mem_scanTopic hstored hsince hsettled.digits
    | byId messageId =>
      obtain rfl : message.id = messageId := hasks
      have hindexed := h.indexed
        (hbound ("id:" ++ message.id, .reference (keyOf message)) (by simp [recordsOf]))
        fun other hother hid ↦ hsettled.sole other hother (.inl hid)
      have hget := SortedMap.get?_eq_some_iff.2 hindexed
      simp only [advance, hget]
      exact ⟨rfl, _, hstored⟩
  | referenced fullKey =>
    obtain ⟨rfl, -⟩ := howes
    have hget := SortedMap.get?_eq_some_iff.2 hstored
    simp [advance, hget, Owes, StoredValue.message?]
  | answered messages => exact howes

theorem OnTheWay.proceed (hway : store.OnTheWay) (h : store.Coherent) {index : ℕ}
    (hsettled : store.ReadsSettled (.proceed index)) : (store.proceed index).OnTheWay := by
  intro read hread message hmessage hasks
  rcases mem_reads_proceed hread with hold | ⟨before, hbefore, rfl⟩
  · exact hway read hold message hmessage hasks
  · have hmem := List.mem_of_getElem? hbefore
    exact h.owes_advance hmem hmessage hasks (hway before hmem message hmessage hasks)
      (hsettled before hbefore message hmessage hasks)

/-- An event that leaves the reads alone and only adds keys to the database. -/
theorem OnTheWay.mono (hway : store.OnTheWay) {later : AsyncStore}
    (hreads : later.reads = store.reads)
    (hgrows : ∀ key, Bound store.db key → Bound later.db key) : later.OnTheWay := by
  intro read hread message hmessage hasks
  exact (hway read (hreads ▸ hread) message hmessage hasks).mono hgrows

theorem OnTheWay.flush (hway : store.OnTheWay) : store.flush.1.OnTheWay :=
  hway.mono store.reads_flush fun _ hbound ↦ by rwa [db_flush]

theorem OnTheWay.next (hway : store.OnTheWay) (h : store.Coherent) {event : Event}
    (hsettled : store.ReadsSettled event) : (store.next event).OnTheWay := by
  cases event with
  | save message =>
    have hpushed : (store.push message).OnTheWay := hway.mono rfl fun _ hbound ↦ hbound
    unfold AsyncStore.next AsyncStore.save
    dsimp only
    split
    · exact hpushed.flush
    · exact hpushed.mono rfl fun _ hbound ↦ hbound
  | flush => exact hway.flush
  | timer => exact hway.flush
  | read query =>
    intro read hread message hmessage hasks
    rcases List.mem_append.1 hread with hold | hnew
    · apply (hway read hold message hmessage hasks).mono
      intro key hbound
      have hdb : (store.invoke query).db = store.db := store.db_flush
      exact hdb ▸ hbound
    · obtain rfl := List.mem_singleton.1 hnew
      trivial
  | apply batch =>
    unfold AsyncStore.next AsyncStore.apply
    dsimp only
    split
    · exact hway
    · exact hway.mono rfl fun _ hbound ↦ hbound.foldl _
  | complete batch => exact hway.mono rfl fun _ hbound ↦ hbound
  | proceed index => exact hway.proceed h hsettled

theorem OnTheWay.readsWrites (hway : store.OnTheWay) : store.ReadsWrites := by
  intro read hread messages hstage message hmessage hasks
  have howes := hway read hread message hmessage hasks
  rw [hstage] at howes
  exact howes

/-- In a run in which every read that goes on finds the batches with what it asks for applied, every
read returns what had been saved before. -/
theorem readsWrites_of_guardedRun {events : List Event}
    (h : system.GuardedRun ReadsSettled new events store) : store.ReadsWrites := by
  have hnext (before : AsyncStore) (event : Event) (hinv : before.Coherent ∧ before.OnTheWay)
      (hsettled : before.ReadsSettled event) (henabled : before.Enabled event) :
      (before.next event).Coherent ∧ (before.next event).OnTheWay :=
    ⟨hinv.1.next henabled, hinv.2.next hinv.1 hsettled⟩
  have hinit : new.Coherent ∧ new.OnTheWay :=
    ⟨coherent_new, fun read hread ↦ by cases hread⟩
  exact (h.invariant_next hnext hinit).2.readsWrites

/-! ## A batch in flight -/

instance : DecidableRel Query.Asks := fun query message ↦
  match query with
  | .byId messageId => inferInstanceAs (Decidable (message.id = messageId))
  | .byTopic topic sinceTimestamp =>
    inferInstanceAs (Decidable (message.topic = topic ∧ sinceTimestamp < message.lamportTimestamp))

instance (query : Query) (other message : P2PMessage) : Decidable (query.Shares other message) :=
  match query with
  | .byId _ => inferInstanceAs (Decidable (_ ∨ _))
  | .byTopic .. => inferInstanceAs (Decidable (keyOf other = keyOf message))

instance : DecidableRel Query.Compares := fun query message ↦
  match query with
  | .byId _ => inferInstanceAs (Decidable True)
  | .byTopic .. => inferInstanceAs (Decidable (message.lamportTimestamp < 10 ^ 15))

instance (store : AsyncStore) (read : StoreRead) (message : P2PMessage) :
    Decidable (store.Settled read message) :=
  decidable_of_iff
    ((∀ batch < read.called, ∀ written ∈ store.batches[batch]?, written.status = .called →
        ¬recordsOf message ⊆ written.writes) ∧
      (∀ other ∈ store.saved, read.query.Shares other message → other = message) ∧
        read.query.Compares message)
    ⟨fun ⟨hbatches, hsole, hdigits⟩ ↦ ⟨hbatches, hsole, hdigits⟩,
      fun h ↦ ⟨h.batches, h.sole, h.digits⟩⟩

instance (store : AsyncStore) : DecidablePred store.ReadsSettled := fun event ↦
  match event with
  | .proceed index => inferInstanceAs (Decidable (∀ read ∈ store.reads[index]?,
      ∀ message ∈ read.savedBefore, read.query.Asks message → store.Settled read message))
  | .save _ | .flush | .timer | .read _ | .apply _ | .complete _ => inferInstanceAs (Decidable True)

instance (store : AsyncStore) : DecidablePred store.Ready := fun read ↦
  match h : read.stage with
  | .flushing none | .referenced _ => .isTrue (by simp [Ready, h])
  | .flushing (some batch) =>
    decidable_of_iff (store.statusOf batch = some .completed) (by simp [Ready, h])
  | .answered _ => .isFalse (by simp [Ready, h])

instance (store : AsyncStore) : DecidablePred store.Enabled := fun event ↦
  match event with
  | .save _ | .flush | .read _ => inferInstanceAs (Decidable True)
  | .timer => inferInstanceAs (Decidable (store.batchTimer = true))
  | .apply batch => inferInstanceAs (Decidable (store.statusOf batch = some .called))
  | .complete batch => inferInstanceAs (Decidable (store.statusOf batch = some .applied))
  | .proceed index => inferInstanceAs (Decidable (∃ read ∈ store.reads[index]?, store.Ready read))

/-- Two reads of a message wait until the batch that the first one called has completed. -/
def patientReads : List Event :=
  [.save (chatOn "global" "m0" 1), .read (.byId "m0"), .apply 0, .read (.byTopic "global" 0),
    .complete 0, .proceed 0, .proceed 0, .proceed 1]

theorem readsWrites_patientReads : (patientReads.foldl next new).ReadsWrites :=
  readsWrites_of_guardedRun (TransitionSystem.guardedRun_ofNext (by decide +kernel :
    TransitionSystem.EnabledAlong
      (fun store event ↦ store.Enabled event ∧ store.ReadsSettled event) next new patientReads))

/-- The timer has called the batch with the message when both reads are invoked. -/
def hastyReads : List Event :=
  [.save (chatOn "global" "m0" 1), .timer, .read (.byId "m0"), .read (.byTopic "global" 0),
    .proceed 0, .proceed 1]

theorem not_readsWrites_hastyReads :
    ¬∀ events store, system.Run new events store → store.ReadsWrites := by
  intro h
  have hrun : system.Run new hastyReads (hastyReads.foldl next new) :=
    TransitionSystem.run_ofNext (by decide +kernel)
  have hread : ⟨.byId "m0", .answered [], [chatOn "global" "m0" 1], 1⟩ ∈
      (hastyReads.foldl next new).reads := by
    decide +kernel
  have hmem := h hastyReads _ hrun _ hread [] rfl _ (List.mem_singleton.2 rfl) rfl
  cases hmem

/-- The range scan misses the message as well. -/
example : ⟨.byTopic "global" 0, .answered [], [chatOn "global" "m0" 1], 1⟩ ∈
    (hastyReads.foldl next new).reads := by
  decide +kernel

end AsyncStore

end P2PApp
