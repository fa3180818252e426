import P2PApp.Storage.ReadYourWrites

/-!
# Writes that fail

`flush` empties the buffer before it calls `db.batch`, and only logs that the batch was rejected.
The messages of a rejected batch are in none of the places where a saved message can be, unless they
were saved another time.
-/

namespace P2PApp

namespace AsyncStore

open MessageStore

/-- A store whose database may reject a batch; who has waited for the batch goes on. -/
structure FailingStore where
  store : AsyncStore
  rejected : List ℕ

/-- The batch holds both records of the message. -/
def Carries (store : AsyncStore) (index : ℕ) (message : P2PMessage) : Prop :=
  ∃ batch ∈ store.batches[index]?, recordsOf message ⊆ batch.writes

/-- The message is on its way to the database. -/
def Pending (store : AsyncStore) (message : P2PMessage) : Prop :=
  recordsOf message ⊆ store.writeBuffer ∨
    ∃ index, store.statusOf index = some .called ∧ store.Carries index message

/-- What the database holds under the two keys of the message was saved under these keys. -/
def InDatabase (store : AsyncStore) (message : P2PMessage) : Prop :=
  (∃ other ∈ store.saved, keyOf other = keyOf message ∧
      (keyOf message, .message other) ∈ store.db.entries) ∧
    ∃ other ∈ store.saved, other.id = message.id ∧
      ("id:" ++ message.id, .reference (keyOf other)) ∈ store.db.entries

/-- A batch that took effect has written the message. -/
def Written (failing : FailingStore) (message : P2PMessage) : Prop :=
  (∃ index ∉ failing.rejected, failing.store.statusOf index ≠ some .called ∧
      failing.store.Carries index message) ∧ failing.store.InDatabase message

namespace FailingStore

inductive Event
  | task (event : AsyncStore.Event)
  /-- The promise of the batch rejects. -/
  | reject (batch : ℕ)

def new : FailingStore := ⟨.new, []⟩

def next (failing : FailingStore) : Event → FailingStore
  | .task event => { failing with store := failing.store.next event }
  | .reject batch => ⟨failing.store.setStatus batch .completed, batch :: failing.rejected⟩

def Enabled (failing : FailingStore) : Event → Prop
  | .task event => failing.store.Enabled event
  | .reject batch => failing.store.statusOf batch = some .called

instance (failing : FailingStore) : DecidablePred failing.Enabled := fun event ↦
  match event with
  | .task event => inferInstanceAs (Decidable (failing.store.Enabled event))
  | .reject batch => inferInstanceAs (Decidable (failing.store.statusOf batch = some .called))

def system : TransitionSystem FailingStore Event := .ofNext Enabled next

/-- A flush now would leave the message in a batch that writes it if it succeeds. -/
def Recoverable (failing : FailingStore) (message : P2PMessage) : Prop :=
  ∃ batch, (failing.next (.task .flush)).store.statusOf batch = some .called ∧
    Written ((failing.next (.task .flush)).next (.task (.apply batch))) message

/-- Nothing that was saved is lost. -/
def Keeps (failing : FailingStore) : Prop :=
  ∀ message ∈ failing.store.saved,
    (failing.store.Pending message ∧ failing.Recoverable message) ∨ Written failing message

/-- What a rejected batch held is still to be written. -/
def Requeues (failing : FailingStore) : Event → Prop
  | .task _ => True
  | .reject index => ∀ message ∈ failing.store.saved, failing.store.Carries index message →
    (failing.next (.reject index)).store.Pending message ∧
      (failing.next (.reject index)).Recoverable message

/-- What a rejected batch held was saved another time, and waits in the buffer or in another
batch. -/
def SavedAgain (failing : FailingStore) : Event → Prop
  | .task _ => True
  | .reject index => ∀ message ∈ failing.store.saved, failing.store.Carries index message →
    recordsOf message ⊆ failing.store.writeBuffer ∨
      ∃ other ≠ index, failing.store.statusOf other = some .called ∧
        failing.store.Carries other message

end FailingStore

/-! ## Where a message is after one step -/

/-- All that the store and the database hold was saved, and a batch that was not rejected has bound
its keys. -/
structure Consistent (rejected : List ℕ) (store : AsyncStore) : Prop where
  committed : ∀ entry ∈ store.db.entries, ∃ message ∈ store.saved, entry ∈ recordsOf message
  buffered : ∀ entry ∈ store.writeBuffer, ∃ message ∈ store.saved, entry ∈ recordsOf message
  written : ∀ batch ∈ store.batches, ∀ entry ∈ batch.writes,
    ∃ message ∈ store.saved, entry ∈ recordsOf message
  applied : ∀ index ∉ rejected, ∀ batch ∈ store.batches[index]?, batch.status ≠ .called →
    ∀ entry ∈ batch.writes, Bound store.db entry.1
  rejected : ∀ index ∈ rejected, ∃ batch ∈ store.batches[index]?, batch.status ≠ .called

variable {rejected : List ℕ} {store : AsyncStore} {message : P2PMessage}

/-- Who is bound is in the database. -/
theorem Consistent.inDatabase (h : store.Consistent rejected)
    (hbound : ∀ record ∈ recordsOf message, Bound store.db record.1) :
    store.InDatabase message := by
  constructor
  · obtain ⟨value, hvalue⟩ := hbound (keyOf message, .message message) (by simp [recordsOf])
    obtain ⟨other, hother, hrecord⟩ := h.committed _ hvalue
    simp only [recordsOf, List.mem_cons, Prod.mk.injEq, List.not_mem_nil, or_false] at hrecord
    rcases hrecord with ⟨hkey, rfl⟩ | ⟨hkey, -⟩
    · exact ⟨other, hother, hkey.symm, hvalue⟩
    · exact absurd hkey (keyOf_ne_reference message other.id)
  · obtain ⟨value, hvalue⟩ := hbound ("id:" ++ message.id, .reference (keyOf message))
      (by simp [recordsOf])
    obtain ⟨other, hother, hrecord⟩ := h.committed _ hvalue
    simp only [recordsOf, List.mem_cons, Prod.mk.injEq, List.not_mem_nil, or_false] at hrecord
    rcases hrecord with ⟨hkey, -⟩ | ⟨hkey, rfl⟩
    · exact absurd hkey.symm (keyOf_ne_reference other message.id)
    · exact ⟨other, hother, ((String.append_right_inj _).1 hkey).symm, hvalue⟩

theorem InDatabase.bound (h : store.InDatabase message) :
    ∀ record ∈ recordsOf message, Bound store.db record.1 := by
  obtain ⟨⟨other, -, -, hkey⟩, ⟨another, -, -, hid⟩⟩ := h
  intro record hrecord
  rcases List.mem_cons.1 hrecord with rfl | hsecond
  · exact ⟨_, hkey⟩
  · obtain rfl := List.mem_singleton.1 hsecond
    exact ⟨_, hid⟩

theorem consistent_new : Consistent [] new where
  committed := fun _ h ↦ by cases h
  buffered := fun _ h ↦ by cases h
  written := fun _ h ↦ by cases h
  applied := fun _ _ _ h ↦ by cases h
  rejected := fun _ h ↦ by cases h

theorem Consistent.push (h : store.Consistent rejected) (message : P2PMessage) :
    (store.push message).Consistent rejected where
  committed := recorded_append h.committed [message]
  buffered := recorded_push h.buffered message
  written batch hbatch := recorded_append (h.written batch hbatch) [message]
  applied := h.applied
  rejected := h.rejected

theorem Consistent.flush (h : store.Consistent rejected) :
    store.flush.1.Consistent rejected := by
  by_cases hbuffer : store.writeBuffer = []
  · rwa [flush_fst_of_nil hbuffer]
  rw [flush_fst_of_ne_nil hbuffer]
  refine ⟨h.committed, ?_, recorded_flush h.buffered h.written, ?_, ?_⟩
  · intro entry hentry
    cases hentry
  · intro index hkept batch hbatch hstatus entry hentry
    by_cases hlt : index < store.batches.length
    · rw [List.getElem?_append_left hlt] at hbatch
      exact h.applied index hkept batch hbatch hstatus entry hentry
    · rw [List.getElem?_append_right (not_lt.1 hlt)] at hbatch
      obtain rfl := List.mem_singleton.1 (List.mem_of_getElem? hbatch)
      exact absurd rfl hstatus
  · intro index hrejected
    obtain ⟨batch, hbatch, hstatus⟩ := h.rejected index hrejected
    have hlt := (List.getElem?_eq_some_iff.1 hbatch).1
    exact ⟨batch, (List.getElem?_append_left hlt).trans hbatch, hstatus⟩

/-- The timer and the reads are no matter. -/
theorem Consistent.congr (h : store.Consistent rejected) {later : AsyncStore}
    (hdb : later.db = store.db) (hbuffer : later.writeBuffer = store.writeBuffer)
    (hbatches : later.batches = store.batches) (hsaved : later.saved = store.saved) :
    later.Consistent rejected := by
  refine ⟨?_, ?_, ?_, ?_, ?_⟩
  · rw [hdb, hsaved]
    exact h.committed
  · rw [hbuffer, hsaved]
    exact h.buffered
  · rw [hbatches, hsaved]
    exact h.written
  · rw [hbatches, hdb]
    exact h.applied
  · rw [hbatches]
    exact h.rejected

/-- A batch that is no longer in flight was rejected or has its keys bound. -/
theorem Consistent.setStatus (h : store.Consistent rejected) {index : ℕ} {status : BatchStatus}
    (hcalled : status ≠ .called) {rejected' : List ℕ}
    (hrejected : ∀ other ∈ rejected', other ∈ rejected ∨ other = index)
    (hkept : ∀ other ∈ rejected, other ∈ rejected')
    (hindex : ∃ batch, store.batches[index]? = some batch)
    (hbound : index ∉ rejected' → ∀ batch ∈ store.batches[index]?, ∀ entry ∈ batch.writes,
      Bound store.db entry.1) :
    (store.setStatus index status).Consistent rejected' := by
  refine ⟨h.committed, h.buffered, ?_, ?_, ?_⟩
  · intro batch hbatch entry hentry
    rcases mem_modify_status hbatch with hold | ⟨before, hbefore, rfl⟩
    · exact h.written batch hold entry hentry
    · exact h.written before (List.mem_of_getElem? hbefore) entry hentry
  · intro other hother batch hbatch hstatus entry hentry
    rw [AsyncStore.setStatus, List.getElem?_modify] at hbatch
    obtain ⟨before, hbefore, rfl⟩ := Option.map_eq_some_iff.1 hbatch
    by_cases heq : index = other
    · subst heq
      rw [if_pos rfl] at hentry
      exact hbound hother before hbefore entry hentry
    · rw [if_neg heq] at hstatus hentry
      exact h.applied other (fun hmem ↦ hother (hkept other hmem)) before hbefore hstatus entry
        hentry
  · intro other hother
    rw [AsyncStore.setStatus]
    simp only [List.getElem?_modify]
    by_cases heq : index = other
    · subst heq
      obtain ⟨batch, hbatch⟩ := hindex
      exact ⟨{ batch with status }, by simp [hbatch], hcalled⟩
    · have hold : other ∈ rejected := (hrejected other hother).resolve_right fun hsame ↦
        heq hsame.symm
      obtain ⟨batch, hbatch, hstatus⟩ := h.rejected other hold
      exact ⟨batch, by simp [heq, Option.mem_def.1 hbatch], hstatus⟩

/-- Only records of saved messages are committed. -/
theorem Consistent.commit (h : store.Consistent rejected) {batch : WriteBatch}
    (hbatch : batch ∈ store.batches) : (store.commit batch.writes).Consistent rejected := by
  refine ⟨?_, h.buffered, h.written, ?_, h.rejected⟩
  · intro entry hentry
    rcases SortedMap.mem_put_foldl hentry with hold | hnew
    · exact h.committed entry hold
    · exact h.written batch hbatch entry hnew
  · intro index hkept other hother hstatus entry hentry
    exact (h.applied index hkept other hother hstatus entry hentry).foldl _

theorem Consistent.apply (h : store.Consistent rejected) (index : ℕ) :
    (store.apply index).Consistent rejected := by
  unfold AsyncStore.apply
  cases hindex : store.batches[index]? with
  | none => exact h
  | some written =>
    refine (h.commit (List.mem_of_getElem? hindex)).setStatus (by simp) (fun _ ↦ .inl)
      (fun _ ↦ id) ⟨written, hindex⟩ fun _ batch hbatch entry hentry ↦ ?_
    obtain rfl := Option.some.inj (hindex.symm.trans hbatch)
    exact SortedMap.put_foldl_binds hentry

theorem exists_of_statusOf {index : ℕ} {status : BatchStatus}
    (h : store.statusOf index = some status) :
    ∃ batch, store.batches[index]? = some batch ∧ batch.status = status :=
  Option.map_eq_some_iff.1 h

theorem Consistent.complete (h : store.Consistent rejected) {index : ℕ}
    (happlied : store.statusOf index = some .applied) :
    (store.setStatus index .completed).Consistent rejected := by
  obtain ⟨batch, hindex, hstatus⟩ := exists_of_statusOf happlied
  refine h.setStatus (by simp) (fun _ ↦ .inl) (fun _ ↦ id) ⟨batch, hindex⟩ ?_
  intro hkept other hother
  obtain rfl := Option.some.inj (hindex.symm.trans hother)
  exact h.applied index hkept batch hindex (by simp [hstatus])

theorem Consistent.reject (h : store.Consistent rejected) {index : ℕ}
    (hcalled : store.statusOf index = some .called) :
    (store.setStatus index .completed).Consistent (index :: rejected) := by
  obtain ⟨batch, hindex, -⟩ := exists_of_statusOf hcalled
  refine h.setStatus (by simp) ?_ (fun _ ↦ List.mem_cons_of_mem _) ⟨batch, hindex⟩ ?_
  · intro other hother
    exact (List.mem_cons.1 hother).symm
  · intro habsurd
    exact absurd List.mem_cons_self habsurd

theorem Consistent.next (h : store.Consistent rejected) {event : Event}
    (henabled : store.Enabled event) : (store.next event).Consistent rejected := by
  cases event with
  | save message =>
    rw [AsyncStore.next, AsyncStore.save]
    split
    · exact (h.push message).flush
    · exact (h.push message).congr rfl rfl rfl rfl
  | flush => exact h.flush
  | timer => exact h.flush
  | read query => exact h.flush.congr rfl rfl rfl rfl
  | apply batch => exact h.apply batch
  | complete batch => exact h.complete henabled
  | proceed index => exact h.congr rfl rfl rfl rfl

/-! ## What the steps leave as it is -/

/-- Keys stay bound, and batches stay what they are once they are out of flight. -/
structure Extends (store later : AsyncStore) : Prop where
  db : ∀ key, Bound store.db key → Bound later.db key
  batches : ∀ (index : ℕ) (batch : WriteBatch), store.batches[index]? = some batch →
    ∃ after : WriteBatch, later.batches[index]? = some after ∧ after.writes = batch.writes ∧
      (batch.status ≠ .called → after.status ≠ .called)

theorem Extends.of_batches {later : AsyncStore} (hdb : later.db = store.db)
    {more : List WriteBatch} (hbatches : later.batches = store.batches ++ more) :
    store.Extends later := by
  refine ⟨fun key hbound ↦ hdb ▸ hbound, fun index batch hbatch ↦ ?_⟩
  have hlt := (List.getElem?_eq_some_iff.1 hbatch).1
  rw [hbatches, List.getElem?_append_left hlt]
  exact ⟨batch, hbatch, rfl, id⟩

theorem batches_flush (store : AsyncStore) :
    ∃ more, store.flush.1.batches = store.batches ++ more := by
  by_cases hbuffer : store.writeBuffer = []
  · exact ⟨[], by rw [flush_fst_of_nil hbuffer, List.append_nil]⟩
  · exact ⟨_, by rw [flush_fst_of_ne_nil hbuffer]⟩

theorem Extends.flush (store : AsyncStore) : store.Extends store.flush.1 := by
  obtain ⟨more, hbatches⟩ := store.batches_flush
  exact .of_batches store.db_flush hbatches

theorem Extends.setStatus (store : AsyncStore) (index : ℕ) {status : BatchStatus}
    (hstatus : status ≠ .called) : store.Extends (store.setStatus index status) := by
  refine ⟨fun _ ↦ id, fun other batch hbatch ↦ ?_⟩
  rw [AsyncStore.setStatus, List.getElem?_modify, hbatch]
  refine ⟨_, rfl, ?_, ?_⟩
  · split <;> rfl
  · split
    · exact fun _ ↦ hstatus
    · exact id

theorem Extends.apply (store : AsyncStore) (index : ℕ) : store.Extends (store.apply index) := by
  unfold AsyncStore.apply
  cases store.batches[index]? with
  | none => exact .of_batches rfl (List.append_nil _).symm
  | some written =>
    have hstatus := Extends.setStatus (store.commit written.writes) index
      (by simp : BatchStatus.applied ≠ .called)
    exact ⟨fun key hbound ↦ hstatus.db key (hbound.foldl _), hstatus.batches⟩

theorem Extends.next (store : AsyncStore) (event : Event) : store.Extends (store.next event) := by
  have hsame {later : AsyncStore} (hdb : later.db = store.db)
      (hbatches : later.batches = store.batches) : store.Extends later :=
    .of_batches hdb (hbatches.trans (List.append_nil _).symm)
  cases event with
  | save message =>
    rw [AsyncStore.next, AsyncStore.save]
    split
    · have hflush := Extends.flush (store.push message)
      exact ⟨hflush.db, hflush.batches⟩
    · exact hsame rfl rfl
  | flush => exact .flush store
  | timer => exact .flush store
  | read query =>
    have hflush := Extends.flush store
    exact ⟨hflush.db, hflush.batches⟩
  | apply batch => exact .apply store batch
  | complete batch => exact .setStatus store batch (by simp)
  | proceed index => exact hsame rfl rfl

variable {later : AsyncStore}

theorem Extends.carries (h : store.Extends later) {index : ℕ}
    (hcarries : store.Carries index message) : later.Carries index message := by
  obtain ⟨batch, hbatch, hsubset⟩ := hcarries
  obtain ⟨after, hafter, hwrites, -⟩ := h.batches index batch hbatch
  exact ⟨after, hafter, hwrites ▸ hsubset⟩

/-- A batch that is out of flight stays so. -/
theorem Extends.statusOf_ne (h : store.Extends later) {index : ℕ}
    (hcarries : store.Carries index message) (hstatus : store.statusOf index ≠ some .called) :
    later.statusOf index ≠ some .called := by
  obtain ⟨batch, hbatch, -⟩ := hcarries
  obtain ⟨after, hafter, -, hkept⟩ := h.batches index batch hbatch
  rw [statusOf, hafter]
  rw [statusOf, Option.mem_def.1 hbatch] at hstatus
  exact fun heq ↦ hkept (fun hcalled ↦ hstatus (congrArg some hcalled)) (Option.some.inj heq)

theorem Written.task (h : Written ⟨store, rejected⟩ message) (hextends : store.Extends later)
    (hlater : later.Consistent rejected) : Written ⟨later, rejected⟩ message := by
  obtain ⟨⟨index, hkept, hstatus, hcarries⟩, hdatabase⟩ := h
  refine ⟨⟨index, hkept, hextends.statusOf_ne hcarries hstatus, hextends.carries hcarries⟩, ?_⟩
  exact hlater.inDatabase fun record hrecord ↦
    hextends.db _ (hdatabase.bound record hrecord)

/-! ## Messages on their way -/

theorem statusOf_setStatus (index other : ℕ) (status : BatchStatus) :
    (store.setStatus index status).statusOf other =
      if index = other then (store.statusOf other).map fun _ ↦ status
      else store.statusOf other := by
  rw [statusOf, setStatus, List.getElem?_modify, statusOf]
  by_cases heq : index = other
  · simp only [if_pos heq]
    cases store.batches[other]? <;> rfl
  · simp only [if_neg heq]
    cases store.batches[other]? <;> rfl

/-- After a flush what waited in the buffer is in flight. -/
theorem Pending.flush (h : store.Pending message) :
    ∃ index, store.flush.1.statusOf index = some .called ∧
      store.flush.1.Carries index message := by
  rcases h with hbuffer | ⟨index, hcalled, hcarries⟩
  · have hne : store.writeBuffer ≠ [] := fun hnil ↦
      recordsOf_ne_nil message (hnil ▸ hbuffer)
    rw [flush_fst_of_ne_nil hne]
    refine ⟨store.batches.length, ?_, ⟨store.writeBuffer, .called⟩, ?_, hbuffer⟩
    · simp [statusOf]
    · simp
  · refine ⟨index, ?_, (Extends.flush store).carries hcarries⟩
    obtain ⟨more, hbatches⟩ := store.batches_flush
    obtain ⟨batch, hbatch, hstatus⟩ := exists_of_statusOf hcalled
    have hlt := (List.getElem?_eq_some_iff.1 hbatch).1
    rw [statusOf, hbatches, List.getElem?_append_left hlt]
    exact hcalled

/-- Another batch changes its status. -/
theorem Pending.setStatus {index : ℕ} {status : BatchStatus}
    (h : recordsOf message ⊆ store.writeBuffer ∨ ∃ other ≠ index,
      store.statusOf other = some .called ∧ store.Carries other message)
    (hstatus : status ≠ .called) : (store.setStatus index status).Pending message := by
  rcases h with hbuffer | ⟨other, hne, hcalled, hcarries⟩
  · exact .inl hbuffer
  · refine .inr ⟨other, ?_, (Extends.setStatus store index hstatus).carries hcarries⟩
    rw [statusOf_setStatus, if_neg hne.symm]
    exact hcalled

/-- A batch that succeeds writes what it carries. -/
theorem Consistent.written_apply (h : store.Consistent rejected) {index : ℕ}
    (hcalled : store.statusOf index = some .called) (hcarries : store.Carries index message) :
    Written ⟨store.apply index, rejected⟩ message := by
  have hafter := h.apply index
  have hkept : index ∉ rejected := by
    intro hmem
    obtain ⟨batch, hbatch, hstatus⟩ := h.rejected index hmem
    rw [statusOf, Option.mem_def.1 hbatch] at hcalled
    exact hstatus (Option.some.inj hcalled)
  obtain ⟨batch, hbatch, hsubset⟩ := (Extends.apply store index).carries hcarries
  have hstatus : (store.apply index).statusOf index = some .applied := by
    obtain ⟨written, hwritten, -⟩ := exists_of_statusOf hcalled
    rw [AsyncStore.apply, hwritten]
    dsimp only
    rw [statusOf_setStatus, if_pos rfl, statusOf, AsyncStore.commit, hwritten]
    rfl
  obtain ⟨found, hfound, hfoundStatus⟩ := exists_of_statusOf hstatus
  obtain rfl := Option.some.inj (hfound.symm.trans hbatch)
  refine ⟨⟨index, hkept, by simp [hstatus], found, hbatch, hsubset⟩, hafter.inDatabase ?_⟩
  intro record hrecord
  exact hafter.applied index hkept found hbatch (by simp [hfoundStatus]) record (hsubset hrecord)

namespace FailingStore

variable {failing : FailingStore}

theorem recoverable_of_pending (h : failing.store.Consistent failing.rejected)
    (hpending : failing.store.Pending message) : failing.Recoverable message := by
  obtain ⟨batch, hcalled, hcarries⟩ := hpending.flush
  exact ⟨batch, hcalled, h.flush.written_apply hcalled hcarries⟩

/-- What is on its way stays so or arrives, as long as nothing fails. -/
theorem pending_or_written_task (h : failing.store.Consistent failing.rejected)
    (hpending : failing.store.Pending message) {event : AsyncStore.Event}
    (henabled : failing.store.Enabled event) :
    (failing.next (.task event)).store.Pending message ∨
      Written (failing.next (.task event)) message := by
  cases event with
  | save saved =>
    left
    have hpushed : (failing.store.push saved).Pending message :=
      hpending.imp_left fun hbuffer ↦ List.Subset.trans hbuffer (List.subset_append_left _ _)
    rw [next, AsyncStore.next, AsyncStore.save]
    split
    · exact .inr hpushed.flush
    · exact hpushed
  | flush => exact .inl (.inr hpending.flush)
  | timer => exact .inl (.inr hpending.flush)
  | read query => exact .inl (.inr hpending.flush)
  | apply index =>
    by_cases hcarries : failing.store.Carries index message
    · exact .inr (h.written_apply henabled hcarries)
    · left
      have helsewhere : recordsOf message ⊆ failing.store.writeBuffer ∨
          ∃ other ≠ index, failing.store.statusOf other = some .called ∧
            failing.store.Carries other message :=
        hpending.imp_right fun ⟨other, hcalled, hother⟩ ↦
          ⟨other, fun heq ↦ hcarries (heq ▸ hother), hcalled, hother⟩
      rw [next, AsyncStore.next, AsyncStore.apply]
      cases failing.store.batches[index]? with
      | none => exact hpending
      | some written => exact Pending.setStatus helsewhere (by simp)
  | complete index =>
    left
    refine Pending.setStatus (hpending.imp_right fun ⟨other, hcalled, hother⟩ ↦ ?_) (by simp)
    refine ⟨other, fun heq ↦ ?_, hcalled, hother⟩
    have happlied : failing.store.statusOf index = some .applied := henabled
    rw [heq, happlied] at hcalled
    cases hcalled
  | proceed index => exact .inl hpending

/-- A message that is saved is in the buffer, or in the batch that is called at once. -/
theorem pending_save (failing : FailingStore) (message : P2PMessage) :
    (failing.next (.task (.save message))).store.Pending message := by
  have hpushed : (failing.store.push message).Pending message :=
    .inl (List.subset_append_right _ _)
  rw [next, AsyncStore.next, AsyncStore.save]
  split
  · exact .inr hpushed.flush
  · exact hpushed

theorem saved_next (failing : FailingStore) (event : AsyncStore.Event)
    (hmem : message ∈ (failing.next (.task event)).store.saved) :
    message ∈ failing.store.saved ∨ event = .save message := by
  cases event with
  | save saved =>
    have hpushed : message ∈ (failing.store.push saved).saved := by
      rw [next, AsyncStore.next, AsyncStore.save] at hmem
      split at hmem
      · rwa [saved_flush] at hmem
      · exact hmem
    refine (List.mem_append.1 hpushed).imp_right fun hnew ↦ ?_
    rw [List.mem_singleton.1 hnew]
  | flush => exact .inl (by rwa [next, AsyncStore.next, saved_flush] at hmem)
  | timer => exact .inl (by rwa [next, AsyncStore.next, saved_flush] at hmem)
  | read query =>
    have hflushed : message ∈ failing.store.flush.1.saved := hmem
    exact .inl (by rwa [saved_flush] at hflushed)
  | apply index =>
    left
    rw [next, AsyncStore.next, AsyncStore.apply] at hmem
    cases hindex : failing.store.batches[index]? with
    | none => rwa [hindex] at hmem
    | some written =>
      rw [hindex] at hmem
      exact hmem
  | complete index => exact .inl hmem
  | proceed index => exact .inl hmem

theorem Keeps.task (h : failing.store.Consistent failing.rejected) (hkeeps : failing.Keeps)
    {event : AsyncStore.Event} (henabled : failing.store.Enabled event) :
    (failing.next (.task event)).Keeps := by
  have hafter : (failing.next (.task event)).store.Consistent failing.rejected := h.next henabled
  intro message hmem
  rcases failing.saved_next event hmem with hold | rfl
  · rcases hkeeps message hold with ⟨hpending, -⟩ | hwritten
    · refine (pending_or_written_task h hpending henabled).imp_left fun hnext ↦ ?_
      exact ⟨hnext, recoverable_of_pending hafter hnext⟩
    · exact .inr (hwritten.task (.next failing.store event) hafter)
  · have hnew := failing.pending_save message
    exact .inl ⟨hnew, recoverable_of_pending hafter hnew⟩

/-- What the rejected batch carries is elsewhere on its way afterwards if it was before. -/
theorem pending_reject_iff {index : ℕ} (hcalled : failing.store.statusOf index = some .called) :
    (failing.next (.reject index)).store.Pending message ↔
      recordsOf message ⊆ failing.store.writeBuffer ∨
        ∃ other ≠ index, failing.store.statusOf other = some .called ∧
          failing.store.Carries other message := by
  constructor
  · refine Or.imp_right fun ⟨other, hother, hcarries⟩ ↦ ?_
    rw [next, statusOf_setStatus] at hother
    by_cases heq : index = other
    · rw [if_pos heq, ← heq, hcalled] at hother
      cases hother
    · rw [if_neg heq] at hother
      obtain ⟨batch, hbatch, hsubset⟩ := hcarries
      rw [next, AsyncStore.setStatus, List.getElem?_modify] at hbatch
      obtain ⟨before, hbefore, rfl⟩ := Option.map_eq_some_iff.1 hbatch
      rw [if_neg heq] at hsubset
      exact ⟨other, Ne.symm heq, hother, before, hbefore, hsubset⟩
  · exact fun h ↦ Pending.setStatus h (by simp)

theorem Written.reject {index : ℕ} (h : Written failing message)
    (hcalled : failing.store.statusOf index = some .called)
    (hafter : (failing.next (.reject index)).store.Consistent (index :: failing.rejected)) :
    Written (failing.next (.reject index)) message := by
  obtain ⟨⟨other, hkept, hstatus, hcarries⟩, hdatabase⟩ := h
  have hne : other ≠ index := fun heq ↦ hstatus (heq ▸ hcalled)
  have hextends := Extends.setStatus failing.store index (by simp : BatchStatus.completed ≠ .called)
  refine ⟨⟨other, ?_, hextends.statusOf_ne hcarries hstatus, hextends.carries hcarries⟩, ?_⟩
  · exact List.not_mem_cons_of_ne_of_not_mem hne hkept
  · exact hafter.inDatabase hdatabase.bound

/-- The step lemma. -/
theorem keeps_next_iff (h : failing.store.Consistent failing.rejected) (hkeeps : failing.Keeps)
    {event : Event} (henabled : failing.Enabled event) :
    (failing.next event).Keeps ∧ failing.Requeues event ↔ failing.SavedAgain event := by
  cases event with
  | task event => exact iff_of_true ⟨hkeeps.task h henabled, trivial⟩ trivial
  | reject index =>
    have hcalled : failing.store.statusOf index = some .called := henabled
    have hafter : (failing.next (.reject index)).store.Consistent
        (failing.next (.reject index)).rejected := h.reject hcalled
    constructor
    · rintro ⟨-, hrequeues⟩ message hmem hcarries
      exact (pending_reject_iff hcalled).1 (hrequeues message hmem hcarries).1
    · intro hagain
      have hpending (message : P2PMessage) (hmem : message ∈ failing.store.saved)
          (hcarries : failing.store.Carries index message) :
          (failing.next (.reject index)).store.Pending message :=
        (pending_reject_iff hcalled).2 (hagain message hmem hcarries)
      constructor
      · intro message hmem
        by_cases hcarries : failing.store.Carries index message
        · have hnext := hpending message hmem hcarries
          exact .inl ⟨hnext, recoverable_of_pending hafter hnext⟩
        rcases hkeeps message hmem with ⟨hbefore, -⟩ | hwritten
        · have hnext := (pending_reject_iff hcalled).2 (hbefore.imp_right
            fun ⟨other, hother, hothers⟩ ↦
              ⟨other, fun heq ↦ hcarries (heq ▸ hothers), hother, hothers⟩)
          exact .inl ⟨hnext, recoverable_of_pending hafter hnext⟩
        · exact .inr (Written.reject hwritten hcalled hafter)
      · intro message hmem hcarries
        have hnext := hpending message hmem hcarries
        exact ⟨hnext, recoverable_of_pending hafter hnext⟩

/-- All along a run every saved message is on its way to the database or in it, and after each
failure what failed is on its way again, exactly if all that a rejected batch carries was saved
another time and is still to be written. -/
theorem keeps_iff_savedAgain {events : List Event} {last : FailingStore}
    (h : system.Run new events last) :
    (∀ before event, before ++ [event] <+: events →
      ((before ++ [event]).foldl next new).Keeps ∧ (before.foldl next new).Requeues event) ↔
      system.GuardedRun SavedAgain new events last := by
  have hinv (failing : FailingStore) (event : Event)
      (hbefore : failing.store.Consistent failing.rejected) (henabled : failing.Enabled event) :
      (failing.next event).store.Consistent (failing.next event).rejected := by
    cases event with
    | task event => exact hbefore.next henabled
    | reject index => exact hbefore.reject henabled
  have hstep (failing : FailingStore) (event : Event)
      (hbefore : failing.store.Consistent failing.rejected) (hkeeps : failing.Keeps)
      (henabled : failing.Enabled event) :
      (failing.next event).Keeps ∧ failing.Requeues event ↔ failing.SavedAgain event :=
    keeps_next_iff hbefore hkeeps henabled
  have hnew : new.Keeps := fun message hmem ↦ by cases hmem
  exact h.forall_step_iff hinv hstep consistent_new hnew

/-! ## One message -/

/-- The only batch is rejected. -/
def failedFlush : List Event :=
  [.task (.save (chatOn "global" "m0" 1)), .task .timer, .reject 0]

/-- The message is saved another time before its batch is rejected. -/
def savedTwice : List Event :=
  [.task (.save (chatOn "global" "m0" 1)), .task .timer, .task (.save (chatOn "global" "m0" 1)),
    .reject 0]

theorem keeps_iff_savedAgain_savedTwice : (savedTwice.foldl next new).Keeps := by
  have hagain : ((savedTwice.take 3).foldl next new).SavedAgain (.reject 0) := by
    intro message hmem _
    left
    have hsaved : message ∈ [chatOn "global" "m0" 1, chatOn "global" "m0" 1] := hmem
    obtain rfl : message = chatOn "global" "m0" 1 := by simpa using hsaved
    exact List.Subset.refl _
  have hguarded : system.GuardedRun SavedAgain new savedTwice (savedTwice.foldl next new) :=
    TransitionSystem.guardedRun_ofNext ⟨⟨by decide, trivial⟩, ⟨by decide, trivial⟩,
      ⟨by decide, trivial⟩, ⟨by decide, hagain⟩, trivial⟩
  exact ((keeps_iff_savedAgain hguarded.run).2 hguarded (savedTwice.take 3) (.reject 0)
    (List.prefix_refl _)).1

theorem not_keeps_failedFlush :
    ¬∀ events last, system.Run new events last → last.Keeps := by
  intro h
  have hrun : system.Run new failedFlush (failedFlush.foldl next new) :=
    TransitionSystem.run_ofNext (by decide)
  have hsaved : chatOn "global" "m0" 1 ∈ (failedFlush.foldl next new).store.saved := by
    decide
  have hbatches : (failedFlush.foldl next new).store.batches =
      [⟨recordsOf (chatOn "global" "m0" 1), .completed⟩] := rfl
  rcases h _ _ hrun _ hsaved with ⟨hbuffer | ⟨index, hcalled, -⟩, -⟩ | ⟨-, ⟨other, -, -, hkey⟩, -⟩
  · exact recordsOf_ne_nil _ hbuffer
  · rw [statusOf, hbatches] at hcalled
    cases index <;> cases hcalled
  · cases hkey

end FailingStore

end AsyncStore

end P2PApp
