import P2PApp.Storage.ReadYourWrites

/-!
# Writing behind

The message store with the clock and its timeouts. The timer is armed by the first `save` into an
empty buffer, and disarmed by whoever flushes: the timer itself, a `save` that fills the buffer, a
read. Between any two tasks of the event loop there is a timeout exactly if something is buffered,
and it is due no later than `FLUSH_INTERVAL_MS` after the oldest of it was saved. Timeouts expire
on time, so that no time passes while one is due.

Apart from its timeouts the store is that of the reads and writes in flight.
-/

namespace P2PApp

/-- A timeout that has neither expired nor been cleared. -/
structure FlushTimer where
  handle : ℕ
  due : ℕ
  deriving DecidableEq, Repr

structure TimedStore where
  store : AsyncStore
  now : ℕ
  /-- The last handle that `setTimeout` returned, the one in `batchTimer` unless that is null. -/
  handle : ℕ
  timers : List FlushTimer
  /-- The messages with which `save` was invoked, and when. -/
  log : List (P2PMessage × ℕ)

namespace TimedStore

open MessageStore AsyncStore

def FLUSH_INTERVAL_MS : ℕ := 100

inductive Event
  /-- A call of `save`, `flush` or a read, or a step of the database or of a read. -/
  | task (event : AsyncStore.Event)
  /-- The callback of a timeout. -/
  | expire (handle : ℕ)
  | elapse (duration : ℕ)

def new : TimedStore := ⟨.new, 0, 0, [], []⟩

/-- The timeouts that a flush leaves: with something to write, `clearTimeout(this.batchTimer)`. -/
def flushTimers (timed : TimedStore) : List FlushTimer :=
  if timed.store.writeBuffer = [] then timed.timers
  else if timed.store.batchTimer then timed.timers.filter fun timer ↦ timer.handle ≠ timed.handle
  else timed.timers

def flush (timed : TimedStore) : TimedStore :=
  { timed with store := timed.store.flush.1, timers := timed.flushTimers }

/-- `this.batchTimer = setTimeout(() => this.flush(), this.FLUSH_INTERVAL_MS)`. -/
def arm (timed : TimedStore) : TimedStore :=
  { timed with
    store := { timed.store with batchTimer := true }
    handle := timed.handle + 1
    timers := timed.timers ++ [⟨timed.handle + 1, timed.now + FLUSH_INTERVAL_MS⟩] }

def push (timed : TimedStore) (message : P2PMessage) : TimedStore :=
  { timed with store := timed.store.push message, log := timed.log ++ [(message, timed.now)] }

def save (timed : TimedStore) (message : P2PMessage) : TimedStore :=
  let timed := timed.push message
  if MAX_BUFFER_SIZE ≤ timed.store.writeBuffer.length then timed.flush
  else if timed.store.batchTimer then timed
  else timed.arm

def next (timed : TimedStore) : Event → TimedStore
  | .task (.save message) => timed.save message
  | .task .flush => timed.flush
  | .task (.read query) =>
    { timed with store := timed.store.invoke query, timers := timed.flushTimers }
  | .task event => { timed with store := timed.store.next event }
  | .expire handle =>
    { timed with timers := timed.timers.filter fun timer ↦ timer.handle ≠ handle }.flush
  | .elapse duration => { timed with now := timed.now + duration }

def Enabled (timed : TimedStore) : Event → Prop
  | .task .timer => False
  | .task event => timed.store.Enabled event
  | .expire handle => ∃ timer ∈ timed.timers, timer.handle = handle ∧ timer.due ≤ timed.now
  | .elapse duration => ∀ timer ∈ timed.timers, timed.now + duration ≤ timer.due

/-- A message store on the event loop, under all interleavings. -/
def system : TransitionSystem TimedStore Event := .ofNext Enabled next

/-- The messages that are saved in a run, in order. -/
def saves : List Event → List P2PMessage
  | [] => []
  | .task (.save message) :: events => message :: saves events
  | _ :: events => saves events

/-- The puts that some saves generate. -/
def puts (entries : List (P2PMessage × ℕ)) : List (String × StoredValue) :=
  entries.flatMap fun entry ↦ recordsOf entry.1

/-! ## What is buffered -/

/-- Every message is in one of the batches, which are `groups`, or pending in the buffer. -/
structure Records (timed : TimedStore) (groups : List (List (P2PMessage × ℕ)))
    (pending : List (P2PMessage × ℕ)) : Prop where
  log : groups.flatten ++ pending = timed.log
  batches : timed.store.batches.map WriteBatch.writes = groups.map puts
  buffer : timed.store.writeBuffer = puts pending

/-- Only the timer in `batchTimer` can still expire. -/
def Live (timed : TimedStore) : Prop :=
  ∀ timer ∈ timed.timers, timer.handle = timed.handle ∧ timed.store.batchTimer = true

/-- The timer is armed while something is pending, for no later than that has to be written. -/
structure Armed (timed : TimedStore) (pending : List (P2PMessage × ℕ)) : Prop where
  small : timed.store.writeBuffer.length < MAX_BUFFER_SIZE
  past : ∀ entry ∈ pending, entry.2 ≤ timed.now
  flag : timed.store.batchTimer = true ↔ pending ≠ []
  idle : pending = [] → timed.timers = []
  due : pending ≠ [] → ∃ due, timed.timers = [⟨timed.handle, due⟩] ∧ timed.now ≤ due ∧
    ∀ entry ∈ pending, due ≤ entry.2 + FLUSH_INTERVAL_MS

instance (timed : TimedStore) : DecidablePred timed.Enabled := fun event ↦
  match event with
  | .task (.save message) => inferInstanceAs (Decidable (timed.store.Enabled (.save message)))
  | .task .flush => inferInstanceAs (Decidable (timed.store.Enabled .flush))
  | .task .timer => inferInstanceAs (Decidable False)
  | .task (.read query) => inferInstanceAs (Decidable (timed.store.Enabled (.read query)))
  | .task (.apply batch) => inferInstanceAs (Decidable (timed.store.Enabled (.apply batch)))
  | .task (.complete batch) => inferInstanceAs (Decidable (timed.store.Enabled (.complete batch)))
  | .task (.proceed index) => inferInstanceAs (Decidable (timed.store.Enabled (.proceed index)))
  | .expire handle =>
    inferInstanceAs (Decidable (∃ timer ∈ timed.timers, timer.handle = handle ∧
      timer.due ≤ timed.now))
  | .elapse duration =>
    inferInstanceAs (Decidable (∀ timer ∈ timed.timers, timed.now + duration ≤ timer.due))

variable {timed : TimedStore} {groups : List (List (P2PMessage × ℕ))}
  {pending : List (P2PMessage × ℕ)}

theorem puts_eq_nil_iff : puts pending = [] ↔ pending = [] := by
  cases pending <;> simp [puts, recordsOf]

theorem puts_append (entries more : List (P2PMessage × ℕ)) :
    puts (entries ++ more) = puts entries ++ puts more := List.flatMap_append

theorem puts_flatten (groups : List (List (P2PMessage × ℕ))) :
    puts groups.flatten = (groups.map puts).flatten := by
  induction groups with
  | nil => rfl
  | cons group groups ih =>
    rw [List.flatten_cons, puts_append, ih, List.map_cons, List.flatten_cons]

theorem Armed.live (h : Armed timed pending) : Live timed := by
  intro timer htimer
  by_cases hpending : pending = []
  · rw [h.idle hpending] at htimer
    cases htimer
  · obtain ⟨due, htimers, _⟩ := h.due hpending
    rw [htimers, List.mem_singleton] at htimer
    exact ⟨htimer ▸ rfl, h.flag.2 hpending⟩

theorem flush_of_nil (hrecords : Records timed groups []) : timed.flush = timed := by
  have hbuffer : timed.store.writeBuffer = [] := hrecords.buffer
  unfold flush flushTimers
  rw [AsyncStore.flush_fst_of_nil hbuffer, if_pos hbuffer]

/-- A flush hands everything that is pending to the database, as one batch, and leaves no timer. -/
theorem flush_of_pending (hrecords : Records timed groups pending) (hlive : Live timed)
    (hpending : pending ≠ []) :
    Records timed.flush (groups ++ [pending]) [] ∧ Armed timed.flush [] := by
  have hbuffer : timed.store.writeBuffer ≠ [] := by
    rw [hrecords.buffer]
    exact fun h ↦ hpending (puts_eq_nil_iff.1 h)
  have hstore := AsyncStore.flush_fst_of_ne_nil hbuffer
  have htimers : timed.flushTimers = [] := by
    unfold flushTimers
    rw [if_neg hbuffer]
    refine List.eq_nil_iff_forall_not_mem.2 fun timer htimer ↦ ?_
    split at htimer
    · obtain ⟨hmem, hother⟩ := List.mem_filter.1 htimer
      exact of_decide_eq_true hother (hlive timer hmem).1
    · rename_i hnone
      exact hnone (hlive timer htimer).2
  have hempty : timed.flush.store.writeBuffer = [] := AsyncStore.writeBuffer_flush _
  refine ⟨⟨?_, ?_, hempty⟩, ⟨?_, by simp, ?_, fun _ ↦ htimers, fun h ↦ absurd rfl h⟩⟩
  · simpa [flush] using hrecords.log
  · simp [flush, hstore, hrecords.batches, hrecords.buffer]
  · rw [hempty]
    decide
  · rw [flush, hstore]
    simp

theorem Records.push (h : Records timed groups pending) (message : P2PMessage) :
    Records (timed.push message) groups (pending ++ [(message, timed.now)]) where
  log := by
    rw [← List.append_assoc, h.log]
    rfl
  batches := h.batches
  buffer := by
    rw [puts_append, ← h.buffer]
    simp [TimedStore.push, AsyncStore.push, puts]

/-- Every message is accounted for, and what is pending will be written in time. -/
def Accounted (timed : TimedStore) : Prop :=
  ∃ groups pending, Records timed groups pending ∧ Armed timed pending

theorem accounted_new : Accounted new :=
  ⟨[], [], ⟨rfl, rfl, rfl⟩, by decide, by simp, by decide, fun _ ↦ rfl, fun h ↦ absurd rfl h⟩

/-- Nothing else of the store matters. -/
theorem Accounted.setStore (h : Accounted timed) {store : AsyncStore}
    (hbuffer : store.writeBuffer = timed.store.writeBuffer)
    (hflag : store.batchTimer = timed.store.batchTimer)
    (hbatches : store.batches.map WriteBatch.writes =
      timed.store.batches.map WriteBatch.writes) : Accounted { timed with store } := by
  obtain ⟨groups, pending, hrecords, harmed⟩ := h
  exact ⟨groups, pending, ⟨hrecords.log, hbatches.trans hrecords.batches,
    hbuffer.trans hrecords.buffer⟩, hbuffer ▸ harmed.small, harmed.past, hflag ▸ harmed.flag,
    harmed.idle, harmed.due⟩

theorem Accounted.flush (h : Accounted timed) : Accounted timed.flush := by
  obtain ⟨groups, pending, hrecords, harmed⟩ := h
  by_cases hpending : pending = []
  · subst hpending
    rw [flush_of_nil hrecords]
    exact ⟨groups, [], hrecords, harmed⟩
  · exact ⟨_, [], flush_of_pending hrecords harmed.live hpending⟩

theorem Accounted.save (h : Accounted timed) (message : P2PMessage) :
    Accounted (timed.save message) := by
  obtain ⟨groups, pending, hrecords, harmed⟩ := h
  have hpushed := hrecords.push message
  have hpast (entry) (hentry : entry ∈ pending ++ [(message, timed.now)]) :
      entry.2 ≤ timed.now := by
    rcases List.mem_append.1 hentry with hold | hnew
    · exact harmed.past entry hold
    · rw [List.mem_singleton.1 hnew]
  unfold TimedStore.save
  dsimp only
  split
  · exact ⟨_, [], flush_of_pending hpushed harmed.live (by simp)⟩
  rename_i hroom
  split
  · rename_i hflag
    obtain ⟨due, htimers, hnow, hdue⟩ := harmed.due (harmed.flag.1 hflag)
    refine ⟨groups, _, hpushed, not_le.1 hroom, hpast, ?_, by simp, fun _ ↦ ?_⟩
    · exact iff_of_true hflag (by simp)
    · refine ⟨due, htimers, hnow, ?_⟩
      intro entry hentry
      rcases List.mem_append.1 hentry with hold | hnew
      · exact hdue entry hold
      · -- The new message is younger than those the timer was armed for.
        obtain ⟨oldest, holdest⟩ := List.exists_mem_of_ne_nil _ (harmed.flag.1 hflag)
        rw [List.mem_singleton.1 hnew]
        exact (hdue oldest holdest).trans (Nat.add_le_add_right (harmed.past oldest holdest) _)
  · rename_i hflag
    have hnone : pending = [] := by
      by_contra hpending
      exact hflag (harmed.flag.2 hpending)
    subst hnone
    refine ⟨groups, _, ⟨hpushed.log, hpushed.batches, hpushed.buffer⟩, not_le.1 hroom, hpast,
      iff_of_true rfl (by simp), by simp, fun _ ↦ ⟨timed.now + FLUSH_INTERVAL_MS, ?_, ?_, ?_⟩⟩
    · show timed.timers ++ _ = _
      rw [harmed.idle rfl]
      rfl
    · exact Nat.le_add_right _ _
    · intro entry hentry
      rw [List.mem_singleton.1 hentry]

theorem map_writes_setStatus (store : AsyncStore) (batch : ℕ) (status : BatchStatus) :
    (store.setStatus batch status).batches.map WriteBatch.writes =
      store.batches.map WriteBatch.writes := by
  refine List.ext_getElem? fun index ↦ ?_
  simp only [setStatus, List.getElem?_map, List.getElem?_modify]
  split
  · cases store.batches[index]? <;> rfl
  · simp

/-- One event at a time. -/
theorem Accounted.next (h : Accounted timed) {event : Event} (henabled : timed.Enabled event) :
    Accounted (timed.next event) := by
  cases event with
  | task event =>
    cases event with
    | save message => exact h.save message
    | flush => exact h.flush
    | timer => exact henabled.elim
    | read query => exact h.flush.setStore rfl rfl rfl
    | apply batch =>
      refine h.setStore ?_ ?_ ?_ <;> unfold AsyncStore.next AsyncStore.apply <;> dsimp only
      · split <;> rfl
      · split <;> rfl
      · split
        · rfl
        · exact map_writes_setStatus _ _ _
    | complete batch => exact h.setStore rfl rfl (map_writes_setStatus _ _ _)
    | proceed index => exact h.setStore rfl rfl rfl
  | expire handle =>
    obtain ⟨groups, pending, hrecords, harmed⟩ := h
    obtain ⟨timer, htimer, -⟩ := henabled
    have hpending : pending ≠ [] := harmed.flag.1 (harmed.live timer htimer).2
    refine ⟨_, [], flush_of_pending ⟨hrecords.log, hrecords.batches, hrecords.buffer⟩ ?_ hpending⟩
    intro other hother
    exact harmed.live other (List.mem_filter.1 hother).1
  | elapse duration =>
    obtain ⟨groups, pending, hrecords, harmed⟩ := h
    refine ⟨groups, pending, ⟨hrecords.log, hrecords.batches, hrecords.buffer⟩, harmed.small,
      fun entry hentry ↦ (harmed.past entry hentry).trans (Nat.le_add_right _ _), harmed.flag,
      harmed.idle, fun hpending ↦ ?_⟩
    obtain ⟨due, htimers, hnow, hdue⟩ := harmed.due hpending
    refine ⟨due, htimers, ?_, hdue⟩
    exact henabled ⟨timed.handle, due⟩ (htimers ▸ List.mem_singleton.2 rfl)

/-! ## The store of the reads and writes in flight -/

theorem store_save (timed : TimedStore) (message : P2PMessage) :
    (timed.save message).store = timed.store.save message := by
  unfold TimedStore.save AsyncStore.save
  dsimp only
  split
  · rename_i hfull
    rw [if_pos (show MAX_BUFFER_SIZE ≤ (timed.store.push message).writeBuffer.length from hfull)]
    rfl
  · rename_i hroom
    rw [if_neg (show ¬MAX_BUFFER_SIZE ≤ (timed.store.push message).writeBuffer.length from hroom)]
    split
    · rename_i hflag
      have hset : (timed.store.push message).batchTimer = true := hflag
      calc (timed.push message).store
          = { timed.store.push message with
              batchTimer := (timed.store.push message).batchTimer } := rfl
        _ = _ := by rw [hset]
    · rfl

/-- Without clock and timeouts, an event is one of the store, or none. -/
theorem Accounted.store_next (h : Accounted timed) {event : Event}
    (henabled : timed.Enabled event) : (timed.next event).store = timed.store ∨
      ∃ task, AsyncStore.system.step timed.store task (timed.next event).store := by
  cases event with
  | task event =>
    right
    refine ⟨event, ?_⟩
    cases event with
    | save message => exact ⟨trivial, store_save timed message⟩
    | flush => exact ⟨trivial, rfl⟩
    | timer => exact henabled.elim
    | read query => exact ⟨trivial, rfl⟩
    | apply batch => exact ⟨henabled, rfl⟩
    | complete batch => exact ⟨henabled, rfl⟩
    | proceed index => exact ⟨henabled, rfl⟩
  | expire handle =>
    obtain ⟨groups, pending, _, harmed⟩ := h
    obtain ⟨timer, htimer, -⟩ := henabled
    exact .inr ⟨.timer, (harmed.live timer htimer).2, rfl⟩
  | elapse duration => exact .inl rfl

theorem accounted_run {events : List Event} (h : system.Run new events timed) : Accounted timed :=
  h.invariant_next (fun _ _ haccounted henabled ↦ haccounted.next henabled) accounted_new

/-- Without clock and timeouts, every run is a run of the store with its reads and writes. -/
theorem exists_store_run {events : List Event} (h : system.Run new events timed) :
    ∃ tasks, AsyncStore.system.Run .new tasks timed.store := by
  induction h with
  | nil => exact ⟨[], .nil _⟩
  | snoc hbefore hstep ih =>
    obtain ⟨tasks, hrun⟩ := ih
    obtain ⟨henabled, rfl⟩ := hstep
    rcases (accounted_run hbefore).store_next henabled with hsame | ⟨task, htask⟩
    · exact ⟨tasks, hsame.symm ▸ hrun⟩
    · exact ⟨tasks ++ [task], .snoc hrun htask⟩

/-! ## Over whole runs -/

theorem saves_append (events more : List Event) :
    saves (events ++ more) = saves events ++ saves more := by
  induction events with
  | nil => rfl
  | cons event events ih =>
    cases event with
    | task event => cases event <;> simp [saves, ih]
    | expire handle => exact ih
    | elapse duration => exact ih

theorem log_next (timed : TimedStore) (event : Event) :
    (timed.next event).log.map Prod.fst = timed.log.map Prod.fst ++ saves [event] := by
  cases event with
  | task event =>
    cases event with
    | save message =>
      have hlog : (timed.save message).log = timed.log ++ [(message, timed.now)] := by
        unfold TimedStore.save
        dsimp only
        split
        · rfl
        · split <;> rfl
      rw [TimedStore.next, hlog, List.map_append]
      rfl
    | _ => exact (List.append_nil _).symm
  | expire handle => exact (List.append_nil _).symm
  | elapse duration => exact (List.append_nil _).symm

/-- The timer is armed exactly while something is buffered, the buffer is below its limit, and the
batches, followed by the buffer, are the pairs of puts of all saves in order, each pair in one
piece. What is still buffered was saved no longer ago than the interval of the timer. -/
structure WritesBehind (events : List Event) (timed : TimedStore) : Prop where
  flag : timed.store.batchTimer = true ↔ timed.store.writeBuffer ≠ []
  timers : timed.timers.length = if timed.store.writeBuffer = [] then 0 else 1
  small : timed.store.writeBuffer.length < MAX_BUFFER_SIZE
  ordered : timed.store.batches.flatMap WriteBatch.writes ++ timed.store.writeBuffer =
    (saves events).flatMap recordsOf
  whole : ∃ (groups : List (List (P2PMessage × ℕ))) (pending : List (P2PMessage × ℕ)),
    groups.flatten ++ pending = timed.log ∧ timed.log.map Prod.fst = saves events ∧
    timed.store.batches.map WriteBatch.writes = groups.map puts ∧
    timed.store.writeBuffer = puts pending ∧
    ∀ entry ∈ pending, timed.now ≤ entry.2 + FLUSH_INTERVAL_MS

theorem writesBehind {events : List Event} (h : system.Run new events timed) :
    WritesBehind events timed := by
  have hlog : timed.log.map Prod.fst = saves events := by
    induction h with
    | nil => rfl
    | snoc _ hstep ih => rw [hstep.2, log_next, ih, saves_append]
  obtain ⟨groups, pending, hrecords, harmed⟩ := accounted_run h
  have hempty : timed.store.writeBuffer = [] ↔ pending = [] := by
    rw [hrecords.buffer, puts_eq_nil_iff]
  refine ⟨harmed.flag.trans (not_congr hempty).symm, ?_, harmed.small, ?_, groups, pending,
    hrecords.log, hlog, hrecords.batches, hrecords.buffer, ?_⟩
  · by_cases hpending : pending = []
    · rw [if_pos (hempty.2 hpending), harmed.idle hpending]
      rfl
    · obtain ⟨due, htimers, -⟩ := harmed.due hpending
      rw [if_neg (fun h ↦ hpending (hempty.1 h)), htimers]
      rfl
  · calc timed.store.batches.flatMap WriteBatch.writes ++ timed.store.writeBuffer
        = (groups.map puts).flatten ++ puts pending := by
          rw [List.flatMap_def, hrecords.batches, hrecords.buffer]
      _ = puts (groups.flatten ++ pending) := by
          rw [puts_append, puts_flatten]
      _ = (saves events).flatMap recordsOf := by
          rw [hrecords.log, ← hlog, List.flatMap_map]
          rfl
  · intro entry hentry
    obtain ⟨due, _, hnow, hdue⟩ := harmed.due (List.ne_nil_of_mem hentry)
    exact hnow.trans (hdue entry hentry)

/-- Two messages that the timer of the first one writes. -/
def twoSaves : List Event :=
  [.task (.save (chatOn "news" "a" 1)), .elapse 60, .task (.save (chatOn "news" "b" 2)),
    .elapse 40, .expire 1]

theorem writesBehind_twoSaves : WritesBehind twoSaves (twoSaves.foldl next new) :=
  writesBehind (TransitionSystem.run_ofNext (by decide +kernel))

end TimedStore

end P2PApp
