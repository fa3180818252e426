import P2PApp.Library.LexicographicRange
import P2PApp.Library.SortedMap
import P2PApp.Protocol.Message

/-!
# The message store

Messages under the key `msg:<topic>:<padded stamp>:<id>` in a database that iterates its keys in
byte order, which for Unicode text is the order of the characters. Writes are buffered and
committed in batches. A range scan for a topic finds its own messages, and also every message of
another topic whose key happens to lie between the bounds; which ones these are is read off the
keys.
-/

namespace P2PApp

/-- The value of a `msg:` key, or of an `id:` key. -/
inductive StoredValue
  | message (message : P2PMessage)
  | reference (key : String)
  deriving DecidableEq

def StoredValue.message? : StoredValue → Option P2PMessage
  | .message stored => some stored
  | .reference _ => none

structure MessageStore where
  db : SortedMap String StoredValue
  writeBuffer : List (String × StoredValue)

namespace MessageStore

def MAX_BUFFER_SIZE : ℕ := 50

def new : MessageStore := ⟨∅, []⟩

/-- `String(timestamp).padStart(15, '0')`. -/
def padStart (timestamp : ℕ) : String :=
  String.ofList ((Nat.toDigits 10 timestamp).leftpad 15 '0')

def makeKey (topic : String) (lamportTimestamp : ℕ) (messageId : String) : String :=
  "msg:" ++ topic ++ ":" ++ padStart lamportTimestamp ++ ":" ++ messageId

def keyOf (message : P2PMessage) : String :=
  makeKey message.topic message.lamportTimestamp message.id

/-- Commit the buffered writes in their order. -/
def flush (store : MessageStore) : MessageStore where
  db := store.writeBuffer.foldl (fun db write ↦ db.put write.1 write.2) store.db
  writeBuffer := []

def save (store : MessageStore) (message : P2PMessage) : MessageStore :=
  let key := keyOf message
  let store := { store with
    writeBuffer := store.writeBuffer ++
      [(key, .message message), ("id:" ++ message.id, .reference key)] }
  if MAX_BUFFER_SIZE ≤ store.writeBuffer.length then store.flush else store

/-- The messages under the keys of a closed range, in the order of the keys. -/
def scan (store : MessageStore) (startKey endKey : String) : List P2PMessage :=
  (store.db.range startKey endKey).filterMap fun entry ↦ entry.2.message?

/-- The scan behind `getByTopic`, which flushes the buffer first. -/
def getByTopic (store : MessageStore) (topic : String) (sinceTimestamp : ℕ) :
    List P2PMessage × MessageStore :=
  let store := store.flush
  let startKey := "msg:" ++ topic ++ ":" ++ padStart sinceTimestamp ++ ":"
  let endKey := "msg:" ++ topic ++ ":~"
  ((store.scan startKey endKey).filter fun message ↦
    sinceTimestamp < message.lamportTimestamp, store)

/-- `messages.slice(-limit)`, which for zero is the whole list. -/
def sliceLast (limit : ℕ) (messages : List P2PMessage) : List P2PMessage :=
  if limit = 0 then messages else messages.drop (messages.length - limit)

/-- `getRecentMessages` of the node, which scans the same database. -/
def getRecentMessages (store : MessageStore) (topic : String) (limit : ℕ) :
    List P2PMessage × MessageStore :=
  let store := store.flush
  let startKey := "msg:" ++ topic ++ ":"
  let endKey := "msg:" ++ topic ++ ":~"
  (sliceLast limit ((store.scan startKey endKey).filter fun message ↦ message.type = .chat),
    store)

/-- What happens to a store: a message is saved, or the timer commits the buffer. -/
inductive Event
  | save (message : P2PMessage)
  | flush
  deriving DecidableEq

def apply (store : MessageStore) : Event → MessageStore
  | .save message => store.save message
  | .flush => store.flush

def run (store : MessageStore) (events : List Event) : MessageStore := events.foldl apply store

/-- The messages saved by a sequence of events, in order. -/
def saved (events : List Event) : List P2PMessage :=
  events.filterMap fun
    | .save message => some message
    | .flush => none

/-- The saved messages whose key no later one has overwritten. -/
def survivors (messages : List P2PMessage) : List P2PMessage :=
  messages.foldl
    (fun kept message ↦ (kept.filter fun older ↦ keyOf older ≠ keyOf message) ++ [message]) []

/-! ## The committed contents -/

theorem survivors_concat (messages : List P2PMessage) (last : P2PMessage) :
    survivors (messages ++ [last]) =
      ((survivors messages).filter fun older ↦ keyOf older ≠ keyOf last) ++ [last] := by
  rw [survivors, List.foldl_append]
  rfl

/-- The index entries are no message entries. -/
theorem keyOf_ne_reference (message : P2PMessage) (id : String) :
    keyOf message ≠ "id:" ++ id := by
  intro h
  have hlist := congrArg (fun text ↦ text.toList.head?) h
  simp [keyOf, makeKey, String.toList_append] at hlist

/-- What a `save` adds to the committed contents. -/
theorem db_flush_save (store : MessageStore) (message : P2PMessage) :
    (store.save message).flush.db =
      (store.flush.db.put (keyOf message) (.message message)).put ("id:" ++ message.id)
        (.reference (keyOf message)) := by
  unfold save
  dsimp only
  split <;> simp [flush, List.foldl_append]

/-- After all writes are committed the database holds the survivors under their keys. -/
theorem mem_db_run (events : List Event) (key : String) (message : P2PMessage) :
    (key, .message message) ∈ (new.run events).flush.db.entries ↔
      message ∈ survivors (saved events) ∧ key = keyOf message := by
  induction events using List.reverseRecOn with
  | nil => simp [run, new, flush, saved, survivors]
  | append_singleton events last ih =>
    have hrun : new.run (events ++ [last]) = (new.run events).apply last := by
      rw [run, List.foldl_append]
      rfl
    rw [hrun]
    cases last with
    | flush =>
      have hsaved : saved (events ++ [.flush]) = saved events := by simp [saved]
      rw [hsaved]
      exact ih
    | save newest =>
      have hsaved : saved (events ++ [.save newest]) = saved events ++ [newest] := by
        simp [saved]
      rw [hsaved, survivors_concat, apply, db_flush_save, SortedMap.mem_entries_put,
        SortedMap.mem_entries_put, ih]
      simp only [Prod.mk.injEq, reduceCtorEq, and_false, false_or, List.mem_append,
        List.mem_filter, decide_eq_true_eq, List.mem_singleton, StoredValue.message.injEq]
      constructor
      · rintro ⟨h, _⟩
        rcases h with ⟨hkey, heq⟩ | ⟨⟨hmem, hkey⟩, hne⟩
        · exact ⟨.inr heq, heq ▸ hkey⟩
        · exact ⟨.inl ⟨hmem, hkey ▸ hne⟩, hkey⟩
      · rintro ⟨h, hkey⟩
        refine ⟨?_, hkey ▸ keyOf_ne_reference message newest.id⟩
        rcases h with ⟨hmem, hne⟩ | heq
        · exact .inr ⟨⟨hmem, hkey⟩, hkey ▸ hne⟩
        · exact .inl ⟨heq ▸ hkey, heq⟩

/-! ## Range scans -/

/-- The key of the message reads as a key of the topic with something from `low` to `~` behind. -/
def Captured (topic low : String) (message : P2PMessage) : Prop :=
  ∃ rest, message.topic ++ ":" ++ padStart message.lamportTimestamp ++ ":" ++ message.id =
    topic ++ ":" ++ rest ∧ low ≤ rest ∧ rest ≤ "~"

theorem mem_scan {store : MessageStore} {startKey endKey : String} {message : P2PMessage} :
    message ∈ store.scan startKey endKey ↔
      ∃ key, (key, .message message) ∈ store.db.entries ∧ startKey ≤ key ∧ key ≤ endKey := by
  have hentry (entry : String × StoredValue) : entry.2.message? = some message ↔
      entry.2 = .message message := by
    cases entry.2 <;> simp [StoredValue.message?]
  rw [scan, List.mem_filterMap]
  simp only [hentry, SortedMap.mem_range]
  constructor
  · rintro ⟨⟨key, value⟩, ⟨hmem, hbounds⟩, rfl⟩
    exact ⟨key, hmem, hbounds⟩
  · rintro ⟨key, hmem, hbounds⟩
    exact ⟨(key, .message message), ⟨hmem, hbounds⟩, rfl⟩

/-- A message is captured exactly if its key is within the bounds. -/
theorem captured_iff_between (topic low : String) (message : P2PMessage) :
    Captured topic low message ↔ "msg:" ++ topic ++ ":" ++ low ≤ keyOf message ∧
      keyOf message ≤ "msg:" ++ topic ++ ":~" := by
  have hend : "msg:" ++ topic ++ ":~" = "msg:" ++ topic ++ ":" ++ "~" := by
    have hsplit : ":~" = ":" ++ "~" := by decide
    rw [hsplit, ← String.append_assoc]
  have hkey : keyOf message = "msg:" ++ (message.topic ++ ":" ++
      padStart message.lamportTimestamp ++ ":" ++ message.id) := by
    simp only [keyOf, makeKey, String.append_assoc]
  rw [hend, LexicographicRange.string_between_iff, Captured, hkey]
  simp only [String.append_assoc, String.append_right_inj]

/-- A scan finds the survivors whose keys read as keys of the topic. -/
theorem mem_scan_run (events : List Event) (topic low : String) (message : P2PMessage) :
    message ∈ (new.run events).flush.scan ("msg:" ++ topic ++ ":" ++ low)
        ("msg:" ++ topic ++ ":~") ↔
      message ∈ survivors (saved events) ∧ Captured topic low message := by
  rw [mem_scan, captured_iff_between]
  simp only [mem_db_run]
  constructor
  · rintro ⟨_, ⟨hsurvives, rfl⟩, hbounds⟩
    exact ⟨hsurvives, hbounds⟩
  · rintro ⟨hsurvives, hbounds⟩
    exact ⟨keyOf message, ⟨hsurvives, rfl⟩, hbounds⟩

/-- A message of the topic itself, later than the bound, is within the bounds of the scan. -/
theorem captured_own {message : P2PMessage} {sinceTimestamp : ℕ}
    (hsince : sinceTimestamp < message.lamportTimestamp)
    (hbound : message.lamportTimestamp < 10 ^ 15) :
    Captured message.topic (padStart sinceTimestamp ++ ":") message := by
  have hpad {n : ℕ} (h : n < 10 ^ 15) : (padStart n).toList = LexicographicRange.digits 15 n := by
    rw [padStart, String.toList_ofList, LexicographicRange.leftpad_toDigits (by norm_num) h]
  have hless := (LexicographicRange.digits_lt_iff (hsince.trans hbound) hbound).2 hsince
  refine ⟨padStart message.lamportTimestamp ++ ":" ++ message.id, ?_, ?_, ?_⟩
  · simp only [String.append_assoc]
  · apply le_of_lt
    simp only [String.lt_iff_toList_lt, String.toList_append, List.append_assoc, hpad hbound,
      hpad (hsince.trans hbound)]
    exact (LexicographicRange.append_lt_append_iff (by simp) _ _).2 (.inl hless)
  · apply le_of_lt
    simp only [String.lt_iff_toList_lt, String.toList_append, List.append_assoc, hpad hbound]
    exact LexicographicRange.digits_append_lt_tilde (by norm_num) _ _

/-- `getByTopic` returns the saved messages of the topic after the bound and nothing else, and
`getRecentMessages` returns chat messages of the topic only. -/
structure Isolated (messages : List P2PMessage) (topic : String) (sinceTimestamp : ℕ)
    (store : MessageStore) : Prop where
  getByTopic : ∀ message, message ∈ (store.getByTopic topic sinceTimestamp).1 ↔
    message ∈ messages ∧ message.topic = topic ∧ sinceTimestamp < message.lamportTimestamp
  getRecentMessages : ∀ limit, ∀ message ∈ (store.getRecentMessages topic limit).1,
    message.type = .chat ∧ message.topic = topic

/-- No message of the topic that is to be returned was overwritten, and no key of another topic
reads as a key of the topic within the bounds of either scan. -/
structure KeysIsolated (messages : List P2PMessage) (topic : String) (sinceTimestamp : ℕ) :
    Prop where
  own : ∀ message ∈ messages, message.topic = topic →
    sinceTimestamp < message.lamportTimestamp → message ∈ survivors messages
  foreign : ∀ message ∈ survivors messages, message.topic ≠ topic →
    sinceTimestamp < message.lamportTimestamp →
    ¬Captured topic (padStart sinceTimestamp ++ ":") message
  foreignChat : ∀ message ∈ survivors messages, message.topic ≠ topic →
    message.type = .chat → ¬Captured topic "" message

theorem survivors_subset (messages : List P2PMessage) : survivors messages ⊆ messages := by
  induction messages using List.reverseRecOn with
  | nil => exact List.Subset.refl _
  | append_singleton messages last ih =>
    rw [survivors_concat]
    intro message hmem
    rcases List.mem_append.1 hmem with hkept | hlast
    · exact List.mem_append_left _ (ih (List.mem_of_mem_filter hkept))
    · exact List.mem_append_right _ hlast

theorem mem_getByTopic_run (events : List Event) (topic : String) (sinceTimestamp : ℕ)
    (message : P2PMessage) :
    message ∈ ((new.run events).getByTopic topic sinceTimestamp).1 ↔
      message ∈ survivors (saved events) ∧
        Captured topic (padStart sinceTimestamp ++ ":") message ∧
        sinceTimestamp < message.lamportTimestamp := by
  have hscan := mem_scan_run events topic (padStart sinceTimestamp ++ ":") message
  rw [← String.append_assoc] at hscan
  rw [getByTopic, List.mem_filter, hscan, decide_eq_true_eq, and_assoc]

/-- Without a limit the node returns all chat messages within the bounds, with one a part. -/
theorem forall_getRecentMessages_run (events : List Event) (topic : String)
    (property : P2PMessage → Prop) :
    (∀ limit, ∀ message ∈ ((new.run events).getRecentMessages topic limit).1,
        property message) ↔
      ∀ message ∈ survivors (saved events), message.type = .chat → Captured topic "" message →
        property message := by
  have hmem (message : P2PMessage) : message ∈ ((new.run events).flush.scan
      ("msg:" ++ topic ++ ":") ("msg:" ++ topic ++ ":~")).filter
        (fun message ↦ message.type = .chat) ↔
      message ∈ survivors (saved events) ∧ message.type = .chat ∧ Captured topic "" message := by
    have hscan := mem_scan_run events topic "" message
    rw [String.append_empty] at hscan
    rw [List.mem_filter, hscan, decide_eq_true_eq, and_assoc, and_comm (b := _ = _)]
  constructor
  · intro h message hsurvives htype hcaptured
    apply h 0
    exact (hmem message).2 ⟨hsurvives, htype, hcaptured⟩
  · intro h limit message hmessage
    have hall : message ∈ ((new.run events).flush.scan ("msg:" ++ topic ++ ":")
        ("msg:" ++ topic ++ ":~")).filter (fun message ↦ message.type = .chat) := by
      rw [getRecentMessages, sliceLast] at hmessage
      split at hmessage
      · exact hmessage
      · exact List.mem_of_mem_drop hmessage
    obtain ⟨hsurvives, htype, hcaptured⟩ := (hmem message).1 hall
    exact h message hsurvives htype hcaptured

/-- Scans for a topic are isolated exactly when the keys of the saved messages are. -/
theorem isolated_iff (events : List Event) (topic : String) (sinceTimestamp : ℕ)
    (hbound : ∀ message ∈ saved events, message.lamportTimestamp < 10 ^ 15) :
    Isolated (saved events) topic sinceTimestamp (new.run events) ↔
      KeysIsolated (saved events) topic sinceTimestamp := by
  constructor
  · rintro ⟨hget, hrecent⟩
    have hrecent := (forall_getRecentMessages_run events topic _).1 hrecent
    refine ⟨?_, ?_, ?_⟩
    · intro message hmem htopic hsince
      exact ((mem_getByTopic_run events topic sinceTimestamp message).1
        ((hget message).2 ⟨hmem, htopic, hsince⟩)).1
    · intro message hsurvives htopic hsince hcaptured
      have hreturned := (mem_getByTopic_run events topic sinceTimestamp message).2
        ⟨hsurvives, hcaptured, hsince⟩
      exact htopic ((hget message).1 hreturned).2.1
    · intro message hsurvives htopic htype hcaptured
      exact htopic (hrecent message hsurvives htype hcaptured).2
  · rintro ⟨hown, hforeign, hforeignChat⟩
    refine ⟨fun message ↦ ?_, (forall_getRecentMessages_run events topic _).2 ?_⟩
    · rw [mem_getByTopic_run]
      constructor
      · rintro ⟨hsurvives, hcaptured, hsince⟩
        refine ⟨survivors_subset _ hsurvives, ?_, hsince⟩
        by_contra htopic
        exact hforeign message hsurvives htopic hsince hcaptured
      · rintro ⟨hmem, htopic, hsince⟩
        refine ⟨hown message hmem htopic hsince, ?_, hsince⟩
        rw [← htopic]
        exact captured_own hsince (hbound message hmem)
    · intro message hsurvives htype hcaptured
      refine ⟨htype, ?_⟩
      by_contra htopic
      exact hforeignChat message hsurvives htopic htype hcaptured

/-! ## A topic and its sub-topics -/

/-- Only keys that begin with the topic can be captured. -/
theorem Captured.isPrefix {topic low : String} {message : P2PMessage}
    (h : Captured topic low message) :
    (topic ++ ":").toList <+:
      (message.topic ++ ":" ++ padStart message.lamportTimestamp ++ ":" ++ message.id).toList := by
  obtain ⟨rest, hrest, _⟩ := h
  have happend : (topic ++ ":" ++ rest).toList = (topic ++ ":").toList ++ rest.toList :=
    String.toList_append
  rw [hrest, happend]
  exact List.prefix_append _ _

/-- A chat message on a topic. -/
def chatOn (topic id : String) (lamportTimestamp : ℕ) : P2PMessage where
  id
  type := .chat
  ttl := Config.MAX_TTL
  lamportTimestamp
  sender := "alice"
  senderPublicKey := none
  topic
  payload := .text "hello"
  createdAt := "2024-01-01T00:00:00.000Z"
  powNonce := 0
  signature := none
  routingPath := none

/-- A broadcast, a direct message to `bob`, and a later broadcast. -/
def conversation : List Event :=
  [.save (chatOn "global" "m0" 1), .save (chatOn "dm:bob" "m1" 2), .flush,
    .save (chatOn "global" "m2" 3)]

theorem isolated_conversation :
    Isolated (saved conversation) "global" 1 (new.run conversation) := by
  have hforeign (low : String) : ∀ message ∈ survivors (saved conversation),
      message.topic ≠ "global" → ¬Captured "global" low message := by
    have hprefix : ∀ message ∈ survivors (saved conversation), message.topic ≠ "global" →
        ¬("global" ++ ":").toList <+: (message.topic ++ ":" ++
          padStart message.lamportTimestamp ++ ":" ++ message.id).toList := by
      decide +kernel
    intro message hmem htopic hcaptured
    exact hprefix message hmem htopic hcaptured.isPrefix
  apply (isolated_iff conversation "global" 1 (by decide +kernel)).2
  refine ⟨by decide +kernel, ?_, ?_⟩
  · intro message hmem htopic _
    exact hforeign _ message hmem htopic
  · intro message hmem htopic _
    exact hforeign _ message hmem htopic

/-- A scan for the topic `dm` returns the direct message to `bob`. -/
theorem not_isolated_conversation :
    (∀ message ∈ saved conversation, message.lamportTimestamp < 10 ^ 15) ∧
      ¬Isolated (saved conversation) "dm" 0 (new.run conversation) ∧
      chatOn "dm:bob" "m1" 2 ∈ ((new.run conversation).getByTopic "dm" 0).1 ∧
      chatOn "dm:bob" "m1" 2 ∈ ((new.run conversation).getRecentMessages "dm" 25).1 := by
  have hget : chatOn "dm:bob" "m1" 2 ∈ ((new.run conversation).getByTopic "dm" 0).1 := by
    decide +kernel
  refine ⟨by decide +kernel, ?_, hget, by decide +kernel⟩
  intro h
  have htopic := ((h.getByTopic _).1 hget).2.1
  exact absurd htopic (by decide)

end MessageStore

end P2PApp
