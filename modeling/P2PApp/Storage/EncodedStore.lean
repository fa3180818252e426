import P2PApp.Library.LexicographicRange
import P2PApp.Library.SortedMap
import P2PApp.Library.Utf8

/-!
# Keys as the database has them

The message store on strings of the language and a database of bytes. Every key and every text is
encoded on its way into the database and decoded on its way out, and the encoding is not injective:
surrogates without a partner all become the same replacement character. Keys are compared by their
bytes.

A batch is issued by a flush and committed later, in the order in which it was issued. The contents
of a store are what its database holds once everything is committed. Two keys are the same only if
the encoded topics, the stamps and the encoded ids are, provided the ids have no colon; no key of a
message is a key of the index.
-/

namespace P2PApp.Encoded

open JsonString

/-- A message, with the fields that the store reads; the others are in `rest`. -/
structure Message (β : Type*) where
  id : JSString
  topic : JSString
  lamportTimestamp : ℕ
  createdAt : JSString
  rest : β
  deriving DecidableEq

/-- The bytes of a text, which are compared as numbers. -/
def bytes (text : JSString) : List ℕ := (Utf8.encode text).map BitVec.toNat

/-- The text that is read back. -/
def text (bytes : List ℕ) : JSString := Utf8.decode (bytes.map (BitVec.ofNat 8))

/-- The value of a `msg:` key, or of an `id:` key. A message comes back as it was stored. -/
inductive StoredValue (β : Type*)
  | message (message : Message β)
  | reference (fullKey : List ℕ)
  deriving DecidableEq

/-- An operation of a batch. -/
inductive Operation (β : Type*)
  | put (key : JSString) (value : StoredValue β)
  | del (key : JSString)
  deriving DecidableEq

variable {β : Type*}

def StoredValue.message? : StoredValue β → Option (Message β)
  | .message stored => some stored
  | .reference _ => none

def Operation.run (db : SortedMap (List ℕ) (StoredValue β)) :
    Operation β → SortedMap (List ℕ) (StoredValue β)
  | .put key value => db.put (bytes key) value
  | .del key => db.erase (bytes key)

structure MessageStore (β : Type*) where
  db : SortedMap (List ℕ) (StoredValue β)
  /-- The batches that are issued and not yet committed, the oldest first. -/
  inFlight : List (List (Operation β))
  writeBuffer : List (Operation β)

namespace MessageStore

def MAX_BUFFER_SIZE : ℕ := 50

def new : MessageStore β := ⟨∅, [], []⟩

/-- `String(timestamp).padStart(15, '0')`. -/
def padStart (timestamp : ℕ) : JSString :=
  ((Nat.toDigits 10 timestamp).leftpad 15 '0').map fun digit ↦ .ofNat 16 digit.toNat

def makeKey (topic : JSString) (lamportTimestamp : ℕ) (messageId : JSString) : JSString :=
  ascii "msg:" ++ topic ++ ascii ":" ++ padStart lamportTimestamp ++ ascii ":" ++ messageId

def keyOf (message : Message β) : JSString :=
  makeKey message.topic message.lamportTimestamp message.id

/-- Issue what is buffered as a batch. -/
def flush (store : MessageStore β) : MessageStore β :=
  if store.writeBuffer = [] then store
  else
    { store with
      inFlight := store.inFlight ++ [store.writeBuffer]
      writeBuffer := [] }

/-- The database commits the oldest batch. -/
def commit (store : MessageStore β) : MessageStore β :=
  match store.inFlight with
  | [] => store
  | batch :: later => { store with db := batch.foldl Operation.run store.db, inFlight := later }

/-- Buffer the message and the entry of its id in the index. -/
def save (store : MessageStore β) (message : Message β) : MessageStore β :=
  let key := keyOf message
  let store := { store with
    writeBuffer := store.writeBuffer ++
      [.put key (.message message), .put (ascii "id:" ++ message.id) (.reference (bytes key))] }
  if MAX_BUFFER_SIZE ≤ store.writeBuffer.length then store.flush else store

/-- The store once everything is committed. -/
def settle (store : MessageStore β) : MessageStore β where
  db := (store.inFlight.flatten ++ store.writeBuffer).foldl Operation.run store.db
  inFlight := []
  writeBuffer := []

/-- Everything saved is in the database. -/
def Committed (store : MessageStore β) : Prop := store.inFlight = [] ∧ store.writeBuffer = []

/-- The two reads of `getById`, behind its flush. A missing key ends either of them. -/
def getById (store : MessageStore β) (messageId : JSString) : Option (Message β) :=
  match store.db.get? (bytes (ascii "id:" ++ messageId)) with
  | some (.reference fullKey) =>
    (store.db.get? (bytes (text fullKey))).bind StoredValue.message?
  | _ => none

/-- The messages under `msg:` keys, in the order of the keys. -/
def records (store : MessageStore β) : List (Message β) :=
  store.db.entries.filterMap fun entry ↦ entry.2.message?

/-- The messages under the keys of a closed range, with these keys as they are read. -/
def scan (store : MessageStore β) (startKey endKey : JSString) : List (JSString × Message β) :=
  (store.db.range (bytes startKey) (bytes endKey)).filterMap fun entry ↦
    entry.2.message?.map fun message ↦ (text entry.1, message)

/-- What happens to a store: a message is saved, the timer or a read issues the buffer, or the
database commits a batch. -/
inductive Event (β : Type*)
  | save (message : Message β)
  | flush
  | commit
  deriving DecidableEq

def apply (store : MessageStore β) : Event β → MessageStore β
  | .save message => store.save message
  | .flush => store.flush
  | .commit => store.commit

def run (store : MessageStore β) (events : List (Event β)) : MessageStore β :=
  events.foldl apply store

/-- The messages saved by a sequence of events, in order. -/
def saved (events : List (Event β)) : List (Message β) :=
  events.filterMap fun
    | .save message => some message
    | _ => none

/-- The last message with a property. -/
def lastWith (property : Message β → Prop) [DecidablePred property]
    (messages : List (Message β)) : Option (Message β) :=
  messages.reverse.find? fun message ↦ property message

/-! ## Texts and their bytes -/

theorem map_ofNat_bytes (text : JSString) : (bytes text).map (BitVec.ofNat 8) =
    Utf8.encode text := by
  rw [bytes, List.map_map]
  exact List.map_id'' (fun byte ↦ by simp) _

/-- A text that was read from the database is stored under the same bytes again. -/
theorem bytes_text (original : JSString) : bytes (text (bytes original)) = bytes original := by
  rw [text, map_ofNat_bytes, bytes, Utf8.encode_decode_encode]
  rfl

theorem bytes_inj_encode {left right : JSString} :
    bytes left = bytes right ↔ Utf8.encode left = Utf8.encode right := by
  constructor
  · intro h
    rw [← map_ofNat_bytes left, h, map_ofNat_bytes]
  · exact congrArg _

/-- Strings without lone surrogates are determined by their bytes. -/
theorem bytes_inj {left right : JSString} (hleft : Utf8.WellFormed left)
    (hright : Utf8.WellFormed right) : bytes left = bytes right ↔ left = right :=
  bytes_inj_encode.trans (Utf8.encode_inj hleft hright)

theorem bytes_append_cons {unit : CodeUnit} (h : unit.toNat < 0x80) (left right : JSString) :
    bytes (left ++ unit :: right) = bytes left ++ unit.toNat :: bytes right := by
  rw [bytes, Utf8.encode_append_cons h, List.map_append, List.map_cons,
    Utf8.toNat_byte (by omega)]
  rfl

def colon : CodeUnit := 0x3A

theorem colon_notMem_bytes {text : JSString} (h : colon ∉ text) : colon.toNat ∉ bytes text := by
  intro hmem
  obtain ⟨byte, hbyte, hvalue⟩ := List.mem_map.1 hmem
  have hcolon : byte = .ofNat 8 colon.toNat := by
    rw [← hvalue, BitVec.ofNat_toNat, BitVec.setWidth_eq]
  rw [hcolon] at hbyte
  exact Utf8.notMem_encode (by decide) h hbyte

/-! ## Keys -/

/-- The bytes of a padded stamp. -/
def stampBytes (timestamp : ℕ) : List ℕ :=
  ((Nat.toDigits 10 timestamp).leftpad 15 '0').map Char.toNat

theorem stampBytes_injective : Function.Injective stampBytes := by
  intro left right h
  apply LexicographicRange.leftpad_toDigits_injective 15
  exact List.map_injective_iff.2 (fun _ _ ↦ Char.toNat_inj.1) h

theorem toNat_of_isDigit {character : Char} (h : character.isDigit = true) :
    48 ≤ character.toNat ∧ character.toNat ≤ 57 := by
  simpa [Char.isDigit, UInt32.le_iff_toNat_le] using h

theorem colon_notMem_stampBytes (timestamp : ℕ) : colon.toNat ∉ stampBytes timestamp := by
  intro hmem
  obtain ⟨digit, hdigit, hvalue⟩ := List.mem_map.1 hmem
  obtain ⟨_, hupper⟩ := toNat_of_isDigit (LexicographicRange.isDigit_of_mem_leftpad hdigit)
  rw [hvalue] at hupper
  exact absurd hupper (by decide)

theorem bytes_padStart (timestamp : ℕ) : bytes (padStart timestamp) = stampBytes timestamp := by
  have hdigit {digit : Char} (hmem : digit ∈ (Nat.toDigits 10 timestamp).leftpad 15 '0') :
      digit.toNat < 0x80 := by
    have hrange := toNat_of_isDigit (LexicographicRange.isDigit_of_mem_leftpad hmem)
    omega
  have hunit {digit : Char} (hsmall : digit.toNat < 0x80) :
      (BitVec.ofNat 16 digit.toNat).toNat = digit.toNat := Utf8.toNat_unit (by omega)
  rw [bytes, padStart, Utf8.encode_of_lt, List.map_map, List.map_map, stampBytes]
  · apply List.map_congr_left
    intro digit hmem
    have hsmall := hdigit hmem
    simp only [Function.comp_apply, hunit hsmall, Utf8.toNat_byte (by omega : digit.toNat < 0x100)]
  · intro unit hunits
    obtain ⟨digit, hmem, rfl⟩ := List.mem_map.1 hunits
    have hsmall := hdigit hmem
    rw [hunit hsmall]
    exact hsmall

/-- The key under which a message is stored. -/
def messageKey (message : Message β) : List ℕ := bytes (keyOf message)

/-- The key of an id in the index. -/
def idKey (id : JSString) : List ℕ := bytes (ascii "id:" ++ id)

/-- What stands in front of the topic in every key of a message. -/
def stem : List ℕ := [109, 115, 103, 58]

theorem bytes_topic (topic rest : JSString) :
    bytes (ascii "msg:" ++ topic ++ colon :: rest) =
      stem ++ bytes topic ++ colon.toNat :: bytes rest := by
  have hstem : bytes (ascii "msg:" ++ topic) = stem ++ bytes topic := by
    have hcut := bytes_append_cons (by decide : colon.toNat < 0x80) (ascii "msg") topic
    exact hcut
  rw [bytes_append_cons (by decide), hstem]

theorem messageKey_eq (message : Message β) :
    messageKey message = stem ++ bytes message.topic ++ colon.toNat ::
      (stampBytes message.lamportTimestamp ++ colon.toNat :: bytes message.id) := by
  have hkey : keyOf message = ascii "msg:" ++ message.topic ++ colon ::
      (padStart message.lamportTimestamp ++ colon :: message.id) := by
    simp [keyOf, makeKey, ascii, colon]
  rw [messageKey, hkey, bytes_topic, bytes_append_cons (by decide), bytes_padStart]

theorem idKey_eq (id : JSString) : idKey id = [105, 100, 58] ++ bytes id := by
  have hcut := bytes_append_cons (by decide : colon.toNat < 0x80) (ascii "id") id
  exact hcut

theorem idKey_inj {left right : JSString} :
    idKey left = idKey right ↔ bytes left = bytes right := by
  rw [idKey_eq, idKey_eq, List.append_right_inj]

/-- The index has its keys for itself. -/
theorem messageKey_ne_idKey (message : Message β) (id : JSString) :
    messageKey message ≠ idKey id := by
  rw [messageKey_eq, idKey_eq]
  intro h
  simp [stem] at h

/-- A list is cut at the last occurrence of a value in one way. -/
theorem append_cons_inj {value : ℕ} {left left' right right' : List ℕ} (hright : value ∉ right)
    (hright' : value ∉ right') (h : left ++ value :: right = left' ++ value :: right') :
    left = left' ∧ right = right' := by
  rcases List.append_eq_append_iff.1 h with ⟨middle, rfl, hrest⟩ | ⟨middle, rfl, hrest⟩
  · cases middle with
    | nil => simpa using hrest
    | cons first middle =>
      simp only [List.cons_append, List.cons.injEq] at hrest
      exact absurd (by simp [hrest.2]) hright
  · cases middle with
    | nil => simpa [eq_comm] using hrest
    | cons first middle =>
      simp only [List.cons_append, List.cons.injEq] at hrest
      exact absurd (by simp [hrest.2]) hright'

theorem messageKey_congr {left right : Message β} (htopic : bytes left.topic = bytes right.topic)
    (hstamp : left.lamportTimestamp = right.lamportTimestamp)
    (hid : bytes left.id = bytes right.id) : messageKey left = messageKey right := by
  rw [messageKey_eq, messageKey_eq, htopic, hstamp, hid]

/-- Keys are the same only if all their parts are, provided the ids have no colon. -/
theorem messageKey_inj {left right : Message β} (hleft : colon ∉ left.id)
    (hright : colon ∉ right.id) :
    messageKey left = messageKey right ↔ bytes left.topic = bytes right.topic ∧
      left.lamportTimestamp = right.lamportTimestamp ∧ bytes left.id = bytes right.id := by
  constructor
  · rw [messageKey_eq, messageKey_eq, List.append_assoc, List.append_assoc, List.append_right_inj,
      ← List.cons_append, ← List.cons_append, ← List.append_assoc, ← List.append_assoc]
    intro h
    obtain ⟨hfront, hid⟩ :=
      append_cons_inj (colon_notMem_bytes hleft) (colon_notMem_bytes hright) h
    obtain ⟨htopic, hstamp⟩ :=
      append_cons_inj (colon_notMem_stampBytes _) (colon_notMem_stampBytes _) hfront
    exact ⟨htopic, stampBytes_injective hstamp, hid⟩
  · rintro ⟨htopic, hstamp, hid⟩
    exact messageKey_congr htopic hstamp hid

/-! ## The last of several messages -/

section LastWith

variable {property other : Message β → Prop} [DecidablePred property] [DecidablePred other]
  {messages : List (Message β)} {message : Message β}

theorem lastWith_concat (property : Message β → Prop) [DecidablePred property]
    (messages : List (Message β)) (last : Message β) :
    lastWith property (messages ++ [last]) =
      if property last then some last else lastWith property messages := by
  rw [lastWith, List.reverse_append, List.reverse_singleton, List.singleton_append,
    List.find?_cons]
  by_cases h : property last <;> simp [h, lastWith]

theorem of_lastWith (h : lastWith property messages = some message) :
    message ∈ messages ∧ property message :=
  ⟨List.mem_reverse.1 (List.mem_of_find?_eq_some h), by simpa using List.find?_some h⟩

theorem lastWith_eq_none_iff :
    lastWith property messages = none ↔ ∀ message ∈ messages, ¬property message := by
  simp [lastWith]

theorem exists_lastWith (property : Message β → Prop) [DecidablePred property]
    (hmem : message ∈ messages) (h : property message) :
    ∃ last, lastWith property messages = some last := by
  rw [← Option.ne_none_iff_exists', ne_eq, lastWith_eq_none_iff]
  exact fun hall ↦ hall message hmem h

theorem lastWith_congr (h : ∀ message ∈ messages, property message ↔ other message) :
    lastWith property messages = lastWith other messages := by
  induction messages using List.reverseRecOn with
  | nil => rfl
  | append_singleton messages last ih =>
    rw [lastWith_concat, lastWith_concat, ih fun message hmem ↦ h message (by simp [hmem])]
    simp only [h last (by simp)]

/-- The last message with a property is the last with any that it has and that implies it. -/
theorem lastWith_of_imp (h : lastWith property messages = some message) (hother : other message)
    (himp : ∀ message ∈ messages, other message → property message) :
    lastWith other messages = some message := by
  induction messages using List.reverseRecOn with
  | nil => cases h
  | append_singleton messages last ih =>
    rw [lastWith_concat] at h ⊢
    split at h
    · cases h
      rw [if_pos hother]
    · rename_i hlast
      rw [if_neg fun hholds ↦ hlast (himp last (by simp) hholds)]
      exact ih h fun message hmem ↦ himp message (by simp [hmem])

end LastWith

/-! ## Contents -/

@[simp] theorem settle_flush (store : MessageStore β) : store.flush.settle = store.settle := by
  unfold flush
  split
  · rfl
  · simp [settle]

@[simp] theorem settle_commit (store : MessageStore β) : store.commit.settle = store.settle := by
  unfold commit
  split
  · rfl
  · rename_i batch later hinFlight
    simp [settle, hinFlight]

theorem settle_save (store : MessageStore β) (message : Message β) :
    (store.save message).settle.db =
      (store.settle.db.put (messageKey message) (.message message)).put (idKey message.id)
        (.reference (messageKey message)) := by
  unfold save
  dsimp only
  split
  · rw [settle_flush]
    simp [settle, Operation.run, messageKey, idKey]
  · simp [settle, Operation.run, messageKey, idKey]

theorem Committed.settle {store : MessageStore β} (h : store.Committed) : store.settle = store := by
  obtain ⟨db, inFlight, writeBuffer⟩ := store
  obtain ⟨rfl, rfl⟩ := h
  rfl

/-- Under every key is what was written there last. -/
theorem get?_settle (events : List (Event β)) (key : List ℕ) :
    (new.run events).settle.db.get? key =
      ((lastWith (fun message ↦ messageKey message = key) (saved events)).map
          StoredValue.message).or
        ((lastWith (fun message ↦ idKey message.id = key) (saved events)).map
          fun message ↦ .reference (messageKey message)) := by
  induction events using List.reverseRecOn with
  | nil => rfl
  | append_singleton events last ih =>
    have hrun : (new : MessageStore β).run (events ++ [last]) = (new.run events).apply last := by
      rw [run, List.foldl_append]
      rfl
    rw [hrun]
    cases last with
    | flush =>
      have hsaved : saved (events ++ [.flush]) = saved events := by simp [saved]
      rw [hsaved, apply, settle_flush, ih]
    | commit =>
      have hsaved : saved (events ++ [.commit]) = saved events := by simp [saved]
      rw [hsaved, apply, settle_commit, ih]
    | save newest =>
      have hsaved : saved (events ++ [.save newest]) = saved events ++ [newest] := by
        simp [saved]
      rw [hsaved, lastWith_concat, lastWith_concat, apply, settle_save, SortedMap.get?_put,
        SortedMap.get?_put, ih]
      by_cases hindex : idKey newest.id = key
      · subst hindex
        have hnone : lastWith (fun message ↦ messageKey message = idKey newest.id)
            (saved events) = none :=
          lastWith_eq_none_iff.2 fun message _ ↦ messageKey_ne_idKey message newest.id
        rw [if_pos rfl, if_neg (messageKey_ne_idKey _ _), if_pos rfl, hnone]
        rfl
      · by_cases hmessage : messageKey newest = key
        · simp [hmessage, hindex, Ne.symm hindex]
        · simp [hmessage, hindex, Ne.symm hindex, Ne.symm hmessage]

theorem get?_messageKey (events : List (Event β)) (message : Message β) :
    (new.run events).settle.db.get? (messageKey message) =
      (lastWith (fun stored ↦ messageKey stored = messageKey message) (saved events)).map
        StoredValue.message := by
  have hnone : lastWith (fun stored ↦ idKey stored.id = messageKey message) (saved events) =
      none :=
    lastWith_eq_none_iff.2 fun stored _ ↦ (messageKey_ne_idKey message stored.id).symm
  rw [get?_settle, hnone, Option.map_none, Option.or_none]

theorem get?_idKey (events : List (Event β)) (id : JSString) :
    (new.run events).settle.db.get? (idKey id) =
      (lastWith (fun stored ↦ bytes stored.id = bytes id) (saved events)).map
        fun message ↦ .reference (messageKey message) := by
  have hnone : lastWith (fun stored ↦ messageKey stored = idKey id) (saved events) = none :=
    lastWith_eq_none_iff.2 fun stored _ ↦ messageKey_ne_idKey stored id
  rw [get?_settle, hnone, Option.map_none, Option.none_or]
  congr 1
  exact lastWith_congr fun _ _ ↦ idKey_inj

theorem mem_records {store : MessageStore β} {message : Message β} :
    message ∈ store.records ↔ ∃ key, store.db.get? key = some (.message message) := by
  have hentry (entry : List ℕ × StoredValue β) : entry.2.message? = some message ↔
      entry.2 = .message message := by
    cases entry.2 <;> simp [StoredValue.message?]
  rw [records, List.mem_filterMap]
  simp only [hentry, SortedMap.get?_eq_some_iff]
  constructor
  · rintro ⟨⟨key, value⟩, hmem, rfl⟩
    exact ⟨key, hmem⟩
  · rintro ⟨key, hmem⟩
    exact ⟨(key, .message message), hmem, rfl⟩

/-- Messages are found under their own keys only. -/
theorem key_of_get? {events : List (Event β)} {key : List ℕ} {message : Message β}
    (h : (new.run events).settle.db.get? key = some (.message message)) :
    key = messageKey message := by
  rw [get?_settle, Option.or_eq_some_iff] at h
  rcases h with hfound | ⟨-, hfound⟩
  · obtain ⟨stored, hstored, heq⟩ := Option.map_eq_some_iff.1 hfound
    cases heq
    exact (of_lastWith hstored).2.symm
  · obtain ⟨stored, hstored, heq⟩ := Option.map_eq_some_iff.1 hfound
    cases heq

theorem key_of_mem_entries {events : List (Event β)} {entry : List ℕ × StoredValue β}
    (hmem : entry ∈ (new.run events).settle.db.entries) {message : Message β}
    (hmessage : entry.2.message? = some message) : entry.1 = messageKey message := by
  obtain ⟨key, value⟩ := entry
  cases value with
  | message stored =>
    cases hmessage
    exact key_of_get? (SortedMap.get?_eq_some_iff.2 hmem)
  | reference fullKey => cases hmessage

/-- The records are the messages that no later one has overwritten. -/
theorem mem_records_settle (events : List (Event β)) (message : Message β) :
    message ∈ (new.run events).settle.records ↔
      lastWith (fun stored ↦ messageKey stored = messageKey message) (saved events) =
        some message := by
  rw [mem_records]
  constructor
  · rintro ⟨key, hkey⟩
    obtain rfl := key_of_get? hkey
    rw [get?_messageKey] at hkey
    obtain ⟨stored, hstored, heq⟩ := Option.map_eq_some_iff.1 hkey
    cases heq
    exact hstored
  · intro h
    exact ⟨messageKey message, by rw [get?_messageKey, h]; rfl⟩

/-- The records are in the order of their keys, no two under the same one. -/
theorem pairwise_records (events : List (Event β)) :
    (new.run events).settle.records.Pairwise fun left right ↦
      messageKey left < messageKey right := by
  rw [records, List.pairwise_filterMap]
  apply (new.run events).settle.db.sorted.imp_of_mem
  intro first later hfirst hlater hless left hleft right hright
  rw [← key_of_mem_entries hfirst hleft, ← key_of_mem_entries hlater hright]
  exact hless

/-- A scan finds the records whose keys are within its bounds. -/
theorem scan_settle (events : List (Event β)) (startKey endKey : JSString) :
    (new.run events).settle.scan startKey endKey =
      ((new.run events).settle.records.filter fun message ↦
        bytes startKey ≤ messageKey message ∧ messageKey message ≤ bytes endKey).map
          fun message ↦ (text (messageKey message), message) := by
  rw [scan, SortedMap.range, records, List.filterMap_filter, List.filter_filterMap,
    List.map_filterMap]
  apply List.filterMap_congr
  intro entry hmem
  cases hvalue : entry.2.message? with
  | none => simp
  | some message =>
    rw [key_of_mem_entries hmem hvalue]
    by_cases hwithin : bytes startKey ≤ messageKey message ∧ messageKey message ≤ bytes endKey
    · simp [hwithin]
    · simp only [hwithin, decide_false, Bool.false_eq_true, if_false, Option.filter_some]
      rfl

theorem getById_eq_none {store : MessageStore β} {id : JSString}
    (h : store.db.get? (idKey id) = none) : store.getById id = none := by
  unfold idKey at h
  rw [getById, h]

theorem getById_eq {store : MessageStore β} {id : JSString} {message : Message β}
    (h : store.db.get? (idKey id) = some (.reference (messageKey message))) :
    store.getById id = (store.db.get? (messageKey message)).bind StoredValue.message? := by
  have hread : bytes (text (messageKey message)) = messageKey message := bytes_text _
  unfold idKey at h
  rw [getById, h]
  dsimp only
  rw [hread]

/-- A read by id ends at the last message under the key of the last message with the id. -/
theorem getById_settle (events : List (Event β)) (id : JSString) :
    (new.run events).settle.getById id =
      (lastWith (fun stored ↦ bytes stored.id = bytes id) (saved events)).bind fun message ↦
        lastWith (fun stored ↦ messageKey stored = messageKey message) (saved events) := by
  have hindex := get?_idKey events id
  cases hlast : lastWith (fun stored ↦ bytes stored.id = bytes id) (saved events) with
  | none =>
    rw [hlast] at hindex
    exact getById_eq_none hindex
  | some message =>
    rw [hlast] at hindex
    rw [getById_eq hindex, get?_messageKey]
    cases hfound : lastWith (fun stored ↦ messageKey stored = messageKey message)
      (saved events) <;> simp [hfound, StoredValue.message?]

end MessageStore

end P2PApp.Encoded
