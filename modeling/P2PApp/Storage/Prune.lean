import P2PApp.Storage.KeySpace

/-!
# Pruning

`prune` walks a range of keys, and for each old message that it meets deletes the record and the
entry of the id in the index. The range ends at a tilde, so that it misses the topics that begin
with one or with a character beyond it; and an index entry is shared by all records with the id.
Pruning is exact if and only if no old record is out of the range, none shares its id with a record
that is kept, and the index leads from each id to where it should.
-/

namespace P2PApp.Encoded.MessageStore

open JsonString

variable {β : Type*}

section Prune

variable (getTime : JSString → Option ℤ) (cutoffTime : ℤ)

/-- `new Date(msg.createdAt).getTime() < cutoffTime`, which is false of a date that is none. -/
def Old (message : Message β) : Prop := ∃ createdAtMs ∈ getTime message.createdAt,
  createdAtMs < cutoffTime

instance : DecidablePred (@Old β getTime cutoffTime) := fun message ↦
  inferInstanceAs (Decidable (∃ createdAtMs ∈ getTime message.createdAt, createdAtMs < cutoffTime))

/-- The keys that `prune` collects, two for each old message that the scan shows. -/
def prunedKeys (store : MessageStore β) : List JSString :=
  (store.scan (ascii "msg:") (ascii "msg:~")).flatMap fun (key, message) ↦
    if Old getTime cutoffTime message then [key, ascii "id:" ++ message.id] else []

/-- The rest of `prune`, behind its flush. -/
def prune (now olderThanMs : ℤ) (store : MessageStore β) : MessageStore β :=
  let cutoffTime := now - olderThanMs
  let batch := (store.prunedKeys getTime cutoffTime).map Operation.del
  { store with db := batch.foldl Operation.run store.db }

/-- The topic is within the range: it does not begin with a tilde or with a byte beyond it. -/
def Visible (topic : JSString) : Prop := ∀ byte ∈ (bytes topic).head?, byte < 126

instance : DecidablePred Visible := fun topic ↦
  inferInstanceAs (Decidable (∀ byte ∈ (bytes topic).head?, byte < 126))

/-- What remains is what is not old, and the index leads to it. -/
structure Exact (before after : MessageStore β) : Prop where
  remaining : ∀ message, message ∈ after.records ↔
    message ∈ before.records ∧ ¬Old getTime cutoffTime message
  found : ∀ message ∈ after.records,
    ∃ found ∈ after.records, after.getById message.id = some found ∧ found.id = message.id
  missing : ∀ id, (∀ message ∈ after.records, message.id ≠ id) → after.getById id = none

/-- Every old record is within the range and shares its entry in the index with old ones only. From
an id that is kept, the index leads to a record with that id. From any other, unless its entry is
that of an old record, it leads to an old record or to none. -/
structure Prunable (store : MessageStore β) : Prop where
  visible : ∀ message ∈ store.records, Old getTime cutoffTime message → Visible message.topic
  unshared : ∀ old ∈ store.records, Old getTime cutoffTime old →
    ∀ kept ∈ store.records, ¬Old getTime cutoffTime kept → ¬SameBytes old.id kept.id
  indexed : ∀ kept ∈ store.records, ¬Old getTime cutoffTime kept →
    ∃ found, store.getById kept.id = some found ∧ found.id = kept.id
  dangling : ∀ id,
    (∀ kept ∈ store.records, ¬Old getTime cutoffTime kept → kept.id ≠ id) →
      (∃ old ∈ store.records, Old getTime cutoffTime old ∧ SameBytes old.id id) ∨
        ∀ found, store.getById id = some found → Old getTime cutoffTime found

end Prune

/-! ## The range -/

theorem within_msg_iff (message : Message β) :
    bytes (ascii "msg:") ≤ messageKey message ∧ messageKey message ≤ bytes (ascii "msg:~") ↔
      Visible message.topic := by
  have hstart : bytes (ascii "msg:") = stem ++ [] := by decide +kernel
  have hend : bytes (ascii "msg:~") = stem ++ [126] := by decide +kernel
  rw [hstart, hend, messageKey_eq, List.append_assoc, LexicographicRange.append_le_append_iff,
    LexicographicRange.append_le_append_iff, Visible]
  have hlower (rest : List ℕ) : [] ≤ rest := not_lt.1 (List.not_lt_nil rest)
  rw [and_iff_right (hlower _)]
  cases bytes message.topic with
  | nil =>
    rw [List.nil_append, LexicographicRange.cons_le_cons_iff]
    exact iff_of_true (.inl (by decide)) (by simp)
  | cons first rest =>
    have hlonger (rest : List ℕ) : ¬rest ++ colon.toNat :: (stampBytes message.lamportTimestamp ++
        colon.toNat :: bytes message.id) ≤ [] :=
      not_le.2 (lt_of_le_of_ne (hlower _) (List.append_ne_nil_of_right_ne_nil _ (by simp)).symm)
    rw [List.cons_append, LexicographicRange.cons_le_cons_iff]
    simp [hlonger]

/-! ## Deleted keys -/

/-- The record is one of those that `prune` deletes. -/
def Pruned (getTime : JSString → Option ℤ) (cutoffTime : ℤ) (message : Message β) : Prop :=
  Visible message.topic ∧ Old getTime cutoffTime message

instance (getTime : JSString → Option ℤ) (cutoffTime : ℤ) :
    DecidablePred (@Pruned β getTime cutoffTime) := fun _ ↦ inferInstanceAs (Decidable (_ ∧ _))

variable {getTime : JSString → Option ℤ} {cutoffTime now olderThanMs : ℤ}

theorem get?_foldl_del (db : SortedMap (List ℕ) (StoredValue β)) (keys : List JSString)
    (key : List ℕ) :
    ((keys.map Operation.del).foldl Operation.run db).get? key =
      if ∃ deleted ∈ keys, bytes deleted = key then none else db.get? key := by
  induction keys generalizing db with
  | nil => simp
  | cons first keys ih =>
    rw [List.map_cons, List.foldl_cons, ih, Operation.run, SortedMap.get?_erase]
    simp only [List.mem_cons, exists_eq_or_imp]
    by_cases hlater : ∃ deleted ∈ keys, bytes deleted = key
    · simp only [hlater, or_true, if_true]
    · simp only [hlater, or_false, if_false, eq_comm (a := key)]

/-- Both keys of a pruned record are collected. -/
theorem mem_prunedKeys (events : List (Event β)) (deleted : JSString) :
    deleted ∈ (new.run events).settle.prunedKeys getTime cutoffTime ↔
      ∃ message ∈ (new.run events).settle.records, Pruned getTime cutoffTime message ∧
        (deleted = text (messageKey message) ∨ deleted = ascii "id:" ++ message.id) := by
  rw [prunedKeys, scan_settle, List.mem_flatMap]
  simp only [List.mem_map, List.mem_filter, decide_eq_true_eq, within_msg_iff]
  constructor
  · rintro ⟨_, ⟨message, ⟨hmem, hvisible⟩, rfl⟩, hkeys⟩
    dsimp only at hkeys
    split at hkeys
    · rename_i hold
      exact ⟨message, hmem, ⟨hvisible, hold⟩, List.mem_pair.1 hkeys⟩
    · cases hkeys
  · rintro ⟨message, hmem, ⟨hvisible, hold⟩, hkey⟩
    refine ⟨_, ⟨message, ⟨hmem, hvisible⟩, rfl⟩, ?_⟩
    dsimp only
    rw [if_pos hold]
    exact List.mem_pair.2 hkey

theorem exists_prunedKeys_iff (events : List (Event β)) (key : List ℕ) :
    (∃ deleted ∈ (new.run events).settle.prunedKeys getTime cutoffTime, bytes deleted = key) ↔
      ∃ message ∈ (new.run events).settle.records, Pruned getTime cutoffTime message ∧
        (messageKey message = key ∨ idKey message.id = key) := by
  have hread (message : Message β) : bytes (text (messageKey message)) = messageKey message :=
    bytes_text _
  simp only [mem_prunedKeys]
  constructor
  · rintro ⟨_, ⟨message, hmem, hpruned, rfl | rfl⟩, rfl⟩
    · exact ⟨message, hmem, hpruned, .inl (hread message).symm⟩
    · exact ⟨message, hmem, hpruned, .inr rfl⟩
  · rintro ⟨message, hmem, hpruned, rfl | rfl⟩
    · exact ⟨_, ⟨message, hmem, hpruned, .inl rfl⟩, hread message⟩
    · exact ⟨_, ⟨message, hmem, hpruned, .inr rfl⟩, rfl⟩

/-- Pruning takes the keys of the pruned records out of the database. -/
theorem get?_prune (events : List (Event β)) (key : List ℕ) :
    ((new.run events).settle.prune getTime now olderThanMs).db.get? key =
      if ∃ message ∈ (new.run events).settle.records, Pruned getTime (now - olderThanMs) message ∧
        (messageKey message = key ∨ idKey message.id = key) then none
      else (new.run events).settle.db.get? key := by
  rw [prune, get?_foldl_del]
  simp only [exists_prunedKeys_iff]

theorem eq_of_messageKey {events : List (Event β)} {left right : Message β}
    (hleft : left ∈ (new.run events).settle.records)
    (hright : right ∈ (new.run events).settle.records)
    (hkey : messageKey left = messageKey right) : left = right := by
  rw [mem_records_settle] at hleft hright
  rw [hkey, hright] at hleft
  exact (Option.some.inj hleft).symm

theorem get?_prune_messageKey {events : List (Event β)} {found : Message β}
    (hmem : found ∈ (new.run events).settle.records) :
    ((new.run events).settle.prune getTime now olderThanMs).db.get? (messageKey found) =
      if Pruned getTime (now - olderThanMs) found then none else some (.message found) := by
  have hpruned : (∃ other ∈ (new.run events).settle.records,
      Pruned getTime (now - olderThanMs) other ∧
        (messageKey other = messageKey found ∨ idKey other.id = messageKey found)) ↔
      Pruned getTime (now - olderThanMs) found := by
    constructor
    · rintro ⟨other, hother, hpruned, hkey | hkey⟩
      · rwa [eq_of_messageKey hother hmem hkey] at hpruned
      · exact absurd hkey.symm (messageKey_ne_idKey found other.id)
    · exact fun hpruned ↦ ⟨found, hmem, hpruned, .inl rfl⟩
  rw [get?_prune, get?_messageKey, (mem_records_settle events found).1 hmem]
  simp only [hpruned]
  rfl

theorem get?_prune_idKey (events : List (Event β)) (id : JSString) :
    ((new.run events).settle.prune getTime now olderThanMs).db.get? (idKey id) =
      if ∃ message ∈ (new.run events).settle.records,
        Pruned getTime (now - olderThanMs) message ∧ SameBytes message.id id then none
      else (new.run events).settle.db.get? (idKey id) := by
  have hindex (message : Message β) :
      (messageKey message = idKey id ∨ idKey message.id = idKey id) ↔ SameBytes message.id id := by
    rw [or_iff_right (messageKey_ne_idKey message id), idKey_inj]
    rfl
  rw [get?_prune]
  simp only [hindex]

theorem mem_records_prune (events : List (Event β)) (message : Message β) :
    message ∈ ((new.run events).settle.prune getTime now olderThanMs).records ↔
      message ∈ (new.run events).settle.records ∧
        ¬Pruned getTime (now - olderThanMs) message := by
  constructor
  · intro h
    obtain ⟨key, hafter⟩ := mem_records.1 h
    have hbefore := hafter
    rw [get?_prune] at hbefore
    split at hbefore
    · cases hbefore
    · obtain rfl := key_of_get? hbefore
      have hmem := mem_records.2 ⟨_, hbefore⟩
      refine ⟨hmem, fun hpruned ↦ ?_⟩
      rw [get?_prune_messageKey hmem, if_pos hpruned] at hafter
      cases hafter
  · rintro ⟨hmem, hnot⟩
    exact mem_records.2 ⟨messageKey message, by rw [get?_prune_messageKey hmem, if_neg hnot]⟩

/-- A read by id finds what it found before, unless a pruned record has the id or is what it
found. -/
theorem getById_prune (events : List (Event β)) (id : JSString) :
    ((new.run events).settle.prune getTime now olderThanMs).getById id =
      if ∃ message ∈ (new.run events).settle.records,
        Pruned getTime (now - olderThanMs) message ∧ SameBytes message.id id then none
      else ((new.run events).settle.getById id).filter fun found ↦
        ¬Pruned getTime (now - olderThanMs) found := by
  have hindex : ((new.run events).settle.prune getTime now olderThanMs).db.get? (idKey id) = _ :=
    get?_prune_idKey events id
  split
  · rename_i hshared
    rw [if_pos hshared] at hindex
    exact getById_eq_none hindex
  · rename_i hshared
    rw [if_neg hshared] at hindex
    have hbefore := get?_idKey events id
    cases hlast : lastWith (fun stored ↦ bytes stored.id = bytes id) (saved events) with
    | none =>
      rw [hlast] at hbefore
      rw [getById_eq_none hbefore, getById_eq_none (hindex.trans hbefore)]
      rfl
    | some message =>
      rw [hlast] at hbefore
      obtain ⟨found, hfound⟩ := exists_lastWith
        (fun stored ↦ messageKey stored = messageKey message) (of_lastWith hlast).1 rfl
      have hkey := (of_lastWith hfound).2
      have hmem : found ∈ (new.run events).settle.records := by
        rw [mem_records_settle, hkey]
        exact hfound
      rw [getById_eq hbefore, getById_eq (hindex.trans hbefore), ← hkey,
        get?_prune_messageKey hmem, get?_messageKey, hkey, hfound]
      by_cases hpruned : Pruned getTime (now - olderThanMs) found
      · simp [hpruned, StoredValue.message?, Option.filter_some]
      · simp [hpruned, StoredValue.message?, Option.filter_some]

/-! ## Exactness -/

theorem mem_records_of_getById {events : List (Event β)} {id : JSString} {found : Message β}
    (h : (new.run events).settle.getById id = some found) :
    found ∈ (new.run events).settle.records := by
  rw [getById_settle] at h
  obtain ⟨message, _, hfound⟩ := Option.bind_eq_some_iff.1 h
  rw [mem_records_settle, (of_lastWith hfound).2]
  exact hfound

section Exact

variable {events : List (Event β)}

theorem Exact.prunable (h : Exact getTime (now - olderThanMs) (new.run events).settle
    ((new.run events).settle.prune getTime now olderThanMs)) :
    Prunable getTime (now - olderThanMs) (new.run events).settle := by
  obtain ⟨hremaining, hfound, hmissing⟩ := h
  have hvisible : ∀ message ∈ (new.run events).settle.records,
      Old getTime (now - olderThanMs) message → Visible message.topic := by
    intro message hmem hold
    by_contra hhidden
    have hleft : message ∈ ((new.run events).settle.prune getTime now olderThanMs).records :=
      (mem_records_prune events message).2 ⟨hmem, fun hpruned ↦ hhidden hpruned.1⟩
    exact ((hremaining message).1 hleft).2 hold
  refine ⟨hvisible, ?_, ?_, ?_⟩
  · intro old hmem hold kept hkept hyoung hsame
    obtain ⟨found, _, hread, _⟩ := hfound kept ((hremaining kept).2 ⟨hkept, hyoung⟩)
    rw [getById_prune, if_pos ⟨old, hmem, ⟨hvisible old hmem hold, hold⟩, hsame⟩] at hread
    cases hread
  · intro kept hkept hyoung
    obtain ⟨found, _, hread, hid⟩ := hfound kept ((hremaining kept).2 ⟨hkept, hyoung⟩)
    rw [getById_prune] at hread
    split at hread
    · cases hread
    · exact ⟨found, (Option.filter_eq_some_iff.1 hread).1, hid⟩
  · intro id hnone
    have hread := hmissing id fun message hmem ↦
      hnone message ((hremaining message).1 hmem).1 ((hremaining message).1 hmem).2
    rw [getById_prune] at hread
    split at hread
    · rename_i hshared
      obtain ⟨old, hmem, hpruned, hsame⟩ := hshared
      exact .inl ⟨old, hmem, hpruned.2, hsame⟩
    · right
      intro found hbefore
      rw [hbefore, Option.filter_some] at hread
      by_contra hyoung
      have hkept : ¬Pruned getTime (now - olderThanMs) found := fun hpruned ↦ hyoung hpruned.2
      simp [hkept] at hread

theorem Prunable.exact (h : Prunable getTime (now - olderThanMs) (new.run events).settle) :
    Exact getTime (now - olderThanMs) (new.run events).settle
      ((new.run events).settle.prune getTime now olderThanMs) := by
  obtain ⟨hvisible, hunshared, hindexed, hdangling⟩ := h
  have hpruned {message : Message β} (hmem : message ∈ (new.run events).settle.records) :
      Pruned getTime (now - olderThanMs) message ↔ Old getTime (now - olderThanMs) message :=
    and_iff_right_of_imp (hvisible message hmem)
  have hremaining (message : Message β) :
      message ∈ ((new.run events).settle.prune getTime now olderThanMs).records ↔
        message ∈ (new.run events).settle.records ∧
          ¬Old getTime (now - olderThanMs) message := by
    rw [mem_records_prune]
    exact and_congr_right fun hmem ↦ not_congr (hpruned hmem)
  refine ⟨hremaining, ?_, ?_⟩
  · intro kept hkept
    obtain ⟨hmem, hyoung⟩ := (hremaining kept).1 hkept
    obtain ⟨found, hbefore, hid⟩ := hindexed kept hmem hyoung
    have hrecord := mem_records_of_getById hbefore
    have hfresh : ¬Old getTime (now - olderThanMs) found := by
      intro hold
      exact hunshared found hrecord hold kept hmem hyoung (congrArg bytes hid)
    refine ⟨found, (hremaining found).2 ⟨hrecord, hfresh⟩, ?_, hid⟩
    rw [getById_prune, if_neg, hbefore, Option.filter_some]
    · have hnot : ¬Pruned getTime (now - olderThanMs) found := fun h ↦ hfresh h.2
      simp [hnot]
    · rintro ⟨old, hold, hgone, hsame⟩
      exact hunshared old hold hgone.2 kept hmem hyoung hsame
  · intro id hnone
    have hgone := hdangling id fun kept hmem hyoung ↦
      hnone kept ((hremaining kept).2 ⟨hmem, hyoung⟩)
    rw [getById_prune]
    split
    · rfl
    · rename_i hshared
      rcases hgone with ⟨old, hmem, hold, hsame⟩ | hgone
      · exact absurd ⟨old, hmem, (hpruned hmem).2 hold, hsame⟩ hshared
      · cases hbefore : (new.run events).settle.getById id with
        | none => rfl
        | some found =>
          have hold := (hpruned (mem_records_of_getById hbefore)).2 (hgone found hbefore)
          simp [Option.filter_some, hold]

/-- Pruning a store with everything committed is exact if and only if it is prunable. -/
theorem exact_prune_iff (getTime : JSString → Option ℤ) (now olderThanMs : ℤ)
    (hcommitted : (new.run events).Committed) :
    Exact getTime (now - olderThanMs) (new.run events)
        ((new.run events).prune getTime now olderThanMs) ↔
      Prunable getTime (now - olderThanMs) (new.run events) := by
  rw [← hcommitted.settle]
  exact ⟨Exact.prunable, Prunable.exact⟩

/-- With ids of characters below `0x80` and without colons, the index leads where it should. -/
theorem prunable_iff {cutoffTime : ℤ}
    (hids : ∀ message ∈ saved events, colon ∉ message.id ∧ ∀ unit ∈ message.id, unit.toNat < 0x80) :
    Prunable getTime cutoffTime (new.run events).settle ↔
      (∀ message ∈ (new.run events).settle.records, Old getTime cutoffTime message →
        Visible message.topic) ∧
      ∀ old ∈ (new.run events).settle.records, Old getTime cutoffTime old →
        ∀ kept ∈ (new.run events).settle.records, ¬Old getTime cutoffTime kept →
          old.id ≠ kept.id := by
  have hsaved {message : Message β} (hmem : message ∈ (new.run events).settle.records) :
      message ∈ saved events := (of_lastWith ((mem_records_settle events message).1 hmem)).1
  have hsame {message : Message β} (hmem : message ∈ saved events) (id : JSString) :
      SameBytes message.id id ↔ message.id = id := by
    constructor
    · intro h
      exact (Utf8.eq_of_encode_eq (hids message hmem).2 (bytes_inj_encode.1 h).symm).symm
    · exact congrArg bytes
  have hindex (id : JSString) := getById_eq_lastWith (fun message hmem ↦ (hids message hmem).1) id
  constructor
  · rintro ⟨hvisible, hunshared, -, -⟩
    refine ⟨hvisible, fun old hmem hold kept hkept hyoung hid ↦ ?_⟩
    exact hunshared old hmem hold kept hkept hyoung (congrArg bytes hid)
  · rintro ⟨hvisible, hunshared⟩
    refine ⟨hvisible, ?_, ?_, ?_⟩
    · intro old hmem hold kept hkept hyoung hbytes
      exact hunshared old hmem hold kept hkept hyoung ((hsame (hsaved hmem) _).1 hbytes)
    · intro kept hkept _
      obtain ⟨found, hfound⟩ := exists_lastWith (fun message ↦ SameBytes message.id kept.id)
        (hsaved hkept) rfl
      obtain ⟨hmem, hbytes⟩ := of_lastWith hfound
      exact ⟨found, (hindex kept.id).trans hfound, (hsame hmem _).1 hbytes⟩
    · intro id hnone
      right
      intro found hfound
      by_contra hyoung
      have hrecord := mem_records_of_getById hfound
      rw [hindex] at hfound
      obtain ⟨hmem, hbytes⟩ := of_lastWith hfound
      exact hnone found hrecord hyoung ((hsame hmem _).1 hbytes)

end Exact

/-! ## Closed runs -/

/-- The times of two dates. -/
def sampleTime (date : JSString) : Option ℤ :=
  if date = ascii "2024-01-01T00:00:00.000Z" then some 1704067200000
  else if date = ascii "2024-01-08T00:00:00.000Z" then some 1704672000000
  else none

def oldMessage (topic : JSString) : Message Unit :=
  ⟨ascii "m1", topic, 1, ascii "2024-01-01T00:00:00.000Z", ()⟩

/-- An old message, and a younger one saved twice. -/
def aged : List (Event Unit) :=
  [.save (oldMessage (ascii "global")),
    .save ⟨ascii "m2", ascii "~tmp", 2, ascii "2024-01-08T00:00:00.000Z", ()⟩, .flush, .commit,
    .save ⟨ascii "m2", ascii "~tmp", 3, ascii "2024-01-08T00:00:00.000Z", ()⟩, .flush, .commit]

theorem committed_aged : (new.run aged).Committed := ⟨by decide +kernel, by decide +kernel⟩

theorem prunable_aged : Prunable sampleTime (1704672000000 - 86400000) (new.run aged) := by
  rw [← committed_aged.settle]
  apply (prunable_iff _).2
  · exact ⟨by decide +kernel, by decide +kernel⟩
  · simp [aged, oldMessage, saved, ascii, colon]

theorem exact_prune_iff_aged : Exact sampleTime (1704672000000 - 86400000) (new.run aged)
    ((new.run aged).prune sampleTime 1704672000000 86400000) :=
  (exact_prune_iff sampleTime 1704672000000 86400000 committed_aged).2 prunable_aged

/-- An old message on a topic that begins with a letter outside of ASCII. -/
def accented : List (Event Unit) := [.save (oldMessage [0xE9, 0x74, 0xE9]), .flush, .commit]

/-- The message stays. -/
theorem not_exact_accented :
    ¬∀ (getTime : JSString → Option ℤ) (now olderThanMs : ℤ) (events : List (Event Unit)),
      (new.run events).Committed →
      (∀ message ∈ saved events, (getTime message.createdAt).isSome = true) →
      Exact getTime (now - olderThanMs) (new.run events)
        ((new.run events).prune getTime now olderThanMs) := by
  intro h
  have hcommitted : (new.run accented).Committed := ⟨by decide +kernel, by decide +kernel⟩
  have hexact := h sampleTime 1704672000000 86400000 accented hcommitted (by decide +kernel)
  have hremaining := (hexact.remaining (oldMessage [0xE9, 0x74, 0xE9])).1 (by decide +kernel)
  exact absurd (by decide +kernel) hremaining.2

end P2PApp.Encoded.MessageStore
