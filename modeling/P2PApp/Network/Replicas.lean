import P2PApp.Network.Dissemination
import P2PApp.Storage.MessageStore

/-!
# Replicas of the conversations

Every process saves what it announces except for advertisements, in the order in which the network
brings it. The copies of one message differ in their hops only. Up to the hops, a database is a
function of the set of ids that were saved: the order of the saves, their repetitions and the
batches in which they were written leave no trace.
-/

namespace P2PApp

/-- What no hop changes. -/
def P2PMessage.content (message : P2PMessage) : P2PMessage :=
  { message with ttl := 0, routingPath := none }

def StoredValue.content : StoredValue → StoredValue
  | .message stored => .message stored.content
  | .reference key => .reference key

theorem StoredValue.message?_content (value : StoredValue) :
    value.content.message? = value.message?.map P2PMessage.content := by
  cases value <;> rfl

namespace MessageStore

/-- The database once all writes are committed, up to the hops. -/
def contents (store : MessageStore) : SortedMap String StoredValue :=
  store.flush.db.mapValues StoredValue.content

/-! ## What is read -/

/-- A scan reads the contents. -/
theorem map_content_scan (store : MessageStore) (low high : String) :
    (store.flush.scan low high).map P2PMessage.content =
      (store.contents.range low high).filterMap fun entry ↦ entry.2.message? := by
  rw [contents, SortedMap.range_mapValues, scan, List.map_filterMap, List.filterMap_map]
  congr 1
  funext entry
  exact (StoredValue.message?_content entry.2).symm

/-- A condition that the hops do not enter may be checked before or after they are dropped. -/
theorem map_content_filter {condition : P2PMessage → Bool}
    (h : ∀ message, condition message.content = condition message) (messages : List P2PMessage) :
    (messages.filter condition).map P2PMessage.content =
      (messages.map P2PMessage.content).filter condition := by
  have hcondition : condition ∘ P2PMessage.content = condition := by
    funext message
    exact h message
  rw [List.filter_map, hcondition]

theorem map_sliceLast (limit : ℕ) (messages : List P2PMessage) :
    (sliceLast limit messages).map P2PMessage.content =
      sliceLast limit (messages.map P2PMessage.content) := by
  unfold sliceLast
  split
  · rfl
  · rw [List.map_drop, List.length_map]

/-- The same database and the same answers, up to the hops. -/
structure Agree (store other : MessageStore) : Prop where
  contents : store.contents = other.contents
  getRecentMessages : ∀ topic limit,
    (store.getRecentMessages topic limit).1.map P2PMessage.content =
      (other.getRecentMessages topic limit).1.map P2PMessage.content
  getByTopic : ∀ topic sinceTimestamp,
    (store.getByTopic topic sinceTimestamp).1.map P2PMessage.content =
      (other.getByTopic topic sinceTimestamp).1.map P2PMessage.content

theorem agree_of_contents {store other : MessageStore} (h : store.contents = other.contents) :
    Agree store other where
  contents := h
  getRecentMessages topic limit := by
    have hchat (message : P2PMessage) :
        decide (message.content.type = .chat) = decide (message.type = .chat) := rfl
    unfold getRecentMessages
    dsimp only
    rw [map_sliceLast, map_sliceLast, map_content_filter hchat, map_content_filter hchat,
      map_content_scan, map_content_scan, h]
  getByTopic topic sinceTimestamp := by
    have hlater (message : P2PMessage) :
        decide (sinceTimestamp < message.content.lamportTimestamp) =
          decide (sinceTimestamp < message.lamportTimestamp) := rfl
    unfold getByTopic
    dsimp only
    rw [map_content_filter hlater, map_content_filter hlater, map_content_scan, map_content_scan,
      h]

/-! ## What is written -/

/-- The ids tell the messages apart, and so do the keys. -/
structure Consistent (messages : List P2PMessage) : Prop where
  content : ∀ message ∈ messages, ∀ other ∈ messages, message.id = other.id →
    message.content = other.content
  key : ∀ message ∈ messages, ∀ other ∈ messages, keyOf message = keyOf other →
    message.id = other.id

theorem keyOf_of_content {message other : P2PMessage} (h : message.content = other.content) :
    keyOf message = keyOf other := by
  have hkey (message : P2PMessage) : keyOf message.content = keyOf message := rfl
  rw [← hkey message, h, hkey]

theorem Consistent.mono {messages more : List P2PMessage} (h : Consistent more)
    (hsubset : messages ⊆ more) : Consistent messages where
  content message hmessage other hother :=
    h.content message (hsubset hmessage) other (hsubset hother)
  key message hmessage other hother := h.key message (hsubset hmessage) other (hsubset hother)

/-- Every saved message has left its key to a survivor. -/
theorem exists_survivor {messages : List P2PMessage} {message : P2PMessage}
    (h : message ∈ messages) : ∃ kept ∈ survivors messages, keyOf kept = keyOf message := by
  induction messages using List.reverseRecOn with
  | nil => cases h
  | append_singleton messages last ih =>
    rw [survivors_concat]
    by_cases hkey : keyOf last = keyOf message
    · exact ⟨last, List.mem_append_right _ List.mem_cons_self, hkey⟩
    · have hearlier : message ∈ messages := by
        apply (List.mem_append.1 h).resolve_right
        intro hlast
        rw [List.mem_singleton.1 hlast] at hkey
        exact hkey rfl
      obtain ⟨kept, hkept, hsame⟩ := ih hearlier
      have hother : keyOf kept ≠ keyOf last := fun heq ↦ hkey (heq.symm.trans hsame)
      exact ⟨kept, List.mem_append_left _ (List.mem_filter.2 ⟨hkept, decide_eq_true hother⟩), hsame⟩

theorem saved_concat_save (events : List Event) (message : P2PMessage) :
    saved (events ++ [.save message]) = saved events ++ [message] := by
  simp [saved]

theorem saved_concat_flush (events : List Event) : saved (events ++ [.flush]) = saved events := by
  simp [saved]

theorem run_concat (store : MessageStore) (events : List Event) (last : Event) :
    store.run (events ++ [last]) = (store.run events).apply last :=
  List.foldl_concat ..

theorem reference_ne_keyOf (message : P2PMessage) (id : String) : "id:" ++ id ≠ keyOf message :=
  (keyOf_ne_reference message id).symm

/-- An index entry was written along with a message. -/
theorem exists_of_reference {events : List Event} {key target : String}
    (h : (key, .reference target) ∈ (new.run events).flush.db.entries) :
    ∃ message ∈ saved events, key = "id:" ++ message.id ∧ target = keyOf message := by
  induction events using List.reverseRecOn with
  | nil => cases h
  | append_singleton events last ih =>
    rw [run_concat] at h
    cases last with
    | flush =>
      rw [saved_concat_flush]
      exact ih h
    | save newest =>
      rw [saved_concat_save]
      rw [apply, db_flush_save, SortedMap.mem_entries_put, SortedMap.mem_entries_put] at h
      obtain hnew | ⟨hput | ⟨hold, -⟩, -⟩ := h
      · injection hnew with hkey htarget
        injection htarget with htarget
        exact ⟨newest, List.mem_append_right _ List.mem_cons_self, hkey, htarget⟩
      · injection hput with _ hvalue
        cases hvalue
      · obtain ⟨message, hmem, hentry⟩ := ih hold
        exact ⟨message, List.mem_append_left _ hmem, hentry⟩

/-- Every saved message has an index entry. -/
theorem exists_reference {events : List Event} {message : P2PMessage} (h : message ∈ saved events) :
    ∃ target, ("id:" ++ message.id, .reference target) ∈ (new.run events).flush.db.entries := by
  induction events using List.reverseRecOn with
  | nil => cases h
  | append_singleton events last ih =>
    rw [run_concat]
    cases last with
    | flush =>
      rw [saved_concat_flush] at h
      exact ih h
    | save newest =>
      rw [saved_concat_save] at h
      simp only [apply, db_flush_save, SortedMap.mem_entries_put]
      by_cases hkey : "id:" ++ message.id = "id:" ++ newest.id
      · exact ⟨keyOf newest, .inl (by rw [hkey])⟩
      · have hearlier : message ∈ saved events := by
          apply (List.mem_append.1 h).resolve_right
          intro hlast
          rw [List.mem_singleton.1 hlast] at hkey
          exact hkey rfl
        obtain ⟨target, hold⟩ := ih hearlier
        exact ⟨target, .inr ⟨.inr ⟨hold, reference_ne_keyOf newest message.id⟩, hkey⟩⟩

/-- The contents are the saved messages and the index entries of these. -/
theorem mem_contents {events : List Event} (hconsistent : Consistent (saved events))
    {entry : String × StoredValue} :
    entry ∈ (new.run events).contents.entries ↔ ∃ message ∈ saved events,
      entry = (keyOf message, .message message.content) ∨
        entry = ("id:" ++ message.id, .reference (keyOf message)) := by
  rw [contents, SortedMap.mapValues, List.mem_map]
  constructor
  · rintro ⟨⟨key, value⟩, hstored, rfl⟩
    cases value with
    | message stored =>
      obtain ⟨hsurvives, rfl⟩ := (mem_db_run events key stored).1 hstored
      exact ⟨stored, survivors_subset _ hsurvives, .inl rfl⟩
    | reference target =>
      obtain ⟨message, hmem, rfl, rfl⟩ := exists_of_reference hstored
      exact ⟨message, hmem, .inr rfl⟩
  · rintro ⟨message, hmem, rfl | rfl⟩
    · obtain ⟨kept, hkept, hkey⟩ := exists_survivor hmem
      have hid := hconsistent.key kept (survivors_subset _ hkept) message hmem hkey
      have hcontent := hconsistent.content kept (survivors_subset _ hkept) message hmem hid
      refine ⟨(keyOf kept, .message kept), (mem_db_run events _ kept).2 ⟨hkept, rfl⟩, ?_⟩
      rw [StoredValue.content, hkey, hcontent]
    · obtain ⟨target, hstored⟩ := exists_reference hmem
      obtain ⟨writer, hwriter, hreference, rfl⟩ := exists_of_reference hstored
      have hid : writer.id = message.id := ((String.append_right_inj _).1 hreference).symm
      have hcontent := hconsistent.content writer hwriter message hmem hid
      refine ⟨_, hstored, ?_⟩
      rw [StoredValue.content, keyOf_of_content hcontent]

/-- The contents grow with the set of the ids that were saved. -/
theorem contents_subset_iff {saves others : List Event}
    (hconsistent : Consistent (saved saves ++ saved others)) :
    (new.run saves).contents.entries ⊆ (new.run others).contents.entries ↔
      (saved saves).map P2PMessage.id ⊆ (saved others).map P2PMessage.id := by
  have hsaves : Consistent (saved saves) := hconsistent.mono (List.subset_append_left _ _)
  have hothers : Consistent (saved others) := hconsistent.mono (List.subset_append_right _ _)
  constructor
  · intro hsubset id hid
    obtain ⟨message, hmem, rfl⟩ := List.mem_map.1 hid
    have hentry := hsubset ((mem_contents hsaves).2 ⟨message, hmem, .inr rfl⟩)
    obtain ⟨other, hother, hmessage | hreference⟩ := (mem_contents hothers).1 hentry
    · injection hmessage with _ hvalue
      cases hvalue
    · injection hreference with hkey
      rw [(String.append_right_inj _).1 hkey]
      exact List.mem_map_of_mem hother
  · intro hsubset entry hentry
    obtain ⟨message, hmem, hforms⟩ := (mem_contents hsaves).1 hentry
    obtain ⟨other, hother, hid⟩ := List.mem_map.1 (hsubset (List.mem_map_of_mem hmem))
    have hcontent := hconsistent.content other (List.mem_append_right _ hother) message
      (List.mem_append_left _ hmem) hid
    apply (mem_contents hothers).2
    refine ⟨other, hother, ?_⟩
    rw [hcontent, hid, keyOf_of_content hcontent]
    exact hforms

/-- The contents tell which ids were saved, and nothing else. -/
theorem agree_iff {saves others : List Event}
    (hconsistent : Consistent (saved saves ++ saved others)) :
    Agree (new.run saves) (new.run others) ↔
      ∀ id, id ∈ (saved saves).map P2PMessage.id ↔ id ∈ (saved others).map P2PMessage.id := by
  have hconsistent' : Consistent (saved others ++ saved saves) :=
    hconsistent.mono List.perm_append_comm.subset
  constructor
  · intro hagree id
    have hentries := congrArg SortedMap.entries hagree.contents
    constructor
    · intro hid
      exact (contents_subset_iff hconsistent).1 (hentries ▸ List.Subset.refl _) hid
    · intro hid
      exact (contents_subset_iff hconsistent').1 (hentries ▸ List.Subset.refl _) hid
  · intro hids
    apply agree_of_contents
    apply SortedMap.eq_of_mem_iff
    intro entry
    constructor
    · intro hentry
      exact (contents_subset_iff hconsistent).2 (fun id hid ↦ (hids id).1 hid) hentry
    · intro hentry
      exact (contents_subset_iff hconsistent').2 (fun id hid ↦ (hids id).2 hid) hentry

/-! ## The keys -/

/-- What stands behind the last colon of a key is the id. -/
theorem takeWhile_reverse_keyOf {message : P2PMessage} (h : ':' ∉ message.id.toList) :
    (keyOf message).toList.reverse.takeWhile (· ≠ ':') = message.id.toList.reverse := by
  have hid : ∀ character ∈ message.id.toList.reverse, decide (character ≠ ':') = true := by
    intro character hmem
    apply decide_eq_true
    rintro rfl
    exact h (List.mem_reverse.1 hmem)
  have hkey : (keyOf message).toList.reverse = message.id.toList.reverse ++
      ':' :: ("msg:" ++ message.topic ++ ":" ++
        padStart message.lamportTimestamp).toList.reverse := by
    rw [keyOf, makeKey, String.toList_append, List.reverse_append]
    congr 1
    rw [String.toList_append, List.reverse_append]
    rfl
  rw [hkey, List.takeWhile_append_of_pos hid, List.takeWhile_cons_of_neg (by simp),
    List.append_nil]

theorem id_of_keyOf {message other : P2PMessage} (hmessage : ':' ∉ message.id.toList)
    (hother : ':' ∉ other.id.toList) (h : keyOf message = keyOf other) :
    message.id = other.id := by
  apply String.toList_injective
  apply List.reverse_injective
  rw [← takeWhile_reverse_keyOf hmessage, h, takeWhile_reverse_keyOf hother]

end MessageStore

namespace Network

variable {ι : Type*}

open MessageStore (Agree Consistent new saved)

/-! ## The processes -/

/-- A process has saved what it has announced except for advertisements. -/
def Keeps (process : Process ι) (saves : List MessageStore.Event) : Prop :=
  ∀ message, message ∈ saved saves ↔
    message ∈ process.announcedLog.map Copy.message ∧ message.type ≠ .subAd

theorem Descends.content {world : World ι} {copy : Copy ι} (h : Descends world copy) :
    ∃ message ∈ world.published, copy.message.content = message.content := by
  obtain ⟨message, hpublished, hsame, -⟩ := h.origin
  refine ⟨message, hpublished, ?_⟩
  rw [hsame]
  rfl

/-- What a process has saved was published, up to the hops. -/
theorem Disseminates.origin {world : World ι} (h : Disseminates world) {node : ι}
    {saves : List MessageStore.Event} (hkeeps : Keeps (world.process node) saves)
    {message : P2PMessage} (hmem : message ∈ saved saves) :
    ∃ original ∈ world.published, message.content = original.content := by
  obtain ⟨copy, hcopy, rfl⟩ := List.mem_map.1 ((hkeeps message).1 hmem).1
  exact (h.announced node copy hcopy).content

theorem id_of_content {message original : P2PMessage} (h : message.content = original.content) :
    message.id = original.id := by
  have hid (message : P2PMessage) : message.content.id = message.id := rfl
  rw [← hid message, h, hid]

/-- Copies of published messages are told apart by their ids, and by their keys. -/
theorem consistent_of_published {published messages : List P2PMessage}
    (hdistinct : (published.map P2PMessage.id).Nodup)
    (hids : ∀ message ∈ published, ':' ∉ message.id.toList)
    (h : ∀ message ∈ messages, ∃ original ∈ published, message.content = original.content) :
    Consistent messages where
  content message hmessage other hother heq := by
    obtain ⟨original, horiginal, hcontent⟩ := h message hmessage
    obtain ⟨original', horiginal', hcontent'⟩ := h other hother
    have hsame : original = original' := by
      apply List.inj_on_of_nodup_map hdistinct horiginal horiginal'
      rw [← id_of_content hcontent, heq, id_of_content hcontent']
    rw [hcontent, hsame, hcontent']
  key message hmessage other hother heq := by
    obtain ⟨original, horiginal, hcontent⟩ := h message hmessage
    obtain ⟨original', horiginal', hcontent'⟩ := h other hother
    apply MessageStore.id_of_keyOf
    · rw [id_of_content hcontent]
      exact hids original horiginal
    · rw [id_of_content hcontent']
      exact hids original' horiginal'
    · exact heq

variable [DecidableEq ι]

/-- Processes of one network agree on their databases, up to the hops, exactly when they have saved
the same ids. -/
theorem agree_iff_ids {platform : Platform} {link : ι → Connection → ι} {initial world : World ι}
    {events : List (Event ι)} (hinitial : initial.Initial)
    (hrun : (World.system platform link).Run initial events world)
    (hids : ∀ message ∈ world.published, ':' ∉ message.id.toList) {node other : ι}
    {saves others : List MessageStore.Event} (hnode : Keeps (world.process node) saves)
    (hother : Keeps (world.process other) others) :
    Agree (new.run saves) (new.run others) ↔
      ∀ id, id ∈ (saved saves).map P2PMessage.id ↔ id ∈ (saved others).map P2PMessage.id := by
  have hstart : Disseminates initial ∧ (initial.published.map P2PMessage.id).Nodup := by
    rw [hinitial.published]
    exact ⟨disseminates_of_initial hinitial, List.nodup_nil⟩
  obtain ⟨h, hdistinct⟩ : Disseminates world ∧ (world.published.map P2PMessage.id).Nodup := by
    apply hrun.invariant_next ?_ hstart
    intro current event hcurrent henabled
    exact ⟨disseminates_next platform link hcurrent.1 henabled,
      nodup_published_next platform link hcurrent.2 henabled⟩
  apply MessageStore.agree_iff
  apply consistent_of_published hdistinct hids
  intro message hmem
  cases List.mem_append.1 hmem with
  | inl hsaved => exact h.origin hnode hsaved
  | inr hsaved => exact h.origin hother hsaved

/-! ## Two replicas of a question -/

/-- Who has asked writes at once, and who has received the question saves it twice. -/
def asked : List MessageStore.Event := [.save { World.question with ttl := 9 }, .flush]

def received : List MessageStore.Event :=
  [.save { World.question with ttl := 8 }, .save { World.question with ttl := 8 }]

/-- What both have in the end. -/
def afterQuestion : World (Fin 2) :=
  World.askAndReceive.foldl (World.next Pow.javaScript World.toTheOther) World.twoProcesses

theorem keeps_asked : Keeps (afterQuestion.process 0) asked := by
  have hlog : (afterQuestion.process 0).announcedLog.map Copy.message =
      [{ World.question with ttl := 9 }] := by decide +kernel
  intro message
  rw [hlog]
  change message ∈ [_] ↔ _
  rw [List.mem_singleton]
  constructor
  · rintro rfl
    exact ⟨rfl, by decide +kernel⟩
  · exact And.left

theorem keeps_received : Keeps (afterQuestion.process 1) received := by
  have hlog : (afterQuestion.process 1).announcedLog.map Copy.message =
      [{ World.question with ttl := 8 }] := by decide +kernel
  intro message
  rw [hlog]
  change message ∈ [_, _] ↔ _
  rw [List.mem_pair, or_self, List.mem_singleton]
  constructor
  · rintro rfl
    exact ⟨rfl, by decide +kernel⟩
  · exact And.left

theorem run_afterQuestion : (World.system Pow.javaScript World.toTheOther).Run World.twoProcesses
    World.askAndReceive afterQuestion :=
  World.run_askAndReceive

theorem agree_iff_ids_question :
    Agree (new.run asked) (new.run received) ↔
      ∀ id, id ∈ (saved asked).map P2PMessage.id ↔ id ∈ (saved received).map P2PMessage.id := by
  apply agree_iff_ids World.initial_twoProcesses run_afterQuestion ?_ keeps_asked keeps_received
  decide +kernel

end Network

end P2PApp
