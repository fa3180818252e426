import P2PApp.Library.OrderStatistic
import P2PApp.Storage.KeyOrder

/-!
# The recent messages of a topic

`getRecentMessages` of the node reads whatever has a key that begins with the topic, and keeps the
last chat messages in the order of the keys. For the topic itself that is the order of the stamps
and the ids. Messages of longer topics are read along with it, and take their places among the last
ones as their keys say.
-/

namespace P2PApp.Encoded.MessageStore

open JsonString

variable {β : Type*}

/-- `messages.slice(-limit)`, which for zero is the whole list. -/
def sliceLast (limit : ℕ) (messages : List (Message β)) : List (Message β) :=
  if limit = 0 then messages else messages.drop (messages.length - limit)

def recentStart (topic : JSString) : JSString := ascii "msg:" ++ topic ++ ascii ":"

/-- The scan of `getRecentMessages`, behind its flush. The type is among the fields that the store
does not read. -/
def getRecentMessages (isChat : Message β → Bool) (store : MessageStore β) (topic : JSString)
    (limit : ℕ) : List (Message β) :=
  sliceLast limit (((store.scan (recentStart topic) (endKey topic)).map Prod.snd).filter isChat)

/-- The message is within the bounds of the scan. -/
def Captured (topic : JSString) (message : Message β) : Prop :=
  bytes (recentStart topic) ≤ messageKey message ∧ messageKey message ≤ bytes (endKey topic)

instance (topic : JSString) : DecidablePred (@Captured β topic) := fun _ ↦
  inferInstanceAs (Decidable (_ ∧ _))

/-- The place of a message among those of its topic. -/
def place (message : Message β) : ℕ ×ₗ List ℕ := toLex (message.lamportTimestamp, bytes message.id)

theorem sliceLast_sublist (limit : ℕ) (messages : List (Message β)) :
    (sliceLast limit messages).Sublist messages := by
  unfold sliceLast
  split
  · exact List.Sublist.refl _
  · exact List.drop_sublist _ _

/-! ## The scan -/

/-- A message of the topic itself is always read. -/
theorem captured_own (message : Message β) : Captured message.topic message := by
  have hstart : bytes (recentStart message.topic) =
      stem ++ bytes message.topic ++ [colon.toNat] := by
    have hsplit : recentStart message.topic = ascii "msg:" ++ message.topic ++ colon :: [] := by
      simp [recentStart, ascii, colon]
    rw [hsplit, bytes_topic]
    rfl
  have hend : bytes (endKey message.topic) =
      stem ++ bytes message.topic ++ colon.toNat :: [126] := by
    have hsplit : endKey message.topic = ascii "msg:" ++ message.topic ++ colon :: ascii "~" := by
      simp [endKey, ascii, colon]
    rw [hsplit, bytes_topic]
    rfl
  constructor
  · rw [hstart, messageKey_eq, ← not_lt, append_left_lt_iff]
    apply (append_left_lt_iff [colon.toNat] _ []).not.2
    exact List.not_lt_nil _
  · apply le_of_lt
    rw [messageKey_eq, hend, append_left_lt_iff]
    apply (append_left_lt_iff [colon.toNat] _ [126]).2
    exact stampBytes_append_lt _ _

/-- What the scan returns are records. -/
theorem getRecentMessages_settle (isChat : Message β → Bool) (events : List (Event β))
    (topic : JSString) (limit : ℕ) :
    (new.run events).settle.getRecentMessages isChat topic limit =
      sliceLast limit ((new.run events).settle.records.filter fun message ↦
        isChat message ∧ Captured topic message) := by
  rw [getRecentMessages, scan_settle, List.map_map]
  have hmessages (messages : List (Message β)) :
      messages.map (Prod.snd ∘ fun message ↦ (text (messageKey message), message)) = messages :=
    List.map_id messages
  rw [hmessages, List.filter_filter]
  congr 1
  apply List.filter_congr
  intro message _
  rw [Bool.eq_iff_iff, decide_eq_true_iff]
  simp only [Bool.and_eq_true, decide_eq_true_eq]
  rfl

/-! ## The last ones -/

section Last

variable {isChat : Message β → Bool} {events : List (Event β)} {topic : JSString}

theorem messageKey_lt_iff_place (hstamps : ∀ message ∈ saved events, message.topic = topic →
      message.lamportTimestamp < 10 ^ 15) {left right : Message β}
    (hleft : left ∈ (new.run events).settle.records)
    (hright : right ∈ (new.run events).settle.records)
    (hleftTopic : left.topic = topic) (hrightTopic : right.topic = topic) :
    messageKey left < messageKey right ↔ place left < place right := by
  have hfits {message : Message β} (hmem : message ∈ (new.run events).settle.records)
      (htopic : message.topic = topic) : Fits topic message :=
    ⟨htopic, hstamps message (of_lastWith ((mem_records_settle events message).1 hmem)).1 htopic⟩
  exact messageKey_lt_iff (hfits hleft hleftTopic) (hfits hright hrightTopic)

/-- Records of the topic come back in their places. -/
theorem pairwise_place (hstamps : ∀ message ∈ saved events, message.topic = topic →
      message.lamportTimestamp < 10 ^ 15) (limit : ℕ) :
    (((new.run events).settle.getRecentMessages isChat topic limit).filter fun message ↦
      message.topic = topic).Pairwise fun left right ↦ place left < place right := by
  have hsublist : ((new.run events).settle.getRecentMessages isChat topic limit).Sublist
      (new.run events).settle.records := by
    rw [getRecentMessages_settle]
    exact (sliceLast_sublist limit _).trans List.filter_sublist
  have hkeys := ((pairwise_records events).sublist hsublist).filter fun message ↦
    decide (message.topic = topic)
  apply hkeys.imp_of_mem
  intro left right hleft hright hless
  have hleft := List.mem_filter.1 hleft
  have hright := List.mem_filter.1 hright
  exact (messageKey_lt_iff_place hstamps (hsublist.subset hleft.1) (hsublist.subset hright.1)
    (of_decide_eq_true hleft.2) (of_decide_eq_true hright.2)).1 hless

/-- What stands behind a record of the topic in the scan. -/
theorem countP_behind (hstamps : ∀ message ∈ saved events, message.topic = topic →
      message.lamportTimestamp < 10 ^ 15) {message : Message β}
    (hrecord : message ∈ (new.run events).settle.records) (hown : message.topic = topic) :
    (((new.run events).settle.records.filter fun other ↦
        isChat other ∧ Captured topic other).countP fun other ↦
          messageKey message < messageKey other) =
      ((new.run events).settle.records.countP fun other ↦
          isChat other ∧ other.topic = topic ∧ place message < place other) +
        (new.run events).settle.records.countP fun other ↦
          isChat other ∧ other.topic ≠ topic ∧ Captured topic other ∧
            messageKey message < messageKey other := by
  rw [List.countP_filter, List.countP_eq_length_filter,
    @List.length_eq_countP_add_countP _ fun other : Message β ↦ decide (other.topic = topic)]
  congr 1
  · rw [List.countP_filter]
    apply List.countP_congr
    intro other hother
    simp only [Bool.and_eq_true, decide_eq_true_eq]
    constructor
    · rintro ⟨htopic, hless, hchat, -⟩
      exact ⟨hchat, htopic,
        (messageKey_lt_iff_place hstamps hrecord hother hown htopic).1 hless⟩
    · rintro ⟨hchat, htopic, hless⟩
      exact ⟨htopic, (messageKey_lt_iff_place hstamps hrecord hother hown htopic).2 hless, hchat,
        htopic ▸ captured_own other⟩
  · rw [List.countP_filter]
    apply List.countP_congr
    intro other hother
    simp only [Bool.and_eq_true, decide_eq_true_eq]
    constructor
    · rintro ⟨htopic, hless, hchat, hcaptured⟩
      exact ⟨hchat, htopic, hcaptured, hless⟩
    · rintro ⟨hchat, htopic, hcaptured, hless⟩
      exact ⟨htopic, hless, hchat, hcaptured⟩

end Last

/-! ## A topic and a longer one -/

/-- Two chat messages on a topic, and an older one on a topic that continues it. -/
def chatter : List (Event Bool) :=
  [.save ⟨ascii "m2", ascii "dm", 20, ascii "", true⟩,
    .save ⟨ascii "m1", ascii "dm", 3, ascii "", true⟩,
    .save ⟨ascii "m0", ascii "dm:bob", 1, ascii "", true⟩, .flush]

/-- Of the last two, one is on the longer topic. -/
example : ((new.run chatter).settle.getRecentMessages Message.rest (ascii "dm") 2).map
    Message.lamportTimestamp = [20, 1] := by
  decide +kernel

end P2PApp.Encoded.MessageStore
