import P2PApp.Storage.EncodedStore
import Mathlib.Data.Prod.Lex

/-!
# Stamps in the order of the keys

Stamps are padded to fifteen digits, so that keys of one topic compare by the stamp first and by the
id next, as long as the stamps have no more digits than that. A range that starts at a padded stamp
is cut there exactly, and the messages of a topic come out of it in the order of their stamps.
-/

namespace P2PApp.Encoded.MessageStore

open JsonString

variable {β : Type*}

def startKey (topic : JSString) (sinceTimestamp : ℕ) : JSString :=
  ascii "msg:" ++ topic ++ ascii ":" ++ padStart sinceTimestamp ++ ascii ":"

def endKey (topic : JSString) : JSString := ascii "msg:" ++ topic ++ ascii ":~"

/-- The scan of `getByTopic`, behind its flush. -/
def getByTopic (store : MessageStore β) (topic : JSString) (sinceTimestamp : ℕ) :
    List (Message β) :=
  ((store.scan (startKey topic sinceTimestamp) (endKey topic)).map Prod.snd).filter
    fun message ↦ sinceTimestamp < message.lamportTimestamp

/-- A message of the topic with a stamp of at most fifteen digits. -/
def Fits (topic : JSString) (message : Message β) : Prop :=
  message.topic = topic ∧ message.lamportTimestamp < 10 ^ 15

/-- The message is within the bounds of the scan. -/
def Within (topic : JSString) (sinceTimestamp : ℕ) (message : Message β) : Prop :=
  bytes (startKey topic sinceTimestamp) ≤ messageKey message ∧
    messageKey message ≤ bytes (endKey topic)

instance (topic : JSString) (sinceTimestamp : ℕ) :
    DecidablePred (@Within β topic sinceTimestamp) := fun _ ↦
  inferInstanceAs (Decidable (_ ∧ _))

/-! ## Stamps -/

theorem stampBytes_eq {timestamp : ℕ} (h : timestamp < 10 ^ 15) :
    stampBytes timestamp = (LexicographicRange.digits 15 timestamp).map Char.toNat := by
  rw [stampBytes, LexicographicRange.leftpad_toDigits (by norm_num) h]

theorem length_stampBytes {timestamp : ℕ} (h : timestamp < 10 ^ 15) :
    (stampBytes timestamp).length = 15 := by
  rw [stampBytes_eq h, List.length_map, LexicographicRange.length_digits]

/-- Padded stamps are compared like numbers. -/
theorem stampBytes_lt_iff {left right : ℕ} (hleft : left < 10 ^ 15) (hright : right < 10 ^ 15) :
    stampBytes left < stampBytes right ↔ left < right := by
  have hmono : StrictMono Char.toNat := fun _ _ h ↦ h
  rw [stampBytes_eq hleft, stampBytes_eq hright, LexicographicRange.map_lt_map_iff hmono,
    LexicographicRange.digits_lt_iff hleft hright]

/-- What follows a topic in a key sorts in front of a tilde. -/
theorem stampBytes_append_lt (timestamp : ℕ) (rest : List ℕ) :
    stampBytes timestamp ++ rest < [126] := by
  have hlength : 0 < (stampBytes timestamp).length := by
    rw [stampBytes, List.length_map, List.length_leftpad]
    omega
  obtain ⟨first, others, hstamp⟩ := List.exists_cons_of_length_pos hlength
  have hfirst : first ∈ stampBytes timestamp := hstamp ▸ List.mem_cons_self
  obtain ⟨digit, hdigit, rfl⟩ := List.mem_map.1 hfirst
  have hrange := toNat_of_isDigit (LexicographicRange.isDigit_of_mem_leftpad hdigit)
  rw [hstamp, List.cons_append, List.cons_lt_cons_iff]
  left
  omega

theorem append_left_lt_iff (stem left right : List ℕ) :
    stem ++ left < stem ++ right ↔ left < right := by
  rw [LexicographicRange.append_lt_append_iff rfl]
  simp

/-! ## Keys of one topic -/

theorem messageKey_lt_iff {topic : JSString} {left right : Message β} (hleft : Fits topic left)
    (hright : Fits topic right) :
    messageKey left < messageKey right ↔
      toLex (left.lamportTimestamp, bytes left.id) <
        toLex (right.lamportTimestamp, bytes right.id) := by
  have hlength := (length_stampBytes hleft.2).trans (length_stampBytes hright.2).symm
  have hcolon (left right : List ℕ) : colon.toNat :: left < colon.toNat :: right ↔ left < right :=
    append_left_lt_iff [colon.toNat] left right
  rw [messageKey_eq, messageKey_eq, hleft.1, hright.1, append_left_lt_iff, hcolon,
    LexicographicRange.append_lt_append_iff hlength, hcolon, stampBytes_lt_iff hleft.2 hright.2,
    stampBytes_injective.eq_iff, Prod.Lex.toLex_lt_toLex]

theorem within_iff {topic : JSString} {sinceTimestamp : ℕ} (hsince : sinceTimestamp < 10 ^ 15)
    {message : Message β} (hfits : Fits topic message) :
    Within topic sinceTimestamp message ↔ sinceTimestamp ≤ message.lamportTimestamp := by
  obtain ⟨rfl, hstamp⟩ := hfits
  have hstart : bytes (startKey message.topic sinceTimestamp) = stem ++ bytes message.topic ++
      colon.toNat :: (stampBytes sinceTimestamp ++ [colon.toNat]) := by
    have hsplit : startKey message.topic sinceTimestamp = ascii "msg:" ++ message.topic ++
        colon :: (padStart sinceTimestamp ++ [colon]) := by simp [startKey, ascii, colon]
    rw [hsplit, bytes_topic, bytes_append_cons (by decide), bytes_padStart]
    rfl
  have hend : bytes (endKey message.topic) =
      stem ++ bytes message.topic ++ colon.toNat :: [126] := by
    have hsplit : endKey message.topic = ascii "msg:" ++ message.topic ++ colon :: ascii "~" := by
      simp [endKey, ascii, colon]
    rw [hsplit, bytes_topic]
    rfl
  have hlength := (length_stampBytes hstamp).trans (length_stampBytes hsince).symm
  have hcolon (left right : List ℕ) : colon.toNat :: left < colon.toNat :: right ↔ left < right :=
    append_left_lt_iff [colon.toNat] left right
  have hupper : messageKey message ≤ bytes (endKey message.topic) := by
    apply le_of_lt
    rw [messageKey_eq, hend, append_left_lt_iff, hcolon]
    exact stampBytes_append_lt _ _
  rw [Within, and_iff_left hupper, ← not_lt, hstart, messageKey_eq, append_left_lt_iff, hcolon,
    LexicographicRange.append_lt_append_iff hlength, hcolon, stampBytes_lt_iff hstamp hsince]
  simp

/-- The scan of a topic, with a message of another topic for each that its key falls between. -/
theorem getByTopic_settle (events : List (Event β)) (topic : JSString) (sinceTimestamp : ℕ) :
    (new.run events).settle.getByTopic topic sinceTimestamp =
      ((new.run events).settle.records.filter fun message ↦
        Within topic sinceTimestamp message).filter
          fun message ↦ sinceTimestamp < message.lamportTimestamp := by
  rw [getByTopic, scan_settle, List.map_map]
  congr 1
  exact List.map_id _

/-- What a scan for a topic returns of the topic itself. -/
def delta (store : MessageStore β) (topic : JSString) (sinceTimestamp : ℕ) : List (Message β) :=
  (store.getByTopic topic sinceTimestamp).filter fun message ↦ message.topic = topic

/-- For stamps of at most fifteen digits, keys of a topic are in the order of stamps and ids, the
range of a scan is cut at the stamp it starts with, and the scan returns the later messages of the
topic in the order of their stamps. -/
theorem keys_inOrder {events : List (Event β)} {topic : JSString} {sinceTimestamp : ℕ}
    (hcommitted : (new.run events).Committed) (hsince : sinceTimestamp < 10 ^ 15)
    (hstamps : ∀ message ∈ saved events, message.topic = topic →
      message.lamportTimestamp < 10 ^ 15) :
    (∀ left right : Message β, Fits topic left → Fits topic right →
      (messageKey left < messageKey right ↔
        toLex (left.lamportTimestamp, bytes left.id) <
          toLex (right.lamportTimestamp, bytes right.id))) ∧
    (∀ message : Message β, Fits topic message →
      (Within topic sinceTimestamp message ↔ sinceTimestamp ≤ message.lamportTimestamp)) ∧
    ((new.run events).delta topic sinceTimestamp).Pairwise
      (fun left right ↦ left.lamportTimestamp ≤ right.lamportTimestamp) ∧
    ∀ message, message ∈ (new.run events).delta topic sinceTimestamp ↔
      message ∈ (new.run events).records ∧ message.topic = topic ∧
        sinceTimestamp < message.lamportTimestamp := by
  rw [← hcommitted.settle]
  have hfits {message : Message β} (hmem : message ∈ (new.run events).settle.records)
      (htopic : message.topic = topic) : Fits topic message :=
    ⟨htopic, hstamps message (of_lastWith ((mem_records_settle events message).1 hmem)).1 htopic⟩
  have hdelta (message : Message β) :
      message ∈ (new.run events).settle.delta topic sinceTimestamp ↔
        message ∈ (new.run events).settle.records ∧ message.topic = topic ∧
          sinceTimestamp < message.lamportTimestamp := by
    simp only [delta, getByTopic_settle, List.mem_filter, decide_eq_true_eq]
    constructor
    · rintro ⟨⟨⟨hmem, _⟩, hlater⟩, htopic⟩
      exact ⟨hmem, htopic, hlater⟩
    · rintro ⟨hmem, htopic, hlater⟩
      have hwithin := (within_iff hsince (hfits hmem htopic)).2 hlater.le
      exact ⟨⟨⟨hmem, hwithin⟩, hlater⟩, htopic⟩
  refine ⟨fun left right ↦ messageKey_lt_iff, fun message ↦ within_iff hsince, ?_, hdelta⟩
  have hkeys : ((new.run events).settle.delta topic sinceTimestamp).Pairwise
      fun left right ↦ messageKey left < messageKey right := by
    rw [delta, getByTopic_settle]
    exact (((pairwise_records events).filter _).filter _).filter _
  apply hkeys.imp_of_mem
  intro left right hleft hright hless
  obtain ⟨hleft, hleftTopic, _⟩ := (hdelta left).1 hleft
  obtain ⟨hright, hrightTopic, _⟩ := (hdelta right).1 hright
  rw [messageKey_lt_iff (hfits hleft hleftTopic) (hfits hright hrightTopic),
    Prod.Lex.toLex_lt_toLex] at hless
  rcases hless with hearlier | ⟨hsame, _⟩
  · exact hearlier.le
  · exact hsame.le

/-- Three messages on a topic, the later one first, and one on a topic that continues it. -/
def outOfOrder : List (Event Unit) :=
  [.save ⟨ascii "m3", ascii "dm", 100, ascii "", ()⟩,
    .save ⟨ascii "m2", ascii "dm", 20, ascii "", ()⟩, .flush,
    .save ⟨ascii "m1", ascii "dm", 3, ascii "", ()⟩,
    .save ⟨ascii "m0", ascii "dm:bob", 1000000000000000, ascii "", ()⟩, .commit, .flush, .commit]

theorem keys_inOrder_outOfOrder :
    ((new.run outOfOrder).delta (ascii "dm") 5).map Message.lamportTimestamp = [20, 100] ∧
      ((new.run outOfOrder).delta (ascii "dm") 5).Pairwise
        fun left right ↦ left.lamportTimestamp ≤ right.lamportTimestamp :=
  ⟨by decide +kernel,
    (keys_inOrder ⟨by decide +kernel, by decide +kernel⟩ (by norm_num) (by decide +kernel)).2.2.1⟩

end P2PApp.Encoded.MessageStore
