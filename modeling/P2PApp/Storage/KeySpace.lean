import P2PApp.Storage.EncodedStore

/-!
# Records and the index

What a store holds of the messages saved: one record for each topic, stamp and id, with the last
message saved under the three, and an index that leads from an id to the last message saved with
it. Topics may contain anything, colons and digits included; topics and ids are told apart by their
bytes, which is all the difference there is between strings without lone surrogates.
-/

namespace P2PApp.Encoded.MessageStore

open JsonString

variable {β : Type*}

/-- The database takes the two texts for the same. -/
def SameBytes (left right : JSString) : Prop := bytes left = bytes right

instance : DecidableRel SameBytes := fun _ _ ↦ inferInstanceAs (Decidable (_ = _))

section Same

variable (same : JSString → JSString → Prop)

def SameTriple (left right : Message β) : Prop :=
  same left.topic right.topic ∧ left.lamportTimestamp = right.lamportTimestamp ∧
    same left.id right.id

variable [DecidableRel same]

instance : DecidableRel (@SameTriple β same) := fun _ _ ↦
  inferInstanceAs (Decidable (_ ∧ _ ∧ _))

/-- The records correspond to the triples saved, each with the last message saved under it, and a
read by id returns the last message saved with the id. -/
structure Faithful (messages : List (Message β)) (store : MessageStore β) : Prop where
  recorded : ∀ message ∈ messages, ∃ stored ∈ store.records, SameTriple same stored message
  distinct : store.records.Pairwise fun left right ↦ ¬SameTriple same left right
  last : ∀ stored ∈ store.records,
    lastWith (fun message ↦ SameTriple same message stored) messages = some stored
  getById : ∀ id, store.getById id = lastWith (fun message ↦ same message.id id) messages

end Same

theorem messageKey_eq_iff {left right : Message β} (hleft : colon ∉ left.id)
    (hright : colon ∉ right.id) :
    messageKey left = messageKey right ↔ SameTriple SameBytes left right :=
  messageKey_inj hleft hright

/-- With ids without colons, the key that an id leads to is that of the last message with it. -/
theorem getById_eq_lastWith {events : List (Event β)}
    (hids : ∀ message ∈ saved events, colon ∉ message.id) (id : JSString) :
    (new.run events).settle.getById id =
      lastWith (fun message ↦ SameBytes message.id id) (saved events) := by
  rw [getById_settle]
  cases hfound : lastWith (fun stored ↦ bytes stored.id = bytes id) (saved events) with
  | none => exact hfound.symm
  | some message =>
    have hid := (of_lastWith hfound).2
    have hkeyed : lastWith (fun stored ↦ messageKey stored = messageKey message)
        (saved events) = some message := by
      apply lastWith_of_imp hfound
      · rfl
      · intro stored hstored hkey
        have hsame := (messageKey_eq_iff (hids stored hstored)
          (hids message (of_lastWith hfound).1)).1 hkey
        exact hsame.2.2.trans hid
    exact hkeyed.trans hfound.symm

/-- Two broadcasts, and a message whose topic reads like a key of the first one. -/
def lookalikes : List (Event Unit) :=
  [.save ⟨ascii "m1", ascii "a", 1, ascii "", ()⟩, .flush,
    .save ⟨ascii "m2", ascii "a:000000000000001", 2, ascii "", ()⟩, .commit,
    .save ⟨ascii "m1", ascii "a", 1000000000000000, ascii "", ()⟩, .flush, .commit]

/-- Two messages on topics that differ in a lone surrogate. -/
def surrogates : List (Event Unit) :=
  [.save ⟨ascii "m1", [0xD800], 1, ascii "", ()⟩, .save ⟨ascii "m1", [0xD801], 1, ascii "", ()⟩,
    .flush, .commit]

end P2PApp.Encoded.MessageStore
