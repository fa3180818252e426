import P2PApp.Library.JsonString
import P2PApp.Library.OrderedMap

/-!
# The string under a signature

Signing and verification on the level of texts: both serialise the five covered fields of a message
with `JSON.stringify` and hand the text to the key manager. Strings are sequences of UTF-16 code
units, so that every string a message can carry is covered.

Under ideal signatures the serialisation decides what a signature protects. It determines the five
fields, whatever they contain, and so a signature is valid for them and for no others. The engine
models abstract from the text and sign the fields.
-/

namespace P2PApp.SigningString

open JsonString

/-- The fields that signing and verification read. A missing signature or key is `none`. -/
structure Message where
  id : JSString
  type : JSString
  sender : JSString
  topic : JSString
  payload : JSString
  signature : Option JSString
  senderPublicKey : Option JSString
  deriving DecidableEq

/-- The operations of the crypto library behind `KeyManager`, on base64 texts. -/
structure KeyManager (SecretKey : Type*) where
  getPublicKey : SecretKey → JSString
  sign : SecretKey → JSString → JSString
  verify : JSString → JSString → JSString → Bool

/-- Under the public key of a pair a signature is valid for the text that was signed alone. Keys and
signatures have a fixed length, which is not zero. -/
structure KeyManager.Ideal {SecretKey : Type*} (keyManager : KeyManager SecretKey) : Prop where
  verify_sign : ∀ secretKey signed text, keyManager.verify text (keyManager.sign secretKey signed)
    (keyManager.getPublicKey secretKey) = true ↔ text = signed
  getPublicKey_ne : ∀ secretKey, keyManager.getPublicKey secretKey ≠ []
  sign_ne : ∀ secretKey text, keyManager.sign secretKey text ≠ []

/-- `payloadToSign` and `payloadToVerify`. -/
def payloadToSign (message : Message) : JSString :=
  stringify [⟨ascii "id", message.id⟩, ⟨ascii "type", message.type⟩,
    ⟨ascii "sender", message.sender⟩, ⟨ascii "topic", message.topic⟩,
    ⟨ascii "payload", message.payload⟩]

/-- The covered fields are the same. -/
structure SameFields (left right : Message) : Prop where
  id : left.id = right.id
  type : left.type = right.type
  sender : left.sender = right.sender
  topic : left.topic = right.topic
  payload : left.payload = right.payload

/-- A string that counts as true. -/
def truthy (value : Option JSString) : Option JSString := value.filter (· ≠ [])

variable {SecretKey : Type*} (keyManager : KeyManager SecretKey)

def signOutgoingMessage (secretKey : SecretKey) (message : Message) : Message :=
  { message with signature := some (keyManager.sign secretKey (payloadToSign message)) }

/-- The map of peer keys, in which a key may be `undefined`. -/
abbrev PeerPublicKeys := OrderedMap JSString (Option JSString)

def keyOf (peerPublicKeys : PeerPublicKeys) (peerId : JSString) : Option JSString :=
  truthy (peerPublicKeys.get? peerId).join

def verifyIncomingMessage (peerPublicKeys : PeerPublicKeys) (message : Message) :
    Bool × PeerPublicKeys :=
  match truthy message.signature with
  | none => (false, peerPublicKeys)
  | some signature =>
    let (senderPublicKey, peerPublicKeys) :=
      match keyOf peerPublicKeys message.sender, truthy message.senderPublicKey with
      | some publicKey, _ => (some publicKey, peerPublicKeys)
      | none, some publicKey =>
        (some publicKey, peerPublicKeys.set message.sender (some publicKey))
      | none, none => (none, peerPublicKeys)
    match senderPublicKey with
    | none => (false, peerPublicKeys)
    | some publicKey =>
      (keyManager.verify (payloadToSign message) signature publicKey, peerPublicKeys)

/-- The key that verification uses for a message: the registered one, else the attached one. -/
def verificationKey (peerPublicKeys : PeerPublicKeys) (message : Message) : Option JSString :=
  (keyOf peerPublicKeys message.sender).or (truthy message.senderPublicKey)

variable {keyManager}

theorem truthy_some {text : JSString} (h : text ≠ []) : truthy (some text) = some text :=
  Option.filter_eq_some_iff.2 ⟨rfl, by simpa using h⟩

/-- No choice of characters moves text from one field to another. -/
theorem payloadToSign_inj {left right : Message} :
    payloadToSign left = payloadToSign right ↔ SameFields left right := by
  constructor
  · intro h
    have hfields := stringify_inj.1 h
    simp only [List.cons.injEq, Property.mk.injEq, true_and, and_true] at hfields
    obtain ⟨hid, htype, hsender, htopic, hpayload⟩ := hfields
    exact ⟨hid, htype, hsender, htopic, hpayload⟩
  · intro h
    simp only [payloadToSign, h.id, h.type, h.sender, h.topic, h.payload]

theorem verifyIncomingMessage_fst {peerPublicKeys : PeerPublicKeys} {message : Message}
    {signature publicKey : JSString} (hsignature : truthy message.signature = some signature)
    (hkey : verificationKey peerPublicKeys message = some publicKey) :
    (verifyIncomingMessage keyManager peerPublicKeys message).1 =
      keyManager.verify (payloadToSign message) signature publicKey := by
  unfold verificationKey at hkey
  unfold verifyIncomingMessage
  rw [hsignature]
  cases hregistered : keyOf peerPublicKeys message.sender with
  | some registered =>
    rw [hregistered, Option.some_or] at hkey
    cases hkey
    rfl
  | none =>
    rw [hregistered, Option.none_or] at hkey
    rw [hkey]

/-- A message with the signature of another one is valid exactly if it agrees with that one on all
covered fields. -/
theorem verifyIncomingMessage_iff (hideal : keyManager.Ideal) {secretKey : SecretKey}
    {peerPublicKeys : PeerPublicKeys} {message altered : Message}
    (hsignature : altered.signature =
      (signOutgoingMessage keyManager secretKey message).signature)
    (hkey : verificationKey peerPublicKeys altered = some (keyManager.getPublicKey secretKey)) :
    (verifyIncomingMessage keyManager peerPublicKeys altered).1 = true ↔
      SameFields altered message := by
  have htruthy : truthy altered.signature =
      some (keyManager.sign secretKey (payloadToSign message)) := by
    rw [hsignature]
    exact truthy_some (hideal.sign_ne _ _)
  rw [verifyIncomingMessage_fst htruthy hkey, hideal.verify_sign, payloadToSign_inj]

/-! ## For closed examples -/

/-- Keyed tags in the place of signatures: a secret key is a text. -/
def tags : KeyManager JSString where
  getPublicKey secretKey := 0x50 :: secretKey
  sign secretKey text := 0x50 :: secretKey ++ 0x3A :: text
  verify text signature publicKey := signature = publicKey ++ 0x3A :: text

theorem ideal_tags : tags.Ideal where
  verify_sign secretKey signed text := by
    simp only [tags, List.cons_append, decide_eq_true_eq, List.cons.injEq, true_and]
    rw [List.append_cancel_left_eq, List.cons.injEq]
    simp [eq_comm]
  getPublicKey_ne _ := List.cons_ne_nil _ _
  sign_ne _ _ := List.cons_ne_nil _ _

/-- A message of `bob`, with quotation marks in its payload. -/
def quoted (topic payload : String) : Message where
  id := ascii "m1"
  type := ascii "CHAT"
  sender := ascii "bob"
  topic := ascii topic
  payload := ascii payload
  signature := none
  senderPublicKey := some (tags.getPublicKey (ascii "key"))

/-- The message of `bob`, signed. -/
def signedQuoted : Message :=
  signOutgoingMessage tags (ascii "key") (quoted "a\",\"payload\":\"b" "c")

/-- Its signature on a message with other quotation marks in other places. -/
def alteredQuoted : Message := { quoted "a" "b\",\"payload\":\"c" with
  signature := signedQuoted.signature }

theorem verifyIncomingMessage_quoted :
    (verifyIncomingMessage tags ∅ alteredQuoted).1 = true ↔
      SameFields alteredQuoted (quoted "a\",\"payload\":\"b" "c") :=
  verifyIncomingMessage_iff ideal_tags rfl (by decide +kernel)

end P2PApp.SigningString
