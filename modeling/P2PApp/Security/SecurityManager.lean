import P2PApp.Library.OrderedMap
import P2PApp.Metrics.Collector
import P2PApp.Protocol.Message

/-!
# The security manager

The table of peer keys, written at start-up, by every HELLO and by trust on first use, and the
verification of a message against the key of its claimed sender. Signatures are those of the
platform and are not interpreted.
-/

namespace P2PApp

/-- A registered key may be missing (`undefined`), which verification treats as no key at all. -/
structure SecurityManager where
  peerPublicKeys : OrderedMap String (Option String)

namespace SecurityManager

def new : SecurityManager := ⟨∅⟩

def registerPeerKey (manager : SecurityManager) (peerId : String) (publicKey : Option String) :
    SecurityManager :=
  ⟨manager.peerPublicKeys.set peerId publicKey⟩

/-- `init`: the node registers its own key. -/
def init (localPeerId publicKey : String) : SecurityManager :=
  new.registerPeerKey localPeerId (some publicKey)

/-- The usable key registered for a peer. -/
def keyOf (manager : SecurityManager) (peerId : String) : Option String :=
  truthy (manager.peerPublicKeys.get? peerId).join

def signOutgoingMessage (platform : Platform) (secretKey : String) (message : P2PMessage) :
    P2PMessage :=
  { message with signature := some (platform.sign secretKey message.signedFields) }

/-- Verification by the registered key, or by the key in the message, which is then registered. -/
def verifyIncomingMessage (platform : Platform) (manager : SecurityManager)
    (collector : MetricsCollector) (message : P2PMessage) :
    Bool × SecurityManager × MetricsCollector :=
  match truthy message.signature with
  | none => (false, manager, collector.increment "invalid_signature_count")
  | some signature =>
    let (senderPublicKey, manager) :=
      match manager.keyOf message.sender, truthy message.senderPublicKey with
      | some publicKey, _ => (some publicKey, manager)
      | none, some publicKey =>
        (some publicKey, manager.registerPeerKey message.sender (some publicKey))
      | none, none => (none, manager)
    match senderPublicKey with
    | none => (false, manager, collector)
    | some publicKey =>
      if platform.verify message.signedFields signature publicKey then (true, manager, collector)
      else (false, manager, collector.increment "invalid_signature_count")

/-- The key that verification uses for a message: the registered one, else the attached one. -/
def verificationKey (manager : SecurityManager) (message : P2PMessage) : Option String :=
  (manager.keyOf message.sender).or (truthy message.senderPublicKey)

theorem keyOf_registerPeerKey (manager : SecurityManager) (peerId other : String)
    (publicKey : Option String) :
    (manager.registerPeerKey peerId publicKey).keyOf other =
      if other = peerId then truthy publicKey else manager.keyOf other := by
  unfold keyOf registerPeerKey
  by_cases h : other = peerId <;> simp [OrderedMap.get?_set, h]

theorem truthy_of_truthy_eq_some {value : Option String} {text : String}
    (h : truthy value = some text) : truthy (some text) = some text := by
  obtain ⟨rfl, _⟩ := truthy_eq_some.1 h
  exact h

/-- A message is accepted exactly when its signature verifies under the key that is in use. -/
theorem verifyIncomingMessage_fst (platform : Platform) (manager : SecurityManager)
    (collector : MetricsCollector) (message : P2PMessage) :
    (verifyIncomingMessage platform manager collector message).1 = true ↔
      ∃ signature publicKey, truthy message.signature = some signature ∧
        manager.verificationKey message = some publicKey ∧
        platform.verify message.signedFields signature publicKey = true := by
  unfold verifyIncomingMessage verificationKey
  cases truthy message.signature with
  | none => simp
  | some signature =>
    cases manager.keyOf message.sender with
    | some publicKey =>
      cases hverify : platform.verify message.signedFields signature publicKey <;>
        simp [hverify]
    | none =>
      cases truthy message.senderPublicKey with
      | none => simp
      | some publicKey =>
        cases hverify : platform.verify message.signedFields signature publicKey <;>
          simp [hverify]

/-- A key in use is never replaced by verification, and only the sender's key can be learned. -/
theorem keyOf_verifyIncomingMessage (platform : Platform) (manager : SecurityManager)
    (collector : MetricsCollector) (message : P2PMessage) (peerId : String) :
    (verifyIncomingMessage platform manager collector message).2.1.keyOf peerId =
        manager.keyOf peerId ∨
      (peerId = message.sender ∧ manager.keyOf peerId = none ∧
        (verifyIncomingMessage platform manager collector message).2.1.keyOf peerId =
          truthy message.senderPublicKey) := by
  unfold verifyIncomingMessage
  cases truthy message.signature with
  | none => exact .inl rfl
  | some signature =>
    cases hkey : manager.keyOf message.sender with
    | some publicKey =>
      cases hverify : platform.verify message.signedFields signature publicKey <;>
        simp [hverify]
    | none =>
      cases hattached : truthy message.senderPublicKey with
      | none => simp
      | some publicKey =>
        have hlearned := manager.keyOf_registerPeerKey message.sender peerId (some publicKey)
        rw [truthy_of_truthy_eq_some hattached] at hlearned
        by_cases hpeer : peerId = message.sender
        · right
          refine ⟨hpeer, hpeer ▸ hkey, ?_⟩
          rw [if_pos hpeer] at hlearned
          cases hverify : platform.verify message.signedFields signature publicKey <;>
            simp [hverify, hlearned]
        · left
          rw [if_neg hpeer] at hlearned
          cases hverify : platform.verify message.signedFields signature publicKey <;>
            simp [hverify, hlearned]

/-- Once a peer has a usable key, verification keeps it. -/
theorem keyOf_verifyIncomingMessage_of_some {platform : Platform} {manager : SecurityManager}
    {collector : MetricsCollector} {message : P2PMessage} {peerId publicKey : String}
    (h : manager.keyOf peerId = some publicKey) :
    (verifyIncomingMessage platform manager collector message).2.1.keyOf peerId =
      some publicKey := by
  rcases keyOf_verifyIncomingMessage platform manager collector message peerId with
    hsame | ⟨_, hnone, _⟩
  · rw [hsame, h]
  · rw [h] at hnone
    cases hnone

end SecurityManager

end P2PApp
