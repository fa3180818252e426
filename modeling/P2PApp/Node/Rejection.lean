import P2PApp.Node.Effects

/-!
# What a rejected message leaves behind

Three checks stand in front of the engine: proof of work, rate limit and signature. A message that
one of them drops changes the limiter's record of the peer that sent it, and nothing else, with one
exception: the verifier registers a public key that the message brings along before it knows whether
the signature is valid under it. The exact condition for this is read off from the state before.
-/

namespace P2PApp.Node

open JavaScript

/-- The checks that drop a message in front of the clock and the seen set. -/
inductive Check
  | proofOfWork
  | rateLimit
  | signature
  deriving DecidableEq

namespace SecurityManager

/-- The verifier registers the key that the message brings along. -/
def Learns (manager : SecurityManager) (message : Value) : Prop :=
  (message.property "signature").truthy = true ∧
    (manager.keyOf (message.property "sender").key).truthy = false ∧
    (message.property "senderPublicKey").truthy = true

theorem verifyIncomingMessage_snd (runtime : Runtime) (manager : SecurityManager)
    (message : Value) :
    (¬manager.Learns message ∧ (manager.verifyIncomingMessage runtime message).2 = manager) ∨
    (manager.Learns message ∧ (manager.verifyIncomingMessage runtime message).2 =
      manager.registerPeerKey (message.property "sender").key
        (message.property "senderPublicKey")) := by
  unfold verifyIncomingMessage Learns
  dsimp only
  cases (message.property "signature").truthy with
  | false => exact .inl ⟨by simp, rfl⟩
  | true =>
    by_cases hlearns : (manager.keyOf (message.property "sender").key).truthy = false ∧
        (message.property "senderPublicKey").truthy = true
    · refine .inr ⟨⟨rfl, hlearns⟩, ?_⟩
      simp only [hlearns, Bool.true_eq_false, and_self, if_true, if_false]
    · refine .inl ⟨fun h ↦ hlearns h.2, ?_⟩
      simp only [hlearns, Bool.true_eq_false, if_false]
      split <;> rfl

/-- A key that counts as true is not what is registered for a peer without one. -/
theorem registerPeerKey_ne {manager : SecurityManager} {peerId : Key} {publicKey : Value}
    (hunknown : (manager.keyOf peerId).truthy = false) (hkey : publicKey.truthy = true) :
    (manager.registerPeerKey peerId publicKey).peerPublicKeys ≠ manager.peerPublicKeys := by
  intro heq
  have hregistered : manager.keyOf peerId = publicKey := by
    rw [keyOf, ← heq, registerPeerKey, OrderedMap.get?_set_self]
    rfl
  rw [hregistered, hkey] at hunknown
  cases hunknown

end SecurityManager

namespace GossipEngine

variable (runtime : Runtime) (now : ℕ) (engine : GossipEngine) (message : Value)
  (fromPeerId : Key)

/-- The check at which a call drops the message, if one of the three does. -/
def rejectedAt : Option Check :=
  if message.nullish then none
  else
    match checkPuzzle runtime message with
    | none => none
    | some false => some .proofOfWork
    | some true =>
      let (allowed, engine) := engine.checkLimit now fromPeerId
      if allowed = false then some .rateLimit
      else if (engine.verifySignature runtime message).1 = false then some .signature
      else none

/-- The verifier is called, and registers the key that the message brings along. -/
def LearnsKey : Prop :=
  checkPuzzle runtime message = some true ∧ (engine.checkLimit now fromPeerId).1 = true ∧
    engine.securityManager.Learns message

/-- Nothing differs but the limiter's record of one peer. -/
structure Untouched (before after : GossipEngine) (fromPeerId : Key) : Prop where
  lamportClock : after.lamportClock = before.lamportClock
  seenMessages : after.seenMessages = before.seenMessages
  topicRouter : after.topicRouter = before.topicRouter
  peerPublicKeys : after.securityManager.peerPublicKeys = before.securityManager.peerPublicKeys
  others : ∀ peerId ≠ fromPeerId, after.rateLimiter.record peerId = before.rateLimiter.record peerId

/-- The call drops the message, and leaves the engine as it was. -/
def LeavesNoTrace : Prop :=
  ∃ after, engine.receiveMessage runtime now message fromPeerId = some (after, false) ∧
    Untouched engine after fromPeerId

variable {runtime now engine message fromPeerId}

theorem untouched_checkLimit (now : ℕ) (engine : GossipEngine) (fromPeerId : Key) :
    Untouched engine (engine.checkLimit now fromPeerId).2 fromPeerId := by
  unfold checkLimit
  split
  · exact ⟨rfl, rfl, rfl, rfl, fun _ hother ↦ engine.rateLimiter.record_checkLimit now hother⟩
  · exact ⟨rfl, rfl, rfl, rfl, fun _ _ ↦ rfl⟩

/-- What the engine is after a rejection, check by check. -/
theorem screen_of_rejectedAt {check : Check}
    (h : rejectedAt runtime now engine message fromPeerId = some check) :
    ∃ after, engine.screen runtime now message fromPeerId = some (false, after) ∧
      ((¬LearnsKey runtime now engine message fromPeerId ∧ Untouched engine after fromPeerId) ∨
        (LearnsKey runtime now engine message fromPeerId ∧
          after.securityManager = engine.securityManager.registerPeerKey
            (message.property "sender").key (message.property "senderPublicKey"))) := by
  have hlimited := untouched_checkLimit now engine fromPeerId
  have hkeys := securityManager_checkLimit engine now fromPeerId
  unfold rejectedAt at h
  unfold screen LearnsKey
  cases hnullish : message.nullish with
  | true => simp [hnullish] at h
  | false =>
    cases hpuzzle : checkPuzzle runtime message with
    | none => simp [hnullish, hpuzzle] at h
    | some solved =>
      cases solved with
      | false => exact ⟨engine, by simp, .inl ⟨by simp, rfl, rfl, rfl, rfl, fun _ _ ↦ rfl⟩⟩
      | true =>
        simp only [hnullish, hpuzzle, Bool.false_eq_true, if_false] at h
        generalize engine.checkLimit now fromPeerId = limited at h hlimited hkeys ⊢
        obtain ⟨allowed, limited⟩ := limited
        dsimp only at h hlimited hkeys ⊢
        cases allowed with
        | false => exact ⟨limited, by simp, .inl ⟨by simp, hlimited⟩⟩
        | true =>
          simp only [verifySignature, hkeys, Bool.true_eq_false, if_false] at h ⊢
          have hlearns := engine.securityManager.verifyIncomingMessage_snd runtime message
          generalize engine.securityManager.verifyIncomingMessage runtime message = verified
            at h hlearns ⊢
          obtain ⟨valid, manager⟩ := verified
          cases valid with
          | true => simp at h
          | false =>
            refine ⟨{ limited with securityManager := manager }, by simp, ?_⟩
            rcases hlearns with ⟨hnot, hmanager⟩ | ⟨hlearnt, hmanager⟩
            · refine .inl ⟨fun h ↦ hnot h.2.2, hlimited.lamportClock, hlimited.seenMessages,
                hlimited.topicRouter, ?_, hlimited.others⟩
              exact congrArg SecurityManager.peerPublicKeys hmanager
            · exact .inr ⟨⟨trivial, trivial, hlearnt⟩, hmanager⟩

theorem receiveMessage_of_screen {after : GossipEngine}
    (h : engine.screen runtime now message fromPeerId = some (false, after)) :
    engine.receiveMessage runtime now message fromPeerId = some (after, false) := by
  simp only [receiveMessage, h]

theorem leavesNoTrace_of_rejectedAt {check : Check}
    (h : rejectedAt runtime now engine message fromPeerId = some check)
    (hnot : ¬LearnsKey runtime now engine message fromPeerId) :
    LeavesNoTrace runtime now engine message fromPeerId := by
  obtain ⟨after, hscreen, ⟨-, huntouched⟩ | ⟨hlearns, -⟩⟩ := screen_of_rejectedAt h
  · exact ⟨after, receiveMessage_of_screen hscreen, huntouched⟩
  · exact absurd hlearns hnot

theorem leavesTrace_of_rejectedAt {check : Check}
    (h : rejectedAt runtime now engine message fromPeerId = some check)
    (hlearns : LearnsKey runtime now engine message fromPeerId) :
    ¬LeavesNoTrace runtime now engine message fromPeerId := by
  rintro ⟨other, hother, huntouched⟩
  obtain ⟨after, hscreen, ⟨hnot, -⟩ | ⟨-, hregistered⟩⟩ := screen_of_rejectedAt h
  · exact hnot hlearns
  · rw [receiveMessage_of_screen hscreen] at hother
    cases hother
    have hkeys := huntouched.peerPublicKeys
    rw [hregistered] at hkeys
    exact SecurityManager.registerPeerKey_ne hlearns.2.2.2.1 hlearns.2.2.2.2 hkeys

/-- A rejected message leaves no trace exactly if the verifier learns no key from it. -/
theorem leavesNoTrace_iff {check : Check}
    (h : rejectedAt runtime now engine message fromPeerId = some check) :
    LeavesNoTrace runtime now engine message fromPeerId ↔
      ¬LearnsKey runtime now engine message fromPeerId :=
  ⟨fun htraceless hlearns ↦ leavesTrace_of_rejectedAt h hlearns htraceless,
    leavesNoTrace_of_rejectedAt h⟩

/-- A message that names `bob`, with a valid proof of work, the given signature and perhaps a key
to verify it under. -/
def forgery (signature : String) (attached : List (String × Value)) : Value :=
  .object 0 ([("id", .string "m945"), ("type", .string "CHAT"), ("sender", .string "bob"),
    ("signature", .string signature), ("ttl", .number (.finite 10))] ++ attached)

/-- The engine of a fresh node. -/
def fresh : GossipEngine := .new "alice" "alice-key" 20 5

theorem leavesNoTrace_unsigned :
    LeavesNoTrace .sample 1 fresh (forgery "" []) (.string "mallory") := by
  have hrejected : rejectedAt .sample 1 fresh (forgery "" []) (.string "mallory") =
      some .signature := by decide +kernel
  refine (leavesNoTrace_iff hrejected).2 fun hlearns ↦ ?_
  exact absurd hlearns.2.2.1 (by decide)

/-- Whatever a rejected message is, it leaves no trace. -/
def RejectsCleanly (runtime : Runtime) : Prop :=
  ∀ now engine message fromPeerId check,
    rejectedAt runtime now engine message fromPeerId = some check →
      LeavesNoTrace runtime now engine message fromPeerId

/-- An invalid signature in the name of `bob`, together with a key of somebody else. -/
theorem not_rejectsCleanly_attachedKey : ¬RejectsCleanly .sample := by
  intro h
  have hrejected : rejectedAt .sample 1 fresh
      (forgery "forged" [("senderPublicKey", .string "mallory-key")]) (.string "mallory") =
        some .signature := by decide +kernel
  refine leavesTrace_of_rejectedAt hrejected ?_ (h _ _ _ _ _ hrejected)
  exact ⟨by decide +kernel, by decide +kernel, by decide, by decide +kernel, by decide⟩

end GossipEngine

end P2PApp.Node
