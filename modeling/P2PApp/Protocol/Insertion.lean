import P2PApp.Protocol.GossipEngine
import P2PApp.Protocol.Pow

/-!
# Runs with inserted messages

Two runs of one engine, of which the second receives messages that the first does not. Whether a
message is announced in either run depends on two things that the messages before it can change:
whether its id has been seen, and which keys are bound to the senders of the messages that carry
this id. Insertions that stay clear of both change nothing for the message, whatever their own
ids, nonces and signatures are.
-/

namespace P2PApp

/-- One call of `receiveMessage`. -/
structure Reception where
  message : P2PMessage
  fromPeerId : Option String
  pool : ConnectionPool
  moment : Moment

/-- The second list is the first one with further elements, all of which are permitted. -/
inductive Inserts {α : Type*} (permitted : α → Prop) : List α → List α → Prop
  | nil : Inserts permitted [] []
  | keep (item : α) {base full : List α} (h : Inserts permitted base full) :
      Inserts permitted (item :: base) (item :: full)
  | insert {item : α} (hitem : permitted item) {base full : List α}
      (h : Inserts permitted base full) : Inserts permitted base (item :: full)

theorem Inserts.mono {α : Type*} {permitted permitted' : α → Prop}
    (himp : ∀ item, permitted item → permitted' item) {base full : List α}
    (h : Inserts permitted base full) : Inserts permitted' base full := by
  induction h with
  | nil => exact .nil
  | keep item _ ih => exact .keep item ih
  | insert hitem _ ih => exact .insert (himp _ hitem) ih

namespace GossipEngine

variable (platform : Platform)

def receive (engine : GossipEngine) (reception : Reception) : GossipEngine × List EngineEffect :=
  engine.receiveMessage platform reception.pool reception.moment.now reception.moment.draws
    reception.message reception.fromPeerId

def receiveAll (engine : GossipEngine) (receptions : List Reception) : GossipEngine :=
  receptions.foldl (fun engine reception ↦ (engine.receive platform reception).1) engine

/-- The message is emitted as `message:new` when it is received. -/
def Emits (engine : GossipEngine) (reception : Reception) : Prop :=
  announcements (engine.receive platform reception).2 ≠ []

instance (engine : GossipEngine) (reception : Reception) :
    Decidable (engine.Emits platform reception) :=
  inferInstanceAs (Decidable (announcements _ ≠ []))

/-- The rate limiter lets every reception through. -/
def NoneLimited (engine : GossipEngine) : List Reception → Prop
  | [] => True
  | reception :: receptions =>
    engine.Allowed reception.moment.now reception.fromPeerId ∧
      NoneLimited (engine.receive platform reception).1 receptions

/-- The key bound to a peer, if there is a security manager. -/
def boundKey (engine : GossipEngine) (peerId : String) : Option (Option String) :=
  engine.securityManager.map fun manager ↦ manager.keyOf peerId

/-- What a call that reaches the signature check makes of the key of a peer. -/
def learn (message : P2PMessage) (peerId : String) (publicKey : Option String) : Option String :=
  if peerId = message.sender ∧ (truthy message.signature).isSome then
    publicKey.or (truthy message.senderPublicKey)
  else publicKey

/-- Two engines that treat messages with this id, of these senders, alike. -/
structure SameView (id : String) (senders : Set String) (left right : GossipEngine) : Prop where
  localPeerId : left.localPeerId = right.localPeerId
  seen : id ∈ left.seenMessages ↔ id ∈ right.seenMessages
  keys : ∀ peerId ∈ senders, left.boundKey peerId = right.boundKey peerId

variable {platform}

theorem keyOf_verifyIncomingMessage_eq (platform : Platform) (manager : SecurityManager)
    (collector : MetricsCollector) (message : P2PMessage) (peerId : String) :
    (manager.verifyIncomingMessage platform collector message).2.1.keyOf peerId =
      learn message peerId (manager.keyOf peerId) := by
  unfold SecurityManager.verifyIncomingMessage learn
  cases truthy message.signature with
  | none => simp
  | some signature =>
    cases hkey : manager.keyOf message.sender with
    | some publicKey =>
      have hsame : (if peerId = message.sender ∧ (some signature).isSome = true then
          (manager.keyOf peerId).or (truthy message.senderPublicKey)
        else manager.keyOf peerId) = manager.keyOf peerId := by
        split
        · rename_i hpeer
          rw [hpeer.1, hkey, Option.some_or]
        · rfl
      rw [hsame]
      cases hverify : platform.verify message.signedFields signature publicKey <;> simp [hverify]
    | none =>
      cases hattached : truthy message.senderPublicKey with
      | none => simp
      | some publicKey =>
        have hlearned := manager.keyOf_registerPeerKey message.sender peerId (some publicKey)
        rw [SecurityManager.truthy_of_truthy_eq_some hattached] at hlearned
        have hresult : (manager.registerPeerKey message.sender (some publicKey)).keyOf peerId =
            if peerId = message.sender ∧ (some signature).isSome = true then
              (manager.keyOf peerId).or (some publicKey)
            else manager.keyOf peerId := by
          rw [hlearned]
          by_cases hpeer : peerId = message.sender
          · simp [hpeer, hkey]
          · simp [hpeer]
        rw [← hresult]
        cases hverify : platform.verify message.signedFields signature publicKey <;>
          simp [hverify]

theorem verified_securityManager (platform : Platform) (engine : GossipEngine) (now : ℕ)
    (message : P2PMessage) (fromPeerId : Option String) :
    (engine.verified platform now message fromPeerId).securityManager =
      (engine.clocked platform now message fromPeerId).securityManager := by
  unfold clocked updateClock
  split <;> rfl

theorem boundKey_clocked (platform : Platform) (engine : GossipEngine) (now : ℕ)
    (message : P2PMessage) (fromPeerId : Option String) (peerId : String) :
    (engine.clocked platform now message fromPeerId).boundKey peerId =
      (engine.boundKey peerId).map (learn message peerId) := by
  rw [boundKey, engine.clocked_securityManager now message fromPeerId, boundKey, Option.map_map,
    Option.map_map]
  congr 1
  funext manager
  exact keyOf_verifyIncomingMessage_eq platform manager _ message peerId

/-- What a call does to the key of a peer: nothing, unless it reaches the signature check. -/
theorem boundKey_receive (engine : GossipEngine) (reception : Reception) (peerId : String)
    (hallowed : engine.Allowed reception.moment.now reception.fromPeerId) :
    (engine.receive platform reception).1.boundKey peerId =
      if platform.verifyPuzzle reception.message.id Config.POW_DIFFICULTY
          reception.message.powNonce = true then
        (engine.boundKey peerId).map (learn reception.message peerId)
      else engine.boundKey peerId := by
  obtain ⟨message, fromPeerId, pool, moment⟩ := reception
  have hclocked := boundKey_clocked platform engine moment.now message fromPeerId peerId
  have hverified : (engine.verified platform moment.now message fromPeerId).boundKey peerId =
      (engine.clocked platform moment.now message fromPeerId).boundKey peerId := by
    rw [boundKey, verified_securityManager, boundKey]
  dsimp only [receive] at hallowed ⊢
  by_cases hpow : platform.verifyPuzzle message.id Config.POW_DIFFICULTY message.powNonce = true
  · rw [if_pos hpow, ← hclocked]
    rcases engine.screen_cases platform moment.now message fromPeerId with
      ⟨hnot, _⟩ | ⟨hnot, _⟩ | ⟨_, heq⟩ | ⟨_, heq⟩ | ⟨haccepts, _⟩
    · rw [hpow] at hnot
      cases hnot
    · exact absurd hallowed hnot
    · rw [receiveMessage, heq, ← hverified]
      rfl
    · rw [receiveMessage, heq]
      rfl
    · rcases engine.receiveMessage_cases pool moment.now moment.draws message fromPeerId platform
        with ⟨hdropped, _⟩ | ⟨_, ⟨topicRouter, collector, hframe⟩, _⟩
      · exact absurd haccepts hdropped
      · rw [hframe]
        rfl
  · rw [if_neg hpow, receiveMessage, screen_eq, if_pos (by simpa using hpow)]
    rfl

/-- A signature is accepted according to the key that is bound to the sender. -/
theorem signatureValid_congr_boundKey (platform : Platform) {left right : GossipEngine}
    {message : P2PMessage}
    (h : left.boundKey message.sender = right.boundKey message.sender) :
    left.SignatureValid platform message ↔ right.SignatureValid platform message := by
  unfold boundKey at h
  unfold SignatureValid
  cases hleft : left.securityManager with
  | none =>
    cases hright : right.securityManager with
    | none => simp
    | some manager => simp [hleft, hright] at h
  | some manager =>
    cases hright : right.securityManager with
    | none => simp [hleft, hright] at h
    | some other =>
      have hkey : manager.keyOf message.sender = other.keyOf message.sender := by
        simpa [hleft, hright] using h
      simp only [Option.some.injEq, forall_eq', SecurityManager.verifyIncomingMessage_fst,
        SecurityManager.verificationKey, hkey]

/-! ## Two runs -/

namespace SameView

variable {id : String} {senders : Set String} {left right : GossipEngine} {reception : Reception}

theorem refl (id : String) (senders : Set String) (engine : GossipEngine) :
    SameView id senders engine engine := ⟨rfl, Iff.rfl, fun _ _ ↦ rfl⟩

/-- Messages with the id of senders in view are accepted in both engines or in neither. -/
theorem accepts_iff (h : SameView id senders left right) (hid : reception.message.id = id)
    (hsender : reception.message.sender ∈ senders)
    (hleft : left.Allowed reception.moment.now reception.fromPeerId)
    (hright : right.Allowed reception.moment.now reception.fromPeerId) :
    left.Accepts platform reception.moment.now reception.message reception.fromPeerId ↔
      right.Accepts platform reception.moment.now reception.message reception.fromPeerId := by
  have hsignature := signatureValid_congr_boundKey platform (h.keys _ hsender)
  have hseen := hid ▸ h.seen
  constructor
  · intro haccepts
    exact ⟨haccepts.pow, hright, hsignature.1 haccepts.signature, mt hseen.2 haccepts.unseen⟩
  · intro haccepts
    exact ⟨haccepts.pow, hleft, hsignature.2 haccepts.signature, mt hseen.1 haccepts.unseen⟩

theorem seen_receive_of_ne (platform : Platform) (engine : GossipEngine)
    (hid : reception.message.id ≠ id) :
    id ∈ (engine.receive platform reception).1.seenMessages ↔ id ∈ engine.seenMessages := by
  rw [receive, mem_seenMessages_receiveMessage]
  exact ⟨fun hmem ↦ hmem.resolve_right fun hnew ↦ hid hnew.1.symm, .inl⟩

/-- A message that both engines receive. -/
theorem keep (h : SameView id senders left right)
    (hsender : reception.message.id = id → reception.message.sender ∈ senders)
    (hleft : left.Allowed reception.moment.now reception.fromPeerId)
    (hright : right.Allowed reception.moment.now reception.fromPeerId) :
    SameView id senders (left.receive platform reception).1
      (right.receive platform reception).1 where
  localPeerId := by
    rw [receive, receive, localPeerId_receiveMessage, localPeerId_receiveMessage]
    exact h.localPeerId
  seen := by
    by_cases hid : reception.message.id = id
    · rw [receive, receive, mem_seenMessages_receiveMessage, mem_seenMessages_receiveMessage,
        h.seen, h.accepts_iff hid (hsender hid) hleft hright]
    · rw [seen_receive_of_ne platform left hid, seen_receive_of_ne platform right hid, h.seen]
  keys peerId hpeer := by
    rw [boundKey_receive left reception peerId hleft,
      boundKey_receive right reception peerId hright, h.keys peerId hpeer]

/-- A message that only the second engine receives. -/
theorem insert (h : SameView id senders left right) (hid : reception.message.id ≠ id)
    (hsender : reception.message.sender ∉ senders)
    (hright : right.Allowed reception.moment.now reception.fromPeerId) :
    SameView id senders left (right.receive platform reception).1 where
  localPeerId := by
    rw [receive, localPeerId_receiveMessage]
    exact h.localPeerId
  seen := by rw [seen_receive_of_ne platform right hid, h.seen]
  keys peerId hpeer := by
    have hother : peerId ≠ reception.message.sender := by
      rintro rfl
      exact hsender hpeer
    have hlearn : learn reception.message peerId = fun publicKey ↦ publicKey := by
      funext publicKey
      simp [learn, hother]
    rw [boundKey_receive right reception peerId hright, hlearn, Option.map_id', ite_self]
    exact h.keys peerId hpeer

end SameView

/-- Runs that differ by insertions without the id, of senders out of view, end in the same view. -/
theorem sameView_receiveAll {id : String} {senders : Set String} {base full : List Reception}
    (hinserts : Inserts (fun reception : Reception ↦ reception.message.id ≠ id ∧
      reception.message.sender ∉ senders) base full)
    (hsenders : ∀ reception ∈ base, reception.message.id = id →
      reception.message.sender ∈ senders)
    {left right : GossipEngine} (h : SameView id senders left right)
    (hleft : left.NoneLimited platform base) (hright : right.NoneLimited platform full) :
    SameView id senders (left.receiveAll platform base) (right.receiveAll platform full) := by
  induction hinserts generalizing left right with
  | nil => exact h
  | keep reception _ ih =>
    refine ih (fun other hother ↦ hsenders other (List.mem_cons_of_mem _ hother)) ?_ hleft.2
      hright.2
    exact h.keep (hsenders reception List.mem_cons_self) hleft.1 hright.1
  | insert hpermitted _ ih =>
    refine ih hsenders ?_ hleft hright.2
    exact h.insert hpermitted.1 hpermitted.2 hright.1

theorem noneLimited_append {engine : GossipEngine} {before : List Reception}
    {reception : Reception} :
    engine.NoneLimited platform (before ++ [reception]) ↔
      engine.NoneLimited platform before ∧
        (engine.receiveAll platform before).Allowed reception.moment.now reception.fromPeerId := by
  induction before generalizing engine with
  | nil => simp [NoneLimited, receiveAll]
  | cons first before ih =>
    rw [List.cons_append, NoneLimited, NoneLimited, ih, and_assoc]
    rfl

theorem emits_iff (engine : GossipEngine) (reception : Reception) :
    engine.Emits platform reception ↔
      engine.Accepts platform reception.moment.now reception.message reception.fromPeerId ∧
        (reception.message.type = .subAd →
          Announceable engine.localPeerId reception.message) := by
  rw [Emits, receive]
  rcases engine.receiveMessage_cases reception.pool reception.moment.now reception.moment.draws
    reception.message reception.fromPeerId platform with
    ⟨hdropped, heffects, _⟩ | ⟨haccepts, _, _, hannounced⟩
  · rw [heffects]
    simp [announcements, hdropped]
  · rw [hannounced]
    simp [haccepts]

/-- Whether a message is emitted does not depend on inserted messages that carry another id and
come neither from its sender nor from the sender of another message with its id. -/
theorem emits_iff_of_inserts {engine : GossipEngine} {base full : List Reception}
    {reception : Reception}
    (hinserts : Inserts (fun inserted : Reception ↦
      inserted.message.sender ≠ reception.message.sender ∧
      inserted.message.id ≠ reception.message.id ∧
      ∀ other ∈ base, other.message.id = reception.message.id →
        inserted.message.sender ≠ other.message.sender) base full)
    (hbase : engine.NoneLimited platform (base ++ [reception]))
    (hfull : engine.NoneLimited platform (full ++ [reception])) :
    (engine.receiveAll platform base).Emits platform reception ↔
      (engine.receiveAll platform full).Emits platform reception := by
  have hview : SameView reception.message.id
      {sender | sender = reception.message.sender ∨ ∃ other ∈ base,
        other.message.id = reception.message.id ∧ other.message.sender = sender}
      (engine.receiveAll platform base) (engine.receiveAll platform full) := by
    rw [noneLimited_append] at hbase hfull
    refine sameView_receiveAll (hinserts.mono ?_) (fun other hother hid ↦ ?_) (.refl _ _ engine)
      hbase.1 hfull.1
    · rintro inserted ⟨hsender, hid, hothers⟩
      refine ⟨hid, ?_⟩
      rintro (heq | ⟨other, hother, hsame, heq⟩)
      · exact hsender heq
      · exact hothers other hother hsame heq.symm
    · exact .inr ⟨other, hother, hid, rfl⟩
  rw [emits_iff, emits_iff, hview.localPeerId]
  exact and_congr_left fun _ ↦ hview.accepts_iff rfl (.inl rfl) (noneLimited_append.1 hbase).2
    (noneLimited_append.1 hfull).2

/-! ## Insertions that do matter -/

/-- The message is signed by its sender, and brings along the key of its sender or none. -/
def SignedBySender (platform : Platform) (keys : String → String) (message : P2PMessage) : Prop :=
  ∃ signature, message.signature = some signature ∧
    platform.verify message.signedFields signature (keys message.sender) = true ∧
    ∀ publicKey ∈ message.senderPublicKey, publicKey = keys message.sender

/-- Signed messages of other senders that are harmless never change whether a signed message is
emitted. -/
def Uncensored (platform : Platform) (keys : String → String)
    (harmless : P2PMessage → P2PMessage → Prop) : Prop :=
  ∀ engine base full reception,
    Inserts (fun inserted : Reception ↦
      inserted.message.sender ≠ reception.message.sender ∧
      SignedBySender platform keys inserted.message ∧
      harmless inserted.message reception.message) base full →
    SignedBySender platform keys reception.message →
    NoneLimited platform engine (base ++ [reception]) →
    NoneLimited platform engine (full ++ [reception]) →
    ((engine.receiveAll platform base).Emits platform reception ↔
      (engine.receiveAll platform full).Emits platform reception)

/-- A message as the neighbour `p` hands it on, signed under a key that it brings along. -/
def handedOn (sender publicKey id : String) (powNonce : ℕ) : Reception where
  message := SecurityManager.signOutgoingMessage Pow.javaScript publicKey
    { id
      type := .chat
      ttl := Config.MAX_TTL
      lamportTimestamp := 1
      sender
      senderPublicKey := some publicKey
      topic := "global"
      payload := .text "hello"
      createdAt := "2024-01-01T00:00:00.000Z"
      powNonce
      signature := none
      routingPath := none }
  fromPeerId := some "p"
  pool := .new "local"
  moment := ⟨1000, fun _ ↦ 0⟩

/-- An engine that has received nothing. -/
def startOfLocal : GossipEngine :=
  .new "local" (some (SecurityManager.init "local" "key of local")) 20 5

def keyOfSender (sender : String) : String := "key of " ++ sender

/-- The message of `bob` that is to be emitted. -/
def ofBob : Reception := handedOn "bob" "key of bob" "m1" 3123

theorem noneLimited_cons {engine : GossipEngine} {reception : Reception}
    {receptions : List Reception} {peerId : String} (hfrom : reception.fromPeerId = some peerId)
    (hlimit : (engine.rateLimiter.checkLimit reception.moment.now peerId).1 = true)
    (hrest : NoneLimited platform (engine.receive platform reception).1 receptions) :
    NoneLimited platform engine (reception :: receptions) := by
  refine ⟨fun other hother ↦ ?_, hrest⟩
  rw [hfrom] at hother
  cases hother
  exact hlimit

theorem signedBySender_handedOn (sender id : String) (powNonce : ℕ) :
    SignedBySender Pow.javaScript keyOfSender
      (handedOn sender (keyOfSender sender) id powNonce).message :=
  ⟨_, rfl, beq_self_eq_true _, fun _ h ↦ (Option.some.inj h).symm⟩

theorem emits_ofBob_inserted :
    (startOfLocal.receiveAll Pow.javaScript []).Emits Pow.javaScript ofBob ↔
      (startOfLocal.receiveAll Pow.javaScript
        [handedOn "mallory" "key of mallory" "m2" 1328]).Emits Pow.javaScript ofBob := by
  refine emits_iff_of_inserts (.insert ?_ .nil) ?_ ?_
  · exact ⟨by decide, by decide, fun _ hother ↦ by cases hother⟩
  · exact noneLimited_cons rfl (by decide +kernel) trivial
  · exact noneLimited_cons rfl (by decide +kernel)
      (noneLimited_cons rfl (by decide +kernel) trivial)

/-- A message of `mallory` under the id of the message of `bob` suppresses that. With another id, a
message of `carol` binds a key under which an earlier message with that id fails. -/
theorem not_uncensored_sameId :
    ¬Uncensored Pow.javaScript keyOfSender (fun _ _ ↦ True) ∧
      ¬Uncensored Pow.javaScript keyOfSender (fun inserted message ↦ inserted.id ≠ message.id) := by
  constructor
  · intro h
    have hsame := h startOfLocal [] [handedOn "mallory" (keyOfSender "mallory") "m1" 3123] ofBob
      (.insert ⟨by decide, signedBySender_handedOn _ _ _, trivial⟩ .nil)
      (signedBySender_handedOn _ _ _) (noneLimited_cons rfl (by decide +kernel) trivial)
      (noneLimited_cons rfl (by decide +kernel)
        (noneLimited_cons rfl (by decide +kernel) trivial))
    exact absurd (hsame.1 (by decide +kernel)) (by decide +kernel)
  · intro h
    have hsame := h startOfLocal [handedOn "carol" "another key" "m1" 3123]
      [handedOn "carol" (keyOfSender "carol") "m2" 1328, handedOn "carol" "another key" "m1" 3123]
      ofBob (.insert ⟨by decide, signedBySender_handedOn _ _ _, by decide⟩ (.keep _ .nil))
      (signedBySender_handedOn _ _ _)
      (noneLimited_cons rfl (by decide +kernel)
        (noneLimited_cons rfl (by decide +kernel) trivial))
      (noneLimited_cons rfl (by decide +kernel)
        (noneLimited_cons rfl (by decide +kernel)
          (noneLimited_cons rfl (by decide +kernel) trivial)))
    exact absurd (hsame.2 (by decide +kernel)) (by decide +kernel)

end GossipEngine

end P2PApp
