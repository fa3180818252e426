import P2PApp.Protocol.GossipEngine
import P2PApp.Protocol.Pow

/-!
# Receiving a synchronisation batch

`receiveSyncBatch` runs every message of a batch that is not yet seen through the whole receive
pipeline, attributed to the peer that sent the batch, and acknowledges the batch afterwards
whatever the pipeline decided. The loop is described by the messages it meets unseen; what it
leaves seen is settled by the rate limiter alone once the messages are well formed.
-/

namespace P2PApp

/-- A `SYNC_BATCH` frame whose payload parses to an array of messages. -/
structure SyncBatch where
  id : String
  messages : List P2PMessage
  deriving DecidableEq, Repr

/-- The payload of a `SYNC_ACK`. -/
structure SyncAck where
  sender : String
  batchId : String
  deriving DecidableEq, Repr

namespace SyncReceiver

/-- The messages of a batch, each with the moment of its iteration. -/
def deliveries (messages : List P2PMessage) (moments : ℕ → Moment) : List (P2PMessage × Moment) :=
  messages.zipIdx.map fun entry ↦ (entry.1, moments entry.2)

/-- The loop of `receiveSyncBatch`. A sender id that is falsy bypasses the rate limit. -/
def receiveMessages (platform : Platform) (pool : ConnectionPool) (fromPeerId : String) :
    GossipEngine → List (P2PMessage × Moment) → GossipEngine × List EngineEffect
  | engine, [] => (engine, [])
  | engine, (message, moment) :: rest =>
    if message.id ∈ engine.seenMessages then receiveMessages platform pool fromPeerId engine rest
    else
      let (engine, effects) := engine.receiveMessage platform pool moment.now moment.draws message
        (truthy (some fromPeerId))
      let (engine, later) := receiveMessages platform pool fromPeerId engine rest
      (engine, effects ++ later)

/-- What one call leaves behind: the engine, its effects, and the acknowledgement with the
connection it was handed to, if the pool knows the peer. -/
structure Outcome where
  engine : GossipEngine
  effects : List EngineEffect
  ack : Option (Connection × SyncAck)

def receiveSyncBatch (platform : Platform) (pool : ConnectionPool) (localPeerId : String)
    (engine : GossipEngine) (syncBatch : SyncBatch) (moments : ℕ → Moment)
    (fromPeerId : String) : Outcome :=
  let (engine, effects) :=
    receiveMessages platform pool fromPeerId engine (deliveries syncBatch.messages moments)
  { engine
    effects
    ack := (pool.send fromPeerId).map fun connection ↦
      (connection, { sender := localPeerId, batchId := syncBatch.id }) }

@[simp] theorem deliveries_map_fst (messages : List P2PMessage) (moments : ℕ → Moment) :
    (deliveries messages moments).map Prod.fst = messages := by
  simp [deliveries, Function.comp_def]

theorem forall_mem_deliveries (messages : List P2PMessage) (moments : ℕ → Moment)
    (property : P2PMessage → Prop) :
    (∀ delivery ∈ deliveries messages moments, property delivery.1) ↔
      ∀ message ∈ messages, property message := by
  constructor
  · intro h message hmessage
    rw [← deliveries_map_fst messages moments] at hmessage
    obtain ⟨delivery, hdelivery, rfl⟩ := List.mem_map.1 hmessage
    exact h delivery hdelivery
  · intro h delivery hdelivery
    apply h
    rw [← deliveries_map_fst messages moments]
    exact List.mem_map_of_mem hdelivery

/-- Each message is seen afterwards, and either was seen before or was announced meanwhile. -/
def Covered (messages : List P2PMessage) (engine engine' : GossipEngine)
    (effects : List EngineEffect) : Prop :=
  ∀ message ∈ messages, message.id ∈ engine'.seenMessages ∧
    (message.id ∈ engine.seenMessages ∨
      ∃ announced ∈ announcements effects, announced.id = message.id)

/-- Once the acknowledgement is sent, every message of the batch is covered. -/
def AcksOnlySeen (engine : GossipEngine) (syncBatch : SyncBatch) (outcome : Outcome) : Prop :=
  outcome.ack.isSome = true →
    Covered syncBatch.messages engine outcome.engine outcome.effects

/-- The message carries a signature under the key of its sender, which the manager has
registered or, if it has not, is told by the message itself. -/
structure SignedBy (platform : Platform) (manager : SecurityManager) (key : String → String)
    (message : P2PMessage) : Prop where
  known : manager.verificationKey message = some (key message.sender)
  verifies : ∃ signature ∈ truthy message.signature,
    platform.verify message.signedFields signature (key message.sender) = true

/-- A message that passes the checks which do not depend on the sending neighbour. -/
structure WellFormed (platform : Platform) (engine : GossipEngine) (key : String → String)
    (message : P2PMessage) : Prop where
  pow : platform.verifyPuzzle message.id Config.POW_DIFFICULTY message.powNonce = true
  signed : ∀ manager, engine.securityManager = some manager →
    SignedBy platform manager key message

/-- The iterations that do not skip their message, if the ids of the batch are distinct. -/
def unseen (engine : GossipEngine) (deliveries : List (P2PMessage × Moment)) :
    List (P2PMessage × Moment) :=
  deliveries.filter fun delivery ↦ delivery.1.id ∉ engine.seenMessages

/-- The clock readings of those iterations. -/
def unseenTimes (engine : GossipEngine) (deliveries : List (P2PMessage × Moment)) : List ℕ :=
  (unseen engine deliveries).map fun delivery ↦ delivery.2.now

/-! ## Signatures along the loop -/

theorem WellFormed.signatureValid {platform : Platform} {engine : GossipEngine}
    {key : String → String} {message : P2PMessage} (h : WellFormed platform engine key message) :
    engine.SignatureValid platform message := by
  intro manager hmanager
  obtain ⟨hknown, signature, hsignature, hverify⟩ := h.signed manager hmanager
  rw [SecurityManager.verifyIncomingMessage_fst]
  exact ⟨signature, _, hsignature, hknown, hverify⟩

/-- Verifying one signed message leaves the others signed. -/
theorem SignedBy.verifyIncomingMessage {platform : Platform} {manager : SecurityManager}
    {key : String → String} {first message : P2PMessage} (collector : MetricsCollector)
    (hfirst : SignedBy platform manager key first) (h : SignedBy platform manager key message) :
    SignedBy platform (manager.verifyIncomingMessage platform collector first).2.1 key
      message := by
  refine ⟨?_, h.verifies⟩
  have hknown := h.known
  unfold SecurityManager.verificationKey at hknown ⊢
  rcases SecurityManager.keyOf_verifyIncomingMessage platform manager collector first
    message.sender with hsame | ⟨hsender, hnone, hlearned⟩
  · rw [hsame]
    exact hknown
  · have hattached := hfirst.known
    rw [SecurityManager.verificationKey, ← hsender, hnone, Option.none_or] at hattached
    rw [hlearned, hattached, Option.some_or]

theorem WellFormed.receiveMessage {platform : Platform} {engine : GossipEngine}
    {key : String → String} {first message : P2PMessage} {pool : ConnectionPool}
    {moment : Moment} {fromPeerId : Option String} (hfirst : WellFormed platform engine key first)
    (h : WellFormed platform engine key message)
    (haccepts : engine.Accepts platform moment.now first fromPeerId) :
    WellFormed platform
      (engine.receiveMessage platform pool moment.now moment.draws first fromPeerId).1 key
      message := by
  refine ⟨h.pow, ?_⟩
  rcases engine.receiveMessage_cases pool moment.now moment.draws first fromPeerId platform with
    ⟨hdropped, _⟩ | ⟨_, ⟨router, collector, hframe⟩, _⟩
  · exact absurd haccepts hdropped
  · intro manager hmanager
    rw [hframe] at hmanager
    have hmanager :=
      (engine.clocked_securityManager moment.now first fromPeerId platform).symm.trans hmanager
    obtain ⟨before, hbefore, rfl⟩ := Option.map_eq_some_iff.1 hmanager
    exact (hfirst.signed before hbefore).verifyIncomingMessage _ (h.signed before hbefore)

/-- A well-formed message that was not seen is accepted exactly when the limiter allows it. -/
theorem WellFormed.accepts_iff {platform : Platform} {engine : GossipEngine}
    {key : String → String} {message : P2PMessage} {now : ℕ} {fromPeerId : Option String}
    (h : WellFormed platform engine key message) (hunseen : message.id ∉ engine.seenMessages) :
    engine.Accepts platform now message fromPeerId ↔ engine.Allowed now fromPeerId :=
  ⟨fun haccepts ↦ haccepts.allowed,
    fun hallowed ↦ ⟨h.pow, hallowed, h.signatureValid, hunseen⟩⟩

/-! ## The loop -/

section Loop

variable (platform : Platform) (pool : ConnectionPool) (fromPeerId : String)

/-- No iteration forgets an id, and only ids of the batch can be new. -/
theorem seenMessages_receiveMessages (engine : GossipEngine)
    (deliveries : List (P2PMessage × Moment)) (id : String) :
    (id ∈ engine.seenMessages →
      id ∈ (receiveMessages platform pool fromPeerId engine deliveries).1.seenMessages) ∧
    (id ∈ (receiveMessages platform pool fromPeerId engine deliveries).1.seenMessages →
      id ∈ engine.seenMessages ∨ ∃ delivery ∈ deliveries, delivery.1.id = id) := by
  induction deliveries generalizing engine with
  | nil => exact ⟨fun h ↦ h, .inl⟩
  | cons delivery rest ih =>
    unfold receiveMessages
    split
    · refine ⟨(ih engine).1, fun h ↦ ((ih engine).2 h).imp_right ?_⟩
      rintro ⟨later, hmem, hid⟩
      exact ⟨later, List.mem_cons_of_mem _ hmem, hid⟩
    · have hstep := engine.mem_seenMessages_receiveMessage pool delivery.2.now delivery.2.draws
        delivery.1 (truthy (some fromPeerId)) platform id
      refine ⟨fun h ↦ (ih _).1 (hstep.2 (.inl h)), fun h ↦ ?_⟩
      rcases (ih _).2 h with hseen | ⟨later, hmem, hid⟩
      · refine (hstep.1 hseen).imp_right fun hnew ↦ ?_
        exact ⟨delivery, List.mem_cons_self, hnew.1.symm⟩
      · exact .inr ⟨later, List.mem_cons_of_mem _ hmem, hid⟩

/-- Only messages of the batch are announced. -/
theorem announcements_receiveMessages (engine : GossipEngine)
    (deliveries : List (P2PMessage × Moment)) {announced : P2PMessage}
    (h : announced ∈
      announcements (receiveMessages platform pool fromPeerId engine deliveries).2) :
    ∃ delivery ∈ deliveries, delivery.1.id = announced.id := by
  induction deliveries generalizing engine with
  | nil => cases h
  | cons delivery rest ih =>
    unfold receiveMessages at h
    split at h
    · obtain ⟨later, hmem, hid⟩ := ih engine h
      exact ⟨later, List.mem_cons_of_mem _ hmem, hid⟩
    · rcases mem_announcements_append.1 h with hfirst | hrest
      · exact ⟨delivery, List.mem_cons_self,
          (GossipEngine.id_of_mem_announcements _ _ _ _ _ _ _ hfirst).symm⟩
      · obtain ⟨later, hmem, hid⟩ := ih _ hrest
        exact ⟨later, List.mem_cons_of_mem _ hmem, hid⟩

theorem covered_cons (message : P2PMessage) (messages : List P2PMessage)
    (engine engine' : GossipEngine) (effects : List EngineEffect) :
    Covered (message :: messages) engine engine' effects ↔
      Covered [message] engine engine' effects ∧ Covered messages engine engine' effects := by
  simp only [Covered, List.forall_mem_cons, List.not_mem_nil, false_implies, implies_true, and_true]

/-- An iteration on an unseen message covers it by accepting and announcing it: the messages of the
remaining iterations have other ids. -/
theorem covered_first_iff {engine : GossipEngine} {delivery : P2PMessage × Moment}
    {rest : List (P2PMessage × Moment)} (hunseen : delivery.1.id ∉ engine.seenMessages)
    (hfresh : ∀ later ∈ rest, later.1.id ≠ delivery.1.id) :
    Covered [delivery.1] engine
        (receiveMessages platform pool fromPeerId engine (delivery :: rest)).1
        (receiveMessages platform pool fromPeerId engine (delivery :: rest)).2 ↔
      engine.Accepts platform delivery.2.now delivery.1 (truthy (some fromPeerId)) ∧
      announcements (engine.receiveMessage platform pool delivery.2.now delivery.2.draws
        delivery.1 (truthy (some fromPeerId))).2 ≠ [] := by
  have hseen := engine.mem_seenMessages_receiveMessage pool delivery.2.now delivery.2.draws
    delivery.1 (truthy (some fromPeerId)) platform delivery.1.id
  have hannounced (announced : P2PMessage) (h : announced ∈ announcements
      (engine.receiveMessage platform pool delivery.2.now delivery.2.draws delivery.1
        (truthy (some fromPeerId))).2) : announced.id = delivery.1.id :=
    GossipEngine.id_of_mem_announcements _ _ _ _ _ _ _ h
  rw [receiveMessages, if_neg hunseen, Covered, List.forall_mem_singleton]
  dsimp only
  generalize engine.receiveMessage platform pool delivery.2.now delivery.2.draws
    delivery.1 (truthy (some fromPeerId)) = first at hseen hannounced ⊢
  have hloop := seenMessages_receiveMessages platform pool fromPeerId first.1 rest delivery.1.id
  constructor
  · rintro ⟨hafter, hcause⟩
    constructor
    · rcases hloop.2 hafter with hmem | ⟨later, hlater, hid⟩
      · exact ((hseen.1 hmem).resolve_left hunseen).2
      · exact absurd hid (hfresh later hlater)
    · obtain ⟨announced, hmem, hid⟩ := hcause.resolve_left hunseen
      rcases mem_announcements_append.1 hmem with hfirst | hrest
      · exact List.ne_nil_of_mem hfirst
      · obtain ⟨later, hlater, hlaterId⟩ :=
          announcements_receiveMessages platform pool fromPeerId first.1 rest hrest
        exact absurd (hlaterId.trans hid) (hfresh later hlater)
  · rintro ⟨haccepts, hnonempty⟩
    obtain ⟨announced, hmem⟩ := List.exists_mem_of_ne_nil _ hnonempty
    refine ⟨hloop.1 (hseen.2 (.inr ⟨rfl, haccepts⟩)), .inr ⟨announced, ?_⟩⟩
    exact ⟨mem_announcements_append.2 (.inl hmem), hannounced announced hmem⟩

/-- For the messages that come after it the iteration does not count. -/
theorem covered_rest_iff {engine : GossipEngine} {delivery : P2PMessage × Moment}
    {rest : List (P2PMessage × Moment)} (hunseen : delivery.1.id ∉ engine.seenMessages)
    (hfresh : ∀ later ∈ rest, later.1.id ≠ delivery.1.id) :
    Covered (rest.map Prod.fst) engine
        (receiveMessages platform pool fromPeerId engine (delivery :: rest)).1
        (receiveMessages platform pool fromPeerId engine (delivery :: rest)).2 ↔
      Covered (rest.map Prod.fst)
        (engine.receiveMessage platform pool delivery.2.now delivery.2.draws delivery.1
          (truthy (some fromPeerId))).1
        (receiveMessages platform pool fromPeerId
          (engine.receiveMessage platform pool delivery.2.now delivery.2.draws delivery.1
            (truthy (some fromPeerId))).1 rest).1
        (receiveMessages platform pool fromPeerId
          (engine.receiveMessage platform pool delivery.2.now delivery.2.draws delivery.1
            (truthy (some fromPeerId))).1 rest).2 := by
  have hseen := engine.mem_seenMessages_receiveMessage pool delivery.2.now delivery.2.draws
    delivery.1 (truthy (some fromPeerId)) platform
  have hannounced (announced : P2PMessage) (h : announced ∈ announcements
      (engine.receiveMessage platform pool delivery.2.now delivery.2.draws delivery.1
        (truthy (some fromPeerId))).2) : announced.id = delivery.1.id :=
    GossipEngine.id_of_mem_announcements _ _ _ _ _ _ _ h
  rw [receiveMessages, if_neg hunseen, Covered, Covered, List.forall_mem_map, List.forall_mem_map]
  dsimp only
  refine forall₂_congr fun later hlater ↦ and_congr_right fun _ ↦ or_congr ?_ (exists_congr ?_)
  · rw [hseen]
    exact (or_iff_left fun hnew ↦ hfresh later hlater hnew.1).symm
  · intro announced
    rw [mem_announcements_append]
    refine and_congr_left fun hid ↦ or_iff_right fun hfirst ↦ ?_
    exact hfresh later hlater (hid.symm.trans (hannounced announced hfirst))

/-- An iteration on an unseen message covers the batch if it accepts and announces its message,
and the remaining iterations cover the rest. -/
theorem covered_cons_iff {engine : GossipEngine} {delivery : P2PMessage × Moment}
    {rest : List (P2PMessage × Moment)} (hunseen : delivery.1.id ∉ engine.seenMessages)
    (hfresh : ∀ later ∈ rest, later.1.id ≠ delivery.1.id) :
    Covered (delivery.1 :: rest.map Prod.fst) engine
        (receiveMessages platform pool fromPeerId engine (delivery :: rest)).1
        (receiveMessages platform pool fromPeerId engine (delivery :: rest)).2 ↔
      engine.Accepts platform delivery.2.now delivery.1 (truthy (some fromPeerId)) ∧
      announcements (engine.receiveMessage platform pool delivery.2.now delivery.2.draws
        delivery.1 (truthy (some fromPeerId))).2 ≠ [] ∧
      Covered (rest.map Prod.fst)
        (engine.receiveMessage platform pool delivery.2.now delivery.2.draws delivery.1
          (truthy (some fromPeerId))).1
        (receiveMessages platform pool fromPeerId
          (engine.receiveMessage platform pool delivery.2.now delivery.2.draws delivery.1
            (truthy (some fromPeerId))).1 rest).1
        (receiveMessages platform pool fromPeerId
          (engine.receiveMessage platform pool delivery.2.now delivery.2.draws delivery.1
            (truthy (some fromPeerId))).1 rest).2 := by
  rw [covered_cons, covered_first_iff platform pool fromPeerId hunseen hfresh,
    covered_rest_iff platform pool fromPeerId hunseen hfresh, and_assoc]

/-- The limiter after an accepted message has answered one more call of the sending neighbour. -/
theorem rateLimiter_receiveMessage {engine : GossipEngine} {message : P2PMessage}
    {moment : Moment} (hfrom : fromPeerId ≠ "")
    (haccepts : engine.Accepts platform moment.now message (truthy (some fromPeerId))) :
    (engine.receiveMessage platform pool moment.now moment.draws message
      (truthy (some fromPeerId))).1.rateLimiter =
        (engine.rateLimiter.checkLimit moment.now fromPeerId).2 := by
  have htruthy : truthy (some fromPeerId) = some fromPeerId := truthy_eq_some.2 ⟨rfl, hfrom⟩
  rw [htruthy] at haccepts ⊢
  rcases engine.receiveMessage_cases pool moment.now moment.draws message (some fromPeerId)
    platform with ⟨hdropped, _⟩ | ⟨_, ⟨router, collector, hframe⟩, _⟩
  · exact absurd haccepts hdropped
  · rw [hframe]
    exact engine.clocked_rateLimiter moment.now message platform fromPeerId

theorem allowed_iff {engine : GossipEngine} {now : ℕ} :
    engine.Allowed now (truthy (some fromPeerId)) ↔
      (fromPeerId ≠ "" → (engine.rateLimiter.checkLimit now fromPeerId).1 = true) := by
  unfold GossipEngine.Allowed
  simp only [truthy_eq_some, Option.some.injEq]
  constructor
  · intro h hfrom
    exact h fromPeerId ⟨rfl, hfrom⟩
  · intro h peerId hpeer
    rw [← hpeer.1]
    exact h (hpeer.1 ▸ hpeer.2)

theorem announcements_ne_nil_iff {engine : GossipEngine} {message : P2PMessage}
    {moment : Moment}
    (haccepts : engine.Accepts platform moment.now message (truthy (some fromPeerId))) :
    announcements (engine.receiveMessage platform pool moment.now moment.draws message
      (truthy (some fromPeerId))).2 ≠ [] ↔
        (message.type = .subAd → GossipEngine.Announceable engine.localPeerId message) := by
  rcases engine.receiveMessage_cases pool moment.now moment.draws message
    (truthy (some fromPeerId)) platform with ⟨hdropped, _⟩ | ⟨_, _, _, hannounced⟩
  · exact absurd haccepts hdropped
  · exact hannounced

/-- The iterations that remain after an accepted message meet the same messages unseen. -/
theorem mem_seenMessages_of_ne {engine : GossipEngine} {message : P2PMessage} {moment : Moment}
    {id : String} (hne : id ≠ message.id) :
    id ∈ (engine.receiveMessage platform pool moment.now moment.draws message
      (truthy (some fromPeerId))).1.seenMessages ↔ id ∈ engine.seenMessages := by
  rw [GossipEngine.mem_seenMessages_receiveMessage]
  exact or_iff_left fun hnew ↦ hne hnew.1

theorem unseen_congr {engine engine' : GossipEngine} {deliveries : List (P2PMessage × Moment)}
    (h : ∀ delivery ∈ deliveries,
      delivery.1.id ∈ engine'.seenMessages ↔ delivery.1.id ∈ engine.seenMessages) :
    unseen engine' deliveries = unseen engine deliveries := by
  apply List.filter_congr
  intro delivery hdelivery
  simp only [h delivery hdelivery]

theorem unseenTimes_of_seen {engine : GossipEngine} {delivery : P2PMessage × Moment}
    (rest : List (P2PMessage × Moment)) (hseen : delivery.1.id ∈ engine.seenMessages) :
    unseenTimes engine (delivery :: rest) = unseenTimes engine rest := by
  simp [unseenTimes, unseen, hseen]

theorem unseenTimes_of_unseen {engine : GossipEngine} {delivery : P2PMessage × Moment}
    (rest : List (P2PMessage × Moment)) (hunseen : delivery.1.id ∉ engine.seenMessages) :
    unseenTimes engine (delivery :: rest) = delivery.2.now :: unseenTimes engine rest := by
  simp [unseenTimes, unseen, hunseen]

/-- Once a message is accepted, the limiter has to accept the calls for the others. -/
theorem acceptsAll_cons_of_accepts {engine : GossipEngine} {message : P2PMessage} {moment : Moment}
    (haccepts : engine.Accepts platform moment.now message (truthy (some fromPeerId)))
    (times : List ℕ) :
    (fromPeerId ≠ "" →
      engine.rateLimiter.acceptsAll fromPeerId (moment.now :: times) = true) ↔
    (fromPeerId ≠ "" →
      (engine.receiveMessage platform pool moment.now moment.draws message
        (truthy (some fromPeerId))).1.rateLimiter.acceptsAll fromPeerId times = true) := by
  refine forall_congr' fun hfrom ↦ ?_
  have hallowed := (allowed_iff fromPeerId).1 haccepts.allowed hfrom
  rw [RateLimiter.acceptsAll, Bool.and_eq_true,
    rateLimiter_receiveMessage platform pool fromPeerId hfrom haccepts]
  exact and_iff_right hallowed

/-- The whole batch is covered exactly when the limiter accepts the calls made for its unseen
messages, and its unseen advertisements are ones that the engine announces. -/
theorem covered_iff {key : String → String} {engine : GossipEngine}
    {deliveries : List (P2PMessage × Moment)}
    (hdistinct : (deliveries.map fun delivery ↦ delivery.1.id).Nodup)
    (hformed : ∀ delivery ∈ deliveries, WellFormed platform engine key delivery.1) :
    Covered (deliveries.map Prod.fst) engine
        (receiveMessages platform pool fromPeerId engine deliveries).1
        (receiveMessages platform pool fromPeerId engine deliveries).2 ↔
      (fromPeerId ≠ "" →
        engine.rateLimiter.acceptsAll fromPeerId (unseenTimes engine deliveries) = true) ∧
      ∀ delivery ∈ deliveries, delivery.1.id ∉ engine.seenMessages → delivery.1.type = .subAd →
        GossipEngine.Announceable engine.localPeerId delivery.1 := by
  induction deliveries generalizing engine with
  | nil => simp [Covered, unseenTimes, unseen, RateLimiter.acceptsAll]
  | cons delivery rest ih =>
    rw [List.map_cons, List.nodup_cons] at hdistinct
    have hfresh (later) (hlater : later ∈ rest) : later.1.id ≠ delivery.1.id :=
      fun heq ↦ hdistinct.1 (List.mem_map.2 ⟨later, hlater, heq⟩)
    have hformedFirst := hformed delivery List.mem_cons_self
    have hformedRest := fun later hlater ↦ hformed later (List.mem_cons_of_mem _ hlater)
    rw [List.forall_mem_cons, List.map_cons]
    by_cases hseen : delivery.1.id ∈ engine.seenMessages
    · have hkept := (seenMessages_receiveMessages platform pool fromPeerId engine rest
        delivery.1.id).1 hseen
      have hrest := ih hdistinct.2 hformedRest
      rw [receiveMessages, if_pos hseen, unseenTimes_of_seen rest hseen]
      simp only [hseen, not_true_eq_false, false_implies, true_and]
      exact (List.forall_mem_cons.trans (and_iff_right ⟨hkept, .inl hseen⟩)).trans hrest
    · rw [covered_cons_iff platform pool fromPeerId hseen hfresh, unseenTimes_of_unseen rest hseen]
      by_cases haccepts :
          engine.Accepts platform delivery.2.now delivery.1 (truthy (some fromPeerId))
      · have hformedAfter (later) (hlater : later ∈ rest) :
            WellFormed platform (engine.receiveMessage platform pool delivery.2.now
              delivery.2.draws delivery.1 (truthy (some fromPeerId))).1 key later.1 :=
          hformedFirst.receiveMessage (hformedRest later hlater) haccepts
        have hsame (later) (hlater : later ∈ rest) :
            later.1.id ∈ (engine.receiveMessage platform pool delivery.2.now delivery.2.draws
              delivery.1 (truthy (some fromPeerId))).1.seenMessages ↔
                later.1.id ∈ engine.seenMessages :=
          mem_seenMessages_of_ne platform pool fromPeerId (hfresh later hlater)
        have hadverts : (∀ later ∈ rest, later.1.id ∉ (engine.receiveMessage platform pool
              delivery.2.now delivery.2.draws delivery.1
              (truthy (some fromPeerId))).1.seenMessages → later.1.type = .subAd →
                GossipEngine.Announceable engine.localPeerId later.1) ↔
            ∀ later ∈ rest, later.1.id ∉ engine.seenMessages → later.1.type = .subAd →
              GossipEngine.Announceable engine.localPeerId later.1 :=
          forall₂_congr fun later hlater ↦ by rw [hsame later hlater]
        have hrest := ih hdistinct.2 hformedAfter
        rw [unseenTimes, unseen_congr hsame, GossipEngine.localPeerId_receiveMessage,
          hadverts] at hrest
        rw [hrest, announcements_ne_nil_iff platform pool fromPeerId haccepts,
          acceptsAll_cons_of_accepts platform pool fromPeerId haccepts, unseenTimes]
        constructor
        · rintro ⟨_, hfirst, hlimit, hlater⟩
          exact ⟨hlimit, fun _ ↦ hfirst, hlater⟩
        · rintro ⟨hlimit, hfirst, hlater⟩
          exact ⟨haccepts, hfirst hseen, hlimit, hlater⟩
      · have hrefused : ¬(fromPeerId ≠ "" →
            (engine.rateLimiter.checkLimit delivery.2.now fromPeerId).1 = true) := by
          rwa [← allowed_iff, ← hformedFirst.accepts_iff hseen]
        refine iff_of_false (fun h ↦ haccepts h.1) fun h ↦ hrefused fun hfrom ↦ ?_
        have hall := h.1 hfrom
        rw [RateLimiter.acceptsAll, Bool.and_eq_true] at hall
        exact hall.1

end Loop

/-- A signed chat message of the peer `p`. -/
def chatOf (id : String) (powNonce : ℕ) : P2PMessage :=
  SecurityManager.signOutgoingMessage Pow.javaScript "key of p"
    { id
      type := .chat
      ttl := Config.MAX_TTL
      lamportTimestamp := 1
      sender := "p"
      senderPublicKey := some "key of p"
      topic := "global"
      payload := .text "hello"
      createdAt := "2024-01-01T00:00:00.000Z"
      powNonce
      signature := none
      routingPath := none }

/-- One batch of a synchronisation session, one message longer than the default capacity. -/
def burst : SyncBatch where
  id := "batch"
  messages := List.zipWith chatOf ((List.range 21).map fun index ↦ "m" ++ toString index)
    [1313, 3123, 1328, 225, 448, 1482, 428, 139, 435, 191, 401, 1023, 1688, 123, 346, 419, 133,
      732, 621, 121, 789]

/-- A freshly started node with the configured limits. -/
def freshEngine : GossipEngine :=
  .new "local" (some (SecurityManager.init "local" "key of local")) Config.RATE_LIMIT_CAPACITY
    Config.RATE_LIMIT_REFILL_RATE

/-- A pool whose only connection is the inbound one of `p`. -/
def poolWithPeer : ConnectionPool :=
  (ConnectionPool.new "local").addInboundConnection ⟨0, "p"⟩

/-- All clock readings of the call fall in one millisecond. -/
def oneInstant : ℕ → Moment := fun _ ↦ ⟨1000, fun _ ↦ 0⟩

theorem burst_wellFormed : ∀ message ∈ burst.messages,
    WellFormed Pow.javaScript freshEngine (fun _ ↦ "key of p") message := by
  have hall : ∀ message ∈ burst.messages,
      Pow.javaScript.verifyPuzzle message.id Config.POW_DIFFICULTY message.powNonce = true ∧
        (SecurityManager.init "local" "key of local").verificationKey message =
          some "key of p" ∧
        ∃ signature ∈ truthy message.signature,
          Pow.javaScript.verify message.signedFields signature "key of p" = true := by
    decide +kernel
  intro message hmessage
  obtain ⟨hpow, hknown, hverifies⟩ := hall message hmessage
  refine ⟨hpow, ?_⟩
  intro manager hmanager
  cases hmanager
  exact ⟨hknown, hverifies⟩

end SyncReceiver

end P2PApp
