import P2PApp.Protocol.RateLimiter
import P2PApp.Protocol.TopicRouter
import P2PApp.Security.SecurityManager
import P2PApp.Transport.ConnectionPool

/-!
# The gossip engine

`receiveMessage` in its source order: proof-of-work, rate limit, signature, Lamport update and
deduplication decide whether a message is admitted; an admitted advertisement updates the routing
table and is flooded along loop-free paths, any other admitted message is forwarded to a random
choice of eligible peers; and every admitted message is announced to the node, except an
advertisement that does not parse or that has passed through this node before.

The engine returns the calls it makes on its collaborators as a list of effects, in order.
-/

namespace P2PApp

abbrev Router := TopicRouter String String ℕ (List String)

structure GossipEngine where
  localPeerId : String
  lamportClock : LamportClock
  seenMessages : Finset String
  rateLimiter : RateLimiter String
  topicRouter : Router
  securityManager : Option SecurityManager
  collector : MetricsCollector

/-- The clock reading and the random numbers that one call of `receiveMessage` draws. -/
structure Moment where
  now : ℕ
  draws : ℕ → ℕ

inductive EngineEffect
  /-- `connectionPool.broadcast(message, excludePeerIds)`. -/
  | broadcast (message : P2PMessage) (excludePeerIds : List String)
  /-- `emit('message:new', message)`. -/
  | messageNew (message : P2PMessage)
  deriving DecidableEq, Repr

namespace EngineEffect

def sent? : EngineEffect → Option P2PMessage
  | broadcast message _ => some message
  | messageNew _ => none

def announced? : EngineEffect → Option P2PMessage
  | broadcast _ _ => none
  | messageNew message => some message

end EngineEffect

/-- The messages of the `broadcast` calls, in order. -/
def broadcasts (effects : List EngineEffect) : List P2PMessage :=
  effects.filterMap EngineEffect.sent?

/-- The messages of the `message:new` events, in order. -/
def announcements (effects : List EngineEffect) : List P2PMessage :=
  effects.filterMap EngineEffect.announced?

theorem mem_broadcasts {effects : List EngineEffect} {message : P2PMessage} :
    message ∈ broadcasts effects ↔ ∃ excluded, .broadcast message excluded ∈ effects := by
  rw [broadcasts, List.mem_filterMap]
  constructor
  · rintro ⟨effect, hmem, hsent⟩
    cases effect with
    | broadcast sent excluded =>
      cases hsent
      exact ⟨excluded, hmem⟩
    | messageNew announced => cases hsent
  · rintro ⟨excluded, hmem⟩
    exact ⟨_, hmem, rfl⟩

theorem mem_announcements_append {first later : List EngineEffect} {message : P2PMessage} :
    message ∈ announcements (first ++ later) ↔
      message ∈ announcements first ∨ message ∈ announcements later := by
  rw [announcements, List.filterMap_append, List.mem_append]
  rfl

theorem ne_nil_of_mem_broadcasts {effects : List EngineEffect} {message : P2PMessage}
    (h : message ∈ broadcasts effects) : effects ≠ [] := by
  intro hnil
  rw [hnil] at h
  cases h

theorem ne_nil_of_mem_announcements {effects : List EngineEffect} {message : P2PMessage}
    (h : message ∈ announcements effects) : effects ≠ [] := by
  intro hnil
  rw [hnil] at h
  cases h

/-- Why a message was dropped, or that it was not. -/
inductive Verdict
  | invalidPow
  | rateLimited
  | invalidSignature
  | duplicate
  | fresh
  deriving DecidableEq, Repr

namespace GossipEngine

def new (localPeerId : String) (securityManager : Option SecurityManager)
    (capacity refillRate : ℚ) : GossipEngine where
  localPeerId := localPeerId
  lamportClock := .new
  seenMessages := ∅
  rateLimiter := .new capacity refillRate
  topicRouter := .new
  securityManager := securityManager
  collector := .new

def increment (engine : GossipEngine) (name : String) : GossipEngine :=
  { engine with collector := engine.collector.increment name }

/-- The rate limit is bypassed when there is no sending neighbour; `none` stands for every sender
id that JavaScript treats as false. -/
def checkLimit (engine : GossipEngine) (now : ℕ) (fromPeerId : Option String) :
    Bool × GossipEngine :=
  match fromPeerId with
  | none => (true, engine)
  | some peerId =>
    let (allowed, rateLimiter) := engine.rateLimiter.checkLimit now peerId
    (allowed, { engine with rateLimiter })

/-- Without a security manager every signature passes. -/
def verifySignature (platform : Platform) (engine : GossipEngine) (message : P2PMessage) :
    Bool × GossipEngine :=
  match engine.securityManager with
  | none => (true, engine)
  | some manager =>
    let (valid, manager, collector) :=
      manager.verifyIncomingMessage platform engine.collector message
    (valid, { engine with securityManager := some manager, collector })

def updateClock (engine : GossipEngine) (lamportTimestamp : ℕ) : GossipEngine :=
  if lamportTimestamp ≠ 0 then
    { engine with lamportClock := engine.lamportClock.update lamportTimestamp }
  else engine

/-- The first half of `receiveMessage`, up to the insertion into the seen set. -/
def screen (platform : Platform) (now : ℕ) (engine : GossipEngine) (message : P2PMessage)
    (fromPeerId : Option String) : Verdict × GossipEngine :=
  let engine := engine.increment "messages_received_total"
  if platform.verifyPuzzle message.id Config.POW_DIFFICULTY message.powNonce = false then
    (.invalidPow, engine.increment "messages_dropped_pow")
  else
    let (allowed, engine) := engine.checkLimit now fromPeerId
    if allowed = false then (.rateLimited, engine.increment "messages_dropped_ratelimit")
    else
      let (valid, engine) := engine.verifySignature platform message
      if valid = false then (.invalidSignature, engine.increment "invalid_signature_count")
      else
        let engine := engine.updateClock message.lamportTimestamp
        if message.id ∈ engine.seenMessages then
          (.duplicate, engine.increment "messages_dropped_duplicate")
        else
          (.fresh, { engine with seenMessages := insert message.id engine.seenMessages })

/-- Flood an advertisement to the neighbours that are not on its path. -/
def relayAdvert (pool : ConnectionPool) (engine : GossipEngine) (message : P2PMessage)
    (path : List String) (fromPeerId : Option String) :
    P2PMessage × GossipEngine × List EngineEffect :=
  let nextPath := path ++ [engine.localPeerId]
  let message := { message with ttl := message.ttl - 1, routingPath := some nextPath }
  let excludeSet := nextPath ++ fromPeerId.toList ++ [message.sender]
  let selected := pool.getAllPeerIds.filter fun peerId ↦ peerId ∉ excludeSet
  if 0 < selected.length then
    (message, engine.increment "messages_forwarded_total",
      [.broadcast message (pool.getAllPeerIds.filter fun peerId ↦ peerId ∉ selected)])
  else (message, engine, [])

/-- What an advertisement does to the routing table, and whether that is worth relaying. -/
def routeAdvert (now : ℕ) (router : Router) (localPeerId : String) (message : P2PMessage)
    (topic : String) (sequenceNumber : ℕ) (action : SubscriptionAction) (path : List String)
    (fromPeerId : Option String) : Bool × Router :=
  match action with
  | .join =>
    router.updateRoute topic message.sender (fromPeerId.getD localPeerId) path.length
      sequenceNumber path (WithTop.some (now + Config.ROUTE_LEASE_MS))
  | .leave => router.removeRoute topic message.sender
  | .other _ => (false, router)

/-- An admitted `SUB_AD`. -/
def processSubAd (pool : ConnectionPool) (now : ℕ) (engine : GossipEngine) (message : P2PMessage)
    (fromPeerId : Option String) : GossipEngine × List EngineEffect :=
  match message.payload with
  -- `JSON.parse` failed.
  | .text _ => (engine, [])
  | .subAd topic sequenceNumber action =>
    let path := message.routingPath.getD []
    if engine.localPeerId ∈ path then (engine, [])
    else
      let (changed, topicRouter) := routeAdvert now engine.topicRouter engine.localPeerId message
        topic sequenceNumber action path fromPeerId
      let engine := { engine with topicRouter }
      if changed = true ∧ 1 < message.ttl then
        let (message, engine, effects) := engine.relayAdvert pool message path fromPeerId
        (engine, effects ++ [.messageNew message])
      else (engine, [.messageNew message])

/-- The sampling loop: one random index for each selected peer, without replacement. The number
of iterations is bounded by the number of candidates that remain. -/
def selectPeers (draws : ℕ → ℕ) (k : ℕ) :
    (remaining : ℕ) → (availablePeers : List String) → (selectedPeers : Finset String) →
      Finset String
  | 0, _, selectedPeers => selectedPeers
  | remaining + 1, availablePeers, selectedPeers =>
    if selectedPeers.card < k then
      let randomIndex := draws remaining % availablePeers.length
      match availablePeers[randomIndex]? with
      | some peerId =>
        selectPeers draws k remaining (availablePeers.eraseIdx randomIndex)
          (insert peerId selectedPeers)
      | none => selectedPeers
    else selectedPeers

/-- The peers among which `forwardMessage` draws. -/
def eligiblePeers (pool : ConnectionPool) (now : ℕ) (router : Router) (message : P2PMessage)
    (fromPeerId : Option String) : List String :=
  let availablePeers :=
    if message.topic ≠ "" ∧ message.topic ≠ "global" then
      pool.getAllPeerIds.filter fun peerId ↦ peerId ∈ router.getPeersForTopic message.topic now
    else pool.getAllPeerIds
  availablePeers.filter fun peerId ↦ peerId ∉ message.sender :: fromPeerId.toList

/-- Hand the message to at most `GOSSIP_FANOUT` of the eligible peers. -/
def forwardMessage (pool : ConnectionPool) (now : ℕ) (draws : ℕ → ℕ) (engine : GossipEngine)
    (message : P2PMessage) (fromPeerId : Option String) : GossipEngine × List EngineEffect :=
  let availablePeers := eligiblePeers pool now engine.topicRouter message fromPeerId
  let k := min Config.GOSSIP_FANOUT availablePeers.length
  let selectedPeers := selectPeers draws k availablePeers.length availablePeers ∅
  if selectedPeers.card = 0 then (engine, [])
  else
    (engine.increment "messages_forwarded_total",
      [.broadcast message (pool.getAllPeerIds.filter fun peerId ↦ peerId ∉ selectedPeers)])

/-- An admitted message of any other type. -/
def processGossip (pool : ConnectionPool) (now : ℕ) (draws : ℕ → ℕ) (engine : GossipEngine)
    (message : P2PMessage) (fromPeerId : Option String) : GossipEngine × List EngineEffect :=
  let message := { message with ttl := message.ttl - 1 }
  if 0 < message.ttl then
    let (engine, effects) := engine.forwardMessage pool now draws message fromPeerId
    (engine, effects ++ [.messageNew message])
  else (engine.increment "messages_dropped_ttl", [.messageNew message])

def receiveMessage (platform : Platform) (pool : ConnectionPool) (now : ℕ) (draws : ℕ → ℕ)
    (engine : GossipEngine) (message : P2PMessage) (fromPeerId : Option String) :
    GossipEngine × List EngineEffect :=
  match engine.screen platform now message fromPeerId with
  | (.fresh, engine) =>
    if message.type = .subAd then engine.processSubAd pool now message fromPeerId
    else engine.processGossip pool now draws message fromPeerId
  | (_, engine) => (engine, [])

/-! ## Admission -/

/-- Two engines that differ at most in the clock, the limiter, the keys and the metrics. -/
structure SameCore (engine engine' : GossipEngine) : Prop where
  seenMessages : engine'.seenMessages = engine.seenMessages
  topicRouter : engine'.topicRouter = engine.topicRouter
  localPeerId : engine'.localPeerId = engine.localPeerId

theorem SameCore.trans {first second third : GossipEngine} (h : SameCore first second)
    (h' : SameCore second third) : SameCore first third where
  seenMessages := h'.seenMessages.trans h.seenMessages
  topicRouter := h'.topicRouter.trans h.topicRouter
  localPeerId := h'.localPeerId.trans h.localPeerId

theorem increment_sameCore (engine : GossipEngine) (name : String) :
    SameCore engine (engine.increment name) := ⟨rfl, rfl, rfl⟩

section Admit

variable (platform : Platform) (now : ℕ) (engine : GossipEngine) (message : P2PMessage)
  (fromPeerId : Option String)

/-- The rate limiter lets the sending neighbour through. -/
def Allowed : Prop :=
  ∀ peerId, fromPeerId = some peerId → (engine.rateLimiter.checkLimit now peerId).1 = true

/-- The security manager, if there is one, accepts the signature. -/
def SignatureValid : Prop :=
  ∀ manager, engine.securityManager = some manager →
    (manager.verifyIncomingMessage platform engine.collector message).1 = true

/-- The message passes all three checks and its id is new. -/
structure Accepts : Prop where
  pow : platform.verifyPuzzle message.id Config.POW_DIFFICULTY message.powNonce = true
  allowed : engine.Allowed now fromPeerId
  signature : engine.SignatureValid platform message
  unseen : message.id ∉ engine.seenMessages

/-- The engine after the rate-limit check. -/
def limited : GossipEngine :=
  ((engine.increment "messages_received_total").checkLimit now fromPeerId).2

/-- The engine after the signature check. -/
def verified : GossipEngine := ((engine.limited now fromPeerId).verifySignature platform message).2

/-- The engine of a message that passed all checks, before deduplication. -/
def clocked : GossipEngine :=
  (engine.verified platform now message fromPeerId).updateClock message.lamportTimestamp

theorem checkLimit_fst : (engine.checkLimit now fromPeerId).1 = true ↔
    engine.Allowed now fromPeerId := by
  cases fromPeerId <;> simp [checkLimit, Allowed]

theorem verifySignature_fst : (engine.verifySignature platform message).1 = true ↔
    engine.SignatureValid platform message := by
  unfold verifySignature SignatureValid
  cases engine.securityManager <;> simp

/-- Whether a signature is accepted depends on the keys alone. -/
theorem signatureValid_congr {engine engine' : GossipEngine}
    (h : engine'.securityManager = engine.securityManager) :
    engine'.SignatureValid platform message ↔ engine.SignatureValid platform message := by
  unfold SignatureValid
  simp only [h, SecurityManager.verifyIncomingMessage_fst]

theorem limited_sameCore : SameCore engine (engine.limited now fromPeerId) := by
  cases fromPeerId <;> exact ⟨rfl, rfl, rfl⟩

theorem limited_securityManager :
    (engine.limited now fromPeerId).securityManager = engine.securityManager := by
  cases fromPeerId <;> rfl

theorem verified_sameCore : SameCore engine (engine.verified platform now message fromPeerId) := by
  refine (engine.limited_sameCore now fromPeerId).trans ?_
  unfold verified verifySignature
  split <;> exact ⟨rfl, rfl, rfl⟩

theorem clocked_sameCore : SameCore engine (engine.clocked platform now message fromPeerId) := by
  refine (engine.verified_sameCore platform now message fromPeerId).trans ?_
  unfold clocked updateClock
  split <;> exact ⟨rfl, rfl, rfl⟩

/-- Admission, with the engine after each check named. -/
theorem screen_eq : engine.screen platform now message fromPeerId =
    if platform.verifyPuzzle message.id Config.POW_DIFFICULTY message.powNonce = false then
      (.invalidPow,
        (engine.increment "messages_received_total").increment "messages_dropped_pow")
    else if ((engine.increment "messages_received_total").checkLimit now fromPeerId).1 = false then
      (.rateLimited, (engine.limited now fromPeerId).increment "messages_dropped_ratelimit")
    else if ((engine.limited now fromPeerId).verifySignature platform message).1 = false then
      (.invalidSignature,
        (engine.verified platform now message fromPeerId).increment "invalid_signature_count")
    else if message.id ∈ (engine.clocked platform now message fromPeerId).seenMessages then
      (.duplicate,
        (engine.clocked platform now message fromPeerId).increment "messages_dropped_duplicate")
    else
      (.fresh, { engine.clocked platform now message fromPeerId with
        seenMessages := insert message.id
          (engine.clocked platform now message fromPeerId).seenMessages }) := rfl

/-- Everything admission can do, in the order of the checks. -/
theorem screen_cases :
    (platform.verifyPuzzle message.id Config.POW_DIFFICULTY message.powNonce = false ∧
      engine.screen platform now message fromPeerId = (.invalidPow,
        (engine.increment "messages_received_total").increment "messages_dropped_pow")) ∨
    (¬engine.Allowed now fromPeerId ∧
      engine.screen platform now message fromPeerId = (.rateLimited,
        (engine.limited now fromPeerId).increment "messages_dropped_ratelimit")) ∨
    (¬engine.SignatureValid platform message ∧
      engine.screen platform now message fromPeerId = (.invalidSignature,
        (engine.verified platform now message fromPeerId).increment
          "invalid_signature_count")) ∨
    (message.id ∈ engine.seenMessages ∧
      engine.screen platform now message fromPeerId = (.duplicate,
        (engine.clocked platform now message fromPeerId).increment
          "messages_dropped_duplicate")) ∨
    (engine.Accepts platform now message fromPeerId ∧
      engine.screen platform now message fromPeerId = (.fresh,
        { engine.clocked platform now message fromPeerId with
          seenMessages := insert message.id engine.seenMessages })) := by
  have hallowed : ((engine.increment "messages_received_total").checkLimit now fromPeerId).1 =
      true ↔ engine.Allowed now fromPeerId := checkLimit_fst _ _ _
  have hsignature : ((engine.limited now fromPeerId).verifySignature platform message).1 =
      true ↔ engine.SignatureValid platform message :=
    (verifySignature_fst _ _ _).trans
      (signatureValid_congr platform message (engine.limited_securityManager now fromPeerId))
  rw [screen_eq, (engine.clocked_sameCore platform now message fromPeerId).seenMessages]
  by_cases hpow : platform.verifyPuzzle message.id Config.POW_DIFFICULTY message.powNonce = false
  · exact .inl ⟨hpow, by rw [if_pos hpow]⟩
  rw [if_neg hpow]
  refine .inr ?_
  by_cases hlimit : engine.Allowed now fromPeerId
  swap
  · rw [← hallowed, Bool.not_eq_true] at hlimit
    exact .inl ⟨by rw [← hallowed, hlimit]; exact Bool.false_ne_true, by rw [if_pos hlimit]⟩
  rw [if_neg (by simp [hallowed.2 hlimit])]
  refine .inr ?_
  by_cases hverify : engine.SignatureValid platform message
  swap
  · rw [← hsignature, Bool.not_eq_true] at hverify
    exact .inl ⟨by rw [← hsignature, hverify]; exact Bool.false_ne_true, by rw [if_pos hverify]⟩
  rw [if_neg (by simp [hsignature.2 hverify])]
  refine .inr ?_
  by_cases hmem : message.id ∈ engine.seenMessages
  · exact .inl ⟨hmem, by rw [if_pos hmem]⟩
  · exact .inr ⟨⟨by simpa using hpow, hlimit, hverify, hmem⟩, by rw [if_neg hmem]⟩

/-- A message is fresh exactly when it passes every check. -/
theorem screen_fresh_iff : (engine.screen platform now message fromPeerId).1 = .fresh ↔
    engine.Accepts platform now message fromPeerId := by
  rcases engine.screen_cases platform now message fromPeerId with
    ⟨hpow, heq⟩ | ⟨hlimit, heq⟩ | ⟨hverify, heq⟩ | ⟨hmem, heq⟩ | ⟨haccepts, heq⟩ <;> rw [heq]
  · exact ⟨nofun, fun h ↦ absurd h.pow (by simp [hpow])⟩
  · exact ⟨nofun, fun h ↦ absurd h.allowed hlimit⟩
  · exact ⟨nofun, fun h ↦ absurd h.signature hverify⟩
  · exact ⟨nofun, fun h ↦ absurd hmem h.unseen⟩
  · exact ⟨fun _ ↦ haccepts, fun _ ↦ rfl⟩

/-- Of an accepted message the id is recorded. -/
theorem screen_of_accepts (haccepts : engine.Accepts platform now message fromPeerId) :
    engine.screen platform now message fromPeerId = (.fresh,
      { engine.clocked platform now message fromPeerId with
        seenMessages := insert message.id engine.seenMessages }) := by
  rcases engine.screen_cases platform now message fromPeerId with
    ⟨hpow, _⟩ | ⟨hlimit, _⟩ | ⟨hverify, _⟩ | ⟨hmem, _⟩ | ⟨_, heq⟩
  · exact absurd haccepts.pow (by simp [hpow])
  · exact absurd haccepts.allowed hlimit
  · exact absurd haccepts.signature hverify
  · exact absurd hmem haccepts.unseen
  · exact heq

end Admit

/-! ## Effects -/

/-- What an admitted message makes the engine do: at most one broadcast of the relayed copy, then
at most one announcement. Both copies are the message with one hop less to live, except that an
advertisement that is not relayed keeps its time to live. -/
structure EffectShape (message : P2PMessage) (effects : List EngineEffect) : Prop where
  broadcast_unique : (broadcasts effects).length ≤ 1
  announce_unique : (announcements effects).length ≤ 1
  broadcast : ∀ sent ∈ broadcasts effects,
    sent = { message with ttl := message.ttl - 1, routingPath := sent.routingPath } ∧
      1 ≤ sent.ttl
  announce : ∀ announced ∈ announcements effects,
    announced = { message with ttl := announced.ttl, routingPath := announced.routingPath } ∧
      (message.type ≠ .subAd → announced.ttl = message.ttl - 1)

theorem effectShape_nil (message : P2PMessage) : EffectShape message [] where
  broadcast_unique := Nat.zero_le _
  announce_unique := Nat.zero_le _
  broadcast _ h := nomatch h
  announce _ h := nomatch h

theorem effectShape_announce {message announced : P2PMessage}
    (h : announced = { message with ttl := announced.ttl, routingPath := announced.routingPath })
    (httl : message.type ≠ .subAd → announced.ttl = message.ttl - 1) :
    EffectShape message [.messageNew announced] where
  broadcast_unique := Nat.zero_le _
  announce_unique := le_rfl
  broadcast _ hmem := nomatch hmem
  announce other hmem := by
    obtain rfl : other = announced := List.mem_singleton.1 hmem
    exact ⟨h, httl⟩

theorem effectShape_relay {message sent : P2PMessage} (excluded : List String)
    (h : sent = { message with ttl := message.ttl - 1, routingPath := sent.routingPath })
    (httl : 1 ≤ sent.ttl) :
    EffectShape message [.broadcast sent excluded, .messageNew sent] where
  broadcast_unique := le_rfl
  announce_unique := le_rfl
  broadcast other hmem := by
    obtain rfl : other = sent := List.mem_singleton.1 hmem
    exact ⟨h, httl⟩
  announce other hmem := by
    obtain rfl : other = sent := List.mem_singleton.1 hmem
    have hsent : other.ttl = message.ttl - 1 := by rw [h]
    exact ⟨by rw [hsent]; exact h, fun _ ↦ hsent⟩

section Process

variable (pool : ConnectionPool) (now : ℕ) (draws : ℕ → ℕ) (engine : GossipEngine)
  (message : P2PMessage) (fromPeerId : Option String)

theorem forwardMessage_cases :
    (engine.forwardMessage pool now draws message fromPeerId = (engine, [])) ∨
    ∃ excluded, engine.forwardMessage pool now draws message fromPeerId =
      (engine.increment "messages_forwarded_total", [.broadcast message excluded]) := by
  unfold forwardMessage
  dsimp only
  split
  · exact .inl rfl
  · exact .inr ⟨_, rfl⟩

/-- Forwarding touches the metrics of the engine and nothing else. -/
theorem processGossip_spec :
    (∃ collector, (engine.processGossip pool now draws message fromPeerId).1 =
      { engine with collector }) ∧
    EffectShape message (engine.processGossip pool now draws message fromPeerId).2 ∧
    announcements (engine.processGossip pool now draws message fromPeerId).2 =
      [{ message with ttl := message.ttl - 1 }] := by
  unfold processGossip
  dsimp only
  split
  · rename_i hlive
    rcases engine.forwardMessage_cases pool now draws { message with ttl := message.ttl - 1 }
      fromPeerId with heq | ⟨excluded, heq⟩ <;> rw [heq]
    · exact ⟨⟨_, rfl⟩, effectShape_announce rfl fun _ ↦ rfl, rfl⟩
    · exact ⟨⟨_, rfl⟩, effectShape_relay excluded rfl hlive, rfl⟩
  · exact ⟨⟨_, rfl⟩, effectShape_announce rfl fun _ ↦ rfl, rfl⟩

/-- A relayed advertisement carries the extended path and one hop less, whether or not there was
a neighbour left to send it to. -/
theorem relayAdvert_cases (path : List String) :
    ∃ sent : P2PMessage,
      sent = { message with
        ttl := message.ttl - 1, routingPath := some (path ++ [engine.localPeerId]) } ∧
      ((engine.relayAdvert pool message path fromPeerId = (sent, engine, [])) ∨
        ∃ excluded, engine.relayAdvert pool message path fromPeerId =
          (sent, engine.increment "messages_forwarded_total", [.broadcast sent excluded])) := by
  refine ⟨_, rfl, ?_⟩
  unfold relayAdvert
  dsimp only
  split
  · exact .inr ⟨_, rfl⟩
  · exact .inl rfl

theorem topicRouter_relayAdvert (path : List String) :
    (engine.relayAdvert pool message path fromPeerId).2.1.topicRouter = engine.topicRouter := by
  obtain ⟨sent, _, heq | ⟨excluded, heq⟩⟩ :=
    relayAdvert_cases pool engine message fromPeerId path <;> rw [heq]
  rfl

/-- An advertisement that has not been through the node goes to the routing table. -/
theorem topicRouter_processSubAd {topic : String} {sequenceNumber : ℕ}
    {action : SubscriptionAction}
    (hpayload : message.payload = .subAd topic sequenceNumber action)
    (hloop : engine.localPeerId ∉ message.routingPath.getD []) :
    (engine.processSubAd pool now message fromPeerId).1.topicRouter =
      (routeAdvert now engine.topicRouter engine.localPeerId message topic sequenceNumber action
        (message.routingPath.getD []) fromPeerId).2 := by
  simp only [processSubAd, hpayload, hloop, if_false]
  split
  · exact topicRouter_relayAdvert pool _ message fromPeerId _
  · rfl

/-- The advertisement parses, and it has not passed through this node before. -/
def Announceable (localPeerId : String) (message : P2PMessage) : Prop :=
  (∃ topic sequenceNumber action, message.payload = .subAd topic sequenceNumber action) ∧
    localPeerId ∉ message.routingPath.getD []

/-- An advertisement touches the routes and the metrics, and is announced unless it is dropped. -/
theorem processSubAd_spec (htype : message.type = .subAd) :
    (∃ topicRouter collector, (engine.processSubAd pool now message fromPeerId).1 =
      { engine with topicRouter, collector }) ∧
    EffectShape message (engine.processSubAd pool now message fromPeerId).2 ∧
    (announcements (engine.processSubAd pool now message fromPeerId).2 ≠ [] ↔
      Announceable engine.localPeerId message) := by
  unfold processSubAd Announceable
  split
  · rename_i content hpayload
    exact ⟨⟨_, _, rfl⟩, effectShape_nil message, by simp [announcements, hpayload]⟩
  · rename_i topic sequenceNumber action hpayload
    dsimp only
    split
    · rename_i hloop
      exact ⟨⟨_, _, rfl⟩, effectShape_nil message, by simp [announcements, hloop]⟩
    · rename_i hloop
      have hannounceable : (∃ topic sequenceNumber action,
          message.payload = .subAd topic sequenceNumber action) ∧
          engine.localPeerId ∉ message.routingPath.getD [] := ⟨⟨_, _, _, hpayload⟩, hloop⟩
      split
      · rename_i hrelay
        obtain ⟨sent, hsent, hcases⟩ := relayAdvert_cases pool
          { engine with topicRouter := (routeAdvert now engine.topicRouter engine.localPeerId
            message topic sequenceNumber action (message.routingPath.getD []) fromPeerId).2 }
          message fromPeerId (message.routingPath.getD [])
        have hlive : 1 ≤ sent.ttl := by
          rw [hsent]
          dsimp only
          omega
        have hshape : sent = { message with
            ttl := message.ttl - 1, routingPath := sent.routingPath } := by rw [hsent]
        have httl : sent.ttl = message.ttl - 1 := by rw [hsent]
        rcases hcases with heq | ⟨excluded, heq⟩ <;> rw [heq]
        · refine ⟨⟨_, _, rfl⟩, effectShape_announce ?_ fun h ↦ absurd htype h, ?_⟩
          · rw [httl]
            exact hshape
          · exact ⟨fun _ ↦ hannounceable, fun _ ↦ List.cons_ne_nil _ _⟩
        · exact ⟨⟨_, _, rfl⟩, effectShape_relay excluded hshape hlive,
            fun _ ↦ hannounceable, fun _ ↦ List.cons_ne_nil _ _⟩
      · exact ⟨⟨_, _, rfl⟩, effectShape_announce rfl fun h ↦ absurd htype h,
          fun _ ↦ hannounceable, fun _ ↦ List.cons_ne_nil _ _⟩

/-- One call of `receiveMessage`: either the message is dropped, with no effect and the seen set
and the routes unchanged, or it is accepted, its id is now seen, and the effects have their
shape. -/
theorem receiveMessage_cases (platform : Platform) :
    (¬engine.Accepts platform now message fromPeerId ∧
      (engine.receiveMessage platform pool now draws message fromPeerId).2 = [] ∧
      SameCore engine (engine.receiveMessage platform pool now draws message fromPeerId).1) ∨
    (engine.Accepts platform now message fromPeerId ∧
      (∃ topicRouter collector,
        (engine.receiveMessage platform pool now draws message fromPeerId).1 =
          { engine.clocked platform now message fromPeerId with
            seenMessages := insert message.id engine.seenMessages, topicRouter, collector }) ∧
      EffectShape message
        (engine.receiveMessage platform pool now draws message fromPeerId).2 ∧
      (announcements (engine.receiveMessage platform pool now draws message fromPeerId).2 ≠ [] ↔
        (message.type = .subAd → Announceable engine.localPeerId message))) := by
  have hfresh := engine.screen_fresh_iff platform now message fromPeerId
  unfold receiveMessage
  rcases engine.screen_cases platform now message fromPeerId with
    ⟨_, heq⟩ | ⟨_, heq⟩ | ⟨_, heq⟩ | ⟨_, heq⟩ | ⟨haccepts, heq⟩ <;> rw [heq] at hfresh ⊢
  · exact .inl ⟨(fun h ↦ nomatch hfresh.2 h), rfl, ⟨rfl, rfl, rfl⟩⟩
  · exact .inl ⟨(fun h ↦ nomatch hfresh.2 h), rfl,
      (engine.limited_sameCore now fromPeerId).trans (increment_sameCore _ _)⟩
  · exact .inl ⟨(fun h ↦ nomatch hfresh.2 h), rfl,
      (engine.verified_sameCore platform now message fromPeerId).trans (increment_sameCore _ _)⟩
  · exact .inl ⟨(fun h ↦ nomatch hfresh.2 h), rfl,
      (engine.clocked_sameCore platform now message fromPeerId).trans (increment_sameCore _ _)⟩
  · refine .inr ⟨haccepts, ?_⟩
    have hlocal := (engine.clocked_sameCore platform now message fromPeerId).localPeerId
    dsimp only
    split
    · rename_i htype
      obtain ⟨⟨router, collector, hframe⟩, hshape, hannounced⟩ := processSubAd_spec pool now
        { engine.clocked platform now message fromPeerId with
          seenMessages := insert message.id engine.seenMessages } message fromPeerId htype
      rw [hlocal] at hannounced
      exact ⟨⟨router, collector, hframe⟩, hshape, by rw [hannounced]; simp [htype]⟩
    · rename_i htype
      obtain ⟨⟨collector, hframe⟩, hshape, hannounced⟩ := processGossip_spec pool now draws
        { engine.clocked platform now message fromPeerId with
          seenMessages := insert message.id engine.seenMessages } message fromPeerId
      exact ⟨⟨_, collector, hframe⟩, hshape, by rw [hannounced]; simp [htype]⟩

/-- No step forgets an id, and only the id of the message can be new. -/
theorem mem_seenMessages_receiveMessage (platform : Platform) (id : String) :
    id ∈ (engine.receiveMessage platform pool now draws message fromPeerId).1.seenMessages ↔
      id ∈ engine.seenMessages ∨
        (id = message.id ∧ engine.Accepts platform now message fromPeerId) := by
  rcases engine.receiveMessage_cases pool now draws message fromPeerId platform with
    ⟨hdropped, _, hcore⟩ | ⟨haccepts, ⟨router, collector, hframe⟩, _, _⟩
  · rw [hcore.seenMessages]
    exact ⟨.inl, fun h ↦ h.resolve_right fun hnew ↦ hdropped hnew.2⟩
  · rw [hframe]
    simp only [Finset.mem_insert, haccepts, and_true]
    exact or_comm

theorem localPeerId_receiveMessage (platform : Platform) :
    (engine.receiveMessage platform pool now draws message fromPeerId).1.localPeerId =
      engine.localPeerId := by
  rcases engine.receiveMessage_cases pool now draws message fromPeerId platform with
    ⟨_, _, hcore⟩ | ⟨_, ⟨router, collector, hframe⟩, _, _⟩
  · exact hcore.localPeerId
  · rw [hframe]
    exact (engine.clocked_sameCore platform now message fromPeerId).localPeerId

/-- What is broadcast is the message with one hop less to live, which is at least one. -/
theorem of_mem_broadcasts (platform : Platform) {sent : P2PMessage}
    (h : sent ∈ broadcasts (engine.receiveMessage platform pool now draws message fromPeerId).2) :
    sent = { message with ttl := message.ttl - 1, routingPath := sent.routingPath } ∧
      1 ≤ sent.ttl := by
  rcases engine.receiveMessage_cases pool now draws message fromPeerId platform with
    ⟨_, heffects, _⟩ | ⟨_, _, hshape, _⟩
  · rw [heffects] at h
    cases h
  · exact hshape.broadcast sent h

/-- What is announced is the message, with one hop less to live if it is no advertisement. -/
theorem of_mem_announcements (platform : Platform) {announced : P2PMessage}
    (h : announced ∈
      announcements (engine.receiveMessage platform pool now draws message fromPeerId).2) :
    announced =
        { message with ttl := announced.ttl, routingPath := announced.routingPath } ∧
      (message.type ≠ .subAd → announced.ttl = message.ttl - 1) := by
  rcases engine.receiveMessage_cases pool now draws message fromPeerId platform with
    ⟨_, heffects, _⟩ | ⟨_, _, hshape, _⟩
  · rw [heffects] at h
    cases h
  · exact hshape.announce announced h

theorem id_of_mem_announcements (platform : Platform) {announced : P2PMessage}
    (h : announced ∈
      announcements (engine.receiveMessage platform pool now draws message fromPeerId).2) :
    announced.id = message.id := by
  rw [(of_mem_announcements pool now draws engine message fromPeerId platform h).1]

theorem id_of_mem_broadcasts (platform : Platform) {sent : P2PMessage}
    (h : sent ∈ broadcasts (engine.receiveMessage platform pool now draws message fromPeerId).2) :
    sent.id = message.id := by
  rw [(of_mem_broadcasts pool now draws engine message fromPeerId platform h).1]

/-- One call broadcasts at most once and announces at most once. -/
theorem length_effects (platform : Platform) :
    (broadcasts (engine.receiveMessage platform pool now draws message fromPeerId).2).length ≤ 1 ∧
      (announcements
        (engine.receiveMessage platform pool now draws message fromPeerId).2).length ≤ 1 := by
  rcases engine.receiveMessage_cases pool now draws message fromPeerId platform with
    ⟨_, heffects, _⟩ | ⟨_, _, hshape, _⟩
  · rw [heffects]
    exact ⟨Nat.zero_le _, Nat.zero_le _⟩
  · exact ⟨hshape.broadcast_unique, hshape.announce_unique⟩

/-- A call that broadcasts or announces anything has accepted its message. -/
theorem accepts_of_effects_ne_nil (platform : Platform)
    (h : (engine.receiveMessage platform pool now draws message fromPeerId).2 ≠ []) :
    engine.Accepts platform now message fromPeerId := by
  rcases engine.receiveMessage_cases pool now draws message fromPeerId platform with
    ⟨_, heffects, _⟩ | ⟨haccepts, _⟩
  · exact absurd heffects h
  · exact haccepts

/-- An accepted advertisement that is new on this node goes to the routing table. -/
theorem topicRouter_receiveMessage (platform : Platform)
    (haccepts : engine.Accepts platform now message fromPeerId) (htype : message.type = .subAd)
    {topic : String} {sequenceNumber : ℕ} {action : SubscriptionAction}
    (hpayload : message.payload = .subAd topic sequenceNumber action)
    (hloop : engine.localPeerId ∉ message.routingPath.getD []) :
    (engine.receiveMessage platform pool now draws message fromPeerId).1.topicRouter =
      (routeAdvert now engine.topicRouter engine.localPeerId message topic sequenceNumber action
        (message.routingPath.getD []) fromPeerId).2 := by
  have hcore := engine.clocked_sameCore platform now message fromPeerId
  rw [receiveMessage, engine.screen_of_accepts platform now message fromPeerId haccepts]
  dsimp only
  rw [if_pos htype, ← hcore.topicRouter, ← hcore.localPeerId]
  exact topicRouter_processSubAd pool now _ message fromPeerId hpayload
    (hcore.localPeerId.symm ▸ hloop)

/-- The checks advance the limiter of the sending neighbour by one call. -/
theorem clocked_rateLimiter (platform : Platform) (peerId : String) :
    (engine.clocked platform now message (some peerId)).rateLimiter =
      (engine.rateLimiter.checkLimit now peerId).2 := by
  unfold clocked updateClock verified verifySignature
  split <;> split <;> rfl

/-- The checks advance the security manager by one verification. -/
theorem clocked_securityManager (platform : Platform) :
    (engine.clocked platform now message fromPeerId).securityManager =
      engine.securityManager.map fun manager ↦
        (manager.verifyIncomingMessage platform (engine.limited now fromPeerId).collector
          message).2.1 := by
  have hlimited := engine.limited_securityManager now fromPeerId
  unfold clocked updateClock verified verifySignature
  cases hmanager : engine.securityManager with
  | none =>
    rw [hmanager] at hlimited
    rw [hlimited]
    split <;> exact hlimited
  | some manager =>
    rw [hmanager] at hlimited
    rw [hlimited]
    split <;> rfl

end Process

end GossipEngine

end P2PApp
