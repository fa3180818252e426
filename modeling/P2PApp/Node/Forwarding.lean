import P2PApp.Library.Wire
import P2PApp.Node.Effects
import P2PApp.Transport.ConnectionPool

/-!
# What a node passes on

The outgoing half of `receiveMessage` on unchecked values: the object with its `ttl` and its path
changed, as it is announced to the node and handed to the connections. The state is that of the
engine in any case.
-/

namespace P2PApp.Node

open JavaScript

/-- A choice of `GOSSIP_FANOUT` of the available peers, or of all if there are fewer. -/
structure Draw where
  select : List Key → List Key
  subset : ∀ availablePeers, select availablePeers ⊆ availablePeers
  length : ∀ availablePeers,
    (select availablePeers).length = min Config.GOSSIP_FANOUT availablePeers.length

def Draw.first : Draw where
  select := List.take Config.GOSSIP_FANOUT
  subset := List.take_subset _
  length _ := List.length_take

/-- A call `connectionPool.broadcast(message, excludePeerIds)`. -/
structure Broadcast where
  message : Value
  excludePeerIds : List Key

/-- The engine after a call, the message that is announced, and what is broadcast. -/
structure Outcome where
  engine : GossipEngine
  announced : Option Value
  broadcast : Option Broadcast

namespace GossipEngine

variable (runtime : Runtime) (pool : ConnectionPool Key) (now : ℕ) (draw : Draw)
  (engine : GossipEngine) (message : Value) (fromPeerId : Key)

def ttlOf : Number := (message.property "ttl").asNumber runtime.toConversions

/-- The object after `message.ttl -= 1`. -/
def decrement : Value := message.setProperty "ttl" (.number ((ttlOf runtime message).add (-1)))

/-- What `[...path]` consists of. -/
def spread (routingPath : Value) : List Value :=
  if routingPath.truthy = false then []
  else
    match routingPath with
    | .array _ items => items
    | .string text => text.toList.map fun character ↦ .string (String.singleton character)
    | _ => []

/-- Hand the message to the selected peers, if there are any. -/
def broadcastTo (selected : List Key) : Option Broadcast :=
  if 0 < selected.length then
    some ⟨message, pool.getAllPeerIds.filter fun peerId ↦ peerId ∉ selected⟩
  else none

/-- Flood an advertisement to the neighbours that are not on its path. -/
def relayAdvert : Value × Option Broadcast :=
  let nextPath := spread (message.property "routingPath") ++ [.string engine.localPeerId]
  let message := (decrement runtime message).setProperty "routingPath" (.array 0 nextPath)
  let excludeSet := nextPath.map Value.key ++ (if fromPeerId.truthy then [fromPeerId] else []) ++
    [(message.property "sender").key]
  (message, broadcastTo pool message
    (pool.getAllPeerIds.filter fun peerId ↦ peerId ∉ excludeSet))

/-- What an admitted advertisement does to the routing table, and whether that is worth relaying. -/
def updateRoutes (payload : Value) (path : Path) : Option (Bool × Router) :=
  let topic := (payload.property "topic").key
  let sender := (message.property "sender").key
  let action := (payload.property "action").key
  let nextHop := if fromPeerId.truthy then fromPeerId else .string engine.localPeerId
  if action = .string "JOIN" then
    updateRoute runtime engine.topicRouter topic sender nextHop path.length
      (payload.property "sequenceNumber") path.elements (now + Config.ROUTE_LEASE_MS)
  else if action = .string "LEAVE" then some (engine.topicRouter.removeRoute topic sender)
  else some (false, engine.topicRouter)

/-- An admitted `SUB_AD`. -/
def passAdvert : Option Outcome :=
  match engine.parse runtime (message.property "payload") with
  | none => some ⟨engine.countParse, none, none⟩
  | some payload =>
    if payload.nullish then none
    else
      match pathOf engine.localPeerId (message.property "routingPath") with
      | none => none
      | some path =>
        if path.includesLocal then some ⟨engine.countParse, none, none⟩
        else
          (updateRoutes runtime now engine.countParse message fromPeerId payload path).bind
            fun (changed, topicRouter) ↦
              if changed = true ∧ (message.property "ttl").unprintable = true then none
              else if changed = true ∧ (Number.finite 1).less (ttlOf runtime message) = true then
                let (message, broadcast) := relayAdvert runtime pool engine message fromPeerId
                some ⟨{ engine.countParse with topicRouter }, some message, broadcast⟩
              else some ⟨{ engine.countParse with topicRouter }, some message, none⟩

/-- The peers among which `forwardMessage` draws. -/
def eligiblePeers : List Key :=
  let topic := message.property "topic"
  let availablePeers :=
    if topic.truthy = true ∧ topic.key ≠ .string "global" then
      pool.getAllPeerIds.filter fun peerId ↦
        peerId ∈ engine.topicRouter.getPeersForTopic topic.key now
    else pool.getAllPeerIds
  availablePeers.filter fun peerId ↦
    peerId ∉ (message.property "sender").key :: if fromPeerId.truthy then [fromPeerId] else []

/-- An admitted message of any other type. -/
def passGossip : Option Outcome :=
  if (message.property "ttl").unprintable then none
  else
    let ttl := (ttlOf runtime message).add (-1)
    let message := decrement runtime message
    some ⟨engine, some message,
      if (Number.finite 0).less ttl then
        broadcastTo pool message (draw.select (eligiblePeers pool now engine message fromPeerId))
      else none⟩

/-- `receiveMessage` with all that it hands out. -/
def pass : Option Outcome :=
  match engine.screen runtime now message fromPeerId with
  | none => none
  | some (false, engine) => some ⟨engine, none, none⟩
  | some (true, engine) =>
    if (message.property "type").key = .string "SUB_AD" then
      passAdvert runtime pool now engine message fromPeerId
    else passGossip runtime pool now draw engine message fromPeerId

/-! ## The same state -/

theorem routeAdvert_eq (payload : Value) (path : Path) :
    engine.routeAdvert runtime now message payload path fromPeerId =
      (updateRoutes runtime now engine message fromPeerId payload path).bind
        fun (changed, topicRouter) ↦
          if changed = true ∧ (message.property "ttl").unprintable = true then none
          else some { engine with topicRouter } := rfl

theorem passAdvert_eq :
    (passAdvert runtime pool now engine message fromPeerId).map
        (fun outcome ↦ (outcome.engine, outcome.announced.isSome)) =
      engine.processSubAd runtime now message fromPeerId := by
  unfold passAdvert processSubAd
  cases engine.parse runtime (message.property "payload") with
  | none => rfl
  | some payload =>
    dsimp only
    by_cases hnullish : payload.nullish = true
    · rw [if_pos hnullish, if_pos hnullish]
      rfl
    rw [if_neg hnullish, if_neg hnullish]
    cases pathOf engine.localPeerId (message.property "routingPath") with
    | none => rfl
    | some path =>
      dsimp only
      by_cases hloop : path.includesLocal = true
      · rw [if_pos hloop, if_pos hloop]
        rfl
      rw [if_neg hloop, if_neg hloop, routeAdvert_eq, Option.map_bind, Option.map_bind]
      congr 1
      funext ⟨changed, topicRouter⟩
      simp only [Function.comp]
      split
      · rfl
      · split <;> rfl

/-- What is handed out aside, a call does what `receiveMessage` does. -/
theorem pass_eq :
    (pass runtime pool now draw engine message fromPeerId).map
        (fun outcome ↦ (outcome.engine, outcome.announced.isSome)) =
      engine.receiveMessage runtime now message fromPeerId := by
  unfold pass receiveMessage
  cases engine.screen runtime now message fromPeerId with
  | none => rfl
  | some screened =>
    obtain ⟨passed, screened⟩ := screened
    cases passed with
    | false => rfl
    | true =>
      dsimp only
      by_cases htype : (message.property "type").key = .string "SUB_AD"
      · rw [if_pos htype, if_pos htype]
        exact passAdvert_eq runtime pool now screened message fromPeerId
      · rw [if_neg htype, if_neg htype]
        unfold passGossip processGossip
        split <;> rfl

/-! ## What is handed out -/

variable {runtime pool now draw engine message fromPeerId}

/-- A message as it is passed on: with one hop less to live, and the same to its readers. -/
structure PassedOn (runtime : Runtime) (message sent : Value) : Prop where
  id : sent.property "id" = message.property "id"
  sender : sent.property "sender" = message.property "sender"
  payload : sent.property "payload" = message.property "payload"
  ttl : sent.property "ttl" = .number ((ttlOf runtime message).add (-1))

theorem passedOn_decrement (runtime : Runtime) (identity : ℕ) (fields : List (String × Value)) :
    PassedOn runtime (.object identity fields) (decrement runtime (.object identity fields)) where
  id := Value.property_setProperty_of_ne _ _ (by decide)
  sender := Value.property_setProperty_of_ne _ _ (by decide)
  payload := Value.property_setProperty_of_ne _ _ (by decide)
  ttl := Value.property_setProperty_self identity fields "ttl" _

theorem PassedOn.setRoutingPath {sent : Value} (h : PassedOn runtime message sent)
    (routingPath : Value) :
    PassedOn runtime message (sent.setProperty "routingPath" routingPath) where
  id := (Value.property_setProperty_of_ne _ _ (by decide)).trans h.id
  sender := (Value.property_setProperty_of_ne _ _ (by decide)).trans h.sender
  payload := (Value.property_setProperty_of_ne _ _ (by decide)).trans h.payload
  ttl := (Value.property_setProperty_of_ne _ _ (by decide)).trans h.ttl

theorem message_of_broadcastTo {selected : List Key} {broadcast : Broadcast}
    (h : broadcastTo pool message selected = some broadcast) : broadcast.message = message := by
  unfold broadcastTo at h
  split at h <;> cases h
  rfl

/-- A message that has lived through one more hop still has a hop to live. -/
theorem less_zero_of_less_one {ttl : Number} (h : (Number.finite 1).less ttl = true) :
    (Number.finite 0).less (ttl.add (-1)) = true := by
  cases ttl with
  | nan => cases h
  | negInfinity => cases h
  | infinity => rfl
  | finite value =>
    have hvalue : 1 < value := of_decide_eq_true h
    exact decide_eq_true (by linarith : (0 : ℚ) < value + -1)

/-- The sent copy is the message passed on, and may be passed on. -/
structure Forwards (runtime : Runtime) (message : Value) (broadcast : Broadcast) : Prop where
  passedOn : PassedOn runtime message broadcast.message
  alive : (Number.finite 0).less ((ttlOf runtime message).add (-1)) = true

/-- What an admitted message leaves behind. -/
structure Hands (runtime : Runtime) (message : Value) (engine : GossipEngine) (outcome : Outcome) :
    Prop where
  seenMessages : outcome.engine.seenMessages = engine.seenMessages
  broadcast : ∀ broadcast, outcome.broadcast = some broadcast → Forwards runtime message broadcast
  announced : (message.property "type").key ≠ .string "SUB_AD" →
    ∀ announced, outcome.announced = some announced → PassedOn runtime message announced

theorem hands_passAdvert {identity : ℕ} {fields : List (String × Value)}
    (htype : ((Value.object identity fields).property "type").key = .string "SUB_AD")
    {outcome : Outcome}
    (h : passAdvert runtime pool now engine (.object identity fields) fromPeerId = some outcome) :
    Hands runtime (.object identity fields) engine outcome := by
  unfold passAdvert at h
  split at h
  · cases h
    exact ⟨rfl, (fun _ h ↦ nomatch h), fun hother ↦ absurd htype hother⟩
  · split at h
    · cases h
    · split at h
      · cases h
      · split at h
        · cases h
          exact ⟨rfl, (fun _ h ↦ nomatch h), fun hother ↦ absurd htype hother⟩
        · obtain ⟨⟨changed, topicRouter⟩, _, hresult⟩ := Option.bind_eq_some_iff.1 h
          dsimp only at hresult
          split at hresult
          · cases hresult
          · split at hresult
            · rename_i halive
              cases hresult
              refine ⟨rfl, fun broadcast hbroadcast ↦ ?_, fun hother ↦ absurd htype hother⟩
              have hmessage := message_of_broadcastTo hbroadcast
              refine ⟨?_, less_zero_of_less_one halive.2⟩
              rw [hmessage]
              exact (passedOn_decrement runtime identity fields).setRoutingPath _
            · cases hresult
              exact ⟨rfl, (fun _ h ↦ nomatch h), fun hother ↦ absurd htype hother⟩

theorem hands_passGossip {identity : ℕ} {fields : List (String × Value)} {outcome : Outcome}
    (h : passGossip runtime pool now draw engine (.object identity fields) fromPeerId =
      some outcome) : Hands runtime (.object identity fields) engine outcome := by
  unfold passGossip at h
  split at h
  · cases h
  · cases h
    refine ⟨rfl, fun broadcast hbroadcast ↦ ?_, fun _ announced hannounced ↦ ?_⟩
    · dsimp only at hbroadcast
      split at hbroadcast
      · rename_i halive
        have hmessage := message_of_broadcastTo hbroadcast
        refine ⟨?_, halive⟩
        rw [hmessage]
        exact passedOn_decrement runtime identity fields
      · cases hbroadcast
    · cases hannounced
      exact passedOn_decrement runtime identity fields

/-! ## What is admitted -/

/-- Only objects have a signature. -/
theorem eq_object_of_fst {manager : SecurityManager}
    (h : (manager.verifyIncomingMessage runtime message).1 = true) :
    ∃ identity fields, message = .object identity fields := by
  cases message with
  | object identity fields => exact ⟨identity, fields, rfl⟩
  | _ => cases h

/-- A message that passes the checks is an object with a new id, and its id is remembered. -/
structure Admitted (engine after : GossipEngine) (message : Value) : Prop where
  object : ∃ identity fields, message = .object identity fields
  unseen : (message.property "id").key ∉ engine.seenMessages
  seenMessages : after.seenMessages = insert (message.property "id").key engine.seenMessages

theorem admitted_screen {passed : Bool} {after : GossipEngine}
    (h : engine.screen runtime now message fromPeerId = some (passed, after)) :
    (passed = false ∧ after.seenMessages = engine.seenMessages) ∨
      (passed = true ∧ Admitted engine after message) := by
  cases screening_screen h with
  | dropped rateLimiter => exact .inl ⟨rfl, rfl⟩
  | unsigned rateLimiter => exact .inl ⟨rfl, rfl⟩
  | duplicate rateLimiter lamportClock => exact .inl ⟨rfl, rfl⟩
  | passed rateLimiter lamportClock hvalid hclock hunseen =>
    exact .inr ⟨rfl, eq_object_of_fst hvalid, hunseen, rfl⟩

/-- Everything that a call can do to the seen set, and hand out. -/
theorem pass_cases {outcome : Outcome}
    (h : pass runtime pool now draw engine message fromPeerId = some outcome) :
    (outcome.broadcast = none ∧ outcome.announced = none ∧
      outcome.engine.seenMessages = engine.seenMessages) ∨
    ∃ screened, Admitted engine screened message ∧ Hands runtime message screened outcome := by
  unfold pass at h
  split at h
  · cases h
  · rename_i hscreen
    cases h
    rcases admitted_screen hscreen with ⟨_, hseen⟩ | ⟨hpassed, _⟩
    · exact .inl ⟨rfl, rfl, hseen⟩
    · cases hpassed
  · rename_i screened hscreen
    rcases admitted_screen hscreen with ⟨hpassed, _⟩ | ⟨_, hadmitted⟩
    · cases hpassed
    · refine .inr ⟨screened, hadmitted, ?_⟩
      obtain ⟨identity, fields, rfl⟩ := hadmitted.object
      split at h
      · rename_i htype
        exact hands_passAdvert htype h
      · exact hands_passGossip h

end GossipEngine

end P2PApp.Node
