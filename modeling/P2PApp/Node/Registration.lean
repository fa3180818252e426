import P2PApp.Node.Effects
import P2PApp.Protocol.DirectRoutes

/-!
# What a handshake registers

Whoever greets the node announces topics, and the node enters its neighbour as the next hop for
each of them. The entry has the sequence number zero, whereas advertisements count from one. As long
as an advertisement of the neighbour that came over another one is in the table, the handshake
changes nothing, and what is published on the topic keeps taking the detour.
-/

namespace P2PApp.Node.P2PNode

open JavaScript

/-- What a `HELLO` announces, and when. -/
structure Greeting where
  peerId : Key
  topics : List Key
  now : ℕ
  deriving DecidableEq

def Greeting.ofHello (now : ℕ) (message : Value) : Greeting where
  peerId := (message.property "peerId").key
  topics :=
    match message.property "subscriptions" with
    | .array _ topics => topics.map Value.key
    | _ => []
  now

/-- The `HELLO` that an event brings: the first message on a socket that has an id, or one that the
pool relays. -/
def greeting (node : P2PNode) : Event → Option Greeting
  | .frame clock (.server socketId) (some message) =>
    if frameType message = .hello then
      match node.sockets[socketId]? with
      | some .greeting =>
        if (message.property "peerId").truthy then some (.ofHello (clock 0) message) else none
      | some (.handshaked _) => some (.ofHello (clock 0) message)
      | some .closed | none => none
    else none
  | .frame clock (.client clientId) (some message) =>
    if frameType message = .hello ∧ clientId < node.dialled.length then
      some (.ofHello (clock 0) message)
    else none
  | _ => none

/-- If the event is a handshake, the peer is a next hop of every topic that it announces. -/
def TakesEffect (runtime : Runtime) (node : P2PNode) (event : Event) : Prop :=
  ∀ after ∈ next runtime node event, ∀ greeting ∈ node.greeting event, ∀ topic ∈ greeting.topics,
    greeting.peerId ∈ after.gossipEngine.topicRouter.getPeersForTopic topic greeting.now

/-- A route that the handshake does not replace and does not renew. -/
def Blocked (runtime : Runtime) (node : P2PNode) (topic peerId : Key) : Prop :=
  let _ := runtime.sequenceNumber
  TopicRouter.Blocked node.gossipEngine.topicRouter topic peerId (.number (.finite 0))

/-- If the event is a handshake, the peer is a next hop before it, or nothing is in its way. -/
def Unblocked (runtime : Runtime) (node : P2PNode) (event : Event) : Prop :=
  ∀ greeting ∈ node.greeting event, ∀ topic ∈ greeting.topics,
    greeting.peerId ∈ node.gossipEngine.topicRouter.getPeersForTopic topic greeting.now ∨
      ¬Blocked runtime node topic greeting.peerId

variable {runtime : Runtime} {node after : P2PNode} {message : Value}

/-- The routing table after a handshake. -/
def registered (runtime : Runtime) (router : Router) (greeting : Greeting) : Router :=
  let _ := runtime.sequenceNumber
  router.register greeting.peerId (.number (.finite 0)) []
    (WithTop.some (greeting.now + Config.ROUTE_LEASE_MS)) greeting.topics

theorem registerTopics_eq {now : ℕ} {peerId : Key} {topics : List Value} {router router' : Router}
    (h : topics.foldlM (registerSubscription runtime now peerId) router = some router') :
    router' = registered runtime router ⟨peerId, topics.map Value.key, now⟩ := by
  induction topics generalizing router with
  | nil =>
    cases h
    rfl
  | cons topic topics ih =>
    rw [List.foldlM_cons] at h
    obtain ⟨middle, hfirst, hrest⟩ := Option.bind_eq_some_iff.1 h
    obtain ⟨result, hupdate, rfl⟩ := Option.map_eq_some_iff.1 hfirst
    rw [ih hrest, GossipEngine.eq_of_updateRoute hupdate]
    rfl

theorem registerSubscriptions_spec {now : ℕ}
    (h : node.registerSubscriptions runtime now (message.property "peerId").key
      (message.property "subscriptions") = some after) :
    after.gossipEngine.topicRouter =
      registered runtime node.gossipEngine.topicRouter (.ofHello now message) := by
  generalize hsubscriptions : message.property "subscriptions" = subscriptions at h
  rw [Greeting.ofHello, hsubscriptions]
  cases subscriptions with
  | array identity topics =>
    obtain ⟨topicRouter, hloop, rfl⟩ := Option.map_eq_some_iff.1 h
    exact registerTopics_eq hloop
  | _ =>
    cases h
    rfl

/-- Both ways to greet end alike: the topics are registered, and the peer is synchronised with. -/
theorem topicRouter_of_registered {now : ℕ}
    (h : (node.registerSubscriptions runtime now (message.property "peerId").key
      (message.property "subscriptions")).bind
        (fun node ↦ node.onPeerReconnected (message.property "peerId")) = some after) :
    after.gossipEngine.topicRouter =
      registered runtime node.gossipEngine.topicRouter (.ofHello now message) := by
  obtain ⟨subscribed, hsubscribed, hresult⟩ := Option.bind_eq_some_iff.1 h
  obtain rfl := onPeerReconnected_eq hresult
  have hrouter := registerSubscriptions_spec hsubscribed
  exact hrouter

theorem topicRouter_of_relay {clock : ℕ → ℕ} {fromPeerId : Key}
    (hhello : frameType message = .hello)
    (h : node.relay runtime clock message fromPeerId = some after) :
    after.gossipEngine.topicRouter =
      registered runtime node.gossipEngine.topicRouter (.ofHello (clock 0) message) := by
  have hrouter := topicRouter_of_registered (receiveHello_of_relay hhello h)
  obtain ⟨peers, heq⟩ := updateHeartbeat_eq (clock 0)
    (node.registerPeerKey (message.property "peerId").key (message.property "publicKey"))
    (message.property "peerId").key
  rw [hrouter, heq]
  rfl

/-- The step lemma: a handshake registers what it announces. -/
theorem topicRouter_of_greeting {event : Event} {greeting : Greeting}
    (hgreeting : node.greeting event = some greeting)
    (h : next runtime node event = some after) :
    after.gossipEngine.topicRouter =
      registered runtime node.gossipEngine.topicRouter greeting := by
  unfold P2PNode.greeting at hgreeting
  split at hgreeting
  · rename_i clock socketId message
    split at hgreeting
    · rename_i hhello
      rw [next, receiveFrame, serverMessage] at h
      split at hgreeting
      · rename_i hsocket
        split at hgreeting
        · rename_i hpeerId
          cases hgreeting
          rw [hsocket] at h
          simp only [hhello, hpeerId, and_self, if_true] at h
          split at h
          · cases h
          · rw [handshake] at h
            have hrouter := topicRouter_of_registered h
            exact hrouter
        · cases hgreeting
      · rename_i hsocket
        cases hgreeting
        rw [hsocket] at h
        exact topicRouter_of_relay hhello h
      · cases hgreeting
      · cases hgreeting
    · cases hgreeting
  · rename_i clock clientId message
    split at hgreeting
    · rename_i hclient
      cases hgreeting
      rw [next, receiveFrame, clientMessage, List.getElem?_eq_getElem hclient.2] at h
      exact topicRouter_of_relay hclient.1 h
    · cases hgreeting
  · cases hgreeting

/-- A handshake takes effect exactly if nothing blocks it. -/
theorem takesEffect_iff {event : Event} (h : next runtime node event = some after) :
    TakesEffect runtime node event ↔ Unblocked runtime node event := by
  unfold TakesEffect Unblocked
  rw [h]
  simp only [Option.mem_def, Option.some.injEq, forall_eq']
  refine forall₂_congr fun greeting hgreeting ↦ forall₂_congr fun topic htopic ↦ ?_
  rw [topicRouter_of_greeting hgreeting h, registered]
  let _ := runtime.sequenceNumber
  have hirrefl : SequenceNumber.lt (Value.number (.finite 0)) (.number (.finite 0)) = false :=
    decide_eq_false (lt_irrefl (0 : ℚ))
  rw [TopicRouter.mem_getPeersForTopic_register hirrefl
    (WithTop.coe_le_coe.2 (Nat.le_add_right _ _))]
  exact or_congr_right (and_iff_right htopic)

/-- In a run all handshakes take effect exactly if none of them is blocked. -/
theorem takeEffect_iff_unblocked {config : NodeConfig} {events : List Event} {last : P2PNode} :
    (system runtime).GuardedRun (TakesEffect runtime) (start config) events last ↔
      (system runtime).GuardedRun (Unblocked runtime) (start config) events last :=
  TransitionSystem.GuardedRun.congr fun _ _ _ hstep ↦ takesEffect_iff hstep

/-! ## A neighbour that was known before -/

def advertText : String :=
  "\x7b\"topic\":\"global\",\"sequenceNumber\":1,\"action\":\"JOIN\"\x7d"

def advertPayload (identity : ℕ) : Value :=
  .object identity
    [("topic", .string "global"), ("sequenceNumber", .number (.finite 1)),
      ("action", .string "JOIN")]

def parsesAdvert : Runtime :=
  { Runtime.sample with
    parseJson := fun parses text ↦ if text = advertText then some (advertPayload parses) else none }

/-- The first advertisement of `bob`, as `carol` passes it on. -/
def advertOfBob : Value :=
  .object 10
    [("id", .string "advert"), ("type", .string "SUB_AD"), ("ttl", .number (.finite 9)),
      ("lamportTimestamp", .number (.finite 1)), ("sender", .string "bob"),
      ("senderPublicKey", .string "bob-key"), ("topic", .string "global"),
      ("payload", .string advertText), ("powNonce", .number (.finite 450)),
      ("routingPath", .array 11 [.string "bob", .string "carol"]),
      ("signature", .string "bob-key/advert/bob")]

/-- `carol` connects and advertises `bob`, who then connects as well. -/
def introduction : List Event :=
  [.socketOpened, .frame (fun _ ↦ 1) (.server 0) (some (helloFrame 0 "carol" "carol-key")),
    .frame (fun _ ↦ 2) (.server 0) (some advertOfBob), .socketOpened]

def introduced : P2PNode :=
  (introduction.foldlM (next parsesAdvert) (start exampleConfig)).get (by decide +kernel)

def helloOfBob : Event :=
  .frame (fun _ ↦ 3) (.server 1) (some (helloFrame 2 "bob" "bob-key"))

def metBob : P2PNode := (next parsesAdvert introduced helloOfBob).get (by decide +kernel)

/-- What is published on the topic goes to `carol` only. -/
theorem not_takesEffect_introduced :
    ¬∀ runtime config events last, (system runtime).Run (start config) events last →
      (system runtime).GuardedRun (TakesEffect runtime) (start config) events last := by
  intro h
  have hintroduced : introduction.foldlM (next parsesAdvert) (start exampleConfig) =
      some introduced := (Option.some_get _).symm
  have hmet : next parsesAdvert introduced helloOfBob = some metBob := (Option.some_get _).symm
  obtain ⟨node, hbefore, heffect, _⟩ := (h parsesAdvert exampleConfig _ metBob
    (.snoc (TransitionSystem.run_ofPartial hintroduced) hmet)).exists_last
  obtain rfl : introduced = node :=
    Option.some.inj (hintroduced.symm.trans (TransitionSystem.foldlM_of_run hbefore.run))
  have hgreeting : introduced.greeting helloOfBob =
      some ⟨.string "bob", [.string "global"], 3⟩ := by decide +kernel
  unfold TakesEffect at heffect
  rw [hmet, hgreeting] at heffect
  simp only [Option.mem_def, Option.some.injEq, forall_eq', List.mem_singleton, forall_eq]
    at heffect
  revert heffect
  decide +kernel

end P2PApp.Node.P2PNode
