import P2PApp.Node.P2PNode

/-!
# When a frame ends the process

For each function between a socket and the store, the exact condition under which it completes.
What throws is reading a property of `null`, parsing a payload of the synchronisation, and every
conversion of an object whose own `toString` is no function; each condition says which of these the
function can come to, in the state at hand. They add up to a condition on frames that the runs of a
node either meet throughout or end by violating.
-/

namespace P2PApp.Node

open JavaScript

namespace GossipEngine

variable (runtime : Runtime) (now : ℕ) (engine : GossipEngine) (message : Value)
  (fromPeerId : Key)

/-- The message passes the proof of work, the rate limit and the verification of its signature. -/
def Screened : Prop :=
  checkPuzzle runtime message = some true ∧ (engine.checkLimit now fromPeerId).1 = true ∧
    (engine.securityManager.verifyIncomingMessage runtime message).1 = true

/-- What `includes` and `length` are read from: nothing, an array, or a string. -/
def PathSafe (routingPath : Value) : Prop :=
  routingPath.truthy = true →
    (∃ identity items, routingPath = .array identity items) ∨ ∃ text, routingPath = .string text

/-- The two sequence numbers can be compared, if there is a route to compare with. -/
def SequenceSafe (router : Router) (topic originPeerId : Key) (sequenceNumber : Value) : Prop :=
  ∀ existing, router.routeOf topic originPeerId = some existing →
    sequenceNumber.Printable ∧ existing.sequenceNumber.Printable

/-- The advertisement is better than the route there is, if any. -/
def Supersedes (router : Router) (topic originPeerId : Key) (sequenceNumber : Value)
    (hopCount : ℕ) : Prop :=
  ∀ existing, router.routeOf topic originPeerId = some existing →
    sequenceNumber.less runtime.toConversions existing.sequenceNumber = false ∧
      (sequenceNumber.same existing.sequenceNumber = false ∨ hopCount < existing.hopCount)

/-- The advertisement can be routed: what it is compared with, and its `ttl` if it changes the
table, have conversions. -/
def RouteSafe (payload : Value) (path : Path) : Prop :=
  let topic := (payload.property "topic").key
  let sender := (message.property "sender").key
  let sequenceNumber := payload.property "sequenceNumber"
  ((payload.property "action").key = .string "JOIN" →
    SequenceSafe engine.topicRouter topic sender sequenceNumber ∧
    (Supersedes runtime engine.topicRouter topic sender sequenceNumber path.length →
      (message.property "ttl").Printable)) ∧
  ((payload.property "action").key = .string "LEAVE" →
    (engine.topicRouter.routeOf topic sender).isSome = true → (message.property "ttl").Printable)

/-- An admitted `SUB_AD` is processed or dropped. -/
def AdvertSafe : Prop :=
  ∀ payload, engine.parse runtime (message.property "payload") = some payload →
    payload.nullish = false ∧ PathSafe (message.property "routingPath") ∧
    ∀ path, pathOf engine.localPeerId (message.property "routingPath") = some path →
      path.includesLocal = false → RouteSafe runtime engine message payload path

/-- The checks of the message complete. -/
def ScreenSafe : Prop :=
  message.nullish = false ∧ (checkPuzzle runtime message).isSome = true ∧
    (Screened runtime now engine message fromPeerId →
      (message.property "lamportTimestamp").Printable)

/-- The engine processes or drops the message. -/
def MessageSafe : Prop :=
  ScreenSafe runtime now engine message fromPeerId ∧
  (Screened runtime now engine message fromPeerId →
    (message.property "id").key ∉ engine.seenMessages →
      if (message.property "type").key = .string "SUB_AD" then AdvertSafe runtime engine message
      else (message.property "ttl").Printable)

variable {runtime now engine message fromPeerId}

/-! ## Screening -/

/-- What screening leaves alone. -/
structure SameTable (before after : GossipEngine) : Prop where
  localPeerId : after.localPeerId = before.localPeerId
  topicRouter : after.topicRouter = before.topicRouter
  parses : after.parses = before.parses
  seenMessages : after.seenMessages = before.seenMessages

theorem sameTable_checkLimit (engine : GossipEngine) (now : ℕ) (fromPeerId : Key) :
    SameTable engine (engine.checkLimit now fromPeerId).2 ∧
      (engine.checkLimit now fromPeerId).2.securityManager = engine.securityManager := by
  unfold checkLimit
  split
  · exact ⟨⟨rfl, rfl, rfl, rfl⟩, rfl⟩
  · exact ⟨⟨rfl, rfl, rfl, rfl⟩, rfl⟩

theorem updateClock_cases (runtime : Runtime) (engine : GossipEngine) (lamportTimestamp : Value) :
    (¬lamportTimestamp.Printable ∧ engine.updateClock runtime lamportTimestamp = none) ∨
    (lamportTimestamp.Printable ∧
      ∃ after, engine.updateClock runtime lamportTimestamp = some after ∧
        SameTable engine after) := by
  unfold updateClock
  split
  · have hnumber := Value.isSome_toNumber runtime.toConversions lamportTimestamp
    rw [← hnumber]
    cases lamportTimestamp.toNumber runtime.toConversions with
    | none => exact .inl ⟨by simp, rfl⟩
    | some receivedTime => exact .inr ⟨rfl, _, rfl, ⟨rfl, rfl, rfl, rfl⟩⟩
  · rename_i hfalsy
    exact .inr ⟨Value.printable_of_not_truthy (by simpa using hfalsy), _, rfl,
      ⟨rfl, rfl, rfl, rfl⟩⟩

/-- Screening throws, rejects the message, or marks it as seen and passes it on. -/
theorem screen_cases (runtime : Runtime) (now : ℕ) (engine : GossipEngine) (message : Value)
    (fromPeerId : Key) :
    (¬ScreenSafe runtime now engine message fromPeerId ∧
      engine.screen runtime now message fromPeerId = none) ∨
    (ScreenSafe runtime now engine message fromPeerId ∧
      ∃ after, SameTable engine after ∧
        ((¬Screened runtime now engine message fromPeerId ∧
            engine.screen runtime now message fromPeerId = some (false, after)) ∨
          (Screened runtime now engine message fromPeerId ∧
            engine.screen runtime now message fromPeerId =
              if (message.property "id").key ∈ engine.seenMessages then some (false, after)
              else some (true, { after with
                seenMessages := insert (message.property "id").key after.seenMessages })))) := by
  obtain ⟨hlimited, hkeys⟩ := sameTable_checkLimit engine now fromPeerId
  unfold ScreenSafe Screened screen
  cases hnullish : message.nullish with
  | true => exact .inl ⟨by simp, rfl⟩
  | false =>
    cases hpuzzle : checkPuzzle runtime message with
    | none => exact .inl ⟨by simp, rfl⟩
    | some solved =>
      cases solved with
      | false => exact .inr ⟨by simp, engine, ⟨rfl, rfl, rfl, rfl⟩, .inl ⟨by simp, rfl⟩⟩
      | true =>
        generalize engine.checkLimit now fromPeerId = limited at hlimited hkeys ⊢
        obtain ⟨allowed, limited⟩ := limited
        cases allowed with
        | false => exact .inr ⟨by simp, limited, hlimited, .inl ⟨by simp, rfl⟩⟩
        | true =>
          dsimp only at hkeys hlimited ⊢
          rw [verifySignature, hkeys]
          generalize engine.securityManager.verifyIncomingMessage runtime message = verified
          obtain ⟨valid, securityManager⟩ := verified
          have hverified : SameTable engine { limited with securityManager } :=
            ⟨hlimited.localPeerId, hlimited.topicRouter, hlimited.parses, hlimited.seenMessages⟩
          cases valid with
          | false => exact .inr ⟨by simp, _, hverified, .inl ⟨by simp, rfl⟩⟩
          | true =>
            rcases updateClock_cases runtime { limited with securityManager }
              (message.property "lamportTimestamp") with ⟨hstamp, hclock⟩ |
              ⟨hstamp, after, hclock, hafter⟩
            · left
              refine ⟨by simp [hstamp], ?_⟩
              simp [hclock]
            · right
              refine ⟨by simp [hstamp], after, ⟨?_, ?_, ?_, ?_⟩, .inr ⟨by simp, ?_⟩⟩
              · exact hafter.localPeerId.trans hverified.localPeerId
              · exact hafter.topicRouter.trans hverified.topicRouter
              · exact hafter.parses.trans hverified.parses
              · exact hafter.seenMessages.trans hverified.seenMessages
              · have hseen := hafter.seenMessages.trans hverified.seenMessages
                simp only [hclock, hseen, Option.map_some, Bool.true_eq_false, if_false,
                  Bool.false_eq_true]
                split <;> rfl

/-! ## Processing -/

theorem isSome_updateRoute {router : Router} {topic originPeerId nextHop : Key} {hopCount : ℕ}
    {sequenceNumber : Value} {path : List Key} {expiresAt : ℕ} :
    (updateRoute runtime router topic originPeerId nextHop hopCount sequenceNumber path
      expiresAt).isSome = true ↔ SequenceSafe router topic originPeerId sequenceNumber := by
  unfold updateRoute SequenceSafe
  cases router.routeOf topic originPeerId with
  | none => simp
  | some existing => simp [Value.isSome_lessThan]

/-- An update that completes changes the table exactly if it supersedes what is there. -/
theorem fst_updateRoute {router : Router} {topic originPeerId nextHop : Key} {hopCount : ℕ}
    {sequenceNumber : Value} {path : List Key} {expiresAt : ℕ} {result : Bool × Router}
    (h : updateRoute runtime router topic originPeerId nextHop hopCount sequenceNumber path
      expiresAt = some result) :
    result.1 = true ↔ Supersedes runtime router topic originPeerId sequenceNumber hopCount := by
  let _ := runtime.sequenceNumber
  rw [eq_of_updateRoute h]
  exact router.updateRoute_fst topic originPeerId nextHop hopCount sequenceNumber path
    (WithTop.some expiresAt)

theorem removeRoute_fst (router : Router) (topic originPeerId : Key) :
    (router.removeRoute topic originPeerId).1 = (router.routeOf topic originPeerId).isSome := by
  unfold TopicRouter.removeRoute TopicRouter.routeOf
  cases router.routes.get? topic with
  | none => rfl
  | some topicRoutes => rfl

theorem isSome_pathOf {localPeerId : String} {routingPath : Value} :
    (pathOf localPeerId routingPath).isSome = true ↔ PathSafe routingPath := by
  unfold pathOf PathSafe
  cases htruthy : routingPath.truthy with
  | false => simp
  | true => cases routingPath <;> simp

theorem isSome_routeAdvert {payload : Value} {path : Path} :
    (engine.routeAdvert runtime now message payload path fromPeerId).isSome = true ↔
      RouteSafe runtime engine message payload path := by
  have hchanged {changed : Bool} {topicRouter : Router} :
      (if changed = true ∧ (message.property "ttl").unprintable = true then none
        else some { engine with topicRouter }).isSome = true ↔
          (changed = true → (message.property "ttl").Printable) := by
    cases changed <;> cases hprint : (message.property "ttl").unprintable <;>
      simp [Value.Printable, hprint]
  unfold routeAdvert RouteSafe
  dsimp only
  by_cases hjoin : (payload.property "action").key = .string "JOIN"
  · have hleave : ¬Key.string "JOIN" = Key.string "LEAVE" := by decide
    simp only [hjoin, if_true, hleave, forall_const, IsEmpty.forall_iff, and_true]
    cases hroute : updateRoute runtime engine.topicRouter (payload.property "topic").key
        (message.property "sender").key
        (if fromPeerId.truthy then fromPeerId else .string engine.localPeerId) path.length
        (payload.property "sequenceNumber") path.elements (now + Config.ROUTE_LEASE_MS) with
    | none =>
      have hthrows := mt isSome_updateRoute.2 (by rw [hroute]; simp)
      simp [hthrows]
    | some routed =>
      have hsafe := isSome_updateRoute.1 (Option.isSome_of_mem hroute)
      rw [Option.bind_some, hchanged, fst_updateRoute hroute]
      simp [hsafe]
  · by_cases hleave : (payload.property "action").key = .string "LEAVE"
    · have hother : ¬Key.string "LEAVE" = Key.string "JOIN" := by decide
      simp only [hleave, hother, if_true, if_false, IsEmpty.forall_iff, true_and, forall_const]
      rw [Option.bind_some, hchanged, removeRoute_fst]
    · simp [hjoin, hleave]

theorem isSome_processSubAd :
    (engine.processSubAd runtime now message fromPeerId).isSome = true ↔
      AdvertSafe runtime engine message := by
  unfold processSubAd AdvertSafe
  cases hparse : engine.parse runtime (message.property "payload") with
  | none => simp
  | some payload =>
    simp only [Option.some.injEq, forall_eq']
    cases hnullish : payload.nullish with
    | true => simp
    | false =>
      cases hpath : pathOf engine.localPeerId (message.property "routingPath") with
      | none =>
        have hthrows := mt isSome_pathOf.2 (by rw [hpath]; simp)
        simp [hthrows]
      | some path =>
        have hsafe := isSome_pathOf.1 (Option.isSome_of_mem hpath)
        cases hlocal : path.includesLocal with
        | true => simp [hsafe, hlocal]
        | false =>
          simp only [Bool.false_eq_true, if_false, Option.isSome_map, isSome_routeAdvert, hsafe,
            Option.some.injEq, forall_eq', hlocal, forall_const, true_and]
          rfl

theorem advertSafe_congr (runtime : Runtime) (message : Value) {engine after : GossipEngine}
    (hlocal : after.localPeerId = engine.localPeerId)
    (hrouter : after.topicRouter = engine.topicRouter)
    (hparses : after.parses = engine.parses) :
    AdvertSafe runtime after message ↔ AdvertSafe runtime engine message := by
  simp only [AdvertSafe, RouteSafe, parse, hlocal, hrouter, hparses]

/-- The call throws, or it ends and announces an ordinary message exactly if that passed. -/
theorem receiveMessage_cases (runtime : Runtime) (now : ℕ) (engine : GossipEngine)
    (message : Value) (fromPeerId : Key) :
    (¬MessageSafe runtime now engine message fromPeerId ∧
      engine.receiveMessage runtime now message fromPeerId = none) ∨
    (MessageSafe runtime now engine message fromPeerId ∧
      ∃ after announced,
        engine.receiveMessage runtime now message fromPeerId = some (after, announced) ∧
        ((message.property "type").key ≠ .string "SUB_AD" →
          (announced = true ↔ Screened runtime now engine message fromPeerId ∧
            (message.property "id").key ∉ engine.seenMessages))) := by
  unfold MessageSafe receiveMessage
  rcases screen_cases runtime now engine message fromPeerId with ⟨hthrows, hscreen⟩ |
    ⟨hsafe, after, hsame, ⟨hrejected, hscreen⟩ | ⟨hscreened, hscreen⟩⟩
  · exact .inl ⟨fun h ↦ hthrows h.1, by rw [hscreen]⟩
  · refine .inr ⟨⟨hsafe, fun h ↦ absurd h hrejected⟩, after, false, by rw [hscreen], ?_⟩
    simp [hrejected]
  · by_cases hseen : (message.property "id").key ∈ engine.seenMessages
    · rw [if_pos hseen] at hscreen
      refine .inr ⟨⟨hsafe, fun _ h ↦ absurd hseen h⟩, after, false, by rw [hscreen], ?_⟩
      simp [hseen]
    · rw [if_neg hseen] at hscreen
      generalize hscreenedEngine : { after with
        seenMessages := insert (message.property "id").key after.seenMessages } = screened
        at hscreen
      have hadvertSafe : AdvertSafe runtime screened message ↔ AdvertSafe runtime engine message :=
        advertSafe_congr runtime message (hscreenedEngine ▸ hsame.localPeerId)
          (hscreenedEngine ▸ hsame.topicRouter) (hscreenedEngine ▸ hsame.parses)
      simp only [hscreen, hsafe, hscreened, hseen, not_false_eq_true, forall_const, true_and,
        and_true, ← hadvertSafe, iff_true]
      by_cases hadvert : (message.property "type").key = .string "SUB_AD"
      · simp only [hadvert, if_true, ne_eq, not_true_eq_false, IsEmpty.forall_iff, and_true]
        rw [← isSome_processSubAd]
        cases screened.processSubAd runtime now message fromPeerId with
        | none => simp
        | some result => exact .inr ⟨rfl, result.1, result.2, rfl⟩
      · simp only [hadvert, if_false, ne_eq, not_false_eq_true, forall_const]
        unfold processGossip Value.Printable
        cases (message.property "ttl").unprintable with
        | true => simp
        | false => exact .inr ⟨rfl, screened, true, rfl, rfl⟩

end GossipEngine

namespace P2PNode

variable (runtime : Runtime) (clock : ℕ → ℕ) (now : ℕ) (node : P2PNode) (message : Value)
  (fromPeerId : Key)

/-- An announced message can be saved, unless it is not to be. -/
def SaveSafe : Prop :=
  (message.property "type").key ≠ .string "SUB_AD" →
    node.storage ≠ .closed ∧ (message.property "topic").Printable ∧
      (message.property "lamportTimestamp").Printable ∧ (message.property "id").Printable

/-- The engine completes, and so does the announcement of an ordinary message that passed. -/
def GossipSafe : Prop :=
  GossipEngine.MessageSafe runtime now node.gossipEngine message fromPeerId ∧
  (GossipEngine.Screened runtime now node.gossipEngine message fromPeerId →
    (message.property "id").key ∉ node.gossipEngine.seenMessages → SaveSafe node message)

/-- One element of a batch is skipped or received. -/
def ItemSafe (item : Value × ℕ) : Prop :=
  item.1.nullish = false ∧
    ((item.1.property "id").key ∉ node.gossipEngine.seenMessages →
      GossipSafe runtime item.2 node item.1 fromPeerId)

/-- The payload parses, and if it is an array, each element is safe in the state that those before
it lead to. -/
def BatchSafe : Prop :=
  ∃ messages, node.gossipEngine.parse runtime (message.property "payload") = some messages ∧
    ∀ identity items, messages = .array identity items →
      SafeAlong (receiveItem runtime fromPeerId)
        (fun node item ↦ ItemSafe runtime node fromPeerId item) node.countParse
        (timed clock items)

/-- The payload parses to something that has properties. -/
def AckSafe : Prop :=
  ∃ payload, node.gossipEngine.parse runtime (message.property "payload") = some payload ∧
    payload.nullish = false

/-- No route with an unprintable sequence number is in the way of a shared subscription, and the
peer has a key for its watermark. -/
def HelloSafe : Prop :=
  (∀ identity topics, message.property "subscriptions" = .array identity topics →
    ∀ topic ∈ topics, GossipEngine.SequenceSafe node.gossipEngine.topicRouter topic.key
      (message.property "peerId").key (.number (.finite 0))) ∧
  (node.storage = .open → (message.property "peerId").Printable)

/-- Dialling the peer does not throw: it is already dialled, or the pool is full and its id can be
logged, or its address is that of a web socket. -/
def DialSafe (peerId host port : Value) : Prop :=
  node.connectionPool.outboundConnections.has peerId.key = false →
    if Config.MAX_PEERS ≤ node.connectionPool.outboundConnections.size then peerId.Printable
    else ∃ url, urlOf runtime host port = some url ∧ runtime.acceptsUrl url = true

/-- One element of a list of peers is known, or can be dialled. -/
def PeerSafe (peer : Value) : Prop :=
  peer.nullish = false ∧
  let peerId := peer.property "peerId"
  (peerId.key ≠ .string node.config.peerId → node.peers.has peerId.key = false →
    DialSafe runtime node peerId (peer.property "host") (peer.property "port"))

def PeersSafe : Prop :=
  ∀ identity peers, message.property "peers" = .array identity peers →
    SafeAlong (receivePeer runtime now) (fun node peer ↦ PeerSafe runtime node peer) node peers

/-- A relayed message is handled to the end. -/
def RelaySafe : Prop :=
  message.nullish = false ∧
  match frameType message with
  | .ack | .heartbeat | .peerExchange => True
  | .syncBatch => BatchSafe runtime clock node message fromPeerId
  | .syncAck => AckSafe runtime node message
  | .hello => HelloSafe node message
  | .peerList => node.config.enableDiscovery = true → PeersSafe runtime (clock 0) node message
  | .gossip => GossipSafe runtime (clock 0) node message fromPeerId

/-- A frame is handled to the end: before the handshake if it is no `null` and no unsafe handshake,
and afterwards if it is safe to relay. -/
def FrameSafe (endpoint : Endpoint) (frame : Option Value) : Prop :=
  ∀ message, frame = some message →
    match endpoint with
    | .server socketId =>
      match node.sockets[socketId]? with
      | some .greeting =>
        message.nullish = false ∧
          (frameType message = .hello → (message.property "peerId").truthy = true →
            HelloSafe node message)
      | some (.handshaked connectedPeerId) =>
        RelaySafe runtime clock node message connectedPeerId
      | some .closed | none => True
    | .client clientId =>
      ∀ peerId, node.dialled[clientId]? = some peerId → RelaySafe runtime clock node message peerId

variable {runtime clock now node message fromPeerId}

/-! ## Messages and batches -/

theorem isSome_makeKey {topic lamportTimestamp messageId : Value} :
    (makeKey runtime topic lamportTimestamp messageId).isSome = true ↔
      topic.Printable ∧ lamportTimestamp.Printable ∧ messageId.Printable := by
  rw [← Value.isSome_toText runtime.toConversions topic,
    ← Value.isSome_toText runtime.toConversions lamportTimestamp,
    ← Value.isSome_toText runtime.toConversions messageId]
  unfold makeKey
  cases topic.toText runtime.toConversions <;>
    cases lamportTimestamp.toText runtime.toConversions <;>
      cases messageId.toText runtime.toConversions <;> simp

theorem isSome_messageNew :
    (node.messageNew runtime message).isSome = true ↔ SaveSafe node message := by
  unfold messageNew SaveSafe
  by_cases hadvert : (message.property "type").key = .string "SUB_AD"
  · simp [hadvert]
  · unfold save
    by_cases hclosed : node.storage = .closed
    · simp [hadvert, hclosed]
    · simp [hadvert, hclosed, isSome_makeKey]

theorem saveSafe_engine (gossipEngine : GossipEngine) :
    SaveSafe { node with gossipEngine } message ↔ SaveSafe node message := Iff.rfl

theorem isSome_receiveMessage :
    (node.receiveMessage runtime now message fromPeerId).isSome = true ↔
      GossipSafe runtime now node message fromPeerId := by
  unfold receiveMessage GossipSafe
  rcases GossipEngine.receiveMessage_cases runtime now node.gossipEngine message fromPeerId with
    ⟨hthrows, hreceive⟩ | ⟨hsafe, after, announced, hreceive, hannounced⟩
  · simp [hthrows, hreceive]
  · simp only [hreceive, Option.bind_some, hsafe, true_and]
    by_cases hadvert : (message.property "type").key = .string "SUB_AD"
    · have hsave : SaveSafe node message := fun hother ↦ absurd hadvert hother
      cases announced
      · simp [hsave]
      · simp [isSome_messageNew, saveSafe_engine, hsave]
    · have hannounced := hannounced hadvert
      cases announced
      · simp only [Bool.false_eq_true, false_iff, not_and, not_not] at hannounced
        simp only [Bool.false_eq_true, if_false, Option.isSome_some, true_iff]
        exact fun hscreened hunseen ↦ absurd (hannounced hscreened) hunseen
      · simp only [true_iff] at hannounced
        simp [isSome_messageNew, saveSafe_engine, hannounced]

theorem isSome_receiveItem (node : P2PNode) (item : Value × ℕ) :
    (node.receiveItem runtime fromPeerId item).isSome = true ↔
      ItemSafe runtime node fromPeerId item := by
  unfold receiveItem ItemSafe
  cases hnullish : item.1.nullish with
  | true => simp
  | false =>
    by_cases hseen : (item.1.property "id").key ∈ node.gossipEngine.seenMessages
    · simp [hseen]
    · simp [hseen, isSome_receiveMessage]

theorem isSome_receiveSyncBatch :
    (node.receiveSyncBatch runtime clock message fromPeerId).isSome = true ↔
      BatchSafe runtime clock node message fromPeerId := by
  unfold receiveSyncBatch BatchSafe
  cases node.gossipEngine.parse runtime (message.property "payload") with
  | none => simp
  | some messages =>
    cases messages with
    | array identity items =>
      rw [isSome_foldlM_iff isSome_receiveItem]
      simp
    | _ => simp

theorem isSome_receiveSyncAck :
    (node.receiveSyncAck runtime message fromPeerId).isSome = true ↔
      AckSafe runtime node message := by
  unfold receiveSyncAck AckSafe
  cases node.gossipEngine.parse runtime (message.property "payload") with
  | none => simp
  | some payload =>
    cases hnullish : payload.nullish with
    | true => simp [hnullish]
    | false =>
      simp only [Bool.false_eq_true, if_false, Option.some.injEq, exists_eq_left', hnullish,
        iff_true]
      split
      · split <;> rfl
      · rfl

/-! ## Handshakes -/

theorem isSome_registerSubscription (runtime : Runtime) (now : ℕ) (peerId : Key)
    (router : Router) (topic : Value) :
    (registerSubscription runtime now peerId router topic).isSome = true ↔
      GossipEngine.SequenceSafe router topic.key peerId (.number (.finite 0)) := by
  rw [registerSubscription, Option.isSome_map, GossipEngine.isSome_updateRoute]

/-- Registering a subscription installs a number or keeps the sequence number that is there. -/
theorem sequenceSafe_registerSubscription {peerId : Key} {router router' : Router}
    {topic : Value} (h : registerSubscription runtime now peerId router topic = some router')
    (other : Value) :
    GossipEngine.SequenceSafe router' other.key peerId (.number (.finite 0)) ↔
      GossipEngine.SequenceSafe router other.key peerId (.number (.finite 0)) := by
  have hsafe :=
    (isSome_registerSubscription runtime now peerId router topic).1 (Option.isSome_of_mem h)
  obtain ⟨⟨changed, updated⟩, hupdate, rfl⟩ := Option.map_eq_some_iff.1 h
  let _ := runtime.sequenceNumber
  have hsecond := congrArg Prod.snd (GossipEngine.eq_of_updateRoute hupdate)
  dsimp only at hsecond ⊢
  rw [hsecond]
  have hset (route : Route Key Value (List Key)) (hroute : route.sequenceNumber.Printable) :
      GossipEngine.SequenceSafe (router.setRoute topic.key peerId route) other.key peerId
          (.number (.finite 0)) ↔
        GossipEngine.SequenceSafe router other.key peerId (.number (.finite 0)) := by
    unfold GossipEngine.SequenceSafe at hsafe ⊢
    by_cases hother : other.key = topic.key
    · rw [hother]
      refine iff_of_true (fun existing hexisting ↦ ?_) hsafe
      rw [TopicRouter.routeOf_setRoute_self] at hexisting
      cases hexisting
      exact ⟨rfl, hroute⟩
    · simp only [TopicRouter.routeOf_setRoute, hother, false_and, if_false]
  rcases router.updateRoute_cases topic.key peerId peerId 0 (.number (.finite 0)) []
    (WithTop.some (now + Config.ROUTE_LEASE_MS)) with ⟨heq, _⟩ |
    ⟨existing, hexisting, _, _, _, heq⟩ | ⟨existing, _, _, _, heq⟩
  · rw [heq]
    exact hset _ rfl
  · rw [heq]
    exact hset _ (hsafe existing hexisting).2
  · rw [heq]

theorem isSome_registerTopics (runtime : Runtime) (now : ℕ) (peerId : Key) (router : Router)
    (topics : List Value) :
    (topics.foldlM (registerSubscription runtime now peerId) router).isSome = true ↔
      ∀ topic ∈ topics,
        GossipEngine.SequenceSafe router topic.key peerId (.number (.finite 0)) := by
  induction topics generalizing router with
  | nil => simp
  | cons topic topics ih =>
    rw [List.foldlM_cons, List.forall_mem_cons, ← isSome_registerSubscription runtime now]
    cases hresult : registerSubscription runtime now peerId router topic with
    | none => simp
    | some router' =>
      simp only [bind, Option.bind_some, ih, Option.isSome_some, true_and,
        sequenceSafe_registerSubscription hresult]

theorem isSome_greet (runtime : Runtime) (now : ℕ) (node : P2PNode) (message : Value) :
    ((node.registerSubscriptions runtime now (message.property "peerId").key
        (message.property "subscriptions")).bind fun node ↦
      node.onPeerReconnected (message.property "peerId")).isSome = true ↔
        HelloSafe node message := by
  have hreconnected (topicRouter : Router) :
      (onPeerReconnected { node with gossipEngine := { node.gossipEngine with topicRouter } }
        (message.property "peerId")).isSome = true ↔
          (node.storage = .open → (message.property "peerId").Printable) := by
    unfold onPeerReconnected Value.Printable
    cases (message.property "peerId").unprintable <;> by_cases hopen : node.storage = .open <;>
      simp [hopen]
  unfold registerSubscriptions HelloSafe
  cases hsubscriptions : message.property "subscriptions" with
  | array identity topics =>
    have hloop := isSome_registerTopics runtime now (message.property "peerId").key
      node.gossipEngine.topicRouter topics
    simp only [Value.array.injEq, and_imp, forall_eq', forall_apply_eq_imp_iff]
    rw [← hloop]
    cases topics.foldlM (registerSubscription runtime now (message.property "peerId").key)
        node.gossipEngine.topicRouter with
    | none => simp
    | some topicRouter => simp [hreconnected]
  | _ =>
    simp only [reduceCtorEq, IsEmpty.forall_iff, forall_const, true_and, Option.bind_some]
    exact hreconnected node.gossipEngine.topicRouter

theorem isSome_receiveHello :
    (node.receiveHello runtime now message).isSome = true ↔ HelloSafe node message := by
  have hgreet := isSome_greet runtime now
    ((node.registerPeerKey (message.property "peerId").key
      (message.property "publicKey")).updateHeartbeat now (message.property "peerId").key) message
  have hsame : HelloSafe ((node.registerPeerKey (message.property "peerId").key
      (message.property "publicKey")).updateHeartbeat now (message.property "peerId").key)
        message ↔ HelloSafe node message := by
    unfold updateHeartbeat
    split <;> rfl
  exact hgreet.trans hsame

theorem isSome_handshake {socketId : ℕ} :
    (node.handshake runtime now socketId message).isSome = true ↔ HelloSafe node message :=
  isSome_greet _ _ _ _

/-! ## Peers -/

theorem isSome_connect {peerId host port : Value} :
    (node.connect runtime peerId host port).isSome = true ↔
      DialSafe runtime node peerId host port := by
  unfold connect DialSafe
  cases node.connectionPool.outboundConnections.has peerId.key with
  | true => simp
  | false =>
    by_cases hfull : Config.MAX_PEERS ≤ node.connectionPool.outboundConnections.size
    · simp [hfull]
    · simp only [hfull, Bool.false_eq_true, if_false, forall_const]
      cases urlOf runtime host port with
      | none => simp
      | some url => cases haccepts : runtime.acceptsUrl url <;> simp [haccepts]

theorem isSome_receivePeer (node : P2PNode) (peer : Value) :
    (node.receivePeer runtime now peer).isSome = true ↔ PeerSafe runtime node peer := by
  unfold receivePeer PeerSafe
  cases hnullish : peer.nullish with
  | true => simp
  | false =>
    by_cases hlocal : (peer.property "peerId").key = .string node.config.peerId
    · simp [hlocal]
    · unfold addPeer
      cases hknown : node.peers.has (peer.property "peerId").key with
      | true => simp [hlocal, hknown]
      | false =>
        simp only [Bool.false_eq_true, if_false, ne_eq, hlocal, not_false_eq_true, if_true,
          hknown, forall_const, true_and, isSome_connect]
        rfl

theorem isSome_peerExchange :
    (node.peerExchange runtime now message).isSome = true ↔
      (node.config.enableDiscovery = true → frameType message = .peerList →
        PeersSafe runtime now node message) := by
  unfold peerExchange PeersSafe
  by_cases hlist : node.config.enableDiscovery = true ∧ frameType message = .peerList
  · rw [if_pos hlist]
    simp only [hlist.1, hlist.2, forall_const]
    cases message.property "peers" with
    | array identity peers =>
      rw [isSome_foldlM_iff isSome_receivePeer]
      simp
    | _ => simp
  · rw [if_neg hlist]
    simp only [Option.isSome_some, true_iff]
    exact fun hdiscovery hpeers ↦ absurd ⟨hdiscovery, hpeers⟩ hlist

/-! ## Frames -/

/-- Only a list of peers is of interest to the peer exchange. -/
theorem peerExchange_of_ne (hother : frameType message ≠ .peerList) :
    node.peerExchange runtime now message = some node := by
  rw [peerExchange, if_neg fun h ↦ hother h.2]

theorem isSome_relay :
    (node.relay runtime clock message fromPeerId).isSome = true ↔
      RelaySafe runtime clock node message fromPeerId := by
  unfold relay handleMessage RelaySafe
  cases hnullish : message.nullish with
  | true => simp
  | false =>
    have hpeers (hother : frameType message ≠ .peerList) (handled : Option P2PNode) :
        (handled.bind fun node ↦ node.peerExchange runtime (clock 0) message) = handled := by
      cases handled with
      | none => rfl
      | some node => exact peerExchange_of_ne hother
    cases htype : frameType message with
    | peerList =>
      simp only [Bool.false_eq_true, if_false, Option.bind_some, isSome_peerExchange, htype,
        forall_const, true_and]
    | ack | heartbeat | peerExchange => simp [hpeers, htype]
    | syncBatch => simp [hpeers, htype, isSome_receiveSyncBatch]
    | syncAck => simp [hpeers, htype, isSome_receiveSyncAck]
    | hello => simp [hpeers, htype, isSome_receiveHello]
    | gossip => simp [hpeers, htype, isSome_receiveMessage]

/-- Handling a frame completes exactly if the frame is safe in the state at hand. -/
theorem isSome_receiveFrame {endpoint : Endpoint} {frame : Option Value} :
    (node.receiveFrame runtime clock endpoint frame).isSome = true ↔
      FrameSafe runtime clock node endpoint frame := by
  cases frame with
  | none => simp [receiveFrame, FrameSafe]
  | some message =>
    unfold receiveFrame FrameSafe
    simp only [Option.some.injEq, forall_eq']
    cases endpoint with
    | client clientId =>
      dsimp only [clientMessage]
      cases hdialled : node.dialled[clientId]? with
      | none => simp
      | some peerId => simp [isSome_relay]
    | server socketId =>
      dsimp only [serverMessage]
      cases hsocket : node.sockets[socketId]? with
      | none => simp
      | some socket =>
        cases socket with
        | closed => simp
        | handshaked connectedPeerId => simp [isSome_relay]
        | greeting =>
          cases hnullish : message.nullish with
          | true => simp
          | false =>
            by_cases hhello : frameType message = .hello ∧
                (message.property "peerId").truthy = true
            · simp [hhello, isSome_handshake]
            · simp only [hhello, Bool.false_eq_true, if_false, Option.isSome_some, true_and,
                true_iff]
              exact fun htype htruthy ↦ absurd ⟨htype, htruthy⟩ hhello

/-! ## Runs of the process -/

def Event.isFrame : Event → Bool
  | .frame _ _ _ => true
  | _ => false

/-- The runs of the process, which an exception on a frame ends; that state is `none`. -/
def process (runtime : Runtime) : TransitionSystem (Option P2PNode) Event where
  step before event after := ∃ node, before = some node ∧ after = next runtime node event ∧
    (event.isFrame = false → after.isSome = true)

/-- A frame is safe in the state it meets. -/
def EventSafe (runtime : Runtime) (before : Option P2PNode) (event : Event) : Prop :=
  ∀ node clock endpoint frame, before = some node → event = .frame clock endpoint frame →
    FrameSafe runtime clock node endpoint frame

theorem isSome_step {before after : Option P2PNode} {event : Event}
    (h : (process runtime).step before event after) :
    after.isSome = true ↔ before.isSome = true ∧ EventSafe runtime before event := by
  obtain ⟨node, rfl, rfl, hother⟩ := h
  unfold EventSafe
  cases event with
  | frame clock endpoint frame =>
    rw [next, isSome_receiveFrame]
    constructor
    · intro hsafe
      refine ⟨rfl, ?_⟩
      rintro _ _ _ _ ⟨⟩ ⟨⟩
      exact hsafe
    · exact fun hsafe ↦ hsafe.2 node clock endpoint frame rfl rfl
  | _ => simpa [Event.isFrame] using hother

/-- A run of the process has met no exception if and only if each of its frames was safe in the
state it met. -/
theorem survives_iff {config : NodeConfig} {events : List Event} {last : Option P2PNode}
    (h : (process runtime).Run (some (start config)) events last) :
    last.isSome = true ↔
      (process runtime).GuardedRun (EventSafe runtime) (some (start config)) events last := by
  have hstep (before : Option P2PNode) (event : Event) (after : Option P2PNode) (_ : True)
      (hnext : (process runtime).step before event after) :
      after.isSome = true ↔ before.isSome = true ∧ EventSafe runtime before event :=
    isSome_step hnext
  exact h.iff_guardedRun (fun _ ↦ True) (fun _ _ _ _ _ ↦ trivial) hstep trivial rfl

/-- No frame that a node can receive ends its process. -/
def Robust (runtime : Runtime) (config : NodeConfig) : Prop :=
  ∀ events last, (process runtime).Run (some (start config)) events last → last.isSome = true

theorem run_process {node last : P2PNode} {events : List Event}
    (h : events.foldlM (next runtime) node = some last) :
    (process runtime).Run (some node) events (some last) := by
  induction events generalizing node with
  | nil =>
    cases h
    exact .nil _
  | cons event events ih =>
    obtain ⟨middle, hfirst, hrest⟩ := Option.bind_eq_some_iff.1 h
    exact .cons ⟨node, rfl, hfirst.symm, fun _ ↦ rfl⟩ (ih hrest)

/-- A peer connects and sends an empty batch. -/
def emptyBatch : List Event :=
  [.socketOpened, .frame (fun _ ↦ 1) (.server 0) (some (helloFrame 0 "bob" "bob-key")),
    .frame (fun _ ↦ 2) (.server 0) (some (.object 2 [("type", .string "SYNC_BATCH"),
      ("id", .string "b1"), ("payload", .string "[]")]))]

theorem survives_emptyBatch :
    ∃ last, (process .sample).GuardedRun (EventSafe .sample) (some (start exampleConfig))
      emptyBatch (some last) := by
  obtain ⟨last, hlast⟩ := Option.isSome_iff_exists.1 (show (emptyBatch.foldlM (next .sample)
    (start exampleConfig)).isSome = true by decide +kernel)
  exact ⟨last, (survives_iff (run_process hlast)).1 rfl⟩

/-- The first frame on a new connection is `null`. -/
theorem not_robust_null : ¬Robust .sample exampleConfig := by
  intro h
  have hopened : (process .sample).Run (some (start exampleConfig)) [.socketOpened]
      (some { start exampleConfig with sockets := [.greeting] }) := run_process rfl
  have hthrown : (process .sample).step (some { start exampleConfig with sockets := [.greeting] })
      (.frame (fun _ ↦ 1) (.server 0) (some .null)) none :=
    ⟨_, rfl, rfl, fun hother ↦ by cases hother⟩
  exact absurd (h _ none (.snoc hopened hthrown)) (by decide)

end P2PNode

end P2PApp.Node
