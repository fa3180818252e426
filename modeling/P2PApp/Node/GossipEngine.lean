import P2PApp.Library.JavaScript
import P2PApp.Protocol.Pow
import P2PApp.Protocol.RateLimiter
import P2PApp.Protocol.TopicRouter

/-!
# The gossip engine on unchecked values

Nothing between a socket and the engine checks the shape of a message, so this is the receive
pipeline on whatever `JSON.parse` returns: missing and mistyped fields, numbers and objects in the
place of ids, payloads that parse to anything. An operation that throws ends the call with `none`.

Kept is what decides the state and the exceptions. Metrics and outgoing copies are left out:
counting, serialising and handing a text to a socket neither fail nor feed back into the engine.
-/

namespace P2PApp.Node

open JavaScript

/-- The fields covered by a signature, as they are in the message. -/
structure SignedFields where
  id : Value
  type : Value
  sender : Value
  topic : Value
  payload : Value

/-- What the process takes from outside its own logic. The proof-of-work backend may reject its
arguments with an exception, as the native one does with anything but a string and a number. -/
structure Runtime extends Conversions where
  /-- `JSON.parse` of a text. The objects of different calls, which are numbered, differ. -/
  parseJson : ℕ → String → Option Value
  verifyPuzzle : Value → ℕ → Value → Option Bool
  /-- `keyManager.verify`, which catches its exceptions. -/
  verify : SignedFields → Value → Value → Bool
  /-- Whether `new WebSocket(url)` accepts the text. -/
  acceptsUrl : String → Bool
  /-- `url.hostname` and `parseInt(url.port) || 80` of a text that `new URL` accepts. -/
  parseUrl : String → Option (String × ℕ)

/-- Sequence numbers are compared as they come. -/
@[reducible] def Runtime.sequenceNumber (runtime : Runtime) : SequenceNumber Value where
  lt := Value.less runtime.toConversions
  same := Value.same

/-- `JSON.parse` of the few texts that closed examples use. -/
def parseSample (parses : ℕ) (text : String) : Option Value :=
  match text with
  | "null" => some .null
  | "[]" => some (.array parses [])
  | _ => none

/-- A runtime for closed examples, with the fallback of the proof of work and a keyed tag in the
place of the crypto library. -/
def Runtime.sample : Runtime where
  numberText
    | .nan => "NaN"
    | .negInfinity => "-Infinity"
    | .finite value => toString value.num
    | .infinity => "Infinity"
  textNumber text := text.toNat?.elim .nan fun value ↦ .finite value
  textLess left right := decide (left < right)
  parseJson := parseSample
  verifyPuzzle data difficulty nonce :=
    match data, nonce with
    | .string data, .number (.finite nonce) =>
      some (Pow.jsSimpleHash (data ++ toString nonce.num) % difficulty == 0)
    | _, _ => none
  verify fields signature publicKey :=
    match fields.id, fields.sender, signature, publicKey with
    | .string id, .string sender, .string signature, .string publicKey =>
      signature = publicKey ++ "/" ++ id ++ "/" ++ sender
    | _, _, _, _ => false
  acceptsUrl _ := true
  parseUrl text := if text = "ws://127.0.0.1:9001" then some ("127.0.0.1", 9001) else none

abbrev Router := TopicRouter Key Key Value (List Key)

structure SecurityManager where
  peerPublicKeys : OrderedMap Key Value

namespace SecurityManager

def registerPeerKey (manager : SecurityManager) (peerId : Key) (publicKey : Value) :
    SecurityManager :=
  ⟨manager.peerPublicKeys.set peerId publicKey⟩

/-- `init`: the node registers its own key. -/
def init (localPeerId publicKey : String) : SecurityManager :=
  registerPeerKey ⟨∅⟩ (.string localPeerId) (.string publicKey)

/-- The registered key of a peer, `undefined` if there is none. -/
def keyOf (manager : SecurityManager) (peerId : Key) : Value :=
  (manager.peerPublicKeys.get? peerId).getD .undefined

def signedFields (message : Value) : SignedFields where
  id := message.property "id"
  type := message.property "type"
  sender := message.property "sender"
  topic := message.property "topic"
  payload := message.property "payload"

def verifyIncomingMessage (runtime : Runtime) (manager : SecurityManager) (message : Value) :
    Bool × SecurityManager :=
  let signature := message.property "signature"
  let sender := (message.property "sender").key
  if signature.truthy = false then (false, manager)
  else
    let attached := message.property "senderPublicKey"
    let learns := (manager.keyOf sender).truthy = false ∧ attached.truthy = true
    let senderPublicKey := if learns then attached else manager.keyOf sender
    let manager := if learns then manager.registerPeerKey sender attached else manager
    if senderPublicKey.truthy = false then (false, manager)
    else (runtime.verify (signedFields message) signature senderPublicKey, manager)

end SecurityManager

structure GossipEngine where
  localPeerId : String
  lamportClock : Number
  seenMessages : Finset Key
  rateLimiter : RateLimiter Key
  topicRouter : Router
  securityManager : SecurityManager
  /-- How often `JSON.parse` was called on a payload. -/
  parses : ℕ

namespace GossipEngine

def new (localPeerId publicKey : String) (capacity refillRate : ℚ) : GossipEngine where
  localPeerId
  lamportClock := .finite 0
  seenMessages := ∅
  rateLimiter := .new capacity refillRate
  topicRouter := .new
  securityManager := .init localPeerId publicKey
  parses := 0

/-- `JSON.parse` of a payload, which converts it to a string first. -/
def parse (runtime : Runtime) (engine : GossipEngine) (payload : Value) : Option Value :=
  (payload.toText runtime.toConversions).bind (runtime.parseJson engine.parses)

def countParse (engine : GossipEngine) : GossipEngine := { engine with parses := engine.parses + 1 }

/-- The rate limit is bypassed for every sender id that counts as false. -/
def checkLimit (engine : GossipEngine) (now : ℕ) (fromPeerId : Key) : Bool × GossipEngine :=
  if fromPeerId.truthy then
    let (allowed, rateLimiter) := engine.rateLimiter.checkLimit now fromPeerId
    (allowed, { engine with rateLimiter })
  else (true, engine)

def verifySignature (runtime : Runtime) (engine : GossipEngine) (message : Value) :
    Bool × GossipEngine :=
  let (valid, securityManager) := engine.securityManager.verifyIncomingMessage runtime message
  (valid, { engine with securityManager })

/-- `Math.max(this._value, receivedTime) + 1`, for a stamp that counts as true. -/
def updateClock (runtime : Runtime) (engine : GossipEngine) (lamportTimestamp : Value) :
    Option GossipEngine :=
  if lamportTimestamp.truthy then
    (lamportTimestamp.toNumber runtime.toConversions).map fun receivedTime ↦
      { engine with lamportClock := (engine.lamportClock.max receivedTime).add 1 }
  else some engine

/-- An update of the routing table. With a route to compare with, both sequence numbers are
converted, and that can throw. -/
def updateRoute (runtime : Runtime) (router : Router) (topic originPeerId nextHop : Key)
    (hopCount : ℕ) (sequenceNumber : Value) (path : List Key) (expiresAt : ℕ) :
    Option (Bool × Router) :=
  let updated :=
    let _ := runtime.sequenceNumber
    router.updateRoute topic originPeerId nextHop hopCount sequenceNumber path
      (WithTop.some expiresAt)
  match router.routeOf topic originPeerId with
  | some existing =>
    (sequenceNumber.lessThan runtime.toConversions existing.sequenceNumber).map fun _ ↦ updated
  | none => some updated

/-- An update that completes is an update of the table. -/
theorem eq_of_updateRoute {runtime : Runtime} {router : Router} {topic originPeerId nextHop : Key}
    {hopCount : ℕ} {sequenceNumber : Value} {path : List Key} {expiresAt : ℕ}
    {result : Bool × Router}
    (h : updateRoute runtime router topic originPeerId nextHop hopCount sequenceNumber path
      expiresAt = some result) :
    result = @TopicRouter.updateRoute _ _ _ _ _ _ runtime.sequenceNumber router topic
      originPeerId nextHop hopCount sequenceNumber path (WithTop.some expiresAt) := by
  unfold updateRoute at h
  split at h
  · obtain ⟨_, _, heq⟩ := Option.map_eq_some_iff.1 h
    exact heq.symm
  · exact (Option.some.inj h).symm

/-- What the engine reads from a `routingPath`. -/
structure Path where
  elements : List Key
  length : ℕ
  includesLocal : Bool

/-- Arrays and strings have `includes`; on anything else that counts as true the call throws. -/
def pathOf (localPeerId : String) (routingPath : Value) : Option Path :=
  if routingPath.truthy = false then some ⟨[], 0, false⟩
  else
    match routingPath with
    | .array _ items =>
      some ⟨items.map Value.key, items.length, items.any fun item ↦ item.key = .string localPeerId⟩
    | .string text =>
      some
        { elements := text.toList.map fun character ↦ .string (String.singleton character)
          length := (Pow.charCodes text).length
          includesLocal := localPeerId.toList <:+: text.toList }
    | _ => none

/-- The part of an admitted `SUB_AD` behind the loop check. Only an advertisement that changed the
routing table has its `ttl` compared. -/
def routeAdvert (runtime : Runtime) (now : ℕ) (engine : GossipEngine) (message payload : Value)
    (path : Path) (fromPeerId : Key) : Option GossipEngine :=
  let topic := (payload.property "topic").key
  let sender := (message.property "sender").key
  let action := (payload.property "action").key
  let nextHop := if fromPeerId.truthy then fromPeerId else .string engine.localPeerId
  let routed :=
    if action = .string "JOIN" then
      updateRoute runtime engine.topicRouter topic sender nextHop path.length
        (payload.property "sequenceNumber") path.elements (now + Config.ROUTE_LEASE_MS)
    else if action = .string "LEAVE" then some (engine.topicRouter.removeRoute topic sender)
    else some (false, engine.topicRouter)
  routed.bind fun (changed, topicRouter) ↦
    if changed = true ∧ (message.property "ttl").unprintable = true then none
    else some { engine with topicRouter }

/-- An admitted `SUB_AD`, and whether it is announced. -/
def processSubAd (runtime : Runtime) (now : ℕ) (engine : GossipEngine) (message : Value)
    (fromPeerId : Key) : Option (GossipEngine × Bool) :=
  match engine.parse runtime (message.property "payload") with
  -- The exceptions of `JSON.parse` are caught.
  | none => some (engine.countParse, false)
  | some payload =>
    if payload.nullish then none
    else
      match pathOf engine.localPeerId (message.property "routingPath") with
      | none => none
      | some path =>
        if path.includesLocal then some (engine.countParse, false)
        else
          (routeAdvert runtime now engine.countParse message payload path fromPeerId).map
            fun engine ↦ (engine, true)

/-- An admitted message of any other type: `message.ttl -= 1` converts the field. -/
def processGossip (engine : GossipEngine) (message : Value) : Option (GossipEngine × Bool) :=
  if (message.property "ttl").unprintable then none else some (engine, true)

/-- The verification of the proof of work of a message, with a nonce of zero if it has none. -/
def checkPuzzle (runtime : Runtime) (message : Value) : Option Bool :=
  let powNonce := message.property "powNonce"
  runtime.verifyPuzzle (message.property "id") Config.POW_DIFFICULTY
    (if powNonce.truthy then powNonce else .number (.finite 0))

/-- The checks of a message, up to the insertion into the seen set, and whether it passed. -/
def screen (runtime : Runtime) (now : ℕ) (engine : GossipEngine) (message : Value)
    (fromPeerId : Key) : Option (Bool × GossipEngine) :=
  if message.nullish then none
  else
    match checkPuzzle runtime message with
    | none => none
    | some false => some (false, engine)
    | some true =>
      let (allowed, engine) := engine.checkLimit now fromPeerId
      if allowed = false then some (false, engine)
      else
        let (valid, engine) := engine.verifySignature runtime message
        if valid = false then some (false, engine)
        else
          (engine.updateClock runtime (message.property "lamportTimestamp")).map fun engine ↦
            let id := (message.property "id").key
            if id ∈ engine.seenMessages then (false, engine)
            else (true, { engine with seenMessages := insert id engine.seenMessages })

/-- The engine after a call, and whether the message is announced to the node. -/
def receiveMessage (runtime : Runtime) (now : ℕ) (engine : GossipEngine) (message : Value)
    (fromPeerId : Key) : Option (GossipEngine × Bool) :=
  match engine.screen runtime now message fromPeerId with
  | none => none
  | some (false, engine) => some (engine, false)
  | some (true, engine) =>
    if (message.property "type").key = .string "SUB_AD" then
      engine.processSubAd runtime now message fromPeerId
    else engine.processGossip message

end GossipEngine

end P2PApp.Node
