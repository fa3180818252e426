import Mathlib.Data.Finset.Basic
import Mathlib.Data.Int.Order.Basic

/-!
# Messages, the message factory and the Lamport clock

The canonical message of the protocol schema, the configuration constants, the factory that
stamps every message of a process with its private static counter, and the Lamport clock that
the gossip engine advances on reception. The factory counter and the Lamport clock are two
separate counters in the source, and they stay separate here.

A payload string is represented by what the handlers read from it: the text itself, or the
subscription advertisement that it serialises.
-/

namespace P2PApp

namespace Config

def GOSSIP_FANOUT : ℕ := 3
def MAX_TTL : ℤ := 10
def MAX_PEERS : ℕ := 50
def POW_DIFFICULTY : ℕ := 500
def RATE_LIMIT_CAPACITY : ℕ := 20
def RATE_LIMIT_REFILL_RATE : ℕ := 5
def ROUTE_LEASE_MS : ℕ := 30000
def MAX_RECONNECT_ATTEMPTS : ℕ := 5

end Config

inductive MessageType
  | chat
  | ack
  | heartbeat
  | peerExchange
  | peerList
  | syncBatch
  | syncAck
  | subAd
  | summary
  | hello
  deriving DecidableEq, Repr

inductive SubscriptionAction
  | join
  | leave
  /-- Any other string in the `action` field, on which the engine does nothing. -/
  | other (action : String)
  deriving DecidableEq, Repr

/-- A payload string, up to the parsing that its handlers do. -/
inductive Payload
  /-- A string that is not the serialisation of an advertisement. -/
  | text (content : String)
  /-- `JSON.stringify({ topic, sequenceNumber, action })`. -/
  | subAd (topic : String) (sequenceNumber : ℕ) (action : SubscriptionAction)
  deriving DecidableEq, Repr

structure P2PMessage where
  id : String
  type : MessageType
  ttl : ℤ
  lamportTimestamp : ℕ
  sender : String
  senderPublicKey : Option String
  topic : String
  payload : Payload
  createdAt : String
  powNonce : ℕ
  signature : Option String
  routingPath : Option (List String)
  deriving DecidableEq, Repr

/-- The fields covered by the originator's signature. -/
structure SignedFields where
  id : String
  type : MessageType
  sender : String
  topic : String
  payload : Payload
  deriving DecidableEq, Repr

def P2PMessage.signedFields (message : P2PMessage) : SignedFields where
  id := message.id
  type := message.type
  sender := message.sender
  topic := message.topic
  payload := message.payload

/-- What a process takes from outside its own logic: the proof-of-work backend, native or
JavaScript, and the detached signatures of the crypto library. -/
structure Platform where
  solvePuzzle : String → ℕ → ℕ
  verifyPuzzle : String → ℕ → ℕ → Bool
  sign : String → SignedFields → String
  verify : SignedFields → String → String → Bool

/-- A value that JavaScript treats as absent in a condition: missing, or the empty string. -/
def truthy (value : Option String) : Option String := value.filter (· ≠ "")

@[simp] theorem truthy_none : truthy none = none := rfl

theorem truthy_eq_some {value : Option String} {text : String} :
    truthy value = some text ↔ value = some text ∧ text ≠ "" := by
  simp [truthy, Option.filter_eq_some_iff]

namespace MessageFactory

structure Options where
  topic : Option String := none
  ttl : Option ℤ := none
  senderPublicKey : Option String := none

/-- One call advances the static counter of the process by one and stamps the message with the
new value; `id` and `createdAt` are the fresh identifier and the wall clock of the call. -/
def createBaseMessage (platform : Platform) (logicalClock : ℕ) (id createdAt : String)
    (type : MessageType) (sender : String) (payload : Payload) (options : Options) :
    P2PMessage × ℕ :=
  let logicalClock := logicalClock + 1
  ({ id
     type
     ttl := options.ttl.getD Config.MAX_TTL
     lamportTimestamp := logicalClock
     sender
     senderPublicKey := truthy options.senderPublicKey
     topic := options.topic.getD "global"
     payload
     createdAt
     powNonce := platform.solvePuzzle id Config.POW_DIFFICULTY
     signature := none
     routingPath := none }, logicalClock)

def createChat (platform : Platform) (logicalClock : ℕ) (id createdAt sender text topic : String)
    (senderPublicKey : Option String) : P2PMessage × ℕ :=
  createBaseMessage platform logicalClock id createdAt .chat sender (.text text)
    { topic := some topic, senderPublicKey }

def createSubAd (platform : Platform) (logicalClock : ℕ) (id createdAt sender topic : String)
    (sequenceNumber : ℕ) (action : SubscriptionAction) (path : List String)
    (senderPublicKey : Option String) : P2PMessage × ℕ :=
  let created := createBaseMessage platform logicalClock id createdAt .subAd sender
    (.subAd topic sequenceNumber action) { ttl := some Config.MAX_TTL, senderPublicKey }
  ({ created.1 with routingPath := some path }, created.2)

def createSummary (platform : Platform) (logicalClock : ℕ)
    (id createdAt sender topic summaryPayload : String) (senderPublicKey : Option String) :
    P2PMessage × ℕ :=
  createBaseMessage platform logicalClock id createdAt .summary sender (.text summaryPayload)
    { topic := some topic, senderPublicKey }

@[simp] theorem createBaseMessage_snd (platform : Platform) (logicalClock : ℕ)
    (id createdAt : String) (type : MessageType) (sender : String) (payload : Payload)
    (options : Options) :
    (createBaseMessage platform logicalClock id createdAt type sender payload options).2 =
      logicalClock + 1 := rfl

@[simp] theorem createBaseMessage_lamportTimestamp (platform : Platform) (logicalClock : ℕ)
    (id createdAt : String) (type : MessageType) (sender : String) (payload : Payload)
    (options : Options) :
    (createBaseMessage platform logicalClock id createdAt type sender payload
      options).1.lamportTimestamp = logicalClock + 1 := rfl

end MessageFactory

structure LamportClock where
  value : ℕ
  deriving DecidableEq, Repr

namespace LamportClock

def new : LamportClock := ⟨0⟩

def tick (clock : LamportClock) : LamportClock := ⟨clock.value + 1⟩

def update (clock : LamportClock) (receivedTime : ℕ) : LamportClock :=
  ⟨max clock.value receivedTime + 1⟩

theorem lt_update (clock : LamportClock) (receivedTime : ℕ) :
    clock.value < (clock.update receivedTime).value ∧
      receivedTime < (clock.update receivedTime).value := by
  simp only [update]
  omega

end LamportClock

end P2PApp
