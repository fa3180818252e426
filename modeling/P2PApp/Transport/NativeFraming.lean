import P2PApp.Library.Json

/-!
# Messages on a native connection

`NativeClient` and `NativePeerEmitter` write the text of each message to the socket and nothing
between two texts. On the other side the drain loop of an edge hands everything that has arrived to
one call of `JSON.parse`, and a payload that is not one text is dropped.

One connection is looked at, as long as it is open. Messages are objects with a property at least,
all of them having a type. The order of properties is the one of the text.
-/

namespace P2PApp.Transport.Framing

open JsonString Json Utf8

variable {N : Type} {numerals : Numerals N}

/-- A message that JSON carries. -/
structure Message (numerals : Numerals N) where
  fields : List (JSString × Json N)
  nonempty : fields ≠ []
  exact : Exact numerals (object fields)

namespace Message

def content (message : Message numerals) : Json N := object message.fields

def text (message : Message numerals) : JSString := stringify numerals message.content

/-- What `native.send` writes for the message. -/
def bytes (message : Message numerals) : List Byte := encode message.text

end Message

/-- The bytes on the connection after some messages. -/
def stream (messages : List (Message numerals)) : List Byte :=
  (messages.map Message.bytes).flatten

/-! ## The sending client -/

/-- What a client is constructed with. -/
structure LocalPeer (numerals : Numerals N) where
  localPeerId : JSString
  port : N
  localPublicKey : Option JSString
  named : localPeerId ≠ []
  exactPort : numerals.exact port = true

def LocalPeer.helloFields (self : LocalPeer numerals) (subscriptions : List JSString) :
    List (JSString × Json N) :=
  [(ascii "type", string (ascii "HELLO")), (ascii "peerId", string self.localPeerId),
    (ascii "port", number self.port)] ++
    (match self.localPublicKey with
      | none | some [] => []
      | some publicKey => [(ascii "publicKey", string publicKey)]) ++
    [(ascii "subscriptions", array (subscriptions.map string))]

theorem exactItems_map_string (texts : List JSString) :
    ExactItems numerals (texts.map string) := by
  induction texts with
  | nil => trivial
  | cons text rest ih => exact ⟨trivial, ih⟩

theorem LocalPeer.exact_helloFields (self : LocalPeer numerals) (subscriptions : List JSString) :
    Exact numerals (object (self.helloFields subscriptions)) := by
  have hsubscriptions := @exactItems_map_string N numerals subscriptions
  have hshort : [ascii "type", ascii "peerId", ascii "port", ascii "subscriptions"].Nodup := by
    decide
  have hlong : [ascii "type", ascii "peerId", ascii "port", ascii "publicKey",
      ascii "subscriptions"].Nodup := by decide
  unfold LocalPeer.helloFields
  split
  · exact ⟨hshort, trivial, trivial, self.exactPort, hsubscriptions, trivial⟩
  · exact ⟨hshort, trivial, trivial, self.exactPort, hsubscriptions, trivial⟩
  · exact ⟨hlong, trivial, trivial, self.exactPort, trivial, hsubscriptions, trivial⟩

/-- The message that a client sends as soon as it is connected. -/
def LocalPeer.hello (self : LocalPeer numerals) (subscriptions : List JSString) :
    Message numerals where
  fields := self.helloFields subscriptions
  nonempty := List.cons_ne_nil _ _
  exact := self.exact_helloFields subscriptions

structure NativeClient (numerals : Numerals N) extends LocalPeer numerals where
  isConnected : Bool
  messageQueue : List (Message numerals)

/-- A call of `send`, or the event `connected`, whose listeners may send messages. -/
inductive ClientStep (numerals : Numerals N)
  | send (message : Message numerals)
  | connected (subscriptions : List JSString) (answers : List (Message numerals))

namespace NativeClient

/-- The client after a step, and the messages that it writes. The queue is flushed behind the
messages of the listeners. -/
def step (client : NativeClient numerals) :
    ClientStep numerals → NativeClient numerals × List (Message numerals)
  | .send message =>
    if client.isConnected then (client, [message])
    else ({ client with messageQueue := client.messageQueue ++ [message] }, [])
  | .connected subscriptions answers =>
    ({ client with isConnected := true, messageQueue := [] },
      client.hello subscriptions :: (answers ++ client.messageQueue))

/-- The messages on the connection after some steps. -/
def written (client : NativeClient numerals) : List (ClientStep numerals) → List (Message numerals)
  | [] => []
  | first :: rest => (client.step first).2 ++ (client.step first).1.written rest

/-- A client before it is connected. -/
def new (self : LocalPeer numerals) : NativeClient numerals where
  toLocalPeer := self
  isConnected := false
  messageQueue := []

theorem written_of_connected {client : NativeClient numerals} (h : client.isConnected = true)
    (messages : List (Message numerals)) : client.written (messages.map .send) = messages := by
  induction messages with
  | nil => rfl
  | cons message rest ih =>
    rw [List.map_cons, written, step, if_pos h, ih, List.singleton_append]

theorem written_of_waiting {client : NativeClient numerals} (h : client.isConnected = false)
    (messages : List (Message numerals)) (steps : List (ClientStep numerals)) :
    client.written (messages.map .send ++ steps) =
      written { client with messageQueue := client.messageQueue ++ messages } steps := by
  induction messages generalizing client with
  | nil => rw [List.append_nil]; rfl
  | cons message rest ih =>
    rw [List.map_cons, List.cons_append, written, step, if_neg (by simp [h])]
    rw [List.nil_append, ih (by exact h), List.append_assoc, List.singleton_append]

/-- Every message of a connection is written once, behind the HELLO. -/
theorem written_new (self : LocalPeer numerals) (before answers after : List (Message numerals))
    (subscriptions : List JSString) :
    (new self).written (before.map .send ++ .connected subscriptions answers :: after.map .send) =
      self.hello subscriptions :: (answers ++ before ++ after) := by
  rw [written_of_waiting rfl, written, step]
  dsimp only
  rw [written_of_connected rfl]
  simp [new]

end NativeClient

/-! ## The drain loop -/

/-- The loop over the buffers that `recv` fills until it would block. -/
def drain (accumulated : List Byte) : List (List Byte) → List Byte
  | [] => accumulated
  | buffer :: rest => drain (accumulated ++ buffer) rest

/-- The payload that `DrainRead` hands over at one edge, if there is one. -/
def drainRead (buffers : List (List Byte)) : Option (List Byte) :=
  if (drain [] buffers).isEmpty then none else some (drain [] buffers)

/-- The payloads of a connection, whose edges have the given buffers. -/
def payloads (edges : List (List (List Byte))) : List (List Byte) := edges.filterMap drainRead

theorem drain_eq (accumulated : List Byte) (buffers : List (List Byte)) :
    drain accumulated buffers = accumulated ++ buffers.flatten := by
  induction buffers generalizing accumulated with
  | nil => simp [drain]
  | cons buffer rest ih => rw [drain, ih, List.flatten_cons, List.append_assoc]

theorem payloads_eq (edges : List (List (List Byte))) :
    payloads edges = (edges.map List.flatten).filter fun arrived ↦ !arrived.isEmpty := by
  induction edges with
  | nil => rfl
  | cons buffers rest ih =>
    have hdrain := drain_eq [] buffers
    rw [List.nil_append] at hdrain
    rw [payloads, List.filterMap_cons, drainRead, hdrain, List.map_cons, List.filter_cons, ← ih]
    cases buffers.flatten.isEmpty with
    | false => rfl
    | true => rfl

theorem ne_nil_of_mem_payloads {edges : List (List (List Byte))} {payload : List Byte}
    (h : payload ∈ payloads edges) : payload ≠ [] := by
  rw [payloads_eq, List.mem_filter] at h
  rintro rfl
  cases h.2

/-- The payloads are a cut of the bytes that arrive. -/
theorem flatten_payloads (edges : List (List (List Byte))) :
    (payloads edges).flatten = edges.flatten.flatten := by
  rw [payloads_eq, List.flatten_filter_not_isEmpty]
  exact List.flatten_flatten.symm

/-! ## The receivers -/

/-- The payload is decoded into a string, and the string is parsed. -/
def parsePayload (numerals : Numerals N) (payload : List Byte) : Option (Json N) :=
  parse numerals (decode payload)

namespace NativeClient

/-- The messages that a client emits. A payload that cannot be parsed is dropped. -/
def emitted (numerals : Numerals N) (payloads : List (List Byte)) : List (Json N) :=
  payloads.filterMap (parsePayload numerals)

end NativeClient

/-- Reading any property of the value throws. -/
def isNull : Json N → Bool
  | null => true
  | _ => false

/-- A property of a value other than `null`. -/
def property : Json N → JSString → Option (Json N)
  | object fields, name => fields.lookup name
  | _, _ => none

def truthy (numerals : Numerals N) : Json N → Bool
  | null => false
  | Json.bool value => value
  | number value => numerals.text value ≠ ascii "0"
  | string value => !value.isEmpty
  | array _ | object _ => true

/-- `parsed.type === 'HELLO' && parsed.peerId`. -/
def isHello (numerals : Numerals N) (parsed : Json N) : Bool :=
  (match property parsed (ascii "type") with
    | some (string text) => decide (text = ascii "HELLO")
    | _ => false) &&
  (property parsed (ascii "peerId")).any (truthy numerals)

/-- What a server emits: a connection with its HELLO, or a message of the peer. -/
inductive Event (N : Type)
  | connection (hello : Json N)
  | message (content : Json N)

/-- The peer of a descriptor: before its HELLO, after it, or not in the map any more. -/
inductive PeerState
  | waiting
  | handshaked
  | deleted

namespace NativeServer

/-- The data branch of `_onNativeEvent`, with `none` for an exception: before the HELLO, a property
of `null` may be read. -/
def onData (numerals : Numerals N) (peer : PeerState) (payload : List Byte) :
    Option (PeerState × List (Event N)) :=
  match peer with
  | .deleted => some (.deleted, [])
  | .waiting =>
    match parsePayload numerals payload with
    | none => some (.waiting, [])
    | some parsed =>
      if isNull parsed then none
      else if isHello numerals parsed then some (.handshaked, [.connection parsed])
      else some (.deleted, [])
  | .handshaked =>
    match parsePayload numerals payload with
    | none => some (.handshaked, [])
    | some parsed => some (.handshaked, [.message parsed])

/-- What the server emits for the payloads of a peer in a state, up to an exception. -/
def emittedFrom (numerals : Numerals N) : PeerState → List (List Byte) → List (Event N)
  | _, [] => []
  | peer, payload :: rest =>
    match onData numerals peer payload with
    | none => []
    | some (next, events) => events ++ emittedFrom numerals next rest

def emitted (numerals : Numerals N) (payloads : List (List Byte)) : List (Event N) :=
  emittedFrom numerals .waiting payloads

theorem emittedFrom_deleted (payloads : List (List Byte)) :
    emittedFrom numerals .deleted payloads = [] := by
  induction payloads with
  | nil => rfl
  | cons payload rest ih =>
    rw [emittedFrom, onData]
    exact ih

theorem emittedFrom_handshaked (payloads : List (List Byte)) :
    emittedFrom numerals .handshaked payloads =
      (NativeClient.emitted numerals payloads).map Event.message := by
  induction payloads with
  | nil => rfl
  | cons payload rest ih =>
    rw [emittedFrom, onData, NativeClient.emitted, List.filterMap_cons]
    cases parsePayload numerals payload with
    | none => exact ih
    | some parsed => exact congrArg (.message parsed :: ·) ih

/-- The server does with what a client would emit: the first message decides. -/
theorem emitted_eq (payloads : List (List Byte)) :
    emitted numerals payloads =
      match NativeClient.emitted numerals payloads with
      | [] => []
      | first :: rest =>
        if isHello numerals first then .connection first :: rest.map .message else [] := by
  unfold emitted
  induction payloads with
  | nil => rfl
  | cons payload rest ih =>
    rw [emittedFrom, onData, NativeClient.emitted, List.filterMap_cons]
    cases parsePayload numerals payload with
    | none => exact ih
    | some parsed =>
      dsimp only
      by_cases hhello : isHello numerals parsed = true
      · have hnull : isNull parsed = false := by
          cases parsed with
          | null => cases hhello
          | _ => rfl
        rw [hnull, if_neg Bool.false_ne_true, if_pos hhello, if_pos hhello]
        exact congrArg (.connection parsed :: ·) (emittedFrom_handshaked rest)
      · rw [if_neg hhello, if_neg hhello]
        split
        · rfl
        · rename_i heq
          split at heq
          · cases heq
          · cases heq
            exact emittedFrom_deleted rest

end NativeServer

theorem isHello_hello (self : LocalPeer numerals) (subscriptions : List JSString) :
    isHello numerals (self.hello subscriptions).content = true := by
  have htype : property (self.hello subscriptions).content (ascii "type") =
      some (string (ascii "HELLO")) := rfl
  have hpeerId : property (self.hello subscriptions).content (ascii "peerId") =
      some (string self.localPeerId) := rfl
  rw [isHello, htype, hpeerId]
  simp [truthy, self.named]

theorem emitted_eq_connection_iff {hello : Json N} (hhello : isHello numerals hello = true)
    (payloads : List (List Byte)) (contents : List (Json N)) :
    NativeServer.emitted numerals payloads = .connection hello :: contents.map .message ↔
      NativeClient.emitted numerals payloads = hello :: contents := by
  rw [NativeServer.emitted_eq]
  cases NativeClient.emitted numerals payloads with
  | nil => simp
  | cons first rest =>
    have hinjective : Function.Injective (@Event.message N) := fun _ _ h ↦ Event.message.inj h
    constructor
    · intro h
      dsimp only at h
      split at h
      · obtain ⟨hfirst, hrest⟩ := List.cons.inj h
        rw [Event.connection.inj hfirst, List.map_injective_iff.2 hinjective hrest]
      · cases h
    · intro h
      obtain ⟨rfl, rfl⟩ := List.cons.inj h
      exact if_pos hhello

end P2PApp.Transport.Framing
