import P2PApp.Library.JavaScript
import P2PApp.Library.OrderedMap

/-!
# Two servers behind one factory

`NativeServer` and `WSServer` each run a handshake of their own on every connection. `createServer`
returns one or the other and promises the same event API. Here a connection is driven frame by frame
through both of them, and what they write and emit is compared.

An exception is `none`; nothing catches it, so that the process ends. After `ws.close` the library
`ws` still hands over the frames that arrive before the closing handshake completes. Their number,
`late`, is a parameter, as it is up to the other side.
-/

namespace P2PApp.Transport

open JavaScript

/-- A frame that parses, with the subscriptions that `getLocalSubscriptions` returns when the frame
is handled. -/
structure Frame where
  content : Value
  localSubscriptions : List String

/-- What the server is constructed with. -/
structure LocalPeer where
  port : ℕ
  localPeerId : String
  localPublicKey : Option String

structure Hello where
  peerId : String
  port : ℕ
  publicKey : Option String
  subscriptions : List String

def LocalPeer.hello (self : LocalPeer) (frame : Frame) : Hello where
  peerId := self.localPeerId
  port := self.port
  publicKey := self.localPublicKey
  subscriptions := frame.localSubscriptions

/-- What a listener of `connection` reads from the emitted peer. -/
structure EmittedPeer where
  remotePeerId : Value
  subscriptions : Value

/-- A reply on the socket, an event of the server, or an event of the emitted peer. -/
inductive Output
  | reply (hello : Hello)
  | peerConnected (peerId publicKey : Value)
  | connection (peer : EmittedPeer)
  | messageReceived (message peerId : Value)
  | peerDisconnected (peerId : Value)
  | peerMessage (message : Value)
  | peerClose

namespace Output

/-- Not an event of the emitted peer. -/
def ofServer : Output → Bool
  | reply _ | peerConnected .. | connection _ | messageReceived .. | peerDisconnected _ => true
  | peerMessage _ | peerClose => false

@[simp] theorem filter_ofServer_cons (output : Output) (outputs : List Output) :
    (output :: outputs).filter ofServer =
      (if output.ofServer then [output] else []) ++ outputs.filter ofServer := by
  cases h : output.ofServer <;> simp [h]

/-- The output without the subscriptions of the emitted peer. -/
def eraseSubscriptions : Output → Output
  | connection peer => connection { peer with subscriptions := .undefined }
  | output => output

end Output

/-- The condition on a first frame, where it does not throw. -/
def isHello (parsed : Value) : Bool :=
  (parsed.property "type").same (.string "HELLO") && (parsed.property "peerId").truthy

/-! ## The native server -/

structure NativePeerEmitter where
  remotePeerId : Value
  handshaked : Bool

inductive NativeEvent
  | connect
  | data (frame : Frame)
  | close

structure NativeServer extends LocalPeer where
  peers : OrderedMap ℕ NativePeerEmitter

namespace NativeServer

def setPeer (server : NativeServer) (fd : ℕ) (peer : NativePeerEmitter) : NativeServer :=
  { server with peers := server.peers.set fd peer }

def deletePeer (server : NativeServer) (fd : ℕ) : NativeServer :=
  { server with peers := server.peers.erase fd }

/-- The handler `_onNativeEvent`. The emitted peer has no property `subscriptions`. -/
def onNativeEvent (server : NativeServer) (fd : ℕ) :
    NativeEvent → Option (NativeServer × List Output)
  | .connect => some (server.setPeer fd ⟨.null, false⟩, [])
  | .close =>
    match server.peers.get? fd with
    | none => some (server, [])
    | some peer =>
      some (server.deletePeer fd, .peerClose ::
        if peer.remotePeerId.truthy then [.peerDisconnected peer.remotePeerId] else [])
  | .data frame =>
    match server.peers.get? fd with
    | none => some (server, [])
    | some peer =>
      let parsed := frame.content
      if !peer.handshaked then
        if parsed.nullish then none
        else if isHello parsed then
          let peerId := parsed.property "peerId"
          some (server.setPeer fd ⟨peerId, true⟩,
            [.reply (server.hello frame), .peerConnected peerId (parsed.property "publicKey"),
              .connection ⟨peerId, .undefined⟩])
        else some (server.deletePeer fd, [])
      else some (server, [.peerMessage parsed, .messageReceived parsed peer.remotePeerId])

/-- The outputs of the events of one descriptor, up to the first exception. -/
def run (server : NativeServer) (fd : ℕ) : List NativeEvent → List Output
  | [] => []
  | event :: rest =>
    match server.onNativeEvent fd event with
    | none => []
    | some (next, outputs) => outputs ++ run next fd rest

/-- A connection from its acceptance to its close. -/
def connection (server : NativeServer) (fd : ℕ) (frames : List Frame) : List Output :=
  server.run fd (.connect :: (frames.map .data ++ [.close]))

end NativeServer

/-! ## The WebSocket server -/

/-- The variables that the handlers of one socket share, and whether the socket is open. -/
structure WSConnection where
  isHandshaked : Bool
  connectedPeerId : Value
  isOpen : Bool

namespace WSServer

def accepted : WSConnection := ⟨false, .null, true⟩

/-- What `ws.send` writes; it drops the frame when the socket is closing. -/
def send (connection : WSConnection) (hello : Hello) : List Output :=
  if connection.isOpen then [.reply hello] else []

/-- The expression `subscriptions || []`, the empty array having an identity of its own. -/
def subscriptionsOf (parsed : Value) (fresh : ℕ) : Value :=
  let subscriptions := parsed.property "subscriptions"
  if subscriptions.truthy then subscriptions else .array fresh []

/-- The listener of `message` on a socket. -/
def onMessage (self : LocalPeer) (fresh : ℕ) (connection : WSConnection) (frame : Frame) :
    Option (WSConnection × List Output) :=
  let parsed := frame.content
  if !connection.isHandshaked then
    if parsed.nullish then none
    else if isHello parsed then
      let peerId := parsed.property "peerId"
      some ({ connection with isHandshaked := true, connectedPeerId := peerId },
        send connection (self.hello frame) ++
          [.peerConnected peerId (parsed.property "publicKey"),
            .connection ⟨peerId, subscriptionsOf parsed fresh⟩])
    else some ({ connection with isOpen := false }, [])
  else
    some (connection, [.peerMessage parsed, .messageReceived parsed connection.connectedPeerId])

/-- The listeners of `close`: the second one is added by the handshake. -/
def onClose (connection : WSConnection) : List Output :=
  (if connection.connectedPeerId.truthy then [.peerDisconnected connection.connectedPeerId]
    else []) ++ if connection.isHandshaked then [.peerClose] else []

/-- The outputs of the frames and of the close of a socket, up to the first exception. -/
def run (self : LocalPeer) (fresh : ℕ) : ℕ → WSConnection → List Frame → List Output
  | _, connection, [] => onClose connection
  | late, connection, frame :: rest =>
    if !connection.isOpen && late = 0 then onClose connection
    else
      match onMessage self fresh connection frame with
      | none => []
      | some (next, outputs) =>
        outputs ++ run self fresh (if connection.isOpen then late else late - 1) next rest

/-- A connection from its acceptance to its close. -/
def connection (self : LocalPeer) (fresh late : ℕ) (frames : List Frame) : List Output :=
  run self fresh late accepted frames

end WSServer

/-! ## The conditions -/

/-- The connection opens with a valid handshake. -/
def OpensWithHello (frames : List Frame) : Prop :=
  ∃ first ∈ frames.head?, isHello first.content = true

/-- The first frame is rejected, and among those that the library still hands over there is a valid
handshake before anything that throws. -/
def LateHello (late : ℕ) : List Frame → Prop
  | [] => False
  | first :: rest =>
    first.content.nullish = false ∧ isHello first.content = false ∧
      ∃ frame ∈ (rest.take late).takeWhile fun frame ↦ !frame.content.nullish,
        isHello frame.content = true

/-- Both servers write the same replies and emit the same events with the same arguments. -/
def Indistinguishable (server : NativeServer) (fd fresh late : ℕ) (frames : List Frame) : Prop :=
  (server.connection fd frames).filter Output.ofServer =
    (WSServer.connection server.toLocalPeer fresh late frames).filter Output.ofServer

/-! ## What a connection outputs -/

/-- The outputs of the frames of a peer after its handshake. -/
def relayed (peerId : Value) (frames : List Frame) : List Output :=
  frames.flatMap fun frame ↦ [.peerMessage frame.content, .messageReceived frame.content peerId]

/-- The outputs of a handshake that succeeds. -/
def greeted (self : LocalPeer) (frame : Frame) (subscriptions : Value) : List Output :=
  [.reply (self.hello frame),
    .peerConnected (frame.content.property "peerId") (frame.content.property "publicKey"),
    .connection ⟨frame.content.property "peerId", subscriptions⟩]

theorem truthy_of_isHello {parsed : Value} (h : isHello parsed = true) :
    (parsed.property "peerId").truthy = true :=
  (Bool.and_eq_true_iff.1 h).2

theorem nullish_of_isHello {parsed : Value} (h : isHello parsed = true) :
    parsed.nullish = false := by
  cases parsed <;> first | rfl | exact absurd h (by decide)

namespace NativeServer

@[simp] theorem get?_setPeer (server : NativeServer) (fd : ℕ) (peer : NativePeerEmitter) :
    (server.setPeer fd peer).peers.get? fd = some peer :=
  OrderedMap.get?_set_self ..

@[simp] theorem get?_deletePeer (server : NativeServer) (fd : ℕ) :
    (server.deletePeer fd).peers.get? fd = none :=
  OrderedMap.get?_erase_self ..

variable {server : NativeServer} {fd : ℕ}

theorem run_of_unknown (h : server.peers.get? fd = none) (frames : List Frame) :
    server.run fd (frames.map .data ++ [.close]) = [] := by
  induction frames with
  | nil => simp [run, onNativeEvent, h]
  | cons frame rest ih => simpa [run, onNativeEvent, h] using ih

theorem run_of_handshaked {peerId : Value} (hpeerId : peerId.truthy = true)
    (h : server.peers.get? fd = some ⟨peerId, true⟩) (frames : List Frame) :
    server.run fd (frames.map .data ++ [.close]) =
      relayed peerId frames ++ [.peerClose, .peerDisconnected peerId] := by
  induction frames with
  | nil => simp [run, onNativeEvent, h, hpeerId, relayed]
  | cons frame rest ih =>
    have hrest := ih
    simp only [relayed] at hrest
    simp [run, onNativeEvent, h, relayed, hrest]

theorem connection_cons_of_isHello (server : NativeServer) (fd : ℕ) {first : Frame}
    (h : isHello first.content = true) (rest : List Frame) :
    server.connection fd (first :: rest) =
      greeted server.toLocalPeer first .undefined ++
        (relayed (first.content.property "peerId") rest ++
          [.peerClose, .peerDisconnected (first.content.property "peerId")]) := by
  rw [← run_of_handshaked
    (truthy_of_isHello h)
    (get?_setPeer (server.setPeer fd ⟨.null, false⟩) fd ⟨first.content.property "peerId", true⟩)]
  simp [connection, run, onNativeEvent, h, nullish_of_isHello h, greeted]
  rfl

/-- Nothing reaches the listeners of the server before a valid handshake, and a rejected descriptor
stays rejected. -/
theorem connection_of_not_opensWithHello (server : NativeServer) (fd : ℕ) {frames : List Frame}
    (h : ¬OpensWithHello frames) :
    (server.connection fd frames).filter Output.ofServer = [] := by
  cases frames with
  | nil => simp [connection, run, onNativeEvent, Output.ofServer, Value.truthy, Value.key,
      Key.truthy]
  | cons first rest =>
    have hfirst : isHello first.content = false := by simpa [OpensWithHello] using h
    by_cases hnullish : first.content.nullish = true
    · simp [connection, run, onNativeEvent, hnullish]
    · have hunknown := run_of_unknown (get?_deletePeer (server.setPeer fd ⟨.null, false⟩) fd) rest
      simp [connection, run, onNativeEvent, hnullish, hfirst, hunknown]

end NativeServer

namespace WSServer

variable {self : LocalPeer} {fresh late : ℕ}

theorem run_of_handshaked {peerId : Value} (hpeerId : peerId.truthy = true) (frames : List Frame) :
    run self fresh late ⟨true, peerId, true⟩ frames =
      relayed peerId frames ++ [.peerDisconnected peerId, .peerClose] := by
  induction frames with
  | nil => simp [run, onClose, hpeerId, relayed]
  | cons frame rest ih =>
    have hrest := ih
    simp only [relayed] at hrest
    simp [run, onMessage, relayed, hrest]

theorem connection_cons_of_isHello {first : Frame} (h : isHello first.content = true)
    (rest : List Frame) :
    connection self fresh late (first :: rest) =
      greeted self first (subscriptionsOf first.content fresh) ++
        (relayed (first.content.property "peerId") rest ++
          [.peerDisconnected (first.content.property "peerId"), .peerClose]) := by
  rw [← @run_of_handshaked self fresh late _ (truthy_of_isHello h)]
  simp [connection, accepted, run, onMessage, send, h, nullish_of_isHello h, greeted]

/-- A socket that is closing stays silent exactly until a valid handshake is handed over. -/
theorem run_of_rejected (self : LocalPeer) (fresh late : ℕ) (frames : List Frame) :
    (run self fresh late ⟨false, .null, false⟩ frames).filter Output.ofServer = [] ↔
      ¬∃ frame ∈ (frames.take late).takeWhile fun frame ↦ !frame.content.nullish,
        isHello frame.content = true := by
  induction frames generalizing late with
  | nil => simp [run, onClose, Value.truthy, Value.key, Key.truthy]
  | cons frame rest ih =>
    cases late with
    | zero => simp [run, onClose, Value.truthy, Value.key, Key.truthy]
    | succ late =>
      by_cases hnullish : frame.content.nullish = true
      · simp [run, onMessage, hnullish]
      · by_cases hhello : isHello frame.content = true
        · simp [run, onMessage, send, hnullish, hhello, Output.ofServer]
        · simpa [run, onMessage, hnullish, hhello] using ih late

theorem connection_of_not_opensWithHello (self : LocalPeer) (fresh late : ℕ) {frames : List Frame}
    (h : ¬OpensWithHello frames) :
    (connection self fresh late frames).filter Output.ofServer = [] ↔ ¬LateHello late frames := by
  cases frames with
  | nil => simp [connection, accepted, run, onClose, LateHello, Value.truthy, Value.key, Key.truthy]
  | cons first rest =>
    have hfirst : isHello first.content = false := by simpa [OpensWithHello] using h
    by_cases hnullish : first.content.nullish = true
    · simp [connection, accepted, run, onMessage, hnullish, LateHello]
    · have hrejected := run_of_rejected self fresh late rest
      simpa [connection, accepted, run, onMessage, hnullish, hfirst, LateHello] using hrejected

theorem subscriptionsOf_ne_undefined (parsed : Value) (fresh : ℕ) :
    subscriptionsOf parsed fresh ≠ .undefined := by
  unfold subscriptionsOf
  cases parsed.property "subscriptions" <;> grind [Value.truthy, Value.key, Key.truthy]

end WSServer

theorem opensWithHello_cases {frames : List Frame} (h : OpensWithHello frames) :
    ∃ first rest, frames = first :: rest ∧ isHello first.content = true := by
  cases frames with
  | nil => simp [OpensWithHello] at h
  | cons first rest => exact ⟨first, rest, rfl, by simpa [OpensWithHello] using h⟩

/-- Up to the subscriptions of the emitted peer, the two servers agree on every connection on which
no handshake follows a rejected frame. -/
theorem eraseSubscriptions_eq (server : NativeServer) (fd fresh : ℕ) {late : ℕ}
    {frames : List Frame} (h : ¬LateHello late frames) :
    ((server.connection fd frames).filter Output.ofServer).map Output.eraseSubscriptions =
      ((WSServer.connection server.toLocalPeer fresh late frames).filter Output.ofServer).map
        Output.eraseSubscriptions := by
  by_cases hopens : OpensWithHello frames
  · obtain ⟨first, rest, rfl, hhello⟩ := opensWithHello_cases hopens
    rw [server.connection_cons_of_isHello fd hhello, WSServer.connection_cons_of_isHello hhello]
    simp [greeted, Output.ofServer, Output.eraseSubscriptions]
  · rw [server.connection_of_not_opensWithHello fd hopens,
      (WSServer.connection_of_not_opensWithHello server.toLocalPeer fresh late hopens).2 h]

/-- The two servers are indistinguishable exactly on the connections on which no valid handshake is
handled, neither as the first frame nor, on the WebSocket server, after a rejected one. -/
theorem indistinguishable_iff (server : NativeServer) (fd fresh late : ℕ) (frames : List Frame) :
    Indistinguishable server fd fresh late frames ↔
      ¬OpensWithHello frames ∧ ¬LateHello late frames := by
  unfold Indistinguishable
  by_cases hopens : OpensWithHello frames
  · obtain ⟨first, rest, rfl, hhello⟩ := opensWithHello_cases hopens
    have hdiffer := (WSServer.subscriptionsOf_ne_undefined first.content fresh).symm
    rw [server.connection_cons_of_isHello fd hhello, WSServer.connection_cons_of_isHello hhello]
    simp [hopens, greeted, Output.ofServer, hdiffer]
  · rw [server.connection_of_not_opensWithHello fd hopens, eq_comm,
      WSServer.connection_of_not_opensWithHello server.toLocalPeer fresh late hopens]
    simp [hopens]

/-- The `HELLO` of a peer with one subscription, which the native server does not hand on. -/
theorem not_indistinguishable_bob :
    ¬∀ frames, Indistinguishable ⟨⟨8080, "alice", none⟩, ∅⟩ 5 0 0 frames := by
  intro h
  let hello : Frame := ⟨.object 1 [("type", .string "HELLO"), ("peerId", .string "bob"),
    ("subscriptions", .array 2 [.string "team-a"])], []⟩
  have hhello : isHello hello.content = true := by decide
  have hbob := h [hello]
  unfold Indistinguishable at hbob
  rw [NativeServer.connection_cons_of_isHello _ _ hhello,
    WSServer.connection_cons_of_isHello hhello] at hbob
  simp [greeted, Output.ofServer, hello, WSServer.subscriptionsOf, Value.property, List.lookup_cons,
    Value.truthy, Value.key, Key.truthy] at hbob

end P2PApp.Transport
