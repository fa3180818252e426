import P2PApp.Library.TransitionSystem
import P2PApp.Protocol.Message
import P2PApp.Transport.Handshake

/-!
# The queue of an outbound connection

A `WSClient` lives through many sockets. What is sent while none of them is open waits in a queue,
and is written behind the `HELLO` of the next socket that opens. A socket that closes schedules the
next attempt; a timer that was not the last one scheduled is never cleared.

The sockets and timers are numbered in the order of their creation. What was passed to `send` and
whether `disconnect` was called are ghosts.
-/

namespace P2PApp

namespace Config

def PORT : ℕ := 8080
def INITIAL_RECONNECT_DELAY_MS : ℕ := 1000
def MAX_RECONNECT_DELAY_MS : ℕ := 30000

end Config

namespace Outbound

open Transport (Hello)

inductive ReadyState
  | CONNECTING
  | OPEN
  | CLOSING
  | CLOSED
  deriving DecidableEq, Repr

inductive Frame (Message : Type*)
  | hello (hello : Hello)
  | message (content : Message)

namespace Frame

variable {Message : Type*}

def isHello : Frame Message → Bool
  | hello _ => true
  | message _ => false

def message? : Frame Message → Option Message
  | hello _ => none
  | message content => some content

end Frame

inductive Emitted
  | connected
  | disconnected
  | failed

structure WSClient (Message : Type*) where
  localPeerId : String
  localPublicKey : Option String
  ws : Option ℕ
  isConnected : Bool
  isClosedIntentionally : Bool
  reconnectAttempts : ℕ
  reconnectDelay : ℕ
  reconnectTimer : Option ℕ
  messageQueue : List Message

/-- A client with its sockets and timers. -/
structure Session (Message : Type*) where
  client : WSClient Message
  sockets : List ReadyState
  /-- The timers that have neither fired nor been cleared. -/
  timers : List ℕ
  timersSet : ℕ
  emitted : List Emitted
  /-- What the sockets took, in order. -/
  written : List (ℕ × Frame Message)
  sent : List Message
  disconnected : Bool

namespace Session

variable {Message : Type*}

def new (localPeerId : String) (localPublicKey : Option String) : Session Message where
  client :=
    { localPeerId, localPublicKey
      ws := none
      isConnected := false
      isClosedIntentionally := false
      reconnectAttempts := 0
      reconnectDelay := Config.INITIAL_RECONNECT_DELAY_MS
      reconnectTimer := none
      messageQueue := [] }
  sockets := []
  timers := []
  timersSet := 0
  emitted := []
  written := []
  sent := []
  disconnected := false

/-- The property `readyState` of a socket. -/
def stateOf (session : Session Message) (socket : ℕ) : Option ReadyState := session.sockets[socket]?

def emit (session : Session Message) (event : Emitted) : Session Message :=
  { session with emitted := session.emitted ++ [event] }

def setReadyState (session : Session Message) (socket : ℕ) (state : ReadyState) : Session Message :=
  { session with sockets := session.sockets.set socket state }

def setQueue (session : Session Message) (messageQueue : List Message) : Session Message :=
  { session with client := { session.client with messageQueue } }

def enqueue (session : Session Message) (message : Message) : Session Message :=
  session.setQueue (session.client.messageQueue ++ [message])

/-- The socket takes the frames. -/
def write (session : Session Message) (socket : ℕ) (frames : List (Frame Message)) :
    Session Message :=
  { session with written := session.written ++ frames.map (socket, ·) }

/-- `ws.send`, which throws while the socket is connecting and drops the frame after it is open. -/
def wsSend (session : Session Message) (socket : ℕ) (frame : Frame Message) :
    Option (Session Message) :=
  match session.stateOf socket with
  | some .OPEN => some (session.write socket [frame])
  | some .CONNECTING => none
  | _ => some session

/-! ## The methods of the client -/

def connect (session : Session Message) : Session Message :=
  match session.client.ws.bind session.stateOf with
  | some .CONNECTING | some .OPEN => session
  | _ =>
    { session with
      client :=
        { session.client with
          isClosedIntentionally := false
          ws := some session.sockets.length }
      sockets := session.sockets ++ [.CONNECTING] }

/-- Reading the state of a socket that is `null` throws. -/
def send (session : Session Message) (message : Message) : Option (Session Message) :=
  if !session.client.isConnected then some (session.enqueue message)
  else
    session.client.ws.bind fun socket ↦
      if session.stateOf socket ≠ some .OPEN then some (session.enqueue message)
      else session.wsSend socket (.message message)

/-- The loop of `#flushQueue`, the rest of the queue being the last argument. -/
def flushLoop (session : Session Message) (socket : ℕ) : List Message → Option (Session Message)
  | [] => some (session.setQueue [])
  | message :: rest =>
    if session.client.isConnected ∧ session.stateOf socket = some .OPEN then
      (session.wsSend socket (.message message)).bind fun next ↦ next.flushLoop socket rest
    else some (session.setQueue (message :: rest))

def flushQueue (session : Session Message) (socket : ℕ) : Option (Session Message) :=
  session.flushLoop socket session.client.messageQueue

/-- The subscriptions are what `getLocalSubscriptions` returns. -/
def helloMsg (session : Session Message) (subscriptions : List String) : Hello where
  peerId := session.client.localPeerId
  port := Config.PORT
  publicKey := truthy session.client.localPublicKey
  subscriptions := subscriptions

def setConnected (session : Session Message) : Session Message :=
  { session with
    client :=
      { session.client with
        isConnected := true
        reconnectAttempts := 0
        reconnectDelay := Config.INITIAL_RECONNECT_DELAY_MS } }

/-- The listener of `open`. -/
def onOpen (session : Session Message) (subscriptions : List String) : Option (Session Message) :=
  session.client.ws.bind fun socket ↦
    (session.setConnected.wsSend socket (.hello (session.helloMsg subscriptions))).bind
      fun greeted ↦ (greeted.emit .connected).flushQueue socket

def handleReconnect (session : Session Message) : Session Message :=
  if session.client.isClosedIntentionally then session
  else if Config.MAX_RECONNECT_ATTEMPTS ≤ session.client.reconnectAttempts then
    session.emit .failed
  else
    { session with
      client :=
        { session.client with
          reconnectAttempts := session.client.reconnectAttempts + 1
          reconnectTimer := some session.timersSet
          reconnectDelay :=
            min (session.client.reconnectDelay * 2) Config.MAX_RECONNECT_DELAY_MS }
      timers := session.timers ++ [session.timersSet]
      timersSet := session.timersSet + 1 }

/-- The listener of `close`. -/
def onClose (session : Session Message) : Session Message :=
  (({ session with client := { session.client with isConnected := false } } :
    Session Message).emit .disconnected).handleReconnect

/-- `ws.close`, which does nothing to a socket that is closing. -/
def wsClose (session : Session Message) (socket : ℕ) : Session Message :=
  match session.stateOf socket with
  | some .CONNECTING | some .OPEN => session.setReadyState socket .CLOSING
  | _ => session

def disconnect (session : Session Message) : Session Message :=
  let closed := session.client.ws.elim session session.wsClose
  { closed with
    client :=
      { session.client with
        ws := none
        isClosedIntentionally := true
        reconnectTimer := none
        messageQueue := [] }
    timers := session.timers.filter fun timer ↦ session.client.reconnectTimer ≠ some timer
    disconnected := true }

/-! ## Runs -/

inductive Event (Message : Type*)
  | send (message : Message)
  | connect
  /-- A socket opens. -/
  | opened (socket : ℕ) (subscriptions : List String)
  /-- The other side closes a socket, or it fails; `close` is not emitted yet. -/
  | closing (socket : ℕ)
  | closed (socket : ℕ)
  | timer (timer : ℕ)
  | disconnect

/-- The socket is open or can still open. -/
def Alive (session : Session Message) (socket : ℕ) : Prop :=
  session.stateOf socket = some .CONNECTING ∨ session.stateOf socket = some .OPEN

instance (session : Session Message) : DecidablePred session.Alive := fun _ ↦
  inferInstanceAs (Decidable (_ ∨ _))

/-- What can happen; nothing is sent any more after `disconnect`. -/
def Enabled (session : Session Message) : Event Message → Prop
  | .send _ => session.disconnected = false
  | .opened socket _ => session.stateOf socket = some .CONNECTING
  | .closing socket => session.Alive socket
  | .closed socket =>
    socket < session.sockets.length ∧ session.stateOf socket ≠ some .CLOSED
  | .timer timer => timer ∈ session.timers
  | .connect | .disconnect => True

instance (session : Session Message) : DecidablePred session.Enabled := fun event ↦
  match event with
  | .send _ => inferInstanceAs (Decidable (session.disconnected = false))
  | .opened socket _ => inferInstanceAs (Decidable (session.stateOf socket = some .CONNECTING))
  | .closing socket => inferInstanceAs (Decidable (session.Alive socket))
  | .closed socket => inferInstanceAs (Decidable
      (socket < session.sockets.length ∧ session.stateOf socket ≠ some .CLOSED))
  | .timer timer => inferInstanceAs (Decidable (timer ∈ session.timers))
  | .connect | .disconnect => inferInstanceAs (Decidable True)

/-- What an event does; `none` is an exception. -/
def next (session : Session Message) : Event Message → Option (Session Message)
  | .send message =>
    ({ session with sent := session.sent ++ [message] } : Session Message).send message
  | .connect => some session.connect
  | .opened socket subscriptions => (session.setReadyState socket .OPEN).onOpen subscriptions
  | .closing socket => some (session.setReadyState socket .CLOSING)
  | .closed socket => some (session.setReadyState socket .CLOSED).onClose
  | .timer timer =>
    some ({ session with timers := session.timers.erase timer } : Session Message).connect
  | .disconnect => some session.disconnect

def system : TransitionSystem (Session Message) (Event Message) :=
  .ofPartial fun session event ↦ if session.Enabled event then session.next event else none

/-- The frames of one socket. -/
def framesOn (session : Session Message) (socket : ℕ) : List (Frame Message) :=
  session.written.filterMap fun entry ↦ if entry.1 = socket then some entry.2 else none

/-- The frames of all sockets other than the greetings. -/
def messages (session : Session Message) : List Message :=
  session.written.filterMap fun entry ↦ entry.2.message?

/-- The socket of the client is open. -/
def IsOpen (session : Session Message) : Prop :=
  ∃ socket ∈ session.client.ws, session.stateOf socket = some .OPEN

/-! ## What the methods do -/

variable {session : Session Message} {socket : ℕ}

theorem wsSend_of_open (h : session.stateOf socket = some .OPEN) (frame : Frame Message) :
    session.wsSend socket frame = some (session.write socket [frame]) := by
  rw [wsSend, h]

theorem write_write (left right : List (Frame Message)) :
    (session.write socket left).write socket right = session.write socket (left ++ right) := by
  simp only [write, List.map_append, List.append_assoc]

/-- On an open socket all of the queue is written. -/
theorem flushLoop_of_open (hconnected : session.client.isConnected = true)
    (hopen : session.stateOf socket = some .OPEN) (queue : List Message) :
    session.flushLoop socket queue =
      some ((session.write socket (queue.map .message)).setQueue []) := by
  induction queue generalizing session with
  | nil => simp [flushLoop, write]
  | cons message rest ih =>
    have hrest := @ih (session.write socket [.message message]) hconnected hopen
    rw [flushLoop, if_pos ⟨hconnected, hopen⟩, wsSend_of_open hopen, Option.bind_some, hrest,
      write_write]
    rfl

/-- A client that is told that its socket is open greets and empties its queue. -/
theorem onOpen_of_open (hws : session.client.ws = some socket)
    (hopen : session.stateOf socket = some .OPEN) (subscriptions : List String) :
    session.onOpen subscriptions =
      some (((session.setConnected.emit .connected).write socket
        (.hello (session.helloMsg subscriptions) ::
          session.client.messageQueue.map .message)).setQueue []) := by
  have hflush := @flushLoop_of_open _ ((session.setConnected.write socket
    [.hello (session.helloMsg subscriptions)]).emit .connected) socket rfl hopen
    session.client.messageQueue
  rw [onOpen, hws, Option.bind_some, @wsSend_of_open _ session.setConnected socket hopen,
    Option.bind_some]
  refine hflush.trans ?_
  simp only [write, setConnected, emit, setQueue, List.map_cons, List.map_nil, List.append_assoc,
    List.singleton_append]

/-- A message is put into the queue, or written if the socket is open. -/
theorem send_cases {message : Message} {next : Session Message}
    (h : session.send message = some next) :
    (next = session.enqueue message ∧ ¬(session.client.isConnected = true ∧ session.IsOpen)) ∨
      ∃ socket, session.client.ws = some socket ∧ session.stateOf socket = some .OPEN ∧
        session.client.isConnected = true ∧ next = session.write socket [.message message] := by
  unfold send at h
  cases hconnected : session.client.isConnected with
  | false =>
    rw [hconnected] at h
    exact .inl ⟨(Option.some.inj h).symm, by simp⟩
  | true =>
    rw [hconnected] at h
    obtain ⟨socket, hws, hsocket⟩ := Option.bind_eq_some_iff.1 h
    by_cases hopen : session.stateOf socket = some .OPEN
    · rw [if_neg (not_not.2 hopen), wsSend_of_open hopen] at hsocket
      exact .inr ⟨socket, hws, hopen, rfl, (Option.some.inj hsocket).symm⟩
    · rw [if_pos hopen] at hsocket
      refine .inl ⟨(Option.some.inj hsocket).symm, ?_⟩
      rintro ⟨-, other, hother, hotherOpen⟩
      rw [Option.mem_def, hws] at hother
      cases hother
      exact hopen hotherOpen

theorem isSome_send {message : Message}
    (h : session.client.isConnected = true → session.client.ws ≠ none) :
    (session.send message).isSome = true := by
  unfold send
  cases hconnected : session.client.isConnected with
  | false => rfl
  | true =>
    obtain ⟨socket, hws⟩ := Option.ne_none_iff_exists'.1 (h hconnected)
    rw [hws]
    by_cases hopen : session.stateOf socket = some .OPEN
    · simp [hopen, wsSend_of_open hopen]
    · simp [hopen]

/-- A client makes a new socket unless it has one that is alive. -/
theorem connect_cases (session : Session Message) :
    session.connect = session ∨
      (∀ socket, session.client.ws = some socket → ¬session.Alive socket) ∧
        session.connect =
          { session with
            client :=
              { session.client with
                isClosedIntentionally := false
                ws := some session.sockets.length }
            sockets := session.sockets ++ [.CONNECTING] } := by
  unfold connect
  split
  · exact .inl rfl
  · exact .inl rfl
  · rename_i hconnecting hopen
    refine .inr ⟨fun socket hws halive ↦ ?_, rfl⟩
    rw [hws, Option.bind_some] at hconnecting hopen
    rcases halive with halive | halive
    · exact hconnecting halive
    · exact hopen halive

/-- A client whose socket has closed is offline, and may have scheduled a reconnection. -/
theorem onClose_cases (session : Session Message) :
    ∃ client timers timersSet emitted,
      session.onClose = { session with client, timers, timersSet, emitted } ∧
        client.ws = session.client.ws ∧ client.messageQueue = session.client.messageQueue ∧
        client.isConnected = false := by
  unfold onClose handleReconnect
  split_ifs
  · exact ⟨_, _, _, _, rfl, rfl, rfl, rfl⟩
  · exact ⟨_, _, _, _, rfl, rfl, rfl, rfl⟩
  · exact ⟨_, _, _, _, rfl, rfl, rfl, rfl⟩

@[simp] theorem framesOn_write (socket other : ℕ) (frames : List (Frame Message)) :
    (session.write socket frames).framesOn other =
      session.framesOn other ++ if socket = other then frames else [] := by
  rw [framesOn, write, List.filterMap_append, List.filterMap_map]
  congr 1
  by_cases h : socket = other
  · simp [h]
  · simp [h]

@[simp] theorem messages_write (socket : ℕ) (frames : List (Frame Message)) :
    (session.write socket frames).messages =
      session.messages ++ frames.filterMap Frame.message? := by
  rw [messages, write, List.filterMap_append, List.filterMap_map]
  rfl

theorem filterMap_message (queue : List Message) :
    (queue.map Frame.message).filterMap Frame.message? = queue := by
  rw [List.filterMap_map]
  exact List.filterMap_some

@[simp] theorem stateOf_write (socket other : ℕ) (frames : List (Frame Message)) :
    (session.write socket frames).stateOf other = session.stateOf other := rfl

theorem stateOf_setReadyState (socket other : ℕ) (state : ReadyState) :
    (session.setReadyState socket state).stateOf other =
      if socket = other then (session.stateOf other).map fun _ ↦ state
      else session.stateOf other :=
  List.getElem?_set'

/-! ## Every socket is greeted first -/

/-- Only the socket of the client is alive, and what is open was greeted. -/
structure Greets (session : Session Message) : Prop where
  current : ∀ socket, session.Alive socket → session.client.ws = some socket
  silent : ∀ socket, session.stateOf socket = none ∨
    session.stateOf socket = some .CONNECTING → session.framesOn socket = []
  greeted : ∀ socket, session.stateOf socket = some .OPEN → session.framesOn socket ≠ []
  hello : ∀ socket, ∀ frame ∈ (session.framesOn socket).head?, frame.isHello = true

theorem greets_new (localPeerId : String) (localPublicKey : Option String) :
    (new localPeerId localPublicKey : Session Message).Greets where
  current := fun _ h ↦ by rcases h with h | h <;> cases h
  silent := fun _ _ ↦ rfl
  greeted := fun _ h ↦ by cases h
  hello := fun _ _ h ↦ by cases h

/-- Sockets can go out of life, and the client can let go of one that is not alive. -/
theorem Greets.close (h : session.Greets) {next : Session Message}
    (hstate : ∀ socket, next.stateOf socket = session.stateOf socket ∨
      ∃ state, next.stateOf socket = some state ∧ state ≠ .CONNECTING ∧ state ≠ .OPEN)
    (hws : ∀ socket, next.Alive socket → next.client.ws = session.client.ws)
    (hwritten : next.written = session.written) : next.Greets := by
  have hframes (socket : ℕ) : next.framesOn socket = session.framesOn socket := by
    rw [framesOn, hwritten, framesOn]
  refine ⟨?_, ?_, ?_, ?_⟩
  · intro socket halive
    rw [hws socket halive]
    rcases hstate socket with hsame | ⟨state, hdead, hconnecting, hopen⟩
    · rw [Alive, hsame] at halive
      exact h.current socket halive
    · rw [Alive, hdead] at halive
      rcases halive with heq | heq
      · exact absurd (Option.some.inj heq) hconnecting
      · exact absurd (Option.some.inj heq) hopen
  · intro socket hsocket
    rw [hframes]
    rcases hstate socket with hsame | ⟨state, hdead, hconnecting, -⟩
    · rw [hsame] at hsocket
      exact h.silent socket hsocket
    · rw [hdead] at hsocket
      rcases hsocket with heq | heq
      · cases heq
      · exact absurd (Option.some.inj heq) hconnecting
  · intro socket hsocket
    rw [hframes]
    rcases hstate socket with hsame | ⟨state, hdead, -, hopen⟩
    · rw [hsame] at hsocket
      exact h.greeted socket hsocket
    · rw [hdead] at hsocket
      exact absurd (Option.some.inj hsocket) hopen
  · intro socket
    rw [hframes]
    exact h.hello socket

theorem Greets.congr (h : session.Greets) {next : Session Message}
    (hsockets : next.sockets = session.sockets) (hws : next.client.ws = session.client.ws)
    (hwritten : next.written = session.written) : next.Greets :=
  h.close (fun socket ↦ .inl (by rw [stateOf, hsockets, stateOf])) (fun _ _ ↦ hws) hwritten

theorem Greets.write (h : session.Greets) (hopen : session.stateOf socket = some .OPEN)
    (frames : List (Frame Message)) : (session.write socket frames).Greets where
  current := h.current
  silent := by
    intro other hother
    rw [stateOf_write] at hother
    have hne : ¬socket = other := by
      rintro rfl
      rcases hother with hother | hother <;> cases hopen.symm.trans hother
    rw [framesOn_write, if_neg hne, List.append_nil]
    exact h.silent other hother
  greeted := by
    intro other hother
    rw [framesOn_write]
    exact List.append_ne_nil_of_left_ne_nil (h.greeted other hother) _
  hello := by
    intro other frame hframe
    rw [framesOn_write] at hframe
    by_cases heq : socket = other
    · subst heq
      rw [List.head?_append_of_ne_nil _ (h.greeted socket hopen)] at hframe
      exact h.hello socket frame hframe
    · rw [if_neg heq, List.append_nil] at hframe
      exact h.hello other frame hframe

theorem Greets.connect (h : session.Greets) : session.connect.Greets := by
  rcases session.connect_cases with heq | ⟨hdead, heq⟩
  · rwa [heq]
  have hstate (socket : ℕ) : session.connect.stateOf socket =
      if socket = session.sockets.length then some .CONNECTING else session.stateOf socket := by
    rw [heq, stateOf, List.getElem?_append, stateOf]
    rcases lt_trichotomy socket session.sockets.length with hlt | hsame | hgt
    · rw [if_pos hlt, if_neg hlt.ne]
    · simp [hsame]
    · rw [if_neg (by omega), if_neg (by omega), List.getElem?_eq_none (by simp; omega),
        List.getElem?_eq_none (by omega)]
  have hwritten : session.connect.written = session.written := by rw [heq]
  have hframes (socket : ℕ) : session.connect.framesOn socket = session.framesOn socket := by
    rw [framesOn, hwritten, framesOn]
  refine ⟨?_, ?_, ?_, ?_⟩
  · intro socket halive
    rw [Alive, hstate] at halive
    by_cases hnew : socket = session.sockets.length
    · rw [heq, hnew]
    · rw [if_neg hnew] at halive
      exact absurd halive (hdead socket (h.current socket halive))
  · intro socket hsocket
    rw [hframes]
    rw [hstate] at hsocket
    by_cases hnew : socket = session.sockets.length
    · exact h.silent socket (.inl (List.getElem?_eq_none hnew.ge))
    · rw [if_neg hnew] at hsocket
      exact h.silent socket hsocket
  · intro socket hsocket
    rw [hframes]
    rw [hstate] at hsocket
    by_cases hnew : socket = session.sockets.length
    · rw [if_pos hnew] at hsocket
      cases hsocket
    · rw [if_neg hnew] at hsocket
      exact h.greeted socket hsocket
  · intro socket
    rw [hframes]
    exact h.hello socket

/-- The socket that opens is greeted. -/
theorem Greets.opened (h : session.Greets)
    (hconnecting : session.stateOf socket = some .CONNECTING) (hello : Hello)
    (queue : List Message) :
    ((session.setReadyState socket .OPEN).write socket
      (.hello hello :: queue.map .message)).Greets := by
  have hsilent : session.framesOn socket = [] := h.silent socket (.inr hconnecting)
  have hframes (other : ℕ) : ((session.setReadyState socket .OPEN).write socket
      (.hello hello :: queue.map .message)).framesOn other =
        session.framesOn other ++ if socket = other then .hello hello :: queue.map .message
          else [] := framesOn_write ..
  refine ⟨?_, ?_, ?_, ?_⟩
  · intro other halive
    rw [Alive, stateOf_write, stateOf_setReadyState] at halive
    by_cases heq : socket = other
    · exact heq ▸ h.current socket (.inl hconnecting)
    · rw [if_neg heq] at halive
      exact h.current other halive
  · intro other hother
    rw [stateOf_write, stateOf_setReadyState] at hother
    by_cases heq : socket = other
    · subst heq
      rw [if_pos rfl, hconnecting] at hother
      rcases hother with hother | hother <;> cases hother
    · rw [if_neg heq] at hother
      rw [hframes, if_neg heq, List.append_nil]
      exact h.silent other hother
  · intro other hother
    rw [stateOf_write, stateOf_setReadyState] at hother
    rw [hframes]
    by_cases heq : socket = other
    · simp [heq]
    · rw [if_neg heq] at hother
      exact List.append_ne_nil_of_left_ne_nil (h.greeted other hother) _
  · intro other frame hframe
    rw [hframes] at hframe
    by_cases heq : socket = other
    · subst heq
      rw [if_pos rfl, hsilent] at hframe
      cases hframe
      rfl
    · rw [if_neg heq, List.append_nil] at hframe
      exact h.hello other frame hframe

theorem Greets.setReadyState (h : session.Greets) (socket : ℕ) {state : ReadyState}
    (hconnecting : state ≠ .CONNECTING) (hopen : state ≠ .OPEN) :
    (session.setReadyState socket state).Greets := by
  refine h.close (fun other ↦ ?_) (fun _ _ ↦ rfl) rfl
  rw [stateOf_setReadyState]
  by_cases heq : socket = other
  · cases hother : session.stateOf other with
    | none => simp
    | some before => exact .inr ⟨state, by simp [heq], hconnecting, hopen⟩
  · exact .inl (if_neg heq)

theorem stateOf_wsClose (socket other : ℕ) :
    (session.wsClose socket).stateOf other =
      if socket = other ∧ session.Alive other then some .CLOSING else session.stateOf other := by
  by_cases halive : session.Alive socket
  · have hclose : session.wsClose socket = session.setReadyState socket .CLOSING := by
      unfold wsClose
      rcases halive with hstate | hstate <;> rw [hstate]
    rw [hclose, stateOf_setReadyState]
    by_cases heq : socket = other
    · subst heq
      rw [if_pos rfl, if_pos ⟨rfl, halive⟩]
      rcases halive with hstate | hstate <;> rw [hstate] <;> rfl
    · rw [if_neg heq, if_neg fun h ↦ heq h.1]
  · have hkeep : session.wsClose socket = session := by
      unfold wsClose
      split
      · rename_i hstate
        exact absurd (.inl hstate) halive
      · rename_i hstate
        exact absurd (.inr hstate) halive
      · rfl
    refine (congrArg (·.stateOf other) hkeep).trans (if_neg ?_).symm
    rintro ⟨rfl, hother⟩
    exact halive hother

theorem written_wsClose (socket : ℕ) : (session.wsClose socket).written = session.written := by
  unfold wsClose
  split <;> rfl

theorem sent_wsClose (socket : ℕ) : (session.wsClose socket).sent = session.sent := by
  unfold wsClose
  split <;> rfl

theorem stateOf_disconnect (other : ℕ) :
    session.disconnect.stateOf other =
      if session.client.ws = some other ∧ session.Alive other then some .CLOSING
      else session.stateOf other := by
  unfold disconnect
  cases session.client.ws with
  | none => simp [stateOf]
  | some socket =>
    simp only [Option.some_inj]
    exact stateOf_wsClose socket other

theorem written_disconnect (session : Session Message) :
    session.disconnect.written = session.written := by
  unfold disconnect
  cases session.client.ws with
  | none => rfl
  | some socket => exact written_wsClose socket

theorem sent_disconnect (session : Session Message) :
    session.disconnect.sent = session.sent := by
  unfold disconnect
  cases session.client.ws with
  | none => rfl
  | some socket => exact sent_wsClose socket

theorem Greets.disconnect (h : session.Greets) : session.disconnect.Greets := by
  refine h.close (fun socket ↦ ?_) (fun socket halive ↦ ?_) ?_
  · rw [stateOf_disconnect]
    split
    · exact .inr ⟨.CLOSING, rfl, by simp, by simp⟩
    · exact .inl rfl
  · rw [Alive, stateOf_disconnect] at halive
    split at halive
    · rcases halive with hstate | hstate <;> cases hstate
    · rename_i hclosed
      exact absurd ⟨h.current socket halive, halive⟩ hclosed
  · exact session.written_disconnect

/-- A socket that opens is that of the client. -/
theorem Greets.next_opened (h : session.Greets)
    (hconnecting : session.stateOf socket = some .CONNECTING) (subscriptions : List String) :
    session.next (.opened socket subscriptions) =
      some ((((session.setReadyState socket .OPEN).setConnected.emit .connected).write socket
        (.hello (session.helloMsg subscriptions) ::
          session.client.messageQueue.map .message)).setQueue []) := by
  have hws : (session.setReadyState socket .OPEN).client.ws = some socket :=
    h.current socket (.inl hconnecting)
  have hopen : (session.setReadyState socket .OPEN).stateOf socket = some .OPEN := by
    rw [stateOf_setReadyState, if_pos rfl, hconnecting, Option.map_some]
  exact onOpen_of_open hws hopen subscriptions

/-- Everything that can happen leaves all open sockets greeted. -/
theorem Greets.next (h : session.Greets) {event : Event Message} {next : Session Message}
    (henabled : session.Enabled event) (hnext : session.next event = some next) : next.Greets := by
  cases event with
  | send message =>
    have hsent : ({ session with sent := session.sent ++ [message] } : Session Message).Greets :=
      h.congr rfl rfl rfl
    rcases send_cases hnext with ⟨rfl, -⟩ | ⟨socket, -, hopen, -, rfl⟩
    · exact hsent.congr rfl rfl rfl
    · exact hsent.write hopen _
  | connect =>
    cases hnext
    exact h.connect
  | opened socket subscriptions =>
    cases (h.next_opened henabled subscriptions).symm.trans hnext
    exact (h.opened henabled _ _).congr rfl rfl rfl
  | closing socket =>
    cases hnext
    exact h.setReadyState socket (by simp) (by simp)
  | closed socket =>
    cases hnext
    have hclosed := @Greets.setReadyState _ _ h socket .CLOSED (by simp) (by simp)
    obtain ⟨client, timers, timersSet, emitted, heq, hws, -, -⟩ :=
      (session.setReadyState socket .CLOSED).onClose_cases
    rw [heq]
    exact hclosed.congr rfl hws rfl
  | timer timer =>
    cases hnext
    have htimers : ({ session with timers := session.timers.erase timer } :
      Session Message).Greets := h.congr rfl rfl rfl
    exact htimers.connect
  | disconnect =>
    cases hnext
    exact h.disconnect

/-! ## The queue is kept -/

/-- What was sent and not written waits in the queue, and nothing waits behind an open socket. -/
structure Keeps (session : Session Message) : Prop where
  attached : session.client.isConnected = true → session.disconnected = false →
    session.client.ws ≠ none
  drained : session.client.isConnected = true → session.IsOpen → session.client.messageQueue = []
  kept : session.disconnected = false →
    session.sent = session.messages ++ session.client.messageQueue
  dropped : session.disconnected = true →
    session.client.messageQueue = [] ∧ session.messages <+: session.sent

theorem keeps_new (localPeerId : String) (localPublicKey : Option String) :
    (new localPeerId localPublicKey : Session Message).Keeps where
  attached := fun h ↦ by cases h
  drained := fun h ↦ by cases h
  kept := fun _ ↦ rfl
  dropped := fun h ↦ by cases h

theorem Keeps.connect (h : session.Keeps) : session.connect.Keeps := by
  rcases session.connect_cases with heq | ⟨-, heq⟩
  · rwa [heq]
  rw [heq]
  refine ⟨fun _ _ ↦ by simp, ?_, h.kept, h.dropped⟩
  rintro - ⟨socket, hsocket, hopen⟩
  cases hsocket
  simp [stateOf] at hopen

/-- A message is added at the end of what was sent and of what is written or waits. -/
theorem Keeps.send (h : session.Keeps) {message : Message} {next : Session Message}
    (hused : session.disconnected = false)
    (hnext : session.next (.send message) = some next) : next.Keeps := by
  have hsent : session.sent = session.messages ++ session.client.messageQueue := h.kept hused
  rcases send_cases hnext with ⟨rfl, hclosed⟩ | ⟨socket, hws, hopen, hconnected, rfl⟩
  · refine ⟨h.attached, ?_, fun _ ↦ ?_, fun habsurd ↦ ?_⟩
    · intro hconnected hopen
      exact absurd ⟨hconnected, hopen⟩ hclosed
    · calc session.sent ++ [message]
          = session.messages ++ session.client.messageQueue ++ [message] := by rw [hsent]
        _ = session.messages ++ (session.client.messageQueue ++ [message]) :=
            List.append_assoc ..
    · cases hused.symm.trans habsurd
  · have hempty : session.client.messageQueue = [] := h.drained hconnected ⟨socket, hws, hopen⟩
    refine ⟨h.attached, fun _ _ ↦ hempty, fun _ ↦ ?_, fun habsurd ↦ ?_⟩
    · rw [messages_write]
      change session.sent ++ [message] =
        session.messages ++ [message] ++ session.client.messageQueue
      rw [hsent, hempty, List.append_nil, List.append_nil]
    · cases hused.symm.trans habsurd

theorem Keeps.opened (h : session.Keeps) (hgreets : session.Greets) {subscriptions : List String}
    {next : Session Message} (hconnecting : session.stateOf socket = some .CONNECTING)
    (hnext : session.next (.opened socket subscriptions) = some next) : next.Keeps := by
  cases (hgreets.next_opened hconnecting subscriptions).symm.trans hnext
  have hws : session.client.ws = some socket := hgreets.current socket (.inl hconnecting)
  have hmessages : ((((session.setReadyState socket .OPEN).setConnected.emit .connected).write
      socket (.hello (session.helloMsg subscriptions) ::
        session.client.messageQueue.map .message)).setQueue []).messages =
      session.messages ++ session.client.messageQueue := by
    refine (messages_write socket _).trans ?_
    rw [List.filterMap_cons, Frame.message?, filterMap_message]
    rfl
  refine ⟨fun _ _ ↦ ?_, fun _ _ ↦ rfl, fun hused ↦ ?_, fun hdisconnected ↦ ⟨rfl, ?_⟩⟩
  · exact fun hnone ↦ by cases hws.symm.trans hnone
  · rw [hmessages]
    exact (h.kept hused).trans (List.append_nil _).symm
  · obtain ⟨hempty, hprefix⟩ := h.dropped hdisconnected
    rw [hmessages, hempty, List.append_nil]
    exact hprefix

theorem Keeps.next (h : session.Keeps) (hgreets : session.Greets) {event : Event Message}
    {next : Session Message} (henabled : session.Enabled event)
    (hnext : session.next event = some next) : next.Keeps := by
  cases event with
  | send message => exact h.send henabled hnext
  | connect =>
    cases hnext
    exact h.connect
  | opened socket subscriptions => exact h.opened hgreets henabled hnext
  | closing socket =>
    cases hnext
    refine ⟨h.attached, fun hconnected ⟨current, hcurrent, hopen⟩ ↦ ?_, h.kept, h.dropped⟩
    refine h.drained hconnected ⟨current, hcurrent, ?_⟩
    rw [stateOf_setReadyState] at hopen
    split at hopen
    · cases hstate : session.stateOf current <;> rw [hstate] at hopen <;> cases hopen
    · exact hopen
  | closed socket =>
    cases hnext
    obtain ⟨client, timers, timersSet, emitted, heq, -, hqueue, hoffline⟩ :=
      (session.setReadyState socket .CLOSED).onClose_cases
    rw [heq]
    refine ⟨fun habsurd ↦ ?_, fun habsurd ↦ ?_, fun hused ↦ ?_, fun hdisconnected ↦ ?_⟩
    · cases hoffline.symm.trans habsurd
    · cases hoffline.symm.trans habsurd
    · exact (h.kept hused).trans (congrArg (session.messages ++ ·) hqueue.symm)
    · exact ⟨hqueue.trans (h.dropped hdisconnected).1, (h.dropped hdisconnected).2⟩
  | timer timer =>
    cases hnext
    have htimers : ({ session with timers := session.timers.erase timer } :
      Session Message).Keeps := ⟨h.attached, h.drained, h.kept, h.dropped⟩
    exact htimers.connect
  | disconnect =>
    cases hnext
    have hwritten : session.disconnect.messages = session.messages := by
      rw [messages, written_disconnect, messages]
    refine ⟨fun _ habsurd ↦ (by cases habsurd), fun _ _ ↦ rfl, fun habsurd ↦ (by cases habsurd),
      fun _ ↦ ⟨rfl, ?_⟩⟩
    rw [hwritten, session.sent_disconnect]
    cases hdisconnected : session.disconnected with
    | false => exact ⟨_, (h.kept hdisconnected).symm⟩
    | true => exact (h.dropped hdisconnected).2

/-- The client never reads from a socket that is `null`. -/
theorem Keeps.isSome_next (h : session.Keeps) (hgreets : session.Greets) {event : Event Message}
    (henabled : session.Enabled event) : (session.next event).isSome = true := by
  cases event with
  | send message => exact isSome_send fun hconnected ↦ h.attached hconnected henabled
  | opened socket subscriptions =>
    rw [hgreets.next_opened henabled]
    rfl
  | _ => rfl

/-! ## Runs keep both -/

/-- The arguments of `send`. -/
def sends (events : List (Event Message)) : List Message :=
  events.filterMap fun event ↦
    match event with
    | .send message => some message
    | _ => none

theorem ghosts_connect (session : Session Message) :
    session.connect.sent = session.sent ∧ session.connect.disconnected = session.disconnected := by
  rcases session.connect_cases with heq | ⟨-, heq⟩ <;> rw [heq] <;> exact ⟨rfl, rfl⟩

/-- The ghosts say what was called. -/
theorem ghosts_next (hgreets : session.Greets) {event : Event Message} {next : Session Message}
    (henabled : session.Enabled event) (hnext : session.next event = some next) :
    next.sent = session.sent ++ sends [event] ∧
      (next.disconnected = true ↔ session.disconnected = true ∨ event = .disconnect) := by
  cases event with
  | send message =>
    rcases send_cases hnext with ⟨rfl, -⟩ | ⟨socket, -, -, -, rfl⟩
    · exact ⟨rfl, by simp [enqueue, setQueue]⟩
    · exact ⟨rfl, by simp [write]⟩
  | connect =>
    cases hnext
    obtain ⟨hsent, hdisconnected⟩ := session.ghosts_connect
    exact ⟨hsent.trans (List.append_nil _).symm, by simp [hdisconnected]⟩
  | opened socket subscriptions =>
    cases (hgreets.next_opened henabled subscriptions).symm.trans hnext
    exact ⟨(List.append_nil _).symm, by
      simp [setQueue, write, emit, setConnected, setReadyState]⟩
  | closing socket =>
    cases hnext
    exact ⟨(List.append_nil _).symm, by simp [setReadyState]⟩
  | closed socket =>
    cases hnext
    obtain ⟨client, timers, timersSet, emitted, heq, -⟩ :=
      (session.setReadyState socket .CLOSED).onClose_cases
    rw [heq]
    exact ⟨(List.append_nil _).symm, by simp [setReadyState]⟩
  | timer timer =>
    cases hnext
    obtain ⟨hsent, hdisconnected⟩ := ghosts_connect
      ({ session with timers := session.timers.erase timer } : Session Message)
    exact ⟨hsent.trans (List.append_nil _).symm, by simp [hdisconnected]⟩
  | disconnect =>
    cases hnext
    exact ⟨session.sent_disconnect.trans (List.append_nil _).symm, by simp [disconnect]⟩

theorem greets_keeps_of_run {localPeerId : String} {localPublicKey : Option String}
    {events : List (Event Message)} {last : Session Message}
    (h : system.Run (new localPeerId localPublicKey) events last) :
    (last.Greets ∧ last.Keeps) ∧ last.sent = sends events ∧
      (last.disconnected = true ↔ .disconnect ∈ events) := by
  induction h with
  | nil => exact ⟨⟨greets_new _ _, keeps_new _ _⟩, rfl, by simp [new]⟩
  | @snoc middle after events event hrun hstep ih =>
    obtain ⟨⟨hgreets, hkeeps⟩, hsent, hdisconnected⟩ := ih
    obtain ⟨henabled, hnext⟩ : middle.Enabled event ∧ middle.next event = some after := by
      by_cases henabled : middle.Enabled event
      · exact ⟨henabled, (if_pos henabled).symm.trans hstep⟩
      · cases (if_neg henabled).symm.trans hstep
    obtain ⟨hsentNext, hdisconnectedNext⟩ := ghosts_next hgreets henabled hnext
    refine ⟨⟨hgreets.next henabled hnext, hkeeps.next hgreets henabled hnext⟩, ?_, ?_⟩
    · rw [hsentNext, hsent, sends, sends, sends, List.filterMap_append]
    · rw [hdisconnectedNext, hdisconnected, List.mem_append, List.mem_singleton, eq_comm]

/-- On each socket `HELLO` comes first; the other frames are written in the order of the calls of
`send`, and each once; none of them waits behind an open socket, and none is lost before
`disconnect`. Nothing throws. -/
theorem fifo_of_run {localPeerId : String} {localPublicKey : Option String}
    {events : List (Event Message)} {last : Session Message}
    (h : system.Run (new localPeerId localPublicKey) events last) :
    (∀ socket, ∀ frame ∈ (last.framesOn socket).head?, frame.isHello = true) ∧
      last.messages <+: sends events ∧
      (last.client.isConnected = true → last.IsOpen → last.client.messageQueue = []) ∧
      (.disconnect ∉ events → sends events = last.messages ++ last.client.messageQueue) ∧
      ∀ event, last.Enabled event → (last.next event).isSome = true := by
  obtain ⟨⟨hgreets, hkeeps⟩, hsent, hdisconnected⟩ := greets_keeps_of_run h
  refine ⟨hgreets.hello, ?_, hkeeps.drained, ?_, fun event ↦ hkeeps.isSome_next hgreets⟩
  · rw [← hsent]
    cases hused : last.disconnected with
    | false => exact ⟨_, (hkeeps.kept hused).symm⟩
    | true => exact (hkeeps.dropped hused).2
  · intro hnever
    rw [← hdisconnected, Bool.not_eq_true] at hnever
    rw [← hsent]
    exact hkeeps.kept hnever

/-- Two messages wait for the first socket and one for the second. -/
def reconnecting : List (Event String) :=
  [.send "m0", .connect, .send "m1", .opened 0 ["global"], .send "m2", .closing 0, .send "m3",
    .closed 0, .timer 0, .opened 1 ["global"], .send "m4"]

theorem fifo_of_run_reconnecting :
    ∃ last : Session String, system.Run (new "alice" none) reconnecting last ∧
      last.messages <+: ["m0", "m1", "m2", "m3", "m4"] ∧ last.client.messageQueue = [] := by
  have hrun : ∃ last, reconnecting.foldlM (fun (session : Session String) event ↦
      if session.Enabled event then session.next event else none) (new "alice" none) = some last ∧
        last.client.isConnected = true ∧ last.IsOpen :=
    ⟨_, rfl, rfl, 1, rfl, rfl⟩
  obtain ⟨last, hlast, hconnected, hopen⟩ := hrun
  have hfifo := fifo_of_run (TransitionSystem.run_ofPartial hlast)
  exact ⟨last, TransitionSystem.run_ofPartial hlast, hfifo.2.1, hfifo.2.2.1 hconnected hopen⟩

end Session

end Outbound

end P2PApp
