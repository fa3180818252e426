import P2PApp.Library.TransitionSystem
import P2PApp.Transport.Handshake

/-!
# Stopping the WebSocket server

`stop` closes the sockets in `activeConnections` and returns a promise that the library resolves
when every socket of the server is closed. A socket is in the map from its handshake on, under the
id it announced, until another socket takes the id or any socket that announced it closes. The
others are left open, and `P2PNode.stop` waits for them before it closes the pool and the database.

Once `ws.close` is called, the library closes the socket by itself, after a timeout at the latest.
The pool closes inbound sockets only in `clear`, which `P2PNode.stop` calls behind the promise.
-/

namespace P2PApp.Transport.Shutdown

open JavaScript

structure ServerSocket extends WSConnection where
  closed : Bool

/-- The sockets are numbered in the order of their connection. -/
structure WSServer extends LocalPeer where
  /-- `wss` is not `null`. -/
  listening : Bool
  sockets : List ServerSocket
  activeConnections : OrderedMap Key ℕ

inductive Event
  | connection
  | message (socketId : ℕ) (frame : Frame)
  | close (socketId : ℕ)

namespace WSServer

def start (self : LocalPeer) : WSServer where
  toLocalPeer := self
  listening := true
  sockets := []
  activeConnections := ∅

def setSocket (server : WSServer) (socketId : ℕ) (socket : ServerSocket) : WSServer :=
  { server with sockets := server.sockets.set socketId socket }

/-- The handler of a frame, which a closed socket does not call any more. -/
def onMessage (server : WSServer) (socketId : ℕ) (socket : ServerSocket) (frame : Frame) :
    Option WSServer :=
  (Transport.WSServer.onMessage server.toLocalPeer socketId socket.toWSConnection frame).map
    fun (connection, _) ↦
      let handled := server.setSocket socketId { connection with closed := false }
      if !socket.isHandshaked && connection.isHandshaked then
        { handled with
          activeConnections :=
            server.activeConnections.set connection.connectedPeerId.key socketId }
      else handled

/-- The handler of `close`, which deletes the id whichever socket is filed under it. -/
def onClose (server : WSServer) (socketId : ℕ) (socket : ServerSocket) : WSServer :=
  let closed := server.setSocket socketId { socket with closed := true }
  if socket.connectedPeerId.truthy then
    { closed with activeConnections := server.activeConnections.erase socket.connectedPeerId.key }
  else closed

/-- A socket that is not closed yet. -/
def live? (server : WSServer) (socketId : ℕ) : Option ServerSocket :=
  server.sockets[socketId]?.filter fun socket ↦ !socket.closed

/-- The server after an event, unless a handler throws. -/
def next (server : WSServer) : Event → Option WSServer
  | .connection =>
    if server.listening then
      some { server with
        sockets := server.sockets ++ [{ Transport.WSServer.accepted with closed := false }] }
    else some server
  | .message socketId frame =>
    match server.live? socketId with
    | some socket => server.onMessage socketId socket frame
    | none => some server
  | .close socketId =>
    match server.live? socketId with
    | some socket => some (server.onClose socketId socket)
    | none => some server

def system : TransitionSystem WSServer Event := .ofPartial next

/-- `ws.close`. -/
def close (server : WSServer) (socketId : ℕ) : WSServer :=
  { server with
    sockets := server.sockets.modify socketId fun socket ↦ { socket with isOpen := false } }

/-- The synchronous part of `stop`. -/
def stop (server : WSServer) : WSServer :=
  { server.activeConnections.values.foldl close server with
    activeConnections := ∅
    listening := false }

/-- The library has called back. -/
def Resolved (server : WSServer) : Prop :=
  server.listening = false ∧ ∀ socket ∈ server.sockets, socket.closed = true

/-- The library completes a close that the server has asked for. -/
def Unaided (server : WSServer) (event : Event) : Prop :=
  ∃ socketId socket, event = .close socketId ∧ server.live? socketId = some socket ∧
    socket.isOpen = false

/-- The promise is resolved without the other sides, whatever they leave open. -/
def Completes (server : WSServer) : Prop :=
  ∃ closes last, system.GuardedRun Unaided server closes last ∧ last.Resolved

/-! ## Who is in the map -/

/-- The event is the handshake of a socket, which announces an id. -/
def Handshakes (server : WSServer) (event : Event) (socketId : ℕ) (peerId : Key) : Prop :=
  ∃ frame socket, event = .message socketId frame ∧ server.live? socketId = some socket ∧
    socket.isHandshaked = false ∧ isHello frame.content = true ∧
    (frame.content.property "peerId").key = peerId

/-- Another socket announces the id, or a socket that announced it closes. -/
def Displaces (peerId : Key) (server : WSServer) (event : Event) : Prop :=
  (∃ other, Handshakes server event other peerId) ∨
    ∃ other socket, event = .close other ∧ server.live? other = some socket ∧
      socket.connectedPeerId.key = peerId

/-- The socket has announced the id, and nothing has displaced it since. -/
def Undisplaced (first : WSServer) (events : List Event) (server : WSServer) (socketId : ℕ)
    (peerId : Key) : Prop :=
  ∃ before event after greeted registered, events = before ++ event :: after ∧
    system.Run first before greeted ∧ Handshakes greeted event socketId peerId ∧
    greeted.next event = some registered ∧
    system.GuardedRun (fun server event ↦ ¬Displaces peerId server event) registered after server

theorem live?_eq_some {server : WSServer} {socketId : ℕ} {socket : ServerSocket} :
    server.live? socketId = some socket ↔
      server.sockets[socketId]? = some socket ∧ socket.closed = false := by
  simp [live?, Option.filter_eq_some_iff]

theorem handshake_eq_some {server : WSServer} {socketId : ℕ} {socket : ServerSocket}
    {frame : Frame} {after : WSServer} (hopening : socket.isHandshaked = false)
    (hhello : isHello frame.content = true)
    (h : server.onMessage socketId socket frame = some after) :
    after.activeConnections =
      server.activeConnections.set (frame.content.property "peerId").key socketId := by
  unfold onMessage Transport.WSServer.onMessage at h
  simp only [hopening, hhello, Bool.not_false, if_true] at h
  split at h
  · cases h
  · cases h
    rfl

theorem onMessage_eq_some {server : WSServer} {socketId : ℕ} {socket : ServerSocket}
    {frame : Frame} {after : WSServer}
    (hother : ¬(socket.isHandshaked = false ∧ isHello frame.content = true))
    (h : server.onMessage socketId socket frame = some after) :
    after.activeConnections = server.activeConnections := by
  unfold onMessage Transport.WSServer.onMessage at h
  cases hhandshaked : socket.isHandshaked with
  | true =>
    simp only [hhandshaked, Bool.not_true, Bool.false_eq_true, if_false, Option.map_some,
      Bool.false_and, Option.some.injEq] at h
    rw [← h]
    rfl
  | false =>
    have hhello : isHello frame.content = false := by
      cases hhello : isHello frame.content with
      | false => rfl
      | true => exact absurd ⟨hhandshaked, hhello⟩ hother
    simp only [hhandshaked, hhello, Bool.not_false, if_true, Bool.false_eq_true, if_false] at h
    split at h
    · cases h
    · cases h
      rfl

/-- Only ids that count as true are filed. -/
def FilesTruthy (server : WSServer) : Prop :=
  ∀ peerId socketId, server.activeConnections.get? peerId = some socketId → peerId.truthy = true

theorem handshakes_message_iff {server : WSServer} {other socketId : ℕ} {socket : ServerSocket}
    {frame : Frame} {peerId : Key} (hlive : server.live? other = some socket) :
    Handshakes server (.message other frame) socketId peerId ↔
      (socket.isHandshaked = false ∧ isHello frame.content = true) ∧ socketId = other ∧
        (frame.content.property "peerId").key = peerId := by
  constructor
  · rintro ⟨_, _, heq, hsame, hopening, hhello, hkey⟩
    cases heq
    cases hlive.symm.trans hsame
    exact ⟨⟨hopening, hhello⟩, rfl, hkey⟩
  · rintro ⟨⟨hopening, hhello⟩, rfl, hkey⟩
    exact ⟨frame, socket, rfl, hlive, hopening, hhello, hkey⟩

theorem not_handshakes_of_dead {server : WSServer} {other socketId : ℕ} {frame : Frame}
    {peerId : Key} (hdead : server.live? other = none) :
    ¬Handshakes server (.message other frame) socketId peerId := by
  rintro ⟨_, socket, heq, hlive, _⟩
  cases heq
  cases hdead.symm.trans hlive

theorem not_handshakes_close {server : WSServer} {other socketId : ℕ} {peerId : Key} :
    ¬Handshakes server (.close other) socketId peerId := by
  rintro ⟨_, _, heq, _⟩
  cases heq

theorem displaces_message_iff {server : WSServer} {other : ℕ} {frame : Frame} {peerId : Key} :
    Displaces peerId server (.message other frame) ↔
      ∃ socketId, Handshakes server (.message other frame) socketId peerId := by
  simp [Displaces]

theorem displaces_close_iff {server : WSServer} {other : ℕ} {peerId : Key} :
    Displaces peerId server (.close other) ↔
      ∃ socket, server.live? other = some socket ∧ socket.connectedPeerId.key = peerId := by
  simp [Displaces, not_handshakes_close]

/-! ### What one event does to the map -/

variable {server after : WSServer} {peerId : Key} {socketId : ℕ}

theorem get?_message {other : ℕ} {frame : Frame}
    (h : server.next (.message other frame) = some after) :
    after.activeConnections.get? peerId = some socketId ↔
      Handshakes server (.message other frame) socketId peerId ∨
        server.activeConnections.get? peerId = some socketId ∧
          ¬Displaces peerId server (.message other frame) := by
  rw [displaces_message_iff]
  rw [next] at h
  split at h
  · rename_i socket hlive
    simp only [handshakes_message_iff hlive]
    by_cases hopens : socket.isHandshaked = false ∧ isHello frame.content = true
    · rw [handshake_eq_some hopens.1 hopens.2 h, OrderedMap.get?_set]
      split
      · rename_i hkey
        simp [hopens, hkey, eq_comm]
      · rename_i hkey
        simp [Ne.symm hkey]
    · rw [onMessage_eq_some hopens h]
      simp [hopens]
  · rename_i hdead
    cases h
    simp [not_handshakes_of_dead hdead]

theorem get?_close {other : ℕ} (hfiles : server.FilesTruthy)
    (h : server.next (.close other) = some after) :
    after.activeConnections.get? peerId = some socketId ↔
      server.activeConnections.get? peerId = some socketId ∧
        ¬Displaces peerId server (.close other) := by
  rw [displaces_close_iff]
  rw [next] at h
  split at h
  · rename_i socket hlive
    cases h
    simp only [hlive, Option.some.injEq, exists_eq_left', onClose]
    split
    · rw [OrderedMap.get?_erase]
      split
      · rename_i hkey
        simp [hkey]
      · rename_i hkey
        simp [Ne.symm hkey]
    · rename_i hfalsy
      constructor
      · intro hfiled
        refine ⟨hfiled, ?_⟩
        rintro rfl
        exact hfalsy (hfiles _ _ hfiled)
      · exact And.left
  · rename_i hdead
    cases h
    simp [hdead]

theorem get?_next {event : Event} (hfiles : server.FilesTruthy)
    (h : server.next event = some after) :
    after.activeConnections.get? peerId = some socketId ↔
      Handshakes server event socketId peerId ∨
        server.activeConnections.get? peerId = some socketId ∧ ¬Displaces peerId server event := by
  cases event with
  | connection =>
    have hsame : after.activeConnections = server.activeConnections := by
      rw [next] at h
      split at h
      · cases h
        rfl
      · cases h
        rfl
    simp [hsame, Handshakes, Displaces]
  | message other frame => exact get?_message h
  | close other =>
    rw [get?_close hfiles h]
    simp [not_handshakes_close]

theorem filesTruthy_next {event : Event} (hfiles : server.FilesTruthy)
    (h : server.next event = some after) : after.FilesTruthy := by
  intro peerId socketId hfiled
  rcases (get?_next hfiles h).1 hfiled with hhandshakes | ⟨hbefore, _⟩
  · obtain ⟨frame, _, _, _, _, hhello, rfl⟩ := hhandshakes
    exact truthy_of_isHello hhello
  · exact hfiles peerId socketId hbefore

/-- Events lead to one state. -/
theorem eq_of_run {first last other : WSServer} {events : List Event}
    (h : system.Run first events last) (h' : system.Run first events other) : last = other :=
  Option.some.inj
    ((TransitionSystem.foldlM_of_run h).symm.trans (TransitionSystem.foldlM_of_run h'))

theorem undisplaced_snoc {first : WSServer} {events : List Event} {event : Event}
    (hrun : system.Run first events server) (h : server.next event = some after) :
    Undisplaced first (events ++ [event]) after socketId peerId ↔
      Handshakes server event socketId peerId ∨
        Undisplaced first events server socketId peerId ∧ ¬Displaces peerId server event := by
  constructor
  · rintro ⟨before, greeting, later, greeted, registered, hsplit, hbefore, hhandshakes, hnext,
      hlater⟩
    rcases later.eq_nil_or_concat with rfl | ⟨later, last, rfl⟩
    · obtain ⟨rfl, hlast⟩ := List.append_inj' hsplit rfl
      cases hlast
      cases eq_of_run hrun hbefore
      exact .inl hhandshakes
    · rw [List.concat_eq_append] at hsplit hlater
      rw [← List.cons_append, ← List.append_assoc] at hsplit
      obtain ⟨rfl, hlast⟩ := List.append_inj' hsplit rfl
      cases hlast
      obtain ⟨previous, hprevious, hguard, _⟩ := hlater.exists_last
      cases eq_of_run hrun (hbefore.append (.cons hnext hprevious.run))
      exact .inr ⟨⟨before, greeting, later, greeted, registered, rfl, hbefore, hhandshakes, hnext,
        hprevious⟩, hguard⟩
  · rintro (hhandshakes | ⟨⟨before, greeting, later, greeted, registered, rfl, hbefore,
      hhandshakes, hnext, hlater⟩, hguard⟩)
    · exact ⟨events, event, [], server, after, rfl, hrun, hhandshakes, h, .nil _⟩
    · exact ⟨before, greeting, later ++ [event], greeted, registered, by simp, hbefore, hhandshakes,
        hnext, .snoc hlater hguard h⟩

theorem filesTruthy_of_run {self : LocalPeer} {events : List Event}
    (hrun : system.Run (start self) events server) : server.FilesTruthy := by
  induction hrun with
  | nil => simp [FilesTruthy, start]
  | snoc _ hstep ih => exact filesTruthy_next ih hstep

/-- The map holds exactly the sockets that nothing has displaced. -/
theorem get?_iff_undisplaced {self : LocalPeer} {events : List Event}
    (hrun : system.Run (start self) events server) :
    server.activeConnections.get? peerId = some socketId ↔
      Undisplaced (start self) events server socketId peerId := by
  induction hrun with
  | nil => simp [start, Undisplaced]
  | snoc hbefore hstep ih =>
    rw [get?_next (filesTruthy_of_run hbefore) hstep, ih, undisplaced_snoc hbefore hstep]

/-! ## The promise -/

theorem sockets_close (server : WSServer) (other socketId : ℕ) :
    (server.close other).sockets[socketId]? =
      server.sockets[socketId]?.map fun socket ↦
        if other = socketId then { socket with isOpen := false } else socket := by
  rw [close, List.getElem?_modify]
  split
  · rfl
  · simp

theorem sockets_foldl_close (ids : List ℕ) (server : WSServer) (socketId : ℕ) :
    (ids.foldl close server).sockets[socketId]? =
      server.sockets[socketId]?.map fun socket ↦
        if socketId ∈ ids then { socket with isOpen := false } else socket := by
  induction ids generalizing server with
  | nil => simp
  | cons other rest ih =>
    rw [List.foldl_cons, ih, sockets_close]
    cases server.sockets[socketId]? with
    | none => rfl
    | some socket =>
      by_cases hother : other = socketId
      · simp [hother]
      · simp [hother, Ne.symm hother]

theorem live?_stop (server : WSServer) (socketId : ℕ) :
    server.stop.live? socketId = (server.live? socketId).map fun socket ↦
      if socketId ∈ server.activeConnections.values then { socket with isOpen := false }
      else socket := by
  unfold live?
  change ((server.activeConnections.values.foldl close server).sockets[socketId]?).filter _ = _
  rw [sockets_foldl_close]
  cases server.sockets[socketId]? with
  | none => rfl
  | some socket =>
    cases hclosed : socket.closed <;> split <;> simp [Option.filter, hclosed]

theorem mem_values_iff {m : OrderedMap Key ℕ} :
    socketId ∈ m.values ↔ ∃ peerId, m.get? peerId = some socketId := by
  simp only [OrderedMap.values, List.mem_map, OrderedMap.get?_eq_some_iff]
  constructor
  · rintro ⟨⟨peerId, value⟩, hentry, rfl⟩
    exact ⟨peerId, hentry⟩
  · rintro ⟨peerId, hentry⟩
    exact ⟨_, hentry, rfl⟩

@[simp] theorem sockets_onClose (server : WSServer) (other : ℕ) (socket : ServerSocket) :
    (server.onClose other socket).sockets =
      server.sockets.set other { socket with closed := true } := by
  unfold onClose setSocket
  split
  · rfl
  · rfl

@[simp] theorem listening_onClose (server : WSServer) (other : ℕ) (socket : ServerSocket) :
    (server.onClose other socket).listening = server.listening := by
  unfold onClose setSocket
  split
  · rfl
  · rfl

theorem live?_onClose (server : WSServer) (other : ℕ) (socket : ServerSocket) :
    (server.onClose other socket).live? socketId =
      if socketId = other then none else server.live? socketId := by
  unfold live?
  rw [sockets_onClose, List.getElem?_set]
  split
  · rename_i hother
    subst hother
    split
    · simp [Option.filter]
    · simp
  · rename_i hother
    simp [Ne.symm hother]

/-- An open socket stays open as long as its other side does nothing. -/
theorem open_of_unaided {event : Event} {socket : ServerSocket} (hopen : socket.isOpen = true)
    (hlive : server.live? socketId = some socket) (hguard : Unaided server event)
    (h : server.next event = some after) : after.live? socketId = some socket := by
  obtain ⟨other, closing, rfl, hother, hclosing⟩ := hguard
  rw [next, hother] at h
  cases h
  rw [live?_onClose, if_neg]
  · exact hlive
  · rintro rfl
    cases hlive.symm.trans hother
    cases hopen.symm.trans hclosing

/-- With nothing open, the library closes one socket after the other. -/
theorem exists_closes (server : WSServer)
    (hclosing : ∀ socketId socket, server.live? socketId = some socket → socket.isOpen = false)
    (count : ℕ) : ∃ closes last, system.GuardedRun Unaided server closes last ∧
      last.listening = server.listening ∧ last.sockets.length = server.sockets.length ∧
      ∀ socketId, last.live? socketId =
        if socketId < count then none else server.live? socketId := by
  induction count with
  | zero => exact ⟨[], server, .nil _, rfl, rfl, by simp⟩
  | succ count ih =>
    obtain ⟨closes, last, hrun, hlistening, hlength, hlive⟩ := ih
    have hcount : last.live? count = server.live? count := by rw [hlive, if_neg (lt_irrefl count)]
    cases hnext : last.live? count with
    | none =>
      refine ⟨closes, last, hrun, hlistening, hlength, fun socketId ↦ ?_⟩
      rw [hlive]
      by_cases hsame : socketId = count
      · rw [hsame, ← hcount, hnext]
        simp
      · simp only [Nat.lt_succ_iff_lt_or_eq, hsame, or_false]
    | some socket =>
      have hguard : Unaided last (.close count) :=
        ⟨count, socket, rfl, hnext, hclosing count socket (hcount.symm.trans hnext)⟩
      have hstep : system.step last (.close count) (last.onClose count socket) := by
        change last.next (.close count) = _
        rw [next, hnext]
      refine ⟨closes ++ [.close count], last.onClose count socket, .snoc hrun hguard hstep, ?_, ?_,
        fun socketId ↦ ?_⟩
      · rw [listening_onClose, hlistening]
      · rw [sockets_onClose, List.length_set, hlength]
      · rw [live?_onClose, hlive]
        by_cases hsame : socketId = count
        · simp [hsame]
        · simp only [Nat.lt_succ_iff_lt_or_eq, hsame, or_false, if_false]

theorem resolved_iff (server : WSServer) :
    server.Resolved ↔ server.listening = false ∧ ∀ socketId, server.live? socketId = none := by
  refine and_congr_right fun _ ↦ ?_
  constructor
  · intro hclosed socketId
    rw [Option.eq_none_iff_forall_ne_some]
    intro socket hlive
    obtain ⟨hsocket, hopen⟩ := live?_eq_some.1 hlive
    cases hopen.symm.trans (hclosed socket (List.mem_of_getElem? hsocket))
  · intro hdead socket hsocket
    obtain ⟨socketId, hsocketId⟩ := List.getElem?_of_mem hsocket
    by_contra hopen
    cases (hdead socketId).symm.trans (live?_eq_some.2 ⟨hsocketId, eq_false_of_ne_true hopen⟩)

/-- The promise of `stop` needs no other side exactly when nothing can stay open. -/
theorem completes_iff {stopped : WSServer} (hstopped : stopped.listening = false) :
    stopped.Completes ↔
      ∀ socketId socket, stopped.live? socketId = some socket → socket.isOpen = false := by
  constructor
  · rintro ⟨closes, last, hrun, hresolved⟩ socketId socket hlive
    by_contra hopen
    have hkept := hrun.invariant
      (fun _ _ _ hbefore hguard hstep ↦ open_of_unaided (eq_true_of_ne_false hopen) hbefore hguard
        hstep) hlive
    cases ((resolved_iff last).1 hresolved).2 socketId |>.symm.trans hkept
  · intro hclosing
    obtain ⟨closes, last, hrun, hlistening, hlength, hlive⟩ :=
      exists_closes stopped hclosing stopped.sockets.length
    refine ⟨closes, last, hrun, (resolved_iff last).2 ⟨hlistening.trans hstopped, ?_⟩⟩
    intro socketId
    rw [hlive]
    split
    · rfl
    · rename_i hbeyond
      rw [live?, List.getElem?_eq_none (not_lt.1 hbeyond)]
      rfl

/-- The promise of `stop` is resolved without the help of the other sides if and only if every
socket that is still open has announced an id and was not displaced from it since. -/
theorem stop_completes_iff {self : LocalPeer} {events : List Event}
    (hrun : system.Run (start self) events server) :
    server.stop.Completes ↔
      ∀ socketId socket, server.live? socketId = some socket → socket.isOpen = true →
        ∃ peerId, Undisplaced (start self) events server socketId peerId := by
  rw [completes_iff rfl]
  simp only [live?_stop, Option.map_eq_some_iff, ← get?_iff_undisplaced hrun, ← mem_values_iff]
  constructor
  · intro hclosing socketId socket hlive hopen
    by_contra hmissing
    have hkept := hclosing socketId socket ⟨socket, hlive, if_neg hmissing⟩
    cases hopen.symm.trans hkept
  · rintro hfiled socketId _ ⟨socket, hlive, rfl⟩
    split
    · rfl
    · rename_i hmissing
      by_contra hopen
      exact hmissing (hfiled socketId socket hlive (eq_true_of_ne_false hopen))

/-! ## Two sockets under one id -/

def exampleServer : LocalPeer where
  port := 8080
  localPeerId := "alice"
  localPublicKey := none

def bobGreets (identity : ℕ) : Frame where
  content := .object identity [("type", .string "HELLO"), ("peerId", .string "bob")]
  localSubscriptions := ["global"]

/-- A peer connects a second time before its first socket is closed. -/
def bobTwice : List Event :=
  [.connection, .message 0 (bobGreets 0), .connection, .message 1 (bobGreets 1)]

def metBobTwice : WSServer := (bobTwice.foldlM next (start exampleServer)).get (by decide +kernel)

example : (metBobTwice.stop.live? 0).map (fun socket ↦ socket.isOpen) = some true := by
  decide +kernel

theorem stop_completes_iff_metBobTwice :
    metBobTwice.stop.Completes ↔
      ∀ socketId socket, metBobTwice.live? socketId = some socket → socket.isOpen = true →
        ∃ peerId, Undisplaced (start exampleServer) bobTwice metBobTwice socketId peerId :=
  stop_completes_iff (TransitionSystem.run_ofPartial (Option.some_get _).symm)

end WSServer

end P2PApp.Transport.Shutdown
