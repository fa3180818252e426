import P2PApp.Library.TransitionSystem
import P2PApp.Transport.Handshake

/-!
# Descriptors that are used again

The event loop of `TCPServer` accepts, reads and closes on a thread of its own and tells JavaScript
about it through a queue. `NativePeerEmitter` keeps the number of the descriptor and sends by it. A
number that was closed is free for the next connection, while JavaScript still has the close of the
old one in its queue.

Connections are numbered in the order of their acceptance. The numbers are ghosts: the code sees
descriptors only. A send is a loop of system calls, so that the other thread runs between any two of
them; JavaScript handles no event until the loop returns.
-/

namespace P2PApp.Transport

open JavaScript

/-- What waits in the queue of the thread-safe function. -/
inductive InboundMessage (Byte : Type)
  | connect (fd connection : ℕ)
  | data (fd : ℕ) (payload : List Byte)
  | close (fd : ℕ)

/-- A `NativePeerEmitter`, with the connection for which it was created. -/
structure PeerHandle where
  fd : ℕ
  connection : ℕ
  handshaked : Bool

/-- A call of `TCPServer::Send` that has not returned. -/
structure Sending (Byte : Type) where
  peer : PeerHandle
  remaining : List Byte

/-- Bytes that `::send` took for a peer, and the connection whose socket took them. -/
structure Written (Byte : Type) where
  peer : PeerHandle
  connection : ℕ
  bytes : List Byte

structure EpollServer (Byte : Type) where
  /-- The open sockets, by descriptor. -/
  sockets : ℕ → Option ℕ
  /-- The descriptor of each connection that was accepted. -/
  accepted : List ℕ
  queue : List (InboundMessage Byte)
  emitters : List PeerHandle
  /-- The map `_peers`, by the numbers of the emitters. -/
  peers : ℕ → Option ℕ
  sending : Option (Sending Byte)
  written : List (Written Byte)
  /-- What the sends returned. -/
  returned : List Bool
  /-- An exception has ended the process. -/
  ended : Bool

inductive EpollEvent (Byte : Type)
  | accept (fd : ℕ)
  | drain (fd : ℕ) (payload : List Byte)
  | removePeer (fd : ℕ)
  /-- JavaScript handles the next message; the bytes are those of its `HELLO`. -/
  | dispatch (hello : List Byte)
  /-- Somebody who holds an emitter calls `send` on it. -/
  | send (emitter : ℕ) (text : List Byte)
  /-- The system call `::send` takes that many bytes. -/
  | write (count : ℕ)
  /-- It reports that the buffer is full, or fails otherwise. -/
  | wouldBlock
  | hardError
  /-- All bytes are taken. -/
  | complete

namespace EpollServer

variable {Byte : Type}

def start : EpollServer Byte where
  sockets := fun _ ↦ none
  accepted := []
  queue := []
  emitters := []
  peers := fun _ ↦ none
  sending := none
  written := []
  returned := []
  ended := false

/-- One round of `AcceptAll`, the kernel having chosen the descriptor. -/
def acceptOne (server : EpollServer Byte) (fd : ℕ) : EpollServer Byte :=
  { server with
    sockets := Function.update server.sockets fd (some server.accepted.length)
    accepted := server.accepted ++ [fd]
    queue := server.queue ++ [.connect fd server.accepted.length] }

def drainRead (server : EpollServer Byte) (fd : ℕ) (payload : List Byte) : EpollServer Byte :=
  { server with queue := server.queue ++ [.data fd payload] }

def removePeer (server : EpollServer Byte) (fd : ℕ) : EpollServer Byte :=
  { server with
    sockets := Function.update server.sockets fd none
    queue := server.queue ++ [.close fd] }

/-- Entering `TCPServer::Send` from an emitter. -/
def callSend (server : EpollServer Byte) (emitter : ℕ) (text : List Byte) : EpollServer Byte :=
  { server with sending := server.emitters[emitter]?.map fun peer ↦ ⟨peer, text⟩ }

def setHandshaked (server : EpollServer Byte) (emitter : ℕ) : EpollServer Byte :=
  { server with
    emitters := server.emitters.modify emitter fun peer ↦ { peer with handshaked := true } }

def forget (server : EpollServer Byte) (fd : ℕ) : EpollServer Byte :=
  { server with peers := Function.update server.peers fd none }

/-- The part of `_onNativeEvent` that concerns descriptors and emitters. -/
def onNativeEvent (parse : List Byte → Option Value) (hello : List Byte)
    (server : EpollServer Byte) : InboundMessage Byte → EpollServer Byte
  | .connect fd connection =>
    { server with
      emitters := server.emitters ++ [⟨fd, connection, false⟩]
      peers := Function.update server.peers fd (some server.emitters.length) }
  | .close fd => server.forget fd
  | .data fd payload =>
    match server.peers fd, parse payload with
    | some emitter, some parsed =>
      if (server.emitters[emitter]?.map PeerHandle.handshaked) = some true then server
      else if parsed.nullish then { server with ended := true }
      else if isHello parsed then
        (server.setHandshaked emitter).callSend emitter hello
      else server.forget fd
    | _, _ => server

/-- The bytes that one system call takes, on the socket that has the descriptor now. -/
def writeBytes (server : EpollServer Byte) (count : ℕ) : EpollServer Byte :=
  match server.sending with
  | none => server
  | some sending =>
    match server.sockets sending.peer.fd with
    | none => server
    | some connection =>
      { server with
        sending := some { sending with remaining := sending.remaining.drop count }
        written := server.written ++ [⟨sending.peer, connection, sending.remaining.take count⟩] }

def returnSend (server : EpollServer Byte) (ok : Bool) : EpollServer Byte :=
  { server with sending := none, returned := server.returned ++ [ok] }

def next (parse : List Byte → Option Value) (server : EpollServer Byte) :
    EpollEvent Byte → EpollServer Byte
  | .accept fd => server.acceptOne fd
  | .drain fd payload => server.drainRead fd payload
  | .removePeer fd => server.removePeer fd
  | .dispatch hello =>
    match server.queue with
    | [] => server
    | message :: rest => { server with queue := rest }.onNativeEvent parse hello message
  | .send emitter text => server.callSend emitter text
  | .write count => server.writeBytes count
  | .wouldBlock => server
  | .hardError => server.returnSend false
  | .complete => server.returnSend true

/-- What the kernel and the two threads can do. A system call on a closed descriptor fails. An
emitter is handed out by the handshake. -/
def Enabled (server : EpollServer Byte) (event : EpollEvent Byte) : Prop :=
  server.ended = false ∧
    match event with
    | .accept fd => server.sockets fd = none
    | .drain fd payload => (server.sockets fd).isSome = true ∧ payload ≠ []
    | .removePeer fd => (server.sockets fd).isSome = true
    | .dispatch _ => server.sending.isNone = true ∧ server.queue ≠ []
    | .send emitter _ => server.sending.isNone = true ∧
        server.emitters[emitter]?.map PeerHandle.handshaked = some true
    | .write count => ∃ sending ∈ server.sending,
        (server.sockets sending.peer.fd).isSome = true ∧ 0 < count ∧
          count ≤ sending.remaining.length
    | .wouldBlock => ∃ sending ∈ server.sending,
        (server.sockets sending.peer.fd).isSome = true ∧ sending.remaining ≠ []
    | .hardError => ∃ sending ∈ server.sending, sending.remaining ≠ []
    | .complete => ∃ sending ∈ server.sending, sending.remaining = []

instance (server : EpollServer Byte) : DecidablePred server.Enabled := fun event ↦
  match event with
  | .accept _ | .drain .. | .removePeer _ | .dispatch _ | .send .. | .write _ | .wouldBlock
  | .hardError | .complete => inferInstanceAs (Decidable (_ ∧ _))

/-- A server with its peers, under all interleavings. -/
def system (parse : List Byte → Option Value) :
    TransitionSystem (EpollServer Byte) (EpollEvent Byte) :=
  .ofNext Enabled (next parse)

/-- Every byte went to the connection for which its emitter was created. -/
def Addressed (server : EpollServer Byte) : Prop :=
  ∀ written ∈ server.written, written.connection = written.peer.connection

/-- The descriptor has not been given to any connection after this one. -/
def NotReused (server : EpollServer Byte) (fd connection : ℕ) : Prop :=
  ∀ later, connection < later → server.accepted[later]? ≠ some fd

/-- When the system call takes bytes, the descriptor of the emitter has not been given to another
connection since the emitter's own was accepted. -/
def SendsUnused (server : EpollServer Byte) : EpollEvent Byte → Prop
  | .write _ => ∀ sending ∈ server.sending, server.NotReused sending.peer.fd sending.peer.connection
  | _ => True

/-- The connection was accepted under the descriptor. -/
def AcceptedUnder (server : EpollServer Byte) (fd connection : ℕ) : Prop :=
  server.accepted[connection]? = some fd

/-- Every number that the server remembers for a descriptor was accepted under it, and the open
socket is the last one that was. -/
structure Consistent (server : EpollServer Byte) : Prop where
  sockets : ∀ fd connection, server.sockets fd = some connection →
    server.AcceptedUnder fd connection ∧ server.NotReused fd connection
  queue : ∀ fd connection, .connect fd connection ∈ server.queue →
    server.AcceptedUnder fd connection
  emitters : ∀ peer ∈ server.emitters, server.AcceptedUnder peer.fd peer.connection
  sending : ∀ sending ∈ server.sending,
    server.AcceptedUnder sending.peer.fd sending.peer.connection

theorem consistent_start : Consistent (start : EpollServer Byte) where
  sockets := fun _ _ h ↦ by cases h
  queue := fun _ _ h ↦ by cases h
  emitters := fun _ h ↦ by cases h
  sending := fun _ h ↦ by cases h

variable {server : EpollServer Byte} {parse : List Byte → Option Value}

theorem AcceptedUnder.lt {fd connection : ℕ} (h : server.AcceptedUnder fd connection) :
    connection < server.accepted.length :=
  (List.getElem?_eq_some_iff.1 h).1

theorem AcceptedUnder.acceptOne {fd connection : ℕ} (h : server.AcceptedUnder fd connection)
    (other : ℕ) : (server.acceptOne other).AcceptedUnder fd connection := by
  unfold AcceptedUnder EpollServer.acceptOne
  rw [List.getElem?_append_left h.lt]
  exact h

/-- A descriptor other than the accepted one is as unused as before. -/
theorem NotReused.acceptOne {fd connection other : ℕ} (h : server.NotReused fd connection)
    (hne : fd ≠ other) : (server.acceptOne other).NotReused fd connection := by
  intro later hlater haccepted
  rcases Nat.lt_trichotomy later server.accepted.length with hlt | heq | hgt
  · apply h later hlater
    rwa [EpollServer.acceptOne, List.getElem?_append_left hlt] at haccepted
  · rw [EpollServer.acceptOne, heq, List.getElem?_concat_length, Option.some.injEq] at haccepted
    exact hne haccepted.symm
  · rw [EpollServer.acceptOne, List.getElem?_eq_none (by simp; omega)] at haccepted
    cases haccepted

theorem Consistent.acceptOne (h : server.Consistent) (fd : ℕ) :
    (server.acceptOne fd).Consistent where
  sockets := by
    intro other connection hopen
    by_cases hother : other = fd
    · subst hother
      have hnew : connection = server.accepted.length := by
        simpa [EpollServer.acceptOne, eq_comm] using hopen
      subst hnew
      refine ⟨by simp [AcceptedUnder, EpollServer.acceptOne], ?_⟩
      intro later hlater haccepted
      have hlt : later < (server.acceptOne other).accepted.length := AcceptedUnder.lt haccepted
      simp only [EpollServer.acceptOne, List.length_append, List.length_singleton] at hlt
      omega
    · have hold : server.sockets other = some connection := by
        simpa [EpollServer.acceptOne, Function.update_of_ne hother] using hopen
      obtain ⟨haccepted, hunused⟩ := h.sockets other connection hold
      exact ⟨haccepted.acceptOne fd, hunused.acceptOne hother⟩
  queue := by
    intro other connection hmem
    rcases List.mem_append.1 hmem with hold | hnew
    · exact (h.queue other connection hold).acceptOne fd
    · obtain ⟨rfl, rfl⟩ : other = fd ∧ connection = server.accepted.length := by
        simpa using hnew
      simp [AcceptedUnder, EpollServer.acceptOne]
  emitters := fun peer hpeer ↦ (h.emitters peer hpeer).acceptOne fd
  sending := fun sending hsending ↦ (h.sending sending hsending).acceptOne fd

theorem Consistent.removePeer (h : server.Consistent) (fd : ℕ) :
    (server.removePeer fd).Consistent where
  sockets := by
    intro other connection hopen
    by_cases hother : other = fd
    · subst hother
      simp [EpollServer.removePeer] at hopen
    · apply h.sockets other connection
      simpa [EpollServer.removePeer, Function.update_of_ne hother] using hopen
  queue := fun other connection hmem ↦
    h.queue other connection (by simpa [EpollServer.removePeer] using hmem)
  emitters := h.emitters
  sending := h.sending

theorem Consistent.callSend (h : server.Consistent) (emitter : ℕ) (text : List Byte) :
    (server.callSend emitter text).Consistent where
  sockets := h.sockets
  queue := h.queue
  emitters := h.emitters
  sending := by
    intro sending hsending
    obtain ⟨peer, hpeer, rfl⟩ := Option.map_eq_some_iff.1 hsending
    exact h.emitters peer (List.mem_of_getElem? hpeer)

theorem Consistent.setHandshaked (h : server.Consistent) (emitter : ℕ) :
    (server.setHandshaked emitter).Consistent where
  sockets := h.sockets
  queue := h.queue
  emitters := by
    intro peer hpeer
    obtain ⟨index, hindex⟩ := List.mem_iff_getElem?.1 hpeer
    simp only [EpollServer.setHandshaked, List.getElem?_modify, Option.map_eq_map,
      Option.map_eq_some_iff] at hindex
    obtain ⟨before, hbefore, rfl⟩ := hindex
    have hown := h.emitters before (List.mem_of_getElem? hbefore)
    split
    · exact hown
    · exact hown
  sending := h.sending

theorem Consistent.onNativeEvent (h : server.Consistent) (hello : List Byte)
    {message : InboundMessage Byte}
    (hmessage : ∀ fd connection, message = .connect fd connection →
      server.AcceptedUnder fd connection) :
    (server.onNativeEvent parse hello message).Consistent := by
  cases message with
  | connect fd connection =>
    refine ⟨h.sockets, h.queue, ?_, h.sending⟩
    intro peer hpeer
    rcases List.mem_append.1 hpeer with hold | hnew
    · exact h.emitters peer hold
    · obtain rfl := List.mem_singleton.1 hnew
      exact hmessage fd connection rfl
  | close fd => exact ⟨h.sockets, h.queue, h.emitters, h.sending⟩
  | data fd payload =>
    unfold EpollServer.onNativeEvent
    dsimp only
    split
    · rename_i emitter parsed _ _
      split
      · exact h
      split
      · exact ⟨h.sockets, h.queue, h.emitters, h.sending⟩
      split
      · exact (h.setHandshaked emitter).callSend emitter hello
      · exact ⟨h.sockets, h.queue, h.emitters, h.sending⟩
    · exact h

theorem Consistent.writeBytes (h : server.Consistent) (count : ℕ) :
    (server.writeBytes count).Consistent := by
  unfold EpollServer.writeBytes
  split
  · exact h
  · rename_i sending hsending
    split
    · exact h
    · refine ⟨h.sockets, h.queue, h.emitters, ?_⟩
      intro other hother
      obtain rfl := Option.some.inj hother
      exact h.sending sending hsending

theorem Consistent.next (h : server.Consistent) (event : EpollEvent Byte) :
    (server.next parse event).Consistent := by
  cases event with
  | accept fd => exact h.acceptOne fd
  | drain fd payload =>
    refine ⟨h.sockets, ?_, h.emitters, h.sending⟩
    intro other connection hmem
    exact h.queue other connection (by simpa [EpollServer.next, drainRead] using hmem)
  | removePeer fd => exact h.removePeer fd
  | dispatch hello =>
    unfold EpollServer.next
    dsimp only
    split
    · exact h
    · rename_i message rest hqueue
      have hrest : ({ server with queue := rest } : EpollServer Byte).Consistent := by
        refine ⟨h.sockets, ?_, h.emitters, h.sending⟩
        intro fd connection hmem
        exact h.queue fd connection (by rw [hqueue]; exact List.mem_cons_of_mem _ hmem)
      apply hrest.onNativeEvent
      rintro fd connection rfl
      exact h.queue fd connection (by rw [hqueue]; exact List.mem_cons_self)
  | send emitter text => exact h.callSend emitter text
  | write count => exact h.writeBytes count
  | wouldBlock => exact h
  | hardError => exact ⟨h.sockets, h.queue, h.emitters, fun _ hnone ↦ by cases hnone⟩
  | complete => exact ⟨h.sockets, h.queue, h.emitters, fun _ hnone ↦ by cases hnone⟩

/-- Of two connections under one descriptor, the open one is the later, so that it is the one of the
emitter exactly if nothing was accepted under the descriptor since. -/
theorem Consistent.connection_eq_iff (h : server.Consistent) {sending : Sending Byte}
    (hsending : server.sending = some sending) {connection : ℕ}
    (hopen : server.sockets sending.peer.fd = some connection) :
    connection = sending.peer.connection ↔
      server.NotReused sending.peer.fd sending.peer.connection := by
  obtain ⟨haccepted, hlast⟩ := h.sockets _ _ hopen
  have hown := h.sending sending hsending
  constructor
  · rintro rfl
    exact hlast
  · intro hunused
    have hle : connection ≤ sending.peer.connection :=
      Nat.le_of_not_lt fun hlt ↦ hunused connection hlt haccepted
    have hge : sending.peer.connection ≤ connection :=
      Nat.le_of_not_lt fun hlt ↦ hlast sending.peer.connection hlt hown
    exact le_antisymm hle hge

theorem written_onNativeEvent (hello : List Byte) (server : EpollServer Byte)
    (message : InboundMessage Byte) :
    (server.onNativeEvent parse hello message).written = server.written := by
  cases message with
  | connect fd connection => rfl
  | close fd => rfl
  | data fd payload =>
    unfold EpollServer.onNativeEvent
    dsimp only
    split
    · split
      · rfl
      split
      · rfl
      split <;> rfl
    · rfl

/-- Only the system call takes bytes. -/
theorem written_next {event : EpollEvent Byte} (h : ∀ count, event ≠ .write count) :
    (server.next parse event).written = server.written := by
  cases event with
  | dispatch hello =>
    unfold EpollServer.next
    dsimp only
    split
    · rfl
    · rw [written_onNativeEvent]
  | write count => exact absurd rfl (h count)
  | _ => rfl

theorem addressed_next_iff (h : server.Consistent) {event : EpollEvent Byte}
    (henabled : server.Enabled event) :
    (server.next parse event).Addressed ↔ server.Addressed ∧ server.SendsUnused event := by
  by_cases hwrite : ∃ count, event = .write count
  · obtain ⟨count, rfl⟩ := hwrite
    obtain ⟨-, sending, hsending, hopen, -⟩ := henabled
    obtain ⟨connection, hconnection⟩ := Option.isSome_iff_exists.1 hopen
    have hsendingSome : server.sending = some sending := hsending
    have hwritten : (server.next parse (.write count)).written =
        server.written ++ [⟨sending.peer, connection, sending.remaining.take count⟩] := by
      simp [EpollServer.next, EpollServer.writeBytes, hsendingSome, hconnection]
    have heq := h.connection_eq_iff hsendingSome hconnection
    unfold Addressed SendsUnused
    rw [hwritten]
    simp [or_imp, forall_and, hsendingSome, heq]
  · have hsame : (server.next parse event).written = server.written :=
      written_next fun count heq ↦ hwrite ⟨count, heq⟩
    unfold Addressed
    rw [hsame]
    cases event with
    | write count => exact absurd ⟨count, rfl⟩ hwrite
    | _ => simp [SendsUnused]

/-- In a run, no byte reaches a wrong connection exactly if whenever bytes are taken the descriptor
has not been used again. -/
theorem addressed_iff_guardedRun (parse : List Byte → Option Value) {server : EpollServer Byte}
    {events : List (EpollEvent Byte)} (h : (system parse).Run start events server) :
    server.Addressed ↔ (system parse).GuardedRun SendsUnused start events server := by
  apply h.iff_guardedRun Consistent ?_ ?_ consistent_start
  · intro written hmem
    cases hmem
  · rintro server event _ hconsistent ⟨-, rfl⟩
    exact hconsistent.next event
  · rintro server event _ hconsistent ⟨henabled, rfl⟩
    exact addressed_next_iff hconsistent henabled

/-! ## Two connections under descriptor 5 -/

def bobHello : List Char := "\x7b\"type\":\"HELLO\",\"peerId\":\"bob\"\x7d".toList

def parseBob (payload : List Char) : Option Value :=
  if payload = bobHello then
    some (.object 1 [("type", .string "HELLO"), ("peerId", .string "bob")])
  else none

/-- The peer `bob` connects and gets the reply to its `HELLO`. -/
def bobConnects : List (EpollEvent Char) :=
  [.accept 5, .drain 5 bobHello, .dispatch [], .dispatch ['O', 'K'], .write 2, .complete]

/-- It leaves, somebody else gets its descriptor, and a message for it is sent before the close is
handled. -/
def bobLeaves : List (EpollEvent Char) :=
  [.removePeer 5, .accept 5, .send 0 ['h', 'i'], .write 2, .complete]

instance (server : EpollServer Byte) : Decidable server.Addressed :=
  inferInstanceAs (Decidable (∀ written ∈ server.written, _ = _))

theorem guardedRun_bobConnects :
    (system parseBob).GuardedRun SendsUnused start bobConnects
      (bobConnects.foldl (next parseBob) start) :=
  (addressed_iff_guardedRun parseBob
    (TransitionSystem.run_ofNext (by decide : TransitionSystem.EnabledAlong Enabled (next parseBob)
      start bobConnects))).1 (by decide)

/-- The message for `bob` goes to the connection that came after it, and no send reports a
failure. -/
theorem not_addressed_bobLeaves :
    ¬∀ (parse : List Char → Option Value) (events : List (EpollEvent Char))
      (server : EpollServer Char), (system parse).Run start events server →
        server.Addressed ∨ false ∈ server.returned := by
  intro h
  have hrun : (system parseBob).Run start (bobConnects ++ bobLeaves)
      ((bobConnects ++ bobLeaves).foldl (next parseBob) start) :=
    TransitionSystem.run_ofNext (by decide)
  have haddressed := h parseBob _ _ hrun
  revert haddressed
  decide

end EpollServer

end P2PApp.Transport
