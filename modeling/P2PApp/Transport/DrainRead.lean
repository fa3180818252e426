import Mathlib.Data.Nat.Notation
import P2PApp.Library.TransitionSystem

/-!
# The native readers

`TCPServer` and `TCPClient` wait for a socket with `epoll`, which is edge triggered, and read it
until `recv` has no more. What was read is handed to JavaScript when the loop leaves with `EAGAIN`.
A wake-up that reports a hang-up closes the connection without reading at all. In the server, and in
the client after an error, what one loop has read is dropped if the same loop also finds the end.

One connection is looked at, from the first bytes that arrive on it to the event that tells
JavaScript about its end.
-/

namespace P2PApp.Transport

namespace Reader

/-- What `recv` returns while the connection lasts: a byte at least, or `EAGAIN`. -/
inductive Arrival (Byte : Type)
  | data (first : Byte) (more : List Byte)
  | eagain
  deriving DecidableEq

/-- What it returns after that: nothing, when the peer has closed normally, or an error. -/
inductive Ending
  | eof
  | hardError (strerror : String)
  deriving DecidableEq

/-- The bits of a wake-up that the loops look at. -/
structure EpollMask where
  epollin : Bool
  epollerr : Bool
  epollhup : Bool
  epollrdhup : Bool
  deriving DecidableEq

/-- What is handed to the thread-safe function: a `ClientEvent`, or an `InboundMessage` with
`isConnect`, a payload, or `isClose`. -/
inductive Event (Byte : Type)
  | connected
  | data (payload : List Byte)
  | close
  | error (text : String)
  deriving DecidableEq

def Event.payload {Byte : Type} : Event Byte → List Byte
  | .data payload => payload
  | .connected | .close | .error _ => []

/-- The connection is over for JavaScript. -/
def Event.Ends {Byte : Type} : Event Byte → Prop
  | .close | .error _ => True
  | .connected | .data _ => False

structure NativeConnection (Byte : Type) where
  /-- What `recv` is still to return. -/
  unread : List (Arrival Byte)
  ending : Ending
  connected : Bool
  handed : List (Event Byte)
  closed : Bool
  deriving DecidableEq

variable {Byte : Type}

/-- The bytes that the peer sent. -/
def bytes : List (Arrival Byte) → List Byte
  | [] => []
  | .data first more :: unread => first :: more ++ bytes unread
  | .eagain :: unread => bytes unread

/-- How the drain loop is left. -/
inductive DrainExit (Byte : Type)
  | drained (accumulated : List Byte) (unread : List (Arrival Byte))
  | ended (accumulated : List Byte)

/-- The loop of both `DrainRead`s. -/
def drain (accumulated : List Byte) : List (Arrival Byte) → DrainExit Byte
  | [] => .ended accumulated
  | .data first more :: unread => drain (accumulated ++ first :: more) unread
  | .eagain :: unread => .drained accumulated unread

def NativeConnection.hand (connection : NativeConnection Byte) (event : Event Byte) :
    NativeConnection Byte :=
  { connection with handed := connection.handed ++ [event] }

/-- Nothing is handed over for an empty string. -/
def NativeConnection.handData (connection : NativeConnection Byte) (accumulated : List Byte) :
    NativeConnection Byte :=
  if accumulated = [] then connection else connection.hand (.data accumulated)

/-- The last event; the loop does not wait for this socket any more. -/
def NativeConnection.finish (connection : NativeConnection Byte) (event : Event Byte) :
    NativeConnection Byte :=
  { connection.hand event with closed := true }

/-- All that was sent was handed over before the one event that ends the connection. -/
def DeliversAll (sent : List Byte) (handed : List (Event Byte)) : Prop :=
  ∃ before last, handed = before ++ [last] ∧ last.Ends ∧ (∀ event ∈ before, ¬event.Ends) ∧
    before.flatMap Event.payload = sent

/-- `DrainRead` would find the end. -/
def ReachesEnd (connection : NativeConnection Byte) : Prop := .eagain ∉ connection.unread

end Reader

open Reader

variable {Byte : Type}

namespace TCPServer

/-- An accepted connection. -/
def accept (arrivals : List (Arrival Byte)) (ending : Ending) : NativeConnection Byte where
  unread := arrivals
  ending
  connected := true
  handed := [.connected]
  closed := false

def removePeer (connection : NativeConnection Byte) : NativeConnection Byte :=
  connection.finish .close

def drainRead (connection : NativeConnection Byte) : NativeConnection Byte :=
  match drain [] connection.unread with
  | .drained accumulated unread => { connection with unread }.handData accumulated
  | .ended _ => removePeer { connection with unread := [] }

/-- What `EventLoop` does with one event of `epoll_wait`. -/
def eventLoop (connection : NativeConnection Byte) (mask : EpollMask) : NativeConnection Byte :=
  if mask.epollerr ∨ mask.epollhup then removePeer connection
  else if mask.epollin then drainRead connection
  else connection

def system : TransitionSystem (NativeConnection Byte) EpollMask :=
  .ofNext (fun connection _ ↦ connection.closed = false) eventLoop

/-- A wake-up closes the connection when nothing is left to read. -/
def ClosesEmpty (connection : NativeConnection Byte) (mask : EpollMask) : Prop :=
  (mask.epollerr ∨ mask.epollhup) ∨ (mask.epollin ∧ ReachesEnd connection) →
    bytes connection.unread = []

end TCPServer

namespace TCPClient

/-- What the loop sees of a wake-up; `getsockopt` is called before the connection is established
only. -/
structure WakeUp where
  mask : EpollMask
  soError : Option String
  deriving DecidableEq

/-- `Connect` has returned. -/
def connect (arrivals : List (Arrival Byte)) (ending : Ending) : NativeConnection Byte where
  unread := arrivals
  ending
  connected := false
  handed := []
  closed := false

def drainRead (connection : NativeConnection Byte) : NativeConnection Byte :=
  match drain [] connection.unread with
  | .drained accumulated unread => { connection with unread }.handData accumulated
  | .ended accumulated =>
    match connection.ending with
    | .eof => ({ connection with unread := [] }.handData accumulated).finish .close
    | .hardError strerror => { connection with unread := [] }.finish (.error strerror)

def eventLoop (connection : NativeConnection Byte) (wakeUp : WakeUp) : NativeConnection Byte :=
  if connection.connected = false then
    match wakeUp.soError with
    | some strerror => connection.finish (.error ("connect() completed with error: " ++ strerror))
    | none => { connection with connected := true }.hand .connected
  else if wakeUp.mask.epollerr ∨ wakeUp.mask.epollhup ∨ wakeUp.mask.epollrdhup then
    connection.finish .close
  else if wakeUp.mask.epollin then drainRead connection
  else connection

def system : TransitionSystem (NativeConnection Byte) WakeUp :=
  .ofNext (fun connection _ ↦ connection.closed = false) eventLoop

/-- A wake-up closes the connection when nothing is left to read, or by reading to a normal end. -/
def ClosesEmpty (connection : NativeConnection Byte) (wakeUp : WakeUp) : Prop :=
  (connection.connected = false ∧ wakeUp.soError ≠ none) ∨
      (connection.connected = true ∧
        ((wakeUp.mask.epollerr ∨ wakeUp.mask.epollhup ∨ wakeUp.mask.epollrdhup) ∨
          (wakeUp.mask.epollin ∧ ReachesEnd connection ∧ connection.ending ≠ .eof))) →
    bytes connection.unread = []

end TCPClient

namespace Reader

/-! ## The drain loop -/

variable {connection : NativeConnection Byte}

/-- The loop leaves with all that arrived up to `EAGAIN`, or up to the end. -/
theorem drain_cases (accumulated : List Byte) (unread : List (Arrival Byte)) :
    (.eagain ∉ unread ∧ drain accumulated unread = .ended (accumulated ++ bytes unread)) ∨
      (.eagain ∈ unread ∧ ∃ read rest,
        drain accumulated unread = .drained (accumulated ++ read) rest ∧
          read ++ bytes rest = bytes unread) := by
  induction unread generalizing accumulated with
  | nil => exact .inl ⟨List.not_mem_nil, by rw [drain, bytes, List.append_nil]⟩
  | cons arrival unread ih =>
    cases arrival with
    | eagain =>
      exact .inr ⟨List.mem_cons_self, [], unread, by rw [drain, List.append_nil], rfl⟩
    | data first more =>
      have hmem : Arrival.eagain ∈ Arrival.data first more :: unread ↔ Arrival.eagain ∈ unread := by
        simp
      rw [hmem, drain, bytes]
      rcases ih (accumulated ++ first :: more) with
        ⟨hnot, hended⟩ | ⟨hin, read, rest, hdrained, hsum⟩
      · exact .inl ⟨hnot, by rw [hended, List.append_assoc]⟩
      · refine .inr ⟨hin, first :: more ++ read, rest, ?_, ?_⟩
        · rw [hdrained, List.append_assoc]
        · rw [List.append_assoc, hsum]

/-! ## What has been handed over -/

/-- As long as the connection lasts, every byte was handed over or is unread, and JavaScript has not
been told of an end. -/
def Flows (sent : List Byte) (connection : NativeConnection Byte) : Prop :=
  connection.closed = false → (∀ event ∈ connection.handed, ¬event.Ends) ∧
    connection.handed.flatMap Event.payload ++ bytes connection.unread = sent

/-- When it is over, all that was sent was handed over. -/
def Delivers (sent : List Byte) (connection : NativeConnection Byte) : Prop :=
  connection.closed = true → DeliversAll sent connection.handed

variable {sent : List Byte}

theorem payload_handData (connection : NativeConnection Byte) (accumulated : List Byte) :
    (connection.handData accumulated).handed.flatMap Event.payload =
      connection.handed.flatMap Event.payload ++ accumulated := by
  unfold NativeConnection.handData
  split
  · rename_i hempty
    rw [hempty, List.append_nil]
  · simp [NativeConnection.hand, Event.payload]

theorem not_ends_handData (h : ∀ event ∈ connection.handed, ¬event.Ends) (accumulated : List Byte) :
    ∀ event ∈ (connection.handData accumulated).handed, ¬event.Ends := by
  unfold NativeConnection.handData
  split
  · exact h
  · intro event hevent
    rcases List.mem_append.1 hevent with hold | hnew
    · exact h event hold
    · rw [List.mem_singleton.1 hnew]
      exact id

theorem closed_handData (connection : NativeConnection Byte) (accumulated : List Byte) :
    (connection.handData accumulated).closed = connection.closed := by
  unfold NativeConnection.handData
  split
  · rfl
  · rfl

theorem unread_handData (connection : NativeConnection Byte) (accumulated : List Byte) :
    (connection.handData accumulated).unread = connection.unread := by
  unfold NativeConnection.handData
  split
  · rfl
  · rfl

/-- With the last event, what was handed over before is all that is handed over. -/
theorem delivers_finish_iff (h : ∀ event ∈ connection.handed, ¬event.Ends)
    {event : Event Byte} (hends : event.Ends) :
    Delivers sent (connection.finish event) ↔
      connection.handed.flatMap Event.payload = sent := by
  constructor
  · intro hdelivers
    obtain ⟨before, last, hhanded, -, -, hsent⟩ := hdelivers rfl
    have hbefore : connection.handed = before := (List.append_inj' hhanded rfl).1
    rw [hbefore]
    exact hsent
  · intro hsent _
    exact ⟨connection.handed, event, rfl, hends, h, hsent⟩

theorem flows_finish (connection : NativeConnection Byte) (event : Event Byte) :
    Flows sent (connection.finish event) := fun hclosed ↦ by cases hclosed

/-- An end that drops what is unread, or has just been read. -/
theorem Flows.finish_iff (h : Flows sent connection) (hopen : connection.closed = false)
    {event : Event Byte} (hends : event.Ends) :
    Delivers sent (connection.finish event) ↔ bytes connection.unread = [] := by
  obtain ⟨hnone, hsum⟩ := h hopen
  rw [delivers_finish_iff hnone hends, ← hsum, List.self_eq_append_right]

/-- An end at which what has been read is handed over. -/
theorem Flows.delivers_handData (h : Flows sent connection) (hopen : connection.closed = false)
    {event : Event Byte} (hends : event.Ends) :
    Delivers sent ((NativeConnection.handData { connection with unread := [] }
      (bytes connection.unread)).finish event) := by
  obtain ⟨hnone, hsum⟩ := h hopen
  have hnone' : ∀ event ∈ ({ connection with unread := [] } : NativeConnection Byte).handed,
      ¬event.Ends := hnone
  rw [delivers_finish_iff (not_ends_handData hnone' _) hends, payload_handData]
  exact hsum

/-- The loop left with `EAGAIN`. -/
theorem Flows.drained (h : Flows sent connection) (hopen : connection.closed = false)
    {read : List Byte} {rest : List (Arrival Byte)}
    (hsum : read ++ bytes rest = bytes connection.unread) :
    Flows sent (NativeConnection.handData { connection with unread := rest } read) := by
  intro _
  obtain ⟨hnone, htotal⟩ := h hopen
  have hnone' : ∀ event ∈ ({ connection with unread := rest } : NativeConnection Byte).handed,
      ¬event.Ends := hnone
  refine ⟨not_ends_handData hnone' read, ?_⟩
  rw [payload_handData, unread_handData, List.append_assoc, hsum]
  exact htotal

theorem delivers_of_open (hopen : connection.closed = false) : Delivers sent connection :=
  fun hclosed ↦ by
    rw [hopen] at hclosed
    cases hclosed

end Reader

/-! ## One wake-up -/

variable {sent : List Byte} {connection : NativeConnection Byte}

namespace TCPServer

theorem flows_eventLoop (h : Flows sent connection) (hopen : connection.closed = false)
    (mask : EpollMask) : Flows sent (eventLoop connection mask) := by
  unfold eventLoop
  split
  · exact flows_finish connection .close
  · split
    · unfold drainRead
      rcases drain_cases [] connection.unread with
        ⟨-, hended⟩ | ⟨-, read, rest, hdrained, hsum⟩
      · rw [hended]
        exact flows_finish _ .close
      · rw [hdrained]
        exact h.drained hopen hsum
    · exact h

/-- The step lemma. -/
theorem delivers_eventLoop_iff (h : Flows sent connection) (hopen : connection.closed = false)
    (mask : EpollMask) :
    Delivers sent (eventLoop connection mask) ↔ ClosesEmpty connection mask := by
  unfold eventLoop ClosesEmpty
  by_cases hhangUp : mask.epollerr ∨ mask.epollhup
  · rw [if_pos hhangUp, forall_prop_of_true (.inl hhangUp)]
    exact h.finish_iff hopen trivial
  rw [if_neg hhangUp, or_iff_right hhangUp]
  by_cases hin : mask.epollin = true
  · rw [if_pos hin, drainRead]
    rcases drain_cases [] connection.unread with ⟨hnot, hended⟩ | ⟨hmem, read, rest, hdrained, -⟩
    · rw [hended, forall_prop_of_true ⟨hin, hnot⟩]
      exact h.finish_iff hopen trivial
    · rw [hdrained]
      refine iff_of_true (delivers_of_open ?_) fun hends ↦ absurd hmem hends.2
      rw [closed_handData]
      exact hopen
  · rw [if_neg hin]
    exact iff_of_true (delivers_of_open hopen) fun hends ↦ absurd hends.1 hin

end TCPServer

namespace TCPClient

theorem flows_eventLoop (h : Flows sent connection) (hopen : connection.closed = false)
    (wakeUp : WakeUp) : Flows sent (eventLoop connection wakeUp) := by
  unfold eventLoop
  split
  · cases wakeUp.soError with
    | some strerror => exact flows_finish connection _
    | none =>
      intro _
      obtain ⟨hnone, hsum⟩ := h hopen
      refine ⟨fun event hevent ↦ ?_, ?_⟩
      · rcases List.mem_append.1 hevent with hold | hnew
        · exact hnone event hold
        · rw [List.mem_singleton.1 hnew]
          exact id
      · have hpayload : (connection.handed ++ [Event.connected]).flatMap Event.payload =
            connection.handed.flatMap Event.payload := by simp [Event.payload]
        exact (congrArg (· ++ bytes connection.unread) hpayload).trans hsum
  · split
    · exact flows_finish connection .close
    · split
      · unfold drainRead
        rcases drain_cases [] connection.unread with
          ⟨-, hended⟩ | ⟨-, read, rest, hdrained, hsum⟩
        · rw [hended]
          cases connection.ending with
          | eof => exact flows_finish _ .close
          | hardError strerror => exact flows_finish _ (.error strerror)
        · rw [hdrained]
          exact h.drained hopen hsum
      · exact h

/-- The step lemma. -/
theorem delivers_eventLoop_iff (h : Flows sent connection) (hopen : connection.closed = false)
    (wakeUp : WakeUp) :
    Delivers sent (eventLoop connection wakeUp) ↔ ClosesEmpty connection wakeUp := by
  unfold eventLoop ClosesEmpty
  cases hconnected : connection.connected with
  | false =>
    rw [if_pos rfl]
    cases wakeUp.soError with
    | some strerror =>
      rw [forall_prop_of_true (.inl ⟨rfl, by simp⟩)]
      exact h.finish_iff hopen trivial
    | none => exact iff_of_true (delivers_of_open hopen) fun hends ↦ by simp at hends
  | true =>
    rw [if_neg (by simp)]
    by_cases hhangUp : wakeUp.mask.epollerr ∨ wakeUp.mask.epollhup ∨ wakeUp.mask.epollrdhup
    · rw [if_pos hhangUp, forall_prop_of_true (.inr ⟨rfl, .inl hhangUp⟩)]
      exact h.finish_iff hopen trivial
    rw [if_neg hhangUp]
    by_cases hin : wakeUp.mask.epollin = true
    · rw [if_pos hin, drainRead]
      rcases drain_cases [] connection.unread with
        ⟨hnot, hended⟩ | ⟨hmem, read, rest, hdrained, -⟩
      · rw [hended]
        cases hending : connection.ending with
        | eof =>
          refine iff_of_true ?_ fun hends ↦ ?_
          · have hclose : (Event.close : Event Byte).Ends := trivial
            have hdelivers := h.delivers_handData hopen hclose
            rw [hending] at hdelivers
            exact hdelivers
          · simp [hhangUp] at hends
        | hardError strerror =>
          rw [forall_prop_of_true (.inr ⟨rfl, .inr ⟨hin, hnot, by simp⟩⟩)]
          exact h.finish_iff hopen trivial
      · rw [hdrained]
        refine iff_of_true (delivers_of_open ?_) fun hends ↦ ?_
        · rw [closed_handData]
          exact hopen
        · simp [hhangUp, ReachesEnd, hmem] at hends
    · rw [if_neg hin]
      refine iff_of_true (delivers_of_open hopen) fun hends ↦ ?_
      simp [hhangUp, hin] at hends

end TCPClient

/-! ## Connections -/

namespace Reader

theorem flows_accept (arrivals : List (Arrival Byte)) (ending : Ending) :
    Flows (bytes arrivals) (TCPServer.accept arrivals ending) := by
  intro _
  refine ⟨fun event hevent ↦ ?_, rfl⟩
  rw [List.mem_singleton.1 hevent]
  exact id

theorem flows_connect (arrivals : List (Arrival Byte)) (ending : Ending) :
    Flows (bytes arrivals) (TCPClient.connect arrivals ending) :=
  fun _ ↦ ⟨fun _ hevent ↦ absurd hevent List.not_mem_nil, rfl⟩

/-- A reader whose steps are delivered exactly under a guard. -/
theorem delivers_iff_guardedRun {ε : Type}
    {eventLoop : NativeConnection Byte → ε → NativeConnection Byte}
    {guard : NativeConnection Byte → ε → Prop}
    (hflows : ∀ connection event, Flows sent connection → connection.closed = false →
      Flows sent (eventLoop connection event))
    (hstep : ∀ connection event, Flows sent connection → connection.closed = false →
      (Delivers sent (eventLoop connection event) ↔ guard connection event))
    {start last : NativeConnection Byte} {events : List ε}
    (h : (TransitionSystem.ofNext (fun connection _ ↦ connection.closed = false)
      eventLoop).Run start events last) (hstart : Flows sent start)
    (hopen : start.closed = false) :
    Delivers sent last ↔ (TransitionSystem.ofNext (fun connection _ ↦ connection.closed = false)
      eventLoop).GuardedRun guard start events last := by
  refine h.iff_guardedRun (Flows sent) ?_ ?_ hstart (delivers_of_open hopen)
  · rintro connection event after hbefore ⟨hstill, rfl⟩
    exact hflows connection event hbefore hstill
  · rintro connection event after hbefore ⟨hstill, rfl⟩
    rw [and_iff_right (delivers_of_open hstill)]
    exact hstep connection event hbefore hstill

end Reader

/-- JavaScript gets all that the peer sent before it is told of the end, exactly if no connection is
closed with something left to read. In the server this includes what the last loop has read, in the
client what the last loop has read before an error. -/
theorem readers_deliver_iff (arrivals : List (Arrival Byte)) (ending : Ending) :
    (∀ masks last, TCPServer.system.Run (TCPServer.accept arrivals ending) masks last →
      (Delivers (bytes arrivals) last ↔
        TCPServer.system.GuardedRun TCPServer.ClosesEmpty (TCPServer.accept arrivals ending) masks
          last)) ∧
      ∀ wakeUps last, TCPClient.system.Run (TCPClient.connect arrivals ending) wakeUps last →
        (Delivers (bytes arrivals) last ↔
          TCPClient.system.GuardedRun TCPClient.ClosesEmpty (TCPClient.connect arrivals ending)
            wakeUps last) := by
  refine ⟨fun masks last hrun ↦ ?_, fun wakeUps last hrun ↦ ?_⟩
  · exact delivers_iff_guardedRun (fun _ mask hflows hopen ↦
        TCPServer.flows_eventLoop hflows hopen mask)
      (fun _ mask hflows hopen ↦ TCPServer.delivers_eventLoop_iff hflows hopen mask) hrun
      (flows_accept arrivals ending) rfl
  · exact delivers_iff_guardedRun (fun _ wakeUp hflows hopen ↦
        TCPClient.flows_eventLoop hflows hopen wakeUp)
      (fun _ wakeUp hflows hopen ↦ TCPClient.delivers_eventLoop_iff hflows hopen wakeUp) hrun
      (flows_connect arrivals ending) rfl

/-! ## A message and the end in one wake-up -/

/-- Two bytes have arrived, and the peer has closed. -/
def shortMessage : List (Arrival ℕ) := [.data 123 [125]]

def readable : EpollMask := ⟨true, false, false, false⟩

def readableHangUp : EpollMask := ⟨true, false, false, true⟩

/-- Without a hang-up the client reads both bytes, and the end after them. -/
theorem readers_deliver_iff_shortMessage :
    DeliversAll [123, 125] (([⟨readable, none⟩, ⟨readable, none⟩] : List TCPClient.WakeUp).foldl
      TCPClient.eventLoop (TCPClient.connect shortMessage .eof)).handed := by
  have hconnected : TCPClient.ClosesEmpty (TCPClient.connect shortMessage .eof)
      ⟨readable, none⟩ := by
    simp [TCPClient.ClosesEmpty, TCPClient.connect]
  have hread : TCPClient.ClosesEmpty
      (TCPClient.eventLoop (TCPClient.connect shortMessage .eof) ⟨readable, none⟩)
      ⟨readable, none⟩ := by
    simp [TCPClient.ClosesEmpty, TCPClient.connect, TCPClient.eventLoop, NativeConnection.hand,
      readable]
  have hguarded : TCPClient.system.GuardedRun TCPClient.ClosesEmpty
      (TCPClient.connect shortMessage .eof) [⟨readable, none⟩, ⟨readable, none⟩]
      (([⟨readable, none⟩, ⟨readable, none⟩] : List TCPClient.WakeUp).foldl
        TCPClient.eventLoop (TCPClient.connect shortMessage .eof)) :=
    TransitionSystem.guardedRun_ofNext ⟨⟨rfl, hconnected⟩, ⟨rfl, hread⟩, trivial⟩
  exact ((readers_deliver_iff shortMessage .eof).2 _ _ hguarded.run).2 hguarded (by decide)

/-- The hang-up comes with the bytes: the server drops what it has read, the client does not
read. -/
theorem not_readers_deliver :
    (¬∀ masks last, TCPServer.system.Run (TCPServer.accept shortMessage .eof) masks last →
        Delivers (bytes shortMessage) last) ∧
      ¬∀ wakeUps last, TCPClient.system.Run (TCPClient.connect shortMessage .eof) wakeUps last →
        Delivers (bytes shortMessage) last := by
  constructor
  · intro h
    have hrun : TCPServer.system.Run (TCPServer.accept shortMessage .eof) [readableHangUp]
        ([readableHangUp].foldl TCPServer.eventLoop (TCPServer.accept shortMessage .eof)) :=
      TransitionSystem.run_ofNext ⟨rfl, trivial⟩
    obtain ⟨before, last, hhanded, -, -, hsent⟩ := h _ _ hrun rfl
    have hbefore : [Event.connected] = before := (List.append_inj' hhanded rfl).1
    rw [← hbefore] at hsent
    cases hsent
  · intro h
    have hrun : TCPClient.system.Run (TCPClient.connect shortMessage .eof)
        [⟨readable, none⟩, ⟨readableHangUp, none⟩]
        (([⟨readable, none⟩, ⟨readableHangUp, none⟩] : List TCPClient.WakeUp).foldl
          TCPClient.eventLoop (TCPClient.connect shortMessage .eof)) :=
      TransitionSystem.run_ofNext ⟨rfl, rfl, trivial⟩
    obtain ⟨before, last, hhanded, -, -, hsent⟩ := h _ _ hrun rfl
    have hbefore : [Event.connected] = before := (List.append_inj' hhanded rfl).1
    rw [← hbefore] at hsent
    cases hsent

end P2PApp.Transport
