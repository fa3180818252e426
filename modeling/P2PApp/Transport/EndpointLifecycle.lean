import Mathlib.Data.Finset.Option
import Mathlib.Data.Finset.SDiff
import Mathlib.Data.Nat.Notation
import P2PApp.Library.TransitionSystem

/-!
# What the native endpoints hold

`TCPClient` and `TCPServer` hold a socket, an `epoll` instance, a thread and a thread-safe function,
the server a socket for each client besides. They are taken in `Connect` and `Start`, given back in
`Disconnect` and `Stop`, and the destructor stops once more before it destroys the members. All of
the latter is skipped when `running_` is not set, which the loop of the client resets by itself.

A thread-safe function is made by the wrapper for each call of `connect` and `start`. The destructor
runs when JavaScript has dropped the wrapper and collects it.
-/

namespace P2PApp.Transport

/-- The two classes; only the server accepts, and only the loop of the client resets `running_`. -/
inductive EndpointClass
  | tcpClient
  | tcpServer
  deriving DecidableEq

/-- What `loop_thread_` stands for; it can be joined unless it is absent. -/
inductive LoopThread
  | absent
  | inLoop
  | returned
  deriving DecidableEq

structure Endpoint where
  /-- `sock_fd_` or `listen_fd_`, which is `-1` for `none`. -/
  socketFd : Option ℕ
  epollFd : Option ℕ
  running : Bool
  loopThread : LoopThread
  clients : Finset ℕ
  /-- The descriptors that were opened and not closed since. -/
  opened : Finset ℕ
  /-- The thread-safe functions that were made and not released since. -/
  unreleased : ℕ
  /-- `std::terminate` was called. -/
  terminated : Bool
  deriving DecidableEq

/-- How far `Connect` and `Start` come. -/
inductive Startup
  | noSocket
  /-- No address, no connection, no port or no backlog. -/
  | unbound (socket : ℕ)
  | noEpoll (socket : ℕ)
  /-- The client does not look at the result of `epoll_ctl`. -/
  | unregistered (socket epoll : ℕ)
  | started (socket epoll : ℕ)
  deriving DecidableEq

/-- The descriptors that the kernel returns. -/
def Startup.descriptors : Startup → List ℕ
  | .noSocket => []
  | .unbound socket | .noEpoll socket => [socket]
  | .unregistered socket epoll | .started socket epoll => [socket, epoll]

def Startup.Succeeds : Startup → Prop
  | .started _ _ => True
  | _ => False

inductive EndpointEvent
  | start (startup : Startup)
  | stop
  /-- The loop of the client sees a failed connection, a hang-up, the end of the data or an error,
  and resets `running_`. -/
  | endsItself
  /-- `epoll_wait` fails, and the loop is left with `break`. -/
  | loopBreaks
  | accept (fd : ℕ)
  | removePeer (fd : ℕ)
  deriving DecidableEq

namespace Endpoint

def new : Endpoint where
  socketFd := none
  epollFd := none
  running := false
  loopThread := .absent
  clients := ∅
  opened := ∅
  unreleased := 0
  terminated := false

/-- `Connect` or `Start` after the test of `running_`. -/
def startUp (endpoint : Endpoint) : Startup → Endpoint
  | .noSocket => { endpoint with socketFd := none }
  | .unbound socket =>
    { endpoint with
      socketFd := some socket
      opened := insert socket endpoint.opened }
  | .noEpoll socket =>
    { endpoint with
      socketFd := some socket
      epollFd := none
      opened := insert socket endpoint.opened }
  | .unregistered socket epoll =>
    { endpoint with
      socketFd := some socket
      epollFd := some epoll
      opened := insert epoll (insert socket endpoint.opened) }
  | .started socket epoll =>
    -- Assigning a thread to one that can be joined terminates the process.
    { endpoint with
      socketFd := some socket
      epollFd := some epoll
      opened := insert epoll (insert socket endpoint.opened)
      running := true
      loopThread := .inLoop
      terminated := endpoint.terminated || endpoint.loopThread != .absent }

/-- The wrapper makes a thread-safe function before it calls `Connect` or `Start`. -/
def start (endpoint : Endpoint) (startup : Startup) : Endpoint :=
  let endpoint := { endpoint with unreleased := endpoint.unreleased + 1 }
  if endpoint.running then endpoint else endpoint.startUp startup

/-- The descriptors that `Disconnect` and `Stop` close. -/
def closing (endpoint : Endpoint) : Finset ℕ :=
  endpoint.epollFd.toFinset ∪ endpoint.socketFd.toFinset ∪ endpoint.clients

/-- `Disconnect` and `Stop`; the thread returns as `running_` is reset, and is joined. -/
def stop (endpoint : Endpoint) : Endpoint :=
  if endpoint.running then
    { endpoint with
      running := false
      epollFd := none
      socketFd := none
      loopThread := .absent
      clients := ∅
      opened := endpoint.opened \ endpoint.closing
      unreleased := endpoint.unreleased - 1 }
  else endpoint

/-- The destructor, and after it that of `loop_thread_`. -/
def destroy (endpoint : Endpoint) : Endpoint :=
  let endpoint := endpoint.stop
  { endpoint with terminated := endpoint.terminated || endpoint.loopThread != .absent }

def next (endpoint : Endpoint) : EndpointEvent → Endpoint
  | .start startup => endpoint.start startup
  | .stop => endpoint.stop
  | .endsItself => { endpoint with running := false, loopThread := .returned }
  | .loopBreaks => { endpoint with loopThread := .returned }
  | .accept fd =>
    { endpoint with
      clients := insert fd endpoint.clients
      opened := insert fd endpoint.opened }
  | .removePeer fd =>
    { endpoint with
      clients := endpoint.clients.erase fd
      opened := endpoint.opened.erase fd }

/-- Descriptors are new to this endpoint, and only its own thread runs the loop. -/
def Enabled (kind : EndpointClass) (endpoint : Endpoint) (event : EndpointEvent) : Prop :=
  endpoint.terminated = false ∧
    match event with
    | .start startup =>
      startup.descriptors.Nodup ∧ (∀ fd ∈ startup.descriptors, fd ∉ endpoint.opened) ∧
        (kind = .tcpClient → ∀ socket epoll, startup ≠ .unregistered socket epoll)
    | .stop => True
    | .endsItself => kind = .tcpClient ∧ endpoint.loopThread = .inLoop
    | .loopBreaks => endpoint.loopThread = .inLoop
    | .accept fd =>
      kind = .tcpServer ∧ endpoint.loopThread = .inLoop ∧ fd ∉ endpoint.opened
    | .removePeer fd =>
      kind = .tcpServer ∧ endpoint.loopThread = .inLoop ∧ fd ∈ endpoint.clients

def system (kind : EndpointClass) : TransitionSystem Endpoint EndpointEvent :=
  .ofNext (Enabled kind) next

/-! ## The thread -/

/-- The thread is there exactly while `running_` is set. -/
structure Joined (endpoint : Endpoint) : Prop where
  running_iff : endpoint.running = true ↔ endpoint.loopThread ≠ .absent
  alive : endpoint.terminated = false

/-- A thread is left that nothing will join. -/
def Detached (endpoint : Endpoint) : Prop :=
  endpoint.terminated = true ∨ endpoint.running = false ∧ endpoint.loopThread = .returned

theorem joined_new : Joined new := ⟨by decide, rfl⟩

variable {kind : EndpointClass} {endpoint : Endpoint} {event : EndpointEvent} {fd : ℕ}

theorem start_started (hidle : endpoint.running = false) (socket epoll : ℕ) :
    endpoint.start (.started socket epoll) =
      { endpoint with
        socketFd := some socket
        epollFd := some epoll
        opened := insert epoll (insert socket endpoint.opened)
        running := true
        loopThread := .inLoop
        unreleased := endpoint.unreleased + 1
        terminated := endpoint.terminated || endpoint.loopThread != .absent } := by
  simp [start, startUp, hidle]

/-- A start that goes through, or one that leaves a thread-safe function and nothing for `stop`. -/
theorem start_cases (endpoint : Endpoint) (startup : Startup) :
    (endpoint.running = false ∧ ∃ socket epoll, startup = .started socket epoll) ∨
    (¬(endpoint.running = false ∧ startup.Succeeds) ∧
      (endpoint.start startup).running = endpoint.running ∧
      (endpoint.start startup).loopThread = endpoint.loopThread ∧
      (endpoint.start startup).terminated = endpoint.terminated ∧
      (endpoint.start startup).unreleased = endpoint.unreleased + 1) := by
  unfold start
  cases hrunning : endpoint.running with
  | true => exact .inr ⟨fun h ↦ by simp at h, by simp, rfl, rfl, rfl⟩
  | false =>
    cases startup with
    | started socket epoll => exact .inl ⟨rfl, socket, epoll, rfl⟩
    | noSocket | unbound socket | noEpoll socket | unregistered socket epoll =>
      exact .inr ⟨fun h ↦ h.2, rfl, rfl, rfl, rfl⟩

theorem Joined.start (h : Joined endpoint) (startup : Startup) :
    Joined (endpoint.start startup) := by
  rcases start_cases endpoint startup with ⟨hidle, socket, epoll, rfl⟩ |
      ⟨-, hrunning, hthread, hterminated, -⟩
  · have habsent : endpoint.loopThread = .absent := by simpa [hidle] using h.running_iff
    rw [start_started hidle]
    exact ⟨by simp, by simp [h.alive, habsent]⟩
  · exact ⟨by rw [hrunning, hthread, h.running_iff], hterminated.trans h.alive⟩

theorem Joined.stop (h : Joined endpoint) : Joined endpoint.stop := by
  unfold Endpoint.stop
  split
  · exact ⟨by simp, h.alive⟩
  · exact h

theorem Joined.next (h : Joined endpoint) (henabled : Enabled kind endpoint event)
    (hother : event ≠ .endsItself) : Joined (endpoint.next event) := by
  cases event with
  | start startup => exact h.start startup
  | stop => exact h.stop
  | endsItself => exact absurd rfl hother
  | loopBreaks =>
    have hrunning := h.running_iff.2 (by simp [henabled.2])
    exact ⟨by simp [Endpoint.next, hrunning], h.alive⟩
  | accept fd | removePeer fd => exact ⟨h.running_iff, h.alive⟩

/-- Nothing but a new start looks at such a thread, and that ends the process. -/
theorem Detached.next (h : Detached endpoint) (henabled : Enabled kind endpoint event) :
    Detached (endpoint.next event) := by
  rcases h with hterminated | ⟨hrunning, hthread⟩
  · exact absurd henabled.1 (by simp [hterminated])
  · cases event with
    | start startup =>
      rcases start_cases endpoint startup with ⟨-, socket, epoll, rfl⟩ | ⟨-, hsame, hreturned, -⟩
      · exact .inl (by simp [Endpoint.next, start_started hrunning, hthread])
      · exact .inr ⟨hsame.trans hrunning, hreturned.trans hthread⟩
    | stop => exact .inr (by simp [Endpoint.next, Endpoint.stop, hrunning, hthread])
    | endsItself => exact .inr ⟨rfl, rfl⟩
    | loopBreaks => exact .inr ⟨hrunning, rfl⟩
    | accept fd | removePeer fd => exact .inr ⟨hrunning, hthread⟩

theorem Joined.destroy (h : Joined endpoint) : endpoint.destroy.terminated = false := by
  have hthread : endpoint.stop.loopThread = .absent := by
    unfold Endpoint.stop
    split
    · rfl
    · rename_i hrunning
      by_contra hpresent
      exact hrunning (h.running_iff.2 hpresent)
  simp [Endpoint.destroy, h.stop.alive, hthread]

theorem Detached.destroy (h : Detached endpoint) : endpoint.destroy.terminated = true := by
  rcases h with hterminated | ⟨hrunning, hthread⟩
  · unfold Endpoint.destroy Endpoint.stop
    split
    · simp [hterminated]
    · simp [hterminated]
  · simp [Endpoint.destroy, Endpoint.stop, hrunning, hthread]

/-- A loop that has ended by itself leaves the thread behind, and nothing else does. -/
theorem thread_of_run {events : List EndpointEvent} {last : Endpoint}
    (h : (system kind).Run new events last) :
    (.endsItself ∈ events → Detached last) ∧ (.endsItself ∉ events → Joined last) := by
  generalize hnew : new = first at h
  induction h with
  | nil => exact ⟨fun hmem ↦ (nomatch hmem), fun _ ↦ hnew ▸ joined_new⟩
  | @snoc middle last events event hrun hstep ih =>
    obtain ⟨henabled, rfl⟩ := hstep
    obtain ⟨hdetached, hjoined⟩ := ih
    constructor
    · intro hmem
      by_cases hearlier : .endsItself ∈ events
      · exact (hdetached hearlier).next henabled
      · have hlast : event = .endsItself := by simpa [hearlier, eq_comm] using hmem
        subst hlast
        exact .inr ⟨rfl, rfl⟩
    · intro hnot
      obtain ⟨hearlier, hother⟩ : .endsItself ∉ events ∧ event ≠ .endsItself := by
        simpa [eq_comm] using hnot
      exact (hjoined hearlier).next henabled hother

/-- Every thread-safe function but the one of the running endpoint was released. -/
def Balanced (endpoint : Endpoint) : Prop :=
  endpoint.unreleased = if endpoint.running then 1 else 0

/-- What is open is what `stop` would close. -/
structure Tidy (endpoint : Endpoint) : Prop extends Joined endpoint where
  opened_eq : endpoint.opened = endpoint.closing
  idle : endpoint.running = false → endpoint.opened = ∅
  apart : ∀ fd ∈ endpoint.clients, endpoint.socketFd ≠ some fd ∧ endpoint.epollFd ≠ some fd

/-- A thread-safe function that is left is noticed by the count, whatever happens later. -/
structure Accounted (endpoint : Endpoint) : Prop where
  held : endpoint.running = true → 1 ≤ endpoint.unreleased
  looping : endpoint.loopThread = .inLoop → endpoint.running = true
  tidy : Balanced endpoint → Tidy endpoint

/-- Nothing is left of an endpoint that was destroyed. -/
def Released (endpoint : Endpoint) : Prop :=
  endpoint.opened = ∅ ∧ endpoint.unreleased = 0 ∧ endpoint.terminated = false

/-- It is started while it is idle, each start goes through, and it is stopped from outside. -/
def InOrder (endpoint : Endpoint) : EndpointEvent → Prop
  | .start startup => endpoint.running = false ∧ startup.Succeeds
  | .endsItself => False
  | .stop | .loopBreaks | .accept _ | .removePeer _ => True

theorem tidy_new : Tidy new where
  toJoined := joined_new
  opened_eq := rfl
  idle := fun _ ↦ rfl
  apart := fun fd hfd ↦ absurd hfd (Finset.notMem_empty fd)

/-- The descriptors of an idle endpoint are gone, its fields with them. -/
theorem Tidy.closing_of_idle (h : Tidy endpoint) (hidle : endpoint.running = false) :
    endpoint.closing = ∅ := by
  rw [← h.opened_eq, h.idle hidle]

theorem Tidy.stop (h : Tidy endpoint) : Tidy endpoint.stop := by
  have hjoined := h.toJoined.stop
  revert hjoined
  unfold Endpoint.stop
  split
  · intro hjoined
    have hnone : endpoint.opened \ endpoint.closing = ∅ := by
      rw [h.opened_eq, Finset.sdiff_self]
    exact ⟨hjoined, hnone, fun _ ↦ hnone, fun fd hfd ↦ absurd hfd (Finset.notMem_empty fd)⟩
  · exact fun _ ↦ h

theorem Tidy.started (h : Tidy endpoint) (hidle : endpoint.running = false) (socket epoll : ℕ) :
    Tidy (endpoint.start (.started socket epoll)) := by
  have hnone := h.closing_of_idle hidle
  have hclients : endpoint.clients = ∅ := by
    rw [← Finset.subset_empty, ← hnone]
    exact Finset.subset_union_right
  have hjoined := h.toJoined.start (.started socket epoll)
  rw [start_started hidle] at hjoined ⊢
  refine ⟨hjoined, ?_, nofun, fun fd hfd ↦ ?_⟩
  · ext fd
    simp [closing, h.idle hidle, hclients, or_comm]
  · have hfd : fd ∈ endpoint.clients := hfd
    rw [hclients] at hfd
    exact absurd hfd (Finset.notMem_empty fd)

theorem Tidy.accept (h : Tidy endpoint) (henabled : Enabled kind endpoint (.accept fd)) :
    Tidy (endpoint.next (.accept fd)) := by
  obtain ⟨-, -, hloop, hfresh⟩ := henabled
  have hrunning : endpoint.running = true := h.running_iff.2 (by simp [hloop])
  refine ⟨⟨h.running_iff, h.alive⟩, ?_, fun hidle ↦ ?_, fun client hclient ↦ ?_⟩
  · ext other
    simp only [next, closing, h.opened_eq, Finset.mem_insert, Finset.mem_union]
    tauto
  · exact absurd hrunning (by simpa [next] using hidle)
  · rcases Finset.mem_insert.1 hclient with rfl | hearlier
    · simp only [h.opened_eq, closing, Finset.mem_union, not_or, Option.mem_toFinset] at hfresh
      exact ⟨hfresh.1.2, hfresh.1.1⟩
    · exact h.apart client hearlier

theorem Tidy.removePeer (h : Tidy endpoint) (henabled : Enabled kind endpoint (.removePeer fd)) :
    Tidy (endpoint.next (.removePeer fd)) := by
  obtain ⟨-, -, hloop, hclient⟩ := henabled
  have hrunning : endpoint.running = true := h.running_iff.2 (by simp [hloop])
  obtain ⟨hsocket, hepoll⟩ := h.apart fd hclient
  refine ⟨⟨h.running_iff, h.alive⟩, ?_, fun hidle ↦ ?_, fun client hleft ↦ ?_⟩
  · have hkept : fd ∉ endpoint.epollFd.toFinset ∪ endpoint.socketFd.toFinset := by
      simp [hsocket, hepoll]
    simp only [next, closing, h.opened_eq, Finset.erase_union_distrib]
    rw [← Finset.erase_union_distrib, Finset.erase_eq_of_notMem hkept]
  · exact absurd hrunning (by simpa [next] using hidle)
  · exact h.apart client (Finset.mem_of_mem_erase hleft)

theorem Tidy.loopBreaks (h : Tidy endpoint) (henabled : Enabled kind endpoint .loopBreaks) :
    Tidy (endpoint.next .loopBreaks) :=
  ⟨h.toJoined.next henabled (by decide), h.opened_eq, h.idle, h.apart⟩

theorem accounted_new : Accounted new := ⟨nofun, nofun, fun _ ↦ tidy_new⟩

/-- The steps that make or release no thread-safe function. -/
theorem Accounted.of_same (h : Accounted endpoint) (hinOrder : InOrder endpoint event)
    (hrunning : (endpoint.next event).running = endpoint.running)
    (hcount : (endpoint.next event).unreleased = endpoint.unreleased)
    (hthread : (endpoint.next event).loopThread = .inLoop → endpoint.loopThread = .inLoop)
    (htidy : Tidy endpoint → Tidy (endpoint.next event)) :
    Accounted (endpoint.next event) ∧
      (Balanced (endpoint.next event) ↔ Balanced endpoint ∧ InOrder endpoint event) := by
  have hbalanced : Balanced (endpoint.next event) ↔ Balanced endpoint := by
    rw [Balanced, Balanced, hrunning, hcount]
  refine ⟨⟨?_, ?_, fun hnow ↦ htidy (h.tidy (hbalanced.1 hnow))⟩, ?_⟩
  · rw [hrunning, hcount]
    exact h.held
  · rw [hrunning]
    exact fun hloop ↦ h.looping (hthread hloop)
  · exact hbalanced.trans (and_iff_left hinOrder).symm

theorem Accounted.start (h : Accounted endpoint) (startup : Startup) :
    Accounted (endpoint.start startup) ∧
      (Balanced (endpoint.start startup) ↔
        Balanced endpoint ∧ InOrder endpoint (.start startup)) := by
  rcases start_cases endpoint startup with ⟨hidle, socket, epoll, rfl⟩ |
      ⟨hnot, hrunning, hthread, -, hcount⟩
  · have hbalanced : Balanced (endpoint.start (.started socket epoll)) ↔ Balanced endpoint := by
      simp [Balanced, start_started hidle, hidle]
    refine ⟨⟨fun _ ↦ ?_, fun _ ↦ ?_, fun hnow ↦ (h.tidy (hbalanced.1 hnow)).started hidle _ _⟩, ?_⟩
    · simp [start_started hidle]
    · simp [start_started hidle]
    · rw [hbalanced]
      exact (and_iff_left ⟨hidle, trivial⟩).symm
  · have hextra : ¬Balanced (endpoint.start startup) := by
      have hheld := h.held
      rw [Balanced, hrunning, hcount]
      split
      · rename_i hon
        have hone := hheld hon
        omega
      · omega
    refine ⟨⟨fun _ ↦ ?_, ?_, fun hnow ↦ absurd hnow hextra⟩, ?_⟩
    · rw [hcount]
      exact Nat.le_add_left _ _
    · rw [hrunning, hthread]
      exact h.looping
    · exact iff_of_false hextra fun hboth ↦ hnot hboth.2

theorem Accounted.stop (h : Accounted endpoint) :
    Accounted endpoint.stop ∧ (Balanced endpoint.stop ↔ Balanced endpoint) := by
  have hbalanced : Balanced endpoint.stop ↔ Balanced endpoint := by
    unfold Balanced Endpoint.stop
    split
    · rename_i hrunning
      have hheld := h.held hrunning
      simp only [Bool.false_eq_true, if_false]
      omega
    · rfl
  refine ⟨⟨fun hrunning ↦ ?_, fun hloop ↦ ?_, fun hnow ↦ (h.tidy (hbalanced.1 hnow)).stop⟩,
    hbalanced⟩
  · unfold Endpoint.stop at hrunning ⊢
    split at hrunning
    · cases hrunning
    · rename_i hidle
      exact absurd hrunning hidle
  · unfold Endpoint.stop at hloop ⊢
    split at hloop
    · cases hloop
    · rename_i hidle
      exact absurd (h.looping hloop) hidle

theorem Accounted.endsItself (h : Accounted endpoint)
    (hloop : endpoint.loopThread = .inLoop) :
    Accounted (endpoint.next .endsItself) ∧ ¬Balanced (endpoint.next .endsItself) := by
  have hleft : ¬Balanced (endpoint.next .endsItself) := by
    have hheld := h.held (h.looping hloop)
    simp only [Balanced, Endpoint.next, Bool.false_eq_true, if_false]
    omega
  exact ⟨⟨nofun, nofun, fun hnow ↦ absurd hnow hleft⟩, hleft⟩

/-- The only steps that leave something behind are those out of order. -/
theorem Accounted.next (h : Accounted endpoint) (henabled : Enabled kind endpoint event) :
    Accounted (endpoint.next event) ∧
      (Balanced (endpoint.next event) ↔ Balanced endpoint ∧ InOrder endpoint event) := by
  cases event with
  | start startup => exact h.start startup
  | stop =>
    obtain ⟨hafter, hbalanced⟩ := h.stop
    exact ⟨hafter, hbalanced.trans (and_iff_left trivial).symm⟩
  | endsItself =>
    obtain ⟨hafter, hleft⟩ := h.endsItself henabled.2.2
    exact ⟨hafter, iff_of_false hleft fun hboth ↦ hboth.2⟩
  | loopBreaks => exact h.of_same trivial rfl rfl nofun fun htidy ↦ htidy.loopBreaks henabled
  | accept fd => exact h.of_same trivial rfl rfl id fun htidy ↦ htidy.accept henabled
  | removePeer fd => exact h.of_same trivial rfl rfl id fun htidy ↦ htidy.removePeer henabled

/-- What is left after the destructor is what is left besides the running endpoint. -/
theorem Accounted.released_destroy_iff (h : Accounted endpoint) :
    Released endpoint.destroy ↔ Balanced endpoint := by
  obtain ⟨hafter, hbalanced⟩ := h.stop
  have hidle : endpoint.stop.running = false := by
    unfold Endpoint.stop
    split
    · rfl
    · rename_i hidle
      simpa using hidle
  rw [← hbalanced]
  constructor
  · intro hreleased
    rw [Balanced, hidle]
    exact hreleased.2.1
  · intro hnow
    have htidy := hafter.tidy hnow
    refine ⟨htidy.idle hidle, ?_, ?_⟩
    · rw [Balanced, hidle] at hnow
      exact hnow
    · have habsent : endpoint.stop.loopThread = .absent := by
        simpa [hidle] using htidy.running_iff
      simp [destroy, htidy.alive, habsent]

/-- Nothing is left of an endpoint that is collected exactly if it was started only while idle, each
start went through, and the loop never ended by itself. -/
theorem released_iff_inOrder {events : List EndpointEvent} {last : Endpoint}
    (h : (system kind).Run new events last) :
    Released last.destroy ↔ (system kind).GuardedRun InOrder new events last := by
  have hstep (before : Endpoint) (event : EndpointEvent) (after : Endpoint)
      (hbefore : Accounted before) (hone : (system kind).step before event after) :
      Accounted after ∧ (Balanced after ↔ Balanced before ∧ InOrder before event) := by
    obtain ⟨henabled, rfl⟩ := hone
    exact hbefore.next henabled
  have haccounted := h.invariant (fun s event t hs hone ↦ (hstep s event t hs hone).1) accounted_new
  rw [haccounted.released_destroy_iff]
  exact h.iff_guardedRun Accounted (fun s event t hs hone ↦ (hstep s event t hs hone).1)
    (fun s event t hs hone ↦ (hstep s event t hs hone).2) accounted_new rfl

theorem released_iff_inOrder_server :
    Released (([.start (.started 3 4), .accept 5, .removePeer 5, .accept 5, .stop] :
        List EndpointEvent).foldl next new).destroy ↔
      (system .tcpServer).GuardedRun InOrder new
        [.start (.started 3 4), .accept 5, .removePeer 5, .accept 5, .stop]
        (([.start (.started 3 4), .accept 5, .removePeer 5, .accept 5, .stop] :
          List EndpointEvent).foldl next new) :=
  released_iff_inOrder (TransitionSystem.run_ofNext (by
    simp [TransitionSystem.EnabledAlong, Enabled, new, next, start, startUp,
      Startup.descriptors]))

end Endpoint

end P2PApp.Transport
