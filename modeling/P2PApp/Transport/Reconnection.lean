import Mathlib.Data.List.Range
import P2PApp.Transport.OutboundQueue

/-!
# Reconnecting and giving up

A client of the pool connects once. Whenever its socket closes it waits and tries again, twice as
long each time, and after a number of attempts in a row it gives up. A socket that opens starts the
count anew.

The closes since a socket opened last, and the waits between them, are recorded beside the session.
-/

namespace P2PApp.Outbound

structure Outage (Message : Type*) where
  session : Session Message
  closes : ℕ
  waits : List ℕ

/-- The wait behind a number of attempts. -/
def delayOf (attempts : ℕ) : ℕ :=
  min (Config.INITIAL_RECONNECT_DELAY_MS * 2 ^ attempts) Config.MAX_RECONNECT_DELAY_MS

/-- The next wait is twice as long, up to the maximum. -/
theorem min_delayOf_mul_two (attempts : ℕ) :
    min (delayOf attempts * 2) Config.MAX_RECONNECT_DELAY_MS = delayOf (attempts + 1) := by
  unfold delayOf
  rw [pow_succ, ← Nat.mul_assoc]
  omega

namespace Outage

open Session (Event)

variable {Message : Type*}

def start (localPeerId : String) (localPublicKey : Option String) : Outage Message where
  session := .new localPeerId localPublicKey
  closes := 0
  waits := []

/-- The record after an event that led to the session. -/
def record (outage : Outage Message) (event : Event Message) (session : Session Message) :
    Outage Message :=
  match event with
  | .opened .. => ⟨session, 0, []⟩
  | .closed _ =>
    { session
      closes := outage.closes + 1
      waits := if outage.session.timersSet < session.timersSet then
          outage.waits ++ [outage.session.client.reconnectDelay]
        else outage.waits }
  | .send _ | .connect | .closing _ | .timer _ | .disconnect => { outage with session }

def next (outage : Outage Message) (event : Event Message) : Option (Outage Message) :=
  if outage.session.Enabled event then (outage.session.next event).map (outage.record event)
  else none

def system : TransitionSystem (Outage Message) (Event Message) := .ofPartial next

/-- The pool connects a client once, right after its construction. -/
def Pooled (outage : Outage Message) : Event Message → Prop
  | .connect => outage.session.sockets = []
  | .disconnect => False
  | .send _ | .opened .. | .closing _ | .closed _ | .timer _ => True

instance (outage : Outage Message) : DecidablePred outage.Pooled := fun event ↦
  match event with
  | .connect => inferInstanceAs (Decidable (outage.session.sockets = []))
  | .disconnect => inferInstanceAs (Decidable False)
  | .send _ | .opened .. | .closing _ | .closed _ | .timer _ => inferInstanceAs (Decidable True)

/-! ## One attempt at a time -/

def AllClosed (session : Session Message) (count : ℕ) : Prop :=
  ∀ socket < count, session.stateOf socket = some .CLOSED

/-- The client has not been connected. -/
structure Fresh (outage : Outage Message) : Prop where
  sockets : outage.session.sockets = []
  timers : outage.session.timers = []
  ws : outage.session.client.ws = none
  closes : outage.closes = 0
  failed : .failed ∉ outage.session.emitted

/-- The last socket is connecting, open or closing. -/
structure Trying (outage : Outage Message) (socket : ℕ) : Prop where
  length : outage.session.sockets.length = socket + 1
  ws : outage.session.client.ws = some socket
  current : outage.session.stateOf socket ≠ some .CLOSED
  earlier : AllClosed outage.session socket
  timers : outage.session.timers = []
  closes : outage.closes ≤ Config.MAX_RECONNECT_ATTEMPTS
  failed : .failed ∉ outage.session.emitted

/-- A timer is to start the next attempt. -/
structure Waiting (outage : Outage Message) (timer : ℕ) : Prop where
  sockets : AllClosed outage.session outage.session.sockets.length
  ws : ∃ socket < outage.session.sockets.length, outage.session.client.ws = some socket
  timers : outage.session.timers = [timer]
  closes : outage.closes ≤ Config.MAX_RECONNECT_ATTEMPTS
  failed : .failed ∉ outage.session.emitted

structure GaveUp (outage : Outage Message) : Prop where
  sockets : AllClosed outage.session outage.session.sockets.length
  connected : outage.session.sockets ≠ []
  timers : outage.session.timers = []
  closes : outage.closes = Config.MAX_RECONNECT_ATTEMPTS + 1
  failed : .failed ∈ outage.session.emitted

/-- The count of the attempts and the next wait belong to the closes that were recorded. -/
structure Counts (outage : Outage Message) : Prop where
  intent : outage.session.client.isClosedIntentionally = false
  attempts : outage.session.client.reconnectAttempts =
    min outage.closes Config.MAX_RECONNECT_ATTEMPTS
  delay : outage.session.client.reconnectDelay =
    delayOf (min outage.closes Config.MAX_RECONNECT_ATTEMPTS)
  waits : outage.waits =
    (List.range (min outage.closes Config.MAX_RECONNECT_ATTEMPTS)).map delayOf

def OneAttempt (outage : Outage Message) : Prop :=
  outage.Fresh ∨ (∃ socket, outage.Trying socket) ∨ (∃ timer, outage.Waiting timer) ∨ outage.GaveUp

/-- What is at stake in an attempt is untouched. -/
structure Session.Same (before after : Session Message) : Prop where
  sockets : after.sockets = before.sockets
  timers : after.timers = before.timers
  emitted : after.emitted = before.emitted
  ws : after.client.ws = before.client.ws
  intent : after.client.isClosedIntentionally = before.client.isClosedIntentionally
  attempts : after.client.reconnectAttempts = before.client.reconnectAttempts
  delay : after.client.reconnectDelay = before.client.reconnectDelay

variable {outage after : Outage Message}

theorem Counts.of_same (h : outage.Counts) {session : Session Message}
    (hsame : Session.Same outage.session session) : Counts { outage with session } :=
  ⟨hsame.intent.trans h.intent, hsame.attempts.trans h.attempts, hsame.delay.trans h.delay, h.waits⟩

theorem OneAttempt.of_same (h : outage.OneAttempt) {session : Session Message}
    (hsame : Session.Same outage.session session) : OneAttempt { outage with session } := by
  have hstate (socket : ℕ) : session.stateOf socket = outage.session.stateOf socket := by
    rw [Session.stateOf, hsame.sockets, Session.stateOf]
  have hclosed {count : ℕ} (h : AllClosed outage.session count) : AllClosed session count :=
    fun socket hsocket ↦ (hstate socket).trans (h socket hsocket)
  rcases h with h | ⟨socket, h⟩ | ⟨timer, h⟩ | h
  · refine .inl ⟨hsame.sockets.trans h.sockets, hsame.timers.trans h.timers, hsame.ws.trans h.ws,
      h.closes, ?_⟩
    exact hsame.emitted ▸ h.failed
  · refine .inr (.inl ⟨socket, ?_, hsame.ws.trans h.ws, ?_, hclosed h.earlier,
      hsame.timers.trans h.timers, h.closes, ?_⟩)
    · exact (congrArg List.length hsame.sockets).trans h.length
    · exact (hstate socket).trans_ne h.current
    · exact hsame.emitted ▸ h.failed
  · refine .inr (.inr (.inl ⟨timer, ?_, ?_, hsame.timers.trans h.timers, h.closes, ?_⟩))
    · exact hclosed (hsame.sockets ▸ h.sockets)
    · rw [hsame.sockets, hsame.ws]
      exact h.ws
    · exact hsame.emitted ▸ h.failed
  · refine .inr (.inr (.inr ⟨hclosed (hsame.sockets ▸ h.sockets), ?_, hsame.timers.trans h.timers,
      h.closes, ?_⟩))
    · exact hsame.sockets ▸ h.connected
    · exact hsame.emitted ▸ h.failed

theorem same_send {session next : Session Message} {message : Message}
    (h : session.next (.send message) = some next) : Session.Same session next := by
  rcases Session.send_cases h with ⟨rfl, -⟩ | ⟨socket, -, -, -, rfl⟩
  · exact ⟨rfl, rfl, rfl, rfl, rfl, rfl, rfl⟩
  · exact ⟨rfl, rfl, rfl, rfl, rfl, rfl, rfl⟩

/-! ## One lemma for each event -/

/-- A socket that is not closed is the one of the attempt. -/
theorem OneAttempt.trying (h : outage.OneAttempt) {socket : ℕ}
    (hexists : socket < outage.session.sockets.length)
    (hlive : outage.session.stateOf socket ≠ some .CLOSED) : outage.Trying socket := by
  rcases h with h | ⟨current, h⟩ | ⟨timer, h⟩ | h
  · rw [h.sockets] at hexists
    exact absurd hexists (Nat.not_lt_zero _)
  · rw [h.length] at hexists
    rcases Nat.lt_succ_iff_lt_or_eq.1 hexists with hearlier | rfl
    · exact absurd (h.earlier socket hearlier) hlive
    · exact h
  · exact absurd (h.sockets socket hexists) hlive
  · exact absurd (h.sockets socket hexists) hlive

theorem lt_length_of_stateOf {session : Session Message} {socket : ℕ} {state : ReadyState}
    (h : session.stateOf socket = some state) : socket < session.sockets.length :=
  (List.getElem?_eq_some_iff.1 h).1

/-- A socket of the attempt moves on without closing. -/
theorem Trying.setReadyState {socket : ℕ} (h : outage.Trying socket) (state : ReadyState)
    (hstate : state ≠ .CLOSED) :
    Trying { outage with session := outage.session.setReadyState socket state } socket := by
  refine ⟨?_, h.ws, ?_, fun other hother ↦ ?_, h.timers, h.closes, h.failed⟩
  · rw [← h.length]
    exact List.length_set
  · dsimp only
    rw [Session.stateOf_setReadyState, if_pos rfl]
    cases outage.session.stateOf socket with
    | none => nofun
    | some _ => simpa using hstate
  · dsimp only
    rw [Session.stateOf_setReadyState, if_neg hother.ne']
    exact h.earlier other hother

theorem Trying.opened {socket : ℕ} (h : outage.Trying socket)
    (hconnecting : outage.session.stateOf socket = some .CONNECTING)
    (hintent : outage.session.client.isClosedIntentionally = false) {subscriptions : List String}
    {session : Session Message}
    (hnext : outage.session.next (.opened socket subscriptions) = some session) :
    Trying ⟨session, 0, []⟩ socket ∧ Counts ⟨session, 0, []⟩ := by
  have hopen : (outage.session.setReadyState socket .OPEN).stateOf socket = some .OPEN := by
    rw [Session.stateOf_setReadyState, if_pos rfl, hconnecting]
    rfl
  have hopening := h.setReadyState .OPEN (by decide)
  have hgreeted := @Session.onOpen_of_open _ (outage.session.setReadyState socket .OPEN) socket h.ws
    hopen subscriptions
  obtain rfl := Option.some.inj (hgreeted.symm.trans hnext)
  refine ⟨⟨hopening.length, h.ws, hopening.current, hopening.earlier, h.timers, Nat.zero_le _, ?_⟩,
    hintent, rfl, rfl, rfl⟩
  exact fun hfailed ↦ h.failed (by simpa [Session.emit, Session.setQueue, Session.write,
    Session.setConnected, Session.setReadyState] using hfailed)

theorem allClosed_setReadyState {socket : ℕ} (h : outage.Trying socket) :
    AllClosed (outage.session.setReadyState socket .CLOSED) (socket + 1) := by
  intro other hother
  rw [Session.stateOf_setReadyState]
  split
  · rename_i heq
    subst heq
    have hexists : socket < outage.session.sockets.length := by rw [h.length]; exact hother
    rw [Session.stateOf, List.getElem?_eq_getElem hexists]
    rfl
  · rename_i hne
    exact h.earlier other (by omega)

/-- A close is followed by a wait, or by the end. -/
theorem Trying.closed {socket : ℕ} (h : outage.Trying socket) (hcounts : outage.Counts) :
    OneAttempt (outage.record (.closed socket)
        (outage.session.setReadyState socket .CLOSED).onClose) ∧
      Counts (outage.record (.closed socket)
        (outage.session.setReadyState socket .CLOSED).onClose) := by
  have hclosed := allClosed_setReadyState h
  have hlength : (outage.session.setReadyState socket .CLOSED).sockets.length = socket + 1 := by
    rw [← h.length]
    exact List.length_set
  have hattempts := hcounts.attempts
  have hfive := h.closes
  rw [Nat.min_eq_left hfive] at hattempts
  unfold Session.onClose Session.handleReconnect
  rw [if_neg (by simp [Session.emit, Session.setReadyState, hcounts.intent])]
  split
  · rename_i hlast
    have hall : outage.closes = Config.MAX_RECONNECT_ATTEMPTS :=
      le_antisymm hfive (hattempts ▸ hlast)
    have hsame : min (outage.closes + 1) Config.MAX_RECONNECT_ATTEMPTS =
        min outage.closes Config.MAX_RECONNECT_ATTEMPTS := by omega
    refine ⟨.inr (.inr (.inr ⟨?_, ?_, h.timers, congrArg (· + 1) hall, ?_⟩)), hcounts.intent,
      ?_, ?_, ?_⟩
    · exact hlength.symm ▸ hclosed
    · exact List.ne_nil_of_length_pos (hlength ▸ Nat.succ_pos socket)
    · exact List.mem_append_right _ List.mem_cons_self
    · exact hcounts.attempts.trans hsame.symm
    · exact hcounts.delay.trans (congrArg delayOf hsame.symm)
    · refine (if_neg (Nat.lt_irrefl _)).trans (hcounts.waits.trans ?_)
      rw [← hsame]
      rfl
  · rename_i hmore
    have hfewer : outage.closes < Config.MAX_RECONNECT_ATTEMPTS := by
      rw [← hattempts]
      exact not_le.1 hmore
    have hdelay := hcounts.delay
    have hwaits := hcounts.waits
    have hnext : min (outage.closes + 1) Config.MAX_RECONNECT_ATTEMPTS = outage.closes + 1 :=
      Nat.min_eq_left hfewer
    rw [Nat.min_eq_left hfive] at hdelay hwaits
    refine ⟨.inr (.inr (.inl ⟨outage.session.timersSet, ?_, ⟨socket, ?_, h.ws⟩, ?_, hfewer, ?_⟩)),
      hcounts.intent, ?_, ?_, ?_⟩
    · exact hlength.symm ▸ hclosed
    · exact hlength ▸ Nat.lt_succ_self socket
    · exact congrArg (· ++ [outage.session.timersSet]) h.timers
    · intro hfailed
      rcases List.mem_append.1 hfailed with hbefore | hnew
      · exact h.failed hbefore
      · cases List.mem_singleton.1 hnew
    · exact (congrArg (· + 1) hattempts).trans hnext.symm
    · refine Eq.trans ?_ (congrArg delayOf hnext.symm)
      refine (congrArg (fun delay ↦ min (delay * 2) Config.MAX_RECONNECT_DELAY_MS) hdelay).trans ?_
      exact min_delayOf_mul_two outage.closes
    · refine (if_pos (Nat.lt_succ_self _)).trans ?_
      refine Eq.trans ?_ (congrArg (fun count ↦ (List.range count).map delayOf) hnext.symm)
      rw [hwaits, List.range_succ, List.map_append]
      exact congrArg (fun delay ↦ _ ++ [delay]) hdelay

theorem connect_of_dead {session : Session Message}
    (hdead : ∀ socket, session.client.ws = some socket → session.stateOf socket = some .CLOSED) :
    session.connect =
      { session with
        client :=
          { session.client with
            isClosedIntentionally := false
            ws := some session.sockets.length }
        sockets := session.sockets ++ [.CONNECTING] } := by
  unfold Session.connect
  cases hws : session.client.ws with
  | none => rfl
  | some socket =>
    rw [Option.bind_some, hdead socket hws]

theorem trying_connect {session : Session Message} {closes : ℕ} {waits : List ℕ}
    (hclosed : AllClosed session session.sockets.length)
    (hws : ∀ socket, session.client.ws = some socket → socket < session.sockets.length)
    (htimers : session.timers = []) (hcloses : closes ≤ Config.MAX_RECONNECT_ATTEMPTS)
    (hfailed : .failed ∉ session.emitted) :
    Trying ⟨session.connect, closes, waits⟩ session.sockets.length := by
  rw [connect_of_dead fun socket hsocket ↦ hclosed socket (hws socket hsocket)]
  refine ⟨by simp, rfl, ?_, fun other hother ↦ ?_, htimers, hcloses, hfailed⟩
  · simp [Session.stateOf]
  · rw [Session.stateOf, List.getElem?_append_left hother]
    exact hclosed other hother

theorem Counts.connect (h : outage.Counts) {session : Session Message}
    (hclient : session.client = outage.session.client)
    (hdead : ∀ socket, session.client.ws = some socket → session.stateOf socket = some .CLOSED) :
    Counts { outage with session := session.connect } := by
  rw [connect_of_dead hdead, hclient]
  exact ⟨rfl, h.attempts, h.delay, h.waits⟩

theorem Fresh.connect (h : outage.Fresh) (hcounts : outage.Counts) :
    OneAttempt { outage with session := outage.session.connect } ∧
      Counts { outage with session := outage.session.connect } := by
  have hws (socket : ℕ) (hsocket : outage.session.client.ws = some socket) : False := by
    cases h.ws.symm.trans hsocket
  have hnone (socket : ℕ) (hsocket : socket < outage.session.sockets.length) : False := by
    rw [h.sockets] at hsocket
    exact Nat.not_lt_zero _ hsocket
  refine ⟨.inr (.inl ⟨_, trying_connect (fun socket hsocket ↦ (hnone socket hsocket).elim)
    (fun socket hsocket ↦ (hws socket hsocket).elim) h.timers (h.closes ▸ Nat.zero_le _)
    h.failed⟩), ?_⟩
  exact hcounts.connect rfl fun socket hsocket ↦ (hws socket hsocket).elim

theorem Waiting.timer {armed timer : ℕ} (h : outage.Waiting armed) (hcounts : outage.Counts)
    (htimer : timer ∈ outage.session.timers) :
    OneAttempt { outage with
        session := Session.connect { outage.session with
          timers := outage.session.timers.erase timer } } ∧
      Counts { outage with
        session := Session.connect { outage.session with
          timers := outage.session.timers.erase timer } } := by
  have hnone : outage.session.timers.erase timer = [] := by
    rw [h.timers, List.mem_singleton] at htimer
    rw [h.timers, htimer, List.erase_cons_head]
  have hws (socket : ℕ) (hsocket : outage.session.client.ws = some socket) :
      socket < outage.session.sockets.length := by
    obtain ⟨current, hcurrent, hsame⟩ := h.ws
    cases hsame.symm.trans hsocket
    exact hcurrent
  refine ⟨.inr (.inl ⟨_, trying_connect h.sockets hws hnone h.closes h.failed⟩), ?_⟩
  exact hcounts.connect rfl fun socket hsocket ↦ h.sockets socket (hws socket hsocket)

/-- The step lemma: there is one attempt at a time, and its number is known. -/
theorem oneAttempt_next {event : Event Message} (h : outage.OneAttempt) (hcounts : outage.Counts)
    (hpooled : outage.Pooled event) (hnext : outage.next event = some after) :
    after.OneAttempt ∧ after.Counts := by
  unfold next at hnext
  split at hnext
  · rename_i henabled
    obtain ⟨session, hsession, rfl⟩ := Option.map_eq_some_iff.1 hnext
    cases event with
    | send message =>
      have hsame := same_send hsession
      exact ⟨h.of_same hsame, hcounts.of_same hsame⟩
    | connect =>
      cases hsession
      rcases h with h | ⟨socket, h⟩ | ⟨timer, h⟩ | h
      · exact h.connect hcounts
      · have hlength := h.length
        rw [show outage.session.sockets = [] from hpooled] at hlength
        cases hlength
      · obtain ⟨socket, hsocket, -⟩ := h.ws
        rw [show outage.session.sockets = [] from hpooled] at hsocket
        exact absurd hsocket (Nat.not_lt_zero _)
      · exact absurd hpooled h.connected
    | opened socket subscriptions =>
      have htrying := h.trying (lt_length_of_stateOf henabled) (henabled.trans_ne nofun)
      have hopened := htrying.opened henabled hcounts.intent hsession
      exact ⟨.inr (.inl ⟨socket, hopened.1⟩), hopened.2⟩
    | closing socket =>
      cases hsession
      have hexists : socket < outage.session.sockets.length := by
        rcases henabled with hstate | hstate
        · exact lt_length_of_stateOf hstate
        · exact lt_length_of_stateOf hstate
      have hlive : outage.session.stateOf socket ≠ some .CLOSED := by
        rcases henabled with hstate | hstate
        · exact hstate.trans_ne nofun
        · exact hstate.trans_ne nofun
      have hclosing := (h.trying hexists hlive).setReadyState .CLOSING nofun
      exact ⟨.inr (.inl ⟨socket, hclosing⟩), hcounts.intent, hcounts.attempts, hcounts.delay,
        hcounts.waits⟩
    | closed socket =>
      cases hsession
      exact (h.trying henabled.1 henabled.2).closed hcounts
    | timer timer =>
      cases hsession
      rcases h with h | ⟨socket, h⟩ | ⟨armed, h⟩ | h
      · rw [Session.Enabled, h.timers] at henabled
        cases henabled
      · rw [Session.Enabled, h.timers] at henabled
        cases henabled
      · exact h.timer hcounts henabled
      · rw [Session.Enabled, h.timers] at henabled
        cases henabled
    | disconnect => exact hpooled.elim
  · cases hnext

theorem oneAttempt_of_run {localPeerId : String} {localPublicKey : Option String}
    {events : List (Event Message)}
    (hrun : system.GuardedRun Pooled (start localPeerId localPublicKey) events outage) :
    outage.OneAttempt ∧ outage.Counts := by
  have hkept (before : Outage Message) (event : Event Message) (after : Outage Message)
      (h : before.OneAttempt ∧ before.Counts) (hpooled : before.Pooled event)
      (hstep : system.step before event after) : after.OneAttempt ∧ after.Counts :=
    oneAttempt_next h.1 h.2 hpooled hstep
  refine hrun.invariant hkept ⟨.inl ⟨rfl, rfl, rfl, rfl, nofun⟩, rfl, rfl, rfl, rfl⟩

/-- A client of the pool gives up at the close that follows the last attempt, after waits that
double. Up to then it always has either one socket or one timer. -/
theorem gives_up_iff {localPeerId : String} {localPublicKey : Option String}
    {events : List (Event Message)}
    (hrun : system.GuardedRun Pooled (start localPeerId localPublicKey) events outage)
    (hconnected : outage.session.sockets ≠ []) :
    (.failed ∈ outage.session.emitted ↔ outage.closes = Config.MAX_RECONNECT_ATTEMPTS + 1) ∧
      outage.waits =
        (List.range (min outage.closes Config.MAX_RECONNECT_ATTEMPTS)).map delayOf ∧
      (.failed ∉ outage.session.emitted →
        (∃ timer, outage.session.timers = [timer] ∧
            AllClosed outage.session outage.session.sockets.length) ∨
          outage.session.timers = [] ∧ ∃ socket, outage.session.stateOf socket ≠ some .CLOSED ∧
            outage.session.sockets.length = socket + 1 ∧ AllClosed outage.session socket) := by
  obtain ⟨hattempt, hcounts⟩ := oneAttempt_of_run hrun
  refine ⟨?_, hcounts.waits, fun hkept ↦ ?_⟩
  · rcases hattempt with h | ⟨socket, h⟩ | ⟨timer, h⟩ | h
    · exact absurd h.sockets hconnected
    · exact iff_of_false h.failed fun hcloses ↦ absurd (hcloses ▸ h.closes) (Nat.not_succ_le_self _)
    · exact iff_of_false h.failed fun hcloses ↦ absurd (hcloses ▸ h.closes) (Nat.not_succ_le_self _)
    · exact iff_of_true h.failed h.closes
  · rcases hattempt with h | ⟨socket, h⟩ | ⟨timer, h⟩ | h
    · exact absurd h.sockets hconnected
    · exact .inr ⟨h.timers, socket, h.current, h.length, h.earlier⟩
    · exact .inl ⟨timer, h.timers, h.sockets⟩
    · exact absurd h.failed hkept

/-- A client whose first six sockets all close before they open. -/
def unreachable : List (Event String) :=
  [.connect, .closed 0, .timer 0, .closed 1, .timer 1, .closed 2, .timer 2, .closed 3, .timer 3,
    .closed 4, .timer 4, .closed 5]

def unreachablePeer : Outage String :=
  (unreachable.foldlM next (start "alice" none)).get (by decide +kernel)

example : unreachablePeer.waits = [1000, 2000, 4000, 8000, 16000] := by decide +kernel

theorem gives_up_iff_unreachable :
    (.failed ∈ unreachablePeer.session.emitted ↔
        unreachablePeer.closes = Config.MAX_RECONNECT_ATTEMPTS + 1) ∧
      unreachablePeer.waits =
        (List.range (min unreachablePeer.closes Config.MAX_RECONNECT_ATTEMPTS)).map delayOf ∧
      (.failed ∉ unreachablePeer.session.emitted →
        (∃ timer, unreachablePeer.session.timers = [timer] ∧
            AllClosed unreachablePeer.session unreachablePeer.session.sockets.length) ∨
          unreachablePeer.session.timers = [] ∧
            ∃ socket, unreachablePeer.session.stateOf socket ≠ some .CLOSED ∧
              unreachablePeer.session.sockets.length = socket + 1 ∧
                AllClosed unreachablePeer.session socket) :=
  gives_up_iff (TransitionSystem.guardedRun_ofPartial (Option.some_get _).symm
    (by decide +kernel : SafeAlong next Pooled (start "alice" none) unreachable))
    (by decide +kernel)

end Outage

end P2PApp.Outbound
