import P2PApp.Metrics.Collector
import P2PApp.Transport.ConnectionPool

/-!
# Acknowledged delivery

`sendWithAck` opens an entry for a message, with the peers that are to acknowledge it, and starts a
timer. Each acknowledgement strikes out its sender; each expiry of the timer transmits the message
once more to those who are left, or gives up on them. Timeouts live on the event loop, together with
the manager: `setTimeout` hands out handles in order, and a timeout can expire at any moment until
it is cleared. The histogram of latencies is left out, and with it the start time of an entry.
-/

namespace P2PApp

namespace Config

def MAX_RETRY_ATTEMPTS : ℕ := 3

end Config

/-- A timeout that has neither expired nor been cleared, with the argument of its callback. -/
structure AckTimer where
  handle : ℕ
  messageId : String
  deriving DecidableEq, Repr

structure PendingEntry where
  message : P2PMessage
  attempts : ℕ
  /-- A `Set`, in the order of insertion. -/
  peers : List String
  timer : Option ℕ
  deriving DecidableEq, Repr

/-- An `ACK`: the id in its payload, if this can be parsed and has one, and the sender. -/
structure AckMessage where
  ackId : Option String
  sender : String
  deriving DecidableEq, Repr

inductive AckEffect
  /-- `client.send(message)`, on the client dialled for the peer. -/
  | send (peerId : String) (message : P2PMessage)
  /-- `connectionPool.broadcast(message, excludePeerIds)`. -/
  | broadcast (message : P2PMessage) (excludePeerIds : List String)
  /-- `emit('delivery:confirmed', messageId)`. -/
  | confirmed (messageId : String)
  /-- `emit('delivery:failed', { messageId, failedPeers })`. -/
  | failed (messageId : String) (failedPeers : List String)
  deriving DecidableEq, Repr

structure AckManager where
  lamportClock : LamportClock
  pendingAcks : OrderedMap String PendingEntry
  timers : List AckTimer
  /-- How many timeouts have been set. -/
  handles : ℕ
  collector : MetricsCollector

namespace AckManager

def new : AckManager := ⟨.new, ∅, [], 0, .new⟩

/-- `new Set(peerIds)`. -/
def setOf (peerIds : List String) : List String := peerIds.reverse.dedup.reverse

/-- The client that has been dialled for the peer is connected. -/
def HasClient (pool : ConnectionPool) (peerId : String) : Prop :=
  (pool.outboundConnections.get? peerId).any WSClient.isConnected = true

instance (pool : ConnectionPool) (peerId : String) : Decidable (HasClient pool peerId) :=
  inferInstanceAs (Decidable (_ = true))

def transmit (pool : ConnectionPool) (message : P2PMessage) (peerIds : List String) :
    List AckEffect :=
  peerIds.map fun peerId ↦
    if HasClient pool peerId then .send peerId message
    else .broadcast message (pool.outboundConnections.keys.filter fun id ↦ id ≠ peerId)

def startTimer (manager : AckManager) (messageId : String) : AckManager :=
  match manager.pendingAcks.get? messageId with
  | none => manager
  | some entry =>
    { manager with
      timers := manager.timers ++ [⟨manager.handles, messageId⟩]
      handles := manager.handles + 1
      pendingAcks := manager.pendingAcks.set messageId
        { entry with timer := some manager.handles } }

def clearTimeout (manager : AckManager) (timer : Option ℕ) : AckManager :=
  { manager with timers := manager.timers.filter fun live ↦ some live.handle ≠ timer }

/-- A message without a timestamp gets one from the clock. -/
def stamp (manager : AckManager) (message : P2PMessage) : P2PMessage × LamportClock :=
  if message.lamportTimestamp = 0 then
    let lamportClock := manager.lamportClock.tick
    ({ message with lamportTimestamp := lamportClock.value }, lamportClock)
  else (message, manager.lamportClock)

def sendWithAck (manager : AckManager) (pool : ConnectionPool) (message : P2PMessage)
    (peerIds : List String) : AckManager × List AckEffect :=
  let (message, lamportClock) := manager.stamp message
  let pendingEntry : PendingEntry :=
    { message, attempts := 1, peers := setOf peerIds, timer := none }
  let manager := { manager with
    lamportClock
    pendingAcks := manager.pendingAcks.set message.id pendingEntry }
  (manager.startTimer message.id, transmit pool message peerIds)

def handleTimeout (manager : AckManager) (pool : ConnectionPool) (messageId : String) :
    AckManager × List AckEffect :=
  match manager.pendingAcks.get? messageId with
  | none => (manager, [])
  | some entry =>
    if Config.MAX_RETRY_ATTEMPTS ≤ entry.attempts then
      ({ manager with
          pendingAcks := manager.pendingAcks.erase messageId
          collector := manager.collector.increment "delivery_failed_total" },
        [.failed messageId entry.peers])
    else
      let entry := { entry with attempts := entry.attempts + 1 }
      let manager := { manager with pendingAcks := manager.pendingAcks.set messageId entry }
      (manager.startTimer messageId, transmit pool entry.message entry.peers)

def receiveAck (manager : AckManager) (ack : AckMessage) : AckManager × List AckEffect :=
  match ack.ackId with
  -- The payload is malformed, or has no `ackId`.
  | none => (manager, [])
  | some messageId =>
    match manager.pendingAcks.get? messageId with
    | none => (manager, [])
    | some entry =>
      let peers := entry.peers.filter fun peerId ↦ peerId ≠ ack.sender
      if peers = [] then
        let manager := manager.clearTimeout entry.timer
        ({ manager with
            pendingAcks := manager.pendingAcks.erase messageId
            collector := manager.collector.increment "delivery_confirmed_total" },
          [.confirmed messageId])
      else
        ({ manager with pendingAcks := manager.pendingAcks.set messageId { entry with peers } }, [])

/-- The callback of a timeout. -/
def expire (manager : AckManager) (pool : ConnectionPool) (timer : AckTimer) :
    AckManager × List AckEffect :=
  handleTimeout { manager with timers := manager.timers.filter fun live ↦ live ≠ timer } pool
    timer.messageId

/-- What happens to a manager, with the pool that it finds. -/
inductive Event
  | sendWithAck (pool : ConnectionPool) (message : P2PMessage) (peerIds : List String)
  | receiveAck (ack : AckMessage)
  | expire (pool : ConnectionPool) (timer : AckTimer)

def next (manager : AckManager) : Event → AckManager × List AckEffect
  | .sendWithAck pool message peerIds => manager.sendWithAck pool message peerIds
  | .receiveAck ack => manager.receiveAck ack
  | .expire pool timer => manager.expire pool timer

/-! ## What each operation does -/

theorem mem_setOf {peerIds : List String} {peerId : String} :
    peerId ∈ setOf peerIds ↔ peerId ∈ peerIds := by
  simp [setOf]

theorem setOf_of_nodup {peerIds : List String} (h : peerIds.Nodup) : setOf peerIds = peerIds := by
  rw [setOf, (List.nodup_reverse.2 h).dedup, List.reverse_reverse]

theorem stamp_id (manager : AckManager) (message : P2PMessage) :
    (manager.stamp message).1.id = message.id := by
  unfold stamp
  split <;> rfl

/-- The entry that is pending under an id after `_startTimer` for it. -/
theorem startTimer_of_some {manager : AckManager} {messageId : String} {entry : PendingEntry}
    (h : manager.pendingAcks.get? messageId = some entry) :
    manager.startTimer messageId =
      { manager with
        timers := manager.timers ++ [⟨manager.handles, messageId⟩]
        handles := manager.handles + 1
        pendingAcks := manager.pendingAcks.set messageId
          { entry with timer := some manager.handles } } := by
  simp [startTimer, h]

variable (manager : AckManager) (pool : ConnectionPool)

theorem sendWithAck_spec (message : P2PMessage) (peerIds : List String) :
    (manager.sendWithAck pool message peerIds).2 =
        transmit pool (manager.stamp message).1 peerIds ∧
      (manager.sendWithAck pool message peerIds).1.timers =
        manager.timers ++ [⟨manager.handles, message.id⟩] ∧
      (manager.sendWithAck pool message peerIds).1.handles = manager.handles + 1 ∧
      ∀ other, (manager.sendWithAck pool message peerIds).1.pendingAcks.get? other =
        if other = message.id then some
          { message := (manager.stamp message).1, attempts := 1, peers := setOf peerIds
            timer := some manager.handles }
        else manager.pendingAcks.get? other := by
  unfold sendWithAck
  dsimp only
  rw [startTimer_of_some (OrderedMap.get?_set_self _ _ _), stamp_id]
  refine ⟨rfl, rfl, rfl, fun other ↦ ?_⟩
  rw [OrderedMap.get?_set, OrderedMap.get?_set]
  split <;> rfl

/-- A timeout gives up after the last attempt, and makes one more before. -/
theorem handleTimeout_cases {messageId : String} {entry : PendingEntry}
    (hentry : manager.pendingAcks.get? messageId = some entry) :
    (Config.MAX_RETRY_ATTEMPTS ≤ entry.attempts ∧
      (manager.handleTimeout pool messageId).2 = [.failed messageId entry.peers] ∧
      (manager.handleTimeout pool messageId).1.timers = manager.timers ∧
      (manager.handleTimeout pool messageId).1.handles = manager.handles ∧
      ∀ other, (manager.handleTimeout pool messageId).1.pendingAcks.get? other =
        if other = messageId then none else manager.pendingAcks.get? other) ∨
    (entry.attempts < Config.MAX_RETRY_ATTEMPTS ∧
      (manager.handleTimeout pool messageId).2 = transmit pool entry.message entry.peers ∧
      (manager.handleTimeout pool messageId).1.timers =
        manager.timers ++ [⟨manager.handles, messageId⟩] ∧
      (manager.handleTimeout pool messageId).1.handles = manager.handles + 1 ∧
      ∀ other, (manager.handleTimeout pool messageId).1.pendingAcks.get? other =
        if other = messageId then some
          { entry with attempts := entry.attempts + 1, timer := some manager.handles }
        else manager.pendingAcks.get? other) := by
  unfold handleTimeout
  rw [hentry]
  dsimp only
  split
  · rename_i hlast
    exact .inl ⟨hlast, rfl, rfl, rfl, fun other ↦ OrderedMap.get?_erase _ _ _⟩
  · rename_i hmore
    refine .inr ⟨not_le.1 hmore, ?_⟩
    rw [startTimer_of_some (OrderedMap.get?_set_self _ _ _)]
    refine ⟨rfl, rfl, rfl, fun other ↦ ?_⟩
    rw [OrderedMap.get?_set, OrderedMap.get?_set]
    split <;> rfl

/-- The callback of a timeout does something only if the id of its argument is pending. -/
theorem expire_cases (timer : AckTimer) :
    (manager.pendingAcks.get? timer.messageId = none ∧ (manager.expire pool timer).2 = [] ∧
      (manager.expire pool timer).1.pendingAcks = manager.pendingAcks) ∨
    ∃ entry, manager.pendingAcks.get? timer.messageId = some entry ∧
      ((Config.MAX_RETRY_ATTEMPTS ≤ entry.attempts ∧
        (manager.expire pool timer).2 = [.failed timer.messageId entry.peers] ∧
        (manager.expire pool timer).1.timers =
          manager.timers.filter (fun live ↦ live ≠ timer) ∧
        (manager.expire pool timer).1.handles = manager.handles ∧
        ∀ other, (manager.expire pool timer).1.pendingAcks.get? other =
          if other = timer.messageId then none else manager.pendingAcks.get? other) ∨
      (entry.attempts < Config.MAX_RETRY_ATTEMPTS ∧
        (manager.expire pool timer).2 = transmit pool entry.message entry.peers ∧
        (manager.expire pool timer).1.timers =
          manager.timers.filter (fun live ↦ live ≠ timer) ++
            [⟨manager.handles, timer.messageId⟩] ∧
        (manager.expire pool timer).1.handles = manager.handles + 1 ∧
        ∀ other, (manager.expire pool timer).1.pendingAcks.get? other =
          if other = timer.messageId then some
            { entry with attempts := entry.attempts + 1, timer := some manager.handles }
          else manager.pendingAcks.get? other)) := by
  cases hentry : manager.pendingAcks.get? timer.messageId with
  | none => exact .inl ⟨rfl, by simp [expire, handleTimeout, hentry],
      by simp [expire, handleTimeout, hentry]⟩
  | some entry => exact .inr ⟨entry, rfl, handleTimeout_cases _ pool hentry⟩

/-- An acknowledgement that finds no entry does nothing; others strike out their sender, and the
last one ends the delivery. -/
theorem receiveAck_cases (ack : AckMessage) :
    ((∀ messageId ∈ ack.ackId, manager.pendingAcks.get? messageId = none) ∧
      manager.receiveAck ack = (manager, [])) ∨
    ∃ messageId entry, ack.ackId = some messageId ∧
      manager.pendingAcks.get? messageId = some entry ∧
      (((∀ peerId ∈ entry.peers, peerId = ack.sender) ∧
        (manager.receiveAck ack).2 = [.confirmed messageId] ∧
        (manager.receiveAck ack).1.timers =
          manager.timers.filter (fun live ↦ some live.handle ≠ entry.timer) ∧
        (manager.receiveAck ack).1.handles = manager.handles ∧
        ∀ other, (manager.receiveAck ack).1.pendingAcks.get? other =
          if other = messageId then none else manager.pendingAcks.get? other) ∨
      ((∃ peerId ∈ entry.peers, peerId ≠ ack.sender) ∧ (manager.receiveAck ack).2 = [] ∧
        (manager.receiveAck ack).1.timers = manager.timers ∧
        (manager.receiveAck ack).1.handles = manager.handles ∧
        ∀ other, (manager.receiveAck ack).1.pendingAcks.get? other =
          if other = messageId then some
            { entry with peers := entry.peers.filter fun peerId ↦ peerId ≠ ack.sender }
          else manager.pendingAcks.get? other)) := by
  unfold receiveAck
  cases hid : ack.ackId with
  | none => exact .inl ⟨by simp, rfl⟩
  | some messageId =>
    dsimp only
    cases hentry : manager.pendingAcks.get? messageId with
    | none => exact .inl ⟨by simpa using hentry, rfl⟩
    | some entry =>
      refine .inr ⟨messageId, entry, rfl, hentry, ?_⟩
      dsimp only
      split
      · rename_i hnone
        refine .inl ⟨by simpa using hnone, rfl, rfl, rfl, fun other ↦ ?_⟩
        exact OrderedMap.get?_erase _ _ _
      · rename_i hsome
        refine .inr ⟨by simpa using hsome, rfl, rfl, rfl, fun other ↦ ?_⟩
        exact OrderedMap.get?_set _ _ _ _

end AckManager

end P2PApp
