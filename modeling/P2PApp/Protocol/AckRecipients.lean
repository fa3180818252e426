import P2PApp.Library.TransitionSystem
import P2PApp.Protocol.AckManager
import P2PApp.Transport.Fanout

/-!
# Who gets a message that is to be acknowledged

A message goes over the client dialled for a peer if this is connected. Otherwise it is broadcast,
and everybody else is to be excluded; but the excluded are taken from the outbound connections
alone, and a broadcast goes to the inbound ones as well. A log next to the manager records who got a
copy, over any run of first transmissions and retries, with any pools.
-/

namespace P2PApp

/-- A manager, and what has been handed out so far. -/
structure AckRun where
  manager : AckManager
  /-- For each id, the peers of the last `sendWithAck` for it. -/
  peerIds : String → List String
  /-- The recipients of all copies, each with the peers that the message was sent to. -/
  copies : List (List String × String)

namespace AckRun

open AckManager

/-- The peers that are handed a copy. -/
def recipients (pool : ConnectionPool) : AckEffect → List String
  | .send peerId _ => [peerId]
  | .broadcast _ excludePeerIds => (pool.copies excludePeerIds).map Prod.fst
  | .confirmed _ | .failed .. => []

def new : AckRun := ⟨.new, fun _ ↦ [], []⟩

/-- Log the copies of a message that was sent to the given peers. -/
def log (run : AckRun) (pool : ConnectionPool) (peerIds : List String)
    (step : AckManager × List AckEffect) : AckRun :=
  { run with
    manager := step.1
    copies := run.copies ++ (step.2.flatMap (recipients pool)).map fun peerId ↦ (peerIds, peerId) }

def next (run : AckRun) : Event → AckRun
  | .sendWithAck pool message peerIds =>
    { run.log pool peerIds (run.manager.sendWithAck pool message peerIds) with
      peerIds := Function.update run.peerIds message.id peerIds }
  | .receiveAck ack => { run with manager := (run.manager.receiveAck ack).1 }
  | .expire pool timer =>
    run.log pool (run.peerIds timer.messageId) (run.manager.expire pool timer)

def Enabled (run : AckRun) : Event → Prop
  | .sendWithAck .. | .receiveAck _ => True
  | .expire _ timer => timer ∈ run.manager.timers

def system : TransitionSystem AckRun Event := .ofNext Enabled next

/-- Every copy went to one of the peers that the message was sent to. -/
def Addressed (run : AckRun) : Prop := ∀ copy ∈ run.copies, copy.2 ∈ copy.1

/-- All of the peers have connected clients, or whoever is connected only inbound is one of those
that the message was sent to. -/
def Contained (pool : ConnectionPool) (peers peerIds : List String) : Prop :=
  (∀ peerId ∈ peers, HasClient pool peerId) ∨
    ∀ peerId ∈ pool.inboundConnections.keys,
      peerId ∈ pool.outboundConnections.keys ∨ peerId ∈ peerIds

/-- Whenever the message is transmitted, it is contained. -/
def TransmitsContained (run : AckRun) : Event → Prop
  | .sendWithAck pool _ peerIds => Contained pool peerIds peerIds
  | .receiveAck _ => True
  | .expire pool timer => ∀ entry, run.manager.pendingAcks.get? timer.messageId = some entry →
    entry.attempts < Config.MAX_RETRY_ATTEMPTS →
      Contained pool entry.peers (run.peerIds timer.messageId)

/-- Those who are still to acknowledge a message are among the peers that it was sent to. -/
def Outstanding (run : AckRun) : Prop :=
  ∀ messageId entry, run.manager.pendingAcks.get? messageId = some entry →
    entry.peers ⊆ run.peerIds messageId

/-! ## One transmission -/

/-- Excluding the other outbound peers leaves the peer, and the peers that are only inbound. -/
theorem mem_recipients_fallback {pool : ConnectionPool} {peerId other : String}
    {message : P2PMessage} :
    other ∈ recipients pool
        (.broadcast message (pool.outboundConnections.keys.filter fun id ↦ id ≠ peerId)) ↔
      (other = peerId ∧ other ∈ pool.outboundConnections.keys) ∨
        (other ∈ pool.inboundConnections.keys ∧
          (other = peerId ∨ other ∉ pool.outboundConnections.keys)) := by
  rw [recipients, ConnectionPool.mem_map_copies, ConnectionPool.mem_getAllPeerIds, List.mem_filter,
    decide_eq_true_eq]
  tauto

theorem recipients_transmit_iff {pool : ConnectionPool} {message : P2PMessage}
    {peers peerIds : List String} (hsub : peers ⊆ peerIds) :
    (∀ peerId ∈ (transmit pool message peers).flatMap (recipients pool), peerId ∈ peerIds) ↔
      Contained pool peers peerIds := by
  have heffect (peerId) (hpeerId : peerId ∈ peers) :
      (∀ other ∈ recipients pool (if HasClient pool peerId then .send peerId message
        else .broadcast message (pool.outboundConnections.keys.filter fun id ↦ id ≠ peerId)),
          other ∈ peerIds) ↔
        (HasClient pool peerId ∨ ∀ other ∈ pool.inboundConnections.keys,
          other ∈ pool.outboundConnections.keys ∨ other ∈ peerIds) := by
    have hmem := hsub hpeerId
    split
    · rename_i hclient
      simp [recipients, hclient, hmem]
    · rename_i hclient
      simp only [mem_recipients_fallback, hclient, false_or]
      constructor
      · intro h other hother
        by_cases hout : other ∈ pool.outboundConnections.keys
        · exact .inl hout
        · exact .inr (h other (.inr ⟨hother, .inr hout⟩))
      · rintro h other (⟨rfl, _⟩ | ⟨hother, rfl | hout⟩)
        · exact hmem
        · exact hmem
        · exact (h other hother).resolve_left hout
  simp only [transmit, List.mem_flatMap, List.mem_map, forall_exists_index, and_imp,
    forall_apply_eq_imp_iff₂]
  unfold Contained
  constructor
  · intro h
    by_cases hclients : ∀ peerId ∈ peers, HasClient pool peerId
    · exact .inl hclients
    · push Not at hclients
      obtain ⟨peerId, hpeerId, hclient⟩ := hclients
      exact .inr (((heffect peerId hpeerId).1 fun other hother ↦
        h other peerId hpeerId hother).resolve_left hclient)
  · intro h other peerId hpeerId hother
    refine (heffect peerId hpeerId).2 ?_ other hother
    exact h.imp (fun hclients ↦ hclients peerId hpeerId) id

/-! ## Over whole runs -/

theorem addressed_log_iff {run : AckRun} {pool : ConnectionPool} {peerIds : List String}
    {step : AckManager × List AckEffect} {message : P2PMessage} {peers : List String}
    (hstep : step.2 = transmit pool message peers) (hsub : peers ⊆ peerIds) :
    Addressed (run.log pool peerIds step) ↔ Addressed run ∧ Contained pool peers peerIds := by
  rw [← @recipients_transmit_iff pool message _ _ hsub, ← hstep]
  unfold Addressed log
  simp only [List.mem_append, or_imp, forall_and, List.mem_map, forall_exists_index, and_imp,
    forall_apply_eq_imp_iff₂]

/-- A step that replaces one entry has to answer for that one only. -/
theorem Outstanding.of_get? {run run' : AckRun} (h : Outstanding run) {messageId : String}
    {value : Option PendingEntry} (hvalue : ∀ entry ∈ value, entry.peers ⊆ run'.peerIds messageId)
    (hpeerIds : ∀ other, other ≠ messageId → run'.peerIds other = run.peerIds other)
    (hget : ∀ other, run'.manager.pendingAcks.get? other =
      if other = messageId then value else run.manager.pendingAcks.get? other) :
    Outstanding run' := by
  intro other entry hentry
  rw [hget] at hentry
  by_cases heq : other = messageId
  · rw [if_pos heq] at hentry
    rw [heq]
    exact hvalue entry hentry
  · rw [if_neg heq] at hentry
    rw [hpeerIds other heq]
    exact h other entry hentry

theorem Outstanding.next {run : AckRun} {event : Event} (h : Outstanding run) :
    Outstanding (run.next event) := by
  cases event with
  | sendWithAck pool message peerIds =>
    obtain ⟨-, -, -, hget⟩ := run.manager.sendWithAck_spec pool message peerIds
    refine h.of_get? ?_ (fun other hother ↦ Function.update_of_ne hother _ _) hget
    rintro entry ⟨⟩
    show setOf peerIds ⊆ Function.update run.peerIds message.id peerIds message.id
    rw [Function.update_self]
    exact fun peerId hpeerId ↦ mem_setOf.1 hpeerId
  | receiveAck ack =>
    rcases run.manager.receiveAck_cases ack with ⟨_, heq⟩ |
      ⟨ackId, before, _, hbefore, ⟨_, _, _, _, hget⟩ | ⟨_, _, _, _, hget⟩⟩
    · exact fun messageId entry hentry ↦ h messageId entry
        ((congrArg (fun step ↦ step.1.pendingAcks.get? messageId) heq).symm.trans hentry)
    · refine h.of_get? (fun entry hentry ↦ ?_) (fun _ _ ↦ rfl) hget
      cases hentry
    · refine h.of_get? ?_ (fun _ _ ↦ rfl) hget
      rintro entry ⟨⟩
      exact List.Subset.trans (List.filter_subset_self _) (h ackId before hbefore)
  | expire pool timer =>
    rcases run.manager.expire_cases pool timer with ⟨_, _, heq⟩ |
      ⟨before, hbefore, ⟨_, _, _, _, hget⟩ | ⟨_, _, _, _, hget⟩⟩
    · exact fun messageId entry hentry ↦ h messageId entry
        ((congrArg (OrderedMap.get? · messageId) heq).symm.trans hentry)
    · refine h.of_get? (fun entry hentry ↦ ?_) (fun _ _ ↦ rfl) hget
      cases hentry
    · refine h.of_get? ?_ (fun _ _ ↦ rfl) hget
      rintro entry ⟨⟩
      exact h timer.messageId before hbefore

/-- A step hands copies to the addressed peers alone exactly if what it transmits is contained. -/
theorem addressed_next_iff {run : AckRun} (h : Outstanding run) (event : Event) :
    Addressed (run.next event) ↔ Addressed run ∧ TransmitsContained run event := by
  cases event with
  | sendWithAck pool message peerIds =>
    obtain ⟨heffects, -⟩ := run.manager.sendWithAck_spec pool message peerIds
    exact addressed_log_iff heffects (List.Subset.refl peerIds)
  | receiveAck ack => exact (and_iff_left trivial).symm
  | expire pool timer =>
    unfold TransmitsContained
    rcases run.manager.expire_cases pool timer with ⟨hnone, heffects, _⟩ |
      ⟨entry, hentry, ⟨hlast, heffects, _⟩ | ⟨hmore, heffects, _⟩⟩
    · have hcopies : (run.next (.expire pool timer)).copies = run.copies := by
        simp [AckRun.next, log, heffects]
      simp [Addressed, hcopies, hnone]
    · have hcopies : (run.next (.expire pool timer)).copies = run.copies := by
        simp [AckRun.next, log, heffects, recipients]
      simp [Addressed, hcopies, hentry, not_lt.2 hlast]
    · simp only [hentry, Option.some.injEq, forall_eq', hmore, true_implies]
      exact addressed_log_iff heffects (h timer.messageId entry hentry)

/-- Over any run, all copies go to the peers that the messages were sent to exactly if everything
that is transmitted on the way is contained. -/
theorem addressed_iff_contained {events : List Event} {run : AckRun}
    (h : system.Run new events run) :
    Addressed run ↔ system.GuardedRun TransmitsContained new events run := by
  refine h.iff_guardedRun Outstanding ?_ ?_ ?_ ?_
  · rintro before event _ hbefore ⟨_, rfl⟩
    exact hbefore.next
  · rintro before event _ hbefore ⟨_, rfl⟩
    exact addressed_next_iff hbefore event
  · intro messageId entry hentry
    cases hentry
  · intro copy hcopy
    cases hcopy

/-- The client dialled for `bob` is still connecting, and `carol` has connected by herself. -/
def dialling : ConnectionPool :=
  ((ConnectionPool.new "alice").connect 0 "ws://10.0.0.2:8080" "bob").addInboundConnection
    ⟨0, "carol"⟩

def parcel : P2PMessage where
  id := "parcel"
  type := .chat
  ttl := 10
  lamportTimestamp := 1
  sender := "alice"
  senderPublicKey := none
  topic := "dm:bob"
  payload := .text "hello"
  createdAt := "2026-01-01T00:00:00.000Z"
  powNonce := 0
  signature := none
  routingPath := none

/-- Once the client is connected, nobody else gets the message. -/
theorem addressed_connected :
    Addressed (new.next (.sendWithAck (dialling.setConnected "bob" true) parcel ["bob"])) := by
  have hclient : HasClient (dialling.setConnected "bob" true) "bob" := by decide +kernel
  have hall : ∀ peerId ∈ ["bob"], HasClient (dialling.setConnected "bob" true) peerId := by
    intro peerId hpeerId
    rwa [List.mem_singleton.1 hpeerId]
  have hguarded : system.GuardedRun TransmitsContained new
      [.sendWithAck (dialling.setConnected "bob" true) parcel ["bob"]]
      (new.next (.sendWithAck (dialling.setConnected "bob" true) parcel ["bob"])) :=
    .snoc (.nil _) (.inl hall) ⟨trivial, rfl⟩
  exact (addressed_iff_contained hguarded.run).2 hguarded

/-- Until then `carol` gets a copy of what is meant for `bob`. -/
theorem not_addressed_dialling :
    ¬∀ events run, system.Run new events run → Addressed run := by
  intro h
  have hrun : system.Run new [.sendWithAck dialling parcel ["bob"]]
      (new.next (.sendWithAck dialling parcel ["bob"])) := .snoc (.nil _) ⟨trivial, rfl⟩
  have hcopy : (["bob"], "carol") ∈ (new.next (.sendWithAck dialling parcel ["bob"])).copies := by
    decide +kernel
  exact absurd (h _ _ hrun _ hcopy) (by decide)

end AckRun

end P2PApp
