import P2PApp.Network.World

/-!
# Causal order of time stamps

Published messages are stamped by the factory counter of their process, which delivery never
advances: the Lamport clock that it does advance stamps nothing. A message therefore carries a
later stamp than everything its process published before, and a later stamp than what the process
accepted before exactly when the counter has meanwhile reached those stamps by publications.
-/

namespace P2PApp.Network

variable {ι : Type*}

/-- An occurrence and a later one at the same process: if the later one is a publication, its
stamp is larger. -/
def Precedes (earlier : Occurrence) : Occurrence → Prop
  | .published message => earlier.message.lamportTimestamp < message.lamportTimestamp
  | .accepted _ => True

instance (earlier later : Occurrence) : Decidable (Precedes earlier later) :=
  match later with
  | .published message => inferInstanceAs
      (Decidable (earlier.message.lamportTimestamp < message.lamportTimestamp))
  | .accepted _ => .isTrue trivial

/-- Each published message carries a larger stamp than all that the process published or accepted
before it. -/
def InOrder (process : Process ι) : Prop := process.history.Pairwise Precedes

/-- The causal order of time stamps holds at every process. -/
def Causal (world : World ι) : Prop := ∀ node, InOrder (world.process node)

/-- The counter has reached the stamps of all messages that the process has accepted. -/
def CaughtUp (process : Process ι) : Prop :=
  ∀ message, .accepted message ∈ process.history →
    message.lamportTimestamp ≤ process.logicalClock

/-- A publication finds the counter caught up; the other events are unrestricted. -/
def PublishesCaughtUp (world : World ι) : Event ι → Prop
  | .publish node _ _ _ _ _ _ _ => CaughtUp (world.process node)
  | _ => True

/-- The counter has reached the stamps of all messages that the process itself published. -/
def OwnStamps (process : Process ι) : Prop :=
  ∀ message, .published message ∈ process.history →
    message.lamportTimestamp ≤ process.logicalClock

section Receive

variable (platform : Platform) (link : Connection → ι) (node : ι)

/-- Nothing is published: the history grows by accepted messages, and the counter may grow. -/
structure OnlyAccepts (before after : Process ι) : Prop where
  logicalClock : before.logicalClock ≤ after.logicalClock
  history : ∃ accepted : List P2PMessage,
    after.history = before.history ++ accepted.map Occurrence.accepted

theorem OnlyAccepts.trans {first second third : Process ι} (h : OnlyAccepts first second)
    (h' : OnlyAccepts second third) : OnlyAccepts first third := by
  obtain ⟨accepted, hhistory⟩ := h.history
  obtain ⟨later, hlater⟩ := h'.history
  refine ⟨h.logicalClock.trans h'.logicalClock, accepted ++ later, ?_⟩
  rw [hlater, hhistory, List.append_assoc, List.map_append]

/-- A change that leaves the history alone. -/
theorem onlyAccepts_of_history_eq {before after : Process ι}
    (hclock : before.logicalClock ≤ after.logicalClock) (h : after.history = before.history) :
    OnlyAccepts before after := ⟨hclock, [], by rw [h, List.map_nil, List.append_nil]⟩

theorem onlyAccepts_receive (process : Process ι) (copy : Copy ι) (fromPeerId : Option String)
    (moment : Moment) :
    OnlyAccepts process (process.receive platform link node copy fromPeerId moment).1 := by
  refine ⟨le_rfl, ?_⟩
  by_cases h : (process.engine.screen platform moment.now copy.message fromPeerId).1 = .fresh
  · exact ⟨[copy.message], by simp [Process.receive, h]⟩
  · exact ⟨[], by simp [Process.receive, h]⟩

end Receive

/-- Accepted messages at the end of a history change nothing about the order. -/
theorem pairwise_append_accepted {history : List Occurrence} {accepted : List P2PMessage} :
    (history ++ accepted.map Occurrence.accepted).Pairwise Precedes ↔
      history.Pairwise Precedes := by
  have haccepted (earlier : Occurrence) (later) (h : later ∈ accepted.map Occurrence.accepted) :
      Precedes earlier later := by
    obtain ⟨message, _, rfl⟩ := List.mem_map.1 h
    exact trivial
  rw [List.pairwise_append]
  constructor
  · intro h
    exact h.1
  · intro h
    refine ⟨h, ?_, fun earlier _ later hlater ↦ haccepted earlier later hlater⟩
    exact List.pairwise_map.2 (List.pairwise_of_forall fun _ _ ↦ trivial)

theorem pairwise_append_published {history : List Occurrence} {message : P2PMessage} :
    (history ++ [Occurrence.published message]).Pairwise Precedes ↔
      history.Pairwise Precedes ∧
        ∀ earlier ∈ history, earlier.message.lamportTimestamp < message.lamportTimestamp := by
  rw [List.pairwise_append]
  simp [Precedes]

theorem OnlyAccepts.ownStamps {before after : Process ι} (h : OnlyAccepts before after)
    (hown : OwnStamps before) : OwnStamps after := by
  obtain ⟨accepted, hhistory⟩ := h.history
  intro message hmem
  rw [hhistory, List.mem_append] at hmem
  have hbefore := hmem.resolve_right (by simp)
  exact (hown message hbefore).trans h.logicalClock

theorem OnlyAccepts.inOrder_iff {before after : Process ι} (h : OnlyAccepts before after) :
    InOrder after ↔ InOrder before := by
  obtain ⟨accepted, hhistory⟩ := h.history
  rw [InOrder, hhistory]
  exact pairwise_append_accepted

/-! ## One publication -/

section Publish

variable {process : Process ι} {message : P2PMessage}

theorem ownStamps_stamp (hown : OwnStamps process)
    (hstamp : message.lamportTimestamp = process.logicalClock + 1) :
    OwnStamps (process.stamp message (process.logicalClock + 1)) := by
  intro published hmem
  rcases List.mem_append.1 hmem with hbefore | hlast
  · exact (hown published hbefore).trans (Nat.le_succ _)
  · obtain rfl : published = message := by simpa using hlast
    exact hstamp.le

/-- Stamping keeps the order exactly when the counter has reached every accepted stamp. -/
theorem inOrder_stamp_iff (hown : OwnStamps process)
    (hstamp : message.lamportTimestamp = process.logicalClock + 1) :
    InOrder (process.stamp message (process.logicalClock + 1)) ↔
      InOrder process ∧ CaughtUp process := by
  unfold InOrder Process.stamp
  rw [pairwise_append_published, hstamp]
  refine and_congr_right fun _ ↦ ?_
  constructor
  · intro h accepted hmem
    exact Nat.lt_succ_iff.1 (h (.accepted accepted) hmem)
  · intro h earlier hmem
    apply Nat.lt_succ_iff.2
    cases earlier with
    | published published => exact hown published hmem
    | accepted accepted => exact h accepted hmem

end Publish

/-! ## Steps and runs -/

section System

variable [DecidableEq ι] (platform : Platform) (link : ι → Connection → ι)

/-- Going through a batch changes one process, and publishes nothing there. -/
theorem onlyAccepts_receiveAll (world : World ι) (node : ι) (fromPeerId : String)
    (deliveries : List (Copy ι × Moment)) :
    ∃ process', OnlyAccepts (world.process node) process' ∧
      (world.receiveAll platform link node fromPeerId deliveries).process =
        (world.setProcess node process').process := by
  induction deliveries generalizing world with
  | nil =>
    refine ⟨world.process node, onlyAccepts_of_history_eq le_rfl rfl, ?_⟩
    exact (Function.update_eq_self node world.process).symm
  | cons delivery rest ih =>
    rw [World.receiveAll]
    split
    · exact ih world
    · obtain ⟨process', hrest, hprocess⟩ := ih (world.receive platform link node delivery.1
        (truthy (some fromPeerId)) delivery.2)
      rw [World.process_receive, World.process_setProcess_self] at hrest
      have hfirst := onlyAccepts_receive platform (link node) node (world.process node) delivery.1
        (truthy (some fromPeerId)) delivery.2
      refine ⟨process', hfirst.trans hrest, hprocess.trans ?_⟩
      exact Function.update_idem ..

/-- What one event does to the history of the process it happens at. -/
theorem next_cases (world : World ι) (event : Event ι) :
    (∃ node process', OnlyAccepts (world.process node) process' ∧
      (World.next platform link world event).process =
        (world.setProcess node process').process ∧
      (PublishesCaughtUp world event ↔ True)) ∨
    (∃ node message process',
      message.lamportTimestamp = (world.process node).logicalClock + 1 ∧
      OnlyAccepts
        ((world.process node).stamp message ((world.process node).logicalClock + 1)) process' ∧
      (World.next platform link world event).process =
        (world.setProcess node process').process ∧
      (PublishesCaughtUp world event ↔ CaughtUp (world.process node))) := by
  cases event with
  | publish node id createdAt type payload options routingPath moment =>
    let created := World.createMessage platform (world.process node) id createdAt type payload
      options routingPath
    refine .inr ⟨node, created.1, _, rfl, onlyAccepts_receive platform (link node) node _
      ⟨created.1, []⟩ none moment, ?_, Iff.rfl⟩
    rw [World.next, World.process_receive, World.stamp, World.process_setProcess_self]
    exact Function.update_idem ..
  | deliver node copy fromPeerId moment =>
    exact .inl ⟨node, _, onlyAccepts_receive platform (link node) node _ copy fromPeerId moment,
      rfl, Iff.rfl⟩
  | sendSyncBatch node peerId copies =>
    exact .inl ⟨node, (world.process node).createControl,
      onlyAccepts_of_history_eq (Nat.le_succ _) rfl, rfl, Iff.rfl⟩
  | deliverSyncBatch node deliveries fromPeerId =>
    obtain ⟨process', hall, hprocess⟩ :=
      onlyAccepts_receiveAll platform link world node fromPeerId deliveries
    have hcontrol : OnlyAccepts process' process'.createControl :=
      onlyAccepts_of_history_eq (Nat.le_succ _) rfl
    refine .inl ⟨node, _, hall.trans hcontrol, ?_, Iff.rfl⟩
    rw [World.next, World.control, World.setProcess, hprocess, World.process_setProcess_self]
    exact Function.update_idem ..
  | createControl node =>
    exact .inl ⟨node, (world.process node).createControl,
      onlyAccepts_of_history_eq (Nat.le_succ _) rfl, rfl, Iff.rfl⟩
  | reconfigure node pool topicRouter rateLimiter securityManager =>
    exact .inl ⟨node, (world.process node).reconfigure pool topicRouter rateLimiter
      securityManager, onlyAccepts_of_history_eq le_rfl rfl, rfl, Iff.rfl⟩

/-- A process has always reached the stamps of its own publications. -/
theorem ownStamps_next {world : World ι} (event : Event ι)
    (hown : ∀ node, OwnStamps (world.process node)) :
    ∀ node, OwnStamps ((World.next platform link world event).process node) := by
  rcases next_cases platform link world event with
    ⟨node, process', hreceives, hprocess, _⟩ | ⟨node, message, process', hstamp, hreceives,
      hprocess, _⟩ <;> rw [hprocess] <;> apply (World.forall_setProcess OwnStamps).2
  · exact ⟨hreceives.ownStamps (hown node), fun other _ ↦ hown other⟩
  · exact ⟨hreceives.ownStamps (ownStamps_stamp (hown node) hstamp), fun other _ ↦ hown other⟩

/-- One step keeps the causal order exactly when a publication finds its counter caught up. -/
theorem causal_next_iff {world : World ι} (event : Event ι)
    (hown : ∀ node, OwnStamps (world.process node)) :
    Causal (World.next platform link world event) ↔
      Causal world ∧ PublishesCaughtUp world event := by
  unfold Causal
  rcases next_cases platform link world event with
    ⟨node, process', hreceives, hprocess, hguard⟩ | ⟨node, message, process', hstamp, hreceives,
      hprocess, hguard⟩
  · rw [hprocess, hguard, and_true, World.forall_setProcess InOrder, hreceives.inOrder_iff,
      ← World.forall_process_iff InOrder]
  · rw [hprocess, hguard, World.forall_setProcess InOrder, hreceives.inOrder_iff,
      inOrder_stamp_iff (hown node) hstamp, World.forall_process_iff InOrder node, and_right_comm]

/-- A run from the initial state keeps the causal order exactly when every publication in it finds
the factory counter at or above the stamps of all messages that the process has accepted. -/
theorem causal_iff_publishesCaughtUp {initial world : World ι} {events : List (Event ι)}
    (hinitial : initial.Initial)
    (hrun : (World.system platform link).Run initial events world) :
    Causal world ↔
      (World.system platform link).GuardedRun PublishesCaughtUp initial events world := by
  have hown (node) : OwnStamps (initial.process node) := by
    intro message hmem
    rw [hinitial.history node] at hmem
    cases hmem
  have hcausal : Causal initial := by
    intro node
    rw [InOrder, hinitial.history node]
    exact .nil
  apply hrun.iff_guardedRun (fun world ↦ ∀ node, OwnStamps (world.process node)) ?_ ?_ hown
    hcausal
  · intro world event after hworld hstep
    obtain ⟨_, rfl⟩ := hstep
    exact ownStamps_next platform link event hworld
  · intro world event after hworld hstep
    obtain ⟨_, rfl⟩ := hstep
    exact causal_next_iff platform link event hworld

end System

/-! ## A question and its answer -/

def exchange : List (Event (Fin 2)) :=
  World.askAndReceive ++ [World.publishChat (Fin.last 1) "answer"]

/-- Until the answer is published the order holds, so every publication was caught up. -/
theorem publishesCaughtUp_askAndReceive :
    (World.system Pow.javaScript World.toTheOther).GuardedRun PublishesCaughtUp
      World.twoProcesses World.askAndReceive
      (World.askAndReceive.foldl (World.next Pow.javaScript World.toTheOther)
        World.twoProcesses) := by
  apply (causal_iff_publishesCaughtUp Pow.javaScript World.toTheOther World.initial_twoProcesses
    World.run_askAndReceive).1
  unfold Causal InOrder
  decide +kernel

/-- The answer carries the stamp of the question that its author has accepted before. -/
theorem not_causal_exchange :
    World.twoProcesses.Initial ∧
      (World.system Pow.javaScript World.toTheOther).Run World.twoProcesses exchange
        (exchange.foldl (World.next Pow.javaScript World.toTheOther) World.twoProcesses) ∧
      ¬Causal
        (exchange.foldl (World.next Pow.javaScript World.toTheOther) World.twoProcesses) := by
  refine ⟨World.initial_twoProcesses, ?_, ?_⟩
  · apply TransitionSystem.run_ofNext
    refine ⟨(fun message hmem ↦ nomatch hmem), ?_, ?_, trivial⟩
    · change Packet.gossip 1 World.questionCopy ∈ _
      decide +kernel
    · change ∀ message ∈ (_ : List P2PMessage), message.id ≠ "answer"
      decide +kernel
  · unfold Causal InOrder
    decide +kernel

end P2PApp.Network
