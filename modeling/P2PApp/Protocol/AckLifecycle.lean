import P2PApp.Library.TransitionSystem
import P2PApp.Protocol.AckManager

/-!
# The life of an acknowledged message

What happens to each call of `sendWithAck`, from the first transmission to the event that ends it.
The calls of a run are followed next to the manager, each with the steps that concern it in order. A
call is open as long as its id is pending; the entry of the manager can then be read off its steps,
and it has the one timer that is running for it. The last acknowledgement or the last timeout closes
it. Peers are distinct and have connected clients, and an id is not sent again while it is pending.
-/

namespace P2PApp

/-- A step in the life of a message. -/
inductive AckStep
  /-- The message was handed to the client dialled for the peer. -/
  | transmitted (peerId : String)
  /-- The message was broadcast, for want of a connected client. -/
  | fellBack
  | acknowledged (peerId : String)
  | timedOut
  | confirmed
  | failed (failedPeers : List String)
  deriving DecidableEq, Repr

namespace AckStep

def ofEffect : AckEffect → AckStep
  | .send peerId _ => transmitted peerId
  | .broadcast .. => fellBack
  | .confirmed _ => confirmed
  | .failed _ failedPeers => failed failedPeers

def terminal : AckStep → Bool
  | confirmed | failed _ => true
  | transmitted _ | fellBack | acknowledged _ | timedOut => false

/-- The listed peers that have not acknowledged. -/
def outstanding (peerIds : List String) (steps : List AckStep) : List String :=
  peerIds.filter fun peerId ↦ acknowledged peerId ∉ steps

end AckStep

/-- A call of `sendWithAck`, and what has happened to it. -/
structure Sending where
  messageId : String
  peerIds : List String
  steps : List AckStep
  deriving DecidableEq, Repr

/-- A manager, and the calls of `sendWithAck` that it has seen. -/
structure AckHistory where
  manager : AckManager
  opened : OrderedMap String Sending
  closed : List Sending
  /-- Effects that belong to no open call. -/
  stray : List AckEffect

namespace AckHistory

open AckManager AckStep

def new : AckHistory := ⟨.new, ∅, [], []⟩

/-- Steps of the open call for the id, which an event among them closes. -/
def follow (history : AckHistory) (messageId : String) (stimulus : AckStep)
    (step : AckManager × List AckEffect) : AckHistory :=
  match history.opened.get? messageId with
  | none => { history with manager := step.1, stray := history.stray ++ step.2 }
  | some sending =>
    let steps := stimulus :: step.2.map ofEffect
    let sending := { sending with steps := sending.steps ++ steps }
    if steps.any terminal then
      { history with
        manager := step.1
        opened := history.opened.erase messageId
        closed := history.closed ++ [sending] }
    else { history with manager := step.1, opened := history.opened.set messageId sending }

def next (history : AckHistory) : Event → AckHistory
  | .sendWithAck pool message peerIds =>
    let step := history.manager.sendWithAck pool message peerIds
    { history with
      manager := step.1
      opened := history.opened.set message.id ⟨message.id, peerIds, step.2.map ofEffect⟩ }
  | .receiveAck ack =>
    let step := history.manager.receiveAck ack
    match ack.ackId with
    | none => { history with manager := step.1, stray := history.stray ++ step.2 }
    | some messageId => history.follow messageId (.acknowledged ack.sender) step
  | .expire pool timer =>
    history.follow timer.messageId .timedOut (history.manager.expire pool timer)

/-- The assumptions on the calls, and that a timeout expires once. -/
def Enabled (history : AckHistory) : Event → Prop
  | .sendWithAck pool message peerIds =>
    peerIds ≠ [] ∧ peerIds.Nodup ∧ (∀ peerId ∈ peerIds, HasClient pool peerId) ∧
      history.manager.pendingAcks.get? message.id = none
  | .receiveAck _ => True
  | .expire pool timer => timer ∈ history.manager.timers ∧
    ∀ sending ∈ history.opened.get? timer.messageId, ∀ peerId ∈ sending.peerIds,
      HasClient pool peerId

def system : TransitionSystem AckHistory Event := .ofNext Enabled next

/-! ## What the steps of a call look like -/

/-- An acknowledgement silences its sender; the acknowledgement of the last outstanding peer
confirms, the last timeout gives up on those who never acknowledged, and nothing follows either. -/
structure Lifecycle (sending : Sending) : Prop where
  confirms : ∀ before after, sending.steps = before ++ .confirmed :: after →
    after = [] ∧ before.count .timedOut < Config.MAX_RETRY_ATTEMPTS ∧
      ∃ earlier peerId, before = earlier ++ [.acknowledged peerId] ∧
        peerId ∈ outstanding sending.peerIds earlier ∧ outstanding sending.peerIds before = []
  fails : ∀ before failedPeers after, sending.steps = before ++ .failed failedPeers :: after →
    after = [] ∧ before.count .timedOut = Config.MAX_RETRY_ATTEMPTS ∧
      before.getLast? = some .timedOut ∧
      failedPeers = outstanding sending.peerIds before ∧ failedPeers ≠ [] ∧
      ∀ peerId ∈ failedPeers, before.count (.transmitted peerId) = Config.MAX_RETRY_ATTEMPTS
  confirmed : ∀ before peerId after, sending.steps = before ++ .acknowledged peerId :: after →
    outstanding sending.peerIds (before ++ [.acknowledged peerId]) = [] → after = [.confirmed]
  failed : ∀ before after, sending.steps = before ++ .timedOut :: after →
    before.count .timedOut + 1 = Config.MAX_RETRY_ATTEMPTS → ∃ failedPeers,
      after = [.failed failedPeers]
  silent : ∀ before peerId after, sending.steps = before ++ .acknowledged peerId :: after →
    .transmitted peerId ∉ after

/-- The entry of the manager, read off the steps of an open call. -/
structure Pending (entry : PendingEntry) (sending : Sending) : Prop where
  nodup : sending.peerIds.Nodup
  quiet : sending.steps.any terminal = false
  attempts : entry.attempts = sending.steps.count .timedOut + 1
  limit : entry.attempts ≤ Config.MAX_RETRY_ATTEMPTS
  peers : entry.peers = outstanding sending.peerIds sending.steps
  nonempty : entry.peers ≠ []
  transmitted : ∀ peerId ∈ entry.peers,
    sending.steps.count (.transmitted peerId) = entry.attempts
  silent : ∀ before peerId after, sending.steps = before ++ .acknowledged peerId :: after →
    .transmitted peerId ∉ after

/-! ## One step of a call -/

/-- A step of a longer list is in the first part of it or in the second. -/
theorem append_eq_split {steps more before after : List AckStep} {step : AckStep}
    (h : steps ++ more = before ++ step :: after) :
    (∃ rest, steps = before ++ step :: rest ∧ after = rest ++ more) ∨
      ∃ middle, before = steps ++ middle ∧ more = middle ++ step :: after := by
  rcases List.append_eq_append_iff.1 h with ⟨middle, hbefore, hmore⟩ | ⟨rest, hsteps, hrest⟩
  · exact .inr ⟨middle, hbefore, hmore⟩
  · cases rest with
    | nil => exact .inr ⟨[], by simpa using hsteps.symm, by simpa using hrest.symm⟩
    | cons first rest =>
      obtain ⟨rfl, rfl⟩ := List.cons.inj hrest
      exact .inl ⟨rest, hsteps, rfl⟩

theorem mem_outstanding {peerIds : List String} {steps : List AckStep} {peerId : String} :
    peerId ∈ outstanding peerIds steps ↔ peerId ∈ peerIds ∧ .acknowledged peerId ∉ steps := by
  simp [outstanding]

/-- An acknowledgement strikes out its sender. -/
theorem outstanding_acknowledged (peerIds : List String) (steps : List AckStep)
    (peerId : String) :
    outstanding peerIds (steps ++ [.acknowledged peerId]) =
      (outstanding peerIds steps).filter fun other ↦ other ≠ peerId := by
  unfold outstanding
  rw [List.filter_filter]
  refine List.filter_congr fun other _ ↦ ?_
  rw [← Bool.decide_and]
  refine decide_eq_decide.2 ?_
  simp only [List.mem_append, List.mem_singleton, AckStep.acknowledged.injEq]
  tauto

/-- Whatever else happens does not. -/
theorem outstanding_append (peerIds : List String) (steps : List AckStep) {more : List AckStep}
    (h : ∀ peerId, .acknowledged peerId ∉ more) :
    outstanding peerIds (steps ++ more) = outstanding peerIds steps := by
  unfold outstanding
  refine List.filter_congr fun other _ ↦ decide_eq_decide.2 ?_
  simp [h]

theorem outstanding_subset (peerIds : List String) (steps more : List AckStep) :
    outstanding peerIds (steps ++ more) ⊆ outstanding peerIds steps := by
  intro peerId h
  obtain ⟨hmem, hnot⟩ := mem_outstanding.1 h
  exact mem_outstanding.2 ⟨hmem, fun hack ↦ hnot (List.mem_append_left _ hack)⟩

theorem transmit_steps {pool : ConnectionPool} {message : P2PMessage} {peerIds : List String}
    (h : ∀ peerId ∈ peerIds, HasClient pool peerId) :
    (transmit pool message peerIds).map ofEffect = peerIds.map .transmitted := by
  rw [transmit, List.map_map]
  refine List.map_congr_left fun peerId hpeerId ↦ ?_
  rw [Function.comp_apply, if_pos (h peerId hpeerId)]
  rfl

variable {entry : PendingEntry} {sending : Sending}

theorem Pending.not_mem (h : Pending entry sending) {step : AckStep}
    (hstep : step.terminal = true) : step ∉ sending.steps := by
  intro hmem
  have hany := List.any_eq_true.2 ⟨step, hmem, hstep⟩
  rw [h.quiet] at hany
  cases hany

/-- So no step of an open call is one. -/
theorem Pending.not_terminal (h : Pending entry sending) {before after : List AckStep}
    {step : AckStep} (hsteps : sending.steps = before ++ step :: after) :
    step.terminal = false := by
  refine Bool.eq_false_iff.2 fun hterminal ↦ h.not_mem hterminal ?_
  rw [hsteps]
  exact List.mem_append_right _ List.mem_cons_self

theorem Pending.timedOut_lt (h : Pending entry sending) :
    sending.steps.count .timedOut < Config.MAX_RETRY_ATTEMPTS := by
  have hattempts := h.attempts
  have hlimit := h.limit
  omega

/-- An open call has not been confirmed and has not failed, and there was no reason to. -/
theorem Pending.lifecycle (h : Pending entry sending) : Lifecycle sending where
  confirms before after heq := by cases h.not_terminal heq
  fails before failedPeers after heq := by cases h.not_terminal heq
  confirmed before peerId after heq hnone := by
    refine absurd ?_ h.nonempty
    have hsub := outstanding_subset sending.peerIds (before ++ [.acknowledged peerId]) after
    rw [hnone, List.append_assoc, List.singleton_append, ← heq, ← h.peers] at hsub
    exact List.subset_nil.1 hsub
  failed before after heq hlast := by
    have hlt := h.timedOut_lt
    rw [heq, List.count_append, List.count_cons_self] at hlt
    omega
  silent := h.silent

/-- The steps of a call that has just been closed: an old one, or one of the last two. -/
theorem append_pair_split {steps before after : List AckStep} {stimulus final step : AckStep}
    (h : steps ++ [stimulus, final] = before ++ step :: after) :
    (∃ rest, steps = before ++ step :: rest ∧ after = rest ++ [stimulus, final]) ∨
      (step = stimulus ∧ before = steps ∧ after = [final]) ∨
      (step = final ∧ before = steps ++ [stimulus] ∧ after = []) := by
  rcases append_eq_split h with hold | ⟨middle, rfl, hmore⟩
  · exact .inl hold
  rcases middle with _ | ⟨first, _ | ⟨second, middle⟩⟩
  · obtain ⟨rfl, rfl⟩ := List.cons.inj hmore
    exact .inr (.inl ⟨rfl, List.append_nil _, rfl⟩)
  · obtain ⟨rfl, hfinal⟩ := List.cons.inj hmore
    obtain ⟨rfl, rfl⟩ := List.cons.inj hfinal
    exact .inr (.inr ⟨rfl, rfl, rfl⟩)
  · simp at hmore

/-- A call with its first transmissions. -/
theorem pending_opened {message : P2PMessage} {messageId : String} {peerIds : List String}
    {timer : Option ℕ} (hnonempty : peerIds ≠ []) (hnodup : peerIds.Nodup) :
    Pending { message, attempts := 1, peers := setOf peerIds, timer }
      ⟨messageId, peerIds, peerIds.map .transmitted⟩ where
  nodup := hnodup
  quiet := by simp [terminal]
  attempts := by simp [List.count_eq_zero.2]
  limit := (by decide : 1 ≤ Config.MAX_RETRY_ATTEMPTS)
  peers := by simp [setOf_of_nodup hnodup, outstanding]
  nonempty := by simpa [setOf_of_nodup hnodup]
  transmitted peerId hpeerId := by
    rw [List.count_map_of_injective _ _ fun _ _ ↦ AckStep.transmitted.inj]
    exact List.count_eq_one_of_mem hnodup (mem_setOf.1 hpeerId)
  silent before peerId after heq := by
    have hmem : .acknowledged peerId ∈ before ++ .acknowledged peerId :: after := by simp
    rw [← heq] at hmem
    simp at hmem

/-- An acknowledgement that leaves somebody outstanding. -/
theorem Pending.acknowledge (h : Pending entry sending) {sender : String}
    (hsome : ∃ peerId ∈ entry.peers, peerId ≠ sender) :
    Pending { entry with peers := entry.peers.filter fun peerId ↦ peerId ≠ sender }
      { sending with steps := sending.steps ++ [.acknowledged sender] } where
  nodup := h.nodup
  quiet := by simp [h.quiet, terminal]
  attempts := by simp [h.attempts]
  limit := h.limit
  peers := by rw [outstanding_acknowledged, ← h.peers]
  nonempty := by simpa using hsome
  transmitted peerId hpeerId := by
    simpa using h.transmitted peerId (List.mem_of_mem_filter hpeerId)
  silent before peerId after heq := by
    rcases append_eq_split heq with ⟨rest, hsteps, rfl⟩ | ⟨middle, _, hmore⟩
    · simpa using h.silent before peerId rest hsteps
    · have hnil := (List.append_eq_singleton_iff.1 hmore.symm)
      simp at hnil
      simp [hnil]

/-- A timeout before the last one. -/
theorem Pending.retry (h : Pending entry sending)
    (hmore : entry.attempts < Config.MAX_RETRY_ATTEMPTS) (timer : Option ℕ) :
    Pending { entry with attempts := entry.attempts + 1, timer }
      { sending with steps := sending.steps ++ .timedOut :: entry.peers.map .transmitted } where
  nodup := h.nodup
  quiet := by
    rw [List.any_append, h.quiet]
    simp [terminal]
  attempts := by
    have hzero : (entry.peers.map AckStep.transmitted).count .timedOut = 0 := by
      simp [List.count_eq_zero]
    rw [List.count_append, List.count_cons_self, hzero, h.attempts]
  limit := hmore
  peers := by
    rw [outstanding_append]
    · exact h.peers
    · simp
  nonempty := h.nonempty
  transmitted peerId hpeerId := by
    have hone : (entry.peers.map AckStep.transmitted).count (.transmitted peerId) = 1 := by
      rw [List.count_map_of_injective _ _ fun _ _ ↦ AckStep.transmitted.inj]
      refine List.count_eq_one_of_mem ?_ hpeerId
      rw [h.peers]
      exact h.nodup.filter _
    rw [List.count_append, List.count_cons_of_ne (by simp), hone, h.transmitted peerId hpeerId]
  silent before peerId after heq := by
    rcases append_eq_split heq with ⟨rest, hsteps, rfl⟩ | ⟨middle, _, hmore⟩
    · have hgone : peerId ∉ entry.peers := by
        rw [h.peers, hsteps]
        simp [outstanding]
      simp [h.silent before peerId rest hsteps, hgone]
    · have hmem : .acknowledged peerId ∈ middle ++ .acknowledged peerId :: after := by simp
      rw [← hmore] at hmem
      simp at hmem

/-- A terminal event is right if it is right where it stands; what was before it stays right. -/
theorem Pending.close (h : Pending entry sending) {stimulus final : AckStep}
    (hstimulus : stimulus.terminal = false)
    (hquiet : ∀ peerId, stimulus ≠ .transmitted peerId) (hfinal : final.terminal = true)
    (hconfirms : final = .confirmed → ∃ peerId, stimulus = .acknowledged peerId ∧
      peerId ∈ outstanding sending.peerIds sending.steps ∧
      outstanding sending.peerIds (sending.steps ++ [stimulus]) = [])
    (hfails : ∀ failedPeers, final = .failed failedPeers → stimulus = .timedOut ∧
      entry.attempts = Config.MAX_RETRY_ATTEMPTS ∧ failedPeers = entry.peers)
    (hlastAck : ∀ peerId, stimulus = .acknowledged peerId → final = .confirmed)
    (hlastTimeout : stimulus = .timedOut → ∃ failedPeers, final = .failed failedPeers) :
    Lifecycle { sending with steps := sending.steps ++ [stimulus, final] } := by
  have hopen := h.lifecycle
  constructor
  case confirms =>
    intro before after heq
    rcases append_pair_split heq with ⟨rest, hsteps, _⟩ | ⟨rfl, _⟩ | ⟨rfl, rfl, rfl⟩
    · cases h.not_terminal hsteps
    · cases hstimulus
    · obtain ⟨peerId, rfl, hmem, hnone⟩ := hconfirms rfl
      refine ⟨rfl, ?_, sending.steps, peerId, rfl, hmem, hnone⟩
      simpa using h.timedOut_lt
  case fails =>
    intro before failedPeers after heq
    rcases append_pair_split heq with ⟨rest, hsteps, _⟩ | ⟨rfl, _⟩ | ⟨rfl, rfl, rfl⟩
    · cases h.not_terminal hsteps
    · cases hstimulus
    · obtain ⟨rfl, hattempts, rfl⟩ := hfails failedPeers rfl
      refine ⟨rfl, ?_, by simp, ?_, h.nonempty, fun peerId hpeerId ↦ ?_⟩
      · rw [List.count_append, List.count_singleton_self, ← h.attempts, hattempts]
      · rw [outstanding_append]
        · exact h.peers
        · simp
      · simpa [hattempts] using h.transmitted peerId hpeerId
  case confirmed =>
    intro before peerId after heq hlast
    rcases append_pair_split heq with ⟨rest, hsteps, rfl⟩ | ⟨rfl, _, rfl⟩ | ⟨rfl, _⟩
    · have hnil := hopen.confirmed before peerId rest hsteps hlast
      have hmem : .confirmed ∈ sending.steps := by simp [hsteps, hnil]
      exact absurd hmem (h.not_mem rfl)
    · rw [hlastAck peerId rfl]
    · cases hfinal
  case failed =>
    intro before after heq hcount
    rcases append_pair_split heq with ⟨rest, hsteps, rfl⟩ | ⟨rfl, _, rfl⟩ | ⟨rfl, _⟩
    · obtain ⟨failedPeers, hfailed⟩ := hopen.failed before rest hsteps hcount
      have hmem : .failed failedPeers ∈ sending.steps := by simp [hsteps, hfailed]
      exact absurd hmem (h.not_mem rfl)
    · obtain ⟨failedPeers, rfl⟩ := hlastTimeout rfl
      exact ⟨failedPeers, rfl⟩
    · cases hfinal
  case silent =>
    intro before peerId after heq
    rcases append_pair_split heq with ⟨rest, hsteps, rfl⟩ | ⟨rfl, _, rfl⟩ | ⟨rfl, _⟩
    · have hrest := h.silent before peerId rest hsteps
      simp only [List.mem_append, List.mem_cons, List.not_mem_nil, or_false, not_or]
      refine ⟨hrest, (hquiet peerId).symm, ?_⟩
      rintro rfl
      cases hfinal
    · rw [hlastAck peerId rfl]
      simp
    · cases hfinal

/-- The acknowledgement of all who are outstanding. -/
theorem Pending.confirm (h : Pending entry sending) {sender : String}
    (hall : ∀ peerId ∈ entry.peers, peerId = sender) :
    Lifecycle { sending with steps := sending.steps ++ [.acknowledged sender, .confirmed] } := by
  have hsender : sender ∈ outstanding sending.peerIds sending.steps := by
    obtain ⟨peerId, hpeerId⟩ := List.exists_mem_of_ne_nil _ h.nonempty
    rw [← h.peers]
    exact hall peerId hpeerId ▸ hpeerId
  have hnone : outstanding sending.peerIds (sending.steps ++ [.acknowledged sender]) = [] := by
    rw [outstanding_acknowledged, ← h.peers]
    simpa using hall
  exact h.close rfl nofun rfl (fun _ ↦ ⟨sender, rfl, hsender, hnone⟩) nofun (fun _ _ ↦ rfl) nofun

/-- The timeout after the last attempt. -/
theorem Pending.giveUp (h : Pending entry sending)
    (hlast : Config.MAX_RETRY_ATTEMPTS ≤ entry.attempts) :
    Lifecycle { sending with steps := sending.steps ++ [.timedOut, .failed entry.peers] } := by
  have hattempts : entry.attempts = Config.MAX_RETRY_ATTEMPTS := le_antisymm h.limit hlast
  refine h.close rfl nofun rfl nofun ?_ nofun (fun _ ↦ ⟨entry.peers, rfl⟩)
  intro failedPeers heq
  exact ⟨rfl, hattempts, (AckStep.failed.inj heq).symm⟩

/-! ## Timers -/

/-- Every pending id has the timer of its entry, and there are no others. -/
structure TimersFit (timers : List AckTimer) (handles : ℕ)
    (pending : String → Option PendingEntry) : Prop where
  fresh : ∀ timer ∈ timers, timer.handle < handles
  distinct : (timers.map AckTimer.handle).Nodup
  idle : ∀ messageId, pending messageId = none →
    timers.filter (fun timer ↦ timer.messageId = messageId) = []
  running : ∀ messageId entry, pending messageId = some entry → ∃ handle,
    entry.timer = some handle ∧
      timers.filter (fun timer ↦ timer.messageId = messageId) = [⟨handle, messageId⟩]

namespace TimersFit

variable {timers : List AckTimer} {handles : ℕ} {pending pending' : String → Option PendingEntry}

theorem empty : TimersFit [] handles fun _ ↦ none where
  fresh _ hmem := by cases hmem
  distinct := List.nodup_nil
  idle _ _ := rfl
  running _ _ hentry := by cases hentry

/-- The entry that a running timer belongs to. -/
theorem owned (h : TimersFit timers handles pending) {timer : AckTimer} (hmem : timer ∈ timers) :
    ∃ entry, pending timer.messageId = some entry ∧ entry.timer = some timer.handle := by
  have hown : timer ∈ timers.filter fun live ↦ live.messageId = timer.messageId := by simp [hmem]
  cases hentry : pending timer.messageId with
  | none =>
    rw [h.idle _ hentry] at hown
    cases hown
  | some entry =>
    obtain ⟨handle, htimer, honly⟩ := h.running _ _ hentry
    rw [honly, List.mem_singleton] at hown
    exact ⟨entry, rfl, by rw [htimer, hown]⟩

/-- Without the timer of an id, whose entry goes. -/
theorem stop (h : TimersFit timers handles pending) {messageId : String}
    (hpending : ∀ other, pending' other = if other = messageId then none else pending other) :
    TimersFit (timers.filter fun live ↦ live.messageId ≠ messageId) handles pending' where
  fresh timer hmem := h.fresh timer (List.mem_of_mem_filter hmem)
  distinct := h.distinct.sublist (List.filter_sublist.map _)
  idle other hnone := by
    rw [hpending] at hnone
    rw [List.filter_filter]
    split at hnone
    · subst_vars
      simp
    · rename_i hother
      have hidle := h.idle other hnone
      rw [List.filter_eq_nil_iff] at hidle ⊢
      intro timer hmem
      simpa using fun htimer ↦ absurd htimer (by simpa using hidle timer hmem)
  running other entry hsome := by
    rw [hpending] at hsome
    split at hsome
    · cases hsome
    · rename_i hother
      obtain ⟨handle, htimer, honly⟩ := h.running other entry hsome
      refine ⟨handle, htimer, ?_⟩
      rw [List.filter_filter, ← honly]
      refine List.filter_congr fun timer _ ↦ ?_
      by_cases heq : timer.messageId = other
      · simp [heq, hother]
      · simp [heq]

/-- With a new timer for an id that had none. -/
theorem start (h : TimersFit timers handles pending) {messageId : String} {entry : PendingEntry}
    (hnone : pending messageId = none) (htimer : entry.timer = some handles)
    (hpending : ∀ other, pending' other = if other = messageId then some entry else pending other) :
    TimersFit (timers ++ [⟨handles, messageId⟩]) (handles + 1) pending' where
  fresh timer hmem := by
    rcases List.mem_append.1 hmem with hold | hnew
    · exact Nat.lt_succ_of_lt (h.fresh timer hold)
    · rw [List.mem_singleton.1 hnew]
      exact Nat.lt_succ_self _
  distinct := by
    rw [List.map_append, List.map_singleton, List.nodup_append]
    refine ⟨h.distinct, List.nodup_singleton _, ?_⟩
    rintro _ hold _ hnew rfl
    obtain ⟨timer, hmem, htimer⟩ := List.mem_map.1 hold
    have hlt := h.fresh timer hmem
    rw [htimer, List.mem_singleton.1 hnew] at hlt
    exact absurd hlt (lt_irrefl _)
  idle other hother := by
    rw [hpending] at hother
    split at hother
    · cases hother
    · rename_i hne
      rw [List.filter_append, h.idle other hother]
      simp [Ne.symm hne]
  running other found hfound := by
    rw [hpending] at hfound
    split at hfound
    · subst_vars
      cases hfound
      refine ⟨handles, htimer, ?_⟩
      rw [List.filter_append, h.idle _ hnone]
      simp
    · rename_i hne
      obtain ⟨handle, hhandle, honly⟩ := h.running other found hfound
      refine ⟨handle, hhandle, ?_⟩
      rw [List.filter_append, honly]
      simp [Ne.symm hne]

/-- With a new timer in the place of the old one. -/
theorem restart (h : TimersFit timers handles pending) {messageId : String} {entry : PendingEntry}
    (htimer : entry.timer = some handles)
    (hpending : ∀ other, pending' other = if other = messageId then some entry else pending other) :
    TimersFit (timers.filter (fun live ↦ live.messageId ≠ messageId) ++ [⟨handles, messageId⟩])
      (handles + 1) pending' := by
  refine (h.stop fun _ ↦ rfl).start (if_pos rfl) htimer fun other ↦ ?_
  rw [hpending]
  split <;> rfl

/-- With another entry that has the same timer. -/
theorem keep (h : TimersFit timers handles pending) {messageId : String}
    {entry entry' : PendingEntry}
    (hentry : pending messageId = some entry) (htimer : entry'.timer = entry.timer)
    (hpending : ∀ other,
      pending' other = if other = messageId then some entry' else pending other) :
    TimersFit timers handles pending' where
  fresh := h.fresh
  distinct := h.distinct
  idle other hother := by
    rw [hpending] at hother
    split at hother
    · cases hother
    · exact h.idle other hother
  running other found hfound := by
    rw [hpending] at hfound
    split at hfound
    · subst_vars
      cases hfound
      rw [htimer]
      exact h.running _ entry hentry
    · exact h.running other found hfound

/-- A timer that has expired was the one of its id. -/
theorem filter_expired (h : TimersFit timers handles pending) {timer : AckTimer}
    (hmem : timer ∈ timers) :
    timers.filter (fun live ↦ live ≠ timer) =
      timers.filter fun live ↦ live.messageId ≠ timer.messageId := by
  refine List.filter_congr fun live hlive ↦ decide_eq_decide.2 (not_congr ⟨?_, fun heq ↦ ?_⟩)
  · rintro rfl
    rfl
  · obtain ⟨entry, hentry, hhandle⟩ := h.owned hlive
    obtain ⟨entry', hentry', hhandle'⟩ := h.owned hmem
    rw [heq, hentry'] at hentry
    cases hentry
    rw [hhandle, Option.some.injEq] at hhandle'
    cases live
    cases timer
    cases heq
    cases hhandle'
    rfl

/-- So was the timer of an entry. -/
theorem filter_cleared (h : TimersFit timers handles pending) {messageId : String}
    {entry : PendingEntry} (hentry : pending messageId = some entry) :
    timers.filter (fun live ↦ some live.handle ≠ entry.timer) =
      timers.filter fun live ↦ live.messageId ≠ messageId := by
  obtain ⟨handle, htimer, honly⟩ := h.running messageId entry hentry
  have hmem : (⟨handle, messageId⟩ : AckTimer) ∈ timers :=
    List.mem_of_mem_filter (honly ▸ List.mem_singleton_self _)
  rw [← h.filter_expired hmem, htimer]
  refine List.filter_congr fun live hlive ↦ decide_eq_decide.2 (not_congr ⟨fun heq ↦ ?_, ?_⟩)
  · exact List.inj_on_of_nodup_map h.distinct hlive hmem (Option.some.inj heq)
  · rintro rfl
    rfl

/-- How many timers are running for an id. -/
theorem countP_eq (h : TimersFit timers handles pending) (messageId : String) :
    timers.countP (fun timer ↦ timer.messageId = messageId) =
      if (pending messageId).isSome then 1 else 0 := by
  rw [List.countP_eq_length_filter]
  cases hentry : pending messageId with
  | none => simp [h.idle messageId hentry]
  | some entry =>
    obtain ⟨handle, _, honly⟩ := h.running messageId entry hentry
    simp [honly]

end TimersFit

/-! ## Over a run -/

/-- The calls match the entries of the manager. -/
structure Tracks (history : AckHistory) : Prop where
  timers : TimersFit history.manager.timers history.manager.handles
    history.manager.pendingAcks.get?
  calls : ∀ messageId, Option.Rel
    (fun entry sending ↦ sending.messageId = messageId ∧ Pending entry sending)
    (history.manager.pendingAcks.get? messageId) (history.opened.get? messageId)
  closed : ∀ sending ∈ history.closed, Lifecycle sending ∧ sending.steps.countP terminal = 1
  stray : history.stray = []

theorem tracks_new : Tracks new where
  timers := .empty
  calls _ := .none
  closed := nofun
  stray := rfl

/-- The open call of an entry. -/
theorem Tracks.exists_opened {history : AckHistory} (h : Tracks history) {messageId : String}
    (hentry : history.manager.pendingAcks.get? messageId = some entry) :
    ∃ sending, history.opened.get? messageId = some sending ∧
      sending.messageId = messageId ∧ Pending entry sending := by
  have hcall := h.calls messageId
  rw [hentry] at hcall
  cases hopened : history.opened.get? messageId with
  | none =>
    rw [hopened] at hcall
    cases hcall
  | some sending =>
    rw [hopened] at hcall
    obtain ⟨hid, hcall⟩ | _ := hcall
    exact ⟨sending, rfl, hid, hcall⟩

/-- An id is pending exactly as long as its call is open. -/
theorem Tracks.isSome_iff {history : AckHistory} (h : Tracks history) (messageId : String) :
    (history.opened.get? messageId).isSome ↔
      (history.manager.pendingAcks.get? messageId).isSome := by
  have hcall := h.calls messageId
  cases hentry : history.manager.pendingAcks.get? messageId with
  | none =>
    rw [hentry] at hcall
    cases hopened : history.opened.get? messageId with
    | none => exact Iff.rfl
    | some sending =>
      rw [hopened] at hcall
      cases hcall
  | some entry =>
    obtain ⟨sending, hopened, _⟩ := h.exists_opened hentry
    simp [hopened]

section Follow

variable {history : AckHistory} {messageId : String} {stimulus : AckStep}
  {step : AckManager × List AckEffect}

theorem follow_of_none (hopened : history.opened.get? messageId = none) :
    history.follow messageId stimulus step =
      { history with manager := step.1, stray := history.stray ++ step.2 } := by
  rw [follow, hopened]

theorem follow_of_quiet (hopened : history.opened.get? messageId = some sending)
    (hquiet : (stimulus :: step.2.map ofEffect).any terminal = false) :
    history.follow messageId stimulus step =
      { history with
        manager := step.1
        opened := history.opened.set messageId
          { sending with steps := sending.steps ++ stimulus :: step.2.map ofEffect } } := by
  rw [follow, hopened]
  simp [hquiet]

theorem follow_of_terminal (hopened : history.opened.get? messageId = some sending)
    (hterminal : (stimulus :: step.2.map ofEffect).any terminal = true) :
    history.follow messageId stimulus step =
      { history with
        manager := step.1
        opened := history.opened.erase messageId
        closed := history.closed ++
          [{ sending with steps := sending.steps ++ stimulus :: step.2.map ofEffect }] } := by
  rw [follow, hopened]
  simp [hterminal]

/-- A step after which the call stays open. -/
theorem Tracks.follow_quiet (h : Tracks history) {entry' : PendingEntry}
    (hopened : history.opened.get? messageId = some sending)
    (hquiet : (stimulus :: step.2.map ofEffect).any terminal = false)
    (hsending : Pending entry'
      { sending with steps := sending.steps ++ stimulus :: step.2.map ofEffect })
    (hid : sending.messageId = messageId)
    (hpending : ∀ other, step.1.pendingAcks.get? other =
      if other = messageId then some entry' else history.manager.pendingAcks.get? other)
    (htimers : TimersFit step.1.timers step.1.handles step.1.pendingAcks.get?) :
    Tracks (history.follow messageId stimulus step) := by
  rw [follow_of_quiet hopened hquiet]
  refine ⟨htimers, fun other ↦ ?_, h.closed, h.stray⟩
  rw [hpending, OrderedMap.get?_set]
  split
  · subst_vars
    exact .some ⟨rfl, hsending⟩
  · exact h.calls other

/-- A step that closes the call. -/
theorem Tracks.follow_terminal (h : Tracks history) (hentry : Pending entry sending)
    (hopened : history.opened.get? messageId = some sending) {final : AckStep}
    (hsteps : step.2.map ofEffect = [final]) (hstimulus : stimulus.terminal = false)
    (hfinal : final.terminal = true)
    (hsending : Lifecycle { sending with steps := sending.steps ++ [stimulus, final] })
    (hpending : ∀ other, step.1.pendingAcks.get? other =
      if other = messageId then none else history.manager.pendingAcks.get? other)
    (htimers : TimersFit step.1.timers step.1.handles step.1.pendingAcks.get?) :
    Tracks (history.follow messageId stimulus step) := by
  rw [follow_of_terminal hopened (by simp [hsteps, hfinal]), hsteps]
  refine ⟨htimers, fun other ↦ ?_, ?_, h.stray⟩
  · rw [hpending, OrderedMap.get?_erase]
    split
    · exact .none
    · exact h.calls other
  · intro call hcall
    rcases List.mem_append.1 hcall with hold | hnew
    · exact h.closed call hold
    · rw [List.mem_singleton.1 hnew]
      have hzero : sending.steps.countP terminal = 0 := by
        rw [List.countP_eq_zero]
        intro step hstep hterminal
        exact hentry.not_mem hterminal hstep
      refine ⟨hsending, ?_⟩
      rw [List.countP_append, hzero]
      simp [hstimulus, hfinal]

end Follow

section Step

variable {history : AckHistory}

theorem Tracks.sendWithAck (h : Tracks history) {pool : ConnectionPool} {message : P2PMessage}
    {peerIds : List String} (henabled : Enabled history (.sendWithAck pool message peerIds)) :
    Tracks (history.next (.sendWithAck pool message peerIds)) := by
  obtain ⟨hnonempty, hnodup, hclients, hnone⟩ := henabled
  obtain ⟨heffects, htimers, hhandles, hpending⟩ :=
    history.manager.sendWithAck_spec pool message peerIds
  refine ⟨?_, fun other ↦ ?_, h.closed, h.stray⟩
  · dsimp only [AckHistory.next]
    rw [htimers, hhandles]
    exact h.timers.start hnone rfl hpending
  · dsimp only [AckHistory.next]
    rw [hpending, OrderedMap.get?_set, heffects, transmit_steps hclients]
    split
    · subst_vars
      exact .some ⟨rfl, pending_opened hnonempty hnodup⟩
    · exact h.calls other

theorem Tracks.receiveAck (h : Tracks history) (ack : AckMessage) :
    Tracks (history.next (.receiveAck ack)) := by
  rcases history.manager.receiveAck_cases ack with ⟨hnone, hstep⟩ |
    ⟨messageId, entry, hid, hentry, hack⟩
  · dsimp only [AckHistory.next]
    rw [hstep]
    split
    · exact ⟨h.timers, h.calls, h.closed, by simp [h.stray]⟩
    · rename_i messageId hid
      have hopened : history.opened.get? messageId = none := by
        refine Option.not_isSome_iff_eq_none.1 fun hsome ↦ ?_
        rw [h.isSome_iff, hnone messageId hid] at hsome
        cases hsome
      rw [follow_of_none hopened]
      exact ⟨h.timers, h.calls, h.closed, by simp [h.stray]⟩
  · obtain ⟨sending, hopened, hsending, hcall⟩ := h.exists_opened hentry
    dsimp only [AckHistory.next]
    rw [hid]
    rcases hack with ⟨hall, heffects, htimers, hhandles, hpending⟩ |
      ⟨hsome, heffects, htimers, hhandles, hpending⟩
    · refine h.follow_terminal hcall hopened (by simp [heffects, ofEffect]) rfl rfl
        (hcall.confirm hall) hpending ?_
      rw [htimers, hhandles, h.timers.filter_cleared hentry]
      exact h.timers.stop hpending
    · refine h.follow_quiet hopened (by simp [heffects, terminal]) ?_ hsending hpending ?_
      · rw [heffects]
        exact hcall.acknowledge hsome
      · rw [htimers, hhandles]
        refine h.timers.keep hentry ?_ hpending
        rfl

theorem Tracks.expire (h : Tracks history) {pool : ConnectionPool} {timer : AckTimer}
    (henabled : Enabled history (.expire pool timer)) :
    Tracks (history.next (.expire pool timer)) := by
  obtain ⟨hlive, hclients⟩ := henabled
  obtain ⟨owner, howner, -⟩ := h.timers.owned hlive
  rcases history.manager.expire_cases pool timer with ⟨hnone, _⟩ | ⟨entry, hentry, htimeout⟩
  · rw [howner] at hnone
    cases hnone
  · obtain ⟨sending, hopened, hsending, hcall⟩ := h.exists_opened hentry
    rcases htimeout with ⟨hlast, heffects, htimers, hhandles, hpending⟩ |
      ⟨hmore, heffects, htimers, hhandles, hpending⟩
    · refine h.follow_terminal hcall hopened (by simp [heffects, ofEffect]) rfl rfl
        (hcall.giveUp hlast) hpending ?_
      rw [htimers, hhandles, h.timers.filter_expired hlive]
      exact h.timers.stop hpending
    · have hpeers : ∀ peerId ∈ entry.peers, HasClient pool peerId := by
        intro peerId hpeerId
        rw [hcall.peers] at hpeerId
        exact hclients sending hopened peerId (mem_outstanding.1 hpeerId).1
      have hsteps := @transmit_steps pool entry.message _ hpeers
      refine h.follow_quiet hopened ?_ ?_ hsending hpending ?_
      · rw [heffects, hsteps]
        simp [terminal]
      · rw [heffects, hsteps]
        exact hcall.retry hmore _
      · rw [htimers, hhandles, h.timers.filter_expired hlive]
        refine h.timers.restart ?_ hpending
        rfl

theorem Tracks.next (h : Tracks history) {event : Event} (henabled : Enabled history event) :
    Tracks (history.next event) := by
  cases event with
  | sendWithAck pool message peerIds => exact h.sendWithAck henabled
  | receiveAck ack => exact h.receiveAck ack
  | expire pool timer => exact h.expire henabled

end Step

/-- In any run, every call of `sendWithAck` lives as it should: it is closed by one terminal event
and by none while it is open, which is as long as its id is pending; nothing happens outside of the
calls; and a timer is running for an id exactly if it is pending. -/
theorem lifecycles {events : List Event} {history : AckHistory}
    (h : system.Run new events history) :
    (∀ sending ∈ history.closed, Lifecycle sending ∧ sending.steps.countP terminal = 1) ∧
    (∀ messageId sending, history.opened.get? messageId = some sending →
      Lifecycle sending ∧ sending.steps.countP terminal = 0) ∧
    history.stray = [] ∧
    ∀ messageId,
      ((history.opened.get? messageId).isSome ↔
        (history.manager.pendingAcks.get? messageId).isSome) ∧
      history.manager.timers.countP (fun timer ↦ timer.messageId = messageId) =
        if (history.manager.pendingAcks.get? messageId).isSome then 1 else 0 := by
  have htracks : Tracks history :=
    h.invariant_next (fun _ _ hbefore henabled ↦ hbefore.next henabled) tracks_new
  refine ⟨htracks.closed, fun messageId sending hopened ↦ ?_, htracks.stray, fun messageId ↦
    ⟨?_, htracks.timers.countP_eq messageId⟩⟩
  · obtain ⟨entry, hentry⟩ := Option.isSome_iff_exists.1
      ((htracks.isSome_iff messageId).1 (by simp [hopened]))
    obtain ⟨found, hfound, _, hcall⟩ := htracks.exists_opened hentry
    cases hopened.symm.trans hfound
    refine ⟨hcall.lifecycle, List.countP_eq_zero.2 fun step hstep hterminal ↦ ?_⟩
    exact hcall.not_mem hterminal hstep
  · exact htracks.isSome_iff messageId

/-- `bob` is a neighbour with a connected client. -/
def neighbour : ConnectionPool :=
  ((ConnectionPool.new "alice").connect 0 "ws://10.0.0.2:8080" "bob").setConnected "bob" true

def letter : P2PMessage where
  id := "letter"
  type := .chat
  ttl := 10
  lamportTimestamp := 1
  sender := "alice"
  senderPublicKey := none
  topic := "dm:bob"
  payload := .text "hello"
  createdAt := "2026-01-01T00:00:00.000Z"
  powNonce := 0
  signature := none
  routingPath := none

/-- The message is sent and acknowledged. -/
def exchange : List Event :=
  [.sendWithAck neighbour letter ["bob"], .receiveAck ⟨some "letter", "bob"⟩]

theorem enabled_letter {history : AckHistory}
    (h : history.manager.pendingAcks.get? "letter" = none) :
    Enabled history (.sendWithAck neighbour letter ["bob"]) := by
  refine ⟨by decide, by decide, fun peerId hpeerId ↦ ?_, h⟩
  rw [List.mem_singleton.1 hpeerId]
  decide +kernel

theorem run_exchange {history : AckHistory} {events : List Event}
    (h : system.Run new events history)
    (hnone : history.manager.pendingAcks.get? "letter" = none) :
    system.Run new (events ++ exchange) (exchange.foldl AckHistory.next history) := by
  rw [exchange, ← List.singleton_append, ← List.append_assoc, List.singleton_append,
    List.foldl_cons, List.foldl_cons, List.foldl_nil]
  exact .snoc (.snoc h ⟨enabled_letter hnone, rfl⟩) ⟨trivial, rfl⟩

/-- The first exchange is over. -/
theorem lifecycles_exchange :
    Lifecycle ⟨"letter", ["bob"], [.transmitted "bob", .acknowledged "bob", .confirmed]⟩ := by
  have hrun := run_exchange (.nil new) rfl
  exact ((lifecycles hrun).1 _ (by decide +kernel)).1

/-- The id of a message that is sent again gets a second terminal event. -/
theorem not_once_exchange :
    ¬∀ events history, system.Run new events history → ∀ messageId,
      ((history.closed.filter fun sending ↦ sending.messageId = messageId).flatMap
        Sending.steps).countP terminal ≤ 1 := by
  intro h
  have hrun := run_exchange (run_exchange (.nil new) rfl) (by decide +kernel)
  exact absurd (h _ _ hrun "letter") (by decide +kernel)

end AckHistory

end P2PApp
