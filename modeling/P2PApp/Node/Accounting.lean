import P2PApp.Metrics.Collector
import P2PApp.Node.Exceptions
import P2PApp.Node.Transit

/-!
# Where the received messages go

The counters that `receiveMessage` and `verifyIncomingMessage` advance, on unchecked messages. Each
call adds one to the messages received, and is to show up in one other place: in a counter of
dropped messages, or in the seen set. The verifier and the engine both count a signature that is
missing or wrong, and a call that throws in front of the seen set is not counted at all; apart
from these two kinds of calls the books balance.

The two counters of forwarding, which take no part in this, are left out.
-/

namespace P2PApp.Node

open JavaScript TransitionSystem

/-- One call of `receiveMessage`, with the reading of the clock. -/
structure Call where
  now : ℕ
  message : Value
  fromPeerId : Key

/-- An engine with a security manager, and the collector that both of them report to. -/
structure MeteredEngine where
  engine : GossipEngine
  collector : MetricsCollector

namespace GossipEngine

/-- The routing table behind an advertisement, also where a later comparison of the `ttl` throws. An
update that throws itself does so before it writes. -/
def routerAfter (runtime : Runtime) (now : ℕ) (engine : GossipEngine) (message payload : Value)
    (path : Path) (fromPeerId : Key) : Router :=
  let topic := (payload.property "topic").key
  let sender := (message.property "sender").key
  let action := (payload.property "action").key
  let nextHop := if fromPeerId.truthy then fromPeerId else .string engine.localPeerId
  if action = .string "JOIN" then
    ((updateRoute runtime engine.topicRouter topic sender nextHop path.length
      (payload.property "sequenceNumber") path.elements
      (now + Config.ROUTE_LEASE_MS)).getD (false, engine.topicRouter)).2
  else if action = .string "LEAVE" then (engine.topicRouter.removeRoute topic sender).2
  else engine.topicRouter

/-- What an admitted `SUB_AD` leaves of the engine, also where the call throws. -/
def afterSubAd (runtime : Runtime) (now : ℕ) (engine : GossipEngine) (message : Value)
    (fromPeerId : Key) : GossipEngine :=
  match engine.parse runtime (message.property "payload") with
  | none => engine.countParse
  | some payload =>
    if payload.nullish then engine.countParse
    else
      match pathOf engine.localPeerId (message.property "routingPath") with
      | none => engine.countParse
      | some path =>
        if path.includesLocal then engine.countParse
        else
          { engine.countParse with
            topicRouter := engine.countParse.routerAfter runtime now message payload path
              fromPeerId }

variable {runtime : Runtime} {now : ℕ} {engine after : GossipEngine} {message : Value}
  {fromPeerId : Key}

theorem eq_routerAfter_of_routeAdvert {payload : Value} {path : Path}
    (h : engine.routeAdvert runtime now message payload path fromPeerId = some after) :
    after = { engine with
      topicRouter := engine.routerAfter runtime now message payload path fromPeerId } := by
  unfold routeAdvert at h
  obtain ⟨⟨changed, topicRouter⟩, hrouted, hresult⟩ := Option.bind_eq_some_iff.1 h
  have htable : topicRouter = engine.routerAfter runtime now message payload path fromPeerId := by
    unfold routerAfter
    dsimp only at hrouted ⊢
    split at hrouted
    · rename_i hjoin
      rw [if_pos hjoin, hrouted]
      rfl
    · rename_i hjoin
      rw [if_neg hjoin]
      split at hrouted
      · rename_i hleave
        rw [if_pos hleave, Option.some.inj hrouted]
      · rename_i hleave
        rw [if_neg hleave]
        cases hrouted
        rfl
  dsimp only at hresult
  split at hresult
  · cases hresult
  · rw [← htable]
    exact (Option.some.inj hresult).symm

/-- A `SUB_AD` that is processed to the end leaves this engine. -/
theorem eq_afterSubAd_of_processSubAd {announced : Bool}
    (h : engine.processSubAd runtime now message fromPeerId = some (after, announced)) :
    after = engine.afterSubAd runtime now message fromPeerId := by
  unfold processSubAd at h
  unfold afterSubAd
  cases hparse : engine.parse runtime (message.property "payload") with
  | none =>
    rw [hparse] at h
    cases h
    rfl
  | some payload =>
    rw [hparse] at h
    dsimp only at h ⊢
    cases hnullish : payload.nullish with
    | true =>
      rw [hnullish] at h
      cases h
    | false =>
      simp only [hnullish, Bool.false_eq_true, if_false] at h ⊢
      cases hpath : pathOf engine.localPeerId (message.property "routingPath") with
      | none =>
        rw [hpath] at h
        cases h
      | some path =>
        rw [hpath] at h
        dsimp only at h ⊢
        cases hlocal : path.includesLocal with
        | true =>
          rw [hlocal] at h
          cases h
          rfl
        | false =>
          simp only [hlocal, Bool.false_eq_true, if_false] at h ⊢
          obtain ⟨routed, hrouted, hresult⟩ := Option.map_eq_some_iff.1 h
          cases hresult
          exact eq_routerAfter_of_routeAdvert hrouted

/-- Advertisements are no matter of the seen set. -/
theorem seenMessages_afterSubAd (runtime : Runtime) (now : ℕ) (engine : GossipEngine)
    (message : Value) (fromPeerId : Key) :
    (engine.afterSubAd runtime now message fromPeerId).seenMessages = engine.seenMessages := by
  unfold afterSubAd
  split
  · rfl
  · split
    · rfl
    · split
      · rfl
      · split <;> rfl

end GossipEngine

namespace MeteredEngine

/-- Where a received message can show up. -/
inductive Outcome
  | invalidPow
  | rateLimited
  | invalidSignature
  | duplicate
  | seen
  deriving DecidableEq

/-- The counter of the messages dropped for a reason. -/
def Outcome.counter : Outcome → Option String
  | invalidPow => some "messages_dropped_pow"
  | rateLimited => some "messages_dropped_ratelimit"
  | invalidSignature => some "invalid_signature_count"
  | duplicate => some "messages_dropped_duplicate"
  | seen => none

def increment (state : MeteredEngine) (name : String) : MeteredEngine :=
  { state with collector := state.collector.increment name }

/-- Verification by the registered key, or by the key in the message, which is then registered. -/
def verifyIncomingMessage (runtime : Runtime) (state : MeteredEngine) (message : Value) :
    Bool × MeteredEngine :=
  let manager := state.engine.securityManager
  let signature := message.property "signature"
  let sender := (message.property "sender").key
  if signature.truthy = false then (false, state.increment "invalid_signature_count")
  else
    let attached := message.property "senderPublicKey"
    let learns := (manager.keyOf sender).truthy = false ∧ attached.truthy = true
    let senderPublicKey := if learns then attached else manager.keyOf sender
    let securityManager := if learns then manager.registerPeerKey sender attached else manager
    let state := { state with engine := { state.engine with securityManager } }
    -- An unknown key is not counted here.
    if senderPublicKey.truthy = false then (false, state)
    else if runtime.verify (SecurityManager.signedFields message) signature senderPublicKey then
      (true, state)
    else (false, state.increment "invalid_signature_count")

/-- The clock and the seen set, for a message that passed the checks, and whether it is new. -/
def deduplicate (runtime : Runtime) (state : MeteredEngine) (message : Value) :
    Bool × MeteredEngine :=
  match state.engine.updateClock runtime (message.property "lamportTimestamp") with
  | none => (false, state)
  | some engine =>
    let state := { state with engine }
    let id := (message.property "id").key
    if id ∈ engine.seenMessages then (false, state.increment "messages_dropped_duplicate")
    else
      (true, { state with
        engine := { engine with seenMessages := insert id engine.seenMessages } })

/-- The first half of `receiveMessage`, and whether it gets to the insertion into the seen set. An
exception stops it with the state at hand. -/
def screen (runtime : Runtime) (state : MeteredEngine) (call : Call) : Bool × MeteredEngine :=
  let message := call.message
  let state := state.increment "messages_received_total"
  if message.nullish then (false, state)
  else
    match GossipEngine.checkPuzzle runtime message with
    | none => (false, state)
    | some false => (false, state.increment "messages_dropped_pow")
    | some true =>
      let (allowed, engine) := state.engine.checkLimit call.now call.fromPeerId
      let state := { state with engine }
      if allowed = false then (false, state.increment "messages_dropped_ratelimit")
      else
        let (valid, state) := state.verifyIncomingMessage runtime message
        if valid = false then (false, state.increment "invalid_signature_count")
        else state.deduplicate runtime message

/-- The engine and the counters behind a call, which may have thrown. -/
def receiveMessage (runtime : Runtime) (state : MeteredEngine) (call : Call) : MeteredEngine :=
  let (passed, state) := state.screen runtime call
  if passed = true ∧ (call.message.property "type").key = .string "SUB_AD" then
    { state with
      engine := state.engine.afterSubAd runtime call.now call.message call.fromPeerId }
  else state

/-- The engines of a node that has just started, before any message. -/
structure Fresh (state : MeteredEngine) : Prop where
  collector : state.collector = .new
  seenMessages : state.engine.seenMessages = ∅

def HasStringId (_ : MeteredEngine) (call : Call) : Prop :=
  ∃ id, call.message.property "id" = .string id

def system (runtime : Runtime) : TransitionSystem MeteredEngine Call :=
  ofNext HasStringId (receiveMessage runtime)

/-! ## The books -/

def received (state : MeteredEngine) : ℕ := state.collector.counters "messages_received_total"

/-- How many messages have shown up at each place. -/
def count (state : MeteredEngine) (outcome : Outcome) : ℕ :=
  match outcome.counter with
  | some name => state.collector.counters name
  | none => state.engine.seenMessages.card

def Balanced (state : MeteredEngine) : Prop :=
  state.collector.counters "messages_received_total" =
    state.collector.counters "messages_dropped_pow" +
      state.collector.counters "messages_dropped_ratelimit" +
      state.collector.counters "invalid_signature_count" +
      state.collector.counters "messages_dropped_duplicate" + state.engine.seenMessages.card

/-- One message was received, and shows up at exactly one place. -/
def CountedOnce (before after : MeteredEngine) : Prop :=
  after.received = before.received + 1 ∧
    ∃ outcome, after.count = Function.update before.count outcome (before.count outcome + 1)

/-- The books are balanced after every call, and every call is counted once. -/
def Accounted (runtime : Runtime) (state : MeteredEngine) (calls : List Call) : Prop :=
  ∀ before call, before ++ [call] <+: calls →
    Balanced ((before ++ [call]).foldl (receiveMessage runtime) state) ∧
      CountedOnce (before.foldl (receiveMessage runtime) state)
        ((before.foldl (receiveMessage runtime) state).receiveMessage runtime call)

/-- The call does not throw in front of the seen set: the proof of work can be computed, and the
stamp of a message that passes the checks is a number or can be made one. If the proof of work and
the rate limit let the message through, it has a signature, which does not fail under the key in
use, if there is one. -/
def Accountable (runtime : Runtime) (state : MeteredEngine) (call : Call) : Prop :=
  ∃ solved ∈ GossipEngine.checkPuzzle runtime call.message,
    solved = true → (state.engine.checkLimit call.now call.fromPeerId).1 = true →
      let signature := call.message.property "signature"
      let senderPublicKey := state.engine.securityManager.verificationKey call.message
      signature.truthy = true ∧
        (senderPublicKey.truthy = true →
          runtime.verify (SecurityManager.signedFields call.message) signature senderPublicKey =
              true ∧
            (call.message.property "lamportTimestamp").Printable)

instance : DecidablePred Balanced := fun _ ↦ inferInstanceAs (Decidable (_ = _))

instance (runtime : Runtime) (state : MeteredEngine) (call : Call) :
    Decidable (Accountable runtime state call) :=
  inferInstanceAs (Decidable (∃ solved ∈ GossipEngine.checkPuzzle runtime call.message, _ → _ →
    _ ∧ (_ → _ ∧ (call.message.property "lamportTimestamp").Printable)))

variable {runtime : Runtime} {state : MeteredEngine} {call : Call}

/-- What some steps of a call add: a number of messages at one place. -/
structure Adds (before after : MeteredEngine) (outcome : Outcome) (extra : ℕ) : Prop where
  received : after.received = before.received
  count : after.count = Function.update before.count outcome (before.count outcome + extra)

/-- The books are the counters and the size of the seen set. -/
theorem adds_zero (state : MeteredEngine) {engine : GossipEngine}
    (hseen : engine.seenMessages = state.engine.seenMessages) (outcome : Outcome) :
    Adds state ⟨engine, state.collector⟩ outcome 0 := by
  refine ⟨rfl, ?_⟩
  rw [Nat.add_zero, Function.update_eq_self]
  funext other
  rw [count, count, hseen]

theorem Adds.trans {before middle after : MeteredEngine} {outcome : Outcome} {first second : ℕ}
    (h : Adds before middle outcome first) (h' : Adds middle after outcome second) :
    Adds before after outcome (first + second) := by
  refine ⟨h'.received.trans h.received, ?_⟩
  rw [h'.count, h.count]
  simp [Nat.add_assoc]

theorem adds_increment (outcome : Outcome) {name : String} (h : outcome.counter = some name)
    (state : MeteredEngine) : Adds state (state.increment name) outcome 1 := by
  refine ⟨?_, ?_⟩
  · cases outcome <;> cases h <;> simp [received, increment, MetricsCollector.increment]
  · funext other
    cases outcome <;> cases h <;> cases other <;>
      simp [count, Outcome.counter, increment, MetricsCollector.increment]

/-- The seen set counts each id once. -/
theorem adds_insert {engine : GossipEngine} {id : Key} (hunseen : id ∉ engine.seenMessages)
    (collector : MetricsCollector) :
    Adds ⟨engine, collector⟩ ⟨{ engine with seenMessages := insert id engine.seenMessages },
      collector⟩ .seen 1 := by
  refine ⟨rfl, ?_⟩
  funext other
  cases other <;> simp [count, Outcome.counter, Finset.card_insert_of_notMem hunseen]

theorem count_receive (state : MeteredEngine) :
    (state.increment "messages_received_total").count = state.count := by
  funext outcome
  cases outcome <;> simp [count, Outcome.counter, increment, MetricsCollector.increment]

theorem received_receive (state : MeteredEngine) :
    (state.increment "messages_received_total").received = state.received + 1 := by
  simp [received, increment, MetricsCollector.increment]

/-- Adding one message keeps the books balanced, if it is added once. -/
theorem Adds.balanced_iff {before after : MeteredEngine} {outcome : Outcome} {extra : ℕ}
    (hbalanced : before.Balanced)
    (h : Adds (before.increment "messages_received_total") after outcome extra) :
    after.Balanced ↔ extra = 1 := by
  have hbooks (state : MeteredEngine) : state.Balanced ↔ state.received =
      state.count .invalidPow + state.count .rateLimited + state.count .invalidSignature +
        state.count .duplicate + state.count .seen := Iff.rfl
  rw [hbooks] at hbalanced ⊢
  rw [h.received, h.count, received_receive, count_receive]
  cases outcome <;> simp only [Function.update_apply, reduceCtorEq, if_true, if_false] <;> omega

theorem Adds.countedOnce {before after : MeteredEngine} {outcome : Outcome}
    (h : Adds (before.increment "messages_received_total") after outcome 1) :
    CountedOnce before after := by
  refine ⟨h.received.trans (received_receive before), outcome, ?_⟩
  rw [h.count, count_receive]

/-- Verification touches the keys, and the counter of signatures if it finds one missing or
wrong. -/
theorem verifyIncomingMessage_cases (runtime : Runtime) (state : MeteredEngine) (message : Value) :
    ∃ valid securityManager collector,
      state.verifyIncomingMessage runtime message =
        (valid, ⟨{ state.engine with securityManager }, collector⟩) ∧
      state.engine.verifySignature runtime message =
        (valid, { state.engine with securityManager }) ∧
      let signature := message.property "signature"
      let senderPublicKey := state.engine.securityManager.verificationKey message
      ((valid = true ∧ collector = state.collector ∧ signature.truthy = true ∧
          senderPublicKey.truthy = true ∧
          runtime.verify (SecurityManager.signedFields message) signature senderPublicKey = true) ∨
        (valid = false ∧ collector = state.collector ∧ signature.truthy = true ∧
          senderPublicKey.truthy = false) ∨
        (valid = false ∧ collector = state.collector.increment "invalid_signature_count" ∧
          (signature.truthy = true → senderPublicKey.truthy = true ∧
            runtime.verify (SecurityManager.signedFields message) signature senderPublicKey =
              false))) := by
  unfold verifyIncomingMessage GossipEngine.verifySignature SecurityManager.verifyIncomingMessage
    SecurityManager.verificationKey
  dsimp only
  cases hsignature : (message.property "signature").truthy with
  | false => exact ⟨_, _, _, rfl, rfl, .inr (.inr ⟨rfl, rfl, by simp⟩)⟩
  | true =>
    simp only [Bool.true_eq_false, if_false]
    generalize hkey : (if (state.engine.securityManager.keyOf
        (message.property "sender").key).truthy = false ∧
        (message.property "senderPublicKey").truthy = true then
      message.property "senderPublicKey"
      else state.engine.securityManager.keyOf (message.property "sender").key) = senderPublicKey
    cases hknown : senderPublicKey.truthy with
    | false => exact ⟨_, _, _, rfl, rfl, .inr (.inl ⟨rfl, rfl, trivial, rfl⟩)⟩
    | true =>
      simp only [Bool.true_eq_false, if_false]
      cases hverify : runtime.verify (SecurityManager.signedFields message)
        (message.property "signature") senderPublicKey with
      | true => exact ⟨_, _, _, rfl, rfl, .inl ⟨rfl, rfl, trivial, trivial, rfl⟩⟩
      | false => exact ⟨_, _, _, rfl, rfl, .inr (.inr ⟨rfl, rfl, fun _ ↦ ⟨trivial, rfl⟩⟩)⟩

theorem deduplicate_cases (runtime : Runtime) (state : MeteredEngine) (message : Value) :
    ∃ outcome extra, Adds state (state.deduplicate runtime message).2 outcome extra ∧
      (extra = 1 ↔ (message.property "lamportTimestamp").Printable) := by
  unfold deduplicate
  rcases GossipEngine.updateClock_cases runtime state.engine (message.property "lamportTimestamp")
    with ⟨hstamp, hclock⟩ | ⟨hstamp, after, hclock, hafter⟩
  · rw [hclock]
    exact ⟨.seen, 0, adds_zero state rfl _, by simp [hstamp]⟩
  · rw [hclock]
    dsimp only
    split
    · have hclocked : Adds state ⟨after, state.collector⟩ .duplicate 0 :=
        adds_zero state hafter.seenMessages _
      exact ⟨_, _, hclocked.trans (adds_increment .duplicate rfl _), by simp [hstamp]⟩
    · rename_i hunseen
      have hclocked : Adds state ⟨after, state.collector⟩ .seen 0 :=
        adds_zero state hafter.seenMessages _
      exact ⟨_, _, hclocked.trans (adds_insert hunseen _), by simp [hstamp]⟩

/-- What the checks add to the books behind the messages received: a number of messages at one
place, which is one for the accountable calls only. -/
theorem screen_cases (runtime : Runtime) (state : MeteredEngine) (call : Call)
    (hmessage : call.message.nullish = false) :
    ∃ outcome extra,
      Adds (state.increment "messages_received_total") (state.screen runtime call).2 outcome
        extra ∧ (extra = 1 ↔ Accountable runtime state call) := by
  have hengine : (state.increment "messages_received_total").engine = state.engine := rfl
  unfold screen Accountable
  generalize state.increment "messages_received_total" = started at hengine ⊢
  simp only [hmessage, Bool.false_eq_true, if_false]
  cases hpuzzle : GossipEngine.checkPuzzle runtime call.message with
  | none => exact ⟨.seen, 0, adds_zero started rfl _, by simp⟩
  | some solved =>
    cases solved with
    | false => exact ⟨_, 1, adds_increment .invalidPow rfl _, by simp⟩
    | true =>
      dsimp only
      rw [hengine]
      obtain ⟨hlimited, hkeys⟩ :=
        GossipEngine.sameTable_checkLimit state.engine call.now call.fromPeerId
      generalize state.engine.checkLimit call.now call.fromPeerId = limited at hlimited hkeys ⊢
      obtain ⟨allowed, limited⟩ := limited
      dsimp only at hlimited hkeys ⊢
      have hseen : limited.seenMessages = started.engine.seenMessages := by
        rw [hengine, hlimited.seenMessages]
      cases allowed with
      | false =>
        have hsame : Adds started { started with engine := limited } .rateLimited 0 :=
          adds_zero started hseen _
        exact ⟨_, _, hsame.trans (adds_increment .rateLimited rfl _), by simp⟩
      | true =>
        simp only [Bool.true_eq_false, if_false]
        obtain ⟨valid, securityManager, collector, hverify, -, hcases⟩ :=
          verifyIncomingMessage_cases runtime { started with engine := limited } call.message
        rw [hverify]
        dsimp only at hcases ⊢
        rw [hkeys] at hcases
        have hsame (outcome : Outcome) :
            Adds started ⟨{ limited with securityManager }, started.collector⟩ outcome 0 :=
          @adds_zero started { limited with securityManager } hseen outcome
        rcases hcases with ⟨rfl, rfl, hsignature, hkey, hvalid⟩ | ⟨rfl, rfl, hsignature, hkey⟩ |
          ⟨rfl, rfl, hinvalid⟩
        · simp only [Bool.true_eq_false, if_false]
          obtain ⟨outcome, extra, hadds, hone⟩ := deduplicate_cases runtime
            ⟨{ limited with securityManager }, started.collector⟩ call.message
          exact ⟨outcome, _, (hsame outcome).trans hadds, by simp [hsignature, hkey, hvalid, hone]⟩
        · exact ⟨_, _, (hsame _).trans (adds_increment .invalidSignature rfl _),
            by simp [hsignature, hkey]⟩
        · -- The verifier has counted the message, and the engine counts it again.
          have htwice := (adds_increment .invalidSignature rfl
            ⟨{ limited with securityManager }, started.collector⟩).trans
              (adds_increment .invalidSignature rfl _)
          refine ⟨_, _, (hsame _).trans htwice, iff_of_false (by decide) ?_⟩
          rintro ⟨_, ⟨⟩, haccountable⟩
          obtain ⟨hsignature, hverifies⟩ := haccountable rfl trivial
          obtain ⟨hkey, hfails⟩ := hinvalid hsignature
          rw [(hverifies hkey).1] at hfails
          cases hfails

theorem deduplicate_engine {message : Value} {passed : Bool} {after : GossipEngine}
    (h : (state.engine.updateClock runtime (message.property "lamportTimestamp")).map (fun engine ↦
      let id := (message.property "id").key
      if id ∈ engine.seenMessages then (false, engine)
      else (true, { engine with seenMessages := insert id engine.seenMessages })) =
        some (passed, after)) :
    (state.deduplicate runtime message).1 = passed ∧
      (state.deduplicate runtime message).2.engine = after := by
  obtain ⟨clocked, hclocked, hresult⟩ := Option.map_eq_some_iff.1 h
  rw [deduplicate, hclocked]
  dsimp only at hresult ⊢
  split at hresult
  · rename_i hseen
    cases hresult
    rw [if_pos hseen]
    exact ⟨rfl, rfl⟩
  · rename_i hunseen
    cases hresult
    rw [if_neg hunseen]
    exact ⟨rfl, rfl⟩

/-- Checks that complete are those of the engine. -/
theorem screen_engine {passed : Bool} {after : GossipEngine}
    (h : state.engine.screen runtime call.now call.message call.fromPeerId =
      some (passed, after)) :
    (state.screen runtime call).1 = passed ∧ (state.screen runtime call).2.engine = after := by
  have hengine : (state.increment "messages_received_total").engine = state.engine := rfl
  unfold GossipEngine.screen at h
  unfold screen
  generalize state.increment "messages_received_total" = started at hengine ⊢
  cases hnullish : call.message.nullish with
  | true => simp [hnullish] at h
  | false =>
    simp only [hnullish, Bool.false_eq_true, if_false] at h ⊢
    cases hpuzzle : GossipEngine.checkPuzzle runtime call.message with
    | none => simp [hpuzzle] at h
    | some solved =>
      rw [hpuzzle] at h
      cases solved with
      | false =>
        cases h
        exact ⟨rfl, hengine⟩
      | true =>
        dsimp only at h ⊢
        rw [hengine]
        generalize state.engine.checkLimit call.now call.fromPeerId = limited at h ⊢
        obtain ⟨allowed, limited⟩ := limited
        cases allowed with
        | false =>
          cases h
          exact ⟨rfl, rfl⟩
        | true =>
          simp only [Bool.true_eq_false, if_false] at h ⊢
          obtain ⟨valid, securityManager, collector, hverify, hsignature, -⟩ :=
            verifyIncomingMessage_cases runtime { started with engine := limited } call.message
          dsimp only at hsignature
          rw [hsignature] at h
          rw [hverify]
          cases valid with
          | false =>
            cases h
            exact ⟨rfl, rfl⟩
          | true =>
            simp only [Bool.true_eq_false, if_false] at h ⊢
            exact deduplicate_engine h

/-- A call that completes leaves the engine that the engine's own model computes. -/
theorem receiveMessage_engine {after : GossipEngine} {announced : Bool}
    (h : state.engine.receiveMessage runtime call.now call.message call.fromPeerId =
      some (after, announced)) : (state.receiveMessage runtime call).engine = after := by
  unfold GossipEngine.receiveMessage at h
  unfold receiveMessage
  cases hscreen : state.engine.screen runtime call.now call.message call.fromPeerId with
  | none => simp [hscreen] at h
  | some result =>
    obtain ⟨passed, screened⟩ := result
    obtain ⟨hpassed, hengine⟩ := screen_engine hscreen
    rw [hscreen] at h
    generalize state.screen runtime call = metered at hpassed hengine ⊢
    obtain ⟨valid, metered⟩ := metered
    dsimp only at hpassed hengine ⊢
    subst hpassed hengine
    cases valid with
    | false =>
      cases h
      rfl
    | true =>
      dsimp only at h
      split at h
      · rename_i hadvert
        rw [if_pos ⟨rfl, hadvert⟩]
        exact (GossipEngine.eq_afterSubAd_of_processSubAd h).symm
      · rename_i hother
        rw [if_neg fun hadvert ↦ hother hadvert.2]
        exact (GossipEngine.eq_of_processGossip h).symm

/-- Nothing behind the seen set enters the books. -/
theorem receiveMessage_cases (runtime : Runtime) (state : MeteredEngine) (call : Call)
    (hmessage : call.message.nullish = false) :
    ∃ outcome extra,
      Adds (state.increment "messages_received_total") (state.receiveMessage runtime call) outcome
        extra ∧ (extra = 1 ↔ Accountable runtime state call) := by
  obtain ⟨outcome, extra, hadds, hone⟩ := screen_cases runtime state call hmessage
  refine ⟨outcome, extra, ?_, hone⟩
  unfold receiveMessage
  generalize state.screen runtime call = screened at hadds ⊢
  obtain ⟨passed, screened⟩ := screened
  dsimp only at hadds ⊢
  split
  · exact hadds.trans (adds_zero screened (GossipEngine.seenMessages_afterSubAd _ _ _ _ _) outcome)
  · exact hadds

theorem not_nullish_of_property {message : Value} {name id : String}
    (h : message.property name = .string id) : message.nullish = false := by
  cases message with
  | undefined | null => cases h
  | _ => rfl

/-- The books stay balanced, and the call is counted once, if and only if it is accountable. -/
theorem step_iff (hid : HasStringId state call) (hbalanced : state.Balanced) :
    (state.receiveMessage runtime call).Balanced ∧
        CountedOnce state (state.receiveMessage runtime call) ↔
      Accountable runtime state call := by
  obtain ⟨id, hid⟩ := hid
  obtain ⟨outcome, extra, hadds, hone⟩ :=
    receiveMessage_cases runtime state call (not_nullish_of_property hid)
  constructor
  · exact fun h ↦ hone.1 ((hadds.balanced_iff hbalanced).1 h.1)
  · intro haccountable
    obtain rfl := hone.2 haccountable
    exact ⟨(hadds.balanced_iff hbalanced).2 rfl, hadds.countedOnce⟩

theorem Fresh.balanced (h : Fresh state) : state.Balanced := by
  simp [Balanced, h.collector, h.seenMessages, MetricsCollector.new]

/-- From a fresh engine, the books are balanced after every call and each call is counted once, if
and only if every call is accountable in the state it meets. -/
theorem accounted_iff {last : MeteredEngine} {calls : List Call} (hfresh : Fresh state)
    (h : (system runtime).Run state calls last) :
    Accounted runtime state calls ↔
      (system runtime).GuardedRun (Accountable runtime) state calls last := by
  have hstep (state : MeteredEngine) (call : Call) (_ : True) (hbalanced : state.Balanced)
      (hid : HasStringId state call) :
      (state.receiveMessage runtime call).Balanced ∧
          CountedOnce state (state.receiveMessage runtime call) ↔
        Accountable runtime state call := step_iff hid hbalanced
  exact h.forall_step_iff (fun _ _ _ _ ↦ trivial) hstep trivial hfresh.balanced

/-! ## Closed runs -/

/-- A chat message with a valid proof of work. -/
def chat (identity : ℕ) (sender : String) (fields : List (String × Value)) : Value :=
  .object identity
    ([("id", .string "advert"), ("type", .string "GOSSIP"), ("ttl", .number (.finite 9)),
      ("lamportTimestamp", .number (.finite 1)), ("sender", .string sender),
      ("topic", .string "global"), ("payload", .string "hello"),
      ("powNonce", .number (.finite 450))] ++ fields)

def chatOfBob (identity : ℕ) : Value :=
  chat identity "bob"
    [("senderPublicKey", .string "bob-key"), ("signature", .string "bob-key/advert/bob")]

def freshEngine : MeteredEngine := ⟨.new "alice" "alice-key" 20 5, .new⟩

theorem fresh_freshEngine : Fresh freshEngine := ⟨rfl, rfl⟩

/-- A message, its copy from another neighbour, a message without proof of work and one from a
sender without a key. -/
def mixedCalls : List Call :=
  [⟨1, chatOfBob 1, .string "bob"⟩, ⟨2, chatOfBob 2, .string "carol"⟩,
    ⟨3, .object 3 [("id", .string "spam")], .string "carol"⟩,
    ⟨4, chat 4 "mallory" [("signature", .string "none")], .string "carol"⟩]

theorem accounted_iff_mixedCalls : Accounted .sample freshEngine mixedCalls :=
  have hids : EnabledAlong HasStringId (receiveMessage .sample) freshEngine mixedCalls :=
    ⟨⟨_, rfl⟩, ⟨_, rfl⟩, ⟨_, rfl⟩, ⟨_, rfl⟩, trivial⟩
  (accounted_iff fresh_freshEngine (run_ofNext hids)).2
    (guardedRun_ofNext ⟨⟨⟨_, rfl⟩, by decide +kernel⟩, ⟨⟨_, rfl⟩, by decide +kernel⟩,
      ⟨⟨_, rfl⟩, by decide +kernel⟩, ⟨⟨_, rfl⟩, by decide +kernel⟩, trivial⟩)

def unsigned : Call := ⟨1, chat 1 "bob" [], .string "bob"⟩

/-- A message without a signature is dropped once and counted twice. -/
theorem not_accounted_unsigned :
    ¬∀ (runtime : Runtime) (state last : MeteredEngine) (calls : List Call), Fresh state →
      (system runtime).Run state calls last → Accounted runtime state calls := by
  intro h
  have hrun : (system .sample).Run freshEngine [unsigned]
      ([unsigned].foldl (receiveMessage .sample) freshEngine) := run_ofNext ⟨⟨_, rfl⟩, trivial⟩
  have hbalanced := (h _ _ _ _ fresh_freshEngine hrun [] unsigned (List.prefix_refl _)).1
  exact absurd hbalanced (by decide +kernel)

end MeteredEngine

end P2PApp.Node
