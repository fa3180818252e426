import Mathlib.Logic.Function.Basic
import Mathlib.Tactic.Linarith
import P2PApp.Library.TransitionSystem
import P2PApp.Node.Forwarding

/-!
# Hostile messages in a network of honest nodes

Any number of nodes that check nothing but what the engine checks. Whatever JSON comes in from the
outside, the nodes pass on over their connections, each delivery parsing the text anew; they store
what they announce and send it in batches as well. Connections, routes, keys and limits may change
at any time, and a node may stop.

The seen set tells ids apart as a JavaScript set does, and the `ttl` is decremented and compared
with zero. The first recognises no array or object after it has been parsed again, and the second
puts no limit on where the counting starts. Ids of any other kind and a `ttl` of at most `MAX_TTL`
at the start keep the network within its bounds.
-/

namespace P2PApp.Storm

open JavaScript Node GossipEngine

/-- A node, with the messages that it has broadcast, and those that it has stored as JSON, together
with the hops that they have taken if they are sent on. -/
structure Process where
  engine : Node.GossipEngine
  pool : ConnectionPool Key
  running : Bool
  broadcastLog : List Value
  stored : List (Value × ℕ)

/-- A text on its way over a connection of its source, after so many hops; it is relayed, or part of
a batch. -/
structure Flight (ι : Type*) where
  source : ι
  connection : Connection Key
  content : Value
  hops : ℕ
  relayed : Bool

structure World (ι : Type*) where
  process : ι → Process
  inFlight : List (Flight ι)
  /-- How many arrays and objects have been allocated. -/
  allocated : ℕ

inductive Event (ι : Type*)
  /-- A text from outside the network, or one that a node publishes itself. -/
  | inject (node : ι) (content : Value) (fromPeerId : Key) (now : ℕ) (draw : Draw)
  /-- A text arrives at the other end of its connection. -/
  | deliver (index : ℕ) (node : ι) (fromPeerId : Key) (now : ℕ) (draw : Draw)
  | lose (index : ℕ)
  /-- A stored message is sent to a neighbour. -/
  | sync (node : ι) (peerId : Key) (entry : Value × ℕ)
  /-- Connections, routes, keys, limits and the clock change. -/
  | reconfigure (node : ι) (pool : ConnectionPool Key) (engine : Node.GossipEngine)
  | stop (node : ι)

namespace World

variable {ι : Type*} [DecidableEq ι] (runtime : Runtime) (link : ι → Connection Key → Option ι)

def setProcess (world : World ι) (node : ι) (process : Process) : World ι :=
  { world with process := Function.update world.process node process }

/-- The copies of a `broadcast` call. -/
def copiesOf (node : ι) (pool : ConnectionPool Key) (hops : ℕ) (broadcast : Broadcast) :
    List (Flight ι) :=
  (pool.broadcast broadcast.excludePeerIds).map fun connection ↦
    { source := node, connection, content := broadcast.message.wire, hops, relayed := true }

/-- The message as it is saved, unless it is about routes. -/
def savedOf (message : Value) (announced : Option Value) (hops : ℕ) : List (Value × ℕ) :=
  if (message.property "type").key = .string "SUB_AD" then []
  else announced.toList.map fun announced ↦ (announced.wire, hops)

/-- A node parses a text that has taken some hops, and handles it. An exception stops the node. -/
def receive (world : World ι) (node : ι) (content : Value) (hops : ℕ) (fromPeerId : Key) (now : ℕ)
    (draw : Draw) : World ι :=
  let process := world.process node
  let (message, allocated) := content.allocate world.allocated
  match pass runtime process.pool now draw process.engine message fromPeerId with
  | none => { world.setProcess node { process with running := false } with allocated }
  | some outcome =>
    { world.setProcess node
        { process with
          engine := outcome.engine
          broadcastLog :=
            process.broadcastLog ++ (outcome.broadcast.map Broadcast.message).toList
          stored := process.stored ++ savedOf message outcome.announced (hops + 1) } with
      inFlight := world.inFlight ++
        outcome.broadcast.toList.flatMap (copiesOf node process.pool (hops + 1))
      allocated }

def next (world : World ι) : Event ι → World ι
  | .inject node content fromPeerId now draw =>
    world.receive runtime node content 0 fromPeerId now draw
  | .deliver index node fromPeerId now draw =>
    match world.inFlight[index]? with
    | some flight =>
      { world with inFlight := world.inFlight.eraseIdx index }.receive runtime node flight.content
        flight.hops fromPeerId now draw
    | none => world
  | .lose index => { world with inFlight := world.inFlight.eraseIdx index }
  | .sync node peerId entry =>
    { world with
      inFlight := world.inFlight ++ (((world.process node).pool.send peerId).map fun connection ↦
        { source := node, connection, content := entry.1, hops := entry.2,
          relayed := false }).toList }
  | .reconfigure node pool engine =>
    world.setProcess node { world.process node with pool, engine }
  | .stop node => world.setProcess node { world.process node with running := false }

/-- Nodes that have stopped do nothing, what arrives was sent to the node, and what is sent in a
batch has been stored. A node forgets no id. -/
def Enabled (world : World ι) : Event ι → Prop
  | .inject node _ _ _ _ => (world.process node).running = true
  | .deliver index node _ _ _ =>
    (world.process node).running = true ∧
      (world.inFlight[index]?.bind fun flight ↦ link flight.source flight.connection) = some node
  | .lose _ => True
  | .sync node _ entry =>
    (world.process node).running = true ∧ entry ∈ (world.process node).stored
  | .reconfigure node _ engine =>
    (world.process node).engine.seenMessages ⊆ engine.seenMessages
  | .stop _ => True

structure Initial (world : World ι) : Prop where
  broadcastLog : ∀ node, (world.process node).broadcastLog = []
  stored : ∀ node, (world.process node).stored = []
  inFlight : world.inFlight = []

def system : TransitionSystem (World ι) (Event ι) := .ofNext (Enabled link) (next runtime)

/-- What comes in has an id that is no array or object, and a `ttl` not above the maximum. -/
def Moderate (_ : World ι) : Event ι → Prop
  | .inject _ content _ _ _ =>
    (content.property "id").isAtomic = true ∧
      (Number.finite Config.MAX_TTL).less (ttlOf runtime content) = false
  | _ => True

end World

/-- The same message to its readers: the same id, sender and payload. -/
def SameMessage (first second : Value) : Prop :=
  (first.property "id").sameShape (second.property "id") = true ∧
    (first.property "sender").sameShape (second.property "sender") = true ∧
    (first.property "payload").sameShape (second.property "payload") = true

instance : DecidableRel SameMessage := fun _ _ ↦ inferInstanceAs (Decidable (_ ∧ _ ∧ _))

/-- No node broadcasts a message twice. -/
def World.BroadcastsOnce {ι : Type*} (world : World ι) : Prop :=
  ∀ node, (world.process node).broadcastLog.Pairwise fun first second ↦ ¬SameMessage first second

/-- Every copy has at least one hop less to live than the maximum, and a relayed one has not come
further than the maximum, counting the hop into the network. -/
structure World.StaysNear {ι : Type*} (runtime : Runtime) (world : World ι) : Prop where
  ttl : ∀ flight ∈ world.inFlight, ∃ ttl : ℚ,
    ttlOf runtime flight.content = .finite ttl ∧ ttl ≤ Config.MAX_TTL - 1
  alive : ∀ flight ∈ world.inFlight, flight.relayed = true → ∃ ttl : ℚ,
    flight.content.property "ttl" = .number (.finite ttl) ∧ 0 < ttl ∧
      ttl + flight.hops ≤ Config.MAX_TTL
  hops : ∀ flight ∈ world.inFlight, flight.relayed = true → flight.hops + 1 ≤ Config.MAX_TTL

/-! ## The bound on the hops -/

/-- What a message may have in its `ttl` after so many hops. -/
def Bounded (hops : ℕ) (ttl : Number) : Prop :=
  (hops = 0 ∧ (Number.finite Config.MAX_TTL).less ttl = false) ∨
    ∃ value : ℚ, ttl = .finite value ∧ value + hops ≤ Config.MAX_TTL

theorem bounded_sent {hops : ℕ} {ttl : Number} (h : Bounded hops ttl) (runtime : Runtime) :
    ∃ value : ℚ, (Value.jsonNumber (ttl.add (-1))).asNumber runtime.toConversions = .finite value ∧
      value + (hops + 1 : ℕ) ≤ Config.MAX_TTL := by
  have hmax : (Config.MAX_TTL : ℚ) = 10 := rfl
  rcases h with ⟨rfl, hless⟩ | ⟨value, rfl, hvalue⟩
  · cases ttl with
    | nan => exact ⟨0, rfl, by rw [hmax]; norm_num⟩
    | negInfinity => exact ⟨0, rfl, by rw [hmax]; norm_num⟩
    | infinity => cases hless
    | finite value =>
      have hvalue : ¬(Config.MAX_TTL : ℚ) < value := of_decide_eq_false hless
      exact ⟨value + -1, rfl, by push_cast; linarith⟩
  · exact ⟨value + -1, rfl, by push_cast; linarith⟩

theorem bounded_alive {hops : ℕ} {ttl : Number} (h : Bounded hops ttl)
    (halive : (Number.finite 0).less (ttl.add (-1)) = true) :
    ∃ value : ℚ, Value.jsonNumber (ttl.add (-1)) = .number (.finite value) ∧ 0 < value ∧
      value + (hops + 1 : ℕ) ≤ Config.MAX_TTL := by
  rcases h with ⟨rfl, hless⟩ | ⟨value, rfl, hvalue⟩
  · cases ttl with
    | nan => cases halive
    | negInfinity => cases halive
    | infinity => cases hless
    | finite value =>
      have hvalue : ¬(Config.MAX_TTL : ℚ) < value := of_decide_eq_false hless
      exact ⟨value + -1, rfl, of_decide_eq_true halive, by push_cast; linarith⟩
  · exact ⟨value + -1, rfl, of_decide_eq_true halive, by push_cast; linarith⟩

/-! ## The invariant -/

/-- A text of which a node makes a message with an atomic id, and a bounded `ttl`. -/
structure Fits (runtime : Runtime) (hops : ℕ) (content : Value) : Prop where
  id : (content.property "id").isAtomic = true
  ttl : Bounded hops (ttlOf runtime content)

/-- The log of a node consists of messages whose ids have been seen, each once, and what it has
stored is bounded. -/
structure Sound (runtime : Runtime) (process : Process) : Prop where
  atomic : ∀ message ∈ process.broadcastLog, (message.property "id").isAtomic = true
  seen : ∀ message ∈ process.broadcastLog,
    (message.property "id").key ∈ process.engine.seenMessages
  distinct : process.broadcastLog.Pairwise fun first second ↦
    (first.property "id").key ≠ (second.property "id").key
  stored : ∀ entry ∈ process.stored, 0 < entry.2 ∧ Fits runtime entry.2 entry.1

/-- A copy on its way has a bounded `ttl`, which is a positive number if the copy is relayed. -/
structure Travels {ι : Type*} (runtime : Runtime) (flight : Flight ι) : Prop where
  hops : 0 < flight.hops
  fits : Fits runtime flight.hops flight.content
  alive : flight.relayed = true → ∃ value : ℚ,
    flight.content.property "ttl" = .number (.finite value) ∧ 0 < value ∧
      value + flight.hops ≤ Config.MAX_TTL

structure Invariant {ι : Type*} (runtime : Runtime) (world : World ι) : Prop where
  processes : ∀ node, Sound runtime (world.process node)
  flights : ∀ flight ∈ world.inFlight, Travels runtime flight

section Sent

variable {runtime : Runtime} {message sent : Value} {hops : ℕ}

theorem ttlOf_wire (h : PassedOn runtime message sent) :
    ttlOf runtime sent.wire =
      (Value.jsonNumber ((ttlOf runtime message).add (-1))).asNumber runtime.toConversions := by
  calc
    _ = (sent.property "ttl").wire.asNumber runtime.toConversions := by
      rw [ttlOf, Value.property_wire]
    _ = _ := by
      rw [h.ttl]
      rfl

/-- A message that is passed on fits with one hop more. -/
theorem Fits.wire (h : Fits runtime hops message) (hsent : PassedOn runtime message sent) :
    Fits runtime (hops + 1) sent.wire where
  id := by rw [Value.property_wire, Value.isAtomic_wire, hsent.id, h.id]
  ttl := by
    obtain ⟨value, hvalue, hbound⟩ := bounded_sent h.ttl runtime
    exact .inr ⟨value, (ttlOf_wire hsent).trans hvalue, hbound⟩

/-- The parsed message fits if the text does. -/
theorem Fits.allocate {content : Value} (h : Fits runtime hops content) (next : ℕ) :
    Fits runtime hops (content.allocate next).1 := by
  have hshape (name : String) : ((content.allocate next).1.property name).shape =
      (content.property name).shape := by
    rw [← Value.property_shape, Value.shape_allocate, Value.property_shape]
  have hid := Value.eq_of_shape_eq h.id (hshape "id")
  have httl : ttlOf runtime (content.allocate next).1 = ttlOf runtime content := by
    calc
      _ = ((content.allocate next).1.property "ttl").shape.asNumber runtime.toConversions :=
        (Value.asNumber_shape _ _).symm
      _ = (content.property "ttl").shape.asNumber runtime.toConversions := by rw [hshape]
      _ = _ := Value.asNumber_shape _ _
  exact ⟨hid ▸ h.id, httl ▸ h.ttl⟩

end Sent

section Receive

variable {runtime : Runtime} {process : Process} {message : Value} {fromPeerId : Key} {now : ℕ}
  {draw : Draw} {hops : ℕ} {outcome : Outcome}

/-- The node after a call that completes. -/
def Process.after (process : Process) (message : Value) (hops : ℕ) (outcome : Outcome) : Process :=
  { process with
    engine := outcome.engine
    broadcastLog := process.broadcastLog ++ (outcome.broadcast.map Broadcast.message).toList
    stored := process.stored ++ World.savedOf message outcome.announced (hops + 1) }

theorem mem_savedOf {announced : Option Value} {entry : Value × ℕ}
    (h : entry ∈ World.savedOf message announced hops) :
    (message.property "type").key ≠ .string "SUB_AD" ∧
      ∃ saved, announced = some saved ∧ entry = (saved.wire, hops) := by
  unfold World.savedOf at h
  split at h
  · cases h
  · rename_i htype
    obtain ⟨saved, hsaved, rfl⟩ := List.mem_map.1 h
    exact ⟨htype, saved, Option.mem_toList.1 hsaved, rfl⟩

/-- What a call has handed out if it has handed out anything: the message was new to the node, and
what is handed out is the message passed on. -/
theorem new_of_broadcast
    (h : pass runtime process.pool now draw process.engine message fromPeerId = some outcome)
    {broadcast : Broadcast} (hbroadcast : outcome.broadcast = some broadcast) :
    Forwards runtime message broadcast ∧
      (message.property "id").key ∉ process.engine.seenMessages ∧
      (message.property "id").key ∈ outcome.engine.seenMessages := by
  rcases pass_cases h with ⟨hnone, _, _⟩ | ⟨screened, hadmitted, hhands⟩
  · rw [hnone] at hbroadcast
    cases hbroadcast
  · refine ⟨hhands.broadcast broadcast hbroadcast, hadmitted.unseen, ?_⟩
    rw [hhands.seenMessages, hadmitted.seenMessages]
    exact Finset.mem_insert_self _ _

theorem seenMessages_subset
    (h : pass runtime process.pool now draw process.engine message fromPeerId = some outcome) :
    process.engine.seenMessages ⊆ outcome.engine.seenMessages := by
  rcases pass_cases h with ⟨_, _, hsame⟩ | ⟨screened, hadmitted, hhands⟩
  · rw [hsame]
  · rw [hhands.seenMessages, hadmitted.seenMessages]
    exact Finset.subset_insert _ _

theorem Sound.receive (hsound : Sound runtime process) (hfits : Fits runtime hops message)
    (h : pass runtime process.pool now draw process.engine message fromPeerId = some outcome) :
    Sound runtime (process.after message hops outcome) := by
  have hsubset := seenMessages_subset h
  have hlogged {sent : Value}
      (hmem : sent ∈ (outcome.broadcast.map Broadcast.message).toList) :
      sent.property "id" = message.property "id" ∧
        (message.property "id").key ∉ process.engine.seenMessages ∧
        (message.property "id").key ∈ outcome.engine.seenMessages := by
    obtain ⟨broadcast, hbroadcast, rfl⟩ := Option.map_eq_some_iff.1 (Option.mem_toList.1 hmem)
    obtain ⟨hforwards, hnew⟩ := new_of_broadcast h hbroadcast
    exact ⟨hforwards.passedOn.id, hnew⟩
  refine ⟨fun sent hmem ↦ ?_, fun sent hmem ↦ ?_, ?_, fun entry hmem ↦ ?_⟩
  · rcases List.mem_append.1 hmem with hold | hnew
    · exact hsound.atomic sent hold
    · rw [(hlogged hnew).1]
      exact hfits.id
  · rcases List.mem_append.1 hmem with hold | hnew
    · exact hsubset (hsound.seen sent hold)
    · rw [(hlogged hnew).1]
      exact (hlogged hnew).2.2
  · refine List.pairwise_append.2 ⟨hsound.distinct, ?_, fun first hfirst second hsecond ↦ ?_⟩
    · cases outcome.broadcast with
      | none => exact .nil
      | some broadcast => exact List.pairwise_singleton _ _
    · obtain ⟨hid, hunseen, _⟩ := hlogged hsecond
      rw [hid]
      intro hsame
      exact hunseen (hsame ▸ hsound.seen first hfirst)
  · rcases List.mem_append.1 hmem with hold | hnew
    · exact hsound.stored entry hold
    · obtain ⟨htype, saved, hsaved, rfl⟩ := mem_savedOf hnew
      refine ⟨Nat.succ_pos hops, ?_⟩
      rcases pass_cases h with ⟨_, hnone, _⟩ | ⟨screened, _, hhands⟩
      · rw [hnone] at hsaved
        cases hsaved
      · exact hfits.wire (hhands.announced htype saved hsaved)

theorem Sound.stop (h : Sound runtime process) :
    Sound runtime { process with running := false } :=
  ⟨h.atomic, h.seen, h.distinct, h.stored⟩

theorem Sound.reconfigure (h : Sound runtime process) (pool : ConnectionPool Key)
    {engine : Node.GossipEngine}
    (hseen : process.engine.seenMessages ⊆ engine.seenMessages) :
    Sound runtime { process with pool, engine } :=
  ⟨h.atomic, fun message hmem ↦ hseen (h.seen message hmem), h.distinct, h.stored⟩

theorem travels_of_forwards {ι : Type*} (hfits : Fits runtime hops message) {broadcast : Broadcast}
    (h : Forwards runtime message broadcast) {node : ι} {pool : ConnectionPool Key}
    {flight : Flight ι} (hmem : flight ∈ World.copiesOf node pool (hops + 1) broadcast) :
    Travels runtime flight := by
  obtain ⟨connection, _, rfl⟩ := List.mem_map.1 hmem
  refine ⟨Nat.succ_pos hops, hfits.wire h.passedOn, fun _ ↦ ?_⟩
  obtain ⟨value, hvalue, hpositive, hbound⟩ := bounded_alive hfits.ttl h.alive
  refine ⟨value, ?_, hpositive, hbound⟩
  rw [Value.property_wire, h.passedOn.ttl]
  exact hvalue

end Receive

section Invariant

variable {ι : Type*} [DecidableEq ι] {runtime : Runtime} {link : ι → Connection Key → Option ι}
  {world : World ι}

theorem Invariant.setProcess (h : Invariant runtime world) (node : ι) {process : Process}
    (hprocess : Sound runtime process) : Invariant runtime (world.setProcess node process) where
  processes := (Function.forall_update_iff world.process fun _ ↦ Sound runtime).2
    ⟨hprocess, fun other _ ↦ h.processes other⟩
  flights := h.flights

omit [DecidableEq ι] in
theorem Invariant.eraseIdx (h : Invariant runtime world) (index : ℕ) :
    Invariant runtime { world with inFlight := world.inFlight.eraseIdx index } where
  processes := h.processes
  flights flight hmem := h.flights flight (List.mem_of_mem_eraseIdx hmem)

theorem Invariant.receive (h : Invariant runtime world) {node : ι} {content : Value} {hops : ℕ}
    {fromPeerId : Key} {now : ℕ} {draw : Draw} (hfits : Fits runtime hops content) :
    Invariant runtime (world.receive runtime node content hops fromPeerId now draw) := by
  have hmessage := hfits.allocate world.allocated
  unfold World.receive
  dsimp only
  split
  · have hstopped := h.setProcess node (h.processes node).stop
    exact ⟨hstopped.processes, hstopped.flights⟩
  · rename_i outcome hpass
    have hafter := h.setProcess node ((h.processes node).receive hmessage hpass)
    refine ⟨hafter.processes, fun flight hmem ↦ ?_⟩
    rcases List.mem_append.1 hmem with hold | hnew
    · exact h.flights flight hold
    · obtain ⟨broadcast, hbroadcast, hcopy⟩ := List.mem_flatMap.1 hnew
      have hforwards := (new_of_broadcast hpass (Option.mem_toList.1 hbroadcast)).1
      exact travels_of_forwards hmessage hforwards hcopy

theorem Invariant.next (h : Invariant runtime world) {event : Event ι}
    (henabled : world.Enabled link event) (hmoderate : world.Moderate runtime event) :
    Invariant runtime (world.next runtime event) := by
  cases event with
  | inject node content fromPeerId now draw =>
    exact h.receive ⟨hmoderate.1, .inl ⟨rfl, hmoderate.2⟩⟩
  | deliver index node fromPeerId now draw =>
    obtain ⟨flight, hflight, _⟩ := Option.bind_eq_some_iff.1 henabled.2
    have htravels := h.flights flight (List.mem_of_getElem? hflight)
    simp only [World.next, hflight]
    exact (h.eraseIdx index).receive htravels.fits
  | lose index => exact h.eraseIdx index
  | sync node peerId entry =>
    refine ⟨h.processes, fun flight hmem ↦ ?_⟩
    rcases List.mem_append.1 hmem with hold | hnew
    · exact h.flights flight hold
    · obtain ⟨connection, _, rfl⟩ := Option.map_eq_some_iff.1 (Option.mem_toList.1 hnew)
      obtain ⟨hhops, hfits⟩ := (h.processes node).stored entry henabled.2
      exact ⟨hhops, hfits, fun hrelayed ↦ nomatch hrelayed⟩
  | reconfigure node pool engine =>
    exact h.setProcess node ((h.processes node).reconfigure pool henabled)
  | stop node => exact h.setProcess node (h.processes node).stop

omit [DecidableEq ι] in
theorem World.Initial.invariant (h : world.Initial) (runtime : Runtime) :
    Invariant runtime world where
  processes node :=
    { atomic := by simp [h.broadcastLog node]
      seen := by simp [h.broadcastLog node]
      distinct := by simp [h.broadcastLog node]
      stored := by simp [h.stored node] }
  flights := by simp [h.inFlight]

omit [DecidableEq ι] in
theorem Invariant.broadcastsOnce (h : Invariant runtime world) : world.BroadcastsOnce := by
  intro node
  have hsound := h.processes node
  refine hsound.distinct.imp_of_mem fun hfirst _ hdistinct hsame ↦ ?_
  exact hdistinct (Value.key_eq_of_sameShape (hsound.atomic _ hfirst) hsame.1)

omit [DecidableEq ι] in
theorem Invariant.staysNear (h : Invariant runtime world) : world.StaysNear runtime where
  ttl flight hmem := by
    have htravels := h.flights flight hmem
    have hhops : (1 : ℚ) ≤ flight.hops := by exact_mod_cast htravels.hops
    rcases htravels.fits.ttl with ⟨hzero, _⟩ | ⟨value, hvalue, hbound⟩
    · exact absurd hzero htravels.hops.ne'
    · exact ⟨value, hvalue, by linarith⟩
  alive flight hmem := (h.flights flight hmem).alive
  hops flight hmem hrelayed := by
    obtain ⟨value, _, hpositive, hbound⟩ := (h.flights flight hmem).alive hrelayed
    have hlt : (flight.hops : ℚ) < (Config.MAX_TTL : ℤ) := by linarith
    have hint : (flight.hops : ℤ) < Config.MAX_TTL := by exact_mod_cast hlt
    omega

end Invariant

/-- As long as all that comes in is moderate, no node broadcasts a message twice, and no message
gets further than `MAX_TTL` hops. -/
theorem bounded_of_moderate {ι : Type*} [DecidableEq ι] (runtime : Runtime)
    (link : ι → Connection Key → Option ι) {initial world : World ι} {events : List (Event ι)}
    (hinitial : initial.Initial)
    (hrun : (World.system runtime link).GuardedRun (World.Moderate runtime) initial events world) :
    world.BroadcastsOnce ∧ world.StaysNear runtime := by
  have hinvariant : Invariant runtime world :=
    hrun.invariant_next
      (fun _ _ hbefore hmoderate henabled ↦ hbefore.next henabled hmoderate)
      (hinitial.invariant runtime)
  exact ⟨hinvariant.broadcastsOnce, hinvariant.staysNear⟩

/-! ## Three connected nodes -/

/-- The proof of work of the JavaScript fallback, which concatenates, and one signature of
`mallory`. -/
def hostileRuntime : Runtime :=
  { Runtime.sample with
    verifyPuzzle := fun data difficulty nonce ↦
      match nonce with
      | .number (.finite nonce) =>
        (data.toText Runtime.sample.toConversions).map fun text ↦
          Pow.jsSimpleHash (text ++ toString nonce.num) % difficulty == 0
      | _ => none
    verify := fun fields signature publicKey ↦
      fields.id.text Runtime.sample.toConversions = "m945" ∧ fields.type.key = .string "CHAT" ∧
        fields.sender.key = .string "mallory" ∧ fields.topic.key = .string "global" ∧
        fields.payload.key = .string "flood" ∧ signature.key = .string "signature of mallory" ∧
        publicKey.key = .string "mallory-key" }

/-- A message of `mallory`. -/
def hostile (id : Value) (ttl : ℚ) : Value :=
  .object 0
    [("id", id), ("type", .string "CHAT"), ("ttl", .number (.finite ttl)),
      ("sender", .string "mallory"), ("topic", .string "global"), ("payload", .string "flood"),
      ("signature", .string "signature of mallory"), ("senderPublicKey", .string "mallory-key")]

def names : Fin 3 → String
  | 0 => "alice"
  | 1 => "bob"
  | 2 => "carol"

/-- A node with an inbound connection of each of the other two. -/
def processNamed (node : Fin 3) : Process where
  engine := .new (names node) (names node ++ "-key") 20 5
  pool := ((ConnectionPool.new (names node)).addInboundConnection
    ⟨0, .string (names (node + 1))⟩).addInboundConnection ⟨1, .string (names (node + 2))⟩
  running := true
  broadcastLog := []
  stored := []

/-- The sockets are numbered by the way around that they lead. -/
def around (node : Fin 3) : Connection Key → Option (Fin 3)
  | .outbound _ => none
  | .inbound client => if client.socketId = 0 then some (node + 1) else some (node + 2)

def triangle : World (Fin 3) where
  process := processNamed
  inFlight := []
  allocated := 0

theorem initial_triangle : triangle.Initial where
  broadcastLog _ := rfl
  stored _ := rfl
  inFlight := rfl

/-- The message comes in at `alice`. -/
def arrival (id : Value) (ttl : ℚ) : Event (Fin 3) :=
  .inject 0 (hostile id ttl) (.string "mallory") 1000 .first

/-- It goes from `alice` to `bob`, and on around the triangle. -/
def roundTrip (id : Value) (ttl : ℚ) : List (Event (Fin 3)) :=
  [arrival id ttl, .deliver 0 1 (.string "alice") 1000 .first,
    .deliver 1 2 (.string "bob") 1000 .first, .deliver 1 0 (.string "carol") 1000 .first]

def play (events : List (Event (Fin 3))) : World (Fin 3) :=
  events.foldl (World.next hostileRuntime) triangle

theorem bounded_roundTrip :
    (play (roundTrip (.string "m945") 10)).BroadcastsOnce ∧
      (play (roundTrip (.string "m945") 10)).StaysNear hostileRuntime := by
  apply bounded_of_moderate hostileRuntime around initial_triangle
    (TransitionSystem.guardedRun_ofNext _)
  exact ⟨⟨rfl, rfl, by decide +kernel⟩, ⟨⟨by decide +kernel, by decide +kernel⟩, trivial⟩,
    ⟨⟨by decide +kernel, by decide +kernel⟩, trivial⟩,
    ⟨⟨by decide +kernel, by decide +kernel⟩, trivial⟩, trivial⟩

/-- Whatever comes in, a property holds. -/
def Always (property : World (Fin 3) → Prop) : Prop :=
  ∀ initial world events, initial.Initial →
    (World.system hostileRuntime around).Run initial events world → property world

/-- An array in the place of the id is broadcast again, and a `ttl` of a thousand lives on. -/
theorem not_always_bounded :
    ¬Always World.BroadcastsOnce ∧ ¬Always (World.StaysNear hostileRuntime) := by
  constructor
  · intro h
    have hrun : (World.system hostileRuntime around).Run triangle
        (roundTrip (.array 0 [.string "m945"]) 10)
        (play (roundTrip (.array 0 [.string "m945"]) 10)) := by
      apply TransitionSystem.run_ofNext
      exact ⟨rfl, ⟨by decide +kernel, by decide +kernel⟩, ⟨by decide +kernel, by decide +kernel⟩,
        ⟨by decide +kernel, by decide +kernel⟩, trivial⟩
    exact absurd (h _ _ _ initial_triangle hrun 0) (by decide +kernel)
  · intro h
    have hrun : (World.system hostileRuntime around).Run triangle [arrival (.string "m945") 1000]
        (play [arrival (.string "m945") 1000]) := TransitionSystem.run_ofNext ⟨rfl, trivial⟩
    have hcopies : (play [arrival (.string "m945") 1000]).inFlight.map
        (fun flight ↦ ttlOf hostileRuntime flight.content) = [.finite 999, .finite 999] := by
      decide +kernel
    have hmem : Number.finite 999 ∈ (play [arrival (.string "m945") 1000]).inFlight.map
        (fun flight ↦ ttlOf hostileRuntime flight.content) := by
      rw [hcopies]
      exact List.mem_cons_self
    obtain ⟨flight, hflight, httl⟩ := List.mem_map.1 hmem
    obtain ⟨ttl, hsame, hbound⟩ := (h _ _ _ initial_triangle hrun).ttl flight hflight
    rw [httl] at hsame
    have hvalue : (999 : ℚ) = ttl := Number.finite.inj hsame
    rw [← hvalue] at hbound
    exact absurd hbound (by decide +kernel)

end P2PApp.Storm
