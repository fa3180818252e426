import P2PApp.Network.World

/-!
# What the nodes of a network deliver

The part of a node above its gossip engine: the local subscriptions, the saves that the handler of
`message:new` awaits, and the application events `message` that follow them. The handler asks only
whether a message is an advertisement, so a transit node delivers whatever it forwards. Deliveries
are selective in the runs in which no node is a transit node for a topic that it is not subscribed
to.
-/

namespace P2PApp.Network

/-- An application event, with the subscriptions of the node at that moment. -/
structure Emission where
  message : P2PMessage
  localSubscriptions : Finset String

/-- What a node keeps beside its engine and its connections. -/
structure Application where
  publicKey : String
  localSubscriptions : Finset String
  localSequences : OrderedMap String ℕ
  /-- The messages whose save the handler of `message:new` awaits. -/
  saving : List P2PMessage
  emitted : List Emission

namespace Application

def new (peerId publicKey : String) : Application where
  publicKey
  localSubscriptions := {"global", "dm:" ++ peerId}
  localSequences := ∅
  saving := []
  emitted := []

/-- The handler of `message:new`, up to its `await`. Advertisements are not saved. -/
def messageNew (application : Application) (messages : List P2PMessage) : Application :=
  { application with
    saving := application.saving ++ messages.filter fun message ↦ message.type ≠ .subAd }

/-- A save completes, and the handler goes on with `emit('message', message)`. -/
def saved (application : Application) (index : ℕ) : Application :=
  match application.saving[index]? with
  | some message =>
    { application with
      saving := application.saving.eraseIdx index
      emitted := application.emitted ++ [⟨message, application.localSubscriptions⟩] }
  | none => application

/-- The next sequence number of a topic, which `_advertiseSubscription` takes. -/
def nextSequence (application : Application) (topic : String) : ℕ :=
  (application.localSequences.get? topic).getD 0 + 1

def advertised (application : Application) (topic : String)
    (localSubscriptions : Finset String) : Application :=
  { application with
    localSubscriptions
    localSequences := application.localSequences.set topic (application.nextSequence topic) }

end Application

/-- A network of nodes with their applications. -/
structure Mesh (ι : Type*) where
  world : World ι
  application : ι → Application

inductive MeshEvent (ι : Type*)
  | network (event : Event ι)
  | saved (node : ι) (index : ℕ)
  | subscribe (node : ι) (topic id createdAt : String) (moment : Moment)
  | unsubscribe (node : ι) (topic id createdAt : String) (moment : Moment)

namespace Mesh

variable {ι : Type*}

/-- What a node has announced between two states of the network. -/
def announcedSince (before after : World ι) (node : ι) : List P2PMessage :=
  ((after.process node).announcedLog.drop (before.process node).announcedLog.length).map
    Copy.message

/-! ## Selective delivery -/

/-- The node published a message of this id itself. -/
def PublishedBy (process : Process ι) (id : String) : Prop :=
  ∃ own, .published own ∈ process.history ∧ own.id = id

/-- A message may be delivered: everybody is to have it, the node is subscribed to the topic, or
the message is its own. -/
def Deserved (process : Process ι) (localSubscriptions : Finset String) (topic id : String) :
    Prop :=
  topic = "global" ∨ topic ∈ localSubscriptions ∨ PublishedBy process id

theorem Deserved.mono {process process' : Process ι} {localSubscriptions : Finset String}
    {topic id : String} (h : Deserved process localSubscriptions topic id)
    (hpublished : PublishedBy process id → PublishedBy process' id) :
    Deserved process' localSubscriptions topic id := by
  rcases h with hglobal | hsubscribed | hown
  · exact .inl hglobal
  · exact .inr (.inl hsubscribed)
  · exact .inr (.inr (hpublished hown))

theorem Deserved.of_subset {process : Process ι} {topics topics' : Finset String}
    {topic id : String} (h : Deserved process topics topic id)
    (hkept : topic ∈ topics → topic ∈ topics' ∨ Deserved process ∅ topic id) :
    Deserved process topics' topic id := by
  rcases h with hglobal | hsubscribed | hown
  · exact .inl hglobal
  · rcases hkept hsubscribed with hkept | hglobal | hnone | hown
    · exact .inr (.inl hkept)
    · exact .inl hglobal
    · cases hnone
    · exact .inr (.inr hown)
  · exact .inr (.inr hown)

/-- Between two worlds the nodes announce only what may be delivered, and forget no publication. -/
structure Announces (localSubscriptions : ι → Finset String) (world after : World ι) : Prop where
  published : ∀ node id, PublishedBy (world.process node) id → PublishedBy (after.process node) id
  announced : ∀ node, ∃ new,
    (after.process node).announcedLog = (world.process node).announcedLog ++ new ∧
      ∀ copy ∈ new, copy.message.type ≠ .subAd →
        Deserved (after.process node) (localSubscriptions node) copy.message.topic copy.message.id

theorem Announces.of_eq {localSubscriptions : ι → Finset String} {world after : World ι}
    (hhistory : ∀ node, (world.process node).history ⊆ (after.process node).history)
    (hlog : ∀ node, (after.process node).announcedLog = (world.process node).announcedLog) :
    Announces localSubscriptions world after := by
  refine ⟨fun node id ⟨own, hown, hid⟩ ↦ ⟨own, hhistory node hown, hid⟩, fun node ↦ ⟨[], ?_, ?_⟩⟩
  · rw [hlog node, List.append_nil]
  · intro copy hcopy
    cases hcopy

theorem Announces.trans {localSubscriptions : ι → Finset String} {first second third : World ι}
    (h : Announces localSubscriptions first second)
    (h' : Announces localSubscriptions second third) :
    Announces localSubscriptions first third := by
  refine ⟨fun node id hown ↦ h'.published node id (h.published node id hown), fun node ↦ ?_⟩
  obtain ⟨early, hearly, hdeserved⟩ := h.announced node
  obtain ⟨late, hlate, hdeserved'⟩ := h'.announced node
  refine ⟨early ++ late, by rw [hlate, hearly, List.append_assoc], ?_⟩
  intro copy hcopy htype
  rcases List.mem_append.1 hcopy with hcopy | hcopy
  · exact (hdeserved copy hcopy htype).mono (h'.published node copy.message.id)
  · exact hdeserved' copy hcopy htype

/-- Nodes emit only what they are subscribed to, or have published themselves. -/
def Selective (mesh : Mesh ι) : Prop :=
  ∀ node, ∀ emission ∈ (mesh.application node).emitted,
    Deserved (mesh.world.process node) emission.localSubscriptions emission.message.topic
      emission.message.id

/-- A network at rest, in which nothing has been saved or emitted. -/
structure Initial (mesh : Mesh ι) : Prop where
  world : mesh.world.Initial
  saving : ∀ node, (mesh.application node).saving = []
  emitted : ∀ node, (mesh.application node).emitted = []

/-- What has been emitted was deserved, and what is being saved is. -/
structure Selecting (mesh : Mesh ι) : Prop where
  selective : mesh.Selective
  saving : ∀ node, ∀ message ∈ (mesh.application node).saving,
    Deserved (mesh.world.process node) (mesh.application node).localSubscriptions message.topic
      message.id

theorem Initial.selecting {mesh : Mesh ι} (h : mesh.Initial) : mesh.Selecting where
  selective node emission hemission := by
    rw [h.emitted node] at hemission
    cases hemission
  saving node message hmessage := by
    rw [h.saving node] at hmessage
    cases hmessage

theorem announcedSince_eq {before after : World ι} {node : ι} {new : List (Copy ι)}
    (h : (after.process node).announcedLog = (before.process node).announcedLog ++ new) :
    announcedSince before after node = new.map Copy.message := by
  rw [announcedSince, h, List.drop_left]

/-! ## The nodes at work -/

variable [DecidableEq ι] (platform : Platform) (link : ι → Connection → ι)

def setApplication (mesh : Mesh ι) (node : ι) (application : Application) : Mesh ι :=
  { mesh with application := Function.update mesh.application node application }

/-- The network takes a step, and the nodes handle what their engines announce. -/
def step (mesh : Mesh ι) (event : Event ι) : Mesh ι :=
  let world := mesh.world.next platform link event
  { world
    application := fun node ↦
      (mesh.application node).messageNew (announcedSince mesh.world world node) }

/-- `_advertiseSubscription`, after the subscriptions have changed. -/
def advertise (mesh : Mesh ι) (node : ι) (topic : String) (action : SubscriptionAction)
    (localSubscriptions : Finset String) (id createdAt : String) (moment : Moment) : Mesh ι :=
  let application := mesh.application node
  (mesh.setApplication node (application.advertised topic localSubscriptions)).step platform link
    (.publish node id createdAt .subAd (.subAd topic (application.nextSequence topic) action)
      { ttl := some Config.MAX_TTL, senderPublicKey := some application.publicKey } (some [])
      moment)

def next (mesh : Mesh ι) : MeshEvent ι → Mesh ι
  | .network event => mesh.step platform link event
  | .saved node index => mesh.setApplication node ((mesh.application node).saved index)
  | .subscribe node topic id createdAt moment =>
    let localSubscriptions := (mesh.application node).localSubscriptions
    if topic ∈ localSubscriptions then mesh
    else
      mesh.advertise platform link node topic .join (insert topic localSubscriptions) id createdAt
        moment
  | .unsubscribe node topic id createdAt moment =>
    let localSubscriptions := (mesh.application node).localSubscriptions
    if topic ∈ localSubscriptions then
      mesh.advertise platform link node topic .leave (localSubscriptions.erase topic) id createdAt
        moment
    else mesh

def Enabled (mesh : Mesh ι) : MeshEvent ι → Prop
  | .network event => mesh.world.Enabled event
  | .saved node index => index < (mesh.application node).saving.length
  | .subscribe _ _ id _ _ | .unsubscribe _ _ id _ _ =>
    ∀ message ∈ mesh.world.published, message.id ≠ id

instance (mesh : Mesh ι) : DecidablePred mesh.Enabled
  | .network event => inferInstanceAs (Decidable (mesh.world.Enabled event))
  | .saved node index =>
    inferInstanceAs (Decidable (index < (mesh.application node).saving.length))
  | .subscribe _ _ id _ _ | .unsubscribe _ _ id _ _ =>
    inferInstanceAs (Decidable (∀ message ∈ mesh.world.published, message.id ≠ id))

def system : TransitionSystem (Mesh ι) (MeshEvent ι) := .ofNext Enabled (next platform link)

/-- The message is one for the application of the node, if it is one for applications at all. -/
def Welcome (mesh : Mesh ι) (node : ι) (message : P2PMessage) : Prop :=
  message.type ≠ .subAd →
    Deserved (mesh.world.process node) (mesh.application node).localSubscriptions message.topic
      message.id

/-- Every message of a batch that the engine accepts is welcome. -/
def BatchWelcome (mesh : Mesh ι) (node : ι) (fromPeerId : String) :
    World ι → List (Copy ι × Moment) → Prop
  | _, [] => True
  | world, (copy, moment) :: rest =>
    if copy.message.id ∈ (world.process node).engine.seenMessages then
      BatchWelcome mesh node fromPeerId world rest
    else
      ((world.process node).engine.Accepts platform moment.now copy.message
          (truthy (some fromPeerId)) → mesh.Welcome node copy.message) ∧
        BatchWelcome mesh node fromPeerId
          (world.receive platform link node copy (truthy (some fromPeerId)) moment) rest

/-- The node is no transit node in this step: what its engine accepts is for its own application,
and it keeps a subscription while a message of that topic is being saved. -/
def NoTransit (mesh : Mesh ι) : MeshEvent ι → Prop
  | .network (.deliver node copy fromPeerId moment) =>
    (mesh.world.process node).engine.Accepts platform moment.now copy.message fromPeerId →
      mesh.Welcome node copy.message
  | .network (.deliverSyncBatch node deliveries fromPeerId) =>
    mesh.BatchWelcome platform link node fromPeerId mesh.world deliveries
  | .unsubscribe node topic _ _ _ =>
    ∀ message ∈ (mesh.application node).saving, message.topic = topic →
      Deserved (mesh.world.process node) ∅ message.topic message.id
  | _ => True

/-! ## What a step of the network announces -/

variable {localSubscriptions : ι → Finset String}

/-- A change of one process that keeps its records. -/
theorem announces_setProcess (world : World ι) (node : ι) {process : Process ι}
    (hhistory : (world.process node).history ⊆ process.history)
    (hlog : process.announcedLog = (world.process node).announcedLog) :
    Announces localSubscriptions world (world.setProcess node process) := by
  refine .of_eq (fun other ↦ ?_) fun other ↦ ?_
  all_goals
    by_cases hother : other = node
    · subst hother
      simpa using by assumption
    · simp [World.process_setProcess_of_ne world process hother]

/-- What a process announces in one call is the message that it has accepted. -/
theorem announces_receive (world : World ι) (node : ι) (copy : Copy ι)
    (fromPeerId : Option String) (moment : Moment)
    (h : (world.process node).engine.Accepts platform moment.now copy.message fromPeerId →
      copy.message.type ≠ .subAd → Deserved (world.process node) (localSubscriptions node)
        copy.message.topic copy.message.id) :
    Announces localSubscriptions world
      (world.receive platform link node copy fromPeerId moment) := by
  have hhistory : (world.process node).history ⊆ ((world.process node).receive platform (link node)
      node copy fromPeerId moment).1.history := by
    unfold Process.receive
    dsimp only
    split
    · exact List.subset_append_left _ _
    · exact List.Subset.refl _
  have hpublished (other : ι) (id : String) (hown : PublishedBy (world.process other) id) :
      PublishedBy ((world.receive platform link node copy fromPeerId moment).process other) id := by
    obtain ⟨own, hmem, hid⟩ := hown
    refine ⟨own, ?_, hid⟩
    rw [World.process_receive]
    by_cases hother : other = node
    · subst hother
      rw [World.process_setProcess_self]
      exact hhistory hmem
    · rwa [World.process_setProcess_of_ne world _ hother]
  refine ⟨hpublished, fun other ↦ ?_⟩
  rw [World.process_receive]
  by_cases hother : other = node
  · subst hother
    rw [World.process_setProcess_self]
    refine ⟨_, rfl, fun announced hmem htype ↦ ?_⟩
    obtain ⟨message, hmessage, rfl⟩ := List.mem_map.1 hmem
    have hsame := (GossipEngine.of_mem_announcements _ _ _ _ _ _ platform hmessage).1
    have haccepts := GossipEngine.accepts_of_effects_ne_nil _ _ _ _ _ _ platform
      (ne_nil_of_mem_announcements hmessage)
    have hdeserved := h haccepts (by rw [hsame] at htype; exact htype)
    have hlast := hdeserved.mono (hpublished other copy.message.id)
    rw [World.process_receive, World.process_setProcess_self] at hlast
    rw [Copy.onward, hsame]
    exact hlast
  · refine ⟨[], ?_, fun _ hmem ↦ by cases hmem⟩
    rw [World.process_setProcess_of_ne world _ hother, List.append_nil]

theorem announces_receiveAll {mesh : Mesh ι} {node : ι} {fromPeerId : String}
    (deliveries : List (Copy ι × Moment)) (world : World ι)
    (hsince : ∀ id, PublishedBy (mesh.world.process node) id → PublishedBy (world.process node) id)
    (h : mesh.BatchWelcome platform link node fromPeerId world deliveries) :
    Announces (fun node ↦ (mesh.application node).localSubscriptions) world
      (world.receiveAll platform link node fromPeerId deliveries) := by
  induction deliveries generalizing world with
  | nil => exact .of_eq (fun _ ↦ List.Subset.refl _) fun _ ↦ rfl
  | cons delivery rest ih =>
    obtain ⟨copy, moment⟩ := delivery
    rw [BatchWelcome] at h
    rw [World.receiveAll]
    split at h
    · rw [if_pos ‹_›]
      exact ih world hsince h
    · rw [if_neg ‹_›]
      have hfirst : Announces (fun node ↦ (mesh.application node).localSubscriptions) world
          (world.receive platform link node copy (truthy (some fromPeerId)) moment) :=
        announces_receive platform link world node copy _ moment fun haccepts htype ↦
          (h.1 haccepts htype).mono (hsince _)
      refine hfirst.trans (ih _ (fun id hown ↦ ?_) h.2)
      exact hfirst.published node id (hsince id hown)

theorem announces_publish (world : World ι) (node : ι) (message : P2PMessage)
    (logicalClock : ℕ) (moment : Moment) :
    Announces localSubscriptions world
      ((world.stamp node message logicalClock).receive platform link node ⟨message, []⟩ none
        moment) := by
  have hprocess : (world.stamp node message logicalClock).process =
      (world.setProcess node ((world.process node).stamp message logicalClock)).process := rfl
  have hstamp : Announces localSubscriptions world (world.stamp node message logicalClock) := by
    have hset : Announces localSubscriptions world
        (world.setProcess node ((world.process node).stamp message logicalClock)) :=
      announces_setProcess world node (List.subset_append_left _ _) rfl
    exact ⟨hset.published, hset.announced⟩
  refine hstamp.trans (announces_receive platform link _ node _ none moment fun _ _ ↦ ?_)
  rw [hprocess, World.process_setProcess_self]
  exact .inr (.inr ⟨message, List.mem_append_right _ (List.mem_singleton_self _), rfl⟩)

/-- A step of the network without transit nodes announces only what may be delivered. -/
theorem announces_next (mesh : Mesh ι) (event : Event ι)
    (h : mesh.NoTransit platform link (.network event)) :
    Announces (fun node ↦ (mesh.application node).localSubscriptions) mesh.world
      (mesh.world.next platform link event) := by
  cases event with
  | publish node id createdAt type payload options routingPath moment =>
    exact announces_publish platform link _ node _ _ moment
  | deliver node copy fromPeerId moment =>
    exact announces_receive platform link _ node copy fromPeerId moment h
  | deliverSyncBatch node deliveries fromPeerId =>
    exact (announces_receiveAll platform link deliveries mesh.world (fun _ hown ↦ hown) h).trans
      (announces_setProcess _ node (List.Subset.refl _) rfl)
  | sendSyncBatch node peerId copies =>
    have hset : Announces (fun node ↦ (mesh.application node).localSubscriptions) mesh.world
        (mesh.world.control node) := announces_setProcess _ node (List.Subset.refl _) rfl
    exact ⟨hset.published, hset.announced⟩
  | createControl node => exact announces_setProcess _ node (List.Subset.refl _) rfl
  | reconfigure node pool topicRouter rateLimiter securityManager =>
    exact announces_setProcess _ node (List.Subset.refl _) rfl

/-! ## Runs without transit nodes -/

theorem Selecting.step {mesh : Mesh ι} {event : Event ι} (h : mesh.Selecting)
    (hguard : mesh.NoTransit platform link (.network event)) :
    (mesh.step platform link event).Selecting := by
  have hannounces := announces_next platform link mesh event hguard
  constructor
  · intro node emission hemission
    exact (h.selective node emission hemission).mono (hannounces.published node _)
  · intro node message hmessage
    rcases List.mem_append.1 hmessage with hold | hnew
    · exact (h.saving node message hold).mono (hannounces.published node _)
    · obtain ⟨new, hlog, hdeserved⟩ := hannounces.announced node
      rw [announcedSince_eq hlog, List.mem_filter, List.mem_map] at hnew
      obtain ⟨⟨copy, hcopy, rfl⟩, htype⟩ := hnew
      exact hdeserved copy hcopy (of_decide_eq_true htype)

theorem application_setApplication_self (mesh : Mesh ι) (node : ι) (application : Application) :
    (mesh.setApplication node application).application node = application :=
  Function.update_self ..

theorem application_setApplication_of_ne (mesh : Mesh ι) {node other : ι}
    (application : Application) (h : other ≠ node) :
    (mesh.setApplication node application).application other = mesh.application other :=
  Function.update_of_ne h ..

/-- A change of one application that emits and saves nothing undeserved. -/
theorem Selecting.setApplication {mesh : Mesh ι} (h : mesh.Selecting) (node : ι)
    {application : Application}
    (hemitted : ∀ emission ∈ application.emitted, Deserved (mesh.world.process node)
      emission.localSubscriptions emission.message.topic emission.message.id)
    (hsaving : ∀ message ∈ application.saving, Deserved (mesh.world.process node)
      application.localSubscriptions message.topic message.id) :
    (mesh.setApplication node application).Selecting := by
  constructor
  · intro other
    by_cases hother : other = node
    · subst hother
      rw [application_setApplication_self]
      exact hemitted
    · rw [application_setApplication_of_ne mesh application hother]
      exact h.selective other
  · intro other
    by_cases hother : other = node
    · subst hother
      rw [application_setApplication_self]
      exact hsaving
    · rw [application_setApplication_of_ne mesh application hother]
      exact h.saving other

/-- The new subscriptions cover what is being saved. -/
theorem Selecting.advertise {mesh : Mesh ι} (h : mesh.Selecting) (node : ι) (topic : String)
    (action : SubscriptionAction) {localSubscriptions : Finset String} (id createdAt : String)
    (moment : Moment)
    (hsaving : ∀ message ∈ (mesh.application node).saving, Deserved (mesh.world.process node)
      localSubscriptions message.topic message.id) :
    (mesh.advertise platform link node topic action localSubscriptions id createdAt
      moment).Selecting := by
  have hset : (mesh.setApplication node
      ((mesh.application node).advertised topic localSubscriptions)).Selecting :=
    h.setApplication node (h.selective node) hsaving
  exact hset.step platform link trivial

theorem Selecting.saved {mesh : Mesh ι} (h : mesh.Selecting) (node : ι) (index : ℕ) :
    (mesh.setApplication node ((mesh.application node).saved index)).Selecting := by
  unfold Application.saved
  cases hmessage : (mesh.application node).saving[index]? with
  | none => exact h.setApplication node (h.selective node) (h.saving node)
  | some message =>
    refine h.setApplication node (fun emission hemission ↦ ?_) fun other hother ↦ ?_
    · rcases List.mem_append.1 hemission with hold | hnew
      · exact h.selective node emission hold
      · obtain rfl := List.mem_singleton.1 hnew
        exact h.saving node message (List.mem_of_getElem? hmessage)
    · exact h.saving node other (List.mem_of_mem_eraseIdx hother)

theorem Selecting.next {mesh : Mesh ι} {event : MeshEvent ι} (h : mesh.Selecting)
    (hguard : mesh.NoTransit platform link event) :
    (mesh.next platform link event).Selecting := by
  cases event with
  | network event => exact h.step platform link hguard
  | saved node index => exact h.saved node index
  | subscribe node topic id createdAt moment =>
    rw [Mesh.next]
    split
    · exact h
    · refine h.advertise platform link node topic _ id createdAt moment fun message hmessage ↦ ?_
      exact (h.saving node message hmessage).of_subset fun hmem ↦
        .inl (Finset.mem_insert_of_mem hmem)
  | unsubscribe node topic id createdAt moment =>
    rw [Mesh.next]
    split
    · refine h.advertise platform link node topic _ id createdAt moment fun message hmessage ↦ ?_
      refine (h.saving node message hmessage).of_subset fun hmem ↦ ?_
      by_cases htopic : message.topic = topic
      · exact .inr (hguard message hmessage htopic)
      · exact .inl (Finset.mem_erase.2 ⟨htopic, hmem⟩)
    · exact h

inductive ChainNode
  | first
  | middle
  | last
  deriving DecidableEq

def chainNames : ChainNode → String
  | .first => "node-A"
  | .middle => "node-B"
  | .last => "node-C"

def chainPool : ChainNode → ConnectionPool
  | .first => (ConnectionPool.new "node-A").addInboundConnection ⟨0, "node-B"⟩
  | .middle =>
    ((ConnectionPool.new "node-B").addInboundConnection ⟨0, "node-A"⟩).addInboundConnection
      ⟨1, "node-C"⟩
  | .last => (ConnectionPool.new "node-C").addInboundConnection ⟨0, "node-B"⟩

/-- The ends of the chain are connected to the node in the middle. -/
def chainLink : ChainNode → Connection → ChainNode
  | .middle, .inbound client => if client.socketId = 0 then .first else .last
  | _, _ => .middle

def chain : Mesh ChainNode where
  world :=
    { process := fun node ↦
        { engine := .new (chainNames node)
            (some (SecurityManager.init (chainNames node) ("key of " ++ chainNames node)))
            Config.RATE_LIMIT_CAPACITY Config.RATE_LIMIT_REFILL_RATE
          pool := chainPool node
          logicalClock := 0
          secretKey := "key of " ++ chainNames node
          announcedLog := []
          broadcastLog := []
          history := [] }
      sent := []
      published := [] }
  application node := .new (chainNames node) ("key of " ++ chainNames node)

/-- The advertisement of `node-C` as it is in flight after some hops. -/
def advertCopy (ttl : ℤ) (routingPath : List String) (hops : List ChainNode) : Copy ChainNode where
  message := { (World.createMessage Pow.javaScript (chain.world.process .last) "m945"
    "2024-01-01T00:00:00.000Z" .subAd (.subAd "teamA" 1 .join)
    { ttl := some Config.MAX_TTL, senderPublicKey := some "key of node-C" } (some [])).1 with
      ttl, routingPath := some routingPath }
  chain := hops

/-- A message of `node-A` on its way to `node-B`. -/
def chatCopy (topic : String) : Copy ChainNode where
  message := { (World.createMessage Pow.javaScript (chain.world.process .first) "m1887"
    "2024-01-01T00:00:01.000Z" .chat (.text "Hello team A!")
    { topic := some topic, senderPublicKey := some "key of node-A" } none).1 with ttl := 9 }
  chain := [.first]

/-- `node-A` publishes a message, which `node-B` receives and saves. -/
def publishTo (topic : String) : List (MeshEvent ChainNode) :=
  [.network (.publish .first "m1887" "2024-01-01T00:00:01.000Z" .chat (.text "Hello team A!")
      { topic := some topic, senderPublicKey := some "key of node-A" } none ⟨1003, fun _ ↦ 0⟩),
    .network (.deliver .middle (chatCopy topic) (some "node-A") ⟨1004, fun _ ↦ 0⟩),
    .saved .middle 0]

/-- `node-C` subscribes to `teamA`, and the advertisement gets to both other nodes. -/
def subscribeTeam : List (MeshEvent ChainNode) :=
  [.subscribe .last "teamA" "m945" "2024-01-01T00:00:00.000Z" ⟨1000, fun _ ↦ 0⟩,
    .network (.deliver .middle (advertCopy 9 ["node-C"] [.last]) (some "node-C") ⟨1001, fun _ ↦ 0⟩),
    .network (.deliver .first (advertCopy 8 ["node-C", "node-B"] [.last, .middle]) (some "node-B")
      ⟨1002, fun _ ↦ 0⟩)]

theorem initial_chain : chain.Initial where
  world :=
    { logicalClock := fun _ ↦ rfl
      lamportClock := fun _ ↦ rfl
      seenMessages := fun _ ↦ rfl
      announcedLog := fun _ ↦ rfl
      broadcastLog := fun _ ↦ rfl
      history := fun _ ↦ rfl
      sent := rfl
      published := rfl }
  saving _ := rfl
  emitted _ := rfl

/-- The chain after some events. -/
def chainAfter (events : List (MeshEvent ChainNode)) : Mesh ChainNode :=
  events.foldl (next Pow.javaScript chainLink) chain

/-- Every run of the network delivers selectively. -/
def DeliversSelectively (platform : Platform) (link : ι → Connection → ι) : Prop :=
  ∀ mesh : Mesh ι, mesh.Initial → ∀ events last,
    (system platform link).Run mesh events last → last.Selective

end Mesh

end P2PApp.Network
