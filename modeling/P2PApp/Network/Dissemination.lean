import Mathlib.Algebra.BigOperators.Group.Finset.Basic
import Mathlib.Algebra.Order.BigOperators.Group.Finset
import P2PApp.Network.World

/-!
# At-most-once dissemination

An engine announces and broadcasts an id only in the call that inserts the id into its seen set,
and nothing is ever taken out of a seen set. That bounds announcements and broadcasts at every
process by one, whatever the connections, the random choices and the order of delivery. The seen
sets also contain every process on the chain of every copy, so a copy that is still accepted comes
to a process that is not on its chain, and each process on the chain took one hop of its life.
-/

namespace P2PApp.Network

variable {ι : Type*}

/-- How many entries of a log carry the id. -/
def countId (id : String) (log : List (Copy ι)) : ℕ := log.countP fun copy ↦ copy.message.id = id

@[simp] theorem countId_append (id : String) (first later : List (Copy ι)) :
    countId id (first ++ later) = countId id first + countId id later := List.countP_append ..

theorem countId_onward (id : String) (copy : Copy ι) (node : ι) {messages : List P2PMessage}
    (h : ∀ message ∈ messages, message.id = copy.message.id) :
    countId id (messages.map (copy.onward node)) =
      if copy.message.id = id then messages.length else 0 := by
  rw [countId, List.countP_map]
  split
  · rename_i hid
    rw [List.countP_eq_length]
    intro message hmem
    exact decide_eq_true ((h message hmem).trans hid)
  · rename_i hid
    rw [List.countP_eq_zero]
    intro message hmem
    simpa [Copy.onward, h message hmem] using hid

/-- Every id that a process has announced or broadcast is seen, and was so handled once. -/
structure AtMostOnce (process : Process ι) : Prop where
  announced : ∀ id, countId id process.announcedLog ≤
    if id ∈ process.engine.seenMessages then 1 else 0
  broadcasts : ∀ id, countId id process.broadcastLog ≤
    if id ∈ process.engine.seenMessages then 1 else 0

/-- A log stays within its bound when a call adds at most one entry, of an id that it makes
seen. -/
theorem countId_log_le {log : List (Copy ι)} {seen seen' : Finset String} {copy : Copy ι}
    {messages : List P2PMessage} (node : ι) (hsubset : seen ⊆ seen')
    (hlog : ∀ id, countId id log ≤ if id ∈ seen then 1 else 0)
    (hids : ∀ message ∈ messages, message.id = copy.message.id) (hlength : messages.length ≤ 1)
    (hnew : messages ≠ [] → copy.message.id ∉ seen ∧ copy.message.id ∈ seen') (id : String) :
    countId id (log ++ messages.map (copy.onward node)) ≤ if id ∈ seen' then 1 else 0 := by
  rw [countId_append, countId_onward id copy node hids]
  have hbefore := hlog id
  by_cases hempty : messages = []
  · have hmono : (if id ∈ seen then 1 else 0) ≤ if id ∈ seen' then 1 else 0 := by
      by_cases hseen : id ∈ seen
      · simp [hseen, hsubset hseen]
      · simp [hseen]
    rw [hempty, List.length_nil, ite_self, add_zero]
    exact hbefore.trans hmono
  · obtain ⟨hunseen, hseen'⟩ := hnew hempty
    by_cases hid : copy.message.id = id
    · subst hid
      rw [if_neg hunseen] at hbefore
      rw [if_pos hseen', if_pos rfl]
      omega
    · rw [if_neg hid, add_zero]
      refine hbefore.trans ?_
      by_cases hseen : id ∈ seen
      · simp [hseen, hsubset hseen]
      · simp [hseen]

section Receive

variable (platform : Platform) (link : Connection → ι) (node : ι)

theorem seenMessages_receive (process : Process ι) (copy : Copy ι) (fromPeerId : Option String)
    (moment : Moment) : process.engine.seenMessages ⊆
      (process.receive platform link node copy fromPeerId moment).1.engine.seenMessages := by
  intro id hid
  exact (GossipEngine.mem_seenMessages_receiveMessage _ _ _ _ _ _ _ _).2 (.inl hid)

/-- A call with effects was made on an unseen id, which is seen from then on. -/
theorem seen_of_effects {process : Process ι} {copy : Copy ι} {fromPeerId : Option String}
    {moment : Moment}
    (h : (process.engine.receiveMessage platform process.pool moment.now moment.draws copy.message
      fromPeerId).2 ≠ []) :
    copy.message.id ∉ process.engine.seenMessages ∧ copy.message.id ∈
      (process.receive platform link node copy fromPeerId moment).1.engine.seenMessages := by
  have haccepts := GossipEngine.accepts_of_effects_ne_nil _ _ _ _ _ _ platform h
  refine ⟨haccepts.unseen, ?_⟩
  exact (GossipEngine.mem_seenMessages_receiveMessage _ _ _ _ _ _ _ _).2 (.inr ⟨rfl, haccepts⟩)

/-- One call announces and broadcasts at most once, and only an id that was not seen before. -/
theorem atMostOnce_receive {process : Process ι} (copy : Copy ι) (fromPeerId : Option String)
    (moment : Moment) (h : AtMostOnce process) :
    AtMostOnce (process.receive platform link node copy fromPeerId moment).1 := by
  have hsubset := seenMessages_receive platform link node process copy fromPeerId moment
  have hlength := GossipEngine.length_effects process.pool moment.now moment.draws process.engine
    copy.message fromPeerId platform
  constructor
  · apply countId_log_le node hsubset h.announced
    · intro message hmem
      exact GossipEngine.id_of_mem_announcements _ _ _ _ _ _ _ hmem
    · exact hlength.2
    · intro hnonempty
      apply seen_of_effects platform link node
      exact fun hnil ↦ hnonempty (congrArg announcements hnil)
  · apply countId_log_le node hsubset h.broadcasts
    · intro message hmem
      exact GossipEngine.id_of_mem_broadcasts _ _ _ _ _ _ _ hmem
    · exact hlength.1
    · intro hnonempty
      apply seen_of_effects platform link node
      exact fun hnil ↦ hnonempty (congrArg broadcasts hnil)

end Receive

/-! ## Chains -/

/-- The copy comes from a publication, which lost one hop at each process of the chain, and all
these processes are different and have seen the id. -/
structure Descends (world : World ι) (copy : Copy ι) : Prop where
  origin : ∃ message ∈ world.published,
    copy.message = { message with
      ttl := copy.message.ttl, routingPath := copy.message.routingPath } ∧
    (message.type ≠ .subAd → copy.message.ttl = message.ttl - copy.chain.length)
  nodup : copy.chain.Nodup
  seen : ∀ node ∈ copy.chain, copy.message.id ∈ (world.process node).engine.seenMessages

/-- A copy in flight has passed at least one process, and still has a hop to live. -/
structure InFlight (world : World ι) (copy : Copy ι) : Prop extends Descends world copy where
  chain : copy.chain ≠ []
  ttl : 1 ≤ copy.message.ttl

/-- The invariant of the network. -/
structure Disseminates (world : World ι) : Prop where
  atMostOnce : ∀ node, AtMostOnce (world.process node)
  gossip : ∀ target copy, .gossip target copy ∈ world.sent → InFlight world copy
  syncBatch : ∀ target copies, .syncBatch target copies ∈ world.sent →
    ∀ copy ∈ copies, Descends world copy
  announced : ∀ node, ∀ copy ∈ (world.process node).announcedLog, Descends world copy

/-- Publications and seen ids are never lost. -/
structure Grows (world after : World ι) : Prop where
  published : world.published ⊆ after.published
  seenMessages : ∀ node,
    (world.process node).engine.seenMessages ⊆ (after.process node).engine.seenMessages

theorem Descends.grows {world after : World ι} {copy : Copy ι} (h : Descends world copy)
    (hgrows : Grows world after) : Descends after copy := by
  obtain ⟨message, hmem, horigin⟩ := h.origin
  refine ⟨⟨message, hgrows.published hmem, horigin⟩, h.nodup, fun node hnode ↦ ?_⟩
  exact hgrows.seenMessages node (h.seen node hnode)

theorem InFlight.grows {world after : World ι} {copy : Copy ι} (h : InFlight world copy)
    (hgrows : Grows world after) : InFlight after copy :=
  ⟨h.toDescends.grows hgrows, h.chain, h.ttl⟩

/-- A world with the same records and packets, and no fewer publications or seen ids. -/
theorem Disseminates.congr {world after : World ι} (h : Disseminates world)
    (hgrows : Grows world after)
    (hprocess : ∀ node, (after.process node).engine.seenMessages =
        (world.process node).engine.seenMessages ∧
      (after.process node).announcedLog = (world.process node).announcedLog ∧
      (after.process node).broadcastLog = (world.process node).broadcastLog)
    (hsent : after.sent = world.sent) : Disseminates after where
  atMostOnce node := by
    obtain ⟨hseen, hannounced, hbroadcast⟩ := hprocess node
    constructor
    · rw [hseen, hannounced]
      exact (h.atMostOnce node).announced
    · rw [hseen, hbroadcast]
      exact (h.atMostOnce node).broadcasts
  gossip target copy hmem := (h.gossip target copy (hsent ▸ hmem)).grows hgrows
  syncBatch target copies hmem copy hcopy :=
    (h.syncBatch target copies (hsent ▸ hmem) copy hcopy).grows hgrows
  announced node copy hmem := by
    rw [(hprocess node).2.1] at hmem
    exact (h.announced node copy hmem).grows hgrows

theorem mem_packets {link : Connection → ι} {node : ι} {pool : ConnectionPool} {copy : Copy ι}
    {effects : List EngineEffect} {packet : Packet ι}
    (h : packet ∈ Process.packets link node pool copy effects) :
    ∃ target, ∃ message ∈ broadcasts effects,
      packet = .gossip target (copy.onward node message) := by
  obtain ⟨effect, heffect, hpacket⟩ := List.mem_flatMap.1 h
  cases effect with
  | broadcast message excludePeerIds =>
    obtain ⟨connection, _, rfl⟩ := List.mem_map.1 hpacket
    exact ⟨_, message, mem_broadcasts.2 ⟨_, heffect⟩, rfl⟩
  | messageNew message => cases hpacket

section Step

variable [DecidableEq ι] (platform : Platform) (link : ι → Connection → ι)

theorem grows_receive (world : World ι) (node : ι) (copy : Copy ι) (fromPeerId : Option String)
    (moment : Moment) :
    Grows world (world.receive platform link node copy fromPeerId moment) := by
  refine ⟨fun _ hmem ↦ hmem, ?_⟩
  rw [World.process_receive]
  intro other
  by_cases heq : other = node
  · rw [heq, World.process_setProcess_self]
    exact seenMessages_receive platform (link node) node _ copy fromPeerId moment
  · rw [World.process_setProcess_of_ne world _ heq]

/-- What a process makes of a copy that it accepts extends the chain by that process, which was
not on it. -/
theorem descends_onward {world : World ι} {node : ι} {copy : Copy ι}
    {fromPeerId : Option String} {moment : Moment} {message : P2PMessage}
    (h : Descends world copy)
    (heffects : ((world.process node).engine.receiveMessage platform (world.process node).pool
      moment.now moment.draws copy.message fromPeerId).2 ≠ [])
    (hmessage : message = { copy.message with
      ttl := message.ttl, routingPath := message.routingPath })
    (httl : copy.message.type ≠ .subAd → message.ttl = copy.message.ttl - 1) :
    Descends (world.receive platform link node copy fromPeerId moment)
      (copy.onward node message) := by
  obtain ⟨hunseen, hseen⟩ := seen_of_effects platform (link node) node heffects
  have hid : message.id = copy.message.id := by rw [hmessage]
  have hgrows := grows_receive platform link world node copy fromPeerId moment
  obtain ⟨source, hsource, horigin, hhops⟩ := h.origin
  refine ⟨⟨source, hgrows.published hsource, ?_, ?_⟩, ?_, ?_⟩
  · have hfields := hmessage
    rw [horigin] at hfields
    exact hfields
  · intro htype
    have hcopyType : copy.message.type = source.type := by rw [horigin]
    have hlast := httl (hcopyType ▸ htype)
    have hbefore := hhops htype
    simp only [Copy.onward, List.length_append, List.length_singleton]
    push_cast
    omega
  · rw [Copy.onward, List.nodup_append]
    refine ⟨h.nodup, List.nodup_singleton node, ?_⟩
    intro earlier hearlier last hlast heq
    rw [List.mem_singleton.1 hlast] at heq
    exact hunseen (heq ▸ h.seen earlier hearlier)
  · intro member hmember
    change message.id ∈ _
    rw [hid]
    rcases List.mem_append.1 hmember with hearlier | hlast
    · exact hgrows.seenMessages member (h.seen member hearlier)
    · rw [List.mem_singleton.1 hlast, World.process_receive, World.process_setProcess_self]
      exact hseen

/-- Handling one copy preserves the invariant. -/
theorem disseminates_receive {world : World ι} {node : ι} {copy : Copy ι}
    (fromPeerId : Option String) (moment : Moment) (h : Disseminates world)
    (hcopy : Descends world copy) :
    Disseminates (world.receive platform link node copy fromPeerId moment) := by
  have hgrows := grows_receive platform link world node copy fromPeerId moment
  constructor
  · rw [World.process_receive]
    apply (World.forall_setProcess AtMostOnce).2
    refine ⟨?_, fun other _ ↦ h.atMostOnce other⟩
    exact atMostOnce_receive platform (link node) node copy fromPeerId moment (h.atMostOnce node)
  · intro target other hmem
    rcases List.mem_append.1 hmem with hbefore | hnew
    · exact (h.gossip target other hbefore).grows hgrows
    · obtain ⟨_, message, hmessage, hpacket⟩ := mem_packets hnew
      cases hpacket
      have hsent := GossipEngine.of_mem_broadcasts _ _ _ _ _ _ platform hmessage
      have httl : message.ttl = copy.message.ttl - 1 := by rw [hsent.1]
      have hnonempty := ne_nil_of_mem_broadcasts hmessage
      refine ⟨descends_onward platform link hcopy hnonempty ?_ fun _ ↦ httl, ?_, hsent.2⟩
      · rw [httl]
        exact hsent.1
      · exact List.append_ne_nil_of_right_ne_nil _ (List.cons_ne_nil _ _)
  · intro target copies hmem other hother
    rcases List.mem_append.1 hmem with hbefore | hnew
    · exact (h.syncBatch target copies hbefore other hother).grows hgrows
    · obtain ⟨_, message, _, hpacket⟩ := mem_packets hnew
      cases hpacket
  · rw [World.process_receive]
    apply (World.forall_setProcess fun process ↦ ∀ other ∈ process.announcedLog,
      Descends (world.receive platform link node copy fromPeerId moment) other).2
    refine ⟨?_, fun other _ kept hkept ↦ (h.announced other kept hkept).grows hgrows⟩
    intro other hmem
    rcases List.mem_append.1 hmem with hbefore | hnew
    · exact (h.announced node other hbefore).grows hgrows
    · obtain ⟨message, hmessage, rfl⟩ := List.mem_map.1 hnew
      have hannounced := GossipEngine.of_mem_announcements _ _ _ _ _ _ platform hmessage
      have hnonempty := ne_nil_of_mem_announcements hmessage
      exact descends_onward platform link hcopy hnonempty hannounced.1 hannounced.2

/-- A stamp adds a publication, and its copy has not been through any process. -/
theorem disseminates_stamp {world : World ι} (node : ι) (message : P2PMessage)
    (logicalClock : ℕ) (h : Disseminates world) :
    Disseminates (world.stamp node message logicalClock) ∧
      Descends (world.stamp node message logicalClock) ⟨message, []⟩ := by
  have hprocess (other) : ((world.stamp node message logicalClock).process other).engine =
        (world.process other).engine ∧
      ((world.stamp node message logicalClock).process other).announcedLog =
        (world.process other).announcedLog ∧
      ((world.stamp node message logicalClock).process other).broadcastLog =
        (world.process other).broadcastLog := by
    by_cases heq : other = node
    · subst heq
      simp [World.stamp, World.setProcess, Process.stamp]
    · simp [World.stamp, World.setProcess, heq]
  have hgrows : Grows world (world.stamp node message logicalClock) := by
    refine ⟨List.subset_append_left _ _, fun other ↦ ?_⟩
    rw [(hprocess other).1]
  constructor
  · apply h.congr hgrows ?_ rfl
    intro other
    rw [(hprocess other).1]
    exact ⟨rfl, (hprocess other).2⟩
  · refine ⟨⟨message, List.mem_append_right _ (List.mem_singleton_self _), rfl, ?_⟩,
      List.nodup_nil, fun other hother ↦ nomatch hother⟩
    intro _
    simp

/-- A change of one process that touches neither its seen ids nor its logs. -/
theorem disseminates_setProcess {world : World ι} (node : ι) (process : Process ι)
    (h : Disseminates world)
    (hseen : process.engine.seenMessages = (world.process node).engine.seenMessages)
    (hannounced : process.announcedLog = (world.process node).announcedLog)
    (hbroadcast : process.broadcastLog = (world.process node).broadcastLog) :
    Disseminates (world.setProcess node process) := by
  have hprocess (other) : ((world.setProcess node process).process other).engine.seenMessages =
        (world.process other).engine.seenMessages ∧
      ((world.setProcess node process).process other).announcedLog =
        (world.process other).announcedLog ∧
      ((world.setProcess node process).process other).broadcastLog =
        (world.process other).broadcastLog := by
    by_cases heq : other = node
    · subst heq
      rw [World.process_setProcess_self]
      exact ⟨hseen, hannounced, hbroadcast⟩
    · rw [World.process_setProcess_of_ne world process heq]
      exact ⟨rfl, rfl, rfl⟩
  exact h.congr ⟨fun _ hmem ↦ hmem, fun other ↦ (hprocess other).1.ge⟩ hprocess rfl

omit [DecidableEq ι] in
/-- Batches of copies that descend from publications may be sent at any time. -/
theorem disseminates_send {world : World ι} (packets : List (Packet ι)) (h : Disseminates world)
    (hpackets : ∀ packet ∈ packets, ∃ target copies, packet = .syncBatch target copies ∧
      ∀ copy ∈ copies, Descends world copy) :
    Disseminates { world with sent := world.sent ++ packets } := by
  have hgrows : Grows world { world with sent := world.sent ++ packets } :=
    ⟨fun _ hmem ↦ hmem, fun _ _ hid ↦ hid⟩
  refine ⟨h.atMostOnce, ?_, ?_, fun node copy hmem ↦ (h.announced node copy hmem).grows hgrows⟩
  · intro target copy hmem
    rcases List.mem_append.1 hmem with hbefore | hnew
    · exact (h.gossip target copy hbefore).grows hgrows
    · obtain ⟨_, _, heq, _⟩ := hpackets _ hnew
      cases heq
  · intro target copies hmem copy hcopy
    rcases List.mem_append.1 hmem with hbefore | hnew
    · exact (h.syncBatch target copies hbefore copy hcopy).grows hgrows
    · obtain ⟨_, _, heq, hcopies⟩ := hpackets _ hnew
      cases heq
      exact (hcopies copy hcopy).grows hgrows

theorem disseminates_receiveAll {world : World ι} (node : ι) (fromPeerId : String)
    {deliveries : List (Copy ι × Moment)} (h : Disseminates world)
    (hcopies : ∀ delivery ∈ deliveries, Descends world delivery.1) :
    Disseminates (world.receiveAll platform link node fromPeerId deliveries) := by
  induction deliveries generalizing world with
  | nil => exact h
  | cons delivery rest ih =>
    have hfirst := hcopies delivery List.mem_cons_self
    rw [World.receiveAll]
    split
    · exact ih h fun later hlater ↦ hcopies later (List.mem_cons_of_mem _ hlater)
    · apply ih (disseminates_receive platform link _ delivery.2 h hfirst)
      intro later hlater
      exact (hcopies later (List.mem_cons_of_mem _ hlater)).grows
        (grows_receive platform link world node delivery.1 _ delivery.2)

/-- Every step of the network preserves the invariant. -/
theorem disseminates_next {world : World ι} {event : Event ι} (h : Disseminates world)
    (henabled : world.Enabled event) :
    Disseminates (World.next platform link world event) := by
  cases event with
  | publish node id createdAt type payload options routingPath moment =>
    obtain ⟨hstamp, hcopy⟩ := disseminates_stamp node
      (World.createMessage platform (world.process node) id createdAt type payload options
        routingPath).1
      (World.createMessage platform (world.process node) id createdAt type payload options
        routingPath).2 h
    exact disseminates_receive platform link none moment hstamp hcopy
  | deliver node copy fromPeerId moment =>
    exact disseminates_receive platform link fromPeerId moment h
      (h.gossip node copy henabled).toDescends
  | sendSyncBatch node peerId copies =>
    have hcopies (packet : Packet ι) (hmem : packet ∈ (((world.process node).pool.send
        peerId).map fun connection ↦ Packet.syncBatch (link node connection) copies).toList) :
        ∃ target others, packet = .syncBatch target others ∧
          ∀ copy ∈ others, Descends world copy := by
      obtain ⟨connection, _, rfl⟩ := Option.map_eq_some_iff.1 (Option.mem_toList.1 hmem)
      exact ⟨_, _, rfl, fun copy hcopy ↦ h.announced node copy (henabled copy hcopy)⟩
    have hsend := disseminates_send _ h hcopies
    exact disseminates_setProcess node (world.process node).createControl hsend rfl rfl rfl
  | deliverSyncBatch node deliveries fromPeerId =>
    have hcopies : ∀ delivery ∈ deliveries, Descends world delivery.1 := fun delivery hmem ↦
      h.syncBatch node _ henabled delivery.1 (List.mem_map_of_mem hmem)
    have hall := disseminates_receiveAll platform link node fromPeerId h hcopies
    exact disseminates_setProcess node _ hall rfl rfl rfl
  | createControl node =>
    exact disseminates_setProcess node _ h rfl rfl rfl
  | reconfigure node pool topicRouter rateLimiter securityManager =>
    exact disseminates_setProcess node _ h rfl rfl rfl

omit [DecidableEq ι] in
theorem disseminates_of_initial {world : World ι} (h : world.Initial) : Disseminates world where
  atMostOnce node := by
    constructor
    · intro id
      rw [h.announcedLog node]
      exact Nat.zero_le _
    · intro id
      rw [h.broadcastLog node]
      exact Nat.zero_le _
  gossip target copy hmem := by
    rw [h.sent] at hmem
    cases hmem
  syncBatch target copies hmem := by
    rw [h.sent] at hmem
    cases hmem
  announced node copy hmem := by
    rw [h.announcedLog node] at hmem
    cases hmem

theorem published_receiveAll (world : World ι) (node : ι) (fromPeerId : String)
    (deliveries : List (Copy ι × Moment)) :
    (world.receiveAll platform link node fromPeerId deliveries).published = world.published := by
  induction deliveries generalizing world with
  | nil => rfl
  | cons delivery rest ih =>
    rw [World.receiveAll]
    split
    · exact ih world
    · exact ih _

/-- Published ids stay distinct. -/
theorem nodup_published_next {world : World ι} {event : Event ι}
    (h : (world.published.map P2PMessage.id).Nodup) (henabled : world.Enabled event) :
    ((World.next platform link world event).published.map P2PMessage.id).Nodup := by
  cases event with
  | publish node id createdAt type payload options routingPath moment =>
    change (List.map P2PMessage.id (world.published ++ [_])).Nodup
    rw [List.map_append, List.nodup_append]
    refine ⟨h, List.nodup_singleton _, ?_⟩
    intro earlier hearlier last hlast heq
    obtain ⟨message, hmem, rfl⟩ := List.mem_map.1 hearlier
    exact henabled message hmem (heq.trans (List.mem_singleton.1 hlast))
  | deliverSyncBatch node deliveries fromPeerId =>
    change (List.map P2PMessage.id
      (world.receiveAll platform link node fromPeerId deliveries).published).Nodup
    rw [published_receiveAll]
    exact h
  | deliver node copy fromPeerId moment => exact h
  | sendSyncBatch node peerId copies => exact h
  | createControl node => exact h
  | reconfigure node pool topicRouter rateLimiter securityManager => exact h

end Step

/-! ## Every run -/

/-- What holds of a published message at the end of any run. -/
structure Disseminated [Fintype ι] (world : World ι) (message : P2PMessage) : Prop where
  /-- No process announces the id twice. -/
  announced : ∀ node, countId message.id (world.process node).announcedLog ≤ 1
  /-- No process broadcasts the id twice. -/
  broadcast : ∀ node, countId message.id (world.process node).broadcastLog ≤ 1
  /-- A gossip copy went through distinct processes, all of which have seen the id, and lost one
  hop at each of them. -/
  ttl : ∀ target copy, .gossip target copy ∈ world.sent → copy.message.id = message.id →
    copy.chain.Nodup ∧
      (∀ node ∈ copy.chain, message.id ∈ (world.process node).engine.seenMessages) ∧
      copy.message.ttl = message.ttl - copy.chain.length ∧
      1 ≤ copy.message.ttl ∧ copy.message.ttl ≤ message.ttl - 1
  /-- All processes together broadcast the id no more often than there are processes. -/
  total : ∑ node, countId message.id (world.process node).broadcastLog ≤ Fintype.card ι

/-- Whatever the connections, the random choices and the order of delivery, every published
message that is no advertisement is announced and broadcast at most once by each process, by
gossip and by synchronisation together, and its copies lose one hop at each process. -/
theorem disseminated_of_run [Fintype ι] [DecidableEq ι] (platform : Platform)
    (link : ι → Connection → ι) {initial world : World ι} {events : List (Event ι)}
    (hinitial : initial.Initial) (hrun : (World.system platform link).Run initial events world)
    {message : P2PMessage} (hpublished : message ∈ world.published)
    (htype : message.type ≠ .subAd) : Disseminated world message := by
  have hstart : Disseminates initial ∧ (initial.published.map P2PMessage.id).Nodup := by
    rw [hinitial.published]
    exact ⟨disseminates_of_initial hinitial, List.nodup_nil⟩
  obtain ⟨h, hdistinct⟩ : Disseminates world ∧
      (world.published.map P2PMessage.id).Nodup := by
    apply hrun.invariant_next ?_ hstart
    intro current event hcurrent henabled
    exact ⟨disseminates_next platform link hcurrent.1 henabled,
      nodup_published_next platform link hcurrent.2 henabled⟩
  have hbound (seen : Finset String) : (if message.id ∈ seen then 1 else 0) ≤ 1 := by
    split <;> omega
  have hbroadcast (node : ι) : countId message.id (world.process node).broadcastLog ≤ 1 :=
    ((h.atMostOnce node).broadcasts message.id).trans (hbound _)
  refine ⟨fun node ↦ ((h.atMostOnce node).announced message.id).trans (hbound _), hbroadcast,
    ?_, ?_⟩
  · intro target copy hmem hid
    have hcopy := h.gossip target copy hmem
    obtain ⟨source, hsource, horigin, hhops⟩ := hcopy.origin
    have hsame : source = message := by
      apply List.inj_on_of_nodup_map hdistinct hsource hpublished
      rw [← hid, horigin]
    have httl := hhops (hsame ▸ htype)
    rw [hsame] at httl
    have hlength := List.length_pos_of_ne_nil hcopy.chain
    refine ⟨hcopy.nodup, fun node hnode ↦ hid ▸ hcopy.seen node hnode, httl, hcopy.ttl, ?_⟩
    omega
  · calc ∑ node, countId message.id (world.process node).broadcastLog
        ≤ ∑ _node : ι, 1 := Finset.sum_le_sum fun node _ ↦ hbroadcast node
      _ = Fintype.card ι := by simp

/-- Two processes: the question is announced by both, and its one copy in flight has nine of its
ten hops left. -/
theorem disseminated_question :
    Disseminated
      (World.askAndReceive.foldl (World.next Pow.javaScript World.toTheOther) World.twoProcesses)
      World.question := by
  apply disseminated_of_run Pow.javaScript World.toTheOther World.initial_twoProcesses
    World.run_askAndReceive
  · decide +kernel
  · decide +kernel

end P2PApp.Network
