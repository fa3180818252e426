import Mathlib.Logic.Function.Basic
import P2PApp.Library.OrderedMap
import P2PApp.Library.TransitionSystem

/-!
# Peer exchange

Every node has a table of the peers it was told to dial: by its configuration, by multicast, or in a
`PEER_LIST` of another node. Nothing removes an entry as long as no failure detector runs. A node
sends its list to a peer that asks, or to a random peer every thirty seconds: the first twenty
entries of the table, without the two nodes themselves.

A request and the list that answers it are one event, at the node that answers. Lists may be lost
and overtake each other. Which nodes are connected, and under which id a node has the other in its
pool, is a parameter.
-/

namespace P2PApp.PeerExchange

structure Address where
  host : String
  port : ℕ
  deriving DecidableEq

/-- What the state of a process has of its peers. -/
structure Process where
  localPeerId : String
  peers : OrderedMap String Address

namespace Process

def addPeer (process : Process) (peerId : String) (address : Address) : Process :=
  if process.peers.has peerId then process
  else { process with peers := process.peers.set peerId address }

/-- An entry that the requester may be told. -/
def eligible (process : Process) (requesterId : String) (entry : String × Address) : Bool :=
  entry.1 ≠ requesterId && entry.1 ≠ process.localPeerId

def handleRequest (process : Process) (requesterId : String) : List (String × Address) :=
  (process.peers.entries.filter (process.eligible requesterId)).take 20

/-- What is done about one element of a list. -/
def learn (process : Process) (peer : String × Address) : Process :=
  if peer.1 ≠ process.localPeerId ∧ !process.peers.has peer.1 then
    process.addPeer peer.1 peer.2
  else process

def handleResponse (process : Process) (peerList : List (String × Address)) : Process :=
  peerList.foldl learn process

end Process

/-- A `PEER_LIST` on its way. -/
structure Packet (Node : Type*) where
  destination : Node
  peers : List (String × Address)

structure World (Node : Type*) where
  process : Node → Process
  inFlight : List (Packet Node)

inductive Event (Node : Type*)
  /-- `addPeer` by the bootstrap or the multicast discovery. -/
  | introduce (node : Node) (peerId : String) (address : Address)
  /-- `handleRequest`, with the id under which the node has the requester. -/
  | tell (node requester : Node) (requesterId : String)
  | deliver (position : ℕ)
  | lose (position : ℕ)

variable {Node : Type*} [DecidableEq Node]

namespace World

def setProcess (world : World Node) (node : Node) (process : Process) : World Node :=
  { world with process := Function.update world.process node process }

/-- The connections: a node has another in its pool under an id. -/
abbrev Links (Node : Type*) := Node → Node → String → Prop

def Enabled (links : Links Node) (world : World Node) : Event Node → Prop
  | .introduce .. => True
  | .tell node requester requesterId => links node requester requesterId
  | .deliver position | .lose position => position < world.inFlight.length

def next (world : World Node) : Event Node → World Node
  | .introduce node peerId address =>
    world.setProcess node ((world.process node).addPeer peerId address)
  | .tell node requester requesterId =>
    { world with
      inFlight :=
        world.inFlight ++ [⟨requester, (world.process node).handleRequest requesterId⟩] }
  | .deliver position =>
    match world.inFlight[position]? with
    | none => world
    | some packet =>
      { world with inFlight := world.inFlight.eraseIdx position }.setProcess packet.destination
        ((world.process packet.destination).handleResponse packet.peers)
  | .lose position => { world with inFlight := world.inFlight.eraseIdx position }

def system (links : Links Node) : TransitionSystem (World Node) (Event Node) :=
  .ofNext (Enabled links) next

/-- The table of a node, in the order of its entries. -/
def table (world : World Node) (node : Node) : List (String × Address) :=
  (world.process node).peers.entries

end World

/-! ## Tables grow at their end -/

namespace Process

/-- A process that has only learned of more peers. -/
structure Grows (before after : Process) : Prop where
  localPeerId : after.localPeerId = before.localPeerId
  entries : before.peers.entries <+: after.peers.entries

variable {process : Process}

theorem Grows.refl (process : Process) : Grows process process := ⟨rfl, List.prefix_refl _⟩

theorem Grows.trans {first second third : Process} (h : Grows first second)
    (h' : Grows second third) : Grows first third :=
  ⟨h'.localPeerId.trans h.localPeerId, h.entries.trans h'.entries⟩

theorem entries_addPeer (peerId : String) (address : Address) :
    (process.addPeer peerId address).peers.entries =
      if process.peers.has peerId then process.peers.entries
      else process.peers.entries ++ [(peerId, address)] := by
  unfold addPeer
  split
  · rfl
  · rename_i hnew
    exact OrderedMap.entries_set_of_not_mem (fun h ↦ hnew (OrderedMap.has_iff_mem_keys.2 h)) address

theorem grows_addPeer (process : Process) (peerId : String) (address : Address) :
    Grows process (process.addPeer peerId address) := by
  refine ⟨?_, ?_⟩
  · unfold addPeer
    split
    · rfl
    · rfl
  · rw [entries_addPeer]
    split
    · exact List.prefix_refl _
    · exact List.prefix_append _ _

theorem learn_eq (process : Process) (peer : String × Address) :
    process.learn peer =
      if peer.1 = process.localPeerId then process else process.addPeer peer.1 peer.2 := by
  unfold learn addPeer
  by_cases hself : peer.1 = process.localPeerId
  · simp [hself]
  · cases process.peers.has peer.1 <;> simp [hself]

theorem grows_learn (process : Process) (peer : String × Address) :
    Grows process (process.learn peer) := by
  rw [learn_eq]
  split
  · exact .refl process
  · exact grows_addPeer process peer.1 peer.2

theorem grows_handleResponse (process : Process) (peerList : List (String × Address)) :
    Grows process (process.handleResponse peerList) := by
  induction peerList generalizing process with
  | nil => exact .refl process
  | cons peer rest ih => exact (grows_learn process peer).trans (ih (process.learn peer))

end Process

namespace World

variable {links : Links Node} {world last : World Node} {events : List (Event Node)}

@[simp] theorem process_setProcess_self (world : World Node) (node : Node) (process : Process) :
    (world.setProcess node process).process node = process := Function.update_self ..

theorem process_setProcess_of_ne (world : World Node) {node other : Node} (process : Process)
    (h : other ≠ node) : (world.setProcess node process).process other = world.process other :=
  Function.update_of_ne h ..

theorem grows_setProcess {process : Process} {node : Node}
    (h : Process.Grows (world.process node) process) (other : Node) :
    Process.Grows (world.process other) ((world.setProcess node process).process other) := by
  by_cases hother : other = node
  · subst hother
    rw [process_setProcess_self]
    exact h
  · rw [process_setProcess_of_ne world process hother]
    exact .refl _

theorem grows_next (world : World Node) (event : Event Node) (node : Node) :
    Process.Grows (world.process node) ((world.next event).process node) := by
  cases event with
  | introduce other peerId address =>
    exact grows_setProcess (Process.grows_addPeer _ peerId address) node
  | tell other requester requesterId => exact .refl _
  | deliver position =>
    rw [next]
    split
    · exact .refl _
    · rename_i packet _
      exact grows_setProcess (Process.grows_handleResponse (world.process packet.destination)
        packet.peers) node
  | lose position => exact .refl _

theorem grows_of_run (hrun : (system links).Run world events last) (node : Node) :
    Process.Grows (world.process node) (last.process node) := by
  have hnext (current : World Node) (event : Event Node)
      (hbefore : Process.Grows (world.process node) (current.process node))
      (_ : Enabled links current event) :
      Process.Grows (world.process node) ((current.next event).process node) :=
    hbefore.trans (grows_next current event node)
  exact hrun.invariant_next hnext (Process.Grows.refl _)

/-! ## What a node tells -/

end World

namespace Process

variable {process : Process}

theorem mem_take_filter_iff {α : Type*} {p : α → Bool} {before after : List α} {item : α}
    (hitem : p item = true) (hnew : item ∉ before) (count : ℕ) :
    item ∈ ((before ++ item :: after).filter p).take count ↔ (before.filter p).length < count := by
  rw [List.filter_append, List.filter_cons_of_pos hitem, List.take_append, List.mem_append]
  have hbefore : item ∉ (before.filter p).take count :=
    fun h ↦ hnew (List.mem_of_mem_filter (List.mem_of_mem_take h))
  rw [or_iff_right hbefore]
  constructor
  · intro hmem
    by_contra hfull
    rw [Nat.sub_eq_zero_of_le (Nat.le_of_not_lt hfull)] at hmem
    cases hmem
  · intro hroom
    obtain ⟨room, hroom⟩ := Nat.exists_eq_succ_of_ne_zero (Nat.sub_ne_zero_of_lt hroom)
    rw [hroom, List.take_succ_cons]
    exact List.mem_cons_self

theorem Grows.eligible_eq {before after : Process} (h : Grows before after) :
    after.eligible = before.eligible := by
  unfold eligible
  rw [h.localPeerId]

end Process

namespace World

variable {links : Links Node} {world last : World Node} {events : List (Event Node)}

/-- A node that has bob in its table, and is told about carol. -/
def aliceKnowsBob : World Unit where
  process _ := ⟨"alice", (∅ : OrderedMap String Address).set "bob" ⟨"10.0.0.2", 8080⟩⟩
  inFlight := []

/-- A discovery other than the exchange has found the peer. -/
def Introduced (events : List (Event Node)) (entry : String × Address) : Prop :=
  ∃ node, .introduce node entry.1 entry.2 ∈ events

/-- Nodes that have just been started. -/
structure Initial (world : World Node) : Prop where
  tables : ∀ node, world.table node = []
  inFlight : world.inFlight = []

/-- Every entry of a table, and of a list on its way, was introduced. -/
structure Sourced (events : List (Event Node)) (world : World Node) : Prop where
  tables : ∀ node, ∀ entry ∈ world.table node, Introduced events entry
  inFlight : ∀ packet ∈ world.inFlight, ∀ entry ∈ packet.peers, Introduced events entry

omit [DecidableEq Node] in
theorem Introduced.concat {entry : String × Address} (h : Introduced events entry)
    (event : Event Node) : Introduced (events ++ [event]) entry := by
  obtain ⟨node, hevent⟩ := h
  exact ⟨node, List.mem_append_left _ hevent⟩

theorem mem_handleResponse {process : Process} {peerList : List (String × Address)}
    {entry : String × Address} (h : entry ∈ (process.handleResponse peerList).peers.entries) :
    entry ∈ process.peers.entries ∨ entry ∈ peerList := by
  induction peerList generalizing process with
  | nil => exact .inl h
  | cons peer rest ih =>
    rcases ih h with hlearned | hrest
    · rw [Process.learn_eq] at hlearned
      split at hlearned
      · exact .inl hlearned
      · rw [Process.entries_addPeer] at hlearned
        split at hlearned
        · exact .inl hlearned
        · rcases List.mem_append.1 hlearned with hbefore | hnew
          · exact .inl hbefore
          · cases List.mem_singleton.1 hnew
            exact .inr List.mem_cons_self
    · exact .inr (List.mem_cons_of_mem _ hrest)

theorem mem_table_setProcess {node other : Node} {process : Process} {entry : String × Address}
    (h : entry ∈ (world.setProcess node process).table other) :
    entry ∈ world.table other ∨ other = node ∧ entry ∈ process.peers.entries := by
  by_cases hother : other = node
  · subst hother
    rw [table, process_setProcess_self] at h
    exact .inr ⟨rfl, h⟩
  · rw [table, process_setProcess_of_ne world process hother] at h
    exact .inl h

theorem Sourced.next (h : Sourced events world) (event : Event Node) :
    Sourced (events ++ [event]) (world.next event) := by
  have hkept (node : Node) (entry : String × Address) (hentry : entry ∈ world.table node) :
      Introduced (events ++ [event]) entry := (h.tables node entry hentry).concat event
  have hsent (packet : Packet Node) (hpacket : packet ∈ world.inFlight)
      (entry : String × Address) (hentry : entry ∈ packet.peers) :
      Introduced (events ++ [event]) entry := (h.inFlight packet hpacket entry hentry).concat event
  cases event with
  | introduce node peerId address =>
    refine ⟨fun other entry hentry ↦ ?_, hsent⟩
    rcases mem_table_setProcess hentry with hbefore | ⟨rfl, hadded⟩
    · exact hkept other entry hbefore
    · rw [Process.entries_addPeer] at hadded
      split at hadded
      · exact hkept other entry hadded
      · rcases List.mem_append.1 hadded with hbefore | hnew
        · exact hkept other entry hbefore
        · cases List.mem_singleton.1 hnew
          exact ⟨other, List.mem_append_right _ List.mem_cons_self⟩
  | tell node requester requesterId =>
    refine ⟨hkept, fun packet hpacket ↦ ?_⟩
    rcases List.mem_append.1 hpacket with hbefore | hnew
    · exact hsent packet hbefore
    · cases List.mem_singleton.1 hnew
      exact fun entry hentry ↦
        hkept node entry (List.mem_of_mem_filter (List.mem_of_mem_take hentry))
  | deliver position =>
    rw [World.next]
    split
    · exact ⟨hkept, hsent⟩
    · rename_i packet hpacket
      refine ⟨fun other entry hentry ↦ ?_, fun sent hin ↦ hsent sent (List.mem_of_mem_eraseIdx hin)⟩
      rcases mem_table_setProcess hentry with hbefore | ⟨rfl, hlearned⟩
      · exact hkept other entry hbefore
      · rcases mem_handleResponse hlearned with hbefore | hlisted
        · exact hkept _ entry hbefore
        · exact hsent packet (List.mem_of_getElem? hpacket) entry hlisted
  | lose position =>
    exact ⟨hkept, fun packet hpacket ↦ hsent packet (List.mem_of_mem_eraseIdx hpacket)⟩

theorem sourced_of_run (hinitial : world.Initial) (hrun : (system links).Run world events last) :
    Sourced events last := by
  induction hrun with
  | nil => exact ⟨by simp [hinitial.tables], by simp [hinitial.inFlight]⟩
  | snoc _ hstep ih =>
    rw [hstep.2]
    exact ih.next _

/-! ## Rounds of exchanges -/

/-- Somewhere in the run a node answers a peer, which later hears the answer. -/
def Exchanges (links : Links Node) (node requester : Node) (requesterId : String)
    (world : World Node) (events : List (Event Node)) (last : World Node) : Prop :=
  ∃ before asked between arriving position after,
    events = before ++ between ++ .deliver position :: after ∧
    (system links).Run world before asked ∧ (system links).Run asked between arriving ∧
    arriving.inFlight[position]? =
      some ⟨requester, (asked.process node).handleRequest requesterId⟩ ∧
    (system links).Run (arriving.next (.deliver position)) after last

/-- A number of rounds, one after the other, in each of which every connection is used. -/
inductive Rounds (links : Links Node) (world : World Node) :
    ℕ → List (Event Node) → World Node → Prop
  | zero : Rounds links world 0 [] world
  | succ {count : ℕ} {events later : List (Event Node)} {middle last : World Node}
      (hbefore : Rounds links world count events middle)
      (hrun : (system links).Run middle later last)
      (hround : ∀ node requester requesterId, links node requester requesterId →
        Exchanges links node requester requesterId middle later last) :
      Rounds links world (count + 1) (events ++ later) last

/-- Some connections lead from a node to another, past the peer that is talked about. -/
inductive Reaches (links : Links Node) (idOf : Node → String) (peerId : String) (node : Node) :
    ℕ → Node → Prop
  | refl : Reaches links idOf peerId node 0 node
  | stay {count : ℕ} {other : Node} (h : Reaches links idOf peerId node count other) :
      Reaches links idOf peerId node (count + 1) other
  | step {count : ℕ} {other requester : Node} {requesterId : String}
      (h : Reaches links idOf peerId node count other) (hother : idOf other ≠ peerId)
      (hlink : links other requester requesterId) (hrequester : idOf requester ≠ peerId) :
      Reaches links idOf peerId node (count + 1) requester

theorem has_iff {process : Process} {peerId : String} :
    process.peers.has peerId = true ↔ ∃ address, (peerId, address) ∈ process.peers.entries := by
  simp only [OrderedMap.has, Option.isSome_iff_exists, OrderedMap.get?_eq_some_iff]

theorem has_of_grows {before after : Process} (h : before.Grows after) {peerId : String}
    (hhas : before.peers.has peerId = true) : after.peers.has peerId = true := by
  obtain ⟨address, hentry⟩ := has_iff.1 hhas
  exact has_iff.2 ⟨address, h.entries.subset hentry⟩

theorem has_learn {process : Process} {peer : String × Address}
    (hother : peer.1 ≠ process.localPeerId) :
    (process.learn peer).peers.has peer.1 = true := by
  rw [Process.learn_eq, if_neg hother, has_iff, Process.entries_addPeer]
  split
  · rename_i hhas
    exact has_iff.1 hhas
  · exact ⟨peer.2, List.mem_append_right _ List.mem_cons_self⟩

theorem has_handleResponse {process : Process} {peerList : List (String × Address)}
    {peer : String × Address} (hpeer : peer ∈ peerList) (hother : peer.1 ≠ process.localPeerId) :
    (process.handleResponse peerList).peers.has peer.1 = true := by
  induction peerList generalizing process with
  | nil => cases hpeer
  | cons first rest ih =>
    change ((process.learn first).handleResponse rest).peers.has peer.1 = true
    rcases List.mem_cons.1 hpeer with rfl | hrest
    · exact has_of_grows (Process.grows_handleResponse _ rest) (has_learn hother)
    · exact ih hrest (by rwa [(Process.grows_learn process first).localPeerId])

/-- A short table is told as a whole. -/
theorem mem_handleRequest {process : Process} {requesterId : String} {entry : String × Address}
    (hsmall : process.peers.entries.length ≤ 20) (hentry : entry ∈ process.peers.entries)
    (heligible : process.eligible requesterId entry = true) :
    entry ∈ process.handleRequest requesterId := by
  have hlength := List.length_filter_le (process.eligible requesterId) process.peers.entries
  rw [Process.handleRequest, List.take_of_length_le (Nat.le_trans hlength hsmall)]
  exact List.mem_filter.2 ⟨hentry, heligible⟩

/-- After the exchange the requester knows what the other node knew before. -/
theorem Exchanges.has {node requester : Node} {requesterId peerId : String}
    (h : Exchanges links node requester requesterId world events last)
    (hsmall : (last.table node).length ≤ 20)
    (hhonest : requesterId = (world.process requester).localPeerId)
    (hnode : (world.process node).localPeerId ≠ peerId)
    (hrequester : (world.process requester).localPeerId ≠ peerId)
    (hknown : (world.process node).peers.has peerId = true) :
    (last.process requester).peers.has peerId = true := by
  obtain ⟨before, asked, between, arriving, position, after, rfl, hbefore, hbetween, hpacket,
    hafter⟩ := h
  have hasked := grows_of_run hbefore node
  have hlater : (asked.process node).Grows (last.process node) :=
    (grows_of_run hbetween node).trans
      ((grows_next arriving (.deliver position) node).trans (grows_of_run hafter node))
  obtain ⟨address, hentry⟩ := has_iff.1 (has_of_grows hasked hknown)
  have hlisted : (peerId, address) ∈ (asked.process node).handleRequest requesterId := by
    refine mem_handleRequest (Nat.le_trans hlater.entries.length_le hsmall) hentry ?_
    rw [hasked.eligible_eq]
    simp [Process.eligible, hhonest, Ne.symm hnode, Ne.symm hrequester]
  have hself : peerId ≠ (arriving.process requester).localPeerId := by
    rw [(grows_of_run hbetween requester).localPeerId, (grows_of_run hbefore requester).localPeerId]
    exact Ne.symm hrequester
  refine has_of_grows (grows_of_run hafter requester) ?_
  rw [next, hpacket]
  dsimp only
  rw [process_setProcess_self]
  exact has_handleResponse hlisted hself

theorem Rounds.run {count : ℕ} (h : Rounds links world count events last) :
    (system links).Run world events last := by
  induction h with
  | zero => exact .nil world
  | succ _ hrun _ ih => exact ih.append hrun

theorem has_of_rounds {count : ℕ} {node other : Node} {peerId : String}
    (hrounds : Rounds links world count events last)
    (hhonest : ∀ node requester requesterId, links node requester requesterId →
      requesterId = (world.process requester).localPeerId)
    (hsmall : ∀ node, (last.table node).length ≤ 20)
    (hreaches : Reaches links (fun node ↦ (world.process node).localPeerId) peerId node count other)
    (hknown : (world.process node).peers.has peerId = true) :
    (last.process other).peers.has peerId = true := by
  induction hrounds generalizing other with
  | zero =>
    cases hreaches
    exact hknown
  | succ hbefore hrun hround ih =>
    rename_i middle last
    have hid (node : Node) :
        (middle.process node).localPeerId = (world.process node).localPeerId :=
      (grows_of_run hbefore.run node).localPeerId
    have hfewer (node : Node) : (middle.table node).length ≤ 20 :=
      Nat.le_trans (grows_of_run hrun node).entries.length_le (hsmall node)
    cases hreaches with
    | stay hother => exact has_of_grows (grows_of_run hrun other) (ih hfewer hother)
    | step hsender hother hlink hrequester =>
      rename_i sender requesterId
      refine (hround _ _ _ hlink).has (hsmall _) ?_ ?_ ?_ (ih hfewer hsender)
      · rw [hid]
        exact hhonest _ _ _ hlink
      · rw [hid]
        exact hother
      · rw [hid]
        exact hrequester

inductive Site
  | alice
  | bob
  | carol
  deriving DecidableEq

def Site.name : Site → String
  | .alice => "alice"
  | .bob => "bob"
  | .carol => "carol"

/-- Alice has dialled bob, and bob has dialled carol. -/
def Site.dialled : Site → Option Site
  | .alice => some .bob
  | .bob => some .carol
  | .carol => none

def lineWorld : World Site where
  process node := ⟨node.name, ∅⟩
  inFlight := []

def lineLinks : Links Site := fun node requester requesterId ↦
  node.dialled = some requester ∧ requesterId = requester.name

instance (node requester : Site) (requesterId : String) :
    Decidable (lineLinks node requester requesterId) :=
  inferInstanceAs (Decidable (_ ∧ _))

instance (world : World Site) (event : Event Site) :
    Decidable (Enabled lineLinks world event) :=
  match event with
  | .introduce .. => inferInstanceAs (Decidable True)
  | .tell .. => inferInstanceAs (Decidable (lineLinks _ _ _))
  | .deliver _ | .lose _ => inferInstanceAs (Decidable (_ < _))

def daveAddress : Address := ⟨"10.0.0.4", 8080⟩

def introducesDave : List (Event Site) := [.introduce .alice "dave" daveAddress]

/-- Both connections are used, the second one before the first list has arrived. -/
def lineRound : List (Event Site) :=
  [.tell .alice .bob "bob", .tell .bob .carol "carol", .deliver 0, .deliver 0]

theorem enabledAlong_lineRound {world : World Site} (hempty : world.inFlight = []) :
    TransitionSystem.EnabledAlong (Enabled lineLinks) next world lineRound := by
  refine ⟨⟨rfl, rfl⟩, ⟨rfl, rfl⟩, ?_, ?_, trivial⟩
  · simp [Enabled, next, hempty]
  · simp [Enabled, next, hempty, setProcess]

theorem exchanges_lineRound {world : World Site} (hempty : world.inFlight = [])
    {node requester : Site} {requesterId : String} (hlink : lineLinks node requester requesterId) :
    Exchanges lineLinks node requester requesterId world lineRound
      (lineRound.foldl next world) := by
  obtain ⟨hfirst, hsecond, hdeliver, hlast, -⟩ := enabledAlong_lineRound hempty
  obtain ⟨hvalue, rfl⟩ := hlink
  match node, requester with
  | .alice, .bob =>
    refine ⟨[], world, [.tell .alice .bob "bob", .tell .bob .carol "carol"], _, 0, [.deliver 0],
      rfl, .nil _, TransitionSystem.run_ofNext ⟨hfirst, hsecond, trivial⟩, ?_,
      TransitionSystem.run_ofNext ⟨hlast, trivial⟩⟩
    simp [next, hempty, Site.name]
  | .bob, .carol =>
    refine ⟨[.tell .alice .bob "bob"], _, [.tell .bob .carol "carol", .deliver 0], _, 0, [], rfl,
      TransitionSystem.run_ofNext ⟨hfirst, trivial⟩,
      TransitionSystem.run_ofNext ⟨hsecond, hdeliver, trivial⟩, ?_, .nil _⟩
    simp [next, hempty, Site.name, setProcess]

def introducedWorld : World Site := introducesDave.foldl next lineWorld

theorem rounds_line :
    Rounds lineLinks introducedWorld 2 ([] ++ lineRound ++ lineRound)
      (lineRound.foldl next (lineRound.foldl next introducedWorld)) :=
  .succ (.succ .zero (TransitionSystem.run_ofNext (enabledAlong_lineRound rfl))
      fun _ _ _ ↦ exchanges_lineRound rfl)
    (TransitionSystem.run_ofNext (enabledAlong_lineRound rfl)) fun _ _ _ ↦ exchanges_lineRound rfl

theorem localPeerId_introducedWorld (node : Site) :
    (introducedWorld.process node).localPeerId = node.name := by
  cases node <;> rfl

theorem reaches_line :
    Reaches lineLinks (fun node ↦ (introducedWorld.process node).localPeerId) "dave"
      .alice 2 .carol := by
  have hnamed (node : Site) : (introducedWorld.process node).localPeerId ≠ "dave" := by
    rw [localPeerId_introducedWorld]
    cases node <;> decide
  have hbob : Reaches lineLinks (fun node ↦ (introducedWorld.process node).localPeerId) "dave"
      .alice 1 .bob :=
    .step .refl (hnamed .alice) ⟨rfl, rfl⟩ (hnamed .bob)
  exact .step hbob (hnamed .bob) ⟨rfl, rfl⟩ (hnamed .carol)

end World

end P2PApp.PeerExchange
