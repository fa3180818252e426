import Mathlib.Data.Set.Card
import P2PApp.Protocol.Fanout
import P2PApp.Protocol.SoftState

/-!
# Which peers a message can be passed on to

The sampling loop draws among the eligible peers without replacement, and the broadcast gets the
complement of what was drawn. The two complements cancel: exactly the drawn peers are reached, as
many as the fan-out allows, and every set of that many eligible peers is reached by some draws. An
empty id of the neighbour that sent the message is treated like a missing one.
-/

namespace P2PApp.GossipEngine

/-- Only the draws still to be made matter. -/
theorem selectPeers_congr {draws draws' : ℕ → ℕ} {k remaining : ℕ} {availablePeers : List String}
    {selectedPeers : Finset String} (h : ∀ index < remaining, draws index = draws' index) :
    selectPeers draws k remaining availablePeers selectedPeers =
      selectPeers draws' k remaining availablePeers selectedPeers := by
  induction remaining generalizing availablePeers selectedPeers with
  | zero => rfl
  | succ remaining ih =>
    rw [selectPeers, selectPeers, h remaining (Nat.lt_succ_self _)]
    dsimp only
    split
    · split
      · exact ih fun index hindex ↦ h index (hindex.trans (Nat.lt_succ_self _))
      · rfl
    · rfl

/-- Every choice of as many peers as there is room for is the result of some draws. -/
theorem exists_draws {k remaining : ℕ} {availablePeers : List String}
    {selectedPeers chosen : Finset String} (hremaining : remaining = availablePeers.length)
    (hnodup : availablePeers.Nodup) (hdisjoint : ∀ peerId ∈ availablePeers, peerId ∉ selectedPeers)
    (hle : selectedPeers.card ≤ k) (hsub : chosen ⊆ availablePeers.toFinset)
    (hcard : chosen.card = min (k - selectedPeers.card) availablePeers.length) :
    ∃ draws, selectPeers draws k remaining availablePeers selectedPeers =
      selectedPeers ∪ chosen := by
  induction remaining generalizing availablePeers selectedPeers chosen with
  | zero =>
    have hnone : chosen = ∅ := Finset.card_eq_zero.1 (by omega)
    refine ⟨fun _ ↦ 0, ?_⟩
    rw [selectPeers, hnone, Finset.union_empty]
  | succ remaining ih =>
    rcases hle.lt_or_eq with hroom | hfull
    · obtain ⟨peerId, hpeerId⟩ : chosen.Nonempty := Finset.card_pos.1 (by omega)
      have hmem : peerId ∈ availablePeers := List.mem_toFinset.1 (hsub hpeerId)
      have hindex := List.idxOf_lt_length_of_mem hmem
      have hfresh := hdisjoint peerId hmem
      have hlength := List.length_erase_of_mem hmem
      have hinsert := Finset.card_insert_of_notMem hfresh
      have herase := Finset.card_erase_of_mem hpeerId
      obtain ⟨draws, hdraws⟩ := @ih (availablePeers.erase peerId)
        (insert peerId selectedPeers) (chosen.erase peerId) (by omega) (hnodup.erase peerId) (by
          intro other hother
          obtain ⟨hne, hotherMem⟩ := hnodup.mem_erase_iff.1 hother
          simp [hne, hdisjoint other hotherMem]) (by omega)
        (toFinset_erase hnodup peerId ▸ Finset.erase_subset_erase _ hsub) (by omega)
      -- The first draw is the place of the peer, the others are those of the smaller choice.
      refine ⟨Function.update draws remaining (availablePeers.idxOf peerId), ?_⟩
      rw [selectPeers_succ _ hindex (by rw [Function.update_self, Nat.mod_eq_of_lt hindex]) hroom
        hnodup, List.getElem_idxOf hindex]
      rw [selectPeers_congr fun index h ↦ Function.update_of_ne h.ne _ draws, hdraws]
      rw [Finset.insert_union, ← Finset.union_insert, Finset.insert_erase hpeerId]
    · have hnone : chosen = ∅ := Finset.card_eq_zero.1 (by omega)
      refine ⟨fun _ ↦ 0, ?_⟩
      rw [selectPeers, if_neg (by omega), hnone, Finset.union_empty]

section Forward

variable (pool : ConnectionPool) (now : ℕ) (engine : GossipEngine) (message : P2PMessage)

/-- The peers to which the broadcasts among some effects hand a copy. -/
def recipients (effects : List EngineEffect) : Set String :=
  {peerId | ∃ message excluded, EngineEffect.broadcast message excluded ∈ effects ∧
    peerId ∈ (pool.copies excluded).map Prod.fst}

/-- The connected peers other than the originator and the neighbour that sent the message, and for
a topic of its own only the next hops of unexpired routes. -/
def Candidates (fromPeerId : Option String) : Set String :=
  {peerId | peerId ∈ pool.getAllPeerIds ∧ peerId ≠ message.sender ∧ fromPeerId ≠ some peerId ∧
    (message.topic ≠ "" ∧ message.topic ≠ "global" → ∃ originPeerId route,
      engine.topicRouter.routeOf message.topic originPeerId = some route ∧
        WithTop.some now ≤ route.expiresAt ∧ route.nextHop = peerId)}

/-- `forwardMessage(message, fromPeerId)`, for which an empty id is a missing one. -/
def forward (draws : ℕ → ℕ) (fromPeerId : Option String) : List EngineEffect :=
  (engine.forwardMessage pool now draws message (truthy fromPeerId)).2

/-- The message goes to as many of the given peers as the fan-out allows, and to any of them. -/
structure SamplesFrom (fromPeerId : Option String) (candidates : Set String) : Prop where
  card : ∀ draws, (recipients pool (forward pool now engine message draws fromPeerId)).ncard =
    min Config.GOSSIP_FANOUT candidates.ncard
  subset : ∀ draws, recipients pool (forward pool now engine message draws fromPeerId) ⊆ candidates
  silent : candidates = ∅ → ∀ draws, forward pool now engine message draws fromPeerId = []
  all : ∀ chosen ⊆ candidates, chosen.ncard = min Config.GOSSIP_FANOUT candidates.ncard →
    ∃ draws, recipients pool (forward pool now engine message draws fromPeerId) = chosen

variable {pool now engine message}

/-- The eligible peers of the code are the candidates. -/
theorem coe_eligiblePeers (fromPeerId : Option String) :
    ((eligiblePeers pool now engine.topicRouter message fromPeerId).toFinset : Set String) =
      Candidates pool now engine message fromPeerId := by
  ext peerId
  rw [Finset.mem_coe, List.mem_toFinset, mem_eligiblePeers, TopicRouter.mem_getPeersForTopic,
    Candidates, Set.mem_ofPred_eq]
  simp only [TopicRouter.leasedRouteOf_eq_some_iff, and_assoc]
  tauto

/-- Excluding everybody else reaches exactly the selected peers. -/
theorem recipients_complement {selected : Finset String} {message : P2PMessage}
    (hsub : ∀ peerId ∈ selected, peerId ∈ pool.getAllPeerIds) :
    recipients pool [.broadcast message
      (pool.getAllPeerIds.filter fun peerId ↦ peerId ∉ selected)] = selected := by
  ext peerId
  simp only [recipients, Set.mem_ofPred_eq, List.mem_singleton, EngineEffect.broadcast.injEq,
    ConnectionPool.mem_map_copies, Finset.mem_coe]
  constructor
  · rintro ⟨_, _, ⟨rfl, rfl⟩, hmem, hnot⟩
    by_contra hother
    exact hnot (List.mem_filter.2 ⟨hmem, by simpa using hother⟩)
  · intro hselected
    exact ⟨_, _, ⟨rfl, rfl⟩, hsub peerId hselected, by simp [hselected]⟩

/-- The peers that the loop selects for a message. -/
def drawn (pool : ConnectionPool) (now : ℕ) (engine : GossipEngine) (message : P2PMessage)
    (fromPeerId : Option String) (draws : ℕ → ℕ) : Finset String :=
  let availablePeers := eligiblePeers pool now engine.topicRouter message fromPeerId
  selectPeers draws (min Config.GOSSIP_FANOUT availablePeers.length) availablePeers.length
    availablePeers ∅

theorem drawn_spec (fromPeerId : Option String) (draws : ℕ → ℕ) :
    drawn pool now engine message fromPeerId draws ⊆
        (eligiblePeers pool now engine.topicRouter message fromPeerId).toFinset ∧
      (drawn pool now engine message fromPeerId draws).card = min Config.GOSSIP_FANOUT
        (eligiblePeers pool now engine.topicRouter message fromPeerId).length := by
  obtain ⟨chosen, hsub, hcard, heq⟩ := @selectPeers_spec draws _ _ _ ∅ rfl
    (nodup_eligiblePeers pool now message fromPeerId engine.topicRouter)
    (fun other _ ↦ Finset.notMem_empty other) (Nat.zero_le (min Config.GOSSIP_FANOUT
      (eligiblePeers pool now engine.topicRouter message fromPeerId).length))
  rw [Finset.empty_union] at heq
  unfold drawn
  dsimp only
  rw [heq]
  refine ⟨hsub, ?_⟩
  rw [hcard, Finset.card_empty]
  omega

/-- The broadcast reaches exactly the peers that were drawn. -/
theorem recipients_forwardMessage (fromPeerId : Option String) (draws : ℕ → ℕ) :
    recipients pool (engine.forwardMessage pool now draws message fromPeerId).2 =
      drawn pool now engine message fromPeerId draws := by
  obtain ⟨hsub, hcard⟩ := @drawn_spec pool now engine message fromPeerId draws
  have hforward : (engine.forwardMessage pool now draws message fromPeerId).2 =
      if (drawn pool now engine message fromPeerId draws).card = 0 then []
      else [.broadcast message (pool.getAllPeerIds.filter fun peerId ↦
        peerId ∉ drawn pool now engine message fromPeerId draws)] := by
    unfold forwardMessage drawn
    dsimp only
    split <;> rfl
  rw [hforward]
  split
  · rename_i hnone
    rw [Finset.card_eq_zero.1 hnone, Finset.coe_empty]
    simp [recipients]
  · refine recipients_complement fun peerId hpeerId ↦ ?_
    exact ((mem_eligiblePeers pool now message fromPeerId).1
      (List.mem_toFinset.1 (hsub hpeerId))).1.1

/-- Whoever the neighbour was, unless its id is empty, the message goes to peers drawn from all
candidates. -/
theorem samplesFrom_candidates (pool : ConnectionPool) (now : ℕ) (engine : GossipEngine)
    (message : P2PMessage) (fromPeerId : Option String) :
    SamplesFrom pool now engine message fromPeerId
      (Candidates pool now engine message (truthy fromPeerId)) := by
  rw [← coe_eligiblePeers]
  have hnodup := nodup_eligiblePeers pool now message (truthy fromPeerId) engine.topicRouter
  have hcount : ((eligiblePeers pool now engine.topicRouter message
      (truthy fromPeerId)).toFinset : Set String).ncard =
        (eligiblePeers pool now engine.topicRouter message (truthy fromPeerId)).length := by
    rw [Set.ncard_coe_finset, List.toFinset_card_of_nodup hnodup]
  refine ⟨?_, ?_, ?_, ?_⟩
  · intro draws
    rw [forward, recipients_forwardMessage, Set.ncard_coe_finset, hcount]
    exact (drawn_spec (truthy fromPeerId) draws).2
  · intro draws
    rw [forward, recipients_forwardMessage, Finset.coe_subset]
    exact (drawn_spec (truthy fromPeerId) draws).1
  · intro hempty draws
    rw [Finset.coe_eq_empty, List.toFinset_eq_empty_iff] at hempty
    rw [forward, forwardMessage, hempty]
    rfl
  · intro chosen hsub hcard
    have hfinite : chosen.Finite := (Finset.finite_toSet _).subset hsub
    lift chosen to Finset String using hfinite
    rw [Set.ncard_coe_finset, hcount] at hcard
    obtain ⟨draws, hdraws⟩ := exists_draws (k := min Config.GOSSIP_FANOUT (eligiblePeers pool now
        engine.topicRouter message (truthy fromPeerId)).length) rfl hnodup
      (fun other _ ↦ Finset.notMem_empty other) (Nat.zero_le _) (Finset.coe_subset.1 hsub)
      (by rw [hcard, Finset.card_empty]; omega)
    refine ⟨draws, ?_⟩
    rw [forward, recipients_forwardMessage, drawn, hdraws, Finset.empty_union]

end Forward

/-- The neighbour is never among the peers that a message can be passed on to. -/
def SparesNeighbour : Prop :=
  ∀ pool now engine message fromPeerId,
    SamplesFrom pool now engine message fromPeerId
      (Candidates pool now engine message fromPeerId)

/-- A node that has dialled a peer without an id, as a peer list may contain. -/
def namelessPool : ConnectionPool :=
  ((ConnectionPool.new "alice").connect 0 "ws://10.0.0.2:8080" "").setConnected "" true

def greeting : P2PMessage where
  id := "greeting"
  type := .chat
  ttl := 9
  lamportTimestamp := 1
  sender := "bob"
  senderPublicKey := none
  topic := "global"
  payload := .text "hello"
  createdAt := "2026-01-01T00:00:00.000Z"
  powNonce := 0
  signature := none
  routingPath := none

/-- What comes from the peer without an id goes back to it. -/
theorem not_sparesNeighbour_nameless : ¬SparesNeighbour := by
  intro h
  have hsilent := (h namelessPool 0 (.new "alice" none 20 5) greeting (some "")).silent
  have hnobody : Candidates namelessPool 0 (.new "alice" none 20 5) greeting (some "") = ∅ := by
    refine Set.eq_empty_iff_forall_notMem.2 fun peerId hpeerId ↦ ?_
    have hmem : peerId ∈ [""] := hpeerId.1
    exact hpeerId.2.2.1 (congrArg some (List.mem_singleton.1 hmem).symm)
  exact absurd (hsilent hnobody fun _ ↦ 0) (by decide +kernel)

end P2PApp.GossipEngine
