import P2PApp.Protocol.GossipEngine
import P2PApp.Transport.Fanout

/-!
# Who gets a message that is passed on

The sampling loop takes all eligible peers when there are no more of them than `GOSSIP_FANOUT`, and
nothing is left to chance. Each of them then gets a copy over every connection to it. What else
`receiveMessage` does to the engine concerns the keys, of which at most that of the sender is
learned.
-/

namespace P2PApp

namespace GossipEngine

/-- One more peer is drawn while there is room. -/
theorem selectPeers_succ (draws : ℕ → ℕ) {k remaining index : ℕ} {availablePeers : List String}
    {selectedPeers : Finset String} (hindex : index < availablePeers.length)
    (hdraw : draws remaining % availablePeers.length = index) (hroom : selectedPeers.card < k)
    (hnodup : availablePeers.Nodup) :
    selectPeers draws k (remaining + 1) availablePeers selectedPeers =
      selectPeers draws k remaining (availablePeers.erase availablePeers[index])
        (insert availablePeers[index] selectedPeers) := by
  rw [selectPeers, if_pos hroom]
  dsimp only
  rw [hdraw, List.getElem?_eq_getElem hindex]
  dsimp only
  rw [hnodup.erase_getElem _ hindex]

theorem toFinset_erase {availablePeers : List String} (hnodup : availablePeers.Nodup)
    (peerId : String) :
    (availablePeers.erase peerId).toFinset = availablePeers.toFinset.erase peerId := by
  ext other
  rw [List.mem_toFinset, hnodup.mem_erase_iff, Finset.mem_erase, List.mem_toFinset]

/-- Whatever is drawn, the loop adds as many of the available peers as there is room for. -/
theorem selectPeers_spec (draws : ℕ → ℕ) {k remaining : ℕ} {availablePeers : List String}
    {selectedPeers : Finset String} (hremaining : remaining = availablePeers.length)
    (hnodup : availablePeers.Nodup) (hdisjoint : ∀ peerId ∈ availablePeers, peerId ∉ selectedPeers)
    (hle : selectedPeers.card ≤ k) :
    ∃ chosen ⊆ availablePeers.toFinset,
      chosen.card = min (k - selectedPeers.card) availablePeers.length ∧
      selectPeers draws k remaining availablePeers selectedPeers = selectedPeers ∪ chosen := by
  induction remaining generalizing availablePeers selectedPeers with
  | zero =>
    refine ⟨∅, Finset.empty_subset _, by simp [← hremaining], ?_⟩
    rw [selectPeers, Finset.union_empty]
  | succ remaining ih =>
    rcases hle.lt_or_eq with hroom | hfull
    · have hindex := Nat.mod_lt (draws remaining) (by omega : 0 < availablePeers.length)
      rw [selectPeers_succ draws hindex rfl hroom hnodup]
      obtain ⟨peerId, hpeerId⟩ :
          ∃ peerId, availablePeers[draws remaining % availablePeers.length] = peerId := ⟨_, rfl⟩
      have hmem : peerId ∈ availablePeers := hpeerId ▸ List.getElem_mem hindex
      have hfresh := hdisjoint peerId hmem
      have hlength := List.length_erase_of_mem hmem
      have hcard := Finset.card_insert_of_notMem hfresh
      rw [hpeerId]
      obtain ⟨chosen, hsub, hchosen, heq⟩ := @ih (availablePeers.erase peerId)
        (insert peerId selectedPeers) (by omega) (hnodup.erase peerId) (by
          intro other hother
          obtain ⟨hne, hotherMem⟩ := hnodup.mem_erase_iff.1 hother
          simp [hne, hdisjoint other hotherMem]) (by omega)
      rw [toFinset_erase hnodup] at hsub
      have hnot : peerId ∉ chosen := fun h ↦ Finset.notMem_erase peerId _ (hsub h)
      refine ⟨insert peerId chosen, ?_, ?_, ?_⟩
      · exact Finset.insert_subset (List.mem_toFinset.2 hmem)
          (hsub.trans (Finset.erase_subset _ _))
      · rw [Finset.card_insert_of_notMem hnot, hchosen, hcard, hlength]
        omega
      · rw [heq, Finset.insert_union, Finset.union_insert]
    · refine ⟨∅, Finset.empty_subset _, by simp [hfull], ?_⟩
      rw [selectPeers, if_neg (by omega), Finset.union_empty]

/-- With room for all of them, every peer is selected. -/
theorem selectPeers_eq (draws : ℕ → ℕ) {k remaining : ℕ} {availablePeers : List String}
    {selectedPeers : Finset String} (hremaining : remaining = availablePeers.length)
    (hnodup : availablePeers.Nodup) (hdisjoint : ∀ peerId ∈ availablePeers, peerId ∉ selectedPeers)
    (hroom : selectedPeers.card + availablePeers.length ≤ k) :
    selectPeers draws k remaining availablePeers selectedPeers =
      selectedPeers ∪ availablePeers.toFinset := by
  obtain ⟨chosen, hsub, hcard, heq⟩ := selectPeers_spec draws hremaining hnodup hdisjoint
    ((Nat.le_add_right _ _).trans hroom)
  have hall : chosen = availablePeers.toFinset := by
    refine Finset.eq_of_subset_of_card_le hsub ?_
    rw [List.toFinset_card_of_nodup hnodup]
    omega
  rw [heq, hall]

section Forward

variable (pool : ConnectionPool) (now : ℕ) (draws : ℕ → ℕ) (engine : GossipEngine)
  (message : P2PMessage) (fromPeerId : Option String)

theorem mem_eligiblePeers {router : Router} {peerId : String} :
    peerId ∈ eligiblePeers pool now router message fromPeerId ↔
      (peerId ∈ pool.getAllPeerIds ∧ (message.topic ≠ "" ∧ message.topic ≠ "global" →
        peerId ∈ router.getPeersForTopic message.topic now)) ∧
      peerId ≠ message.sender ∧ fromPeerId ≠ some peerId := by
  unfold eligiblePeers
  dsimp only
  split
  · rename_i htopic
    simp only [List.mem_filter, decide_eq_true_eq, List.mem_cons, Option.mem_toList,
      not_or, htopic, ne_eq, not_false_eq_true, and_self, forall_const]
  · rename_i htopic
    simp only [List.mem_filter, decide_eq_true_eq, List.mem_cons, Option.mem_toList,
      not_or, htopic, ne_eq, IsEmpty.forall_iff, and_true]

theorem nodup_eligiblePeers (router : Router) :
    (eligiblePeers pool now router message fromPeerId).Nodup := by
  unfold eligiblePeers
  dsimp only
  split
  · exact (pool.nodup_getAllPeerIds.filter _).filter _
  · exact pool.nodup_getAllPeerIds.filter _

/-- If there are no more of them than `GOSSIP_FANOUT`, all eligible peers get the message, over all
connections to them. -/
theorem forwardMessage_eligible
    (hroom : (eligiblePeers pool now engine.topicRouter message fromPeerId).length ≤
      Config.GOSSIP_FANOUT)
    {peerId : String}
    (hmem : peerId ∈ eligiblePeers pool now engine.topicRouter message fromPeerId) :
    ∃ excluded, (engine.forwardMessage pool now draws message fromPeerId).2 =
      [.broadcast message excluded] ∧ ∀ connection ∈ pool.connectionsOf peerId,
        connection ∈ pool.broadcast excluded := by
  have hselected := selectPeers_eq draws rfl
    (nodup_eligiblePeers pool now message fromPeerId engine.topicRouter)
    (fun other _ ↦ Finset.notMem_empty other)
    (by rw [Finset.card_empty, Nat.zero_add, Nat.min_eq_right hroom] :
      (∅ : Finset String).card +
        (eligiblePeers pool now engine.topicRouter message fromPeerId).length ≤
      min Config.GOSSIP_FANOUT
        (eligiblePeers pool now engine.topicRouter message fromPeerId).length)
  rw [Finset.empty_union] at hselected
  unfold forwardMessage
  dsimp only
  rw [hselected, if_neg ?_]
  · refine ⟨_, rfl, fun connection hconnection ↦ ?_⟩
    apply ConnectionPool.mem_broadcast.2
    refine ⟨peerId, ?_, hconnection⟩
    simp [hmem]
  · rw [Finset.card_eq_zero]
    intro hempty
    rw [List.toFinset_eq_empty_iff] at hempty
    rw [hempty] at hmem
    cases hmem

/-- An accepted message that is no advertisement is forwarded while it has hops to live, and
announced. -/
theorem receiveMessage_of_accepts (platform : Platform)
    (haccepts : engine.Accepts platform now message fromPeerId) (htype : message.type ≠ .subAd) :
    (engine.receiveMessage platform pool now draws message fromPeerId).2 =
      (if 0 < message.ttl - 1 then
        (({ engine.clocked platform now message fromPeerId with
          seenMessages := insert message.id engine.seenMessages }).forwardMessage pool now draws
            { message with ttl := message.ttl - 1 } fromPeerId).2
      else []) ++ [.messageNew { message with ttl := message.ttl - 1 }] := by
  rw [receiveMessage, engine.screen_of_accepts platform now message fromPeerId haccepts]
  dsimp only
  rw [if_neg htype, processGossip]
  dsimp only
  split
  · rfl
  · rfl

end Forward

end GossipEngine

end P2PApp
