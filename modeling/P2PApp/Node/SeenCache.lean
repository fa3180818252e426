import P2PApp.Library.BurstEviction
import P2PApp.Library.LiveMap

/-!
# The cache of seen messages in the central state

`addSeenMessage` bounds a `Set` by deleting what its iterator yields first, while the iterator goes
on. The set loses its oldest insertions that way, many at once, and an id that is added again while
it is there does not become younger.
-/

namespace P2PApp.SeenCache

variable {Id : Type*} [DecidableEq Id]

/-- The part of the state that is about messages; a `Set` maps its elements to nothing. -/
structure State (Id : Type*) where
  seenMessages : LiveMap Id Unit
  MAX_SEEN_MESSAGES : ℕ
  CLEANUP_COUNT : ℕ

namespace State

def new : State Id := ⟨∅, 10000, 1000⟩

/-- `count` turns of the loop, with an iterator that is at `index`. -/
def cleanup : ℕ → ℕ → LiveMap Id Unit → LiveMap Id Unit
  | 0, _, seenMessages => seenMessages
  | count + 1, index, seenMessages =>
    match seenMessages.next index with
    | some (entry, index) => cleanup count index (seenMessages.delete entry.1)
    -- no id is `undefined`, so that nothing is deleted
    | none => cleanup count index seenMessages

def addSeenMessage (state : State Id) (messageId : Id) : State Id :=
  let seenMessages := state.seenMessages.set messageId ()
  if state.MAX_SEEN_MESSAGES < seenMessages.size then
    { state with seenMessages := cleanup state.CLEANUP_COUNT 0 seenMessages }
  else { state with seenMessages }

def hasSeenMessage (state : State Id) (messageId : Id) : Bool := state.seenMessages.has messageId

/-- The ids in the cache, in the order of their insertion. -/
def ids (state : State Id) : List Id := state.seenMessages.contents.keys

theorem hasSeenMessage_iff {state : State Id} {messageId : Id} :
    state.hasSeenMessage messageId = true ↔ messageId ∈ state.ids := OrderedMap.has_iff_mem_keys

/-- The loop deletes the first entries, since its iterator has only holes behind it. -/
theorem entries_cleanup (count : ℕ) {seenMessages : LiveMap Id Unit}
    {before after : List (Option (Id × Unit))} (hslots : seenMessages.slots = before ++ after)
    (hholes : before.reduceOption = []) :
    (cleanup count before.length seenMessages).contents.entries =
      seenMessages.contents.entries.drop count := by
  induction count generalizing seenMessages before after with
  | zero => rfl
  | succ count ih =>
    rw [cleanup]
    cases hnext : seenMessages.next before.length with
    | none =>
      have hempty : seenMessages.contents.entries = [] := by
        rw [LiveMap.next, hslots, List.drop_left] at hnext
        rw [LiveMap.entries_contents, hslots, List.reduceOption_append, hholes,
          LiveMap.firstEntry_eq_none hnext]
        rfl
      refine (ih hslots hholes).trans ?_
      rw [hempty, List.drop_nil, List.drop_nil]
    | some found =>
      obtain ⟨entry, index⟩ := found
      obtain ⟨before', after', hslots', hholes', rfl, hentries⟩ :=
        LiveMap.next_eq_some hslots hholes hnext
      refine (ih hslots' hholes').trans ?_
      rw [LiveMap.entries_contents, hslots', List.reduceOption_append, hholes', hentries,
        List.drop_succ_cons, List.nil_append]

theorem keys_set_unit (m : LiveMap Id Unit) (messageId : Id) :
    (m.set messageId ()).contents.keys =
      m.contents.keys ++ BurstEviction.fresh m.contents.keys messageId := by
  rw [LiveMap.contents_set]
  by_cases h : messageId ∈ m.contents.keys
  · rw [BurstEviction.fresh_of_mem h, List.append_nil, OrderedMap.keys,
      OrderedMap.entries_set_of_mem h, List.map_map]
    refine List.map_congr_left fun entry _ ↦ ?_
    by_cases hkey : entry.1 = messageId <;> simp [hkey]
  · rw [BurstEviction.fresh_of_not_mem h, OrderedMap.keys, OrderedMap.entries_set_of_not_mem h,
      List.map_append]
    rfl

theorem ids_addSeenMessage (state : State Id) (messageId : Id) :
    (state.addSeenMessage messageId).ids =
      BurstEviction.add state.MAX_SEEN_MESSAGES state.CLEANUP_COUNT state.ids messageId := by
  have hsize : (state.seenMessages.set messageId ()).size =
      (state.ids ++ BurstEviction.fresh state.ids messageId).length := by
    rw [ids, ← keys_set_unit, OrderedMap.keys, List.length_map]
    rfl
  rw [addSeenMessage, BurstEviction.add, ← hsize]
  split
  · have hentries := @entries_cleanup _ _ state.CLEANUP_COUNT
      (state.seenMessages.set messageId ()) [] _ rfl rfl
    calc
      _ = ((state.seenMessages.set messageId ()).contents.entries.drop
          state.CLEANUP_COUNT).map Prod.fst := congrArg (List.map Prod.fst) hentries
      _ = ((state.seenMessages.set messageId ()).contents.keys).drop state.CLEANUP_COUNT :=
        List.map_drop
      _ = _ := by rw [keys_set_unit]; rfl
  · exact keys_set_unit state.seenMessages messageId

@[simp] theorem MAX_SEEN_MESSAGES_addSeenMessage (state : State Id) (messageId : Id) :
    (state.addSeenMessage messageId).MAX_SEEN_MESSAGES = state.MAX_SEEN_MESSAGES := by
  rw [addSeenMessage]
  split <;> rfl

@[simp] theorem CLEANUP_COUNT_addSeenMessage (state : State Id) (messageId : Id) :
    (state.addSeenMessage messageId).CLEANUP_COUNT = state.CLEANUP_COUNT := by
  rw [addSeenMessage]
  split <;> rfl

/-- The ids for which the calls insert an entry, in their order. -/
def insertions : State Id → List Id → List Id
  | _, [] => []
  | state, messageId :: messageIds =>
    if state.hasSeenMessage messageId then insertions (state.addSeenMessage messageId) messageIds
    else messageId :: insertions (state.addSeenMessage messageId) messageIds

/-- The state simulates the cache that evicts in bursts. -/
theorem ids_foldl (state : State Id) (messageIds : List Id) :
    (messageIds.foldl addSeenMessage state).ids =
      messageIds.foldl (BurstEviction.add state.MAX_SEEN_MESSAGES state.CLEANUP_COUNT)
        state.ids := by
  induction messageIds generalizing state with
  | nil => rfl
  | cons messageId messageIds ih =>
    rw [List.foldl_cons, List.foldl_cons, ih, ids_addSeenMessage,
      MAX_SEEN_MESSAGES_addSeenMessage, CLEANUP_COUNT_addSeenMessage]

theorem insertions_eq (state : State Id) (messageIds : List Id) :
    insertions state messageIds =
      BurstEviction.inserted state.MAX_SEEN_MESSAGES state.CLEANUP_COUNT state.ids
        messageIds := by
  induction messageIds generalizing state with
  | nil => rfl
  | cons messageId messageIds ih =>
    rw [insertions, BurstEviction.inserted, ← ids_addSeenMessage, ih,
      MAX_SEEN_MESSAGES_addSeenMessage, CLEANUP_COUNT_addSeenMessage]
    by_cases h : messageId ∈ state.ids
    · rw [if_pos (hasSeenMessage_iff.2 h), BurstEviction.fresh_of_mem h, List.nil_append]
    · rw [if_neg fun hseen ↦ h (hasSeenMessage_iff.1 hseen), BurstEviction.fresh_of_not_mem h,
        List.singleton_append]

theorem recent_foldl (messageIds : List Id) :
    BurstEviction.Recent (new : State Id).MAX_SEEN_MESSAGES
      (messageIds.foldl addSeenMessage new).ids (insertions new messageIds) := by
  rw [ids_foldl, insertions_eq]
  exact BurstEviction.recent_nil.foldl (Nat.succ_pos 999) messageIds

/-- An id that was inserted and is reported unseen was followed by other insertions. -/
theorem le_card_insertions {state : State Id} {history : List Id}
    (h : BurstEviction.Recent state.MAX_SEEN_MESSAGES state.ids history)
    (hcount : 0 < state.CLEANUP_COUNT) {messageId : Id} {after : List Id}
    (hfresh : state.hasSeenMessage messageId = false)
    (hgone : (after.foldl addSeenMessage (state.addSeenMessage messageId)).hasSeenMessage
      messageId = false) :
    state.MAX_SEEN_MESSAGES + 1 - state.CLEANUP_COUNT ≤
      ((insertions (state.addSeenMessage messageId) after).toFinset.erase messageId).card := by
  have hnew : messageId ∉ state.ids := fun hmem ↦
    Bool.false_ne_true (hfresh.symm.trans (hasSeenMessage_iff.2 hmem))
  have hold : messageId ∉ (after.foldl addSeenMessage (state.addSeenMessage messageId)).ids :=
    fun hmem ↦ Bool.false_ne_true (hgone.symm.trans (hasSeenMessage_iff.2 hmem))
  rw [ids_foldl, ids_addSeenMessage, MAX_SEEN_MESSAGES_addSeenMessage,
    CLEANUP_COUNT_addSeenMessage] at hold
  rw [insertions_eq, ids_addSeenMessage, MAX_SEEN_MESSAGES_addSeenMessage,
    CLEANUP_COUNT_addSeenMessage]
  exact h.le_card_of_forgotten hcount hnew hold

theorem constants_foldl (state : State Id) (messageIds : List Id) :
    (messageIds.foldl addSeenMessage state).MAX_SEEN_MESSAGES = state.MAX_SEEN_MESSAGES ∧
      (messageIds.foldl addSeenMessage state).CLEANUP_COUNT = state.CLEANUP_COUNT := by
  induction messageIds generalizing state with
  | nil => exact ⟨rfl, rfl⟩
  | cons messageId messageIds ih =>
    obtain ⟨hmax, hcount⟩ := ih (state.addSeenMessage messageId)
    exact ⟨hmax.trans (state.MAX_SEEN_MESSAGES_addSeenMessage messageId),
      hcount.trans (state.CLEANUP_COUNT_addSeenMessage messageId)⟩

/-- However often ids are added again, the cache stays within its bound and holds the last of its
insertions. An id that was inserted is forgotten only behind so many others. -/
theorem seenMessages_forgets_oldest (messageIds before after : List Id) (messageId : Id) :
    (messageIds.foldl addSeenMessage new).seenMessages.size ≤
      (new : State Id).MAX_SEEN_MESSAGES ∧
    (messageIds.foldl addSeenMessage new).ids <:+ insertions new messageIds ∧
    ((before.foldl addSeenMessage new).hasSeenMessage messageId = false →
      ((before ++ messageId :: after).foldl addSeenMessage new).hasSeenMessage messageId = false →
      (new : State Id).MAX_SEEN_MESSAGES - (new : State Id).CLEANUP_COUNT + 1 ≤
        ((insertions ((before ++ [messageId]).foldl addSeenMessage new) after).toFinset.erase
          messageId).card) := by
  have hrecent := recent_foldl messageIds
  refine ⟨?_, hrecent.suffix, fun hfresh hgone ↦ ?_⟩
  · have hlength := hrecent.length_le
    rw [ids, OrderedMap.keys, List.length_map] at hlength
    exact hlength
  · obtain ⟨hmax, hcount⟩ := constants_foldl (new : State Id) before
    have hbefore := recent_foldl before
    rw [← hmax] at hbefore
    have hpositive : 0 < (before.foldl addSeenMessage (new : State Id)).CLEANUP_COUNT := by
      rw [hcount]
      exact Nat.succ_pos 999
    rw [List.foldl_append, List.foldl_cons] at hgone
    have hcard := le_card_insertions hbefore hpositive hfresh hgone
    rw [hmax, hcount] at hcard
    rw [List.foldl_append, List.foldl_cons, List.foldl_nil]
    exact (Nat.sub_add_comm (by decide : 1000 ≤ 10000)).symm.trans_le hcard

end State

end P2PApp.SeenCache
