import Mathlib.Data.Finset.Card
import Mathlib.Data.Finset.Dedup
import Mathlib.Data.List.Infix

/-!
# Eviction in bursts

A cache of distinct items in the order of their insertion. When an insertion makes it larger than
`capacity`, the oldest `burst` items go at once. An item that is there already keeps its place. The
cache is a suffix of the history of the insertions, and an item that was evicted is followed in that
history by at least `capacity + 1 - burst` others.
-/

namespace P2PApp.BurstEviction

variable {α : Type*} [DecidableEq α] (capacity burst : ℕ)

/-- What an addition inserts. -/
def fresh (cache : List α) (item : α) : List α := if item ∈ cache then [] else [item]

/-- The cache after `item` was added. -/
def add (cache : List α) (item : α) : List α :=
  let added := cache ++ fresh cache item
  if capacity < added.length then added.drop burst else added

/-- What adding `items` inserts, in the order of the insertions. -/
def inserted : List α → List α → List α
  | _, [] => []
  | cache, item :: items => fresh cache item ++ inserted (add capacity burst cache item) items

/-- What a cache satisfies, given the history of its insertions. -/
structure Recent (cache history : List α) : Prop where
  nodup : cache.Nodup
  length_le : cache.length ≤ capacity
  suffix : cache <:+ history

variable {capacity burst} {cache history : List α}

omit [DecidableEq α] in
theorem recent_nil : Recent capacity ([] : List α) [] where
  nodup := List.nodup_nil
  length_le := Nat.zero_le _
  suffix := List.suffix_refl _

theorem fresh_of_mem {item : α} (h : item ∈ cache) : fresh cache item = [] := if_pos h

theorem fresh_of_not_mem {item : α} (h : item ∉ cache) : fresh cache item = [item] := if_neg h

theorem length_fresh_le (cache : List α) (item : α) : (fresh cache item).length ≤ 1 := by
  unfold fresh
  split <;> simp

theorem add_suffix (cache : List α) (item : α) :
    add capacity burst cache item <:+ cache ++ fresh cache item := by
  rw [add]
  split
  · exact List.drop_suffix _ _
  · exact List.suffix_refl _

theorem Recent.nodup_append (h : Recent capacity cache history) (item : α) :
    (cache ++ fresh cache item).Nodup := by
  by_cases hitem : item ∈ cache
  · rw [fresh_of_mem hitem, List.append_nil]
    exact h.nodup
  · rw [fresh_of_not_mem hitem]
    rw [← List.concat_eq_append]
    exact h.nodup.concat hitem

/-- The step lemma: the cache stays what was inserted last. -/
theorem Recent.step (h : Recent capacity cache history) (hburst : 0 < burst) (item : α) :
    Recent capacity (add capacity burst cache item) (history ++ fresh cache item) where
  nodup := (h.nodup_append item).sublist (add_suffix cache item).sublist
  length_le := by
    have hlength := h.length_le
    have hone := length_fresh_le cache item
    rw [add]
    split
    · rw [List.length_drop, List.length_append]
      omega
    · omega
  suffix := by
    obtain ⟨earlier, rfl⟩ := h.suffix
    rw [List.append_assoc]
    exact (add_suffix cache item).trans (List.suffix_append _ _)

/-- The run lemma. -/
theorem Recent.foldl (h : Recent capacity cache history) (hburst : 0 < burst) (items : List α) :
    Recent capacity (items.foldl (add capacity burst) cache)
      (history ++ inserted capacity burst cache items) := by
  induction items generalizing cache history with
  | nil => rwa [inserted, List.append_nil]
  | cons item items ih =>
    rw [inserted, ← List.append_assoc]
    exact ih (h.step hburst item)

omit [DecidableEq α] in
theorem suffix_of_not_mem {item : α} {recent earlier rest : List α}
    (h : recent <:+ earlier ++ item :: rest) (hitem : item ∉ recent) : recent <:+ rest := by
  rcases List.suffix_or_suffix_of_suffix h (List.suffix_append earlier _) with hshort | hlong
  · rcases List.suffix_cons_iff.1 hshort with heq | hrest
    · exact absurd (heq ▸ List.mem_cons_self) hitem
    · exact hrest
  · exact absurd (hlong.subset List.mem_cons_self) hitem

/-- An eviction leaves behind only items that were inserted after those it evicts. -/
theorem Recent.le_card_of_evicted (h : Recent capacity cache history) (hburst : 0 < burst)
    {item other : α} {earlier rest : List α}
    (hhistory : history ++ fresh cache other = earlier ++ item :: rest)
    (hbefore : item ∈ cache ++ fresh cache other) (hafter : item ∉ add capacity burst cache other) :
    capacity + 1 - burst ≤ (rest.toFinset.erase item).card := by
  have hnext := h.step hburst other
  have hrecent : add capacity burst cache other <:+ rest :=
    suffix_of_not_mem (hhistory ▸ hnext.suffix) hafter
  have hlength : (add capacity burst cache other).length = capacity + 1 - burst := by
    have hcache := h.length_le
    have hone := length_fresh_le cache other
    rw [add] at hafter ⊢
    split at hafter
    · next hfull =>
      rw [if_pos hfull, List.length_drop]
      rw [List.length_append] at hfull ⊢
      omega
    · exact absurd hbefore hafter
  have hsubset : (add capacity burst cache other).toFinset ⊆ rest.toFinset.erase item := by
    intro kept hkept
    rw [List.mem_toFinset] at hkept
    refine Finset.mem_erase.2 ⟨?_, List.mem_toFinset.2 (hrecent.subset hkept)⟩
    rintro rfl
    exact hafter hkept
  calc
    capacity + 1 - burst = (add capacity burst cache other).toFinset.card := by
      rw [List.toFinset_card_of_nodup hnext.nodup, hlength]
    _ ≤ (rest.toFinset.erase item).card := Finset.card_le_card hsubset

/-- An item is there, or enough others were inserted after it. -/
def Retained (capacity burst : ℕ) (item : α) (cache rest : List α) : Prop :=
  item ∈ cache ∨ capacity + 1 - burst ≤ (rest.toFinset.erase item).card

theorem Recent.retained_add (h : Recent capacity cache history) (hburst : 0 < burst)
    {item : α} {earlier rest : List α} (hhistory : history = earlier ++ item :: rest)
    (hretained : Retained capacity burst item cache rest) (other : α) :
    Retained capacity burst item (add capacity burst cache other) (rest ++ fresh cache other) := by
  rcases hretained with hmem | hcard
  · by_cases hafter : item ∈ add capacity burst cache other
    · exact .inl hafter
    · have hlonger : history ++ fresh cache other =
          earlier ++ item :: (rest ++ fresh cache other) := by
        rw [hhistory, List.append_assoc, List.cons_append]
      exact .inr (h.le_card_of_evicted hburst hlonger (List.mem_append_left _ hmem) hafter)
  · refine .inr (hcard.trans (Finset.card_le_card (Finset.erase_subset_erase item ?_)))
    rw [List.toFinset_append]
    exact Finset.subset_union_left

theorem Recent.retained_foldl (h : Recent capacity cache history) (hburst : 0 < burst)
    {item : α} {earlier rest : List α} (hhistory : history = earlier ++ item :: rest)
    (hretained : Retained capacity burst item cache rest) (items : List α) :
    Retained capacity burst item (items.foldl (add capacity burst) cache)
      (rest ++ inserted capacity burst cache items) := by
  induction items generalizing cache history rest with
  | nil => rwa [inserted, List.append_nil]
  | cons other items ih =>
    rw [inserted, ← List.append_assoc]
    refine ih (h.step hburst other) ?_ (h.retained_add hburst hhistory hretained other)
    rw [hhistory, List.append_assoc, List.cons_append]

/-- An item that was inserted and is no longer there was followed by enough others. -/
theorem Recent.le_card_of_forgotten (h : Recent capacity cache history) (hburst : 0 < burst)
    {item : α} {items : List α} (hfresh : item ∉ cache)
    (hgone : item ∉ items.foldl (add capacity burst)
      (add capacity burst cache item)) :
    capacity + 1 - burst ≤
      ((inserted capacity burst (add capacity burst cache item) items).toFinset.erase
        item).card := by
  have hhistory : history ++ fresh cache item = history ++ item :: [] := by
    rw [fresh_of_not_mem hfresh]
  have hinitial : Retained capacity burst item (add capacity burst cache item) [] := by
    by_cases hafter : item ∈ add capacity burst cache item
    · exact .inl hafter
    · refine .inr (h.le_card_of_evicted hburst hhistory ?_ hafter)
      rw [fresh_of_not_mem hfresh]
      exact List.mem_append_right _ (List.mem_singleton_self item)
  exact ((h.step hburst item).retained_foldl hburst hhistory hinitial items).resolve_left hgone

end P2PApp.BurstEviction
