import Mathlib.Data.List.Sort

/-!
# Stable sorting by a key

A stable sort by a key reorders a list by increasing keys and keeps the order of the elements of
each key. Insertion sort does that.
-/

namespace P2PApp

variable {α κ : Type*} [LinearOrder κ]

/-- The same elements by increasing keys, those of one key in their order. -/
structure StablySorted (key : α → κ) (result original : List α) : Prop where
  perm : result.Perm original
  ordered : result.Pairwise fun first second ↦ key first ≤ key second
  stable : ∀ value, (result.filter fun item ↦ key item = value) =
    original.filter fun item ↦ key item = value

/-- What an element is inserted behind has smaller keys. -/
theorem filter_key_orderedInsert (key : α → κ) (value : κ) (item : α) (items : List α) :
    ((items.orderedInsert (fun first second ↦ key first ≤ key second) item).filter
        fun other ↦ key other = value) =
      (item :: items).filter fun other ↦ key other = value := by
  induction items with
  | nil => rfl
  | cons head items ih =>
    rw [List.orderedInsert_cons]
    by_cases hle : key item ≤ key head
    · rw [if_pos hle]
    · rw [if_neg hle, List.filter_cons, ih]
      by_cases hhead : key head = value
      · have hitem : key item ≠ value := fun heq ↦ hle (heq.trans hhead.symm).le
        simp [hhead, hitem]
      · simp [List.filter_cons, hhead]

theorem stablySorted_insertionSort (key : α → κ) (items : List α) :
    StablySorted key (items.insertionSort fun first second ↦ key first ≤ key second) items where
  perm := List.perm_insertionSort _ items
  ordered := by
    have htotal : Std.Total fun first second : α ↦ key first ≤ key second :=
      ⟨fun first second ↦ le_total (key first) (key second)⟩
    have htrans : IsTrans α fun first second ↦ key first ≤ key second :=
      ⟨fun _ _ _ ↦ le_trans⟩
    exact List.pairwise_insertionSort _ items
  stable value := by
    induction items with
    | nil => rfl
    | cons item items ih =>
      rw [List.insertionSort_cons, filter_key_orderedInsert, List.filter_cons, ih, List.filter_cons]

end P2PApp
