import P2PApp.Library.OrderedMap
import Mathlib.Data.List.Sort
import Mathlib.Order.Basic

/-!
# Finite maps sorted by key

A key-value store whose iterators visit the entries by increasing key. The entries are kept
strictly sorted, which is a field of the structure, so a key has one value and a range scan is a
sublist of the entries.
-/

namespace P2PApp

/-- Entries with strictly increasing keys. -/
structure SortedMap (κ ν : Type*) [LinearOrder κ] where
  entries : List (κ × ν)
  sorted : entries.Pairwise fun first later ↦ first.1 < later.1

namespace SortedMap

variable {κ ν : Type*} [LinearOrder κ]

instance : EmptyCollection (SortedMap κ ν) := ⟨⟨[], .nil⟩⟩

@[simp] theorem entries_empty : (∅ : SortedMap κ ν).entries = [] := rfl

/-- Bind `key`, replacing what it was bound to. -/
def put (m : SortedMap κ ν) (key : κ) (value : ν) : SortedMap κ ν where
  entries := (m.entries.filter fun entry ↦ entry.1 < key) ++
    (key, value) :: m.entries.filter fun entry ↦ key < entry.1
  sorted := by
    rw [List.pairwise_append, List.pairwise_cons]
    refine ⟨m.sorted.filter _, ⟨?_, m.sorted.filter _⟩, ?_⟩
    · intro later hlater
      simpa using (List.mem_filter.1 hlater).2
    · intro first hfirst later hlater
      have hlow : first.1 < key := by simpa using (List.mem_filter.1 hfirst).2
      rcases List.mem_cons.1 hlater with rfl | hhigh
      · exact hlow
      · have hhigh : key < later.1 := by simpa using (List.mem_filter.1 hhigh).2
        exact hlow.trans hhigh

/-- The entries with keys from `low` to `high`, both included, in order. -/
def range (m : SortedMap κ ν) (low high : κ) : List (κ × ν) :=
  m.entries.filter fun entry ↦ low ≤ entry.1 ∧ entry.1 ≤ high

theorem mem_entries_put {m : SortedMap κ ν} {key : κ} {value : ν} {entry : κ × ν} :
    entry ∈ (m.put key value).entries ↔
      entry = (key, value) ∨ (entry ∈ m.entries ∧ entry.1 ≠ key) := by
  simp only [put, List.mem_append, List.mem_cons, List.mem_filter, decide_eq_true_eq]
  constructor
  · intro h
    rcases h with ⟨hmem, hlow⟩ | rfl | ⟨hmem, hhigh⟩
    · exact .inr ⟨hmem, hlow.ne⟩
    · exact .inl rfl
    · exact .inr ⟨hmem, hhigh.ne'⟩
  · intro h
    rcases h with rfl | ⟨hmem, hne⟩
    · exact .inr (.inl rfl)
    · rcases lt_or_gt_of_ne hne with hlow | hhigh
      · exact .inl ⟨hmem, hlow⟩
      · exact .inr (.inr ⟨hmem, hhigh⟩)

theorem mem_range {m : SortedMap κ ν} {low high : κ} {entry : κ × ν} :
    entry ∈ m.range low high ↔ entry ∈ m.entries ∧ low ≤ entry.1 ∧ entry.1 ≤ high := by
  simp [range]

theorem put_foldl_keeps {m : SortedMap κ ν} {key : κ} (writes : List (κ × ν))
    (h : ∃ value, (key, value) ∈ m.entries) :
    ∃ value, (key, value) ∈ (writes.foldl (fun db write ↦ db.put write.1 write.2) m).entries := by
  induction writes generalizing m with
  | nil => exact h
  | cons write rest ih =>
    apply ih
    obtain ⟨value, hmem⟩ := h
    by_cases hkey : key = write.1
    · exact ⟨write.2, mem_entries_put.2 (.inl (by rw [hkey]))⟩
    · exact ⟨value, mem_entries_put.2 (.inr ⟨hmem, hkey⟩)⟩

/-- Every key that is written is bound afterwards. -/
theorem put_foldl_binds {m : SortedMap κ ν} {write : κ × ν} {writes : List (κ × ν)}
    (h : write ∈ writes) :
    ∃ value, (write.1, value) ∈
      (writes.foldl (fun db write ↦ db.put write.1 write.2) m).entries := by
  induction writes generalizing m with
  | nil => cases h
  | cons first rest ih =>
    rcases List.mem_cons.1 h with rfl | hrest
    · exact put_foldl_keeps rest ⟨write.2, mem_entries_put.2 (.inl rfl)⟩
    · exact ih hrest

/-- No entry comes from anywhere but the map and the writes. -/
theorem mem_put_foldl {m : SortedMap κ ν} {entry : κ × ν} {writes : List (κ × ν)}
    (h : entry ∈ (writes.foldl (fun db write ↦ db.put write.1 write.2) m).entries) :
    entry ∈ m.entries ∨ entry ∈ writes := by
  induction writes generalizing m with
  | nil => exact .inl h
  | cons first rest ih =>
    rcases ih h with hput | hrest
    · rcases mem_entries_put.1 hput with rfl | ⟨hold, _⟩
      · exact .inr List.mem_cons_self
      · exact .inl hold
    · exact .inr (List.mem_cons_of_mem _ hrest)

def get? (m : SortedMap κ ν) (key : κ) : Option ν := m.entries.lookup key

theorem get?_eq_some_iff {m : SortedMap κ ν} {key : κ} {value : ν} :
    m.get? key = some value ↔ (key, value) ∈ m.entries := by
  apply OrderedMap.lookup_eq_some_iff
  rw [List.Nodup, List.pairwise_map]
  exact m.sorted.imp ne_of_lt

/-- Unbind `key`. -/
def erase (m : SortedMap κ ν) (key : κ) : SortedMap κ ν where
  entries := m.entries.filter fun entry ↦ entry.1 ≠ key
  sorted := m.sorted.filter _

theorem mem_entries_erase {m : SortedMap κ ν} {key : κ} {entry : κ × ν} :
    entry ∈ (m.erase key).entries ↔ entry ∈ m.entries ∧ entry.1 ≠ key := by
  simp [erase]

/-- A map is bound to what its entries say. -/
theorem get?_congr {m : SortedMap κ ν} {key : κ} {value : Option ν}
    (h : ∀ bound, (key, bound) ∈ m.entries ↔ value = some bound) : m.get? key = value := by
  ext bound
  rw [get?_eq_some_iff, h]

theorem get?_put (m : SortedMap κ ν) (key : κ) (value : ν) (other : κ) :
    (m.put key value).get? other = if other = key then some value else m.get? other := by
  apply get?_congr
  intro bound
  rw [mem_entries_put]
  split
  · rename_i hkey
    simp [hkey, eq_comm]
  · rename_i hkey
    simp [hkey, get?_eq_some_iff]

theorem get?_erase (m : SortedMap κ ν) (key other : κ) :
    (m.erase key).get? other = if other = key then none else m.get? other := by
  apply get?_congr
  intro bound
  rw [mem_entries_erase]
  split
  · rename_i hkey
    simp [hkey]
  · rename_i hkey
    simp [hkey, get?_eq_some_iff]

@[simp] theorem get?_empty (key : κ) : (∅ : SortedMap κ ν).get? key = none := rfl

/-- Maps with the same entries are equal. -/
theorem eq_of_mem_iff {m m' : SortedMap κ ν} (h : ∀ entry, entry ∈ m.entries ↔ entry ∈ m'.entries) :
    m = m' := by
  have : Std.Irrefl fun first later : κ × ν ↦ first.1 < later.1 := ⟨fun entry ↦ lt_irrefl entry.1⟩
  have : Std.Antisymm fun first later : κ × ν ↦ first.1 < later.1 :=
    ⟨fun _ _ hfirst hlater ↦ absurd hfirst hlater.asymm⟩
  have hentries : m.entries = m'.entries := m.sorted.eq_of_mem_iff m'.sorted h
  cases m
  cases m'
  cases hentries
  rfl

/-- Change the values and keep the keys. -/
def mapValues {ν' : Type*} (change : ν → ν') (m : SortedMap κ ν) : SortedMap κ ν' where
  entries := m.entries.map fun entry ↦ (entry.1, change entry.2)
  sorted := List.pairwise_map.2 m.sorted

theorem range_mapValues {ν' : Type*} (change : ν → ν') (m : SortedMap κ ν) (low high : κ) :
    (m.mapValues change).range low high =
      (m.range low high).map fun entry ↦ (entry.1, change entry.2) := by
  rw [range, mapValues, List.filter_map]
  rfl

end SortedMap

end P2PApp
