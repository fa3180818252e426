import Mathlib.Data.List.Nodup
import Mathlib.Data.List.Lookmap

/-!
# Insertion-ordered finite maps

A finite map that remembers the order in which its keys were first inserted. Setting a present
key keeps its position, setting an absent one appends it, and iteration visits the entries in
that order. The absence of duplicate keys is a field of the structure, so the lookup laws hold
for every value of the type and no operation needs a well-formedness premise.
-/

namespace P2PApp

/-- Entries in insertion order, with pairwise distinct keys. -/
structure OrderedMap (κ ν : Type*) where
  entries : List (κ × ν)
  nodup : (entries.map Prod.fst).Nodup

namespace OrderedMap

variable {κ ν : Type*}

instance : EmptyCollection (OrderedMap κ ν) := ⟨⟨[], List.nodup_nil⟩⟩

instance : Inhabited (OrderedMap κ ν) := ⟨∅⟩

def keys (m : OrderedMap κ ν) : List κ := m.entries.map Prod.fst

def values (m : OrderedMap κ ν) : List ν := m.entries.map Prod.snd

def size (m : OrderedMap κ ν) : ℕ := m.entries.length

theorem nodup_keys (m : OrderedMap κ ν) : m.keys.Nodup := m.nodup

/-- Keep the entries that satisfy `p`, in their order. -/
def filter (p : κ → ν → Bool) (m : OrderedMap κ ν) : OrderedMap κ ν where
  entries := m.entries.filter fun entry ↦ p entry.1 entry.2
  nodup := m.nodup.sublist (List.filter_sublist.map Prod.fst)

/-- Replace every value, in place. -/
def mapValues {ν' : Type*} (f : κ → ν → ν') (m : OrderedMap κ ν) : OrderedMap κ ν' where
  entries := m.entries.map fun entry ↦ (entry.1, f entry.1 entry.2)
  nodup := by
    have h : (m.entries.map fun entry ↦ (entry.1, f entry.1 entry.2)).map Prod.fst =
        m.entries.map Prod.fst := by simp [Function.comp_def]
    rw [h]
    exact m.nodup

@[simp] theorem entries_empty : (∅ : OrderedMap κ ν).entries = [] := rfl

@[simp] theorem keys_empty : (∅ : OrderedMap κ ν).keys = [] := rfl

@[simp] theorem keys_mapValues {ν' : Type*} (f : κ → ν → ν') (m : OrderedMap κ ν) :
    (m.mapValues f).keys = m.keys := by
  simp [keys, mapValues, Function.comp_def]

theorem mem_keys_of_mem_entries {m : OrderedMap κ ν} {entry : κ × ν} (h : entry ∈ m.entries) :
    entry.1 ∈ m.keys := List.mem_map_of_mem h

variable [DecidableEq κ]

def get? (m : OrderedMap κ ν) (key : κ) : Option ν := m.entries.lookup key

def has (m : OrderedMap κ ν) (key : κ) : Bool := (m.get? key).isSome

/-- Overwrite the value at `key`, which keeps its position, or append a new entry. -/
def set (m : OrderedMap κ ν) (key : κ) (value : ν) : OrderedMap κ ν where
  entries :=
    if key ∈ m.keys then m.entries.map fun entry ↦ if entry.1 = key then (key, value) else entry
    else m.entries ++ [(key, value)]
  nodup := by
    split
    · have h : (m.entries.map fun entry ↦ if entry.1 = key then (key, value) else entry).map
          Prod.fst = m.entries.map Prod.fst := by
        rw [List.map_map]
        refine List.map_congr_left fun entry _ ↦ ?_
        by_cases hkey : entry.1 = key <;> simp [hkey]
      rw [h]
      exact m.nodup
    · rename_i hkey
      rw [List.map_append, List.nodup_append]
      refine ⟨m.nodup, by simp, ?_⟩
      intro other hother last hlast
      simp only [List.map_cons, List.map_nil, List.mem_singleton] at hlast
      subst hlast
      exact fun heq ↦ hkey (heq ▸ hother)

def erase (m : OrderedMap κ ν) (key : κ) : OrderedMap κ ν := m.filter fun other _ ↦ other ≠ key

/-! ## Lookup laws -/

theorem lookup_eq_some_iff {entries : List (κ × ν)} (hnodup : (entries.map Prod.fst).Nodup)
    {key : κ} {value : ν} : entries.lookup key = some value ↔ (key, value) ∈ entries := by
  induction entries with
  | nil => simp
  | cons entry entries ih =>
    obtain ⟨headKey, headValue⟩ := entry
    simp only [List.map_cons, List.nodup_cons] at hnodup
    by_cases h : key = headKey
    · subst h
      have hfresh : (key, value) ∉ entries := fun hmem ↦ hnodup.1 (List.mem_map_of_mem hmem)
      simp [hfresh, eq_comm]
    · have hbeq : (key == headKey) = false := by simpa using h
      simp [List.lookup_cons, hbeq, ih hnodup.2, h]

theorem get?_eq_some_iff {m : OrderedMap κ ν} {key : κ} {value : ν} :
    m.get? key = some value ↔ (key, value) ∈ m.entries := lookup_eq_some_iff m.nodup

theorem mem_keys_iff {m : OrderedMap κ ν} {key : κ} :
    key ∈ m.keys ↔ ∃ value, m.get? key = some value := by
  simp only [get?_eq_some_iff, keys, List.mem_map, Prod.exists, exists_and_right, exists_eq_right]

theorem get?_eq_none_iff {m : OrderedMap κ ν} {key : κ} : m.get? key = none ↔ key ∉ m.keys := by
  rw [mem_keys_iff, Option.eq_none_iff_forall_ne_some]
  simp

theorem has_iff_mem_keys {m : OrderedMap κ ν} {key : κ} : m.has key = true ↔ key ∈ m.keys := by
  rw [has, Option.isSome_iff_exists, mem_keys_iff]

@[simp] theorem get?_empty (key : κ) : (∅ : OrderedMap κ ν).get? key = none := rfl

theorem mem_entries_set {m : OrderedMap κ ν} {key : κ} {value : ν} {entry : κ × ν} :
    entry ∈ (m.set key value).entries ↔
      entry = (key, value) ∨ (entry ∈ m.entries ∧ entry.1 ≠ key) := by
  unfold set
  dsimp only
  split
  · rename_i hkey
    obtain ⟨⟨oldKey, old⟩, hold, hkey⟩ := List.mem_map.1 hkey
    simp only at hkey
    subst hkey
    simp only [List.mem_map]
    constructor
    · rintro ⟨other, hmem, hother⟩
      by_cases h : other.1 = oldKey
      · exact .inl (by simpa [h] using hother.symm)
      · rw [if_neg h] at hother
        exact .inr ⟨hother ▸ hmem, hother ▸ h⟩
    · rintro (rfl | ⟨hmem, hne⟩)
      · exact ⟨_, hold, by simp⟩
      · exact ⟨entry, hmem, by simp [hne]⟩
  · rename_i hkey
    have hne (h : entry ∈ m.entries) : entry.1 ≠ key :=
      fun heq ↦ hkey (heq ▸ mem_keys_of_mem_entries h)
    simp only [List.mem_append, List.mem_singleton]
    tauto

omit [DecidableEq κ] in
theorem mem_entries_filter {p : κ → ν → Bool} {m : OrderedMap κ ν} {entry : κ × ν} :
    entry ∈ (m.filter p).entries ↔ entry ∈ m.entries ∧ p entry.1 entry.2 = true := by
  simp [filter]

theorem get?_set (m : OrderedMap κ ν) (key other : κ) (value : ν) :
    (m.set key value).get? other = if other = key then some value else m.get? other := by
  ext found
  rw [get?_eq_some_iff, mem_entries_set]
  by_cases h : other = key
  · simp [h, eq_comm]
  · simp [h, get?_eq_some_iff]

@[simp] theorem get?_set_self (m : OrderedMap κ ν) (key : κ) (value : ν) :
    (m.set key value).get? key = some value := by simp [get?_set]

theorem get?_set_of_ne (m : OrderedMap κ ν) {key other : κ} (value : ν) (h : other ≠ key) :
    (m.set key value).get? other = m.get? other := by simp [get?_set, h]

theorem get?_filter (p : κ → ν → Bool) (m : OrderedMap κ ν) (key : κ) :
    (m.filter p).get? key = (m.get? key).filter (p key) := by
  ext found
  rw [get?_eq_some_iff, mem_entries_filter, Option.filter_eq_some_iff, get?_eq_some_iff]

theorem get?_mapValues {ν' : Type*} (f : κ → ν → ν') (m : OrderedMap κ ν) (key : κ) :
    (m.mapValues f).get? key = (m.get? key).map (f key) := by
  ext found
  rw [get?_eq_some_iff, Option.map_eq_some_iff]
  simp only [get?_eq_some_iff, mapValues, List.mem_map, Prod.mk.injEq, Prod.exists]
  constructor
  · rintro ⟨other, value, hmem, hkey, hfound⟩
    subst hkey
    exact ⟨value, hmem, hfound⟩
  · rintro ⟨value, hmem, hfound⟩
    exact ⟨key, value, hmem, rfl, hfound⟩

theorem get?_erase (m : OrderedMap κ ν) (key other : κ) :
    (m.erase key).get? other = if other = key then none else m.get? other := by
  rw [erase, get?_filter]
  by_cases h : other = key
  · cases hget : m.get? other <;> simp [h, Option.filter]
  · cases hget : m.get? other <;> simp [h, Option.filter]

@[simp] theorem get?_erase_self (m : OrderedMap κ ν) (key : κ) :
    (m.erase key).get? key = none := by simp [get?_erase]

theorem mem_keys_set {m : OrderedMap κ ν} {key other : κ} {value : ν} :
    other ∈ (m.set key value).keys ↔ other = key ∨ other ∈ m.keys := by
  simp only [mem_keys_iff, get?_set]
  by_cases h : other = key <;> simp [h]

theorem mem_keys_erase {m : OrderedMap κ ν} {key other : κ} :
    other ∈ (m.erase key).keys ↔ other ≠ key ∧ other ∈ m.keys := by
  simp only [mem_keys_iff, get?_erase]
  by_cases h : other = key <;> simp [h]

theorem size_eq_zero_iff {m : OrderedMap κ ν} : m.size = 0 ↔ ∀ key, m.get? key = none := by
  rw [size, List.length_eq_zero_iff]
  constructor
  · intro h key
    rw [get?_eq_none_iff, keys, h]
    simp
  · intro h
    rw [List.eq_nil_iff_forall_not_mem]
    intro entry hentry
    exact get?_eq_none_iff.1 (h entry.1) (mem_keys_of_mem_entries hentry)

/-! ## Entries -/

omit [DecidableEq κ] in
theorem eq_of_entries {m m' : OrderedMap κ ν} (h : m.entries = m'.entries) : m = m' := by
  cases m
  cases m'
  cases h
  rfl

theorem entries_set_of_mem {m : OrderedMap κ ν} {key : κ} (h : key ∈ m.keys) (value : ν) :
    (m.set key value).entries =
      m.entries.map fun entry ↦ if entry.1 = key then (key, value) else entry := if_pos h

theorem entries_set_of_not_mem {m : OrderedMap κ ν} {key : κ} (h : key ∉ m.keys) (value : ν) :
    (m.set key value).entries = m.entries ++ [(key, value)] := if_neg h

theorem entries_erase (m : OrderedMap κ ν) (key : κ) :
    (m.erase key).entries = m.entries.filter fun entry ↦ entry.1 ≠ key := rfl

omit [DecidableEq κ] in
theorem entries_filter (p : κ → ν → Bool) (m : OrderedMap κ ν) :
    (m.filter p).entries = m.entries.filter fun entry ↦ p entry.1 entry.2 := rfl

omit [DecidableEq κ] in
theorem entries_mapValues {ν' : Type*} (f : κ → ν → ν') (m : OrderedMap κ ν) :
    (m.mapValues f).entries = m.entries.map fun entry ↦ (entry.1, f entry.1 entry.2) := rfl

/-- Setting a key twice is setting it to the later value. -/
theorem set_set (m : OrderedMap κ ν) (key : κ) (first second : ν) :
    (m.set key first).set key second = m.set key second := by
  have hthere : key ∈ (m.set key first).keys := mem_keys_set.2 (.inl rfl)
  apply eq_of_entries
  rw [entries_set_of_mem hthere]
  by_cases h : key ∈ m.keys
  · rw [entries_set_of_mem h, entries_set_of_mem h, List.map_map]
    refine List.map_congr_left fun entry _ ↦ ?_
    by_cases hkey : entry.1 = key <;> simp [hkey]
  · rw [entries_set_of_not_mem h, entries_set_of_not_mem h, List.map_append]
    congr 1
    · refine (List.map_congr_left fun entry hentry ↦ if_neg fun heq ↦ h ?_).trans (List.map_id _)
      rw [← heq]
      exact mem_keys_of_mem_entries hentry
    · simp

/-- It does not matter what a key that is erased was set to. -/
theorem erase_set (m : OrderedMap κ ν) (key : κ) (value : ν) :
    (m.set key value).erase key = m.erase key := by
  apply eq_of_entries
  rw [entries_erase, entries_erase]
  by_cases h : key ∈ m.keys
  · rw [entries_set_of_mem h]
    induction m.entries with
    | nil => rfl
    | cons entry entries ih => by_cases hkey : entry.1 = key <;> simpa [hkey] using ih
  · rw [entries_set_of_not_mem h, List.filter_append]
    simp

theorem mapValues_set {ν' : Type*} (f : ν → ν') (m : OrderedMap κ ν) (key : κ) (value : ν) :
    (m.set key value).mapValues (fun _ ↦ f) = (m.mapValues fun _ ↦ f).set key (f value) := by
  apply eq_of_entries
  by_cases h : key ∈ m.keys
  · have h' : key ∈ (m.mapValues fun _ ↦ f).keys := by rwa [keys_mapValues]
    rw [entries_set_of_mem h', entries_mapValues, entries_mapValues, entries_set_of_mem h,
      List.map_map, List.map_map]
    refine List.map_congr_left fun entry _ ↦ ?_
    by_cases hkey : entry.1 = key <;> simp [hkey]
  · have h' : key ∉ (m.mapValues fun _ ↦ f).keys := by rwa [keys_mapValues]
    rw [entries_set_of_not_mem h', entries_mapValues, entries_mapValues,
      entries_set_of_not_mem h, List.map_append]
    rfl

theorem mapValues_erase {ν' : Type*} (f : ν → ν') (m : OrderedMap κ ν) (key : κ) :
    (m.erase key).mapValues (fun _ ↦ f) = (m.mapValues fun _ ↦ f).erase key := by
  apply eq_of_entries
  rw [entries_erase, entries_mapValues, entries_mapValues, entries_erase, List.filter_map]
  rfl

/-! ## Counting values -/

theorem values_set_of_not_mem {m : OrderedMap κ ν} {key : κ} (h : key ∉ m.keys) (value : ν) :
    (m.set key value).values = m.values ++ [value] := by
  rw [values, entries_set_of_not_mem h, List.map_append]
  rfl

/-- A value that is replaced is counted for what it was before, the other one from now on. -/
theorem countP_values_set {m : OrderedMap κ ν} {key : κ} {old : ν} (h : m.get? key = some old)
    (value : ν) (p : ν → Bool) :
    (m.set key value).values.countP p + [old].countP p =
      m.values.countP p + [value].countP p := by
  obtain ⟨before, after, hsplit⟩ := List.append_of_mem (get?_eq_some_iff.1 h)
  have hmem : key ∈ m.keys := mem_keys_iff.2 ⟨old, h⟩
  have hnodup := m.nodup
  rw [hsplit, List.map_append, List.map_cons, List.nodup_append, List.nodup_cons] at hnodup
  obtain ⟨-, ⟨hafter, -⟩, hbefore⟩ := hnodup
  have hkeep {entries : List (κ × ν)} (hfresh : key ∉ entries.map Prod.fst) :
      (entries.map fun entry ↦ if entry.1 = key then (key, value) else entry) = entries := by
    refine (List.map_congr_left fun entry hentry ↦ if_neg fun heq ↦ ?_).trans (List.map_id _)
    exact hfresh (heq ▸ List.mem_map_of_mem hentry)
  have hset : (m.set key value).entries = before ++ (key, value) :: after := by
    rw [entries_set_of_mem hmem, hsplit, List.map_append, List.map_cons, hkeep hafter,
      hkeep fun hin ↦ hbefore key hin key List.mem_cons_self rfl, if_pos rfl]
  rw [values, values, hset, hsplit]
  simp only [List.map_append, List.map_cons, List.countP_append, List.countP_cons, List.countP_nil]
  omega

end OrderedMap

end P2PApp
