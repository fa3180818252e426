import Mathlib.Data.List.ReduceOption
import P2PApp.Library.OrderedMap

/-!
# Maps that change while they are iterated

The entries of a `Map` or a `Set` stand in slots. A new entry takes the next slot, and a deleted one
leaves its slot empty. An iterator is an index into the slots that skips the empty ones, so that it
neither misses nor repeats an entry when entries are deleted under it. What the map holds is what
the slots hold, in their order.
-/

namespace P2PApp

/-- Slots with pairwise distinct keys. -/
structure LiveMap (κ ν : Type*) where
  slots : List (Option (κ × ν))
  nodup : (slots.reduceOption.map Prod.fst).Nodup

namespace LiveMap

variable {κ ν : Type*}

instance : EmptyCollection (LiveMap κ ν) := ⟨⟨[], List.nodup_nil⟩⟩

/-- What the slots hold. -/
def contents (m : LiveMap κ ν) : OrderedMap κ ν := ⟨m.slots.reduceOption, m.nodup⟩

@[simp] theorem contents_empty : (∅ : LiveMap κ ν).contents = ∅ := rfl

theorem entries_contents (m : LiveMap κ ν) : m.contents.entries = m.slots.reduceOption := rfl

theorem contents_eq {m : LiveMap κ ν} {map : OrderedMap κ ν}
    (h : m.slots.reduceOption = map.entries) : m.contents = map := OrderedMap.eq_of_entries h

def size (m : LiveMap κ ν) : ℕ := m.contents.size

theorem reduceOption_map_bind {α β : Type*} (f : α → Option β) (slots : List (Option α)) :
    (slots.map fun slot ↦ slot.bind f).reduceOption = slots.reduceOption.filterMap f := by
  simp only [List.reduceOption, List.filterMap_map, List.filterMap_filterMap]
  rfl

/-- Changing values and leaving entries out keeps the keys distinct. -/
theorem map_fst_filterMap_sublist {f : κ × ν → Option (κ × ν)}
    (hf : ∀ entry, ∀ entry' ∈ f entry, entry'.1 = entry.1) (entries : List (κ × ν)) :
    ((entries.filterMap f).map Prod.fst).Sublist (entries.map Prod.fst) := by
  induction entries with
  | nil => exact .slnil
  | cons entry entries ih =>
    rw [List.filterMap_cons, List.map_cons]
    cases h : f entry with
    | none => exact ih.cons _
    | some entry' =>
      rw [List.map_cons, hf entry entry' h]
      exact ih.cons_cons _

variable [DecidableEq κ]

def get? (m : LiveMap κ ν) (key : κ) : Option ν := m.contents.get? key

def has (m : LiveMap κ ν) (key : κ) : Bool := m.contents.has key

/-- The entry at `key`, if it is that one, with its value changed or left out. -/
def alterEntry (key : κ) (f : ν → Option ν) (entry : κ × ν) : Option (κ × ν) :=
  if entry.1 = key then (f entry.2).map fun value ↦ (entry.1, value) else some entry

theorem fst_of_mem_alterEntry {key : κ} {f : ν → Option ν} (entry : κ × ν) :
    ∀ entry' ∈ alterEntry key f entry, entry'.1 = entry.1 := by
  intro entry' h
  unfold alterEntry at h
  by_cases hkey : entry.1 = key
  · rw [if_pos hkey] at h
    obtain ⟨value, -, rfl⟩ := Option.map_eq_some_iff.1 h
    rfl
  · rw [if_neg hkey] at h
    exact congrArg Prod.fst (Option.some.inj h).symm

/-- Change the value at `key`, or empty its slot. -/
def alter (m : LiveMap κ ν) (key : κ) (f : ν → Option ν) : LiveMap κ ν where
  slots := m.slots.map fun slot ↦ slot.bind (alterEntry key f)
  nodup := by
    rw [reduceOption_map_bind]
    exact m.nodup.sublist (map_fst_filterMap_sublist fst_of_mem_alterEntry _)

def delete (m : LiveMap κ ν) (key : κ) : LiveMap κ ν := m.alter key fun _ ↦ none

/-- What a change of the value itself, through another reference, does to the map. -/
def modify (m : LiveMap κ ν) (key : κ) (f : ν → ν) : LiveMap κ ν :=
  m.alter key fun value ↦ some (f value)

/-- A new entry takes a slot of its own behind the others. -/
def append (m : LiveMap κ ν) (key : κ) (value : ν) (h : key ∉ m.contents.keys) : LiveMap κ ν where
  slots := m.slots ++ [some (key, value)]
  nodup := by
    rw [List.reduceOption_append, List.map_append, List.nodup_append]
    refine ⟨m.nodup, List.nodup_singleton _, fun other hother last hlast heq ↦ h ?_⟩
    have hlast : last = key := List.mem_singleton.1 hlast
    rw [← hlast, ← heq]
    exact hother

def set (m : LiveMap κ ν) (key : κ) (value : ν) : LiveMap κ ν :=
  if h : key ∈ m.contents.keys then m.modify key fun _ ↦ value else m.append key value h

@[simp] theorem contents_delete (m : LiveMap κ ν) (key : κ) :
    (m.delete key).contents = m.contents.erase key := by
  apply contents_eq
  rw [delete, alter, reduceOption_map_bind]
  refine Eq.trans ?_ (congrFun List.filterMap_eq_filter m.slots.reduceOption)
  apply List.filterMap_congr
  intro entry _
  by_cases h : entry.1 = key <;> simp [alterEntry, Option.guard, h]

@[simp] theorem contents_set (m : LiveMap κ ν) (key : κ) (value : ν) :
    (m.set key value).contents = m.contents.set key value := by
  apply contents_eq
  unfold set
  by_cases h : key ∈ m.contents.keys
  · rw [dif_pos h, OrderedMap.entries_set_of_mem h, modify, alter, reduceOption_map_bind,
      ← List.filterMap_eq_map]
    apply List.filterMap_congr
    intro entry _
    by_cases hkey : entry.1 = key <;> simp [alterEntry, hkey]
  · rw [dif_neg h, OrderedMap.entries_set_of_not_mem h, append, List.reduceOption_append]
    rfl

theorem get?_set_self (m : LiveMap κ ν) (key : κ) (value : ν) :
    (m.set key value).get? key = some value := by
  rw [get?, contents_set]
  exact OrderedMap.get?_set_self _ key value

theorem exists_split {α : Type*} {items : List α} {index : ℕ} {item : α}
    (h : items[index]? = some item) :
    ∃ before after, items = before ++ item :: after ∧ before.length = index := by
  obtain ⟨hlt, hitem⟩ := List.getElem?_eq_some_iff.1 h
  refine ⟨items.take index, items.drop (index + 1), ?_, List.length_take_of_le (Nat.le_of_lt hlt)⟩
  rw [← hitem, ← List.drop_eq_getElem_cons hlt, List.take_append_drop]

theorem set_split {α : Type*} (before after : List α) (item item' : α) :
    (before ++ item :: after).set before.length item' = before ++ item' :: after := by
  rw [List.set_append_right _ _ (Nat.le_refl _), Nat.sub_self, List.set_cons_zero]

theorem set_eq_self {α : Type*} {items : List α} {index : ℕ} {item : α}
    (h : items[index]? = some item) : items.set index item = items := by
  obtain ⟨before, after, rfl, rfl⟩ := exists_split h
  exact set_split before after item item

theorem getElem?_split {α : Type*} (before after : List α) (item : α) :
    (before ++ item :: after)[before.length]? = some item := by
  rw [List.getElem?_append_right (Nat.le_refl _), Nat.sub_self, List.getElem?_cons_zero]

theorem map_bind_alterEntry {key : κ} {f : ν → Option ν} {slots : List (Option (κ × ν))}
    (h : key ∉ slots.reduceOption.map Prod.fst) :
    (slots.map fun slot ↦ slot.bind (alterEntry key f)) = slots := by
  refine (List.map_congr_left fun slot hslot ↦ ?_).trans (List.map_id slots)
  cases slot with
  | none => rfl
  | some entry =>
    refine if_neg fun heq ↦ h ?_
    rw [← heq]
    exact List.mem_map_of_mem (List.reduceOption_mem_iff.2 hslot)

/-- Altering an entry touches its slot only. -/
theorem slots_alter {m : LiveMap κ ν} {index : ℕ} {entry : κ × ν}
    (h : m.slots[index]? = some (some entry)) (f : ν → Option ν) :
    (m.alter entry.1 f).slots =
      m.slots.set index ((f entry.2).map fun value ↦ (entry.1, value)) := by
  obtain ⟨before, after, hslots, rfl⟩ := exists_split h
  have hnodup := m.nodup
  rw [hslots, List.reduceOption_append, List.reduceOption_cons_of_some, List.map_append,
    List.map_cons, List.nodup_append, List.nodup_cons] at hnodup
  obtain ⟨-, ⟨hafter, -⟩, hbefore⟩ := hnodup
  calc
    (m.alter entry.1 f).slots = m.slots.map fun slot ↦ slot.bind (alterEntry entry.1 f) := rfl
    _ = before ++ alterEntry entry.1 f entry :: after := by
      rw [hslots, List.map_append, List.map_cons, map_bind_alterEntry hafter,
        map_bind_alterEntry fun hmem ↦ hbefore entry.1 hmem entry.1 List.mem_cons_self rfl]
      rfl
    _ = m.slots.set before.length ((f entry.2).map fun value ↦ (entry.1, value)) := by
      rw [hslots, set_split, alterEntry, if_pos rfl]

/-! ## Loops -/

/-- What a loop does with an entry. It may delete entries and change values, but adds none. -/
structure Body (κ ν : Type*) where
  run : LiveMap κ ν → κ × ν → LiveMap κ ν
  length_run : ∀ m entry, (run m entry).slots.length = m.slots.length

@[simp] theorem length_slots_alter (m : LiveMap κ ν) (key : κ) (f : ν → Option ν) :
    (m.alter key f).slots.length = m.slots.length := List.length_map _

@[simp] theorem length_slots_delete (m : LiveMap κ ν) (key : κ) :
    (m.delete key).slots.length = m.slots.length := m.length_slots_alter key _

@[simp] theorem length_slots_modify (m : LiveMap κ ν) (key : κ) (f : ν → ν) :
    (m.modify key f).slots.length = m.slots.length := m.length_slots_alter key _

section Loop

variable (body : Body κ ν)

/-- An iteration, which passes over an empty slot. -/
def visit (m : LiveMap κ ν) (index : ℕ) : LiveMap κ ν :=
  match m.slots[index]? with
  | some (some entry) => body.run m entry
  | _ => m

omit [DecidableEq κ] in
theorem length_visit (m : LiveMap κ ν) (index : ℕ) :
    (visit body m index).slots.length = m.slots.length := by
  unfold visit
  split
  · exact body.length_run _ _
  · rfl

/-- The iterations from `index` on. The number of the slots is read again before each. -/
def forOf (m : LiveMap κ ν) (index : ℕ) : LiveMap κ ν :=
  if index < m.slots.length then forOf (visit body m index) (index + 1) else m
  termination_by m.slots.length - index
  decreasing_by
    rw [length_visit]
    omega

/-- `for (const [key, value] of m.entries())`. -/
def iterate (m : LiveMap κ ν) : LiveMap κ ν := forOf body m 0

/-- Each iteration rewrites the slot that it is at by `f`, and no other. -/
def RewritesBy (f : κ × ν → Option (κ × ν)) : Prop :=
  ∀ (m : LiveMap κ ν) (index : ℕ) (entry : κ × ν), m.slots[index]? = some (some entry) →
    (body.run m entry).slots = m.slots.set index (f entry)

variable {body} {f : κ × ν → Option (κ × ν)}

omit [DecidableEq κ] in
theorem RewritesBy.slots_visit (h : RewritesBy body f) {m : LiveMap κ ν}
    {before after : List (Option (κ × ν))} {slot : Option (κ × ν)}
    (hslots : m.slots = before ++ slot :: after) :
    (visit body m before.length).slots = before ++ slot.bind f :: after := by
  have hslot : m.slots[before.length]? = some slot := by rw [hslots, getElem?_split]
  unfold visit
  cases slot with
  | none =>
    rw [hslot]
    exact hslots
  | some entry =>
    rw [hslot]
    exact (h m before.length entry hslot).trans (by rw [hslots, set_split]; rfl)

omit [DecidableEq κ] in
/-- The loop rule: such a loop rewrites every slot. -/
theorem RewritesBy.slots_forOf (h : RewritesBy body f) {m : LiveMap κ ν}
    {before after : List (Option (κ × ν))} (hslots : m.slots = before ++ after) :
    (forOf body m before.length).slots = before ++ after.map fun slot ↦ slot.bind f := by
  induction after generalizing m before with
  | nil =>
    have hend : ¬before.length < m.slots.length := by
      rw [hslots, List.append_nil]
      exact Nat.lt_irrefl _
    rw [forOf, if_neg hend, hslots]
    rfl
  | cons slot after ih =>
    have hwithin : before.length < m.slots.length := by
      rw [hslots, List.length_append, List.length_cons]
      omega
    have hnext : (visit body m before.length).slots = (before ++ [slot.bind f]) ++ after := by
      rw [h.slots_visit hslots, List.append_assoc]
      rfl
    have hrest := ih hnext
    rw [List.length_append, List.length_singleton] at hrest
    rw [forOf, if_pos hwithin, hrest, List.append_assoc]
    rfl

omit [DecidableEq κ] in
theorem RewritesBy.entries_iterate (h : RewritesBy body f) (m : LiveMap κ ν) :
    (iterate body m).contents.entries = m.contents.entries.filterMap f := by
  have hslots : (iterate body m).slots = m.slots.map fun slot ↦ slot.bind f :=
    @slots_forOf _ _ body f h m [] m.slots rfl
  refine (congrArg List.reduceOption hslots).trans ?_
  exact reduceOption_map_bind f m.slots

end Loop

/-! ## Iterators -/

/-- The first entry in slots that begin at `index`, and the index behind it. -/
def firstEntry (index : ℕ) : List (Option (κ × ν)) → Option ((κ × ν) × ℕ)
  | [] => none
  | none :: slots => firstEntry (index + 1) slots
  | some entry :: _ => some (entry, index + 1)

/-- `next` of an iterator that is at `index`. -/
def next (m : LiveMap κ ν) (index : ℕ) : Option ((κ × ν) × ℕ) :=
  firstEntry index (m.slots.drop index)

omit [DecidableEq κ] in
theorem firstEntry_eq_none {index : ℕ} {slots : List (Option (κ × ν))}
    (h : firstEntry index slots = none) : slots.reduceOption = [] := by
  induction slots generalizing index with
  | nil => rfl
  | cons slot slots ih =>
    cases slot with
    | none => exact ih h
    | some entry => cases h

omit [DecidableEq κ] in
theorem firstEntry_eq_some {index index' : ℕ} {slots : List (Option (κ × ν))} {entry : κ × ν}
    (h : firstEntry index slots = some (entry, index')) :
    ∃ holes after, slots = holes ++ some entry :: after ∧ holes.reduceOption = [] ∧
      index' = index + holes.length + 1 := by
  induction slots generalizing index with
  | nil => cases h
  | cons slot slots ih =>
    cases slot with
    | none =>
      obtain ⟨holes, after, hslots, hholes, hindex⟩ := ih h
      refine ⟨none :: holes, after, ?_, hholes, ?_⟩
      · rw [hslots]
        rfl
      · rw [hindex, List.length_cons]
        omega
    | some first =>
      cases h
      exact ⟨[], slots, rfl, rfl, rfl⟩

/-- An iterator with nothing but holes behind it deletes what the map holds first. -/
theorem next_eq_some {m : LiveMap κ ν} {before after : List (Option (κ × ν))} {entry : κ × ν}
    {index' : ℕ} (hslots : m.slots = before ++ after) (hholes : before.reduceOption = [])
    (h : m.next before.length = some (entry, index')) :
    ∃ before' after', (m.delete entry.1).slots = before' ++ after' ∧
      before'.reduceOption = [] ∧ before'.length = index' ∧
      m.contents.entries = entry :: after'.reduceOption := by
  rw [next, hslots, List.drop_left] at h
  obtain ⟨holes, rest, rfl, hmore, hindex⟩ := firstEntry_eq_some h
  have hassoc : m.slots = (before ++ holes) ++ some entry :: rest := by
    rw [hslots, List.append_assoc]
  have hslot : m.slots[(before ++ holes).length]? = some (some entry) := by
    rw [hassoc, getElem?_split]
  refine ⟨before ++ holes ++ [none], rest, ?_, ?_, ?_, ?_⟩
  · rw [delete, slots_alter hslot, hassoc, set_split, List.append_assoc (before ++ holes)]
    rfl
  · rw [List.reduceOption_append, List.reduceOption_append, hholes, hmore]
    rfl
  · rw [hindex, List.length_append, List.length_append, List.length_singleton]
  · rw [entries_contents, hassoc, List.reduceOption_append, List.reduceOption_append, hholes, hmore]
    rfl

end LiveMap

end P2PApp
