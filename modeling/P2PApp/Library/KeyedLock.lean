import Mathlib.Data.Finset.Basic
import Mathlib.Logic.Function.Basic

/-!
# Locks with keys

Processes claim keys in a common set and take them out of it again. If a key is claimed only while
it is free and released only by the process that holds it, the set holds exactly the keys that are
held, and nobody holds the key of another.
-/

namespace P2PApp.KeyedLock

variable {ι κ : Type*} [DecidableEq ι] [DecidableEq κ]

/-- The claimed keys are those that are held, each by one process. -/
structure Balanced (claimed : Finset κ) (holds : ι → Option κ) : Prop where
  mem_iff : ∀ key, key ∈ claimed ↔ ∃ process, holds process = some key
  unique : ∀ {key process other}, holds process = some key → holds other = some key →
    process = other

variable {claimed : Finset κ} {holds : ι → Option κ} {process : ι} {key : κ}

omit [DecidableEq ι] [DecidableEq κ] in
theorem balanced_empty : Balanced (∅ : Finset κ) fun _ : ι ↦ none where
  mem_iff := fun key ↦ by simp
  unique := fun h ↦ by cases h

omit [DecidableEq ι] [DecidableEq κ] in
/-- Without holders nothing is claimed. -/
theorem Balanced.eq_empty (h : Balanced claimed holds) (hnone : ∀ process, holds process = none) :
    claimed = ∅ := by
  refine Finset.eq_empty_iff_forall_notMem.2 fun key hkey ↦ ?_
  obtain ⟨process, hprocess⟩ := (h.mem_iff key).1 hkey
  cases (hnone process).symm.trans hprocess

theorem Balanced.acquire (h : Balanced claimed holds) (hfree : key ∉ claimed)
    (hidle : holds process = none) :
    Balanced (insert key claimed) (Function.update holds process (some key)) where
  mem_iff := by
    intro other
    rw [Finset.mem_insert, h.mem_iff]
    constructor
    · rintro (rfl | ⟨holder, hholder⟩)
      · exact ⟨process, Function.update_self ..⟩
      · have hne : holder ≠ process := by
          rintro rfl
          cases hidle.symm.trans hholder
        exact ⟨holder, (Function.update_of_ne hne ..).trans hholder⟩
    · rintro ⟨holder, hholder⟩
      by_cases heq : holder = process
      · rw [heq, Function.update_self] at hholder
        exact .inl (Option.some.inj hholder).symm
      · rw [Function.update_of_ne heq] at hholder
        exact .inr ⟨holder, hholder⟩
  unique := by
    have hnobody (holder : ι) : holds holder ≠ some key := fun hholder ↦
      hfree ((h.mem_iff key).2 ⟨holder, hholder⟩)
    intro other first second hfirst hsecond
    by_cases hone : first = process
    · subst hone
      rw [Function.update_self] at hfirst
      cases hfirst
      by_contra hne
      rw [Function.update_of_ne (Ne.symm hne)] at hsecond
      exact hnobody second hsecond
    · rw [Function.update_of_ne hone] at hfirst
      by_cases htwo : second = process
      · subst htwo
        rw [Function.update_self] at hsecond
        cases hsecond
        exact absurd hfirst (hnobody first)
      · rw [Function.update_of_ne htwo] at hsecond
        exact h.unique hfirst hsecond

theorem Balanced.release (h : Balanced claimed holds) (hholds : holds process = some key) :
    Balanced (claimed.erase key) (Function.update holds process none) where
  mem_iff := by
    intro other
    rw [Finset.mem_erase, h.mem_iff]
    constructor
    · rintro ⟨hne, holder, hholder⟩
      have hother : holder ≠ process := by
        rintro rfl
        exact hne (Option.some.inj (hholder.symm.trans hholds))
      exact ⟨holder, (Function.update_of_ne hother ..).trans hholder⟩
    · rintro ⟨holder, hholder⟩
      have hother : holder ≠ process := by
        rintro rfl
        rw [Function.update_self] at hholder
        cases hholder
      rw [Function.update_of_ne hother] at hholder
      refine ⟨?_, holder, hholder⟩
      rintro rfl
      exact hother (h.unique hholder hholds)
  unique := by
    intro other first second hfirst hsecond
    have hstays {holder : ι} (hholder : Function.update holds process none holder = some other) :
        holds holder = some other := by
      by_cases heq : holder = process
      · rw [heq, Function.update_self] at hholder
        cases hholder
      · rwa [Function.update_of_ne heq] at hholder
    exact h.unique (hstays hfirst) (hstays hsecond)

end P2PApp.KeyedLock
