import Mathlib.Data.List.MinMax
import Mathlib.Order.Lattice

/-!
# A maximum register that can be cleared

A register keeps the largest version it was raised to, and forgets it when it is cleared. Raises
commute with each other and clears do not commute with raises, so the final content is decided by
the raises after the last clear. The two results below read the content off the sequence of
updates.
-/

namespace P2PApp.MaxRegister

variable {α : Type*} [LinearOrder α]

inductive Update (α : Type*)
  | raise (version : α)
  | clear
  deriving DecidableEq

def apply (content : Option α) : Update α → Option α
  | .raise version => some (content.elim version fun current ↦ max current version)
  | .clear => none

def run (content : Option α) (updates : List (Update α)) : Option α := updates.foldl apply content

/-- The versions raised since the last clear. -/
def raisedSince (versions : List α) : List (Update α) → List α
  | [] => versions
  | .raise version :: updates => raisedSince (versions ++ [version]) updates
  | .clear :: updates => raisedSince [] updates

theorem max?_concat (versions : List α) (version : α) :
    (versions ++ [version]).max? = apply versions.max? (.raise version) := by
  cases versions with
  | nil => rfl
  | cons first rest =>
    rw [List.cons_append, List.max?_cons', List.max?_cons', List.foldl_append]
    rfl

/-- The register holds the maximum of the versions raised since the last clear. -/
theorem run_eq_max? (versions : List α) (updates : List (Update α)) :
    run versions.max? updates = (raisedSince versions updates).max? := by
  induction updates generalizing versions with
  | nil => rfl
  | cons update updates ih =>
    cases update with
    | raise version =>
      calc run versions.max? (.raise version :: updates)
          = run (apply versions.max? (.raise version)) updates := rfl
        _ = run (versions ++ [version]).max? updates := by rw [max?_concat]
        _ = (raisedSince (versions ++ [version]) updates).max? := ih _
    | clear =>
      calc run versions.max? (.clear :: updates)
          = run ([] : List α).max? updates := rfl
        _ = (raisedSince [] updates).max? := ih _

omit [LinearOrder α] in
/-- A version survives exactly when no clear follows it. -/
theorem mem_raisedSince_iff {versions : List α} {updates : List (Update α)} {version : α} :
    version ∈ raisedSince versions updates ↔
      (version ∈ versions ∧ .clear ∉ updates) ∨
        ∃ before after, updates = before ++ .raise version :: after ∧ .clear ∉ after := by
  induction updates generalizing versions with
  | nil => simp [raisedSince]
  | cons update updates ih =>
    have hsplit (head : Update α) : (∃ before after,
        head :: updates = before ++ .raise version :: after ∧ .clear ∉ after) ↔
        (head = .raise version ∧ .clear ∉ updates) ∨
          ∃ before after, updates = before ++ .raise version :: after ∧ .clear ∉ after := by
      constructor
      · rintro ⟨before, after, heq, hafter⟩
        cases before with
        | nil =>
          obtain ⟨rfl, rfl⟩ := List.cons.inj heq
          exact .inl ⟨rfl, hafter⟩
        | cons first before => exact .inr ⟨before, after, (List.cons.inj heq).2, hafter⟩
      · intro h
        rcases h with ⟨rfl, hafter⟩ | ⟨before, after, rfl, hafter⟩
        · exact ⟨[], updates, rfl, hafter⟩
        · exact ⟨head :: before, after, rfl, hafter⟩
    cases update with
    | raise other =>
      rw [raisedSince, ih, hsplit]
      have hmem : version ∈ versions ++ [other] ↔ version ∈ versions ∨ other = version := by
        rw [List.mem_append, List.mem_singleton, eq_comm]
      have hclear : .clear ∉ .raise other :: updates ↔ .clear ∉ updates := by simp
      rw [hmem, hclear, Update.raise.injEq, or_and_right, or_assoc]
    | clear =>
      rw [raisedSince, ih, hsplit]
      simp

/-- With nothing older to remember, the register holds the newest version exactly when no clear
follows its raise. -/
theorem run_eq_some_iff {content : Option α} {updates : List (Update α)} {newest : α}
    (hcontent : ∀ version ∈ content, version < newest)
    (hnewest : ∀ version, .raise version ∈ updates → version ≤ newest) :
    run content updates = some newest ↔
      ∃ before after, updates = before ++ .raise newest :: after ∧ .clear ∉ after := by
  have hrun : run content updates = (raisedSince content.toList updates).max? := by
    rw [← run_eq_max?]
    cases content <;> rfl
  have hbound (version) (h : version ∈ raisedSince content.toList updates) :
      version ≤ newest := by
    rcases mem_raisedSince_iff.1 h with ⟨hold, _⟩ | ⟨before, after, rfl, _⟩
    · exact (hcontent version (Option.mem_toList.1 hold)).le
    · apply hnewest
      exact List.mem_append_right _ List.mem_cons_self
  rw [hrun, List.max?_eq_some_iff, mem_raisedSince_iff]
  constructor
  · rintro ⟨hmem, _⟩
    refine hmem.resolve_left fun hold ↦ ?_
    exact lt_irrefl newest (hcontent newest (Option.mem_toList.1 hold.1))
  · intro hmem
    exact ⟨.inr hmem, hbound⟩

/-- The register is empty after some updates exactly when the last of them is a clear. -/
theorem run_eq_none_iff (content : Option α) {updates : List (Update α)} (h : updates ≠ []) :
    run content updates = none ↔ updates.getLast? = some .clear := by
  obtain ⟨before, last, rfl⟩ := (List.eq_nil_or_concat updates).resolve_left h
  rw [run, List.concat_eq_append, List.foldl_append]
  cases last with
  | raise version => simp [apply]
  | clear => simp [apply]

end P2PApp.MaxRegister
