import Mathlib.Logic.Relation
import Mathlib.Order.Basic

/-!
# Relations along which a potential grows

A relation has no cycle if some potential grows along it. It is enough to compare nodes that the
relation leads on from, because a cycle never ends.
-/

namespace P2PApp

variable {α β : Type*} {r : α → α → Prop}

/-- The steps of a relation to nodes that it leads on from. -/
def LeadsOn (r : α → α → Prop) (a b : α) : Prop := r a b ∧ ∃ c, r b c

theorem leadsOn_transGen {a b : α} (h : Relation.TransGen r a b) (hb : ∃ c, r b c) :
    Relation.TransGen (LeadsOn r) a b := by
  induction h with
  | single hstep => exact .single ⟨hstep, hb⟩
  | tail _ hstep ih => exact (ih ⟨_, hstep⟩).tail ⟨hstep, hb⟩

/-- A cycle stays among nodes that the relation leads on from. -/
theorem leadsOn_cycle {a : α} (h : Relation.TransGen r a a) :
    Relation.TransGen (LeadsOn r) a a := by
  have hstart := Relation.TransGen.head'_iff.1 h
  exact leadsOn_transGen h (hstart.imp fun _ hfirst ↦ hfirst.1)

/-- A relation has no cycle if a potential grows along the part of it that a cycle can use. -/
theorem acyclic_of_potential [Preorder β] {potential : α → β}
    (hgrows : ∀ a b, LeadsOn (LeadsOn r) a b → potential a < potential b) (a : α) :
    ¬Relation.TransGen r a a := by
  intro h
  have hcycle := (leadsOn_cycle (leadsOn_cycle h)).lift potential hgrows
  rw [Relation.transGen_eq_self] at hcycle
  exact lt_irrefl _ hcycle

end P2PApp
