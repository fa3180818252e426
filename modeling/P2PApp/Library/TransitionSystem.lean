import Mathlib.Logic.Relation

/-!
# Labelled transition systems and their runs

A run is a list of labels leading from one state to another. Invariants are proved one step at
a time and lifted to every run; a *guarded* run is one whose every step satisfies a condition on
the state it leaves and the label it takes, and a property may need that guard to be preserved.
-/

namespace P2PApp

/-- A step relation labelled by the events that drive it. -/
structure TransitionSystem (σ ε : Type*) where
  step : σ → ε → σ → Prop

/-! ## Steps that can fail -/

section PartialStep

variable {σ α : Type*}

/-- Each iteration is safe in the state that the iterations before it lead to. -/
def SafeAlong (step : σ → α → Option σ) (safe : σ → α → Prop) : σ → List α → Prop
  | _, [] => True
  | s, item :: items => safe s item ∧ ∀ t ∈ step s item, SafeAlong step safe t items

/-- What every iteration keeps, a loop that completes keeps. -/
theorem rel_of_foldlM {step : σ → α → Option σ} (rel : σ → σ → Prop) (hrefl : ∀ s, rel s s)
    (htrans : ∀ {s t u}, rel s t → rel t u → rel s u)
    (hstep : ∀ {s item t}, step s item = some t → rel s t) {s t : σ} {items : List α}
    (h : items.foldlM step s = some t) : rel s t := by
  induction items generalizing s with
  | nil =>
    cases h
    exact hrefl _
  | cons item items ih =>
    rw [List.foldlM_cons] at h
    obtain ⟨middle, hfirst, hrest⟩ := Option.bind_eq_some_iff.1 h
    exact htrans (hstep hfirst) (ih hrest)

/-- If an iteration completes exactly when it is safe, so does the loop. -/
theorem isSome_foldlM_iff {step : σ → α → Option σ} {safe : σ → α → Prop}
    (hstep : ∀ s item, (step s item).isSome = true ↔ safe s item) (s : σ) (items : List α) :
    (items.foldlM step s).isSome = true ↔ SafeAlong step safe s items := by
  induction items generalizing s with
  | nil => exact iff_of_true rfl trivial
  | cons item items ih =>
    rw [List.foldlM_cons, SafeAlong, ← hstep]
    cases hresult : step s item with
    | none => simp
    | some t => simp [← ih]

instance decidableSafeAlong (step : σ → α → Option σ) (safe : σ → α → Prop)
    [∀ s item, Decidable (safe s item)] : ∀ s items, Decidable (SafeAlong step safe s items)
  | _, [] => inferInstanceAs (Decidable True)
  | s, item :: items =>
    match h : step s item with
    | none => decidable_of_iff (safe s item) (by simp [SafeAlong, h])
    | some t =>
      let _ := decidableSafeAlong step safe t items
      decidable_of_iff (safe s item ∧ SafeAlong step safe t items) (by simp [SafeAlong, h])

end PartialStep

namespace TransitionSystem

variable {σ ε : Type*} (system : TransitionSystem σ ε)

/-- `Run s events t`: the events, taken in order, lead from `s` to `t`. -/
inductive Run : σ → List ε → σ → Prop
  | nil (s : σ) : Run s [] s
  | snoc {s t u : σ} {events : List ε} {event : ε} :
      Run s events t → system.step t event u → Run s (events ++ [event]) u

/-- A run whose every step meets `guard` in the state it leaves. -/
inductive GuardedRun (guard : σ → ε → Prop) : σ → List ε → σ → Prop
  | nil (s : σ) : GuardedRun guard s [] s
  | snoc {s t u : σ} {events : List ε} {event : ε} :
      GuardedRun guard s events t → guard t event → system.step t event u →
        GuardedRun guard s (events ++ [event]) u

/-- The system that takes the events enabled in a state to the state that `next` computes. -/
def ofNext (enabled : σ → ε → Prop) (next : σ → ε → σ) : TransitionSystem σ ε where
  step s event t := enabled s event ∧ t = next s event

variable {system}

theorem GuardedRun.run {guard : σ → ε → Prop} {s t : σ} {events : List ε}
    (h : system.GuardedRun guard s events t) : system.Run s events t := by
  induction h with
  | nil => exact .nil _
  | snoc _ _ hstep ih => exact .snoc ih hstep

theorem Run.guarded_true {s t : σ} {events : List ε} (h : system.Run s events t) :
    system.GuardedRun (fun _ _ ↦ True) s events t := by
  induction h with
  | nil => exact .nil _
  | snoc _ hstep ih => exact .snoc ih trivial hstep

/-- The run rule: what every guarded step preserves, every guarded run preserves. -/
theorem GuardedRun.invariant {guard : σ → ε → Prop} {inv : σ → Prop}
    (hstep : ∀ s event t, inv s → guard s event → system.step s event t → inv t)
    {s t : σ} {events : List ε} (h : system.GuardedRun guard s events t) (hinit : inv s) :
    inv t := by
  induction h with
  | nil => exact hinit
  | snoc _ hguard hlast ih => exact hstep _ _ _ ih hguard hlast

/-- The run rule for a step function. -/
theorem GuardedRun.invariant_next {enabled guard : σ → ε → Prop} {next : σ → ε → σ}
    {inv : σ → Prop}
    (hnext : ∀ s event, inv s → guard s event → enabled s event → inv (next s event))
    {s t : σ} {events : List ε} (h : (ofNext enabled next).GuardedRun guard s events t)
    (hinit : inv s) : inv t := by
  refine h.invariant (fun s event t hs hguard hstep ↦ ?_) hinit
  rw [hstep.2]
  exact hnext s event hs hguard hstep.1

theorem GuardedRun.mono {guard guard' : σ → ε → Prop}
    (hguard : ∀ s event, guard s event → guard' s event) {s t : σ} {events : List ε}
    (h : system.GuardedRun guard s events t) :
    system.GuardedRun guard' s events t := by
  induction h with
  | nil => exact .nil _
  | snoc _ hlastGuard hlast ih => exact .snoc ih (hguard _ _ hlastGuard) hlast

/-- Guards that agree on every step. -/
theorem GuardedRun.congr {guard guard' : σ → ε → Prop}
    (hguard : ∀ s event t, system.step s event t → (guard s event ↔ guard' s event)) {s t : σ}
    {events : List ε} :
    system.GuardedRun guard s events t ↔ system.GuardedRun guard' s events t := by
  constructor
  · intro h
    induction h with
    | nil => exact .nil _
    | snoc _ hlastGuard hlast ih => exact .snoc ih ((hguard _ _ _ hlast).1 hlastGuard) hlast
  · intro h
    induction h with
    | nil => exact .nil _
    | snoc _ hlastGuard hlast ih => exact .snoc ih ((hguard _ _ _ hlast).2 hlastGuard) hlast

/-- The step that an event of a run took, with the runs before and after it. -/
theorem GuardedRun.split {guard : σ → ε → Prop} {s t : σ} {events : List ε} {event : ε}
    (h : system.GuardedRun guard s events t) (hmem : event ∈ events) :
    ∃ before after first second, system.GuardedRun guard s before first ∧ guard first event ∧
      system.step first event second ∧ system.GuardedRun guard second after t := by
  induction h with
  | nil => cases hmem
  | snoc hrun hguard hlast ih =>
    rcases List.mem_append.1 hmem with hbefore | hnew
    · obtain ⟨before, after, first, second, hfirst, hevent, hstep, hrest⟩ := ih hbefore
      exact ⟨before, _, first, second, hfirst, hevent, hstep, .snoc hrest hguard hlast⟩
    · obtain rfl := List.mem_singleton.1 hnew
      exact ⟨_, [], _, _, hrun, hguard, hlast, .nil _⟩

/-- The last step of a run. -/
theorem GuardedRun.exists_last {guard : σ → ε → Prop} {s u : σ} {events : List ε} {event : ε}
    (h : system.GuardedRun guard s (events ++ [event]) u) :
    ∃ t, system.GuardedRun guard s events t ∧ guard t event ∧ system.step t event u := by
  generalize hall : events ++ [event] = all at h
  cases h with
  | nil => simp at hall
  | snoc hbefore hguard hstep =>
    obtain ⟨rfl, hlast⟩ := List.append_inj' hall rfl
    cases hlast
    exact ⟨_, hbefore, hguard, hstep⟩

/-- Under an invariant of the guarded run, one guard may imply another. -/
theorem GuardedRun.of_invariant {guard guard' : σ → ε → Prop} {inv : σ → Prop}
    (hstep : ∀ s event t, inv s → guard s event → system.step s event t → guard' s event ∧ inv t)
    {s t : σ} {events : List ε} (h : system.GuardedRun guard s events t) (hinit : inv s) :
    system.GuardedRun guard' s events t := by
  induction h with
  | nil => exact .nil _
  | snoc hbefore hguard hlast ih =>
    have hcurrent :=
      hbefore.invariant (fun s event t hs hg hst ↦ (hstep s event t hs hg hst).2) hinit
    exact .snoc ih (hstep _ _ _ hcurrent hguard hlast).1 hlast

/-- The run rule without a guard. -/
theorem Run.invariant {inv : σ → Prop}
    (hstep : ∀ s event t, inv s → system.step s event t → inv t)
    {s t : σ} {events : List ε} (h : system.Run s events t) (hinit : inv s) : inv t :=
  h.guarded_true.invariant (fun s event t hs _ ↦ hstep s event t hs) hinit

theorem Run.invariant_next {enabled : σ → ε → Prop} {next : σ → ε → σ} {inv : σ → Prop}
    (hnext : ∀ s event, inv s → enabled s event → inv (next s event))
    {s t : σ} {events : List ε} (h : (ofNext enabled next).Run s events t) (hinit : inv s) :
    inv t :=
  h.guarded_true.invariant_next (fun s event hs _ ↦ hnext s event hs) hinit

theorem Run.cons {s t u : σ} {event : ε} {events : List ε} (hstep : system.step s event t)
    (h : system.Run t events u) : system.Run s (event :: events) u := by
  induction h with
  | nil => exact .snoc (.nil s) hstep
  | snoc _ hlast ih => exact .snoc ih hlast

theorem Run.append {s t u : σ} {first later : List ε} (h : system.Run s first t)
    (h' : system.Run t later u) : system.Run s (first ++ later) u := by
  induction h' with
  | nil =>
    rw [List.append_nil]
    exact h
  | snoc _ hlast ih =>
    rw [← List.append_assoc]
    exact .snoc ih hlast

/-- The simulation rule: if every guarded step is matched by a run of the other system, so is every
guarded run. -/
theorem GuardedRun.simulates {σ' ε' : Type*} {abstract : TransitionSystem σ' ε'}
    {guard : σ → ε → Prop} {rel : σ → σ' → Prop}
    (hstep : ∀ s event t a, rel s a → guard s event → system.step s event t →
      ∃ events b, abstract.Run a events b ∧ rel t b)
    {s t : σ} {events : List ε} (h : system.GuardedRun guard s events t) {a : σ'}
    (hrel : rel s a) : ∃ events' b, abstract.Run a events' b ∧ rel t b := by
  induction h with
  | nil => exact ⟨[], a, .nil a, hrel⟩
  | snoc _ hguard hlast ih =>
    obtain ⟨before, middle, hbefore, hmiddle⟩ := ih
    obtain ⟨after, b, hafter, hb⟩ := hstep _ _ _ _ hmiddle hguard hlast
    exact ⟨before ++ after, b, hbefore.append hafter, hb⟩

theorem GuardedRun.cons {guard : σ → ε → Prop} {s t u : σ} {event : ε} {events : List ε}
    (hguard : guard s event) (hstep : system.step s event t)
    (h : system.GuardedRun guard t events u) : system.GuardedRun guard s (event :: events) u := by
  induction h with
  | nil => exact .snoc (.nil s) hguard hstep
  | snoc _ hlastGuard hlast ih => exact .snoc ih hlastGuard hlast

/-- Each event is enabled in the state that those before it lead to. -/
def EnabledAlong (enabled : σ → ε → Prop) (next : σ → ε → σ) : σ → List ε → Prop
  | _, [] => True
  | s, event :: events => enabled s event ∧ EnabledAlong enabled next (next s event) events

instance decidableEnabledAlong (enabled : σ → ε → Prop) (next : σ → ε → σ)
    [∀ s event, Decidable (enabled s event)] :
    ∀ s events, Decidable (EnabledAlong enabled next s events)
  | _, [] => inferInstanceAs (Decidable True)
  | s, event :: events =>
    let _ := decidableEnabledAlong enabled next (next s event) events
    inferInstanceAs (Decidable (enabled s event ∧ EnabledAlong enabled next (next s event) events))

theorem run_ofNext {enabled : σ → ε → Prop} {next : σ → ε → σ} {s : σ} {events : List ε}
    (h : EnabledAlong enabled next s events) :
    (ofNext enabled next).Run s events (events.foldl next s) := by
  induction events generalizing s with
  | nil => exact .nil s
  | cons event events ih => exact .cons ⟨h.1, rfl⟩ (ih h.2)

theorem guardedRun_ofNext {enabled guard : σ → ε → Prop} {next : σ → ε → σ} {s : σ}
    {events : List ε}
    (h : EnabledAlong (fun s event ↦ enabled s event ∧ guard s event) next s events) :
    (ofNext enabled next).GuardedRun guard s events (events.foldl next s) := by
  induction events generalizing s with
  | nil => exact .nil s
  | cons event events ih => exact .cons h.1.2 ⟨h.1.1, rfl⟩ (ih h.2)

/-- The system of a step function that can fail; a run takes no step that does. -/
def ofPartial (next : σ → ε → Option σ) : TransitionSystem σ ε where
  step s event t := next s event = some t

theorem run_ofPartial {next : σ → ε → Option σ} {s t : σ} {events : List ε}
    (h : events.foldlM next s = some t) : (ofPartial next).Run s events t := by
  induction events generalizing s with
  | nil =>
    cases h
    exact .nil _
  | cons event events ih =>
    obtain ⟨middle, hfirst, hrest⟩ := Option.bind_eq_some_iff.1 h
    exact .cons hfirst (ih hrest)

/-- Such a run is what the function computes. -/
theorem foldlM_of_run {next : σ → ε → Option σ} {s t : σ} {events : List ε}
    (h : (ofPartial next).Run s events t) : events.foldlM next s = some t := by
  induction h with
  | nil => rfl
  | snoc _ hstep ih =>
    rw [List.foldlM_append, ih]
    refine Option.bind_eq_some_iff.2 ⟨_, rfl, ?_⟩
    exact Option.bind_eq_some_iff.2 ⟨_, hstep, rfl⟩

theorem guardedRun_ofPartial {next : σ → ε → Option σ} {guard : σ → ε → Prop} {s t : σ}
    {events : List ε} (h : events.foldlM next s = some t)
    (hguard : SafeAlong next guard s events) : (ofPartial next).GuardedRun guard s events t := by
  induction events generalizing s with
  | nil =>
    cases h
    exact .nil _
  | cons event events ih =>
    obtain ⟨middle, hfirst, hrest⟩ := Option.bind_eq_some_iff.1 h
    exact .cons hguard.1 hfirst (ih hrest (hguard.2 middle hfirst))

/-- When each step keeps a property exactly if the guard holds, a run keeps it exactly if the
run is guarded. -/
theorem Run.iff_guardedRun {guard : σ → ε → Prop} {property : σ → Prop} (inv : σ → Prop)
    (hinv : ∀ s event t, inv s → system.step s event t → inv t)
    (hstep : ∀ s event t, inv s → system.step s event t →
      (property t ↔ property s ∧ guard s event))
    {s t : σ} {events : List ε} (h : system.Run s events t) (hs : inv s) (hproperty : property s) :
    property t ↔ system.GuardedRun guard s events t := by
  constructor
  · intro hlast
    induction h with
    | nil => exact .nil _
    | snoc hrun hlastStep ih =>
      have hbefore := hrun.invariant hinv hs
      obtain ⟨hkept, hguard⟩ := (hstep _ _ _ hbefore hlastStep).1 hlast
      exact .snoc (ih hkept) hguard hlastStep
  · intro hguarded
    induction hguarded with
    | nil => exact hproperty
    | snoc hbefore hguard hlastStep ih =>
      have hcurrent := hbefore.run.invariant hinv hs
      exact (hstep _ _ _ hcurrent hlastStep).2 ⟨ih hbefore.run, hguard⟩

/-- A run of a function ends where the function leads. -/
theorem foldl_of_run {enabled : σ → ε → Prop} {next : σ → ε → σ} {s t : σ} {events : List ε}
    (h : (ofNext enabled next).Run s events t) : t = events.foldl next s := by
  induction h with
  | nil => rfl
  | snoc _ hstep ih =>
    rw [List.foldl_append, ← ih]
    exact hstep.2

/-- When each step keeps a property and is sound exactly if the guard holds, all of a run is so
exactly if the run is guarded. -/
theorem Run.forall_step_iff {enabled guard : σ → ε → Prop} {next : σ → ε → σ}
    {inv property : σ → Prop} {sound : σ → ε → Prop}
    (hinv : ∀ s event, inv s → enabled s event → inv (next s event))
    (hstep : ∀ s event, inv s → property s → enabled s event →
      (property (next s event) ∧ sound s event ↔ guard s event))
    {s t : σ} {events : List ε} (h : (ofNext enabled next).Run s events t) (hs : inv s)
    (hproperty : property s) :
    (∀ before event, before ++ [event] <+: events →
        property ((before ++ [event]).foldl next s) ∧ sound (before.foldl next s) event) ↔
      (ofNext enabled next).GuardedRun guard s events t := by
  have hguard (before : σ) (event : ε) (after : σ) (hbefore : inv before)
      (hlast : (ofNext enabled next).step before event after) : inv after := by
    rw [hlast.2]
    exact hinv before event hbefore hlast.1
  constructor
  · intro hall
    have hboth : property t ∧ (ofNext enabled next).GuardedRun guard s events t := by
      induction h with
      | nil => exact ⟨hproperty, .nil _⟩
      | @snoc t u events event hrun hlast ih =>
        obtain ⟨hcurrent, hguarded⟩ := ih fun before earlier hshorter ↦
          hall before earlier (hshorter.trans (List.prefix_append _ _))
        have hnext := hall events event (List.prefix_refl _)
        rw [List.foldl_append, ← foldl_of_run hrun] at hnext
        have hmet := (hstep t event (hrun.invariant hguard hs) hcurrent hlast.1).1 hnext
        exact ⟨hlast.2 ▸ hnext.1, .snoc hguarded hmet hlast⟩
    exact hboth.2
  · intro hguarded
    have hboth : property t ∧ ∀ before event, before ++ [event] <+: events →
        property ((before ++ [event]).foldl next s) ∧ sound (before.foldl next s) event := by
      induction hguarded with
      | nil => exact ⟨hproperty, fun before event hshort ↦ by simp at hshort⟩
      | @snoc t u events event hrun hmet hlast ih =>
        obtain ⟨hcurrent, hall⟩ := ih hrun.run
        have hnext := (hstep t event (hrun.run.invariant hguard hs) hcurrent hlast.1).2 hmet
        refine ⟨hlast.2 ▸ hnext.1, fun before last hshort ↦ ?_⟩
        rcases List.prefix_concat_iff.1 hshort with heq | hshorter
        · obtain ⟨rfl, hsame⟩ := List.append_inj' heq rfl
          cases hsame
          rw [List.foldl_append, ← foldl_of_run hrun.run]
          exact hnext
        · exact hall before last hshorter
    exact hboth.2

/-- When each step keeps a property exactly if the guard holds, it holds all along a run exactly if
the run is guarded. -/
theorem Run.forall_prefix_iff {enabled guard : σ → ε → Prop} {next : σ → ε → σ}
    {property : σ → Prop}
    (hstep : ∀ s event, property s → enabled s event → (property (next s event) ↔ guard s event))
    {s t : σ} {events : List ε} (h : (ofNext enabled next).Run s events t) (hs : property s) :
    (∀ before, before <+: events → property (before.foldl next s)) ↔
      (ofNext enabled next).GuardedRun guard s events t := by
  have hsound (s : σ) (event : ε) (_ : True) (hproperty : property s) (henabled : enabled s event) :
      property (next s event) ∧ True ↔ guard s event := by
    rw [and_true]
    exact hstep s event hproperty henabled
  rw [← h.forall_step_iff (fun _ _ _ _ ↦ trivial) hsound trivial hs]
  constructor
  · exact fun hall before event hwithin ↦ ⟨hall _ hwithin, trivial⟩
  · intro hall before hwithin
    rcases before.eq_nil_or_concat with rfl | ⟨before, event, rfl⟩
    · exact hs
    · rw [List.concat_eq_append] at hwithin ⊢
      exact (hall before event hwithin).1

end TransitionSystem

end P2PApp
