import Mathlib.Data.Option.Basic
import Mathlib.Order.Lattice.Nat
import Mathlib.Order.WithBot
import P2PApp.Library.TransitionSystem

/-!
# Leases with numbers

A holder keeps one entry and hears notices that renew it. An entry has the number of its notice, the
source over which that came and the time until which it lasts; a notice with a smaller number is
ignored. When the numbers start again from below, the old entry stands in the way until it has run
out and been swept, and no longer: whatever is held at first, the holder has the entry of the latest
notice within the old lease, one sweep and one period.
-/

namespace P2PApp

/-- Sweeps are at most `sweep` apart and notices at most `period`. An entry lasts for `lease`. -/
structure NumberedTiming where
  lease : ℕ
  sweep : ℕ
  period : ℕ
  covers : period ≤ lease

structure NumberedEntry (σ : Type*) where
  number : ℕ
  source : σ
  expiry : WithTop ℕ

structure NumberedLease (σ : Type*) where
  now : ℕ
  sweptAt : ℕ
  heardAt : ℕ
  /-- Number and source of the latest notice. -/
  latest : Option (ℕ × σ)
  entry : Option (NumberedEntry σ)

namespace NumberedLease

variable {σ : Type*}

inductive Event (σ : Type*)
  | hear (number : ℕ) (source : σ)
  | sweep
  | elapse (duration : ℕ)

/-- What a notice may do: install an entry that is not older, renew the one from the same source, or
nothing if there is one with such a number. -/
inductive Hears (number : ℕ) (source : σ) (expiry : WithTop ℕ) :
    Option (NumberedEntry σ) → Option (NumberedEntry σ) → Prop
  | install {entry : Option (NumberedEntry σ)} (h : ∀ old ∈ entry, old.number ≤ number) :
      Hears number source expiry entry (some ⟨number, source, expiry⟩)
  | renew {old : NumberedEntry σ} (hnumber : old.number = number) (hsource : old.source = source) :
      Hears number source expiry (some old)
        (some ⟨number, source, max old.expiry expiry⟩)
  | ignore {old : NumberedEntry σ} (h : number ≤ old.number) :
      Hears number source expiry (some old) (some old)

/-- The numbers of the notices increase, and time stops where a notice or a sweep is due. -/
def system (timing : NumberedTiming) : TransitionSystem (NumberedLease σ) (Event σ) where
  step holder event holder' :=
    match event with
    | .hear number source =>
      (∀ latest ∈ holder.latest, latest.1 < number) ∧
        ∃ entry, Hears number source (WithTop.some (holder.now + timing.lease)) holder.entry entry ∧
          holder' = { holder with
            heardAt := holder.now
            latest := some (number, source)
            entry }
    | .sweep =>
      holder' = { holder with
        sweptAt := holder.now
        entry := holder.entry.filter fun entry ↦ WithTop.some holder.now ≤ entry.expiry }
    | .elapse duration =>
      holder.now + duration ≤ holder.sweptAt + timing.sweep ∧
        holder.now + duration ≤ holder.heardAt + timing.period ∧
        holder' = { holder with now := holder.now + duration }

/-! ## The phases of a recovery -/

/-- Sweeps and notices have come in time. -/
structure Punctual (timing : NumberedTiming) (holder : NumberedLease σ) : Prop where
  sweptAt : holder.sweptAt ≤ holder.now
  heardAt : holder.heardAt ≤ holder.now
  sweeps : holder.now ≤ holder.sweptAt + timing.sweep
  hears : holder.now ≤ holder.heardAt + timing.period

/-- What was held at first is still held. It lasts at most until `horizon`. -/
structure Old (horizon : ℕ) (holder : NumberedLease σ) (old : NumberedEntry σ) : Prop where
  entry : holder.entry = some old
  expiry : old.expiry ≤ WithTop.some horizon
  newer : ∀ latest ∈ holder.latest, latest.1 ≤ old.number
  sweptAt : holder.sweptAt ≤ horizon

/-- Nothing is held, and no notice has come since the sweep. -/
structure Swept (timing : NumberedTiming) (horizon : ℕ) (holder : NumberedLease σ) : Prop where
  entry : holder.entry = none
  heardAt : holder.heardAt ≤ horizon + timing.sweep

/-- The entry is the one of the latest notice, for a whole lease. -/
structure Renewed (timing : NumberedTiming) (holder : NumberedLease σ) (renewed : NumberedEntry σ) :
    Prop where
  entry : holder.entry = some renewed
  latest : holder.latest = some (renewed.number, renewed.source)
  expiry : WithTop.some (holder.heardAt + timing.lease) ≤ renewed.expiry

inductive Phase (timing : NumberedTiming) (horizon : ℕ) (holder : NumberedLease σ) : Prop
  | old {entry : NumberedEntry σ} (h : Old horizon holder entry)
  | swept (h : Swept timing horizon holder)
  | renewed {entry : NumberedEntry σ} (h : Renewed timing holder entry)

variable {timing : NumberedTiming} {horizon : ℕ} {holder holder' : NumberedLease σ}

/-- A renewed entry has not expired. -/
theorem Renewed.now_le {entry : NumberedEntry σ} (h : Renewed timing holder entry)
    (hpunctual : Punctual timing holder) : WithTop.some holder.now ≤ entry.expiry := by
  have hhears := hpunctual.hears
  have hcovers := timing.covers
  calc WithTop.some holder.now
      ≤ WithTop.some (holder.heardAt + timing.lease) := WithTop.coe_le_coe.2 (by omega)
    _ ≤ entry.expiry := h.expiry

theorem Punctual.step {event : Event σ} (h : Punctual timing holder)
    (hstep : (system timing).step holder event holder') : Punctual timing holder' := by
  have hswept := h.sweptAt
  have hheard := h.heardAt
  have hsweeps := h.sweeps
  have hhears := h.hears
  cases event with
  | hear number source =>
    obtain ⟨_, _, _, rfl⟩ := hstep
    exact ⟨hswept, le_refl _, hsweeps, Nat.le_add_right _ _⟩
  | sweep =>
    rw [show holder' = _ from hstep]
    exact ⟨le_refl _, hheard, Nat.le_add_right _ _, hhears⟩
  | elapse duration =>
    obtain ⟨hsweep, hnotice, rfl⟩ := hstep
    exact ⟨Nat.le_add_right_of_le hswept, Nat.le_add_right_of_le hheard, hsweep, hnotice⟩

/-- A notice leaves the entry of the notice, unless it leaves a newer one alone. -/
theorem Hears.cases {number : ℕ} {source : σ} {expiry : WithTop ℕ}
    {entry entry' : Option (NumberedEntry σ)} (h : Hears number source expiry entry entry') :
    (∃ lasting, entry' = some ⟨number, source, lasting⟩ ∧ expiry ≤ lasting) ∨
      ∃ old, entry = some old ∧ entry' = some old ∧ number ≤ old.number := by
  cases h with
  | install _ => exact .inl ⟨_, rfl, le_refl _⟩
  | renew _ _ => exact .inl ⟨_, rfl, le_max_right _ _⟩
  | ignore h => exact .inr ⟨_, rfl, rfl, h⟩

theorem Phase.step {event : Event σ} (h : Phase timing horizon holder)
    (hpunctual : Punctual timing holder)
    (hstep : (system timing).step holder event holder') : Phase timing horizon holder' := by
  cases event with
  | hear number source =>
    obtain ⟨hlatest, entry, hhears, rfl⟩ := hstep
    rcases hhears.cases with ⟨expiry, rfl, hexpiry⟩ | ⟨old, hbefore, rfl, hnumber⟩
    · exact .renewed ⟨rfl, rfl, hexpiry⟩
    · cases h with
      | old h =>
        obtain rfl : _ = old := Option.some_injective _ (h.entry.symm.trans hbefore)
        refine .old ⟨rfl, h.expiry, ?_, h.sweptAt⟩
        rintro _ ⟨⟩
        exact hnumber
      | swept h =>
        rw [h.entry] at hbefore
        cases hbefore
      | renewed h =>
        obtain rfl : _ = old := Option.some_injective _ (h.entry.symm.trans hbefore)
        exact absurd (hlatest _ h.latest) (not_lt.2 hnumber)
  | sweep =>
    rw [show holder' = _ from hstep]
    cases h with
    | @old entry h =>
      by_cases hlasts : WithTop.some holder.now ≤ entry.expiry
      · refine .old ⟨?_, h.expiry, h.newer, WithTop.coe_le_coe.1 (hlasts.trans h.expiry)⟩
        dsimp only
        rw [h.entry]
        exact Option.filter_some_pos (decide_eq_true hlasts)
      · refine .swept ⟨?_, ?_⟩
        · dsimp only
          rw [h.entry]
          exact Option.filter_some_neg (decide_eq_false hlasts)
        · have hheard := hpunctual.heardAt
          have hsweeps := hpunctual.sweeps
          have hswept := h.sweptAt
          dsimp only
          omega
    | swept h =>
      refine .swept ⟨?_, h.heardAt⟩
      dsimp only
      rw [h.entry]
      rfl
    | renewed h =>
      refine .renewed ⟨?_, h.latest, h.expiry⟩
      dsimp only
      rw [h.entry]
      exact Option.filter_some_pos (decide_eq_true (h.now_le hpunctual))
  | elapse duration =>
    obtain ⟨_, _, rfl⟩ := hstep
    cases h with
    | old h => exact .old ⟨h.entry, h.expiry, h.newer, h.sweptAt⟩
    | swept h => exact .swept ⟨h.entry, h.heardAt⟩
    | renewed h => exact .renewed ⟨h.entry, h.latest, h.expiry⟩

/-- Any content that lasts at most until `horizon`, before the first notice. -/
structure Start (timing : NumberedTiming) (horizon : ℕ) (holder : NumberedLease σ) : Prop where
  punctual : Punctual timing holder
  now : holder.now ≤ horizon
  latest : holder.latest = none
  expiry : ∀ entry ∈ holder.entry, entry.expiry ≤ WithTop.some horizon

theorem Start.phase (h : Start timing horizon holder) : Phase timing horizon holder := by
  have hswept := h.punctual.sweptAt
  have hheard := h.punctual.heardAt
  have hnow := h.now
  cases hentry : holder.entry with
  | none => exact .swept ⟨hentry, by omega⟩
  | some entry =>
    refine .old ⟨hentry, h.expiry entry hentry, ?_, by omega⟩
    rw [h.latest]
    nofun

/-- Once the old lease, a sweep and a period have passed, the entry is the one of the latest notice
and has not expired. -/
theorem recovers (h : Start timing horizon holder) {events : List (Event σ)}
    (hrun : (system timing).Run holder events holder')
    (hlate : horizon + timing.sweep + timing.period < holder'.now) :
    ∃ entry, holder'.entry = some entry ∧
      holder'.latest = some (entry.number, entry.source) ∧
      WithTop.some holder'.now ≤ entry.expiry := by
  have hstep (before : NumberedLease σ) (event : Event σ) (after : NumberedLease σ)
      (hbefore : Punctual timing before ∧ Phase timing horizon before)
      (hnext : (system timing).step before event after) :
      Punctual timing after ∧ Phase timing horizon after :=
    ⟨hbefore.1.step hnext, hbefore.2.step hbefore.1 hnext⟩
  obtain ⟨hpunctual, hphase⟩ := hrun.invariant hstep ⟨h.punctual, h.phase⟩
  have hsweeps := hpunctual.sweeps
  have hhears := hpunctual.hears
  cases hphase with
  | old hold =>
    have hswept := hold.sweptAt
    omega
  | swept hswept =>
    have hheard := hswept.heardAt
    omega
  | renewed hrenewed =>
    exact ⟨_, hrenewed.entry, hrenewed.latest, hrenewed.now_le hpunctual⟩

end NumberedLease

end P2PApp
