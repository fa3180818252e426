import Mathlib.Data.List.Basic
import Mathlib.Logic.Function.Basic
import Mathlib.Order.Lattice.Nat
import P2PApp.Library.TransitionSystem

/-!
# A set that is mirrored by leases

An owner tells a mirror over a queue which keys it holds. It repeats all of them every `period`, a
notice is under way for at most `delay`, and both sides forget a key `lease` after they have last
heard of it. If the period and the delay fit into a lease, nothing that is held is ever forgotten,
in whatever order the steps come, and the mirror believes just what it was told last.
-/

namespace P2PApp

structure LeaseTiming where
  period : ℕ
  delay : ℕ
  lease : ℕ
  covers : period + delay ≤ lease

/-- That a key is held, or no longer is. -/
structure Notice (κ : Type*) where
  key : κ
  held : Bool
  sentAt : ℕ
  deriving DecidableEq

/-- The leases of the owner and of the mirror are the times until which they last. The notices that
have arrived are kept as a record. -/
structure LeaseMirror (κ : Type*) where
  now : ℕ
  refreshedAt : ℕ
  held : κ → Option ℕ
  queue : List (Notice κ)
  heard : List (Notice κ)
  belief : κ → Option ℕ

namespace LeaseMirror

variable {κ : Type*} [DecidableEq κ] (timing : LeaseTiming)

inductive Event (κ : Type*)
  | announce (key : κ)
  | withdraw (key : κ)
  | refresh (keys : List κ)
  | deliver
  /-- The owner forgets what has expired. -/
  | expireHeld
  /-- The mirror forgets what has expired. -/
  | expireBelief
  | elapse (duration : ℕ)

def announceAll (mirror : LeaseMirror κ) (keys : List κ) : LeaseMirror κ :=
  { mirror with
    held := fun key ↦ if key ∈ keys then some (mirror.now + timing.lease) else mirror.held key
    queue := mirror.queue ++ keys.map fun key ↦ ⟨key, true, mirror.now⟩ }

theorem announceAll_cons (mirror : LeaseMirror κ) (key : κ) (keys : List κ) :
    (mirror.announceAll timing [key]).announceAll timing keys =
      mirror.announceAll timing (key :: keys) := by
  unfold announceAll
  congr 1
  · funext other
    by_cases hmem : other ∈ keys <;> simp [hmem]
  · simp

/-- Only what is held is withdrawn. -/
def withdraw (mirror : LeaseMirror κ) (key : κ) : LeaseMirror κ :=
  match mirror.held key with
  | none => mirror
  | some _ =>
    { mirror with
      held := Function.update mirror.held key none
      queue := mirror.queue ++ [⟨key, false, mirror.now⟩] }

def hear (mirror : LeaseMirror κ) (notice : Notice κ) : LeaseMirror κ :=
  { mirror with
    heard := mirror.heard ++ [notice]
    belief := Function.update mirror.belief notice.key
      (if notice.held then some (mirror.now + timing.lease) else none) }

def next (mirror : LeaseMirror κ) : Event κ → LeaseMirror κ
  | .announce key => mirror.announceAll timing [key]
  | .withdraw key => mirror.withdraw key
  | .refresh keys => { mirror.announceAll timing keys with refreshedAt := mirror.now }
  | .deliver =>
    match mirror.queue with
    | [] => mirror
    | notice :: queue => { mirror with queue }.hear timing notice
  | .expireHeld =>
    { mirror with held := fun key ↦ (mirror.held key).filter fun expiry ↦ mirror.now ≤ expiry }
  | .expireBelief =>
    { mirror with
      belief := fun key ↦ (mirror.belief key).filter fun expiry ↦ mirror.now ≤ expiry }
  | .elapse duration => { mirror with now := mirror.now + duration }

@[simp] theorem held_next_deliver (mirror : LeaseMirror κ) :
    (mirror.next timing .deliver).held = mirror.held := by
  rw [next]
  cases mirror.queue <;> rfl

/-- A refresh repeats all that is held, and time stops where a notice or a refresh is due. -/
def Enabled (mirror : LeaseMirror κ) : Event κ → Prop
  | .refresh keys => ∀ key, (mirror.held key).isSome → key ∈ keys
  | .elapse duration =>
    mirror.now + duration ≤ mirror.refreshedAt + timing.period ∧
      ∀ notice ∈ mirror.queue, mirror.now + duration ≤ notice.sentAt + timing.delay
  | _ => True

def system : TransitionSystem (LeaseMirror κ) (Event κ) := .ofNext (Enabled timing) (next timing)

/-- The key is among those of the mirror, and its lease has not expired. -/
def Believes (mirror : LeaseMirror κ) (key : κ) : Prop :=
  ∃ expiry, mirror.belief key = some expiry ∧ mirror.now ≤ expiry

/-- Nothing is held or believed, and nothing is under way. -/
def start (now : ℕ) : LeaseMirror κ where
  now := now
  refreshedAt := now
  held _ := none
  queue := []
  heard := []
  belief _ := none

/-! ## What the notices say about one key -/

def about (notices : List (Notice κ)) (key : κ) : List (Notice κ) :=
  notices.filter fun notice ↦ notice.key = key

/-- Whether the key is held after the notices, if it was before them. -/
def holdsAfter (before : Bool) (notices : List (Notice κ)) (key : κ) : Bool :=
  ((about notices key).getLast?.map Notice.held).getD before

/-- The time by which the mirror hears of the key again. -/
def dueBy (mirror : LeaseMirror κ) (key : κ) : ℕ :=
  ((about mirror.queue key).head?.map Notice.sentAt).getD (mirror.refreshedAt + timing.period) +
    timing.delay

theorem about_append (first later : List (Notice κ)) (key : κ) :
    about (first ++ later) key = about first key ++ about later key :=
  List.filter_append ..

theorem about_cons (notice : Notice κ) (notices : List (Notice κ)) (key : κ) :
    about (notice :: notices) key =
      if notice.key = key then notice :: about notices key else about notices key := by
  simp only [about, List.filter_cons, decide_eq_true_eq]

theorem about_announced (now : ℕ) (keys : List κ) (key : κ) :
    about (keys.map fun key ↦ (⟨key, true, now⟩ : Notice κ)) key =
      List.replicate (keys.count key) ⟨key, true, now⟩ := by
  induction keys with
  | nil => rfl
  | cons first keys ih =>
    rw [List.map_cons, about_cons, ih, List.count_cons]
    by_cases hfirst : first = key
    · subst hfirst
      simp [List.replicate_succ]
    · simp [hfirst]

@[simp] theorem holdsAfter_nil (before : Bool) (key : κ) :
    holdsAfter before ([] : List (Notice κ)) key = before := rfl

theorem holdsAfter_concat (before : Bool) (notices : List (Notice κ)) (notice : Notice κ)
    (key : κ) : holdsAfter before (notices ++ [notice]) key =
      if notice.key = key then notice.held else holdsAfter before notices key := by
  unfold holdsAfter
  rw [about_append, about_cons]
  split_ifs <;> simp [about]

theorem holdsAfter_cons (before : Bool) (notice : Notice κ) (notices : List (Notice κ)) (key : κ) :
    holdsAfter before (notice :: notices) key =
      holdsAfter (if notice.key = key then notice.held else before) notices key := by
  unfold holdsAfter
  rw [about_cons]
  split_ifs with hkey
  · cases hlast : (about notices key).getLast? with
    | none =>
      rw [List.getLast?_eq_none_iff] at hlast
      rw [hlast]
      rfl
    | some last =>
      rw [List.getLast?_cons, hlast]
      rfl
  · rfl

theorem holdsAfter_announced (before : Bool) (now : ℕ) (notices : List (Notice κ)) (keys : List κ)
    (key : κ) :
    holdsAfter before (notices ++ keys.map fun key ↦ ⟨key, true, now⟩) key =
      if key ∈ keys then true else holdsAfter before notices key := by
  unfold holdsAfter
  rw [about_append, about_announced]
  split_ifs with hmem
  · have hpositive : List.count key keys ≠ 0 := (List.count_pos_iff.2 hmem).ne'
    rw [List.getLast?_append_of_ne_nil _ (by simpa using hpositive), List.getLast?_replicate,
      if_neg hpositive]
    rfl
  · rw [List.count_eq_zero.2 hmem, List.replicate_zero, List.append_nil]

/-! ## The invariant -/

/-- No lease runs out before it is renewed, and what is under way accounts for what the mirror does
not know yet. -/
structure Fresh (mirror : LeaseMirror κ) : Prop where
  refreshedAt : mirror.refreshedAt ≤ mirror.now
  punctual : mirror.now ≤ mirror.refreshedAt + timing.period
  sentAt : ∀ notice ∈ mirror.queue, notice.sentAt ≤ mirror.now
  arrives : ∀ notice ∈ mirror.queue, mirror.now ≤ notice.sentAt + timing.delay
  held : ∀ key expiry, mirror.held key = some expiry → mirror.refreshedAt + timing.lease ≤ expiry
  belief : ∀ key expiry, mirror.belief key = some expiry → mirror.dueBy timing key ≤ expiry
  settles : ∀ key, holdsAfter (mirror.belief key).isSome mirror.queue key = (mirror.held key).isSome
  heard : ∀ key, (mirror.belief key).isSome = holdsAfter false mirror.heard key

variable {timing}

theorem fresh_start (now : ℕ) : Fresh timing (start now : LeaseMirror κ) where
  refreshedAt := le_rfl
  punctual := Nat.le_add_right _ _
  sentAt _ hmem := nomatch hmem
  arrives _ hmem := nomatch hmem
  held _ _ h := nomatch h
  belief _ _ h := nomatch h
  settles _ := rfl
  heard _ := rfl

variable {mirror : LeaseMirror κ}

theorem Fresh.now_le_dueBy (h : Fresh timing mirror) (key : κ) :
    mirror.now ≤ mirror.dueBy timing key := by
  unfold dueBy
  cases hhead : (about mirror.queue key).head? with
  | none => exact h.punctual.trans (Nat.le_add_right _ _)
  | some notice => exact h.arrives notice (List.mem_filter.1 (List.mem_of_mem_head? hhead)).1

/-- What is believed has not expired. -/
theorem Fresh.now_le_belief (h : Fresh timing mirror) {key : κ} {expiry : ℕ}
    (hbelief : mirror.belief key = some expiry) : mirror.now ≤ expiry :=
  (h.now_le_dueBy key).trans (h.belief key expiry hbelief)

theorem Fresh.believes_iff (h : Fresh timing mirror) {key : κ} :
    mirror.Believes key ↔ (mirror.belief key).isSome = true := by
  rw [Option.isSome_iff_exists]
  constructor
  · rintro ⟨expiry, hbelief, -⟩
    exact ⟨expiry, hbelief⟩
  · rintro ⟨expiry, hbelief⟩
    exact ⟨expiry, hbelief, h.now_le_belief hbelief⟩

/-- What is held has not expired. -/
theorem Fresh.now_le_held (h : Fresh timing mirror) {key : κ} {expiry : ℕ}
    (hheld : mirror.held key = some expiry) : mirror.now ≤ expiry := by
  have hexpiry := h.held key expiry hheld
  have hpunctual := h.punctual
  have hcovers := timing.covers
  omega

/-- Announcing keys, with the refresh counted from now on if all that is held is among them. -/
theorem Fresh.announceAll (h : Fresh timing mirror) (keys : List κ) {refreshedAt : ℕ}
    (hrefreshed : refreshedAt = mirror.refreshedAt ∨
      refreshedAt = mirror.now ∧ ∀ key, (mirror.held key).isSome → key ∈ keys) :
    Fresh timing { mirror.announceAll timing keys with refreshedAt } where
  refreshedAt := by
    rcases hrefreshed with rfl | ⟨rfl, -⟩
    · exact h.refreshedAt
    · exact le_rfl
  punctual := by
    rcases hrefreshed with rfl | ⟨rfl, -⟩
    · exact h.punctual
    · exact Nat.le_add_right _ _
  sentAt notice hmem := by
    rcases List.mem_append.1 hmem with hbefore | hnew
    · exact h.sentAt notice hbefore
    · obtain ⟨_, _, rfl⟩ := List.mem_map.1 hnew
      exact le_rfl
  arrives notice hmem := by
    rcases List.mem_append.1 hmem with hbefore | hnew
    · exact h.arrives notice hbefore
    · obtain ⟨_, _, rfl⟩ := List.mem_map.1 hnew
      exact Nat.le_add_right _ _
  held key expiry hheld := by
    have hnow := h.refreshedAt
    change (if key ∈ keys then some (mirror.now + timing.lease) else mirror.held key) =
      some expiry at hheld
    split_ifs at hheld with hmem
    · cases hheld
      rcases hrefreshed with rfl | ⟨rfl, -⟩
      · exact Nat.add_le_add_right hnow _
      · exact le_rfl
    · rcases hrefreshed with rfl | ⟨rfl, hall⟩
      · exact h.held key expiry hheld
      · exact absurd (hall key (by rw [hheld]; rfl)) hmem
  belief key expiry hbelief := by
    have hdue := h.belief key expiry hbelief
    have hpunctual := h.punctual
    unfold dueBy at hdue ⊢
    change ((about (mirror.queue ++ keys.map fun key ↦ ⟨key, true, mirror.now⟩) key).head?.map
      Notice.sentAt).getD _ + _ ≤ _
    rw [about_append]
    cases hbefore : about mirror.queue key with
    | cons notice rest =>
      rw [hbefore] at hdue
      exact hdue
    | nil =>
      rw [hbefore] at hdue
      change mirror.refreshedAt + timing.period + timing.delay ≤ expiry at hdue
      rw [List.nil_append, about_announced]
      by_cases hmem : key ∈ keys
      · obtain ⟨count, hcount⟩ :=
          Nat.exists_eq_add_one_of_ne_zero (List.count_pos_iff.2 hmem).ne'
        rw [hcount]
        change mirror.now + timing.delay ≤ expiry
        omega
      · rw [List.count_eq_zero.2 hmem]
        change refreshedAt + timing.period + timing.delay ≤ expiry
        rcases hrefreshed with rfl | ⟨rfl, hall⟩
        · exact hdue
        · -- What is believed and not about to change is held, and so it is repeated.
          have hsettles := h.settles key
          change mirror.belief key = some expiry at hbelief
          rw [holdsAfter, hbefore, hbelief] at hsettles
          exact absurd (hall key hsettles.symm) hmem
  settles key := by
    change holdsAfter (mirror.belief key).isSome
        (mirror.queue ++ keys.map fun key ↦ ⟨key, true, mirror.now⟩) key =
      (if key ∈ keys then some (mirror.now + timing.lease) else mirror.held key).isSome
    rw [holdsAfter_announced, h.settles key]
    split_ifs <;> rfl
  heard := h.heard

theorem Fresh.withdraw (h : Fresh timing mirror) (key : κ) :
    Fresh timing (mirror.withdraw key) := by
  unfold LeaseMirror.withdraw
  cases hheld : mirror.held key with
  | none => exact h
  | some expiry =>
    refine ⟨h.refreshedAt, h.punctual, ?_, ?_, ?_, ?_, ?_, h.heard⟩
    · intro notice hmem
      rcases List.mem_append.1 hmem with hbefore | hnew
      · exact h.sentAt notice hbefore
      · rw [List.mem_singleton.1 hnew]
    · intro notice hmem
      rcases List.mem_append.1 hmem with hbefore | hnew
      · exact h.arrives notice hbefore
      · rw [List.mem_singleton.1 hnew]
        exact Nat.le_add_right _ _
    · intro other expiry hother
      by_cases hkey : other = key
      · subst hkey
        simp at hother
      · exact h.held other expiry (by simpa [hkey] using hother)
    · intro other expiry hbelief
      have hdue := h.belief other expiry hbelief
      have hpunctual := h.punctual
      unfold dueBy at hdue ⊢
      dsimp only
      rw [about_append]
      cases hbefore : about mirror.queue other with
      | cons notice rest =>
        rw [hbefore] at hdue
        exact hdue
      | nil =>
        rw [hbefore] at hdue
        change mirror.refreshedAt + timing.period + timing.delay ≤ expiry at hdue
        rw [List.nil_append, about_cons]
        split_ifs
        · change mirror.now + timing.delay ≤ expiry
          omega
        · exact hdue
    · intro other
      dsimp only
      rw [holdsAfter_concat, h.settles other]
      by_cases hkey : other = key
      · subst hkey
        simp
      · simp [hkey, Ne.symm hkey]

theorem Fresh.hear {notice : Notice κ} {queue : List (Notice κ)} (h : Fresh timing mirror)
    (hqueue : mirror.queue = notice :: queue) :
    Fresh timing ({ mirror with queue }.hear timing notice) where
  refreshedAt := h.refreshedAt
  punctual := h.punctual
  sentAt other hmem := h.sentAt other (hqueue ▸ List.mem_cons_of_mem _ hmem)
  arrives other hmem := h.arrives other (hqueue ▸ List.mem_cons_of_mem _ hmem)
  held := h.held
  belief key expiry hbelief := by
    have hcovers := timing.covers
    by_cases hkey : key = notice.key
    · subst hkey
      have hexpiry : expiry = mirror.now + timing.lease := by
        have hnew : (if notice.held then some (mirror.now + timing.lease) else none) =
            some expiry := by simpa [LeaseMirror.hear] using hbelief
        split_ifs at hnew
        exact (Option.some.inj hnew).symm
      have hlatest : ((about queue notice.key).head?.map Notice.sentAt).getD
          (mirror.refreshedAt + timing.period) ≤ mirror.now + timing.period := by
        cases hhead : (about queue notice.key).head? with
        | none => exact Nat.add_le_add_right h.refreshedAt _
        | some later =>
          have hmem := (List.mem_filter.1 (List.mem_of_mem_head? hhead)).1
          exact (h.sentAt later (hqueue ▸ List.mem_cons_of_mem _ hmem)).trans
            (Nat.le_add_right _ _)
      change ((about queue notice.key).head?.map Notice.sentAt).getD
        (mirror.refreshedAt + timing.period) + timing.delay ≤ expiry
      omega
    · have hsame : mirror.belief key = some expiry := by
        simpa [LeaseMirror.hear, hkey] using hbelief
      have hdue := h.belief key expiry hsame
      unfold dueBy at hdue ⊢
      rw [hqueue, about_cons, if_neg (Ne.symm hkey)] at hdue
      exact hdue
  settles key := by
    have hsettles := h.settles key
    rw [hqueue, holdsAfter_cons] at hsettles
    change holdsAfter (Function.update mirror.belief notice.key _ key).isSome queue key =
      (mirror.held key).isSome
    rw [← hsettles]
    by_cases hkey : key = notice.key
    · subst hkey
      cases notice.held <;> simp
    · simp [hkey, Ne.symm hkey]
  heard key := by
    change (Function.update mirror.belief notice.key _ key).isSome =
      holdsAfter false (mirror.heard ++ [notice]) key
    rw [holdsAfter_concat, ← h.heard key]
    by_cases hkey : key = notice.key
    · subst hkey
      cases notice.held <;> simp
    · simp [hkey, Ne.symm hkey]

/-- Nothing that is held has expired. -/
theorem Fresh.expireHeld_eq (h : Fresh timing mirror) :
    mirror.next timing .expireHeld = mirror := by
  have hsame : (fun key ↦ (mirror.held key).filter fun expiry ↦ mirror.now ≤ expiry) =
      mirror.held := by
    funext key
    cases hheld : mirror.held key with
    | none => rfl
    | some expiry => simp [h.now_le_held hheld]
  simp only [next, hsame]

/-- Nothing that is believed has expired. -/
theorem Fresh.expireBelief_eq (h : Fresh timing mirror) :
    mirror.next timing .expireBelief = mirror := by
  have hsame : (fun key ↦ (mirror.belief key).filter fun expiry ↦ mirror.now ≤ expiry) =
      mirror.belief := by
    funext key
    cases hbelief : mirror.belief key with
    | none => rfl
    | some expiry => simp [h.now_le_belief hbelief]
  simp only [next, hsame]

theorem Fresh.next {event : Event κ} (h : Fresh timing mirror)
    (henabled : mirror.Enabled timing event) : Fresh timing (mirror.next timing event) := by
  cases event with
  | announce key => exact h.announceAll [key] (.inl rfl)
  | withdraw key => exact h.withdraw key
  | refresh keys => exact h.announceAll keys (.inr ⟨rfl, henabled⟩)
  | deliver =>
    unfold LeaseMirror.next
    cases hqueue : mirror.queue with
    | nil => exact h
    | cons notice queue => exact h.hear hqueue
  | expireHeld =>
    rw [h.expireHeld_eq]
    exact h
  | expireBelief =>
    rw [h.expireBelief_eq]
    exact h
  | elapse duration =>
    refine ⟨h.refreshedAt.trans (Nat.le_add_right _ _), henabled.1, fun notice hmem ↦ ?_,
      henabled.2, h.held, h.belief, h.settles, h.heard⟩
    exact (h.sentAt notice hmem).trans (Nat.le_add_right _ _)

theorem fresh_of_run {now : ℕ} {events : List (Event κ)}
    (h : (system timing).Run (start now) events mirror) : Fresh timing mirror :=
  h.invariant_next (fun _ _ hfresh henabled ↦ hfresh.next henabled) (fresh_start now)

/-- The mirror believes what it was told last, until it is told otherwise. -/
theorem Believes.iff_heard {now : ℕ} {events : List (Event κ)}
    (h : (system timing).Run (start now) events mirror) (key : κ) :
    mirror.Believes key ↔ holdsAfter false mirror.heard key = true := by
  rw [(fresh_of_run h).believes_iff, (fresh_of_run h).heard key]

/-- Where no notice is under way, the mirror believes what the owner holds. -/
theorem Believes.iff_held {now : ℕ} {events : List (Event κ)}
    (h : (system timing).Run (start now) events mirror) {key : κ}
    (hsettled : about mirror.queue key = []) :
    mirror.Believes key ↔ (mirror.held key).isSome = true := by
  have hsettles := (fresh_of_run h).settles key
  rw [holdsAfter, hsettled] at hsettles
  rw [(fresh_of_run h).believes_iff, ← hsettles]
  rfl

end LeaseMirror

end P2PApp
