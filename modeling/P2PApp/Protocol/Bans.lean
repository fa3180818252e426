import P2PApp.Library.SlidingWindow
import P2PApp.Protocol.Throttling

/-!
# Temporary bans

The limiter keeps a short list of violation times of each peer, pruned at every violation and
dropped at a ban. Over any run of calls with a clock that does not go back, this list is the window
of all violations since the last ban, so that a ban depends on their number within the last minute.
A ban lasts for five minutes to the millisecond, in which calls of the peer leave no trace.
-/

namespace P2PApp

/-- What became of a call: refused because of a ban, or judged by the bucket. -/
inductive LimitOutcome
  | refused
  | accepted
  | rateLimited
  deriving DecidableEq, Repr

namespace RateLimiter

open SlidingWindow

variable {Peer : Type*} [DecidableEq Peer]

def outcome (limiter : RateLimiter Peer) (call : LimitCall Peer) : LimitOutcome :=
  if (limiter.bannedPeers.get? call.peerId).any fun expiration ↦ call.now ≤ expiration then .refused
  else if 1 ≤ (limiter.refilledBucket call.now call.peerId).tokens then .accepted
  else .rateLimited

/-- The peer is not banned at the call, and it is after it. -/
def Bans (limiter : RateLimiter Peer) (call : LimitCall Peer) : Prop :=
  limiter.NotBanned call.now call.peerId ∧
    ∃ expiration, (limiter.next call).bannedPeers.get? call.peerId = some expiration

/-- The violations of a peer since its last ban, if they were `since` before the call. -/
def sinceAfter (peerId : Peer) (limiter : RateLimiter Peer) (since : List ℕ)
    (call : LimitCall Peer) : List ℕ :=
  if call.peerId = peerId ∧ limiter.outcome call = .rateLimited then
    if (limiter.next call).bannedPeers.has peerId then [] else since ++ [call.now]
  else since

/-- The times of the rate-limited calls of a peer since its last ban. -/
def violationsSinceBan (peerId : Peer) (limiter : RateLimiter Peer) (since : List ℕ) :
    List (LimitCall Peer) → List ℕ
  | [] => since
  | call :: calls =>
    violationsSinceBan peerId (limiter.next call) (sinceAfter peerId limiter since call) calls

/-- The history that the limiter holds of a peer, empty if there is none. -/
def history (limiter : RateLimiter Peer) (peerId : Peer) : List ℕ :=
  (limiter.violations.get? peerId).getD []

theorem outcome_of_banned {limiter : RateLimiter Peer} {call : LimitCall Peer}
    (h : ¬limiter.NotBanned call.now call.peerId) : limiter.outcome call = .refused := by
  unfold NotBanned at h
  push Not at h
  obtain ⟨expiration, hexpiration, hle⟩ := h
  simp [outcome, hexpiration, hle]

/-- Past the ban check the bucket decides. -/
theorem outcome_of_notBanned {limiter : RateLimiter Peer} {call : LimitCall Peer}
    (h : limiter.NotBanned call.now call.peerId) :
    limiter.outcome call = if 1 ≤ (limiter.refilledBucket call.now call.peerId).tokens then
      .accepted else .rateLimited := by
  refine if_neg ?_
  intro hany
  obtain ⟨expiration, hexpiration, hle⟩ := (Option.any_eq_true _ _).1 hany
  exact absurd (h expiration hexpiration) (not_lt.2 (of_decide_eq_true hle))

/-- Everything a call can do to its peer, by outcome. -/
theorem outcome_cases (limiter : RateLimiter Peer) (call : LimitCall Peer) :
    (limiter.outcome call = .refused ∧ ¬limiter.NotBanned call.now call.peerId ∧
      limiter.answer call = false ∧ limiter.next call = limiter) ∨
    (limiter.outcome call = .accepted ∧ limiter.NotBanned call.now call.peerId ∧
      1 ≤ (limiter.refilledBucket call.now call.peerId).tokens ∧ limiter.answer call = true ∧
      (limiter.next call).violations.get? call.peerId = limiter.violations.get? call.peerId ∧
      (limiter.next call).bannedPeers.get? call.peerId = none) ∨
    (limiter.outcome call = .rateLimited ∧ limiter.NotBanned call.now call.peerId ∧
      (limiter.refilledBucket call.now call.peerId).tokens < 1 ∧ limiter.answer call = false ∧
      ((limiter.next call).violations.get? call.peerId,
          (limiter.next call).bannedPeers.get? call.peerId) =
        if BAN_THRESHOLD < (push VIOLATION_WINDOW_MS (limiter.history call.peerId)
            call.now).length then (none, some (call.now + BAN_DURATION_MS))
        else (some (push VIOLATION_WINDOW_MS (limiter.history call.peerId) call.now), none)) := by
  rcases limiter.checkLimit_cases call.now call.peerId with ⟨hbanned, heq⟩ |
    ⟨hnot, hle, hanswer, hrecord⟩ | ⟨hnot, hlt, hanswer, hrecord⟩
  · exact .inl ⟨outcome_of_banned hbanned, hbanned, congrArg Prod.fst heq, congrArg Prod.snd heq⟩
  · exact .inr (.inl ⟨by rw [outcome_of_notBanned hnot, if_pos hle], hnot, hle, hanswer,
      congrArg (fun record ↦ record.2.1) hrecord, congrArg (fun record ↦ record.2.2) hrecord⟩)
  · exact .inr (.inr ⟨by rw [outcome_of_notBanned hnot, if_neg (not_le.2 hlt)], hnot, hlt, hanswer,
      congrArg Prod.snd hrecord⟩)

/-! ## The history is a window -/

/-- The history is a window of `since`, which came in order, up to `horizon`. -/
structure Tracks (limiter : RateLimiter Peer) (peerId : Peer) (since : List ℕ) (horizon : ℕ) :
    Prop where
  window : ∃ latest ≤ horizon, limiter.history peerId = window VIOLATION_WINDOW_MS latest since
  ordered : since.Pairwise (· ≤ ·)
  past : ∀ time ∈ since, time ≤ horizon
  bounded : (limiter.history peerId).length ≤ BAN_THRESHOLD

theorem tracks_new (capacity refillRate : ℚ) (peerId : Peer) :
    (new capacity refillRate).Tracks peerId [] 0 := by
  refine ⟨⟨0, le_rfl, rfl⟩, .nil, by simp, Nat.zero_le _⟩

theorem Tracks.mono {limiter : RateLimiter Peer} {peerId : Peer} {since : List ℕ}
    {horizon later : ℕ} (h : limiter.Tracks peerId since horizon) (hle : horizon ≤ later) :
    limiter.Tracks peerId since later := by
  obtain ⟨⟨latest, hlatest, hwindow⟩, hordered, hpast, hbounded⟩ := h
  exact ⟨⟨latest, hlatest.trans hle, hwindow⟩, hordered,
    fun time htime ↦ (hpast time htime).trans hle, hbounded⟩

/-- Only the history matters to what it tracks. -/
theorem Tracks.congr {limiter other : RateLimiter Peer} {peerId : Peer} {since : List ℕ}
    {horizon : ℕ} (h : limiter.Tracks peerId since horizon)
    (hhistory : other.history peerId = limiter.history peerId) :
    other.Tracks peerId since horizon :=
  ⟨hhistory.symm ▸ h.window, h.ordered, h.past, hhistory.symm ▸ h.bounded⟩

theorem Tracks.ordered_concat {limiter : RateLimiter Peer} {peerId : Peer} {since : List ℕ}
    {horizon now : ℕ} (h : limiter.Tracks peerId since horizon) (hnow : horizon ≤ now) :
    (since ++ [now]).Pairwise (· ≤ ·) := by
  refine List.pairwise_append.2 ⟨h.ordered, List.pairwise_singleton .., ?_⟩
  intro time htime other hother
  rw [List.mem_singleton.1 hother]
  exact (h.past time htime).trans hnow

/-- The history that a violation leaves, or the reason for a ban, is the window at that time. -/
theorem Tracks.push {limiter : RateLimiter Peer} {peerId : Peer} {since : List ℕ}
    {horizon now : ℕ} (h : limiter.Tracks peerId since horizon) (hnow : horizon ≤ now) :
    push VIOLATION_WINDOW_MS (limiter.history peerId) now =
      SlidingWindow.window VIOLATION_WINDOW_MS now (since ++ [now]) := by
  obtain ⟨latest, hlatest, hwindow⟩ := h.window
  rw [hwindow]
  exact push_window (hlatest.trans hnow) (h.ordered_concat hnow)

theorem Tracks.next {limiter : RateLimiter Peer} {peerId : Peer} {since : List ℕ} {horizon : ℕ}
    {call : LimitCall Peer} (h : limiter.Tracks peerId since horizon)
    (hnow : horizon ≤ call.now) :
    (limiter.next call).Tracks peerId (sinceAfter peerId limiter since call) call.now := by
  by_cases hpeer : call.peerId = peerId
  · subst hpeer
    rcases limiter.outcome_cases call with ⟨houtcome, _, _, hnext⟩ |
      ⟨houtcome, _, _, _, hviolations, _⟩ | ⟨houtcome, _, _, _, heq⟩
    · rw [sinceAfter, houtcome, if_neg (by simp), hnext]
      exact h.mono hnow
    · rw [sinceAfter, houtcome, if_neg (by simp)]
      exact (h.mono hnow).congr (congrArg (Option.getD · []) hviolations)
    · rw [sinceAfter, houtcome, if_pos ⟨rfl, rfl⟩]
      split at heq
      · obtain ⟨hviolations, hban⟩ := Prod.mk.inj heq
        have hhistory : (limiter.next call).history call.peerId = [] := by
          rw [history, hviolations]
          rfl
        rw [OrderedMap.has, hban, Option.isSome_some, if_pos rfl]
        refine ⟨⟨call.now, le_rfl, hhistory⟩, .nil, by simp, ?_⟩
        rw [hhistory]
        exact Nat.zero_le _
      · rename_i hfew
        obtain ⟨hviolations, hban⟩ := Prod.mk.inj heq
        have hhistory : (limiter.next call).history call.peerId =
            SlidingWindow.push VIOLATION_WINDOW_MS (limiter.history call.peerId) call.now := by
          rw [history, hviolations]
          rfl
        rw [OrderedMap.has, hban, Option.isSome_none, if_neg (by simp)]
        refine ⟨⟨call.now, le_rfl, hhistory.trans (h.push hnow)⟩, h.ordered_concat hnow, ?_, ?_⟩
        · intro time htime
          rcases List.mem_append.1 htime with hold | hnew
          · exact (h.past time hold).trans hnow
          · exact (List.mem_singleton.1 hnew).le
        · rw [hhistory]
          exact not_lt.1 hfew
  · rw [sinceAfter, if_neg fun hcase ↦ hpeer hcase.1]
    have hrecord := limiter.record_next_of_ne hpeer
    exact (h.mono hnow).congr (congrArg (fun record ↦ record.2.1.getD []) hrecord)

/-- Over a run the history stays a window of the violations since the last ban. -/
theorem Tracks.after {limiter : RateLimiter Peer} {peerId : Peer} {since : List ℕ}
    {horizon later : ℕ} {calls : List (LimitCall Peer)} (h : limiter.Tracks peerId since horizon)
    (hordered : InOrder calls) (hnow : ∀ call ∈ calls, horizon ≤ call.now ∧ call.now ≤ later)
    (hlater : horizon ≤ later) :
    (limiter.after calls).Tracks peerId (violationsSinceBan peerId limiter since calls) later := by
  induction calls generalizing limiter since horizon with
  | nil => exact h.mono hlater
  | cons call calls ih =>
    obtain ⟨hfirst, hrest⟩ := List.pairwise_cons.1 hordered
    obtain ⟨hge, hle⟩ := hnow call List.mem_cons_self
    exact ih (h.next hge) hrest (fun call' hcall' ↦
      ⟨hfirst call' hcall', (hnow call' (List.mem_cons_of_mem _ hcall')).2⟩) hle

/-! ## During a ban -/

/-- A ban keeps the record of its peer as it is until it has expired. -/
theorem record_after_of_banned {limiter : RateLimiter Peer} {peerId : Peer} {expiration : ℕ}
    {calls : List (LimitCall Peer)} (hban : limiter.bannedPeers.get? peerId = some expiration)
    (hcalls : ∀ call ∈ calls, call.peerId = peerId → call.now ≤ expiration) :
    (limiter.after calls).record peerId = limiter.record peerId := by
  induction calls generalizing limiter with
  | nil => rfl
  | cons call calls ih =>
    have hnext : (limiter.next call).record peerId = limiter.record peerId := by
      by_cases hpeer : call.peerId = peerId
      · subst hpeer
        have hle := hcalls call List.mem_cons_self rfl
        rw [RateLimiter.next, checkLimit, hban]
        simp [not_lt.2 hle]
      · exact limiter.record_next_of_ne hpeer
    have hban' : (limiter.next call).bannedPeers.get? peerId = some expiration :=
      (congrArg (fun record ↦ record.2.2) hnext).trans hban
    exact (ih hban' fun call' hcall' ↦ hcalls call' (List.mem_cons_of_mem _ hcall')).trans hnext

/-- A ban comes with a violation, if there were too many, and lasts for the ban duration. -/
theorem bans_iff (limiter : RateLimiter Peer) (call : LimitCall Peer) :
    limiter.Bans call ↔ limiter.outcome call = .rateLimited ∧
      BAN_THRESHOLD < (push VIOLATION_WINDOW_MS (limiter.history call.peerId) call.now).length := by
  unfold Bans
  rcases limiter.outcome_cases call with ⟨houtcome, hbanned, _, _⟩ |
    ⟨houtcome, _, _, _, _, hban⟩ | ⟨houtcome, hnot, _, _, heq⟩
  · simp [houtcome, hbanned]
  · simp [houtcome, hban]
  · have hban := congrArg Prod.snd heq
    split at hban
    · rename_i hmany
      exact iff_of_true ⟨hnot, _, hban⟩ ⟨houtcome, hmany⟩
    · rename_i hfew
      refine iff_of_false ?_ fun h ↦ hfew h.2
      rintro ⟨_, expiration, hexpiration⟩
      cases hexpiration.symm.trans hban

theorem Bans.expiration {limiter : RateLimiter Peer} {call : LimitCall Peer}
    (h : limiter.Bans call) :
    (limiter.next call).bannedPeers.get? call.peerId = some (call.now + BAN_DURATION_MS) := by
  obtain ⟨houtcome, hmany⟩ := (limiter.bans_iff call).1 h
  rcases limiter.outcome_cases call with ⟨hother, _⟩ | ⟨hother, _⟩ | ⟨_, _, _, _, heq⟩
  · rw [houtcome] at hother
    cases hother
  · rw [houtcome] at hother
    cases hother
  · rw [if_pos hmany] at heq
    exact congrArg Prod.snd heq

/-- What the window over the whole history of calls says about the call and those after it, if the
violations of its peer since the last ban are `since`. -/
structure ObeysWindow (limiter : RateLimiter Peer) (since : List ℕ) (call : LimitCall Peer)
    (rest : List (LimitCall Peer)) : Prop where
  bans_iff : limiter.Bans call ↔ limiter.outcome call = .rateLimited ∧
    11 ≤ ((since ++ [call.now]).filter fun time ↦
      call.now ≤ time + 60000 ∧ time ≤ call.now).length
  refuses : limiter.Bans call → ∀ between later rest', rest = between ++ later :: rest' →
    later.peerId = call.peerId → later.now ≤ call.now + 300000 →
      ((limiter.next call).after between).answer later = false ∧
      ((limiter.next call).after (between ++ [later])).record call.peerId =
        (limiter.next call).record call.peerId
  judges : limiter.Bans call → ∀ between later rest', rest = between ++ later :: rest' →
    later.peerId = call.peerId → call.now + 300000 < later.now →
    (∀ other ∈ between, other.peerId = call.peerId → other.now ≤ call.now + 300000) →
      ((limiter.next call).after between).record call.peerId =
        (limiter.next call).record call.peerId ∧
      (((limiter.next call).after between).answer later = true ↔
        1 ≤ (((limiter.next call).after between).refilledBucket later.now later.peerId).tokens)
  bounded : (limiter.history call.peerId).length ≤ 10 ∧
    ((limiter.next call).history call.peerId).length ≤ 10

/-- In every run with a clock that does not go back, bans follow the window of the violations. -/
theorem obeysWindow (capacity refillRate : ℚ) {before rest : List (LimitCall Peer)}
    {call : LimitCall Peer} (hordered : InOrder (before ++ call :: rest)) :
    ((new capacity refillRate).after before).ObeysWindow
      (violationsSinceBan call.peerId (new capacity refillRate) [] before) call rest := by
  obtain ⟨hbefore, hafter, hacross⟩ := List.pairwise_append.1 hordered
  have htracks : ((new capacity refillRate).after before).Tracks call.peerId
      (violationsSinceBan call.peerId (new capacity refillRate) [] before) call.now :=
    (tracks_new capacity refillRate call.peerId).after hbefore (fun other hother ↦
      ⟨Nat.zero_le _, hacross other hother call List.mem_cons_self⟩) (Nat.zero_le _)
  refine ⟨?_, ?_, ?_, htracks.bounded, (htracks.next le_rfl).bounded⟩
  · rw [bans_iff, htracks.push le_rfl, window_eq_filter]
    · rfl
    · intro time htime
      rcases List.mem_append.1 htime with hold | hnew
      · exact htracks.past time hold
      · exact (List.mem_singleton.1 hnew).le
  · rintro hbans between later rest' rfl hpeer hle
    have hbetween := (List.pairwise_append.1 (List.pairwise_cons.1 hafter).2).2.2
    have hearly (other) (hother : other ∈ between) (_ : other.peerId = call.peerId) :
        other.now ≤ call.now + BAN_DURATION_MS :=
      (hbetween other hother later List.mem_cons_self).trans hle
    have hrecord := record_after_of_banned hbans.expiration hearly
    have hban : (((new capacity refillRate).after before).next call |>.after
        between).bannedPeers.get? call.peerId = some (call.now + BAN_DURATION_MS) :=
      (congrArg (fun record ↦ record.2.2) hrecord).trans hbans.expiration
    refine ⟨?_, record_after_of_banned hbans.expiration ?_⟩
    · rw [answer, checkLimit, hpeer, hban]
      simp [not_lt.2 (show later.now ≤ call.now + BAN_DURATION_MS from hle)]
    · intro other hother hsame
      rcases List.mem_append.1 hother with hmid | hlast
      · exact hearly other hmid hsame
      · rw [List.mem_singleton.1 hlast]
        exact hle
  · rintro hbans between later rest' rfl hpeer hlt hearly
    have hrecord := record_after_of_banned hbans.expiration hearly
    refine ⟨hrecord, ?_⟩
    rw [answer, checkLimit_accepts]
    refine and_iff_right ?_
    intro expiration hexpiration
    have hban := (congrArg (fun record ↦ record.2.2) hrecord).trans hbans.expiration
    rw [hpeer] at hexpiration
    cases hexpiration.symm.trans hban
    exact hlt

/-- A burst of one peer that has a single token: the first call takes it. -/
def burst (count : ℕ) : List (LimitCall String) := List.replicate count ⟨1000, "alice"⟩

/-- The eleventh violation within the window bans. -/
theorem bans_burst : ((new 1 1).after (burst 11)).Bans ⟨1000, "alice"⟩ := by
  have hordered : InOrder (burst 11 ++ [⟨1000, "alice"⟩]) := by
    unfold InOrder
    decide
  exact (obeysWindow 1 1 hordered).bans_iff.2 (by decide +kernel)

end RateLimiter

end P2PApp
