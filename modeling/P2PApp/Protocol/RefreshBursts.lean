import Mathlib.Data.Finset.Card
import Mathlib.Data.Finset.Prod
import P2PApp.Protocol.Bans

/-!
# Refreshes against the rate limit

Every 15 seconds a node advertises all of its subscriptions at once, and to the limiter of a
neighbour each advertisement is a call. Its bucket is full again each time, so that the first twenty
of every burst pass and the others are violations, which add up over the five bursts that fit into
a minute. Up to twenty-two subscriptions the node gets along with that; with more it is banned
before the fourth burst is over, whatever other peers do meanwhile.
-/

namespace P2PApp

/-- The refresh timer of `start`. -/
def REFRESH_INTERVAL_MS : ℕ := 15000

namespace RateLimiter

variable {Peer : Type*} [DecidableEq Peer]

/-- When the advertisement with this number arrives, if `count` are sent in each refresh. -/
def refreshTime (count start number : ℕ) : ℕ := start + REFRESH_INTERVAL_MS * (number / count)

def refreshCall (peerId : Peer) (count start number : ℕ) : LimitCall Peer :=
  ⟨refreshTime count start number, peerId⟩

/-- Of the calls, those of the peer are the first `sent` advertisements of its refreshes. -/
def Refreshing (peerId : Peer) (count start : ℕ) (calls : List (LimitCall Peer)) (sent : ℕ) :
    Prop :=
  calls.filter (fun call ↦ call.peerId = peerId) =
    (List.range sent).map (refreshCall peerId count start)

/-- The advertisements that come after the bucket has been emptied. -/
def overflow (count start sent : ℕ) : List ℕ :=
  ((List.range sent).filter fun number ↦ 20 ≤ number % count).map (refreshTime count start)

/-- What the limiter holds of a peer that has sent this many advertisements and was not banned. -/
structure Standing (peerId : Peer) (count start : ℕ) (limiter : RateLimiter Peer) (sent : ℕ) :
    Prop where
  capacity : limiter.capacity = 20
  refillRatePerSec : limiter.refillRatePerSec = 5
  lastRefill : (limiter.level peerId).2 ≤ refreshTime count start sent
  tokens : TokenBucket.refill 20 5 (limiter.level peerId).1
    ((refreshTime count start sent : ℚ) / 1000 - ((limiter.level peerId).2 : ℚ) / 1000) =
      20 - (min (sent % count) 20 : ℕ)
  notBanned : limiter.bannedPeers.get? peerId = none
  tracks : ∃ horizon ≤ refreshTime count start sent,
    limiter.Tracks peerId (overflow count start sent) horizon

variable {peerId : Peer} {count start : ℕ} {limiter : RateLimiter Peer} {sent : ℕ}

/-! ## The numbering -/

/-- The next advertisement belongs to the same burst or opens the next one. -/
theorem succ_div_mod (hcount : 0 < count) (number : ℕ) :
    ((number + 1) / count = number / count ∧ (number + 1) % count = number % count + 1) ∨
      ((number + 1) / count = number / count + 1 ∧ (number + 1) % count = 0) := by
  have hsplit := Nat.div_add_mod number count
  have hlt := Nat.mod_lt number hcount
  by_cases hlast : number % count + 1 = count
  · refine .inr ((Nat.div_mod_unique hcount).2 ⟨?_, hcount⟩)
    rw [Nat.mul_add, Nat.mul_one]
    omega
  · refine .inl ((Nat.div_mod_unique hcount).2 ⟨?_, by omega⟩)
    omega

theorem refreshTime_le_succ (hcount : 0 < count) (number : ℕ) :
    refreshTime count start number ≤ refreshTime count start (number + 1) := by
  unfold refreshTime
  rcases succ_div_mod hcount number with ⟨hsame, -⟩ | ⟨hnext, -⟩
  · rw [hsame]
  · rw [hnext]
    exact Nat.add_le_add_left (Nat.mul_le_mul_left _ (Nat.le_succ _)) _

theorem overflow_succ (number : ℕ) :
    overflow count start (number + 1) = if 20 ≤ number % count then
      overflow count start number ++ [refreshTime count start number]
    else overflow count start number := by
  unfold overflow
  rw [List.range_succ, List.filter_append, List.map_append]
  split_ifs with hover <;> simp [hover]

/-! ## One advertisement -/

/-- What the peer has done is not affected by the calls of others. -/
theorem Standing.next_of_ne (h : Standing peerId count start limiter sent) {call : LimitCall Peer}
    (hpeer : call.peerId ≠ peerId) : Standing peerId count start (limiter.next call) sent := by
  have hrecord := limiter.record_next_of_ne hpeer
  have hlevel := limiter.level_next_of_ne hpeer
  obtain ⟨horizon, hhorizon, htracks⟩ := h.tracks
  refine ⟨(capacity_next ..).trans h.capacity, (refillRatePerSec_next ..).trans h.refillRatePerSec,
    by rw [hlevel]; exact h.lastRefill, by rw [hlevel]; exact h.tokens, ?_, horizon, hhorizon,
    htracks.congr (congrArg (fun record ↦ record.2.1.getD []) hrecord)⟩
  exact (congrArg (fun record ↦ record.2.2) hrecord).trans h.notBanned

theorem Standing.refilledBucket (h : Standing peerId count start limiter sent) :
    (limiter.refilledBucket (refreshTime count start sent) peerId).tokens =
        20 - (min (sent % count) 20 : ℕ) ∧
      (limiter.refilledBucket (refreshTime count start sent) peerId).lastRefill =
        refreshTime count start sent := by
  have hrate : 0 ≤ limiter.refillRatePerSec := by
    rw [h.refillRatePerSec]
    norm_num
  obtain ⟨htokens, hlast⟩ := limiter.refilledBucket_level hrate h.lastRefill
  refine ⟨htokens.trans ?_, hlast⟩
  rw [h.capacity, h.refillRatePerSec]
  exact h.tokens

/-- What is left of the bucket makes the level of the next advertisement. -/
theorem refill_succ (hcount : 0 < count) (number : ℕ) {left : ℚ}
    (hleft : left = 20 - (min (number % count + 1) 20 : ℕ)) :
    TokenBucket.refill 20 5 left ((refreshTime count start (number + 1) : ℚ) / 1000 -
        (refreshTime count start number : ℚ) / 1000) =
      20 - (min ((number + 1) % count) 20 : ℕ) := by
  have hpositive : 0 ≤ left := by
    have hle : ((min (number % count + 1) 20 : ℕ) : ℚ) ≤ 20 := by
      exact_mod_cast min_le_right _ _
    linarith
  unfold TokenBucket.refill refreshTime
  rcases succ_div_mod hcount number with ⟨hsame, hmod⟩ | ⟨hnext, hmod⟩
  · rw [hsame, hmod, sub_self, mul_zero, add_zero, min_eq_right, hleft]
    rw [hleft]
    have hle : (0 : ℚ) ≤ ((min (number % count + 1) 20 : ℕ) : ℚ) := Nat.cast_nonneg _
    linarith
  · rw [hnext, hmod]
    have htime : ((start + REFRESH_INTERVAL_MS * (number / count + 1) : ℕ) : ℚ) / 1000 -
        ((start + REFRESH_INTERVAL_MS * (number / count) : ℕ) : ℚ) / 1000 = 15 := by
      unfold REFRESH_INTERVAL_MS
      push_cast
      ring
    rw [htime, min_eq_left]
    · simp
    · linarith

/-- The first twenty of a burst pass, and unless the others lead to a ban all goes on. -/
theorem Standing.next (hcount : 0 < count) (h : Standing peerId count start limiter sent) :
    limiter.answer (refreshCall peerId count start sent) = decide (sent % count < 20) ∧
      ((limiter.next (refreshCall peerId count start sent)).bannedPeers.get? peerId = none →
        Standing peerId count start (limiter.next (refreshCall peerId count start sent))
          (sent + 1)) := by
  obtain ⟨htokens, hlast⟩ := h.refilledBucket
  obtain ⟨horizon, hhorizon, htracks⟩ := h.tracks
  have hnot : limiter.NotBanned (refreshTime count start sent) peerId := by
    intro expiration hexpiration
    rw [h.notBanned] at hexpiration
    cases hexpiration
  have htracked := @Tracks.next _ _ _ _ _ _ (refreshCall peerId count start sent) htracks hhorizon
  have hstanding {left : ℚ} {rest : Option (List ℕ) × Option ℕ}
      (hrecord : (limiter.next (refreshCall peerId count start sent)).record peerId =
        (some (left, refreshTime count start sent), rest))
      (hleft : left = 20 - (min (sent % count + 1) 20 : ℕ))
      (hban : (limiter.next (refreshCall peerId count start sent)).bannedPeers.get? peerId = none)
      (hsince : sinceAfter peerId limiter (overflow count start sent)
        (refreshCall peerId count start sent) = overflow count start (sent + 1)) :
      Standing peerId count start (limiter.next (refreshCall peerId count start sent))
        (sent + 1) := by
    have hlevel : (limiter.next (refreshCall peerId count start sent)).level peerId =
        (left, refreshTime count start sent) := by
      rw [level, hrecord]
      rfl
    refine ⟨(capacity_next ..).trans h.capacity,
      (refillRatePerSec_next ..).trans h.refillRatePerSec, ?_, ?_, hban,
      refreshTime count start sent, refreshTime_le_succ hcount sent, hsince ▸ htracked⟩
    · rw [hlevel]
      exact refreshTime_le_succ hcount sent
    · rw [hlevel]
      exact refill_succ hcount sent hleft
  have houtcome : limiter.outcome (refreshCall peerId count start sent) =
      if 1 ≤ (limiter.refilledBucket (refreshTime count start sent) peerId).tokens then .accepted
      else .rateLimited := outcome_of_notBanned hnot
  rcases limiter.checkLimit_cases (refreshTime count start sent) peerId with ⟨hbanned, -⟩ |
    ⟨-, hle, hanswer, hrecord⟩ | ⟨-, hlt, hanswer, hrecord⟩
  · exact absurd hnot hbanned
  · have hoffset : sent % count < 20 := by
      by_contra hover
      rw [htokens, min_eq_right (not_lt.1 hover)] at hle
      norm_num at hle
    rw [htokens, hlast] at hrecord
    refine ⟨hanswer.trans (decide_eq_true hoffset).symm, fun hban ↦ hstanding hrecord ?_ hban ?_⟩
    · rw [min_eq_left hoffset.le, min_eq_left hoffset]
      push_cast
      ring
    · rw [sinceAfter, houtcome, overflow_succ, if_neg (not_le.2 hoffset)]
      refine if_neg fun hlimited ↦ ?_
      exact absurd hlimited.2 (by rw [if_pos hle]; decide)
  · have hoffset : 20 ≤ sent % count := by
      by_contra hunder
      rw [htokens, min_eq_left (not_le.1 hunder).le] at hlt
      have hle : ((sent % count : ℕ) : ℚ) ≤ 19 := by
        exact_mod_cast Nat.lt_succ_iff.1 (not_le.1 hunder)
      linarith
    rw [htokens, hlast] at hrecord
    refine ⟨hanswer.trans (decide_eq_false (not_lt.2 hoffset)).symm,
      fun hban ↦ hstanding hrecord ?_ hban ?_⟩
    · rw [min_eq_right hoffset, min_eq_right (hoffset.trans (Nat.le_succ _))]
    · have hnone : (limiter.next (refreshCall peerId count start sent)).bannedPeers.has peerId =
          false := by rw [OrderedMap.has, hban]; rfl
      rw [sinceAfter, houtcome, overflow_succ, if_pos hoffset, if_pos ⟨rfl, if_neg (not_le.2 hlt)⟩,
        hnone]
      rfl

/-! ## How many violations fit into the window -/

theorem length_window_overflow (latest : ℕ) :
    (SlidingWindow.window VIOLATION_WINDOW_MS latest (overflow count start sent)).length =
      ((Finset.range sent).filter fun number ↦ 20 ≤ number % count ∧
        latest ≤ refreshTime count start number + VIOLATION_WINDOW_MS).card := by
  unfold SlidingWindow.window overflow
  rw [List.filter_map, List.length_map, List.filter_filter, ← List.toFinset_card_of_nodup]
  · congr 1
    ext number
    simp [and_comm]
  · exact List.nodup_range.filter _

/-- Two violations in each of the five bursts of a minute. -/
theorem length_window_le (hcount : 0 < count) (hsmall : count ≤ 22) (number : ℕ) :
    (SlidingWindow.window VIOLATION_WINDOW_MS (refreshTime count start number)
      (overflow count start (number + 1))).length ≤ 10 := by
  rw [length_window_overflow]
  refine (Finset.card_le_card_of_injOn
    (fun other ↦ (number / count - other / count, other % count - 20))
    (t := Finset.range 5 ×ˢ Finset.range 2) ?_ ?_).trans_eq (by simp)
  · intro other hother
    obtain ⟨-, hover, hrecent⟩ := Finset.mem_filter.1 hother
    have hlt := Nat.mod_lt other hcount
    simp only [refreshTime, REFRESH_INTERVAL_MS, VIOLATION_WINDOW_MS] at hrecent
    simp only [Finset.coe_product, Finset.coe_range, Set.mem_prod, Set.mem_Iio]
    omega
  · intro first hfirst second hsecond hsame
    obtain ⟨hfirst, hover, -⟩ := Finset.mem_filter.1 hfirst
    obtain ⟨hsecond, hover', -⟩ := Finset.mem_filter.1 hsecond
    have hle := Nat.div_le_div_right (c := count)
      (Nat.lt_succ_iff.1 (Finset.mem_range.1 hfirst))
    have hle' := Nat.div_le_div_right (c := count)
      (Nat.lt_succ_iff.1 (Finset.mem_range.1 hsecond))
    obtain ⟨hround, hoffset⟩ := Prod.mk.inj hsame
    have hdiv : first / count = second / count := by omega
    have hmod : first % count = second % count := by omega
    rw [← Nat.div_add_mod first count, ← Nat.div_add_mod second count, hdiv, hmod]

/-- Three violations in each of the first four bursts. -/
theorem lt_length_window (hlarge : 23 ≤ count) {latest : ℕ}
    (hlatest : latest ≤ refreshTime count start (4 * count)) :
    10 < (SlidingWindow.window VIOLATION_WINDOW_MS latest
      (overflow count start (4 * count))).length := by
  rw [length_window_overflow]
  have hcount : 0 < count := by omega
  have hsplit (round offset : ℕ) (hoffset : offset < 3) :
      (20 + offset + count * round) / count = round ∧
        (20 + offset + count * round) % count = 20 + offset :=
    (Nat.div_mod_unique hcount).2 ⟨rfl, by omega⟩
  have htwelve : (Finset.range 4 ×ˢ Finset.range 3).card = 12 := by simp
  refine lt_of_lt_of_le (by rw [htwelve]; norm_num) (Finset.card_le_card_of_injOn
    (s := Finset.range 4 ×ˢ Finset.range 3) (fun place ↦ 20 + place.2 + count * place.1) ?_ ?_)
  · rintro ⟨round, offset⟩ hplace
    simp only [Finset.coe_product, Finset.coe_range, Set.mem_prod, Set.mem_Iio] at hplace
    obtain ⟨hdiv, hmod⟩ := hsplit round offset hplace.2
    simp only [Finset.coe_filter, Finset.mem_range, Set.mem_ofPred_eq]
    refine ⟨?_, by omega, hlatest.trans ?_⟩
    · have hround : count * round ≤ count * 3 := Nat.mul_le_mul_left _ (by omega)
      omega
    · have hlast : 4 * count / count = 4 := Nat.mul_div_cancel _ hcount
      simp only [refreshTime, REFRESH_INTERVAL_MS, VIOLATION_WINDOW_MS, hlast]
      omega
  · rintro ⟨round, offset⟩ hplace ⟨round', offset'⟩ hplace' hsame
    simp only [Finset.coe_product, Finset.coe_range, Set.mem_prod, Set.mem_Iio] at hplace hplace'
    obtain ⟨hdiv, hmod⟩ := hsplit round offset hplace.2
    obtain ⟨hdiv', hmod'⟩ := hsplit round' offset' hplace'.2
    dsimp only at hsame
    rw [hsame] at hdiv hmod
    have hround : round = round' := hdiv.symm.trans hdiv'
    have hoffset : offset = offset' := by omega
    rw [hround, hoffset]

/-! ## Every order of calls -/

theorem standing_start (hcapacity : limiter.capacity = 20) (hrate : limiter.refillRatePerSec = 5)
    (hrecord : limiter.record peerId = (none, none, none)) :
    Standing peerId count start limiter 0 := by
  have hlevel : limiter.level peerId = (20, 0) := by
    rw [level, hrecord, hcapacity]
    rfl
  refine ⟨hcapacity, hrate, ?_, ?_, congrArg (fun record ↦ record.2.2) hrecord, 0, Nat.zero_le _,
    ?_⟩
  · rw [hlevel]
    exact Nat.zero_le _
  · rw [hlevel, TokenBucket.refill, Nat.zero_mod, min_eq_left]
    · simp
    · have hpositive : (0 : ℚ) ≤ (refreshTime count start 0 : ℚ) / 1000 := by positivity
      simp only [Nat.cast_zero, zero_div, sub_zero]
      linarith
  · have hhistory : limiter.history peerId = [] :=
      congrArg (fun record ↦ record.2.1.getD []) hrecord
    refine ⟨⟨0, le_rfl, hhistory⟩, .nil, by simp [overflow], ?_⟩
    rw [hhistory]
    exact Nat.zero_le _

theorem Refreshing.concat {calls : List (LimitCall Peer)} {call : LimitCall Peer}
    (h : Refreshing peerId count start (calls ++ [call]) sent) :
    (call.peerId ≠ peerId ∧ Refreshing peerId count start calls sent) ∨
      ∃ before, sent = before + 1 ∧ call = refreshCall peerId count start before ∧
        Refreshing peerId count start calls before := by
  unfold Refreshing at h ⊢
  rw [List.filter_append, List.filter_singleton] at h
  by_cases hpeer : call.peerId = peerId
  · rw [decide_eq_true hpeer] at h
    cases sent with
    | zero => simp at h
    | succ before =>
      rw [List.range_succ, List.map_append] at h
      obtain ⟨hbefore, hlast⟩ := List.append_inj' h rfl
      exact .inr ⟨before, rfl, (List.cons.inj hlast).1, hbefore⟩
  · rw [decide_eq_false hpeer] at h
    exact .inl ⟨hpeer, by simpa using h⟩

theorem Refreshing.of_prefix {before calls : List (LimitCall Peer)}
    (h : Refreshing peerId count start calls sent) (hbefore : before <+: calls) :
    ∃ earlier, Refreshing peerId count start before earlier := by
  have hown := hbefore.filter fun call ↦ decide (call.peerId = peerId)
  rw [h] at hown
  have htake := List.prefix_iff_eq_take.1 hown
  rw [← List.map_take, List.take_range] at htake
  exact ⟨_, htake⟩

theorem after_concat (limiter : RateLimiter Peer) (calls : List (LimitCall Peer))
    (call : LimitCall Peer) :
    limiter.after (calls ++ [call]) = (limiter.after calls).next call := by
  rw [after, List.foldl_append]
  rfl

/-- As long as the peer is not banned, its standing is that after its own advertisements. -/
theorem Standing.after (hcount : 0 < count) (h : Standing peerId count start limiter 0)
    {calls : List (LimitCall Peer)} (hcalls : Refreshing peerId count start calls sent)
    (hnever : ∀ before, before <+: calls → (limiter.after before).bannedPeers.get? peerId = none) :
    Standing peerId count start (limiter.after calls) sent := by
  induction calls using List.reverseRecOn generalizing sent with
  | nil =>
    cases sent with
    | zero => exact h
    | succ before => simp [Refreshing, List.range_succ] at hcalls
  | append_singleton calls call ih =>
    have hearlier (before : List (LimitCall Peer)) (hbefore : before <+: calls) :=
      hnever before (hbefore.trans (List.prefix_append _ _))
    have hlast := hnever (calls ++ [call]) (List.prefix_refl _)
    rw [after_concat] at hlast ⊢
    rcases hcalls.concat with ⟨hpeer, hrest⟩ | ⟨before, rfl, rfl, hrest⟩
    · exact (ih hrest hearlier).next_of_ne hpeer
    · exact ((ih hrest hearlier).next hcount).2 hlast

/-- With few subscriptions no advertisement is one violation too many. -/
theorem Standing.notBanned_next (hcount : 0 < count) (hsmall : count ≤ 22)
    (h : Standing peerId count start limiter sent) :
    (limiter.next (refreshCall peerId count start sent)).bannedPeers.get? peerId = none := by
  by_contra hbanned
  obtain ⟨expiration, hexpiration⟩ := Option.ne_none_iff_exists'.1 hbanned
  have hbans : limiter.Bans (refreshCall peerId count start sent) := by
    refine ⟨fun other hother ↦ ?_, expiration, hexpiration⟩
    cases h.notBanned.symm.trans hother
  obtain ⟨hlimited, hmany⟩ := (limiter.bans_iff _).1 hbans
  obtain ⟨horizon, hhorizon, htracks⟩ := h.tracks
  have hoffset : 20 ≤ sent % count := by
    have hanswer := (h.next hcount).1
    rcases limiter.outcome_cases (refreshCall peerId count start sent) with ⟨hother, -⟩ |
      ⟨hother, -⟩ | ⟨-, -, -, hrefused, -⟩
    · cases hlimited.symm.trans hother
    · cases hlimited.symm.trans hother
    · exact not_lt.1 (of_decide_eq_false (hanswer.symm.trans hrefused))
  have hfew := @length_window_le count start hcount hsmall sent
  rw [overflow_succ, if_pos hoffset] at hfew
  rw [← htracks.push hhorizon] at hfew
  exact absurd hmany (not_lt.2 hfew)

/-- Up to twenty-two subscriptions, no order of the calls gets the node banned. -/
theorem notBanned_of_le (hcount : 0 < count) (hsmall : count ≤ 22)
    (h : Standing peerId count start limiter 0) {calls : List (LimitCall Peer)}
    (hcalls : Refreshing peerId count start calls sent) :
    Standing peerId count start (limiter.after calls) sent := by
  induction calls using List.reverseRecOn generalizing sent with
  | nil =>
    cases sent with
    | zero => exact h
    | succ before => simp [Refreshing, List.range_succ] at hcalls
  | append_singleton calls call ih =>
    rw [after_concat]
    rcases hcalls.concat with ⟨hpeer, hrest⟩ | ⟨before, rfl, rfl, hrest⟩
    · exact (ih hrest).next_of_ne hpeer
    · exact ((ih hrest).next hcount).2 ((ih hrest).notBanned_next hcount hsmall)

/-- With more, the node is banned before it has finished its fourth refresh. -/
theorem exists_ban_of_lt (hlarge : 23 ≤ count) (h : Standing peerId count start limiter 0)
    {calls : List (LimitCall Peer)} (hcalls : Refreshing peerId count start calls (4 * count)) :
    ∃ before, before <+: calls ∧
      ∃ expiration, (limiter.after before).bannedPeers.get? peerId = some expiration := by
  by_contra hnone
  push Not at hnone
  have hnever (before : List (LimitCall Peer)) (hbefore : before <+: calls) :
      (limiter.after before).bannedPeers.get? peerId = none :=
    Option.eq_none_iff_forall_ne_some.2 (hnone before hbefore)
  obtain ⟨horizon, hhorizon, htracks⟩ := (h.after (by omega) hcalls hnever).tracks
  obtain ⟨latest, hlatest, hhistory⟩ := htracks.window
  have hbounded := htracks.bounded
  rw [hhistory] at hbounded
  exact absurd (lt_length_window hlarge (hlatest.trans hhorizon)) (not_lt.2 hbounded)

end RateLimiter

end P2PApp
