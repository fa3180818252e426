import Mathlib.Algebra.Order.Archimedean.Basic
import P2PApp.Library.MergedBuckets
import P2PApp.Protocol.Throttling

/-!
# What a relay is charged for

A node forwards at once what it has accepted from its neighbours, and the next node charges the
relay for every copy, whoever the copy is from. The limiter of the relay has a bucket for each of
its sources, the limiter of the next node one bucket for the relay. The latter is large enough for
whatever is relayed exactly if it holds as much, and refills as fast, as all the others together.
-/

namespace P2PApp

namespace RateLimiter

variable {Peer : Type*} [DecidableEq Peer]

/-- The calls that the copies of a relay cause, after a constant latency. -/
def relayed (relay : Peer) (latency : ℕ) (forwarded : List (LimitCall Peer)) :
    List (LimitCall Peer) :=
  forwarded.map fun call ↦ ⟨call.now + latency, relay⟩

/-- No call is refused. -/
def AcceptsEvery (limiter : RateLimiter Peer) (calls : List (LimitCall Peer)) : Prop :=
  limiter.accepted calls = calls

/-- Each call with its time in seconds. -/
def timed (calls : List (LimitCall Peer)) : List (Peer × ℚ) :=
  calls.map fun call ↦ (call.peerId, (call.now : ℚ) / 1000)

omit [DecidableEq Peer] in
theorem pairwise_timed {calls : List (LimitCall Peer)} (h : InOrder calls) :
    (timed calls).Pairwise fun earlier later ↦ earlier.2 ≤ later.2 := by
  apply List.pairwise_map.2
  apply h.imp
  intro earlier later hle
  have hcast : (earlier.now : ℚ) ≤ later.now := by exact_mod_cast hle
  dsimp only
  linarith

theorem filter_timed (peerId : Peer) (calls : List (LimitCall Peer)) :
    ((timed calls).filter fun item ↦ item.1 = peerId).map Prod.snd = instants peerId calls := by
  rw [timed, List.filter_map, List.map_map]
  rfl

/-- A peer whose calls fit its bucket is always accepted. -/
theorem accepted_of_conforms {limiter : RateLimiter Peer} {calls : List (LimitCall Peer)}
    (h : ∀ call ∈ calls, limiter.Conforms call.peerId calls) : limiter.AcceptsEvery calls := by
  induction calls generalizing limiter with
  | nil => rfl
  | cons call calls ih =>
    have hanswer := (h call List.mem_cons_self).next.1 rfl
    have hrest : (limiter.next call).AcceptsEvery calls :=
      ih fun other hother ↦ (h other (List.mem_cons_of_mem _ hother)).next.2
    rw [AcceptsEvery, accepted, if_pos hanswer, hrest]

theorem conforms_new {capacity refillRate : ℚ} {peerId : Peer} {calls : List (LimitCall Peer)}
    (hrate : 0 ≤ refillRate) (hordered : InOrder calls)
    (hspaced : TokenBucket.Spaced capacity refillRate (instants peerId calls)) :
    (new capacity refillRate : RateLimiter Peer).Conforms peerId calls where
  rate := hrate
  ordered := hordered
  later := fun _ _ ↦ Nat.zero_le _
  unbanned := rfl
  admits := by
    apply (TokenBucket.admitsAll_iff_fits _ _ _ _ _).2
    apply hspaced.fits hrate
    exact fun time htime ↦ le_of_mem_instants (fun _ _ ↦ Nat.zero_le _) htime

/-- What a new limiter accepts of a peer fits its bucket. -/
theorem spaced_accepted {capacity refillRate : ℚ} (hrate : 0 ≤ refillRate)
    {calls : List (LimitCall Peer)} (hordered : InOrder calls) (peerId : Peer) :
    TokenBucket.Spaced capacity refillRate
      (instants peerId ((new capacity refillRate).accepted calls)) := by
  have hadmits := @admitsAll_accepted Peer _ (new capacity refillRate) peerId calls hrate hordered
    fun _ _ ↦ Nat.zero_le _
  exact ((TokenBucket.admitsAll_iff_fits _ _ _ _ _).1 hadmits).spaced

omit [DecidableEq Peer] in
theorem inOrder_relayed (relay : Peer) (latency : ℕ) {forwarded : List (LimitCall Peer)}
    (h : InOrder forwarded) : InOrder (relayed relay latency forwarded) := by
  apply List.pairwise_map.2
  apply h.imp
  intro earlier later hle
  exact Nat.add_le_add_right hle latency

theorem instants_relayed (relay : Peer) (latency : ℕ) (forwarded : List (LimitCall Peer)) :
    instants relay (relayed relay latency forwarded) =
      ((timed forwarded).map Prod.snd).map (· + (latency : ℚ) / 1000) := by
  have hall : (relayed relay latency forwarded).filter (fun call ↦ call.peerId = relay) =
      relayed relay latency forwarded := by
    apply List.filter_eq_self.2
    intro call hcall
    obtain ⟨original, _, rfl⟩ := List.mem_map.1 hcall
    exact decide_eq_true rfl
  rw [instants, hall, relayed, timed, List.map_map, List.map_map, List.map_map]
  apply List.map_congr_left
  intro call _
  simp only [Function.comp_apply]
  push_cast
  ring

/-! ## A bucket that is large enough -/

section Sized

variable {upstream : List Peer} {capacity refillRate : ℚ} {calls : List (LimitCall Peer)}

/-- All that is accepted from the sources fits one bucket for all. -/
theorem spaced_timed_accepted (hcapacity : 0 ≤ capacity) (hrate : 0 ≤ refillRate)
    (hordered : InOrder calls) (hfrom : ∀ call ∈ calls, call.peerId ∈ upstream) :
    TokenBucket.Spaced (upstream.toFinset.card * capacity) (upstream.toFinset.card * refillRate)
      ((timed ((new capacity refillRate).accepted calls)).map Prod.snd) := by
  have hsublist := (new capacity refillRate).accepted_sublist calls
  apply TokenBucket.Spaced.merge
  · intro peerId _
    rw [filter_timed]
    exact spaced_accepted hrate hordered peerId
  · intro item hitem
    obtain ⟨call, hcall, rfl⟩ := List.mem_map.1 hitem
    exact List.mem_toFinset.2 (hfrom call (hsublist.subset hcall))
  · exact pairwise_timed (hordered.sublist hsublist)
  · exact hcapacity
  · exact hrate

/-- What is forwarded of it fits a bucket of the summed sizes. -/
theorem spaced_relayed {capacity' refillRate' : ℚ} (hcapacity : 0 ≤ capacity)
    (hrate : 0 ≤ refillRate) (hordered : InOrder calls)
    (hfrom : ∀ call ∈ calls, call.peerId ∈ upstream)
    (hcapacity' : upstream.length * capacity ≤ capacity')
    (hrate' : upstream.length * refillRate ≤ refillRate') {forwarded : List (LimitCall Peer)}
    (hforwarded : forwarded.Sublist ((new capacity refillRate).accepted calls)) (relay : Peer)
    (latency : ℕ) :
    TokenBucket.Spaced capacity' refillRate' (instants relay (relayed relay latency forwarded)) := by
  have hinOrder : InOrder forwarded :=
    hordered.sublist (hforwarded.trans ((new capacity refillRate).accepted_sublist calls))
  have hsummed := spaced_timed_accepted hcapacity hrate hordered hfrom
  have hcard : (upstream.toFinset.card : ℚ) ≤ upstream.length :=
    Nat.cast_le.2 upstream.toFinset_card_le
  rw [instants_relayed]
  apply TokenBucket.Spaced.map_add
  apply (hsummed.sublist ((hforwarded.map _).map _)).mono
  · exact List.pairwise_map.2 (pairwise_timed hinOrder)
  · exact (mul_le_mul_of_nonneg_right hcard hcapacity).trans hcapacity'
  · exact (mul_le_mul_of_nonneg_right hcard hrate).trans hrate'

end Sized

/-! ## A bucket that is too small

The sources use up their buckets at once and then make five calls each in every second. -/

/-- The second of a call, by its place among the calls of its source. -/
def pace (index : ℕ) : ℕ :=
  if index < Config.RATE_LIMIT_CAPACITY then 0
  else (index - Config.RATE_LIMIT_CAPACITY) / Config.RATE_LIMIT_REFILL_RATE + 1

/-- What the sources can send within a number of seconds. -/
def busiest (upstream : List Peer) (seconds : ℕ) : List (LimitCall Peer) :=
  (List.range (Config.RATE_LIMIT_CAPACITY + Config.RATE_LIMIT_REFILL_RATE * seconds)).flatMap
    fun index ↦ upstream.map fun peerId ↦ ⟨1000 * pace index, peerId⟩

theorem pace_mono {first last : ℕ} (h : first ≤ last) : pace first ≤ pace last := by
  unfold pace Config.RATE_LIMIT_CAPACITY Config.RATE_LIMIT_REFILL_RATE
  split <;> split <;> omega

theorem pace_le {index seconds : ℕ} (h : index < Config.RATE_LIMIT_CAPACITY +
    Config.RATE_LIMIT_REFILL_RATE * seconds) : pace index ≤ seconds := by
  unfold pace
  unfold Config.RATE_LIMIT_CAPACITY Config.RATE_LIMIT_REFILL_RATE at *
  split <;> omega

/-- The pace is the fastest that the default limits allow. -/
theorem length_le_pace {first last : ℕ} (h : first ≤ last) :
    last - first + 1 ≤ Config.RATE_LIMIT_CAPACITY +
      Config.RATE_LIMIT_REFILL_RATE * (pace last - pace first) := by
  unfold pace Config.RATE_LIMIT_CAPACITY Config.RATE_LIMIT_REFILL_RATE
  split <;> split <;> omega

section Overloaded

variable {upstream : List Peer} {seconds : ℕ}

omit [DecidableEq Peer] in
theorem mem_busiest {call : LimitCall Peer} (h : call ∈ busiest upstream seconds) :
    call.peerId ∈ upstream ∧ call.now ≤ 1000 * seconds := by
  obtain ⟨index, hindex, hcall⟩ := List.mem_flatMap.1 h
  obtain ⟨peerId, hpeerId, rfl⟩ := List.mem_map.1 hcall
  exact ⟨hpeerId, Nat.mul_le_mul_left _ (pace_le (List.mem_range.1 hindex))⟩

omit [DecidableEq Peer] in
theorem inOrder_busiest : InOrder (busiest upstream seconds) := by
  apply List.pairwise_flatMap.2
  constructor
  · intro index _
    apply List.pairwise_map.2
    exact List.pairwise_of_forall fun _ _ ↦ le_refl _
  · apply List.pairwise_lt_range.imp
    intro first last hlt earlier hearlier later hlater
    obtain ⟨_, _, rfl⟩ := List.mem_map.1 hearlier
    obtain ⟨_, _, rfl⟩ := List.mem_map.1 hlater
    exact Nat.mul_le_mul_left _ (pace_mono hlt.le)

omit [DecidableEq Peer] in
theorem length_busiest : (busiest upstream seconds).length =
    (Config.RATE_LIMIT_CAPACITY + Config.RATE_LIMIT_REFILL_RATE * seconds) * upstream.length := by
  rw [busiest, List.length_flatMap]
  simp only [List.length_map, List.map_const', List.sum_replicate, List.length_range, nsmul_eq_mul,
    Nat.cast_id]

theorem instants_busiest (hnodup : upstream.Nodup) {peerId : Peer} (hmem : peerId ∈ upstream) :
    instants peerId (busiest upstream seconds) = (List.range (Config.RATE_LIMIT_CAPACITY +
      Config.RATE_LIMIT_REFILL_RATE * seconds)).map fun index ↦ (pace index : ℚ) := by
  have hone (index : ℕ) : (upstream.map fun peerId ↦
      (⟨1000 * pace index, peerId⟩ : LimitCall Peer)).filter (fun call ↦ call.peerId = peerId) =
        [⟨1000 * pace index, peerId⟩] := by
    rw [List.filter_map]
    change (upstream.filter fun other ↦ other = peerId).map _ = _
    rw [List.filter_eq, List.count_eq_one_of_mem hnodup hmem]
    rfl
  rw [instants, busiest, List.filter_flatMap]
  simp only [hone, List.map_flatMap, List.map_cons, List.map_nil]
  rw [← List.map_eq_flatMap]
  apply List.map_congr_left
  intro index _
  push_cast
  ring

theorem spaced_instants_busiest (hnodup : upstream.Nodup) {peerId : Peer}
    (hmem : peerId ∈ upstream) :
    TokenBucket.Spaced (Config.RATE_LIMIT_CAPACITY : ℚ) Config.RATE_LIMIT_REFILL_RATE
      (instants peerId (busiest upstream seconds)) := by
  rw [instants_busiest hnodup hmem]
  intro last hlast first hfirst
  rw [List.getElem_map, List.getElem_map, List.getElem_range, List.getElem_range,
    ← Nat.cast_sub (pace_mono hfirst)]
  exact_mod_cast length_le_pace hfirst

/-- The relay accepts all of it. -/
theorem acceptsEvery_busiest (hnodup : upstream.Nodup) :
    (new Config.RATE_LIMIT_CAPACITY Config.RATE_LIMIT_REFILL_RATE : RateLimiter Peer).AcceptsEvery
      (busiest upstream seconds) := by
  apply accepted_of_conforms
  intro call hcall
  apply conforms_new (Nat.cast_nonneg _) inOrder_busiest
  exact spaced_instants_busiest hnodup (mem_busiest hcall).1

/-- A node that accepts all the copies has room for all of them. -/
theorem le_of_acceptsEvery_busiest {capacity refillRate : ℚ} (hrate : 0 ≤ refillRate)
    (hne : upstream ≠ []) {relay : Peer} {latency : ℕ}
    (h : (new capacity refillRate : RateLimiter Peer).AcceptsEvery
      (relayed relay latency (busiest upstream seconds))) :
    ((Config.RATE_LIMIT_CAPACITY + Config.RATE_LIMIT_REFILL_RATE * seconds : ℕ) : ℚ) *
      upstream.length ≤ capacity + refillRate * seconds := by
  have hordered := inOrder_relayed relay latency (@inOrder_busiest Peer upstream seconds)
  have hspaced := @spaced_accepted Peer _ capacity refillRate hrate _ hordered relay
  rw [h] at hspaced
  have hlength : (instants relay (relayed relay latency (busiest upstream seconds))).length =
      (Config.RATE_LIMIT_CAPACITY + Config.RATE_LIMIT_REFILL_RATE * seconds) *
        upstream.length := by
    rw [instants_relayed, List.length_map, List.length_map, timed, List.length_map,
      length_busiest]
  have hwindow : ∀ time ∈ instants relay (relayed relay latency (busiest upstream seconds)),
      (latency : ℚ) / 1000 ≤ time ∧ time ≤ seconds + (latency : ℚ) / 1000 := by
    intro time htime
    rw [instants_relayed, timed, List.map_map, List.map_map] at htime
    obtain ⟨call, hcall, rfl⟩ := List.mem_map.1 htime
    have hnow : (call.now : ℚ) ≤ 1000 * seconds := by exact_mod_cast (mem_busiest hcall).2
    have hnonneg : (0 : ℚ) ≤ call.now := Nat.cast_nonneg _
    simp only [Function.comp_apply]
    constructor <;> linarith
  have hpos : 0 < (Config.RATE_LIMIT_CAPACITY + Config.RATE_LIMIT_REFILL_RATE * seconds) *
      upstream.length := by
    apply Nat.mul_pos _ (List.length_pos_iff.2 hne)
    exact Nat.add_pos_left (by decide) _
  generalize instants relay _ = times at hspaced hlength hwindow
  rw [← hlength] at hpos
  have hpair := hspaced (times.length - 1) (by omega) 0 (Nat.zero_le _)
  have hfirst := (hwindow _ (List.getElem_mem hpos)).1
  have hlast := (hwindow _ (@List.getElem_mem ℚ times (times.length - 1) (by omega))).2
  calc ((Config.RATE_LIMIT_CAPACITY + Config.RATE_LIMIT_REFILL_RATE * seconds : ℕ) : ℚ) *
        upstream.length
      = (times.length : ℚ) := by rw [hlength, Nat.cast_mul]
    _ = ((times.length - 1 - 0 : ℕ) : ℚ) + 1 := by
        rw [Nat.sub_zero, ← Nat.cast_add_one, Nat.sub_add_cancel hpos]
    _ ≤ capacity + refillRate * (times[times.length - 1] - times[0]) := hpair
    _ ≤ capacity + refillRate * seconds := by
        apply add_le_add_right
        apply mul_le_mul_of_nonneg_left _ hrate
        linarith

end Overloaded

end RateLimiter

end P2PApp
