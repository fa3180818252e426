import Mathlib.Algebra.Order.Field.Rat
import Mathlib.Tactic.Ring
import P2PApp.Library.OrderedMap
import P2PApp.Library.TokenBucket
import P2PApp.Protocol.Message

/-!
# The per-peer rate limiter

One token bucket per peer, a sliding history of violations and a table of temporary bans. Token
counts are exact rationals, clock readings are milliseconds. A bucket carries the bound on its
token count, which the source re-establishes with `Math.min` on every refill.

The main result reads off from the clock readings whether a burst of calls of one peer is
admitted as a whole, which is what a receiver of a synchronisation batch depends on.
-/

namespace P2PApp

/-- `{ tokens, lastRefill }`, never above the capacity of its limiter. -/
structure Bucket (capacity : ℚ) where
  tokens : ℚ
  lastRefill : ℕ
  tokens_le : tokens ≤ capacity

structure RateLimiter (Peer : Type*) where
  capacity : ℚ
  refillRatePerSec : ℚ
  buckets : OrderedMap Peer (Bucket capacity)
  violations : OrderedMap Peer (List ℕ)
  bannedPeers : OrderedMap Peer ℕ

namespace RateLimiter

def BAN_THRESHOLD : ℕ := 10
def VIOLATION_WINDOW_MS : ℕ := 60 * 1000
def BAN_DURATION_MS : ℕ := 5 * 60 * 1000

variable {Peer : Type*}

def new (capacity refillRate : ℚ) : RateLimiter Peer where
  capacity := capacity
  refillRatePerSec := refillRate
  buckets := ∅
  violations := ∅
  bannedPeers := ∅

/-- A bucket at full capacity, as created on the first call of a peer. -/
def fullBucket (limiter : RateLimiter Peer) (now : ℕ) : Bucket limiter.capacity :=
  ⟨limiter.capacity, now, le_rfl⟩

def refillBucket (limiter : RateLimiter Peer) (now : ℕ) (bucket : Bucket limiter.capacity) :
    Bucket limiter.capacity :=
  if bucket.lastRefill < now then
    { tokens := min limiter.capacity
        (bucket.tokens + ((now - bucket.lastRefill : ℕ) : ℚ) / 1000 * limiter.refillRatePerSec)
      lastRefill := now
      tokens_le := min_le_left _ _ }
  else bucket

/-- `bucket.tokens -= 1`. -/
def takeToken {capacity : ℚ} (bucket : Bucket capacity) : Bucket capacity where
  tokens := bucket.tokens - 1
  lastRefill := bucket.lastRefill
  tokens_le := by linarith [bucket.tokens_le]

variable [DecidableEq Peer]

/-- `_refill` followed by the lookup of the bucket that it leaves in the table. -/
def refilledBucket (limiter : RateLimiter Peer) (now : ℕ) (peerId : Peer) :
    Bucket limiter.capacity :=
  (limiter.buckets.get? peerId).elim (limiter.fullBucket now) (limiter.refillBucket now)

def setBucket (limiter : RateLimiter Peer) (peerId : Peer) (bucket : Bucket limiter.capacity) :
    RateLimiter Peer :=
  { limiter with buckets := limiter.buckets.set peerId bucket }

/-- The limiter with an expired ban of the peer removed. -/
def liftBan (limiter : RateLimiter Peer) (peerId : Peer) : RateLimiter Peer :=
  { limiter with bannedPeers := limiter.bannedPeers.erase peerId }

def applyBan (limiter : RateLimiter Peer) (peerId : Peer) (timestamp : ℕ) : RateLimiter Peer :=
  { limiter with
    bannedPeers := limiter.bannedPeers.set peerId (timestamp + BAN_DURATION_MS)
    violations := limiter.violations.erase peerId }

/-- Append the violation, drop what left the window, and ban above the threshold. -/
def recordViolation (limiter : RateLimiter Peer) (peerId : Peer) (timestamp : ℕ) :
    RateLimiter Peer :=
  let history := (limiter.violations.get? peerId).getD [] ++ [timestamp]
  let history := history.dropWhile fun time ↦ time + VIOLATION_WINDOW_MS < timestamp
  let limiter := { limiter with violations := limiter.violations.set peerId history }
  if BAN_THRESHOLD < history.length then limiter.applyBan peerId timestamp else limiter

/-- The token-bucket part of `checkLimit`, past the ban check. -/
def spendToken (limiter : RateLimiter Peer) (now : ℕ) (peerId : Peer) : Bool × RateLimiter Peer :=
  let bucket := limiter.refilledBucket now peerId
  if 1 ≤ bucket.tokens then (true, limiter.setBucket peerId (takeToken bucket))
  else (false, (limiter.setBucket peerId bucket).recordViolation peerId now)

/-- The clock does not advance inside one call. -/
def checkLimit (limiter : RateLimiter Peer) (now : ℕ) (peerId : Peer) : Bool × RateLimiter Peer :=
  match limiter.bannedPeers.get? peerId with
  | some expiration =>
    if expiration < now then (limiter.liftBan peerId).spendToken now peerId else (false, limiter)
  | none => spendToken limiter now peerId

/-! ## What a call leaves alone -/

/-- What the limiter holds of a peer: tokens and time of the last refill, violations, ban. -/
def record (limiter : RateLimiter Peer) (peerId : Peer) :
    Option (ℚ × ℕ) × Option (List ℕ) × Option ℕ :=
  ((limiter.buckets.get? peerId).map fun bucket ↦ (bucket.tokens, bucket.lastRefill),
    limiter.violations.get? peerId, limiter.bannedPeers.get? peerId)

theorem record_setBucket (limiter : RateLimiter Peer) {peerId other : Peer}
    (bucket : Bucket limiter.capacity) (h : other ≠ peerId) :
    (limiter.setBucket peerId bucket).record other = limiter.record other := by
  simp [record, setBucket, OrderedMap.get?_set_of_ne, h]

theorem record_liftBan (limiter : RateLimiter Peer) {peerId other : Peer} (h : other ≠ peerId) :
    (limiter.liftBan peerId).record other = limiter.record other := by
  simp [record, liftBan, OrderedMap.get?_erase, h]

theorem record_recordViolation (limiter : RateLimiter Peer) {peerId other : Peer}
    (timestamp : ℕ) (h : other ≠ peerId) :
    (limiter.recordViolation peerId timestamp).record other = limiter.record other := by
  unfold recordViolation
  dsimp only
  split
  · simp [record, applyBan, OrderedMap.get?_set_of_ne, OrderedMap.get?_erase, h]
  · simp [record, OrderedMap.get?_set_of_ne, h]

theorem record_spendToken (limiter : RateLimiter Peer) (now : ℕ) {peerId other : Peer}
    (h : other ≠ peerId) :
    (limiter.spendToken now peerId).2.record other = limiter.record other := by
  unfold spendToken
  dsimp only
  split
  · exact limiter.record_setBucket _ h
  · exact (record_recordViolation _ now h).trans (limiter.record_setBucket _ h)

/-- A call of one peer does not touch what is recorded of another. -/
theorem record_checkLimit (limiter : RateLimiter Peer) (now : ℕ) {peerId other : Peer}
    (h : other ≠ peerId) :
    (limiter.checkLimit now peerId).2.record other = limiter.record other := by
  unfold checkLimit
  split
  · split
    · exact (record_spendToken _ now h).trans (limiter.record_liftBan h)
    · rfl
  · exact limiter.record_spendToken now h

/-! ## Bursts of one peer -/

/-- Whether a sequence of calls of one peer is accepted to the last one. -/
def acceptsAll (limiter : RateLimiter Peer) (peerId : Peer) : List ℕ → Bool
  | [] => true
  | now :: times =>
    (limiter.checkLimit now peerId).1 && acceptsAll (limiter.checkLimit now peerId).2 peerId times

/-- The ban table lets the peer through at `now`. -/
def NotBanned (limiter : RateLimiter Peer) (now : ℕ) (peerId : Peer) : Prop :=
  ∀ expiration, limiter.bannedPeers.get? peerId = some expiration → expiration < now

/-- Clock readings in seconds, each no earlier than those before it. -/
def readings (stamp : ℕ) (times : List ℕ) : List ℚ :=
  TokenBucket.latest ((stamp : ℚ) / 1000) (times.map fun time : ℕ ↦ (time : ℚ) / 1000)

/-- The bucket a call at `now` finds before refilling it. -/
def bucketBefore (limiter : RateLimiter Peer) (now : ℕ) (peerId : Peer) :
    Bucket limiter.capacity :=
  (limiter.buckets.get? peerId).getD (limiter.fullBucket now)

/-- The closed form of an accepted burst: the peer is not banned at the first call, and no group
of consecutive calls exceeds the tokens at hand and those that flow in meanwhile. -/
def AdmitsBurst (limiter : RateLimiter Peer) (peerId : Peer) : List ℕ → Prop
  | [] => True
  | now :: times =>
    limiter.NotBanned now peerId ∧
      TokenBucket.Fits limiter.capacity limiter.refillRatePerSec
        (limiter.bucketBefore now peerId).tokens
        (((limiter.bucketBefore now peerId).lastRefill : ℚ) / 1000)
        (readings (limiter.bucketBefore now peerId).lastRefill (now :: times))

theorem cast_max_div (left right : ℕ) :
    max ((left : ℚ) / 1000) ((right : ℚ) / 1000) = ((max left right : ℕ) : ℚ) / 1000 := by
  rw [Nat.cast_max, max_div_div_right (by norm_num : (0 : ℚ) ≤ 1000)]

omit [DecidableEq Peer] in
theorem refillBucket_lastRefill (limiter : RateLimiter Peer) (now : ℕ)
    (bucket : Bucket limiter.capacity) :
    (limiter.refillBucket now bucket).lastRefill = max bucket.lastRefill now := by
  unfold refillBucket
  split
  · dsimp only
    omega
  · omega

omit [DecidableEq Peer] in
/-- A refill is the library's refill over the time since the last one. -/
theorem refillBucket_tokens (limiter : RateLimiter Peer) (now : ℕ)
    (bucket : Bucket limiter.capacity) :
    (limiter.refillBucket now bucket).tokens =
      TokenBucket.refill limiter.capacity limiter.refillRatePerSec bucket.tokens
        (max ((bucket.lastRefill : ℚ) / 1000) ((now : ℚ) / 1000) -
          (bucket.lastRefill : ℚ) / 1000) := by
  unfold refillBucket TokenBucket.refill
  split
  · rename_i h
    have hle : (bucket.lastRefill : ℚ) / 1000 ≤ (now : ℚ) / 1000 := by
      have : (bucket.lastRefill : ℚ) ≤ now := by exact_mod_cast h.le
      linarith
    rw [max_eq_right hle]
    push_cast [Nat.cast_sub h.le]
    congr 1
    ring
  · rename_i h
    have hle : (now : ℚ) / 1000 ≤ (bucket.lastRefill : ℚ) / 1000 := by
      have : (now : ℚ) ≤ bucket.lastRefill := by exact_mod_cast not_lt.1 h
      linarith
    rw [max_eq_left hle, sub_self, mul_zero, add_zero, min_eq_right bucket.tokens_le]

omit [DecidableEq Peer] in
theorem refillBucket_fullBucket (limiter : RateLimiter Peer) (now : ℕ) :
    limiter.refillBucket now (limiter.fullBucket now) = limiter.fullBucket now := by
  simp [refillBucket, fullBucket]

/-- A missing bucket is a full one. -/
theorem refilledBucket_eq (limiter : RateLimiter Peer) (now : ℕ) (peerId : Peer) :
    limiter.refilledBucket now peerId =
      limiter.refillBucket now (limiter.bucketBefore now peerId) := by
  unfold refilledBucket bucketBefore
  cases limiter.buckets.get? peerId with
  | none => exact (limiter.refillBucket_fullBucket now).symm
  | some bucket => rfl

theorem spendToken_accepts (limiter : RateLimiter Peer) (now : ℕ) (peerId : Peer) :
    (limiter.spendToken now peerId).1 = true ↔
      1 ≤ (limiter.refilledBucket now peerId).tokens := by
  unfold spendToken
  by_cases h : 1 ≤ (limiter.refilledBucket now peerId).tokens <;> simp [h]

theorem spendToken_of_le {limiter : RateLimiter Peer} {now : ℕ} {peerId : Peer}
    (h : 1 ≤ (limiter.refilledBucket now peerId).tokens) :
    (limiter.spendToken now peerId).2 =
      limiter.setBucket peerId (takeToken (limiter.refilledBucket now peerId)) := by
  simp [spendToken, h]

theorem liftBan_refilledBucket (limiter : RateLimiter Peer) (peerId : Peer) (now : ℕ) :
    (limiter.liftBan peerId).refilledBucket now peerId = limiter.refilledBucket now peerId := rfl

theorem checkLimit_accepts (limiter : RateLimiter Peer) (now : ℕ) (peerId : Peer) :
    (limiter.checkLimit now peerId).1 = true ↔
      limiter.NotBanned now peerId ∧ 1 ≤ (limiter.refilledBucket now peerId).tokens := by
  unfold checkLimit NotBanned
  cases h : limiter.bannedPeers.get? peerId with
  | none => simpa using limiter.spendToken_accepts now peerId
  | some expiration =>
    by_cases hexpired : expiration < now
    · have hspend := (limiter.liftBan peerId).spendToken_accepts now peerId
      rw [liftBan_refilledBucket] at hspend
      simpa [hexpired] using hspend
    · simp [hexpired]

/-- An accepted call leaves the peer unbanned, with one token less at the time of the call. -/
theorem checkLimit_of_accepts {limiter : RateLimiter Peer} {now : ℕ} {peerId : Peer}
    (h : (limiter.checkLimit now peerId).1 = true) :
    ∃ bans : OrderedMap Peer ℕ, bans.get? peerId = none ∧
      (limiter.checkLimit now peerId).2 =
        { limiter with
          bannedPeers := bans
          buckets := limiter.buckets.set peerId
            (takeToken (limiter.refilledBucket now peerId)) } := by
  obtain ⟨hnot, hle⟩ := (limiter.checkLimit_accepts now peerId).1 h
  unfold checkLimit
  cases hban : limiter.bannedPeers.get? peerId with
  | none => exact ⟨limiter.bannedPeers, hban, spendToken_of_le hle⟩
  | some expiration =>
    have hexpired : expiration < now := hnot _ hban
    simp only [hexpired, if_true]
    have hspend : ((limiter.liftBan peerId).spendToken now peerId).2 = _ := spendToken_of_le hle
    exact ⟨limiter.bannedPeers.erase peerId, by simp, hspend⟩

/-- Past the ban check a burst is governed by the token bucket alone. -/
theorem acceptsAll_cons_iff (limiter : RateLimiter Peer) (peerId : Peer) (now : ℕ)
    (times : List ℕ) (hnot : limiter.NotBanned now peerId) :
    limiter.acceptsAll peerId (now :: times) = true ↔
      TokenBucket.AdmitsAll limiter.capacity limiter.refillRatePerSec
        (limiter.bucketBefore now peerId).tokens
        (((limiter.bucketBefore now peerId).lastRefill : ℚ) / 1000)
        (readings (limiter.bucketBefore now peerId).lastRefill (now :: times)) := by
  induction times generalizing limiter now with
  | nil =>
    simp only [acceptsAll, Bool.and_true, readings, List.map_cons, List.map_nil,
      TokenBucket.latest, TokenBucket.AdmitsAll, and_true]
    rw [checkLimit_accepts, refilledBucket_eq, refillBucket_tokens]
    exact and_iff_right hnot
  | cons next times ih =>
    rw [acceptsAll, Bool.and_eq_true]
    by_cases haccepts : (limiter.checkLimit now peerId).1 = true
    · obtain ⟨bans, hbans, hafter⟩ := checkLimit_of_accepts haccepts
      have hle := ((limiter.checkLimit_accepts now peerId).1 haccepts).2
      have hnotAfter : (limiter.checkLimit now peerId).2.NotBanned next peerId := by
        intro expiration hexpiration
        rw [hafter] at hexpiration
        simp [hbans] at hexpiration
      have hrest := ih (limiter.checkLimit now peerId).2 next hnotAfter
      have hbucket : ((limiter.checkLimit now peerId).2.bucketBefore next peerId).tokens =
          (limiter.refilledBucket now peerId).tokens - 1 ∧
          ((limiter.checkLimit now peerId).2.bucketBefore next peerId).lastRefill =
            (limiter.refilledBucket now peerId).lastRefill := by
        rw [hafter]
        simp [bucketBefore, takeToken]
      rw [hrest, hbucket.1, hbucket.2]
      have hparams : (limiter.checkLimit now peerId).2.capacity = limiter.capacity ∧
          (limiter.checkLimit now peerId).2.refillRatePerSec = limiter.refillRatePerSec := by
        rw [hafter]
        exact ⟨rfl, rfl⟩
      rw [hparams.1, hparams.2]
      rw [refilledBucket_eq, refillBucket_tokens] at hle
      rw [refilledBucket_eq, refillBucket_tokens, refillBucket_lastRefill]
      simp only [readings, List.map_cons, TokenBucket.latest, TokenBucket.AdmitsAll, cast_max_div]
      rw [cast_max_div] at hle
      exact and_congr_left' ⟨fun _ ↦ hle, fun _ ↦ haccepts⟩
    · have hfirst := limiter.checkLimit_accepts now peerId
      rw [refilledBucket_eq, refillBucket_tokens] at hfirst
      simp only [readings, List.map_cons, TokenBucket.latest, TokenBucket.AdmitsAll]
      exact ⟨fun h ↦ absurd h.1 haccepts, fun h ↦ absurd (hfirst.2 ⟨hnot, h.1⟩) haccepts⟩

/-- A burst is accepted as a whole exactly when its clock readings fit the bucket. -/
theorem acceptsAll_iff (limiter : RateLimiter Peer) (peerId : Peer) (times : List ℕ) :
    limiter.acceptsAll peerId times = true ↔ limiter.AdmitsBurst peerId times := by
  cases times with
  | nil => simp [acceptsAll, AdmitsBurst]
  | cons now times =>
    rw [AdmitsBurst, ← TokenBucket.admitsAll_iff_fits]
    by_cases hnot : limiter.NotBanned now peerId
    · rw [limiter.acceptsAll_cons_iff peerId now times hnot]
      exact (and_iff_right hnot).symm
    · have hfirst : (limiter.checkLimit now peerId).1 ≠ true :=
        fun h ↦ hnot ((limiter.checkLimit_accepts now peerId).1 h).1
      simp [acceptsAll, hfirst, hnot]

end RateLimiter

end P2PApp
