import P2PApp.Protocol.RateLimiter

/-!
# Calls of many peers

The limiter over a whole sequence of `checkLimit` calls, of one peer among others. What it holds of
a peer is decided by the calls of that peer alone; each of them is refused because of a ban,
accepted, or rate-limited, and every one of these outcomes has its own effect on the record. From
this the rate at which a peer gets messages through follows by the rules of the token bucket, and
conversely a peer that keeps to the rate is never turned away.
-/

namespace P2PApp

/-- A call of `checkLimit`, with the reading of the clock. -/
structure LimitCall (Peer : Type*) where
  now : ℕ
  peerId : Peer
  deriving DecidableEq, Repr

namespace RateLimiter

variable {Peer : Type*}

/-- The clock does not go back from one call to a later one. -/
def InOrder (calls : List (LimitCall Peer)) : Prop :=
  calls.Pairwise fun earlier later ↦ earlier.now ≤ later.now

variable [DecidableEq Peer]

def answer (limiter : RateLimiter Peer) (call : LimitCall Peer) : Bool :=
  (limiter.checkLimit call.now call.peerId).1

def next (limiter : RateLimiter Peer) (call : LimitCall Peer) : RateLimiter Peer :=
  (limiter.checkLimit call.now call.peerId).2

def after (limiter : RateLimiter Peer) (calls : List (LimitCall Peer)) : RateLimiter Peer :=
  calls.foldl next limiter

/-- The calls that are accepted, in order. -/
def accepted (limiter : RateLimiter Peer) : List (LimitCall Peer) → List (LimitCall Peer)
  | [] => []
  | call :: calls =>
    if limiter.answer call then call :: accepted (limiter.next call) calls
    else accepted (limiter.next call) calls

/-- The times of the calls of one peer, in seconds. -/
def instants (peerId : Peer) (calls : List (LimitCall Peer)) : List ℚ :=
  (calls.filter fun call ↦ call.peerId = peerId).map fun call ↦ (call.now : ℚ) / 1000

/-! ## One call -/

/-- The tokens of a peer and the time of the last refill; a peer without a bucket has a full one. -/
def level (limiter : RateLimiter Peer) (peerId : Peer) : ℚ × ℕ :=
  (limiter.record peerId).1.getD (limiter.capacity, 0)

/-- What the limiter keeps in the history of a peer when it records a violation. -/
def extended (limiter : RateLimiter Peer) (peerId : Peer) (timestamp : ℕ) : List ℕ :=
  ((limiter.violations.get? peerId).getD [] ++ [timestamp]).dropWhile fun time ↦
    time + VIOLATION_WINDOW_MS < timestamp

theorem record_recordViolation_self (limiter : RateLimiter Peer) (peerId : Peer)
    (timestamp : ℕ) :
    (limiter.recordViolation peerId timestamp).record peerId =
      ((limiter.record peerId).1,
        if BAN_THRESHOLD < (limiter.extended peerId timestamp).length then
          (none, some (timestamp + BAN_DURATION_MS))
        else (some (limiter.extended peerId timestamp), limiter.bannedPeers.get? peerId)) := by
  unfold recordViolation
  dsimp only
  change (if BAN_THRESHOLD < (limiter.extended peerId timestamp).length then _ else _ :
    RateLimiter Peer).record peerId = _
  split
  · simp [record, applyBan]
  · simp [record, extended]

/-- What `checkLimit` does to the limiter's parameters: nothing. -/
theorem params_checkLimit (limiter : RateLimiter Peer) (now : ℕ) (peerId : Peer) :
    (limiter.checkLimit now peerId).2.capacity = limiter.capacity ∧
      (limiter.checkLimit now peerId).2.refillRatePerSec = limiter.refillRatePerSec := by
  have hviolation (limiter : RateLimiter Peer) :
      (limiter.recordViolation peerId now).capacity = limiter.capacity ∧
        (limiter.recordViolation peerId now).refillRatePerSec = limiter.refillRatePerSec := by
    unfold recordViolation
    dsimp only
    split <;> exact ⟨rfl, rfl⟩
  have hspend (limiter : RateLimiter Peer) :
      (limiter.spendToken now peerId).2.capacity = limiter.capacity ∧
        (limiter.spendToken now peerId).2.refillRatePerSec = limiter.refillRatePerSec := by
    unfold spendToken
    dsimp only
    split
    · exact ⟨rfl, rfl⟩
    · exact hviolation (limiter.setBucket peerId (limiter.refilledBucket now peerId))
  unfold checkLimit
  split
  · split
    · exact hspend (limiter.liftBan peerId)
    · exact ⟨rfl, rfl⟩
  · exact hspend limiter

@[simp] theorem capacity_next (limiter : RateLimiter Peer) (call : LimitCall Peer) :
    (limiter.next call).capacity = limiter.capacity := (limiter.params_checkLimit _ _).1

@[simp] theorem refillRatePerSec_next (limiter : RateLimiter Peer) (call : LimitCall Peer) :
    (limiter.next call).refillRatePerSec = limiter.refillRatePerSec :=
  (limiter.params_checkLimit _ _).2

/-- A call of another peer leaves the record alone. -/
theorem record_next_of_ne (limiter : RateLimiter Peer) {call : LimitCall Peer} {peerId : Peer}
    (h : call.peerId ≠ peerId) : (limiter.next call).record peerId = limiter.record peerId :=
  limiter.record_checkLimit call.now h.symm

/-- The bucket past the ban check. -/
theorem record_spendToken_self (limiter : RateLimiter Peer) (now : ℕ) (peerId : Peer)
    (hban : limiter.bannedPeers.get? peerId = none) :
    (1 ≤ (limiter.refilledBucket now peerId).tokens ∧
      (limiter.spendToken now peerId).1 = true ∧
      (limiter.spendToken now peerId).2.record peerId =
        (some ((limiter.refilledBucket now peerId).tokens - 1,
          (limiter.refilledBucket now peerId).lastRefill),
          limiter.violations.get? peerId, none)) ∨
    ((limiter.refilledBucket now peerId).tokens < 1 ∧
      (limiter.spendToken now peerId).1 = false ∧
      (limiter.spendToken now peerId).2.record peerId =
        (some ((limiter.refilledBucket now peerId).tokens,
          (limiter.refilledBucket now peerId).lastRefill),
          if BAN_THRESHOLD < (limiter.extended peerId now).length then
            (none, some (now + BAN_DURATION_MS))
          else (some (limiter.extended peerId now), none))) := by
  rcases le_or_gt 1 (limiter.refilledBucket now peerId).tokens with hle | hlt
  · refine .inl ⟨hle, (limiter.spendToken_accepts now peerId).2 hle, ?_⟩
    rw [spendToken_of_le hle]
    simp [record, setBucket, takeToken, hban]
  · refine .inr ⟨hlt, by simp [spendToken, not_le.2 hlt], ?_⟩
    have hafter : (limiter.spendToken now peerId).2 =
        (limiter.setBucket peerId (limiter.refilledBucket now peerId)).recordViolation peerId
          now := by
      simp [spendToken, not_le.2 hlt]
    rw [hafter, record_recordViolation_self]
    have hban' : (limiter.setBucket peerId
        (limiter.refilledBucket now peerId)).bannedPeers.get? peerId = none := hban
    rw [hban']
    have hfirst : ((limiter.setBucket peerId (limiter.refilledBucket now peerId)).record
        peerId).1 = some ((limiter.refilledBucket now peerId).tokens,
          (limiter.refilledBucket now peerId).lastRefill) := by
      simp [record, setBucket]
    rw [hfirst]
    rfl

/-- Everything a call can do to the record of its peer: nothing while the peer is banned, and past
the ban one token less, or one violation more with a ban if there are too many of them. -/
theorem checkLimit_cases (limiter : RateLimiter Peer) (now : ℕ) (peerId : Peer) :
    (¬limiter.NotBanned now peerId ∧ limiter.checkLimit now peerId = (false, limiter)) ∨
    (limiter.NotBanned now peerId ∧ 1 ≤ (limiter.refilledBucket now peerId).tokens ∧
      (limiter.checkLimit now peerId).1 = true ∧
      (limiter.checkLimit now peerId).2.record peerId =
        (some ((limiter.refilledBucket now peerId).tokens - 1,
          (limiter.refilledBucket now peerId).lastRefill),
          limiter.violations.get? peerId, none)) ∨
    (limiter.NotBanned now peerId ∧ (limiter.refilledBucket now peerId).tokens < 1 ∧
      (limiter.checkLimit now peerId).1 = false ∧
      (limiter.checkLimit now peerId).2.record peerId =
        (some ((limiter.refilledBucket now peerId).tokens,
          (limiter.refilledBucket now peerId).lastRefill),
          if BAN_THRESHOLD < (limiter.extended peerId now).length then
            (none, some (now + BAN_DURATION_MS))
          else (some (limiter.extended peerId now), none))) := by
  cases hban : limiter.bannedPeers.get? peerId with
  | none =>
    have hnot : limiter.NotBanned now peerId := by
      intro expiration hexpiration
      rw [hban] at hexpiration
      cases hexpiration
    have hcheck : limiter.checkLimit now peerId = limiter.spendToken now peerId := by
      simp [checkLimit, hban]
    rw [hcheck]
    exact .inr ((limiter.record_spendToken_self now peerId hban).imp (.intro hnot) (.intro hnot))
  | some expiration =>
    by_cases hexpired : expiration < now
    · have hnot : limiter.NotBanned now peerId := by
        intro other hother
        rw [hban] at hother
        cases hother
        exact hexpired
      have hcheck : limiter.checkLimit now peerId =
          (limiter.liftBan peerId).spendToken now peerId := by
        simp [checkLimit, hban, hexpired]
      rw [hcheck]
      have hlifted : (limiter.liftBan peerId).bannedPeers.get? peerId = none := by
        simp [liftBan]
      exact .inr (((limiter.liftBan peerId).record_spendToken_self now peerId hlifted).imp
        (.intro hnot) (.intro hnot))
    · refine .inl ⟨fun hnot ↦ hexpired (hnot expiration hban), ?_⟩
      simp [checkLimit, hban, hexpired]

/-- Refilling is the library's refill of the level that is held of the peer. -/
theorem refilledBucket_level (limiter : RateLimiter Peer) {now : ℕ} {peerId : Peer}
    (hrate : 0 ≤ limiter.refillRatePerSec) (hnow : (limiter.level peerId).2 ≤ now) :
    (limiter.refilledBucket now peerId).tokens =
        TokenBucket.refill limiter.capacity limiter.refillRatePerSec (limiter.level peerId).1
          ((now : ℚ) / 1000 - ((limiter.level peerId).2 : ℚ) / 1000) ∧
      (limiter.refilledBucket now peerId).lastRefill = now := by
  unfold level record refilledBucket at *
  cases hbucket : limiter.buckets.get? peerId with
  | none =>
    refine ⟨?_, rfl⟩
    have hflow : 0 ≤ limiter.refillRatePerSec * ((now : ℚ) / 1000) := by positivity
    simp [TokenBucket.refill, fullBucket, hflow]
  | some bucket =>
    rw [hbucket] at hnow
    have hle : ((bucket.lastRefill : ℕ) : ℚ) / 1000 ≤ (now : ℚ) / 1000 := by
      have : (bucket.lastRefill : ℚ) ≤ now := by exact_mod_cast hnow
      linarith
    refine ⟨?_, ?_⟩
    · exact (limiter.refillBucket_tokens now bucket).trans (by rw [max_eq_right hle]; rfl)
    · exact (limiter.refillBucket_lastRefill now bucket).trans (max_eq_right hnow)

theorem level_next_of_ne (limiter : RateLimiter Peer) {call : LimitCall Peer} {peerId : Peer}
    (h : call.peerId ≠ peerId) : (limiter.next call).level peerId = limiter.level peerId := by
  rw [level, level, limiter.record_next_of_ne h, capacity_next]

/-! ## The rate of one peer -/

theorem instants_cons_self (call : LimitCall Peer) (calls : List (LimitCall Peer)) :
    instants call.peerId (call :: calls) =
      (call.now : ℚ) / 1000 :: instants call.peerId calls := by
  simp [instants]

theorem instants_cons_of_ne {call : LimitCall Peer} {peerId : Peer} (h : call.peerId ≠ peerId)
    (calls : List (LimitCall Peer)) : instants peerId (call :: calls) = instants peerId calls := by
  simp [instants, h]

theorem le_of_mem_instants {now : ℕ} {peerId : Peer} {calls : List (LimitCall Peer)}
    (h : ∀ call ∈ calls, now ≤ call.now) {time : ℚ} (htime : time ∈ instants peerId calls) :
    (now : ℚ) / 1000 ≤ time := by
  obtain ⟨call, hcall, rfl⟩ := List.mem_map.1 htime
  have : (now : ℚ) ≤ call.now := by exact_mod_cast h call (List.mem_filter.1 hcall).1
  linarith

theorem accepted_sublist (limiter : RateLimiter Peer) (calls : List (LimitCall Peer)) :
    (limiter.accepted calls).Sublist calls := by
  induction calls generalizing limiter with
  | nil => exact .slnil
  | cons call calls ih =>
    unfold accepted
    split
    · exact (ih _).cons_cons _
    · exact (ih _).cons _

/-- The accepted calls of a peer alone would all have been admitted: the others take no token, and
what they refill would have been refilled anyway. -/
theorem admitsAll_accepted {limiter : RateLimiter Peer} {peerId : Peer}
    {calls : List (LimitCall Peer)} (hrate : 0 ≤ limiter.refillRatePerSec)
    (hordered : InOrder calls) (hnow : ∀ call ∈ calls, (limiter.level peerId).2 ≤ call.now) :
    TokenBucket.AdmitsAll limiter.capacity limiter.refillRatePerSec (limiter.level peerId).1
      (((limiter.level peerId).2 : ℚ) / 1000) (instants peerId (limiter.accepted calls)) := by
  induction calls generalizing limiter with
  | nil => exact trivial
  | cons call calls ih =>
    obtain ⟨hfirst, hrest⟩ := List.pairwise_cons.1 hordered
    have hlater (call') (hcall' : call' ∈ calls) : (limiter.level peerId).2 ≤ call'.now :=
      hnow call' (List.mem_cons_of_mem _ hcall')
    have hih (hnext : ∀ call' ∈ calls, ((limiter.next call).level peerId).2 ≤ call'.now) :=
      @ih (limiter.next call) (by simpa using hrate) hrest hnext
    simp only [capacity_next, refillRatePerSec_next] at hih
    by_cases hpeer : call.peerId = peerId
    · subst hpeer
      obtain ⟨htokens, hlast⟩ := limiter.refilledBucket_level hrate
        (hnow call List.mem_cons_self)
      have hinside (time) (htime : time ∈ instants call.peerId
          ((limiter.next call).accepted calls)) : (call.now : ℚ) / 1000 ≤ time :=
        le_of_mem_instants (fun call' hcall' ↦
          hfirst call' ((accepted_sublist _ _).subset hcall')) htime
      rcases limiter.checkLimit_cases call.now call.peerId with ⟨_, heq⟩ |
        ⟨_, hle, hanswer, hrecord⟩ | ⟨_, _, hanswer, hrecord⟩
      · have hsame : limiter.next call = limiter := congrArg Prod.snd heq
        have hanswer : limiter.answer call = false := congrArg Prod.fst heq
        rw [hsame] at hih
        rw [accepted, hanswer, hsame]
        exact hih hlater
      · have hlevel : (limiter.next call).level call.peerId =
            ((limiter.refilledBucket call.now call.peerId).tokens - 1, call.now) := by
          rw [level, next, hrecord, hlast]
          rfl
        rw [hlevel] at hih
        rw [accepted, answer, if_pos hanswer, instants_cons_self, TokenBucket.AdmitsAll,
          ← htokens]
        exact ⟨hle, hih hfirst⟩
      · have hlevel : (limiter.next call).level call.peerId =
            ((limiter.refilledBucket call.now call.peerId).tokens, call.now) := by
          rw [level, next, hrecord, hlast]
          rfl
        rw [hlevel, htokens] at hih
        rw [accepted, answer, hanswer]
        exact (TokenBucket.admitsAll_refill hrate hinside).1 (hih hfirst)
    · have hskip : instants peerId (limiter.accepted (call :: calls)) =
          instants peerId ((limiter.next call).accepted calls) := by
        rw [accepted]
        split
        · exact instants_cons_of_ne hpeer _
        · rfl
      rw [limiter.level_next_of_ne hpeer] at hih
      rw [hskip]
      exact hih hlater

/-- The bucket admits all the calls of the peer that are still to come. -/
structure Conforms (limiter : RateLimiter Peer) (peerId : Peer) (calls : List (LimitCall Peer)) :
    Prop where
  rate : 0 ≤ limiter.refillRatePerSec
  ordered : InOrder calls
  later : ∀ call ∈ calls, (limiter.level peerId).2 ≤ call.now
  unbanned : limiter.bannedPeers.get? peerId = none
  admits : TokenBucket.AdmitsAll limiter.capacity limiter.refillRatePerSec
    (limiter.level peerId).1 (((limiter.level peerId).2 : ℚ) / 1000) (instants peerId calls)

/-- The next call is accepted if it is one of the peer, and leaves the peer as it should be. -/
theorem Conforms.next {limiter : RateLimiter Peer} {peerId : Peer} {call : LimitCall Peer}
    {calls : List (LimitCall Peer)} (h : limiter.Conforms peerId (call :: calls)) :
    (call.peerId = peerId → limiter.answer call = true) ∧
      (limiter.next call).Conforms peerId calls := by
  obtain ⟨hrate, hordered, hlater, hban, hadmits⟩ := h
  obtain ⟨hfirst, hrest⟩ := List.pairwise_cons.1 hordered
  have hrate' : 0 ≤ (limiter.next call).refillRatePerSec := by simpa using hrate
  by_cases hpeer : call.peerId = peerId
  · subst hpeer
    obtain ⟨htokens, hlast⟩ := limiter.refilledBucket_level hrate (hlater call List.mem_cons_self)
    rw [instants_cons_self, TokenBucket.AdmitsAll, ← htokens] at hadmits
    have hnot : limiter.NotBanned call.now call.peerId := by
      intro expiration hexpiration
      rw [hban] at hexpiration
      cases hexpiration
    rcases limiter.checkLimit_cases call.now call.peerId with ⟨hbanned, _⟩ |
      ⟨_, _, hanswer, hrecord⟩ | ⟨_, hlt, _, _⟩
    · exact absurd hnot hbanned
    · have hlevel : (limiter.next call).level call.peerId =
          ((limiter.refilledBucket call.now call.peerId).tokens - 1, call.now) := by
        rw [level, RateLimiter.next, hrecord, hlast]
        rfl
      refine ⟨fun _ ↦ hanswer, hrate', hrest, ?_, ?_, ?_⟩
      · rw [hlevel]
        exact hfirst
      · exact congrArg (fun record ↦ record.2.2) hrecord
      · rw [hlevel, capacity_next, refillRatePerSec_next]
        exact hadmits.2
    · exact absurd hadmits.1 (not_le.2 hlt)
  · refine ⟨fun h ↦ absurd h hpeer, hrate', hrest, ?_, ?_, ?_⟩
    · rw [limiter.level_next_of_ne hpeer]
      exact fun call' hcall' ↦ hlater call' (List.mem_cons_of_mem _ hcall')
    · have hrecord := limiter.record_next_of_ne hpeer
      exact (congrArg (fun record ↦ record.2.2) hrecord).trans hban
    · rw [limiter.level_next_of_ne hpeer, capacity_next, refillRatePerSec_next]
      rwa [instants_cons_of_ne hpeer] at hadmits

theorem Conforms.after {limiter : RateLimiter Peer} {peerId : Peer}
    {before rest : List (LimitCall Peer)} (h : limiter.Conforms peerId (before ++ rest)) :
    (limiter.after before).Conforms peerId rest := by
  induction before generalizing limiter with
  | nil => exact h
  | cons call before ih => exact ih h.next.2

theorem level_new (capacity refillRate : ℚ) (peerId : Peer) :
    (new capacity refillRate).level peerId = (capacity, 0) := rfl

/-- In every window a peer gets no more calls through than a full bucket and the inflow allow; and
a peer whose calls keep to that in every window is always accepted and never banned. -/
theorem tokenBucket_exact {capacity refillRate : ℚ} (hcapacity : 1 ≤ capacity)
    (hrate : 0 < refillRate) (peerId : Peer) {calls : List (LimitCall Peer)}
    (hordered : InOrder calls) :
    (∀ s t : ℚ, s ≤ t →
      (((instants peerId ((new capacity refillRate).accepted calls)).filter fun time ↦
        s ≤ time ∧ time ≤ t).length : ℚ) ≤ capacity + refillRate * (t - s)) ∧
    (TokenBucket.Spaced capacity refillRate (instants peerId calls) →
      (∀ before call rest, calls = before ++ call :: rest → call.peerId = peerId →
        ((new capacity refillRate).after before).answer call = true) ∧
      ∀ before rest, calls = before ++ rest →
        ((new capacity refillRate).after before).bannedPeers.get? peerId = none) := by
  refine ⟨?_, ?_⟩
  · have hadmits := @admitsAll_accepted Peer _ (new capacity refillRate) peerId calls
      hrate.le hordered (by simp [level_new])
    have hspaced := ((TokenBucket.admitsAll_iff_fits _ _ _ _ _).1 hadmits).spaced
    intro s t hst
    exact hspaced.length_filter_le (by linarith : 0 ≤ capacity) hrate.le hst
  · intro hspaced
    have hstart : (new capacity refillRate).Conforms peerId calls := by
      refine ⟨hrate.le, hordered, by simp [level_new], rfl, ?_⟩
      rw [TokenBucket.admitsAll_iff_fits]
      refine hspaced.fits hrate.le ?_
      exact fun time htime ↦ le_of_mem_instants (fun _ _ ↦ Nat.zero_le _) htime
    refine ⟨?_, ?_⟩
    · rintro before call rest rfl hpeer
      exact hstart.after.next.1 hpeer
    · rintro before rest rfl
      exact hstart.after.unbanned

/-- Two calls of a peer in one second, with one of another peer between them. -/
def sharedSecond : List (LimitCall String) := [⟨1000, "alice"⟩, ⟨1500, "bob"⟩, ⟨2000, "alice"⟩]

theorem tokenBucket_exact_sharedSecond :
    (((instants "alice" ((new 1 1).accepted sharedSecond)).filter fun time ↦
        1 ≤ time ∧ time ≤ 2).length : ℚ) ≤ 1 + 1 * (2 - 1) ∧
      ((new 1 1).after [⟨1000, "alice"⟩, ⟨1500, "bob"⟩]).answer ⟨2000, "alice"⟩ = true := by
  have hordered : InOrder sharedSecond := by
    unfold InOrder
    decide
  have hspaced : TokenBucket.Spaced (1 : ℚ) 1 (instants "alice" sharedSecond) := by
    have htimes : instants "alice" sharedSecond = [1, 2] := by
      have hkept : sharedSecond.filter (fun call ↦ call.peerId = "alice") =
          [⟨1000, "alice"⟩, ⟨2000, "alice"⟩] := by decide
      rw [instants, hkept]
      norm_num
    rw [htimes]
    intro last hlast first hfirst
    have hcases : last = 0 ∧ first = 0 ∨ last = 1 ∧ first = 0 ∨ last = 1 ∧ first = 1 := by
      simp only [List.length_cons, List.length_nil] at hlast
      omega
    rcases hcases with ⟨rfl, rfl⟩ | ⟨rfl, rfl⟩ | ⟨rfl, rfl⟩ <;> norm_num
  have hexact := tokenBucket_exact (le_refl (1 : ℚ)) one_pos "alice" hordered
  exact ⟨hexact.1 1 2 (by norm_num),
    (hexact.2 hspaced).1 [⟨1000, "alice"⟩, ⟨1500, "bob"⟩] ⟨2000, "alice"⟩ [] rfl rfl⟩

end RateLimiter

end P2PApp
