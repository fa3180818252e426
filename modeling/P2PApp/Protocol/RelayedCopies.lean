import P2PApp.Protocol.Insertion
import P2PApp.Protocol.RelayedLoad
import P2PApp.Transport.Fanout

/-!
# Two engines in a row

What an engine forwards to a neighbour has been charged to the peer that it came from, and is
charged again by the neighbour, to the engine. The limiters follow the receptions that pass the
proof of work, and a copy is only sent for a reception that the limiter has let through. So the
copies are a part of the accepted calls, and a neighbour with a limiter of the summed sizes never
drops one of them for its rate.
-/

namespace P2PApp

namespace GossipEngine

variable (platform : Platform)

/-- The call of the limiter that a reception makes, if its puzzle is solved and a neighbour has
sent it. -/
def limiterCall? (reception : Reception) : Option (LimitCall String) :=
  if platform.verifyPuzzle reception.message.id Config.POW_DIFFICULTY
      reception.message.powNonce = true then
    reception.fromPeerId.map fun peerId ↦ ⟨reception.moment.now, peerId⟩
  else none

def limiterCalls (receptions : List Reception) : List (LimitCall String) :=
  receptions.filterMap (limiterCall? platform)

/-- The copies for a peer among some effects, one for each connection to it. -/
def copiesFor (pool : ConnectionPool) (peerId : String) (effects : List EngineEffect) :
    List P2PMessage :=
  effects.flatMap fun
    | .broadcast message excluded =>
      List.replicate (((pool.copies excluded).map Prod.fst).count peerId) message
    | .messageNew _ => []

/-- The copies that an engine hands to a peer, each with its time. -/
def copiesTo (peerId : String) (engine : GossipEngine) : List Reception → List (P2PMessage × ℕ)
  | [] => []
  | reception :: receptions =>
    (copiesFor reception.pool peerId (engine.receive platform reception).2).map
        (·, reception.moment.now) ++
      copiesTo peerId (engine.receive platform reception).1 receptions

/-- The times and messages of what a peer sends. -/
def arrivalsFrom (peerId : String) (receptions : List Reception) : List (P2PMessage × ℕ) :=
  (receptions.filter fun reception ↦ reception.fromPeerId = some peerId).map fun reception ↦
    (reception.message, reception.moment.now)

variable {platform}

/-! ## What is charged -/

/-- Whatever is done with a message that is fresh is done without the limiter. -/
theorem rateLimiter_screen (engine : GossipEngine) (reception : Reception) :
    (engine.receive platform reception).1.rateLimiter =
      (engine.screen platform reception.moment.now reception.message
        reception.fromPeerId).2.rateLimiter := by
  obtain ⟨message, fromPeerId, pool, ⟨now, draws⟩⟩ := reception
  unfold receive receiveMessage
  dsimp only
  split
  · rename_i screened hscreened
    rw [hscreened]
    split
    · rename_i htype
      obtain ⟨⟨router, collector, hframe⟩, _⟩ :=
        processSubAd_spec pool now screened message fromPeerId htype
      rw [hframe]
    · obtain ⟨⟨collector, hframe⟩, _⟩ :=
        processGossip_spec pool now draws screened message fromPeerId
      rw [hframe]
  · rename_i hscreened
    rw [hscreened]

theorem rateLimiter_limited (engine : GossipEngine) (now : ℕ) (fromPeerId : Option String) :
    (engine.limited now fromPeerId).rateLimiter =
      (fromPeerId.map fun peerId ↦ (⟨now, peerId⟩ : LimitCall String)).elim engine.rateLimiter
        engine.rateLimiter.next := by
  cases fromPeerId with
  | none => rfl
  | some peerId => rfl

/-- A reception makes its call of the limiter and no other. -/
theorem rateLimiter_receive (engine : GossipEngine) (reception : Reception) :
    (engine.receive platform reception).1.rateLimiter =
      (limiterCall? platform reception).elim engine.rateLimiter engine.rateLimiter.next := by
  rw [rateLimiter_screen]
  obtain ⟨message, fromPeerId, pool, ⟨now, draws⟩⟩ := reception
  have hverified : (engine.verified platform now message fromPeerId).rateLimiter =
      (engine.limited now fromPeerId).rateLimiter := by
    unfold verified verifySignature
    split <;> rfl
  have hclocked : (engine.clocked platform now message fromPeerId).rateLimiter =
      (engine.limited now fromPeerId).rateLimiter := by
    rw [← hverified]
    unfold clocked updateClock
    split <;> rfl
  rw [screen_eq, limiterCall?]
  dsimp only
  cases hpow : platform.verifyPuzzle message.id Config.POW_DIFFICULTY message.powNonce with
  | false => rfl
  | true =>
    rw [if_neg (by decide), if_pos rfl, ← rateLimiter_limited]
    split
    · rfl
    · split
      · exact hverified
      · split
        · exact hclocked
        · exact hclocked

theorem limiterCalls_cons (reception : Reception) (receptions : List Reception) :
    limiterCalls platform (reception :: receptions) =
      (limiterCall? platform reception).toList ++ limiterCalls platform receptions := by
  rw [limiterCalls, List.filterMap_cons]
  cases limiterCall? platform reception with
  | none => rfl
  | some call => rfl

/-- The limiter after some receptions is the one after their calls. -/
theorem rateLimiter_receiveAll (engine : GossipEngine) (receptions : List Reception) :
    (engine.receiveAll platform receptions).rateLimiter =
      engine.rateLimiter.after (limiterCalls platform receptions) := by
  induction receptions generalizing engine with
  | nil => rfl
  | cons reception receptions ih =>
    calc (engine.receiveAll platform (reception :: receptions)).rateLimiter
        = ((engine.receive platform reception).1.receiveAll platform receptions).rateLimiter := rfl
      _ = (engine.receive platform reception).1.rateLimiter.after
            (limiterCalls platform receptions) := ih _
      _ = ((limiterCall? platform reception).elim engine.rateLimiter
            engine.rateLimiter.next).after (limiterCalls platform receptions) := by
          rw [rateLimiter_receive]
      _ = engine.rateLimiter.after (limiterCalls platform (reception :: receptions)) := by
          rw [limiterCalls_cons]
          cases limiterCall? platform reception with
          | none => rfl
          | some call => rfl

/-! ## What is forwarded -/

theorem copiesFor_sublist {pool : ConnectionPool} {peerId : String}
    (hsingle : ¬pool.InBothMaps peerId) (effects : List EngineEffect) :
    (copiesFor pool peerId effects).Sublist (broadcasts effects) := by
  induction effects with
  | nil => exact List.Sublist.refl _
  | cons effect effects ih =>
    rw [copiesFor, List.flatMap_cons, broadcasts]
    cases effect with
    | messageNew message => exact ih
    | broadcast message excluded =>
      have hcount : ((pool.copies excluded).map Prod.fst).count peerId ≤ 1 := by
        rw [(pool.count_copies_eq_iff excluded peerId).2 fun _ ↦ hsingle]
        split <;> omega
      have hhead : (List.replicate (((pool.copies excluded).map Prod.fst).count peerId)
          message).Sublist [message] := List.replicate_sublist_replicate message |>.2 hcount
      exact hhead.append ih

/-- A peer with a single connection gets a single copy, of a message that has passed all checks. -/
theorem copiesFor_receive {engine : GossipEngine} {reception : Reception} {peerId : String}
    (hsingle : ¬reception.pool.InBothMaps peerId) :
    copiesFor reception.pool peerId (engine.receive platform reception).2 = [] ∨
      ∃ sent, copiesFor reception.pool peerId (engine.receive platform reception).2 = [sent] ∧
        sent.id = reception.message.id ∧ sent.powNonce = reception.message.powNonce ∧
        engine.Accepts platform reception.moment.now reception.message reception.fromPeerId := by
  have hsublist := copiesFor_sublist hsingle (engine.receive platform reception).2
  have hshort := hsublist.length_le.trans (engine.length_effects reception.pool
    reception.moment.now reception.moment.draws reception.message reception.fromPeerId platform).1
  match hcopies : copiesFor reception.pool peerId (engine.receive platform reception).2 with
  | [] => exact .inl rfl
  | [sent] =>
    have hmem : sent ∈ broadcasts (engine.receive platform reception).2 :=
      hsublist.subset (hcopies ▸ List.mem_cons_self)
    have hsent := (engine.of_mem_broadcasts reception.pool reception.moment.now
      reception.moment.draws reception.message reception.fromPeerId platform hmem).1
    refine .inr ⟨sent, rfl, by rw [hsent], by rw [hsent], ?_⟩
    exact engine.accepts_of_effects_ne_nil reception.pool reception.moment.now
      reception.moment.draws reception.message reception.fromPeerId platform
      (ne_nil_of_mem_broadcasts hmem)
  | _ :: _ :: _ =>
    rw [hcopies] at hshort
    simp at hshort

/-- The copies belong to calls that the limiter has accepted. -/
theorem exists_forwarded {peerId : String} {receptions : List Reception}
    (hsingle : ∀ reception ∈ receptions, ¬reception.pool.InBothMaps peerId)
    (hfrom : ∀ reception ∈ receptions, reception.fromPeerId ≠ none) (engine : GossipEngine) :
    ∃ forwarded : List (LimitCall String),
      forwarded.Sublist (engine.rateLimiter.accepted (limiterCalls platform receptions)) ∧
      (copiesTo platform peerId engine receptions).map Prod.snd = forwarded.map LimitCall.now := by
  induction receptions generalizing engine with
  | nil => exact ⟨[], List.Sublist.refl _, rfl⟩
  | cons reception receptions ih =>
    obtain ⟨forwarded, hsublist, htimes⟩ := ih
      (fun other hother ↦ hsingle other (List.mem_cons_of_mem _ hother))
      (fun other hother ↦ hfrom other (List.mem_cons_of_mem _ hother))
      (engine.receive platform reception).1
    rw [rateLimiter_receive] at hsublist
    rw [limiterCalls_cons, copiesTo]
    rcases @copiesFor_receive platform engine reception peerId
      (hsingle reception List.mem_cons_self) with hnone | ⟨sent, hone, _, _, haccepts⟩
    · rw [hnone]
      refine ⟨forwarded, ?_, htimes⟩
      cases hcall : limiterCall? platform reception with
      | none =>
        rw [hcall] at hsublist
        exact hsublist
      | some call =>
        rw [hcall] at hsublist
        rw [Option.toList_some, List.singleton_append, RateLimiter.accepted]
        split
        · exact hsublist.cons _
        · exact hsublist
    · obtain ⟨fromPeerId, hpeer⟩ := Option.ne_none_iff_exists'.1 (hfrom reception List.mem_cons_self)
      have hcall : limiterCall? platform reception =
          some ⟨reception.moment.now, fromPeerId⟩ := by
        rw [limiterCall?, if_pos haccepts.pow, hpeer]
        rfl
      have hanswer : engine.rateLimiter.answer ⟨reception.moment.now, fromPeerId⟩ = true :=
        haccepts.allowed fromPeerId hpeer
      rw [hcall] at hsublist ⊢
      refine ⟨⟨reception.moment.now, fromPeerId⟩ :: forwarded, ?_, ?_⟩
      · rw [Option.toList_some, List.singleton_append, RateLimiter.accepted, if_pos hanswer]
        exact hsublist.cons_cons _
      · rw [hone, List.map_append, htimes]
        rfl

/-- The puzzles of the copies are solved, like those of the messages that they are copies of. -/
theorem verifyPuzzle_of_mem_copiesTo {peerId : String} {receptions : List Reception}
    (hsingle : ∀ reception ∈ receptions, ¬reception.pool.InBothMaps peerId)
    (engine : GossipEngine) {copy : P2PMessage × ℕ}
    (h : copy ∈ copiesTo platform peerId engine receptions) :
    platform.verifyPuzzle copy.1.id Config.POW_DIFFICULTY copy.1.powNonce = true := by
  induction receptions generalizing engine with
  | nil => cases h
  | cons reception receptions ih =>
    rw [copiesTo, List.mem_append] at h
    rcases h with hnow | hlater
    · rcases @copiesFor_receive platform engine reception peerId
        (hsingle reception List.mem_cons_self) with hnone | ⟨sent, hone, hid, hnonce, haccepts⟩
      · rw [hnone] at hnow
        cases hnow
      · rw [hone] at hnow
        obtain rfl := List.mem_singleton.1 hnow
        dsimp only
        rw [hid, hnonce]
        exact haccepts.pow
    · exact ih (fun other hother ↦ hsingle other (List.mem_cons_of_mem _ hother)) _ hlater

/-! ## What arrives -/

/-- The call of a reception is one of the peer that it is from. -/
theorem peerId_of_limiterCall? {reception : Reception} {call : LimitCall String}
    (h : limiterCall? platform reception = some call) :
    reception.fromPeerId = some call.peerId ∧ call.now = reception.moment.now := by
  unfold limiterCall? at h
  split at h
  · obtain ⟨peerId, hpeer, rfl⟩ := Option.map_eq_some_iff.1 h
    exact ⟨hpeer, rfl⟩
  · cases h

theorem inOrder_limiterCalls {receptions : List Reception}
    (h : receptions.Pairwise fun earlier later ↦ earlier.moment.now ≤ later.moment.now) :
    RateLimiter.InOrder (limiterCalls platform receptions) := by
  apply List.pairwise_filterMap.2
  apply h.imp
  intro earlier later hle call hcall call' hcall'
  rw [(peerId_of_limiterCall? hcall).2, (peerId_of_limiterCall? hcall').2]
  exact hle

/-- The calls of a peer are made for its arrivals. -/
theorem instants_limiterCalls_sublist (peerId : String) (receptions : List Reception) :
    (RateLimiter.instants peerId (limiterCalls platform receptions)).Sublist
      ((arrivalsFrom peerId receptions).map fun arrival ↦ (arrival.2 : ℚ) / 1000) := by
  induction receptions with
  | nil => exact List.Sublist.refl _
  | cons reception receptions ih =>
    rw [limiterCalls_cons, arrivalsFrom, List.filter_cons]
    cases hcall : limiterCall? platform reception with
    | none =>
      split
      · exact ih.cons _
      · exact ih
    | some call =>
      obtain ⟨hpeer, hnow⟩ := peerId_of_limiterCall? hcall
      rw [Option.toList_some, List.singleton_append]
      by_cases hsame : call.peerId = peerId
      · subst hsame
        rw [RateLimiter.instants_cons_self, if_pos (decide_eq_true hpeer), List.map_cons,
          List.map_cons, hnow]
        exact ih.cons_cons _
      · have hother : ¬reception.fromPeerId = some peerId := by
          rw [hpeer]
          exact fun h ↦ hsame (Option.some_injective _ h)
        rw [RateLimiter.instants_cons_of_ne hsame, if_neg (by simpa using hother)]
        exact ih

/-- The message of `bob` at a node whose other neighbour is `dave`. -/
def passedToDave : Reception :=
  { ofBob with pool := (ConnectionPool.new "local").addInboundConnection ⟨0, "dave"⟩ }

/-- The copy of it, forty milliseconds later. -/
def atDave : Reception where
  message := { ofBob.message with ttl := ofBob.message.ttl - 1 }
  fromPeerId := some "local"
  pool := .new "dave"
  moment := ⟨1040, fun _ ↦ 0⟩

end GossipEngine

end P2PApp
