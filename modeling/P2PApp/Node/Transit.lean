import P2PApp.Node.Effects

/-!
# What a relaying node can change

A message of an honest originator next to a copy that was altered on its way. If a node accepts the
copy in the name of the originator, the signature vouches for the five covered fields. How the copy
is ordered and how long it is kept depends on two more, the Lamport stamp and the time of creation,
which nothing vouches for: the clock, the key of the store and the pruning treat the copy like the
original exactly if these two are the same, up to notation.
-/

namespace P2PApp.Node

open JavaScript

variable (runtime : Runtime) (createdAtMs : Value → Number)

/-- What the factory puts into the fields that ordering and storage read. -/
structure Honest (message : Value) (id topic : String) (logicalClock : ℕ) : Prop where
  id : message.property "id" = .string id
  topic : message.property "topic" = .string topic
  lamportTimestamp : message.property "lamportTimestamp" = .number (.finite logicalClock)
  positive : 0 < logicalClock

/-- Under the key of the originator, the signature of the message goes with no other id and topic,
and its id with no other topic: signatures are ideal, and the originator uses an id once. -/
structure Binds (publicKey message : Value) : Prop where
  signature : ∀ fields, runtime.verify fields (message.property "signature") publicKey = true →
    fields.id = message.property "id"
  id : ∀ fields signature, runtime.verify fields signature publicKey = true →
    fields.id = message.property "id" → fields.topic = message.property "topic"

/-- The key under which a message is verified: the registered one, else the attached one. -/
def SecurityManager.verificationKey (manager : SecurityManager) (message : Value) : Value :=
  if (manager.keyOf (message.property "sender").key).truthy = false ∧
      (message.property "senderPublicKey").truthy = true then
    message.property "senderPublicKey"
  else manager.keyOf (message.property "sender").key

/-- The key under which a message is filed. -/
def storeKey (message : Value) : Option String :=
  P2PNode.makeKey runtime (message.property "topic") (message.property "lamportTimestamp")
    (message.property "id")

/-- The copy goes with the key of the originator, and with the message's id or signature. -/
def SecurityManager.Vouches (manager : SecurityManager) (publicKey message copy : Value) : Prop :=
  manager.verificationKey copy = publicKey ∧
    (copy.property "id" = message.property "id" ∨
      copy.property "signature" = message.property "signature")

/-- The copy advances every clock as the message does, is filed under the same key, and has the same
age when the store is pruned. -/
structure SameTreatment (message copy : Value) : Prop where
  clock : ∀ engine : GossipEngine,
    (engine.updateClock runtime (copy.property "lamportTimestamp")).map
        GossipEngine.lamportClock =
      (engine.updateClock runtime (message.property "lamportTimestamp")).map
        GossipEngine.lamportClock
  key : storeKey runtime copy = storeKey runtime message
  createdAt : createdAtMs (copy.property "createdAt") = createdAtMs (message.property "createdAt")

/-- The stamp of the copy counts as true, converts to the number, and as a text it is the numeral up
to padding; and the copy was created when the message was. Where nothing vouches for the copy, its
topic and its id have to make the same label with the stamp. -/
structure SameStamps (vouched : Prop) (logicalClock : ℕ) (id topic : String)
    (message copy : Value) : Prop where
  truthy : (copy.property "lamportTimestamp").truthy = true
  number : (copy.property "lamportTimestamp").toNumber runtime.toConversions =
    some (.finite logicalClock)
  text : vouched →
    ((copy.property "lamportTimestamp").toText runtime.toConversions).map P2PNode.padStart =
      some (P2PNode.padStart (runtime.numberText (.finite logicalClock)))
  label : ¬vouched → ∃ topic' stamp' id',
    (copy.property "topic").toText runtime.toConversions = some topic' ∧
    (copy.property "lamportTimestamp").toText runtime.toConversions = some stamp' ∧
    (copy.property "id").toText runtime.toConversions = some id' ∧
    topic' ++ ":" ++ P2PNode.padStart stamp' ++ ":" ++ id' =
      topic ++ ":" ++ P2PNode.padStart (runtime.numberText (.finite logicalClock)) ++ ":" ++ id
  createdAt : createdAtMs (copy.property "createdAt") = createdAtMs (message.property "createdAt")

variable {runtime createdAtMs}

/-! ## What the signature vouches for -/

theorem SecurityManager.verify_of_fst {manager : SecurityManager} {message : Value}
    (h : (manager.verifyIncomingMessage runtime message).1 = true) :
    runtime.verify (signedFields message) (message.property "signature")
      (manager.verificationKey message) = true := by
  unfold verifyIncomingMessage at h
  dsimp only at h
  split at h
  · cases h
  · by_cases hlearns : (manager.keyOf (message.property "sender").key).truthy = false ∧
        (message.property "senderPublicKey").truthy = true
    · simp only [hlearns, and_self, if_true] at h
      rw [verificationKey, if_pos hlearns]
      split at h
      · cases h
      · exact h
    · simp only [hlearns, if_false] at h
      rw [verificationKey, if_neg hlearns]
      split at h
      · cases h
      · exact h

namespace GossipEngine

variable {now : ℕ} {engine after : GossipEngine} {message : Value} {fromPeerId : Key}

/-- A message that passes the checks is signed, and has advanced the clock. -/
theorem screen_passed (h : engine.screen runtime now message fromPeerId = some (true, after)) :
    (engine.securityManager.verifyIncomingMessage runtime message).1 = true ∧
      (engine.updateClock runtime (message.property "lamportTimestamp")).map lamportClock =
        some after.lamportClock := by
  cases screening_screen h with
  | passed rateLimiter lamportClock hvalid hclock hunseen => exact ⟨hvalid, hclock⟩

/-- A message that a call announces is signed, and has advanced the clock. -/
theorem clock_of_announced
    (h : engine.receiveMessage runtime now message fromPeerId = some (after, true)) :
    (engine.securityManager.verifyIncomingMessage runtime message).1 = true ∧
      (engine.updateClock runtime (message.property "lamportTimestamp")).map lamportClock =
        some after.lamportClock := by
  unfold receiveMessage at h
  split at h
  · cases h
  · cases h
  · rename_i screened hscreened
    obtain ⟨hsigned, hclock⟩ := screen_passed hscreened
    refine ⟨hsigned, hclock.trans (congrArg some ?_)⟩
    split at h
    · obtain ⟨topicRouter, rfl⟩ := eq_of_processSubAd h
      rfl
    · rw [eq_of_processGossip h]

/-- A clock at zero tells the stamps apart. -/
theorem eq_of_max_zero {receivedTime : Number} {logicalClock : ℚ} (hpositive : 0 < logicalClock)
    (h : ((Number.finite 0).max receivedTime).add 1 = .finite (logicalClock + 1)) :
    receivedTime = .finite logicalClock := by
  cases receivedTime with
  | nan => cases h
  | infinity => cases h
  | negInfinity =>
    have hone : (0 : ℚ) + 1 = logicalClock + 1 := Number.finite.inj h
    linarith
  | finite value =>
    by_cases hvalue : 0 < value
    · have hmax : (Number.finite 0).max (.finite value) = .finite value := by
        simp [Number.max, Number.less, hvalue]
      rw [hmax] at h
      have hsum : value + 1 = logicalClock + 1 := Number.finite.inj h
      exact congrArg Number.finite (by linarith)
    · have hmax : (Number.finite 0).max (.finite value) = .finite 0 := by
        simp [Number.max, Number.less, hvalue]
      rw [hmax] at h
      have hone : (0 : ℚ) + 1 = logicalClock + 1 := Number.finite.inj h
      linarith

/-- A stamp advances every clock as a positive number does, if and only if it counts as true and
converts to that number. -/
theorem updateClock_eq_iff (runtime : Runtime) (stamp : Value) {logicalClock : ℕ}
    (hpositive : 0 < logicalClock) :
    (∀ engine : GossipEngine, (engine.updateClock runtime stamp).map lamportClock =
      (engine.updateClock runtime (.number (.finite logicalClock))).map lamportClock) ↔
    stamp.truthy = true ∧ stamp.toNumber runtime.toConversions = some (.finite logicalClock) := by
  have hcast : (0 : ℚ) < logicalClock := by exact_mod_cast hpositive
  have htruthy : (Value.number (.finite logicalClock)).truthy = true := by
    simpa [Value.truthy, Value.key, Key.truthy] using hpositive.ne'
  have hnumber : (Value.number (.finite logicalClock)).toNumber runtime.toConversions =
      some (.finite logicalClock) := rfl
  simp only [lamportClock_updateClock, htruthy, if_true, hnumber, Option.map_some]
  constructor
  · intro h
    have hzero := h (.new "" "" 0 0)
    have hmax : ((Number.finite 0).max (.finite logicalClock)).add 1 =
        .finite (logicalClock + 1) := by
      simp [Number.max, Number.less, Number.add, hcast]
    have hclock : (new "" "" 0 0).lamportClock = .finite 0 := rfl
    rw [hclock, hmax] at hzero
    split at hzero
    · rename_i hstamp
      obtain ⟨receivedTime, hconverts, hreceived⟩ := Option.map_eq_some_iff.1 hzero
      exact ⟨hstamp, hconverts.trans (congrArg some (eq_of_max_zero hcast hreceived))⟩
    · have hone : (0 : ℚ) = logicalClock + 1 := Number.finite.inj (Option.some.inj hzero)
      linarith
  · rintro ⟨hstamp, hconverts⟩ engine
    rw [if_pos hstamp, hconverts]
    rfl

end GossipEngine

/-! ## The key of the store -/

theorem storeKey_eq_some_iff {message : Value} {key : String} :
    storeKey runtime message = some key ↔ ∃ topic stamp id,
      (message.property "topic").toText runtime.toConversions = some topic ∧
      (message.property "lamportTimestamp").toText runtime.toConversions = some stamp ∧
      (message.property "id").toText runtime.toConversions = some id ∧
      "msg:" ++ topic ++ ":" ++ P2PNode.padStart stamp ++ ":" ++ id = key := by
  simp [storeKey, P2PNode.makeKey, Option.bind_eq_some_iff]

theorem storeKey_of_honest {message : Value} {id topic : String} {logicalClock : ℕ}
    (h : Honest message id topic logicalClock) :
    storeKey runtime message = some ("msg:" ++ topic ++ ":" ++
      P2PNode.padStart (runtime.numberText (.finite logicalClock)) ++ ":" ++ id) := by
  refine storeKey_eq_some_iff.2 ⟨topic, _, id, ?_, ?_, ?_, rfl⟩
  · rw [h.topic]
    rfl
  · rw [h.lamportTimestamp]
    rfl
  · rw [h.id]
    rfl

/-- An announced message is filed under its key, unless it is a routing message. -/
theorem P2PNode.saved_of_announced {now : ℕ} {node after : P2PNode} {engine : GossipEngine}
    {message : Value} {fromPeerId : Key}
    (hannounced : node.gossipEngine.receiveMessage runtime now message fromPeerId =
      some (engine, true))
    (htype : (message.property "type").key ≠ .string "SUB_AD")
    (h : node.receiveMessage runtime now message fromPeerId = some after) :
    ∃ key, storeKey runtime message = some key ∧ after.saved = node.saved ++ [key] := by
  simp only [receiveMessage, hannounced, Option.bind_some, if_true, messageNew, htype, if_false,
    save] at h
  split at h
  · cases h
  · obtain ⟨key, hkey, rfl⟩ := Option.map_eq_some_iff.1 h
    exact ⟨key, hkey, rfl⟩

section Copy

variable {now : ℕ} {engine after : GossipEngine} {publicKey message copy : Value}
  {fromPeerId : Key} {id topic : String} {logicalClock : ℕ}

/-- The topic and the id of a copy that the originator vouches for are those of the message. -/
theorem name_of_vouches (hbinds : Binds runtime publicKey message)
    (haccepted : engine.receiveMessage runtime now copy fromPeerId = some (after, true))
    (hvouches : engine.securityManager.Vouches publicKey message copy) :
    copy.property "topic" = message.property "topic" ∧
      copy.property "id" = message.property "id" := by
  have hverify := SecurityManager.verify_of_fst (GossipEngine.clock_of_announced haccepted).1
  rw [hvouches.1] at hverify
  have hid : copy.property "id" = message.property "id" := by
    rcases hvouches.2 with hid | hsignature
    · exact hid
    · rw [hsignature] at hverify
      exact hbinds.signature _ hverify
  exact ⟨hbinds.id _ _ hverify hid, hid⟩

/-- Next to the topic and the id of the message, the key says the text of the stamp. -/
theorem storeKey_eq_iff_of_name (hhonest : Honest message id topic logicalClock)
    (htopic : copy.property "topic" = message.property "topic")
    (hid : copy.property "id" = message.property "id") :
    storeKey runtime copy = storeKey runtime message ↔
      ((copy.property "lamportTimestamp").toText runtime.toConversions).map P2PNode.padStart =
        some (P2PNode.padStart (runtime.numberText (.finite logicalClock))) := by
  rw [storeKey_of_honest hhonest, storeKey_eq_some_iff, Option.map_eq_some_iff, htopic, hid,
    hhonest.topic, hhonest.id]
  constructor
  · rintro ⟨_, stamp, _, htext, hstamp, hname, hkey⟩
    cases htext
    cases hname
    refine ⟨stamp, hstamp, ?_⟩
    simpa [Value.text, String.append_assoc] using hkey
  · rintro ⟨stamp, hstamp, hpadded⟩
    exact ⟨topic, stamp, id, rfl, hstamp, rfl, by rw [hpadded]⟩

theorem storeKey_eq_iff (hhonest : Honest message id topic logicalClock) :
    storeKey runtime copy = storeKey runtime message ↔ ∃ topic' stamp' id',
      (copy.property "topic").toText runtime.toConversions = some topic' ∧
      (copy.property "lamportTimestamp").toText runtime.toConversions = some stamp' ∧
      (copy.property "id").toText runtime.toConversions = some id' ∧
      topic' ++ ":" ++ P2PNode.padStart stamp' ++ ":" ++ id' =
        topic ++ ":" ++ P2PNode.padStart (runtime.numberText (.finite logicalClock)) ++ ":" ++
          id := by
  rw [storeKey_of_honest hhonest, storeKey_eq_some_iff]
  simp only [String.append_assoc, String.append_right_inj]

/-- An accepted copy of an honest message is treated like the message exactly if its stamps are
those of the message. -/
theorem sameTreatment_iff (hhonest : Honest message id topic logicalClock)
    (hbinds : Binds runtime publicKey message)
    (haccepted : engine.receiveMessage runtime now copy fromPeerId = some (after, true)) :
    SameTreatment runtime createdAtMs message copy ↔
      SameStamps runtime createdAtMs (engine.securityManager.Vouches publicKey message copy)
        logicalClock id topic message copy := by
  have hclock := GossipEngine.updateClock_eq_iff runtime (copy.property "lamportTimestamp")
    hhonest.positive
  rw [← hhonest.lamportTimestamp] at hclock
  have hname := name_of_vouches hbinds haccepted
  constructor
  · intro h
    obtain ⟨htruthy, hnumber⟩ := hclock.1 h.clock
    refine ⟨htruthy, hnumber, fun hvouches ↦ ?_, fun _ ↦ ?_, h.createdAt⟩
    · exact (storeKey_eq_iff_of_name hhonest (hname hvouches).1 (hname hvouches).2).1 h.key
    · exact (storeKey_eq_iff hhonest).1 h.key
  · intro h
    refine ⟨hclock.2 ⟨h.truthy, h.number⟩, ?_, h.createdAt⟩
    by_cases hvouches : engine.securityManager.Vouches publicKey message copy
    · exact (storeKey_eq_iff_of_name hhonest (hname hvouches).1 (hname hvouches).2).2
        (h.text hvouches)
    · exact (storeKey_eq_iff hhonest).2 (h.label hvouches)

/-- A copy that the originator vouches for is treated like its message. -/
def TransitCannotReorder (runtime : Runtime) (createdAtMs : Value → Number) : Prop :=
  ∀ now engine after publicKey message copy fromPeerId id topic logicalClock,
    Honest message id topic logicalClock → Binds runtime publicKey message →
    GossipEngine.receiveMessage runtime now engine copy fromPeerId = some (after, true) →
    engine.securityManager.Vouches publicKey message copy →
      SameTreatment runtime createdAtMs message copy

/-- The one signature of `bob`, over the five fields of one message. -/
def bobSigned (fields : SignedFields) (signature publicKey : Value) : Bool :=
  fields.id.key = .string "m945" ∧ fields.type.key = .string "CHAT" ∧
    fields.sender.key = .string "bob" ∧ fields.topic.key = .string "news" ∧
    fields.payload.key = .string "hello" ∧ signature.key = .string "signature of bob" ∧
    publicKey.key = .string "bob-key"

def bobSigns : Runtime := { Runtime.sample with verify := bobSigned }

/-- The message of `bob`, with a stamp, a time of creation and hops as they come along. -/
def ofBob (lamportTimestamp : ℕ) (createdAt : String) (hops : List Value) : Value :=
  .object 0
    [("id", .string "m945"), ("type", .string "CHAT"), ("sender", .string "bob"),
      ("topic", .string "news"), ("payload", .string "hello"),
      ("lamportTimestamp", .number (.finite lamportTimestamp)), ("createdAt", .string createdAt),
      ("routingPath", .array 1 hops), ("ttl", .number (.finite 10)),
      ("signature", .string "signature of bob"), ("senderPublicKey", .string "bob-key")]

/-- Two days, and a time before all others for what is no day. -/
def timeOf (createdAt : Value) : Number :=
  if createdAt.key = .string "1970-01-01" then .finite 0
  else if createdAt.key = .string "1970-01-02" then .finite 86400000
  else .nan

theorem honest_ofBob {lamportTimestamp : ℕ} (hpositive : 0 < lamportTimestamp)
    (createdAt : String) (hops : List Value) :
    Honest (ofBob lamportTimestamp createdAt hops) "m945" "news" lamportTimestamp :=
  ⟨rfl, rfl, rfl, hpositive⟩

theorem binds_ofBob (lamportTimestamp : ℕ) (createdAt : String) (hops : List Value) :
    Binds bobSigns (.string "bob-key") (ofBob lamportTimestamp createdAt hops) where
  signature fields h := by
    have hsigned := of_decide_eq_true h
    exact Value.eq_string_of_key hsigned.1
  id fields signature h _ := by
    have hsigned := of_decide_eq_true h
    exact Value.eq_string_of_key hsigned.2.2.2.1

def alice : GossipEngine := .new "alice" "alice-key" 20 5

/-- What `alice` is after a copy that `carol` relays. -/
def received (copy : Value) : Option (GossipEngine × Bool) :=
  alice.receiveMessage bobSigns 1 copy (.string "carol")

theorem announced_of_snd {copy : Value} (h : (received copy).map Prod.snd = some true) :
    ∃ after, received copy = some (after, true) := by
  obtain ⟨⟨after, announced⟩, hreceived, hannounced⟩ := Option.map_eq_some_iff.1 h
  exact ⟨after, hreceived.trans (congrArg some (Prod.ext rfl hannounced))⟩

theorem vouches_ofBob (message : Value) (hid : message.property "id" = .string "m945")
    (lamportTimestamp : ℕ) (createdAt : String) (hops : List Value) :
    alice.securityManager.Vouches (.string "bob-key") message
      (ofBob lamportTimestamp createdAt hops) := by
  have hlearns : (alice.securityManager.keyOf (.string "bob")).truthy = false ∧
      (Value.string "bob-key").truthy = true := by decide +kernel
  exact ⟨if_pos hlearns, .inl hid.symm⟩

/-- One more hop, and the rest as it was. -/
theorem sameTreatment_oneHop :
    SameTreatment bobSigns timeOf (ofBob 7 "1970-01-02" [])
      (ofBob 7 "1970-01-02" [.string "carol"]) := by
  obtain ⟨after, haccepted⟩ := announced_of_snd
    (by decide +kernel : (received (ofBob 7 "1970-01-02" [.string "carol"])).map Prod.snd =
      some true)
  refine (sameTreatment_iff (honest_ofBob (by decide) _ _) (binds_ofBob _ _ _) haccepted).2
    ⟨by decide +kernel, rfl, fun _ ↦ rfl, fun hnot ↦ ?_, rfl⟩
  exact absurd (vouches_ofBob _ rfl _ _ _) hnot

/-- A stamp that a relay has raised from `7` to a billion. -/
theorem not_transitCannotReorder_raisedStamp : ¬TransitCannotReorder bobSigns timeOf := by
  intro h
  obtain ⟨after, haccepted⟩ := announced_of_snd
    (by decide +kernel : (received (ofBob 1000000000 "1970-01-01" [])).map Prod.snd = some true)
  have hsame := h _ _ _ _ _ _ _ _ _ _ (honest_ofBob (by decide : 0 < 7) "1970-01-02" [])
    (binds_ofBob _ _ _) haccepted (vouches_ofBob _ rfl _ _ _)
  exact absurd hsame.key (by decide +kernel)

end Copy

end P2PApp.Node
