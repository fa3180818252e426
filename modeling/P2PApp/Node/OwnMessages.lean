import P2PApp.Node.Identity

/-!
# What a node signs itself

`publish`, the summaries and the advertisements of a node make a message, sign it and hand it to the
engine of the node, which checks it like a message from the network. Only the rate limit is
bypassed. The key that the signature is checked under is the one filed for the id of the node, and
a relayed `HELLO` that names the node writes that key.
-/

namespace P2PApp.Node.P2PNode

open JavaScript

variable {runtime : Runtime}

/-! ## The messages -/

/-- What the factory puts into a message, apart from the sender and its key. -/
structure Draft where
  identity : ℕ
  id : String
  type : String
  lamportTimestamp : ℕ
  topic : String
  payload : String
  createdAt : String
  powNonce : ℕ

namespace Draft

def fields (draft : Draft) (config : NodeConfig) : SignedFields where
  id := .string draft.id
  type := .string draft.type
  sender := .string config.peerId
  topic := .string draft.topic
  payload := .string draft.payload

/-- `signOutgoingMessage`, on a message of `createChat`, `createSummary` or `createSubAd`. -/
def signOutgoingMessage (draft : Draft) (sign : SignedFields → String) (config : NodeConfig) :
    Value :=
  .object draft.identity
    ([("id", .string draft.id), ("type", .string draft.type),
      ("ttl", .number (.finite Config.MAX_TTL)),
      ("lamportTimestamp", .number (.finite draft.lamportTimestamp)),
      ("sender", .string config.peerId), ("senderPublicKey", .string config.publicKey),
      ("topic", .string draft.topic), ("payload", .string draft.payload),
      ("createdAt", .string draft.createdAt), ("powNonce", .number (.finite draft.powNonce))] ++
    (if draft.type = "SUB_AD" then [("routingPath", .array (draft.identity + 1) [])] else []) ++
    [("signature", .string (sign (draft.fields config)))])

/-- The solver has found a nonce that the verification takes. -/
def Solved (runtime : Runtime) (draft : Draft) : Prop :=
  runtime.verifyPuzzle (.string draft.id) Config.POW_DIFFICULTY
    (.number (.finite draft.powNonce)) = some true

end Draft

/-- What `keyManager` signs is valid under the genuine keys and under no others. -/
structure Signs (runtime : Runtime) (config : NodeConfig) (sign : SignedFields → String)
    (Genuine : Value → Prop) : Prop where
  nonempty : ∀ draft : Draft, sign (draft.fields config) ≠ ""
  verify_iff : ∀ (draft : Draft) publicKey,
    runtime.verify (draft.fields config) (.string (sign (draft.fields config))) publicKey = true ↔
      Genuine publicKey

/-- The engine lets the message pass. It is forwarded and announced, or taken for a route. -/
def Admits (runtime : Runtime) (now : ℕ) (node : P2PNode) (message : Value) : Prop :=
  ∃ engine, node.gossipEngine.screen runtime now message .null = some (true, engine)

/-! ## The record of the announced keys -/

/-- The key that an event announces for a peer in a relayed `HELLO`. -/
def announcedKey (peerId : Key) (node : P2PNode) (event : Event) : Option Value :=
  (relayed node event).bind fun (message, _) ↦
    if frameType message = .hello ∧ (message.property "peerId").key = peerId then
      some (message.property "publicKey")
    else none

/-- A node, and the key that was announced last for its own id. -/
structure Recorded where
  node : P2PNode
  publicKey : Value

namespace Recorded

def start (config : NodeConfig) : Recorded := ⟨P2PNode.start config, .string config.publicKey⟩

def next (runtime : Runtime) (config : NodeConfig) (recorded : Recorded) (event : Event) :
    Option Recorded :=
  (P2PNode.next runtime recorded.node event).map fun node ↦
    ⟨node, (announcedKey (.string config.peerId) recorded.node event).getD recorded.publicKey⟩

def system (runtime : Runtime) (config : NodeConfig) : TransitionSystem Recorded Event :=
  .ofPartial (next runtime config)

end Recorded

/-! ## The checks -/

section Checks

variable {sign : SignedFields → String} {Genuine : Value → Prop} {config : NodeConfig}
  {draft : Draft}

theorem signedFields_signOutgoingMessage :
    SecurityManager.signedFields (draft.signOutgoingMessage sign config) = draft.fields config := by
  rfl

theorem property_signature :
    (draft.signOutgoingMessage sign config).property "signature" =
      .string (sign (draft.fields config)) := by
  unfold Draft.signOutgoingMessage
  split
  · rfl
  · rfl

/-- With a key on file for the node, the signature is checked under that key. -/
theorem verifyIncomingMessage_eq_true_iff (hsigns : Signs runtime config sign Genuine)
    {manager : SecurityManager} {publicKey : Value} (htruthy : publicKey.truthy = true)
    (hbound : manager.keyOf (.string config.peerId) = publicKey) :
    (manager.verifyIncomingMessage runtime (draft.signOutgoingMessage sign config)).1 = true ↔
      Genuine publicKey := by
  have hsigned : (Value.string (sign (draft.fields config))).truthy = true :=
    decide_eq_true (hsigns.nonempty _)
  have hsender : ((draft.signOutgoingMessage sign config).property "sender").key =
      .string config.peerId := rfl
  unfold SecurityManager.verifyIncomingMessage
  simp only [property_signature, hsender, hbound, htruthy, hsigned, Bool.true_eq_false, false_and,
    if_false, signedFields_signOutgoingMessage]
  exact hsigns.verify_iff _ _

theorem checkPuzzle_of_solved (hsolved : draft.Solved runtime) :
    GossipEngine.checkPuzzle runtime (draft.signOutgoingMessage sign config) = some true := by
  have hnonce : (draft.signOutgoingMessage sign config).property "powNonce" =
      .number (.finite draft.powNonce) := rfl
  unfold GossipEngine.checkPuzzle
  dsimp only
  rw [hnonce]
  split
  · exact hsolved
  · rename_i hzero
    have hzero : draft.powNonce = 0 := by
      simpa [Value.truthy, Value.key, Key.truthy] using hzero
    rw [Draft.Solved, hzero] at hsolved
    exact hsolved

/-- The stamp of the factory is a number. -/
theorem exists_updateClock (engine : GossipEngine) :
    ∃ lamportClock, engine.updateClock runtime
      ((draft.signOutgoingMessage sign config).property "lamportTimestamp") =
        some { engine with lamportClock } := by
  have hstamp : (draft.signOutgoingMessage sign config).property "lamportTimestamp" =
      .number (.finite draft.lamportTimestamp) := rfl
  rw [hstamp]
  unfold GossipEngine.updateClock
  split
  · exact ⟨_, rfl⟩
  · exact ⟨engine.lamportClock, rfl⟩

/-- The message passes as soon as its signature does. -/
theorem admits_iff_verifies (hsolved : draft.Solved runtime) {node : P2PNode}
    (hunseen : .string draft.id ∉ node.gossipEngine.seenMessages) (now : ℕ) :
    Admits runtime now node (draft.signOutgoingMessage sign config) ↔
      (node.gossipEngine.securityManager.verifyIncomingMessage runtime
        (draft.signOutgoingMessage sign config)).1 = true := by
  have hobject : (draft.signOutgoingMessage sign config).nullish = false := rfl
  have hlimit : node.gossipEngine.checkLimit now .null = (true, node.gossipEngine) := rfl
  have hid : ((draft.signOutgoingMessage sign config).property "id").key = .string draft.id := rfl
  unfold Admits GossipEngine.screen
  simp only [hobject, checkPuzzle_of_solved hsolved, hlimit, hid, Bool.false_eq_true,
    Bool.true_eq_false, if_false, GossipEngine.verifySignature]
  cases (node.gossipEngine.securityManager.verifyIncomingMessage runtime
    (draft.signOutgoingMessage sign config)).1 with
  | false => simp
  | true =>
    obtain ⟨lamportClock, hclock⟩ := @exists_updateClock runtime sign config draft
      { node.gossipEngine with
        securityManager := (node.gossipEngine.securityManager.verifyIncomingMessage runtime
          (draft.signOutgoingMessage sign config)).2 }
    simp only [hclock, Option.map_some, hunseen, Bool.true_eq_false, if_false, iff_true]
    exact ⟨_, rfl⟩

/-! ## Runs -/

/-- The key that was announced last, if it is one, is on file. -/
def Bound (config : NodeConfig) (recorded : Recorded) : Prop :=
  recorded.publicKey.truthy = true →
    recorded.node.keyOf (.string config.peerId) = recorded.publicKey

theorem bound_start (config : NodeConfig) : Bound config (.start config) := by
  intro _
  change (SecurityManager.registerPeerKey ⟨∅⟩ _ _).keyOf _ = _
  rw [SecurityManager.keyOf_registerPeerKey, if_pos rfl]
  rfl

theorem bound_next {before after : Recorded} {event : Event}
    (h : before.next runtime config event = some after) (hbound : Bound config before) :
    Bound config after := by
  intro htruthy
  obtain ⟨node, hnext, rfl⟩ := Option.map_eq_some_iff.1 h
  dsimp only at htruthy ⊢
  cases hannounced : announcedKey (.string config.peerId) before.node event with
  | some publicKey =>
    obtain ⟨⟨message, fromPeerId⟩, hrelayed, hhello⟩ := Option.bind_eq_some_iff.1 hannounced
    dsimp only at hhello
    split at hhello
    · rename_i hnamed
      cases hhello
      rw [keyOf, (greeted_of_relayed hnamed.1 hrelayed hnext).keys,
        SecurityManager.keyOf_registerPeerKey, if_pos hnamed.2.symm]
      rfl
    · cases hhello
  | none =>
    rw [hannounced, Option.getD_none] at htruthy
    rw [Option.getD_none]
    have hkept := hbound htruthy
    rcases next_cases hnext with ⟨message, fromPeerId, hrelayed, hhello, hgreeted⟩ | hevolves
    · rw [keyOf, hgreeted.keys, SecurityManager.keyOf_registerPeerKey, if_neg]
      · exact hkept
      · intro hnamed
        simp [announcedKey, hrelayed, hhello, ← hnamed] at hannounced
    · rw [hevolves.bound _ (hkept ▸ htruthy), hkept]

/-- After any run a node takes its own messages exactly when the key that was announced last for its
id, by whatever peer, is genuine. -/
theorem admits_iff_genuine {events : List Event} {recorded : Recorded}
    (hrun : (Recorded.system runtime config).Run (.start config) events recorded)
    (hsigns : Signs runtime config sign Genuine) (htruthy : recorded.publicKey.truthy = true)
    (hsolved : draft.Solved runtime)
    (hunseen : .string draft.id ∉ recorded.node.gossipEngine.seenMessages) (now : ℕ) :
    Admits runtime now recorded.node (draft.signOutgoingMessage sign config) ↔
      Genuine recorded.publicKey := by
  have hkept (before : Recorded) (event : Event) (after : Recorded) (hbefore : Bound config before)
      (hstep : (Recorded.system runtime config).step before event after) : Bound config after :=
    bound_next hstep hbefore
  have hbound := hrun.invariant hkept (bound_start config)
  rw [admits_iff_verifies hsolved hunseen]
  exact verifyIncomingMessage_eq_true_iff hsigns htruthy (hbound htruthy)

end Checks

/-! ## A stranger announces the node -/

def sampleSign (fields : SignedFields) : String :=
  match fields.id, fields.sender with
  | .string id, .string sender => "alice-key" ++ "/" ++ id ++ "/" ++ sender
  | _, _ => ""

theorem signs_sample :
    Signs .sample exampleConfig sampleSign (· = .string "alice-key") where
  nonempty draft hempty := by
    have hlist := congrArg String.toList hempty
    change ("alice-key" ++ "/" ++ draft.id ++ "/" ++ exampleConfig.peerId).toList = [] at hlist
    rw [String.toList_append, String.toList_append] at hlist
    exact List.append_ne_nil_of_right_ne_nil _ (by decide) (List.append_eq_nil_iff.1 hlist).1
  verify_iff draft publicKey := by
    cases publicKey with
    | string text =>
      have htail : Runtime.sample.verify (draft.fields exampleConfig)
          (.string (sampleSign (draft.fields exampleConfig))) (.string text) =
            decide ("alice-key" ++ "/" ++ draft.id ++ "/" ++ exampleConfig.peerId =
              text ++ "/" ++ draft.id ++ "/" ++ exampleConfig.peerId) :=
        rfl
      rw [htail, decide_eq_true_iff, Value.string.injEq, ← String.toList_inj]
      simp only [String.toList_append, List.append_left_inj, String.toList_inj]
      exact eq_comm
    | _ => exact iff_of_false Bool.false_ne_true nofun

/-- A message that needs no search for a nonce. -/
def ownDraft : Draft where
  identity := 6
  id := "m945"
  type := "CHAT"
  lamportTimestamp := 1
  topic := "global"
  payload := "hi"
  createdAt := "2024-01-01T00:00:00.000Z"
  powNonce := 0

theorem solved_ownDraft : ownDraft.Solved .sample := by
  unfold Draft.Solved
  decide +kernel

/-- A stranger connects as itself and then sends a second handshake in the name of the node. -/
def namingAlice : List Event :=
  [.socketOpened, .frame (fun _ ↦ 2) (.server 0) (some (helloFrame 2 "mallory" "mallory-key")),
    .frame (fun _ ↦ 3) (.server 0) (some (helloFrame 4 "alice" "mallory-key"))]

def namedByMallory : Recorded :=
  (namingAlice.foldlM (Recorded.next .sample exampleConfig) (.start exampleConfig)).get
    (by decide +kernel)

theorem publicKey_namedByMallory : namedByMallory.publicKey = .string "mallory-key" :=
  Value.eq_string_of_key (by decide +kernel)

theorem admits_iff_genuine_namedByMallory :
    Admits .sample 4 namedByMallory.node
        (ownDraft.signOutgoingMessage sampleSign exampleConfig) ↔
      namedByMallory.publicKey = .string "alice-key" :=
  admits_iff_genuine (TransitionSystem.run_ofPartial (Option.some_get _).symm) signs_sample
    (publicKey_namedByMallory ▸ rfl) solved_ownDraft (by decide +kernel) 4

end P2PApp.Node.P2PNode
