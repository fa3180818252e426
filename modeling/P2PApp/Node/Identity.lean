import P2PApp.Node.Effects

/-!
# Who a message is from

Once a public key is bound to a peer, verification accepts the messages of that peer under no other
key, and it never replaces the binding. A relayed `HELLO` does: it writes the key it carries for the
peer it names, whichever connection it comes from. Without such a frame a binding lasts for ever.
-/

namespace P2PApp.Node.P2PNode

open JavaScript

variable {runtime : Runtime}

/-- The event relays a `HELLO` that names the peer together with a different key. -/
def Rebinds (peerId : Key) (publicKey : Value) (node : P2PNode) (event : Event) : Prop :=
  ∃ message fromPeerId, relayed node event = some (message, fromPeerId) ∧
    frameType message = .hello ∧ (message.property "peerId").key = peerId ∧
    message.property "publicKey" ≠ publicKey

/-- The node accepts a message that names the peer only if it is signed under the key. -/
def Authenticates (runtime : Runtime) (node : P2PNode) (peerId : Key) (publicKey : Value) : Prop :=
  ∀ message, (message.property "sender").key = peerId →
    (node.gossipEngine.securityManager.verifyIncomingMessage runtime message).1 = true →
      runtime.verify (SecurityManager.signedFields message) (message.property "signature")
        publicKey = true

theorem authenticates_of_keyOf {node : P2PNode} {peerId : Key} {publicKey : Value}
    (htruthy : publicKey.truthy = true) (hbound : node.keyOf peerId = publicKey) :
    Authenticates runtime node peerId publicKey := by
  subst hbound
  exact fun message hsender hvalid ↦
    SecurityManager.verify_of_verifyIncomingMessage htruthy hsender hvalid

/-- A step keeps a binding unless it rebinds the peer. -/
theorem keyOf_next {node after : P2PNode} {event : Event} {peerId : Key} {publicKey : Value}
    (htruthy : publicKey.truthy = true) (hbound : node.keyOf peerId = publicKey)
    (hguard : ¬Rebinds peerId publicKey node event) (h : next runtime node event = some after) :
    after.keyOf peerId = publicKey := by
  rcases next_cases h with ⟨message, fromPeerId, hrelayed, hhello, hgreeted⟩ | hevolves
  · rw [keyOf, hgreeted.keys, SecurityManager.keyOf_registerPeerKey]
    split
    · rename_i hpeer
      by_contra hother
      exact hguard ⟨message, fromPeerId, hrelayed, hhello, hpeer.symm, hother⟩
    · exact hbound
  · subst hbound
    exact hevolves.bound peerId htruthy

/-- A step that rebinds the peer leaves it bound to another key. -/
theorem keyOf_next_of_rebinds {node after : P2PNode} {event : Event} {peerId : Key}
    {publicKey : Value} (hrebinds : Rebinds peerId publicKey node event)
    (h : next runtime node event = some after) : after.keyOf peerId ≠ publicKey := by
  obtain ⟨message, fromPeerId, hrelayed, hhello, rfl, hother⟩ := hrebinds
  have hgreeted := greeted_of_relayed hhello hrelayed h
  rw [keyOf, hgreeted.keys, SecurityManager.keyOf_registerPeerKey, if_pos rfl]
  exact hother

theorem keyOf_of_run {node last : P2PNode} {events : List Event} {peerId : Key}
    {publicKey : Value} (htruthy : publicKey.truthy = true)
    (hrun : (system runtime).GuardedRun
      (fun node event ↦ ¬Rebinds peerId publicKey node event) node events last)
    (hbound : node.keyOf peerId = publicKey) : last.keyOf peerId = publicKey :=
  hrun.invariant (fun _ _ _ hcurrent hguard hstep ↦ keyOf_next htruthy hcurrent hguard hstep)
    hbound

/-- Along a run that never rebinds a peer its key stays, and it alone authenticates the peer. -/
theorem authenticates_of_run {node last : P2PNode} {events : List Event} {peerId : Key}
    {publicKey : Value} (htruthy : publicKey.truthy = true)
    (hbound : node.keyOf peerId = publicKey)
    (hrun : (system runtime).GuardedRun
      (fun node event ↦ ¬Rebinds peerId publicKey node event) node events last) :
    Authenticates runtime last peerId publicKey :=
  authenticates_of_keyOf htruthy (keyOf_of_run htruthy hrun hbound)

/-- Frames of other peers never make a node accept a forged message of a peer it has bound. -/
def Unforgeable (runtime : Runtime) (config : NodeConfig) : Prop :=
  ∀ events node, (system runtime).Run (start config) events node →
    ∀ peerId publicKey, publicKey.truthy = true → node.keyOf peerId = publicKey →
      ∀ later last, (system runtime).GuardedRun
          (fun node event ↦ (relayed node event).map Prod.snd ≠ some peerId) node later last →
        Authenticates runtime last peerId publicKey

/-! ## A stranger announces the peer -/

/-- The node dials a peer, and the peer answers the handshake. -/
def greetingOfBob : List Event :=
  [.addPeer 0 (.string "bob") (.string "127.0.0.1") (.number (.finite 9001)),
    .frame (fun _ ↦ 1) (.client 0) (some (helloFrame 0 "bob" "bob-key"))]

/-- A stranger connects as itself and then sends a second handshake in the name of the peer. -/
def greetingOfMallory : List Event :=
  [.socketOpened, .frame (fun _ ↦ 2) (.server 0) (some (helloFrame 2 "mallory" "mallory-key")),
    .frame (fun _ ↦ 3) (.server 0) (some (helloFrame 4 "bob" "mallory-key"))]

def boundToBob : P2PNode :=
  (greetingOfBob.foldlM (next .sample) (start exampleConfig)).get (by decide +kernel)

def reboundToMallory : P2PNode :=
  (greetingOfMallory.foldlM (next .sample) boundToBob).get (by decide +kernel)

/-- A message of the peer, signed under the key of the stranger. -/
def forgedMessage : Value :=
  .object 6 [("id", .string "m1"), ("type", .string "CHAT"), ("sender", .string "bob"),
    ("topic", .string "global"), ("payload", .string "hi"),
    ("signature", .string "mallory-key/m1/bob")]

theorem keyOf_boundToBob : boundToBob.keyOf (.string "bob") = .string "bob-key" :=
  Value.eq_string_of_key (by decide +kernel)

theorem authenticates_greetingOfBob :
    ∃ last, (next .sample boundToBob
        (.frame (fun _ ↦ 2) (.client 0) (some (helloFrame 2 "bob" "bob-key")))) = some last ∧
      Authenticates .sample last (.string "bob") (.string "bob-key") := by
  obtain ⟨last, hlast⟩ := Option.isSome_iff_exists.1 (show (next .sample boundToBob
    (.frame (fun _ ↦ 2) (.client 0) (some (helloFrame 2 "bob" "bob-key")))).isSome = true by
      decide +kernel)
  refine ⟨last, hlast, authenticates_of_run rfl keyOf_boundToBob (.snoc (.nil _) ?_ hlast)⟩
  rintro ⟨message, fromPeerId, hrelayed, -, -, hother⟩
  rw [eq_of_relayed hrelayed] at hother
  exact hother rfl

theorem not_unforgeable_mallory : ¬Unforgeable .sample exampleConfig := by
  intro h
  have hguarded : SafeAlong (next .sample)
      (fun node event ↦ (relayed node event).map Prod.snd ≠ some (.string "bob")) boundToBob
      greetingOfMallory := by decide +kernel
  have hauthentic := h greetingOfBob boundToBob
    (TransitionSystem.run_ofPartial (Option.some_get _).symm) (.string "bob") (.string "bob-key")
    rfl keyOf_boundToBob greetingOfMallory reboundToMallory
    (TransitionSystem.guardedRun_ofPartial (Option.some_get _).symm hguarded)
  have haccepted : (reboundToMallory.gossipEngine.securityManager.verifyIncomingMessage .sample
      forgedMessage).1 = true := by decide +kernel
  exact absurd (hauthentic forgedMessage rfl haccepted) (by decide +kernel)

end P2PApp.Node.P2PNode
