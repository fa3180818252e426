import Mathlib.Logic.Equiv.Basic
import P2PApp.Library.Base64
import P2PApp.Library.TransitionSystem

/-!
# The identity of a node over its restarts

`KeyManager.init` loads the two secret keys from their files. If it cannot read one of them, for
whatever reason, it makes both anew and writes them over the old files, first `sign.key`, then
`box.key`. A file that is read is copied into the buffer as far as it goes.

A start is one call of `init`. Every operation on the files may fail, a write after it has changed
the file; that the process is killed in the middle is a write that fails.
-/

namespace P2PApp.Security

open JsonString Utf8

/-- The primitives of libsodium that the key manager and the encryptor call, as functions of their
arguments. -/
structure Sodium where
  crypto_sign_ed25519_sk_to_pk : List Byte → List Byte
  crypto_scalarmult_base : List Byte → List Byte
  /-- The call throws for keys of another size, and for a point of small order. -/
  crypto_scalarmult : List Byte → List Byte → Option (List Byte)
  crypto_generichash : List Byte → List Byte
  /-- Of a message, a nonce and a key. -/
  crypto_secretbox_easy : List Byte → List Byte → List Byte → List Byte
  crypto_secretbox_open_easy : List Byte → List Byte → List Byte → Option (List Byte)

def crypto_sign_SECRETKEYBYTES : ℕ := 64
def crypto_box_SECRETKEYBYTES : ℕ := 32

/-- The files in `keysDir`. -/
structure KeyFiles where
  signKey : Option (List Byte)
  boxKey : Option (List Byte)

structure KeyManager where
  signPublicKey : List Byte
  signSecretKey : List Byte
  boxPublicKey : List Byte
  boxSecretKey : List Byte

/-- What `crypto_sign_keypair` and `crypto_box_keypair` make. -/
structure KeyPairs (sodium : Sodium) where
  signSecretKey : List Byte
  boxSecretKey : List Byte
  length_signSecretKey : signSecretKey.length = crypto_sign_SECRETKEYBYTES
  length_boxSecretKey : boxSecretKey.length = crypto_box_SECRETKEYBYTES

/-- A call of `writeFile`; if it fails, with what is in the file then. -/
inductive Write
  | done
  | failed (left : Option (List Byte))

/-- What one call of `init` meets. -/
structure Start (sodium : Sodium) where
  mkdir : Bool
  signReadable : Bool
  boxReadable : Bool
  generated : KeyPairs sodium
  writeSign : Write
  writeBox : Write

/-- `source.copy(target)`. -/
def copy (source target : List Byte) : List Byte :=
  source.take target.length ++ target.drop source.length

def readFile (readable : Bool) (file : Option (List Byte)) : Option (List Byte) :=
  if readable then file else none

/-- What is in the file after a call of `writeFile`. -/
def Write.outcome (write : Write) (content : List Byte) : Option (List Byte) :=
  match write with
  | .done => some content
  | .failed left => left

variable {sodium : Sodium}

namespace KeyManager

/-- From secret keys that fill their buffers. -/
def ofSecrets (sodium : Sodium) (signSecretKey boxSecretKey : List Byte) : KeyManager where
  signPublicKey := sodium.crypto_sign_ed25519_sk_to_pk signSecretKey
  signSecretKey
  boxPublicKey := sodium.crypto_scalarmult_base boxSecretKey
  boxSecretKey

def load (sodium : Sodium) (savedSignSecret savedBoxSecret : List Byte) : KeyManager :=
  ofSecrets sodium
    (copy savedSignSecret (List.replicate crypto_sign_SECRETKEYBYTES 0))
    (copy savedBoxSecret (List.replicate crypto_box_SECRETKEYBYTES 0))

def generate (generated : KeyPairs sodium) : KeyManager :=
  ofSecrets sodium generated.signSecretKey generated.boxSecretKey

def getPublicKey (manager : KeyManager) : JSString := Base64.encode manager.signPublicKey

def getBoxPublicKey (manager : KeyManager) : JSString := Base64.encode manager.boxPublicKey

def deriveSharedSecret (sodium : Sodium) (manager : KeyManager)
    (theirBoxPublicKeyBase64 : JSString) : Option (List Byte) :=
  (sodium.crypto_scalarmult manager.boxSecretKey (Base64.decode theirBoxPublicKeyBase64)).map
    sodium.crypto_generichash

/-- The two files that the inner `try` reads. -/
def savedSecrets (files : KeyFiles) (start : Start sodium) : Option (List Byte × List Byte) :=
  (readFile start.signReadable files.signKey).bind fun savedSignSecret ↦
    (readFile start.boxReadable files.boxKey).map fun savedBoxSecret ↦
      (savedSignSecret, savedBoxSecret)

/-- Its `catch`. -/
def regenerate (files : KeyFiles) (start : Start sodium) : KeyFiles × Option KeyManager :=
  let signKey := start.writeSign.outcome start.generated.signSecretKey
  match start.writeSign with
  | .failed _ => ({ files with signKey }, none)
  | .done =>
    let boxKey := start.writeBox.outcome start.generated.boxSecretKey
    match start.writeBox with
    | .failed _ => (⟨signKey, boxKey⟩, none)
    | .done => (⟨signKey, boxKey⟩, some (generate start.generated))

/-- The files afterwards, and the manager unless an exception is thrown. -/
def init (files : KeyFiles) (start : Start sodium) : KeyFiles × Option KeyManager :=
  if start.mkdir then
    match savedSecrets files start with
    | some (savedSignSecret, savedBoxSecret) =>
      (files, some (load sodium savedSignSecret savedBoxSecret))
    | none => regenerate files start
  else (files, none)

end KeyManager

theorem length_copy (source target : List Byte) : (copy source target).length = target.length := by
  rw [copy, List.length_append, List.length_take, List.length_drop]
  omega

/-- The manager is one that `init` returned. -/
def KeyManager.Initialised (sodium : Sodium) (manager : KeyManager) : Prop :=
  ∃ (files : KeyFiles) (start : Start sodium), (KeyManager.init files start).2 = some manager

/-- What generating new keys does to the file, and which key the node has then. -/
theorem regenerate_cases (files : KeyFiles) (start : Start sodium) :
    (KeyManager.regenerate files start).1.signKey =
        start.writeSign.outcome start.generated.signSecretKey ∧
      ((KeyManager.regenerate files start).2 = none ∨ start.writeSign = .done ∧
        (KeyManager.regenerate files start).2 = some (KeyManager.generate start.generated)) := by
  unfold KeyManager.regenerate
  cases start.writeSign with
  | failed left => exact ⟨rfl, .inl rfl⟩
  | done =>
    cases start.writeBox with
    | failed left => exact ⟨rfl, .inl rfl⟩
    | done => exact ⟨rfl, .inr ⟨rfl, rfl⟩⟩

/-- Loaded or generated, the keys for encryption are a pair. -/
theorem KeyManager.Initialised.box {manager : KeyManager} (h : manager.Initialised sodium) :
    manager.boxPublicKey = sodium.crypto_scalarmult_base manager.boxSecretKey ∧
      manager.boxSecretKey.length = crypto_box_SECRETKEYBYTES := by
  obtain ⟨files, start, hinit⟩ := h
  unfold KeyManager.init at hinit
  split at hinit
  · split at hinit
    · obtain rfl := Option.some.inj hinit
      exact ⟨rfl, (length_copy _ _).trans List.length_replicate⟩
    · rcases (regenerate_cases files start).2 with hnone | ⟨-, hsome⟩
      · cases hnone.symm.trans hinit
      · obtain rfl := Option.some.inj (hsome.symm.trans hinit)
        exact ⟨rfl, start.generated.length_boxSecretKey⟩
  · cases hinit

/-- The files of a node, and the public keys it has had after the starts that went through. -/
structure History where
  files : KeyFiles
  publicKeys : List JSString

def History.fresh : History := ⟨⟨none, none⟩, []⟩

/-- The public key that is loaded from a file. -/
def publicKeyOf (sodium : Sodium) (signKey : List Byte) : JSString :=
  Base64.encode (sodium.crypto_sign_ed25519_sk_to_pk
    (copy signKey (List.replicate crypto_sign_SECRETKEYBYTES 0)))

namespace History

def next (history : History) (start : Start sodium) : History :=
  let (files, manager) := KeyManager.init history.files start
  { files
    publicKeys := history.publicKeys ++ (manager.map KeyManager.getPublicKey).toList }

/-- The public key of what a write leaves in the file is a new one, unless it leaves it alone. -/
def Enabled (history : History) (start : Start sodium) : Prop :=
  match start.writeSign with
  | .done => publicKeyOf sodium start.generated.signSecretKey ∉ history.publicKeys
  | .failed left => left = history.files.signKey ∨
    ∀ signKey ∈ left, publicKeyOf sodium signKey ∉ history.publicKeys

variable (sodium) in
def system : TransitionSystem History (Start sodium) := .ofNext Enabled next

variable (sodium) in
/-- Every public key that the node has had is the one in its file. -/
def Stable (history : History) : Prop :=
  ∀ publicKey ∈ history.publicKeys, ∃ signKey ∈ history.files.signKey,
    publicKeyOf sodium signKey = publicKey

/-- The start leaves `sign.key` alone: it ends early, or reads both files, or its write fails before
it changes anything. -/
def Spares (history : History) (start : Start sodium) : Prop :=
  start.mkdir = false ∨ (KeyManager.savedSecrets history.files start).isSome = true ∨
    start.writeSign = .failed history.files.signKey

/-- Nothing is written over a key that was in use. -/
def Keeps (history : History) (start : Start sodium) : Prop :=
  history.publicKeys = [] ∨ history.Spares start

theorem copy_of_length {source target : List Byte} (h : source.length = target.length) :
    copy source target = source := by
  rw [copy, ← h, List.take_length, h, List.drop_length, List.append_nil]

theorem getPublicKey_generate (generated : KeyPairs sodium) :
    (KeyManager.generate generated).getPublicKey = publicKeyOf sodium generated.signSecretKey := by
  rw [publicKeyOf, copy_of_length]
  · rfl
  · rw [generated.length_signSecretKey, List.length_replicate]

/-- A start that spares the file has loaded the key in it, or none. -/
theorem next_of_spares {history : History} {start : Start sodium} (h : history.Spares start) :
    (history.next start).files.signKey = history.files.signKey ∧
      ((history.next start).publicKeys = history.publicKeys ∨
        ∃ signKey ∈ history.files.signKey, (history.next start).publicKeys =
          history.publicKeys ++ [publicKeyOf sodium signKey]) := by
  unfold next KeyManager.init
  cases hmkdir : start.mkdir with
  | false => exact ⟨rfl, .inl (List.append_nil _)⟩
  | true =>
    cases hsaved : KeyManager.savedSecrets history.files start with
    | some saved =>
      refine ⟨rfl, .inr ⟨saved.1, ?_, rfl⟩⟩
      obtain ⟨savedSignSecret, hsign, hbox⟩ := Option.bind_eq_some_iff.1 hsaved
      obtain ⟨savedBoxSecret, -, rfl⟩ := Option.map_eq_some_iff.1 hbox
      unfold readFile at hsign
      split at hsign
      · exact hsign
      · cases hsign
    | none =>
      have hfailed : start.writeSign = .failed history.files.signKey := by
        simpa [Spares, hmkdir, hsaved] using h
      obtain ⟨hfile, hmanager⟩ := regenerate_cases history.files start
      have hnone : (KeyManager.regenerate history.files start).2 = none := by
        rcases hmanager with hnone | ⟨hdone, -⟩
        · exact hnone
        · cases hfailed.symm.trans hdone
      rw [hfailed] at hfile
      exact ⟨hfile, .inl (by simp [hnone])⟩

/-- A start that does not may have written a key of its own. -/
theorem next_of_not_spares {history : History} {start : Start sodium} (h : ¬history.Spares start) :
    (history.next start).files.signKey =
        start.writeSign.outcome start.generated.signSecretKey ∧
      ((history.next start).publicKeys = history.publicKeys ∨
        start.writeSign = .done ∧ (history.next start).publicKeys =
          history.publicKeys ++ [publicKeyOf sodium start.generated.signSecretKey]) := by
  simp only [Spares, not_or, Bool.not_eq_false, Bool.not_eq_true, Option.isSome_eq_false_iff,
    Option.isNone_iff_eq_none] at h
  obtain ⟨hmkdir, hunread, -⟩ := h
  have hinit : KeyManager.init history.files start =
      KeyManager.regenerate history.files start := by
    rw [KeyManager.init, hmkdir, hunread]
    rfl
  obtain ⟨hfile, hmanager⟩ := regenerate_cases history.files start
  unfold next
  rw [hinit]
  refine ⟨hfile, ?_⟩
  rcases hmanager with hnone | ⟨hdone, hsome⟩
  · exact .inl (by simp [hnone])
  · exact .inr ⟨hdone, by simp [hsome, getPublicKey_generate]⟩

/-- The step lemma. -/
theorem stable_next_iff {history : History} {start : Start sodium}
    (henabled : history.Enabled start) :
    Stable sodium (history.next start) ↔ Stable sodium history ∧ history.Keeps start := by
  by_cases hspares : history.Spares start
  · rw [and_iff_left (.inr hspares)]
    obtain ⟨hfile, hsame | ⟨signKey, hsignKey, hmore⟩⟩ := next_of_spares hspares
    · rw [Stable, Stable, hfile, hsame]
    · rw [Stable, Stable, hfile, hmore]
      simp only [List.forall_mem_append, List.forall_mem_singleton]
      exact and_iff_left ⟨signKey, hsignKey, rfl⟩
  · obtain ⟨hfile, hkeys⟩ := next_of_not_spares hspares
    have hnone : history.Keeps start ↔ history.publicKeys = [] := or_iff_left hspares
    rw [hnone]
    -- No key that was in use before is the one in the file now.
    have hlost (publicKey : JSString) (hmem : publicKey ∈ history.publicKeys) (signKey : List Byte)
        (hsignKey : signKey ∈ (history.next start).files.signKey) :
        publicKeyOf sodium signKey ≠ publicKey := by
      rintro rfl
      rw [hfile] at hsignKey
      unfold Enabled at henabled
      cases hwrite : start.writeSign with
      | done =>
        rw [hwrite] at henabled hsignKey
        obtain rfl := Option.some.inj hsignKey
        exact henabled hmem
      | failed left =>
        rw [hwrite] at henabled hsignKey
        rcases henabled with hsame | hnew
        · exact hspares (.inr (.inr (hsame ▸ hwrite)))
        · exact hnew signKey hsignKey hmem
    constructor
    · intro hstable
      have hempty : history.publicKeys = [] := by
        rw [List.eq_nil_iff_forall_not_mem]
        intro publicKey hmem
        have hkept : publicKey ∈ (history.next start).publicKeys := by
          rcases hkeys with hsame | ⟨-, hmore⟩
          · rwa [hsame]
          · rw [hmore]
            exact List.mem_append_left _ hmem
        obtain ⟨signKey, hsignKey, hfound⟩ := hstable publicKey hkept
        exact hlost publicKey hmem signKey hsignKey hfound
      refine ⟨?_, hempty⟩
      rw [Stable, hempty]
      exact nofun
    · rintro ⟨-, hempty⟩
      rw [hempty] at hkeys
      rcases hkeys with hsame | ⟨hdone, hmore⟩
      · rw [Stable, hsame]
        exact nofun
      · rw [Stable, hmore, List.nil_append, List.forall_mem_singleton, hfile, hdone]
        exact ⟨_, rfl, rfl⟩

end History

/-! ## Two starts -/

def bytesOf (values : List ℕ) : List Byte := values.map (.ofNat 8)

/-- Two secret keys, their public keys, what they agree on, and its hash. -/
def aliceKey : List Byte := List.replicate 32 1

def bobKey : List Byte := List.replicate 32 2

theorem length_aliceKey : aliceKey.length = crypto_box_SECRETKEYBYTES := rfl

theorem length_bobKey : bobKey.length = crypto_box_SECRETKEYBYTES := rfl

def alicePublic : List Byte :=
  bytesOf [164, 224, 146, 146, 182, 81, 194, 120, 185, 119, 44, 86, 159, 95, 169, 187, 19, 217, 6,
    180, 106, 182, 140, 157, 249, 220, 43, 68, 9, 248, 162, 9]

def bobPublic : List Byte :=
  bytesOf [206, 141, 58, 209, 204, 182, 51, 236, 123, 112, 193, 120, 20, 165, 199, 110, 205, 2, 150,
    133, 5, 13, 52, 71, 69, 186, 5, 135, 14, 88, 125, 89]

def agreed : List Byte :=
  bytesOf [46, 215, 106, 181, 73, 177, 231, 60, 3, 30, 180, 156, 148, 72, 240, 121, 138, 234, 129,
    182, 152, 39, 154, 12, 61, 195, 228, 159, 191, 196, 185, 83]

def agreedHash : List Byte :=
  bytesOf [197, 170, 17, 39, 143, 50, 92, 183, 49, 191, 90, 23, 174, 219, 54, 207, 187, 167, 17,
    194, 129, 204, 57, 235, 241, 189, 51, 243, 33, 60, 21, 136]

/-- A nonce, and the text `hi` sealed under it and the hash. -/
def oneNonce : List Byte := List.replicate 24 3

def sealedHi : List Byte :=
  bytesOf [142, 215, 51, 179, 191, 15, 229, 54, 112, 30, 55, 242, 115, 182, 0, 8, 216, 31]

/-- The zeros in front of a text that is not sealed. -/
def openHi : List Byte := List.replicate 16 0 ++ encode (ascii "hi")

/-- Public keys by secret keys. -/
def keyTable : Equiv.Perm (List Byte) :=
  (Equiv.swap aliceKey alicePublic).trans (Equiv.swap bobKey bobPublic)

/-- Sealed texts by texts with zeros in front. -/
def boxTable (nonce key : List Byte) : Equiv.Perm (List Byte) :=
  if nonce = oneNonce ∧ key = agreedHash then Equiv.swap openHi sealedHi else Equiv.refl _

def agreement (mine theirs : List Byte) : List Byte :=
  if mine = aliceKey ∧ theirs = bobKey ∨ mine = bobKey ∧ theirs = aliceKey then agreed
  else List.zipWith (· ^^^ ·) mine theirs

/-- The primitives on these inputs; elsewhere, simple functions that keep the promises. -/
def tabled : Sodium where
  crypto_sign_ed25519_sk_to_pk signSecretKey := signSecretKey.drop 32
  crypto_scalarmult_base := keyTable
  crypto_scalarmult mine theirs := some (agreement mine (keyTable.symm theirs))
  crypto_generichash bytes :=
    if bytes = agreed then agreedHash else (bytes ++ List.replicate 32 0).take 32
  crypto_secretbox_easy message nonce key := boxTable nonce key (List.replicate 16 0 ++ message)
  crypto_secretbox_open_easy cipher nonce key :=
    let opened := (boxTable nonce key).symm cipher
    if opened.take 16 = List.replicate 16 0 then some (opened.drop 16) else none

/-- A seed and the public key that belongs to it. -/
def signKey : List Byte :=
  List.replicate 32 1 ++ bytesOf [138, 136, 227, 221, 116, 9, 241, 149, 253, 82, 219, 45, 60, 186,
    93, 114, 202, 103, 9, 191, 29, 148, 18, 27, 243, 116, 136, 1, 180, 15, 111, 92]

/-- The first start of a node. -/
def firstStart (boxSecretKey : List Byte)
    (h : boxSecretKey.length = crypto_box_SECRETKEYBYTES) : Start tabled where
  mkdir := true
  signReadable := true
  boxReadable := true
  generated := ⟨signKey, boxSecretKey, rfl, h⟩
  writeSign := .done
  writeBox := .done

/-- A later one, which writes nothing. -/
def laterStart : Start tabled :=
  { firstStart aliceKey length_aliceKey with writeSign := .failed (some signKey) }

namespace History

end History

end P2PApp.Security
