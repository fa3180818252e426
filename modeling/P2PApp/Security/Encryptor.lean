import P2PApp.Security.KeyManager

/-!
# Messages for one reader

`deriveSharedSecret` makes a symmetric key of the own secret key and the other's public key, which
is handed around as Base64. `encrypt` takes a text to bytes, seals them under the key and a random
nonce, and returns Base64; `decrypt` goes the same way back.

The primitives of libsodium are parameters. Nothing is assumed of them but their sizes, that both
ends of a key agreement agree, and that a box opens under the nonce and the key that sealed it.
-/

namespace P2PApp.Security

open JsonString Utf8

def crypto_secretbox_KEYBYTES : ℕ := 32
def crypto_secretbox_NONCEBYTES : ℕ := 24
def crypto_secretbox_MACBYTES : ℕ := 16

/-- What the documentation of libsodium promises. -/
structure Sodium.Lawful (sodium : Sodium) : Prop where
  agrees : ∀ mine theirs : List Byte, mine.length = crypto_box_SECRETKEYBYTES →
    theirs.length = crypto_box_SECRETKEYBYTES → ∃ shared,
      sodium.crypto_scalarmult mine (sodium.crypto_scalarmult_base theirs) = some shared ∧
      sodium.crypto_scalarmult theirs (sodium.crypto_scalarmult_base mine) = some shared
  length_generichash : ∀ bytes : List Byte,
    (sodium.crypto_generichash bytes).length = crypto_secretbox_KEYBYTES
  length_easy : ∀ message nonce key : List Byte,
    (sodium.crypto_secretbox_easy message nonce key).length =
      message.length + crypto_secretbox_MACBYTES
  opens : ∀ message nonce key : List Byte, nonce.length = crypto_secretbox_NONCEBYTES →
    key.length = crypto_secretbox_KEYBYTES → sodium.crypto_secretbox_open_easy
      (sodium.crypto_secretbox_easy message nonce key) nonce key = some message

/-- The result of `encrypt`. -/
structure Sealed where
  ciphertext : JSString
  nonce : JSString

inductive EncryptorError
  | keySize
  | nonceSize
  | tooShort
  | authentication
  deriving DecidableEq

/-- The texts of the errors. -/
def EncryptorError.message : EncryptorError → String
  | .keySize => "Invalid symmetric key size"
  | .nonceSize => "Invalid nonce size"
  | .tooShort => "Ciphertext too short"
  | .authentication => "Message authentication failed (wrong key or tampered data)"

variable {sodium : Sodium}

namespace Encryptor

variable (sodium)

/-- The outcome of `randombytes_buf` is the nonce. -/
def encrypt (plaintext : JSString) (sharedSecret nonce : List Byte) :
    Except EncryptorError Sealed :=
  if sharedSecret.length ≠ crypto_secretbox_KEYBYTES then .error .keySize
  else
    let cipherBuffer := sodium.crypto_secretbox_easy (encode plaintext) nonce sharedSecret
    .ok ⟨Base64.encode cipherBuffer, Base64.encode nonce⟩

def decrypt (ciphertextBase64 nonceBase64 : JSString) (sharedSecret : List Byte) :
    Except EncryptorError JSString :=
  if sharedSecret.length ≠ crypto_secretbox_KEYBYTES then .error .keySize
  else
    let cipherBuffer := Base64.decode ciphertextBase64
    let nonce := Base64.decode nonceBase64
    if nonce.length ≠ crypto_secretbox_NONCEBYTES then .error .nonceSize
    else if cipherBuffer.length < crypto_secretbox_MACBYTES then .error .tooShort
    else
      match sodium.crypto_secretbox_open_easy cipherBuffer nonce sharedSecret with
      | none => .error .authentication
      | some plainBuffer => .ok (decode plainBuffer)

end Encryptor

/-! ## Two peers -/

/-- Both ends derive the same key, and it has the size that `encrypt` asks for. -/
theorem exists_sharedSecret (hlawful : sodium.Lawful) {alice bob : KeyManager}
    (halice : alice.Initialised sodium) (hbob : bob.Initialised sodium) :
    ∃ secret, alice.deriveSharedSecret sodium bob.getBoxPublicKey = some secret ∧
      bob.deriveSharedSecret sodium alice.getBoxPublicKey = some secret ∧
      secret.length = crypto_secretbox_KEYBYTES := by
  obtain ⟨halicePublic, haliceLength⟩ := halice.box
  obtain ⟨hbobPublic, hbobLength⟩ := hbob.box
  obtain ⟨shared, hmine, htheirs⟩ := hlawful.agrees alice.boxSecretKey bob.boxSecretKey
    haliceLength hbobLength
  refine ⟨sodium.crypto_generichash shared, ?_, ?_, hlawful.length_generichash shared⟩
  · rw [KeyManager.deriveSharedSecret, KeyManager.getBoxPublicKey, Base64.decode_encode,
      hbobPublic, hmine, Option.map_some]
  · rw [KeyManager.deriveSharedSecret, KeyManager.getBoxPublicKey, Base64.decode_encode,
      halicePublic, htheirs, Option.map_some]

/-- What was encrypted is decrypted to what its bytes stand for. -/
theorem decrypt_encrypt (hlawful : sodium.Lawful) {secret nonce : List Byte}
    (hsecret : secret.length = crypto_secretbox_KEYBYTES)
    (hnonce : nonce.length = crypto_secretbox_NONCEBYTES) (plaintext : JSString) :
    ∃ box, Encryptor.encrypt sodium plaintext secret nonce = .ok box ∧
      Encryptor.decrypt sodium box.ciphertext box.nonce secret =
        .ok (decode (encode plaintext)) := by
  have hlong : ¬(sodium.crypto_secretbox_easy (encode plaintext) nonce secret).length <
      crypto_secretbox_MACBYTES := by
    rw [hlawful.length_easy]
    omega
  refine ⟨_, by rw [Encryptor.encrypt, if_neg (not_not.2 hsecret)], ?_⟩
  simp only [Encryptor.decrypt, Base64.decode_encode, hsecret, hnonce, ne_eq, not_true_eq_false,
    if_false, hlong, hlawful.opens _ _ _ hnonce hsecret]

/-- A text that one peer encrypts for another is what the other decrypts with the key that it
derives itself, exactly if the surrogates of the text stand in pairs. -/
theorem decrypted_iff_wellFormed (hlawful : sodium.Lawful) (alice bob : KeyManager)
    (halice : alice.Initialised sodium) (hbob : bob.Initialised sodium) (plaintext : JSString)
    (nonce : List Byte) (hnonce : nonce.length = crypto_secretbox_NONCEBYTES) :
    (∃ sent received box, alice.deriveSharedSecret sodium bob.getBoxPublicKey = some sent ∧
      bob.deriveSharedSecret sodium alice.getBoxPublicKey = some received ∧
      Encryptor.encrypt sodium plaintext sent nonce = .ok box ∧
      Encryptor.decrypt sodium box.ciphertext box.nonce received = .ok plaintext) ↔
      WellFormed plaintext := by
  obtain ⟨secret, hsent, hreceived, hsecret⟩ := exists_sharedSecret hlawful halice hbob
  obtain ⟨box, hencrypt, hdecrypt⟩ := decrypt_encrypt hlawful hsecret hnonce plaintext
  rw [← decode_encode_iff]
  constructor
  · rintro ⟨sent, received, other, hsent', hreceived', hother, htext⟩
    obtain rfl := Option.some.inj (hsent.symm.trans hsent')
    obtain rfl := Option.some.inj (hreceived.symm.trans hreceived')
    obtain rfl := Except.ok.inj (hencrypt.symm.trans hother)
    exact Except.ok.inj (hdecrypt.symm.trans htext)
  · intro htext
    rw [htext] at hdecrypt
    exact ⟨secret, secret, box, hsent, hreceived, hencrypt, hdecrypt⟩

/-! ## One message -/

theorem agreement_comm (mine theirs : List Byte) :
    agreement mine theirs = agreement theirs mine := by
  have hcondition : (mine = aliceKey ∧ theirs = bobKey ∨ mine = bobKey ∧ theirs = aliceKey) ↔
      (theirs = aliceKey ∧ mine = bobKey ∨ theirs = bobKey ∧ mine = aliceKey) := by
    rw [or_comm, and_comm, and_comm (a := mine = aliceKey)]
  have hzip : List.zipWith (· ^^^ ·) mine theirs = List.zipWith (· ^^^ ·) theirs mine := by
    rw [List.zipWith_comm]
    simp only [BitVec.xor_comm]
  exact if_congr hcondition rfl hzip

theorem length_boxTable (nonce key bytes : List Byte) :
    (boxTable nonce key bytes).length = bytes.length := by
  unfold boxTable
  split
  · rw [Equiv.swap_apply_def]
    have hsame : openHi.length = sealedHi.length := by decide
    split
    · rename_i h
      rw [h, hsame]
    · split
      · rename_i h
        rw [h, hsame]
      · rfl
  · rfl

theorem tabled_lawful : tabled.Lawful where
  agrees mine theirs _ _ :=
    ⟨agreement mine theirs, by simp [tabled], by simp [tabled, agreement_comm theirs mine]⟩
  length_generichash bytes := by
    simp only [tabled]
    split
    · rfl
    · simp [crypto_secretbox_KEYBYTES]
  length_easy message nonce key := by
    simp only [tabled, length_boxTable, crypto_secretbox_MACBYTES, List.length_append,
      List.length_replicate, Nat.add_comm]
  opens message nonce key _ _ := by simp [tabled]

def alice : KeyManager := .generate (firstStart aliceKey length_aliceKey).generated

def bob : KeyManager := .generate (firstStart bobKey length_bobKey).generated

example : (alice.deriveSharedSecret tabled bob.getBoxPublicKey).map
    (fun secret ↦ (Encryptor.encrypt tabled (ascii "hi") secret oneNonce).map Sealed.ciphertext) =
      some (.ok (ascii "jtczs78P5TZwHjfyc7YACNgf")) := by
  decide +kernel

theorem decrypted_iff_wellFormed_hi :
    (∃ sent received box, alice.deriveSharedSecret tabled bob.getBoxPublicKey = some sent ∧
      bob.deriveSharedSecret tabled alice.getBoxPublicKey = some received ∧
      Encryptor.encrypt tabled (ascii "hi") sent oneNonce = .ok box ∧
      Encryptor.decrypt tabled box.ciphertext box.nonce received = .ok (ascii "hi")) ↔
      WellFormed (ascii "hi") :=
  decrypted_iff_wellFormed tabled_lawful alice bob
    ⟨⟨none, none⟩, firstStart aliceKey length_aliceKey, rfl⟩
    ⟨⟨none, none⟩, firstStart bobKey length_bobKey, rfl⟩
    (ascii "hi") oneNonce rfl

end P2PApp.Security
