import Mxterm.Execution
import Mxterm.Values

/-! Password-encrypted JSON (`secure_bundle.rs`). Argon2, AES-GCM, SHA-256, base64 and the JSON
codec come from libraries; they are the operations on the byte strings `β`. -/
namespace Mxterm

structure Codec (β α : Type) where
  encode : α → β
  decode : β → Except String α

/-- What was written is read back. -/
def Codec.RoundTrips {β α : Type} (codec : Codec β α) : Prop :=
  ∀ a, codec.decode (codec.encode a) = .ok a

namespace SecureBundle

def passwordCipher : String := "aes-256-gcm"
def passwordKdf : String := "argon2id"
def saltBytes : ℕ := 16
def nonceBytes : ℕ := 12

structure PasswordKdf where
  name : String := passwordKdf
  memoryCostKib : UInt32 := 19 * 1024
  timeCost : UInt32 := 2
  parallelism : UInt32 := 1
  deriving DecidableEq

/-- The texts that base64 writes are byte strings too. -/
structure EncryptedJsonEnvelope (β : Type) where
  kdf : PasswordKdf
  cipher : String
  salt : β
  nonce : β
  ciphertext : β

structure Crypto (β : Type) where
  size : β → ℕ
  utf8 : String → β
  sha256 : β → List UInt8
  toBase64 : β → β
  ofBase64 : β → Except String β
  deriveKey : (password : String) → (salt : β) → PasswordKdf → Except String β
  encrypt : (key nonce aad plaintext : β) → Except String β
  decrypt : (key nonce aad ciphertext : β) → Except String β

/-- The random bytes one encryption draws. -/
structure RandomBytes {β : Type} (C : Crypto β) where
  salt : β
  nonce : β
  saltSize : C.size salt = saltBytes
  nonceSize : C.size nonce = nonceBytes

section
variable {β α : Type} (C : Crypto β)

def encryptJson (codec : Codec β α) (random : RandomBytes C) (aad : β) (password : String)
    (value : α) : Except String (EncryptedJsonEnvelope β) := do
  let key ← C.deriveKey password random.salt {}
  let ciphertext ← C.encrypt key random.nonce aad (codec.encode value)
  .ok ⟨{},passwordCipher,C.toBase64 random.salt,C.toBase64 random.nonce,C.toBase64 ciphertext⟩

def decodeBase64Fixed (length : ℕ) (value : β) (label : String) : Except String β :=
  match C.ofBase64 value with
  | .error raw => .error (label ++ ": " ++ raw)
  | .ok bytes =>
    if C.size bytes = length then .ok bytes else .error s!"{label} length must be {length} bytes"

def validateEnvelope (envelope : EncryptedJsonEnvelope β) : Except String Unit :=
  if envelope.cipher ≠ passwordCipher ∨ envelope.kdf.name ≠ passwordKdf then
    .error "unsupported encrypted JSON envelope"
  else .ok ()

def decryptJson (codec : Codec β α) (aad : β) (password : String)
    (envelope : EncryptedJsonEnvelope β) : Except String α := do
  validateEnvelope envelope
  let salt ← decodeBase64Fixed C saltBytes envelope.salt "salt"
  let nonce ← decodeBase64Fixed C nonceBytes envelope.nonce "nonce"
  let ciphertext ← C.ofBase64 envelope.ciphertext
  let key ← C.deriveKey password salt envelope.kdf
  let plaintext ← C.decrypt key nonce aad ciphertext
  codec.decode plaintext

/-- The documented behaviour of the libraries: with its own parameters the code derives a key
and encrypts, and the same key, nonce and additional data decrypt again. -/
structure Crypto.RoundTrips : Prop where
  base64 : ∀ bytes, C.ofBase64 (C.toBase64 bytes) = .ok bytes
  derives : ∀ password salt, C.size salt = saltBytes → ∃ key, C.deriveKey password salt {} = .ok key
  encrypts : ∀ password salt key, C.deriveKey password salt {} = .ok key →
    ∀ nonce aad plaintext, C.size nonce = nonceBytes →
      ∃ ciphertext, C.encrypt key nonce aad plaintext = .ok ciphertext ∧
        C.decrypt key nonce aad ciphertext = .ok plaintext

variable {C}

theorem decodeBase64Fixed_toBase64 (hC : C.RoundTrips) {bytes : β} {length : ℕ}
    (hsize : C.size bytes = length) (label : String) :
    decodeBase64Fixed C length (C.toBase64 bytes) label = .ok bytes := by
  simp [decodeBase64Fixed,hC.base64,hsize]

/-- Encryption succeeds, and decryption with the same password and additional data returns the
value. -/
theorem decryptJson_encryptJson (hC : C.RoundTrips) {codec : Codec β α} (hcodec : codec.RoundTrips)
    (random : RandomBytes C) (aad : β) (password : String) (value : α) :
    ∃ envelope, encryptJson C codec random aad password value = .ok envelope ∧
      decryptJson C codec aad password envelope = .ok value := by
  obtain ⟨key,hkey⟩ := hC.derives password random.salt random.saltSize
  obtain ⟨ciphertext,hencrypt,hdecrypt⟩ :=
    hC.encrypts password random.salt key hkey random.nonce aad (codec.encode value) random.nonceSize
  refine ⟨_,by simp only [encryptJson,hkey,hencrypt,bind,Except.bind]; rfl,?_⟩
  simp only [decryptJson,validateEnvelope,decodeBase64Fixed_toBase64 hC random.saltSize,
    decodeBase64Fixed_toBase64 hC random.nonceSize,hC.base64,hkey,hdecrypt,bind,Except.bind]
  exact hcodec value

end

def hexDigits (byte : UInt8) : List Char :=
  [(byte.toNat / 16).digitChar,(byte.toNat % 16).digitChar]

def sha256Hex {β : Type} (C : Crypto β) (bytes : β) : String :=
  String.ofList ((C.sha256 bytes).flatMap hexDigits)

end SecureBundle
end Mxterm
