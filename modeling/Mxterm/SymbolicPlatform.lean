import Mxterm.SyncSnapshot

/-! A platform whose byte strings are the terms they were made from. It meets the laws that the
development assumes of the libraries, and its documents can be evaluated. -/
namespace Mxterm.SymbolicPlatform

open SecureBundle SyncSnapshot

inductive Bytes
  | random (length : ℕ)
  | text (content : String)
  | manifest (content : SyncManifest)
  | data (content : SyncDataDocument)
  | secrets (content : SyncSecretsPlaintext)
  | envelope (content : RemoteSecretsEnvelope Bytes)
  | transferData (content : ConnectionTransferData)
  | transferSecrets (content : ConnectionTransferSecrets)
  | encrypted (plaintext : Bytes)

namespace Bytes

def size : Bytes → ℕ
  | random length => length
  | text content => content.utf8ByteSize
  | _ => 1

def sha256 : Bytes → List UInt8
  | random _ => [0]
  | text content => content.toUTF8.toList
  | manifest _ => [2]
  | data _ => [3]
  | secrets _ => [4]
  | envelope _ => [5]
  | transferData _ => [6]
  | transferSecrets _ => [7]
  | encrypted _ => [8]

end Bytes

/-- What one constructor writes, it reads; anything else is no document of the kind. -/
def codec {α : Type} (encode : α → Bytes) (read : Bytes → Option α) : Codec Bytes α where
  encode := encode
  decode bytes := match read bytes with
    | some a => .ok a
    | none => .error "invalid type"

theorem codec_roundTrips {α : Type} {encode : α → Bytes} {read : Bytes → Option α}
    (h : ∀ a, read (encode a) = some a) : (codec encode read).RoundTrips := by
  intro a
  simp [codec,h]

def crypto : Crypto Bytes where
  size := Bytes.size
  utf8 := .text
  sha256 := Bytes.sha256
  toBase64 := id
  ofBase64 := .ok
  deriveKey password _ _ := .ok (.text password)
  encrypt _ _ _ plaintext := .ok (.encrypted plaintext)
  decrypt _ _ _ := fun
    | .encrypted plaintext => .ok plaintext
    | _ => .error "aead::Error"

def platform : Platform Bytes where
  toCrypto := crypto
  toLowercase text := String.ofList (text.toList.map Char.toLower)
  currentTimestamp _ := "now"
  manifestJson := codec .manifest fun | .manifest content => some content | _ => none
  dataJson := codec .data fun | .data content => some content | _ => none
  secretsJson := codec .secrets fun | .secrets content => some content | _ => none
  envelopeJson := codec .envelope fun | .envelope content => some content | _ => none
  transferDataJson := codec .transferData fun | .transferData content => some content | _ => none
  transferSecretsJson :=
    codec .transferSecrets fun | .transferSecrets content => some content | _ => none

theorem platform_roundTrips : platform.RoundTrips where
  crypto := ⟨fun _ => rfl,fun password _ _ => ⟨.text password,rfl⟩,
    fun _ _ _ _ _ _ plaintext _ => ⟨.encrypted plaintext,rfl,rfl⟩⟩
  data := codec_roundTrips fun _ => rfl
  secrets := codec_roundTrips fun _ => rfl
  envelope := codec_roundTrips fun _ => rfl
  transferSecrets := codec_roundTrips fun _ => rfl

def randomBytes : RandomBytes crypto := ⟨.random saltBytes,.random nonceBytes,rfl,rfl⟩

end Mxterm.SymbolicPlatform
