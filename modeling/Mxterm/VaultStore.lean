import Mathlib.Data.Finmap
import Mxterm.SecureBundle
import Mxterm.StorageRepository

/-! The encrypted vault of the secrets (`VaultSecretStore` in `storage_vault.rs`) and the JSON documents on the disk
(`write_json_document` in `storage.rs`). -/
namespace Mxterm.Vault

open Execution StorageRepository

def vaultFileName : String := "secrets.enc"
def vaultVersion : UInt16 := 1
def vaultCipher : String := "aes-256-gcm"
def vaultKdf : String := "argon2id"
def vaultSaltBytes : ℕ := 16
def vaultNonceBytes : ℕ := 12

structure VaultKdf where
  name : String := vaultKdf
  memoryCostKib : UInt32 := 19 * 1024
  timeCost : UInt32 := 2
  parallelism : UInt32 := 1

abbrev Secrets := Finmap fun _ : String => String

structure VaultPlaintext where
  version : UInt16
  secrets : Secrets

/-- The texts that base64 writes are byte strings too. -/
structure VaultEnvelope (β : Type) where
  version : UInt16
  kdf : VaultKdf
  cipher : String
  salt : β
  nonce : β
  ciphertext : β

/-- Argon2, AES-GCM, base64 and the JSON codec. -/
structure Libraries (β : Type) where
  size : β → ℕ
  toBase64 : β → β
  ofBase64 : β → Except String β
  params : VaultKdf → Except String Unit
  hashPassword : (password : String) → (salt : β) → VaultKdf → Except String β
  encrypt : (key nonce plaintext : β) → Except String β
  decrypt : (key nonce ciphertext : β) → Except String β
  plaintextJson : Codec β VaultPlaintext
  envelopeJson : Codec β (VaultEnvelope β)

variable {β : Type} (L : Libraries β)

/-- `[u8; N]`. -/
abbrev FixedBytes (length : ℕ) : Type := {bytes : β // L.size bytes = length}

/-- What was encoded is decoded, and what was encrypted is decrypted with the same key and nonce. -/
structure Libraries.RoundTrips : Prop where
  base64 : ∀ bytes, L.ofBase64 (L.toBase64 bytes) = .ok bytes
  decrypts : ∀ key nonce plaintext ciphertext, L.encrypt key nonce plaintext = .ok ciphertext →
    L.decrypt key nonce ciphertext = .ok plaintext
  plaintext : L.plaintextJson.RoundTrips
  envelope : L.envelopeJson.RoundTrips

/-! ## JSON documents -/

/-- A document and the copy that is made of it before it is replaced. -/
structure Files (β : Type) where
  file : Option β
  backup : Option β

/-- How the steps of a write go; a copy that fails leaves something of its own. -/
structure WriteOutcome (β : Type) where
  createDirectory : Option String := none
  temporary : Option String := none
  copy : Option (String × Option β) := none
  rename : Option String := none

def writeFailed (raw : String) : AppError := ⟨"secret_store_write_failed","加密保险库写入失败。",raw,true⟩

def failIf {σ : Type} (fault : Option String) : EStateM AppError σ Unit :=
  match fault with
  | some raw => throw (writeFailed raw)
  | none => pure ()

/-- `fs::copy` to the backup. -/
def copyToBackup (fault : Option (String × Option β)) : EStateM AppError (Files β) Unit := do
  match fault with
  | some (raw,left) =>
    modify fun d => { d with backup := left }
    throw (writeFailed raw)
  | none => modify fun d => { d with backup := d.file }

def writeJsonDocument (outcome : WriteOutcome β) (content : β) : EStateM AppError (Files β) Unit := do
  failIf outcome.createDirectory
  failIf outcome.temporary
  let d ← get
  runIf (d.file.isSome) (copyToBackup outcome.copy)
  failIf outcome.rename
  modify fun d => { d with file := some content }

/-! ## The store -/

structure VaultSecretStore where
  key : β
  kdf : VaultKdf
  salt : FixedBytes L vaultSaltBytes
  plaintext : VaultPlaintext

def deriveKey (masterPassword : String) (salt : FixedBytes L vaultSaltBytes) (kdf : VaultKdf) : Except AppError β :=
  match L.params kdf with
  | .error raw => .error (secretStoreReadFailed vaultFileName raw)
  | .ok () => match L.hashPassword masterPassword salt.1 kdf with
    | .error raw => .error ⟨"vault_unlock_failed","安全密码不正确，无法解锁加密保险库。",raw,true⟩
    | .ok key => .ok key

/-- What a write draws, and how it goes. -/
structure Draw where
  nonce : Except String (FixedBytes L vaultNonceBytes)
  write : WriteOutcome β := {}

variable {L}

def envelope (store : VaultSecretStore L) (nonce ciphertext : β) : VaultEnvelope β :=
  ⟨vaultVersion,store.kdf,vaultCipher,L.toBase64 store.salt.1,L.toBase64 nonce,L.toBase64 ciphertext⟩

def orWriteFailed {α : Type} : Except String α → Except AppError α
  | .ok a => .ok a
  | .error raw => .error (secretStoreWriteFailed vaultFileName raw)

def orReadFailed {α : Type} : Except String α → Except AppError α
  | .ok a => .ok a
  | .error raw => .error (secretStoreReadFailed vaultFileName raw)

def persistLocked (store : VaultSecretStore L) (draw : Draw L) : EStateM AppError (Files β) Unit := do
  let nonce ← lift (orWriteFailed draw.nonce)
  let ciphertext ← lift (orWriteFailed (L.encrypt store.key nonce.1 (L.plaintextJson.encode store.plaintext)))
  writeJsonDocument draw.write (L.envelopeJson.encode (envelope store nonce.1 ciphertext))

/-- A store in memory, and the files. -/
structure Held (L : Libraries β) where
  store : VaultSecretStore L
  files : Files β

def VaultSecretStore.secrets (store : VaultSecretStore L) : Secrets := store.plaintext.secrets

def VaultSecretStore.withSecrets (store : VaultSecretStore L) (secrets : Secrets) : VaultSecretStore L :=
  { store with plaintext := { store.plaintext with secrets := secrets } }

@[simp] theorem withSecrets_secrets (store : VaultSecretStore L) (secrets : Secrets) :
    (store.withSecrets secrets).secrets = secrets := rfl

def persist (draw : Draw L) : EStateM AppError (Held L) Unit := fun s =>
  match persistLocked s.store draw s.files with
  | .ok () files => .ok () { s with files := files }
  | .error e files => .error e { s with files := files }

def setSecret (reference : SecretReference) (secret : String) (draw : Draw L) : EStateM AppError (Held L) Unit := do
  modify fun s => { s with store := s.store.withSecrets (s.store.secrets.insert reference.account secret) }
  persist draw

def deleteSecret (reference : SecretReference) (draw : Draw L) : EStateM AppError (Held L) Unit := do
  modify fun s => { s with store := s.store.withSecrets (s.store.secrets.erase reference.account) }
  persist draw

def getSecret (store : VaultSecretStore L) (reference : SecretReference) : Except AppError String :=
  match store.secrets.lookup reference.account with
  | some secret => .ok secret
  | none => .error (secretMissing reference.account)

/-! ## Opening -/

variable (L)

def validateEnvelope (envelope : VaultEnvelope β) : Except AppError Unit :=
  if envelope.version ≠ vaultVersion then
    .error (secretStoreReadFailed vaultFileName ("unsupported vault version " ++ toString envelope.version))
  else if envelope.cipher ≠ vaultCipher then
    .error (secretStoreReadFailed vaultFileName ("unsupported vault cipher " ++ envelope.cipher))
  else if envelope.kdf.name ≠ vaultKdf then
    .error (secretStoreReadFailed vaultFileName ("unsupported vault kdf " ++ envelope.kdf.name))
  else .ok ()

def decodeBase64 (value : β) (label : String) : Except AppError β :=
  match L.ofBase64 value with
  | .ok bytes => .ok bytes
  | .error raw => .error (secretStoreReadFailed vaultFileName (label ++ ": " ++ raw))

def fixedArray (length : ℕ) (bytes : β) (label : String) : Except AppError (FixedBytes L length) :=
  if h : L.size bytes = length then .ok ⟨bytes,h⟩
  else .error (secretStoreReadFailed vaultFileName
    (label ++ " length must be " ++ toString length ++ " bytes"))

def vaultUnlockFailed : AppError :=
  ⟨"vault_unlock_failed","安全密码不正确，无法解锁加密保险库。","decrypt failed",true⟩

def orUnlockFailed {α : Type} : Except String α → Except AppError α
  | .ok a => .ok a
  | .error _ => .error vaultUnlockFailed

def openExisting (content : β) (masterPassword : String) : Except AppError (VaultSecretStore L) := do
  let envelope ← orReadFailed (L.envelopeJson.decode content)
  validateEnvelope envelope
  let salt ← decodeBase64 L envelope.salt "salt"
  let nonce ← decodeBase64 L envelope.nonce "nonce"
  let ciphertext ← decodeBase64 L envelope.ciphertext "ciphertext"
  let salt ← fixedArray L vaultSaltBytes salt "salt"
  let nonce ← fixedArray L vaultNonceBytes nonce "nonce"
  let key ← deriveKey L masterPassword salt envelope.kdf
  let plaintext ← orUnlockFailed (L.decrypt key nonce.1 ciphertext)
  let plaintext ← orReadFailed (L.plaintextJson.decode plaintext)
  return ⟨key,envelope.kdf,salt,plaintext⟩

/-- `create_new` and `replace_with_plaintext`: a store with a salt of its own, which is written. -/
def newStore (salt : Except String (FixedBytes L vaultSaltBytes)) (draw : Draw L) (masterPassword : String)
    (plaintext : VaultPlaintext) :
    EStateM AppError (Files β) (VaultSecretStore L) := do
  let salt ← lift (orWriteFailed salt)
  let key ← lift (deriveKey L masterPassword salt {})
  let store : VaultSecretStore L := ⟨key,{},salt,plaintext⟩
  persistLocked store draw
  return store

/-- What opening a vault draws; it needs the salt and the write only where there is no file. -/
structure OpenDraw where
  createDirectory : Option String := none
  salt : Except String (FixedBytes L vaultSaltBytes)
  draw : Draw L

def openVault (draw : OpenDraw L) (masterPassword : String) : EStateM AppError (Files β) (VaultSecretStore L) := do
  lift (orWriteFailed (match draw.createDirectory with
    | some raw => .error raw
    | none => .ok ()))
  let d ← get
  match d.file with
  | some content => lift (openExisting L content masterPassword)
  | none => newStore L draw.salt draw.draw masterPassword ⟨vaultVersion,∅⟩

/-! ## What is written is read -/

theorem orWriteFailed_ok {α : Type} {r : Except String α} {a : α} : orWriteFailed r = .ok a ↔ r = .ok a := by
  cases r <;> simp [orWriteFailed]

section
variable {L} {store : VaultSecretStore L} {draw : Draw L} {files files' : Files β} {e : AppError} {content : β}
  {masterPassword : String}

theorem writeJsonDocument_ok {outcome : WriteOutcome β}
    (h : writeJsonDocument outcome content files = .ok () files') : files'.file = some content := by
  simp only [writeJsonDocument,bind_ok] at h
  obtain ⟨_,_,-,_,_,-,d,_,-,_,_,-,_,_,-,hwrite⟩ := h
  cases hwrite
  rfl

theorem keeps_failIf {σ τ : Type} (view : σ → τ) (fault : Option String) : Keeps view (failIf fault) := by
  intro s
  cases fault <;> rfl

theorem keeps_copyToBackup (fault : Option (String × Option β)) : Keeps Files.file (copyToBackup fault) := by
  intro d
  cases fault <;> rfl

theorem keeps_runIf {σ τ : Type} {view : σ → τ} (c : Prop) [Decidable c] {x : EStateM AppError σ Unit}
    (hx : Keeps view x) : Keeps view (runIf c x) := by
  intro s
  unfold runIf
  split
  · exact hx s
  · rfl

/-- A write that fails leaves the document as it was. -/
theorem writeJsonDocument_error {outcome : WriteOutcome β}
    (h : writeJsonDocument outcome content files = .error e files') : files'.file = files.file := by
  have hcopy := fun d : Files β => keeps_runIf d.file.isSome (keeps_copyToBackup outcome.copy)
  have hcreate := keeps_failIf Files.file (σ := Files β) outcome.createDirectory
  have htemporary := keeps_failIf Files.file (σ := Files β) outcome.temporary
  have hrename := keeps_failIf Files.file (σ := Files β) outcome.rename
  simp only [writeJsonDocument,bind_error] at h
  rcases h with h | ⟨_,s₁,h₁,h | ⟨_,s₂,h₂,h | ⟨d,s₃,h₃,h | ⟨_,s₄,h₄,h | ⟨_,s₅,-,h⟩⟩⟩⟩⟩
  · exact hcreate.of_error h
  · exact (htemporary.of_error h).trans (hcreate.of_ok h₁)
  · cases h
  · cases h₃
    exact ((hcopy _).of_error h).trans ((htemporary.of_ok h₂).trans (hcreate.of_ok h₁))
  · cases h₃
    exact (hrename.of_error h).trans (((hcopy _).of_ok h₄).trans ((htemporary.of_ok h₂).trans (hcreate.of_ok h₁)))
  · cases h

theorem persistLocked_ok (h : persistLocked store draw files = .ok () files') : ∃ nonce ciphertext,
    L.encrypt store.key nonce.1 (L.plaintextJson.encode store.plaintext) = .ok ciphertext ∧
    draw.nonce = .ok nonce ∧
    files'.file = some (L.envelopeJson.encode (envelope store nonce.1 ciphertext)) := by
  simp only [persistLocked,bind_ok,lift_ok] at h
  obtain ⟨nonce,_,⟨hnonce,rfl⟩,ciphertext,_,⟨hencrypt,rfl⟩,hwrite⟩ := h
  exact ⟨nonce,ciphertext,orWriteFailed_ok.mp hencrypt,orWriteFailed_ok.mp hnonce,writeJsonDocument_ok hwrite⟩

theorem persistLocked_error (h : persistLocked store draw files = .error e files') : files'.file = files.file := by
  simp only [persistLocked,bind_error,lift_error,lift_ok] at h
  rcases h with ⟨-,rfl⟩ | ⟨nonce,_,⟨-,rfl⟩,⟨-,rfl⟩ | ⟨ciphertext,_,⟨-,rfl⟩,hwrite⟩⟩
  · rfl
  · rfl
  · exact writeJsonDocument_error hwrite

/-- The key of the store is the one that its master password opens. -/
structure Opens (L : Libraries β) (masterPassword : String) (store : VaultSecretStore L) : Prop where
  derives : deriveKey L masterPassword store.salt store.kdf = .ok store.key
  kdf : store.kdf.name = vaultKdf

theorem validateEnvelope_ok {envelope : VaultEnvelope β} (h : validateEnvelope envelope = .ok ()) :
    envelope.kdf.name = vaultKdf := by
  unfold validateEnvelope at h
  split_ifs at h with hversion hcipher hname
  exact not_not.mp hname

theorem openExisting_ok (h : openExisting L content masterPassword = .ok store) : Opens L masterPassword store := by
  simp only [openExisting,except_bind_ok] at h
  obtain ⟨envelope,-,_,hvalid,_,-,_,-,_,-,salt,-,nonce,-,key,hkey,_,-,plaintext,-,h⟩ := h
  cases h
  exact ⟨hkey,validateEnvelope_ok hvalid⟩

theorem fixedArray_fixed {length : ℕ} (bytes : FixedBytes L length) (label : String) :
    fixedArray L length bytes.1 label = .ok bytes := dif_pos bytes.2

/-- The master password opens what a store has written, and gets the store. -/
theorem openExisting_persisted (hL : L.RoundTrips) (h : Opens L masterPassword store)
    (hpersist : persistLocked store draw files = .ok () files') :
    ∃ content, files'.file = some content ∧ openExisting L content masterPassword = .ok store := by
  obtain ⟨nonce,ciphertext,hencrypt,-,hfile⟩ := persistLocked_ok hpersist
  refine ⟨_,hfile,?_⟩
  have hdecrypt := hL.decrypts _ _ _ _ hencrypt
  have hvalid : validateEnvelope (envelope store nonce.1 ciphertext) = .ok () := by
    simp [validateEnvelope,envelope,h.kdf]
  have hsalt : decodeBase64 L (envelope store nonce.1 ciphertext).salt "salt" = .ok store.salt.1 := by
    simp [decodeBase64,envelope,hL.base64]
  have hnonce : decodeBase64 L (envelope store nonce.1 ciphertext).nonce "nonce" = .ok nonce.1 := by
    simp [decodeBase64,envelope,hL.base64]
  have hciphertext : decodeBase64 L (envelope store nonce.1 ciphertext).ciphertext "ciphertext" = .ok ciphertext := by
    simp [decodeBase64,envelope,hL.base64]
  have hderives : deriveKey L masterPassword store.salt (envelope store nonce.1 ciphertext).kdf = .ok store.key :=
    h.derives
  rw [openExisting,hL.envelope (envelope store nonce.1 ciphertext)]
  simp only [orReadFailed,bind,Except.bind,hvalid,hsalt,hnonce,hciphertext,fixedArray_fixed,hderives,hdecrypt,
    orUnlockFailed,hL.plaintext store.plaintext]
  rfl

/-- The file is opened as the store with some secrets. -/
structure Synced (L : Libraries β) (masterPassword : String) (store : VaultSecretStore L) (files : Files β)
    (stored : Secrets) : Prop where
  opens : Opens L masterPassword store
  reads : ∃ content, files.file = some content ∧
    openExisting L content masterPassword = .ok (store.withSecrets stored)

theorem synced_of_persist (hL : L.RoundTrips) (h : Opens L masterPassword store)
    (hpersist : persistLocked store draw files = .ok () files') :
    Synced L masterPassword store files' store.secrets :=
  ⟨h,openExisting_persisted hL h hpersist⟩

/-- An opened store is what its file holds. -/
theorem synced_of_openVault (hL : L.RoundTrips) {opening : OpenDraw L}
    (h : openVault L opening masterPassword files = .ok store files') :
    Synced L masterPassword store files' store.secrets := by
  simp only [openVault,bind_ok,get_apply] at h
  obtain ⟨_,_,hcreate,d,_,hget,h⟩ := h
  obtain ⟨-,rfl⟩ := (lift_ok _ _ _ _).mp hcreate
  cases hget
  cases hfile : files.file with
  | some content =>
    rw [hfile] at h
    obtain ⟨hopen,rfl⟩ := (lift_ok _ _ _ _).mp h
    exact ⟨openExisting_ok hopen,content,hfile,hopen⟩
  | none =>
    rw [hfile] at h
    simp only [newStore,bind_ok,lift_ok,pure_ok] at h
    obtain ⟨salt,_,⟨-,rfl⟩,key,_,⟨hkey,rfl⟩,_,_,hpersist,rfl,rfl⟩ := h
    exact synced_of_persist hL ⟨hkey,rfl⟩ hpersist

theorem openVault_of_synced {stored : Secrets} (h : Synced L masterPassword store files stored)
    {opening : OpenDraw L} (hcreate : opening.createDirectory = none) :
    openVault L opening masterPassword files = .ok (store.withSecrets stored) files := by
  obtain ⟨content,hfile,hopen⟩ := h.reads
  rw [openVault,bind_ok]
  refine ⟨(),files,(lift_ok _ _ _ _).mpr ⟨by rw [hcreate]; rfl,rfl⟩,(bind_ok _ _ _ _ _).mpr ⟨files,files,rfl,?_⟩⟩
  simp only [hfile]
  exact lift_of_ok hopen files

end

/-! ## Libraries of terms -/

/-- Byte strings that are the terms they were made from. -/
inductive Bytes
  | random (length : ℕ)
  | key (password : String)
  | plaintext (content : VaultPlaintext)
  | envelope (content : VaultEnvelope Bytes)
  | encrypted (password : String) (plaintext : Bytes)

def symbolic : Libraries Bytes where
  size := fun
    | .random length => length
    | _ => 1
  toBase64 := id
  ofBase64 := .ok
  params _ := .ok ()
  hashPassword password _ _ := .ok (.key password)
  encrypt
    | .key password,_,plaintext => .ok (.encrypted password plaintext)
    | _,_,_ => .error "aead::Error"
  decrypt
    | .key password,_,.encrypted password' plaintext =>
      if password = password' then .ok plaintext else .error "aead::Error"
    | _,_,_ => .error "aead::Error"
  plaintextJson := {
    encode := .plaintext
    decode := fun
      | .plaintext content => .ok content
      | _ => .error "invalid type" }
  envelopeJson := {
    encode := .envelope
    decode := fun
      | .envelope content => .ok content
      | _ => .error "invalid type" }

theorem symbolic_roundTrips : symbolic.RoundTrips where
  base64 _ := rfl
  decrypts key nonce plaintext ciphertext h := by
    cases key with
    | key password =>
      cases h
      exact if_pos rfl
    | _ => cases h
  plaintext _ := rfl
  envelope _ := rfl

end Mxterm.Vault
