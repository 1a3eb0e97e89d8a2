import Mxterm.SecureBundle
import Mxterm.SyncValidation

/-! Snapshots (`sync_snapshot.rs`): a manifest that names the artifacts by size and hash, the data
document, and the secrets encrypted with the sync password. -/
namespace Mxterm.SyncSnapshot

open Execution StorageRepository RepositoryCommands SyncRepository SecureBundle

def syncFormat : String := "mxterm-sync"
def dataArtifact : String := "data.json"
def secretsArtifact : String := "secrets.enc"
def sqliteSchemaVersion : ℕ := 3

structure ArtifactMeta where
  sha256 : String
  size : ℕ
  deriving DecidableEq

structure SyncEncryptionInfo where
  secretsCipher : String
  secretsKdf : String
  deriving DecidableEq

structure SyncManifest where
  format : String
  protocolVersion : ℕ
  snapshotId : String
  deviceId : String
  deviceName : String
  createdAt : String
  dbSchemaVersion : ℕ
  artifacts : String → Option ArtifactMeta
  encryption : SyncEncryptionInfo

structure SyncSnapshotBundle (β : Type) where
  manifest : SyncManifest
  manifestJson : β
  dataJson : β
  remoteSecretsEnc : Option β

structure SyncExportOptions where
  deviceId : String
  deviceName : String
  createdAt : String
  syncPassword : Option String

structure SyncImportResult where
  connections : ℕ
  credentials : ℕ
  knownHosts : ℕ
  tunnels : ℕ
  secrets : ℕ
  secretsSkipped : Bool
  deriving DecidableEq

structure RemoteSecretsEnvelope (β : Type) where
  format : String
  protocolVersion : ℕ
  encrypted : EncryptedJsonEnvelope β

/-- The libraries the snapshots are built on. -/
structure Platform (β : Type) extends Crypto β, Surroundings where
  manifestJson : Codec β SyncManifest
  dataJson : Codec β SyncDataDocument
  secretsJson : Codec β SyncSecretsPlaintext
  envelopeJson : Codec β (RemoteSecretsEnvelope β)
  transferDataJson : Codec β ConnectionTransferData
  transferSecretsJson : Codec β ConnectionTransferSecrets

/-- Written documents are read back, and the cipher and its companions do the same. -/
structure Platform.RoundTrips {β : Type} (P : Platform β) : Prop where
  crypto : P.toCrypto.RoundTrips
  data : P.dataJson.RoundTrips
  secrets : P.secretsJson.RoundTrips
  envelope : P.envelopeJson.RoundTrips
  transferSecrets : P.transferSecretsJson.RoundTrips

def incompatible (raw : String) : AppError :=
  ⟨"sync_snapshot_incompatible","同步快照格式不兼容。",raw,true⟩

def secretDecryptFailed (raw : String) : AppError :=
  ⟨"sync_snapshot_secret_decrypt_failed","同步密码不正确或 secrets.enc 已损坏。",raw,true⟩

def serializeFailed (raw : String) : AppError :=
  ⟨"sync_snapshot_serialize_failed","同步快照序列化失败。",raw,true⟩

def mapError {ε ζ α : Type} (f : ε → ζ) : Except ε α → Except ζ α
  | .ok a => .ok a
  | .error e => .error (f e)

@[simp] theorem mapError_ok {ε ζ α : Type} {f : ε → ζ} {r : Except ε α} {a : α} :
    mapError f r = .ok a ↔ r = .ok a := by
  cases r <;> simp [mapError]

section
variable {β : Type} (P : Platform β)

def artifactMeta (bytes : β) : ArtifactMeta := ⟨sha256Hex P.toCrypto bytes,P.size bytes⟩

def artifactsOf (dataJson : β) (remoteSecretsEnc : Option β) (name : String) : Option ArtifactMeta :=
  if name = dataArtifact then some (artifactMeta P dataJson)
  else if name = secretsArtifact then remoteSecretsEnc.map (artifactMeta P)
  else none

def buildManifest (snapshotId deviceId deviceName createdAt : String) (dataJson : β)
    (remoteSecretsEnc : Option β) : SyncManifest where
  format := syncFormat
  protocolVersion := syncProtocolVersion
  snapshotId := snapshotId
  deviceId := deviceId
  deviceName := deviceName
  createdAt := createdAt
  dbSchemaVersion := sqliteSchemaVersion
  artifacts := artifactsOf P dataJson remoteSecretsEnc
  encryption := ⟨passwordCipher,passwordKdf⟩

def validateManifestSummary (manifest : SyncManifest) : Except AppError Unit :=
  if manifest.format ≠ syncFormat then
    .error (incompatible ("unsupported sync format " ++ manifest.format))
  else if manifest.protocolVersion ≠ syncProtocolVersion then
    .error (incompatible s!"unsupported protocol version {manifest.protocolVersion}")
  else if manifest.dbSchemaVersion > sqliteSchemaVersion then
    .error (incompatible s!"unsupported db schema version {manifest.dbSchemaVersion}")
  else if (manifest.artifacts dataArtifact).isNone then
    .error (incompatible "manifest missing data.json")
  else .ok ()

def validateArtifact (manifest : SyncManifest) (name : String) (bytes : β) : Except AppError Unit :=
  match manifest.artifacts name with
  | none => .error (incompatible ("manifest missing artifact " ++ name))
  | some declared =>
    if declared.size ≠ P.size bytes then
      .error ⟨"sync_snapshot_size_mismatch","同步快照文件大小不匹配。","artifact=" ++ name,true⟩
    else if declared.sha256 ≠ sha256Hex P.toCrypto bytes then
      .error ⟨"sync_snapshot_hash_mismatch","同步快照文件校验失败。","artifact=" ++ name,true⟩
    else .ok ()

/-- The secrets are checked when they are there, and have to be there when they are declared. -/
def validateSecretsArtifact (manifest : SyncManifest) : Option β → Except AppError Unit
  | some bytes => validateArtifact P manifest secretsArtifact bytes
  | none =>
    if (manifest.artifacts secretsArtifact).isSome then
      .error ⟨"sync_snapshot_incompatible","同步快照缺少 secrets.enc。",
        "manifest declares secrets.enc but bundle does not contain it",true⟩
    else .ok ()

def validateBundleArtifacts (manifest : SyncManifest) (dataJson : β) (remoteSecretsEnc : Option β) :
    Except AppError Unit := do
  validateManifestSummary manifest
  validateArtifact P manifest dataArtifact dataJson
  validateSecretsArtifact P manifest remoteSecretsEnc

def remoteSecretAad (snapshotId dataHash : String) : β :=
  P.utf8 s!"{syncFormat}|{syncProtocolVersion}|{snapshotId}|{dataHash}"

def encryptRemoteSecrets (random : RandomBytes P.toCrypto) (snapshotId dataHash password : String)
    (plaintext : SyncSecretsPlaintext) : Except AppError β := do
  let encrypted ← mapError serializeFailed
    (encryptJson P.toCrypto P.secretsJson random (remoteSecretAad P snapshotId dataHash) password
      plaintext)
  .ok (P.envelopeJson.encode ⟨syncFormat,syncProtocolVersion,encrypted⟩)

def validateRemoteSecretEnvelope (envelope : RemoteSecretsEnvelope β) : Except AppError Unit :=
  if envelope.format ≠ syncFormat ∨ envelope.protocolVersion ≠ syncProtocolVersion then
    .error (secretDecryptFailed "unsupported remote secrets envelope")
  else .ok ()

def checkSecretsVersion (plaintext : SyncSecretsPlaintext) : Except AppError SyncSecretsPlaintext :=
  if plaintext.version ≠ syncProtocolVersion then
    .error (secretDecryptFailed s!"unsupported secrets version {plaintext.version}")
  else .ok plaintext

def decryptRemoteSecrets (manifest : SyncManifest) (dataJson encrypted : β) (password : String) :
    Except AppError SyncSecretsPlaintext := do
  validateManifestSummary manifest
  let envelope ← mapError secretDecryptFailed (P.envelopeJson.decode encrypted)
  validateRemoteSecretEnvelope envelope
  let plaintext ← mapError secretDecryptFailed
    (decryptJson P.toCrypto P.secretsJson
      (remoteSecretAad P manifest.snapshotId (sha256Hex P.toCrypto dataJson)) password
      envelope.encrypted)
  checkSecretsVersion plaintext

/-- A blank password is no password. -/
def usablePassword (password : Option String) : Option String :=
  password.filter fun password => Text.trim password ≠ ""

/-- What an export draws: the identifier of the snapshot and the bytes of one encryption. -/
structure SnapshotDraws where
  snapshotId : Uuid
  random : RandomBytes P.toCrypto

def exportRemoteSecrets (draws : SnapshotDraws P) (dataHash : String) :
    Option String → Repo (Option β)
  | some password => do
    let secrets ← exportSyncSecrets
    let encrypted ← lift (encryptRemoteSecrets P draws.random draws.snapshotId.toString dataHash
      password ⟨syncProtocolVersion,secrets⟩)
    pure (some encrypted)
  | none => pure none

def exportBundle (draws : SnapshotDraws P) (options : SyncExportOptions) :
    Repo (SyncSnapshotBundle β) := do
  let data ← exportSyncData
  let dataJson := P.dataJson.encode data
  let remoteSecretsEnc ← exportRemoteSecrets P draws (sha256Hex P.toCrypto dataJson)
    (usablePassword options.syncPassword)
  let manifest := buildManifest P draws.snapshotId.toString options.deviceId options.deviceName
    options.createdAt dataJson remoteSecretsEnc
  pure ⟨manifest,P.manifestJson.encode manifest,dataJson,remoteSecretsEnc⟩

def checkDataVersion (data : SyncDataDocument) : Except AppError SyncDataDocument :=
  if data.version ≠ syncProtocolVersion then
    .error (incompatible s!"unsupported data version {data.version}")
  else .ok data

/-- The data of a bundle whose artifacts are those its manifest names. -/
def readData (bundle : SyncSnapshotBundle β) : Except AppError SyncDataDocument := do
  validateBundleArtifacts P bundle.manifest bundle.dataJson bundle.remoteSecretsEnc
  let data ← mapError incompatible (P.dataJson.decode bundle.dataJson)
  checkDataVersion data

/-- The secrets are read only with a password, and only if the bundle has any. -/
def readSecrets (bundle : SyncSnapshotBundle β) (password : Option String) :
    Except AppError (Option SyncSecretsPlaintext) :=
  match usablePassword password, bundle.remoteSecretsEnc with
  | some password, some encrypted =>
    some <$> decryptRemoteSecrets P bundle.manifest bundle.dataJson encrypted password
  | _, _ => .ok none

def importSecretsIfRead : Option SyncSecretsPlaintext → Repo Unit
  | some secrets => importSyncSecrets secrets
  | none => pure ()

def importResult (bundle : SyncSnapshotBundle β) (secrets : Option SyncSecretsPlaintext)
    (stats : SyncRepositoryImportStats) : SyncImportResult where
  connections := stats.connections
  credentials := stats.credentials
  knownHosts := stats.knownHosts
  tunnels := stats.tunnels
  secrets := (secrets.map fun item => item.secrets.length).getD 0
  secretsSkipped := bundle.remoteSecretsEnc.isSome && secrets.isNone

def importBundle (bundle : SyncSnapshotBundle β) (password : Option String) :
    Repo SyncImportResult := do
  let data ← lift (readData P bundle)
  createSyncBackup
  lift (validateSyncDataDocument data)
  let secrets ← lift (readSecrets P bundle password)
  importSecretsIfRead secrets
  let stats ← replaceSyncData P.toSurroundings data secrets.isSome
  pure (importResult bundle secrets stats)

end
end Mxterm.SyncSnapshot
