import Mathlib.Data.List.Sort
import Mxterm.Batches
import Mxterm.RepositoryCommands

/-! What `storage_repository.rs` exports for synchronisation and how it takes a snapshot back:
secrets one after the other into the vault, and the tables in one transaction. -/
namespace Mxterm.SyncRepository

open Execution StorageRepository RepositoryCommands

/-- `ORDER BY created_at ASC, name ASC`. -/
def createdFirst {α : Type} (createdAt name : α → String) (a b : α) : Prop :=
  createdAt a < createdAt b ∨ (createdAt a = createdAt b ∧ name a ≤ name b)

instance {α : Type} (createdAt name : α → String) : DecidableRel (createdFirst createdAt name) :=
  fun _ _ => inferInstanceAs (Decidable (_ ∨ _))

def groupFirst (a b : SyncConnectionGroup) : Prop :=
  a.sortOrder < b.sortOrder ∨ (a.sortOrder = b.sortOrder ∧ createdFirst (·.createdAt) (·.name) a b)

instance : DecidableRel groupFirst := fun _ _ => inferInstanceAs (Decidable (_ ∨ _))

def knownHostFirst (a b : KnownHostEntry) : Prop :=
  a.host < b.host ∨ (a.host = b.host ∧
    (a.port < b.port ∨ (a.port = b.port ∧ a.keyAlgorithm ≤ b.keyAlgorithm)))

instance : DecidableRel knownHostFirst := fun _ _ => inferInstanceAs (Decidable (_ ∨ _))

def settingFirst (a b : String × SettingValue) : Prop := a.1 ≤ b.1

instance : DecidableRel settingFirst := fun _ _ => inferInstanceAs (Decidable (_ ≤ _))

def credentialRecord (row : CredentialRow) : SyncCredentialRecord where
  id := row.id
  name := row.name
  username := row.username
  kind := row.kind
  secretSlotId := row.secretSlotId
  privateKeyPath := row.privateKeyPath
  notes := row.notes
  createdAt := row.createdAt
  updatedAt := row.updatedAt

/-- The password of a proxy is left out. -/
def connectionRecord (row : ConnectionRow) : SyncConnectionRecord where
  id := row.id
  name := row.name
  protocol := row.protocol
  groupId := row.groupId
  host := row.host
  port := row.port
  username := row.username
  credentialMode := row.credentialMode
  credentialId := row.credentialId
  inlineAuthKind := row.inlineAuthKind
  inlineSecretSlotId := row.inlineSecretSlotId
  inlinePrivateKeyPath := row.inlinePrivateKeyPath
  promptAuthKind := row.promptAuthKind
  proxy := { row.proxy with password := none }
  jump := row.jump
  advanced := row.advanced
  rdp := row.rdp
  vnc := row.vnc
  telnet := row.telnet
  serial := row.serial
  notes := row.notes
  isFavorite := row.isFavorite
  lastConnectedAt := row.lastConnectedAt
  remoteOsId := row.remoteOsId
  remoteOsName := row.remoteOsName
  remoteOsVersion := row.remoteOsVersion
  createdAt := row.createdAt
  updatedAt := row.updatedAt

def knownHostEntry (row : KnownHostRow) : KnownHostEntry where
  id := s!"{row.host}:{row.port}:{row.keyAlgorithm}"
  host := row.host
  port := row.port
  keyAlgorithm := row.keyAlgorithm
  fingerprintSha256 := row.fingerprintSha256
  publicKey := row.publicKey
  trustedAt := row.firstTrustedAt
  updatedAt := row.lastSeenAt

def exportedGroups (t : Tables) : List SyncConnectionGroup :=
  t.connectionGroups.rows.insertionSort groupFirst

def exportedCredentials (t : Tables) : List SyncCredentialRecord :=
  (t.credentials.rows.map credentialRecord).insertionSort (createdFirst (·.createdAt) (·.name))

def exportedConnections (t : Tables) : List SyncConnectionRecord :=
  (t.connections.rows.map connectionRecord).insertionSort (createdFirst (·.createdAt) (·.name))

def exportedKnownHosts (t : Tables) : List KnownHostEntry :=
  (t.knownHosts.rows.map knownHostEntry).insertionSort knownHostFirst

def exportedTunnels (t : Tables) : List TunnelRule :=
  t.tunnels.rows.insertionSort (createdFirst (·.createdAt) (·.name))

def settingEntry (row : SettingRow) : String × SettingValue := (row.key,row.value)

def exportedSettings (t : Tables) : SettingsMap where
  entries := (t.appSettings.rows.map settingEntry).insertionSort settingFirst
  keysNodup := by
    have hkeys : ((t.appSettings.rows.map settingEntry).map Prod.fst).Nodup := by
      simpa [settingEntry,Function.comp_def] using t.appSettings.keysNodup
    exact ((List.perm_insertionSort settingFirst _).map Prod.fst).nodup_iff.mpr hkeys

def syncProtocolVersion : ℕ := 1

/-- Six queries, in this order. -/
def exportSyncData : Repo SyncDataDocument := do
  let connectionGroups ← query sqliteRepositoryError exportedGroups
  let credentials ← query sqliteRepositoryError exportedCredentials
  let connections ← query sqliteRepositoryError exportedConnections
  let knownHosts ← query sqliteRepositoryError exportedKnownHosts
  let tunnels ← query sqliteRepositoryError exportedTunnels
  let settings ← query sqliteRepositoryError exportedSettings
  pure ⟨syncProtocolVersion,connections,credentials,knownHosts,tunnels,connectionGroups,settings⟩

def exportedData (t : Tables) : SyncDataDocument :=
  ⟨syncProtocolVersion,exportedConnections t,exportedCredentials t,exportedKnownHosts t,
    exportedTunnels t,exportedGroups t,exportedSettings t⟩

def kindIncompatible (raw : String) : AppError :=
  ⟨"sync_snapshot_incompatible","同步快照凭据类型不兼容。",raw,true⟩

/-- `sync_secret_kind_from_db`: an inline secret needs a kind, a saved account always has one. -/
def syncSecretKindFromDb (kind : Option ConnectionAuthKind) (inline : Bool) :
    Except AppError SecretKind :=
  match inline, kind with
  | true, some kind => .ok (.ofInline kind)
  | false, some kind => .ok (.ofSaved kind)
  | inline, none => .error (kindIncompatible s!"kind=None, inline={inline}")

def syncSecretKindFromLabel (label : String) : Except AppError SecretKind :=
  if label = "password" then .ok .password
  else if label = "private_key_passphrase" then .ok .privateKeyPassphrase
  else if label = "inline_password" then .ok .inlinePassword
  else if label = "inline_private_key_passphrase" then .ok .inlinePrivateKeyPassphrase
  else .error (kindIncompatible ("kind=" ++ label))

def syncSecretKindLabel : SecretKind → String
  | .password => "password"
  | .privateKeyPassphrase => "private_key_passphrase"
  | .inlinePassword => "inline_password"
  | .inlinePrivateKeyPassphrase => "inline_private_key_passphrase"

theorem syncSecretKindFromLabel_label (kind : SecretKind) :
    syncSecretKindFromLabel (syncSecretKindLabel kind) = .ok kind := by
  cases kind <;> rfl

/-- A row that refers to a secret and has a slot for it. -/
structure SecretRow where
  account : String
  slotId : String
  kind : Option ConnectionAuthKind
  updatedAt : String
  inline : Bool

def connectionSecretRow (row : ConnectionRow) : Option SecretRow := do
  let account ← row.inlineSecretRef
  let slotId ← row.inlineSecretSlotId
  some ⟨account,slotId,row.inlineAuthKind,row.updatedAt,true⟩

def credentialSecretRow (row : CredentialRow) : Option SecretRow := do
  let account ← row.secretRef
  let slotId ← row.secretSlotId
  some ⟨account,slotId,some row.kind,row.updatedAt,false⟩

def exportSecret (row : SecretRow) : Repo SyncSecretEntry := do
  let kind ← lift (syncSecretKindFromDb row.kind row.inline)
  let value ← getSecret ⟨vaultService,row.account,row.slotId,kind⟩
  pure ⟨row.slotId,syncSecretKindLabel kind,value,row.updatedAt⟩

def exportSyncSecrets : Repo (List SyncSecretEntry) := do
  let connections ← query sqliteRepositoryError fun t => t.connections.rows.filterMap connectionSecretRow
  let credentials ← query sqliteRepositoryError fun t => t.credentials.rows.filterMap credentialSecretRow
  mapEach exportSecret (connections ++ credentials)

def importSecret (secret : SyncSecretEntry) : Repo Unit := do
  let kind ← lift (syncSecretKindFromLabel secret.kind)
  setSecret ⟨vaultService,secret.slotId,secret.slotId,kind⟩ secret.value

def importSyncSecrets (plaintext : SyncSecretsPlaintext) : Repo Unit :=
  forEach importSecret plaintext.secrets

/-- The row of a record; its secret reference is restored from the slot, or left empty. -/
def credentialRowOf (restoreSecretRefs : Bool) (record : SyncCredentialRecord) : CredentialRow where
  id := record.id
  name := record.name
  username := record.username
  kind := record.kind
  secretRef := if restoreSecretRefs then record.secretSlotId else none
  secretSlotId := record.secretSlotId
  privateKeyPath := record.privateKeyPath
  notes := record.notes
  createdAt := record.createdAt
  updatedAt := record.updatedAt

def connectionRowOf (restoreSecretRefs : Bool) (record : SyncConnectionRecord) : ConnectionRow where
  id := record.id
  name := record.name
  protocol := record.protocol
  groupId := record.groupId
  host := record.host
  port := record.port
  username := record.username
  credentialMode := record.credentialMode
  credentialId := record.credentialId
  inlineAuthKind := record.inlineAuthKind
  inlineSecretRef := if restoreSecretRefs then record.inlineSecretSlotId else none
  inlineSecretSlotId := record.inlineSecretSlotId
  inlinePrivateKeyPath := record.inlinePrivateKeyPath
  promptAuthKind := record.promptAuthKind
  proxy := record.proxy
  jump := record.jump
  advanced := record.advanced
  rdp := record.rdp
  vnc := record.vnc
  telnet := record.telnet
  serial := record.serial
  notes := record.notes
  isFavorite := record.isFavorite
  lastConnectedAt := record.lastConnectedAt
  remoteOsId := record.remoteOsId
  remoteOsName := record.remoteOsName
  remoteOsVersion := record.remoteOsVersion
  createdAt := record.createdAt
  updatedAt := record.updatedAt

/-- `to_lowercase` of the standard library and the time at which a setting is written. -/
structure Surroundings where
  toLowercase : String → String
  currentTimestamp : String → String

def normalizeKnownHostHost (e : Surroundings) (host : String) : String :=
  e.toLowercase (Text.trim host)

def knownHostRowOf (e : Surroundings) (entry : KnownHostEntry) : KnownHostRow where
  host := normalizeKnownHostHost e entry.host
  port := entry.port
  keyAlgorithm := entry.keyAlgorithm
  fingerprintSha256 := entry.fingerprintSha256
  publicKey := entry.publicKey
  firstTrustedAt := entry.trustedAt
  lastSeenAt := entry.updatedAt

def settingRowOf (e : Surroundings) (entry : String × SettingValue) : SettingRow :=
  ⟨entry.1,entry.2,e.currentTimestamp entry.1⟩

structure SyncRepositoryImportStats where
  connections : ℕ
  credentials : ℕ
  knownHosts : ℕ
  tunnels : ℕ
  deriving DecidableEq

/-- Delete every row, then insert those of the document. -/
def replaceTables (e : Surroundings) (data : SyncDataDocument) (restoreSecretRefs : Bool) :
    Repo Unit := do
  let run := execute sqliteRepositoryError
  forEach (fun table => run (.clear table)) Database.allTables
  forEach (fun group => run (.insertGroup group)) data.connectionGroups
  forEach (fun record => run (.insertCredential (credentialRowOf restoreSecretRefs record)))
    data.credentials
  forEach (fun record => run (.insertConnection (connectionRowOf restoreSecretRefs record)))
    data.connections
  forEach (fun entry => run (.insertKnownHost (knownHostRowOf e entry))) data.knownHosts
  forEach (fun tunnel => run (.insertTunnel tunnel)) data.tunnels
  forEach (fun entry => run (.insertSetting (settingRowOf e entry))) data.settings.entries

def replaceSyncDataInner (e : Surroundings) (data : SyncDataDocument) (restoreSecretRefs : Bool) :
    Repo SyncRepositoryImportStats := do
  beginImmediate sqliteRepositoryError
  replaceTables e data restoreSecretRefs
  commit sqliteRepositoryError
  pure ⟨data.connections.length,data.credentials.length,data.knownHosts.length,data.tunnels.length⟩

def importFailed (raw : String) : AppError :=
  ⟨"sync_snapshot_import_failed","同步快照导入失败，本地数据未替换。",raw,true⟩

def replaceSyncData (e : Surroundings) (data : SyncDataDocument) (restoreSecretRefs : Bool) :
    Repo SyncRepositoryImportStats := do
  match ← attempt (replaceSyncDataInner e data restoreSecretRefs) with
  | .ok stats => pure stats
  | .error error =>
    rollback
    throw (importFailed error.rawMessage)

end Mxterm.SyncRepository
