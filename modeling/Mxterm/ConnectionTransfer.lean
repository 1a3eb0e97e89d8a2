import Mxterm.SyncSnapshot

/-! Connection transfers (`connection_transfer.rs`): the documents, what is checked of them, and
the import, which merges them into the tables and the vault under a recovery journal. -/
namespace Mxterm.ConnectionTransfer

open Execution StorageRepository RepositoryCommands SyncRepository SyncSnapshot SecureBundle

def transferFormat : String := "mxterm-connections"
def transferVersion : ℕ := 1
def maxPasswordBytes : ℕ := 1024
def maxConnections : ℕ := 10000
def maxCredentials : ℕ := 5000
def maxGroups : ℕ := 5000
def maxSecrets : ℕ := 20000

structure ConnectionTransferBundle (β : Type) where
  format : String
  version : ℕ
  createdAt : String
  data : ConnectionTransferData
  dataSha256 : String
  secrets : EncryptedJsonEnvelope β

inductive ConflictStrategy
  | skip | overwrite
  deriving DecidableEq

structure MutationStats where
  created : ℕ := 0
  updated : ℕ := 0
  skipped : ℕ := 0
  deriving DecidableEq

structure ImportResult where
  connections : MutationStats := {}
  credentials : MutationStats := {}
  groups : MutationStats := {}
  secrets : ℕ := 0
  deriving DecidableEq

def transferIncompatible (raw : String) : AppError :=
  ⟨"connection_transfer_incompatible","连接迁移文件格式不兼容。",raw,true⟩

def transferDataModified (raw : String) : AppError :=
  ⟨"connection_transfer_data_modified","连接迁移文件的数据已被修改。",raw,true⟩

def transferDecryptFailed (raw : String) : AppError :=
  ⟨"connection_transfer_decrypt_failed","密码不正确或加密凭据已损坏。",raw,true⟩

def transferSerializeFailed (raw : String) : AppError :=
  ⟨"connection_transfer_serialize_failed","连接迁移文件处理失败。",raw,true⟩

def transferInvalidData (raw : String) : AppError :=
  ⟨"connection_transfer_invalid_data","连接迁移文件包含无效或不完整的数据。",raw,true⟩

def transferQueryFailed (raw : String) : AppError :=
  ⟨"connection_transfer_preview_failed","连接迁移预检失败。",raw,true⟩

def transferImportFailed (raw : String) : AppError :=
  ⟨"connection_transfer_import_failed","连接导入失败，本地数据未更改。",raw,true⟩

def Blank (text : String) : Prop := Text.trim text = ""

instance : DecidablePred Blank := fun _ => inferInstanceAs (Decidable (_ = _))

def validateTransferGroups : (ids names : List String) → List SyncConnectionGroup →
    Except AppError (List String)
  | ids, _, [] => .ok ids
  | ids, names, group :: groups =>
    if Blank group.id ∨ Blank group.name ∨ group.id ∈ ids ∨ group.name ∈ names then
      .error (transferInvalidData "duplicate or empty connection group")
    else validateTransferGroups (group.id :: ids) (group.name :: names) groups

def validateTransferCredentials : (ids : List String) → List SyncCredentialRecord →
    Except AppError (List String)
  | ids, [] => .ok ids
  | ids, credential :: credentials =>
    if Blank credential.id ∨ credential.id ∈ ids then
      .error (transferInvalidData "duplicate or empty credential id")
    else validateTransferCredentials (credential.id :: ids) credentials

def validateTransferConnections (groupIds credentialIds : List String) :
    (ids : List String) → List SyncConnectionRecord → Except AppError (List String)
  | ids, [] => .ok ids
  | ids, connection :: connections =>
    if Blank connection.id ∨ connection.id ∈ ids then
      .error (transferInvalidData "duplicate or empty connection id")
    else if ∃ g ∈ connection.groupId, g ∉ groupIds then
      .error (transferInvalidData s!"connection {connection.id} references missing group")
    else if ∃ c ∈ connection.credentialId, c ∉ credentialIds then
      .error (transferInvalidData s!"connection {connection.id} references missing credential")
    else validateTransferConnections groupIds credentialIds (connection.id :: ids) connections

/-- Jump connections are checked last, when every identifier is known. -/
def validateTransferJumps (connectionIds : List String) :
    List SyncConnectionRecord → Except AppError Unit
  | [] => .ok ()
  | connection :: connections =>
    if ∃ jump ∈ connection.jump.jumpConnectionId, jump ∉ connectionIds then
      .error (transferInvalidData s!"connection {connection.id} references missing jump connection")
    else validateTransferJumps connectionIds connections

def withinLimits (data : ConnectionTransferData) : Except AppError Unit :=
  if maxGroups < data.connectionGroups.length ∨ maxCredentials < data.credentials.length ∨
      maxConnections < data.connections.length then
    .error (transferInvalidData "connection transfer record limit exceeded")
  else .ok ()

def validateTransferData (data : ConnectionTransferData) : Except AppError Unit := do
  withinLimits data
  let groupIds ← validateTransferGroups [] [] data.connectionGroups
  let credentialIds ← validateTransferCredentials [] data.credentials
  let connectionIds ← validateTransferConnections groupIds credentialIds [] data.connections
  validateTransferJumps connectionIds data.connections

/-- `BTreeMap::insert`. -/
def insertEntry (key value : String) (map : List (String × String)) : List (String × String) :=
  (key,value) :: map.filter fun entry => entry.1 ≠ key

def lookup (map : List (String × String)) (key : String) : Option String :=
  (map.find? fun entry => entry.1 = key).map (·.2)

/-- The kind of the secret that each slot of the document needs. -/
def expectCredential (expected : List (String × String)) (credential : SyncCredentialRecord) :
    List (String × String) :=
  match credential.secretSlotId with
  | some slotId => insertEntry slotId (syncSecretKindLabel (.ofSaved credential.kind)) expected
  | none => expected

def expectConnection (expected : List (String × String)) (connection : SyncConnectionRecord) :
    Except AppError (List (String × String)) :=
  match connection.inlineSecretSlotId, connection.inlineAuthKind with
  | none, _ => .ok expected
  | some slotId, some kind =>
    .ok (insertEntry slotId (syncSecretKindLabel (.ofInline kind)) expected)
  | some _, none => .error (transferInvalidData
      s!"connection {connection.id} has a secret slot without auth kind")

def expectConnections (expected : List (String × String)) :
    List SyncConnectionRecord → Except AppError (List (String × String))
  | [] => .ok expected
  | connection :: connections => do
    let expected ← expectConnection expected connection
    expectConnections expected connections

def expectedSecrets (data : ConnectionTransferData) : Except AppError (List (String × String)) :=
  expectConnections (data.credentials.foldl expectCredential []) data.connections

/-- Each secret fills a slot of its own kind, and no slot twice. -/
def checkSecrets (expected : List (String × String)) : (seen : List String) →
    List SyncSecretEntry → Except AppError (List String)
  | seen, [] => .ok seen
  | seen, secret :: secrets =>
    if secret.slotId ∈ seen ∨ lookup expected secret.slotId ≠ some secret.kind then
      .error (transferInvalidData "secret slot is duplicated, unsupported, or mismatched")
    else checkSecrets expected (secret.slotId :: seen) secrets

def secretsWithinLimit (secrets : ConnectionTransferSecrets) : Except AppError Unit :=
  if maxSecrets < secrets.secrets.length then
    .error (transferInvalidData "connection transfer secret limit exceeded")
  else .ok ()

def everySlotSeen (expected : List (String × String)) (seen : List String) : Except AppError Unit :=
  if seen.length ≠ expected.length then
    .error (transferInvalidData "one or more referenced secrets are missing")
  else .ok ()

def validateTransferSecrets (data : ConnectionTransferData) (secrets : ConnectionTransferSecrets) :
    Except AppError Unit := do
  secretsWithinLimit secrets
  let expected ← expectedSecrets data
  let seen ← checkSecrets expected [] secrets.secrets
  everySlotSeen expected seen

def validatePassword (password : String) : Except AppError Unit :=
  if password = "" then
    .error ⟨"connection_transfer_password_required","请输入导出密码。",
      "connection transfer password is empty",true⟩
  else if maxPasswordBytes < password.utf8ByteSize then
    .error ⟨"connection_transfer_password_too_long","导出密码过长。",
      "connection transfer password exceeds byte limit",true⟩
  else .ok ()

section
variable {β : Type} (P : Platform β)

def transferAad (dataSha256 : String) : β :=
  P.utf8 (transferFormat ++ "\x00v" ++ toString transferVersion ++ "\x00" ++ dataSha256)

def buildBundle (random : RandomBytes P.toCrypto) (data : ConnectionTransferData)
    (secrets : ConnectionTransferSecrets) (password createdAt : String) :
    Except AppError (ConnectionTransferBundle β) := do
  validatePassword password
  let data := { data with version := transferVersion }
  let dataSha256 := sha256Hex P.toCrypto (P.transferDataJson.encode data)
  let encrypted ← mapError transferSerializeFailed
    (encryptJson P.toCrypto P.transferSecretsJson random (transferAad P dataSha256) password secrets)
  .ok ⟨transferFormat,transferVersion,createdAt,data,dataSha256,encrypted⟩

def checkFormat (bundle : ConnectionTransferBundle β) : Except AppError Unit :=
  if bundle.format ≠ transferFormat ∨ bundle.version ≠ transferVersion then
    .error (transferIncompatible "unsupported format or version")
  else .ok ()

def checkData (bundle : ConnectionTransferBundle β) : Except AppError String :=
  let actualHash := sha256Hex P.toCrypto (P.transferDataJson.encode bundle.data)
  if actualHash ≠ bundle.dataSha256 then .error (transferDataModified "data hash mismatch")
  else if bundle.data.version ≠ transferVersion then
    .error (transferIncompatible "unsupported data version")
  else .ok actualHash

def checkTransferSecretsVersion (secrets : ConnectionTransferSecrets) :
    Except AppError ConnectionTransferSecrets :=
  if secrets.version ≠ transferVersion then
    .error (transferIncompatible "unsupported secrets version")
  else .ok secrets

def decryptBundle (bundle : ConnectionTransferBundle β) (password : String) :
    Except AppError ConnectionTransferSecrets := do
  validatePassword password
  checkFormat bundle
  let actualHash ← checkData P bundle
  let secrets ← mapError transferDecryptFailed
    (decryptJson P.toCrypto P.transferSecretsJson (transferAad P actualHash) password bundle.secrets)
  checkTransferSecretsVersion secrets

def transferData (data : SyncDataDocument) : ConnectionTransferData :=
  ⟨transferVersion,data.connectionGroups,data.credentials,data.connections⟩

def exportRepositoryBundle (random : RandomBytes P.toCrypto) (password createdAt : String) :
    Repo (ConnectionTransferBundle β) := do
  let syncData ← exportSyncData
  let data := transferData syncData
  let exported ← exportSyncSecrets
  let secrets : ConnectionTransferSecrets := ⟨transferVersion,exported⟩
  lift (validateTransferData data)
  lift (validateTransferSecrets data secrets)
  lift (buildBundle P random data secrets password createdAt)

end

/-- The groups of the repository before the import. -/
abbrev LocalGroups := List (String × String)

def nameOf (groups : LocalGroups) (id : String) : Option String :=
  (groups.find? fun group => group.1 = id).map (·.2)

def idOf (groups : LocalGroups) (name : String) : Option String :=
  (groups.find? fun group => group.2 = name).map (·.1)

def checkGroupConflict (groups : LocalGroups) (group : SyncConnectionGroup) : Except AppError Unit :=
  match nameOf groups group.id, idOf groups group.name with
  | some currentName, some currentId =>
    if currentName ≠ group.name ∧ currentId ≠ group.id then
      .error (transferInvalidData s!"group {group.id} conflicts by both id and name")
    else .ok ()
  | _, _ => .ok ()

/-- The local group that takes the place of a group of the document. -/
def targetId (groups : LocalGroups) (group : SyncConnectionGroup) : String :=
  (idOf groups group.name).getD group.id

def MutationStats.count (stats : MutationStats) (conflict : Bool) : MutationStats :=
  if conflict then { stats with updated := stats.updated + 1 }
  else { stats with created := stats.created + 1 }

def MutationStats.skip (stats : MutationStats) : MutationStats :=
  { stats with skipped := stats.skipped + 1 }

structure GroupPass where
  groupIdMap : List (String × String) := []
  stats : MutationStats := {}

def importGroup (localGroups : LocalGroups) (strategy : ConflictStrategy) (pass : GroupPass)
    (group : SyncConnectionGroup) : Repo GroupPass := do
  lift (checkGroupConflict localGroups group)
  let target := targetId localGroups group
  let groupIdMap := insertEntry group.id target pass.groupIdMap
  let conflict := (nameOf localGroups group.id).isSome || (idOf localGroups group.name).isSome
  if conflict ∧ strategy = .skip then pure ⟨groupIdMap,pass.stats.skip⟩
  else do
    execute transferImportFailed
      (if conflict then .updateGroup target group.name group.sortOrder group.updatedAt
        else .insertGroup group)
    pure ⟨groupIdMap,pass.stats.count conflict⟩

/-- The slots whose secrets the import stores. -/
structure RowPass where
  activeSecretSlots : List String
  stats : MutationStats := {}

def importCredential (existingIds : List String) (strategy : ConflictStrategy) (pass : RowPass)
    (credential : SyncCredentialRecord) : Repo RowPass :=
  let conflict := decide (credential.id ∈ existingIds)
  if conflict ∧ strategy = .skip then pure { pass with stats := pass.stats.skip }
  else do
    execute transferImportFailed (.upsertCredential (credentialRowOf true credential))
    pure ⟨credential.secretSlotId.toList ++ pass.activeSecretSlots,pass.stats.count conflict⟩

def importConnection (existingIds : List String) (groupIdMap : List (String × String))
    (strategy : ConflictStrategy) (pass : RowPass) (connection : SyncConnectionRecord) :
    Repo RowPass :=
  let conflict := decide (connection.id ∈ existingIds)
  if conflict ∧ strategy = .skip then pure { pass with stats := pass.stats.skip }
  else do
    execute transferImportFailed (.upsertConnection { connectionRowOf true connection with
      groupId := connection.groupId.bind (lookup groupIdMap) })
    pure ⟨connection.inlineSecretSlotId.toList ++ pass.activeSecretSlots,pass.stats.count conflict⟩

/-- What the import read of the repository before its transaction. -/
structure Existing where
  connectionIds : List String
  credentialIds : List String
  localGroups : LocalGroups

def queryExisting : Repo Existing := do
  let connectionIds ← query transferQueryFailed fun t => t.connections.rows.map (·.id)
  let credentialIds ← query transferQueryFailed fun t => t.credentials.rows.map (·.id)
  let localGroups ← query transferQueryFailed fun t =>
    t.connectionGroups.rows.map fun group => (group.id,group.name)
  pure ⟨connectionIds,credentialIds,localGroups⟩

/-- The rows of the document and the identifier of the transaction. -/
def importRows (existing : Existing) (data : ConnectionTransferData) (strategy : ConflictStrategy)
    (transactionId : Uuid) : Repo (ImportResult × List String) := do
  let groups ← foldEach (importGroup existing.localGroups strategy) {} data.connectionGroups
  let credentials ← foldEach (importCredential existing.credentialIds strategy) ⟨[],{}⟩
    data.credentials
  let connections ← foldEach (importConnection existing.connectionIds groups.groupIdMap strategy)
    ⟨credentials.activeSecretSlots,{}⟩ data.connections
  execute transferImportFailed (.upsertSetting (TransferRecovery.commitRow transactionId))
  pure (⟨connections.stats,credentials.stats,groups.stats,0⟩,connections.activeSecretSlots)

def secretReference (secret : SyncSecretEntry) : Except AppError SecretReference :=
  match syncSecretKindFromLabel secret.kind with
  | .ok kind => .ok ⟨vaultService,secret.slotId,secret.slotId,kind⟩
  | .error _ => .error (transferInvalidData "unsupported connection transfer secret kind")

/-- The secrets that were overwritten, the last one first. -/
abbrev SecretBackups := List (SecretReference × Option String)

def restoreSecretBackup (backup : SecretReference × Option String) : Repo Unit :=
  match backup.2 with
  | some value => setSecret backup.1 value
  | none => deleteSecret backup.1

def restoreSecretBackups (backups : SecretBackups) : Repo Unit :=
  forEach restoreSecretBackup backups

/-- Undo everything by hand, and report the cause. -/
def giveUp {α : Type} (backups : SecretBackups) (raw : String) : Repo α := do
  rollback
  restoreSecretBackups backups
  onDisk TransferRecovery.abort
  throw (transferImportFailed raw)

/-- What the account held before; a missing secret is no failure. -/
def previousSecret (backups : SecretBackups) (reference : SecretReference) :
    Repo (Option String) := do
  match ← attempt (getSecret reference) with
  | .ok value => pure (some value)
  | .error error =>
    if error.code = "secret_missing" then pure none else giveUp backups error.rawMessage

def storeTransferSecret (backups : SecretBackups) (secret : SyncSecretEntry) :
    Repo SecretBackups := do
  let reference ← lift (secretReference secret)
  let previous ← previousSecret backups reference
  let backups := (reference,previous) :: backups
  match ← attempt (setSecret reference secret.value) with
  | .ok () => pure backups
  | .error error => giveUp backups error.rawMessage

def activeSecrets (slots : List String) (secrets : ConnectionTransferSecrets) :
    List SyncSecretEntry :=
  secrets.secrets.filter fun secret => secret.slotId ∈ slots

/-- After the rows: the secrets of the active slots, and the commit. -/
def finishTransfer (result : ImportResult) (secrets : List SyncSecretEntry) : Repo ImportResult := do
  let backups ← foldEach storeTransferSecret [] secrets
  match ← attempt (StorageRepository.commit transferImportFailed) with
  | .error error => giveUp backups error.rawMessage
  | .ok () =>
    onDisk TransferRecovery.commit
    pure { result with secrets := secrets.length }

def applyTransferData (transactionId : Uuid) (data : ConnectionTransferData)
    (secrets : ConnectionTransferSecrets) (strategy : ConflictStrategy) : Repo ImportResult := do
  createSyncBackup
  let _ ← onDisk (TransferRecovery.begin transactionId)
  let existing ← queryExisting
  beginImmediate transferImportFailed
  match ← attempt (importRows existing data strategy transactionId) with
  | .error error =>
    rollback
    onDisk TransferRecovery.abort
    throw error
  | .ok (result,slots) => finishTransfer result (activeSecrets slots secrets)

def applyBundle {β : Type} (P : Platform β) (transactionId : Uuid)
    (bundle : ConnectionTransferBundle β) (password : String) (strategy : ConflictStrategy) :
    Repo ImportResult := do
  let secrets ← lift (decryptBundle P bundle password)
  lift (validateTransferData bundle.data)
  lift (validateTransferSecrets bundle.data secrets)
  applyTransferData transactionId bundle.data secrets strategy

end Mxterm.ConnectionTransfer
