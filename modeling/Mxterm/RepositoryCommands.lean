import Mxterm.StorageRepository

/-! The commands of `storage_repository.rs` that store and delete connections and saved accounts. -/
namespace Mxterm.RepositoryCommands

open Execution StorageRepository ProfileValidation

def sqliteRepositoryError (raw : String) : AppError :=
  ⟨"sqlite_store_query_failed","SQLite 存储查询失败。",raw,true⟩

/-- A stored connection as the frontend sees it: no secret, and the group by its name. -/
structure ConnectionProfile where
  id : String
  name : String
  protocol : ConnectionProtocol
  group : Option String
  host : String
  port : UInt16
  username : String
  credentialMode : ConnectionCredentialMode
  credentialId : Option String
  inlineAuthKind : Option ConnectionAuthKind
  inlinePassword : Option String := none
  inlinePrivateKeyPath : Option String
  inlinePrivateKeyPassphrase : Option String := none
  promptAuthKind : Option ConnectionAuthKind
  proxy : ConnectionProxyConfig
  jump : ConnectionJumpConfig
  advanced : ConnectionAdvancedConfig
  rdp : Option RdpConnectionConfig
  vnc : Option VncConnectionConfig
  telnet : Option TelnetConnectionConfig
  serial : Option SerialConnectionConfig
  notes : Option String
  isFavorite : Bool
  lastConnectedAt : Option String
  remoteOsId : Option String
  remoteOsName : Option String
  remoteOsVersion : Option String
  createdAt : String
  updatedAt : String
  authKind : Option ConnectionAuthKind := none
  password : Option String := none
  privateKeyPath : Option String := none
  privateKeyPassphrase : Option String := none

def rowToConnectionProfile (t : Tables) (row : ConnectionRow) : ConnectionProfile where
  id := row.id
  name := row.name
  protocol := row.protocol
  group := row.groupId.bind fun id => (t.connectionGroups.find? id).map (·.name)
  host := row.host
  port := row.port
  username := row.username
  credentialMode := row.credentialMode
  credentialId := row.credentialId
  inlineAuthKind := row.inlineAuthKind
  inlinePrivateKeyPath := row.inlinePrivateKeyPath
  promptAuthKind := row.promptAuthKind
  proxy := row.proxy
  jump := row.jump
  advanced := row.advanced
  rdp := row.rdp
  vnc := row.vnc
  telnet := row.telnet
  serial := row.serial
  notes := row.notes
  isFavorite := row.isFavorite
  lastConnectedAt := row.lastConnectedAt
  remoteOsId := row.remoteOsId
  remoteOsName := row.remoteOsName
  remoteOsVersion := row.remoteOsVersion
  createdAt := row.createdAt
  updatedAt := row.updatedAt

structure CredentialProfile where
  id : String
  name : String
  username : Option String
  kind : ConnectionAuthKind
  password : Option String := none
  privateKeyPath : Option String
  privateKeyPassphrase : Option String := none
  notes : Option String
  createdAt : String
  updatedAt : String

def rowToCredentialProfile (row : CredentialRow) : CredentialProfile where
  id := row.id
  name := row.name
  username := some row.username
  kind := row.kind
  privateKeyPath := row.privateKeyPath
  notes := row.notes
  createdAt := row.createdAt
  updatedAt := row.updatedAt

/-- The reference in the columns `inline_secret_ref` and `inline_secret_slot_id`. -/
def inlineReference (row : ConnectionRow) : Option SecretReference :=
  row.inlineSecretRef.map fun account => {
    service := vaultService
    slotId := row.inlineSecretSlotId.getD account
    account
    kind := (row.inlineAuthKind.map SecretKind.ofInline).getD .inlinePassword }

def credentialReference (row : CredentialRow) : Option SecretReference :=
  row.secretRef.map fun account => {
    service := vaultService
    slotId := row.secretSlotId.getD account
    account
    kind := SecretKind.ofSaved row.kind }

def connectionMissing (id : String) : AppError :=
  ⟨"connection_missing","连接不存在。","connection_id=" ++ id,false⟩

def credentialMissing (id : String) : AppError :=
  ⟨"credential_missing","连接引用的凭据不存在。","credential_id=" ++ id,true⟩

def connectionGet (id : String) : Repo (Option ConnectionProfile) :=
  query sqliteRepositoryError fun t => (t.connections.find? id).map (rowToConnectionProfile t)

def credentialGet (id : String) : Repo (Option CredentialProfile) :=
  query sqliteRepositoryError fun t => (t.credentials.find? id).map rowToCredentialProfile

def storedConnectionOptional (id : String) :
    Repo (Option (ConnectionProfile × Option SecretReference)) :=
  query sqliteRepositoryError fun t =>
    (t.connections.find? id).map fun row => (rowToConnectionProfile t row,inlineReference row)

def storedCredentialOptional (id : String) :
    Repo (Option (CredentialProfile × Option SecretReference)) :=
  query sqliteRepositoryError fun t =>
    (t.credentials.find? id).map fun row => (rowToCredentialProfile row,credentialReference row)

/-- `ok_or_else`. -/
def okOr {α : Type} (error : AppError) : Option α → Except AppError α
  | some a => .ok a
  | none => .error error

def storedConnection (id : String) : Repo (ConnectionProfile × Option SecretReference) := do
  lift (okOr (connectionMissing id) (← storedConnectionOptional id))

def storedCredential (id : String) : Repo (CredentialProfile × Option SecretReference) := do
  lift (okOr (credentialMissing id) (← storedCredentialOptional id))

/-- The columns a new version of a connection keeps from the stored one. -/
structure ExistingConnectionMeta where
  createdAt : String
  protocol : ConnectionProtocol
  isFavorite : Bool
  host : String
  port : UInt16
  username : String
  lastConnectedAt : Option String
  remoteOsId : Option String
  remoteOsName : Option String
  remoteOsVersion : Option String

def existingConnectionMeta (id : String) : Repo (Option ExistingConnectionMeta) :=
  query sqliteRepositoryError fun t => (t.connections.find? id).map fun row =>
    ⟨row.createdAt,row.protocol,row.isFavorite,row.host,row.port,row.username,row.lastConnectedAt,
      row.remoteOsId,row.remoteOsName,row.remoteOsVersion⟩

def ensureGroup (fresh : Uuid) (name now : String) : Repo String := do
  match ← query sqliteRepositoryError fun t =>
      (t.connectionGroups.rows.find? (·.name = name)).map (·.id) with
  | some id => pure id
  | none =>
    execute sqliteRepositoryError (.insertGroup ⟨fresh.toString,name,0,now,now⟩)
    pure fresh.toString

/-- The columns `inline_secret_ref` and `inline_secret_slot_id`, or those of an account. -/
abbrev SecretColumns := Option String × Option String

def columnsOf (reference : SecretReference) : SecretColumns :=
  (some reference.account,some reference.slotId)

/-- A password has to be kept from somewhere; a passphrase may be absent. -/
def missingSecretForPreserve (error : AppError) : ConnectionAuthKind → Except AppError SecretColumns
  | .password => .error error
  | .privateKey => .ok (none,none)

def missingInlineSecretForPreserve : ConnectionAuthKind → Except AppError SecretColumns :=
  missingSecretForPreserve
    ⟨"connection_password_missing","请填写 SSH 密码。","inline password is empty",true⟩

def missingCredentialSecretForPreserve : ConnectionAuthKind → Except AppError SecretColumns :=
  missingSecretForPreserve
    ⟨"credential_password_missing","请填写账号密码。","credential password is empty",true⟩

/-- `secret_missing` for a row that keeps a password but refers to none. -/
def referenceMissing (raw : String) : AppError :=
  ⟨"secret_missing","加密保险库中不存在该凭据。",raw,true⟩

def preserveInlineSecret (existing : Option (ConnectionProfile × Option SecretReference))
    (authKind : ConnectionAuthKind) : Except AppError SecretColumns :=
  match existing with
  | none => missingInlineSecretForPreserve authKind
  | some (profile,reference) =>
    if profile.credentialMode ≠ .inline ∨ profile.inlineAuthKind ≠ some authKind then
      missingInlineSecretForPreserve authKind
    else match reference, authKind with
      | some reference, _ => .ok (columnsOf reference)
      | none, .privateKey => .ok (none,none)
      | none, .password => .error (referenceMissing ("connection_id=" ++ profile.id))

def preserveCredentialSecret (existing : Option (CredentialProfile × Option SecretReference))
    (kind : ConnectionAuthKind) : Except AppError SecretColumns :=
  match existing with
  | none => missingCredentialSecretForPreserve kind
  | some (credential,reference) =>
    if credential.kind ≠ kind then missingCredentialSecretForPreserve kind
    else match reference, kind with
      | some reference, _ => .ok (columnsOf reference)
      | none, .privateKey => .ok (none,none)
      | none, .password => .error (referenceMissing ("credential_id=" ++ credential.id))

/-- Store a new secret under the row's own account. -/
def storeSecret (reference : SecretReference) (secret : String) : Repo SecretColumns := do
  setSecret reference secret
  pure (columnsOf reference)

def copyInlineSecret (id : String) (source : ConnectionProfile × Option SecretReference)
    (authKind : ConnectionAuthKind) : Repo SecretColumns :=
  if source.1.credentialMode ≠ .inline ∨ source.1.inlineAuthKind ≠ some authKind then
    lift (missingInlineSecretForPreserve authKind)
  else match source.2, authKind with
    | none, .privateKey => pure (none,none)
    | none, .password => throw (referenceMissing ("connection_id=" ++ source.1.id))
    | some sourceReference, authKind => do
      let secret ← getSecret sourceReference
      storeSecret (.connection id (.ofInline authKind)) secret

/-- Copy from the source of a duplicate, else keep what the stored version has. -/
def keepInlineSecret (id : String) (authKind : ConnectionAuthKind)
    (existing duplicateSource : Option (ConnectionProfile × Option SecretReference)) :
    Repo SecretColumns :=
  match duplicateSource with
  | some source => copyInlineSecret id source authKind
  | none => lift (preserveInlineSecret existing authKind)

def prepareInlineSecret (id : String) (validated : ValidatedConnectionProfileInput)
    (existing duplicateSource : Option (ConnectionProfile × Option SecretReference)) :
    Repo SecretColumns :=
  match validated.inlineAuthKind with
  | some .password =>
    match validated.inlinePassword with
    | some password => storeSecret (.connection id .inlinePassword) password
    | none =>
      if !validated.inlinePasswordTouched then keepInlineSecret id .password existing duplicateSource
      else throw ⟨"connection_password_missing","请填写 SSH 密码。","inline password is empty",true⟩
  | some .privateKey =>
    match validated.inlinePrivateKeyPassphrase with
    | some passphrase => storeSecret (.connection id .inlinePrivateKeyPassphrase) passphrase
    | none =>
      if !validated.inlinePrivateKeyPassphraseTouched then
        keepInlineSecret id .privateKey existing duplicateSource
      else pure (none,none)
  | none => pure (none,none)

/-- The identifiers a command draws when it needs new ones. -/
structure Draws where
  record : Uuid
  group : Uuid

/-- A remote system is remembered as long as the connection still points to the same target. -/
def keptRemote (validated : ValidatedConnectionProfileInput)
    (existing : Option ExistingConnectionMeta) (field : ExistingConnectionMeta → Option String) :
    Option String :=
  (existing.filter fun item => item.protocol == validated.protocol && item.host == validated.host &&
    item.port == validated.port && item.username == validated.username).bind field

/-- The row that `connection_upsert` writes. -/
def connectionRow (id now : String) (input : ConnectionProfileInput)
    (validated : ValidatedConnectionProfileInput) (existing : Option ExistingConnectionMeta)
    (groupId : Option String) (columns : SecretColumns) : ConnectionRow where
  id := id
  name := validated.name
  protocol := validated.protocol
  groupId := groupId
  host := validated.host
  port := validated.port
  username := validated.username
  credentialMode := validated.credentialMode
  credentialId := validated.credentialId
  inlineAuthKind := validated.inlineAuthKind
  inlineSecretRef := columns.1
  inlineSecretSlotId := columns.2
  inlinePrivateKeyPath := validated.inlinePrivateKeyPath
  promptAuthKind := validated.promptAuthKind
  proxy := validated.proxy
  jump := validated.jump
  advanced := validated.advanced
  rdp := validated.rdp
  vnc := validated.vnc
  telnet := validated.telnet
  serial := validated.serial
  notes := validated.notes
  isFavorite := input.isFavorite.getD (existing.any (·.isFavorite))
  lastConnectedAt := Text.trimOptional input.lastConnectedAt <|> existing.bind (·.lastConnectedAt)
  remoteOsId := Text.trimOptional input.remoteOsId <|> keptRemote validated existing (·.remoteOsId)
  remoteOsName :=
    Text.trimOptional input.remoteOsName <|> keptRemote validated existing (·.remoteOsName)
  remoteOsVersion :=
    Text.trimOptional input.remoteOsVersion <|> keptRemote validated existing (·.remoteOsVersion)
  createdAt := (existing.map (·.createdAt)).getD now
  updatedAt := now

def duplicateSourceInvalid : AppError :=
  ⟨"connection_duplicate_source_invalid","复制连接请求无效。",
    "id and source_connection_id cannot both be set",true⟩

def ensureGroupOptional (fresh : Uuid) (now : String) : Option String → Repo (Option String)
  | some group => some <$> ensureGroup fresh group now
  | none => pure none

def duplicateSource : Option String → Repo (Option (ConnectionProfile × Option SecretReference))
  | some sourceId => some <$> storedConnection sourceId
  | none => pure none

def connectionUpsert (draws : Draws) (input : ConnectionProfileInput) (now : String) :
    Repo ConnectionProfile := do
  let sourceConnectionId := Text.trimOptional input.sourceConnectionId
  let validated ← lift (validateProfileInput (← get).family input)
  lift (if validated.id.isSome && sourceConnectionId.isSome then .error duplicateSourceInvalid
    else .ok ())
  let id := validated.id.getD draws.record.toString
  let existing ← existingConnectionMeta id
  let groupId ← ensureGroupOptional draws.group now validated.group
  let existingStored ← storedConnectionOptional id
  let source ← duplicateSource sourceConnectionId
  let columns ← prepareInlineSecret id validated existingStored source
  execute sqliteRepositoryError
    (.upsertConnection (connectionRow id now input validated existing groupId columns))
  lift (okOr (connectionMissing id) (← connectionGet id))

def deleteReferenced : Option SecretReference → Repo Unit
  | some reference => deleteSecret reference
  | none => pure ()

def connectionDelete (id : String) : Repo Unit := do
  let (_,inlineSecretRef) ← storedConnection id
  let changed ← executeDelete sqliteRepositoryError (.deleteConnection id)
  lift (if changed = 0 then .error (connectionMissing id) else .ok ())
  deleteReferenced inlineSecretRef

def credentialGone (id : String) : AppError :=
  ⟨"credential_missing","凭据不存在。","credential_id=" ++ id,false⟩

def prepareCredentialSecret (id : String) (validated : ValidatedCredentialProfileInput)
    (existing : Option (CredentialProfile × Option SecretReference)) : Repo SecretColumns :=
  match validated.kind with
  | .password =>
    match validated.password with
    | some password => storeSecret (.credential id .password) password
    | none =>
      if !validated.passwordTouched then lift (preserveCredentialSecret existing .password)
      else throw ⟨"credential_password_missing","请填写账号密码。","credential password is empty",true⟩
  | .privateKey =>
    match validated.privateKeyPassphrase with
    | some passphrase => storeSecret (.credential id .privateKeyPassphrase) passphrase
    | none =>
      if !validated.privateKeyPassphraseTouched then
        lift (preserveCredentialSecret existing .privateKey)
      else pure (none,none)

def credentialRow (id now : String) (validated : ValidatedCredentialProfileInput)
    (createdAt : Option String) (columns : SecretColumns) : CredentialRow where
  id := id
  name := validated.name
  username := validated.username
  kind := validated.kind
  secretRef := columns.1
  secretSlotId := columns.2
  privateKeyPath := validated.privateKeyPath
  notes := validated.notes
  createdAt := createdAt.getD now
  updatedAt := now

def credentialUpsert (draws : Draws) (input : CredentialProfileInput) (now : String) :
    Repo CredentialProfile := do
  let validated ← lift (validateCredentialInput input)
  let id := validated.id.getD draws.record.toString
  let createdAt ← query sqliteRepositoryError fun t => (t.credentials.find? id).map (·.createdAt)
  let existing ← storedCredentialOptional id
  let columns ← prepareCredentialSecret id validated existing
  execute sqliteRepositoryError
    (.upsertCredential (credentialRow id now validated createdAt columns))
  lift (okOr (credentialGone id) (← credentialGet id))

def credentialInUse (names : List String) : AppError :=
  ⟨"credential_in_use","该凭据正在被连接使用，请先修改连接。",String.intercalate ", " names,true⟩

def credentialDelete (id : String) : Repo Unit := do
  let references ← query sqliteRepositoryError fun t =>
    (t.connections.rows.filter fun row => row.credentialId = some id).map (·.name)
  lift (if references = [] then .ok () else .error (credentialInUse references))
  let (_,secretRef) ← storedCredential id
  let changed ← executeDelete sqliteRepositoryError (.deleteCredential id)
  lift (if changed = 0 then .error (credentialGone id) else .ok ())
  deleteReferenced secretRef

end Mxterm.RepositoryCommands
