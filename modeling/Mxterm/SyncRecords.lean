import Mxterm.SecretReference

/-! The records that leave the store: the data document and the secrets of `sync_snapshot.rs`. -/
namespace Mxterm

structure SyncConnectionGroup where
  id : String
  name : String
  sortOrder : Int
  createdAt : String
  updatedAt : String
  deriving DecidableEq

structure SyncCredentialRecord where
  id : String
  name : String
  username : String
  kind : ConnectionAuthKind
  secretSlotId : Option String
  privateKeyPath : Option String
  notes : Option String
  createdAt : String
  updatedAt : String
  deriving DecidableEq

structure SyncConnectionRecord where
  id : String
  name : String
  protocol : ConnectionProtocol := .ssh
  groupId : Option String
  host : String
  port : UInt16
  username : String
  credentialMode : ConnectionCredentialMode
  credentialId : Option String
  inlineAuthKind : Option ConnectionAuthKind
  inlineSecretSlotId : Option String
  inlinePrivateKeyPath : Option String
  promptAuthKind : Option ConnectionAuthKind
  proxy : ConnectionProxyConfig
  jump : ConnectionJumpConfig
  advanced : ConnectionAdvancedConfig
  rdp : Option RdpConnectionConfig
  vnc : Option VncConnectionConfig
  telnet : Option TelnetConnectionConfig
  serial : Option SerialConnectionConfig
  notes : Option String
  isFavorite : Bool
  lastConnectedAt : Option String
  remoteOsId : Option String
  remoteOsName : Option String
  remoteOsVersion : Option String
  createdAt : String
  updatedAt : String
  deriving DecidableEq

structure KnownHostEntry where
  id : String
  host : String
  port : UInt16
  keyAlgorithm : String
  fingerprintSha256 : String
  publicKey : String
  trustedAt : String
  updatedAt : String
  deriving DecidableEq

inductive TunnelKind
  | «local» | remote | dynamic
  deriving DecidableEq

structure TunnelRule where
  id : String
  name : String
  kind : TunnelKind
  connectionId : String
  localHost : String
  localPort : UInt16
  remoteHost : String
  remotePort : UInt16
  autoStart : Bool
  createdAt : String
  updatedAt : String
  deriving DecidableEq

/-- A JSON value: a text, or any other value by its compact form. -/
inductive SettingValue
  | text (value : String) | json (compact : String)
  deriving DecidableEq

/-- The settings of a document form a map: no key occurs twice. -/
structure SettingsMap where
  entries : List (String × SettingValue)
  keysNodup : (entries.map Prod.fst).Nodup

def SettingsMap.empty : SettingsMap := ⟨[],by simp⟩

structure SyncDataDocument where
  version : ℕ
  connections : List SyncConnectionRecord
  credentials : List SyncCredentialRecord
  knownHosts : List KnownHostEntry
  tunnels : List TunnelRule
  connectionGroups : List SyncConnectionGroup
  settings : SettingsMap

structure SyncSecretEntry where
  slotId : String
  kind : String
  value : String
  updatedAt : String
  deriving DecidableEq

structure SyncSecretsPlaintext where
  version : ℕ
  secrets : List SyncSecretEntry
  deriving DecidableEq

/-- The part of a snapshot that a connection transfer carries. -/
structure ConnectionTransferData where
  version : ℕ := 1
  connectionGroups : List SyncConnectionGroup := []
  credentials : List SyncCredentialRecord := []
  connections : List SyncConnectionRecord := []
  deriving DecidableEq

structure ConnectionTransferSecrets where
  version : ℕ := 1
  secrets : List SyncSecretEntry := []
  deriving DecidableEq

end Mxterm
