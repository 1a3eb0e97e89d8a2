import Mathlib.Data.List.Sort
import Mxterm.Json
import Mxterm.RepositoryCommands

/-! The settings of the MCP server: which tools are switched on, which connections are exposed, and what is told of
them. -/
namespace Mxterm.Mcp

open RepositoryCommands (ConnectionProfile rowToConnectionProfile)

inductive McpConnectionExposureMode
  | all | custom
  deriving DecidableEq

structure McpSettings where
  enabled : Bool := false
  exposeConnections : Bool := false
  sshOperationsEnabled : Bool := false
  allowDangerousCommands : Bool := false
  remoteEnabled : Bool := false
  remoteHost : String := "0.0.0.0"
  remotePort : UInt16 := 8765
  connectionExposureMode : McpConnectionExposureMode := .all
  exposedConnectionIds : List String := []
  deriving DecidableEq

structure StoredWebDavSettings where
  enabled : Bool
  baseUrl : String
  username : Option String
  deriving DecidableEq

/-- What the server finds in the data directory when a call comes in. -/
structure Root where
  tables : Tables
  mcpSettings : Option McpSettings
  webDavSettings : Option StoredWebDavSettings

def Root.settings (root : Root) : McpSettings := root.mcpSettings.getD {}

/-! ## Switches -/

def ensureEnabled (settings : McpSettings) : Except AppError Unit :=
  if settings.enabled then .ok () else .error ⟨"mcp_disabled","MXterm MCP 尚未启用。","mcp.enabled=false",true⟩

/-- A switch of the settings that counts only while the server is enabled. -/
def ensureSwitch (settings : McpSettings) (switch : Bool) (error : AppError) : Except AppError Unit :=
  match ensureEnabled settings with
  | .error disabled => .error disabled
  | .ok () => if switch then .ok () else .error error

def ensureConnectionsEnabled (settings : McpSettings) : Except AppError Unit :=
  ensureSwitch settings settings.exposeConnections
    ⟨"mcp_connections_disabled","MCP 连接信息暴露尚未启用。","mcp.expose_connections=false",true⟩

def ensureSshEnabled (settings : McpSettings) : Except AppError Unit :=
  ensureSwitch settings settings.sshOperationsEnabled
    ⟨"mcp_ssh_disabled","MCP SSH 操作尚未启用。","mcp.ssh_operations_enabled=false",true⟩

theorem ensureSwitch_ok {settings : McpSettings} {switch : Bool} {error : AppError}
    (h : ensureSwitch settings switch error = .ok ()) : settings.enabled = true ∧ switch = true := by
  unfold ensureSwitch ensureEnabled at h
  cases henabled : settings.enabled <;> simp_all

def connectionIsExposed (settings : McpSettings) (connectionId : String) : Bool :=
  match settings.connectionExposureMode with
  | .all => true
  | .custom => settings.exposedConnectionIds.any fun id => id = connectionId

def ensureConnectionExposed (settings : McpSettings) (connectionId : String) : Except AppError Unit :=
  if connectionIsExposed settings (Text.trim connectionId) then .ok ()
  else .error ⟨"mcp_connection_not_exposed","该连接未开放给 MCP。","connection_id=" ++ Text.trim connectionId,true⟩

theorem ensureConnectionExposed_ok {settings : McpSettings} {connectionId : String}
    (h : ensureConnectionExposed settings connectionId = .ok ()) :
    connectionIsExposed settings (Text.trim connectionId) = true := by
  unfold ensureConnectionExposed at h
  split at h
  · assumption
  · cases h

/-! ## Connections -/

def connectionIsSupported (connection : ConnectionProfile) : Bool := connection.protocol = .ssh

def exposedConnections (settings : McpSettings) (connections : List ConnectionProfile) : List ConnectionProfile :=
  (connections.filter connectionIsSupported).filter fun connection => connectionIsExposed settings connection.id

/-- `ORDER BY created_at, name`. -/
def listedBefore (row other : ConnectionRow) : Bool :=
  row.createdAt < other.createdAt || (row.createdAt = other.createdAt && row.name ≤ other.name)

def connectionList (t : Tables) : List ConnectionProfile :=
  (t.connections.rows.mergeSort listedBefore).map (rowToConnectionProfile t)

theorem mem_connectionList {t : Tables} {connection : ConnectionProfile} :
    connection ∈ connectionList t ↔ ∃ row ∈ t.connections, rowToConnectionProfile t row = connection := by
  simp [connectionList,Table.mem_iff]

def connectionGet (t : Tables) (id : String) : Option ConnectionProfile :=
  (t.connections.find? id).map (rowToConnectionProfile t)

theorem connectionGet_eq_some {t : Tables} {id : String} {connection : ConnectionProfile} :
    connectionGet t id = some connection ↔ connection ∈ connectionList t ∧ connection.id = id := by
  rw [connectionGet,Option.map_eq_some_iff,mem_connectionList]
  constructor
  · rintro ⟨row,hrow,rfl⟩
    have hfound := Table.find?_eq_some_iff.mp hrow
    exact ⟨⟨row,hfound.1,rfl⟩,hfound.2⟩
  · rintro ⟨⟨row,hrow,rfl⟩,hid⟩
    exact ⟨row,Table.find?_eq_some_iff.mpr ⟨hrow,hid⟩,rfl⟩

structure McpProxyDto where
  kind : ConnectionProxyKind
  host : Option String
  port : Option UInt16
  usernameSaved : Bool
  passwordSaved : Bool

structure McpRdpDto where
  domain : Option String
  displayMode : RdpDisplayMode
  useMultimon : Bool
  dynamicResize : Bool
  renderMode : RdpRenderMode
  preferredRunner : Option RdpRunnerKind
  credentialMode : RdpSecurityCredentialMode
  certificatePolicy : RdpCertificatePolicy
  gatewayMode : Option RdpGatewayMode
  remoteAppEnabled : Bool
  rawRdpSettingsSaved : Bool
  rawRunnerArgsSaved : Bool

structure McpVncDto where
  scaleMode : VncScaleMode
  resizeSession : Bool
  clipViewport : Bool
  viewOnly : Bool
  clipboard : Bool
  shared : Bool
  performancePreset : VncPerformancePreset
  qualityLevel : Option UInt8
  compressionLevel : Option UInt8
  renderMode : VncRenderMode
  preferredRunner : Option VncRunnerKind
  credentialMode : VncSecurityCredentialMode
  rawRunnerArgsSaved : Bool

structure McpConnectionDto where
  id : String
  name : String
  protocol : ConnectionProtocol
  group : Option String
  host : String
  port : UInt16
  username : String
  credentialMode : ConnectionCredentialMode
  authKind : Option ConnectionAuthKind
  credentialId : Option String
  hasInlineSecret : Bool
  hasSavedCredential : Bool
  privateKeyPathSaved : Bool
  proxy : McpProxyDto
  jump : ConnectionJumpConfig
  rdp : Option McpRdpDto
  vnc : Option McpVncDto
  telnet : Option TelnetConnectionConfig
  serial : Option SerialConnectionConfig
  notes : Option String
  isFavorite : Bool
  lastConnectedAt : Option String
  remoteOsId : Option String
  remoteOsName : Option String
  remoteOsVersion : Option String
  createdAt : String
  updatedAt : String
  redacted : Bool

def redactedRdp (rdp : RdpConnectionConfig) : McpRdpDto where
  domain := rdp.domain
  displayMode := rdp.display.mode
  useMultimon := rdp.display.useMultimon
  dynamicResize := rdp.display.dynamicResize
  renderMode := rdp.runner.renderMode
  preferredRunner := rdp.runner.preferredRunner
  credentialMode := rdp.security.credentialMode
  certificatePolicy := rdp.security.certificatePolicy
  gatewayMode := rdp.gateway.map (·.mode)
  remoteAppEnabled := rdp.remoteApp.enabled
  rawRdpSettingsSaved := rdp.rawRdpSettings.isSome
  rawRunnerArgsSaved := rdp.rawRunnerArgs.isSome

def redactedVnc (vnc : VncConnectionConfig) : McpVncDto where
  scaleMode := vnc.display.scaleMode
  resizeSession := vnc.display.resizeSession
  clipViewport := vnc.display.clipViewport
  viewOnly := vnc.input.viewOnly
  clipboard := vnc.input.clipboard
  shared := vnc.input.shared
  performancePreset := vnc.performance.preset
  qualityLevel := vnc.performance.qualityLevel
  compressionLevel := vnc.performance.compressionLevel
  renderMode := vnc.runner.renderMode
  preferredRunner := vnc.runner.preferredRunner
  credentialMode := vnc.security.credentialMode
  rawRunnerArgsSaved := vnc.rawRunnerArgs.isSome

def redactedConnection (profile : ConnectionProfile) : McpConnectionDto where
  id := profile.id
  name := profile.name
  protocol := profile.protocol
  group := profile.group
  host := profile.host
  port := profile.port
  username := profile.username
  credentialMode := profile.credentialMode
  authKind := match profile.credentialMode with
    | .saved => none
    | .inline => profile.inlineAuthKind
    | .prompt => profile.promptAuthKind
  credentialId := profile.credentialId
  hasInlineSecret := profile.credentialMode = .inline && profile.inlineAuthKind.isSome
  hasSavedCredential := profile.credentialMode = .saved && profile.credentialId.isSome
  privateKeyPathSaved := profile.inlinePrivateKeyPath.isSome
  proxy := {
    kind := profile.proxy.kind
    host := profile.proxy.host
    port := profile.proxy.port
    usernameSaved := profile.proxy.username.isSome
    passwordSaved := profile.proxy.password.isSome }
  jump := profile.jump
  rdp := profile.rdp.map redactedRdp
  vnc := profile.vnc.map redactedVnc
  telnet := profile.telnet
  serial := profile.serial
  notes := profile.notes
  isFavorite := profile.isFavorite
  lastConnectedAt := profile.lastConnectedAt
  remoteOsId := profile.remoteOsId
  remoteOsName := profile.remoteOsName
  remoteOsVersion := profile.remoteOsVersion
  createdAt := profile.createdAt
  updatedAt := profile.updatedAt
  redacted := true

def protocolName : ConnectionProtocol → String
  | .ssh => "ssh"
  | .rdp => "rdp"
  | .vnc => "vnc"
  | .telnet => "telnet"
  | .serial => "serial"

def searchMatches (toLowercase : String → String) (connection : McpConnectionDto) (query : String) : Bool :=
  let query := toLowercase (Text.trim query)
  query = "" || [connection.id,connection.name,protocolName connection.protocol,connection.host,connection.username,
    connection.group.getD "",connection.notes.getD "",connection.remoteOsId.getD "",
    connection.remoteOsName.getD ""].any fun value => Text.contains (toLowercase value) query

/-! ## The status -/

structure McpStatus where
  enabled : Bool
  exposeConnections : Bool
  sshOperationsEnabled : Bool
  allowDangerousCommands : Bool
  stdioOnly : Bool
  remoteEnabled : Bool
  remoteHost : String
  remotePort : UInt16
  tools : List String

def status (settings : McpSettings) : McpStatus where
  enabled := settings.enabled
  exposeConnections := settings.exposeConnections
  sshOperationsEnabled := settings.sshOperationsEnabled
  allowDangerousCommands := settings.allowDangerousCommands
  stdioOnly := true
  remoteEnabled := settings.remoteEnabled
  remoteHost := settings.remoteHost
  remotePort := settings.remotePort
  tools := ["get_mxterm_mcp_status"] ++
    (if settings.enabled && settings.exposeConnections then
      ["list_connections","search_connections","get_connection"] else []) ++
    (if settings.enabled && settings.sshOperationsEnabled then
      ["test_connection","execute_command","execute_command_async","get_task_status","get_task_output","cancel_task",
        "server_monitor","upload_file","download_file","upload_directory","download_directory","execute_script"]
    else [])

def settingsAsMap (settings : McpSettings) : List (String × Bool) :=
  [("allow_dangerous_commands",settings.allowDangerousCommands),("enabled",settings.enabled),
    ("expose_connections",settings.exposeConnections),("remote_enabled",settings.remoteEnabled),
    ("ssh_operations_enabled",settings.sshOperationsEnabled)]

/-- The secret store of the repository that is opened for metadata is empty, so no password counts as saved. -/
structure WebDavSummary where
  enabled : Bool
  baseUrlSaved : Bool
  usernameSaved : Bool
  passwordSaved : Bool

structure ConnectionSummary where
  connections : ℕ
  webDav : Option WebDavSummary

def webDavSummary (stored : Option StoredWebDavSettings) : WebDavSummary :=
  let settings := stored.getD ⟨false,"",none⟩
  ⟨settings.enabled,Text.trim settings.baseUrl ≠ "",settings.username.isSome,false⟩

end Mxterm.Mcp
