import Mxterm.Values

/-! The connection records of `connections/mod.rs`. A field's default is the one of the
type's `Default` implementation, so `{}` is the value the code calls `default()`. -/
namespace Mxterm

inductive ConnectionAuthKind
  | password | privateKey
  deriving DecidableEq

inductive ConnectionCredentialMode
  | saved | inline | prompt
  deriving DecidableEq

inductive ConnectionProxyKind
  | none | httpConnect | socks5
  deriving DecidableEq

inductive ConnectionJumpKind
  | none | sshJump
  deriving DecidableEq

inductive ConnectionProtocol
  | ssh | rdp | vnc | telnet | serial
  deriving DecidableEq

inductive RdpDisplayMode
  | embedded | windowed | fullscreen | allMonitors
  deriving DecidableEq

inductive RdpAudioMode
  | «local» | remote | disabled
  deriving DecidableEq

inductive RdpGatewayMode
  | disabled | auto | explicit
  deriving DecidableEq

inductive RdpGatewayCredentialSource
  | same | prompt
  deriving DecidableEq

inductive RdpPerformancePreset
  | auto | lan | balanced | lowBandwidth
  deriving DecidableEq

inductive RdpSecurityCredentialMode
  | prompt | saved | osStore
  deriving DecidableEq

inductive RdpNetworkLevelAuthentication
  | auto | enabled | disabled
  deriving DecidableEq

inductive RdpCertificatePolicy
  | trust | prompt | strict
  deriving DecidableEq

inductive RdpRenderMode
  | embedded | external | custom
  deriving DecidableEq

inductive RdpRunnerKind
  | mstscActiveX | mstsc | freerdp | macosApp | custom
  deriving DecidableEq

structure RdpDisplayConfig where
  mode : RdpDisplayMode := .embedded
  width : Option UInt16 := some 1440
  height : Option UInt16 := some 900
  dynamicResize : Bool := true
  useMultimon : Bool := false
  deriving DecidableEq

structure RdpResourceConfig where
  clipboard : Bool := true
  audio : RdpAudioMode := .local
  drives : Bool := false
  printers : Bool := false
  smartCards : Bool := false
  deriving DecidableEq

structure RdpGatewayConfig where
  mode : RdpGatewayMode := .disabled
  host : Option String := none
  credentialSource : RdpGatewayCredentialSource := .prompt
  deriving DecidableEq

structure RdpRemoteAppConfig where
  enabled : Bool := false
  program : Option String := none
  workingDir : Option String := none
  args : Option String := none
  deriving DecidableEq

structure RdpPerformanceConfig where
  preset : RdpPerformancePreset := .auto
  desktopBackground : Bool := false
  fontSmoothing : Bool := true
  visualStyles : Bool := true
  deriving DecidableEq

structure RdpSecurityConfig where
  credentialMode : RdpSecurityCredentialMode := .prompt
  nla : RdpNetworkLevelAuthentication := .auto
  certificatePolicy : RdpCertificatePolicy := .prompt
  deriving DecidableEq

structure RdpRunnerConfig where
  renderMode : RdpRenderMode := .embedded
  preferredRunner : Option RdpRunnerKind := none
  customExecutable : Option String := none
  customArgsTemplate : Option String := none
  deriving DecidableEq

structure RdpConnectionConfig where
  domain : Option String := none
  display : RdpDisplayConfig := {}
  resources : RdpResourceConfig := {}
  gateway : Option RdpGatewayConfig := none
  remoteApp : RdpRemoteAppConfig := {}
  performance : RdpPerformanceConfig := {}
  security : RdpSecurityConfig := {}
  runner : RdpRunnerConfig := {}
  rawRdpSettings : Option String := none
  rawRunnerArgs : Option String := none
  deriving DecidableEq

inductive VncScaleMode
  | fit | stretch | actual
  deriving DecidableEq

inductive VncPerformancePreset
  | auto | quality | balanced | lowBandwidth
  deriving DecidableEq

inductive VncSecurityCredentialMode
  | prompt | saved
  deriving DecidableEq

inductive VncRenderMode
  | embedded | windowed | external | custom
  deriving DecidableEq

inductive VncRunnerKind
  | novnc | vncviewer | tigervnc | realvnc | custom
  deriving DecidableEq

structure VncDisplayConfig where
  scaleMode : VncScaleMode := .fit
  resizeSession : Bool := true
  clipViewport : Bool := true
  deriving DecidableEq

structure VncInputConfig where
  viewOnly : Bool := false
  clipboard : Bool := true
  shared : Bool := true
  deriving DecidableEq

structure VncPerformanceConfig where
  preset : VncPerformancePreset := .auto
  qualityLevel : Option UInt8 := some 7
  compressionLevel : Option UInt8 := some 0
  deriving DecidableEq

structure VncSecurityConfig where
  credentialMode : VncSecurityCredentialMode := .prompt
  deriving DecidableEq

structure VncRunnerConfig where
  renderMode : VncRenderMode := .embedded
  preferredRunner : Option VncRunnerKind := some .novnc
  customExecutable : Option String := none
  customArgsTemplate : Option String := none
  deriving DecidableEq

structure VncConnectionConfig where
  display : VncDisplayConfig := {}
  input : VncInputConfig := {}
  performance : VncPerformanceConfig := {}
  security : VncSecurityConfig := {}
  runner : VncRunnerConfig := {}
  rawRunnerArgs : Option String := none
  deriving DecidableEq

structure ConnectionProxyConfig where
  kind : ConnectionProxyKind := .none
  host : Option String := none
  port : Option UInt16 := none
  username : Option String := none
  password : Option String := none
  deriving DecidableEq

structure ConnectionJumpConfig where
  kind : ConnectionJumpKind := .none
  jumpConnectionId : Option String := none
  deriving DecidableEq

structure X11ForwardingConfig where
  enabled : Bool := false
  trusted : Bool := false
  display : Option String := none
  xauthPath : Option String := none
  deriving DecidableEq

structure ConnectionAdvancedConfig where
  connectTimeoutMs : UInt64 := 30000
  authTimeoutMs : UInt64 := 45000
  keepaliveIntervalMs : UInt64 := 20000
  terminalEncoding : String := "utf-8"
  x11Forwarding : X11ForwardingConfig := {}
  deriving DecidableEq

inductive TelnetEnterMode
  | cr | lf | crLf
  deriving DecidableEq

inductive TelnetBackspaceMode
  | del | ctrlH
  deriving DecidableEq

structure TelnetConnectionConfig where
  enterMode : TelnetEnterMode := .crLf
  backspaceMode : TelnetBackspaceMode := .del
  deriving DecidableEq

inductive SerialBackspaceMode
  | del | ctrlH
  deriving DecidableEq

inductive SerialDataBits
  | five | six | seven | eight
  deriving DecidableEq

inductive SerialParity
  | none | odd | even
  deriving DecidableEq

inductive SerialStopBits
  | one | two
  deriving DecidableEq

inductive SerialFlowControl
  | none | software | hardware
  deriving DecidableEq

structure SerialConnectionConfig where
  portName : String := ""
  baudRate : UInt32 := 9600
  dataBits : SerialDataBits := .eight
  parity : SerialParity := .none
  stopBits : SerialStopBits := .one
  flowControl : SerialFlowControl := .none
  backspaceMode : SerialBackspaceMode := .del
  deriving DecidableEq

/-- What the connection form sends; the last four fields are those of the first file format. -/
structure ConnectionProfileInput where
  id : Option String := none
  sourceConnectionId : Option String := none
  protocol : ConnectionProtocol := .ssh
  name : Option String := none
  group : Option String := none
  host : String
  port : UInt16
  username : String
  credentialMode : ConnectionCredentialMode := .inline
  credentialId : Option String := none
  inlineAuthKind : Option ConnectionAuthKind := none
  inlinePassword : Option String := none
  inlinePasswordTouched : Bool := false
  inlinePrivateKeyPath : Option String := none
  inlinePrivateKeyPassphrase : Option String := none
  inlinePrivateKeyPassphraseTouched : Bool := false
  promptAuthKind : Option ConnectionAuthKind := none
  proxy : ConnectionProxyConfig := {}
  jump : ConnectionJumpConfig := {}
  advanced : ConnectionAdvancedConfig := {}
  rdp : Option RdpConnectionConfig := none
  vnc : Option VncConnectionConfig := none
  telnet : Option TelnetConnectionConfig := none
  serial : Option SerialConnectionConfig := none
  notes : Option String := none
  isFavorite : Option Bool := none
  lastConnectedAt : Option String := none
  remoteOsId : Option String := none
  remoteOsName : Option String := none
  remoteOsVersion : Option String := none
  authKind : Option ConnectionAuthKind := none
  password : Option String := none
  privateKeyPath : Option String := none
  privateKeyPassphrase : Option String := none

structure ValidatedConnectionProfileInput where
  id : Option String
  protocol : ConnectionProtocol
  name : String
  group : Option String
  host : String
  port : UInt16
  username : String
  credentialMode : ConnectionCredentialMode
  credentialId : Option String := none
  inlineAuthKind : Option ConnectionAuthKind := none
  inlinePassword : Option String := none
  inlinePasswordTouched : Bool := false
  inlinePrivateKeyPath : Option String := none
  inlinePrivateKeyPassphrase : Option String := none
  inlinePrivateKeyPassphraseTouched : Bool := false
  promptAuthKind : Option ConnectionAuthKind := none
  proxy : ConnectionProxyConfig := {}
  jump : ConnectionJumpConfig := {}
  advanced : ConnectionAdvancedConfig := {}
  rdp : Option RdpConnectionConfig := none
  vnc : Option VncConnectionConfig := none
  telnet : Option TelnetConnectionConfig := none
  serial : Option SerialConnectionConfig := none
  notes : Option String

structure CredentialProfileInput where
  id : Option String := none
  name : Option String := none
  username : Option String := none
  kind : ConnectionAuthKind
  password : Option String := none
  passwordTouched : Bool := false
  privateKeyPath : Option String := none
  privateKeyPassphrase : Option String := none
  privateKeyPassphraseTouched : Bool := false
  notes : Option String := none

structure ValidatedCredentialProfileInput where
  id : Option String
  name : String
  username : String
  kind : ConnectionAuthKind
  password : Option String
  passwordTouched : Bool
  privateKeyPath : Option String
  privateKeyPassphrase : Option String
  privateKeyPassphraseTouched : Bool
  notes : Option String

end Mxterm
