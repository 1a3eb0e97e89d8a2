import Mxterm.X11Display

/-! The checks of `connections/mod.rs` between the connection form and the store. -/
namespace Mxterm.ConnectionValidation

open Text

def ConnectionAuthKind.debug : ConnectionAuthKind → String
  | .password => "Password"
  | .privateKey => "PrivateKey"

def validateLineValue (code message value field : String) : Except AppError String :=
  if value.toList.any isControl then
    .error ⟨code,message,s!"{field} contains control character",true⟩
  else .ok value

def validateOptionalLineValue (check : String → String → Except AppError String)
    (value : Option String) (field : String) : Except AppError (Option String) :=
  match value with
  | none => .ok none
  | some item => some <$> check item field

def validateRdpLineValue : String → String → Except AppError String :=
  validateLineValue "rdp_field_invalid" "RDP 字段包含非法控制字符。"

def validateOptionalRdpLineValue : Option String → String → Except AppError (Option String) :=
  validateOptionalLineValue validateRdpLineValue

def validateVncLineValue : String → String → Except AppError String :=
  validateLineValue "vnc_field_invalid" "VNC 字段包含非法控制字符。"

def validateOptionalVncLineValue : Option String → String → Except AppError (Option String) :=
  validateOptionalLineValue validateVncLineValue

def validateRdpDimension (value : Option UInt16) (name : String) :
    Except AppError (Option UInt16) :=
  match value with
  | none => .ok none
  | some value =>
    if value < 320 then
      .error ⟨"rdp_display_dimension_invalid","RDP 分辨率无效。",s!"{name}={value} is too small",true⟩
    else if value > 16384 then
      .error ⟨"rdp_display_dimension_invalid","RDP 分辨率无效。",s!"{name}={value} is too large",true⟩
    else .ok (some value)

def validateRdpDisplay (input : RdpDisplayConfig) : Except AppError RdpDisplayConfig := do
  let width ← validateRdpDimension input.width "width"
  let height ← validateRdpDimension input.height "height"
  let useMultimon := input.useMultimon || input.mode == .allMonitors
  .ok { input with width, height, useMultimon }

def validateRdpGateway : Option RdpGatewayConfig → Except AppError (Option RdpGatewayConfig)
  | none => .ok none
  | some input =>
    match input.mode with
    | .disabled => .ok none
    | .auto => do
      let host ← validateOptionalRdpLineValue (trimOptional input.host) "gateway.host"
      .ok (some { input with host })
    | .explicit => do
      match ← validateOptionalRdpLineValue (trimOptional input.host) "gateway.host" with
      | some host => .ok (some { input with host := some host })
      | none =>
        .error ⟨"rdp_gateway_host_missing","请填写 RDP 网关主机。","rdp gateway host is empty",true⟩

def validateRdpRemoteApp (input : RdpRemoteAppConfig) : Except AppError RdpRemoteAppConfig :=
  if !input.enabled then .ok {}
  else match trimOptional input.program with
    | none => .error ⟨"rdp_remote_app_program_missing","请填写 RemoteApp 程序路径。",
        "remote app program is empty",true⟩
    | some program => do
      let program ← validateRdpLineValue program "remote_app.program"
      let workingDir ←
        validateOptionalRdpLineValue (trimOptional input.workingDir) "remote_app.working_dir"
      let args ← validateOptionalRdpLineValue (trimOptional input.args) "remote_app.args"
      .ok { enabled := true, program := some program, workingDir, args }

def refuse (forbidden : List String) (lowered : String) (error : String → AppError) :
    Except AppError Unit :=
  match forbidden.find? (contains lowered) with
  | some word => .error (error word)
  | none => .ok ()

def validateRawArgs (invalid : AppError) (forbidden : List String) (secret : String → AppError)
    (value : Option String) : Except AppError (Option String) :=
  match trimOptional value with
  | none => .ok none
  | some raw => do
    if raw.toList.any isControl then .error invalid
    else
      refuse forbidden (toAsciiLowercase raw) secret
      .ok (some raw)

def validateRawRunnerArgs : Option String → Except AppError (Option String) :=
  validateRawArgs ⟨"rdp_runner_args_invalid","RDP runner 参数包含非法控制字符。",
      "raw runner args contain control character",true⟩
    ["password","passwd","/p:","/pass:","--from-stdin"]
    fun word => ⟨"rdp_runner_args_secret_forbidden","RDP runner 参数不能包含密码字段。",
      s!"raw runner args contain {word}",true⟩

def validateRawVncRunnerArgs : Option String → Except AppError (Option String) :=
  validateRawArgs ⟨"vnc_runner_args_invalid","VNC runner 参数包含非法控制字符。",
      "raw runner args contain control character",true⟩
    ["password","passwd","passphrase","--passwd","--password","-password","-passwd","vnc_password"]
    fun word => ⟨"vnc_runner_args_secret_forbidden","VNC runner 参数不能包含密码字段。",
      s!"raw runner args contain {word}",true⟩

def validateRdpRunner (input : RdpRunnerConfig) : Except AppError RdpRunnerConfig := do
  let customExecutable ←
    validateOptionalRdpLineValue (trimOptional input.customExecutable) "runner.custom_executable"
  if input.renderMode = .custom ∧ customExecutable = none then
    .error ⟨"rdp_custom_runner_missing","请填写自定义 RDP 客户端路径。",
      "custom runner executable is empty",true⟩
  else
    let customArgsTemplate ← validateRawRunnerArgs (trimOptional input.customArgsTemplate)
    .ok { input with customExecutable, customArgsTemplate }

/-- One line of the raw settings: `key:kind:value`, and never a password. -/
def validateRawRdpLine (line : String) : Except AppError Unit :=
  let line := trim line
  let lowered := toAsciiLowercase line
  let (key,afterKey) := match splitOnce ':' line with
    | some (key,rest) => (trim key,some rest)
    | none => (trim line,none)
  let (kind,value) := match afterKey.bind (splitOnce ':') with
    | some (kind,rest) => (trim kind,some rest)
    | none => (trim (afterKey.getD ""),none)
  if line = "" then .ok ()
  else if line.toList.any isControl then
    .error ⟨"rdp_raw_settings_invalid","RDP 原始设置包含非法控制字符。",
      "raw rdp setting contains control character",true⟩
  else if startsWith lowered "password" || contains lowered "password 51:b:" then
    .error ⟨"rdp_raw_settings_secret_forbidden","RDP 原始设置不能包含明文或加密密码字段。",
      "raw rdp setting contains password field",true⟩
  else if key = "" ∨ kind.utf8ByteSize ≠ 1 ∨ kind ∉ ["s","i","b"] ∨ value = none then
    .error ⟨"rdp_raw_settings_invalid","RDP 原始设置格式无效。",
      s!"invalid raw rdp setting line={line}",true⟩
  else .ok ()

def validateRawRdpSettings (value : Option String) : Except AppError (Option String) :=
  match trimOptional value with
  | none => .ok none
  | some raw => do
    if 16 * 1024 < raw.utf8ByteSize then
      .error ⟨"rdp_raw_settings_invalid","RDP 原始设置过长。",
        s!"raw_rdp_settings length={raw.utf8ByteSize}",true⟩
    else
      (lines raw).forM validateRawRdpLine
      .ok (some raw)

def validateRdpConfig (input : RdpConnectionConfig) : Except AppError RdpConnectionConfig := do
  let display ← validateRdpDisplay input.display
  let gateway ← validateRdpGateway input.gateway
  let remoteApp ← validateRdpRemoteApp input.remoteApp
  let runner ← validateRdpRunner input.runner
  let rawRdpSettings ← validateRawRdpSettings input.rawRdpSettings
  let rawRunnerArgs ← validateRawRunnerArgs input.rawRunnerArgs
  let domain ← validateOptionalRdpLineValue (trimOptional input.domain) "domain"
  .ok { input with domain, display, gateway, remoteApp, runner, rawRdpSettings, rawRunnerArgs }

def validateVncPerformance (input : VncPerformanceConfig) : Except AppError VncPerformanceConfig :=
  match input.qualityLevel.filter (· > 9), input.compressionLevel.filter (· > 9) with
  | some value, _ =>
    .error ⟨"vnc_performance_invalid","VNC 图像质量等级无效。",s!"quality_level={value}",true⟩
  | none, some value =>
    .error ⟨"vnc_performance_invalid","VNC 压缩等级无效。",s!"compression_level={value}",true⟩
  | none, none => .ok input

def validateVncRunner (input : VncRunnerConfig) : Except AppError VncRunnerConfig := do
  let customExecutable ←
    validateOptionalVncLineValue (trimOptional input.customExecutable) "runner.custom_executable"
  if input.renderMode = .custom ∧ customExecutable = none then
    .error ⟨"vnc_custom_runner_missing","请填写自定义 VNC 客户端路径。",
      "custom runner executable is empty",true⟩
  else
    let customArgsTemplate ← validateRawVncRunnerArgs (trimOptional input.customArgsTemplate)
    .ok { input with customExecutable, customArgsTemplate }

def validateVncConfig (input : VncConnectionConfig) : Except AppError VncConnectionConfig := do
  let runner ← validateVncRunner input.runner
  let rawRunnerArgs ← validateRawVncRunnerArgs input.rawRunnerArgs
  let performance ← validateVncPerformance input.performance
  .ok { input with performance, runner, rawRunnerArgs }

def validateProxyConfig (input : ConnectionProxyConfig) : Except AppError ConnectionProxyConfig :=
  if input.kind = .none then .ok {}
  else match trimOptional input.host, input.port.filter (· > 0) with
    | none, _ =>
      .error ⟨"connection_proxy_host_missing","请填写代理主机。","proxy host is empty",true⟩
    | some _, none =>
      .error ⟨"connection_proxy_port_invalid","代理端口无效。","proxy port is empty or 0",true⟩
    | some host, some port => .ok {
        kind := input.kind
        host := some host
        port := some port
        username := trimOptional input.username
        password := trimOptional input.password }

def validateJumpConfig (input : ConnectionJumpConfig) : Except AppError ConnectionJumpConfig :=
  match input.kind with
  | .none => .ok {}
  | .sshJump =>
    match trimOptional input.jumpConnectionId with
    | none =>
      .error ⟨"connection_jump_missing","请选择 SSH 跳板机连接。","jump_connection_id is empty",true⟩
    | some jumpConnectionId => .ok ⟨.sshJump,some jumpConnectionId⟩

def supportedTerminalEncodings : List String :=
  ["utf-8","gbk","gb18030","big5","euc-jp","iso-2022-jp","shift-jis","euc-kr"]

def normalizeTerminalEncoding (value : String) : Except AppError String :=
  let normalized := String.ofList <| (toAsciiLowercase (trim value)).toList.map fun c =>
    if c = '_' then '-' else c
  let normalized := if normalized = "" then "utf-8" else normalized
  if normalized ∈ supportedTerminalEncodings then .ok normalized
  else .error ⟨"connection_terminal_encoding_invalid","终端显示编码无效。",
    s!"terminal_encoding={normalized}",true⟩

def validateAdvancedConfig (family : X11Display.TargetFamily) (input : ConnectionAdvancedConfig) :
    Except AppError ConnectionAdvancedConfig := do
  if input.connectTimeoutMs < 1000 ∨ input.connectTimeoutMs > 300000 then
    .error ⟨"connection_connect_timeout_invalid","连接超时时间无效。",
      s!"connect_timeout_ms={input.connectTimeoutMs}",true⟩
  else if input.authTimeoutMs < 1000 ∨ input.authTimeoutMs > 300000 then
    .error ⟨"connection_auth_timeout_invalid","认证超时时间无效。",
      s!"auth_timeout_ms={input.authTimeoutMs}",true⟩
  else if input.keepaliveIntervalMs < 5000 ∨ input.keepaliveIntervalMs > 600000 then
    .error ⟨"connection_keepalive_invalid","心跳间隔无效。",
      s!"keepalive_interval_ms={input.keepaliveIntervalMs}",true⟩
  else
    let terminalEncoding ← normalizeTerminalEncoding input.terminalEncoding
    let x11Forwarding ← X11Display.validateConfig family input.x11Forwarding
    .ok { input with terminalEncoding, x11Forwarding }

end Mxterm.ConnectionValidation
