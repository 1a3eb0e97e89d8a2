import Mxterm.CommandTasks
import Mxterm.Execution
import Mxterm.McpSettings
import Mxterm.TextLines

/-! The tools of the MCP server: what a call checks, which connections it uses, and what it answers. -/
namespace Mxterm.Mcp

open Execution RepositoryCommands RemoteCommands CommandTasks

/-! ## Calls -/

/-- The switch a tool depends on. -/
inductive ToolGroup
  | status | connections | ssh
  deriving DecidableEq

def ToolGroup.switchedOn (settings : McpSettings) : ToolGroup → Bool
  | .status => true
  | .connections => settings.exposeConnections
  | .ssh => settings.sshOperationsEnabled

/-- A connection of which a call gives data, or on which it causes an SSH operation, with the data directory as the call
found it. -/
structure Access where
  root : Root
  group : ToolGroup
  connectionId : String

/-- A connection with its credentials, as far as it matters which connections are used. -/
structure ResolvedSshConfig where
  connectionId : String
  jump : ConnectionJumpConfig

/-- The call that started a task. -/
structure Cause where
  root : Root
  config : ResolvedSshConfig

structure Server where
  root : Root
  tasks : CommandTasks.State
  causes : String → Option Cause
  accesses : List Access

/-- What a call meets outside of the settings and the records of the connections: failures of the store, the secrets,
the remote hosts, the local files and the clock. A use of a host may be made twice. -/
structure Outside where
  openMetadata : Except AppError Unit
  querySettings : Except AppError Unit
  queryConnections : Except AppError Unit
  queryWebDav : Except AppError Unit
  timestamp : Except AppError Unit
  toLowercase : String → String
  openLocal : Except AppError Unit
  secrets : String → Except AppError Unit
  pooled : Bool
  connect : ℕ → String → Except AppError Unit
  exec : ℕ → String → Except AppError ExecOutput
  timedOut : Bool
  transfer : Except AppError ℕ
  localRead : String → Bool → Except AppError Unit
  localWrite : String → Except AppError Unit
  localDirectory : String → Except AppError Unit
  fileName : String → Option String
  print : Json → String
  taskId : String
  millis : ℕ → ℕ

abbrev Call (α : Type) := EStateM AppError Server α

def access (root : Root) (group : ToolGroup) (connectionId : String) : Call Unit :=
  modify fun s => { s with accesses := ⟨root,group,connectionId⟩ :: s.accesses }

/-! ## Connections and their jump hosts -/

def connectionProtocolUnsupported (connectionId : String) (protocol : ConnectionProtocol) : AppError :=
  ⟨"connection_protocol_unsupported","该操作仅支持 SSH 连接。",
    "connection_id=" ++ connectionId ++ ", protocol=" ++ (match protocol with
      | .ssh => "Ssh"
      | .rdp => "Rdp"
      | .vnc => "Vnc"
      | .telnet => "Telnet"
      | .serial => "Serial"),true⟩

def resolveSavedConnection (root : Root) (outside : Outside) (id : String) : Except AppError ResolvedSshConfig :=
  match root.tables.connections.find? id with
  | none => .error (connectionMissing id)
  | some row =>
    if row.protocol = .ssh then (outside.secrets row.id).map fun _ => ⟨row.id,row.jump⟩
    else .error (connectionProtocolUnsupported row.id row.protocol)

def resolveSsh (root : Root) (outside : Outside) (connectionId : String) : Except AppError ResolvedSshConfig :=
  match outside.openLocal with
  | .error error => .error error
  | .ok () => resolveSavedConnection root outside (Text.trim connectionId)

def jumpMissing : AppError := ⟨"connection_jump_missing","请选择 SSH 跳板机连接。","jump_connection_id is empty",true⟩

def jumpSelfReference (id : String) : AppError :=
  ⟨"connection_jump_self_reference","跳板机不能引用自身连接。","connection_id=" ++ id,true⟩

def jumpNested (id : String) : AppError :=
  ⟨"connection_jump_nested_unsupported","跳板机暂不支持多级链路。","jump_connection_id=" ++ id,true⟩

def resolveJumpConfig (root : Root) (outside : Outside) (config : ResolvedSshConfig) :
    Except AppError ResolvedSshConfig :=
  match Text.trimOptional config.jump.jumpConnectionId with
  | none => .error jumpMissing
  | some id =>
    if id = config.connectionId then .error (jumpSelfReference id)
    else
      match resolveSavedConnection root outside id with
      | .error error => .error error
      | .ok jump => if jump.jump.kind = .sshJump then .error (jumpNested id) else .ok jump

/-- The connection by way of which the target is reached. -/
def jumpHost (root : Root) (outside : Outside) (config : ResolvedSshConfig) : Except AppError (Option String) :=
  match config.jump.kind with
  | .none => .ok none
  | .sshJump => (resolveJumpConfig root outside config).map fun jump => some jump.connectionId

def connectHost (root : Root) (outside : Outside) (attempt : ℕ) (connectionId : String) : Call Unit := do
  access root .ssh connectionId
  lift (outside.connect attempt connectionId)

/-- `connect_target_client`. -/
def connectTarget (root : Root) (outside : Outside) (config : ResolvedSshConfig) (attempt : ℕ) : Call Unit := do
  let jump ← lift (jumpHost root outside config)
  forEach (connectHost root outside attempt) jump.toList
  connectHost root outside attempt config.connectionId

def sessionHandle (root : Root) (outside : Outside) (config : ResolvedSshConfig) : Call Unit :=
  if outside.pooled then access root .ssh config.connectionId else connectTarget root outside config 0

/-- `exec_with_context` with `ReconnectOnce`. -/
def execWithContext (root : Root) (outside : Outside) (config : ResolvedSshConfig) (command : String) :
    Call ExecOutput := do
  sessionHandle root outside config
  access root .ssh config.connectionId
  match outside.exec 0 command with
  | .ok output => pure output
  | .error _ => do
    connectTarget root outside config 1
    access root .ssh config.connectionId
    lift (outside.exec 1 command)

/-! ## Commands -/

def requireCommand (command : String) : Except AppError String :=
  if Text.trim command = "" then .error ⟨"mcp_command_missing","请输入要执行的命令。","command is empty",true⟩
  else .ok (Text.trim command)

def dangerousCommands : List (String × String) :=
  [("rm -rf /","recursive delete from root"),("rm -fr /","recursive delete from root"),
    ("mkfs","filesystem format command"),("dd if=/dev/zero","raw disk overwrite"),
    ("dd if=/dev/random","raw disk overwrite"),("shutdown","system shutdown"),("reboot","system reboot"),
    ("halt","system halt"),(":()\x7b","fork bomb"),("chmod -r 777 /","recursive root permission change"),
    ("chown -r","recursive ownership change"),("> /dev/","direct device write"),("wipefs","filesystem signature wipe")]

def detectDangerousCommand (outside : Outside) (command : String) : Option String :=
  let compact := " ".intercalate (Text.splitWhitespace (outside.toLowercase command))
  (dangerousCommands.find? fun check => Text.contains compact check.1).map Prod.snd

def authorizeCommand (settings : McpSettings) (outside : Outside) (connectionId command : String)
    (confirmDangerous : Bool) : Except AppError String := do
  ensureSshEnabled settings
  ensureConnectionExposed settings connectionId
  let command ← requireCommand command
  match detectDangerousCommand outside command with
  | none => .ok command
  | some reason =>
    if settings.allowDangerousCommands && confirmDangerous then .ok command
    else .error ⟨"mcp_dangerous_command_rejected","命令被危险命令策略拦截。",reason,true⟩

def validateTimeout (seconds : Option ℕ) (maxSeconds : ℕ) : Except AppError ℕ :=
  let seconds := seconds.getD 30
  if 1 ≤ seconds ∧ seconds ≤ maxSeconds then .ok seconds
  else .error ⟨"mcp_timeout_out_of_range","MCP 命令超时必须在 1 到 " ++ toString maxSeconds ++ " 秒之间。",
    "requested_timeout_seconds=" ++ toString seconds ++ ", max_timeout_seconds=" ++ toString maxSeconds,true⟩

/-- When the timeout strikes, everything the command does counts as done. -/
def executeCommand (root : Root) (outside : Outside) (connectionId command : String) (timeoutSeconds : Option ℕ)
    (maxOutputBytes : Option ℕ) (confirmDangerous : Bool) : Call McpCommandResult := do
  let command ← lift (authorizeCommand root.settings outside connectionId command confirmDangerous)
  let timeout ← lift (validateTimeout timeoutSeconds 300)
  let config ← lift (resolveSsh root outside connectionId)
  match ← attempt (execWithContext root outside config command) with
  | .error error => throw (if outside.timedOut then commandTimeoutError timeout else error)
  | .ok output =>
    if outside.timedOut then throw (commandTimeoutError timeout)
    else pure (finishCommandResult config.connectionId command output maxOutputBytes (outside.millis 0)
      (outside.millis 1))

def monitorCommand : String :=
  "printf 'HOSTNAME\\0'; hostname 2>/dev/null; printf '\\nUPTIME\\0'; uptime 2>/dev/null; " ++
    "printf '\\nMEMORY\\0'; free -h 2>/dev/null; printf '\\nDISK\\0'; df -h 2>/dev/null | head -20"

def serverMonitor (root : Root) (outside : Outside) (connectionId : String) : Call McpCommandResult :=
  executeCommand root outside connectionId monitorCommand (some 20) (some (128 * 1024)) false

/-- `start_command_task`: the task is registered, and its worker keeps what the call has resolved. -/
def startCommandTask (root : Root) (outside : Outside) (connectionId command : String) (timeoutSeconds : Option ℕ)
    (maxOutputBytes : Option ℕ) (confirmDangerous : Bool) : Call (String × ℕ) := do
  let command ← lift (authorizeCommand root.settings outside connectionId command confirmDangerous)
  let timeout ← lift (validateTimeout timeoutSeconds 1800)
  let config ← lift (resolveSsh root outside connectionId)
  let s ← get
  let (started,tasks) := s.tasks.startCommandTask outside.taskId config.connectionId command timeout maxOutputBytes
    (outside.millis 0) (outside.millis 1)
  set { s with tasks }
  let id ← lift started
  modify fun s => { s with causes := Function.update s.causes id (some ⟨root,config⟩) }
  pure (id,timeout)

def testConnection (root : Root) (outside : Outside) (connectionId : String) : Call String := do
  lift (ensureSshEnabled root.settings)
  lift (ensureConnectionExposed root.settings connectionId)
  let config ← lift (resolveSsh root outside connectionId)
  sessionHandle root outside config
  pure config.connectionId

/-! ## Tasks -/

def getCommandTask (outside : Outside) (taskId : String) : Call McpTaskRecord := do
  let s ← get
  let (found,tasks) := s.tasks.getCommandTask taskId (outside.millis 0)
  set { s with tasks }
  lift found

def cancelCommandTask (outside : Outside) (taskId : String) : Call McpTaskRecord := do
  let s ← get
  let (found,tasks) := s.tasks.cancelCommandTask taskId (outside.millis 0)
  set { s with tasks }
  lift found

/-! ## Files -/

structure McpTransferResult where
  connectionId : String
  localPath : String
  remotePath : String
  directory : Bool
  ok : Bool
  bytesTransferred : ℕ
  durationMs : ℕ

def requireRemotePath (path : String) : Except AppError String :=
  let path := Text.trim path
  if path = "" ∨ path = "/" then .error ⟨"mcp_remote_path_invalid","远程路径不能为空或根目录。",path,true⟩
  else .ok path

/-- What the four transfers have in common: only the check of the local path differs. -/
def transfer (checkLocal : Except AppError Unit) (directory : Bool) (root : Root) (outside : Outside)
    (connectionId localPath remotePath : String) : Call McpTransferResult := do
  lift (ensureSshEnabled root.settings)
  lift (ensureConnectionExposed root.settings connectionId)
  lift checkLocal
  let remotePath ← lift (requireRemotePath remotePath)
  let config ← lift (resolveSsh root outside connectionId)
  connectTarget root outside config 0
  access root .ssh config.connectionId
  let bytesTransferred ← lift outside.transfer
  pure {
    connectionId := config.connectionId
    localPath
    remotePath
    directory
    ok := true
    bytesTransferred
    durationMs := outside.millis 1 - outside.millis 0 }

def uploadFile (root : Root) (outside : Outside) (connectionId localPath remotePath : String) :
    Call McpTransferResult :=
  transfer (outside.localRead localPath false) false root outside connectionId localPath remotePath

def downloadFile (root : Root) (outside : Outside) (connectionId remotePath localPath : String) :
    Call McpTransferResult :=
  transfer (outside.localWrite localPath) false root outside connectionId localPath remotePath

def uploadDirectory (root : Root) (outside : Outside) (connectionId localPath remotePath : String) :
    Call McpTransferResult :=
  transfer (outside.localRead localPath true) true root outside connectionId localPath remotePath

def downloadDirectory (root : Root) (outside : Outside) (connectionId remotePath localPath : String) :
    Call McpTransferResult :=
  transfer (outside.localDirectory localPath) true root outside connectionId localPath remotePath

def shellQuote (value : String) : String :=
  "'" ++ String.ofList (value.toList.flatMap fun c => if c = '\'' then "'\\''".toList else [c]) ++ "'"

def scriptName (outside : Outside) (scriptPath : String) : String :=
  String.ofList (((outside.fileName scriptPath).getD "script.sh").toList.map fun c =>
    if c ∈ ['/','\\',' ','\'','"'] then '_' else c)

/-- The upload and the command each check the switches and the connection. -/
def executeScript (root : Root) (outside : Outside) (connectionId scriptPath : String)
    (interpreter args : Option String)
    (timeoutSeconds : Option ℕ) (maxOutputBytes : Option ℕ) : Call McpCommandResult := do
  let timeout ← lift (validateTimeout timeoutSeconds 300)
  lift (outside.localRead scriptPath false)
  let remotePath := "/tmp/mxterm-mcp-" ++ toString (outside.millis 0) ++ "-" ++ scriptName outside scriptPath
  let _ ← uploadFile root outside connectionId scriptPath remotePath
  let interpreter := Text.trim (interpreter.getD "sh")
  let args := Text.trim (args.getD "")
  let command := "chmod +x " ++ shellQuote remotePath ++ " && " ++ shellQuote interpreter ++ " " ++
    shellQuote remotePath ++ " " ++ args ++ " ; status=$?; rm -f " ++ shellQuote remotePath ++ "; exit $status"
  executeCommand root outside connectionId command (some timeout) maxOutputBytes true

/-! ## The dispatch -/

inductive Tool
  | getMxtermMcpStatus | listConnections | searchConnections | getConnection | testConnection | executeCommand
  | executeCommandAsync | getTaskStatus | getTaskOutput | cancelTask | serverMonitor | uploadFile | downloadFile
  | uploadDirectory | downloadDirectory | executeScript
  deriving DecidableEq

def Tool.named : List (String × Tool) :=
  [("get_mxterm_mcp_status",.getMxtermMcpStatus),("list_connections",.listConnections),
    ("search_connections",.searchConnections),("get_connection",.getConnection),("test_connection",.testConnection),
    ("execute_command",.executeCommand),("execute_command_async",.executeCommandAsync),
    ("get_task_status",.getTaskStatus),("get_task_output",.getTaskOutput),("cancel_task",.cancelTask),
    ("server_monitor",.serverMonitor),("upload_file",.uploadFile),("download_file",.downloadFile),
    ("upload_directory",.uploadDirectory),("download_directory",.downloadDirectory),("execute_script",.executeScript)]

def Tool.ofName (name : String) : Option Tool := (Tool.named.find? fun entry => entry.1 = name).map Prod.snd

def Tool.group : Tool → ToolGroup
  | .getMxtermMcpStatus => .status
  | .listConnections | .searchConnections | .getConnection => .connections
  | _ => .ssh

def forbiddenArguments : List String :=
  ["host","user","username","password","passphrase","private_key","private_key_content"]

def rejectPlaintextCredentialArgs (arguments : Json) : Except AppError Unit :=
  match forbiddenArguments.find? fun name => (arguments.get? name).isSome with
  | none => .ok ()
  | some name => .error ⟨"mcp_plaintext_credentials_rejected","MCP 工具只允许使用 MXterm 已保存的 connection_id。",
      "forbidden argument: " ++ name,true⟩

def valueGetStr (arguments : Json) (key : String) : Except AppError String :=
  match ((arguments.getText? key).map Text.trim).filter (· ≠ "") with
  | some value => .ok value
  | none => .error ⟨"mcp_argument_missing","MCP 参数缺失。",key,true⟩

def valueGetTimeoutSeconds (outside : Outside) (arguments : Json) : Except AppError (Option ℕ) :=
  match arguments.get? "timeout_seconds" with
  | none => .ok none
  | some .null => .ok none
  | some value =>
    match value.u64? with
    | some seconds => .ok (some seconds)
    | none => .error ⟨"mcp_timeout_invalid","MCP 命令超时必须是正整数秒。","timeout_seconds=" ++ outside.print value,true⟩

def valueGetUsize (arguments : Json) (key : String) : Option ℕ := (arguments.get? key).bind Json.u64?

def valueGetBool (arguments : Json) (key : String) : Bool :=
  match arguments.get? key with
  | some (.bool value) => value
  | _ => false

/-- What a call answers. The output of a task is a part of its record. -/
inductive Answer
  | status (status : McpStatus) (settings : List (String × Bool)) (summary : Option ConnectionSummary)
  | listed (connections : List McpConnectionDto)
  | connection (connection : McpConnectionDto)
  | tested (connectionId : String)
  | command (result : McpCommandResult)
  | started (taskId : String) (timeoutSeconds : ℕ)
  | task (record : McpTaskRecord)
  | taskOutput (record : McpTaskRecord)
  | transferred (result : McpTransferResult)

/-- The connections of which an answer holds data. -/
def Answer.about : Answer → List String
  | .status _ _ _ => []
  | .listed dtos => dtos.map (·.id)
  | .connection dto => [dto.id]
  | .tested connectionId => [connectionId]
  | .command result => [result.connectionId]
  | .started _ _ => []
  | .task shown => [shown.connectionId]
  | .taskOutput shown => [shown.connectionId]
  | .transferred result => [result.connectionId]

def connectionSummary (root : Root) (outside : Outside) : Except AppError ConnectionSummary := do
  outside.timestamp
  let webDav := match outside.queryWebDav with
    | .ok () => some (webDavSummary root.webDavSettings)
    | .error _ => none
  outside.queryConnections
  .ok ⟨(exposedConnections root.settings (connectionList root.tables)).length,webDav⟩

def statusAnswer (root : Root) (outside : Outside) : Answer :=
  .status (status root.settings) (settingsAsMap root.settings)
    (if root.settings.enabled && root.settings.exposeConnections then
      match connectionSummary root outside with
      | .ok summary => some summary
      | .error _ => none
    else none)

def exposedList (root : Root) (outside : Outside) : Except AppError (List McpConnectionDto) := do
  outside.queryConnections
  .ok ((exposedConnections root.settings (connectionList root.tables)).map redactedConnection)

/-- The tools that only read the settings and the connections. -/
def readingTool (root : Root) (outside : Outside) (arguments : Json) : Tool → Except AppError Answer
  | .listConnections => do
    ensureConnectionsEnabled root.settings
    let connections ← exposedList root outside
    .ok (.listed connections)
  | .searchConnections => do
    ensureConnectionsEnabled root.settings
    let query ← valueGetStr arguments "query"
    let connections ← exposedList root outside
    .ok (.listed (connections.filter fun connection => searchMatches outside.toLowercase connection query))
  | .getConnection => do
    ensureConnectionsEnabled root.settings
    let connectionId ← valueGetStr arguments "connection_id"
    outside.queryConnections
    match ((connectionGet root.tables connectionId).filter fun connection =>
        connectionIsExposed root.settings connection.id).filter connectionIsSupported with
    | some connection => .ok (.connection (redactedConnection connection))
    | none => .error (connectionMissing connectionId)
  | _ => .ok (statusAnswer root outside)

def taskTool (root : Root) (arguments : Json) (act : String → Call McpTaskRecord) : Call McpTaskRecord := do
  lift (ensureSshEnabled root.settings)
  let taskId ← lift (valueGetStr arguments "task_id")
  act taskId

def transferTool (first second : String) (act : String → String → String → Call McpTransferResult) (arguments : Json) :
    Call Answer := do
  let connectionId ← lift (valueGetStr arguments "connection_id")
  let first ← lift (valueGetStr arguments first)
  let second ← lift (valueGetStr arguments second)
  let result ← act connectionId first second
  pure (.transferred result)

def runTool (root : Root) (outside : Outside) (arguments : Json) : Tool → Call Answer
  | .testConnection => do
    let connectionId ← lift (valueGetStr arguments "connection_id")
    let tested ← testConnection root outside connectionId
    pure (.tested tested)
  | .executeCommand => do
    let connectionId ← lift (valueGetStr arguments "connection_id")
    let command ← lift (valueGetStr arguments "command")
    let timeout ← lift (valueGetTimeoutSeconds outside arguments)
    let result ← executeCommand root outside connectionId command timeout
      (valueGetUsize arguments "max_output_bytes") (valueGetBool arguments "confirm_dangerous")
    pure (.command result)
  | .executeCommandAsync => do
    let connectionId ← lift (valueGetStr arguments "connection_id")
    let command ← lift (valueGetStr arguments "command")
    let timeout ← lift (valueGetTimeoutSeconds outside arguments)
    let started ← startCommandTask root outside connectionId command timeout
      (valueGetUsize arguments "max_output_bytes") (valueGetBool arguments "confirm_dangerous")
    pure (.started started.1 started.2)
  | .getTaskStatus => do
    let record ← taskTool root arguments (getCommandTask outside)
    pure (.task record)
  | .getTaskOutput => do
    let record ← taskTool root arguments (getCommandTask outside)
    pure (.taskOutput record)
  | .cancelTask => do
    let record ← taskTool root arguments (cancelCommandTask outside)
    pure (.task record)
  | .serverMonitor => do
    let connectionId ← lift (valueGetStr arguments "connection_id")
    let result ← serverMonitor root outside connectionId
    pure (.command result)
  | .uploadFile => transferTool "local_path" "remote_path" (uploadFile root outside) arguments
  | .downloadFile => transferTool "remote_path" "local_path" (downloadFile root outside) arguments
  | .uploadDirectory => transferTool "local_path" "remote_path" (uploadDirectory root outside) arguments
  | .downloadDirectory => transferTool "remote_path" "local_path" (downloadDirectory root outside) arguments
  | .executeScript => do
    let connectionId ← lift (valueGetStr arguments "connection_id")
    let scriptPath ← lift (valueGetStr arguments "script_path")
    let timeout ← lift (valueGetTimeoutSeconds outside arguments)
    let result ← executeScript root outside connectionId scriptPath (arguments.getText? "interpreter")
      (arguments.getText? "args") timeout (valueGetUsize arguments "max_output_bytes")
    pure (.command result)
  | tool => lift (readingTool root outside arguments tool)

def callTool (root : Root) (outside : Outside) (name : String) (arguments : Json) : Call Answer := do
  lift (rejectPlaintextCredentialArgs arguments)
  lift outside.openMetadata
  lift outside.querySettings
  match Tool.ofName name with
  | none => throw ⟨"mcp_tool_unknown","未知 MCP 工具。",name,false⟩
  | some tool => do
    let answer ← runTool root outside arguments tool
    forEach (access root tool.group) answer.about
    pure answer

/-- The answer to a call, without what the call leaves behind. -/
def Server.answer (s : Server) (name : String) (arguments : Json) (outside : Outside) : Except AppError Answer :=
  match callTool s.root outside name arguments s with
  | .ok answer _ => .ok answer
  | .error error _ => .error error

/-! ## Histories -/

/-- The settings and the connections change, calls come in, and the workers of the tasks go on. -/
inductive Event
  | change (root : Root)
  | call (name : String) (arguments : Json) (outside : Outside)
  | work (action : CommandTasks.Action) (outside : Outside)

def isCall : CommandTasks.Action → Bool
  | .start .. | .get .. | .cancel .. => true
  | _ => false

/-- The connections that a worker uses: it connects as soon as its task is marked, and looks up the jump host then. -/
def workerUses (s : Server) (outside : Outside) : CommandTasks.Action → List Access
  | .mark id _ _ =>
    match s.causes id,s.tasks.entry id with
    | some cause,some entry =>
      match jumpHost s.root outside cause.config with
      | .error _ => []
      | .ok jump =>
        if entry.record.status = .queued then
          (jump.toList ++ [cause.config.connectionId]).map fun used => ⟨cause.root,.ssh,used⟩
        else []
    | _,_ => []
  | .openChannel id _ => (s.causes id).toList.map fun cause => ⟨cause.root,.ssh,cause.config.connectionId⟩
  | _ => []

def Server.step (s : Server) : Event → Option Server
  | .change root => some { s with root }
  | .call name arguments outside =>
    -- the id of a new task is not in use
    if (s.tasks.side outside.taskId).worker.isSome then none
    else some (after (callTool s.root outside name arguments) s)
  | .work action outside =>
    if isCall action then none
    else (s.tasks.step action).map fun tasks => { s with
      tasks
      accesses := workerUses s outside action ++ s.accesses }

def Server.initial (root : Root) : Server := ⟨root,.initial,fun _ => none,[]⟩

end Mxterm.Mcp
