import Mxterm.McpExposure
import Mxterm.TracedActions

/-! How often a call of the MCP server starts its command line on the remote host, and whether a dangerous one was
confirmed: the tools with a trace of the command lines that they start, and the workers of the tasks. -/
namespace Mxterm.Mcp

open Execution RepositoryCommands RemoteCommands CommandTasks Transitions

/-! ## Tools with a trace -/

/-- Which of the two attempts start the command on the remote host. One that returns its output has started it; one that
fails may have started it too. -/
structure Shell (outside : Outside) where
  begins : ℕ → String → Bool
  begins_of_ok : ∀ {attempt command output}, outside.exec attempt command = .ok output → begins attempt command = true

abbrev Watched (α : Type) := EStateM AppError (Traced Server String) α

namespace Watched

def execWithContext (root : Root) (outside : Outside) (shell : Shell outside) (config : ResolvedSshConfig)
    (command : String) : Watched ExecOutput := do
  untraced (sessionHandle root outside config)
  untraced (access root .ssh config.connectionId)
  noteIf (shell.begins 0 command) command
  match outside.exec 0 command with
  | .ok output => pure output
  | .error _ => do
    untraced (connectTarget root outside config 1)
    untraced (access root .ssh config.connectionId)
    noteIf (shell.begins 1 command) command
    lift (outside.exec 1 command)

def executeCommand (root : Root) (outside : Outside) (shell : Shell outside) (connectionId command : String)
    (timeoutSeconds : Option ℕ) (maxOutputBytes : Option ℕ) (confirmDangerous : Bool) : Watched McpCommandResult := do
  let command ← lift (authorizeCommand root.settings outside connectionId command confirmDangerous)
  let timeout ← lift (validateTimeout timeoutSeconds 300)
  let config ← lift (resolveSsh root outside connectionId)
  match ← attempt (execWithContext root outside shell config command) with
  | .error error => throw (if outside.timedOut then commandTimeoutError timeout else error)
  | .ok output =>
    if outside.timedOut then throw (commandTimeoutError timeout)
    else pure (finishCommandResult config.connectionId command output maxOutputBytes (outside.millis 0)
      (outside.millis 1))

def serverMonitor (root : Root) (outside : Outside) (shell : Shell outside) (connectionId : String) :
    Watched McpCommandResult :=
  executeCommand root outside shell connectionId monitorCommand (some 20) (some (128 * 1024)) false

/-- The command line of a script that was uploaded. -/
def scriptCommand (remotePath : String) (interpreter args : Option String) : String :=
  let interpreter := Text.trim (interpreter.getD "sh")
  let args := Text.trim (args.getD "")
  "chmod +x " ++ shellQuote remotePath ++ " && " ++ shellQuote interpreter ++ " " ++ shellQuote remotePath ++ " " ++
    args ++ " ; status=$?; rm -f " ++ shellQuote remotePath ++ "; exit $status"

def executeScript (root : Root) (outside : Outside) (shell : Shell outside) (connectionId scriptPath : String)
    (interpreter args : Option String) (timeoutSeconds : Option ℕ) (maxOutputBytes : Option ℕ) :
    Watched McpCommandResult := do
  let timeout ← lift (validateTimeout timeoutSeconds 300)
  lift (outside.localRead scriptPath false)
  let remotePath := "/tmp/mxterm-mcp-" ++ toString (outside.millis 0) ++ "-" ++ scriptName outside scriptPath
  let _ ← untraced (uploadFile root outside connectionId scriptPath remotePath)
  executeCommand root outside shell connectionId (scriptCommand remotePath interpreter args) (some timeout)
    maxOutputBytes true

/-- The tools that run a command in the pool leave a trace; the command of a task is run by its worker. -/
def runTool (root : Root) (outside : Outside) (shell : Shell outside) (arguments : Json) : Tool → Watched Answer
  | .executeCommand => do
    let connectionId ← lift (valueGetStr arguments "connection_id")
    let command ← lift (valueGetStr arguments "command")
    let timeout ← lift (valueGetTimeoutSeconds outside arguments)
    let result ← executeCommand root outside shell connectionId command timeout
      (valueGetUsize arguments "max_output_bytes") (valueGetBool arguments "confirm_dangerous")
    pure (.command result)
  | .serverMonitor => do
    let connectionId ← lift (valueGetStr arguments "connection_id")
    let result ← serverMonitor root outside shell connectionId
    pure (.command result)
  | .executeScript => do
    let connectionId ← lift (valueGetStr arguments "connection_id")
    let scriptPath ← lift (valueGetStr arguments "script_path")
    let timeout ← lift (valueGetTimeoutSeconds outside arguments)
    let result ← executeScript root outside shell connectionId scriptPath (arguments.getText? "interpreter")
      (arguments.getText? "args") timeout (valueGetUsize arguments "max_output_bytes")
    pure (.command result)
  | tool => untraced (Mcp.runTool root outside arguments tool)

def callTool (root : Root) (outside : Outside) (shell : Shell outside) (name : String) (arguments : Json) :
    Watched Answer := do
  lift (rejectPlaintextCredentialArgs arguments)
  lift outside.openMetadata
  lift outside.querySettings
  match Tool.ofName name with
  | none => throw ⟨"mcp_tool_unknown","未知 MCP 工具。",name,false⟩
  | some tool => do
    let answer ← runTool root outside shell arguments tool
    untraced (forEach (access root tool.group) answer.about)
    pure answer

end Watched

/-! ### Without the trace -/

section
variable (root : Root) (outside : Outside) (shell : Shell outside)

theorem erases_execWithContext (config : ResolvedSshConfig) (command : String) :
    Erases (Watched.execWithContext root outside shell config command) (execWithContext root outside config command) :=
      by
  apply (Erases.untraced _).bind
  intro _
  intro _
  apply Erases.noteIf_bind
  intro _
  cases outside.exec 0 command with
  | ok output => exact Erases.pure output
  | error error =>
    apply (Erases.untraced _).bind
    intro _
    intro _
    apply Erases.noteIf_bind
    exact fun _ => Erases.lift _

theorem erases_executeCommand (connectionId command : String) (timeoutSeconds maxOutputBytes : Option ℕ)
    (confirmDangerous : Bool) :
    Erases
      (Watched.executeCommand root outside shell connectionId command timeoutSeconds maxOutputBytes confirmDangerous)
      (executeCommand root outside connectionId command timeoutSeconds maxOutputBytes confirmDangerous) := by
  apply (Erases.lift _).bind
  intro command
  apply (Erases.lift _).bind
  intro timeout
  apply (Erases.lift _).bind
  intro config
  apply (erases_execWithContext root outside shell config command).attempt.bind
  intro result
  cases result with
  | error error => exact Erases.throw _
  | ok output => exact (Erases.throw _).ite (Erases.pure _)

theorem erases_runTool (arguments : Json) (tool : Tool) :
    Erases (Watched.runTool root outside shell arguments tool) (runTool root outside arguments tool) := by
  have hother : Erases (untraced (runTool root outside arguments tool) : Watched Answer)
      (runTool root outside arguments tool) := Erases.untraced _
  cases tool with
  | executeCommand =>
    apply (Erases.lift _).bind
    intro connectionId
    apply (Erases.lift _).bind
    intro command
    apply (Erases.lift _).bind
    intro timeout
    refine Erases.bind ?_ fun _ => Erases.pure _
    apply erases_executeCommand
  | serverMonitor =>
    apply (Erases.lift _).bind
    intro connectionId
    refine Erases.bind ?_ fun _ => Erases.pure _
    apply erases_executeCommand
  | executeScript =>
    apply (Erases.lift _).bind
    intro connectionId
    apply (Erases.lift _).bind
    intro scriptPath
    apply (Erases.lift _).bind
    intro timeout
    refine Erases.bind ?_ fun _ => Erases.pure _
    apply (Erases.lift _).bind
    intro timeout
    apply (Erases.lift _).bind
    intro _
    apply (Erases.untraced _).bind
    intro _
    apply erases_executeCommand
  | _ => exact hother

theorem erases_callTool (name : String) (arguments : Json) :
    Erases (Watched.callTool root outside shell name arguments) (callTool root outside name arguments) := by
  apply (Erases.lift _).bind
  intro _
  apply (Erases.lift _).bind
  intro _
  apply (Erases.lift _).bind
  intro _
  cases Tool.ofName name with
  | none => exact Erases.throw _
  | some tool =>
    apply (erases_runTool root outside shell arguments tool).bind
    intro answer
    apply (Erases.untraced _).bind
    exact fun _ => Erases.pure answer

end

/-! ## The command lines of the pool -/

/-- Whether the target can be connected at the attempt. -/
def connects (root : Root) (outside : Outside) (config : ResolvedSshConfig) (attempt : ℕ) : Except AppError Unit := do
  let jump ← jumpHost root outside config
  jump.toList.forM (outside.connect attempt)
  outside.connect attempt config.connectionId

/-- Whether there is a session for the first attempt. -/
def opens (root : Root) (outside : Outside) (config : ResolvedSshConfig) : Except AppError Unit :=
  if outside.pooled then .ok () else connects root outside config 0

/-- What the upload of a script comes to. -/
def uploaded (root : Root) (outside : Outside) (connectionId localPath remotePath : String) :
    Except AppError McpTransferResult := do
  ensureSshEnabled root.settings
  ensureConnectionExposed root.settings connectionId
  outside.localRead localPath false
  let remotePath ← requireRemotePath remotePath
  let config ← resolveSsh root outside connectionId
  connects root outside config 0
  let bytesTransferred ← outside.transfer
  .ok {
    connectionId := config.connectionId
    localPath
    remotePath
    directory := false
    ok := true
    bytesTransferred
    durationMs := outside.millis 1 - outside.millis 0 }

/-- What `execute_command` goes to the pool with. -/
def commandFor (root : Root) (outside : Outside) (connectionId command : String) (timeoutSeconds : Option ℕ)
    (confirmDangerous : Bool) : Except AppError (Option (ResolvedSshConfig × String)) := do
  let command ← authorizeCommand root.settings outside connectionId command confirmDangerous
  let _ ← validateTimeout timeoutSeconds 300
  let config ← resolveSsh root outside connectionId
  .ok (some (config,command))

/-- What a tool goes to the pool with, if its checks let it through. -/
def toolCommand (root : Root) (outside : Outside) (arguments : Json) :
    Tool → Except AppError (Option (ResolvedSshConfig × String))
  | .executeCommand => do
    let connectionId ← valueGetStr arguments "connection_id"
    let command ← valueGetStr arguments "command"
    let timeout ← valueGetTimeoutSeconds outside arguments
    commandFor root outside connectionId command timeout (valueGetBool arguments "confirm_dangerous")
  | .serverMonitor => do
    let connectionId ← valueGetStr arguments "connection_id"
    commandFor root outside connectionId monitorCommand (some 20) false
  | .executeScript => do
    let connectionId ← valueGetStr arguments "connection_id"
    let scriptPath ← valueGetStr arguments "script_path"
    let timeout ← valueGetTimeoutSeconds outside arguments
    let timeout ← validateTimeout timeout 300
    outside.localRead scriptPath false
    let remotePath := "/tmp/mxterm-mcp-" ++ toString (outside.millis 0) ++ "-" ++ scriptName outside scriptPath
    let _ ← uploaded root outside connectionId scriptPath remotePath
    commandFor root outside connectionId
      (Watched.scriptCommand remotePath (arguments.getText? "interpreter") (arguments.getText? "args"))
      (some timeout) true
  | _ => .ok none

def callCommand (root : Root) (outside : Outside) (name : String) (arguments : Json) :
    Except AppError (Option (ResolvedSshConfig × String)) := do
  rejectPlaintextCredentialArgs arguments
  outside.openMetadata
  outside.querySettings
  match Tool.ofName name with
  | none => .ok none
  | some tool => toolCommand root outside arguments tool

/-- The command lines that the two attempts start. -/
def attempts (root : Root) (outside : Outside) (shell : Shell outside) (config : ResolvedSshConfig) (command : String) :
    List String :=
  match opens root outside config with
  | .error _ => []
  | .ok () => (if shell.begins 0 command then [command] else []) ++
    match outside.exec 0 command,connects root outside config 1 with
    | .error _,.ok () => if shell.begins 1 command then [command] else []
    | _,_ => []

/-- What is started by a call that goes to the pool with this. -/
def startedWith (root : Root) (outside : Outside) (shell : Shell outside) :
    Except AppError (Option (ResolvedSshConfig × String)) → List String
  | .ok (some (config,command)) => attempts root outside shell config command
  | _ => []

section
variable {root : Root} {outside : Outside} {shell : Shell outside}

/-- A check comes before the command line is sent. -/
theorem traces_check {α β : Type} {r : Except AppError α} {f : α → Watched β}
    {g : α → Except AppError (Option (ResolvedSshConfig × String))}
    (h : ∀ a, Traces (f a) (startedWith root outside shell (g a))) :
    Traces (lift r >>= f) (startedWith root outside shell (r >>= g)) := by
  apply Traces.lift_bind
  · rintro a rfl
    exact h a
  · rintro e rfl
    rfl

theorem traces_outcome {α β : Type} {x : Call α} {r : Except AppError α} {f : α → Watched β}
    {g : α → Except AppError (Option (ResolvedSshConfig × String))} (hx : Yields x r)
    (h : ∀ a, Traces (f a) (startedWith root outside shell (g a))) :
    Traces (untraced x >>= f) (startedWith root outside shell (r >>= g)) := by
  apply Traces.yields_bind hx
  · rintro a rfl
    exact h a
  · rintro e rfl
    rfl

theorem yields_access (group : ToolGroup) (connectionId : String) :
    Yields (access root group connectionId) (.ok ()) :=
  Yields.modify _

theorem yields_connectHost (attempt : ℕ) (connectionId : String) :
    Yields (connectHost root outside attempt connectionId) (outside.connect attempt connectionId) := by
  apply (yields_access .ssh connectionId).ok_bind
  exact Yields.lift _

theorem yields_connectTarget (config : ResolvedSshConfig) (attempt : ℕ) :
    Yields (connectTarget root outside config attempt) (connects root outside config attempt) := by
  apply (Yields.lift _).bind
  intro jump
  apply (Yields.forEach (yields_connectHost attempt) jump.toList).bind
  exact fun _ => yields_connectHost attempt config.connectionId

theorem yields_sessionHandle (config : ResolvedSshConfig) :
    Yields (sessionHandle root outside config) (opens root outside config) := by
  unfold sessionHandle opens
  split
  · exact yields_access .ssh config.connectionId
  · exact yields_connectTarget config 0

theorem yields_uploadFile (connectionId localPath remotePath : String) :
    Yields (uploadFile root outside connectionId localPath remotePath)
      (uploaded root outside connectionId localPath remotePath) := by
  apply (Yields.lift _).bind
  intro _
  apply (Yields.lift _).bind
  intro _
  apply (Yields.lift _).bind
  intro _
  apply (Yields.lift _).bind
  intro remotePath
  apply (Yields.lift _).bind
  intro config
  apply (yields_connectTarget config 0).bind
  intro _
  apply (yields_access .ssh config.connectionId).ok_bind
  apply (Yields.lift _).bind
  exact fun _ => Yields.pure _

theorem traces_execWithContext (config : ResolvedSshConfig) (command : String) :
    Traces (Watched.execWithContext root outside shell config command)
      (attempts root outside shell config command) := by
  unfold attempts
  apply Traces.yields_bind (yields_sessionHandle config)
  · rintro _ hopens
    rw [hopens]
    apply Traces.yields_bind (yields_access .ssh config.connectionId) _ nofun
    rintro _ -
    apply Traces.noteIf_bind
    intro _
    cases hexec : outside.exec 0 command with
    | ok output => exact Traces.pure output
    | error error =>
      apply Traces.yields_bind (yields_connectTarget config 1)
      · rintro _ hconnects
        rw [hconnects]
        apply Traces.yields_bind (yields_access .ssh config.connectionId) _ nofun
        rintro _ -
        rw [← List.append_nil (ite _ _ _)]
        apply Traces.noteIf_bind
        exact fun _ => Traces.lift _
      · rintro _ hconnects
        rw [hconnects]
  · rintro _ hopens
    rw [hopens]

theorem traces_executeCommand (connectionId command : String) (timeoutSeconds maxOutputBytes : Option ℕ)
    (confirmDangerous : Bool) :
    Traces
      (Watched.executeCommand root outside shell connectionId command timeoutSeconds maxOutputBytes confirmDangerous)
      (startedWith root outside shell
        (commandFor root outside connectionId command timeoutSeconds confirmDangerous)) := by
  apply traces_check
  intro command
  apply traces_check
  intro timeout
  apply traces_check
  intro config
  apply (traces_execWithContext config command).attempt_bind
  intro result
  cases result with
  | error error => exact Traces.throw _
  | ok output => exact (Traces.throw _).ite (Traces.pure _)

/-- The answer is made of the result when the trace is complete. -/
theorem traces_answer {α : Type} {x : Watched α} {entries : List String} (h : Traces x entries) (f : α → Answer) :
    Traces (do
      let a ← x
      pure (f a)) entries := by
  rw [← List.append_nil entries]
  exact h.bind (fun _ => Traces.pure _) fun _ _ _ _ => rfl

theorem traces_runTool (arguments : Json) (tool : Tool) :
    Traces (Watched.runTool root outside shell arguments tool)
      (startedWith root outside shell (toolCommand root outside arguments tool)) := by
  have hother : Traces (untraced (runTool root outside arguments tool) : Watched Answer) [] := Traces.untraced _
  cases tool with
  | executeCommand =>
    apply traces_check
    intro connectionId
    apply traces_check
    intro command
    apply traces_check
    intro timeout
    exact traces_answer (traces_executeCommand connectionId command timeout _ _) _
  | serverMonitor =>
    apply traces_check
    intro connectionId
    exact traces_answer (traces_executeCommand connectionId monitorCommand _ _ _) _
  | executeScript =>
    apply traces_check
    intro connectionId
    apply traces_check
    intro scriptPath
    apply traces_check
    intro timeout
    apply traces_answer
    apply traces_check
    intro timeout
    apply traces_check
    intro _
    apply traces_outcome (yields_uploadFile connectionId scriptPath _)
    exact fun _ => traces_executeCommand connectionId _ _ _ _
  | _ => exact hother

theorem traces_callTool (name : String) (arguments : Json) :
    Traces (Watched.callTool root outside shell name arguments)
      (startedWith root outside shell (callCommand root outside name arguments)) := by
  apply traces_check
  intro _
  apply traces_check
  intro _
  apply traces_check
  intro _
  cases Tool.ofName name with
  | none => exact Traces.throw _
  | some tool =>
    rw [← List.append_nil (startedWith root outside shell (toolCommand root outside arguments tool))]
    apply (traces_runTool arguments tool).bind _ fun _ _ _ _ => rfl
    intro answer
    exact (Traces.untraced _).bind (fun _ => Traces.pure answer) fun _ _ _ _ => rfl

end

end Mxterm.Mcp
