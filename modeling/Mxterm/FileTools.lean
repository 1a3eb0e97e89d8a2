import Mxterm.Execution
import Mxterm.WorkspaceDisk
import Mxterm.WorkspaceState

/-! The tools with which an agent reads, prepares and applies changes of files (`workspace_tool` and
`remote_file_lifecycle_tool` in `ai_agent.rs`), on the local disk and on the SSH host. -/
namespace Mxterm.Workspace

open Execution

/-- What the tools work on. -/
structure Desk where
  files : WorkspaceState
  disk : Disk
  host : Host

/-- A file of the local disk or of the host. -/
abbrev Place := WorkspaceTarget × FilePath

def Desk.node (d : Desk) : Place → Option Node
  | (.localFiles,x) => d.disk x
  | (.ssh,x) => d.host.disk x

/-- The file that a path of the agent leads to. -/
def Roots.file? (w : Roots) (target : WorkspaceTarget) (path : String) : Option FilePath :=
  match target with
  | .localFiles => (w.resolve path).toOption
  | .ssh => some (w.remoteReal path)

@[simp] theorem file?_local {w : Roots} {path : String} {file : FilePath} :
    w.file? .localFiles path = some file ↔ w.resolve path = .ok file := by
  unfold Roots.file?
  cases w.resolve path <;> simp [Except.toOption]

@[simp] theorem file?_ssh {w : Roots} {path : String} : w.file? .ssh path = some (w.remoteReal path) :=
  rfl

/-- A tool call; its error is the text that the model gets. -/
abbrev Tool (α : Type) := EStateM String Desk α

def modifyFiles (f : WorkspaceState → WorkspaceState) : Tool Unit :=
  modify fun d => { d with files := f d.files }

def onDisk (f : Disk → Except String Disk) : Tool Unit := do
  let d ← get
  let disk ← lift (f d.disk)
  set { d with disk := disk }

def onHost (f : Host → Except String Host) : Tool Unit := do
  let d ← get
  let host ← lift (f d.host)
  set { d with host := host }

/-- A command on the host whose status has to be zero. -/
def onHostChecked (failed : String) (f : Host → Option Host) : Tool Unit :=
  onHost fun host => match f host with
    | some host' => .ok host'
    | none => .error failed

/-- What a call draws: the time, the seconds of the host's clock at its writes, and new numbers. -/
structure Draw where
  now : ℕ
  seconds : ℕ
  changeId : String
  backupId : String
  operationId : String
  checkpointId : String
  backupId_ne : backupId ≠ ""
  operationId_ne : operationId ≠ ""

variable (w : Roots)

/-- The file is read completely; the editor may use nothing less. -/
def lineCount (content : String) : ℕ :=
  content.toList.count '\n' +
    if content.toList.getLast? = none ∨ content.toList.getLast? = some '\n' then 0 else 1

/-- Whether `slice_text_lines` leaves lines out. -/
def slicePartial (content : String) (offset limit : Option ℕ) : Bool :=
  let total := lineCount content
  let start := max (offset.getD 1) 1 - 1
  let stop := min total ((limit.map fun value => start + max value 1).getD total)
  0 < start || stop < total

def setRead (target : WorkspaceTarget) (path : String) (content : Option String) : Tool Unit :=
  modifyFiles fun s =>
    { s with reads := Function.update s.reads (scopedWorkspacePath target path) (some content) }

/-- The host's file is read, and its version is kept for later writes. -/
def readHostFile (path : String) : Tool String := do
  let d ← get
  let (content,version) ← lift (d.host.readFile (w.remoteReal path))
  modifyFiles fun s => { s with
    remoteMeta := Function.update s.remoteMeta (scopedWorkspacePath .ssh path) (some version) }
  return content

def readLocalFile (path : String) : Tool String := do
  let d ← get
  match ← lift (w.readVersion d.disk path) with
  | none => throw "读取文件元数据失败。"
  | some content => return content

/-- `read_file`. -/
def readFile (target : WorkspaceTarget) (path : String) (offset limit : Option ℕ) : Tool Unit := do
  match target with
  | .ssh =>
    let path ← lift (w.resolveRemote path)
    let content ← readHostFile w path
    setRead .ssh path (some content)
    runIf ((offset.isSome ∨ limit.isSome) ∧ slicePartial content offset limit) (setRead .ssh path none)
  | .localFiles =>
    let path ← lift (w.normalize path)
    let content ← readLocalFile w path
    setRead .localFiles path
      (if (offset.isSome ∨ limit.isSome) ∧ slicePartial content offset limit then none else some content)

/-- `build_patch_with_options`, without the diff. -/
def buildPatch (current old new : String) (replaceAll : Bool) : Except String String :=
  if old = "" then
    if current = "" then .ok new else .error "已有文件的补丁必须提供旧内容。"
  else
    let pieces := current.splitOn old
    let updated := new.intercalate pieces
    if pieces.length ≤ 1 then .error "补丁旧内容在文件中不存在。"
    else if 2 < pieces.length ∧ ¬ replaceAll then
      .error "补丁旧内容必须唯一匹配；如需全部替换请设置 replace_all。"
    else if maxFileBytes < textBytes updated ∨ updated = current then .error "修改为空或文件超过 2 MiB。"
    else .ok updated

/-- `complete_file_preview`. -/
def preparePatch (id : String) (patch : PendingPatch) : Tool Unit :=
  modifyFiles fun s => { s with patches := Function.update s.patches id (some patch) }

def previewPatch (target : WorkspaceTarget) (path old new : String) (replaceAll : Bool) (draw : Draw) :
    Tool Unit := do
  match target with
  | .ssh =>
    let path ← lift (w.resolveRemote path)
    let content ← readHostFile w path
    setRead .ssh path (some content)
    let updated ← lift (buildPatch content old new replaceAll)
    preparePatch draw.changeId ⟨.ssh,path,some content,some updated,.patch,none,0,0⟩
  | .localFiles =>
    let path ← lift (w.normalize path)
    let d ← get
    match d.files.reads (scopedWorkspacePath .localFiles path) with
    | none => throw "必须先 read_file 再生成补丁。"
    | some before =>
      let updated ← lift (buildPatch (before.getD "") old new replaceAll)
      preparePatch draw.changeId ⟨.localFiles,path,before,some updated,.patch,none,0,0⟩

/-- The text that a file operation leaves, where it leaves one at its path. -/
def plannedText (action : Action) (current : Option String) (content : String) : Option String :=
  match action with
  | .create | .write => some content
  | .delete => none
  | _ => current

/-- What the preview of a file operation on the local disk asks of the file. -/
def localPreviewCheck (action : Action) (current : Option String) (read : Option (Option String)) :
    Except String Unit :=
  if action ≠ .create ∧ current.isSome then
    if read ≠ some current then .error "请先读取文件，且文件在预览前不能发生变化。" else .ok ()
  else if current.isSome then .error "目标文件已存在，不能覆盖创建。"
  else if action ≠ .create then .error "目标文件不存在，无法执行该操作。"
  else .ok ()

/-- The path to which a rename on the local disk goes; nothing may be there. -/
def localDestination (d : Disk) (action : Action) (destination : String) :
    Except String (Option String) :=
  if action ≠ .rename then .ok none
  else if destination = "" then .error "重命名需要 destination。"
  else do
    let target := "/" ++ Roots.pathText (← w.resolve destination)
    if (← w.readVersion d target).isSome then .error "重命名目标已存在。" else .ok (some target)

/-- `preview_file_change` on the local disk. -/
def previewLocalChange (action : Action) (path destination content : String) (draw : Draw) : Tool Unit := do
  let path ← lift (w.normalize path)
  if action = .patch then throw "operation 必须是 create、write、delete 或 rename。"
  let d ← get
  let current ← lift (w.readVersion d.disk path)
  lift (localPreviewCheck action current (d.files.reads (scopedWorkspacePath .localFiles path)))
  let destination ← lift (localDestination w d.disk action destination)
  let after := plannedText action current content
  if after.any fun text => maxFileBytes < textBytes text then throw "文件超过 2 MiB。"
  preparePatch draw.changeId ⟨.localFiles,path,current,after,action,destination,0,0⟩

/-- What the preview of a file operation on the host asks of the file. -/
def hostPreviewCheck (action : Action) (current : Option String) : Except String Unit :=
  if action = .patch then .error "operation 必须是 create、write、delete 或 rename。"
  else if action = .create ∧ current.isSome then .error "目标文件已存在，不能覆盖创建。"
  else if action = .write ∧ current = none then
    .error "write 只能覆盖已存在文件；新文件请使用 create。"
  else if action ≠ .create ∧ current = none then .error "目标文件不存在，无法执行该操作。"
  else .ok ()

/-- The path to which a rename on the host goes; nothing may be there. -/
def hostDestination (h : Host) (action : Action) (destination : String) :
    Except String (Option String) :=
  if action ≠ .rename then .ok none
  else do
    let target ← w.resolveRemote destination
    if (h.disk (w.remoteReal target)).isSome then .error "重命名目标已经存在。" else .ok (some target)

/-- The text of a file on the host, where it exists; its version is kept. -/
def currentOnHost (path : String) : Tool (Option String) := do
  let d ← get
  if (d.host.disk (w.remoteReal path)).isSome then
    let content ← readHostFile w path
    return some content
  else return none

/-- `preview_file_change` on the host. -/
def previewHostChange (action : Action) (path destination content : String) (draw : Draw) : Tool Unit := do
  let path ← lift (w.resolveRemote path)
  let current ← currentOnHost w path
  lift (hostPreviewCheck action current)
  let d ← get
  let destination ← lift (hostDestination w d.host action destination)
  preparePatch draw.changeId
    ⟨.ssh,path,current,plannedText action current content,action,destination,0,0⟩

/-- `patches.remove`. -/
def WorkspaceState.take (s : WorkspaceState) (id : String) : WorkspaceState :=
  { s with patches := Function.update s.patches id none }

/-- A prepared change is used once. -/
def takePatch (id missing : String) : Tool PendingPatch := do
  let d ← get
  match d.files.patches id with
  | none => throw missing
  | some patch =>
    modifyFiles (·.take id)
    return patch

def registerApplied (id : String) (patch : PendingPatch) (messageId : String) (draw : Draw) : Tool Unit :=
  modifyFiles fun s => s.registerApplied id patch messageId draw.checkpointId draw.now

def writeLocal (path : String) (before : Option String) (after : String) : Tool Unit :=
  onDisk fun disk => w.writeVersion disk path before after

/-- The operation of `apply_file_change` on the local disk, and the backup that it names. -/
def localOperation (patch : PendingPatch) (backup : String) (draw : Draw) : Tool String := do
  match patch.action with
  | .create =>
    writeLocal w patch.path none (patch.after.getD "")
    return draw.operationId
  | .write =>
    writeLocal w patch.path patch.before (patch.after.getD "")
    return draw.operationId
  | .delete =>
    onDisk fun disk => w.removeFile disk patch.path
    return backup
  | .rename =>
    onDisk fun disk => w.rename disk patch.path (patch.destination.getD "")
    return backup
  | .patch => return backup

/-- What is deleted or renamed is stored first; the file is written once more with its text. -/
def takeBackup (patch : PendingPatch) (draw : Draw) : Tool String :=
  if patch.before.isSome ∧ (patch.action = .delete ∨ patch.action = .rename) then do
    writeLocal w patch.path (some (patch.before.getD "")) (patch.before.getD "")
    return draw.backupId
  else return ""

/-- `apply_file_change` on the local disk. -/
def applyLocalChange (messageId changeId : String) (approved : Bool) (draw : Draw) : Tool Unit := do
  let patch ← takePatch changeId "文件操作不存在或已失效。"
  if ¬ approved then throw "用户拒绝文件操作。"
  let d ← get
  if (← lift (w.readVersion d.disk patch.path)) ≠ patch.before then throw "审批期间文件已变化，请重新预览。"
  let backup ← takeBackup w patch draw
  let operation ← localOperation w patch backup draw
  let backup := if operation = "" then backup else operation
  registerApplied (if backup = "" then changeId else backup) patch messageId draw

/-- `apply_patch` on the local disk. -/
def applyLocalPatch (messageId patchId : String) (approved : Bool) (draw : Draw) : Tool Unit := do
  let patch ← takePatch patchId "补丁不存在或已失效，请重新 preview_patch。"
  if ¬ approved then throw "用户拒绝应用补丁。"
  writeLocal w patch.path patch.before (patch.after.getD "")
  registerApplied draw.operationId patch messageId draw

/-- `is_remote_absolute_path`. -/
def isRemoteAbsolutePath (path : String) : Bool :=
  let path := (Text.trim path).toList
  path.head? = some '/' && !(path.any fun c => c.toNat == 0 || c == '\n' || c == '\r')

def backupPath (path id : String) : String := path ++ ".mxterm-agent-backup-" ++ id

/-- `apply_patch` on the host. -/
def applyHostPatch (messageId patchId : String) (approved : Bool) (draw : Draw) : Tool Unit := do
  let patch ← takePatch patchId "补丁不存在或已失效。"
  if ¬ approved then throw "用户拒绝应用补丁。"
  if ¬ isRemoteAbsolutePath patch.path then throw "远程文件路径必须是当前 SSH 主机上的绝对路径。"
  let backup := backupPath patch.path draw.backupId
  onHostChecked "远程备份失败，未写入文件。" fun host =>
    host.copy (w.remoteReal patch.path) (w.remoteReal backup)
  let d ← get
  match d.files.remoteMeta (scopedWorkspacePath .ssh patch.path) with
  | none => throw "缺少远程文件版本，请重新读取。"
  | some version =>
    onHost fun host => host.writeFile (w.remoteReal patch.path) (patch.after.getD "") version draw.seconds
    registerApplied backup patch messageId draw

/-- The operation of `apply_file_change` on the host. -/
def hostOperation (patch : PendingPatch) (draw : Draw) : Tool Unit := do
  let path := w.remoteReal patch.path
  match patch.action with
  | .create =>
    onHost fun host => host.createFile path draw.seconds
    let d ← get
    let version ← lift (d.host.metadata path)
    runIf (patch.after.getD "" ≠ "")
      (onHost fun host => host.writeFile path (patch.after.getD "") version draw.seconds)
  | .write =>
    let d ← get
    let (_,version) ← lift (d.host.readFile path)
    onHost fun host => host.writeFile path (patch.after.getD "") version draw.seconds
  | .delete => onHostChecked "远程删除失败。" fun host => host.removeForce path
  | .rename =>
    match patch.destination with
    | none => throw "重命名缺少目标路径。"
    | some destination =>
      onHostChecked "远程重命名失败。" fun host => host.move path (w.remoteReal destination)
  | .patch => throw "远程文件操作无效。"

/-- The text of a file on the host, where it exists. -/
def hostVersion (path : String) : Tool (Option String) := do
  let d ← get
  if (d.host.disk (w.remoteReal path)).isSome then
    let (content,_) ← lift (d.host.readFile (w.remoteReal path))
    return some content
  else return none

/-- `apply_file_change` on the host. -/
def applyHostChange (messageId changeId : String) (approved : Bool) (draw : Draw) : Tool Unit := do
  let patch ← takePatch changeId "远程文件变更预览不存在或已失效。"
  if ¬ isRemoteAbsolutePath patch.path ∨ ¬ patch.destination.all isRemoteAbsolutePath then
    throw "远程文件变更路径必须是当前 SSH 主机上的绝对路径。"
  if ¬ approved then throw "用户拒绝应用远程文件变更。"
  if (← hostVersion w patch.path) ≠ patch.before then throw "远程文件在预览后发生变化，已取消应用。"
  let backup := backupPath patch.path draw.backupId
  runIf patch.before.isSome (onHostChecked "远程备份失败，未写入文件。" fun host =>
    host.copy (w.remoteReal patch.path) (w.remoteReal backup))
  hostOperation w patch draw
  registerApplied backup patch messageId draw

/-- The target of a call that names a change is that of the change. -/
def callTarget (d : Desk) (requested : WorkspaceTarget) (id : String) : WorkspaceTarget :=
  (((d.files.patches id).or (d.files.get? id)).map PendingPatch.target).getD requested

def applyPatch (requested : WorkspaceTarget) (messageId id : String) (approved : Bool) (draw : Draw) :
    Tool Unit := do
  match callTarget (← get) requested id with
  | .localFiles => applyLocalPatch w messageId id approved draw
  | .ssh => applyHostPatch w messageId id approved draw

def applyFileChange (requested : WorkspaceTarget) (messageId id : String) (approved : Bool) (draw : Draw) :
    Tool Unit := do
  match callTarget (← get) requested id with
  | .localFiles => applyLocalChange w messageId id approved draw
  | .ssh => applyHostChange w messageId id approved draw

def previewFileChange (target : WorkspaceTarget) (action : Action) (path destination content : String)
    (draw : Draw) : Tool Unit :=
  match target with
  | .localFiles => previewLocalChange w action path destination content draw
  | .ssh => previewHostChange w action path destination content draw

end Mxterm.Workspace
