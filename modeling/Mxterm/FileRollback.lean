import Mxterm.FileTools

/-! How applied changes are taken back: a single one (`rollback_patch`, `remote_rollback_tool`), the
changes of a checkpoint (`rollback_workspace`) and those of a whole reply (`undo` in
`file_history.rs`). -/
namespace Mxterm.Workspace

open Execution

variable (w : Roots)

def removeLocal (path : String) : Tool Unit := onDisk fun disk => w.removeFile disk path

def localVersion (path : String) : Tool (Option String) := do
  let d ← get
  lift (w.readVersion d.disk path)

/-- The change is forgotten, and the checkpoints that hold it are marked. -/
def forgetChange (id : String) (now : ℕ) : Tool Unit :=
  modifyFiles fun s => (s.remove id).markCheckpointChangeRemoved id now

def takeApplied (id missing : String) : Tool PendingPatch := do
  let d ← get
  match d.files.get? id with
  | none => throw missing
  | some patch => return patch

/-- Whether the files still are as the change left them, for the changes that make or remove files. -/
def rollbackValid (patch : PendingPatch) (current : Option String) : Tool Bool :=
  match patch.action with
  | .create => pure (current = patch.after)
  | .write => pure (patch.before = none ∧ current = patch.after)
  | .delete => pure (current = none)
  | .rename =>
    match patch.destination with
    | none => throw "重命名回滚缺少目标路径。"
    | some destination => do return (← localVersion w destination) = patch.before ∧ current = none
  | .patch => pure false

/-- The reverse of a change that made or removed files. -/
def rollbackOperation (patch : PendingPatch) : Tool Unit :=
  match patch.action with
  | .create | .write => runIf (patch.before = none) (removeLocal w patch.path)
  | .delete => writeLocal w patch.path none (patch.before.getD "")
  | .rename => onDisk fun disk => w.rename disk (patch.destination.getD "") patch.path
  | .patch => pure ()

/-- `rollback_patch` for a change of the local disk. -/
def rollbackLocalPatch (backupId : String) (approved : Bool) (draw : Draw) : Tool Unit := do
  let patch ← takeApplied backupId "备份不属于当前 Agent 会话或已失效。"
  if patch.action = .create ∨ (patch.action = .write ∧ patch.before = none) ∨
      patch.action = .delete ∨ patch.action = .rename then
    let current ← localVersion w patch.path
    if ¬ (← rollbackValid w patch current) then throw "文件已发生后续变化，不能自动回滚。"
    if ¬ approved then throw "用户拒绝回滚文件操作。"
    rollbackOperation w patch
    forgetChange backupId draw.now
  else
    match patch.before with
    | none => throw "新建文件回滚需要删除确认，当前不支持此备份。"
    | some original =>
      let _ ← lift (buildPatch (patch.after.getD "") (patch.after.getD "") original false)
      if ¬ approved then throw "用户拒绝回滚文件。"
      -- `restore_version` is `write_version` over the text that the change left.
      writeLocal w patch.path (some (patch.after.getD "")) original
      forgetChange backupId draw.now

/-- The reverse of a change of the host, in `remote_rollback_tool`. -/
def rollbackHostOperation (patch : PendingPatch) (backupId : String) (draw : Draw) : Tool Unit := do
  let path := w.remoteReal patch.path
  let d ← get
  match patch.action with
  | .patch | .write =>
    let (current,version) ← lift (d.host.readFile path)
    if patch.after ≠ some current then throw "远程文件在回滚前发生变化，已取消回滚。"
    match patch.before with
    | none => throw "该远程补丁没有可恢复的原始内容。"
    | some original => onHost fun host => host.writeFile path original version draw.seconds
  | .create =>
    let (current,_) ← lift (d.host.readFile path)
    if patch.after ≠ some current then throw "新建文件已被修改，已取消回滚。"
    onHostChecked "回滚新建文件失败。" fun host => host.removeForce path
  | .delete =>
    onHostChecked "回滚删除操作失败。" fun host =>
      if host.disk path = none then host.copy (w.remoteReal backupId) path else none
  | .rename =>
    match patch.destination with
    | none => throw "远程重命名缺少目标路径。"
    | some destination =>
      onHostChecked "回滚重命名操作失败。" fun host =>
        if host.disk path = none then host.move (w.remoteReal destination) path else none

/-- The paths of a rollback on the host have to be absolute there. -/
def rollbackPathsAbsolute (patch : PendingPatch) (backupId : String) : Bool :=
  isRemoteAbsolutePath patch.path && patch.destination.all isRemoteAbsolutePath &&
    (patch.action = .create || isRemoteAbsolutePath backupId)

/-- `remote_rollback_tool`. -/
def rollbackHostPatch (backupId : String) (approved : Bool) (draw : Draw) : Tool Unit := do
  let patch ← takeApplied backupId "远程备份不属于当前 Agent 会话或已失效。"
  if ¬ rollbackPathsAbsolute patch backupId then throw "远程回滚路径必须是当前 SSH 主机上的绝对路径。"
  if ¬ approved then throw "用户拒绝回滚远程文件。"
  rollbackHostOperation w patch backupId draw
  forgetChange backupId draw.now

/-- `rollback_patch`. Its branch for a local change under an SSH agent without a local directory is
left out: such an agent has no local directory at all, and the tool has failed before. -/
def rollbackPatch (requested : WorkspaceTarget) (backupId : String) (approved : Bool) (draw : Draw) :
    Tool Unit := do
  match callTarget (← get) requested backupId with
  | .localFiles => rollbackLocalPatch w backupId approved draw
  | .ssh => rollbackHostPatch w backupId approved draw

/-- `rollback_local`. -/
def rollbackLocal (patch : PendingPatch) : Tool Unit := do
  let conflict := "文件在应用后又发生变化，不能整体回滚。"
  let current ← localVersion w patch.path
  match patch.action with
  | .patch | .write =>
    if current ≠ patch.after then throw conflict
    match patch.before with
    | some before => writeLocal w patch.path current before
    | none => removeLocal w patch.path
  | .create =>
    if current ≠ patch.after then throw conflict
    removeLocal w patch.path
  | .delete =>
    if current.isSome ∨ patch.before = none then throw conflict
    writeLocal w patch.path none (patch.before.getD "")
  | .rename =>
    match patch.destination with
    | none => throw "重命名回滚缺少目标路径。"
    | some destination =>
      if current.isSome ∨ (← localVersion w destination) ≠ patch.before then throw conflict
      onDisk fun disk => w.rename disk destination patch.path

/-- The text and the version of a file on the host, where it exists. -/
def hostFile? (path : FilePath) : Tool (Option (String × ℕ × ℕ)) := do
  let d ← get
  if (d.host.disk path).isSome then
    let file ← lift (d.host.readFile path)
    return some file
  else return none

/-- The part of `rollback_applied_patch` for the host. -/
def rollbackOnHost (backupId : String) (patch : PendingPatch) (seconds : ℕ) : Tool Unit := do
  if ¬ rollbackPathsAbsolute patch backupId then throw "回滚路径必须是当前 SSH 主机上的绝对路径。"
  let path := w.remoteReal patch.path
  let current ← hostFile? path
  match patch.action with
  | .patch | .write =>
    match current with
    | none => throw "远程文件在应用后已不存在，不能整体回滚。"
    | some (content,version) =>
      if some content ≠ patch.after then throw "远程文件在应用后又发生变化，不能整体回滚。"
      match patch.before with
      | some before => onHost fun host => host.writeFile path before version seconds
      | none => onHostChecked "远程工作区回滚失败。" fun host => host.removeForce path
  | .create =>
    match current with
    | none => throw "远程创建的文件已经不存在。"
    | some (content,_) =>
      if some content ≠ patch.after then throw "远程文件在应用后又发生变化，不能整体回滚。"
      onHostChecked "远程工作区回滚失败。" fun host => host.removeForce path
  | .delete =>
    if current.isSome then throw "远程删除目标已经被重新创建，不能整体回滚。"
    onHostChecked "远程工作区回滚失败。" fun host => host.copy (w.remoteReal backupId) path
  | .rename =>
    match patch.destination with
    | none => throw "远程重命名回滚缺少目标路径。"
    | some destination =>
      let changed := "远程重命名目标已发生变化，不能整体回滚。"
      let d ← get
      let (content,_) ← lift ((d.host.readFile (w.remoteReal destination)).mapError fun _ => changed)
      if current.isSome ∨ some content ≠ patch.before then throw changed
      onHostChecked "远程工作区回滚失败。" fun host => host.move (w.remoteReal destination) path

/-- `WorkspaceRollback::rollback_applied_patch`. -/
def rollbackAppliedPatch (backupId : String) (patch : PendingPatch) (seconds : ℕ) : Tool Unit :=
  match patch.target with
  | .localFiles => rollbackLocal w patch
  | .ssh => rollbackOnHost w backupId patch seconds

/-- The checkpoint of a call of `rollback_workspace`: the one it names, else the last active one. -/
def WorkspaceState.chosenCheckpoint (s : WorkspaceState) (requested : String) :
    Option WorkspaceCheckpoint :=
  if requested = "" then s.checkpoints.reverse.find? (·.status = .active)
  else s.checkpoints.find? (·.id = requested)

/-- The changes that `rollback_workspace` takes back, the last of the list first. -/
def WorkspaceState.chosenChanges (s : WorkspaceState) (requested : String) (requestedIds : List String) :
    List (String × PendingPatch) :=
  let ids := if requestedIds ≠ [] then requestedIds
    else match s.chosenCheckpoint requested with
      | some checkpoint => checkpoint.changeIds
      | none => s.appliedOrder
  ids.filterMap s.applied.find?

/-- `rollback_workspace`'s loop. -/
def rollbackEach (draw : Draw) (time : String → ℕ) : List (String × PendingPatch) → Tool Unit
  | [] => pure ()
  | (id,patch) :: rest => do
    rollbackAppliedPatch w id patch (time id)
    forgetChange id draw.now
    rollbackEach draw time rest

/-- The chosen checkpoint is set to rolled back at the end. -/
def closeCheckpoint (checkpointId : String) (now : ℕ) : List WorkspaceCheckpoint → List WorkspaceCheckpoint
  | [] => []
  | c :: cs =>
    if c.id = checkpointId then { c with status := .rolledBack, rolledBackAtMs := some now } :: cs
    else c :: closeCheckpoint checkpointId now cs

/-- `rollback_workspace`. -/
def rollbackWorkspace (requested : String) (requestedIds : List String) (approved : Bool) (draw : Draw)
    (time : String → ℕ) : Tool Unit := do
  let d ← get
  if requested ≠ "" ∧ ¬ d.files.checkpoints.any (·.id = requested) then throw "指定的工作区检查点不存在。"
  let patches := d.files.chosenChanges requested requestedIds
  if patches = [] then throw "没有可回滚的已应用文件变更。"
  if ¬ approved then throw "用户拒绝整体回滚。"
  rollbackEach w draw time patches.reverse
  match d.files.chosenCheckpoint requested with
  | none => pure ()
  | some checkpoint => modifyFiles fun s =>
      { s with checkpoints := closeCheckpoint checkpoint.id draw.now s.checkpoints }

def createWorkspaceCheckpoint (draw : Draw) : Tool Unit := do
  let d ← get
  let files ← lift (d.files.createCheckpoint draw.checkpointId)
  set { d with files := files }

/-- `WorkspaceRollback::read_version`. -/
def versionOf (target : WorkspaceTarget) (path : String) : Tool (Option String) :=
  match target with
  | .localFiles => localVersion w path
  | .ssh => hostVersion w path

/-- The versions of the files under the plan, each read once. -/
def readVersions : List (WorkspaceTarget × String) → Versions → Tool Versions
  | [], versions => pure versions
  | (target,path) :: rest, versions => do
    let key := scopedWorkspacePath target path
    if (versions key).isSome then readVersions rest versions
    else readVersions rest (Function.update versions key (some (← versionOf w target path)))

/-- The backup of a deleted file of the host has to be what the change recorded. -/
def checkBackup (entry : String × PendingPatch) : Tool Unit :=
  runIf (entry.2.target = .ssh ∧ entry.2.action = .delete) do
    let d ← get
    let (content,_) ← lift (d.host.readFile (w.remoteReal entry.1))
    if some content ≠ entry.2.before then throw (entry.2.path ++ "：备份内容发生变化，未执行撤销。")

/-- The reads and the versions of a file that was taken back are forgotten. -/
def WorkspaceState.forgetReads (s : WorkspaceState) (patch : PendingPatch) : WorkspaceState :=
  { s with
    reads := fun key => if key ∈ patch.touchedPaths.map patch.scopedPath then none else s.reads key
    remoteMeta := fun key =>
      if key ∈ patch.touchedPaths.map patch.scopedPath then none else s.remoteMeta key }

/-- What `undo` makes of the books after one of its changes. -/
def WorkspaceState.forgetUndone (s : WorkspaceState) (now : ℕ) (entry : String × PendingPatch) :
    WorkspaceState :=
  let s := s.remove entry.1
  { s with checkpoints := s.checkpoints.map (s.markUndone now) }.forgetReads entry.2

/-- The loop of `undo`: it stops at the first failure, of a rollback or of saving the record.
`saving` is what saving reports where it fails. -/
def undoEach (now : ℕ) (time : String → ℕ) (saving : String → Option String) :
    List (String × PendingPatch) → ℕ → Tool (ℕ × Option String)
  | [], reverted => pure (reverted,none)
  | (id,patch) :: rest, reverted => do
    match ← attempt (rollbackAppliedPatch w id patch (time id)) with
    | .error message => pure (reverted,some (patch.path ++ "：" ++ message))
    | .ok () =>
      modifyFiles fun s => s.forgetUndone now (id,patch)
      match saving id with
      | none => undoEach now time saving rest (reverted + 1)
      | some message =>
        pure (reverted + 1,some ("文件已撤销，但保存撤销记录失败：" ++ message ++ "。请勿重复撤销。"))

/-- `undo`; `hostKnown` tells whether the SSH host of the reply is still the same. -/
def undo (request : UndoRequest) (hostKnown : Bool) (now : ℕ) (time : String → ℕ)
    (saving : String → Option String) : Tool (ℕ × Option String) := do
  let d ← get
  let patches ← lift (d.files.undoPlan request)
  if (patches.any fun entry => entry.2.target = .ssh) ∧ ¬ hostKnown then
    throw "原 SSH 连接的主机或用户已改变，不能在新主机上撤销。"
  let versions ← readVersions w
    (patches.flatMap fun entry => entry.2.touchedPaths.map fun path => (entry.2.target,path))
    fun _ => none
  let _ ← lift (validateReverseVersions versions patches)
  forEach (checkBackup w) patches
  undoEach w now time saving patches 0

end Mxterm.Workspace
