import Mathlib.Data.List.Sort
import Mxterm.Table
import Mxterm.Values

/-! What an agent remembers of the files it changed (`WorkspaceState` in `ai_agent.rs` and
`file_history.rs`): the changes it prepared and applied, and the checkpoints over them. -/
namespace Mxterm.Workspace

inductive WorkspaceTarget
  | localFiles | ssh
  deriving DecidableEq

def WorkspaceTarget.keyPrefix : WorkspaceTarget → String
  | .localFiles => "local"
  | .ssh => "ssh"

def scopedWorkspacePath (target : WorkspaceTarget) (path : String) : String :=
  target.keyPrefix ++ "::" ++ path

theorem scopedWorkspacePath_inj {target target' : WorkspaceTarget} {path path' : String} :
    scopedWorkspacePath target path = scopedWorkspacePath target' path' ↔
      target = target' ∧ path = path' := by
  simp only [scopedWorkspacePath,← String.toList_inj,String.toList_append]
  cases target <;> cases target' <;> simp [WorkspaceTarget.keyPrefix]

inductive Action
  | patch | create | write | delete | rename
  deriving DecidableEq

structure PendingPatch where
  target : WorkspaceTarget
  path : String
  before : Option String
  after : Option String
  action : Action
  destination : Option String
  appliedAtMs : ℕ
  appliedSequence : ℕ

inductive CheckpointStatus
  | active | partly | rolledBack
  deriving DecidableEq

structure WorkspaceCheckpoint where
  id : String
  messageId : String
  changeIds : List String
  status : CheckpointStatus
  rolledBackAtMs : Option ℕ

/-- The applied changes under their backup numbers. -/
abbrev Applied := Table (Prod.fst : String × PendingPatch → String)

structure WorkspaceState where
  reads : String → Option (Option String)
  remoteMeta : String → Option (ℕ × ℕ)
  patches : String → Option PendingPatch
  applied : Applied
  checkpoints : List WorkspaceCheckpoint
  nextAppliedSequence : ℕ

namespace WorkspaceState

def default : WorkspaceState where
  reads := fun _ => none
  remoteMeta := fun _ => none
  patches := fun _ => none
  applied := Table.empty _
  checkpoints := []
  nextAppliedSequence := 0

def get? (s : WorkspaceState) (id : String) : Option PendingPatch := (s.applied.find? id).map Prod.snd

/-- `applied.remove`. -/
def remove (s : WorkspaceState) (id : String) : WorkspaceState :=
  { s with applied := s.applied.keepRows fun row => row.1 ≠ id }

/-- How many changes of a checkpoint are still applied. -/
def remaining (s : WorkspaceState) (c : WorkspaceCheckpoint) : ℕ :=
  (c.changeIds.filter fun id => (s.get? id).isSome).length

end WorkspaceState

/-- The change goes to the checkpoint of its reply, which the first change of a reply makes. -/
def pushChange (messageId id checkpointId : String) : List WorkspaceCheckpoint → List WorkspaceCheckpoint
  | [] => [⟨checkpointId,messageId,[id],.active,none⟩]
  | c :: cs =>
    if c.messageId = messageId then { c with changeIds := c.changeIds ++ [id] } :: cs
    else c :: pushChange messageId id checkpointId cs

namespace WorkspaceState

variable (s : WorkspaceState)

/-- The number that the next applied change gets. -/
def nextSequence : ℕ :=
  max s.nextAppliedSequence ((s.applied.rows.map fun row => row.2.appliedSequence).foldl max 0) + 1

def registerApplied (id : String) (patch : PendingPatch) (messageId checkpointId : String) (now : ℕ) :
    WorkspaceState :=
  { s with
    nextAppliedSequence := s.nextSequence
    checkpoints := pushChange messageId id checkpointId s.checkpoints
    applied := s.applied.put (id,{ patch with appliedSequence := s.nextSequence, appliedAtMs := now }) }

/-- What `mark_checkpoint_change_removed` makes of a checkpoint. -/
def markRemoved (changeId : String) (now : ℕ) (c : WorkspaceCheckpoint) : WorkspaceCheckpoint :=
  if changeId ∉ c.changeIds then c
  else if s.remaining c = 0 then { c with status := .rolledBack, rolledBackAtMs := some now }
  else if s.remaining c < c.changeIds.length then { c with status := .partly, rolledBackAtMs := none }
  else c

def markCheckpointChangeRemoved (changeId : String) (now : ℕ) : WorkspaceState :=
  { s with checkpoints := s.checkpoints.map (s.markRemoved changeId now) }

/-- What the loop of `undo` makes of a checkpoint. -/
def markUndone (now : ℕ) (c : WorkspaceCheckpoint) : WorkspaceCheckpoint :=
  if s.remaining c = 0 then
    { c with status := .rolledBack, rolledBackAtMs := some (c.rolledBackAtMs.getD now) }
  else if s.remaining c < c.changeIds.length then { c with status := .partly }
  else c

/-- The applied changes in the order in which they were applied. -/
def appliedOrder : List String :=
  (s.applied.rows.mergeSort fun left right =>
    decide (left.2.appliedSequence < right.2.appliedSequence ∨
      left.2.appliedSequence = right.2.appliedSequence ∧
        (left.2.appliedAtMs < right.2.appliedAtMs ∨
          left.2.appliedAtMs = right.2.appliedAtMs ∧ left.1 ≤ right.1))).map Prod.fst

/-- `create_workspace_checkpoint`. -/
def createCheckpoint (id : String) : Except String WorkspaceState :=
  if s.applied.rows = [] then .error "当前没有已应用的文件变更，无法创建检查点。"
  else .ok { s with checkpoints := s.checkpoints ++ [⟨id,"",s.appliedOrder,.active,none⟩] }

end WorkspaceState

namespace PendingPatch

variable (patch : PendingPatch)

def touchedPaths : List String := patch.path :: patch.destination.toList

def scopedPath (path : String) : String := scopedWorkspacePath patch.target path

end PendingPatch

structure UndoRequest where
  messageId : String
  checkpointId : String

namespace WorkspaceState

variable (s : WorkspaceState)

/-- A later change outside the plan touches a path of the change. -/
def blocked (patches : List (String × PendingPatch)) (patch : PendingPatch) : Bool :=
  s.applied.rows.any fun later =>
    patch.appliedSequence < later.2.appliedSequence &&
      !(patches.any fun selected => selected.2.appliedSequence = later.2.appliedSequence) &&
      later.2.target = patch.target &&
      later.2.touchedPaths.any fun path => path ∈ patch.touchedPaths

def undoPlan (request : UndoRequest) : Except String (List (String × PendingPatch)) :=
  match s.checkpoints.find? fun c =>
    c.id = request.checkpointId ∧ c.messageId = request.messageId ∧ c.messageId ≠ "" with
  | none => .error "该回复的文件修改记录不存在。"
  | some checkpoint =>
    let patches := checkpoint.changeIds.reverse.filterMap s.applied.find?
    if patches = [] then .error "本轮修改已经撤销。"
    else if patches.any fun entry => s.blocked patches entry.2 then
      .error "后续回复仍有对同一文件的修改，请先撤销后续修改。"
    else .ok patches

end WorkspaceState

/-- The versions of the files, under their scoped names. -/
abbrev Versions := String → Option (Option String)

def fileChanged (path : String) : String := path ++ "：文件在修改后发生变化，未执行撤销。"

/-- One change of `validate_reverse_versions`. -/
def reverseVersion (versions : Versions) (patch : PendingPatch) : Except String Versions :=
  match versions (patch.scopedPath patch.path) with
  | none => .error "缺少文件版本。"
  | some current =>
    if patch.action = .rename then
      match patch.destination with
      | none => .error "重命名缺少目标路径。"
      | some destination =>
        if current.isSome ∨ versions (patch.scopedPath destination) ≠ some patch.before then
          .error (fileChanged patch.path)
        else .ok (Function.update (Function.update versions (patch.scopedPath destination) (some none))
          (patch.scopedPath patch.path) (some patch.before))
    else if current ≠ patch.after then .error (fileChanged patch.path)
    else .ok (Function.update versions (patch.scopedPath patch.path) (some patch.before))

def validateReverseVersions (versions : Versions) : List (String × PendingPatch) → Except String Versions
  | [] => .ok versions
  | entry :: patches => do validateReverseVersions (← reverseVersion versions entry.2) patches

end Mxterm.Workspace
