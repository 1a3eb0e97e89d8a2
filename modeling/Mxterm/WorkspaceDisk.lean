import Mathlib.Data.List.Infix
import Mxterm.Values

/-! The files under the agent's workspace tools (`ai_workspace.rs`, and the commands of
`remote_files.rs` on an SSH host): how a path is resolved, read with its version, and written. -/
namespace Mxterm.Workspace

/-- The components of a real absolute path. -/
abbrev FilePath := List String

inductive Node
  | text (content : String)
  /-- A file whose bytes are no UTF-8 text. -/
  | binary (bytes : List UInt8)
  | directory
  deriving DecidableEq

abbrev Disk := FilePath → Option Node

namespace Disk

def put (d : Disk) (path : FilePath) (node : Option Node) : Disk := Function.update d path node

@[simp] theorem put_self (d : Disk) (path : FilePath) (node : Option Node) :
    d.put path node path = node := by simp [put]

theorem put_of_ne (d : Disk) {path other : FilePath} (h : other ≠ path) (node : Option Node) :
    d.put path node other = d other := by simp [put,h]

end Disk

/-- `MAX_SEARCH_FILE_BYTES`, and `REMOTE_FILE_EDIT_LIMIT_BYTES` for a file on the host. -/
def maxFileBytes : ℕ := 2 * 1024 * 1024

def textBytes (content : String) : ℕ := (content.toList.map Char.utf8Size).sum

/-- A zero byte among the first 8192. -/
def zeroInHead : List Char → ℕ → Bool
  | [], _ => false
  | c :: cs, offset => offset < 8192 && (c.toNat == 0 || zeroInHead cs (offset + c.utf8Size))

def Node.bytes : Node → ℕ
  | .text content => textBytes content
  | .binary bytes => bytes.length
  | .directory => 0

def Node.looksBinary : Node → Bool
  | .text content => zeroInHead content.toList 0
  | .binary bytes => (bytes.take 8192).any (· == 0)
  | .directory => false

/-- The texts of the errors that reading a file gives. -/
structure ReadErrors where
  notFile : String
  tooLarge : String
  binary : String

/-- `read_local_file`. -/
def localErrors : ReadErrors :=
  ⟨"目标路径不是文件。","文件超过 Agent 单文件读取上限。","二进制文件不能直接交给编码 Agent 编辑。"⟩

/-- `RemoteFileManager::read_file`. -/
def remoteErrors : ReadErrors :=
  ⟨"远程文件信息读取失败。","文件超过 2 MB，已阻止直接编辑。","二进制文件不能直接编辑。"⟩

def Node.read (errors : ReadErrors) (node : Node) : Except String String :=
  match node with
  | .directory => .error errors.notFile
  | file =>
    if maxFileBytes < file.bytes then .error errors.tooLarge
    else if file.looksBinary then .error errors.binary
    else match file with
      | .text content => .ok content
      | _ => .error "文件不是 UTF-8 文本。"

/-- A text that can be read back where it was written. -/
def Readable (content : String) : Prop :=
  textBytes content ≤ maxFileBytes ∧ zeroInHead content.toList 0 = false

theorem read_ok {errors : ReadErrors} {node : Node} {content : String} :
    node.read errors = .ok content ↔ node = .text content ∧ Readable content := by
  cases node with
  | directory => simp [Node.read]
  | binary bytes => simp only [Node.read]; split <;> (try split) <;> simp
  | text s =>
    simp only [Node.read,Node.bytes,Node.looksBinary,Readable]
    by_cases hsize : maxFileBytes < textBytes s
    · simp only [hsize,if_true,reduceCtorEq,Node.text.injEq,false_iff]
      rintro ⟨rfl,hle,-⟩
      exact absurd hsize (Nat.not_lt_of_le hle)
    · by_cases hzero : zeroInHead s.toList 0
      · simp only [hsize,hzero,if_true,if_false,reduceCtorEq,Node.text.injEq,false_iff]
        rintro ⟨rfl,-,hno⟩
        simp [hzero] at hno
      · simp only [hsize,hzero,if_false,Bool.false_eq_true,Except.ok.injEq,Node.text.injEq]
        constructor
        · rintro rfl
          exact ⟨rfl,Nat.le_of_not_lt hsize,by simpa using hzero⟩
        · exact And.left

/-- Where the agent works: its local directory and its directory on the host. Which real path a path
leads to comes from the links and directories, which no operation of the agent changes. -/
structure Roots where
  root : FilePath
  real : List String → Option FilePath
  workingDirectory : Option String
  remoteReal : String → FilePath

def components (path : String) : List String :=
  ((path.toList.splitOn '/').map String.ofList).filter fun name => name ≠ "" ∧ name ≠ "."

namespace Roots

variable (w : Roots)

/-- `resolve_workspace_path`. -/
def resolve (requested : String) : Except String FilePath :=
  let requested := Text.trim requested
  if requested = "" then .error "文件路径不能为空。"
  else
    let candidate := if requested.toList.head? = some '/' then components requested
      else w.root ++ components requested
    match w.real candidate with
    | none => .error "文件路径无法解析。"
    | some path => .ok path

def pathText (path : List String) : String := "/".intercalate path

/-- `display_path`: relative to the directory where the path lies under it. -/
def displayPath (path : FilePath) : String :=
  let shown := if w.root <+: path then pathText (path.drop w.root.length) else "/" ++ pathText path
  String.ofList (shown.toList.map fun c => if c = '\\' then '/' else c)

def normalize (requested : String) : Except String String := do
  return w.displayPath (← w.resolve requested)

/-- `resolve_remote_workspace_path`. -/
def resolveRemote (requested : String) : Except String String :=
  let requested := Text.trim requested
  let control := fun text : String => text.toList.any fun c => c.toNat == 0 || c == '\n' || c == '\r'
  if requested = "" ∨ control requested then .error "远程文件路径不能为空或包含控制字符。"
  else if requested.toList.head? = some '/' then .ok requested
  else match w.workingDirectory.filter fun root => root.toList.head? = some '/' ∧ ¬ control root with
    | none => .error "SSH 默认工作目录不可用。"
    | some root => .ok (String.ofList (root.toList.rdropWhile (· = '/')) ++ "/" ++ requested)

def readVersion (d : Disk) (requested : String) : Except String (Option String) := do
  let path ← w.resolve requested
  match d path with
  | none => return none
  | some node => return some (← node.read localErrors)

end Roots

def hasCrlf : List Char → Bool
  | '\r' :: '\n' :: _ => true
  | _ :: cs => hasCrlf cs
  | [] => false

/-- What a write stores: the line ends of the file where the new text has no such ends. -/
def contentToWrite (before : Option String) (after : String) : String :=
  if before.any (hasCrlf ·.toList) ∧ ¬ hasCrlf after.toList then
    String.ofList (after.toList.flatMap fun c => if c = '\n' then ['\r','\n'] else [c])
  else after

/-- `create_dir_all`: it fails where a file stands in the way. -/
def createDirAll (d : Disk) (directory : FilePath) : Option Disk :=
  if ∀ path ∈ directory.inits, d path = none ∨ d path = some .directory then
    some fun path => if path ∈ directory.inits ∧ d path = none then some .directory else d path
  else none

namespace Roots

variable (w : Roots)

def writeVersion (d : Disk) (requested : String) (before : Option String) (after : String) :
    Except String Disk :=
  if maxFileBytes < textBytes after then .error "文件超过 2 MiB。"
  else do
    let path ← w.resolve requested
    if (← w.readVersion d requested) ≠ before then .error "文件已经变化，请重新读取并生成 diff。"
    else if path = [] then .error "文件所在目录无法解析。"
    else match createDirAll d path.dropLast with
      | none => .error "创建文件目录失败。"
      | some made => do
        if (← w.readVersion made requested) ≠ before then .error "审批期间文件或路径发生变化。"
        else .ok (made.put path (some (.text (contentToWrite before after))))

/-- `remove_file` at a resolved path. -/
def removeFile (d : Disk) (requested : String) : Except String Disk := do
  let path ← w.resolve requested
  match d path with
  | some (.text _) | some (.binary _) => .ok (d.put path none)
  | _ => .error "No such file"

/-- `rename` between two resolved paths: what stands at the target is replaced. -/
def rename (d : Disk) (source target : String) : Except String Disk := do
  let source ← w.resolve source
  let target ← w.resolve target
  match d source with
  | none | some .directory => .error "No such file"
  | some node =>
    if d target = some .directory ∨ d target.dropLast ≠ some .directory ∨ target = [] then
      .error "Not a directory"
    else .ok ((d.put source none).put target (some node))

end Roots

/-- The files of an SSH host, with their modification times in seconds. -/
structure Host where
  disk : Disk
  mtime : FilePath → ℕ

namespace Host

variable (h : Host)

/-- The time and the size that tell the versions of a regular file apart. -/
def metadata (path : FilePath) : Except String (ℕ × ℕ) :=
  match h.disk path with
  | none | some .directory => .error "远程文件信息读取失败。"
  | some file => .ok (h.mtime path,file.bytes)

def readFile (path : FilePath) : Except String (String × ℕ × ℕ) := do
  let version ← h.metadata path
  match h.disk path with
  | none => .error "远程文件读取失败。"
  | some node => return (← node.read remoteErrors,version)

def store (path : FilePath) (node : Node) (time : ℕ) : Host where
  disk := h.disk.put path (some node)
  mtime := Function.update h.mtime path time

def remove (path : FilePath) : Host := { h with disk := h.disk.put path none }

def writeFile (path : FilePath) (content : String) (expected : ℕ × ℕ) (now : ℕ) : Except String Host := do
  let current ← h.metadata path
  if current ≠ expected then .error "远端文件已变化。"
  else return h.store path (.text content) now

def createFile (path : FilePath) (now : ℕ) : Except String Host :=
  if h.disk path ≠ none ∨ path = [] ∨ h.disk path.dropLast ≠ some .directory then
    .error "远程文件创建失败。"
  else .ok (h.store path (.text "") now)

/-- Where `cp` and `mv` put a file: into the target where that is a directory. -/
def landing (source target : FilePath) : FilePath :=
  if h.disk target = some .directory then target ++ (source.getLast?).toList else target

/-- `cp -p -- source target` ends with status zero. -/
def copy (source target : FilePath) : Option Host :=
  let target := h.landing source target
  match h.disk source with
  | none | some .directory => none
  | some node =>
    if target = [] ∨ h.disk target = some .directory ∨ h.disk target.dropLast ≠ some .directory then none
    else some (h.store target node (h.mtime source))

/-- `mv -- source target` of a file. -/
def move (source target : FilePath) : Option Host :=
  let target := h.landing source target
  match h.disk source with
  | none | some .directory => none
  | some node =>
    if target = [] ∨ h.disk target = some .directory ∨ h.disk target.dropLast ≠ some .directory then none
    else some ((h.remove source).store target node (h.mtime source))

/-- `rm -f -- path`. -/
def removeForce (path : FilePath) : Option Host :=
  if h.disk path = some .directory then none else some (h.remove path)

end Host

end Mxterm.Workspace
