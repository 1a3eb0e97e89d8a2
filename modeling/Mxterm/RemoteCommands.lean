import Mathlib
import Mxterm.LossyCalls
import Mxterm.SlashPaths
import Mxterm.Utf8
import Mxterm.Values

/-! Files of a remote host, read and changed by shell commands over an SSH session that may break. -/
namespace Mxterm.RemoteCommands

open Execution LossyCalls

/-! ## Commands and the shell that executes them -/

/-- The commands that the file manager builds, with the values quoted into them. -/
inductive Command
  | metadata (path : String)
  | create (path : String)
  | rename (path newPath : String)
  | write (path : String) (content : List UInt8)

structure ExecOutput where
  stdout : List UInt8
  stderr : List UInt8
  exitStatus : Option ℕ

/-- One execution: the time and the process it happens in, and whether it fails for a reason that lies outside the
files, such as a full disk. -/
structure Occasion where
  moment : ℕ
  fails : Bool
  message : List UInt8
  code : ℕ
  deriving Inhabited

/-- The files of a host, and what the shell's programs do to them; a program that fails leaves them as they were.
`created` is the redirection to a name that does not exist, `moved` is `mv`, and `saved` puts a temporary with the
  content
in the place of the file. -/
structure Shell (φ : Type) where
  isThere : φ → String → Bool
  isRegular : φ → String → Bool
  stat : φ → String → List UInt8
  created : ℕ → φ → String → Option φ
  moved : ℕ → φ → String → String → Option φ
  saved : ℕ → φ → String → List UInt8 → Option φ
  created_there : ∀ {moment files path files'}, created moment files path = some files' → isThere files' path
  moved_away : ∀ {moment files path newPath files'}, moved moment files path newPath = some files' →
    ∀ later, moved later files' path newPath = none
  saved_again : ∀ {moment files path content files'}, isRegular files path →
    saved moment files path content = some files' → ∀ later files'', saved later files' path content = some files'' →
    saved later files path content = some files''

variable {φ : Type} (shell : Shell φ)

/-- The effect of a command that succeeds. -/
def effect (moment : ℕ) (files : φ) : Command → Option φ
  | .metadata path => if shell.isRegular files path then some files else none
  | .create path => if shell.isThere files path then none else shell.created moment files path
  | .rename path newPath => shell.moved moment files path newPath
  | .write path content => shell.saved moment files path content

def attempted (x : Occasion) (command : Command) (files : φ) : Option φ :=
  if x.fails then none else effect shell x.moment files command

/-- What a command that succeeded has printed. -/
def printed (files : φ) : Command → List UInt8
  | .metadata path => shell.stat files path
  | _ => []

def perform (command : Command) (x : Occasion) (files : φ) : ExecOutput × φ :=
  match attempted shell x command files with
  | some files' => (⟨printed shell files' command,[],some 0⟩,files')
  | none => (⟨[],x.message,some (x.code + 1)⟩,files)

/-! ## The file manager -/

/-- Why a request fails: the connection, a command, or a file that has changed. -/
inductive Failure
  | connection
  | command (error : AppError)
  | conflict (error : AppError)

abbrev Remote (φ α : Type) := EStateM Failure (World Occasion φ) α

/-- `exec_with_reconnect` and `exec_with_reconnect_stdin`: whatever error the session reports, the command is sent once
more over a new session. -/
def execWithReconnect (command : Command) : Remote φ ExecOutput := callAgain .connection (perform shell command)

def remoteFileCommandError (code message : String) (output : ExecOutput) : AppError :=
  let stderr := Text.trim (Utf8.decodeLossy output.stderr)
  ⟨code,message,if stderr = "" then Text.trim (Utf8.decodeLossy output.stdout) else stderr,true⟩

/-- A command whose exit status is not zero fails the request. -/
def execChecked (command : Command) (code message : String) : Remote φ ExecOutput :=
  execWithReconnect shell command >>= fun output =>
    if output.exitStatus = some 0 then pure output
    else throw (.command (remoteFileCommandError code message output))

structure RemoteFileMetadata where
  name : String
  path : String
  size : ℕ
  mtime : ℕ
  mode : Option String
  deriving DecidableEq

/-- `parse::<u64>` -/
def parseU64 (text : String) : Option ℕ :=
  let digits := if text.toList.head? = some '+' then text.toList.tail else text.toList
  let value := digits.foldl (fun n c => 10 * n + (c.toNat - '0'.toNat)) 0
  if digits ≠ [] ∧ (∀ c ∈ digits, c.isDigit) ∧ value < 2 ^ 64 then some value else none

def remoteFileName (path : String) : String := ((SlashPaths.segments path).getLast?).getD path

def parseRemoteFileMetadata (output : List UInt8) : Option RemoteFileMetadata :=
  match output.splitOn 0 with
  | path :: size :: mtime :: rest => do
    let path := Utf8.decodeLossy path
    let size ← parseU64 (Text.trim (Utf8.decodeLossy size))
    let mtime ← parseU64 (Text.trim (Utf8.decodeLossy mtime))
    let mode := Text.trim (Utf8.decodeLossy (rest.head?.getD []))
    some ⟨remoteFileName path,path,size,mtime,if mode = "" then none else some mode⟩
  | _ => none

def parsedMetadata (output : ExecOutput) : Remote φ RemoteFileMetadata :=
  match parseRemoteFileMetadata output.stdout with
  | some metadata => pure metadata
  | none => throw (.command ⟨"remote_file_metadata_parse_failed","远程文件信息解析失败。",
      Utf8.decodeLossy output.stdout,true⟩)

def metadata (path : String) : Remote φ RemoteFileMetadata :=
  execChecked shell (.metadata path) "remote_file_metadata_failed" "远程文件信息读取失败。" >>= parsedMetadata

def createFile (path : String) : Remote φ RemoteFileMetadata :=
  execChecked shell (.create path) "remote_file_create_failed" "远程文件创建失败。" >>= fun _ => metadata shell path

def renameEntry (path newPath : String) : Remote φ Unit :=
  execChecked shell (.rename path newPath) "remote_file_rename_failed" "远程条目重命名失败。" >>= fun _ => pure ()

def remoteFileConflict (expectedMtime expectedSize : ℕ) (current : RemoteFileMetadata) : AppError :=
  ⟨"remote_file_conflict","远端文件已变化。",
    s!"expected size={expectedSize} mtime={expectedMtime}, current size={current.size} mtime={current.mtime}",true⟩

structure RemoteFileWriteResult where
  metadata : RemoteFileMetadata
  conflict : Bool
  deriving DecidableEq

/-- The file differs from the one that was read, and is not to be overwritten. -/
def Refused (expectedMtime expectedSize : ℕ) (overwrite : Bool) (current : RemoteFileMetadata) : Prop :=
  (current.mtime ≠ expectedMtime ∨ current.size ≠ expectedSize) ∧ overwrite = false

instance (expectedMtime expectedSize : ℕ) (overwrite : Bool) (current : RemoteFileMetadata) :
    Decidable (Refused expectedMtime expectedSize overwrite current) := by
  unfold Refused
  infer_instance

def writeFile (path : String) (content : List UInt8) (expectedMtime expectedSize : ℕ) (overwrite : Bool) :
    Remote φ RemoteFileWriteResult :=
  metadata shell path >>= fun current =>
    if Refused expectedMtime expectedSize overwrite current then
      throw (.conflict (remoteFileConflict expectedMtime expectedSize current))
    else
      execChecked shell (.write path content) "remote_file_write_failed" "远程文件保存失败。" >>= fun _ =>
        metadata shell path >>= fun metadata => pure ⟨metadata,false⟩

/-! ## Requests -/

inductive Request
  | create (path : String)
  | rename (path newPath : String)
  | write (path : String) (content : List UInt8) (expectedMtime expectedSize : ℕ) (overwrite : Bool)

inductive Answer
  | created (metadata : RemoteFileMetadata)
  | renamed
  | written (result : RemoteFileWriteResult)

def Request.run : Request → Remote φ Answer
  | .create path => createFile shell path >>= fun metadata => pure (.created metadata)
  | .rename path newPath => renameEntry shell path newPath >>= fun _ => pure .renamed
  | .write path content expectedMtime expectedSize overwrite =>
    writeFile shell path content expectedMtime expectedSize overwrite >>= fun result => pure (.written result)

/-- The command that changes the files. -/
def Request.command : Request → Command
  | .create path => .create path
  | .rename path newPath => .rename path newPath
  | .write path content _ _ _ => .write path content

/-- A result other than a failed connection is that of a run in which every command is executed once and answered, and
so are the files. -/
def OwnResult (request : Request) (w : World Occasion φ) : Prop :=
  (∀ files, seen (request.run shell w) ≠ (.error .connection,files)) →
    Once (request.run shell) w.store (seen (request.run shell w))

/-- The world in which the changing command is sent, if it is sent at all: a file to be written is looked at first. -/
def Request.sending : Request → World Occasion φ → Option (World Occasion φ)
  | .write path _ expectedMtime expectedSize overwrite, w =>
    match metadata shell path w with
    | .ok current w' => if Refused expectedMtime expectedSize overwrite current then none else some w'
    | .error _ _ => none
  | _, w => some w

/-- The answer to the first attempt is lost after the command has changed the files, and the second one, which is
answered, fails. -/
def EffectLost (command : Command) (w : World Occasion φ) : Prop :=
  ∃ x y files, w.attempts 0 = .lost (some x) ∧ w.attempts 1 = .answered y ∧
    attempted shell x command w.store = some files ∧ files ≠ w.store ∧ attempted shell y command files = none

/-- The changing command is not sent in such a world. -/
def EffectKnown (request : Request) (w : World Occasion φ) : Prop :=
  ∀ v ∈ request.sending shell w, ¬EffectLost shell request.command v

end Mxterm.RemoteCommands
