import Mathlib.Data.List.DropRight
import Mxterm.SftpTransfers
import Mxterm.ListedTrees
import Mxterm.PathSteps

/-! The download of a directory (`download_directory_to_local_sftp` of `remote_files.rs` and `download_directory_inner`
  of
`mcp.rs`): what is planned, and the local paths at which it is written. -/
namespace Mxterm.SftpTransfers

open FileTrees SlashPaths ListedTrees

/-- What a server says of an entry that is no directory: a file with its length and what a transfer of it brings, or
something else. -/
inductive RemoteEntry
  | file (size : ℕ) (content : Bytes)
  | other

structure RemoteTransferFile where
  remotePath : String
  relativePath : String
  size : ℕ
  content : Bytes

structure RemoteTransferPlan where
  directories : List String
  files : List RemoteTransferFile
  totalBytes : ℕ

def joinRelativePath (parent name : String) : String := if parent = "" then name else parent ++ "/" ++ name

def trimEndSlashes (path : String) : String := String.ofList (path.toList.rdropWhile (· = '/'))

/-- A remote path and the relative one. -/
def joinRemoteEntry (place : String × String) (name : String) : String × String :=
  (entryPath place.1 name,joinRelativePath place.2 name)

def archiveDownloadFailed (message : String) : TransferError := ⟨"remote_file_archive_download_failed",message⟩

def remoteTransferFile : (String × String) × RemoteEntry → Option RemoteTransferFile
  | (place,.file size content) => some ⟨place.1,place.2,size,content⟩
  | (_,.other) => none

def buildRemoteTransferPlan (rootPath : String) : ListedTree RemoteEntry → Except TransferError RemoteTransferPlan
  | .leaf _ => .error (archiveDownloadFailed "远程路径不是目录。")
  | .directory entries =>
    let visited := visited joinRemoteEntry queue [((trimEndSlashes rootPath,""),entries)]
    let files := visited.flatMap fun directory =>
      (leaves joinRemoteEntry directory.1 directory.2).filterMap remoteTransferFile
    if (files.map RemoteTransferFile.size).sum < 2 ^ 64 then
      .ok {
        directories := (visited.flatMap fun directory =>
          (subdirectories joinRemoteEntry directory.1 directory.2).map fun inner => inner.1.2).mergeSort (· ≤ ·)
        files := files.mergeSort (·.relativePath ≤ ·.relativePath)
        totalBytes := (files.map RemoteTransferFile.size).sum
      }
    else .error (archiveDownloadFailed "远程目录过大。")

def localRelativePath (root relativePath : String) : String := (segments relativePath).foldl push root

/-- A directory is created with those above it, or a file is written. -/
inductive Write
  | directory (path : String)
  | file (path : String)

def Write.path : Write → String
  | .directory path => path
  | .file path => path

/-- The writes of `download_sftp_file`: the directory of the file, the part file, and the file. -/
def downloadWrites (path : String) : List Write :=
  (parentOf path).toList.map .directory ++ [.file (path ++ ".mxpart"),.file path]

/-- The writes of `download_directory_to_local_sftp`, each of which may fail and end the download. -/
def directoryWrites (target : String) (plan : RemoteTransferPlan) : List Write :=
  .directory target :: (plan.directories.map fun relativePath => .directory (localRelativePath target relativePath)) ++
    plan.files.flatMap fun file => downloadWrites (localRelativePath target file.relativePath)

/-- A remote path and the local one, in `download_directory_inner`. -/
def joinMcpEntry (place : String × String) (name : String) : String × String :=
  (trimEndSlashes place.1 ++ "/" ++ name,push place.2 name)

def mcpVisited (remotePath localPath : String) (entries : Entries RemoteEntry) :
    List ((String × String) × Entries RemoteEntry) :=
  visited joinMcpEntry stack [((remotePath,localPath),entries)]

/-- The files that `download_directory_inner` downloads: all that is no directory. -/
def mcpFiles (directory : (String × String) × Entries RemoteEntry) : List (String × String) :=
  (leaves joinMcpEntry directory.1 directory.2).map Prod.fst

def mcpWrites (remotePath localPath : String) (entries : Entries RemoteEntry) : List Write :=
  (mcpVisited remotePath localPath entries).flatMap fun directory =>
    .directory directory.1.2 :: (mcpFiles directory).flatMap fun file => downloadWrites file.2

end Mxterm.SftpTransfers
