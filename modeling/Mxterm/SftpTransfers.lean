import Mxterm.FaultyOperations
import Mxterm.FileTrees
import Mxterm.SlashPaths

/-! The transfer of one file over SFTP, which is resumed where an earlier one was interrupted
(`upload_sftp_file` and `download_sftp_file` of `remote_files.rs`). -/
namespace Mxterm.SftpTransfers

open Faults FileTrees SlashPaths

structure TransferError where
  code : String
  message : String
  deriving DecidableEq

/-- An action on the tree of the side that is written. -/
abbrev Transfer := EStateM TransferError (World FileTree)

def uploadFailed (message : String) : TransferError := ⟨"remote_file_upload_failed",message⟩
def downloadFailed (message : String) : TransferError := ⟨"remote_file_download_failed",message⟩
def writeFailed (message : String) : TransferError := ⟨"remote_file_download_write_failed",message⟩

def remoteTransferPartPath (path : String) : String := path ++ ".mxpart"

/-- The local path is the list of its names. -/
def localDownloadPartPath (path : Path) : Path := path.dropLast ++ [path.getLastD "" ++ ".mxpart"]

def resumeOffsetForPartial (partialBytes totalBytes : ℕ) : ℕ :=
  if partialBytes ≤ totalBytes then partialBytes else 0

def nextTransferReadLen (loadedBytes totalBytes bufferLen : ℕ) : ℕ := min (totalBytes - loadedBytes) bufferLen

def sftpTransferChunkBytes : ℕ := 256 * 1024

/-- The length that is reported. What it is for a directory is the file system's matter. -/
def reportedLength : Node → ℕ
  | .file content => content.length
  | .directory => 4096

/-- An operation that touches no file of the written side. -/
def touch (error : TransferError) : Transfer Unit := orFail error (look FileError.other fun _ => .ok ())

def ensureNotCancelled : Transfer Unit := touch ⟨"remote_file_transfer_canceled","传输已取消。"⟩

def attemptChange (f : FileTree → Except FileError FileTree) (midway : ℕ → FileTree → FileTree) :
    Transfer (Except FileError Unit) := perform FileError.other f midway

def change (error : TransferError) (f : FileTree → Except FileError FileTree) : Transfer Unit :=
  orFail error (attemptChange f fun _ t => t)

def ignoreSftpNotFound : Except FileError Unit → Transfer Unit
  | .ok _ => pure ()
  | .error .missing => pure ()
  | .error .other => throw ⟨"remote_file_transfer_failed","远程文件操作失败。"⟩

/-- How much of the part file is there. -/
def existingPartBytes (error : TransferError) (part : Path) : Transfer ℕ :=
  look FileError.other (fun t => t.read part) >>= fun
    | .ok node => pure (reportedLength node)
    | .error .missing => pure 0
    | .error .other => throw error

/-- Some bytes are written, and all of them if the operation succeeds. -/
def writeChunk (error : TransferError) (part : Path) (offset : ℕ) (bytes : Bytes) : Transfer Unit :=
  orFail error (attemptChange (fun t => t.writeAt part offset bytes) fun n t =>
    (t.writeAt part offset (bytes.take n)).toOption.getD t)

/-- The loop of an upload, with what is still to be read of the local file. -/
def uploadChunks (part : Path) : ℕ → Bytes → ℕ → Transfer Unit
  | 0, _, _ => ensureNotCancelled >>= fun _ => touch ⟨"remote_file_upload_local_read_failed","本地上传文件读取失败。"⟩
  | n + 1, rest, loaded =>
    ensureNotCancelled >>= fun _ =>
    orFail ⟨"remote_file_upload_local_read_failed","本地上传文件读取失败。"⟩
      (draw FileError.other (min sftpTransferChunkBytes rest.length)) >>= fun read =>
    if read = 0 then pure ()
    else
      writeChunk (uploadFailed "远程文件上传失败。") part loaded (rest.take read) >>= fun _ =>
      uploadChunks part n (rest.drop read) (loaded + read)

/-- What follows the transfer of the bytes: the part file takes the place of the final one. -/
def replaceRemote (part final : Path) : Transfer Unit :=
  attemptChange (·.removeFile final) (fun _ t => t) >>= fun removed =>
  ignoreSftpNotFound removed >>= fun _ =>
  change (uploadFailed "远程临时文件重命名失败。") (·.rename part final)

/-- The transfer of the bytes into the part file. -/
def fillRemotePart (source : Bytes) (part : Path) (totalBytes : ℕ) : Transfer Unit :=
  existingPartBytes (uploadFailed "远程临时文件信息读取失败。") part >>= fun existing =>
  Execution.runIf (totalBytes < existing)
    (attemptChange (·.removeFile part) (fun _ t => t) >>= ignoreSftpNotFound) >>= fun _ =>
  touch ⟨"remote_file_upload_local_open_failed","本地上传文件打开失败。"⟩ >>= fun _ =>
  Execution.runIf (0 < resumeOffsetForPartial existing totalBytes)
    (touch ⟨"remote_file_upload_local_seek_failed","本地上传文件续传定位失败。"⟩) >>= fun _ =>
  change (uploadFailed "远程文件上传失败。") (·.openFile part (resumeOffsetForPartial existing totalBytes = 0)) >>= fun _ =>
  Execution.runIf (0 < resumeOffsetForPartial existing totalBytes)
    (touch (uploadFailed "远程临时文件续传定位失败。")) >>= fun _ =>
  uploadChunks part (source.drop (resumeOffsetForPartial existing totalBytes)).length
    (source.drop (resumeOffsetForPartial existing totalBytes)) (resumeOffsetForPartial existing totalBytes) >>= fun _ =>
  touch ⟨"remote_file_upload_confirm_failed","远程文件上传确认失败。"⟩

def uploadSftpFile (home : Path) (source : Bytes) (finalRemotePath : String) (totalBytes : ℕ) : Transfer Unit :=
  fillRemotePart source (locate home (remoteTransferPartPath finalRemotePath)) totalBytes >>= fun _ =>
  replaceRemote (locate home (remoteTransferPartPath finalRemotePath)) (locate home finalRemotePath)

/-- The loop of a download, with what is still to come of the remote file. -/
def downloadChunks (part : Path) (totalBytes : ℕ) : ℕ → Bytes → ℕ → Transfer ℕ
  | 0, _, loaded => pure loaded
  | n + 1, rest, loaded =>
    if loaded < totalBytes then
      ensureNotCancelled >>= fun _ =>
      orFail (downloadFailed "远程文件下载失败。") (draw FileError.other
        (min (nextTransferReadLen loaded totalBytes sftpTransferChunkBytes) rest.length)) >>= fun read =>
      if read = 0 then throw (downloadFailed "远程文件提前结束。")
      else
        writeChunk (writeFailed "本地文件写入失败。") part loaded (rest.take read) >>= fun _ =>
        downloadChunks part totalBytes n (rest.drop read) (loaded + read)
    else pure loaded

def createLocalDirectories (directory : Path) : Transfer Unit :=
  orFail ⟨"remote_file_download_create_dir_failed","本地下载目录创建失败。"⟩
    (attemptChange (·.createAll directory) fun n t => (t.createAll (directory.take n)).toOption.getD t)

def fillLocalPart (source : Bytes) (part : Path) (totalBytes : ℕ) : Transfer Unit :=
  existingPartBytes (writeFailed "本地临时文件信息读取失败。") part >>= fun existing =>
  Execution.runIf (totalBytes < existing)
    (attemptChange (·.removeFile part) (fun _ t => t) >>= fun _ => pure ()) >>= fun _ =>
  touch (downloadFailed "远程文件下载失败。") >>= fun _ =>
  Execution.runIf (0 < resumeOffsetForPartial existing totalBytes)
    (touch (downloadFailed "远程文件续传定位失败。")) >>= fun _ =>
  change (writeFailed "本地临时文件打开失败。") (·.openFile part (resumeOffsetForPartial existing totalBytes = 0)) >>= fun _ =>
  Execution.runIf (0 < resumeOffsetForPartial existing totalBytes)
    (touch (writeFailed "本地临时文件续传定位失败。")) >>= fun _ =>
  downloadChunks part totalBytes (totalBytes - resumeOffsetForPartial existing totalBytes)
    (source.drop (resumeOffsetForPartial existing totalBytes)) (resumeOffsetForPartial existing totalBytes) >>= fun
      loaded =>
  if loaded ≠ totalBytes then throw (downloadFailed "远程文件下载不完整。")
  else touch (writeFailed "本地文件刷新失败。")

def replaceLocal (part final : Path) : Transfer Unit :=
  look FileError.other (fun t => .ok ((t.node final).isSome)) >>= fun found =>
  Execution.runIf (found.toOption.getD false = true)
    (attemptChange (·.removeFile final) (fun _ t => t) >>= fun _ => pure ()) >>= fun _ =>
  change (writeFailed "本地临时文件重命名失败。") (·.replaceFile part final)

def downloadSftpFile (source : Bytes) (finalLocalPath : Path) (totalBytes : ℕ) : Transfer Unit :=
  Execution.runIf (finalLocalPath ≠ []) (createLocalDirectories finalLocalPath.dropLast) >>= fun _ =>
  fillLocalPart source (localDownloadPartPath finalLocalPath) totalBytes >>= fun _ =>
  replaceLocal (localDownloadPartPath finalLocalPath) finalLocalPath

/-- An upload to a path of the server, which a session enters in its home directory, or a download. -/
inductive Direction
  | upload (home : Path) (path : String)
  | download (path : Path)

namespace Direction

def transfer : Direction → Bytes → Transfer Unit
  | .upload home path, source => uploadSftpFile home source path source.length
  | .download path, source => downloadSftpFile source path source.length

def part : Direction → Path
  | .upload home path => locate home (remoteTransferPartPath path)
  | .download path => localDownloadPartPath path

def final : Direction → Path
  | .upload home path => locate home path
  | .download path => path

end Direction

/-- A call, with the content of the source during it and how its operations go. -/
structure Call where
  source : Bytes
  events : List Event

/-- What one call after the other leaves. -/
def runCalls (d : Direction) (t : FileTree) : List Call → FileTree
  | [] => t
  | call :: calls => runCalls d (Execution.after (d.transfer call.source) ⟨t,call.events⟩).store calls

end Mxterm.SftpTransfers
