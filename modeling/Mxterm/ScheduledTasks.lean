import Mxterm.Base64
import Mxterm.TextLines
import Mxterm.Utf8

/-! Scheduled tasks (`scheduled_tasks.rs`). The tasks of a host stand in its crontab: each one is a block of
comment lines, with its fields, around the line that cron runs. -/
namespace Mxterm.ScheduledTasks

def crontabBegin : String := "# MXTERM-SCHEDULE-BEGIN"
def crontabEnd : String := "# MXTERM-SCHEDULE-END"

structure ScheduledTaskInput where
  id : Option String
  name : String
  cron : String
  command : String
  enabled : Bool

structure ScheduledTaskRecord where
  id : String
  name : String
  cron : String
  command : String
  enabled : Bool
  updatedAt : String
  deriving DecidableEq

inductive CrontabSegment
  | raw (lines : List String)
  | task (record : ScheduledTaskRecord)

structure CrontabDocument where
  segments : List CrontabSegment

/-! ## Values -/

def requireValue (value code message : String) : Except AppError String :=
  if Text.trim value = "" then .error ⟨code,message,"value is empty",true⟩ else .ok (Text.trim value)

def invalidBlockError (line : ℕ) (detail : String) : AppError :=
  ⟨"scheduled_task_crontab_invalid","定时任务管理块格式无效，已停止写回以避免破坏 crontab。",
    s!"line {line}: {detail}",true⟩

def taskMissingError (rawMessage : String) : AppError :=
  ⟨"scheduled_task_missing","定时任务不存在或已被删除。",rawMessage,true⟩

/-- The seconds since the epoch, or what is wrong with the clock. -/
def nowTimestamp : Except String ℕ → Except AppError String
  | .ok seconds => .ok (toString seconds)
  | .error error => .error ⟨"scheduled_task_clock_invalid","系统时间异常。",error,false⟩

def cronMacros : List String := ["@hourly","@daily","@weekly","@monthly","@reboot"]

def validateCron (value : String) : Except AppError String :=
  match requireValue value "scheduled_task_cron_missing" "请输入 cron 表达式。" with
  | .error e => .error e
  | .ok value =>
    if '\n' ∈ value.toList ∨ '\r' ∈ value.toList ∨ '\x00' ∈ value.toList then
      .error ⟨"scheduled_task_cron_invalid","cron 表达式格式无效。","cron contains control characters",true⟩
    else if Text.startsWith value "@" then
      if value ∈ cronMacros then .ok value
      else .error ⟨"scheduled_task_cron_invalid",
        "仅支持 @hourly、@daily、@weekly、@monthly、@reboot 或 5 段 cron 表达式。",value,true⟩
    else if (Text.splitWhitespace value).length ≠ 5 then
      .error ⟨"scheduled_task_cron_invalid","cron 表达式需要 5 段时间字段。",value,true⟩
    else .ok value

def validateCommand (value : String) : Except AppError Unit :=
  if '\x00' ∈ value.toList then
    .error ⟨"scheduled_task_command_invalid","命令内容包含无效字符。","command contains NUL",true⟩
  else .ok ()

def isTaskIdChar (c : Char) : Bool := c.isAlphanum || c = '-' || c = '_'

def normalizeTaskId (value : String) : Except AppError String :=
  match requireValue value "scheduled_task_id_missing" "定时任务标识缺失。" with
  | .error e => .error e
  | .ok value =>
    if 96 < value.utf8ByteSize ∨ ¬ value.toList.all isTaskIdChar then
      .error ⟨"scheduled_task_id_invalid","定时任务标识无效。",value,true⟩
    else .ok value

/-- The identifier of an input: a blank one is replaced by a new one. -/
def inputId (uuid : Uuid) (input : ScheduledTaskInput) : Except AppError String :=
  match (input.id.map Text.trim).filter (· ≠ "") with
  | some value => normalizeTaskId value
  | none => .ok uuid.toString

def normalizeTaskInput (uuid : Uuid) (clock : Except String ℕ) (input : ScheduledTaskInput) :
    Except AppError ScheduledTaskRecord := do
  let id ← inputId uuid input
  let name ← requireValue input.name "scheduled_task_name_missing" "请输入任务名称。"
  let cron ← validateCron input.cron
  let command ← requireValue input.command "scheduled_task_command_missing" "请输入要执行的命令。"
  validateCommand command
  let updatedAt ← nowTimestamp clock
  return ⟨id,name,cron,command,input.enabled,updatedAt⟩

/-! ## Rendering -/

/-- `remote_files.rs`. -/
def quotePosixShell (value : String) : String :=
  if value = "" then "''"
  else
    let quoted := value.toList.flatMap fun c => if c = '\'' then "'\\''".toList else [c]
    "'" ++ String.ofList quoted ++ "'"

def runScript : String :=
  "mxterm_log_dir=\"$HOME/.mxterm/scheduled-tasks/logs\"; mkdir -p \"$mxterm_log_dir\"; " ++
  "mxterm_log_file=\"$mxterm_log_dir/$MXTERM_TASK_ID.log\"; " ++
  "\x7b printf '__MXTERM_TASK_START__ %s\\n' \"$(date -u +%Y-%m-%dT%H:%M:%SZ 2>/dev/null || date)\"; " ++
  "mxterm_decode='base64 -d'; " ++
  "printf '' | base64 -d >/dev/null 2>&1 || mxterm_decode='base64 -D'; " ++
  "if ! mxterm_cmd=\"$(printf %s \"$MXTERM_CMD_B64\" | $mxterm_decode)\"; then " ++
  "echo 'mxterm: command decode failed'; exit 127; fi; " ++
  "/bin/sh -lc \"$mxterm_cmd\"; mxterm_rc=$?; " ++
  "printf '__MXTERM_TASK_END__ %s exit=%s\\n' " ++
  "\"$(date -u +%Y-%m-%dT%H:%M:%SZ 2>/dev/null || date)\" \"$mxterm_rc\"; " ++
  "exit \"$mxterm_rc\"; \x7d >> \"$mxterm_log_file\" 2>&1"

def buildRunCommand (record : ScheduledTaskRecord) : String :=
  let commandB64 := Base64.encodePadded Base64.standard (Utf8.encode record.command)
  "MXTERM_TASK_ID=" ++ quotePosixShell record.id ++ " MXTERM_CMD_B64=" ++ quotePosixShell commandB64 ++
    " /bin/sh -lc " ++ quotePosixShell runScript

def escapeCrontabPercent (value : String) : String :=
  String.ofList (value.toList.flatMap fun c => if c = '%' then ['\\','%'] else [c])

def encodeMetadata (value : String) : String := Base64.encode Base64.urlSafe (Utf8.encode value)

def cronLine (record : ScheduledTaskRecord) : String :=
  record.cron ++ " " ++ escapeCrontabPercent (buildRunCommand record)

def renderBlock (record : ScheduledTaskRecord) : List String :=
  [crontabBegin,
    "# id=" ++ record.id,
    "# name=" ++ encodeMetadata record.name,
    "# cron=" ++ encodeMetadata record.cron,
    "# command=" ++ encodeMetadata record.command,
    "# enabled=" ++ toString record.enabled,
    "# updated_at=" ++ record.updatedAt,
    if record.enabled then cronLine record else "# disabled: " ++ cronLine record,
    crontabEnd]

def isBlank (line : String) : Bool := Text.trim line = ""

def trimOuterBlankLines (lines : List String) : List String := (lines.dropWhile isBlank).rdropWhile isBlank

def CrontabSegment.render : CrontabSegment → List String
  | .raw lines => lines
  | .task record => renderBlock record

def CrontabDocument.render (document : CrontabDocument) : String :=
  let lines := trimOuterBlankLines (document.segments.flatMap CrontabSegment.render)
  if lines = [] then "" else Text.join lines ++ "\n"

/-! ## Parsing -/

/-- How the errors of the decoders read. -/
structure DecodeErrors where
  base64 : String → String
  utf8 : List UInt8 → String

variable (errors : DecodeErrors)

def decodeMetadata (value : String) (startLine : ℕ) (key : String) : Except AppError String :=
  match Base64.decode? Base64.urlSafe value with
  | none => .error (invalidBlockError startLine s!"{key} base64: {errors.base64 value}")
  | some bytes =>
    match Utf8.decode? bytes with
    | none => .error (invalidBlockError startLine s!"{key} utf8: {errors.utf8 bytes}")
    | some text => .ok text

def parseEnabled (value : String) (startLine : ℕ) : Except AppError Bool :=
  if value = "true" then .ok true
  else if value = "false" then .ok false
  else .error (invalidBlockError startLine "invalid enabled")

/-- What the comment lines of a block have said so far. -/
structure TaskMetadata where
  id : Option String
  name : Option String
  cron : Option String
  command : Option String
  enabled : Option Bool
  updatedAt : Option String

def TaskMetadata.blank : TaskMetadata := ⟨none,none,none,none,none,none⟩

def TaskMetadata.set (startLine : ℕ) (key value : String) (m : TaskMetadata) : Except AppError TaskMetadata :=
  if key = "id" then
    (normalizeTaskId (Text.trim value)).map fun id => { m with id := some id }
  else if key = "name" then
    (decodeMetadata errors (Text.trim value) startLine "name").map fun name => { m with name := some name }
  else if key = "cron" then
    (decodeMetadata errors (Text.trim value) startLine "cron").bind fun decoded =>
      (validateCron decoded).map fun cron => { m with cron := some cron }
  else if key = "command" then
    (decodeMetadata errors (Text.trim value) startLine "command").map fun command =>
      { m with command := some command }
  else if key = "enabled" then
    (parseEnabled (Text.trim value) startLine).map fun enabled => { m with enabled := some enabled }
  else if key = "updated_at" then
    (requireValue value "scheduled_task_crontab_invalid" "定时任务管理块格式无效。").map fun updatedAt =>
      { m with updatedAt := some updatedAt }
  else .ok m

def readMetadata (startLine : ℕ) (m : TaskMetadata) (line : String) : Except AppError TaskMetadata :=
  match Text.stripPrefix "# " (Text.trim line) with
  | none => .ok m
  | some metadata =>
    match Text.splitOnce '=' metadata with
    | none => .ok m
    | some (key,value) => m.set errors startLine (Text.trim key) value

def requireField {α : Type} (value : Option α) (startLine : ℕ) (key : String) : Except AppError α :=
  match value with
  | none => .error (invalidBlockError startLine s!"missing {key}")
  | some value => .ok value

def requireDecodedValue (value : Option String) (startLine : ℕ) (key : String) : Except AppError String :=
  match requireField value startLine key with
  | .error e => .error e
  | .ok value =>
    if Text.trim value = "" then .error (invalidBlockError startLine s!"blank {key}") else .ok value

def TaskMetadata.record (startLine : ℕ) (m : TaskMetadata) : Except AppError ScheduledTaskRecord := do
  let id ← requireField m.id startLine "id"
  let name ← requireDecodedValue m.name startLine "name"
  let cron ← requireDecodedValue m.cron startLine "cron"
  let command ← requireDecodedValue m.command startLine "command"
  let enabled ← requireField m.enabled startLine "enabled"
  let updatedAt ← requireField m.updatedAt startLine "updated_at"
  validateCommand command
  return ⟨id,name,cron,command,enabled,updatedAt⟩

/-- The first and the last line of the block are its marks. -/
def parseTaskBlock (block : List String) (startLine : ℕ) : Except AppError ScheduledTaskRecord :=
  (((block.drop 1).take (block.length - 2)).foldlM (readMetadata errors startLine) .blank).bind
    (TaskMetadata.record startLine)

/-- The loop of `parse_crontab`: the segments so far, the raw lines after them, and the block that is open,
with the number of its first line. -/
structure CrontabReader where
  index : ℕ
  segments : List CrontabSegment
  rawLines : List String
  block : Option (ℕ × List String)

namespace CrontabReader

def start : CrontabReader := ⟨0,[],[],none⟩

/-- The segments with the pending raw lines. -/
def flushed (r : CrontabReader) : List CrontabSegment :=
  if r.rawLines = [] then r.segments else r.segments ++ [.raw r.rawLines]

def read (r : CrontabReader) (text : String) : Except AppError CrontabReader :=
  let line := Text.trimReturns text
  match r.block with
  | none =>
    if Text.trim line = crontabBegin then .ok ⟨r.index + 1,r.flushed,[],some (r.index + 1,[line])⟩
    else .ok { r with index := r.index + 1, rawLines := r.rawLines ++ [line] }
  | some (startLine,block) =>
    if Text.trim line = crontabEnd then
      (parseTaskBlock errors (block ++ [line]) startLine).map fun record =>
        ⟨r.index + 1,r.segments ++ [.task record],[],none⟩
    else .ok { r with index := r.index + 1, block := some (startLine,block ++ [line]) }

def finish (r : CrontabReader) : Except AppError CrontabDocument :=
  match r.block with
  | none => .ok ⟨r.flushed⟩
  | some (startLine,_) => .error (invalidBlockError startLine "missing MXTERM-SCHEDULE-END")

end CrontabReader

def parseCrontab (text : String) : Except AppError CrontabDocument :=
  ((Text.lines text).foldlM (CrontabReader.read errors) .start).bind CrontabReader.finish

/-- `load_document`, from what the remote command has printed. -/
def loadDocument (stdout : List UInt8) : Except AppError CrontabDocument :=
  parseCrontab errors (Utf8.decodeLossy stdout)

/-! ## Documents -/

namespace CrontabDocument

def taskRecords (document : CrontabDocument) : List ScheduledTaskRecord :=
  document.segments.filterMap fun
    | .task record => some record
    | .raw _ => none

end CrontabDocument

/-- `find_task_mut`, and what is done to the task that was found. -/
def modifyTask (taskId : String) (f : ScheduledTaskRecord → ScheduledTaskRecord) :
    List CrontabSegment → Option (List CrontabSegment)
  | [] => none
  | .raw lines :: segments => (modifyTask taskId f segments).map (.raw lines :: ·)
  | .task record :: segments =>
    if record.id = taskId then some (.task (f record) :: segments)
    else (modifyTask taskId f segments).map (.task record :: ·)

/-- What `remove` retains. -/
def CrontabSegment.isKept (taskId : String) : CrontabSegment → Bool
  | .task record => decide (record.id ≠ taskId)
  | .raw _ => true

namespace CrontabDocument

variable (document : CrontabDocument)

def upsert (record : ScheduledTaskRecord) : CrontabDocument :=
  match modifyTask record.id (fun _ => record) document.segments with
  | some segments => ⟨segments⟩
  | none => ⟨document.segments ++ [.task record]⟩

def remove (taskId : String) : Option CrontabDocument :=
  let kept := document.segments.filter (CrontabSegment.isKept taskId)
  if kept.length ≠ document.segments.length then some ⟨kept⟩ else none

end CrontabDocument

/-- The commands that change a crontab, with what they draw from the system. -/
inductive Command
  | save (input : ScheduledTaskInput) (uuid : Uuid) (clock : Except String ℕ)
  | delete (taskId : String)
  | setEnabled (taskId : String) (enabled : Bool) (clock : Except String ℕ)

/-- What a command checks before it reads the crontab. -/
def Command.check : Command → Except AppError Command
  | .save input uuid clock => .ok (.save input uuid clock)
  | .delete taskId => (normalizeTaskId taskId).map .delete
  | .setEnabled taskId enabled clock => (normalizeTaskId taskId).map fun id => .setEnabled id enabled clock

/-- What a command does to the document it has read. -/
def Command.change : Command → CrontabDocument → Except AppError CrontabDocument
  | .save input uuid clock, document => (normalizeTaskInput uuid clock input).map document.upsert
  | .delete taskId, document =>
    match document.remove taskId with
    | some document => .ok document
    | none => .error (taskMissingError "task not found")
  | .setEnabled taskId enabled clock, document =>
    (nowTimestamp clock).bind fun updatedAt =>
      match modifyTask taskId (fun record => { record with enabled := enabled, updatedAt := updatedAt })
          document.segments with
      | some segments => .ok ⟨segments⟩
      | none => .error (taskMissingError "task not found")

/-- A whole command on a crontab: what it installs. -/
def Command.run (command : Command) (crontab : List UInt8) : Except AppError (List UInt8) := do
  let command ← command.check
  let document ← loadDocument errors crontab
  let document ← command.change document
  return Utf8.encode document.render

end Mxterm.ScheduledTasks
