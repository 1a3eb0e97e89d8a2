import Mxterm.RemoteCommands
import Mxterm.Table
import Mxterm.Transitions

/-! The asynchronous commands of the MCP server: the registry of their tasks, and the worker of each, one step for
every section under the lock of the registry and for everything the worker awaits. -/
namespace Mxterm.CommandTasks

open RemoteCommands

/-! ## Records -/

def maxCommandTasks : ℕ := 64

def finishedCommandTaskTtlMs : ℕ := 30 * 60 * 1000

inductive TaskStatus
  | queued | running | succeeded | failed | timedOut | cancelled
  deriving DecidableEq

def isTerminalTaskStatus : TaskStatus → Bool
  | .queued | .running => false
  | _ => true

structure McpCommandResult where
  connectionId : String
  command : String
  exitStatus : Option ℕ
  stdout : String
  stderr : String
  stdoutTruncated : Bool
  stderrTruncated : Bool
  durationMs : ℕ
  deriving DecidableEq

structure McpTaskRecord where
  taskId : String
  connectionId : String
  command : String
  status : TaskStatus
  createdAtMs : ℕ
  startedAtMs : Option ℕ
  finishedAtMs : Option ℕ
  result : Option McpCommandResult
  error : Option AppError
  deriving DecidableEq

/-- `abortHandle` and `session` say whether the entry still holds the handle and the session of its worker. -/
structure McpTaskEntry where
  record : McpTaskRecord
  abortHandle : Bool
  session : Bool

def McpTaskEntry.taskId (entry : McpTaskEntry) : String := entry.record.taskId

abbrev Registry := Table McpTaskEntry.taskId

def bytesToLimitedString (bytes : List UInt8) (limit : ℕ) : String × Bool :=
  (Utf8.decodeLossy (bytes.take limit),limit < bytes.length)

def normalizeOutputLimit (limit : Option ℕ) : ℕ := max 1024 (min (limit.getD (64 * 1024)) (1024 * 1024))

def finishCommandResult (connectionId command : String) (output : ExecOutput) (maxOutputBytes : Option ℕ)
    (started now : ℕ) : McpCommandResult :=
  let limit := normalizeOutputLimit maxOutputBytes
  let stdout := bytesToLimitedString output.stdout limit
  let stderr := bytesToLimitedString output.stderr limit
  { connectionId
    command
    exitStatus := output.exitStatus
    stdout := stdout.1
    stderr := stderr.1
    stdoutTruncated := stdout.2
    stderrTruncated := stderr.2
    durationMs := now - started }

def commandTimeoutError (timeoutSeconds : ℕ) : AppError :=
  ⟨"mcp_command_timeout","MCP SSH 命令执行超时。","timeout_seconds=" ++ toString timeoutSeconds,true⟩

def taskCancelledError (taskId : String) : AppError :=
  ⟨"mcp_task_cancelled","MCP 异步任务已取消。","task_id=" ++ taskId,true⟩

def taskNotFound (taskId : String) : AppError :=
  ⟨"mcp_task_not_found","MCP 任务不存在或已过期。","task_id=" ++ taskId,true⟩

def taskLimitReached : AppError :=
  ⟨"mcp_task_limit_reached","MCP 异步任务数量已达到上限，请等待现有任务完成后重试。","max_tasks=64",true⟩

/-! ## The registry -/

namespace Registry

def modify (tasks : Registry) (id : String) (f : McpTaskEntry → McpTaskEntry) (hf : ∀ e, (f e).taskId = e.taskId) :
    Registry :=
  tasks.mapRows (fun e => if e.taskId = id then f e else e) fun e => by split <;> simp [hf]

theorem find?_modify (tasks : Registry) (id : String) (f : McpTaskEntry → McpTaskEntry)
    (hf : ∀ e, (f e).taskId = e.taskId) (other : String) :
    (modify tasks id f hf).find? other = if other = id then (tasks.find? other).map f else tasks.find? other := by
  rw [modify,Table.find?_mapRows]
  cases hfind : tasks.find? other with
  | none => simp
  | some e =>
    have hid : e.taskId = other := (Table.find?_eq_some_iff.mp hfind).2
    rw [Option.map_some,hid]
    split <;> rfl

def isExpired (record : McpTaskRecord) (now : ℕ) : Bool :=
  isTerminalTaskStatus record.status &&
    record.finishedAtMs.any fun finished => finishedCommandTaskTtlMs ≤ now - finished

def prune (tasks : Registry) (now : ℕ) : Registry := tasks.keepRows fun e => !isExpired e.record now

/-- The order in which entries are given up: the oldest first, of equally old ones the first in the map. -/
def older (e f : McpTaskEntry) : Bool :=
  e.record.createdAtMs < f.record.createdAtMs ||
    (e.record.createdAtMs = f.record.createdAtMs && e.taskId < f.taskId)

def oldest : List McpTaskEntry → Option McpTaskEntry
  | [] => none
  | e :: rest =>
    match oldest rest with
    | none => some e
    | some f => if older f e then some f else some e

theorem oldest_mem {entries : List McpTaskEntry} {e : McpTaskEntry} (h : oldest entries = some e) : e ∈ entries := by
  induction entries with
  | nil => cases h
  | cons f rest ih =>
    rw [oldest] at h
    cases hrest : oldest rest with
    | none =>
      rw [hrest] at h
      cases h
      exact List.mem_cons_self
    | some g =>
      simp only [hrest] at h
      split at h
      · exact List.mem_cons_of_mem _ (ih (by rw [hrest,h]))
      · cases h
        exact List.mem_cons_self

/-- The loop of `trim_command_tasks`, with enough fuel for every entry. -/
def evict : ℕ → Registry → Registry
  | 0, tasks => tasks
  | fuel + 1, tasks =>
    if maxCommandTasks ≤ tasks.rows.length then
      match oldest (tasks.rows.filter fun e => isTerminalTaskStatus e.record.status) with
      | none => tasks
      | some e => evict fuel (tasks.keepRows fun other => other.taskId ≠ e.taskId)
    else tasks

def trim (tasks : Registry) (now : ℕ) : Registry :=
  let tasks := prune tasks now
  evict tasks.rows.length tasks

end Registry

/-! ## Workers -/

inductive Outcome
  | output (output : ExecOutput)
  | failed (error : AppError)
  | timedOut

/-- What a worker awaits: the lock before the task is marked, the connection, the lock before its session is attached,
the channel of the command, its end, the close of a session that was not attached, the lock before the session is taken
back, its close, and the lock before the task is finished. -/
inductive Phase
  | marking
  | connecting
  | attaching
  | opening
  | executing
  | refusing
  | taking (outcome : Outcome)
  | closing (outcome : Outcome)
  | finishing (outcome : Outcome)
  | ended

/-- A worker that is not polled goes on only when it is woken, and an abort drops it then. -/
structure Worker where
  connectionId : String
  command : String
  timeoutSeconds : ℕ
  maxOutputBytes : Option ℕ
  started : ℕ
  phase : Phase
  polled : Bool
  abortRequested : Bool

/-- What is seen of a task from outside. -/
inductive Event
  | commandStarted | cancelReturned
  deriving DecidableEq

/-- What a cancel has taken out of the registry and not passed on yet. -/
structure Taken where
  abortHandle : Bool
  session : Bool

/-- Everything of a task that is not in the registry; the history has the last event first. -/
structure Side where
  worker : Option Worker
  cancelling : Option Taken
  opened : Bool
  closers : ℕ
  closed : ℕ
  history : List Event

def Side.none : Side := ⟨.none,.none,false,0,0,[]⟩

structure State where
  tasks : Registry
  side : String → Side

def State.initial : State := ⟨.empty _,fun _ => .none⟩

inductive Action
  | start (id connectionId command : String) (timeoutSeconds : ℕ) (maxOutputBytes : Option ℕ) (createdAt now : ℕ)
  | wake (id : String)
  | park (id : String)
  | strike (id : String)
  | mark (id : String) (now started : ℕ)
  | connect (id : String) (result : Except AppError Unit)
  | attach (id : String)
  | refused (id : String)
  | openChannel (id : String) (result : Except AppError Unit)
  | exec (id : String) (result : Except AppError ExecOutput)
  | timeout (id : String)
  | take (id : String)
  | close (id : String)
  | finish (id : String) (now finished : ℕ)
  | get (taskId : String) (now : ℕ)
  | cancel (taskId : String) (now : ℕ)
  | abort (id : String)
  | closer (id : String)

namespace State

def entry (s : State) (id : String) : Option McpTaskEntry := s.tasks.find? id

def update (s : State) (id : String) (side : Side) : State := { s with side := Function.update s.side id side }

/-! ## The calls -/

/-- The section of `start_command_task` under the lock, once the command is authorised; the worker is spawned there. -/
def startCommandTask (s : State) (id connectionId command : String) (timeoutSeconds : ℕ) (maxOutputBytes : Option ℕ)
    (createdAt now : ℕ) : Except AppError String × State :=
  let tasks := Registry.trim s.tasks now
  if maxCommandTasks ≤ tasks.rows.length then (.error taskLimitReached,{ s with tasks })
  else
    let record : McpTaskRecord := ⟨id,connectionId,command,.queued,createdAt,none,none,none,none⟩
    let worker : Worker := ⟨connectionId,command,timeoutSeconds,maxOutputBytes,0,.marking,true,false⟩
    (.ok id,State.update { s with tasks := tasks.put ⟨record,true,false⟩ } id
      { Side.none with
        worker := some worker })

def getCommandTask (s : State) (taskId : String) (now : ℕ) : Except AppError McpTaskRecord × State :=
  let tasks := Registry.prune s.tasks now
  match tasks.find? (Text.trim taskId) with
  | some e => (.ok e.record,{ s with tasks })
  | none => (.error (taskNotFound taskId),{ s with tasks })

def cancelledRecord (record : McpTaskRecord) (now : ℕ) : McpTaskRecord :=
  { record with
    status := .cancelled
    finishedAtMs := some now }

/-- What the last part of a cancel does: the worker is aborted, the session gets a task of its own that closes it. -/
def abortTaken (side : Side) (taken : Taken) : Side :=
  { side with
    worker := side.worker.map fun w => { w with abortRequested := w.abortRequested || taken.abortHandle }
    cancelling := none
    closers := side.closers + taken.session.toNat
    history := .cancelReturned :: side.history }

/-- The section of `cancel_command_task` under the lock. A task that has come to its end is answered with its record. -/
def cancelCommandTask (s : State) (taskId : String) (now : ℕ) : Except AppError McpTaskRecord × State :=
  let id := Text.trim taskId
  match s.entry id with
  | none => (.error (taskNotFound taskId),s)
  | some e =>
    if isTerminalTaskStatus e.record.status then
      (.ok e.record,
        if e.record.status = .cancelled then
          s.update id { s.side id with
            history := .cancelReturned :: (s.side id).history }
        else s)
    else
      (.ok (cancelledRecord e.record now),
        State.update { s with
          tasks := Registry.modify s.tasks id
            (fun e => ⟨cancelledRecord e.record now,false,false⟩) fun _ => rfl } id
          { s.side id with
            cancelling := some ⟨e.abortHandle,e.session⟩ })

/-! ## The steps of a worker -/

def setPhase (s : State) (id : String) (w : Worker) (phase : Phase) : State :=
  s.update id { s.side id with
    worker := some { w with phase } }

/-- A worker that is polled does what it has waited for. -/
def act (s : State) (id : String) (f : Worker → Option State) : Option State :=
  match (s.side id).worker with
  | some w => if w.polled then f w else none
  | none => none

def markedRecord (record : McpTaskRecord) (now : ℕ) : McpTaskRecord :=
  { record with
    status := .running
    startedAtMs := some now }

def markCommandTaskRunning (s : State) (id : String) (w : Worker) (now started : ℕ) : State :=
  match s.entry id with
  | none => s.setPhase id w .ended
  | some e =>
    if e.record.status = .queued then
      State.setPhase { s with
        tasks := Registry.modify s.tasks id (fun e => { e with record := markedRecord e.record now }) fun _ => rfl }
        id { w with started } .connecting
    else s.setPhase id w .ended

def attachCommandTaskSession (s : State) (id : String) (w : Worker) : State :=
  match s.entry id with
  | none => s.setPhase id w .refusing
  | some e =>
    if e.record.status = .running then
      State.setPhase { s with
        tasks := Registry.modify s.tasks id (fun e => { e with session := true }) fun _ => rfl } id w .opening
    else s.setPhase id w .refusing

def takeSession (s : State) (id : String) (w : Worker) (outcome : Outcome) : State :=
  match s.entry id with
  | none => s.setPhase id w (.finishing outcome)
  | some e =>
    if e.session then
      State.setPhase { s with
        tasks := Registry.modify s.tasks id (fun e => { e with session := false }) fun _ => rfl } id w
          (.closing outcome)
    else s.setPhase id w (.finishing outcome)

def finishedRecord (record : McpTaskRecord) (w : Worker) (outcome : Outcome) (now finished : ℕ) : McpTaskRecord :=
  match outcome with
  | .output output =>
    { record with
      status := .succeeded
      finishedAtMs := some finished
      result := some (finishCommandResult w.connectionId w.command output w.maxOutputBytes w.started now) }
  | .failed error =>
    { record with
      status := if error.code = "mcp_command_timeout" then .timedOut else .failed
      finishedAtMs := some finished
      error := some error }
  | .timedOut =>
    { record with
      status := .timedOut
      finishedAtMs := some finished
      error := some (commandTimeoutError w.timeoutSeconds) }

theorem finishedRecord_taskId (record : McpTaskRecord) (w : Worker) (outcome : Outcome) (now finished : ℕ) :
    (finishedRecord record w outcome now finished).taskId = record.taskId := by
  cases outcome <;> rfl

def finishedEntry (w : Worker) (outcome : Outcome) (now finished : ℕ) (e : McpTaskEntry) : McpTaskEntry :=
  { e with
    abortHandle := false
    record := if e.record.status = .running then finishedRecord e.record w outcome now finished else e.record }

theorem finishedEntry_taskId (w : Worker) (outcome : Outcome) (now finished : ℕ) (e : McpTaskEntry) :
    (finishedEntry w outcome now finished e).taskId = e.taskId := by
  rw [finishedEntry]
  split
  · exact finishedRecord_taskId ..
  · rfl

def finishCommandTask (s : State) (id : String) (w : Worker) (outcome : Outcome) (now finished : ℕ) : State :=
  State.setPhase { s with
    tasks := Registry.modify s.tasks id (finishedEntry w outcome now finished)
      (finishedEntry_taskId w outcome now finished) } id w .ended

/-- The timeout is over the connection, the attachment and the command. -/
def timed : Phase → Bool
  | .connecting | .attaching | .opening | .executing | .refusing => true
  | _ => false

def step (s : State) : Action → Option State
  | .start id connectionId command timeoutSeconds maxOutputBytes createdAt now =>
    if (s.side id).worker.isSome then none
    else some (s.startCommandTask id connectionId command timeoutSeconds maxOutputBytes createdAt now).2
  | .wake id =>
    match (s.side id).worker with
    | some w => if w.polled || w.abortRequested then none
      else some (s.update id { s.side id with worker := some { w with polled := true } })
    | none => none
  | .park id => s.act id fun w => some (s.update id { s.side id with worker := some { w with polled := false } })
  | .strike id =>
    match (s.side id).worker with
    | some w => if !w.polled && w.abortRequested then some (s.setPhase id w .ended) else none
    | none => none
  | .mark id now started => s.act id fun w =>
    match w.phase with
    | .marking => some (s.markCommandTaskRunning id w now started)
    | _ => none
  | .connect id result => s.act id fun w =>
    match w.phase,result with
    | .connecting,.ok _ => some (s.update id { s.side id with
        worker := some { w with phase := .attaching }
        opened := true })
    | .connecting,.error error => some (s.setPhase id w (.taking (.failed error)))
    | _,_ => none
  | .attach id => s.act id fun w =>
    match w.phase with
    | .attaching => some (s.attachCommandTaskSession id w)
    | _ => none
  | .refused id => s.act id fun w =>
    match w.phase with
    | .refusing => some (s.update id { s.side id with
        worker := some { w with phase := .taking (.failed (taskCancelledError id)) }
        closed := (s.side id).closed + 1 })
    | _ => none
  | .openChannel id result => s.act id fun w =>
    match w.phase,result with
    | .opening,.ok _ => some (s.update id { s.side id with
        worker := some { w with phase := .executing }
        history := .commandStarted :: (s.side id).history })
    | .opening,.error error => some (s.setPhase id w (.taking (.failed error)))
    | _,_ => none
  | .exec id result => s.act id fun w =>
    match w.phase,result with
    | .executing,.ok output => some (s.setPhase id w (.taking (.output output)))
    | .executing,.error error => some (s.setPhase id w (.taking (.failed error)))
    | _,_ => none
  | .timeout id => s.act id fun w => if timed w.phase then some (s.setPhase id w (.taking .timedOut)) else none
  | .take id => s.act id fun w =>
    match w.phase with
    | .taking outcome => some (s.takeSession id w outcome)
    | _ => none
  | .close id => s.act id fun w =>
    match w.phase with
    | .closing outcome => some (s.update id { s.side id with
        worker := some { w with phase := .finishing outcome }
        closed := (s.side id).closed + 1 })
    | _ => none
  | .finish id now finished => s.act id fun w =>
    match w.phase with
    | .finishing outcome => some (s.finishCommandTask id w outcome now finished)
    | _ => none
  | .get taskId now => some (s.getCommandTask taskId now).2
  | .cancel taskId now => some (s.cancelCommandTask taskId now).2
  | .abort id =>
    match (s.side id).cancelling with
    | some taken => some (s.update id (abortTaken (s.side id) taken))
    | none => none
  | .closer id =>
    if 0 < (s.side id).closers then
      some (s.update id { s.side id with
        closers := (s.side id).closers - 1
        closed := (s.side id).closed + 1 })
    else none

end State
end Mxterm.CommandTasks
