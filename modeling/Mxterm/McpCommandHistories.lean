import Mxterm.McpCommandStarts

/-! The command lines that the calls of the MCP server start, in every history of settings, calls and workers. -/
namespace Mxterm
open List hiding after

namespace CommandTasks

/-! ## The command of a task -/

/-- The worker has not come to its command yet. -/
def waits : Phase → Bool
  | .marking | .connecting | .attaching | .opening => true
  | _ => false

def Side.starts (side : Side) : ℕ := side.history.count .commandStarted

/-- The command lines that the worker of a task has started. -/
def Side.commandsStarted (side : Side) : List String :=
  match side.worker with
  | .none => []
  | some w => List.replicate side.starts w.command

/-- The command is started once, and not before the worker comes to it. -/
structure StartsOnce (side : Side) : Prop where
  once : side.starts ≤ 1
  waiting : ∀ w, side.worker = some w → waits w.phase = true → side.starts = 0
  unborn : side.worker = none → side.starts = 0

theorem startsOnce_unborn : StartsOnce Side.none := ⟨Nat.zero_le 1,fun _ hw => (nomatch hw),fun _ => rfl⟩

variable {side' : Side}

/-- The worker goes on, and the history stays as it is. -/
theorem StartsOnce.goes {side : Side} (h : StartsOnce side) {w : Worker} (hw : side.worker = some w) {w' : Worker}
    (hw' : side'.worker = some w') (hphase : waits w'.phase = true → waits w.phase = true)
    (hstarts : side'.starts = side.starts) : StartsOnce side' := by
  constructor
  · rw [hstarts]
    exact h.once
  · intro v hv hwaits
    rw [hw',Option.some.injEq] at hv
    subst hv
    rw [hstarts]
    exact h.waiting w hw (hphase hwaits)
  · intro hnone
    rw [hw'] at hnone
    cases hnone

theorem TaskStep.startsOnce {careful : Prop} {e e' : Option McpTaskEntry} {side : Side}
    (h : TaskStep careful e side e' side') (hs : StartsOnce side) : StartsOnce side' := by
  have hother : Event.cancelReturned ≠ Event.commandStarted := by decide
  cases h with
  | same => exact hs
  | evicted => exact hs
  | started hnone => exact ⟨Nat.zero_le 1,fun _ _ _ => rfl,fun hw => nomatch hw⟩
  | scheduled _ hw => exact hs.goes hw rfl id rfl
  | marked hw hphase | attached hw hphase => exact hs.goes hw rfl (fun _ => by rw [hphase]; rfl) rfl
  | connected _ hw hphase => exact hs.goes hw rfl (fun _ => by rw [hphase]; rfl) rfl
  | unmarked hw | taken hw | nothingTaken hw => exact hs.goes hw rfl (fun hwaits => nomatch hwaits) rfl
  | struck _ hw | stopped _ hw | timedOut _ hw | unattached _ hw | refused _ hw | closed _ hw | finished _ hw =>
    exact hs.goes hw rfl (fun hwaits => nomatch hwaits) rfl
  | commandStarted hw hphase =>
    have hzero := hs.waiting _ hw (by rw [hphase]; rfl)
    constructor
    · rw [Side.starts,count_cons_self]
      rw [Side.starts] at hzero
      omega
    · intro v hv hwaits
      cases hv
      cases hwaits
    · intro hnone
      cases hnone
  | cancelled | closerDone => exact ⟨hs.once,hs.waiting,hs.unborn⟩
  | cancelledBefore =>
    have hstarts : Side.starts { side with history := .cancelReturned :: side.history } = side.starts :=
      count_cons_of_ne hother
    exact ⟨hstarts ▸ hs.once,fun w hw hwaits => hstarts ▸ hs.waiting w hw hwaits,fun hnone => hstarts ▸ hs.unborn hnone⟩
  | @aborted _ taken =>
    have hstarts : (State.abortTaken side taken).starts = side.starts := count_cons_of_ne hother
    cases hw : side.worker with
    | none => exact ⟨hstarts ▸ hs.once,fun w hworker => by simp [State.abortTaken,hw] at hworker,
        fun _ => hstarts ▸ hs.unborn hw⟩
    | some w =>
      have hworker : (State.abortTaken side taken).worker =
          some { w with abortRequested := w.abortRequested || taken.abortHandle } := by
        rw [State.abortTaken,hw]
        rfl
      exact hs.goes hw hworker id hstarts

theorem TaskStep.command {careful : Prop} {e e' : Option McpTaskEntry} {side : Side}
    (h : TaskStep careful e side e' side') {w : Worker} (hw : side.worker = some w) :
    ∃ w', side'.worker = some w' ∧ w'.command = w.command := by
  have hkept {v : Worker} (hv : side.worker = some v) {v' : Worker} (hcommand : v'.command = v.command) :
      ∃ w', some v' = some w' ∧ w'.command = w.command := by
    rw [hw,Option.some.injEq] at hv
    subst hv
    exact ⟨v',rfl,hcommand⟩
  cases h with
  | same | evicted | cancelled | cancelledBefore | closerDone => exact ⟨w,hw,rfl⟩
  | started hnone =>
    rw [hw] at hnone
    cases hnone
  | @aborted _ taken =>
    rw [State.abortTaken,hw]
    exact hkept hw rfl
  | unmarked hv | marked hv | attached hv | commandStarted hv | taken hv | nothingTaken hv => exact hkept hv rfl
  | scheduled _ hv | struck _ hv | connected _ hv | stopped _ hv | timedOut _ hv | unattached _ hv | refused _ hv
  | closed _ hv | finished _ hv => exact hkept hv rfl

end CommandTasks

namespace Mcp

open Execution RepositoryCommands RemoteCommands CommandTasks Transitions

/-! ## What a call does to the tasks -/

/-- A call leaves the tasks, reads or cancels one, or starts one with a command that was authorised. -/
inductive Acts (root : Root) (outside : Outside) (arguments : Json) (tool : Tool) :
    CommandTasks.State → CommandTasks.State → Prop
  | same (tasks : CommandTasks.State) : Acts root outside arguments tool tasks tasks
  | read (tasks : CommandTasks.State) (taskId : String) :
    Acts root outside arguments tool tasks (tasks.getCommandTask taskId (outside.millis 0)).2
  | cancelled (tasks : CommandTasks.State) (taskId : String) :
    Acts root outside arguments tool tasks (tasks.cancelCommandTask taskId (outside.millis 0)).2
  | spawned (tasks : CommandTasks.State) {connectionId given command : String} (target : String) (timeoutSeconds : ℕ)
    (maxOutputBytes : Option ℕ) (htool : tool = .executeCommandAsync)
    (hauthorized : authorizeCommand root.settings outside connectionId given
      (valueGetBool arguments "confirm_dangerous") = .ok command) :
    Acts root outside arguments tool tasks (tasks.startCommandTask outside.taskId target command timeoutSeconds
      maxOutputBytes (outside.millis 0) (outside.millis 1)).2

section
variable {root : Root} {outside : Outside} {arguments : Json} {tool : Tool}

/-- The tasks of a server. -/
abbrev KeepsTasks {α : Type} (x : Call α) : Prop := Keeps Server.tasks x

theorem keepsTasks_access (group : ToolGroup) (connectionId : String) : KeepsTasks (access root group connectionId) :=
  fun _ => rfl

theorem keepsTasks_connectHost (attempt : ℕ) (connectionId : String) :
    KeepsTasks (connectHost root outside attempt connectionId) := by
  apply (keepsTasks_access .ssh connectionId).bind
  exact fun _ => Keeps.lift _

theorem keepsTasks_connectTarget (config : ResolvedSshConfig) (attempt : ℕ) :
    KeepsTasks (connectTarget root outside config attempt) := by
  apply (Keeps.lift _).bind
  intro jump
  apply (Keeps.forEach (keepsTasks_connectHost attempt) jump.toList).bind
  exact fun _ => keepsTasks_connectHost attempt config.connectionId

theorem keepsTasks_sessionHandle (config : ResolvedSshConfig) : KeepsTasks (sessionHandle root outside config) :=
  (keepsTasks_access .ssh config.connectionId).ite (keepsTasks_connectTarget config 0)

theorem keepsTasks_execWithContext (config : ResolvedSshConfig) (command : String) :
    KeepsTasks (execWithContext root outside config command) := by
  apply (keepsTasks_sessionHandle config).bind
  intro _
  apply (keepsTasks_access .ssh config.connectionId).bind
  intro _
  cases outside.exec 0 command with
  | ok output => exact Keeps.pure output
  | error error =>
    apply (keepsTasks_connectTarget config 1).bind
    intro _
    apply (keepsTasks_access .ssh config.connectionId).bind
    exact fun _ => Keeps.lift _

theorem keepsTasks_executeCommand (connectionId command : String) (timeoutSeconds maxOutputBytes : Option ℕ)
    (confirmDangerous : Bool) :
    KeepsTasks (executeCommand root outside connectionId command timeoutSeconds maxOutputBytes confirmDangerous) := by
  apply (Keeps.lift _).bind
  intro command
  apply (Keeps.lift _).bind
  intro timeout
  apply (Keeps.lift _).bind
  intro config
  apply (keepsTasks_execWithContext config command).attempt.bind
  intro result
  cases result with
  | error error => exact Keeps.throw _
  | ok output => exact (Keeps.throw _).ite (Keeps.pure _)

theorem keepsTasks_testConnection (connectionId : String) : KeepsTasks (testConnection root outside connectionId) := by
  apply (Keeps.lift _).bind
  intro _
  apply (Keeps.lift _).bind
  intro _
  apply (Keeps.lift _).bind
  intro config
  apply (keepsTasks_sessionHandle config).bind
  exact fun _ => Keeps.pure _

theorem keepsTasks_transfer (checkLocal : Except AppError Unit) (directory : Bool)
    (connectionId localPath remotePath : String) :
    KeepsTasks (transfer checkLocal directory root outside connectionId localPath remotePath) := by
  apply (Keeps.lift _).bind
  intro _
  apply (Keeps.lift _).bind
  intro _
  apply (Keeps.lift _).bind
  intro _
  apply (Keeps.lift _).bind
  intro remotePath
  apply (Keeps.lift _).bind
  intro config
  apply (keepsTasks_connectTarget config 0).bind
  intro _ _
  apply (Keeps.lift _).bind
  exact fun _ => Keeps.pure _

theorem keepsTasks_transferTool {first second : String} {act : String → String → String → Call McpTransferResult}
    (hact : ∀ connectionId first second, KeepsTasks (act connectionId first second)) :
    KeepsTasks (transferTool first second act arguments) := by
  apply (Keeps.lift _).bind
  intro connectionId
  apply (Keeps.lift _).bind
  intro first
  apply (Keeps.lift _).bind
  intro second
  apply (hact connectionId first second).bind
  exact fun _ => Keeps.pure _

theorem keepsTasks_executeScript (connectionId scriptPath : String) (interpreter args : Option String)
    (timeoutSeconds maxOutputBytes : Option ℕ) :
    KeepsTasks
      (executeScript root outside connectionId scriptPath interpreter args timeoutSeconds maxOutputBytes) := by
  apply (Keeps.lift _).bind
  intro timeout
  apply (Keeps.lift _).bind
  intro _
  apply (keepsTasks_transfer _ _ _ _ _).bind
  exact fun _ => keepsTasks_executeCommand _ _ _ _ _

/-! ### The tasks after a call -/

/-- The action returns or fails in a server whose tasks were acted on in this way. -/
def ActsOn {α : Type} (root : Root) (outside : Outside) (arguments : Json) (tool : Tool) (x : Call α) : Prop :=
  ∀ s, Acts root outside arguments tool s.tasks (after x s).tasks

variable {α : Type}

theorem KeepsTasks.actsOn {x : Call α} (h : KeepsTasks x) : ActsOn root outside arguments tool x := by
  intro s
  rw [h s]
  exact .same s.tasks

variable {β : Type}

theorem actsOn_lift_bind {r : Except AppError α} {f : α → Call β}
    (h : ∀ a, r = .ok a → ActsOn root outside arguments tool (f a)) :
    ActsOn root outside arguments tool (lift r >>= f) := by
  cases r with
  | ok a => exact h a rfl
  | error error => exact fun s => .same s.tasks

/-- What comes after the tasks were acted on leaves them. -/
theorem ActsOn.bind {x : Call α} {f : α → Call β} (hx : ActsOn root outside arguments tool x)
    (hf : ∀ a, KeepsTasks (f a)) : ActsOn root outside arguments tool (x >>= f) := by
  intro s
  have hs := hx s
  cases h : x s with
  | ok a t =>
    rw [after_of_ok h] at hs
    have hrun : after (x >>= f) s = after (f a) t := by simp [after,bind_of_ok h]
    rw [hrun,hf a t]
    exact hs
  | error e t =>
    rw [after_of_error h] at hs
    rw [after_of_error (bind_of_error h f)]
    exact hs

theorem actsOn_taskTool {act : String → Call McpTaskRecord}
    (h : ∀ taskId, ActsOn root outside arguments tool (act taskId)) :
    ActsOn root outside arguments tool (taskTool root arguments act) :=
  actsOn_lift_bind fun _ _ => actsOn_lift_bind fun taskId _ => h taskId

/-- A section under the lock, and what is done with its result. -/
theorem actsOn_locked {f : CommandTasks.State → β × CommandTasks.State} {g : β → Call α}
    (hf : ∀ tasks, Acts root outside arguments tool tasks (f tasks).2) (hg : ∀ found, KeepsTasks (g found)) :
    ActsOn root outside arguments tool (do
      let s ← get
      let (found,tasks) := f s.tasks
      set { s with tasks }
      g found) := by
  intro s
  have hafter := hg (f s.tasks).1 { s with tasks := (f s.tasks).2 }
  change Acts root outside arguments tool s.tasks (after (g (f s.tasks).1) { s with tasks := (f s.tasks).2 }).tasks
  rw [hafter]
  exact hf s.tasks

theorem actsOn_startCommandTask {connectionId given : String} {timeoutSeconds maxOutputBytes : Option ℕ}
    (htool : tool = .executeCommandAsync) :
    ActsOn root outside arguments tool (startCommandTask root outside connectionId given timeoutSeconds maxOutputBytes
      (valueGetBool arguments "confirm_dangerous")) := by
  apply actsOn_lift_bind
  intro command hauthorized
  apply actsOn_lift_bind
  intro timeout _
  apply actsOn_lift_bind
  intro config _
  let answered (started : Except AppError String) : Call (String × ℕ) := do
    let id ← lift started
    modify fun s => { s with causes := Function.update s.causes id (some ⟨root,config⟩) }
    pure (id,timeout)
  have hanswered : ∀ started, KeepsTasks (answered started) := by
    intro started
    apply (Keeps.lift started).bind
    intro id
    exact Keeps.bind (fun _ => rfl) fun _ => Keeps.pure _
  let started (tasks : CommandTasks.State) : Except AppError String × CommandTasks.State :=
    tasks.startCommandTask outside.taskId config.connectionId command timeout maxOutputBytes (outside.millis 0)
      (outside.millis 1)
  exact actsOn_locked (f := started) (g := answered)
    (fun tasks => .spawned tasks config.connectionId timeout maxOutputBytes htool hauthorized) hanswered

theorem actsOn_runTool : ActsOn root outside arguments tool (runTool root outside arguments tool) := by
  have hread : ActsOn root outside arguments tool (lift (readingTool root outside arguments tool)) :=
    KeepsTasks.actsOn (Keeps.lift _)
  cases tool with
  | getMxtermMcpStatus | listConnections | searchConnections | getConnection => exact hread
  | testConnection =>
    apply actsOn_lift_bind
    intro connectionId _
    exact (keepsTasks_testConnection connectionId).actsOn.bind fun _ => Keeps.pure _
  | executeCommand =>
    apply actsOn_lift_bind
    intro connectionId _
    apply actsOn_lift_bind
    intro command _
    apply actsOn_lift_bind
    intro timeout _
    exact (keepsTasks_executeCommand _ _ _ _ _).actsOn.bind fun _ => Keeps.pure _
  | executeCommandAsync =>
    apply actsOn_lift_bind
    intro connectionId _
    apply actsOn_lift_bind
    intro command _
    apply actsOn_lift_bind
    intro timeout _
    exact (actsOn_startCommandTask rfl).bind fun _ => Keeps.pure _
  | getTaskStatus | getTaskOutput =>
    refine ActsOn.bind (actsOn_taskTool fun taskId => ?_) fun _ => Keeps.pure _
    exact actsOn_locked (fun tasks => .read tasks taskId) fun found => Keeps.lift found
  | cancelTask =>
    refine ActsOn.bind (actsOn_taskTool fun taskId => ?_) fun _ => Keeps.pure _
    exact actsOn_locked (fun tasks => .cancelled tasks taskId) fun found => Keeps.lift found
  | serverMonitor =>
    apply actsOn_lift_bind
    intro connectionId _
    exact (keepsTasks_executeCommand _ _ _ _ _).actsOn.bind fun _ => Keeps.pure _
  | uploadFile | downloadFile | uploadDirectory | downloadDirectory =>
    apply KeepsTasks.actsOn
    apply keepsTasks_transferTool
    exact fun connectionId first second => keepsTasks_transfer _ _ connectionId _ _
  | executeScript =>
    apply actsOn_lift_bind
    intro connectionId _
    apply actsOn_lift_bind
    intro scriptPath _
    apply actsOn_lift_bind
    intro timeout _
    exact (keepsTasks_executeScript _ _ _ _ _ _).actsOn.bind fun _ => Keeps.pure _

/-- The tool of a call; a name that is unknown does as much as a tool that only reads. -/
def toolOf (name : String) : Tool := (Tool.ofName name).getD .getMxtermMcpStatus

theorem actsOn_callTool (name : String) :
    ActsOn root outside arguments (toolOf name) (callTool root outside name arguments) := by
  unfold toolOf
  apply actsOn_lift_bind
  intro _ _
  apply actsOn_lift_bind
  intro _ _
  apply actsOn_lift_bind
  intro _ _
  cases Tool.ofName name with
  | none => exact KeepsTasks.actsOn (Keeps.throw _)
  | some tool =>
    apply actsOn_runTool.bind
    intro answer
    apply (Keeps.forEach (keepsTasks_access tool.group) answer.about).bind
    exact fun _ => Keeps.pure _

/-! ### One task after a call -/

/-- The command of a worker stays, and it is started once. -/
structure Goes (side side' : Side) : Prop where
  startsOnce : StartsOnce side → StartsOnce side'
  command : ∀ w, side.worker = some w → ∃ w', side'.worker = some w' ∧ w'.command = w.command

variable {tasks tasks' : CommandTasks.State}

theorem goes_step (action : CommandTasks.Action) (h : tasks.step action = some tasks') (id : String) :
    Goes (tasks.side id) (tasks'.side id) := by
  have hstep := (State.stepped_of_step h).taskStep id
  exact ⟨hstep.startsOnce,fun _ hw => hstep.command hw⟩

theorem Acts.goes (h : Acts root outside arguments tool tasks tasks')
    (hfree : (tasks.side outside.taskId).worker = none) (id : String) : Goes (tasks.side id) (tasks'.side id) := by
  cases h with
  | same => exact ⟨fun hs => hs,fun w hw => ⟨w,hw,rfl⟩⟩
  | read taskId => exact goes_step (.get taskId (outside.millis 0)) rfl id
  | cancelled taskId => exact goes_step (.cancel taskId (outside.millis 0)) rfl id
  | @spawned _ _ command target timeoutSeconds maxOutputBytes =>
    apply goes_step (.start outside.taskId target command timeoutSeconds maxOutputBytes (outside.millis 0)
      (outside.millis 1))
    rw [State.step,hfree]
    rfl

theorem worker_cancelCommandTask (tasks : CommandTasks.State) (taskId : String) (now : ℕ) (id : String) :
    ((tasks.cancelCommandTask taskId now).2.side id).worker = (tasks.side id).worker := by
  unfold State.cancelCommandTask
  dsimp only
  split
  · rfl
  · split
    · split
      · rw [State.side_update]
        split
        · rename_i hid
          rw [hid]
        · rfl
      · rfl
    · rw [State.side_update]
      split
      · rename_i hid
        rw [hid]
      · rfl

/-- A worker that is there after the call is that of a command that was authorised. -/
theorem Acts.authorized (h : Acts root outside arguments tool tasks tasks')
    (hfree : (tasks.side outside.taskId).worker = none) {w : Worker}
    (hw : (tasks'.side outside.taskId).worker = some w) :
    tool = .executeCommandAsync ∧ ∃ connectionId given, authorizeCommand root.settings outside connectionId given
      (valueGetBool arguments "confirm_dangerous") = .ok w.command := by
  cases h with
  | same =>
    rw [hfree] at hw
    cases hw
  | read taskId =>
    have hside : ((tasks.getCommandTask taskId (outside.millis 0)).2).side = tasks.side := by
      unfold State.getCommandTask
      dsimp only
      split <;> rfl
    rw [hside,hfree] at hw
    cases hw
  | cancelled taskId =>
    rw [worker_cancelCommandTask,hfree] at hw
    cases hw
  | spawned target timeoutSeconds maxOutputBytes htool hauthorized =>
    unfold State.startCommandTask at hw
    dsimp only at hw
    split at hw
    · rw [hfree] at hw
      cases hw
    · rw [State.side_update,if_pos rfl] at hw
      cases hw
      exact ⟨htool,_,_,hauthorized⟩

end

/-! ## Histories -/

/-- A call that was made: the settings and the connections that it found, its arguments, what it met, the command lines
that it has started in the pool, and the task of which it has spawned the worker. -/
structure Asked where
  root : Root
  name : String
  arguments : Json
  outside : Outside
  shell : Shell outside
  started : List String
  task : Option String

structure History where
  server : Server
  calls : List Asked

inductive Happening
  | change (root : Root)
  | call (name : String) (arguments : Json) (outside : Outside) (shell : Shell outside)
  | work (action : CommandTasks.Action) (outside : Outside)

def Happening.event : Happening → Event
  | .change root => .change root
  | .call name arguments outside _ => .call name arguments outside
  | .work action outside => .work action outside

namespace History

def initial (root : Root) : History := ⟨.initial root,[]⟩

def step (h : History) : Happening → Option History
  | .call name arguments outside shell =>
    if (h.server.tasks.side outside.taskId).worker.isSome then none
    else
      let left := after (Watched.callTool h.server.root outside shell name arguments) ⟨h.server,[]⟩
      some {
        server := left.state
        calls := {
          root := h.server.root
          name
          arguments
          outside
          shell
          started := left.trace
          task := if (left.state.tasks.side outside.taskId).worker.isSome then some outside.taskId else none
          } :: h.calls }
  | .change root => (h.server.step (.change root)).map fun server => { h with server }
  | .work action outside => (h.server.step (.work action outside)).map fun server => { h with server }

/-- The server of a history goes as it goes by itself. -/
theorem server_step (h : History) (happening : Happening) :
    (h.step happening).map History.server = h.server.step happening.event := by
  have hother (event : Event) : ((h.server.step event).map fun server => { h with server }).map History.server =
      h.server.step event := by
    rw [Option.map_map]
    exact Option.map_id'
  cases happening with
  | change root => exact hother (.change root)
  | work action outside => exact hother (.work action outside)
  | call name arguments outside shell =>
    have hstate := (erases_callTool h.server.root outside shell name arguments).after ⟨h.server,[]⟩
    simp only [step,Happening.event,Server.step]
    split
    · rfl
    · rw [Option.map_some,hstate]

/-- The command lines that were started for a call, by itself or by its task. -/
def startedFor (h : History) (c : Asked) : List String :=
  c.started ++
    match c.task with
    | none => []
    | some id => (h.server.tasks.side id).commandsStarted

end History

namespace Asked

/-- What the call goes to the pool with. -/
def command (c : Asked) : Except AppError (Option (ResolvedSshConfig × String)) :=
  callCommand c.root c.outside c.name c.arguments

def Confirmed (c : Asked) : Prop :=
  c.root.settings.allowDangerousCommands = true ∧ valueGetBool c.arguments "confirm_dangerous" = true

def Dangerous (c : Asked) (line : String) : Prop := (detectDangerousCommand c.outside line).isSome = true

/-- The first attempt has failed, there is a session for the second one, and that starts the command line. -/
def Retried (c : Asked) (config : ResolvedSshConfig) (line : String) : Prop :=
  (∃ error, c.outside.exec 0 line = .error error) ∧ connects c.root c.outside config 1 = .ok () ∧
    c.shell.begins 1 line = true

/-- The first attempt of the call has started its command line and has failed all the same, and so it is sent again. -/
def Resends (c : Asked) : Prop :=
  ∃ config line, c.command = .ok (some (config,line)) ∧ opens c.root c.outside config = .ok () ∧
    c.shell.begins 0 line = true ∧ c.Retried config line

/-- A script has a dangerous command line and is started for a caller that has not confirmed it. -/
def SkipsConfirmation (c : Asked) : Prop :=
  Tool.ofName c.name = some .executeScript ∧ valueGetBool c.arguments "confirm_dangerous" = false ∧
    ∃ config line, c.command = .ok (some (config,line)) ∧ c.Dangerous line ∧
      opens c.root c.outside config = .ok () ∧ (c.shell.begins 0 line = true ∨ c.Retried config line)

/-- What is promised of a call: its command line is started at most once, and a dangerous one only if the settings allow
it and the caller has confirmed it. -/
structure Kept (c : Asked) (started : List String) : Prop where
  once : started.length ≤ 1
  confirmed : ∀ line ∈ started, c.Dangerous line → c.Confirmed

end Asked

variable {connectionId : String}

theorem authorizeCommand_dangerous {settings : McpSettings} {outside : Outside} {given command : String}
    {confirmDangerous : Bool}
    (h : authorizeCommand settings outside connectionId given confirmDangerous = .ok command)
    (hdangerous : (detectDangerousCommand outside command).isSome = true) :
    settings.allowDangerousCommands = true ∧ confirmDangerous = true := by
  obtain ⟨_,-,h⟩ := (except_bind_ok _ _ _).mp h
  obtain ⟨_,-,h⟩ := (except_bind_ok _ _ _).mp h
  obtain ⟨required,-,h⟩ := (except_bind_ok _ _ _).mp h
  split at h
  · rename_i hnone
    cases h
    rw [hnone] at hdangerous
    cases hdangerous
  · split at h
    · rename_i hallowed
      rwa [Bool.and_eq_true] at hallowed
    · cases h

/-! ### Calls that go to the pool -/

section
variable {c : Asked} {config : ResolvedSshConfig} {line : String}

theorem commandFor_ok {root : Root} {outside : Outside} {connectionId given : String} {timeoutSeconds : Option ℕ}
    {confirmDangerous : Bool}
    (h : commandFor root outside connectionId given timeoutSeconds confirmDangerous = .ok (some (config,line))) :
    authorizeCommand root.settings outside connectionId given confirmDangerous = .ok line := by
  obtain ⟨command,hauthorized,h⟩ := (except_bind_ok _ _ _).mp h
  obtain ⟨_,-,h⟩ := (except_bind_ok _ _ _).mp h
  obtain ⟨_,-,h⟩ := (except_bind_ok _ _ _).mp h
  cases h
  exact hauthorized

/-- A dangerous command line gets to the pool when it is allowed, and confirmed unless it is that of a script. -/
theorem toolCommand_dangerous {root : Root} {outside : Outside} {arguments : Json} {tool : Tool}
    (h : toolCommand root outside arguments tool = .ok (some (config,line)))
    (hdangerous : (detectDangerousCommand outside line).isSome = true) :
    root.settings.allowDangerousCommands = true ∧
      (tool = .executeScript ∨ valueGetBool arguments "confirm_dangerous" = true) := by
  cases tool with
  | executeCommand =>
    obtain ⟨_,-,h⟩ := (except_bind_ok _ _ _).mp h
    obtain ⟨_,-,h⟩ := (except_bind_ok _ _ _).mp h
    obtain ⟨_,-,h⟩ := (except_bind_ok _ _ _).mp h
    have hboth := authorizeCommand_dangerous (commandFor_ok h) hdangerous
    exact ⟨hboth.1,.inr hboth.2⟩
  | serverMonitor =>
    obtain ⟨_,-,h⟩ := (except_bind_ok _ _ _).mp h
    have hboth := authorizeCommand_dangerous (commandFor_ok h) hdangerous
    cases hboth.2
  | executeScript =>
    obtain ⟨_,-,h⟩ := (except_bind_ok _ _ _).mp h
    obtain ⟨_,-,h⟩ := (except_bind_ok _ _ _).mp h
    obtain ⟨_,-,h⟩ := (except_bind_ok _ _ _).mp h
    obtain ⟨_,-,h⟩ := (except_bind_ok _ _ _).mp h
    obtain ⟨_,-,h⟩ := (except_bind_ok _ _ _).mp h
    obtain ⟨_,-,h⟩ := (except_bind_ok _ _ _).mp h
    exact ⟨(authorizeCommand_dangerous (commandFor_ok h) hdangerous).1,.inl rfl⟩
  | _ => cases h

theorem toolCommand_of_command (h : c.command = .ok (some (config,line))) :
    ∃ tool, Tool.ofName c.name = some tool ∧
      toolCommand c.root c.outside c.arguments tool = .ok (some (config,line)) := by
  obtain ⟨_,-,h⟩ := (except_bind_ok _ _ _).mp h
  obtain ⟨_,-,h⟩ := (except_bind_ok _ _ _).mp h
  obtain ⟨_,-,h⟩ := (except_bind_ok _ _ _).mp h
  split at h
  · cases h
  · exact ⟨_,‹_›,h⟩

/-- The second attempt starts the command line, or it does not. -/
theorem attempts_cases (line : String) (hopens : opens c.root c.outside config = .ok ()) :
    (c.Retried config line ∧ attempts c.root c.outside c.shell config line =
        (if c.shell.begins 0 line then [line] else []) ++ [line]) ∨
      (¬ c.Retried config line ∧ attempts c.root c.outside c.shell config line =
        (if c.shell.begins 0 line then [line] else []) ++ []) := by
  unfold attempts Asked.Retried
  rw [hopens]
  cases hexec : c.outside.exec 0 line with
  | ok output => simp
  | error error =>
    cases hconnects : connects c.root c.outside config 1 with
    | error error => simp
    | ok _ => cases hbegins : c.shell.begins 1 line <;> simp

theorem attempts_of_error {error : AppError} (hopens : opens c.root c.outside config = .error error) :
    attempts c.root c.outside c.shell config line = [] := by
  unfold attempts
  rw [hopens]

theorem mem_attempts {other : String} (h : other ∈ attempts c.root c.outside c.shell config line) :
    other = line ∧ opens c.root c.outside config = .ok () ∧ (c.shell.begins 0 line = true ∨ c.Retried config line) := by
  cases hopens : opens c.root c.outside config with
  | error error =>
    rw [attempts_of_error hopens] at h
    cases h
  | ok _ =>
    have hcases := attempts_cases line hopens
    grind

theorem attempts_mem (hopens : opens c.root c.outside config = .ok ())
    (h : c.shell.begins 0 line = true ∨ c.Retried config line) :
    line ∈ attempts c.root c.outside c.shell config line := by
  rcases attempts_cases line hopens with ⟨hretried,heq⟩ | ⟨hretried,heq⟩
  · rw [heq]
    exact mem_append_right _ (mem_singleton.mpr rfl)
  · rw [heq,if_pos (h.resolve_right hretried)]
    exact mem_singleton.mpr rfl

theorem length_attempts : (attempts c.root c.outside c.shell config line).length ≤ 1 ↔
    ¬ (opens c.root c.outside config = .ok () ∧ c.shell.begins 0 line = true ∧ c.Retried config line) := by
  cases hopens : opens c.root c.outside config with
  | error error => simp [attempts_of_error hopens]
  | ok _ =>
    rcases attempts_cases line hopens with ⟨hretried,heq⟩ | ⟨hretried,heq⟩
    · cases hbegins : c.shell.begins 0 line <;> simp [heq,hbegins,hretried]
    · cases hbegins : c.shell.begins 0 line <;> simp [heq,hbegins,hretried]

/-- A call that starts its command line in the pool. -/
theorem kept_pool : c.Kept (startedWith c.root c.outside c.shell c.command) ↔ ¬ c.Resends ∧ ¬ c.SkipsConfirmation := by
  constructor
  · intro h
    constructor
    · rintro ⟨config,line,hcommand,hsent⟩
      have honce := h.once
      rw [hcommand] at honce
      exact length_attempts.mp honce hsent
    · rintro ⟨-,hunconfirmed,config,line,hcommand,hdangerous,hopens,hbegins⟩
      have hconfirmed := h.confirmed line (by rw [hcommand]; exact attempts_mem hopens hbegins) hdangerous
      rw [hconfirmed.2] at hunconfirmed
      cases hunconfirmed
  · rintro ⟨hresends,hskips⟩
    cases hcommand : c.command with
    | error error => exact ⟨Nat.zero_le 1,fun line hline => nomatch hline⟩
    | ok sent =>
      cases sent with
      | none => exact ⟨Nat.zero_le 1,fun line hline => nomatch hline⟩
      | some sent =>
        obtain ⟨config,line⟩ := sent
        constructor
        · exact length_attempts.mpr fun hsent => hresends ⟨config,line,hcommand,hsent⟩
        · intro other hother hdangerous
          obtain ⟨rfl,hopens,hbegins⟩ := mem_attempts hother
          obtain ⟨tool,htool,htoolCommand⟩ := toolCommand_of_command hcommand
          have hboth := toolCommand_dangerous htoolCommand hdangerous
          refine ⟨hboth.1,?_⟩
          rcases hboth.2 with rfl | hconfirmed
          · by_contra hnot
            exact hskips ⟨htool,eq_false_of_ne_true hnot,config,other,hcommand,hdangerous,hopens,hbegins⟩
          · exact hconfirmed

end

/-! ### Every call of a history -/

/-- What holds of the calls and of the workers in every history. -/
structure History.Settled (h : History) : Prop where
  sides : ∀ id, StartsOnce (h.server.tasks.side id)
  started : ∀ c ∈ h.calls, c.started = startedWith c.root c.outside c.shell c.command
  tasks : ∀ c ∈ h.calls, ∀ id, c.task = some id → toolOf c.name = .executeCommandAsync ∧
    ∃ w, (h.server.tasks.side id).worker = some w ∧ ∃ connectionId given,
      authorizeCommand c.root.settings c.outside connectionId given (valueGetBool c.arguments "confirm_dangerous") =
        .ok w.command

theorem History.settled_initial (root : Root) : (History.initial root).Settled :=
  ⟨fun _ => startsOnce_unborn,fun _ hc => (nomatch hc),fun _ hc => nomatch hc⟩

variable {h : History}

/-- The workers go on, and the calls stay as they are. -/
theorem History.Settled.goes (hs : h.Settled) {server : Server}
    (hgoes : ∀ id, Goes (h.server.tasks.side id) (server.tasks.side id)) : History.Settled { h with server } := by
  constructor
  · exact fun id => (hgoes id).startsOnce (hs.sides id)
  · exact hs.started
  · intro c hc id htask
    obtain ⟨htool,w,hw,connectionId,given,hauthorized⟩ := hs.tasks c hc id htask
    obtain ⟨w',hw',hcommand⟩ := (hgoes id).command w hw
    exact ⟨htool,w',hw',connectionId,given,hcommand ▸ hauthorized⟩

theorem History.Settled.step {h' : History} {happening : Happening} (hs : h.Settled)
    (hstep : h.step happening = some h') : h'.Settled := by
  cases happening with
  | change root =>
    cases hstep
    exact hs.goes fun id => ⟨fun hside => hside,fun w hw => ⟨w,hw,rfl⟩⟩
  | work action outside =>
    obtain ⟨server,hserver,rfl⟩ := Option.map_eq_some_iff.mp hstep
    simp only [Server.step] at hserver
    split_ifs at hserver
    obtain ⟨tasks,htasks,rfl⟩ := Option.map_eq_some_iff.mp hserver
    exact hs.goes fun id => goes_step action htasks id
  | call name arguments outside shell =>
    obtain ⟨hfree,hstep⟩ := Option.ite_none_left_eq_some.mp hstep
    have hnone : (h.server.tasks.side outside.taskId).worker = none := Option.not_isSome_iff_eq_none.mp hfree
    have hstate := (erases_callTool h.server.root outside shell name arguments).after ⟨h.server,[]⟩
    have hacts : Acts h.server.root outside arguments (toolOf name) h.server.tasks _ := actsOn_callTool name h.server
    rw [← hstate] at hacts
    have hgone := hs.goes (hacts.goes hnone)
    cases hstep
    constructor
    · exact hgone.sides
    · intro c hc
      rcases mem_cons.mp hc with rfl | hc
      · exact traces_callTool name arguments ⟨h.server,[]⟩
      · exact hgone.started c hc
    · intro c hc id htask
      rcases mem_cons.mp hc with rfl | hc
      · obtain ⟨hsome,htask⟩ := Option.ite_none_right_eq_some.mp htask
        cases htask
        obtain ⟨w,hw⟩ := Option.isSome_iff_exists.mp hsome
        obtain ⟨htool,connectionId,given,hauthorized⟩ := hacts.authorized hnone hw
        exact ⟨htool,w,hw,connectionId,given,hauthorized⟩
      · exact hgone.tasks c hc id htask

variable {line : String}

/-- A call whose worker runs its command has gone to the pool with nothing. -/
theorem Asked.command_of_task {c : Asked} (h : toolOf c.name = .executeCommandAsync) {config : ResolvedSshConfig} :
    c.command ≠ .ok (some (config,line)) := by
  intro hcommand
  obtain ⟨tool,htool,htoolCommand⟩ := toolCommand_of_command hcommand
  rw [toolOf,htool] at h
  subst h
  cases htoolCommand

theorem History.Settled.kept (hs : h.Settled) {c : Asked} (hc : c ∈ h.calls) :
    c.Kept (h.startedFor c) ↔ ¬ c.Resends ∧ ¬ c.SkipsConfirmation := by
  cases htask : c.task with
  | none =>
    rw [History.startedFor,htask,append_nil,hs.started c hc]
    exact kept_pool
  | some id =>
    obtain ⟨htool,w,hw,connectionId,given,hauthorized⟩ := hs.tasks c hc id htask
    have hpool : c.started = [] := by
      rw [hs.started c hc]
      cases hcommand : c.command with
      | error error => rfl
      | ok sent =>
        cases sent with
        | none => rfl
        | some sent => exact absurd hcommand (Asked.command_of_task htool)
    have hstarted : h.startedFor c = List.replicate (h.server.tasks.side id).starts w.command := by
      rw [History.startedFor,htask,hpool,nil_append]
      simp only [Side.commandsStarted,hw]
    constructor
    · intro _
      constructor
      · rintro ⟨config,line,hcommand,-⟩
        exact Asked.command_of_task htool hcommand
      · rintro ⟨-,-,config,line,hcommand,-⟩
        exact Asked.command_of_task htool hcommand
    · intro _
      constructor
      · rw [hstarted,length_replicate]
        exact (hs.sides id).once
      · intro line hline hdangerous
        rw [hstarted] at hline
        have heq := eq_of_mem_replicate hline
        subst heq
        exact authorizeCommand_dangerous hauthorized hdangerous

variable {arguments : Json}

/-- A call is noted with what it has started. -/
theorem History.call_started {h' : History} {name : String} {outside : Outside} {shell : Shell outside}
    (hstep : h.step (.call name arguments outside shell) = some h') :
    ∃ c ∈ h'.calls, c.started = startedWith h.server.root outside shell
        (callCommand h.server.root outside name arguments) ∧ c.outside = outside ∧ c.arguments = arguments := by
  obtain ⟨-,hstep⟩ := Option.ite_none_left_eq_some.mp hstep
  cases hstep
  exact ⟨_,mem_cons_self,traces_callTool name arguments ⟨h.server,[]⟩,rfl,rfl⟩

/-! ### What a script goes to the pool with -/

theorem shellQuote_toList {value : String} (h : '\'' ∉ value.toList) :
    (shellQuote value).toList = "'".toList ++ value.toList ++ "'".toList := by
  have hmap : (value.toList.flatMap fun c => if c = '\'' then "'\\''".toList else [c]) =
      value.toList.flatMap fun c => [c] := by
    refine flatMap_congr fun c hc => if_neg ?_
    rintro rfl
    exact h hc
  rw [shellQuote,hmap,flatMap_singleton',String.ofList_toList,String.toList_append,String.toList_append]
theorem detectDangerousCommand_of_infix {outside : Outside} (hlower : outside.toLowercase line = line)
    {check : String × String} (hcheck : check ∈ dangerousCommands)
    (h : check.1.toList <:+: [' '].intercalate ((line.toList.splitOnP Text.isWhitespace).filter (· ≠ []))) :
    (detectDangerousCommand outside line).isSome = true := by
  rw [detectDangerousCommand,hlower,Option.isSome_map,find?_isSome]
  refine ⟨check,hcheck,?_⟩
  rw [Text.contains,any_eq_true]
  obtain ⟨before,after,heq⟩ := h
  refine ⟨check.1.toList ++ after,?_,by simp⟩
  rw [mem_tails]
  refine ⟨before,?_⟩
  rw [← append_assoc,heq]
  simp [Text.splitWhitespace,String.toList_intercalate]

theorem authorizeCommand_confirmed {settings : McpSettings} {outside : Outside} {command : String}
    (hssh : ensureSshEnabled settings = .ok ()) (hexposed : ensureConnectionExposed settings connectionId = .ok ())
    (hallowed : settings.allowDangerousCommands = true) (hcommand : Text.trim command ≠ "") :
    authorizeCommand settings outside connectionId command true = .ok (Text.trim command) := by
  simp only [authorizeCommand,hssh,hexposed,requireCommand,if_neg hcommand,hallowed,bind,Except.bind]
  split <;> rfl

theorem toolCommand_executeScript {root : Root} {outside : Outside} {id path remote : String} {given : Option ℕ}
    {seconds : ℕ} (hid : valueGetStr arguments "connection_id" = .ok id)
    (hpath : valueGetStr arguments "script_path" = .ok path)
    (hgiven : valueGetTimeoutSeconds outside arguments = .ok given)
    (hseconds : validateTimeout given 300 = .ok seconds) (hread : outside.localRead path false = .ok ())
    (hremote : "/tmp/mxterm-mcp-" ++ toString (outside.millis 0) ++ "-" ++ scriptName outside path = remote)
    (huploaded : (uploaded root outside id path remote).isOk = true) :
    toolCommand root outside arguments .executeScript = commandFor root outside id
      (Watched.scriptCommand remote (arguments.getText? "interpreter") (arguments.getText? "args"))
      (some seconds) true := by
  cases hresult : uploaded root outside id path remote with
  | error error =>
    rw [hresult] at huploaded
    cases huploaded
  | ok result => simp only [toolCommand,hid,hpath,hgiven,hseconds,hread,hremote,hresult,bind,Except.bind]

theorem callCommand_of_tool {root : Root} {outside : Outside} {name : String} {tool : Tool}
    (hplain : rejectPlaintextCredentialArgs arguments = .ok ()) (hopen : outside.openMetadata = .ok ())
    (hquery : outside.querySettings = .ok ()) (htool : Tool.ofName name = some tool) :
    callCommand root outside name arguments = toolCommand root outside arguments tool := by
  simp only [callCommand,hplain,hopen,hquery,htool,bind,Except.bind]

theorem commandFor_of_ok {root : Root} {outside : Outside} {given : String} {seconds : ℕ}
    {config : ResolvedSshConfig} {timeoutSeconds : Option ℕ} {confirmDangerous : Bool}
    (hauthorized : authorizeCommand root.settings outside connectionId given confirmDangerous = .ok line)
    (hvalid : validateTimeout timeoutSeconds 300 = .ok seconds)
    (hconfig : resolveSsh root outside connectionId = .ok config) :
    commandFor root outside connectionId given timeoutSeconds confirmDangerous = .ok (some (config,line)) := by
  simp only [commandFor,hauthorized,hvalid,hconfig,bind,Except.bind]

/-! Calls about the one connection of a server that allows dangerous commands. -/
namespace Repeated

def root : Root where
  tables := (HiddenTask.root .all).tables
  mcpSettings := some {
    enabled := true
    sshOperationsEnabled := true
    allowDangerousCommands := true
    connectionExposureMode := .all }
  webDavSettings := none

/-- The first attempt at a command ends with an error after the command was started. -/
def outside : Outside := { HiddenTask.outside "t" with
  exec := fun attempt _ => if attempt = 0 then .error ⟨"ssh_session_closed","","",true⟩ else .ok ⟨[],[],some 0⟩ }

def shell : Shell outside := ⟨fun _ _ => true,fun _ => rfl⟩

def command : Happening :=
  .call "execute_command" (.object [("connection_id",.text "c"),("command",.text "id")]) outside shell

def scriptArguments : Json :=
  .object [("connection_id",.text "c"),("script_path",.text "a.sh"),("args",.text "; reboot")]

def script : Happening :=
  .call "execute_script" scriptArguments (HiddenTask.outside "t") ⟨fun _ _ => true,fun _ => rfl⟩

def task : List Happening :=
  [.call "execute_command_async" (.object [("connection_id",.text "c"),("command",.text "id")]) outside shell,
    .work (.mark "t" 1 1) outside,.work (.connect "t" (.ok ())) outside,.work (.attach "t") outside,
    .work (.openChannel "t" (.ok ())) outside]

/-- What was started for the calls: how often, whether a line is dangerous, and whether the caller has confirmed it. -/
def seen (h : History) : List (ℕ × Bool × Bool) :=
  h.calls.map fun c => ((h.startedFor c).length,
    (h.startedFor c).any fun line => (detectDangerousCommand c.outside line).isSome,
    valueGetBool c.arguments "confirm_dangerous")

theorem command_seen : ((History.initial root).step command).map seen = some [(2,false,false)] := by decide +kernel

theorem task_seen : (run History.step (.initial root) task).map seen = some [(1,false,false)] := by decide +kernel

/-! The line of the script. -/

def remotePath : String := "/tmp/mxterm-mcp-0-script.sh"

def scriptChars : List Char :=
  let path := "'".toList ++ remotePath.toList ++ "'".toList
  "chmod +x ".toList ++ path ++ " && ".toList ++ "'sh'".toList ++ " ".toList ++ path ++ " ".toList ++
    "; reboot".toList ++ " ; status=$?; rm -f ".toList ++ path ++ "; exit $status".toList

theorem script_texts : '\'' ∉ remotePath.toList ∧ (shellQuote (Text.trim "sh")).toList = "'sh'".toList ∧
    (Text.trim "; reboot").toList = "; reboot".toList ∧
    scriptChars.head? = some 'c' ∧ scriptChars.getLast? = some 's' ∧ scriptChars.isEmpty = false ∧
    "reboot".toList <:+: [' '].intercalate ((scriptChars.splitOnP Text.isWhitespace).filter (· ≠ [])) := by
  decide +kernel

def scriptCommand : String := Watched.scriptCommand remotePath none (some "; reboot")

theorem toList_scriptCommand : scriptCommand.toList = scriptChars := by
  have hpath := shellQuote_toList script_texts.1
  unfold scriptCommand Watched.scriptCommand
  simp only [String.toList_append,Option.getD,hpath,script_texts.2.1,script_texts.2.2.1]
  rfl

theorem trim_scriptCommand : Text.trim scriptCommand = scriptCommand := by
  apply Text.trim_of_trimmed
  constructor
  · rw [toList_scriptCommand]
    exact fun c hc => Option.some.inj hc ▸ rfl
  · rw [toList_scriptCommand,script_texts.2.2.2.2.1]
    exact fun c hc => Option.some.inj hc ▸ rfl

theorem scriptCommand_ne : scriptCommand ≠ "" := by
  intro hempty
  have hchars := script_texts.2.2.2.2.2.1
  rw [← toList_scriptCommand,hempty] at hchars
  cases hchars

theorem script_dangerous : (detectDangerousCommand (HiddenTask.outside "t") scriptCommand).isSome = true := by
  have hcheck : ("reboot","system reboot") ∈ dangerousCommands := by simp [dangerousCommands]
  refine detectDangerousCommand_of_infix rfl hcheck ?_
  rw [toList_scriptCommand]
  exact script_texts.2.2.2.2.2.2

/-- The checks that a script passes on its way. -/
theorem script_checks : rejectPlaintextCredentialArgs scriptArguments = .ok () ∧
    valueGetStr scriptArguments "connection_id" = .ok "c" ∧ valueGetStr scriptArguments "script_path" = .ok "a.sh" ∧
    valueGetTimeoutSeconds (HiddenTask.outside "t") scriptArguments = .ok none ∧
    "/tmp/mxterm-mcp-" ++ toString 0 ++ "-" ++ scriptName (HiddenTask.outside "t") "a.sh" = remotePath ∧
    (uploaded root (HiddenTask.outside "t") "c" "a.sh" remotePath).isOk = true ∧
    ensureConnectionExposed root.settings "c" = .ok () ∧
    (resolveSsh root (HiddenTask.outside "t") "c" >>= opens root (HiddenTask.outside "t")) = .ok () ∧
    valueGetBool scriptArguments "confirm_dangerous" = false := by
  decide +kernel

theorem script_authorized :
    authorizeCommand root.settings (HiddenTask.outside "t") "c" scriptCommand true = .ok scriptCommand := by
  obtain ⟨-,-,-,-,-,-,hexposed,-,-⟩ := script_checks
  have hne : Text.trim scriptCommand ≠ "" := by
    rw [trim_scriptCommand]
    exact scriptCommand_ne
  rw [authorizeCommand_confirmed rfl hexposed rfl hne,trim_scriptCommand]

theorem script_command : ∃ config, callCommand root (HiddenTask.outside "t") "execute_script" scriptArguments =
    .ok (some (config,scriptCommand)) ∧ opens root (HiddenTask.outside "t") config = .ok () := by
  obtain ⟨hplain,hid,hpath,hgiven,hremote,huploaded,-,hresolved,-⟩ := script_checks
  obtain ⟨config,hconfig,hopens⟩ := (except_bind_ok _ _ _).mp hresolved
  have htool : callCommand root (HiddenTask.outside "t") "execute_script" scriptArguments =
      toolCommand root (HiddenTask.outside "t") scriptArguments .executeScript :=
    callCommand_of_tool hplain rfl rfl rfl
  have hvalid : validateTimeout none 300 = .ok 30 := rfl
  have hscript : toolCommand root (HiddenTask.outside "t") scriptArguments .executeScript =
      commandFor root (HiddenTask.outside "t") "c" scriptCommand (some 30) true :=
    toolCommand_executeScript hid hpath hgiven hvalid rfl hremote huploaded
  have hvalid' : validateTimeout (some 30) 300 = .ok 30 := rfl
  exact ⟨config,by rw [htool,hscript,commandFor_of_ok script_authorized hvalid' hconfig],hopens⟩

theorem script_started : ∃ h, (History.initial root).step script = some h ∧ ∃ c ∈ h.calls,
    (∃ line ∈ h.startedFor c, c.Dangerous line) ∧ ¬ c.Confirmed := by
  obtain ⟨config,hcommand,hopens⟩ := script_command
  cases hstep : (History.initial root).step script with
  | none => cases hstep
  | some h =>
    obtain ⟨c,hc,hstarted,houtside,harguments⟩ := History.call_started hstep
    refine ⟨h,rfl,c,hc,⟨scriptCommand,?_,?_⟩,?_⟩
    · change callCommand (History.initial root).server.root _ _ _ = _ at hcommand
      change opens (History.initial root).server.root _ _ = _ at hopens
      rw [History.startedFor,hstarted,hcommand,startedWith,attempts,hopens]
      exact mem_append_left _ (mem_append_left _ (mem_singleton.mpr rfl))
    · rw [Asked.Dangerous,houtside]
      exact script_dangerous
    · rintro ⟨-,hconfirmed⟩
      rw [harguments] at hconfirmed
      cases hconfirmed

end Repeated

/-- In every history, a call starts its command line at most once, and a dangerous one only when it is allowed and
confirmed, exactly if it is not sent again after it was started and is not that of a script that nobody confirmed. -/
theorem starts_once_confirmed {h : History}
    (hreached : Reached History.step (fun _ _ => True) (fun h => ∃ root, h = .initial root) h) {c : Asked}
    (hc : c ∈ h.calls) : c.Kept (h.startedFor c) ↔ ¬ c.Resends ∧ ¬ c.SkipsConfirmation := by
  have hstart : ∀ h, (∃ root, h = History.initial root) → h.Settled := by
    rintro _ ⟨root,rfl⟩
    exact History.settled_initial root
  have hsettled := hreached.invariant hstart fun _ _ _ hs _ hstep => hs.step hstep
  exact hsettled.kept hc

/-- The call of a task whose worker has started its command. -/
theorem starts_once_confirmed_task : ∃ (h : History) (c : Asked), (h.startedFor c).length = 1 ∧
    (c.Kept (h.startedFor c) ↔ ¬ c.Resends ∧ ¬ c.SkipsConfirmation) := by
  obtain ⟨h,hrun,hseen⟩ := Option.map_eq_some_iff.mp Repeated.task_seen
  cases hcalls : h.calls with
  | nil =>
    rw [Repeated.seen,hcalls] at hseen
    cases hseen
  | cons c rest =>
    rw [Repeated.seen,hcalls,map_cons] at hseen
    have hlength := congrArg Prod.fst (List.cons.inj hseen).1
    exact ⟨h,c,hlength,starts_once_confirmed (.run (.start ⟨_,rfl⟩) hrun) (hcalls ▸ mem_cons_self)⟩

/-- A command that was started before its session broke is started again, and a dangerous argument of a script is
executed without a confirmation. -/
theorem started_twice_or_unconfirmed :
    (¬ ∀ h, Reached History.step (fun _ _ => True) (fun h => ∃ root, h = .initial root) h →
      ∀ c ∈ h.calls, (h.startedFor c).length ≤ 1) ∧
    ¬ ∀ h, Reached History.step (fun _ _ => True) (fun h => ∃ root, h = .initial root) h →
      ∀ c ∈ h.calls, ∀ line ∈ h.startedFor c, c.Dangerous line → c.Confirmed := by
  constructor
  · intro hall
    obtain ⟨h,hstep,hseen⟩ := Option.map_eq_some_iff.mp Repeated.command_seen
    have hmem : (2,false,false) ∈ Repeated.seen h := by
      rw [hseen]
      exact mem_singleton.mpr rfl
    obtain ⟨c,hc,heq⟩ := mem_map.mp hmem
    have honce := hall h (.step (.start ⟨_,rfl⟩) trivial hstep) c hc
    have htwice : (h.startedFor c).length = 2 := congrArg Prod.fst heq
    omega
  · intro hall
    obtain ⟨h,hstep,c,hc,⟨line,hline,hdangerous⟩,hunconfirmed⟩ := Repeated.script_started
    exact hunconfirmed (hall h (.step (.start ⟨_,rfl⟩) trivial hstep) c hc line hline hdangerous)

end Mcp
end Mxterm
