import Mxterm.CommandTaskRuns
import Mxterm.McpTools
import Mxterm.WeakestPreconditions

/-! Which connections a caller of the MCP server reaches, in every history of settings and calls. -/
namespace Mxterm.Mcp

open Execution RepositoryCommands RemoteCommands CommandTasks Transitions List

/-! ## What is exposed -/

/-- An exposed SSH connection. -/
def Root.Exposes (root : Root) (id : String) : Prop :=
  ∃ row ∈ root.tables.connections, row.id = id ∧ row.protocol = .ssh ∧ connectionIsExposed root.settings id = true

def Access.Permitted (a : Access) : Prop :=
  a.root.settings.enabled = true ∧ a.group.switchedOn a.root.settings = true ∧ a.root.Exposes a.connectionId

/-- The same settings, and the same exposed SSH connections. -/
structure Root.Agrees (root root' : Root) : Prop where
  settings : root.settings = root'.settings
  webDav : root.webDavSettings = root'.webDavSettings
  exposed : exposedConnections root.settings (connectionList root.tables) =
    exposedConnections root'.settings (connectionList root'.tables)

theorem exposes_of_mem {root : Root} {connection : ConnectionProfile}
    (h : connection ∈ exposedConnections root.settings (connectionList root.tables)) : root.Exposes connection.id := by
  rw [exposedConnections,mem_filter,mem_filter,mem_connectionList] at h
  obtain ⟨⟨⟨row,hrow,rfl⟩,hprotocol⟩,hexposed⟩ := h
  exact ⟨row,hrow,rfl,of_decide_eq_true hprotocol,hexposed⟩

/-- The connection that `get_connection` finds is the one of the list. -/
theorem connectionGet_filter {root : Root} {id : String} {connection : ConnectionProfile} :
    ((connectionGet root.tables id).filter fun connection => connectionIsExposed root.settings connection.id).filter
        connectionIsSupported = some connection ↔
      connection ∈ exposedConnections root.settings (connectionList root.tables) ∧ connection.id = id := by
  rw [Option.filter_eq_some_iff,Option.filter_eq_some_iff,connectionGet_eq_some,exposedConnections,mem_filter,
    mem_filter]
  tauto

/-! ## Connections that are resolved -/

variable {config : ResolvedSshConfig}

theorem resolveSavedConnection_ok {root : Root} {outside : Outside} {id : String}
    (h : resolveSavedConnection root outside id = .ok config) :
    ∃ row ∈ root.tables.connections, row.id = id ∧ row.protocol = .ssh ∧ config = ⟨row.id,row.jump⟩ := by
  unfold resolveSavedConnection at h
  cases hfind : root.tables.connections.find? id with
  | none => simp [hfind] at h
  | some row =>
    have hrow := Table.find?_eq_some_iff.mp hfind
    by_cases hprotocol : row.protocol = .ssh
    · simp only [hfind,if_pos hprotocol] at h
      cases hsecret : outside.secrets row.id with
      | error error => simp [hsecret,Except.map] at h
      | ok u =>
        simp only [hsecret,Except.map,Except.ok.injEq] at h
        exact ⟨row,hrow.1,hrow.2,hprotocol,h.symm⟩
    · simp [hfind,if_neg hprotocol] at h

theorem resolveSsh_ok {root : Root} {outside : Outside} {id : String} (h : resolveSsh root outside id = .ok config) :
    ∃ row ∈ root.tables.connections, row.id = Text.trim id ∧ row.protocol = .ssh ∧ config = ⟨row.id,row.jump⟩ := by
  unfold resolveSsh at h
  split at h
  · cases h
  · exact resolveSavedConnection_ok h

/-- A connection that passes the checks of an SSH tool. -/
structure Checked (root : Root) (outside : Outside) (connectionId : String) (config : ResolvedSshConfig) : Prop where
  enabled : ensureSshEnabled root.settings = .ok ()
  exposed : ensureConnectionExposed root.settings connectionId = .ok ()
  resolved : resolveSsh root outside connectionId = .ok config

theorem Checked.permitted {root : Root} {outside : Outside} {connectionId : String}
    (h : Checked root outside connectionId config) : Access.Permitted ⟨root,.ssh,config.connectionId⟩ := by
  have hswitch := ensureSwitch_ok h.enabled
  have hexposed := ensureConnectionExposed_ok h.exposed
  obtain ⟨row,hrow,hid,hprotocol,rfl⟩ := resolveSsh_ok h.resolved
  refine ⟨hswitch.1,hswitch.2,row,hrow,rfl,hprotocol,?_⟩
  rwa [hid]

theorem authorizeCommand_ok {settings : McpSettings} {outside : Outside} {connectionId command authorized : String}
    {confirmDangerous : Bool}
    (h : authorizeCommand settings outside connectionId command confirmDangerous = .ok authorized) :
    ensureSshEnabled settings = .ok () ∧ ensureConnectionExposed settings connectionId = .ok () := by
  obtain ⟨⟨⟩,henabled,h⟩ := (except_bind_ok _ _ _).mp h
  obtain ⟨⟨⟩,hexposed,-⟩ := (except_bind_ok _ _ _).mp h
  exact ⟨henabled,hexposed⟩

/-! ## What a call must not do -/

/-- What the tool reads of a task, when the call comes to it, is of a connection that is exposed by now. -/
def TaskExposed (s : Server) (outside : Outside) (arguments : Json) (tool : Tool) : Prop :=
  tool ∈ [.getTaskStatus,.getTaskOutput,.cancelTask] → ensureSshEnabled s.root.settings = .ok () →
    ∀ taskId, valueGetStr arguments "task_id" = .ok taskId →
      ∀ entry, s.tasks.entry (Text.trim taskId) = some entry →
        (tool ≠ .cancelTask → Registry.isExpired entry.record (outside.millis 0) = false) →
          s.root.Exposes entry.record.connectionId

/-- A tool that connects to its connection by itself: with a pooled session only when the first try fails. -/
def Connects (outside : Outside) : Tool → Prop
  | .testConnection => outside.pooled = false
  | .executeCommand | .serverMonitor => outside.pooled = true → ∃ command error, outside.exec 0 command = .error error
  | .uploadFile | .downloadFile | .uploadDirectory | .downloadDirectory | .executeScript => True
  | _ => False

/-- A jump host by way of which the connection of the call is reached is itself exposed. -/
def JumpExposed (root : Root) (outside : Outside) (arguments : Json) (tool : Tool) : Prop :=
  Connects outside tool → ∀ connectionId, valueGetStr arguments "connection_id" = .ok connectionId →
    ∀ config, Checked root outside connectionId config →
      ∀ jump, jumpHost root outside config = .ok (some jump) → root.Exposes jump

def CallExposed (s : Server) (name : String) (arguments : Json) (outside : Outside) : Prop :=
  ∀ tool, rejectPlaintextCredentialArgs arguments = .ok () → outside.openMetadata = .ok () →
    outside.querySettings = .ok () → Tool.ofName name = some tool →
      TaskExposed s outside arguments tool ∧ JumpExposed s.root outside arguments tool

/-- A jump host that a worker uses was exposed when its task was started. -/
def WorkExposed (s : Server) (outside : Outside) : CommandTasks.Action → Prop
  | .mark id _ _ => ∀ cause, s.causes id = some cause → (∃ entry, s.tasks.entry id = some entry ∧
      entry.record.status = .queued) → ∀ jump, jumpHost s.root outside cause.config = .ok (some jump) →
        cause.root.Exposes jump
  | _ => True

def Within (s : Server) : Event → Prop
  | .change _ => True
  | .call name arguments outside => CallExposed s name arguments outside
  | .work action outside => WorkExposed s outside action

/-! ## What a call keeps -/

/-- Everything that was reached was exposed, and so is everything that the workers are going to reach. -/
structure Server.Confined (s : Server) : Prop where
  accesses : ∀ a ∈ s.accesses, a.Permitted
  causes : ∀ id cause, s.causes id = some cause → Access.Permitted ⟨cause.root,.ssh,cause.config.connectionId⟩

variable {s : Server}

theorem Server.Confined.cause (hs : s.Confined) {root : Root} (h : Access.Permitted ⟨root,.ssh,config.connectionId⟩)
    (id : String) : Server.Confined { s with causes := Function.update s.causes id (some ⟨root,config⟩) } := by
  constructor
  · exact hs.accesses
  · intro other cause (hcause : Function.update s.causes id (some ⟨root,config⟩) other = some cause)
    by_cases hother : other = id
    · rw [hother,Function.update_self] at hcause
      cases hcause
      exact h
    · rw [Function.update_of_ne hother] at hcause
      exact hs.causes other cause hcause

section
variable {root : Root} {outside : Outside} {connectionId : String} {config : ResolvedSshConfig} {s : Server}

theorem leads_access {group : ToolGroup} (h : Access.Permitted ⟨root,group,connectionId⟩) (hs : s.Confined) :
    Leads (access root group connectionId) (fun _ => Server.Confined) Server.Confined s := by
  apply Leads.modify
  constructor
  · intro a ha
    rcases mem_cons.mp ha with rfl | ha
    · exact h
    · exact hs.accesses a ha
  · exact hs.causes

theorem leads_connectHost (h : Access.Permitted ⟨root,.ssh,connectionId⟩) (attempt : ℕ) (hs : s.Confined) :
    Leads (connectHost root outside attempt connectionId) (fun _ => Server.Confined) Server.Confined s := by
  apply Leads.keep_bind (leads_access h hs)
  intro _ s' hs'
  exact .keep_lift hs'

/-- A jump host is used only if it is exposed. -/
theorem leads_connectTarget (h : Access.Permitted ⟨root,.ssh,config.connectionId⟩)
    (hjump : ∀ jump, jumpHost root outside config = .ok (some jump) → root.Exposes jump) (attempt : ℕ)
    (hs : s.Confined) :
    Leads (connectTarget root outside config attempt) (fun _ => Server.Confined) Server.Confined s := by
  apply Leads.lift_bind
  · intro jump hok
    apply Leads.keep_bind
    · apply Leads.keep_forEach _ hs
      intro id hid s' hs'
      have hexposed : root.Exposes id := by
        apply hjump
        rw [hok,Option.mem_toList.mp hid]
      have hpermitted : Access.Permitted ⟨root,.ssh,id⟩ := ⟨h.1,h.2.1,hexposed⟩
      exact leads_connectHost hpermitted attempt hs'
    · intro _ s' hs'
      exact leads_connectHost h attempt hs'
  · exact fun _ _ => hs

theorem leads_sessionHandle (h : Access.Permitted ⟨root,.ssh,config.connectionId⟩)
    (hjump : outside.pooled = false → ∀ jump, jumpHost root outside config = .ok (some jump) → root.Exposes jump)
    (hs : s.Confined) :
    Leads (sessionHandle root outside config) (fun _ => Server.Confined) Server.Confined s := by
  apply Leads.ite
  · exact fun _ => leads_access h hs
  · exact fun hpooled => leads_connectTarget h (hjump (eq_false_of_ne_true hpooled)) 0 hs

variable {command : String}

theorem leads_execWithContext (h : Access.Permitted ⟨root,.ssh,config.connectionId⟩)
    (hjump : (outside.pooled = true → ∃ command error, outside.exec 0 command = .error error) → ∀ jump, jumpHost root
      outside config = .ok (some jump) → root.Exposes jump)
    (hs : s.Confined) :
    Leads (execWithContext root outside config command) (fun _ => Server.Confined) Server.Confined s := by
  apply Leads.keep_bind
  · apply leads_sessionHandle h _ hs
    intro hpooled
    apply hjump
    intro hnot
    rw [hpooled] at hnot
    cases hnot
  intro _ s₁ hs₁
  apply Leads.keep_bind (leads_access h hs₁)
  intro _ s₂ hs₂
  cases hexec : outside.exec 0 command with
  | ok output => exact .pure hs₂
  | error error =>
    apply Leads.keep_bind
    · exact leads_connectTarget h (hjump fun _ => ⟨command,error,hexec⟩) 1 hs₂
    intro _ s₃ hs₃
    apply Leads.keep_bind (leads_access h hs₃)
    intro _ s₄ hs₄
    exact .keep_lift hs₄

/-! ## The tools -/

/-- The call has come to an answer about connections that it may reach. -/
def Answers (root : Root) (group : ToolGroup) (ids : List String) (s : Server) : Prop :=
  s.Confined ∧ ∀ id ∈ ids, Access.Permitted ⟨root,group,id⟩

variable {timeoutSeconds maxOutputBytes : Option ℕ}

theorem leads_executeCommand {confirmDangerous : Bool}
    (hjump : (outside.pooled = true → ∃ command error, outside.exec 0 command = .error error) → ∀ config, Checked root
      outside connectionId config → ∀ jump, jumpHost root outside config = .ok (some jump) → root.Exposes jump)
    (hs : s.Confined) :
    Leads (executeCommand root outside connectionId command timeoutSeconds maxOutputBytes confirmDangerous)
      (fun result => Answers root .ssh [result.connectionId]) Server.Confined s := by
  apply Leads.lift_bind _ fun _ _ => hs
  intro authorized hauthorized
  apply Leads.lift_bind _ fun _ _ => hs
  intro timeout _
  apply Leads.lift_bind _ fun _ _ => hs
  intro config hresolved
  have hchecked : Checked root outside connectionId config :=
    ⟨(authorizeCommand_ok hauthorized).1,(authorizeCommand_ok hauthorized).2,hresolved⟩
  apply Leads.attempt_bind
  apply (leads_execWithContext hchecked.permitted (fun hexec => hjump hexec config hchecked) hs).mono
  · intro output s' hs'
    apply Leads.ite
    · exact fun _ => .throw hs'
    · intro _
      apply Leads.pure
      refine ⟨hs',?_⟩
      intro id hid
      rw [mem_singleton.mp hid]
      exact hchecked.permitted
  · exact fun s' hs' error => .throw hs'

theorem leads_startCommandTask {confirmDangerous : Bool} (hs : s.Confined) :
    Leads (startCommandTask root outside connectionId command timeoutSeconds maxOutputBytes confirmDangerous)
      (fun _ => Server.Confined) Server.Confined s := by
  apply Leads.lift_bind _ fun _ _ => hs
  intro authorized hauthorized
  apply Leads.lift_bind _ fun _ _ => hs
  intro timeout _
  apply Leads.lift_bind _ fun _ _ => hs
  intro config hresolved
  have hchecked : Checked root outside connectionId config :=
    ⟨(authorizeCommand_ok hauthorized).1,(authorizeCommand_ok hauthorized).2,hresolved⟩
  apply Leads.get_bind
  apply Leads.keep_bind (.set_ ⟨hs.accesses,hs.causes⟩)
  intro _ s₁ hs₁
  apply Leads.keep_bind (.keep_lift hs₁)
  intro id s₂ hs₂
  apply Leads.keep_bind (.modify (hs₂.cause hchecked.permitted id))
  exact fun _ _ hs₃ => .pure hs₃

theorem leads_testConnection
    (hjump : outside.pooled = false → ∀ config, Checked root outside connectionId config →
      ∀ jump, jumpHost root outside config = .ok (some jump) → root.Exposes jump) (hs : s.Confined) :
    Leads (testConnection root outside connectionId) (fun tested => Answers root .ssh [tested]) Server.Confined s := by
  apply Leads.lift_bind _ fun _ _ => hs
  intro _ henabled
  apply Leads.lift_bind _ fun _ _ => hs
  intro _ hexposed
  apply Leads.lift_bind _ fun _ _ => hs
  intro config hresolved
  have hchecked : Checked root outside connectionId config := ⟨henabled,hexposed,hresolved⟩
  apply Leads.keep_bind (leads_sessionHandle hchecked.permitted (fun hpooled => hjump hpooled config hchecked) hs)
  intro _ s' hs'
  apply Leads.pure
  refine ⟨hs',?_⟩
  intro id hid
  rw [mem_singleton.mp hid]
  exact hchecked.permitted

theorem leads_transfer {checkLocal : Except AppError Unit} {directory : Bool} {localPath remotePath : String}
    (hjump : ∀ config, Checked root outside connectionId config →
      ∀ jump, jumpHost root outside config = .ok (some jump) → root.Exposes jump) (hs : s.Confined) :
    Leads (transfer checkLocal directory root outside connectionId localPath remotePath)
      (fun result => Answers root .ssh [result.connectionId]) Server.Confined s := by
  apply Leads.lift_bind _ fun _ _ => hs
  intro _ henabled
  apply Leads.lift_bind _ fun _ _ => hs
  intro _ hexposed
  apply Leads.lift_bind _ fun _ _ => hs
  intro _ _
  apply Leads.lift_bind _ fun _ _ => hs
  intro remotePath _
  apply Leads.lift_bind _ fun _ _ => hs
  intro config hresolved
  have hchecked : Checked root outside connectionId config := ⟨henabled,hexposed,hresolved⟩
  apply Leads.keep_bind (leads_connectTarget hchecked.permitted (hjump config hchecked) 0 hs)
  intro _ s₁ hs₁
  apply Leads.keep_bind (leads_access hchecked.permitted hs₁)
  intro _ s₂ hs₂
  apply Leads.lift_bind _ fun _ _ => hs₂
  intro bytes _
  apply Leads.pure
  refine ⟨hs₂,?_⟩
  intro id hid
  rw [mem_singleton.mp hid]
  exact hchecked.permitted

theorem leads_executeScript {scriptPath : String} {interpreter args : Option String}
    (hjump : ∀ config, Checked root outside connectionId config → ∀ jump, jumpHost root outside config = .ok (some jump)
      → root.Exposes jump)
    (hs : s.Confined) :
    Leads (executeScript root outside connectionId scriptPath interpreter args timeoutSeconds maxOutputBytes)
      (fun result => Answers root .ssh [result.connectionId]) Server.Confined s := by
  apply Leads.lift_bind _ fun _ _ => hs
  intro timeout _
  apply Leads.lift_bind _ fun _ _ => hs
  intro _ _
  apply Leads.keep_bind
  · exact (leads_transfer hjump hs).mono (fun _ _ h => h.1) fun _ h => h
  · exact fun _ s' hs' => leads_executeCommand (fun _ => hjump) hs'

/-! ### Tasks -/

theorem getCommandTask_ok {t : CommandTasks.State} {taskId : String} {now : ℕ} {shown : McpTaskRecord}
    (h : (t.getCommandTask taskId now).1 = .ok shown) : ∃ entry, t.entry (Text.trim taskId) = some entry ∧
      Registry.isExpired entry.record now = false ∧ shown = entry.record := by
  unfold State.getCommandTask at h
  dsimp only at h
  split at h
  · rename_i entry hfind
    rw [Registry.prune,Registry.find?_keepRows,Option.filter_eq_some_iff] at hfind
    cases h
    exact ⟨entry,hfind.1,by simpa using hfind.2,rfl⟩
  · cases h

theorem cancelCommandTask_ok {t : CommandTasks.State} {taskId : String} {now : ℕ} {shown : McpTaskRecord}
    (h : (t.cancelCommandTask taskId now).1 = .ok shown) : ∃ entry, t.entry (Text.trim taskId) = some entry ∧
      shown.connectionId = entry.record.connectionId := by
  unfold State.cancelCommandTask at h
  dsimp only at h
  split at h
  · cases h
  · rename_i entry hfind
    split at h <;> cases h <;> exact ⟨entry,hfind,rfl⟩

/-- A section under the lock that hands on a record. -/
theorem leads_locked (f : CommandTasks.State → Except AppError McpTaskRecord × CommandTasks.State)
    (hshown : ∀ shown, (f s.tasks).1 = .ok shown → Access.Permitted ⟨root,.ssh,shown.connectionId⟩)
    (hs : s.Confined) :
    Leads (do
        let s ← get
        let (found,tasks) := f s.tasks
        set { s with tasks }
        lift found : Call McpTaskRecord)
      (fun shown => Answers root .ssh [shown.connectionId]) Server.Confined s := by
  apply Leads.get_bind
  apply Leads.bind
  apply Leads.set_
  have hset : Server.Confined { s with tasks := (f s.tasks).2 } := ⟨hs.accesses,hs.causes⟩
  apply Leads.lift
  · intro shown hok
    refine ⟨hset,?_⟩
    intro id hid
    rw [mem_singleton.mp hid]
    exact hshown shown hok
  · exact fun _ _ => hset

variable {arguments : Json}

theorem leads_taskTool {act : String → Call McpTaskRecord}
    (hact : ensureSshEnabled root.settings = .ok () → ∀ taskId, valueGetStr arguments "task_id" = .ok taskId → Leads
      (act taskId) (fun shown => Answers root .ssh [shown.connectionId]) Server.Confined s)
    (hs : s.Confined) :
    Leads (taskTool root arguments act) (fun shown => Answers root .ssh [shown.connectionId]) Server.Confined s := by
  apply Leads.lift_bind _ fun _ _ => hs
  intro _ henabled
  apply Leads.lift_bind _ fun _ _ => hs
  exact hact henabled

theorem permitted_of_exposes (henabled : ensureSshEnabled root.settings = .ok ()) (h : root.Exposes connectionId) :
    Access.Permitted ⟨root,.ssh,connectionId⟩ :=
  ⟨(ensureSwitch_ok henabled).1,(ensureSwitch_ok henabled).2,h⟩

variable {tool : Tool}

theorem leads_getTask (htool : tool = .getTaskStatus ∨ tool = .getTaskOutput)
    (h : TaskExposed s outside arguments tool) (hs : s.Confined) :
    Leads (taskTool s.root arguments (getCommandTask outside)) (fun shown => Answers s.root .ssh [shown.connectionId])
      Server.Confined s := by
  apply leads_taskTool _ hs
  intro henabled taskId htaskId
  apply leads_locked (fun tasks => tasks.getCommandTask taskId (outside.millis 0)) _ hs
  intro shown hshown
  obtain ⟨entry,hentry,halive,rfl⟩ := getCommandTask_ok hshown
  apply permitted_of_exposes henabled
  apply h _ henabled taskId htaskId entry hentry fun _ => halive
  rcases htool with rfl | rfl <;> simp

theorem leads_cancelTask (h : TaskExposed s outside arguments .cancelTask) (hs : s.Confined) :
    Leads (taskTool s.root arguments (cancelCommandTask outside))
      (fun shown => Answers s.root .ssh [shown.connectionId]) Server.Confined s := by
  apply leads_taskTool _ hs
  intro henabled taskId htaskId
  apply leads_locked (fun tasks => tasks.cancelCommandTask taskId (outside.millis 0)) _ hs
  intro shown hshown
  obtain ⟨entry,hentry,hconnection⟩ := cancelCommandTask_ok hshown
  rw [hconnection]
  apply permitted_of_exposes henabled
  exact h (by simp) henabled taskId htaskId entry hentry fun hne => absurd rfl hne

/-! ### The dispatch -/

theorem exposedList_about {dtos : List McpConnectionDto} (h : exposedList root outside = .ok dtos) {id : String}
    (hid : id ∈ dtos.map (·.id)) : root.Exposes id := by
  obtain ⟨_,-,h⟩ := (except_bind_ok _ _ _).mp h
  cases h
  rw [map_map,mem_map] at hid
  obtain ⟨connection,hmem,rfl⟩ := hid
  exact exposes_of_mem hmem

theorem readingTool_about {answer : Answer} (htool : tool.group ≠ .ssh)
    (h : readingTool root outside arguments tool = .ok answer) :
    ∀ id ∈ answer.about, Access.Permitted ⟨root,tool.group,id⟩ := by
  intro id hid
  cases tool with
  | listConnections =>
    obtain ⟨_,henabled,h⟩ := (except_bind_ok _ _ _).mp h
    obtain ⟨dtos,hdtos,h⟩ := (except_bind_ok _ _ _).mp h
    cases h
    exact ⟨(ensureSwitch_ok henabled).1,(ensureSwitch_ok henabled).2,exposedList_about hdtos hid⟩
  | searchConnections =>
    obtain ⟨_,henabled,h⟩ := (except_bind_ok _ _ _).mp h
    obtain ⟨query,-,h⟩ := (except_bind_ok _ _ _).mp h
    obtain ⟨dtos,hdtos,h⟩ := (except_bind_ok _ _ _).mp h
    cases h
    obtain ⟨dto,hdto,rfl⟩ := mem_map.mp hid
    exact ⟨(ensureSwitch_ok henabled).1,(ensureSwitch_ok henabled).2,
      exposedList_about hdtos (mem_map_of_mem (mem_filter.mp hdto).1)⟩
  | getConnection =>
    obtain ⟨_,henabled,h⟩ := (except_bind_ok _ _ _).mp h
    obtain ⟨connectionId,-,h⟩ := (except_bind_ok _ _ _).mp h
    obtain ⟨_,-,h⟩ := (except_bind_ok _ _ _).mp h
    split at h
    · rename_i connection hfound
      cases h
      rw [Answer.about,mem_singleton] at hid
      rw [hid]
      exact ⟨(ensureSwitch_ok henabled).1,(ensureSwitch_ok henabled).2,
        exposes_of_mem (connectionGet_filter.mp hfound).1⟩
    · cases h
  | getMxtermMcpStatus =>
    cases h
    exact absurd hid (not_mem_nil)
  | _ => exact absurd rfl htool

theorem leads_transferTool {first second : String} {act : String → String → String → Call McpTransferResult}
    (hact : ∀ connectionId, valueGetStr arguments "connection_id" = .ok connectionId → ∀ first second, Leads
      (act connectionId first second) (fun result => Answers root .ssh [result.connectionId]) Server.Confined s)
    (hs : s.Confined) :
    Leads (transferTool first second act arguments) (fun answer => Answers root .ssh answer.about)
      Server.Confined s := by
  apply Leads.lift_bind _ fun _ _ => hs
  intro connectionId hconnectionId
  apply Leads.lift_bind _ fun _ _ => hs
  intro first _
  apply Leads.lift_bind _ fun _ _ => hs
  intro second _
  apply Leads.bind
  apply (hact connectionId hconnectionId first second).mono _ fun _ h => h
  exact fun _ _ h => .pure h

/-- The last step of a tool puts its result into an answer about the same connections. -/
theorem leads_answer {α : Type} {x : Call α} {ids : α → List String} {group : ToolGroup} {f : α → Answer}
    (hx : Leads x (fun a => Answers root group (ids a)) Server.Confined s) (hf : ∀ a, (f a).about = ids a) :
    Leads (do
        let a ← x
        pure (f a)) (fun answer => Answers root group answer.about) Server.Confined s := by
  apply Leads.bind
  apply hx.mono _ fun _ h => h
  intro a s' ha
  apply Leads.pure
  rwa [hf]

theorem leads_runTool (htask : TaskExposed s outside arguments tool)
    (hjump : JumpExposed s.root outside arguments tool) (hs : s.Confined) :
    Leads (runTool s.root outside arguments tool) (fun answer => Answers s.root tool.group answer.about)
      Server.Confined s := by
  have hread (htool : tool.group ≠ .ssh) :
      Leads (lift (readingTool s.root outside arguments tool))
        (fun answer => Answers s.root tool.group answer.about) Server.Confined s :=
    .lift (fun _ hanswer => ⟨hs,readingTool_about htool hanswer⟩) fun _ _ => hs
  cases tool with
  | getMxtermMcpStatus | listConnections | searchConnections | getConnection => exact hread (by decide)
  | testConnection =>
    apply Leads.lift_bind _ fun _ _ => hs
    intro connectionId hconnectionId
    exact leads_answer (leads_testConnection (fun hpooled => hjump hpooled connectionId hconnectionId) hs) fun _ => rfl
  | executeCommand =>
    apply Leads.lift_bind _ fun _ _ => hs
    intro connectionId hconnectionId
    apply Leads.lift_bind _ fun _ _ => hs
    intro command _
    apply Leads.lift_bind _ fun _ _ => hs
    intro timeout _
    exact leads_answer (leads_executeCommand (fun hexec => hjump hexec connectionId hconnectionId) hs) fun _ => rfl
  | executeCommandAsync =>
    apply Leads.lift_bind _ fun _ _ => hs
    intro connectionId _
    apply Leads.lift_bind _ fun _ _ => hs
    intro command _
    apply Leads.lift_bind _ fun _ _ => hs
    intro timeout _
    apply Leads.keep_bind (leads_startCommandTask hs)
    intro started s' hs'
    exact .pure ⟨hs',fun id hid => absurd hid not_mem_nil⟩
  | getTaskStatus => exact leads_answer (leads_getTask (Or.inl rfl) htask hs) fun _ => rfl
  | getTaskOutput => exact leads_answer (leads_getTask (Or.inr rfl) htask hs) fun _ => rfl
  | cancelTask => exact leads_answer (leads_cancelTask htask hs) fun _ => rfl
  | serverMonitor =>
    apply Leads.lift_bind _ fun _ _ => hs
    intro connectionId hconnectionId
    exact leads_answer (leads_executeCommand (fun hexec => hjump hexec connectionId hconnectionId) hs) fun _ => rfl
  | uploadFile | downloadFile | uploadDirectory | downloadDirectory =>
    apply leads_transferTool _ hs
    exact fun connectionId hconnectionId _ _ => leads_transfer (hjump trivial connectionId hconnectionId) hs
  | executeScript =>
    apply Leads.lift_bind _ fun _ _ => hs
    intro connectionId hconnectionId
    apply Leads.lift_bind _ fun _ _ => hs
    intro scriptPath _
    apply Leads.lift_bind _ fun _ _ => hs
    intro timeout _
    exact leads_answer (leads_executeScript (hjump trivial connectionId hconnectionId) hs) fun _ => rfl

theorem leads_callTool {name : String} (h : CallExposed s name arguments outside) (hs : s.Confined) :
    Leads (callTool s.root outside name arguments) (fun _ => Server.Confined) Server.Confined s := by
  apply Leads.lift_bind _ fun _ _ => hs
  intro _ hreject
  apply Leads.lift_bind _ fun _ _ => hs
  intro _ hmetadata
  apply Leads.lift_bind _ fun _ _ => hs
  intro _ hsettings
  cases htool : Tool.ofName name with
  | none => exact .throw hs
  | some tool =>
    obtain ⟨htask,hjump⟩ := h tool hreject hmetadata hsettings htool
    apply Leads.bind
    apply (leads_runTool htask hjump hs).mono _ fun _ h => h
    intro answer s' hanswer
    apply Leads.keep_bind
    · exact .keep_forEach (fun id hid _ => leads_access (hanswer.2 id hid)) hanswer.1
    · exact fun _ _ h => .pure h

end

/-! ## Histories -/

theorem workerUses_permitted {outside : Outside} {action : CommandTasks.Action} (h : WorkExposed s outside action)
    (hs : s.Confined) : ∀ a ∈ workerUses s outside action, a.Permitted := by
  intro a ha
  cases action with
  | mark id now started =>
    simp only [workerUses] at ha
    split at ha
    · rename_i cause entry hcause hentry
      have hpermitted := hs.causes id cause hcause
      split at ha
      · cases ha
      · rename_i jump hjump
        split_ifs at ha with hqueued
        · obtain ⟨used,hused,rfl⟩ := mem_map.mp ha
          rcases mem_append.mp hused with hused | hused
          · rw [Option.mem_toList.mp hused] at hjump
            exact ⟨hpermitted.1,hpermitted.2.1,h cause hcause ⟨entry,hentry,hqueued⟩ used hjump⟩
          · rw [mem_singleton.mp hused]
            exact hpermitted
        · cases ha
    · cases ha
  | openChannel id result =>
    obtain ⟨cause,hcause,rfl⟩ := mem_map.mp ha
    exact hs.causes id cause (Option.mem_toList.mp hcause)
  | _ => cases ha

theorem Server.Confined.step {s' : Server} {event : Event} (hs : s.Confined) (h : Within s event)
    (hstep : s.step event = some s') : s'.Confined := by
  cases event with
  | change root =>
    cases hstep
    exact ⟨hs.accesses,hs.causes⟩
  | call name arguments outside =>
    simp only [Server.step] at hstep
    split_ifs at hstep
    cases hstep
    exact (leads_callTool h hs).after
  | work action outside =>
    simp only [Server.step] at hstep
    split_ifs at hstep
    obtain ⟨tasks,-,rfl⟩ := Option.map_eq_some_iff.mp hstep
    constructor
    · intro a ha
      rcases mem_append.mp ha with ha | ha
      · exact workerUses_permitted h hs a ha
      · exact hs.accesses a ha
    · exact hs.causes

/-! ## Two data directories -/

section
variable {root root' : Root} {outside : Outside}

theorem Root.Agrees.exposedList (h : root.Agrees root') : exposedList root outside = exposedList root' outside := by
  unfold Mcp.exposedList
  rw [h.exposed]

theorem Root.Agrees.connectionSummary (h : root.Agrees root') :
    connectionSummary root outside = connectionSummary root' outside := by
  unfold Mcp.connectionSummary
  rw [h.exposed,h.webDav]

theorem Root.Agrees.readingTool (h : root.Agrees root') (arguments : Json) (tool : Tool) :
    readingTool root outside arguments tool = readingTool root' outside arguments tool := by
  have hfilter (id : String) :
      ((connectionGet root.tables id).filter fun connection =>
          connectionIsExposed root.settings connection.id).filter connectionIsSupported =
        ((connectionGet root'.tables id).filter fun connection =>
          connectionIsExposed root'.settings connection.id).filter connectionIsSupported := by
    ext connection
    rw [connectionGet_filter,connectionGet_filter,h.exposed]
  have hstatus : statusAnswer root outside = statusAnswer root' outside := by
    unfold statusAnswer
    rw [h.settings,h.connectionSummary]
  cases tool with
  | getConnection =>
    simp only [Mcp.readingTool,hfilter]
    rw [h.settings]
  | _ => simp only [Mcp.readingTool,h.settings,h.exposedList,hstatus]

end

/-- What is answered does not depend on where the calls and the tasks have led before. -/
theorem Server.answer_of_reading {name : String} {arguments : Json} {outside : Outside} {tool : Tool}
    (hname : Tool.ofName name = some tool) (htool : tool.group ≠ .ssh) :
    s.answer name arguments outside = (do
      rejectPlaintextCredentialArgs arguments
      outside.openMetadata
      outside.querySettings
      readingTool s.root outside arguments tool) := by
  have hrun : runTool s.root outside arguments tool = lift (readingTool s.root outside arguments tool) := by
    cases tool <;> first | rfl | exact absurd rfl htool
  have haccess : ∀ ids (s₁ : Server), ∃ s₂, forEach (access s.root tool.group) ids s₁ = .ok () s₂ := by
    intro ids
    induction ids with
    | nil => exact fun s₁ => ⟨s₁,rfl⟩
    | cons id ids ih => exact fun s₁ => ih _
  unfold Server.answer callTool
  cases hreject : rejectPlaintextCredentialArgs arguments with
  | error error => rfl
  | ok _ =>
    cases hmetadata : outside.openMetadata with
    | error error => rfl
    | ok _ =>
      cases hsettings : outside.querySettings with
      | error error => rfl
      | ok _ =>
        simp only [hname,hrun]
        cases hanswer : readingTool s.root outside arguments tool with
        | error error => rfl
        | ok answer =>
          obtain ⟨s₂,hs₂⟩ := haccess answer.about s
          simp only [bind_of_ok (lift_of_ok rfl s),bind_of_ok hs₂]
          rfl

/-! One connection, and a task on it that is read after the connection was hidden. -/
namespace HiddenTask

def connection : ConnectionRow where
  id := "c"
  name := "c"
  protocol := .ssh
  groupId := none
  host := "h"
  port := 22
  username := "u"
  credentialMode := .prompt
  credentialId := none
  inlineAuthKind := none
  inlineSecretRef := none
  inlineSecretSlotId := none
  inlinePrivateKeyPath := none
  promptAuthKind := some .password
  proxy := {}
  jump := {}
  advanced := {}
  rdp := none
  vnc := none
  telnet := none
  serial := none
  notes := none
  isFavorite := false
  lastConnectedAt := none
  remoteOsId := none
  remoteOsName := none
  remoteOsVersion := none
  createdAt := "0"
  updatedAt := "0"

def root (mode : McpConnectionExposureMode) : Root where
  tables := { Tables.empty with connections := ⟨[connection],nodup_singleton _⟩ }
  mcpSettings := some { enabled := true, sshOperationsEnabled := true, connectionExposureMode := mode }
  webDavSettings := none

def outside (taskId : String) : Outside where
  openMetadata := .ok ()
  querySettings := .ok ()
  queryConnections := .ok ()
  queryWebDav := .ok ()
  timestamp := .ok ()
  toLowercase := id
  openLocal := .ok ()
  secrets _ := .ok ()
  pooled := false
  connect _ _ := .ok ()
  exec _ _ := .ok ⟨[],[],some 0⟩
  timedOut := false
  transfer := .ok 0
  localRead _ _ := .ok ()
  localWrite _ := .ok ()
  localDirectory _ := .ok ()
  fileName _ := none
  print _ := ""
  taskId
  millis := id

def events : List Event :=
  [.call "execute_command_async" (.object [("connection_id",.text "c"),("command",.text "id")]) (outside "t"),
    .change (root .custom),.call "get_task_status" (.object [("task_id",.text "t")]) (outside "u")]

def test : Event := .call "test_connection" (.object [("connection_id",.text "c")]) (outside "t")

/-- What was reached, and whether it was exposed. -/
def reached (s : Server) : List (ToolGroup × Bool) :=
  s.accesses.map fun a => (a.group,connectionIsExposed a.root.settings a.connectionId)

theorem tested : ((Server.initial (root .all)).step test).map reached = some [(.ssh,true),(.ssh,true)] := by
  decide +kernel

theorem test_within : Within (.initial (root .all)) test := by
  intro tool _ _ _ htool
  cases htool
  constructor
  · intro hmem
    exact absurd hmem (by decide)
  · intro _ connectionId _ config hchecked jump hjump
    obtain ⟨row,hrow,-,-,rfl⟩ := resolveSsh_ok hchecked.resolved
    obtain rfl : row = connection := mem_singleton.mp hrow
    cases hjump

theorem hidden : (run Server.step (.initial (root .all)) events).map reached = some [(.ssh,false)] := by
  decide +kernel

end HiddenTask

/-- In every history, a caller reaches only connections that are exposed when it calls, if no call reads a task of a
connection that is not exposed any more and no jump host is used that is not exposed; and what is told about the
connections depends on the settings and the exposed ones alone. -/
theorem reaches_only_exposed {s : Server} (h : Reached Server.step Within (fun s => ∃ root, s = .initial root) s) :
    (∀ a ∈ s.accesses, a.Permitted) ∧
      ∀ s' : Server, s.root.Agrees s'.root → ∀ name tool, Tool.ofName name = some tool → tool.group ≠ .ssh →
        ∀ arguments outside, s.answer name arguments outside = s'.answer name arguments outside := by
  constructor
  · have hstart : ∀ s : Server, (∃ root, s = .initial root) → s.Confined := by
      rintro _ ⟨root,rfl⟩
      exact ⟨fun a ha => absurd ha not_mem_nil,fun _ _ hcause => nomatch hcause⟩
    exact (h.invariant hstart fun _ _ _ hs hwithin hstep => hs.step hwithin hstep).accesses
  · intro s' hagrees name tool hname htool arguments outside
    rw [Server.answer_of_reading hname htool,Server.answer_of_reading hname htool,hagrees.readingTool]

theorem reaches_only_exposed_tested :
    ∃ s, (Server.initial (HiddenTask.root .all)).step HiddenTask.test = some s ∧
      HiddenTask.reached s = [(.ssh,true),(.ssh,true)] ∧ ∀ a ∈ s.accesses, a.Permitted := by
  obtain ⟨s,hstep,hreached⟩ := Option.map_eq_some_iff.mp HiddenTask.tested
  exact ⟨s,hstep,hreached,(reaches_only_exposed (.step (.start ⟨_,rfl⟩) HiddenTask.test_within hstep)).1⟩

/-- The task of a connection that was exposed when the task was started is read after the connection was hidden. -/
theorem hidden_task_read :
    ¬ ∀ s, Reached Server.step (fun _ _ => True) (fun s => ∃ root, s = .initial root) s →
      ∀ a ∈ s.accesses, a.Permitted := by
  intro h
  have hhidden := HiddenTask.hidden
  cases hrun : run Server.step (.initial (HiddenTask.root .all)) HiddenTask.events with
  | none =>
    rw [hrun] at hhidden
    cases hhidden
  | some s =>
    rw [hrun,Option.map_some,Option.some.injEq] at hhidden
    have hmem : (ToolGroup.ssh,false) ∈ HiddenTask.reached s := by
      rw [hhidden]
      exact mem_singleton.mpr rfl
    obtain ⟨a,ha,hexposed⟩ := mem_map.mp hmem
    obtain ⟨-,-,row,-,-,-,hpermitted⟩ := h s (.run (.start ⟨_,rfl⟩) hrun) a ha
    have hexposed := congrArg Prod.snd hexposed
    rw [hpermitted] at hexposed
    cases hexposed

end Mxterm.Mcp
