import Mxterm.RemoteCommands
import Mxterm.SessionHandles

/-! The SSH session of the monitor (`remote_monitor.rs`), which is kept for one connection at a time. -/
namespace Mxterm.RemoteMonitorSessions

open Interleavings (Program Turn)
open SessionCaches
open RemoteCommands (ExecOutput)

def monitorSessionIdleTimeoutMs : ℕ := 30000

def monitorMaxCachedSessions : ℕ := 1

/-! ## Commands -/

inductive RemoteProcessSignal
  | term | kill | hup

def RemoteProcessSignal.shellFlag : RemoteProcessSignal → String
  | term => "TERM"
  | kill => "KILL"
  | hup => "HUP"

def validateProcessPid (pid : ℕ) : Except AppError Unit :=
  if pid ≤ 1 then .error ⟨"remote_monitor_process_pid_invalid","不能操作该系统进程。","pid=" ++ toString pid,true⟩
  else .ok ()

def buildProcessSignalCommand (pid : ℕ) (signal : RemoteProcessSignal) : Except AppError String :=
  match validateProcessPid pid with
  | .error error => .error error
  | .ok _ => .ok ("kill -" ++ signal.shellFlag ++ " " ++ toString pid)

/-! ## Sessions -/

/-- The configuration of a call; what else is resolved with it is for the connection only. -/
structure Config where
  connectionId : String
  signature : String

structure Request where
  config : Config
  command : String

structure MonitorSessionMeta where
  signature : String
  lastUsedMs : ℕ

def canReuseMonitorSession (kept : MonitorSessionMeta) (signature : String) (nowMs : ℕ) : Bool :=
  kept.signature = signature && nowMs - kept.lastUsedMs ≤ monitorSessionIdleTimeoutMs

abbrev RemoteMonitorSessionHandle := Handle String String

abbrev Monitor (α : Type) := Program (Action String String Request) (Answer ExecOutput AppError) α

def pruneHandles (nowMs : ℕ) : List RemoteMonitorSessionHandle → Monitor Unit
  | [] => return ()
  | handle :: handles => do
    let lastUsedMs ← lastUsed handle
    if canReuseMonitorSession ⟨handle.signature,lastUsedMs⟩ handle.signature nowMs then pruneHandles nowMs handles
    else do
      invalidateHandle handle.connectionId handle
      pruneHandles nowMs handles

def pruneIdleSessions (nowMs : ℕ) : Monitor Unit := do pruneHandles nowMs (← entries)

def closeOtherSessions (activeConnectionId : String) : Monitor Unit :=
  evictAndClose fun keys => if keys.length < monitorMaxCachedSessions then [] else keys.filter (· ≠ activeConnectionId)

def connectAndStore (config : Config) (nowMs : ℕ) : Monitor (Except AppError RemoteMonitorSessionHandle) := do
  closeOtherSessions config.connectionId
  match ← connect config.connectionId config.signature with
  | .error error => return .error error
  | .ok newHandle => do
    touch newHandle nowMs
    return .ok (← keepOrStore newHandle)

def sessionHandle (config : Config) : Monitor (Except AppError RemoteMonitorSessionHandle) := do
  let nowMs ← now
  pruneIdleSessions nowMs
  match ← lookupHandle config.connectionId with
  | some existing => do
    let lastUsedMs ← lastUsed existing
    if canReuseMonitorSession ⟨existing.signature,lastUsedMs⟩ config.signature nowMs then return .ok existing
    else do
      invalidateHandle config.connectionId existing
      connectAndStore config nowMs
  | none => connectAndStore config nowMs

def execWithCachedSession (config : Config) (command : String) : Monitor (Except AppError ExecOutput) := do
  match ← sessionHandle config with
  | .error error => return .error error
  | .ok handle => do
    markUsed handle
    match ← runOn handle ⟨config,command⟩ with
    | .ok output => do
      markUsed handle
      return .ok output
    | .error error => do
      invalidateHandle config.connectionId handle
      return .error error

/-- The calls of the manager; what a snapshot collects and makes of the output has no part in the sessions. -/
inductive Operation
  | snapshot (config : Config) (collect : String)
  | signalProcess (config : Config) (pid : ℕ) (signal : RemoteProcessSignal)

def Operation.program : Operation → Monitor Unit
  | .snapshot config collect => do
    let _ ← execWithCachedSession config collect
    return ()
  | .signalProcess config pid signal =>
    match buildProcessSignalCommand pid signal with
    | .error _ => return ()
    | .ok command => do
      let _ ← execWithCachedSession config command
      return ()

/-! ## What the calls do with the sessions -/

/-- A session that was opened with the configuration of the request. -/
def Own (request : Request) (handle : RemoteMonitorSessionHandle) : Prop :=
  handle.connectionId = request.config.connectionId ∧ handle.signature = request.config.signature

def Ready (config : Config) : Except AppError RemoteMonitorSessionHandle → Hands String String → Prop
  | .ok handle,hands => Usable config.connectionId config.signature handle hands
  | .error _,hands => hands.owned = []

section
variable {config : Config} {command : String} {nowMs : ℕ} {hands : Hands String String}
  {handle : RemoteMonitorSessionHandle}

theorem tidy_pruneHandles (handles : List RemoteMonitorSessionHandle) :
    Tidy Own (pruneHandles nowMs handles) (fun _ hands' => hands' = hands) hands := by
  induction handles with
  | nil => rfl
  | cons first handles ih =>
    refine tidy_lastUsed.keeping fun lastUsedMs => ?_
    split_ifs
    · exact ih
    · refine tidy_invalidateHandle.keeping fun _ => ?_
      exact ih

theorem tidy_pruneIdleSessions : Tidy Own (pruneIdleSessions nowMs) (fun _ hands' => hands' = hands) hands := by
  refine tidy_entries.keeping fun handles => ?_
  exact tidy_pruneHandles handles

theorem tidy_connectAndStore (howned : hands.owned = []) :
    Tidy Own (connectAndStore config nowMs) (Ready config) hands := by
  refine tidy_evictAndClose.keeping fun _ => ?_
  apply Program.Meets.andThen (tidy_connect howned)
  intro result hands hresult
  cases result with
  | error error => exact hresult
  | ok new =>
    obtain ⟨howned,hknown,hid,hsignature⟩ := hresult
    refine tidy_touch.keeping fun _ => ?_
    apply Program.Meets.andThen (tidy_keepOrStore howned hknown)
    intro stored hands hstored
    rw [hid,hsignature] at hstored
    exact hstored

theorem tidy_sessionHandle (howned : hands.owned = []) : Tidy Own (sessionHandle config) (Ready config) hands := by
  refine tidy_now.keeping fun nowMs => ?_
  refine tidy_pruneIdleSessions.keeping fun _ => ?_
  apply Program.Meets.andThen tidy_lookupHandle
  intro found hands hfound
  cases found with
  | none =>
    obtain rfl := hfound
    exact tidy_connectAndStore howned
  | some existing =>
    obtain ⟨rfl,hid⟩ := hfound
    refine tidy_lastUsed.keeping fun lastUsedMs => ?_
    split_ifs with hreuse
    · refine ⟨howned,List.mem_cons_self,hid,?_⟩
      simp only [canReuseMonitorSession,Bool.and_eq_true,decide_eq_true_eq] at hreuse
      exact hreuse.1
    · refine tidy_invalidateHandle.keeping fun _ => ?_
      exact tidy_connectAndStore howned

theorem tidy_execWithCachedSession (howned : hands.owned = []) :
    Tidy Own (execWithCachedSession config command) (fun _ hands => hands.owned = []) hands := by
  apply Program.Meets.andThen (tidy_sessionHandle howned)
  intro result hands hresult
  cases result with
  | error error => exact hresult
  | ok handle =>
    obtain ⟨howned,hknown,hown⟩ := hresult
    refine tidy_markUsed.keeping fun _ => ?_
    refine (tidy_runOn hknown hown).keeping fun outcome => ?_
    cases outcome with
    | ok output =>
      refine tidy_markUsed.keeping fun _ => ?_
      exact howned
    | error error =>
      refine tidy_invalidateHandle.keeping fun _ => ?_
      exact howned

theorem tidy_program (operation : Operation) :
    Tidy Own operation.program (fun _ hands => hands.owned = []) ⟨[],[]⟩ := by
  have hexec : ∀ config command, Tidy Own (do let _ ← execWithCachedSession config command; return ())
      (fun _ hands => hands.owned = []) ⟨[],[]⟩ := fun _ _ =>
    Program.Meets.andThen (tidy_execWithCachedSession rfl) fun _ _ howned => howned
  cases operation with
  | snapshot config collect => exact hexec config collect
  | signalProcess config pid signal =>
    rw [Operation.program]
    cases buildProcessSignalCommand pid signal with
    | error error => rfl
    | ok command => exact hexec config command

theorem aims_pruneHandles {handles : List RemoteMonitorSessionHandle} {K : Unit → Prop}
    (h : Reuses handle (pruneHandles nowMs handles) K) : K () := by
  induction handles with
  | nil => exact h
  | cons first handles ih =>
    obtain ⟨lastUsedMs,h⟩ := aims_lastUsed (reuses_bind.mp h)
    split_ifs at h
    · exact ih h
    · exact ih (aims_invalidateHandle (reuses_bind.mp h))

theorem frank_pruneHandles (handles : List RemoteMonitorSessionHandle) :
    Frank (pruneHandles nowMs handles) fun _ _ => False := by
  induction handles with
  | nil => trivial
  | cons first handles ih =>
    refine frank_lastUsed.bind fun lastUsedMs => ?_
    split_ifs
    · exact ih
    · apply Program.Vouched.bind
      · apply frank_invalidateHandle.mono
        intro _ handle haims
        exact aims_pruneHandles haims
      · exact fun _ => ih

theorem not_aims_connectAndStore {K : Except AppError RemoteMonitorSessionHandle → Prop} :
    ¬ Reuses handle (connectAndStore config nowMs) K := by
  intro haims
  have hrest := aims_evictAndClose (reuses_bind.mp haims)
  exact not_aims_connect (reuses_bind.mp hrest)

theorem frank_connectAndStore : Frank (connectAndStore config nowMs) fun result handle => result = .ok handle := by
  apply Program.Vouched.bind
  · apply frank_evictAndClose.mono
    intro _ handle haims
    exact not_aims_connect (reuses_bind.mp haims)
  intro _
  apply Program.Vouched.bind
  · apply frank_connect.mono
    intro result handle haims
    cases result with
    | error error => cases haims
    | ok new =>
      have hrest := aims_touch (reuses_bind.mp haims)
      exact not_aims_keepOrStore (reuses_bind.mp hrest)
  · intro result
    cases result with
    | error error => trivial
    | ok new =>
      refine frank_touch.bind fun _ => ?_
      apply Program.Vouched.bind
      · apply frank_keepOrStore.mono
        rintro stored handle ⟨⟩
        rfl
      · exact fun _ => trivial

theorem not_aims_sessionHandle {K : Except AppError RemoteMonitorSessionHandle → Prop} :
    ¬ Reuses handle (sessionHandle config) K := by
  intro haims
  obtain ⟨_,hprune⟩ := aims_now (reuses_bind.mp haims)
  exact not_aims_entries (reuses_bind.mp (reuses_bind.mp hprune))

theorem frank_sessionHandle : Frank (sessionHandle config) fun result handle => result = .ok handle := by
  refine frank_now.bind fun nowMs => ?_
  apply Program.Vouched.bind
  · apply Program.Vouched.bind
    · apply frank_entries.mono
      intro handles handle haims
      exact not_aims_lookupHandle (reuses_bind.mp (aims_pruneHandles haims))
    · intro handles
      apply (frank_pruneHandles handles).mono
      intro _ handle haims
      exact not_aims_lookupHandle (reuses_bind.mp haims)
  intro _
  apply Program.Vouched.bind
  · apply frank_lookupHandle.mono
    intro found handle haims
    cases found with
    | none => exact (not_aims_connectAndStore haims).elim
    | some existing =>
      obtain ⟨lastUsedMs,haims⟩ := aims_lastUsed (reuses_bind.mp haims)
      split_ifs at haims
      · exact congrArg some (Except.ok.inj haims)
      · exact (not_aims_connectAndStore (aims_invalidateHandle (reuses_bind.mp haims))).elim
  · intro found
    cases found with
    | none => exact frank_connectAndStore
    | some existing =>
      refine frank_lastUsed.bind fun lastUsedMs => ?_
      split_ifs
      · trivial
      · apply Program.Vouched.bind
        · apply frank_invalidateHandle.mono
          intro _ handle haims
          exact not_aims_connectAndStore haims
        · exact fun _ => frank_connectAndStore

theorem frank_execWithCachedSession : Frank (execWithCachedSession config command) fun _ _ => False := by
  apply Program.Vouched.bind
  · apply frank_sessionHandle.mono
    intro result handle haims
    cases result with
    | error error => exact haims.elim
    | ok given =>
      have hrun := aims_markUsed (reuses_bind.mp haims)
      rcases aims_runOn (reuses_bind.mp hrun) with rfl | ⟨outcome,haims⟩
      · rfl
      · cases outcome with
        | ok output => exact (aims_markUsed (reuses_bind.mp haims)).elim
        | error error => exact (aims_invalidateHandle (reuses_bind.mp haims)).elim
  · intro result
    cases result with
    | error error => trivial
    | ok given =>
      refine frank_markUsed.bind fun _ => ?_
      refine frank_runOn.bind fun outcome => ?_
      cases outcome with
      | ok output => exact frank_markUsed.bind fun _ => trivial
      | error error =>
        apply Program.Vouched.bind
        · exact frank_invalidateHandle.mono fun _ _ haims => haims
        · exact fun _ => trivial

theorem not_inHand_program {operation : Operation} : ¬ InHand handle operation.program := by
  have hexec : ∀ config command, ¬ InHand handle (do let _ ← execWithCachedSession config command; return ()) := by
    intro config command haims
    exact not_aims_sessionHandle (reuses_bind.mp (reuses_bind.mp haims))
  cases operation with
  | snapshot config collect => exact hexec config collect
  | signalProcess config pid signal =>
    rw [Operation.program]
    cases buildProcessSignalCommand pid signal with
    | error error => exact id
    | ok command => exact hexec config command

theorem frank_program (operation : Operation) : Frank operation.program fun _ _ => False := by
  have hexec : ∀ config command, Frank (do let _ ← execWithCachedSession config command; return ())
      fun _ _ => False := fun _ _ =>
    Program.Vouched.bind (frank_execWithCachedSession.mono fun _ _ haims => haims) fun _ => trivial
  cases operation with
  | snapshot config collect => exact hexec config collect
  | signalProcess config pid signal =>
    rw [Operation.program]
    cases buildProcessSignalCommand pid signal with
    | error error => trivial
    | ok command => exact hexec config command

end

/-! ## Every run of the manager -/

namespace Crowded

def first : Operation := .snapshot ⟨"a","key"⟩ "uptime"

def second : Operation := .snapshot ⟨"b","key"⟩ "uptime"

def output : ExecOutput := ⟨[],[],some 0⟩

/-- Up to the connection of a call, when there is nothing in the map. -/
def opening (i : ℕ) : List (Turn Operation (Choice String String ExecOutput AppError)) :=
  [.advance i (.clock 0),.advance i (.order []),.advance i .plain,.advance i (.order []),.advance i .plain,
    .advance i .plain]

/-- From the storing of its session to its end. -/
def ending (i : ℕ) : List (Turn Operation (Choice String String ExecOutput AppError)) :=
  [.advance i .plain,.advance i (.clock 0),.advance i .plain,.advance i .plain,.advance i (.output output),
    .advance i (.clock 0),.advance i .plain]

theorem ran : ∃ manager, Transitions.run (machine Operation.program).step Calls.none
    (.start first :: .start second :: (opening 0 ++ opening 1 ++ ending 0 ++ ending 1)) = some manager ∧
      (∀ task ∈ manager.tasks, task.program = .done ()) ∧ manager.shared.openSessions.length = 2 := by
  refine ⟨_,rfl,?_,rfl⟩
  intro task htask
  rcases List.mem_cons.mp htask with rfl | htask
  · rfl
  · obtain rfl := List.mem_singleton.mp htask
    rfl

def session : RemoteMonitorSessionHandle := ⟨"a","key",0⟩

/-- The second call takes the session of the first one out and closes it while that one is about to use it. -/
def evicting : List (Turn Operation (Choice String String ExecOutput AppError)) :=
  [.start first] ++ opening 0 ++ [.advance 0 .plain,.start second,.advance 1 (.clock 0),.advance 1 (.order [session]),
    .advance 1 .plain,.advance 1 .plain,.advance 1 (.order [session]),.advance 1 .plain,.advance 0 (.clock 0),
    .advance 0 .plain,.advance 0 .plain]

theorem evicted : ∃ manager, Transitions.run (machine Operation.program).step Calls.none evicting = some manager ∧
    manager.shared.log = [.opened session,.closed session] ++
      [.started ⟨⟨"a","key"⟩,"uptime"⟩ session] := ⟨_,rfl,rfl⟩

end Crowded

end Mxterm.RemoteMonitorSessions
