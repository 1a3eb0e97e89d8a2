import Mxterm.RemoteCommands
import Mxterm.SessionHandles

/-! The SSH sessions of the file manager (`remote_files.rs`): one for a connection, used by all its operations. -/
namespace Mxterm.RemoteFileSessions

open Interleavings (Program Turn)
open SessionCaches
open RemoteCommands (ExecOutput)

/-! ## Operations -/

/-- The configuration of an operation; what else is resolved with it is for the connection only. -/
structure RemoteFileSessionConfig where
  connectionId : String
  signature : String
  deriving DecidableEq

/-- What is run on a session: a command by itself, with input from memory or from a file, or with its output reported.
  -/
inductive Exec
  | plain (command : String)
  | stdin (command : String) (stdin : List UInt8)
  | stdinFile (command path : String)
  | stdoutProgress (command : String)

structure Request where
  config : RemoteFileSessionConfig
  exec : Exec

abbrev RemoteFileSessionHandle := Handle String String

abbrev Files (α : Type) := Program (Action String String Request) (Answer ExecOutput AppError) α

def connectAndStore (config : RemoteFileSessionConfig) : Files (Except AppError RemoteFileSessionHandle) := do
  match ← connect config.connectionId config.signature with
  | .error error => return .error error
  | .ok newHandle => return .ok (← keepOrStore newHandle)

def sessionHandle (config : RemoteFileSessionConfig) : Files (Except AppError RemoteFileSessionHandle) := do
  match ← lookupHandle config.connectionId with
  | some existing =>
    if existing.signature = config.signature then return .ok existing
    else do
      invalidateHandle config.connectionId existing
      connectAndStore config
  | none => connectAndStore config

/-- The four ways to run something differ in what the session is told. -/
def execReconnecting (config : RemoteFileSessionConfig) (exec : Exec) : Files (Except AppError ExecOutput) := do
  match ← sessionHandle config with
  | .error error => return .error error
  | .ok handle =>
    match ← runOn handle ⟨config,exec⟩ with
    | .ok output => return .ok output
    | .error _ => do
      invalidateHandle config.connectionId handle
      match ← connectAndStore config with
      | .error error => return .error error
      | .ok refreshed => runOn refreshed ⟨config,exec⟩

def execWithReconnect (config : RemoteFileSessionConfig) (command : String) : Files (Except AppError ExecOutput) :=
  execReconnecting config (.plain command)

def execWithReconnectStdin (config : RemoteFileSessionConfig) (command : String) (stdin : List UInt8) :
    Files (Except AppError ExecOutput) :=
  execReconnecting config (.stdin command stdin)

def execWithReconnectStdinFileProgress (config : RemoteFileSessionConfig) (command path : String) :
    Files (Except AppError ExecOutput) :=
  execReconnecting config (.stdinFile command path)

def execWithReconnectStdoutProgress (config : RemoteFileSessionConfig) (command : String) :
    Files (Except AppError ExecOutput) :=
  execReconnecting config (.stdoutProgress command)

/-- An operation of the manager runs one thing after the other, and what it runs depends on the results before. -/
abbrev Script := Program Exec (fun _ => Except AppError ExecOutput) Unit

structure Operation where
  config : RemoteFileSessionConfig
  script : Script

def runScript (config : RemoteFileSessionConfig) : Script → Files Unit
  | .done _ => return ()
  | .act (.plain command) next => do runScript config (next (← execWithReconnect config command))
  | .act (.stdin command stdin) next => do runScript config (next (← execWithReconnectStdin config command stdin))
  | .act (.stdinFile command path) next => do
    runScript config (next (← execWithReconnectStdinFileProgress config command path))
  | .act (.stdoutProgress command) next => do
    runScript config (next (← execWithReconnectStdoutProgress config command))

def Operation.program (operation : Operation) : Files Unit := runScript operation.config operation.script

/-! ## What the operations do with the sessions -/

/-- A session that was opened with the configuration of the request. -/
def Own (request : Request) (handle : RemoteFileSessionHandle) : Prop :=
  handle.connectionId = request.config.connectionId ∧ handle.signature = request.config.signature

def Ready (config : RemoteFileSessionConfig) : Except AppError RemoteFileSessionHandle → Hands String String → Prop
  | .ok handle,hands => Usable config.connectionId config.signature handle hands
  | .error _,hands => hands.owned = []

section
variable {config : RemoteFileSessionConfig} {exec : Exec} {hands : Hands String String}

theorem tidy_connectAndStore (howned : hands.owned = []) : Tidy Own (connectAndStore config) (Ready config) hands := by
  apply Program.Meets.andThen (tidy_connect howned)
  intro result hands hresult
  cases result with
  | error error => exact hresult
  | ok new =>
    obtain ⟨howned,hknown,hid,hsignature⟩ := hresult
    apply Program.Meets.andThen (tidy_keepOrStore howned hknown)
    intro stored hands hstored
    rw [hid,hsignature] at hstored
    exact hstored

theorem tidy_sessionHandle (howned : hands.owned = []) : Tidy Own (sessionHandle config) (Ready config) hands := by
  apply Program.Meets.andThen tidy_lookupHandle
  intro found hands hfound
  cases found with
  | none =>
    obtain rfl := hfound
    exact tidy_connectAndStore howned
  | some existing =>
    obtain ⟨rfl,hid⟩ := hfound
    dsimp only
    split_ifs with hsignature
    · exact ⟨howned,List.mem_cons_self,hid,hsignature⟩
    · refine tidy_invalidateHandle.keeping fun _ => ?_
      exact tidy_connectAndStore howned

theorem tidy_execReconnecting (howned : hands.owned = []) :
    Tidy Own (execReconnecting config exec) (fun _ hands => hands.owned = []) hands := by
  apply Program.Meets.andThen (tidy_sessionHandle howned)
  intro result hands hresult
  cases result with
  | error error => exact hresult
  | ok handle =>
    obtain ⟨howned,hknown,hown⟩ := hresult
    refine (tidy_runOn hknown hown).keeping fun outcome => ?_
    cases outcome with
    | ok output => exact howned
    | error error =>
      refine tidy_invalidateHandle.keeping fun _ => ?_
      apply Program.Meets.andThen (tidy_connectAndStore howned)
      intro result hands hresult
      cases result with
      | error error => exact hresult
      | ok refreshed =>
        obtain ⟨howned,hknown,hown⟩ := hresult
        apply (tidy_runOn hknown hown).mono
        rintro _ _ rfl
        exact howned

theorem tidy_program (operation : Operation) :
    Tidy Own operation.program (fun _ hands => hands.owned = []) ⟨[],[]⟩ := by
  obtain ⟨config,script⟩ := operation
  have hscript : ∀ hands : Hands String String, hands.owned = [] →
      Tidy Own (runScript config script) (fun _ hands => hands.owned = []) hands := by
    induction script with
    | done _ => exact fun _ howned => howned
    | act exec next ih =>
      intro hands howned
      cases exec <;> exact Program.Meets.andThen (tidy_execReconnecting howned) fun result hands howned =>
        ih result hands howned
  exact hscript _ rfl

theorem frank_connectAndStore : Frank (connectAndStore config) fun result handle => result = .ok handle := by
  apply Program.Vouched.bind
  · apply frank_connect.mono
    intro result handle haims
    cases result with
    | error error => cases haims
    | ok new => exact not_aims_keepOrStore (reuses_bind.mp haims)
  · intro result
    cases result with
    | error error => trivial
    | ok new =>
      apply Program.Vouched.bind
      · apply frank_keepOrStore.mono
        rintro stored handle ⟨⟩
        rfl
      · exact fun _ => trivial

variable {handle : RemoteFileSessionHandle}

theorem not_aims_connectAndStore {K : Except AppError RemoteFileSessionHandle → Prop} :
    ¬ Reuses handle (connectAndStore config) K := by
  rw [connectAndStore,reuses_bind]
  exact not_aims_connect

theorem frank_sessionHandle : Frank (sessionHandle config) fun result handle => result = .ok handle := by
  apply Program.Vouched.bind
  · apply frank_lookupHandle.mono
    intro found handle haims
    cases found with
    | none => exact (not_aims_connectAndStore haims).elim
    | some existing =>
      dsimp only at haims
      split_ifs at haims with hsignature
      · exact congrArg some (Except.ok.inj haims)
      · exact (not_aims_connectAndStore (aims_invalidateHandle (reuses_bind.mp haims))).elim
  · intro found
    cases found with
    | none => exact frank_connectAndStore
    | some existing =>
      dsimp only
      split_ifs
      · trivial
      · apply Program.Vouched.bind
        · apply frank_invalidateHandle.mono
          intro _ handle haims
          exact not_aims_connectAndStore haims
        · exact fun _ => frank_connectAndStore

/-- After a session is given out, a request is started on it or on none. -/
theorem frank_execReconnecting : Frank (execReconnecting config exec) fun _ _ => False := by
  apply Program.Vouched.bind
  · apply frank_sessionHandle.mono
    intro result handle haims
    cases result with
    | error error => exact haims.elim
    | ok given =>
      rcases aims_runOn (reuses_bind.mp haims) with rfl | ⟨outcome,haims⟩
      · rfl
      · cases outcome with
        | ok output => exact haims.elim
        | error error =>
          have hrest := aims_invalidateHandle (reuses_bind.mp haims)
          exact (not_aims_connectAndStore (reuses_bind.mp hrest)).elim
  · intro result
    cases result with
    | error error => trivial
    | ok given =>
      refine frank_runOn.bind fun outcome => ?_
      cases outcome with
      | ok output => trivial
      | error error =>
        apply Program.Vouched.bind
        · apply frank_invalidateHandle.mono
          intro _ handle haims
          exact not_aims_connectAndStore (reuses_bind.mp haims)
        · intro _
          apply Program.Vouched.bind
          · apply frank_connectAndStore.mono
            intro result handle haims
            cases result with
            | error error => exact haims.elim
            | ok refreshed =>
              rcases aims_runOn haims with rfl | ⟨_,haims⟩
              · rfl
              · exact haims.elim
          · intro result
            cases result with
            | error error => trivial
            | ok refreshed => exact frank_runOn

theorem not_aims_execReconnecting {K : Except AppError ExecOutput → Prop} :
    ¬ Reuses handle (execReconnecting config exec) K := by
  rw [execReconnecting,reuses_bind,sessionHandle,reuses_bind]
  exact not_aims_lookupHandle

theorem not_inHand_runScript {script : Script} : ¬ InHand handle (runScript config script) := by
  cases script with
  | done _ => exact id
  | act exec next => cases exec <;> exact fun haims => not_aims_execReconnecting (reuses_bind.mp haims)

theorem frank_runScript (script : Script) : Frank (runScript config script) fun _ _ => False := by
  induction script with
  | done _ => trivial
  | act exec next ih =>
    cases exec <;> exact Program.Vouched.bind (frank_execReconnecting.mono fun _ _ haims => not_inHand_runScript haims)
      ih

end

/-! ## Every run of the manager -/

/-- Whatever the operations and their order, the sessions are kept, and when sessions are closed that no other
operation has in hand, no command runs on a closed session. -/
theorem sessions_kept (manager : Calls String String Request ExecOutput AppError Operation) :
    (Transitions.Reached (machine Operation.program).step (fun _ _ => True) (· = Calls.none) manager →
      Kept Own manager) ∧
    (Transitions.Reached (machine Operation.program).step ClosedUnused (· = Calls.none) manager →
      manager.shared.RunsOnOpen) := by
  constructor
  · intro hreached
    exact (Accounted.of_reached tidy_program hreached).kept
  · intro hreached
    exact runsOnOpen_of_reached tidy_program (fun operation => frank_runScript operation.script)
      (fun _ _ => not_inHand_runScript) (fun _ _ h => h) hreached

/-! ## A session that is closed too early -/

namespace Overtaken

def config : RemoteFileSessionConfig := ⟨"web","key"⟩

def listing : Operation := ⟨config,.act (.plain "ls") fun _ => .done ()⟩

def failure : AppError := ⟨"remote_exec_channel_failed","SSH 命令通道打开失败。","",true⟩

/-- Two operations get the one session; the first fails on it and closes it before the second runs. -/
def turns : List (Turn Operation (Choice String String ExecOutput AppError)) :=
  [.start listing,.start listing,.advance 0 .plain,.advance 0 .plain,.advance 0 .plain,.advance 0 .plain,
    .advance 1 .plain,.advance 0 (.fails failure),.advance 0 .plain,.advance 0 .plain,.advance 1 .plain]

def session : RemoteFileSessionHandle := ⟨"web","key",0⟩

theorem ran : ∃ manager, Transitions.run (machine Operation.program).step Calls.none turns = some manager ∧
    manager.shared.log = [.opened session,.started ⟨config,.plain "ls"⟩ session,.closed session] ++
      [.started ⟨config,.plain "ls"⟩ session] := ⟨_,rfl,rfl⟩

end Overtaken

theorem closed_session_used : ∃ manager,
    Transitions.Reached (machine Operation.program).step (fun _ _ => True) (· = Calls.none) manager ∧
      ¬ manager.shared.RunsOnOpen := by
  obtain ⟨manager,hrun,hlog⟩ := Overtaken.ran
  have hstart : Transitions.Reached (machine Operation.program).step (fun _ _ => True) (· = Calls.none) Calls.none :=
    .start rfl
  refine ⟨manager,hstart.run hrun,fun h => ?_⟩
  exact h _ _ _ _ hlog (List.mem_of_getElem? (i := 2) rfl)

end Mxterm.RemoteFileSessions
