import Mxterm.TunnelManager

/-! What a tunnel shows of its connections: the counter and the last error in the state of a rule, over the runs of its
tunnel (`tunnels.rs`). -/
namespace Mxterm.TunnelCounter

open Tunnels

/-! ## The state of a rule -/

structure TunnelRuntimeState where
  status : TunnelStatus
  lastError : Option AppError
  activeConnections : ℕ
  deriving DecidableEq

def startingState : TunnelRuntimeState := ⟨.starting,none,0⟩
def runningState : TunnelRuntimeState := ⟨.running,none,0⟩
def stoppedState : TunnelRuntimeState := ⟨.stopped,none,0⟩
def credentialRequiredState (error : AppError) : TunnelRuntimeState := ⟨.credentialRequired,some error,0⟩
def failedState (error : AppError) : TunnelRuntimeState := ⟨.failed,some error,0⟩

def u32Max : ℕ := 2 ^ 32 - 1

def incrementActiveConnections (state : TunnelRuntimeState) : TunnelRuntimeState :=
  { state with activeConnections := min (state.activeConnections + 1) u32Max }

def decrementActiveConnections (error : Option AppError) (state : TunnelRuntimeState) : TunnelRuntimeState :=
  { state with
    activeConnections := state.activeConnections - 1
    lastError := error <|> state.lastError }

/-! ## The runs of a rule -/

/-- How many connections of a run there are of each kind: those whose start is reported and not counted, those that
count, and those whose end was counted before their start. -/
structure Connections where
  reported : ℕ
  counted : ℕ
  overtaken : ℕ
  deriving DecidableEq

inductive Goal
  | start | stop
  deriving DecidableEq

/-- Where the operation on the rule stands. -/
inductive Phase
  | idle
  | take (goal : Goal)
  | clear (goal : Goal)
  | announceStarting
  | announceFailed (run : ℕ) (prompt : Bool) (error : AppError)
  | connect (run : ℕ)
  | request (run : ℕ)
  | announceRunning (run : ℕ)
  | record (run : ℕ)
  | resolveStopped (took : Bool)
  | announceStopped
  deriving DecidableEq

def Goal.next : Goal → Bool → Phase
  | .start, _ => .announceStarting
  | .stop, took => .resolveStopped took

/-- How what an operation waits for turns out; the rule may be gone meanwhile. -/
inductive Outcome
  | ok
  | missing
  | failed (error : AppError)

/-- A rule with its runs, which are numbered. `serving` accepts connections: its accept loop runs, or its handler of
events is set; `closing` has an accept loop that failed. `current` is the run that the state is about, `reporter` the
one that the last error comes from. -/
structure RuleTunnel where
  state : Option TunnelRuntimeState
  running : Option ℕ
  serving : Option ℕ
  closing : Option ℕ
  phase : Phase
  runs : ℕ
  current : Option ℕ
  reporter : ℕ
  connections : ℕ → Connections

inductive Action
  | start
  | stop
  | advance (outcome : Outcome)
  | accept
  | acceptFails (error : AppError)
  | closeLoop
  | report
  | countStarted (run : ℕ)
  | countOvertaken (run : ℕ)
  | finish (run : ℕ) (error : Option AppError)
  | overtake (run : ℕ) (error : Option AppError)
  | lose (run : ℕ)

namespace RuleTunnel

def initial : RuleTunnel where
  state := none
  running := none
  serving := none
  closing := none
  phase := .idle
  runs := 0
  current := none
  reporter := 0
  connections _ := ⟨0,0,0⟩

def enter (m : RuleTunnel) (phase : Phase) : RuleTunnel := { m with phase := phase }

def setState (m : RuleTunnel) (state : TunnelRuntimeState) : RuleTunnel := { m with state := some state }

def setConnections (m : RuleTunnel) (run : ℕ) (connections : Connections) : RuleTunnel :=
  { m with connections := Function.update m.connections run connections }

def increment (m : RuleTunnel) : RuleTunnel := { m with state := m.state.map incrementActiveConnections }

def decrement (m : RuleTunnel) (run : ℕ) (error : Option AppError) : RuleTunnel :=
  { m with
    state := m.state.map (decrementActiveConnections error)
    reporter := if error.isSome then run else m.reporter }

/-- `stop_running` takes the runtime out and aborts its accept loop. -/
def takeOut (m : RuleTunnel) (kind : Tunnels.TunnelKind) (run : ℕ) : RuleTunnel :=
  { m with
    running := none
    serving := if kind ≠ .remoteForward ∧ m.serving = some run then none else m.serving
    closing := if m.closing = some run then none else m.closing }

/-- The next step of the operation. The handler of a remote forward is set before its port is requested. -/
def advance (kind : Tunnels.TunnelKind) (m : RuleTunnel) (outcome : Outcome) : Phase → Option RuleTunnel
  | .idle => none
  | .take goal =>
    match m.running with
    | none => some (m.enter (goal.next false))
    | some run =>
      if kind = .remoteForward then some ((m.takeOut kind run).enter (.clear goal))
      else some ((m.takeOut kind run).enter (goal.next true))
  | .clear goal => some ({ m with serving := none }.enter (goal.next true))
  | .announceStarting =>
    let begun := { m.setState startingState with runs := m.runs + 1, current := some m.runs }
    match outcome with
    | .failed error => some (begun.enter (.announceFailed m.runs (error.code = "credential_prompt_required") error))
    | _ => some (begun.enter (.connect m.runs))
  | .announceFailed run prompt error =>
    let state := if prompt then credentialRequiredState error else failedState error
    some ({ m.setState state with reporter := run }.enter .idle)
  | .connect run =>
    match outcome with
    | .failed error => some (m.enter (.announceFailed run false error))
    | .missing => some ({ m with state := none, current := none }.enter .idle)
    | .ok =>
      if kind = .remoteForward then some ({ m with serving := some run }.enter (.request run))
      else some (m.enter (.announceRunning run))
  | .request run =>
    match outcome with
    | .failed error => some ({ m with serving := none }.enter (.announceFailed run false error))
    | _ => some (m.enter (.announceRunning run))
  | .announceRunning run => some ({ m.setState runningState with serving := some run }.enter (.record run))
  | .record run => some ({ m with running := some run }.enter .idle)
  | .resolveStopped took =>
    match outcome with
    | .ok => some (m.enter .announceStopped)
    | .missing => if took then some (m.enter .announceStopped) else some (m.enter .idle)
    | .failed _ => some (m.enter .idle)
  | .announceStopped => some ({ m.setState stoppedState with current := none }.enter .idle)

/-- One step. The tasks that count the start and the end of a remote connection are spawned by themselves and run in
any order; the end of one is lost when the handler is gone. -/
def step (kind : Tunnels.TunnelKind) (m : RuleTunnel) : Action → Option RuleTunnel
  | .start =>
    if m.phase ≠ .idle then none
    else if m.running.isNone then some (m.enter .announceStarting)
    else if shouldReplaceExistingRuntime (m.state.map (·.status)) then some (m.enter (.take .start))
    else some m
  | .stop => if m.phase ≠ .idle then none else some (m.enter (.take .stop))
  | .advance outcome => m.advance kind outcome m.phase
  | .accept =>
    match m.serving with
    | none => none
    | some run =>
      if kind = .remoteForward then none
      else some (m.increment.setConnections run
        { m.connections run with counted := (m.connections run).counted + 1 })
  | .acceptFails error =>
    match m.serving with
    | none => none
    | some run =>
      if kind = .remoteForward then none
      else some { m.setState (failedState error) with serving := none, closing := some run, reporter := run }
  | .closeLoop => if m.closing = none then none else some { m with running := none, closing := none }
  | .report =>
    match m.serving with
    | none => none
    | some run =>
      if kind = .remoteForward then
        some (m.setConnections run { m.connections run with reported := (m.connections run).reported + 1 })
      else none
  | .countStarted run =>
    if (m.connections run).reported = 0 then none
    else some (m.increment.setConnections run
      { m.connections run with
        reported := (m.connections run).reported - 1
        counted := (m.connections run).counted + 1 })
  | .countOvertaken run =>
    if (m.connections run).overtaken = 0 then none
    else some (m.increment.setConnections run
      { m.connections run with overtaken := (m.connections run).overtaken - 1 })
  | .finish run error =>
    if (m.connections run).counted = 0 then none
    else some ((m.decrement run error).setConnections run
      { m.connections run with counted := (m.connections run).counted - 1 })
  | .overtake run error =>
    if (m.connections run).reported = 0 then none
    else some ((m.decrement run error).setConnections run
      { m.connections run with
        reported := (m.connections run).reported - 1
        overtaken := (m.connections run).overtaken + 1 })
  | .lose run =>
    if kind ≠ .remoteForward ∨ m.serving = some run ∨ (m.connections run).counted = 0 then none
    else some (m.setConnections run { m.connections run with counted := (m.connections run).counted - 1 })

/-! ## What the state should show -/

/-- The state of a rule, as it is shown. -/
def shown (m : RuleTunnel) : TunnelRuntimeState := m.state.getD stoppedState

/-- The connections that the current run has accepted and that have not ended. -/
def live (m : RuleTunnel) : ℕ :=
  match m.current with
  | none => 0
  | some run => (m.connections run).counted

/-- The counter has the connections of the current run, and the last error is one of it. -/
structure Exact (m : RuleTunnel) : Prop where
  active : m.shown.activeConnections = m.live
  error : m.shown.lastError ≠ none → m.current = some m.reporter

/-- The steps that keep it so. A state is announced when no connection is live; a connection is counted in the state of
its own run, its start before its end, and its end is not lost. -/
def Orderly (m : RuleTunnel) : Action → Prop
  | .advance _ =>
    match m.phase with
    | .announceRunning _ | .announceFailed _ _ _ => m.live = 0
    | _ => True
  | .accept => m.shown.activeConnections < u32Max
  | .acceptFails _ => m.live = 0
  | .countStarted run =>
    m.state = none ∨
      if m.current = some run then m.shown.activeConnections < u32Max else m.shown.activeConnections = u32Max
  | .countOvertaken _ => m.state = none ∨ m.shown.activeConnections = u32Max
  | .finish run error => m.state = none ∨ m.current = some run ∨ m.shown.activeConnections = 0 ∧ error = none
  | .overtake run error =>
    m.state = none ∨ m.shown.activeConnections = 0 ∧ (m.current = some run ∨ error = none)
  | .lose run => m.current ≠ some run
  | _ => True

end RuleTunnel
end Mxterm.TunnelCounter
