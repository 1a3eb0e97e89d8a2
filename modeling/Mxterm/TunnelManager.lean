import Mxterm.Values
import Mxterm.Transitions

/-! The manager of the tunnels (`tunnels.rs`), one step for every await of its operations. -/
namespace Mxterm.Tunnels

/-! ## Rules and their store -/

inductive TunnelKind
  | localForward | remoteForward | dynamicForward
  deriving DecidableEq

inductive TunnelStatus
  | stopped | starting | running | failed | credentialRequired
  deriving DecidableEq

structure TunnelRule where
  id : String
  kind : TunnelKind
  autoStart : Bool

structure TunnelRuleInput where
  id : Option String
  kind : TunnelKind
  autoStart : Bool

def tunnelGet (rules : List TunnelRule) (id : String) : Option TunnelRule := rules.find? fun rule => rule.id = id

def tunnelUpsert (rules : List TunnelRule) (rule : TunnelRule) : List TunnelRule :=
  if (tunnelGet rules rule.id).isSome then rules.map fun old => if old.id = rule.id then rule else old
  else rules ++ [rule]

def tunnelDelete (rules : List TunnelRule) (id : String) : List TunnelRule := rules.filter fun rule => rule.id ≠ id

variable {rules : List TunnelRule} {id : String}

theorem tunnelGet_isSome : (tunnelGet rules id).isSome ↔ ∃ rule ∈ rules, rule.id = id := by
  simp [tunnelGet]

/-- A rule that is written does not take another one away. -/
theorem tunnelGet_upsert (rule : TunnelRule) (h : (tunnelGet rules id).isSome) :
    (tunnelGet (tunnelUpsert rules rule) id).isSome := by
  obtain ⟨old,hold,hid⟩ := tunnelGet_isSome.mp h
  apply tunnelGet_isSome.mpr
  rw [tunnelUpsert]
  split_ifs
  · refine ⟨_,List.mem_map_of_mem hold,?_⟩
    split_ifs with heq
    · rw [← heq,hid]
    · exact hid
  · exact ⟨old,List.mem_append_left _ hold,hid⟩

theorem tunnelGet_delete (rules : List TunnelRule) (id : String) : tunnelGet (tunnelDelete rules id) id = none := by
  simp [tunnelGet,tunnelDelete]

theorem tunnelGet_delete_ne {other : String} (hne : other ≠ id) (h : (tunnelGet rules other).isSome) :
    (tunnelGet (tunnelDelete rules id) other).isSome := by
  obtain ⟨rule,hrule,hid⟩ := tunnelGet_isSome.mp h
  exact tunnelGet_isSome.mpr ⟨rule,List.mem_filter.mpr ⟨hrule,by simp [hid,hne]⟩,hid⟩

def normalizeRuleId (value : String) : Option String := Text.trimOptional (some value)

def shouldReplaceExistingRuntime (status : Option TunnelStatus) : Bool :=
  status = some .failed || status = some .credentialRequired || status = some .stopped

/-! ## Operations -/

inductive Operation
  | start | stop | delete
  deriving DecidableEq

/-- How what is awaited turns out: the store, the credentials, the listener, the connection, the clock. -/
inductive Outcome
  | ok | credentialRequired | failed
  deriving DecidableEq

def Outcome.failedStatus : Outcome → TunnelStatus
  | .credentialRequired => .credentialRequired
  | _ => .failed

/-- What goes on when `stop_running` is through. -/
inductive Goal
  | start (kind : TunnelKind)
  | stop
  | delete

/-- The await at which an operation stands. A start is at `connect`, say, until its session is open or has
failed; `took` tells whether the operation has taken a runtime out of the map. -/
inductive Phase
  | load
  | check (kind : TunnelKind)
  | examine (kind : TunnelKind)
  | take (goal : Goal)
  | shut (session : ℕ) (goal : Goal)
  | announceStarting (kind : TunnelKind) (took : Bool)
  | failing (error : Outcome)
  | bind (kind : TunnelKind)
  | connect (kind : TunnelKind)
  | reload (kind : TunnelKind)
  | abandon
  | forget
  | recheck (kind : TunnelKind)
  | discard
  | forward (kind : TunnelKind)
  | clearForward
  | announceRunning (kind : TunnelKind)
  | record
  | resolveStopped (took : Bool)
  | announceStopped
  | erase (took : Bool)
  | eraseState
  | updateCheck (rule : TunnelRule)
  | updateStatus (rule : TunnelRule) (hasRunning : Bool)
  | updateWrite (rule : TunnelRule)

def Goal.next : Goal → Bool → Phase
  | .start kind, took => .announceStarting kind took
  | .stop, took => .resolveStopped took
  | .delete, took => .erase took

inductive LoopPhase
  | accepting | failed | closing
  deriving DecidableEq

/-- The calls of the manager are numbered. The session and the accept loop of a start have its number; `opened`
has the sessions that were opened and not closed, and `completed` the last operation of a rule that succeeded. -/
structure TunnelManager where
  rules : List TunnelRule
  storeLocked : Bool
  states : String → Option TunnelStatus
  running : String → Option ℕ
  rule : ℕ → String
  tasks : ℕ → Option Phase
  opened : ℕ → Bool
  loops : ℕ → Option LoopPhase
  next : ℕ
  completed : String → Option Operation

namespace TunnelManager

def initial (rules : List TunnelRule) : TunnelManager where
  rules := rules
  storeLocked := false
  states _ := none
  running _ := none
  rule _ := ""
  tasks _ := none
  opened _ := false
  loops _ := none
  next := 0
  completed _ := none

def get (m : TunnelManager) (id : String) : Option TunnelRule := tunnelGet m.rules id

def call (m : TunnelManager) (id : String) (phase : Phase) : TunnelManager :=
  { m with
    rule := Function.update m.rule m.next id
    tasks := Function.update m.tasks m.next (some phase)
    next := m.next + 1 }

def enter (m : TunnelManager) (n : ℕ) (phase : Option Phase) : TunnelManager :=
  { m with tasks := Function.update m.tasks n phase }

def setState (m : TunnelManager) (id : String) (status : Option TunnelStatus) : TunnelManager :=
  { m with states := Function.update m.states id status }

def close (m : TunnelManager) (n : ℕ) : TunnelManager :=
  { m with opened := Function.update m.opened n false }

def complete (m : TunnelManager) (id : String) (operation : Operation) : TunnelManager :=
  { m with completed := Function.update m.completed id (some operation) }

/-- `stop_running` takes the runtime out of the map and aborts its task. -/
def takeOut (m : TunnelManager) (id : String) (n : ℕ) : TunnelManager :=
  { m with
    running := Function.update m.running id none
    loops := Function.update m.loops n none }

def openSession (m : TunnelManager) (n : ℕ) : TunnelManager :=
  { m with opened := Function.update m.opened n true }

/-- The accept loop of a local or a dynamic forward is spawned. -/
def spawn (m : TunnelManager) (n : ℕ) (kind : TunnelKind) : TunnelManager :=
  if kind = .remoteForward then m else { m with loops := Function.update m.loops n (some .accepting) }

def insert (m : TunnelManager) (n : ℕ) : TunnelManager :=
  { m with running := Function.update m.running (m.rule n) (some n) }

def eraseRule (m : TunnelManager) (id : String) : TunnelManager :=
  { m with
    rules := tunnelDelete m.rules id
    storeLocked := true }

def unlock (m : TunnelManager) : TunnelManager := { m with storeLocked := false }

def writeRule (m : TunnelManager) (rule : TunnelRule) : TunnelManager :=
  { m with rules := tunnelUpsert m.rules rule }

/-- The next step of a call, up to its next await. The lock of the store is held over an await by a deletion
only. A reply's look at the states is part of the step before it. -/
def advance (m : TunnelManager) (n : ℕ) (phase : Phase) (outcome : Outcome) : Option TunnelManager :=
  match phase with
  | .load =>
    if m.storeLocked then none
    else
      match outcome, m.get (m.rule n) with
      | .ok, some rule => some (m.enter n (some (.check rule.kind)))
      | _, _ => some (m.enter n none)
  | .check kind =>
    if (m.running (m.rule n)).isSome then some (m.enter n (some (.examine kind)))
    else some (m.enter n (some (.announceStarting kind false)))
  | .examine kind =>
    if shouldReplaceExistingRuntime (m.states (m.rule n)) then some (m.enter n (some (.take (.start kind))))
    else some ((m.complete (m.rule n) .start).enter n none)
  | .take goal =>
    match m.running (m.rule n) with
    | some session => some ((m.takeOut (m.rule n) session).enter n (some (.shut session goal)))
    | none => some (m.enter n (some (goal.next false)))
  | .shut session goal => some ((m.close session).enter n (some (goal.next true)))
  | .announceStarting kind _ =>
    match outcome with
    | .ok =>
      if kind = .remoteForward then some ((m.setState (m.rule n) (some .starting)).enter n (some (.connect kind)))
      else some ((m.setState (m.rule n) (some .starting)).enter n (some (.bind kind)))
    | error => some ((m.setState (m.rule n) (some .starting)).enter n (some (.failing error)))
  | .failing error => some ((m.setState (m.rule n) (some error.failedStatus)).enter n none)
  | .bind kind =>
    match outcome with
    | .ok => some (m.enter n (some (.connect kind)))
    | _ => some (m.enter n (some (.failing .failed)))
  | .connect kind =>
    match outcome with
    | .ok => some ((m.openSession n).enter n (some (.reload kind)))
    | _ => some (m.enter n (some (.failing .failed)))
  | .reload kind =>
    if m.storeLocked then none
    else
      match outcome, m.get (m.rule n) with
      | .ok, some _ => some (m.enter n (some (.recheck kind)))
      | _, _ => some (m.enter n (some .abandon))
  | .abandon => some ((m.close n).enter n (some .forget))
  | .forget => some ((m.setState (m.rule n) none).enter n none)
  | .recheck kind =>
    if (m.running (m.rule n)).isSome then some (m.enter n (some .discard))
    else if kind = .remoteForward then some (m.enter n (some (.forward kind)))
    else some (m.enter n (some (.announceRunning kind)))
  | .discard => some (((m.close n).complete (m.rule n) .start).enter n none)
  | .forward kind =>
    match outcome with
    | .ok => some (m.enter n (some (.announceRunning kind)))
    | _ => some (m.enter n (some .clearForward))
  | .clearForward => some ((m.close n).enter n (some (.failing .failed)))
  | .announceRunning kind =>
    match outcome with
    | .ok => some (((m.setState (m.rule n) (some .running)).spawn n kind).enter n (some .record))
    | _ => some (m.enter n none)
  | .record => some (((m.insert n).complete (m.rule n) .start).enter n none)
  | .resolveStopped took =>
    if m.storeLocked then none
    else
      match outcome, took || (m.get (m.rule n)).isSome with
      | .ok, true => some (m.enter n (some .announceStopped))
      | _, _ => some (m.enter n none)
  | .announceStopped =>
    some (((m.setState (m.rule n) (some .stopped)).complete (m.rule n) .stop).enter n none)
  | .erase _ =>
    if m.storeLocked then none
    else
      match outcome, m.get (m.rule n) with
      | .ok, some _ => some ((m.eraseRule (m.rule n)).enter n (some .eraseState))
      | _, _ => some (m.enter n none)
  | .eraseState => some (((m.setState (m.rule n) none).unlock.complete (m.rule n) .delete).enter n none)
  | .updateCheck rule => some (m.enter n (some (.updateStatus rule (m.running (m.rule n)).isSome)))
  | .updateStatus rule hasRunning =>
    if hasRunning || m.states (m.rule n) = some .starting || m.states (m.rule n) = some .running then
      some (m.enter n none)
    else some (m.enter n (some (.updateWrite rule)))
  | .updateWrite rule =>
    if m.storeLocked then none
    else
      match outcome with
      | .ok => some ((m.writeRule rule).enter n none)
      | _ => some (m.enter n none)

/-- The accept loop fails, takes the runtime of its rule out of the map and closes its session. -/
def advanceLoop (m : TunnelManager) (n : ℕ) : LoopPhase → TunnelManager
  | .accepting => { m.setState (m.rule n) (some .failed) with loops := Function.update m.loops n (some .failed) }
  | .failed =>
    { m with
      running := Function.update m.running (m.rule n) none
      loops := Function.update m.loops n (some .closing) }
  | .closing => { m.close n with loops := Function.update m.loops n none }

inductive Action
  | start (ruleId : String)
  | stop (ruleId : String)
  | delete (ruleId : String)
  | autostart
  | upsert (input : TunnelRuleInput) (fresh : String)
  | advance (call : ℕ) (outcome : Outcome)
  | acceptLoop (call : ℕ)

def begin (m : TunnelManager) (ruleId : String) (phase : Phase) : TunnelManager :=
  match normalizeRuleId ruleId with
  | some id => m.call id phase
  | none => m

def startAll (m : TunnelManager) : List TunnelRule → TunnelManager
  | [] => m
  | rule :: rules => (m.call rule.id .load).startAll rules

def beginUpsert (m : TunnelManager) (input : TunnelRuleInput) (fresh : String) : TunnelManager :=
  match Text.trimOptional input.id with
  | some id => m.call id (.updateCheck ⟨id,input.kind,input.autoStart⟩)
  | none => m.call fresh (.updateWrite ⟨fresh,input.kind,input.autoStart⟩)

def step (m : TunnelManager) : Action → Option TunnelManager
  | .start ruleId => some (m.begin ruleId .load)
  | .stop ruleId => some (m.begin ruleId (.take .stop))
  | .delete ruleId => some (m.begin ruleId (.take .delete))
  | .autostart => if m.storeLocked then none else some (m.startAll (m.rules.filter (·.autoStart)))
  | .upsert input fresh => some (m.beginUpsert input fresh)
  | .advance n outcome =>
    match m.tasks n with
    | some phase => m.advance n phase outcome
    | none => none
  | .acceptLoop n =>
    match m.loops n with
    | some phase => some (m.advanceLoop n phase)
    | none => none

end TunnelManager
end Mxterm.Tunnels
