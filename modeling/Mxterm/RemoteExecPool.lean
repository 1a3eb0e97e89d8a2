import Mxterm.RemoteCommands
import Mxterm.SessionHandles

/-! The pool of SSH sessions for single commands (`remote_exec_pool.rs`). -/
namespace Mxterm.RemoteExecPool

open Interleavings (Program Turn)
open SessionCaches
open RemoteCommands (ExecOutput)

structure RemoteExecSessionPoolOptions where
  idleTimeoutMs : ℕ := 180000
  maxCachedSessions : ℕ := 4

inductive RemoteExecRetry
  | none | reconnectOnce
  deriving DecidableEq

/-- The configuration of a call; what else is resolved with it is for the connection only. -/
structure ResolvedSshConfig where
  connectionId : String
  signature : String

structure Request where
  config : ResolvedSshConfig
  command : String

structure RemoteExecSessionMeta where
  signature : String
  lastUsedMs : ℕ

def canReuseRemoteExecSession (kept : RemoteExecSessionMeta) (signature : String) (idleTimeoutMs nowMs : ℕ) : Bool :=
  kept.signature = signature && nowMs - kept.lastUsedMs ≤ idleTimeoutMs

abbrev RemoteExecSessionHandle := Handle String String

abbrev Pooled (α : Type) := Program (Action String String Request) (Answer ExecOutput AppError) α

section
variable (options : RemoteExecSessionPoolOptions)

def pruneHandles (nowMs : ℕ) : List RemoteExecSessionHandle → Pooled Unit
  | [] => return ()
  | handle :: handles => do
    match ← isBusy handle with
    | true => pruneHandles nowMs handles
    | false => do
      let lastUsedMs ← lastUsed handle
      if canReuseRemoteExecSession ⟨handle.signature,lastUsedMs⟩ handle.signature options.idleTimeoutMs nowMs then
        pruneHandles nowMs handles
      else do
        invalidateHandle handle.connectionId handle
        pruneHandles nowMs handles

def pruneIdleSessions (nowMs : ℕ) : Pooled Unit := do pruneHandles options nowMs (← entries)

/-- The keys that make room for the active connection, in their order. -/
def staleIds (activeConnectionId : String) (keys : List String) : List String :=
  if keys.length < options.maxCachedSessions then []
  else ((keys.filter (· ≠ activeConnectionId)).insertionSort (· ≤ ·)).take
    (keys.length - (options.maxCachedSessions - 1))

def pruneExtraSessions (activeConnectionId : String) : Pooled Unit :=
  if options.maxCachedSessions = 0 then return () else evictAndClose (staleIds options activeConnectionId)

def connectAndStore (config : ResolvedSshConfig) (session : RemoteExecSessionHandle) :
    Pooled RemoteExecSessionHandle := do
  pruneExtraSessions options config.connectionId
  markUsed session
  keepOrStore session

def connectNew (config : ResolvedSshConfig) : Pooled (Except AppError RemoteExecSessionHandle) := do
  match ← connect config.connectionId config.signature with
  | .error error => return .error error
  | .ok session => return .ok (← connectAndStore options config session)

def sessionHandleWithConnector (config : ResolvedSshConfig) :
    Pooled (Except AppError RemoteExecSessionHandle) := do
  let nowMs ← now
  pruneIdleSessions options nowMs
  match ← lookupHandle config.connectionId with
  | some existing => do
    let lastUsedMs ← lastUsed existing
    if canReuseRemoteExecSession ⟨existing.signature,lastUsedMs⟩ config.signature options.idleTimeoutMs nowMs then
      return .ok existing
    else do
      invalidateHandle config.connectionId existing
      connectNew options config
  | none => connectNew options config

def runExec (handle : RemoteExecSessionHandle) (request : Request) : Pooled (Except AppError ExecOutput) := do
  enter handle
  let result ← runOn handle request
  leave handle
  return result

/-- The prune that `mark_handle_used` puts off is a call of its own. -/
def finishUse (config : ResolvedSshConfig) (handle : RemoteExecSessionHandle) (succeeded : Bool) : Pooled Unit :=
  if succeeded then markUsed handle else invalidateHandle config.connectionId handle

def execWithConnector (config : ResolvedSshConfig) (command : String) (retry : RemoteExecRetry) :
    Pooled (Except AppError ExecOutput) := do
  match ← sessionHandleWithConnector options config with
  | .error error => return .error error
  | .ok handle =>
    match ← runExec handle ⟨config,command⟩ with
    | .ok output => do
      finishUse config handle true
      return .ok output
    | .error error => do
      finishUse config handle false
      if retry = .reconnectOnce then
        match ← connectNew options config with
        | .error error => return .error error
        | .ok refreshed => do
          let result ← runExec refreshed ⟨config,command⟩
          finishUse config refreshed result.isOk
          return result
      else return .error error

def execWithStdoutChunks (config : ResolvedSshConfig) (command : String) : Pooled (Except AppError ExecOutput) := do
  match ← sessionHandleWithConnector options config with
  | .error error => return .error error
  | .ok handle => do
    enter handle
    let result ← runOn handle ⟨config,command⟩
    finishUse config handle result.isOk
    leave handle
    return result

def warmWithContext (config : ResolvedSshConfig) : Pooled (Except AppError Unit) := do
  match ← sessionHandleWithConnector options config with
  | .error error => return .error error
  | .ok handle => do
    markUsed handle
    return .ok ()

def invalidateConnection (connectionId : String) : Pooled Unit := evictAndClose fun _ => [connectionId]

def scheduledIdlePrune (handle : RemoteExecSessionHandle) : Pooled Unit := do
  match ← isBusy handle with
  | true => return ()
  | false => do
    let lastUsedMs ← lastUsed handle
    let nowMs ← now
    if nowMs - lastUsedMs > options.idleTimeoutMs then invalidateHandle handle.connectionId handle else return ()

inductive Operation
  | exec (config : ResolvedSshConfig) (command : String) (retry : RemoteExecRetry)
  | execChunks (config : ResolvedSshConfig) (command : String)
  | warm (config : ResolvedSshConfig)
  | invalidate (connectionId : String)
  | idlePrune (handle : RemoteExecSessionHandle)

def Operation.program : Operation → Pooled Unit
  | .exec config command retry => do
    let _ ← execWithConnector options config command retry
    return ()
  | .execChunks config command => do
    let _ ← execWithStdoutChunks options config command
    return ()
  | .warm config => do
    let _ ← warmWithContext options config
    return ()
  | .invalidate connectionId => invalidateConnection connectionId
  | .idlePrune handle => scheduledIdlePrune options handle

end

/-! ## What the calls do with the sessions -/

/-- A session that was opened with the configuration of the request. -/
def Own (request : Request) (handle : RemoteExecSessionHandle) : Prop :=
  handle.connectionId = request.config.connectionId ∧ handle.signature = request.config.signature

def Ready (config : ResolvedSshConfig) : Except AppError RemoteExecSessionHandle → Hands String String → Prop
  | .ok handle,hands => Usable config.connectionId config.signature handle hands
  | .error _,hands => hands.owned = []

section
variable {options : RemoteExecSessionPoolOptions} {config : ResolvedSshConfig} {command : String} {nowMs : ℕ}
  {hands : Hands String String} {handle session : RemoteExecSessionHandle}

theorem tidy_pruneHandles (handles : List RemoteExecSessionHandle) :
    Tidy Own (pruneHandles options nowMs handles) (fun _ hands' => hands' = hands) hands := by
  induction handles with
  | nil => rfl
  | cons first handles ih =>
    refine tidy_isBusy.keeping fun busy => ?_
    cases busy with
    | true => exact ih
    | false =>
      refine tidy_lastUsed.keeping fun lastUsedMs => ?_
      split_ifs
      · exact ih
      · refine tidy_invalidateHandle.keeping fun _ => ?_
        exact ih

theorem tidy_pruneIdleSessions :
    Tidy Own (pruneIdleSessions options nowMs) (fun _ hands' => hands' = hands) hands := by
  refine tidy_entries.keeping fun handles => ?_
  exact tidy_pruneHandles handles

variable {connectionId : String}

theorem tidy_pruneExtraSessions :
    Tidy Own (pruneExtraSessions options connectionId) (fun _ hands' => hands' = hands) hands := by
  rw [pruneExtraSessions]
  split_ifs
  · rfl
  · exact tidy_evictAndClose

theorem tidy_connectAndStore (howned : hands.owned = [session]) (hknown : session ∈ hands.known) :
    Tidy Own (connectAndStore options config session) (Usable session.connectionId session.signature) hands := by
  refine tidy_pruneExtraSessions.keeping fun _ => ?_
  refine tidy_markUsed.keeping fun _ => ?_
  exact tidy_keepOrStore howned hknown

theorem tidy_connectNew (howned : hands.owned = []) : Tidy Own (connectNew options config) (Ready config) hands := by
  apply Program.Meets.andThen (tidy_connect howned)
  intro result hands hresult
  cases result with
  | error error => exact hresult
  | ok session =>
    obtain ⟨howned,hknown,hid,hsignature⟩ := hresult
    apply Program.Meets.andThen (tidy_connectAndStore howned hknown)
    intro stored hands hstored
    rw [hid,hsignature] at hstored
    exact hstored

theorem tidy_sessionHandleWithConnector (howned : hands.owned = []) :
    Tidy Own (sessionHandleWithConnector options config) (Ready config) hands := by
  refine tidy_now.keeping fun nowMs => ?_
  refine tidy_pruneIdleSessions.keeping fun _ => ?_
  apply Program.Meets.andThen tidy_lookupHandle
  intro found hands hfound
  cases found with
  | none =>
    obtain rfl := hfound
    exact tidy_connectNew howned
  | some existing =>
    obtain ⟨rfl,hid⟩ := hfound
    refine tidy_lastUsed.keeping fun lastUsedMs => ?_
    split_ifs with hreuse
    · refine ⟨howned,List.mem_cons_self,hid,?_⟩
      simp only [canReuseRemoteExecSession,Bool.and_eq_true,decide_eq_true_eq] at hreuse
      exact hreuse.1
    · refine tidy_invalidateHandle.keeping fun _ => ?_
      exact tidy_connectNew howned

variable {request : Request}

theorem tidy_runExec (hknown : handle ∈ hands.known) (hown : Own request handle) :
    Tidy Own (runExec handle request) (fun _ hands' => hands' = hands) hands := by
  refine tidy_enter.keeping fun _ => ?_
  refine (tidy_runOn hknown hown).keeping fun result => ?_
  refine tidy_leave.keeping fun _ => ?_
  rfl

variable {succeeded : Bool}

theorem tidy_finishUse : Tidy Own (finishUse config handle succeeded) (fun _ hands' => hands' = hands) hands := by
  cases succeeded with
  | true => exact tidy_markUsed
  | false => exact tidy_invalidateHandle

theorem tidy_execWithConnector {retry : RemoteExecRetry} (howned : hands.owned = []) :
    Tidy Own (execWithConnector options config command retry) (fun _ hands => hands.owned = []) hands := by
  apply Program.Meets.andThen (tidy_sessionHandleWithConnector howned)
  intro result hands hresult
  cases result with
  | error error => exact hresult
  | ok handle =>
    obtain ⟨howned,hknown,hown⟩ := hresult
    have hfits : Own ⟨config,command⟩ handle := hown
    refine (tidy_runExec hknown hfits).keeping fun outcome => ?_
    cases outcome with
    | ok output =>
      refine tidy_finishUse.keeping fun _ => ?_
      exact howned
    | error error =>
      refine tidy_finishUse.keeping fun _ => ?_
      split_ifs
      · apply Program.Meets.andThen (tidy_connectNew howned)
        intro result hands hresult
        cases result with
        | error error => exact hresult
        | ok refreshed =>
          obtain ⟨howned,hknown,hown⟩ := hresult
          have hfits : Own ⟨config,command⟩ refreshed := hown
          refine (tidy_runExec hknown hfits).keeping fun outcome => ?_
          refine tidy_finishUse.keeping fun _ => ?_
          exact howned
      · exact howned

theorem tidy_execWithStdoutChunks (howned : hands.owned = []) :
    Tidy Own (execWithStdoutChunks options config command) (fun _ hands => hands.owned = []) hands := by
  apply Program.Meets.andThen (tidy_sessionHandleWithConnector howned)
  intro result hands hresult
  cases result with
  | error error => exact hresult
  | ok handle =>
    obtain ⟨howned,hknown,hown⟩ := hresult
    refine tidy_enter.keeping fun _ => ?_
    refine (tidy_runOn hknown hown).keeping fun outcome => ?_
    refine tidy_finishUse.keeping fun _ => ?_
    refine tidy_leave.keeping fun _ => ?_
    exact howned

theorem tidy_warmWithContext (howned : hands.owned = []) :
    Tidy Own (warmWithContext options config) (fun _ hands => hands.owned = []) hands := by
  apply Program.Meets.andThen (tidy_sessionHandleWithConnector howned)
  intro result hands hresult
  cases result with
  | error error => exact hresult
  | ok handle =>
    refine tidy_markUsed.keeping fun _ => ?_
    exact hresult.1

theorem tidy_scheduledIdlePrune : Tidy Own (scheduledIdlePrune options handle) (fun _ hands' => hands' = hands)
    hands := by
  refine tidy_isBusy.keeping fun busy => ?_
  cases busy with
  | true => rfl
  | false =>
    refine tidy_lastUsed.keeping fun lastUsedMs => ?_
    refine tidy_now.keeping fun nowMs => ?_
    split_ifs
    · exact tidy_invalidateHandle
    · rfl

theorem tidy_program (operation : Operation) :
    Tidy Own (operation.program options) (fun _ hands => hands.owned = []) ⟨[],[]⟩ := by
  cases operation with
  | exec config command retry =>
    exact Program.Meets.andThen (tidy_execWithConnector rfl) fun _ _ howned => howned
  | execChunks config command =>
    exact Program.Meets.andThen (tidy_execWithStdoutChunks rfl) fun _ _ howned => howned
  | warm config => exact Program.Meets.andThen (tidy_warmWithContext rfl) fun _ _ howned => howned
  | invalidate connectionId =>
    apply Program.Meets.mono tidy_evictAndClose
    rintro _ _ rfl
    rfl
  | idlePrune handle =>
    apply Program.Meets.mono tidy_scheduledIdlePrune
    rintro _ _ rfl
    rfl

/-! ## What they have in hand -/

variable {K : Unit → Prop}

theorem aims_pruneHandles {handles : List RemoteExecSessionHandle}
    (h : Reuses handle (pruneHandles options nowMs handles) K) : K () := by
  induction handles with
  | nil => exact h
  | cons first handles ih =>
    obtain ⟨busy,h⟩ := aims_isBusy (reuses_bind.mp h)
    cases busy with
    | true => exact ih h
    | false =>
      obtain ⟨lastUsedMs,h⟩ := aims_lastUsed (reuses_bind.mp h)
      split_ifs at h
      · exact ih h
      · exact ih (aims_invalidateHandle (reuses_bind.mp h))

theorem frank_pruneHandles (handles : List RemoteExecSessionHandle) :
    Frank (pruneHandles options nowMs handles) fun _ _ => False := by
  induction handles with
  | nil => trivial
  | cons first handles ih =>
    refine frank_isBusy.bind fun busy => ?_
    cases busy with
    | true => exact ih
    | false =>
      refine frank_lastUsed.bind fun lastUsedMs => ?_
      split_ifs
      · exact ih
      · apply Program.Vouched.bind
        · apply frank_invalidateHandle.mono
          intro _ handle haims
          exact aims_pruneHandles haims
        · exact fun _ => ih

theorem aims_pruneExtraSessions (h : Reuses handle (pruneExtraSessions options connectionId) K) : K () := by
  rw [pruneExtraSessions] at h
  split_ifs at h
  · exact h
  · exact aims_evictAndClose h

theorem frank_pruneExtraSessions : Frank (pruneExtraSessions options connectionId) fun _ _ => False := by
  rw [pruneExtraSessions]
  split_ifs
  · trivial
  · exact frank_evictAndClose

theorem not_aims_connectAndStore {K : RemoteExecSessionHandle → Prop} :
    ¬ Reuses handle (connectAndStore options config session) K := by
  intro haims
  have hmark := aims_pruneExtraSessions (reuses_bind.mp haims)
  exact not_aims_keepOrStore (aims_markUsed (reuses_bind.mp hmark))

theorem frank_connectAndStore :
    Frank (connectAndStore options config session) fun result handle => handle = result := by
  apply Program.Vouched.bind
  · apply frank_pruneExtraSessions.mono
    intro _ handle haims
    exact not_aims_keepOrStore (aims_markUsed (reuses_bind.mp haims))
  · intro _
    exact frank_markUsed.bind fun _ => frank_keepOrStore

theorem not_aims_connectNew {K : Except AppError RemoteExecSessionHandle → Prop} :
    ¬ Reuses handle (connectNew options config) K :=
  fun haims => not_aims_connect (reuses_bind.mp haims)

theorem frank_connectNew : Frank (connectNew options config) fun result handle => result = .ok handle := by
  apply Program.Vouched.bind
  · apply frank_connect.mono
    intro result handle haims
    cases result with
    | error error => cases haims
    | ok session => exact not_aims_connectAndStore (reuses_bind.mp haims)
  · intro result
    cases result with
    | error error => trivial
    | ok session =>
      apply Program.Vouched.bind
      · apply frank_connectAndStore.mono
        rintro stored handle ⟨⟩
        rfl
      · exact fun _ => trivial

theorem not_aims_sessionHandleWithConnector {K : Except AppError RemoteExecSessionHandle → Prop} :
    ¬ Reuses handle (sessionHandleWithConnector options config) K := by
  intro haims
  obtain ⟨_,hprune⟩ := aims_now (reuses_bind.mp haims)
  exact not_aims_entries (reuses_bind.mp (reuses_bind.mp hprune))

theorem frank_sessionHandleWithConnector :
    Frank (sessionHandleWithConnector options config) fun result handle => result = .ok handle := by
  refine frank_now.bind fun nowMs => ?_
  apply Program.Vouched.bind
  · apply Program.Vouched.bind
    · apply frank_entries.mono
      intro handles handle haims
      exact not_aims_lookupHandle (reuses_bind.mp (aims_pruneHandles haims))
    · intro handles
      apply (frank_pruneHandles handles).mono
      intro _ handle haims
      exact not_aims_lookupHandle (reuses_bind.mp haims)
  intro _
  apply Program.Vouched.bind
  · apply frank_lookupHandle.mono
    intro found handle haims
    cases found with
    | none => exact (not_aims_connectNew haims).elim
    | some existing =>
      obtain ⟨lastUsedMs,haims⟩ := aims_lastUsed (reuses_bind.mp haims)
      split_ifs at haims
      · exact congrArg some (Except.ok.inj haims)
      · exact (not_aims_connectNew (aims_invalidateHandle (reuses_bind.mp haims))).elim
  · intro found
    cases found with
    | none => exact frank_connectNew
    | some existing =>
      refine frank_lastUsed.bind fun lastUsedMs => ?_
      split_ifs
      · trivial
      · apply Program.Vouched.bind
        · apply frank_invalidateHandle.mono
          intro _ handle haims
          exact not_aims_connectNew haims
        · exact fun _ => frank_connectNew

variable {other : RemoteExecSessionHandle}

theorem aims_runExec {K : Except AppError ExecOutput → Prop} (h : Reuses handle (runExec other request) K) :
    handle = other ∨ ∃ result, K result := by
  have hrun := aims_enter (reuses_bind.mp h)
  rcases aims_runOn (reuses_bind.mp hrun) with heq | ⟨result,hleave⟩
  · exact .inl heq
  · exact .inr ⟨result,aims_leave (reuses_bind.mp hleave)⟩

theorem frank_runExec {K : Except AppError ExecOutput → RemoteExecSessionHandle → Prop} :
    Frank (runExec other request) K := by
  refine frank_enter.bind fun _ => ?_
  refine frank_runOn.bind fun result => ?_
  exact frank_leave.bind fun _ => trivial

theorem aims_finishUse (h : Reuses handle (finishUse config other succeeded) K) : K () := by
  cases succeeded with
  | true => exact aims_markUsed h
  | false => exact aims_invalidateHandle h

theorem frank_finishUse : Frank (finishUse config other succeeded) fun _ _ => False := by
  cases succeeded with
  | true => exact frank_markUsed
  | false => exact frank_invalidateHandle

theorem frank_execWithConnector {retry : RemoteExecRetry} :
    Frank (execWithConnector options config command retry) fun _ _ => False := by
  apply Program.Vouched.bind
  · apply frank_sessionHandleWithConnector.mono
    intro result handle haims
    cases result with
    | error error => exact haims.elim
    | ok given =>
      rcases aims_runExec (reuses_bind.mp haims) with rfl | ⟨outcome,haims⟩
      · rfl
      · cases outcome with
        | ok output => exact (aims_finishUse (reuses_bind.mp haims)).elim
        | error error =>
          have hretry := aims_finishUse (reuses_bind.mp haims)
          split_ifs at hretry
          · exact (not_aims_connectNew (reuses_bind.mp hretry)).elim
          · exact hretry.elim
  · intro result
    cases result with
    | error error => trivial
    | ok given =>
      refine frank_runExec.bind fun outcome => ?_
      cases outcome with
      | ok output => exact Program.Vouched.bind (frank_finishUse.mono fun _ _ haims => haims) fun _ => trivial
      | error error =>
        apply Program.Vouched.bind
        · apply frank_finishUse.mono
          intro _ handle haims
          split_ifs at haims
          · exact not_aims_connectNew (reuses_bind.mp haims)
          · exact haims
        · intro _
          split_ifs
          · apply Program.Vouched.bind
            · apply frank_connectNew.mono
              intro result handle haims
              cases result with
              | error error => exact haims.elim
              | ok refreshed =>
                rcases aims_runExec (reuses_bind.mp haims) with rfl | ⟨_,haims⟩
                · rfl
                · exact (aims_finishUse (reuses_bind.mp haims)).elim
            · intro result
              cases result with
              | error error => trivial
              | ok refreshed =>
                refine frank_runExec.bind fun outcome => ?_
                exact Program.Vouched.bind (frank_finishUse.mono fun _ _ haims => haims) fun _ => trivial
          · trivial

theorem frank_execWithStdoutChunks : Frank (execWithStdoutChunks options config command) fun _ _ => False := by
  apply Program.Vouched.bind
  · apply frank_sessionHandleWithConnector.mono
    intro result handle haims
    cases result with
    | error error => exact haims.elim
    | ok given =>
      have hrun := aims_enter (reuses_bind.mp haims)
      rcases aims_runOn (reuses_bind.mp hrun) with rfl | ⟨outcome,haims⟩
      · rfl
      · have hleave := aims_finishUse (reuses_bind.mp haims)
        exact (aims_leave (reuses_bind.mp hleave)).elim
  · intro result
    cases result with
    | error error => trivial
    | ok given =>
      refine frank_enter.bind fun _ => ?_
      refine frank_runOn.bind fun outcome => ?_
      apply Program.Vouched.bind
      · apply frank_finishUse.mono
        intro _ handle haims
        exact aims_leave (reuses_bind.mp haims)
      · exact fun _ => frank_leave.bind fun _ => trivial

theorem frank_warmWithContext : Frank (warmWithContext options config) fun _ _ => False := by
  apply Program.Vouched.bind
  · apply frank_sessionHandleWithConnector.mono
    intro result handle haims
    cases result with
    | error error => exact haims.elim
    | ok given => exact (aims_markUsed (reuses_bind.mp haims)).elim
  · intro result
    cases result with
    | error error => trivial
    | ok given => exact frank_markUsed.bind fun _ => trivial

theorem frank_scheduledIdlePrune : Frank (scheduledIdlePrune options other) fun _ _ => False := by
  refine frank_isBusy.bind fun busy => ?_
  cases busy with
  | true => trivial
  | false =>
    refine frank_lastUsed.bind fun lastUsedMs => ?_
    refine frank_now.bind fun nowMs => ?_
    split_ifs
    · exact frank_invalidateHandle
    · trivial

theorem frank_program (operation : Operation) : Frank (operation.program options) fun _ _ => False := by
  cases operation with
  | exec config command retry =>
    exact Program.Vouched.bind (frank_execWithConnector.mono fun _ _ haims => haims) fun _ => trivial
  | execChunks config command =>
    exact Program.Vouched.bind (frank_execWithStdoutChunks.mono fun _ _ haims => haims) fun _ => trivial
  | warm config => exact Program.Vouched.bind (frank_warmWithContext.mono fun _ _ haims => haims) fun _ => trivial
  | invalidate connectionId => exact frank_evictAndClose
  | idlePrune handle => exact frank_scheduledIdlePrune

theorem not_inHand_program {operation : Operation} : ¬ InHand handle (operation.program options) := by
  intro haims
  cases operation with
  | exec config command retry =>
    exact not_aims_sessionHandleWithConnector (reuses_bind.mp (reuses_bind.mp haims))
  | execChunks config command =>
    exact not_aims_sessionHandleWithConnector (reuses_bind.mp (reuses_bind.mp haims))
  | warm config => exact not_aims_sessionHandleWithConnector (reuses_bind.mp (reuses_bind.mp haims))
  | invalidate connectionId => exact aims_evictAndClose haims
  | idlePrune handle =>
    obtain ⟨busy,haims⟩ := aims_isBusy (reuses_bind.mp haims)
    cases busy with
    | true => exact haims
    | false =>
      obtain ⟨_,haims⟩ := aims_lastUsed (reuses_bind.mp haims)
      obtain ⟨_,haims⟩ := aims_now (reuses_bind.mp haims)
      split_ifs at haims
      · exact aims_invalidateHandle haims
      · exact haims

end

/-! ## What is given out -/

section
variable {options : RemoteExecSessionPoolOptions} {config : ResolvedSshConfig}

/-- A handle that was opened for this configuration. -/
def Matches (config : ResolvedSshConfig) (handle : RemoteExecSessionHandle) : Prop :=
  handle.connectionId = config.connectionId ∧ handle.signature = config.signature

theorem returns_connectAndStore {session : RemoteExecSessionHandle} (hsession : Matches config session) :
    (connectAndStore options config session).Returns Given (Matches config) := by
  apply Program.Returns.bind (Program.returns_true _)
  intro _ _
  apply Program.Returns.bind (Program.returns_true _)
  intro _ _
  have hstored : (keepOrStore session : Pooled RemoteExecSessionHandle).Returns Given (Matches config) := by
    apply returns_keepOrStore.mono
    intro handle hsame
    exact ⟨hsame.1.trans hsession.1,hsame.2.trans hsession.2⟩
  exact hstored

theorem returns_connectNew :
    (connectNew options config).Returns Given fun result => ∀ handle, result = .ok handle → Matches config handle := by
  intro result hresult
  cases result with
  | error error => exact fun _ heq => nomatch heq
  | ok session =>
    apply Program.Returns.bind (returns_connectAndStore (given_connect hresult))
    rintro stored hstored _ ⟨⟩
    exact hstored

theorem returns_sessionHandleWithConnector : (sessionHandleWithConnector options config).Returns Given
    fun result => ∀ handle, result = .ok handle → Matches config handle := by
  apply Program.Returns.bind (Program.returns_true _)
  intro nowMs _
  apply Program.Returns.bind (Program.returns_true _)
  intro _ _
  apply Program.Returns.bind returns_lookupHandle
  intro found hfound
  cases found with
  | none => exact returns_connectNew
  | some existing =>
    apply Program.Returns.bind (Program.returns_true _)
    intro lastUsedMs _
    split_ifs with hreuse
    · rintro _ ⟨⟩
      simp only [canReuseRemoteExecSession,Bool.and_eq_true,decide_eq_true_eq] at hreuse
      exact ⟨hfound _ rfl,hreuse.1⟩
    · apply Program.Returns.bind (Program.returns_true _)
      exact fun _ _ => returns_connectNew

end

/-! ## Every run of the pool -/

/-- Whatever the calls and their order, every session is stored under its connection or closed once, unless a call is
about to do that, and the handles that are given out are those of the configuration that was asked for. -/
theorem pool_keeps_sessions (options : RemoteExecSessionPoolOptions) :
    (∀ pool, Transitions.Reached (machine (Operation.program options)).step (fun _ _ => True) (· = Calls.none) pool →
      Kept Own pool) ∧
    (∀ config, (sessionHandleWithConnector options config).Returns Given fun result =>
      ∀ handle, result = .ok handle → Matches config handle) ∧
    ∀ config session, Matches config session →
      (connectAndStore options config session).Returns Given (Matches config) := by
  refine ⟨fun pool hreached => ?_,fun _ => returns_sessionHandleWithConnector,
    fun _ _ hsession => returns_connectAndStore hsession⟩
  exact (Accounted.of_reached tidy_program hreached).kept

namespace Crowded

def options : RemoteExecSessionPoolOptions := { maxCachedSessions := 1 }

def first : Operation := .exec ⟨"a","key"⟩ "uptime" .none

def second : Operation := .exec ⟨"b","key"⟩ "uptime" .none

/-- Up to the connection of a call, when there is nothing in the map. -/
def connecting (i : ℕ) : List (Turn Operation (Choice String String ExecOutput AppError)) :=
  [.advance i (.clock 0),.advance i (.order []),.advance i .plain,.advance i .plain]

/-- From there to the storing. -/
def storing (i : ℕ) : List (Turn Operation (Choice String String ExecOutput AppError)) :=
  [.advance i (.order []),.advance i (.clock 0),.advance i .plain]

def session : RemoteExecSessionHandle := ⟨"a","key",0⟩

theorem connected : ∃ pool, Transitions.run (machine (Operation.program options)).step Calls.none
    (.start first :: connecting 0) = some pool ∧ pool.shared.opened = [session] ∧ pool.shared.sessions.rows = [] ∧
      pool.shared.closed = [] := ⟨_,rfl,rfl,rfl,rfl⟩

theorem overfull : ∃ pool, Transitions.run (machine (Operation.program options)).step Calls.none
    (.start first :: .start second :: (connecting 0 ++ connecting 1 ++ storing 0 ++ storing 1 ++
      [.advance 0 .plain,.advance 1 .plain])) = some pool ∧ pool.shared.sessions.rows.length = 2 := ⟨_,rfl,rfl⟩

/-- The second call takes the session of the first one out and closes it while that one is about to use it. -/
def evicting : List (Turn Operation (Choice String String ExecOutput AppError)) :=
  [.start first] ++ connecting 0 ++ storing 0 ++ [.advance 0 .plain,.start second,.advance 1 (.clock 0),
    .advance 1 (.order [session]),.advance 1 .plain,.advance 1 .plain,.advance 1 .plain,.advance 1 .plain,
    .advance 1 (.order [session]),.advance 1 .plain,.advance 0 .plain,.advance 0 .plain]

theorem evicted : ∃ pool, Transitions.run (machine (Operation.program options)).step Calls.none evicting = some pool ∧
    pool.shared.log = [.opened session,.opened ⟨"b","key",1⟩,.closed session] ++
      [.started ⟨⟨"a","key"⟩,"uptime"⟩ session] := ⟨_,rfl,rfl⟩

end Crowded

theorem session_between : ∃ pool, Transitions.Reached (machine (Operation.program Crowded.options)).step
    (fun _ _ => True) (· = Calls.none) pool ∧ ∃ handle ∈ pool.shared.opened,
      handle ∉ pool.shared.sessions ∧ handle ∉ pool.shared.closed := by
  have hstart : Transitions.Reached (machine (Operation.program Crowded.options)).step (fun _ _ => True)
    (· = Calls.none) Calls.none := .start rfl
  obtain ⟨pool,hrun,hopened,hstored,hclosed⟩ := Crowded.connected
  refine ⟨pool,hstart.run hrun,Crowded.session,?_,?_,?_⟩
  · rw [hopened]
    exact List.mem_singleton_self _
  · rw [Table.mem_iff,hstored]
    exact List.not_mem_nil
  · rw [hclosed]
    exact List.not_mem_nil

end Mxterm.RemoteExecPool
