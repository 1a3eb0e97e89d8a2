import Mxterm.Transitions
import Mxterm.Values

/-! Log streams of containers (`docker_tools.rs`). Every stream has a session and a task of its own, and the manager's
calls and the tasks go on one step at a time. -/
namespace Mxterm.DockerLogStreams

open Function

/-! ## Requests -/

structure DockerContainerLogsStartRequest where
  connectionId : String
  containerId : String
  streamId : String

def requireValue (value code message : String) : Except AppError String :=
  if Text.trim value = "" then .error ⟨code,message,"value is empty",true⟩ else .ok (Text.trim value)

/-- The identifier of the stream, when nothing of the request is missing. -/
def DockerContainerLogsStartRequest.check (request : DockerContainerLogsStartRequest) : Except AppError String := do
  let _ ← requireValue request.connectionId "docker_connection_missing" "请选择活动连接。"
  let _ ← requireValue request.containerId "docker_container_missing" "请选择容器。"
  requireValue request.streamId "docker_log_stream_missing" "日志流标识缺失。"

/-! ## States -/

/-- How the command of a stream ends. -/
inductive StreamResult
  | exited (status : Option ℕ)
  | failed (message : String)

inductive StreamEvent
  | finished
  | error (message : String)

def StreamResult.event : StreamResult → StreamEvent
  | .exited (some (_ + 1)) => .error "Docker 容器日志读取失败。"
  | .exited _ => .finished
  | .failed message => .error message

/-- The task of a stream: what it does next. -/
inductive TaskPhase
  | unborn
  | streaming
  | deciding (result : StreamResult)
  | emitting (event : StreamEvent)
  | marking
  | closing
  | finishing
  | done

/-- How often a task has closed its session so far. -/
def TaskPhase.closes : TaskPhase → ℕ
  | .finishing => 1
  | _ => 0

/-- A task that is on its way and has not looked at its mark yet, or has seen that there is none. -/
def TaskPhase.unmarked : TaskPhase → Bool
  | .streaming => true
  | .deciding _ => true
  | .emitting _ => true
  | .marking => true
  | _ => false

/-- What `close_log_stream_handle` does next. -/
inductive CloseStep
  | mark | close | abort
  deriving DecidableEq

/-- A stop: its stream identifier, and how many sessions had been opened when it was called. -/
structure Stop where
  streamId : String
  opened : ℕ

/-- A call of the manager: what it does next. A call that closes a handle is a start that has replaced it or a stop. -/
inductive CallPhase
  | connecting (streamId : String)
  | spawning (streamId : String) (stream : ℕ)
  | inserting (streamId : String) (stream : ℕ)
  | removing (stop : Stop)
  | closing (step : CloseStep) (stream : ℕ) (stop : Option Stop)
  | returned (closed : Option ℕ) (stop : Option Stop)

/-- A start is in progress: it connects, spawns its task, inserts its handle or closes the one that it has replaced. -/
def CallPhase.starts : CallPhase → Bool
  | .connecting _ => true
  | .spawning _ _ => true
  | .inserting _ _ => true
  | .closing _ _ none => true
  | _ => false

/-- The stream whose handle a call has. -/
def CallPhase.held : CallPhase → Option ℕ
  | .spawning _ n => some n
  | .inserting _ n => some n
  | .closing _ n _ => some n
  | _ => none

def CallPhase.stop? : CallPhase → Option Stop
  | .removing stop => some stop
  | .closing _ _ stop => stop
  | .returned _ stop => stop
  | _ => none

/-- The streams are numbered as their sessions are opened, the calls as they are made. -/
structure Manager where
  streams : String → Option ℕ
  opened : ℕ
  streamId : ℕ → String
  tasks : ℕ → TaskPhase
  stopped : ℕ → Bool
  aborted : ℕ → Bool
  closes : ℕ → ℕ
  made : ℕ
  calls : ℕ → CallPhase

namespace Manager

def initial : Manager where
  streams _ := none
  opened := 0
  streamId _ := ""
  tasks _ := .unborn
  stopped _ := false
  aborted _ := false
  closes _ := 0
  made := 0
  calls _ := .returned none none

def enter (m : Manager) (k : ℕ) (phase : CallPhase) : Manager := { m with calls := Function.update m.calls k phase }

def goOn (m : Manager) (n : ℕ) (phase : TaskPhase) : Manager := { m with tasks := Function.update m.tasks n phase }

def store (m : Manager) (streamId : String) (stream : Option ℕ) : Manager :=
  { m with streams := Function.update m.streams streamId stream }

def mark (m : Manager) (n : ℕ) : Manager := { m with stopped := Function.update m.stopped n true }

def close (m : Manager) (n : ℕ) : Manager := { m with closes := Function.update m.closes n (m.closes n + 1) }

def abort (m : Manager) (n : ℕ) : Manager := { m with aborted := Function.update m.aborted n true }

/-! ## Steps -/

inductive Action
  | start (request : DockerContainerLogsStartRequest)
  | stop (streamId : String)
  | call (k : ℕ) (succeeds : Bool)
  | task (n : ℕ) (result : StreamResult)

def begin (m : Manager) (phase : CallPhase) : Manager := { m.enter m.made phase with made := m.made + 1 }

/-- What is to be closed, or nothing. -/
def closing (previous : Option ℕ) (stop : Option Stop) : CallPhase :=
  match previous with
  | some stream => .closing .mark stream stop
  | none => .returned none stop

def advanceCall (m : Manager) (k : ℕ) (succeeds : Bool) : CallPhase → Option Manager
  | .connecting streamId =>
    if succeeds then
      some ({ m with opened := m.opened + 1, streamId := Function.update m.streamId m.opened streamId }.enter k
        (.spawning streamId m.opened))
    else some (m.enter k (.returned none none))
  | .spawning streamId n => some ((m.goOn n .streaming).enter k (.inserting streamId n))
  | .inserting streamId n => some ((m.store streamId (some n)).enter k (closing (m.streams streamId) none))
  | .removing stop => some ((m.store stop.streamId none).enter k (closing (m.streams stop.streamId) (some stop)))
  | .closing .mark n stop => some ((m.mark n).enter k (.closing .close n stop))
  | .closing .close n stop => some ((m.close n).enter k (.closing .abort n stop))
  | .closing .abort n stop => some ((m.abort n).enter k (.returned (some n) stop))
  | .returned _ _ => none

/-- A task that has been aborted does not come back from its command. -/
def advanceTask (m : Manager) (n : ℕ) (result : StreamResult) : TaskPhase → Option Manager
  | .unborn => none
  | .streaming => if m.aborted n then none else some (m.goOn n (.deciding result))
  | .deciding result => some (m.goOn n (if m.stopped n then .marking else .emitting result.event))
  | .emitting _ => some (m.goOn n .marking)
  | .marking => some ((m.mark n).goOn n .closing)
  | .closing => some ((m.close n).goOn n .finishing)
  | .finishing =>
    if m.streams (m.streamId n) = some n then some (((m.store (m.streamId n) none).mark n).goOn n .done)
    else some (m.goOn n .done)
  | .done => none

def step (m : Manager) : Action → Option Manager
  | .start request =>
    match request.check with
    | .ok streamId => some (m.begin (.connecting streamId))
    | .error _ => some m
  | .stop streamId =>
    match requireValue streamId "docker_log_stream_missing" "日志流标识缺失。" with
    | .ok streamId => some (m.begin (.removing ⟨streamId,m.opened⟩))
    | .error _ => some m
  | .call k succeeds => m.advanceCall k succeeds (m.calls k)
  | .task n result => m.advanceTask n result (m.tasks n)

/-! ## What is to hold -/

/-- The stop was called for this stream after its session had been opened. -/
def Covers (m : Manager) (stop : Stop) (n : ℕ) : Prop := n < stop.opened ∧ m.streamId n = stop.streamId

/-- A stop is closing the stream. -/
def Stopping (m : Manager) (n : ℕ) : Prop := ∃ k step stop, m.calls k = .closing step n (some stop)

/-- The task is through, or has been aborted. -/
def Ended (m : Manager) (n : ℕ) : Prop := m.tasks n = .done ∨ m.aborted n = true

structure Owned (m : Manager) : Prop where
  closedOnce : ∀ n, m.closes n ≤ 1
  closedAtEnd : ∀ n, m.Ended n → m.closes n = 1
  closedOnReturn : ∀ k n stop, m.calls k = .returned (some n) stop → m.closes n = 1
  running : (∀ k, ¬ (m.calls k).starts) → ∀ n < m.opened, ¬ m.Stopping n →
    (m.streams (m.streamId n) = some n ↔ ¬ m.Ended n)
  opened : ∀ streamId n, m.streams streamId = some n → n < m.opened ∧ m.streamId n = streamId
  quiet : ∀ k closed stop, m.calls k = .returned closed (some stop) → ∀ n event, m.Covers stop n →
    m.tasks n ≠ .emitting event

/-- The command of a stream ends while the stream is in the map; a stream is replaced or stopped while its command runs;
and a stream is stopped while no start of its identifier is between its connection and its insertion. -/
structure InOrder (m : Manager) (action : Action) : Prop where
  ends : ∀ n result, action = .task n result → m.tasks n = .streaming → m.streams (m.streamId n) = some n
  replaces : ∀ k succeeds streamId n old, action = .call k succeeds → m.calls k = .inserting streamId n →
    m.streams streamId = some old → m.tasks old = .streaming
  stops : ∀ k succeeds stop, action = .call k succeeds → m.calls k = .removing stop →
    (∀ old, m.streams stop.streamId = some old → m.tasks old = .streaming) ∧
      ∀ k' n, m.calls k' ≠ .spawning stop.streamId n ∧ m.calls k' ≠ .inserting stop.streamId n

/-! ## Where a stream is

Every stream that has been opened is in the map, or a call has its handle, or nothing happens with it any more.
Whoever has a stream closes it: its own task while it is in the map, else the call. -/

inductive Place
  | ahead | inMap | withCall (k : ℕ) | settled

structure Fresh (m : Manager) (n : ℕ) (phase : TaskPhase) : Prop where
  task : m.tasks n = phase
  closes : m.closes n = 0
  stopped : m.stopped n = false
  aborted : m.aborted n = false

structure Live (m : Manager) (n : ℕ) : Prop where
  born : m.tasks n ≠ .unborn
  undone : m.tasks n ≠ .done
  closes : m.closes n = (m.tasks n).closes
  stopped : (m.tasks n).unmarked = true → m.stopped n = false
  aborted : m.aborted n = false

structure Closing (m : Manager) (n : ℕ) (step : CloseStep) : Prop where
  task : m.tasks n = .streaming
  closes : m.closes n = if step = .abort then 1 else 0
  aborted : m.aborted n = false

structure Settled (m : Manager) (n : ℕ) : Prop where
  closes : m.closes n = 1
  ended : m.tasks n = .done ∨ m.aborted n = true ∧ m.tasks n = .streaming

def CallFits (m : Manager) (n : ℕ) : CallPhase → Prop
  | .spawning id stream => stream = n ∧ m.streamId n = id ∧ m.Fresh n .unborn
  | .inserting id stream => stream = n ∧ m.streamId n = id ∧ m.Fresh n .streaming
  | .closing step stream _ => stream = n ∧ m.Closing n step
  | _ => False

def PlaceFits (m : Manager) (n : ℕ) : Place → Prop
  | .ahead => m.opened ≤ n ∧ m.Fresh n .unborn
  | .inMap => n < m.opened ∧ m.Live n
  | .withCall k => n < m.opened ∧ m.CallFits n (m.calls k)
  | .settled => n < m.opened ∧ m.Settled n

/-- The stream is behind its insertion and its task does not come to an event any more. -/
def Over (m : Manager) (place : ℕ → Place) (n : ℕ) : Prop :=
  place n = .settled ∨ ∃ k step stop, place n = .withCall k ∧ m.calls k = .closing step n stop

structure Inv (m : Manager) (place : ℕ → Place) : Prop where
  unmade : ∀ k, m.made ≤ k → m.calls k = .returned none none
  fits : ∀ n, m.PlaceFits n (place n)
  held : ∀ k n, (m.calls k).held = some n → place n = .withCall k
  inMap : ∀ id n, m.streams id = some n ↔ place n = .inMap ∧ m.streamId n = id
  returned : ∀ k n stop, m.calls k = .returned (some n) stop → place n = .settled
  stops : ∀ k stop, (m.calls k).stop? = some stop → stop.opened ≤ m.opened
  covered : ∀ k stop, (m.calls k).stop? = some stop → m.calls k ≠ .removing stop → ∀ n, m.Covers stop n →
    m.Over place n

variable {m m' : Manager} {place : ℕ → Place} {n k : ℕ}

theorem inv_initial : Inv initial fun _ => .ahead where
  unmade _ _ := rfl
  fits n := ⟨Nat.zero_le n,rfl,rfl,rfl,rfl⟩
  held _ _ h := by cases h
  inMap _ _ := by simp [initial]
  returned _ _ _ h := by cases h
  stops _ _ h := by cases h
  covered _ _ h := by cases h

theorem Inv.held_iff (h : Inv m place) : (m.calls k).held = some n ↔ place n = .withCall k := by
  refine ⟨h.held k n,fun hplace => ?_⟩
  have hfits := h.fits n
  rw [hplace] at hfits
  have hcall := hfits.2
  cases hphase : m.calls k with
  | spawning id stream =>
    rw [hphase] at hcall
    exact congrArg some hcall.1
  | inserting id stream =>
    rw [hphase] at hcall
    exact congrArg some hcall.1
  | closing step stream stop =>
    rw [hphase] at hcall
    exact congrArg some hcall.1
  | _ =>
    rw [hphase] at hcall
    exact hcall.elim

/-- What there is to say of a stream. -/
theorem Inv.standing (h : Inv m place) (n : ℕ) : m.Fresh n .unborn ∨ m.Fresh n .streaming ∨
    place n = .inMap ∧ m.Live n ∨ (∃ step, m.Closing n step) ∨ place n = .settled ∧ m.Settled n := by
  have hfits := h.fits n
  cases hplace : place n with
  | ahead =>
    rw [hplace] at hfits
    exact .inl hfits.2
  | inMap =>
    rw [hplace] at hfits
    exact .inr (.inr (.inl ⟨rfl,hfits.2⟩))
  | withCall k =>
    rw [hplace] at hfits
    have hcall := hfits.2
    cases hphase : m.calls k with
    | spawning id stream =>
      rw [hphase] at hcall
      exact .inl hcall.2.2
    | inserting id stream =>
      rw [hphase] at hcall
      exact .inr (.inl hcall.2.2)
    | closing step stream stop =>
      rw [hphase] at hcall
      exact .inr (.inr (.inr (.inl ⟨step,hcall.2⟩)))
    | _ =>
      rw [hphase] at hcall
      exact hcall.elim
  | settled =>
    rw [hplace] at hfits
    exact .inr (.inr (.inr (.inr ⟨rfl,hfits.2⟩)))

/-- A task that is at an event belongs to a stream in the map. -/
theorem Inv.inMap_of_task (h : Inv m place) (hunborn : m.tasks n ≠ .unborn) (hstreaming : m.tasks n ≠ .streaming)
    (hdone : m.tasks n ≠ .done) : place n = .inMap := by
  rcases h.standing n with hfresh | hfresh | ⟨hplace,_⟩ | ⟨step,hclosing⟩ | ⟨_,hsettled⟩
  · exact (hunborn hfresh.task).elim
  · exact (hstreaming hfresh.task).elim
  · exact hplace
  · exact (hstreaming hclosing.task).elim
  · rcases hsettled.ended with hend | hend
    · exact (hdone hend).elim
    · exact (hstreaming hend.2).elim

theorem Inv.settled_of_ended (h : Inv m place) (hended : m.Ended n) : place n = .settled ∧ m.Settled n := by
  rcases h.standing n with hfresh | hfresh | ⟨_,hlive⟩ | ⟨step,hclosing⟩ | hsettled
  · rcases hended with hend | hend
    · simp [hfresh.task] at hend
    · simp [hfresh.aborted] at hend
  · rcases hended with hend | hend
    · simp [hfresh.task] at hend
    · simp [hfresh.aborted] at hend
  · rcases hended with hend | hend
    · exact (hlive.undone hend).elim
    · simp [hlive.aborted] at hend
  · rcases hended with hend | hend
    · simp [hclosing.task] at hend
    · simp [hclosing.aborted] at hend
  · exact hsettled

/-! ## Steps -/

/-- A step that leaves the stream as it is. -/
structure Same (m m' : Manager) (n : ℕ) : Prop where
  task : m'.tasks n = m.tasks n
  closes : m'.closes n = m.closes n
  stopped : m'.stopped n = m.stopped n
  aborted : m'.aborted n = m.aborted n
  streamId : m'.streamId n = m.streamId n

variable {phase : TaskPhase} {c : CallPhase} {closeStep : CloseStep} {p : Place}

theorem Fresh.keep (h : m.Fresh n phase) (hsame : Same m m' n) : m'.Fresh n phase where
  task := hsame.task.trans h.task
  closes := hsame.closes.trans h.closes
  stopped := hsame.stopped.trans h.stopped
  aborted := hsame.aborted.trans h.aborted

theorem Live.keep (h : m.Live n) (hsame : Same m m' n) : m'.Live n where
  born := by rw [hsame.task]; exact h.born
  undone := by rw [hsame.task]; exact h.undone
  closes := by rw [hsame.closes, hsame.task]; exact h.closes
  stopped := by rw [hsame.stopped, hsame.task]; exact h.stopped
  aborted := hsame.aborted.trans h.aborted

theorem Closing.keep (h : m.Closing n closeStep) (hsame : Same m m' n) : m'.Closing n closeStep where
  task := hsame.task.trans h.task
  closes := hsame.closes.trans h.closes
  aborted := hsame.aborted.trans h.aborted

theorem Settled.keep (h : m.Settled n) (hsame : Same m m' n) : m'.Settled n where
  closes := hsame.closes.trans h.closes
  ended := by rw [hsame.task, hsame.aborted]; exact h.ended

theorem CallFits.keep (h : m.CallFits n c) (hsame : Same m m' n) : m'.CallFits n c := by
  cases c with
  | spawning | inserting => exact ⟨h.1,hsame.streamId.trans h.2.1,h.2.2.keep hsame⟩
  | closing step stream stop => exact ⟨h.1,h.2.keep hsame⟩
  | _ => exact h

theorem PlaceFits.keep (h : m.PlaceFits n p) (hsame : Same m m' n) (hopened : m.opened ≤ m'.opened)
    (hahead : p = .ahead → m'.opened ≤ n) (hcall : ∀ k, p = .withCall k → m'.calls k = m.calls k) :
    m'.PlaceFits n p := by
  cases p with
  | ahead => exact ⟨hahead rfl,h.2.keep hsame⟩
  | inMap => exact ⟨lt_of_lt_of_le h.1 hopened,h.2.keep hsame⟩
  | withCall k =>
    refine ⟨lt_of_lt_of_le h.1 hopened,?_⟩
    rw [hcall k rfl]
    exact h.2.keep hsame
  | settled => exact ⟨lt_of_lt_of_le h.1 hopened,h.2.keep hsame⟩

variable {place' : ℕ → Place}

theorem Over.keep (h : m.Over place n) (hplace : place' n = place n)
    (hcall : ∀ k, place n = .withCall k → m'.calls k = m.calls k) : m'.Over place' n := by
  rcases h with h | ⟨k,step,stop,hk,h⟩
  · exact .inl (hplace.trans h)
  · exact .inr ⟨k,step,stop,hplace.trans hk,(hcall k hk).trans h⟩

theorem Inv.place_ahead (h : Inv m place) (hn : m.opened ≤ n) : place n = .ahead := by
  have hfits := h.fits n
  cases hplace : place n with
  | ahead => rfl
  | _ =>
    rw [hplace] at hfits
    exact absurd hfits.1 (Nat.not_lt.mpr hn)

theorem Inv.le_of_ahead (h : Inv m place) (hplace : place n = .ahead) : m.opened ≤ n := by
  have hfits := h.fits n
  rw [hplace] at hfits
  exact hfits.1

/-- Another stream is not with the call. -/
theorem Inv.other_call (h : Inv m place) (hk : (m.calls k).held ≠ some n) {j : ℕ} (hplace : place n = .withCall j) :
    j ≠ k := by
  rintro rfl
  exact hk (h.held_iff.mpr hplace)

theorem Inv.made_of_call (h : Inv m place) (hcall : m.calls k ≠ .returned none none) : k < m.made := by
  by_contra hle
  exact hcall (h.unmade k (Nat.not_lt.mp hle))

/-- A step of the call `k`. A stream that it does not move stays as it is; one that it moves is in the map or ahead, or
the call has it. -/
theorem Inv.called (h : Inv m place) (hk : k < m'.made) (hmade : m.made ≤ m'.made)
    (hcalls : m'.calls = Function.update m.calls k c) (hopened : m.opened ≤ m'.opened)
    (hid : ∀ i < m.opened, m'.streamId i = m.streamId i)
    (hmap : ∀ id i, m'.streams id = some i ↔ place' i = .inMap ∧ m'.streamId i = id)
    (hplaces : ∀ i,
      (place' i = place i ∧ (m.calls k).held ≠ some i ∧ Same m m' i ∧ (place i = .ahead → m'.opened ≤ i)) ∨
        (place i = .inMap ∨ place i = .ahead ∨ place i = .withCall k) ∧ m'.PlaceFits i (place' i))
    (hheld : ∀ i, c.held = some i → place' i = .withCall k)
    (hreturned : ∀ i stop, c = .returned (some i) stop → place' i = .settled)
    (hclosing : ∀ step i stop, m.calls k = .closing step i stop → m'.Over place' i)
    (hstop : ∀ stop, c.stop? = some stop → stop.opened ≤ m.opened ∧
      (c ≠ .removing stop → ∀ i, m.Covers stop i → m.Over place i ∨ m'.Over place' i)) : Inv m' place' := by
  have hself : m'.calls k = c := by rw [hcalls, update_self]
  have hother : ∀ j ≠ k, m'.calls j = m.calls j := fun j hj => by rw [hcalls, update_of_ne hj]
  have hsettled : ∀ i, place i = .settled → place' i = .settled := by
    intro i hi
    rcases hplaces i with ⟨heq,_⟩ | ⟨hmoved,_⟩
    · exact heq.trans hi
    · simp [hi] at hmoved
  have hwith : ∀ i l, l ≠ k → place i = .withCall l → place' i = .withCall l := by
    intro i l hl hi
    rcases hplaces i with ⟨heq,_⟩ | ⟨hmoved,_⟩
    · exact heq.trans hi
    · simp [hi, hl] at hmoved
  have hover : ∀ i, m.Over place i → m'.Over place' i := by
    rintro i (hi | ⟨l,step,stop,hi,hcall⟩)
    · exact .inl (hsettled i hi)
    · by_cases hl : l = k
      · rw [hl] at hcall
        exact hclosing step i stop hcall
      · exact .inr ⟨l,step,stop,hwith i l hl hi,(hother l hl).trans hcall⟩
  have hstops : ∀ j stop, (m'.calls j).stop? = some stop → stop.opened ≤ m.opened ∧
      (m'.calls j ≠ .removing stop → ∀ i, m.Covers stop i → m'.Over place' i) := by
    intro j stop hj
    by_cases hjk : j = k
    · rw [hjk, hself] at hj ⊢
      obtain ⟨hle,hcovered⟩ := hstop stop hj
      exact ⟨hle,fun hne i hi => (hcovered hne i hi).elim (hover i) id⟩
    · rw [hother j hjk] at hj ⊢
      exact ⟨h.stops j stop hj,fun hne i hi => hover i (h.covered j stop hj hne i hi)⟩
  constructor
  case unmade =>
    intro j hj
    rw [hother j (by omega)]
    exact h.unmade j (hmade.trans hj)
  case fits =>
    intro i
    rcases hplaces i with ⟨heq,hi,hsame,hahead⟩ | ⟨_,hfits⟩
    · rw [heq]
      exact (h.fits i).keep hsame hopened hahead fun l hl => hother l (h.other_call hi hl)
    · exact hfits
  case held =>
    intro j i hji
    by_cases hjk : j = k
    · rw [hjk, hself] at hji
      rw [hjk]
      exact hheld i hji
    · rw [hother j hjk] at hji
      exact hwith i j hjk (h.held j i hji)
  case inMap => exact hmap
  case returned =>
    intro j i stop hji
    by_cases hjk : j = k
    · rw [hjk, hself] at hji
      exact hreturned i stop hji
    · rw [hother j hjk] at hji
      exact hsettled i (h.returned j i stop hji)
  case stops => exact fun j stop hj => (hstops j stop hj).1.trans hopened
  case covered =>
    intro j stop hj hne i hi
    obtain ⟨hle,hcovered⟩ := hstops j stop hj
    exact hcovered hne i ⟨hi.1,(hid i (lt_of_lt_of_le hi.1 hle)).symm.trans hi.2⟩

/-- A call is made: it holds no stream yet. -/
theorem Inv.begin (h : Inv m place) (hheld : c.held = none) (hreturned : ∀ n stop, c ≠ .returned n stop)
    (hstop : ∀ stop, c.stop? = some stop → c = .removing stop ∧ stop.opened ≤ m.opened) :
    Inv (m.begin c) place := by
  have hnow := h.unmade m.made le_rfl
  refine h.called (k := m.made) (c := c) (Nat.lt_succ_self _) (Nat.le_succ _) rfl le_rfl (fun _ _ => rfl) h.inMap
    (fun i => .inl ⟨rfl,?_,⟨rfl,rfl,rfl,rfl,rfl⟩,h.le_of_ahead⟩) ?_ ?_ ?_ ?_
  · simp [hnow, CallPhase.held]
  · simp [hheld]
  · exact fun i stop hc => (hreturned _ _ hc).elim
  · simp [hnow]
  · exact fun stop hc => ⟨(hstop stop hc).2,fun hne => (hne (hstop stop hc).1).elim⟩

theorem not_over_of_inMap (hplace : place n = .inMap) : ¬ m.Over place n := by
  rintro (hover | ⟨j,step,stop,hj,_⟩)
  · simp [hplace] at hover
  · simp [hplace] at hj

variable {id : String}

/-- A connection is there: a stream is opened. -/
theorem Inv.connected (h : Inv m place) (hcall : m.calls k = .connecting id) :
    Inv ({ m with opened := m.opened + 1, streamId := Function.update m.streamId m.opened id }.enter k
      (.spawning id m.opened)) (Function.update place m.opened (.withCall k)) := by
  have hahead := h.place_ahead (n := m.opened) le_rfl
  have hfresh := h.fits m.opened
  rw [hahead] at hfresh
  refine h.called (k := k) (h.made_of_call (by simp [hcall])) le_rfl rfl (Nat.le_succ _) ?_ ?_ (fun i => ?_) ?_ nofun
    ?_ nofun
  · exact fun i hi => update_of_ne hi.ne _ _
  · simp only [enter, update_apply]
    grind [h.inMap]
  · by_cases hi : i = m.opened
    · subst hi
      refine .inr ⟨.inr (.inl hahead),?_⟩
      rw [update_self]
      refine ⟨Nat.lt_succ_self _,?_⟩
      simp only [enter, update_self]
      exact ⟨rfl,update_self _ _ _,hfresh.2.task,hfresh.2.closes,hfresh.2.stopped,hfresh.2.aborted⟩
    · refine .inl ⟨update_of_ne hi _ _,by simp [hcall, CallPhase.held],
        ⟨rfl,rfl,rfl,rfl,update_of_ne hi _ _⟩,fun hplace => ?_⟩
      exact lt_of_le_of_ne (h.le_of_ahead hplace) (Ne.symm hi)
  · intro i hi
    cases hi
    exact update_self _ _ _
  · simp [hcall]

theorem Inv.failed (h : Inv m place) (hcall : m.calls k = .connecting id) :
    Inv (m.enter k (.returned none none)) place := by
  refine h.called (k := k) (h.made_of_call (by simp [hcall])) le_rfl rfl le_rfl (fun _ _ => rfl) h.inMap
    (fun i => .inl ⟨rfl,?_,⟨rfl,rfl,rfl,rfl,rfl⟩,h.le_of_ahead⟩) nofun nofun ?_ nofun
  · simp [hcall, CallPhase.held]
  · simp [hcall]

/-- A call that has a stream goes on with it and keeps it. -/
theorem Inv.call_step (h : Inv m place) (hheld : (m.calls k).held = some n) (hfits : m'.CallFits n c)
    (hcalls : m'.calls = Function.update m.calls k c) (hstop : ∀ stop, c.stop? = some stop →
      (m.calls k).stop? = some stop ∧ m.calls k ≠ .removing stop)
    (hover : (∃ step stop, m.calls k = .closing step n stop) → ∃ step stop, c = .closing step n stop)
    (hsame : ∀ j ≠ n, Same m m' j) (hid : m'.streamId = m.streamId) (hstreams : m'.streams = m.streams)
    (hopened : m'.opened = m.opened) (hmade : m'.made = m.made) : Inv m' place := by
  have hplace := h.held k n hheld
  have hlt := h.fits n
  rw [hplace] at hlt
  have hself : m'.calls k = c := by rw [hcalls, update_self]
  have hk : m.calls k ≠ .returned none none := by
    intro hnone
    simp [hnone, CallPhase.held] at hheld
  have hcallheld : c.held = some n := by
    cases c with
    | spawning | inserting | closing => exact congrArg some hfits.1
    | _ => exact hfits.elim
  refine h.called (k := k) (hmade ▸ h.made_of_call hk) hmade.ge hcalls hopened.ge (fun i _ => by rw [hid]) ?_
    (fun i => ?_) ?_ ?_ ?_ ?_
  · rw [hstreams, hid]
    exact h.inMap
  · by_cases hi : i = n
    · rw [hi, hplace]
      refine .inr ⟨.inr (.inr rfl),hopened ▸ hlt.1,?_⟩
      rw [hself]
      exact hfits
    · refine .inl ⟨rfl,?_,hsame i hi,fun hahead => hopened ▸ h.le_of_ahead hahead⟩
      rw [hheld]
      exact fun hsome => hi (Option.some.inj hsome).symm
  · intro i hi
    rw [← Option.some.inj (hcallheld.symm.trans hi)]
    exact hplace
  · rintro i stop rfl
    cases hcallheld
  · intro step i stop hclosing
    rw [hclosing] at hheld
    cases hheld
    obtain ⟨step',stop',hc⟩ := hover ⟨step,stop,hclosing⟩
    exact .inr ⟨k,step',stop',hplace,hself.trans hc⟩
  · intro stop hc
    obtain ⟨hstop,hne⟩ := hstop stop hc
    exact ⟨h.stops k stop hstop,fun _ i hi => .inl (h.covered k stop hstop hne i hi)⟩

/-- The task of a stream in the map goes on. -/
theorem Inv.live_step (h : Inv m place) (hplace : place n = .inMap) (hlive : m'.Live n)
    (hsame : ∀ j ≠ n, Same m m' j) (hstreams : m'.streams = m.streams) (hopened : m'.opened = m.opened)
    (hid : m'.streamId = m.streamId) (hmade : m'.made = m.made) (hcalls : m'.calls = m.calls) : Inv m' place where
  unmade := by rw [hmade, hcalls]; exact h.unmade
  fits j := by
    have hfits := h.fits j
    by_cases hj : j = n
    · rw [hj, hplace] at hfits ⊢
      exact ⟨hopened ▸ hfits.1,hlive⟩
    · refine hfits.keep (hsame j hj) hopened.ge (fun hahead => hopened ▸ h.le_of_ahead hahead) fun k _ => ?_
      rw [hcalls]
  held := by rw [hcalls]; exact h.held
  inMap := by rw [hstreams, hid]; exact h.inMap
  returned := by rw [hcalls]; exact h.returned
  stops := by rw [hcalls, hopened]; exact h.stops
  covered := by unfold Covers Over; rw [hcalls, hid]; exact h.covered

theorem Live.closing (h : m.Live n) (htask : m.tasks n = .streaming) : m.Closing n .mark where
  task := htask
  closes := h.closes.trans (by rw [htask]; rfl)
  aborted := h.aborted

theorem Fresh.live (h : m.Fresh n .streaming) : m.Live n where
  born := by simp [h.task]
  undone := by simp [h.task]
  closes := h.closes.trans (by rw [h.task]; rfl)
  stopped _ := h.stopped
  aborted := h.aborted

theorem Inv.live_of_inMap (h : Inv m place) (hplace : place n = .inMap) : n < m.opened ∧ m.Live n := by
  have hfits := h.fits n
  rwa [hplace] at hfits

theorem Inv.call_fits (h : Inv m place) (hheld : (m.calls k).held = some n) :
    place n = .withCall k ∧ n < m.opened ∧ m.CallFits n (m.calls k) := by
  have hplace := h.held k n hheld
  have hfits := h.fits n
  rw [hplace] at hfits
  exact ⟨hplace,hfits⟩

/-- A handle is inserted, and nothing is replaced. -/
theorem Inv.inserted (h : Inv m place) (hcall : m.calls k = .inserting id n) (hnone : m.streams id = none) :
    Inv ((m.store id (some n)).enter k (.returned none none)) (Function.update place n .inMap) := by
  obtain ⟨hplace,hlt,hfits⟩ := h.call_fits (k := k) (n := n) (by rw [hcall]; rfl)
  rw [hcall] at hfits
  refine h.called (k := k) (h.made_of_call (by simp [hcall])) le_rfl rfl le_rfl (fun _ _ => rfl) ?_ (fun i => ?_) nofun
    nofun ?_ nofun
  · simp only [enter, store, update_apply]
    grind [h.inMap, CallFits]
  · by_cases hi : i = n
    · subst hi
      rw [update_self]
      exact .inr ⟨.inr (.inr hplace),hlt,hfits.2.2.live.keep ⟨rfl,rfl,rfl,rfl,rfl⟩⟩
    · refine .inl ⟨update_of_ne hi _ _,?_,⟨rfl,rfl,rfl,rfl,rfl⟩,h.le_of_ahead⟩
      simpa [hcall, CallPhase.held] using Ne.symm hi
  · simp [hcall]

/-- A handle is inserted, and the one that it replaces is to be closed. -/
theorem Inv.replaced (h : Inv m place) {old : ℕ} (hcall : m.calls k = .inserting id n)
    (hold : m.streams id = some old) (htask : m.tasks old = .streaming) :
    Inv ((m.store id (some n)).enter k (.closing .mark old none))
      (Function.update (Function.update place n .inMap) old (.withCall k)) := by
  obtain ⟨hplace,hlt,hfits⟩ := h.call_fits (k := k) (n := n) (by rw [hcall]; rfl)
  rw [hcall] at hfits
  have holdplace := ((h.inMap id old).mp hold).1
  obtain ⟨holdlt,hlive⟩ := h.live_of_inMap holdplace
  refine h.called (k := k) (h.made_of_call (by simp [hcall])) le_rfl rfl le_rfl (fun _ _ => rfl) ?_ (fun i => ?_) ?_
    nofun ?_ nofun
  · have hne : n ≠ old := by
      rintro rfl
      simp [hplace] at holdplace
    simp only [enter, store, update_apply]
    grind [h.inMap, CallFits]
  · by_cases hi : i = old
    · subst hi
      refine .inr ⟨.inl holdplace,?_⟩
      rw [update_self]
      refine ⟨holdlt,?_⟩
      simp only [enter, update_self]
      exact ⟨rfl,(hlive.closing htask).keep ⟨rfl,rfl,rfl,rfl,rfl⟩⟩
    rw [update_of_ne hi]
    by_cases hin : i = n
    · subst hin
      rw [update_self]
      exact .inr ⟨.inr (.inr hplace),hlt,hfits.2.2.live.keep ⟨rfl,rfl,rfl,rfl,rfl⟩⟩
    · refine .inl ⟨update_of_ne hin _ _,?_,⟨rfl,rfl,rfl,rfl,rfl⟩,h.le_of_ahead⟩
      simpa [hcall, CallPhase.held] using Ne.symm hin
  · intro i hi
    cases hi
    exact update_self _ _ _
  · simp [hcall]

variable {stop : Stop}

/-- A stream that the stop covers is not before its insertion. -/
theorem Inv.covered_removing (h : Inv m place) (hcall : m.calls k = .removing stop)
    (hstarts : ∀ k' n, m.calls k' ≠ .spawning stop.streamId n ∧ m.calls k' ≠ .inserting stop.streamId n)
    (hn : m.Covers stop n) : m.streams stop.streamId = some n ∨ m.Over place n := by
  have hlt : n < m.opened := lt_of_lt_of_le hn.1 (h.stops k stop (by rw [hcall]; rfl))
  have hfits := h.fits n
  cases hplace : place n with
  | ahead => exact absurd hlt (Nat.not_lt.mpr (h.le_of_ahead hplace))
  | inMap => exact .inl ((h.inMap _ n).mpr ⟨hplace,hn.2⟩)
  | withCall j =>
    rw [hplace] at hfits
    have hfits := hfits.2
    cases hphase : m.calls j with
    | spawning id stream =>
      rw [hphase] at hfits
      obtain ⟨rfl,hid,_⟩ := hfits
      exact ((hstarts j _).1 (by rw [hphase, ← hid, hn.2])).elim
    | inserting id stream =>
      rw [hphase] at hfits
      obtain ⟨rfl,hid,_⟩ := hfits
      exact ((hstarts j _).2 (by rw [hphase, ← hid, hn.2])).elim
    | closing step stream stop =>
      rw [hphase] at hfits
      obtain ⟨rfl,_⟩ := hfits
      exact .inr (.inr ⟨j,step,stop,hplace,hphase⟩)
    | _ =>
      rw [hphase] at hfits
      exact hfits.elim
  | settled => exact .inr (.inl hplace)

/-- A stop has removed nothing. -/
theorem Inv.removed_none (h : Inv m place) (hcall : m.calls k = .removing stop)
    (hstarts : ∀ k' n, m.calls k' ≠ .spawning stop.streamId n ∧ m.calls k' ≠ .inserting stop.streamId n)
    (hnone : m.streams stop.streamId = none) :
    Inv ((m.store stop.streamId none).enter k (.returned none (some stop))) place := by
  refine h.called (k := k) (h.made_of_call (by simp [hcall])) le_rfl rfl le_rfl (fun _ _ => rfl) ?_
    (fun i => .inl ⟨rfl,?_,⟨rfl,rfl,rfl,rfl,rfl⟩,h.le_of_ahead⟩) nofun nofun ?_ ?_
  · simp only [enter, store, update_apply]
    grind [h.inMap]
  · simp [hcall, CallPhase.held]
  · simp [hcall]
  · intro stop' hstop'
    cases hstop'
    refine ⟨h.stops k stop (by rw [hcall]; rfl),fun _ i hi => .inl ?_⟩
    rcases h.covered_removing hcall hstarts hi with hmem | hover
    · simp [hnone] at hmem
    · exact hover

/-- A stop has removed a stream, which is to be closed. -/
theorem Inv.removed (h : Inv m place) {old : ℕ} (hcall : m.calls k = .removing stop)
    (hstarts : ∀ k' n, m.calls k' ≠ .spawning stop.streamId n ∧ m.calls k' ≠ .inserting stop.streamId n)
    (hold : m.streams stop.streamId = some old) (htask : m.tasks old = .streaming) :
    Inv ((m.store stop.streamId none).enter k (.closing .mark old (some stop)))
      (Function.update place old (.withCall k)) := by
  have holdplace := ((h.inMap stop.streamId old).mp hold).1
  obtain ⟨holdlt,hlive⟩ := h.live_of_inMap holdplace
  refine h.called (k := k) (h.made_of_call (by simp [hcall])) le_rfl rfl le_rfl (fun _ _ => rfl) ?_ (fun i => ?_) ?_
    nofun ?_ ?_
  · simp only [enter, store, update_apply]
    grind [h.inMap]
  · by_cases hi : i = old
    · subst hi
      refine .inr ⟨.inl holdplace,?_⟩
      rw [update_self]
      refine ⟨holdlt,?_⟩
      simp only [enter, update_self]
      exact ⟨rfl,(hlive.closing htask).keep ⟨rfl,rfl,rfl,rfl,rfl⟩⟩
    · exact .inl ⟨update_of_ne hi _ _,by simp [hcall, CallPhase.held],⟨rfl,rfl,rfl,rfl,rfl⟩,h.le_of_ahead⟩
  · intro i hi
    cases hi
    exact update_self _ _ _
  · simp [hcall]
  · intro stop' hstop'
    cases hstop'
    refine ⟨h.stops k stop (by rw [hcall]; rfl),fun _ i hi => ?_⟩
    rcases h.covered_removing hcall hstarts hi with hmem | hover
    · cases hold.symm.trans hmem
      exact .inr (.inr ⟨k,.mark,some stop,update_self _ _ _,update_self _ _ _⟩)
    · exact .inl hover

/-- A call has closed its handle. -/
theorem Inv.aborted (h : Inv m place) {stop : Option Stop} (hcall : m.calls k = .closing .abort n stop) :
    Inv ((m.abort n).enter k (.returned (some n) stop)) (Function.update place n .settled) := by
  obtain ⟨hplace,hlt,hfits⟩ := h.call_fits (k := k) (n := n) (by rw [hcall]; rfl)
  rw [hcall] at hfits
  refine h.called (k := k) (h.made_of_call (by simp [hcall])) le_rfl rfl le_rfl (fun _ _ => rfl) ?_ (fun i => ?_) nofun
    ?_ ?_ ?_
  · simp only [enter, abort, update_apply]
    grind [h.inMap]
  · by_cases hi : i = n
    · subst hi
      rw [update_self]
      exact .inr ⟨.inr (.inr hplace),hlt,hfits.2.closes,.inr ⟨update_self _ _ _,hfits.2.task⟩⟩
    · refine .inl ⟨update_of_ne hi _ _,?_,⟨rfl,rfl,rfl,update_of_ne hi _ _,rfl⟩,h.le_of_ahead⟩
      simpa [hcall, CallPhase.held] using Ne.symm hi
  · intro i stop' hc
    cases hc
    exact update_self _ _ _
  · intro step i stop' hc
    cases hcall.symm.trans hc
    exact .inl (update_self _ _ _)
  · intro stop' hstop'
    have hnow : (m.calls k).stop? = some stop' := by
      rw [hcall]
      exact hstop'
    exact ⟨h.stops k stop' hnow,fun _ i hi => .inl (h.covered k stop' hnow (by simp [hcall]) i hi)⟩

/-- A task removes its own stream. -/
theorem Inv.finished (h : Inv m place) (hplace : place n = .inMap) (htask : m.tasks n = .finishing) :
    Inv (((m.store (m.streamId n) none).mark n).goOn n .done) (Function.update place n .settled) := by
  obtain ⟨hlt,hlive⟩ := h.live_of_inMap hplace
  have hmem : m.streams (m.streamId n) = some n := (h.inMap _ n).mpr ⟨hplace,rfl⟩
  constructor
  case fits =>
    intro j
    by_cases hj : j = n
    · rw [hj, update_self]
      refine ⟨hlt,hlive.closes.trans ?_,.inl (update_self _ _ _)⟩
      rw [htask]
      rfl
    · rw [update_of_ne hj]
      exact (h.fits j).keep ⟨update_of_ne hj _ _,rfl,update_of_ne hj _ _,rfl,rfl⟩ le_rfl
        (fun hahead => h.le_of_ahead hahead) fun _ _ => rfl
  case covered =>
    intro j stop hj hne i hi
    have hover := h.covered j stop hj hne i hi
    have hin : i ≠ n := by
      rintro rfl
      exact not_over_of_inMap hplace hover
    exact hover.keep (update_of_ne hin _ _) fun _ _ => rfl
  case unmade => exact h.unmade
  case stops => exact h.stops
  all_goals simp only [goOn, mark, store, update_apply]
  case held => grind [h.held]
  case inMap => grind [h.inMap]
  case returned => grind [h.returned]

theorem Inv.advanceCall (h : Inv m place) {succeeds : Bool}
    (hreplaces : ∀ id n old, m.calls k = .inserting id n → m.streams id = some old → m.tasks old = .streaming)
    (hstops : ∀ stop, m.calls k = .removing stop →
      (∀ old, m.streams stop.streamId = some old → m.tasks old = .streaming) ∧
        ∀ k' n, m.calls k' ≠ .spawning stop.streamId n ∧ m.calls k' ≠ .inserting stop.streamId n)
    (hstep : m.advanceCall k succeeds (m.calls k) = some m') : ∃ place', Inv m' place' := by
  cases hcall : m.calls k with
  | connecting id =>
    rw [hcall] at hstep
    cases succeeds with
    | true =>
      cases hstep
      exact ⟨_,h.connected hcall⟩
    | false =>
      cases hstep
      exact ⟨_,h.failed hcall⟩
  | spawning id n =>
    have hheld : (m.calls k).held = some n := by rw [hcall]; rfl
    have hfits := (h.call_fits hheld).2.2
    rw [hcall] at hfits hstep
    cases hstep
    have hfresh : Fresh ((m.goOn n .streaming).enter k (.inserting id n)) n .streaming :=
      ⟨update_self _ _ _,hfits.2.2.closes,hfits.2.2.stopped,hfits.2.2.aborted⟩
    refine ⟨place,h.call_step hheld (c := .inserting id n) ⟨rfl,hfits.2.1,hfresh⟩ rfl ?_ ?_ ?_ rfl rfl rfl rfl⟩
    · intro stop hstop
      cases hstop
    · rintro ⟨_,_,hclosing⟩
      simp [hcall] at hclosing
    · exact fun j hj => ⟨update_of_ne hj _ _,rfl,rfl,rfl,rfl⟩
  | inserting id n =>
    rw [hcall] at hstep
    cases hstep
    cases hold : m.streams id with
    | none => exact ⟨_,h.inserted hcall hold⟩
    | some old => exact ⟨_,h.replaced hcall hold (hreplaces id n old hcall hold)⟩
  | removing stop =>
    rw [hcall] at hstep
    cases hstep
    obtain ⟨htask,hstarts⟩ := hstops stop hcall
    cases hold : m.streams stop.streamId with
    | none => exact ⟨_,h.removed_none hcall hstarts hold⟩
    | some old => exact ⟨_,h.removed hcall hstarts hold (htask old hold)⟩
  | closing closeStep n stop =>
    have hheld : (m.calls k).held = some n := by rw [hcall]; rfl
    have hfits := (h.call_fits hheld).2.2
    rw [hcall] at hfits
    have hstop : ∀ stop', stop = some stop' → (m.calls k).stop? = some stop' ∧ m.calls k ≠ .removing stop' := by
      rintro stop' rfl
      rw [hcall]
      exact ⟨rfl,nofun⟩
    cases closeStep with
    | mark =>
      rw [hcall] at hstep
      cases hstep
      refine ⟨place,h.call_step hheld (c := .closing .close n stop) ⟨rfl,?_⟩ rfl hstop ?_ ?_ rfl rfl rfl rfl⟩
      · exact ⟨hfits.2.task,hfits.2.closes,hfits.2.aborted⟩
      · exact fun _ => ⟨_,_,rfl⟩
      · exact fun j hj => ⟨rfl,rfl,update_of_ne hj _ _,rfl,rfl⟩
    | close =>
      rw [hcall] at hstep
      cases hstep
      refine ⟨place,h.call_step hheld (c := .closing .abort n stop) ⟨rfl,?_⟩ rfl hstop ?_ ?_ rfl rfl rfl rfl⟩
      · refine ⟨hfits.2.task,?_,hfits.2.aborted⟩
        have hcloses : m.closes n = 0 := hfits.2.closes
        exact (update_self _ _ _).trans (by rw [hcloses]; rfl)
      · exact fun _ => ⟨_,_,rfl⟩
      · exact fun j hj => ⟨rfl,update_of_ne hj _ _,rfl,rfl,rfl⟩
    | abort =>
      rw [hcall] at hstep
      cases hstep
      exact ⟨_,h.aborted hcall⟩
  | returned closed stop =>
    rw [hcall] at hstep
    cases hstep

theorem Inv.advanceTask (h : Inv m place) {result : StreamResult}
    (hends : m.tasks n = .streaming → m.streams (m.streamId n) = some n)
    (hstep : m.advanceTask n result (m.tasks n) = some m') : ∃ place', Inv m' place' := by
  have hgoOn : ∀ {phase}, place n = .inMap → phase ≠ .unborn → phase ≠ .done →
      phase.closes = (m.tasks n).closes → (phase.unmarked = true → m.stopped n = false) →
      Inv (m.goOn n phase) place := by
    intro phase hplace hunborn hdone hcloses hstopped
    obtain ⟨-,hlive⟩ := h.live_of_inMap hplace
    have hself : (m.goOn n phase).tasks n = phase := update_self _ _ _
    refine h.live_step hplace ⟨?_,?_,?_,?_,hlive.aborted⟩ ?_ rfl rfl rfl rfl rfl
    · rwa [hself]
    · rwa [hself]
    · rw [hself, hcloses]
      exact hlive.closes
    · rwa [hself]
    · exact fun j hj => ⟨update_of_ne hj _ _,rfl,rfl,rfl,rfl⟩
  have hlive : place n = .inMap → m.Live n := fun hplace => (h.live_of_inMap hplace).2
  have hat : m.tasks n ≠ .unborn → m.tasks n ≠ .streaming → m.tasks n ≠ .done → place n = .inMap := h.inMap_of_task
  cases htask : m.tasks n with
  | unborn =>
    rw [htask] at hstep
    cases hstep
  | streaming =>
    have hplace := ((h.inMap _ _).mp (hends htask)).1
    have haborted := (hlive hplace).aborted
    simp only [htask, Manager.advanceTask, haborted, Bool.false_eq_true, if_false, Option.some.injEq] at hstep
    subst hstep
    refine ⟨place,hgoOn hplace nofun nofun (by rw [htask]; rfl) fun _ => ?_⟩
    exact (hlive hplace).stopped (by rw [htask]; rfl)
  | deciding outcome =>
    have hplace := hat (by simp [htask]) (by simp [htask]) (by simp [htask])
    have hstopped : m.stopped n = false := (hlive hplace).stopped (by rw [htask]; rfl)
    simp only [htask, Manager.advanceTask, hstopped, Bool.false_eq_true, if_false, Option.some.injEq] at hstep
    subst hstep
    exact ⟨place,hgoOn hplace nofun nofun (by rw [htask]; rfl) fun _ => hstopped⟩
  | emitting event =>
    have hplace := hat (by simp [htask]) (by simp [htask]) (by simp [htask])
    have hstopped : m.stopped n = false := (hlive hplace).stopped (by rw [htask]; rfl)
    rw [htask] at hstep
    cases hstep
    exact ⟨place,hgoOn hplace nofun nofun (by rw [htask]; rfl) fun _ => hstopped⟩
  | marking =>
    have hplace := hat (by simp [htask]) (by simp [htask]) (by simp [htask])
    have hself : ((m.mark n).goOn n .closing).tasks n = .closing := update_self _ _ _
    have hcloses := (hlive hplace).closes
    rw [htask] at hcloses hstep
    cases hstep
    refine ⟨place,h.live_step hplace ⟨?_,?_,?_,?_,(hlive hplace).aborted⟩ ?_ rfl rfl rfl rfl rfl⟩
    · simp [hself]
    · simp [hself]
    · rw [hself]
      exact hcloses
    · rw [hself]
      exact nofun
    · exact fun j hj => ⟨update_of_ne hj _ _,rfl,update_of_ne hj _ _,rfl,rfl⟩
  | closing =>
    have hplace := hat (by simp [htask]) (by simp [htask]) (by simp [htask])
    have hself : ((m.close n).goOn n .finishing).tasks n = .finishing := update_self _ _ _
    have hcloses := (hlive hplace).closes
    rw [htask] at hcloses hstep
    cases hstep
    refine ⟨place,h.live_step hplace ⟨?_,?_,?_,?_,(hlive hplace).aborted⟩ ?_ rfl rfl rfl rfl rfl⟩
    · simp [hself]
    · simp [hself]
    · rw [hself]
      exact (update_self _ _ _).trans (congrArg Nat.succ hcloses)
    · rw [hself]
      exact nofun
    · exact fun j hj => ⟨update_of_ne hj _ _,update_of_ne hj _ _,rfl,rfl,rfl⟩
  | finishing =>
    have hplace := hat (by simp [htask]) (by simp [htask]) (by simp [htask])
    have hmem : m.streams (m.streamId n) = some n := (h.inMap _ n).mpr ⟨hplace,rfl⟩
    simp only [htask, Manager.advanceTask, hmem, if_true, Option.some.injEq] at hstep
    subst hstep
    exact ⟨_,h.finished hplace htask⟩
  | done =>
    rw [htask] at hstep
    cases hstep

theorem Inv.step {action : Action} (h : Inv m place) (horder : InOrder m action) (hstep : m.step action = some m') :
    ∃ place', Inv m' place' := by
  cases action with
  | start request =>
    simp only [Manager.step] at hstep
    split at hstep
    · cases hstep
      exact ⟨place,h.begin rfl nofun nofun⟩
    · cases hstep
      exact ⟨place,h⟩
  | stop streamId =>
    simp only [Manager.step] at hstep
    split at hstep
    · cases hstep
      refine ⟨place,h.begin rfl nofun fun stop hstop => ?_⟩
      cases hstop
      exact ⟨rfl,le_rfl⟩
    · cases hstep
      exact ⟨place,h⟩
  | call k succeeds =>
    exact h.advanceCall (fun id n old => horder.replaces k succeeds id n old rfl)
      (fun stop => horder.stops k succeeds stop rfl) hstep
  | task n result => exact h.advanceTask (horder.ends n result rfl) hstep

/-! ## Results -/

theorem Inv.closes_le (h : Inv m place) (n : ℕ) : m.closes n ≤ 1 := by
  rcases h.standing n with hfresh | hfresh | ⟨_,hlive⟩ | ⟨step,hclosing⟩ | ⟨_,hsettled⟩
  · rw [hfresh.closes]
    exact Nat.zero_le 1
  · rw [hfresh.closes]
    exact Nat.zero_le 1
  · rw [hlive.closes]
    cases m.tasks n <;> simp [TaskPhase.closes]
  · rw [hclosing.closes]
    split_ifs <;> decide
  · exact hsettled.closes.le

theorem Inv.running (h : Inv m place) (hstarts : ∀ k, ¬ (m.calls k).starts) (hlt : n < m.opened)
    (hstopping : ¬ m.Stopping n) : m.streams (m.streamId n) = some n ↔ ¬ m.Ended n := by
  have hfits := h.fits n
  constructor
  · intro hmem hended
    have hsettled := (h.settled_of_ended hended).1
    simp [((h.inMap _ n).mp hmem).1] at hsettled
  · intro hended
    refine (h.inMap _ n).mpr ⟨?_,rfl⟩
    cases hplace : place n with
    | ahead => exact absurd hlt (Nat.not_lt.mpr (h.le_of_ahead hplace))
    | inMap => rfl
    | withCall k =>
      have hk := hstarts k
      rw [hplace] at hfits
      have hcall := hfits.2
      cases hphase : m.calls k with
      | spawning | inserting => exact (hk (by rw [hphase]; rfl)).elim
      | closing step stream stop =>
        rw [hphase] at hcall
        obtain ⟨rfl,_⟩ := hcall
        cases stop with
        | none => exact (hk (by rw [hphase]; rfl)).elim
        | some stop => exact (hstopping ⟨k,step,stop,hphase⟩).elim
      | _ =>
        rw [hphase] at hcall
        exact hcall.elim
    | settled =>
      rw [hplace] at hfits
      exact (hended (hfits.2.ended.imp_right And.left)).elim

theorem Inv.owned (h : Inv m place) : m.Owned where
  closedOnce := h.closes_le
  closedAtEnd n hended := (h.settled_of_ended hended).2.closes
  closedOnReturn k n stop hcall := by
    have hfits := h.fits n
    rw [h.returned k n stop hcall] at hfits
    exact hfits.2.closes
  running hstarts n hlt hstopping := h.running hstarts hlt hstopping
  opened id n hmem := by
    obtain ⟨hplace,hid⟩ := (h.inMap id n).mp hmem
    exact ⟨(h.live_of_inMap hplace).1,hid⟩
  quiet k closed stop hcall n event hcovers htask := by
    have hplace : place n = .inMap := h.inMap_of_task (by simp [htask]) (by simp [htask]) (by simp [htask])
    exact not_over_of_inMap hplace (h.covered k stop (by rw [hcall]; rfl) (by simp [hcall]) n hcovers)

def request : DockerContainerLogsStartRequest := ⟨"server","web","logs"⟩

/-- A step that neither ends a command nor inserts or removes a handle. -/
theorem inOrder_of_call (hc : m.calls k = c) (hinserting : ∀ id n, c ≠ .inserting id n)
    (hremoving : ∀ stop, c ≠ .removing stop) (succeeds : Bool) : InOrder m (.call k succeeds) where
  ends _ _ h := by cases h
  replaces j _ id n old h hj := by
    cases h
    exact (hinserting id n (hc.symm.trans hj)).elim
  stops j _ stop h hj := by
    cases h
    exact (hremoving stop (hc.symm.trans hj)).elim

/-- The command ends at once, and the task is through before its handle is inserted. -/
def early : List Action :=
  [.start request,.call 0 true,.call 0 true,.task 0 (.exited (some 0)),.task 0 (.exited none),.task 0 (.exited none),
    .task 0 (.exited none),.task 0 (.exited none),.task 0 (.exited none),.call 0 true]

end Manager
end Mxterm.DockerLogStreams
