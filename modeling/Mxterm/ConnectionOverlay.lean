import Mathlib.Data.List.DropRight

/-! What is shown over a session of the Windows client while it connects (`rdp/connection_state.rs`). -/
namespace Mxterm
namespace ConnectionOverlay

inductive ConnectionEvent
  | connecting
  | connected
  | loginComplete
  | disconnected (reason : Int32) (extended : Option Int32)
  | fatal (code : Int32)
  | reconnecting
  | reconnected
  | dialog (visible : Bool)
  deriving DecidableEq

inductive Phase
  | connecting | signingIn | reconnecting | ready
  | stopped (message : String)
  deriving DecidableEq

/-- An instant is a number of milliseconds. -/
structure ConnectionState where
  phase : Phase
  dialogVisible : Bool
  started : ℕ

namespace ConnectionState

def new (now : ℕ) : ConnectionState where
  phase := .connecting
  dialogVisible := false
  started := now

def waiting (s : ConnectionState) : Bool :=
  match s.phase with
  | .connecting | .signingIn | .reconnecting => true
  | _ => false

def disconnectedText (reason : Int32) : Option Int32 → String
  | some code => "连接已断开（原因 " ++ toString reason ++ "，扩展 " ++ toString code ++ "）"
  | none => "连接已断开（原因 " ++ toString reason ++ "）"

def fatalText (code : Int32) : String := "连接失败（错误 " ++ toString code ++ "）"

def apply (s : ConnectionState) (now : ℕ) : ConnectionEvent → ConnectionState
  | .connecting => ⟨.connecting,false,if s.waiting then s.started else now⟩
  | .connected => { s with phase := if s.waiting then .signingIn else s.phase }
  | .loginComplete | .reconnected => ⟨if s.waiting then .ready else s.phase,false,s.started⟩
  | .disconnected reason extended =>
    match s.phase with
    -- A later disconnect must not overwrite the more specific fatal error.
    | .stopped message => ⟨.stopped message,false,s.started⟩
    | _ => ⟨.stopped (disconnectedText reason extended),false,s.started⟩
  | .fatal code => ⟨.stopped (fatalText code),false,s.started⟩
  | .reconnecting =>
    { s with
      phase := .reconnecting
      started := if s.phase ≠ .reconnecting then now else s.started }
  | .dialog visible => { s with dialogVisible := visible }

def visible (s : ConnectionState) : Bool := ! s.dialogVisible && s.phase ≠ .ready

def displayReady (s : ConnectionState) : Bool := s.phase = .ready

def title (s : ConnectionState) : String :=
  match s.phase with
  | .connecting => "正在连接远程桌面…"
  | .signingIn => "已连接，等待登录完成…"
  | .reconnecting => "连接中断，正在重新连接…"
  | .ready => ""
  | .stopped message => message

def detail (s : ConnectionState) (now : ℕ) : String :=
  if ! s.waiting then "可重试连接，或关闭当前标签页。"
  else if 20000 ≤ now - s.started then "等待时间较长，请检查远端登录或认证提示。"
  else "请稍候，可通过标签页关闭按钮取消。"

/-- The events that have come in, each with the instant at which it was applied. -/
def run (created : ℕ) (events : List (ℕ × ConnectionEvent)) : ConnectionState :=
  events.foldl (fun s event => s.apply event.1 event.2) (new created)

end ConnectionState

/-! ## Attempts -/

namespace ConnectionEvent

/-- The event begins an attempt to connect. -/
def begins : ConnectionEvent → Bool
  | .connecting | .reconnecting => true
  | _ => false

def completes : ConnectionEvent → Bool
  | .loginComplete | .reconnected => true
  | _ => false

def fatalText? : ConnectionEvent → Option String
  | .fatal code => some (ConnectionState.fatalText code)
  | _ => none

def disconnectedText? : ConnectionEvent → Option String
  | .disconnected reason extended => some (ConnectionState.disconnectedText reason extended)
  | _ => none

def stops (event : ConnectionEvent) : Bool := event.fatalText?.isSome || event.disconnectedText?.isSome

end ConnectionEvent

/-- The events after the last one that began an attempt. -/
def attempt (events : List ConnectionEvent) : List ConnectionEvent := events.rtakeWhile (! ·.begins)

/-- The text of the last fatal error of an attempt, or else of its first disconnect. -/
def stopText (events : List ConnectionEvent) : Option String :=
  (events.filterMap (·.fatalText?)).getLast?.or (events.filterMap (·.disconnectedText?)).head?

theorem attempt_concat (events : List ConnectionEvent) (event : ConnectionEvent) :
    attempt (events ++ [event]) = if event.begins then [] else attempt events ++ [event] := by
  rw [attempt,List.rtakeWhile_concat]
  cases event.begins <;> rfl

theorem stopText_concat (events : List ConnectionEvent) (event : ConnectionEvent) :
    stopText (events ++ [event]) = event.fatalText?.or ((stopText events).or event.disconnectedText?) := by
  have hfatal : (List.filterMap (·.fatalText?) [event]).getLast? = event.fatalText? := by cases event <;> rfl
  have hother : (List.filterMap (·.disconnectedText?) [event]).head? = event.disconnectedText? := by cases event <;> rfl
  rw
    [stopText,List.filterMap_append,List.filterMap_append,List.getLast?_append,List.head?_append,hfatal,hother,stopText]
  simp only [Option.or_assoc]

theorem isSome_stopText (events : List ConnectionEvent) :
    (stopText events).isSome ↔ ∃ event ∈ events, event.stops = true := by
  induction events using List.reverseRecOn with
  | nil => exact iff_of_false Bool.false_ne_true fun ⟨_,hmem,_⟩ => List.not_mem_nil hmem
  | append_singleton events event ih =>
    simp only [stopText_concat,Option.isSome_or,Bool.or_eq_true,ih,List.mem_append,List.mem_singleton,or_and_right,
      exists_or,exists_eq_left,ConnectionEvent.stops]
    exact or_left_comm

open ConnectionState

def ConnectionState.message? (s : ConnectionState) : Option String :=
  match s.phase with
  | .stopped message => some message
  | _ => none

/-- What a state tells of the attempt. -/
structure Tells (s : ConnectionState) (events : List ConnectionEvent) : Prop where
  ready : s.phase = .ready ↔ (∃ event ∈ events, event.completes) ∧ stopText events = none
  stopped : s.message? = stopText events
  shown : ∀ before event after, events = before ++ event :: after → event.stops → .dialog true ∉ after →
    s.dialogVisible = false

theorem tells_new (now : ℕ) : Tells (new now) [] := by
  constructor <;> simp [new,stopText,message?]

section
variable {event : ConnectionEvent} (s : ConnectionState) (now : ℕ)

theorem message?_apply (h : event.begins = false) : (s.apply now event).message? =
    event.fatalText?.or (s.message?.or event.disconnectedText?) := by
  obtain ⟨phase,visible,started⟩ := s
  cases event with
  | connecting => cases h
  | reconnecting => cases h
  | _ => cases phase <;> rfl

theorem ready_apply (h : event.begins = false) : (s.apply now event).phase = .ready ↔
    (s.phase = .ready ∨ event.completes ∧ s.message? = none) ∧ event.fatalText? = none ∧
      event.disconnectedText? = none := by
  cases event with
  | connecting => cases h
  | reconnecting => cases h
  | _ => cases hphase : s.phase <;> simp [ConnectionState.apply,waiting,message?,hphase,ConnectionEvent.fatalText?,
      ConnectionEvent.disconnectedText?,ConnectionEvent.completes]

theorem dialogVisible_of_stops (h : event.stops) : (s.apply now event).dialogVisible = false := by
  obtain ⟨phase,visible,started⟩ := s
  cases event with
  | disconnected reason extended => cases phase <;> rfl
  | fatal code => rfl
  | _ => cases h

/-- Only the event of a dialog shows one. -/
theorem dialogVisible_apply (h : event ≠ .dialog true) (hnone : s.dialogVisible = false) :
    (s.apply now event).dialogVisible = false := by
  cases event with
  | disconnected reason extended => exact dialogVisible_of_stops s now rfl
  | dialog visible =>
    cases visible with
    | false => rfl
    | true => exact absurd rfl h
  | connected => exact hnone
  | reconnecting => exact hnone
  | _ => rfl

end

theorem Tells.apply {s : ConnectionState} {events : List ConnectionEvent} (h : Tells s events) (now : ℕ)
    (event : ConnectionEvent) : Tells (s.apply now event) (if event.begins then [] else events ++ [event]) := by
  by_cases hbegins : event.begins = true
  · rw [if_pos hbegins]
    cases event with
    | connecting => constructor <;> simp [ConnectionState.apply,stopText,message?]
    | reconnecting => constructor <;> simp [ConnectionState.apply,stopText,message?]
    | _ => cases hbegins
  rw [if_neg hbegins]
  rw [Bool.not_eq_true] at hbegins
  constructor
  case ready =>
    rw [ready_apply s now hbegins,stopText_concat,h.ready,h.stopped]
    simp only [Option.or_eq_none_iff,List.mem_append,List.mem_singleton,or_and_right,exists_or,exists_eq_left]
    grind
  case stopped => rw [message?_apply s now hbegins,stopText_concat,h.stopped]
  case shown =>
    intro before stop after hsplit hstop hnone
    cases after using List.reverseRecOn with
    | nil =>
      obtain ⟨-,heq⟩ := List.append_inj' hsplit rfl
      rw [List.singleton_inj.mp heq]
      exact dialogVisible_of_stops s now hstop
    | append_singleton after last =>
      rw [← List.cons_append,← List.append_assoc] at hsplit
      obtain ⟨hevents,heq⟩ := List.append_inj' hsplit rfl
      rw [List.mem_append,not_or] at hnone
      rw [List.singleton_inj.mp heq]
      refine dialogVisible_apply s now ?_ (h.shown before stop after hevents hstop hnone.1)
      rintro rfl
      exact hnone.2 List.mem_cons_self

theorem tells_run (created : ℕ) (events : List (ℕ × ConnectionEvent)) :
    Tells (run created events) (attempt (events.map Prod.snd)) := by
  induction events using List.reverseRecOn with
  | nil => exact tells_new created
  | append_singleton events event ih =>
    rw [List.map_append,List.map_singleton,attempt_concat,run,List.foldl_append]
    exact ih.apply event.1 event.2

/-- The overlay tells how the current attempt stands: ready when a login has completed and nothing has stopped it,
stopped with the text of the last fatal error or else of the first disconnect, and then it is visible as long as no
dialog is opened after an event that stopped it. -/
theorem overlay_truthful (created : ℕ) (events : List (ℕ × ConnectionEvent)) :
    let s := run created events
    let current := attempt (events.map Prod.snd)
    (s.displayReady = true ↔ (∃ event ∈ current, event.completes = true) ∧ ∀ event ∈ current, event.stops = false) ∧
    ((∃ message, s.phase = .stopped message) ↔ ∃ event ∈ current, event.stops = true) ∧
    (∀ message, s.phase = .stopped message → stopText current = some message) ∧
    ∀ before event after, current = before ++ event :: after → event.stops = true → .dialog true ∉ after →
      s.visible = true := by
  intro s current
  have h : Tells s current := tells_run created events
  have hstopped (message : String) : s.phase = .stopped message ↔ stopText current = some message := by
    rw [← h.stopped,message?]
    cases s.phase <;> simp
  have hstops := isSome_stopText current
  refine ⟨?_,?_,fun message => (hstopped message).mp,?_⟩
  · rw [displayReady,decide_eq_true_eq,h.ready,← Option.not_isSome_iff_eq_none,hstops]
    simp
  · rw [← hstops,Option.isSome_iff_exists]
    exact exists_congr hstopped
  · intro before event after hsplit hstop hnone
    have hmem : event ∈ current := by simp [hsplit]
    obtain ⟨message,hmessage⟩ := Option.isSome_iff_exists.mp (hstops.mpr ⟨event,hmem,hstop⟩)
    simp [visible,h.shown before event after hsplit hstop hnone,(hstopped message).mpr hmessage]

end ConnectionOverlay
end Mxterm
