import Mxterm.ChatStreams
import Mxterm.Transitions

/-! Every stream ends once, and its record agrees, where a stop command meets the task while it awaits something. -/
namespace Mxterm.ChatStreams

open Agent

variable {s s' : Stream} {a : StreamAction}

def Stream.Quiet (s : Stream) : Prop := ∀ event ∈ s.events, event.announces = none

def Stream.Recorded (s : Stream) (messageId status : String) : Prop :=
  (s.store messageId).map StoredReply.status = some status

/-- The reply that the task has written is in the store with its status. -/
def Stream.TaskRecorded (s : Stream) : Prop :=
  match s.task with
  | .suspended | .running | .returned _ | .settled _ _ => True
  | .saved result final | .parked result final => s.Recorded final.messageId (resultStatus result)
  | _ => False

def Stream.StopRecorded (s : Stream) : Prop :=
  match s.stop with
  | .idle => False
  | .taken | .flagged => True
  | .aborted | .settled _ => s.abort = true
  | .saved final => s.abort = true ∧ s.Recorded final.messageId "stopped"

/-- The last event, and no other, is a terminal one, whose message has the status that it announces. -/
def Stream.Closed (s : Stream) : Prop :=
  ∃ before event messageId status, s.events = before ++ [event] ∧ (∀ e ∈ before, e.announces = none) ∧
    event.announces = some (messageId,status) ∧ s.Recorded messageId status

/-- The phases of an undisturbed stream. -/
inductive Orderly : Stream → Prop
  | live {s : Stream} : s.entry = true → s.stop = .idle → s.abort = false → s.stopped = false → s.Quiet →
      s.TaskRecorded → Orderly s
  | stopping {s : Stream} : s.entry = false → s.task.AtAwait → s.Quiet → s.StopRecorded → Orderly s
  | removed {s : Stream} {result : Except AppError Unit} {final : Final} : s.entry = false → s.stop = .idle →
      s.task = .removed result final → s.Quiet → s.Recorded final.messageId (resultStatus result) → Orderly s
  | closed {s : Stream} : s.entry = false → s.stop = .idle → s.task = .done ∨ s.task.AtAwait ∧ s.abort = true →
      s.Closed → Orderly s

/-! ## Changes of a stream -/

theorem quiet_emit {event : StreamEvent} (h : s.Quiet) (hevent : event.announces = none) :
    (s.emit event).Quiet :=
  List.forall_mem_append.mpr ⟨h,List.forall_mem_singleton.mpr hevent⟩

theorem quiet_settle (h : s.Quiet) : s.settle.Quiet := by
  refine List.forall_mem_append.mpr ⟨h,fun event hevent => ?_⟩
  obtain ⟨record,-,rfl⟩ := List.mem_map.mp hevent
  rfl

theorem recorded_save (s : Stream) (final : Final) (status : String) :
    (s.save final status).Recorded final.messageId status := by
  simp [Stream.Recorded,Stream.save]

theorem closed_emit {event : StreamEvent} {messageId status : String} (h : s.Quiet)
    (hevent : event.announces = some (messageId,status)) (hrecorded : s.Recorded messageId status) :
    (s.emit event).Closed :=
  ⟨s.events,event,messageId,status,rfl,h,hevent,hrecorded⟩

theorem resultEvent_announces (result : Except AppError Unit) (final : Final) :
    (resultEvent result final).announces = some (final.messageId,resultStatus result) := by
  cases result <;> rfl

theorem step_cases (h : s.step a = some s') : s.taskStep a = some s' ∨ s.stopStep a = some s' := by
  rw [Stream.step,Option.or_eq_some_iff] at h
  exact h.imp_right And.right

/-! ## Each phase -/

/-- The run of a live stream stays live, whatever it does. -/
theorem running_step (htask : s.task = .running) (hentry : s.entry = true) (hstop : s.stop = .idle)
    (habort : s.abort = false) (hstopped : s.stopped = false) (hquiet : s.Quiet)
    (h : s.taskStep a = some s') : Orderly s' := by
  have hrecorded : s.TaskRecorded := by simp only [Stream.TaskRecorded,htask]
  cases a <;> delta Stream.taskStep at h <;> simp only [htask] at h
  case suspend =>
    cases h
    exact .live hentry hstop habort hstopped hquiet trivial
  case progress kind =>
    cases h
    exact .live hentry hstop habort hstopped (quiet_emit hquiet rfl) hrecorded
  case change reply =>
    cases h
    exact .live hentry hstop habort hstopped hquiet trivial
  case snapshot =>
    cases h
    exact .live hentry hstop habort hstopped hquiet (by simp only [Stream.TaskRecorded,Stream.save,htask])
  case inject status messageId =>
    split_ifs at h
    cases h
    refine .live hentry hstop habort hstopped ?_ (by simp only [Stream.TaskRecorded,Stream.inject,htask])
    exact List.forall_mem_append.mpr ⟨hquiet,List.forall_mem_singleton.mpr rfl⟩
  case finishRun result =>
    cases h
    exact .live hentry hstop habort hstopped hquiet trivial
  all_goals cases h

theorem live_taskStep (hentry : s.entry = true) (hstop : s.stop = .idle) (habort : s.abort = false)
    (hstopped : s.stopped = false) (hquiet : s.Quiet) (hrecorded : s.TaskRecorded) (ha : s.Undisturbed a)
    (h : s.taskStep a = some s') : Orderly s' := by
  cases htask : s.task with
  | suspended =>
    cases a <;> delta Stream.taskStep at h <;> simp only [htask] at h
    case resume =>
      simp only [habort,Bool.false_eq_true,if_false] at h
      cases h
      exact .live hentry hstop rfl hstopped hquiet trivial
    all_goals cases h
  | running => exact running_step htask hentry hstop habort hstopped hquiet h
  | returned result =>
    cases a <;> delta Stream.taskStep at h <;> simp only [htask] at h
    case check =>
      simp only [hstopped,Bool.false_eq_true,if_false] at h
      cases h
      exact .live hentry hstop habort hstopped (quiet_settle hquiet) trivial
    all_goals cases h
  | settled result final =>
    cases a <;> delta Stream.taskStep at h <;> simp only [htask] at h
    case save outcome =>
      obtain rfl : outcome = .ok () := ha
      cases h
      exact .live hentry hstop habort hstopped hquiet (recorded_save s final _)
    all_goals cases h
  | saved result final =>
    have hsaved : s.Recorded final.messageId (resultStatus result) := by
      simpa only [Stream.TaskRecorded,htask] using hrecorded
    cases a <;> delta Stream.taskStep at h <;> simp only [htask] at h
    case park =>
      cases h
      exact .live hentry hstop habort hstopped hquiet hsaved
    case remove =>
      cases h
      exact .removed rfl hstop rfl hquiet hsaved
    all_goals cases h
  | parked result final =>
    have hsaved : s.Recorded final.messageId (resultStatus result) := by
      simpa only [Stream.TaskRecorded,htask] using hrecorded
    cases a <;> delta Stream.taskStep at h <;> simp only [htask] at h
    case resume =>
      simp only [habort,Bool.false_eq_true,if_false] at h
      cases h
      exact .live hentry hstop rfl hstopped hquiet hsaved
    all_goals cases h
  | closing | unsaved | leaving | removed | done => simp only [Stream.TaskRecorded,htask] at hrecorded

theorem live_stopStep (hentry : s.entry = true) (hstop : s.stop = .idle) (hquiet : s.Quiet)
    (ha : s.Undisturbed a) (h : s.stopStep a = some s') : Orderly s' := by
  cases a <;> delta Stream.stopStep at h <;> simp only [hstop] at h
  case stopTake =>
    simp only [hentry,if_true] at h
    cases h
    exact .stopping rfl (ha hentry) hquiet trivial
  all_goals cases h

/-- A task that awaits something goes on by a `resume` alone. -/
theorem awaiting_taskStep (hawait : s.task.AtAwait) (h : s.taskStep a = some s') :
    a = .resume ∧ s.abort = false := by
  cases htask : s.task with
  | suspended | parked =>
    cases a <;> delta Stream.taskStep at h <;> simp only [htask] at h
    case resume =>
      split_ifs at h with habort
      exact ⟨rfl,by simpa using habort⟩
    all_goals cases h
  | _ => simp only [TaskPc.AtAwait,htask] at hawait

theorem stopping_taskStep (hawait : s.task.AtAwait) (hrecorded : s.StopRecorded) (ha : s.Undisturbed a) :
    s.taskStep a ≠ some s' := by
  intro h
  obtain ⟨rfl,habort⟩ := awaiting_taskStep hawait h
  cases hstop : s.stop with
  | taken => exact ha.1 hstop
  | flagged => exact ha.2 hstop
  | idle => simp only [Stream.StopRecorded,hstop] at hrecorded
  | aborted | settled | saved => simp [Stream.StopRecorded,hstop,habort] at hrecorded

theorem stopping_stopStep (hentry : s.entry = false) (hawait : s.task.AtAwait) (hquiet : s.Quiet)
    (hrecorded : s.StopRecorded) (ha : s.Undisturbed a) (h : s.stopStep a = some s') : Orderly s' := by
  cases hstop : s.stop with
  | idle => simp only [Stream.StopRecorded,hstop] at hrecorded
  | taken =>
    cases a <;> delta Stream.stopStep at h <;> simp only [hstop] at h
    case stopFlag =>
      cases h
      exact .stopping hentry hawait hquiet trivial
    all_goals cases h
  | flagged =>
    cases a <;> delta Stream.stopStep at h <;> simp only [hstop] at h
    case stopAbort =>
      cases h
      exact .stopping hentry hawait hquiet rfl
    all_goals cases h
  | aborted =>
    have habort : s.abort = true := by simpa only [Stream.StopRecorded,hstop] using hrecorded
    cases a <;> delta Stream.stopStep at h <;> simp only [hstop] at h
    case stopSettle =>
      cases h
      exact .stopping hentry hawait (quiet_settle hquiet) habort
    all_goals cases h
  | settled final =>
    have habort : s.abort = true := by simpa only [Stream.StopRecorded,hstop] using hrecorded
    cases a <;> delta Stream.stopStep at h <;> simp only [hstop] at h
    case stopSave outcome =>
      obtain rfl : outcome = .ok () := ha
      simp only [Stream.trySave] at h
      cases h
      exact .stopping hentry hawait hquiet ⟨habort,recorded_save s final "stopped"⟩
    all_goals cases h
  | saved final =>
    obtain ⟨habort,hsaved⟩ : s.abort = true ∧ s.Recorded final.messageId "stopped" := by
      simpa only [Stream.StopRecorded,hstop] using hrecorded
    cases a <;> delta Stream.stopStep at h <;> simp only [hstop] at h
    case stopAnnounce =>
      cases h
      exact .closed hentry rfl (Or.inr ⟨hawait,habort⟩) (closed_emit hquiet rfl hsaved)
    all_goals cases h

/-- A stop command that does not find the stream changes nothing. -/
theorem gone_stopStep (hentry : s.entry = false) (hstop : s.stop = .idle) (h : s.stopStep a = some s') :
    s' = s := by
  cases a <;> delta Stream.stopStep at h <;> simp only [hstop] at h
  case stopTake =>
    simp only [hentry,Bool.false_eq_true,if_false] at h
    exact (Option.some.inj h).symm
  all_goals cases h

theorem removed_taskStep {result : Except AppError Unit} {final : Final} (hentry : s.entry = false)
    (hstop : s.stop = .idle) (htask : s.task = .removed result final) (hquiet : s.Quiet)
    (hsaved : s.Recorded final.messageId (resultStatus result)) (h : s.taskStep a = some s') : Orderly s' := by
  cases a <;> delta Stream.taskStep at h <;> simp only [htask] at h
  case announce =>
    cases h
    exact .closed hentry hstop (Or.inl rfl) (closed_emit hquiet (resultEvent_announces result final) hsaved)
  all_goals cases h

theorem closed_taskStep (htask : s.task = .done ∨ s.task.AtAwait ∧ s.abort = true) :
    s.taskStep a ≠ some s' := by
  intro h
  rcases htask with htask | ⟨hawait,habort⟩
  · cases a <;> simp only [Stream.taskStep,htask] at h <;> cases h
  · have hresumed := (awaiting_taskStep hawait h).2
    rw [habort] at hresumed
    cases hresumed

/-! ## Runs -/

theorem Orderly.step (hs : Orderly s) (ha : s.Undisturbed a) (h : s.step a = some s') : Orderly s' := by
  cases hs with
  | live hentry hstop habort hstopped hquiet hrecorded =>
    rcases step_cases h with h | h
    · exact live_taskStep hentry hstop habort hstopped hquiet hrecorded ha h
    · exact live_stopStep hentry hstop hquiet ha h
  | stopping hentry hawait hquiet hrecorded =>
    rcases step_cases h with h | h
    · exact absurd h (stopping_taskStep hawait hrecorded ha)
    · exact stopping_stopStep hentry hawait hquiet hrecorded ha h
  | removed hentry hstop htask hquiet hsaved =>
    rcases step_cases h with h | h
    · exact removed_taskStep hentry hstop htask hquiet hsaved h
    · rw [gone_stopStep hentry hstop h]
      exact .removed hentry hstop htask hquiet hsaved
  | closed hentry hstop htask hclosed =>
    rcases step_cases h with h | h
    · exact absurd h (closed_taskStep htask)
    · rw [gone_stopStep hentry hstop h]
      exact .closed hentry hstop htask hclosed

theorem Orderly.registered (h : s.Registered) : Orderly s := by
  obtain ⟨htask,hstop,hentry,hstopped,habort,hevents,-⟩ := h
  refine .live hentry hstop habort hstopped ?_ (by simp only [Stream.TaskRecorded,htask])
  rw [Stream.Quiet,hevents]
  exact nofun

theorem Stream.Quiet.endsOnce (h : s.Quiet) (hended : ¬ s.Ended) : s.EndsOnce where
  last event hevent := h event ((List.dropLast_sublist _).subset hevent)
  agrees event hevent messageId status hannounces := by
    rw [h event hevent] at hannounces
    cases hannounces
  ended hs := absurd hs hended

theorem Stream.Closed.endsOnce (h : s.Closed) : s.EndsOnce := by
  obtain ⟨before,event,messageId,status,hevents,hbefore,hannounces,hrecorded⟩ := h
  constructor
  · rw [hevents,List.dropLast_concat]
    exact hbefore
  · intro e he messageId' status' he'
    rw [hevents] at he
    rcases List.mem_append.mp he with he | he
    · rw [hbefore e he] at he'
      cases he'
    · rw [List.mem_singleton.mp he,hannounces] at he'
      cases he'
      exact hrecorded
  · intro _
    refine ⟨event,by simp [hevents],?_⟩
    rw [hannounces]
    exact Option.some_ne_none _

theorem Orderly.endsOnce (hs : Orderly s) : s.EndsOnce := by
  cases hs with
  | live hentry hstop habort hstopped hquiet hrecorded =>
    refine hquiet.endsOnce fun hended => ?_
    rcases hended.1 with hdone | ⟨-,haborted⟩
    · simp only [Stream.TaskRecorded,hdone] at hrecorded
    · rw [habort] at haborted
      cases haborted
  | stopping hentry hawait hquiet hrecorded =>
    refine hquiet.endsOnce fun hended => ?_
    simp only [Stream.StopRecorded,hended.2] at hrecorded
  | removed hentry hstop htask hquiet hsaved =>
    refine hquiet.endsOnce fun hended => ?_
    rcases hended.1 with hdone | ⟨hawait,-⟩
    · rw [htask] at hdone
      cases hdone
    · rw [htask] at hawait
      exact hawait
  | closed hentry hstop htask hclosed => exact hclosed.endsOnce

/-- In an undisturbed run exactly one terminal event is emitted, it is the last event, and the message in the
store has the status that it announces. -/
theorem streams_end_once (h : Transitions.Reached Stream.step Stream.Undisturbed Stream.Registered s) :
    s.EndsOnce :=
  (h.invariant (fun _ => Orderly.registered) fun _ _ _ hs ha hstep => hs.step ha hstep).endsOnce

/-! ## A stream that is stopped -/

def registered : Stream where
  task := .suspended
  stop := .idle
  entry := true
  stopped := false
  abort := false
  messageId := "reply"
  reply := .empty
  store id := if id = "reply" then some ⟨.empty,"streaming"⟩ else none
  events := []

theorem registered_registered : registered.Registered := ⟨rfl,rfl,rfl,rfl,rfl,rfl,rfl⟩

/-- Stopped at once, while the task waits to be started. -/
theorem stopped_at_once : ∃ s, Transitions.run Stream.step registered
    [.stopTake,.stopFlag,.stopAbort,.stopSettle,.stopSave (.ok ()),.stopAnnounce] = some s ∧ s.EndsOnce := by
  refine ⟨_,rfl,streams_end_once ?_⟩
  refine .step (a := .stopAnnounce) (.step (a := .stopSave (.ok ())) (.step (a := .stopSettle)
    (.step (a := .stopAbort) (.step (a := .stopFlag) (.step (a := .stopTake) (.start registered_registered)
    ?_ rfl) trivial rfl) trivial rfl) trivial rfl) rfl rfl) trivial rfl
  exact fun _ => trivial

/-- The task has written its reply and not yet removed its entry when a stop command takes the entry. -/
def stoppedTooLate : List StreamAction :=
  [.resume,.finishRun (.ok ()),.check,.save (.ok ()),.stopTake,.stopFlag,.stopAbort,.stopSettle,
    .stopSave (.ok ()),.stopAnnounce,.remove,.announce]

theorem stream_ends_twice : ∃ s, Transitions.Reached Stream.step (fun _ _ => True) Stream.Registered s ∧
    s.events = [.stopped "reply" "",.finished "reply" ""] ∧ ¬ s.EndsOnce := by
  have hrun : Transitions.run Stream.step registered stoppedTooLate = some
      { registered with
        task := .done
        entry := false
        stopped := true
        abort := true
        store := Function.update (Function.update registered.store "reply" (some ⟨.empty,"complete"⟩)) "reply"
          (some ⟨.empty,"stopped"⟩)
        events := [.stopped "reply" "",.finished "reply" ""] } := rfl
  refine ⟨_,Transitions.Reached.run (.start registered_registered) hrun,rfl,fun h => ?_⟩
  have hlast := h.last (.stopped "reply" "") (List.mem_singleton_self _)
  cases hlast

end Mxterm.ChatStreams
