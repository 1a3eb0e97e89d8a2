import Mxterm.CommandTasks

/-! What holds of the asynchronous commands in every run: how a task moves, what its record says, and where its session
is. -/
namespace Mxterm.CommandTasks

open RemoteCommands Transitions State

/-! ## What the registry keeps -/

namespace Registry

/-- An entry stays, or it is given up at its end. -/
def Kept (before after : Option McpTaskEntry) : Prop :=
  after = before ∨ ∃ e, before = some e ∧ isTerminalTaskStatus e.record.status = true ∧ after = none

theorem find?_keepRows (tasks : Registry) (keep : McpTaskEntry → Bool) (id : String) :
    (tasks.keepRows keep).find? id = (tasks.find? id).filter keep := by
  ext e
  rw [Table.find?_eq_some_iff,Table.mem_keepRows,Option.filter_eq_some_iff,Table.find?_eq_some_iff]
  tauto

theorem kept_keepRows (tasks : Registry) {keep : McpTaskEntry → Bool} {id : String}
    (h : ∀ e ∈ tasks, e.taskId = id → keep e = false → isTerminalTaskStatus e.record.status = true) :
    Kept (tasks.find? id) ((tasks.keepRows keep).find? id) := by
  rw [find?_keepRows]
  cases hfind : tasks.find? id with
  | none => exact Or.inl rfl
  | some e =>
    by_cases hkeep : keep e = true
    · exact Or.inl (by rw [Option.filter_some,if_pos hkeep])
    · have he := Table.find?_eq_some_iff.mp hfind
      have hfalse := eq_false_of_ne_true hkeep
      exact Or.inr ⟨e,rfl,h e he.1 he.2 hfalse,by rw [Option.filter_some,if_neg hkeep]⟩

theorem kept_prune (tasks : Registry) (now : ℕ) (id : String) :
    Kept (tasks.find? id) ((prune tasks now).find? id) := by
  apply kept_keepRows
  intro e _ _ hkeep
  simp only [isExpired,Bool.not_eq_false',Bool.and_eq_true] at hkeep
  exact hkeep.1

theorem kept_evict (fuel : ℕ) (tasks : Registry) (id : String) :
    Kept (tasks.find? id) ((evict fuel tasks).find? id) := by
  induction fuel generalizing tasks with
  | zero => exact Or.inl rfl
  | succ fuel ih =>
    rw [evict]
    split
    · split
      · exact Or.inl rfl
      · rename_i e hold
        have hterminal := (List.mem_filter.mp (oldest_mem hold)).2
        have hmem := (List.mem_filter.mp (oldest_mem hold)).1
        have hdropped : Kept (tasks.find? id) ((tasks.keepRows fun other => other.taskId ≠ e.taskId).find? id) := by
          apply kept_keepRows
          intro other hother _ hkeep
          have hid : other.taskId = e.taskId := by simpa using hkeep
          rw [tasks.eq_of_key_eq hother hmem hid]
          exact hterminal
        rcases hdropped with heq | ⟨f,hf,hend,hnone⟩
        · have hrest := ih (tasks.keepRows fun other => other.taskId ≠ e.taskId)
          rwa [heq] at hrest
        · have hrest := ih (tasks.keepRows fun other => other.taskId ≠ e.taskId)
          rw [hnone] at hrest
          rcases hrest with hrest | ⟨g,hg,-⟩
          · exact Or.inr ⟨f,hf,hend,hrest⟩
          · cases hg
    · exact Or.inl rfl

theorem kept_trim (tasks : Registry) (now : ℕ) (id : String) :
    Kept (tasks.find? id) ((trim tasks now).find? id) := by
  rcases kept_prune tasks now id with heq | ⟨e,he,hend,hnone⟩
  · rw [← heq]
    exact kept_evict ..
  · rcases kept_evict (prune tasks now).rows.length (prune tasks now) id with hrest | ⟨f,hf,-⟩
    · exact Or.inr ⟨e,he,hend,by rw [trim,hrest,hnone]⟩
    · rw [hnone] at hf
      cases hf

theorem length_prune (tasks : Registry) (now : ℕ) : (prune tasks now).rows.length ≤ tasks.rows.length :=
  List.length_filter_le ..

theorem length_evict (fuel : ℕ) (tasks : Registry) : (evict fuel tasks).rows.length ≤ tasks.rows.length := by
  induction fuel generalizing tasks with
  | zero => exact Nat.le_refl _
  | succ fuel ih =>
    rw [evict]
    split
    · split
      · exact Nat.le_refl _
      · exact Nat.le_trans (ih _) (List.length_filter_le ..)
    · exact Nat.le_refl _

theorem length_trim (tasks : Registry) (now : ℕ) : (trim tasks now).rows.length ≤ tasks.rows.length :=
  Nat.le_trans (length_evict ..) (length_prune ..)

end Registry

/-! ## One task -/

/-- The session is in the hands of its worker alone. -/
def inHand : Phase → Bool
  | .attaching | .refusing | .closing _ => true
  | _ => false

/-- What an action must not do: a timeout or an abort that takes a session out of the hands of its worker, and a command
that begins when its task does not run any more. -/
def Careful (s : State) : Action → Prop
  | .timeout id => ∀ w, (s.side id).worker = some w → w.phase ≠ .attaching ∧ w.phase ≠ .refusing
  | .strike id => ∀ w, (s.side id).worker = some w → inHand w.phase = false
  | .openChannel id (.ok _) => ∃ e, s.entry id = some e ∧ e.record.status = .running
  | _ => True

/-- Everything that one action can do to one task, from its entry and its side to the next ones. -/
inductive TaskStep (careful : Prop) : Option McpTaskEntry → Side → Option McpTaskEntry → Side → Prop
  | same (e : Option McpTaskEntry) (side : Side) : TaskStep careful e side e side
  | evicted {e : McpTaskEntry} (side : Side) (h : isTerminalTaskStatus e.record.status = true) :
    TaskStep careful (some e) side none side
  | started {e : Option McpTaskEntry} {side : Side} {record : McpTaskRecord} {w : Worker}
    (hnone : side.worker = none) (hstatus : record.status = .queued) (hstartedAt : record.startedAtMs = none)
    (hfinishedAt : record.finishedAtMs = none) (hresult : record.result = none) (herror : record.error = none)
    (hphase : w.phase = .marking) (habort : w.abortRequested = false) :
    TaskStep careful e side (some ⟨record,true,false⟩) { Side.none with worker := some w }
  | scheduled {side : Side} {w : Worker} (e : Option McpTaskEntry) (hw : side.worker = some w) (polled : Bool) :
    TaskStep careful e side e { side with worker := some { w with polled } }
  | struck {side : Side} {w : Worker} (e : Option McpTaskEntry) (hw : side.worker = some w)
    (habort : w.abortRequested = true) (hcareful : careful → inHand w.phase = false) :
    TaskStep careful e side e { side with worker := some { w with phase := .ended } }
  | marked {e : McpTaskEntry} {side : Side} {w : Worker} (hw : side.worker = some w) (hphase : w.phase = .marking)
    (hstatus : e.record.status = .queued) (now started : ℕ) :
    TaskStep careful (some e) side (some { e with record := markedRecord e.record now })
      { side with worker := some { w with started, phase := .connecting } }
  | unmarked {e : Option McpTaskEntry} {side : Side} {w : Worker} (hw : side.worker = some w)
    (hphase : w.phase = .marking) : TaskStep careful e side e { side with worker := some { w with phase := .ended } }
  | connected {side : Side} {w : Worker} (e : Option McpTaskEntry) (hw : side.worker = some w)
    (hphase : w.phase = .connecting) :
    TaskStep careful e side e { side with
      worker := some { w with phase := .attaching }
      opened := true }
  | stopped {side : Side} {w : Worker} (e : Option McpTaskEntry) (hw : side.worker = some w)
    (hphase : w.phase = .connecting ∨ w.phase = .opening ∨ w.phase = .executing) (outcome : Outcome) :
    TaskStep careful e side e { side with worker := some { w with phase := .taking outcome } }
  | timedOut {side : Side} {w : Worker} (e : Option McpTaskEntry) (hw : side.worker = some w)
    (hcareful : careful → w.phase ≠ .attaching ∧ w.phase ≠ .refusing) (htimed : timed w.phase = true) :
    TaskStep careful e side e { side with worker := some { w with phase := .taking .timedOut } }
  | attached {e : McpTaskEntry} {side : Side} {w : Worker} (hw : side.worker = some w) (hphase : w.phase = .attaching)
    (hstatus : e.record.status = .running) :
    TaskStep careful (some e) side (some { e with session := true })
      { side with worker := some { w with phase := .opening } }
  | unattached {side : Side} {w : Worker} (e : Option McpTaskEntry) (hw : side.worker = some w)
    (hphase : w.phase = .attaching) : TaskStep careful e side e { side with worker := some { w with phase := .refusing }
      }
  | refused {side : Side} {w : Worker} (e : Option McpTaskEntry) (hw : side.worker = some w)
    (hphase : w.phase = .refusing) (outcome : Outcome) :
    TaskStep careful e side e { side with
      worker := some { w with phase := .taking outcome }
      closed := side.closed + 1 }
  | commandStarted {e : Option McpTaskEntry} {side : Side} {w : Worker} (hw : side.worker = some w)
    (hphase : w.phase = .opening) (hcareful : careful → ∃ x, e = some x ∧ x.record.status = .running) :
    TaskStep careful e side e { side with
      worker := some { w with phase := .executing }
      history := .commandStarted :: side.history }
  | taken {e : McpTaskEntry} {side : Side} {w : Worker} {outcome : Outcome} (hw : side.worker = some w)
    (hphase : w.phase = .taking outcome) (hsession : e.session = true) :
    TaskStep careful (some e) side (some { e with session := false })
      { side with worker := some { w with phase := .closing outcome } }
  | nothingTaken {e : Option McpTaskEntry} {side : Side} {w : Worker} {outcome : Outcome} (hw : side.worker = some w)
    (hphase : w.phase = .taking outcome) (hsession : ∀ x, e = some x → x.session = false) :
    TaskStep careful e side e { side with worker := some { w with phase := .finishing outcome } }
  | closed {side : Side} {w : Worker} {outcome : Outcome} (e : Option McpTaskEntry) (hw : side.worker = some w)
    (hphase : w.phase = .closing outcome) :
    TaskStep careful e side e { side with
      worker := some { w with phase := .finishing outcome }
      closed := side.closed + 1 }
  | finished {side : Side} {w : Worker} {outcome : Outcome} (e : Option McpTaskEntry) (hw : side.worker = some w)
    (hphase : w.phase = .finishing outcome) (now finished : ℕ) :
    TaskStep careful e side (e.map (finishedEntry w outcome now finished))
      { side with worker := some { w with phase := .ended } }
  | cancelled {e : McpTaskEntry} (side : Side) (h : isTerminalTaskStatus e.record.status = false) (now : ℕ) :
    TaskStep careful (some e) side (some ⟨cancelledRecord e.record now,false,false⟩)
      { side with cancelling := some ⟨e.abortHandle,e.session⟩ }
  | cancelledBefore {e : McpTaskEntry} (side : Side) (h : e.record.status = .cancelled) :
    TaskStep careful (some e) side (some e) { side with history := .cancelReturned :: side.history }
  | aborted {side : Side} {taken : Taken} (e : Option McpTaskEntry) (h : side.cancelling = some taken) :
    TaskStep careful e side e (abortTaken side taken)
  | closerDone {side : Side} (e : Option McpTaskEntry) (h : 0 < side.closers) :
    TaskStep careful e side e { side with
      closers := side.closers - 1
      closed := side.closed + 1 }

namespace State

@[simp] theorem entry_update (s : State) (id : String) (side : Side) (other : String) :
    (s.update id side).entry other = s.entry other := rfl

theorem side_update (s : State) (id : String) (side : Side) (other : String) :
    (s.update id side).side other = if other = id then side else s.side other :=
  Function.update_apply ..

theorem entry_modify (s : State) (id : String) (f : McpTaskEntry → McpTaskEntry) (hf : ∀ e, (f e).taskId = e.taskId)
    (other : String) : entry { s with tasks := Registry.modify s.tasks id f hf } other =
      if other = id then (s.entry other).map f else s.entry other :=
  Registry.find?_modify s.tasks id f hf other

theorem entry_put (s : State) (tasks : Registry) (e : McpTaskEntry) (other : String) :
    entry { s with tasks := tasks.put e } other = if other = e.taskId then some e else tasks.find? other :=
  Table.find?_put tasks e other

variable {s : State} {id : String}

theorem act_eq_some {s' : State} {f : Worker → Option State} (h : s.act id f = some s') :
    ∃ w, (s.side id).worker = some w ∧ f w = some s' := by
  unfold act at h
  cases hw : (s.side id).worker with
  | none => simp [hw] at h
  | some w =>
    simp only [hw] at h
    split at h
    · exact ⟨w,rfl,h⟩
    · cases h

variable {careful : Prop}

/-- Everything that one action can do to the tasks: a step on the side of one of them, which may change its entry, or
what the registry gives up, and the start of a task after it. -/
inductive Stepped (careful : Prop) (s : State) : State → Prop
  | side {id : String} {side : Side} (h : TaskStep careful (s.entry id) (s.side id) (s.entry id) side) :
    Stepped careful s (s.update id side)
  | entry {id : String} {f : McpTaskEntry → McpTaskEntry} {hf : ∀ e, (f e).taskId = e.taskId} {side : Side}
    (h : TaskStep careful (s.entry id) (s.side id) ((s.entry id).map f) side) :
    Stepped careful s (update { s with tasks := Registry.modify s.tasks id f hf } id side)
  | kept {tasks : Registry} (h : ∀ id, Registry.Kept (s.entry id) (tasks.find? id))
    (hlength : tasks.rows.length ≤ s.tasks.rows.length) : Stepped careful s { s with tasks }
  | start {tasks : Registry} {e : McpTaskEntry} {side : Side} (h : ∀ id, Registry.Kept (s.entry id) (tasks.find? id))
    (hlength : tasks.rows.length < maxCommandTasks)
    (hstep : TaskStep careful (s.entry e.taskId) (s.side e.taskId) (some e) side) :
    Stepped careful s (update { s with tasks := tasks.put e } e.taskId side)

/-- What the registry gives up is nothing but entries at their end. -/
theorem taskStep_kept {tasks : Registry} (h : ∀ id, Registry.Kept (s.entry id) (tasks.find? id)) (id : String) :
    TaskStep careful (s.entry id) (s.side id) (entry { s with tasks } id) (s.side id) := by
  rcases h id with heq | ⟨e,he,hend,hnone⟩
  · change TaskStep careful _ _ (tasks.find? id) _
    rw [heq]
    exact .same ..
  · change TaskStep careful _ _ (tasks.find? id) _
    rw [he,hnone]
    exact .evicted _ hend

/-- A step on one task leaves the others as they are. -/
theorem Stepped.taskStep {s' : State} (h : Stepped careful s s') (other : String) :
    TaskStep careful (s.entry other) (s.side other) (s'.entry other) (s'.side other) := by
  cases h with
  | @side id side h =>
    rw [side_update]
    by_cases hid : other = id
    · rw [if_pos hid,hid]
      exact h
    · rw [if_neg hid]
      exact .same ..
  | @entry id f hf side h =>
    rw [entry_update,entry_modify,side_update]
    by_cases hid : other = id
    · rw [if_pos hid,if_pos hid,hid]
      exact h
    · rw [if_neg hid,if_neg hid]
      exact .same ..
  | kept h => exact taskStep_kept h other
  | @start tasks e side h _ hstep =>
    rw [entry_update,entry_put,side_update]
    by_cases hid : other = e.taskId
    · rw [if_pos hid,if_pos hid,hid]
      exact hstep
    · rw [if_neg hid,if_neg hid]
      exact taskStep_kept h other

theorem length_put (tasks : Registry) (e : McpTaskEntry) : (tasks.put e).rows.length ≤ tasks.rows.length + 1 := by
  rw [Table.put]
  split
  · simp [Table.mapRows]
  · simp

theorem Stepped.length_le {s' : State} (h : Stepped careful s s') (hlimit : s.tasks.rows.length ≤ maxCommandTasks) :
    s'.tasks.rows.length ≤ maxCommandTasks := by
  cases h with
  | side => exact hlimit
  | entry => exact (List.length_map _).trans_le hlimit
  | kept _ hlength => exact hlength.trans hlimit
  | start _ hlength => exact (length_put ..).trans hlength

theorem stepped_start (hfree : (s.side id).worker = none) (connectionId command : String) (timeoutSeconds : ℕ)
    (maxOutputBytes : Option ℕ) (createdAt now : ℕ) :
    Stepped careful s (s.startCommandTask id connectionId command timeoutSeconds maxOutputBytes createdAt now).2 := by
  have hkept : ∀ id, Registry.Kept (s.entry id) ((Registry.trim s.tasks now).find? id) :=
    Registry.kept_trim s.tasks now
  rw [startCommandTask]
  split
  · exact .kept hkept (Registry.length_trim ..)
  · rename_i hroom
    exact .start hkept (Nat.not_le.mp hroom) (.started hfree rfl rfl rfl rfl rfl rfl rfl)

theorem stepped_cancel (s : State) (taskId : String) (now : ℕ) :
    Stepped careful s (s.cancelCommandTask taskId now).2 := by
  rw [cancelCommandTask]
  cases hentry : s.entry (Text.trim taskId) with
  | none => exact .kept (fun _ => .inl rfl) (Nat.le_refl _)
  | some e =>
    by_cases hend : isTerminalTaskStatus e.record.status = true
    · simp only [if_pos hend]
      split
      · apply Stepped.side
        rw [hentry]
        exact .cancelledBefore _ (by assumption)
      · exact .kept (fun _ => .inl rfl) (Nat.le_refl _)
    · simp only [if_neg hend]
      apply Stepped.entry
      rw [hentry]
      exact .cancelled _ (eq_false_of_ne_true hend) now

variable {w : Worker}

theorem stepped_mark (hw : (s.side id).worker = some w) (hphase : w.phase = .marking) (now started : ℕ) :
    Stepped careful s (s.markCommandTaskRunning id w now started) := by
  rw [markCommandTaskRunning]
  cases hentry : s.entry id with
  | none => exact .side (.unmarked hw hphase)
  | some e =>
    by_cases hstatus : e.record.status = .queued
    · simp only [if_pos hstatus]
      apply Stepped.entry
      rw [hentry]
      exact .marked hw hphase hstatus now started
    · simp only [if_neg hstatus]
      exact .side (.unmarked hw hphase)

theorem stepped_attach (hw : (s.side id).worker = some w) (hphase : w.phase = .attaching) :
    Stepped careful s (s.attachCommandTaskSession id w) := by
  rw [attachCommandTaskSession]
  cases hentry : s.entry id with
  | none => exact .side (.unattached _ hw hphase)
  | some e =>
    by_cases hstatus : e.record.status = .running
    · simp only [if_pos hstatus]
      apply Stepped.entry
      rw [hentry]
      exact .attached hw hphase hstatus
    · simp only [if_neg hstatus]
      exact .side (.unattached _ hw hphase)

theorem stepped_take {outcome : Outcome} (hw : (s.side id).worker = some w) (hphase : w.phase = .taking outcome) :
    Stepped careful s (s.takeSession id w outcome) := by
  rw [takeSession]
  cases hentry : s.entry id with
  | none => exact .side (.nothingTaken hw hphase (by simp [hentry]))
  | some e =>
    by_cases hsession : e.session = true
    · simp only [if_pos hsession]
      apply Stepped.entry
      rw [hentry]
      exact .taken hw hphase hsession
    · simp only [if_neg hsession]
      have hnothing : ∀ x, s.entry id = some x → x.session = false := by
        intro x hx
        rw [← Option.some.inj (hentry.symm.trans hx)]
        exact eq_false_of_ne_true hsession
      exact .side (.nothingTaken hw hphase hnothing)

theorem stepped_of_step {s' : State} {a : Action} (h : step s a = some s') : Stepped (Careful s a) s s' := by
  cases a with
  | start new connectionId command timeoutSeconds maxOutputBytes createdAt now =>
    rw [step] at h
    split at h
    · cases h
    · rename_i hfree
      cases h
      exact stepped_start (by simpa using hfree) ..
  | wake own =>
    rw [step] at h
    split at h
    · rename_i w hw
      split at h
      · cases h
      · cases h
        exact .side (.scheduled _ hw true)
    · cases h
  | park own =>
    obtain ⟨w,hw,h⟩ := act_eq_some h
    cases h
    exact .side (.scheduled _ hw false)
  | strike own =>
    rw [step] at h
    split at h
    · rename_i w hw
      split at h
      · rename_i habort
        cases h
        rw [Bool.and_eq_true] at habort
        exact .side (.struck _ hw habort.2 fun hcareful => hcareful w hw)
      · cases h
    · cases h
  | mark own now started =>
    obtain ⟨w,hw,h⟩ := act_eq_some h
    split at h
    · rename_i hphase
      cases h
      exact stepped_mark hw hphase now started
    · cases h
  | connect own result =>
    obtain ⟨w,hw,hact⟩ := act_eq_some h
    split at hact
    · rename_i hphase
      cases hact
      exact .side (.connected _ hw hphase)
    · rename_i hphase
      cases hact
      exact .side (.stopped _ hw (Or.inl hphase) _)
    · cases hact
  | attach own =>
    obtain ⟨w,hw,h⟩ := act_eq_some h
    split at h
    · rename_i hphase
      cases h
      exact stepped_attach hw hphase
    · cases h
  | refused own =>
    obtain ⟨w,hw,h⟩ := act_eq_some h
    split at h
    · rename_i hphase
      cases h
      exact .side (.refused _ hw hphase _)
    · cases h
  | openChannel own result =>
    obtain ⟨w,hw,hact⟩ := act_eq_some h
    split at hact
    · rename_i hphase
      cases hact
      exact .side (.commandStarted hw hphase fun hcareful => hcareful)
    · rename_i hphase
      cases hact
      exact .side (.stopped _ hw (Or.inr (Or.inl hphase)) _)
    · cases hact
  | exec own result =>
    obtain ⟨w,hw,hact⟩ := act_eq_some h
    split at hact
    · rename_i hphase
      cases hact
      exact .side (.stopped _ hw (Or.inr (Or.inr hphase)) _)
    · rename_i hphase
      cases hact
      exact .side (.stopped _ hw (Or.inr (Or.inr hphase)) _)
    · cases hact
  | timeout own =>
    obtain ⟨w,hw,h⟩ := act_eq_some h
    split at h
    · rename_i htimed
      cases h
      exact .side (.timedOut _ hw (fun hcareful => hcareful w hw) htimed)
    · cases h
  | take own =>
    obtain ⟨w,hw,h⟩ := act_eq_some h
    split at h
    · rename_i hphase
      cases h
      exact stepped_take hw hphase
    · cases h
  | close own =>
    obtain ⟨w,hw,h⟩ := act_eq_some h
    split at h
    · rename_i hphase
      cases h
      exact .side (.closed _ hw hphase)
    · cases h
  | finish own now finished =>
    obtain ⟨w,hw,h⟩ := act_eq_some h
    split at h
    · rename_i hphase
      cases h
      exact .entry (.finished _ hw hphase now finished)
    · cases h
  | get taskId now =>
    cases h
    rw [getCommandTask]
    split <;> exact .kept (Registry.kept_prune s.tasks now) (Registry.length_prune ..)
  | cancel taskId now =>
    cases h
    exact stepped_cancel s taskId now
  | abort own =>
    rw [step] at h
    split at h
    · rename_i taken htaken
      cases h
      exact .side (.aborted _ htaken)
    · cases h
  | closer own =>
    rw [step] at h
    split at h
    · rename_i hpos
      cases h
      exact .side (.closerDone _ hpos)
    · cases h

end State

/-! ## What holds of one task -/

/-- A record has the times of what has happened, and a result or an error exactly when its status says so. -/
def McpTaskRecord.Matches (r : McpTaskRecord) : Prop :=
  match r.status with
  | .queued => r.startedAtMs = none ∧ r.finishedAtMs = none ∧ r.result = none ∧ r.error = none
  | .running => r.startedAtMs.isSome ∧ r.finishedAtMs = none ∧ r.result = none ∧ r.error = none
  | .succeeded => r.startedAtMs.isSome ∧ r.finishedAtMs.isSome ∧ r.result.isSome ∧ r.error = none
  | .failed | .timedOut => r.startedAtMs.isSome ∧ r.finishedAtMs.isSome ∧ r.result = none ∧ r.error.isSome
  | .cancelled => r.finishedAtMs.isSome ∧ r.result = none ∧ r.error = none

/-- No command starts after a cancel of its task has returned. -/
def Ordered : List Event → Prop
  | [] => True
  | .commandStarted :: before => .cancelReturned ∉ before ∧ Ordered before
  | .cancelReturned :: before => Ordered before

def Phase.early : Phase → Bool
  | .marking | .connecting => true
  | _ => false

/-- The phases in which the registry holds the session as well. -/
def Phase.attached : Phase → Bool
  | .opening | .executing | .taking _ => true
  | _ => false

namespace Side

def inHand (side : Side) : ℕ := (side.worker.map fun w => (CommandTasks.inHand w.phase).toNat).getD 0

/-- How often the session is closed: by a close that is through, by one that has a task of its own, which nothing
aborts, or by one that a cancel is about to hand over. -/
def released (side : Side) : ℕ := side.closed + side.closers + (side.cancelling.map (·.session.toNat)).getD 0

end Side

def sessions (e : Option McpTaskEntry) : ℕ := (e.map (·.session.toNat)).getD 0

structure Sound (e : Option McpTaskEntry) (side : Side) : Prop where
  free : side.worker = none → e = none ∧ side = Side.none
  matching : ∀ x, e = some x → x.record.Matches
  running : ∀ x, e = some x → x.session = true → x.record.status = .running
  attached : ∀ x w, e = some x → x.session = true → side.worker = some w → w.phase.attached = true
  aborting : ∀ x w, e = some x → side.worker = some w → w.abortRequested = true → x.record.status = .cancelled
  cancelling : ∀ x taken, e = some x → side.cancelling = some taken → x.record.status = .cancelled
  returned : ∀ x, e = some x → .cancelReturned ∈ side.history → x.record.status = .cancelled
  early : ∀ w, side.worker = some w → w.phase.early = true → side.opened = false
  balance : side.inHand + sessions e + side.released = side.opened.toNat
  ordered : Ordered side.history

theorem inHand_phases : inHand .marking = false ∧ inHand .connecting = false ∧ inHand .opening = false ∧
    inHand .executing = false ∧ inHand .ended = false ∧ inHand .attaching = true ∧ inHand .refusing = true ∧
    (∀ outcome, inHand (.taking outcome) = false) ∧ (∀ outcome, inHand (.finishing outcome) = false) ∧
    ∀ outcome, inHand (.closing outcome) = true :=
  ⟨rfl,rfl,rfl,rfl,rfl,rfl,rfl,fun _ => rfl,fun _ => rfl,fun _ => rfl⟩

theorem Sound.unborn : Sound none Side.none := by
  constructor <;> simp [Side.none,Side.inHand,Side.released,sessions,Ordered]

variable {r : McpTaskRecord}

theorem McpTaskRecord.Matches.marked (h : r.Matches) (hstatus : r.status = .queued) (now : ℕ) :
    (markedRecord r now).Matches := by
  rw [McpTaskRecord.Matches,hstatus] at h
  exact ⟨rfl,h.2.1,h.2.2.1,h.2.2.2⟩

theorem McpTaskRecord.Matches.finished (h : r.Matches) (hstatus : r.status = .running) (w : Worker)
    (outcome : Outcome) (now finished : ℕ) : (finishedRecord r w outcome now finished).Matches := by
  rw [McpTaskRecord.Matches,hstatus] at h
  obtain ⟨hstarted,-,hresult,herror⟩ := h
  cases outcome with
  | output output => exact ⟨hstarted,rfl,rfl,herror⟩
  | timedOut => exact ⟨hstarted,rfl,hresult,rfl⟩
  | failed error =>
    by_cases hcode : error.code = "mcp_command_timeout" <;>
      simp [finishedRecord,McpTaskRecord.Matches,hcode,hstarted,hresult]

theorem McpTaskRecord.Matches.cancelled (h : r.Matches) (hend : isTerminalTaskStatus r.status = false) (now : ℕ) :
    (cancelledRecord r now).Matches := by
  rw [McpTaskRecord.Matches] at h
  cases hstatus : r.status with
  | queued =>
    rw [hstatus] at h
    exact ⟨rfl,h.2.2⟩
  | running =>
    rw [hstatus] at h
    exact ⟨rfl,h.2.2⟩
  | succeeded => simp [hstatus,isTerminalTaskStatus] at hend
  | failed => simp [hstatus,isTerminalTaskStatus] at hend
  | timedOut => simp [hstatus,isTerminalTaskStatus] at hend
  | cancelled => simp [hstatus,isTerminalTaskStatus] at hend

variable {e e' : Option McpTaskEntry} {side side' : Side} {w w' : Worker}

/-- The worker goes on: what is asked of the entry, the session and the history then. -/
theorem Sound.change (hs : Sound e side) (hw : side.worker = some w) (hw' : side'.worker = some w')
    (habort : w'.abortRequested = w.abortRequested) (hcancelling : side'.cancelling = side.cancelling)
    (hreturned : .cancelReturned ∈ side'.history → .cancelReturned ∈ side.history)
    (hentry : ∀ x', e' = some x' → ∃ x, e = some x ∧ (x.record.status = .cancelled → x'.record.status = .cancelled))
    (hmatching : ∀ x', e' = some x' → x'.record.Matches)
    (hsession : ∀ x', e' = some x' → x'.session = true → x'.record.status = .running ∧ w'.phase.attached = true)
    (hearly : w'.phase.early = true → side'.opened = false)
    (hbalance : side'.inHand + sessions e' + side'.released = side'.opened.toNat) (hordered : Ordered side'.history) :
    Sound e' side' where
  free h := by
    rw [hw'] at h
    cases h
  matching := hmatching
  running x hx h := (hsession x hx h).1
  attached x v hx h hv := by
    cases hw'.symm.trans hv
    exact (hsession x hx h).2
  aborting x v hx hv h := by
    cases hw'.symm.trans hv
    obtain ⟨y,hy,hkeeps⟩ := hentry x hx
    exact hkeeps (hs.aborting y w hy hw (habort ▸ h))
  cancelling x taken hx h := by
    obtain ⟨y,hy,hkeeps⟩ := hentry x hx
    exact hkeeps (hs.cancelling y taken hy (hcancelling ▸ h))
  returned x hx h := by
    obtain ⟨y,hy,hkeeps⟩ := hentry x hx
    exact hkeeps (hs.returned y hy (hreturned h))
  early v hv h := by
    cases hw'.symm.trans hv
    exact hearly h
  balance := hbalance
  ordered := hordered

/-- The worker goes on and the entry stays: what is asked of the session and the history then. -/
theorem Sound.pass (hs : Sound e side) (hw : side.worker = some w) (hw' : side'.worker = some w')
    (habort : w'.abortRequested = w.abortRequested) (hcancelling : side'.cancelling = side.cancelling)
    (hreturned : .cancelReturned ∈ side'.history → .cancelReturned ∈ side.history)
    (hattached : ∀ x, e = some x → x.session = true → w'.phase.attached = true)
    (hearly : w'.phase.early = true → side'.opened = false)
    (hbalance : side'.inHand + sessions e + side'.released = side'.opened.toNat) (hordered : Ordered side'.history) :
    Sound e side' := by
  apply Sound.change hs hw hw' habort hcancelling hreturned
  · exact fun x hx => ⟨x,hx,id⟩
  · exact hs.matching
  · exact fun x hx h => ⟨hs.running x hx h,hattached x hx h⟩
  · exact hearly
  · exact hbalance
  · exact hordered

/-- The worker goes on while nothing else changes. -/
theorem Sound.move (hs : Sound e side) (hw : side.worker = some w) (habort : w'.abortRequested = w.abortRequested)
    (hattached : ∀ x, e = some x → x.session = true → w'.phase.attached = true)
    (hearly : w'.phase.early = true → side.opened = false) (hhand : inHand w'.phase = inHand w.phase) :
    Sound e { side with worker := some w' } := by
  have hbalance := hs.balance
  apply Sound.pass hs hw
  · rfl
  · exact habort
  · rfl
  · exact id
  · exact hattached
  · exact hearly
  · simp only [Side.inHand,Side.released,hw,Option.map_some,Option.getD_some] at hbalance ⊢
    rw [hhand]
    exact hbalance
  · exact hs.ordered

/-- In the phases that the registry does not know of, it holds no session. -/
theorem Sound.no_session (hs : Sound e side) (hw : side.worker = some w) (hphase : w.phase.attached = false)
    {x : McpTaskEntry} (hx : e = some x) : x.session = false := by
  cases hsession : x.session with
  | false => rfl
  | true =>
    have hattached := hs.attached x w hx hsession hw
    rw [hphase] at hattached
    cases hattached

theorem Sound.evicted {e : McpTaskEntry} (hs : Sound (some e) side)
    (hend : isTerminalTaskStatus e.record.status = true) : Sound none side := by
  have hsession : e.session = false := by
    cases hsession : e.session with
    | false => rfl
    | true =>
      rw [hs.running e rfl hsession] at hend
      cases hend
  have hbalance := hs.balance
  constructor
  case free => exact fun hnone => ⟨rfl,(hs.free hnone).2⟩
  case balance => simpa [sessions,hsession] using hbalance
  case early => exact hs.early
  case ordered => exact hs.ordered
  all_goals
    intros
    contradiction

theorem Sound.cancelled {e : McpTaskEntry} (hs : Sound (some e) side)
    (hend : isTerminalTaskStatus e.record.status = false) (now : ℕ) :
    Sound (some ⟨cancelledRecord e.record now,false,false⟩)
      { side with cancelling := some ⟨e.abortHandle,e.session⟩ } := by
  have hmatches := (hs.matching e rfl).cancelled hend now
  have hnone : side.cancelling = Option.none := by
    cases htaken : side.cancelling with
    | none => rfl
    | some taken =>
      rw [hs.cancelling e taken rfl htaken] at hend
      cases hend
  have hbalance := hs.balance
  constructor
  case free =>
    intro h
    cases (hs.free h).1
  case matching =>
    intro x hx
    cases hx
    exact hmatches
  case early => exact hs.early
  case ordered => exact hs.ordered
  case balance =>
    -- the session goes from the registry to the cancel
    simp only [Side.inHand,Side.released,sessions,hnone,Option.map_some,Option.map_none,Option.getD_some,
      Option.getD_none] at hbalance ⊢
    simp only [Bool.toNat_false]
    omega
  case running =>
    intro x hx hsession
    cases hx
    cases hsession
  case attached =>
    intro x w hx hsession
    cases hx
    cases hsession
  case aborting =>
    intro x w hx _ _
    cases hx
    rfl
  case cancelling =>
    intro x taken hx _
    cases hx
    rfl
  case returned =>
    intro x hx _
    cases hx
    rfl

theorem Sound.cancelledBefore {e : McpTaskEntry} (hs : Sound (some e) side)
    (hcancelled : e.record.status = .cancelled) :
    Sound (some e) { side with history := .cancelReturned :: side.history } where
  free h := by cases (hs.free h).1
  matching := hs.matching
  running := hs.running
  attached := hs.attached
  aborting := hs.aborting
  cancelling := hs.cancelling
  returned x hx _ := by
    cases hx
    exact hcancelled
  early := hs.early
  balance := hs.balance
  ordered := hs.ordered

theorem Sound.aborted (hs : Sound e side) {taken : Taken} (htaken : side.cancelling = some taken) :
    Sound e (abortTaken side taken) := by
  have hcancelled : ∀ x, e = some x → x.record.status = .cancelled := fun x hx => hs.cancelling x taken hx htaken
  have hbalance := hs.balance
  cases hw : side.worker with
  | none =>
    rw [(hs.free hw).2] at htaken
    cases htaken
  | some w =>
    constructor
    case free => exact fun h => by simp [abortTaken,hw] at h
    case matching => exact hs.matching
    case running => exact hs.running
    case attached =>
      intro x v hx hsession hv
      have hrunning := hs.running x hx hsession
      rw [hcancelled x hx] at hrunning
      cases hrunning
    case aborting => exact fun x _ hx _ _ => hcancelled x hx
    case cancelling => exact fun x _ hx _ => hcancelled x hx
    case returned => exact fun x hx _ => hcancelled x hx
    case early =>
      intro v hv
      simp only [abortTaken,hw,Option.map_some,Option.some.injEq] at hv
      rw [← hv]
      exact hs.early w hw
    case balance =>
      -- the session goes from the cancel to a task of its own
      simp only [abortTaken,Side.inHand,Side.released,htaken,hw,Option.map_some,Option.map_none,
        Option.getD_some,Option.getD_none] at hbalance ⊢
      omega
    case ordered => exact hs.ordered

theorem Sound.closerDone (hs : Sound e side) (hpos : 0 < side.closers) :
    Sound e { side with
      closers := side.closers - 1
      closed := side.closed + 1 } where
  free h := by
    rw [(hs.free h).2] at hpos
    cases hpos
  matching := hs.matching
  running := hs.running
  attached := hs.attached
  aborting := hs.aborting
  cancelling := hs.cancelling
  returned := hs.returned
  early := hs.early
  balance := by
    have hbalance := hs.balance
    simp only [Side.inHand,Side.released] at hbalance ⊢
    omega
  ordered := hs.ordered

/-! ## What the worker does -/

theorem Sound.marked {e : McpTaskEntry} (hs : Sound (some e) side) (hw : side.worker = some w)
    (hphase : w.phase = .marking) (hstatus : e.record.status = .queued) (now started : ℕ) :
    Sound (some { e with record := markedRecord e.record now })
      { side with worker := some { w with started, phase := .connecting } } := by
  have hopened := hs.early w hw (by rw [hphase]; rfl)
  have hsession := hs.no_session hw (by rw [hphase]; rfl) rfl
  have hmatches := (hs.matching e rfl).marked hstatus now
  have hbalance := hs.balance
  apply Sound.change hs hw
  · rfl
  · rfl
  · rfl
  · exact id
  · intro x hx
    exact ⟨e,rfl,fun h => by rw [hstatus] at h; cases h⟩
  · intro x hx
    cases hx
    exact hmatches
  · intro x hx h
    cases hx
    rw [hsession] at h
    cases h
  · exact fun _ => hopened
  · simpa [Side.inHand,Side.released,sessions,hw,hphase,inHand_phases] using hbalance
  · exact hs.ordered

theorem Sound.connected (hs : Sound e side) (hw : side.worker = some w) (hphase : w.phase = .connecting) :
    Sound e { side with
      worker := some { w with phase := .attaching }
      opened := true } := by
  have hopened := hs.early w hw (by rw [hphase]; rfl)
  have hbalance := hs.balance
  apply Sound.pass hs hw
  · rfl
  · rfl
  · rfl
  · exact id
  · intro x hx h
    rw [hs.no_session hw (by rw [hphase]; rfl) hx] at h
    cases h
  · exact (absurd · Bool.false_ne_true)
  · -- before, the session was nowhere
    rw [hopened] at hbalance
    simp only [Side.inHand,Side.released,hw,hphase,inHand_phases,Option.map_some,Option.getD_some] at hbalance ⊢
    omega
  · exact hs.ordered

theorem Sound.attach {e : McpTaskEntry} (hs : Sound (some e) side) (hw : side.worker = some w)
    (hphase : w.phase = .attaching) (hstatus : e.record.status = .running) :
    Sound (some { e with session := true }) { side with worker := some { w with phase := .opening } } := by
  have hsession := hs.no_session hw (by rw [hphase]; rfl) rfl
  have hbalance := hs.balance
  apply Sound.change hs hw
  · rfl
  · rfl
  · rfl
  · exact id
  · intro x hx
    cases hx
    exact ⟨e,rfl,id⟩
  · intro x hx
    cases hx
    exact hs.matching e rfl
  · intro x hx _
    cases hx
    exact ⟨hstatus,rfl⟩
  · exact (absurd · Bool.false_ne_true)
  · simpa [Side.inHand,Side.released,sessions,hw,hphase,inHand_phases,hsession] using hbalance
  · exact hs.ordered

theorem Sound.taken {e : McpTaskEntry} {outcome : Outcome} (hs : Sound (some e) side) (hw : side.worker = some w)
    (hphase : w.phase = .taking outcome) (hsession : e.session = true) :
    Sound (some { e with session := false }) { side with worker := some { w with phase := .closing outcome } } := by
  have hbalance := hs.balance
  apply Sound.change hs hw
  · rfl
  · rfl
  · rfl
  · exact id
  · intro x hx
    cases hx
    exact ⟨e,rfl,id⟩
  · intro x hx
    cases hx
    exact hs.matching e rfl
  · intro x hx h
    cases hx
    cases h
  · exact (absurd · Bool.false_ne_true)
  · simpa [Side.inHand,Side.released,sessions,hw,hphase,inHand_phases,hsession] using hbalance
  · exact hs.ordered

/-- A worker that has closed its session itself. -/
theorem Sound.closed (hs : Sound e side) (hw : side.worker = some w) (hhand : CommandTasks.inHand w.phase = true)
    (hattached : w.phase.attached = false) {phase : Phase} (hnext : CommandTasks.inHand phase = false)
    (hearly : phase.early = false) :
    Sound e { side with
      worker := some { w with phase }
      closed := side.closed + 1 } := by
  have hbalance := hs.balance
  apply Sound.pass hs hw
  · rfl
  · rfl
  · rfl
  · exact id
  · intro x hx h
    rw [hs.no_session hw hattached hx] at h
    cases h
  · exact fun h => absurd h (by simp [hearly])
  · simp only [Side.inHand,Side.released,hw,hhand,hnext,Option.map_some,Option.getD_some] at hbalance ⊢
    simp only [Bool.toNat_true,Bool.toNat_false] at hbalance ⊢
    omega
  · exact hs.ordered

theorem Sound.commandStarted (hs : Sound e side) (hw : side.worker = some w) (hphase : w.phase = .opening)
    (hrunning : ∃ x, e = some x ∧ x.record.status = .running) :
    Sound e { side with
      worker := some { w with phase := .executing }
      history := .commandStarted :: side.history } := by
  have hbalance := hs.balance
  apply Sound.pass hs hw
  · rfl
  · rfl
  · rfl
  · exact fun h => (List.mem_cons.mp h).resolve_left (by decide)
  · exact fun _ _ _ => rfl
  · exact (absurd · Bool.false_ne_true)
  · simpa [Side.inHand,Side.released,hw,hphase,inHand_phases] using hbalance
  · refine ⟨fun hreturned => ?_,hs.ordered⟩
    obtain ⟨x,hx,hstatus⟩ := hrunning
    rw [hs.returned x hx hreturned] at hstatus
    cases hstatus

theorem Sound.finished {outcome : Outcome} (hs : Sound e side) (hw : side.worker = some w)
    (hphase : w.phase = .finishing outcome) (now finished : ℕ) :
    Sound (e.map (finishedEntry w outcome now finished))
      { side with worker := some { w with phase := .ended } } := by
  have hbalance := hs.balance
  have hno : ∀ x, e = some x → x.session = false := fun x hx => hs.no_session hw (by rw [hphase]; rfl) hx
  apply Sound.change hs hw
  · rfl
  · rfl
  · rfl
  · exact id
  · intro x hx
    obtain ⟨y,hy,rfl⟩ := Option.map_eq_some_iff.mp hx
    refine ⟨y,hy,fun hcancelled => ?_⟩
    rw [finishedEntry,if_neg (by rw [hcancelled]; decide)]
    exact hcancelled
  · intro x hx
    obtain ⟨y,hy,rfl⟩ := Option.map_eq_some_iff.mp hx
    rw [finishedEntry]
    split
    · exact (hs.matching y hy).finished (by assumption) ..
    · exact hs.matching y hy
  · intro x hx h
    obtain ⟨y,hy,rfl⟩ := Option.map_eq_some_iff.mp hx
    rw [finishedEntry,hno y hy] at h
    cases h
  · exact (absurd · Bool.false_ne_true)
  · have hsessions : sessions (e.map (finishedEntry w outcome now finished)) = sessions e := by
      cases e <;> rfl
    rw [hsessions]
    simpa [Side.inHand,Side.released,hw,hphase,inHand_phases] using hbalance
  · exact hs.ordered

variable {careful : Prop}

theorem Sound.step (hcareful : careful) (hs : Sound e side) (h : TaskStep careful e side e' side') :
    Sound e' side' := by
  cases h with
  | same => exact hs
  | evicted _ hend => exact hs.evicted hend
  | started hnone hstatus hstartedAt hfinishedAt hresult herror hphase habort =>
    constructor <;> simp_all [McpTaskRecord.Matches,Side.none,Side.inHand,Side.released,sessions,Ordered,inHand]
  | scheduled _ hw polled =>
    rename_i w
    apply Sound.move hs hw
    · rfl
    · exact fun x hx hsession => hs.attached x w hx hsession hw
    · exact hs.early w hw
    · rfl
  | struck _ hw habort hhand =>
    apply Sound.move hs hw
    · rfl
    · intro x hx hsession
      have hcancelled := hs.aborting x _ hx hw habort
      rw [hs.running x hx hsession] at hcancelled
      cases hcancelled
    · exact (absurd · Bool.false_ne_true)
    · rw [hhand hcareful]
      rfl
  | marked hw hphase hstatus now started => exact hs.marked hw hphase hstatus now started
  | unmarked hw hphase =>
    apply Sound.move hs hw
    · rfl
    · intro x hx hsession
      rw [hs.no_session hw (by rw [hphase]; rfl) hx] at hsession
      cases hsession
    · exact (absurd · Bool.false_ne_true)
    · rw [hphase]
      rfl
  | connected _ hw hphase => exact hs.connected hw hphase
  | stopped _ hw hphase outcome =>
    apply Sound.move hs hw
    · rfl
    · exact fun _ _ _ => rfl
    · exact (absurd · Bool.false_ne_true)
    · rcases hphase with hphase | hphase | hphase <;> rw [hphase] <;> rfl
  | timedOut _ hw htimeout htimed =>
    apply Sound.move hs hw
    · rfl
    · exact fun _ _ _ => rfl
    · exact (absurd · Bool.false_ne_true)
    · rename_i w
      cases hphase : w.phase <;> simp_all [inHand,timed]
  | attached hw hphase hstatus => exact hs.attach hw hphase hstatus
  | unattached _ hw hphase =>
    apply Sound.move hs hw
    · rfl
    · intro x hx hsession
      rw [hs.no_session hw (by rw [hphase]; rfl) hx] at hsession
      cases hsession
    · exact (absurd · Bool.false_ne_true)
    · rw [hphase]
      rfl
  | refused _ hw hphase outcome => exact hs.closed hw (by rw [hphase]; rfl) (by rw [hphase]; rfl) rfl rfl
  | commandStarted hw hphase hrunning => exact hs.commandStarted hw hphase (hrunning hcareful)
  | taken hw hphase hsession => exact hs.taken hw hphase hsession
  | nothingTaken hw hphase hsession =>
    apply Sound.move hs hw
    · rfl
    · intro x hx htrue
      rw [hsession x hx] at htrue
      cases htrue
    · exact (absurd · Bool.false_ne_true)
    · rw [hphase]
      rfl
  | closed _ hw hphase => exact hs.closed hw (by rw [hphase]; rfl) (by rw [hphase]; rfl) rfl rfl
  | finished _ hw hphase now finished => exact hs.finished hw hphase now finished
  | cancelled _ hend now => exact hs.cancelled hend now
  | cancelledBefore _ hcancelled => exact hs.cancelledBefore hcancelled
  | aborted _ htaken => exact hs.aborted htaken
  | closerDone _ hpos => exact hs.closerDone hpos

/-! ## How a task moves -/

def TaskStatus.rank : TaskStatus → ℕ
  | .queued => 0
  | .running => 1
  | _ => 2

theorem TaskStatus.rank_le (status : TaskStatus) : status.rank ≤ 2 := by
  cases status <;> decide

/-- An entry moves on, and keeps its record once it has come to its end. -/
structure Moves (e f : McpTaskEntry) : Prop where
  rank : e.record.status.rank ≤ f.record.status.rank
  record : isTerminalTaskStatus e.record.status = true → f.record = e.record

/-- What is given up does not come back. -/
def Follows : Option McpTaskEntry → Option McpTaskEntry → Prop
  | none, after => after = none
  | some e, after => ∀ f, after = some f → Moves e f

theorem Follows.refl (e : Option McpTaskEntry) : Follows e e := by
  cases e with
  | none => rfl
  | some e =>
    intro f hf
    cases hf
    exact ⟨Nat.le_refl _,fun _ => rfl⟩

theorem Follows.trans {f g : Option McpTaskEntry} (hef : Follows e f) (hfg : Follows f g) : Follows e g := by
  cases e with
  | none =>
    subst hef
    exact hfg
  | some e =>
    intro y hy
    cases f with
    | none =>
      rw [hy] at hfg
      cases hfg
    | some x =>
      have hex := hef x rfl
      have hxy := hfg y hy
      constructor
      · exact Nat.le_trans hex.rank hxy.rank
      · intro hend
        have hrecord := hex.record hend
        rw [hxy.record (hrecord ▸ hend),hrecord]

/-- A record that is not at its end moves on, whatever is written into it but a lower status. -/
theorem follows_of_open {e f : McpTaskEntry} (hopen : isTerminalTaskStatus e.record.status = false)
    (hrank : e.record.status.rank ≤ f.record.status.rank) : Follows (some e) (some f) := by
  intro y hy
  cases hy
  exact ⟨hrank,fun hend => by rw [hopen] at hend; cases hend⟩

theorem follows_finished (w : Worker) (outcome : Outcome) (now finished : ℕ) (e : Option McpTaskEntry) :
    Follows e (e.map (finishedEntry w outcome now finished)) := by
  cases e with
  | none => rfl
  | some e =>
    by_cases hstatus : e.record.status = .running
    · apply follows_of_open (by rw [hstatus]; rfl)
      rw [finishedEntry,hstatus]
      cases outcome with
      | output output => exact Nat.le_succ 1
      | timedOut => exact Nat.le_succ 1
      | failed error =>
        rw [finishedRecord]
        by_cases hcode : error.code = "mcp_command_timeout" <;> simp [hcode,TaskStatus.rank]
    · intro f hf
      cases hf
      rw [finishedEntry,if_neg hstatus]
      exact ⟨Nat.le_refl _,fun _ => rfl⟩

/-- One step of a task that has a worker. -/
theorem TaskStep.follows (h : TaskStep careful e side e' side') (hworker : side.worker.isSome = true) :
    side'.worker.isSome = true ∧ Follows e e' := by
  cases h with
  | same => exact ⟨hworker,.refl _⟩
  | evicted => exact ⟨hworker,fun f hf => by cases hf⟩
  | started hnone =>
    rw [hnone] at hworker
    cases hworker
  | marked _ _ hstatus => exact ⟨rfl,follows_of_open (by rw [hstatus]; rfl) (by rw [hstatus]; exact Nat.zero_le _)⟩
  | attached => exact ⟨rfl,fun f hf => by cases hf; exact ⟨Nat.le_refl _,fun _ => rfl⟩⟩
  | taken => exact ⟨rfl,fun f hf => by cases hf; exact ⟨Nat.le_refl _,fun _ => rfl⟩⟩
  | finished => exact ⟨rfl,follows_finished ..⟩
  | cancelled _ hend =>
    exact ⟨hworker,follows_of_open hend (TaskStatus.rank_le _)⟩
  | cancelledBefore => exact ⟨hworker,.refl _⟩
  | aborted => exact ⟨by simpa [abortTaken] using hworker,.refl _⟩
  | closerDone => exact ⟨hworker,.refl _⟩
  | scheduled => exact ⟨rfl,.refl _⟩
  | struck => exact ⟨rfl,.refl _⟩
  | unmarked => exact ⟨rfl,.refl _⟩
  | connected => exact ⟨rfl,.refl _⟩
  | stopped => exact ⟨rfl,.refl _⟩
  | timedOut => exact ⟨rfl,.refl _⟩
  | unattached => exact ⟨rfl,.refl _⟩
  | refused => exact ⟨rfl,.refl _⟩
  | commandStarted => exact ⟨rfl,.refl _⟩
  | nothingTaken => exact ⟨rfl,.refl _⟩
  | closed => exact ⟨rfl,.refl _⟩

/-- Only an entry at its end is given up. -/
theorem TaskStep.terminal_of_none {e : McpTaskEntry} (h : TaskStep careful (some e) side e' side')
    (hnone : e' = none) : isTerminalTaskStatus e.record.status = true := by
  cases h <;> first | assumption | cases hnone

variable {s s' : State}

theorem follows_run {actions : List Action} (h : run step s actions = some s') {id : String}
    (hworker : (s.side id).worker.isSome = true) : Follows (s.entry id) (s'.entry id) := by
  induction actions generalizing s with
  | nil =>
    cases h
    exact .refl _
  | cons a actions ih =>
    obtain ⟨t,ht,hrest⟩ := Option.bind_eq_some_iff.mp h
    have hstep := ((stepped_of_step ht).taskStep id).follows hworker
    exact hstep.2.trans (ih hrest hstep.1)

/-! ## Every run -/

/-- What is promised of the tasks in a state: the limit, the records, what comes later, and where the sessions are. -/
structure LifeCycle (s : State) : Prop where
  limit : s.tasks.rows.length ≤ maxCommandTasks
  matching : ∀ e ∈ s.tasks, e.record.Matches
  moves : ∀ actions s', run step s actions = some s' →
    ∀ e ∈ s.tasks, ∀ f, s'.entry e.taskId = some f → Moves e f
  evicted : ∀ a s', step s a = some s' →
    ∀ e ∈ s.tasks, s'.entry e.taskId = none → isTerminalTaskStatus e.record.status = true
  ordered : ∀ id, Ordered (s.side id).history
  closedOnce : ∀ id, (s.side id).released ≤ 1
  closedInTheEnd : ∀ id w, (s.side id).worker = some w → w.phase = .ended → (s.side id).opened = true →
    (∀ e, s.entry id = some e → isTerminalTaskStatus e.record.status = true) → (s.side id).released = 1

theorem Sound.closedOnce (h : Sound e side) : side.released ≤ 1 := by
  have hbalance := h.balance
  have hopened := Bool.toNat_le side.opened
  omega

theorem Sound.closedInTheEnd (h : Sound e side) (hw : side.worker = some w) (hphase : w.phase = .ended)
    (hopened : side.opened = true) (hend : ∀ x, e = some x → isTerminalTaskStatus x.record.status = true) :
    side.released = 1 := by
  have hhand : side.inHand = 0 := by simp [Side.inHand,hw,hphase,inHand_phases]
  have hsessions : sessions e = 0 := by
    cases e with
    | none => rfl
    | some x =>
      cases hsession : x.session with
      | false => simp [sessions,hsession]
      | true =>
        have hterminal := hend x rfl
        rw [h.running x rfl hsession] at hterminal
        cases hterminal
  have hbalance := h.balance
  rw [hhand,hsessions,hopened] at hbalance
  simpa using hbalance

namespace Aborted

/-- A task that is cancelled when its session is connected and its worker waits for the lock of the registry. -/
def actions : List Action :=
  [.start "t" "c" "sleep 60" 30 none 0 0,.mark "t" 1 1,.connect "t" (.ok ()),.park "t",.cancel "t" 2,.abort "t",
    .strike "t"]

def ended : Option Worker → Bool
  | some ⟨_,_,_,_,_,.ended,_,_⟩ => true
  | _ => false

theorem lost : (run step .initial actions).map (fun s =>
    (ended (s.side "t").worker,(s.side "t").opened,(s.side "t").released,
      (s.entry "t").map fun e => e.record.status)) = some (true,true,0,some .cancelled) := by decide

end Aborted

end Mxterm.CommandTasks
