import Mxterm.MessageInsertions
import Mxterm.Transitions

/-! Every insertion that is accepted is committed exactly once, in every order of commands, turns and stops. -/
namespace Mxterm.Insertions

open Agent List

/-! ## The session -/

theorem filter_key_eq {α κ : Type} [DecidableEq κ] (key : α → κ) {rows : List α} (h : (rows.map key).Nodup)
    {row : α} (hrow : row ∈ rows) : rows.filter (fun other => key other = key row) = [row] := by
  induction rows with
  | nil => cases hrow
  | cons first rows ih =>
    obtain ⟨hfirst,hrest⟩ := nodup_cons.mp h
    rcases mem_cons.mp hrow with rfl | hrow
    · have hnone : rows.filter (fun other => key other = key row) = [] := by
        rw [filter_eq_nil_iff]
        intro other hother hkey
        exact hfirst (of_decide_eq_true hkey ▸ mem_map_of_mem hother)
      rw [filter_cons_of_pos (by simp),hnone]
    · have hne : key first ≠ key row := fun heq => hfirst (heq ▸ mem_map_of_mem hrow)
      rw [filter_cons_of_neg (by simpa using hne)]
      exact ih hrest hrow

variable {session session' : List SessionMessage}

theorem insertChatMessage_ok {row : SessionMessage} (h : insertChatMessage session row = .ok session')
    (hnodup : (session.map (·.id)).Nodup) : session' = session ++ [row] ∧ (session'.map (·.id)).Nodup := by
  rw [insertChatMessage] at h
  split_ifs at h with hpresent
  cases h
  refine ⟨rfl,?_⟩
  rw [map_append,nodup_append]
  refine ⟨hnodup,nodup_singleton _,?_⟩
  intro id hid id' hid' heq
  obtain ⟨other,hother,rfl⟩ := mem_map.mp hid
  rw [map_singleton,mem_singleton] at hid'
  exact hpresent (any_eq_true.mpr ⟨other,hother,decide_eq_true (heq.trans hid')⟩)

theorem insertAll_ok {pending : List PreparedUserInjection}
    (h : pending.foldlM (fun session item => insertChatMessage session item.userMessage) session = .ok session')
    (hnodup : (session.map (·.id)).Nodup) :
    session' = session ++ pending.map (·.userMessage) ∧ (session'.map (·.id)).Nodup := by
  induction pending generalizing session with
  | nil =>
    cases h
    exact ⟨(append_nil _).symm,hnodup⟩
  | cons item pending ih =>
    obtain ⟨next,hnext,hrest⟩ := (Execution.except_bind_ok _ _ _).mp h
    obtain ⟨rfl,hnodup'⟩ := insertChatMessage_ok hnext hnodup
    obtain ⟨rfl,hids⟩ := ih hrest hnodup'
    exact ⟨by simp,hids⟩

theorem map_withReply_ids (session : List SessionMessage) (reply : CurrentReply) (status : String) :
    (session.map (withReply reply status)).map (·.id) = session.map (·.id) := by
  rw [map_map]
  apply map_congr_left
  intro row _
  by_cases h : row.id = reply.messageId <;> simp [withReply,h]

/-- Rows of other messages stay as they are. -/
theorem sublist_withReply {rows : List SessionMessage} (h : rows.Sublist session) {reply : CurrentReply}
    (hother : ∀ row ∈ rows, row.id ≠ reply.messageId) (status : String) :
    rows.Sublist (session.map (withReply reply status)) := by
  have hsame : rows.map (withReply reply status) = rows := by
    conv_rhs => rw [← map_id rows]
    exact map_congr_left fun row hrow => if_neg (hother row hrow)
  rw [← hsame]
  exact h.map (withReply reply status)

/-- What a transaction that succeeds leaves: the inserted messages in their order, and a new reply. -/
theorem persistMessageInjection_ok {reply : CurrentReply} {pending : List PreparedUserInjection} {interrupted : Bool}
    {assistantId : String} (h : persistMessageInjection session reply pending interrupted assistantId = .ok session')
    (hnodup : (session.map (·.id)).Nodup) : (session'.map (·.id)).Nodup ∧
      session' = session.map (withReply reply (previousStatus interrupted)) ++
        pending.map (·.userMessage) ++ [emptyReply assistantId] := by
  rw [persistMessageInjection] at h
  split_ifs at h with hreply
  obtain ⟨inserted,hinserted,h⟩ := (Execution.except_bind_ok _ _ _).mp h
  obtain ⟨rfl,hids⟩ := insertAll_ok hinserted (by rwa [map_withReply_ids])
  obtain ⟨rfl,hids'⟩ := insertChatMessage_ok h hids
  exact ⟨hids',rfl⟩

/-! ## What a run keeps -/

def ids (items : List PreparedUserInjection) : List String := items.map (·.queueId)

/-- What holds at a place of the loop. -/
def PhaseAt (s : InsertionRun) : LoopPc → Prop
  | .requested | .preempted | .answered | .tools _ => s.seen = s.persisted
  | .returned => s.stop = false → s.inbox.closed = true ∧ s.seen = s.persisted
  | .completed => s.inbox.closed = true ∧ s.seen = s.persisted
  | _ => True

theorem PhaseAt.congr {s t : InsertionRun} {pc : LoopPc} (h : PhaseAt s pc) (hseen : t.seen = s.seen)
    (hpersisted : t.persisted = s.persisted) (hstop : t.stop = false → s.stop = false)
    (hclosed : t.inbox.closed = s.inbox.closed) : PhaseAt t pc := by
  cases pc with
  | returned =>
    intro hrunning
    rw [hclosed,hseen,hpersisted]
    exact h (hstop hrunning)
  | requested | preempted | answered | tools | completed => simpa only [PhaseAt,hclosed,hseen,hpersisted] using h
  | _ => trivial

structure Kept (s : InsertionRun) : Prop where
  closed : s.inbox.closed = true → s.inbox.pending = []
  committed : s.inbox.committed = ids s.persisted
  /-- Only a failed run can lose what it has taken out of the inbox. -/
  accepted : ∃ lost, s.accepted = s.persisted ++ lost ++ s.inbox.pending ∧ (s.loop ≠ .failed → lost = [])
  nodup : (ids (s.persisted ++ s.inbox.pending)).Nodup
  session : (s.session.map (·.id)).Nodup
  rows : (s.persisted.map (·.userMessage)).Sublist s.session
  reply : s.reply.messageId ∈ s.session.map (·.id)
  reply_new : s.reply.messageId ∉ ids s.persisted
  confirmed : ∀ answer ∈ s.answers, ∀ queueId, answer.confirms = some queueId → queueId ∈ ids s.accepted
  refused : ∀ queueId, .closed queueId ∈ s.answers → s.inbox.closed = true ∧ queueId ∉ ids s.persisted

variable {s s' : InsertionRun}

/-- A change of the place in the loop. -/
theorem Kept.goto (h : Kept s) (hloop : s.loop ≠ .failed) (pc : LoopPc) : Kept { s with loop := pc } := { h with
  accepted := by
    obtain ⟨lost,heq,hlost⟩ := h.accepted
    exact ⟨lost,heq,fun _ => hlost hloop⟩ }

theorem Kept.accepted_eq (h : Kept s) (hloop : s.loop ≠ .failed) :
    s.accepted = s.persisted ++ s.inbox.pending := by
  obtain ⟨lost,heq,hlost⟩ := h.accepted
  rw [heq,hlost hloop,append_nil]

/-! ### Taking the messages out -/

variable {finishIfEmpty interrupted : Bool} {assistantId : String} {storage : Except AppError Unit}

/-- Nothing was waiting. -/
theorem Kept.take_nothing (h : Kept s) (hpending : s.inbox.pending = []) :
    Kept { s with inbox := s.inbox.take finishIfEmpty } := { h with
  closed _ := rfl
  accepted := by
    obtain ⟨lost,heq,hlost⟩ := h.accepted
    rw [hpending] at heq
    exact ⟨lost,heq,hlost⟩
  nodup := by
    have hnodup := h.nodup
    rw [hpending] at hnodup
    exact hnodup
  refused queueId hmem := by
    obtain ⟨hclosed,hnew⟩ := h.refused queueId hmem
    exact ⟨by simp [AgentMessageInbox.take,hclosed],hnew⟩ }

/-- What was waiting is lost with the run. -/
theorem Kept.take_failed (h : Kept s) (hloop : s.loop ≠ .failed) :
    Kept { s with inbox := s.inbox.take finishIfEmpty, loop := .failed } := { h with
  closed _ := rfl
  accepted := by
    refine ⟨s.inbox.pending,?_,fun hne => absurd rfl hne⟩
    rw [show s.accepted = _ from h.accepted_eq hloop]
    exact (append_nil _).symm
  nodup := by
    have hnodup := h.nodup
    rw [ids,map_append] at hnodup
    rw [ids,map_append]
    exact hnodup.sublist (List.Sublist.append (List.Sublist.refl _) (nil_sublist _))
  refused queueId hmem := by
    obtain ⟨hclosed,hnew⟩ := h.refused queueId hmem
    exact ⟨by simp [AgentMessageInbox.take,hclosed],hnew⟩ }

/-- What was waiting is committed. -/
theorem Kept.commit (h : Kept s) (hloop : s.loop ≠ .failed)
    (hpersist : persistMessageInjection s.session s.reply s.inbox.pending interrupted assistantId = .ok session)
    (hpending : s.inbox.pending ≠ []) : Kept
      { s with
        inbox := (s.inbox.take finishIfEmpty).recordCommit (s.inbox.pending.map (·.queueId))
        session := session
        reply := ⟨assistantId,"","",[]⟩
        persisted := s.persisted ++ s.inbox.pending } := by
  have hopen : s.inbox.closed ≠ true := fun hclosed => hpending (h.closed hclosed)
  obtain ⟨hids,rfl⟩ := persistMessageInjection_ok hpersist h.session
  have hothers : ∀ row ∈ s.persisted.map (·.userMessage), row.id ≠ s.reply.messageId := by
    intro row hrow heq
    obtain ⟨item,hitem,rfl⟩ := mem_map.mp hrow
    exact h.reply_new (heq ▸ mem_map_of_mem hitem)
  have hrows := (sublist_withReply h.rows hothers (previousStatus interrupted)).append
    (List.Sublist.refl (s.inbox.pending.map (·.userMessage)))
  constructor
  · exact fun _ => rfl
  · change s.inbox.committed ++ ids s.inbox.pending = ids (s.persisted ++ s.inbox.pending)
    rw [h.committed,ids,ids,ids,map_append]
  · refine ⟨[],?_,fun _ => rfl⟩
    rw [show s.accepted = _ from h.accepted_eq hloop,append_nil]
    exact (append_nil _).symm
  · change (ids (s.persisted ++ s.inbox.pending ++ [])).Nodup
    rw [append_nil]
    exact h.nodup
  · exact hids
  · rw [map_append]
    exact hrows.trans (sublist_append_left _ _)
  · rw [map_append]
    exact mem_append_right _ (mem_singleton_self _)
  · intro hmem
    rw [map_append] at hids
    obtain ⟨item,hitem,heq⟩ := mem_map.mp hmem
    have hrow : item.userMessage ∈ (s.persisted ++ s.inbox.pending).map (·.userMessage) :=
      mem_map_of_mem hitem
    rw [map_append] at hrow
    exact (nodup_append.mp hids).2.2 _ (mem_map_of_mem (hrows.subset hrow)) _
      (mem_singleton_self _) heq
  · exact h.confirmed
  · exact fun queueId hmem => absurd (h.refused queueId hmem).1 hopen

def Inv (s : InsertionRun) : Prop := Kept s ∧ PhaseAt s s.loop

/-- The run goes on behind a call of `consume_messages` to a place where what the call leaves is enough. -/
theorem Inv.afterConsume (h : Inv s) (hloop : s.loop ≠ .failed) {next : Bool → LoopPc}
    (htaken : ∀ t, PhaseAt t (next true))
    (hnothing : ∀ t : InsertionRun, t.seen = s.seen → t.persisted = s.persisted → t.stop = s.stop →
      (s.stop = false → finishIfEmpty = true → t.inbox.closed = true) → PhaseAt t (next false)) :
    Inv (InsertionRun.afterConsume (s.consumeMessages finishIfEmpty interrupted assistantId storage) next) := by
  obtain ⟨hkept,-⟩ := h
  rw [InsertionRun.consumeMessages]
  by_cases hstop : s.stop = true
  · rw [if_pos hstop]
    refine ⟨hkept.goto hloop _,hnothing _ rfl rfl rfl fun hrunning => ?_⟩
    rw [hstop] at hrunning
    cases hrunning
  · rw [if_neg hstop]
    by_cases hpending : s.inbox.pending = []
    · rw [if_pos (isEmpty_iff.mpr hpending)]
      refine ⟨(hkept.take_nothing hpending).goto hloop _,hnothing _ rfl rfl rfl fun _ hfinish => ?_⟩
      change (s.inbox.closed || finishIfEmpty && s.inbox.pending.isEmpty) = true
      simp [hpending,hfinish]
    · rw [if_neg (by simpa using hpending)]
      split
      · exact ⟨hkept.take_failed hloop,trivial⟩
      · rename_i session hok
        obtain ⟨-,-,hpersist⟩ := (Execution.except_bind_ok _ _ _).mp hok
        exact ⟨(hkept.commit hloop hpersist hpending).goto hloop _,htaken _⟩

/-! ### The loop -/

variable {a : InsertionAction}

theorem loopStep_inv (h : Inv s) (hstep : s.loopStep a = some s') : Inv s' := by
  obtain ⟨hkept,hphase⟩ := h
  cases a with
  | write content thinking toolCalls =>
    cases hstep
    refine ⟨⟨hkept.closed,hkept.committed,hkept.accepted,hkept.nodup,hkept.session,hkept.rows,hkept.reply,
      hkept.reply_new,hkept.confirmed,hkept.refused⟩,?_⟩
    exact hphase
  | enter =>
    cases hloop : s.loop with
    | head interrupted =>
      simp only [InsertionRun.loopStep,hloop] at hstep
      cases hstep
      refine ⟨hkept.goto (by simp [hloop]) _,?_⟩
      by_cases hstop : s.stop = true
      · simp [hstop,PhaseAt]
      · simp [hstop,PhaseAt]
    | _ =>
      simp only [InsertionRun.loopStep,hloop] at hstep
      cases hstep
  | consume assistantId storage =>
    cases hloop : s.loop with
    | consuming interrupted =>
      simp only [InsertionRun.loopStep,hloop] at hstep
      cases hstep
      exact Inv.afterConsume ⟨hkept,hphase⟩ (by simp [hloop]) (fun _ => trivial) fun _ _ _ _ _ => trivial
    | preempted =>
      simp only [InsertionRun.loopStep,hloop] at hstep
      cases hstep
      exact Inv.afterConsume ⟨hkept,hphase⟩ (by simp [hloop]) (fun _ => trivial) fun _ _ _ _ _ => trivial
    | answered =>
      rw [hloop] at hphase
      have hseen : s.seen = s.persisted := hphase
      simp only [InsertionRun.loopStep,hloop] at hstep
      cases hstep
      refine Inv.afterConsume ⟨hkept,hloop ▸ hphase⟩ (by simp [hloop]) (fun _ => trivial) ?_
      intro t htseen htpersisted htstop hclosed hrunning
      exact ⟨hclosed (htstop ▸ hrunning) rfl,htseen.trans (hseen.trans htpersisted.symm)⟩
    | _ =>
      simp only [InsertionRun.loopStep,hloop] at hstep
      cases hstep
  | send =>
    cases hloop : s.loop with
    | consumed =>
      simp only [InsertionRun.loopStep,hloop] at hstep
      cases hstep
      have hgone := hkept.goto (by simp [hloop]) .requested
      exact ⟨⟨hgone.closed,hgone.committed,hgone.accepted,hgone.nodup,hgone.session,hgone.rows,hgone.reply,
        hgone.reply_new,hgone.confirmed,hgone.refused⟩,rfl⟩
    | _ =>
      simp only [InsertionRun.loopStep,hloop] at hstep
      cases hstep
  | preempt =>
    cases hloop : s.loop with
    | requested =>
      rw [hloop] at hphase
      simp only [InsertionRun.loopStep,hloop] at hstep
      split_ifs at hstep
      cases hstep
      exact ⟨hkept.goto (by simp [hloop]) _,hphase⟩
    | _ =>
      simp only [InsertionRun.loopStep,hloop] at hstep
      cases hstep
  | turn calls =>
    cases hloop : s.loop with
    | requested =>
      rw [hloop] at hphase
      have hseen : s.seen = s.persisted := hphase
      simp only [InsertionRun.loopStep,hloop] at hstep
      cases hstep
      refine ⟨hkept.goto (by simp [hloop]) _,?_⟩
      by_cases hstop : s.stop = true
      · simp [hstop,PhaseAt]
      · cases calls <;> simp [hstop,PhaseAt,hseen]
    | _ =>
      simp only [InsertionRun.loopStep,hloop] at hstep
      cases hstep
  | runTool =>
    cases hloop : s.loop with
    | tools interrupted =>
      rw [hloop] at hphase
      have hseen : s.seen = s.persisted := hphase
      simp only [InsertionRun.loopStep,hloop] at hstep
      cases hstep
      refine ⟨hkept.goto (by simp [hloop]) _,?_⟩
      by_cases hstop : s.stop = true
      · simp [hstop,PhaseAt]
      · simp [hstop,PhaseAt,hseen]
    | _ =>
      simp only [InsertionRun.loopStep,hloop] at hstep
      cases hstep
  | finishTools =>
    cases hloop : s.loop with
    | tools interrupted =>
      simp only [InsertionRun.loopStep,hloop] at hstep
      cases hstep
      exact ⟨hkept.goto (by simp [hloop]) _,trivial⟩
    | _ =>
      simp only [InsertionRun.loopStep,hloop] at hstep
      cases hstep
  | fail =>
    cases hloop : s.loop with
    | requested | tools =>
      simp only [InsertionRun.loopStep,hloop] at hstep
      cases hstep
      exact ⟨hkept.goto (by simp [hloop]) _,trivial⟩
    | _ =>
      simp only [InsertionRun.loopStep,hloop] at hstep
      cases hstep
  | complete =>
    cases hloop : s.loop with
    | returned =>
      rw [hloop] at hphase
      simp only [InsertionRun.loopStep,hloop] at hstep
      cases hstep
      refine ⟨hkept.goto (by simp [hloop]) _,?_⟩
      by_cases hstop : s.stop = true
      · simp [hstop,PhaseAt]
      · simpa [hstop,PhaseAt] using hphase (by simpa using hstop)
    | _ =>
      simp only [InsertionRun.loopStep,hloop] at hstep
      cases hstep
  | lookUp | insert | stop | abort | leave => cases hstep

/-! ### The commands -/

variable {calls : EnqueueCalls} {budget : ℕ} {inbox : AgentMessageInbox} {request : EnqueueRequest}

variable {queueId : String}

theorem prepareInjection_queueId {item : PreparedUserInjection}
    (h : prepareInjection calls budget queueId request = .ok item) : item.queueId = queueId := by
  obtain ⟨normalized,-,h⟩ := (Execution.except_bind_ok _ _ _).mp h
  split_ifs at h
  obtain ⟨contexts,-,h⟩ := (Execution.except_bind_ok _ _ _).mp h
  obtain ⟨modelMessage,-,h⟩ := (Execution.except_bind_ok _ _ _).mp h
  rw [← Except.ok.inj h]

theorem mem_ids_iff {items : List PreparedUserInjection} :
    items.any (·.queueId = queueId) = true ↔ queueId ∈ ids items := by
  simp [ids]

/-- What the answer of the command says about the inbox. -/
def AnswerSays (inbox : AgentMessageInbox) : Enqueued → Prop
  | .accepted item =>
    inbox.closed = false ∧ item.queueId ∉ inbox.committed ∧ item.queueId ∉ ids inbox.pending
  | .repeated queueId => queueId ∈ inbox.committed ∨ queueId ∈ ids inbox.pending
  | .closed queueId => inbox.closed = true ∧ queueId ∉ inbox.committed
  | .failed _ => True

theorem enqueueLocked_says : AnswerSays inbox (enqueueLocked calls budget inbox request) := by
  rw [enqueueLocked]
  cases calls.validatedClientId request.queueId with
  | error error => trivial
  | ok queueId =>
    dsimp only
    split_ifs with hcommitted hclosed hpending
    · exact Or.inl hcommitted
    · exact ⟨hclosed,hcommitted⟩
    · exact Or.inr (mem_ids_iff.mp hpending)
    · cases hitem : prepareInjection calls budget queueId request with
      | error error => trivial
      | ok item =>
        obtain rfl := prepareInjection_queueId hitem
        exact ⟨by simpa using hclosed,hcommitted,fun hmem => hpending (mem_ids_iff.mpr hmem)⟩

/-- An answer that accepts nothing. -/
theorem Kept.answer (h : Kept s) {answer : Enqueued}
    (hconfirms : ∀ queueId, answer.confirms = some queueId → queueId ∈ ids s.accepted)
    (hrefuses : ∀ queueId, answer = .closed queueId → s.inbox.closed = true ∧ queueId ∉ ids s.persisted) :
    Kept (s.answer answer) := { h with
  confirmed := forall_mem_append.mpr ⟨h.confirmed,forall_mem_singleton.mpr hconfirms⟩
  refused queueId hmem := by
    rcases mem_append.mp hmem with hmem | hmem
    · exact h.refused queueId hmem
    · exact hrefuses queueId (mem_singleton.mp hmem).symm }

theorem Kept.accept (h : Kept s) {item : PreparedUserInjection} (hopen : s.inbox.closed = false)
    (hnew : item.queueId ∉ ids (s.persisted ++ s.inbox.pending)) : Kept
      { s.answer (.accepted item) with
        inbox := s.inbox.enqueue item
        accepted := s.accepted ++ [item] } := by
  have hinbox : s.inbox.enqueue item =
      { s.inbox with pending := s.inbox.pending ++ [item], preemption := true } := by
    rw [AgentMessageInbox.enqueue,if_neg (by simp [hopen])]
  rw [hinbox]
  have hsubset : ∀ queueId ∈ ids s.accepted, queueId ∈ ids (s.accepted ++ [item]) := by
    intro queueId hmem
    rw [ids,map_append]
    exact mem_append_left _ hmem
  constructor
  · intro hclosed
    exact absurd (hopen.symm.trans hclosed) (by decide)
  · exact h.committed
  · obtain ⟨lost,heq,hlost⟩ := h.accepted
    refine ⟨lost,?_,hlost⟩
    change s.accepted ++ [item] = s.persisted ++ lost ++ (s.inbox.pending ++ [item])
    rw [heq,append_assoc (s.persisted ++ lost)]
  · rw [← append_assoc,ids,map_append,nodup_append]
    refine ⟨h.nodup,nodup_singleton _,?_⟩
    intro queueId hmem other hother heq
    rw [map_singleton,mem_singleton] at hother
    exact hnew (hother ▸ heq ▸ hmem)
  · exact h.session
  · exact h.rows
  · exact h.reply
  · exact h.reply_new
  · refine forall_mem_append.mpr ⟨?_,forall_mem_singleton.mpr ?_⟩
    · exact fun answer hanswer queueId hconfirms => hsubset _ (h.confirmed answer hanswer queueId hconfirms)
    · intro queueId hconfirms
      cases hconfirms
      rw [ids,map_append]
      exact mem_append_right _ (mem_singleton_self _)
  · intro queueId hmem
    rcases mem_append.mp hmem with hmem | hmem
    · exact h.refused queueId hmem
    · cases mem_singleton.mp hmem

theorem Kept.confirms_known (h : Kept s) (hknown : queueId ∈ s.inbox.committed ∨ queueId ∈ ids s.inbox.pending) :
    queueId ∈ ids s.accepted := by
  obtain ⟨lost,heq,-⟩ := h.accepted
  rw [heq,ids,map_append,map_append]
  rcases hknown with hmem | hmem
  · rw [h.committed] at hmem
    exact mem_append_left _ (mem_append_left _ hmem)
  · exact mem_append_right _ hmem

theorem insert_inv (h : Inv s) : Inv (s.insert calls budget request) := by
  obtain ⟨hkept,hphase⟩ := h
  have hmeaning : AnswerSays s.inbox (enqueueLocked calls budget s.inbox request) := enqueueLocked_says
  rw [InsertionRun.insert]
  cases hanswer : enqueueLocked calls budget s.inbox request with
  | accepted item =>
    rw [hanswer] at hmeaning
    obtain ⟨hopen,hcommitted,hpending⟩ := hmeaning
    refine ⟨hkept.accept hopen ?_,?_⟩
    · intro hmem
      rw [ids,map_append] at hmem
      rcases mem_append.mp hmem with hmem | hmem
      · exact hcommitted (hkept.committed ▸ hmem)
      · exact hpending hmem
    · have hsame : (s.inbox.enqueue item).closed = s.inbox.closed := by
        rw [AgentMessageInbox.enqueue]
        split_ifs <;> rfl
      exact hphase.congr rfl rfl id hsame
  | repeated queueId =>
    rw [hanswer] at hmeaning
    refine ⟨hkept.answer (fun queueId' hconfirms => ?_) nofun,hphase⟩
    cases hconfirms
    exact hkept.confirms_known hmeaning
  | closed queueId =>
    rw [hanswer] at hmeaning
    refine ⟨hkept.answer nofun fun queueId' hclosed => ?_,hphase⟩
    obtain rfl := Enqueued.closed.inj hclosed
    exact ⟨hmeaning.1,hkept.committed ▸ hmeaning.2⟩
  | failed error => exact ⟨hkept.answer nofun nofun,hphase⟩

theorem commandStep_inv (h : Inv s) (hstep : s.commandStep a = some s') : Inv s' := by
  obtain ⟨hkept,hphase⟩ := h
  cases a with
  | lookUp request =>
    cases hcommand : s.command with
    | some request => simp [InsertionRun.commandStep,hcommand] at hstep
    | none =>
      simp only [InsertionRun.commandStep,hcommand] at hstep
      cases hstep
      by_cases hentry : s.entry = true
      · rw [if_pos hentry]
        exact ⟨⟨hkept.closed,hkept.committed,hkept.accepted,hkept.nodup,hkept.session,hkept.rows,hkept.reply,
          hkept.reply_new,hkept.confirmed,hkept.refused⟩,hphase⟩
      · rw [if_neg hentry]
        exact ⟨hkept.answer nofun nofun,hphase⟩
  | insert calls budget =>
    obtain ⟨request,-,rfl⟩ := Option.map_eq_some_iff.mp hstep
    exact insert_inv ⟨hkept,hphase⟩
  | stop =>
    simp only [InsertionRun.commandStep] at hstep
    split_ifs at hstep
    cases hstep
    refine ⟨⟨hkept.closed,hkept.committed,hkept.accepted,hkept.nodup,hkept.session,hkept.rows,hkept.reply,
      hkept.reply_new,hkept.confirmed,hkept.refused⟩,?_⟩
    exact hphase.congr rfl rfl (fun hstop => (Bool.or_eq_false_iff.mp hstop).1) rfl
  | abort =>
    cases hloop : s.loop with
    | requested | tools =>
      simp only [InsertionRun.commandStep,hloop] at hstep
      split_ifs at hstep
      cases hstep
      exact ⟨hkept.goto (by simp [hloop]) _,trivial⟩
    | _ =>
      simp only [InsertionRun.commandStep,hloop] at hstep
      cases hstep
  | leave =>
    have hsame : s' = { s with entry := false } := by
      cases hloop : s.loop <;> simp only [InsertionRun.commandStep,hloop] at hstep <;>
        first | exact (Option.some.inj hstep).symm | cases hstep
    rw [hsame]
    exact ⟨⟨hkept.closed,hkept.committed,hkept.accepted,hkept.nodup,hkept.session,hkept.rows,hkept.reply,
      hkept.reply_new,hkept.confirmed,hkept.refused⟩,hphase⟩
  | _ => cases hstep

/-! ## What every run keeps -/

theorem Inv.opening (h : s.Opening) : Inv s := by
  obtain ⟨hloop,hinbox,-,-,-,hanswers,haccepted,hpersisted,-,hnodup,hreply⟩ := h
  refine ⟨?_,by rw [hloop]; trivial⟩
  constructor
  · rw [hinbox]
    exact nofun
  · rw [hinbox,hpersisted]
    rfl
  · rw [hinbox,hpersisted,haccepted]
    exact ⟨[],rfl,fun _ => rfl⟩
  · rw [hinbox,hpersisted]
    exact nodup_nil
  · exact hnodup
  · rw [hpersisted]
    exact nil_sublist _
  · exact hreply
  · rw [hpersisted]
    exact not_mem_nil
  · rw [hanswers]
    exact nofun
  · rw [hanswers]
    exact nofun

theorem Inv.step (h : Inv s) (hstep : s.step a = some s') : Inv s' := by
  rcases Option.or_eq_some_iff.mp hstep with hstep | ⟨-,hstep⟩
  · exact loopStep_inv h hstep
  · exact commandStep_inv h hstep

/-- Every message that was accepted is in the session once, or waits; and none is lost when the stream
completes. -/
structure InsertionRun.CommittedOnce (s : InsertionRun) : Prop where
  /-- The messages are in the session in the order in which they were accepted. -/
  order : s.persisted <+: s.accepted
  rows : (s.persisted.map (·.userMessage)).Sublist s.session
  once : ∀ item ∈ s.persisted, s.session.filter (fun row => row.id = item.queueId) = [item.userMessage]
  distinct : (ids s.persisted).Nodup
  complete : s.loop = .completed → s.persisted = s.accepted ∧ s.seen = s.accepted
  confirmed : ∀ answer ∈ s.answers, answer.response = .ok () →
    ∃ queueId ∈ ids s.accepted, answer.confirms = some queueId
  refused : ∀ queueId, .closed queueId ∈ s.answers → queueId ∉ ids s.persisted
  /-- Whatever is asked of a closed inbox. -/
  closed : s.inbox.closed = true → ∀ (calls : EnqueueCalls) (budget : ℕ) (request : EnqueueRequest) (queueId : String),
    calls.validatedClientId request.queueId = .ok queueId → enqueueLocked calls budget s.inbox request =
      if queueId ∈ ids s.persisted then .repeated queueId else .closed queueId

theorem Enqueued.confirms_of_ok {answer : Enqueued} (h : answer.response = .ok ()) :
    ∃ queueId, answer.confirms = some queueId := by
  cases answer with
  | accepted item => exact ⟨item.queueId,rfl⟩
  | repeated queueId => exact ⟨queueId,rfl⟩
  | closed | failed => cases h

theorem Inv.committedOnce (h : Inv s) : s.CommittedOnce := by
  obtain ⟨hkept,hphase⟩ := h
  have hnodup := hkept.nodup
  rw [ids,map_append] at hnodup
  constructor
  · obtain ⟨lost,heq,-⟩ := hkept.accepted
    rw [heq,append_assoc]
    exact prefix_append _ _
  · exact hkept.rows
  · intro item hitem
    exact filter_key_eq SessionMessage.id hkept.session (hkept.rows.subset (mem_map_of_mem hitem))
  · exact (nodup_append.mp hnodup).1
  · intro hloop
    rw [hloop] at hphase
    obtain ⟨hclosed,hseen⟩ := hphase
    have haccepted := hkept.accepted_eq (by simp [hloop])
    rw [hkept.closed hclosed,append_nil] at haccepted
    exact ⟨haccepted.symm,hseen.trans haccepted.symm⟩
  · intro answer hanswer hok
    obtain ⟨queueId,hconfirms⟩ := Enqueued.confirms_of_ok hok
    exact ⟨queueId,hkept.confirmed answer hanswer queueId hconfirms,hconfirms⟩
  · exact fun queueId hmem => (hkept.refused queueId hmem).2
  · intro hclosed calls budget request queueId hvalid
    rw [enqueueLocked,hvalid]
    dsimp only
    rw [hkept.committed,if_pos hclosed]

def acceptingCalls : EnqueueCalls where
  validatedClientId id := .ok id
  normalizeContextBlocks blocks := .ok blocks
  persistContextArtifacts blocks := .ok blocks
  imageAttachments _ := .ok []

def openingRun : InsertionRun where
  loop := .head false
  inbox := .default
  command := none
  entry := true
  stop := false
  session := [emptyReply "reply"]
  reply := ⟨"reply","","",[]⟩
  answers := []
  accepted := []
  persisted := []
  seen := []

theorem openingRun_opening : openingRun.Opening :=
  ⟨rfl,rfl,rfl,rfl,rfl,rfl,rfl,rfl,rfl,nodup_singleton _,mem_singleton_self _⟩

def hello : EnqueueRequest := ⟨"message","hello",[]⟩

/-- A message is accepted during the first request, interrupts it, and is answered. -/
def insertedThenCompleted : List InsertionAction :=
  [.enter,.consume "" (.ok ()),.send,.lookUp hello,.insert acceptingCalls 0,.preempt,
    .consume "reply2" (.ok ()),.enter,.consume "" (.ok ()),.send,.turn false,.consume "" (.ok ()),.complete]

def completedRun : InsertionRun :=
  (Transitions.run InsertionRun.step openingRun insertedThenCompleted).getD openingRun

theorem completedRun_run :
    Transitions.run InsertionRun.step openingRun insertedThenCompleted = some completedRun := rfl

end Mxterm.Insertions
