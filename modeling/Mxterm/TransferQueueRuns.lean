import Mxterm.TransferQueue

/-! What the controller of the transfers keeps in every run. -/
namespace Mxterm.TransferQueue

open List

/-! ## The store -/

theorem map_withStatus_id (id : String) (status : TransferStatus) (items : List RemoteFileTransferItem) :
    (items.map (withStatus id status)).map (·.id) = items.map (·.id) := by
  rw [map_map]
  apply map_congr_left
  intro item _
  by_cases h : item.id = id <;> simp [withStatus,h]

theorem update_ids_sublist (items : List RemoteFileTransferItem) (id : String) (status : TransferStatus) :
    ((updateRemoteFileTransfer items id status).map (·.id)).Sublist (items.map (·.id)) := by
  rw [← map_withStatus_id id status items]
  exact (trimTransferHistory_sublist _).map _

/-- What an update leaves of the items that are queued. -/
theorem queued_of_update {items : List RemoteFileTransferItem} {id : String} {status : TransferStatus}
    {item : RemoteFileTransferItem} (hitem : item ∈ updateRemoteFileTransfer items id status)
    (hqueued : item.status = .queued) : (item.id = id ∧ status = .queued) ∨ item.id ≠ id ∧ item ∈ items := by
  obtain ⟨old,hold,rfl⟩ := mem_map.mp ((trimTransferHistory_sublist _).subset hitem)
  by_cases h : old.id = id
  · rw [withStatus,if_pos h] at hqueued ⊢
    exact Or.inl ⟨h,hqueued⟩
  · rw [withStatus,if_neg h]
    exact Or.inr ⟨h,hold⟩

theorem getRemoteFileTransfer_mem {items : List RemoteFileTransferItem} (hnodup : (items.map (·.id)).Nodup)
    {item : RemoteFileTransferItem} (hitem : item ∈ items) : getRemoteFileTransfer items item.id = some item := by
  cases hfind : getRemoteFileTransfer items item.id with
  | none =>
    rw [getRemoteFileTransfer,find?_eq_none] at hfind
    exact absurd (decide_eq_true rfl) (hfind item hitem)
  | some other =>
    have hid : other.id = item.id := by simpa using find?_some hfind
    rw [inj_on_of_nodup_map hnodup (mem_of_find?_eq_some hfind) hitem hid]

/-! ## The invariant -/

namespace Controller

/-- What holds while `queue` is what is left of the queue. -/
structure Kept (c : Controller) (queue : List String) : Prop where
  ids : (c.items.map (·.id)).Nodup
  named : ∀ item ∈ c.items, item.id ≠ ""
  queued : ∀ item ∈ c.items, item.status = .queued →
    item.id ∈ queue ∧ ∃ task, c.transferTasks item.id = some task ∧ c.latest item.id = some task
  apart : ∀ id ∈ queue, id ∉ c.runningTransferIds
  nodup : queue.Nodup
  own : ∀ id id' task, c.transferTasks id = some task → c.transferTasks id' = some task → id = id'
  issued : ∀ id task, c.transferTasks id = some task → task < c.passed
  started : ∀ start ∈ c.starts, start.task < c.passed
  fresh : ∀ id ∈ queue, ∀ task, c.transferTasks id = some task → task ∉ c.starts.map (·.task)
  once : (c.starts.map (·.task)).Nodup
  limited : ∀ start ∈ c.starts, start.running < start.limit

variable {c c' : Controller} {queue rest : List String} {id : String}

variable {items : List RemoteFileTransferItem}

/-- A change of the store by which no transfer becomes queued. -/
theorem Kept.store (h : Kept c queue) (hids : (items.map (·.id)).Sublist (c.items.map (·.id)))
    (hqueued : ∀ item ∈ items, item.status = .queued → item ∈ c.items) : Kept { c with items := items } queue where
  ids := h.ids.sublist hids
  named item hitem := by
    obtain ⟨old,hold,heq⟩ := mem_map.mp (hids.subset (mem_map_of_mem hitem))
    exact heq ▸ h.named old hold
  queued item hitem hstatus := h.queued item (hqueued item hitem hstatus) hstatus
  apart := h.apart
  nodup := h.nodup
  own := h.own
  issued := h.issued
  started := h.started
  fresh := h.fresh
  once := h.once
  limited := h.limited

/-- A transfer that is not queued leaves the queue, and its task the map. -/
theorem Kept.drop (h : Kept c queue) (hsub : rest.Sublist queue) (hrest : ∀ other ∈ queue, other ≠ id → other ∈ rest)
    (hnot : ∀ item ∈ c.items, item.id = id → item.status ≠ .queued) : Kept (c.forget id) rest := by
  have htask : ∀ other task, (c.forget id).transferTasks other = some task → c.transferTasks other = some task := by
    intro other task hother
    by_cases heq : other = id
    · simp [forget,heq] at hother
    · simpa [forget,heq] using hother
  exact {
    ids := h.ids
    named := h.named
    queued := by
      intro item hitem hstatus
      have hne : item.id ≠ id := fun heq => hnot item hitem heq hstatus
      obtain ⟨hmem,task,htask,hlatest⟩ := h.queued item hitem hstatus
      exact ⟨hrest _ hmem hne,task,by simpa [forget,hne] using htask,hlatest⟩
    apart := fun other hother => h.apart other (hsub.subset hother)
    nodup := h.nodup.sublist hsub
    own := fun other other' task hother hother' => h.own other other' task (htask _ _ hother) (htask _ _ hother')
    issued := fun other task hother => h.issued other task (htask _ _ hother)
    started := h.started
    fresh := fun other hother task hother' => h.fresh other (hsub.subset hother) task (htask _ _ hother')
    once := h.once
    limited := h.limited }

/-! ### The drain -/

theorem not_queued_of_missing (h : Kept c queue) (hmissing : c.transferTasks id = none) :
    ∀ item ∈ c.items, item.id = id → item.status ≠ .queued := by
  rintro item hitem rfl hstatus
  obtain ⟨-,task,htask,-⟩ := h.queued item hitem hstatus
  rw [hmissing] at htask
  cases htask

theorem not_queued_of_not_startable (h : Kept c queue) (hstart : c.startable id = false) :
    ∀ item ∈ c.items, item.id = id → item.status ≠ .queued := by
  rintro item hitem rfl hstatus
  rw [startable,getRemoteFileTransfer_mem h.ids hitem] at hstart
  simp [hstatus] at hstart

theorem Kept.start (h : Kept c (id :: rest)) {task : ℕ} (htask : c.transferTasks id = some task)
    (hroom : c.runningTransferIds.length < c.concurrency) : Kept (c.start id task) rest := by
  obtain ⟨hnot,hnodup⟩ := nodup_cons.mp h.nodup
  constructor
  · exact h.ids.sublist (update_ids_sublist _ _ _)
  · intro item hitem
    obtain ⟨old,hold,heq⟩ := mem_map.mp ((update_ids_sublist _ _ _).subset (mem_map_of_mem hitem))
    exact heq ▸ h.named old hold
  · intro item hitem hstatus
    rcases queued_of_update hitem hstatus with ⟨-,hrunning⟩ | ⟨hne,hold⟩
    · cases hrunning
    · obtain ⟨hmem,hpending⟩ := h.queued item hold hstatus
      exact ⟨(mem_cons.mp hmem).resolve_left hne,hpending⟩
  · intro other hother hrunning
    rcases mem_cons.mp hrunning with rfl | hrunning
    · exact hnot hother
    · exact h.apart other (mem_cons_of_mem _ hother) hrunning
  · exact hnodup
  · exact h.own
  · exact h.issued
  · intro start hstart
    rcases mem_append.mp hstart with hstart | hstart
    · exact h.started start hstart
    · rw [mem_singleton.mp hstart]
      exact h.issued id task htask
  · intro other hother task' htask' hmem
    rw [Controller.start,map_append] at hmem
    rcases mem_append.mp hmem with hmem | hmem
    · exact h.fresh other (mem_cons_of_mem _ hother) task' htask' hmem
    · obtain rfl := mem_singleton.mp hmem
      exact hnot (h.own _ _ _ htask htask' ▸ hother)
  · rw [Controller.start,map_append,nodup_append]
    refine ⟨h.once,nodup_singleton _,?_⟩
    intro old hold new hnew heq
    rw [map_singleton,mem_singleton] at hnew
    rw [heq,hnew] at hold
    exact h.fresh id mem_cons_self task htask hold
  · intro start hstart
    rcases mem_append.mp hstart with hstart | hstart
    · exact h.limited start hstart
    · rw [mem_singleton.mp hstart]
      exact hroom

theorem Kept.launch (h : Kept c (id :: rest)) (hroom : c.runningTransferIds.length < c.concurrency) :
    Kept (c.launch id) rest := by
  have hdrop : (∀ item ∈ c.items, item.id = id → item.status ≠ .queued) → Kept (c.forget id) rest :=
    h.drop (sublist_cons_self _ _) fun other hother hne => (mem_cons.mp hother).resolve_left hne
  rw [Controller.launch]
  by_cases hempty : id = ""
  · rw [if_pos hempty]
    obtain ⟨-,hnodup⟩ := nodup_cons.mp h.nodup
    refine ⟨h.ids,h.named,?_,fun other hother => h.apart other (mem_cons_of_mem _ hother),hnodup,h.own,
      h.issued,h.started,fun other hother => h.fresh other (mem_cons_of_mem _ hother),h.once,h.limited⟩
    intro item hitem hstatus
    obtain ⟨hmem,hpending⟩ := h.queued item hitem hstatus
    exact ⟨(mem_cons.mp hmem).resolve_left (hempty ▸ h.named item hitem),hpending⟩
  · rw [if_neg hempty]
    cases htask : c.transferTasks id with
    | none => exact hdrop (not_queued_of_missing h htask)
    | some task =>
      split_ifs with hstart
      · exact h.start htask hroom
      · exact hdrop (not_queued_of_not_startable h (by simpa using hstart))

/-- The drain leaves the queue empty, or no room. -/
theorem Kept.drainFrom (h : Kept c queue) : Kept (c.drainFrom queue) (c.drainFrom queue).transferQueue ∧
    ((c.drainFrom queue).runningTransferIds.length < (c.drainFrom queue).concurrency →
      (c.drainFrom queue).transferQueue = []) := by
  induction queue generalizing c with
  | nil => exact ⟨⟨h.ids,h.named,h.queued,h.apart,h.nodup,h.own,h.issued,h.started,h.fresh,h.once,h.limited⟩,fun _ =>
    rfl⟩
  | cons id rest ih =>
    rw [Controller.drainFrom]
    split_ifs with hroom
    · exact ih (h.launch hroom)
    · refine ⟨⟨h.ids,h.named,h.queued,h.apart,h.nodup,h.own,h.issued,h.started,h.fresh,h.once,h.limited⟩,?_⟩
      exact fun hlt => absurd hlt hroom

/-- What holds whenever no code of the controller runs. -/
structure Inv (c : Controller) : Prop where
  kept : Kept c c.transferQueue
  room : c.runningTransferIds.length < c.concurrency → c.transferQueue = []

theorem Inv.drain (h : Kept c c.transferQueue) : Inv c.drainTransferQueue := ⟨h.drainFrom.1,h.drainFrom.2⟩

/-! ### The operations -/

/-- Before the drain. All transfers but the one that is passed stand in the queue already. -/
theorem Kept.accept (h : Kept c c.transferQueue) (hapart : id ∉ c.runningTransferIds)
    (hids : (items.map (·.id)).Nodup) (hnamed : ∀ item ∈ items, item.id ≠ "")
    (hqueued : ∀ item ∈ items, item.status = .queued → item.id ≠ id → item ∈ c.items) :
    Kept ({ c with items := items }.accept id) ({ c with items := items }.accept id).transferQueue := by
  have hqueue : ∀ other, other ∈ ({ c with items := items }.accept id).transferQueue ↔
      other ∈ c.transferQueue ∨ other = id := by
    intro other
    by_cases hmem : id ∈ c.transferQueue
    · simp only [Controller.accept,hmem,true_or,if_true]
      exact ⟨Or.inl,fun h => h.elim (fun hold => hold) (fun heq => heq ▸ hmem)⟩
    · simp [Controller.accept,hmem,hapart]
  have htasks : ∀ other task, ({ c with items := items }.accept id).transferTasks other = some task →
      (other = id ∧ task = c.passed) ∨ other ≠ id ∧ c.transferTasks other = some task := by
    intro other task hother
    by_cases heq : other = id
    · have hnew : some c.passed = some task := by simpa [Controller.accept,heq] using hother
      exact Or.inl ⟨heq,(Option.some.inj hnew).symm⟩
    · exact Or.inr ⟨heq,by simpa [Controller.accept,heq] using hother⟩
  constructor
  · exact hids
  · exact hnamed
  · intro item hitem hstatus
    by_cases heq : item.id = id
    · refine ⟨(hqueue _).mpr (Or.inr heq),c.passed,?_,?_⟩
      · simp [Controller.accept,heq]
      · simp [Controller.accept,heq]
    · obtain ⟨hmem,task,htask,hlatest⟩ := h.queued item (hqueued item hitem hstatus heq) hstatus
      refine ⟨(hqueue _).mpr (Or.inl hmem),task,?_,?_⟩
      · simpa [Controller.accept,heq] using htask
      · simpa [Controller.accept,heq] using hlatest
  · intro other hother
    rcases (hqueue other).mp hother with hold | rfl
    · exact h.apart other hold
    · exact hapart
  · by_cases hmem : id ∈ c.transferQueue
    · simpa [Controller.accept,hmem] using h.nodup
    · simp only [Controller.accept,hmem,hapart,or_self,if_false]
      rw [nodup_append]
      refine ⟨h.nodup,nodup_singleton _,?_⟩
      intro other hother new hnew heq
      rw [mem_singleton] at hnew
      exact hmem (hnew ▸ heq ▸ hother)
  · intro other other' task hother hother'
    rcases htasks other task hother with ⟨rfl,rfl⟩ | ⟨-,hold⟩
    · rcases htasks other' c.passed hother' with ⟨rfl,-⟩ | ⟨-,hold'⟩
      · rfl
      · exact absurd (h.issued _ _ hold') (Nat.lt_irrefl _)
    · rcases htasks other' task hother' with ⟨-,rfl⟩ | ⟨-,hold'⟩
      · exact absurd (h.issued _ _ hold) (Nat.lt_irrefl _)
      · exact h.own other other' task hold hold'
  · intro other task hother
    rcases htasks other task hother with ⟨-,rfl⟩ | ⟨-,hold⟩
    · exact Nat.lt_succ_self _
    · exact Nat.lt_succ_of_lt (h.issued other task hold)
  · exact fun start hstart => Nat.lt_succ_of_lt (h.started start hstart)
  · intro other hother task htask hmem
    rcases htasks other task htask with ⟨-,rfl⟩ | ⟨hne,hold⟩
    · obtain ⟨start,hstart,heq⟩ := mem_map.mp hmem
      exact absurd (h.started start hstart) (by simp [heq])
    · exact h.fresh other (((hqueue other).mp hother).resolve_right hne) task hold hmem
  · exact h.once
  · exact h.limited

/-- A transfer is withdrawn: it leaves the queue and is no longer queued. -/
theorem Inv.withdraw (h : Inv c) (hids : (items.map (·.id)).Sublist (c.items.map (·.id)))
    (hqueued : ∀ item ∈ items, item.status = .queued → item.id ≠ id ∧ item ∈ c.items) :
    Inv { c.dropQueuedTransfer id with items := items } where
  kept := by
    have hstore := h.kept.store hids fun item hitem hstatus => (hqueued item hitem hstatus).2
    have hdrop := hstore.drop (filter_sublist : (c.transferQueue.filter (· ≠ id)).Sublist _)
      (fun other hother hne => mem_filter.mpr ⟨hother,decide_eq_true hne⟩)
      (fun item hitem heq hstatus => (hqueued item hitem hstatus).1 heq)
    exact ⟨hdrop.ids,hdrop.named,hdrop.queued,hdrop.apart,hdrop.nodup,hdrop.own,hdrop.issued,hdrop.started,
      hdrop.fresh,hdrop.once,hdrop.limited⟩
  room hroom := by
    have hempty : c.transferQueue = [] := h.room hroom
    simp [dropQueuedTransfer,hempty]

theorem Inv.update (h : Inv c) {status : TransferStatus} (hstatus : status ≠ .queued) :
    Inv { c with items := updateRemoteFileTransfer c.items id status } where
  kept := by
    refine h.kept.store (update_ids_sublist _ _ _) fun item hitem hqueued => ?_
    rcases queued_of_update hitem hqueued with ⟨-,heq⟩ | ⟨-,hold⟩
    · exact absurd heq hstatus
    · exact hold
  room := h.room

theorem Inv.cancelQueuedTransfer (h : Inv c) : Inv (c.cancelQueuedTransfer id) := by
  refine h.withdraw (update_ids_sublist _ _ _) fun item hitem hqueued => ?_
  rcases queued_of_update hitem hqueued with ⟨-,heq⟩ | hold
  · cases heq
  · exact hold

theorem Inv.requestCancelTransfer (h : Inv c) : Inv (c.requestCancelTransfer id) := by
  rw [Controller.requestCancelTransfer]
  cases getRemoteFileTransfer c.items id with
  | none => exact h.cancelQueuedTransfer
  | some item =>
    dsimp only
    split_ifs
    · exact h.cancelQueuedTransfer
    · exact h.update (by decide)
    · exact h

theorem Inv.removeTransfer (h : Inv c) : Inv (c.removeTransfer id) := by
  refine h.withdraw (filter_sublist.map _) fun item hitem _ => ?_
  obtain ⟨hold,hne⟩ := mem_filter.mp hitem
  exact ⟨of_decide_eq_true hne,hold⟩

theorem Inv.clearFinished (h : Inv c) : Inv { c with items := clearFinishedTransfers c.items } where
  kept := h.kept.store (filter_sublist.map _) fun _ hitem _ => mem_of_mem_filter hitem
  room := h.room

/-- A task that ends is not the one of a transfer that is queued. -/
theorem Inv.settle (h : Inv c) (hrunning : id ∈ c.runningTransferIds) : Inv (c.settle id) := by
  have hforget : Kept (c.forget id) c.transferQueue := by
    refine h.kept.drop (List.Sublist.refl _) (fun _ hother _ => hother) ?_
    rintro item hitem rfl hstatus
    exact h.kept.apart _ (h.kept.queued item hitem hstatus).1 hrunning
  refine Inv.drain ⟨hforget.ids,hforget.named,hforget.queued,?_,hforget.nodup,hforget.own,hforget.issued,
    hforget.started,hforget.fresh,hforget.once,hforget.limited⟩
  exact fun other hother hmem => hforget.apart other hother (mem_of_mem_filter hmem)

theorem Inv.add (h : Inv c) (hapart : id ∉ c.runningTransferIds) (hname : id ≠ "")
    (hnew : ∀ item ∈ c.items, item.id ≠ id) :
    Inv ({ c with items := addRemoteFileTransfer c.items id }.enqueueRemoteFileTransfer id) := by
  have hsub := trimTransferHistory_sublist (⟨id,.queued⟩ :: c.items)
  have hids : ((⟨id,.queued⟩ :: c.items : List RemoteFileTransferItem).map (·.id)).Nodup := by
    refine nodup_cons.mpr ⟨fun hmem => ?_,h.kept.ids⟩
    obtain ⟨item,hitem,heq⟩ := mem_map.mp hmem
    exact hnew item hitem heq
  refine Inv.drain (h.kept.accept hapart (hids.sublist (hsub.map _)) ?_ ?_)
  · intro item hitem
    rcases mem_cons.mp (hsub.subset hitem) with rfl | hold
    · exact hname
    · exact h.kept.named item hold
  · intro item hitem _ hne
    rcases mem_cons.mp (hsub.subset hitem) with rfl | hold
    · exact absurd rfl hne
    · exact hold

theorem Inv.retry (h : Inv c) (hapart : id ∉ c.runningTransferIds) :
    Inv ({ c with items := prepareTransferRetry c.items id }.enqueueRemoteFileTransfer id) := by
  refine Inv.drain (h.kept.accept hapart (h.kept.ids.sublist (update_ids_sublist _ _ _)) ?_ ?_)
  · intro item hitem
    obtain ⟨old,hold,heq⟩ := mem_map.mp ((update_ids_sublist _ _ _).subset (mem_map_of_mem hitem))
    exact heq ▸ h.kept.named old hold
  · intro item hitem hstatus hne
    rcases queued_of_update hitem hstatus with ⟨heq,-⟩ | ⟨-,hold⟩
    · exact absurd heq hne
    · exact hold

theorem Inv.step {a : ControllerAction} (h : Inv c) (ha : c.Apart a) (hstep : c.step a = some c') : Inv c' := by
  cases a with
  | add transferId =>
    rw [Controller.step] at hstep
    split_ifs at hstep with hnew
    cases hstep
    exact h.add ha hnew.1 hnew.2
  | retry transferId =>
    cases hstep
    exact h.retry ha
  | enqueue transferId =>
    cases hstep
    exact Inv.drain (h.kept.accept ha h.kept.ids h.kept.named fun item hitem _ _ => hitem)
  | cancel transferId =>
    cases hstep
    exact h.requestCancelTransfer
  | remove transferId =>
    cases hstep
    exact h.removeTransfer
  | clearFinished =>
    cases hstep
    exact h.clearFinished
  | setConcurrency concurrency =>
    cases hstep
    obtain ⟨hkept,-⟩ := h
    exact Inv.drain ⟨hkept.ids,hkept.named,hkept.queued,hkept.apart,hkept.nodup,hkept.own,hkept.issued,
      hkept.started,hkept.fresh,hkept.once,hkept.limited⟩
  | report transferId status =>
    rw [Controller.step] at hstep
    split_ifs at hstep with hreport
    cases hstep
    exact h.update hreport.2
  | settle transferId =>
    rw [Controller.step] at hstep
    split_ifs at hstep with hrunning
    cases hstep
    exact h.settle hrunning

theorem inv_initial (concurrency : ℕ) : Inv (initial concurrency) where
  kept := by
    constructor
    · exact nodup_nil
    · exact nofun
    · exact nofun
    · exact nofun
    · exact nodup_nil
    · exact nofun
    · exact nofun
    · exact nofun
    · exact nofun
    · exact nodup_nil
    · exact nofun
  room _ := rfl

/-- Where no transfer is passed while an earlier task of its runs, every queued transfer waits to be run. -/
theorem transfers_orderly {limit : ℕ} (h : Transitions.Reached step Apart (· = initial limit) c) :
    c.Orderly := by
  have hinv : Inv c := by
    refine h.invariant ?_ fun _ _ _ hs ha hstep => Inv.step hs ha hstep
    rintro _ rfl
    exact inv_initial limit
  exact ⟨hinv.kept.queued,hinv.room,hinv.kept.once,hinv.kept.limited⟩

/-- Two transfers, of which one may run at a time. -/
theorem second_transfer_waits : ∃ c : Controller, c.transferQueue = ["b"] ∧ c.runningTransferIds = ["a"] ∧ c.Orderly :=
  by
  refine ⟨_,?_,?_,transfers_orderly (.step (a := .add "b") (.step (a := .add "a")
    (.start (rfl : initial 1 = initial 1)) ?_ rfl) ?_ rfl)⟩
  · rfl
  · rfl
  · exact not_mem_nil
  · change "b" ∉ ["a"]
    decide

/-- A transfer that is cancelled, tried again, and whose first task then ends. -/
theorem retried_transfer_lost : ∃ c, Transitions.Reached step (fun _ _ => True) (· = initial 1) c ∧
    c.items = [⟨"a",.queued⟩] ∧ c.runningTransferIds = [] ∧ c.transferQueue = [] ∧ c.transferTasks "a" = none := by
  have hrun : Transitions.run step (initial 1) [.add "a",.cancel "a",.retry "a",.settle "a"] =
      some ((Transitions.run step (initial 1) [.add "a",.cancel "a",.retry "a",.settle "a"]).getD (initial 1)) := rfl
  exact ⟨_,Transitions.Reached.run (.start rfl) hrun,rfl,rfl,rfl,rfl⟩

end Controller
end Mxterm.TransferQueue
