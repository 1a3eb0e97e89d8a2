import Mxterm.FileRollback

/-! The status of a checkpoint says how many of its changes are still applied. What each way of adding and
removing a change does to the checkpoints keeps it so, two of them under a condition. -/
namespace Mxterm.Workspace

open List

/-- The status of the checkpoint is what its changes say. -/
structure Truthful (applied : Applied) (c : WorkspaceCheckpoint) : Prop where
  active : c.status = .active ↔ ∀ id ∈ c.changeIds, applied.HasKey id
  rolledBack : c.status = .rolledBack ↔ ∀ id ∈ c.changeIds, ¬ applied.HasKey id

/-- What the checkpoints and the applied changes of an agent satisfy. -/
structure Booked (s : WorkspaceState) : Prop where
  truthful : ∀ c ∈ s.checkpoints, c.changeIds ≠ [] ∧ Truthful s.applied c
  ids : (s.checkpoints.map WorkspaceCheckpoint.id).Nodup
  ordered : s.applied.rows.Pairwise fun a b => a.2.appliedSequence < b.2.appliedSequence

section Applied

variable {s : WorkspaceState} {c : WorkspaceCheckpoint} {id : String}

theorem get?_eq_none : s.get? id = none ↔ ¬ s.applied.HasKey id := by
  simp [WorkspaceState.get?,Table.find?_eq_none_iff]

theorem get?_eq_some {p : PendingPatch} : s.get? id = some p ↔ (id,p) ∈ s.applied := by
  simp only [WorkspaceState.get?,Option.map_eq_some_iff,Table.find?_eq_some_iff]
  constructor
  · intro h
    obtain ⟨row,⟨hrow,rfl⟩,rfl⟩ := h
    exact hrow
  · intro h
    exact ⟨(id,p),⟨h,rfl⟩,rfl⟩

theorem remaining_eq_zero : s.remaining c = 0 ↔ ∀ id ∈ c.changeIds, ¬ s.applied.HasKey id := by
  simp only [WorkspaceState.remaining,length_eq_zero_iff,filter_eq_nil_iff,
    Option.isSome_iff_ne_none,← get?_eq_none]
  simp

theorem remaining_lt : s.remaining c < c.changeIds.length ↔
    ∃ id ∈ c.changeIds, ¬ s.applied.HasKey id := by
  have hle : s.remaining c ≤ c.changeIds.length := length_filter_le _ _
  have heq : s.remaining c = c.changeIds.length ↔ ∀ id ∈ c.changeIds, s.applied.HasKey id := by
    rw [WorkspaceState.remaining,length_filter_eq_length_iff]
    refine forall₂_congr fun id _ => ?_
    rw [Option.isSome_iff_ne_none,ne_eq,get?_eq_none,not_not]
  rw [lt_iff_le_and_ne,ne_eq,heq]
  simp [hle]

variable {applied : Applied}

theorem truthful_rolledBack (hne : c.changeIds ≠ []) (hstatus : c.status = .rolledBack)
    (h : ∀ id ∈ c.changeIds, ¬ applied.HasKey id) : Truthful applied c := by
  obtain ⟨id,hid⟩ := exists_mem_of_ne_nil _ hne
  constructor
  · rw [hstatus]
    simp only [reduceCtorEq,false_iff]
    exact fun hall => h id hid (hall id hid)
  · exact ⟨fun _ => h,fun _ => hstatus⟩

theorem truthful_partly (hstatus : c.status = .partly) {present absent : String} (hpresent : present ∈ c.changeIds)
    (hthere : applied.HasKey present) (habsent : absent ∈ c.changeIds) (hgone : ¬ applied.HasKey absent) :
    Truthful applied c := by
  constructor
  · rw [hstatus]
    simp only [reduceCtorEq,false_iff]
    exact fun hall => hgone (hall absent habsent)
  · rw [hstatus]
    simp only [reduceCtorEq,false_iff]
    exact fun hnone => hnone present hpresent hthere

theorem truthful_congr {applied' : Applied} (h : Truthful applied c)
    (hsame : ∀ id ∈ c.changeIds, applied'.HasKey id ↔ applied.HasKey id) : Truthful applied' c := by
  constructor
  · rw [h.active]
    exact forall₂_congr fun id hid => (hsame id hid).symm
  · rw [h.rolledBack]
    exact forall₂_congr fun id hid => not_congr (hsame id hid).symm

/-- A checkpoint is counted anew where one of its changes is gone. -/
theorem truthful_recount (hne : c.changeIds ≠ []) (hgone : ∃ id ∈ c.changeIds, ¬ s.applied.HasKey id)
    (now now' : Option ℕ) : Truthful s.applied
      (if s.remaining c = 0 then { c with status := .rolledBack, rolledBackAtMs := now }
      else { c with status := .partly, rolledBackAtMs := now' }) := by
  by_cases hzero : s.remaining c = 0
  · rw [if_pos hzero]
    exact truthful_rolledBack (c := { c with status := .rolledBack, rolledBackAtMs := now }) hne rfl
      (remaining_eq_zero.mp hzero)
  · rw [if_neg hzero]
    obtain ⟨absent,habsent,hgone⟩ := hgone
    rw [remaining_eq_zero] at hzero
    push Not at hzero
    obtain ⟨present,hpresent,hthere⟩ := hzero
    exact truthful_partly (c := { c with status := .partly, rolledBackAtMs := now' }) rfl hpresent
      hthere habsent hgone

end Applied

section Removal

variable {s : WorkspaceState} {id : String} {now : ℕ}

theorem hasKey_remove {x : String} : (s.remove id).applied.HasKey x ↔ s.applied.HasKey x ∧ x ≠ id := by
  rw [WorkspaceState.remove,Table.hasKey_keepRows,Table.hasKey_iff]
  constructor
  · intro h
    obtain ⟨row,hrow,hne,rfl⟩ := h
    exact ⟨⟨row,hrow,rfl⟩,of_decide_eq_true hne⟩
  · intro h
    obtain ⟨⟨row,hrow,rfl⟩,hne⟩ := h
    exact ⟨row,hrow,decide_eq_true hne,rfl⟩

/-- Neither way of counting a checkpoint anew changes what it is about. -/
theorem markRemoved_ids (c : WorkspaceCheckpoint) : (s.markRemoved id now c).id = c.id ∧
    (s.markRemoved id now c).changeIds = c.changeIds := by
  unfold WorkspaceState.markRemoved
  split
  · exact ⟨rfl,rfl⟩
  split
  · exact ⟨rfl,rfl⟩
  split <;> exact ⟨rfl,rfl⟩

theorem markUndone_ids (c : WorkspaceCheckpoint) : (s.markUndone now c).id = c.id ∧
    (s.markUndone now c).changeIds = c.changeIds := by
  unfold WorkspaceState.markUndone
  split
  · exact ⟨rfl,rfl⟩
  split <;> exact ⟨rfl,rfl⟩

theorem truthful_markRemoved {c : WorkspaceCheckpoint} (hne : c.changeIds ≠ [])
    (h : Truthful s.applied c) :
    Truthful (s.remove id).applied ((s.remove id).markRemoved id now c) := by
  unfold WorkspaceState.markRemoved
  by_cases hid : id ∈ c.changeIds
  · have hgone : ∃ x ∈ c.changeIds, ¬ (s.remove id).applied.HasKey x :=
      ⟨id,hid,fun hkey => (hasKey_remove.mp hkey).2 rfl⟩
    have hcount := truthful_recount hne hgone (some now) none
    rw [if_neg (not_not.mpr hid),if_pos (remaining_lt.mpr hgone)]
    exact hcount
  · rw [if_pos hid]
    refine truthful_congr h fun x hx => ?_
    rw [hasKey_remove,and_iff_left]
    exact fun hsame => hid (hsame ▸ hx)

theorem truthful_markUndone {c : WorkspaceCheckpoint} (hne : c.changeIds ≠ [])
    (h : Truthful s.applied c) :
    Truthful (s.remove id).applied ((s.remove id).markUndone now c) := by
  unfold WorkspaceState.markUndone
  by_cases hgone : ∃ x ∈ c.changeIds, ¬ (s.remove id).applied.HasKey x
  · have hcount := truthful_recount hne hgone (some (c.rolledBackAtMs.getD now)) c.rolledBackAtMs
    rw [if_pos (remaining_lt.mpr hgone)]
    exact hcount
  · have hall : ∀ x ∈ c.changeIds, (s.remove id).applied.HasKey x := by
      push Not at hgone
      exact hgone
    obtain ⟨x,hx⟩ := exists_mem_of_ne_nil _ hne
    have hzero : (s.remove id).remaining c ≠ 0 := fun hzero =>
      remaining_eq_zero.mp hzero x hx (hall x hx)
    rw [if_neg hzero,if_neg fun hlt => hgone (remaining_lt.mp hlt)]
    refine truthful_congr h fun y hy => ?_
    exact ⟨fun hkey => (hasKey_remove.mp hkey).1,fun _ => hall y hy⟩

theorem ordered_remove (h : Booked s) :
    (s.remove id).applied.rows.Pairwise fun a b => a.2.appliedSequence < b.2.appliedSequence :=
  h.ordered.sublist filter_sublist

/-- `mark_checkpoint_change_removed` after a change was removed. -/
theorem booked_forget (h : Booked s) : Booked ((s.remove id).markCheckpointChangeRemoved id now) where
  truthful c hc := by
    obtain ⟨c₀,hc₀,rfl⟩ := mem_map.mp hc
    obtain ⟨hne,htrue⟩ := h.truthful c₀ hc₀
    rw [(markRemoved_ids c₀).2]
    exact ⟨hne,truthful_markRemoved hne htrue⟩
  ids := by
    have hids : ((s.remove id).checkpoints.map ((s.remove id).markRemoved id now)).map
        WorkspaceCheckpoint.id = s.checkpoints.map WorkspaceCheckpoint.id := by
      rw [map_map]
      exact map_congr_left fun c _ => (markRemoved_ids c).1
    exact hids ▸ h.ids
  ordered := ordered_remove h

theorem booked_undone (h : Booked s) (entry : String × PendingPatch) :
    Booked (s.forgetUndone now entry) where
  truthful c hc := by
    obtain ⟨c₀,hc₀,rfl⟩ := mem_map.mp hc
    obtain ⟨hne,htrue⟩ := h.truthful c₀ hc₀
    rw [(markUndone_ids c₀).2]
    exact ⟨hne,truthful_markUndone hne htrue⟩
  ids := by
    have hids : ((s.remove entry.1).checkpoints.map ((s.remove entry.1).markUndone now)).map
        WorkspaceCheckpoint.id = s.checkpoints.map WorkspaceCheckpoint.id := by
      rw [map_map]
      exact map_congr_left fun c _ => (markUndone_ids c).1
    exact hids ▸ h.ids
  ordered := ordered_remove h

/-- A checkpoint none of whose changes is left is closed. -/
theorem booked_close (h : Booked s) {checkpointId : String}
    (hempty : ∀ c ∈ s.checkpoints, c.id = checkpointId → ∀ x ∈ c.changeIds, ¬ s.applied.HasKey x) :
    Booked { s with checkpoints := closeCheckpoint checkpointId now s.checkpoints } := by
  have hmem : ∀ cs : List WorkspaceCheckpoint, ∀ c ∈ closeCheckpoint checkpointId now cs,
      c ∈ cs ∨ ∃ c₀ ∈ cs, c₀.id = checkpointId ∧
        c = { c₀ with status := .rolledBack, rolledBackAtMs := some now } := by
    intro cs
    induction cs with
    | nil => intro c hc; cases hc
    | cons c₀ cs ih =>
      intro c hc
      unfold closeCheckpoint at hc
      by_cases hid : c₀.id = checkpointId
      · rw [if_pos hid] at hc
        rcases mem_cons.mp hc with rfl | hc
        · exact .inr ⟨c₀,mem_cons_self,hid,rfl⟩
        · exact .inl (mem_cons_of_mem _ hc)
      · rw [if_neg hid] at hc
        rcases mem_cons.mp hc with rfl | hc
        · exact .inl mem_cons_self
        · rcases ih c hc with hc | ⟨c₁,hc₁,hrest⟩
          · exact .inl (mem_cons_of_mem _ hc)
          · exact .inr ⟨c₁,mem_cons_of_mem _ hc₁,hrest⟩
  have hids : ∀ cs : List WorkspaceCheckpoint, (closeCheckpoint checkpointId now cs).map
      WorkspaceCheckpoint.id = cs.map WorkspaceCheckpoint.id := by
    intro cs
    induction cs with
    | nil => rfl
    | cons c₀ cs ih =>
      unfold closeCheckpoint
      by_cases hid : c₀.id = checkpointId
      · rw [if_pos hid]
        rfl
      · rw [if_neg hid,map_cons,map_cons,ih]
  refine ⟨fun c hc => ?_,(hids s.checkpoints).symm ▸ h.ids,h.ordered⟩
  rcases hmem s.checkpoints c hc with hc | ⟨c₀,hc₀,hid,rfl⟩
  · exact h.truthful c hc
  · have hne := (h.truthful c₀ hc₀).1
    exact ⟨hne,truthful_rolledBack (c := { c₀ with status := .rolledBack, rolledBackAtMs := some now })
      hne rfl (hempty c₀ hc₀ hid)⟩

end Removal

section Registration

variable {s : WorkspaceState} {id messageId checkpointId : String} {p : PendingPatch} {now : ℕ}

/-- The numbers that a call draws stand nowhere yet. -/
structure FreshNumber (s : WorkspaceState) (id checkpointId : String) : Prop where
  applied : ¬ s.applied.HasKey id
  changeIds : ∀ c ∈ s.checkpoints, id ∉ c.changeIds
  checkpoint : checkpointId ∉ s.checkpoints.map WorkspaceCheckpoint.id

/-- The checkpoint of a reply has not been rolled back. -/
def OpenReply (s : WorkspaceState) (messageId : String) : Prop :=
  ∀ c, s.checkpoints.find? (·.messageId = messageId) = some c → c.status ≠ .rolledBack

theorem mem_pushChange {cs : List WorkspaceCheckpoint} {c : WorkspaceCheckpoint}
    (h : c ∈ pushChange messageId id checkpointId cs) : c ∈ cs ∨
    (∃ c₀ ∈ cs, cs.find? (·.messageId = messageId) = some c₀ ∧
      c = { c₀ with changeIds := c₀.changeIds ++ [id] }) ∨
    c = ⟨checkpointId,messageId,[id],.active,none⟩ := by
  induction cs with
  | nil => exact .inr (.inr (mem_singleton.mp h))
  | cons c₁ cs ih =>
    unfold pushChange at h
    by_cases hid : c₁.messageId = messageId
    · rw [if_pos hid] at h
      rcases mem_cons.mp h with rfl | h
      · exact .inr (.inl ⟨c₁,mem_cons_self,find?_cons_of_pos (by simpa using hid),rfl⟩)
      · exact .inl (mem_cons_of_mem _ h)
    · rw [if_neg hid] at h
      rcases mem_cons.mp h with rfl | h
      · exact .inl mem_cons_self
      · rcases ih h with h | ⟨c₀,hc₀,hfind,hc⟩ | hc
        · exact .inl (mem_cons_of_mem _ h)
        · refine .inr (.inl ⟨c₀,mem_cons_of_mem _ hc₀,?_,hc⟩)
          rw [find?_cons_of_neg (by simpa using hid)]
          exact hfind
        · exact .inr (.inr hc)

theorem pushChange_ids (cs : List WorkspaceCheckpoint) :
    (pushChange messageId id checkpointId cs).map WorkspaceCheckpoint.id =
        cs.map WorkspaceCheckpoint.id ∨
      (pushChange messageId id checkpointId cs).map WorkspaceCheckpoint.id =
        cs.map WorkspaceCheckpoint.id ++ [checkpointId] := by
  induction cs with
  | nil => exact .inr rfl
  | cons c cs ih =>
    unfold pushChange
    by_cases hid : c.messageId = messageId
    · rw [if_pos hid]
      exact .inl rfl
    · rw [if_neg hid]
      refine ih.imp (fun h => ?_) fun h => ?_
      · rw [map_cons,map_cons,h]
      · rw [map_cons,map_cons,h,cons_append]

theorem le_foldl_max (ns : List ℕ) (start : ℕ) : start ≤ ns.foldl max start ∧
    ∀ n ∈ ns, n ≤ ns.foldl max start := by
  induction ns generalizing start with
  | nil => exact ⟨le_rfl,fun n hn => nomatch hn⟩
  | cons m ns ih =>
    obtain ⟨hstart,hrest⟩ := ih (max start m)
    refine ⟨(le_max_left _ _).trans hstart,fun n hn => ?_⟩
    rcases mem_cons.mp hn with rfl | hn
    · exact (le_max_right _ _).trans hstart
    · exact hrest n hn

theorem lt_nextSequence {row : String × PendingPatch} (hrow : row ∈ s.applied.rows) :
    row.2.appliedSequence < s.nextSequence := by
  have hle := (le_foldl_max (s.applied.rows.map fun row => row.2.appliedSequence) 0).2 _
    (mem_map_of_mem hrow)
  unfold WorkspaceState.nextSequence
  omega

theorem register_rows (hfresh : ¬ s.applied.HasKey id) :
    (s.registerApplied id p messageId checkpointId now).applied.rows =
      s.applied.rows ++
        [(id,{ p with appliedSequence := s.nextSequence, appliedAtMs := now })] := by
  simp only [WorkspaceState.registerApplied,Table.put]
  rw [dif_neg hfresh]

theorem booked_register (h : Booked s) (hfresh : FreshNumber s id checkpointId)
    (hopen : OpenReply s messageId) :
    Booked (s.registerApplied id p messageId checkpointId now) where
  truthful c hc := by
    have hkey : ∀ x, (s.registerApplied id p messageId checkpointId now).applied.HasKey x ↔
        x = id ∨ s.applied.HasKey x := fun x => Table.hasKey_put
    rcases mem_pushChange hc with hc | ⟨c₀,hc₀,hfind,rfl⟩ | rfl
    · refine ⟨(h.truthful c hc).1,truthful_congr (h.truthful c hc).2 fun x hx => ?_⟩
      rw [hkey,or_iff_right]
      exact fun hsame => hfresh.changeIds c hc (hsame ▸ hx)
    · refine ⟨by simp,?_⟩
      have hold : ∀ x ∈ c₀.changeIds,
          ((s.registerApplied id p messageId checkpointId now).applied.HasKey x ↔
            s.applied.HasKey x) := by
        intro x hx
        rw [hkey,or_iff_right]
        exact fun hsame => hfresh.changeIds c₀ hc₀ (hsame ▸ hx)
      have htrue := (h.truthful c₀ hc₀).2
      cases hstatus : c₀.status with
      | rolledBack => exact absurd hstatus (hopen c₀ hfind)
      | active =>
        have hall := htrue.active.mp hstatus
        constructor
        · refine ⟨fun _ x hx => ?_,fun _ => rfl⟩
          rcases mem_append.mp hx with hx | hx
          · exact (hold x hx).mpr (hall x hx)
          · exact (hkey x).mpr (.inl (mem_singleton.mp hx))
        · simp only [reduceCtorEq,false_iff]
          exact fun hnone => hnone id (by simp) ((hkey id).mpr (.inl rfl))
      | partly =>
        have hmissing : ∃ x ∈ c₀.changeIds, ¬ s.applied.HasKey x := by
          by_contra hall
          push Not at hall
          rw [htrue.active.mpr hall] at hstatus
          cases hstatus
        obtain ⟨absent,habsent,hgone⟩ := hmissing
        exact truthful_partly
          (c := { c₀ with changeIds := c₀.changeIds ++ [id], status := .partly }) rfl
          (mem_append_right _ mem_cons_self) ((hkey id).mpr (.inl rfl))
          (mem_append_left _ habsent) fun hthere => hgone ((hold absent habsent).mp hthere)
    · refine ⟨by simp,⟨fun _ x hx => ?_,fun _ => rfl⟩,?_⟩
      · exact (hkey x).mpr (.inl (mem_singleton.mp hx))
      · simp only [reduceCtorEq,false_iff]
        exact fun hnone => hnone id mem_cons_self ((hkey id).mpr (.inl rfl))
  ids := by
    change ((pushChange messageId id checkpointId s.checkpoints).map WorkspaceCheckpoint.id).Nodup
    have hpush := @pushChange_ids id messageId checkpointId s.checkpoints
    rcases hpush with hids | hids
    · rw [hids]
      exact h.ids
    · rw [hids]
      exact nodup_append.mpr ⟨h.ids,nodup_singleton _,fun x hx y hy => by
        rw [mem_singleton.mp hy]
        exact fun hsame => hfresh.checkpoint (hsame ▸ hx)⟩
  ordered := by
    rw [register_rows hfresh.applied,pairwise_append]
    refine ⟨h.ordered,pairwise_singleton _ _,fun row hrow new hnew => ?_⟩
    rw [mem_singleton.mp hnew]
    exact lt_nextSequence hrow

theorem booked_create (h : Booked s) {s' : WorkspaceState} (hcreate : s.createCheckpoint id = .ok s')
    (hfresh : id ∉ s.checkpoints.map WorkspaceCheckpoint.id) : Booked s' := by
  unfold WorkspaceState.createCheckpoint at hcreate
  split at hcreate
  · cases hcreate
  rename_i hrows
  cases hcreate
  have happlied : ∀ x ∈ s.appliedOrder, s.applied.HasKey x := by
    intro x hx
    obtain ⟨row,hrow,rfl⟩ := mem_map.mp hx
    exact Table.hasKey_of_mem ((mergeSort_perm _ _).mem_iff.mp hrow)
  have hne : s.appliedOrder ≠ [] := by
    intro hnil
    have hlength := congrArg List.length hnil
    rw [WorkspaceState.appliedOrder,length_map,length_mergeSort] at hlength
    exact hrows (length_eq_zero_iff.mp hlength)
  refine ⟨fun c hc => ?_,?_,h.ordered⟩
  · rcases mem_append.mp hc with hc | hc
    · exact h.truthful c hc
    · obtain rfl := mem_singleton.mp hc
      refine ⟨hne,⟨fun _ => happlied,fun _ => rfl⟩,?_⟩
      simp only [reduceCtorEq,false_iff]
      obtain ⟨x,hx⟩ := exists_mem_of_ne_nil _ hne
      exact fun hnone => hnone x hx (happlied x hx)
  · rw [map_append]
    exact nodup_append.mpr ⟨h.ids,nodup_singleton _,fun x hx y hy => by
      obtain rfl := mem_singleton.mp hy
      intro hsame
      rw [hsame] at hx
      exact hfresh hx⟩

end Registration

end Mxterm.Workspace
