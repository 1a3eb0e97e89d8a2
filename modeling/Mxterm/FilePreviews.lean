import Mxterm.FileOutcomes

/-! What reading a file and preparing a change leave behind: no file and no applied change is touched,
and every prepared change is well formed. -/
namespace Mxterm.Workspace

open Execution

/-- What every prepared change satisfies. -/
structure PendingPatch.WellFormed (p : PendingPatch) : Prop where
  after : p.action = .create ∨ p.action = .write ∨ p.action = .patch → p.after ≠ none
  before : p.action = .write ∨ p.action = .delete ∨ p.action = .rename → p.before ≠ none
  absent : p.action = .create → p.before = none
  destination : p.action = .rename ↔ p.destination ≠ none
  deleted : p.action = .delete → p.after = none

/-- What a call sees that reads a path of the host: the resolved path, the text and its version. -/
def hostRead (w : Roots) (h : Host) (path : String) : Option (String × String × ℕ × ℕ) :=
  match w.resolveRemote path with
  | .error _ => none
  | .ok resolved =>
    match h.readFile (w.remoteReal resolved) with
    | .error _ => none
    | .ok file => some (resolved,file)

/-- What a read or a preview sees of the host. -/
def sees (w : Roots) (h : Host) (target : WorkspaceTarget) (path : String) :
    Option (String × String × ℕ × ℕ) :=
  match target with
  | .ssh => hostRead w h path
  | .localFiles => none

/-- The version that was read is kept. -/
def WorkspaceState.keepVersion (s : WorkspaceState) :
    Option (String × String × ℕ × ℕ) → WorkspaceState
  | none => s
  | some (path,_,version) =>
    { s with remoteMeta := Function.update s.remoteMeta (scopedWorkspacePath .ssh path) (some version) }

/-- What a call that reads or prepares does; `seen` is what it saw of the host. -/
structure Looked (seen : Option (String × String × ℕ × ℕ)) (d d' : Desk) : Prop where
  applied : d'.files.applied = d.files.applied
  checkpoints : d'.files.checkpoints = d.files.checkpoints
  sequence : d'.files.nextAppliedSequence = d.files.nextAppliedSequence
  disk : d'.disk = d.disk
  host : d'.host = d.host
  remoteMeta : d'.files.remoteMeta = (d.files.keepVersion seen).remoteMeta
  patches : d'.files.patches = d.files.patches ∨
    ∃ id p, d'.files.patches = Function.update d.files.patches id (some p) ∧ p.WellFormed

section Reads

variable {w : Roots} {d : Desk}

/-- A call that changed nothing but what it remembers of reads. -/
theorem looked_reads (reads : String → Option (Option String)) :
    Looked none d { d with files := { d.files with reads := reads } } :=
  ⟨rfl,rfl,rfl,rfl,rfl,rfl,.inl rfl⟩

theorem looked_refl : Looked none d d := looked_reads d.files.reads

theorem looked_version (path content : String) (version : ℕ × ℕ)
    (reads : String → Option (Option String)) :
    Looked (some (path,content,version)) d { d with files := { d.files with
      reads := reads
      remoteMeta :=
        Function.update d.files.remoteMeta (scopedWorkspacePath .ssh path) (some version) } } :=
  ⟨rfl,rfl,rfl,rfl,rfl,rfl,.inl rfl⟩

/-- A change is prepared after what was looked at. -/
theorem Looked.prepare {seen : Option (String × String × ℕ × ℕ)} {d' : Desk} (h : Looked seen d d')
    (hsame : d'.files.patches = d.files.patches) {p : PendingPatch} (hp : p.WellFormed) (id : String) :
    Looked seen d { d' with files := { d'.files with
      patches := Function.update d'.files.patches id (some p) } } :=
  { h with patches := .inr ⟨id,p,by rw [hsame],hp⟩ }

variable {path e : String}

theorem looked_unresolved (h : w.resolveRemote path = .error e) : Looked (hostRead w d.host path) d d := by
  have hnone : hostRead w d.host path = none := by simp [hostRead,h]
  rw [hnone]
  exact looked_refl

variable {resolved : String}

theorem hostRead_unreadable (h : w.resolveRemote path = .ok resolved)
    (hread : d.host.readFile (w.remoteReal resolved) = .error e) : hostRead w d.host path = none := by
  simp [hostRead,h,hread]

theorem looked_unreadable (h : w.resolveRemote path = .ok resolved)
    (hread : d.host.readFile (w.remoteReal resolved) = .error e) : Looked (hostRead w d.host path) d d := by
  rw [hostRead_unreadable h hread]
  exact looked_refl

theorem hostRead_ok {content : String} {version : ℕ × ℕ} (h : w.resolveRemote path = .ok resolved)
    (hread : d.host.readFile (w.remoteReal resolved) = .ok (content,version)) :
    hostRead w d.host path = some (resolved,content,version) := by
  simp [hostRead,h,hread]

/-- A file of the host is read: nothing, or its version is kept. -/
theorem readHostFile_leads (path : String) : Leads (readHostFile w path)
    (fun content d' => ∃ version, d.host.readFile (w.remoteReal path) = .ok (content,version) ∧
      d' = { d with files := { d.files with
        remoteMeta :=
          Function.update d.files.remoteMeta (scopedWorkspacePath .ssh path) (some version) } })
    (fun d' => d' = d ∧ ∃ e, d.host.readFile (w.remoteReal path) = .error e) d := by
  refine .get_bind (.lift_bind (fun file hfile => ?_) fun e he => ⟨rfl,e,he⟩)
  exact .bind (leads_modifyFiles (.pure ⟨file.2,hfile,rfl⟩))

theorem readFile_leads (target : WorkspaceTarget) (path : String) (offset limit : Option ℕ) :
    Leads (readFile w target path offset limit) (fun _ => Looked (sees w d.host target path) d)
      (Looked (sees w d.host target path) d) d := by
  cases target with
  | ssh =>
    refine .lift_bind (fun resolved hresolved => ?_) fun e he => ?_
    · refine .bind ((readHostFile_leads resolved).mono ?_ ?_)
      · intro content d' hd'
        obtain ⟨version,hread,rfl⟩ := hd'
        have hkept := looked_version (d := d) resolved content version
        rw [← hostRead_ok hresolved hread] at hkept
        exact .bind (leads_modifyFiles (.runIf (fun _ => leads_modifyFiles (hkept _)) fun _ => hkept _))
      · intro d' hd'
        obtain ⟨rfl,e,he⟩ := hd'
        exact looked_unreadable hresolved he
    · exact looked_unresolved he
  | localFiles =>
    refine .lift_bind (fun resolved _ => ?_) fun _ _ => looked_refl
    refine .bind (.get_bind (.lift_bind (fun current _ => ?_) fun _ _ => looked_refl))
    cases current with
    | none => exact .throw looked_refl
    | some content => exact .pure (leads_modifyFiles (looked_reads _))

end Reads

section Previews

variable {w : Roots} {d : Desk}

theorem previewPatch_leads (target : WorkspaceTarget) (path old new : String) (replaceAll : Bool)
    (draw : Draw) :
    Leads (previewPatch w target path old new replaceAll draw)
      (fun _ => Looked (sees w d.host target path) d) (Looked (sees w d.host target path) d) d := by
  have hwell : ∀ target path before updated,
      (PendingPatch.mk target path before (some updated) .patch none 0 0).WellFormed := by
    intro target path before updated
    constructor <;> simp
  cases target with
  | ssh =>
    refine .lift_bind (fun resolved hresolved => ?_) fun e he => ?_
    · refine .bind ((readHostFile_leads resolved).mono ?_ ?_)
      · intro content d' hd'
        obtain ⟨version,hread,rfl⟩ := hd'
        have hkept := looked_version (d := d) resolved content version
          (Function.update d.files.reads (scopedWorkspacePath .ssh resolved) (some (some content)))
        rw [← hostRead_ok hresolved hread] at hkept
        refine .bind (leads_modifyFiles (.lift_bind (fun updated _ => leads_modifyFiles ?_)
          fun _ _ => hkept))
        exact hkept.prepare rfl (hwell _ _ _ _) draw.changeId
      · intro d' hd'
        obtain ⟨rfl,e,he⟩ := hd'
        exact looked_unreadable hresolved he
    · exact looked_unresolved he
  | localFiles =>
    refine .lift_bind (fun resolved _ => .get_bind ?_) fun _ _ => looked_refl
    cases d.files.reads (scopedWorkspacePath .localFiles resolved) with
    | none => exact .throw looked_refl
    | some before =>
      refine .lift_bind (fun updated _ => leads_modifyFiles ?_) fun _ _ => looked_refl
      exact looked_refl.prepare rfl (hwell _ _ _ _) draw.changeId

/-- The change that a preview of a file operation prepares. -/
theorem wellFormed_change {target : WorkspaceTarget} {path content : String} {action : Action}
    {current destination : Option String} (haction : action ≠ .patch)
    (hcreate : action = .create → current = none) (hthere : action ≠ .create → current ≠ none)
    (hdestination : action = .rename ↔ destination ≠ none) :
    (PendingPatch.mk target path current (plannedText action current content) action destination 0
      0).WellFormed where
  after h := by
    rcases h with rfl | rfl | rfl
    · simp [plannedText]
    · simp [plannedText]
    · exact absurd rfl haction
  before h := hthere (by rcases h with rfl | rfl | rfl <;> simp)
  absent := hcreate
  destination := hdestination
  deleted h := by
    obtain rfl : action = .delete := h
    rfl

theorem previewLocalChange_leads (action : Action) (path destination content : String) (draw : Draw) :
    Leads (previewLocalChange w action path destination content draw) (fun _ => Looked none d)
      (Looked none d) d := by
  have hkept : Looked none d d := looked_refl
  refine .lift_bind (fun resolved _ => .guard hkept fun haction => ?_) fun _ _ => hkept
  refine .get_bind (.lift_bind (fun current _ => ?_) fun _ _ => hkept)
  refine .lift_bind (fun _ hcheck => ?_) fun _ _ => hkept
  refine .lift_bind (fun target htarget => .guard hkept fun _ => leads_modifyFiles ?_) fun _ _ => hkept
  refine looked_refl.prepare rfl (wellFormed_change haction ?_ ?_ ?_) draw.changeId
  · rintro rfl
    cases current with
    | none => rfl
    | some _ => simp [localPreviewCheck] at hcheck
  · intro hne hnone
    simp [localPreviewCheck,hne,hnone] at hcheck
  · unfold localDestination at htarget
    by_cases hrename : action = .rename
    · rw [if_neg (not_not.mpr hrename)] at htarget
      split at htarget
      · cases htarget
      · obtain ⟨_,_,htarget⟩ := (except_bind_ok _ _ _).mp htarget
        obtain ⟨_,_,htarget⟩ := (except_bind_ok _ _ _).mp htarget
        split at htarget
        · cases htarget
        · simp [hrename,← Except.ok.inj htarget]
    · rw [if_pos hrename] at htarget
      simp [hrename,← Except.ok.inj htarget]

/-- The rest of the preview of a file operation on the host, once its file was looked at. -/
theorem hostPreview_leads {seen : Option (String × String × ℕ × ℕ)} {d' : Desk} (hd' : Looked seen d d')
    (hsame : d'.files.patches = d.files.patches) (action : Action) (path destination content : String)
    (current : Option String) (draw : Draw) :
    Leads (lift (hostPreviewCheck action current) >>= fun _ => get >>= fun (s : Desk) =>
      lift (hostDestination w s.host action destination) >>= fun destination =>
        preparePatch draw.changeId
          ⟨.ssh,path,current,plannedText action current content,action,destination,0,0⟩)
      (fun _ => Looked seen d) (Looked seen d) d' := by
  refine .lift_bind (fun _ hcheck => .get_bind (.lift_bind (fun target htarget => ?_)
    fun _ _ => hd')) fun _ _ => hd'
  unfold hostPreviewCheck at hcheck
  split at hcheck
  · cases hcheck
  rename_i haction
  apply leads_modifyFiles
  refine hd'.prepare hsame (wellFormed_change haction ?_ ?_ ?_) draw.changeId
  · intro hcreate
    subst hcreate
    cases current with
    | none => rfl
    | some _ => simp at hcheck
  · intro hne hnone
    subst hnone
    simp only [hne,Option.isSome_none,Bool.false_eq_true,and_false,if_false] at hcheck
    split at hcheck
    · cases hcheck
    · exact absurd (by simpa using hcheck) hne
  · unfold hostDestination at htarget
    by_cases hrename : action = .rename
    · rw [if_neg (not_not.mpr hrename)] at htarget
      obtain ⟨_,_,htarget⟩ := (except_bind_ok _ _ _).mp htarget
      split at htarget
      · cases htarget
      · simp [hrename,← Except.ok.inj htarget]
    · rw [if_pos hrename] at htarget
      simp [hrename,← Except.ok.inj htarget]

theorem previewHostChange_leads (action : Action) (path destination content : String) (draw : Draw) :
    Leads (previewHostChange w action path destination content draw)
      (fun _ => Looked (hostRead w d.host path) d) (Looked (hostRead w d.host path) d) d := by
  refine .lift_bind (fun resolved hresolved => ?_) fun e he => ?_
  · refine .bind (.get_bind (.ite (fun _ => ?_) fun habsent => .pure ?_))
    · refine .bind ((readHostFile_leads resolved).mono ?_ ?_)
      · intro current d' hd'
        obtain ⟨version,hread,rfl⟩ := hd'
        rw [hostRead_ok hresolved hread]
        exact .pure (hostPreview_leads (looked_version resolved current version d.files.reads) rfl ..)
      · intro d' hd'
        obtain ⟨rfl,e,he⟩ := hd'
        exact looked_unreadable hresolved he
    · have hmissing : d.host.disk (w.remoteReal resolved) = none := by simpa using habsent
      have hunread : d.host.readFile (w.remoteReal resolved) = .error "远程文件信息读取失败。" := by
        simp [Host.readFile,Host.metadata,hmissing,bind,Except.bind]
      rw [hostRead_unreadable hresolved hunread]
      exact hostPreview_leads looked_refl rfl ..
  · exact looked_unresolved he

theorem previewFileChange_leads (target : WorkspaceTarget) (action : Action)
    (path destination content : String) (draw : Draw) :
    Leads (previewFileChange w target action path destination content draw)
      (fun _ => Looked (sees w d.host target path) d) (Looked (sees w d.host target path) d) d := by
  cases target with
  | localFiles => exact previewLocalChange_leads action path destination content draw
  | ssh => exact previewHostChange_leads action path destination content draw

end Previews

end Mxterm.Workspace
