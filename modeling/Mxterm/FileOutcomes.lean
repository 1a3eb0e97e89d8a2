import Mxterm.FileTools
import Mxterm.WeakestPreconditions

/-! What the file operations do where they succeed, and what each tool that applies a change has seen
and done by then. -/
namespace Mxterm.Workspace

open Execution

section Disk

variable {w : Roots} {d d' : Disk} {requested : String} {before : Option String} {after : String}

theorem readVersion_ok : w.readVersion d requested = .ok before ↔ ∃ file,
    w.resolve requested = .ok file ∧ d file = before.map Node.text ∧ ∀ s ∈ before, Readable s := by
  unfold Roots.readVersion
  rw [except_bind_ok]
  apply exists_congr
  intro file
  apply and_congr_right
  intro _
  cases hnode : d file with
  | none => cases before <;> simp [pure,Except.pure]
  | some node =>
    simp only [except_bind_ok,read_ok]
    cases before with
    | none => simp [pure,Except.pure]
    | some s =>
      simp only [pure,Except.pure,Except.ok.injEq,Option.some.injEq,Option.map_some,Option.mem_def]
      constructor
      · rintro ⟨_,⟨rfl,hs⟩,rfl⟩
        exact ⟨rfl,fun s' hs' => hs' ▸ hs⟩
      · rintro ⟨rfl,hs⟩
        exact ⟨s,⟨rfl,hs s rfl⟩,rfl⟩

theorem createDirAll_some {directory : FilePath} (h : createDirAll d directory = some d')
    (path : FilePath) :
    d' path = d path ∨ d path = none ∧ d' path = some .directory ∧ path <+: directory := by
  unfold createDirAll at h
  split at h
  · cases h
    by_cases hpath : path ∈ directory.inits ∧ d path = none
    · exact .inr ⟨hpath.2,if_pos hpath,(List.mem_inits _ _).mp hpath.1⟩
    · exact .inl (if_neg hpath)
  · cases h

/-- A disk with new directories above a path. -/
def Grown (d d' : Disk) (path : FilePath) : Prop :=
  ∀ x, d' x = d x ∨ d x = none ∧ d' x = some .directory ∧ x <+: path

theorem grown_refl (d : Disk) (path : FilePath) : Grown d d path := fun _ => .inl rfl

/-- There are directories all the way to the file. -/
def Housed (d : Disk) (file : FilePath) : Prop :=
  file ≠ [] ∧ ∀ x, x <+: file.dropLast → d x = some .directory

theorem createDirAll_inits {directory : FilePath} (h : createDirAll d directory = some d')
    {x : FilePath} (hx : x <+: directory) : d' x = some .directory := by
  unfold createDirAll at h
  split at h
  · rename_i hfree
    have hmem : x ∈ directory.inits := (List.mem_inits _ _).mpr hx
    cases h
    by_cases hnone : d x = none
    · exact if_pos ⟨hmem,hnone⟩
    · dsimp only
      rw [if_neg fun hboth => hnone hboth.2]
      exact (hfree x hmem).resolve_left hnone
  · cases h

theorem writeVersion_ok (h : w.writeVersion d requested before after = .ok d') : ∃ file made,
    w.resolve requested = .ok file ∧ w.readVersion d requested = .ok before ∧ Grown d made file ∧
    Housed made file ∧ d' = made.put file (some (.text (contentToWrite before after))) := by
  unfold Roots.writeVersion at h
  split at h
  · cases h
  rw [except_bind_ok] at h
  obtain ⟨file,hfile,h⟩ := h
  rw [except_bind_ok] at h
  obtain ⟨current,hcurrent,h⟩ := h
  split at h
  · cases h
  rename_i hsame
  obtain rfl : current = before := not_not.mp hsame
  split at h
  · cases h
  rename_i hne
  split at h
  · cases h
  rename_i made hmade
  rw [except_bind_ok] at h
  obtain ⟨again,_,h⟩ := h
  split at h
  · cases h
  refine ⟨file,made,hfile,hcurrent,fun x => ?_,⟨hne,fun x hx => createDirAll_inits hmade hx⟩,
    (Except.ok.inj h).symm⟩
  refine (createDirAll_some hmade x).imp_right fun ⟨hnone,hdir,hpre⟩ => ⟨hnone,hdir,?_⟩
  exact hpre.trans (List.dropLast_prefix file)

theorem removeFile_ok (h : w.removeFile d requested = .ok d') : ∃ file,
    w.resolve requested = .ok file ∧ d file ≠ none ∧ d' = d.put file none := by
  unfold Roots.removeFile at h
  rw [except_bind_ok] at h
  obtain ⟨file,hfile,h⟩ := h
  refine ⟨file,hfile,?_⟩
  split at h
  · rename_i hnode
    exact ⟨by simp [hnode],(Except.ok.inj h).symm⟩
  · rename_i hnode
    exact ⟨by simp [hnode],(Except.ok.inj h).symm⟩
  · cases h

theorem rename_ok {source target : String} (h : w.rename d source target = .ok d') : ∃ from' to' node,
    w.resolve source = .ok from' ∧ w.resolve target = .ok to' ∧ d from' = some node ∧
    d to' ≠ some .directory ∧ d to'.dropLast = some .directory ∧ to' ≠ [] ∧ d' = (d.put from' none).put to' (some node)
      := by
  unfold Roots.rename at h
  rw [except_bind_ok] at h
  obtain ⟨from',hfrom,h⟩ := h
  rw [except_bind_ok] at h
  obtain ⟨to',hto,h⟩ := h
  refine ⟨from',to',?_⟩
  split at h
  · cases h
  · cases h
  rename_i node _ hnode
  split at h
  · cases h
  · rename_i hroom
    refine ⟨node,hfrom,hto,hnode,fun hdir => hroom (.inl hdir),?_,
      fun hroot => hroom (.inr (.inr hroot)),(Except.ok.inj h).symm⟩
    by_contra hparent
    exact hroom (.inr (.inl hparent))

end Disk

section Host

variable {h h' : Host} {path : FilePath}

theorem metadata_ok {version : ℕ × ℕ} : h.metadata path = .ok version ↔
    ∃ node, h.disk path = some node ∧ node ≠ .directory ∧ version = (h.mtime path,node.bytes) := by
  unfold Host.metadata
  cases hnode : h.disk path with
  | none => simp
  | some node => cases node <;> simp [eq_comm]

theorem readFile_ok {content : String} {version : ℕ × ℕ} : h.readFile path = .ok (content,version) ↔
    h.disk path = some (.text content) ∧ Readable content ∧
      version = (h.mtime path,(Node.text content).bytes) := by
  unfold Host.readFile
  simp only [except_bind_ok,metadata_ok]
  constructor
  · rintro ⟨_,⟨node,hnode,-,rfl⟩,hread⟩
    rw [hnode] at hread
    obtain ⟨text,htext,hpair⟩ := (except_bind_ok _ _ _).mp hread
    obtain ⟨rfl,hreadable⟩ := read_ok.mp htext
    cases Except.ok.inj hpair
    exact ⟨hnode,hreadable,rfl⟩
  · rintro ⟨hnode,hreadable,rfl⟩
    refine ⟨_,⟨_,hnode,by simp,rfl⟩,?_⟩
    rw [hnode]
    exact (except_bind_ok _ _ _).mpr ⟨content,read_ok.mpr ⟨rfl,hreadable⟩,rfl⟩

theorem writeFile_ok {content : String} {expected : ℕ × ℕ} {now : ℕ}
    (hok : h.writeFile path content expected now = .ok h') :
    h.metadata path = .ok expected ∧ h' = h.store path (.text content) now := by
  obtain ⟨current,hcurrent,hok⟩ := (except_bind_ok _ _ _).mp hok
  split at hok
  · cases hok
  · rename_i hsame
    rw [not_not.mp hsame] at hcurrent
    exact ⟨hcurrent,(Except.ok.inj hok).symm⟩

variable {source target : FilePath}

theorem copy_some (hcopy : h.copy source target = some h') : ∃ node,
    h.disk source = some node ∧ node ≠ .directory ∧
    h' = h.store (h.landing source target) node (h.mtime source) := by
  unfold Host.copy at hcopy
  split at hcopy
  · cases hcopy
  · cases hcopy
  rename_i node hdir hnode
  dsimp only at hcopy
  split at hcopy
  · cases hcopy
  · exact ⟨node,hnode,hdir,(Option.some.inj hcopy).symm⟩

theorem move_some (hmove : h.move source target = some h') : ∃ node,
    h.disk source = some node ∧ h.disk (h.landing source target) ≠ some .directory ∧
    h' = (h.remove source).store (h.landing source target) node (h.mtime source) := by
  unfold Host.move at hmove
  split at hmove
  · cases hmove
  · cases hmove
  rename_i node _ hnode
  dsimp only at hmove
  split at hmove
  · cases hmove
  · rename_i hroom
    exact ⟨node,hnode,fun hdir => hroom (.inr (.inl hdir)),(Option.some.inj hmove).symm⟩

theorem landing_of_absent (habsent : h.disk target = none) : h.landing source target = target := by
  simp [Host.landing,habsent]

theorem store_disk (node : Node) (time : ℕ) (x : FilePath) :
    (h.store path node time).disk x = if x = path then some node else h.disk x := by
  by_cases hx : x = path
  · simp [Host.store,hx]
  · simp [Host.store,hx,Disk.put_of_ne]

theorem remove_disk (x : FilePath) :
    (h.remove path).disk x = if x = path then none else h.disk x := by
  by_cases hx : x = path
  · simp [Host.remove,hx]
  · simp [Host.remove,hx,Disk.put_of_ne]

end Host

section Calls

variable {d d' : Desk}

variable {Q : Unit → Desk → Prop} {E : Desk → Prop}

theorem leads_modifyFiles {f : WorkspaceState → WorkspaceState} (h : Q () { d with files := f d.files }) :
    Leads (modifyFiles f) Q E d := Leads.modify h

theorem leads_onDisk {f : Disk → Except String Disk}
    (hok : ∀ disk, f d.disk = .ok disk → Q () { d with disk := disk })
    (herror : ∀ e, f d.disk = .error e → E d) :
    Leads (onDisk f) Q E d :=
  .get_bind (.lift_bind (fun disk hdisk => .set_ (hok disk hdisk)) herror)

theorem leads_onHost {f : Host → Except String Host}
    (hok : ∀ host, f d.host = .ok host → Q () { d with host := host })
    (herror : ∀ e, f d.host = .error e → E d) :
    Leads (onHost f) Q E d :=
  .get_bind (.lift_bind (fun host hhost => .set_ (hok host hhost)) herror)

theorem leads_onHostChecked {failed : String} {f : Host → Option Host}
    (hok : ∀ host, f d.host = some host → Q () { d with host := host }) (herror : E d) :
    Leads (onHostChecked failed f) Q E d := by
  refine leads_onHost (fun host hhost => hok host ?_) fun _ _ => herror
  cases hf : f d.host with
  | none => simp [hf] at hhost
  | some found => simpa [hf] using hhost

/-- A prepared change is taken, or it is not there. -/
theorem leads_takePatch {id missing : String} {Q : PendingPatch → Desk → Prop}
    (hok : ∀ patch, d.files.patches id = some patch → Q patch { d with files := d.files.take id })
    (herror : E d) : Leads (takePatch id missing) Q E d := by
  apply Leads.get_bind
  cases hpatch : d.files.patches id with
  | none => exact .throw herror
  | some patch => exact .bind (leads_modifyFiles (.pure (hok patch hpatch)))

end Calls

/-- What applying a file operation does to the local disk. -/
inductive LocalEffect (w : Roots) (patch : PendingPatch) (file : FilePath) (d : Disk) : Disk → Prop
  | written {made : Disk} : patch.action = .create ∨ patch.action = .write → Grown d made file →
      Housed made file → LocalEffect w patch file d
        (made.put file (some (.text (contentToWrite patch.before (patch.after.getD "")))))
  | deleted {made : Disk} : patch.action = .delete → Grown d made file →
      LocalEffect w patch file d (made.put file none)
  | renamed {made : Disk} {target : FilePath} {node : Node} : patch.action = .rename →
      w.resolve (patch.destination.getD "") = .ok target → d file = some node →
      made target ≠ some .directory → made target.dropLast = some .directory → target ≠ [] →
      Grown d made file →
      LocalEffect w patch file d ((made.put file none).put target (some node))
  | nothing : patch.action = .patch → LocalEffect w patch file d d

/-- A call that applied nothing: at most its prepared change is gone, and no file is changed. -/
structure Refused (id : String) (d d' : Desk) : Prop where
  files : d'.files = d.files ∨ d'.files = d.files.take id
  disk : ∀ x, d'.disk x = d.disk x ∨ d.disk x = none ∧ d'.disk x = some .directory ∧
    ∃ file, d.disk file ≠ none ∧ x <+: file

/-- `apply_file_change` has applied a change to the local disk. -/
structure LocalChanged (w : Roots) (messageId id : String) (draw : Draw) (d d' : Desk)
    (patch : PendingPatch) (newId : String) (file : FilePath) : Prop where
  pending : d.files.patches id = some patch
  drawn : patch.action ≠ .patch → newId = draw.operationId ∨ newId = draw.backupId
  resolved : w.resolve patch.path = .ok file
  found : w.readVersion d.disk patch.path = .ok patch.before
  files : d'.files =
    (d.files.take id).registerApplied newId patch messageId draw.checkpointId draw.now
  host : d'.host = d.host
  effect : LocalEffect w patch file d.disk d'.disk

/-- `apply_patch` has applied a change to the local disk. -/
structure LocalPatched (w : Roots) (messageId id : String) (draw : Draw) (d d' : Desk)
    (patch : PendingPatch) (file : FilePath) (made : Disk) : Prop where
  pending : d.files.patches id = some patch
  resolved : w.resolve patch.path = .ok file
  found : w.readVersion d.disk patch.path = .ok patch.before
  files : d'.files =
    (d.files.take id).registerApplied draw.operationId patch messageId draw.checkpointId draw.now
  host : d'.host = d.host
  grown : Grown d.disk made file
  housed : Housed made file
  disk : d'.disk = made.put file (some (.text (contentToWrite patch.before (patch.after.getD ""))))

theorem contentToWrite_self (b : String) : contentToWrite (some b) b = b := by
  simp [contentToWrite]

section LocalCalls

variable {w : Roots} {d : Desk} {patch : PendingPatch} {file : FilePath}

/-- The backup leaves the file as it is. -/
theorem takeBackup_leads (draw : Draw) (hfile : w.resolve patch.path = .ok file)
    (hread : w.readVersion d.disk patch.path = .ok patch.before) :
    Leads (takeBackup w patch draw) (fun backup d' => ∃ made, d' = { d with disk := made } ∧
        Grown d.disk made file ∧ made file = d.disk file ∧ (d.disk file = none → made = d.disk) ∧
        (patch.action = .create ∨ patch.action = .write ∨ patch.action = .patch →
          made = d.disk ∧ backup = "") ∧
        (patch.action = .delete ∨ patch.action = .rename →
          patch.before ≠ none → backup = draw.backupId))
      (fun d' => d' = d) d := by
  have hnothing : ∀ action, action = Action.create ∨ action = .write ∨ action = .patch →
      ¬ (action = .delete ∨ action = .rename) := by
    intro action h
    rcases h with rfl | rfl | rfl <;> simp
  refine .ite (fun hbackup => ?_) fun hnone => .pure ?_
  · refine .bind (leads_onDisk (fun disk hdisk => .pure ?_) fun _ _ => rfl)
    obtain ⟨before,hbefore⟩ := Option.isSome_iff_exists.mp hbackup.1
    obtain ⟨file',made,hfile',hread',hgrown,-,rfl⟩ := writeVersion_ok hdisk
    cases hfile.symm.trans hfile'
    obtain ⟨_,hfile'',hnode,-⟩ := readVersion_ok.mp hread
    cases hfile.symm.trans hfile''
    rw [hbefore] at hnode ⊢
    rw [contentToWrite_self]
    have hput : made.put file (some (.text before)) file = d.disk file := by
      rw [Disk.put_self,hnode]
      rfl
    refine ⟨_,rfl,fun x => ?_,hput,fun h => ?_,fun h => absurd hbackup.2 (hnothing _ h),
      fun _ _ => rfl⟩
    by_cases hx : x = file
    · exact .inl (hx ▸ hput)
    · rw [Disk.put_of_ne _ hx]
      exact hgrown x
    · rw [hnode] at h
      cases h
  · refine ⟨d.disk,rfl,grown_refl _ _,rfl,fun _ => rfl,fun _ => ⟨rfl,rfl⟩,fun haction hbefore => ?_⟩
    exact absurd ⟨Option.isSome_iff_ne_none.mpr hbefore,haction⟩ hnone

/-- The operation itself, after the backup. -/
theorem localOperation_leads {d₀ : Disk} {backup : String} (draw : Draw)
    (hfile : w.resolve patch.path = .ok file) (hgrown : Grown d₀ d.disk file)
    (hsame : d.disk file = d₀ file) (hnode : d₀ file = patch.before.map Node.text)
    (hplain : patch.action = .create ∨ patch.action = .write ∨ patch.action = .patch →
      d.disk = d₀ ∧ backup = "")
    (hbackup : patch.action = .delete ∨ patch.action = .rename →
      patch.before ≠ none → backup = draw.backupId) :
    Leads (localOperation w patch backup draw) (fun operation d' => ∃ disk,
        d' = { d with disk := disk } ∧ LocalEffect w patch file d₀ disk ∧
        (patch.action ≠ .patch → operation = draw.operationId ∨ operation = draw.backupId))
      (fun d' => d' = d) d := by
  have hwrite : ∀ before, (patch.action = .create ∨ patch.action = .write) → (∀ disk,
      w.writeVersion d.disk patch.path before (patch.after.getD "") = .ok disk →
      LocalEffect w patch file d₀ disk) := by
    intro before haction disk hdisk
    obtain ⟨file',made,hfile',hread,hmade,hhoused,rfl⟩ := writeVersion_ok hdisk
    cases hfile.symm.trans hfile'
    obtain ⟨_,hfile'',hnode',-⟩ := readVersion_ok.mp hread
    cases hfile.symm.trans hfile''
    have hbefore : before = patch.before := by
      have hmap := hnode'.symm.trans (hsame.trans hnode)
      exact Option.map_injective (fun a b h => Node.text.inj h) hmap
    rw [(hplain (haction.imp_right .inl)).1] at hmade
    exact hbefore ▸ .written haction hmade hhoused
  unfold localOperation
  cases haction : patch.action with
  | create =>
    refine .bind (leads_onDisk (fun disk hdisk => .pure ⟨disk,rfl,?_,fun _ => .inl rfl⟩) fun _ _ => rfl)
    exact hwrite _ (.inl haction) disk hdisk
  | write =>
    refine .bind (leads_onDisk (fun disk hdisk => .pure ⟨disk,rfl,?_,fun _ => .inl rfl⟩) fun _ _ => rfl)
    exact hwrite _ (.inr haction) disk hdisk
  | delete =>
    refine .bind (leads_onDisk (fun disk hdisk => .pure ⟨disk,rfl,?_,fun _ => .inr ?_⟩) fun _ _ => rfl)
    all_goals
      obtain ⟨file',hfile',hthere,rfl⟩ := removeFile_ok hdisk
      cases hfile.symm.trans hfile'
    · exact .deleted haction hgrown
    · apply hbackup (.inl haction)
      intro hnone
      exact hthere (by rw [hsame,hnode,hnone]; rfl)
  | rename =>
    refine .bind (leads_onDisk (fun disk hdisk => .pure ⟨disk,rfl,?_,fun _ => .inr ?_⟩) fun _ _ => rfl)
    all_goals
      obtain ⟨file',target,node,hfile',htarget,hthere,hroom,hparent,hroot,rfl⟩ := rename_ok hdisk
      cases hfile.symm.trans hfile'
    · exact .renamed haction htarget (hsame ▸ hthere) hroom hparent hroot hgrown
    · apply hbackup (.inr haction)
      intro hnone
      rw [hsame,hnode,hnone] at hthere
      cases hthere
  | patch =>
    refine .pure ⟨d.disk,rfl,?_,fun h => absurd rfl h⟩
    rw [(hplain (.inr (.inr haction))).1]
    exact .nothing haction

theorem applyLocalChange_leads (messageId id : String) (approved : Bool) (draw : Draw) :
    Leads (applyLocalChange w messageId id approved draw)
      (fun _ d' => ∃ patch newId file, LocalChanged w messageId id draw d d' patch newId file)
      (fun d' => Refused id d d' ∧ d'.host = d.host) d := by
  have hrefused : ∀ files, files = d.files ∨ files = d.files.take id →
      Refused id d { d with files := files } ∧ d.host = d.host := fun files hfiles =>
    ⟨⟨hfiles,fun _ => .inl rfl⟩,rfl⟩
  refine .bind (leads_takePatch (fun patch hpatch => ?_) (hrefused _ (.inl rfl)))
  refine .guard (hrefused _ (.inr rfl)) fun _ => .get_bind (.lift_bind (fun current hcurrent => ?_)
    fun _ _ => hrefused _ (.inr rfl))
  refine .guard (hrefused _ (.inr rfl)) fun hsame => ?_
  rw [not_not.mp hsame] at hcurrent
  obtain ⟨file,hfile,hnode,-⟩ := readVersion_ok.mp hcurrent
  refine .bind ((takeBackup_leads draw hfile hcurrent).mono ?_ ?_)
  · rintro backup _ ⟨made,rfl,hgrown,hmade,habsent,hplain,hbackup⟩
    refine .bind ((localOperation_leads draw hfile hgrown hmade hnode hplain hbackup).mono ?_ ?_)
    · rintro operation _ ⟨disk,rfl,heffect,hoperation⟩
      apply leads_modifyFiles
      refine ⟨patch,_,file,hpatch,fun haction => ?_,hfile,hcurrent,rfl,rfl,heffect⟩
      rcases hoperation haction with rfl | rfl
      · simp [draw.operationId_ne]
      · simp [draw.backupId_ne]
    · rintro _ rfl
      refine ⟨⟨.inr rfl,fun x => ?_⟩,rfl⟩
      by_cases hthere : d.disk file = none
      · exact .inl (congrFun (habsent hthere) x)
      · exact (hgrown x).imp_right fun h => ⟨h.1,h.2.1,file,hthere,h.2.2⟩
  · rintro _ rfl
    exact hrefused _ (.inr rfl)

theorem applyLocalPatch_leads (messageId id : String) (approved : Bool) (draw : Draw) :
    Leads (applyLocalPatch w messageId id approved draw)
      (fun _ d' => ∃ patch file made, LocalPatched w messageId id draw d d' patch file made)
      (fun d' => Refused id d d' ∧ d'.host = d.host) d := by
  have hrefused : ∀ files, files = d.files ∨ files = d.files.take id →
      Refused id d { d with files := files } ∧ d.host = d.host := fun files hfiles =>
    ⟨⟨hfiles,fun _ => .inl rfl⟩,rfl⟩
  refine .bind (leads_takePatch (fun patch hpatch => ?_) (hrefused _ (.inl rfl)))
  refine .guard (hrefused _ (.inr rfl)) fun _ => .bind (leads_onDisk (fun disk hdisk => ?_)
    fun _ _ => hrefused _ (.inr rfl))
  obtain ⟨file,made,hfile,hread,hgrown,hhoused,rfl⟩ := writeVersion_ok hdisk
  exact leads_modifyFiles ⟨patch,file,made,hpatch,hfile,hread,rfl,rfl,hgrown,hhoused,rfl⟩

end LocalCalls

/-- A file of the host has been copied to its backup. -/
def BackedUp (h h' : Host) (source backup : FilePath) : Prop :=
  ∃ node, h.disk source = some node ∧ node ≠ .directory ∧ h' = h.store backup node (h.mtime source)

/-- What applying a file operation does to the host. -/
inductive HostEffect (w : Roots) (patch : PendingPatch) (h : Host) : Host → Prop
  | written (time : ℕ) : patch.action = .create ∨ patch.action = .write →
      HostEffect w patch h (h.store (w.remoteReal patch.path) (.text (patch.after.getD "")) time)
  | deleted : patch.action = .delete → HostEffect w patch h (h.remove (w.remoteReal patch.path))
  | renamed {destination : String} {node : Node} : patch.action = .rename →
      patch.destination = some destination → h.disk (w.remoteReal patch.path) = some node →
      h.disk (h.landing (w.remoteReal patch.path) (w.remoteReal destination)) ≠ some .directory →
      HostEffect w patch h ((h.remove (w.remoteReal patch.path)).store
        (h.landing (w.remoteReal patch.path) (w.remoteReal destination)) node
        (h.mtime (w.remoteReal patch.path)))

/-- No file has the backup name that a call draws. -/
def Draw.Unused (w : Roots) (draw : Draw) (h : Host) : Prop :=
  ∀ path, h.disk (w.remoteReal (backupPath path draw.backupId)) = none

section HostCalls

variable {w : Roots} {d : Desk} {patch : PendingPatch}

theorem store_store (h : Host) (path : FilePath) (first second : Node) (time time' : ℕ) :
    (h.store path first time).store path second time' = h.store path second time' := by
  simp [Host.store,Disk.put]

theorem metadata_store (h : Host) (path : FilePath) (content : String) (time : ℕ) :
    (h.store path (.text content) time).metadata path = .ok (time,textBytes content) := by
  simp [Host.metadata,Host.store,Node.bytes]

theorem hostVersion_leads (path : String) : Leads (hostVersion w path)
    (fun version d' => d' = d ∧ d.host.disk (w.remoteReal path) = version.map Node.text ∧
      ∀ s ∈ version, Readable s) (fun d' => d' = d) d := by
  refine .get_bind (.ite (fun _ => ?_) fun habsent => .pure ⟨rfl,?_,by simp⟩)
  · refine .lift_bind (fun file hfile => ?_) fun _ _ => rfl
    obtain ⟨hnode,hreadable,-⟩ := readFile_ok.mp hfile
    exact .pure ⟨rfl,hnode,by simpa using hreadable⟩
  · simpa using habsent

/-- A copy to an unused name. -/
theorem copy_unused {h h' : Host} {source backup : FilePath} (hunused : h.disk backup = none)
    (hcopy : h.copy source backup = some h') : BackedUp h h' source backup := by
  obtain ⟨node,hnode,hfile,rfl⟩ := copy_some hcopy
  rw [landing_of_absent hunused]
  exact ⟨node,hnode,hfile,rfl⟩

/-- The backup leaves every file that was there. -/
theorem BackedUp.disk {h h' : Host} {source backup x : FilePath} (hback : BackedUp h h' source backup)
    (hx : x ≠ backup) : h'.disk x = h.disk x := by
  obtain ⟨node,-,-,rfl⟩ := hback
  rw [store_disk,if_neg hx]

theorem hostOperation_leads (draw : Draw) : Leads (hostOperation w patch draw)
    (fun _ d' => ∃ host, d' = { d with host := host } ∧ HostEffect w patch d.host host ∧
      (patch.action = .create → d.host.disk (w.remoteReal patch.path) = none))
    (fun d' => d' = d) d := by
  unfold hostOperation
  cases haction : patch.action with
  | create =>
    refine .bind (leads_onHost (fun host hhost => .get_bind (.lift_bind (fun version hversion => ?_)
      fun e he => ?_)) fun _ _ => rfl)
    all_goals
      unfold Host.createFile at hhost
      split at hhost
      · cases hhost
      rename_i hroom
      have habsent : d.host.disk (w.remoteReal patch.path) = none := by
        by_contra hthere
        exact hroom (.inl hthere)
      cases hhost
    · have hstored := metadata_store d.host (w.remoteReal patch.path) "" draw.seconds
      cases hversion.symm.trans hstored
      refine .runIf (fun _ => leads_onHost (fun host hwrite => ?_) fun e he => ?_) fun hempty => ?_
      · obtain ⟨-,rfl⟩ := writeFile_ok hwrite
        rw [store_store]
        exact ⟨_,rfl,.written _ (.inl haction),fun _ => habsent⟩
      · simp [Host.writeFile,hstored,bind,Except.bind,pure,Except.pure] at he
      · have hafter := HostEffect.written (w := w) (h := d.host) draw.seconds (.inl haction)
        rw [not_not.mp hempty] at hafter
        exact ⟨_,rfl,hafter,fun _ => habsent⟩
    · rw [metadata_store] at he
      cases he
  | write =>
    refine .get_bind (.lift_bind (fun file _ => leads_onHost (fun host hwrite => ?_) fun _ _ => rfl)
      fun _ _ => rfl)
    obtain ⟨-,rfl⟩ := writeFile_ok hwrite
    exact ⟨_,rfl,.written _ (.inr haction),by simp⟩
  | delete =>
    refine leads_onHostChecked (fun host hremove => ?_) rfl
    unfold Host.removeForce at hremove
    split at hremove
    · cases hremove
    · cases hremove
      exact ⟨_,rfl,.deleted haction,by simp⟩
  | rename =>
    cases hdestination : patch.destination with
    | none => exact .throw rfl
    | some destination =>
      refine leads_onHostChecked (fun host hmove => ?_) rfl
      obtain ⟨node,hnode,hroom,rfl⟩ := move_some hmove
      exact ⟨_,rfl,.renamed haction hdestination hnode hroom,by simp⟩
  | patch => exact .throw rfl

/-- Where a call on the host that applied nothing leaves the files of the host. -/
def Spared (w : Roots) (draw : Draw) (h h' : Host) : Prop :=
  h' = h ∨ ∃ source path, BackedUp h h' source (w.remoteReal (backupPath path draw.backupId))

/-- `apply_patch` has applied a change to the host; `host` is the host with the backup. -/
structure HostPatched (w : Roots) (messageId id : String) (draw : Draw) (d d' : Desk)
    (patch : PendingPatch) (version : ℕ × ℕ) (host : Host) : Prop where
  pending : d.files.patches id = some patch
  known : d.files.remoteMeta (scopedWorkspacePath .ssh patch.path) = some version
  backup : BackedUp d.host host (w.remoteReal patch.path)
    (w.remoteReal (backupPath patch.path draw.backupId))
  current : host.metadata (w.remoteReal patch.path) = .ok version
  disk : d'.disk = d.disk
  host : d'.host = host.store (w.remoteReal patch.path) (.text (patch.after.getD "")) draw.seconds
  files : d'.files = (d.files.take id).registerApplied (backupPath patch.path draw.backupId) patch
    messageId draw.checkpointId draw.now

/-- `apply_file_change` has applied a change to the host; `host` is the host with the backup. -/
structure HostChanged (w : Roots) (messageId id : String) (draw : Draw) (d d' : Desk)
    (patch : PendingPatch) (host : Host) : Prop where
  pending : d.files.patches id = some patch
  found : d.host.disk (w.remoteReal patch.path) = patch.before.map Node.text
  readable : ∀ s ∈ patch.before, Readable s
  backup : patch.before = none ∧ host = d.host ∨ BackedUp d.host host (w.remoteReal patch.path)
    (w.remoteReal (backupPath patch.path draw.backupId))
  effect : HostEffect w patch host d'.host
  fresh : patch.action = .create → patch.before = none
  disk : d'.disk = d.disk
  files : d'.files = (d.files.take id).registerApplied (backupPath patch.path draw.backupId) patch
    messageId draw.checkpointId draw.now

variable {draw : Draw}

theorem applyHostPatch_leads (messageId id : String) (approved : Bool) (hunused : draw.Unused w d.host) :
    Leads (applyHostPatch w messageId id approved draw)
      (fun _ d' => ∃ patch version host, HostPatched w messageId id draw d d' patch version host)
      (fun d' => Refused id d d' ∧ Spared w draw d.host d'.host) d := by
  have hrefused : ∀ files host, files = d.files ∨ files = d.files.take id → Spared w draw d.host host →
      Refused id d { d with files := files, host := host } ∧ Spared w draw d.host host :=
    fun files host hfiles hhost => ⟨⟨hfiles,fun _ => .inl rfl⟩,hhost⟩
  refine .bind (leads_takePatch (fun patch hpatch => ?_) (hrefused _ _ (.inl rfl) (.inl rfl)))
  have htaken := hrefused _ _ (.inr rfl) (.inl rfl)
  refine .guard htaken fun _ => .guard htaken fun _ => .bind (leads_onHostChecked (fun host hcopy => ?_)
    htaken)
  have hback := copy_unused (hunused _) hcopy
  have hspared := hrefused _ host (.inr rfl) (.inr ⟨_,_,hback⟩)
  refine .get_bind ?_
  cases hversion : d.files.remoteMeta (scopedWorkspacePath .ssh patch.path) with
  | none =>
    have hnone : (d.files.take id).remoteMeta (scopedWorkspacePath .ssh patch.path) = none := hversion
    simp only [hnone]
    exact .throw hspared
  | some version =>
    have hsome : (d.files.take id).remoteMeta (scopedWorkspacePath .ssh patch.path) = some version :=
      hversion
    simp only [hsome]
    refine .bind (leads_onHost (fun host' hwrite => ?_) fun _ _ => hspared)
    obtain ⟨hmetadata,rfl⟩ := writeFile_ok hwrite
    exact leads_modifyFiles ⟨patch,version,host,hpatch,hversion,hback,hmetadata,rfl,rfl,rfl⟩

theorem applyHostChange_leads (messageId id : String) (approved : Bool) (hunused : draw.Unused w d.host) :
    Leads (applyHostChange w messageId id approved draw)
      (fun _ d' => ∃ patch host, HostChanged w messageId id draw d d' patch host)
      (fun d' => Refused id d d' ∧ Spared w draw d.host d'.host) d := by
  have hrefused : ∀ files host, files = d.files ∨ files = d.files.take id → Spared w draw d.host host →
      Refused id d { d with files := files, host := host } ∧ Spared w draw d.host host :=
    fun files host hfiles hhost => ⟨⟨hfiles,fun _ => .inl rfl⟩,hhost⟩
  refine .bind (leads_takePatch (fun patch hpatch => ?_) (hrefused _ _ (.inl rfl) (.inl rfl)))
  have htaken := hrefused _ _ (.inr rfl) (.inl rfl)
  refine .guard htaken fun _ => .guard htaken fun _ => .bind ((hostVersion_leads patch.path).mono ?_ ?_)
  · rintro version _ ⟨rfl,hnode,hreadable⟩
    refine .guard htaken fun hsame => ?_
    rw [not_not.mp hsame] at hnode hreadable
    have hrest : ∀ host, patch.before = none ∧ host = d.host ∨ BackedUp d.host host
        (w.remoteReal patch.path) (w.remoteReal (backupPath patch.path draw.backupId)) →
        Spared w draw d.host host →
        Leads (hostOperation w patch draw >>= fun _ =>
          registerApplied (backupPath patch.path draw.backupId) patch messageId draw)
          (fun _ d' => ∃ patch host, HostChanged w messageId id draw d d' patch host)
          (fun d' => Refused id d d' ∧ Spared w draw d.host d'.host)
          { d with files := d.files.take id, host := host } := by
      intro host hback hhost
      refine .bind ((hostOperation_leads draw).mono ?_ ?_)
      · rintro _ _ ⟨host',rfl,heffect,hcreate⟩
        refine leads_modifyFiles ⟨patch,host,hpatch,hnode,hreadable,hback,heffect,fun haction => ?_,
          rfl,rfl⟩
        rcases hback with ⟨hnone,-⟩ | ⟨node,hthere,-,rfl⟩
        · exact hnone
        · have habsent := hcreate haction
          rw [store_disk] at habsent
          split at habsent
          · cases habsent
          · rw [habsent] at hthere
            cases hthere
      · rintro _ rfl
        exact hrefused _ host (.inr rfl) hhost
    refine .bind (.runIf (fun _ => leads_onHostChecked (fun host hcopy => ?_) htaken) fun hnone => ?_)
    · have hback := copy_unused (hunused _) hcopy
      exact hrest host (.inr hback) (.inr ⟨_,_,hback⟩)
    · exact hrest d.host (.inl ⟨by simpa using hnone,rfl⟩) (.inl rfl)
  · rintro _ rfl
    exact htaken

/-- A call for a prepared change goes to the target of the change. -/
theorem callTarget_pending {requested : WorkspaceTarget} {id : String}
    (hpatch : d.files.patches id = some patch) : callTarget d requested id = patch.target := by
  simp [callTarget,hpatch]

theorem applyPatch_leads (requested : WorkspaceTarget) (messageId id : String) (approved : Bool)
    (hunused : draw.Unused w d.host) :
    Leads (applyPatch w requested messageId id approved draw)
      (fun _ d' => ∃ patch : PendingPatch,
        (patch.target = .localFiles ∧ ∃ file made,
          LocalPatched w messageId id draw d d' patch file made) ∨
        (patch.target = .ssh ∧ ∃ version host, HostPatched w messageId id draw d d' patch version host))
      (fun d' => Refused id d d' ∧ Spared w draw d.host d'.host) d := by
  apply Leads.get_bind
  cases htarget : callTarget d requested id with
  | localFiles =>
    refine (applyLocalPatch_leads messageId id approved draw).mono ?_ fun d' h => ⟨h.1,.inl h.2⟩
    intro _ d' h
    obtain ⟨patch,file,made,h⟩ := h
    exact ⟨patch,.inl ⟨(callTarget_pending h.pending).symm.trans htarget,file,made,h⟩⟩
  | ssh =>
    refine (applyHostPatch_leads messageId id approved hunused).mono ?_ fun d' h => h
    intro _ d' h
    obtain ⟨patch,version,host,h⟩ := h
    exact ⟨patch,.inr ⟨(callTarget_pending h.pending).symm.trans htarget,version,host,h⟩⟩

theorem applyFileChange_leads (requested : WorkspaceTarget) (messageId id : String) (approved : Bool)
    (hunused : draw.Unused w d.host) :
    Leads (applyFileChange w requested messageId id approved draw)
      (fun _ d' => ∃ patch : PendingPatch,
        (patch.target = .localFiles ∧ ∃ newId file,
          LocalChanged w messageId id draw d d' patch newId file) ∨
        (patch.target = .ssh ∧ ∃ host, HostChanged w messageId id draw d d' patch host))
      (fun d' => Refused id d d' ∧ Spared w draw d.host d'.host) d := by
  apply Leads.get_bind
  cases htarget : callTarget d requested id with
  | localFiles =>
    refine (applyLocalChange_leads messageId id approved draw).mono ?_ fun d' h => ⟨h.1,.inl h.2⟩
    intro _ d' h
    obtain ⟨patch,newId,file,h⟩ := h
    exact ⟨patch,.inl ⟨(callTarget_pending h.pending).symm.trans htarget,newId,file,h⟩⟩
  | ssh =>
    refine (applyHostChange_leads messageId id approved hunused).mono ?_ fun d' h => h
    intro _ d' h
    obtain ⟨patch,host,h⟩ := h
    exact ⟨patch,.inr ⟨(callTarget_pending h.pending).symm.trans htarget,host,h⟩⟩

end HostCalls

end Mxterm.Workspace
