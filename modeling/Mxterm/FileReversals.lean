import Mxterm.FileEdits
import Mxterm.FileRollback

/-! Taking back a change performs the reverse of its edit, on the local disk and on the host. -/
namespace Mxterm.Workspace

open Execution Edits

/-- A path leads to a file with this text, or to nothing. -/
def Desk.Holds (w : Roots) (d : Desk) (target : WorkspaceTarget) (path : String) (text : Option String) :
    Prop :=
  ∃ file, w.file? target path = some file ∧ d.node (target,file) = text.map .text

/-- The files are as a change left them. -/
def AsLeft (w : Roots) (d : Desk) (p : PendingPatch) : Prop :=
  match p.action with
  | .delete => d.Holds w p.target p.path none
  | .rename => d.Holds w p.target p.path none ∧ d.Holds w p.target (p.destination.getD "") p.before
  | _ => d.Holds w p.target p.path p.after

/-- Writing the old text over the new one stores the old text, whatever its line ends. -/
def PendingPatch.RestoresText (p : PendingPatch) : Prop :=
  ∀ before after, p.target = .localFiles → p.before = some before → p.after = some after →
    contentToWrite (some after) before = before

/-- The edit of a change can be reversed on the files of the desk. -/
def Reversible (w : Roots) (d : Desk) (p : PendingPatch) : Prop :=
  (editOf w p).reverse.Fits (look w d) ∧ p.RestoresText

/-- The change was taken back; what the agent remembers is not touched yet. -/
structure TakenBack (w : Roots) (p : PendingPatch) (d d' : Desk) : Prop where
  files : d'.files = d.files
  look : look w d' = (editOf w p).reverse.perform (look w d)
  backups : ∀ x, IsBackup w x → d'.host.disk x = d.host.disk x

section TakingBack

variable {w : Roots} {d d' : Desk} {p : PendingPatch} {file destination : FilePath}

/-- A change of one file is taken back where its old text stands again. -/
theorem look_restored (hfile : w.file? p.target p.path = some file) (haction : p.action ≠ .rename)
    (hvisible : ¬ Hidden w (p.target,file)) (hafter : d'.node (p.target,file) = p.before.map .text)
    (hothers : ∀ x, x ≠ (p.target,file) → ¬ Hidden w x → fileNode (d'.node x) = fileNode (d.node x)) :
    look w d' = (editOf w p).reverse.perform (look w d) := by
  obtain ⟨after,hedit⟩ := editOf_single hfile haction
  rw [hedit,Edit.reverse_single,Edit.perform_single]
  exact look_update hvisible (by rw [hafter,fileNode_text]) hothers

theorem look_renamedBack (hfile : w.file? p.target p.path = some file)
    (hdestination : w.file? p.target (p.destination.getD "") = some destination)
    (haction : p.action = .rename) (hvisible : ¬ Hidden w (p.target,file))
    (hvisible' : ¬ Hidden w (p.target,destination)) (hne : destination ≠ file)
    (hafter : d'.node (p.target,file) = p.before.map .text)
    (hgone : d'.node (p.target,destination) = none)
    (hothers : ∀ x, x ≠ (p.target,destination) → x ≠ (p.target,file) → ¬ Hidden w x →
      fileNode (d'.node x) = fileNode (d.node x)) :
    look w d' = (editOf w p).reverse.perform (look w d) := by
  rw [editOf_rename hfile hdestination haction,Edit.reverse_and,Edit.perform_and,Edit.reverse_single,
    Edit.reverse_single,Edit.perform_single,Edit.perform_single]
  exact look_move hvisible' hvisible (fun hsame => hne (Prod.mk.inj hsame).2)
    (by rw [hafter,fileNode_text]) hgone hothers

/-- What a renamed file holds, where its edit can be reversed. -/
theorem renamed_node (hfile : w.file? p.target p.path = some file)
    (hdestination : w.file? p.target (p.destination.getD "") = some destination)
    (haction : p.action = .rename) (hwell : p.WellFormed)
    (hvisible' : ¬ Hidden w (p.target,destination)) (hne : destination ≠ file)
    (hfits : (editOf w p).reverse.Fits (look w d)) :
    d.node (p.target,destination) = p.before.map .text := by
  rw [editOf_rename hfile hdestination haction,Edit.reverse_and,Edit.reverse_single,
    Edit.reverse_single] at hfits
  have hthere := hfits.right (Edit.apart_single fun hsame => hne (Prod.mk.inj hsame).2.symm)
  rw [Edit.fits_single,look_visible hvisible'] at hthere
  obtain ⟨before,hbefore⟩ := Option.ne_none_iff_exists'.mp (hwell.before (.inr (.inr haction)))
  rw [hbefore] at hthere ⊢
  exact fileNode_eq_text hthere

theorem holds_node {target : WorkspaceTarget} {path : String} {text : Option String}
    (h : d.Holds w target path text) (hfile : w.file? target path = some file) :
    d.node (target,file) = text.map .text := by
  obtain ⟨file',hfile',hnode⟩ := h
  cases hfile.symm.trans hfile'
  exact hnode

variable {disk : Disk}

/-- The old text stands again in a local file, and the other files are as they were. -/
theorem takenBack_local (htarget : p.target = .localFiles) (haction : p.action ≠ .rename)
    (hfile : w.file? .localFiles p.path = some file) (hafter : disk file = p.before.map .text)
    (hothers : ∀ x, x ≠ file → fileNode (disk x) = fileNode (d.disk x)) : TakenBack w p d { d with disk := disk } := by
  rw [← htarget] at hfile
  refine ⟨rfl,look_restored hfile haction (by rw [htarget]; exact not_hidden_local file) ?_
    fun x hx _ => ?_,fun _ _ => rfl⟩
  · rw [htarget]
    exact hafter
  · refine node_local (by rfl) ?_
    rintro x rfl
    exact hothers x fun hsame => hx (by rw [htarget,hsame])

theorem takenBack_write (htarget : p.target = .localFiles) (haction : p.action ≠ .rename) {current : Option String}
    {before : String} (hbefore : p.before = some before) (hrestores : contentToWrite current before = before)
    (hdisk : w.writeVersion d.disk p.path current before = .ok disk) : TakenBack w p d { d with disk := disk } := by
  obtain ⟨file,made,hfile,-,hgrown,-,rfl⟩ := writeVersion_ok hdisk
  refine takenBack_local htarget haction (file?_local.mpr hfile) ?_ fun x hx => ?_
  · rw [Disk.put_self,hrestores,hbefore]
    rfl
  · rw [Disk.put_of_ne _ hx]
    exact hgrown.fileNode x

theorem takenBack_remove (htarget : p.target = .localFiles) (haction : p.action ≠ .rename)
    (hbefore : p.before = none) (hdisk : w.removeFile d.disk p.path = .ok disk) :
    TakenBack w p d { d with disk := disk } := by
  obtain ⟨file,hfile,-,rfl⟩ := removeFile_ok hdisk
  refine takenBack_local htarget haction (file?_local.mpr hfile) ?_ fun x hx => ?_
  · rw [Disk.put_self,hbefore]
    rfl
  · rw [Disk.put_of_ne _ hx]

theorem takenBack_rename (htarget : p.target = .localFiles) (haction : p.action = .rename) (hwell : p.WellFormed)
    (habsent : d.Holds w p.target p.path none) (hfits : (editOf w p).reverse.Fits (look w d))
    (hdisk : w.rename d.disk (p.destination.getD "") p.path = .ok disk) : TakenBack w p d { d with disk := disk } := by
  obtain ⟨destination,file,node,hdestination,hfile,hthere,-,-,-,rfl⟩ := rename_ok hdisk
  have hfile' : w.file? p.target p.path = some file := by rw [htarget,file?_local]; exact hfile
  have hdestination' : w.file? p.target (p.destination.getD "") = some destination := by
    rw [htarget,file?_local]
    exact hdestination
  have hvisible : ∀ x, ¬ Hidden w (p.target,x) := fun x => by rw [htarget]; exact not_hidden_local x
  have hempty := holds_node habsent hfile'
  have hne : destination ≠ file := by
    intro hsame
    rw [← hsame,htarget,Desk.node,hthere] at hempty
    cases hempty
  have hnode := renamed_node hfile' hdestination' haction hwell (hvisible destination) hne hfits
  rw [htarget,Desk.node,hthere] at hnode
  refine ⟨rfl,look_renamedBack hfile' hdestination' haction (hvisible file) (hvisible destination) hne
    ?_ ?_ fun x hx hx' _ => ?_,fun _ _ => rfl⟩
  · rw [htarget]
    dsimp only [Desk.node]
    rw [Disk.put_self,hnode]
  · rw [htarget]
    dsimp only [Desk.node]
    rw [Disk.put_of_ne _ hne,Disk.put_self]
  · refine node_local (by rfl) ?_
    rintro x rfl
    rw [htarget] at hx hx'
    dsimp only
    rw [Disk.put_of_ne _ fun hsame => hx' (by rw [hsame]),Disk.put_of_ne _ fun hsame => hx (by rw [hsame])]

theorem localVersion_leads (path : String) : Leads (localVersion w path)
    (fun version d' => d' = d ∧ d.Holds w .localFiles path version) (fun d' => d' = d) d := by
  refine .get_bind (.lift (fun version hversion => ⟨rfl,?_⟩) fun _ _ => rfl)
  obtain ⟨file,hfile,hnode,-⟩ := readVersion_ok.mp hversion
  exact ⟨file,file?_local.mpr hfile,hnode⟩

theorem contentToWrite_none (content : String) : contentToWrite none content = content := by
  simp [contentToWrite]

/-- A change that left a text in its file. -/
theorem asLeft_written (hkind : p.action = .patch ∨ p.action = .write ∨ p.action = .create)
    (h : d.Holds w p.target p.path p.after) : AsLeft w d p := by
  rcases hkind with hk | hk | hk
  all_goals
    rw [AsLeft,hk]
    exact h

theorem not_rename (hkind : p.action = .patch ∨ p.action = .write) : p.action ≠ .rename := by
  rcases hkind with hk | hk <;> simp [hk]

/-- Taking back a text that replaced another one, or that was new. -/
theorem rollbackText_leads (htarget : p.target = .localFiles) (hwell : p.WellFormed)
    (hkind : p.action = .patch ∨ p.action = .write) {current : Option String}
    (hleft : AsLeft w d p → Reversible w d p) (hasLeft : AsLeft w d p) (hcurrent : current = p.after) :
    Leads (match p.before with
        | some before => writeLocal w p.path current before
        | none => removeLocal w p.path)
      (fun _ d' => AsLeft w d p ∧ TakenBack w p d d') (fun d' => d' = d) d := by
  have hrename := not_rename hkind
  obtain ⟨after,hafter⟩ := Option.ne_none_iff_exists'.mp
    (hwell.after (by rcases hkind with hk | hk <;> simp [hk]))
  cases hbefore : p.before with
  | none => exact leads_onDisk (fun disk hdisk =>
      ⟨hasLeft,takenBack_remove htarget hrename hbefore hdisk⟩) fun _ _ => rfl
  | some before =>
    have hrestores := (hleft hasLeft).2 before after htarget hbefore hafter
    rw [hcurrent,hafter]
    exact leads_onDisk (fun disk hdisk =>
      ⟨hasLeft,takenBack_write htarget hrename hbefore hrestores hdisk⟩) fun _ _ => rfl

theorem rollbackLocal_leads (htarget : p.target = .localFiles) (hwell : p.WellFormed)
    (hleft : AsLeft w d p → Reversible w d p) :
    Leads (rollbackLocal w p) (fun _ d' => AsLeft w d p ∧ TakenBack w p d d') (fun d' => d' = d) d := by
  unfold rollbackLocal
  refine .bind ((localVersion_leads p.path).mono ?_ fun _ h => h)
  rintro current d₁ ⟨hd,hholds⟩
  rw [hd]
  rw [← htarget] at hholds
  cases haction : p.action with
  | patch =>
    refine .guard rfl fun hcurrent => ?_
    have hsame := not_not.mp hcurrent
    exact rollbackText_leads htarget hwell (.inl haction) hleft
      (asLeft_written (.inl haction) (hsame ▸ hholds)) hsame
  | write =>
    refine .guard rfl fun hcurrent => ?_
    have hsame := not_not.mp hcurrent
    exact rollbackText_leads htarget hwell (.inr haction) hleft
      (asLeft_written (.inr (.inl haction)) (hsame ▸ hholds)) hsame
  | create =>
    refine .guard rfl fun hcurrent => leads_onDisk (fun disk hdisk => ⟨?_,?_⟩) fun _ _ => rfl
    · exact asLeft_written (.inr (.inr haction)) (not_not.mp hcurrent ▸ hholds)
    · exact takenBack_remove htarget (by simp [haction]) (hwell.absent haction) hdisk
  | delete =>
    obtain ⟨before,hbefore⟩ := Option.ne_none_iff_exists'.mp (hwell.before (.inr (.inl haction)))
    rw [hbefore]
    refine .guard rfl fun hnone => leads_onDisk (fun disk hdisk => ⟨?_,?_⟩) fun _ _ => rfl
    · obtain rfl : current = none := by simpa using hnone
      rw [AsLeft,haction]
      exact hholds
    · exact takenBack_write htarget (by simp [haction]) hbefore (contentToWrite_none before) hdisk
  | rename =>
    cases hdestination : p.destination with
    | none => exact .throw rfl
    | some destination =>
      refine .bind ((localVersion_leads destination).mono ?_ fun _ h => h)
      rintro version d₂ ⟨hd,hthere⟩
      rw [hd]
      refine .guard rfl fun hsame => leads_onDisk (fun disk hdisk => ?_) fun _ _ => rfl
      have hnone : current = none := by
        simpa using fun h => hsame (.inl h)
      have hversion : version = p.before := by
        by_contra hne
        exact hsame (.inr hne)
      rw [hnone] at hholds
      rw [hversion,← htarget] at hthere
      have hasLeft : AsLeft w d p := by
        rw [AsLeft,haction,hdestination]
        exact ⟨hholds,hthere⟩
      exact ⟨hasLeft,takenBack_rename htarget haction hwell hholds (hleft hasLeft).1
        (by rw [hdestination]; exact hdisk)⟩

/-- The backup of a file that a change deleted on the host. -/
def BackupKept (w : Roots) (d : Desk) (id : String) (p : PendingPatch) : Prop :=
  p.target = .ssh → p.action = .delete →
    IsBackup w (w.remoteReal id) ∧ d.host.disk (w.remoteReal id) = p.before.map .text

variable {host : Host}

/-- The old text stands again in a file of the host, and the other files are as they were. -/
theorem takenBack_host (htarget : p.target = .ssh) (haction : p.action ≠ .rename) (hvisible : p.Visible w)
    (hafter : host.disk (w.remoteReal p.path) = p.before.map .text)
    (hothers : ∀ x, x ≠ w.remoteReal p.path → host.disk x = d.host.disk x) :
    TakenBack w p d { d with host := host } := by
  have hfile : w.file? p.target p.path = some (w.remoteReal p.path) := by rw [htarget,file?_ssh]
  have hshown := hvisible p.path List.mem_cons_self _ hfile
  refine ⟨rfl,look_restored hfile haction hshown ?_ fun x hx _ => ?_,fun x hx => hothers x ?_⟩
  · rw [htarget]
    exact hafter
  · refine node_host (by rfl) ?_
    rintro x rfl
    rw [hothers x fun hsame => hx (by rw [htarget,hsame])]
  · rintro rfl
    rw [htarget] at hshown
    exact hshown ⟨rfl,hx⟩

theorem takenBack_store (htarget : p.target = .ssh) (haction : p.action ≠ .rename)
    (hvisible : p.Visible w) {node : Node} (hbefore : p.before.map .text = some node) (time : ℕ) :
    TakenBack w p d { d with host := d.host.store (w.remoteReal p.path) node time } :=
  takenBack_host htarget haction hvisible (by rw [store_disk,if_pos rfl,hbefore]) fun x hx => by
    rw [store_disk,if_neg hx]

theorem takenBack_move (htarget : p.target = .ssh) (haction : p.action = .rename) (hwell : p.WellFormed)
    (hvisible : p.Visible w) {destination : String} (hdestination : p.destination = some destination)
    (habsent : d.host.disk (w.remoteReal p.path) = none) (hfits : (editOf w p).reverse.Fits (look w d))
    (hmove : d.host.move (w.remoteReal destination) (w.remoteReal p.path) = some host) :
    TakenBack w p d { d with host := host } := by
  obtain ⟨node,hthere,-,rfl⟩ := move_some hmove
  rw [landing_of_absent habsent]
  have hfile : w.file? p.target p.path = some (w.remoteReal p.path) := by rw [htarget,file?_ssh]
  have hfile' : w.file? p.target (p.destination.getD "") = some (w.remoteReal destination) := by
    rw [htarget,hdestination,file?_ssh]
    rfl
  have hshown := hvisible p.path List.mem_cons_self _ hfile
  have hshown' : ¬ Hidden w (p.target,w.remoteReal destination) := by
    refine hvisible destination (List.mem_cons_of_mem _ ?_) _ (by rw [htarget,file?_ssh])
    simp [hdestination]
  have hne : w.remoteReal destination ≠ w.remoteReal p.path := by
    intro hsame
    rw [← hsame,hthere] at habsent
    cases habsent
  have hnode := renamed_node hfile hfile' haction hwell hshown' hne hfits
  rw [htarget,Desk.node,hthere] at hnode
  refine ⟨rfl,look_renamedBack hfile hfile' haction hshown hshown' hne ?_ ?_ fun x hx hx' _ => ?_,
    fun x hx => ?_⟩
  · rw [htarget,← hnode]
    dsimp only [Desk.node]
    rw [store_disk,if_pos rfl]
  · rw [htarget]
    dsimp only [Desk.node]
    rw [store_disk,if_neg hne,remove_disk,if_pos rfl]
  · refine node_host (by rfl) ?_
    rintro x rfl
    rw [htarget] at hx hx'
    dsimp only
    rw [store_disk,if_neg fun hsame => hx' (by rw [hsame]),remove_disk,if_neg fun hsame => hx (by rw [hsame])]
  · rw [htarget] at hshown hshown'
    dsimp only
    rw [store_disk,if_neg,remove_disk,if_neg]
    · exact fun hsame => hshown' ⟨rfl,hsame ▸ hx⟩
    · exact fun hsame => hshown ⟨rfl,hsame ▸ hx⟩

theorem hostFile?_leads (path : FilePath) : Leads (hostFile? path)
    (fun file d' => d' = d ∧ match file with
      | none => d.host.disk path = none
      | some (content,_) => d.host.disk path = some (.text content))
    (fun d' => d' = d) d := by
  refine .get_bind (.ite (fun _ => .lift_bind (fun file hfile => .pure ⟨rfl,?_⟩) fun _ _ => rfl)
    fun habsent => .pure ⟨rfl,by simpa using habsent⟩)
  exact (readFile_ok.mp hfile).1

variable {id : String}

/-- A deleted file of the host is copied back from its backup. -/
theorem takenBack_copy (htarget : p.target = .ssh) (haction : p.action = .delete) (hvisible : p.Visible w)
    (hbackup : BackupKept w d id p) (habsent : d.host.disk (w.remoteReal p.path) = none)
    (hcopy : d.host.copy (w.remoteReal id) (w.remoteReal p.path) = some host) :
    TakenBack w p d { d with host := host } := by
  obtain ⟨node,hthere,-,rfl⟩ := copy_some hcopy
  rw [landing_of_absent habsent]
  have hnode := (hbackup htarget haction).2.symm.trans hthere
  exact takenBack_store htarget (by simp [haction]) hvisible hnode _

theorem takenBack_removeForce (htarget : p.target = .ssh) (haction : p.action ≠ .rename) (hvisible : p.Visible w)
    (hbefore : p.before = none) (hremove : d.host.removeForce (w.remoteReal p.path) = some host) :
    TakenBack w p d { d with host := host } := by
  unfold Host.removeForce at hremove
  split at hremove
  · cases hremove
  · cases hremove
    exact takenBack_host htarget haction hvisible (by rw [remove_disk,if_pos rfl,hbefore]; rfl) fun x hx => by
      rw [remove_disk,if_neg hx]

theorem takenBack_writeFile (htarget : p.target = .ssh) (haction : p.action ≠ .rename) (hvisible : p.Visible w)
    {before : String} (hbefore : p.before = some before) {version : ℕ × ℕ} {seconds : ℕ}
    (hwrite : d.host.writeFile (w.remoteReal p.path) before version seconds = .ok host) :
    TakenBack w p d { d with host := host } := by
  obtain ⟨-,rfl⟩ := writeFile_ok hwrite
  exact takenBack_store htarget haction hvisible (by rw [hbefore]; rfl) _

/-- Taking back a text on the host, once the file is known to be as the change left it. -/
theorem rollbackHostText_leads (htarget : p.target = .ssh) (hvisible : p.Visible w)
    (hkind : p.action = .patch ∨ p.action = .write) (hasLeft : AsLeft w d p) (version : ℕ × ℕ)
    (seconds : ℕ) :
    Leads (match p.before with
        | some before => onHost fun host => host.writeFile (w.remoteReal p.path) before version seconds
        | none => onHostChecked "远程工作区回滚失败。" fun host => host.removeForce (w.remoteReal p.path))
      (fun _ d' => AsLeft w d p ∧ TakenBack w p d d') (fun d' => d' = d) d := by
  have hrename := not_rename hkind
  cases hbefore : p.before with
  | none => exact leads_onHostChecked (fun host hremove =>
      ⟨hasLeft,takenBack_removeForce htarget hrename hvisible hbefore hremove⟩) rfl
  | some before => exact leads_onHost (fun host hwrite =>
      ⟨hasLeft,takenBack_writeFile htarget hrename hvisible hbefore hwrite⟩) fun _ _ => rfl

theorem rollbackOnHost_leads (htarget : p.target = .ssh) (hwell : p.WellFormed) (hvisible : p.Visible w)
    (hbackup : BackupKept w d id p) (hleft : AsLeft w d p → Reversible w d p) (seconds : ℕ) :
    Leads (rollbackOnHost w id p seconds) (fun _ d' => AsLeft w d p ∧ TakenBack w p d d')
      (fun d' => d' = d) d := by
  unfold rollbackOnHost
  refine .guard rfl fun _ => .bind ((hostFile?_leads (w.remoteReal p.path)).mono ?_ fun _ h => h)
  rintro current d₁ ⟨hd,hcurrent⟩
  rw [hd]
  have hholds : ∀ content version, current = some (content,version) → some content = p.after →
      d.Holds w p.target p.path p.after := by
    intro content version hsome hafter
    rw [hsome] at hcurrent
    rw [htarget,← hafter]
    exact ⟨_,file?_ssh,hcurrent⟩
  cases haction : p.action with
  | patch =>
    cases hsome : current with
    | none => exact .throw rfl
    | some file =>
      refine .guard rfl fun hsame => ?_
      have hasLeft := asLeft_written (.inl haction) (hholds _ _ hsome (not_not.mp hsame))
      exact rollbackHostText_leads htarget hvisible (.inl haction) hasLeft file.2 seconds
  | write =>
    cases hsome : current with
    | none => exact .throw rfl
    | some file =>
      refine .guard rfl fun hsame => ?_
      have hasLeft := asLeft_written (.inr (.inl haction)) (hholds _ _ hsome (not_not.mp hsame))
      exact rollbackHostText_leads htarget hvisible (.inr haction) hasLeft file.2 seconds
  | create =>
    cases hsome : current with
    | none => exact .throw rfl
    | some file =>
      refine .guard rfl fun hsame => leads_onHostChecked (fun host hremove => ⟨?_,?_⟩) rfl
      · exact asLeft_written (.inr (.inr haction)) (hholds _ _ hsome (not_not.mp hsame))
      · exact takenBack_removeForce htarget (by simp [haction]) hvisible (hwell.absent haction) hremove
  | delete =>
    refine .guard rfl fun hnone => leads_onHostChecked (fun host hcopy => ?_) rfl
    obtain rfl : current = none := by simpa using hnone
    have hasLeft : AsLeft w d p := by
      rw [AsLeft,haction,htarget]
      exact ⟨_,file?_ssh,hcurrent⟩
    exact ⟨hasLeft,takenBack_copy htarget haction hvisible hbackup hcurrent hcopy⟩
  | rename =>
    cases hdestination : p.destination with
    | none => exact .throw rfl
    | some destination =>
      refine .get_bind (.lift_bind (fun file hfile => ?_) fun _ _ => rfl)
      refine .guard rfl fun hsame => leads_onHostChecked (fun host hmove => ?_) rfl
      obtain rfl : current = none := by simpa using fun h => hsame (.inl h)
      have hcontent : some file.1 = p.before := by
        by_contra hne
        exact hsame (.inr hne)
      have hthere : d.host.disk (w.remoteReal destination) = p.before.map .text := by
        cases hread : d.host.readFile (w.remoteReal destination) with
        | error e => rw [hread] at hfile; cases hfile
        | ok read =>
          rw [hread] at hfile
          cases hfile
          rw [(readFile_ok.mp hread).1,← hcontent]
          rfl
      have hasLeft : AsLeft w d p := by
        rw [AsLeft,haction,hdestination,htarget]
        exact ⟨⟨_,file?_ssh,hcurrent⟩,⟨_,file?_ssh,hthere⟩⟩
      exact ⟨hasLeft,
        takenBack_move htarget haction hwell hvisible hdestination hcurrent (hleft hasLeft).1 hmove⟩

/-- One change of a rollback of several. -/
theorem rollbackAppliedPatch_leads (hwell : p.WellFormed) (hvisible : p.Visible w) (hbackup : BackupKept w d id p)
    (hleft : AsLeft w d p → Reversible w d p) (seconds : ℕ) :
    Leads (rollbackAppliedPatch w id p seconds) (fun _ d' => AsLeft w d p ∧ TakenBack w p d d')
      (fun d' => d' = d) d := by
  unfold rollbackAppliedPatch
  cases htarget : p.target with
  | localFiles => exact rollbackLocal_leads htarget hwell hleft
  | ssh => exact rollbackOnHost_leads htarget hwell hvisible hbackup hleft seconds

end TakingBack

section SingleRollback

variable {w : Roots} {d d' : Desk} {p : PendingPatch} {id : String}

/-- What `rollback_patch` asks of the files: for a rename on the host it does not look at the text. -/
def AsLeftForSingle (w : Roots) (d : Desk) (p : PendingPatch) : Prop :=
  if p.target = .ssh ∧ p.action = .rename then d.Holds w p.target p.path none else AsLeft w d p

/-- The change was taken back, and the agent and its checkpoints have forgotten it. -/
def RolledBack (w : Roots) (id : String) (p : PendingPatch) (now : ℕ) (d d' : Desk) : Prop :=
  AsLeftForSingle w d p ∧ ∃ made, TakenBack w p d made ∧
    d' = { made with files := (d.files.remove id).markCheckpointChangeRemoved id now }

theorem leads_forgetChange {made : Desk} (hleft : AsLeftForSingle w d p) (h : TakenBack w p d made) (now : ℕ)
    {E : Desk → Prop} :
    Leads (forgetChange id now) (fun _ d' => RolledBack w id p now d d') E made := by
  apply leads_modifyFiles
  exact ⟨hleft,made,h,by rw [h.files]⟩

theorem leads_takeApplied {missing : String} {Q : PendingPatch → Desk → Prop} {E : Desk → Prop}
    (hok : ∀ p, d.files.get? id = some p → Q p d) (herror : E d) :
    Leads (takeApplied id missing) Q E d := by
  apply Leads.get_bind
  cases hp : d.files.get? id with
  | none => exact .throw herror
  | some p => exact .pure (hok p hp)

theorem rollbackValid_leads (htarget : p.target = .localFiles) {current : Option String}
    (hholds : d.Holds w p.target p.path current) :
    Leads (rollbackValid w p current) (fun valid d' => d' = d ∧ (valid = true → AsLeft w d p))
      (fun d' => d' = d) d := by
  unfold rollbackValid
  cases haction : p.action with
  | create =>
    refine .pure ⟨rfl,fun hvalid => ?_⟩
    obtain rfl : current = p.after := of_decide_eq_true hvalid
    rw [AsLeft,haction]
    exact hholds
  | write =>
    refine .pure ⟨rfl,fun hvalid => ?_⟩
    obtain rfl : current = p.after := (of_decide_eq_true hvalid).2
    rw [AsLeft,haction]
    exact hholds
  | delete =>
    refine .pure ⟨rfl,fun hvalid => ?_⟩
    obtain rfl : current = none := of_decide_eq_true hvalid
    rw [AsLeft,haction]
    exact hholds
  | rename =>
    cases hdestination : p.destination with
    | none => exact .throw rfl
    | some destination =>
      refine .bind ((localVersion_leads destination).mono ?_ fun _ h => h)
      rintro version d₂ ⟨hd,hthere⟩
      rw [hd]
      refine .pure ⟨rfl,fun hvalid => ?_⟩
      obtain ⟨rfl,rfl⟩ := of_decide_eq_true hvalid
      rw [← htarget] at hthere
      rw [AsLeft,haction,hdestination]
      exact ⟨hholds,hthere⟩
  | patch => exact .pure ⟨rfl,fun hvalid => nomatch hvalid⟩

theorem rollbackOperation_leads (htarget : p.target = .localFiles) (hwell : p.WellFormed)
    (hkind : p.action = .create ∨ p.action = .delete ∨ p.action = .rename)
    (habsent : p.action = .rename → d.Holds w p.target p.path none)
    (hreversible : Reversible w d p) :
    Leads (rollbackOperation w p) (fun _ d' => TakenBack w p d d') (fun d' => d' = d) d := by
  unfold rollbackOperation
  cases haction : p.action with
  | create =>
    have hbefore := hwell.absent haction
    refine .runIf (fun _ => leads_onDisk (fun disk hdisk => ?_) fun _ _ => rfl) (absurd hbefore)
    exact takenBack_remove htarget (by simp [haction]) hbefore hdisk
  | delete =>
    obtain ⟨before,hbefore⟩ := Option.ne_none_iff_exists'.mp (hwell.before (.inr (.inl haction)))
    rw [hbefore]
    exact leads_onDisk (fun disk hdisk => takenBack_write htarget (by simp [haction]) hbefore
      (contentToWrite_none before) hdisk) fun _ _ => rfl
  | rename =>
    exact leads_onDisk (fun disk hdisk => takenBack_rename htarget haction hwell (habsent haction)
      hreversible.1 hdisk) fun _ _ => rfl
  | write => simp [haction] at hkind
  | patch => simp [haction] at hkind

theorem rollbackLocalPatch_leads (approved : Bool) (draw : Draw)
    (h : ∀ p, d.files.get? id = some p → p.target = .localFiles ∧ p.WellFormed ∧
      (AsLeft w d p → Reversible w d p)) :
    Leads (rollbackLocalPatch w id approved draw)
      (fun _ d' => ∃ p, d.files.get? id = some p ∧ RolledBack w id p draw.now d d')
      (fun d' => d' = d) d := by
  unfold rollbackLocalPatch
  refine .bind (leads_takeApplied (fun p hp => ?_) rfl)
  obtain ⟨htarget,hwell,hleft⟩ := h p hp
  have hsingle : AsLeft w d p → AsLeftForSingle w d p := by
    intro hasLeft
    rw [AsLeftForSingle,if_neg fun hssh => by simp [htarget] at hssh]
    exact hasLeft
  have hforget : ∀ made, AsLeft w d p → TakenBack w p d made → Leads (forgetChange id draw.now)
      (fun _ d' => ∃ p, d.files.get? id = some p ∧ RolledBack w id p draw.now d d')
      (fun d' => d' = d) made := fun made hasLeft hmade =>
    (leads_forgetChange (hsingle hasLeft) hmade draw.now).mono (fun _ _ hrolled => ⟨p,hp,hrolled⟩)
      fun _ h => h
  refine .ite (fun hkind => ?_) fun hkind => ?_
  · refine .bind ((localVersion_leads p.path).mono ?_ fun _ h => h)
    rintro current d₁ ⟨hd,hholds⟩
    rw [hd]
    rw [← htarget] at hholds
    refine .bind ((rollbackValid_leads htarget hholds).mono ?_ fun _ h => h)
    rintro valid d₂ ⟨hd₂,hvalid⟩
    rw [hd₂]
    refine .guard rfl fun hok => .guard rfl fun _ => ?_
    have hasLeft := hvalid (by simpa using hok)
    have habsent : p.action = .rename → d.Holds w p.target p.path none := by
      intro haction
      rw [AsLeft,haction] at hasLeft
      exact hasLeft.1
    have hkind' : p.action = .create ∨ p.action = .delete ∨ p.action = .rename := by
      rcases hkind with hk | hk | hk | hk
      · exact .inl hk
      · exact absurd hk.2 (hwell.before (.inl hk.1))
      · exact .inr (.inl hk)
      · exact .inr (.inr hk)
    exact .bind ((rollbackOperation_leads htarget hwell hkind' habsent (hleft hasLeft)).mono
      (fun _ made hmade => hforget made hasLeft hmade) fun _ h => h)
  · cases hbefore : p.before with
    | none => exact .throw rfl
    | some before =>
      refine .lift_bind (fun _ _ => .guard rfl fun _ => ?_) fun _ _ => rfl
      have hkind' : p.action = .patch ∨ p.action = .write := by
        cases haction : p.action <;> simp [haction,hbefore] at hkind ⊢
      obtain ⟨after,hafter⟩ := Option.ne_none_iff_exists'.mp
        (hwell.after (by rcases hkind' with hk | hk <;> simp [hk]))
      have hrename := not_rename hkind'
      refine .bind (leads_onDisk (fun disk hdisk => ?_) fun _ _ => rfl)
      rw [hafter,Option.getD_some] at hdisk
      obtain ⟨file,made,hfile,hread,-⟩ := writeVersion_ok hdisk
      obtain ⟨_,hfile',hnode,-⟩ := readVersion_ok.mp hread
      have hasLeft : AsLeft w d p := by
        have hholds : d.Holds w p.target p.path p.after := by
          rw [hafter,htarget]
          exact ⟨_,file?_local.mpr hfile',hnode⟩
        exact asLeft_written (hkind'.imp_right .inl) hholds
      have hrestores := (hleft hasLeft).2 before after htarget hbefore hafter
      exact hforget _ hasLeft (takenBack_write htarget hrename hbefore hrestores hdisk)

theorem asLeftForSingle_of_asLeft (haction : p.action ≠ .rename) (h : AsLeft w d p) :
    AsLeftForSingle w d p := by
  rw [AsLeftForSingle,if_neg fun hssh => haction hssh.2]
  exact h

theorem rollbackHostOperation_leads (htarget : p.target = .ssh) (hwell : p.WellFormed)
    (hvisible : p.Visible w) (hbackup : BackupKept w d id p)
    (hleft : AsLeftForSingle w d p → Reversible w d p) (draw : Draw) :
    Leads (rollbackHostOperation w p id draw)
      (fun _ d' => AsLeftForSingle w d p ∧ TakenBack w p d d') (fun d' => d' = d) d := by
  unfold rollbackHostOperation
  apply Leads.get_bind
  have hholds : ∀ content version, d.host.readFile (w.remoteReal p.path) = .ok (content,version) →
      p.after = some content → d.Holds w p.target p.path p.after := by
    intro content version hread hafter
    rw [htarget,hafter]
    exact ⟨_,file?_ssh,(readFile_ok.mp hread).1⟩
  have hwritten : ∀ (file : String × ℕ × ℕ) before, p.action = .patch ∨ p.action = .write →
      d.host.readFile (w.remoteReal p.path) = .ok file → p.after = some file.1 → p.before = some before →
      Leads (onHost fun host => host.writeFile (w.remoteReal p.path) before file.2 draw.seconds)
        (fun _ d' => AsLeftForSingle w d p ∧ TakenBack w p d d') (fun d' => d' = d) d := by
    intro file before hkind hread hafter hbefore
    have hrename := not_rename hkind
    have hasLeft := asLeftForSingle_of_asLeft hrename
      (asLeft_written (by tauto) (hholds file.1 file.2 hread hafter))
    exact leads_onHost (fun host hwrite =>
      ⟨hasLeft,takenBack_writeFile htarget hrename hvisible hbefore hwrite⟩) fun _ _ => rfl
  cases haction : p.action with
  | patch =>
    refine .lift_bind (fun file hread => .guard rfl fun hafter => ?_) fun _ _ => rfl
    cases hbefore : p.before with
    | none => exact .throw rfl
    | some before => exact hwritten file before (.inl haction) hread (not_not.mp hafter) hbefore
  | write =>
    refine .lift_bind (fun file hread => .guard rfl fun hafter => ?_) fun _ _ => rfl
    cases hbefore : p.before with
    | none => exact .throw rfl
    | some before => exact hwritten file before (.inr haction) hread (not_not.mp hafter) hbefore
  | create =>
    refine .lift_bind (fun file hread => .guard rfl fun hafter => ?_) fun _ _ => rfl
    have hasLeft := asLeftForSingle_of_asLeft (by simp [haction])
      (asLeft_written (.inr (.inr haction)) (hholds file.1 file.2 hread (not_not.mp hafter)))
    exact leads_onHostChecked (fun host hremove => ⟨hasLeft,
      takenBack_removeForce htarget (by simp [haction]) hvisible (hwell.absent haction) hremove⟩) rfl
  | delete =>
    refine leads_onHostChecked (fun host hcopy => ?_) rfl
    split at hcopy
    · rename_i habsent
      have hasLeft : AsLeft w d p := by
        rw [AsLeft,haction,htarget]
        exact ⟨_,file?_ssh,habsent⟩
      exact ⟨asLeftForSingle_of_asLeft (by simp [haction]) hasLeft,
        takenBack_copy htarget haction hvisible hbackup habsent hcopy⟩
    · cases hcopy
  | rename =>
    cases hdestination : p.destination with
    | none => exact .throw rfl
    | some destination =>
      refine leads_onHostChecked (fun host hmove => ?_) rfl
      split at hmove
      · rename_i habsent
        have hasLeft : AsLeftForSingle w d p := by
          rw [AsLeftForSingle,if_pos ⟨htarget,haction⟩,htarget]
          exact ⟨_,file?_ssh,habsent⟩
        exact ⟨hasLeft,
          takenBack_move htarget haction hwell hvisible hdestination habsent (hleft hasLeft).1 hmove⟩
      · cases hmove

theorem rollbackHostPatch_leads (approved : Bool) (draw : Draw)
    (h : ∀ p, d.files.get? id = some p → p.target = .ssh ∧ p.WellFormed ∧ p.Visible w ∧
      BackupKept w d id p ∧ (AsLeftForSingle w d p → Reversible w d p)) :
    Leads (rollbackHostPatch w id approved draw)
      (fun _ d' => ∃ p, d.files.get? id = some p ∧ RolledBack w id p draw.now d d')
      (fun d' => d' = d) d := by
  unfold rollbackHostPatch
  refine .bind (leads_takeApplied (fun p hp => ?_) rfl)
  obtain ⟨htarget,hwell,hvisible,hbackup,hleft⟩ := h p hp
  refine .guard rfl fun _ => .guard rfl fun _ => .bind
    ((rollbackHostOperation_leads htarget hwell hvisible hbackup hleft draw).mono ?_ fun _ h => h)
  intro _ made hmade
  exact (leads_forgetChange hmade.1 hmade.2 draw.now).mono (fun _ _ hrolled => ⟨p,hp,hrolled⟩) fun _ h => h

theorem rollbackPatch_leads (requested : WorkspaceTarget) (approved : Bool) (draw : Draw)
    (hpending : d.files.get? id ≠ none → d.files.patches id = none)
    (h : ∀ p, d.files.get? id = some p → p.WellFormed ∧ p.Visible w ∧ BackupKept w d id p ∧
      (AsLeftForSingle w d p → Reversible w d p)) :
    Leads (rollbackPatch w requested id approved draw)
      (fun _ d' => ∃ p, d.files.get? id = some p ∧ RolledBack w id p draw.now d d')
      (fun d' => d' = d) d := by
  have htarget : ∀ p, d.files.get? id = some p → callTarget d requested id = p.target := by
    intro p hp
    have hnone := hpending (by simp [hp])
    simp [callTarget,hnone,hp]
  apply Leads.get_bind
  cases hcall : callTarget d requested id with
  | localFiles =>
    refine rollbackLocalPatch_leads approved draw fun p hp => ?_
    have hlocal : p.target = .localFiles := (htarget p hp).symm.trans hcall
    obtain ⟨hwell,-,-,hleft⟩ := h p hp
    refine ⟨hlocal,hwell,fun hasLeft => hleft ?_⟩
    rw [AsLeftForSingle,if_neg fun hssh => by simp [hlocal] at hssh]
    exact hasLeft
  | ssh =>
    exact rollbackHostPatch_leads approved draw fun p hp =>
      ⟨(htarget p hp).symm.trans hcall,h p hp⟩

end SingleRollback

end Mxterm.Workspace
