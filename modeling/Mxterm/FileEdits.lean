import Mxterm.Edits
import Mxterm.FilePreviews

/-! Every change of a file as an edit of what the places hold: applying the change performs the edit. -/
namespace Mxterm.Workspace

open Execution Edits Function

/-- A name under which a call on the host keeps what it is about to change. -/
def IsBackup (w : Roots) (x : FilePath) : Prop := ∃ path id, x = w.remoteReal (backupPath path id)

def Hidden (w : Roots) (q : Place) : Prop := q.1 = .ssh ∧ IsBackup w q.2

def fileNode : Option Node → Option Node
  | some .directory => none
  | node => node

open Classical in
/-- What the places hold, apart from directories and backups. -/
noncomputable def look (w : Roots) (d : Desk) (q : Place) : Option Node :=
  if Hidden w q then none else fileNode (d.node q)

/-- The text that applying a change writes. -/
def PendingPatch.written (p : PendingPatch) : String :=
  match p.target with
  | .localFiles => contentToWrite p.before (p.after.getD "")
  | .ssh => p.after.getD ""

/-- What a change does to the places that it touches. -/
def editOf (w : Roots) (p : PendingPatch) : Edit Place (Option Node) :=
  match w.file? p.target p.path with
  | none => fun _ => none
  | some file =>
    match p.action with
    | .delete => .single (p.target,file) (p.before.map .text) none
    | .rename =>
      match w.file? p.target (p.destination.getD "") with
      | none => fun _ => none
      | some destination => (Edit.single (p.target,file) (p.before.map .text) none).and
          (.single (p.target,destination) none (p.before.map .text))
    | _ => .single (p.target,file) (p.before.map .text) (some (.text p.written))

/-- No backup is in the way of the change. -/
def PendingPatch.Visible (w : Roots) (p : PendingPatch) : Prop :=
  ∀ path ∈ p.touchedPaths, ∀ file, w.file? p.target path = some file → ¬ Hidden w (p.target,file)

/-- Nothing stands where the change renames its file to. -/
def Unobstructed (w : Roots) (d : Desk) (p : PendingPatch) : Prop :=
  p.action = .rename → ∀ x, w.file? p.target (p.destination.getD "") = some x →
    d.node (p.target,x) = none

/-- The change was performed on the files of the desk. -/
def Performed (w : Roots) (p : PendingPatch) (d d' : Desk) : Prop :=
  (editOf w p).Fits (look w d) ∧ look w d' = (editOf w p).perform (look w d)

section Look

variable {w : Roots} {d d' : Desk} {p : PendingPatch} {file destination : FilePath}

@[simp] theorem fileNode_text (s : Option String) : fileNode (s.map .text) = s.map .text := by
  cases s <;> rfl

variable {node : Option Node}

theorem fileNode_eq_text {content : String} (h : fileNode node = some (.text content)) :
    node = some (.text content) := by
  unfold fileNode at h
  split at h
  · cases h
  · exact h

theorem not_hidden_local (x : FilePath) : ¬ Hidden w (.localFiles,x) := fun h => nomatch h.1

variable {q : Place}

theorem look_visible (h : ¬ Hidden w q) : look w d q = fileNode (d.node q) := if_neg h

/-- A change on the local disk changes nothing on the host. -/
theorem node_local (hhost : d'.host = d.host) {q : Place}
    (h : ∀ x, q = (.localFiles,x) → fileNode (d'.disk x) = fileNode (d.disk x)) :
    fileNode (d'.node q) = fileNode (d.node q) := by
  obtain ⟨target,x⟩ := q
  cases target with
  | localFiles => exact h x rfl
  | ssh => rw [Desk.node,Desk.node,hhost]

theorem node_host (hdisk : d'.disk = d.disk) {q : Place}
    (h : ∀ x, q = (.ssh,x) → fileNode (d'.host.disk x) = fileNode (d.host.disk x)) :
    fileNode (d'.node q) = fileNode (d.node q) := by
  obtain ⟨target,x⟩ := q
  cases target with
  | localFiles => rw [Desk.node,Desk.node,hdisk]
  | ssh => exact h x rfl

theorem look_same (h : ∀ q, ¬ Hidden w q → fileNode (d'.node q) = fileNode (d.node q)) :
    look w d' = look w d := by
  funext q
  by_cases hq : Hidden w q
  · simp only [look,if_pos hq]
  · rw [look_visible hq,look_visible hq,h q hq]

theorem look_update (hq : ¬ Hidden w q) (hnode : fileNode (d'.node q) = node)
    (hothers : ∀ x, x ≠ q → ¬ Hidden w x → fileNode (d'.node x) = fileNode (d.node x)) :
    look w d' = Function.update (look w d) q node := by
  funext x
  by_cases hx : x = q
  · subst hx
    rw [update_self,look_visible hq,hnode]
  · rw [update_of_ne hx]
    by_cases hhidden : Hidden w x
    · simp only [look,if_pos hhidden]
    · rw [look_visible hhidden,look_visible hhidden,hothers x hx hhidden]

theorem look_move {r : Place} (hq : ¬ Hidden w q) (hr : ¬ Hidden w r) (hqr : q ≠ r)
    (hnode : fileNode (d'.node r) = node) (hgone : d'.node q = none)
    (hothers : ∀ x, x ≠ q → x ≠ r → ¬ Hidden w x → fileNode (d'.node x) = fileNode (d.node x)) :
    look w d' = Function.update (Function.update (look w d) q none) r node := by
  funext x
  by_cases hx : x = r
  · subst hx
    rw [update_self,look_visible hr,hnode]
  · rw [update_of_ne hx]
    by_cases hx' : x = q
    · subst hx'
      rw [update_self,look_visible hq,hgone]
      rfl
    · rw [update_of_ne hx']
      by_cases hhidden : Hidden w x
      · simp only [look,if_pos hhidden]
      · rw [look_visible hhidden,look_visible hhidden,hothers x hx' hx hhidden]

theorem Grown.fileNode {disk made : Disk} {file : FilePath} (h : Grown disk made file) (x : FilePath) :
    fileNode (made x) = fileNode (disk x) := by
  rcases h x with hsame | ⟨hnone,hnew,-⟩
  · rw [hsame]
  · rw [hnone,hnew]
    rfl

theorem editOf_written (hfile : w.file? p.target p.path = some file) (hdelete : p.action ≠ .delete)
    (hrename : p.action ≠ .rename) :
    editOf w p = .single (p.target,file) (p.before.map .text) (some (.text p.written)) := by
  unfold editOf
  rw [hfile]
  cases haction : p.action <;> first | rfl | contradiction

theorem editOf_delete (hfile : w.file? p.target p.path = some file) (haction : p.action = .delete) :
    editOf w p = .single (p.target,file) (p.before.map .text) none := by
  simp [editOf,hfile,haction]

theorem editOf_rename (hfile : w.file? p.target p.path = some file)
    (hdestination : w.file? p.target (p.destination.getD "") = some destination)
    (haction : p.action = .rename) :
    editOf w p = (Edit.single (p.target,file) (p.before.map .text) none).and
      (.single (p.target,destination) none (p.before.map .text)) := by
  simp [editOf,hfile,hdestination,haction]

/-- A change of one file finds its old text there. -/
theorem editOf_single (hfile : w.file? p.target p.path = some file) (haction : p.action ≠ .rename) :
    ∃ after, editOf w p = .single (p.target,file) (p.before.map .text) after := by
  by_cases hdelete : p.action = .delete
  · exact ⟨_,editOf_delete hfile hdelete⟩
  · exact ⟨_,editOf_written hfile hdelete haction⟩

end Look

section Applying

variable {w : Roots} {d d' : Desk} {p : PendingPatch} {file destination : FilePath}

theorem performed_written (hfile : w.file? p.target p.path = some file) (hdelete : p.action ≠ .delete)
    (hrename : p.action ≠ .rename) (hvisible : ¬ Hidden w (p.target,file))
    (hbefore : d.node (p.target,file) = p.before.map .text)
    (hafter : d'.node (p.target,file) = some (.text p.written))
    (hothers : ∀ x, x ≠ (p.target,file) → ¬ Hidden w x → fileNode (d'.node x) = fileNode (d.node x)) :
    Performed w p d d' := by
  rw [Performed,editOf_written hfile hdelete hrename,Edit.fits_single,Edit.perform_single]
  constructor
  · rw [look_visible hvisible,hbefore,fileNode_text]
  · exact look_update hvisible (by rw [hafter]; rfl) hothers

theorem performed_deleted (hfile : w.file? p.target p.path = some file) (haction : p.action = .delete)
    (hvisible : ¬ Hidden w (p.target,file)) (hbefore : d.node (p.target,file) = p.before.map .text)
    (hafter : d'.node (p.target,file) = none)
    (hothers : ∀ x, x ≠ (p.target,file) → ¬ Hidden w x → fileNode (d'.node x) = fileNode (d.node x)) :
    Performed w p d d' := by
  rw [Performed,editOf_delete hfile haction,Edit.fits_single,Edit.perform_single]
  constructor
  · rw [look_visible hvisible,hbefore,fileNode_text]
  · exact look_update hvisible (by rw [hafter]; rfl) hothers

theorem performed_renamed (hfile : w.file? p.target p.path = some file)
    (hdestination : w.file? p.target (p.destination.getD "") = some destination)
    (haction : p.action = .rename) (hwell : p.WellFormed) (hvisible : ¬ Hidden w (p.target,file))
    (hvisible' : ¬ Hidden w (p.target,destination))
    (hbefore : d.node (p.target,file) = p.before.map .text) (hfree : d.node (p.target,destination) = none)
    (hgone : d'.node (p.target,file) = none)
    (hafter : d'.node (p.target,destination) = p.before.map .text)
    (hothers : ∀ x, x ≠ (p.target,file) → x ≠ (p.target,destination) → ¬ Hidden w x →
      fileNode (d'.node x) = fileNode (d.node x)) :
    Performed w p d d' := by
  have hne : (p.target,file) ≠ (p.target,destination) := by
    intro hsame
    rw [← hsame,hbefore] at hfree
    exact hwell.before (.inr (.inr haction)) (by simpa using hfree)
  rw [Performed,editOf_rename hfile hdestination haction,Edit.perform_and,Edit.perform_single,
    Edit.perform_single]
  constructor
  · apply Edit.Fits.and
    · rw [Edit.fits_single,look_visible hvisible,hbefore,fileNode_text]
    · rw [Edit.fits_single,look_visible hvisible',hfree]
      rfl
  · rw [update_comm hne.symm]
    exact look_move hvisible hvisible' hne (by rw [hafter,fileNode_text]) hgone hothers

variable {messageId id : String} {draw : Draw}

theorem LocalPatched.performed {made : Disk} (htarget : p.target = .localFiles)
    (hdelete : p.action ≠ .delete) (hrename : p.action ≠ .rename)
    (h : LocalPatched w messageId id draw d d' p file made) : Performed w p d d' := by
  obtain ⟨_,hfile,hnode,-⟩ := readVersion_ok.mp h.found
  cases h.resolved.symm.trans hfile
  have hfile' : w.file? p.target p.path = some file := by rw [htarget,file?_local]; exact hfile
  refine performed_written hfile' hdelete hrename (by rw [htarget]; exact not_hidden_local file)
    (by rw [htarget]; exact hnode) ?_ fun x hx _ => ?_
  · rw [htarget]
    change d'.disk file = _
    rw [h.disk,Disk.put_self,PendingPatch.written,htarget]
  · refine node_local h.host ?_
    rintro x rfl
    rw [h.disk,Disk.put_of_ne _ fun hsame => hx (by rw [htarget,hsame])]
    exact h.grown.fileNode x

theorem LocalChanged.performed {newId : String} (htarget : p.target = .localFiles)
    (haction : p.action ≠ .patch) (hwell : p.WellFormed)
    (hfree : Unobstructed w d p)
    (h : LocalChanged w messageId id draw d d' p newId file) : Performed w p d d' := by
  obtain ⟨_,hfile,hnode,-⟩ := readVersion_ok.mp h.found
  cases h.resolved.symm.trans hfile
  have hfile' : w.file? p.target p.path = some file := by rw [htarget,file?_local]; exact hfile
  have hvisible : ∀ x, ¬ Hidden w (p.target,x) := fun x => by rw [htarget]; exact not_hidden_local x
  have hbefore : d.node (p.target,file) = p.before.map .text := by rw [htarget]; exact hnode
  have hothers : ∀ (disk : Disk), d'.disk = disk → (∀ x, x ≠ file → fileNode (disk x) = fileNode (d.disk x)) →
      ∀ x, x ≠ (p.target,file) → ¬ Hidden w x → fileNode (d'.node x) = fileNode (d.node x) := by
    intro disk hdisk hsame x hx _
    refine node_local h.host ?_
    rintro x rfl
    rw [hdisk]
    exact hsame x fun hxf => hx (by rw [htarget,hxf])
  have heffect := h.effect
  generalize hdisk : d'.disk = disk at heffect
  cases heffect with
  | @written made hkind hgrown _ =>
    have hdelete : p.action ≠ .delete := by rcases hkind with hk | hk <;> simp [hk]
    have hrename : p.action ≠ .rename := by rcases hkind with hk | hk <;> simp [hk]
    refine performed_written hfile' hdelete hrename (hvisible file) hbefore ?_
      (hothers _ hdisk fun x hx => ?_)
    · rw [htarget,Desk.node,hdisk,Disk.put_self,PendingPatch.written,htarget]
    · rw [Disk.put_of_ne _ hx]
      exact hgrown.fileNode x
  | @deleted made hkind hgrown =>
    refine performed_deleted hfile' hkind (hvisible file) hbefore ?_ (hothers _ hdisk fun x hx => ?_)
    · rw [htarget,Desk.node,hdisk,Disk.put_self]
    · rw [Disk.put_of_ne _ hx]
      exact hgrown.fileNode x
  | nothing hkind => exact absurd hkind haction
  | @renamed made destination node hkind hdestination hthere hroom _ _ hgrown =>
    have hdestination' : w.file? p.target (p.destination.getD "") = some destination := by
      rw [htarget,file?_local]
      exact hdestination
    have hempty := hfree hkind destination hdestination'
    have hne : file ≠ destination := by
      intro hsame
      rw [← hsame,htarget,Desk.node,hthere] at hempty
      cases hempty
    refine performed_renamed hfile' hdestination' hkind hwell (hvisible file) (hvisible destination)
      hbefore hempty ?_ ?_ fun x hx hx' _ => ?_
    · rw [htarget,Desk.node,hdisk,Disk.put_of_ne _ hne,Disk.put_self]
    · rw [htarget,Desk.node,hdisk,Disk.put_self,← hthere,hnode]
    · refine node_local h.host ?_
      rintro x rfl
      rw [htarget] at hx hx'
      rw [hdisk,Disk.put_of_ne _ fun hsame => hx' (by rw [hsame]),Disk.put_of_ne _ fun hsame => hx (by rw [hsame])]
      exact hgrown.fileNode x

variable {x : FilePath}

theorem BackedUp.visible {h h' : Host} {source : FilePath} {path backupId : String}
    (hback : BackedUp h h' source (w.remoteReal (backupPath path backupId))) (hx : ¬ Hidden w (.ssh,x)) :
    h'.disk x = h.disk x :=
  hback.disk fun hsame => hx ⟨rfl,path,backupId,hsame⟩

variable {host : Host}

theorem HostPatched.performed {version : ℕ × ℕ} (htarget : p.target = .ssh) (hdelete : p.action ≠ .delete)
    (hrename : p.action ≠ .rename) (hvisible : ¬ Hidden w (.ssh,w.remoteReal p.path))
    (hfound : d.host.disk (w.remoteReal p.path) = p.before.map .text)
    (h : HostPatched w messageId id draw d d' p version host) : Performed w p d d' := by
  have hfile : w.file? p.target p.path = some (w.remoteReal p.path) := by rw [htarget,file?_ssh]
  refine performed_written hfile hdelete hrename (by rw [htarget]; exact hvisible)
    (by rw [htarget]; exact hfound) ?_ fun x hx hshown => ?_
  · rw [htarget,Desk.node,h.host,store_disk,if_pos rfl,PendingPatch.written,htarget]
  · refine node_host h.disk ?_
    rintro x rfl
    rw [h.host,store_disk,if_neg fun hsame => hx (by rw [htarget,hsame]),h.backup.visible hshown]

/-- The backup hides nothing of what the call finds on the host. -/
theorem HostChanged.visible (h : HostChanged w messageId id draw d d' p host) (hx : ¬ Hidden w (.ssh,x)) :
    host.disk x = d.host.disk x := by
  rcases h.backup with ⟨-,rfl⟩ | hback
  · rfl
  · exact hback.visible hx

theorem HostChanged.landing (htarget : p.target = .ssh) (hvisible : p.Visible w) (hfree : Unobstructed w d p)
    (hkind : p.action = .rename) {destination : String} (hdestination : p.destination = some destination)
    (h : HostChanged w messageId id draw d d' p host) :
    ¬ Hidden w (.ssh,w.remoteReal destination) ∧ d.host.disk (w.remoteReal destination) = none ∧
    host.landing (w.remoteReal p.path) (w.remoteReal destination) = w.remoteReal destination := by
  have hfile : w.file? p.target (p.destination.getD "") = some (w.remoteReal destination) := by
    rw [htarget,hdestination]
    rfl
  have hshown : ¬ Hidden w (p.target,w.remoteReal destination) := by
    refine hvisible destination (List.mem_cons_of_mem _ ?_) _ (by rw [htarget,file?_ssh])
    simp [hdestination]
  have hempty := hfree hkind _ hfile
  rw [htarget] at hshown hempty
  refine ⟨hshown,hempty,landing_of_absent ?_⟩
  rw [h.visible hshown]
  exact hempty

theorem HostChanged.performed (htarget : p.target = .ssh) (hwell : p.WellFormed) (hvisible : p.Visible w)
    (hfree : Unobstructed w d p) (h : HostChanged w messageId id draw d d' p host) : Performed w p d d' := by
  have hfile : w.file? p.target p.path = some (w.remoteReal p.path) := by rw [htarget,file?_ssh]
  have hshown : ¬ Hidden w (p.target,w.remoteReal p.path) :=
    hvisible p.path List.mem_cons_self _ hfile
  have hbefore : d.node (p.target,w.remoteReal p.path) = p.before.map .text := by
    rw [htarget]
    exact h.found
  have hothers : ∀ host', d'.host = host' →
      (∀ x, x ≠ w.remoteReal p.path → ¬ Hidden w (.ssh,x) → host'.disk x = d.host.disk x) →
      ∀ x, x ≠ (p.target,w.remoteReal p.path) → ¬ Hidden w x →
        fileNode (d'.node x) = fileNode (d.node x) := by
    intro host' hhost hsame x hx hx'
    refine node_host h.disk ?_
    rintro x rfl
    rw [hhost,hsame x (fun hxf => hx (by rw [htarget,hxf])) hx']
  have heffect := h.effect
  generalize hhost : d'.host = host' at heffect
  cases heffect with
  | written time hkind =>
    have hdelete : p.action ≠ .delete := by rcases hkind with hk | hk <;> simp [hk]
    have hrename : p.action ≠ .rename := by rcases hkind with hk | hk <;> simp [hk]
    refine performed_written hfile hdelete hrename hshown hbefore ?_ (hothers _ hhost fun x hx hx' => ?_)
    · rw [htarget,Desk.node,hhost,store_disk,if_pos rfl,PendingPatch.written,htarget]
    · rw [store_disk,if_neg hx,h.visible hx']
  | deleted hkind =>
    refine performed_deleted hfile hkind hshown hbefore ?_ (hothers _ hhost fun x hx hx' => ?_)
    · rw [htarget,Desk.node,hhost,remove_disk,if_pos rfl]
    · rw [remove_disk,if_neg hx,h.visible hx']
  | @renamed destination node hkind hdestination hthere hroom =>
    obtain ⟨hshown',hempty,hlanding⟩ := h.landing htarget hvisible hfree hkind hdestination
    rw [hlanding] at hhost
    have hthere' : d.host.disk (w.remoteReal p.path) = some node := by
      rw [← h.visible (htarget ▸ hshown)]
      exact hthere
    have hne : w.remoteReal p.path ≠ w.remoteReal destination := by
      intro hsame
      rw [← hsame,hthere'] at hempty
      cases hempty
    have hfile' : w.file? p.target (p.destination.getD "") = some (w.remoteReal destination) := by
      rw [htarget,hdestination]
      rfl
    refine performed_renamed hfile hfile' hkind hwell hshown (by rw [htarget]; exact hshown') hbefore
      (by rw [htarget]; exact hempty) ?_ ?_ fun x hx hx' hx'' => ?_
    · rw [htarget,Desk.node,hhost,store_disk,if_neg hne,remove_disk,if_pos rfl]
    · rw [htarget,Desk.node,hhost,store_disk,if_pos rfl,← hthere',h.found]
    · refine node_host h.disk ?_
      rintro x rfl
      rw [htarget] at hx hx'
      rw [hhost,store_disk,if_neg fun hsame => hx' (by rw [hsame]),remove_disk,
        if_neg fun hsame => hx (by rw [hsame]),h.visible hx'']

/-- What had a backup before the call still has it. -/
theorem HostChanged.backups (hunused : draw.Unused w d.host) (htarget : p.target = .ssh) (hvisible : p.Visible w)
    (hfree : Unobstructed w d p) (h : HostChanged w messageId id draw d d' p host) (hx : IsBackup w x)
    (hthere : d.host.disk x ≠ none) : d'.host.disk x = d.host.disk x := by
  have hshown : ¬ Hidden w (.ssh,w.remoteReal p.path) :=
    htarget ▸ hvisible p.path List.mem_cons_self _ (by rw [htarget,file?_ssh])
  have hpath : x ≠ w.remoteReal p.path := fun hsame => hshown ⟨rfl,hsame ▸ hx⟩
  have hkept : host.disk x = d.host.disk x := by
    rcases h.backup with ⟨-,rfl⟩ | hback
    · rfl
    · refine hback.disk fun hsame => hthere ?_
      rw [hsame]
      exact hunused p.path
  have heffect := h.effect
  generalize d'.host = host' at heffect
  cases heffect with
  | written => rw [store_disk,if_neg hpath,hkept]
  | deleted => rw [remove_disk,if_neg hpath,hkept]
  | renamed hkind hdestination =>
    obtain ⟨hshown',-,hlanding⟩ := h.landing htarget hvisible hfree hkind hdestination
    have hne : x ≠ w.remoteReal _ := fun hsame => hshown' ⟨rfl,hsame ▸ hx⟩
    rw [hlanding,store_disk,if_neg hne,remove_disk,if_neg hpath,hkept]

end Applying

end Mxterm.Workspace
