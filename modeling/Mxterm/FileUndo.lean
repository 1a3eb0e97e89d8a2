import Mxterm.ReplyHistories

/-! Undoing a reply (`undo_plan`, `validate_reverse_versions` and `rollback_local`): the record of the
changes, the versions that are read first, their reversal on paper and the one on the disk follow the
same chain of edits. -/
namespace Mxterm.Workspace

open Execution Edits List Function

/-- Between the end of a reply and its undoing nobody touches its files: neither what they hold and the
directories above them, nor the record of its changes, and no later change names one of them. -/
structure Undisturbed (w : Roots) (messageId : String) (changes : List (String × PendingPatch))
    (d d' : Desk) : Prop where
  disk : ∀ x, Touched w changes x → d'.disk x = d.disk x
  directories : ∀ x, Touched w changes x → ∀ y, y <+: x.dropLast → d.disk y = some .directory →
    d'.disk y = some .directory
  applied : ∀ e ∈ changes, e ∈ d'.files.applied
  record : (d'.files.checkpoints.filter (·.messageId = messageId)).map WorkspaceCheckpoint.changeIds =
    (d.files.checkpoints.filter (·.messageId = messageId)).map WorkspaceCheckpoint.changeIds
  apart : ∀ row ∈ d'.files.applied, row ∉ changes → ∀ e ∈ changes,
    e.2.appliedSequence < row.2.appliedSequence → row.2.target = e.2.target →
    ∀ path ∈ row.2.touchedPaths, path ∉ e.2.touchedPaths

section Plan

variable {w : Roots} {messageId : String} {d₀ d d' : Desk}

theorem reply_rows (h : Replied w messageId d₀ d) :
    d.files.applied.rows = d₀.files.applied.rows ++ replyChanges d₀ d :=
  prefix_iff_eq_append.mp h.rows |>.symm

theorem undisturbed_refl (h : Replied w messageId d₀ d) :
    Undisturbed w messageId (replyChanges d₀ d) d d := by
  refine ⟨fun _ _ => rfl,fun _ _ _ _ hy => hy,fun e he => ?_,rfl,fun row hrow hnew e he hlater => ?_⟩
  · rw [Table.mem_iff,reply_rows h]
    exact mem_append_right _ he
  · rw [Table.mem_iff,reply_rows h] at hrow
    have hold := (mem_append.mp hrow).resolve_right hnew
    have hearlier := h.later e he row hold
    omega

variable {changes : List (String × PendingPatch)}

theorem filterMap_changes {s : WorkspaceState} {es : List (String × PendingPatch)}
    (hes : ∀ e ∈ es, e ∈ s.applied) : (es.map Prod.fst).filterMap s.applied.find? = es := by
  induction es with
  | nil => rfl
  | cons e es ih =>
    have hfind : s.applied.find? e.1 = some e :=
      Table.find?_eq_some_iff.mpr ⟨hes e mem_cons_self,rfl⟩
    have hrest := ih fun f hf => hes f (mem_cons_of_mem _ hf)
    rw [map_cons,filterMap_cons,hfind]
    exact congrArg (e :: ·) hrest

/-- The record of the reply lists the changes in the order in which they were applied. -/
theorem reply_checkpoint (h : Replied w messageId d₀ d)
    (hsame : Undisturbed w messageId (replyChanges d₀ d) d d') {c : WorkspaceCheckpoint}
    (hc : c ∈ d'.files.checkpoints) (hmessage : c.messageId = messageId) :
    c.changeIds = (replyChanges d₀ d).map Prod.fst ∧ replyChanges d₀ d ≠ [] := by
  have hmem : c.changeIds ∈ (d'.files.checkpoints.filter (·.messageId = messageId)).map
      WorkspaceCheckpoint.changeIds :=
    mem_map_of_mem (mem_filter.mpr ⟨hc,by simpa using hmessage⟩)
  rw [hsame.record,h.checkpoint] at hmem
  by_cases hnil : replyChanges d₀ d = []
  · rw [if_pos hnil] at hmem
    cases hmem
  · rw [if_neg hnil] at hmem
    exact ⟨mem_singleton.mp hmem,hnil⟩

/-- No later change is in the way. -/
theorem reply_not_blocked (hsame : Undisturbed w messageId changes d d') {e : String × PendingPatch}
    (he : e ∈ changes) : d'.files.blocked changes.reverse e.2 = false := by
  rw [WorkspaceState.blocked,any_eq_false]
  intro row hrow
  by_cases hnew : row ∈ changes
  · have hselected : (changes.reverse.any fun selected =>
        decide (selected.2.appliedSequence = row.2.appliedSequence)) = true :=
      any_eq_true.mpr ⟨row,mem_reverse.mpr hnew,by simp⟩
    simp only [hselected,Bool.not_true,Bool.and_false,Bool.false_and,Bool.false_eq_true,not_false_eq_true]
  · have hapart := hsame.apart row hrow hnew e he
    simp only [Bool.and_eq_true,decide_eq_true_eq,any_eq_true]
    rintro ⟨⟨⟨hlater,-⟩,htarget⟩,path,hpath,hshared⟩
    exact hapart hlater htarget path hpath hshared

theorem undoPlan_reply (h : Replied w messageId d₀ d)
    (hsame : Undisturbed w messageId (replyChanges d₀ d) d d') (hnamed : messageId ≠ "")
    {c : WorkspaceCheckpoint} (hc : c ∈ d'.files.checkpoints) (hmessage : c.messageId = messageId) :
    d'.files.undoPlan ⟨messageId,c.id⟩ = .ok (replyChanges d₀ d).reverse := by
  unfold WorkspaceState.undoPlan
  cases hfind : d'.files.checkpoints.find? fun c' =>
      c'.id = c.id ∧ c'.messageId = messageId ∧ c'.messageId ≠ "" with
  | none =>
    have hnot := find?_eq_none.mp hfind c hc
    simp [hmessage,hnamed] at hnot
  | some found =>
    have hreply : found.messageId = messageId := by
      have hfound := find?_some hfind
      simp only [decide_eq_true_eq] at hfound
      exact hfound.2.1
    obtain ⟨hids,hnil⟩ := reply_checkpoint h hsame (mem_of_find?_eq_some hfind) hreply
    have hplan : found.changeIds.reverse.filterMap d'.files.applied.find? = (replyChanges d₀ d).reverse := by
      rw [hids,← map_reverse]
      exact filterMap_changes fun e he => hsame.applied e (mem_reverse.mp he)
    have hfree : ((replyChanges d₀ d).reverse.any fun entry =>
        d'.files.blocked (replyChanges d₀ d).reverse entry.2) = false :=
      any_eq_false.mpr fun e he => by simp [reply_not_blocked hsame (mem_reverse.mp he)]
    dsimp only
    rw [hplan,if_neg (by simpa using hnil),hfree]
    rfl

end Plan

section Versions

variable {w : Roots} {d : Desk} {changes : List (String × PendingPatch)}

/-- The versions that are known are those of the disk. -/
def Known (w : Roots) (d : Desk) (versions : Versions) : Prop :=
  ∀ path version, versions (scopedWorkspacePath .localFiles path) = some version →
    w.readVersion d.disk path = .ok version

theorem versionOf_local {path : String} {version : Option String}
    (h : w.readVersion d.disk path = .ok version) : versionOf w .localFiles path d = .ok version d :=
  (bind_of_ok (get_apply d) _).trans (lift_of_ok h d)

variable {versions : Versions}

theorem readVersions_local {paths : List (WorkspaceTarget × String)} (hknown : Known w d versions)
    (hpaths : ∀ q ∈ paths, q.1 = .localFiles ∧ ∃ version, w.readVersion d.disk q.2 = .ok version) :
    ∃ read, readVersions w paths versions d = .ok read d ∧ Known w d read ∧
      (∀ key, versions key ≠ none → read key ≠ none) ∧
      ∀ q ∈ paths, read (scopedWorkspacePath q.1 q.2) ≠ none := by
  induction paths generalizing versions with
  | nil => exact ⟨versions,rfl,hknown,fun _ hkey => hkey,fun q hq => nomatch hq⟩
  | cons q paths ih =>
    obtain ⟨target,path⟩ := q
    obtain ⟨rfl,version,hversion⟩ := hpaths (target,path) mem_cons_self
    have hrest := fun q hq => hpaths q (mem_cons_of_mem _ hq)
    unfold readVersions
    by_cases hthere : (versions (scopedWorkspacePath .localFiles path)).isSome
    · rw [if_pos hthere]
      obtain ⟨read,hread,hknown',hkeep,hall⟩ := ih hknown hrest
      refine ⟨read,hread,hknown',hkeep,fun q hq => ?_⟩
      rcases mem_cons.mp hq with rfl | hq
      · exact hkeep _ (Option.isSome_iff_ne_none.mp hthere)
      · exact hall q hq
    · rw [if_neg hthere,bind_of_ok (versionOf_local hversion)]
      have hknown' : Known w d (Function.update versions (scopedWorkspacePath .localFiles path)
          (some version)) := by
        intro other version' hother
        by_cases hsame : other = path
        · subst hsame
          rw [update_self] at hother
          exact Option.some.inj hother ▸ hversion
        · rw [update_of_ne fun hkey => hsame (scopedWorkspacePath_inj.mp hkey).2] at hother
          exact hknown other version' hother
      obtain ⟨read,hread,hknown'',hkeep,hall⟩ := ih hknown' hrest
      refine ⟨read,hread,hknown'',fun key hkey => hkeep key ?_,fun q hq => ?_⟩
      · by_cases hsame : key = scopedWorkspacePath .localFiles path
        · simp [hsame]
        · rw [update_of_ne hsame]
          exact hkey
      · rcases mem_cons.mp hq with rfl | hq
        · exact hkeep _ (by simp)
        · exact hall q hq

/-- Every name of a touched file has the version that the places hold. -/
def Mirrors (w : Roots) (changes : List (String × PendingPatch)) (versions : Versions)
    (held : Place → Option Node) : Prop :=
  ∀ e ∈ changes, ∀ path ∈ e.2.touchedPaths, ∀ file, w.resolve path = .ok file →
    ∃ version, versions (scopedWorkspacePath .localFiles path) = some version ∧
      held (.localFiles,file) = version.map .text

theorem map_text_injective {a b : Option String} (h : a.map Node.text = b.map Node.text) : a = b :=
  Option.map_injective (fun _ _ => Node.text.inj) h

theorem Known.mirrors (hknown : Known w d versions)
    (hall : ∀ e ∈ changes, ∀ path ∈ e.2.touchedPaths, versions (scopedWorkspacePath .localFiles path) ≠ none) :
    Mirrors w changes versions (look w d) := by
  intro e he path hpath file hfile
  obtain ⟨version,hversion⟩ := Option.ne_none_iff_exists'.mp (hall e he path hpath)
  obtain ⟨_,hfile',hnode,-⟩ := readVersion_ok.mp (hknown path version hversion)
  cases hfile.symm.trans hfile'
  refine ⟨version,hversion,?_⟩
  rw [look_visible (not_hidden_local file),Desk.node,hnode,fileNode_text]

variable {held : Place → Option Node}

/-- One file gets a new version, under its name and in its place. -/
theorem Mirrors.update {e : String × PendingPatch} {path : String} {file : FilePath}
    (h : Mirrors w changes versions held) (hone : OneName w changes) (he : e ∈ changes)
    (hpath : path ∈ e.2.touchedPaths) (hfile : w.resolve path = .ok file) (version : Option String) :
    Mirrors w changes (Function.update versions (scopedWorkspacePath .localFiles path) (some version))
      (Function.update held (.localFiles,file) (version.map .text)) := by
  intro f hf other hother file' hfile'
  by_cases hsame : other = path
  · subst hsame
    cases hfile.symm.trans hfile'
    exact ⟨version,update_self _ _ _,update_self _ _ _⟩
  · have hne : file' ≠ file := fun hsameFile =>
      hsame (hone f hf e he other hother path hpath file' hfile' (hsameFile ▸ hfile))
    rw [update_of_ne fun hkey => hsame (scopedWorkspacePath_inj.mp hkey).2,
      update_of_ne fun hplace => hne (Prod.mk.inj hplace).2]
    exact h f hf other hother file' hfile'

theorem PendingPatch.WellFormed.after_ne {p : PendingPatch} (h : p.WellFormed) (hdelete : p.action ≠ .delete)
    (hrename : p.action ≠ .rename) : p.after ≠ none := by
  apply h.after
  cases haction : p.action <;> simp [haction] at hdelete hrename ⊢

/-- Taking a change back on paper does what taking it back does to the places. -/
theorem reverseVersion_mirrors {e : String × PendingPatch} (h : Mirrors w changes versions held)
    (hone : OneName w changes) (he : e ∈ changes) (hkept : Kept w d.disk e.2) (hplain : Plain e.2)
    (hfits : (editOf w e.2).reverse.Fits held) :
    ∃ versions', reverseVersion versions e.2 = .ok versions' ∧
      Mirrors w changes versions' ((editOf w e.2).reverse.perform held) := by
  obtain ⟨file,hfile,-⟩ := hkept.path
  have hfile' : w.file? e.2.target e.2.path = some file := by rw [hkept.target,file?_local]; exact hfile
  have hpath : e.2.path ∈ e.2.touchedPaths := mem_cons_self
  obtain ⟨current,hcurrent,hheld⟩ := h e he e.2.path hpath file hfile
  have hscoped : ∀ path, e.2.scopedPath path = scopedWorkspacePath .localFiles path := fun path => by
    rw [PendingPatch.scopedPath,hkept.target]
  have hupdate := h.update hone he hpath hfile e.2.before
  simp only [reverseVersion,hscoped,hcurrent]
  by_cases hrename : e.2.action = .rename
  · obtain ⟨destination,hdestination⟩ :=
      Option.ne_none_iff_exists'.mp (hkept.wellFormed.destination.mp hrename)
    obtain ⟨x,hx,hapart⟩ := hkept.destination destination hdestination
    have hpath' : destination ∈ e.2.touchedPaths := mem_cons_of_mem _ (by simp [hdestination])
    have hx' : w.file? e.2.target (e.2.destination.getD "") = some x := by
      rw [hkept.target,hdestination,file?_local]
      exact hx
    obtain ⟨there,hthere,hheld'⟩ := h e he destination hpath' x hx
    rw [editOf_rename hfile' hx' hrename,Edit.reverse_and,Edit.reverse_single,Edit.reverse_single,
      hkept.target] at hfits
    have hgone := Edit.fits_single.mp hfits.left
    obtain rfl : current = none := map_text_injective (hheld.symm.trans hgone)
    have hne : (WorkspaceTarget.localFiles,file) ≠ (.localFiles,x) := fun hsame =>
      hapart ((Prod.mk.inj hsame).2 ▸ hfile)
    have hmoved := Edit.fits_single.mp (hfits.right (Edit.apart_single hne))
    obtain rfl : there = e.2.before := map_text_injective (hheld'.symm.trans hmoved)
    rw [if_pos hrename,hdestination]
    dsimp only
    rw [if_neg (by simp [hthere])]
    refine ⟨_,rfl,?_⟩
    rw [editOf_rename hfile' hx' hrename,Edit.reverse_and,Edit.reverse_single,Edit.reverse_single,
      Edit.perform_and,Edit.perform_single,Edit.perform_single,hkept.target]
    exact (h.update hone he hpath' hx none).update hone he hpath hfile e.2.before
  · have hafter : current = e.2.after := by
      by_cases hdelete : e.2.action = .delete
      · rw [editOf_delete hfile' hdelete,Edit.reverse_single,Edit.fits_single,hkept.target] at hfits
        rw [hkept.wellFormed.deleted hdelete]
        exact map_text_injective (hheld.symm.trans hfits)
      · rw [editOf_written hfile' hdelete hrename,Edit.reverse_single,Edit.fits_single]
          at hfits
        obtain ⟨after,hafter⟩ := Option.ne_none_iff_exists'.mp (hkept.wellFormed.after_ne hdelete hrename)
        have hstored := hplain.stored hdelete hrename
        rw [PendingPatch.written,hkept.target,hstored,hafter] at hfits
        rw [hafter]
        exact map_text_injective (hheld.symm.trans hfits)
    rw [if_neg hrename,if_neg (not_not.mpr hafter)]
    obtain ⟨after,hedit⟩ := editOf_single hfile' hrename
    refine ⟨_,rfl,?_⟩
    rw [hedit,Edit.reverse_single,Edit.perform_single,hkept.target]
    exact hupdate

/-- The whole plan can be taken back on paper, the last change first. -/
theorem validateReverseVersions_ok {es : List (String × PendingPatch)} {first : Place → Option Node}
    (h : Mirrors w changes versions held) (hone : OneName w changes)
    (hes : ∀ e ∈ es, e ∈ changes ∧ Kept w d.disk e.2 ∧ Plain e.2)
    (hchain : Chain first (es.map fun e => editOf w e.2) held) :
    ∃ versions', validateReverseVersions versions es.reverse = .ok versions' := by
  induction es using List.reverseRecOn generalizing versions held with
  | nil => exact ⟨versions,rfl⟩
  | append_singleton es e ih =>
    rw [map_append] at hchain
    obtain ⟨hfits,hrest⟩ := hchain.unsnoc
    obtain ⟨he,hkept,hplain⟩ := hes e (by simp)
    obtain ⟨versions',hversions,hmirrors⟩ := reverseVersion_mirrors h hone he hkept hplain hfits
    obtain ⟨last,hlast⟩ := ih hmirrors (fun f hf => hes f (mem_append_left _ hf)) hrest
    refine ⟨last,?_⟩
    rw [reverse_append,reverse_singleton,singleton_append,validateReverseVersions,
      hversions]
    exact hlast

end Versions

section Disk

variable {w : Roots} {d : Disk} {file : FilePath} {path : String}

/-- Directories that are there are not made again. -/
theorem createDirAll_housed (h : Housed d file) : createDirAll d file.dropLast = some d := by
  have hthere : ∀ x ∈ file.dropLast.inits, d x = some .directory := fun x hx =>
    h.2 x ((mem_inits _ _).mp hx)
  unfold createDirAll
  rw [if_pos fun x hx => .inr (hthere x hx)]
  congr 1
  funext x
  by_cases hx : x ∈ file.dropLast.inits
  · simp [hx,hthere x hx]
  · simp [hx]

theorem writeVersion_housed {before : Option String} {after : String} (hfile : w.resolve path = .ok file)
    (hread : w.readVersion d path = .ok before) (hhoused : Housed d file) (hafter : Readable after) :
    w.writeVersion d path before after =
      .ok (d.put file (some (.text (contentToWrite before after)))) := by
  simp [Roots.writeVersion,Nat.not_lt_of_le hafter.1,hfile,hread,hhoused.1,createDirAll_housed hhoused,
    bind,Except.bind]

theorem removeFile_text {content : String} (hfile : w.resolve path = .ok file)
    (hnode : d file = some (.text content)) : w.removeFile d path = .ok (d.put file none) := by
  simp [Roots.removeFile,hfile,hnode,bind,Except.bind]

theorem rename_text {source : String} {from' : FilePath} {content : String}
    (hsource : w.resolve source = .ok from') (hfile : w.resolve path = .ok file)
    (hnode : d from' = some (.text content)) (hfree : d file = none) (hhoused : Housed d file) :
    w.rename d source path = .ok ((d.put from' none).put file (some (.text content))) := by
  simp [Roots.rename,hsource,hfile,hnode,hfree,hhoused.1,hhoused.2 _ prefix_rfl,bind,Except.bind]

end Disk

section TakingBack

variable {w : Roots} {d : Desk} {p : PendingPatch}

/-- No directory is made or removed. -/
def SameDirectories (d d' : Disk) : Prop := ∀ x, d' x = some .directory ↔ d x = some .directory

variable {disk : Disk} {file : FilePath}

theorem sameDirectories_put {node : Option Node} (hfile : disk file ≠ some .directory)
    (hnode : node ≠ some .directory) : SameDirectories disk (disk.put file node) := by
  intro x
  by_cases hx : x = file
  · simp [hx,hfile,hnode]
  · rw [Disk.put_of_ne _ hx]

theorem SameDirectories.trans {disk' disk'' : Disk} (h : SameDirectories disk disk')
    (h' : SameDirectories disk' disk'') : SameDirectories disk disk'' := fun x => (h' x).trans (h x)

theorem onDisk_run {f : Disk → Except String Disk} (h : f d.disk = .ok disk) :
    onDisk f d = .ok () { d with disk := disk } := by
  unfold onDisk
  rw [bind_of_ok (get_apply d),bind_of_ok (lift_of_ok h d)]
  rfl

theorem disk_of_look {x : FilePath} {node : Option Node} (hlook : look w d (.localFiles,x) = node)
    (hno : d.disk x ≠ some .directory) : d.disk x = node := by
  rw [look_visible (not_hidden_local x)] at hlook
  rw [← hlook]
  unfold fileNode
  split
  · rename_i hdirectory
    exact absurd hdirectory hno
  · rfl

theorem localVersion_run {path : String} {version : Option String} (hfile : w.resolve path = .ok file)
    (hnode : d.disk file = version.map .text) (hreadable : ∀ s ∈ version, Readable s) :
    localVersion w path d = .ok version d :=
  versionOf_local (readVersion_ok.mpr ⟨file,hfile,hnode,hreadable⟩)

theorem localVersion_absent {path : String} (hfile : w.resolve path = .ok file) (hnode : d.disk file = none) :
    localVersion w path d = .ok none d :=
  versionOf_local (readVersion_ok.mpr ⟨file,hfile,hnode,fun _ hs => nomatch hs⟩)

/-- A text is taken back to the one before it. -/
theorem rollbackText_run (hkept : Kept w d.disk p) (hplain : Plain p) (hdelete : p.action ≠ .delete)
    (hrename : p.action ≠ .rename) (hfile : w.resolve p.path = .ok file)
    (hhoused : p.before ≠ none → Housed d.disk file) (hfits : (editOf w p).reverse.Fits (look w d))
    (hno : d.disk file ≠ some .directory) :
    ∃ disk, rollbackLocal w p d = .ok () { d with disk := disk } ∧ SameDirectories d.disk disk := by
  obtain ⟨after,hafter⟩ := Option.ne_none_iff_exists'.mp (hkept.wellFormed.after_ne hdelete hrename)
  have hstored := hplain.stored hdelete hrename
  have hreadable := hplain.readable hdelete hrename
  have hfile' : w.file? p.target p.path = some file := by rw [hkept.target,file?_local]; exact hfile
  rw [editOf_written hfile' hdelete hrename,Edit.reverse_single,Edit.fits_single,PendingPatch.written,
    hkept.target] at hfits
  rw [hstored,hafter] at hfits
  rw [hafter] at hreadable
  have hnode := disk_of_look hfits hno
  have hversion : localVersion w p.path d = .ok p.after d := by
    rw [hafter]
    exact localVersion_run hfile hnode fun s hs => Option.some.inj hs ▸ hreadable
  have hremoved : removeLocal w p.path d = .ok () { d with disk := d.disk.put file none } :=
    onDisk_run (removeFile_text hfile hnode)
  have hwritten : ∀ before, p.before = some before → writeLocal w p.path p.after before d =
      .ok () { d with disk := d.disk.put file (some (.text (contentToWrite p.after before))) } := by
    intro before hbefore
    refine onDisk_run (writeVersion_housed hfile ?_ (hhoused (by simp [hbefore]))
      (hkept.before before hbefore))
    exact readVersion_ok.mpr ⟨file,hfile,by rw [hafter]; exact hnode,fun s hs => by
      rw [hafter] at hs
      exact Option.some.inj hs ▸ hreadable⟩
  unfold rollbackLocal
  rw [bind_of_ok hversion]
  cases haction : p.action with
  | patch =>
    cases hbefore : p.before with
    | none => exact ⟨_,by simpa using hremoved,sameDirectories_put hno (by simp)⟩
    | some before => exact ⟨_,by simpa using hwritten before hbefore,sameDirectories_put hno (by simp)⟩
  | write =>
    cases hbefore : p.before with
    | none => exact ⟨_,by simpa using hremoved,sameDirectories_put hno (by simp)⟩
    | some before => exact ⟨_,by simpa using hwritten before hbefore,sameDirectories_put hno (by simp)⟩
  | create => exact ⟨_,by simpa using hremoved,sameDirectories_put hno (by simp)⟩
  | delete => exact absurd haction hdelete
  | rename => exact absurd haction hrename

theorem rollbackDelete_run (hkept : Kept w d.disk p) (hdelete : p.action = .delete)
    (hfile : w.resolve p.path = .ok file) (hhoused : p.before ≠ none → Housed d.disk file)
    (hfits : (editOf w p).reverse.Fits (look w d)) (hno : d.disk file ≠ some .directory) :
    ∃ disk, rollbackLocal w p d = .ok () { d with disk := disk } ∧ SameDirectories d.disk disk := by
  obtain ⟨before,hbefore⟩ := Option.ne_none_iff_exists'.mp (hkept.wellFormed.before (.inr (.inl hdelete)))
  have hfile' : w.file? p.target p.path = some file := by rw [hkept.target,file?_local]; exact hfile
  rw [editOf_delete hfile' hdelete,Edit.reverse_single,Edit.fits_single,hkept.target] at hfits
  have hnode := disk_of_look hfits hno
  have hread : w.readVersion d.disk p.path = .ok none :=
    readVersion_ok.mpr ⟨file,hfile,hnode,fun s hs => nomatch hs⟩
  have hwritten : writeLocal w p.path none before d = .ok () { d with
      disk := d.disk.put file (some (.text (contentToWrite none before))) } :=
    onDisk_run (writeVersion_housed hfile hread (hhoused (by simp [hbefore]))
      (hkept.before before hbefore))
  have hrun : rollbackLocal w p d = writeLocal w p.path none before d := by
    unfold rollbackLocal
    rw [bind_of_ok (localVersion_absent hfile hnode),hdelete,hbefore]
    simp
  exact ⟨_,hrun.trans hwritten,sameDirectories_put hno (by simp)⟩

theorem rollbackRename_run (hkept : Kept w d.disk p) (hrename : p.action = .rename)
    (hfile : w.resolve p.path = .ok file) (hhoused : p.before ≠ none → Housed d.disk file)
    (hfits : (editOf w p).reverse.Fits (look w d))
    (hno : ∀ path ∈ p.touchedPaths, ∀ x, w.resolve path = .ok x → d.disk x ≠ some .directory) :
    ∃ disk, rollbackLocal w p d = .ok () { d with disk := disk } ∧ SameDirectories d.disk disk := by
  obtain ⟨before,hbefore⟩ := Option.ne_none_iff_exists'.mp (hkept.wellFormed.before (.inr (.inr hrename)))
  obtain ⟨destination,hdestination⟩ :=
    Option.ne_none_iff_exists'.mp (hkept.wellFormed.destination.mp hrename)
  obtain ⟨x,hx,hapart⟩ := hkept.destination destination hdestination
  have hne : file ≠ x := fun hsame => hapart (hsame ▸ hfile)
  have hfile' : w.file? p.target p.path = some file := by rw [hkept.target,file?_local]; exact hfile
  have hx' : w.file? p.target (p.destination.getD "") = some x := by
    rw [hkept.target,hdestination,file?_local]
    exact hx
  rw [editOf_rename hfile' hx' hrename,Edit.reverse_and,Edit.reverse_single,Edit.reverse_single,
    hkept.target,hbefore] at hfits
  have hfree := disk_of_look (Edit.fits_single.mp hfits.left) (hno p.path mem_cons_self file hfile)
  have hnode : d.disk x = some (.text before) :=
    disk_of_look (Edit.fits_single.mp (hfits.right (Edit.apart_single fun hsame =>
      hne (Prod.mk.inj hsame).2))) (hno destination (by simp [PendingPatch.touchedPaths,hdestination]) x hx)
  have hversion : localVersion w destination d = .ok (some before) d :=
    localVersion_run hx hnode fun s hs => hkept.before s (hbefore ▸ hs)
  have hmoved : onDisk (fun disk => w.rename disk destination p.path) d = .ok () { d with
      disk := (d.disk.put x none).put file (some (.text before)) } :=
    onDisk_run (rename_text hx hfile hnode hfree (hhoused (by simp [hbefore])))
  have hrun : rollbackLocal w p d = onDisk (fun disk => w.rename disk destination p.path) d := by
    unfold rollbackLocal
    rw [bind_of_ok (localVersion_absent hfile hfree),hrename,hdestination]
    dsimp only
    rw [bind_of_ok hversion,hbefore]
    simp
  have hgone : SameDirectories d.disk (d.disk.put x none) := sameDirectories_put (by simp [hnode]) (by simp)
  refine ⟨_,hrun.trans hmoved,hgone.trans (sameDirectories_put ?_ (by simp))⟩
  rw [Disk.put_of_ne _ hne,hfree]
  simp

/-- A change whose edit can be reversed is taken back. -/
theorem rollbackLocal_run (hkept : Kept w d.disk p) (hplain : Plain p)
    (hfits : (editOf w p).reverse.Fits (look w d))
    (hno : ∀ path ∈ p.touchedPaths, ∀ x, w.resolve path = .ok x → d.disk x ≠ some .directory) :
    ∃ d', rollbackLocal w p d = .ok () d' ∧ TakenBack w p d d' ∧ SameDirectories d.disk d'.disk := by
  obtain ⟨file,hfile,hhoused⟩ := hkept.path
  have hnot := hno p.path mem_cons_self file hfile
  have hrun : ∃ disk, rollbackLocal w p d = .ok () { d with disk := disk } ∧
      SameDirectories d.disk disk := by
    by_cases hdelete : p.action = .delete
    · exact rollbackDelete_run hkept hdelete hfile hhoused hfits hnot
    · by_cases hrename : p.action = .rename
      · exact rollbackRename_run hkept hrename hfile hhoused hfits hno
      · exact rollbackText_run hkept hplain hdelete hrename hfile hhoused hfits hnot
  obtain ⟨disk,hdisk,hsame⟩ := hrun
  have hback := rollbackLocal_leads hkept.target hkept.wellFormed fun _ => ⟨hfits,hplain.restored⟩
  exact ⟨_,hdisk,(hback.ok hdisk).2,hsame⟩

end TakingBack

section Loop

variable {w : Roots} {changes : List (String × PendingPatch)}

/-- No touched file is a directory. -/
def TouchesFiles (w : Roots) (changes : List (String × PendingPatch)) (d : Disk) : Prop :=
  ∀ x, Touched w changes x → d x ≠ some .directory

/-- The loop takes back every change, the last one first, and makes no directory. -/
theorem undoEach_run (now : ℕ) (time : String → ℕ) {es : List (String × PendingPatch)} {d : Desk}
    {first : Place → Option Node} (reverted : ℕ) (hes : ∀ e ∈ es, e ∈ changes ∧ Kept w d.disk e.2 ∧ Plain e.2)
    (hfiles : TouchesFiles w changes d.disk)
    (hchain : Chain first (es.map fun e => editOf w e.2) (look w d)) :
    ∃ d', undoEach w now time (fun _ => none) es.reverse reverted d =
        .ok (reverted + es.length,none) d' ∧ look w d' = first ∧ SameDirectories d.disk d'.disk := by
  induction es using List.reverseRecOn generalizing d reverted with
  | nil =>
    cases hchain
    exact ⟨d,rfl,rfl,fun _ => Iff.rfl⟩
  | append_singleton es e ih =>
    rw [map_append] at hchain
    obtain ⟨hfits,hrest⟩ := hchain.unsnoc
    obtain ⟨he,hkept,hplain⟩ := hes e (by simp)
    obtain ⟨d₁,hrun,hback,hsame⟩ := rollbackLocal_run hkept hplain hfits fun path hpath x hx =>
      hfiles x ⟨e,he,path,hpath,hx⟩
    have happlied : rollbackAppliedPatch w e.1 e.2 (time e.1) d = .ok () d₁ := by
      rw [rollbackAppliedPatch,hkept.target]
      exact hrun
    let d₂ : Desk := { d₁ with files := d₁.files.forgetUndone now e }
    have hlook : look w d₂ = (editOf w e.2).reverse.perform (look w d) :=
      (look_of_files rfl rfl).trans hback.look
    obtain ⟨d',hloop,hfirst,hsame'⟩ := ih (d := d₂) (reverted + 1)
      (fun f hf => by
        obtain ⟨hf',hkept',hplain'⟩ := hes f (mem_append_left _ hf)
        exact ⟨hf',hkept'.of_directories fun x hx => (hsame x).mpr hx,hplain'⟩)
      (fun x hx hdirectory => hfiles x hx ((hsame x).mp hdirectory)) (hlook ▸ hrest)
    refine ⟨d',?_,hfirst,hsame.trans hsame'⟩
    rw [reverse_append,reverse_singleton,singleton_append,undoEach]
    have hattempt : attempt (rollbackAppliedPatch w e.1 e.2 (time e.1)) d = .ok (.ok ()) d₁ :=
      (attempt_ok _ _ _ _).mpr (.inl ⟨(),rfl,happlied⟩)
    rw [bind_of_ok hattempt]
    rw [length_append,length_singleton,Nat.add_comm es.length 1,← Nat.add_assoc]
    exact hloop

end Loop

section Undoing

variable {w : Roots} {messageId : String} {d₀ d d' : Desk} {changes : List (String × PendingPatch)}

/-- A change of the local disk touches the files that its paths lead to. -/
theorem editOf_touches {p : PendingPatch} (hkept : Kept w d.disk p) {q : Place} (hq : editOf w p q ≠ none) :
    q.1 = .localFiles ∧ ∃ path ∈ p.touchedPaths, w.resolve path = .ok q.2 := by
  have hsingle : ∀ (x : FilePath) (b a : Option Node),
      Edit.single (p.target,x) b a q ≠ none → q = (.localFiles,x) := by
    intro x b a hx
    rw [hkept.target] at hx
    exact not_not.mp fun hne => hx (Edit.single_other hne)
  obtain ⟨file,hfile,-⟩ := hkept.path
  have hfile' : w.file? p.target p.path = some file := by rw [hkept.target,file?_local]; exact hfile
  by_cases hrename : p.action = .rename
  · obtain ⟨destination,hdestination⟩ :=
      Option.ne_none_iff_exists'.mp (hkept.wellFormed.destination.mp hrename)
    obtain ⟨x,hx,-⟩ := hkept.destination destination hdestination
    have hx' : w.file? p.target (p.destination.getD "") = some x := by
      rw [hkept.target,hdestination,file?_local]
      exact hx
    rw [editOf_rename hfile' hx' hrename,Edit.and,ne_eq,Option.or_eq_none_iff,not_and_or] at hq
    rcases hq with hq | hq
    · rw [hsingle _ _ _ hq]
      exact ⟨rfl,p.path,mem_cons_self,hfile⟩
    · rw [hsingle _ _ _ hq]
      exact ⟨rfl,destination,by simp [PendingPatch.touchedPaths,hdestination],hx⟩
  · obtain ⟨after,hedit⟩ := editOf_single hfile' hrename
    rw [hedit] at hq
    rw [hsingle _ _ _ hq]
    exact ⟨rfl,p.path,mem_cons_self,hfile⟩

theorem Undisturbed.kept (h : Undisturbed w messageId changes d d') {e : String × PendingPatch}
    (he : e ∈ changes) (hkept : Kept w d.disk e.2) : Kept w d'.disk e.2 := by
  obtain ⟨file,hfile,hhoused⟩ := hkept.path
  refine ⟨hkept.target,hkept.wellFormed,⟨file,hfile,fun hbefore => ?_⟩,hkept.destination,hkept.before⟩
  have htouched : Touched w changes file := ⟨e,he,e.2.path,mem_cons_self,hfile⟩
  refine ⟨(hhoused hbefore).1,fun x hx => ?_⟩
  exact h.directories file htouched x hx ((hhoused hbefore).2 x hx)

theorem Legible.readVersion {disk : Disk} {path : String} {file : FilePath} (h : Legible disk file)
    (hfile : w.resolve path = .ok file) : ∃ version, w.readVersion disk path = .ok version := by
  cases hnode : disk file with
  | none => exact ⟨none,readVersion_ok.mpr ⟨file,hfile,hnode,fun _ hs => nomatch hs⟩⟩
  | some node =>
    obtain ⟨s,rfl,hs⟩ := h node hnode
    refine ⟨some s,readVersion_ok.mpr ⟨file,hfile,hnode,fun t ht => ?_⟩⟩
    exact Option.some.inj ht ▸ hs

theorem Kept.resolved {disk : Disk} {p : PendingPatch} (h : Kept w disk p) {path : String}
    (hpath : path ∈ p.touchedPaths) : ∃ file, w.resolve path = .ok file := by
  rcases mem_cons.mp hpath with rfl | hpath
  · obtain ⟨file,hfile,-⟩ := h.path
    exact ⟨file,hfile⟩
  · obtain ⟨file,hfile,-⟩ := h.destination path (by simpa using hpath)
    exact ⟨file,hfile⟩

/-- All versions under the plan can be read, and they are what the places hold. -/
theorem readVersions_changes (hkept : ∀ e ∈ changes, Kept w d.disk e.2)
    (hlegible : ∀ x, Touched w changes x → Legible d.disk x) :
    ∃ versions, readVersions w (changes.reverse.flatMap fun entry => entry.2.touchedPaths.map
        fun path => (entry.2.target,path)) (fun _ => none) d = .ok versions d ∧
      Mirrors w changes versions (look w d) := by
  have hnothing : Known w d fun _ => none := fun _ _ hnone => nomatch hnone
  have hpaths : ∀ q ∈ changes.reverse.flatMap fun entry => entry.2.touchedPaths.map
      fun path => (entry.2.target,path), q.1 = .localFiles ∧
      ∃ version, w.readVersion d.disk q.2 = .ok version := by
    intro q hq
    obtain ⟨e,he,hq⟩ := mem_flatMap.mp hq
    obtain ⟨path,hpath,rfl⟩ := mem_map.mp hq
    have he' := mem_reverse.mp he
    obtain ⟨file,hfile⟩ := (hkept e he').resolved hpath
    exact ⟨(hkept e he').target,(hlegible file ⟨e,he',path,hpath,hfile⟩).readVersion hfile⟩
  obtain ⟨versions,hversions,hknown,-,hall⟩ := readVersions_local hnothing hpaths
  refine ⟨versions,hversions,hknown.mirrors fun e he path hpath => ?_⟩
  have hread := hall (e.2.target,path) (mem_flatMap.mpr
    ⟨e,mem_reverse.mpr he,mem_map_of_mem hpath⟩)
  rw [(hkept e he).target] at hread
  exact hread

theorem checkBackups_local {es : List (String × PendingPatch)} (hes : ∀ e ∈ es, e.2.target = .localFiles) :
    forEach (checkBackup w) es d = .ok () d := by
  have hleads : Leads (forEach (checkBackup w) es) (fun _ d' => d' = d) (fun _ => False) d := by
    refine .forEach fun e he => .runIf (fun hssh => ?_) fun _ => rfl
    rw [hes e he] at hssh
    exact absurd hssh.1 (by simp)
  obtain ⟨_,d₁,hrun,hd₁⟩ := hleads.returns
  rw [hrun,hd₁]

open Classical in
/-- Undoing a reply succeeds and puts back what its files held, where its texts were written as they are,
every file has one name in its changes, and no file lies below another. -/
theorem undo_restores_files {c : WorkspaceCheckpoint} (hostKnown : Bool) (now : ℕ) (time : String → ℕ)
    (hbefore : BeforeReply messageId d₀) (hreply : Reply w messageId d₀ d)
    (hsame : Undisturbed w messageId (replyChanges d₀ d) d d')
    (hplain : ∀ e ∈ replyChanges d₀ d, Plain e.2) (hone : OneName w (replyChanges d₀ d))
    (hnested : NotNested w (replyChanges d₀ d)) (hc : c ∈ d'.files.checkpoints)
    (hmessage : c.messageId = messageId) :
    ∃ d'', undo w ⟨messageId,c.id⟩ hostKnown now time (fun _ => none) d' =
        .ok ((replyChanges d₀ d).length,none) d'' ∧
      ∀ x, Touched w (replyChanges d₀ d) x → d''.disk x = d₀.disk x := by
  have hreplied := reply_replied hbefore hreply
  have hlegible : ∀ x, Touched w (replyChanges d₀ d) x → Legible d'.disk x := by
    intro x hx node hnode
    rw [hsame.disk x hx] at hnode
    exact hreplied.legible hnested hplain x hx node hnode
  have hkept : ∀ e ∈ replyChanges d₀ d, Kept w d'.disk e.2 := fun e he =>
    hsame.kept he (hreplied.kept e he)
  have hfiles : TouchesFiles w (replyChanges d₀ d) d'.disk := by
    intro x hx hdirectory
    obtain ⟨s,hs,-⟩ := hlegible x hx _ hdirectory
    cases hs
  have hplan := undoPlan_reply hreplied hsame hbefore.named hc hmessage
  -- the chain of the reply, on the files as they are now
  let T : Place → Prop := fun q => q.1 = .localFiles ∧ Touched w (replyChanges d₀ d) q.2
  have hlook : ∀ q, T q → look w d' q = look w d q := by
    rintro ⟨target,x⟩ ⟨htarget,hx⟩
    obtain rfl : target = .localFiles := htarget
    rw [look_visible (not_hidden_local x),look_visible (not_hidden_local x),Desk.node,Desk.node,
      hsame.disk x hx]
  have hchain := hreplied.chain.agree (T := T) (fun edit hedit q hq => by
    obtain ⟨e,he,rfl⟩ := mem_map.mp hedit
    obtain ⟨htarget,path,hpath,hx⟩ := editOf_touches (hreplied.kept e he) hq
    exact ⟨htarget,e,he,path,hpath,hx⟩) hlook
  obtain ⟨versions,hversions,hmirrors⟩ := readVersions_changes hkept hlegible
  obtain ⟨reversed,hreversed⟩ := validateReverseVersions_ok hmirrors hone
    (fun e he => ⟨he,hkept e he,hplain e he⟩) hchain
  obtain ⟨d'',hloop,hlast,hdirectories⟩ := undoEach_run now time 0
    (fun e he => ⟨he,hkept e he,hplain e he⟩) hfiles hchain
  have hlocal : ∀ e ∈ (replyChanges d₀ d).reverse, e.2.target = .localFiles := fun e he =>
    (hkept e (mem_reverse.mp he)).target
  have hnoHost : ((replyChanges d₀ d).reverse.any fun entry => decide (entry.2.target = .ssh)) = false :=
    any_eq_false.mpr fun e he => by simp [hlocal e he]
  refine ⟨d'',?_,fun x hx => ?_⟩
  · unfold undo
    rw [bind_of_ok (get_apply d'),bind_of_ok (lift_of_ok hplan d'),hnoHost,if_neg (by simp)]
    dsimp only
    rw [bind_of_ok hversions,bind_of_ok (lift_of_ok hreversed d'),bind_of_ok (checkBackups_local hlocal),
      hloop,Nat.zero_add]
  · have hnot : d''.disk x ≠ some .directory := fun hdirectory =>
      hfiles x hx ((hdirectories x).mp hdirectory)
    have hput : look w d'' (.localFiles,x) = look w d₀ (.localFiles,x) := by
      rw [hlast]
      exact if_pos ⟨rfl,hx⟩
    rw [disk_of_look hput hnot]
    refine (disk_of_look rfl fun hdirectory => ?_).symm
    obtain ⟨s,hs,-⟩ := hreplied.legible hnested hplain x hx _ (hreplied.directories x hdirectory)
    cases hs

end Undoing

section Examples

theorem undo_restores_files_created :
    ∃ d'', undo plainRoots ⟨"reply","checkpoint"⟩ true 0 (fun _ => 0) (fun _ => none) createdDesk =
        .ok (1,none) d'' ∧
      ∀ x, Touched plainRoots (replyChanges ⟨WorkspaceState.default,emptyDisk,emptyHost⟩ createdDesk) x →
        d''.disk x = emptyDisk x := by
  have hbefore : BeforeReply "reply" ⟨WorkspaceState.default,emptyDisk,emptyHost⟩ := by
    refine ⟨by decide,fun c hc => (nomatch hc),fun id p hp => (nomatch hp),rfl,fun x node hx hne => ?_⟩
    simp [emptyDisk,hne] at hx
  have happly : InReply plainRoots "reply" plannedDesk (.applyFileChange .localFiles "reply" "change" true
      firstDraw) := by
    refine ⟨rfl,⟨fun _ => rfl,fun id _ => ⟨?_,fun c hc => ?_,?_⟩⟩,fun p hp => ?_⟩
    · exact Table.not_hasKey_empty id
    · cases hc
    · exact not_mem_nil
    · obtain rfl := Option.some.inj hp
      exact ⟨rfl,by simp,fun h => (nomatch h)⟩
  have hplanned : Reply plainRoots "reply" ⟨WorkspaceState.default,emptyDisk,emptyHost⟩ plannedDesk :=
    .call (c := .previewFileChange .localFiles .create "a" "" "x" firstDraw) .start trivial
  have hreply : Reply plainRoots "reply" ⟨WorkspaceState.default,emptyDisk,emptyHost⟩ createdDesk :=
    .call hplanned happly
  have hchanges : ∀ e ∈ replyChanges ⟨WorkspaceState.default,emptyDisk,emptyHost⟩ createdDesk,
      e = ("operation",⟨.localFiles,"a",none,some "x",.create,none,0,1⟩) := fun e he =>
    mem_singleton.mp he
  refine undo_restores_files (c := ⟨"checkpoint","reply",["operation"],.active,none⟩) true 0 (fun _ => 0)
    hbefore hreply (undisturbed_refl (reply_replied hbefore hreply)) (fun e he => ?_)
    (fun e he f hf a ha b hb _ _ _ => ?_) (fun x y hx hy _ => ?_) mem_cons_self rfl
  · rw [hchanges e he]
    exact ⟨fun _ _ => rfl,fun _ _ => ⟨by decide,rfl⟩,fun _ _ _ h => (nomatch h)⟩
  · rw [hchanges e he] at ha
    rw [hchanges f hf] at hb
    rw [mem_singleton.mp ha,mem_singleton.mp hb]
  · obtain ⟨e,he,a,ha,hx⟩ := hx
    obtain ⟨f,hf,b,hb,hy⟩ := hy
    rw [hchanges e he] at ha
    rw [hchanges f hf] at hb
    obtain rfl := mem_singleton.mp ha
    obtain rfl := mem_singleton.mp hb
    exact Except.ok.inj (hx.symm.trans hy)

def oldDesk : Desk where
  files := WorkspaceState.default
  disk path := if path = [] then some .directory else if path = ["a"] then some (.text "x") else none
  host := emptyHost

/-- The file is read, and its renaming is prepared. -/
def renamePlanned (d : Desk) (path destination : String) (draw : Draw) : Desk :=
  after ((Call.previewFileChange .localFiles .rename path destination "" draw).run plainRoots)
    (after ((Call.readFile .localFiles path none none).run plainRoots) d)

def renamed (d : Desk) (id : String) (draw : Draw) : Desk :=
  after ((Call.applyFileChange .localFiles "reply" id true draw).run plainRoots) d

def onceRenamed : Desk := renamed (renamePlanned oldDesk "a" "b" firstDraw) "change" firstDraw

/-- The reply has renamed a file twice. -/
def twiceRenamed : Desk := renamed (renamePlanned onceRenamed "b" "c" secondDraw) "change2" secondDraw

theorem reply_renamePlanned {d : Desk} (h : Reply plainRoots "reply" oldDesk d) (path destination : String)
    (draw : Draw) : Reply plainRoots "reply" oldDesk (renamePlanned d path destination draw) :=
  .call (c := .previewFileChange .localFiles .rename path destination "" draw)
    (.call (c := .readFile .localFiles path none none) h trivial) trivial

/-- The second renaming names the file by its path, the first one by the path of its destination. -/
theorem chained_renames_not_undone :
    BeforeReply "reply" oldDesk ∧ Reply plainRoots "reply" oldDesk twiceRenamed ∧
    (replyChanges oldDesk twiceRenamed).map (fun e => (e.2.path,e.2.destination)) =
      [("a",some "/b"),("b",some "/c")] ∧
    undo plainRoots ⟨"reply","checkpoint"⟩ true 0 (fun _ => 0) (fun _ => none) twiceRenamed =
      .error (fileChanged "a") twiceRenamed ∧
    oldDesk.disk ["a"] = some (.text "x") ∧ twiceRenamed.disk ["a"] = none := by
  have hbefore : BeforeReply "reply" oldDesk := by
    refine ⟨by decide,fun c hc => (nomatch hc),fun id p hp => (nomatch hp),rfl,fun x node hx hne => ?_⟩
    by_cases ha : x = ["a"]
    · rw [ha]
      rfl
    · simp [oldDesk,hne,ha] at hx
  have hfirst : InReply plainRoots "reply" (renamePlanned oldDesk "a" "b" firstDraw)
      (.applyFileChange .localFiles "reply" "change" true firstDraw) := by
    refine ⟨rfl,⟨fun _ => rfl,fun id _ => ⟨?_,fun c hc => ?_,?_⟩⟩,fun p hp => ?_⟩
    · exact Table.not_hasKey_empty id
    · cases hc
    · exact not_mem_nil
    · cases hp
      refine ⟨rfl,by simp,fun _ x hx => ?_⟩
      cases hx
      rfl
  have hsecond : InReply plainRoots "reply" (renamePlanned onceRenamed "b" "c" secondDraw)
      (.applyFileChange .localFiles "reply" "change2" true secondDraw) := by
    have hnew : ∀ id, secondDraw.Names id → id ∉ ["backup"] := by
      rintro id (rfl | rfl | ⟨path,rfl⟩)
      · decide
      · decide
      · intro hsame
        have hlength := congrArg String.length (mem_singleton.mp hsame)
        rw [backupPath,String.length_append,String.length_append] at hlength
        have hshort : "backup".length = 6 := rfl
        have hlong : ".mxterm-agent-backup-".length = 21 := rfl
        omega
    refine ⟨rfl,⟨fun _ => rfl,fun id hid => ⟨fun hkey => hnew id hid hkey,fun c hc => ?_,?_⟩⟩,
      fun p hp => ?_⟩
    · rw [mem_singleton.mp hc]
      exact hnew id hid
    · exact fun hused => absurd hused (by decide)
    · cases hp
      refine ⟨rfl,by simp,fun _ x hx => ?_⟩
      cases hx
      rfl
  have honce : Reply plainRoots "reply" oldDesk onceRenamed :=
    .call (reply_renamePlanned .start "a" "b" firstDraw) hfirst
  exact ⟨hbefore,.call (reply_renamePlanned honce "b" "c" secondDraw) hsecond,rfl,rfl,rfl,rfl⟩

end Examples

end Mxterm.Workspace
