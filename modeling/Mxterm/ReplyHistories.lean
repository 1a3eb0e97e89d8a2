import Mxterm.CheckpointHistories

/-! The calls of one reply of a local agent, from the desk that it finds: which changes it has applied, and
what their files hold. -/
namespace Mxterm.Workspace

open Execution Edits List

/-- Every file and every directory stands in a directory. -/
structure Disk.Rooted (d : Disk) : Prop where
  root : d [] = some .directory
  parent : ∀ x node, d x = some node → x ≠ [] → d x.dropLast = some .directory

/-- The changes that were applied since the desk before the reply. -/
def replyChanges (d₀ d : Desk) : List (String × PendingPatch) :=
  d.files.applied.rows.drop d₀.files.applied.rows.length

def Touched (w : Roots) (changes : List (String × PendingPatch)) (x : FilePath) : Prop :=
  ∃ e ∈ changes, ∃ path ∈ e.2.touchedPaths, w.resolve path = .ok x

/-- No touched file lies below another one. -/
def NotNested (w : Roots) (changes : List (String × PendingPatch)) : Prop :=
  ∀ x y, Touched w changes x → Touched w changes y → x <+: y → x = y

/-- Every touched file has one name in the changes. -/
def OneName (w : Roots) (changes : List (String × PendingPatch)) : Prop :=
  ∀ e ∈ changes, ∀ f ∈ changes, ∀ a ∈ e.2.touchedPaths, ∀ b ∈ f.2.touchedPaths, ∀ x,
    w.resolve a = .ok x → w.resolve b = .ok x → a = b

/-- A text that is written as it is, can be read back, and gives way to the old text as that was. -/
structure Plain (p : PendingPatch) : Prop where
  stored : p.action ≠ .delete → p.action ≠ .rename →
    contentToWrite p.before (p.after.getD "") = p.after.getD ""
  readable : p.action ≠ .delete → p.action ≠ .rename → Readable (p.after.getD "")
  restored : p.RestoresText

/-- A call of the reply applies local changes with the tool of their kind, and no rename onto a file. -/
def InReply (w : Roots) (messageId : String) (d : Desk) : Call → Prop
  | .applyPatch _ ofReply id _ draw => ofReply = messageId ∧ draw.Fresh w d ∧
    ∀ p, d.files.patches id = some p →
      p.target = .localFiles ∧ p.action ≠ .delete ∧ p.action ≠ .rename
  | .applyFileChange _ ofReply id _ draw => ofReply = messageId ∧ draw.Fresh w d ∧
    ∀ p, d.files.patches id = some p → p.target = .localFiles ∧ p.action ≠ .patch ∧ Unobstructed w d p
  | _ => True

/-- The desks that a reply reaches from the one it finds. -/
inductive Reply (w : Roots) (messageId : String) (d₀ : Desk) : Desk → Prop
  | start : Reply w messageId d₀ d₀
  | call {d : Desk} {c : Call} : Reply w messageId d₀ d → InReply w messageId d c →
      Reply w messageId d₀ (after (c.run w) d)

section Rooted

variable {d made : Disk} {file target x : FilePath}

theorem Disk.Rooted.above (h : d.Rooted) (hx : d x = some .directory) {y : FilePath} (hy : y <+: x) :
    d y = some .directory := by
  induction x using List.reverseRecOn with
  | nil =>
    rw [prefix_nil.mp hy]
    exact hx
  | append_singleton x a ih =>
    rcases prefix_concat_iff.mp hy with rfl | hy
    · exact hx
    · have hparent := h.parent _ _ hx (by simp)
      rw [dropLast_concat] at hparent
      exact ih hparent hy

variable {node : Node}

/-- A file has directories all the way to it. -/
theorem Disk.Rooted.housed (h : d.Rooted) (hx : d x = some node) (hfile : node ≠ .directory) : Housed d x := by
  have hne : x ≠ [] := by
    intro hnil
    rw [hnil,h.root] at hx
    exact hfile (Option.some.inj hx).symm
  exact ⟨hne,fun y hy => h.above (h.parent x node hx hne) hy⟩

theorem prefix_dropLast {y : FilePath} (h : x <+: y) (hne : x ≠ y) : x <+: y.dropLast := by
  induction y using List.reverseRecOn with
  | nil => exact absurd (prefix_nil.mp h) hne
  | append_singleton y a _ =>
    rw [dropLast_concat]
    exact (prefix_concat_iff.mp h).resolve_left hne

/-- What is there needs no new directories. -/
theorem Grown.eq_of_present (h : Grown d made file) (hrooted : d.Rooted) (hfile : d file = some node)
    (hnode : node ≠ .directory) : made = d := by
  funext x
  refine (h x).resolve_right fun hnew => ?_
  obtain ⟨hnone,-,habove⟩ := hnew
  by_cases hx : x = file
  · rw [hx,hfile] at hnone
    cases hnone
  · rw [(hrooted.housed hfile hnode).2 x (prefix_dropLast habove hx)] at hnone
    cases hnone

theorem dropLast_ne (h : x ≠ []) : x.dropLast ≠ x := by
  intro hsame
  have hlength := congrArg List.length hsame
  rw [length_dropLast] at hlength
  have hpos := length_pos_iff.mpr h
  omega

theorem rooted_written (hrooted : d.Rooted) (hgrown : Grown d made file) (hhoused : Housed made file)
    (hfile : d file ≠ some .directory) (content : String) :
    (made.put file (some (.text content))).Rooted := by
  have hparent : ∀ y : FilePath, y.dropLast ≠ file → made y.dropLast = some .directory →
      made.put file (some (.text content)) y.dropLast = some .directory := by
    intro y hy hdirectory
    rw [Disk.put_of_ne _ hy]
    exact hdirectory
  constructor
  · rw [Disk.put_of_ne _ hhoused.1.symm]
    exact hhoused.2 [] nil_prefix
  · intro x node hx hne
    by_cases hsame : x = file
    · rw [hsame]
      exact hparent file (dropLast_ne hhoused.1) (hhoused.2 _ (prefix_rfl))
    · rw [Disk.put_of_ne _ hsame] at hx
      rcases hgrown x with hold | ⟨-,-,habove⟩
      · have hdirectory := hrooted.parent x node (hold ▸ hx) hne
        refine hparent x (fun hlast => hfile (hlast ▸ hdirectory)) ?_
        exact (hgrown.keeps (by simp [hdirectory])).trans hdirectory
      · have hlast : x.dropLast <+: file.dropLast :=
          ( dropLast_prefix x).trans (prefix_dropLast habove hsame)
        refine hparent x (fun hfull => ?_) (hhoused.2 _ hlast)
        rw [hfull] at hlast
        have hlength := hlast.length_le
        have hpos := length_pos_iff.mpr hhoused.1
        rw [length_dropLast] at hlength
        omega

theorem rooted_removed (hrooted : d.Rooted) (hfile : d file = some node) (hnode : node ≠ .directory) :
    (d.put file none).Rooted := by
  have hne : ∀ y, d y = some .directory → y ≠ file := by
    intro y hy hsame
    rw [hsame,hfile] at hy
    exact hnode (Option.some.inj hy)
  constructor
  · rw [Disk.put_of_ne _ (hne [] hrooted.root)]
    exact hrooted.root
  · intro x node' hx hx'
    by_cases hsame : x = file
    · rw [hsame,Disk.put_self] at hx
      cases hx
    · rw [Disk.put_of_ne _ hsame] at hx
      have hdirectory := hrooted.parent x node' hx hx'
      rw [Disk.put_of_ne _ (hne _ hdirectory)]
      exact hdirectory

theorem rooted_put (hrooted : d.Rooted) (htarget : d target ≠ some .directory)
    (hparent : d target.dropLast = some .directory) (node : Node) :
    (d.put target (some node)).Rooted := by
  have hdirectory : ∀ y, d y = some .directory → d.put target (some node) y = some .directory := by
    intro y hy
    have hne : y ≠ target := fun hsame => htarget (hsame ▸ hy)
    rw [Disk.put_of_ne _ hne]
    exact hy
  refine ⟨hdirectory [] hrooted.root,fun x node' hx hx' => ?_⟩
  by_cases hsame : x = target
  · rw [hsame]
    exact hdirectory _ hparent
  · rw [Disk.put_of_ne _ hsame] at hx
    exact hdirectory _ (hrooted.parent x node' hx hx')

end Rooted

/-- What applying a change to a file of the local disk has found and done. -/
structure LocallyApplied (w : Roots) (p : PendingPatch) (file : FilePath) (d d' : Desk) : Prop where
  resolved : w.resolve p.path = .ok file
  found : d.disk file = p.before.map .text
  before : ∀ s ∈ p.before, Readable s
  performed : Performed w p d d'
  directories : ∀ x, d.disk x = some .directory → d'.disk x = some .directory
  made : ∀ x, d'.disk x = some .directory → d.disk x = some .directory ∨ x <+: file ∧ x ≠ file
  rooted : d'.disk.Rooted
  destination : ∀ destination, p.destination = some destination →
    ∃ x, w.resolve destination = .ok x ∧ d.disk x = none

section Applications

variable {w : Roots} {d d' : Desk} {p : PendingPatch} {messageId id newId : String} {draw : Draw}
  {file : FilePath}

theorem Grown.made {disk grown : Disk} (h : Grown disk grown file) {x : FilePath}
    (hx : grown x = some .directory) : disk x = some .directory ∨ x <+: file := by
  rcases h x with hsame | ⟨-,-,habove⟩
  · exact .inl (hsame ▸ hx)
  · exact .inr habove

theorem found_no_directory {before : Option String} (h : d.disk file = before.map .text) :
    d.disk file ≠ some .directory := by
  rw [h]
  cases before <;> simp

/-- A text was written, in directories made for it. -/
theorem locallyApplied_written {made : Disk} {content : String} (hresolved : w.resolve p.path = .ok file)
    (hread : w.readVersion d.disk p.path = .ok p.before) (hperformed : Performed w p d d')
    (hrooted : d.disk.Rooted) (hgrown : Grown d.disk made file) (hhoused : Housed made file)
    (hdestination : p.destination = none) (hdisk : d'.disk = made.put file (some (.text content))) :
    LocallyApplied w p file d d' := by
  obtain ⟨_,hfile,hfound,hbefore⟩ := readVersion_ok.mp hread
  cases hresolved.symm.trans hfile
  have hnot := found_no_directory hfound
  refine ⟨hresolved,hfound,hbefore,hperformed,fun x hx => ?_,fun x hx => ?_,?_,fun destination h => ?_⟩
  · have hne : x ≠ file := fun hsame => hnot (hsame ▸ hx)
    rw [hdisk,Disk.put_of_ne _ hne]
    exact (hgrown.keeps (by simp [hx])).trans hx
  · rw [hdisk] at hx
    by_cases hsame : x = file
    · rw [hsame,Disk.put_self] at hx
      cases hx
    · rw [Disk.put_of_ne _ hsame] at hx
      exact (hgrown.made hx).imp_right fun habove => ⟨habove,hsame⟩
  · rw [hdisk]
    exact rooted_written hrooted hgrown hhoused hnot content
  · rw [hdestination] at h
    cases h

theorem LocalPatched.locallyApplied {made : Disk} (htarget : p.target = .localFiles)
    (hdelete : p.action ≠ .delete) (hrename : p.action ≠ .rename) (hwell : p.WellFormed)
    (hrooted : d.disk.Rooted) (h : LocalPatched w messageId id draw d d' p file made) :
    LocallyApplied w p file d d' :=
  locallyApplied_written h.resolved h.found (h.performed htarget hdelete hrename) hrooted h.grown h.housed
    (not_not.mp fun hthere => hrename (hwell.destination.mpr hthere)) h.disk

theorem LocalChanged.locallyApplied (htarget : p.target = .localFiles) (haction : p.action ≠ .patch)
    (hwell : p.WellFormed) (hfree : Unobstructed w d p) (hrooted : d.disk.Rooted)
    (h : LocalChanged w messageId id draw d d' p newId file) : LocallyApplied w p file d d' := by
  have hperformed := h.performed htarget haction hwell hfree
  obtain ⟨_,hfile,hfound,hbefore⟩ := readVersion_ok.mp h.found
  cases h.resolved.symm.trans hfile
  have hnot := found_no_directory hfound
  have hdestination : p.action ≠ .rename → p.destination = none := fun hrename =>
    not_not.mp fun hthere => hrename (hwell.destination.mpr hthere)
  have heffect := h.effect
  generalize hdisk : d'.disk = disk at heffect
  cases heffect with
  | nothing hkind => exact absurd hkind haction
  | @written made hkind hgrown hhoused =>
    exact locallyApplied_written h.resolved h.found hperformed hrooted hgrown hhoused
      (hdestination (by rcases hkind with hk | hk <;> simp [hk])) hdisk
  | @deleted made hkind hgrown =>
    obtain ⟨before,hb⟩ := Option.ne_none_iff_exists'.mp (hwell.before (.inr (.inl hkind)))
    have hthere : d.disk file = some (.text before) := by rw [hfound,hb]; rfl
    rw [hgrown.eq_of_present hrooted hthere (by simp)] at hdisk
    refine ⟨hfile,hfound,hbefore,hperformed,fun x hx => ?_,fun x hx => ?_,?_,fun destination hd => ?_⟩
    · have hne : x ≠ file := fun hsame => hnot (hsame ▸ hx)
      rw [hdisk,Disk.put_of_ne _ hne]
      exact hx
    · rw [hdisk] at hx
      by_cases hsame : x = file
      · rw [hsame,Disk.put_self] at hx
        cases hx
      · rw [Disk.put_of_ne _ hsame] at hx
        exact .inl hx
    · rw [hdisk]
      exact rooted_removed hrooted hthere (by simp)
    · rw [hdestination (by simp [hkind])] at hd
      cases hd
  | @renamed made target node hkind htargetFile hthere hroom hparent hroot hgrown =>
    obtain ⟨before,hb⟩ := Option.ne_none_iff_exists'.mp (hwell.before (.inr (.inr hkind)))
    have hthere' : d.disk file = some (.text before) := by rw [hfound,hb]; rfl
    have hsameDisk := hgrown.eq_of_present hrooted hthere' (by simp)
    rw [hsameDisk] at hdisk hroom hparent
    have hput : ∀ y, d.disk y = some .directory → (d.disk.put file none) y = some .directory := by
      intro y hy
      have hne : y ≠ file := fun hsame => hnot (hsame ▸ hy)
      rw [Disk.put_of_ne _ hne]
      exact hy
    have hroom' : (d.disk.put file none) target ≠ some .directory := by
      by_cases hsame : target = file
      · rw [hsame]
        simp
      · rw [Disk.put_of_ne _ hsame]
        exact hroom
    have hnode : node = .text before := Option.some.inj (hthere.symm.trans hthere')
    refine ⟨hfile,hfound,hbefore,hperformed,fun x hx => ?_,fun x hx => ?_,?_,fun destination hd => ?_⟩
    · have hne : x ≠ target := fun hsame => hroom (hsame ▸ hx)
      rw [hdisk,Disk.put_of_ne _ hne]
      exact hput x hx
    · rw [hdisk] at hx
      by_cases hsame : x = target
      · rw [hsame,Disk.put_self,hnode] at hx
        cases hx
      · rw [Disk.put_of_ne _ hsame] at hx
        by_cases hsame' : x = file
        · rw [hsame',Disk.put_self] at hx
          cases hx
        · rw [Disk.put_of_ne _ hsame'] at hx
          exact .inl hx
    · rw [hdisk]
      exact rooted_put (rooted_removed hrooted hthere' (by simp)) hroom' (hput _ hparent) node
    · have hempty := hfree hkind target (by rw [htarget,file?_local]; exact htargetFile)
      rw [htarget] at hempty
      rw [hd] at htargetFile
      exact ⟨target,htargetFile,hempty⟩

/-- A refused call changes nothing on a rooted disk. -/
theorem Refused.disk_eq (h : Refused id d d') (hrooted : d.disk.Rooted) : d'.disk = d.disk := by
  funext x
  refine (h.disk x).resolve_right fun hnew => ?_
  obtain ⟨hnone,-,other,hthere,habove⟩ := hnew
  obtain ⟨node,hnode⟩ := Option.ne_none_iff_exists'.mp hthere
  by_cases hx : x = other
  · exact hthere (hx ▸ hnone)
  · have hparent := hrooted.parent other node hnode fun hnil => by
      rw [hnil] at habove hx
      exact hx (prefix_nil.mp habove)
    rw [hrooted.above hparent (prefix_dropLast habove hx)] at hnone
    cases hnone

end Applications

/-- What is known of an applied change, wherever its files are by now. -/
structure Kept (w : Roots) (d : Disk) (p : PendingPatch) : Prop where
  target : p.target = .localFiles
  wellFormed : p.WellFormed
  path : ∃ file, w.resolve p.path = .ok file ∧ (p.before ≠ none → Housed d file)
  destination : ∀ destination, p.destination = some destination →
    ∃ x, w.resolve destination = .ok x ∧ w.resolve p.path ≠ .ok x
  before : ∀ s ∈ p.before, Readable s

/-- A touched file holds a text that can be read, or is absent. -/
def Legible (d : Disk) (x : FilePath) : Prop := ∀ node, d x = some node → ∃ s, node = .text s ∧ Readable s

/-- The desk before a reply. -/
structure BeforeReply (messageId : String) (d₀ : Desk) : Prop where
  named : messageId ≠ ""
  unknown : ∀ c ∈ d₀.files.checkpoints, c.messageId ≠ messageId
  pending : ∀ id p, d₀.files.patches id = some p → p.WellFormed
  rooted : d₀.disk.Rooted

/-- What a reply has done. -/
structure Replied (w : Roots) (messageId : String) (d₀ d : Desk) : Prop where
  rooted : d.disk.Rooted
  pending : ∀ id p, d.files.patches id = some p → p.WellFormed
  rows : d₀.files.applied.rows <+: d.files.applied.rows
  later : ∀ e ∈ replyChanges d₀ d, ∀ row ∈ d₀.files.applied.rows,
    row.2.appliedSequence < e.2.appliedSequence
  checkpoint : (d.files.checkpoints.filter (·.messageId = messageId)).map WorkspaceCheckpoint.changeIds =
    if replyChanges d₀ d = [] then [] else [(replyChanges d₀ d).map Prod.fst]
  chain : Chain (look w d₀) ((replyChanges d₀ d).map fun e => editOf w e.2) (look w d)
  directories : ∀ x, d₀.disk x = some .directory → d.disk x = some .directory
  kept : ∀ e ∈ replyChanges d₀ d, Kept w d.disk e.2
  legible : NotNested w (replyChanges d₀ d) → (∀ e ∈ replyChanges d₀ d, Plain e.2) →
    ∀ x, Touched w (replyChanges d₀ d) x → Legible d.disk x

section Replies

variable {w : Roots} {messageId : String} {d₀ d d' : Desk}

theorem replyChanges_self (d : Desk) : replyChanges d d = [] := by simp [replyChanges]

theorem replied_start (h : BeforeReply messageId d₀) : Replied w messageId d₀ d₀ := by
  have hfilter : d₀.files.checkpoints.filter (·.messageId = messageId) = [] :=
    filter_eq_nil_iff.mpr fun c hc => by simpa using h.unknown c hc
  refine ⟨h.rooted,h.pending,prefix_rfl,?_,?_,?_,fun _ hx => hx,?_,?_⟩
  all_goals rw [replyChanges_self]
  · exact fun e he => nomatch he
  · rw [hfilter]
    rfl
  · exact .nil _
  · exact fun e he => nomatch he
  · intro _ _ x hx
    obtain ⟨e,he,-⟩ := hx
    cases he

/-- A call that applies nothing and leaves the disk as it was. -/
theorem replied_same (h : Replied w messageId d₀ d) (happlied : d'.files.applied = d.files.applied)
    (hcheckpoints : d'.files.checkpoints = d.files.checkpoints) (hdisk : d'.disk = d.disk)
    (hlook : look w d' = look w d) (hpending : ∀ id p, d'.files.patches id = some p → p.WellFormed) :
    Replied w messageId d₀ d' := by
  have hchanges : replyChanges d₀ d' = replyChanges d₀ d := by rw [replyChanges,replyChanges,happlied]
  refine ⟨hdisk ▸ h.rooted,hpending,happlied ▸ h.rows,?_,?_,?_,?_,?_,?_⟩
  all_goals first | rw [hchanges] | skip
  · exact h.later
  · rw [hcheckpoints]
    exact h.checkpoint
  · rw [hlook]
    exact h.chain
  · rw [hdisk]
    exact h.directories
  · rw [hdisk]
    exact h.kept
  · rw [hdisk]
    exact h.legible

theorem pushChange_own (id checkpointId : String) (cs : List WorkspaceCheckpoint) :
    ((pushChange messageId id checkpointId cs).filter (·.messageId = messageId)).map
        WorkspaceCheckpoint.changeIds =
      match (cs.filter (·.messageId = messageId)).map WorkspaceCheckpoint.changeIds with
      | [] => [[id]]
      | ids :: rest => (ids ++ [id]) :: rest := by
  induction cs with
  | nil => simp [pushChange]
  | cons c cs ih =>
    unfold pushChange
    by_cases hid : c.messageId = messageId
    · rw [if_pos hid,filter_cons_of_pos (by simpa using hid),
        filter_cons_of_pos (by simpa using hid)]
      rfl
    · rw [if_neg hid,filter_cons_of_neg (by simpa using hid),
        filter_cons_of_neg (by simpa using hid)]
      exact ih

variable {p : PendingPatch}

theorem Kept.of_directories {disk disk' : Disk} (h : Kept w disk p)
    (hdirectories : ∀ x, disk x = some .directory → disk' x = some .directory) : Kept w disk' p := by
  obtain ⟨file,hfile,hhoused⟩ := h.path
  refine ⟨h.target,h.wellFormed,⟨file,hfile,fun hbefore => ?_⟩,h.destination,h.before⟩
  exact ⟨(hhoused hbefore).1,fun x hx => hdirectories x ((hhoused hbefore).2 x hx)⟩

variable {file : FilePath}

theorem LocallyApplied.kept (htarget : p.target = .localFiles) (hwell : p.WellFormed) (hrooted : d.disk.Rooted)
    (h : LocallyApplied w p file d d') : Kept w d'.disk p := by
  refine ⟨htarget,hwell,⟨file,h.resolved,fun hbefore => ?_⟩,fun destination hd => ?_,h.before⟩
  · obtain ⟨before,hb⟩ := Option.ne_none_iff_exists'.mp hbefore
    have hthere : d.disk file = some (.text before) := by rw [h.found,hb]; rfl
    have hhoused := hrooted.housed hthere (by simp)
    exact ⟨hhoused.1,fun x hx => h.directories x (hhoused.2 x hx)⟩
  · obtain ⟨x,hx,hempty⟩ := h.destination destination hd
    refine ⟨x,hx,fun hsame => ?_⟩
    cases h.resolved.symm.trans hsame
    rw [h.found] at hempty
    have hrename := hwell.destination.mpr (by simp [hd])
    exact hwell.before (.inr (.inr hrename)) (by simpa using hempty)

/-- What a plain change leaves at a place can be read. -/
theorem editOf_legible (htarget : p.target = .localFiles) (hplain : Plain p) (hbefore : ∀ s ∈ p.before, Readable s)
    {q : Place} {before after : Option Node} {node : Node} (hedit : editOf w p q = some (before,after))
    (hafter : after = some node) : ∃ s, node = .text s ∧ Readable s := by
  have hold : ∀ node, p.before.map Node.text = some node → ∃ s, node = .text s ∧ Readable s := by
    intro node hnode
    obtain ⟨s,hs,rfl⟩ := Option.map_eq_some_iff.mp hnode
    exact ⟨s,rfl,hbefore s hs⟩
  have hsingle : ∀ (k : Place) (b a : Option Node), Edit.single k b a q = some (before,after) →
      after = a := by
    intro k b a hq
    by_cases hk : q = k
    · rw [hk,Edit.single_self] at hq
      exact (Prod.mk.inj (Option.some.inj hq)).2.symm
    · rw [Edit.single_other hk] at hq
      cases hq
  cases hfile : w.file? p.target p.path with
  | none => simp [editOf,hfile] at hedit
  | some file =>
    by_cases hdelete : p.action = .delete
    · rw [editOf_delete hfile hdelete] at hedit
      rw [hsingle _ _ _ hedit] at hafter
      cases hafter
    · by_cases hrename : p.action = .rename
      · cases hdestination : w.file? p.target (p.destination.getD "") with
        | none => simp [editOf,hfile,hrename,hdestination] at hedit
        | some destination =>
          rw [editOf_rename hfile hdestination hrename,Edit.and,Option.or_eq_some_iff] at hedit
          rcases hedit with hfirst | ⟨-,hsecond⟩
          · rw [hsingle _ _ _ hfirst] at hafter
            cases hafter
          · rw [hsingle _ _ _ hsecond] at hafter
            exact hold node hafter
      · rw [editOf_written hfile hdelete hrename] at hedit
        rw [hsingle _ _ _ hedit] at hafter
        cases hafter
        have hstored : p.written = p.after.getD "" := by
          rw [PendingPatch.written,htarget]
          exact hplain.stored hdelete hrename
        exact ⟨p.written,rfl,hstored ▸ hplain.readable hdelete hrename⟩

/-- Applying a plain change leaves every touched file legible. -/
theorem LocallyApplied.legible {x : FilePath} (htarget : p.target = .localFiles) (hplain : Plain p)
    (h : LocallyApplied w p file d d') (hold : Legible d.disk x) (hdirectory : d'.disk x ≠ some .directory) :
    Legible d'.disk x := by
  intro node hnode
  have hlook : look w d' (.localFiles,x) = some node := by
    rw [look_visible (not_hidden_local x),Desk.node,hnode]
    cases node with
    | directory => exact absurd hnode hdirectory
    | text => rfl
    | binary => rfl
  rw [h.performed.2] at hlook
  cases hedit : editOf w p (.localFiles,x) with
  | none =>
    rw [Edit.perform_other hedit,look_visible (not_hidden_local x)] at hlook
    refine hold node ?_
    unfold fileNode at hlook
    split at hlook
    · cases hlook
    · exact hlook
  | some pair =>
    rw [Edit.perform_touched hedit] at hlook
    exact editOf_legible htarget hplain h.before hedit hlook

theorem LocallyApplied.legible_before {x : FilePath} {path : String} (h : LocallyApplied w p file d d')
    (hpath : path ∈ p.touchedPaths) (hx : w.resolve path = .ok x) : Legible d.disk x := by
  rcases mem_cons.mp hpath with rfl | hpath
  · cases h.resolved.symm.trans hx
    intro node hnode
    rw [h.found] at hnode
    obtain ⟨s,hs,rfl⟩ := Option.map_eq_some_iff.mp hnode
    exact ⟨s,rfl,h.before s hs⟩
  · obtain ⟨y,hy,hempty⟩ := h.destination path (by simpa using hpath)
    cases hy.symm.trans hx
    intro node hnode
    rw [hempty] at hnode
    cases hnode

theorem replied_applied (h : Replied w messageId d₀ d) {id newId checkpointId : String} {now : ℕ}
    (hpending : d.files.patches id = some p)
    (hfiles : d'.files = (d.files.take id).registerApplied newId p messageId checkpointId now)
    (htarget : p.target = .localFiles) (happlied : LocallyApplied w p file d d')
    (hfresh : FreshNumber d.files newId checkpointId) : Replied w messageId d₀ d' := by
  have hwell := h.pending id p hpending
  have hfresh' : ¬ (d.files.take id).applied.HasKey newId := hfresh.applied
  obtain ⟨row,hrows,hid,hpatch,hsequence⟩ : ∃ row, d'.files.applied.rows = d.files.applied.rows ++ [row] ∧
      row.1 = newId ∧ row.2 = { p with
        appliedSequence := (d.files.take id).nextSequence
        appliedAtMs := now } ∧
      ∀ old ∈ d.files.applied.rows, old.2.appliedSequence < row.2.appliedSequence := by
    refine ⟨_,by rw [hfiles]; exact register_rows hfresh',rfl,rfl,fun old hold => ?_⟩
    exact lt_nextSequence (s := d.files.take id) hold
  have hchanges : replyChanges d₀ d' = replyChanges d₀ d ++ [row] := by
    rw [replyChanges,hrows,drop_append_of_le_length h.rows.length_le]
    rfl
  have hedit : editOf w row.2 = editOf w p := by rw [hpatch]; rfl
  have hpaths : row.2.touchedPaths = p.touchedPaths := by rw [hpatch]; rfl
  refine ⟨happlied.rooted,fun x q hq => ?_,?_,?_,?_,?_,fun x hx => ?_,?_,?_⟩
  · rw [hfiles] at hq
    exact h.pending x q (take_patches hq)
  · rw [hrows]
    exact h.rows.trans (prefix_append _ _)
  · rw [hchanges]
    intro e he old hold
    rcases mem_append.mp he with he | he
    · exact h.later e he old hold
    · rw [mem_singleton.mp he]
      exact hsequence old (h.rows.subset hold)
  · rw [hchanges,if_neg (by simp),map_append,map_singleton,hid,hfiles]
    change ((pushChange messageId newId checkpointId d.files.checkpoints).filter
      (·.messageId = messageId)).map WorkspaceCheckpoint.changeIds = _
    rw [pushChange_own,h.checkpoint]
    by_cases hnil : replyChanges d₀ d = []
    · rw [hnil]
      rfl
    · rw [if_neg hnil]
  · rw [hchanges,map_append,map_singleton,happlied.performed.2,hedit]
    exact h.chain.snoc happlied.performed.1
  · exact happlied.directories x (h.directories x hx)
  · rw [hchanges]
    intro e he
    rcases mem_append.mp he with he | he
    · exact (h.kept e he).of_directories happlied.directories
    · have hkept := happlied.kept htarget hwell h.rooted
      rw [mem_singleton.mp he,hpatch]
      exact ⟨hkept.target,hwell.registered _ _,hkept.path,hkept.destination,hkept.before⟩
  · rw [hchanges]
    intro hnested hplain x hx
    have hplainNew : Plain p := by
      have hlast := hplain row (by simp)
      rw [hpatch] at hlast
      exact ⟨hlast.stored,hlast.readable,hlast.restored⟩
    have hnew : ∀ path ∈ p.touchedPaths, ∀ y, w.resolve path = .ok y →
        Touched w (replyChanges d₀ d ++ [row]) y := fun path hpath y hy =>
      ⟨row,by simp,path,hpaths ▸ hpath,hy⟩
    have holder : ∀ y, Touched w (replyChanges d₀ d) y →
        Touched w (replyChanges d₀ d ++ [row]) y := by
      intro y hy
      obtain ⟨e,he,hrest⟩ := hy
      exact ⟨e,mem_append_left _ he,hrest⟩
    have hbefore : Legible d.disk x := by
      obtain ⟨e,he,path,hpath,hresolve⟩ := hx
      rcases mem_append.mp he with he | he
      · exact h.legible (fun a b ha hb => hnested a b (holder a ha) (holder b hb))
          (fun e he => hplain e (mem_append_left _ he)) x ⟨e,he,path,hpath,hresolve⟩
      · rw [mem_singleton.mp he,hpaths] at hpath
        exact happlied.legible_before hpath hresolve
    refine happlied.legible htarget hplainNew hbefore fun hdirectory => ?_
    rcases happlied.made x hdirectory with hdirectory | ⟨habove,hne⟩
    · obtain ⟨s,hs,-⟩ := hbefore _ hdirectory
      cases hs
    · exact hne (hnested x file hx (hnew p.path mem_cons_self file happlied.resolved) habove)

theorem replied_looked (h : Replied w messageId d₀ d) {seen : Option (String × String × ℕ × ℕ)}
    (hd' : Looked seen d d') : Replied w messageId d₀ d' := by
  refine replied_same h hd'.applied hd'.checkpoints hd'.disk (look_of_files hd'.disk hd'.host) ?_
  intro id p hp
  rcases hd'.patches with hsame | ⟨new,q,hnew,hq⟩
  · exact h.pending id p (hsame ▸ hp)
  · rw [hnew] at hp
    by_cases hid : id = new
    · subst hid
      rw [Function.update_self] at hp
      exact Option.some.inj hp ▸ hq
    · rw [Function.update_of_ne hid] at hp
      exact h.pending id p hp

theorem replied_refused (h : Replied w messageId d₀ d) {id : String} {draw : Draw}
    (hrefused : Refused id d d') (hspared : Spared w draw d.host d'.host) :
    Replied w messageId d₀ d' := by
  have hdisk := hrefused.disk_eq h.rooted
  have hlook : look w d' = look w d := by
    refine look_same fun q hq => ?_
    obtain ⟨target,x⟩ := q
    cases target with
    | localFiles => rw [Desk.node,Desk.node,hdisk]
    | ssh =>
      rw [Desk.node,Desk.node]
      rcases hspared with hsame | ⟨source,path,hback⟩
      · rw [hsame]
      · rw [hback.visible hq]
  rcases hrefused.files with hfiles | hfiles
  · exact replied_same h (by rw [hfiles]) (by rw [hfiles]) hdisk hlook
      fun x p hp => h.pending x p (hfiles ▸ hp)
  · refine replied_same h (by rw [hfiles]; rfl) (by rw [hfiles]; rfl) hdisk hlook fun x p hp => ?_
    rw [hfiles] at hp
    exact h.pending x p (take_patches hp)

theorem replied_call (h : Replied w messageId d₀ d) {c : Call} (hcall : InReply w messageId d c) :
    Replied w messageId d₀ (after (c.run w) d) := by
  cases c with
  | readFile target path offset limit =>
    exact replied_looked h (Leads.after (readFile_leads target path offset limit))
  | previewPatch target path old new replaceAll draw =>
    exact replied_looked h (Leads.after (previewPatch_leads target path old new replaceAll draw))
  | previewFileChange target action path destination content draw =>
    exact replied_looked h
      (Leads.after (previewFileChange_leads target action path destination content draw))
  | applyPatch requested ofReply id approved draw =>
    obtain ⟨rfl,hfresh,hpatch⟩ := hcall
    refine Leads.after ((applyPatch_leads requested ofReply id approved hfresh.unused).mono ?_
      fun _ hrefused => replied_refused h hrefused.1 hrefused.2)
    intro _ d' happlied
    obtain ⟨p,⟨htarget,file,made,hp⟩ | ⟨htarget,version,host,hp⟩⟩ := happlied
    · obtain ⟨-,hdelete,hrename⟩ := hpatch p hp.pending
      exact replied_applied h hp.pending hp.files htarget
        (hp.locallyApplied htarget hdelete hrename (h.pending id p hp.pending) h.rooted)
        (hfresh.numbers _ (.inl rfl))
    · have hlocal := (hpatch p hp.pending).1
      rw [htarget] at hlocal
      cases hlocal
  | applyFileChange requested ofReply id approved draw =>
    obtain ⟨rfl,hfresh,hpatch⟩ := hcall
    refine Leads.after ((applyFileChange_leads requested ofReply id approved hfresh.unused).mono ?_
      fun _ hrefused => replied_refused h hrefused.1 hrefused.2)
    intro _ d' happlied
    obtain ⟨p,⟨htarget,newId,file,hp⟩ | ⟨htarget,host,hp⟩⟩ := happlied
    · obtain ⟨-,haction,hfree⟩ := hpatch p hp.pending
      exact replied_applied h hp.pending hp.files htarget
        (hp.locallyApplied htarget haction (h.pending id p hp.pending) hfree h.rooted)
        (hfresh.numbers _ ((hp.drawn haction).imp_right .inl))
    · have hlocal := (hpatch p hp.pending).1
      rw [htarget] at hlocal
      cases hlocal

theorem reply_replied (hbefore : BeforeReply messageId d₀) (h : Reply w messageId d₀ d) :
    Replied w messageId d₀ d := by
  induction h with
  | start => exact replied_start hbefore
  | call _ hcall ih => exact replied_call ih hcall

end Replies

end Mxterm.Workspace
