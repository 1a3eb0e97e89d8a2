import Mxterm.CheckpointStatuses
import Mxterm.EditConflicts
import Mxterm.FileReversals

/-! Every run of an agent's file tools and rollbacks. Its files are the first ones with exactly the changes
made to them that are still applied, and the status of each checkpoint says how many of its changes these
are. -/
namespace Mxterm.Workspace

open WorkspaceState hiding take

open Execution Edits List

/-- The files of the desk are those of the beginning after the edits that are still recorded. -/
structure Recorded (w : Roots) (base : Place → Option Node) (d : Desk) : Prop where
  chain : Chain base (d.files.applied.rows.map fun row => editOf w row.2) (look w d)
  applied : ∀ row ∈ d.files.applied, row.2.WellFormed ∧ row.2.Visible w ∧ BackupKept w d row.1 row.2
  pending : ∀ id p, d.files.patches id = some p → p.WellFormed

structure Honest (w : Roots) (base : Place → Option Node) (d : Desk) : Prop where
  books : Booked d.files
  record : Recorded w base d

/-- No change that was applied later, and still is, touches a place of the change. -/
def NoLater (w : Roots) (d : Desk) (p : PendingPatch) : Prop :=
  ∀ row ∈ d.files.applied, p.appliedSequence < row.2.appliedSequence →
    (editOf w row.2).Apart (editOf w p)

section Steps

variable {w : Roots} {base : Place → Option Node} {d d' : Desk} {p : PendingPatch} {id : String}

theorem honest_start (disk : Disk) (host : Host) :
    Honest w (look w ⟨default,disk,host⟩) ⟨default,disk,host⟩ := by
  refine ⟨⟨fun c hc => ?_,nodup_nil,List.Pairwise.nil⟩,⟨.nil _,fun row hrow => ?_,fun id p hp => ?_⟩⟩
  · cases hc
  · cases hrow
  · cases hp

theorem booked_same {s s' : WorkspaceState} (h : Booked s) (happlied : s'.applied = s.applied)
    (hcheckpoints : s'.checkpoints = s.checkpoints) : Booked s' := by
  refine ⟨fun c hc => ?_,?_,?_⟩
  · rw [happlied]
    exact h.truthful c (hcheckpoints ▸ hc)
  · rw [hcheckpoints]
    exact h.ids
  · rw [happlied]
    exact h.ordered

theorem backupKept_of_host (h : BackupKept w d id p) (hwell : p.WellFormed)
    (hhost : ∀ x, IsBackup w x → d.host.disk x ≠ none → d'.host.disk x = d.host.disk x) :
    BackupKept w d' id p := by
  intro htarget haction
  obtain ⟨hbackup,hnode⟩ := h htarget haction
  refine ⟨hbackup,?_⟩
  rw [hhost _ hbackup,hnode]
  rw [hnode]
  simpa using hwell.before (.inr (.inl haction))

/-- A step that applies and takes back nothing. -/
theorem honest_same (h : Honest w base d) (happlied : d'.files.applied = d.files.applied)
    (hcheckpoints : d'.files.checkpoints = d.files.checkpoints) (hlook : look w d' = look w d)
    (hpending : ∀ id p, d'.files.patches id = some p → p.WellFormed)
    (hhost : ∀ x, IsBackup w x → d.host.disk x ≠ none → d'.host.disk x = d.host.disk x) :
    Honest w base d' := by
  refine ⟨booked_same h.books happlied hcheckpoints,?_,fun row hrow => ?_,hpending⟩
  · rw [happlied,hlook]
    exact h.record.chain
  · rw [happlied] at hrow
    obtain ⟨hwell,hvisible,hbackup⟩ := h.record.applied row hrow
    exact ⟨hwell,hvisible,backupKept_of_host hbackup hwell hhost⟩

theorem look_of_files (hdisk : d'.disk = d.disk) (hhost : d'.host = d.host) : look w d' = look w d := by
  refine look_same fun q _ => ?_
  obtain ⟨target,x⟩ := q
  cases target with
  | localFiles => rw [Desk.node,Desk.node,hdisk]
  | ssh => rw [Desk.node,Desk.node,hhost]

theorem honest_looked (h : Honest w base d) {seen : Option (String × String × ℕ × ℕ)}
    (hd' : Looked seen d d') : Honest w base d' := by
  refine honest_same h hd'.applied hd'.checkpoints (look_of_files hd'.disk hd'.host) ?_ ?_
  · intro id p hp
    rcases hd'.patches with hsame | ⟨new,q,hnew,hq⟩
    · exact h.record.pending id p (hsame ▸ hp)
    · rw [hnew] at hp
      by_cases hid : id = new
      · subst hid
        rw [Function.update_self] at hp
        exact Option.some.inj hp ▸ hq
      · rw [Function.update_of_ne hid] at hp
        exact h.record.pending id p hp
  · intro x _ _
    rw [hd'.host]

theorem take_patches {s : WorkspaceState} {x : String} (h : (s.take id).patches x = some p) :
    s.patches x = some p := by
  unfold WorkspaceState.take at h
  by_cases hx : x = id
  · subst hx
    simp at h
  · simpa [Function.update_of_ne hx] using h

theorem honest_refused (h : Honest w base d) {draw : Draw} (hrefused : Refused id d d')
    (hspared : Spared w draw d.host d'.host) (hunused : draw.Unused w d.host) : Honest w base d' := by
  have hkept := hrefused.keeps hspared hunused
  have hbooks : d'.files.applied = d.files.applied ∧ d'.files.checkpoints = d.files.checkpoints ∧
      ∀ x p, d'.files.patches x = some p → d.files.patches x = some p := by
    rcases hrefused.files with hfiles | hfiles
    · rw [hfiles]
      exact ⟨rfl,rfl,fun _ _ hp => hp⟩
    · rw [hfiles]
      exact ⟨rfl,rfl,fun _ _ hp => take_patches hp⟩
  refine honest_same h hbooks.1 hbooks.2.1 (look_same fun q hq => ?_)
    (fun x p hp => h.record.pending x p (hbooks.2.2 x p hp)) fun x _ hx => hkept (.ssh,x) (fun h => h) hx
  obtain ⟨target,x⟩ := q
  cases target with
  | localFiles =>
    rcases hrefused.disk x with hsame | ⟨hnone,hnew,-⟩
    · rw [Desk.node,Desk.node,hsame]
    · rw [Desk.node,Desk.node,hnone,hnew]
      rfl
  | ssh =>
    rw [Desk.node,Desk.node]
    rcases hspared with hsame | ⟨source,path,hback⟩
    · rw [hsame]
    · rw [hback.visible hq]

theorem PendingPatch.WellFormed.registered (h : p.WellFormed) (sequence now : ℕ) :
    { p with appliedSequence := sequence, appliedAtMs := now }.WellFormed :=
  ⟨h.after,h.before,h.absent,h.destination,h.deleted⟩

/-- A change was performed and registered. -/
theorem honest_applied (h : Honest w base d) {newId messageId : String} {draw : Draw}
    (hpending : d.files.patches id = some p)
    (hfiles : d'.files =
      (d.files.take id).registerApplied newId p messageId draw.checkpointId draw.now)
    (hperformed : Performed w p d d') (hvisible : p.Visible w)
    (hhost : ∀ x, IsBackup w x → d.host.disk x ≠ none → d'.host.disk x = d.host.disk x)
    (hkept : BackupKept w d' newId p) (hfresh : FreshNumber d.files newId draw.checkpointId)
    (hopen : OpenReply d.files messageId) : Honest w base d' := by
  have hwell := h.record.pending id p hpending
  have htaken : Booked (d.files.take id) := booked_same h.books rfl rfl
  have hfresh' : FreshNumber (d.files.take id) newId draw.checkpointId :=
    ⟨hfresh.applied,hfresh.changeIds,hfresh.checkpoint⟩
  have hrows : d'.files.applied.rows = (d.files.take id).applied.rows ++ [(newId,{ p with
      appliedSequence := (d.files.take id).nextSequence
      appliedAtMs := draw.now })] := by
    rw [hfiles]
    exact register_rows hfresh'.applied
  refine ⟨?_,?_,fun row hrow => ?_,fun x q hq => ?_⟩
  · rw [hfiles]
    exact booked_register htaken hfresh' hopen
  · rw [hrows,map_append,hperformed.2]
    exact h.record.chain.snoc hperformed.1
  · rw [Table.mem_iff,hrows] at hrow
    rcases mem_append.mp hrow with hrow | hrow
    · obtain ⟨hwell,hvisible,hbackup⟩ := h.record.applied row hrow
      exact ⟨hwell,hvisible,backupKept_of_host hbackup hwell hhost⟩
    · obtain rfl := mem_singleton.mp hrow
      exact ⟨hwell.registered _ _,hvisible,hkept⟩
  · rw [hfiles] at hq
    exact h.record.pending x q (take_patches hq)

/-- A change that no later one meets is taken out of the record. -/
theorem chain_remove (h : Honest w base d) (hp : (id,p) ∈ d.files.applied) (hno : NoLater w d p) :
    (editOf w p).reverse.Fits (look w d) ∧
    Chain base ((d.files.remove id).applied.rows.map fun row => editOf w row.2)
      ((editOf w p).reverse.perform (look w d)) := by
  obtain ⟨pre,post,hrows⟩ := append_of_mem (Table.mem_iff.mp hp)
  have hlater : ∀ row ∈ post, p.appliedSequence < row.2.appliedSequence := by
    have hordered := h.books.ordered
    rw [hrows] at hordered
    exact (pairwise_cons.mp (pairwise_append.mp hordered).2.1).1
  have hrest : (d.files.remove id).applied.rows = pre ++ post := by
    have hkeys := d.files.applied.keysNodup
    rw [hrows,map_append] at hkeys
    have hpre : ∀ row ∈ pre, row.1 ≠ id := fun row hrow hsame =>
      disjoint_of_nodup_append hkeys (mem_map_of_mem hrow) (hsame ▸ mem_cons_self)
    have hpost : ∀ row ∈ post, row.1 ≠ id := by
      intro row hrow hsame
      have hkey : row.1 ∈ post.map Prod.fst := mem_map_of_mem hrow
      rw [hsame] at hkey
      exact (nodup_cons.mp (nodup_append.mp hkeys).2.1).1 hkey
    change d.files.applied.rows.filter (fun row => decide (row.1 ≠ id)) = pre ++ post
    rw [hrows,filter_append,filter_cons_of_neg (by simp),
      filter_eq_self.mpr fun row hrow => decide_eq_true (hpre row hrow),
      filter_eq_self.mpr fun row hrow => decide_eq_true (hpost row hrow)]
  have hchain := h.record.chain
  rw [hrows,map_append] at hchain
  rw [hrest,map_append]
  apply hchain.remove
  intro e he
  obtain ⟨row,hrow,rfl⟩ := mem_map.mp he
  have hmem : row ∈ d.files.applied.rows := by
    rw [hrows]
    exact mem_append_right pre (mem_cons_of_mem _ hrow)
  exact hno row hmem (hlater row hrow)

/-- A change was taken back and forgotten. -/
theorem honest_takenBack (h : Honest w base d) (hp : (id,p) ∈ d.files.applied) (hno : NoLater w d p)
    {made : Desk} (htaken : TakenBack w p d made) {files : WorkspaceState} (hbooks : Booked files)
    (happlied : files.applied = (d.files.remove id).applied) (hpatches : files.patches = d.files.patches) :
    Honest w base { made with files := files } := by
  refine ⟨hbooks,?_,fun row hrow => ?_,fun x q hq => ?_⟩
  · have hlook : look w { made with files := files } = look w made := look_of_files rfl rfl
    rw [hlook,htaken.look]
    rw [happlied]
    exact (chain_remove h hp hno).2
  · rw [happlied] at hrow
    have hrow' : row ∈ d.files.applied := (Table.mem_keepRows.mp hrow).1
    obtain ⟨hwell,hvisible,hbackup⟩ := h.record.applied row hrow'
    exact ⟨hwell,hvisible,backupKept_of_host hbackup hwell fun x hx _ => htaken.backups x hx⟩
  · rw [hpatches] at hq
    exact h.record.pending x q hq

end Steps

/-- A call of the agent, or of its user, that can touch the files or the checkpoints. -/
inductive WorkspaceCall
  | tool (c : Call)
  | rollbackPatch (requested : WorkspaceTarget) (backupId : String) (approved : Bool) (draw : Draw)
  | rollbackWorkspace (requested : String) (requestedIds : List String) (approved : Bool) (draw : Draw)
      (time : String → ℕ)
  | createWorkspaceCheckpoint (draw : Draw)
  | undo (request : UndoRequest) (hostKnown : Bool) (now : ℕ) (time : String → ℕ)
      (saving : String → Option String)

/-- The desk that a call leaves behind, whatever its outcome. -/
def WorkspaceCall.leaves (w : Roots) (d : Desk) : WorkspaceCall → Desk
  | tool c => after (c.run w) d
  | rollbackPatch requested backupId approved draw =>
    after (Workspace.rollbackPatch w requested backupId approved draw) d
  | rollbackWorkspace requested requestedIds approved draw time =>
    after (Workspace.rollbackWorkspace w requested requestedIds approved draw time) d
  | createWorkspaceCheckpoint draw => after (Workspace.createWorkspaceCheckpoint draw) d
  | undo request hostKnown now time saving => after (Workspace.undo w request hostKnown now time saving) d

/-- A run of calls from the first desk of an agent, each of them allowed where it happens. -/
inductive History (w : Roots) (allowed : Desk → WorkspaceCall → Prop) (disk : Disk) (host : Host) :
    Desk → Prop
  | start : History w allowed disk host ⟨default,disk,host⟩
  | call {d : Desk} {c : WorkspaceCall} : History w allowed disk host d → allowed d c →
      History w allowed disk host (c.leaves w d)

/-- The numbers that a call can give to a change. -/
def Draw.Names (draw : Draw) (id : String) : Prop :=
  id = draw.operationId ∨ id = draw.backupId ∨ ∃ path, id = backupPath path draw.backupId

/-- What a call draws stands nowhere yet. -/
structure Draw.Fresh (w : Roots) (draw : Draw) (d : Desk) : Prop where
  unused : draw.Unused w d.host
  numbers : ∀ id, draw.Names id → FreshNumber d.files id draw.checkpointId

/-- A change that is taken back is the last one on its files, and its old text can be written back. -/
def Returnable (w : Roots) (d : Desk) (p : PendingPatch) : Prop := NoLater w d p ∧ p.RestoresText

/-- Each change of a rollback of several is, when its turn comes and its files are as it left them, still
applied and the last one on its files. `forget` is what the rollback does to the books. -/
def Peels (w : Roots) (time : String → ℕ)
    (forget : String × PendingPatch → WorkspaceState → WorkspaceState) :
    List (String × PendingPatch) → Desk → Prop
  | [], _ => True
  | entry :: rest, d => (AsLeft w d entry.2 → entry ∈ d.files.applied ∧ Returnable w d entry.2) ∧
    ∀ d', rollbackAppliedPatch w entry.1 entry.2 (time entry.1) d = .ok () d' →
      Peels w time forget rest { d' with files := forget entry d'.files }

def forgetApplied (now : ℕ) (entry : String × PendingPatch) (s : WorkspaceState) : WorkspaceState :=
  (s.remove entry.1).markCheckpointChangeRemoved entry.1 now

/-- What the calls have to keep to. -/
def Truthfully (w : Roots) (d : Desk) : WorkspaceCall → Prop
  | .tool (.applyPatch _ messageId id _ draw) =>
    -- The tool of patches is used for changes of one text, and on the host for the text that is there.
    draw.Fresh w d ∧ OpenReply d.files messageId ∧ ∀ p, d.files.patches id = some p →
      p.action ≠ .delete ∧ p.action ≠ .rename ∧ p.Visible w ∧
      (p.target = .ssh → d.host.disk (w.remoteReal p.path) = p.before.map .text)
  | .tool (.applyFileChange _ messageId id _ draw) =>
    draw.Fresh w d ∧ OpenReply d.files messageId ∧ ∀ p, d.files.patches id = some p →
      (p.target = .localFiles → p.action ≠ .patch) ∧ p.Visible w ∧ Unobstructed w d p
  | .tool _ => True
  | .rollbackPatch _ backupId _ _ => d.files.patches backupId = none ∧
    ∀ p, d.files.get? backupId = some p → AsLeftForSingle w d p → Returnable w d p
  | .rollbackWorkspace requested requestedIds _ draw time =>
    -- Every change of the checkpoint that is still applied is taken back.
    Peels w time (forgetApplied draw.now) (d.files.chosenChanges requested requestedIds).reverse d ∧
    ∀ c, d.files.chosenCheckpoint requested = some c → ∀ id ∈ c.changeIds, d.files.applied.HasKey id →
      id ∈ (d.files.chosenChanges requested requestedIds).map Prod.fst
  | .createWorkspaceCheckpoint draw => draw.checkpointId ∉ d.files.checkpoints.map WorkspaceCheckpoint.id
  | .undo request _ now time _ => ∀ patches, d.files.undoPlan request = .ok patches →
    Peels w time (fun entry s => s.forgetUndone now entry) patches d

section Calls

variable {w : Roots} {base : Place → Option Node} {d : Desk}

variable {requested : WorkspaceTarget} {messageId id : String} {approved : Bool} {draw : Draw}

theorem applyPatch_honest (h : Honest w base d)
    (hallowed : Truthfully w d (.tool (.applyPatch requested messageId id approved draw))) :
    Honest w base (after (applyPatch w requested messageId id approved draw) d) := by
  obtain ⟨hfresh,hopen,hpatch⟩ := hallowed
  refine Leads.after ((applyPatch_leads requested messageId id approved hfresh.unused).mono ?_
    fun d' hrefused => honest_refused h hrefused.1 hrefused.2 hfresh.unused)
  intro _ d' happlied
  obtain ⟨p,⟨htarget,file,made,hp⟩ | ⟨htarget,version,host,hp⟩⟩ := happlied
  · obtain ⟨hdelete,hrename,hvisible,-⟩ := hpatch p hp.pending
    refine honest_applied h hp.pending hp.files (hp.performed htarget hdelete hrename) hvisible
      (fun x _ _ => by rw [hp.host]) (fun hssh => ?_) (hfresh.numbers _ (.inl rfl)) hopen
    rw [htarget] at hssh
    cases hssh
  · obtain ⟨hdelete,hrename,hvisible,hfound⟩ := hpatch p hp.pending
    have hshown : ¬ Hidden w (.ssh,w.remoteReal p.path) :=
      htarget ▸ hvisible p.path mem_cons_self _ (by rw [htarget,file?_ssh])
    refine honest_applied h hp.pending hp.files (hp.performed htarget hdelete hrename hshown
      (hfound htarget)) hvisible (fun x hx hthere => ?_) (fun _ haction => absurd haction hdelete)
      (hfresh.numbers _ (.inr (.inr ⟨_,rfl⟩))) hopen
    have hpath : x ≠ w.remoteReal p.path := fun hsame => hshown ⟨rfl,hsame ▸ hx⟩
    rw [hp.host,store_disk,if_neg hpath]
    refine hp.backup.disk fun hsame => hthere ?_
    rw [hsame]
    exact hfresh.unused p.path

/-- The backup of what was deleted on the host holds its text. -/
theorem HostChanged.backupKept {d' : Desk} {p : PendingPatch} {host : Host} (hwell : p.WellFormed)
    (hvisible : p.Visible w) (h : HostChanged w messageId id draw d d' p host) :
    BackupKept w d' (backupPath p.path draw.backupId) p := by
  intro htarget haction
  have hbackup : IsBackup w (w.remoteReal (backupPath p.path draw.backupId)) := ⟨_,_,rfl⟩
  have hshown : ¬ Hidden w (.ssh,w.remoteReal p.path) :=
    htarget ▸ hvisible p.path mem_cons_self _ (by rw [htarget,file?_ssh])
  have hne : w.remoteReal (backupPath p.path draw.backupId) ≠ w.remoteReal p.path := fun hsame =>
    hshown ⟨rfl,hsame ▸ hbackup⟩
  refine ⟨hbackup,?_⟩
  have heffect := h.effect
  generalize d'.host = host' at heffect
  cases heffect with
  | written _ hkind => rcases hkind with hk | hk <;> simp [haction] at hk
  | renamed hkind => simp [haction] at hkind
  | deleted =>
    rw [remove_disk,if_neg hne]
    rcases h.backup with ⟨hnone,-⟩ | ⟨node,hnode,-,rfl⟩
    · exact absurd hnone (hwell.before (.inr (.inl haction)))
    · rw [store_disk,if_pos rfl,← hnode,h.found]

theorem applyFileChange_honest (h : Honest w base d)
    (hallowed : Truthfully w d (.tool (.applyFileChange requested messageId id approved draw))) :
    Honest w base (after (applyFileChange w requested messageId id approved draw) d) := by
  obtain ⟨hfresh,hopen,hpatch⟩ := hallowed
  refine Leads.after ((applyFileChange_leads requested messageId id approved hfresh.unused).mono ?_
    fun d' hrefused => honest_refused h hrefused.1 hrefused.2 hfresh.unused)
  intro _ d' happlied
  obtain ⟨p,⟨htarget,newId,file,hp⟩ | ⟨htarget,host,hp⟩⟩ := happlied
  · obtain ⟨haction,hvisible,hfree⟩ := hpatch p hp.pending
    have hwell := h.record.pending id p hp.pending
    have hnames : draw.Names newId := (hp.drawn (haction htarget)).imp_right .inl
    refine honest_applied h hp.pending hp.files (hp.performed htarget (haction htarget) hwell hfree)
      hvisible (fun x _ _ => by rw [hp.host]) (fun hssh => ?_) (hfresh.numbers _ hnames) hopen
    rw [htarget] at hssh
    cases hssh
  · obtain ⟨-,hvisible,hfree⟩ := hpatch p hp.pending
    have hwell := h.record.pending id p hp.pending
    exact honest_applied h hp.pending hp.files (hp.performed htarget hwell hvisible hfree) hvisible
      (fun x hx hthere => hp.backups hfresh.unused htarget hvisible hfree hx hthere)
      (hp.backupKept hwell hvisible) (hfresh.numbers _ (.inr (.inr ⟨_,rfl⟩))) hopen

theorem reversible_of_returnable (h : Honest w base d) {p : PendingPatch} (hp : (id,p) ∈ d.files.applied)
    (hreturnable : Returnable w d p) : Reversible w d p :=
  ⟨(chain_remove h hp hreturnable.1).1,hreturnable.2⟩

theorem rollbackPatch_honest (h : Honest w base d) {backupId : String}
    (hallowed : Truthfully w d (.rollbackPatch requested backupId approved draw)) :
    Honest w base (after (rollbackPatch w requested backupId approved draw) d) := by
  obtain ⟨hpending,hreturnable⟩ := hallowed
  have hrows : ∀ p, d.files.get? backupId = some p → p.WellFormed ∧ p.Visible w ∧
      BackupKept w d backupId p ∧ (AsLeftForSingle w d p → Reversible w d p) := by
    intro p hp
    have hmem := get?_eq_some.mp hp
    obtain ⟨hwell,hvisible,hbackup⟩ := h.record.applied _ hmem
    exact ⟨hwell,hvisible,hbackup,fun hleft => reversible_of_returnable h hmem (hreturnable p hp hleft)⟩
  refine Leads.after ((rollbackPatch_leads requested approved draw (fun _ => hpending) hrows).mono ?_
    fun d' hsame => by rw [hsame]; exact h)
  intro _ d' hrolled
  obtain ⟨p,hp,hleft,made,htaken,rfl⟩ := hrolled
  exact honest_takenBack h (get?_eq_some.mp hp) (hreturnable p hp hleft).1 htaken (booked_forget h.books)
    rfl rfl

end Calls

section Loops

variable {w : Roots} {base : Place → Option Node} {d : Desk}

/-- What is known of the changes of a rollback before their turn. -/
def Prepared (w : Roots) (d : Desk) (entries : List (String × PendingPatch)) : Prop :=
  ∀ entry ∈ entries, entry.2.WellFormed ∧ entry.2.Visible w ∧ BackupKept w d entry.1 entry.2

theorem prepared_applied (h : Honest w base d) {entries : List (String × PendingPatch)}
    (hentries : ∀ entry ∈ entries, entry ∈ d.files.applied) : Prepared w d entries :=
  fun entry hentry => h.record.applied entry (hentries entry hentry)

theorem prepared_takenBack {p : PendingPatch} {made : Desk} {entries : List (String × PendingPatch)}
    (h : Prepared w d entries) (htaken : TakenBack w p d made) (files : WorkspaceState) :
    Prepared w { made with files := files } entries := by
  intro entry hentry
  obtain ⟨hwell,hvisible,hbackup⟩ := h entry hentry
  exact ⟨hwell,hvisible,backupKept_of_host hbackup hwell fun x hx _ => htaken.backups x hx⟩

/-- One change of a rollback of several, at its turn. -/
theorem peel_leads (h : Honest w base d) {entry : String × PendingPatch}
    {rest : List (String × PendingPatch)} (hprepared : Prepared w d (entry :: rest))
    (hpeel : AsLeft w d entry.2 → entry ∈ d.files.applied ∧ Returnable w d entry.2) (seconds : ℕ) :
    Leads (rollbackAppliedPatch w entry.1 entry.2 seconds)
      (fun _ made => rollbackAppliedPatch w entry.1 entry.2 seconds d = .ok () made ∧
        entry ∈ d.files.applied ∧ NoLater w d entry.2 ∧ TakenBack w entry.2 d made)
      (fun d' => d' = d) d := by
  obtain ⟨hwell,hvisible,hbackup⟩ := hprepared entry mem_cons_self
  have hreversible : AsLeft w d entry.2 → Reversible w d entry.2 := fun hleft =>
    reversible_of_returnable h (hpeel hleft).1 (hpeel hleft).2
  refine ((Leads.self _ d).and
    (rollbackAppliedPatch_leads hwell hvisible hbackup hreversible seconds)).mono ?_ fun _ hd => hd.2
  intro _ made hmade
  obtain ⟨hrun,hleft,htaken⟩ := hmade
  exact ⟨hrun,(hpeel hleft).1,(hpeel hleft).2.1,htaken⟩

/-- The checkpoints without their status. -/
def outline (s : WorkspaceState) : List (String × List String) :=
  s.checkpoints.map fun c => (c.id,c.changeIds)

theorem outline_forget (s : WorkspaceState) (id : String) (now : ℕ) :
    outline ((s.remove id).markCheckpointChangeRemoved id now) = outline s := by
  simp only [outline,markCheckpointChangeRemoved,map_map]
  refine map_congr_left fun c _ => ?_
  exact Prod.ext (markRemoved_ids c).1 (markRemoved_ids c).2

theorem rollbackEach_leads (draw : Draw) (time : String → ℕ) (entries : List (String × PendingPatch))
    (h : Honest w base d) (hprepared : Prepared w d entries)
    (hpeels : Peels w time (forgetApplied draw.now) entries d) :
    Leads (rollbackEach w draw time entries)
      (fun _ d' => Honest w base d' ∧ outline d'.files = outline d.files ∧
        ∀ id, d'.files.applied.HasKey id → d.files.applied.HasKey id ∧ id ∉ entries.map Prod.fst)
      (Honest w base) d := by
  induction entries generalizing d with
  | nil => exact .pure ⟨h,rfl,fun id hid => ⟨hid,not_mem_nil⟩⟩
  | cons entry rest ih =>
    refine .bind ((peel_leads h hprepared hpeels.1 (time entry.1)).mono ?_ fun d' hsame => ?_)
    · intro _ made hmade
      obtain ⟨hrun,hmem,hno,htaken⟩ := hmade
      have hhonest : Honest w base { made with files := forgetApplied draw.now entry d.files } :=
        honest_takenBack h hmem hno htaken (booked_forget h.books) rfl rfl
      have hrest := hpeels.2 made hrun
      rw [htaken.files] at hrest
      refine .bind (leads_modifyFiles ?_)
      rw [htaken.files]
      refine (ih hhonest (prepared_takenBack (fun e he => hprepared e (mem_cons_of_mem _ he))
        htaken _) hrest).mono ?_ fun _ hd => hd
      intro _ d' hd'
      obtain ⟨hhonest',houtline,hkeys⟩ := hd'
      refine ⟨hhonest',houtline.trans (outline_forget _ _ _),fun id hid => ?_⟩
      obtain ⟨hkey,hnot⟩ := hkeys id hid
      obtain ⟨hkey,hne⟩ := hasKey_remove.mp hkey
      refine ⟨hkey,?_⟩
      rw [map_cons,mem_cons]
      exact not_or.mpr ⟨hne,hnot⟩
    · rw [hsame]
      exact h

variable {s : WorkspaceState} {requested : String}

theorem chosenChanges_applied {requestedIds : List String} :
    ∀ entry ∈ s.chosenChanges requested requestedIds, entry ∈ s.applied := by
  intro entry hentry
  obtain ⟨id,-,hid⟩ := mem_filterMap.mp hentry
  exact (Table.find?_eq_some_iff.mp hid).1

theorem chosenCheckpoint_mem {c : WorkspaceCheckpoint} (h : s.chosenCheckpoint requested = some c) :
    c ∈ s.checkpoints := by
  unfold chosenCheckpoint at h
  split at h
  · exact mem_reverse.mp (mem_of_find?_eq_some h)
  · exact mem_of_find?_eq_some h

theorem rollbackWorkspace_honest (h : Honest w base d) {requestedIds : List String} {approved : Bool} {draw : Draw}
    {time : String → ℕ} (hallowed : Truthfully w d (.rollbackWorkspace requested requestedIds approved draw time)) :
    Honest w base (after (rollbackWorkspace w requested requestedIds approved draw time) d) := by
  obtain ⟨hpeels,hcovered⟩ := hallowed
  have hprepared : Prepared w d (d.files.chosenChanges requested requestedIds).reverse :=
    prepared_applied h fun entry hentry => chosenChanges_applied entry (mem_reverse.mp hentry)
  apply Leads.after
  refine .get_bind (.guard h fun _ => .guard h fun _ => .guard h fun _ => .bind ?_)
  refine (rollbackEach_leads draw time _ h hprepared hpeels).mono ?_ fun _ hd => hd
  intro _ d' hd'
  obtain ⟨hhonest,houtline,hkeys⟩ := hd'
  cases hchosen : d.files.chosenCheckpoint requested with
  | none => exact .pure hhonest
  | some c =>
    apply leads_modifyFiles
    refine ⟨booked_close hhonest.books fun c' hc' hid x hx hkey => ?_,
      hhonest.record.chain,hhonest.record.applied,hhonest.record.pending⟩
    -- The checkpoint is the chosen one, with another status.
    have hmem : (c'.id,c'.changeIds) ∈ outline d.files := by
      rw [← houtline]
      exact mem_map_of_mem hc'
    obtain ⟨c₀,hc₀,hpair⟩ := mem_map.mp hmem
    obtain ⟨hid₀,hchanges⟩ := Prod.mk.inj hpair
    obtain rfl : c₀ = c := inj_on_of_nodup_map h.books.ids hc₀ (chosenCheckpoint_mem hchosen)
      (hid₀.trans hid)
    obtain ⟨hkey₀,hnot⟩ := hkeys x hkey
    refine hnot ?_
    rw [map_reverse,mem_reverse]
    exact hcovered c₀ hchosen x (hchanges ▸ hx) hkey₀

theorem undoEach_leads (now : ℕ) (time : String → ℕ) (saving : String → Option String)
    (entries : List (String × PendingPatch)) (reverted : ℕ) (h : Honest w base d)
    (hprepared : Prepared w d entries)
    (hpeels : Peels w time (fun entry s => s.forgetUndone now entry) entries d) :
    Leads (undoEach w now time saving entries reverted) (fun _ => Honest w base) (Honest w base) d := by
  induction entries generalizing d reverted with
  | nil => exact .pure h
  | cons entry rest ih =>
    refine .attempt_bind ((peel_leads h hprepared hpeels.1 (time entry.1)).mono ?_ fun d' hsame e => ?_)
    · intro _ made hmade
      obtain ⟨hrun,hmem,hno,htaken⟩ := hmade
      have hhonest : Honest w base { made with files := d.files.forgetUndone now entry } :=
        honest_takenBack h hmem hno htaken (booked_undone h.books entry) rfl rfl
      have hrest := hpeels.2 made hrun
      rw [htaken.files] at hrest
      refine .bind (leads_modifyFiles ?_)
      rw [htaken.files]
      cases saving entry.1 with
      | none => exact ih _ hhonest (prepared_takenBack (fun e he =>
          hprepared e (mem_cons_of_mem _ he)) htaken _) hrest
      | some message => exact .pure hhonest
    · rw [hsame]
      exact .pure h

theorem localVersion_same (path : String) :
    Leads (localVersion w path) (fun _ d' => d' = d) (fun d' => d' = d) d :=
  (localVersion_leads path).mono (fun _ _ h => h.1) fun _ h => h

theorem readVersions_same (paths : List (WorkspaceTarget × String)) (versions : Versions) :
    Leads (readVersions w paths versions) (fun _ d' => d' = d) (fun d' => d' = d) d := by
  induction paths generalizing versions with
  | nil => exact .pure rfl
  | cons place rest ih =>
    obtain ⟨target,path⟩ := place
    refine .ite (fun _ => ih versions) fun _ => .bind ?_
    have hversion : Leads (versionOf w target path) (fun _ d' => d' = d) (fun d' => d' = d) d := by
      cases target with
      | localFiles => exact localVersion_same path
      | ssh => exact (hostVersion_leads path).mono (fun _ _ h => h.1) fun _ h => h
    refine hversion.mono (fun version d' hd' => ?_) fun _ h => h
    rw [hd']
    exact ih _

theorem undoPlan_applied {request : UndoRequest} {patches : List (String × PendingPatch)}
    (h : s.undoPlan request = .ok patches) : ∀ entry ∈ patches, entry ∈ s.applied := by
  unfold undoPlan at h
  split at h
  · cases h
  dsimp only at h
  split at h
  · cases h
  split at h
  · cases h
  cases h
  intro entry hentry
  obtain ⟨id,-,hid⟩ := mem_filterMap.mp hentry
  exact (Table.find?_eq_some_iff.mp hid).1

theorem undo_honest (h : Honest w base d) {request : UndoRequest} {hostKnown : Bool} {now : ℕ}
    {time : String → ℕ} {saving : String → Option String}
    (hallowed : Truthfully w d (.undo request hostKnown now time saving)) :
    Honest w base (after (undo w request hostKnown now time saving) d) := by
  apply Leads.after
  refine .get_bind (.lift_bind (fun patches hplan => ?_) fun _ _ => h)
  refine .guard h fun _ => .bind ((readVersions_same _ _).mono (fun versions d₁ hd₁ => ?_)
    fun d₁ hd₁ => by rw [hd₁]; exact h)
  rw [hd₁]
  refine .lift_bind (fun _ _ => .bind ?_) fun _ _ => h
  have hbackups : Leads (forEach (checkBackup w) patches) (fun _ d' => d' = d) (fun d' => d' = d) d := by
    refine .forEach fun entry _ => .runIf (fun _ => .get_bind (.lift_bind (fun file _ => ?_)
      fun _ _ => rfl)) fun _ => rfl
    exact .ite (fun _ => .throw rfl) fun _ => .pure rfl
  refine hbackups.mono (fun _ d₂ hd₂ => ?_) fun d₂ hd₂ => by rw [hd₂]; exact h
  rw [hd₂]
  exact undoEach_leads now time saving patches 0 h (prepared_applied h (undoPlan_applied hplan))
    (hallowed patches hplan)

theorem createWorkspaceCheckpoint_honest (h : Honest w base d) {draw : Draw}
    (hallowed : Truthfully w d (.createWorkspaceCheckpoint draw)) :
    Honest w base (after (createWorkspaceCheckpoint draw) d) := by
  apply Leads.after
  refine .get_bind (.lift_bind (fun files hfiles => .set_ ?_) fun _ _ => h)
  have hsame : files.applied = d.files.applied ∧ files.patches = d.files.patches := by
    unfold createCheckpoint at hfiles
    split at hfiles
    · cases hfiles
    · cases hfiles
      exact ⟨rfl,rfl⟩
  refine ⟨booked_create h.books hfiles hallowed,?_,fun row hrow => ?_,fun x p hp => ?_⟩
  · rw [hsame.1]
    exact h.record.chain
  · exact h.record.applied row (hsame.1 ▸ hrow)
  · exact h.record.pending x p (hsame.2 ▸ hp)

end Loops

section Histories

variable {w : Roots} {disk : Disk} {host : Host} {d : Desk}

theorem tool_honest {base : Place → Option Node} (h : Honest w base d) {c : Call}
    (hallowed : Truthfully w d (.tool c)) : Honest w base (after (c.run w) d) := by
  cases c with
  | readFile target path offset limit =>
    exact honest_looked h (Leads.after (readFile_leads target path offset limit))
  | previewPatch target path old new replaceAll draw =>
    exact honest_looked h (Leads.after (previewPatch_leads target path old new replaceAll draw))
  | previewFileChange target action path destination content draw =>
    exact honest_looked h
      (Leads.after (previewFileChange_leads target action path destination content draw))
  | applyPatch => exact applyPatch_honest h hallowed
  | applyFileChange => exact applyFileChange_honest h hallowed

theorem history_honest (h : History w (Truthfully w) disk host d) :
    Honest w (look w ⟨default,disk,host⟩) d := by
  induction h with
  | start => exact honest_start disk host
  | @call d c _ hallowed ih =>
    cases c with
    | tool => exact tool_honest ih hallowed
    | rollbackPatch => exact rollbackPatch_honest ih hallowed
    | rollbackWorkspace => exact rollbackWorkspace_honest ih hallowed
    | createWorkspaceCheckpoint => exact createWorkspaceCheckpoint_honest ih hallowed
    | undo => exact undo_honest ih hallowed

/-- In every run that keeps to the condition, each checkpoint's status is what its changes say, and the
files are those of the beginning with the applied changes, and no others, made to them in their order. -/
theorem checkpoints_tell_truth (h : History w (Truthfully w) disk host d) :
    (∀ c ∈ d.files.checkpoints, Truthful d.files.applied c) ∧
    (d.files.applied.rows.Pairwise fun a b => a.2.appliedSequence < b.2.appliedSequence) ∧
    Chain (look w ⟨default,disk,host⟩)
      (d.files.applied.rows.map fun row => editOf w row.2) (look w d) :=
  have honest := history_honest h
  ⟨fun c hc => (honest.books.truthful c hc).2,honest.books.ordered,honest.record.chain⟩

end Histories

section Examples

def emptyDisk : Disk := fun path => if path = [] then some .directory else none

def emptyHost : Host := ⟨fun _ => none,fun _ => 0⟩

def createCall (path : String) (draw : Draw) : WorkspaceCall :=
  .tool (.previewFileChange .localFiles .create path "" "x" draw)

def applyCall (id : String) (draw : Draw) : WorkspaceCall :=
  .tool (.applyFileChange .localFiles "reply" id true draw)

def firstDraw : Draw :=
  ⟨0,0,"change","backup","operation","checkpoint",(by decide : ¬ _),(by decide : ¬ _)⟩

def secondDraw : Draw := ⟨0,0,"change2","backup2","operation2","checkpoint2",by decide,by decide⟩

def plannedDesk : Desk :=
  (createCall "a" firstDraw).leaves plainRoots ⟨default,emptyDisk,emptyHost⟩

/-- A reply has made a file. -/
def createdDesk : Desk := (applyCall "change" firstDraw).leaves plainRoots plannedDesk

/-- The agent has taken the file back. -/
def revertedDesk : Desk :=
  (WorkspaceCall.rollbackPatch .localFiles "operation" true firstDraw).leaves plainRoots createdDesk

/-- The same reply has made another file. -/
def recreatedDesk : Desk :=
  (applyCall "change2" secondDraw).leaves plainRoots
    ((createCall "b" secondDraw).leaves plainRoots revertedDesk)

theorem checkpoints_tell_truth_reverted :
    History plainRoots (Truthfully plainRoots) emptyDisk emptyHost revertedDesk ∧
    revertedDesk.files.checkpoints.map WorkspaceCheckpoint.status = [.rolledBack] ∧
    (∀ c ∈ revertedDesk.files.checkpoints, Truthful revertedDesk.files.applied c) ∧
    Chain (look plainRoots ⟨default,emptyDisk,emptyHost⟩)
      (revertedDesk.files.applied.rows.map fun row => editOf plainRoots row.2)
      (look plainRoots revertedDesk) := by
  have hvisible : ∀ p : PendingPatch, p.target = .localFiles → p.Visible plainRoots := by
    intro p htarget path _ file _
    rw [htarget]
    exact not_hidden_local file
  have happly : Truthfully plainRoots plannedDesk (applyCall "change" firstDraw) := by
    refine ⟨⟨fun _ => rfl,fun id _ => ⟨?_,fun c hc => ?_,?_⟩⟩,fun c hc => ?_,fun p hp => ?_⟩
    · exact Table.not_hasKey_empty id
    · cases hc
    · exact not_mem_nil
    · cases hc
    · obtain rfl := Option.some.inj hp
      exact ⟨fun _ h => (nomatch h),hvisible _ rfl,fun h => (nomatch h)⟩
  have hrollback : Truthfully plainRoots createdDesk
      (.rollbackPatch .localFiles "operation" true firstDraw) := by
    refine ⟨rfl,fun p hp _ => ⟨fun row hrow hlater => ?_,fun before after _ hbefore => ?_⟩⟩
    · obtain rfl := Option.some.inj hp
      obtain rfl := mem_singleton.mp hrow
      exact absurd hlater (lt_irrefl _)
    · obtain rfl := Option.some.inj hp
      cases hbefore
  have hrun : History plainRoots (Truthfully plainRoots) emptyDisk emptyHost revertedDesk :=
    .call (.call (.call .start trivial) happly) hrollback
  have htruth := checkpoints_tell_truth hrun
  exact ⟨hrun,rfl,htruth.1,htruth.2.2⟩

/-- The reply's checkpoint stays rolled back although one of its changes is applied. -/
theorem reopened_checkpoint_lies :
    History plainRoots (fun _ _ => True) emptyDisk emptyHost recreatedDesk ∧
    ∃ c ∈ recreatedDesk.files.checkpoints, c.status = .rolledBack ∧
      ¬ Truthful recreatedDesk.files.applied c := by
  refine ⟨.call (.call (.call (.call (.call .start trivial) trivial) trivial) trivial) trivial,
    ⟨"checkpoint","reply",["operation","operation2"],.rolledBack,some 0⟩,mem_cons_self,rfl,
    fun htruth => ?_⟩
  have hnone := htruth.rolledBack.mp rfl "operation2" (by decide)
  exact hnone mem_cons_self

end Examples

end Mxterm.Workspace
