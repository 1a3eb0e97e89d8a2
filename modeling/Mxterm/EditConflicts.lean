import Mxterm.FilePreviews

/-! An agent's reads, previews and applications, with other programs that write the same files between
them. An applied change is compared with what the file holds: on the local disk by its text, in
`apply_patch` on the host by the version that the last read kept. -/
namespace Mxterm.Workspace

open Execution

inductive Call
  | readFile (target : WorkspaceTarget) (path : String) (offset limit : Option ℕ)
  | previewPatch (target : WorkspaceTarget) (path old new : String) (replaceAll : Bool) (draw : Draw)
  | previewFileChange (target : WorkspaceTarget) (action : Action) (path destination content : String)
      (draw : Draw)
  | applyPatch (requested : WorkspaceTarget) (messageId id : String) (approved : Bool) (draw : Draw)
  | applyFileChange (requested : WorkspaceTarget) (messageId id : String) (approved : Bool) (draw : Draw)

namespace Call

variable (w : Roots)

def run : Call → Tool Unit
  | readFile target path offset limit => Workspace.readFile w target path offset limit
  | previewPatch target path old new replaceAll draw =>
    Workspace.previewPatch w target path old new replaceAll draw
  | previewFileChange target action path destination content draw =>
    Workspace.previewFileChange w target action path destination content draw
  | applyPatch requested messageId id approved draw =>
    Workspace.applyPatch w requested messageId id approved draw
  | applyFileChange requested messageId id approved draw =>
    Workspace.applyFileChange w requested messageId id approved draw

/-- What the call sees of the host. -/
def sees (h : Host) : Call → Option (String × String × ℕ × ℕ)
  | readFile target path _ _ => Workspace.sees w h target path
  | previewPatch target path _ _ _ _ => Workspace.sees w h target path
  | previewFileChange target _ path _ _ _ => Workspace.sees w h target path
  | applyPatch .. => none
  | applyFileChange .. => none

/-- The prepared change that the call applies. -/
def applies : Call → Option String
  | applyPatch _ _ id _ _ => some id
  | applyFileChange _ _ id _ _ => some id
  | _ => none

end Call

/-- What happens: a call of the agent, or other programs leave these files. -/
inductive Happening
  | call (c : Call)
  | others (disk : Disk) (host : Host)

/-- The node at a path of the host has this time and size. -/
def Host.Shows (h : Host) (path : FilePath) (version : ℕ × ℕ) (node : Node) : Prop :=
  h.disk path = some node ∧ h.metadata path = .ok version

/-- The desk with its history: the text that the agent last read at each path of the host, and every
version that a file of the host ever had. -/
structure Watched where
  desk : Desk
  lastRead : String → Option String
  past : FilePath → ℕ × ℕ → Node → Prop

namespace Watched

variable (w : Roots)

def start (disk : Disk) (host : Host) : Watched := ⟨⟨WorkspaceState.default,disk,host⟩,fun _ => none,host.Shows⟩

/-- The files are as given, which makes their versions part of the past. -/
def withDesk (s : Watched) (d : Desk) : Watched :=
  { s with desk := d, past := fun path version node => s.past path version node ∨ d.host.Shows path version node }

def noteRead (s : Watched) : Option (String × String × ℕ × ℕ) → Watched
  | none => s
  | some (path,content,_) => { s with lastRead := Function.update s.lastRead path (some content) }

@[simp] theorem noteRead_past (s : Watched) (seen : Option (String × String × ℕ × ℕ)) :
    (s.noteRead seen).past = s.past := by
  cases seen <;> rfl

def step (s : Watched) : Happening → Watched
  | .call c => (s.withDesk (after (c.run w) s.desk)).noteRead (c.sees w s.desk.host)
  | .others disk host => s.withDesk { s.desk with disk := disk, host := host }

end Watched

/-- A run of calls and other programs' writes, each of which is allowed where it happens. -/
inductive Run (w : Roots) (allowed : Watched → Happening → Prop) : Watched → Prop
  | start (disk : Disk) (host : Host) : Run w allowed (.start disk host)
  | step {s : Watched} {e : Happening} : Run w allowed s → allowed s e → Run w allowed (s.step w e)

/-- Size and modification second tell the contents that a file of the host ever had apart. -/
def Told (past : FilePath → ℕ × ℕ → Node → Prop) : Prop :=
  ∀ path version node node', past path version node → past path version node' → node = node'

/-- The last read of a change's file on the host saw the text that the change was computed from. -/
def ReadLast (s : Watched) (id : String) : Prop :=
  ∀ p, s.desk.files.patches id = some p → p.target = .ssh → s.lastRead p.path = p.before

/-- Where a rename puts the file: on the host into the destination, where that is a directory. -/
def Lands (w : Roots) (d : Desk) (p : PendingPatch) (x : FilePath) : Prop :=
  match p.target with
  | .localFiles => w.resolve (p.destination.getD "") = .ok x
  | .ssh => ∃ destination, p.destination = some destination ∧
      d.host.landing (w.remoteReal p.path) (w.remoteReal destination) = x

/-- No file is in the way of a rename. -/
def Unoccupied (w : Roots) (d : Desk) (id : String) : Prop :=
  ∀ p x, d.files.patches id = some p → p.action = .rename → Lands w d p x →
    d.node (p.target,x) = none ∨ d.node (p.target,x) = some .directory

/-- The calls that other programs cannot lose anything by. -/
def Call.Careful (w : Roots) (s : Watched) : Call → Prop
  | applyPatch _ _ id _ draw => draw.Unused w s.desk.host ∧ ReadLast s id
  | applyFileChange _ _ id _ draw => draw.Unused w s.desk.host ∧ Unoccupied w s.desk id
  | _ => True

def Careful (w : Roots) (s : Watched) (e : Happening) : Prop :=
  Told (s.step w e).past ∧ ∀ c, e = .call c → c.Careful w s

/-- Nothing that stood anywhere else is changed. -/
def Keeps (place : Place → Prop) (d d' : Desk) : Prop :=
  ∀ q, ¬ place q → d.node q ≠ none → d'.node q = d.node q

/-- The change was applied to the text that it was computed from, and to nothing else. -/
def AppliedToBefore (w : Roots) (p : PendingPatch) (d d' : Desk) : Prop :=
  ∃ file, w.file? p.target p.path = some file ∧ d.node (p.target,file) = p.before.map Node.text ∧
    Keeps (· = (p.target,file)) d d'

/-- What the run keeps true: a version that the agent knows is one that the file had with the text that
the agent last read there. -/
structure Sound (w : Roots) (s : Watched) : Prop where
  told : Told s.past
  shown : ∀ path version node, s.desk.host.Shows path version node → s.past path version node
  known : ∀ path version, s.desk.files.remoteMeta (scopedWorkspacePath .ssh path) = some version →
    ∃ content, s.lastRead path = some content ∧ s.past (w.remoteReal path) version (.text content)

section Invariant

variable {w : Roots} {s : Watched}

theorem told_shows (h : Host) : Told h.Shows := by
  intro path version node node' hnode hnode'
  exact Option.some.inj (hnode.1.symm.trans hnode'.1)

theorem sound_start (disk : Disk) (host : Host) : Sound w (.start disk host) where
  told := told_shows host
  shown _ _ _ h := h
  known _ _ h := nomatch h

/-- The agent's knowledge of the host stays, or it becomes that of the call. -/
theorem Sound.withDesk {d : Desk} (h : Sound w s) (seen : Option (String × String × ℕ × ℕ))
    (hread : ∀ path content version, seen = some (path,content,version) →
      s.desk.host.Shows (w.remoteReal path) version (.text content))
    (hmeta : d.files.remoteMeta = (s.desk.files.keepVersion seen).remoteMeta)
    (htold : Told (s.withDesk d).past) : Sound w ((s.withDesk d).noteRead seen) := by
  cases seen with
  | none =>
    refine ⟨htold,fun path version node => .inr,fun path version hknown => ?_⟩
    obtain ⟨content,hlast,hpast⟩ := h.known path version (by rw [← hknown]; exact congrFun hmeta.symm _)
    exact ⟨content,hlast,.inl hpast⟩
  | some seen =>
    obtain ⟨path,content,version⟩ := seen
    refine ⟨htold,fun path version node => .inr,fun path' version' hknown => ?_⟩
    have hknown' : (s.desk.files.keepVersion (some (path,content,version))).remoteMeta
        (scopedWorkspacePath .ssh path') = some version' := by
      rw [← hmeta]
      exact hknown
    by_cases hpath : path' = path
    · subst hpath
      simp only [WorkspaceState.keepVersion,Function.update_self,Option.some.injEq] at hknown'
      subst hknown'
      exact ⟨content,by simp [Watched.noteRead],.inl (h.shown _ _ _ (hread path' content version rfl))⟩
    · have hkey : scopedWorkspacePath .ssh path' ≠ scopedWorkspacePath .ssh path := fun hsame =>
        hpath (scopedWorkspacePath_inj.mp hsame).2
      simp only [WorkspaceState.keepVersion,Function.update_of_ne hkey] at hknown'
      obtain ⟨content',hlast,hpast⟩ := h.known path' version' hknown'
      refine ⟨content',?_,.inl hpast⟩
      simp only [Watched.noteRead,Function.update_of_ne hpath]
      exact hlast

theorem hostRead_shows {h : Host} {requested path content : String} {version : ℕ × ℕ}
    (hread : hostRead w h requested = some (path,content,version)) :
    h.Shows (w.remoteReal path) version (.text content) := by
  unfold hostRead at hread
  split at hread
  · cases hread
  split at hread
  · cases hread
  rename_i file hfile
  cases hread
  obtain ⟨hnode,-,rfl⟩ := readFile_ok.mp hfile
  exact ⟨hnode,by simp [Host.metadata,hnode]⟩

theorem Call.sees_shows {h : Host} {c : Call} {path content : String} {version : ℕ × ℕ}
    (hsees : c.sees w h = some (path,content,version)) :
    h.Shows (w.remoteReal path) version (.text content) := by
  have hread : ∀ target requested, Workspace.sees w h target requested = some (path,content,version) →
      h.Shows (w.remoteReal path) version (.text content) := by
    intro target requested hsome
    cases target with
    | ssh => exact hostRead_shows hsome
    | localFiles => cases hsome
  cases c with
  | readFile target requested => exact hread target requested hsees
  | previewPatch target requested => exact hread target requested hsees
  | previewFileChange target _ requested => exact hread target requested hsees
  | applyPatch | applyFileChange => cases hsees

end Invariant

section Applications

variable {w : Roots} {d d' : Desk} {p : PendingPatch} {messageId id : String} {draw : Draw}

variable {file : FilePath}

theorem Grown.keeps {disk made : Disk} {x : FilePath} (h : Grown disk made file) (hx : disk x ≠ none) :
    made x = disk x :=
  (h x).resolve_right fun hnew => hx hnew.1

theorem BackedUp.metadata {h h' : Host} {source backup x : FilePath} (hback : BackedUp h h' source backup)
    (hx : x ≠ backup) : h'.metadata x = h.metadata x := by
  obtain ⟨node,-,-,rfl⟩ := hback
  simp only [Host.metadata,store_disk,if_neg hx]
  simp only [Host.store,Function.update_of_ne hx]

/-- A backup under a new name makes no directory. -/
theorem BackedUp.landing {h h' : Host} {source backup : FilePath} (hback : BackedUp h h' source backup)
    (hunused : h.disk backup = none) (x target : FilePath) : h'.landing x target = h.landing x target := by
  unfold Host.landing
  by_cases htarget : target = backup
  · obtain ⟨node,-,hfile,rfl⟩ := hback
    rw [store_disk,htarget,hunused]
    simp [hfile]
  · rw [hback.disk htarget]

theorem Refused.keeps (h : Refused id d d') (hspared : Spared w draw d.host d'.host)
    (hunused : draw.Unused w d.host) : Keeps (fun _ => False) d d' := by
  intro q _ hq
  obtain ⟨target,x⟩ := q
  cases target with
  | localFiles => exact (h.disk x).resolve_right fun hnew => hq hnew.1
  | ssh =>
    rcases hspared with hsame | ⟨source,path,hback⟩
    · exact congrFun (congrArg Host.disk hsame) x
    · refine hback.disk fun hx => hq ?_
      rw [hx]
      exact hunused path

theorem LocalPatched.appliedToBefore {made : Disk} (htarget : p.target = .localFiles)
    (h : LocalPatched w messageId id draw d d' p file made) : AppliedToBefore w p d d' := by
  obtain ⟨_,hfile,hnode,-⟩ := readVersion_ok.mp h.found
  cases h.resolved.symm.trans hfile
  refine ⟨file,by simp [htarget,hfile],by rw [htarget]; exact hnode,fun q hplace hq => ?_⟩
  rw [htarget] at hplace
  obtain ⟨target,x⟩ := q
  cases target with
  | localFiles =>
    have hx : x ≠ file := fun hx => hplace (by rw [hx])
    change d'.disk x = d.disk x
    rw [h.disk,Disk.put_of_ne _ hx]
    exact h.grown.keeps hq
  | ssh => exact congrFun (congrArg Host.disk h.host) x

/-- The version that the agent knows is the one of the file, so the file holds what was read last. -/
theorem HostPatched.appliedToBefore {version : ℕ × ℕ} {host : Host} {s : Watched} (hsound : Sound w s)
    (hunused : draw.Unused w s.desk.host) (htarget : p.target = .ssh)
    (hlast : s.lastRead p.path = p.before)
    (h : HostPatched w messageId id draw s.desk d' p version host) : AppliedToBefore w p s.desk d' := by
  have hbackup := hunused p.path
  obtain ⟨node,hnode,-,-⟩ := h.backup
  have hne : ∀ x, s.desk.host.disk x ≠ none → x ≠ w.remoteReal (backupPath p.path draw.backupId) := by
    intro x hx hsame
    exact hx (hsame ▸ hbackup)
  have hshown : s.desk.host.Shows (w.remoteReal p.path) version node :=
    ⟨hnode,by rw [← h.backup.metadata (hne _ (by simp [hnode]))]; exact h.current⟩
  obtain ⟨content,hread,hpast⟩ := hsound.known p.path version h.known
  have hcontent : node = .text content := hsound.told _ _ _ _ (hsound.shown _ _ _ hshown) hpast
  refine ⟨w.remoteReal p.path,by simp [htarget],?_,fun q hplace hq => ?_⟩
  · rw [htarget,← hlast,hread]
    exact hnode.trans (congrArg some hcontent)
  · rw [htarget] at hplace
    obtain ⟨target,x⟩ := q
    cases target with
    | localFiles => exact congrFun h.disk x
    | ssh =>
      have hx : x ≠ w.remoteReal p.path := fun hx => hplace (by rw [hx])
      change d'.host.disk x = s.desk.host.disk x
      rw [h.host,store_disk,if_neg hx]
      exact h.backup.disk (hne x hq)

theorem LocalChanged.appliedToBefore {newId : String} (htarget : p.target = .localFiles) (hfree : Unoccupied w d id)
    (h : LocalChanged w messageId id draw d d' p newId file) : AppliedToBefore w p d d' := by
  obtain ⟨_,hfile,hnode,-⟩ := readVersion_ok.mp h.found
  cases h.resolved.symm.trans hfile
  refine ⟨file,by simp [htarget,hfile],by rw [htarget]; exact hnode,fun q hplace hq => ?_⟩
  rw [htarget] at hplace
  obtain ⟨target,x⟩ := q
  cases target with
  | ssh => exact congrFun (congrArg Host.disk h.host) x
  | localFiles =>
    have hx : x ≠ file := fun hx => hplace (by rw [hx])
    have heffect := h.effect
    change d'.disk x = d.disk x
    generalize d'.disk = disk at heffect
    cases heffect with
    | written _ hgrown _ => rw [Disk.put_of_ne _ hx]; exact hgrown.keeps hq
    | deleted _ hgrown => rw [Disk.put_of_ne _ hx]; exact hgrown.keeps hq
    | nothing => rfl
    | @renamed made target node haction hdestination _ hroom _ _ hgrown =>
      by_cases hlands : x = target
      · subst hlands
        have hlanded := hfree p x h.pending haction (by rw [Lands,htarget]; exact hdestination)
        rw [htarget] at hlanded
        have hdirectory := hlanded.resolve_left hq
        exact absurd ((hgrown.keeps hq).trans hdirectory) hroom
      · rw [Disk.put_of_ne _ hlands,Disk.put_of_ne _ hx]
        exact hgrown.keeps hq

theorem HostChanged.appliedToBefore {host : Host} (hunused : draw.Unused w d.host)
    (htarget : p.target = .ssh) (hfree : Unoccupied w d id)
    (h : HostChanged w messageId id draw d d' p host) : AppliedToBefore w p d d' := by
  have hbackup := hunused p.path
  have hkept : ∀ x, d.host.disk x ≠ none → host.disk x = d.host.disk x := by
    intro x hx
    rcases h.backup with ⟨-,rfl⟩ | hback
    · rfl
    · exact hback.disk fun hsame => hx (hsame ▸ hbackup)
  have hlanding : ∀ x target, host.landing x target = d.host.landing x target := by
    intro x target
    rcases h.backup with ⟨-,rfl⟩ | hback
    · rfl
    · exact hback.landing hbackup x target
  refine ⟨w.remoteReal p.path,by simp [htarget],by rw [htarget]; exact h.found,fun q hplace hq => ?_⟩
  rw [htarget] at hplace
  obtain ⟨target,x⟩ := q
  cases target with
  | localFiles => exact congrFun h.disk x
  | ssh =>
    have hx : x ≠ w.remoteReal p.path := fun hx => hplace (by rw [hx])
    have heffect := h.effect
    change d'.host.disk x = d.host.disk x
    generalize d'.host = host' at heffect
    cases heffect with
    | written => rw [store_disk,if_neg hx]; exact hkept x hq
    | deleted => rw [remove_disk,if_neg hx]; exact hkept x hq
    | renamed haction hdestination _ hroom =>
      rw [hlanding] at hroom ⊢
      rw [store_disk]
      split
      · rename_i hlands
        have hlanded := hfree p x h.pending haction
          (by rw [Lands,htarget]; exact ⟨_,hdestination,hlands.symm⟩)
        rw [htarget] at hlanded
        have hdirectory := hlanded.resolve_left hq
        exact absurd ((hkept x hq).trans hdirectory) (hlands ▸ hroom)
      · rw [remove_disk,if_neg hx]
        exact hkept x hq

end Applications

section Runs

variable {w : Roots} {s : Watched}

theorem Refused.remoteMeta {d d' : Desk} {id : String} (h : Refused id d d') :
    d'.files.remoteMeta = d.files.remoteMeta := by
  rcases h.files with hfiles | hfiles <;> rw [hfiles]
  rfl

/-- What the agent knows of the host after a call is what it knew and what the call saw. -/
theorem call_remoteMeta {c : Call} (hcareful : c.Careful w s) :
    (after (c.run w) s.desk).files.remoteMeta =
      (s.desk.files.keepVersion (c.sees w s.desk.host)).remoteMeta := by
  cases c with
  | readFile target path offset limit =>
    exact (Leads.after (readFile_leads target path offset limit)).remoteMeta
  | previewPatch target path old new replaceAll draw =>
    exact (Leads.after (previewPatch_leads target path old new replaceAll draw)).remoteMeta
  | previewFileChange target action path destination content draw =>
    exact (Leads.after (previewFileChange_leads target action path destination content draw)).remoteMeta
  | applyPatch requested messageId id approved draw =>
    refine Leads.after (P := fun d' : Desk => d'.files.remoteMeta = s.desk.files.remoteMeta) ?_
    refine (applyPatch_leads requested messageId id approved hcareful.1).mono ?_ fun _ h => h.1.remoteMeta
    intro _ d' h
    obtain ⟨p,⟨-,file,made,h⟩ | ⟨-,version,host,h⟩⟩ := h
    · rw [h.files]; rfl
    · rw [h.files]; rfl
  | applyFileChange requested messageId id approved draw =>
    refine Leads.after (P := fun d' : Desk => d'.files.remoteMeta = s.desk.files.remoteMeta) ?_
    refine (applyFileChange_leads requested messageId id approved hcareful.1).mono ?_
      fun _ h => h.1.remoteMeta
    intro _ d' h
    obtain ⟨p,⟨-,newId,file,h⟩ | ⟨-,host,h⟩⟩ := h
    · rw [h.files]; rfl
    · rw [h.files]; rfl

theorem sound_step (h : Sound w s) {e : Happening} (hcareful : Careful w s e) : Sound w (s.step w e) := by
  cases e with
  | call c =>
    refine h.withDesk _ (fun path content version hsees => c.sees_shows hsees)
      (call_remoteMeta (hcareful.2 c rfl)) ?_
    rw [← Watched.noteRead_past]
    exact hcareful.1
  | others disk host =>
    exact h.withDesk none (fun _ _ _ hnone => nomatch hnone) rfl hcareful.1

theorem run_sound (h : Run w (Careful w) s) : Sound w s := by
  induction h with
  | start disk host => exact sound_start disk host
  | step _ hcareful ih => exact sound_step ih hcareful

/-- In a run of careful steps, a change is applied to the very text that it was computed from, and a call
that applies nothing changes no file: what other programs wrote in between is kept. -/
theorem applied_edit_faithful (hrun : Run w (Careful w) s) {c : Call} {id : String}
    (hid : c.applies = some id) (hcareful : Careful w s (.call c)) :
    (∀ d', c.run w s.desk = .ok () d' →
      ∃ p, s.desk.files.patches id = some p ∧ AppliedToBefore w p s.desk d') ∧
    ∀ e d', c.run w s.desk = .error e d' → Keeps (fun _ => False) s.desk d' := by
  have hsound := run_sound hrun
  have hcall := hcareful.2 c rfl
  cases c with
  | readFile | previewPatch | previewFileChange => cases hid
  | applyPatch requested messageId id' approved draw =>
    obtain rfl := Option.some.inj hid
    have hleads := applyPatch_leads (w := w) requested messageId id' approved hcall.1
    refine ⟨fun d' hok => ?_,fun e d' herror => ?_⟩
    · obtain ⟨p,⟨htarget,file,made,h⟩ | ⟨htarget,version,host,h⟩⟩ := hleads.1 _ _ hok
      · exact ⟨p,h.pending,h.appliedToBefore htarget⟩
      · have hlast := hcall.2 p h.pending htarget
        exact ⟨p,h.pending,h.appliedToBefore hsound hcall.1 htarget hlast⟩
    · have hrefused := hleads.2 _ _ herror
      exact hrefused.1.keeps hrefused.2 hcall.1
  | applyFileChange requested messageId id' approved draw =>
    obtain rfl := Option.some.inj hid
    have hleads := applyFileChange_leads (w := w) requested messageId id' approved hcall.1
    refine ⟨fun d' hok => ?_,fun e d' herror => ?_⟩
    · obtain ⟨p,⟨htarget,newId,file,h⟩ | ⟨htarget,host,h⟩⟩ := hleads.1 _ _ hok
      · exact ⟨p,h.pending,h.appliedToBefore htarget hcall.2⟩
      · exact ⟨p,h.pending,h.appliedToBefore hcall.1 htarget hcall.2⟩
    · have hrefused := hleads.2 _ _ herror
      exact hrefused.1.keeps hrefused.2 hcall.1

end Runs

section Examples

/-- Every path of the host names a file of its own, in one directory. -/
def plainRoots : Roots where
  root := []
  real := some
  workingDirectory := none
  remoteReal path := [path]

/-- A host with one file. -/
def plainHost (content : String) (time : ℕ) : Host where
  disk path := if path = [] then some .directory
    else if path = ["/f"] then some (.text content) else none
  mtime _ := time

def plainDraw (id : String) (seconds : ℕ) : Draw :=
  ⟨0,seconds,id,"backup","operation","checkpoint",by decide,by decide⟩

/-- A patch of the empty file is prepared. -/
def preparedRun : Watched :=
  (Watched.start (fun _ => none) (plainHost "" 0)).step plainRoots
    (.call (.previewPatch .ssh "/f" "" "b" false (plainDraw "p" 0)))

/-- Another program writes the file, and the agent reads it once more. -/
def rereadRun : Watched :=
  (preparedRun.step plainRoots (.others (fun _ => none) (plainHost "x" 1))).step plainRoots
    (.call (.readFile .ssh "/f" none none))

def applyPrepared : Call := .applyPatch .ssh "reply" "p" true (plainDraw "" 2)

theorem plainHost_shows {path : FilePath} {version : ℕ × ℕ} {node : Node}
    (h : (plainHost "" 0).Shows path version node) :
    path = ["/f"] ∧ version = (0,0) ∧ node = .text "" := by
  obtain ⟨hnode,hversion⟩ := h
  by_cases hroot : path = []
  · subst hroot
    cases hversion
  · by_cases hpath : path = ["/f"]
    · subst hpath
      exact ⟨rfl,(Except.ok.inj hversion).symm,(Option.some.inj hnode).symm⟩
    · simp [plainHost,hroot,hpath] at hnode

theorem plainHost_unused : (plainDraw "" 2).Unused plainRoots (plainHost "" 0) := by
  intro path
  have hne : backupPath path "backup" ≠ "/f" := by
    intro hsame
    have hlength := congrArg String.length hsame
    simp only [backupPath,String.length_append] at hlength
    have hsuffix : ".mxterm-agent-backup-".length = 21 := rfl
    have hpath : "/f".length = 2 := rfl
    omega
  simp [plainHost,plainRoots,plainDraw,hne]

theorem applied_edit_faithful_prepared : ∃ d' p,
    applyPrepared.run plainRoots preparedRun.desk = .ok () d' ∧
    preparedRun.desk.files.patches "p" = some p ∧ AppliedToBefore plainRoots p preparedRun.desk d' := by
  have hstart : Told preparedRun.past := by
    intro path version node node' h h'
    have hsame : ∀ n, preparedRun.past path version n → n = .text "" := fun n hn =>
      (plainHost_shows (hn.elim id id)).2.2
    exact (hsame node h).trans (hsame node' h').symm
  have happlied : Told (preparedRun.step plainRoots (.call applyPrepared)).past := by
    have hnew : ∀ path version node,
        (after (applyPrepared.run plainRoots) preparedRun.desk).host.Shows path version node →
        path = ["/f"] → version = (2,1) := by
      intro path version node h hpath
      subst hpath
      exact (Except.ok.inj h.2).symm
    have hold : ∀ path version node, preparedRun.past path version node →
        path = ["/f"] ∧ version = (0,0) ∧ node = .text "" := fun path version node h =>
      plainHost_shows (h.elim id id)
    intro path version node node' h h'
    rcases h with h | h <;> rcases h' with h' | h'
    · exact hstart path version node node' h h'
    · have hversion := hnew path version node' h' (hold _ _ _ h).1
      rw [(hold _ _ _ h).2.1] at hversion
      cases hversion
    · have hversion := hnew path version node h (hold _ _ _ h').1
      rw [(hold _ _ _ h').2.1] at hversion
      cases hversion
    · exact told_shows _ path version node node' h h'
  have hrun : Run plainRoots (Careful plainRoots) preparedRun :=
    .step (.start _ _) ⟨hstart,fun c hc => by obtain rfl := Happening.call.inj hc; trivial⟩
  have hcall : applyPrepared.Careful plainRoots preparedRun := by
    refine ⟨plainHost_unused,fun p hp _ => ?_⟩
    obtain rfl := Option.some.inj hp
    rfl
  have hfaithful := applied_edit_faithful hrun (c := applyPrepared) rfl
    ⟨happlied,fun c hc => by obtain rfl := Happening.call.inj hc; exact hcall⟩
  obtain ⟨p,hp,hbefore⟩ := hfaithful.1 _ rfl
  exact ⟨_,p,rfl,hp,hbefore⟩

/-- The read has refreshed the version, so a patch of the empty text replaces what was written. -/
theorem reread_loses_write : ∃ d' p, Run plainRoots (fun _ _ => True) rereadRun ∧
    applyPrepared.run plainRoots rereadRun.desk = .ok () d' ∧
    rereadRun.desk.files.patches "p" = some p ∧ ¬ AppliedToBefore plainRoots p rereadRun.desk d' := by
  have hrun : Run plainRoots (fun _ _ => True) rereadRun :=
    .step (.step (.step (.start _ _) trivial) trivial) trivial
  refine ⟨_,_,hrun,rfl,rfl,fun ⟨file,hfile,hnode,_⟩ => ?_⟩
  cases hfile
  have htext := Node.text.inj (Option.some.inj hnode)
  exact absurd htext (by decide)

end Examples

end Mxterm.Workspace
