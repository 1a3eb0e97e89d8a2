import Mxterm.RemoteRemoval

/-! What the removal of a remote directory leaves, where links lead out of it. -/
namespace Mxterm.SftpTransfers

open Faults FileTrees LinkedTrees SlashPaths List Function Host LinkTree

/-- The order in which a host lists a directory. -/
structure Listing where
  arrange : String → List String → List String
  perm : ∀ path names, (arrange path names).Perm names

def remoteSystem (host : Host) (listing : Listing) : RemoteSystem LinkTree where
  isDirectory := host.isDirectory
  entries t path := host.entries (listing.arrange path) t path
  removeFile := host.removeFile
  removeDirectory := host.removeDirectory

def RemoveStep.path : RemoveStep → String
  | .enter path => path
  | .removeDirectory path => path

/-- At or below the real location of what a path names. -/
def Within (host : Host) (t : LinkTree) (path : String) (q : Path) : Prop :=
  ∃ p, host.place t path = some p ∧ p <+: q

/-- The paths that the removal of one comes to, through directories and through links that lead to directories. -/
inductive Listed (host : Host) (t : LinkTree) (path : String) : String → Prop
  | start : Listed host t path path
  | entry {current name : String} {r : Path} {left : ℕ} :
      Listed host t path current → host.follow t current = some (r,left) → t.entry (r ++ [name]) ≠ none →
      Listed host t path (entryPath current name)

/-- What a removal can begin with: no directory, or one without entries. -/
def Removable (host : Host) (t : LinkTree) (path : String) (q : Path) : Prop :=
  (∃ entry, host.stat t path = some entry ∧ entry ≠ .directory) ∨ (t.entry q = some .directory ∧ t.names q = [])

/-- The removal comes to nothing outside that can be removed. -/
def Harmless (host : Host) (t : LinkTree) (path : String) : Prop :=
  ∀ current q, Listed host t path current → host.place t current = some q → ¬ Within host t path q →
    host.removesLinks = false ∧ ¬ Removable host t current q

/-- Exactly what is at the path or below it has gone. -/
def Exact (host : Host) (t : LinkTree) (path : String) (t' : LinkTree) : Prop :=
  ∀ q, (Within host t path q → t'.entry q = none) ∧ (¬ Within host t path q → t'.entry q = t.entry q)

def Terminates (host : Host) (t : LinkTree) (path : String) : Prop :=
  ∀ listing events, ∃ fuel, ∀ w, removeRemoteTree (remoteSystem host listing) fuel path ⟨t,events⟩ ≠ .ok false w

/-- The removal ends, spares at every moment what is outside, and when it succeeds it has removed all the rest. -/
structure RemovesOnly (host : Host) (t : LinkTree) (path : String) : Prop where
  terminates : Terminates host t path
  spares : ∀ listing events fuel q, ¬ Within host t path q →
    (Execution.after (removeRemoteTree (remoteSystem host listing) fuel path) ⟨t,events⟩).store.entry q = t.entry q
  removes : ∀ listing events fuel w,
    removeRemoteTree (remoteSystem host listing) fuel path ⟨t,events⟩ = .ok true w → Exact host t path w.store

variable {host : Host} {listing : Listing} {t t' t'' : LinkTree} {path : String} {q : Path} {step : RemoveStep}
  {pending pushed : List RemoveStep}

/-! ## The end of the loop -/

theorem remainsOf_of_removes (h : Removes (remoteSystem host listing) t step pushed t') : t'.RemainsOf t := by
  cases h with
  | list => exact .refl t
  | file _ hremove =>
    obtain ⟨q,-,hupdate,-⟩ := removeFile_ok hremove
    exact remainsOf_update hupdate
  | directory hremove =>
    obtain ⟨q,-,hupdate,-⟩ := removeDirectory_ok hremove
    exact remainsOf_update hupdate

/-- The steps that a directory puts on the stack are those of its entries. -/
theorem mem_of_list {entries : List String} (h : (remoteSystem host listing).entries t path = .ok entries) :
    ∃ r left, host.follow t path = some (r,left) ∧ t.entry r = some .directory ∧
      (∀ step ∈ entries.reverse.map RemoveStep.enter, ∃ name, t.entry (r ++ [name]) ≠ none ∧
        step = .enter (entryPath path name)) := by
  obtain ⟨r,left,hfollow,hdirectory,rfl⟩ := entries_ok h
  refine ⟨r,left,hfollow,hdirectory,?_⟩
  intro step hstep
  obtain ⟨current,hcurrent,rfl⟩ := mem_map.mp hstep
  obtain ⟨name,hname,rfl⟩ := mem_map.mp (mem_reverse.mp hcurrent)
  have hmem := (listing.perm path (t.names r)).mem_iff.mp hname
  exact ⟨name,mem_names.mp hmem,rfl⟩

/-- Once the rest of the loop ends, it ends with the step before it. -/
def EndsSoon (system : RemoteSystem LinkTree) (t : LinkTree) (step : RemoveStep) : Prop :=
  ∀ pending, (∀ t', t'.RemainsOf t → Ends system pending t') →
    ∀ t', t'.RemainsOf t → Ends system (step :: pending) t'

theorem endsSoon_removeDirectory (path : String) :
    EndsSoon (remoteSystem host listing) t (.removeDirectory path) := by
  intro pending hpending t' ht'
  apply Ends.cons
  intro pushed t'' h
  have hrest := (remainsOf_of_removes h).trans ht'
  cases h
  exact hpending t'' hrest

theorem ends_append {steps : List RemoveStep} {system : RemoteSystem LinkTree}
    (hsteps : ∀ step ∈ steps, EndsSoon system t step) (hpending : ∀ t', t'.RemainsOf t → Ends system pending t') :
    ∀ t', t'.RemainsOf t → Ends system (steps ++ pending) t' := by
  induction steps with
  | nil => exact hpending
  | cons step steps ih =>
    obtain ⟨hstep,hrest⟩ := forall_mem_cons.mp hsteps
    exact hstep _ (ih hrest)

/-- What cannot be followed ends the loop with an error. -/
theorem endsSoon_of_follow_none (h : host.follow t path = none) :
    EndsSoon (remoteSystem host listing) t (.enter path) := by
  intro pending _ t' ht'
  apply Ends.cons
  intro pushed t'' hremoves
  have hnot {directory : Bool} (hdirectory : host.isDirectory t' path = .ok directory) : False := by
    obtain ⟨entry,hstat,-⟩ := isDirectory_ok hdirectory
    obtain ⟨r,left,hfollow,-⟩ := stat_iff.mp hstat
    rw [follow_mono ht' hfollow] at h
    cases h
  cases hremoves with
  | list hdirectory => exact (hnot hdirectory).elim
  | file hdirectory => exact (hnot hdirectory).elim

theorem exists_depth (t : LinkTree) : ∃ depth, ∀ q, t.entry q ≠ none → q.length ≤ depth := by
  obtain ⟨depth,hpaths⟩ := exists_bound List.length t.paths
  exact ⟨depth,fun q hq => hpaths q (t.covers q hq)⟩

/-- By induction on the links that are left, and with the same number of them on the depth that is left. -/
theorem endsSoon_enter {depth : ℕ} (hdepth : ∀ q, t.entry q ≠ none → q.length ≤ depth) (measure : ℕ) :
    ∀ {path : String} {r : Path} {left : ℕ}, host.follow t path = some (r,left) →
      left * (depth + 1) + (depth - r.length) < measure → EndsSoon (remoteSystem host listing) t (.enter path) := by
  induction measure with
  | zero => exact fun _ h => absurd h (Nat.not_lt_zero _)
  | succ measure ih =>
    intro path r left hfollow hmeasure pending hpending t' ht'
    apply Ends.cons
    intro pushed t'' hremoves
    have hrest := (remainsOf_of_removes hremoves).trans ht'
    cases hremoves with
    | file => exact hpending t'' hrest
    | list _ hentries =>
      obtain ⟨r',left',hfollow',-,hmem⟩ := mem_of_list hentries
      have hsame := follow_mono ht' hfollow'
      rw [hfollow] at hsame
      cases hsame
      refine ends_append (fun step hstep => ?_) hpending t' ht'
      rcases mem_append.mp hstep with hentry | hself
      · obtain ⟨name,hname,rfl⟩ := hmem step hentry
        have hpresent := ht'.ne_none hname
        have hplain := t.plain r name hpresent
        cases hchild : host.follow t (entryPath path name) with
        | none => exact endsSoon_of_follow_none hchild
        | some child =>
          obtain ⟨r',left'⟩ := child
          apply ih hchild
          have hlong := hdepth _ hpresent
          rw [length_append,length_singleton] at hlong
          rcases ((follow_entryPath hfollow hplain hchild).step hplain).2 with ⟨rfl,rfl⟩ | ⟨hless,-⟩
          · rw [length_append,length_singleton]
            omega
          · have hmul : (left' + 1) * (depth + 1) ≤ left * (depth + 1) := Nat.mul_le_mul_right _ hless
            rw [Nat.succ_mul] at hmul
            omega
      · rw [mem_singleton.mp hself]
        exact endsSoon_removeDirectory path

theorem terminates (host : Host) (t : LinkTree) (path : String) : Terminates host t path := by
  intro listing events
  obtain ⟨depth,hdepth⟩ := exists_depth t
  have hsoon : EndsSoon (remoteSystem host listing) t (.enter path) := by
    cases hfollow : host.follow t path with
    | none => exact endsSoon_of_follow_none hfollow
    | some place => exact endsSoon_enter hdepth _ hfollow (Nat.lt_succ_self _)
  exact (hsoon [] (fun _ _ => .nil) t (.refl t)).finishes events

/-! ## What is removed -/

/-- All that is left to do is inside, and so is all that has gone. -/
def Enclosed (host : Host) (t : LinkTree) (path : String) (pending : List RemoveStep) (t' : LinkTree) : Prop :=
  (∀ step ∈ pending, ∀ q, host.place t step.path = some q → Within host t path q) ∧
    ∀ q, ¬ Within host t path q → t'.entry q = t.entry q

/-- A link to a directory is to be removed as one. -/
def Blocked (host : Host) (t : LinkTree) (path : String) (pending : List RemoveStep) (t' : LinkTree) : Prop :=
  ∃ current q target, .removeDirectory current ∈ pending ∧ host.place t current = some q ∧ Within host t path q ∧
    t'.entry q = some (.link target) ∧ host.stat t current = some .directory

/-- How far a removal that began with `t` has come. -/
structure Progress (host : Host) (t : LinkTree) (path : String) (pending : List RemoveStep) (t' : LinkTree) : Prop where
  remains : t'.RemainsOf t
  listed : ∀ step ∈ pending, Listed host t path step.path
  itself : (∃ step ∈ pending, step.path = path) ∨ ∃ p, host.place t path = some p ∧ t'.entry p = none
  course : host.removesLinks = false → Enclosed host t path pending t' ∨ Blocked host t path pending t'
  spared : Harmless host t path → ∀ q, ¬ Within host t path q → t'.entry q = t.entry q

theorem Progress.start (host : Host) (t : LinkTree) (path : String) : Progress host t path [.enter path] t where
  remains := .refl t
  listed step hstep := by
    rw [mem_singleton.mp hstep]
    exact .start
  itself := .inl ⟨_,mem_singleton_self _,rfl⟩
  course _ := by
    refine .inl ⟨fun step hstep q hq => ?_,fun _ _ => rfl⟩
    rw [mem_singleton.mp hstep] at hq
    exact ⟨q,hq,prefix_rfl⟩
  spared _ _ _ := rfl

/-- A step either looks into a directory or removes what is at one place. -/
theorem removes_cases (h : Removes (remoteSystem host listing) t' step pushed t'') :
    (t'' = t' ∧ .removeDirectory step.path ∈ pushed ∧ ∃ r left, host.follow t' step.path = some (r,left) ∧
        t'.entry r = some .directory ∧ ∀ next ∈ pushed, next.path = step.path ∨
          ∃ name, t'.entry (r ++ [name]) ≠ none ∧ next = .enter (entryPath step.path name)) ∨
      (pushed = [] ∧ ∃ q, host.place t' step.path = some q ∧ t''.entry = Function.update t'.entry q none ∧
        ((∃ entry, host.stat t' step.path = some entry ∧ entry ≠ .directory) ∨
          (t'.names q = [] ∧ (t'.entry q = some .directory ∨ host.removesLinks = true)))) := by
  cases h with
  | list hdirectory hentries =>
    obtain ⟨r,left,hfollow,hr,hmem⟩ := mem_of_list hentries
    refine .inl ⟨rfl,mem_append_right _ (mem_singleton_self _),r,left,hfollow,hr,?_⟩
    intro next hnext
    rcases mem_append.mp hnext with hentry | hself
    · exact .inr (hmem next hentry)
    · rw [mem_singleton.mp hself]
      exact .inl rfl
  | file hdirectory hremove =>
    obtain ⟨entry,hstat,hfalse⟩ := isDirectory_ok hdirectory
    obtain ⟨q,hplace,hupdate,-⟩ := removeFile_ok hremove
    exact .inr ⟨rfl,q,hplace,hupdate,.inl ⟨entry,hstat,of_decide_eq_false hfalse.symm⟩⟩
  | directory hremove =>
    obtain ⟨q,hplace,hupdate,hnames,hentry⟩ := removeDirectory_ok hremove
    exact .inr ⟨rfl,q,hplace,hupdate,.inr ⟨hnames,hentry⟩⟩

variable {rest : List RemoveStep}

/-- A link that leads to a directory stays, and what is to remove it as a directory does too. -/
theorem Blocked.of_removes (hposix : host.removesLinks = false) (hremains : t'.RemainsOf t)
    (h : Blocked host t path (step :: rest) t') (hstep : Removes (remoteSystem host listing) t' step pushed t'') :
    Blocked host t path (pushed ++ rest) t'' := by
  obtain ⟨current,q,target,hmem,hplace,hwithin,hlink,hstat⟩ := h
  rcases removes_cases hstep with ⟨rfl,hagain,-⟩ | ⟨rfl,p,hp,hupdate,hkind⟩
  · refine ⟨current,q,target,?_,hplace,hwithin,hlink,hstat⟩
    rcases mem_cons.mp hmem with rfl | hrest
    · exact mem_append_left _ hagain
    · exact mem_append_right _ hrest
  · have hqp : q ≠ p := by
      rintro rfl
      rcases hkind with ⟨entry,hentry,hne⟩ | ⟨-,hdirectory⟩
      · exact hne (stat_of_link (hremains.entry hlink) (place_mono hremains hp) hplace
          (stat_mono hremains hentry) hstat)
      · rcases hdirectory with hdirectory | hremoves
        · rw [hdirectory] at hlink
          cases hlink
        · rw [hposix] at hremoves
          cases hremoves
    rcases mem_cons.mp hmem with rfl | hrest
    · exact absurd (Option.some.inj (hplace.symm.trans (place_mono hremains hp))) hqp
    · exact ⟨current,q,target,hrest,hplace,hwithin,by rw [hupdate,update_of_ne hqp,hlink],hstat⟩

/-- Below a place that is no link there is only what is inside. -/
theorem Enclosed.of_removes (hremains : t'.RemainsOf t) (h : Enclosed host t path (step :: rest) t')
    (hstep : Removes (remoteSystem host listing) t' step pushed t'') :
    Enclosed host t path (pushed ++ rest) t'' ∨ Blocked host t path (pushed ++ rest) t'' := by
  obtain ⟨hpending,hsame⟩ := h
  obtain ⟨hself,hrest⟩ := forall_mem_cons.mp hpending
  rcases removes_cases hstep with ⟨rfl,hagain,r,left,hfollow,hdirectory,hpushed⟩ | ⟨rfl,p,hp,hupdate,-⟩
  · obtain ⟨q,hplace,hr⟩ := place_of_follow hfollow
    have hq := hself q (place_mono hremains hplace)
    rcases hr with rfl | ⟨target,hlink⟩
    · refine .inl ⟨fun next hnext p hp => ?_,hsame⟩
      rcases mem_append.mp hnext with hnext | hnext
      · rcases hpushed next hnext with heq | ⟨name,hname,rfl⟩
        · exact hself p (heq ▸ hp)
        · have hchild := place_entryPath (follow_mono hremains hfollow) (t''.plain r name hname)
          rw [RemoveStep.path,hchild] at hp
          cases hp
          obtain ⟨top,htop,hunder⟩ := hq
          exact ⟨top,htop,hunder.trans (prefix_append r [name])⟩
      · exact hrest next hnext p hp
    · refine .inr ⟨step.path,q,target,mem_append_left _ hagain,place_mono hremains hplace,hq,hlink,?_⟩
      exact stat_iff.mpr ⟨r,left,follow_mono hremains hfollow,hremains.entry hdirectory⟩
  · refine .inl ⟨hrest,fun q hq => ?_⟩
    have hqp : q ≠ p := by
      rintro rfl
      exact hq (hself q (place_mono hremains hp))
    rw [hupdate,update_of_ne hqp]
    exact hsame q hq

/-- What is outside is not removed if nothing there is there to be removed at first: a directory there whose entries
have gone would stand above the place itself, from which a link that stays has led to it. -/
theorem Progress.not_removed_outside (h : Progress host t path (step :: rest) t') (hharmless : Harmless host t path)
    (hstep : (∃ entry, host.stat t' step.path = some entry ∧ entry ≠ .directory) ∨
      (t'.names q = [] ∧ (t'.entry q = some .directory ∨ host.removesLinks = true)))
    (hplace : host.place t step.path = some q) : Within host t path q := by
  by_contra hq
  obtain ⟨hposix,hnot⟩ := hharmless step.path q (h.listed step mem_cons_self) hplace hq
  rcases hstep with ⟨entry,hentry,hne⟩ | ⟨hnames,hkind⟩
  · exact hnot (.inl ⟨entry,stat_mono h.remains hentry,hne⟩)
  · have hdirectory : t'.entry q = some .directory := by
      rcases hkind with hdirectory | hremoves
      · exact hdirectory
      · rw [hposix] at hremoves
        cases hremoves
    refine hnot (.inr ⟨h.remains.entry hdirectory,eq_nil_iff_forall_not_mem.mpr fun name hname => ?_⟩)
    have hgone : t'.entry (q ++ [name]) = none := by
      by_contra hthere
      rw [← Ne,← mem_names,hnames] at hthere
      exact not_mem_nil hthere
    by_cases hchild : Within host t path (q ++ [name])
    · obtain ⟨top,htop,hunder⟩ := hchild
      have heq : top = q ++ [name] := by
        rcases prefix_concat_iff.mp hunder with heq | habove
        · exact heq
        · exact absurd ⟨top,htop,habove⟩ hq
      rcases h.course hposix with henclosed | ⟨current,l,target,-,-,⟨top',htop',hbelow⟩,hlink,-⟩
      · exact hq (henclosed.1 step mem_cons_self q hplace)
      · rw [htop] at htop'
        cases htop'
        have hlinked : t'.entry l ≠ none := by
          rw [hlink]
          exact nofun
        exact ne_none_of_prefix hlinked hbelow (heq ▸ hgone)
    · rw [h.spared hharmless _ hchild] at hgone
      exact mem_names.mp hname hgone

theorem Progress.of_removes (h : Progress host t path (step :: rest) t')
    (hstep : Removes (remoteSystem host listing) t' step pushed t'') : Progress host t path (pushed ++ rest) t'' where
  remains := (remainsOf_of_removes hstep).trans h.remains
  listed next hnext := by
    obtain ⟨hself,hrest⟩ := forall_mem_cons.mp h.listed
    rcases mem_append.mp hnext with hnext | hnext
    · rcases removes_cases hstep with ⟨rfl,-,r,left,hfollow,-,hpushed⟩ | ⟨rfl,-⟩
      · rcases hpushed next hnext with heq | ⟨name,hname,rfl⟩
        · rw [heq]
          exact hself
        · exact .entry hself (follow_mono h.remains hfollow) (h.remains.ne_none hname)
      · exact absurd hnext not_mem_nil
    · exact hrest next hnext
  itself := by
    have hgone {p : Path} (hp : t'.entry p = none) : t''.entry p = none := by
      rcases remainsOf_of_removes hstep p with heq | hnone
      · rw [heq,hp]
      · exact hnone
    rcases h.itself with ⟨own,hmem,hown⟩ | ⟨p,hp,hnone⟩
    · rcases mem_cons.mp hmem with rfl | hrest
      · rcases removes_cases hstep with ⟨rfl,hagain,-⟩ | ⟨rfl,p,hp,hupdate,-⟩
        · exact .inl ⟨_,mem_append_left _ hagain,hown⟩
        · refine .inr ⟨p,hown ▸ place_mono h.remains hp,?_⟩
          rw [hupdate,update_self]
      · exact .inl ⟨own,mem_append_right _ hrest,hown⟩
    · exact .inr ⟨p,hp,hgone hnone⟩
  course hposix := by
    rcases h.course hposix with henclosed | hblocked
    · exact henclosed.of_removes h.remains hstep
    · exact .inr (hblocked.of_removes hposix h.remains hstep)
  spared hharmless q hq := by
    rcases removes_cases hstep with ⟨rfl,-⟩ | ⟨-,p,hp,hupdate,hkind⟩
    · exact h.spared hharmless q hq
    · have hqp : q ≠ p := by
        rintro rfl
        exact hq (h.not_removed_outside hharmless hkind (place_mono h.remains hp))
      rw [hupdate,update_of_ne hqp]
      exact h.spared hharmless q hq

/-! ## Runs -/

theorem brings_removeRemoteTree (host : Host) (listing : Listing) (t : LinkTree) (path : String) (fuel : ℕ) :
    Brings (removeRemoteTree (remoteSystem host listing) fuel path)
      (fun emptied t' => if emptied then Progress host t path [] t' else ∃ pending, Progress host t path pending t')
      (fun t' => ∃ pending, Progress host t path pending t') t :=
  brings_removePending (fun h hstep => h.of_removes hstep) fuel (Progress.start host t path)

/-- When nothing is left to do, what the path names has gone with all that is below it. -/
theorem Progress.exact (h : Progress host t path [] t')
    (hspared : ∀ q, ¬ Within host t path q → t'.entry q = t.entry q) : Exact host t path t' := by
  intro q
  refine ⟨?_,hspared q⟩
  rintro ⟨top,htop,hunder⟩
  rcases h.itself with ⟨_,hmem,-⟩ | ⟨p,hp,hnone⟩
  · exact absurd hmem not_mem_nil
  · rw [htop] at hp
    cases hp
    by_contra hq
    exact ne_none_of_prefix hq hunder hnone

theorem removesOnly_of_harmless (h : Harmless host t path) : RemovesOnly host t path where
  terminates := terminates host t path
  spares listing events fuel q hq := by
    have hrun := brings_removeRemoteTree host listing t path fuel events
    refine Execution.Leads.after (P := fun w => w.store.entry q = t.entry q) (hrun.mono ?_ ?_)
    · intro emptied w hw
      cases emptied with
      | true => exact Progress.spared hw h q hq
      | false =>
        obtain ⟨pending,hprogress⟩ := hw
        exact hprogress.spared h q hq
    · rintro w ⟨pending,hprogress⟩
      exact hprogress.spared h q hq
  removes listing events fuel w hw := by
    have hprogress := (brings_removeRemoteTree host listing t path fuel events).ok hw
    exact Progress.exact hprogress (Progress.spared hprogress h)

/-- Where a link cannot be removed as a directory, a removal that succeeds has not followed one to a directory. -/
theorem exact_of_success (hposix : host.removesLinks = false) {events : List Event} {fuel : ℕ} {w : World LinkTree}
    (h : removeRemoteTree (remoteSystem host listing) fuel path ⟨t,events⟩ = .ok true w) :
    Exact host t path w.store := by
  have hprogress : Progress host t path [] w.store := (brings_removeRemoteTree host listing t path fuel events).ok h
  rcases hprogress.course hposix with henclosed | ⟨_,_,_,hmem,-⟩
  · exact hprogress.exact henclosed.2
  · exact absurd hmem not_mem_nil

/-! ## A run that comes to a path -/

/-- The entries on the way to a path are listed last. -/
def toward (path : String) : Listing where
  arrange current names :=
    names.filter (fun name => !decide (segments (entryPath current name) <+: segments path)) ++
      names.filter fun name => !!decide (segments (entryPath current name) <+: segments path)
  perm _ _ := filter_append_perm _ _

variable {current : String}

/-- The entry on the way is the one that is looked at next. -/
theorem reverse_toward {name : String} {names : List String} (hmem : name ∈ names)
    (hplain : ∀ name ∈ names, Plain name) (hway : segments (entryPath current name) <+: segments path) :
    ∃ others, ((toward path).arrange current names).reverse = name :: others := by
  rw [toward,reverse_append]
  cases hlast : (names.filter fun name => !!decide (segments (entryPath current name) <+: segments path)).reverse with
  | nil =>
    rw [reverse_eq_nil_iff,filter_eq_nil_iff] at hlast
    exact absurd (by simpa using hway) (hlast name hmem)
  | cons other others =>
    have hother : other ∈ names.filter fun name => !!decide (segments (entryPath current name) <+: segments path) := by
      rw [← mem_reverse,hlast]
      exact mem_cons_self
    obtain ⟨hnames,hunder⟩ := mem_filter.mp hother
    have hunder : segments (entryPath current other) <+: segments path := by simpa using hunder
    rw [segments_entryPath current (hplain _ hmem)] at hway
    rw [segments_entryPath current (hplain _ hnames)] at hunder
    have hsame := prefix_of_prefix_length_le hunder hway (by simp)
    have hlength := hsame.eq_of_length (by simp)
    have heq : other = name := by simpa using hlength
    rw [heq]
    exact ⟨_,rfl⟩

theorem removePending_directory (listing : Listing) {r : Path} {left : ℕ}
    (hfollow : host.follow t current = some (r,left)) (hdirectory : t.entry r = some .directory) (fuel : ℕ)
    (pending : List RemoveStep) :
    removePending (remoteSystem host listing) (fuel + 1) (.enter current :: pending) ⟨t,[]⟩ =
      removePending (remoteSystem host listing) fuel
        ((((listing.arrange current (t.names r)).map (entryPath current)).reverse.map .enter ++
          [.removeDirectory current]) ++ pending) ⟨t,[]⟩ := by
  apply removePending_of_removes
  apply Removes.list (isDirectory_of_stat (stat_iff.mpr ⟨r,left,hfollow,hdirectory⟩))
  show host.entries _ t current = _
  rw [entries,hfollow]
  exact if_pos hdirectory

theorem comes_to {target : String} (h : Listed host t path current) (hway : segments current <+: segments target) :
    ∃ pending steps, ∀ fuel,
      removeRemoteTree (remoteSystem host (toward target)) (fuel + steps) path ⟨t,[]⟩ =
        removePending (remoteSystem host (toward target)) fuel (.enter current :: pending) ⟨t,[]⟩ := by
  induction h with
  | start => exact ⟨[],0,fun _ => rfl⟩
  | @entry current name r left _ hfollow hname ih =>
    have hplain := t.plain r name hname
    have hdirectory := directory_of_child hname
    rw [segments_entryPath current hplain] at hway
    obtain ⟨pending,steps,hrun⟩ := ih ((prefix_append _ _).trans hway)
    rw [← segments_entryPath current hplain] at hway
    obtain ⟨others,hothers⟩ := reverse_toward (mem_names.mpr hname)
      (fun other hother => t.plain r other (mem_names.mp hother)) hway
    refine ⟨others.map (RemoveStep.enter ∘ entryPath current) ++ .removeDirectory current :: pending,steps + 1,
      fun fuel => ?_⟩
    rw [← Nat.add_assoc,Nat.add_right_comm,hrun,removePending_directory (toward target) hfollow hdirectory,
      ← map_reverse,hothers]
    simp

/-- Something that can be removed at first is removed when the run comes to it. -/
theorem exists_removal (listing : Listing) {parent name : String} {r : Path} {left : ℕ}
    (hfollow : host.follow t parent = some (r,left)) (hname : t.entry (r ++ [name]) ≠ none)
    (h : Removable host t (entryPath parent name) (r ++ [name])) :
    ∃ steps t', t'.entry = Function.update t.entry (r ++ [name]) none ∧ ∀ fuel pending,
      removePending (remoteSystem host listing) (fuel + steps) (.enter (entryPath parent name) :: pending) ⟨t,[]⟩ =
        removePending (remoteSystem host listing) fuel pending ⟨t',[]⟩ := by
  have hplain := t.plain r name hname
  have hplace := place_entryPath hfollow hplain
  have hends := endsInName_entryPath parent hplain
  have hne : r ++ [name] ≠ [] := by simp
  by_cases hdirectory : t.entry (r ++ [name]) = some .directory
  · have hchild := follow_entryPath_directory hfollow hdirectory
    have hnames : t.names (r ++ [name]) = [] := by
      rcases h with ⟨entry,hentry,hnot⟩ | ⟨-,hnames⟩
      · rw [stat_iff.mpr ⟨_,_,hchild,hdirectory⟩] at hentry
        exact absurd (Option.some.inj hentry).symm hnot
      · exact hnames
    obtain ⟨t',hremove,hupdate⟩ := exists_remove hne hname hnames
    have hremoved : host.removeDirectory t (entryPath parent name) = .ok t' := by
      rw [removeDirectory,hplace]
      exact (if_pos ⟨hends,.inl hdirectory⟩).trans hremove
    refine ⟨2,t',hupdate,fun fuel pending => ?_⟩
    have hempty : listing.arrange (entryPath parent name) [] = [] := (listing.perm _ []).eq_nil
    rw [removePending_directory listing hchild hdirectory (fuel + 1) pending,hnames,hempty]
    exact removePending_of_removes (.directory hremoved) fuel pending
  · rcases h with ⟨entry,hentry,hnot⟩ | ⟨hdirectory',-⟩
    · obtain ⟨t',hremove,hupdate⟩ :=
        exists_remove hne hname (names_of_ne_directory hdirectory)
      have hremoved : host.removeFile t (entryPath parent name) = .ok t' := by
        rw [removeFile,hplace]
        exact (if_pos ⟨hends,hdirectory⟩).trans hremove
      have hfile := isDirectory_of_stat hentry
      rw [decide_eq_false hnot] at hfile
      exact ⟨1,t',hupdate,fun fuel pending => removePending_of_removes (.file hfile hremoved) fuel pending⟩
    · exact absurd hdirectory' hdirectory

/-- A path to a place outside where something can be removed is come to by some run, which removes it. -/
theorem harmless_of_removesOnly (hposix : host.removesLinks = false) (h : RemovesOnly host t path) :
    Harmless host t path := by
  intro current q hlisted hplace hq
  refine ⟨hposix,fun hremovable => ?_⟩
  obtain ⟨pending,steps,hrun⟩ := comes_to hlisted prefix_rfl
  cases hlisted with
  | start => exact hq ⟨q,hplace,prefix_rfl⟩
  | @entry parent name r left _ hfollow hname =>
    rw [place_entryPath hfollow (t.plain r name hname)] at hplace
    cases hplace
    obtain ⟨more,t',hupdate,hremoval⟩ := exists_removal (toward (entryPath parent name)) hfollow hname hremovable
    have hgone : t'.entry (r ++ [name]) = none := by rw [hupdate,update_self]
    have hspares := h.spares (toward (entryPath parent name)) [] (0 + more + steps) _ hq
    rw [Execution.after,hrun,hremoval] at hspares
    cases pending with
    | nil | cons => exact hname (hspares.symm.trans hgone)

/-- Where no link that the removal comes to leads to a directory, all that it comes to is inside. -/
theorem harmless_of_links (h : ∀ current q target, Listed host t path current → host.place t current = some q →
    t.entry q = some (.link target) → host.stat t current ≠ some .directory) : Harmless host t path := by
  intro current q hlisted hplace hq
  refine absurd ?_ hq
  induction hlisted generalizing q with
  | start => exact ⟨q,hplace,prefix_rfl⟩
  | @entry parent name r left hparent hfollow hname ih =>
    rw [place_entryPath hfollow (t.plain r name hname)] at hplace
    cases hplace
    obtain ⟨p,hp,hr⟩ := place_of_follow hfollow
    rcases hr with rfl | ⟨target,hlink⟩
    · have hwithin : Within host t path r := by
        by_contra hnot
        exact hnot (ih r hp hnot)
      obtain ⟨top,htop,hunder⟩ := hwithin
      exact ⟨top,htop,hunder.trans (prefix_append r [name])⟩
    · refine absurd (stat_iff.mpr ⟨r,left,hfollow,?_⟩) (h parent p target hparent hp hlink)
      exact directory_of_child hname

section

variable (removesLinks : Bool)

theorem follow_d (h : t.entry ["d"] = some .directory) :
    follow ⟨40,[],removesLinks⟩ t "/d" = some (["d"],40) := by
  apply follow_iff.mpr
  refine ⟨[],rfl,?_⟩
  exact .down h (fun _ => nofun) .stop

end

/-- A directory with a link to a file beside it. -/
def treeWithLinkedFile : LinkTree := .ofList
  [(["d"],.directory),(["kept"],.file []),(["d","notes"],.link "/kept")] (by decide)

theorem follow_notes (removesLinks : Bool) :
    follow ⟨40,[],removesLinks⟩ treeWithLinkedFile (entryPath "/d" "notes") = some (["kept"],39) := by
  apply follow_entryPath_of_walks (follow_d removesLinks rfl) (by decide)
  apply LinkTree.Walks.link rfl rfl
  exact .down rfl (fun _ => nofun) .stop

theorem harmless_treeWithLinkedFile (removesLinks : Bool) : Harmless ⟨40,[],removesLinks⟩ treeWithLinkedFile "/d" := by
  apply harmless_of_links
  intro current q target _ hplace hlink hstat
  have hq : q = ["d","notes"] := by
    have hne : q ≠ [] := by
      rintro rfl
      cases hlink
    have hentry : treeWithLinkedFile.entry q ≠ none := by
      rw [hlink]
      exact nofun
    obtain ⟨entry,hmem⟩ := mem_of_listedEntry hentry hne
    simp only [mem_cons,Prod.mk.injEq,not_mem_nil,or_false] at hmem
    rcases hmem with ⟨rfl,-⟩ | ⟨rfl,-⟩ | ⟨rfl,-⟩
    · cases hlink
    · cases hlink
    · rfl
  subst hq
  have hnotes := place_entryPath (follow_d removesLinks (t := treeWithLinkedFile) rfl) (show Plain "notes" by decide)
  have hfile := stat_of_link hlink hplace hnotes hstat (stat_iff.mpr ⟨_,_,follow_notes removesLinks,rfl⟩)
  cases hfile

/-- The removal of a remote directory ends. On a host that does not remove a link as a directory it has removed exactly
the directory when it succeeds, and it spares what is outside in every outcome just when it comes to nothing there that
can be removed; on every other host it does so when it comes to nothing outside. -/
theorem removes_only_iff (host : Host) (t : LinkTree) (path : String) :
    Terminates host t path ∧ (Harmless host t path → RemovesOnly host t path) ∧
      (host.removesLinks = false → (RemovesOnly host t path → Harmless host t path) ∧
        ∀ listing events fuel w, removeRemoteTree (remoteSystem host listing) fuel path ⟨t,events⟩ = .ok true w →
          Exact host t path w.store) := by
  refine ⟨terminates host t path,removesOnly_of_harmless,fun hposix => ⟨harmless_of_removesOnly hposix,?_⟩⟩
  intro listing events fuel w hw
  exact exact_of_success hposix hw

/-- The file to which a link leads stays, and the link goes. -/
theorem linked_file_kept : RemovesOnly ⟨40,[],false⟩ treeWithLinkedFile "/d" :=
  (removes_only_iff ⟨40,[],false⟩ treeWithLinkedFile "/d").2.1 (harmless_treeWithLinkedFile false)

/-- A directory with a link to another one, in which there is a file. -/
def linkedTree : LinkTree := .ofList
  [(["d"],.directory),(["other"],.directory),(["d","out"],.link "/other"),(["other","file"],.file [])] (by decide)

def asListed : Listing where
  arrange _ names := names
  perm _ _ := .refl _

section

variable (removesLinks : Bool)

theorem follow_out (h : t.entry ["d"] = some .directory) (hlink : t.entry ["d","out"] = some (.link "/other"))
    (hother : t.entry ["other"] = some .directory) :
    follow ⟨40,[],removesLinks⟩ t (entryPath "/d" "out") = some (["other"],39) := by
  apply follow_entryPath_of_walks (follow_d removesLinks h) (by decide)
  apply LinkTree.Walks.link hlink rfl
  exact .down hother (fun _ => nofun) .stop

/-- The file of the other directory is the first thing that is removed. -/
theorem file_removed : ∃ steps t', t'.entry = Function.update linkedTree.entry ["other","file"] none ∧ ∀ fuel,
    removeRemoteTree (remoteSystem ⟨40,[],removesLinks⟩ asListed) (fuel + steps) "/d" ⟨linkedTree,[]⟩ =
      removePending (remoteSystem ⟨40,[],removesLinks⟩ asListed) fuel
        [.removeDirectory (entryPath "/d" "out"),.removeDirectory "/d"] ⟨t',[]⟩ := by
  have hd := follow_d (t := linkedTree) removesLinks rfl
  have hout := follow_out (t := linkedTree) removesLinks rfl rfl rfl
  have hfile : follow ⟨40,[],removesLinks⟩ linkedTree (entryPath (entryPath "/d" "out") "file") =
      some (["other","file"],39) :=
    follow_entryPath_of_walks hout (by decide) (.down rfl (fun _ => nofun) .stop)
  have hthere : linkedTree.entry (["other"] ++ ["file"]) ≠ none := nofun
  obtain ⟨steps,t',hupdate,hrun⟩ := exists_removal asListed hout hthere
    (.inl ⟨_,stat_iff.mpr ⟨_,_,hfile,rfl⟩,nofun⟩)
  refine ⟨steps + 2,t',hupdate,fun fuel => ?_⟩
  have hnames : linkedTree.names ["d"] = ["out"] ∧ linkedTree.names ["other"] = ["file"] := by decide
  rw [← Nat.add_assoc,removeRemoteTree,removePending_directory asListed hd rfl]
  exact (removePending_directory asListed hout rfl ..).trans (by rw [hnames.2]; exact hrun fuel _)

/-- Where a link can be removed as a directory, what is left to do succeeds. -/
theorem rest_removed (h : t.entry = Function.update linkedTree.entry ["other","file"] none) :
    ∃ t', t'.entry ["other","file"] = none ∧ removePending (remoteSystem ⟨40,[],true⟩ asListed) 2
      [.removeDirectory (entryPath "/d" "out"),.removeDirectory "/d"] ⟨t,[]⟩ = .ok true ⟨t',[]⟩ := by
  have hd : t.entry ["d"] = some .directory := by rw [h]; rfl
  have hlink : t.entry ["d","out"] = some (.link "/other") := by rw [h]; rfl
  have hother : t.entry ["other"] = some .directory := by rw [h]; rfl
  have hdirectory := stat_iff.mpr ⟨_,_,follow_out true hd hlink hother,hother⟩
  obtain ⟨t₁,hremove,hupdate⟩ := exists_remove (p := ["d","out"]) (cons_ne_nil _ _) (by rw [hlink]; simp)
    (names_of_ne_directory (by rw [hlink]; simp))
  have hremoved : removeDirectory ⟨40,[],true⟩ t (entryPath "/d" "out") = .ok t₁ := by
    rw [removeDirectory,place_entryPath (follow_d true hd) (by decide)]
    exact (if_pos ⟨endsInName_entryPath "/d" (by decide),.inr ⟨rfl,hdirectory⟩⟩).trans hremove
  have hd₁ : t₁.entry ["d"] = some .directory := by rw [hupdate,h]; rfl
  have hempty : t₁.names ["d"] = [] := by
    apply eq_nil_iff_forall_not_mem.mpr
    intro name hname
    have hentry := mem_names.mp hname
    rw [hupdate,h] at hentry
    by_cases hout : name = "out"
    · exact hentry (by rw [hout]; rfl)
    · rw [update_of_ne (by simpa using hout),update_of_ne (by simp),← mem_names] at hentry
      exact hout (mem_singleton.mp hentry)
  obtain ⟨t₂,hremove₁,hupdate₁⟩ := exists_remove (p := ["d"]) (cons_ne_nil _ _) (by simp [hd₁]) hempty
  have hremoved₁ : removeDirectory ⟨40,[],true⟩ t₁ "/d" = .ok t₂ := by
    exact (if_pos ⟨by decide,.inl hd₁⟩).trans hremove₁
  refine ⟨t₂,by rw [hupdate₁,hupdate,h]; rfl,?_⟩
  rw [removePending_of_removes (.directory hremoved)]
  exact removePending_of_removes (.directory hremoved₁) 0 []

end

/-- A link to a directory outside: the file in that directory is removed. The removal then fails at the link where a
link is not removed as a directory, and succeeds where it is. -/
theorem linked_directory_emptied : ¬ RemovesOnly ⟨40,[],false⟩ linkedTree "/d" ∧
    ∃ fuel w, removeRemoteTree (remoteSystem ⟨40,[],true⟩ asListed) fuel "/d" ⟨linkedTree,[]⟩ = .ok true w ∧
      ¬ Exact ⟨40,[],true⟩ linkedTree "/d" w.store := by
  have houtside (removesLinks : Bool) : ¬ Within ⟨40,[],removesLinks⟩ linkedTree "/d" ["other","file"] := by
    rintro ⟨top,htop,hunder⟩
    cases htop
    revert hunder
    decide
  constructor
  · intro h
    obtain ⟨steps,t',hupdate,hrun⟩ := file_removed false
    have hspares := h.spares asListed [] (0 + steps) ["other","file"] (houtside false)
    rw [Execution.after,hrun 0] at hspares
    have hgone : t'.entry ["other","file"] = none := by rw [hupdate,update_self]
    cases hgone.symm.trans hspares
  · obtain ⟨steps,t₁,hupdate,hrun⟩ := file_removed true
    obtain ⟨t',hgone,hrest⟩ := rest_removed hupdate
    refine ⟨2 + steps,_,(hrun 2).trans hrest,fun hexact => ?_⟩
    cases hgone.symm.trans ((hexact _).2 (houtside true))

end Mxterm.SftpTransfers
