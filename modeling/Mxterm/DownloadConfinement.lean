import Mxterm.DirectoryDownloads

/-! Where the download of a directory writes, for all names that a server may give. -/
namespace Mxterm.SftpTransfers

open FileTrees SlashPaths ListedTrees List

/-- At or below the target, with all steps taken. -/
def Inside (cwd : Path) (target path : String) : Prop := locate cwd target <+: locate cwd path

/-- All writes are inside, and files with different remote paths are written to different places. -/
structure Confined (cwd : Path) (target : String) (writes : List Write) (files : List (String × String)) : Prop where
  inside : ∀ write ∈ writes, Inside cwd target write.path
  distinct : ∀ file ∈ files, ∀ other ∈ files, file.1 ≠ other.1 → locate cwd file.2 ≠ locate cwd other.2

/-- The steps of a chain of names, which may have slashes in them. -/
def steps (chain : List String) : List String := chain.flatMap segments

/-- A chain of names leads to a directory. -/
def DirectoryAt (entries : Entries RemoteEntry) (chain : List String) : Prop := ∃ inner, Leads entries chain inner

/-- A chain of names leads to an entry that is downloaded. -/
def FileAt (downloads : RemoteEntry → Bool) (entries : Entries RemoteEntry) (chain : List String) : Prop :=
  ∃ front name inner node, chain = front ++ [name] ∧ Leads entries front inner ∧ (name,.leaf node) ∈ inner ∧
    downloads node = true

/-- No chain of names goes above where it begins, that of a file takes a step, and chains of different files lead to
different places. Where joining an absolute name replaces what it is joined to, there is no such name. -/
structure Tame (downloads : RemoteEntry → Bool) (replaces : Bool) (remote : List String → String)
    (entries : Entries RemoteEntry) : Prop where
  directories : ∀ chain, DirectoryAt entries chain → Stays 0 (steps chain)
  files : ∀ chain, FileAt downloads entries chain → Stays 0 (steps chain) ∧ ∃ step ∈ steps chain, step ≠ "."
  relative : replaces = true → ∀ chain, DirectoryAt entries chain ∨ FileAt downloads entries chain →
    ∀ name ∈ chain, isAbsolute name = false
  distinct : ∀ chain other, FileAt downloads entries chain → FileAt downloads entries other →
    remote chain ≠ remote other → (steps chain).foldl enter [] ≠ (steps other).foldl enter []

variable {cwd : Path} {target path : String} {names : List String}

/-! ## Names that are joined to the target -/

theorem locate_pushes_of_stays (hrelative : ∀ name ∈ names, isAbsolute name = false) (h : Stays 0 (steps names)) :
    locate cwd (names.foldl push target) = locate cwd target ++ (steps names).foldl enter [] := by
  rw [(locate_pushes cwd hrelative).1]
  have hstays := foldl_enter_of_stays (p := []) h (locate cwd target)
  rwa [append_nil] at hstays

theorem inside_pushes (hrelative : ∀ name ∈ names, isAbsolute name = false) (h : Stays 0 (steps names)) :
    Inside cwd target (names.foldl push target) := by
  rw [Inside,locate_pushes_of_stays hrelative h]
  exact prefix_append _ _

/-- From the target, by the first steps of those that stay below. -/
theorem prefix_locate {rest : List String} (h : Stays 0 (steps names)) (hrest : rest <+: steps names) :
    locate cwd target <+: rest.foldl enter (locate cwd target) := by
  obtain ⟨more,hmore⟩ := hrest
  rw [← hmore] at h
  have hstays := foldl_enter_of_stays (p := []) (stays_append h) (locate cwd target)
  rw [append_nil] at hstays
  rw [hstays]
  exact prefix_append _ _

theorem inside_part (hrelative : ∀ name ∈ names, isAbsolute name = false) (h : Stays 0 (steps names))
    (hne : steps names ≠ []) : Inside cwd target (names.foldl push target ++ ".mxpart") := by
  obtain ⟨-,habsolute,hsegments⟩ : _ ∧ isAbsolute (names.foldl push target) = isAbsolute target ∧ _ :=
    locate_pushes cwd hrelative
  have hsuffix : ".mxpart" ≠ "" ∧ '/' ∉ ".mxpart".toList := by decide
  obtain ⟨front,last,hfront,happend⟩ := segments_append_suffix (names.foldl push target) hsuffix.1 hsuffix.2
  have hrest : ∃ rest, rest <+: steps names ∧ front = segments target ++ rest := by
    rcases hfront with rfl | rfl
    · exact ⟨_,prefix_rfl,hsegments⟩
    · rw [hsegments]
      exact ⟨_, dropLast_prefix (steps names),dropLast_append_of_ne_nil hne⟩
  obtain ⟨rest,hrest,rfl⟩ := hrest
  have hdots : ∀ dots : String, dots.length < 3 → last ++ ".mxpart" ≠ dots := by
    rintro _ hdots rfl
    rw [String.length_append] at hdots
    have hlong : ".mxpart".length = 7 := by decide
    omega
  have hpart : locate cwd (names.foldl push target ++ ".mxpart") =
      rest.foldl enter (locate cwd target) ++ [last ++ ".mxpart"] := by
    rw [locate,happend,isAbsolute_append_suffix hsuffix.1 hsuffix.2,habsolute,foldl_append,foldl_append,
      foldl_cons,foldl_nil,enter,if_neg (hdots "." (by decide)),if_neg (hdots ".." (by decide)),locate]
  rw [Inside,hpart]
  exact (prefix_locate h hrest).trans (prefix_append _ _)

theorem components_pushes (hrelative : ∀ name ∈ names, isAbsolute name = false) :
    components (names.foldl push target) = components target ++ (steps names).filter (· ≠ ".") := by
  rw [components,(locate_pushes [] hrelative).2.2,filter_append]
  rfl

theorem inside_parentOf {parent : String} (hrelative : ∀ name ∈ names, isAbsolute name = false)
    (h : Stays 0 (steps names)) (hstep : ∃ step ∈ steps names, step ≠ ".")
    (hparent : parentOf (names.foldl push target) = some parent) : Inside cwd target parent := by
  obtain ⟨step,hmem,hdot⟩ := hstep
  have hne : (steps names).filter (· ≠ ".") ≠ [] :=
    ne_nil_of_mem (mem_filter.mpr ⟨hmem,by simpa using hdot⟩)
  have hstays : Stays 0 ((steps names).filter (· ≠ ".")).dropLast := by
    have hfiltered := stays_filter h
    rw [← dropLast_append_getLast hne] at hfiltered
    exact stays_append hfiltered
  rw [Inside,(locate_parentOf cwd hparent).2,components_pushes hrelative,(locate_pushes cwd hrelative).2.1,
    dropLast_append_of_ne_nil hne,foldl_append,components,foldl_enter_filter]
  have hfold := foldl_enter_of_stays (p := []) hstays (locate cwd target)
  rw [append_nil] at hfold
  exact ⟨_,hfold.symm⟩

theorem inside_downloadWrites (hrelative : ∀ name ∈ names, isAbsolute name = false) (h : Stays 0 (steps names))
    (hstep : ∃ step ∈ steps names, step ≠ ".") :
    ∀ write ∈ downloadWrites (names.foldl push target), Inside cwd target write.path := by
  intro write hwrite
  rw [downloadWrites,mem_append,mem_map] at hwrite
  rcases hwrite with ⟨parent,hparent,rfl⟩ | hwrite
  · exact inside_parentOf hrelative h hstep (Option.mem_toList.mp hparent)
  · rcases mem_pair.mp hwrite with rfl | rfl
    · obtain ⟨step,hmem,-⟩ := hstep
      exact inside_part hrelative h (ne_nil_of_mem hmem)
    · exact inside_pushes hrelative h

/-! ## A target whose name occurs nowhere -/

theorem exists_fresh (names : List String) : ∃ name, Plain name ∧ name ∉ names := by
  obtain ⟨bound,hbound⟩ := exists_bound String.length names
  have hlength : (String.ofList (List.replicate (bound + 3) 'a')).length = bound + 3 := by
    rw [← String.length_toList,String.toList_ofList,length_replicate]
  have hshort : ∀ text : String, text.length < 3 → String.ofList (List.replicate (bound + 3) 'a') ≠ text := by
    rintro _ htext rfl
    omega
  refine ⟨String.ofList (List.replicate (bound + 3) 'a'),⟨hshort "" (by decide),hshort "." (by decide),
    hshort ".." (by decide),?_⟩,fun hmem => ?_⟩
  · rw [String.toList_ofList,mem_replicate]
    exact fun h => absurd h.2 (by decide)
  · have hle := hbound _ hmem
    omega

variable {name : String}

theorem locate_target (hname : Plain name) : locate [] ("/" ++ name) = [name] := by
  rw [locate,isAbsolute_slash,segments_slash,segments,pieces_plain hname]
  exact enter_plain hname []

/-- What is written below a fresh target has not gone above it. -/
theorem stays_of_inside (hname : Plain name) (hrelative : ∀ name ∈ names, isAbsolute name = false)
    (hfresh : name ∉ steps names) (h : Inside [] ("/" ++ name) (names.foldl push ("/" ++ name))) :
    Stays 0 (steps names) := by
  rw [Inside,(locate_pushes [] hrelative).1,locate_target hname] at h
  exact stays_of_below not_mem_nil hfresh h

/-- The directory of a file without a step is above the target. -/
theorem step_of_inside (hname : Plain name) (hrelative : ∀ name ∈ names, isAbsolute name = false)
    (h : ∀ write ∈ downloadWrites (names.foldl push ("/" ++ name)), Inside [] ("/" ++ name) write.path) :
    ∃ step ∈ steps names, step ≠ "." := by
  by_contra hnone
  push Not at hnone
  have hcomponents : components (names.foldl push ("/" ++ name)) = [name] := by
    have hempty : (steps names).filter (· ≠ ".") = [] := by
      apply filter_eq_nil_iff.mpr
      intro step hstep
      simpa using hnone step hstep
    rw [components_pushes hrelative,hempty,append_nil,components,segments_slash,segments,pieces_plain hname]
    exact filter_cons_of_pos (by simpa using hname.ne_dot)
  obtain ⟨parent,hparent⟩ : ∃ parent, parentOf (names.foldl push ("/" ++ name)) = some parent := by
    rw [parentOf,hcomponents]
    exact ⟨_,if_neg (cons_ne_nil _ _)⟩
  have hinside := h (.directory parent) (mem_append_left _ (mem_map.mpr ⟨parent,by simp [hparent],rfl⟩))
  rw [Write.path,Inside,locate_target hname,(locate_parentOf [] hparent).2,hcomponents] at hinside
  exact absurd hinside.length_le (by simp)

variable {names : List String}

/-- A path to which an absolute name was joined leads to what that name and the later ones know. -/
theorem pushes_absolute (h : ∃ name ∈ names, isAbsolute name = true) (target : String) :
    isAbsolute (names.foldl push target) = true ∧ ∀ step ∈ segments (names.foldl push target), step ∈ steps names := by
  induction names using List.reverseRecOn with
  | nil =>
    obtain ⟨name,hname,-⟩ := h
    exact absurd hname not_mem_nil
  | append_singleton names name ih =>
    rw [foldl_append,foldl_cons,foldl_nil,steps,flatMap_append,flatMap_singleton]
    by_cases hname : isAbsolute name = true
    · rw [push_absolute hname]
      exact ⟨hname,fun step hstep => mem_append_right _ hstep⟩
    · have hname : isAbsolute name = false := eq_false_of_ne_true hname
      obtain ⟨habsolute,hsegments⟩ := ih (by
        obtain ⟨other,hother,habsolute⟩ := h
        rcases mem_append.mp hother with hmem | hself
        · exact ⟨other,hmem,habsolute⟩
        · rw [mem_singleton.mp hself,hname] at habsolute
          cases habsolute)
      rw [isAbsolute_push hname,segments_push hname]
      refine ⟨habsolute,fun step hstep => ?_⟩
      exact mem_append.mpr ((mem_append.mp hstep).imp_left (hsegments step))

theorem relative_of_inside (hname : Plain name) (hfresh : name ∉ steps names)
    (h : Inside [] ("/" ++ name) (names.foldl push ("/" ++ name))) : ∀ name ∈ names, isAbsolute name = false := by
  by_contra hnot
  push Not at hnot
  obtain ⟨other,hmem,habsolute⟩ := hnot
  obtain ⟨hroot,hsegments⟩ := pushes_absolute ⟨other,hmem,by simpa using habsolute⟩ ("/" ++ name)
  rw [Inside,locate_target hname,locate,hroot] at h
  have hnot : name ∉ (segments (names.foldl push ("/" ++ name))).foldl enter [] :=
    not_mem_foldl_enter not_mem_nil fun hstep => hfresh (hsegments name hstep)
  exact hnot (h.subset (mem_singleton_self name))

/-! ## Traversals -/

/-- A traversal that joins `names chain` to the target for each chain of names. -/
structure Traverses (downloads : RemoteEntry → Bool) (replaces : Bool) (remote : List String → String)
    (entries : Entries RemoteEntry) (names : List String → List String) (writes : String → List Write)
    (files : String → List (String × String)) : Prop where
  steps_names : ∀ chain, steps (names chain) = steps chain
  relative : ∀ chain, if replaces then names chain = chain else ∀ name ∈ names chain, isAbsolute name = false
  mem_writes : ∀ target write, write ∈ writes target ↔
    (∃ chain, DirectoryAt entries chain ∧ write = .directory ((names chain).foldl push target)) ∨
      ∃ chain, FileAt downloads entries chain ∧ write ∈ downloadWrites ((names chain).foldl push target)
  mem_files : ∀ target file, file ∈ files target ↔
    ∃ chain, FileAt downloads entries chain ∧ file = (remote chain,(names chain).foldl push target)

variable {downloads : RemoteEntry → Bool} {replaces : Bool} {remote : List String → String}
  {entries : Entries RemoteEntry} {joined : List String → List String} {writes : String → List Write}
  {files : String → List (String × String)} {chain : List String}

theorem file_mem_downloadWrites (path : String) : Write.file path ∈ downloadWrites path :=
  mem_append_right _ (mem_cons_of_mem _ (mem_singleton_self _))

/-- Confined to every target, also to one whose name the server does not know. -/
theorem Traverses.tame (h : Traverses downloads replaces remote entries joined writes files)
    (hconfined : ∀ cwd target, Confined cwd target (writes target) (files target)) :
    Tame downloads replaces remote entries := by
  have hrelative {chain : List String} {name : String} (hname : Plain name) (hfresh : name ∉ steps chain)
      (hinside : Inside [] ("/" ++ name) ((joined chain).foldl push ("/" ++ name))) :
      ∀ name ∈ joined chain, isAbsolute name = false := by
    cases replaces with
    | false => exact h.relative chain
    | true =>
      apply relative_of_inside hname _ hinside
      rwa [h.steps_names]
  have hdirectory {chain : List String} (hchain : DirectoryAt entries chain) {name : String} :
      Inside [] ("/" ++ name) ((joined chain).foldl push ("/" ++ name)) :=
    (hconfined [] ("/" ++ name)).inside _ ((h.mem_writes _ _).mpr (.inl ⟨chain,hchain,rfl⟩))
  have hfile {chain : List String} (hchain : FileAt downloads entries chain) {name : String} :
      ∀ write ∈ downloadWrites ((joined chain).foldl push ("/" ++ name)), Inside [] ("/" ++ name) write.path :=
    fun write hwrite => (hconfined [] ("/" ++ name)).inside _ ((h.mem_writes _ _).mpr (.inr ⟨chain,hchain,hwrite⟩))
  have hstays {chain : List String} {name : String} (hname : Plain name) (hfresh : name ∉ steps chain)
      (hinside : Inside [] ("/" ++ name) ((joined chain).foldl push ("/" ++ name))) : Stays 0 (steps chain) := by
    rw [← h.steps_names] at hfresh ⊢
    exact stays_of_inside hname (hrelative hname (h.steps_names chain ▸ hfresh) hinside) hfresh hinside
  have hfiles {chain : List String} (hchain : FileAt downloads entries chain) :
      Stays 0 (steps chain) ∧ (∀ name ∈ joined chain, isAbsolute name = false) ∧
        ∃ step ∈ steps chain, step ≠ "." := by
    obtain ⟨name,hname,hfresh⟩ := exists_fresh (steps chain)
    have hinside := @hfile chain hchain name _ (file_mem_downloadWrites _)
    have hnames := hrelative hname hfresh hinside
    have hstep := step_of_inside hname hnames (hfile hchain)
    rw [h.steps_names] at hstep
    exact ⟨hstays hname hfresh hinside,hnames,hstep⟩
  constructor
  · intro chain hchain
    obtain ⟨name,hname,hfresh⟩ := exists_fresh (steps chain)
    exact hstays hname hfresh (hdirectory hchain)
  · exact fun chain hchain => ⟨(hfiles hchain).1,(hfiles hchain).2.2⟩
  · rintro rfl chain hchain
    have hsame : joined chain = chain := h.relative chain
    rw [← hsame]
    rcases hchain with hchain | hchain
    · obtain ⟨name,hname,hfresh⟩ := exists_fresh (steps chain)
      exact hrelative hname hfresh (hdirectory hchain)
    · exact (hfiles hchain).2.1
  · intro chain other hchain hother hremote hsame
    have hdistinct := (hconfined [] "/").distinct _ ((h.mem_files _ _).mpr ⟨chain,hchain,rfl⟩) _
      ((h.mem_files _ _).mpr ⟨other,hother,rfl⟩) hremote
    apply hdistinct
    have hlocate {chain : List String} (hchain : FileAt downloads entries chain) :=
      @locate_pushes_of_stays [] "/" (joined chain) (hfiles hchain).2.1 (by rw [h.steps_names]; exact (hfiles hchain).1)
    rw [hlocate hchain,hlocate hother,h.steps_names,h.steps_names,hsame]

theorem Traverses.confined (h : Traverses downloads replaces remote entries joined writes files)
    (htame : Tame downloads replaces remote entries) (cwd : Path) (target : String) :
    Confined cwd target (writes target) (files target) := by
  have hrelative {chain : List String} (hchain : DirectoryAt entries chain ∨ FileAt downloads entries chain) :
      ∀ name ∈ joined chain, isAbsolute name = false := by
    cases replaces with
    | false => exact h.relative chain
    | true =>
      have hsame : joined chain = chain := h.relative chain
      rw [hsame]
      exact htame.relative rfl chain hchain
  constructor
  · intro write hwrite
    rcases (h.mem_writes target write).mp hwrite with ⟨chain,hchain,rfl⟩ | ⟨chain,hchain,hwrite⟩
    · apply inside_pushes (hrelative (.inl hchain))
      rw [h.steps_names]
      exact htame.directories chain hchain
    · obtain ⟨hstays,hstep⟩ := htame.files chain hchain
      rw [← h.steps_names] at hstays hstep
      exact inside_downloadWrites (hrelative (.inr hchain)) hstays hstep write hwrite
  · intro file hfile other hother hremote
    obtain ⟨chain,hchain,rfl⟩ := (h.mem_files target file).mp hfile
    obtain ⟨last,hlast,rfl⟩ := (h.mem_files target other).mp hother
    have hlocate {chain : List String} (hchain : FileAt downloads entries chain) :=
      @locate_pushes_of_stays cwd target (joined chain) (hrelative (.inr hchain))
        (by rw [h.steps_names]; exact (htame.files chain hchain).1)
    rw [hlocate hchain,hlocate hlast,h.steps_names,h.steps_names]
    exact fun hsame => htame.distinct chain last hchain hlast hremote (append_cancel_left hsame)

/-! ### The plan of `download_directory_to_local_sftp` -/

theorem segments_joinRelativePath (parent name : String) :
    segments (joinRelativePath parent name) = segments parent ++ segments name := by
  rw [joinRelativePath]
  split_ifs with hempty
  · have hnil : segments "" = [] := pieces_nil
    rw [hempty,hnil,nil_append]
  · have hone : "/".toList = ['/'] := rfl
    rw [segments,String.toList_append,String.toList_append,hone,append_assoc,singleton_append,
      pieces_append_slash,segments,segments]

theorem segments_foldl_joinRelativePath (parent : String) (chain : List String) :
    segments (chain.foldl joinRelativePath parent) = segments parent ++ steps chain := by
  induction chain generalizing parent with
  | nil => exact (append_nil _).symm
  | cons name chain ih =>
    rw [foldl_cons,ih,segments_joinRelativePath,append_assoc]
    rfl

theorem foldl_joinRemoteEntry (place : String × String) (chain : List String) :
    chain.foldl joinRemoteEntry place = (chain.foldl entryPath place.1,chain.foldl joinRelativePath place.2) := by
  induction chain generalizing place with
  | nil => rfl
  | cons name chain ih => exact ih _

theorem localRelativePath_chain (target : String) (chain : List String) :
    localRelativePath target (chain.foldl joinRelativePath "") = (steps chain).foldl push target := by
  have hnil : segments "" = [] := pieces_nil
  rw [localRelativePath,segments_foldl_joinRelativePath,hnil,nil_append]

theorem unsplit_of_mem_steps {step : String} (h : step ∈ steps chain) : Unsplit step := by
  obtain ⟨name,-,hstep⟩ := mem_flatMap.mp h
  exact unsplit_of_mem_segments hstep

theorem steps_steps (chain : List String) : steps (steps chain) = steps chain := by
  have hsame : ∀ names : List String, (∀ name ∈ names, Unsplit name) → steps names = names := by
    intro names hnames
    induction names with
    | nil => rfl
    | cons name names ih =>
      obtain ⟨hname,hrest⟩ := forall_mem_cons.mp hnames
      rw [steps,flatMap_cons,hname.segments]
      exact congrArg (name :: ·) (ih hrest)
  exact hsame _ fun step hstep => unsplit_of_mem_steps hstep

/-- A file that is planned. -/
def isFile : RemoteEntry → Bool
  | .file _ _ => true
  | .other => false

def plannedFiles (plan : RemoteTransferPlan) (target : String) : List (String × String) :=
  plan.files.map fun file => (file.remotePath,localRelativePath target file.relativePath)

theorem buildRemoteTransferPlan_ok {rootPath : String} {plan : RemoteTransferPlan}
    (h : buildRemoteTransferPlan rootPath (.directory entries) = .ok plan) :
    (∀ relativePath, relativePath ∈ plan.directories ↔ ∃ chain name, DirectoryAt entries (chain ++ [name]) ∧
      relativePath = (chain ++ [name]).foldl joinRelativePath "") ∧
    ∀ remotePath relativePath, (∃ file ∈ plan.files, file.remotePath = remotePath ∧ file.relativePath = relativePath) ↔
      ∃ chain, FileAt isFile entries chain ∧ remotePath = chain.foldl entryPath (trimEndSlashes rootPath) ∧
        relativePath = chain.foldl joinRelativePath "" := by
  rw [buildRemoteTransferPlan] at h
  split_ifs at h
  cases h
  constructor
  · intro relativePath
    simp only [mem_mergeSort,mem_flatMap,mem_map]
    constructor
    · rintro ⟨directory,hdirectory,inner,hinner,rfl⟩
      obtain ⟨start,hstart,chain,hchain,hplace⟩ := mem_visited.mp hdirectory
      rw [mem_singleton.mp hstart] at hchain hplace
      obtain ⟨name,below,hmem,rfl⟩ := mem_subdirectories.mp hinner
      refine ⟨chain,name,⟨below,Leads.concat_iff.mpr ⟨_,hchain,hmem⟩⟩,?_⟩
      rw [hplace,foldl_joinRemoteEntry,foldl_append]
      rfl
    · rintro ⟨chain,name,⟨below,hbelow⟩,rfl⟩
      obtain ⟨inner,hinner,hmem⟩ := Leads.concat_iff.mp hbelow
      refine ⟨(chain.foldl joinRemoteEntry (trimEndSlashes rootPath,""),inner),?_,_,
        mem_subdirectories.mpr ⟨name,below,hmem,rfl⟩,?_⟩
      · exact mem_visited.mpr ⟨_,mem_singleton_self _,chain,hinner,rfl⟩
      · rw [foldl_joinRemoteEntry,foldl_append]
        rfl
  · intro remotePath relativePath
    simp only [mem_mergeSort,mem_flatMap,mem_filterMap]
    constructor
    · rintro ⟨file,⟨directory,hdirectory,leaf,hleaf,hfile⟩,rfl,rfl⟩
      obtain ⟨start,hstart,chain,hchain,hplace⟩ := mem_visited.mp hdirectory
      rw [mem_singleton.mp hstart] at hchain hplace
      obtain ⟨name,node,hmem,rfl⟩ := mem_leaves.mp hleaf
      cases node with
      | other => cases hfile
      | file size content =>
        cases hfile
        refine ⟨chain ++ [name],⟨chain,name,_,_,rfl,hchain,hmem,rfl⟩,?_,?_⟩
        · rw [hplace,foldl_joinRemoteEntry,foldl_append]
          rfl
        · rw [hplace,foldl_joinRemoteEntry,foldl_append]
          rfl
    · rintro ⟨_,⟨chain,name,inner,node,rfl,hinner,hmem,hnode⟩,rfl,rfl⟩
      cases node with
      | other => cases hnode
      | file size content =>
        refine ⟨_,⟨(chain.foldl joinRemoteEntry (trimEndSlashes rootPath,""),inner),?_,_,
          mem_leaves.mpr ⟨name,_,hmem,rfl⟩,rfl⟩,?_,?_⟩
        · exact mem_visited.mpr ⟨_,mem_singleton_self _,chain,hinner,rfl⟩
        · rw [foldl_joinRemoteEntry,foldl_append]
          rfl
        · rw [foldl_joinRemoteEntry,foldl_append]
          rfl

theorem traverses_plan {rootPath : String} {plan : RemoteTransferPlan}
    (h : buildRemoteTransferPlan rootPath (.directory entries) = .ok plan) :
    Traverses isFile false (fun chain => chain.foldl entryPath (trimEndSlashes rootPath)) entries steps
      (fun target => directoryWrites target plan) (plannedFiles plan) where
  steps_names := steps_steps
  relative chain _ hname := (unsplit_of_mem_steps hname).isAbsolute
  mem_writes target write := by
    obtain ⟨hdirectories,hfiles⟩ := buildRemoteTransferPlan_ok h
    rw [directoryWrites,cons_append,mem_cons,mem_append,mem_map,mem_flatMap,← or_assoc]
    apply or_congr
    · constructor
      · rintro (rfl | ⟨relativePath,hmem,rfl⟩)
        · exact ⟨[],⟨entries,.here⟩,rfl⟩
        · obtain ⟨chain,name,hchain,rfl⟩ := (hdirectories relativePath).mp hmem
          exact ⟨_,hchain,congrArg Write.directory (localRelativePath_chain target _)⟩
      · rintro ⟨chain,hchain,rfl⟩
        rcases eq_nil_or_concat chain with rfl | ⟨front,name,rfl⟩
        · exact .inl rfl
        · rw [concat_eq_append] at hchain ⊢
          refine .inr ⟨_,(hdirectories _).mpr ⟨front,name,hchain,rfl⟩,?_⟩
          exact congrArg Write.directory (localRelativePath_chain target _)
    · constructor
      · rintro ⟨file,hmem,hwrite⟩
        obtain ⟨chain,hchain,-,hrelative⟩ := (hfiles _ _).mp ⟨file,hmem,rfl,rfl⟩
        rw [hrelative,localRelativePath_chain] at hwrite
        exact ⟨chain,hchain,hwrite⟩
      · rintro ⟨chain,hchain,hwrite⟩
        obtain ⟨file,hmem,-,hrelative⟩ := (hfiles _ _).mpr ⟨chain,hchain,rfl,rfl⟩
        refine ⟨file,hmem,?_⟩
        rwa [hrelative,localRelativePath_chain]
  mem_files target file := by
    obtain ⟨-,hfiles⟩ := buildRemoteTransferPlan_ok h
    rw [plannedFiles,mem_map]
    constructor
    · rintro ⟨planned,hmem,rfl⟩
      obtain ⟨chain,hchain,hremote,hrelative⟩ := (hfiles _ _).mp ⟨planned,hmem,rfl,rfl⟩
      exact ⟨chain,hchain,by rw [hremote,hrelative,localRelativePath_chain]⟩
    · rintro ⟨chain,hchain,rfl⟩
      obtain ⟨planned,hmem,hremote,hrelative⟩ := (hfiles _ _).mpr ⟨chain,hchain,rfl,rfl⟩
      exact ⟨planned,hmem,by rw [hremote,hrelative,localRelativePath_chain]⟩

/-! ### The traversal of `download_directory_inner` -/

theorem foldl_joinMcpEntry (place : String × String) (chain : List String) :
    chain.foldl joinMcpEntry place =
      (chain.foldl (fun remote name => trimEndSlashes remote ++ "/" ++ name) place.1,chain.foldl push place.2) := by
  induction chain generalizing place with
  | nil => rfl
  | cons name chain ih => exact ih _

theorem mem_mcpVisited {remotePath target : String} {directory : (String × String) × Entries RemoteEntry} :
    directory ∈ mcpVisited remotePath target entries ↔ ∃ chain, Leads entries chain directory.2 ∧
      directory.1 = (chain.foldl (fun remote name => trimEndSlashes remote ++ "/" ++ name) remotePath,
        chain.foldl push target) := by
  rw [mcpVisited,mem_visited]
  constructor
  · rintro ⟨start,hstart,chain,hchain,hplace⟩
    rw [mem_singleton.mp hstart] at hchain hplace
    exact ⟨chain,hchain,by rw [hplace,foldl_joinMcpEntry]⟩
  · rintro ⟨chain,hchain,hplace⟩
    exact ⟨_,mem_singleton_self _,chain,hchain,by rw [hplace,foldl_joinMcpEntry]⟩

theorem mem_mcpFiles {remotePath target : String} {file : String × String} :
    (∃ directory ∈ mcpVisited remotePath target entries, file ∈ mcpFiles directory) ↔
      ∃ chain, FileAt (fun _ => true) entries chain ∧
        file = (chain.foldl (fun remote name => trimEndSlashes remote ++ "/" ++ name) remotePath,
          chain.foldl push target) := by
  constructor
  · rintro ⟨directory,hdirectory,hfile⟩
    obtain ⟨chain,hchain,hplace⟩ := mem_mcpVisited.mp hdirectory
    obtain ⟨leaf,hleaf,rfl⟩ := mem_map.mp hfile
    obtain ⟨name,node,hmem,rfl⟩ := mem_leaves.mp hleaf
    refine ⟨chain ++ [name],⟨chain,name,_,node,rfl,hchain,hmem,rfl⟩,?_⟩
    rw [hplace,foldl_append,foldl_append]
    rfl
  · rintro ⟨_,⟨chain,name,inner,node,rfl,hinner,hmem,-⟩,rfl⟩
    refine ⟨(_,inner),mem_mcpVisited.mpr ⟨chain,hinner,rfl⟩,mem_map.mpr
      ⟨_,mem_leaves.mpr ⟨name,node,hmem,rfl⟩,?_⟩⟩
    rw [foldl_append,foldl_append]
    rfl

theorem traverses_mcp (remotePath : String) (entries : Entries RemoteEntry) :
    Traverses (fun _ => true) true
      (fun chain => chain.foldl (fun remote name => trimEndSlashes remote ++ "/" ++ name) remotePath) entries id
      (fun target => mcpWrites remotePath target entries)
      (fun target => (mcpVisited remotePath target entries).flatMap mcpFiles) where
  steps_names _ := rfl
  relative _ := rfl
  mem_writes target write := by
    rw [mcpWrites,mem_flatMap]
    constructor
    · rintro ⟨directory,hdirectory,hwrite⟩
      rcases mem_cons.mp hwrite with rfl | hwrite
      · obtain ⟨chain,hchain,hplace⟩ := mem_mcpVisited.mp hdirectory
        exact .inl ⟨chain,⟨_,hchain⟩,by rw [hplace]; rfl⟩
      · obtain ⟨file,hfile,hwrite⟩ := mem_flatMap.mp hwrite
        obtain ⟨chain,hchain,rfl⟩ := mem_mcpFiles.mp ⟨directory,hdirectory,hfile⟩
        exact .inr ⟨chain,hchain,hwrite⟩
    · rintro (⟨chain,⟨inner,hinner⟩,rfl⟩ | ⟨chain,hchain,hwrite⟩)
      · exact ⟨(_,inner),mem_mcpVisited.mpr ⟨chain,hinner,rfl⟩,mem_cons_self⟩
      · obtain ⟨directory,hdirectory,hfile⟩ := mem_mcpFiles.mpr ⟨chain,hchain,rfl⟩
        exact ⟨directory,hdirectory,mem_cons_of_mem _ (mem_flatMap.mpr ⟨_,hfile,hwrite⟩)⟩
  mem_files target file := by
    rw [mem_flatMap]
    exact mem_mcpFiles

theorem stays_of_plain (h : ∀ name ∈ names, Plain name) (depth : ℕ) : Stays depth names := by
  induction names generalizing depth with
  | nil => trivial
  | cons name names ih =>
    obtain ⟨hname,hnames⟩ := forall_mem_cons.mp h
    rw [Stays,if_neg hname.ne_dot,if_neg hname.ne_dots]
    exact ih hnames _

theorem steps_of_plain (h : ∀ name ∈ names, Plain name) : steps names = names := by
  induction names with
  | nil => rfl
  | cons name names ih =>
    obtain ⟨hname,hnames⟩ := forall_mem_cons.mp h
    rw [steps,flatMap_cons,segments,pieces_plain hname]
    exact congrArg (name :: ·) (ih hnames)

/-- Names of one step are tame. -/
theorem tame_of_plain (downloads : RemoteEntry → Bool) (replaces : Bool) (remote : List String → String)
    (h : ∀ chain, DirectoryAt entries chain ∨ FileAt downloads entries chain → ∀ name ∈ chain, Plain name) :
    Tame downloads replaces remote entries := by
  constructor
  · intro chain hchain
    have hplain := h chain (.inl hchain)
    rw [steps_of_plain hplain]
    exact stays_of_plain hplain 0
  · intro chain hchain
    have hplain := h chain (.inr hchain)
    rw [steps_of_plain hplain]
    obtain ⟨front,name,-,-,rfl,-⟩ := hchain
    have hname : name ∈ front ++ [name] := mem_append_right _ (mem_singleton_self _)
    exact ⟨stays_of_plain hplain 0,name,hname,(hplain name hname).ne_dot⟩
  · intro _ chain hchain name hname
    exact Unsplit.isAbsolute ⟨(h chain hchain name hname).no_slash,(h chain hchain name hname).nonempty⟩
  · intro chain other hchain hother hremote hsame
    have hplain := h chain (.inr hchain)
    have hplain' := h other (.inr hother)
    rw [steps_of_plain hplain,steps_of_plain hplain',foldl_enter_plain hplain,foldl_enter_plain hplain'] at hsame
    exact hremote (congrArg remote hsame)

/-- A directory with a file in it. -/
def plainListing : Entries RemoteEntry := [("src",.directory [("main",.leaf (.file 1 [7]))])]

theorem plain_plainListing (downloads : RemoteEntry → Bool) (chain : List String)
    (h : DirectoryAt plainListing chain ∨ FileAt downloads plainListing chain) : ∀ name ∈ chain, Plain name := by
  have hleads {chain : List String} {inner : Entries RemoteEntry} (h : Leads plainListing chain inner) :
      (chain = [] ∧ inner = plainListing) ∨ (chain = ["src"] ∧ inner = [("main",.leaf (.file 1 [7]))]) := by
    cases h with
    | here => exact .inl ⟨rfl,rfl⟩
    | down hmem hrest =>
      cases mem_singleton.mp hmem
      cases hrest with
      | here => exact .inr ⟨rfl,rfl⟩
      | down hmem => exact nomatch mem_singleton.mp hmem
  have hnames : ∀ name ∈ ["src","main"], Plain name := by decide
  intro name hname
  apply hnames
  rcases h with ⟨inner,hinner⟩ | ⟨front,last,inner,node,rfl,hinner,hmem,-⟩
  · rcases hleads hinner with ⟨rfl,-⟩ | ⟨rfl,-⟩
    · exact absurd hname not_mem_nil
    · rw [mem_singleton.mp hname]
      exact mem_cons_self
  · rcases hleads hinner with ⟨rfl,rfl⟩ | ⟨rfl,rfl⟩
    · exact nomatch mem_singleton.mp hmem
    · cases mem_singleton.mp hmem
      exact hname

theorem exists_plan (entries : Entries RemoteEntry) (rootPath : String)
    (h : (((visited joinRemoteEntry queue [((trimEndSlashes rootPath,""),entries)]).flatMap fun directory =>
      (leaves joinRemoteEntry directory.1 directory.2).filterMap remoteTransferFile).map
        RemoteTransferFile.size).sum < 2 ^ 64) :
    ∃ plan, buildRemoteTransferPlan rootPath (.directory entries) = .ok plan := by
  exact ⟨_,if_pos h⟩

end Mxterm.SftpTransfers
