import Mxterm.FileTrees
import Mxterm.SlashPaths

/-! Trees with symbolic links, and paths that are followed through a bounded number of them. -/
namespace Mxterm.LinkedTrees

open FileTrees SlashPaths List Function

inductive Entry
  | file (content : Bytes)
  | directory
  | link (target : String)
  deriving DecidableEq

/-- A finite tree: what is there stands in a directory, under a name of one step. -/
structure LinkTree where
  entry : Path → Option Entry
  paths : List Path
  covers : ∀ p, entry p ≠ none → p ∈ paths
  root : entry [] = some .directory
  closed : ∀ p name, entry (p ++ [name]) ≠ none → entry p = some .directory
  plain : ∀ p name, entry (p ++ [name]) ≠ none → Plain name

/-- Where a path begins that is followed from `p`. An empty one leads nowhere. -/
def origin (p : Path) (path : String) : Option Path :=
  if isAbsolute path then some []
  else if segments path = [] then none
  else some p

namespace LinkTree

variable {t t' : LinkTree} {p q r : Path} {name : String} {budget left : ℕ}

def names (t : LinkTree) (p : Path) : List String := namesIn t.paths (fun q => t.entry q ≠ none) p

theorem mem_names : name ∈ t.names p ↔ t.entry (p ++ [name]) ≠ none := mem_namesIn t.covers

theorem directory_of_child (h : t.entry (p ++ [name]) ≠ none) : t.entry p = some .directory := t.closed p name h

theorem ne_none_of_prefix (h : t.entry q ≠ none) (hpq : p <+: q) : t.entry p ≠ none := by
  obtain ⟨rest,rfl⟩ := hpq
  induction rest using List.reverseRecOn with
  | nil => rwa [append_nil] at h
  | append_singleton rest name ih =>
    rw [← append_assoc] at h
    apply ih
    rw [directory_of_child h]
    exact nofun

theorem directory_dropLast (h : t.entry p = some .directory) : t.entry p.dropLast = some .directory := by
  by_cases hp : p = []
  · rw [hp]
    exact t.root
  · rw [← dropLast_append_getLast hp] at h
    exact directory_of_child (by rw [h]; exact nofun)

/-- Take away what has nothing below it. -/
def cut (t : LinkTree) (p : Path) (hp : p ≠ []) (hchildren : t.names p = []) : LinkTree where
  entry := Function.update t.entry p none
  paths := t.paths
  covers r hr := by
    by_cases hrp : r = p
    · exact absurd (by rw [hrp,update_self]) hr
    · rw [update_of_ne hrp] at hr
      exact t.covers r hr
  root := (update_of_ne hp.symm ..).trans t.root
  closed r name hr := by
    have hchild : t.entry (r ++ [name]) ≠ none := by
      by_cases heq : r ++ [name] = p
      · rw [heq,update_self] at hr
        exact absurd rfl hr
      · rwa [update_of_ne heq] at hr
    have hrp : r ≠ p := by
      rintro rfl
      rw [← mem_names,hchildren] at hchild
      exact not_mem_nil hchild
    rw [update_of_ne hrp]
    exact t.closed r name hchild
  plain r name hr := by
    by_cases heq : r ++ [name] = p
    · rw [heq,update_self] at hr
      exact absurd rfl hr
    · rw [update_of_ne heq] at hr
      exact t.plain r name hr

/-- Nothing is removed that has something below it. -/
def remove (t : LinkTree) (p : Path) : Except FileError LinkTree :=
  if h : p ≠ [] ∧ t.entry p ≠ none ∧ t.names p = [] then .ok (t.cut p h.1 h.2.2) else .error .other

theorem remove_ok (h : t.remove p = .ok t') :
    t'.entry = Function.update t.entry p none ∧ t.names p = [] := by
  rw [remove] at h
  split_ifs at h with hp
  cases h
  exact ⟨rfl,hp.2.2⟩

theorem exists_remove (hp : p ≠ []) (hentry : t.entry p ≠ none) (hnames : t.names p = []) :
    ∃ t', t.remove p = .ok t' ∧ t'.entry = Function.update t.entry p none :=
  ⟨t.cut p hp hnames,dif_pos ⟨hp,hentry,hnames⟩,rfl⟩

theorem names_of_ne_directory (h : t.entry p ≠ some .directory) : t.names p = [] := by
  apply eq_nil_iff_forall_not_mem.mpr
  intro name hname
  exact h (directory_of_child (mem_names.mp hname))

/-- What is left of a tree after removals. -/
def RemainsOf (t' t : LinkTree) : Prop := ∀ p, t'.entry p = t.entry p ∨ t'.entry p = none

theorem RemainsOf.refl (t : LinkTree) : t.RemainsOf t := fun _ => .inl rfl

theorem RemainsOf.trans {t₁ t₂ t₃ : LinkTree} (h : t₁.RemainsOf t₂) (h' : t₂.RemainsOf t₃) : t₁.RemainsOf t₃ := by
  intro p
  rcases h p with heq | hnone
  · rw [heq]
    exact h' p
  · exact .inr hnone

theorem RemainsOf.entry (h : t'.RemainsOf t) {entry : Entry} (hentry : t'.entry p = some entry) :
    t.entry p = some entry := by
  rcases h p with heq | hnone
  · rw [← heq,hentry]
  · rw [hnone] at hentry
    cases hentry

theorem RemainsOf.ne_none (h : t'.RemainsOf t) (hp : t'.entry p ≠ none) : t.entry p ≠ none := by
  rcases h p with heq | hnone
  · rwa [← heq]
  · exact absurd hnone hp

theorem remainsOf_update (h : t'.entry = Function.update t.entry p none) : t'.RemainsOf t := by
  intro q
  rw [h]
  by_cases hq : q = p
  · exact .inr (by rw [hq,update_self])
  · exact .inl (update_of_ne hq ..)

/-! ## Trees from lists -/

def listedEntry (entries : List (Path × Entry)) (p : Path) : Option Entry :=
  if p = [] then some .directory else entries.lookup p

/-- A list of entries with the directories in which they stand. -/
def Complete (entries : List (Path × Entry)) : Prop :=
  ∀ listed ∈ entries, listedEntry entries listed.1.dropLast = some .directory ∧ Plain (listed.1.getLastD "")

instance (entries : List (Path × Entry)) : Decidable (Complete entries) := by
  unfold Complete
  infer_instance

theorem mem_of_listedEntry {entries : List (Path × Entry)} (h : listedEntry entries p ≠ none) (hp : p ≠ []) :
    ∃ entry, (p,entry) ∈ entries := by
  rw [listedEntry,if_neg hp] at h
  obtain ⟨entry,hentry⟩ := Option.ne_none_iff_exists'.mp h
  obtain ⟨front,back,hentries,-⟩ := lookup_eq_some_iff.mp hentry
  exact ⟨entry,hentries ▸ mem_append_right _ mem_cons_self⟩

theorem Complete.parent {entries : List (Path × Entry)} (h : Complete entries)
    (hentry : listedEntry entries (p ++ [name]) ≠ none) : listedEntry entries p = some .directory ∧ Plain name := by
  obtain ⟨entry,hmem⟩ := mem_of_listedEntry hentry (by simp)
  have hparent := h _ hmem
  rwa [dropLast_concat,getLastD_concat] at hparent

def ofList (entries : List (Path × Entry)) (h : Complete entries) : LinkTree where
  entry := listedEntry entries
  paths := [] :: entries.map Prod.fst
  covers p hp := by
    by_cases hnil : p = []
    · exact hnil ▸ mem_cons_self
    · obtain ⟨entry,hmem⟩ := mem_of_listedEntry hp hnil
      exact mem_cons_of_mem _ (mem_map.mpr ⟨_,hmem,rfl⟩)
  root := if_pos rfl
  closed _ _ hentry := (h.parent hentry).1
  plain _ _ hentry := (h.parent hentry).2

/-! ## Following a path -/

/-- Follow names until a link is met, and then `follow`. -/
def walkNames (t : LinkTree) (follow : Path → String → List String → Option (Path × ℕ)) (budget : ℕ) :
    Path → List String → Option (Path × ℕ)
  | p, [] => some (p,budget)
  | p, name :: names =>
    if t.entry p ≠ some .directory then none
    else if name = "." then t.walkNames follow budget p names
    else if name = ".." then t.walkNames follow budget p.dropLast names
    else
      match t.entry (p ++ [name]) with
      | none => none
      | some (.link target) => follow p target names
      | some _ => t.walkNames follow budget (p ++ [name]) names

/-- Follow names from `p`, through at most `budget` links: where they lead, and how many links are left. -/
def walk (t : LinkTree) : ℕ → Path → List String → Option (Path × ℕ)
  | 0 => t.walkNames (fun _ _ _ => none) 0
  | budget + 1 => t.walkNames (fun p target names =>
      match origin p target with
      | some q => t.walk budget q (segments target ++ names)
      | none => none) (budget + 1)

/-- The steps of a walk that succeeds. -/
inductive Walks (t : LinkTree) : ℕ → Path → List String → Path → ℕ → Prop
  | stop {budget : ℕ} {p : Path} : Walks t budget p [] p budget
  | dot {budget left : ℕ} {p r : Path} {names : List String} :
      t.entry p = some .directory → Walks t budget p names r left → Walks t budget p ("." :: names) r left
  | dots {budget left : ℕ} {p r : Path} {names : List String} :
      t.entry p = some .directory → Walks t budget p.dropLast names r left → Walks t budget p (".." :: names) r left
  | down {budget left : ℕ} {p r : Path} {name : String} {names : List String} {entry : Entry} :
      t.entry (p ++ [name]) = some entry → (∀ target, entry ≠ .link target) →
      Walks t budget (p ++ [name]) names r left → Walks t budget p (name :: names) r left
  | link {budget left : ℕ} {p q r : Path} {name target : String} {names : List String} :
      t.entry (p ++ [name]) = some (.link target) → origin p target = some q →
      Walks t budget q (segments target ++ names) r left → Walks t (budget + 1) p (name :: names) r left

variable {below rest : List String}

/-- Names that are there are those of one step. -/
theorem walkNames_present {follow : Path → String → List String → Option (Path × ℕ)}
    (h : t.entry (p ++ [name]) ≠ none) : t.walkNames follow budget p (name :: below) =
      match t.entry (p ++ [name]) with
      | none => none
      | some (.link target) => follow p target below
      | some _ => t.walkNames follow budget (p ++ [name]) below := by
  have hplain := t.plain p name h
  rw [walkNames,if_neg (not_not_intro (directory_of_child h)),if_neg hplain.ne_dot,if_neg hplain.ne_dots]

theorem walks_of_walkNames {follow : Path → String → List String → Option (Path × ℕ)}
    (hfollow : ∀ p name names target, t.entry (p ++ [name]) = some (.link target) →
      follow p target names = some (r,left) → Walks t budget p (name :: names) r left)
    (h : t.walkNames follow budget p below = some (r,left)) : Walks t budget p below r left := by
  induction below generalizing p with
  | nil =>
    cases h
    exact .stop
  | cons name names ih =>
    rw [walkNames] at h
    split_ifs at h with hdirectory hdot hdots
    · subst hdot
      exact .dot (not_not.mp hdirectory) (ih h)
    · subst hdots
      exact .dots (not_not.mp hdirectory) (ih h)
    · split at h
      · cases h
      · exact hfollow p name names _ ‹_› h
      · rename_i entry hentry hlink
        exact .down hlink hentry (ih h)

theorem walk_iff : t.walk budget p below = some (r,left) ↔ Walks t budget p below r left := by
  constructor
  · induction budget generalizing p below with
    | zero => exact walks_of_walkNames fun _ _ _ _ _ h => nomatch h
    | succ budget ih =>
      apply walks_of_walkNames
      intro p name names target hlink h
      split at h
      · exact .link hlink ‹_› (ih h)
      · cases h
  · intro h
    induction h with
    | @stop budget p => cases budget <;> rfl
    | @dot budget left p r names hdirectory _ ih =>
      cases budget <;> rw [walk,walkNames,if_neg (not_not_intro hdirectory)] <;> exact ih
    | @dots budget left p r names hdirectory _ ih =>
      cases budget <;>
        rw [walk,walkNames,if_neg (not_not_intro hdirectory)] <;> exact ih
    | @down budget left p r name names entry hentry hlink _ ih =>
      have hpresent : t.entry (p ++ [name]) ≠ none := by rw [hentry]; exact nofun
      cases budget <;> rw [walk,walkNames_present hpresent,hentry] <;> cases entry <;>
        first
        | exact ih
        | exact absurd rfl (hlink _)
    | @link budget left p q r name target names hlink horigin _ ih =>
      have hpresent : t.entry (p ++ [name]) ≠ none := by rw [hlink]; exact nofun
      rw [walk,walkNames_present hpresent,hlink]
      simp only [horigin]
      exact ih

namespace Walks

theorem append_iff : Walks t budget p (below ++ rest) r left ↔
    ∃ q between, Walks t budget p below q between ∧ Walks t between q rest r left := by
  constructor
  · intro h
    generalize hall : below ++ rest = all at h
    induction h generalizing below with
    | stop =>
      obtain ⟨rfl,rfl⟩ := append_eq_nil_iff.mp hall
      exact ⟨_,_,.stop,.stop⟩
    | dot hdirectory hwalk ih =>
      rcases append_eq_cons_iff.mp hall with ⟨rfl,rfl⟩ | ⟨below,rfl,rfl⟩
      · exact ⟨_,_,.stop,.dot hdirectory hwalk⟩
      · obtain ⟨q,between,hq,hr⟩ := ih rfl
        exact ⟨q,between,.dot hdirectory hq,hr⟩
    | dots hdirectory hwalk ih =>
      rcases append_eq_cons_iff.mp hall with ⟨rfl,rfl⟩ | ⟨below,rfl,rfl⟩
      · exact ⟨_,_,.stop,.dots hdirectory hwalk⟩
      · obtain ⟨q,between,hq,hr⟩ := ih rfl
        exact ⟨q,between,.dots hdirectory hq,hr⟩
    | down hentry hlink hwalk ih =>
      rcases append_eq_cons_iff.mp hall with ⟨rfl,rfl⟩ | ⟨below,rfl,rfl⟩
      · exact ⟨_,_,.stop,.down hentry hlink hwalk⟩
      · obtain ⟨q,between,hq,hr⟩ := ih rfl
        exact ⟨q,between,.down hentry hlink hq,hr⟩
    | link hlink horigin hwalk ih =>
      rcases append_eq_cons_iff.mp hall with ⟨rfl,rfl⟩ | ⟨below,rfl,rfl⟩
      · exact ⟨_,_,.stop,.link hlink horigin hwalk⟩
      · obtain ⟨q,between,hq,hr⟩ := ih (append_assoc ..)
        exact ⟨q,between,.link hlink horigin hq,hr⟩
  · rintro ⟨q,between,hq,hr⟩
    induction hq with
    | stop => exact hr
    | dot hdirectory _ ih => exact .dot hdirectory (ih hr)
    | dots hdirectory _ ih => exact .dots hdirectory (ih hr)
    | down hentry hlink _ ih => exact .down hentry hlink (ih hr)
    | link hlink horigin _ ih =>
      have hrest := ih hr
      rw [append_assoc] at hrest
      exact .link hlink horigin hrest

/-- What can be followed in the rest of a tree leads where it led. -/
theorem mono (hrest : t'.RemainsOf t) (h : Walks t' budget p below r left) : Walks t budget p below r left := by
  induction h with
  | stop => exact .stop
  | dot hdirectory _ ih => exact .dot (hrest.entry hdirectory) ih
  | dots hdirectory _ ih => exact .dots (hrest.entry hdirectory) ih
  | down hentry hlink _ ih => exact .down (hrest.entry hentry) hlink ih
  | link hlink horigin _ ih => exact .link (hrest.entry hlink) horigin ih

theorem left_le (h : Walks t budget p below r left) : left ≤ budget := by
  induction h with
  | stop => exact Nat.le_refl _
  | dot _ _ ih => exact ih
  | dots _ _ ih => exact ih
  | down _ _ _ ih => exact ih
  | link _ _ _ ih => exact Nat.le_succ_of_le ih

theorem add (h : Walks t budget p below r left) (more : ℕ) : Walks t (budget + more) p below r (left + more) := by
  induction h with
  | stop => exact .stop
  | dot hdirectory _ ih => exact .dot hdirectory ih
  | dots hdirectory _ ih => exact .dots hdirectory ih
  | down hentry hlink _ ih => exact .down hentry hlink ih
  | link hlink horigin _ ih =>
    rw [Nat.succ_add]
    exact .link hlink horigin ih

/-- Where names lead does not depend on the number of links that is left, as long as it is enough. -/
theorem unique {budget' left' : ℕ} {r' : Path} (h : Walks t budget p below r left)
    (h' : Walks t budget' p below r' left') : r = r' := by
  have hsame := walk_iff.mpr (h.add budget')
  rw [Nat.add_comm budget,walk_iff.mpr (h'.add budget)] at hsame
  exact (congrArg Prod.fst (Option.some.inj hsame)).symm

theorem of_nil (h : Walks t budget p [] r left) : r = p ∧ left = budget := by
  cases h
  exact ⟨rfl,rfl⟩

/-- One step leads to the entry, or through a link. -/
theorem step (h : Walks t budget p [name] r left) (hplain : Plain name) :
    t.entry (p ++ [name]) ≠ none ∧ ((r = p ++ [name] ∧ left = budget) ∨
      (left < budget ∧ ∃ target, t.entry (p ++ [name]) = some (.link target))) := by
  cases h with
  | dot => exact absurd rfl hplain.ne_dot
  | dots => exact absurd rfl hplain.ne_dots
  | down hentry _ hrest =>
    cases hrest
    exact ⟨by rw [hentry]; exact nofun,.inl ⟨rfl,rfl⟩⟩
  | link hlink _ hrest => exact ⟨by rw [hlink]; exact nofun,.inr ⟨Nat.lt_succ_of_le hrest.left_le,_,hlink⟩⟩

end Walks

end LinkTree

/-! ## Paths of a host -/

/-- How many links a path may follow, where a relative one begins, and whether a link that leads to a directory can be
removed as one. -/
structure Host where
  limit : ℕ
  home : Path
  removesLinks : Bool

/-- The last step of a path is one to a name. -/
def endsInName (path : String) : Bool :=
  match (segments path).getLast? with
  | some name => name ≠ "." ∧ name ≠ ".."
  | none => false

variable {path name : String} {p q : Path}

theorem origin_entryPath (h : origin p path = some q) (hname : Plain name) :
    origin p (entryPath path name) = some q := by
  have hne : path ≠ "" := by
    rintro rfl
    cases h
  rw [origin,isAbsolute_entryPath hne,segments_entryPath path hname]
  rw [origin] at h
  split_ifs at h with habsolute
  · rw [if_pos habsolute,h]
  · rw [if_neg habsolute,if_neg (by simp),h]

theorem origin_of_no_segments (h : origin p path = some q) (hnil : segments path = []) : q = [] := by
  rw [origin] at h
  split_ifs at h
  exact (Option.some.inj h).symm

theorem endsInName_entryPath (path : String) (h : Plain name) : endsInName (entryPath path name) = true := by
  rw [endsInName,segments_entryPath path h,getLast?_concat]
  exact decide_eq_true ⟨h.ne_dot,h.ne_dots⟩

/-- The last step of a path, which leads beside what stands there. -/
def lastStep (p : Path) (path : String) : Path :=
  match (segments path).getLast? with
  | some name => enter p name
  | none => p

namespace Host

variable {host : Host} {t t' : LinkTree}

def follow (host : Host) (t : LinkTree) (path : String) : Option (Path × ℕ) :=
  match origin host.home path with
  | some p => t.walk host.limit p (segments path)
  | none => none

def stat (host : Host) (t : LinkTree) (path : String) : Option Entry :=
  match host.follow t path with
  | some (q,_) => t.entry q
  | none => none

/-- The real location of what a path names: the last name is not followed. -/
def place (host : Host) (t : LinkTree) (path : String) : Option Path :=
  match origin host.home path with
  | some p =>
    match t.walk host.limit p (segments path).dropLast with
    | some (q,_) => some (lastStep q path)
    | none => none
  | none => none

def isDirectory (host : Host) (t : LinkTree) (path : String) : Except FileError Bool :=
  match host.stat t path with
  | some entry => .ok (entry = .directory)
  | none => .error .missing

/-- The names in a directory, in the order in which the host lists them. -/
def entries (host : Host) (arrange : List String → List String) (t : LinkTree) (path : String) :
    Except FileError (List String) :=
  match host.follow t path with
  | some (q,_) =>
    if t.entry q = some .directory then .ok ((arrange (t.names q)).map (entryPath path)) else .error .other
  | none => .error .missing

def removeFile (host : Host) (t : LinkTree) (path : String) : Except FileError LinkTree :=
  match host.place t path with
  | some q => if endsInName path ∧ t.entry q ≠ some .directory then t.remove q else .error .other
  | none => .error .missing

def removeDirectory (host : Host) (t : LinkTree) (path : String) : Except FileError LinkTree :=
  match host.place t path with
  | some q =>
    if endsInName path ∧ (t.entry q = some .directory ∨ host.removesLinks ∧ host.stat t path = some .directory) then
      t.remove q
    else .error .other
  | none => .error .missing

/-! ### What they do -/

variable {r : Path} {left : ℕ}

theorem follow_iff : host.follow t path = some (r,left) ↔
    ∃ p, origin host.home path = some p ∧ t.Walks host.limit p (segments path) r left := by
  rw [follow]
  split
  · rename_i p horigin
    rw [LinkTree.walk_iff,horigin]
    simp
  · rename_i horigin
    rw [horigin]
    simp

variable {entry : Entry}

theorem stat_iff : host.stat t path = some entry ↔
    ∃ r left, host.follow t path = some (r,left) ∧ t.entry r = some entry := by
  rw [stat]
  split
  · rename_i r left hfollow
    rw [hfollow]
    simp
  · rename_i hfollow
    rw [hfollow]
    simp

theorem place_iff : host.place t path = some q ↔ ∃ p s left, origin host.home path = some p ∧
    t.Walks host.limit p (segments path).dropLast s left ∧ q = lastStep s path := by
  rw [place]
  split
  · rename_i p horigin
    split
    · rename_i s left hwalk
      constructor
      · intro h
        exact ⟨p,s,left,horigin,LinkTree.walk_iff.mp hwalk,(Option.some.inj h).symm⟩
      · rintro ⟨p',s',left',horigin',hwalk',rfl⟩
        cases horigin.symm.trans horigin'
        rw [(LinkTree.walk_iff.mp hwalk).unique hwalk']
    · rename_i hwalk
      refine ⟨nofun,?_⟩
      rintro ⟨p',s',left',horigin',hwalk',-⟩
      cases horigin.symm.trans horigin'
      rw [LinkTree.walk_iff.mpr hwalk'] at hwalk
      cases hwalk
  · rename_i horigin
    rw [horigin]
    simp

theorem follow_mono (hrest : t'.RemainsOf t) (h : host.follow t' path = some (r,left)) :
    host.follow t path = some (r,left) := by
  obtain ⟨p,horigin,hwalk⟩ := follow_iff.mp h
  exact follow_iff.mpr ⟨p,horigin,hwalk.mono hrest⟩

theorem stat_mono (hrest : t'.RemainsOf t) (h : host.stat t' path = some entry) : host.stat t path = some entry := by
  obtain ⟨r,left,hfollow,hentry⟩ := stat_iff.mp h
  exact stat_iff.mpr ⟨r,left,follow_mono hrest hfollow,hrest.entry hentry⟩

theorem place_mono (hrest : t'.RemainsOf t) (h : host.place t' path = some q) : host.place t path = some q := by
  obtain ⟨p,s,left,horigin,hwalk,hq⟩ := place_iff.mp h
  exact place_iff.mpr ⟨p,s,left,horigin,hwalk.mono hrest,hq⟩

/-- The steps of a path that can be followed: those up to its last name, and that one. -/
theorem follow_split (h : host.follow t path = some (r,left)) :
    (host.place t path = some [] ∧ r = []) ∨ ∃ s name between, (segments path).getLast? = some name ∧
      host.place t path = some (enter s name) ∧ t.Walks between s [name] r left := by
  obtain ⟨p,horigin,hwalk⟩ := follow_iff.mp h
  by_cases hnil : segments path = []
  · have hp := origin_of_no_segments horigin hnil
    subst hp
    have hplace : host.place t path = some [] := by
      apply place_iff.mpr
      refine ⟨[],[],host.limit,horigin,?_,?_⟩
      · rw [hnil]
        exact .stop
      · rw [lastStep,hnil]
        rfl
    rw [hnil] at hwalk
    exact .inl ⟨hplace,hwalk.of_nil.1⟩
  · have hsegments := dropLast_append_getLast hnil
    rw [← hsegments] at hwalk
    obtain ⟨s,between,hfront,hlast⟩ := LinkTree.Walks.append_iff.mp hwalk
    have hname := getLast?_eq_some_getLast hnil
    refine .inr ⟨s,_,between,hname,place_iff.mpr ⟨p,s,between,horigin,hfront,?_⟩,hlast⟩
    rw [lastStep,hname]

/-- Where a path leads is its place, unless a link is there. -/
theorem place_of_follow (h : host.follow t path = some (r,left)) :
    ∃ q, host.place t path = some q ∧ (r = q ∨ ∃ target, t.entry q = some (.link target)) := by
  rcases follow_split h with ⟨hplace,hr⟩ | ⟨s,name,between,-,hplace,hlast⟩
  · exact ⟨[],hplace,.inl hr⟩
  · refine ⟨_,hplace,?_⟩
    cases hlast with
    | dot _ hrest =>
      cases hrest
      exact .inl rfl
    | dots _ hrest =>
      cases hrest
      exact .inl rfl
    | down hentry _ hrest =>
      cases hrest
      rw [enter_plain (t.plain s name (by rw [hentry]; exact nofun))]
      exact .inl rfl
    | link hlink =>
      rw [enter_plain (t.plain s name (by rw [hlink]; exact nofun))]
      exact .inr ⟨_,hlink⟩

/-- Two paths with one link at their place lead to the same entry. -/
theorem stat_of_link {path' : String} {target : String} {entry' : Entry} (hq : t.entry q = some (.link target))
    (hplace : host.place t path = some q) (hplace' : host.place t path' = some q) (h : host.stat t path = some entry)
    (h' : host.stat t path' = some entry') : entry = entry' := by
  -- A path to the link ends in its name.
  have hsteps {path : String} {r : Path} {left : ℕ} (hplace : host.place t path = some q)
      (hfollow : host.follow t path = some (r,left)) :
      ∃ s name between, q = s ++ [name] ∧ t.Walks between s [name] r left := by
    rcases follow_split hfollow with ⟨hroot,-⟩ | ⟨s,name,between,-,hlast,hwalk⟩
    · rw [hplace] at hroot
      cases hroot
      rw [t.root] at hq
      cases hq
    · rw [hplace] at hlast
      cases hlast
      refine ⟨s,name,between,?_,hwalk⟩
      cases hwalk with
      | dot hdirectory =>
        exact absurd (hdirectory.symm.trans hq) (by simp)
      | dots hdirectory =>
        exact absurd ((LinkTree.directory_dropLast hdirectory).symm.trans hq) (by simp)
      | down hentry => exact enter_plain (t.plain s name (by rw [hentry]; exact nofun)) s
      | link hlink => exact enter_plain (t.plain s name (by rw [hlink]; exact nofun)) s
  obtain ⟨r,left,hfollow,hentry⟩ := stat_iff.mp h
  obtain ⟨r',left',hfollow',hentry'⟩ := stat_iff.mp h'
  obtain ⟨s,name,between,rfl,hwalk⟩ := hsteps hplace hfollow
  obtain ⟨s',name',between',heq,hwalk'⟩ := hsteps hplace' hfollow'
  obtain ⟨rfl,hname⟩ := append_inj' heq rfl
  cases hname
  rw [hwalk.unique hwalk',hentry'] at hentry
  exact (Option.some.inj hentry).symm

/-- An entry of a directory has its place in it. -/
theorem place_entryPath (h : host.follow t path = some (r,left)) (hname : Plain name) :
    host.place t (entryPath path name) = some (r ++ [name]) := by
  obtain ⟨p,horigin,hwalk⟩ := follow_iff.mp h
  apply place_iff.mpr
  refine ⟨p,r,left,origin_entryPath horigin hname,?_,?_⟩
  · rwa [segments_entryPath path hname,dropLast_concat]
  · rw [lastStep,segments_entryPath path hname,getLast?_concat]
    exact (enter_plain hname r).symm

theorem follow_entryPath {r' : Path} {left' : ℕ} (h : host.follow t path = some (r,left)) (hname : Plain name)
    (h' : host.follow t (entryPath path name) = some (r',left')) : t.Walks left r [name] r' left' := by
  obtain ⟨p,horigin,hwalk⟩ := follow_iff.mp h
  obtain ⟨p',horigin',hwalk'⟩ := follow_iff.mp h'
  rw [origin_entryPath horigin hname] at horigin'
  cases horigin'
  rw [segments_entryPath path hname] at hwalk'
  obtain ⟨s,between,hfront,hlast⟩ := LinkTree.Walks.append_iff.mp hwalk'
  have hsame := LinkTree.walk_iff.mpr hfront
  rw [LinkTree.walk_iff.mpr hwalk] at hsame
  cases hsame
  exact hlast

theorem follow_entryPath_of_walks {r' : Path} {left' : ℕ} (h : host.follow t path = some (r,left))
    (hname : Plain name) (hwalks : t.Walks left r [name] r' left') :
    host.follow t (entryPath path name) = some (r',left') := by
  obtain ⟨p,horigin,hwalk⟩ := follow_iff.mp h
  apply follow_iff.mpr
  refine ⟨p,origin_entryPath horigin hname,?_⟩
  rw [segments_entryPath path hname]
  exact LinkTree.Walks.append_iff.mpr ⟨r,left,hwalk,hwalks⟩

theorem follow_entryPath_directory (h : host.follow t path = some (r,left))
    (hdirectory : t.entry (r ++ [name]) = some .directory) :
    host.follow t (entryPath path name) = some (r ++ [name],left) :=
  follow_entryPath_of_walks h (t.plain r name (by rw [hdirectory]; exact nofun))
    (.down hdirectory (fun _ => nofun) .stop)

theorem isDirectory_of_stat (h : host.stat t path = some entry) :
    host.isDirectory t path = .ok (decide (entry = .directory)) := by rw [isDirectory,h]

theorem isDirectory_ok {directory : Bool} (h : host.isDirectory t path = .ok directory) :
    ∃ entry, host.stat t path = some entry ∧ directory = decide (entry = .directory) := by
  rw [isDirectory] at h
  split at h <;> cases h
  exact ⟨_,‹_›,rfl⟩

theorem entries_ok {arrange : List String → List String} {listed : List String}
    (h : host.entries arrange t path = .ok listed) : ∃ r left, host.follow t path = some (r,left) ∧
      t.entry r = some .directory ∧ listed = (arrange (t.names r)).map (entryPath path) := by
  rw [entries] at h
  split at h
  · rename_i r left hfollow
    split_ifs at h with hdirectory
    cases h
    exact ⟨r,left,hfollow,hdirectory,rfl⟩
  · cases h

theorem removeFile_ok (h : host.removeFile t path = .ok t') : ∃ q, host.place t path = some q ∧
    t'.entry = Function.update t.entry q none ∧ t.entry q ≠ some .directory := by
  rw [removeFile] at h
  split at h
  · split_ifs at h with hcondition
    exact ⟨_,‹_›,(LinkTree.remove_ok h).1,hcondition.2⟩
  · cases h

theorem removeDirectory_ok (h : host.removeDirectory t path = .ok t') : ∃ q, host.place t path = some q ∧
    t'.entry = Function.update t.entry q none ∧ t.names q = [] ∧
      (t.entry q = some .directory ∨ host.removesLinks = true) := by
  rw [removeDirectory] at h
  split at h
  · split_ifs at h with hcondition
    obtain ⟨hupdate,hnames⟩ := LinkTree.remove_ok h
    exact ⟨_,‹_›,hupdate,hnames,hcondition.2.imp_right And.left⟩
  · cases h

end Host

end Mxterm.LinkedTrees
