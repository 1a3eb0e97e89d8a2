import Mathlib.Data.List.Infix
import Mathlib.Data.List.Dedup

/-! Trees of files and directories, and the operations of a file system on them. -/
namespace Mxterm.FileTrees

open List Function

abbrev Path := List String
abbrev Bytes := List UInt8

inductive Node
  | file (content : Bytes)
  | directory
  deriving DecidableEq

/-- The last names of the paths that stand right below `p`. -/
def namesIn (paths : List Path) (there : Path → Prop) [DecidablePred there] (p : Path) : List String :=
  (paths.filterMap fun q => if q.dropLast = p ∧ there q then q.getLast? else none).dedup

theorem mem_namesIn {paths : List Path} {there : Path → Prop} [DecidablePred there] {p : Path} {name : String}
    (hcovers : ∀ q, there q → q ∈ paths) : name ∈ namesIn paths there p ↔ there (p ++ [name]) := by
  rw [namesIn,mem_dedup,mem_filterMap]
  constructor
  · rintro ⟨q,-,hq⟩
    split_ifs at hq with hcond
    obtain ⟨front,rfl⟩ := getLast?_eq_some_iff.mp hq
    rw [dropLast_concat] at hcond
    rw [← hcond.1]
    exact hcond.2
  · intro h
    exact ⟨p ++ [name],hcovers _ h,by rw [if_pos ⟨dropLast_concat,h⟩,getLast?_concat]⟩

/-- A finite tree: what is there stands in a directory. -/
structure FileTree where
  node : Path → Option Node
  paths : List Path
  covers : ∀ p, node p ≠ none → p ∈ paths
  root : node [] = some .directory
  closed : ∀ p name, node (p ++ [name]) ≠ none → node p = some .directory

inductive FileError
  | missing | other
  deriving DecidableEq

namespace FileTree

variable {t t' : FileTree} {p q r : Path} {name : String}

/-- Below what is no directory there is nothing. -/
theorem below_of_ne_directory (h : t.node p ≠ some .directory) (hr : p <+: r) (hne : r ≠ p) : t.node r = none := by
  obtain ⟨rest,rfl⟩ := hr
  induction rest using List.reverseRecOn with
  | nil => exact absurd (append_nil p) hne
  | append_singleton rest name ih =>
    by_contra hnode
    rw [← append_assoc] at hnode
    have hparent := t.closed _ _ hnode
    by_cases hrest : rest = []
    · rw [hrest,append_nil] at hparent
      exact h hparent
    · have hnone := ih (by simpa using hrest)
      rw [hparent] at hnone
      cases hnone

/-- Put a node where its directory is; what is no directory has nothing below it. -/
def put (t : FileTree) (p : Path) (node : Node) (hparent : t.node p.dropLast = some .directory)
    (hp : p ≠ []) (hnode : t.node p ≠ some .directory) : FileTree where
  node := Function.update t.node p (some node)
  paths := p :: t.paths
  covers r hr := by
    by_cases hrp : r = p
    · exact hrp ▸ mem_cons_self
    · rw [update_of_ne hrp] at hr
      exact mem_cons_of_mem _ (t.covers r hr)
  root := (update_of_ne hp.symm ..).trans t.root
  closed r name hr := by
    have hchild : t.node (r ++ [name]) ≠ none ∨ r ++ [name] = p := by
      by_cases heq : r ++ [name] = p
      · exact .inr heq
      · rw [update_of_ne heq] at hr
        exact .inl hr
    have hr' : t.node r = some .directory := by
      rcases hchild with h | rfl
      · exact t.closed r name h
      · rwa [dropLast_concat] at hparent
    by_cases hrp : r = p
    · exact absurd (hrp ▸ hr') hnode
    · rw [update_of_ne hrp,hr']

/-- Take away what has nothing below it. -/
def cut (t : FileTree) (p : Path) (hp : p ≠ []) (hchildren : ∀ name, t.node (p ++ [name]) = none) : FileTree where
  node := Function.update t.node p none
  paths := t.paths
  covers r hr := by
    by_cases hrp : r = p
    · exact absurd (by rw [hrp,update_self]) hr
    · rw [update_of_ne hrp] at hr
      exact t.covers r hr
  root := (update_of_ne hp.symm ..).trans t.root
  closed r name hr := by
    have hchild : t.node (r ++ [name]) ≠ none := by
      by_cases heq : r ++ [name] = p
      · rw [heq,update_self] at hr
        exact absurd rfl hr
      · rwa [update_of_ne heq] at hr
    have hrp : r ≠ p := by
      rintro rfl
      exact hchild (hchildren name)
    rw [update_of_ne hrp]
    exact t.closed r name hchild

theorem children_of_file {content : Bytes} (h : t.node p = some (.file content)) (name : String) :
    t.node (p ++ [name]) = none := by
  by_contra hchild
  rw [t.closed p name hchild] at h
  cases h

/-! ## Operations -/

def read (t : FileTree) (p : Path) : Except FileError Node :=
  match t.node p with
  | some node => .ok node
  | none => .error .missing

def makeDirectory (t : FileTree) (p : Path) : Except FileError FileTree :=
  if h : p ≠ [] ∧ t.node p = none ∧ t.node p.dropLast = some .directory then
    .ok (t.put p .directory h.2.2 h.1 (by rw [h.2.1]; exact nofun))
  else .error .other

/-- Write a file as a whole, which may be new. -/
def writeFile (t : FileTree) (p : Path) (content : Bytes) : Except FileError FileTree :=
  if h : p ≠ [] ∧ t.node p.dropLast = some .directory then
    if hnode : t.node p ≠ some .directory then .ok (t.put p (.file content) h.2 h.1 hnode) else .error .other
  else .error .missing

def removeFile (t : FileTree) (p : Path) : Except FileError FileTree :=
  match h : t.node p with
  | some (.file _) => .ok (t.cut p (by rintro rfl; rw [t.root] at h; cases h) (children_of_file h))
  | some .directory => .error .other
  | none => .error .missing

/-- Where a path lies after `p` has become `q`, told backwards. -/
def movedNode (t : FileTree) (p q r : Path) : Option Node :=
  if q <+: r then t.node (p ++ r.drop q.length)
  else if p <+: r then none
  else t.node r

theorem movedNode_new (t : FileTree) (p q rest : Path) : t.movedNode p q (q ++ rest) = t.node (p ++ rest) := by
  rw [movedNode,if_pos (prefix_append q rest),drop_left]

theorem movedNode_away (h : ¬ q <+: r) (hp : ¬ p <+: r) : t.movedNode p q r = t.node r := by
  rw [movedNode,if_neg h,if_neg hp]

/-- The condition for a move: there is something, it goes where nothing is, into a directory that stays. -/
def Movable (t : FileTree) (p q : Path) : Prop :=
  t.node p ≠ none ∧ p ≠ [] ∧ t.node q = none ∧ t.node q.dropLast = some .directory ∧ ¬ p <+: q

instance (t : FileTree) (p q : Path) : Decidable (t.Movable p q) := by
  unfold Movable
  infer_instance

theorem Movable.ne_nil (h : t.Movable p q) : q ≠ [] := by
  rintro rfl
  rw [Movable,t.root] at h
  cases h.2.2.1

theorem prefix_concat_cases (h : p <+: r ++ [name]) : p <+: r ∨ p = r ++ [name] :=
  (prefix_concat_iff.mp h).symm

/-- A directory or a file with all that is below it moves. -/
def move (t : FileTree) (p q : Path) (h : t.Movable p q) : FileTree where
  node := t.movedNode p q
  paths := t.paths ++ t.paths.map fun r => q ++ r.drop p.length
  covers r hr := by
    rw [movedNode] at hr
    split_ifs at hr with hq hp
    · obtain ⟨rest,rfl⟩ := hq
      rw [drop_left] at hr
      apply mem_append_right
      exact mem_map.mpr ⟨p ++ rest,t.covers _ hr,by rw [drop_left]⟩
    · exact absurd rfl hr
    · exact mem_append_left _ (t.covers r hr)
  root := by
    rw [movedNode_away (by simpa using h.ne_nil) (by simpa using h.2.1),t.root]
  closed r name hr := by
    rw [movedNode] at hr
    split_ifs at hr with hq hp
    · rcases prefix_concat_cases hq with ⟨rest,rfl⟩ | heq
      · rw [movedNode_new]
        rw [append_assoc,drop_left,← append_assoc] at hr
        exact t.closed _ _ hr
      · -- The directory into which the moved one goes.
        have hr' : r = q.dropLast := by rw [heq,dropLast_concat]
        have hqr : ¬ q <+: r := by
          intro hunder
          have hlength := hunder.length_le
          rw [heq,length_append,length_singleton] at hlength
          omega
        have hpr : ¬ p <+: r := fun hunder => h.2.2.2.2 (hunder.trans (by rw [heq]; exact prefix_append _ _))
        rw [movedNode_away hqr hpr,hr']
        exact h.2.2.2.1
    · exact absurd rfl hr
    · have hqr : ¬ q <+: r := fun hunder => hq (hunder.trans (prefix_append _ _))
      have hpr : ¬ p <+: r := fun hunder => hp (hunder.trans (prefix_append _ _))
      rw [movedNode_away hqr hpr]
      exact t.closed _ _ hr

def rename (t : FileTree) (p q : Path) : Except FileError FileTree :=
  if h : t.Movable p q then .ok (t.move p q h) else .error .other

def content (t : FileTree) (p : Path) : Bytes :=
  match t.node p with
  | some (.file content) => content
  | _ => []

/-- Open a file to write it, which may be new. -/
def openFile (t : FileTree) (p : Path) (truncate : Bool) : Except FileError FileTree :=
  t.writeFile p (if truncate then [] else t.content p)

/-- `bytes` in place of what stands at `offset`; a gap is filled with zeros. -/
def splice (content : Bytes) (offset : ℕ) (bytes : Bytes) : Bytes :=
  content.take offset ++ List.replicate (offset - content.length) 0 ++ bytes ++ content.drop (offset + bytes.length)

def writeAt (t : FileTree) (p : Path) (offset : ℕ) (bytes : Bytes) : Except FileError FileTree :=
  t.writeFile p (splice (t.content p) offset bytes)

/-- A file takes the place of another one, or of nothing. -/
def replaceFile (t : FileTree) (p q : Path) : Except FileError FileTree :=
  match t.node p with
  | some (.file content) =>
    if p = q then .ok t
    else
      match t.writeFile q content with
      | .ok t' => t'.removeFile p
      | .error error => .error error
  | some .directory => t.rename p q
  | none => .error .missing

def ensureDirectory (t : FileTree) (p : Path) : Except FileError FileTree :=
  if t.node p = some .directory then .ok t else t.makeDirectory p

/-- The directories on the way from `base` are made as far as they are missing. -/
def createFrom (t : FileTree) (base : Path) : List String → Except FileError FileTree
  | [] => .ok t
  | name :: names =>
    match t.ensureDirectory (base ++ [name]) with
    | .ok t' => t'.createFrom (base ++ [name]) names
    | .error error => .error error

def createAll (t : FileTree) (p : Path) : Except FileError FileTree := t.createFrom [] p

/-! ### What they do -/

theorem makeDirectory_ok (h : t.makeDirectory p = .ok t') :
    t'.node = Function.update t.node p (some .directory) ∧ t.node p = none := by
  rw [makeDirectory] at h
  split_ifs at h with hp
  cases h
  exact ⟨rfl,hp.2.1⟩

theorem writeFile_ok {content : Bytes} (h : t.writeFile p content = .ok t') :
    t'.node = Function.update t.node p (some (.file content)) ∧ t.node p ≠ some .directory := by
  rw [writeFile] at h
  split_ifs at h with hp hnode
  cases h
  exact ⟨rfl,hnode⟩

theorem removeFile_ok (h : t.removeFile p = .ok t') :
    t'.node = Function.update t.node p none ∧ ∃ content, t.node p = some (.file content) := by
  rw [removeFile] at h
  split at h <;> cases h
  exact ⟨rfl,_,‹_›⟩

theorem rename_ok (h : t.rename p q = .ok t') : t'.node = t.movedNode p q ∧ t.Movable p q := by
  rw [rename] at h
  split_ifs at h with hp
  cases h
  exact ⟨rfl,hp⟩

theorem content_of_file {content : Bytes} (h : t.node p = some (.file content)) : t.content p = content := by
  rw [FileTree.content,h]

theorem splice_length (content bytes : Bytes) : splice content content.length bytes = content ++ bytes := by
  simp [splice]

/-- Where a file moves, its node does. -/
theorem movedNode_file {content : Bytes} (h : t.node p = some (.file content)) (hpq : t.Movable p q) :
    t.movedNode p q = Function.update (Function.update t.node p none) q (some (.file content)) := by
  funext r
  by_cases hrq : r = q
  · subst hrq
    have hnew := movedNode_new t p r []
    rw [append_nil,append_nil] at hnew
    rw [hnew,update_self,h]
  rw [update_of_ne hrq]
  by_cases hq : q <+: r
  · obtain ⟨rest,rfl⟩ := hq
    have hrest : rest ≠ [] := fun hnil => hrq (by rw [hnil,append_nil])
    have hbelow : t.node (p ++ rest) = none := by
      apply below_of_ne_directory (by rw [h]; exact nofun) (prefix_append _ _)
      simpa using hrest
    have hq' : t.node (q ++ rest) = none := by
      apply below_of_ne_directory (by rw [hpq.2.2.1]; exact nofun) (prefix_append _ _)
      simpa using hrest
    have hrp : q ++ rest ≠ p := by
      rintro rfl
      rw [hq'] at h
      cases h
    rw [movedNode_new,hbelow,update_of_ne hrp,hq']
  by_cases hrp : r = p
  · subst hrp
    rw [movedNode,if_neg hq,if_pos prefix_rfl,update_self]
  rw [update_of_ne hrp]
  by_cases hp : p <+: r
  · rw [movedNode,if_neg hq,if_pos hp,below_of_ne_directory (by rw [h]; exact nofun) hp hrp]
  · exact movedNode_away hq hp

theorem replaceFile_ok {content : Bytes} (hfile : t.node p = some (.file content)) (hpq : p ≠ q)
    (h : t.replaceFile p q = .ok t') :
    t'.node = Function.update (Function.update t.node p none) q (some (.file content)) := by
  rw [replaceFile,hfile] at h
  simp only [if_neg hpq] at h
  split at h
  · rename_i t₁ hwrite
    obtain ⟨hremoved,-⟩ := removeFile_ok h
    rw [hremoved,(writeFile_ok hwrite).1,update_comm hpq.symm]
  · cases h

/-- The tree has grown by directories on the way to `p`. -/
def GrowsTo (t t' : FileTree) (p : Path) : Prop :=
  ∀ r, t'.node r = t.node r ∨ t.node r = none ∧ t'.node r = some .directory ∧ r <+: p

theorem GrowsTo.refl (t : FileTree) (p : Path) : t.GrowsTo t p := fun _ => .inl rfl

theorem GrowsTo.trans {t₁ t₂ t₃ : FileTree} (h : t₁.GrowsTo t₂ p) (h' : t₂.GrowsTo t₃ p) : t₁.GrowsTo t₃ p := by
  intro r
  rcases h' r with heq | ⟨hnone,hnew,hr⟩
  · rw [heq]
    exact h r
  · rcases h r with heq | ⟨-,hdirectory,-⟩
    · exact .inr ⟨heq ▸ hnone,hnew,hr⟩
    · rw [hnone] at hdirectory
      cases hdirectory

theorem GrowsTo.mono (h : t.GrowsTo t' p) (hpq : p <+: q) : t.GrowsTo t' q :=
  fun r => (h r).imp_right fun hr => ⟨hr.1,hr.2.1,hr.2.2.trans hpq⟩

theorem ensureDirectory_ok (h : t.ensureDirectory p = .ok t') :
    t.GrowsTo t' p ∧ t'.node p = some .directory := by
  rw [ensureDirectory] at h
  split_ifs at h with hp
  · cases h
    exact ⟨.refl t p,hp⟩
  · obtain ⟨hnode,hnone⟩ := makeDirectory_ok h
    refine ⟨fun r => ?_,by rw [hnode,update_self]⟩
    by_cases hr : r = p
    · subst hr
      exact .inr ⟨hnone,by rw [hnode,update_self],prefix_rfl⟩
    · exact .inl (by rw [hnode,update_of_ne hr])

theorem createFrom_ok {base : Path} {names : List String} (h : t.createFrom base names = .ok t') :
    t.GrowsTo t' (base ++ names) := by
  induction names generalizing t base with
  | nil =>
    cases h
    exact fun _ => .inl rfl
  | cons name names ih =>
    rw [createFrom] at h
    split at h
    · rename_i t₁ hensure
      have hrest := ih h
      rw [append_assoc] at hrest
      have hbase : base ++ [name] <+: base ++ name :: names :=
        (prefix_append_right_inj base).mpr (prefix_append [name] names)
      exact ((ensureDirectory_ok hensure).1.mono hbase).trans hrest
    · cases h

theorem createAll_ok (h : t.createAll p = .ok t') : t.GrowsTo t' p := createFrom_ok h

end FileTree
end Mxterm.FileTrees
