import Mathlib.Algebra.BigOperators.Group.List.Basic
import Mathlib.Algebra.Order.Ring.Nat

/-! Trees as the listings of their directories, and the order in which a traversal visits them. The names are those
that the listings give. -/
namespace Mxterm.ListedTrees

open List

inductive ListedTree (α : Type)
  | leaf (a : α)
  | directory (entries : List (String × ListedTree α))

variable {α ρ : Type}

abbrev Entries (α : Type) := List (String × ListedTree α)

mutual

def ListedTree.weight : ListedTree α → ℕ
  | .leaf _ => 0
  | .directory entries => weights entries + 1

def weights : List (String × ListedTree α) → ℕ
  | [] => 0
  | (_,node) :: entries => node.weight + weights entries

end

/-- The directories among some entries, with what `join` makes of the place and their names. -/
def subdirectories (join : ρ → String → ρ) (place : ρ) (entries : Entries α) : List (ρ × Entries α) :=
  entries.filterMap fun entry =>
    match entry.2 with
    | .leaf _ => none
    | .directory inner => some (join place entry.1,inner)

def leaves (join : ρ → String → ρ) (place : ρ) (entries : Entries α) : List (ρ × α) :=
  entries.filterMap fun entry =>
    match entry.2 with
    | .leaf a => some (join place entry.1,a)
    | .directory _ => none

def pendingWeight (pending : List (ρ × Entries α)) : ℕ := (pending.map fun directory => weights directory.2 + 1).sum

/-- How new directories are put among those that are to be visited. -/
structure Discipline where
  mix : {β : Type} → List β → List β → List β
  perm : ∀ {β : Type} (new pending : List β), (mix new pending).Perm (new ++ pending)

/-- The first one in is the first one out. -/
def queue : Discipline where
  mix new pending := pending ++ new
  perm _ _ := perm_append_comm

/-- The last one in is the first one out. -/
def stack : Discipline where
  mix new pending := new.reverse ++ pending
  perm new _ := (reverse_perm new).append_right _

theorem pendingWeight_append (xs ys : List (ρ × Entries α)) :
    pendingWeight (xs ++ ys) = pendingWeight xs + pendingWeight ys := by
  rw [pendingWeight,map_append,sum_append]
  rfl

theorem pendingWeight_perm {xs ys : List (ρ × Entries α)} (h : xs.Perm ys) : pendingWeight xs = pendingWeight ys :=
  (h.map _).sum_eq

theorem pendingWeight_subdirectories (join : ρ → String → ρ) (place : ρ) (entries : Entries α) :
    pendingWeight (subdirectories join place entries) = weights entries := by
  induction entries with
  | nil => rfl
  | cons entry entries ih =>
    obtain ⟨name,node⟩ := entry
    cases node with
    | leaf a =>
      rw [weights,ListedTree.weight,Nat.zero_add]
      exact ih
    | directory inner =>
      rw [weights,← ih]
      rfl

/-- The directories in the order in which they are visited, with their places. -/
def visited (join : ρ → String → ρ) (discipline : Discipline) : List (ρ × Entries α) → List (ρ × Entries α)
  | [] => []
  | (place,entries) :: pending =>
    (place,entries) :: visited join discipline (discipline.mix (subdirectories join place entries) pending)
termination_by pending => pendingWeight pending
decreasing_by
  rw [pendingWeight_perm (discipline.perm _ _),pendingWeight_append,pendingWeight_subdirectories]
  simp [pendingWeight]

/-- A chain of names leads from some entries to a directory. -/
inductive Leads : Entries α → List String → Entries α → Prop
  | here {entries : Entries α} : Leads entries [] entries
  | down {entries inner last : Entries α} {name : String} {chain : List String} :
      (name,.directory inner) ∈ entries → Leads inner chain last → Leads entries (name :: chain) last

variable {join : ρ → String → ρ} {discipline : Discipline} {entries inner last : Entries α} {place : ρ}
  {chain : List String} {name : String} {pending : List (ρ × Entries α)} {directory : ρ × Entries α}

theorem Leads.concat_iff : Leads entries (chain ++ [name]) last ↔
    ∃ inner, Leads entries chain inner ∧ (name,ListedTree.directory last) ∈ inner := by
  induction chain generalizing entries with
  | nil =>
    constructor
    · intro h
      cases h with
      | down hmem hrest =>
        cases hrest
        exact ⟨_,.here,hmem⟩
    · rintro ⟨inner,hinner,hmem⟩
      cases hinner
      exact .down hmem .here
  | cons first chain ih =>
    constructor
    · intro h
      cases h with
      | down hmem hrest =>
        obtain ⟨inner,hinner,hlast⟩ := ih.mp hrest
        exact ⟨inner,.down hmem hinner,hlast⟩
    · rintro ⟨inner,hinner,hlast⟩
      cases hinner with
      | down hmem hrest => exact .down hmem (ih.mpr ⟨inner,hrest,hlast⟩)

theorem mem_subdirectories : directory ∈ subdirectories join place entries ↔
    ∃ name inner, (name,ListedTree.directory inner) ∈ entries ∧ directory = (join place name,inner) := by
  rw [subdirectories,mem_filterMap]
  constructor
  · rintro ⟨⟨name,node⟩,hmem,hentry⟩
    cases node with
    | leaf a => cases hentry
    | directory inner => exact ⟨name,inner,hmem,(Option.some.inj hentry).symm⟩
  · rintro ⟨name,inner,hmem,rfl⟩
    exact ⟨_,hmem,rfl⟩

theorem mem_leaves {leaf : ρ × α} : leaf ∈ leaves join place entries ↔
    ∃ name a, (name,ListedTree.leaf a) ∈ entries ∧ leaf = (join place name,a) := by
  rw [leaves,mem_filterMap]
  constructor
  · rintro ⟨⟨name,node⟩,hmem,hentry⟩
    cases node with
    | leaf a => exact ⟨name,a,hmem,(Option.some.inj hentry).symm⟩
    | directory inner => cases hentry
  · rintro ⟨name,a,hmem,rfl⟩
    exact ⟨_,hmem,rfl⟩

/-- All that chains of names lead to is visited, and nothing else. -/
theorem mem_visited : directory ∈ visited join discipline pending ↔
    ∃ start ∈ pending, ∃ chain, Leads start.2 chain directory.2 ∧ directory.1 = chain.foldl join start.1 := by
  fun_induction visited join discipline pending with
  | case1 => simp
  | case2 place entries pending ih =>
    rw [mem_cons,ih]
    constructor
    · rintro (rfl | ⟨start,hstart,chain,hchain,hplace⟩)
      · exact ⟨_,mem_cons_self,[],.here,rfl⟩
      · rcases mem_append.mp ((discipline.perm _ _).mem_iff.mp hstart) with hnew | hpending
        · obtain ⟨name,inner,hmem,rfl⟩ := mem_subdirectories.mp hnew
          exact ⟨_,mem_cons_self,name :: chain,.down hmem hchain,hplace⟩
        · exact ⟨start,mem_cons_of_mem _ hpending,chain,hchain,hplace⟩
    · rintro ⟨start,hstart,chain,hchain,hplace⟩
      rcases mem_cons.mp hstart with rfl | hpending
      · cases hchain with
        | here => exact .inl (Prod.ext hplace rfl)
        | @down _ inner last name chain hmem hchain =>
          refine .inr ⟨(join place name,inner),?_,chain,hchain,hplace⟩
          apply (discipline.perm _ _).mem_iff.mpr
          apply mem_append_left
          exact mem_subdirectories.mpr ⟨name,inner,hmem,rfl⟩
      · exact .inr ⟨start,(discipline.perm _ _).mem_iff.mpr (mem_append_right _ hpending),chain,hchain,hplace⟩

end Mxterm.ListedTrees
