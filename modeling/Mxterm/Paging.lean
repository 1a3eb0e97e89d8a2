import Mathlib.Data.List.Basic

/-! Reading in pages: the reader begins at the first page and follows the place that each page announces for the next
one. -/
namespace Mxterm.Paging

structure Page (α : Type) where
  units : List α
  next : Option ℕ

variable {α l : Type}

/-- The pages from a place on, the first of them with the `k`-th limit. -/
def follow (page : ℕ → l → Page α) (limits : ℕ → l) : ℕ → ℕ → ℕ → Option (List (Page α))
  | 0, _, _ => none
  | fuel + 1, k, place =>
    match (page place (limits k)).next with
    | none => some [page place (limits k)]
    | some next => (follow page limits fuel (k + 1) next).map (page place (limits k) :: ·)

/-- What is announced when so many of the units are delivered. -/
def announced (total delivered : ℕ) : Option ℕ := if delivered < total then some delivered else none

/-- The reader comes to an end with every unit once and in order, and each page tells what is left. -/
def ReadsOnce (page : ℕ → l → Page α) (limits : ℕ → l) (units : List α) : Prop :=
  ∃ fuel pages, follow page limits fuel 0 0 = some pages ∧ pages.flatMap Page.units = units ∧
    ∀ i p, pages[i]? = some p → p.next = announced units.length ((pages.take (i + 1)).flatMap Page.units).length

/-- Where the pages begin that are cut one behind the other. -/
def bound (size : l → ℕ) (limits : ℕ → l) (total : ℕ) : ℕ → ℕ
  | 0 => 0
  | k + 1 => min (bound size limits total k + size (limits k)) total

section
variable {page : ℕ → l → Page α} {limits : ℕ → l} {units : List α} {size : l → ℕ} {pages : List (Page α)}
  {total : ℕ}

theorem bound_le (k : ℕ) : bound size limits total k ≤ total := by
  cases k with
  | zero => exact Nat.zero_le _
  | succ k => exact Nat.min_le_right _ _

variable {fuel k : ℕ}

/-- The pages follow one another by what they announce. -/
theorem follow_spec {place : ℕ} (h : follow page limits fuel k place = some pages) :
    pages[0]? = some (page place (limits k)) ∧ ∀ i p, pages[i]? = some p →
      pages[i + 1]? = p.next.map fun next => page next (limits (k + i + 1)) := by
  induction fuel generalizing k place pages with
  | zero => cases h
  | succ fuel ih =>
    rw [follow] at h
    cases hnext : (page place (limits k)).next with
    | none =>
      rw [hnext] at h
      cases h
      refine ⟨rfl,fun i p hp => ?_⟩
      cases i with
      | zero =>
        cases hp
        rw [hnext]
        rfl
      | succ i => cases hp
    | some next =>
      rw [hnext] at h
      obtain ⟨rest,hrest,rfl⟩ := Option.map_eq_some_iff.mp h
      obtain ⟨hfirst,hlater⟩ := ih hrest
      refine ⟨rfl,fun i p hp => ?_⟩
      cases i with
      | zero =>
        cases hp
        rw [hnext]
        exact hfirst
      | succ i =>
        have hstep := hlater i p hp
        rw [Nat.add_right_comm k 1 i] at hstep
        exact hstep

/-- The units in front of a page are those that were delivered. -/
theorem delivered_eq (hunits : ∀ k, (page (bound size limits units.length k) (limits k)).units =
      (units.drop (bound size limits units.length k)).take (size (limits k))) {n : ℕ}
    (hpages : ∀ i < n, pages[i]? = some (page (bound size limits units.length i) (limits i))) :
    (pages.take n).flatMap Page.units = units.take (bound size limits units.length n) := by
  induction n with
  | zero => rfl
  | succ n ih =>
    rw [List.take_add_one,List.flatMap_append,ih fun i hi => hpages i (Nat.lt_succ_of_lt hi),
      hpages n (Nat.lt_succ_self n)]
    simp only [Option.toList_some,List.flatMap_singleton,hunits,bound]
    rw [← List.take_add]
    rcases Nat.le_total (bound size limits units.length n + size (limits n)) units.length with h | h
    · rw [Nat.min_eq_left h]
    · rw [Nat.min_eq_right h,List.take_length,List.take_of_length_le h]

theorem bound_succ_le (k : ℕ) : bound size limits total k ≤ bound size limits total (k + 1) :=
  Nat.le_min.mpr ⟨Nat.le_add_right _ _,bound_le k⟩

/-- The `k`-th page is one to read. -/
def Due (size : l → ℕ) (limits : ℕ → l) (total k : ℕ) : Prop := k = 0 ∨ bound size limits total k < total

theorem Due.pred (h : Due size limits total (k + 1)) : Due size limits total k :=
  .inr (Nat.lt_of_le_of_lt (bound_succ_le k) (h.resolve_left (Nat.succ_ne_zero k)))

/-- What was delivered with the pages up to one. -/
theorem length_delivered
    (hunits : ∀ k, (page (bound size limits units.length k) (limits k)).units =
      (units.drop (bound size limits units.length k)).take (size (limits k)))
    (hpages : ∀ i ≤ k, pages[i]? = some (page (bound size limits units.length i) (limits i))) :
    ((pages.take (k + 1)).flatMap Page.units).length = bound size limits units.length (k + 1) := by
  rw [delivered_eq hunits fun i hi => hpages i (Nat.le_of_lt_succ hi),List.length_take,Nat.min_eq_left (bound_le _)]

/-- Pages that announce what is left are read where they begin. -/
theorem pages_of_announced
    (hunits : ∀ k, (page (bound size limits units.length k) (limits k)).units =
      (units.drop (bound size limits units.length k)).take (size (limits k)))
    (hfollow : follow page limits fuel 0 0 = some pages)
    (hannounced : ∀ i p, pages[i]? = some p → p.next = announced units.length
      ((pages.take (i + 1)).flatMap Page.units).length)
    (k : ℕ) (hdue : Due size limits units.length k) :
    ∀ i ≤ k, pages[i]? = some (page (bound size limits units.length i) (limits i)) := by
  obtain ⟨hfirst,hlater⟩ := follow_spec hfollow
  induction k with
  | zero =>
    intro i hi
    rw [Nat.le_zero.mp hi]
    exact hfirst
  | succ k ih =>
    have hbefore := ih hdue.pred
    intro i hi
    rcases Nat.le_succ_iff.mp hi with hle | rfl
    · exact hbefore i hle
    · have hnext := hannounced k _ (hbefore k (Nat.le_refl k))
      rw [length_delivered hunits hbefore,announced,if_pos (hdue.resolve_left (Nat.succ_ne_zero k))] at hnext
      rw [hlater k _ (hbefore k (Nat.le_refl k)),hnext,Nat.zero_add]
      rfl

/-- The reader comes to an end when each page announces where the next one begins. -/
theorem exists_follow (hsize : ∀ a, 0 < size a)
    (hnext : ∀ k, Due size limits total k → (page (bound size limits total k) (limits k)).next =
      announced total (bound size limits total (k + 1))) (d k : ℕ) (hdue : Due size limits total k)
    (hd : total - bound size limits total k ≤ d) :
    ∃ pages, follow page limits (d + 1) k (bound size limits total k) = some pages := by
  induction d generalizing k with
  | zero =>
    have hend : total ≤ bound size limits total (k + 1) :=
      Nat.le_trans (Nat.sub_eq_zero_iff_le.mp (Nat.le_zero.mp hd)) (bound_succ_le k)
    rw [follow,hnext k hdue,announced,if_neg (Nat.not_lt.mpr hend)]
    exact ⟨_,rfl⟩
  | succ d ih =>
    rw [follow,hnext k hdue,announced]
    by_cases hmore : bound size limits total (k + 1) < total
    · have hgrows := hsize (limits k)
      have hbound : bound size limits total (k + 1) = min (bound size limits total k + size (limits k)) total := rfl
      obtain ⟨rest,hrest⟩ := ih (k + 1) (.inr hmore) (by omega)
      rw [if_pos hmore]
      dsimp only
      rw [hrest]
      exact ⟨_,rfl⟩
    · rw [if_neg hmore]
      exact ⟨_,rfl⟩

/-- The pages that are read are those that begin one behind the other. -/
theorem pages_of_follow (hfollow : follow page limits fuel 0 0 = some pages)
    (hnext : ∀ k, Due size limits total k → (page (bound size limits total k) (limits k)).next = announced total
      (bound size limits total (k + 1)))
    {i : ℕ} (hi : i < pages.length) :
    Due size limits total i ∧ pages[i]? = some (page (bound size limits total i) (limits i)) := by
  obtain ⟨hfirst,hlater⟩ := follow_spec hfollow
  induction i with
  | zero => exact ⟨.inl rfl,hfirst⟩
  | succ i ih =>
    obtain ⟨hdue,hpage⟩ := ih (Nat.lt_of_succ_lt hi)
    have hstep := hlater i _ hpage
    rw [hnext i hdue,announced] at hstep
    by_cases hmore : bound size limits total (i + 1) < total
    · rw [if_pos hmore,Nat.zero_add] at hstep
      exact ⟨.inr hmore,hstep⟩
    · rw [if_neg hmore,Option.map_none,List.getElem?_eq_none_iff] at hstep
      omega

/-- The pages read each unit once exactly when each of them announces where the next one begins. -/
theorem readsOnce_iff (hsize : ∀ a, 0 < size a)
    (hunits : ∀ k, (page (bound size limits units.length k) (limits k)).units =
      (units.drop (bound size limits units.length k)).take (size (limits k))) :
    ReadsOnce page limits units ↔ ∀ k, Due size limits units.length k →
      (page (bound size limits units.length k) (limits k)).next =
        announced units.length (bound size limits units.length (k + 1)) := by
  constructor
  · rintro ⟨fuel,pages,hfollow,-,hannounced⟩ k hdue
    have hpages := pages_of_announced hunits hfollow hannounced k hdue
    rw [hannounced k _ (hpages k (Nat.le_refl k)),length_delivered hunits hpages]
  · intro hnext
    obtain ⟨pages,hfollow⟩ := exists_follow hsize hnext units.length 0 (.inl rfl) (Nat.sub_le _ _)
    have hpages : ∀ {i}, i < pages.length → _ := fun hi => pages_of_follow hfollow hnext hi
    refine ⟨_,pages,hfollow,?_,?_⟩
    · obtain ⟨hfirst,hlater⟩ := follow_spec hfollow
      obtain ⟨n,hn⟩ : ∃ n, pages.length = n + 1 :=
        Nat.exists_eq_succ_of_ne_zero (Nat.ne_of_gt (List.getElem?_eq_some_iff.mp hfirst).1)
      obtain ⟨hdue,hpage⟩ := hpages (show n < pages.length by omega)
      have hlast := hlater n _ hpage
      rw [List.getElem?_eq_none (by omega),hnext n hdue,announced] at hlast
      have hend : ¬ bound size limits units.length (n + 1) < units.length := by
        intro hmore
        rw [if_pos hmore] at hlast
        cases hlast
      have hall := delivered_eq hunits (n := n + 1) fun j hj => (hpages (hn ▸ hj)).2
      rw [← hn,List.take_length,hn] at hall
      rw [hall,List.take_of_length_le (Nat.not_lt.mp hend)]
    · intro i p hp
      have hi := (List.getElem?_eq_some_iff.mp hp).1
      obtain ⟨hdue,hpage⟩ := hpages hi
      rw [hp] at hpage
      rw [Option.some.inj hpage,length_delivered hunits fun j hj => (hpages (Nat.lt_of_le_of_lt hj hi)).2]
      exact hnext i hdue

end

end Mxterm.Paging
