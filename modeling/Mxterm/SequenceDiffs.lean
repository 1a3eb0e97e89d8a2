import Mathlib.Data.List.Basic

/-! Two sequences that differ in one place: their common front and back, and a hunk that takes one to the other. -/
namespace Mxterm.SequenceDiffs

open List

variable {α : Type}

inductive Mark
  | kept | removed | added
  deriving DecidableEq

/-- Lines for a place of a sequence, counted from one, and how many they are before and after. -/
structure Hunk (α : Type) where
  oldStart : ℕ
  oldLength : ℕ
  newStart : ℕ
  newLength : ℕ
  lines : List (Mark × α)

namespace Hunk

def count (h : Hunk α) (mark : Mark) : ℕ := h.lines.countP (·.1 = mark)

def oldSide (h : Hunk α) : List α := (h.lines.filter (·.1 ≠ .added)).map Prod.snd

def newSide (h : Hunk α) : List α := (h.lines.filter (·.1 ≠ .removed)).map Prod.snd

/-- The hunk fits the old sequence at its place, and puts the new one there; its lengths are those of its sides. -/
structure Transforms (h : Hunk α) (old new : List α) : Prop where
  applies : ∃ front back, front.length + 1 = h.oldStart ∧ front.length + 1 = h.newStart ∧
    old = front ++ h.oldSide ++ back ∧ new = front ++ h.newSide ++ back
  oldLength : h.oldLength = h.count .kept + h.count .removed
  newLength : h.newLength = h.count .kept + h.count .added

/-! ### A hunk with its change in one block -/

section
variable {h : Hunk α} {above removed added below : List α}
  (hlines : h.lines = above.map (Mark.kept,·) ++ removed.map (Mark.removed,·) ++ added.map (Mark.added,·) ++
    below.map (Mark.kept,·))
include hlines

theorem oldSide_eq : h.oldSide = above ++ removed ++ below := by
  simp [oldSide,hlines,filter_map,Function.comp_def]

theorem newSide_eq : h.newSide = above ++ added ++ below := by
  simp [newSide,hlines,filter_map,Function.comp_def]

theorem count_kept : h.count .kept = above.length + below.length := by
  simp [count,hlines,countP_map,Function.comp_def]

theorem count_removed : h.count .removed = removed.length := by
  simp [count,hlines,countP_map,Function.comp_def]

theorem count_added : h.count .added = added.length := by
  simp [count,hlines,countP_map,Function.comp_def]

theorem exists_changed : (∃ line ∈ h.lines, line.1 ≠ .kept) ↔ ¬ (removed = [] ∧ added = []) := by
  rw [hlines]
  constructor
  · rintro ⟨line,hline,hne⟩ ⟨rfl,rfl⟩
    simp only [map_nil,append_nil,mem_append,mem_map] at hline
    rcases hline with ⟨_,-,rfl⟩ | ⟨_,-,rfl⟩ <;> exact hne rfl
  · intro hnot
    cases removed with
    | cons a removed => exact ⟨(.removed,a),by simp,nofun⟩
    | nil =>
      cases added with
      | cons a added => exact ⟨(.added,a),by simp,nofun⟩
      | nil => exact absurd ⟨rfl,rfl⟩ hnot

end

end Hunk

/-! ## What two sequences share -/

theorem reverse_take_drop {l : List α} {front n : ℕ} (hn : n < l.length) (hfront : front ≤ n) :
    ((l.take (n + 1)).drop front).reverse = l[n] :: ((l.take n).drop front).reverse := by
  rw [take_succ_eq_append_getElem hn,drop_append_of_le_length (by simp; omega)]
  simp

section
variable [DecidableEq α]

/-- The length of the longest common front. -/
def commonFront : List α → List α → ℕ
  | a :: as,b :: bs => if a = b then commonFront as bs + 1 else 0
  | _,_ => 0

theorem commonFront_spec (as bs : List α) : ∃ front as' bs', as = front ++ as' ∧ bs = front ++ bs' ∧
    front.length = commonFront as bs := by
  fun_induction commonFront as bs with
  | case1 as b bs ih =>
    obtain ⟨front,as',bs',has,hbs,hlength⟩ := ih
    exact ⟨b :: front,as',bs',by rw [has]; rfl,by rw [hbs]; rfl,by rw [length_cons,hlength]⟩
  | case2 | case3 => exact ⟨[],_,_,rfl,rfl,rfl⟩

theorem commonFront_self (as : List α) : commonFront as as = as.length := by
  induction as with
  | nil => rfl
  | cons a as ih => rw [commonFront,if_pos rfl,ih,length_cons]

/-- The same from the back. -/
theorem commonBack_spec (as bs : List α) : ∃ as' bs' back, as = as' ++ back ∧ bs = bs' ++ back ∧
    back.length = commonFront as.reverse bs.reverse := by
  obtain ⟨front,as',bs',has,hbs,hlength⟩ := commonFront_spec as.reverse bs.reverse
  refine ⟨as'.reverse,bs'.reverse,front.reverse,?_,?_,by rw [length_reverse,hlength]⟩
  · rw [← reverse_append,← has,reverse_reverse]
  · rw [← reverse_append,← hbs,reverse_reverse]

theorem length_takeWhile_zip (as bs : List α) :
    ((as.zip bs).takeWhile fun p => decide (p.1 = p.2)).length = commonFront as bs := by
  fun_induction commonFront as bs with
  | case1 as b bs ih => simp [ih]
  | case2 a as b bs hne => simp [hne]
  | case3 as bs hnot =>
    cases as with
    | nil => simp
    | cons a as =>
      cases bs with
      | nil => simp
      | cons b bs => exact absurd rfl (hnot a as b bs rfl)

/-- The ends are taken back together over the common back, and not over the front. -/
def trimBack (old new : List α) (front : ℕ) : ℕ → ℕ → ℕ × ℕ
  | oldEnd + 1,newEnd + 1 =>
    if front < oldEnd + 1 ∧ front < newEnd + 1 ∧ old[oldEnd]? = new[newEnd]? then trimBack old new front oldEnd newEnd
    else (oldEnd + 1,newEnd + 1)
  | oldEnd,newEnd => (oldEnd,newEnd)

@[simp] theorem commonFront_nil_right (as : List α) : commonFront as [] = 0 := by
  cases as <;> rfl

@[simp] theorem commonFront_nil_left (bs : List α) : commonFront [] bs = 0 := rfl

theorem trimBack_eq (old new : List α) {front oldEnd newEnd : ℕ} (hold : oldEnd ≤ old.length)
    (hnew : newEnd ≤ new.length) (hfront : front ≤ oldEnd) (hfront' : front ≤ newEnd) {back : ℕ}
    (hback : back = commonFront ((old.take oldEnd).drop front).reverse ((new.take newEnd).drop front).reverse) :
    trimBack old new front oldEnd newEnd = (oldEnd - back,newEnd - back) := by
  fun_induction trimBack old new front oldEnd newEnd generalizing back with
  | case1 oldEnd newEnd hsame ih =>
    obtain ⟨hlt,hlt',hsame⟩ := hsame
    rw [getElem?_eq_getElem hold,getElem?_eq_getElem hnew,Option.some.injEq] at hsame
    rw [reverse_take_drop hold (by omega),reverse_take_drop hnew (by omega),hsame,commonFront,if_pos rfl] at hback
    rw [ih (by omega) (by omega) (by omega) (by omega) rfl,hback,Nat.succ_sub_succ,Nat.succ_sub_succ]
  | case2 oldEnd newEnd hdiffer =>
    have hzero : back = 0 := by
      rw [hback]
      by_cases hlt : front < oldEnd + 1
      · by_cases hlt' : front < newEnd + 1
        · rw [reverse_take_drop hold (by omega),reverse_take_drop hnew (by omega),commonFront,if_neg]
          intro heq
          exact hdiffer ⟨hlt,hlt',by rw [getElem?_eq_getElem hold,getElem?_eq_getElem hnew,heq]⟩
        · have hnil : (new.take (newEnd + 1)).drop front = [] := drop_eq_nil_of_le (by simp; omega)
          rw [hnil,reverse_nil,commonFront_nil_right]
      · have hnil : (old.take (oldEnd + 1)).drop front = [] := drop_eq_nil_of_le (by simp; omega)
        rw [hnil,reverse_nil,commonFront_nil_left]
    rw [hzero]
    rfl
  | case3 oldEnd newEnd hnot =>
    have hzero : back = 0 := by
      cases oldEnd with
      | zero => simpa using hback
      | succ oldEnd =>
        cases newEnd with
        | zero => simpa using hback
        | succ newEnd => exact absurd rfl (hnot oldEnd newEnd rfl)
    rw [hzero]
    rfl

/-- What the two searches find of two sequences. -/
structure Parts (old new front removed added back : List α) : Prop where
  old_eq : old = front ++ removed ++ back
  new_eq : new = front ++ added ++ back
  front_eq : commonFront old new = front.length
  back_eq : commonFront (old.drop front.length).reverse (new.drop front.length).reverse = back.length

theorem exists_parts (old new : List α) : ∃ front removed added back, Parts old new front removed added back := by
  obtain ⟨front,old',new',hold,hnew,hfront⟩ := commonFront_spec old new
  obtain ⟨removed,added,back,hremoved,hadded,hback⟩ := commonBack_spec old' new'
  refine ⟨front,removed,added,back,?_,?_,hfront.symm,?_⟩
  · rw [hold,hremoved,append_assoc]
  · rw [hnew,hadded,append_assoc]
  · rw [hold,hnew,drop_left,drop_left,hback]

variable {old new front removed added back : List α}

theorem Parts.trimBack (h : Parts old new front removed added back) :
    trimBack old new front.length old.length new.length =
      (front.length + removed.length,front.length + added.length) := by
  have hold := congrArg List.length h.old_eq
  have hnew := congrArg List.length h.new_eq
  simp only [length_append] at hold hnew
  rw [trimBack_eq old new (Nat.le_refl _) (Nat.le_refl _) (by omega) (by omega)
    (by rw [take_length,take_length,h.back_eq]),hold,hnew,Nat.add_sub_cancel,Nat.add_sub_cancel]

theorem Parts.same_iff (h : Parts old new front removed added back) : removed = [] ∧ added = [] ↔ old = new := by
  constructor
  · rintro ⟨rfl,rfl⟩
    rw [h.old_eq,h.new_eq]
  · rintro rfl
    have hlength := congrArg List.length h.old_eq
    have hlength' := congrArg List.length h.new_eq
    have hfront := h.front_eq
    rw [commonFront_self] at hfront
    simp only [length_append] at hlength hlength'
    exact ⟨length_eq_zero_iff.mp (by omega),length_eq_zero_iff.mp (by omega)⟩

end

end Mxterm.SequenceDiffs
