import Mathlib.Data.List.Basic

/-! Lists that are cut behind every separator, and positions in a row of pieces by their sizes. -/
namespace Mxterm.LineSplits

variable {α : Type} {sep : α} {as : List α} {pieces : List (List α)}

/-! ## Pieces -/

/-- Every piece but the last ends with the separator. -/
def splitAfter [DecidableEq α] (sep : α) : List α → List (List α)
  | [] => []
  | a :: as =>
    if a = sep then [a] :: splitAfter sep as
    else
      match splitAfter sep as with
      | [] => [[a]]
      | piece :: pieces => (a :: piece) :: pieces

/-- What a list is cut into: nothing is empty, and a separator stands at the end of every piece but perhaps the last,
  and
nowhere else. -/
def Cut (sep : α) : List (List α) → Prop
  | [] => True
  | piece :: pieces => piece ≠ [] ∧ sep ∉ piece.dropLast ∧ (pieces ≠ [] → piece.getLast? = some sep) ∧ Cut sep pieces

section
variable [DecidableEq α]

@[simp] theorem flatten_splitAfter (as : List α) : (splitAfter sep as).flatten = as := by
  induction as with
  | nil => rfl
  | cons a as ih =>
    rw [splitAfter]
    split
    · rw [List.flatten_cons,ih,List.singleton_append]
    · cases hrest : splitAfter sep as with
      | nil =>
        rw [hrest] at ih
        simp [← ih]
      | cons piece pieces =>
        rw [hrest] at ih
        simp [← ih]

theorem cut_splitAfter (as : List α) : Cut sep (splitAfter sep as) := by
  induction as with
  | nil => trivial
  | cons a as ih =>
    rw [splitAfter]
    split
    · rename_i ha
      exact ⟨List.cons_ne_nil a [],List.not_mem_nil,fun _ => by rw [ha]; rfl,ih⟩
    · rename_i ha
      cases hrest : splitAfter sep as with
      | nil => exact ⟨List.cons_ne_nil a [],List.not_mem_nil,fun h => absurd rfl h,trivial⟩
      | cons piece pieces =>
        rw [hrest] at ih
        obtain ⟨hne,hsep,hlast,hcut⟩ := ih
        refine ⟨List.cons_ne_nil a piece,?_,fun h => ?_,hcut⟩
        · rw [List.dropLast_cons_of_ne_nil hne]
          intro hmem
          rcases List.mem_cons.mp hmem with heq | hmem
          · exact ha heq.symm
          · exact hsep hmem
        · rw [List.getLast?_cons_of_ne_nil hne]
          exact hlast h

end

theorem Cut.drop (h : Cut sep pieces) (n : ℕ) : Cut sep (pieces.drop n) := by
  induction n generalizing pieces with
  | zero => exact h
  | succ n ih =>
    cases pieces with
    | nil => trivial
    | cons piece pieces => exact ih h.2.2.2

/-! ## Positions -/

end Mxterm.LineSplits
