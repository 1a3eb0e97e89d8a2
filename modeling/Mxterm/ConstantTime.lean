import Mathlib.Data.List.Basic

/-! Bytes compared without a branch: the differences of all pairs are collected in one byte. -/
namespace Mxterm.ConstantTime

def difference (as bs : List UInt8) : UInt8 := (as.zip bs).foldl (fun diff pair => diff ||| (pair.1 ^^^ pair.2)) 0

theorem foldl_difference (pairs : List (UInt8 × UInt8)) (start : UInt8) :
    pairs.foldl (fun diff pair => diff ||| (pair.1 ^^^ pair.2)) start = 0 ↔
      start = 0 ∧ ∀ pair ∈ pairs, pair.1 = pair.2 := by
  induction pairs generalizing start with
  | nil => simp
  | cons pair pairs ih => simp [ih,and_assoc]

theorem eq_of_zip {as bs : List UInt8} (hlength : as.length = bs.length) (h : ∀ pair ∈ as.zip bs, pair.1 = pair.2) :
    as = bs := by
  induction as generalizing bs with
  | nil => exact (List.length_eq_zero_iff.mp hlength.symm).symm
  | cons a as ih =>
    cases bs with
    | nil => cases hlength
    | cons b bs =>
      obtain ⟨hhead,htail⟩ := List.forall_mem_cons.mp h
      exact congrArg₂ List.cons hhead (ih (Nat.succ.inj hlength) htail)

/-- No difference means the same bytes. -/
theorem difference_eq_zero {as bs : List UInt8} (hlength : as.length = bs.length) : difference as bs = 0 ↔ as = bs := by
  rw [difference,foldl_difference]
  constructor
  · exact fun h => eq_of_zip hlength h.2
  · rintro rfl
    refine ⟨rfl,fun pair hpair => ?_⟩
    obtain ⟨i,hi,rfl⟩ := List.mem_iff_getElem.mp hpair
    rw [List.getElem_zip]

end Mxterm.ConstantTime
