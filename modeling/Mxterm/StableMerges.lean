import Mathlib.Data.List.Basic

/-! Two sorted lists sorted together by a stable sort: the order among the members of one of them is kept, and where no
member of the one ties with a member of the other there is only one order in which they come out. -/
namespace Mxterm.StableMerges

open List

variable {α : Type} {le : α → α → Bool} {p : α → Bool} {l l' : List α}

theorem filter_mergeSort (htrans : ∀ a b c, le a b = true → le b c = true → le a c = true)
    (htotal : ∀ a b, (le a b || le b a) = true) (hsorted : (l.filter p).Pairwise (le · · = true)) :
    (l.mergeSort le).filter p = l.filter p := by
  have hsub : (l.filter p).Sublist ((l.mergeSort le).filter p) := by
    have hkept := (sublist_mergeSort htrans htotal hsorted filter_sublist).filter p
    simpa only [filter_filter,Bool.and_self] using hkept
  exact (hsub.eq_of_length ((mergeSort_perm l le).filter p).length_eq.symm).symm

theorem mem_of_filter_eq (hyes : l.filter p = l'.filter p) (hno : l.filter (! p ·) = l'.filter (! p ·)) {a : α}
    (ha : a ∈ l) : a ∈ l' := by
  by_cases hp : p a = true
  · have hmem : a ∈ l.filter p := mem_filter.mpr ⟨ha,hp⟩
    rw [hyes] at hmem
    exact mem_of_mem_filter hmem
  · have hmem : a ∈ l.filter (! p ·) := mem_filter.mpr ⟨ha,by simp [hp]⟩
    rw [hno] at hmem
    exact mem_of_mem_filter hmem

/-- Sorted lists with the same members of each kind, in the same order within a kind, are the same. -/
theorem eq_of_filter_eq (hl : l.Pairwise (le · · = true)) (hl' : l'.Pairwise (le · · = true))
    (hyes : l.filter p = l'.filter p) (hno : l.filter (! p ·) = l'.filter (! p ·))
    (htie : ∀ a ∈ l, ∀ b ∈ l, p a = true → p b = false → ¬ (le a b = true ∧ le b a = true)) : l = l' := by
  induction l generalizing l' with
  | nil =>
    symm
    rw [eq_nil_iff_forall_not_mem]
    intro a ha
    exact not_mem_nil (mem_of_filter_eq hyes.symm hno.symm ha)
  | cons a l ih =>
    cases l' with
    | nil => exact absurd (mem_of_filter_eq hyes hno mem_cons_self) not_mem_nil
    | cons b l' =>
      rw [pairwise_cons] at hl hl'
      have hkind : p a = p b := by
        by_contra hne
        have hab : a ≠ b := fun h => hne (congrArg p h)
        have ha : a ∈ l' := (mem_cons.mp (mem_of_filter_eq hyes hno mem_cons_self)).resolve_left hab
        have hb : b ∈ l :=
          (mem_cons.mp (mem_of_filter_eq hyes.symm hno.symm mem_cons_self)).resolve_left hab.symm
        have hboth := And.intro (hl.1 b hb) (hl'.1 a ha)
        cases hpa : p a with
        | true =>
          exact htie a mem_cons_self b (mem_cons_of_mem a hb) hpa (by simpa [hpa] using hne) hboth
        | false =>
          exact htie b (mem_cons_of_mem a hb) a mem_cons_self (by simpa [hpa] using hne) hpa hboth.symm
      have htail (hsame : a = b ∧ l.filter p = l'.filter p ∧ l.filter (! p ·) = l'.filter (! p ·)) :
          a :: l = b :: l' := by
        rw [hsame.1,ih hl.2 hl'.2 hsame.2.1 hsame.2.2 fun c hc d hd =>
          htie c (mem_cons_of_mem a hc) d (mem_cons_of_mem a hd)]
      apply htail
      cases hpa : p a with
      | true => simpa [hpa,← hkind,and_assoc] using And.intro hyes hno
      | false => simpa [hpa,← hkind,and_left_comm] using And.intro hyes hno

/-- Sorting brings out the order in which both kinds are sorted. -/
theorem mergeSort_eq (htrans : ∀ a b c, le a b = true → le b c = true → le a c = true)
    (htotal : ∀ a b, (le a b || le b a) = true) (hl : l.Pairwise (le · · = true))
    (hyes : l'.filter p = l.filter p) (hno : l'.filter (! p ·) = l.filter (! p ·))
    (htie : ∀ a ∈ l, ∀ b ∈ l, p a = true → p b = false → ¬ (le a b = true ∧ le b a = true)) :
    l'.mergeSort le = l := by
  symm
  apply eq_of_filter_eq hl (pairwise_mergeSort htrans htotal l') ?_ ?_ htie
  · rw [filter_mergeSort htrans htotal,hyes]
    rw [hyes]
    exact hl.filter p
  · rw [filter_mergeSort htrans htotal,hno]
    rw [hno]
    exact hl.filter _

end Mxterm.StableMerges
