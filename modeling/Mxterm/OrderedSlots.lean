import Mathlib.Data.List.Sort

/-! Slots with numbers, read out in the order of their numbers, and what becomes of each slot when the writes
to several slots are interleaved. -/
namespace Mxterm

open List

variable {α : Type}

def Earlier (a b : ℕ × α) : Prop := a.1 < b.1

structure Slots (α : Type) where
  rows : List (ℕ × α)
  ordered : rows.Pairwise Earlier

namespace Slots

def empty : Slots α := ⟨[],.nil⟩

def valueAt (rows : List (ℕ × α)) (k : ℕ) : Option α := (rows.find? fun row => row.1 = k).map Prod.snd

def get? (s : Slots α) (k : ℕ) : Option α := valueAt s.rows k

def values (s : Slots α) : List α := s.rows.map Prod.snd

def updateRows (k : ℕ) (f : Option α → α) : List (ℕ × α) → List (ℕ × α)
  | [] => [(k,f none)]
  | row :: rows =>
    if k = row.1 then (k,f (some row.2)) :: rows
    else if k < row.1 then (k,f none) :: row :: rows
    else row :: updateRows k f rows

variable {rows : List (ℕ × α)}

theorem mem_updateRows {k : ℕ} {f : Option α → α} {row : ℕ × α} (h : row ∈ updateRows k f rows) :
    row.1 = k ∨ row ∈ rows := by
  induction rows with
  | nil => exact Or.inl (congrArg Prod.fst (mem_singleton.mp h))
  | cons first rows ih =>
    rw [updateRows] at h
    split_ifs at h with heq hlt
    · rcases mem_cons.mp h with rfl | h
      · exact Or.inl rfl
      · exact Or.inr (mem_cons_of_mem _ h)
    · rcases mem_cons.mp h with rfl | h
      · exact Or.inl rfl
      · exact Or.inr h
    · rcases mem_cons.mp h with rfl | h
      · exact Or.inr mem_cons_self
      · exact (ih h).imp_right (mem_cons_of_mem _)

theorem ordered_updateRows (k : ℕ) (f : Option α → α) (h : rows.Pairwise Earlier) :
    (updateRows k f rows).Pairwise Earlier := by
  induction rows with
  | nil => exact pairwise_singleton _ _
  | cons first rows ih =>
    obtain ⟨hfirst,hrows⟩ := pairwise_cons.mp h
    rw [updateRows]
    split_ifs with heq hlt
    · refine pairwise_cons.mpr ⟨fun row hrow => ?_,hrows⟩
      have hbelow : first.1 < row.1 := hfirst row hrow
      change k < row.1
      omega
    · refine pairwise_cons.mpr ⟨fun row hrow => ?_,h⟩
      change k < row.1
      rcases mem_cons.mp hrow with rfl | hrow
      · exact hlt
      · have hbelow : first.1 < row.1 := hfirst row hrow
        omega
    · refine pairwise_cons.mpr ⟨fun row hrow => ?_,ih hrows⟩
      rcases mem_updateRows hrow with hk | hrow
      · change first.1 < row.1
        omega
      · exact hfirst row hrow

def update (s : Slots α) (k : ℕ) (f : Option α → α) : Slots α :=
  ⟨updateRows k f s.rows,ordered_updateRows k f s.ordered⟩

theorem valueAt_eq_none {k : ℕ} (h : ∀ row ∈ rows, k < row.1) : valueAt rows k = none := by
  rw [valueAt,Option.map_eq_none_iff,find?_eq_none]
  intro row hrow
  have hlt := h row hrow
  simp only [decide_eq_true_eq]
  omega

theorem valueAt_cons (first : ℕ × α) (rows : List (ℕ × α)) (k : ℕ) :
    valueAt (first :: rows) k = if first.1 = k then some first.2 else valueAt rows k := by
  by_cases h : first.1 = k <;> simp [h,valueAt]

theorem valueAt_updateRows (k : ℕ) (f : Option α → α) (h : rows.Pairwise Earlier) (j : ℕ) :
    valueAt (updateRows k f rows) j = if j = k then some (f (valueAt rows k)) else valueAt rows j := by
  induction rows with
  | nil =>
    rw [updateRows]
    by_cases hj : j = k
    · simp [hj,valueAt]
    · simp [hj,Ne.symm hj,valueAt]
  | cons first rows ih =>
    obtain ⟨hfirst,hrows⟩ := pairwise_cons.mp h
    by_cases heq : k = first.1
    · rw [updateRows,if_pos heq,valueAt_cons,valueAt_cons,valueAt_cons,heq]
      by_cases hj : j = first.1
      · simp [hj]
      · simp [hj,Ne.symm hj]
    · by_cases hlt : k < first.1
      · have hnone : valueAt (first :: rows) k = none := by
          apply valueAt_eq_none
          intro row hrow
          rcases mem_cons.mp hrow with rfl | hrow
          · exact hlt
          · have hbelow : first.1 < row.1 := hfirst row hrow
            omega
        rw [updateRows,if_neg heq,if_pos hlt,valueAt_cons,hnone]
        by_cases hj : j = k
        · simp [hj]
        · simp [hj,Ne.symm hj]
      · rw [updateRows,if_neg heq,if_neg hlt,valueAt_cons,ih hrows,valueAt_cons,valueAt_cons]
        by_cases hj : j = k
        · simp [hj,Ne.symm heq]
        · simp [hj]

theorem get?_update (s : Slots α) (k : ℕ) (f : Option α → α) (j : ℕ) :
    (s.update k f).get? j = if j = k then some (f (s.get? k)) else s.get? j :=
  valueAt_updateRows k f s.ordered j

theorem mem_iff_valueAt (h : rows.Pairwise Earlier) (k : ℕ) (a : α) : (k,a) ∈ rows ↔ valueAt rows k = some a := by
  induction rows with
  | nil => simp [valueAt]
  | cons first rows ih =>
    obtain ⟨hfirst,hrows⟩ := pairwise_cons.mp h
    rw [valueAt_cons,mem_cons,ih hrows]
    by_cases hk : first.1 = k
    · have hnone : valueAt rows k = none := valueAt_eq_none fun row hrow => hk ▸ hfirst row hrow
      rw [if_pos hk,hnone,Option.some.injEq]
      constructor
      · rintro (rfl | hnever)
        · rfl
        · cases hnever
      · rintro rfl
        exact Or.inl (by rw [← hk])
    · rw [if_neg hk]
      constructor
      · rintro (rfl | hrest)
        · exact absurd rfl hk
        · exact hrest
      · exact Or.inr

/-- The rows are known from the values in the slots. -/
theorem rows_eq {s : Slots α} {placed : List (ℕ × α)} (h : placed.Pairwise Earlier)
    (hplaced : ∀ row ∈ placed, s.get? row.1 = some row.2)
    (hothers : ∀ k, k ∉ placed.map Prod.fst → s.get? k = none) : s.rows = placed := by
  have hirrefl : Std.Irrefl (Earlier : ℕ × α → ℕ × α → Prop) := ⟨fun a => Nat.lt_irrefl a.1⟩
  have hantisymm : Std.Antisymm (Earlier : ℕ × α → ℕ × α → Prop) :=
    ⟨fun a b hab hba => absurd (Nat.lt_trans hab hba) (Nat.lt_irrefl _)⟩
  refine s.ordered.eq_of_mem_iff h fun ⟨k,a⟩ => ?_
  rw [mem_iff_valueAt s.ordered]
  constructor
  · intro ha
    by_cases hk : k ∈ placed.map Prod.fst
    · obtain ⟨row,hrow,rfl⟩ := mem_map.mp hk
      have hsame := (hplaced row hrow).symm.trans ha
      rw [← Option.some.inj hsame]
      exact hrow
    · rw [show valueAt s.rows k = none from hothers k hk] at ha
      cases ha
  · exact hplaced (k,a)

/-! ## Interleaved writes -/

/-- A write to a slot. -/
abbrev Write (α : Type) := ℕ × (Option α → α)

def write (s : Slots α) (w : Write α) : Slots α := s.update w.1 w.2

/-- What the writes to one slot make of it. -/
def slotAfter (a : Option α) (writes : List (Option α → α)) : Option α :=
  writes.foldl (fun a f => some (f a)) a

def writesTo (k : ℕ) (writes : List (Write α)) : List (Option α → α) :=
  (writes.filter fun w => w.1 = k).map Prod.snd

/-- The writes to the other slots do not matter. -/
theorem get?_foldl_write (s : Slots α) (writes : List (Write α)) (k : ℕ) :
    (writes.foldl write s).get? k = slotAfter (s.get? k) (writesTo k writes) := by
  induction writes generalizing s with
  | nil => rfl
  | cons w writes ih =>
    rw [foldl_cons,ih,write,get?_update]
    by_cases h : w.1 = k
    · subst h
      simp [writesTo,slotAfter]
    · simp [writesTo,h,Ne.symm h]

/-- Where every slot that is written gets its value in the end, the values stand in the order of the slots. -/
theorem values_foldl_write {writes : List (Write α)} {placed : List (ℕ × α)} (h : placed.Pairwise Earlier)
    (hplaced : ∀ row ∈ placed, slotAfter none (writesTo row.1 writes) = some row.2)
    (hslots : ∀ w ∈ writes, w.1 ∈ placed.map Prod.fst) :
    (writes.foldl write empty).values = placed.map Prod.snd := by
  rw [values,rows_eq h]
  · intro row hrow
    rw [get?_foldl_write]
    exact hplaced row hrow
  · intro k hk
    have hnone : writes.filter (fun w => w.1 = k) = [] := by
      rw [filter_eq_nil_iff]
      intro w hw hwk
      exact hk (of_decide_eq_true hwk ▸ hslots w hw)
    rw [get?_foldl_write,writesTo,hnone]
    rfl

end Slots
end Mxterm
