import Mathlib.Data.List.Infix

/-! The occurrences of a pattern in a text, the search for the first one, and the pieces between those that a search
from the left finds, each one behind the end of the last. -/
namespace Mxterm.Occurrences

open List

variable {α : Type} [DecidableEq α] {pattern text before rest : List α}

def OccursAt (pattern text : List α) (i : ℕ) : Prop := pattern <+: text.drop i

/-- What is before the first occurrence, and what is behind it. -/
def findFirst (pattern : List α) : List α → Option (List α × List α)
  | [] => if pattern = [] then some ([],[]) else none
  | a :: text =>
    if pattern <+: a :: text then some ([],(a :: text).drop pattern.length)
    else (findFirst pattern text).map fun found => (a :: found.1,found.2)

/-- The search with room for some more occurrences. -/
def piecesFrom (pattern : List α) : ℕ → List α → List (List α)
  | 0, text => [text]
  | fuel + 1, text =>
    match findFirst pattern text with
    | none => [text]
    | some (before,rest) => before :: piecesFrom pattern fuel rest

/-- The pieces of a text between the occurrences of a pattern that is not empty. -/
def pieces (pattern text : List α) : List (List α) := piecesFrom pattern text.length text

def count (pattern text : List α) : ℕ := (pieces pattern text).length - 1

def replaceFirst (pattern new text : List α) : List α :=
  match findFirst pattern text with
  | none => text
  | some (before,rest) => before ++ new ++ rest

def replaceAll (pattern new text : List α) : List α := new.intercalate (pieces pattern text)

theorem findFirst_empty : findFirst pattern [] = if pattern = [] then some ([],[]) else none := rfl

theorem findFirst_cons (a : α) (text : List α) : findFirst pattern (a :: text) =
    if pattern <+: a :: text then some ([],(a :: text).drop pattern.length)
    else (findFirst pattern text).map fun found => (a :: found.1,found.2) := rfl

theorem findFirst_append (h : findFirst pattern text = some (before,rest)) : text = before ++ pattern ++ rest := by
  induction text generalizing before with
  | nil =>
    rw [findFirst_empty] at h
    split_ifs at h with hnil
    cases h
    simp [hnil]
  | cons a text ih =>
    rw [findFirst_cons] at h
    split_ifs at h with hprefix
    · cases h
      exact (prefix_iff_eq_append.mp hprefix).symm
    · obtain ⟨⟨before',rest'⟩,hfound,heq⟩ := Option.map_eq_some_iff.mp h
      cases heq
      rw [ih hfound,append_assoc,append_assoc]
      rfl

/-- No occurrence begins before the first one. -/
theorem not_occursAt_of_findFirst (h : findFirst pattern text = some (before,rest)) {i : ℕ} (hi : i < before.length) :
    ¬ OccursAt pattern text i := by
  induction text generalizing before i with
  | nil =>
    rw [findFirst_empty] at h
    split_ifs at h
    cases h
    cases hi
  | cons a text ih =>
    rw [findFirst_cons] at h
    split_ifs at h with hprefix
    · cases h
      cases hi
    · obtain ⟨⟨before',rest'⟩,hfound,heq⟩ := Option.map_eq_some_iff.mp h
      cases heq
      cases i with
      | zero => exact hprefix
      | succ i => exact ih hfound (Nat.lt_of_succ_lt_succ hi)

theorem findFirst_eq_none (h : findFirst pattern text = none) (i : ℕ) : ¬ OccursAt pattern text i := by
  induction text generalizing i with
  | nil =>
    rw [findFirst_empty] at h
    split_ifs at h with hnil
    rw [OccursAt,drop_nil,prefix_nil]
    exact hnil
  | cons a text ih =>
    rw [findFirst_cons] at h
    split_ifs at h with hprefix
    cases i with
    | zero => exact hprefix
    | succ i => exact ih (Option.map_eq_none_iff.mp h) i

theorem occursAt_of_findFirst (h : findFirst pattern text = some (before,rest)) :
    OccursAt pattern text before.length := by
  rw [OccursAt,findFirst_append h,append_assoc,drop_left]
  exact prefix_append pattern rest

/-- What is found stays found when the text goes on. -/
theorem findFirst_append_right (more : List α) (h : findFirst pattern text = some (before,rest)) :
    findFirst pattern (text ++ more) = some (before,rest ++ more) := by
  induction text generalizing before with
  | nil =>
    rw [findFirst_empty] at h
    split_ifs at h with hnil
    cases h
    subst hnil
    cases more <;> simp [findFirst_empty,findFirst_cons]
  | cons a text ih =>
    rw [findFirst_cons] at h
    rw [cons_append,findFirst_cons]
    split_ifs at h with hprefix
    · cases h
      have hstill : pattern <+: a :: (text ++ more) := hprefix.trans (prefix_append (a :: text) more)
      rw [if_pos hstill,← cons_append,drop_append_of_le_length hprefix.length_le]
    · obtain ⟨⟨before',rest'⟩,hfound,heq⟩ := Option.map_eq_some_iff.mp h
      cases heq
      have hlength := congrArg List.length (findFirst_append hfound)
      simp only [length_append] at hlength
      have hstill : ¬ pattern <+: a :: (text ++ more) := fun hlater => hprefix
        (prefix_of_prefix_length_le hlater (prefix_append (a :: text) more)
          (by rw [length_cons]; omega))
      rw [if_neg hstill,ih hfound]
      rfl

/-- Before its last byte has come, an occurrence is not found. -/
theorem findFirst_take {n : ℕ} (h : findFirst pattern text = some (before,rest))
    (hn : n < before.length + pattern.length) : findFirst pattern (text.take n) = none := by
  cases hfound : findFirst pattern (text.take n) with
  | none => rfl
  | some found =>
    have hlater := findFirst_append_right (text.drop n) hfound
    rw [take_append_drop,h] at hlater
    cases hlater
    have hlength := congrArg List.length (findFirst_append hfound)
    simp only [length_append,length_take] at hlength
    omega

theorem findFirst_of_not_mem {a : α} (ha : a ∈ pattern) (htext : a ∉ text) : findFirst pattern text = none := by
  cases hfound : findFirst pattern text with
  | none => rfl
  | some found =>
    rw [findFirst_append hfound] at htext
    exact absurd (mem_append_left _ (mem_append_right _ ha)) htext

/-- A pattern that begins with something new is found where it stands. -/
theorem findFirst_of_head {a : α} (hpattern : pattern.head? = some a) (hbefore : a ∉ before) :
    findFirst pattern (before ++ pattern ++ rest) = some (before,rest) := by
  obtain ⟨pattern',rfl⟩ := head?_eq_some_iff.mp hpattern
  induction before with
  | nil =>
    have hhere : a :: pattern' <+: a :: (pattern' ++ rest) := prefix_append (a :: pattern') rest
    rw [nil_append,cons_append,findFirst_cons,if_pos hhere,← cons_append,drop_left]
  | cons b before ih =>
    obtain ⟨hne,hbefore⟩ := not_or.mp (fun h => hbefore (mem_cons.mpr h))
    have hnot : ¬ a :: pattern' <+: b :: (before ++ a :: pattern' ++ rest) := fun h =>
      hne (cons_prefix_cons.mp h).1
    rw [cons_append,cons_append,findFirst_cons,if_neg hnot,ih hbefore]
    rfl

theorem piecesFrom_ne_nil (fuel : ℕ) : piecesFrom pattern fuel text ≠ [] := by
  cases fuel with
  | zero => exact cons_ne_nil _ _
  | succ fuel =>
    rw [piecesFrom]
    split <;> exact cons_ne_nil _ _

theorem piecesFrom_intercalate (fuel : ℕ) : pattern.intercalate (piecesFrom pattern fuel text) = text := by
  induction fuel generalizing text with
  | zero => simp [piecesFrom]
  | succ fuel ih =>
    rw [piecesFrom]
    split
    · simp
    · rename_i before rest hfound
      cases hpieces : piecesFrom pattern fuel rest with
      | nil => exact absurd hpieces (piecesFrom_ne_nil fuel)
      | cons piece more =>
        rw [intercalate_cons_cons,← hpieces,ih]
        exact (findFirst_append hfound).symm

/-- The pieces and the pattern between them are the text. -/
theorem pieces_intercalate : pattern.intercalate (pieces pattern text) = text := piecesFrom_intercalate _

theorem length_piecesFrom {fuel : ℕ} :
    (piecesFrom pattern fuel text).length = 1 ↔ fuel = 0 ∨ findFirst pattern text = none := by
  cases fuel with
  | zero => simp [piecesFrom]
  | succ fuel =>
    rw [piecesFrom]
    cases hfound : findFirst pattern text with
    | none => simp
    | some found => simp [piecesFrom_ne_nil]

theorem findFirst_nil (hpattern : pattern ≠ []) : findFirst pattern [] = none := if_neg hpattern

/-- One occurrence is found when there is none behind it. -/
theorem count_eq_one (hpattern : pattern ≠ []) :
    count pattern text = 1 ↔ ∃ before rest, findFirst pattern text = some (before,rest) ∧
      findFirst pattern rest = none := by
  cases text with
  | nil => simp [count,pieces,piecesFrom,findFirst_nil hpattern]
  | cons a text =>
    rw [count,pieces,length_cons,piecesFrom]
    cases hfound : findFirst pattern (a :: text) with
    | none => simp
    | some found =>
      obtain ⟨before,rest⟩ := found
      simp only [length_cons,Nat.add_sub_cancel,length_piecesFrom,Option.some.injEq,Prod.mk.injEq]
      constructor
      · rintro (hempty | hnone)
        · have hlength := congrArg List.length (findFirst_append hfound)
          have hpos := length_pos_of_ne_nil hpattern
          simp only [length_cons,length_append,hempty] at hlength
          refine ⟨before,rest,⟨rfl,rfl⟩,?_⟩
          rw [length_eq_zero_iff.mp (show rest.length = 0 by omega)]
          exact findFirst_nil hpattern
        · exact ⟨before,rest,⟨rfl,rfl⟩,hnone⟩
      · rintro ⟨before',rest',⟨rfl,rfl⟩,hnone⟩
        exact .inr hnone

theorem findFirst_self (hpattern : pattern ≠ []) (rest : List α) :
    findFirst pattern (pattern ++ rest) = some ([],rest) := by
  obtain ⟨a,pattern,rfl⟩ := exists_cons_of_ne_nil hpattern
  have hprefix : a :: pattern <+: a :: (pattern ++ rest) := prefix_append (a :: pattern) rest
  rw [cons_append,findFirst_cons,if_pos hprefix,← cons_append,drop_left]

/-- A pattern that does not hold the separator is looked for on both sides of it. -/
theorem findFirst_separated {separator : α} (hseparator : separator ∉ pattern) (hpattern : pattern ≠ [])
    (hbefore : ¬ pattern <:+: before) (rest : List α) : findFirst pattern (before ++ separator :: rest) =
      (findFirst pattern rest).map fun found => (before ++ separator :: found.1,found.2) := by
  induction before with
  | nil =>
    have hnot : ¬ pattern <+: separator :: rest := by
      intro h
      obtain hnil | ⟨tail,rfl,-⟩ := prefix_cons_iff.mp h
      · exact hpattern hnil
      · exact hseparator mem_cons_self
    rw [nil_append,findFirst_cons,if_neg hnot]
    rfl
  | cons a before ih =>
    have hnot : ¬ pattern <+: a :: (before ++ separator :: rest) := by
      intro h
      obtain ⟨tail,heq⟩ := h
      rw [← cons_append] at heq
      obtain ⟨more,hmore,-⟩ | ⟨more,rfl,hmore⟩ := append_eq_append_iff.mp heq
      · exact hbefore (hmore ▸ (prefix_append pattern more).isInfix)
      · cases more with
        | nil => exact hbefore (by rw [append_nil])
        | cons b more =>
          obtain ⟨rfl,-⟩ := List.cons.inj hmore
          exact hseparator (mem_append_right _ mem_cons_self)
    rw [cons_append,findFirst_cons,if_neg hnot,ih fun h => hbefore (h.trans (suffix_cons a before).isInfix),
      Option.map_map]
    rfl

/-- Two occurrences share a place of the text. -/
def Overlapped (pattern text : List α) : Prop :=
  ∃ i j, i < j ∧ j < i + pattern.length ∧ OccursAt pattern text i ∧ OccursAt pattern text j

/-- Other occurrences than the one that is found begin in it. -/
theorem only_iff (h : findFirst pattern text = some (before,rest)) (hrest : findFirst pattern rest = none) :
    (∀ j, OccursAt pattern text j ↔ j = before.length) ↔ ¬ Overlapped pattern text := by
  constructor
  · rintro honly ⟨i,j,hlt,-,hi,hj⟩
    rw [(honly i).mp hi,(honly j).mp hj] at hlt
    exact Nat.lt_irrefl _ hlt
  · intro hnot j
    constructor
    · intro hj
      by_contra hne
      have hnotBefore : ¬ j < before.length := fun hlt => not_occursAt_of_findFirst h hlt hj
      by_cases hinside : j < before.length + pattern.length
      · exact hnot ⟨before.length,j,by omega,hinside,occursAt_of_findFirst h,hj⟩
      · apply findFirst_eq_none hrest (j - (before ++ pattern).length)
        rw [OccursAt] at hj ⊢
        rwa [findFirst_append h,drop_append,drop_eq_nil_of_le (by simpa using hinside)] at hj
    · rintro rfl
      exact occursAt_of_findFirst h

theorem replaceFirst_of_findFirst (new : List α) (h : findFirst pattern text = some (before,rest)) :
    replaceFirst pattern new text = before ++ new ++ rest := by
  rw [replaceFirst,h]

end Mxterm.Occurrences
