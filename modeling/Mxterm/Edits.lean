import Mathlib.Data.Option.Basic
import Mathlib.Tactic.Common

/-! Recorded edits of a store: what each key held before and after, how a chain of edits is taken
back from its end, and how one edit is taken out of the middle. -/
namespace Mxterm.Edits

/-- For each key that an edit touches, what it found there and what it left. -/
abbrev Edit (κ α : Type) := κ → Option (α × α)

variable {κ α : Type}

namespace Edit

/-- The store holds what the edit found. -/
def Fits (e : Edit κ α) (d : κ → α) : Prop := ∀ k before after, e k = some (before,after) → d k = before

def perform (e : Edit κ α) (d : κ → α) : κ → α := fun k => ((e k).map Prod.snd).getD (d k)

/-- The edit that puts back what was there. -/
def reverse (e : Edit κ α) : Edit κ α := fun k => (e k).map Prod.swap

/-- No key is touched by both. -/
def Apart (e x : Edit κ α) : Prop := ∀ k, e k = none ∨ x k = none

variable {e x : Edit κ α} {d d' : κ → α} {k : κ} {before after : α}

theorem perform_touched (h : e k = some (before,after)) : e.perform d k = after := by
  simp [perform,h]

theorem perform_other (h : e k = none) : e.perform d k = d k := by simp [perform,h]

@[simp] theorem reverse_eq_none : e.reverse k = none ↔ e k = none := by simp [reverse]

theorem reverse_eq_some : e.reverse k = some (after,before) ↔ e k = some (before,after) := by
  cases h : e k with
  | none => simp [reverse,h]
  | some p =>
    obtain ⟨b,a⟩ := p
    simp [reverse,h,and_comm]

theorem Apart.reverse_right (h : e.Apart x) : e.Apart x.reverse := fun k =>
  (h k).imp_right reverse_eq_none.mpr

theorem Fits.of_agree (h : e.Fits d) (hagree : ∀ k, e k ≠ none → d' k = d k) : e.Fits d' := by
  intro k before after hk
  rw [hagree k (by simp [hk])]
  exact h k before after hk

theorem reverse_perform (h : e.Fits d) : e.reverse.perform (e.perform d) = d := by
  funext k
  cases hk : e k with
  | none => rw [perform_other (reverse_eq_none.mpr hk),perform_other hk]
  | some p => rw [perform_touched (reverse_eq_some.mpr hk),h k p.1 p.2 hk]

theorem fits_reverse (d : κ → α) : e.reverse.Fits (e.perform d) := by
  intro k after before hk
  exact perform_touched (reverse_eq_some.mp hk)

theorem perform_comm (h : e.Apart x) : e.perform (x.perform d) = x.perform (e.perform d) := by
  funext k
  rcases h k with hk | hk
  · rw [perform_other hk]
    cases hx : x k with
    | none => rw [perform_other hx,perform_other hx,perform_other hk]
    | some p => rw [perform_touched hx,perform_touched hx]
  · rw [perform_other hk]
    cases he : e k with
    | none => rw [perform_other he,perform_other he,perform_other hk]
    | some p => rw [perform_touched he,perform_touched he]

/-- The first of two edits counts where both touch a key. -/
def and (e x : Edit κ α) : Edit κ α := fun k => (e k).or (x k)

theorem perform_and : (e.and x).perform d = e.perform (x.perform d) := by
  funext k
  cases hk : e k with
  | none =>
    rw [perform_other hk]
    cases hx : x k with
    | none => rw [perform_other (by simp [and,hk,hx]),perform_other hx]
    | some p =>
      have hboth : e.and x k = some p := by simp [and,hk,hx]
      rw [perform_touched hboth,perform_touched hx]
  | some p =>
    have hboth : e.and x k = some p := by simp [and,hk]
    rw [perform_touched hboth,perform_touched hk]

theorem reverse_and : (e.and x).reverse = e.reverse.and x.reverse := by
  funext k
  cases hk : e k <;> simp [and,reverse,hk]

theorem Fits.and (he : e.Fits d) (hx : x.Fits d) : (e.and x).Fits d := by
  intro k before after hk
  cases hek : e k with
  | none => exact hx k before after (by simpa [Edit.and,hek] using hk)
  | some p => exact he k before after (by simpa [Edit.and,hek] using hk)

theorem Fits.left (h : (e.and x).Fits d) : e.Fits d := fun k before after hk =>
  h k before after (by simp [Edit.and,hk])

theorem Fits.right (h : (e.and x).Fits d) (hapart : e.Apart x) : x.Fits d := by
  intro k before after hk
  have hek : e k = none := (hapart k).resolve_right (by simp [hk])
  exact h k before after (by simp [Edit.and,hek,hk])

section Single

variable [DecidableEq κ] {k' : κ} {before' after' : α}

/-- An edit of one key. -/
def single (k : κ) (before after : α) : Edit κ α := fun x => if x = k then some (before,after) else none

@[simp] theorem single_self : single k before after k = some (before,after) := by simp [single]

theorem single_other (h : k' ≠ k) : single k before after k' = none := by simp [single,h]

theorem perform_single : (single k before after).perform d = Function.update d k after := by
  funext x
  by_cases hx : x = k
  · subst hx
    rw [perform_touched single_self,Function.update_self]
  · rw [perform_other (single_other hx),Function.update_of_ne hx]

theorem reverse_single : (single k before after).reverse = single k after before := by
  funext x
  by_cases hx : x = k
  · subst hx
    simp [reverse]
  · simp [reverse,single_other hx]

theorem fits_single : (single k before after).Fits d ↔ d k = before := by
  constructor
  · intro h
    exact h k before after single_self
  · intro h x b a hx
    by_cases hxk : x = k
    · subst hxk
      rw [single_self] at hx
      cases hx
      exact h
    · rw [single_other hxk] at hx
      cases hx

theorem apart_single (h : k ≠ k') : (single k before after).Apart (single k' before' after') := by
  intro x
  by_cases hx : x = k
  · subst hx
    exact .inr (single_other h)
  · exact .inl (single_other hx)

end Single

end Edit

/-- Edits one after the other, each of which finds what it recorded. -/
inductive Chain : (κ → α) → List (Edit κ α) → (κ → α) → Prop
  | nil (d : κ → α) : Chain d [] d
  | cons {e : Edit κ α} {es : List (Edit κ α)} {d d' : κ → α} : e.Fits d →
      Chain (e.perform d) es d' → Chain d (e :: es) d'

namespace Chain

variable {e : Edit κ α} {es fs : List (Edit κ α)} {d d' d'' : κ → α}

theorem append (h₁ : Chain d es d') (h₂ : Chain d' fs d'') : Chain d (es ++ fs) d'' := by
  induction h₁ with
  | nil => exact h₂
  | cons hfits _ ih => exact .cons hfits (ih h₂)

theorem split (h : Chain d (es ++ fs) d'') : ∃ d', Chain d es d' ∧ Chain d' fs d'' := by
  induction es generalizing d with
  | nil => exact ⟨d,.nil d,h⟩
  | cons e es ih =>
    cases h with
    | cons hfits hrest =>
      obtain ⟨d',h₁,h₂⟩ := ih hrest
      exact ⟨d',.cons hfits h₁,h₂⟩

theorem snoc (h : Chain d es d') (hfits : e.Fits d') : Chain d (es ++ [e]) (e.perform d') :=
  h.append (.cons hfits (.nil _))

/-- What a chain does not touch stays. -/
theorem other {k : κ} (h : Chain d es d') (hk : ∀ e ∈ es, e k = none) : d' k = d k := by
  induction h with
  | nil => rfl
  | cons _ _ ih =>
    rw [ih fun e he => hk e (List.mem_cons_of_mem _ he),
      Edit.perform_other (hk _ List.mem_cons_self)]

/-- Another edit below a chain that touches none of its keys. -/
theorem perform_apart {x : Edit κ α} (h : Chain d es d') (hapart : ∀ e ∈ es, e.Apart x) :
    Chain (x.perform d) es (x.perform d') := by
  induction h with
  | nil => exact .nil _
  | @cons e es d d' hfits _ ih =>
    have he := hapart e List.mem_cons_self
    refine .cons (hfits.of_agree fun k hk => ?_) ?_
    · exact Edit.perform_other ((he k).resolve_left hk)
    · rw [Edit.perform_comm he]
      exact ih fun e he => hapart e (List.mem_cons_of_mem _ he)

/-- An edit that no later one meets is taken out of the middle. -/
theorem remove (h : Chain d (es ++ e :: fs) d'') (hapart : ∀ f ∈ fs, f.Apart e) :
    e.reverse.Fits d'' ∧ Chain d (es ++ fs) (e.reverse.perform d'') := by
  obtain ⟨d',h₁,h₂⟩ := h.split
  cases h₂ with
  | cons hfits hrest =>
    constructor
    · refine (e.fits_reverse d').of_agree fun k hk => hrest.other fun f hf => ?_
      have he : e k ≠ none := fun he => hk (Edit.reverse_eq_none.mpr he)
      exact (hapart f hf k).resolve_right he
    · have hbelow := hrest.perform_apart fun f hf => (hapart f hf).reverse_right
      rw [e.reverse_perform hfits] at hbelow
      exact h₁.append hbelow

/-- The chain as it runs on another store that agrees on a set of keys with all its edits in it. -/
theorem agree {T : κ → Prop} [DecidablePred T] {f : κ → α} (h : Chain d es d')
    (htouched : ∀ e ∈ es, ∀ k, e k ≠ none → T k) (hagree : ∀ k, T k → f k = d' k) :
    Chain (fun k => if T k then d k else f k) es f := by
  induction h with
  | nil d =>
    have hsame : (fun k => if T k then d k else f k) = f := by
      funext k
      by_cases hk : T k
      · rw [if_pos hk,hagree k hk]
      · rw [if_neg hk]
    rw [hsame]
    exact .nil f
  | @cons e es d d' hfits hrest ih =>
    have hhead := htouched e List.mem_cons_self
    refine .cons (hfits.of_agree fun k hk => if_pos (hhead k hk)) ?_
    have hperform : (e.perform fun k => if T k then d k else f k) =
        fun k => if T k then e.perform d k else f k := by
      funext k
      cases hk : e k with
      | none => rw [Edit.perform_other hk,Edit.perform_other hk]
      | some p =>
        rw [if_pos (hhead k (by simp [hk])),Edit.perform_touched hk,Edit.perform_touched hk]
    rw [hperform]
    exact ih (fun x hx => htouched x (List.mem_cons_of_mem _ hx)) hagree

/-- The last edit is taken back. -/
theorem unsnoc (h : Chain d (es ++ [e]) d'') :
    e.reverse.Fits d'' ∧ Chain d es (e.reverse.perform d'') := by
  simpa using h.remove fun f hf => absurd hf List.not_mem_nil

end Chain

end Mxterm.Edits
