import Mathlib.Logic.Function.Basic

/-! Owners that keep values under accounts. Each record of an owner names at most one account;
a step writes or removes one record together with a value. -/
namespace Mxterm

open Function

structure Ledger (ω α ν : Type) where
  /-- `none` when the owner has no record, `some none` when its record names no account. -/
  reference : ω → Option (Option α)
  values : α → Option ν

namespace Ledger
variable {ω κ α ν : Type}

/-- Accounts by owner and kind, no two of which coincide. -/
structure Accounts (ω κ α : Type) where
  account : ω → κ → α
  injective : ∀ {o p k l}, account o k = account p l → o = p ∧ k = l

instance : CoeFun (Accounts ω κ α) fun _ => ω → κ → α := ⟨Accounts.account⟩

def Stored (l : Ledger ω α ν) (owner : ω) : Prop := (l.reference owner).isSome

variable [DecidableEq ω] [DecidableEq α]

def removed (values : α → Option ν) : Option α → α → Option ν
  | some account => Function.update values account none
  | none => values

/-- What writing or deleting the record of one owner does. -/
inductive Step (accounts : Accounts ω κ α) (owner : ω) : Ledger ω α ν → Ledger ω α ν → Prop
  | store (l : Ledger ω α ν) (kind : κ) (value : ν) : Step accounts owner l
      ⟨Function.update l.reference owner (some (some (accounts owner kind))),
        Function.update l.values (accounts owner kind) (some value)⟩
  | keep (l : Ledger ω α ν) (account : α) : l.reference owner = some (some account) →
      Step accounts owner l l
  | drop (l : Ledger ω α ν) : Step accounts owner l
      ⟨Function.update l.reference owner (some none),l.values⟩
  | delete (l : Ledger ω α ν) (reference : Option α) : l.reference owner = some reference →
      Step accounts owner l ⟨Function.update l.reference owner none,removed l.values reference⟩

/-- A record names an account of its own owner. -/
def Owned (accounts : Accounts ω κ α) (l : Ledger ω α ν) : Prop :=
  ∀ owner account, l.reference owner = some (some account) → ∃ kind, account = accounts owner kind

/-- An account that a record names holds a value. -/
def Resolves (l : Ledger ω α ν) : Prop :=
  ∀ owner account, l.reference owner = some (some account) → (l.values account).isSome

/-- A value is held only under the account its owner's record names. -/
def Tidy (accounts : Accounts ω κ α) (l : Ledger ω α ν) : Prop :=
  ∀ owner kind, (l.values (accounts owner kind)).isSome →
    l.reference owner = some (some (accounts owner kind))

/-- The step leaves the owner its account, or no record at all. -/
def Conserves (owner : ω) (l m : Ledger ω α ν) : Prop :=
  ∀ account, l.reference owner = some (some account) →
    m.reference owner = none ∨ m.reference owner = some (some account)

variable {accounts : Accounts ω κ α} {owner : ω} {l m : Ledger ω α ν}

namespace Step

theorem reference_of_ne (h : Step accounts owner l m) {other : ω} (hne : other ≠ owner) :
    m.reference other = l.reference other := by
  cases h with
  | store kind value => exact update_of_ne hne _ _
  | keep account href => rfl
  | drop | delete => exact update_of_ne hne _ _

/-- The values of other owners are neither changed nor removed. -/
theorem values_of_ne (h : Step accounts owner l m) (hl : Owned accounts l) {other : ω}
    (hne : other ≠ owner) (kind : κ) :
    m.values (accounts other kind) = l.values (accounts other kind) := by
  have hforeign : ∀ k, accounts other kind ≠ accounts owner k := fun k he =>
    hne (accounts.injective he).1
  cases h with
  | store k value => exact update_of_ne (hforeign k) _ _
  | keep | drop => rfl
  | delete reference href =>
    cases reference with
    | none => rfl
    | some account =>
      obtain ⟨k,rfl⟩ := hl owner account href
      exact update_of_ne (hforeign k) _ _

theorem resolves (h : Step accounts owner l m) (howned : Owned accounts l) (hl : Resolves l) :
    Resolves m := by
  intro other account href
  by_cases hother : other = owner
  · subst hother
    cases h with
    | store kind value =>
      simp only [update_self,Option.some.injEq] at href
      simp [← href]
    | keep _ _ => exact hl other account href
    | drop | delete => simp at href
  · rw [h.reference_of_ne hother] at href
    obtain ⟨kind,rfl⟩ := howned other account href
    exact h.values_of_ne howned hother kind ▸ hl other _ href

/-- A step that conserves the owner's account leaves no value behind. -/
theorem tidy (h : Step accounts owner l m) (howned : Owned accounts l)
    (hconserves : Conserves owner l m) (hl : Tidy accounts l) : Tidy accounts m := by
  intro other kind hvalue
  by_cases hother : other = owner
  · subst hother
    cases h with
    | store k value =>
      by_cases hkind : kind = k
      · simp [hkind]
      · have hne : accounts other kind ≠ accounts other k := fun he => hkind (accounts.injective he).2
        simp only [update_of_ne hne] at hvalue
        rcases hconserves _ (hl other kind hvalue) with hgone | hkept
        · simp at hgone
        · exact hkept
    | keep _ _ => exact hl other kind hvalue
    | drop =>
      rcases hconserves _ (hl other kind hvalue) with hgone | hkept
      · simp at hgone
      · exact hkept
    | delete reference href =>
      have hbefore : (l.values (accounts other kind)).isSome := by
        cases reference with
        | none => exact hvalue
        | some account =>
          by_cases he : accounts other kind = account
          · simp [removed,he] at hvalue
          · simpa [removed,update_of_ne he] using hvalue
      obtain rfl : some (accounts other kind) = reference := by
        simpa [href,eq_comm] using hl other kind hbefore
      simp [removed] at hvalue
  · rw [h.values_of_ne howned hother] at hvalue
    exact h.reference_of_ne hother ▸ hl other kind hvalue

end Step

omit [DecidableEq ω] [DecidableEq α] in
/-- In a tidy ledger an owner without a record has no values. -/
theorem Tidy.values_of_not_stored (hl : Tidy accounts l) (h : ¬ l.Stored owner) (kind : κ) :
    l.values (accounts owner kind) = none := by
  by_contra hvalue
  have href := hl owner kind (Option.isSome_iff_ne_none.mpr hvalue)
  exact h (by simp [Stored,href])

end Ledger
end Mxterm
