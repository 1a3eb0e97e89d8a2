import Mathlib.Algebra.Order.Ring.Nat

/-! Systems that go from state to state by actions, of which some are possible in a state, and what holds in
every state that is reached. -/
namespace Mxterm.Transitions

variable {σ α : Type} (step : σ → α → Option σ) (allowed : σ → α → Prop) (initial : σ → Prop)

/-- The states that are reached by actions that are allowed. -/
inductive Reached : σ → Prop
  | start {s : σ} : initial s → Reached s
  | step {s s' : σ} {a : α} : Reached s → allowed s a → step s a = some s' → Reached s'

def run (s : σ) (actions : List α) : Option σ := actions.foldlM step s

variable {step allowed initial}

/-- What holds at the start and is kept by every action holds in every state. -/
theorem Reached.invariant {Inv : σ → Prop} {s : σ} (h : Reached step allowed initial s)
    (hstart : ∀ s, initial s → Inv s)
    (hstep : ∀ s a s', Inv s → allowed s a → step s a = some s' → Inv s') : Inv s := by
  induction h with
  | start hs => exact hstart _ hs
  | step _ ha hs ih => exact hstep _ _ _ ih ha hs

theorem Reached.run {s s' : σ} {actions : List α} (h : Reached step (fun _ _ => True) initial s)
    (hrun : run step s actions = some s') : Reached step (fun _ _ => True) initial s' := by
  induction actions generalizing s with
  | nil =>
    cases hrun
    exact h
  | cons a actions ih =>
    obtain ⟨t,ht,hrest⟩ := Option.bind_eq_some_iff.mp hrun
    exact ih (.step h trivial ht) hrest

/-- The actions in order, as long as every one of them is allowed. -/
def runAllowed (step : σ → α → Option σ) (allowed : σ → α → Prop) [∀ s a, Decidable (allowed s a)] (s : σ)
    (actions : List α) : Option σ :=
  actions.foldlM (fun s a => if allowed s a then step s a else none) s

theorem Reached.runAllowed [∀ s a, Decidable (allowed s a)] {s s' : σ} {actions : List α}
    (h : Reached step allowed initial s) (hrun : runAllowed step allowed s actions = some s') :
    Reached step allowed initial s' := by
  induction actions generalizing s with
  | nil =>
    cases hrun
    exact h
  | cons a actions ih =>
    obtain ⟨t,ht,hrest⟩ := Option.bind_eq_some_iff.mp hrun
    obtain ⟨ha,hstep⟩ := Option.ite_none_right_eq_some.mp ht
    exact ih (.step h ha hstep) hrest

end Mxterm.Transitions
