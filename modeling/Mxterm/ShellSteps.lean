import Mathlib.Tactic.Common

/-! Commands of a shell over a state of their own, put together by `;`, `||` and `if`. -/
namespace Mxterm.ShellSteps

variable {σ : Type}

/-- What a command leaves: the state, its exit status, and whether the shell has been left. -/
structure Outcome (σ : Type) where
  state : σ
  status : ℕ
  left : Bool

def Command (σ : Type) := σ → Outcome σ

namespace Command

/-- A command that changes the state and has a status. -/
def step (f : σ → σ) (status : ℕ) : Command σ := fun s => ⟨f s,status,false⟩

def exit (status : ℕ) : Command σ := fun s => ⟨s,status,true⟩

def seq (a b : Command σ) : Command σ := fun s => if (a s).left then a s else b (a s).state

def orElse (a b : Command σ) : Command σ := fun s =>
  if (a s).left ∨ (a s).status = 0 then a s else b (a s).state

def when (test : σ → Bool) (body : Command σ) : Command σ := fun s => if test s then body s else ⟨s,0,false⟩

/-- Commands one after the other; their status is the last one's. -/
def script : Command σ → List (Command σ) → Command σ
  | first, [] => first
  | first, next :: rest => seq first (script next rest)

variable {a b body : Command σ} {test : σ → Bool} {s : σ} {o : Outcome σ}

theorem seq_left (h : a s = o) (hleft : o.left = true) : seq a b s = o := by
  rw [seq,h,if_pos hleft]

theorem seq_goes (h : a s = o) (hleft : o.left = false) : seq a b s = b o.state := by
  rw [seq,h,if_neg (by simp [hleft])]

theorem seq_step (f : σ → σ) (status : ℕ) : seq (step f status) b s = b (f s) := seq_goes rfl rfl

theorem orElse_step_zero (f : σ → σ) : orElse (step f 0) b s = ⟨f s,0,false⟩ := if_pos (.inr rfl)

theorem orElse_step_fails (f : σ → σ) {status : ℕ} (h : status ≠ 0) : orElse (step f status) b s = b (f s) :=
  if_neg (by simp [step,h])

theorem when_pos (h : test s = true) : when test body s = body s := if_pos h

theorem when_neg (h : test s = false) : when test body s = ⟨s,0,false⟩ := if_neg (by simp [h])

end Command

end Mxterm.ShellSteps
