import Mathlib.Data.List.Nodup

/-! Functions that are changed at one argument after the other. The last assignment to an argument
decides its value, and a log of the old values, the last one first, takes the changes back. -/
namespace Mxterm.Assignments

variable {α ν : Type} [DecidableEq α]

def assign (entries : List (α × ν)) (values : α → ν) : α → ν :=
  entries.foldl (fun values entry => Function.update values entry.1 entry.2) values

@[simp] theorem assign_nil (values : α → ν) : assign [] values = values := rfl

@[simp] theorem assign_cons (entry : α × ν) (entries : List (α × ν)) (values : α → ν) :
    assign (entry :: entries) values = assign entries (Function.update values entry.1 entry.2) := rfl

/-- A change that was logged is taken back before the earlier ones. -/
theorem assign_logged (log : List (α × ν)) (values : α → ν) (a : α) (v : ν) :
    assign ((a,values a) :: log) (Function.update values a v) = assign log values := by
  simp

/-- A logged value that was not changed after all is put back to itself. -/
theorem assign_unchanged (log : List (α × ν)) (values : α → ν) (a : α) :
    assign ((a,values a) :: log) values = assign log values := by
  simp

end Mxterm.Assignments
