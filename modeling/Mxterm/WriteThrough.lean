import Mathlib.Data.List.Basic

/-! A value that is changed in memory first and written behind it. A write that fails leaves the change in memory, where
reads and the next write find it. -/
namespace Mxterm.WriteThrough

variable {μ : Type}

structure Write (μ : Type) where
  change : μ → μ
  /-- Whether the changed value is written. -/
  saved : Bool

structure Copies (μ : Type) where
  memory : μ
  stored : μ

namespace Copies

/-- Memory and store agree. -/
def of (m : μ) : Copies μ := ⟨m,m⟩

def write (s : Copies μ) (w : Write μ) : Copies μ where
  memory := w.change s.memory
  stored := if w.saved then w.change s.memory else s.stored

def run (s : Copies μ) (ws : List (Write μ)) : Copies μ := ws.foldl write s

end Copies

/-- What only the writes that succeed make of the value. -/
def replay (m : μ) (ws : List (Write μ)) : μ := (ws.filter (·.saved)).foldl (fun m w => w.change m) m

/-- Both copies are what the successful writes make of the value. -/
structure Faithful (m : μ) (ws : List (Write μ)) : Prop where
  memory : ((Copies.of m).run ws).memory = replay m ws
  stored : ((Copies.of m).run ws).stored = replay m ws

/-- A write that fails has nothing to change. -/
def Vacuous (m : μ) (ws : List (Write μ)) : Prop :=
  ∀ n w, ws[n]? = some w → w.saved = false →
    w.change ((Copies.of m).run (ws.take n)).memory = ((Copies.of m).run (ws.take n)).memory

section
variable {s : Copies μ} {m : μ} {w : Write μ} {ws : List (Write μ)}

theorem run_concat : s.run (ws ++ [w]) = (s.run ws).write w := List.foldl_concat ..

theorem replay_concat : replay m (ws ++ [w]) = if w.saved then w.change (replay m ws) else replay m ws := by
  cases hsaved : w.saved <;> simp [hsaved,replay]

theorem take_succ_of_getElem? {n : ℕ} (h : ws[n]? = some w) : ws.take (n + 1) = ws.take n ++ [w] := by
  rw [List.take_add_one,h,Option.toList_some]

/-- The copies are faithful at every time when no write that failed had a change to make. -/
theorem faithful_iff (m : μ) (ws : List (Write μ)) : (∀ n, Faithful m (ws.take n)) ↔ Vacuous m ws := by
  constructor
  · intro h n w hw hfails
    have hnext := (h (n + 1)).memory
    rw [take_succ_of_getElem? hw,replay_concat,hfails,← (h n).memory,run_concat] at hnext
    exact hnext
  · intro h n
    induction n with
    | zero => exact ⟨rfl,rfl⟩
    | succ n ih =>
      cases hw : ws[n]? with
      | none =>
        rw [List.take_of_length_le (by simpa using hw)] at ih
        rwa [List.take_of_length_le (Nat.le_succ_of_le (by simpa using hw))]
      | some w =>
        rw [take_succ_of_getElem? hw]
        cases hsaved : w.saved with
        | true => constructor <;> rw [replay_concat,if_pos hsaved,← ih.memory,run_concat,Copies.write,if_pos hsaved]
        | false =>
          have hsame := h n w hw hsaved
          rw [ih.memory] at hsame
          constructor <;> rw [replay_concat,hsaved,if_neg Bool.false_ne_true,run_concat,Copies.write]
          · rw [ih.memory,hsame]
          · rw [hsaved,if_neg Bool.false_ne_true,ih.stored]

end

end Mxterm.WriteThrough
