import Mathlib.Data.List.Basic

/-! Operations that change data by a sequence of calls and undo nothing: whether one that fails leaves the data as they
were. -/
namespace Mxterm.CallSequences

variable {δ φ τ : Type}

/-- A call has an effect or is turned down, and a fault may strike it halfway. -/
structure Call (δ φ : Type) where
  effect : δ → Option δ
  left : φ → δ → δ

/-- The calls in order up to the first that fails; `faults` says which of the calls numbered from `n` on are struck. -/
def run (faults : ℕ → Option φ) : ℕ → List (Call δ φ) → δ → Bool × δ
  | _, [], d => (true,d)
  | n, c :: cs, d =>
    match faults n with
    | some fault => (false,c.left fault d)
    | none =>
      match c.effect d with
      | none => (false,d)
      | some e => run faults (n + 1) cs e

/-- No call is struck, and none is turned down. -/
def Succeeds (faults : ℕ → Option φ) : ℕ → List (Call δ φ) → δ → Prop
  | _, [], _ => True
  | n, c :: cs, d => faults n = none ∧ ∃ e, c.effect d = some e ∧ Succeeds faults (n + 1) cs e

/-- As long as nothing was changed a call may fail, unless it is struck after it has changed something. Once something
was changed no call fails. -/
def FailsEarly (faults : ℕ → Option φ) : ℕ → List (Call δ φ) → δ → Prop
  | _, [], _ => True
  | n, c :: cs, d => (∀ fault, faults n = some fault → c.left fault d = d) ∧
      (faults n = none → ∀ e, c.effect d = some e →
        (e = d → FailsEarly faults (n + 1) cs d) ∧ (e ≠ d → Succeeds faults (n + 1) cs e))

variable {faults : ℕ → Option φ} {n : ℕ} {cs : List (Call δ φ)} {d : δ}

theorem run_fst : (run faults n cs d).1 = true ↔ Succeeds faults n cs d := by
  induction cs generalizing n d with
  | nil => simp [run,Succeeds]
  | cons c cs ih =>
    rw [run,Succeeds]
    cases hfault : faults n with
    | some fault => simp
    | none => cases heffect : c.effect d <;> simp [ih]

theorem run_append (bs : List (Call δ φ)) :
    run faults n (cs ++ bs) d =
      if (run faults n cs d).1 then run faults (n + cs.length) bs (run faults n cs d).2
      else (false,(run faults n cs d).2) := by
  induction cs generalizing n d with
  | nil => simp [run]
  | cons c cs ih =>
    rw [List.cons_append,run,run]
    cases hfault : faults n with
    | some fault => simp
    | none =>
      cases heffect : c.effect d with
      | none => simp
      | some e =>
        simp only [ih]
        rw [List.length_cons,Nat.add_assoc,Nat.add_comm 1]

/-- The calls touch what is seen in `view` or not. -/
structure Keeps (view : δ → τ) (c : Call δ φ) : Prop where
  effect : ∀ {d e}, c.effect d = some e → view e = view d
  left : ∀ fault d, view (c.left fault d) = view d

/-- A change that the call makes is seen in `view`. -/
def Shows (view : δ → τ) (c : Call δ φ) : Prop :=
  ∀ {d e}, c.effect d = some e → view e = view d → e = d

/-- What one call has changed no later call changes back. -/
def Lasting : List (Call δ φ) → Prop
  | [] => True
  | c :: cs => (∃ (τ : Type) (view : δ → τ), Shows view c ∧ ∀ b ∈ cs, Keeps view b) ∧ Lasting cs

theorem run_keeps {view : δ → τ} (h : ∀ c ∈ cs, Keeps view c) : view (run faults n cs d).2 = view d := by
  induction cs generalizing n d with
  | nil => rfl
  | cons c cs ih =>
    have hc := h c List.mem_cons_self
    rw [run]
    cases hfault : faults n with
    | some fault => exact hc.left fault d
    | none =>
      cases heffect : c.effect d with
      | none => rfl
      | some e => exact (ih fun b hb => h b (List.mem_cons_of_mem c hb)).trans (hc.effect heffect)

/-- A sequence that fails leaves the data as they were exactly when it fails early. -/
theorem unchanged_iff (h : Lasting cs) :
    ((run faults n cs d).1 = false → (run faults n cs d).2 = d) ↔ FailsEarly faults n cs d := by
  induction cs generalizing n d with
  | nil => simp [run,FailsEarly]
  | cons c cs ih =>
    obtain ⟨⟨τ,view,hshows,hkeeps⟩,hlasting⟩ := h
    rw [run,FailsEarly]
    cases hfault : faults n with
    | some fault => simp
    | none =>
      cases heffect : c.effect d with
      | none => simp
      | some e =>
        have hlater : e ≠ d → (run faults (n + 1) cs e).2 ≠ d := by
          intro hne heq
          apply hne
          apply hshows heffect
          rw [← heq,run_keeps hkeeps]
        by_cases he : e = d
        · subst he
          simp [ih hlasting]
        · simp [he,hlater he,← run_fst]

end Mxterm.CallSequences
