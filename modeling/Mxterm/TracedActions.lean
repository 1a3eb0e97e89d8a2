import Mxterm.Execution

/-! Fallible actions that leave a trace. Without its trace such an action is one on the state alone; with it, the trace
follows from outcomes that do not depend on the state. -/
namespace Mxterm.Execution

variable {ε σ τ α β : Type}

structure Traced (σ τ : Type) where
  state : σ
  trace : List τ

/-- An action of which nothing is seen in the trace. -/
def untraced (x : EStateM ε σ α) : EStateM ε (Traced σ τ) α := fun s =>
  match x s.state with
  | .ok a state => .ok a { s with state }
  | .error e state => .error e { s with state }

def note (t : τ) : EStateM ε (Traced σ τ) Unit := modify fun s => { s with trace := s.trace ++ [t] }

def noteIf (seen : Bool) (t : τ) : EStateM ε (Traced σ τ) Unit := runIf (seen = true) (note t)

/-! ## Without the trace -/

def forget : EStateM.Result ε (Traced σ τ) α → EStateM.Result ε σ α
  | .ok a s => .ok a s.state
  | .error e s => .error e s.state

def Erases (x : EStateM ε (Traced σ τ) α) (y : EStateM ε σ α) : Prop := ∀ s, forget (x s) = y s.state

namespace Erases

variable {x : EStateM ε (Traced σ τ) α} {y : EStateM ε σ α}

theorem after (h : Erases x y) (s : Traced σ τ) : (Execution.after x s).state = Execution.after y s.state := by
  have hs := h s
  cases hx : x s with
  | ok a t =>
    rw [hx] at hs
    rw [after_of_ok hx,after_of_ok hs.symm]
  | error e t =>
    rw [hx] at hs
    rw [after_of_error hx,after_of_error hs.symm]

theorem pure (a : α) : Erases (pure a : EStateM ε (Traced σ τ) α) (pure a) := fun _ => rfl

theorem throw (e : ε) : Erases (throw e : EStateM ε (Traced σ τ) α) (throw e) := fun _ => rfl

theorem lift (r : Except ε α) : Erases (lift r : EStateM ε (Traced σ τ) α) (lift r) := by
  cases r <;> exact fun _ => rfl

theorem untraced (x : EStateM ε σ α) : Erases (untraced x : EStateM ε (Traced σ τ) α) x := by
  intro s
  unfold Execution.untraced
  cases x s.state <;> rfl

theorem bind {f : α → EStateM ε (Traced σ τ) β} {g : α → EStateM ε σ β} (hx : Erases x y)
    (hf : ∀ a, Erases (f a) (g a)) : Erases (x >>= f) (y >>= g) := by
  intro s
  have hs := hx s
  cases h : x s with
  | ok a t =>
    rw [h] at hs
    rw [bind_of_ok h,bind_of_ok hs.symm]
    exact hf a t
  | error e t =>
    rw [h] at hs
    rw [bind_of_error h,bind_of_error hs.symm]
    rfl

theorem noteIf_bind {seen : Bool} {t : τ} {f : Unit → EStateM ε (Traced σ τ) α} (hf : ∀ u, Erases (f u) y) :
    Erases (noteIf seen t >>= f) y := by
  intro s
  cases seen with
  | true => exact hf () _
  | false => exact hf () s

theorem attempt (h : Erases x y) : Erases (attempt x) (attempt y) := by
  intro s
  have hs := h s
  unfold Execution.attempt
  cases hx : x s with
  | ok a t =>
    rw [hx] at hs
    rw [← hs]
    rfl
  | error e t =>
    rw [hx] at hs
    rw [← hs]
    rfl

theorem ite {c : Prop} [Decidable c] {x' : EStateM ε (Traced σ τ) α} {y' : EStateM ε σ α} (hx : Erases x y)
    (hx' : Erases x' y') : Erases (if c then x else x') (if c then y else y') := by
  by_cases h : c
  · rw [if_pos h,if_pos h]
    exact hx
  · rw [if_neg h,if_neg h]
    exact hx'

end Erases

/-! ## Outcomes -/

/-- The outcome of the action is the same from every state. -/
def Yields (x : EStateM ε σ α) (r : Except ε α) : Prop := ∀ s, ∃ t, x s = lift r t

namespace Yields

theorem pure (a : α) : Yields (pure a : EStateM ε σ α) (.ok a) := fun s => ⟨s,rfl⟩

theorem lift (r : Except ε α) : Yields (lift r : EStateM ε σ α) r := fun s => ⟨s,rfl⟩

theorem modify (f : σ → σ) : Yields (modify f : EStateM ε σ Unit) (.ok ()) := fun s => ⟨f s,rfl⟩

theorem bind {x : EStateM ε σ α} {r : Except ε α} {f : α → EStateM ε σ β} {g : α → Except ε β} (hx : Yields x r)
    (hf : ∀ a, Yields (f a) (g a)) : Yields (x >>= f) (r >>= g) := by
  intro s
  obtain ⟨t,ht⟩ := hx s
  cases r with
  | ok a =>
    rw [bind_of_ok ht]
    exact hf a t
  | error e =>
    rw [bind_of_error ht]
    exact ⟨t,rfl⟩

theorem ok_bind {x : EStateM ε σ α} {a : α} {f : α → EStateM ε σ β} {r : Except ε β} (hx : Yields x (.ok a))
    (hf : Yields (f a) r) : Yields (x >>= f) r := by
  intro s
  obtain ⟨t,ht⟩ := hx s
  rw [bind_of_ok ht]
  exact hf t

theorem forEach {body : β → EStateM ε σ Unit} {check : β → Except ε Unit} (h : ∀ b, Yields (body b) (check b))
    (bs : List β) : Yields (forEach body bs) (bs.forM check) := by
  induction bs with
  | nil => exact pure ()
  | cons b bs ih => exact (h b).bind fun _ => ih

end Yields

/-! ## The trace -/

/-- The action adds these entries to the trace, whatever its outcome. -/
def Traces (x : EStateM ε (Traced σ τ) α) (entries : List τ) : Prop :=
  ∀ s, (after x s).trace = s.trace ++ entries

namespace Traces

theorem pure (a : α) : Traces (pure a : EStateM ε (Traced σ τ) α) [] := fun s => (List.append_nil s.trace).symm

theorem throw (e : ε) : Traces (throw e : EStateM ε (Traced σ τ) α) [] := fun s => (List.append_nil s.trace).symm

theorem lift (r : Except ε α) : Traces (lift r : EStateM ε (Traced σ τ) α) [] := by
  cases r with
  | ok a => exact pure a
  | error e => exact throw e

theorem untraced (x : EStateM ε σ α) : Traces (untraced x : EStateM ε (Traced σ τ) α) [] := by
  intro s
  unfold after Execution.untraced
  cases x s.state <;> exact (List.append_nil s.trace).symm

variable {x : EStateM ε (Traced σ τ) α} {entries : List τ}

theorem ite {c : Prop} [Decidable c] {y : EStateM ε (Traced σ τ) α} (hx : Traces x entries) (hy : Traces y entries) :
    Traces (if c then x else y) entries := by
  split
  · exact hx
  · exact hy

variable {f : α → EStateM ε (Traced σ τ) β}

theorem bind {rest : List τ} (hx : Traces x entries) (hf : ∀ a, Traces (f a) rest)
    (hfail : ∀ e s t, x s = .error e t → rest = []) : Traces (x >>= f) (entries ++ rest) := by
  intro s
  have hs := hx s
  cases h : x s with
  | ok a t =>
    rw [after_of_ok h] at hs
    have hrun : after (x >>= f) s = after (f a) t := by simp [after,bind_of_ok h]
    rw [hrun,hf a t,hs,List.append_assoc]
  | error e t =>
    rw [after_of_error h] at hs
    rw [after_of_error (bind_of_error h f),hs,hfail e s t h,List.append_nil]

theorem noteIf_bind {seen : Bool} {t : τ} {f : Unit → EStateM ε (Traced σ τ) α} (hf : ∀ u, Traces (f u) entries) :
    Traces (noteIf seen t >>= f) ((if seen then [t] else []) ++ entries) := by
  apply bind _ hf
  · intro e s t h
    cases seen <;> cases h
  · intro s
    cases seen with
    | true => rfl
    | false => exact (List.append_nil s.trace).symm

/-- What comes after an attempt is run whatever the attempt has come to. -/
theorem attempt_bind {f : Except ε α → EStateM ε (Traced σ τ) β} (hx : Traces x entries) (hf : ∀ r, Traces (f r) []) :
    Traces (attempt x >>= f) entries := by
  rw [← List.append_nil entries]
  apply bind _ hf
  · exact fun _ _ _ _ => rfl
  · intro s
    rw [← hx s]
    unfold after attempt
    cases x s <;> rfl

/-- An action that fails ends the trace, and one that returns goes on with `f`. -/
theorem yields_bind {x : EStateM ε σ α} {r : Except ε α} (hx : Yields x r)
    (hok : ∀ a, r = .ok a → Traces (f a) entries) (herror : ∀ e, r = .error e → entries = []) :
    Traces (Execution.untraced x >>= f) entries := by
  intro s
  obtain ⟨t,ht⟩ := hx s.state
  cases r with
  | ok a =>
    have hrun : Execution.untraced x s = .ok a (⟨t,s.trace⟩ : Traced σ τ) := by
      unfold Execution.untraced
      rw [ht]
      rfl
    have hnext : after (Execution.untraced x >>= f) s = after (f a) ⟨t,s.trace⟩ := by simp [after,bind_of_ok hrun]
    rw [hnext]
    exact hok a rfl ⟨t,s.trace⟩
  | error e =>
    have hrun : Execution.untraced x s = .error e (⟨t,s.trace⟩ : Traced σ τ) := by
      unfold Execution.untraced
      rw [ht]
      rfl
    rw [after_of_error (bind_of_error hrun f),herror e rfl,List.append_nil]

theorem lift_bind {r : Except ε α} (hok : ∀ a, r = .ok a → Traces (f a) entries)
    (herror : ∀ e, r = .error e → entries = []) : Traces (Execution.lift r >>= f) entries := by
  cases r with
  | ok a => exact hok a rfl
  | error e =>
    rw [herror e rfl]
    exact throw e

end Traces

end Mxterm.Execution
