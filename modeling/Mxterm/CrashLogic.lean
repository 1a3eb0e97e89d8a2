import Mxterm.Execution

/-! Programs on a disk whose power can fail between any two writes. A triple states what
holds of the disk when the program returns and what holds of it wherever it stops. -/
namespace Mxterm.CrashLogic

open Execution

variable {ε δ α β : Type}

/-- The disk and the number of writes left before the power fails; `none` when it never does. -/
structure Device (δ : Type) where
  disk : δ
  power : Option ℕ

abbrev Program (ε δ α : Type) := EStateM ε (Device δ) α

def read : Program ε δ δ := fun s => .ok s.disk s

/-- One atomic change of the disk, which a power failure prevents. -/
def write (powerLost : ε) (change : δ → δ) : Program ε δ Unit := fun s =>
  match s.power with
  | none => .ok () ⟨change s.disk,none⟩
  | some 0 => .error powerLost s
  | some (n + 1) => .ok () ⟨change s.disk,some n⟩

theorem read_apply (s : Device δ) : (read : Program ε δ δ) s = .ok s.disk s := rfl

def Triple (pre : δ → Prop) (x : Program ε δ α) (post : α → δ → Prop) (stop : δ → Prop) : Prop :=
  ∀ s, pre s.disk → match x s with
    | .ok a t => post a t.disk
    | .error _ t => stop t.disk

namespace Triple
variable {pre pre' stop stop' : δ → Prop} {post post' : α → δ → Prop}

variable {x : Program ε δ α}

theorem of_ok (hx : Triple pre x post stop) {s t : Device δ} {a : α} (hs : pre s.disk) (h : x s = .ok a t) :
    post a t.disk := by
  have := hx s hs
  rwa [h] at this

theorem of_error (hx : Triple pre x post stop) {s t : Device δ} {e : ε} (hs : pre s.disk) (h : x s = .error e t) :
    stop t.disk := by
  have := hx s hs
  rwa [h] at this

theorem weaken (hx : Triple pre x post stop) (hpre : ∀ d, pre' d → pre d) (hpost : ∀ a d, post a d → post' a d)
    (hstop : ∀ d, stop d → stop' d) : Triple pre' x post' stop' := by
  intro s hs
  cases h : x s with
  | ok a t => exact hpost a _ (hx.of_ok (hpre _ hs) h)
  | error e t => exact hstop _ (hx.of_error (hpre _ hs) h)

theorem pure (a : α) (h : ∀ d, pre d → post a d) : Triple pre (pure a : Program ε δ α) post stop :=
  fun s hs => h s.disk hs

theorem throw (e : ε) (h : ∀ d, pre d → stop d) : Triple pre (throw e : Program ε δ α) post stop :=
  fun s hs => h s.disk hs

theorem bind (mid : β → δ → Prop) {x : Program ε δ β} {f : β → Program ε δ α}
    (hx : Triple pre x mid stop) (hf : ∀ b, Triple (mid b) (f b) post stop) :
    Triple pre (x >>= f) post stop := by
  intro s hs
  cases h : x s with
  | ok b t => rw [bind_of_ok h]; exact hf b t (hx.of_ok hs h)
  | error e t => rw [bind_of_error h]; exact hx.of_error hs h

/-- The value read is the disk at that moment. -/
theorem read {f : δ → Program ε δ α}
    (hf : ∀ d, pre d → Triple (fun e => e = d) (f d) post stop) :
    Triple pre (CrashLogic.read >>= f) post stop := by
  intro s hs
  exact hf s.disk hs s rfl

theorem write (powerLost : ε) (change : δ → δ) {post : Unit → δ → Prop}
    (hpost : ∀ d, pre d → post () (change d)) (hstop : ∀ d, pre d → stop d) :
    Triple pre (CrashLogic.write powerLost change) post stop := by
  rintro ⟨d,_ | _ | n⟩ hs
  · exact hpost d hs
  · exact hstop d hs
  · exact hpost d hs

theorem ite (c : Prop) [Decidable c] {y : Program ε δ α} (hx : c → Triple pre x post stop)
    (hy : ¬ c → Triple pre y post stop) : Triple pre (if c then x else y) post stop := by
  split
  · exact hx ‹_›
  · exact hy ‹_›

theorem runIf (c : Prop) [Decidable c] {x : Program ε δ Unit} {post : Unit → δ → Prop}
    (hx : c → Triple pre x post stop) (hskip : ¬ c → ∀ d, pre d → post () d) :
    Triple pre (Execution.runIf c x) post stop :=
  ite c hx fun hc => pure () (hskip hc)

/-- What stopped an attempt is known to the program that goes on. -/
theorem attempt (post : α → δ → Prop) (stop : δ → Prop) (hx : Triple pre x post stop) :
    Triple pre (Execution.attempt x)
      (fun r d => match r with | .ok a => post a d | .error _ => stop d) stop' := by
  intro s hs
  cases h : x s with
  | ok a t => simpa [Execution.attempt,h] using hx.of_ok hs h
  | error e t => simpa [Execution.attempt,h] using hx.of_error hs h

end Triple

/-- The disk after a program was started with this much power, wherever it stopped. -/
def stopped (x : Program ε δ α) (d : δ) (power : Option ℕ) : δ := (after x ⟨d,power⟩).disk

/-- A program restarted after each power failure. -/
def restarts (x : Program ε δ α) (d : δ) (powers : List (Option ℕ)) : δ :=
  powers.foldl (stopped x) d

theorem Triple.stopped_of {pre stop : δ → Prop} {post : α → δ → Prop} {x : Program ε δ α}
    (hx : Triple pre x post stop) (hpost : ∀ a d, post a d → stop d) {d : δ} (hd : pre d)
    (power : Option ℕ) : stop (stopped x d power) := by
  unfold stopped
  cases h : x ⟨d,power⟩ with
  | ok a t => rw [after_of_ok h]; exact hpost a _ (hx.of_ok hd h)
  | error e t => rw [after_of_error h]; exact hx.of_error hd h

/-- What holds before a recovery and wherever it stops holds after any number of restarts. -/
theorem Triple.restarts_of {pre : δ → Prop} {post : α → δ → Prop} {x : Program ε δ α}
    (hx : Triple pre x post pre) (hpost : ∀ a d, post a d → pre d) {d : δ} (hd : pre d)
    (powers : List (Option ℕ)) : pre (restarts x d powers) := by
  induction powers generalizing d with
  | nil => exact hd
  | cons power powers ih => exact ih (hx.stopped_of hpost hd power)

end Mxterm.CrashLogic
