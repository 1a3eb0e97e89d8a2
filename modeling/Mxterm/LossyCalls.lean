import Mxterm.Execution

/-! Calls over a connection that may break. A call that reports a failure may have been executed all the same, and
who repeats it may execute it twice. -/
namespace Mxterm.LossyCalls

open Execution

variable {ξ ω σ ε α β : Type}

/-- How an attempt at a call goes, and the execution it brings about on the other side. -/
inductive Attempt (ξ : Type)
  | unreachable
  | lost (executed : Option ξ)
  | answered (executed : ξ)

/-- The store on the other side, and how the attempts to come go. -/
structure World (ξ σ : Type) where
  store : σ
  attempts : ℕ → Attempt ξ

def World.after (w : World ξ σ) (s : σ) : World ξ σ where
  store := s
  attempts := fun n => w.attempts (n + 1)

/-- What is left of the store when a call was lost. -/
def settled (perform : ξ → σ → ω × σ) (executed : Option ξ) (s : σ) : σ :=
  match executed with
  | none => s
  | some x => (perform x s).2

def call (failed : ε) (perform : ξ → σ → ω × σ) : EStateM ε (World ξ σ) ω := fun w =>
  match w.attempts 0 with
  | .unreachable => .error failed (w.after w.store)
  | .lost executed => .error failed (w.after (settled perform executed w.store))
  | .answered x => .ok (perform x w.store).1 (w.after (perform x w.store).2)

/-- A call that is made once more when the first attempt fails on the way. -/
def callAgain (failed : ε) (perform : ξ → σ → ω × σ) : EStateM ε (World ξ σ) ω := fun w =>
  match w.attempts 0 with
  | .lost executed => call failed perform (w.after (settled perform executed w.store))
  | _ => call failed perform w

variable {failed e : ε} {perform : ξ → σ → ω × σ} {w w' : World ξ σ} {out : ω}

theorem call_ok (h : call failed perform w = .ok out w') :
    ∃ x, w.attempts 0 = .answered x ∧ perform x w.store = (out,w'.store) ∧ w' = w.after w'.store := by
  rw [call] at h
  split at h
  · cases h
  · cases h
  · cases h
    exact ⟨_,‹_›,rfl,rfl⟩

/-- An answer is that of the last attempt, in the store that a lost one has left. -/
theorem callAgain_ok (h : callAgain failed perform w = .ok out w') :
    (∃ x, w.attempts 0 = .answered x ∧ perform x w.store = (out,w'.store)) ∨
      ∃ executed x, w.attempts 0 = .lost executed ∧ w.attempts 1 = .answered x ∧
        perform x (settled perform executed w.store) = (out,w'.store) := by
  rw [callAgain] at h
  split at h
  · rename_i executed hlost
    obtain ⟨x,hx,hperform,-⟩ := call_ok h
    exact .inr ⟨executed,x,hlost,hx,hperform⟩
  · obtain ⟨x,hx,hperform,-⟩ := call_ok h
    exact .inl ⟨x,hx,hperform⟩

theorem callAgain_lost (failed : ε) (perform : ξ → σ → ω × σ) {executed : Option ξ} {x : ξ}
    (h : w.attempts 0 = .lost executed)
    (hx : w.attempts 1 = .answered x) :
    callAgain failed perform w = .ok (perform x (settled perform executed w.store)).1
      ((w.after (settled perform executed w.store)).after (perform x (settled perform executed w.store)).2) := by
  have hnext : (w.after (settled perform executed w.store)).attempts 0 = .answered x := hx
  simp only [callAgain,call,h,hnext]
  rfl

theorem callAgain_error (h : callAgain failed perform w = .error e w') : e = failed := by
  have hcall : ∀ v : World ξ σ, call failed perform v = .error e w' → e = failed := by
    intro v hv
    rw [call] at hv
    split at hv
    · exact (EStateM.Result.error.inj hv).1.symm
    · exact (EStateM.Result.error.inj hv).1.symm
    · cases hv
  rw [callAgain] at h
  split at h
  · exact hcall _ h
  · exact hcall _ h

/-! ## One execution for each call -/

/-- The world in which every attempt is answered. -/
def reliable (s : σ) (executions : ℕ → ξ) : World ξ σ where
  store := s
  attempts := fun n => .answered (executions n)

def Answered (w : World ξ σ) : Prop := ∀ n, ∃ x, w.attempts n = .answered x

theorem answered_reliable (s : σ) (executions : ℕ → ξ) : Answered (reliable s executions) := fun n => ⟨executions n,rfl⟩

theorem Answered.after (h : Answered w) (s : σ) : Answered (w.after s) := fun n => h (n + 1)

theorem maintains_callAgain (failed : ε) (perform : ξ → σ → ω × σ) : Maintains Answered (callAgain failed perform) := by
  intro w h
  obtain ⟨x,hx⟩ := h 0
  have hrun : callAgain failed perform w = .ok (perform x w.store).1 (w.after (perform x w.store).2) := by
    simp only [callAgain,call,hx]
  rw [after_of_ok hrun]
  exact h.after _

/-- These executions, and then others. -/
def followedBy : List ξ → (ℕ → ξ) → ℕ → ξ
  | [], rest => rest
  | x :: xs, rest => fun
    | 0 => x
    | n + 1 => followedBy xs rest n

theorem followedBy_append (xs ys : List ξ) (rest : ℕ → ξ) :
    followedBy (xs ++ ys) rest = followedBy xs (followedBy ys rest) := by
  induction xs with
  | nil => rfl
  | cons x xs ih =>
    funext n
    cases n with
    | zero => rfl
    | succ n => exact congrFun ih n

/-- With these executions, one for each call, the program returns `a` and leaves `t`. -/
def Returns (x : EStateM ε (World ξ σ) α) (s : σ) (executions : List ξ) (a : α) (t : σ) : Prop :=
  ∀ rest, x (reliable s (followedBy executions rest)) = .ok a (reliable t rest)

def Fails (x : EStateM ε (World ξ σ) α) (s : σ) (executions : List ξ) (e : ε) (t : σ) : Prop :=
  ∀ rest, x (reliable s (followedBy executions rest)) = .error e (reliable t rest)

variable {x : EStateM ε (World ξ σ) α} {f : α → EStateM ε (World ξ σ) β} {s t u : σ} {p q : List ξ} {a : α} {b : β}

theorem Returns.callAgain (failed : ε) (perform : ξ → σ → ω × σ) (x : ξ) (s : σ) :
    Returns (callAgain failed perform) s [x] (perform x s).1 (perform x s).2 := fun _ => rfl

theorem Returns.pure : Returns (pure a : EStateM ε (World ξ σ) α) s [] a s := fun _ => rfl

theorem Fails.throw : Fails (throw e : EStateM ε (World ξ σ) α) s [] e s := fun _ => rfl

theorem Returns.bind (hx : Returns x s p a t) (hf : Returns (f a) t q b u) :
    Returns (x >>= f) s (p ++ q) b u := by
  intro rest
  rw [followedBy_append,bind_of_ok (hx _)]
  exact hf rest

theorem Returns.bind_fails (hx : Returns x s p a t) (hf : Fails (f a) t q e u) :
    Fails (x >>= f) s (p ++ q) e u := by
  intro rest
  rw [followedBy_append,bind_of_ok (hx _)]
  exact hf rest

theorem Fails.bind (hx : Fails x s p e t) : Fails (x >>= f) s p e t := by
  intro rest
  rw [bind_of_error (hx rest)]

/-- What a caller sees of a run: the result and the store. -/
def seen : EStateM.Result ε (World ξ σ) α → Except ε α × σ
  | .ok a w => (.ok a,w.store)
  | .error e w => (.error e,w.store)

/-- Some run with one execution for each call has this result and leaves this store. -/
def Once (x : EStateM ε (World ξ σ) α) (s : σ) (result : Except ε α × σ) : Prop :=
  ∃ executions, seen (x (reliable s executions)) = result

theorem Returns.once [Nonempty ξ] (h : Returns x s p a t) : Once x s (.ok a,t) := by
  obtain ⟨y⟩ := ‹Nonempty ξ›
  exact ⟨followedBy p fun _ => y,by rw [h]; rfl⟩

theorem Fails.once [Nonempty ξ] (h : Fails x s p e t) : Once x s (.error e,t) := by
  obtain ⟨y⟩ := ‹Nonempty ξ›
  exact ⟨followedBy p fun _ => y,by rw [h]; rfl⟩

end Mxterm.LossyCalls
