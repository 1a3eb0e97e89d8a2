import Mathlib.Tactic.Common

/-! Fallible actions on a state. A failed action keeps the changes made before the
failure, so every rule says what an action leaves behind on return and on failure. -/
namespace Mxterm.Execution

variable {ε σ α β τ : Type}

theorem bind_ok (x : EStateM ε σ α) (f : α → EStateM ε σ β) (s s' : σ) (b : β) :
    (x >>= f) s = .ok b s' ↔ ∃ a t, x s = .ok a t ∧ f a t = .ok b s' := by
  simp only [bind,EStateM.bind]
  cases x s <;> simp

theorem bind_error (x : EStateM ε σ α) (f : α → EStateM ε σ β) (s s' : σ) (e : ε) :
    (x >>= f) s = .error e s' ↔
      x s = .error e s' ∨ ∃ a t, x s = .ok a t ∧ f a t = .error e s' := by
  simp only [bind,EStateM.bind]
  cases x s <;> simp

variable {x : EStateM ε σ α} {s : σ} {a : α}

theorem bind_of_ok {t : σ} (h : x s = .ok a t) (f : α → EStateM ε σ β) : (x >>= f) s = f a t := by
  simp [bind,EStateM.bind,h]

variable {e : ε}

theorem bind_of_error {t : σ} (h : x s = .error e t) (f : α → EStateM ε σ β) : (x >>= f) s = .error e t := by
  simp [bind,EStateM.bind,h]

theorem except_bind_ok (x : Except ε α) (f : α → Except ε β) (b : β) :
    (x >>= f) = .ok b ↔ ∃ a, x = .ok a ∧ f a = .ok b := by
  cases x <;> simp [bind,Except.bind]

theorem pure_ok (a b : α) (s s' : σ) :
    (pure a : EStateM ε σ α) s = .ok b s' ↔ a = b ∧ s = s' := by
  simp [pure,EStateM.pure]

theorem pure_apply (a : α) (s : σ) : (pure a : EStateM ε σ α) s = .ok a s := rfl

theorem pure_not_error (a : α) (s s' : σ) (e : ε) :
    (pure a : EStateM ε σ α) s ≠ .error e s' := by
  simp [pure,EStateM.pure]

theorem get_apply (s : σ) : (get : EStateM ε σ σ) s = .ok s s := rfl

theorem throw_apply (e : ε) (s : σ) : (throw e : EStateM ε σ α) s = .error e s := rfl

theorem modify_apply (f : σ → σ) (s : σ) : (modify f : EStateM ε σ PUnit) s = .ok ⟨⟩ (f s) := rfl

/-- A computation that does not look at the state. -/
def lift : Except ε α → EStateM ε σ α
  | .ok a => pure a
  | .error e => throw e

@[simp] theorem lift_ok (r : Except ε α) (a : α) (s s' : σ) :
    lift r s = .ok a s' ↔ r = .ok a ∧ s = s' := by
  cases r <;> simp [lift,pure_apply,throw_apply]

@[simp] theorem lift_error (r : Except ε α) (e : ε) (s s' : σ) :
    (lift r : EStateM ε σ α) s = .error e s' ↔ r = .error e ∧ s = s' := by
  cases r <;> simp [lift,pure_apply,throw_apply]

theorem lift_of_ok {r : Except ε α} (h : r = .ok a) (s : σ) : lift r s = .ok a s := by
  simp [h]

/-- An action under a condition. -/
def runIf (c : Prop) [Decidable c] (x : EStateM ε σ Unit) : EStateM ε σ Unit :=
  if c then x else pure ()

/-- Run an action and hand its outcome on as a value, as a closure's result is. -/
def attempt (x : EStateM ε σ α) : EStateM ε σ (Except ε α) := fun s =>
  match x s with
  | .ok a s' => .ok (.ok a) s'
  | .error e s' => .ok (.error e) s'

@[simp] theorem attempt_ok (x : EStateM ε σ α) (r : Except ε α) (s s' : σ) :
    attempt x s = .ok r s' ↔
      (∃ a, r = .ok a ∧ x s = .ok a s') ∨ ∃ e, r = .error e ∧ x s = .error e s' := by
  cases h : x s <;> simp [attempt,h,eq_comm]

theorem attempt_not_error (x : EStateM ε σ α) (e : ε) (s s' : σ) :
    attempt x s ≠ .error e s' := by
  cases h : x s <;> simp [attempt,h]

/-- The state left behind by an action, on return and on failure. -/
def after (x : EStateM ε σ α) (s : σ) : σ :=
  match x s with
  | .ok _ s' => s'
  | .error _ s' => s'

variable {s' : σ}

theorem after_of_ok (h : x s = .ok a s') :
    after x s = s' := by simp [after,h]

theorem after_of_error (h : x s = .error e s') :
    after x s = s' := by simp [after,h]

/-- The part `view` of the state is not touched, whatever the outcome. -/
def Keeps (view : σ → τ) (x : EStateM ε σ α) : Prop :=
  ∀ s, view (after x s) = view s

namespace Keeps
variable {view : σ → τ}

variable {x : EStateM ε σ α}

theorem of_ok (hx : Keeps view x) {s s' : σ} {a : α} (h : x s = .ok a s') : view s' = view s := by
  have := hx s
  rwa [after_of_ok h] at this

theorem of_error (hx : Keeps view x) {s s' : σ} {e : ε} (h : x s = .error e s') : view s' = view s := by
  have := hx s
  rwa [after_of_error h] at this

theorem pure (a : α) : Keeps view (pure a : EStateM ε σ α) := fun _ => rfl

theorem throw (e : ε) : Keeps view (throw e : EStateM ε σ α) := fun _ => rfl

theorem get : Keeps view (get : EStateM ε σ σ) := fun _ => rfl

theorem lift (r : Except ε α) : Keeps view (lift r : EStateM ε σ α) := by
  cases r <;> exact fun _ => rfl

theorem bind {f : α → EStateM ε σ β} (hx : Keeps view x) (hf : ∀ a, Keeps view (f a)) : Keeps view (x >>= f) := by
  intro s
  cases h : x s with
  | ok a t =>
    have hfa : after (x >>= f) s = after (f a) t := by simp [after,bind_of_ok h]
    rw [hfa,hf a t,hx.of_ok h]
  | error e t =>
    rw [after_of_error (bind_of_error h f),hx.of_error h]

theorem map (f : α → β) (hx : Keeps view x) : Keeps view (f <$> x) := by
  intro s
  have h := hx s
  unfold after at h ⊢
  simp only [Functor.map,EStateM.map]
  split at h <;> rename_i hrun <;> simp only [hrun,h]

theorem ite {c : Prop} [Decidable c] {y : EStateM ε σ α} (hx : Keeps view x) (hy : Keeps view y) :
    Keeps view (if c then x else y) := by
  split
  · exact hx
  · exact hy

theorem attempt (hx : Keeps view x) : Keeps view (attempt x) := by
  intro s
  rw [← hx s]
  unfold after Execution.attempt
  cases x s <;> rfl

end Keeps

/-- A `for` loop over a list. -/
def forEach (body : α → EStateM ε σ Unit) : List α → EStateM ε σ Unit
  | [] => pure ()
  | a :: as => do body a; forEach body as

/-- A `for` loop over a list that updates local variables. -/
def foldEach (body : β → α → EStateM ε σ β) : β → List α → EStateM ε σ β
  | b, [] => pure b
  | b, a :: as => do foldEach body (← body b a) as

/-- A loop that collects what its body returns. -/
def mapEach (body : α → EStateM ε σ β) : List α → EStateM ε σ (List β)
  | [] => pure []
  | a :: as => do
    let b ← body a
    let bs ← mapEach body as
    pure (b :: bs)

theorem mapEach_cons_ok (body : α → EStateM ε σ β) (a : α) (as : List α) (bs : List β) (s s' : σ) :
    mapEach body (a :: as) s = .ok bs s' ↔ ∃ b cs t, body a s = .ok b t ∧
      mapEach body as t = .ok cs s' ∧ bs = b :: cs := by
  simp only [mapEach,bind_ok,pure_ok]
  constructor
  · rintro ⟨b,t,hb,cs,u,hcs,rfl,rfl⟩; exact ⟨b,cs,t,hb,hcs,rfl⟩
  · rintro ⟨b,cs,t,hb,hcs,rfl⟩; exact ⟨b,t,hb,cs,s',hcs,rfl,rfl⟩

theorem forEach_map (body : β → EStateM ε σ Unit) (f : α → β) (as : List α) :
    forEach body (as.map f) = forEach (fun a => body (f a)) as := by
  induction as with
  | nil => rfl
  | cons a as ih => simp only [List.map_cons,forEach,ih]

theorem forEach_append_ok (body : α → EStateM ε σ Unit) (as bs : List α) (s s' : σ) :
    forEach body (as ++ bs) s = .ok () s' ↔
      ∃ t, forEach body as s = .ok () t ∧ forEach body bs t = .ok () s' := by
  induction as generalizing s with
  | nil => simp [forEach,pure_ok]
  | cons a as ih =>
    simp only [List.cons_append,forEach,bind_ok,ih]
    constructor
    · rintro ⟨u,t,ha,v,has,hbs⟩; exact ⟨v,⟨u,t,ha,has⟩,hbs⟩
    · rintro ⟨v,⟨u,t,ha,has⟩,hbs⟩; exact ⟨u,t,ha,v,has,hbs⟩

theorem forEach_cons_ok (body : α → EStateM ε σ Unit) (a : α) (as : List α) (s s' : σ) :
    forEach body (a :: as) s = .ok () s' ↔ ∃ t, body a s = .ok () t ∧ forEach body as t = .ok () s' := by
  simp only [forEach,bind_ok]
  exact ⟨fun ⟨_,t,h⟩ => ⟨t,h⟩,fun ⟨t,h⟩ => ⟨(),t,h⟩⟩

theorem foldEach_cons_ok (body : β → α → EStateM ε σ β) (b b' : β) (a : α) (as : List α)
    (s s' : σ) : foldEach body b (a :: as) s = .ok b' s' ↔
      ∃ c t, body b a s = .ok c t ∧ foldEach body c as t = .ok b' s' := by
  simp [foldEach,bind_ok]

variable {as : List α}

/-- A property that every pass of the body keeps holds after the loop. -/
theorem forEach_ok_induction {body : α → EStateM ε σ Unit} {P : σ → Prop}
    (hbody : ∀ a ∈ as, ∀ s s', P s → body a s = .ok () s' → P s') (hs : P s) (h : forEach body as s = .ok () s') :
    P s' := by
  induction as generalizing s with
  | nil => exact ((pure_ok _ _ _ _).mp h).2 ▸ hs
  | cons a as ih =>
    obtain ⟨t,ha,h⟩ := (forEach_cons_ok body a as s s').mp h
    exact ih (fun b hb => hbody b (List.mem_cons_of_mem a hb))
      (hbody a List.mem_cons_self s t hs ha) h

variable {body : β → α → EStateM ε σ β}

/-- A relation between the local variables and the state that every pass keeps. -/
theorem foldEach_ok_induction {P : β → σ → Prop} (hbody : ∀ a ∈ as, ∀ b s c t, P b s → body b a s = .ok c t → P c t)
    {b c : β} (hs : P b s) (h : foldEach body b as s = .ok c s') : P c s' := by
  induction as generalizing b s with
  | nil =>
    obtain ⟨rfl,rfl⟩ := (pure_ok _ _ _ _).mp h
    exact hs
  | cons a as ih =>
    obtain ⟨d,t,ha,h⟩ := (foldEach_cons_ok body b c a as s s').mp h
    exact ih (fun x hx => hbody x (List.mem_cons_of_mem a hx))
      (hbody a List.mem_cons_self b s d t hs ha) h

/-- What every pass keeps holds where the loop fails, and the failing pass turns it into `Q`. -/
theorem foldEach_error_induction {P : β → σ → Prop} {Q : ε → σ → Prop}
    (hok : ∀ a ∈ as, ∀ b s c t, P b s → body b a s = .ok c t → P c t)
    (herror : ∀ a ∈ as, ∀ b s e t, P b s → body b a s = .error e t → Q e t) {b : β} (hs : P b s)
    (h : foldEach body b as s = .error e s') : Q e s' := by
  induction as generalizing b s with
  | nil => exact absurd h (pure_not_error _ _ _ _)
  | cons a as ih =>
    rcases (bind_error _ _ _ _ _).mp h with h | ⟨c,t,ha,h⟩
    · exact herror a List.mem_cons_self b s e s' hs h
    · exact ih (fun x hx => hok x (List.mem_cons_of_mem a hx))
        (fun x hx => herror x (List.mem_cons_of_mem a hx)) (hok a List.mem_cons_self b s c t hs ha) h

theorem Keeps.forEach {view : σ → τ} {body : α → EStateM ε σ Unit}
    (hbody : ∀ a, Keeps view (body a)) (as : List α) : Keeps view (forEach body as) := by
  induction as with
  | nil => exact Keeps.pure _
  | cons a as ih => exact Keeps.bind (hbody a) fun _ => ih

/-- A property of the state that survives an action, whatever the outcome. -/
def Maintains (P : σ → Prop) (x : EStateM ε σ α) : Prop := ∀ s, P s → P (after x s)

namespace Maintains
variable {P : σ → Prop}

variable {x : EStateM ε σ α}

theorem of_ok (hx : Maintains P x) {s s' : σ} {a : α} (hs : P s) (h : x s = .ok a s') : P s' := by
  have := hx s hs
  rwa [after_of_ok h] at this

theorem of_error (hx : Maintains P x) {s s' : σ} {e : ε} (hs : P s) (h : x s = .error e s') : P s' := by
  have := hx s hs
  rwa [after_of_error h] at this

theorem pure (a : α) : Maintains P (pure a : EStateM ε σ α) := fun _ h => h

theorem throw (e : ε) : Maintains P (throw e : EStateM ε σ α) := fun _ h => h

theorem bind {f : α → EStateM ε σ β} (hx : Maintains P x) (hf : ∀ a, Maintains P (f a)) : Maintains P (x >>= f) := by
  intro s hs
  cases h : x s with
  | ok a t =>
    have hfa : after (x >>= f) s = after (f a) t := by simp [after,bind_of_ok h]
    exact hfa ▸ hf a t (hx.of_ok hs h)
  | error e t => exact after_of_error (bind_of_error h f) ▸ hx.of_error hs h

theorem lift (r : Except ε α) : Maintains P (lift r : EStateM ε σ α) := by
  cases r <;> exact fun _ h => h

theorem foldEach {body : β → α → EStateM ε σ β} (hbody : ∀ b a, Maintains P (body b a)) (b : β)
    (as : List α) : Maintains P (foldEach body b as) := by
  induction as generalizing b with
  | nil => exact Maintains.pure _
  | cons a as ih => exact Maintains.bind (hbody b a) fun c => ih c

theorem forEach {body : α → EStateM ε σ Unit} (hbody : ∀ a, Maintains P (body a)) (as : List α) :
    Maintains P (forEach body as) := by
  induction as with
  | nil => exact Maintains.pure _
  | cons a as ih => exact Maintains.bind (hbody a) fun _ => ih

end Maintains

end Mxterm.Execution
