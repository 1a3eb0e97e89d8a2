import Mxterm.Execution

/-! Where a fallible action leads from a state: one condition for its return, one for its failure.
The rules follow the way actions are put together. -/
namespace Mxterm.Execution

variable {ε σ α β : Type} {Q : α → σ → Prop} {E : σ → Prop} {s : σ}

/-- From `s` the action returns into `Q` or fails into `E`. -/
def Leads (x : EStateM ε σ α) (Q : α → σ → Prop) (E : σ → Prop) (s : σ) : Prop :=
  (∀ a s', x s = .ok a s' → Q a s') ∧ ∀ e s', x s = .error e s' → E s'

namespace Leads

variable {x : EStateM ε σ α}

theorem ok (h : Leads x Q E s) {a : α} {s' : σ} (hx : x s = .ok a s') : Q a s' :=
  h.1 a s' hx

variable {P : σ → Prop}

theorem after (h : Leads x (fun _ => P) P s) : P (after x s) := by
  cases hx : x s with
  | ok a t => rw [after_of_ok hx]; exact h.1 a t hx
  | error e t => rw [after_of_error hx]; exact h.2 e t hx

/-- An action that cannot fail returns. -/
theorem returns (h : Leads x Q (fun _ => False) s) : ∃ a s', x s = .ok a s' ∧ Q a s' := by
  cases hx : x s with
  | ok a s' => exact ⟨a,s',rfl,h.1 a s' hx⟩
  | error e s' => exact (h.2 e s' hx).elim

theorem mono {Q' : α → σ → Prop} {E' : σ → Prop} (h : Leads x Q E s) (hQ : ∀ a s', Q a s' → Q' a s')
    (hE : ∀ s', E s' → E' s') : Leads x Q' E' s :=
  ⟨fun a s' hx => hQ a s' (h.1 a s' hx),fun e s' hx => hE s' (h.2 e s' hx)⟩

theorem and {Q' : α → σ → Prop} {E' : σ → Prop} (h : Leads x Q E s) (h' : Leads x Q' E' s) :
    Leads x (fun a s' => Q a s' ∧ Q' a s') (fun s' => E s' ∧ E' s') s :=
  ⟨fun a s' hx => ⟨h.1 a s' hx,h'.1 a s' hx⟩,fun e s' hx => ⟨h.2 e s' hx,h'.2 e s' hx⟩⟩

/-- What is returned and left is what the action computes. -/
theorem self (x : EStateM ε σ α) (s : σ) : Leads x (fun a s' => x s = .ok a s') (fun _ => True) s :=
  ⟨fun _ _ hx => hx,fun _ _ _ => trivial⟩

theorem pure {a : α} (h : Q a s) : Leads (pure a : EStateM ε σ α) Q E s := by
  constructor
  · rintro _ _ ⟨⟩
    exact h
  · rintro _ _ ⟨⟩

theorem throw {e : ε} (h : E s) : Leads (throw e : EStateM ε σ α) Q E s := by
  constructor
  · rintro _ _ ⟨⟩
  · rintro _ _ ⟨⟩
    exact h

variable {f : β → EStateM ε σ α}

theorem bind {x : EStateM ε σ β} (h : Leads x (fun b s' => Leads (f b) Q E s') E s) : Leads (x >>= f) Q E s := by
  constructor
  · intro a s' hx
    obtain ⟨b,t,hb,hf⟩ := (bind_ok _ _ _ _ _).mp hx
    exact (h.1 b t hb).1 a s' hf
  · intro e s' hx
    rcases (bind_error _ _ _ _ _).mp hx with he | ⟨b,t,hb,hf⟩
    · exact h.2 e s' he
    · exact (h.1 b t hb).2 e s' hf

theorem get_bind {f : σ → EStateM ε σ α} (h : Leads (f s) Q E s) :
    Leads ((get : EStateM ε σ σ) >>= f) Q E s := by
  apply bind
  constructor
  · rintro _ _ ⟨⟩
    exact h
  · rintro _ _ ⟨⟩

theorem set_ {s' : σ} {Q : PUnit → σ → Prop} (h : Q ⟨⟩ s') : Leads (set s' : EStateM ε σ PUnit) Q E s := by
  constructor
  · rintro _ _ ⟨⟩
    exact h
  · rintro _ _ ⟨⟩

theorem modify {f : σ → σ} {Q : PUnit → σ → Prop} (h : Q ⟨⟩ (f s)) :
    Leads (modify f : EStateM ε σ PUnit) Q E s := by
  constructor
  · rintro _ _ ⟨⟩
    exact h
  · rintro _ _ ⟨⟩

theorem lift {r : Except ε α} (hok : ∀ a, r = .ok a → Q a s) (herror : ∀ e, r = .error e → E s) :
    Leads (lift r : EStateM ε σ α) Q E s := by
  constructor
  · intro a s' hr
    obtain ⟨ha,rfl⟩ := (lift_ok _ _ _ _).mp hr
    exact hok a ha
  · intro e s' hr
    obtain ⟨he,rfl⟩ := (lift_error _ _ _ _).mp hr
    exact herror e he

theorem lift_bind {r : Except ε β} (hok : ∀ b, r = .ok b → Leads (f b) Q E s) (herror : ∀ e, r = .error e → E s) :
    Leads ((Execution.lift r : EStateM ε σ β) >>= f) Q E s :=
  bind (lift hok herror)

/-- An action that keeps `P`, whatever its outcome, and one that goes on from there. -/
theorem keep_bind {x : EStateM ε σ β} (hx : Leads x (fun _ => P) P s) (hf : ∀ b s', P s' → Leads (f b) Q P s') :
    Leads (x >>= f) Q P s :=
  bind (hx.mono hf fun _ h => h)

theorem keep_lift {r : Except ε α} (h : P s) : Leads (Execution.lift r : EStateM ε σ α) (fun _ => P) P s :=
  lift (fun _ _ => h) fun _ _ => h

theorem keep_forEach {body : β → EStateM ε σ Unit} {bs : List β}
    (hbody : ∀ b ∈ bs, ∀ s, P s → Leads (body b) (fun _ => P) P s) (h : P s) :
    Leads (Execution.forEach body bs) (fun _ => P) P s := by
  induction bs generalizing s with
  | nil => exact pure h
  | cons b bs ih =>
    apply keep_bind (hbody b List.mem_cons_self s h)
    intro _ s' h'
    exact ih (fun c hc => hbody c (List.mem_cons_of_mem b hc)) h'

variable {c : Prop}

theorem ite [Decidable c] {y : EStateM ε σ α} (hx : c → Leads x Q E s) (hy : ¬ c → Leads y Q E s) :
    Leads (if c then x else y) Q E s := by
  by_cases h : c
  · rw [if_pos h]
    exact hx h
  · rw [if_neg h]
    exact hy h

/-- A check that fails the action before anything happens. -/
theorem guard [Decidable c] {e : ε} {y : EStateM ε σ α} (hE : E s) (hy : ¬ c → Leads y Q E s) :
    Leads (if c then ((MonadExcept.throw e : EStateM ε σ β) >>= f) else y) Q E s :=
  ite (fun _ => bind (throw hE)) hy

/-- The outcome of an attempt is a value. -/
theorem attempt_bind {x : EStateM ε σ β} {f : Except ε β → EStateM ε σ α}
    (h : Leads x (fun b s' => Leads (f (.ok b)) Q E s') (fun s' => ∀ e, Leads (f (.error e)) Q E s') s) :
    Leads (attempt x >>= f) Q E s := by
  apply bind
  constructor
  · intro r s' hr
    rcases (attempt_ok x r s s').mp hr with ⟨b,rfl,hx⟩ | ⟨e,rfl,hx⟩
    · exact h.1 b s' hx
    · exact h.2 e s' hx e
  · intro e s' hr
    exact absurd hr (attempt_not_error x e s s')

theorem forEach {body : β → EStateM ε σ Unit} {bs : List β}
    (hbody : ∀ b ∈ bs, Leads (body b) (fun _ s' => s' = s) E s) :
    Leads (forEach body bs) (fun _ s' => s' = s) E s := by
  induction bs with
  | nil => exact pure rfl
  | cons b bs ih =>
    refine bind ((hbody b List.mem_cons_self).mono (fun _ s' hs' => ?_) fun _ h => h)
    rw [hs']
    exact ih fun c hc => hbody c (List.mem_cons_of_mem _ hc)

theorem runIf [Decidable c] {x : EStateM ε σ Unit} {Q : Unit → σ → Prop} (hx : c → Leads x Q E s) (hy : ¬ c → Q () s) :
    Leads (runIf c x) Q E s :=
  ite hx fun h => pure (hy h)

end Leads

/-! ## With the error -/

/-- From `s` the action returns into `Q` or fails into `E`, which sees the error. -/
def Ends (x : EStateM ε σ α) (Q : α → σ → Prop) (E : ε → σ → Prop) (s : σ) : Prop :=
  match x s with
  | .ok a s' => Q a s'
  | .error e s' => E e s'

namespace Ends
variable {E : ε → σ → Prop} {x : EStateM ε σ α}

theorem of_ok {s' : σ} {a : α} (h : Ends x Q E s) (hx : x s = .ok a s') : Q a s' := by
  rw [Ends,hx] at h
  exact h

theorem of_error {s' : σ} {e : ε} (h : Ends x Q E s) (hx : x s = .error e s') : E e s' := by
  rw [Ends,hx] at h
  exact h

theorem mono {Q' : α → σ → Prop} {E' : ε → σ → Prop} (h : Ends x Q E s) (hQ : ∀ a s', Q a s' → Q' a s')
    (hE : ∀ e s', E e s' → E' e s') : Ends x Q' E' s := by
  unfold Ends at h ⊢
  split at h
  · exact hQ _ _ h
  · exact hE _ _ h

theorem bind {y : EStateM ε σ β} {f : β → EStateM ε σ α} (h : Ends y (fun b s' => Ends (f b) Q E s') E s) :
    Ends (y >>= f) Q E s := by
  unfold Ends at h ⊢
  split at h
  · rename_i b t hy
    rwa [bind_of_ok hy]
  · rename_i e t hy
    rwa [bind_of_error hy]

theorem lift {r : Except ε α} (hok : ∀ a, r = .ok a → Q a s) (herror : ∀ e, r = .error e → E e s) :
    Ends (Execution.lift r : EStateM ε σ α) Q E s := by
  cases r with
  | ok a => exact hok a rfl
  | error e => exact herror e rfl

end Ends

end Mxterm.Execution
