import Mxterm.WeakestPreconditions

/-! Operations on a store that may fail: before they have an effect, after it, or in the middle of it. What an
action built from them brings about does not depend on which of them fail. -/
namespace Mxterm.Faults

open Execution

variable {σ δ ε α β : Type}

/-- How an operation goes. One that may do less than it is asked for does at most the amount that is given. -/
inductive Event
  | goes (amount : Option ℕ)
  | failsBefore
  | failsMidway (amount : ℕ)
  | failsAfter

/-- A store, and how the operations to come go. -/
structure World (σ : Type) where
  store : σ
  events : List Event

namespace World

def event (w : World σ) : Event := w.events.headD (.goes none)

def after (w : World σ) (s : σ) : World σ where
  store := s
  events := w.events.tail

end World

/-- Change the store. An operation that fails of itself leaves the store as it was. -/
def perform (lost : δ) (f : σ → Except δ σ) (midway : ℕ → σ → σ) :
    EStateM ε (World σ) (Except δ Unit) := fun w =>
  match w.event with
  | .goes _ =>
    match f w.store with
    | .ok s => .ok (.ok ()) (w.after s)
    | .error d => .ok (.error d) (w.after w.store)
  | .failsBefore => .ok (.error lost) (w.after w.store)
  | .failsMidway n => .ok (.error lost) (w.after (midway n w.store))
  | .failsAfter =>
    match f w.store with
    | .ok s => .ok (.error lost) (w.after s)
    | .error _ => .ok (.error lost) (w.after w.store)

def look (lost : δ) (f : σ → Except δ α) : EStateM ε (World σ) (Except δ α) := fun w =>
  match w.event with
  | .goes _ => .ok (f w.store) (w.after w.store)
  | _ => .ok (.error lost) (w.after w.store)

/-- Of so many units at least one and at most the amount that is given. -/
def portion (available : ℕ) : Option ℕ → ℕ
  | some amount => min available (amount + 1)
  | none => available

/-- How much of what is available comes at once. -/
def draw (lost : δ) (available : ℕ) : EStateM ε (World σ) (Except δ ℕ) := fun w =>
  match w.event with
  | .goes amount => .ok (.ok (portion available amount)) (w.after w.store)
  | _ => .ok (.error lost) (w.after w.store)

def orFail (e : ε) (x : EStateM ε (World σ) (Except δ α)) : EStateM ε (World σ) α := x >>= fun
  | .ok a => pure a
  | .error _ => throw e

theorem portion_le (available : ℕ) (amount : Option ℕ) : portion available amount ≤ available := by
  cases amount with
  | none => exact Nat.le_refl _
  | some amount => exact Nat.min_le_left _ _

theorem portion_pos {available : ℕ} (h : available ≠ 0) (amount : Option ℕ) : portion available amount ≠ 0 := by
  cases amount with
  | none => exact h
  | some amount => rw [portion]; omega

/-! ### When nothing fails -/

theorem lookOrFail_goes {e : ε} {lost : δ} {f : σ → Except δ α} {s : σ} {a : α} (h : f s = .ok a) :
    orFail e (look lost f) ⟨s,[]⟩ = .ok a ⟨s,[]⟩ := by
  have hlook : (look lost f : EStateM ε (World σ) (Except δ α)) ⟨s,[]⟩ = .ok (.ok a) ⟨s,[]⟩ := by
    show EStateM.Result.ok (f s) _ = _
    rw [h]
    rfl
  rw [orFail,bind_of_ok hlook]
  rfl

theorem performOrFail_goes {e : ε} {lost : δ} {f : σ → Except δ σ} {midway : ℕ → σ → σ} {s t : σ} (h : f s = .ok t) :
    orFail e (perform lost f midway) ⟨s,[]⟩ = .ok () ⟨t,[]⟩ := by
  have hperform : (perform lost f midway : EStateM ε (World σ) (Except δ Unit)) ⟨s,[]⟩ = .ok (.ok ()) ⟨t,[]⟩ := by
    simp only [perform,World.event,List.headD_nil,h]
    rfl
  rw [orFail,bind_of_ok hperform]
  rfl

/-- However the operations go, the action returns into `Q` or fails into `E`. -/
def Brings (x : EStateM ε (World σ) α) (Q : α → σ → Prop) (E : σ → Prop) (s : σ) : Prop :=
  ∀ events, Leads x (fun a w => Q a w.store) (fun w => E w.store) ⟨s,events⟩

namespace Brings

variable {Q : α → σ → Prop} {E : σ → Prop} {s : σ}

theorem mono {x : EStateM ε (World σ) α} {Q' : α → σ → Prop} {E' : σ → Prop} (h : Brings x Q E s)
    (hQ : ∀ a t, Q a t → Q' a t) (hE : ∀ t, E t → E' t) : Brings x Q' E' s :=
  fun events => (h events).mono (fun a w => hQ a w.store) fun w => hE w.store

theorem pure {a : α} (h : Q a s) : Brings (pure a : EStateM ε (World σ) α) Q E s := fun _ => Leads.pure h

variable {e : ε}

theorem throw (h : E s) : Brings (throw e : EStateM ε (World σ) α) Q E s := fun _ => Leads.throw h

theorem bind {x : EStateM ε (World σ) β} {f : β → EStateM ε (World σ) α}
    (h : Brings x (fun b t => Brings (f b) Q E t) E s) : Brings (x >>= f) Q E s :=
  fun events => Leads.bind ((h events).mono (fun _ w hb => hb w.events) fun _ he => he)

theorem ite {c : Prop} [Decidable c] {x y : EStateM ε (World σ) α} (hx : c → Brings x Q E s)
    (hy : ¬ c → Brings y Q E s) : Brings (if c then x else y) Q E s :=
  fun events => Leads.ite (fun h => hx h events) fun h => hy h events

theorem runIf {c : Prop} [Decidable c] {x : EStateM ε (World σ) Unit} {Q : Unit → σ → Prop}
    (hx : c → Brings x Q E s) (hy : ¬ c → Q () s) : Brings (runIf c x) Q E s :=
  ite hx fun h => pure (hy h)

variable {lost : δ}

/-- A change succeeds, fails and leaves the store, or fails and has had its effect or a part of it. -/
theorem perform {f : σ → Except δ σ} {midway : ℕ → σ → σ} {Q : Except δ Unit → σ → Prop}
    (hok : ∀ t, f s = .ok t → Q (.ok ()) t ∧ Q (.error lost) t) (herror : ∀ d, f s = .error d → Q (.error d) s)
    (hlost : Q (.error lost) s) (hmidway : ∀ n, Q (.error lost) (midway n s)) :
    Brings (perform lost f midway : EStateM ε (World σ) (Except δ Unit)) Q E s := by
  intro events
  constructor
  · intro a w hw
    simp only [Faults.perform] at hw
    split at hw
    · split at hw <;> cases hw
      · exact (hok _ ‹_›).1
      · exact herror _ ‹_›
    · cases hw
      exact hlost
    · cases hw
      exact hmidway _
    · split at hw <;> cases hw
      · exact (hok _ ‹_›).2
      · exact hlost
  · intro e w hw
    simp only [Faults.perform] at hw
    split at hw <;> (try split at hw) <;> cases hw

theorem look {f : σ → Except δ α} {Q : Except δ α → σ → Prop} (hgoes : Q (f s) s) (hlost : Q (.error lost) s) :
    Brings (look lost f : EStateM ε (World σ) (Except δ α)) Q E s := by
  intro events
  constructor
  · intro a w hw
    simp only [Faults.look] at hw
    split at hw <;> cases hw
    · exact hgoes
    · exact hlost
  · intro e w hw
    simp only [Faults.look] at hw
    split at hw <;> cases hw

theorem draw {available : ℕ} {Q : Except δ ℕ → σ → Prop}
    (hgoes : ∀ n, n ≤ available → (available ≠ 0 → n ≠ 0) → Q (.ok n) s) (hlost : Q (.error lost) s) :
    Brings (draw lost available : EStateM ε (World σ) (Except δ ℕ)) Q E s := by
  intro events
  constructor
  · intro a w hw
    simp only [Faults.draw] at hw
    split at hw <;> cases hw
    · exact hgoes _ (portion_le _ _) fun h => portion_pos h _
    · exact hlost
  · intro e w hw
    simp only [Faults.draw] at hw
    split at hw <;> cases hw

theorem orFail {x : EStateM ε (World σ) (Except δ α)}
    (h : Brings x (fun r t => (∀ a, r = .ok a → Q a t) ∧ ∀ d, r = .error d → E t) E s) : Brings (orFail e x) Q E s := by
  refine bind (h.mono (fun r t hr => ?_) fun _ ht => ht)
  cases r with
  | ok a => exact pure (hr.1 a rfl)
  | error d => exact throw (hr.2 d rfl)

/-- An operation without an effect that fails the action when it fails. -/
theorem lookOrFail {f : σ → Except δ α} (hok : ∀ a, f s = .ok a → Q a s) (hE : E s) :
    Brings (Faults.orFail e (Faults.look lost f)) Q E s :=
  orFail (look ⟨fun a ha => hok a ha,fun _ _ => hE⟩ ⟨nofun,fun _ _ => hE⟩)

/-- A change that fails the action when it fails. -/
theorem performOrFail {f : σ → Except δ σ} {midway : ℕ → σ → σ} {Q : Unit → σ → Prop}
    (hok : ∀ t, f s = .ok t → Q () t ∧ E t) (hE : E s) (hmidway : ∀ n, E (midway n s)) :
    Brings (Faults.orFail e (Faults.perform lost f midway)) Q E s := by
  refine orFail (perform (fun t ht => ?_) (fun d _ => ?_) ?_ fun n => ?_)
  · exact ⟨⟨fun _ _ => (hok t ht).1,nofun⟩,nofun,fun _ _ => (hok t ht).2⟩
  · exact ⟨nofun,fun _ _ => hE⟩
  · exact ⟨nofun,fun _ _ => hE⟩
  · exact ⟨nofun,fun _ _ => hmidway n⟩

end Brings

def returns (x : EStateM ε (World σ) α) (w : World σ) : Bool :=
  match x w with
  | .ok _ _ => true
  | .error _ _ => false

theorem returns_unit {x : EStateM ε (World σ) Unit} {w : World σ} (h : returns x w = true) :
    x w = .ok () (after x w) := by
  rw [returns] at h
  cases hx : x w with
  | ok a w' => rw [after_of_ok hx]
  | error e w' =>
    rw [hx] at h
    cases h

end Mxterm.Faults
