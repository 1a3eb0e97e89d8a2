import Mathlib.Algebra.BigOperators.Group.List.Basic
import Mxterm.Transitions

/-! Programs that share a state. Each program is a tree of actions with their answers, and the programs that have been
started take turns after every action. -/
namespace Mxterm.Interleavings

variable {Action : Type} {Answer : Action → Type} {α β L : Type}

/-! ## Programs -/

inductive Program (Action : Type) (Answer : Action → Type) (α : Type) : Type
  | done (result : α)
  | act (action : Action) (next : Answer action → Program Action Answer α)

namespace Program

def bind : Program Action Answer α → (α → Program Action Answer β) → Program Action Answer β
  | done result,f => f result
  | act action next,f => act action fun answer => (next answer).bind f

instance : Monad (Program Action Answer) where
  pure := done
  bind := bind

/-- An action whose answer is the result. -/
def perform (action : Action) : Program Action Answer (Answer action) := act action done

def Finished : Program Action Answer α → Prop
  | done _ => True
  | act _ _ => False

/-! ## What a program has

A program that is started with something, and that gets and gives away something with every action. -/

/-- What actions need, which answers they may give, and what there is after them. -/
structure Usage (Action : Type) (Answer : Action → Type) (L : Type) where
  needs : Action → L → Prop
  possible : (action : Action) → Answer action → Prop
  after : (action : Action) → Answer action → L → L

/-- Every action is performed with what it needs, and what is there at the end is `Q`. -/
def Meets (u : Usage Action Answer L) (Q : α → L → Prop) : Program Action Answer α → L → Prop
  | done result,l => Q result l
  | act action next,l =>
    u.needs action l ∧ ∀ answer, u.possible action answer → (next answer).Meets u Q (u.after action answer l)

section
variable {u : Usage Action Answer L}

variable {p : Program Action Answer α} {l : L}

theorem Meets.mono {Q Q' : α → L → Prop} (h : p.Meets u Q l) (hQ : ∀ result l, Q result l → Q' result l) :
    p.Meets u Q' l := by
  induction p generalizing l with
  | done result => exact hQ result l h
  | act action next ih => exact ⟨h.1,fun answer hanswer => ih answer (h.2 answer hanswer)⟩

theorem Meets.bind {Q : β → L → Prop} {f : α → Program Action Answer β}
    (h : p.Meets u (fun result l => (f result).Meets u Q l) l) : (p >>= f).Meets u Q l := by
  induction p generalizing l with
  | done result => exact h
  | act action next ih => exact ⟨h.1,fun answer hanswer => ih answer (h.2 answer hanswer)⟩

/-- One after the other, with what the first leaves. -/
theorem Meets.andThen {P : α → L → Prop} {Q : β → L → Prop} {f : α → Program Action Answer β} (h : p.Meets u P l)
    (hf : ∀ result l, P result l → (f result).Meets u Q l) : (p >>= f).Meets u Q l :=
  Meets.bind (h.mono hf)

end

/-- With answers that are possible, every result is `Q`. -/
def Returns (possible : (action : Action) → Answer action → Prop) (Q : α → Prop) : Program Action Answer α → Prop
  | done result => Q result
  | act action next => ∀ answer, possible action answer → (next answer).Returns possible Q

section
variable {possible : (action : Action) → Answer action → Prop}

theorem Returns.bind {P : α → Prop} {Q : β → Prop} {p : Program Action Answer α} {f : α → Program Action Answer β}
    (h : p.Returns possible P) (hf : ∀ result, P result → (f result).Returns possible Q) :
    (p >>= f).Returns possible Q := by
  induction p with
  | done result => exact hf result h
  | act action next ih => exact fun answer hanswer => ih answer (h answer hanswer)

theorem Returns.mono {P Q : α → Prop} {p : Program Action Answer α} (h : p.Returns possible P)
    (hQ : ∀ result, P result → Q result) : p.Returns possible Q := by
  induction p with
  | done result => exact hQ result h
  | act action next ih => exact fun answer hanswer => ih answer (h answer hanswer)

theorem returns_true (p : Program Action Answer α) : p.Returns possible fun _ => True := by
  induction p with
  | done result => trivial
  | act action next ih => exact fun answer _ => ih answer

end

/-! ## What a program may still do -/

/-- Without an action of the kind `renews` before it, the program or what comes behind it, which may do `K`, can
come to the action `x`. -/
def Aims (renews : Action → Prop) (x : Action → Prop) (K : α → Prop) : Program Action Answer α → Prop
  | done result => K result
  | act action next => x action ∨ ¬ renews action ∧ ∃ answer, (next answer).Aims renews x K

theorem aims_bind {renews x : Action → Prop} {K : β → Prop} {p : Program Action Answer α}
    {f : α → Program Action Answer β} :
    (p >>= f).Aims renews x K ↔ p.Aims renews x fun result => (f result).Aims renews x K := by
  induction p with
  | done result => rfl
  | act action next ih => exact or_congr Iff.rfl (and_congr Iff.rfl (exists_congr ih))

theorem Aims.mono {renews x : Action → Prop} {K K' : α → Prop} {p : Program Action Answer α}
    (h : p.Aims renews x K) (hK : ∀ result, K result → K' result) : p.Aims renews x K' := by
  induction p with
  | done result => exact hK result h
  | act action next ih =>
    rcases h with h | ⟨hrenews,answer,h⟩
    · exact .inl h
    · exact .inr ⟨hrenews,answer,ih answer h⟩

/-- After every possible answer the program aims only at what the answer vouches for. -/
def Vouched {H : Type} (renews : Action → Prop) (x : H → Action → Prop)
    (possible : (action : Action) → Answer action → Prop) (vouches : (action : Action) → Answer action → H → Prop)
    (K : α → H → Prop) : Program Action Answer α → Prop
  | done _ => True
  | act action next => ∀ answer, possible action answer → (next answer).Vouched renews x possible vouches K ∧
      ∀ h, (next answer).Aims renews (x h) (fun result => K result h) → vouches action answer h

section
variable {H : Type} {renews : Action → Prop} {x : H → Action → Prop}
  {possible : (action : Action) → Answer action → Prop} {vouches : (action : Action) → Answer action → H → Prop}

theorem Vouched.mono {K K' : α → H → Prop} {p : Program Action Answer α} (h : p.Vouched renews x possible vouches K)
    (hK : ∀ result h, K' result h → K result h) : p.Vouched renews x possible vouches K' := by
  induction p with
  | done result => trivial
  | act action next ih =>
    intro answer hanswer
    exact ⟨ih answer (h answer hanswer).1,
      fun y hy => (h answer hanswer).2 y (hy.mono fun result => hK result y)⟩

theorem Vouched.bind {K : β → H → Prop} {p : Program Action Answer α} {f : α → Program Action Answer β}
    (h : p.Vouched renews x possible vouches fun result y => (f result).Aims renews (x y) fun last => K last y)
    (hf : ∀ result, (f result).Vouched renews x possible vouches K) : (p >>= f).Vouched renews x possible vouches K :=
      by
  induction p with
  | done result => exact hf result
  | act action next ih =>
    intro answer hanswer
    exact ⟨ih answer (h answer hanswer).1,fun y hy => (h answer hanswer).2 y (aims_bind.mp hy)⟩

end

end Program

/-! ## Pools -/

/-- What the calls share, what a call runs, and what an action does. A `Choice` is what is left open: whether something
fails, what the clock shows. Actions that have to wait are not possible. -/
structure Machine (Shared Call Action : Type) (Answer : Action → Type) (Choice : Type) where
  program : Call → Program Action Answer Unit
  perform : (action : Action) → Choice → Shared → Option (Answer action × Shared)

structure Task (Call Action : Type) (Answer : Action → Type) where
  call : Call
  program : Program Action Answer Unit

structure Pool (Shared Call Action : Type) (Answer : Action → Type) where
  shared : Shared
  tasks : List (Task Call Action Answer)

inductive Turn (Call Choice : Type)
  | start (call : Call)
  | advance (task : ℕ) (choice : Choice)

variable {Shared Call Choice : Type}

namespace Machine
variable (m : Machine Shared Call Action Answer Choice)

def step (pool : Pool Shared Call Action Answer) : Turn Call Choice → Option (Pool Shared Call Action Answer)
  | .start call => some { pool with tasks := pool.tasks ++ [⟨call,m.program call⟩] }
  | .advance i choice =>
    match pool.tasks[i]? with
    | some ⟨call,.act action next⟩ =>
      (m.perform action choice pool.shared).map fun done =>
        ⟨done.2,pool.tasks.set i ⟨call,next done.1⟩⟩
    | _ => none

/-- A turn of a task is an action of its program. -/
theorem step_advance {pool pool' : Pool Shared Call Action Answer} {i : ℕ} {choice : Choice}
    (h : m.step pool (.advance i choice) = some pool') :
    ∃ call action next answer, pool.tasks[i]? = some ⟨call,.act action next⟩ ∧
      m.perform action choice pool.shared = some (answer,pool'.shared) ∧
      pool'.tasks = pool.tasks.set i ⟨call,next answer⟩ := by
  simp only [step] at h
  split at h
  · rename_i call action next htask
    obtain ⟨⟨answer,shared⟩,hperform,rfl⟩ := Option.map_eq_some_iff.mp h
    exact ⟨call,action,next,answer,htask,hperform,rfl⟩
  · cases h

end Machine

namespace Pool

/-- No call is in progress. -/
def Quiet (pool : Pool Shared Call Action Answer) : Prop := ∀ task ∈ pool.tasks, task.program.Finished

end Pool

/-! ## Invariants

An invariant speaks of what is shared and of what every task has. -/

variable {as : List α} {a : α}

theorem forall₂_set {R : α → β → Prop} {bs : List β} (h : List.Forall₂ R as bs) {b : β} (hab : R a b) (i : ℕ) :
    List.Forall₂ R (as.set i a) (bs.set i b) := by
  induction h generalizing i with
  | nil => exact .nil
  | cons hhead htail ih =>
    cases i with
    | zero => exact .cons hab htail
    | succ i => exact .cons hhead (ih i)

variable {i : ℕ}

theorem forall₂_getElem? {R : α → β → Prop} {bs : List β} (h : List.Forall₂ R as bs) (ha : as[i]? = some a) :
    ∃ b, bs[i]? = some b ∧ R a b := by
  induction h generalizing i with
  | nil => cases ha
  | cons hhead htail ih =>
    cases i with
    | zero =>
      cases ha
      exact ⟨_,rfl,hhead⟩
    | succ i => exact ih ha

theorem sum_set (f : L → ℕ) {ls : List L} {l : L} (hl : ls[i]? = some l) (l' : L) :
    ((ls.set i l').map f).sum + f l = (ls.map f).sum + f l' := by
  induction ls generalizing i with
  | nil => cases hl
  | cons first ls ih =>
    cases i with
    | zero =>
      cases hl
      simp only [List.set_cons_zero,List.map_cons,List.sum_cons]
      omega
    | succ i =>
      have hrest := ih (i := i) hl
      simp only [List.set_cons_succ,List.map_cons,List.sum_cons]
      omega

/-- After a turn a task is the one that had it, or another one that is as it was. -/
theorem getElem?_set_cases {j : ℕ} {b : α} (h : (as.set i a)[j]? = some b) :
    (j = i ∧ b = a) ∨ (j ≠ i ∧ as[j]? = some b) := by
  by_cases hj : j = i
  · subst hj
    rw [List.getElem?_set_self'] at h
    cases has : as[j]? with
    | none =>
      rw [has] at h
      cases h
    | some old =>
      rw [has] at h
      exact .inl ⟨rfl,(Option.some.inj h).symm⟩
  · rw [List.getElem?_set_ne (Ne.symm hj)] at h
    exact .inr ⟨hj,h⟩

variable {m : Machine Shared Call Action Answer Choice} {u : Program.Usage Action Answer L} {Q : L → Prop}

/-- The tasks have `ls`, which is enough for what they still do. -/
def Provided (u : Program.Usage Action Answer L) (Q : L → Prop) (tasks : List (Task Call Action Answer))
    (ls : List L) : Prop :=
  List.Forall₂ (fun task l => task.program.Meets u (fun _ => Q) l) tasks ls

/-- When every action keeps the invariant, it holds after every turn. -/
theorem provided_step {Inv : Shared → List L → Prop} {first : L} {pool pool' : Pool Shared Call Action Answer}
    {turn : Turn Call Choice} (hprograms : ∀ call, (m.program call).Meets u (fun _ => Q) first)
    (hstart : ∀ s ls, Inv s ls → Inv s (ls ++ [first]))
    (hact : ∀ i choice action answer s s' ls l, Inv s ls → ls[i]? = some l → u.needs action l →
      m.perform action choice s = some (answer,s') →
      u.possible action answer ∧ Inv s' (ls.set i (u.after action answer l)))
    (h : ∃ ls, Inv pool.shared ls ∧ Provided u Q pool.tasks ls) (hstep : m.step pool turn = some pool') :
    ∃ ls, Inv pool'.shared ls ∧ Provided u Q pool'.tasks ls := by
  obtain ⟨ls,hinv,hls⟩ := h
  cases turn with
  | start call =>
    cases hstep
    exact ⟨ls ++ [first],hstart _ _ hinv,List.rel_append hls (.cons (hprograms call) .nil)⟩
  | advance i choice =>
    obtain ⟨call,action,next,answer,htask,hperform,htasks⟩ := m.step_advance hstep
    obtain ⟨l,hl,hneeds,hnext⟩ := forall₂_getElem? hls htask
    obtain ⟨hpossible,hinv'⟩ := hact i choice action answer _ _ ls l hinv hl hneeds hperform
    refine ⟨ls.set i (u.after action answer l),hinv',?_⟩
    rw [htasks]
    exact forall₂_set hls (hnext answer hpossible) i

end Mxterm.Interleavings
