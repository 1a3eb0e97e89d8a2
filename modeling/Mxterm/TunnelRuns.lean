import Mxterm.TunnelManager

/-! What holds of the tunnels in every run. -/
namespace Mxterm.Tunnels

open Function

/-- The operation has opened a session, which it has neither closed nor put into the map. -/
def Phase.holdsOwn : Phase → Bool
  | .reload _ | .abandon | .recheck _ | .discard | .forward _ | .clearForward | .announceRunning _ | .record => true
  | _ => false

/-- The operation is going to write a status other than running. -/
def Phase.clears : Phase → Bool
  | .shut _ _ | .announceStarting _ _ | .failing _ | .forget | .announceStopped | .eraseState => true
  | .resolveStopped took | .erase took => took
  | _ => false

def Phase.isUpdate : Phase → Bool
  | .updateCheck _ | .updateStatus _ _ | .updateWrite _ => true
  | _ => false

namespace TunnelManager

/-- The runtime of the call is in the map, or announced and about to be put there. -/
def Placed (m : TunnelManager) (n : ℕ) : Prop := m.running (m.rule n) = some n ∨ m.tasks n = some .record

def Unclaimed (m : TunnelManager) (id : String) : Prop := ∀ n, m.rule n = id → ¬ m.Placed n

/-- The session is in the hands of an operation on its rule, which is going to close it or to put it into the
map, or of its accept loop, which is closing it. -/
def InHands (m : TunnelManager) (n : ℕ) : Prop :=
  (∃ phase, m.tasks n = some phase ∧ phase.holdsOwn) ∨
    (∃ k goal, m.rule k = m.rule n ∧ m.tasks k = some (.shut n goal)) ∨ m.loops n = some .closing

/-- No start, stop or deletion of the rule is in progress, and no accept loop of it is going down. -/
def Quiet (m : TunnelManager) (id : String) : Prop :=
  (∀ n phase, m.rule n = id → m.tasks n = some phase → phase.isUpdate) ∧
    ∀ n phase, m.rule n = id → m.loops n = some phase → phase = .accepting

/-- One runtime for a rule, none leaked and none resurrected. -/
structure Consistent (m : TunnelManager) : Prop where
  held : ∀ n, m.opened n → m.running (m.rule n) = some n ∨ m.InHands n
  quiet_held : ∀ n, m.Quiet (m.rule n) → m.opened n → m.running (m.rule n) = some n ∧ (m.get (m.rule n)).isSome
  quiet_status : ∀ id, m.Quiet id → (m.states id = some .running ↔ (m.running id).isSome)
  quiet_stopped : ∀ id, m.Quiet id → m.completed id = some .stop → m.states id ≠ some .running ∧ m.running id = none

/-- A step of an operation meets no runtime that is placed where it writes another status than running or takes
the rule out of the store; a runtime is announced where no other one is, for a rule that is still stored. -/
def Undisturbed (m : TunnelManager) (id : String) (outcome : Outcome) : Phase → Prop
  | .announceStarting _ _ | .failing _ | .forget | .announceStopped => m.Unclaimed id
  | .announceRunning _ => outcome = .ok ∧ m.Unclaimed id ∧ (m.get id).isSome
  | .resolveStopped took => took → outcome = .ok
  | .erase took => (took → outcome = .ok) ∧ m.Unclaimed id
  | _ => True

/-- The step meets no other operation, and an accept loop goes down when its runtime is in the map. -/
def Apart (m : TunnelManager) : Action → Prop
  | .advance n outcome => ∀ phase, m.tasks n = some phase → m.Undisturbed (m.rule n) outcome phase
  | .acceptLoop n => m.loops n = some .failed → m.running (m.rule n) = some n
  | _ => True

structure Inv (m : TunnelManager) : Prop where
  fresh : ∀ n, m.next ≤ n → m.tasks n = none ∧ m.opened n = false ∧ m.loops n = none ∧ ∀ id, m.running id ≠ some n
  held_rule : ∀ id n, m.running id = some n → m.rule n = id
  held_done : ∀ id n, m.running id = some n → m.tasks n = none
  unique : ∀ n k, m.Placed n → m.Placed k → m.rule n = m.rule k → n = k
  stored : ∀ n, m.Placed n → (m.get (m.rule n)).isSome
  status : ∀ n, m.Placed n → m.states (m.rule n) = some .running ∨
    m.states (m.rule n) = some .failed ∧ m.loops n = some .failed
  accepting : ∀ n, m.loops n = some .accepting → m.Placed n ∧ m.states (m.rule n) = some .running
  failing : ∀ n, m.loops n = some .failed → m.Placed n ∧ m.states (m.rule n) = some .failed
  cleared : ∀ id, m.states id = some .running → (∃ n, m.rule n = id ∧ m.Placed n) ∨
    ∃ n phase, m.rule n = id ∧ m.tasks n = some phase ∧ phase.clears
  known : ∀ id, m.states id = some .running → (m.get id).isSome ∨ ∃ n, m.rule n = id ∧ m.tasks n = some .eraseState
  erasing : ∀ n, m.tasks n = some .eraseState → m.storeLocked = true ∧ m.get (m.rule n) = none
  erasing_unique : ∀ n k, m.tasks n = some .eraseState → m.tasks k = some .eraseState → n = k
  stopped : ∀ id, m.completed id = some .stop → m.running id = none
  kept : ∀ n, m.opened n → m.Placed n ∨ m.InHands n

variable {m m' : TunnelManager} {n : ℕ} {id : String}

theorem inv_initial (rules : List TunnelRule) : Inv (initial rules) := by
  constructor <;> simp [initial,Placed]

/-! ## What the parts of a step keep -/

theorem Inv.unclaimed_running (hinv : Inv m) (h : m.Unclaimed id) : m.running id = none := by
  cases hrun : m.running id with
  | none => rfl
  | some n =>
    have hrule := hinv.held_rule id n hrun
    exact absurd (Or.inl (by rw [hrule,hrun])) (h n hrule)

@[simp] theorem enter_tasks_self (phase : Option Phase) : (m.enter n phase).tasks n = phase :=
  update_self ..

variable {k : ℕ}

theorem enter_tasks_ne (hk : k ≠ n) (phase : Option Phase) : (m.enter n phase).tasks k = m.tasks k :=
  update_of_ne hk ..

variable {old : Phase} {phase : Option Phase}

/-- The calls that stand at another await than the one that is left and the one that is reached. -/
theorem update_tasks_iff {tasks : ℕ → Option Phase} {other : Phase} (hold : tasks n = some old)
    (h : old ≠ other ∧ phase ≠ some other) (k : ℕ) :
    Function.update tasks n phase k = some other ↔ tasks k = some other := by
  by_cases hk : k = n
  · subst hk
    rw [update_self,hold]
    exact iff_of_false h.2 fun heq => h.1 (Option.some.inj heq)
  · rw [update_of_ne hk]

theorem enter_tasks_iff {other : Phase} (hold : m.tasks n = some old) (h : old ≠ other ∧ phase ≠ some other) (k : ℕ) :
    (m.enter n phase).tasks k = some other ↔ m.tasks k = some other := update_tasks_iff hold h k

theorem placed_enter (hold : m.tasks n = some old) (hrecord : old ≠ .record ∧ phase ≠ some .record) (k : ℕ) :
    (m.enter n phase).Placed k ↔ m.Placed k := by
  rw [Placed,Placed,enter_tasks_iff hold hrecord]
  rfl

theorem Inv.ne_of_next (h : Inv m) (hold : m.tasks n = some old) (hk : m.next ≤ k) : k ≠ n := by
  rintro rfl
  simp [(h.fresh k hk).1] at hold

theorem Inv.ne_of_held (h : Inv m) (hold : m.tasks n = some old) (hk : m.running id = some k) : k ≠ n := by
  rintro rfl
  simp [h.held_done id k hk] at hold

/-- A session stays in the hands of the operation that has it while another call goes on. -/
theorem InHands.of_tasks {t : TunnelManager} (h : m.InHands k) (hold : m.tasks n = some old)
    (hown : k = n → old.holdsOwn = false) (hshut : ∀ goal, old ≠ .shut k goal) (hrule : t.rule = m.rule)
    (htasks : ∀ j, j ≠ n → t.tasks j = m.tasks j) (hloops : t.loops k = m.loops k) : t.InHands k := by
  rcases h with ⟨phase,hphase,hholds⟩ | ⟨j,goal,hj,hgoal⟩ | hclosing
  · have hkn : k ≠ n := by
      rintro rfl
      cases hold.symm.trans hphase
      rw [hown rfl] at hholds
      cases hholds
    exact .inl ⟨phase,(htasks k hkn).trans hphase,hholds⟩
  · have hjn : j ≠ n := by
      rintro rfl
      exact hshut goal (Option.some.inj (hold.symm.trans hgoal))
    exact .inr (.inl ⟨j,goal,by rw [hrule,hj],(htasks j hjn).trans hgoal⟩)
  · exact .inr (.inr (hloops.trans hclosing))

/-- A call goes on to another await, or ends, and the store of the rules changes with it. -/
theorem Inv.moved (h : Inv m) (hold : m.tasks n = some old) {rules : List TunnelRule} {locked : Bool}
    (hrecord : old ≠ .record ∧ phase ≠ some .record)
    (hclears : m.states (m.rule n) = some .running → old.clears → ∃ new, phase = some new ∧ new.clears)
    (hown : m.opened n → old.holdsOwn → ∃ new, phase = some new ∧ new.holdsOwn)
    (hshut : ∀ k goal, old = .shut k goal → m.opened k = false)
    (hstored : ∀ k, m.Placed k → (tunnelGet rules (m.rule k)).isSome)
    (hknown : ∀ id, m.states id = some .running → (tunnelGet rules id).isSome ∨ ∃ k, m.rule k = id ∧
      (m.enter n phase).tasks k = some .eraseState)
    (herasing : ∀ k, (m.enter n phase).tasks k = some .eraseState → locked = true ∧ tunnelGet rules (m.rule k) = none)
    (hunique : ∀ k j, (m.enter n phase).tasks k = some .eraseState → (m.enter n phase).tasks j = some .eraseState → k =
      j) :
    Inv ({ m with rules := rules, storeLocked := locked }.enter n phase) := by
  have hplaced : ∀ k, ({ m with rules := rules, storeLocked := locked }.enter n phase).Placed k ↔ m.Placed k :=
    placed_enter (m := { m with rules := rules, storeLocked := locked }) hold hrecord
  have htasks : ∀ {k}, k ≠ n →
      ({ m with rules := rules, storeLocked := locked }.enter n phase).tasks k = m.tasks k :=
    fun hk => update_of_ne hk ..
  have hself : ({ m with rules := rules, storeLocked := locked }.enter n phase).tasks n = phase :=
    update_self ..
  refine ⟨?fresh,h.held_rule,?held_done,?unique,?stored,?status,?accepting,?failing,?cleared,hknown,herasing,hunique,
    h.stopped,?kept⟩
  case fresh =>
    intro k hk
    rw [htasks (h.ne_of_next hold hk)]
    exact h.fresh k hk
  case held_done =>
    intro id k hk
    rw [htasks (h.ne_of_held hold hk)]
    exact h.held_done id k hk
  case unique =>
    simp only [hplaced]
    exact h.unique
  case stored =>
    simp only [hplaced]
    exact hstored
  case status =>
    simp only [hplaced]
    exact h.status
  case accepting =>
    simp only [hplaced]
    exact h.accepting
  case failing =>
    simp only [hplaced]
    exact h.failing
  case cleared =>
    intro id hid
    simp only [hplaced]
    rcases h.cleared id hid with hk | ⟨k,other,hk,hother,hclear⟩
    · exact .inl hk
    right
    by_cases hkn : k = n
    · subst hkn
      cases hold.symm.trans hother
      obtain ⟨new,hnew,hclear⟩ := hclears (by rw [hk]; exact hid) hclear
      exact ⟨k,new,hk,hself.trans hnew,hclear⟩
    · exact ⟨k,other,hk,(htasks hkn).trans hother,hclear⟩
  case kept =>
    intro k hk
    rw [hplaced]
    rcases h.kept k hk with hk' | hhands
    · exact .inl hk'
    right
    by_cases hkept : k = n ∧ old.holdsOwn = true
    · obtain ⟨rfl,hholds⟩ := hkept
      obtain ⟨new,hnew,hholds⟩ := hown hk hholds
      exact .inl ⟨new,hself.trans hnew,hholds⟩
    · refine hhands.of_tasks hold (fun hkn => ?_) (fun goal hgoal => ?_) rfl (fun _ => htasks) rfl
      · exact Bool.eq_false_iff.mpr fun hholds => hkept ⟨hkn,hholds⟩
      · cases (hshut k goal hgoal).symm.trans hk

/-- A call goes on to another await, or ends. -/
theorem Inv.enter (h : Inv m) (hold : m.tasks n = some old) (hrecord : old ≠ .record ∧ phase ≠ some .record)
    (herase : old ≠ .eraseState ∧ phase ≠ some .eraseState)
    (hclears : m.states (m.rule n) = some .running → old.clears → ∃ new, phase = some new ∧ new.clears)
    (hown : m.opened n → old.holdsOwn → ∃ new, phase = some new ∧ new.holdsOwn)
    (hshut : ∀ k goal, old = .shut k goal → m.opened k = false) : Inv (m.enter n phase) := by
  refine h.moved hold hrecord hclears hown hshut h.stored ?_ ?_ ?_ <;> simp only [enter_tasks_iff hold herase]
  · exact h.known
  · exact h.erasing
  · exact h.erasing_unique

theorem setState_ne {other : String} (hne : other ≠ id) (status : Option TunnelStatus) :
    (m.setState id status).states other = m.states other := update_of_ne hne ..

/-- A status other than running is written where no runtime of the rule is placed. -/
theorem Inv.setState (h : Inv m) (hfree : m.Unclaimed id) {status : Option TunnelStatus}
    (hstatus : status ≠ some .running) : Inv (m.setState id status) := by
  have hplaced {k : ℕ} (hk : m.Placed k) : (m.setState id status).states (m.rule k) = m.states (m.rule k) :=
    setState_ne (fun heq => hfree k heq hk) status
  have hrunning {other : String} (hother : (m.setState id status).states other = some .running) :
      m.states other = some .running := by
    have hne : other ≠ id := by
      rintro rfl
      exact hstatus (by simpa [TunnelManager.setState] using hother)
    rwa [setState_ne hne] at hother
  refine { h with status := ?_,accepting := ?_,failing := ?_,cleared := ?_,known := ?_ }
  · exact fun k hk => (hplaced hk).symm ▸ h.status k hk
  · exact fun k hk => ⟨(h.accepting k hk).1,(hplaced (h.accepting k hk).1).trans (h.accepting k hk).2⟩
  · exact fun k hk => ⟨(h.failing k hk).1,(hplaced (h.failing k hk).1).trans (h.failing k hk).2⟩
  · exact fun other hother => h.cleared other (hrunning hother)
  · exact fun other hother => h.known other (hrunning hother)

theorem Inv.close (h : Inv m) (n : ℕ) : Inv (m.close n) := by
  have hopened {k : ℕ} (hk : (m.close n).opened k = true) : m.opened k = true := by
    by_cases hkn : k = n
    · subst hkn
      simp [TunnelManager.close] at hk
    · simpa [TunnelManager.close,hkn] using hk
  refine { h with fresh := ?_,kept := fun k hk => h.kept k (hopened hk) }
  intro k hk
  have hf := h.fresh k hk
  exact ⟨hf.1,Bool.eq_false_iff.mpr fun hk' => by simp [hopened hk'] at hf,hf.2.2⟩

theorem Inv.complete (h : Inv m) {operation : Operation} (hstop : operation = .stop → m.running id = none) :
    Inv (m.complete id operation) := by
  refine { h with stopped := fun other hother => ?_ }
  by_cases hid : other = id
  · subst hid
    exact hstop (by simpa [TunnelManager.complete] using hother)
  · exact h.stopped other (by simpa [TunnelManager.complete,hid] using hother)

/-- A session is opened by the call that holds it. -/
theorem Inv.openSession (h : Inv m) {phase : Phase} (hold : m.tasks n = some phase) (hholds : phase.holdsOwn) :
    Inv (m.openSession n) := by
  refine { h with fresh := fun k hk => ?_,kept := fun k hk => ?_ }
  · have hf := h.fresh k hk
    exact ⟨hf.1,(update_of_ne (h.ne_of_next hold hk) ..).trans hf.2.1,hf.2.2⟩
  · by_cases hkn : k = n
    · subst hkn
      exact .inr (.inl ⟨phase,hold,hholds⟩)
    · exact h.kept k (by simpa [TunnelManager.openSession,hkn] using hk)

variable {x : ℕ}

/-- Where a runtime is taken out of the map, the other ones stay placed. -/
theorem Inv.placed_remove (h : Inv m) (hx : m.running (m.rule x) = some x) (k : ℕ) :
    (Function.update m.running (m.rule x) none (m.rule k) = some k ∨ m.tasks k = some .record) ↔
      m.Placed k ∧ k ≠ x := by
  have hdone := h.held_done _ x hx
  by_cases hrule : m.rule k = m.rule x
  · rw [hrule,update_self]
    constructor
    · intro hk
      have hrecord := hk.resolve_left nofun
      refine ⟨.inr hrecord,?_⟩
      rintro rfl
      simp [hdone] at hrecord
    · intro hk
      exact absurd (h.unique k x hk.1 (.inl hx) hrule) hk.2
  · rw [update_of_ne hrule]
    refine ⟨fun hk => ⟨hk,?_⟩,fun hk => hk.1⟩
    rintro rfl
    exact hrule rfl

/-- A runtime leaves the map. Its session goes into the hands of a call, or its accept loop closes it. -/
theorem Inv.remove (h : Inv m) (hx : m.running (m.rule x) = some x) {loop : Option LoopPhase}
    (hloop : loop ≠ some .accepting ∧ loop ≠ some .failed)
    (hclears : m.states (m.rule x) = some .running → ∃ k phase, m.rule k = m.rule x ∧ m.tasks k = some phase ∧
      phase.clears)
    (hhands : (∃ k goal, m.rule k = m.rule x ∧ m.tasks k = some (.shut x goal)) ∨ loop = some .closing) :
    Inv { m with
      running := Function.update m.running (m.rule x) none
      loops := Function.update m.loops x loop } := by
  set t : TunnelManager := { m with
    running := Function.update m.running (m.rule x) none
    loops := Function.update m.loops x loop } with ht
  have hplaced : ∀ k, t.Placed k ↔ m.Placed k ∧ k ≠ x := h.placed_remove hx
  have hloops : ∀ {k}, k ≠ x → t.loops k = m.loops k := fun hk => update_of_ne hk ..
  have hself : t.loops x = loop := update_self ..
  have hrunning : ∀ {id k}, t.running id = some k → m.running id = some k := by
    intro id k hk
    have hid : id ≠ m.rule x := by
      rintro rfl
      rw [show t.running (m.rule x) = none from update_self ..] at hk
      cases hk
    rwa [show t.running id = m.running id from update_of_ne hid ..] at hk
  have hkept : ∀ {k phase}, t.loops k = some phase → phase = .accepting ∨ phase = .failed →
      k ≠ x ∧ m.loops k = some phase := by
    intro k phase hk hphase
    have hkx : k ≠ x := by
      rintro rfl
      rw [hself] at hk
      rcases hphase with rfl | rfl
      · exact hloop.1 hk
      · exact hloop.2 hk
    exact ⟨hkx,(hloops hkx).symm.trans hk⟩
  refine { h with fresh := ?fresh,held_rule := ?_,held_done := ?_,unique := ?_,stored := ?_,status := ?status,
                  accepting := ?accepting,failing := ?failing,cleared := ?cleared,stopped := ?stopped,kept := ?kept }
  case fresh =>
    intro k hk
    have hf := h.fresh k hk
    have hkx : k ≠ x := by
      rintro rfl
      exact hf.2.2.2 _ hx
    exact ⟨hf.1,hf.2.1,(hloops hkx).trans hf.2.2.1,fun id hid => hf.2.2.2 id (hrunning hid)⟩
  · exact fun id k hk => h.held_rule id k (hrunning hk)
  · exact fun id k hk => h.held_done id k (hrunning hk)
  · exact fun k j hk hj => h.unique k j ((hplaced k).mp hk).1 ((hplaced j).mp hj).1
  · exact fun k hk => h.stored k ((hplaced k).mp hk).1
  case status =>
    intro k hk
    rw [hloops ((hplaced k).mp hk).2]
    exact h.status k ((hplaced k).mp hk).1
  case accepting =>
    intro k hk
    obtain ⟨hkx,hk'⟩ := hkept hk (.inl rfl)
    exact ⟨(hplaced k).mpr ⟨(h.accepting k hk').1,hkx⟩,(h.accepting k hk').2⟩
  case failing =>
    intro k hk
    obtain ⟨hkx,hk'⟩ := hkept hk (.inr rfl)
    exact ⟨(hplaced k).mpr ⟨(h.failing k hk').1,hkx⟩,(h.failing k hk').2⟩
  case cleared =>
    intro id hid
    rcases h.cleared id hid with ⟨k,rfl,hk⟩ | hcleared
    · by_cases hkx : k = x
      · subst hkx
        exact .inr (hclears hid)
      · exact .inl ⟨k,rfl,(hplaced k).mpr ⟨hk,hkx⟩⟩
    · exact .inr hcleared
  case stopped =>
    intro id hid
    cases hrun : t.running id with
    | none => rfl
    | some k =>
      have hnone := h.stopped id hid
      rw [hrunning hrun] at hnone
      cases hnone
  case kept =>
    intro k hk
    by_cases hkx : k = x
    · subst hkx
      exact .inr (.inr (hhands.imp_right hself.trans))
    rcases h.kept k hk with hk' | hholds | hshut | hclosing
    · exact .inl ((hplaced k).mpr ⟨hk',hkx⟩)
    · exact .inr (.inl hholds)
    · exact .inr (.inr (.inl hshut))
    · exact .inr (.inr (.inr ((hloops hkx).trans hclosing)))

/-- `stop_running` takes a runtime out of the map to close its session. -/
theorem Inv.take (h : Inv m) {goal : Goal} (hold : m.tasks n = some (.take goal))
    (hx : m.running (m.rule n) = some x) : Inv ((m.takeOut (m.rule n) x).enter n (some (.shut x goal))) := by
  have hrule : m.rule x = m.rule n := h.held_rule _ x hx
  have hentered : Inv (m.enter n (some (.shut x goal))) :=
    h.enter hold ⟨nofun,by simp⟩ ⟨nofun,by simp⟩ nofun nofun nofun
  have hshut : (m.enter n (some (.shut x goal))).tasks n = some (.shut x goal) := enter_tasks_self _
  rw [← hrule] at hx ⊢
  exact hentered.remove hx ⟨nofun,nofun⟩ (fun _ => ⟨n,_,hrule.symm,hshut,rfl⟩) (.inl ⟨n,goal,hrule.symm,hshut⟩)

/-- A runtime is announced for a rule that is stored and has no other runtime. -/
theorem Inv.announce (h : Inv m) {kind : TunnelKind} (hold : m.tasks n = some (.announceRunning kind))
    (hfree : m.Unclaimed (m.rule n)) (hstored : (m.get (m.rule n)).isSome) :
    Inv (((m.setState (m.rule n) (some .running)).spawn n kind).enter n (some .record)) := by
  obtain ⟨loop,hloops,hloop⟩ : ∃ loop, (m.setState (m.rule n) (some .running)).spawn n kind =
      { m.setState (m.rule n) (some .running) with loops := Function.update m.loops n loop } ∧
        (loop = some .accepting ∨ loop = m.loops n) := by
    rw [spawn]
    split_ifs
    · exact ⟨m.loops n,by rw [update_eq_self]; rfl,.inr rfl⟩
    · exact ⟨_,rfl,.inl rfl⟩
  rw [hloops]
  set t := TunnelManager.enter _ n (some .record) with ht
  have hself : t.Placed n := .inr (update_self ..)
  have hplaced : ∀ k, k ≠ n → (t.Placed k ↔ m.Placed k) := by
    intro k hk
    rw [Placed,Placed,show t.tasks k = m.tasks k from update_of_ne hk ..]
    rfl
  have hother : ∀ k, m.Placed k → k ≠ n ∧ m.rule k ≠ m.rule n := by
    intro k hk
    have hrule : m.rule k ≠ m.rule n := fun heq => hfree k heq hk
    exact ⟨fun heq => hrule (by rw [heq]),hrule⟩
  have hunplaced : ∀ k, t.Placed k → k = n ∨ k ≠ n ∧ m.Placed k ∧ m.rule k ≠ m.rule n := by
    intro k hk
    by_cases hkn : k = n
    · exact .inl hkn
    · have hk' := (hplaced k hkn).mp hk
      exact .inr ⟨hkn,hk',(hother k hk').2⟩
  have hrule : t.rule = m.rule := rfl
  have hstate : ∀ {id}, id ≠ m.rule n → t.states id = m.states id := fun hid => update_of_ne hid ..
  have hself_state : t.states (m.rule n) = some .running := update_self ..
  have hloops : ∀ {k}, k ≠ n → t.loops k = m.loops k := fun hk => update_of_ne hk ..
  have hself_loop : t.loops n = loop := update_self ..
  have htasks : ∀ {k}, k ≠ n → t.tasks k = m.tasks k := fun hk => update_of_ne hk ..
  have herase : ∀ k, t.tasks k = some .eraseState ↔ m.tasks k = some .eraseState :=
    update_tasks_iff hold ⟨nofun,nofun⟩
  constructor
  case fresh =>
    intro k hk
    have hf := h.fresh k hk
    have hkn := h.ne_of_next hold hk
    rw [htasks hkn,hloops hkn]
    exact hf
  case held_rule => exact h.held_rule
  case held_done =>
    intro id k hk
    rw [htasks (h.ne_of_held hold hk)]
    exact h.held_done id k hk
  case unique =>
    intro k j hk hj hrule
    rcases hunplaced k hk with rfl | ⟨hkn,hk',hkrule⟩
    · rcases hunplaced j hj with rfl | ⟨-,-,hjrule⟩
      · rfl
      · exact absurd hrule.symm hjrule
    · rcases hunplaced j hj with rfl | ⟨-,hj',-⟩
      · exact absurd hrule hkrule
      · exact h.unique k j hk' hj' hrule
  case stored =>
    intro k hk
    rcases hunplaced k hk with rfl | ⟨-,hk',-⟩
    · exact hstored
    · exact h.stored k hk'
  case status =>
    intro k hk
    rcases hunplaced k hk with rfl | ⟨hkn,hk',hkrule⟩
    · exact .inl hself_state
    · rw [hrule,hloops hkn,hstate hkrule]
      exact h.status k hk'
  case accepting =>
    intro k hk
    by_cases hkn : k = n
    · subst hkn
      exact ⟨hself,hself_state⟩
    · rw [hloops hkn] at hk
      have hk' := h.accepting k hk
      rw [hrule,hstate (hother k hk'.1).2]
      exact ⟨(hplaced k hkn).mpr hk'.1,hk'.2⟩
  case failing =>
    intro k hk
    have hk' : m.loops k = some .failed := by
      by_cases hkn : k = n
      · subst hkn
        rw [hself_loop] at hk
        rcases hloop with hloop | hloop
        · rw [hloop] at hk
          cases hk
        · rw [← hloop,hk]
      · rw [← hloops hkn,hk]
    have hfailing := h.failing k hk'
    rw [hrule,hstate (hother k hfailing.1).2]
    exact ⟨(hplaced k (hother k hfailing.1).1).mpr hfailing.1,hfailing.2⟩
  case cleared =>
    intro id hid
    by_cases heq : id = m.rule n
    · exact .inl ⟨n,heq.symm,hself⟩
    rw [hstate heq] at hid
    rcases h.cleared id hid with ⟨k,hk,hk'⟩ | ⟨k,phase,hk,hphase,hclear⟩
    · exact .inl ⟨k,hk,(hplaced k (hother k hk').1).mpr hk'⟩
    · have hkn : k ≠ n := by
        rintro rfl
        exact heq hk.symm
      exact .inr ⟨k,phase,hk,(htasks hkn).trans hphase,hclear⟩
  case known =>
    intro id hid
    simp only [herase]
    by_cases heq : id = m.rule n
    · subst heq
      exact .inl hstored
    · exact h.known id (by rw [← hstate heq,hid])
  case erasing =>
    simp only [herase]
    exact h.erasing
  case erasing_unique =>
    simp only [herase]
    exact h.erasing_unique
  case stopped => exact h.stopped
  case kept =>
    intro k hk
    by_cases hkn : k = n
    · subst hkn
      exact .inl hself
    rcases h.kept k hk with hk' | hhands
    · exact .inl ((hplaced k hkn).mpr hk')
    · exact .inr (hhands.of_tasks hold (fun heq => absurd heq hkn) nofun rfl (fun _ => htasks) (hloops hkn))

/-- The runtime that was announced is put into the map. -/
theorem Inv.insert (h : Inv m) (hold : m.tasks n = some .record) :
    Inv (((m.insert n).complete (m.rule n) .start).enter n none) := by
  set t := TunnelManager.enter _ n none with ht
  have hself : m.Placed n := .inr hold
  have htasks : ∀ {k}, k ≠ n → t.tasks k = m.tasks k := fun hk => update_of_ne hk ..
  have hself_task : t.tasks n = none := update_self ..
  have hrunning : ∀ {id}, id ≠ m.rule n → t.running id = m.running id := fun hid => update_of_ne hid ..
  have hself_running : t.running (m.rule n) = some n := update_self ..
  have hplaced : ∀ k, t.Placed k ↔ m.Placed k := by
    intro k
    by_cases hkn : k = n
    · subst hkn
      exact iff_of_true (.inl hself_running) hself
    by_cases hrule : m.rule k = m.rule n
    · refine iff_of_false ?_ fun hk => hkn (h.unique k n hk hself hrule)
      rintro (hk | hk)
      · have hk' : t.running (m.rule k) = some k := hk
        rw [hrule,hself_running] at hk'
        exact hkn (Option.some.inj hk').symm
      · rw [htasks hkn] at hk
        exact hkn (h.unique k n (.inr hk) hself hrule)
    · rw [Placed,Placed,htasks hkn,show t.running (t.rule k) = m.running (m.rule k) from hrunning hrule]
  have herase : ∀ k, t.tasks k = some .eraseState ↔ m.tasks k = some .eraseState :=
    update_tasks_iff hold ⟨nofun,nofun⟩
  constructor
  case fresh =>
    intro k hk
    have hf := h.fresh k hk
    have hkn := h.ne_of_next hold hk
    refine ⟨(htasks hkn).trans hf.1,hf.2.1,hf.2.2.1,fun id => ?_⟩
    by_cases hid : id = m.rule n
    · rw [hid,hself_running]
      exact fun heq => hkn (Option.some.inj heq).symm
    · rw [hrunning hid]
      exact hf.2.2.2 id
  case held_rule =>
    intro id k hk
    by_cases hid : id = m.rule n
    · rw [hid,hself_running] at hk
      rw [hid,← Option.some.inj hk]
      rfl
    · rw [hrunning hid] at hk
      exact h.held_rule id k hk
  case held_done =>
    intro id k hk
    by_cases hkn : k = n
    · rw [hkn,hself_task]
    by_cases hid : id = m.rule n
    · rw [hid,hself_running] at hk
      exact absurd (Option.some.inj hk).symm hkn
    · rw [hrunning hid] at hk
      rw [htasks hkn]
      exact h.held_done id k hk
  case unique =>
    simp only [hplaced]
    exact h.unique
  case stored =>
    simp only [hplaced]
    exact h.stored
  case status =>
    simp only [hplaced]
    exact h.status
  case accepting =>
    simp only [hplaced]
    exact h.accepting
  case failing =>
    simp only [hplaced]
    exact h.failing
  case cleared =>
    intro id hid
    simp only [hplaced]
    rcases h.cleared id hid with hk | ⟨k,phase,hk,hphase,hclear⟩
    · exact .inl hk
    · have hkn : k ≠ n := by
        rintro rfl
        rw [hold] at hphase
        cases hphase
        cases hclear
      exact .inr ⟨k,phase,hk,(htasks hkn).trans hphase,hclear⟩
  case known =>
    simp only [herase]
    exact h.known
  case erasing =>
    simp only [herase]
    exact h.erasing
  case erasing_unique =>
    simp only [herase]
    exact h.erasing_unique
  case stopped =>
    intro id hid
    by_cases heq : id = m.rule n
    · subst heq
      simp [ht,TunnelManager.enter,TunnelManager.complete] at hid
    · rw [hrunning heq]
      exact h.stopped id (by simpa [ht,TunnelManager.enter,TunnelManager.complete,TunnelManager.insert,heq] using hid)
  case kept =>
    intro k hk
    rw [hplaced]
    by_cases hkn : k = n
    · subst hkn
      exact .inl hself
    rcases h.kept k hk with hk' | hhands
    · exact .inl hk'
    · exact .inr (hhands.of_tasks hold (fun heq => absurd heq hkn) nofun rfl (fun _ => htasks) rfl)

/-- A rule without a runtime that is placed leaves the store, and the store is locked until its state is gone. -/
theorem Inv.erase (h : Inv m) {took : Bool} (hold : m.tasks n = some (.erase took)) (hlocked : m.storeLocked = false)
    (hfree : m.Unclaimed (m.rule n)) : Inv ((m.eraseRule (m.rule n)).enter n (some .eraseState)) := by
  -- The store was not locked before, so that no other deletion stands behind it.
  have hnone {k : ℕ} (hk : m.tasks k = some .eraseState) : False := by
    rw [(h.erasing k hk).1] at hlocked
    cases hlocked
  have herase {k : ℕ} (hk : (m.enter n (some .eraseState)).tasks k = some .eraseState) : k = n := by
    by_contra hkn
    rw [enter_tasks_ne hkn] at hk
    exact hnone hk
  refine h.moved hold ⟨nofun,by simp⟩ (fun _ _ => ⟨_,rfl,rfl⟩) nofun nofun ?stored ?known ?erasing ?unique
  case stored => exact fun k hk => tunnelGet_delete_ne (fun heq => hfree k heq hk) (h.stored k hk)
  case known =>
    intro id hid
    by_cases heq : id = m.rule n
    · exact .inr ⟨n,heq.symm,enter_tasks_self _⟩
    rcases h.known id hid with hget | ⟨k,-,hk⟩
    · exact .inl (tunnelGet_delete_ne heq hget)
    · exact (hnone hk).elim
  case erasing =>
    intro k hk
    rw [herase hk]
    exact ⟨rfl,tunnelGet_delete m.rules (m.rule n)⟩
  case unique =>
    intro k j hk hj
    rw [herase hk,herase hj]

/-- The deletion is through: the state of its rule is gone. -/
theorem Inv.unlock (h : Inv m) (hold : m.tasks n = some .eraseState) (hstate : m.states (m.rule n) = none) :
    Inv (m.unlock.enter n none) := by
  have herase {k : ℕ} (hk : (m.enter n none).tasks k = some .eraseState) : False := by
    have hkn : k ≠ n := by
      rintro rfl
      rw [enter_tasks_self] at hk
      cases hk
    rw [enter_tasks_ne hkn] at hk
    exact hkn (h.erasing_unique k n hk hold)
  refine h.moved hold ⟨nofun,nofun⟩ ?clears nofun nofun h.stored ?known (fun _ hk => (herase hk).elim)
    fun _ _ hk _ => (herase hk).elim
  case clears =>
    intro hrunning
    cases hstate.symm.trans hrunning
  case known =>
    intro id hid
    refine .inl ((h.known id hid).resolve_right ?_)
    rintro ⟨k,rfl,hk⟩
    rw [h.erasing_unique k n hk hold] at hid
    cases hstate.symm.trans hid

theorem Inv.writeRule (h : Inv m) (hlocked : m.storeLocked = false) (rule : TunnelRule) :
    Inv (m.writeRule rule) := by
  refine { h with stored := ?_,known := ?_,erasing := ?_ }
  · exact fun k hk => tunnelGet_upsert rule (h.stored k hk)
  · exact fun id hid => (h.known id hid).imp_left (tunnelGet_upsert rule)
  · intro k hk
    rw [(h.erasing k hk).1] at hlocked
    cases hlocked

/-- A call is made. -/
theorem Inv.call (h : Inv m) (id : String) {phase : Phase} (hrecord : phase ≠ .record) (herase : phase ≠ .eraseState) :
    Inv (m.call id phase) := by
  set t := m.call id phase with ht
  have hfresh := h.fresh m.next (Nat.le_refl _)
  have hrule : ∀ {k}, k ≠ m.next → t.rule k = m.rule k := fun hk => update_of_ne hk ..
  have htasks : ∀ {k}, k ≠ m.next → t.tasks k = m.tasks k := fun hk => update_of_ne hk ..
  have hself_task : t.tasks m.next = some phase := update_self ..
  have hheld : ∀ {id k}, m.running id = some k → k ≠ m.next := by
    rintro id k hk rfl
    exact hfresh.2.2.2 id hk
  have hloop : ∀ {k loop}, m.loops k = some loop → k ≠ m.next := by
    rintro k loop hk rfl
    simp [hfresh.2.2.1] at hk
  have htask : ∀ {k old}, m.tasks k = some old → k ≠ m.next := by
    rintro k old hk rfl
    simp [hfresh.1] at hk
  have hfrom : ∀ {k}, m.Placed k → k ≠ m.next ∧ t.Placed k := by
    rintro k (hk | hk)
    · refine ⟨hheld hk,.inl ?_⟩
      rw [hrule (hheld hk)]
      exact hk
    · exact ⟨htask hk,.inr ((htasks (htask hk)).trans hk)⟩
  have hto : ∀ {k}, t.Placed k → k ≠ m.next ∧ m.Placed k := by
    rintro k (hk | hk)
    · have hne : k ≠ m.next := hheld hk
      rw [hrule hne] at hk
      exact ⟨hne,.inl hk⟩
    · by_cases hne : k = m.next
      · rw [hne,hself_task] at hk
        exact absurd (Option.some.inj hk) hrecord
      · exact ⟨hne,.inr ((htasks hne).symm.trans hk)⟩
  have herasing : ∀ {k}, t.tasks k = some .eraseState → k ≠ m.next ∧ m.tasks k = some .eraseState := by
    intro k hk
    by_cases hne : k = m.next
    · rw [hne,hself_task] at hk
      exact absurd (Option.some.inj hk) herase
    · exact ⟨hne,(htasks hne).symm.trans hk⟩
  constructor
  case fresh =>
    intro k hk
    have hf := h.fresh k (Nat.le_of_succ_le hk)
    exact ⟨(htasks (Nat.ne_of_gt hk)).trans hf.1,hf.2⟩
  case held_rule =>
    intro id k hk
    rw [hrule (hheld hk)]
    exact h.held_rule id k hk
  case held_done =>
    intro id k hk
    rw [htasks (hheld hk)]
    exact h.held_done id k hk
  case unique =>
    intro k j hk hj hkj
    rw [hrule (hto hk).1,hrule (hto hj).1] at hkj
    exact h.unique k j (hto hk).2 (hto hj).2 hkj
  case stored =>
    intro k hk
    rw [hrule (hto hk).1]
    exact h.stored k (hto hk).2
  case status =>
    intro k hk
    rw [hrule (hto hk).1]
    exact h.status k (hto hk).2
  case accepting =>
    intro k hk
    rw [hrule (hloop hk)]
    exact ⟨(hfrom (h.accepting k hk).1).2,(h.accepting k hk).2⟩
  case failing =>
    intro k hk
    rw [hrule (hloop hk)]
    exact ⟨(hfrom (h.failing k hk).1).2,(h.failing k hk).2⟩
  case cleared =>
    intro id hid
    rcases h.cleared id hid with ⟨k,hk,hk'⟩ | ⟨k,old,hk,hold,hclear⟩
    · exact .inl ⟨k,(hrule (hfrom hk').1).trans hk,(hfrom hk').2⟩
    · exact .inr ⟨k,old,(hrule (htask hold)).trans hk,(htasks (htask hold)).trans hold,hclear⟩
  case known =>
    intro id hid
    rcases h.known id hid with hget | ⟨k,hk,hk'⟩
    · exact .inl hget
    · exact .inr ⟨k,(hrule (htask hk')).trans hk,(htasks (htask hk')).trans hk'⟩
  case erasing =>
    intro k hk
    rw [hrule (herasing hk).1]
    exact h.erasing k (herasing hk).2
  case erasing_unique => exact fun k j hk hj => h.erasing_unique k j (herasing hk).2 (herasing hj).2
  case stopped => exact h.stopped
  case kept =>
    intro k hk
    have hkn : k ≠ m.next := by
      rintro rfl
      rw [show t.opened m.next = m.opened m.next from rfl,hfresh.2.1] at hk
      cases hk
    rcases h.kept k hk with hk' | ⟨old,hold,hholds⟩ | ⟨j,goal,hj,hshut⟩ | hclosing
    · exact .inl (hfrom hk').2
    · exact .inr (.inl ⟨old,(htasks hkn).trans hold,hholds⟩)
    · exact .inr (.inr (.inl ⟨j,goal,by rw [hrule (htask hshut),hrule hkn,hj],(htasks (htask hshut)).trans hshut⟩))
    · exact .inr (.inr (.inr hclosing))

/-! ### The accept loop -/

theorem Inv.loopFails (h : Inv m) (hloop : m.loops n = some .accepting) : Inv (m.advanceLoop n .accepting) := by
  set t := m.advanceLoop n .accepting with ht
  have hself := (h.accepting n hloop).1
  have hloops : ∀ {k}, k ≠ n → t.loops k = m.loops k := fun hk => update_of_ne hk ..
  have hself_loop : t.loops n = some .failed := update_self ..
  have hself_state : t.states (m.rule n) = some .failed := update_self ..
  have hstate : ∀ {k}, k ≠ n → m.Placed k → t.states (m.rule k) = m.states (m.rule k) :=
    fun hkn hk => setState_ne (fun heq => hkn (h.unique _ n hk hself heq)) _
  have hrunning : ∀ {id}, t.states id = some .running → m.states id = some .running := by
    intro id hid
    have hne : id ≠ m.rule n := by
      rintro rfl
      cases hself_state.symm.trans hid
    rwa [show t.states id = m.states id from setState_ne hne _] at hid
  refine { h with fresh := ?fresh,status := ?status,accepting := ?accepting,failing := ?failing,
                  cleared := fun id hid => h.cleared id (hrunning hid),known := fun id hid => h.known id (hrunning hid),
                  kept := ?kept }
  case fresh =>
    intro k hk
    have hf := h.fresh k hk
    have hkn : k ≠ n := by
      rintro rfl
      simp [hf.2.2.1] at hloop
    exact ⟨hf.1,hf.2.1,(hloops hkn).trans hf.2.2.1,hf.2.2.2⟩
  case status =>
    intro k hk
    by_cases hkn : k = n
    · subst hkn
      exact .inr ⟨hself_state,hself_loop⟩
    · have hk' := h.status k hk
      rwa [← hstate hkn hk,← hloops hkn] at hk'
  case accepting =>
    intro k hk
    by_cases hkn : k = n
    · rw [hkn,hself_loop] at hk
      cases hk
    have hk' := h.accepting k ((hloops hkn).symm.trans hk)
    exact ⟨hk'.1,(hstate hkn hk'.1).trans hk'.2⟩
  case failing =>
    intro k hk
    by_cases hkn : k = n
    · subst hkn
      exact ⟨hself,hself_state⟩
    have hk' := h.failing k ((hloops hkn).symm.trans hk)
    exact ⟨hk'.1,(hstate hkn hk'.1).trans hk'.2⟩
  case kept =>
    intro k hk
    rcases h.kept k hk with hk' | hholds | hshut | hclosing
    · exact .inl hk'
    · exact .inr (.inl hholds)
    · exact .inr (.inr (.inl hshut))
    · have hkn : k ≠ n := by
        rintro rfl
        cases hloop.symm.trans hclosing
      exact .inr (.inr (.inr ((hloops hkn).trans hclosing)))

theorem Inv.loopRemoves (h : Inv m) (hloop : m.loops n = some .failed) (hheld : m.running (m.rule n) = some n) :
    Inv (m.advanceLoop n .failed) := by
  refine h.remove hheld ⟨nofun,nofun⟩ (fun hrunning => ?_) (.inr rfl)
  cases hrunning.symm.trans (h.failing n hloop).2

theorem Inv.loopCloses (h : Inv m) (hloop : m.loops n = some .closing) : Inv (m.advanceLoop n .closing) := by
  set t := m.advanceLoop n .closing with ht
  have hloops : ∀ {k}, k ≠ n → t.loops k = m.loops k := fun hk => update_of_ne hk ..
  have hkept : ∀ {k loop}, t.loops k = some loop → m.loops k = some loop := by
    intro k loop hk
    have hkn : k ≠ n := by
      rintro rfl
      rw [show t.loops k = none from update_self ..] at hk
      cases hk
    exact (hloops hkn).symm.trans hk
  have hclose := h.close n
  refine { hclose with fresh := ?fresh,status := ?status,accepting := fun k hk => h.accepting k (hkept hk),
                       failing := fun k hk => h.failing k (hkept hk),kept := ?kept }
  case fresh =>
    intro k hk
    have hf := hclose.fresh k hk
    have hkn : k ≠ n := by
      rintro rfl
      simp [(h.fresh k hk).2.2.1] at hloop
    exact ⟨hf.1,hf.2.1,(hloops hkn).trans hf.2.2.1,hf.2.2.2⟩
  case status =>
    intro k hk
    refine (h.status k hk).imp_right fun hfail => ?_
    have hkn : k ≠ n := by
      rintro rfl
      cases hloop.symm.trans hfail.2
    exact ⟨hfail.1,(hloops hkn).trans hfail.2⟩
  case kept =>
    intro k hk
    have hkn : k ≠ n := by
      rintro rfl
      rw [show t.opened k = false from update_self ..] at hk
      cases hk
    rcases hclose.kept k hk with hk' | hholds | hshut | hclosing
    · exact .inl hk'
    · exact .inr (.inl hholds)
    · exact .inr (.inr (.inl hshut))
    · exact .inr (.inr (.inr ((hloops hkn).trans hclosing)))

/-! ### A step -/

/-- A call that neither holds a session nor is to write a status goes on to another await, or ends. -/
theorem Inv.goOn (h : Inv m) (hold : m.tasks n = some old) (hplain : old.holdsOwn = false ∧ old.clears = false)
    (hphase : phase ≠ some .record ∧ phase ≠ some .eraseState) : Inv (m.enter n phase) := by
  apply h.enter hold
  · refine ⟨?_,hphase.1⟩
    rintro rfl
    cases hplain.1
  · refine ⟨?_,hphase.2⟩
    rintro rfl
    cases hplain.2
  · simp [hplain.2]
  · simp [hplain.1]
  · rintro k goal rfl
    cases hplain.2

/-- A call that holds its session goes on with it. -/
theorem Inv.holdOn (h : Inv m) {new : Phase} (hold : m.tasks n = some old) (hclears : old.clears = false)
    (hnew : new.holdsOwn) (hrecord : old ≠ .record ∧ new ≠ .record) : Inv (m.enter n (some new)) := by
  apply h.enter hold
  · exact ⟨hrecord.1,by simpa using hrecord.2⟩
  · refine ⟨?_,?_⟩
    · rintro rfl
      cases hclears
    · rintro ⟨⟩
      cases hnew
  · simp [hclears]
  · exact fun _ _ => ⟨new,rfl,hnew⟩
  · rintro k goal rfl
    cases hclears

/-- A call whose session is closed goes on, or ends. -/
theorem Inv.letGo (h : Inv m) (hold : m.tasks n = some old) (hclears : old.clears = false) (hrecord : old ≠ .record)
    (hphase : phase ≠ some .record ∧ phase ≠ some .eraseState) : Inv ((m.close n).enter n phase) := by
  apply (h.close n).enter hold
  · exact ⟨hrecord,hphase.1⟩
  · refine ⟨?_,hphase.2⟩
    rintro rfl
    cases hclears
  · simp [hclears]
  · simp [TunnelManager.close]
  · rintro k goal rfl
    cases hclears

/-- A status other than running is written, and the call goes on, or ends. -/
theorem Inv.write (h : Inv m) (hold : m.tasks n = some old) (hfree : m.Unclaimed (m.rule n))
    (hholds : old.holdsOwn = false) (hshut : ∀ k goal, old ≠ .shut k goal) (herase : old ≠ .eraseState)
    {status : Option TunnelStatus} (hstatus : status ≠ some .running)
    (hphase : phase ≠ some .record ∧ phase ≠ some .eraseState) :
    Inv ((m.setState (m.rule n) status).enter n phase) := by
  apply (h.setState hfree hstatus).enter hold
  · refine ⟨?_,hphase.1⟩
    rintro rfl
    cases hholds
  · exact ⟨herase,hphase.2⟩
  · intro hrunning
    exact absurd (by simpa [TunnelManager.setState] using hrunning) hstatus
  · simp [hholds]
  · exact fun k goal heq => absurd heq (hshut k goal)

theorem Inv.advance (h : Inv m) {phase : Phase} {outcome : Outcome} (hold : m.tasks n = some phase)
    (hapart : m.Undisturbed (m.rule n) outcome phase) (hstep : m.advance n phase outcome = some m') : Inv m' := by
  cases phase with
  | load =>
    simp only [TunnelManager.advance] at hstep
    split at hstep
    · cases hstep
    split at hstep <;> cases hstep <;> exact h.goOn hold ⟨rfl,rfl⟩ ⟨by simp,by simp⟩
  | check kind =>
    simp only [TunnelManager.advance] at hstep
    split at hstep <;> cases hstep <;> exact h.goOn hold ⟨rfl,rfl⟩ ⟨by simp,by simp⟩
  | examine kind =>
    simp only [TunnelManager.advance] at hstep
    split at hstep <;> cases hstep
    · exact h.goOn hold ⟨rfl,rfl⟩ ⟨by simp,by simp⟩
    · have hcomplete : Inv (m.complete (m.rule n) .start) := h.complete nofun
      exact hcomplete.goOn hold ⟨rfl,rfl⟩ ⟨by simp,by simp⟩
  | take goal =>
    simp only [TunnelManager.advance] at hstep
    split at hstep <;> cases hstep
    · exact h.take hold ‹_›
    · exact h.goOn hold ⟨rfl,rfl⟩ ⟨by cases goal <;> simp [Goal.next],by cases goal <;> simp [Goal.next]⟩
  | shut x goal =>
    cases hstep
    apply (h.close x).enter hold
    · exact ⟨by simp,by cases goal <;> simp [Goal.next]⟩
    · exact ⟨by simp,by cases goal <;> simp [Goal.next]⟩
    · exact fun _ _ => ⟨_,rfl,by cases goal <;> rfl⟩
    · simp [Phase.holdsOwn]
    · rintro k _ ⟨⟩
      exact update_self ..
  | announceStarting kind took =>
    have hstarting {next : Phase} (hnext : next ≠ .record ∧ next ≠ .eraseState) :
        Inv ((m.setState (m.rule n) (some .starting)).enter n (some next)) :=
      h.write hold hapart rfl nofun nofun (by simp) ⟨by simpa using hnext.1,by simpa using hnext.2⟩
    simp only [TunnelManager.advance] at hstep
    split at hstep
    · split at hstep <;> cases hstep <;> exact hstarting ⟨nofun,nofun⟩
    · cases hstep
      exact hstarting ⟨nofun,nofun⟩
  | failing error =>
    cases hstep
    exact h.write hold hapart rfl nofun nofun (by cases error <;> simp [Outcome.failedStatus]) ⟨by simp,by simp⟩
  | bind kind =>
    simp only [TunnelManager.advance] at hstep
    split at hstep <;> cases hstep <;> exact h.goOn hold ⟨rfl,rfl⟩ ⟨by simp,by simp⟩
  | connect kind =>
    simp only [TunnelManager.advance] at hstep
    split at hstep <;> cases hstep
    · exact (h.goOn hold ⟨rfl,rfl⟩ ⟨by simp,by simp⟩).openSession (enter_tasks_self _) rfl
    · exact h.goOn hold ⟨rfl,rfl⟩ ⟨by simp,by simp⟩
  | reload kind =>
    simp only [TunnelManager.advance] at hstep
    split at hstep
    · cases hstep
    split at hstep <;> cases hstep <;> exact h.holdOn hold rfl rfl ⟨nofun,nofun⟩
  | abandon =>
    cases hstep
    exact h.letGo hold rfl nofun ⟨by simp,by simp⟩
  | forget =>
    cases hstep
    exact h.write hold hapart rfl nofun nofun (by simp) ⟨by simp,by simp⟩
  | recheck kind =>
    simp only [TunnelManager.advance] at hstep
    split at hstep
    · cases hstep
      exact h.holdOn hold rfl rfl ⟨nofun,nofun⟩
    · split at hstep <;> cases hstep <;> exact h.holdOn hold rfl rfl ⟨nofun,nofun⟩
  | discard =>
    cases hstep
    have hcomplete : Inv (m.complete (m.rule n) .start) := h.complete nofun
    exact hcomplete.letGo hold rfl nofun ⟨by simp,by simp⟩
  | forward kind =>
    simp only [TunnelManager.advance] at hstep
    split at hstep <;> cases hstep <;> exact h.holdOn hold rfl rfl ⟨nofun,nofun⟩
  | clearForward =>
    cases hstep
    exact h.letGo hold rfl nofun ⟨by simp,by simp⟩
  | announceRunning kind =>
    obtain ⟨rfl,hfree,hstored⟩ := hapart
    cases hstep
    exact h.announce hold hfree hstored
  | record =>
    cases hstep
    exact h.insert hold
  | resolveStopped took =>
    simp only [TunnelManager.advance] at hstep
    split at hstep
    · cases hstep
    split at hstep <;> cases hstep
    · exact h.enter hold ⟨by simp,by simp⟩ ⟨by simp,by simp⟩ (fun _ _ => ⟨_,rfl,rfl⟩) (by simp [Phase.holdsOwn])
        (by simp)
    · rename_i hnot
      -- The store fails only a stop that has taken nothing out.
      have htook : took = false := by
        by_contra htrue
        rw [Bool.not_eq_false] at htrue
        exact hnot (hapart htrue) (by rw [htrue,Bool.true_or])
      exact h.goOn hold ⟨rfl,htook⟩ ⟨by simp,by simp⟩
  | announceStopped =>
    cases hstep
    have hnone := h.unclaimed_running hapart
    have hcomplete : Inv ((m.setState (m.rule n) (some .stopped)).complete (m.rule n) .stop) :=
      (h.setState hapart (by simp)).complete fun _ => hnone
    apply hcomplete.enter hold
    · exact ⟨by simp,by simp⟩
    · exact ⟨by simp,by simp⟩
    · simp [TunnelManager.complete,TunnelManager.setState]
    · simp [Phase.holdsOwn]
    · simp
  | erase took =>
    simp only [TunnelManager.advance] at hstep
    split at hstep
    · cases hstep
    rename_i hlocked
    rw [Bool.not_eq_true] at hlocked
    split at hstep <;> cases hstep
    · exact h.erase hold hlocked hapart.2
    rename_i hnot
    -- Where the rule is gone its status is gone too, or another deletion, which holds the lock, is about to erase it.
    have hstatus (htook : took) : m.states (m.rule n) ≠ some .running := by
      intro hrunning
      rcases h.known _ hrunning with hget | ⟨k,-,hk⟩
      · obtain ⟨rule,hrule⟩ := Option.isSome_iff_exists.mp hget
        exact hnot rule (hapart.1 htook) hrule
      · rw [(h.erasing k hk).1] at hlocked
        cases hlocked
    exact h.enter hold ⟨by simp,by simp⟩ ⟨by simp,by simp⟩ (fun hrunning htook => absurd hrunning (hstatus htook))
      (by simp [Phase.holdsOwn]) (by simp)
  | eraseState =>
    cases hstep
    have hfree : m.Unclaimed (m.rule n) := by
      intro k hk hplaced
      have hstored := h.stored k hplaced
      rw [hk,(h.erasing n hold).2] at hstored
      cases hstored
    have hcomplete : Inv ((m.setState (m.rule n) none).complete (m.rule n) .delete) :=
      (h.setState hfree (by simp)).complete (by simp)
    exact hcomplete.unlock hold (update_self ..)
  | updateCheck rule =>
    cases hstep
    exact h.goOn hold ⟨rfl,rfl⟩ ⟨by simp,by simp⟩
  | updateStatus rule hasRunning =>
    simp only [TunnelManager.advance] at hstep
    split at hstep <;> cases hstep <;> exact h.goOn hold ⟨rfl,rfl⟩ ⟨by simp,by simp⟩
  | updateWrite rule =>
    simp only [TunnelManager.advance] at hstep
    split at hstep
    · cases hstep
    rename_i hlocked
    rw [Bool.not_eq_true] at hlocked
    split at hstep <;> cases hstep
    · exact (h.writeRule hlocked rule).goOn hold ⟨rfl,rfl⟩ ⟨by simp,by simp⟩
    · exact h.goOn hold ⟨rfl,rfl⟩ ⟨by simp,by simp⟩

theorem Inv.startAll (h : Inv m) (rules : List TunnelRule) : Inv (m.startAll rules) := by
  induction rules generalizing m with
  | nil => exact h
  | cons rule rules ih => exact ih (h.call rule.id nofun nofun)

theorem Inv.begin (h : Inv m) (ruleId : String) {phase : Phase} (hrecord : phase ≠ .record)
    (herase : phase ≠ .eraseState) : Inv (m.begin ruleId phase) := by
  rw [TunnelManager.begin]
  split
  · exact h.call _ hrecord herase
  · exact h

theorem Inv.step (h : Inv m) {a : Action} (hapart : m.Apart a) (hstep : m.step a = some m') : Inv m' := by
  cases a with
  | start ruleId =>
    cases hstep
    exact h.begin ruleId nofun nofun
  | stop ruleId =>
    cases hstep
    exact h.begin ruleId nofun nofun
  | delete ruleId =>
    cases hstep
    exact h.begin ruleId nofun nofun
  | autostart =>
    simp only [TunnelManager.step] at hstep
    split at hstep <;> cases hstep
    exact h.startAll _
  | upsert input fresh =>
    cases hstep
    rw [beginUpsert]
    split <;> exact h.call _ nofun nofun
  | advance k outcome =>
    simp only [TunnelManager.step] at hstep
    split at hstep
    · exact h.advance ‹_› (hapart _ ‹_›) hstep
    · cases hstep
  | acceptLoop k =>
    simp only [TunnelManager.step] at hstep
    split at hstep
    · rename_i phase hloop
      cases hstep
      cases phase with
      | accepting => exact h.loopFails hloop
      | failed => exact h.loopRemoves hloop (hapart hloop)
      | closing => exact h.loopCloses hloop
    · cases hstep

/-! ### What holds in every state -/

theorem Inv.consistent (h : Inv m) : m.Consistent := by
  have hquiet {n : ℕ} (hn : m.Quiet (m.rule n)) (hplaced : m.Placed n) : m.running (m.rule n) = some n := by
    rcases hplaced with hheld | hrecord
    · exact hheld
    · cases hn.1 n _ rfl hrecord
  constructor
  case held =>
    intro n hn
    rcases h.kept n hn with (hheld | hrecord) | hhands
    · exact .inl hheld
    · exact .inr (.inl ⟨_,hrecord,rfl⟩)
    · exact .inr hhands
  case quiet_held =>
    intro n hn hopened
    have hplaced : m.Placed n := by
      rcases h.kept n hopened with hplaced | ⟨phase,hphase,hholds⟩ | ⟨k,goal,hk,hshut⟩ | hclosing
      · exact hplaced
      · have hupdate := hn.1 n phase rfl hphase
        cases phase <;> cases hholds <;> cases hupdate
      · cases hn.1 k _ hk hshut
      · cases hn.2 n _ rfl hclosing
    exact ⟨hquiet hn hplaced,h.stored n hplaced⟩
  case quiet_status =>
    intro id hid
    constructor
    · intro hrunning
      rcases h.cleared id hrunning with ⟨n,rfl,hplaced⟩ | ⟨n,phase,hn,hphase,hclear⟩
      · rw [hquiet hid hplaced]
        rfl
      · have hupdate := hid.1 n phase hn hphase
        cases phase <;> cases hupdate <;> cases hclear
    · intro hheld
      obtain ⟨n,hn⟩ := Option.isSome_iff_exists.mp hheld
      obtain rfl := h.held_rule id n hn
      rcases h.status n (.inl hn) with hrunning | ⟨-,hloop⟩
      · exact hrunning
      · cases hid.2 n _ rfl hloop
  case quiet_stopped =>
    intro id hid hstop
    have hnone := h.stopped id hstop
    refine ⟨?_,hnone⟩
    intro hrunning
    rcases h.cleared id hrunning with ⟨n,rfl,hplaced⟩ | ⟨n,phase,hn,hphase,hclear⟩
    · rw [hquiet hid hplaced] at hnone
      cases hnone
    · have hupdate := hid.1 n phase hn hphase
      cases phase <;> cases hupdate <;> cases hclear

end TunnelManager
end Mxterm.Tunnels
