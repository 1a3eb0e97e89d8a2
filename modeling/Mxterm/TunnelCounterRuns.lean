import Mxterm.TunnelCounter

/-! The counter of a tunnel in every run of its steps. -/
namespace Mxterm.TunnelCounter

open Tunnels

/-- The run that an operation is about. -/
@[simp] def Phase.run? : Phase → Option ℕ
  | .announceFailed run _ _ | .connect run | .request run | .announceRunning run | .record run => some run
  | _ => none

/-- A runtime is recorded, or there is none. -/
@[simp] def Phase.settled : Phase → Bool
  | .idle | .take _ => true
  | _ => false

/-- No accept loop runs. -/
@[simp] def Phase.away : Phase → Bool
  | .idle | .take _ | .record _ => false
  | _ => true

/-- No connections come. -/
@[simp] def Phase.quiet : Phase → Bool
  | .announceStarting | .announceFailed _ _ _ | .connect _ | .resolveStopped _ | .announceStopped => true
  | _ => false

namespace RuleTunnel

variable {kind : Tunnels.TunnelKind} {m m' : RuleTunnel}

structure Inv (kind : Tunnels.TunnelKind) (m : RuleTunnel) : Prop where
  fresh : ∀ n, m.runs ≤ n → m.connections n = ⟨0,0,0⟩
  begun : ∀ n, m.current = some n → n < m.runs
  phase : ∀ n, m.phase.run? = some n → m.current = some n
  serving : ∀ n, m.serving = some n → m.current = some n
  closing : ∀ n, m.closing = some n → m.current = some n
  settled : m.phase.settled → ∀ n, m.serving = some n ∨ m.closing = some n → m.running = some n
  away : m.phase.away → m.closing = none ∧ (kind ≠ .remoteForward → m.serving = none)
  quiet : m.phase.quiet → m.serving = none
  closed : m.closing ≠ none → m.serving = none
  missing : m.state = none → m.current = none

theorem inv_initial : Inv kind initial := by
  constructor <;> simp [initial,Phase.run?]

theorem inv_enter_take (h : Inv kind m) (hidle : m.phase = .idle) (goal : Goal) : Inv kind (m.enter (.take goal)) := by
  refine { h with phase := ?_, settled := ?_, away := ?_, quiet := ?_ }
  · exact nofun
  · intro _
    exact h.settled (by rw [hidle]; rfl)
  · exact nofun
  · exact nofun

/-- Without a runtime that is recorded there is none. -/
theorem inv_take {goal : Goal} (h : Inv kind (m.enter (.take goal))) (hnone : m.running = none) (took : Bool) :
    Inv kind (m.enter (goal.next took)) := by
  obtain ⟨hfresh,hbegun,-,hserving,hclosing,hsettled,-,-,hclosed,hmissing⟩ := h
  have haway : m.serving = none ∧ m.closing = none := by
    constructor
    · cases hs : m.serving with
      | none => rfl
      | some n => simpa [enter,hnone] using hsettled rfl n (.inl hs)
    · cases hs : m.closing with
      | none => rfl
      | some n => simpa [enter,hnone] using hsettled rfl n (.inr hs)
  cases goal <;> constructor <;> simp_all [enter,Goal.next]

variable {run : ℕ}

theorem inv_takeOut {goal : Goal} (h : Inv kind (m.enter (.take goal))) (hrun : m.running = some run) :
    Inv kind ((m.takeOut kind run).enter (if kind = .remoteForward then .clear goal else goal.next true)) := by
  obtain ⟨hfresh,hbegun,-,hserving,hclosing,hsettled,-,-,hclosed,hmissing⟩ := h
  have hone : ∀ n, m.serving = some n ∨ m.closing = some n → run = n := by
    intro n hn
    simpa [enter,hrun] using hsettled rfl n hn
  have hdone : (m.takeOut kind run).closing = none := by
    cases hs : m.closing with
    | none => simp [takeOut,hs]
    | some n => simp [takeOut,hs,hone n (.inr hs)]
  have hserved : kind ≠ .remoteForward → (m.takeOut kind run).serving = none := by
    intro hkind
    cases hs : m.serving with
    | none => simp [takeOut,hs]
    | some n => simp [takeOut,hs,hone n (.inl hs),hkind]
  have hkept : ∀ n, (m.takeOut kind run).serving = some n → m.serving = some n := by
    intro n
    rw [takeOut]
    split_ifs <;> simp
  have hcurrent : ∀ n, (m.takeOut kind run).serving = some n → m.current = some n :=
    fun n hn => hserving n (hkept n hn)
  have hsame : (m.takeOut kind run).current = m.current ∧ (m.takeOut kind run).runs = m.runs ∧
      (m.takeOut kind run).connections = m.connections ∧ (m.takeOut kind run).state = m.state := ⟨rfl,rfl,rfl,rfl⟩
  by_cases hkind : kind = .remoteForward
  · rw [if_pos hkind]
    constructor <;> simp_all [enter]
  · rw [if_neg hkind]
    cases goal <;> constructor <;> simp_all [enter,Goal.next]

theorem inv_advance {outcome : Outcome} (h : Inv kind m) (hstep : m.advance kind outcome m.phase = some m') :
    Inv kind m' := by
  cases hp : m.phase with
  | idle => simp [hp,advance] at hstep
  | take goal =>
    rw [show m = m.enter m.phase from rfl,hp] at h
    rw [hp,advance] at hstep
    cases hrun : m.running with
    | none =>
      rw [hrun] at hstep
      cases hstep
      exact inv_take h hrun false
    | some run =>
      have hnext := inv_takeOut h hrun
      rw [hrun] at hstep
      dsimp only at hstep
      split_ifs at hstep hnext <;>
        obtain rfl := Option.some.inj hstep <;> exact hnext
  | clear goal =>
    obtain ⟨hfresh,hbegun,-,hserving,hclosing,-,haway,-,hclosed,hmissing⟩ := h
    obtain rfl : _ = m' := by simpa [hp,advance] using hstep
    cases goal <;> constructor <;> simp_all [enter,Goal.next]
  | announceStarting =>
    obtain ⟨hfresh,hbegun,-,hserving,hclosing,-,haway,hquiet,hclosed,hmissing⟩ := h
    have hlater : ∀ n, m.runs + 1 ≤ n → m.connections n = ⟨0,0,0⟩ := fun n hn => hfresh n (by omega)
    cases outcome <;> obtain rfl : _ = m' := by simpa [hp,advance] using hstep
    all_goals constructor <;> simp_all [enter,setState]
  | announceFailed run prompt error =>
    obtain ⟨hfresh,hbegun,hphase,hserving,hclosing,-,haway,hquiet,hclosed,hmissing⟩ := h
    obtain rfl : _ = m' := by simpa [hp,advance] using hstep
    constructor <;> simp_all [enter,setState]
  | connect run =>
    obtain ⟨hfresh,hbegun,hphase,hserving,hclosing,-,haway,hquiet,hclosed,hmissing⟩ := h
    cases outcome with
    | failed | missing =>
      obtain rfl : _ = m' := by simpa [hp,advance] using hstep
      constructor <;> simp_all [enter]
    | ok =>
      simp only [hp,advance] at hstep
      split_ifs at hstep <;> obtain rfl := Option.some.inj hstep <;> constructor <;> simp_all [enter]
  | request run =>
    obtain ⟨hfresh,hbegun,hphase,hserving,hclosing,-,haway,-,hclosed,hmissing⟩ := h
    cases outcome <;> obtain rfl : _ = m' := by simpa [hp,advance] using hstep
    all_goals constructor <;> simp_all [enter]
  | announceRunning run =>
    obtain ⟨hfresh,hbegun,hphase,hserving,hclosing,-,haway,-,hclosed,hmissing⟩ := h
    obtain rfl : _ = m' := by simpa [hp,advance] using hstep
    constructor <;> simp_all [enter,setState]
  | record run =>
    obtain ⟨hfresh,hbegun,hphase,hserving,hclosing,-,-,-,hclosed,hmissing⟩ := h
    obtain rfl : _ = m' := by simpa [hp,advance] using hstep
    have hrun : ∀ n, m.serving = some n ∨ m.closing = some n → some run = some n := by
      intro n hn
      rw [← hphase run (by simp [hp])]
      exact hn.elim (hserving n) (hclosing n)
    constructor <;> simp_all [enter]
    exact hrun
  | resolveStopped took =>
    obtain ⟨hfresh,hbegun,-,hserving,hclosing,-,haway,hquiet,hclosed,hmissing⟩ := h
    cases outcome with
    | missing =>
      simp only [hp,advance] at hstep
      split_ifs at hstep <;> obtain rfl := Option.some.inj hstep <;> constructor <;> simp_all [enter]
    | ok | failed =>
      obtain rfl : _ = m' := by simpa [hp,advance] using hstep
      constructor <;> simp_all [enter]
  | announceStopped =>
    obtain ⟨hfresh,hbegun,-,hserving,hclosing,-,haway,hquiet,hclosed,hmissing⟩ := h
    obtain rfl : _ = m' := by simpa [hp,advance] using hstep
    constructor <;> simp_all [enter,setState]

theorem inv_setConnections (h : Inv kind m) (hrun : run < m.runs) (connections : Connections) :
    Inv kind (m.setConnections run connections) := by
  refine { h with fresh := ?_ }
  intro n hn
  have hne : n ≠ run := by
    rintro rfl
    exact absurd hrun (Nat.not_lt.mpr hn)
  exact (Function.update_of_ne hne _ _).trans (h.fresh n hn)

theorem inv_increment (h : Inv kind m) : Inv kind m.increment := by
  refine { h with missing := ?_ }
  simpa [increment] using h.missing

theorem inv_decrement (h : Inv kind m) (run : ℕ) (error : Option AppError) : Inv kind (m.decrement run error) := by
  refine { h with missing := ?_ }
  simpa [decrement] using h.missing

/-- A run with connections was begun. -/
theorem Inv.lt_runs (h : Inv kind m) (hne : m.connections run ≠ ⟨0,0,0⟩) : run < m.runs := by
  by_contra hle
  exact hne (h.fresh run (Nat.not_lt.mp hle))

/-- No accept loop fails while the operation is away. -/
theorem Inv.not_away (h : Inv kind m) (hkind : kind ≠ .remoteForward) (hserving : m.serving = some run) :
    m.phase.away = false := by
  by_contra haway
  have hnone := (h.away (by simpa using haway)).2 hkind
  rw [hserving] at hnone
  cases hnone

theorem inv_step {a : Action} (h : Inv kind m) (hstep : step kind m a = some m') : Inv kind m' := by
  have hcounts : ∀ run, (m.connections run).reported ≠ 0 ∨ (m.connections run).counted ≠ 0 ∨
      (m.connections run).overtaken ≠ 0 → run < m.runs := by
    intro run hne
    apply h.lt_runs
    intro hzero
    simp [hzero] at hne
  cases a with
  | start =>
    rw [step] at hstep
    split_ifs at hstep with hidle hnone hreplace
    · cases hstep
      exact inv_take (inv_enter_take h (not_not.mp hidle) .start) (by simpa using hnone) false
    · cases hstep
      exact inv_enter_take h (not_not.mp hidle) .start
    · cases hstep
      exact h
  | stop =>
    rw [step] at hstep
    split_ifs at hstep with hidle
    cases hstep
    exact inv_enter_take h (not_not.mp hidle) .stop
  | advance outcome => exact inv_advance h hstep
  | accept =>
    rw [step] at hstep
    split at hstep
    · cases hstep
    · rename_i run hrun
      split_ifs at hstep
      cases hstep
      exact inv_setConnections (inv_increment h) (h.begun run (h.serving run hrun)) _
  | acceptFails error =>
    rw [step] at hstep
    split at hstep
    · cases hstep
    · rename_i run hrun
      split_ifs at hstep with hkind
      cases hstep
      have haway := h.not_away hkind hrun
      have hcurrent := h.serving run hrun
      refine { h with
        serving := fun _ h => by cases h
        closing := ?_, settled := ?_, away := ?_, quiet := ?_, closed := ?_, missing := fun h => by cases h }
      · rintro n ⟨⟩
        exact hcurrent
      · rintro hsettled n (⟨⟨⟩⟩ | ⟨⟨⟩⟩)
        exact h.settled hsettled run (.inl hrun)
      · intro haway'
        cases haway.symm.trans haway'
      · exact fun _ => rfl
      · exact fun _ => rfl
  | closeLoop =>
    rw [step] at hstep
    split_ifs at hstep with hnone
    cases hstep
    refine { h with settled := ?_, away := ?_, closed := ?_, closing := fun _ h => by cases h }
    · rintro - n (hserving | ⟨⟨⟩⟩)
      rw [h.closed hnone] at hserving
      cases hserving
    · exact fun haway => ⟨rfl,(h.away haway).2⟩
    · exact fun hne => absurd rfl hne
  | report =>
    rw [step] at hstep
    split at hstep
    · cases hstep
    · rename_i run hrun
      split_ifs at hstep
      cases hstep
      exact inv_setConnections h (h.begun run (h.serving run hrun)) _
  | countStarted run =>
    rw [step] at hstep
    split_ifs at hstep with hzero
    cases hstep
    exact inv_setConnections (inv_increment h) (hcounts run (.inl hzero)) _
  | countOvertaken run =>
    rw [step] at hstep
    split_ifs at hstep with hzero
    cases hstep
    exact inv_setConnections (inv_increment h) (hcounts run (.inr (.inr hzero))) _
  | finish run error =>
    rw [step] at hstep
    split_ifs at hstep with hzero
    cases hstep
    exact inv_setConnections (inv_decrement h run error) (hcounts run (.inr (.inl hzero))) _
  | overtake run error =>
    rw [step] at hstep
    split_ifs at hstep with hzero
    cases hstep
    exact inv_setConnections (inv_decrement h run error) (hcounts run (.inl hzero)) _
  | lose run =>
    rw [step] at hstep
    split_ifs at hstep with hlost
    cases hstep
    exact inv_setConnections h (hcounts run (.inr (.inl (fun hzero => hlost (.inr (.inr hzero)))))) _

/-! ## What is shown -/

theorem exact_initial : initial.Exact := ⟨rfl,nofun⟩

theorem live_of_current (hcurrent : m.current = some run) : m.live = (m.connections run).counted := by
  rw [live,hcurrent]

/-- What is counted of a run that is not the current one does not matter. -/
theorem live_setConnections (run : ℕ) (connections : Connections) : (m.setConnections run connections).live =
    if m.current = some run then connections.counted else m.live := by
  cases hcurrent : m.current with
  | none => simp [live,setConnections,hcurrent]
  | some n =>
    by_cases hn : n = run
    · simp [live,setConnections,hcurrent,hn]
    · simp [live,setConnections,hcurrent,hn]

/-- Steps that touch none of it leave it as it is. -/
theorem Exact.kept (hexact : m.Exact) (hstate : m'.state = m.state) (hcurrent : m'.current = m.current)
    (hlive : m'.live = m.live) (hreporter : m'.reporter = m.reporter) : m'.Exact := by
  have hshown : m'.shown = m.shown := by rw [shown,shown,hstate]
  constructor
  · rw [hshown,hlive]
    exact hexact.active
  · rw [hshown,hcurrent,hreporter]
    exact hexact.error

theorem exact_of_none (hcurrent : m.current = none) (hactive : m.shown.activeConnections = 0)
    (herror : m.shown.lastError = none) : m.Exact := by
  constructor
  · rw [hactive,live,hcurrent]
  · exact fun hne => absurd herror hne

theorem Inv.fresh_live {state : TunnelRuntimeState} (h : Inv kind m) (hzero : state.activeConnections = 0)
    (hnone : state.lastError = none) (phase : Phase) :
    ({ m.setState state with runs := m.runs + 1, current := some m.runs }.enter phase).Exact := by
  constructor
  · change state.activeConnections = (m.connections m.runs).counted
    rw [hzero,h.fresh m.runs (Nat.le_refl _)]
  · exact fun hne => absurd hnone hne

theorem exact_advance {outcome : Outcome} (h : Inv kind m) (hexact : m.Exact)
    (hstep : m.advance kind outcome m.phase = some m') : m'.Exact ↔ m.Orderly (.advance outcome) := by
  rw [Orderly]
  cases hp : m.phase with
  | idle => simp [hp,advance] at hstep
  | take goal =>
    rw [hp,advance] at hstep
    refine iff_of_true ?_ trivial
    split at hstep
    · cases hstep
      exact hexact.kept rfl rfl rfl rfl
    · split_ifs at hstep <;> obtain rfl := Option.some.inj hstep <;> exact hexact.kept rfl rfl rfl rfl
  | clear goal =>
    obtain rfl : _ = m' := by simpa [hp,advance] using hstep
    exact iff_of_true (hexact.kept rfl rfl rfl rfl) trivial
  | announceStarting =>
    refine iff_of_true ?_ trivial
    cases outcome <;> obtain rfl : _ = m' := by simpa [hp,advance] using hstep
    all_goals exact h.fresh_live rfl rfl _
  | announceFailed run prompt error =>
    obtain rfl : _ = m' := by simpa [hp,advance] using hstep
    have hzero : (if prompt then credentialRequiredState error else failedState error).activeConnections = 0 := by
      cases prompt <;> rfl
    have hcurrent := h.phase run (by rw [hp]; rfl)
    change _ ↔ m.live = 0
    constructor
    · exact fun h => h.active.symm.trans hzero
    · exact fun hlive => ⟨hzero.trans hlive.symm,fun _ => hcurrent⟩
  | connect run =>
    refine iff_of_true ?_ trivial
    cases outcome with
    | failed error =>
      obtain rfl : _ = m' := by simpa [hp,advance] using hstep
      exact hexact.kept rfl rfl rfl rfl
    | missing =>
      obtain rfl : _ = m' := by simpa [hp,advance] using hstep
      exact exact_of_none rfl rfl rfl
    | ok =>
      simp only [hp,advance] at hstep
      split_ifs at hstep <;> obtain rfl := Option.some.inj hstep <;> exact hexact.kept rfl rfl rfl rfl
  | request run =>
    cases outcome <;> obtain rfl : _ = m' := by simpa [hp,advance] using hstep
    all_goals exact iff_of_true (hexact.kept rfl rfl rfl rfl) trivial
  | announceRunning run =>
    obtain rfl : _ = m' := by simpa [hp,advance] using hstep
    change _ ↔ m.live = 0
    constructor
    · exact fun h => h.active.symm
    · exact fun hzero => ⟨hzero.symm,fun hne => absurd rfl hne⟩
  | record run =>
    obtain rfl : _ = m' := by simpa [hp,advance] using hstep
    exact iff_of_true (hexact.kept rfl rfl rfl rfl) trivial
  | resolveStopped took =>
    refine iff_of_true ?_ trivial
    simp only [hp,advance] at hstep
    split at hstep
    · cases hstep
      exact hexact.kept rfl rfl rfl rfl
    · split_ifs at hstep <;> obtain rfl := Option.some.inj hstep <;> exact hexact.kept rfl rfl rfl rfl
    · cases hstep
      exact hexact.kept rfl rfl rfl rfl
  | announceStopped =>
    obtain rfl : _ = m' := by simpa [hp,advance] using hstep
    exact iff_of_true (exact_of_none rfl rfl rfl) trivial

/-- A connection is counted. -/
theorem min_add_one_eq {a n : ℕ} : min (a + 1) n = a + 1 ↔ a < n := by
  constructor <;> intro h <;> omega

theorem min_add_one_eq_self {a n : ℕ} : min (a + 1) n = a ↔ a = n := by
  constructor <;> intro h <;> omega

/-- Nothing is shown of a rule without a current run. -/
theorem exact_of_stateless (h : Inv kind m) (hnone : m.state = none) (hcurrent : m'.current = m.current)
    (hstate : m'.state = none) : m'.Exact := by
  have hshown : m'.shown = stoppedState := by rw [shown,hstate]; rfl
  exact exact_of_none (hcurrent.trans (h.missing hnone)) (by rw [hshown]; rfl) (by rw [hshown]; rfl)

theorem exact_increment {connections : Connections} (hexact : m.Exact) (h : Inv kind m) :
    (m.increment.setConnections run connections).Exact ↔ m.state = none ∨
      min (m.shown.activeConnections + 1) u32Max = if m.current = some run then connections.counted else m.live := by
  have hlive : (m.increment.setConnections run connections).live =
      if m.current = some run then connections.counted else m.live := live_setConnections run connections
  cases hstate : m.state with
  | none =>
    have hnone : m.state.map incrementActiveConnections = none := by rw [hstate]; rfl
    exact iff_of_true (exact_of_stateless h hstate rfl hnone) (.inl rfl)
  | some state =>
    have hshown : (m.increment.setConnections run connections).shown = incrementActiveConnections m.shown := by
      change (m.state.map incrementActiveConnections).getD stoppedState = incrementActiveConnections (m.state.getD _)
      rw [hstate]
      rfl
    constructor
    · intro hexact'
      rw [← hlive,← hexact'.active,hshown]
      exact .inr rfl
    · rintro (⟨⟨⟩⟩ | hcount)
      refine ⟨?_,?_⟩
      · rw [hlive,← hcount,hshown]
        rfl
      · rw [hshown]
        exact hexact.error

/-- A connection is taken off the counter. -/
theorem exact_decrement {error : Option AppError} {connections : Connections} (hexact : m.Exact) (h : Inv kind m) :
    ((m.decrement run error).setConnections run connections).Exact ↔ m.state = none ∨
      (m.shown.activeConnections - 1 = if m.current = some run then connections.counted else m.live) ∧
        (error ≠ none → m.current = some run) := by
  have hlive : ((m.decrement run error).setConnections run connections).live =
      if m.current = some run then connections.counted else m.live := live_setConnections run connections
  cases hstate : m.state with
  | none =>
    have hnone : m.state.map (decrementActiveConnections error) = none := by rw [hstate]; rfl
    exact iff_of_true (exact_of_stateless h hstate rfl hnone) (.inl rfl)
  | some state =>
    have hshown : ((m.decrement run error).setConnections run connections).shown =
        decrementActiveConnections error m.shown := by
      change (m.state.map (decrementActiveConnections error)).getD stoppedState =
        decrementActiveConnections error (m.state.getD _)
      rw [hstate]
      rfl
    have hreporter : ((m.decrement run error).setConnections run connections).reporter =
        if error.isSome then run else m.reporter := rfl
    have hcurrent : ((m.decrement run error).setConnections run connections).current = m.current := rfl
    constructor
    · intro hexact'
      refine .inr ⟨?_,?_⟩
      · rw [← hlive,← hexact'.active,hshown]
        rfl
      · intro hne
        have herror := hexact'.error
        rw [hshown,hcurrent,hreporter] at herror
        cases error with
        | none => exact absurd rfl hne
        | some e => exact herror nofun
    · rintro (⟨⟨⟩⟩ | ⟨hcount,herror⟩)
      refine ⟨?_,?_⟩
      · rw [hlive,← hcount,hshown]
        rfl
      · rw [hshown,hcurrent,hreporter]
        cases error with
        | none => exact hexact.error
        | some e => exact fun _ => herror nofun

theorem exact_step {a : Action} (h : Inv kind m) (hexact : m.Exact) (hstep : step kind m a = some m') :
    m'.Exact ↔ m.Orderly a := by
  have hactive := hexact.active
  cases a with
  | start =>
    rw [step] at hstep
    refine iff_of_true ?_ trivial
    split_ifs at hstep <;> obtain rfl := Option.some.inj hstep <;> exact hexact.kept rfl rfl rfl rfl
  | stop =>
    rw [step] at hstep
    refine iff_of_true ?_ trivial
    split_ifs at hstep
    cases hstep
    exact hexact.kept rfl rfl rfl rfl
  | advance outcome => exact exact_advance h hexact hstep
  | accept =>
    rw [step] at hstep
    split at hstep
    · cases hstep
    · rename_i run hrun
      split_ifs at hstep
      cases hstep
      have hcurrent := h.serving run hrun
      have hstate : m.state ≠ none := by
        intro hnone
        rw [h.missing hnone] at hcurrent
        cases hcurrent
      rw [live_of_current hcurrent] at hactive
      rw [exact_increment hexact h,if_pos hcurrent,Orderly]
      simp only [hstate,false_or,hactive]
      omega
  | acceptFails error =>
    rw [step] at hstep
    split at hstep
    · cases hstep
    · rename_i run hrun
      split_ifs at hstep
      cases hstep
      have hcurrent := h.serving run hrun
      constructor
      · exact fun h => h.active.symm
      · exact fun hzero => ⟨hzero.symm,fun _ => hcurrent⟩
  | closeLoop =>
    rw [step] at hstep
    split_ifs at hstep
    cases hstep
    exact iff_of_true (hexact.kept rfl rfl rfl rfl) trivial
  | report =>
    rw [step] at hstep
    split at hstep
    · cases hstep
    · rename_i run hrun
      split_ifs at hstep
      cases hstep
      refine iff_of_true (hexact.kept rfl rfl ?_ rfl) trivial
      rw [live_setConnections]
      split_ifs with hcurrent
      · exact (live_of_current hcurrent).symm
      · rfl
  | countStarted run =>
    rw [step] at hstep
    split_ifs at hstep with hzero
    cases hstep
    rw [exact_increment hexact h,Orderly]
    by_cases hcurrent : m.current = some run
    · rw [live_of_current hcurrent] at hactive
      rw [if_pos hcurrent,if_pos hcurrent,hactive,min_add_one_eq]
    · rw [if_neg hcurrent,if_neg hcurrent,hactive,min_add_one_eq_self]
  | countOvertaken run =>
    rw [step] at hstep
    split_ifs at hstep with hzero
    cases hstep
    have hlive : (if m.current = some run then (m.connections run).counted else m.live) = m.live := by
      split_ifs with hcurrent
      · exact (live_of_current hcurrent).symm
      · rfl
    rw [exact_increment hexact h,Orderly,hlive,hactive,min_add_one_eq_self]
  | finish run error =>
    rw [step] at hstep
    split_ifs at hstep with hzero
    cases hstep
    rw [exact_decrement hexact h,Orderly]
    by_cases hcurrent : m.current = some run
    · rw [live_of_current hcurrent] at hactive
      simp [hcurrent,hactive]
    · simp only [hcurrent,if_false,false_or,hactive,imp_false,not_not]
      have hcount : m.live - 1 = m.live ↔ m.live = 0 := by omega
      rw [hcount]
  | overtake run error =>
    rw [step] at hstep
    split_ifs at hstep with hzero
    cases hstep
    rw [exact_decrement hexact h,Orderly]
    by_cases hcurrent : m.current = some run
    · rw [live_of_current hcurrent] at hactive
      have hcount : (m.connections run).counted - 1 = (m.connections run).counted ↔
          (m.connections run).counted = 0 := by
        omega
      simp [hcurrent,hactive,hcount]
    · have hcount : m.live - 1 = m.live ↔ m.live = 0 := by omega
      simp [hcurrent,hactive,hcount]
  | lose run =>
    rw [step] at hstep
    split_ifs at hstep with hlost
    cases hstep
    have hcounted : (m.connections run).counted ≠ 0 := fun hzero => hlost (.inr (.inr hzero))
    rw [Orderly]
    by_cases hcurrent : m.current = some run
    · refine iff_of_false ?_ (not_not.mpr hcurrent)
      intro hexact'
      have hactive' := hexact'.active
      rw [live_setConnections,if_pos hcurrent] at hactive'
      rw [live_of_current hcurrent] at hactive
      have hsame := hactive.symm.trans hactive'
      dsimp only at hsame
      omega
    · refine iff_of_true (hexact.kept rfl rfl ?_ rfl) hcurrent
      rw [live_setConnections,if_neg hcurrent]

def startOk : List Action := [.start,.advance .ok,.advance .ok,.advance .ok,.advance .ok]

def stopOk : List Action := [.stop,.advance .ok,.advance .ok,.advance .ok]

end RuleTunnel
end Mxterm.TunnelCounter
