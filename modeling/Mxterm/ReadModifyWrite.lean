import Mathlib.Data.List.Nodup

/-! Tasks that read one cell, work out a new value from what they read, and install it, without a lock: which
of them the value of the cell comes from. -/
namespace Mxterm.ReadModifyWrite

open List hiding getElem?_eq_some_iff

variable {σ ι : Type}

/-- A cell and the tasks on it. `history` are the tasks that the value comes from, `seen` those that the
value a task has read came from, `readAt` how many tasks had installed their values by then. -/
structure Cell (σ ι : Type) where
  value : σ
  started : List ι
  pending : ι → Option σ
  history : List ι
  installed : List ι
  seen : ι → List ι
  readAt : ι → ℕ

namespace Cell

def start (value : σ) : Cell σ ι := ⟨value,[],fun _ => none,[],[],fun _ => [],fun _ => 0⟩

variable [DecidableEq ι]

def read (c : Cell σ ι) (i : ι) : Cell σ ι :=
  { c with
    started := i :: c.started
    pending := Function.update c.pending i (some c.value)
    seen := Function.update c.seen i c.history
    readAt := Function.update c.readAt i c.installed.length }

def install (c : Cell σ ι) (i : ι) (value : σ) : Cell σ ι :=
  { c with
    value := value
    pending := Function.update c.pending i none
    history := c.seen i ++ [i]
    installed := c.installed ++ [i] }

def abandon (c : Cell σ ι) (i : ι) : Cell σ ι := { c with pending := Function.update c.pending i none }

end Cell

variable (change : ι → σ → Option σ)

/-- The tasks one after the other. -/
def sequentially (v : σ) (tasks : List ι) : Option σ := tasks.foldlM (fun v i => change i v) v

theorem sequentially_concat (v : σ) (tasks : List ι) (i : ι) :
    sequentially change v (tasks ++ [i]) = (sequentially change v tasks).bind (change i) := by
  simp [sequentially,foldlM_append,bind]

/-- The first `n` installations came from tasks that had read after all installations before them. -/
def UndisturbedTo (c : Cell σ ι) (n : ℕ) : Prop :=
  ∀ q i, q < n → c.installed[q]? = some i → c.readAt i = q

/-- No installation falls between the reading and the installation of another task. -/
def Undisturbed (c : Cell σ ι) : Prop := ∀ q i, c.installed[q]? = some i → c.readAt i = q

theorem undisturbed_iff (c : Cell σ ι) : Undisturbed c ↔ UndisturbedTo c c.installed.length := by
  constructor
  · exact fun h q i _ hi => h q i hi
  · intro h q i hi
    obtain ⟨hq,-⟩ := List.getElem?_eq_some_iff.mp hi
    exact h q i hq hi

variable [DecidableEq ι]

/-- Every task reads once, and installs what it makes of the value it has read, or gives up. -/
inductive Step : Cell σ ι → Cell σ ι → Prop
  | reads {c : Cell σ ι} {i : ι} (h : i ∉ c.started) : Step c (c.read i)
  | installs {c : Cell σ ι} {i : ι} {v w : σ} (h : c.pending i = some v) (hw : change i v = some w) :
      Step c (c.install i w)
  | abandons {c : Cell σ ι} (i : ι) : Step c (c.abandon i)

inductive Reachable (initial : σ) : Cell σ ι → Prop
  | start : Reachable initial (.start initial)
  | step {c d : Cell σ ι} : Reachable initial c → Step change c d → Reachable initial d

structure Sound (initial : σ) (c : Cell σ ι) : Prop where
  value : sequentially change initial c.history = some c.value
  history : c.history.Sublist c.installed
  complete : c.history = c.installed ↔ UndisturbedTo c c.installed.length
  started : ∀ i ∈ c.installed, i ∈ c.started
  pendingStarted : ∀ i v, c.pending i = some v → i ∈ c.started ∧ i ∉ c.installed
  pendingValue : ∀ i v, c.pending i = some v → sequentially change initial (c.seen i) = some v
  readAt : ∀ i v, c.pending i = some v → c.readAt i ≤ c.installed.length
  seen : ∀ i v, c.pending i = some v → (c.seen i).Sublist (c.installed.take (c.readAt i))
  seenComplete : ∀ i v, c.pending i = some v →
    (c.seen i = c.installed.take (c.readAt i) ↔ UndisturbedTo c (c.readAt i))

omit [DecidableEq ι] in
theorem sound_start (initial : σ) : Sound change initial (Cell.start initial : Cell σ ι) where
  value := rfl
  history := .refl _
  complete := by simp [Cell.start,UndisturbedTo]
  started := nofun
  pendingStarted := nofun
  pendingValue := nofun
  readAt := nofun
  seen := nofun
  seenComplete := nofun

variable {change} {initial : σ} {c : Cell σ ι}

variable {i : ι}

theorem undisturbedTo_read (h : Sound change initial c) (hi : i ∉ c.started) (n : ℕ) :
    UndisturbedTo (c.read i) n ↔ UndisturbedTo c n := by
  refine forall_congr' fun q => forall_congr' fun j => imp_congr_right fun _ => imp_congr_right fun hj => ?_
  have hne : j ≠ i := by
    rintro rfl
    exact hi (h.started j (mem_of_getElem? hj))
  simp [Cell.read,hne]

theorem sound_read (h : Sound change initial c) (hi : i ∉ c.started) : Sound change initial (c.read i) where
  value := h.value
  history := h.history
  complete := by
    rw [undisturbedTo_read h hi]
    exact h.complete
  started j hj := mem_cons_of_mem _ (h.started j hj)
  pendingStarted := by
    intro j v hj
    by_cases he : j = i
    · subst he
      exact ⟨mem_cons_self,fun hmem => hi (h.started j hmem)⟩
    · obtain ⟨hstarted,hnot⟩ := h.pendingStarted j v (by simpa [Cell.read,he] using hj)
      exact ⟨mem_cons_of_mem _ hstarted,hnot⟩
  pendingValue := by
    intro j v hj
    by_cases he : j = i
    · subst he
      simp only [Cell.read,Function.update_self,Option.some.injEq] at hj ⊢
      exact hj ▸ h.value
    · simp only [Cell.read,Function.update_of_ne he] at hj ⊢
      exact h.pendingValue j v hj
  readAt := by
    intro j v hj
    by_cases he : j = i
    · subst he
      simp [Cell.read]
    · simp only [Cell.read,Function.update_of_ne he] at hj ⊢
      exact h.readAt j v hj
  seen := by
    intro j v hj
    by_cases he : j = i
    · subst he
      simpa [Cell.read] using h.history
    · simp only [Cell.read,Function.update_of_ne he] at hj ⊢
      exact h.seen j v hj
  seenComplete := by
    intro j v hj
    rw [undisturbedTo_read h hi]
    by_cases he : j = i
    · subst he
      simpa [Cell.read] using h.complete
    · simp only [Cell.read,Function.update_of_ne he] at hj ⊢
      exact h.seenComplete j v hj

variable {w : σ}

theorem undisturbedTo_install {n : ℕ} (hn : n ≤ c.installed.length) :
    UndisturbedTo (c.install i w) n ↔ UndisturbedTo c n := by
  refine forall_congr' fun q => forall_congr' fun j => imp_congr_right fun hq => ?_
  have hsame : (c.install i w).installed[q]? = c.installed[q]? :=
    getElem?_append_left (by omega)
  rw [hsame]
  rfl

theorem undisturbedTo_install_all :
    UndisturbedTo (c.install i w) (c.install i w).installed.length ↔
      UndisturbedTo c c.installed.length ∧ c.readAt i = c.installed.length := by
  have hlength : (c.install i w).installed.length = c.installed.length + 1 := by
    simp [Cell.install]
  have hlast : (c.install i w).installed[c.installed.length]? = some i := by
    simp [Cell.install]
  rw [hlength]
  constructor
  · intro h
    refine ⟨(undisturbedTo_install (Nat.le_refl _)).mp fun q j hq => h q j (by omega),?_⟩
    exact h c.installed.length i (by omega) hlast
  · rintro ⟨h,hi⟩ q j hq hj
    rcases Nat.lt_succ_iff_lt_or_eq.mp hq with hlt | rfl
    · exact (undisturbedTo_install (Nat.le_refl _)).mpr h q j hlt hj
    · cases hlast.symm.trans hj
      exact hi

theorem sound_install (h : Sound change initial c) {v : σ} (hv : c.pending i = some v) (hw : change i v = some w) :
    Sound change initial (c.install i w) := by
  have hseen := h.seen i v hv
  have hat := h.readAt i v hv
  have hpending {j : ι} {u : σ} (hj : (c.install i w).pending j = some u) : j ≠ i ∧ c.pending j = some u := by
    by_cases he : j = i
    · subst he
      simp [Cell.install] at hj
    · exact ⟨he,by simpa [Cell.install,he] using hj⟩
  have htake {n : ℕ} (hn : n ≤ c.installed.length) :
      (c.install i w).installed.take n = c.installed.take n :=
    take_append_of_le_length hn
  constructor
  · rw [Cell.install,sequentially_concat,h.pendingValue i v hv]
    exact hw
  · exact (hseen.trans (take_sublist _ _)).append (.refl _)
  · rw [undisturbedTo_install_all]
    have hcut : (c.install i w).history = (c.install i w).installed ↔ c.seen i = c.installed :=
      append_left_inj [i]
    rw [hcut]
    constructor
    · intro hall
      have hlength := hseen.length_le
      rw [hall,length_take] at hlength
      have hfull : c.readAt i = c.installed.length := by omega
      refine ⟨?_,hfull⟩
      have hcomplete := h.seenComplete i v hv
      rw [hfull,take_length] at hcomplete
      exact hcomplete.mp hall
    · rintro ⟨hund,hfull⟩
      have hcomplete := h.seenComplete i v hv
      rw [hfull,take_length] at hcomplete
      exact hcomplete.mpr hund
  · intro j hj
    rcases mem_append.mp hj with hj | hj
    · exact h.started j hj
    · exact mem_singleton.mp hj ▸ (h.pendingStarted i v hv).1
  · intro j u hj
    obtain ⟨hne,hj⟩ := hpending hj
    obtain ⟨hstarted,hnot⟩ := h.pendingStarted j u hj
    refine ⟨hstarted,?_⟩
    rw [Cell.install,mem_append,mem_singleton,not_or]
    exact ⟨hnot,hne⟩
  · intro j u hj
    exact h.pendingValue j u (hpending hj).2
  · intro j u hj
    have hle := h.readAt j u (hpending hj).2
    simp only [Cell.install,length_append,length_singleton]
    omega
  · intro j u hj
    have hle := h.readAt j u (hpending hj).2
    have hsub := h.seen j u (hpending hj).2
    rw [← htake hle] at hsub
    exact hsub
  · intro j u hj
    have hle := h.readAt j u (hpending hj).2
    have hcomplete := h.seenComplete j u (hpending hj).2
    rw [← htake hle,← undisturbedTo_install (i := i) (w := w) hle] at hcomplete
    exact hcomplete

theorem sound_abandon (h : Sound change initial c) (i : ι) : Sound change initial (c.abandon i) := by
  have hpending {j : ι} {u : σ} (hj : (c.abandon i).pending j = some u) : c.pending j = some u := by
    by_cases he : j = i
    · subst he
      simp [Cell.abandon] at hj
    · simpa [Cell.abandon,he] using hj
  exact {
    value := h.value
    history := h.history
    complete := h.complete
    started := h.started
    pendingStarted := fun j u hj => h.pendingStarted j u (hpending hj)
    pendingValue := fun j u hj => h.pendingValue j u (hpending hj)
    readAt := fun j u hj => h.readAt j u (hpending hj)
    seen := fun j u hj => h.seen j u (hpending hj)
    seenComplete := fun j u hj => h.seenComplete j u (hpending hj) }

theorem sound_step (h : Sound change initial c) {d : Cell σ ι} (hstep : Step change c d) :
    Sound change initial d := by
  cases hstep with
  | reads hi => exact sound_read h hi
  | installs hv hw => exact sound_install h hv hw
  | abandons i => exact sound_abandon h i

theorem sound (h : Reachable change initial c) : Sound change initial c := by
  induction h with
  | start => exact sound_start change initial
  | step _ hstep ih => exact sound_step ih hstep

/-- The value comes from running some of the tasks that have installed their values one after the other, in
the order of their installations; from all of them exactly when none came between another's reading and
installation. -/
theorem value_of_reachable (h : Reachable change initial c) :
    sequentially change initial c.history = some c.value ∧ c.history.Sublist c.installed ∧
      (c.history = c.installed ↔ Undisturbed c) := by
  have hsound := sound h
  rw [undisturbed_iff]
  exact ⟨hsound.value,hsound.history,hsound.complete⟩

end Mxterm.ReadModifyWrite
