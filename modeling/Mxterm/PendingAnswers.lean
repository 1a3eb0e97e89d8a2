import Mathlib.Data.List.Induction
import Mathlib.Data.List.Nodup
import Mathlib.Data.List.Perm.Basic
import Mathlib.Data.List.TakeWhile
import Mxterm.Exchanges

/-! Who reads the entries one by one, and what is still to be answered: the entries that are accepted are those
in which every question gets exactly one answer, directly behind the entries that ask. -/
namespace Mxterm.Exchanges

open List hiding getElem?_eq_some_iff

variable {α : Type}

/-- The entries directly behind an entry that asks. Where a turn may be `several` entries, the others of the
turn stand between. -/
def behind (several : Bool) (after : List (Entry α)) : List (Entry α) :=
  (if several then after.dropWhile (·.asks ≠ []) else after).takeWhile (·.answers ≠ [])

variable [DecidableEq α]

/-- The questions without an answer, and whether the last entry asked. -/
structure Waiting (α : Type) where
  pending : List α
  asking : Bool

def answer (pending : List α) (a : α) : Option (List α) := if a ∈ pending then some (pending.erase a) else none

def Waiting.next (several : Bool) (w : Waiting α) (e : Entry α) : Option (Waiting α) :=
  if e.asks ≠ [] then
    if e.answers = [] ∧ (w.pending = [] ∨ several ∧ w.asking) ∧ (w.pending ++ e.asks).Nodup then
      some ⟨w.pending ++ e.asks,true⟩
    else none
  else if e.answers ≠ [] then (e.answers.foldlM answer w.pending).map (⟨·,false⟩)
  else if w.pending = [] then some ⟨[],false⟩
  else none

def Waiting.start : Waiting α := ⟨[],false⟩

def Accepted (several : Bool) (entries : List (Entry α)) : Prop :=
  ∃ w, entries.foldlM (Waiting.next several) .start = some w ∧ w.pending = []

/-! ## One entry -/

theorem foldlM_answer {answers pending rest : List α} (h : answers.foldlM answer pending = some rest) :
    pending.Perm (answers ++ rest) := by
  induction answers generalizing pending with
  | nil =>
    cases h
    exact .refl _
  | cons a answers ih =>
    rw [foldlM_cons,answer] at h
    by_cases ha : a ∈ pending
    · rw [if_pos ha] at h
      exact (perm_cons_erase ha).trans ((ih h).cons a)
    · rw [if_neg ha] at h
      cases h

variable {several : Bool} {w w' : Waiting α} {e : Entry α}

theorem next_asks (he : e.asks ≠ []) : w.next several e = some w' ↔ e.answers = [] ∧
    (w.pending = [] ∨ several ∧ w.asking) ∧ (w.pending ++ e.asks).Nodup ∧
      w' = ⟨w.pending ++ e.asks,true⟩ := by
  rw [Waiting.next,if_pos he]
  by_cases h : e.answers = [] ∧ (w.pending = [] ∨ several ∧ w.asking) ∧ (w.pending ++ e.asks).Nodup
  · rw [if_pos h,Option.some.injEq]
    exact ⟨fun hw => ⟨h.1,h.2.1,h.2.2,hw.symm⟩,fun hw => hw.2.2.2.symm⟩
  · rw [if_neg h]
    exact ⟨nofun,fun hw => absurd ⟨hw.1,hw.2.1,hw.2.2.1⟩ h⟩

theorem next_answers (he : e.asks = []) (ha : e.answers ≠ []) (h : w.next several e = some w') :
    w.pending.Perm (e.answers ++ w'.pending) ∧ w'.asking = false := by
  rw [Waiting.next,if_neg (not_not_intro he),if_pos ha,Option.map_eq_some_iff] at h
  obtain ⟨rest,hrest,rfl⟩ := h
  exact ⟨foldlM_answer hrest,rfl⟩

theorem next_silent (he : e.asks = []) (ha : e.answers = []) :
    w.next several e = some w' ↔ w.pending = [] ∧ w' = .start := by
  rw [Waiting.next,if_neg (not_not_intro he),if_neg (not_not_intro ha)]
  by_cases h : w.pending = []
  · rw [if_pos h,Option.some.injEq]
    exact ⟨fun hw => ⟨h,hw.symm⟩,fun hw => hw.2.symm⟩
  · rw [if_neg h]
    exact ⟨nofun,fun hw => absurd hw.1 h⟩

/-- Whether the last entry asked matters to further questions alone. -/
theorem next_of_no_asks (he : e.asks = []) (pending : List α) (asking : Bool) :
    (⟨pending,asking⟩ : Waiting α).next several e = (⟨pending,false⟩ : Waiting α).next several e := by
  rw [Waiting.next,Waiting.next,if_neg (not_not_intro he),if_neg (not_not_intro he)]

/-! ## What is accepted -/

variable {entries : List (Entry α)}

theorem perm_of_not_asking (hrun : entries.foldlM (Waiting.next several) w = some w') (hw' : w'.pending = [])
    (hw : w.asking = false) : w.pending.Perm ((entries.takeWhile (·.answers ≠ [])).flatMap (·.answers)) := by
  induction entries generalizing w with
  | nil =>
    cases hrun
    rw [hw']
    exact .refl _
  | cons e entries ih =>
    obtain ⟨v,hv,hrest⟩ := Option.bind_eq_some_iff.mp hrun
    by_cases ha : e.answers = []
    · have hpending : w.pending = [] := by
        by_cases he : e.asks = []
        · exact ((next_silent he ha).mp hv).1
        · obtain ⟨-,hnone | hasking,-⟩ := (next_asks he).mp hv
          · exact hnone
          · rw [hw] at hasking
            cases hasking.2
      rw [takeWhile_cons_of_neg (by simpa using ha),hpending]
      exact .refl _
    · have he : e.asks = [] := by
        by_contra he
        exact ha ((next_asks he).mp hv).1
      obtain ⟨hperm,hasking⟩ := next_answers he ha hv
      rw [takeWhile_cons_of_pos (by simpa using ha)]
      exact hperm.trans ((ih hrest hasking).append_left e.answers)

/-- The questions that wait, with those that the turn still asks, are answered directly behind it. -/
theorem perm_behind (hrun : entries.foldlM (Waiting.next several) w = some w') (hw' : w'.pending = [])
    (hnodup : w.pending.Nodup) : ∃ more, (w.pending ++ more).Nodup ∧
      (w.pending ++ more).Perm ((behind several entries).flatMap (·.answers)) := by
  induction entries generalizing w with
  | nil =>
    cases hrun
    refine ⟨[],by rwa [append_nil],?_⟩
    rw [hw']
    cases several <;> exact .refl _
  | cons e entries ih =>
    by_cases he : e.asks = []
    · -- The turn has ended, and only answers to it may follow.
      have hended : (e :: entries).foldlM (Waiting.next several) ⟨w.pending,false⟩ = some w' := by
        rw [← hrun,foldlM_cons,foldlM_cons,← next_of_no_asks he]
      have hbehind : behind several (e :: entries) = (e :: entries).takeWhile (·.answers ≠ []) := by
        cases several
        · rfl
        · rw [behind,if_pos rfl,dropWhile_cons_of_neg (by simpa using he)]
      refine ⟨[],by rwa [append_nil],?_⟩
      rw [append_nil,hbehind]
      exact perm_of_not_asking (w := ⟨w.pending,false⟩) hended hw' rfl
    · obtain ⟨v,hv,hrest⟩ := Option.bind_eq_some_iff.mp hrun
      obtain ⟨ha,hturn,hnodup',rfl⟩ := (next_asks he).mp hv
      cases several with
      | false =>
        have hpending : w.pending = [] := hturn.resolve_right nofun
        refine ⟨[],by rwa [append_nil],?_⟩
        rw [behind,if_neg (by simp),takeWhile_cons_of_neg (by simpa using ha),hpending]
        exact .refl _
      | true =>
        obtain ⟨more,hmore,hperm⟩ := ih hrest hnodup'
        refine ⟨e.asks ++ more,by rwa [← append_assoc],?_⟩
        rw [← append_assoc,behind,dropWhile_cons_of_pos (by simpa using he)]
        exact hperm

variable {a : α}

/-- Every question has exactly one answer, in the entries directly behind those that ask. -/
theorem Accepted.count (h : Accepted several entries) {before after : List (Entry α)}
    (heq : entries = before ++ e :: after) (ha : a ∈ e.asks) :
    ((behind several after).flatMap (·.answers)).count a = 1 := by
  obtain ⟨w',hrun,hw'⟩ := h
  rw [heq,foldlM_append] at hrun
  obtain ⟨w,-,hrun⟩ := Option.bind_eq_some_iff.mp hrun
  obtain ⟨v,hv,hrest⟩ := Option.bind_eq_some_iff.mp hrun
  have he : e.asks ≠ [] := ne_nil_of_mem ha
  obtain ⟨-,-,hnodup,rfl⟩ := (next_asks he).mp hv
  obtain ⟨more,hmore,hperm⟩ := perm_behind hrest hw' hnodup
  rw [← hperm.count_eq]
  apply count_eq_one_of_mem hmore
  exact mem_append_left _ (mem_append_right _ ha)

theorem mem_dropWhile_append {β : Type} {p : β → Bool} {first second : List β} {x : β}
    (h : x ∈ (first ++ second).dropWhile p) : x ∈ first.dropWhile p ∨ x ∈ second := by
  rw [dropWhile_append] at h
  split_ifs at h
  · exact Or.inr ((dropWhile_suffix p).subset h)
  · exact mem_append.mp h

/-- What waits was asked, and since then there were only further questions of the turn, then answers. -/
theorem asked_of_pending (hrun : entries.foldlM (Waiting.next several) .start = some w) (ha : a ∈ w.pending) :
    ∃ before asker after, entries = before ++ asker :: after ∧ a ∈ asker.asks ∧
      (w.asking → ∀ x ∈ after, x.asks ≠ []) ∧
      ∀ x ∈ (if several then after.dropWhile (·.asks ≠ []) else after), x.answers ≠ [] := by
  induction entries using List.reverseRecOn generalizing w with
  | nil =>
    cases hrun
    cases ha
  | append_singleton entries e ih =>
    rw [foldlM_append] at hrun
    obtain ⟨v,hv,hrun⟩ := Option.bind_eq_some_iff.mp hrun
    have hnext : v.next several e = some w := by simpa using hrun
    by_cases he : e.asks = []
    · by_cases hanswers : e.answers = []
      · obtain ⟨-,rfl⟩ := (next_silent he hanswers).mp hnext
        cases ha
      · obtain ⟨hperm,hasking⟩ := next_answers he hanswers hnext
        obtain ⟨before,asker,after,rfl,hasked,-,hafter⟩ :=
          ih hv (hperm.mem_iff.mpr (mem_append_right _ ha))
        refine ⟨before,asker,after ++ [e],by simp,hasked,fun h => ?_,?_⟩
        · rw [hasking] at h
          cases h
        · intro x hx
          cases several with
          | false =>
            rcases mem_append.mp hx with hx | hx
            · exact hafter x hx
            · exact mem_singleton.mp hx ▸ hanswers
          | true =>
            rcases mem_dropWhile_append hx with hx | hx
            · exact hafter x hx
            · exact mem_singleton.mp hx ▸ hanswers
    · obtain ⟨-,hturn,-,rfl⟩ := (next_asks he).mp hnext
      rcases mem_append.mp ha with hbefore | hhere
      · obtain ⟨rfl,hasking⟩ : several ∧ v.asking := hturn.resolve_left (ne_nil_of_mem hbefore)
        obtain ⟨before,asker,after,rfl,hasked,hmore,-⟩ := ih hv hbefore
        have hall : ∀ x ∈ after ++ [e], x.asks ≠ [] := by
          intro x hx
          rcases mem_append.mp hx with hx | hx
          · exact hmore hasking x hx
          · exact mem_singleton.mp hx ▸ he
        refine ⟨before,asker,after ++ [e],by simp,hasked,fun _ => hall,?_⟩
        have hdropped : (after ++ [e]).dropWhile (·.asks ≠ []) = [] :=
          dropWhile_eq_nil_iff.mpr fun x hx => decide_eq_true (hall x hx)
        rw [hdropped]
        exact fun x hx => nomatch hx
      · refine ⟨entries,e,[],rfl,hhere,fun _ => nofun,fun x hx => ?_⟩
        cases several <;> cases hx

/-- Every answer is one to a question in the turn directly before it. -/
theorem Accepted.asked (h : Accepted several entries) {before after : List (Entry α)}
    (heq : entries = before ++ e :: after) (ha : a ∈ e.answers) :
    ∃ earlier asker between, before = earlier ++ asker :: between ∧ a ∈ asker.asks ∧
      ∀ x ∈ (if several then between.dropWhile (·.asks ≠ []) else between), x.answers ≠ [] := by
  obtain ⟨w',hrun,-⟩ := h
  rw [heq,foldlM_append] at hrun
  obtain ⟨w,hbefore,hrun⟩ := Option.bind_eq_some_iff.mp hrun
  obtain ⟨v,hv,-⟩ := Option.bind_eq_some_iff.mp hrun
  have hanswers : e.answers ≠ [] := ne_nil_of_mem ha
  have he : e.asks = [] := by
    by_contra he
    exact hanswers ((next_asks he).mp hv).1
  have hpending : a ∈ w.pending := (next_answers he hanswers hv).1.mem_iff.mpr (mem_append_left _ ha)
  obtain ⟨earlier,asker,between,heq,hasked,-,hbetween⟩ := asked_of_pending hbefore hpending
  exact ⟨earlier,asker,between,heq,hasked,hbetween⟩

/-! ## Building what is accepted -/

theorem next_of_nothing (hw : w.pending = []) (e : Entry α) :
    w.next several e = Waiting.start.next several e := by
  obtain ⟨pending,asking⟩ := w
  subst hw
  simp [Waiting.next,Waiting.start]

theorem accepted_iff (hw : w.pending = []) : Accepted several entries ↔
    ∃ w', entries.foldlM (Waiting.next several) w = some w' ∧ w'.pending = [] := by
  cases entries with
  | nil => exact ⟨fun _ => ⟨w,rfl,hw⟩,fun _ => ⟨.start,rfl,rfl⟩⟩
  | cons e entries =>
    rw [Accepted,foldlM_cons,foldlM_cons,next_of_nothing hw]

theorem accepted_nil : Accepted several ([] : List (Entry α)) := ⟨.start,rfl,rfl⟩

theorem Accepted.append {first second : List (Entry α)} (h₁ : Accepted several first)
    (h₂ : Accepted several second) : Accepted several (first ++ second) := by
  obtain ⟨w,hrun,hw⟩ := h₁
  obtain ⟨w',hrun',hw'⟩ := (accepted_iff hw).mp h₂
  refine ⟨w',?_,hw'⟩
  rw [foldlM_append,hrun]
  exact hrun'

theorem accepted_silent (h : ∀ e ∈ entries, e.asks = [] ∧ e.answers = []) : Accepted several entries := by
  induction entries with
  | nil => exact accepted_nil
  | cons e entries ih =>
    obtain ⟨hhere,hrest⟩ := forall_mem_cons.mp h
    have hfirst : Accepted several [e] := by
      refine ⟨.start,?_,rfl⟩
      rw [foldlM_cons,(next_silent hhere.1 hhere.2).mpr ⟨rfl,rfl⟩]
      rfl
    exact hfirst.append (ih hrest)

theorem foldlM_answer_append (answers rest : List α) :
    answers.foldlM answer (answers ++ rest) = some rest := by
  induction answers with
  | nil => rfl
  | cons a answers ih =>
    rw [foldlM_cons,cons_append,answer,if_pos mem_cons_self,erase_cons_head]
    exact ih

/-- Answers in the order of the questions. -/
theorem run_answering {answering : List (Entry α)} (h : ∀ e ∈ answering, e.asks = [] ∧ e.answers ≠ [])
    (asking : Bool) : ∃ w', answering.foldlM (Waiting.next several)
      ⟨answering.flatMap (·.answers),asking⟩ = some w' ∧ w'.pending = [] := by
  induction answering generalizing asking with
  | nil => exact ⟨_,rfl,rfl⟩
  | cons e answering ih =>
    obtain ⟨⟨he,ha⟩,hrest⟩ := forall_mem_cons.mp h
    obtain ⟨w',hrun,hw'⟩ := ih hrest false
    refine ⟨w',?_,hw'⟩
    rw [foldlM_cons,Waiting.next,if_neg (not_not_intro he),if_pos ha,flatMap_cons,
      foldlM_answer_append]
    exact hrun

theorem run_asking {asking : List (Entry α)} (h : ∀ e ∈ asking, e.asks ≠ [] ∧ e.answers = [])
    (hseveral : several = false → asking.length ≤ 1) (hw : w.pending = [] ∨ several ∧ w.asking)
    (hnodup : (w.pending ++ asking.flatMap (·.asks)).Nodup) (hne : asking ≠ []) :
    asking.foldlM (Waiting.next several) w = some ⟨w.pending ++ asking.flatMap (·.asks),true⟩ := by
  induction asking generalizing w with
  | nil => exact absurd rfl hne
  | cons e asking ih =>
    obtain ⟨⟨he,ha⟩,hrest⟩ := forall_mem_cons.mp h
    rw [flatMap_cons,← append_assoc] at hnodup ⊢
    have hfirst : w.next several e = some ⟨w.pending ++ e.asks,true⟩ :=
      (next_asks he).mpr ⟨ha,hw,(nodup_append.mp hnodup).1,rfl⟩
    rw [foldlM_cons,hfirst]
    by_cases hnil : asking = []
    · subst hnil
      simp
    · have hturn : several = true := by
        cases several with
        | true => rfl
        | false =>
          have hlength := hseveral rfl
          have hpos : 0 < asking.length := length_pos_iff.mpr hnil
          rw [length_cons] at hlength
          omega
      exact ih (w := ⟨w.pending ++ e.asks,true⟩) hrest (fun h => absurd (hturn.symm.trans h) (by decide))
        (Or.inr ⟨hturn,rfl⟩) hnodup hnil

/-- The entries of a turn and, in their order, the answers to what it asks. -/
theorem accepted_exchange {quiet asking answering : List (Entry α)}
    (hquiet : ∀ e ∈ quiet, e.asks = [] ∧ e.answers = []) (hasking : ∀ e ∈ asking, e.asks ≠ [] ∧ e.answers = [])
    (hseveral : several = false → asking.length ≤ 1)
    (hanswering : ∀ e ∈ answering, e.asks = [] ∧ e.answers ≠ [])
    (hids : answering.flatMap (·.answers) = asking.flatMap (·.asks))
    (hnodup : (asking.flatMap (·.asks)).Nodup) : Accepted several (quiet ++ asking ++ answering) := by
  rw [append_assoc]
  apply (accepted_silent hquiet).append
  by_cases hnil : asking = []
  · subst hnil
    cases answering with
    | nil => exact accepted_nil
    | cons e answering =>
      have hnone : e.answers = [] := (append_eq_nil_iff.mp hids).1
      exact absurd hnone (hanswering e mem_cons_self).2
  · obtain ⟨w',hrun,hw'⟩ : ∃ w', answering.foldlM (Waiting.next several)
        ⟨answering.flatMap (·.answers),true⟩ = some w' ∧ w'.pending = [] := run_answering hanswering true
    refine ⟨w',?_,hw'⟩
    rw [foldlM_append,run_asking hasking hseveral (Or.inl rfl) (by exact hnodup) hnil,← hids]
    exact hrun

/-! ## Cutting what is accepted -/

theorem asking_of_run (hrun : entries.foldlM (Waiting.next several) .start = some w) (hw : w.asking = true) :
    ∃ before e, entries = before ++ [e] ∧ e.asks ≠ [] := by
  induction entries using List.reverseRecOn with
  | nil =>
    cases hrun
    cases hw
  | append_singleton entries e =>
    refine ⟨entries,e,rfl,fun he => ?_⟩
    rw [foldlM_append] at hrun
    obtain ⟨v,-,hrun⟩ := Option.bind_eq_some_iff.mp hrun
    have hnext : v.next several e = some w := by simpa using hrun
    by_cases hanswers : e.answers = []
    · obtain ⟨-,rfl⟩ := (next_silent he hanswers).mp hnext
      cases hw
    · rw [(next_answers he hanswers hnext).2] at hw
      cases hw

/-- A cut before an entry that is no answer, and no further question of a turn. -/
theorem Accepted.drop (h : Accepted several entries) {i : ℕ}
    (hanswers : ∀ e, entries[i]? = some e → e.answers = [])
    (hasks : several → CleanAt entries i) : Accepted several (entries.drop i) := by
  obtain ⟨w',hrun,hw'⟩ := h
  rw [← take_append_drop i entries,foldlM_append] at hrun
  obtain ⟨w,hbefore,hafter⟩ := Option.bind_eq_some_iff.mp hrun
  suffices hw : w.pending = [] from (accepted_iff hw).mpr ⟨w',hafter,hw'⟩
  cases hdrop : entries.drop i with
  | nil =>
    rw [hdrop] at hafter
    cases hafter
    exact hw'
  | cons e rest =>
    have hat : entries[i]? = some e := by
      rw [← head?_drop,hdrop]
      rfl
    rw [hdrop] at hafter
    obtain ⟨v,hv,-⟩ := Option.bind_eq_some_iff.mp hafter
    by_cases he : e.asks = []
    · exact ((next_silent he (hanswers e hat)).mp hv).1
    · obtain ⟨-,hnone | ⟨hturn,hasking⟩,-⟩ := (next_asks he).mp hv
      · exact hnone
      · -- The entry before the cut asks, and this one is a question of the same turn.
        exfalso
        obtain ⟨before,e',htake,he'⟩ := asking_of_run hbefore hasking
        have hlength : i = before.length + 1 := by
          have hle : i < entries.length := (List.getElem?_eq_some_iff.mp hat).1
          have hcount := congrArg List.length htake
          rw [length_take,length_append,length_singleton] at hcount
          omega
        have hprevious : entries[before.length]? = some e' := by
          have hget : (entries.take i)[before.length]? = some e' := by simp [htake]
          rwa [getElem?_take_of_lt (by omega)] at hget
        exact he' (((hasks hturn e hat).2.resolve_left he) before.length e' hlength hprevious)

end Mxterm.Exchanges
