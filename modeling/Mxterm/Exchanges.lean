import Mathlib.Data.List.Basic
import Mathlib.Order.Nat

/-! Lists in which some entries ask questions and later entries answer them, and where such a list
may be cut without parting a question from its answer. -/
namespace Mxterm.Exchanges

open List

/-- What an entry asks and answers, and whether a cut knows it for an answer. -/
structure Entry (α : Type) where
  asks : List α
  answers : List α
  marked : Bool
  deriving DecidableEq

variable {α : Type}

/-- Every answer has its question before it, and every question an answer behind it. -/
def Paired (entries : List (Entry α)) : Prop :=
  ∀ before entry after, entries = before ++ entry :: after →
    (∀ a ∈ entry.answers, ∃ e ∈ before, a ∈ e.asks) ∧ ∀ a ∈ entry.asks, ∃ e ∈ after, a ∈ e.answers

theorem paired_nil : Paired ([] : List (Entry α)) := by
  intro before entry after h
  simp at h

theorem Paired.append {first second : List (Entry α)} (h₁ : Paired first) (h₂ : Paired second) :
    Paired (first ++ second) := by
  intro before entry after h
  rcases append_eq_append_iff.mp h with ⟨middle,rfl,hsecond⟩ | ⟨middle,rfl,hfirst⟩
  · obtain ⟨hanswers,hasks⟩ := h₂ middle entry after hsecond
    refine ⟨fun a ha => ?_,hasks⟩
    obtain ⟨e,he,hae⟩ := hanswers a ha
    exact ⟨e,mem_append_right _ he,hae⟩
  · cases middle with
    | nil =>
      obtain ⟨hanswers,hasks⟩ := h₂ [] entry after hfirst.symm
      refine ⟨fun a ha => ?_,hasks⟩
      obtain ⟨e,he,-⟩ := hanswers a ha
      exact absurd he not_mem_nil
    | cons e rest =>
      obtain ⟨rfl,rfl⟩ := List.cons.inj hfirst
      obtain ⟨hanswers,hasks⟩ := h₁ before entry rest rfl
      refine ⟨hanswers,fun a ha => ?_⟩
      obtain ⟨e,he,hae⟩ := hasks a ha
      exact ⟨e,mem_append_left _ he,hae⟩

/-- Entries that ask, of which the ones with questions stand last, and the entries that answer
them. -/
structure Exchange (asking answering : List (Entry α)) : Prop where
  only_ask : ∀ e ∈ asking, e.answers = []
  only_answer : ∀ e ∈ answering, e.asks = []
  answer : ∀ e ∈ answering, e.answers ≠ []
  complete : ∀ a, (∃ e ∈ asking, a ∈ e.asks) ↔ ∃ e ∈ answering, a ∈ e.answers
  packed : ∃ quiet loud, asking = quiet ++ loud ∧ (∀ e ∈ quiet, e.asks = []) ∧ ∀ e ∈ loud, e.asks ≠ []

variable {asking answering : List (Entry α)}

theorem Exchange.paired (h : Exchange asking answering) : Paired (asking ++ answering) := by
  intro before entry after heq
  have hanswering : entry ∈ answering → (∀ e ∈ asking, e ∈ before) →
      (∀ a ∈ entry.answers, ∃ e ∈ before, a ∈ e.asks) ∧
        ∀ a ∈ entry.asks, ∃ e ∈ after, a ∈ e.answers := by
    intro hentry hbefore
    refine ⟨fun a ha => ?_,by simp [h.only_answer entry hentry]⟩
    obtain ⟨e,he,hae⟩ := (h.complete a).mpr ⟨entry,hentry,ha⟩
    exact ⟨e,hbefore e he,hae⟩
  rcases append_eq_append_iff.mp heq with ⟨middle,rfl,rfl⟩ | ⟨middle,rfl,hrest⟩
  · exact hanswering (by simp) fun e he => mem_append_left _ he
  · cases middle with
    | nil =>
      obtain rfl : entry :: after = answering := hrest
      exact hanswering mem_cons_self (by simp)
    | cons e rest =>
      obtain ⟨rfl,rfl⟩ := List.cons.inj hrest
      have hentry : entry ∈ before ++ entry :: rest := by simp
      refine ⟨by simp [h.only_ask entry hentry],fun a ha => ?_⟩
      obtain ⟨e,he,hae⟩ := (h.complete a).mp ⟨entry,hentry,ha⟩
      exact ⟨e,mem_append_right _ he,hae⟩

/-- An entry on its own, without questions and answers. -/
theorem exchange_single {e : Entry α} (hasks : e.asks = []) (hanswers : e.answers = []) :
    Exchange [e] [] where
  only_ask := by simpa using hanswers
  only_answer := by simp
  answer := by simp
  complete := by simp [hasks]
  packed := ⟨[e],[],by simp,by simpa using hasks,by simp⟩

/-- Exchanges one behind the other, each with a further property. -/
inductive Run (P : List (Entry α) → List (Entry α) → Prop) : List (Entry α) → Prop
  | nil : Run P []
  | cons {asking answering rest : List (Entry α)} : Exchange asking answering → P asking answering →
      Run P rest → Run P (asking ++ answering ++ rest)

variable {P : List (Entry α) → List (Entry α) → Prop}

theorem Run.append {first second : List (Entry α)} (h₁ : Run P first) (h₂ : Run P second) :
    Run P (first ++ second) := by
  induction h₁ with
  | nil => exact h₂
  | cons hexchange hP _ ih =>
    rw [append_assoc]
    exact .cons hexchange hP ih

theorem Run.single (h : Exchange asking answering) (hP : P asking answering) : Run P (asking ++ answering) := by
  simpa using Run.cons h hP .nil

variable {entries : List (Entry α)}

/-- Entries without questions and answers. -/
theorem Run.silent (hP : ∀ e, P [e] []) (h : ∀ e ∈ entries, e.asks = [] ∧ e.answers = []) : Run P entries := by
  induction entries with
  | nil => exact .nil
  | cons e entries ih =>
    have he := h e mem_cons_self
    exact .cons (exchange_single he.1 he.2) (hP e) (ih fun e he => h e (mem_cons_of_mem _ he))

theorem Run.paired (h : Run P entries) : Paired entries := by
  induction h with
  | nil => exact paired_nil
  | cons hexchange _ _ ih => exact hexchange.paired.append ih

/-- The entry at a place is no answer, and it does not stand behind another question of its own
exchange. -/
def CleanAt (entries : List (Entry α)) (i : ℕ) : Prop :=
  ∀ e, entries[i]? = some e →
    e.answers = [] ∧ (e.asks = [] ∨ ∀ j e', i = j + 1 → entries[j]? = some e' → e'.asks = [])

theorem Exchange.drop (h : Exchange asking answering) {quiet loud : List (Entry α)} (heq : asking = quiet ++ loud)
    (hquiet : ∀ e ∈ quiet, e.asks = []) (hloud : ∀ e ∈ loud, e.asks ≠ []) {n : ℕ} (hn : n ≤ quiet.length) :
    Exchange (asking.drop n) answering := by
  have hdrop : asking.drop n = quiet.drop n ++ loud := by
    rw [heq,drop_append_of_le_length hn]
  have hquiet' : ∀ e ∈ quiet.drop n, e.asks = [] := fun e he => hquiet e (mem_of_mem_drop he)
  refine ⟨fun e he => h.only_ask e (mem_of_mem_drop he),h.only_answer,h.answer,?_,
    _,_,hdrop,hquiet',hloud⟩
  intro a
  rw [← h.complete a,hdrop,heq]
  constructor
  · rintro ⟨e,he,ha⟩
    refine ⟨e,?_,ha⟩
    rcases mem_append.mp he with he | he
    · exact mem_append_left _ (mem_of_mem_drop he)
    · exact mem_append_right _ he
  · rintro ⟨e,he,ha⟩
    rcases mem_append.mp he with he | he
    · simp [hquiet e he] at ha
    · exact ⟨e,mem_append_right _ he,ha⟩

/-- Exchanges that are cut at a clean place stay exchanges. -/
theorem Run.drop_clean (hclosed : ∀ asking answering n, P asking answering → P (asking.drop n) answering)
    (h : Run P entries) {i : ℕ} (hclean : CleanAt entries i) : Run P (entries.drop i) := by
  induction h generalizing i with
  | nil => simpa using Run.nil
  | @cons asking answering rest hexchange hP hrest ih =>
    by_cases hpast : (asking ++ answering).length ≤ i
    · rw [drop_append,drop_eq_nil_of_le hpast]
      apply ih
      intro e he
      have hat : ∀ j, (asking ++ answering ++ rest)[(asking ++ answering).length + j]? = rest[j]? := by
        intro j
        rw [getElem?_append_right (Nat.le_add_right _ _),Nat.add_sub_cancel_left]
      have hi : (asking ++ answering).length + (i - (asking ++ answering).length) = i := by omega
      obtain ⟨hanswers,hasks⟩ := hclean e (by rw [← hi,hat]; exact he)
      refine ⟨hanswers,hasks.imp_right fun hprev j e' hj he' => ?_⟩
      exact hprev ((asking ++ answering).length + j) e' (by omega) (by rw [hat]; exact he')
    have hlt : i < (asking ++ answering).length := Nat.lt_of_not_le hpast
    have hhere : (asking ++ answering ++ rest)[i]? = (asking ++ answering)[i]? :=
      getElem?_append_left hlt
    by_cases hask : i < asking.length
    · obtain ⟨quiet,loud,heq,hquiet,hloud⟩ := hexchange.packed
      have hle : i ≤ quiet.length := by
        by_contra hbehind
        obtain ⟨j,rfl⟩ : ∃ j, i = j + 1 := ⟨i - 1,by omega⟩
        have hmem : ∀ k, quiet.length ≤ k → k < asking.length →
            ∃ e ∈ loud, (asking ++ answering ++ rest)[k]? = some e := by
          intro k hk hka
          have hlen : k - quiet.length < loud.length := by
            rw [heq,length_append] at hka
            omega
          refine ⟨loud[k - quiet.length],getElem_mem _,?_⟩
          rw [append_assoc,getElem?_append_left hka,heq,getElem?_append_right hk]
          exact getElem?_eq_getElem hlen
        obtain ⟨e,he,heAt⟩ := hmem (j + 1) (by omega) hask
        obtain ⟨e',he',heAt'⟩ := hmem j (by omega) (by omega)
        rcases (hclean e heAt).2 with hnone | hprev
        · exact hloud e he hnone
        · exact hloud e' he' (hprev j e' rfl heAt')
      rw [append_assoc,drop_append_of_le_length hask.le,← append_assoc]
      exact .cons (hexchange.drop heq hquiet hloud hle) (hclosed _ _ _ hP) hrest
    · have hmem : (asking ++ answering)[i] ∈ answering := by
        rw [getElem_append_right (Nat.le_of_not_lt hask)]
        exact getElem_mem _
      have hanswers := (hclean _ (by rw [hhere]; exact getElem?_eq_getElem hlt)).1
      exact absurd hanswers (hexchange.answer _ hmem)

/-- Where every answer is marked and one entry asks, a cut before an entry that is not marked is
good. -/
theorem Run.drop_unmarked
    (hseen : ∀ asking answering, P asking answering → asking.length ≤ 1 ∧ ∀ e ∈ answering, e.marked = true)
    (h : Run P entries) {i : ℕ} (hunmarked : ∀ e, entries[i]? = some e → e.marked = false) :
    Run P (entries.drop i) := by
  induction h generalizing i with
  | nil => simpa using Run.nil
  | @cons asking answering rest hexchange hP hrest ih =>
    by_cases hpast : (asking ++ answering).length ≤ i
    · rw [drop_append,drop_eq_nil_of_le hpast]
      apply ih
      intro e he
      apply hunmarked
      rwa [getElem?_append_right hpast]
    have hlt : i < (asking ++ answering).length := Nat.lt_of_not_le hpast
    obtain ⟨hone,hmarked⟩ := hseen _ _ hP
    by_cases hask : i < asking.length
    · obtain rfl : i = 0 := by omega
      exact .cons hexchange hP hrest
    · have hmem : (asking ++ answering)[i] ∈ answering := by
        rw [getElem_append_right (Nat.le_of_not_lt hask)]
        exact getElem_mem _
      have hnot := hunmarked (asking ++ answering)[i] (by
        rw [getElem?_append_left hlt]
        exact getElem?_eq_getElem hlt)
      rw [hmarked _ hmem] at hnot
      cases hnot

end Mxterm.Exchanges
