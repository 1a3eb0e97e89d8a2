import Mathlib.Data.List.DropRight
import Mathlib.Data.List.TakeDrop

/-! The maximal runs of a list whose members satisfy a test, a map over the runs, and the pieces of a list that end at
a separator. -/
namespace Mxterm.MaximalRuns

open List

variable {α : Type*}

/-! ## Runs -/

section Runs

variable (p : α → Bool)

def runs : List α → List (List α)
  | [] => []
  | a :: l => if p a then (a :: l.takeWhile p) :: runs (l.dropWhile p) else runs l
termination_by l => l.length
decreasing_by
  · exact Nat.lt_succ_of_le (length_dropWhile_le p l)
  · exact Nat.lt_succ_self _

/-- The list with every run replaced by its image. -/
def mapRuns (f : List α → List α) : List α → List α
  | [] => []
  | a :: l => if p a then f (a :: l.takeWhile p) ++ mapRuns f (l.dropWhile p) else a :: mapRuns f l
termination_by l => l.length
decreasing_by
  · exact Nat.lt_succ_of_le (length_dropWhile_le p l)
  · exact Nat.lt_succ_self _

variable {p} {f : List α → List α}

@[simp] theorem runs_nil : runs p [] = [] := by simp [runs]

@[simp] theorem mapRuns_nil : mapRuns p f [] = [] := by simp [mapRuns]

variable {a : α}

theorem runs_cons_of_neg (h : p a = false) (l : List α) : runs p (a :: l) = runs p l := by simp [runs,h]

theorem mapRuns_cons_of_neg (h : p a = false) (l : List α) :
    mapRuns p f (a :: l) = a :: mapRuns p f l := by simp [mapRuns,h]

/-- A list that does not begin inside a run. -/
def Starts (p : α → Bool) (l : List α) : Prop := ∀ a ∈ l.head?, p a = false

theorem starts_dropWhile (l : List α) : Starts p (l.dropWhile p) := by
  intro a ha
  have h := head?_dropWhile_not p l
  simpa [Option.mem_def.mp ha] using h

theorem Starts.cons (h : p a = false) (l : List α) : Starts p (a :: l) := by simpa [Starts] using h

variable {l : List α}

theorem takeWhile_append_of_starts (h : Starts p l) (run : List α) : (run ++ l).takeWhile p = run.takeWhile p := by
  induction run with
  | nil => cases l <;> simp_all [Starts]
  | cons a run ih => by_cases ha : p a <;> simp [ha,ih]

theorem dropWhile_append_of_starts (h : Starts p l) (run : List α) : (run ++ l).dropWhile p = run.dropWhile p ++ l := by
  induction run with
  | nil => cases l <;> simp_all [Starts]
  | cons a run ih => by_cases ha : p a <;> simp [ha,ih]

variable {right : List α}

/-- The runs of two parts of a list, the second of which does not begin inside a run. -/
theorem runs_append (h : Starts p right) (left : List α) : runs p (left ++ right) = runs p left ++ runs p right := by
  induction left using runs.induct (p := p) with
  | case1 => simp
  | case2 a l ha ih =>
    simp [runs,ha,takeWhile_append_of_starts h,dropWhile_append_of_starts h,ih]
  | case3 a l ha ih => simp [runs,ha,ih]

theorem mapRuns_append (h : Starts p right) (left : List α) :
    mapRuns p f (left ++ right) = mapRuns p f left ++ mapRuns p f right := by
  induction left using runs.induct (p := p) with
  | case1 => simp
  | case2 a l ha ih =>
    simp [mapRuns,ha,takeWhile_append_of_starts h,dropWhile_append_of_starts h,ih]
  | case3 a l ha ih => simp [mapRuns,ha,ih]

/-- A list that does not end inside a run. -/
def Stops (p : α → Bool) (l : List α) : Prop := ∀ a ∈ l.getLast?, p a = false

theorem stops_rdropWhile (l : List α) : Stops p (l.rdropWhile p) := by
  intro a ha
  obtain ⟨hne,hlast⟩ := mem_getLast?_eq_getLast ha
  have h := rdropWhile_last_not p l hne
  simpa [hlast] using h

variable {left : List α}

theorem runs_append_of_stops (h : Stops p left) (right : List α) :
    runs p (left ++ right) = runs p left ++ runs p right := by
  induction left using List.reverseRecOn with
  | nil => simp
  | append_singleton left a ih =>
    have ha : p a = false := h a (by simp)
    rw [append_assoc,singleton_append,runs_append (Starts.cons ha _),runs_append (Starts.cons ha _)]
    simp [runs_cons_of_neg ha]

theorem mapRuns_append_of_stops (h : Stops p left) (right : List α) :
    mapRuns p f (left ++ right) = mapRuns p f left ++ mapRuns p f right := by
  induction left using List.reverseRecOn with
  | nil => simp
  | append_singleton left a ih =>
    have ha : p a = false := h a (by simp)
    rw [append_assoc,singleton_append,mapRuns_append (Starts.cons ha _),mapRuns_append (Starts.cons ha _)]
    simp [mapRuns_cons_of_neg ha]

variable {run : List α}

theorem runs_of_forall (hne : run ≠ []) (h : ∀ a ∈ run, p a) : runs p run = [run] := by
  cases run with
  | nil => exact absurd rfl hne
  | cons a l =>
    obtain ⟨ha,hl⟩ := forall_mem_cons.mp h
    have hdrop : l.dropWhile p = [] := dropWhile_eq_nil_iff.mpr hl
    simp [runs,ha,hdrop,takeWhile_eq_self_iff.mpr hl]

theorem mapRuns_of_forall (hne : run ≠ []) (h : ∀ a ∈ run, p a) : mapRuns p f run = f run := by
  cases run with
  | nil => exact absurd rfl hne
  | cons a l =>
    obtain ⟨ha,hl⟩ := forall_mem_cons.mp h
    have hdrop : l.dropWhile p = [] := dropWhile_eq_nil_iff.mpr hl
    simp [mapRuns,ha,hdrop,takeWhile_eq_self_iff.mpr hl]

theorem runs_eq_nil (h : ∀ a ∈ l, p a = false) : runs p l = [] := by
  induction l with
  | nil => simp
  | cons a l ih =>
    rw [runs_cons_of_neg (h a mem_cons_self)]
    exact ih fun b hb => h b (mem_cons_of_mem _ hb)

/-- The members of a run are members of the list and pass the test. -/
theorem of_mem_runs (h : run ∈ runs p l) : run ≠ [] ∧ ∀ a ∈ run, p a ∧ a ∈ l := by
  induction l using runs.induct (p := p) with
  | case1 => simp at h
  | case2 a l ha ih =>
    rw [runs,if_pos ha,mem_cons] at h
    rcases h with rfl | h
    · refine ⟨cons_ne_nil _ _,forall_mem_cons.mpr ⟨⟨ha,mem_cons_self⟩,fun b hb => ?_⟩⟩
      exact ⟨mem_takeWhile_imp hb,mem_cons_of_mem _ (( takeWhile_prefix p).subset hb)⟩
    · obtain ⟨hne,hall⟩ := ih h
      refine ⟨hne,fun b hb => ⟨(hall b hb).1,mem_cons_of_mem _ ?_⟩⟩
      exact (dropWhile_suffix p).subset (hall b hb).2
  | case3 a l ha ih =>
    rw [runs,if_neg ha] at h
    obtain ⟨hne,hall⟩ := ih h
    exact ⟨hne,fun b hb => ⟨(hall b hb).1,mem_cons_of_mem _ (hall b hb).2⟩⟩

/-! A mark in the place of every run of a kind. -/

variable (p) (bad : List α → Bool) (mark : List α)

/-- The list with the mark in the place of every bad run. -/
def markRuns (l : List α) : List α := mapRuns p (fun run => if bad run then mark else run) l

variable {p bad mark}

theorem markRuns_append (h : Starts p right) (left : List α) :
    markRuns p bad mark (left ++ right) = markRuns p bad mark left ++ markRuns p bad mark right :=
  mapRuns_append h left

theorem markRuns_append_of_stops (h : Stops p left) (right : List α) :
    markRuns p bad mark (left ++ right) = markRuns p bad mark left ++ markRuns p bad mark right :=
  mapRuns_append_of_stops h right

theorem markRuns_of_forall (hne : run ≠ []) (h : ∀ a ∈ run, p a) :
    markRuns p bad mark run = if bad run then mark else run := mapRuns_of_forall hne h

/-- A list without a bad run is left as it is. -/
theorem markRuns_of_good (h : ∀ run ∈ runs p l, bad run = false) : markRuns p bad mark l = l := by
  unfold markRuns
  induction l using runs.induct (p := p) with
  | case1 => simp
  | case2 a l ha ih =>
    rw [runs,if_pos ha,forall_mem_cons] at h
    simp [mapRuns,ha,h.1,ih h.2]
  | case3 a l ha ih =>
    rw [runs,if_neg ha] at h
    simp [mapRuns,ha,ih h]

/-- It is changed where it has a bad run: the mark does not begin as a run does. -/
theorem markRuns_eq_self_iff (hne : mark ≠ []) (hmark : Starts p mark) (l : List α) :
    markRuns p bad mark l = l ↔ ∀ run ∈ runs p l, bad run = false := by
  refine ⟨fun h => ?_,markRuns_of_good⟩
  unfold markRuns at h
  induction l using runs.induct (p := p) with
  | case1 => simp
  | case2 a l ha ih =>
    rw [mapRuns,if_pos ha] at h
    rw [runs,if_pos ha,forall_mem_cons]
    cases hbad : bad (a :: l.takeWhile p) with
    | true =>
      cases mark with
      | nil => exact absurd rfl hne
      | cons b mark =>
        -- the mark would begin with the first member of the run
        have hstart := hmark b rfl
        simp_all
    | false =>
      refine ⟨rfl,ih ?_⟩
      have hl : l = l.takeWhile p ++ l.dropWhile p := (takeWhile_append_dropWhile).symm
      rw [if_neg (by simp [hbad])] at h
      have htail := (cons_eq_cons.mp h).2
      conv at htail => rhs; rw [hl]
      exact append_cancel_left htail
  | case3 a l ha ih =>
    rw [mapRuns,if_neg ha] at h
    rw [runs,if_neg ha]
    exact ih (cons_eq_cons.mp h).2

/-- The runs that are left are the good ones. -/
theorem runs_markRuns (hmark : ∀ a ∈ mark, p a = false) (l : List α) :
    runs p (markRuns p bad mark l) = (runs p l).filter (!bad ·) := by
  unfold markRuns
  induction l using runs.induct (p := p) with
  | case1 => simp
  | case2 a l ha ih =>
    rw [mapRuns,if_pos ha]
    have hstarts : Starts p (mapRuns p (fun run => if bad run then mark else run) (l.dropWhile p)) := by
      cases hd : l.dropWhile p with
      | nil => simp [Starts]
      | cons b rest =>
        have hb : p b = false := starts_dropWhile l b (by simp [hd])
        rw [mapRuns_cons_of_neg hb]
        exact Starts.cons hb _
    rw [runs_append hstarts,ih,runs,if_pos ha,filter_cons]
    cases hbad : bad (a :: l.takeWhile p) with
    | true => simp [runs_eq_nil hmark]
    | false =>
      have hrun : ∀ b ∈ a :: l.takeWhile p, p b :=
        forall_mem_cons.mpr ⟨ha,fun b hb => mem_takeWhile_imp hb⟩
      simp [runs_of_forall (cons_ne_nil _ _) hrun]
  | case3 a l ha ih =>
    have ha' : p a = false := by simpa using ha
    rw [mapRuns_cons_of_neg ha',runs_cons_of_neg ha',runs_cons_of_neg ha']
    exact ih

/-- The members of the marked list. -/
theorem mem_markRuns (h : a ∈ markRuns p bad mark l) : a ∈ l ∨ a ∈ mark := by
  unfold markRuns at h
  induction l using runs.induct (p := p) with
  | case1 => simp at h
  | case2 b l hb ih =>
    rw [mapRuns,if_pos hb,mem_append] at h
    rcases h with h | h
    · split at h
      · exact .inr h
      · have hsub : b :: l.takeWhile p ⊆ b :: l := cons_subset_cons _ ( takeWhile_prefix p).subset
        exact .inl (hsub h)
    · exact (ih h).imp_left fun hm => mem_cons_of_mem _ ((dropWhile_suffix p).subset hm)
  | case3 b l hb ih =>
    rw [mapRuns,if_neg hb,mem_cons] at h
    rcases h with rfl | h
    · exact .inl mem_cons_self
    · exact (ih h).imp_left (mem_cons_of_mem _)

end Runs

/-! ## Pieces -/

section Pieces

variable (ends : α → Bool)

/-- The pieces of a list, each with the separator that ends it. -/
def splitInclusive : List α → List (List α)
  | [] => []
  | a :: l =>
    if ends a then [a] :: splitInclusive l
    else match splitInclusive l with
      | [] => [[a]]
      | piece :: pieces => (a :: piece) :: pieces

variable {ends}

variable {word : List α}

@[simp] theorem splitInclusive_nil : splitInclusive ends [] = [] := rfl

theorem splitInclusive_cons (a : α) (l : List α) : splitInclusive ends (a :: l) =
    if ends a then [a] :: splitInclusive ends l
    else match splitInclusive ends l with
      | [] => [[a]]
      | piece :: pieces => (a :: piece) :: pieces := rfl

theorem splitInclusive_append (h : ∀ a ∈ word, ends a = false) {sep : α} (hsep : ends sep) (rest : List α) :
    splitInclusive ends (word ++ sep :: rest) = (word ++ [sep]) :: splitInclusive ends rest := by
  induction word with
  | nil => simp [splitInclusive_cons,hsep]
  | cons a word ih =>
    obtain ⟨ha,hword⟩ := forall_mem_cons.mp h
    simp [splitInclusive_cons,ha,ih hword]

theorem splitInclusive_word (hne : word ≠ []) (h : ∀ a ∈ word, ends a = false) : splitInclusive ends word = [word] := by
  induction word with
  | nil => exact absurd rfl hne
  | cons a word ih =>
    obtain ⟨ha,hword⟩ := forall_mem_cons.mp h
    cases word with
    | nil => simp [splitInclusive_cons,ha]
    | cons b word => rw [splitInclusive_cons,if_neg (by simp [ha]),ih (cons_ne_nil _ _) hword]

theorem mem_of_mem_splitInclusive {l piece : List α} (h : piece ∈ splitInclusive ends l) {a : α} (ha : a ∈ piece) :
    a ∈ l := by
  induction l generalizing piece with
  | nil => cases h
  | cons b l ih =>
    rw [splitInclusive_cons] at h
    split at h
    · rcases mem_cons.mp h with rfl | h
      · simp_all
      · exact mem_cons_of_mem _ (ih h ha)
    · split at h
      · simp_all
      · rename_i piece' pieces hpieces
        rw [hpieces] at ih
        rcases mem_cons.mp h with rfl | h
        · rcases mem_cons.mp ha with rfl | ha
          · exact mem_cons_self
          · exact mem_cons_of_mem _ (ih mem_cons_self ha)
        · exact mem_cons_of_mem _ (ih (mem_cons_of_mem _ h) ha)

/-- An induction on the pieces: the list is one last word, or a word with its separator and what follows. -/
theorem pieces_induction (ends : α → Bool) {motive : List α → Prop}
    (word : ∀ word, (∀ a ∈ word, ends a = false) → motive word)
    (piece : ∀ word sep rest, (∀ a ∈ word, ends a = false) → ends sep → motive rest → motive (word ++ sep :: rest)) :
    ∀ l, motive l := by
  intro l
  induction hn : l.length using Nat.strong_induction_on generalizing l with
  | _ n ih =>
    have hword : ∀ a ∈ l.takeWhile (!ends ·), ends a = false := fun a ha => by
      simpa using mem_takeWhile_imp ha
    have hl : l.takeWhile (!ends ·) ++ l.dropWhile (!ends ·) = l := takeWhile_append_dropWhile
    cases hd : l.dropWhile (!ends ·) with
    | nil =>
      rw [hd,append_nil] at hl
      exact hl ▸ word _ hword
    | cons sep rest =>
      have hsep : ends sep := by
        have h := head?_dropWhile_not (!ends ·) l
        simpa [hd] using h
      rw [hd] at hl
      have hlen : rest.length < n := by
        rw [← hn,← hl,length_append,length_cons]
        omega
      exact hl ▸ piece _ sep rest hword hsep (ih _ hlen rest rfl)

variable (ends)

/-- A rewriting of pieces that leaves their separators where they are. -/
structure KeepsEnds (f : List α → List α) : Prop where
  ended : ∀ word sep, (∀ a ∈ word, ends a = false) → ends sep →
    ∃ word', (∀ a ∈ word', ends a = false) ∧ f (word ++ [sep]) = word' ++ [sep]

variable {ends}

theorem append_sep_inj {word' : List α} (h : ∀ a ∈ word, ends a = false) (h' : ∀ a ∈ word', ends a = false) {sep : α}
    (hsep : ends sep) {rest rest' : List α} (heq : word ++ sep :: rest = word' ++ sep :: rest') :
    word = word' ∧ rest = rest' := by
  induction word generalizing word' with
  | nil =>
    cases word' with
    | nil => simpa using heq
    | cons b word' =>
      obtain ⟨rfl,-⟩ := cons_eq_cons.mp heq
      have hb := h' sep mem_cons_self
      simp [hsep] at hb
  | cons a word ih =>
    obtain ⟨ha,hword⟩ := forall_mem_cons.mp h
    cases word' with
    | nil =>
      obtain ⟨rfl,-⟩ := cons_eq_cons.mp heq
      simp [hsep] at ha
    | cons b word' =>
      obtain ⟨rfl,htail⟩ := cons_eq_cons.mp heq
      obtain ⟨rfl,hrest⟩ := ih hword (forall_mem_cons.mp h').2 htail
      exact ⟨rfl,hrest⟩

/-- Two rewritings give one list where they agree on every piece. -/
theorem flatten_map_eq_iff {f g : List α → List α} (hf : KeepsEnds ends f) (hg : KeepsEnds ends g) (l : List α) :
    ((splitInclusive ends l).map f).flatten = ((splitInclusive ends l).map g).flatten ↔
      ∀ piece ∈ splitInclusive ends l, f piece = g piece := by
  induction l using pieces_induction ends with
  | word word hword =>
    by_cases hne : word = []
    · simp [hne]
    · simp [splitInclusive_word hne hword]
  | piece word sep rest hword hsep ih =>
    obtain ⟨fw,hfw,hf⟩ := hf.ended word sep hword hsep
    obtain ⟨gw,hgw,hg⟩ := hg.ended word sep hword hsep
    rw [splitInclusive_append hword hsep,map_cons,map_cons,flatten_cons,flatten_cons,
      forall_mem_cons,← ih,hf,hg]
    constructor
    · intro h
      simp only [append_assoc,singleton_append] at h
      obtain ⟨hw,hrest⟩ := append_sep_inj hfw hgw hsep h
      exact ⟨by rw [hw],hrest⟩
    · rintro ⟨hw,hrest⟩
      rw [hw,hrest]

/-- Runs do not reach over separators: marking them goes piece by piece. -/
theorem markRuns_eq_flatten {p : α → Bool} {bad : List α → Bool} {mark : List α} (h : ∀ a, ends a → p a = false)
    (l : List α) : markRuns p bad mark l = ((splitInclusive ends l).map (markRuns p bad mark)).flatten := by
  induction l using pieces_induction ends with
  | word word hword =>
    by_cases hne : word = []
    · simp [hne,markRuns]
    · simp [splitInclusive_word hne hword]
  | piece word sep rest hword hsep ih =>
    have hsepRun := h sep hsep
    have hrest : markRuns p bad mark (sep :: rest) = [sep] ++ markRuns p bad mark rest :=
      mapRuns_cons_of_neg hsepRun rest
    have hword' : markRuns p bad mark (word ++ [sep]) = markRuns p bad mark word ++ [sep] := by
      rw [markRuns_append (Starts.cons hsepRun [])]
      simp [markRuns,mapRuns_cons_of_neg hsepRun]
    rw [splitInclusive_append hword hsep,markRuns_append (Starts.cons hsepRun rest),map_cons,flatten_cons,
      ← ih,hrest,hword',append_assoc]

end Pieces
end Mxterm.MaximalRuns
