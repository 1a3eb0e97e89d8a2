import Mxterm.SlashPaths

/-! Paths as texts to which names are joined, and the steps that stay below where they begin. -/
namespace Mxterm.SlashPaths

open List

/-- `Path::join`. -/
def push (path name : String) : String :=
  if isAbsolute name then name
  else if path = "" ∨ path.toList.getLast? = some '/' then path ++ name
  else path ++ "/" ++ name

def components (path : String) : List String := (segments path).filter (· ≠ ".")

def joinSlash : List String → String
  | [] => ""
  | [name] => name
  | name :: names => name ++ "/" ++ joinSlash names

/-- `Path::parent`, up to slashes. -/
def parentOf (path : String) : Option String :=
  if components path = [] then none
  else some ((if isAbsolute path then "/" else "") ++ joinSlash (components path).dropLast)

/-- Steps that never go above where they begin, with `depth` names to go back. -/
def Stays : ℕ → List String → Prop
  | _, [] => True
  | depth, step :: steps =>
    if step = "." then Stays depth steps
    else if step = ".." then ∃ less, depth = less + 1 ∧ Stays less steps
    else Stays (depth + 1) steps

variable {path name : String} {p q home : List String} {steps more : List String} {depth : ℕ}

theorem segments_push (h : isAbsolute name = false) : segments (push path name) = segments path ++ segments name := by
  rw [push,if_neg (by rw [h]; exact Bool.false_ne_true)]
  by_cases hempty : path = ""
  · rw [if_pos (.inl hempty),hempty]
    have hnil : segments "" = [] := pieces_nil
    rw [hnil,nil_append,String.empty_append]
  by_cases hslash : path.toList.getLast? = some '/'
  · obtain ⟨front,hfront⟩ := getLast?_eq_some_iff.mp hslash
    rw [if_pos (.inr hslash),segments,String.toList_append,hfront,append_assoc,singleton_append,
      pieces_append_slash,segments,hfront,pieces_append_slash,pieces_nil,append_nil,segments]
  · have hone : "/".toList = ['/'] := rfl
    rw [if_neg (not_or.mpr ⟨hempty,hslash⟩),segments,String.toList_append,String.toList_append,hone,append_assoc,
      singleton_append,pieces_append_slash,segments,segments]

theorem isAbsolute_push (h : isAbsolute name = false) : isAbsolute (push path name) = isAbsolute path := by
  rw [push,if_neg (by rw [h]; exact Bool.false_ne_true)]
  by_cases hempty : path = ""
  · rw [if_pos (.inl hempty),hempty,String.empty_append,h]
    rfl
  have hhead : path.toList ≠ [] := fun hnil => hempty (String.toList_eq_nil_iff.mp hnil)
  split_ifs
  · rw [isAbsolute,String.toList_append,head?_append_of_ne_nil _ hhead,isAbsolute]
  · rw [isAbsolute,String.toList_append,String.toList_append,append_assoc,head?_append_of_ne_nil _ hhead,
      isAbsolute]

theorem locate_push (home : List String) (h : isAbsolute name = false) :
    locate home (push path name) = (segments name).foldl enter (locate home path) := by
  rw [locate,segments_push h,isAbsolute_push h,foldl_append]
  rfl

theorem push_absolute (h : isAbsolute name = true) : push path name = name := if_pos h

/-- A text between slashes. -/
def Unsplit (name : String) : Prop := '/' ∉ name.toList ∧ name ≠ ""

theorem unsplit_of_mem_pieces {text : List Char} (h : name ∈ pieces text) : Unsplit name := by
  induction text using List.reverseRecOn with
  | nil =>
    exact absurd h not_mem_nil
  | append_singleton text c ih =>
    by_cases hc : c = '/'
    · subst hc
      rw [pieces_append_slash,pieces_nil,append_nil] at h
      exact ih h
    · obtain ⟨front,last,hlast,htext,hall⟩ :=
        pieces_append_suffix text (cons_ne_nil c []) (by simpa using Ne.symm hc)
      rw [hall] at h
      rcases mem_append.mp h with hfront | hself
      · exact ih (htext ▸ mem_append_left _ hfront)
      · rw [mem_singleton.mp hself]
        refine ⟨by simp [hlast,Ne.symm hc],fun hempty => ?_⟩
        have hnil := congrArg String.toList hempty
        simp at hnil

theorem Unsplit.isAbsolute (h : Unsplit name) : isAbsolute name = false := by
  rw [SlashPaths.isAbsolute,decide_eq_false_iff_not]
  intro hhead
  exact h.1 (mem_of_head? hhead)

theorem Unsplit.segments (h : Unsplit name) : segments name = [name] := by
  rw [SlashPaths.segments,pieces_no_slash h.1,if_neg (fun hnil => h.2 (String.toList_eq_nil_iff.mp hnil)),
    String.ofList_toList]

theorem isAbsolute_slash (text : String) : isAbsolute ("/" ++ text) = true := by
  rw [isAbsolute,String.toList_append]
  rfl

theorem segments_slash (text : String) : segments ("/" ++ text) = segments text := by
  have hone : "/".toList = [] ++ ['/'] := rfl
  rw [segments,String.toList_append,hone,append_assoc,singleton_append,pieces_append_slash,pieces_nil,
    nil_append,segments]

variable {names : List String}

theorem segments_joinSlash (h : ∀ name ∈ names, Unsplit name) : segments (joinSlash names) = names := by
  induction names with
  | nil => exact pieces_nil
  | cons name names ih =>
    obtain ⟨hname,hnames⟩ := forall_mem_cons.mp h
    cases names with
    | nil => exact hname.segments
    | cons next names =>
      have hone : "/".toList = ['/'] := rfl
      rw [joinSlash,segments,String.toList_append,String.toList_append,hone,append_assoc,singleton_append,
        pieces_append_slash]
      · exact congrArg₂ (· ++ ·) hname.segments (ih hnames)
      · exact cons_ne_nil _ _

theorem isAbsolute_joinSlash (h : ∀ name ∈ names, Unsplit name) : isAbsolute (joinSlash names) = false := by
  cases names with
  | nil => rfl
  | cons name names =>
    have hname := h name mem_cons_self
    cases names with
    | nil => exact hname.isAbsolute
    | cons next names =>
      have hhead : name.toList ≠ [] := fun hnil => hname.2 (String.toList_eq_nil_iff.mp hnil)
      rw [joinSlash,isAbsolute,String.toList_append,String.toList_append,append_assoc,
        head?_append_of_ne_nil _ hhead]
      · exact hname.isAbsolute
      · exact cons_ne_nil _ _

theorem unsplit_of_mem_segments (h : name ∈ segments path) : Unsplit name := unsplit_of_mem_pieces h

/-- Where the directory of a path is. -/
theorem locate_parentOf {parent : String} (home : List String) (h : parentOf path = some parent) :
    components path ≠ [] ∧
      locate home parent = (components path).dropLast.foldl enter (if isAbsolute path then [] else home) := by
  have hunsplit : ∀ name ∈ (components path).dropLast, Unsplit name := fun name hname =>
    unsplit_of_mem_segments (mem_filter.mp (dropLast_subset _ hname)).1
  rw [parentOf] at h
  split_ifs at h with hnil habsolute
  · cases h
    refine ⟨hnil,?_⟩
    rw [locate,isAbsolute_slash,segments_slash,segments_joinSlash hunsplit,habsolute]
  · rw [String.empty_append] at h
    cases h
    refine ⟨hnil,?_⟩
    rw [locate,isAbsolute_joinSlash hunsplit,segments_joinSlash hunsplit,eq_false_of_ne_true habsolute]

/-- A suffix without a slash is part of the last name, or a name of its own. -/
theorem segments_append_suffix (path : String) {suffix : String} (hne : suffix ≠ "") (h : '/' ∉ suffix.toList) :
    ∃ front last, (front = segments path ∨ front = (segments path).dropLast) ∧
      segments (path ++ suffix) = front ++ [last ++ suffix] := by
  have hnil : suffix.toList ≠ [] := fun hnil => hne (String.toList_eq_nil_iff.mp hnil)
  obtain ⟨front,last,hlast,hpath,hall⟩ := pieces_append_suffix path.toList hnil h
  refine ⟨front,String.ofList last,?_,?_⟩
  · rw [segments,hpath,pieces_no_slash hlast]
    split_ifs
    · rw [append_nil]
      exact .inl rfl
    · rw [dropLast_concat]
      exact .inr rfl
  · have happend : String.ofList (last ++ suffix.toList) = String.ofList last ++ suffix := by
      apply String.toList_inj.mp
      rw [String.toList_ofList,String.toList_append,String.toList_ofList]
    rw [segments,String.toList_append,hall,happend]

/-- Names that are joined one after the other. -/
theorem locate_pushes (home : List String) (h : ∀ name ∈ names, isAbsolute name = false) :
    locate home (names.foldl push path) = (names.flatMap segments).foldl enter (locate home path) ∧
      isAbsolute (names.foldl push path) = isAbsolute path ∧
      segments (names.foldl push path) = segments path ++ names.flatMap segments := by
  induction names generalizing path with
  | nil => exact ⟨rfl,rfl,(append_nil _).symm⟩
  | cons name names ih =>
    obtain ⟨hname,hnames⟩ := forall_mem_cons.mp h
    obtain ⟨hlocate,habsolute,hsegments⟩ := @ih (push path name) hnames
    rw [foldl_cons,hlocate,habsolute,hsegments,flatMap_cons,foldl_append,locate_push home hname,
      isAbsolute_push hname,segments_push hname,append_assoc]
    exact ⟨rfl,rfl,rfl⟩

/-! ## Steps -/

theorem stays_append (h : Stays depth (steps ++ more)) : Stays depth steps := by
  induction steps generalizing depth with
  | nil => trivial
  | cons step steps ih =>
    rw [cons_append,Stays] at h
    rw [Stays]
    split_ifs at h ⊢
    · exact ih h
    · obtain ⟨less,hless,hsteps⟩ := h
      exact ⟨less,hless,ih hsteps⟩
    · exact ih h

/-- Steps that stay below do the same wherever they begin. -/
theorem foldl_enter_of_stays (h : Stays p.length steps) (q : List String) :
    steps.foldl enter (q ++ p) = q ++ steps.foldl enter p := by
  induction steps generalizing p with
  | nil => rfl
  | cons step steps ih =>
    rw [Stays] at h
    rw [foldl_cons,foldl_cons,enter,enter]
    split_ifs at h ⊢
    · exact ih h
    · obtain ⟨less,hless,hsteps⟩ := h
      have hp : p ≠ [] := by
        rintro rfl
        cases hless
      rw [dropLast_append_of_ne_nil hp]
      apply ih
      rw [length_dropLast,hless]
      exact hsteps
    · rw [append_assoc]
      apply ih
      rwa [length_append]

theorem not_mem_foldl_enter (hp : name ∉ p) (hsteps : name ∉ steps) : name ∉ steps.foldl enter p := by
  induction steps generalizing p with
  | nil => exact hp
  | cons step steps ih =>
    rw [mem_cons,not_or] at hsteps
    refine ih ?_ hsteps.2
    rw [enter]
    split_ifs
    · exact hp
    · exact fun hmem => hp (dropLast_subset p hmem)
    · rw [mem_append,mem_singleton,not_or]
      exact ⟨hp,hsteps.1⟩

/-- Steps that go above a name they do not know do not come back. -/
theorem stays_of_below (hname : name ∉ p) (hsteps : name ∉ steps) (h : [name] <+: steps.foldl enter (name :: p)) :
    Stays p.length steps := by
  induction steps generalizing p with
  | nil => trivial
  | cons step steps ih =>
    rw [mem_cons,not_or] at hsteps
    rw [foldl_cons,enter] at h
    rw [Stays]
    split_ifs at h ⊢
    · exact ih hname hsteps.2 h
    · cases p with
      | nil =>
        have hnot := not_mem_foldl_enter not_mem_nil hsteps.2
        exact absurd (h.subset (mem_singleton_self name)) hnot
      | cons first p =>
        refine ⟨p.length,rfl,?_⟩
        have hlength : (first :: p).dropLast.length = p.length := by simp
        rw [← hlength]
        exact ih (fun hmem => hname (dropLast_subset _ hmem)) hsteps.2 h
    · have hlength : (p ++ [step]).length = p.length + 1 := by simp
      rw [← hlength]
      refine ih ?_ hsteps.2 h
      rw [mem_append,mem_singleton,not_or]
      exact ⟨hname,hsteps.1⟩

theorem stays_filter (h : Stays depth steps) : Stays depth (steps.filter (· ≠ ".")) := by
  induction steps generalizing depth with
  | nil => trivial
  | cons step steps ih =>
    rw [Stays] at h
    by_cases hdot : step = "."
    · subst hdot
      exact ih h
    · rw [filter_cons_of_pos (by simpa using hdot),Stays]
      split_ifs at h ⊢
      · obtain ⟨less,hless,hsteps⟩ := h
        exact ⟨less,hless,ih hsteps⟩
      · exact ih h

theorem foldl_enter_filter (p steps : List String) :
    (steps.filter (· ≠ ".")).foldl enter p = steps.foldl enter p := by
  induction steps generalizing p with
  | nil => rfl
  | cons step steps ih =>
    by_cases hdot : step = "."
    · subst hdot
      exact ih p
    · rw [filter_cons_of_pos (by simpa using hdot),foldl_cons,foldl_cons,ih]

end Mxterm.SlashPaths
