import Mathlib.Data.List.Infix

/-! Paths as texts, and where they lead in a tree. -/
namespace Mxterm.SlashPaths

open List

theorem exists_bound {α : Type} (f : α → ℕ) (xs : List α) : ∃ bound, ∀ x ∈ xs, f x ≤ bound := by
  induction xs with
  | nil => exact ⟨0,fun x hx => absurd hx not_mem_nil⟩
  | cons first xs ih =>
    obtain ⟨bound,hbound⟩ := ih
    refine ⟨max (f first) bound,fun x hx => ?_⟩
    rcases mem_cons.mp hx with rfl | hx
    · exact Nat.le_max_left _ _
    · exact Nat.le_trans (hbound x hx) (Nat.le_max_right _ _)

/-- The pieces of a text between its slashes, as lists of characters. -/
def pieces (text : List Char) : List String := ((text.splitOn '/').filter (· ≠ [])).map String.ofList

def segments (path : String) : List String := pieces path.toList

def isAbsolute (path : String) : Bool := path.toList.head? = some '/'

/-- One step along a path. -/
def enter (p : List String) (name : String) : List String :=
  if name = "." then p
  else if name = ".." then p.dropLast
  else p ++ [name]

/-- Where a path leads from a directory. -/
def locate (home : List String) (path : String) : List String :=
  (segments path).foldl enter (if isAbsolute path then [] else home)

/-- A name of one step down. -/
structure Plain (name : String) : Prop where
  nonempty : name ≠ ""
  ne_dot : name ≠ "."
  ne_dots : name ≠ ".."
  no_slash : '/' ∉ name.toList

instance : DecidablePred Plain := fun name =>
  decidable_of_iff (name ≠ "" ∧ name ≠ "." ∧ name ≠ ".." ∧ '/' ∉ name.toList)
    ⟨fun h => ⟨h.1,h.2.1,h.2.2.1,h.2.2.2⟩,fun h => ⟨h.nonempty,h.ne_dot,h.ne_dots,h.no_slash⟩⟩

variable {home p : List String} {name path : String}

theorem enter_plain (h : Plain name) (p : List String) : enter p name = p ++ [name] := by
  rw [enter,if_neg h.ne_dot,if_neg h.ne_dots]

theorem foldl_enter_plain {names : List String} (h : ∀ name ∈ names, Plain name) (p : List String) :
    names.foldl enter p = p ++ names := by
  induction names generalizing p with
  | nil => exact (append_nil p).symm
  | cons name names ih =>
    obtain ⟨hname,hnames⟩ := forall_mem_cons.mp h
    rw [foldl_cons,ih hnames,enter_plain hname,append_assoc,singleton_append]

theorem pieces_append_slash (xs ys : List Char) : pieces (xs ++ '/' :: ys) = pieces xs ++ pieces ys := by
  rw [pieces,splitOn_append_cons_self,filter_append,map_append]
  rfl

theorem pieces_no_slash {xs : List Char} (h : '/' ∉ xs) :
    pieces xs = if xs = [] then [] else [String.ofList xs] := by
  rw [pieces,splitOn_eq_singleton h]
  by_cases hnil : xs = []
  · simp [hnil]
  · simp [hnil]

theorem pieces_nil : pieces [] = [] := by rw [pieces_no_slash not_mem_nil,if_pos rfl]

theorem pieces_plain (h : Plain name) : pieces name.toList = [name] := by
  have hne : name.toList ≠ [] := fun hnil => h.nonempty (String.toList_eq_nil_iff.mp hnil)
  rw [pieces_no_slash h.no_slash,if_neg hne,String.ofList_toList]

/-- A text ends in a piece without a slash. -/
theorem exists_last_piece (xs : List Char) :
    ∃ last, '/' ∉ last ∧ (xs = last ∨ ∃ front, xs = front ++ '/' :: last) := by
  induction xs with
  | nil => exact ⟨[],not_mem_nil,.inl rfl⟩
  | cons c cs ih =>
    obtain ⟨last,hlast,rfl | ⟨front,rfl⟩⟩ := ih
    · by_cases hc : c = '/'
      · exact ⟨_,hlast,.inr ⟨[],by rw [hc]; rfl⟩⟩
      · exact ⟨c :: cs,by simp [Ne.symm hc,hlast],.inl rfl⟩
    · exact ⟨last,hlast,.inr ⟨c :: front,rfl⟩⟩

/-- A text without a slash that is appended makes the last piece longer. -/
theorem pieces_append_suffix (xs : List Char) {suffix : List Char} (hne : suffix ≠ []) (h : '/' ∉ suffix) :
    ∃ front last, '/' ∉ last ∧ pieces xs = front ++ pieces last ∧
      pieces (xs ++ suffix) = front ++ [String.ofList (last ++ suffix)] := by
  obtain ⟨last,hlast,hxs⟩ := exists_last_piece xs
  have hsuffix : pieces (last ++ suffix) = [String.ofList (last ++ suffix)] := by
    rw [pieces_no_slash (by simp [hlast,h]),if_neg (by simp [hne])]
  rcases hxs with rfl | ⟨front,rfl⟩
  · exact ⟨[],xs,hlast,rfl,by rw [hsuffix]; rfl⟩
  · refine ⟨pieces front,last,hlast,pieces_append_slash front last,?_⟩
    rw [append_assoc,cons_append,pieces_append_slash,hsuffix]

theorem isAbsolute_append_suffix {path suffix : String} (hne : suffix ≠ "") (h : '/' ∉ suffix.toList) :
    isAbsolute (path ++ suffix) = isAbsolute path := by
  rw [isAbsolute,isAbsolute,String.toList_append]
  cases hpath : path.toList with
  | nil =>
    cases hsuffix : suffix.toList with
    | nil => exact absurd (String.toList_eq_nil_iff.mp hsuffix) hne
    | cons c cs =>
      rw [hsuffix] at h
      have hc : c ≠ '/' := fun heq => h (by rw [heq]; exact mem_cons_self)
      simp [hc]
  | cons c cs => rfl

/-- Where a path leads that ends in `suffix`, and where it leads without it: to the directory, above it, or
beside. -/
theorem locate_append_suffix (home : List String) (path : String) {suffix : String} (hlong : 3 ≤ suffix.length)
    (h : '/' ∉ suffix.toList) :
    ∃ p last, locate home (path ++ suffix) = p ++ [last ++ suffix] ∧
      (locate home path = p ∨ locate home path = p.dropLast ∨ locate home path = p ++ [last]) := by
  have hne : suffix ≠ "" := by
    rintro rfl
    cases hlong
  have hnil : suffix.toList ≠ [] := fun hnil => hne (String.toList_eq_nil_iff.mp hnil)
  obtain ⟨front,last,hlast,hpath,hall⟩ := pieces_append_suffix path.toList hnil h
  have hdots : ∀ dots : String, dots.length < 3 → String.ofList (last ++ suffix.toList) ≠ dots := by
    rintro _ hdots rfl
    rw [← String.length_toList,String.toList_ofList,length_append,String.length_toList] at hdots
    omega
  have happend : String.ofList (last ++ suffix.toList) = String.ofList last ++ suffix := by
    apply String.toList_inj.mp
    rw [String.toList_ofList,String.toList_append,String.toList_ofList]
  refine ⟨front.foldl enter (if isAbsolute path then [] else home),String.ofList last,?_,?_⟩
  · rw [locate,segments,String.toList_append,hall,isAbsolute_append_suffix hne h,foldl_append,foldl_cons,
      foldl_nil,enter,if_neg (hdots "." (by decide)),if_neg (hdots ".." (by decide)),happend]
  · rw [locate,segments,hpath,foldl_append,pieces_no_slash hlast]
    generalize front.foldl enter (if isAbsolute path then [] else home) = p
    by_cases hempty : last = []
    · rw [if_pos hempty]
      exact .inl rfl
    · rw [if_neg hempty,foldl_cons,enter]
      split_ifs
      · exact .inl rfl
      · exact .inr (.inl rfl)
      · exact .inr (.inr rfl)

/-- The path of an entry of a directory. -/
def entryPath (path name : String) : String :=
  if path.toList.getLast? = some '/' then path ++ name else path ++ "/" ++ name

theorem segments_entryPath (path : String) (h : Plain name) :
    segments (entryPath path name) = segments path ++ [name] := by
  rw [entryPath]
  split_ifs with hslash
  · obtain ⟨front,hfront⟩ := getLast?_eq_some_iff.mp hslash
    rw [segments,String.toList_append,hfront,append_assoc,singleton_append,pieces_append_slash,segments,
      hfront,pieces_append_slash,pieces_plain h,pieces_nil,append_nil]
  · have hslash : "/".toList = ['/'] := rfl
    rw [segments,String.toList_append,String.toList_append,hslash,append_assoc,singleton_append,
      pieces_append_slash,pieces_plain h,segments]

theorem isAbsolute_entryPath (hne : path ≠ "") (name : String) : isAbsolute (entryPath path name) = isAbsolute path :=
  by
  have hhead : path.toList ≠ [] := fun hnil => hne (String.toList_eq_nil_iff.mp hnil)
  rw [entryPath,isAbsolute,isAbsolute]
  split_ifs
  · rw [String.toList_append,head?_append_of_ne_nil _ hhead]
  · rw [String.toList_append,String.toList_append,append_assoc,head?_append_of_ne_nil _ hhead]

end Mxterm.SlashPaths
