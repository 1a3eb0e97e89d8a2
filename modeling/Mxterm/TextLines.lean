import Mxterm.Values
import Mathlib.Data.List.Infix

/-! The lines of a text (`str::lines`), texts joined from lines, and what trimming leaves alone. -/
namespace Mxterm.Text

open List

variable {s : String}

theorem lines_of_no_newline (hne : s ≠ "") (h : '\n' ∉ s.toList) : lines s = [s] := by
  simp [lines,splitOn_eq_singleton h,hne]

theorem not_mem_splitOn (sep : Char) (cs : List Char) : ∀ piece ∈ cs.splitOn sep, sep ∉ piece := by
  induction cs with
  | nil => simp [splitOn_nil]
  | cons c cs ih =>
    rw [splitOn_cons_eq_if_modifyHead]
    split
    · simpa using ih
    · rename_i hc
      cases hs : cs.splitOn sep with
      | nil => exact absurd hs (splitOn_ne_nil _ _)
      | cons piece pieces =>
        rw [hs] at ih
        obtain ⟨hpiece,hpieces⟩ := forall_mem_cons.mp ih
        rw [modifyHead_cons,forall_mem_cons]
        refine ⟨?_,hpieces⟩
        rw [mem_cons,not_or]
        exact ⟨fun he => hc (by simp [← he]),hpiece⟩

/-- No line holds a newline. -/
theorem newline_not_mem_of_mem_lines {line : String} (h : line ∈ lines s) : '\n' ∉ line.toList := by
  have hpieces := not_mem_splitOn '\n' s.toList
  simp only [lines,mem_map,mem_append,Option.mem_toList,Option.filter_eq_some_iff] at h
  obtain ⟨cs,⟨piece,hpiece,rfl⟩ | ⟨hlast,-⟩,rfl⟩ := h
  · rw [String.toList_ofList]
    have hno := hpieces piece (dropLast_subset _ hpiece)
    split
    · exact fun hmem => hno (dropLast_subset _ hmem)
    · exact hno
  · rw [String.toList_ofList]
    exact hpieces cs (mem_of_getLast? hlast)

/-- `lines.join("\n")`. -/
def join (ls : List String) : String := String.ofList (['\n'].intercalate (ls.map String.toList))

theorem intercalate_newline (ls : List (List Char)) (h : ls ≠ []) :
    ['\n'].intercalate ls ++ ['\n'] = ['\n'].intercalate (ls ++ [[]]) := by
  induction ls with
  | nil => exact absurd rfl h
  | cons l ls ih =>
    cases ls with
    | nil => simp [intercalate_cons_cons]
    | cons l' ls =>
      rw [intercalate_cons_cons,append_assoc,ih (cons_ne_nil _ _)]
      simp [intercalate_cons_cons]

/-- Joined lines, the last one ended too, are read back. -/
theorem lines_join {ls : List String} (hne : ls ≠ []) (hnewline : ∀ l ∈ ls, '\n' ∉ l.toList)
    (hreturn : ∀ l ∈ ls, l.toList.getLast? ≠ some '\r') : lines (join ls ++ "\n") = ls := by
  have hpieces : (join ls ++ "\n").toList.splitOn '\n' = ls.map String.toList ++ [[]] := by
    rw [join,String.toList_append,String.toList_ofList]
    change (['\n'].intercalate (ls.map String.toList) ++ ['\n']).splitOn '\n' = _
    rw [intercalate_newline _ (by simpa using hne),splitOn_intercalate]
    · intro l hl
      rcases mem_append.mp hl with hl | hl
      · obtain ⟨line,hline,rfl⟩ := mem_map.mp hl
        exact hnewline line hline
      · simp_all
    · simp
  have hended : ∀ l ∈ ls.map String.toList,
      (if l.getLast? = some '\r' then l.dropLast else l) = l := by
    intro l hl
    obtain ⟨line,hline,rfl⟩ := mem_map.mp hl
    exact if_neg (hreturn line hline)
  rw [lines,hpieces]
  simp only [dropLast_concat,getLast?_concat]
  rw [map_congr_left hended]
  simp [Function.comp_def]

/-- As many lines make one text only when they are the same. -/
theorem join_inj {ls ls' : List String} (h : ∀ l ∈ ls, '\n' ∉ l.toList) (h' : ∀ l ∈ ls', '\n' ∉ l.toList)
    (hlength : ls.length = ls'.length) (hjoin : join ls = join ls') : ls = ls' := by
  by_cases hne : ls = []
  · rw [hne] at hlength
    rw [hne,eq_nil_of_length_eq_zero hlength.symm]
  have hne' : ls' ≠ [] := by
    intro he
    rw [he] at hlength
    exact hne (eq_nil_of_length_eq_zero hlength)
  have hpieces : ls.map String.toList = ls'.map String.toList := by
    have hsplit : (['\n'].intercalate (ls.map String.toList)).splitOn '\n' = ls.map String.toList :=
      splitOn_intercalate '\n' (by simpa using h) (by simpa using hne)
    have hsplit' : (['\n'].intercalate (ls'.map String.toList)).splitOn '\n' = ls'.map String.toList :=
      splitOn_intercalate '\n' (by simpa using h') (by simpa using hne')
    rw [← hsplit,← hsplit']
    exact congrArg (List.splitOn '\n') (String.ofList_inj.mp hjoin)
  exact map_injective_iff.mpr (fun _ _ => String.toList_inj.mp) hpieces

theorem contains_iff (s pattern : String) : contains s pattern ↔ pattern.toList <:+: s.toList := by
  rw [contains,any_eq_true,infix_iff_prefix_suffix]
  constructor
  · rintro ⟨rest,hrest,hpattern⟩
    exact ⟨rest, isPrefixOf_iff_prefix.mp hpattern,(mem_tails _ _).mp hrest⟩
  · rintro ⟨rest,hpattern,hrest⟩
    exact ⟨rest,(mem_tails _ _).mpr hrest, isPrefixOf_iff_prefix.mpr hpattern⟩

/-- `trim_end_matches('\r')`. -/
def trimReturns (s : String) : String := String.ofList (s.toList.rdropWhile (· = '\r'))

theorem getLast?_trimReturns (s : String) : (trimReturns s).toList.getLast? ≠ some '\r' := by
  intro h
  rw [trimReturns,String.toList_ofList] at h
  obtain ⟨hne,hlast⟩ := mem_getLast?_eq_getLast h
  have hnot := rdropWhile_last_not (fun c => decide (c = '\r')) s.toList hne
  exact hnot (by simp [← hlast])

variable {c : Char}

theorem mem_trimReturns (h : c ∈ (trimReturns s).toList) : c ∈ s.toList := by
  rw [trimReturns,String.toList_ofList] at h
  exact ( rdropWhile_prefix _ _).subset h

theorem trimReturns_of_last (h : s.toList.getLast? ≠ some '\r') : trimReturns s = s := by
  rw [trimReturns,rdropWhile_eq_self_iff.mpr,String.ofList_toList]
  intro hne hlast
  rw [getLast?_eq_some_getLast hne] at h
  exact h (congrArg some (of_decide_eq_true hlast))

/-- `strip_prefix`. -/
def stripPrefix (pattern s : String) : Option String :=
  if pattern.toList.isPrefixOf s.toList then some (String.ofList (s.toList.drop pattern.toList.length))
  else none

theorem stripPrefix_append (pattern s : String) : stripPrefix pattern (pattern ++ s) = some s := by
  simp [stripPrefix]

/-- `split_whitespace`. -/
def splitWhitespace (s : String) : List String :=
  ((s.toList.splitOnP isWhitespace).filter (· ≠ [])).map String.ofList

theorem splitOnce_append {separator : Char} {before : String} (h : separator ∉ before.toList)
    (after : String) :
    splitOnce separator (before ++ String.ofList [separator] ++ after) = some (before,after) := by
  rw [splitOnce,span_eq_takeWhile_dropWhile]
  have hbefore : ∀ c ∈ before.toList, (decide (c ≠ separator)) = true := by
    intro c hc
    exact decide_eq_true fun he => h (he ▸ hc)
  simp only [String.toList_append,String.toList_ofList,append_assoc]
  rw [takeWhile_append_of_pos hbefore,dropWhile_append_of_pos hbefore]
  simp

/-- A text without whitespace at its ends. -/
structure Trimmed (s : String) : Prop where
  head : ∀ c ∈ s.toList.head?, isWhitespace c = false
  last : ∀ c ∈ s.toList.getLast?, isWhitespace c = false

theorem trim_of_trimmed (h : Trimmed s) : trim s = s := by
  have hhead : s.toList.dropWhile isWhitespace = s.toList := by
    rw [dropWhile_eq_self_iff]
    intro hlen
    have hc := h.head _ (head?_eq_getElem? ▸ getElem?_eq_getElem hlen)
    simp [hc]
  have hlast : s.toList.rdropWhile isWhitespace = s.toList := by
    rw [rdropWhile_eq_self_iff]
    intro hne
    have hc := h.last _ (getLast?_eq_some_getLast hne)
    simp [hc]
  rw [trim,hhead,hlast,String.ofList_toList]

theorem trimmed_trim (s : String) : Trimmed (trim s) where
  head := by
    intro c hc
    rw [trim_toList] at hc
    have hfirst := head?_dropWhile_not isWhitespace s.toList
    obtain ⟨rest,hrest⟩ := rdropWhile_prefix isWhitespace (s.toList.dropWhile isWhitespace)
    rw [← hrest,head?_append,hc] at hfirst
    exact hfirst
  last := by
    intro c hc
    rw [trim_toList] at hc
    obtain ⟨hne,rfl⟩ := mem_getLast?_eq_getLast hc
    simpa using rdropWhile_last_not isWhitespace (s.toList.dropWhile isWhitespace) hne

theorem trimmed_iff (s : String) : Trimmed s ↔ trim s = s :=
  ⟨trim_of_trimmed,fun h => h ▸ trimmed_trim s⟩

/-- Something trimmed behind something that begins with no whitespace. -/
theorem Trimmed.append {a b : String} (ha : ∀ c ∈ a.toList.head?, isWhitespace c = false) (hne : a ≠ "")
    (hb : Trimmed b) (hb' : b ≠ "") : Trimmed (a ++ b) where
  head := by
    intro c hc
    cases hl : a.toList with
    | nil => exact absurd (String.toList_eq_nil_iff.mp hl) hne
    | cons x xs =>
      rw [String.toList_append,hl] at hc
      exact ha c (by rw [hl]; exact hc)
  last := by
    intro c hc
    rw [String.toList_append,getLast?_append] at hc
    cases hl : b.toList.getLast? with
    | none => exact absurd (String.toList_eq_nil_iff.mp (getLast?_eq_none_iff.mp hl)) hb'
    | some x =>
      rw [hl] at hc
      exact hb.last c (by rw [hl]; exact hc)

theorem mem_dropWhile_of_not {p : Char → Bool} {cs : List Char} (hc : c ∈ cs) (hp : p c = false) :
    c ∈ cs.dropWhile p := by
  rw [← takeWhile_append_dropWhile (p := p) (l := cs)] at hc
  rcases mem_append.mp hc with hc | hc
  · have htrue := mem_takeWhile_imp hc
    rw [hp] at htrue
    cases htrue
  · exact hc

/-- Trimming takes whitespace only. -/
theorem mem_trim (hc : c ∈ s.toList) (h : isWhitespace c = false) : c ∈ (trim s).toList := by
  rw [trim_toList,List.rdropWhile,mem_reverse]
  exact mem_dropWhile_of_not (mem_reverse.mpr (mem_dropWhile_of_not hc h)) h

theorem trim_ne_of_mem {t : String} (hc : c ∈ s.toList) (h : isWhitespace c = false) (ht : c ∉ t.toList) :
    trim s ≠ t := by
  rintro rfl
  exact ht (mem_trim hc h)

theorem trimReturns_of_trimmed (h : Trimmed s) : trimReturns s = s := by
  apply trimReturns_of_last
  intro hlast
  exact absurd (h.last _ hlast) (by decide)

theorem splitOnce_eq_some {separator : Char} {before after : String}
    (h : splitOnce separator s = some (before,after)) :
    s.toList = before.toList ++ separator :: after.toList ∧ separator ∉ before.toList := by
  rw [splitOnce,span_eq_takeWhile_dropWhile] at h
  have hparts := takeWhile_append_dropWhile (p := fun c => decide (c ≠ separator)) (l := s.toList)
  cases hd : s.toList.dropWhile (fun c => decide (c ≠ separator)) with
  | nil =>
    rw [hd] at h
    cases h
  | cons c rest =>
    have hc := head?_dropWhile_not (fun c => decide (c ≠ separator)) s.toList
    rw [hd] at h hc hparts
    cases h
    obtain rfl : c = separator := by simpa using hc
    simp only [String.toList_ofList]
    refine ⟨hparts.symm,fun hmem => ?_⟩
    simpa using mem_takeWhile_imp hmem

theorem stripPrefix_eq_some {pattern rest : String} (h : stripPrefix pattern s = some rest) :
    s.toList = pattern.toList ++ rest.toList := by
  rw [stripPrefix] at h
  split at h
  · rename_i hpattern
    obtain ⟨tail,htail⟩ := isPrefixOf_iff_prefix.mp hpattern
    cases h
    simp [← htail]
  · cases h

theorem trim_append_whitespace (cs : List Char) (hc : isWhitespace c) :
    trim (String.ofList (cs ++ [c])) = trim (String.ofList cs) := by
  simp only [trim,String.toList_ofList,dropWhile_append]
  split
  · rename_i hempty
    simp [isEmpty_iff.mp hempty,hc]
  · rw [rdropWhile_concat_pos _ _ _ hc]

@[simp] theorem trim_trimReturns (s : String) : trim (trimReturns s) = trim s := by
  have hlist (cs : List Char) :
      trim (String.ofList (cs.rdropWhile (· = '\r'))) = trim (String.ofList cs) := by
    induction cs using List.reverseRecOn with
    | nil => rfl
    | append_singleton cs c ih =>
      by_cases hc : c = '\r'
      · subst hc
        rw [rdropWhile_concat_pos _ _ _ (by decide),ih,trim_append_whitespace cs (by decide)]
      · rw [rdropWhile_concat_neg _ _ _ (by simpa using hc)]
  rw [trimReturns,hlist,String.ofList_toList]

end Mxterm.Text
