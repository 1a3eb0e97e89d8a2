import Mxterm.ChatHistory
import Mxterm.TextLines

/-! The texts of replies: the marker of a summary in them, their lines and line ends, and what is printed of them
(`ai_assistant.rs`). -/
namespace Mxterm.Agent

open List Text

/-! ## Markers and white space in a text -/

def Marked (text : String) : Prop := marker.toList <:+: text.toList

/-- What is printed of a text. -/
def ink (chars : List Char) : List Char := chars.filter (! isWhitespace ·)

section
variable {chars chars' : List Char} {s s' text : String}

theorem ink_append (chars chars' : List Char) : ink (chars ++ chars') = ink chars ++ ink chars' :=
  filter_append _ _

theorem ink_of_white (h : ∀ c ∈ chars, isWhitespace c = true) : ink chars = [] :=
  filter_eq_nil_iff.mpr fun c hc => by simp [h c hc]

theorem white_newline : ∀ c ∈ ['\n'], isWhitespace c = true := forall_mem_singleton.mpr rfl

theorem white_paragraph : ∀ c ∈ ['\n','\n'], isWhitespace c = true :=
  forall_mem_cons.mpr ⟨rfl,white_newline⟩

theorem ink_dropWhile (chars : List Char) : ink (chars.dropWhile isWhitespace) = ink chars := by
  conv_rhs => rw [← takeWhile_append_dropWhile (p := isWhitespace) (l := chars)]
  rw [ink_append,ink_of_white fun c hc => mem_takeWhile_imp hc,nil_append]

theorem ink_reverse (chars : List Char) : ink chars.reverse = (ink chars).reverse := filter_reverse

theorem ink_rdropWhile (chars : List Char) : ink (chars.rdropWhile isWhitespace) = ink chars := by
  rw [List.rdropWhile,ink_reverse,ink_dropWhile,ink_reverse,reverse_reverse]

theorem ink_trim (s : String) : ink (trim s).toList = ink s.toList := by
  rw [trim_toList,ink_rdropWhile,ink_dropWhile]

theorem trim_eq_empty_iff_ink : trim s = "" ↔ ink s.toList = [] := by
  rw [trim_eq_empty_iff,ink]
  simp

/-- A pattern that does not hold the separator stands on one side of it. -/
theorem infix_separated {pattern : List Char} {separator : Char} (h : separator ∉ pattern) :
    pattern <:+: chars ++ separator :: chars' ↔ pattern <:+: chars ∨ pattern <:+: chars' := by
  constructor
  · intro hfound
    rcases infix_append_iff.mp hfound with hleft | hright | ⟨l,r,rfl,hl,hr⟩
    · exact .inl hleft
    · rcases infix_cons_iff.mp hright with hprefix | hright
      · rcases prefix_cons_iff.mp hprefix with rfl | ⟨rest,rfl,-⟩
        · exact .inl nil_infix
        · exact absurd mem_cons_self h
      · exact .inr hright
    · rcases prefix_cons_iff.mp hr with rfl | ⟨rest,rfl,-⟩
      · rw [append_nil]
        exact .inl hl.isInfix
      · exact absurd (mem_append_right l mem_cons_self) h
  · rintro (hleft | hright)
    · exact hleft.trans (prefix_append _ _).isInfix
    · exact hright.trans ((suffix_cons _ _).trans (suffix_append _ _)).isInfix

theorem infix_dropWhile {pattern : List Char} {c : Char} (hhead : pattern.head? = some c)
    (hc : isWhitespace c = false) (h : pattern <:+: chars) : pattern <:+: chars.dropWhile isWhitespace := by
  obtain ⟨before,behind,rfl⟩ := h
  obtain ⟨rest,rfl⟩ := head?_eq_some_iff.mp hhead
  rw [append_assoc,dropWhile_append]
  split_ifs
  · rw [cons_append,dropWhile_cons_of_neg (by simp [hc])]
    exact (prefix_append (c :: rest) behind).isInfix
  · rw [← append_assoc]
    exact infix_append _ _ _

/-- Trimming leaves the markers where they are. -/
theorem marked_trim : Marked (trim s) ↔ Marked s := by
  rw [Marked,trim_toList]
  constructor
  · intro h
    exact h.trans (( rdropWhile_prefix _ _).isInfix.trans (dropWhile_suffix _).isInfix)
  · intro h
    have hfirst := infix_dropWhile (c := '[') (by decide) (by decide) h
    have hlast := infix_dropWhile (c := ']') (by decide) (by decide) ( reverse_infix.mpr hfirst)
    rw [List.rdropWhile,← reverse_infix,reverse_reverse]
    exact hlast

/-- The places where texts are joined hold no marker. -/
theorem marked_newline : Marked (s ++ "\n" ++ s') ↔ Marked s ∨ Marked s' := by
  rw [Marked,String.toList_append,String.toList_append,append_assoc]
  have hnewline : '\n' ∉ marker.toList := by decide
  exact infix_separated hnewline

theorem marked_paragraph : Marked (s ++ "\n\n" ++ s') ↔ Marked s ∨ Marked s' := by
  have hnewline : s ++ "\n\n" ++ s' = s ++ "\n" ++ ("" ++ "\n" ++ s') := by
    simp [String.append_assoc,← String.toList_inj]
  have hempty : ¬ Marked "" := by
    intro h
    exact absurd (infix_nil.mp h) (by decide)
  rw [hnewline,marked_newline,marked_newline]
  simp [hempty]

end

/-! ## Lines -/

/-- A carriage return before the newline belongs to the ending of the line. -/
def stripReturn (line : List Char) : List Char := if line.getLast? = some '\r' then line.dropLast else line

/-- The lines of a text whose last line ends too. -/
def endedLines (text : String) : List String := ((text.toList.splitOn '\n').map stripReturn).map String.ofList

section
variable {line text : String} {texts : List String}

theorem lines_newline (text behind : String) : lines (text ++ "\n" ++ behind) = endedLines text ++ lines behind := by
  have hpieces : (text ++ "\n" ++ behind).toList.splitOn '\n' =
      text.toList.splitOn '\n' ++ behind.toList.splitOn '\n' := by
    rw [String.toList_append,String.toList_append,append_assoc]
    exact splitOnP_append_cons _ _ (by decide)
  have hne := splitOn_ne_nil '\n' behind.toList
  rw [lines,lines,hpieces,dropLast_append_of_ne_nil hne,getLast?_append_of_ne_nil _ hne]
  simp only [map_append,endedLines,append_assoc]
  rfl

theorem endedLines_newline (text behind : String) :
    endedLines (text ++ "\n" ++ behind) = endedLines text ++ endedLines behind := by
  have hpieces : (text ++ "\n" ++ behind).toList.splitOn '\n' =
      text.toList.splitOn '\n' ++ behind.toList.splitOn '\n' := by
    rw [String.toList_append,String.toList_append,append_assoc]
    exact splitOnP_append_cons _ _ (by decide)
  rw [endedLines,hpieces,map_append,map_append]
  rfl

theorem lines_empty : lines "" = [] := by simp [lines]

theorem endedLines_empty : endedLines "" = [""] := by simp [endedLines,stripReturn]

theorem stripReturn_eq (line : List Char) : ∃ ending, (∀ c ∈ ending, isWhitespace c = true) ∧
    line = stripReturn line ++ ending := by
  rw [stripReturn]
  split_ifs with h
  · refine ⟨['\r'],forall_mem_singleton.mpr rfl,?_⟩
    exact (dropLast_append_getLast? _ h).symm
  · exact ⟨[],nofun,(append_nil line).symm⟩

theorem ink_stripReturn (line : List Char) : ink (stripReturn line) = ink line := by
  obtain ⟨ending,hending,heq⟩ := stripReturn_eq line
  conv_rhs => rw [heq]
  rw [ink_append,ink_of_white hending,append_nil]

/-- A text is its last line, or a line and a text behind it. -/
theorem line_induction {P : String → Prop} (last : ∀ s, '\n' ∉ s.toList → P s)
    (next : ∀ line rest, '\n' ∉ line.toList → P rest → P (line ++ "\n" ++ rest)) (s : String) : P s := by
  induction hn : s.length using Nat.strong_induction_on generalizing s with
  | _ n ih =>
    by_cases hmem : '\n' ∈ s.toList
    · obtain ⟨line,rest,hsplit,hline⟩ := eq_append_cons_of_mem hmem
      have heq : s = String.ofList line ++ "\n" ++ String.ofList rest := by
        rw [← String.toList_inj]
        simp [hsplit]
      rw [heq]
      apply next _ _ (by rwa [String.toList_ofList])
      refine ih _ ?_ _ rfl
      rw [← hn,heq]
      simp only [String.length_append]
      exact Nat.lt_add_of_pos_left (Nat.add_pos_right _ (by decide))
    · exact last s hmem

theorem endedLines_single (h : '\n' ∉ line.toList) : endedLines line = [String.ofList (stripReturn line.toList)] := by
  rw [endedLines,splitOn_eq_singleton h]
  rfl

theorem lines_single (h : '\n' ∉ text.toList) : lines text = if text = "" then [] else [text] := by
  split_ifs with hempty
  · rw [hempty,lines_empty]
  · exact lines_of_no_newline hempty h

/-- A text and its lines have the same ink. -/
theorem ink_lines (text : String) : (lines text).flatMap (fun line => ink line.toList) = ink text.toList := by
  induction text using line_induction with
  | last s h =>
    rw [lines_single h]
    split_ifs with hempty
    · rw [hempty]
      rfl
    · exact flatMap_singleton _ _
  | next line rest h ih =>
    have hnewline : ink "\n".toList = [] := by decide
    rw [lines_newline,endedLines_single h,flatMap_append,flatMap_singleton,ih,String.toList_ofList,
      ink_stripReturn,String.toList_append,String.toList_append,ink_append,ink_append,hnewline,append_nil]

theorem trim_append_white {ending : List Char} (h : ∀ c ∈ ending, isWhitespace c = true) (s : String) :
    trim (s ++ String.ofList ending) = trim s := by
  rw [trim,trim,String.toList_append,String.toList_ofList,dropWhile_append]
  split_ifs with hblank
  · rw [dropWhile_eq_nil_iff.mpr h,isEmpty_iff.mp hblank]
  · rw [List.rdropWhile,List.rdropWhile,reverse_append,
      dropWhile_append_of_pos fun c hc => h c (mem_reverse.mp hc)]

theorem trim_ofList_stripReturn (line : String) : trim (String.ofList (stripReturn line.toList)) = trim line := by
  obtain ⟨ending,hending,heq⟩ := stripReturn_eq line.toList
  rw [← trim_append_white hending,← String.ofList_append,← heq,String.ofList_toList]

theorem inSummary_stripReturn (line : String) : inSummary (String.ofList (stripReturn line.toList)) = inSummary line :=
  by
  rw [inSummary,inSummary,trim_ofList_stripReturn]

theorem inSummary_empty : inSummary "" = true := by decide

/-- Whether the last line ends makes no difference to what belongs to a summary. -/
theorem endedLines_inSummary : (∀ line ∈ endedLines text, inSummary line = true) ↔
    ∀ line ∈ lines text, inSummary line = true := by
  induction text using line_induction with
  | last s h =>
    rw [lines_single h,endedLines_single h,forall_mem_singleton,inSummary_stripReturn]
    split_ifs with hempty
    · simp [hempty,inSummary_empty]
    · rw [forall_mem_singleton]
  | next line rest h ih =>
    simp only [endedLines_newline,lines_newline,forall_mem_append,ih]

end

/-! ## Line ends -/

/-- The text with a newline for every carriage return and newline. -/
def plainEnds : List Char → List Char
  | [] => []
  | c :: chars => if c = '\r' ∧ chars.head? = some '\n' then plainEnds chars else c :: plainEnds chars

section
variable {chars chars' : List Char} {s text : String}

theorem length_plainEnds_le (chars : List Char) : (plainEnds chars).length ≤ chars.length := by
  induction chars with
  | nil => exact Nat.le_refl _
  | cons c chars ih =>
    rw [plainEnds]
    split_ifs
    · exact Nat.le_succ_of_le ih
    · exact Nat.succ_le_succ ih

theorem plainEnds_eq_self_iff : plainEnds chars = chars ↔ ¬ ['\r','\n'] <:+: chars := by
  induction chars with
  | nil => simp [plainEnds]
  | cons c chars ih =>
    have hfound : ['\r','\n'] <+: c :: chars ↔ c = '\r' ∧ chars.head? = some '\n' := by
      cases chars <;> simp [cons_prefix_cons,eq_comm]
    rw [plainEnds,infix_cons_iff,hfound]
    split_ifs with h
    · have hle := length_plainEnds_le chars
      refine iff_of_false (fun heq => ?_) fun hnot => hnot (.inl h)
      have hlength := congrArg List.length heq
      rw [length_cons] at hlength
      omega
    · rw [cons_inj_right,ih]
      simp [h]

theorem plainEnds_append (h : ¬ (chars.getLast? = some '\r' ∧ chars'.head? = some '\n')) :
    plainEnds (chars ++ chars') = plainEnds chars ++ plainEnds chars' := by
  induction chars with
  | nil => rfl
  | cons c chars ih =>
    rw [cons_append,plainEnds,plainEnds]
    cases chars with
    | nil =>
      rw [nil_append]
      have hnot : ¬ (c = '\r' ∧ chars'.head? = some '\n') := fun hboth => h ⟨congrArg some hboth.1,hboth.2⟩
      rw [if_neg hnot,if_neg (by simp)]
      rfl
    | cons d chars =>
      split_ifs <;> simp_all

theorem plainEnds_of_newline_not_mem (h : '\n' ∉ chars) : plainEnds chars = chars := by
  rw [plainEnds_eq_self_iff]
  exact fun hfound => h (hfound.subset (by decide))

theorem mem_plainEnds {c : Char} (h : c ∈ plainEnds chars) : c ∈ chars := by
  induction chars with
  | nil => exact h
  | cons d chars ih =>
    rw [plainEnds] at h
    split_ifs at h
    · exact mem_cons_of_mem d (ih h)
    · rcases mem_cons.mp h with rfl | h
      · exact mem_cons_self
      · exact mem_cons_of_mem d (ih h)

theorem joined_cons (line : String) {lines : List String} (h : lines ≠ []) :
    "\n".intercalate (line :: lines) = line ++ "\n" ++ "\n".intercalate lines := by
  obtain ⟨next,lines,rfl⟩ := exists_cons_of_ne_nil h
  simp [String.toList_intercalate]

theorem joined_single (line : String) : "\n".intercalate [line] = line := by
  simp

theorem trimEnd_append {a b : List Char} (chars : List Char) (h : trimEnd a = trimEnd b) :
    trimEnd (chars ++ a) = trimEnd (chars ++ b) := by
  rw [trimEnd,trimEnd,String.ofList_inj,List.rdropWhile,List.rdropWhile,reverse_inj] at h
  rw [trimEnd,trimEnd,List.rdropWhile,List.rdropWhile,reverse_append,reverse_append,dropWhile_append,
    dropWhile_append,h]

/-- A text differs from its joined lines in the line ends, and in white space at its end. -/
theorem trimEnd_joined (text : String) :
    trimEnd ("\n".intercalate (lines text)).toList = trimEnd (plainEnds text.toList) := by
  induction text using line_induction with
  | last s h =>
    rw [lines_single h,plainEnds_of_newline_not_mem h]
    split_ifs with hempty
    · rw [hempty]
      rfl
    · rw [joined_single]
  | next line rest h ih =>
    have hplain : plainEnds (line ++ "\n" ++ rest).toList =
        stripReturn line.toList ++ (['\n'] ++ plainEnds rest.toList) := by
      rw [String.toList_append,String.toList_append,append_assoc,stripReturn]
      have hrest : plainEnds ('\n' :: rest.toList) = '\n' :: plainEnds rest.toList := if_neg (by simp)
      split_ifs with hreturn
      · obtain ⟨init,hinit⟩ := getLast?_eq_some_iff.mp hreturn
        rw [hinit] at h ⊢
        rw [append_assoc,dropLast_concat,plainEnds_append (by simp),
          plainEnds_of_newline_not_mem fun hmem => h (mem_append_left _ hmem)]
        exact congrArg (init ++ ·) ((if_pos ⟨rfl,rfl⟩).trans hrest)
      · rw [plainEnds_append fun hboth => hreturn hboth.1,plainEnds_of_newline_not_mem h]
        exact congrArg (line.toList ++ ·) hrest
    rw [lines_newline,endedLines_single h,hplain,singleton_append]
    by_cases hnil : lines rest = []
    · rw [hnil] at ih ⊢
      rw [joined_single,String.toList_ofList]
      conv_lhs => rw [← append_nil (stripReturn line.toList)]
      exact trimEnd_append _ (trimEnd_append ['\n'] ih : trimEnd (['\n'] ++ []) = _)
    · rw [joined_cons _ hnil,String.toList_append,String.toList_append,String.toList_ofList,append_assoc]
      exact trimEnd_append _ (trimEnd_append ['\n'] ih)

theorem trim_white_append {front : List Char} (h : ∀ c ∈ front, isWhitespace c = true) (s : String) :
    trim (String.ofList front ++ s) = trim s := by
  rw [trim,trim,String.toList_append,String.toList_ofList,dropWhile_append_of_pos h]

theorem trimEnd_eq (chars : List Char) : ∃ ending, (∀ c ∈ ending, isWhitespace c = true) ∧
    String.ofList chars = trimEnd chars ++ String.ofList ending := by
  refine ⟨chars.rtakeWhile isWhitespace,fun c hc => mem_rtakeWhile_imp hc,?_⟩
  rw [trimEnd,← String.ofList_append,rdropWhile_append_rtakeWhile]

theorem trim_trimEnd (chars : List Char) : trim (trimEnd chars) = trim (String.ofList chars) := by
  obtain ⟨ending,hending,heq⟩ := trimEnd_eq chars
  rw [heq,trim_append_white hending]

theorem trim_trimStart (s : String) : trim (trimStart s) = trim s := by
  conv_rhs => rw [← String.ofList_toList (s := s),← takeWhile_append_dropWhile (p := isWhitespace) (l := s.toList),
    String.ofList_append]
  rw [trim_white_append fun c hc => mem_takeWhile_imp hc,trimStart]

/-- What is trimmed away is white space on both sides. -/
theorem trim_eq (s : String) : ∃ front ending, (∀ c ∈ front, isWhitespace c = true) ∧
    (∀ c ∈ ending, isWhitespace c = true) ∧ s.toList = front ++ (trim s).toList ++ ending := by
  refine ⟨s.toList.takeWhile isWhitespace,(s.toList.dropWhile isWhitespace).rtakeWhile isWhitespace,
    fun c hc => mem_takeWhile_imp hc,fun c hc => mem_rtakeWhile_imp hc,?_⟩
  rw [trim_toList,append_assoc,rdropWhile_append_rtakeWhile,takeWhile_append_dropWhile]

theorem trim_plainEnds (s : String) :
    trim (String.ofList (plainEnds s.toList)) = String.ofList (plainEnds (trim s).toList) := by
  obtain ⟨front,ending,hfront,hending,hs⟩ := trim_eq s
  have htrimmed := trimmed_trim s
  by_cases hempty : trim s = ""
  · have hwhite : ∀ c ∈ plainEnds s.toList, isWhitespace c = true := fun c hc =>
      (trim_eq_empty_iff s).mp hempty c (mem_plainEnds hc)
    rw [hempty,(trim_eq_empty_iff _).mpr (by rwa [String.toList_ofList])]
    rfl
  · obtain ⟨first,rest,hfirst⟩ := exists_cons_of_ne_nil (mt String.toList_eq_nil_iff.mp hempty)
    obtain ⟨init,last,hlast⟩ : ∃ init last, (trim s).toList = init ++ [last] :=
      ⟨_,_,(dropLast_append_getLast (mt String.toList_eq_nil_iff.mp hempty)).symm⟩
    have hfirst' := htrimmed.head first (by rw [hfirst]; rfl)
    have hlast' := htrimmed.last last (by rw [hlast,getLast?_concat]; rfl)
    have hreturn : last ≠ '\r' := fun h => by rw [h] at hlast'; exact absurd hlast' (by decide)
    have hreturn' : first ≠ '\r' := fun h => by rw [h] at hfirst'; exact absurd hfirst' (by decide)
    have hnewline : first ≠ '\n' := fun h => by rw [h] at hfirst'; exact absurd hfirst' (by decide)
    have hnewline' : last ≠ '\n' := fun h => by rw [h] at hlast'; exact absurd hlast' (by decide)
    have hsplit : plainEnds s.toList =
        plainEnds front ++ plainEnds (trim s).toList ++ plainEnds ending := by
      rw [hs,plainEnds_append,plainEnds_append]
      · rw [hfirst]
        exact fun hboth => hnewline (Option.some.inj hboth.2)
      · rw [hlast,← append_assoc,getLast?_concat]
        exact fun hboth => hreturn (Option.some.inj hboth.1)
    have hplain : Text.Trimmed (String.ofList (plainEnds (trim s).toList)) := by
      constructor
      · intro c hc
        rw [String.toList_ofList,hfirst,plainEnds,if_neg fun hboth => hreturn' hboth.1] at hc
        cases hc
        exact hfirst'
      · intro c hc
        have hcut : plainEnds (init ++ [last]) = plainEnds init ++ plainEnds [last] :=
          plainEnds_append fun hboth => hnewline' (Option.some.inj hboth.2)
        have hone : plainEnds [last] = [last] := if_neg (by simp)
        rw [String.toList_ofList,hlast,hcut,hone,getLast?_concat] at hc
        cases hc
        exact hlast'
    rw [hsplit,String.ofList_append,String.ofList_append,
      trim_append_white fun c hc => hending c (mem_plainEnds hc),
      trim_white_append fun c hc => hfront c (mem_plainEnds hc),trim_of_trimmed hplain]

/-- Joining the lines of a text leaves it as it is unless a line inside it ends with a carriage return too. -/
theorem trim_joined_lines (text : String) : trim ("\n".intercalate (lines text)) = trim text ↔
    ¬ ['\r','\n'] <:+: (trim text).toList := by
  have hjoined : trim ("\n".intercalate (lines text)) =
      trim (String.ofList (plainEnds text.toList)) := by
    have hend := congrArg trim (trimEnd_joined text)
    rwa [trim_trimEnd,trim_trimEnd,String.ofList_toList] at hend
  rw [hjoined,trim_plainEnds,← plainEnds_eq_self_iff,← String.toList_inj,String.toList_ofList]

end

end Mxterm.Agent
