import Mxterm.Occurrences
import Mxterm.SummaryTexts
import Mxterm.TurnAccumulator

/-! The summary of the tool calls behind a reply, and what is left of the reply when it is taken away
(`strip_tool_call_summary` in `ai_assistant.rs`). -/
namespace Mxterm.Agent

open List Text

/-! ## The summary -/

structure SummarisedCall extends AiToolCallRecord where
  command : Option String

def maxHistoryToolOutputChars : ℕ := 300

def SummarisedCall.target (call : SummarisedCall) : String :=
  ((call.command.filter fun _ => call.name = "run_command").map fun command =>
    "`" ++ truncateChars command 200 ++ "`").getD call.name

def SummarisedCall.result (call : SummarisedCall) : String :=
  if call.status = "completed" then
    let exit := (call.exitStatus.map fun value => "退出码 " ++ toString value).getD "已完成"
    let output := trim call.output
    if output = "" then exit else exit ++ "，输出：" ++ truncateChars output maxHistoryToolOutputChars
  else if call.status = "rejected" then "用户拒绝执行"
  else if call.status = "cancelled" then "已取消"
  else "失败：" ++ call.error.getD "未知错误"

def SummarisedCall.item (call : SummarisedCall) : String := "- " ++ call.target ++ " → " ++ call.result

def summaryItems : List SummarisedCall → String
  | [] => ""
  | call :: calls => "\n" ++ call.item ++ summaryItems calls

def appendToolCallSummary (content : String) (toolCalls : List SummarisedCall) : String :=
  if toolCalls = [] then content
  else
    let summary := marker ++ summaryItems toolCalls
    if trim content = "" then summary else content ++ "\n\n" ++ summary

/-- The lines that are kept of what stands behind the marker. -/
def keptLines (text : String) : List String := (lines text).dropWhile inSummary

/-! ## What stands behind the marker -/

section
variable {text : String} {calls : List SummarisedCall} {behind : Option String}

/-- The text that stands behind the summary, on lines of its own. -/
def tail (behind : Option String) : String := (behind.map fun text => "\n" ++ text).getD ""

/-- Every line of the items is one that the summary may hold. -/
def Plain (calls : List SummarisedCall) : Prop :=
  ∀ call ∈ calls, ∀ line ∈ lines call.item, inSummary line = true

theorem lines_items (calls : List SummarisedCall) (text : String) : ∃ rest,
    summaryItems calls ++ "\n" ++ text = "\n" ++ rest ∧
      lines rest = (calls.flatMap fun call => endedLines call.item) ++ lines text := by
  induction calls with
  | nil => exact ⟨text,by simp [summaryItems],rfl⟩
  | cons call calls ih =>
    obtain ⟨rest,heq,hlines⟩ := ih
    refine ⟨call.item ++ "\n" ++ rest,?_,?_⟩
    · have hsplit : summaryItems (call :: calls) ++ "\n" ++ text =
          "\n" ++ call.item ++ (summaryItems calls ++ "\n" ++ text) := by
        simp only [summaryItems,String.append_assoc]
      rw [hsplit,heq]
      simp only [String.append_assoc]
    · rw [lines_newline,hlines,flatMap_cons,append_assoc]

theorem keptLines_newline (rest : String) : keptLines ("\n" ++ rest) = keptLines rest := by
  have hlines := lines_newline "" rest
  rw [String.empty_append,endedLines_empty] at hlines
  rw [keptLines,hlines,singleton_append,dropWhile_cons_of_pos inSummary_empty,keptLines]

theorem plain_iff : Plain calls ↔
    ∀ line ∈ calls.flatMap (fun call => endedLines call.item), inSummary line = true := by
  rw [forall_mem_flatMap]
  simp only [endedLines_inSummary]
  rfl

theorem keptLines_items (calls : List SummarisedCall) (text : String) :
    keptLines (summaryItems calls ++ "\n" ++ text) =
      ((calls.flatMap fun call => endedLines call.item) ++ lines text).dropWhile inSummary := by
  obtain ⟨rest,heq,hlines⟩ := lines_items calls text
  rw [heq,keptLines_newline,keptLines,hlines]

/-- Lines of which one does not belong to a summary leave some ink. -/
theorem ink_dropWhile_ne_nil {lines : List String} (h : ¬ ∀ line ∈ lines, inSummary line = true) :
    (lines.dropWhile inSummary).flatMap (fun line => ink line.toList) ≠ [] := by
  cases hkept : lines.dropWhile inSummary with
  | nil => exact absurd (dropWhile_eq_nil_iff.mp hkept) h
  | cons line kept =>
    have hline := head?_dropWhile_not inSummary lines
    rw [hkept] at hline
    apply append_ne_nil_of_left_ne_nil
    intro hink
    have hblank : trim line = "" := trim_eq_empty_iff_ink.mpr hink
    simp [inSummary,hblank] at hline

theorem lines_items_none : (∀ line ∈ lines (summaryItems calls), inSummary line = true) ↔ Plain calls := by
  obtain ⟨rest,heq,hlines⟩ := lines_items calls ""
  have hended : endedLines (summaryItems calls) = "" :: calls.flatMap fun call => endedLines call.item := by
    have hall := lines_newline (summaryItems calls) ""
    rw [heq,lines_empty,append_nil] at hall
    have hrest := lines_newline "" rest
    rw [String.empty_append,hlines,lines_empty,endedLines_empty,append_nil] at hrest
    rw [← hall,hrest,singleton_append]
  rw [← endedLines_inSummary,hended,forall_mem_cons,plain_iff]
  exact and_iff_right inSummary_empty

/-- Of plain items nothing is kept. -/
theorem keptLines_of_plain (h : Plain calls) (behind : Option String) :
    keptLines (summaryItems calls ++ tail behind) = keptLines (behind.getD "") := by
  cases behind with
  | none =>
    rw [tail,Option.map_none,Option.getD_none,String.append_empty]
    exact dropWhile_eq_nil_iff.mpr (lines_items_none.mpr h)
  | some text =>
    have htail : summaryItems calls ++ tail (some text) = summaryItems calls ++ "\n" ++ text := by
      rw [tail,Option.map_some,Option.getD_some,String.append_assoc]
    rw [htail,keptLines_items,dropWhile_append_of_pos (plain_iff.mp h)]
    rfl

/-- Of other items something is kept. -/
theorem ink_kept_of_not_plain (h : ¬ Plain calls) (behind : Option String) : ∃ extra, extra ≠ [] ∧
    (keptLines (summaryItems calls ++ tail behind)).flatMap (fun line => ink line.toList) =
      extra ++ ink (behind.getD "").toList := by
  cases behind with
  | none =>
    refine ⟨_,ink_dropWhile_ne_nil (mt lines_items_none.mp h),?_⟩
    rw [tail,Option.map_none,Option.getD_none,String.append_empty]
    exact (append_nil _).symm
  | some text =>
    have hitems : ¬ ∀ line ∈ calls.flatMap (fun call => endedLines call.item), inSummary line = true :=
      mt plain_iff.mpr h
    have htail : summaryItems calls ++ tail (some text) = summaryItems calls ++ "\n" ++ text := by
      rw [tail,Option.map_some,Option.getD_some,String.append_assoc]
    refine ⟨_,ink_dropWhile_ne_nil hitems,?_⟩
    have hne : ((calls.flatMap fun call => endedLines call.item).dropWhile inSummary).isEmpty ≠ true :=
      fun hempty => hitems (dropWhile_eq_nil_iff.mp (isEmpty_iff.mp hempty))
    rw [htail,keptLines_items,dropWhile_append,if_neg hne,flatMap_append,ink_lines]
    rfl

end

/-! ## What is left of the text -/

section
variable {text reply head suffix result : String} {calls : List SummarisedCall} {behind : Option String}

/-- What stands in front of the summary and what is kept behind it. -/
def combined (head suffix : String) : String :=
  if head = "" ∧ suffix = "" then ""
  else if suffix = "" then head
  else if head = "" then suffix
  else head ++ "\n\n" ++ suffix

theorem splitAtPattern_eq (pattern chars : List Char) :
    splitAtPattern pattern chars = Occurrences.findFirst pattern chars := by
  induction chars with
  | nil => rfl
  | cons c chars ih => simp only [splitAtPattern,Occurrences.findFirst, isPrefixOf_iff_prefix,ih]

theorem strip_of_split {before rest : List Char} (h : splitAtPattern marker.toList text.toList = some (before,rest)) :
    stripToolCallSummary text =
      combined (trimEnd before) (trimStart ("\n".intercalate (keptLines (String.ofList rest)))) := by
  rw [stripToolCallSummary,h]
  rfl

/-- A text without the marker stays as it is. -/
theorem strip_of_not_marked (h : ¬ Marked text) : stripToolCallSummary text = text := by
  have hnone : splitAtPattern marker.toList text.toList = none := by
    rw [splitAtPattern_eq]
    cases hfound : Occurrences.findFirst marker.toList text.toList with
    | none => rfl
    | some found => exact absurd ⟨found.1,found.2,(Occurrences.findFirst_append hfound).symm⟩ h
  rw [stripToolCallSummary,hnone]

theorem not_marked_empty : ¬ Marked "" := fun h => absurd (infix_nil.mp h) (by decide)

theorem marked_combined : Marked (combined head suffix) ↔ Marked head ∨ Marked suffix := by
  rw [combined]
  split_ifs with hboth hsuffix hhead
  · simp [hboth.1,hboth.2,not_marked_empty]
  · simp [hsuffix,not_marked_empty]
  · simp [hhead,not_marked_empty]
  · exact marked_paragraph

theorem marked_joined (lines : List String) : Marked ("\n".intercalate lines) ↔ ∃ line ∈ lines, Marked line := by
  induction lines with
  | nil => simpa using not_marked_empty
  | cons line lines ih =>
    by_cases hnil : lines = []
    · rw [hnil]
      simp
    · rw [joined_cons line hnil,marked_newline,ih]
      simp

theorem ink_joined (lines : List String) :
    ink ("\n".intercalate lines).toList = lines.flatMap fun line => ink line.toList := by
  induction lines with
  | nil => rfl
  | cons line lines ih =>
    by_cases hnil : lines = []
    · rw [hnil]
      exact (append_nil _).symm
    · have hnewline : ink "\n".toList = [] := by decide
      rw [joined_cons line hnil,String.toList_append,String.toList_append,ink_append,ink_append,hnewline,
        append_nil,ih,flatMap_cons]

theorem marked_trimStart : Marked (trimStart text) ↔ Marked text := by
  rw [← marked_trim,trim_trimStart,marked_trim]

theorem marked_trimEnd {chars : List Char} : Marked (trimEnd chars) ↔ Marked (String.ofList chars) := by
  rw [← marked_trim,trim_trimEnd,marked_trim]

/-- The marker stands again in what is kept behind the summary. -/
def MarkedAgain (text : String) : Prop :=
  ∃ before rest, splitAtPattern marker.toList text.toList = some (before,rest) ∧
    ∃ line ∈ keptLines (String.ofList rest), Marked line

theorem marked_strip : Marked (stripToolCallSummary text) ↔ MarkedAgain text := by
  cases hsplit : splitAtPattern marker.toList text.toList with
  | none =>
    have hnot : ¬ Marked text := by
      rintro ⟨before,rest,heq⟩
      rw [splitAtPattern_eq] at hsplit
      apply Occurrences.findFirst_eq_none hsplit before.length
      rw [Occurrences.OccursAt,← heq,append_assoc,drop_left]
      exact prefix_append _ rest
    rw [strip_of_not_marked hnot]
    refine iff_of_false hnot ?_
    rintro ⟨before,rest,hsome,-⟩
    rw [hsplit] at hsome
    cases hsome
  | some found =>
    obtain ⟨before,rest⟩ := found
    have hbefore : ¬ Marked (trimEnd before) := by
      rw [marked_trimEnd,Marked,String.toList_ofList]
      rintro ⟨l,r,rfl⟩
      rw [splitAtPattern_eq] at hsplit
      have hlt : l.length < (l ++ marker.toList ++ r).length := by
        have hmarker : 0 < marker.toList.length := by decide
        rw [length_append,length_append]
        omega
      apply Occurrences.not_occursAt_of_findFirst hsplit hlt
      rw [Occurrences.OccursAt,Occurrences.findFirst_append hsplit]
      simp only [append_assoc,drop_left]
      exact prefix_append _ _
    rw [strip_of_split hsplit,marked_combined,or_iff_right hbefore,marked_trimStart,marked_joined,MarkedAgain,hsplit]
    simp

/-! ## Only the summary is taken away -/

/-- A reply with its summary, and with what stands behind it. -/
def summarised (reply : String) (calls : List SummarisedCall) (behind : Option String) : String :=
  appendToolCallSummary reply calls ++ tail behind

/-- The result is the reply and the text behind the summary, up to the white space around them. -/
def Gives (result reply behind : String) : Prop :=
  ∃ gap, (∀ c ∈ gap, isWhitespace c = true) ∧
    trim result = trim reply ++ String.ofList gap ++ trim behind

/-- The summary is taken away, and nothing else is. -/
def OnlySummary (reply : String) (calls : List SummarisedCall) (behind : Option String) : Prop :=
  Gives (stripToolCallSummary (summarised reply calls behind)) reply (behind.getD "") ∧
    ¬ Marked (stripToolCallSummary (summarised reply calls behind))

/-- Where the summary ends can be read off the lines: those of the items are blank or begin with a dash, and the text
behind it does not begin with a dash; and its lines end with newlines alone. -/
structure Readable (reply : String) (calls : List SummarisedCall) (behind : String) : Prop where
  unmarked : ¬ Marked reply ∧ ¬ Marked behind
  items : Plain calls
  first : calls ≠ [] → ∀ line ∈ (lines behind).takeWhile inSummary, trim line = ""
  ends : calls ≠ [] → ¬ ['\r','\n'] <:+: (trim behind).toList

/-- Trimming a text that consists of two others with white space between. -/
theorem trim_between {gap : List Char} (hgap : ∀ c ∈ gap, isWhitespace c = true) (x y : String) :
    Gives (x ++ String.ofList gap ++ y) x y := by
  by_cases hx : trim x = ""
  · have hwhite : ∀ c ∈ x.toList ++ gap, isWhitespace c = true := by
      rw [forall_mem_append]
      exact ⟨(trim_eq_empty_iff x).mp hx,hgap⟩
    refine ⟨[],nofun,?_⟩
    rw [← String.ofList_toList (s := x),← String.ofList_append,trim_white_append hwhite,String.ofList_toList,hx]
    exact String.empty_append.symm
  by_cases hy : trim y = ""
  · have hwhite : ∀ c ∈ gap ++ y.toList, isWhitespace c = true := by
      rw [forall_mem_append]
      exact ⟨hgap,(trim_eq_empty_iff y).mp hy⟩
    refine ⟨[],nofun,?_⟩
    rw [String.append_assoc,← String.ofList_toList (s := y),← String.ofList_append,trim_append_white hwhite,
      String.ofList_toList,hy]
    exact (String.append_empty.trans String.append_empty).symm
  obtain ⟨front,ending,hfront,hending,hx'⟩ := trim_eq x
  obtain ⟨front',ending',hfront',hending',hy'⟩ := trim_eq y
  refine ⟨ending ++ gap ++ front',?_,?_⟩
  · rw [forall_mem_append,forall_mem_append]
    exact ⟨⟨hending,hgap⟩,hfront'⟩
  · have hsplit : x ++ String.ofList gap ++ y = String.ofList front ++
        (trim x ++ String.ofList (ending ++ gap ++ front') ++ trim y) ++ String.ofList ending' := by
      rw [← String.toList_inj]
      simp [hx',hy']
    have htrimmed : Text.Trimmed (trim x ++ String.ofList (ending ++ gap ++ front') ++ trim y) := by
      apply Text.Trimmed.append ?_ ?_ (trimmed_trim y) hy
      · intro c hc
        obtain ⟨first,rest,hfirst⟩ := exists_cons_of_ne_nil (mt String.toList_eq_nil_iff.mp hx)
        rw [String.toList_append,hfirst] at hc
        obtain rfl := Option.some.inj hc
        exact (trimmed_trim x).head first (by rw [hfirst]; rfl)
      · exact fun h => hx (String.append_eq_empty_iff.mp h).1
    rw [hsplit,trim_append_white hending',trim_white_append hfront,trim_of_trimmed htrimmed]

theorem gives_combined (head suffix : String) : Gives (combined head suffix) head suffix := by
  rw [combined]
  split_ifs with hboth hsuffix hhead
  · exact ⟨[],nofun,by rw [hboth.1,hboth.2]; rfl⟩
  · exact ⟨[],nofun,by rw [hsuffix]; exact String.append_empty.symm.trans String.append_empty.symm⟩
  · exact ⟨[],nofun,by rw [hhead]; exact String.empty_append.symm⟩
  · exact trim_between white_paragraph head suffix

theorem ink_of_gives {reply behind : String} (h : Gives result reply behind) :
    ink result.toList = ink reply.toList ++ ink behind.toList := by
  obtain ⟨gap,hgap,htrim⟩ := h
  have hink : ink (trim result).toList =
      ink (trim reply ++ String.ofList gap ++ trim behind).toList := by rw [htrim]
  rwa [ink_trim,String.toList_append,String.toList_append,ink_append,ink_append,ink_trim,ink_trim,
    String.toList_ofList,ink_of_white hgap,append_nil] at hink

/-- The text behind the white space is the same where all is the same. -/
theorem trim_eq_of_gives {reply behind behind' : String} (h : Gives result reply behind)
    (h' : Gives result reply behind') : trim behind = trim behind' := by
  obtain ⟨gap,hgap,htrim⟩ := h
  obtain ⟨gap',hgap',htrim'⟩ := h'
  rw [htrim,String.append_assoc,String.append_assoc,String.append_right_inj] at htrim'
  have hboth := congrArg trim htrim'
  rwa [trim_white_append hgap,trim_white_append hgap',trim_trim,trim_trim] at hboth

theorem marked_of_gives {reply behind : String} (h : Gives result reply behind) (hmarked : ¬ Marked result) :
    ¬ Marked reply ∧ ¬ Marked behind := by
  obtain ⟨gap,hgap,htrim⟩ := h
  rw [← marked_trim,htrim,Marked,String.toList_append,String.toList_append] at hmarked
  constructor
  · intro hreply
    rw [← marked_trim] at hreply
    exact hmarked (hreply.trans (by rw [append_assoc]; exact (prefix_append _ _).isInfix))
  · intro hbehind
    rw [← marked_trim] at hbehind
    exact hmarked (hbehind.trans (suffix_append _ _).isInfix)

theorem Gives.congr {reply reply' behind behind' : String} (h : Gives result reply behind)
    (hreply : trim reply = trim reply') (hbehind : trim behind = trim behind') :
    Gives result reply' behind' := by
  obtain ⟨gap,hgap,htrim⟩ := h
  exact ⟨gap,hgap,by rw [htrim,hreply,hbehind]⟩

/-- Blank lines in front change nothing but the white space. -/
theorem trim_joined_blank {front : List String} (h : ∀ line ∈ front, trim line = "") (lines : List String) :
    trim ("\n".intercalate (front ++ lines)) = trim ("\n".intercalate lines) := by
  induction front with
  | nil => rfl
  | cons line front ih =>
    rw [forall_mem_cons] at h
    rw [← ih h.2,cons_append]
    by_cases hnil : front ++ lines = []
    · rw [hnil,joined_single,h.1]
      rfl
    · have hwhite : ∀ c ∈ line.toList ++ ['\n'], isWhitespace c = true := by
        rw [forall_mem_append]
        exact ⟨(trim_eq_empty_iff line).mp h.1,white_newline⟩
      have hline : line ++ "\n" = String.ofList (line.toList ++ ['\n']) := by simp
      rw [joined_cons line hnil,hline,trim_white_append hwhite]

theorem split_summarised (behind : Option String) (hcalls : calls ≠ []) (hreply : ¬ Marked reply) : ∃ before,
    splitAtPattern marker.toList (summarised reply calls behind).toList =
        some (before,(summaryItems calls ++ tail behind).toList) ∧
      trim (String.ofList before) = trim reply := by
  have hmarker : marker.toList ≠ [] := by decide
  have hself := Occurrences.findFirst_self hmarker (summaryItems calls ++ tail behind).toList
  rw [summarised,appendToolCallSummary,if_neg hcalls,splitAtPattern_eq]
  by_cases hblank : trim reply = ""
  · refine ⟨[],?_,hblank.symm⟩
    rw [if_pos hblank,← hself,← String.toList_append,String.append_assoc]
  · refine ⟨reply.toList ++ '\n' :: ([] ++ '\n' :: []),?_,?_⟩
    · have hsplit : (reply ++ "\n\n" ++ (marker ++ summaryItems calls) ++ tail behind).toList = reply.toList ++
          '\n' :: ([] ++ '\n' :: (marker.toList ++ (summaryItems calls ++ tail behind).toList)) := by
        simp [String.toList_append]
      have hempty : ¬ marker.toList <:+: [] := not_marked_empty
      rw [if_neg hblank,hsplit,Occurrences.findFirst_separated (by decide) (by decide) hreply]
      rfl
    · rw [String.ofList_append,String.ofList_toList,nil_append,trim_append_white white_paragraph]

theorem gives_strip (behind : Option String) (hcalls : calls ≠ []) (hreply : ¬ Marked reply) :
    Gives (stripToolCallSummary (summarised reply calls behind)) reply
      ("\n".intercalate (keptLines (summaryItems calls ++ tail behind))) := by
  obtain ⟨before,hsplit,htrim⟩ := split_summarised behind hcalls hreply
  rw [strip_of_split hsplit,String.ofList_toList]
  exact (gives_combined _ _).congr ((trim_trimEnd before).trans htrim) (trim_trimStart _)

theorem marked_summarised (hcalls : calls ≠ []) (hreply : ¬ Marked reply) :
    Marked (stripToolCallSummary (summarised reply calls behind)) ↔
      Marked ("\n".intercalate (keptLines (summaryItems calls ++ tail behind))) := by
  obtain ⟨before,hsplit,htrim⟩ := split_summarised behind hcalls hreply
  have hbefore : ¬ Marked (trimEnd before) := by rwa [marked_trimEnd,← marked_trim,htrim,marked_trim]
  rw [strip_of_split hsplit,String.ofList_toList,marked_combined,or_iff_right hbefore,marked_trimStart]

theorem gives_tail (reply : String) (behind : Option String) : Gives (reply ++ tail behind) reply (behind.getD "") := by
  cases behind with
  | none => exact ⟨[],nofun,by rw [tail]; simp [trim]⟩
  | some text =>
    have hbetween := trim_between white_newline reply text
    rwa [String.append_assoc] at hbetween

theorem marked_tail : Marked (reply ++ tail behind) ↔ Marked reply ∨ Marked (behind.getD "") := by
  cases behind with
  | none =>
    rw [tail,Option.map_none,Option.getD_none,String.append_empty]
    exact (or_iff_left not_marked_empty).symm
  | some text =>
    have hnewline : Marked (reply ++ "\n" ++ text) ↔ Marked reply ∨ Marked text := marked_newline
    rwa [String.append_assoc] at hnewline

/-- The lines that are kept of a text have all of its ink when the others are blank. -/
theorem ink_kept_iff : (keptLines text).flatMap (fun line => ink line.toList) = ink text.toList ↔
    ∀ line ∈ (lines text).takeWhile inSummary, trim line = "" := by
  have hsplit : ink text.toList =
      ((lines text).takeWhile inSummary).flatMap (fun line => ink line.toList) ++
        (keptLines text).flatMap fun line => ink line.toList := by
    rw [keptLines,← flatMap_append,takeWhile_append_dropWhile,ink_lines]
  rw [hsplit,self_eq_append_left,flatMap_eq_nil_iff]
  simp only [trim_eq_empty_iff_ink]

theorem onlySummary_iff (reply : String) (calls : List SummarisedCall) (behind : Option String) :
    OnlySummary reply calls behind ↔ Readable reply calls (behind.getD "") := by
  by_cases hcalls : calls = []
  · subst hcalls
    have htext : summarised reply [] behind = reply ++ tail behind := by
      rw [summarised,appendToolCallSummary,if_pos rfl]
    constructor
    · rintro ⟨hgives,hmarked⟩
      exact ⟨marked_of_gives hgives hmarked,nofun,fun h => absurd rfl h,fun h => absurd rfl h⟩
    · intro h
      have hmarked : ¬ Marked (reply ++ tail behind) := by
        rw [marked_tail]
        exact not_or.mpr h.unmarked
      rw [OnlySummary,htext,strip_of_not_marked hmarked]
      exact ⟨gives_tail reply behind,hmarked⟩
  · constructor
    · rintro ⟨hgives,hmarked⟩
      have hunmarked := marked_of_gives hgives hmarked
      have hstrip := gives_strip behind hcalls hunmarked.1
      have hink : (keptLines (summaryItems calls ++ tail behind)).flatMap (fun line => ink line.toList) =
          ink (behind.getD "").toList := by
        have hboth := (ink_of_gives hstrip).symm.trans (ink_of_gives hgives)
        rwa [append_cancel_left_eq,ink_joined] at hboth
      have hplain : Plain calls := by
        by_contra hnot
        obtain ⟨extra,hextra,heq⟩ := ink_kept_of_not_plain hnot behind
        rw [hink,self_eq_append_left] at heq
        exact hextra heq
      rw [keptLines_of_plain hplain] at hink hstrip
      have hfirst := ink_kept_iff.mp hink
      refine ⟨hunmarked,hplain,fun _ => hfirst,fun _ => ?_⟩
      have htrim := trim_eq_of_gives hstrip hgives
      have hjoined := trim_joined_blank hfirst (keptLines (behind.getD ""))
      rw [keptLines,takeWhile_append_dropWhile] at hjoined
      exact (trim_joined_lines _).mp (hjoined.trans htrim)
    · intro h
      have hstrip := gives_strip behind hcalls h.unmarked.1
      rw [keptLines_of_plain h.items] at hstrip
      have hjoined := trim_joined_blank (h.first hcalls) (keptLines (behind.getD ""))
      rw [keptLines,takeWhile_append_dropWhile,(trim_joined_lines _).mpr (h.ends hcalls)] at hjoined
      have hmarked : ¬ Marked (stripToolCallSummary (summarised reply calls behind)) := by
        rw [marked_summarised hcalls h.unmarked.1,keptLines_of_plain h.items,← marked_trim,keptLines,← hjoined,
          marked_trim]
        exact h.unmarked.2
      exact ⟨hstrip.congr rfl hjoined.symm,hmarked⟩

/-- What is taken away of a text, and what of a reply with its summary. -/
theorem summary_stripped (text reply : String) (calls : List SummarisedCall) (behind : Option String) :
    (¬ Marked text → stripToolCallSummary text = text) ∧
      (¬ Marked (stripToolCallSummary text) ∧
          stripToolCallSummary (stripToolCallSummary text) = stripToolCallSummary text ↔ ¬ MarkedAgain text) ∧
      (OnlySummary reply calls behind ↔ Readable reply calls (behind.getD "")) := by
  refine ⟨strip_of_not_marked,?_,onlySummary_iff reply calls behind⟩
  rw [marked_strip]
  exact ⟨And.left,fun h => ⟨h,strip_of_not_marked (mt marked_strip.mp h)⟩⟩

def listingCall : SummarisedCall :=
  ⟨⟨"call","run_command",none,"completed",some 0,"a\nb",none,none⟩,some "ls"⟩

def shortCall : SummarisedCall := { listingCall with output := "a" }

/-- The second line of an output is left in the reply, and a list behind the summary is taken away. -/
theorem summary_left : stripToolCallSummary (summarised "结论" [listingCall] none) = "结论\n\nb" ∧
    ¬ OnlySummary "结论" [listingCall] none ∧
    stripToolCallSummary (summarised "结论" [shortCall] (some "- 一")) = "结论" := by
  have hlines : lines listingCall.item = ["- `ls` → 退出码 0，输出：a","b"] := by decide +kernel
  refine ⟨by decide +kernel,fun honly => ?_,by decide +kernel⟩
  have hitems := ((onlySummary_iff _ _ _).mp honly).items listingCall (mem_singleton_self _)
  rw [hlines] at hitems
  exact absurd (hitems "b" (by simp)) (by decide)

end

end Mxterm.Agent
