import Mxterm.AiSearch
import Mxterm.Paging
import Mxterm.WebFetch

/-! The pages in which the agent's tools hand out texts and search results. -/
namespace Mxterm.AgentPages

open Paging List

def clamp (low high value : ℕ) : ℕ := max low (min value high)

/-! ## Attachments -/

structure AttachmentView where
  offset : ℕ
  total : ℕ
  lines : List String
  value : String
  nextOffset : ℕ

/-- The part of a text attachment that `read_attachment` is asked for; the offset in the request counts from one. -/
def readAttachment (content : String) (offset limit : Option ℕ) : AttachmentView :=
  let lines := Text.lines content
  let offset := max (offset.getD 1) 1 - 1
  let limit := clamp 1 2000 (limit.getD 200)
  let page := (lines.drop offset).take limit
  let value := Text.join page
  ⟨offset,lines.length,page,value,offset + (Text.lines value).length⟩

/-- The lines from a place on, and the place of the offset that is named. -/
def attachmentPage (content : String) (place : ℕ) (limit : Option ℕ) : Page String :=
  let view := readAttachment content (some (place + 1)) limit
  ⟨view.lines,announced view.total view.nextOffset⟩

/-! ## Outputs -/

structure OutputView where
  start : ℕ
  total : ℕ
  value : List Char
  next : ℕ

def maxModelOutputChars : ℕ := 12000

def readToolOutput (content : String) (start limit : Option ℕ) : OutputView :=
  let start := start.getD 0
  let limit := clamp 1 (maxModelOutputChars * 4) (limit.getD maxModelOutputChars)
  let value := (content.toList.drop start).take limit
  ⟨start,content.toList.length,value,start + value.length⟩

def outputPage (content : String) (place : ℕ) (limit : Option ℕ) : Page Char :=
  let view := readToolOutput content (some place) limit
  ⟨view.value,announced view.total view.next⟩

/-! ## Lines of a file -/

/-- The lines that `slice_text_lines` takes, with whether they are a part and how many there are. -/
def sliceTextLines (content : String) (offset limit : Option ℕ) : List String × Bool × ℕ :=
  let lines := Text.lines content
  let total := lines.length
  let start := max (offset.getD 1) 1 - 1
  let stop := min ((limit.map fun value => start + max value 1).getD total) total
  let partly := decide (0 < start ∨ stop < total)
  (if total ≤ start then [] else (lines.drop start).take (stop - start),partly,total)

/-- A reader that was told the total goes on behind the lines it asked for. -/
def linesPage (content : String) (place : ℕ) (limit : Option ℕ) : Page String :=
  let (lines,_,total) := sliceTextLines content (some (place + 1)) limit
  ⟨lines,limit.bind fun value => announced total (place + max value 1)⟩

/-! ## Entries and web pages -/

def entriesPage (data : AiSearch.SearchData) (tool : String) (options : AiSearch.SearchOptions) (engine : String)
    (warnings : List String) (place limit : ℕ) : Page AiSearch.SearchEntry :=
  let page := data.page tool { options with offset := place, limit } engine warnings
  ⟨page.entries,page.nextOffset⟩

/-- The characters of a web page's text that `fetch` tells. -/
def fetchPage (text : String) (place : ℕ) (maxChars : Option ℕ) : Page Char :=
  let maxChars := clamp 200 WebFetch.maxFetchChars (maxChars.getD WebFetch.defaultFetchChars)
  let content := (text.toList.drop place).take maxChars
  ⟨content,announced text.length (place + content.length)⟩

/-! ## What the pages bring -/

section
variable {content : String} {limits : ℕ → Option ℕ}

/-- A text joined from lines has one line less when the last of them is empty. -/
theorem length_lines_join {ls : List String} (hnewline : ∀ line ∈ ls, '\n' ∉ line.toList) :
    (Text.lines (Text.join ls)).length = if ls.getLast? = some "" then ls.length - 1 else ls.length := by
  cases ls with
  | nil => rfl
  | cons first ls =>
    have hpieces : (Text.join (first :: ls)).toList.splitOn '\n' = (first :: ls).map String.toList := by
      rw [Text.join,String.toList_ofList,splitOn_intercalate _ (by simpa using hnewline) (by simp)]
    have hlast : ((first :: ls).map String.toList).getLast? = (first :: ls).getLast?.map String.toList :=
      getLast?_map
    obtain ⟨last,hsome⟩ : ∃ last, (first :: ls).getLast? = some last :=
      ⟨_,getLast?_eq_some_getLast (by simp)⟩
    rw [Text.lines]
    simp only [hpieces,hlast,hsome,length_map,length_append,length_dropLast,Option.map_some,
      Option.some.injEq]
    by_cases hempty : last = ""
    · subst hempty
      simp
    · have hne : last.toList ≠ [] := by simpa using hempty
      simp [hne,hempty]

def attachmentSize (limit : Option ℕ) : ℕ := clamp 1 2000 (limit.getD 200)

def outputSize (limit : Option ℕ) : ℕ := clamp 1 (maxModelOutputChars * 4) (limit.getD maxModelOutputChars)

def charsSize (maxChars : Option ℕ) : ℕ :=
  clamp 200 WebFetch.maxFetchChars (maxChars.getD WebFetch.defaultFetchChars)

theorem le_clamp (low high value : ℕ) : low ≤ clamp low high value := Nat.le_max_left _ _

/-- Some page of an attachment ends with an empty line. -/
def EndsEmpty (content : String) (limits : ℕ → Option ℕ) : Prop :=
  ∃ k, Due attachmentSize limits (Text.lines content).length k ∧
    (((Text.lines content).drop (bound attachmentSize limits (Text.lines content).length k)).take
      (attachmentSize (limits k))).getLast? = some ""

theorem attachmentPage_eq (place : ℕ) (limit : Option ℕ) : attachmentPage content place limit =
    let page := ((Text.lines content).drop place).take (attachmentSize limit)
    ⟨page,announced (Text.lines content).length
      (place + if page.getLast? = some "" then page.length - 1 else page.length)⟩ := by
  have hplace : max ((some (place + 1)).getD 1) 1 - 1 = place := by
    rw [Option.getD_some]
    omega
  simp only [attachmentPage,readAttachment,hplace]
  rw [length_lines_join]
  · rfl
  · exact fun line hline =>
      Text.newline_not_mem_of_mem_lines (mem_of_mem_drop (mem_of_mem_take hline))

/-- How many units there are on a page that begins at a place. -/
theorem length_page {α : Type} {units : List α} {place n : ℕ} (hplace : place ≤ units.length) :
    place + ((units.drop place).take n).length = min (place + n) units.length := by
  rw [length_take,length_drop]
  omega

theorem attachment_readsOnce_iff :
    ReadsOnce (attachmentPage content) limits (Text.lines content) ↔ ¬ EndsEmpty content limits := by
  have hsize (limit : Option ℕ) : 0 < attachmentSize limit := le_clamp _ _ _
  rw [readsOnce_iff hsize fun k => by rw [attachmentPage_eq]]
  rw [EndsEmpty,not_exists]
  apply forall_congr'
  intro k
  rw [not_and]
  apply imp_congr_right
  intro hdue
  have hbound (i : ℕ) : bound attachmentSize limits (Text.lines content).length i ≤ (Text.lines content).length :=
    bound_le i
  have hlength : bound attachmentSize limits (Text.lines content).length k +
      (((Text.lines content).drop (bound attachmentSize limits (Text.lines content).length k)).take
        (attachmentSize (limits k))).length =
      bound attachmentSize limits (Text.lines content).length (k + 1) := length_page (hbound k)
  rw [attachmentPage_eq]
  dsimp only
  generalize ((Text.lines content).drop (bound attachmentSize limits (Text.lines content).length k)).take
    (attachmentSize (limits k)) = page at *
  have hle := hbound k
  have hend := hbound (k + 1)
  generalize bound attachmentSize limits (Text.lines content).length (k + 1) = next at *
  by_cases hempty : page.getLast? = some ""
  · have hpos : 0 < page.length := length_pos_of_ne_nil fun hnil => by simp [hnil] at hempty
    rw [if_pos hempty,announced,announced,if_pos (by omega)]
    refine iff_of_false ?_ (not_not.mpr hempty)
    split_ifs
    · rw [Option.some.injEq]
      omega
    · exact not_false
  · rw [if_neg hempty,hlength]
    exact iff_of_true rfl hempty

/-- Pages that are cut where the last one ended, and say so, are read once. -/
theorem readsOnce_of_cut {α l : Type} {page : ℕ → l → Page α} {limits : ℕ → l} {units : List α}
    {size : l → ℕ}
    (hsize : ∀ a, 0 < size a)
    (hpage : ∀ place a, place ≤ units.length → page place a =
      ⟨(units.drop place).take (size a),announced units.length (min (place + size a) units.length)⟩) :
    ReadsOnce page limits units := by
  apply (readsOnce_iff hsize fun k => by rw [hpage _ _ (bound_le k)]).mpr
  intro k _
  rw [hpage _ _ (bound_le k)]
  rfl

theorem output_readsOnce : ReadsOnce (outputPage content) limits content.toList := by
  have hsize (limit : Option ℕ) : 0 < outputSize limit := le_clamp _ _ _
  apply readsOnce_of_cut hsize
  intro place limit hplace
  exact congrArg (Page.mk _) (congrArg (announced _) (length_page hplace))

theorem fetch_readsOnce : ReadsOnce (fetchPage content) limits content.toList := by
  have hsize (maxChars : Option ℕ) : 0 < charsSize maxChars := Nat.lt_of_lt_of_le (by decide) (le_clamp _ _ _)
  apply readsOnce_of_cut hsize
  intro place limit hplace
  exact congrArg (Page.mk _) (congrArg (announced _) (length_page hplace))

def linesSize (total : ℕ) (limit : Option ℕ) : ℕ := (limit.map fun value => max value 1).getD (max total 1)

theorem sliceTextLines_fst {place : ℕ} (limit : Option ℕ) :
    (sliceTextLines content (some (place + 1)) limit).1 =
      ((Text.lines content).drop place).take (linesSize (Text.lines content).length limit) := by
  have hstart : max ((some (place + 1)).getD 1) 1 - 1 = place := by
    rw [Option.getD_some]
    omega
  simp only [sliceTextLines,hstart]
  split_ifs with hend
  · rw [drop_eq_nil_of_le hend,take_nil]
  · rw [take_eq_take_iff,length_drop]
    cases limit with
    | none =>
      simp only [linesSize,Option.map_none,Option.getD_none]
      omega
    | some value =>
      simp only [linesSize,Option.map_some,Option.getD_some]
      omega

theorem announced_min (total place : ℕ) : announced total (min place total) = announced total place := by
  rw [announced,announced]
  by_cases h : place < total
  · rw [Nat.min_eq_left (Nat.le_of_lt h)]
  · rw [Nat.min_eq_right (Nat.not_lt.mp h),if_neg (Nat.lt_irrefl _),if_neg h]

theorem lines_readsOnce : ReadsOnce (linesPage content) limits (Text.lines content) := by
  have hsize (limit : Option ℕ) : 0 < linesSize (Text.lines content).length limit := by
    cases limit <;> simp [linesSize]
  apply readsOnce_of_cut hsize
  · intro place limit hplace
    have hnext : (limit.bind fun value => announced (Text.lines content).length (place + max value 1)) =
        announced (Text.lines content).length (place + linesSize (Text.lines content).length limit) := by
      cases limit with
      | none =>
        rw [announced,if_neg]
        · rfl
        · simp only [linesSize,Option.map_none,Option.getD_none]
          omega
      | some value => rfl
    rw [announced_min,← hnext,← sliceTextLines_fst limit]
    rfl

def entriesSize (total limit : ℕ) : ℕ := if limit = 0 then max total 1 else limit

/-- All the entries, in the form and the order in which they are listed. -/
def listed (data : AiSearch.SearchData) (tool : String) (options : AiSearch.SearchOptions) :
    List AiSearch.SearchEntry :=
  match (if tool = "glob" then .filesWithMatches else options.outputMode : AiSearch.OutputMode) with
  | .content => data.entries.mergeSort AiSearch.SearchEntry.before
  | .filesWithMatches =>
    (AiSearch.Counts.inOrder data.counts).map fun entry : String × ℕ => AiSearch.SearchEntry.file entry.1 none
  | .count =>
    (AiSearch.Counts.inOrder data.counts).map fun entry : String × ℕ =>
      AiSearch.SearchEntry.file entry.1 (some entry.2)

theorem entriesPage_eq (data : AiSearch.SearchData) (tool : String) (options : AiSearch.SearchOptions) (engine : String)
    (warnings : List String) (place limit : ℕ) :
    entriesPage data tool options engine warnings place limit =
      let entries := listed data tool options
      let stop := if limit = 0 then entries.length else min (place + limit) entries.length
      ⟨(entries.drop place).take (stop - place),announced entries.length stop⟩ := by
  simp only [entriesPage,AiSearch.SearchData.page,decide_eq_true_eq]
  rfl

theorem entries_readsOnce (data : AiSearch.SearchData) (tool : String) (options : AiSearch.SearchOptions)
    (engine : String) (warnings : List String) (limits : ℕ → ℕ) :
    ReadsOnce (entriesPage data tool options engine warnings) limits
      (entriesPage data tool options engine warnings 0 0).units := by
  have hentries := entriesPage_eq data tool options engine warnings
  generalize listed data tool options = entries at hentries
  have hall : (entriesPage data tool options engine warnings 0 0).units = entries := by
    rw [hentries]
    simp
  rw [hall]
  have hsize (limit : ℕ) : 0 < entriesSize entries.length limit := by
    rw [entriesSize]
    split_ifs <;> omega
  apply readsOnce_of_cut hsize
  · intro place limit hplace
    have hstop : (if limit = 0 then entries.length else min (place + limit) entries.length) =
        min (place + entriesSize entries.length limit) entries.length := by
      rw [entriesSize]
      split_ifs <;> omega
    rw [hentries]
    dsimp only
    rw [hstop]
    congr 1
    rw [take_eq_take_iff,length_drop]
    omega

end

end Mxterm.AgentPages
