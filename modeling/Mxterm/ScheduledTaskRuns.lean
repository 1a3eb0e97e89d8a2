import Mxterm.ScheduledTaskEdits
import Mxterm.ScheduledTaskLogs

/-! What is shown of the last run of a scheduled task, from the log that its runs have written
(`scheduled_tasks.rs`). -/
namespace Mxterm.ScheduledTasks

open Utf8

open Markers hiding none read

open List Text

/-! ## What the runs write -/

/-- What `date` prints: one line, without a word that reads as an exit code. -/
structure LogDate where
  text : String
  oneLine : '\n' ∉ text.toList
  noExit : ∀ word ∈ splitWhitespace text, stripPrefix "exit=" word = none

/-- A run, and its output, in which no line is a marker. -/
structure TaskRun where
  started : LogDate
  output : List UInt8
  noMarkers : ∀ line ∈ linesOf output, isMarker line = false

/-- The end of a run. -/
structure Ending where
  date : LogDate
  exitCode : UInt8

def startText (date : LogDate) : String := logStartMarker ++ " " ++ date.text

def endText (ending : Ending) : String :=
  logEndMarker ++ (" " ++ ending.date.text ++ " " ++ ("exit=" ++ toString ending.exitCode.toNat))

/-- What the wrapper writes behind the output of a run that has ended. -/
def endBytes : Option Ending → List UInt8
  | none => []
  | some ending => encode (endText ending ++ "\n")

def TaskRun.written (run : TaskRun) (ending : Option Ending) : List UInt8 :=
  encode (startText run.started ++ "\n") ++ (run.output ++ endBytes ending)

/-- The log of runs that have ended, and of one more that has ended or not. -/
def logFile (earlier : List (TaskRun × Ending)) (last : TaskRun) (ending : Option Ending) : List UInt8 :=
  (earlier.map fun run => run.1.written (some run.2)).flatten ++ last.written ending

/-! ## What is promised -/

/-- The lines that the runs before the last one have written. -/
def earlierLines (earlier : List (TaskRun × Ending)) : List String :=
  linesOf (earlier.map fun run => run.1.written (some run.2)).flatten

/-- The lines that the last run has written behind its start marker. -/
def lastLines (last : TaskRun) (ending : Option Ending) : List String := linesOf (last.output ++ endBytes ending)

def statusOf : Option Ending → String
  | none => "running"
  | some ending => if ending.exitCode = 0 then "success" else "failed"

/-- What is shown is the last run: its status, its exit code, and lines of its own. -/
def ShowsLast (earlier : List (TaskRun × Ending)) (last : TaskRun) (ending : Option Ending) : Prop :=
  ∃ entry, readTaskLog (some 0) (tailLines 80 (logFile earlier last ending)) = some entry ∧
    entry.status = statusOf ending ∧ entry.exitCode = ending.map (fun ending => (ending.exitCode.toNat : ℤ)) ∧
    ∃ lines, List.Sublist lines ((lastLines last ending).filter fun line => ! isMarker line) ∧
      entry.outputPreview = preview lines

/-- The end of a run that has ended stands at the beginning of a line, and the start of a run that has not ended is
among the last 80 lines. -/
def MarkSeen (last : TaskRun) (ending : Option Ending) : Prop :=
  match ending with
  | none => (lastLines last none).length < 80
  | some ending => ∃ line ∈ lastLines last (some ending), startsWith line logEndMarker = true

/-- A line of an output that is not blank. -/
def isPlain (line : String) : Bool := ! isMarker line && ! isBlankLine line

/-- The lines of earlier runs among the last 80 lines. -/
def visibleLines (earlier : List (TaskRun × Ending)) (last : TaskRun) (ending : Option Ending) : List String :=
  let lines := earlierLines earlier
  lines.drop (lines.length - (79 - (lastLines last ending).length))

/-- The last run has printed a line, or no line of an earlier run is in sight. -/
def PreviewOwn (earlier : List (TaskRun × Ending)) (last : TaskRun) (ending : Option Ending) : Prop :=
  (∃ line ∈ lastLines last ending, isPlain line = true) ∨
    ∀ line ∈ visibleLines earlier last ending, isFallback line = false

/-! ## Markers at the beginning of a line -/

section
variable {p : Char → Bool} {front rest : List Char} {line marker : String}

theorem prefix_rdropWhile (h : ∀ c ∈ front, p c = false) : front <+: (front ++ rest).rdropWhile p := by
  have hfront : front.reverse.dropWhile p = front.reverse := by
    cases hrev : front.reverse with
    | nil => rfl
    | cons c cs =>
      have hc := h c (mem_reverse.mp (hrev ▸ mem_cons_self))
      exact dropWhile_cons_of_neg (by simp [hc])
  rw [List.rdropWhile,reverse_append,dropWhile_append]
  split_ifs
  · have hsame : (front.reverse.dropWhile p).reverse = front := by rw [hfront,reverse_reverse]
    exact hsame.symm ▸ prefix_rfl
  · rw [reverse_append,reverse_reverse]
    exact prefix_append _ _

theorem startsWith_iff : startsWith line marker = true ↔ marker.toList <+: line.toList := by
  rw [startsWith, isPrefixOf_iff_prefix]

theorem startsWith_trimReturns (hmarker : marker.toList.all (· ≠ '\r') = true)
    (h : startsWith line marker = true) : startsWith (trimReturns line) marker = true := by
  obtain ⟨rest,hline⟩ := startsWith_iff.mp h
  rw [startsWith_iff,trimReturns,String.toList_ofList,← hline]
  apply prefix_rdropWhile
  simpa using hmarker

theorem startsWith_trim (hmarker : marker.toList.all (fun c => ! isWhitespace c) = true)
    (hne : marker.toList ≠ []) (h : startsWith line marker = true) :
    startsWith (trim line) marker = true := by
  obtain ⟨rest,hline⟩ := startsWith_iff.mp h
  have hall : ∀ c ∈ marker.toList, isWhitespace c = false := by simpa using hmarker
  have hkept : line.toList.dropWhile isWhitespace = line.toList := by
    obtain ⟨c,cs,hcons⟩ := exists_cons_of_ne_nil hne
    rw [← hline,hcons]
    exact dropWhile_cons_of_neg (by simp [hall c (hcons ▸ mem_cons_self)])
  rw [startsWith_iff,trim_toList,hkept,← hline]
  exact prefix_rdropWhile hall

theorem isMarker_trim (h : isMarker line = true) : isMarker (trim line) = true := by
  rw [isMarker,Bool.or_eq_true] at h ⊢
  exact h.imp (startsWith_trim (by decide) (by decide)) (startsWith_trim (by decide) (by decide))

theorem isPlain_of_isFallback (h : isFallback line = true) : isPlain line = true := by
  simp only [isFallback,isPlain,Bool.and_eq_true,Bool.not_eq_true'] at h ⊢
  refine ⟨?_,h.1⟩
  by_contra hmarker
  rw [Bool.not_eq_false] at hmarker
  rw [isMarker_trim hmarker] at h
  exact absurd h.2 (by decide)

end

/-! ## The lines of a log -/

section
variable {line text : String} {bytes rest : List UInt8} {last : TaskRun} {ending : Option Ending} {i n : ℕ}

theorem newline_not_mem_encode (h : '\n' ∉ text.toList) : (10 : UInt8) ∉ encode text :=
  fun hmem => h ((mem_encode_ascii (c := '\n') (by decide)).mp hmem)

theorem linesOf_line (h : '\n' ∉ text.toList) (rest : List UInt8) :
    linesOf (encode (text ++ "\n") ++ rest) = trimReturns text :: linesOf rest := by
  have hbytes : encode (text ++ "\n") ++ rest = encode text ++ 10 :: rest := by
    rw [encode_append,append_assoc]
    rfl
  rw [hbytes,linesOf_cons (newline_not_mem_encode h),decodeLossy_encode]

theorem Ended.append (hbytes : Ended bytes) (hrest : Ended rest) : Ended (bytes ++ rest) := by
  rcases hrest with rfl | hlast
  · rwa [append_nil]
  · right
    rw [getLast?_append,hlast]
    rfl

theorem ended_line (text : String) : Ended (encode (text ++ "\n")) := by
  right
  have hnewline : encode "\n" = [10] := rfl
  rw [encode_append,hnewline,getLast?_concat]

theorem ended_earlier (earlier : List (TaskRun × Ending)) :
    Ended (earlier.map fun run => run.1.written (some run.2)).flatten := by
  induction earlier with
  | nil => exact .inl rfl
  | cons run earlier ih =>
    rw [map_cons]
    refine Ended.append ?_ ih
    rw [TaskRun.written,endBytes,← append_assoc]
    right
    have hlast := (ended_line (endText run.2)).resolve_left (by rw [encode_append]; simp [encode])
    rw [getLast?_append,hlast]
    rfl

theorem newline_not_mem_startText (date : LogDate) : '\n' ∉ (startText date).toList := by
  have hmarker : '\n' ∉ (logStartMarker ++ " ").toList := by decide
  rw [startText,String.toList_append,mem_append,not_or]
  exact ⟨hmarker,date.oneLine⟩

/-- The lines of a log: those of the earlier runs, the start of the last one, and its own. -/
theorem linesOf_logFile (earlier : List (TaskRun × Ending)) (last : TaskRun) (ending : Option Ending) :
    linesOf (logFile earlier last ending) =
      earlierLines earlier ++ trimReturns (startText last.started) :: lastLines last ending := by
  rw [logFile,linesOf_append (ended_earlier earlier),TaskRun.written,
    linesOf_line (newline_not_mem_startText last.started),earlierLines,lastLines]

/-- An output is whole lines, and what stands behind the last newline. -/
theorem exists_lastPiece (bytes : List UInt8) :
    ∃ whole piece, bytes = whole ++ piece ∧ Ended whole ∧ (10 : UInt8) ∉ piece := by
  induction bytes with
  | nil => exact ⟨[],[],rfl,.inl rfl,not_mem_nil⟩
  | cons b bytes ih =>
    obtain ⟨whole,piece,rfl,hended,hpiece⟩ := ih
    rcases hended with rfl | hlast
    · by_cases hb : b = 10
      · exact ⟨[b],piece,rfl,.inr (by rw [hb]; rfl),hpiece⟩
      · exact ⟨[],b :: piece,rfl,.inl rfl,by simp [hpiece,Ne.symm hb]⟩
    · have hne : whole ≠ [] := by
        rintro rfl
        cases hlast
      exact ⟨b :: whole,piece,rfl,.inr (by rwa [getLast?_cons_of_ne_nil hne]),hpiece⟩

theorem newline_not_mem_endText (ending : Ending) : '\n' ∉ (endText ending).toList := by
  have hmarker : '\n' ∉ logEndMarker.toList := by decide
  have hcode := newline_not_mem_seconds ending.exitCode.toNat
  simp only [endText,String.toList_append,mem_append,not_or]
  exact ⟨hmarker,⟨⟨by decide,ending.date.oneLine⟩,by decide⟩,by decide,hcode⟩

/-- The end marker is written on the last line of the output, which is empty where the output ends with a newline. -/
theorem lastLines_ended (last : TaskRun) (ending : Ending) : ∃ whole piece,
    (∀ line ∈ whole, isMarker line = false) ∧ (piece = "" ∨ isMarker (trimReturns piece) = false) ∧
      lastLines last (some ending) = whole ++ [trimReturns (piece ++ endText ending)] := by
  obtain ⟨whole,piece,houtput,hended,hpiece⟩ := exists_lastPiece last.output
  have hmarkers := last.noMarkers
  rw [houtput,linesOf_append hended] at hmarkers
  refine ⟨linesOf whole,decodeLossy piece,?_,?_,?_⟩
  · exact fun line hline => hmarkers line (mem_append_left _ hline)
  · by_cases hnil : piece = []
    · left
      rw [hnil]
      rfl
    · right
      apply hmarkers
      rw [linesOf_last hpiece hnil]
      exact mem_append_right _ mem_cons_self
  · have hbytes : piece ++ encode (endText ending ++ "\n") = (piece ++ encode (endText ending)) ++ [10] := by
      rw [encode_append,append_assoc]
      rfl
    have hmem : (10 : UInt8) ∉ piece ++ encode (endText ending) := by
      rw [mem_append,not_or]
      exact ⟨hpiece,newline_not_mem_encode (newline_not_mem_endText ending)⟩
    have hdecode : decodeLossy (piece ++ encode (endText ending)) =
        decodeLossy piece ++ endText ending := by
      obtain ⟨b,more,hcons,hb⟩ : ∃ b more, encode (endText ending) = b :: more ∧ b.toNat < 128 := by
        rw [endText,encode_append]
        exact ⟨95,_,rfl,by decide⟩
      rw [hcons,decodeLossy_append_ascii _ _ hb,← hcons,decodeLossy_encode]
    rw [lastLines,houtput,endBytes,append_assoc,linesOf_append hended,hbytes,linesOf_cons hmem,hdecode,linesOf_nil]

end

/-! ## Reading the markers -/

section
variable {m : Markers} {i : ℕ} {line : String} {lines : List String}

theorem stripPrefix_none {marker : String} (h : startsWith line marker = false) :
    stripPrefix marker line = none := by
  rw [startsWith] at h
  rw [stripPrefix,h]
  rfl

theorem readAll_append (i : ℕ) (m : Markers) (a b : List String) :
    m.readAll i (a ++ b) = (m.readAll i a).readAll (i + a.length) b := by
  induction a generalizing i m with
  | nil => rfl
  | cons line a ih =>
    rw [cons_append,readAll,ih,readAll,length_cons,Nat.add_assoc,Nat.add_comm 1]

theorem readAll_unmarked (h : ∀ line ∈ lines, isMarker line = false) : m.readAll i lines = m := by
  induction lines generalizing i with
  | nil => rfl
  | cons line lines ih =>
    obtain ⟨hline,hlines⟩ := forall_mem_cons.mp h
    rw [isMarker,Bool.or_eq_false_iff] at hline
    rw [readAll,Markers.read,stripPrefix_none hline.1,stripPrefix_none hline.2]
    exact ih hlines

/-- Where no line begins with the end marker, no end is seen. -/
theorem endIndex_readAll (h : ∀ line ∈ lines, startsWith line logEndMarker = false) (hm : m.endIndex = none) :
    (m.readAll i lines).endIndex = none := by
  induction lines generalizing i m with
  | nil => exact hm
  | cons line lines ih =>
    obtain ⟨hline,hlines⟩ := forall_mem_cons.mp h
    apply ih hlines
    rw [Markers.read,stripPrefix_none hline]
    cases stripPrefix logStartMarker line with
    | none => exact hm
    | some rest => rfl

theorem read_start (h : startsWith line logStartMarker = true) :
    ∃ startedAt, m.read i line = ⟨some i,startedAt,none,none⟩ := by
  rw [startsWith] at h
  rw [Markers.read,stripPrefix,if_pos h]
  exact ⟨_,rfl⟩

/-- A line does not begin with both markers. -/
theorem not_start_of_end (h : startsWith line logEndMarker = true) :
    startsWith line logStartMarker = false := by
  obtain ⟨rest,hline⟩ := startsWith_iff.mp h
  rw [startsWith,← hline]
  rfl

theorem read_end {rest : String} (h : line = logEndMarker ++ rest) :
    m.read i line = { m with endIndex := some i, exitCode := parseExitCode rest } := by
  have hend : startsWith line logEndMarker = true := by
    rw [startsWith_iff,h,String.toList_append]
    exact prefix_append _ _
  rw [Markers.read,stripPrefix_none (not_start_of_end hend),h,stripPrefix_append]

/-! ## The lines for the preview -/

theorem previewLines_append (m : Markers) (i : ℕ) (a b : List String) :
    previewLines m i (a ++ b) = previewLines m i a ++ previewLines m (i + a.length) b := by
  induction a generalizing i with
  | nil => rfl
  | cons line a ih =>
    rw [cons_append,previewLines,previewLines,ih,Nat.add_assoc,Nat.add_comm 1]
    split_ifs <;> rfl

theorem previewLines_outside (h : ∀ k < i + lines.length, m.encloses k = false) : previewLines m i lines = [] := by
  induction lines generalizing i with
  | nil => rfl
  | cons line lines ih =>
    rw [length_cons] at h
    rw [previewLines,h i (by omega)]
    simp only [Bool.and_false,Bool.false_and,Bool.false_eq_true,if_false]
    exact ih fun k hk => h k (by omega)

theorem previewLines_inside (h : ∀ k, i ≤ k → k < i + lines.length → m.encloses k = true) :
    previewLines m i lines = lines.filter isPlain := by
  induction lines generalizing i with
  | nil => rfl
  | cons line lines ih =>
    rw [length_cons] at h
    rw [previewLines,h i (Nat.le_refl i) (by omega),ih fun k hk hlt => h k (by omega) (by omega),Bool.and_true,
      filter_cons,isPlain]

theorem previewLines_marker (h : isMarker line = true) : previewLines m i [line] = [] := by
  simp [previewLines,h]

theorem fallbackLines_eq_nil (h : ∀ line ∈ lines, isFallback line = false) : fallbackLines lines = [] := by
  have hnone : lines.reverse.filter isFallback = [] := by
    rw [filter_eq_nil_iff]
    intro line hline
    simp [h line (mem_reverse.mp hline)]
  rw [fallbackLines,hnone]
  rfl

theorem fallbackLines_shown (h : ∃ line ∈ lines, isFallback line = true) :
    ∃ line ∈ fallbackLines lines, isBlankLine line = false := by
  obtain ⟨line,hline,hfallback⟩ := h
  have hmem : line ∈ lines.reverse.filter isFallback := mem_filter.mpr ⟨mem_reverse.mpr hline,hfallback⟩
  cases hlist : lines.reverse.filter isFallback with
  | nil =>
    rw [hlist] at hmem
    cases hmem
  | cons first more =>
    have hfirst : isFallback first = true := of_mem_filter (hlist ▸ mem_cons_self)
    refine ⟨first,?_,?_⟩
    · rw [fallbackLines,hlist]
      simp
    · rw [isFallback,Bool.and_eq_true,Bool.not_eq_true'] at hfirst
      exact hfirst.1

/-! ## Previews -/

/-- The characters of joined lines are those of the lines, and newlines. -/
theorem mem_join {c : Char} (h : c ∈ (join lines).toList) :
    c = '\n' ∨ ∃ line ∈ lines, c ∈ line.toList := by
  rw [join,String.toList_ofList] at h
  induction lines with
  | nil => cases h
  | cons line lines ih =>
    cases lines with
    | nil => exact .inr ⟨line,mem_cons_self,by simpa using h⟩
    | cons next lines =>
      rw [map_cons,map_cons,intercalate_cons_cons,append_assoc,mem_append,mem_append,
        mem_singleton] at h
      rcases h with h | h | h
      · exact .inr ⟨line,mem_cons_self,h⟩
      · exact .inl h
      · obtain hc | ⟨other,hother,hc⟩ := ih h
        · exact .inl hc
        · exact .inr ⟨other,mem_cons_of_mem line hother,hc⟩

theorem mem_join_of_mem {c : Char} (hline : line ∈ lines) (h : c ∈ line.toList) :
    c ∈ (join lines).toList := by
  rw [join,String.toList_ofList]
  induction lines with
  | nil => cases hline
  | cons first lines ih =>
    cases lines with
    | nil =>
      rw [mem_singleton] at hline
      simpa [← hline] using h
    | cons next lines =>
      rw [map_cons,map_cons,intercalate_cons_cons,mem_append]
      rcases mem_cons.mp hline with rfl | hline
      · exact .inl (mem_append_left _ h)
      · exact .inr (ih hline)

theorem isBlankLine_iff : isBlankLine line = true ↔ ∀ c ∈ line.toList, isWhitespace c = true := by
  rw [isBlankLine,decide_eq_true_eq,trim_eq_empty_iff]

theorem preview_blank (h : ∀ line ∈ lines, isBlankLine line = true) : preview lines = "" := by
  have hempty : trim (join lines) = "" := by
    rw [trim_eq_empty_iff]
    intro c hc
    rcases mem_join hc with rfl | ⟨line,hline,hc⟩
    · rfl
    · exact isBlankLine_iff.mp (h line hline) c hc
  rw [preview,hempty]
  rfl

theorem preview_shown (h : ∃ line ∈ lines, isBlankLine line = false) : preview lines ≠ "" := by
  obtain ⟨line,hline,hblank⟩ := h
  have hne : trim (join lines) ≠ "" := by
    intro hempty
    rw [trim_eq_empty_iff] at hempty
    rw [isBlankLine_iff.mpr fun c hc => hempty c (mem_join_of_mem hline hc)] at hblank
    cases hblank
  intro hpreview
  have hchars := congrArg String.toList hpreview
  rw [preview,truncateText,String.toList_append,String.toList_ofList,String.toList_empty,append_eq_nil_iff,
    take_eq_nil_iff] at hchars
  rcases hchars.1 with hzero | hnil
  · cases hzero
  · exact hne (String.toList_eq_nil_iff.mp hnil)

end

/-! ## Exit codes -/

section
variable {ending : Ending} {piece : String}

theorem splitWhitespace_space (a b : String) :
    splitWhitespace (a ++ " " ++ b) = splitWhitespace a ++ splitWhitespace b := by
  have hspace : " ".toList = [' '] := rfl
  rw [splitWhitespace,splitWhitespace,splitWhitespace,String.toList_append,String.toList_append,hspace,
    append_assoc,singleton_append,splitOnP_append_cons _ _ rfl,filter_append,map_append]

theorem digitsValue_toDigits (n : ℕ) : digitsValue (Nat.toDigits 10 n) = some n := by
  have hdigits : (Nat.toDigits 10 n).all (·.isDigit) = true :=
    all_eq_true.mpr fun c hc => Nat.isDigit_of_mem_toDigits (by decide) (by decide) hc
  rw [digitsValue,if_pos ⟨Nat.toDigits_ne_nil,hdigits⟩,Nat.ofDigitChars_ten_toDigits]

theorem parseI32_toString {n : ℕ} (h : n < 2 ^ 31) : parseI32 (toString n) = some (n : ℤ) := by
  have hvalue := digitsValue_toDigits n
  have hdigits : ∀ c ∈ Nat.toDigits 10 n, c.isDigit = true :=
    fun c hc => Nat.isDigit_of_mem_toDigits (by decide) (by decide) hc
  rw [parseI32,Nat.toString_eq_ofList_toDigits,String.toList_ofList]
  split
  · rename_i digits hlist
    exact absurd (hdigits '-' (by simp [hlist])) (by decide)
  · rename_i digits hlist
    exact absurd (hdigits '+' (by simp [hlist])) (by decide)
  · rw [hvalue]
    simp only [Option.map_some,Int.ofNat_eq_natCast,Option.filter_some]
    rw [if_pos]
    simp only [decide_eq_true_eq]
    omega

theorem splitWhitespace_word {word : String} (hne : word ≠ "")
    (h : ∀ c ∈ word.toList, isWhitespace c = false) : splitWhitespace word = [word] := by
  have hlist : word.toList ≠ [] := fun hnil => hne (String.toList_eq_nil_iff.mp hnil)
  rw [splitWhitespace,splitOnP_eq_singleton h]
  simp [hlist]

/-- The exit code is read behind the end marker, whatever part of the marker stands in front of it. -/
theorem parseExitCode_endText (front : String) (hfront : ∀ c ∈ front.toList, c ∈ logEndMarker.toList) :
    parseExitCode (front ++ (" " ++ ending.date.text ++ " " ++ ("exit=" ++ toString ending.exitCode.toNat))) =
      some (ending.exitCode.toNat : ℤ) := by
  have hmarker : logEndMarker.toList.all (fun c => ! isWhitespace c && c != 'e') = true := by decide
  have hnone : (splitWhitespace front).findSome? (stripPrefix "exit=") = none := by
    by_cases hempty : front = ""
    · rw [hempty]
      rfl
    · have hchars : ∀ c ∈ front.toList, isWhitespace c = false ∧ c ≠ 'e' := by
        intro c hc
        simpa using all_eq_true.mp hmarker c (hfront c hc)
      have hprefix : startsWith front "exit=" = false := by
        by_contra hstarts
        obtain ⟨rest,hrest⟩ := startsWith_iff.mp (Bool.not_eq_false _ ▸ hstarts)
        exact (hchars 'e' (by rw [← hrest]; simp)).2 rfl
      rw [splitWhitespace_word hempty fun c hc => (hchars c hc).1]
      simp [stripPrefix_none hprefix]
  have hdate : (splitWhitespace ending.date.text).findSome? (stripPrefix "exit=") = none :=
    findSome?_eq_none_iff.mpr ending.date.noExit
  have hcode : splitWhitespace ("exit=" ++ toString ending.exitCode.toNat) =
      ["exit=" ++ toString ending.exitCode.toNat] := by
    apply splitWhitespace_word
    · simp
    · intro c hc
      rw [String.toList_append,mem_append] at hc
      rcases hc with hc | hc
      · have hletters : ("exit=".toList).all (fun c => ! isWhitespace c) = true := by decide
        simpa using all_eq_true.mp hletters c hc
      · exact (digit_char (digits_of_seconds _ c hc)).1
  have hsplit : front ++ (" " ++ ending.date.text ++ " " ++ ("exit=" ++ toString ending.exitCode.toNat)) =
      front ++ " " ++ (ending.date.text ++ " " ++ ("exit=" ++ toString ending.exitCode.toNat)) := by
    simp only [String.append_assoc]
  have hlt := ending.exitCode.toNat_lt
  rw [parseExitCode,hsplit,splitWhitespace_space,splitWhitespace_space,findSome?_append,hnone,
    findSome?_append,hdate,hcode]
  simp only [Option.none_or,findSome?_cons,stripPrefix_append,Option.bind_some]
  exact parseI32_toString (by omega)

theorem trimReturns_endText (piece : String) (ending : Ending) :
    trimReturns (piece ++ endText ending) = piece ++ endText ending := by
  apply trimReturns_of_last
  have hdigits := digits_of_seconds ending.exitCode.toNat
  have hne : (toString ending.exitCode.toNat).toList ≠ [] :=
    fun hnil => seconds_ne_empty _ (String.toList_eq_nil_iff.mp hnil)
  rw [endText,← String.append_assoc,← String.append_assoc,← String.append_assoc,String.toList_append,
    getLast?_append_of_ne_nil _ hne,getLast?_eq_some_getLast hne]
  intro hreturn
  have hdigit := hdigits _ (getLast_mem hne)
  rw [Option.some.inj hreturn] at hdigit
  cases hdigit

/-- An end marker that begins its line is read with the exit code. -/
theorem read_endText {m : Markers} {i : ℕ} (hpiece : piece = "" ∨ isMarker (trimReturns piece) = false)
    (h : startsWith (trimReturns (piece ++ endText ending)) logEndMarker = true) :
    m.read i (trimReturns (piece ++ endText ending)) =
      { m with endIndex := some i, exitCode := some (ending.exitCode.toNat : ℤ) } := by
  rw [trimReturns_endText] at h ⊢
  let tail := " " ++ ending.date.text ++ " " ++ ("exit=" ++ toString ending.exitCode.toNat)
  have hline : (piece ++ endText ending).toList = (piece.toList ++ logEndMarker.toList) ++ tail.toList := by
    rw [endText,String.toList_append,String.toList_append,append_assoc]
  obtain ⟨rest,hrest⟩ := startsWith_iff.mp h
  have hshort : piece.toList.length ≤ logEndMarker.toList.length := by
    by_contra hlong
    have hprefix : logEndMarker.toList <+: piece.toList := by
      refine prefix_of_prefix_length_le ⟨rest,hrest⟩ ?_ (by omega)
      rw [String.toList_append]
      exact prefix_append _ _
    rcases hpiece with rfl | hmarker
    · exact hlong (Nat.zero_le _)
    · have hstarts := startsWith_trimReturns (by decide) (startsWith_iff.mpr hprefix)
      rw [isMarker,hstarts,Bool.or_true] at hmarker
      cases hmarker
  let front := String.ofList (logEndMarker.toList.drop (logEndMarker.toList.length - piece.toList.length))
  have hsplit : piece ++ endText ending = logEndMarker ++ (front ++ tail) := by
    have hdrop := congrArg (List.drop logEndMarker.toList.length) hrest
    rw [drop_left,hline,drop_append_of_le_length (by simp),drop_append,
      drop_eq_nil_of_le hshort,nil_append] at hdrop
    apply String.toList_injective
    refine hrest.symm.trans ?_
    rw [String.toList_append,String.toList_append,String.toList_ofList,← hdrop]
  rw [read_end hsplit,parseExitCode_endText]
  intro c hc
  rw [String.toList_ofList] at hc
  exact mem_of_mem_drop hc

end

/-! ## The last 80 lines -/

section
variable {earlier : List (TaskRun × Ending)} {last : TaskRun} {ending : Option Ending}

/-- The lines that are read. -/
def window (earlier : List (TaskRun × Ending)) (last : TaskRun) (ending : Option Ending) : List String :=
  linesOf (tailLines 80 (logFile earlier last ending))

/-- The start of the last run is in sight, with all that follows it. -/
theorem window_visible (earlier : List (TaskRun × Ending)) (h : (lastLines last ending).length < 80) :
    window earlier last ending =
      visibleLines earlier last ending ++ trimReturns (startText last.started) :: lastLines last ending := by
  have hcut (a : ℕ) : a + ((lastLines last ending).length + 1) - 80 = a - (79 - (lastLines last ending).length) := by
    omega
  rw [window,linesOf_tailLines,linesOf_logFile,visibleLines,length_append,length_cons,hcut,
    drop_append_of_le_length (Nat.sub_le _ _)]

/-- Only lines of the last run are in sight. -/
theorem window_hidden (earlier : List (TaskRun × Ending)) (h : 80 ≤ (lastLines last ending).length) :
    window earlier last ending =
      (lastLines last ending).drop ((lastLines last ending).length - 80) := by
  rw [window,linesOf_tailLines,linesOf_logFile,length_append,length_cons,drop_append,
    drop_eq_nil_of_le (by omega),nil_append]
  have hskip : (earlierLines earlier).length + ((lastLines last ending).length + 1) - 80 -
      (earlierLines earlier).length = (lastLines last ending).length - 80 + 1 := by omega
  rw [hskip,drop_succ_cons]

theorem visible_nil (h : 80 ≤ (lastLines last ending).length) : visibleLines earlier last ending = [] := by
  apply drop_eq_nil_of_le
  omega

theorem isMarker_startText (date : LogDate) :
    startsWith (trimReturns (startText date)) logStartMarker = true := by
  apply startsWith_trimReturns (by decide)
  rw [startsWith_iff,startText,String.append_assoc,String.toList_append]
  exact prefix_append _ _

/-- What is read where the start of the last run is in sight. -/
theorem readAll_visible (earlier : List (TaskRun × Ending)) (h : (lastLines last ending).length < 80) : ∃ startedAt,
    Markers.none.readAll 0 (window earlier last ending) =
      readAll ((visibleLines earlier last ending).length + 1)
        ⟨some (visibleLines earlier last ending).length,startedAt,none,none⟩ (lastLines last ending) := by
  obtain ⟨startedAt,hstart⟩ := read_start (m := Markers.none.readAll 0 (visibleLines earlier last ending))
    (i := (visibleLines earlier last ending).length) (isMarker_startText last.started)
  refine ⟨startedAt,?_⟩
  rw [window_visible earlier h,readAll_append,readAll,Nat.zero_add,hstart]

theorem status_ended (m : Markers) (e : Ending) (i : ℕ) : status
    { m with endIndex := some i, exitCode := some (e.exitCode.toNat : ℤ) } = statusOf (some e) := by
  by_cases hzero : e.exitCode = 0
  · rw [statusOf,hzero]
    cases m.startIndex <;> rfl
  · have hne : (e.exitCode.toNat : ℤ) ≠ 0 := by
      intro h
      exact hzero (UInt8.toNat_inj.mp (by simpa using h))
    rw [statusOf]
    cases m.startIndex <;> simp_all

/-- Where no end is seen, nothing is said to have ended. -/
theorem status_open {m : Markers} (h : m.endIndex = none) (e : Ending) : m.status ≠ statusOf (some e) := by
  have hstatus : m.status = "running" ∨ m.status = "unknown" := by
    rw [status,h]
    cases m.startIndex with
    | none => exact .inr rfl
    | some start => exact .inl rfl
  rw [statusOf]
  rcases hstatus with h | h <;> rw [h] <;> split_ifs <;> decide

/-! ## What is shown -/

variable {line : String}

theorem isBlankLine_of_isMarker (h : isMarker line = true) : isBlankLine line = false := by
  have htrim := isMarker_trim h
  by_contra hblank
  rw [Bool.not_eq_false,isBlankLine,decide_eq_true_eq] at hblank
  rw [hblank] at htrim
  exact absurd htrim (by decide)

theorem isMarker_start (date : LogDate) : isMarker (trimReturns (startText date)) = true := by
  rw [isMarker,isMarker_startText]
  rfl

variable {e : Ending}

/-- The lines of a run that has ended, as far as they are in sight: its end is read where the marker begins its line. -/
theorem seen_ended (hseen : MarkSeen last (some e)) {hidden shown : List String}
    (hlines : lastLines last (some e) = hidden ++ shown) (hne : shown ≠ []) : ∃ whole text,
      shown = whole ++ [text] ∧ (∀ line ∈ whole, isMarker line = false) ∧ isMarker text = true ∧
      ∀ (m : Markers) (i : ℕ), m.readAll i shown =
        { m with endIndex := some (i + whole.length), exitCode := some (e.exitCode.toNat : ℤ) } := by
  obtain ⟨all,piece,hall,hpiece,heq⟩ := lastLines_ended last e
  obtain ⟨whole,text,rfl⟩ : ∃ whole text, shown = whole ++ [text] := by
    rw [← dropLast_append_getLast hne]
    exact ⟨_,_,rfl⟩
  rw [hlines,← append_assoc] at heq
  obtain ⟨hfront,htext⟩ := append_inj' heq rfl
  have hwhole : ∀ line ∈ whole, isMarker line = false :=
    fun line hline => hall line (hfront ▸ mem_append_right _ hline)
  have hmarker : startsWith text logEndMarker = true := by
    obtain ⟨line,hline,hmarker⟩ := hseen
    rw [hlines,← append_assoc,hfront,mem_append] at hline
    rcases hline with hline | hline
    · have hnone := hall line hline
      rw [isMarker,hmarker,Bool.or_true] at hnone
      cases hnone
    · rwa [mem_singleton.mp hline] at hmarker
  refine ⟨whole,text,rfl,hwhole,by rw [isMarker,hmarker,Bool.or_true],fun m i => ?_⟩
  rw [singleton_inj.mp htext] at hmarker ⊢
  rw [readAll_append,readAll_unmarked hwhole,readAll,read_endText hpiece hmarker,readAll]

theorem lastLines_ne_nil (last : TaskRun) (e : Ending) : lastLines last (some e) ≠ [] := by
  obtain ⟨whole,piece,-,-,hlines⟩ := lastLines_ended last e
  rw [hlines]
  simp

theorem unmarked_unfinished (last : TaskRun) : ∀ line ∈ lastLines last none, isMarker line = false := by
  have hlines : lastLines last none = linesOf last.output := by rw [lastLines,endBytes,append_nil]
  rw [hlines]
  exact last.noMarkers

/-- What is read of a run whose start is in sight. -/
theorem visible_run (earlier : List (TaskRun × Ending)) (hseen : MarkSeen last ending)
    (h : (lastLines last ending).length < 80) : ∃ m,
    Markers.none.readAll 0 (window earlier last ending) = m ∧ m.status = statusOf ending ∧
      m.exitCode = ending.map (fun ending => (ending.exitCode.toNat : ℤ)) ∧
      previewLines m 0 (window earlier last ending) = (lastLines last ending).filter isPlain := by
  obtain ⟨startedAt,hread⟩ := readAll_visible earlier h
  let start := (visibleLines earlier last ending).length
  have hpreview {m : Markers} (hstart : m.startIndex = some start) :
      previewLines m 0 (window earlier last ending) = previewLines m (start + 1) (lastLines last ending) := by
    have hbefore : previewLines m 0 (visibleLines earlier last ending) = [] := by
      apply previewLines_outside
      intro k hk
      have hle : ¬ start < k := by omega
      simp [encloses,hstart,hle]
    rw [window_visible earlier h,previewLines_append,hbefore,nil_append,Nat.zero_add,
      ← singleton_append,previewLines_append,previewLines_marker (isMarker_start last.started),
      nil_append,length_singleton]
  cases ending with
  | none =>
    rw [readAll_unmarked (unmarked_unfinished last)] at hread
    refine ⟨_,hread,rfl,rfl,?_⟩
    rw [hpreview rfl]
    apply previewLines_inside
    intro k hk _
    have hlt : start < k := by omega
    simp [encloses,start,hlt]
  | some e =>
    obtain ⟨whole,text,hlines,hwhole,hmarker,hended⟩ :=
      seen_ended hseen (nil_append (lastLines last (some e))).symm (lastLines_ne_nil last e)
    rw [hended] at hread
    refine ⟨_,hread,status_ended _ e _,rfl,?_⟩
    have hplain : isPlain text = false := by rw [isPlain,hmarker]; rfl
    rw [hpreview rfl,hlines,previewLines_append,previewLines_marker hmarker,filter_append,append_nil,
      filter_singleton,hplain,Bool.cond_false,append_nil]
    apply previewLines_inside
    intro k hk hlt
    have hstart : start < k := by omega
    simp [encloses,start,hstart,hlt]

/-- What is read of a run whose start is out of sight, and whose end is seen. -/
theorem hidden_run (earlier : List (TaskRun × Ending)) (hseen : MarkSeen last (some e))
    (h : 80 ≤ (lastLines last (some e)).length) : ∃ m,
    Markers.none.readAll 0 (window earlier last (some e)) = m ∧ m.status = statusOf (some e) ∧
      m.exitCode = some (e.exitCode.toNat : ℤ) ∧
      previewLines m 0 (window earlier last (some e)) = (window earlier last (some e)).filter isPlain ∧
      ∃ line ∈ window earlier last (some e), isMarker line = true := by
  have hlines : lastLines last (some e) = (lastLines last (some e)).take ((lastLines last (some e)).length - 80) ++
      window earlier last (some e) := by
    rw [window_hidden earlier h,take_append_drop]
  have hne : window earlier last (some e) ≠ [] := by
    intro hnil
    have hlen := congrArg List.length (window_hidden earlier h)
    rw [hnil,length_nil,length_drop] at hlen
    omega
  obtain ⟨whole,text,hshown,-,hmarker,hended⟩ := seen_ended hseen hlines hne
  refine ⟨_,hended Markers.none 0,status_ended _ e _,rfl,?_,text,?_,hmarker⟩
  · apply previewLines_inside
    intro k _ _
    rfl
  · rw [hshown]
    exact mem_append_right _ mem_cons_self

theorem readTaskLog_window (earlier : List (TaskRun × Ending)) (last : TaskRun) (ending : Option Ending) :
    readTaskLog (some 0) (tailLines 80 (logFile earlier last ending)) =
      parseLogLines (window earlier last ending) := by
  rw [readTaskLog,if_pos rfl]
  rfl

variable {lines : List String}

theorem parseLogLines_shown (h : ∃ line ∈ lines, isMarker line = true) : ∃ entry, parseLogLines lines = some entry := by
  obtain ⟨line,hline,hmarker⟩ := h
  rw [parseLogLines,if_neg]
  · exact ⟨_,rfl⟩
  · intro hall
    have hblank := all_eq_true.mp hall line hline
    rw [isBlankLine_of_isMarker hmarker] at hblank
    cases hblank

variable {entry : ScheduledTaskLogEntry}

/-- What is shown of the lines that are read. -/
theorem parseLogLines_fields (h : parseLogLines lines = some entry) :
    entry.status = (Markers.none.readAll 0 lines).status ∧
      entry.exitCode = (Markers.none.readAll 0 lines).exitCode ∧
      entry.outputPreview = preview (if previewLines (Markers.none.readAll 0 lines) 0 lines = [] then
        fallbackLines lines else previewLines (Markers.none.readAll 0 lines) 0 lines) := by
  rw [parseLogLines] at h
  split_ifs at h
  rw [← Option.some.inj h]
  exact ⟨rfl,rfl,rfl⟩

/-- Where the last run is shown, its marks are in sight. -/
theorem markSeen_of_status (h : parseLogLines (window earlier last ending) = some entry)
    (hstatus : entry.status = statusOf ending) : MarkSeen last ending := by
  rw [(parseLogLines_fields h).1] at hstatus
  cases ending with
  | none =>
    by_contra hlong
    have hlen : 80 ≤ (lastLines last none).length := Nat.le_of_not_lt hlong
    rw [window_hidden earlier hlen,readAll_unmarked fun line hline =>
      unmarked_unfinished last line (mem_of_mem_drop hline)] at hstatus
    exact absurd hstatus (by decide)
  | some e =>
    by_contra hunseen
    have hnone : ∀ line ∈ lastLines last (some e), startsWith line logEndMarker = false := by
      intro line hline
      by_contra hmarker
      exact hunseen ⟨line,hline,by simpa using hmarker⟩
    refine status_open ?_ e hstatus
    by_cases hlen : (lastLines last (some e)).length < 80
    · obtain ⟨startedAt,hread⟩ := readAll_visible earlier hlen
      rw [hread]
      exact endIndex_readAll hnone rfl
    · rw [window_hidden earlier (by omega)]
      exact endIndex_readAll (fun line hline => hnone line (mem_of_mem_drop hline)) rfl

/-- Where the last run has no line of its own to show, and an earlier one has, that one is shown. -/
theorem previewOwn_of_preview (hseen : MarkSeen last ending)
    (h : parseLogLines (window earlier last ending) = some entry)
    (hlines : List.Sublist lines ((lastLines last ending).filter fun line => ! isMarker line))
    (hpreview : entry.outputPreview = preview lines) : PreviewOwn earlier last ending := by
  by_contra hforeign
  rw [PreviewOwn,not_or] at hforeign
  obtain ⟨hnone,hvisible⟩ := hforeign
  have hunplain : ∀ line ∈ lastLines last ending, isPlain line = false := by
    intro line hline
    by_contra hplain
    exact hnone ⟨line,hline,by simpa using hplain⟩
  have hfallback : ∃ line ∈ visibleLines earlier last ending, isFallback line = true := by
    by_contra hno
    refine hvisible fun line hline => ?_
    by_contra hshown
    exact hno ⟨line,hline,by simpa using hshown⟩
  have hlen : (lastLines last ending).length < 80 := by
    by_contra hlong
    obtain ⟨line,hline,-⟩ := hfallback
    rw [visible_nil (by omega)] at hline
    cases hline
  obtain ⟨m,rfl,-,-,hchosen⟩ := visible_run earlier hseen hlen
  have hempty : (lastLines last ending).filter isPlain = [] := by
    rw [filter_eq_nil_iff]
    intro line hline
    simp [hunplain line hline]
  have hblank : preview lines = "" := by
    apply preview_blank
    intro line hline
    obtain ⟨hmem,hmarker⟩ := mem_filter.mp (hlines.subset hline)
    have hplain := hunplain line hmem
    rw [isPlain,hmarker,Bool.true_and,Bool.not_eq_false'] at hplain
    exact hplain
  rw [(parseLogLines_fields h).2.2,hchosen,hempty,hblank] at hpreview
  refine preview_shown (fallbackLines_shown ?_) hpreview
  obtain ⟨line,hline,hshown⟩ := hfallback
  rw [window_visible earlier hlen]
  exact ⟨line,mem_append_left _ hline,hshown⟩

theorem filter_isPlain_sublist (lines : List String) :
    List.Sublist (lines.filter isPlain) (lines.filter fun line => ! isMarker line) := by
  have hfilter : lines.filter isPlain =
      (lines.filter fun line => ! isMarker line).filter fun line => ! isBlankLine line := by
    rw [filter_filter]
    apply filter_congr
    intro line _
    rw [isPlain,Bool.and_comm]
  rw [hfilter]
  exact filter_sublist

theorem showsLast_of_run (hmarker : ∃ line ∈ window earlier last ending, isMarker line = true)
    (hstatus : (Markers.none.readAll 0 (window earlier last ending)).status = statusOf ending)
    (hexit : (Markers.none.readAll 0 (window earlier last ending)).exitCode =
      ending.map fun ending => (ending.exitCode.toNat : ℤ)) {chosen : List String}
    (hchosen : previewLines (Markers.none.readAll 0 (window earlier last ending)) 0
      (window earlier last ending) = chosen)
    (hlines : List.Sublist chosen ((lastLines last ending).filter fun line => ! isMarker line))
    (hfallback : chosen = [] → ∀ line ∈ window earlier last ending, isFallback line = false) :
    ShowsLast earlier last ending := by
  obtain ⟨entry,hentry⟩ := parseLogLines_shown hmarker
  obtain ⟨hentryStatus,hentryCode,hentryPreview⟩ := parseLogLines_fields hentry
  refine ⟨entry,(readTaskLog_window earlier last ending).trans hentry,hentryStatus.trans hstatus,
    hentryCode.trans hexit,chosen,hlines,?_⟩
  rw [hentryPreview,hchosen]
  by_cases hempty : chosen = []
  · rw [if_pos hempty,fallbackLines_eq_nil (hfallback hempty),hempty]
  · rw [if_neg hempty]

theorem isFallback_of_unplain (h : isPlain line = false) : isFallback line = false := by
  by_contra hfallback
  rw [isPlain_of_isFallback (by simpa using hfallback)] at h
  cases h

theorem unplain_of_filter (h : lines.filter isPlain = []) (hline : line ∈ lines) : isPlain line = false := by
  simpa using filter_eq_nil_iff.mp h line hline

theorem showsLast_visible (hseen : MarkSeen last ending) (hown : PreviewOwn earlier last ending)
    (hlen : (lastLines last ending).length < 80) : ShowsLast earlier last ending := by
  obtain ⟨m,rfl,hstatus,hexit,hchosen⟩ := visible_run earlier hseen hlen
  have hwindow := window_visible earlier hlen
  refine showsLast_of_run ?_ hstatus hexit hchosen (filter_isPlain_sublist _) fun hempty line hline => ?_
  · rw [hwindow]
    exact ⟨_,mem_append_right _ mem_cons_self,isMarker_start last.started⟩
  · have hvisible : ∀ line ∈ visibleLines earlier last ending, isFallback line = false := by
      refine hown.resolve_left ?_
      rintro ⟨line,hline,hplain⟩
      rw [unplain_of_filter hempty hline] at hplain
      cases hplain
    rw [hwindow,mem_append,mem_cons] at hline
    rcases hline with hline | rfl | hline
    · exact hvisible line hline
    · apply isFallback_of_unplain
      rw [isPlain,isMarker_start]
      rfl
    · exact isFallback_of_unplain (unplain_of_filter hempty hline)

theorem showsLast_hidden (hseen : MarkSeen last (some e)) (hlen : 80 ≤ (lastLines last (some e)).length) :
    ShowsLast earlier last (some e) := by
  obtain ⟨m,rfl,hstatus,hexit,hchosen,hmarker⟩ := hidden_run earlier hseen hlen
  refine showsLast_of_run hmarker hstatus hexit hchosen ?_ fun hempty line hline =>
    isFallback_of_unplain (unplain_of_filter hempty hline)
  refine (filter_isPlain_sublist _).trans (List.Sublist.filter _ ?_)
  rw [window_hidden earlier hlen]
  exact drop_sublist _ _

/-- The last run is shown, and nothing else, exactly where its marks are in sight and it has a line of its own to show
or no earlier line is in sight. -/
theorem showsLast_iff (earlier : List (TaskRun × Ending)) (last : TaskRun) (ending : Option Ending) :
    ShowsLast earlier last ending ↔ MarkSeen last ending ∧ PreviewOwn earlier last ending := by
  constructor
  · rintro ⟨entry,hentry,hstatus,-,lines,hlines,hpreview⟩
    rw [readTaskLog_window] at hentry
    have hseen := markSeen_of_status hentry hstatus
    exact ⟨hseen,previewOwn_of_preview hseen hentry hlines hpreview⟩
  · rintro ⟨hseen,hown⟩
    by_cases hlen : (lastLines last ending).length < 80
    · exact showsLast_visible hseen hown hlen
    · cases ending with
      | none => exact absurd hseen hlen
      | some e => exact showsLast_hidden hseen (by omega)

end

/-! ## A run that has ended and is shown as running -/

def noon : LogDate := ⟨"12:00",by decide,forall_mem_singleton.mpr rfl⟩

/-- A run whose output does not end with a newline. -/
def greeting : TaskRun := ⟨noon,encode "hello",forall_mem_singleton.mpr rfl⟩

theorem ended_unseen : ¬ ShowsLast [] greeting (some ⟨noon,0⟩) := by
  rintro ⟨entry,hentry,hstatus,-⟩
  rw [readTaskLog_window] at hentry
  obtain ⟨line,hline,hmarker⟩ := markSeen_of_status hentry hstatus
  have hunseen : (lastLines greeting (some ⟨noon,0⟩)).all (fun line => ! startsWith line logEndMarker) =
      true := by decide +kernel
  have hnot := all_eq_true.mp hunseen line hline
  rw [hmarker] at hnot
  cases hnot

end Mxterm.ScheduledTasks
