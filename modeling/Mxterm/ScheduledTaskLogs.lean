import Mxterm.LineSplits
import Mxterm.LossyText
import Mxterm.TextLines

/-! The log of a scheduled task, and what is read from the end of it (`scheduled_tasks.rs`). -/
namespace Mxterm.ScheduledTasks

open List

def logStartMarker : String := "__MXTERM_TASK_START__"
def logEndMarker : String := "__MXTERM_TASK_END__"

structure ScheduledTaskLogEntry where
  startedAt : Option String
  exitCode : Option ℤ
  status : String
  outputPreview : String
  deriving DecidableEq

/-! ## Reading -/

def digitsValue (digits : List Char) : Option ℕ :=
  if digits ≠ [] ∧ digits.all (·.isDigit) then some (Nat.ofDigitChars 10 digits 0) else none

/-- `str::parse::<i32>`. -/
def parseI32 (s : String) : Option ℤ :=
  let value : Option ℤ :=
    match s.toList with
    | '-' :: digits => (digitsValue digits).map fun n => - (n : ℤ)
    | '+' :: digits => (digitsValue digits).map Int.ofNat
    | digits => (digitsValue digits).map Int.ofNat
  value.filter fun n => - 2 ^ 31 ≤ n ∧ n < 2 ^ 31

def parseExitCode (value : String) : Option ℤ :=
  ((Text.splitWhitespace value).findSome? (Text.stripPrefix "exit=")).bind parseI32

/-- What the marker lines have said so far. -/
structure Markers where
  startIndex : Option ℕ
  startedAt : Option String
  endIndex : Option ℕ
  exitCode : Option ℤ

namespace Markers

def none : Markers := ⟨.none,.none,.none,.none⟩

def read (m : Markers) (index : ℕ) (line : String) : Markers :=
  match Text.stripPrefix logStartMarker line with
  | some rest => ⟨some index,(some (Text.trim rest)).filter (· ≠ ""),.none,.none⟩
  | .none =>
    match Text.stripPrefix logEndMarker line with
    | some rest => { m with endIndex := some index, exitCode := parseExitCode rest }
    | .none => m

/-- The lines from an index on. -/
@[simp] def readAll : ℕ → Markers → List String → Markers
  | _, m, [] => m
  | index, m, line :: lines => readAll (index + 1) (m.read index line) lines

@[simp] def status (m : Markers) : String :=
  match m.startIndex, m.endIndex, m.exitCode with
  | some _, .none, _ => "running"
  | _, some _, some 0 => "success"
  | _, some _, some _ => "failed"
  | _, some _, .none => "unknown"
  | _, _, _ => "unknown"

end Markers

def isMarker (line : String) : Bool := Text.startsWith line logStartMarker || Text.startsWith line logEndMarker

def isBlankLine (line : String) : Bool := Text.trim line = ""

/-- Whether a line stands between the markers. -/
def Markers.encloses (m : Markers) (index : ℕ) : Bool :=
  match m.startIndex with
  | .none => true
  | some start => start < index && m.endIndex.all (index < ·)

/-- The lines for the preview, from an index on. -/
@[simp] def previewLines (m : Markers) : ℕ → List String → List String
  | _, [] => []
  | index, line :: lines =>
    if ! isMarker line && m.encloses index && ! isBlankLine line then line :: previewLines m (index + 1) lines
    else previewLines m (index + 1) lines

def isFallback (line : String) : Bool := ! isBlankLine line && ! isMarker (Text.trim line)

/-- The lines for the preview where nothing stands between the markers. -/
def fallbackLines (lines : List String) : List String := ((lines.reverse.filter isFallback).take 8).reverse

def truncateText (value : String) (maxChars : ℕ) : String :=
  String.ofList (value.toList.take maxChars) ++ if maxChars < value.toList.length then "\n..." else ""

/-- The preview of the lines that are chosen for it. -/
def preview (lines : List String) : String := truncateText (Text.trim (Text.join lines)) 1600

def parseLogLines (lines : List String) : Option ScheduledTaskLogEntry :=
  if lines.all isBlankLine then none
  else
    let m := Markers.none.readAll 0 lines
    let chosen := previewLines m 0 lines
    some ⟨m.startedAt,m.exitCode,m.status,preview (if chosen = [] then fallbackLines lines else chosen)⟩

/-- The lines of a text as the log is read. -/
def logLines (text : String) : List String := (Text.lines text).map Text.trimReturns

def parseLogTail (text : String) : Option ScheduledTaskLogEntry := parseLogLines (logLines text)

/-- `read_task_log`, from what the remote command has answered. -/
def readTaskLog (exitStatus : Option ℕ) (stdout : List UInt8) : Option ScheduledTaskLogEntry :=
  if exitStatus = some 0 then parseLogTail (Utf8.decodeLossy stdout) else none

/-- `tail -n`. -/
def tailLines (n : ℕ) (bytes : List UInt8) : List UInt8 :=
  let pieces := LineSplits.splitAfter 10 bytes
  (pieces.drop (pieces.length - n)).flatten

/-! ## The lines of a log -/

/-- The lines of a log. -/
def linesOf (bytes : List UInt8) : List String := logLines (Utf8.decodeLossy bytes)

section
variable {bytes x rest : List UInt8} {pieces : List (List UInt8)}

theorem newline_not_mem_decodeLossy (h : (10 : UInt8) ∉ bytes) : '\n' ∉ (Utf8.decodeLossy bytes).toList := by
  induction hn : bytes.length using Nat.strongRecOn generalizing bytes with
  | _ n ih =>
    by_cases hne : bytes = []
    · subst hne
      exact not_mem_nil
    · have hpos := length_pos_of_ne_nil hne
      have hrest (k : ℕ) (hk : 0 < k) : '\n' ∉ (Utf8.decodeLossy (bytes.drop k)).toList := by
        refine ih _ ?_ (fun hmem => h (mem_of_mem_drop hmem)) rfl
        rw [length_drop]
        omega
      cases hdecode : bytes.toByteArray.utf8DecodeChar? 0 with
      | some c =>
        have hbytes := Utf8.append_of_decodeChar hdecode
        have hc : c ≠ '\n' := by
          rintro rfl
          rw [hbytes] at h
          exact h mem_cons_self
        rw [hbytes,Utf8.decodeLossy_char,mem_cons,not_or]
        exact ⟨hc.symm,hrest _ c.utf8Size_pos⟩
      | none =>
        rw [Utf8.decodeLossy_malformed hdecode hne,mem_cons,not_or]
        exact ⟨by decide,hrest _ (Utf8.malformedLength_pos bytes)⟩

theorem rdropWhile_return (line : List Char) :
    (if line.getLast? = some '\r' then line.dropLast else line).rdropWhile (· = '\r') =
      line.rdropWhile (· = '\r') := by
  split_ifs with h
  · obtain ⟨front,rfl⟩ := getLast?_eq_some_iff.mp h
    rw [dropLast_concat,rdropWhile_concat_pos _ _ _ (by simp)]
  · rfl

/-- A line in front is read on its own. -/
theorem logLines_cons {line text : String} (h : '\n' ∉ line.toList) :
    logLines (line ++ "\n" ++ text) = Text.trimReturns line :: logLines text := by
  have hsplit : (line ++ "\n" ++ text).toList.splitOn '\n' = line.toList :: text.toList.splitOn '\n' := by
    rw [String.toList_append,String.toList_append,append_assoc]
    have hnewline : "\n".toList = ['\n'] := rfl
    rw [hnewline,singleton_append,splitOn_append_cons_self,splitOn_eq_singleton h,
      singleton_append]
  have hne : text.toList.splitOn '\n' ≠ [] := splitOn_ne_nil _ _
  rw [logLines,logLines,Text.lines,Text.lines,hsplit]
  simp only [dropLast_cons_of_ne_nil hne,getLast?_cons_of_ne_nil hne,map_cons,cons_append,
    Text.trimReturns,String.toList_ofList,rdropWhile_return]

theorem linesOf_cons (h : (10 : UInt8) ∉ x) (rest : List UInt8) :
    linesOf (x ++ 10 :: rest) = Text.trimReturns (Utf8.decodeLossy x) :: linesOf rest := by
  have hnewline : Utf8.decodeLossy (10 :: rest) = "\n" ++ Utf8.decodeLossy rest :=
    Utf8.decodeLossy_encode_append "\n" rest
  rw [linesOf,Utf8.decodeLossy_append_ascii x rest (by decide),hnewline,← String.append_assoc,
    logLines_cons (newline_not_mem_decodeLossy h),linesOf]

theorem linesOf_nil : linesOf [] = [] := rfl

theorem linesOf_last (h : (10 : UInt8) ∉ x) (hne : x ≠ []) :
    linesOf x = [Text.trimReturns (Utf8.decodeLossy x)] := by
  rw [linesOf,logLines,
    Text.lines_of_no_newline (Utf8.decodeLossy_ne_empty hne) (newline_not_mem_decodeLossy h)]
  rfl

/-- The line that a piece of a log is. -/
def lineText (piece : List UInt8) : String :=
  Text.trimReturns (Utf8.decodeLossy (if piece.getLast? = some 10 then piece.dropLast else piece))

theorem linesOf_flatten (h : LineSplits.Cut 10 pieces) : linesOf pieces.flatten = pieces.map lineText := by
  induction pieces with
  | nil => rfl
  | cons piece pieces ih =>
    obtain ⟨hne,hnewline,hlast,hcut⟩ := h
    rw [flatten_cons,map_cons,← ih hcut,lineText]
    split_ifs with hended
    · obtain ⟨front,rfl⟩ := getLast?_eq_some_iff.mp hended
      rw [dropLast_concat] at hnewline ⊢
      rw [append_assoc,singleton_append,linesOf_cons hnewline]
    · have hnil : pieces = [] := by
        by_contra hne
        exact hended (hlast hne)
      have hmem : (10 : UInt8) ∉ piece := by
        intro hmem
        rw [← dropLast_append_getLast hne,mem_append,mem_singleton] at hmem
        rcases hmem with hmem | heq
        · exact hnewline hmem
        · exact hended (by rw [getLast?_eq_some_getLast hne,← heq])
      rw [hnil,flatten_nil,append_nil,linesOf_last hmem hne]
      rfl

/-- The last lines of a log are read as the last ones of its lines. -/
theorem linesOf_tailLines (n : ℕ) (bytes : List UInt8) :
    linesOf (tailLines n bytes) = (linesOf bytes).drop ((linesOf bytes).length - n) := by
  have hcut : LineSplits.Cut 10 (LineSplits.splitAfter 10 bytes) := LineSplits.cut_splitAfter bytes
  have hall : linesOf bytes = (LineSplits.splitAfter 10 bytes).map lineText := by
    rw [← linesOf_flatten hcut,LineSplits.flatten_splitAfter]
  rw [tailLines,linesOf_flatten (hcut.drop _),hall,map_drop,length_map]

/-- Bytes at whose end no line is open. -/
def Ended (bytes : List UInt8) : Prop := bytes = [] ∨ bytes.getLast? = some 10

/-- What stands behind whole lines is read on its own. -/
theorem linesOf_append (h : Ended bytes) (rest : List UInt8) :
    linesOf (bytes ++ rest) = linesOf bytes ++ linesOf rest := by
  induction hn : bytes.length using Nat.strongRecOn generalizing bytes with
  | _ n ih =>
    subst hn
    rcases h with rfl | hlast
    · rw [nil_append,linesOf_nil,nil_append]
    · obtain ⟨line,more,rfl,hnewline⟩ := eq_append_cons_of_mem (mem_of_getLast? hlast)
      have hmore : Ended more := by
        by_cases hnil : more = []
        · exact .inl hnil
        · right
          rwa [getLast?_append_of_ne_nil _ (cons_ne_nil 10 more),getLast?_cons_of_ne_nil hnil] at hlast
      have hshort : more.length < (line ++ 10 :: more).length := by simp; omega
      rw [append_assoc,cons_append,linesOf_cons hnewline,linesOf_cons hnewline,
        ih _ hshort hmore rfl,cons_append]

end

end Mxterm.ScheduledTasks
