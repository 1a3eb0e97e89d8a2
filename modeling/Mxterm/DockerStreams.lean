import Mxterm.DockerLogStreams
import Mxterm.Utf8Chunks

/-! The output of a running command of Docker, chunk by chunk (`docker_tools.rs`): the contents of a log and the
progress of a pull. -/
namespace Mxterm.Docker

abbrev Chunk := List UInt8

/-! ## Logs -/

structure DockerLogStreamEvent where
  streamId : String
  connectionId : String
  containerId : String
  kind : String
  content : Option String
  message : Option String

/-- What `docker_log_stream_callback` emits for a chunk. -/
def dockerLogStreamCallback (streamId connectionId containerId : String) (chunk : Chunk) :
    List DockerLogStreamEvent :=
  let content := Utf8.decodeLossy chunk
  if content = "" then [] else [⟨streamId,connectionId,containerId,"chunk",some content,none⟩]

/-- The contents of the events, one after the other. -/
def contents (events : List DockerLogStreamEvent) : String := String.join (events.filterMap (·.content))

theorem contents_callback (streamId connectionId containerId : String) (chunks : List Chunk) :
    contents (chunks.flatMap (dockerLogStreamCallback streamId connectionId containerId)) =
      Utf8.decodeChunks chunks := by
  induction chunks with
  | nil => rfl
  | cons chunk chunks ih =>
    have happend (a b : List DockerLogStreamEvent) : contents (a ++ b) = contents a ++ contents b := by
      simp [contents]
    have hchunk : contents (dockerLogStreamCallback streamId connectionId containerId chunk) =
        Utf8.decodeLossy chunk := by
      by_cases h : Utf8.decodeLossy chunk = ""
      · simp [dockerLogStreamCallback,h,contents]
      · simp [dockerLogStreamCallback,h,contents]
    rw [List.flatMap_cons,happend,hchunk,ih,Utf8.decodeChunks_cons]

/-! ## Progress of a pull -/

structure DockerPullProgressParser where
  lineBuffer : String
  lastMessage : Option String
  deriving DecidableEq

structure DockerPullLineProgress where
  message : String
  percent : Option ℕ
  currentLayer : Option String
  deriving DecidableEq

def looksLikeDockerLayerId (value : String) : Bool :=
  8 ≤ value.utf8ByteSize && value.utf8ByteSize ≤ 64 && value.toList.all fun c =>
    c.isDigit || ('a' ≤ c && c ≤ 'f') || ('A' ≤ c && c ≤ 'F')

/-- The two sides of the first colon. -/
def splitOnceColon (line : String) : Option (String × String) :=
  match line.toList.dropWhile (· ≠ ':') with
  | _ :: rest => some (String.ofList (line.toList.takeWhile (· ≠ ':')),String.ofList rest)
  | [] => none

/-- The share of a layer in its detail, `parse_progress_percent`, which reckons in floating point numbers. -/
abbrev ParseProgressPercent := String → Option ℕ

def parsePullProgressLine (parsePercent : ParseProgressPercent) (line : String) : DockerPullLineProgress :=
  let (currentLayer,detail) := match splitOnceColon line with
    | some (layer,rest) =>
      (if looksLikeDockerLayerId (Text.trim layer) then some (Text.trim layer) else none,Text.trim rest)
    | none => (none,Text.trim line)
  ⟨Text.trim line,parsePercent detail,currentLayer⟩

namespace DockerPullProgressParser
variable (parsePercent : ParseProgressPercent)

def empty : DockerPullProgressParser := ⟨"",none⟩

def flushLine (parser : DockerPullProgressParser) : List DockerPullLineProgress × DockerPullProgressParser :=
  let line := Text.trim parser.lineBuffer
  if line = "" ∨ parser.lastMessage = some line then ([],{ parser with lineBuffer := "" })
  else ([parsePullProgressLine parsePercent line],⟨"",some line⟩)

def isLineEnd (c : Char) : Bool := c = '\n' || c = '\r'

def pushChars : List Char → DockerPullProgressParser → List DockerPullLineProgress × DockerPullProgressParser
  | [], parser => ([],parser)
  | c :: cs, parser =>
    if isLineEnd c then
      let (emitted,parser) := flushLine parsePercent parser
      let (more,parser) := pushChars cs parser
      (emitted ++ more,parser)
    else pushChars cs { parser with lineBuffer := parser.lineBuffer ++ String.singleton c }

def pushChunk (chunk : Chunk) (parser : DockerPullProgressParser) :
    List DockerPullLineProgress × DockerPullProgressParser :=
  pushChars parsePercent (Utf8.decodeLossy chunk).toList parser

/-- The chunks of a command, one call after the other. -/
def pushChunks : List Chunk → DockerPullProgressParser → List DockerPullLineProgress × DockerPullProgressParser
  | [], parser => ([],parser)
  | chunk :: chunks, parser =>
    let (emitted,parser) := pushChunk parsePercent chunk parser
    let (more,parser) := pushChunks chunks parser
    (emitted ++ more,parser)

variable {parsePercent}

theorem pushChars_append (a b : List Char) (parser : DockerPullProgressParser) :
    pushChars parsePercent (a ++ b) parser =
      ((pushChars parsePercent a parser).1 ++ (pushChars parsePercent b (pushChars parsePercent a parser).2).1,
        (pushChars parsePercent b (pushChars parsePercent a parser).2).2) := by
  induction a generalizing parser with
  | nil => rfl
  | cons c a ih =>
    by_cases hend : isLineEnd c = true
    · simp [pushChars,hend,ih]
    · simp [pushChars,hend,ih]

theorem pushChunks_eq (chunks : List Chunk) (parser : DockerPullProgressParser) :
    pushChunks parsePercent chunks parser = pushChars parsePercent (Utf8.decodeChunks chunks).toList parser := by
  induction chunks generalizing parser with
  | nil => rfl
  | cons chunk chunks ih =>
    rw [Utf8.decodeChunks_cons,String.toList_append,pushChars_append]
    simp [pushChunks,pushChunk,ih]

/-! The lines of the text, in front of the first of which stands what the buffer has kept. -/

def lines (cs : List Char) (parser : DockerPullProgressParser) : List String :=
  ((cs.splitOnP isLineEnd).modifyHead (parser.lineBuffer.toList ++ ·)).map String.ofList

/-- The messages for lines: those that are not blank. -/
def shown (lines : List String) : List String := (lines.map Text.trim).filter (· ≠ "")

theorem lastMessage_flushLine (parsePercent : ParseProgressPercent) (parser : DockerPullProgressParser) :
    (flushLine parsePercent parser).2 =
    ⟨"",(shown [parser.lineBuffer]).getLast?.or parser.lastMessage⟩ := by
  unfold flushLine
  by_cases hblank : Text.trim parser.lineBuffer = ""
  · simp [hblank,shown]
  · by_cases hlast : parser.lastMessage = some (Text.trim parser.lineBuffer)
    · simp [hblank,hlast,shown]
    · simp [hblank,hlast,shown]

theorem shown_append (a b : List String) : shown (a ++ b) = shown a ++ shown b := by simp [shown]

theorem lines_end {c : Char} (h : isLineEnd c = true) (cs : List Char) (parser : DockerPullProgressParser)
    (lastMessage : Option String) : lines (c :: cs) parser = parser.lineBuffer :: lines cs ⟨"",lastMessage⟩ := by
  have hempty : (cs.splitOnP isLineEnd).modifyHead (("" : String).toList ++ ·) = cs.splitOnP isLineEnd := by
    cases cs.splitOnP isLineEnd <;> rfl
  rw [lines,lines,hempty,List.splitOnP_cons_eq_if_modifyHead,if_pos h]
  simp

theorem lines_char {c : Char} (h : isLineEnd c = false) (cs : List Char) (parser : DockerPullProgressParser) :
    lines (c :: cs) parser =
      lines cs { parser with lineBuffer := parser.lineBuffer ++ String.singleton c } := by
  rw [lines,lines,List.splitOnP_cons_eq_if_modifyHead,if_neg (by simp [h])]
  cases cs.splitOnP isLineEnd <;> simp

/-- After a text, the buffer has its last line, and the last message is that of the lines that are ended. -/
theorem pushChars_state (parsePercent : ParseProgressPercent) (cs : List Char) (parser : DockerPullProgressParser) :
    ∃ ended last, lines cs parser = ended ++ [last] ∧
      (pushChars parsePercent cs parser).2 = ⟨last,(shown ended).getLast?.or parser.lastMessage⟩ := by
  induction cs generalizing parser with
  | nil => exact ⟨[],parser.lineBuffer,by simp [lines],by simp [pushChars,shown]⟩
  | cons c cs ih =>
    by_cases hend : isLineEnd c = true
    · obtain ⟨ended,last,hlines,hstate⟩ := ih (flushLine parsePercent parser).2
      have hflush := lastMessage_flushLine parsePercent parser
      refine ⟨parser.lineBuffer :: ended,last,?_,?_⟩
      · rw [lines_end hend cs parser (flushLine parsePercent parser).2.lastMessage,List.cons_append,← hlines,hflush]
      · have hpush : (pushChars parsePercent (c :: cs) parser).2 =
            (pushChars parsePercent cs (flushLine parsePercent parser).2).2 := by simp [pushChars,hend]
        have hshown : shown (parser.lineBuffer :: ended) = shown [parser.lineBuffer] ++ shown ended :=
          shown_append [parser.lineBuffer] ended
        rw [hpush,hstate,hflush,hshown,List.getLast?_append,Option.or_assoc]
    · obtain ⟨ended,last,hlines,hstate⟩ := ih { parser with lineBuffer := parser.lineBuffer ++ String.singleton c }
      refine ⟨ended,last,?_,?_⟩
      · rw [lines_char (Bool.eq_false_iff.mpr hend),hlines]
      · simpa [pushChars,hend] using hstate

end DockerPullProgressParser

/-! ## Chunks and lines -/

section
open DockerPullProgressParser
variable (parsePercent : ParseProgressPercent) (streamId connectionId containerId : String)

/-- The chunks of a stream of output give what the stream gives in one, the last line included. -/
structure Unchunked (chunks : List Chunk) : Prop where
  contents : contents (chunks.flatMap (dockerLogStreamCallback streamId connectionId containerId)) =
    Utf8.decodeLossy chunks.flatten
  messages : (pushChunks parsePercent chunks empty).1 = (pushChunk parsePercent chunks.flatten empty).1
  last : (pushChunks parsePercent chunks empty).1 = (pushChunk parsePercent (chunks.flatten ++ [10]) empty).1

/-- The last line is blank, or it is the message of the lines in front of it that are ended. -/
def LastShown (text : String) : Prop :=
  ∀ ended last, (text.toList.splitOnP isLineEnd).map String.ofList = ended ++ [last] →
    Text.trim last = "" ∨ (shown ended).getLast? = some (Text.trim last)

theorem flushLine_emits (parser : DockerPullProgressParser) : (flushLine parsePercent parser).1 = [] ↔
    Text.trim parser.lineBuffer = "" ∨ parser.lastMessage = some (Text.trim parser.lineBuffer) := by
  unfold flushLine
  by_cases h : Text.trim parser.lineBuffer = "" ∨ parser.lastMessage = some (Text.trim parser.lineBuffer)
  · simp [h]
  · simp [h]

/-- A line end behind a text emits nothing exactly where the last line has nothing to show. -/
theorem lastShown_iff (text : String) :
    (flushLine parsePercent (pushChars parsePercent text.toList empty).2).1 = [] ↔ LastShown text := by
  obtain ⟨ended,last,hlines,hstate⟩ := pushChars_state parsePercent text.toList empty
  have hempty : lines text.toList empty = (text.toList.splitOnP isLineEnd).map String.ofList := by
    unfold lines empty
    cases text.toList.splitOnP isLineEnd <;> simp
  rw [hstate,flushLine_emits,LastShown,← hempty,hlines]
  simp only [empty,Option.or_none]
  constructor
  · rintro h ended' last' heq
    obtain ⟨rfl,hlast⟩ := List.append_inj' heq rfl
    rwa [← List.singleton_inj.mp hlast]
  · intro h
    exact h ended last rfl

end

end Mxterm.Docker
