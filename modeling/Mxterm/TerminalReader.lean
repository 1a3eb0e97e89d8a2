import Mxterm.ConnectionValidation
import Mxterm.Utf8

/-! The task that reads the SSH channel of a terminal: it decodes what the remote side prints, emits it in batches, and
takes the session out of the store when it ends. -/
namespace Mxterm.TerminalReader

open ConnectionValidation

abbrev Bytes := List UInt8

/-! ## Decoding -/

inductive CoderResult
  | inputEmpty | outputFull
  deriving DecidableEq

structure Decoded (σ : Type) where
  hadErrors : Bool
  text : String
  state : σ

/-- An encoding, as its decoder is documented: the buffer it asks for suffices, malformed sequences are replaced and
reported, and sequences that are not complete wait for the next call. -/
structure Encoding where
  State : Type
  new : State
  maxUtf8BufferLength : State → ℕ → Option ℕ
  decodeToString : State → ℕ → Bytes → Bool → CoderResult × ℕ × Decoded State
  decode : State → Bytes → Bool → Decoded State
  buffer : ∀ s data last, ∃ capacity, maxUtf8BufferLength s data.length = some capacity ∧
    decodeToString s capacity data last = (.inputEmpty,data.length,decode s data last)
  decode_nil : ∀ s, decode s [] false = ⟨false,"",s⟩
  decode_append : ∀ s front back last, decode s (front ++ back) last =
    let first := decode s front false
    let second := decode first.state back last
    ⟨first.hadErrors || second.hadErrors,first.text ++ second.text,second.state⟩
  replaced : ∀ s data last, (decode s data last).hadErrors = true → '\uFFFD' ∈ (decode s data last).text.toList

def terminalEncodingBufferError (terminalEncoding : String) : AppError :=
  ⟨"terminal_encoding_buffer_failed","终端编码缓冲区计算失败。","terminal_encoding=" ++ terminalEncoding,true⟩

def terminalEncodingDecodeError (terminalEncoding : String) (data : Bytes) : AppError :=
  ⟨"terminal_encoding_decode_failed","终端输出解码失败。",
    "terminal_encoding=" ++ terminalEncoding ++ "; data_len=" ++ toString data.length,true⟩

/-- The decoded bytes, or an error where the input was malformed; the state of the decoder in both cases. -/
def decodeTerminalOutput (encoding : Encoding) (terminalEncoding : String) (decoder : encoding.State) (data : Bytes)
    (last : Bool) : Except AppError Bytes × encoding.State :=
  match encoding.maxUtf8BufferLength decoder data.length with
  | none => (.error (terminalEncodingBufferError terminalEncoding),decoder)
  | some capacity =>
    let (result,read,decoded) := encoding.decodeToString decoder capacity data last
    if result = .outputFull ∨ read ≠ data.length then
      (.error (terminalEncodingBufferError terminalEncoding),decoded.state)
    else if decoded.hadErrors then (.error (terminalEncodingDecodeError terminalEncoding data),decoded.state)
    else (.ok (Utf8.encode decoded.text),decoded.state)

def terminalEncodingForLabel (forLabel : String → Option Encoding) (label : String) : Except AppError Encoding :=
  match normalizeTerminalEncoding label with
  | .error error => .error error
  | .ok normalized =>
    match forLabel normalized with
    | some encoding => .ok encoding
    | none => .error ⟨"connection_terminal_encoding_invalid","终端显示编码无效。",
        "terminal_encoding=" ++ normalized,true⟩

/-- `TerminalOutputDecoder::new`: the encoding and the name by which errors call it. -/
def newTerminalOutputDecoder (forLabel : String → Option Encoding) (terminalEncoding : String) :
    Except AppError (Encoding × String) :=
  match normalizeTerminalEncoding terminalEncoding with
  | .error error => .error error
  | .ok normalized =>
    match terminalEncodingForLabel forLabel normalized with
    | .error error => .error error
    | .ok encoding => .ok (encoding,normalized)

/-! ## Batches -/

def batchMaxBytes : ℕ := 32 * 1024

/-- There is always room for another byte. -/
structure TerminalOutputBatcher where
  pending : Bytes
  startedAt : Option ℕ
  room : pending.length < batchMaxBytes

namespace TerminalOutputBatcher

def new : TerminalOutputBatcher := ⟨[],none,by decide⟩

def deadline (b : TerminalOutputBatcher) : Option ℕ := b.startedAt.map (· + 8)

def flush (b : TerminalOutputBatcher) : Option Bytes × TerminalOutputBatcher :=
  if b.pending = [] then (none,b) else (some b.pending,new)

/-- A batch is cut off whenever it is full. -/
def push (b : TerminalOutputBatcher) (data : Bytes) (now : ℕ) : List Bytes × TerminalOutputBatcher :=
  if data = [] then ([],b)
  else
    let startedAt := if b.pending = [] then some now else b.startedAt
    let take := min (batchMaxBytes - b.pending.length) data.length
    if hroom : (b.pending ++ data.take take).length < batchMaxBytes then
      push ⟨b.pending ++ data.take take,startedAt,hroom⟩ (data.drop take) now
    else
      let rest := push new (data.drop take) now
      ((b.pending ++ data.take take) :: rest.1,rest.2)
termination_by data.length
decreasing_by
  all_goals
    have hpos : 0 < data.length := List.length_pos_iff.mpr ‹_›
    have hroom := b.room
    rw [List.length_drop]
    omega

end TerminalOutputBatcher

/-! ## The read loop -/

/-- What the loop meets while the channel is open: messages with the time they come at, and the deadline of a batch. -/
inductive Event
  | data (bytes : Bytes) (now : ℕ)
  | extendedData (bytes : Bytes) (now : ℕ)
  | exitStatus (code : ℕ)
  | eof
  | other
  | deadline

/-- `stored` says whether the session is in the store, and `reading` whether the loop goes on. -/
structure Reader (encoding : Encoding) where
  decoder : encoding.State
  batcher : TerminalOutputBatcher
  exitStatus : Option ℕ
  emitted : List Bytes
  stored : Bool
  reading : Bool

namespace Reader

variable {encoding : Encoding}

def start (encoding : Encoding) : Reader encoding where
  decoder := encoding.new
  batcher := .new
  exitStatus := none
  emitted := []
  stored := true
  reading := true

def emit (r : Reader encoding) (batches : List Bytes) : Reader encoding := { r with emitted := r.emitted ++ batches }

def flush (r : Reader encoding) : Reader encoding :=
  let flushed := r.batcher.flush
  ({ r with batcher := flushed.2 }).emit flushed.1.toList

def push (r : Reader encoding) (data : Bytes) (now : ℕ) : Reader encoding :=
  let pushed := r.batcher.push data now
  ({ r with batcher := pushed.2 }).emit pushed.1

def errorOutput (error : AppError) : Bytes := Utf8.encode ("\r\n" ++ error.message ++ "\r\n")

def remove (r : Reader encoding) : Reader encoding := { r with stored := false, reading := false }

/-- The end of the loop on a decoding error. -/
def fail (r : Reader encoding) (error : AppError) : Reader encoding := (r.flush.emit [errorOutput error]).remove

def receive (terminalEncoding : String) (r : Reader encoding) (bytes : Bytes) (now : ℕ) : Reader encoding :=
  let decoded := decodeTerminalOutput encoding terminalEncoding r.decoder bytes false
  let r := { r with decoder := decoded.2 }
  match decoded.1 with
  | .ok data => r.push data now
  | .error error => r.fail error

def handle (terminalEncoding : String) (r : Reader encoding) : Event → Reader encoding
  | .data bytes now => r.receive terminalEncoding bytes now
  | .extendedData bytes now => r.receive terminalEncoding bytes now
  | .exitStatus code => { r with exitStatus := some code }
  | .eof => r
  | .other => r
  | .deadline => if r.batcher.deadline.isSome then r.flush else r

/-- A loop that has ended meets nothing more. -/
def step (terminalEncoding : String) (r : Reader encoding) (event : Event) : Reader encoding :=
  if r.reading then r.handle terminalEncoding event else r

/-- The channel has closed or ended. -/
def close (terminalEncoding : String) (r : Reader encoding) (now : ℕ) : Reader encoding :=
  if r.reading then
    let decoded := decodeTerminalOutput encoding terminalEncoding r.decoder [] true
    let r := { r with decoder := decoded.2 }
    match decoded.1 with
    | .ok tail => (r.push tail now).flush.remove
    | .error error => r.fail error
  else r

def run (terminalEncoding : String) (r : Reader encoding) (events : List Event) : Reader encoding :=
  events.foldl (step terminalEncoding) r

end Reader

/-! ## What is expected of it -/

/-- What the remote side prints. -/
def Event.printed : Event → Bytes
  | .data bytes _ => bytes
  | .extendedData bytes _ => bytes
  | _ => []

def printed (events : List Event) : Bytes := events.flatMap Event.printed

/-- While the channel is open the session stays in the store and the loop goes on, and all that is printed is emitted or
waits for its batch; once the channel has closed, all of it is emitted. -/
structure Shows (encoding : Encoding) (terminalEncoding : String) (events : List Event) (closed : Option ℕ) : Prop where
  reads : ∀ p, p <+: events → ((Reader.start encoding).run terminalEncoding p).reading = true
  keeps : ∀ p, p <+: events → ((Reader.start encoding).run terminalEncoding p).stored = true
  shown : closed = none →
    ((Reader.start encoding).run terminalEncoding events).emitted.flatten ++
        ((Reader.start encoding).run terminalEncoding events).batcher.pending =
      Utf8.encode (encoding.decode encoding.new (printed events) false).text
  shownWhole : ∀ now, closed = some now →
    (((Reader.start encoding).run terminalEncoding events).close terminalEncoding now).emitted.flatten =
      Utf8.encode (encoding.decode encoding.new (printed events) true).text

end Mxterm.TerminalReader
