import Mathlib.Data.UInt

/-! `TerminalOutputQueue` of `terminalOutputFlow.ts`, which hands the output of a terminal to the
screen in batches, one at a time. Text is the list of its UTF-16 code units. -/
namespace Mxterm.TerminalOutput

abbrev Text := List UInt16

def splitsSurrogatePair (value : Text) (index : ℕ) : Bool :=
  if index ≤ 0 ∨ value.length ≤ index then false
  else
    let left := value[index - 1]?.getD 0
    let right := value[index]?.getD 0
    decide (0xd800 ≤ left ∧ left ≤ 0xdbff ∧ 0xdc00 ≤ right ∧ right ≤ 0xdfff)

/-- The options of a queue: its constructor refuses a limit below two. -/
structure Options where
  maxBatchChars : ℕ
  two_le : 2 ≤ maxBatchChars

structure TerminalOutputQueue where
  chunks : List Text
  chunkIndex : ℕ
  disposed : Bool
  pendingChars : ℤ
  /-- The scheduled callback that `scheduledCancel` cancels. -/
  scheduledCancel : Option ℕ
  writing : Bool

/-- How much of a chunk that is longer than the rest of the batch goes into the batch. -/
def takeLength (chunk : Text) (remaining : ℕ) : ℕ :=
  if splitsSurrogatePair chunk remaining then remaining - 1 else remaining

theorem takeLength_le (chunk : Text) (remaining : ℕ) : takeLength chunk remaining ≤ remaining := by
  unfold takeLength
  split <;> omega

/-- The loop of `takeBatch`: the parts of the batch, the chunks and the index it leaves. -/
def takeLoop (parts : List Text) (remaining : ℕ) (chunks : List Text) (chunkIndex : ℕ) :
    List Text × List Text × ℕ :=
  if 0 < remaining ∧ chunkIndex < chunks.length then
    let chunk := chunks[chunkIndex]?.getD []
    if chunk.length ≤ remaining then
      takeLoop (parts ++ [chunk]) (remaining - chunk.length) chunks (chunkIndex + 1)
    else
      let take := takeLength chunk remaining
      if take = 0 then (parts,chunks,chunkIndex)
      else
        takeLoop (parts ++ [chunk.take take]) (remaining - take)
          (chunks.set chunkIndex (chunk.drop take)) chunkIndex
  else (parts,chunks,chunkIndex)
termination_by remaining + (chunks.length - chunkIndex)
decreasing_by
  · omega
  · rename_i hloop _ htake
    have hle := takeLength_le (chunks[chunkIndex]?.getD []) remaining
    rw [List.length_set]
    change ¬ takeLength (chunks[chunkIndex]?.getD []) remaining = 0 at htake
    change remaining - takeLength (chunks[chunkIndex]?.getD []) remaining + _ < _
    omega

namespace TerminalOutputQueue

def takeBatch (q : TerminalOutputQueue) (options : Options) : Text × TerminalOutputQueue :=
  let (parts,chunks,chunkIndex) := takeLoop [] options.maxBatchChars q.chunks q.chunkIndex
  let batch := parts.flatten
  let q := { q with chunks, chunkIndex, pendingChars := q.pendingChars - batch.length }
  if chunkIndex = chunks.length then (batch,{ q with chunks := [], chunkIndex := 0 })
  else if 64 ≤ chunkIndex then (batch,{ q with chunks := chunks.drop chunkIndex, chunkIndex := 0 })
  else (batch,q)

/-- The chunks that are still to be written. -/
def pending (q : TerminalOutputQueue) : List Text := q.chunks.drop q.chunkIndex

end TerminalOutputQueue

/-- A call of `options.write`, with the flag its `onParsed` keeps. -/
structure Write where
  batch : Text
  completed : Bool

/-- A queue with what surrounds it: the callbacks that are scheduled, the calls of `write`, the
latest first, and whether the latest has not returned yet. What was enqueued and what was
written since the last `clear` is kept beside it. -/
structure Terminal where
  queue : TerminalOutputQueue
  callbacks : List ℕ
  nextCallback : ℕ
  writes : List Write
  calling : Bool
  enqueued : List Text
  written : List Text

namespace Terminal

def start : Terminal :=
  ⟨⟨[],0,false,0,none,false⟩,[],0,[],false,[],[]⟩

def scheduleNext (t : Terminal) : Terminal :=
  if t.queue.disposed ∨ t.queue.writing ∨ t.queue.pendingChars = 0 ∨
      t.queue.scheduledCancel.isSome then t
  else
    { t with
      queue := { t.queue with scheduledCancel := some t.nextCallback }
      callbacks := t.callbacks ++ [t.nextCallback]
      nextCallback := t.nextCallback + 1 }

def push (t : Terminal) (data : Text) : Terminal :=
  { t with
    queue := { t.queue with
      chunks := t.queue.chunks ++ [data]
      pendingChars := t.queue.pendingChars + data.length }
    enqueued := t.enqueued ++ [data] }

def enqueue (t : Terminal) (data : Text) : Terminal :=
  if t.queue.disposed ∨ data = [] then t else (t.push data).scheduleNext

def clear (t : Terminal) : Terminal :=
  { t with
    queue := { t.queue with scheduledCancel := none, chunks := [], chunkIndex := 0, pendingChars := 0 }
    callbacks := t.queue.scheduledCancel.elim t.callbacks t.callbacks.erase
    enqueued := []
    written := [] }

def dispose (t : Terminal) : Terminal :=
  clear { t with queue := { t.queue with disposed := true } }

/-- The call of `write` with the next batch. -/
def write (t : Terminal) (options : Options) : Terminal :=
  let (batch,queue) := t.queue.takeBatch options
  { t with
    queue := { queue with writing := true }
    writes := ⟨batch,false⟩ :: t.writes
    calling := true
    written := t.written ++ [batch] }

/-- `flushNext` up to and with the call of `write`. -/
def flushNext (t : Terminal) (options : Options) : Terminal :=
  if t.queue.disposed ∨ t.queue.writing ∨ t.queue.pendingChars = 0 then t else t.write options

/-- A scheduled callback runs. -/
def fire (t : Terminal) (options : Options) (callback : ℕ) : Terminal :=
  flushNext { t with
    callbacks := t.callbacks.erase callback
    queue := { t.queue with scheduledCancel := none } } options

/-- The `onParsed` of one of the calls of `write` is called, the latest being the zeroth. -/
def onParsed (t : Terminal) (index : ℕ) : Terminal :=
  match t.writes[index]? with
  | none => t
  | some write =>
    if write.completed then t
    else
      scheduleNext { t with
        writes := t.writes.set index { write with completed := true }
        queue := { t.queue with writing := false } }

/-- The call of `write` ends, and with it `flushNext`. -/
def returned (t : Terminal) : Terminal := { t with calling := false }

/-- `write` or `onBatch` throws. -/
def thrown (t : Terminal) : Terminal :=
  { clear { t with
      queue := { t.queue with writing := false, disposed := true }
      writes := t.writes.modifyHead fun write => { write with completed := true } } with
    calling := false }

end Terminal

/-- What can happen next. A callback runs when no other code does, so not during a call of
`write`, while that call may itself use the queue or acknowledge the batch. -/
inductive Step (options : Options) : Terminal → Terminal → Prop
  | enqueue (t : Terminal) (data : Text) : Step options t (t.enqueue data)
  | clear (t : Terminal) : Step options t t.clear
  | dispose (t : Terminal) : Step options t t.dispose
  | fire (t : Terminal) (callback : ℕ) : callback ∈ t.callbacks → t.calling = false →
      Step options t (t.fire options callback)
  | onParsed (t : Terminal) (index : ℕ) : Step options t (t.onParsed index)
  | returned (t : Terminal) : t.calling = true → Step options t t.returned
  | thrown (t : Terminal) : t.calling = true → Step options t t.thrown

inductive Reached (options : Options) : Terminal → Prop
  | start : Reached options .start
  | step {t t' : Terminal} : Reached options t → Step options t t' → Reached options t'

end Mxterm.TerminalOutput
