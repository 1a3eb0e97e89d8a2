import Mxterm.ChatHistory
import Mxterm.TurnAccumulator

/-! A stream of a session: the task that produces a reply, and the commands that stop it (`ai_assistant.rs`). -/
namespace Mxterm.ChatStreams

open Agent

/-- `user_visible_ai_error`. -/
def userVisibleAiError (error : AppError) : String :=
  let detail := Text.trim error.rawMessage
  if detail = "" ∨ detail = error.message then error.message
  else error.message ++ "（" ++ truncateChars detail 360 ++ "）"

/-- What the task has put together of a reply. -/
structure Reply where
  content : String
  thinking : String
  toolCalls : List AiToolCallRecord

def Reply.empty : Reply := ⟨"","",[]⟩

def unsettled (call : AiToolCallRecord) : Bool :=
  call.status = "running" ∨ call.status = "pending_approval" ∨ call.status = "pending_user_input"

def cancelled (call : AiToolCallRecord) : AiToolCallRecord := { call with status := "cancelled" }

/-- `settle_tool_calls`: the calls, and those of them that were still open. -/
def settleToolCalls (calls : List AiToolCallRecord) : List AiToolCallRecord × List AiToolCallRecord :=
  (calls.map fun call => if unsettled call then cancelled call else call,(calls.filter unsettled).map cancelled)

structure StoredReply where
  reply : Reply
  status : String

inductive StreamEvent
  /-- `chunk`, `thinking`, `tool_output`, `file_changes` or `message_injected`. -/
  | progress (kind messageId : String)
  | toolCall (messageId : String) (record : AiToolCallRecord)
  | finished (messageId content : String)
  | stopped (messageId content : String)
  | error (messageId content error : String)

/-- The message that a terminal event is about, and the status it announces. -/
def StreamEvent.announces : StreamEvent → Option (String × String)
  | .progress _ _ | .toolCall _ _ => none
  | .finished messageId _ => some (messageId,"complete")
  | .stopped messageId _ => some (messageId,"stopped")
  | .error messageId _ _ => some (messageId,"error")

/-- The message that is written at the end, with the calls settled. -/
structure Final where
  messageId : String
  reply : Reply

/-- Where the task is. Between two places at which it awaits something it cannot be aborted. -/
inductive TaskPc
  | suspended
  | running
  | returned (result : Except AppError Unit)
  | closing (final : Final)
  | settled (result : Except AppError Unit) (final : Final)
  | unsaved (final : Final) (error : String)
  /-- Waiting for the lock of the streams, with nothing to be announced. -/
  | leaving
  | saved (result : Except AppError Unit) (final : Final)
  /-- Suspended at that lock. -/
  | parked (result : Except AppError Unit) (final : Final)
  | removed (result : Except AppError Unit) (final : Final)
  | done

/-- Where the stop command is that holds the operation lock. -/
inductive StopPc
  | idle | taken | flagged | aborted
  | settled (final : Final)
  | saved (final : Final)

structure Stream where
  task : TaskPc
  stop : StopPc
  /-- The manager has an entry for the stream. -/
  entry : Bool
  stopped : Bool
  abort : Bool
  messageId : String
  reply : Reply
  store : String → Option StoredReply
  events : List StreamEvent

namespace Stream

/-- A stream that has just been registered, with the message of its reply in the store. -/
def Registered (s : Stream) : Prop :=
  s.task = .suspended ∧ s.stop = .idle ∧ s.entry = true ∧ s.stopped = false ∧ s.abort = false ∧ s.events = [] ∧
    s.store s.messageId = some ⟨.empty,"streaming"⟩

def final (s : Stream) : Final :=
  ⟨s.messageId,stripToolCallSummary s.reply.content,s.reply.thinking,(settleToolCalls s.reply.toolCalls).1⟩

/-- The open calls are settled, and there is an event for each. -/
def settle (s : Stream) : Stream :=
  { s with
    reply := { s.reply with toolCalls := (settleToolCalls s.reply.toolCalls).1 }
    events := s.events ++ (settleToolCalls s.reply.toolCalls).2.map (.toolCall s.messageId) }

def save (s : Stream) (final : Final) (status : String) : Stream :=
  { s with store := Function.update s.store final.messageId (some ⟨final.reply,status⟩) }

def emit (s : Stream) (event : StreamEvent) : Stream := { s with events := s.events ++ [event] }

/-- The current reply is complete, and another one begins. -/
def inject (s : Stream) (status messageId : String) : Stream :=
  { s with
    store := Function.update (Function.update s.store s.messageId
      (some ⟨{ s.reply with content := stripToolCallSummary s.reply.content },status⟩)) messageId
      (some ⟨.empty,"streaming"⟩)
    messageId := messageId
    reply := .empty
    events := s.events ++ [.progress "message_injected" s.messageId] }

end Stream

def resultStatus : Except AppError Unit → String
  | .ok _ => "complete"
  | .error _ => "error"

def resultEvent (result : Except AppError Unit) (final : Final) : StreamEvent :=
  match result with
  | .ok _ => .finished final.messageId final.reply.content
  | .error error => .error final.messageId final.reply.content (userVisibleAiError error)

inductive StreamAction
  | resume | suspend
  /-- The run goes on by an event, a change of the reply, a snapshot of it in the store, a message of the user
  that is accepted, or its end. -/
  | progress (kind : String)
  | change (reply : Reply)
  | snapshot
  | inject (status messageId : String)
  | finishRun (result : Except AppError Unit)
  | check
  | save (outcome : Except AppError Unit)
  | announceUnsaved
  | park | remove | announce
  | stopTake | stopFlag | stopAbort | stopSettle
  | stopSave (outcome : Except AppError Unit)
  | stopAnnounce

/-- A write of the store, which may fail. -/
def Stream.trySave (s : Stream) (final : Final) (status : String) (outcome : Except AppError Unit) : Stream :=
  match outcome with
  | .ok _ => s.save final status
  | .error _ => s

def Stream.taskStep (s : Stream) (a : StreamAction) : Option Stream :=
  match a,s.task with
  | .resume,.suspended => if s.abort then none else some { s with task := .running }
  | .resume,.parked result final => if s.abort then none else some { s with task := .saved result final }
  | .suspend,.running => some { s with task := .suspended }
  | .progress kind,.running => some (s.emit (.progress kind s.messageId))
  | .change reply,.running => some { s with reply := reply }
  | .snapshot,.running => some (s.save ⟨s.messageId,s.reply⟩ "streaming")
  | .inject status messageId,.running =>
    if s.stopped ∨ (s.store messageId).isSome then none else some (s.inject status messageId)
  | .finishRun result,.running => some { s with task := .returned result }
  | .check,.returned result =>
    some (if s.stopped then { s.settle with task := .closing s.final }
      else { s.settle with task := .settled result s.final })
  | .save outcome,.closing final => some { s.trySave final "stopped" outcome with task := .leaving }
  | .save outcome,.settled result final =>
    match outcome with
    | .ok _ => some { s.save final (resultStatus result) with task := .saved result final }
    | .error error => some { s with task := .unsaved final ("会话状态保存失败：" ++ error.message) }
  | .announceUnsaved,.unsaved final error =>
    some { s.emit (.error final.messageId final.reply.content error) with task := .leaving }
  | .park,.saved result final => some { s with task := .parked result final }
  -- `finish_stream` does not say whether the entry was still there.
  | .remove,.leaving => some { s with entry := false, stopped := s.stopped || s.entry, task := .done }
  | .remove,.saved result final =>
    some { s with entry := false, stopped := s.stopped || s.entry, task := .removed result final }
  | .announce,.removed result final => some { s.emit (resultEvent result final) with task := .done }
  | _,_ => none

def Stream.stopStep (s : Stream) (a : StreamAction) : Option Stream :=
  match a,s.stop with
  | .stopTake,.idle => some (if s.entry then { s with entry := false, stop := .taken } else s)
  | .stopFlag,.taken => some { s with stopped := true, stop := .flagged }
  | .stopAbort,.flagged => some { s with abort := true, stop := .aborted }
  | .stopSettle,.aborted => some { s.settle with stop := .settled s.final }
  | .stopSave outcome,.settled final => some { s.trySave final "stopped" outcome with stop := .saved final }
  | .stopAnnounce,.saved final =>
    some { s.emit (.stopped final.messageId final.reply.content) with stop := .idle }
  | _,_ => none

def Stream.step (s : Stream) (a : StreamAction) : Option Stream := (s.taskStep a).or (s.stopStep a)

/-! ## How a stream ends -/

/-- The task awaits something, so that an abort ends it there. -/
def TaskPc.AtAwait : TaskPc → Prop
  | .suspended | .parked _ _ => True
  | _ => False

/-- The task has ended or has been aborted, and no stop command is under way. -/
def Stream.Ended (s : Stream) : Prop :=
  (s.task = .done ∨ s.task.AtAwait ∧ s.abort = true) ∧ s.stop = .idle

structure Stream.EndsOnce (s : Stream) : Prop where
  /-- Behind a terminal event there is no other event. -/
  last : ∀ event ∈ s.events.dropLast, event.announces = none
  /-- The message of a terminal event has the status that it announces. -/
  agrees : ∀ event ∈ s.events, ∀ messageId status, event.announces = some (messageId,status) →
    (s.store messageId).map StoredReply.status = some status
  ended : s.Ended → ∃ event ∈ s.events, event.announces ≠ none

/-- Writes succeed, and a stop command that finds the stream takes it while the task awaits something, where
the task stays until it is aborted. -/
def Stream.Undisturbed (s : Stream) : StreamAction → Prop
  | .save outcome | .stopSave outcome => outcome = .ok ()
  | .stopTake => s.entry = true → s.task.AtAwait
  | .resume => s.stop ≠ .taken ∧ s.stop ≠ .flagged
  | _ => True

end Mxterm.ChatStreams
