import Mxterm.ChatHistory

/-! Messages that are inserted into a running reply: the inbox of the agent, the command that puts a message
into it, the loop that takes the messages out, and the session they are written to (`ai_assistant.rs`,
`ai_agent.rs`). -/
namespace Mxterm.Insertions

open Agent

/-! ## The session -/

/-- A row of `ai_chat_messages`. -/
structure SessionMessage where
  id : String
  role : String
  content : String
  thinking : String
  contexts : List AiContextBlock
  toolCalls : List AiToolCallRecord
  status : String

/-- The user's message and what the model is sent of it. -/
structure PreparedUserInjection where
  queueId : String
  content : String
  contexts : List AiContextBlock
  modelMessage : AiModelMessage

def PreparedUserInjection.userMessage (item : PreparedUserInjection) : SessionMessage where
  id := item.queueId
  role := "user"
  content := item.content
  thinking := ""
  contexts := item.contexts
  toolCalls := []
  status := "complete"

def emptyReply (id : String) : SessionMessage := ⟨id,"assistant","","",[],[],"streaming"⟩

def sqliteAiError (error : String) : AppError := ⟨"ai_storage_failed","AI 数据存储失败。",error,true⟩

/-- An `INSERT`, whose identifier is the primary key. -/
def insertChatMessage (session : List SessionMessage) (row : SessionMessage) :
    Except AppError (List SessionMessage) :=
  if session.any (·.id = row.id) then
    .error (sqliteAiError "UNIQUE constraint failed: ai_chat_messages.id")
  else .ok (session ++ [row])

/-- The reply so far, which the agent holds. -/
structure CurrentReply where
  messageId : String
  content : String
  thinking : String
  toolCalls : List AiToolCallRecord

/-- An `UPDATE` of the row of the reply. -/
def withReply (reply : CurrentReply) (status : String) (row : SessionMessage) : SessionMessage :=
  if row.id = reply.messageId then
    { row with
      content := reply.content
      thinking := reply.thinking
      toolCalls := reply.toolCalls
      status := status }
  else row

def previousStatus (interrupted : Bool) : String := if interrupted then "stopped" else "complete"

/-- `commit_message_injection`: all in one transaction, or nothing. -/
def commitMessageInjection (session : List SessionMessage) (reply : CurrentReply)
    (pending : List PreparedUserInjection) (status assistantId : String) :
    Except AppError (List SessionMessage) := do
  let inserted ← pending.foldlM (fun session item => insertChatMessage session item.userMessage)
    (session.map (withReply reply status))
  insertChatMessage inserted (emptyReply assistantId)

def persistMessageInjection (session : List SessionMessage) (reply : CurrentReply)
    (pending : List PreparedUserInjection) (interrupted : Bool) (assistantId : String) :
    Except AppError (List SessionMessage) :=
  if session.any (·.id = reply.messageId) then
    commitMessageInjection session reply pending (previousStatus interrupted) assistantId
  else .error ⟨"ai_message_missing","插入消息时找不到原回复。","previous reply missing",true⟩

/-! ## The inbox -/

structure AgentMessageInbox where
  closed : Bool
  pending : List PreparedUserInjection
  /-- The identifiers with a receipt. -/
  committed : List String
  preemption : Bool

namespace AgentMessageInbox

def default : AgentMessageInbox := ⟨false,[],[],false⟩

def enqueue (inbox : AgentMessageInbox) (message : PreparedUserInjection) : AgentMessageInbox :=
  if inbox.closed then inbox
  else { inbox with pending := inbox.pending ++ [message], preemption := true }

def take (inbox : AgentMessageInbox) (finishIfEmpty : Bool) : AgentMessageInbox where
  closed := inbox.closed || finishIfEmpty && inbox.pending.isEmpty
  pending := []
  committed := inbox.committed
  preemption := false

def recordCommit (inbox : AgentMessageInbox) (queueIds : List String) : AgentMessageInbox :=
  { inbox with committed := inbox.committed ++ queueIds }

end AgentMessageInbox

/-! ## The enqueue command -/

structure EnqueueRequest where
  queueId : String
  content : String
  contexts : List AiContextBlock

def injectionClosedError : AppError := ⟨"ai_injection_closed","本轮已结束，消息仍保留在队列中。","inbox closed",true⟩

def blankInsertion : AppError := ⟨"ai_message_missing","请输入问题或添加附件。","blank insertion",true⟩

/-- What the command calls on the way: the check of an identifier, and the files of the attachments. -/
structure EnqueueCalls where
  validatedClientId : String → Except AppError String
  normalizeContextBlocks : List AiContextBlock → Except AppError (List AiContextBlock)
  persistContextArtifacts : List AiContextBlock → Except AppError (List AiContextBlock)
  imageAttachments : List AiContextBlock → Except AppError (List AiImageAttachment)

inductive Enqueued
  | accepted (item : PreparedUserInjection)
  /-- The message has a receipt, or waits in the inbox already. -/
  | repeated (queueId : String)
  | closed (queueId : String)
  | failed (error : AppError)

def Enqueued.response : Enqueued → Except AppError Unit
  | .accepted _ | .repeated _ => .ok ()
  | .closed _ => .error injectionClosedError
  | .failed error => .error error

/-- The message that an answer confirms. -/
def Enqueued.confirms : Enqueued → Option String
  | .accepted item => some item.queueId
  | .repeated queueId => some queueId
  | _ => none

/-- The message that a request asks to insert. -/
def prepareInjection (calls : EnqueueCalls) (budget : ℕ) (queueId : String) (request : EnqueueRequest) :
    Except AppError PreparedUserInjection := do
  let content := Text.trim request.content
  let normalized ← calls.normalizeContextBlocks request.contexts
  if content = "" ∧ normalized = [] then .error blankInsertion
  else
    let contexts ← calls.persistContextArtifacts normalized
    let modelMessage ← userMessage calls.imageAttachments content contexts budget
    .ok ⟨queueId,content,contexts,modelMessage⟩

/-- What the command does while it holds the lock of the inbox. -/
def enqueueLocked (calls : EnqueueCalls) (budget : ℕ) (inbox : AgentMessageInbox) (request : EnqueueRequest) :
    Enqueued :=
  match calls.validatedClientId request.queueId with
  | .error error => .failed error
  | .ok queueId =>
    if queueId ∈ inbox.committed then .repeated queueId
    else if inbox.closed then .closed queueId
    else if inbox.pending.any (·.queueId = queueId) then .repeated queueId
    else
      match prepareInjection calls budget queueId request with
      | .error error => .failed error
      | .ok item => .accepted item

/-! ## The loop of the agent -/

inductive LoopPc
  | head (interrupted : Bool)
  | consuming (interrupted : Bool)
  | consumed
  | requested
  | preempted
  | answered
  | tools (interrupted : Bool)
  /-- The run has returned without an error. -/
  | returned
  | failed
  /-- The stream completes normally. -/
  | completed
  /-- The stream was stopped. -/
  | stopped

/-- A stream with its inbox. `accepted` are the messages that were put into the inbox, `persisted` those that
were written to the session and handed to the conversation, and `seen` those that the last request had. -/
structure InsertionRun where
  loop : LoopPc
  inbox : AgentMessageInbox
  /-- The command that holds the operation lock, with the inbox of the stream at hand. -/
  command : Option EnqueueRequest
  entry : Bool
  stop : Bool
  session : List SessionMessage
  reply : CurrentReply
  answers : List Enqueued
  accepted : List PreparedUserInjection
  persisted : List PreparedUserInjection
  seen : List PreparedUserInjection

inductive InsertionAction
  | lookUp (request : EnqueueRequest)
  /-- The calls behave as they do this time. -/
  | insert (calls : EnqueueCalls) (budget : ℕ)
  | enter
  | consume (assistantId : String) (storage : Except AppError Unit)
  | send | preempt
  | write (content thinking : String) (toolCalls : List AiToolCallRecord)
  | turn (calls : Bool)
  | runTool | finishTools
  | fail | complete
  | stop | abort
  | leave

namespace InsertionRun

def answer (s : InsertionRun) (answer : Enqueued) : InsertionRun :=
  { s with command := none, answers := s.answers ++ [answer] }

/-- The body of the command. -/
def insert (s : InsertionRun) (calls : EnqueueCalls) (budget : ℕ) (request : EnqueueRequest) : InsertionRun :=
  match enqueueLocked calls budget s.inbox request with
  | .accepted item =>
    { s.answer (.accepted item) with
      inbox := s.inbox.enqueue item
      accepted := s.accepted ++ [item] }
  | answer => s.answer answer

/-- `consume_messages`, under the locks of the current message and of the inbox. -/
def consumeMessages (s : InsertionRun) (finishIfEmpty interrupted : Bool) (assistantId : String)
    (storage : Except AppError Unit) : Except InsertionRun (InsertionRun × Bool) :=
  if s.stop then .ok (s,false)
  else
    let pending := s.inbox.pending
    let s := { s with inbox := s.inbox.take finishIfEmpty }
    if pending.isEmpty then .ok (s,false)
    else
      match storage.bind fun _ =>
        persistMessageInjection s.session s.reply pending interrupted assistantId with
      | .error _ => .error s
      | .ok session => .ok
        ({ s with
          inbox := s.inbox.recordCommit (pending.map (·.queueId))
          session := session
          reply := ⟨assistantId,"","",[]⟩
          persisted := s.persisted ++ pending },true)

/-- The loop goes on behind a call of `consume_messages`, or ends with its error. -/
def afterConsume (result : Except InsertionRun (InsertionRun × Bool)) (next : Bool → LoopPc) : InsertionRun :=
  match result with
  | .error s => { s with loop := .failed }
  | .ok (s,consumed) => { s with loop := next consumed }

def loopStep (s : InsertionRun) : InsertionAction → Option InsertionRun
  | .enter =>
    match s.loop with
    | .head interrupted => some { s with loop := if s.stop then .returned else .consuming interrupted }
    | _ => none
  | .consume assistantId storage =>
    match s.loop with
    | .consuming interrupted =>
      some (afterConsume (s.consumeMessages false interrupted assistantId storage) fun _ => .consumed)
    | .preempted => some (afterConsume (s.consumeMessages false true assistantId storage) fun _ => .head false)
    | .answered => some (afterConsume (s.consumeMessages true false assistantId storage) fun consumed =>
        if consumed then .head false else .returned)
    | _ => none
  | .send =>
    match s.loop with
    | .consumed => some { s with loop := .requested, seen := s.persisted }
    | _ => none
  | .preempt =>
    match s.loop with
    | .requested => if s.inbox.preemption then some { s with loop := .preempted } else none
    | _ => none
  | .write content thinking toolCalls =>
    some { s with reply := ⟨s.reply.messageId,content,thinking,toolCalls⟩ }
  | .turn calls =>
    match s.loop with
    | .requested =>
      some { s with loop := if s.stop then .returned else if calls then .tools false else .answered }
    | _ => none
  | .runTool =>
    match s.loop with
    | .tools interrupted =>
      some { s with loop := if s.stop then .returned else .tools (interrupted || s.inbox.preemption) }
    | _ => none
  | .finishTools =>
    match s.loop with
    | .tools interrupted => some { s with loop := .head interrupted }
    | _ => none
  | .fail =>
    match s.loop with
    | .requested | .tools _ => some { s with loop := .failed }
    | _ => none
  | .complete =>
    match s.loop with
    | .returned => some { s with loop := if s.stop then .stopped else .completed }
    | _ => none
  | _ => none

def commandStep (s : InsertionRun) : InsertionAction → Option InsertionRun
  | .lookUp request =>
    match s.command with
    | none => some (if s.entry then { s with command := some request }
        else s.answer (.failed injectionClosedError))
    | some _ => none
  | .insert calls budget => s.command.map fun request => s.insert calls budget request
  -- A stop command waits for the operation lock, too.
  | .stop => if s.command.isSome then none else some { s with stop := s.stop || s.entry, entry := false }
  | .abort =>
    match s.loop with
    | .requested | .tools _ => if s.stop then some { s with loop := .stopped } else none
    | _ => none
  | .leave =>
    match s.loop with
    | .failed | .completed | .stopped => some { s with entry := false }
    | _ => none
  | _ => none

def step (s : InsertionRun) (a : InsertionAction) : Option InsertionRun := (s.loopStep a).or (s.commandStep a)

/-- A stream at its start, with the message of its reply in a session whose identifiers differ. -/
structure Opening (s : InsertionRun) : Prop where
  loop : s.loop = .head false
  inbox : s.inbox = .default
  command : s.command = none
  entry : s.entry = true
  stop : s.stop = false
  answers : s.answers = []
  accepted : s.accepted = []
  persisted : s.persisted = []
  seen : s.seen = []
  nodup : (s.session.map (·.id)).Nodup
  reply : s.reply.messageId ∈ s.session.map (·.id)

end InsertionRun

end Mxterm.Insertions
