import Mxterm.ChatHistory
import Mxterm.ConversationCompaction

/-! The runs of an agent (`run_agent`): a stored history and a message of the user, then requests, turns,
results of tools, messages accepted meanwhile and compactions. -/
namespace Mxterm.Agent

open Exchanges

/-! ## What a provider accepts -/

/-- The messages of a request. The other formats have a field of their own for the system prompt. -/
def sentMessages (system : String) (c : AgentConversation) : List Json :=
  match c.format with
  | .openaiCompatible => .object [("role",.text "system"),("content",.text system)] :: c.messages
  | _ => c.messages

/-- The messages behind one that makes calls. In the format of responses the other calls of a turn are items
of their own. -/
def behindTurn (format : AiApiFormat) (after : List Json) : List Json :=
  if format = .responses then after.dropWhile (callIds format · ≠ []) else after

def SomeContent (message : Json) : Prop :=
  match message.get? "content" with
  | some (.text text) => text ≠ ""
  | some (.array parts) => parts ≠ []
  | _ => False

structure WellFormed (format : AiApiFormat) (messages : List Json) : Prop where
  /-- Among the results that directly follow a turn, each of its calls has exactly one. -/
  answered : ∀ before message after, messages = before ++ message :: after → ∀ id ∈ callIds format message,
    (((behindTurn format after).takeWhile (resultIds format · ≠ [])).flatMap (resultIds format)).count id = 1
  /-- Between a result and its call there are other results alone. -/
  asked : ∀ before message after, messages = before ++ message :: after → ∀ id ∈ resultIds format message,
    ∃ earlier asker between, before = earlier ++ asker :: between ∧ id ∈ callIds format asker ∧
      ∀ m ∈ behindTurn format between, resultIds format m ≠ []
  anthropic : format = .anthropic → ∀ message ∈ messages,
    (message.getText? "role" = some "user" ∨ message.getText? "role" = some "assistant") ∧ SomeContent message
  openai : format = .openaiCompatible → ∀ message ∈ messages, message.getText? "role" = some "assistant" →
    message.get? "tool_calls" ≠ some (.array [])

/-! ## Runs -/

section Runs

variable (parse : String → Option Json)
variable (imageAttachments : List AiContextBlock → Except AppError (List AiImageAttachment))

/-- A message that the user has sent, with a text or something attached. -/
def Sendable (message : AiModelMessage) : Prop :=
  ∃ content contexts budget, (content ≠ "" ∨ contexts ≠ []) ∧
    userMessage imageAttachments content contexts budget = .ok message

def AgentConversation.pushUserMessages (c : AgentConversation) (messages : List AiModelMessage) :
    AgentConversation :=
  messages.foldl (AgentConversation.pushUserMessage parse) c

/-- An interrupted turn is kept with its text. -/
def AgentConversation.pushInterrupted (c : AgentConversation) (text : String) : AgentConversation :=
  if Text.trim text = "" then c else c.pushAssistantTurn parse ⟨text,"",[]⟩

/-- A turn with calls, of which each has been executed. -/
def AgentConversation.pushExecuted (c : AgentConversation) (system : String) (turn : AgentTurn)
    (outcomes : List ToolOutcome) : AgentConversation :=
  let c := (c.pushAssistantTurn parse turn).pushToolResults (turn.toolCalls.zip outcomes)
  if turn.toolCalls.any (·.name = "compact_context") then (c.compactIfNeeded system true).1 else c

/-- At the head of the loop, and when a request is sent. -/
inductive Phase
  | head | sent

/-- The turns and the compactions that a run may meet. -/
structure Allowed where
  turn : AiApiFormat → AgentTurn → Prop
  compaction : AgentConversation → String → Bool → Prop

def Allowed.all : Allowed := ⟨fun _ _ => True,fun _ _ _ => True⟩

/-- The conversations of a run with one system prompt, where a run ends by stopping or failing anywhere. -/
inductive AgentRun (allowed : Allowed) (system : String) : Phase → AgentConversation → Prop
  | start {stored : List AiChatMessage} {history : List AiModelMessage} {message : AiModelMessage}
      {budget : ℕ} (format : AiApiFormat) (contextWindowTokens : ℕ) :
      modelMessagesFromHistory imageAttachments budget stored = .ok history →
      Sendable imageAttachments message →
      AgentRun allowed system .head (.new parse format (history ++ [message]) contextWindowTokens)
  | request {c : AgentConversation} {messages : List AiModelMessage} : AgentRun allowed system .head c →
      (∀ message ∈ messages, Sendable imageAttachments message) →
      allowed.compaction (c.pushUserMessages parse messages) system false →
      AgentRun allowed system .sent ((c.pushUserMessages parse messages).compactIfNeeded system false).1
  | interrupted {c : AgentConversation} {text : String} {messages : List AiModelMessage} :
      AgentRun allowed system .sent c →
      (Text.trim text ≠ "" → allowed.turn c.format ⟨text,"",[]⟩) →
      (∀ message ∈ messages, Sendable imageAttachments message) →
      AgentRun allowed system .head ((c.pushInterrupted parse text).pushUserMessages parse messages)
  | said {c : AgentConversation} {turn : AgentTurn} {messages : List AiModelMessage} :
      AgentRun allowed system .sent c → turn.toolCalls = [] → allowed.turn c.format turn →
      messages ≠ [] → (∀ message ∈ messages, Sendable imageAttachments message) →
      AgentRun allowed system .head ((c.pushAssistantTurn parse turn).pushUserMessages parse messages)
  | executed {c : AgentConversation} {turn : AgentTurn} {outcomes : List ToolOutcome} :
      AgentRun allowed system .sent c → turn.toolCalls ≠ [] → allowed.turn c.format turn →
      outcomes.length = turn.toolCalls.length →
      (turn.toolCalls.any (·.name = "compact_context") → allowed.compaction
        ((c.pushAssistantTurn parse turn).pushToolResults (turn.toolCalls.zip outcomes)) system true) →
      AgentRun allowed system .head (c.pushExecuted parse system turn outcomes)

end Runs

/-- A turn whose calls have different identifiers and whose message is one that the format allows. -/
def RegularTurn (format : AiApiFormat) (turn : AgentTurn) : Prop :=
  (turn.toolCalls.map (·.id)).Nodup ∧ (format = .openaiCompatible → turn.toolCalls ≠ []) ∧
    (format = .anthropic → turn.toolCalls ≠ [] ∨ Text.trim turn.text ≠ "")

/-- A compaction after which the format allows the messages: in Anthropic's there is none, and in the format
of responses no cut lies between a call and its result. -/
def RegularCompaction (c : AgentConversation) (system : String) (force : Bool) : Prop :=
  (c.format = .anthropic → c.starts system force = false) ∧ (c.format = .responses → c.CutsClean system force)

def Allowed.regular : Allowed := ⟨RegularTurn,RegularCompaction⟩

end Mxterm.Agent
