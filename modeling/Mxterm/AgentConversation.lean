import Mxterm.Json
import Mxterm.Values

/-! The conversation that `ai_agent.rs` sends to a model with every request, in the three formats
of the providers, and its compaction. -/
namespace Mxterm.Agent

inductive AiApiFormat
  | openaiCompatible | responses | anthropic
  deriving DecidableEq

structure AiImageAttachment where
  title : String
  mediaType : String
  dataBase64 : String

structure AiModelMessage where
  role : String
  content : String
  images : List AiImageAttachment
  toolCalls : List Json
  toolCallId : Option String

structure AgentToolCall where
  id : String
  name : String
  arguments : String

/-- A call as a turn and the history of a session hold it. -/
def callValue (call : AgentToolCall) : Json :=
  .object [("id",.text call.id),("type",.text "function"),("function",
    .object [("name",.text call.name),("arguments",.text call.arguments)])]

structure AgentTurn where
  text : String
  thinking : String
  toolCalls : List AgentToolCall

structure ToolOutcome where
  content : String
  isError : Bool

def textPart (kind text : String) : Json := .object [("type",.text kind),("text",.text text)]

def dataUrl (image : AiImageAttachment) : String :=
  "data:" ++ image.mediaType ++ ";base64," ++ image.dataBase64

def openaiMessageValue (message : AiModelMessage) : Json :=
  let content := if message.images.isEmpty then Json.text message.content
    else .array (textPart "text" message.content :: message.images.map fun image =>
      .object [("type",.text "image_url"),("image_url",.object [("url",.text (dataUrl image))])])
  let value := Json.object [("role",.text message.role),("content",content)]
  let value := if message.toolCalls.isEmpty then value
    else value.set "tool_calls" (.array message.toolCalls)
  match message.toolCallId with
  | none => value
  | some id => value.set "tool_call_id" (.text id)

/-- A field of the `function` of a call. -/
def functionText (call : Json) (name : String) : Option String :=
  (call.get? "function").bind (Json.getText? · name)

def functionCall (id name arguments : String) : Json :=
  .object [("type",.text "function_call"),("call_id",.text id),("name",.text name),
    ("arguments",.text arguments)]

def functionCallOutput (id output : String) : Json :=
  .object [("type",.text "function_call_output"),("call_id",.text id),("output",.text output)]

/-- The text before the calls, a message of its own where there is any. -/
def outputText (text : String) : List Json :=
  if Text.trim text = "" then []
  else [.object [("role",.text "assistant"),("content",.array [textPart "output_text" text])]]

def inputMessage (message : AiModelMessage) : Json :=
  .object [("role",.text message.role),
    ("content",.array (textPart "input_text" message.content :: message.images.map fun image =>
      .object [("type",.text "input_image"),("image_url",.text (dataUrl image))]))]

def responsesMessageValues (message : AiModelMessage) : List Json :=
  if message.role = "tool" then
    [functionCallOutput (message.toolCallId.getD "") message.content]
  else if message.role = "assistant" ∧ ¬ message.toolCalls.isEmpty then
    outputText message.content ++ message.toolCalls.map fun call =>
      functionCall ((call.getText? "id").getD "") ((functionText call "name").getD "")
        ((functionText call "arguments").getD "{}")
  else
    [inputMessage message]

/-- The text before the tool uses, a part of its own where there is any. -/
def textParts (text : String) : List Json :=
  if Text.trim text = "" then [] else [textPart "text" text]

def imagePart (image : AiImageAttachment) : Json :=
  .object [("type",.text "image"),("source",.object [("type",.text "base64"),
    ("media_type",.text image.mediaType),("data",.text image.dataBase64)])]

section Parser

-- `serde_json::from_str`, which comes from a library.
variable (parse : String → Option Json)

def toolUse (id name : String) (input : Json) : Json :=
  .object [("type",.text "tool_use"),("id",.text id),("name",.text name),("input",input)]

/-- The message that `new` makes of a message of the history in Anthropic's format. -/
def anthropicMessageValue (message : AiModelMessage) : Json :=
  if message.role = "assistant" ∧ ¬ message.toolCalls.isEmpty then
    .object [("role",.text "assistant"),("content",.array (textParts message.content ++
      message.toolCalls.filterMap fun call => (call.get? "function").map fun function =>
        toolUse ((call.getText? "id").getD "") ((function.getText? "name").getD "")
          ((parse ((function.getText? "arguments").getD "{}")).getD (.object []))))]
  else if message.role = "tool" then
    .object [("role",.text "user"),("content",.array [.object [("type",.text "tool_result"),
      ("tool_use_id",.text (message.toolCallId.getD "")),("content",.text message.content)]])]
  else if message.images.isEmpty then
    .object [("role",.text message.role),("content",.text message.content)]
  else
    .object [("role",.text message.role),
      ("content",.array (textPart "text" message.content :: message.images.map imagePart))]

/-- What a message of the history becomes. -/
def messageValues (format : AiApiFormat) (message : AiModelMessage) : List Json :=
  match format with
  | .openaiCompatible => [openaiMessageValue message]
  | .responses => responsesMessageValues message
  | .anthropic => [anthropicMessageValue parse message]

def parseToolInput (arguments : String) : Json :=
  ((parse arguments).filter Json.isObject).getD (.object [])

end Parser

mutual

def summarizeMessageValue : Json → String
  | .text value => value
  | .array items => "\n".intercalate ((summarizeItems items).filter (· ≠ ""))
  | .object fields =>
    let kind := ((fields.find? (·.1 = "type")).map Prod.snd).bind Json.text?
    if kind = some "input_image" ∨ kind = some "image" then "[图片附件]"
    else ((summarizeField "text" fields).or (summarizeField "content" fields)).getD ""
  | _ => ""

def summarizeItems : List Json → List String
  | [] => []
  | item :: items => summarizeMessageValue item :: summarizeItems items

def summarizeField (name : String) : List (String × Json) → Option String
  | [] => none
  | field :: fields =>
    if field.1 = name then some (summarizeMessageValue field.2) else summarizeField name fields

end

mutual

def countImageParts : Json → ℕ
  | .array items => countItems items
  | .object fields =>
    let kind := ((fields.find? (·.1 = "type")).map Prod.snd).bind Json.text?
    (if kind = some "input_image" ∨ kind = some "image" ∨ kind = some "image_url" then 1 else 0) +
      countFields fields
  | _ => 0

def countItems : List Json → ℕ
  | [] => 0
  | item :: items => countImageParts item + countItems items

def countFields : List (String × Json) → ℕ
  | [] => 0
  | field :: fields => countImageParts field.2 + countFields fields

end

def tailChars (value : String) (maxChars : ℕ) : String × Bool :=
  let total := value.length
  if total ≤ maxChars then (value,false)
  else (String.ofList (value.toList.drop (total - maxChars)),true)

def compactMessageSummary (messages : List Json) : String :=
  let lines := messages.flatMap fun message =>
    let role := (message.getText? "role").getD "unknown"
    let text := ((message.get? "content").map summarizeMessageValue).getD ""
    let tail := tailChars text 700
    (if text = "" then [] else [role ++ ": " ++ tail.1 ++ (if tail.2 then " …" else "")]) ++
      ((message.items "tool_calls").take 12).map fun call =>
        "assistant tool_call: " ++ (functionText call "name").getD "unknown"
  let summary := "\n".intercalate lines
  if summary = "" then "历史上下文已压缩，未保留可读文本。"
  else String.ofList (summary.toList.take 6000)

structure AgentConversation where
  format : AiApiFormat
  messages : List Json
  contextWindowTokens : ℕ
  compactCount : ℕ

def contextCompactThreshold : ℕ := 80
def contextCompactTarget : ℕ := 60

/-- `while` the message at `index` has the role of a tool, go on. -/
def skipTools (messages : List Json) (index : ℕ) : ℕ :=
  index + ((messages.drop index).takeWhile fun message =>
    message.getText? "role" = some "tool").length

/-- The parts of a content that is taken out of its message. -/
def contentParts : Option Json → List Json
  | some (.array parts) => parts
  | some (.text text) => [textPart "text" text]
  | _ => []

/-- One message in Anthropic's format, which goes into the last one where that is the user's. -/
def mergeUserMessage (messages : List Json) (message : Json) : List Json :=
  match messages.getLast? with
  | none => messages ++ [message]
  | some last =>
    if last.getText? "role" = some "user" then
      messages.dropLast ++ [last.set "content"
        (.array (contentParts (last.get? "content") ++ contentParts (message.get? "content")))]
    else messages ++ [message]

namespace AgentConversation

variable (parse : String → Option Json)

def new (format : AiApiFormat) (history : List AiModelMessage) (contextWindowTokens : ℕ) :
    AgentConversation where
  format := format
  contextWindowTokens := max contextWindowTokens 1
  compactCount := 0
  messages := (history.filter (·.role ≠ "system")).flatMap (messageValues parse format)

def pushUserMessage (c : AgentConversation) (message : AiModelMessage) : AgentConversation :=
  let encoded := new parse c.format [message] c.contextWindowTokens
  match c.format with
  | .anthropic => { c with messages := encoded.messages.foldl mergeUserMessage c.messages }
  | _ => { c with messages := c.messages ++ encoded.messages }

def pushAssistantTurn (c : AgentConversation) (turn : AgentTurn) : AgentConversation :=
  match c.format with
  | .openaiCompatible =>
    { c with messages := c.messages ++ [.object [("role",.text "assistant"),
      ("content",if turn.text = "" then .null else .text turn.text),
      ("tool_calls",.array (turn.toolCalls.map callValue))]] }
  | .responses =>
    { c with messages := c.messages ++ (outputText turn.text ++
      turn.toolCalls.map fun call => functionCall call.id call.name call.arguments) }
  | .anthropic =>
    { c with messages := c.messages ++ [.object [("role",.text "assistant"),("content",.array (
      textParts turn.text ++ turn.toolCalls.map fun call =>
        toolUse call.id call.name (parseToolInput parse call.arguments)))]] }

def pushToolResults (c : AgentConversation) (results : List (AgentToolCall × ToolOutcome)) :
    AgentConversation :=
  match c.format with
  | .openaiCompatible =>
    { c with messages := c.messages ++ results.map fun result => .object [("role",.text "tool"),
      ("tool_call_id",.text result.1.id),("content",.text result.2.content)] }
  | .responses =>
    { c with messages := c.messages ++ results.map fun result =>
      functionCallOutput result.1.id result.2.content }
  | .anthropic =>
    { c with messages := c.messages ++ [.object [("role",.text "user"),("content",.array
      (results.map fun result => .object [("type",.text "tool_result"),
        ("tool_use_id",.text result.1.id),("content",.text result.2.content),
        ("is_error",.bool result.2.isError)]))]] }

def estimatedTokens (c : AgentConversation) (system : String) : ℕ :=
  let chars := (c.messages.map fun message =>
    (summarizeMessageValue message).length + countImageParts message * 6400).sum + system.length
  max (chars / 4) 1

/-- The message that stands for the first ones. -/
def summaryMessage (c : AgentConversation) (count : ℕ) : Json :=
  .object [("role",.text "system"),("content",.text
    ("[上下文已压缩，第 " ++ toString c.compactCount ++ " 次]\n" ++
      compactMessageSummary (c.messages.take count)))]

/-- The first messages are drained and a summary of them is put in their place. -/
def summarizeFront (c : AgentConversation) (count : ℕ) : AgentConversation :=
  { c with messages := c.summaryMessage count :: c.messages.drop count }

/-- How many messages the first and the second round of a compaction drain. -/
def removeUntil (c : AgentConversation) : ℕ :=
  skipTools c.messages (c.messages.length - min c.messages.length 8)

def additionalEnd (c : AgentConversation) : ℕ := skipTools c.messages (c.messages.length - 4)

/-- The first round, and whether a second one follows it. -/
def firstRound (c : AgentConversation) : AgentConversation :=
  { c with compactCount := c.compactCount + 1 }.summarizeFront c.removeUntil

def goesOn (c : AgentConversation) (system : String) : Bool :=
  max (c.contextWindowTokens * contextCompactTarget / 100) 1 < c.estimatedTokens system ∧
    4 < c.messages.length ∧ 1 < c.additionalEnd

def starts (c : AgentConversation) (system : String) (force : Bool) : Bool :=
  ¬ (force = false ∧ c.estimatedTokens system <
      max (c.contextWindowTokens * contextCompactThreshold / 100) 1) ∧
    4 < c.messages.length ∧ c.removeUntil ≠ 0

def compactIfNeeded (c : AgentConversation) (system : String) (force : Bool) :
    AgentConversation × Bool :=
  if c.starts system force then
    let c := c.firstRound
    if c.goesOn system then (c.summarizeFront c.additionalEnd,true) else (c,true)
  else (c,false)

end AgentConversation

end Mxterm.Agent
