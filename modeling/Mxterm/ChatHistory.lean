import Mxterm.AgentConversation
import Mxterm.Execution
import Mathlib.Data.List.Nodup

/-! The messages that the store of the sessions holds, and what a model is sent of them
(`ai_assistant.rs`). -/
namespace Mxterm.Agent

structure AiContextBlock where
  kind : String
  title : String
  content : String
  source : String
  lineCount : ℕ
  charCount : ℕ
  artifactId : Option String

structure AiToolCallRecord where
  id : String
  name : String
  arguments : Option String
  status : String
  exitStatus : Option ℕ
  output : String
  outputArtifactId : Option String
  error : Option String

/-- The calls of a reply, of which no two have one id. -/
structure ToolCallRecords where
  records : List AiToolCallRecord
  nodup : (records.map (·.id)).Nodup

/-- A stored message. One of the user has a text or something attached. -/
structure AiChatMessage where
  role : String
  content : String
  contexts : List AiContextBlock
  toolCalls : ToolCallRecords
  not_blank : role = "user" → content ≠ "" ∨ contexts ≠ []

/-! ## Messages of the user -/

def excerptTextForModel (content : String) (maxChars : ℕ) : String × Bool :=
  let chars := content.toList
  if chars.length ≤ maxChars then (content,false)
  else if maxChars < 32 then (String.ofList (chars.take maxChars),true)
  else
    let headChars := maxChars * 2 / 5
    let tailChars := maxChars - headChars
    (String.ofList (chars.take headChars) ++ "\n\n[…中间内容已省略…]\n\n" ++
      String.ofList (chars.drop (chars.length - tailChars)),true)

/-- What is left for the files that are not yet in the text: their number and the characters for them. -/
abbrev Allowance := ℕ × ℕ

def imageNote (block : AiContextBlock) : String :=
  "\n[图片附件 | " ++ block.title ++ " | " ++ block.source ++
    ((block.artifactId.map fun id => " | attachment_id=" ++ id).getD "") ++ "]\n请结合这张图片回答用户问题。\n"

/-- The content of a block, and what is left after it. -/
def modelContent (left : Allowance) (block : AiContextBlock) : String × Allowance :=
  if block.kind = "file" then
    match block.artifactId with
    | some attachmentId => (block.content ++
        "\n\n[完整附件已保存；Agent 模式需要查看时调用 read_attachment，attachment_id=" ++ attachmentId ++
        "，可用 offset/limit 分段读取。]",left)
    | none =>
      let allocation := if left.1 = 0 then 0 else max (left.2 / left.1) 1
      let (excerpt,truncated) := excerptTextForModel block.content allocation
      (if truncated then excerpt ++ "\n\n[附件中间内容因模型上下文限制未发送；完整内容仍保存在会话附件中。]"
        else excerpt,(left.1 - 1,left.2 - min block.content.length allocation))
  else (block.content,left)

def contextNote (block : AiContextBlock) (content : String) : String :=
  "\n[" ++ block.title ++ " | " ++ block.source ++ " | " ++ toString block.lineCount ++ " 行 | " ++
    toString block.charCount ++ " 字" ++
    ((block.artifactId.map fun id => " | attachment_id=" ++ id).getD "") ++ "]\n" ++ content ++ "\n"

def contextNotes : Allowance → List AiContextBlock → String
  | _,[] => ""
  | left,block :: blocks =>
    if block.kind = "image" then imageNote block ++ contextNotes left blocks
    else
      let (content,left) := modelContent left block
      contextNote block content ++ contextNotes left blocks

def formatUserMessageForModel (content : String) (contexts : List AiContextBlock)
    (attachmentCharBudget : ℕ) : String :=
  if contexts.isEmpty then content
  else "以下是用户在发送前可见并确认附加的上下文：\n" ++
    contextNotes ((contexts.filter (·.kind = "file")).length,attachmentCharBudget) contexts ++
    "\n用户问题：\n" ++ content

theorem formatUserMessageForModel_ne_empty {content : String} {contexts : List AiContextBlock}
    (h : content ≠ "" ∨ contexts ≠ []) (budget : ℕ) :
    formatUserMessageForModel content contexts budget ≠ "" := by
  cases contexts with
  | nil => exact h.resolve_right (absurd rfl)
  | cons block blocks =>
    intro hempty
    rw [formatUserMessageForModel,if_neg (by simp),String.append_eq_empty_iff] at hempty
    have hheading := (String.append_eq_empty_iff.mp hempty.1).2
    exact absurd hheading (by decide)

/-! ## Replies -/

def marker : String := "[本轮工具调用记录]"

/-- `find`: the texts before and behind the first place of a pattern. -/
def splitAtPattern (pattern : List Char) : List Char → Option (List Char × List Char)
  | [] => if pattern = [] then some ([],[]) else none
  | c :: chars =>
    if pattern.isPrefixOf (c :: chars) then some ([],(c :: chars).drop pattern.length)
    else (splitAtPattern pattern chars).map fun parts => (c :: parts.1,parts.2)

def trimEnd (chars : List Char) : String := String.ofList (chars.rdropWhile Text.isWhitespace)

def trimStart (s : String) : String := String.ofList (s.toList.dropWhile Text.isWhitespace)

def inSummary (line : String) : Bool :=
  let trimmed := Text.trim line
  trimmed = "" ∨ Text.startsWith trimmed "- "

def stripToolCallSummary (content : String) : String :=
  match splitAtPattern marker.toList content.toList with
  | none => content
  | some (before,behind) =>
    let head := trimEnd before
    let trailing := (Text.lines (String.ofList behind)).dropWhile inSummary
    let suffix := trimStart ("\n".intercalate trailing)
    if head = "" ∧ suffix = "" then ""
    else if suffix = "" then head
    else if head = "" then suffix
    else head ++ "\n\n" ++ suffix

def nonblank (value : Option String) : Option String := value.filter fun value => Text.trim value ≠ ""

def formatToolHistoryResult (call : AiToolCallRecord) : String :=
  "工具 " ++ call.name ++ " 状态：" ++ call.status ++
    ((call.exitStatus.map fun exitStatus => "，退出码：" ++ toString exitStatus).getD "") ++
    (((nonblank call.error).map fun error => "\n错误：" ++ error).getD "") ++
    (if Text.trim call.output = "" then "" else "\n输出：" ++ call.output) ++
    (((nonblank call.outputArtifactId).map fun artifactId => "\n完整输出已保存，artifact_id=" ++ artifactId ++
      "；可调用 read_tool_output 分段读取。").getD "")

/-- The arguments of a call that can be sent again. -/
def replayArguments (call : AiToolCallRecord) : Option String := (nonblank call.arguments).map Text.trim

def replayedCall (call : AiToolCallRecord) : Option AgentToolCall :=
  (replayArguments call).map fun arguments => ⟨call.id,call.name,arguments⟩

def resultMessage (call : AiToolCallRecord) : AiModelMessage where
  role := "tool"
  content := formatToolHistoryResult call
  images := []
  toolCalls := []
  toolCallId := some call.id

/-- The content of a reply, with the results of the calls that cannot be sent again. -/
def replyContent (message : AiChatMessage) : String :=
  let content := stripToolCallSummary message.content
  let legacyResults := ((message.toolCalls.records.filter fun call => replayArguments call = none).map
    formatToolHistoryResult).filter (· ≠ "")
  if legacyResults.isEmpty then content
  else (if Text.trim content = "" then content else content ++ "\n\n") ++ "[历史工具结果]\n" ++
    "\n".intercalate legacyResults

def replyMessages (message : AiChatMessage) : List AiModelMessage :=
  let calls := message.toolCalls.records.filterMap replayedCall
  let content := replyContent message
  if Text.trim content = "" ∧ calls = [] then []
  else
    { role := "assistant"
      content := content
      images := []
      toolCalls := calls.map callValue
      toolCallId := none } ::
      (message.toolCalls.records.filter fun call => replayArguments call ≠ none).map resultMessage

section History

-- `image_attachments_from_contexts_for_session`, which reads the files of the attachments.
variable (imageAttachments : List AiContextBlock → Except AppError (List AiImageAttachment))

def userMessage (content : String) (contexts : List AiContextBlock) (budget : ℕ) :
    Except AppError AiModelMessage := do
  let images ← imageAttachments contexts
  .ok
    { role := "user"
      content := formatUserMessageForModel content contexts budget
      images := images
      toolCalls := []
      toolCallId := none }

def historyMessages (budget : ℕ) (message : AiChatMessage) : Except AppError (List AiModelMessage) :=
  if message.role = "user" then do
    let user ← userMessage imageAttachments message.content message.contexts budget
    .ok [user]
  else if message.role = "assistant" then .ok (replyMessages message)
  else .ok []

def modelMessagesFromHistory (budget : ℕ) : List AiChatMessage → Except AppError (List AiModelMessage)
  | [] => .ok []
  | message :: messages => do
    let output ← historyMessages imageAttachments budget message
    let rest ← modelMessagesFromHistory budget messages
    .ok (output ++ rest)

end History

end Mxterm.Agent
