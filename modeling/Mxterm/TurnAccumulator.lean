import Mxterm.AgentConversation
import Mxterm.OrderedSlots

/-! A turn of the model is put together from the events of a stream (`ai_agent.rs`), in the three formats of
the providers. -/
namespace Mxterm.Agent

/-- `as_u64`. -/
def unsigned? : Json → Option ℕ
  | .number value => if value.den = 1 ∧ 0 ≤ value.num ∧ value.num < 2 ^ 64 then some value.num.toNat else none
  | _ => none

/-- A step of `pointer`: the field of an object, or the first item of an array. -/
def firstOf : Json → Option Json
  | .object fields => (Json.object fields).get? "0"
  | .array items => items.head?
  | _ => none

/-- `pointer("/choices/0/delta")`. -/
def choiceDelta (value : Json) : Option Json := ((value.get? "choices").bind firstOf).bind (·.get? "delta")

/-- `get(name).and_then(Value::as_str).unwrap_or_default()`. -/
def textField (value : Json) (name : String) : String := (value.getText? name).getD ""

/-- `get(name).cloned().unwrap_or(Value::Null)`. -/
def field (value : Json) (name : String) : Json := (value.get? name).getD .null

def truncateChars (value : String) (maxChars : ℕ) : String :=
  if value.length ≤ maxChars then value else String.ofList (value.toList.take maxChars ++ ['…'])

structure TurnAccumulator where
  text : String
  thinking : String
  tools : Slots AgentToolCall

/-- What an event says besides: that the turn is done, and the new text and thinking. -/
abbrev Applied := TurnAccumulator × Bool × String × String

def AgentToolCall.blank : AgentToolCall := ⟨"","",""⟩

/-- `tools.entry(index).or_default()`, and what is done to the entry. -/
def onEntry (f : AgentToolCall → AgentToolCall) (entry : Option AgentToolCall) : AgentToolCall :=
  f (entry.getD .blank)

/-- What the library for JSON does: parsing, with the text of its errors, and printing. -/
structure JsonTexts where
  parse : String → Except String Json
  print : Json → String

section Events

variable (json : JsonTexts)

def streamParseError (error : String) : AppError :=
  ⟨"ai_stream_parse_failed","AI 流式响应解析失败。",error,true⟩

def providerStreamError (payload : Json) : AppError :=
  ⟨"ai_provider_stream_error","AI 服务返回流式错误。",truncateChars (json.print payload) 1200,true⟩

def parseEvent (data : String) : Except AppError Json :=
  match json.parse data with
  | .ok value => .ok value
  | .error error => .error (streamParseError error)

namespace TurnAccumulator

def default : TurnAccumulator := ⟨"","",.empty⟩

/-! ## OpenAI-compatible chunks -/

def setId (id : Option String) (entry : AgentToolCall) : AgentToolCall :=
  match id with
  | some id => if id = "" then entry else { entry with id := id }
  | none => entry

/-- The first name that is given stays. -/
def setName (name : Option String) (entry : AgentToolCall) : AgentToolCall :=
  match name with
  | some name => if name ≠ "" ∧ entry.name = "" then { entry with name := name } else entry
  | none => entry

def addArguments (arguments : Option String) (entry : AgentToolCall) : AgentToolCall :=
  match arguments with
  | some arguments => { entry with arguments := entry.arguments ++ arguments }
  | none => entry

/-- What one item of `tool_calls` does to its entry. -/
def openaiEntry (call : Json) (entry : AgentToolCall) : AgentToolCall :=
  let entry := setId (call.getText? "id") entry
  match call.get? "function" with
  | none => entry
  | some function =>
    addArguments (function.getText? "arguments") (setName (function.getText? "name") entry)

def openaiIndex (call : Json) (position : ℕ) : ℕ := ((call.get? "index").bind unsigned?).getD position

def applyOpenaiCalls (tools : Slots AgentToolCall) (calls : List Json) : Slots AgentToolCall :=
  calls.zipIdx.foldl (fun tools (call,position) =>
    tools.update (openaiIndex call position) (onEntry (openaiEntry call))) tools

def applyOpenaiEvent (acc : TurnAccumulator) (data : String) : Except AppError Applied :=
  if data = "[DONE]" then .ok (acc,true,"","")
  else
    match parseEvent json data with
    | .error e => .error e
    | .ok value =>
      match value.get? "error" with
      | some error => .error (providerStreamError json error)
      | none =>
        match choiceDelta value with
        | none => .ok (acc,false,"","")
        | some delta =>
          let thinking := (((delta.get? "reasoning_content").orElse fun _ =>
            delta.get? "reasoning").bind Json.text?).getD ""
          let text := textField delta "content"
          let acc := { acc with text := acc.text ++ text, thinking := acc.thinking ++ thinking }
          match (delta.get? "tool_calls").bind Json.array? with
          | none => .ok (acc,false,text,thinking)
          | some calls => .ok ({ acc with tools := applyOpenaiCalls acc.tools calls },false,text,thinking)

/-! ## Responses events -/

def responsesIndex (value : Json) : ℕ :=
  (((value.get? "output_index").orElse fun _ => value.get? "index").bind unsigned?).getD 0

/-- The fields that an item has replace those of the entry. -/
def itemEntry (item : Json) (entry : AgentToolCall) : AgentToolCall :=
  ⟨(item.getText? "call_id").getD entry.id,(item.getText? "name").getD entry.name,
    (item.getText? "arguments").getD entry.arguments⟩

def applyResponsesEvent (acc : TurnAccumulator) (data : String) : Except AppError Applied :=
  match parseEvent json data with
  | .error e => .error e
  | .ok value =>
    match value.get? "error" with
    | some error => .error (providerStreamError json error)
    | none =>
      let index := responsesIndex value
      let eventType := textField value "type"
      if eventType = "response.output_text.delta" then
        let text := textField value "delta"
        .ok ({ acc with text := acc.text ++ text },false,text,"")
      else if eventType = "response.reasoning_summary_text.delta" ∨
          eventType = "response.reasoning_text.delta" then
        let thinking := textField value "delta"
        .ok ({ acc with thinking := acc.thinking ++ thinking },false,"",thinking)
      else if eventType = "response.output_item.added" ∨ eventType = "response.output_item.done" then
        let item := field value "item"
        if item.getText? "type" = some "function_call" then
          .ok ({ acc with tools := acc.tools.update index (onEntry (itemEntry item)) },false,"","")
        else .ok (acc,false,"","")
      else if eventType = "response.function_call_arguments.delta" then
        .ok ({ acc with tools := acc.tools.update index (onEntry fun entry =>
          { entry with arguments := entry.arguments ++ textField value "delta" }) },false,"","")
      else if eventType = "response.function_call_arguments.done" then
        .ok ({ acc with tools := acc.tools.update index (onEntry fun entry =>
          { entry with arguments := (value.getText? "arguments").getD entry.arguments }) },false,"","")
      else if eventType = "response.completed" ∨ eventType = "response.done" then .ok (acc,true,"","")
      else if eventType = "response.failed" ∨ eventType = "response.incomplete" then
        .error (providerStreamError json ((value.get? "error").getD value))
      else .ok (acc,false,"","")

/-! ## Anthropic events -/

def anthropicIndex (value : Json) : ℕ := ((value.get? "index").bind unsigned?).getD 0

/-- The call that a `tool_use` block begins with. -/
def blockCall (block : Json) : AgentToolCall where
  id := textField block "id"
  name := textField block "name"
  arguments := match block.get? "input" with
    | some (.object (entry :: fields)) => json.print (.object (entry :: fields))
    | _ => ""

/-- The tools, the text and the thinking of an event that does not end the turn. -/
def anthropicParts (tools : Slots AgentToolCall) (value : Json) : Slots AgentToolCall × String × String :=
  let index := anthropicIndex value
  let eventType := textField value "type"
  if eventType = "content_block_start" then
    let block := field value "content_block"
    let blockType := textField block "type"
    if blockType = "text" then (tools,textField block "text","")
    else if blockType = "tool_use" then (tools.update index fun _ => blockCall json block,"","")
    else (tools,"","")
  else if eventType = "content_block_delta" then
    let delta := field value "delta"
    let deltaType := textField delta "type"
    if deltaType = "input_json_delta" then
      (tools.update index (onEntry fun entry =>
        { entry with arguments := entry.arguments ++ textField delta "partial_json" }),"","")
    else if deltaType = "thinking_delta" then (tools,"",textField delta "thinking")
    else (tools,textField delta "text","")
  else (tools,"","")

def applyAnthropicEvent (acc : TurnAccumulator) (data : String) : Except AppError Applied :=
  if data = "[DONE]" then .ok (acc,true,"","")
  else
    match parseEvent json data with
    | .error e => .error e
    | .ok value =>
      let eventType := textField value "type"
      if eventType = "message_stop" then .ok (acc,true,"","")
      else if eventType = "error" then .error (providerStreamError json value)
      else
        let (tools,text,thinking) := anthropicParts json acc.tools value
        .ok (⟨acc.text ++ text,acc.thinking ++ thinking,tools⟩,false,text,thinking)

def applyEvent (format : AiApiFormat) (acc : TurnAccumulator) (data : String) : Except AppError Applied :=
  match format with
  | .openaiCompatible => acc.applyOpenaiEvent json data
  | .responses => acc.applyResponsesEvent json data
  | .anthropic => acc.applyAnthropicEvent json data

/-- The events of a stream, one after the other. -/
def applyEvents (format : AiApiFormat) (acc : TurnAccumulator) (events : List String) :
    Except AppError TurnAccumulator :=
  events.foldlM (fun acc data => (acc.applyEvent json format data).map Prod.fst) acc

end TurnAccumulator

end Events

/-- `Uuid::simple`. -/
def simple (uuid : Uuid) : String := String.ofList (uuid.toString.toList.filter (· ≠ '-'))

def finishCall (uuid : Uuid) (call : AgentToolCall) : AgentToolCall where
  id := if Text.trim call.id = "" then "call_" ++ simple uuid else call.id
  name := call.name
  arguments := if Text.trim call.arguments = "" then "\x7b\x7d" else call.arguments

/-- The turn, with the identifiers that are drawn for its calls. -/
def TurnAccumulator.finish (acc : TurnAccumulator) (uuids : ℕ → Uuid) : AgentTurn where
  text := acc.text
  thinking := acc.thinking
  toolCalls := (acc.tools.values.filter fun call => Text.trim call.name ≠ "").mapIdx fun n call =>
    finishCall (uuids n) call

end Mxterm.Agent
