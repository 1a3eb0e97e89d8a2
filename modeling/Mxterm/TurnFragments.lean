import Mxterm.TurnAccumulator

/-! The calls of a turn, cut into pieces that arrive in any order: what is put together from them. -/
namespace Mxterm.Agent

open List

/-- What an event can say about a call. -/
inductive Piece
  /-- An item of `tool_calls`; a text is empty where the chunk says nothing. -/
  | fragment (id name arguments : String)
  /-- A `function_call` item with the fields that it has. -/
  | item (id name arguments : Option String)
  | delta (arguments : String)
  | whole (arguments : Option String)
  /-- The begin of a `tool_use` block. -/
  | block (call : AgentToolCall)

def Piece.onCall : Piece → AgentToolCall → AgentToolCall
  | .fragment id name arguments, entry =>
    ⟨if id = "" then entry.id else id,if name ≠ "" ∧ entry.name = "" then name else entry.name,
      entry.arguments ++ arguments⟩
  | .item id name arguments, entry =>
    ⟨id.getD entry.id,name.getD entry.name,arguments.getD entry.arguments⟩
  | .delta arguments, entry => { entry with arguments := entry.arguments ++ arguments }
  | .whole arguments, entry => { entry with arguments := arguments.getD entry.arguments }
  | .block call, _ => call

/-- What an event says: text, thinking, and pieces of calls, each with the number of its slot. -/
structure EventParts where
  text : String
  thinking : String
  pieces : List (ℕ × Piece)

def EventParts.nothing : EventParts := ⟨"","",[]⟩

def writes (pieces : List (ℕ × Piece)) : List (Slots.Write AgentToolCall) :=
  pieces.map fun piece => (piece.1,onEntry piece.2.onCall)

def TurnAccumulator.add (acc : TurnAccumulator) (parts : EventParts) : TurnAccumulator :=
  ⟨acc.text ++ parts.text,acc.thinking ++ parts.thinking,(writes parts.pieces).foldl Slots.write acc.tools⟩

section Parts

variable (json : JsonTexts)

/-- The text of a field of the `function` of a call. -/
def functionField (call : Json) (name : String) : String :=
  ((call.get? "function").bind (·.getText? name)).getD ""

def openaiPiece (call : Json) : Piece :=
  .fragment (textField call "id") (functionField call "name") (functionField call "arguments")

def openaiParts (value : Json) : EventParts :=
  match choiceDelta value with
  | none => .nothing
  | some delta =>
    ⟨textField delta "content",(((delta.get? "reasoning_content").orElse fun _ =>
        delta.get? "reasoning").bind Json.text?).getD "",
      (((delta.get? "tool_calls").bind Json.array?).getD []).zipIdx.map fun (call,position) =>
        (TurnAccumulator.openaiIndex call position,openaiPiece call)⟩

def responsesParts (value : Json) : EventParts :=
  let index := TurnAccumulator.responsesIndex value
  let eventType := textField value "type"
  if eventType = "response.output_text.delta" then ⟨textField value "delta","",[]⟩
  else if eventType = "response.reasoning_summary_text.delta" ∨ eventType = "response.reasoning_text.delta" then
    ⟨"",textField value "delta",[]⟩
  else if eventType = "response.output_item.added" ∨ eventType = "response.output_item.done" then
    let item := field value "item"
    if item.getText? "type" = some "function_call" then
      ⟨"","",[(index,.item (item.getText? "call_id") (item.getText? "name") (item.getText? "arguments"))]⟩
    else .nothing
  else if eventType = "response.function_call_arguments.delta" then
    ⟨"","",[(index,.delta (textField value "delta"))]⟩
  else if eventType = "response.function_call_arguments.done" then
    ⟨"","",[(index,.whole (value.getText? "arguments"))]⟩
  else .nothing

def anthropicEventParts (value : Json) : EventParts :=
  let index := TurnAccumulator.anthropicIndex value
  let eventType := textField value "type"
  if eventType = "content_block_start" then
    let block := field value "content_block"
    let blockType := textField block "type"
    if blockType = "text" then ⟨textField block "text","",[]⟩
    else if blockType = "tool_use" then ⟨"","",[(index,.block (TurnAccumulator.blockCall json block))]⟩
    else .nothing
  else if eventType = "content_block_delta" then
    let delta := field value "delta"
    let deltaType := textField delta "type"
    if deltaType = "input_json_delta" then ⟨"","",[(index,.delta (textField delta "partial_json"))]⟩
    else if deltaType = "thinking_delta" then ⟨"",textField delta "thinking",[]⟩
    else ⟨textField delta "text","",[]⟩
  else .nothing

def valueParts (format : AiApiFormat) (value : Json) : EventParts :=
  match format with
  | .openaiCompatible => openaiParts value
  | .responses => responsesParts value
  | .anthropic => anthropicEventParts json value

/-- The event is no error of the provider. -/
def NoError (format : AiApiFormat) (value : Json) : Prop :=
  match format with
  | .openaiCompatible => value.get? "error" = none
  | .responses => value.get? "error" = none ∧ textField value "type" ≠ "response.failed" ∧
      textField value "type" ≠ "response.incomplete"
  | .anthropic => textField value "type" ≠ "error"

/-- The mark at the end of the stream, where the format has one. -/
def EndMark (format : AiApiFormat) (data : String) : Prop := format ≠ .responses ∧ data = "[DONE]"

instance (format : AiApiFormat) (data : String) : Decidable (EndMark format data) :=
  inferInstanceAs (Decidable (_ ∧ _))

/-- An event of the stream: the mark of its end, or a value that is no error. -/
inductive Event (format : AiApiFormat) : String → EventParts → Prop
  | ends {data : String} : EndMark format data → Event format data .nothing
  | value {data : String} {value : Json} : ¬ EndMark format data → json.parse data = .ok value →
      NoError format value → Event format data (valueParts json format value)

end Parts

/-! ## One event -/

@[simp] theorem add_nothing (acc : TurnAccumulator) : acc.add .nothing = acc := by
  simp [TurnAccumulator.add,EventParts.nothing,writes]

theorem setId_eq (id : Option String) (entry : AgentToolCall) :
    TurnAccumulator.setId id entry = { entry with id := if id.getD "" = "" then entry.id else id.getD "" } := by
  cases id with
  | none => rfl
  | some id => by_cases h : id = "" <;> simp [TurnAccumulator.setId,h]

theorem setName_eq (name : Option String) (entry : AgentToolCall) : TurnAccumulator.setName name entry =
    { entry with name := if name.getD "" ≠ "" ∧ entry.name = "" then name.getD "" else entry.name } := by
  cases name with
  | none => simp [TurnAccumulator.setName]
  | some name => by_cases h : name ≠ "" ∧ entry.name = "" <;> simp [TurnAccumulator.setName,h]

theorem addArguments_eq (arguments : Option String) (entry : AgentToolCall) :
    TurnAccumulator.addArguments arguments entry =
      { entry with arguments := entry.arguments ++ arguments.getD "" } := by
  cases arguments with
  | none => simp [TurnAccumulator.addArguments]
  | some arguments => rfl

theorem openaiEntry_eq (call : Json) : TurnAccumulator.openaiEntry call = (openaiPiece call).onCall := by
  funext entry
  rw [TurnAccumulator.openaiEntry,setId_eq]
  cases hf : call.get? "function" with
  | none => simp [openaiPiece,Piece.onCall,textField,functionField,hf]
  | some function =>
    simp only [setName_eq,addArguments_eq]
    simp [openaiPiece,Piece.onCall,textField,functionField,hf]

variable {json : JsonTexts}

theorem applyOpenaiCalls_eq (tools : Slots AgentToolCall) (calls : List Json) :
    TurnAccumulator.applyOpenaiCalls tools calls = (writes (calls.zipIdx.map fun (call,position) =>
      (TurnAccumulator.openaiIndex call position,openaiPiece call))).foldl Slots.write tools := by
  rw [writes,map_map,foldl_map]
  refine congrArg (fun step => List.foldl step tools calls.zipIdx) ?_
  simp only [Function.comp,Slots.write,openaiEntry_eq]

variable {acc : TurnAccumulator} {data : String} {value : Json}

theorem applyOpenaiEvent_value (hdata : data ≠ "[DONE]") (hparse : json.parse data = .ok value)
    (herror : value.get? "error" = none) :
    (acc.applyOpenaiEvent json data).map Prod.fst = .ok (acc.add (openaiParts value)) := by
  simp only [TurnAccumulator.applyOpenaiEvent,if_neg hdata,parseEvent,hparse,herror]
  cases hdelta : choiceDelta value with
  | none =>
    simp only [openaiParts,hdelta,add_nothing]
    rfl
  | some delta =>
    simp only [openaiParts,hdelta]
    cases hcalls : (delta.get? "tool_calls").bind Json.array? with
    | none => rfl
    | some calls =>
      simp only [applyOpenaiCalls_eq]
      rfl

theorem applyResponsesEvent_value (hparse : json.parse data = .ok value) (herror : NoError .responses value) :
    (acc.applyResponsesEvent json data).map Prod.fst = .ok (acc.add (responsesParts value)) := by
  obtain ⟨hnone,hfailed,hincomplete⟩ := herror
  simp only [TurnAccumulator.applyResponsesEvent,parseEvent,hparse,hnone,responsesParts]
  split_ifs <;> simp_all [Except.map,TurnAccumulator.add,writes,EventParts.nothing,Slots.write]
  all_goals rfl

theorem anthropicParts_eq (acc : TurnAccumulator) (value : Json) :
    acc.add (anthropicEventParts json value) =
      ⟨acc.text ++ (TurnAccumulator.anthropicParts json acc.tools value).2.1,
        acc.thinking ++ (TurnAccumulator.anthropicParts json acc.tools value).2.2,
        (TurnAccumulator.anthropicParts json acc.tools value).1⟩ := by
  rw [TurnAccumulator.anthropicParts,anthropicEventParts]
  dsimp only
  split_ifs <;> rfl

theorem applyAnthropicEvent_value (hdata : data ≠ "[DONE]") (hparse : json.parse data = .ok value)
    (herror : NoError .anthropic value) :
    (acc.applyAnthropicEvent json data).map Prod.fst = .ok (acc.add (anthropicEventParts json value)) := by
  have hkind : textField value "type" ≠ "error" := herror
  simp only [TurnAccumulator.applyAnthropicEvent,if_neg hdata,parseEvent,hparse,if_neg hkind]
  by_cases hstop : textField value "type" = "message_stop"
  · have hnothing : anthropicEventParts json value = .nothing := by
      rw [anthropicEventParts,hstop]
      rfl
    rw [if_pos hstop,hnothing,add_nothing]
    rfl
  · rw [if_neg hstop,anthropicParts_eq]
    rfl

variable {format : AiApiFormat}

theorem applyEvent_event {parts : EventParts} (h : Event json format data parts) :
    (acc.applyEvent json format data).map Prod.fst = .ok (acc.add parts) := by
  cases h with
  | ends hend =>
    obtain ⟨hformat,rfl⟩ := hend
    rw [add_nothing]
    cases format with
    | openaiCompatible => rfl
    | responses => exact absurd rfl hformat
    | anthropic => rfl
  | value hend hparse herror =>
    cases format with
    | openaiCompatible => exact applyOpenaiEvent_value (fun h => hend ⟨nofun,h⟩) hparse herror
    | responses => exact applyResponsesEvent_value hparse herror
    | anthropic => exact applyAnthropicEvent_value (fun h => hend ⟨nofun,h⟩) hparse herror

/-! ## A stream of events -/

theorem applyEvents_events {events : List String} {parts : List EventParts}
    (h : List.Forall₂ (Event json format) events parts) (acc : TurnAccumulator) :
    acc.applyEvents json format events = .ok (parts.foldl TurnAccumulator.add acc) := by
  induction h generalizing acc with
  | nil => rfl
  | @cons data part events parts hfirst hrest ih =>
    rw [TurnAccumulator.applyEvents,foldlM_cons,applyEvent_event hfirst]
    exact ih (acc.add part)

def textOf (parts : List EventParts) : String := String.join (parts.map EventParts.text)

def thinkingOf (parts : List EventParts) : String := String.join (parts.map EventParts.thinking)

def piecesOf (parts : List EventParts) : List (ℕ × Piece) := parts.flatMap EventParts.pieces

theorem foldl_add (parts : List EventParts) (acc : TurnAccumulator) : parts.foldl TurnAccumulator.add acc =
    ⟨acc.text ++ textOf parts,acc.thinking ++ thinkingOf parts,
      (writes (piecesOf parts)).foldl Slots.write acc.tools⟩ := by
  induction parts generalizing acc with
  | nil => simp [textOf,thinkingOf,piecesOf,writes]
  | cons part parts ih =>
    rw [foldl_cons,ih]
    simp [TurnAccumulator.add,textOf,thinkingOf,piecesOf,writes,String.append_assoc]

/-! ## The pieces of one call -/

/-- The pieces for a slot, in the order in which they arrive. -/
def piecesAt (k : ℕ) (pieces : List (ℕ × Piece)) : List Piece :=
  (pieces.filter fun piece => piece.1 = k).map Prod.snd

theorem writesTo_writes (k : ℕ) (pieces : List (ℕ × Piece)) :
    Slots.writesTo k (writes pieces) = (piecesAt k pieces).map fun piece => onEntry piece.onCall := by
  induction pieces with
  | nil => rfl
  | cons piece pieces ih =>
    simp only [Slots.writesTo,writes,piecesAt,map_cons,filter_cons] at ih ⊢
    by_cases h : piece.1 = k
    · simp [h,ih]
    · simp [h,ih]

/-- What the pieces of a call make of its entry. -/
def putTogether (pieces : List Piece) (entry : AgentToolCall) : AgentToolCall :=
  pieces.foldl (fun entry piece => piece.onCall entry) entry

theorem slotAfter_some (pieces : List Piece) (entry : AgentToolCall) :
    Slots.slotAfter (some entry) (pieces.map fun piece => onEntry piece.onCall) =
      some (putTogether pieces entry) := by
  induction pieces generalizing entry with
  | nil => rfl
  | cons piece pieces ih => exact ih (piece.onCall entry)

variable {pieces : List Piece}

theorem slotAfter_none (h : pieces ≠ []) :
    Slots.slotAfter none (pieces.map fun piece => onEntry piece.onCall) = some (putTogether pieces .blank) := by
  cases pieces with
  | nil => exact absurd rfl h
  | cons piece pieces => exact slotAfter_some pieces (piece.onCall .blank)

/-- The items of chunks; the fields that an item lacks are empty. -/
def fragmentPieces (fragments : List AgentToolCall) : List Piece :=
  fragments.map fun fragment => .fragment fragment.id fragment.name fragment.arguments

def deltas (texts : List String) : List Piece := texts.map .delta

/-- A piece that repeats what the call is, as far as it has the fields. -/
def Repeats (call : AgentToolCall) : Piece → Prop
  | .item id name arguments =>
    (∀ given ∈ id, given = call.id) ∧ (∀ given ∈ name, given = call.name) ∧
      ∀ given ∈ arguments, given = call.arguments
  | .whole arguments => ∀ given ∈ arguments, given = call.arguments
  | _ => False

def CarriesArguments : Piece → Prop
  | .item _ _ arguments => arguments ≠ none
  | .whole arguments => arguments ≠ none
  | _ => False

/-- How a call may be cut into pieces. -/
inductive Cut (call : AgentToolCall) : AiApiFormat → List Piece → Prop
  /-- The identifier and the name stand in any of the chunks, and the arguments are cut anywhere. -/
  | openai {fragments : List AgentToolCall} :
    (∀ fragment ∈ fragments, fragment.id = "" ∨ fragment.id = call.id) →
    (∃ fragment ∈ fragments, fragment.id = call.id) →
    (∀ fragment ∈ fragments, fragment.name = "" ∨ fragment.name = call.name) →
    (∃ fragment ∈ fragments, fragment.name = call.name) →
    String.join (fragments.map (·.arguments)) = call.arguments →
    Cut call .openaiCompatible (fragmentPieces fragments)
  /-- An item opens the call, and what closes it may say it again. -/
  | responses {first : Option String} {texts : List String} {closing : List Piece} :
    (∀ piece ∈ closing, Repeats call piece) →
    (first.getD "" ++ String.join texts = call.arguments ∨ ∃ piece ∈ closing, CarriesArguments piece) →
    Cut call .responses (.item (some call.id) (some call.name) first :: deltas texts ++ closing)
  | anthropic {first : String} {texts : List String} :
    first ++ String.join texts = call.arguments →
    Cut call .anthropic (.block { call with arguments := first } :: deltas texts)

variable {call : AgentToolCall}

theorem Cut.ne_nil (h : Cut call format pieces) : pieces ≠ [] := by
  cases h with
  | openai hids hid =>
    obtain ⟨fragment,hfragment,hsame⟩ := hid
    intro hnil
    rw [map_eq_nil_iff.mp hnil] at hfragment
    cases hfragment
  | responses | anthropic => exact cons_ne_nil _ _

theorem putTogether_deltas (texts : List String) (entry : AgentToolCall) :
    putTogether (deltas texts) entry = { entry with arguments := entry.arguments ++ String.join texts } := by
  induction texts generalizing entry with
  | nil => simp [putTogether,deltas]
  | cons text texts ih =>
    change putTogether (deltas texts) { entry with arguments := entry.arguments ++ text } = _
    rw [ih,String.join_cons,String.append_assoc]

theorem Repeats.onCall {entry : AgentToolCall} {piece : Piece} (h : Repeats call piece) (hid : entry.id = call.id)
    (hname : entry.name = call.name) : (piece.onCall entry).id = call.id ∧
      (piece.onCall entry).name = call.name ∧
      (entry.arguments = call.arguments ∨ CarriesArguments piece →
        (piece.onCall entry).arguments = call.arguments) := by
  cases piece with
  | item id name arguments =>
    obtain ⟨hids,hnames,harguments⟩ := h
    refine ⟨?_,?_,?_⟩
    · cases id with
      | none => exact hid
      | some id => exact hids id rfl
    · cases name with
      | none => exact hname
      | some name => exact hnames name rfl
    · cases arguments with
      | none => exact fun h => h.elim (fun hsame => hsame) (absurd rfl)
      | some arguments => exact fun _ => harguments arguments rfl
  | whole arguments =>
    refine ⟨hid,hname,?_⟩
    cases arguments with
    | none => exact fun h => h.elim id (absurd rfl)
    | some arguments => exact fun _ => h arguments rfl
  | fragment | delta | block => cases h

theorem putTogether_closing {closing : List Piece} (h : ∀ piece ∈ closing, Repeats call piece)
    (entry : AgentToolCall) (hid : entry.id = call.id) (hname : entry.name = call.name)
    (harguments : entry.arguments = call.arguments ∨ ∃ piece ∈ closing, CarriesArguments piece) :
    putTogether closing entry = call := by
  induction closing generalizing entry with
  | nil =>
    cases entry
    simp_all [putTogether]
  | cons piece closing ih =>
    obtain ⟨hid',hname',hnext⟩ := (h piece mem_cons_self).onCall hid hname
    apply ih (fun piece hpiece => h piece (mem_cons_of_mem _ hpiece)) (piece.onCall entry) hid' hname'
    rcases harguments with hsame | ⟨carrier,hcarrier,hcarries⟩
    · exact Or.inl (hnext (Or.inl hsame))
    · rcases mem_cons.mp hcarrier with rfl | hcarrier
      · exact Or.inl (hnext (Or.inr hcarries))
      · exact Or.inr ⟨carrier,hcarrier,hcarries⟩

theorem putTogether_fragments {fragments : List AgentToolCall} (hcall : call.id ≠ "")
    (hids : ∀ fragment ∈ fragments, fragment.id = "" ∨ fragment.id = call.id)
    (hnames : ∀ fragment ∈ fragments, fragment.name = "" ∨ fragment.name = call.name) (entry : AgentToolCall)
    (hid : entry.id = call.id ∨ ∃ fragment ∈ fragments, fragment.id = call.id)
    (hname : entry.name = call.name ∨ entry.name = "" ∧ ∃ fragment ∈ fragments, fragment.name = call.name) :
    putTogether (fragmentPieces fragments) entry =
      { call with arguments := entry.arguments ++ String.join (fragments.map (·.arguments)) } := by
  induction fragments generalizing entry with
  | nil =>
    cases entry
    simp_all [putTogether,fragmentPieces]
  | cons fragment fragments ih =>
    obtain ⟨hidHere,hids⟩ := forall_mem_cons.mp hids
    obtain ⟨hnameHere,hnames⟩ := forall_mem_cons.mp hnames
    change putTogether (fragmentPieces fragments) (Piece.onCall (.fragment _ _ _) entry) = _
    rw [ih hids hnames]
    · simp [Piece.onCall,String.append_assoc]
    · by_cases hempty : fragment.id = "" <;> simp_all [Piece.onCall,hcall.symm]
    · by_cases hempty : fragment.name = "" <;> by_cases hentry : entry.name = "" <;>
        simp_all [Piece.onCall]

/-- However a call is cut, its pieces put together are the call. -/
theorem Cut.putTogether_eq (h : Cut call format pieces) (hcall : call.id ≠ "") : putTogether pieces .blank = call := by
  cases h with
  | openai hids hid hnames hname hjoin =>
    refine (putTogether_fragments hcall hids hnames .blank (Or.inr hid) (Or.inr ⟨rfl,hname⟩)).trans ?_
    rw [hjoin]
    simp [AgentToolCall.blank]
  | @responses first texts closing hclosing harguments =>
    have hopened : putTogether (.item (some call.id) (some call.name) first :: deltas texts ++ closing) .blank =
        putTogether closing (putTogether (deltas texts) ⟨call.id,call.name,first.getD ""⟩) := by
      rw [putTogether,cons_append,foldl_cons,foldl_append]
      rfl
    rw [hopened,putTogether_deltas]
    exact putTogether_closing hclosing _ rfl rfl harguments
  | @anthropic first texts hjoin =>
    change putTogether (deltas texts) { call with arguments := first } = call
    rw [putTogether_deltas,hjoin]

end Mxterm.Agent
