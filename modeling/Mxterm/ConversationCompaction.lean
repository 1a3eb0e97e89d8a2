import Mxterm.AgentConversation
import Mxterm.Exchanges

/-! Tool calls and their results in the conversation of an agent, over any run of turns, messages of
the user and compactions. -/
namespace Mxterm.Agent

open Exchanges List

/-- The call that a part of a message in Anthropic's format makes. -/
def toolUseId (part : Json) : Option String :=
  if part.getText? "type" = some "tool_use" then part.getText? "id" else none

/-- The call whose result a part holds. -/
def toolResultId (part : Json) : Option String :=
  if part.getText? "type" = some "tool_result" then part.getText? "tool_use_id" else none

/-- The calls that a message of the conversation makes, by their ids. -/
def callIds (format : AiApiFormat) (message : Json) : List String :=
  match format with
  | .openaiCompatible => (message.items "tool_calls").filterMap (Json.getText? · "id")
  | .responses =>
    if message.getText? "type" = some "function_call" then (message.getText? "call_id").toList else []
  | .anthropic => (message.items "content").filterMap toolUseId

/-- The calls whose results a message holds. -/
def resultIds (format : AiApiFormat) (message : Json) : List String :=
  match format with
  | .openaiCompatible =>
    if message.getText? "role" = some "tool" then (message.getText? "tool_call_id").toList else []
  | .responses =>
    if message.getText? "type" = some "function_call_output" then (message.getText? "call_id").toList
    else []
  | .anthropic => (message.items "content").filterMap toolResultId

/-- A message as the cut of a compaction sees it, which looks for the role of a tool. -/
def entry (format : AiApiFormat) (message : Json) : Entry String where
  asks := callIds format message
  answers := resultIds format message
  marked := message.getText? "role" = some "tool"

/-- A history in which the calls of every message have their results directly behind it. -/
inductive Answered : List AiModelMessage → Prop
  | nil : Answered []
  | plain {message : AiModelMessage} {rest : List AiModelMessage} : message.role ≠ "tool" →
      message.toolCalls = [] → Answered rest → Answered (message :: rest)
  | turn {message : AiModelMessage} {results rest : List AiModelMessage}
      (calls : List AgentToolCall) : message.role = "assistant" →
      message.toolCalls = calls.map callValue →
      (∀ r ∈ results, r.role = "tool" ∧ r.toolCalls = [] ∧ ∃ call ∈ calls, r.toolCallId = some call.id) →
      (∀ call ∈ calls, ∃ r ∈ results, r.toolCallId = some call.id) →
      Answered rest → Answered (message :: results ++ rest)

/-- Batches of results that answer the calls of a turn. -/
structure Answers (turn : AgentTurn) (batches : List (List (AgentToolCall × ToolOutcome))) : Prop where
  some_result : ∀ batch ∈ batches, batch ≠ []
  of_turn : ∀ batch ∈ batches, ∀ result ∈ batch, ∃ call ∈ turn.toolCalls, call.id = result.1.id
  complete : ∀ call ∈ turn.toolCalls, ∃ batch ∈ batches, ∃ result ∈ batch, result.1.id = call.id

variable (parse : String → Option Json)

/-- The conversations that come about, where a compaction of a conversation has to be allowed. -/
inductive Reached (allowed : AgentConversation → String → Bool → Prop) : AgentConversation → Prop
  | new {history : List AiModelMessage} (format : AiApiFormat) (contextWindowTokens : ℕ) :
      Answered history → Reached allowed (.new parse format history contextWindowTokens)
  | user {c : AgentConversation} {message : AiModelMessage} : Reached allowed c →
      message.role = "user" → message.toolCalls = [] → Reached allowed (c.pushUserMessage parse message)
  | turn {c : AgentConversation} {turn : AgentTurn} {batches : List (List (AgentToolCall × ToolOutcome))} :
      Reached allowed c → Answers turn batches →
      Reached allowed (batches.foldl AgentConversation.pushToolResults (c.pushAssistantTurn parse turn))
  | compact {c : AgentConversation} (system : String) (force : Bool) : Reached allowed c →
      allowed c system force → Reached allowed (c.compactIfNeeded system force).1

/-- Every result has its call before it, and every call its result behind it. -/
def AgentConversation.Matched (c : AgentConversation) : Prop := Paired (c.messages.map (entry c.format))

/-- The second cut of a compaction, counted in the messages before it. -/
def AgentConversation.secondCut (c : AgentConversation) : ℕ :=
  skipTools c.messages (c.messages.length - 4)

/-- No cut of the compaction lies between a call and its result: the message behind it holds no
result, and it is no call behind another one. -/
def AgentConversation.CutsClean (c : AgentConversation) (system : String) (force : Bool) : Prop :=
  c.starts system force → CleanAt (c.messages.map (entry c.format)) c.removeUntil ∧
    (c.firstRound.goesOn system → CleanAt (c.messages.map (entry c.format)) c.secondCut)

section Compaction

theorem skipTools_spec (messages : List Json) (i : ℕ) :
    i ≤ skipTools messages i ∧
    (∀ m, messages[skipTools messages i]? = some m → m.getText? "role" ≠ some "tool") ∧
    ∀ j m, i ≤ j → messages[j]? = some m → m.getText? "role" ≠ some "tool" →
      skipTools messages i ≤ j := by
  refine ⟨Nat.le_add_right _ _,?_,?_⟩
  · intro m hm htool
    rw [skipTools,← getElem?_drop] at hm
    generalize messages.drop i = rest at hm
    induction rest with
    | nil => simp at hm
    | cons first rest ih =>
      by_cases hfirst : first.getText? "role" = some "tool"
      · exact ih (by simpa [hfirst] using hm)
      · obtain rfl : first = m := by simpa [hfirst] using hm
        exact hfirst htool
  · intro j m hij hm hrole
    obtain ⟨k,rfl⟩ := Nat.exists_eq_add_of_le hij
    rw [← getElem?_drop] at hm
    apply Nat.add_le_add_left
    clear hij
    generalize messages.drop i = rest at hm ⊢
    induction rest generalizing k with
    | nil => simp at hm
    | cons first rest ih =>
      by_cases hfirst : first.getText? "role" = some "tool"
      · cases k with
        | zero =>
          cases hm
          exact absurd hfirst hrole
        | succ k => simpa [hfirst] using ih k (by simpa using hm)
      · simp [hfirst]

theorem skipTools_cons (first : Json) (messages : List Json) (i : ℕ) :
    skipTools (first :: messages) (i + 1) = skipTools messages i + 1 := by
  simp only [skipTools,drop_succ_cons]
  omega

theorem skipTools_drop (messages : List Json) (r i : ℕ) :
    r + skipTools (messages.drop r) i = skipTools messages (r + i) := by
  simp only [skipTools,drop_drop]
  omega

variable (c : AgentConversation) (system : String) (force : Bool)

/-- The second round cuts at a place of the messages before the first one. -/
theorem drop_additionalEnd (h : 4 < c.firstRound.messages.length) :
    c.firstRound.messages.drop c.firstRound.additionalEnd = c.messages.drop c.secondCut := by
  have hlength : c.firstRound.messages.length = c.messages.length - c.removeUntil + 1 := by
    simp [AgentConversation.firstRound,AgentConversation.summarizeFront,
      AgentConversation.removeUntil]
  have hend : c.firstRound.additionalEnd =
      skipTools (c.messages.drop c.removeUntil) (c.messages.length - c.removeUntil - 4) + 1 := by
    rw [AgentConversation.additionalEnd,← skipTools_cons]
    · congr 1
      omega
  have hcut := skipTools_drop c.messages c.removeUntil (c.messages.length - c.removeUntil - 4)
  rw [hend]
  change (c.messages.drop c.removeUntil).drop _ = _
  rw [drop_drop,hcut]
  congr 2
  omega

theorem summaryMessage_silent (format : AiApiFormat) (count : ℕ) :
    callIds format (c.summaryMessage count) = [] ∧ resultIds format (c.summaryMessage count) = [] := by
  cases format <;> constructor <;> rfl

theorem summaryMessage_role (count : ℕ) : (c.summaryMessage count).getText? "role" = some "system" := rfl

/-- What a compaction keeps: a suffix of the messages, from one of its cuts on. -/
theorem compactIfNeeded_messages : ∃ summary k,
    (c.compactIfNeeded system force).1.messages = summary ++ c.messages.drop k ∧
    (∀ m ∈ summary, (callIds c.format m = [] ∧ resultIds c.format m = []) ∧
      m.getText? "role" = some "system") ∧
    (k = 0 ∨ c.starts system force ∧
      (k = c.removeUntil ∨ c.firstRound.goesOn system ∧ k = c.secondCut)) := by
  unfold AgentConversation.compactIfNeeded
  by_cases hstarts : c.starts system force
  · by_cases hgoes : c.firstRound.goesOn system
    · have hlength : 4 < c.firstRound.messages.length := by
        simp only [AgentConversation.goesOn,decide_eq_true_eq] at hgoes
        exact hgoes.2.1
      refine ⟨[c.firstRound.summaryMessage c.firstRound.additionalEnd],c.secondCut,?_,?_,
        .inr ⟨hstarts,.inr ⟨hgoes,rfl⟩⟩⟩
      · simp only [hstarts,hgoes,if_true]
        rw [← drop_additionalEnd c hlength]
        rfl
      · exact forall_mem_singleton.mpr ⟨summaryMessage_silent _ _ _,summaryMessage_role _ _⟩
    · refine ⟨[{ c with compactCount := c.compactCount + 1 }.summaryMessage c.removeUntil],
        c.removeUntil,?_,?_,.inr ⟨hstarts,.inl rfl⟩⟩
      · simp only [hstarts,hgoes,if_true,Bool.false_eq_true,if_false]
        rfl
      · exact forall_mem_singleton.mpr ⟨summaryMessage_silent _ _ _,summaryMessage_role _ _⟩
  · rw [if_neg hstarts]
    exact ⟨[],0,rfl,by simp,.inl rfl⟩

@[simp] theorem compactIfNeeded_format : (c.compactIfNeeded system force).1.format = c.format := by
  unfold AgentConversation.compactIfNeeded
  by_cases hstarts : c.starts system force
  · by_cases hgoes : c.firstRound.goesOn system
    · simp only [hstarts,hgoes,if_true]
      rfl
    · simp only [hstarts,hgoes,if_true,Bool.false_eq_true,if_false]
      rfl
  · simp only [hstarts,Bool.false_eq_true,if_false]

end Compaction

section Messages

variable {format : AiApiFormat}

/-- Messages that make the calls of a turn, those with calls last. -/
structure Calls (format : AiApiFormat) (messages : List Json) (ids : List String) : Prop where
  no_result : ∀ m ∈ messages, resultIds format m = []
  ids_iff : ∀ id, id ∈ ids ↔ ∃ m ∈ messages, id ∈ callIds format m
  packed : ∃ quiet loud, messages = quiet ++ loud ∧ (∀ m ∈ quiet, callIds format m = []) ∧
    ∀ m ∈ loud, callIds format m ≠ []
  one : format = .openaiCompatible → messages.length ≤ 1

/-- Messages that hold results. -/
structure Results (format : AiApiFormat) (messages : List Json) (ids : List String) : Prop where
  no_call : ∀ m ∈ messages, callIds format m = []
  some_result : ∀ m ∈ messages, resultIds format m ≠ []
  ids_iff : ∀ id, id ∈ ids ↔ ∃ m ∈ messages, id ∈ resultIds format m
  tool : format = .openaiCompatible → ∀ m ∈ messages, m.getText? "role" = some "tool"

/-- The exchanges that the cut of a compaction has to look for by role. -/
def Shape (format : AiApiFormat) (asking answering : List (Entry String)) : Prop :=
  format = .openaiCompatible → asking.length ≤ 1 ∧ ∀ e ∈ answering, e.marked = true

variable {ids : List String}

theorem Calls.run {asking answering : List Json} {ids' : List String} (hcalls : Calls format asking ids)
    (hresults : Results format answering ids') (hids : ∀ id, id ∈ ids ↔ id ∈ ids') :
    Run (Shape format) ((asking ++ answering).map (entry format)) := by
  obtain ⟨quiet,loud,rfl,hquiet,hloud⟩ := hcalls.packed
  rw [map_append]
  apply Run.single
  · refine ⟨?_,?_,?_,?_,quiet.map (entry format),loud.map (entry format),map_append,?_,?_⟩
    · exact forall_mem_map.mpr hcalls.no_result
    · exact forall_mem_map.mpr hresults.no_call
    · exact forall_mem_map.mpr hresults.some_result
    · intro id
      have h := (hcalls.ids_iff id).symm.trans ((hids id).trans (hresults.ids_iff id))
      simpa only [mem_map,exists_exists_and_eq_and,entry] using h
    · exact forall_mem_map.mpr hquiet
    · exact forall_mem_map.mpr hloud
  · intro hformat
    refine ⟨by simpa using hcalls.one hformat,forall_mem_map.mpr fun m hm => ?_⟩
    simpa [entry] using hresults.tool hformat m hm

/-- The messages of a turn: some without calls, then those that make the calls, in the order of the calls. -/
structure Turn (format : AiApiFormat) (messages : List Json) (ids : List String) : Prop where
  split : ∃ quiet asking, messages = quiet ++ asking ∧
    (∀ m ∈ quiet, callIds format m = [] ∧ resultIds format m = []) ∧
    (∀ m ∈ asking, callIds format m ≠ [] ∧ resultIds format m = []) ∧
    asking.flatMap (callIds format) = ids
  one : format ≠ .responses → messages.length ≤ 1

variable {messages : List Json}

theorem Turn.calls (h : Turn format messages ids) : Calls format messages ids := by
  obtain ⟨⟨quiet,asking,rfl,hquiet,hasking,hids⟩,hone⟩ := h
  refine ⟨fun m hm => ?_,fun id => ?_,⟨quiet,asking,rfl,fun m hm => (hquiet m hm).1,
    fun m hm => (hasking m hm).1⟩,fun hformat => hone (by simp [hformat])⟩
  · rcases mem_append.mp hm with hm | hm
    · exact (hquiet m hm).2
    · exact (hasking m hm).2
  · rw [← hids,mem_flatMap]
    constructor
    · rintro ⟨m,hm,hid⟩
      exact ⟨m,mem_append_right _ hm,hid⟩
    · rintro ⟨m,hm,hid⟩
      rcases mem_append.mp hm with hm | hm
      · rw [(hquiet m hm).1] at hid
        cases hid
      · exact ⟨m,hm,hid⟩

/-- Messages with the results of calls, in the order of the calls. -/
structure Answering (format : AiApiFormat) (messages : List Json) (ids : List String) : Prop where
  no_call : ∀ m ∈ messages, callIds format m = []
  some_result : ∀ m ∈ messages, resultIds format m ≠ []
  ids_eq : messages.flatMap (resultIds format) = ids
  tool : format = .openaiCompatible → ∀ m ∈ messages, m.getText? "role" = some "tool"

theorem Answering.results (h : Answering format messages ids) : Results format messages ids where
  no_call := h.no_call
  some_result := h.some_result
  ids_iff id := by rw [← h.ids_eq,mem_flatMap]
  tool := h.tool

/-- A single message that makes all calls. -/
theorem turn_single {m : Json} (hids : callIds format m = ids) (h : resultIds format m = []) : Turn format [m] ids where
  split := by
    by_cases hasks : callIds format m = []
    · refine ⟨[m],[],rfl,forall_mem_singleton.mpr ⟨hasks,h⟩,nofun,?_⟩
      rw [← hids,hasks]
      rfl
    · refine ⟨[],[m],rfl,nofun,forall_mem_singleton.mpr ⟨hasks,h⟩,?_⟩
      rw [flatMap_singleton,hids]
  one _ := Nat.le_refl 1

theorem answering_nil : Answering format [] [] where
  no_call := nofun
  some_result := nofun
  ids_eq := rfl
  tool _ := nofun

theorem Answering.append {first second : List Json} {ids' : List String} (h₁ : Answering format first ids)
    (h₂ : Answering format second ids') : Answering format (first ++ second) (ids ++ ids') where
  no_call m hm := (mem_append.mp hm).elim (h₁.no_call m) (h₂.no_call m)
  some_result m hm := (mem_append.mp hm).elim (h₁.some_result m) (h₂.some_result m)
  ids_eq := by rw [flatMap_append,h₁.ids_eq,h₂.ids_eq]
  tool hformat m hm := (mem_append.mp hm).elim (h₁.tool hformat m) (h₂.tool hformat m)

theorem outputText_silent (text : String) : ∀ m ∈ outputText text,
    callIds .responses m = [] ∧ resultIds .responses m = [] := by
  intro m hm
  by_cases h : Text.trim text = ""
  · simp [outputText,h] at hm
  · obtain rfl := mem_singleton.mp (by simpa [outputText,h] using hm)
    exact ⟨rfl,rfl⟩

variable {α : Type}

/-- The calls in the format of responses, behind their text. -/
theorem responses_turn (text : String) (calls : List α) (f : α → Json) (id : α → String)
    (hf : ∀ call, callIds .responses (f call) = [id call] ∧ resultIds .responses (f call) = []) :
    Turn .responses (outputText text ++ calls.map f) (calls.map id) where
  split := by
    refine ⟨_,_,rfl,outputText_silent text,?_,?_⟩
    · intro m hm
      obtain ⟨call,-,rfl⟩ := mem_map.mp hm
      simp [hf call]
    · induction calls with
      | nil => rfl
      | cons call calls ih => rw [map_cons,flatMap_cons,ih,(hf call).1,map_cons,singleton_append]
  one h := absurd rfl h

theorem callValue_ids (calls : List AgentToolCall) :
    (calls.map callValue).filterMap (Json.getText? · "id") = calls.map (·.id) := by
  rw [filterMap_map,← filterMap_eq_map]
  rfl

theorem textParts_silent (text : String) :
    (textParts text).filterMap toolUseId = [] ∧ (textParts text).filterMap toolResultId = [] := by
  by_cases h : Text.trim text = ""
  · simp [textParts,h]
  · simp only [textParts,h,if_false]
    exact ⟨rfl,rfl⟩

/-- The calls in Anthropic's format, behind their text in one message. -/
theorem anthropic_turn (text : String) (calls : List α) (f : α → Json) (id : α → String)
    (hf : ∀ call, toolUseId (f call) = some (id call) ∧ toolResultId (f call) = none) :
    Turn .anthropic [.object [("role",.text "assistant"),
      ("content",.array (textParts text ++ calls.map f))]] (calls.map id) := by
  have huse : toolUseId ∘ f = some ∘ id := funext fun call => (hf call).1
  apply turn_single
  · change (textParts text ++ calls.map f).filterMap toolUseId = _
    rw [filterMap_append,(textParts_silent text).1,filterMap_map,huse,nil_append,
      filterMap_eq_map]
  · change (textParts text ++ calls.map f).filterMap toolResultId = _
    rw [filterMap_append,(textParts_silent text).2,nil_append,filterMap_eq_nil_iff]
    intro part hpart
    obtain ⟨call,-,rfl⟩ := mem_map.mp hpart
    exact (hf call).2

variable (parse : String → Option Json)

theorem pushAssistantTurn_turn (c : AgentConversation) (turn : AgentTurn) : ∃ asking,
    c.pushAssistantTurn parse turn = { c with messages := c.messages ++ asking } ∧
    Turn c.format asking (turn.toolCalls.map (·.id)) := by
  unfold AgentConversation.pushAssistantTurn
  cases c.format with
  | openaiCompatible => exact ⟨_,rfl,turn_single (callValue_ids turn.toolCalls) rfl⟩
  | responses => exact ⟨_,rfl,responses_turn _ _ _ _ fun call => ⟨rfl,rfl⟩⟩
  | anthropic => exact ⟨_,rfl,anthropic_turn _ _ _ _ fun call => ⟨rfl,rfl⟩⟩

/-- Results of which each is a message of its own. -/
theorem answering_map (results : List α) (f : α → Json) (id : α → String)
    (hf : ∀ r, callIds format (f r) = [] ∧ resultIds format (f r) = [id r])
    (htool : format = .openaiCompatible → ∀ r, (f r).getText? "role" = some "tool") :
    Answering format (results.map f) (results.map id) := by
  induction results with
  | nil => exact answering_nil
  | cons r results ih =>
    have hfirst : Answering format [f r] [id r] := by
      refine ⟨forall_mem_singleton.mpr (hf r).1,forall_mem_singleton.mpr ?_,?_,
        fun hformat => forall_mem_singleton.mpr (htool hformat r)⟩
      · rw [(hf r).2]
        exact cons_ne_nil _ _
      · rw [flatMap_singleton,(hf r).2]
    exact hfirst.append ih

/-- Results in Anthropic's format, all in one message. -/
theorem anthropic_answering {results : List α} (hne : results ≠ []) (f : α → Json) (id : α → String)
    (hf : ∀ r, toolUseId (f r) = none ∧ toolResultId (f r) = some (id r)) :
    Answering .anthropic [.object [("role",.text "user"),("content",.array (results.map f))]]
      (results.map id) := by
  have hresult : toolResultId ∘ f = some ∘ id := funext fun r => (hf r).2
  have hids : (results.map f).filterMap toolResultId = results.map id := by
    rw [filterMap_map,hresult,filterMap_eq_map]
  refine ⟨forall_mem_singleton.mpr ?_,forall_mem_singleton.mpr ?_,?_,nofun⟩
  · change (results.map f).filterMap toolUseId = []
    rw [filterMap_eq_nil_iff]
    intro part hpart
    obtain ⟨r,-,rfl⟩ := mem_map.mp hpart
    exact (hf r).1
  · change (results.map f).filterMap toolResultId ≠ []
    simpa [hids] using hne
  · rw [flatMap_singleton]
    exact hids

theorem pushToolResults_answering (c : AgentConversation) {results : List (AgentToolCall × ToolOutcome)}
    (hne : results ≠ []) : ∃ answering,
    c.pushToolResults results = { c with messages := c.messages ++ answering } ∧
    Answering c.format answering (results.map (·.1.id)) := by
  unfold AgentConversation.pushToolResults
  cases c.format with
  | openaiCompatible => exact ⟨_,rfl,answering_map _ _ _ (fun r => ⟨rfl,rfl⟩) fun _ r => rfl⟩
  | responses => exact ⟨_,rfl,answering_map _ _ _ (fun r => ⟨rfl,rfl⟩) (by simp)⟩
  | anthropic => exact ⟨_,rfl,anthropic_answering hne _ _ fun r => ⟨rfl,rfl⟩⟩

theorem pushToolResults_batches {batches : List (List (AgentToolCall × ToolOutcome))}
    (hne : ∀ batch ∈ batches, batch ≠ []) (c : AgentConversation) : ∃ answering,
    batches.foldl AgentConversation.pushToolResults c = { c with messages := c.messages ++ answering } ∧
    Answering c.format answering (batches.flatten.map (·.1.id)) := by
  induction batches generalizing c with
  | nil => exact ⟨[],by simp,answering_nil⟩
  | cons batch batches ih =>
    obtain ⟨first,hfirst,h₁⟩ := pushToolResults_answering c (hne batch mem_cons_self)
    obtain ⟨rest,hrest,h₂⟩ := ih (fun b hb => hne b (mem_cons_of_mem _ hb))
      (c.pushToolResults batch)
    rw [hfirst] at hrest h₂
    refine ⟨first ++ rest,?_,?_⟩
    · rw [foldl_cons,hfirst,hrest,append_assoc]
    · simpa using h₁.append h₂

/-- What a conversation has to keep: its messages are exchanges one behind the other. -/
def Ordered (c : AgentConversation) : Prop :=
  Run (Shape c.format) (c.messages.map (entry c.format))

theorem shape_single (format : AiApiFormat) (e : Entry String) : Shape format [e] [] :=
  fun _ => ⟨Nat.le_refl 1,by simp⟩

variable {c : AgentConversation}

theorem Ordered.append (h : Ordered c) (hrun : Run (Shape c.format) (messages.map (entry c.format))) :
    Ordered { c with messages := c.messages ++ messages } := by
  unfold Ordered
  rw [map_append]
  exact Run.append h hrun

theorem Ordered.pushTurn (h : Ordered c) {turn : AgentTurn} {batches : List (List (AgentToolCall × ToolOutcome))}
    (hanswers : Answers turn batches) :
    Ordered (batches.foldl AgentConversation.pushToolResults (c.pushAssistantTurn parse turn)) := by
  obtain ⟨asking,hturn,hcalls⟩ := pushAssistantTurn_turn parse c turn
  obtain ⟨answering,hbatches,hresults⟩ :=
    pushToolResults_batches hanswers.some_result (c.pushAssistantTurn parse turn)
  rw [hbatches]
  rw [hturn] at hresults ⊢
  rw [append_assoc]
  apply h.append
  apply hcalls.calls.run hresults.results
  intro id
  simp only [mem_map,mem_flatten]
  constructor
  · rintro ⟨call,hcall,rfl⟩
    obtain ⟨batch,hbatch,result,hresult,hid⟩ := hanswers.complete call hcall
    exact ⟨result,⟨batch,hbatch,hresult⟩,hid⟩
  · rintro ⟨result,⟨batch,hbatch,hresult⟩,rfl⟩
    obtain ⟨call,hcall,hid⟩ := hanswers.of_turn batch hbatch result hresult
    exact ⟨call,hcall,hid⟩

theorem Ordered.compact (h : Ordered c) {system : String} {force : Bool}
    (hallowed : c.format = .openaiCompatible ∨ c.CutsClean system force) :
    Ordered (c.compactIfNeeded system force).1 := by
  obtain ⟨summary,k,hmessages,hsummary,hk⟩ := compactIfNeeded_messages c system force
  unfold Ordered
  rw [hmessages,compactIfNeeded_format,map_append,map_drop]
  refine .append (.silent (shape_single _) (forall_mem_map.mpr fun m hm => (hsummary m hm).1)) ?_
  by_cases hzero : k = 0
  · rw [hzero]
    exact h
  obtain ⟨hstarts,hcut⟩ := hk.resolve_left hzero
  rcases hallowed with hformat | hclean
  · apply h.drop_unmarked (fun asking answering hshape => hshape hformat)
    have hskip : ∀ i e, (c.messages.map (entry c.format))[skipTools c.messages i]? = some e →
        e.marked = false := by
      intro i e he
      rw [getElem?_map,Option.map_eq_some_iff] at he
      obtain ⟨m,hm,rfl⟩ := he
      simpa [entry] using (skipTools_spec c.messages i).2.1 m hm
    rcases hcut with rfl | ⟨-,rfl⟩
    · exact hskip _
    · exact hskip _
  · have hclosed : ∀ asking answering n, Shape c.format asking answering →
        Shape c.format (asking.drop n) answering := by
      intro asking answering n hshape hformat
      obtain ⟨hone,hmarked⟩ := hshape hformat
      exact ⟨by rw [length_drop]; omega,hmarked⟩
    apply h.drop_clean hclosed
    obtain ⟨hfirst,hsecond⟩ := hclean hstarts
    rcases hcut with rfl | ⟨hgoes,rfl⟩
    · exact hfirst
    · exact hsecond hgoes

theorem openaiMessageValue_fields (message : AiModelMessage) :
    callIds .openaiCompatible (openaiMessageValue message) =
      message.toolCalls.filterMap (Json.getText? · "id") ∧
    (openaiMessageValue message).getText? "role" = some message.role ∧
    (openaiMessageValue message).getText? "tool_call_id" = message.toolCallId := by
  unfold openaiMessageValue
  cases hcalls : message.toolCalls <;> cases hid : message.toolCallId <;>
    simp [callIds,Json.items,Json.set,Json.get?,Json.getText?,Json.text?,Json.array?]

theorem images_silent (text : String) (images : List AiImageAttachment) :
    (textPart "text" text :: images.map imagePart).filterMap toolUseId = [] ∧
    (textPart "text" text :: images.map imagePart).filterMap toolResultId = [] := by
  simp only [filterMap_eq_nil_iff,forall_mem_cons,forall_mem_map]
  exact ⟨⟨rfl,fun image _ => rfl⟩,rfl,fun image _ => rfl⟩

variable {message : AiModelMessage}

/-- A message without calls that is no result. -/
theorem messageValues_plain (format : AiApiFormat) (hrole : message.role ≠ "tool") (hcalls : message.toolCalls = []) :
    ∃ m,
    messageValues parse format message = [m] ∧ callIds format m = [] ∧ resultIds format m = [] := by
  cases format with
  | openaiCompatible =>
    obtain ⟨hasks,hmrole,-⟩ := openaiMessageValue_fields message
    refine ⟨_,rfl,by rw [hasks,hcalls]; rfl,?_⟩
    simp [resultIds,hmrole,hrole]
  | responses =>
    refine ⟨inputMessage message,?_,rfl,rfl⟩
    simp [messageValues,responsesMessageValues,hrole,hcalls]
  | anthropic =>
    refine ⟨_,rfl,?_⟩
    unfold anthropicMessageValue
    rw [if_neg (by simp [hcalls]),if_neg hrole]
    by_cases himages : message.images.isEmpty
    · rw [if_pos himages]
      exact ⟨rfl,rfl⟩
    · rw [if_neg himages]
      exact images_silent message.content message.images

/-- A message of the history that makes calls. -/
theorem messageValues_turn (format : AiApiFormat) {calls : List AgentToolCall} (hrole : message.role = "assistant")
    (hcalls : message.toolCalls = calls.map callValue) :
    Turn format (messageValues parse format message) (calls.map (·.id)) := by
  by_cases hnone : calls = []
  · obtain ⟨m,hm,hasks,hanswers⟩ := messageValues_plain parse format (show message.role ≠ "tool" by
      simp [hrole]) (by simp [hcalls,hnone])
    rw [hm,hnone]
    exact turn_single hasks hanswers
  have hsome : ¬ message.toolCalls.isEmpty := by simp [hcalls,hnone]
  cases format with
  | openaiCompatible =>
    obtain ⟨hasks,hmrole,-⟩ := openaiMessageValue_fields message
    apply turn_single
    · rw [hasks,hcalls,callValue_ids]
    · simp [resultIds,hmrole,hrole]
  | responses =>
    have hvalues : messageValues parse .responses message = outputText message.content ++
        calls.map fun call => functionCall call.id call.name call.arguments := by
      simp only [messageValues,responsesMessageValues,hrole,hsome]
      simp only [hcalls,map_map]
      rfl
    rw [hvalues]
    exact responses_turn _ _ _ _ fun call => ⟨rfl,rfl⟩
  | anthropic =>
    have hvalue : anthropicMessageValue parse message = .object [("role",.text "assistant"),
        ("content",.array (textParts message.content ++ calls.map fun call =>
          toolUse call.id call.name ((parse call.arguments).getD (.object []))))] := by
      unfold anthropicMessageValue
      rw [if_pos ⟨hrole,hsome⟩,hcalls,filterMap_map,← filterMap_eq_map]
      rfl
    rw [messageValues,hvalue]
    exact anthropic_turn _ _ _ _ fun call => ⟨rfl,rfl⟩

/-- A message of the history that holds a result. -/
theorem messageValues_result (format : AiApiFormat) {id : String} (hrole : message.role = "tool")
    (hcalls : message.toolCalls = []) (hid : message.toolCallId = some id) :
    Answering format (messageValues parse format message) [id] := by
  have hsingle : ∀ m, callIds format m = [] → resultIds format m = [id] →
      (format = .openaiCompatible → m.getText? "role" = some "tool") → Answering format [m] [id] := by
    intro m hasks hanswers htool
    exact answering_map [()] (fun _ => m) (fun _ => id) (fun _ => ⟨hasks,hanswers⟩) fun h _ => htool h
  cases format with
  | openaiCompatible =>
    obtain ⟨hasks,hmrole,hmid⟩ := openaiMessageValue_fields message
    apply hsingle
    · rw [hasks,hcalls]
      rfl
    · simp [resultIds,hmrole,hrole,hmid,hid]
    · exact fun _ => hmrole.trans (by rw [hrole])
  | responses =>
    have hvalues : messageValues parse .responses message = [functionCallOutput id message.content] := by
      simp [messageValues,responsesMessageValues,hrole,hid]
    rw [hvalues]
    exact hsingle _ rfl rfl (by simp)
  | anthropic =>
    have hvalue : anthropicMessageValue parse message = .object [("role",.text "user"),
        ("content",.array [.object [("type",.text "tool_result"),("tool_use_id",.text id),
          ("content",.text message.content)]])] := by
      simp [anthropicMessageValue,hrole,hid]
    rw [messageValues,hvalue]
    exact hsingle _ rfl rfl (by simp)

theorem messageValues_results (format : AiApiFormat) {results : List AiModelMessage}
    (h : ∀ r ∈ results, r.role = "tool" ∧ r.toolCalls = [] ∧ ∃ id, r.toolCallId = some id) :
    Answering format (results.flatMap (messageValues parse format)) (results.filterMap (·.toolCallId)) := by
  induction results with
  | nil => exact answering_nil
  | cons r results ih =>
    obtain ⟨hrole,hcalls,id,hid⟩ := h r mem_cons_self
    have hrest := ih fun r hr => h r (mem_cons_of_mem _ hr)
    simpa [hid] using (messageValues_result parse format hrole hcalls hid).append hrest

theorem ordered_new (format : AiApiFormat) {history : List AiModelMessage} (h : Answered history)
    (contextWindowTokens : ℕ) : Ordered (.new parse format history contextWindowTokens) := by
  change Run (Shape format) (((history.filter (·.role ≠ "system")).flatMap
    (messageValues parse format)).map (entry format))
  induction h with
  | nil => exact .nil
  | @plain message rest hrole hcalls _ ih =>
    by_cases hsystem : message.role = "system"
    · simpa [hsystem] using ih
    · obtain ⟨m,hm,hsilent⟩ := messageValues_plain parse format hrole hcalls
      rw [filter_cons_of_pos (by simpa using hsystem),flatMap_cons,hm]
      exact .append (.silent (shape_single _) (forall_mem_singleton.mpr hsilent)) ih
  | @turn message results rest calls hrole hcalls hresults hcomplete _ ih =>
    have hkept : (message :: results ++ rest).filter (·.role ≠ "system") =
        message :: (results ++ rest.filter (·.role ≠ "system")) := by
      rw [cons_append,filter_cons_of_pos (by simp [hrole]),filter_append]
      congr 2
      apply filter_eq_self.mpr
      intro r hr
      simp [(hresults r hr).1]
    rw [hkept,flatMap_cons,flatMap_append,← append_assoc,map_append]
    have hvalues := messageValues_results parse format fun r (hr : r ∈ results) => by
      obtain ⟨htool,hnone,call,-,hid⟩ := hresults r hr
      exact ⟨htool,hnone,_,hid⟩
    refine .append ((messageValues_turn parse format hrole hcalls).calls.run hvalues.results fun id => ?_) ih
    · simp only [mem_map,mem_filterMap]
      constructor
      · rintro ⟨call,hcall,rfl⟩
        exact hcomplete call hcall
      · rintro ⟨r,hr,hid⟩
        obtain ⟨-,-,call,hcall,hid'⟩ := hresults r hr
        exact ⟨call,hcall,Option.some.inj (hid'.symm.trans hid)⟩

/-- A message of the user goes into a message without changing what that one asks and answers. -/
theorem merge_entry {last message : Json} (hlast : last.getText? "role" = some "user")
    (hmessage : (contentParts (message.get? "content")).filterMap toolUseId = [] ∧
      (contentParts (message.get? "content")).filterMap toolResultId = []) :
    entry .anthropic (last.set "content" (.array (contentParts (last.get? "content") ++
      contentParts (message.get? "content")))) = entry .anthropic last := by
  have hset : (last.set "content" (.array (contentParts (last.get? "content") ++
      contentParts (message.get? "content")))).items "content" =
      contentParts (last.get? "content") ++ contentParts (message.get? "content") := by
    cases last with
    | object fields => rw [Json.items,Json.get?_set_self]; rfl
    | _ => cases hlast
  have hparts : ∀ f : Json → Option String, (∀ text, f (textPart "text" text) = none) →
      (contentParts (last.get? "content")).filterMap f = (last.items "content").filterMap f := by
    intro f hf
    rw [Json.items]
    cases last.get? "content" with
    | none => rfl
    | some content => cases content <;> simp [contentParts,Json.array?,hf]
  have hrole : (last.set "content" (.array (contentParts (last.get? "content") ++
      contentParts (message.get? "content")))).getText? "role" = last.getText? "role" := by
    rw [Json.getText?,Json.get?_set_of_ne _ (by decide)]
    rfl
  simp only [entry,callIds,resultIds,hset,hrole,filterMap_append,hmessage,append_nil,
    hparts toolUseId (fun _ => rfl),hparts toolResultId (fun _ => rfl)]

theorem mergeUserMessage_run {message : Json} (h : Run (Shape .anthropic) (messages.map (entry .anthropic)))
    (hmessage : Run (Shape .anthropic) ([message].map (entry .anthropic)))
    (hparts : (contentParts (message.get? "content")).filterMap toolUseId = [] ∧
      (contentParts (message.get? "content")).filterMap toolResultId = []) :
    Run (Shape .anthropic) ((mergeUserMessage messages message).map (entry .anthropic)) := by
  unfold mergeUserMessage
  cases hlast : messages.getLast? with
  | none => simpa only [map_append] using h.append hmessage
  | some last =>
    by_cases huser : last.getText? "role" = some "user"
    · simp only [huser,if_true,map_append,map_cons,map_nil,merge_entry huser hparts]
      have hmessages : messages = messages.dropLast ++ [last] :=
        (dropLast_append_getLast? last hlast).symm
      rw [hmessages] at h
      simpa only [map_append,map_cons,map_nil] using h
    · simpa only [huser,if_false,map_append] using h.append hmessage

theorem Ordered.pushUser (h : Ordered c) (hrole : message.role = "user") (hcalls : message.toolCalls = []) :
    Ordered (c.pushUserMessage parse message) := by
  obtain ⟨format,messages,w,n⟩ := c
  have hencoded : ∀ w, (AgentConversation.new parse format [message] w).messages =
      messageValues parse format message := by
    simp [AgentConversation.new,hrole]
  obtain ⟨m,hm,hsilent⟩ := messageValues_plain parse format (by simp [hrole]) hcalls
  have hrun : Run (Shape format) ([m].map (entry format)) :=
    .silent (shape_single _) (forall_mem_singleton.mpr hsilent)
  have hsimple : Ordered ⟨format,messages ++ [m],w,n⟩ := Ordered.append h hrun
  cases format with
  | openaiCompatible | responses => simpa only [AgentConversation.pushUserMessage,hencoded,hm] using hsimple
  | anthropic =>
    have hvalue : m = anthropicMessageValue parse message := (List.cons.inj hm).1.symm
    have hparts : (contentParts (m.get? "content")).filterMap toolUseId = [] ∧
        (contentParts (m.get? "content")).filterMap toolResultId = [] := by
      rw [hvalue,anthropicMessageValue,if_neg (by simp [hcalls]),if_neg (by simp [hrole])]
      by_cases himages : message.images.isEmpty
      · rw [if_pos himages]
        exact ⟨rfl,rfl⟩
      · rw [if_neg himages]
        exact images_silent message.content message.images
    simp only [AgentConversation.pushUserMessage,hencoded,hm,foldl_cons,foldl_nil]
    exact mergeUserMessage_run h hrun hparts

theorem Reached.ordered
    (h : Reached parse (fun c system force => c.format = .openaiCompatible ∨ c.CutsClean system force) c) :
    Ordered c := by
  induction h with
  | new format w hhistory => exact ordered_new parse format hhistory w
  | user _ hrole hcalls ih => exact ih.pushUser parse hrole hcalls
  | turn _ hanswers ih => exact ih.pushTurn parse hanswers
  | compact system force _ hallowed ih => exact ih.compact hallowed

end Messages

/-- The last messages from one of the user on stay as they are. -/
theorem keeps_user (c : AgentConversation) (system : String) (force : Bool) {i : ℕ} {m : Json}
    (hm : c.messages[i]? = some m) (hrole : m.getText? "role" = some "user")
    (hlast : c.messages.length ≤ i + 4) :
    c.messages.drop i <:+ (c.compactIfNeeded system force).1.messages := by
  obtain ⟨summary,k,hmessages,-,hk⟩ := compactIfNeeded_messages c system force
  have hskip : ∀ j, j ≤ i → skipTools c.messages j ≤ i := fun j hj =>
    (skipTools_spec c.messages j).2.2 i m hj hm (by simp [hrole])
  have hki : k ≤ i := by
    rcases hk with rfl | ⟨-,rfl | ⟨-,rfl⟩⟩
    · exact Nat.zero_le i
    · exact hskip _ (by omega)
    · exact hskip _ (by omega)
  rw [hmessages]
  refine List.IsSuffix.trans ?_ (suffix_append summary _)
  exact drop_suffix_drop_left _ hki

section Examples

/-- A turn with one call, its result, and a message of the user. -/
def oneCall (id : String) : AgentTurn where
  text := ""
  thinking := ""
  toolCalls := [⟨id,"list_directory","\x7b\x7d"⟩]

def itsResult (id : String) : List (List (AgentToolCall × ToolOutcome)) :=
  [[(⟨id,"list_directory","\x7b\x7d"⟩,⟨"done",false⟩)]]

def userText (content : String) : AiModelMessage := ⟨"user",content,[],[],none⟩

theorem itsResult_answers (id : String) : Answers (oneCall id) (itsResult id) where
  some_result := by simp [itsResult]
  of_turn := by simp [itsResult,oneCall]
  complete := by simp [itsResult,oneCall]

/-- Four turns of one call in the format of responses, and a message of the user. -/
def fourTurns : AgentConversation :=
  (["1","2","3","4"].foldl (fun c id => (itsResult id).foldl AgentConversation.pushToolResults
    (c.pushAssistantTurn (fun _ => none) (oneCall id)))
    (.new (fun _ => none) .responses [] 1000)).pushUserMessage (fun _ => none) (userText "go on")

theorem not_paired_of_result {format : AiApiFormat} {first second : Json} {rest : List Json}
    (id : String) (hfirst : callIds format first = []) (hsecond : id ∈ resultIds format second) :
    ¬ Paired ((first :: second :: rest).map (entry format)) := by
  intro h
  obtain ⟨e,he,hask⟩ := (h [entry format first] (entry format second) _ rfl).1 id hsecond
  obtain rfl := mem_singleton.mp he
  change id ∈ callIds format first at hask
  simp [hfirst] at hask

end Examples

end Mxterm.Agent
