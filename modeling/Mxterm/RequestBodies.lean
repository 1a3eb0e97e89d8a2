import Mxterm.AgentRuns
import Mxterm.PendingAnswers

/-! Every request of a regular run is one that its provider accepts. -/
namespace Mxterm.Agent

open Exchanges List

/-! ## Histories -/

/-- The messages that a stored history becomes. -/
inductive Replayed : List AiModelMessage → Prop
  | nil : Replayed []
  | plain {message : AiModelMessage} {rest : List AiModelMessage} :
      message.role = "user" ∨ message.role = "assistant" → message.toolCalls = [] → message.content ≠ "" →
      Replayed rest → Replayed (message :: rest)
  | turn {message : AiModelMessage} {results rest : List AiModelMessage} {calls : List AgentToolCall} :
      message.role = "assistant" → message.toolCalls = calls.map callValue → calls ≠ [] →
      (calls.map (·.id)).Nodup →
      (∀ r ∈ results, r.role = "tool" ∧ r.toolCalls = [] ∧ ∃ id, r.toolCallId = some id) →
      results.filterMap (·.toolCallId) = calls.map (·.id) → Replayed rest →
      Replayed (message :: results ++ rest)

theorem Replayed.append {first second : List AiModelMessage} (h₁ : Replayed first) (h₂ : Replayed second) :
    Replayed (first ++ second) := by
  induction h₁ with
  | nil => exact h₂
  | plain hrole hcalls hcontent _ ih => exact .plain hrole hcalls hcontent ih
  | @turn message results rest calls hrole hcalls hne hnodup hresults hids _ ih =>
    rw [append_assoc]
    exact .turn hrole hcalls hne hnodup hresults hids ih

theorem replayed_ids (records : List AiToolCallRecord) :
    (records.filterMap replayedCall).map (·.id) =
      (records.filter fun call => replayArguments call ≠ none).map (·.id) := by
  induction records with
  | nil => rfl
  | cons record records ih =>
    cases h : replayArguments record with
    | none | some => simpa [replayedCall,h] using ih

theorem result_ids (records : List AiToolCallRecord) :
    (records.map resultMessage).filterMap (·.toolCallId) = records.map (·.id) := by
  rw [filterMap_map,← filterMap_eq_map]
  rfl

theorem replyMessages_replayed (message : AiChatMessage) : Replayed (replyMessages message) := by
  rw [replyMessages]
  split_ifs with hnothing
  · exact .nil
  by_cases hcalls : message.toolCalls.records.filterMap replayedCall = []
  · have hblank : Text.trim (replyContent message) ≠ "" := fun h => hnothing ⟨h,hcalls⟩
    have hnone : message.toolCalls.records.filter (fun call => replayArguments call ≠ none) = [] := by
      have hids := replayed_ids message.toolCalls.records
      rw [hcalls] at hids
      exact map_eq_nil_iff.mp hids.symm
    rw [hnone,hcalls]
    refine .plain (Or.inr rfl) rfl (fun hempty => hblank ?_) .nil
    rw [show replyContent message = "" from hempty]
    rfl
  · rw [← append_nil (List.map resultMessage _)]
    refine .turn rfl rfl hcalls ?_ ?_ ?_ .nil
    · rw [replayed_ids]
      exact message.toolCalls.nodup.sublist (filter_sublist.map _)
    · intro r hr
      obtain ⟨call,-,rfl⟩ := mem_map.mp hr
      exact ⟨rfl,rfl,_,rfl⟩
    · rw [result_ids,replayed_ids]

section History

variable {imageAttachments : List AiContextBlock → Except AppError (List AiImageAttachment)} {budget : ℕ}

theorem userMessage_spec {content : String} {contexts : List AiContextBlock} {message : AiModelMessage}
    (h : userMessage imageAttachments content contexts budget = .ok message)
    (hsome : content ≠ "" ∨ contexts ≠ []) :
    message.role = "user" ∧ message.toolCalls = [] ∧ message.content ≠ "" := by
  obtain ⟨images,-,hmessage⟩ := (Execution.except_bind_ok _ _ _).mp h
  rw [← Except.ok.inj hmessage]
  exact ⟨rfl,rfl,formatUserMessageForModel_ne_empty hsome budget⟩

theorem historyMessages_replayed {message : AiChatMessage} {output : List AiModelMessage}
    (h : historyMessages imageAttachments budget message = .ok output) : Replayed output := by
  rw [historyMessages] at h
  split_ifs at h with huser hassistant
  · obtain ⟨user,hmessage,houtput⟩ := (Execution.except_bind_ok _ _ _).mp h
    obtain ⟨hrole,hcalls,hcontent⟩ := userMessage_spec hmessage (message.not_blank huser)
    rw [← Except.ok.inj houtput]
    exact .plain (Or.inl hrole) hcalls hcontent .nil
  · rw [← Except.ok.inj h]
    exact replyMessages_replayed message
  · rw [← Except.ok.inj h]
    exact .nil

theorem modelMessagesFromHistory_replayed {stored : List AiChatMessage} {history : List AiModelMessage}
    (h : modelMessagesFromHistory imageAttachments budget stored = .ok history) : Replayed history := by
  induction stored generalizing history with
  | nil =>
    rw [← Except.ok.inj h]
    exact .nil
  | cons message stored ih =>
    obtain ⟨output,houtput,h⟩ := (Execution.except_bind_ok _ _ _).mp h
    obtain ⟨rest,hrest,h⟩ := (Execution.except_bind_ok _ _ _).mp h
    rw [← Except.ok.inj h]
    exact (historyMessages_replayed houtput).append (ih hrest)

end History

/-! ## Conversations -/

def severalItems (format : AiApiFormat) : Bool := format = .responses

/-- What a format asks of each message. -/
def Fitting (format : AiApiFormat) (message : Json) : Prop :=
  (format = .anthropic → (message.getText? "role" = some "user" ∨
    message.getText? "role" = some "assistant") ∧ SomeContent message) ∧
  (format = .openaiCompatible → message.getText? "role" = some "assistant" →
    message.get? "tool_calls" ≠ some (.array []))

/-- What a conversation has to keep. -/
structure Sound (format : AiApiFormat) (messages : List Json) : Prop where
  accepted : Accepted (severalItems format) (messages.map (entry format))
  fitting : ∀ message ∈ messages, Fitting format message

variable {format : AiApiFormat}

theorem Sound.nil : Sound format [] := ⟨accepted_nil,nofun⟩

theorem Sound.append {first second : List Json} (h₁ : Sound format first) (h₂ : Sound format second) :
    Sound format (first ++ second) where
  accepted := by
    rw [map_append]
    exact h₁.accepted.append h₂.accepted
  fitting message hm := (mem_append.mp hm).elim (h₁.fitting message) (h₂.fitting message)

theorem Sound.silent {m : Json} (hsilent : callIds format m = [] ∧ resultIds format m = [])
    (hfitting : Fitting format m) : Sound format [m] where
  accepted := accepted_silent (forall_mem_singleton.mpr hsilent)
  fitting := forall_mem_singleton.mpr hfitting

theorem accepted_turn {asking answering : List Json} {ids : List String} (hturn : Turn format asking ids)
    (hanswering : Answering format answering ids) (hnodup : ids.Nodup) :
    Accepted (severalItems format) ((asking ++ answering).map (entry format)) := by
  obtain ⟨⟨quiet,asking,rfl,hquiet,hasking,hids⟩,hone⟩ := hturn
  have hasks : (asking.map (entry format)).flatMap (·.asks) = ids := by
    rw [flatMap_map]
    exact hids
  rw [map_append,map_append]
  apply accepted_exchange
  · exact forall_mem_map.mpr hquiet
  · exact forall_mem_map.mpr hasking
  · intro hsingle
    have hlength := hone (of_decide_eq_false hsingle)
    rw [length_append] at hlength
    rw [length_map]
    omega
  · exact forall_mem_map.mpr fun m hm => ⟨hanswering.no_call m hm,hanswering.some_result m hm⟩
  · rw [hasks,flatMap_map]
    exact hanswering.ids_eq
  · rwa [hasks]

section Pushes

variable (parse : String → Option Json)

theorem textParts_ne_nil {text : String} (h : Text.trim text ≠ "") : textParts text ≠ [] := by
  rw [textParts,if_neg h]
  exact cons_ne_nil _ _

variable {turn : AgentTurn}

theorem fitting_pushAssistantTurn (c : AgentConversation) (h : RegularTurn c.format turn) {asking : List Json}
    (hasking : c.pushAssistantTurn parse turn = { c with messages := c.messages ++ asking }) :
    ∀ m ∈ asking, Fitting c.format m := by
  obtain ⟨format,messages,w,n⟩ := c
  obtain ⟨-,hopenai,hanthropic⟩ := h
  have hmessages := congrArg AgentConversation.messages hasking
  cases format with
  | openaiCompatible =>
    obtain rfl := append_cancel_left hmessages
    refine forall_mem_singleton.mpr ⟨nofun,fun _ _ hempty => hopenai rfl ?_⟩
    exact map_eq_nil_iff.mp (Json.array.inj (Option.some.inj hempty))
  | responses => exact fun m _ => ⟨nofun,nofun⟩
  | anthropic =>
    obtain rfl := append_cancel_left hmessages
    refine forall_mem_singleton.mpr ⟨fun _ => ⟨Or.inr rfl,?_⟩,nofun⟩
    intro hempty
    obtain ⟨htext,hcalls⟩ := append_eq_nil_iff.mp hempty
    rcases hanthropic rfl with hsome | hsome
    · exact hsome (map_eq_nil_iff.mp hcalls)
    · exact textParts_ne_nil hsome htext

theorem fitting_pushToolResults (c : AgentConversation) {results : List (AgentToolCall × ToolOutcome)}
    (hne : results ≠ []) {answering : List Json}
    (hanswering : c.pushToolResults results = { c with messages := c.messages ++ answering }) :
    ∀ m ∈ answering, Fitting c.format m := by
  obtain ⟨format,messages,w,n⟩ := c
  have hmessages := congrArg AgentConversation.messages hanswering
  cases format with
  | openaiCompatible =>
    obtain rfl := append_cancel_left hmessages
    intro m hm
    obtain ⟨result,-,rfl⟩ := mem_map.mp hm
    exact ⟨nofun,fun _ hrole => absurd (Option.some.inj hrole) (by decide)⟩
  | responses => exact fun m _ => ⟨nofun,nofun⟩
  | anthropic =>
    obtain rfl := append_cancel_left hmessages
    refine forall_mem_singleton.mpr ⟨fun _ => ⟨Or.inl rfl,?_⟩,nofun⟩
    exact fun hempty => hne (map_eq_nil_iff.mp hempty)

variable {c : AgentConversation}

/-- A turn without calls. -/
theorem Sound.pushText (h : Sound c.format c.messages) (hnone : turn.toolCalls = [])
    (hregular : RegularTurn c.format turn) : Sound c.format (c.pushAssistantTurn parse turn).messages := by
  obtain ⟨asking,hasking,hturn⟩ := pushAssistantTurn_turn parse c turn
  rw [hnone] at hturn
  have haccepted := accepted_turn hturn answering_nil nodup_nil
  rw [append_nil] at haccepted
  rw [hasking]
  exact h.append ⟨haccepted,fitting_pushAssistantTurn parse c hregular hasking⟩

/-- A turn with calls and the results of all of them. -/
theorem Sound.pushResults (h : Sound c.format c.messages) {outcomes : List ToolOutcome}
    (hcalls : turn.toolCalls ≠ []) (hregular : RegularTurn c.format turn)
    (hlength : outcomes.length = turn.toolCalls.length) : Sound c.format
      ((c.pushAssistantTurn parse turn).pushToolResults (turn.toolCalls.zip outcomes)).messages := by
  obtain ⟨asking,hasking,hturn⟩ := pushAssistantTurn_turn parse c turn
  have hcallsOf : (turn.toolCalls.zip outcomes).map Prod.fst = turn.toolCalls :=
    map_fst_zip (by omega)
  have hids : (turn.toolCalls.zip outcomes).map (·.1.id) = turn.toolCalls.map (·.id) := calc
    (turn.toolCalls.zip outcomes).map (·.1.id) = ((turn.toolCalls.zip outcomes).map Prod.fst).map (·.id) :=
      map_map.symm
    _ = turn.toolCalls.map (·.id) := by rw [hcallsOf]
  have hne : turn.toolCalls.zip outcomes ≠ [] := by
    intro hempty
    rw [hempty] at hids
    exact hcalls (map_eq_nil_iff.mp hids.symm)
  obtain ⟨answering,hpush,hanswering⟩ := pushToolResults_answering (c.pushAssistantTurn parse turn) hne
  have hfitting := fitting_pushToolResults _ hne hpush
  rw [hpush]
  rw [hasking] at hanswering hfitting ⊢
  rw [hids] at hanswering
  rw [append_assoc]
  refine h.append ⟨accepted_turn hturn hanswering hregular.1,?_⟩
  exact forall_mem_append.mpr ⟨fitting_pushAssistantTurn parse c hregular hasking,hfitting⟩

theorem pushAssistantTurn_format (c : AgentConversation) (turn : AgentTurn) :
    (c.pushAssistantTurn parse turn).format = c.format := by
  obtain ⟨asking,hasking,-⟩ := pushAssistantTurn_turn parse c turn
  rw [hasking]

theorem pushToolResults_format (c : AgentConversation) (results : List (AgentToolCall × ToolOutcome)) :
    (c.pushToolResults results).format = c.format := by
  rw [AgentConversation.pushToolResults]
  cases c.format <;> rfl

theorem pushUserMessage_format (c : AgentConversation) (message : AiModelMessage) :
    (c.pushUserMessage parse message).format = c.format := by
  rw [AgentConversation.pushUserMessage]
  cases c.format <;> rfl

theorem pushUserMessages_format (messages : List AiModelMessage) (c : AgentConversation) :
    (c.pushUserMessages parse messages).format = c.format := by
  induction messages generalizing c with
  | nil => rfl
  | cons message messages ih => exact (ih _).trans (pushUserMessage_format parse c message)

/-! ### Messages of the user and of the history -/

theorem fitting_openaiMessageValue (message : AiModelMessage) :
    Fitting .openaiCompatible (openaiMessageValue message) := by
  refine ⟨nofun,fun _ _ hempty => ?_⟩
  rw [openaiMessageValue] at hempty
  cases hcalls : message.toolCalls <;> cases hid : message.toolCallId <;>
    simp [hcalls,hid,Json.set,Json.get?] at hempty

variable {message : AiModelMessage}

/-- A message that is no result and makes no calls. -/
theorem fitting_plain (hrole : message.role = "user" ∨ message.role = "assistant") (hcalls : message.toolCalls = [])
    (hcontent : message.content ≠ "") : ∀ m ∈ messageValues parse format message, Fitting format m := by
  cases format with
  | openaiCompatible => exact forall_mem_singleton.mpr (fitting_openaiMessageValue message)
  | responses => exact fun m _ => ⟨nofun,nofun⟩
  | anthropic =>
    refine forall_mem_singleton.mpr ⟨fun _ => ?_,nofun⟩
    have htool : message.role ≠ "tool" := by
      rcases hrole with hrole | hrole <;> rw [hrole] <;> decide
    rw [anthropicMessageValue,if_neg (by simp [hcalls]),if_neg htool]
    split_ifs
    · exact ⟨hrole.imp (congrArg some) (congrArg some),hcontent⟩
    · exact ⟨hrole.imp (congrArg some) (congrArg some),cons_ne_nil _ _⟩

theorem Sound.plain (hrole : message.role = "user" ∨ message.role = "assistant") (hcalls : message.toolCalls = [])
    (hcontent : message.content ≠ "") : Sound format (messageValues parse format message) := by
  have htool : message.role ≠ "tool" := by
    rcases hrole with hrole | hrole <;> rw [hrole] <;> decide
  have hfitting : ∀ m ∈ messageValues parse format message, Fitting format m :=
    fitting_plain parse hrole hcalls hcontent
  obtain ⟨m,hm,hsilent⟩ := messageValues_plain parse format htool hcalls
  rw [hm] at hfitting ⊢
  exact .silent hsilent (forall_mem_singleton.mp hfitting)

theorem fitting_calls {calls : List AgentToolCall} (hrole : message.role = "assistant")
    (hcalls : message.toolCalls = calls.map callValue) (hne : calls ≠ []) :
    ∀ m ∈ messageValues parse format message, Fitting format m := by
  cases format with
  | openaiCompatible => exact forall_mem_singleton.mpr (fitting_openaiMessageValue message)
  | responses => exact fun m _ => ⟨nofun,nofun⟩
  | anthropic =>
    refine forall_mem_singleton.mpr ⟨fun _ => ?_,nofun⟩
    rw [anthropicMessageValue,if_pos ⟨hrole,by simp [hcalls,hne]⟩]
    refine ⟨Or.inr rfl,fun hempty => ?_⟩
    obtain ⟨call,calls,rfl⟩ := exists_cons_of_ne_nil hne
    rw [hcalls] at hempty
    exact absurd (append_eq_nil_iff.mp hempty).2 (cons_ne_nil _ _)

theorem fitting_result (hrole : message.role = "tool") :
    ∀ m ∈ messageValues parse format message, Fitting format m := by
  cases format with
  | openaiCompatible => exact forall_mem_singleton.mpr (fitting_openaiMessageValue message)
  | responses => exact fun m _ => ⟨nofun,nofun⟩
  | anthropic =>
    refine forall_mem_singleton.mpr ⟨fun _ => ?_,nofun⟩
    rw [anthropicMessageValue,if_neg (by simp [hrole]),if_pos hrole]
    exact ⟨Or.inl rfl,cons_ne_nil _ _⟩

variable {history : List AiModelMessage}

theorem Replayed.roles (h : Replayed history) : ∀ message ∈ history, message.role ≠ "system" := by
  induction h with
  | nil => exact nofun
  | @plain message rest hrole _ _ _ ih =>
    refine forall_mem_cons.mpr ⟨?_,ih⟩
    rcases hrole with hrole | hrole <;> rw [hrole] <;> decide
  | @turn message results rest calls hrole _ _ _ hresults _ _ ih =>
    refine forall_mem_cons.mpr ⟨by rw [hrole]; decide,forall_mem_append.mpr ⟨fun r hr => ?_,ih⟩⟩
    rw [(hresults r hr).1]
    decide

theorem Replayed.sound (h : Replayed history) : Sound format (history.flatMap (messageValues parse format)) := by
  induction h with
  | nil => exact .nil
  | plain hrole hcalls hcontent _ ih =>
    exact (Sound.plain parse hrole hcalls hcontent).append ih
  | @turn message results rest calls hrole hcalls hne hnodup hresults hids _ ih =>
    have hanswering := messageValues_results parse format hresults
    rw [hids] at hanswering
    rw [flatMap_append]
    refine Sound.append ⟨accepted_turn (messageValues_turn parse format hrole hcalls) hanswering hnodup,?_⟩ ih
    refine forall_mem_append.mpr ⟨fitting_calls parse hrole hcalls hne,fun m hm => ?_⟩
    obtain ⟨r,hr,hm⟩ := mem_flatMap.mp hm
    exact fitting_result parse (hresults r hr).1 m hm

theorem sound_new (h : Replayed history) (contextWindowTokens : ℕ) :
    Sound format (AgentConversation.new parse format history contextWindowTokens).messages := by
  have hkept : history.filter (·.role ≠ "system") = history :=
    filter_eq_self.mpr fun message hm => decide_eq_true (h.roles message hm)
  change Sound format ((history.filter (·.role ≠ "system")).flatMap (messageValues parse format))
  rw [hkept]
  exact h.sound parse

/-- A message of the user has parts to be merged, none of which is a call or a result. -/
theorem contentParts_user (hrole : message.role = "user") (hcalls : message.toolCalls = []) :
    ∀ m, m = anthropicMessageValue parse message →
    contentParts (m.get? "content") ≠ [] ∧ (contentParts (m.get? "content")).filterMap toolUseId = [] ∧
      (contentParts (m.get? "content")).filterMap toolResultId = [] := by
  rintro m rfl
  rw [anthropicMessageValue,if_neg (by simp [hcalls]),if_neg (by simp [hrole])]
  by_cases himages : message.images.isEmpty
  · rw [if_pos himages]
    exact ⟨cons_ne_nil _ _,rfl,rfl⟩
  · rw [if_neg himages]
    exact ⟨cons_ne_nil _ _,images_silent message.content message.images⟩

theorem someContent_set {last : Json} (hlast : last.getText? "role" = some "user") {parts : List Json}
    (h : parts ≠ []) : (last.set "content" (.array parts)).getText? "role" = some "user" ∧
      SomeContent (last.set "content" (.array parts)) := by
  cases last with
  | object fields =>
    rw [SomeContent,Json.get?_set_self,Json.getText?,Json.get?_set_of_ne _ (by decide)]
    exact ⟨hlast,h⟩
  | _ => cases hlast

theorem Sound.merge {messages : List Json} {m : Json} (h : Sound .anthropic messages)
    (hm : Sound .anthropic [m]) (hsome : contentParts (m.get? "content") ≠ [])
    (hparts : (contentParts (m.get? "content")).filterMap toolUseId = [] ∧
      (contentParts (m.get? "content")).filterMap toolResultId = []) :
    Sound .anthropic (mergeUserMessage messages m) := by
  rw [mergeUserMessage]
  cases hlast : messages.getLast? with
  | none => exact h.append hm
  | some last =>
    by_cases huser : last.getText? "role" = some "user"
    · have hmessages : messages = messages.dropLast ++ [last] :=
        (dropLast_append_getLast? last hlast).symm
      simp only [huser,if_true]
      constructor
      · rw [map_append,map_singleton,merge_entry huser hparts,← map_singleton,← map_append,
          ← hmessages]
        exact h.accepted
      · refine forall_mem_append.mpr ⟨fun m hm => h.fitting m ((dropLast_sublist _).subset hm),?_⟩
        refine forall_mem_singleton.mpr ⟨fun _ => ?_,nofun⟩
        have hmerged : contentParts (last.get? "content") ++ contentParts (m.get? "content") ≠ [] :=
          append_ne_nil_of_right_ne_nil _ hsome
        obtain ⟨hrole,hcontent⟩ := someContent_set huser hmerged
        exact ⟨Or.inl hrole,hcontent⟩
    · simp only [huser,if_false]
      exact h.append hm

theorem Sound.pushUser (h : Sound c.format c.messages) (hrole : message.role = "user")
    (hcalls : message.toolCalls = []) (hcontent : message.content ≠ "") :
    Sound c.format (c.pushUserMessage parse message).messages := by
  obtain ⟨format,messages,w,n⟩ := c
  have hencoded : ∀ w, (AgentConversation.new parse format [message] w).messages =
      messageValues parse format message := by
    simp [AgentConversation.new,hrole]
  have hsound : Sound format (messageValues parse format message) :=
    .plain parse (Or.inl hrole) hcalls hcontent
  cases format with
  | openaiCompatible =>
    simp only [AgentConversation.pushUserMessage,hencoded]
    exact h.append hsound
  | responses =>
    simp only [AgentConversation.pushUserMessage,hencoded]
    exact h.append hsound
  | anthropic =>
    obtain ⟨hsome,hparts⟩ := contentParts_user parse hrole hcalls _ rfl
    simp only [AgentConversation.pushUserMessage,hencoded]
    exact h.merge hsound hsome hparts

end Pushes

/-! ## Runs -/

section Runs

variable {parse : String → Option Json}
variable {imageAttachments : List AiContextBlock → Except AppError (List AiImageAttachment)}

variable {c : AgentConversation}

theorem Sound.pushUsers {messages : List AiModelMessage}
    (hmessages : ∀ message ∈ messages, Sendable imageAttachments message) (h : Sound c.format c.messages) :
    Sound c.format (c.pushUserMessages parse messages).messages := by
  induction messages generalizing c with
  | nil => exact h
  | cons message messages ih =>
    obtain ⟨⟨content,contexts,budget,hsome,hmessage⟩,hrest⟩ := forall_mem_cons.mp hmessages
    obtain ⟨hrole,hcalls,hcontent⟩ := userMessage_spec hmessage hsome
    have hpushed := h.pushUser parse hrole hcalls hcontent
    have hformat := pushUserMessage_format parse c message
    rw [← hformat] at hpushed ⊢
    exact ih hrest hpushed

variable {system : String}

theorem Sound.compact (h : Sound c.format c.messages) {force : Bool} (hregular : RegularCompaction c system force) :
    Sound c.format (c.compactIfNeeded system force).1.messages := by
  by_cases hstarts : c.starts system force
  swap
  · rw [AgentConversation.compactIfNeeded,if_neg hstarts]
    exact h
  obtain ⟨summary,k,hmessages,hsummary,hk⟩ := compactIfNeeded_messages c system force
  have hformat : c.format ≠ .anthropic := by
    intro hformat
    rw [hregular.1 hformat] at hstarts
    cases hstarts
  rw [hmessages]
  have hsilent : Sound c.format summary := by
    refine ⟨accepted_silent (forall_mem_map.mpr fun m hm => (hsummary m hm).1),fun m hm => ?_⟩
    refine ⟨fun h => absurd h hformat,fun _ hrole => ?_⟩
    rw [(hsummary m hm).2] at hrole
    exact absurd (Option.some.inj hrole) (by decide)
  refine hsilent.append ⟨?_,fun m hm => h.fitting m (mem_of_mem_drop hm)⟩
  rw [map_drop]
  by_cases hzero : k = 0
  · rw [hzero]
    exact h.accepted
  have hcut := (hk.resolve_left hzero).2
  cases hc : c.format with
  | anthropic => exact absurd hc hformat
  | openaiCompatible =>
    have hskip : ∀ i e, (c.messages.map (entry .openaiCompatible))[skipTools c.messages i]? = some e →
        e.answers = [] := by
      intro i e he
      rw [getElem?_map,Option.map_eq_some_iff] at he
      obtain ⟨m,hm,rfl⟩ := he
      exact if_neg ((skipTools_spec c.messages i).2.1 m hm)
    have haccepted := h.accepted
    rw [hc] at haccepted
    rcases hcut with rfl | ⟨-,rfl⟩
    · exact haccepted.drop (hskip _) nofun
    · exact haccepted.drop (hskip _) nofun
  | responses =>
    obtain ⟨hfirst,hsecond⟩ := hregular.2 hc hstarts
    have haccepted := h.accepted
    rw [hc] at haccepted hfirst hsecond
    rcases hcut with rfl | ⟨hgoes,rfl⟩
    · exact haccepted.drop (fun e he => (hfirst e he).1) fun _ => hfirst
    · exact haccepted.drop (fun e he => (hsecond hgoes e he).1) fun _ => hsecond hgoes

theorem compaction_sound (h : Sound c.format c.messages) {force : Bool} (hregular : RegularCompaction c system force) :
    Sound (c.compactIfNeeded system force).1.format (c.compactIfNeeded system force).1.messages := by
  rw [compactIfNeeded_format]
  exact h.compact hregular

/-- In a regular run the messages stay sound. -/
theorem AgentRun.sound {phase : Phase} (h : AgentRun parse imageAttachments .regular system phase c) :
    Sound c.format c.messages := by
  induction h with
  | @start stored history message budget format window hhistory hmessage =>
    obtain ⟨content,contexts,budget,hsome,hmessage⟩ := hmessage
    obtain ⟨hrole,hcalls,hcontent⟩ := userMessage_spec hmessage hsome
    apply sound_new
    exact (modelMessagesFromHistory_replayed hhistory).append (.plain (Or.inl hrole) hcalls hcontent .nil)
  | @request c messages _ hmessages hallowed ih =>
    have hpushed : Sound c.format (c.pushUserMessages parse messages).messages := ih.pushUsers hmessages
    rw [← pushUserMessages_format parse] at hpushed
    exact compaction_sound hpushed hallowed
  | @interrupted c text messages _ hallowed hmessages ih =>
    have hkept : Sound (c.pushInterrupted parse text).format (c.pushInterrupted parse text).messages := by
      rw [AgentConversation.pushInterrupted]
      split_ifs with hblank
      · exact ih
      · rw [pushAssistantTurn_format]
        exact ih.pushText parse rfl (hallowed hblank)
    rw [pushUserMessages_format]
    exact hkept.pushUsers hmessages
  | @said c turn messages _ hnone hallowed _ hmessages ih =>
    have hpushed := ih.pushText parse hnone hallowed
    rw [← pushAssistantTurn_format parse c turn] at hpushed
    rw [pushUserMessages_format]
    exact hpushed.pushUsers hmessages
  | @executed c turn outcomes _ hcalls hallowed hlength hcompaction ih =>
    have hpushed := ih.pushResults parse hcalls hallowed hlength
    have hformat : ((c.pushAssistantTurn parse turn).pushToolResults (turn.toolCalls.zip outcomes)).format =
        c.format := (pushToolResults_format _ _).trans (pushAssistantTurn_format parse c turn)
    rw [← hformat] at hpushed
    rw [AgentConversation.pushExecuted]
    split_ifs with hcompact
    · exact compaction_sound hpushed (hcompaction hcompact)
    · exact hpushed

end Runs

/-! ## Requests -/

section Requests

variable {format : AiApiFormat}

theorem map_behind (after : List Json) : behind (severalItems format) (after.map (entry format)) =
    ((behindTurn format after).takeWhile (resultIds format · ≠ [])).map (entry format) := by
  rw [behind,behindTurn,severalItems]
  by_cases hformat : format = .responses
  · rw [if_pos hformat,if_pos (decide_eq_true hformat),dropWhile_map,takeWhile_map]
    rfl
  · rw [if_neg hformat,if_neg (by simpa using hformat),takeWhile_map]
    rfl

theorem Sound.wellFormed {messages : List Json} (h : Sound format messages) : WellFormed format messages where
  answered := by
    intro before message after heq id hid
    have hentries := congrArg (List.map (entry format)) heq
    rw [map_append] at hentries
    have hcount := h.accepted.count hentries hid
    rwa [map_behind,flatMap_map] at hcount
  asked := by
    intro before message after heq id hid
    have hentries := congrArg (List.map (entry format)) heq
    rw [map_append] at hentries
    obtain ⟨earlier,asker,between,hbefore,hasked,hbetween⟩ := h.accepted.asked hentries hid
    obtain ⟨earlier,rest,rfl,rfl,hrest⟩ := map_eq_append_iff.mp hbefore
    obtain ⟨asker,between,rfl,rfl,rfl⟩ := map_eq_cons_iff.mp hrest
    refine ⟨earlier,asker,between,rfl,hasked,fun m hm => hbetween (entry format m) ?_⟩
    rw [behindTurn] at hm
    by_cases hformat : format = .responses
    · rw [if_pos hformat] at hm
      rw [severalItems,if_pos (decide_eq_true hformat),dropWhile_map]
      exact mem_map_of_mem hm
    · rw [if_neg hformat] at hm
      rw [severalItems,if_neg (by simpa using hformat)]
      exact mem_map_of_mem hm
  anthropic hformat message hm := (h.fitting message hm).1 hformat
  openai hformat message hm := (h.fitting message hm).2 hformat

theorem Sound.sent {c : AgentConversation} (h : Sound c.format c.messages) (system : String) :
    Sound c.format (sentMessages system c) := by
  obtain ⟨format,messages,w,n⟩ := c
  cases format with
  | openaiCompatible =>
    have hsystem : Sound .openaiCompatible [.object [("role",.text "system"),("content",.text system)]] :=
      .silent ⟨rfl,rfl⟩ ⟨nofun,fun _ hrole => absurd (Option.some.inj hrole) (by decide)⟩
    exact hsystem.append h
  | responses | anthropic => exact h

end Requests

/-- In a regular run every request is well formed for its provider. -/
theorem requests_wellFormed {parse : String → Option Json}
    {imageAttachments : List AiContextBlock → Except AppError (List AiImageAttachment)} {system : String}
    {c : AgentConversation} (h : AgentRun parse imageAttachments .regular system .sent c) :
    WellFormed c.format (sentMessages system c) :=
  (h.sound.sent system).wellFormed

section Examples

/-- A reply with one call that has been executed. -/
def listedReply : AiChatMessage where
  role := "assistant"
  content := ""
  contexts := []
  toolCalls := ⟨[⟨"1","list_directory",some "\x7b\x7d","completed",none,"src",none,none⟩],nodup_singleton _⟩
  not_blank h := absurd h (by decide)

def noImages (_ : List AiContextBlock) : Except AppError (List AiImageAttachment) := .ok []

def typed (content : String) : AiModelMessage := ⟨"user",content,[],[],none⟩

theorem typed_sendable {content : String} (h : content ≠ "") : Sendable noImages (typed content) :=
  ⟨content,[],0,Or.inl h,rfl⟩

/-- The first request in a session whose last reply has listed a directory. -/
def afterListing : AgentConversation :=
  .new (fun _ => none) .anthropic (replyMessages listedReply ++ [typed "go on"]) 1000

theorem requests_wellFormed_listing :
    WellFormed .anthropic (sentMessages "" (afterListing.compactIfNeeded "" false).1) := by
  have hcompaction : RegularCompaction afterListing "" false := ⟨fun _ => rfl,nofun⟩
  have hhistory : modelMessagesFromHistory noImages 0 [listedReply] = .ok (replyMessages listedReply) := rfl
  have hnone : ∀ message ∈ ([] : List AiModelMessage), Sendable noImages message := nofun
  have hrun : AgentRun (fun _ => none) noImages .regular "" .sent (afterListing.compactIfNeeded "" false).1 :=
    .request (.start .anthropic 1000 hhistory (typed_sendable (by decide))) hnone hcompaction
  have hformat : (afterListing.compactIfNeeded "" false).1.format = .anthropic := rfl
  exact hformat ▸ requests_wellFormed hrun

/-- A question, its answer without calls, and a message that was accepted meanwhile. -/
def acceptedMeanwhile : AgentConversation :=
  ((AgentConversation.new (fun _ => none) .openaiCompatible [typed "hi"] 1000).pushAssistantTurn
    (fun _ => none) ⟨"Hello","",[]⟩).pushUserMessages (fun _ => none) [typed "more"]

/-- The answer goes out again with an empty list of calls. -/
theorem empty_calls_sent : AgentRun (fun _ => none) noImages .all "" .sent acceptedMeanwhile ∧
    ¬ WellFormed .openaiCompatible (sentMessages "" acceptedMeanwhile) := by
  constructor
  · have hnone : ∀ message ∈ ([] : List AiModelMessage), Sendable noImages message := nofun
    have hmore : ∀ message ∈ [typed "more"], Sendable noImages message :=
      forall_mem_singleton.mpr (typed_sendable (by decide))
    have hstored : modelMessagesFromHistory noImages 0 [] = .ok [] := rfl
    have hstart : AgentRun (fun _ => none) noImages .all "" .head
        (.new (fun _ => none) .openaiCompatible [typed "hi"] 1000) :=
      .start .openaiCompatible 1000 hstored (typed_sendable (by decide))
    have hsaid : AgentRun (fun _ => none) noImages .all "" .head acceptedMeanwhile :=
      .said (.request hstart hnone trivial) rfl trivial (cons_ne_nil _ _) hmore
    exact .request hsaid hnone trivial
  · intro h
    have hanswer : Json.object [("role",.text "assistant"),("content",.text "Hello"),("tool_calls",.array [])] ∈
        sentMessages "" acceptedMeanwhile := mem_cons_of_mem _ (mem_cons_of_mem _ mem_cons_self)
    exact h.openai rfl _ hanswer rfl rfl

end Examples

end Mxterm.Agent
