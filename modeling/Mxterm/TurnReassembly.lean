import Mxterm.ServerSentEvents
import Mxterm.TurnFragments

/-! The turn that is read from a stream is the turn that was cut into its events. -/
namespace Mxterm.Agent

open List

variable {json : JsonTexts}

/-- The call as the code passes it on: blank arguments stand for an empty object. -/
def passedOn (call : AgentToolCall) : AgentToolCall :=
  { call with arguments := if Text.trim call.arguments = "" then "\x7b\x7d" else call.arguments }

theorem finishCall_eq {call : AgentToolCall} (h : Text.trim call.id ≠ "") (uuid : Uuid) :
    finishCall uuid call = passedOn call := by
  simp [finishCall,passedOn,h]

theorem finish_of_named {calls : List AgentToolCall}
    (h : ∀ call ∈ calls, Text.trim call.id ≠ "" ∧ Text.trim call.name ≠ "") (uuids : ℕ → Uuid) :
    (calls.filter fun call => Text.trim call.name ≠ "").mapIdx (fun n call => finishCall (uuids n) call) =
      calls.map passedOn := by
  have hnamed : (calls.filter fun call => Text.trim call.name ≠ "") = calls :=
    filter_eq_self.mpr fun call hcall => decide_eq_true (h call hcall).2
  rw [hnamed]
  induction calls generalizing uuids with
  | nil => rfl
  | cons call calls ih =>
    obtain ⟨hcall,hcalls⟩ := forall_mem_cons.mp h
    rw [mapIdx_cons,finishCall_eq hcall.1]
    refine congrArg (passedOn call :: ·) (ih hcalls (fun n => uuids (n+1)) ?_)
    exact filter_eq_self.mpr fun call hcall => decide_eq_true (hcalls call hcall).2

/-- The calls of a turn in their slots, each cut in a way that its format has, the pieces of different calls
in any order, come out as they were, in the order of the slots, with the text and the thinking. -/
theorem streamed_turn_reassembled {format : AiApiFormat} {placed : List (ℕ × AgentToolCall)}
    {events : List String} {parts : List EventParts} (hplaced : placed.Pairwise Earlier)
    (hnamed : ∀ row ∈ placed, Text.trim row.2.id ≠ "" ∧ Text.trim row.2.name ≠ "")
    (hevents : List.Forall₂ (Event json format) events parts)
    (hslots : ∀ piece ∈ piecesOf parts, piece.1 ∈ placed.map Prod.fst)
    (hcut : ∀ row ∈ placed, Cut row.2 format (piecesAt row.1 (piecesOf parts))) :
    ∃ acc, TurnAccumulator.default.applyEvents json format events = .ok acc ∧ ∀ uuids,
      acc.finish uuids = ⟨textOf parts,thinkingOf parts,placed.map fun row => passedOn row.2⟩ := by
  refine ⟨_,applyEvents_events hevents .default,fun uuids => ?_⟩
  have hvalues : ((writes (piecesOf parts)).foldl Slots.write .empty).values = placed.map Prod.snd := by
    apply Slots.values_foldl_write hplaced
    · intro row hrow
      have hid : row.2.id ≠ "" := by
        intro hempty
        have hblank := (hnamed row hrow).1
        rw [hempty] at hblank
        exact hblank rfl
      have hpieces := hcut row hrow
      rw [writesTo_writes,slotAfter_none hpieces.ne_nil,hpieces.putTogether_eq hid]
    · intro w hw
      obtain ⟨piece,hpiece,rfl⟩ := mem_map.mp hw
      exact hslots piece hpiece
  have hcalls : ∀ call ∈ placed.map Prod.snd, Text.trim call.id ≠ "" ∧ Text.trim call.name ≠ "" := by
    intro call hcall
    obtain ⟨row,hrow,rfl⟩ := mem_map.mp hcall
    exact hnamed row hrow
  rw [foldl_add]
  simp only [TurnAccumulator.finish,TurnAccumulator.default,String.empty_append,hvalues,
    finish_of_named hcalls,map_map]
  rfl

/-! ## A turn with two calls whose chunks alternate -/

/-- A reader that knows these texts. -/
def reading (texts : List (String × Json)) : JsonTexts where
  parse data := match texts.find? fun row => row.1 = data with
    | some row => .ok row.2
    | none => .error "EOF while parsing a value at line 1 column 0"
  print _ := ""

/-- A chunk with one item of `tool_calls`. -/
def callChunk (fields function : List (String × Json)) : Json :=
  .object [("choices",.array [.object [("delta",.object [("tool_calls",
    .array [.object (fields ++ [("function",.object function)])])])]])]

def alternating : List (String × Json) :=
  [("1",callChunk [("index",.number 1),("id",.text "b")] [("name",.text "run"),("arguments",.text "4")]),
    ("2",callChunk [("index",.number 0),("id",.text "a")] [("name",.text "read")]),
    ("3",callChunk [("index",.number 1)] [("arguments",.text "2")]),
    ("4",callChunk [("index",.number 0)] [("name",.text ""),("arguments",.text "7")])]

def alternatingParts : List EventParts := alternating.map fun row => openaiParts row.2

theorem alternating_events : List.Forall₂ (Event (reading alternating) .openaiCompatible)
    (alternating.map Prod.fst) alternatingParts := by
  have hread : ∀ row ∈ alternating, (reading alternating).parse row.1 = .ok row.2 ∧
      ¬ EndMark .openaiCompatible row.1 ∧ row.2.get? "error" = none := by
    refine forall_mem_cons.mpr ⟨⟨rfl,by decide,rfl⟩,forall_mem_cons.mpr ⟨⟨rfl,by decide,rfl⟩,?_⟩⟩
    exact forall_mem_cons.mpr ⟨⟨rfl,by decide,rfl⟩,forall_mem_singleton.mpr ⟨rfl,by decide,rfl⟩⟩
  rw [forall₂_map_left_iff,alternatingParts,forall₂_map_right_iff,forall₂_same]
  intro row hrow
  obtain ⟨hparse,hend,herror⟩ := hread row hrow
  exact .value hend hparse herror

theorem alternating_reassembled : ∃ acc,
    TurnAccumulator.default.applyEvents (reading alternating) .openaiCompatible ["1","2","3","4"] = .ok acc ∧
      ∀ uuids, acc.finish uuids = ⟨"","",[⟨"a","read","7"⟩,⟨"b","run","42"⟩]⟩ := by
  apply @streamed_turn_reassembled (reading alternating) .openaiCompatible
    [(0,⟨"a","read","7"⟩),(1,⟨"b","run","42"⟩)] (alternating.map Prod.fst) alternatingParts
  · exact .cons (by simp [Earlier]) (pairwise_singleton _ _)
  · decide
  · exact alternating_events
  · decide
  · refine forall_mem_cons.mpr ⟨?_,forall_mem_singleton.mpr ?_⟩
    · exact @Cut.openai ⟨"a","read","7"⟩ [⟨"a","read",""⟩,⟨"","","7"⟩] (by decide) (by decide) (by decide)
        (by decide) rfl
    · exact @Cut.openai ⟨"b","run","42"⟩ [⟨"b","run","4"⟩,⟨"","","2"⟩] (by decide) (by decide) (by decide)
        (by decide) rfl

/-! ## What comes out otherwise -/

/-- The text of a chunk with an item whose arguments are empty. -/
def emptyArguments : String × Json :=
  ("\x7b\"choices\":[\x7b\"delta\":\x7b\"tool_calls\":[\x7b\"index\":0,\"id\":\"call_1\",\"function\":" ++
      "\x7b\"name\":\"server_monitor\",\"arguments\":\"\"\x7d\x7d]\x7d\x7d]\x7d",
    callChunk [("index",.number 0),("id",.text "call_1")] [("name",.text "server_monitor"),
      ("arguments",.text "")])

/-- The texts of two chunks, each with an item that has no index. -/
def withoutIndex : List (String × Json) :=
  [("\x7b\"choices\":[\x7b\"delta\":\x7b\"tool_calls\":[\x7b\"id\":\"a\",\"function\":" ++
      "\x7b\"name\":\"read\",\"arguments\":\"7\"\x7d\x7d]\x7d\x7d]\x7d",
    callChunk [("id",.text "a")] [("name",.text "read"),("arguments",.text "7")]),
  ("\x7b\"choices\":[\x7b\"delta\":\x7b\"tool_calls\":[\x7b\"id\":\"b\",\"function\":" ++
      "\x7b\"name\":\"run\",\"arguments\":\"42\"\x7d\x7d]\x7d\x7d]\x7d",
    callChunk [("id",.text "b")] [("name",.text "run"),("arguments",.text "42")])]

/-- An empty argument text does not come out, and two calls at one position become one. -/
theorem calls_changed : (∃ acc, TurnAccumulator.default.applyEvents (reading [emptyArguments])
      .openaiCompatible [emptyArguments.1] = .ok acc ∧
      ∀ uuids, (acc.finish uuids).toolCalls = [⟨"call_1","server_monitor","\x7b\x7d"⟩]) ∧
    ∃ acc, TurnAccumulator.default.applyEvents (reading withoutIndex) .openaiCompatible
      (withoutIndex.map Prod.fst) = .ok acc ∧ ∀ uuids, (acc.finish uuids).toolCalls = [⟨"b","read","742"⟩] :=
  ⟨⟨_,rfl,fun _ => rfl⟩,⟨_,rfl,fun _ => rfl⟩⟩

/-! ## What is shown of a turn

`run_turn` repeats an attempt that has failed before it showed anything. -/

open Execution

/-- A turn while it is read: what `on_delta` and `on_thinking` were called with, and `attempt_emitted`. -/
structure TurnStream where
  accumulator : TurnAccumulator
  deltas : List String
  thoughts : List String
  attemptEmitted : Bool

/-- What an attempt meets: the stop flag before it, the response, and the flag once it has failed. -/
structure Attempt where
  stopped : Bool
  response : Except AppError (List ServerSentEvents.Arrival)
  stoppedAfter : Bool

section

variable (json) (utf8Detail : List UInt8 → String) (format : AiApiFormat) (uuids : ℕ → Uuid)

def onData : ServerSentEvents.Consumer TurnStream := fun data => do
  let s ← get
  let (accumulator,done,delta,thinking) ← lift (s.accumulator.applyEvent json format data)
  set ({ accumulator
         deltas := if delta = "" then s.deltas else s.deltas ++ [delta]
         thoughts := if thinking = "" then s.thoughts else s.thoughts ++ [thinking]
         attemptEmitted := s.attemptEmitted || delta ≠ "" || thinking ≠ "" } : TurnStream)
  return done

def runTurnOnce (response : Except AppError (List ServerSentEvents.Arrival)) :
    EStateM AppError TurnStream AgentTurn := do
  let arrivals ← lift response
  modify fun s => { s with accumulator := .default }
  ServerSentEvents.readSseEvents utf8Detail (onData json format) [] arrivals
  let s ← get
  return s.accumulator.finish uuids

def maxProviderRetries : ℕ := 2

/-- `run_turn`, from an attempt on; `retryable` is `should_retry_provider_error`. -/
def runTurn (retryable : AppError → Bool) (attempts : ℕ → Attempt) (n : ℕ) :
    EStateM AppError TurnStream AgentTurn := do
  if (attempts n).stopped then return ⟨"","",[]⟩
  else
    modify fun s => { s with attemptEmitted := false }
    match ← attempt (runTurnOnce json utf8Detail format uuids (attempts n).response) with
    | .ok turn => return turn
    | .error error =>
      let s ← get
      if h : s.attemptEmitted = false ∧ n < maxProviderRetries ∧ retryable error ∧
          (attempts n).stoppedAfter = false then
        runTurn retryable attempts (n + 1)
      else throw error
termination_by maxProviderRetries - n

end

variable {format : AiApiFormat} {acc acc' : TurnAccumulator} {data delta thinking : String} {done : Bool}

theorem applyEvent_adds (h : acc.applyEvent json format data = .ok (acc',done,delta,thinking)) :
    acc'.text = acc.text ++ delta ∧ acc'.thinking = acc.thinking ++ thinking := by
  cases format <;> simp only [TurnAccumulator.applyEvent,TurnAccumulator.applyOpenaiEvent,
    TurnAccumulator.applyResponsesEvent,TurnAccumulator.applyAnthropicEvent] at h
  all_goals
    repeat' split at h
    all_goals cases h
    all_goals simp

/-- What was shown of an attempt is what its accumulator has. -/
def Told (s : TurnStream) : Prop :=
  s.accumulator.text = String.join s.deltas ∧ s.accumulator.thinking = String.join s.thoughts ∧
    (s.attemptEmitted = false → s.deltas = [] ∧ s.thoughts = [])

theorem join_shown (texts : List String) (text : String) :
    String.join (if text = "" then texts else texts ++ [text]) = String.join texts ++ text := by
  split_ifs with h
  · rw [h,String.append_empty]
  · simp

theorem maintains_told (data : String) : Maintains Told (onData json format data) := by
  refine fun s h => Leads.after (.get_bind (.lift_bind ?_ fun _ _ => h))
  rintro ⟨acc,done,delta,thinking⟩ happly
  refine .bind (.set_ (.pure ?_))
  obtain ⟨htext,hthinking,hnone⟩ := h
  obtain ⟨hdelta,hthought⟩ := applyEvent_adds happly
  refine ⟨?_,?_,?_⟩
  · rw [hdelta,htext,join_shown]
  · rw [hthought,hthinking,join_shown]
  · intro hquiet
    simp only [Bool.or_eq_false_iff,decide_eq_false_iff_not,not_not] at hquiet
    obtain ⟨⟨hbefore,rfl⟩,rfl⟩ := hquiet
    exact hnone hbefore

variable {s : TurnStream}

theorem told_runTurnOnce (utf8Detail : List UInt8 → String) (uuids : ℕ → Uuid) (h : Told s)
    (hnone : s.deltas = [] ∧ s.thoughts = []) (response : Except AppError (List ServerSentEvents.Arrival)) :
    Leads (runTurnOnce json utf8Detail format uuids response)
      (fun turn s' => turn.text = String.join s'.deltas ∧ turn.thinking = String.join s'.thoughts) Told s := by
  refine .lift_bind (fun arrivals _ => .bind (.modify ?_)) fun _ _ => h
  have hstart : Told { s with accumulator := .default } :=
    ⟨by rw [hnone.1]; rfl,by rw [hnone.2]; rfl,fun _ => hnone⟩
  have hread : Maintains Told (ServerSentEvents.readSseEvents utf8Detail (onData json format) [] arrivals) :=
    ServerSentEvents.maintains_readSseEvents maintains_told [] arrivals
  exact .keep_bind ⟨fun _ _ => hread.of_ok hstart,fun _ _ => hread.of_error hstart⟩ fun _ _ hs =>
    .get_bind (.pure ⟨hs.1,hs.2.1⟩)

/-- However the attempts of a turn go, the turn is what was shown of it, and what was shown of a turn that fails is
what its last attempt had got. -/
theorem turn_as_shown (json : JsonTexts) (utf8Detail : List UInt8 → String) (format : AiApiFormat) (uuids : ℕ → Uuid)
    (retryable : AppError → Bool) (attempts : ℕ → Attempt) :
    Leads (runTurn json utf8Detail format uuids retryable attempts 0)
      (fun turn s => turn.text = String.join s.deltas ∧ turn.thinking = String.join s.thoughts)
      Told ⟨.default,[],[],false⟩ := by
  have hfrom : ∀ k n s, maxProviderRetries - n = k → Told s → s.deltas = [] ∧ s.thoughts = [] →
      Leads (runTurn json utf8Detail format uuids retryable attempts n)
        (fun turn s => turn.text = String.join s.deltas ∧ turn.thinking = String.join s.thoughts) Told s := by
    intro k
    induction k using Nat.strong_induction_on with
    | h k ih =>
      intro n s hk h hnone
      rw [runTurn]
      refine .ite (fun _ => .pure ⟨by rw [hnone.1]; rfl,by rw [hnone.2]; rfl⟩) fun _ => .bind (.modify ?_)
      apply Leads.attempt_bind
      refine (@told_runTurnOnce json format { s with attemptEmitted := false } utf8Detail uuids
        ⟨h.1,h.2.1,fun _ => hnone⟩ hnone (attempts n).response).mono ?_ ?_
      · exact fun turn s' hturn => .pure hturn
      intro s' hs' error
      refine .get_bind ?_
      by_cases hagain : s'.attemptEmitted = false ∧ n < maxProviderRetries ∧ retryable error ∧
          (attempts n).stoppedAfter = false
      · rw [dif_pos hagain]
        exact ih _ (by omega) (n + 1) s' rfl hs' (hs'.2.2 hagain.1)
      · rw [dif_neg hagain]
        exact .throw hs'
  exact hfrom _ 0 _ rfl ⟨rfl,rfl,fun _ => ⟨rfl,rfl⟩⟩ ⟨rfl,rfl⟩

end Mxterm.Agent
