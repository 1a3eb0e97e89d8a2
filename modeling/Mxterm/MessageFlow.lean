import Mathlib.Data.List.Nodup
import Mxterm.StableMerges
import Mxterm.Transitions
import Mxterm.Values

/-! The flow of an assistant's message (`aiMessageFlow.ts`): the thinking blocks that are put together from their
deltas, and the text, the blocks and the tool calls in the order in which they are shown. -/
namespace Mxterm.MessageFlow

open List

/-! ## Messages -/

structure AiToolCallRecord where
  id : String
  name : String
  status : String
  output : String
  textOffset : ℕ
  deriving DecidableEq

structure AiThinkingUpdate where
  id : String
  textOffset : ℕ
  toolOffset : ℕ
  startedAtMs : ℕ
  finishedAtMs : Option ℕ
  deriving DecidableEq

structure AiThinkingBlock extends AiThinkingUpdate where
  content : String
  deriving DecidableEq

structure AiChatMessage where
  id : String
  content : String
  thinking : String
  thinkingBlocks : List AiThinkingBlock
  toolCalls : List AiToolCallRecord
  status : String
  deriving DecidableEq

def AiChatMessage.lastBlock (message : AiChatMessage) : Option AiThinkingBlock := message.thinkingBlocks.getLast?

/-- The block that a delta goes on with. -/
def AiChatMessage.previous (message : AiChatMessage) : Option AiThinkingUpdate → Option AiThinkingBlock
  | some update => message.thinkingBlocks.find? (·.id = update.id)
  | none => message.lastBlock.filter (·.finishedAtMs = none)

/-- What is recorded of a block when no update comes with the delta. -/
def AiChatMessage.generatedUpdate (message : AiChatMessage) (now : ℕ) : AiThinkingUpdate :=
  { id := message.id ++ "-thinking-" ++ toString (message.thinkingBlocks.length + 1)
    textOffset := message.content.length
    toolOffset := message.toolCalls.length
    startedAtMs := now
    finishedAtMs := none }

def appendThinkingDelta (message : AiChatMessage) (delta : String) (update : Option AiThinkingUpdate) (now : ℕ) :
    AiChatMessage :=
  let nextUpdate := update.getD (message.generatedUpdate now)
  match message.previous update with
  | none =>
    if delta = "" then message
    else { message with
      thinking := message.thinking ++ delta
      thinkingBlocks := message.thinkingBlocks ++ [⟨nextUpdate,delta⟩] }
  | some previous =>
    if delta = "" ∧ update = none then message
    else { message with
      thinking := message.thinking ++ delta
      thinkingBlocks := message.thinkingBlocks.map fun block =>
        if block.id = previous.id then ⟨{ nextUpdate with id := previous.id },previous.content ++ delta⟩ else block }

def finishThinkingBlock (message : AiChatMessage) (now : ℕ) : AiChatMessage :=
  match message.lastBlock.filter (·.finishedAtMs = none) with
  | none => message
  | some active => { message with
      thinkingBlocks := message.thinkingBlocks.map fun block =>
        if block.id = active.id then { block with finishedAtMs := some now } else block }

/-! ## The flow -/

inductive Kind
  | thinking | tool
  deriving DecidableEq

inductive AiMessageFlowItem
  | text (id : String) (text : String)
  | thinking (id : String) (block : AiThinkingBlock)
  | tool (id : String) (call : AiToolCallRecord)
  deriving DecidableEq

namespace AiMessageFlowItem

def id : AiMessageFlowItem → String
  | .text id _ => id
  | .thinking id _ => id
  | .tool id _ => id

def text? : AiMessageFlowItem → Option String
  | .text _ chars => some chars
  | .thinking _ _ => none
  | .tool _ _ => none

def block? : AiMessageFlowItem → Option AiThinkingBlock
  | .text _ _ => none
  | .thinking _ block => some block
  | .tool _ _ => none

def call? : AiMessageFlowItem → Option AiToolCallRecord
  | .text _ _ => none
  | .thinking _ _ => none
  | .tool _ call => some call

/-- What begins with the item. -/
def mark? : AiMessageFlowItem → Option (Kind × String)
  | .text _ _ => none
  | .thinking id _ => some (.thinking,id)
  | .tool id _ => some (.tool,id)

end AiMessageFlowItem

/-- The place of a call or a block in the flow. -/
structure Boundary where
  offset : ℕ
  order : ℕ
  item : AiMessageFlowItem
  deriving DecidableEq

/-- The comparison `a.offset - b.offset || a.order - b.order` is not positive. -/
def Boundary.before (a b : Boundary) : Bool := a.offset < b.offset || (a.offset == b.offset && a.order ≤ b.order)

def toolBoundary (index : ℕ) (call : AiToolCallRecord) : Boundary := ⟨call.textOffset,index * 2 + 1,.tool call.id call⟩

def blockBoundary (block : AiThinkingBlock) : Boundary :=
  ⟨block.textOffset,block.toolOffset * 2,.thinking block.id block⟩

/-- The characters that `String.prototype.trim` removes. -/
def isWhiteSpace (c : Char) : Bool := (Text.isWhitespace c && c != Char.ofNat 0x85) || c == Char.ofNat 0xFEFF

def trim (chars : List Char) : List Char := (chars.dropWhile isWhiteSpace).rdropWhile isWhiteSpace

def textId (cursor : ℕ) : String := "text-" ++ toString cursor

def textItem (cursor : ℕ) (chars : List Char) : List AiMessageFlowItem :=
  if trim chars = [] then [] else [.text (textId cursor) (String.ofList chars)]

/-- The items from a cursor on. -/
def layOut (chars : List Char) (cursor : ℕ) : List Boundary → List AiMessageFlowItem
  | [] => textItem cursor (chars.drop cursor)
  | boundary :: boundaries =>
    let offset := min (max boundary.offset cursor) chars.length
    textItem cursor ((chars.drop cursor).take (offset - cursor)) ++
      boundary.item :: layOut chars offset boundaries

def AiChatMessage.flowBlocks (message : AiChatMessage) (streaming : Bool) : List AiThinkingBlock :=
  if message.thinkingBlocks ≠ [] then message.thinkingBlocks
  else if message.thinking ≠ "" then
    [⟨⟨message.id ++ "-legacy-thinking",0,0,0,if streaming then none else some 0⟩,message.thinking⟩]
  else []

def buildAiMessageFlow (message : AiChatMessage) (streamingOverride : Option Bool) : List AiMessageFlowItem :=
  let streaming := streamingOverride.getD (message.status = "streaming")
  let boundaries := message.toolCalls.mapIdx toolBoundary ++ (message.flowBlocks streaming).map blockBoundary
  layOut message.content.toList 0 (boundaries.mergeSort Boundary.before)

/-! ## What a message receives -/

inductive Event
  | text (delta : String) (now : ℕ)
  | thinking (delta : String) (update : Option AiThinkingUpdate) (now : ℕ)
  | toolCall (record : AiToolCallRecord) (now : ℕ)

def upsertToolCall (calls : List AiToolCallRecord) (record : AiToolCallRecord) : List AiToolCallRecord :=
  if calls.any (·.id = record.id) then calls.map fun call => if call.id = record.id then record else call
  else calls ++ [record]

def AiChatMessage.receive (message : AiChatMessage) : Event → AiChatMessage
  | .text delta now =>
    { finishThinkingBlock message now with content := message.content ++ delta, status := "streaming" }
  | .thinking delta update now => { appendThinkingDelta message delta update now with status := "streaming" }
  | .toolCall record now =>
    { (if message.toolCalls.any (·.id = record.id) then message else finishThinkingBlock message now) with
      toolCalls := upsertToolCall message.toolCalls record }

/-! ## The texts between the items -/

/-- The texts are what is left of the characters when segments of white space fall away. -/
def UpToBlank (texts : List String) (chars : List Char) : Prop :=
  ∃ segments : List (List Char), segments.flatten = chars ∧
    texts = (segments.filter (trim · ≠ [])).map String.ofList

section
variable {chars chars' : List Char} {texts texts' : List String} {boundary : Boundary} {boundaries : List Boundary}
  {cursor start : ℕ}

theorem trim_eq_nil_iff : trim chars = [] ↔ ∀ c ∈ chars, isWhiteSpace c = true := by
  rw [trim,rdropWhile_eq_nil_iff]
  constructor
  · intro h c hc
    rw [← takeWhile_append_dropWhile (p := isWhiteSpace) (l := chars)] at hc
    rcases mem_append.mp hc with hc | hc
    · exact mem_takeWhile_imp hc
    · exact h c hc
  · exact fun h c hc => h c ((dropWhile_sublist _).subset hc)

theorem upToBlank_append (h : UpToBlank texts chars) (h' : UpToBlank texts' chars') :
    UpToBlank (texts ++ texts') (chars ++ chars') := by
  obtain ⟨segments,rfl,rfl⟩ := h
  obtain ⟨segments',rfl,rfl⟩ := h'
  exact ⟨segments ++ segments',flatten_append,by rw [filter_append,map_append]⟩

theorem upToBlank_textItem (cursor : ℕ) (chars : List Char) :
    UpToBlank ((textItem cursor chars).filterMap AiMessageFlowItem.text?) chars := by
  refine ⟨[chars],append_nil chars,?_⟩
  rw [textItem]
  by_cases h : trim chars = [] <;> simp [h,AiMessageFlowItem.text?]

/-- The boundaries stand one behind the other, from the cursor on, within the text. -/
def Fits (chars : List Char) : ℕ → List Boundary → Prop
  | cursor, [] => cursor ≤ chars.length
  | cursor, boundary :: boundaries =>
    cursor ≤ boundary.offset ∧ boundary.offset ≤ chars.length ∧ boundary.item.text? = none ∧
      Fits chars boundary.offset boundaries

/-- The text from the cursor to the next boundary. -/
def gap (chars : List Char) (cursor : ℕ) : List Boundary → List Char
  | [] => chars.drop cursor
  | boundary :: _ => (chars.drop cursor).take (boundary.offset - cursor)

theorem layOut_cons (h : Fits chars cursor (boundary :: boundaries)) :
    layOut chars cursor (boundary :: boundaries) =
      textItem cursor (gap chars cursor (boundary :: boundaries)) ++
        boundary.item :: layOut chars boundary.offset boundaries := by
  have hoffset : min (max boundary.offset cursor) chars.length = boundary.offset := by
    have := h.1
    have := h.2.1
    omega
  rw [layOut]
  simp only [hoffset,gap]

/-- What does not come from the texts comes from the boundaries. -/
theorem filterMap_layOut {β : Type} {f : AiMessageFlowItem → Option β} (hf : ∀ id text, f (.text id text) = none) :
    (layOut chars cursor boundaries).filterMap f = boundaries.filterMap fun boundary => f boundary.item := by
  have htext (cursor : ℕ) (chars : List Char) : (textItem cursor chars).filterMap f = [] := by
    rw [textItem]
    split_ifs <;> simp [hf]
  induction boundaries generalizing cursor with
  | nil => rw [layOut,htext,filterMap_nil]
  | cons boundary boundaries ih =>
    rw [layOut,filterMap_append,htext,nil_append,filterMap_cons,filterMap_cons,ih]

theorem drop_eq_gap (h : Fits chars cursor (boundary :: boundaries)) :
    chars.drop cursor = gap chars cursor (boundary :: boundaries) ++ chars.drop boundary.offset := by
  have hdrop : (chars.drop cursor).drop (boundary.offset - cursor) = chars.drop boundary.offset := by
    rw [drop_drop,Nat.add_sub_cancel' h.1]
  rw [gap,← hdrop,take_append_drop]

theorem Fits.offset_ge (h : Fits chars cursor boundaries) (hmem : boundary ∈ boundaries) :
    cursor ≤ boundary.offset := by
  induction boundaries generalizing cursor with
  | nil => cases hmem
  | cons first boundaries ih =>
    rcases mem_cons.mp hmem with rfl | hmem
    · exact h.1
    · exact Nat.le_trans h.1 (ih h.2.2.2 hmem)

theorem upToBlank_layOut (h : Fits chars cursor boundaries) :
    UpToBlank ((layOut chars cursor boundaries).filterMap AiMessageFlowItem.text?) (chars.drop cursor) := by
  induction boundaries generalizing cursor with
  | nil => exact upToBlank_textItem cursor _
  | cons boundary boundaries ih =>
    rw [layOut_cons h,drop_eq_gap h,filterMap_append,filterMap_cons,h.2.2.1]
    exact upToBlank_append (upToBlank_textItem cursor _) (ih h.2.2.2)

/-- In front of an item is the text up to its place. -/
theorem layOut_placed (h : Fits chars cursor boundaries) {i : ℕ} (hi : boundaries[i]? = some boundary) :
    ∃ before after, layOut chars cursor boundaries = before ++ boundary.item :: after ∧
      before.filterMap AiMessageFlowItem.mark? =
        (boundaries.take i).filterMap (fun earlier => earlier.item.mark?) ∧
      UpToBlank (before.filterMap AiMessageFlowItem.text?) ((chars.drop cursor).take (boundary.offset - cursor)) := by
  induction boundaries generalizing cursor i with
  | nil => cases hi
  | cons first boundaries ih =>
    have htext : (textItem cursor (gap chars cursor (first :: boundaries))).filterMap AiMessageFlowItem.mark? = [] := by
      rw [textItem]
      split_ifs <;> rfl
    cases i with
    | zero =>
      cases hi
      exact ⟨_,_,layOut_cons h,htext,upToBlank_textItem cursor _⟩
    | succ i =>
      obtain ⟨before,after,heq,hmarks,hblank⟩ := ih h.2.2.2 hi
      refine ⟨textItem cursor (gap chars cursor (first :: boundaries)) ++ first.item :: before,after,?_,?_,?_⟩
      · rw [layOut_cons h,heq,append_assoc,cons_append]
      · rw [filterMap_append,htext,nil_append,filterMap_cons,hmarks,take_succ_cons,
          filterMap_cons]
      · have hge := h.2.2.2.offset_ge (mem_of_getElem? hi)
        have htake : (chars.drop cursor).take (boundary.offset - cursor) = gap chars cursor (first :: boundaries) ++
            (chars.drop first.offset).take (boundary.offset - first.offset) := by
          have hsplit : boundary.offset - cursor =
              first.offset - cursor + (boundary.offset - first.offset) := by
            have := h.1
            omega
          rw [hsplit,take_add,drop_drop,Nat.add_sub_cancel' h.1,gap]
        rw [htake,filterMap_append,filterMap_cons,h.2.2.1]
        exact upToBlank_append (upToBlank_textItem cursor _) hblank

end

/-! ## The ids of the items -/

/-- A text that is shown begins at the start: behind it comes a character that is not white space, before the next
place. -/
def TextBegins (chars : List Char) (places : List ℕ) (origin start : ℕ) : Prop :=
  (start = origin ∨ start ∈ places) ∧
    ∃ i c, chars[i]? = some c ∧ isWhiteSpace c = false ∧ start ≤ i ∧ ∀ place ∈ places, ¬ (start < place ∧ place ≤ i)

/-- Where the texts between the boundaries begin. -/
def starts (chars : List Char) (cursor : ℕ) : List Boundary → List ℕ
  | [] => if trim (gap chars cursor []) = [] then [] else [cursor]
  | boundary :: boundaries =>
    (if trim (gap chars cursor (boundary :: boundaries)) = [] then [] else [cursor]) ++
      starts chars boundary.offset boundaries

section
variable {chars : List Char} {boundary : Boundary} {boundaries : List Boundary} {cursor start : ℕ}

theorem textId_injective : Function.Injective textId := by
  intro m n h
  have hrepr : m.repr = n.repr := (String.append_right_inj _).mp h
  have hdigits := congrArg String.toList hrepr
  rw [Nat.toList_repr,Nat.toList_repr] at hdigits
  have hvalue := congrArg (Nat.ofDigitChars 10 · 0) hdigits
  simpa only [Nat.ofDigitChars_ten_toDigits] using hvalue

theorem ids_layOut (h : Fits chars cursor boundaries) :
    ((layOut chars cursor boundaries).map AiMessageFlowItem.id).Perm
      ((starts chars cursor boundaries).map textId ++ boundaries.map fun boundary => boundary.item.id) := by
  have htext (cursor : ℕ) (chars : List Char) : (textItem cursor chars).map AiMessageFlowItem.id =
      (if trim chars = [] then [] else [cursor]).map textId := by
    rw [textItem]
    split_ifs <;> rfl
  induction boundaries generalizing cursor with
  | nil =>
    rw [layOut,starts,gap,htext,map_nil,append_nil]
  | cons boundary boundaries ih =>
    rw [layOut_cons h,starts,map_append,map_append,htext,append_assoc]
    apply List.Perm.append_left
    exact ((ih h.2.2.2).cons _).trans perm_middle.symm

theorem mem_gap (h : Fits chars cursor boundaries) {c : Char} : c ∈ gap chars cursor boundaries ↔
    ∃ i, chars[i]? = some c ∧ cursor ≤ i ∧ ∀ boundary ∈ boundaries, i < boundary.offset := by
  cases boundaries with
  | nil =>
    rw [gap,mem_iff_getElem?]
    constructor
    · rintro ⟨j,hj⟩
      rw [getElem?_drop] at hj
      exact ⟨_,hj,Nat.le_add_right _ _,nofun⟩
    · rintro ⟨i,hi,hle,-⟩
      exact ⟨i - cursor,by rwa [getElem?_drop,Nat.add_sub_cancel' hle]⟩
  | cons boundary boundaries =>
    rw [gap,mem_iff_getElem?]
    constructor
    · rintro ⟨j,hj⟩
      rw [getElem?_take,Option.ite_none_right_eq_some,getElem?_drop] at hj
      refine ⟨_,hj.2,Nat.le_add_right _ _,fun later hlater => ?_⟩
      have hoffset : boundary.offset ≤ later.offset := by
        rcases mem_cons.mp hlater with rfl | hlater
        · exact Nat.le_refl _
        · exact h.2.2.2.offset_ge hlater
      omega
    · rintro ⟨i,hi,hle,hlt⟩
      have hhere := hlt boundary mem_cons_self
      refine ⟨i - cursor,?_⟩
      rw [getElem?_take,if_pos (by omega),getElem?_drop,Nat.add_sub_cancel' hle]
      exact hi

theorem trim_gap_ne_nil (h : Fits chars cursor boundaries) :
    trim (gap chars cursor boundaries) ≠ [] ↔ ∃ i c, chars[i]? = some c ∧ isWhiteSpace c = false ∧ cursor ≤ i ∧
      ∀ boundary ∈ boundaries, i < boundary.offset := by
  rw [Ne,trim_eq_nil_iff]
  push Not
  simp only [mem_gap h,Bool.not_eq_true]
  constructor
  · rintro ⟨c,⟨i,hi,hle,hlt⟩,hc⟩
    exact ⟨i,c,hi,hc,hle,hlt⟩
  · rintro ⟨i,c,hi,hc,hle,hlt⟩
    exact ⟨c,⟨i,hi,hle,hlt⟩,hc⟩

theorem mem_starts_gap (h : Fits chars cursor boundaries) :
    (start ∈ if trim (gap chars cursor boundaries) = [] then [] else [cursor]) ↔ start = cursor ∧
      ∃ i c, chars[i]? = some c ∧ isWhiteSpace c = false ∧ cursor ≤ i ∧
        ∀ boundary ∈ boundaries, i < boundary.offset := by
  rw [← trim_gap_ne_nil h]
  by_cases hblank : trim (gap chars cursor boundaries) = [] <;> simp [hblank]

theorem mem_starts (h : Fits chars cursor boundaries) :
    start ∈ starts chars cursor boundaries ↔ TextBegins chars (boundaries.map Boundary.offset) cursor start := by
  induction boundaries generalizing cursor with
  | nil =>
    rw [starts,mem_starts_gap h]
    constructor
    · rintro ⟨rfl,i,c,hi,hc,hle,-⟩
      exact ⟨.inl rfl,i,c,hi,hc,hle,nofun⟩
    · rintro ⟨hstart,i,c,hi,hc,hle,-⟩
      obtain rfl := hstart.resolve_right not_mem_nil
      exact ⟨rfl,i,c,hi,hc,hle,nofun⟩
  | cons boundary boundaries ih =>
    have hge (place : ℕ) (hplace : place ∈ boundaries.map Boundary.offset) : boundary.offset ≤ place := by
      obtain ⟨later,hlater,rfl⟩ := mem_map.mp hplace
      exact h.2.2.2.offset_ge hlater
    rw [starts,mem_append,mem_starts_gap h,ih h.2.2.2,TextBegins,TextBegins,map_cons]
    simp only [forall_mem_cons]
    rw [mem_cons]
    constructor
    · rintro (⟨rfl,i,c,hi,hc,hle,hlt,hlater⟩ | ⟨hstart,i,c,hi,hc,hle,hlater⟩)
      · refine ⟨.inl rfl,i,c,hi,hc,hle,by omega,fun place hplace => ?_⟩
        have := hge place hplace
        omega
      · refine ⟨.inr hstart,i,c,hi,hc,hle,?_,hlater⟩
        rcases hstart with rfl | hstart
        · omega
        · have := hge start hstart
          omega
    · rintro ⟨hstart,i,c,hi,hc,hle,hhere,hlater⟩
      by_cases hlt : i < boundary.offset
      · -- the character stands in front of every boundary, so its text begins at the cursor
        left
        have hcursor : start = cursor := by
          rcases hstart with rfl | rfl | hstart
          · rfl
          · omega
          · have := hge start hstart
            omega
        subst hcursor
        refine ⟨rfl,i,c,hi,hc,hle,hlt,fun later hmem => ?_⟩
        exact Nat.lt_of_lt_of_le hlt (h.2.2.2.offset_ge hmem)
      · right
        refine ⟨?_,i,c,hi,hc,hle,hlater⟩
        rcases hstart with rfl | hstart
        · have := h.1
          omega
        · exact hstart

theorem nodup_starts (h : Fits chars cursor boundaries) : (starts chars cursor boundaries).Nodup := by
  induction boundaries generalizing cursor with
  | nil =>
    rw [starts]
    split_ifs <;> simp
  | cons boundary boundaries ih =>
    rw [starts,nodup_append]
    refine ⟨by split_ifs <;> simp,ih h.2.2.2,fun first hfirst later hlater => ?_⟩
    obtain ⟨rfl,i,-,-,-,hle,hlt⟩ := (mem_starts_gap h).mp hfirst
    have hhere := hlt boundary mem_cons_self
    rcases ((mem_starts h.2.2.2).mp hlater).1 with rfl | hlater
    · omega
    · obtain ⟨place,hplace,rfl⟩ := mem_map.mp hlater
      have := h.2.2.2.offset_ge hplace
      omega

/-- The ids are distinct when those of the boundaries are, and no text begins under one of them. -/
theorem nodup_layOut (h : Fits chars cursor boundaries) :
    ((layOut chars cursor boundaries).map AiMessageFlowItem.id).Nodup ↔
      (boundaries.map fun boundary => boundary.item.id).Nodup ∧
        ∀ start, TextBegins chars (boundaries.map Boundary.offset) cursor start →
          textId start ∉ boundaries.map fun boundary => boundary.item.id := by
  rw [(ids_layOut h).nodup_iff,nodup_append]
  have hstarts := (nodup_starts h).map textId_injective
  constructor
  · rintro ⟨-,hitems,hapart⟩
    refine ⟨hitems,fun start hbegins hmem => ?_⟩
    exact hapart _ (mem_map_of_mem ((mem_starts h).mpr hbegins)) _ hmem rfl
  · rintro ⟨hitems,hapart⟩
    refine ⟨hstarts,hitems,fun id hid id' hid' heq => ?_⟩
    obtain ⟨start,hstart,rfl⟩ := mem_map.mp hid
    subst heq
    exact hapart start ((mem_starts h).mp hstart) hid'

end

end Mxterm.MessageFlow
