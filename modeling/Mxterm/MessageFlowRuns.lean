import Mxterm.MessageFlow

/-! What the flow of a message shows in the states that it comes to (`aiMessageFlow.ts`). -/
namespace Mxterm.MessageFlow

open AiMessageFlowItem hiding id

open List hiding getElem?_eq_some_iff

/-! ## Runs -/

/-- What has begun, with the numbers of characters and of tool calls that were there before it. -/
structure Beginning where
  kind : Kind
  id : String
  place : ℕ
  tools : ℕ
  deriving DecidableEq

def Beginning.mark (beginning : Beginning) : Kind × String := (beginning.kind,beginning.id)

/-- A message, and what has begun in it, in order. -/
structure Turn where
  message : AiChatMessage
  begun : List Beginning
  deriving DecidableEq

/-- What has begun when the message becomes another one. -/
def AiChatMessage.begins (message later : AiChatMessage) : List Beginning :=
  (later.thinkingBlocks.drop message.thinkingBlocks.length).map
      (fun block => ⟨.thinking,block.id,message.content.length,message.toolCalls.length⟩) ++
    (later.toolCalls.drop message.toolCalls.length).map
      fun call => ⟨.tool,call.id,message.content.length,message.toolCalls.length⟩

namespace Turn

def step (t : Turn) (event : Event) : Option Turn :=
  some ⟨t.message.receive event,t.begun ++ t.message.begins (t.message.receive event)⟩

/-- The numbers that are recorded of something: those of its beginning, or those so far. -/
def recordedAt (t : Turn) (kind : Kind) (id : String) : ℕ × ℕ :=
  match t.begun.find? fun beginning => beginning.mark = (kind,id) with
  | some beginning => (beginning.place,beginning.tools)
  | none => (t.message.content.length,t.message.toolCalls.length)

def Recorded (t : Turn) : Event → Prop
  | .text _ _ => True
  | .thinking _ none _ => True
  | .thinking _ (some update) _ => (update.textOffset,update.toolOffset) = t.recordedAt .thinking update.id
  | .toolCall record _ => record.textOffset = (t.recordedAt .tool record.id).1

instance (t : Turn) : ∀ event, Decidable (t.Recorded event)
  | .text _ _ => .isTrue trivial
  | .thinking _ none _ => .isTrue trivial
  | .thinking _ (some _) _ => decEq (α := ℕ × ℕ) _ _
  | .toolCall _ _ => decEq (α := ℕ) _ _

/-- A delta without an update does not go on with a block that was taken up again behind other text or calls. -/
def Continues (t : Turn) : Event → Prop
  | .text _ _ => True
  | .thinking _ (some _) _ => True
  | .thinking delta none _ => ∀ block, t.message.previous none = some block → delta ≠ "" →
      block.textOffset = t.message.content.length ∧ block.toolOffset = t.message.toolCalls.length
  | .toolCall _ _ => True

end Turn

/-- Nothing has been received yet. -/
def Begins (t : Turn) : Prop :=
  t.message.content = "" ∧ t.message.thinking = "" ∧ t.message.thinkingBlocks = [] ∧ t.message.toolCalls = [] ∧
    t.begun = []

/-! ## What the flow keeps -/

/-- The items show the whole message in its order. -/
structure Kept (t : Turn) (items : List AiMessageFlowItem) : Prop where
  calls : items.filterMap call? = t.message.toolCalls
  blocks : items.filterMap block? = t.message.thinkingBlocks
  order : items.filterMap mark? = t.begun.map Beginning.mark
  text : UpToBlank (items.filterMap text?) t.message.content.toList
  placed : ∀ i beginning, t.begun[i]? = some beginning → ∃ before item after, items = before ++ item :: after ∧
    item.mark? = some beginning.mark ∧ (before.filterMap mark?).length = i ∧
      UpToBlank (before.filterMap text?) (t.message.content.toList.take beginning.place)
  ids : (items.map AiMessageFlowItem.id).Nodup

def AiChatMessage.ids (message : AiChatMessage) : List String :=
  message.toolCalls.map (·.id) ++ message.thinkingBlocks.map (·.id)

def AiChatMessage.places (message : AiChatMessage) : List ℕ :=
  message.toolCalls.map (·.textOffset) ++ message.thinkingBlocks.map (·.textOffset)

/-- The ids of calls and blocks are distinct, and no text begins under one of them. -/
def AiChatMessage.IdsApart (message : AiChatMessage) : Prop :=
  message.ids.Nodup ∧
    ∀ start, TextBegins message.content.toList message.places 0 start → textId start ∉ message.ids

/-! ## The boundaries in the order in which they began -/

def Boundary.isTool (boundary : Boundary) : Bool := boundary.item.call?.isSome

def Boundary.beginning (boundary : Boundary) : Option (Kind × String) × ℕ × ℕ :=
  (boundary.item.mark?,boundary.offset,boundary.order / 2)

/-- The boundaries of a message, in order. -/
structure Aligned (message : AiChatMessage) (begun : List Beginning) (boundaries : List Boundary) : Prop where
  tools : boundaries.filter Boundary.isTool = message.toolCalls.mapIdx toolBoundary
  blocks : boundaries.filter (! Boundary.isTool ·) = message.thinkingBlocks.map blockBoundary
  sorted : boundaries.Pairwise (Boundary.before · · = true)
  within : ∀ boundary ∈ boundaries,
    boundary.offset ≤ message.content.length ∧ boundary.order ≤ message.toolCalls.length * 2
  begun : boundaries.map Boundary.beginning =
    begun.map fun beginning => (some beginning.mark,beginning.place,beginning.tools)

section
variable {message : AiChatMessage} {begun : List Beginning} {boundaries : List Boundary} {boundary : Boundary}
  {id : String} {kind : Kind}

theorem before_iff {a b : Boundary} :
    a.before b = true ↔ a.offset < b.offset ∨ a.offset = b.offset ∧ a.order ≤ b.order := by
  simp [Boundary.before]

theorem before_trans (a b c : Boundary) (hab : a.before b = true) (hbc : b.before c = true) :
    a.before c = true := by
  rw [before_iff] at *
  omega

theorem before_total (a b : Boundary) : (a.before b || b.before a) = true := by
  rw [Bool.or_eq_true,before_iff,before_iff]
  omega

theorem perm_of_aligned (h : Aligned message begun boundaries) :
    boundaries.Perm (message.toolCalls.mapIdx toolBoundary ++ message.thinkingBlocks.map blockBoundary) := by
  rw [← h.tools,← h.blocks]
  exact (filter_append_perm _ _).symm

theorem mem_of_aligned (h : Aligned message begun boundaries) : boundary ∈ boundaries ↔
    (∃ i call, message.toolCalls[i]? = some call ∧ toolBoundary i call = boundary) ∨
      ∃ block ∈ message.thinkingBlocks, blockBoundary block = boundary := by
  rw [(perm_of_aligned h).mem_iff,mem_append,mem_map,mem_iff_getElem?]
  simp only [getElem?_mapIdx,Option.map_eq_some_iff]

variable {β : Type}

theorem mapIdx_toolBoundary (f : Boundary → β) (g : AiToolCallRecord → β)
    (hfg : ∀ i call, f (toolBoundary i call) = g call) (calls : List AiToolCallRecord) :
    (calls.mapIdx toolBoundary).map f = calls.map g := by
  apply ext_getElem?
  intro i
  rw [getElem?_map,getElem?_mapIdx,getElem?_map,Option.map_map]
  exact congrArg (Option.map · _) (funext (hfg i))

theorem ids_of_aligned (h : Aligned message begun boundaries) :
    (boundaries.map fun boundary => boundary.item.id).Perm message.ids := by
  have hperm := (perm_of_aligned h).map fun boundary => boundary.item.id
  rwa [map_append,mapIdx_toolBoundary _ (·.id) (fun _ _ => rfl),map_map] at hperm

theorem places_of_aligned (h : Aligned message begun boundaries) :
    (boundaries.map Boundary.offset).Perm message.places := by
  have hperm := (perm_of_aligned h).map Boundary.offset
  rwa [map_append,mapIdx_toolBoundary _ (·.textOffset) (fun _ _ => rfl),map_map] at hperm

/-- Sorting brings out the boundaries in the order in which they began. -/
theorem mergeSort_of_aligned (h : Aligned message begun boundaries) :
    (message.toolCalls.mapIdx toolBoundary ++ message.thinkingBlocks.map blockBoundary).mergeSort Boundary.before =
      boundaries := by
  have htools (b : Boundary) (hb : b ∈ message.toolCalls.mapIdx toolBoundary) : b.isTool = true := by
    rw [← h.tools] at hb
    exact (mem_filter.mp hb).2
  have hblocks (b : Boundary) (hb : b ∈ message.thinkingBlocks.map blockBoundary) : b.isTool = false := by
    rw [← h.blocks] at hb
    simpa using (mem_filter.mp hb).2
  apply StableMerges.mergeSort_eq before_trans before_total h.sorted (p := Boundary.isTool)
  · rw [filter_append,filter_eq_self.mpr htools,
      filter_eq_nil_iff.mpr fun b hb => by simp [hblocks b hb],append_nil,h.tools]
  · rw [filter_append,filter_eq_nil_iff.mpr fun b hb => by simp [htools b hb],
      filter_eq_self.mpr fun b hb => by simp [hblocks b hb],nil_append,h.blocks]
  · -- the order of a call is odd, that of a block is even
    intro a ha b hb hyes hno hboth
    rw [before_iff,before_iff] at hboth
    rcases (mem_of_aligned h).mp ha with ⟨i,call,-,rfl⟩ | ⟨block,-,rfl⟩
    · rcases (mem_of_aligned h).mp hb with ⟨j,call',-,rfl⟩ | ⟨block,-,rfl⟩
      · cases hno
      · simp only [toolBoundary,blockBoundary] at hboth
        omega
    · cases hyes

theorem fits_of_sorted {chars : List Char} {cursor : ℕ} (hsorted : boundaries.Pairwise (Boundary.before · · = true))
    (hcursor : cursor ≤ chars.length) (hfrom : ∀ b ∈ boundaries, cursor ≤ b.offset)
    (hwithin : ∀ b ∈ boundaries, b.offset ≤ chars.length ∧ b.item.text? = none) : Fits chars cursor boundaries := by
  induction boundaries generalizing cursor with
  | nil => exact hcursor
  | cons b boundaries ih =>
    rw [pairwise_cons] at hsorted
    rw [forall_mem_cons] at hfrom hwithin
    refine ⟨hfrom.1,hwithin.1.1,hwithin.1.2,ih hsorted.2 hwithin.1.1 (fun c hc => ?_) hwithin.2⟩
    have := before_iff.mp (hsorted.1 c hc)
    omega

theorem fits_of_aligned (h : Aligned message begun boundaries) : Fits message.content.toList 0 boundaries := by
  apply fits_of_sorted h.sorted (Nat.zero_le _) fun _ _ => Nat.zero_le _
  intro b hb
  refine ⟨(h.within b hb).1,?_⟩
  rcases (mem_of_aligned h).mp hb with ⟨i,call,-,rfl⟩ | ⟨block,-,rfl⟩ <;> rfl

/-! ## What is shown of them -/

theorem filterMap_isTool (f : AiMessageFlowItem → Option β) (p : Boundary → Bool)
    (hf : ∀ boundary, p boundary = false → f boundary.item = none) :
    (boundaries.filter p).filterMap (fun boundary => f boundary.item) =
      boundaries.filterMap fun boundary => f boundary.item := by
  rw [filterMap_filter]
  apply filterMap_congr
  intro boundary _
  by_cases hp : p boundary = true
  · rw [if_pos hp]
  · rw [if_neg hp,hf boundary (Bool.eq_false_iff.mpr hp)]

theorem filterMap_of_map_eq {α : Type} {f : α → Option β} {l : List α} {r : List β} (h : l.map f = r.map some) :
    l.filterMap f = r := by
  rw [← Function.id_comp f,← filterMap_map,h,filterMap_map]
  exact filterMap_some

theorem calls_of_aligned (h : Aligned message begun boundaries) :
    boundaries.filterMap (fun boundary => boundary.item.call?) = message.toolCalls := by
  rw [← filterMap_isTool _ Boundary.isTool fun b hb => by simpa [Boundary.isTool] using hb,h.tools]
  exact filterMap_of_map_eq (mapIdx_toolBoundary _ some (fun _ _ => rfl) _)

theorem blocks_of_aligned (h : Aligned message begun boundaries) :
    boundaries.filterMap (fun boundary => boundary.item.block?) = message.thinkingBlocks := by
  have hblock (b : Boundary) (hb : (! b.isTool) = false) : b.item.block? = none := by
    rcases b with ⟨offset,order,item⟩
    cases item with
    | text => rfl
    | thinking => cases hb
    | tool => rfl
  rw [← filterMap_isTool _ _ hblock,h.blocks,filterMap_map]
  exact filterMap_some

theorem marks_of_aligned (h : Aligned message begun boundaries) :
    boundaries.map (fun boundary => boundary.item.mark?) = (begun.map Beginning.mark).map some := by
  have hbegun := congrArg (List.map Prod.fst) h.begun
  rw [map_map,map_map] at hbegun
  rw [map_map]
  exact hbegun

theorem textBegins_congr {chars : List Char} {places places' : List ℕ} {origin start : ℕ}
    (h : places.Perm places') : TextBegins chars places origin start ↔ TextBegins chars places' origin start := by
  simp only [TextBegins,h.mem_iff]

theorem nodup_iff_apart (h : Aligned message begun boundaries) :
    ((layOut message.content.toList 0 boundaries).map AiMessageFlowItem.id).Nodup ↔ message.IdsApart := by
  rw [nodup_layOut (fits_of_aligned h),AiChatMessage.IdsApart,(ids_of_aligned h).nodup_iff]
  simp only [textBegins_congr (places_of_aligned h),(ids_of_aligned h).mem_iff]

/-- Boundaries in order give a flow that keeps the message. -/
theorem kept_of_aligned {t : Turn} (h : Aligned t.message t.begun boundaries) (hids : t.message.IdsApart) :
    Kept t (layOut t.message.content.toList 0 boundaries) := by
  have hfits := fits_of_aligned h
  have hmarks := marks_of_aligned h
  refine ⟨?_,?_,?_,upToBlank_layOut hfits,?_,(nodup_iff_apart h).mpr hids⟩
  · rw [filterMap_layOut fun _ _ => rfl,calls_of_aligned h]
  · rw [filterMap_layOut fun _ _ => rfl,blocks_of_aligned h]
  · rw [filterMap_layOut fun _ _ => rfl,filterMap_of_map_eq hmarks]
  · intro i beginning hbeginning
    have hat := congrArg (·[i]?) h.begun
    simp only [getElem?_map,hbeginning,Option.map_some,Option.map_eq_some_iff] at hat
    obtain ⟨boundary,hboundary,hsame⟩ := hat
    simp only [Boundary.beginning,Prod.mk.injEq] at hsame
    obtain ⟨before,after,heq,hbefore,hblank⟩ := layOut_placed hfits hboundary
    refine ⟨before,boundary.item,after,heq,hsame.1,?_,?_⟩
    · have htake := congrArg (List.take i) hmarks
      rw [← map_take,← map_take,← map_take] at htake
      have hlt := (List.getElem?_eq_some_iff.mp hbeginning).1
      rw [hbefore,filterMap_of_map_eq htake,length_map,length_take,Nat.min_eq_left hlt.le]
    · rw [← hsame.2.1]
      exact hblank

end

/-! ## What a step does to them -/

section
variable {message later : AiChatMessage} {begun : List Beginning} {boundaries : List Boundary} {t : Turn}

/-- What stands at the boundaries may be renewed. -/
theorem Aligned.relabel (h : Aligned message begun boundaries) (relabel : AiMessageFlowItem → AiMessageFlowItem)
    (hmark : ∀ item, (relabel item).mark? = item.mark?)
    (hcontent : message.content.length ≤ later.content.length)
    (hlength : later.toolCalls.length = message.toolCalls.length)
    (htools : later.toolCalls.mapIdx toolBoundary = (message.toolCalls.mapIdx toolBoundary).map
      fun boundary => { boundary with item := relabel boundary.item })
    (hblocks : later.thinkingBlocks.map blockBoundary = (message.thinkingBlocks.map blockBoundary).map
      fun boundary => { boundary with item := relabel boundary.item }) :
    Aligned later begun (boundaries.map fun boundary => { boundary with item := relabel boundary.item }) := by
  have hkind (item : AiMessageFlowItem) : (relabel item).call?.isSome = item.call?.isSome := by
    have := hmark item
    cases item <;> cases hitem : relabel _ <;> simp_all [mark?,call?]
  constructor
  · rw [htools,← h.tools,filter_map]
    exact congrArg _ (filter_congr fun boundary _ => hkind boundary.item)
  · rw [hblocks,← h.blocks,filter_map]
    exact congrArg _ (filter_congr fun boundary _ => congrArg (! ·) (hkind boundary.item))
  · rw [pairwise_map]
    exact h.sorted
  · intro b hb
    obtain ⟨boundary,hmem,rfl⟩ := mem_map.mp hb
    have hwithin := h.within boundary hmem
    rw [hlength]
    exact ⟨hwithin.1.trans hcontent,hwithin.2⟩
  · rw [← h.begun,map_map]
    apply map_congr_left
    intro boundary _
    simp only [Function.comp_apply,Boundary.beginning,hmark]

def relabelBlocks (g : AiThinkingBlock → AiThinkingBlock) : AiMessageFlowItem → AiMessageFlowItem
  | .text id chars => .text id chars
  | .thinking id block => .thinking id (g block)
  | .tool id call => .tool id call

def relabelCalls (f : AiToolCallRecord → AiToolCallRecord) : AiMessageFlowItem → AiMessageFlowItem
  | .text id chars => .text id chars
  | .thinking id block => .thinking id block
  | .tool id call => .tool id (f call)

/-- Blocks that stay where they are. -/
theorem Aligned.mapBlocks (h : Aligned message begun boundaries) {g : AiThinkingBlock → AiThinkingBlock}
    (hcontent : message.content.length ≤ later.content.length) (htools : later.toolCalls = message.toolCalls)
    (hblocks : later.thinkingBlocks = message.thinkingBlocks.map g)
    (hg : ∀ block ∈ message.thinkingBlocks, (g block).id = block.id ∧ (g block).textOffset = block.textOffset ∧
      (g block).toolOffset = block.toolOffset) : ∃ boundaries', Aligned later begun boundaries' := by
  refine ⟨_,h.relabel (relabelBlocks g) (fun item => by cases item <;> rfl) hcontent (by rw [htools]) ?_ ?_⟩
  · rw [htools]
    apply ext_getElem?
    intro i
    rw [getElem?_map,getElem?_mapIdx,Option.map_map]
    rfl
  · rw [hblocks,map_map,map_map]
    apply map_congr_left
    intro block hblock
    obtain ⟨hid,htext,htool⟩ := hg block hblock
    simp only [Function.comp_apply,blockBoundary,relabelBlocks,hid,htext,htool]

/-- Calls that stay where they are. -/
theorem Aligned.mapCalls (h : Aligned message begun boundaries) {f : AiToolCallRecord → AiToolCallRecord}
    (hcontent : message.content.length ≤ later.content.length) (htools : later.toolCalls = message.toolCalls.map f)
    (hblocks : later.thinkingBlocks = message.thinkingBlocks)
    (hf : ∀ call ∈ message.toolCalls, (f call).id = call.id ∧ (f call).textOffset = call.textOffset) :
    ∃ boundaries', Aligned later begun boundaries' := by
  refine ⟨_,h.relabel (relabelCalls f) (fun item => by cases item <;> rfl) hcontent
    (by rw [htools,length_map]) ?_ ?_⟩
  · rw [htools]
    apply ext_getElem?
    intro i
    rw [getElem?_map,getElem?_mapIdx,getElem?_mapIdx,getElem?_map]
    cases hcall : message.toolCalls[i]? with
    | none => rfl
    | some call =>
      obtain ⟨hid,htext⟩ := hf call (mem_of_getElem? hcall)
      simp only [Option.map_some,Function.comp_apply,toolBoundary,relabelCalls,hid,htext]
  · rw [hblocks,map_map]
    rfl

/-- What begins now stands behind everything else. -/
theorem Aligned.sorted_concat (h : Aligned message begun boundaries) {boundary : Boundary}
    (hoffset : boundary.offset = message.content.length) (horder : message.toolCalls.length * 2 ≤ boundary.order) :
    (boundaries ++ [boundary]).Pairwise (Boundary.before · · = true) := by
  rw [pairwise_append]
  refine ⟨h.sorted,pairwise_singleton _ _,fun b hb c hc => ?_⟩
  obtain rfl := mem_singleton.mp hc
  have := h.within b hb
  rw [before_iff]
  omega

theorem Aligned.appendBlock (h : Aligned message begun boundaries) {block : AiThinkingBlock}
    (hcontent : later.content = message.content) (htools : later.toolCalls = message.toolCalls)
    (hblocks : later.thinkingBlocks = message.thinkingBlocks ++ [block])
    (htext : block.textOffset = message.content.length) (htool : block.toolOffset = message.toolCalls.length) :
    Aligned later (begun ++ message.begins later) (boundaries ++ [blockBoundary block]) := by
  constructor
  · rw [filter_append,h.tools,htools]
    exact append_nil _
  · rw [filter_append,h.blocks,hblocks,map_append]
    rfl
  · exact h.sorted_concat htext (by rw [blockBoundary,htool])
  · intro b hb
    rw [hcontent,htools]
    rcases mem_append.mp hb with hb | hb
    · exact h.within b hb
    · obtain rfl := mem_singleton.mp hb
      exact ⟨htext.le,by rw [blockBoundary,htool]⟩
  · have hbegins : message.begins later =
        [⟨.thinking,block.id,message.content.length,message.toolCalls.length⟩] := by
      simp [AiChatMessage.begins,hblocks,htools]
    rw [hbegins,map_append,h.begun]
    simp [blockBoundary,Boundary.beginning,mark?,Beginning.mark,htext,htool]

theorem Aligned.appendCall (h : Aligned message begun boundaries) {call : AiToolCallRecord}
    (hcontent : later.content = message.content) (htools : later.toolCalls = message.toolCalls ++ [call])
    (hblocks : later.thinkingBlocks = message.thinkingBlocks) (htext : call.textOffset = message.content.length) :
    Aligned later (begun ++ message.begins later) (boundaries ++ [toolBoundary message.toolCalls.length call]) := by
  constructor
  · rw [filter_append,h.tools,htools,mapIdx_concat]
    rfl
  · rw [filter_append,h.blocks,hblocks]
    exact append_nil _
  · exact h.sorted_concat htext (Nat.le_succ _)
  · intro b hb
    rw [hcontent,htools,length_append]
    rcases mem_append.mp hb with hb | hb
    · have := h.within b hb
      exact ⟨this.1,by omega⟩
    · obtain rfl := mem_singleton.mp hb
      simp only [toolBoundary,length_singleton]
      omega
  · have hbegins : message.begins later = [⟨.tool,call.id,message.content.length,message.toolCalls.length⟩] := by
      simp [AiChatMessage.begins,hblocks,htools]
    rw [hbegins,map_append,h.begun]
    simp [toolBoundary,Boundary.beginning,mark?,Beginning.mark,htext]
    omega

end

/-! ## What is recorded -/

section
variable {message later : AiChatMessage} {begun : List Beginning} {boundaries : List Boundary} {boundary : Boundary}
  {t : Turn} {kind : Kind} {id : String}

theorem id_of_mark {item : AiMessageFlowItem} (h : item.mark? = some (kind,id)) : item.id = id := by
  cases item with
  | text => cases h
  | thinking | tool => exact congrArg Prod.snd (Option.some.inj h)

/-- A beginning has its boundary. -/
theorem boundary_of_begun (h : Aligned message begun boundaries) {beginning : Beginning} (hmem : beginning ∈ begun) :
    ∃ boundary ∈ boundaries, boundary.item.mark? = some beginning.mark ∧ boundary.offset = beginning.place ∧
      boundary.order / 2 = beginning.tools := by
  have hmap : (some beginning.mark,beginning.place,beginning.tools) ∈ boundaries.map Boundary.beginning := by
    rw [h.begun]
    exact mem_map_of_mem hmem
  obtain ⟨boundary,hboundary,heq⟩ := mem_map.mp hmap
  simp only [Boundary.beginning,Prod.mk.injEq] at heq
  exact ⟨boundary,hboundary,heq⟩

theorem recordedAt_of_mem (h : Aligned t.message t.begun boundaries) (hids : t.message.ids.Nodup)
    (hmem : boundary ∈ boundaries) (hmark : boundary.item.mark? = some (kind,id)) :
    t.recordedAt kind id = (boundary.offset,boundary.order / 2) := by
  rw [Turn.recordedAt]
  cases hfind : t.begun.find? fun beginning => beginning.mark = (kind,id) with
  | none =>
    have hmap := mem_map_of_mem (f := Boundary.beginning) hmem
    rw [h.begun] at hmap
    obtain ⟨beginning,hbeginning,heq⟩ := mem_map.mp hmap
    simp only [Boundary.beginning,hmark,Prod.mk.injEq,Option.some.injEq] at heq
    exact absurd heq.1 (by simpa using find?_eq_none.mp hfind beginning hbeginning)
  | some found =>
    have hfound : found.mark = (kind,id) := by simpa using find?_some hfind
    obtain ⟨other,hother,hmark',hoffset,horder⟩ := boundary_of_begun h (mem_of_find?_eq_some hfind)
    have hsame : other = boundary := by
      apply inj_on_of_nodup_map ((ids_of_aligned h).nodup_iff.mpr hids) hother hmem
      rw [id_of_mark hmark,id_of_mark (hmark'.trans (congrArg some hfound))]
    rw [← hsame,hoffset,horder]

theorem recordedAt_of_new (h : Aligned t.message t.begun boundaries)
    (hnew : ∀ boundary ∈ boundaries, boundary.item.mark? ≠ some (kind,id)) :
    t.recordedAt kind id = (t.message.content.length,t.message.toolCalls.length) := by
  rw [Turn.recordedAt,find?_eq_none.mpr]
  intro beginning hbeginning
  obtain ⟨boundary,hboundary,hmark,-⟩ := boundary_of_begun h hbeginning
  simpa [hmark] using hnew boundary hboundary

theorem recordedAt_block (h : Aligned t.message t.begun boundaries) (hids : t.message.ids.Nodup)
    {block : AiThinkingBlock} (hmem : block ∈ t.message.thinkingBlocks) :
    t.recordedAt .thinking block.id = (block.textOffset,block.toolOffset) := by
  have hboundary := (mem_of_aligned h).mpr (.inr ⟨block,hmem,rfl⟩)
  rw [recordedAt_of_mem h hids hboundary rfl]
  simp [blockBoundary]

theorem recordedAt_call (h : Aligned t.message t.begun boundaries) (hids : t.message.ids.Nodup)
    {call : AiToolCallRecord} (hmem : call ∈ t.message.toolCalls) :
    (t.recordedAt .tool call.id).1 = call.textOffset := by
  obtain ⟨i,hi⟩ := mem_iff_getElem?.mp hmem
  have hboundary := (mem_of_aligned h).mpr (.inl ⟨i,call,hi,rfl⟩)
  rw [recordedAt_of_mem h hids hboundary rfl]
  rfl

theorem recordedAt_newBlock (h : Aligned t.message t.begun boundaries)
    (hnew : ∀ block ∈ t.message.thinkingBlocks, block.id ≠ id) :
    t.recordedAt .thinking id = (t.message.content.length,t.message.toolCalls.length) := by
  apply recordedAt_of_new h
  intro boundary hboundary hmark
  rcases (mem_of_aligned h).mp hboundary with ⟨i,call,-,rfl⟩ | ⟨block,hblock,rfl⟩
  · cases hmark
  · exact hnew block hblock (id_of_mark hmark)

theorem recordedAt_newCall (h : Aligned t.message t.begun boundaries)
    (hnew : ∀ call ∈ t.message.toolCalls, call.id ≠ id) :
    (t.recordedAt .tool id).1 = t.message.content.length := by
  rw [recordedAt_of_new h]
  intro boundary hboundary hmark
  rcases (mem_of_aligned h).mp hboundary with ⟨i,call,hcall,rfl⟩ | ⟨block,-,rfl⟩
  · exact hnew call (mem_of_getElem? hcall) (id_of_mark hmark)
  · cases hmark

end

/-! ## Every step keeps them in order -/

section
variable {message later : AiChatMessage} {boundaries : List Boundary} {t : Turn} {now : ℕ}

/-- Blocks that are finished stay as they are in everything else. -/
theorem finishThinkingBlock_eq (message : AiChatMessage) (now : ℕ) : ∃ g : AiThinkingBlock → AiThinkingBlock,
    finishThinkingBlock message now = { message with thinkingBlocks := message.thinkingBlocks.map g } ∧
      ∀ block, (g block).id = block.id ∧ (g block).textOffset = block.textOffset ∧
        (g block).toolOffset = block.toolOffset := by
  rw [finishThinkingBlock]
  cases message.lastBlock.filter fun block => decide (block.finishedAtMs = none) with
  | none => exact ⟨id,by rw [map_id],fun _ => ⟨rfl,rfl,rfl⟩⟩
  | some active =>
    refine ⟨_,rfl,fun block => ?_⟩
    split_ifs <;> exact ⟨rfl,rfl,rfl⟩

theorem begins_eq_nil (hblocks : later.thinkingBlocks.length = message.thinkingBlocks.length)
    (hcalls : later.toolCalls.length = message.toolCalls.length) : message.begins later = [] := by
  rw [AiChatMessage.begins,← hblocks,← hcalls,drop_length,drop_length]
  rfl

/-- The boundaries after a step with which nothing begins. -/
theorem aligned_same (message : AiChatMessage) {begun : List Beginning}
    (h : ∃ boundaries', Aligned later begun boundaries')
    (hblocks : later.thinkingBlocks.length = message.thinkingBlocks.length)
    (hcalls : later.toolCalls.length = message.toolCalls.length) :
    ∃ boundaries', Aligned later (begun ++ message.begins later) boundaries' := by
  rwa [begins_eq_nil hblocks hcalls,append_nil]

/-- The text moves on, and the blocks stay where they are. -/
theorem aligned_text (h : Aligned t.message t.begun boundaries) (delta : String)
    (hlater : t.message.receive (.text delta now) = later) :
    ∃ boundaries', Aligned later (t.begun ++ t.message.begins later) boundaries' := by
  obtain ⟨g,hfinish,hg⟩ := finishThinkingBlock_eq t.message now
  have hblocks : later.thinkingBlocks = t.message.thinkingBlocks.map g := by
    rw [← hlater,AiChatMessage.receive,hfinish]
  have htools : later.toolCalls = t.message.toolCalls := by
    rw [← hlater,AiChatMessage.receive,hfinish]
  have hcontent : later.content = t.message.content ++ delta := by rw [← hlater,AiChatMessage.receive]
  refine aligned_same t.message ?_ (by rw [hblocks,length_map]) (by rw [htools])
  refine h.mapBlocks ?_ htools hblocks fun block _ => hg block
  rw [hcontent,String.length_append]
  exact Nat.le_add_right _ _

/-- A call is renewed where it is, or begins behind everything else. -/
theorem aligned_toolCall (h : Aligned t.message t.begun boundaries) (hids : t.message.ids.Nodup)
    {record : AiToolCallRecord} (hrecorded : t.Recorded (.toolCall record now))
    (hlater : t.message.receive (.toolCall record now) = later) :
    ∃ boundaries', Aligned later (t.begun ++ t.message.begins later) boundaries' := by
  rw [AiChatMessage.receive,upsertToolCall] at hlater
  by_cases hany : t.message.toolCalls.any (·.id = record.id) = true
  · rw [if_pos hany,if_pos hany] at hlater
    subst hlater
    refine aligned_same t.message ?_ rfl (length_map _)
    refine h.mapCalls (Nat.le_refl _) rfl rfl fun call hcall => ?_
    by_cases hid : call.id = record.id
    · rw [if_pos hid,hrecorded,← hid,recordedAt_call h hids hcall]
      exact ⟨rfl,rfl⟩
    · rw [if_neg hid]
      exact ⟨rfl,rfl⟩
  · rw [if_neg hany,if_neg hany] at hlater
    have hnew (call : AiToolCallRecord) (hcall : call ∈ t.message.toolCalls) : call.id ≠ record.id :=
      fun hid => hany (any_eq_true.mpr ⟨call,hcall,decide_eq_true hid⟩)
    have htext := hrecorded.trans (recordedAt_newCall h hnew)
    obtain ⟨g,hfinish,hg⟩ := finishThinkingBlock_eq t.message now
    rw [hfinish] at hlater
    subst hlater
    obtain ⟨finished,haligned⟩ : ∃ finished,
        Aligned { t.message with thinkingBlocks := t.message.thinkingBlocks.map g } t.begun finished :=
      h.mapBlocks (Nat.le_refl _) rfl rfl fun block _ => hg block
    have hbegins (later : AiChatMessage) : t.message.begins later =
        AiChatMessage.begins { t.message with thinkingBlocks := t.message.thinkingBlocks.map g } later := by
      simp only [AiChatMessage.begins,length_map]
    rw [hbegins]
    exact ⟨_,haligned.appendCall rfl rfl rfl htext⟩

variable {update : Option AiThinkingUpdate}

theorem previous_mem {previous : AiThinkingBlock} (h : message.previous update = some previous) :
    previous ∈ message.thinkingBlocks := by
  cases update with
  | none => exact mem_of_getLast? (Option.eq_some_of_filter_eq_some h)
  | some update => exact mem_of_find?_eq_some h

theorem nodup_blocks (h : message.ids.Nodup) : (message.thinkingBlocks.map (·.id)).Nodup :=
  (nodup_append.mp h).2.1

variable {delta : String}

/-- A delta goes on with a block where it is, or begins one behind everything else. -/
theorem aligned_thinking (h : Aligned t.message t.begun boundaries) (hids : t.message.ids.Nodup)
    (hrecorded : t.Recorded (.thinking delta update now)) (hcontinues : t.Continues (.thinking delta update now))
    (hlater : t.message.receive (.thinking delta update now) = later) :
    ∃ boundaries', Aligned later (t.begun ++ t.message.begins later) boundaries' := by
  have hsame (m : AiChatMessage) (hblocks : m.thinkingBlocks = t.message.thinkingBlocks)
      (htools : m.toolCalls = t.message.toolCalls) (hcontent : m.content = t.message.content) :
      ∃ boundaries', Aligned m (t.begun ++ t.message.begins m) boundaries' := by
    refine aligned_same t.message ?_ (by rw [hblocks]) (by rw [htools])
    refine h.mapBlocks (g := id) (by rw [hcontent]) htools (by rw [hblocks,map_id]) fun _ _ => ⟨rfl,rfl,rfl⟩
  rw [AiChatMessage.receive,appendThinkingDelta] at hlater
  cases hprevious : t.message.previous update with
  | none =>
    rw [hprevious] at hlater
    by_cases hdelta : delta = ""
    · rw [if_pos hdelta] at hlater
      subst hlater
      exact hsame _ rfl rfl rfl
    · rw [if_neg hdelta] at hlater
      subst hlater
      have hplace : ((update.getD (t.message.generatedUpdate now)).textOffset,
          (update.getD (t.message.generatedUpdate now)).toolOffset) =
          (t.message.content.length,t.message.toolCalls.length) := by
        cases update with
        | none => rfl
        | some update =>
          have hnew := find?_eq_none.mp hprevious
          exact hrecorded.trans (recordedAt_newBlock h fun block hblock hid => hnew block hblock (decide_eq_true hid))
      rw [Prod.mk.injEq] at hplace
      exact ⟨_,h.appendBlock rfl rfl rfl hplace.1 hplace.2⟩
  | some previous =>
    rw [hprevious] at hlater
    dsimp only at hlater
    by_cases hdelta : delta = "" ∧ update = none
    · rw [if_pos hdelta] at hlater
      subst hlater
      exact hsame _ rfl rfl rfl
    · rw [if_neg hdelta] at hlater
      subst hlater
      refine aligned_same t.message ?_ (length_map _) rfl
      refine h.mapBlocks (Nat.le_refl _) rfl rfl fun block hblock => ?_
      by_cases hid : block.id = previous.id
      · have hmem := previous_mem hprevious
        obtain rfl : block = previous := inj_on_of_nodup_map (nodup_blocks hids) hblock hmem hid
        have hplace : ((update.getD (t.message.generatedUpdate now)).textOffset,
            (update.getD (t.message.generatedUpdate now)).toolOffset) = (block.textOffset,block.toolOffset) := by
          cases update with
          | none =>
            obtain ⟨htext,htool⟩ := hcontinues block hprevious fun h => hdelta ⟨h,rfl⟩
            rw [htext,htool]
            rfl
          | some update =>
            have hupdate : block.id = update.id := by
              simpa using find?_some hprevious
            rw [Option.getD_some,hrecorded,← hupdate,recordedAt_block h hids hblock]
        rw [Prod.mk.injEq] at hplace
        rw [if_pos rfl]
        exact ⟨rfl,hplace⟩
      · rw [if_neg hid]
        exact ⟨rfl,rfl,rfl⟩

/-! ## Every run -/

/-- A message without blocks has no thoughts. -/
def AiChatMessage.Quiet (message : AiChatMessage) : Prop := message.thinkingBlocks = [] → message.thinking = ""

theorem quiet_finish (h : message.Quiet) : (finishThinkingBlock message now).Quiet := by
  obtain ⟨g,hfinish,-⟩ := finishThinkingBlock_eq message now
  rw [hfinish]
  exact fun hnil => h (map_eq_nil_iff.mp hnil)

theorem quiet_append (h : message.Quiet) : (appendThinkingDelta message delta update now).Quiet := by
  rw [appendThinkingDelta]
  cases hprevious : message.previous update with
  | none =>
    dsimp only
    split_ifs
    · exact h
    · exact fun hnil => absurd hnil (append_ne_nil_of_right_ne_nil _ (cons_ne_nil _ _))
  | some previous =>
    dsimp only
    split_ifs
    · exact h
    · intro hnil
      have hmem := previous_mem hprevious
      rw [map_eq_nil_iff.mp hnil] at hmem
      cases hmem

theorem quiet_receive (h : message.Quiet) (event : Event) : (message.receive event).Quiet := by
  cases event with
  | text => exact quiet_finish h
  | thinking => exact quiet_append h
  | toolCall record now =>
    rw [AiChatMessage.receive]
    split_ifs
    · exact h
    · exact quiet_finish h

theorem ids_map {g : AiThinkingBlock → AiThinkingBlock} (hg : ∀ block, (g block).id = block.id)
    (blocks : List AiThinkingBlock) : (blocks.map g).map (·.id) = blocks.map (·.id) := by
  rw [map_map]
  exact map_congr_left fun block _ => hg block

theorem blocks_finish : (finishThinkingBlock message now).thinkingBlocks.map (·.id) =
    message.thinkingBlocks.map (·.id) := by
  obtain ⟨g,hfinish,hg⟩ := finishThinkingBlock_eq message now
  rw [hfinish]
  exact ids_map (fun block => (hg block).1) _

theorem blocks_append :
    (message.thinkingBlocks.map (·.id)).Sublist
      ((appendThinkingDelta message delta update now).thinkingBlocks.map (·.id)) := by
  rw [appendThinkingDelta]
  cases message.previous update with
  | none =>
    dsimp only
    split_ifs
    · exact List.Sublist.refl _
    · exact (sublist_append_left _ _).map _
  | some previous =>
    dsimp only
    split_ifs
    · exact List.Sublist.refl _
    · rw [ids_map fun block => ?_]
      split_ifs with hid
      · exact hid.symm
      · rfl

theorem calls_upsert (calls : List AiToolCallRecord) (record : AiToolCallRecord) :
    (calls.map (·.id)).Sublist ((upsertToolCall calls record).map (·.id)) := by
  rw [upsertToolCall]
  split_ifs
  · have hids : (calls.map fun call => if call.id = record.id then record else call).map (·.id) =
        calls.map (·.id) := by
      rw [map_map]
      apply map_congr_left
      intro call _
      rw [Function.comp_apply]
      split_ifs with hid
      · exact hid.symm
      · rfl
    rw [hids]
  · exact (sublist_append_left _ _).map _

/-- What has an id keeps it. -/
theorem ids_receive (message : AiChatMessage) (event : Event) : message.ids.Sublist (message.receive event).ids := by
  obtain ⟨delta,now⟩ | ⟨delta,update,now⟩ | ⟨record,now⟩ := event
  · obtain ⟨g,hfinish,-⟩ := finishThinkingBlock_eq message now
    have htools : (message.receive (.text delta now)).toolCalls = message.toolCalls := by
      rw [AiChatMessage.receive,hfinish]
    rw [AiChatMessage.ids,AiChatMessage.ids,htools,AiChatMessage.receive,blocks_finish]
  · have htools : (appendThinkingDelta message delta update now).toolCalls = message.toolCalls := by
      rw [appendThinkingDelta]
      cases message.previous update <;> split_ifs <;> rfl
    rw [AiChatMessage.receive,htools]
    exact (List.Sublist.refl _).append blocks_append
  · apply (calls_upsert _ _).append
    rw [AiChatMessage.receive]
    split_ifs
    · exact List.Sublist.refl _
    · rw [blocks_finish]

theorem aligned_step (h : Aligned t.message t.begun boundaries) (hids : t.message.ids.Nodup) {event : Event}
    (hrecorded : t.Recorded event) (hcontinues : t.Continues event) :
    ∃ boundaries', Aligned (t.message.receive event) (t.begun ++ t.message.begins (t.message.receive event))
      boundaries' := by
  cases event with
  | text delta now => exact aligned_text h delta rfl
  | thinking delta update now => exact aligned_thinking h hids hrecorded hcontinues rfl
  | toolCall record now => exact aligned_toolCall h hids hrecorded rfl

theorem ids_sublist_layOut {chars : List Char} {cursor : ℕ} :
    (boundaries.map fun boundary => boundary.item.id).Sublist
      ((layOut chars cursor boundaries).map AiMessageFlowItem.id) := by
  induction boundaries generalizing cursor with
  | nil => exact nil_sublist _
  | cons boundary boundaries ih =>
    rw [layOut,map_append]
    exact ((ih.cons_cons _).trans (sublist_append_right _ _))

theorem flow_eq (h : message.Quiet) (streaming : Option Bool) : buildAiMessageFlow message streaming =
    layOut message.content.toList 0
      ((message.toolCalls.mapIdx toolBoundary ++ message.thinkingBlocks.map blockBoundary).mergeSort
        Boundary.before) := by
  have hblocks (b : Bool) : message.flowBlocks b = message.thinkingBlocks := by
    rw [AiChatMessage.flowBlocks]
    by_cases hnil : message.thinkingBlocks = []
    · rw [if_neg (not_not.mpr hnil),if_neg (not_not.mpr (h hnil)),hnil]
    · rw [if_pos hnil]
  rw [buildAiMessageFlow,hblocks]

def emptyMessage : AiChatMessage := ⟨"m","","",[],[],"streaming"⟩

def textMessage : AiChatMessage := { emptyMessage with content := "hi" }

theorem begins_empty : Begins ⟨emptyMessage,[]⟩ := ⟨rfl,rfl,rfl,rfl,rfl⟩

def reopenedUpdate : AiThinkingUpdate := ⟨"u",0,0,0,none⟩

def reopenedTurn : Turn :=
  { message := { emptyMessage with
      thinking := "abc"
      thinkingBlocks := [⟨⟨"u",0,1,3,none⟩,"abc"⟩]
      toolCalls := [⟨"c","run_command","running","",0⟩] }
    begun := [⟨.thinking,"u",0,0⟩,⟨.tool,"c",0,0⟩] }

end

end Mxterm.MessageFlow
