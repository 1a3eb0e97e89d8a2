import Mxterm.HtmlText

/-! Web pages made of texts, tags and elements whose content is not shown, and the text that `ai_web.rs` reads from
them. -/
namespace Mxterm.AiWeb

open Occurrences Agent List

/-! ## Pages -/

inductive RawKind
  | script | style
  deriving DecidableEq

def RawKind.tagName : RawKind → List Char
  | .script => "script".toList
  | .style => "style".toList

def noscriptName : List Char := "noscript".toList

/-- A script or style element: the name as it is spelled, what is between it and the closing tag, and the name there. -/
structure Element where
  kind : RawKind
  name : List Char
  inner : List Char
  closing : List Char

def Element.render (e : Element) : List Char := '<' :: e.name ++ e.inner ++ '<' :: '/' :: e.closing ++ ['>']

/-- What may be in a noscript element, its attributes included. -/
inductive Chunk
  | raw (text : List Char)
  | element (e : Element)

inductive Item
  | text (s : List Char)
  | tag (body : List Char)
  | element (e : Element)
  | noscript (name : List Char) (inner : List Chunk) (closing : List Char)

/-- The elements of some kinds are gone. -/
def Element.shown (gone : List RawKind) (e : Element) : List Char := if e.kind ∈ gone then [] else e.render

def Chunk.shown (gone : List RawKind) : Chunk → List Char
  | .raw text => text
  | .element e => e.shown gone

def Item.shown (gone : List RawKind) : Item → List Char
  | .text s => escapeHtml s
  | .tag body => '<' :: body ++ ['>']
  | .element e => e.shown gone
  | .noscript name inner closing => '<' :: name ++ inner.flatMap (Chunk.shown gone) ++ '<' :: '/' :: closing ++ ['>']

/-- The page's HTML. -/
def render (page : List Item) : List Char := page.flatMap (Item.shown [])

/-! ## What is read from them -/

/-- The texts of the page in order, with some white space in the place of everything else. -/
inductive Fills : List Item → List Char → Prop
  | nil : Fills [] []
  | text (s : List Char) {page : List Item} {rest : List Char} :
    Fills page rest → Fills (.text s :: page) (s ++ rest)
  | markup {item : Item} {gap : List Char} {page : List Item} {rest : List Char} :
    (∀ s, item ≠ .text s) → (∀ c ∈ gap, Text.isWhitespace c = true) → Fills page rest →
      Fills (item :: page) (gap ++ rest)

/-- The page's texts are read in order, and nothing else. -/
def YieldsTexts (page : List Item) : Prop :=
  ∃ text, Fills page text ∧ htmlToText (render page) = normalizeLines text

def Item.plain : Item → List Char
  | .text s => s
  | .tag body => if breaks body then ['\n'] else []
  | _ => []

/-- The texts of the page, with the line breaks that are put between them. -/
def plainText (page : List Item) : List Char := page.flatMap Item.plain

/-! ## Pages without the constructs that mislead the scan -/

/-- A complete element that has no other closing tag, and that spells no opening script tag in a style element. -/
structure Element.Tame (e : Element) : Prop where
  name : lower e.name = e.kind.tagName
  closing : lower e.closing = e.kind.tagName
  boundary : ∀ c ∈ e.inner.head?, Text.isWhitespace c ∨ c = '/' ∨ c = '>'
  first : ¬ closingOf e.kind.tagName <:+: lower ('<' :: e.name ++ e.inner)
  noScript : e.kind = .style → ¬ openingOf RawKind.script.tagName <:+: lower e.render

/-- Scripts and styles are in a noscript element as complete elements only, and it has no other closing tag. -/
def Chunk.Tame : Chunk → Prop
  | .raw text => (∀ kind : RawKind, Clear (openingOf kind.tagName) (lower text)) ∧
      Clear (closingOf noscriptName) (lower text)
  | .element e => e.Tame

def Item.Tame : Item → Prop
  | .text _ => True
  | .tag body => '<' ∉ body ∧ '>' ∉ body ∧ (∀ kind : RawKind, ¬ kind.tagName <+: lower body) ∧
      ¬ noscriptName <+: lower body
  | .element e => e.Tame
  | .noscript name inner closing => lower name = noscriptName ∧ lower closing = noscriptName ∧
    ∀ chunk ∈ inner, chunk.Tame

def Tame (page : List Item) : Prop := ∀ item ∈ page, item.Tame

/-! ## Removing one element -/

theorem lower_append (a b : List Char) : lower (a ++ b) = lower a ++ lower b := map_append

theorem lower_cons (c : Char) (a : List Char) : lower (c :: a) = c.toLower :: lower a := rfl

section
variable {tagName : List Char}

theorem removeHtmlBlocks_nil : removeHtmlBlocks tagName [] = [] :=
  removeHtmlBlocks_of_no_bracket tagName not_mem_nil

theorem removeHtmlBlocks_clear {a : List Char} (h : Clear (openingOf tagName) (lower a)) (rest : List Char) :
    removeHtmlBlocks tagName (a ++ rest) = a ++ removeHtmlBlocks tagName rest := by
  have hcut : cutAtOpening tagName (a ++ rest) =
      (cutAtOpening tagName rest).map fun cut => (a ++ cut.1,cut.2) := by
    rw [cutAtOpening,lower_append,findFirst_clear h,cutAtOpening,Option.map_map,Option.map_map]
    congr 1
    funext found
    have hlength : (lower a ++ found.1).length = a.length + found.1.length := by simp [lower]
    simp only [Function.comp_apply]
    rw [hlength,take_length_add_append,drop_length_add_append]
  cases hrest : cutAtOpening tagName rest with
  | none =>
    rw [hrest] at hcut
    rw [removeHtmlBlocks_uncut hcut,removeHtmlBlocks_uncut hrest]
  | some cut =>
    rw [hrest] at hcut
    cases hclosing : behindClosing tagName cut.2 with
    | none => rw [removeHtmlBlocks_unclosed hcut hclosing,removeHtmlBlocks_unclosed hrest hclosing]
    | some behind =>
      rw [removeHtmlBlocks_block hcut hclosing,removeHtmlBlocks_block hrest hclosing,append_assoc]

theorem removeHtmlBlocks_element {name inner closing : List Char} (hname : lower name = tagName)
    (hclosing : lower closing = tagName) (hmark : '<' ∉ tagName)
    (hfirst : ¬ closingOf tagName <:+: lower ('<' :: name ++ inner)) (rest : List Char) :
    removeHtmlBlocks tagName ('<' :: name ++ inner ++ '<' :: '/' :: closing ++ ['>'] ++ rest) =
      removeHtmlBlocks tagName rest := by
  have hcut : cutAtOpening tagName ('<' :: name ++ inner ++ '<' :: '/' :: closing ++ ['>'] ++ rest) =
      some ([],'<' :: name ++ inner ++ '<' :: '/' :: closing ++ ['>'] ++ rest) := by
    have hlower : lower ('<' :: name ++ inner ++ '<' :: '/' :: closing ++ ['>'] ++ rest) =
        openingOf tagName ++ lower (inner ++ '<' :: '/' :: closing ++ ['>'] ++ rest) := by
      have hbracket : Char.toLower '<' = '<' := by decide
      simp [lower,openingOf,← hname,hbracket]
    rw [cutAtOpening,hlower,findFirst_self (by simp [openingOf])]
    simp
  have hbehind : behindClosing tagName ('<' :: name ++ inner ++ '<' :: '/' :: closing ++ ['>'] ++ rest) =
      some rest := by
    have hlower : lower ('<' :: name ++ inner ++ '<' :: '/' :: closing ++ ['>'] ++ rest) =
        lower ('<' :: name ++ inner) ++ closingOf tagName ++ lower rest := by
      have hbracket : Char.toLower '<' = '<' := by decide
      have hslash : Char.toLower '/' = '/' := by decide
      have hend : Char.toLower '>' = '>' := by decide
      simp [lower,closingOf,← hclosing,hbracket,hslash,hend]
    have htail : '<' ∉ '/' :: tagName ++ ['>'] := by simpa using hmark
    have hclosed : closingOf tagName = '<' :: ('/' :: tagName ++ ['>']) := rfl
    rw [behindClosing,hlower,findFirst_of_mark hclosed htail hfirst]
    have hlength : (lower ('<' :: name ++ inner)).length + (closingOf tagName).length =
        ('<' :: name ++ inner ++ '<' :: '/' :: closing ++ ['>']).length := by
      simp [lower,closingOf,← hclosing]
      omega
    rw [Option.map_some,hlength,drop_left]
  rw [removeHtmlBlocks_block hcut hbehind,nil_append]

end

/-! ## Removing the elements of a kind -/

/-- A tag of another name is no opening of the kind. -/
theorem clear_tag {tagName body : List Char} (hbracket : '<' ∉ body) (htag : '>' ∉ tagName)
    (hname : ¬ tagName <+: lower body) : Clear (openingOf tagName) (lower ('<' :: body ++ ['>'])) := by
  have hopen : Char.toLower '<' = '<' := by decide
  have hclose : Char.toLower '>' = '>' := by decide
  have hlower : lower ('<' :: body ++ ['>']) = '<' :: (lower body ++ ['>']) := by simp [lower,hopen,hclose]
  rw [hlower]
  have hmem : '<' ∉ lower body ++ ['>'] := by
    rw [mem_append,mem_lower_iff (by decide)]
    simpa using hbracket
  have hstart : ¬ tagName <+: lower body ++ ['>'] := by
    intro h
    rcases prefix_concat_iff.mp h with rfl | h
    · exact htag (mem_append_right _ mem_cons_self)
    · exact hname h
  refine clear_word rfl hmem (fun h => hstart (cons_prefix_cons.mp h).2) fun h => ?_
  refine htag ((cons_prefix_cons.mp h).2.subset ?_)
  exact mem_append_right _ mem_cons_self

theorem clear_escapeHtml (tagName s : List Char) : Clear (openingOf tagName) (lower (escapeHtml s)) :=
  clear_of_not_mem (m := '<') rfl (mt (mem_lower_iff (by decide) _).mp (no_bracket_escapeHtml s))

theorem tagName_plain (kind : RawKind) : '<' ∉ kind.tagName ∧ '>' ∉ kind.tagName := by
  cases kind <;> decide

variable {kind : RawKind} {gone : List RawKind}

/-- The elements of a kind that are still shown are removed, and nothing else. -/
theorem removeHtmlBlocks_shown_element {e : Element} (h : e.Tame)
    (hothers : e.kind ∉ gone → e.kind ≠ kind → Clear (openingOf kind.tagName) (lower e.render)) (rest : List Char) :
    removeHtmlBlocks kind.tagName (e.shown gone ++ rest) =
      e.shown (kind :: gone) ++ removeHtmlBlocks kind.tagName rest := by
  by_cases hgone : e.kind ∈ gone
  · have hgone' : e.kind ∈ kind :: gone := mem_cons_of_mem _ hgone
    rw [Element.shown,Element.shown,if_pos hgone,if_pos hgone']
    rfl
  · by_cases hkind : e.kind = kind
    · have hgone' : e.kind ∈ kind :: gone := hkind ▸ mem_cons_self
      rw [Element.shown,Element.shown,if_neg hgone,if_pos hgone',← hkind,Element.render,
        removeHtmlBlocks_element h.name h.closing (tagName_plain e.kind).1 h.first,nil_append]
    · have hgone' : e.kind ∉ kind :: gone := by simp [hgone,hkind]
      rw [Element.shown,Element.shown,if_neg hgone,if_neg hgone',removeHtmlBlocks_clear (hothers hgone hkind)]

/-- The kinds of elements that are still there leave the ones to be removed alone. -/
def LeavesAlone (kind : RawKind) (gone : List RawKind) : Prop :=
  ∀ e : Element, e.Tame → e.kind ∉ gone → e.kind ≠ kind → Clear (openingOf kind.tagName) (lower e.render)

theorem leavesAlone_script : LeavesAlone .script [] := by
  intro e h _ hkind
  have hstyle : e.kind = .style := by
    cases hk : e.kind with
    | script => exact absurd hk hkind
    | style => rfl
  have hlower : lower e.render = lower ('<' :: e.name ++ e.inner ++ '<' :: '/' :: e.closing) ++ ['>'] := by
    have hclose : Char.toLower '>' = '>' := by decide
    simp [Element.render,lower,hclose]
  have hno := h.noScript hstyle
  rw [hlower] at hno ⊢
  exact clear_of_last hno (by decide)

theorem leavesAlone_style : LeavesAlone .style [.script] := by
  intro e _ hgone hkind
  cases hk : e.kind with
  | script => simp [hk] at hgone
  | style => exact absurd hk hkind

theorem removeHtmlBlocks_chunks (halone : LeavesAlone kind gone) {inner : List Chunk}
    (h : ∀ chunk ∈ inner, chunk.Tame) (rest : List Char) :
    removeHtmlBlocks kind.tagName (inner.flatMap (Chunk.shown gone) ++ rest) =
      inner.flatMap (Chunk.shown (kind :: gone)) ++ removeHtmlBlocks kind.tagName rest := by
  induction inner with
  | nil => rfl
  | cons chunk inner ih =>
    obtain ⟨hchunk,hinner⟩ := forall_mem_cons.mp h
    rw [flatMap_cons,flatMap_cons,append_assoc,append_assoc,← ih hinner]
    cases chunk with
    | raw text => exact removeHtmlBlocks_clear (hchunk.1 kind) _
    | element e => exact removeHtmlBlocks_shown_element hchunk (halone e hchunk) _

theorem clear_noscript_open {name : List Char} (h : lower name = noscriptName) (kind : RawKind) :
    Clear (openingOf kind.tagName) (lower ('<' :: name)) := by
  rw [lower_cons,h]
  cases kind <;> decide

theorem clear_noscript_close {closing : List Char} (h : lower closing = noscriptName) (kind : RawKind) :
    Clear (openingOf kind.tagName) (lower ('<' :: '/' :: closing ++ ['>'])) := by
  have hopen : Char.toLower '<' = '<' := by decide
  have hslash : Char.toLower '/' = '/' := by decide
  have hlower : lower ('<' :: '/' :: closing ++ ['>']) = '<' :: '/' :: noscriptName ++ ['>'] := by
    have hclose : Char.toLower '>' = '>' := by decide
    simp [lower,← h,hopen,hslash,hclose]
  rw [hlower]
  cases kind <;> decide

variable {page : List Item}

theorem removeHtmlBlocks_items (halone : LeavesAlone kind gone) (h : Tame page) :
    removeHtmlBlocks kind.tagName (page.flatMap (Item.shown gone)) = page.flatMap (Item.shown (kind :: gone)) := by
  induction page with
  | nil => exact removeHtmlBlocks_nil
  | cons item page ih =>
    obtain ⟨hitem,hpage⟩ := forall_mem_cons.mp h
    rw [flatMap_cons,flatMap_cons,← ih hpage]
    cases item with
    | text s => exact removeHtmlBlocks_clear (clear_escapeHtml _ s) _
    | tag body =>
      obtain ⟨hbracket,-,hkinds,-⟩ := hitem
      exact removeHtmlBlocks_clear (clear_tag hbracket (tagName_plain kind).2 (hkinds kind)) _
    | element e => exact removeHtmlBlocks_shown_element hitem (halone e hitem) _
    | noscript name inner closing =>
      obtain ⟨hname,hclosing,hinner⟩ := hitem
      have hparts : ∀ (gone : List RawKind) (rest : List Char), Item.shown gone (.noscript name inner closing) ++ rest =
          ('<' :: name) ++ (inner.flatMap (Chunk.shown gone) ++ (('<' :: '/' :: closing ++ ['>']) ++ rest)) := by
        simp [Item.shown]
      rw [hparts,hparts,removeHtmlBlocks_clear (clear_noscript_open hname kind),removeHtmlBlocks_chunks halone hinner,
        removeHtmlBlocks_clear (clear_noscript_close hclosing kind)]

/-! ## Removing the noscript elements -/

/-- What is left of an item when all elements are gone. -/
def Item.bare : Item → List Char
  | .text s => escapeHtml s
  | .tag body => '<' :: body ++ ['>']
  | _ => []

theorem Element.shown_gone (h : ∀ kind, kind ∈ gone) (e : Element) : e.shown gone = [] :=
  if_pos (h e.kind)

theorem clear_noscript_inner (h : ∀ kind, kind ∈ gone) {inner : List Chunk} (hinner : ∀ chunk ∈ inner, chunk.Tame) :
    Clear (closingOf noscriptName) (lower (inner.flatMap (Chunk.shown gone))) := by
  induction inner with
  | nil => exact clear_nil
  | cons chunk inner ih =>
    obtain ⟨hchunk,hinner⟩ := forall_mem_cons.mp hinner
    rw [flatMap_cons,lower_append]
    refine Clear.append ?_ (ih hinner)
    cases chunk with
    | raw text => exact hchunk.2
    | element e =>
      rw [Chunk.shown,e.shown_gone h]
      exact clear_nil

theorem removeHtmlBlocks_noscript (hgone : ∀ kind, kind ∈ gone) (h : Tame page) :
    removeHtmlBlocks noscriptName (page.flatMap (Item.shown gone)) = page.flatMap Item.bare := by
  induction page with
  | nil => exact removeHtmlBlocks_nil
  | cons item page ih =>
    obtain ⟨hitem,hpage⟩ := forall_mem_cons.mp h
    rw [flatMap_cons,flatMap_cons,← ih hpage]
    cases item with
    | text s => exact removeHtmlBlocks_clear (clear_escapeHtml _ s) _
    | tag body =>
      obtain ⟨hbracket,-,-,hname⟩ := hitem
      exact removeHtmlBlocks_clear (clear_tag hbracket (by decide) hname) _
    | element e =>
      rw [Item.shown,e.shown_gone hgone]
      rfl
    | noscript name inner closing =>
      obtain ⟨hname,hclosing,hinner⟩ := hitem
      have hclear : Clear (closingOf noscriptName) (lower ('<' :: name ++ inner.flatMap (Chunk.shown gone))) := by
        rw [lower_append,lower_cons,hname]
        exact Clear.append (by decide) (clear_noscript_inner hgone hinner)
      exact removeHtmlBlocks_element hname hclosing (by decide) (hclear.not_inside (by decide)) _

/-! ## Stripping the tags -/

theorem tagsToBreaks_tag {body : List Char} (hbracket : '<' ∉ body) (hend : '>' ∉ body) (seen rest : List Char) :
    tagsToBreaks true seen (body ++ '>' :: rest) =
      (if breaks (seen ++ body) then ['\n'] else []) ++ tagsToBreaks false (seen ++ body) rest := by
  induction body generalizing seen with
  | nil => simp [tagsToBreaks]
  | cons c body ih =>
    obtain ⟨hc,hbody⟩ := not_or.mp (fun hmem => hbracket (mem_cons.mpr hmem))
    obtain ⟨hc',hbody'⟩ := not_or.mp (fun hmem => hend (mem_cons.mpr hmem))
    have hstep := ih hbody hbody' (seen ++ [c])
    rw [append_assoc,singleton_append] at hstep
    rw [← hstep,cons_append,tagsToBreaks,if_neg (Ne.symm hc),if_neg fun h => hc' h.1.symm,if_pos rfl]

/-- The escaped texts and the line breaks are what is left of the page. -/
theorem tagsToBreaks_bare (h : Tame page) (seen : List Char) :
    tagsToBreaks false seen (page.flatMap Item.bare) = escapeHtml (plainText page) := by
  induction page generalizing seen with
  | nil => rfl
  | cons item page ih =>
    obtain ⟨hitem,hpage⟩ := forall_mem_cons.mp h
    rw [flatMap_cons,plainText,flatMap_cons,escapeHtml,flatMap_append]
    change _ = _ ++ escapeHtml (plainText page)
    cases item with
    | text s => rw [← ih hpage seen]; exact tagsToBreaks_of_no_bracket (no_bracket_escapeHtml s) seen _
    | tag body =>
      obtain ⟨hbracket,hend,-,-⟩ := hitem
      have htag := tagsToBreaks_tag hbracket hend [] (page.flatMap Item.bare)
      rw [nil_append] at htag
      rw [← ih hpage body,Item.bare,append_assoc,singleton_append,cons_append,tagsToBreaks,if_pos rfl,
        htag]
      simp only [Item.plain]
      split <;> rfl
    | element | noscript => exact ih hpage seen

/-! ## The page -/

theorem htmlToText_render (h : Tame page) :
    htmlToText (render page) = normalizeLines (replaceEach laterEntities (plainText page)) := by
  have hscript := removeHtmlBlocks_items leavesAlone_script h
  have hstyle := removeHtmlBlocks_items leavesAlone_style h
  have hall : ∀ kind : RawKind, kind ∈ [RawKind.style,RawKind.script] := fun kind => by cases kind <;> decide
  have hnoscript := removeHtmlBlocks_noscript hall h
  rw [render]
  change normalizeLines (decodeHtmlEntities (tagsToBreaks false [] (removeHtmlBlocks noscriptName
    (removeHtmlBlocks RawKind.style.tagName (removeHtmlBlocks RawKind.script.tagName _))))) = _
  rw [hscript,hstyle,hnoscript,tagsToBreaks_bare h,decode_escape]

theorem fills_plainText (page : List Item) : Fills page (plainText page) := by
  induction page with
  | nil => exact .nil
  | cons item page ih =>
    cases item with
    | text s => exact .text s ih
    | tag body =>
      refine .markup (fun s => Item.noConfusion) ?_ ih
      intro c hc
      simp only [Item.plain] at hc
      split at hc
      · rw [mem_singleton.mp hc]
        rfl
      · exact absurd hc not_mem_nil
    | element | noscript => exact .markup (fun s => Item.noConfusion) (by simp [Item.plain]) ih

/-- Whatever white space stands between the texts, their ink is the same. -/
theorem Fills.ink_eq {text : List Char} (h : Fills page text) : ink text = ink (plainText page) := by
  have hfills := fills_plainText page
  generalize plainText page = text' at hfills
  induction h generalizing text' with
  | nil =>
    cases hfills
    rfl
  | text s _ ih =>
    cases hfills with
    | text _ hrest => rw [ink_append,ink_append,ih _ hrest]
    | markup hno => exact absurd rfl (hno s)
  | markup hno hgap _ ih =>
    cases hfills with
    | text s => exact absurd rfl (hno s)
    | markup _ hgap' hrest => rw [ink_append,ink_append,ink_of_white hgap,ink_of_white hgap',ih _ hrest]

/-- The texts of a tame page are read exactly when together they spell none of the later entities. -/
theorem yieldsTexts_iff (h : Tame page) : YieldsTexts page ↔ SpellsNoEntity (plainText page) := by
  rw [YieldsTexts,htmlToText_render h]
  constructor
  · rintro ⟨text,hfills,heq⟩
    rw [← replaceEach_ink,← hfills.ink_eq,← ink_normalizeLines text,← heq,ink_normalizeLines]
  · intro hspells
    rw [replaceEach_of_spellsNoEntity hspells]
    exact ⟨plainText page,fills_plainText page,rfl⟩

/-- A text survives the escaping and the reading exactly when it spells none of the later entities; so do the texts of
a page without misleading constructs; and every block that is removed is an element exactly when each opens one. -/
theorem texts_survive_iff (s : List Char) (page : List Item) (tagName value : List Char) :
    ((cleanHtmlText (escapeHtml s) = normalizeSpace s ∧ htmlToText (escapeHtml s) = normalizeLines s) ↔
      SpellsNoEntity s) ∧
    (Tame page → (YieldsTexts page ↔ SpellsNoEntity (plainText page))) ∧
    removeHtmlBlocks tagName value = (scan tagName value).flatMap Prod.fst ∧
    (scan tagName value).flatMap (fun step => step.1 ++ step.2) = value ∧
    ((∀ step ∈ scan tagName value, step.2 ≠ [] → IsElement tagName step.2) ↔
      ∀ step ∈ scan tagName value, step.2 ≠ [] → OpensElement tagName step.2) :=
  ⟨text_survives_iff s,yieldsTexts_iff,removeHtmlBlocks_eq tagName value,scan_text tagName value,
    removes_elements_iff tagName value⟩

/-- A text about an entity is read as the entity's letter. -/
theorem entity_is_decoded_twice : ¬ cleanHtmlText (escapeHtml "&lt;".toList) = normalizeSpace "&lt;".toList := by
  decide

end Mxterm.AiWeb
