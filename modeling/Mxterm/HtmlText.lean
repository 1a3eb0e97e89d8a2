import Mxterm.Replacements
import Mxterm.SummaryTexts

/-! The text of a web page (`ai_web.rs`): its blocks taken out, its tags stripped and its entities decoded. -/
namespace Mxterm.AiWeb

open Occurrences Agent List

/-! ## The conversion -/

def decodeHtmlEntities (value : List Char) : List Char :=
  replaceAll "&nbsp;".toList [' '] <| replaceAll "&gt;".toList ['>'] <| replaceAll "&lt;".toList ['<'] <|
    replaceAll "&#39;".toList ['\''] <| replaceAll "&quot;".toList ['"'] <| replaceAll "&amp;".toList ['&'] value

/-- `split_whitespace`, joined by blanks. -/
def normalizeSpace (value : List Char) : String :=
  String.ofList ([' '].intercalate ((value.splitOnP Text.isWhitespace).filter (· ≠ [])))

/-- The loop of `clean_html_text`. -/
def stripTags : Bool → List Char → List Char
  | _, [] => []
  | inTag, c :: value =>
    if c = '<' then stripTags true value
    else if c = '>' ∧ inTag then stripTags false value
    else if inTag then stripTags true value
    else c :: stripTags false value

def cleanHtmlText (value : List Char) : String := normalizeSpace (decodeHtmlEntities (stripTags false value))

def lower (value : List Char) : List Char := value.map Char.toLower

def openingOf (tagName : List Char) : List Char := '<' :: tagName

def closingOf (tagName : List Char) : List Char := '<' :: '/' :: tagName ++ ['>']

/-- The text from the first opening on, and what is before it. -/
def cutAtOpening (tagName value : List Char) : Option (List Char × List Char) :=
  (findFirst (openingOf tagName) (lower value)).map fun found =>
    (value.take found.1.length,value.drop found.1.length)

/-- What is behind the first closing tag. -/
def behindClosing (tagName block : List Char) : Option (List Char) :=
  (findFirst (closingOf tagName) (lower block)).map fun found =>
    block.drop (found.1.length + (closingOf tagName).length)

variable {tagName block rest : List Char}

theorem length_behindClosing (h : behindClosing tagName block = some rest) : rest.length < block.length := by
  obtain ⟨found,hfound,rfl⟩ := Option.map_eq_some_iff.mp h
  have hlength := congrArg List.length (findFirst_append hfound)
  simp only [lower,length_map,length_append,closingOf,length_cons] at hlength
  simp only [length_drop,closingOf,length_append,length_cons]
  omega

variable {value : List Char}

theorem cutAtOpening_append {before : List Char} (h : cutAtOpening tagName value = some (before,block)) :
    before ++ block = value := by
  obtain ⟨found,-,heq⟩ := Option.map_eq_some_iff.mp h
  cases heq
  exact take_append_drop _ _

def removeHtmlBlocks (tagName value : List Char) : List Char :=
  match _hcut : cutAtOpening tagName value with
  | none => value
  | some (before,block) =>
    match _hrest : behindClosing tagName block with
    | none => before
    | some rest => before ++ removeHtmlBlocks tagName rest
termination_by value.length
decreasing_by
  have hlt := length_behindClosing _hrest
  have hlength := congrArg List.length (cutAtOpening_append _hcut)
  rw [length_append] at hlength
  omega

section
variable {tagName value before block rest : List Char}

theorem removeHtmlBlocks_uncut (h : cutAtOpening tagName value = none) : removeHtmlBlocks tagName value = value := by
  rw [removeHtmlBlocks]
  split <;> simp_all

theorem removeHtmlBlocks_unclosed (h : cutAtOpening tagName value = some (before,block))
    (hclosing : behindClosing tagName block = none) : removeHtmlBlocks tagName value = before := by
  rw [removeHtmlBlocks]
  split
  · simp_all
  · split <;> simp_all

theorem removeHtmlBlocks_block (h : cutAtOpening tagName value = some (before,block))
    (hclosing : behindClosing tagName block = some rest) :
    removeHtmlBlocks tagName value = before ++ removeHtmlBlocks tagName rest := by
  rw [removeHtmlBlocks]
  split
  · simp_all
  · split <;> simp_all

end

def breakTags : List String := ["br","p","div","li","h1","h2","h3","tr"]

/-- Whether the text is broken at the tag. -/
def breaks (tag : List Char) : Bool :=
  let words := ((tag.dropWhile (· = '/')).splitOnP Text.isWhitespace).filter (· ≠ [])
  String.ofList (words.head?.getD []) ∈ breakTags

/-- The loop of `html_to_text`. -/
def tagsToBreaks : Bool → List Char → List Char → List Char
  | _, _, [] => []
  | inTag, tag, c :: value =>
    if c = '<' then tagsToBreaks true [] value
    else if c = '>' ∧ inTag then (if breaks tag then ['\n'] else []) ++ tagsToBreaks false tag value
    else if inTag then tagsToBreaks true (tag ++ [c]) value
    else c :: tagsToBreaks false tag value

/-- The lines of a text that are not blank, trimmed. -/
def normalizeLines (value : List Char) : String :=
  Text.join (((Text.lines (String.ofList value)).map Text.trim).filter (· ≠ ""))

def htmlToText (value : List Char) : String :=
  let value := removeHtmlBlocks "script".toList value
  let value := removeHtmlBlocks "style".toList value
  let value := removeHtmlBlocks "noscript".toList value
  normalizeLines (decodeHtmlEntities (tagsToBreaks false [] value))

/-! ## The escaping -/

def escapeChar (c : Char) : List Char :=
  if c = '&' then "&amp;".toList
  else if c = '<' then "&lt;".toList
  else if c = '>' then "&gt;".toList
  else if c = '"' then "&quot;".toList
  else if c = '\'' then "&#39;".toList
  else [c]

def escapeHtml (s : List Char) : List Char := s.flatMap escapeChar

/-- The escaping of all but some letters. -/
def escapeBut (plain : List Char) (c : Char) : List Char := if c ∈ plain then [c] else escapeChar c

/-- The entities that are decoded behind the ampersand's. -/
def laterEntities : List (List Char × List Char) :=
  [("&quot;".toList,['"']),("&#39;".toList,['\'']),("&lt;".toList,['<']),("&gt;".toList,['>']),
    ("&nbsp;".toList,[' '])]

/-- The text spells none of the entities `&quot;`, `&#39;`, `&lt;`, `&gt;` and `&nbsp;`. -/
def SpellsNoEntity (s : List Char) : Prop := ∀ entity ∈ laterEntities, ¬ entity.1 <:+: s

theorem decodeHtmlEntities_eq (value : List Char) :
    decodeHtmlEntities value = replaceEach laterEntities (replaceAll "&amp;".toList ['&'] value) := by
  simp only [decodeHtmlEntities,replaceEach,laterEntities,foldl_cons,foldl_nil]

/-- The letters that are escaped. -/
def escaped : List Char := ['&','"','\'','<','>']

variable {c : Char}

theorem escapeChar_of_not_mem (h : c ∉ escaped) : escapeChar c = [c] := by
  have hne : ∀ d ∈ escaped, c ≠ d := fun d hd he => h (he ▸ hd)
  rw [escapeChar,if_neg (hne _ (by decide)),if_neg (hne _ (by decide)),if_neg (hne _ (by decide)),
    if_neg (hne _ (by decide)),if_neg (hne _ (by decide))]

theorem head_escapeChar (h : c ∈ escaped) : (escapeChar c).head? = some '&' := by
  have hall : escaped.all fun c => (escapeChar c).head? == some '&' := by decide
  simpa using all_eq_true.mp hall c h

variable {x : Char}

/-- No entity begins inside another one, and none but the ampersand's holds its own letter. -/
theorem clear_escapeChar (hx : x ∈ escaped) (hc : c ∈ escaped) (hne : c ≠ x) : Clear (escapeChar x) (escapeChar c) := by
  have hall : escaped.all fun x => escaped.all fun c => c == x || decide (Clear (escapeChar x) (escapeChar c)) := by
    decide
  have h := all_eq_true.mp (all_eq_true.mp hall x hx) c hc
  simpa [hne] using h

theorem not_mem_escapeChar (hx : x ∈ escaped) (hc : c ∈ escaped) (hne : c ≠ '&') : c ∉ escapeChar x := by
  have hall : escaped.all fun x => escaped.all fun c => c == '&' || !(escapeChar x).contains c := by decide
  have h := all_eq_true.mp (all_eq_true.mp hall x hx) c hc
  simpa [hne] using h

theorem tail_escapeChar (hx : x ∈ escaped) : ∃ word, escapeChar x = '&' :: word ∧ '&' ∉ word := by
  obtain ⟨word,hword⟩ := head?_eq_some_iff.mp (head_escapeChar hx)
  have hall : escaped.all fun x => !(escapeChar x).tail.contains '&' := by decide
  have h := all_eq_true.mp hall x hx
  exact ⟨word,hword,by simpa [hword] using h⟩

theorem clear_escapeChar_of_ne (hx : x ∈ escaped) (hne : c ≠ x) (hand : c ≠ '&') :
    Clear (escapeChar x) (escapeChar c) := by
  by_cases hc : c ∈ escaped
  · exact clear_escapeChar hx hc hne
  · rw [escapeChar_of_not_mem hc]
    exact clear_of_not_mem (head_escapeChar hx) (by simpa using hand.symm)

/-- Behind the ampersand's, the next entity is the escaping of its letter, or what the text itself spells. -/
theorem encodes_escapeBut {plain : List Char} (hx : x ∈ escaped) (hand : '&' ∈ plain) (c : Char) :
    Encodes (escapeChar x) [x] '&' (escapeBut plain) (escapeBut (x :: plain)) c := by
  by_cases hc : c ∈ plain
  · exact .inl ⟨if_pos hc,if_pos (mem_cons_of_mem _ hc)⟩
  have hf : escapeBut plain c = escapeChar c := if_neg hc
  have hcand : c ≠ '&' := fun he => hc (he ▸ hand)
  by_cases hescaped : c ∈ escaped
  · refine .inr ⟨not_mem_escapeChar hx hescaped hcand,hf ▸ head_escapeChar hescaped,?_⟩
    by_cases hcx : c = x
    · exact .inl ⟨hcx ▸ hf,hcx ▸ if_pos mem_cons_self⟩
    · have hg : escapeBut (x :: plain) c = escapeChar c := if_neg (by simp [hcx,hc])
      exact .inr ⟨hf.trans hg.symm,hf ▸ clear_escapeChar_of_ne hx hcx hcand⟩
  · have hg : escapeBut (x :: plain) c = [c] := by
      rw [escapeBut,escapeChar_of_not_mem hescaped,ite_self]
    exact .inl ⟨hf.trans (escapeChar_of_not_mem hescaped),hg⟩

theorem replaceAll_escapeBut {plain : List Char} (hx : x ∈ escaped) (hand : '&' ∈ plain) (s : List Char) :
    replaceAll (escapeChar x) [x] (s.flatMap (escapeBut plain)) =
      (replaceAll (escapeChar x) [x] s).flatMap (escapeBut (x :: plain)) := by
  obtain ⟨word,hword,hmem⟩ := tail_escapeChar hx
  refine replaceAll_flatMap hword hmem (encodes_escapeBut hx hand) ?_ s
  simp [escapeBut]

theorem replaceAll_escapeHtml (s : List Char) :
    replaceAll "&amp;".toList ['&'] (escapeHtml s) = s.flatMap (escapeBut ['&']) := by
  refine replaceAll_flatMap_words (by decide) (fun c => ?_) s
  by_cases hc : c = '&'
  · exact .inl ⟨by rw [hc]; rfl,by rw [hc]; rfl⟩
  · have hg : escapeBut ['&'] c = escapeChar c := if_neg (by simpa using hc)
    exact .inr ⟨hg.symm,clear_escapeChar_of_ne (x := '&') (by decide) hc hc⟩

/-- An escaped text is read back with what it spells itself decoded too. -/
theorem decode_escape (s : List Char) : decodeHtmlEntities (escapeHtml s) = replaceEach laterEntities s := by
  have hplain : ∀ c, escapeBut ['>','<','\'','"','&'] c = [c] := by
    intro c
    by_cases hc : c ∈ escaped
    · exact if_pos (by simpa [escaped,or_comm,or_left_comm,or_assoc] using hc)
    · rw [escapeBut,escapeChar_of_not_mem hc,ite_self]
  have hsteps : ∀ value, replaceEach laterEntities value = replaceAll "&nbsp;".toList [' ']
      (replaceAll (escapeChar '>') ['>'] (replaceAll (escapeChar '<') ['<']
        (replaceAll (escapeChar '\'') ['\''] (replaceAll (escapeChar '"') ['"'] value)))) := by
    intro value
    simp only [replaceEach,laterEntities,foldl_cons,foldl_nil]
    rfl
  rw [decodeHtmlEntities_eq,replaceAll_escapeHtml,hsteps,hsteps]
  rw [replaceAll_escapeBut (by decide) (by decide),replaceAll_escapeBut (by decide) (by decide),
    replaceAll_escapeBut (by decide) (by decide),replaceAll_escapeBut (by decide) (by decide),
    flatMap_congr fun c _ => hplain c,flatMap_singleton']

theorem no_bracket_escapeHtml (s : List Char) : '<' ∉ escapeHtml s := by
  rw [escapeHtml,mem_flatMap]
  rintro ⟨c,-,hc⟩
  by_cases hescaped : c ∈ escaped
  · have hall : escaped.all fun c => !(escapeChar c).contains '<' := by decide
    have h := all_eq_true.mp hall c hescaped
    simp [hc] at h
  · rw [escapeChar_of_not_mem hescaped,mem_singleton] at hc
    exact hescaped (hc ▸ by decide)

/-! ## White space -/

theorem ink_intercalate {separator : List Char} (h : ∀ c ∈ separator, Text.isWhitespace c) (pieces : List (List Char)) :
    ink (separator.intercalate pieces) = pieces.flatMap ink := by
  induction pieces with
  | nil => rfl
  | cons piece pieces ih =>
    cases pieces with
    | nil => simp
    | cons piece' pieces =>
      rw [intercalate_cons_cons,ink_append,ink_append,ink_of_white h,append_nil,ih]
      rfl

theorem ink_splitOnP (value : List Char) : (value.splitOnP Text.isWhitespace).flatMap ink = ink value := by
  induction value with
  | nil => rfl
  | cons c value ih =>
    rw [splitOnP_cons_eq_if_modifyHead]
    by_cases hc : Text.isWhitespace c
    · rw [if_pos hc,flatMap_cons,ih]
      simp [ink,hc]
    · rw [if_neg hc]
      cases hpieces : value.splitOnP Text.isWhitespace with
      | nil => exact absurd hpieces (splitOnP_ne_nil _ _)
      | cons piece pieces =>
        rw [hpieces] at ih
        have hcons : ∀ rest, ink (c :: rest) = c :: ink rest := fun rest => by simp [ink,hc]
        rw [modifyHead_cons,flatMap_cons,hcons,hcons,← ih]
        rfl

theorem flatMap_ink_filter (pieces : List (List Char)) :
    (pieces.filter (· ≠ [])).flatMap ink = pieces.flatMap ink := by
  induction pieces with
  | nil => rfl
  | cons piece pieces ih =>
    by_cases hpiece : piece = []
    · simp [hpiece,ink] at ih ⊢
      exact ih
    · simp only [filter_cons,hpiece,ne_eq,not_false_eq_true,decide_true,if_true,flatMap_cons]
      rw [← ih]

theorem ink_normalizeSpace (value : List Char) : ink (normalizeSpace value).toList = ink value := by
  rw [normalizeSpace,String.toList_ofList,ink_intercalate (by simp [Text.isWhitespace]),flatMap_ink_filter,
    ink_splitOnP]

theorem ink_normalizeLines (value : List Char) : ink (normalizeLines value).toList = ink value := by
  have hfilter : ∀ lines : List String, ((lines.filter (· ≠ "")).map String.toList).flatMap ink =
      (lines.map String.toList).flatMap ink := by
    intro lines
    induction lines with
    | nil => rfl
    | cons line lines ih =>
      by_cases hline : line = ""
      · simpa [hline,ink] using ih
      · simp only [filter_cons,hline,ne_eq,not_false_eq_true,decide_true,if_true,map_cons,flatMap_cons]
        rw [← ih]
  have htrim : ((Text.lines (String.ofList value)).map Text.trim).map String.toList =
      (Text.lines (String.ofList value)).map (fun line => (Text.trim line).toList) := map_map
  rw [normalizeLines,Text.join,String.toList_ofList,ink_intercalate (by simp [Text.isWhitespace]),hfilter,htrim,
    flatMap_map]
  simp only [ink_trim]
  rw [ink_lines,String.toList_ofList]

/-! ## A text on its own -/

theorem replaceEach_ink (s : List Char) :
    (ink (replaceEach laterEntities s)).length = (ink s).length ↔ SpellsNoEntity s := by
  have hadd : ∀ a b : List Char, (ink (a ++ b)).length = (ink a).length + (ink b).length := fun a b => by
    rw [ink_append,length_append]
  have hnew : ∀ word ∈ laterEntities, (ink word.2).length < (ink word.1).length := by decide
  exact (weight_replaceEach (fun value => (ink value).length) (by decide) hadd hnew s).2

theorem replaceEach_of_spellsNoEntity {s : List Char} (h : SpellsNoEntity s) : replaceEach laterEntities s = s :=
  replaceEach_of_not_inside (by decide) h

theorem stripTags_of_no_bracket (h : '<' ∉ value) : stripTags false value = value := by
  induction value with
  | nil => rfl
  | cons c value ih =>
    obtain ⟨hc,hvalue⟩ := not_or.mp (fun hmem => h (mem_cons.mpr hmem))
    simp [stripTags,Ne.symm hc,ih hvalue]

theorem tagsToBreaks_of_no_bracket (h : '<' ∉ value) (tag rest : List Char) :
    tagsToBreaks false tag (value ++ rest) = value ++ tagsToBreaks false tag rest := by
  induction value with
  | nil => rfl
  | cons c value ih =>
    obtain ⟨hc,hvalue⟩ := not_or.mp (fun hmem => h (mem_cons.mpr hmem))
    simp [tagsToBreaks,Ne.symm hc,ih hvalue]

theorem toLower_eq_iff {d : Char} (hd : d.toNat < 65 ∨ 122 < d.toNat) : c.toLower = d ↔ c = d := by
  unfold Char.toLower
  split
  · rename_i h
    have hc : 65 ≤ c.toNat ∧ c.toNat ≤ 90 := by simpa [UInt32.le_iff_toNat_le] using h
    constructor
    · rintro rfl
      have hval : (c.val + ('a'.val - 'A'.val)).toNat = c.toNat + 32 := by
        have h32 : ('a'.val - 'A'.val).toNat = 32 := by decide
        rw [UInt32.toNat_add,Char.toNat_val]
        omega
      change (c.val + ('a'.val - 'A'.val)).toNat < 65 ∨ 122 < (c.val + ('a'.val - 'A'.val)).toNat at hd
      omega
    · rintro rfl
      omega
  · exact Iff.rfl

theorem mem_lower_iff {d : Char} (hd : d.toNat < 65 ∨ 122 < d.toNat) (value : List Char) :
    d ∈ lower value ↔ d ∈ value := by
  rw [lower,mem_map]
  simp only [toLower_eq_iff hd,exists_eq_right]

theorem removeHtmlBlocks_of_no_bracket (tagName : List Char) (h : '<' ∉ value) :
    removeHtmlBlocks tagName value = value := by
  apply removeHtmlBlocks_uncut
  rw [cutAtOpening,findFirst_of_not_mem (a := '<') (by simp [openingOf]) (mt (mem_lower_iff (by decide) value).mp h)]
  rfl

theorem cleanHtmlText_escapeHtml (s : List Char) :
    cleanHtmlText (escapeHtml s) = normalizeSpace (replaceEach laterEntities s) := by
  rw [cleanHtmlText,stripTags_of_no_bracket (no_bracket_escapeHtml s),decode_escape]

theorem cleanHtmlText_escapeHtml_iff (s : List Char) :
    cleanHtmlText (escapeHtml s) = normalizeSpace s ↔ SpellsNoEntity s := by
  rw [cleanHtmlText_escapeHtml]
  constructor
  · intro h
    rw [← replaceEach_ink,← ink_normalizeSpace,h,ink_normalizeSpace]
  · intro h
    rw [replaceEach_of_spellsNoEntity h]

/-- An escaped text comes back but for its white space when it spells none of the later entities. -/
theorem text_survives_iff (s : List Char) :
    (cleanHtmlText (escapeHtml s) = normalizeSpace s ∧ htmlToText (escapeHtml s) = normalizeLines s) ↔
      SpellsNoEntity s := by
  have hno := no_bracket_escapeHtml s
  have hhtml : htmlToText (escapeHtml s) = normalizeLines (replaceEach laterEntities s) := by
    have hloop : tagsToBreaks false [] (escapeHtml s) = escapeHtml s := by
      simpa [tagsToBreaks] using tagsToBreaks_of_no_bracket hno [] []
    rw [htmlToText]
    simp only [removeHtmlBlocks_of_no_bracket _ hno]
    rw [hloop,decode_escape]
  rw [cleanHtmlText_escapeHtml_iff,hhtml,and_iff_left_iff_imp]
  intro h
  rw [replaceEach_of_spellsNoEntity h]

/-! ## What is removed -/

/-- The texts that `remove_html_blocks` keeps, each with the block that is removed behind it. -/
def scan (tagName value : List Char) : List (List Char × List Char) :=
  match _hcut : cutAtOpening tagName value with
  | none => [(value,[])]
  | some (before,block) =>
    match _hrest : behindClosing tagName block with
    | none => [(before,block)]
    | some rest => (before,block.take (block.length - rest.length)) :: scan tagName rest
termination_by value.length
decreasing_by
  have hlt := length_behindClosing _hrest
  have hlength := congrArg List.length (cutAtOpening_append _hcut)
  rw [length_append] at hlength
  omega

section
variable {tagName value before block rest : List Char}

theorem scan_uncut (h : cutAtOpening tagName value = none) : scan tagName value = [(value,[])] := by
  rw [scan]
  split <;> simp_all

theorem scan_unclosed (h : cutAtOpening tagName value = some (before,block))
    (hclosing : behindClosing tagName block = none) : scan tagName value = [(before,block)] := by
  rw [scan]
  split
  · simp_all
  · split <;> simp_all

theorem scan_block (h : cutAtOpening tagName value = some (before,block))
    (hclosing : behindClosing tagName block = some rest) :
    scan tagName value = (before,block.take (block.length - rest.length)) :: scan tagName rest := by
  rw [scan]
  split
  · simp_all
  · split <;> simp_all

end

/-- An element of the tag: the opening one, what is in it, and a closing one. -/
structure IsElement (tagName block : List Char) : Prop where
  parts : ∃ name attributes content name', block =
    '<' :: name ++ attributes ++ '>' :: content ++ '<' :: '/' :: name' ++ ['>'] ∧ lower name = tagName ∧
      lower name' = tagName ∧ '>' ∉ attributes ∧ ∀ c ∈ attributes.head?, Text.isWhitespace c ∨ c = '/'

/-- The name of the block's opening tag is the tag's and no longer one, and a closing tag comes behind it. -/
def OpensElement (tagName block : List Char) : Prop :=
  let rest := block.drop (tagName.length + 1)
  (∀ c ∈ (rest.takeWhile (· ≠ '>')).head?, Text.isWhitespace c ∨ c = '/') ∧
    closingOf tagName <:+: lower (rest.dropWhile (· ≠ '>'))

theorem removeHtmlBlocks_eq (tagName value : List Char) :
    removeHtmlBlocks tagName value = (scan tagName value).flatMap Prod.fst := by
  induction value using removeHtmlBlocks.induct tagName with
  | case1 value hcut => simp [removeHtmlBlocks_uncut hcut,scan_uncut hcut]
  | case2 value before block hcut hrest => simp [removeHtmlBlocks_unclosed hcut hrest,scan_unclosed hcut hrest]
  | case3 value before block hcut rest hrest ih =>
    simp [removeHtmlBlocks_block hcut hrest,scan_block hcut hrest,ih]

theorem closing_of_lower {closing : List Char} (h : lower closing = closingOf tagName) :
    ∃ name, closing = '<' :: '/' :: name ++ ['>'] ∧ lower name = tagName := by
  rw [lower,closingOf,map_eq_append_iff] at h
  obtain ⟨front,last,rfl,hfront,hlast⟩ := h
  obtain ⟨c,name',rfl,hc,hname'⟩ := map_eq_cons_iff.mp hfront
  obtain ⟨d,name,rfl,hd,hname⟩ := map_eq_cons_iff.mp hname'
  obtain ⟨e,rfl,he⟩ := map_eq_singleton_iff.mp hlast
  rw [(toLower_eq_iff (by decide)).mp hc,(toLower_eq_iff (by decide)).mp hd,(toLower_eq_iff (by decide)).mp he]
  exact ⟨name,rfl,hname⟩

/-- The closing tag that is found is the first one. -/
theorem behindClosing_append (h : behindClosing tagName block = some rest) :
    ∃ front name, block = front ++ '<' :: '/' :: name ++ ['>'] ++ rest ∧ lower name = tagName ∧
      ∀ i < front.length, ¬ OccursAt (closingOf tagName) (lower block) i := by
  obtain ⟨⟨front,behind⟩,hfound,hrest⟩ := Option.map_eq_some_iff.mp h
  have hno := fun i => not_occursAt_of_findFirst (i := i) hfound
  have hblock := findFirst_append hfound
  rw [lower,append_assoc,map_eq_append_iff] at hblock
  obtain ⟨front',closing,hfront,rfl,hclosing⟩ := hblock
  obtain ⟨closing',behind',rfl,hclosing',rfl⟩ := map_eq_append_iff.mp hclosing
  obtain ⟨name,rfl,hname⟩ := closing_of_lower hclosing'
  have hlength : front'.length + (closingOf tagName).length =
      (front' ++ ('<' :: '/' :: name ++ ['>'])).length := by
    simp [closingOf,← hname,lower]
  refine ⟨front',name,?_,hname,fun i hi => hno i (by simpa using hi)⟩
  rw [← append_assoc] at hfront
  rw [← hrest,length_map,hlength,hfront,drop_left]
  simp only [append_assoc]

theorem take_behindClosing (h : behindClosing tagName block = some rest) :
    block.take (block.length - rest.length) ++ rest = block := by
  obtain ⟨front,name,hblock,-,-⟩ := behindClosing_append h
  have hlength : block.length - rest.length = (front ++ '<' :: '/' :: name ++ ['>']).length := by
    rw [hblock,length_append,Nat.add_sub_cancel]
  rw [hlength,hblock,take_left]

theorem scan_text (tagName value : List Char) :
    (scan tagName value).flatMap (fun step => step.1 ++ step.2) = value := by
  induction value using removeHtmlBlocks.induct tagName with
  | case1 value hcut => simp [scan_uncut hcut]
  | case2 value before block hcut hrest => simp [scan_unclosed hcut hrest,cutAtOpening_append hcut]
  | case3 value before block hcut rest hrest ih =>
    rw [scan_block hcut hrest,flatMap_cons,ih,append_assoc,take_behindClosing hrest,cutAtOpening_append hcut]

theorem cutAtOpening_opens {before : List Char} (h : cutAtOpening tagName value = some (before,block)) :
    ∃ name tail, block = '<' :: name ++ tail ∧ lower name = tagName := by
  obtain ⟨⟨front,behind⟩,hfound,heq⟩ := Option.map_eq_some_iff.mp h
  have hvalue := findFirst_append hfound
  cases heq
  have hblock : lower (value.drop front.length) = openingOf tagName ++ behind := by
    rw [lower,map_drop]
    change (lower value).drop front.length = _
    rw [hvalue,append_assoc,drop_left]
  obtain ⟨opening,tail,hopening,hname,-⟩ := map_eq_append_iff.mp hblock
  obtain ⟨c,name,rfl,hc,hlower⟩ := map_eq_cons_iff.mp hname
  rw [(toLower_eq_iff (by decide)).mp hc] at hopening
  exact ⟨name,tail,hopening,hlower⟩

/-- A block begins with an opening and ends with the first closing tag, if there is one. -/
structure IsBlock (tagName block : List Char) : Prop where
  opens : ∃ name tail, block = '<' :: name ++ tail ∧ lower name = tagName
  closes : ¬ closingOf tagName <:+: lower block ∨ ∃ front name, block = front ++ '<' :: '/' :: name ++ ['>'] ∧
    lower name = tagName ∧ ∀ i < front.length, ¬ OccursAt (closingOf tagName) (lower block) i

theorem isBlock_of_mem_scan : ∀ step ∈ scan tagName value, step.2 ≠ [] → IsBlock tagName step.2 := by
  induction value using removeHtmlBlocks.induct tagName with
  | case1 value hcut => simp [scan_uncut hcut]
  | case2 value before block hcut hrest =>
    rw [scan_unclosed hcut hrest]
    rintro step hstep -
    rw [mem_singleton.mp hstep]
    refine ⟨cutAtOpening_opens hcut,.inl fun hinside => ?_⟩
    obtain ⟨front,behind,hblock⟩ := hinside
    rw [behindClosing,Option.map_eq_none_iff] at hrest
    refine findFirst_eq_none hrest front.length ?_
    rw [OccursAt,← hblock,append_assoc,drop_left]
    exact prefix_append _ _
  | case3 value before block hcut rest hrest ih =>
    rw [scan_block hcut hrest,forall_mem_cons]
    refine ⟨fun _ => ?_,ih⟩
    obtain ⟨front,name,hblock,hname,hfirst⟩ := behindClosing_append hrest
    have htake : block.take (block.length - rest.length) = front ++ '<' :: '/' :: name ++ ['>'] := by
      have h := take_behindClosing hrest
      conv_rhs at h => rw [hblock]
      exact append_cancel_right h
    rw [htake]
    constructor
    · -- the opening is a part of what is up to the end of the closing tag
      obtain ⟨name',tail,hopen,hname'⟩ := cutAtOpening_opens hcut
      have hlength : ('<' :: name').length ≤ (front ++ '<' :: '/' :: name ++ ['>']).length := by
        have hnames := congrArg List.length (hname'.trans hname.symm)
        simp only [lower,length_map] at hnames
        simp only [length_append,length_cons,length_nil]
        omega
      have hprefix : '<' :: name' <+: block := ⟨tail,hopen.symm⟩
      obtain ⟨tail',htail⟩ := prefix_of_prefix_length_le hprefix ⟨rest,hblock.symm⟩ hlength
      exact ⟨name',tail',htail.symm,hname'⟩
    · refine .inr ⟨front,name,rfl,hname,fun i hi hoccurs => hfirst i hi ?_⟩
      have hlower : lower block = lower (front ++ '<' :: '/' :: name ++ ['>']) ++ lower rest := by
        rw [lower,lower,lower,← map_append,← hblock]
      rw [OccursAt,hlower,drop_append]
      exact hoccurs.trans (prefix_append _ _)

theorem IsElement.opens (h : IsElement tagName block) : OpensElement tagName block := by
  obtain ⟨name,attributes,content,name',rfl,rfl,hname',hattributes,hhead⟩ := h.parts
  have hdrop : ('<' :: name ++ attributes ++ '>' :: content ++ '<' :: '/' :: name' ++ ['>']).drop
      ((lower name).length + 1) = attributes ++ '>' :: (content ++ '<' :: '/' :: name' ++ ['>']) := by
    simp [lower]
  have hall : ∀ c ∈ attributes, decide (c ≠ '>') = true := fun c hc =>
    decide_eq_true fun he => hattributes (he ▸ hc)
  rw [OpensElement,hdrop]
  simp only [takeWhile_append_of_pos hall,dropWhile_append_of_pos hall]
  refine ⟨by simpa using hhead,?_⟩
  refine ⟨lower ('>' :: content),[],?_⟩
  have hslash : Char.toLower '/' = '/' := by decide
  rw [← hname']
  simp [closingOf,lower,hslash]

/-- A block is an element of the tag exactly when it opens one. -/
theorem IsBlock.isElement_iff (h : IsBlock tagName block) : IsElement tagName block ↔ OpensElement tagName block := by
  refine ⟨IsElement.opens,fun hopens => ?_⟩
  obtain ⟨name,tail,hblock,hname⟩ := h.opens
  have hlength : tagName.length + 1 = ('<' :: name).length := by simp [← hname,lower]
  rw [OpensElement,hlength,hblock,drop_left] at hopens
  obtain ⟨hhead,hclosing⟩ := hopens
  have htail : tail.takeWhile (· ≠ '>') ++ tail.dropWhile (· ≠ '>') = tail := takeWhile_append_dropWhile
  have hwhole : block = ('<' :: name ++ tail.takeWhile (· ≠ '>')) ++ tail.dropWhile (· ≠ '>') := by
    rw [hblock,append_assoc,htail]
  have hlower : lower block =
      lower ('<' :: name ++ tail.takeWhile (· ≠ '>')) ++ lower (tail.dropWhile (· ≠ '>')) := by
    conv_lhs => rw [hwhole]
    exact map_append
  obtain ⟨inside,behind,hinside⟩ := hclosing
  rcases h.closes with hnone | ⟨front,name',hfront,hname',hfirst⟩
  · refine absurd (List.IsInfix.trans ⟨inside,behind,hinside⟩ ?_) hnone
    rw [hlower]
    exact (suffix_append _ _).isInfix
  · -- the closing tag that is in the rest is the first one, so it stands at the end
    have hoccurs : OccursAt (closingOf tagName) (lower block)
        ((lower ('<' :: name ++ tail.takeWhile (· ≠ '>'))).length + inside.length) := by
      rw [OccursAt,hlower,← hinside,← drop_drop,drop_left,append_assoc,drop_left]
      exact prefix_append _ _
    have hlate := not_lt.mp fun hlt => hfirst _ hlt hoccurs
    have hsizes := congrArg List.length hinside
    have hblockSize := congrArg List.length hfront
    rw [hwhole] at hblockSize
    have hnames := congrArg List.length hname'
    simp only [lower,length_map,length_append,length_cons,length_nil,closingOf]
      at hsizes hlate hblockSize hnames
    have hstart : '<' :: name ++ tail.takeWhile (· ≠ '>') <+: front := by
      refine prefix_of_prefix_length_le ⟨_,hwhole.symm⟩ ⟨'<' :: '/' :: name' ++ ['>'],?_⟩ ?_
      · rw [hfront,append_assoc]
      · simp only [length_append,length_cons]
        omega
    obtain ⟨content,rfl⟩ := hstart
    have hrest : tail.dropWhile (· ≠ '>') = content ++ '<' :: '/' :: name' ++ ['>'] := by
      have hparts := hwhole.symm.trans hfront
      simp only [append_assoc] at hparts ⊢
      exact append_cancel_left (append_cancel_left hparts)
    cases content with
    | nil =>
      have h := head?_dropWhile_not (fun c => decide (c ≠ '>')) tail
      rw [hrest] at h
      simp at h
    | cons c content =>
      have h := head?_dropWhile_not (fun c => decide (c ≠ '>')) tail
      rw [hrest] at h
      have hc : c = '>' := by simpa using h
      refine ⟨name,tail.takeWhile (· ≠ '>'),content,name',?_,hname,hname',?_,hhead⟩
      · rw [hfront,hc]
      · intro hmem
        simpa using mem_takeWhile_imp hmem

/-- Everything that `remove_html_blocks` takes out is an element of the tag where every block opens one. -/
theorem removes_elements_iff (tagName value : List Char) :
    (∀ step ∈ scan tagName value, step.2 ≠ [] → IsElement tagName step.2) ↔
      ∀ step ∈ scan tagName value, step.2 ≠ [] → OpensElement tagName step.2 :=
  forall₂_congr fun step hstep => forall_congr' fun hne => (isBlock_of_mem_scan step hstep hne).isElement_iff

end Mxterm.AiWeb
