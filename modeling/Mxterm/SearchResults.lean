import Mxterm.HtmlText

/-! The results that are read from the page of a web search (`ai_web.rs`). -/
namespace Mxterm.AiWeb

open Occurrences Agent List

/-- The offset of the first occurrence, `str::find`. -/
def find (pattern text : List Char) : Option ℕ := (findFirst pattern text).map fun found => found.1.length

/-- The offset of the last occurrence, `str::rfind`. -/
def rfind (pattern text : List Char) : Option ℕ :=
  (findFirst pattern.reverse text.reverse).map fun found => found.2.length

/-- `&html[start..stop]`: out of range the program panics. The offsets that are used stand at an occurrence of an ASCII
text or behind one, so they count characters here. -/
def slice (html : List Char) (start stop : ℕ) : Option (List Char) :=
  if start ≤ stop ∧ stop ≤ html.length then some ((html.take stop).drop start) else none

def sliceFrom (html : List Char) (start : ℕ) : Option (List Char) := slice html start html.length

/-- What the attribute's text is, in quotes of one kind. -/
def quotedAttribute (tag name : List Char) (quote : Char) : Option (Option (Option (List Char))) :=
  match find (name ++ ['=',quote]) tag with
  | none => some none
  | some markerStart => do
    let start := markerStart + (name ++ ['=',quote]).length
    let rest ← sliceFrom tag start
    match find [quote] rest with
    | none => some (some none)
    | some length => do
      let value ← slice tag start (start + length)
      some (some (some value))

def extractAttribute (tag name : List Char) : Option (Option (List Char)) := do
  match ← quotedAttribute tag name '"' with
  | some value => some value
  | none => return (← quotedAttribute tag name '\'').join

/-- `Url::parse` and `query_pairs`: the decoded pairs of the query of a valid URL. -/
abbrev QueryPairs := String → Option (List (String × String))

def normalizeResultUrl (queryPairs : QueryPairs) (raw : String) : String :=
  let href := if Text.startsWith raw "//" then "https:" ++ raw else raw
  match (queryPairs href).bind fun pairs => pairs.find? fun pair => pair.1 = "uddg" with
  | some pair => pair.2
  | none => href

/-- `[end_td, end_div].into_iter().flatten().min().unwrap_or(content_start)` -/
def earliest (contentStart : ℕ) : Option ℕ → Option ℕ → ℕ
  | some a, some b => min a b
  | some a, none => a
  | none, some b => b
  | none, none => contentStart

/-- The snippet, and where the search goes on. -/
def findResultSnippet (html : List Char) (start : ℕ) : Option (String × ℕ) := do
  let rest ← sliceFrom html start
  match find "result-snippet".toList rest with
  | none => some ("",start)
  | some offset => do
    let markerStart := start + offset
    let rest ← sliceFrom html markerStart
    let contentStart := match find ['>'] rest with
      | some value => markerStart + value + 1
      | none => markerStart
    let rest ← sliceFrom html contentStart
    let endTd := (find "</td>".toList rest).map (contentStart + ·)
    let endDiv := (find "</div>".toList rest).map (contentStart + ·)
    let contentEnd := earliest contentStart endTd endDiv
    let content ← slice html contentStart contentEnd
    some (cleanHtmlText content,contentEnd)

structure SearchResult where
  rank : ℕ
  title : String
  url : String
  snippet : String
  deriving DecidableEq

/-- What one turn of the loop finds: nothing more, a link without an address, or a link. -/
inductive Turn
  | stop
  | skip (cursor : ℕ)
  | found (cursor : ℕ) (title url snippet : String)

def doubleMarker : List Char := "class=\"result-link\"".toList

def singleMarker : List Char := "class='result-link'".toList

section
variable (queryPairs : QueryPairs)

def turn (html : List Char) (cursor : ℕ) : Option Turn := do
  let rest ← sliceFrom html cursor
  match (find doubleMarker rest).or (find singleMarker rest) with
  | none => some .stop
  | some classOffset => do
    let classStart := cursor + classOffset
    let front ← slice html 0 classStart
    let anchorStart := (rfind "<a".toList front).getD classStart
    let behind ← sliceFrom html classStart
    match find ['>'] behind with
    | none => some .stop
    | some tagEndOffset => do
      let tagEnd := classStart + tagEndOffset
      let tag ← slice html anchorStart (tagEnd + 1)
      match ← extractAttribute tag "href".toList with
      | none => some (.skip (tagEnd + 1))
      | some rawHref => do
        let titleStart := tagEnd + 1
        let text ← sliceFrom html titleStart
        match find "</a>".toList text with
        | none => some .stop
        | some titleEndOffset => do
          let titleEnd := titleStart + titleEndOffset
          let title ← slice html titleStart titleEnd
          let (snippet,nextCursor) ← findResultSnippet html titleEnd
          some (.found (max nextCursor (titleEnd + 4)) (cleanHtmlText title)
            (normalizeResultUrl queryPairs (String.ofList rawHref)) snippet)

/-- The loop of `parse_search_results`, with room for some turns. -/
def collect (html : List Char) (limit : ℕ) : ℕ → ℕ → List SearchResult → Option (List SearchResult)
  | 0, _, _ => none
  | room + 1, cursor, results =>
    if results.length < limit then
      match turn queryPairs html cursor with
      | none => none
      | some .stop => some results
      | some (.skip next) => collect html limit room next results
      | some (.found next title url snippet) =>
        if title = "" ∨ url = "" ∨ results.any (·.url = url) then collect html limit room next results
        else collect html limit room next (results ++ [⟨results.length + 1,title,url,snippet⟩])
    else some results

/-- The results; none when a slice is out of range or the turns do not suffice. -/
def parseSearchResults (html : List Char) (limit : ℕ) : Option (List SearchResult) :=
  collect queryPairs html limit (html.length + 1) 0 []

end

/-! ## Slices in range -/

variable {pattern : List Char}

theorem find_le {text : List Char} {i : ℕ} (h : find pattern text = some i) : i + pattern.length ≤ text.length := by
  obtain ⟨found,hfound,rfl⟩ := Option.map_eq_some_iff.mp h
  have hlength := congrArg List.length (findFirst_append hfound)
  simp only [length_append] at hlength
  omega

theorem rfind_le {text : List Char} {i : ℕ} (h : rfind pattern text = some i) : i + pattern.length ≤ text.length := by
  obtain ⟨found,hfound,rfl⟩ := Option.map_eq_some_iff.mp h
  have hlength := congrArg List.length (findFirst_append hfound)
  simp only [length_append,length_reverse] at hlength
  omega

variable {html : List Char} {start : ℕ}

theorem slice_eq {stop : ℕ} (h : start ≤ stop) (h' : stop ≤ html.length) :
    slice html start stop = some ((html.take stop).drop start) := if_pos ⟨h,h'⟩

theorem sliceFrom_eq (h : start ≤ html.length) : sliceFrom html start = some (html.drop start) := by
  rw [sliceFrom,slice_eq h (Nat.le_refl _),take_length]

theorem quotedAttribute_ne_none (tag name : List Char) (quote : Char) : quotedAttribute tag name quote ≠ none := by
  rw [quotedAttribute]
  generalize name ++ ['=',quote] = marker
  cases hmarker : find marker tag with
  | none => simp
  | some markerStart =>
    have hle := find_le hmarker
    simp only [sliceFrom_eq hle,Option.bind_eq_bind,Option.bind_some]
    cases hend : find [quote] (tag.drop (markerStart + marker.length)) with
    | none => simp
    | some length =>
      have hle' := find_le hend
      rw [length_drop] at hle'
      have hinside : markerStart + marker.length + length ≤ tag.length := by omega
      have hslice := slice_eq (Nat.le_add_right _ length) hinside
      simp [hslice]

theorem extractAttribute_ne_none (tag name : List Char) : extractAttribute tag name ≠ none := by
  rw [extractAttribute]
  cases hdouble : quotedAttribute tag name '"' with
  | none => exact absurd hdouble (quotedAttribute_ne_none _ _ _)
  | some value =>
    cases value with
    | some value => simp
    | none =>
      cases hsingle : quotedAttribute tag name '\'' with
      | none => exact absurd hsingle (quotedAttribute_ne_none _ _ _)
      | some value => simp

theorem find_drop_range {a : ℕ} (h : (find pattern (html.drop start)).map (start + ·) = some a)
    (hstart : start ≤ html.length) : start ≤ a ∧ a ≤ html.length := by
  obtain ⟨i,hi,rfl⟩ := Option.map_eq_some_iff.mp h
  have hle := find_le hi
  rw [length_drop] at hle
  omega

theorem earliest_range (closing closing' : List Char) (h : start ≤ html.length) :
    start ≤ earliest start ((find closing (html.drop start)).map (start + ·))
      ((find closing' (html.drop start)).map (start + ·)) ∧
    earliest start ((find closing (html.drop start)).map (start + ·))
      ((find closing' (html.drop start)).map (start + ·)) ≤ html.length := by
  cases htd : (find closing (html.drop start)).map (start + ·) with
  | none =>
    cases hdiv : (find closing' (html.drop start)).map (start + ·) with
    | none => exact ⟨Nat.le_refl _,h⟩
    | some b => exact find_drop_range hdiv h
  | some a =>
    have ha := find_drop_range htd h
    cases hdiv : (find closing' (html.drop start)).map (start + ·) with
    | none => exact ha
    | some b =>
      have hb := find_drop_range hdiv h
      simp only [earliest]
      omega

theorem findResultSnippet_spec (h : start ≤ html.length) :
    ∃ snippet next, findResultSnippet html start = some (snippet,next) ∧ next ≤ html.length := by
  rw [findResultSnippet]
  simp only [sliceFrom_eq h,Option.bind_eq_bind,Option.bind_some]
  cases hmarker : find "result-snippet".toList (html.drop start) with
  | none => exact ⟨"",start,rfl,h⟩
  | some offset =>
    have hle := find_le hmarker
    rw [length_drop] at hle
    have hmarkerStart : start + offset ≤ html.length := by omega
    simp only [sliceFrom_eq hmarkerStart,Option.bind_some]
    have hcontent : ∀ contentStart ≤ html.length, ∃ snippet next, (do
        let rest ← sliceFrom html contentStart
        let endTd := (find "</td>".toList rest).map (contentStart + ·)
        let endDiv := (find "</div>".toList rest).map (contentStart + ·)
        let contentEnd := earliest contentStart endTd endDiv
        let content ← slice html contentStart contentEnd
        some (cleanHtmlText content,contentEnd)) = some (snippet,next) ∧ next ≤ html.length := by
      intro contentStart hcontentStart
      obtain ⟨hstart,hend⟩ := earliest_range "</td>".toList "</div>".toList hcontentStart
      simp only [sliceFrom_eq hcontentStart,Option.bind_eq_bind,Option.bind_some,slice_eq hstart hend]
      exact ⟨_,_,rfl,hend⟩
    apply hcontent
    cases hend : find ['>'] (html.drop (start + offset)) with
    | none => exact hmarkerStart
    | some value =>
      have hle' := find_le hend
      rw [length_drop,length_singleton] at hle'
      simp only
      omega

/-- A turn slices in range and, if it does not stop, moves the cursor on. -/
theorem turn_spec (queryPairs : QueryPairs) {cursor : ℕ} (h : cursor ≤ html.length) :
    turn queryPairs html cursor = some .stop ∨
      (∃ next, turn queryPairs html cursor = some (.skip next) ∧ cursor < next ∧ next ≤ html.length) ∨
      ∃ next title url snippet, turn queryPairs html cursor = some (.found next title url snippet) ∧
        cursor < next ∧ next ≤ html.length := by
  rw [turn]
  simp only [sliceFrom_eq h,Option.bind_eq_bind,Option.bind_some]
  cases hclass : (find doubleMarker (html.drop cursor)).or (find singleMarker (html.drop cursor)) with
  | none => exact .inl rfl
  | some classOffset =>
    have hle : cursor + classOffset ≤ html.length := by
      rcases Option.or_eq_some_iff.mp hclass with hclass | ⟨-,hclass⟩ <;>
        (have hle := find_le hclass; rw [length_drop] at hle; omega)
    simp only [slice_eq (Nat.zero_le _) hle,sliceFrom_eq hle,Option.bind_some,drop_zero]
    cases htag : find ['>'] (html.drop (cursor + classOffset)) with
    | none => exact .inl rfl
    | some tagEndOffset =>
      have hend := find_le htag
      rw [length_drop,length_singleton] at hend
      have hanchor : (rfind "<a".toList (html.take (cursor + classOffset))).getD (cursor + classOffset) ≤
          cursor + classOffset + tagEndOffset + 1 := by
        cases hr : rfind "<a".toList (html.take (cursor + classOffset)) with
        | none =>
          simp only [Option.getD_none]
          omega
        | some anchor =>
          have hle' := rfind_le hr
          simp only [length_take,String.length_toList] at hle'
          simp only [Option.getD_some]
          omega
      have htagEnd : cursor + classOffset + tagEndOffset + 1 ≤ html.length := by omega
      simp only [slice_eq hanchor htagEnd,Option.bind_some]
      cases hattribute : extractAttribute ((html.take (cursor + classOffset + tagEndOffset + 1)).drop
          ((rfind "<a".toList (html.take (cursor + classOffset))).getD (cursor + classOffset))) "href".toList with
      | none => exact absurd hattribute (extractAttribute_ne_none _ _)
      | some href =>
        cases href with
        | none => exact .inr (.inl ⟨_,rfl,by omega,htagEnd⟩)
        | some rawHref =>
          simp only [Option.bind_some,sliceFrom_eq htagEnd]
          cases hclose : find "</a>".toList (html.drop (cursor + classOffset + tagEndOffset + 1)) with
          | none => exact .inl rfl
          | some titleEndOffset =>
            have hle' := find_le hclose
            have hfour : "</a>".toList.length = 4 := by decide
            rw [length_drop] at hle'
            have htitle : cursor + classOffset + tagEndOffset + 1 + titleEndOffset ≤ html.length := by omega
            obtain ⟨snippet,next,hsnippet,hnext⟩ := findResultSnippet_spec htitle
            simp only [slice_eq (Nat.le_add_right _ titleEndOffset) htitle,hsnippet,Option.bind_some]
            refine .inr (.inr ⟨_,_,_,_,rfl,?_,?_⟩) <;> omega

/-! ## The results as a list -/

/-- The results found so far: not too many, with their ranks in order and an address each of its own. -/
structure Listed (limit : ℕ) (results : List SearchResult) : Prop where
  length : results.length ≤ limit
  ranks : results.map SearchResult.rank = List.range' 1 results.length
  urls : (results.map SearchResult.url).Nodup

theorem Listed.found {limit : ℕ} {results : List SearchResult} (h : Listed limit results)
    (hlimit : results.length < limit) {title url snippet : String} (hurl : ¬ results.any (·.url = url)) :
    Listed limit (results ++ [⟨results.length + 1,title,url,snippet⟩]) where
  length := by
    rw [length_append]
    exact hlimit
  ranks := by
    rw [map_append,h.ranks,length_append,length_singleton,List.range'_1_concat]
    simp [Nat.add_comm]
  urls := by
    rw [map_append,nodup_append]
    refine ⟨h.urls,nodup_singleton _,?_⟩
    intro a ha b hb
    obtain ⟨item,hitem,rfl⟩ := mem_map.mp ha
    rw [mem_singleton.mp hb]
    intro he
    exact hurl (any_eq_true.mpr ⟨item,hitem,decide_eq_true he⟩)

theorem collect_spec (queryPairs : QueryPairs) {limit : ℕ} {room cursor : ℕ} (hroom : html.length - cursor < room)
    (hcursor : cursor ≤ html.length) {results : List SearchResult} (h : Listed limit results) :
    ∃ out, collect queryPairs html limit room cursor results = some out ∧ Listed limit out := by
  induction room generalizing cursor results with
  | zero => omega
  | succ room ih =>
    rw [collect]
    by_cases hlimit : results.length < limit
    · rw [if_pos hlimit]
      obtain hstop | ⟨next,hskip,hlt,hle⟩ | ⟨next,title,url,snippet,hfound,hlt,hle⟩ := turn_spec queryPairs hcursor
      · rw [hstop]
        exact ⟨results,rfl,h⟩
      · rw [hskip]
        exact ih (by omega) hle h
      · rw [hfound]
        simp only
        split
        · exact ih (by omega) hle h
        · rename_i hnew
          obtain ⟨-,-,hurl⟩ := by simpa only [not_or] using hnew
          exact ih (by omega) hle (h.found hlimit hurl)
    · rw [if_neg hlimit]
      exact ⟨results,rfl,h⟩

/-- Every page is read to its end, with slices in range. -/
theorem parseSearchResults_spec (queryPairs : QueryPairs) (html : List Char) (limit : ℕ) :
    ∃ results, parseSearchResults queryPairs html limit = some results ∧ Listed limit results :=
  collect_spec queryPairs (by omega) (Nat.zero_le _) ⟨Nat.zero_le _,rfl,nodup_nil⟩

end Mxterm.AiWeb
