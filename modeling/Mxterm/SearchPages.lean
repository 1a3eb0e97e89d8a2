import Mxterm.MaximalRuns
import Mxterm.SearchResults

/-! Pages of search results as a site writes them, and when `parse_search_results` reads every result from them. -/
namespace Mxterm.AiWeb

open Occurrences Agent List

/-! ## Pages -/

inductive Quote
  | double | single
  deriving DecidableEq

def Quote.char : Quote → Char
  | .double => '"'
  | .single => '\''

/-- A result as it is listed: a link with an address that is written as it is, and a cell with a snippet or none. -/
structure Listing where
  title : List Char
  href : List Char
  snippet : Option (List Char)
  classQuote : Quote
  hrefQuote : Quote
  cellQuote : Quote
  /-- The address stands before the class. -/
  hrefFirst : Bool
  plain : '"' ∉ href ∧ '<' ∉ href ∧ '>' ∉ href
  quoted : hrefQuote.char ∉ href

namespace Listing

variable (r : Listing)

def classText : List Char := "class=".toList ++ r.classQuote.char :: "result-link".toList ++ [r.classQuote.char]

def hrefText : List Char := "href=".toList ++ r.hrefQuote.char :: r.href ++ [r.hrefQuote.char]

/-- The attributes of the link. -/
def inside : List Char :=
  if r.hrefFirst then r.hrefText ++ ' ' :: r.classText else r.classText ++ ' ' :: r.hrefText

def tag : List Char := "<a ".toList ++ r.inside ++ ['>']

def cellTag : List Char := "td class=".toList ++ r.cellQuote.char :: "result-snippet".toList ++ [r.cellQuote.char]

def cell : List Char := match r.snippet with
  | some s => '<' :: r.cellTag ++ '>' :: escapeHtml s ++ "</td>".toList
  | none => []

/-- What stands behind the link's tag. -/
def body : List Char := escapeHtml r.title ++ "</a>".toList ++ r.cell

end Listing

/-- The HTML of the results. -/
def page (rs : List Listing) : List Char := rs.flatMap fun r => r.tag ++ r.body

section
variable (queryPairs : QueryPairs)

def Listing.url (r : Listing) : String := normalizeResultUrl queryPairs (String.ofList r.href)

/-- The results of the page, the first one ranked behind some others. -/
def expectedFrom : ℕ → List Listing → List SearchResult
  | _, [] => []
  | before, r :: rs =>
    ⟨before + 1,normalizeSpace r.title,r.url queryPairs,(r.snippet.map normalizeSpace).getD ""⟩ ::
      expectedFrom (before + 1) rs

end

/-- Every result can be read where it stands: no link in double quotes comes behind one in single quotes, the texts
spell no entity and the title is not blank, and behind a result without a snippet nothing speaks of one. -/
def Readable : List Listing → Prop
  | [] => True
  | r :: after =>
    (r.classQuote = .single → ∀ r' ∈ after, r'.classQuote = .single) ∧
      (SpellsNoEntity r.title ∧ normalizeSpace r.title ≠ "") ∧
      (match r.snippet with
        | some s => SpellsNoEntity s
        | none => ¬ "result-snippet".toList <:+: page after) ∧
      Readable after

/-! ## Where the markers are -/

def marker : Quote → List Char
  | .double => doubleMarker
  | .single => singleMarker

/-- A text without a marker. -/
def Filler (x : List Char) : Prop := ∀ quote, Clear (marker quote) x

theorem Filler.suffix {x y : List Char} (h : Filler y) (hxy : x <:+ y) : Filler x := fun quote => (h quote).suffix hxy

theorem marker_eq (quote : Quote) :
    marker quote = "class=".toList ++ quote.char :: "result-link".toList ++ [quote.char] := by
  cases quote <;> rfl

theorem not_mem_marker (quote : Quote) : '<' ∉ marker quote ∧ '>' ∉ marker quote ∧ ' ' ∉ marker quote := by
  cases quote <;> decide

theorem char_not_mem_escapeHtml (quote : Quote) (s : List Char) : quote.char ∉ escapeHtml s := by
  rw [escapeHtml,mem_flatMap]
  rintro ⟨c,-,hc⟩
  by_cases hescaped : c ∈ escaped
  · have hall : escaped.all fun c => !(escapeChar c).contains '"' && !(escapeChar c).contains '\'' := by decide
    cases quote <;> simp_all [Quote.char]
  · rw [escapeChar_of_not_mem hescaped,mem_singleton] at hc
    refine hescaped (hc ▸ ?_)
    cases quote <;> decide

variable {pattern text : List Char}

theorem not_inside_of_not_mem {c : Char} (hc : c ∈ pattern) (h : c ∉ text) :
    ¬ pattern <:+: text := fun hp => h (hp.subset hc)

theorem char_mem_marker (quote : Quote) : quote.char ∈ marker quote := by cases quote <;> decide

theorem marker_not_inside_escapeHtml (quote : Quote) (s : List Char) : ¬ marker quote <:+: escapeHtml s :=
  not_inside_of_not_mem (char_mem_marker quote) (char_not_mem_escapeHtml quote s)

namespace Listing

variable (r : Listing)

theorem marker_not_inside_cellTag (quote : Quote) : ¬ marker quote <:+: r.cellTag := by
  unfold cellTag
  generalize r.cellQuote = cellQuote
  cases quote <;> cases cellQuote <;> decide

/-- No marker stands behind a link's tag. -/
theorem filler_body : Filler r.body := by
  intro quote
  obtain ⟨hopen,hclose,-⟩ := not_mem_marker quote
  have hlink : ¬ marker quote <:+: "/a".toList := by cases quote <;> decide
  have hcell : ¬ marker quote <:+: "/td".toList := by cases quote <;> decide
  have hempty : ¬ marker quote <:+: [] := by cases quote <;> decide
  have htitle := marker_not_inside_escapeHtml quote r.title
  cases hsnippet : r.snippet with
  | none =>
    have hbody : r.body = (escapeHtml r.title ++ '<' :: "/a".toList) ++ ['>'] := by simp [body,cell,hsnippet]
    rw [hbody]
    refine clear_of_last ?_ hclose
    rw [infix_separated hclose,infix_separated hopen]
    simp only [htitle,hlink,hempty,or_self,not_false_eq_true]
  | some s =>
    have hbody : r.body = (escapeHtml r.title ++ '<' :: ("/a".toList ++ '>' :: ([] ++ '<' :: (r.cellTag ++ '>' ::
        (escapeHtml s ++ '<' :: "/td".toList))))) ++ ['>'] := by simp [body,cell,hsnippet]
    rw [hbody]
    refine clear_of_last ?_ hclose
    rw [infix_separated hclose,infix_separated hopen,infix_separated hclose,infix_separated hopen,
      infix_separated hclose,infix_separated hopen]
    simp only [htitle,hlink,hempty,hcell,r.marker_not_inside_cellTag quote,marker_not_inside_escapeHtml quote s,or_self,
      not_false_eq_true]

theorem not_mem_inside : '<' ∉ r.inside ∧ '>' ∉ r.inside := by
  obtain ⟨-,hopen,hclose⟩ := r.plain
  unfold inside hrefText classText
  generalize r.classQuote = classQuote
  generalize r.hrefQuote = hrefQuote
  have hquotes : ∀ quote : Quote, '<' ≠ quote.char ∧ '>' ≠ quote.char := fun quote => by cases quote <;> decide
  have hclass := hquotes classQuote
  have hhref := hquotes hrefQuote
  split <;> simp [hopen,hclose,hclass,hhref]

end Listing

variable {quote : Char} {a b : List Char}

/-- A quoted text is in another one of as many quotes only where the texts before the quotes agree. -/
theorem infix_quoted {u v : List Char} (ha : quote ∉ a) (hb : quote ∉ b) (hu : quote ∉ u)
    (h : u ++ quote :: v ++ [quote] <:+: a ++ quote :: b ++ [quote]) : u <:+ a := by
  obtain ⟨before,behind,heq⟩ := h
  have hcount := congrArg (List.count quote) heq
  simp only [count_append,count_cons_self,count_nil,count_eq_zero_of_not_mem ha,
    count_eq_zero_of_not_mem hb,count_eq_zero_of_not_mem hu] at hcount
  have hbefore : quote ∉ before := count_eq_zero.mp (by omega)
  have hparts : (before ++ u) ++ quote :: (v ++ [quote] ++ behind) = a ++ quote :: (b ++ [quote]) := by
    simpa using heq
  have hplain : ∀ c ∈ before ++ u, (c == quote) = false := by
    intro c hc
    refine beq_false_of_ne fun he => ?_
    rcases mem_append.mp (he ▸ hc) with hc | hc
    · exact hbefore hc
    · exact hu hc
  have hplain' : ∀ c ∈ a, (c == quote) = false := fun c hc => beq_false_of_ne fun he => ha (he ▸ hc)
  exact ⟨before,(MaximalRuns.append_sep_inj hplain hplain' (beq_self_eq_true quote) hparts).1⟩

namespace Listing

variable (r : Listing)

/-- A link in single quotes shows no marker in double ones. -/
theorem clear_double (h : r.classQuote = .single) : Clear doubleMarker r.tag := by
  have hspace : ' ' ∉ doubleMarker := by decide
  have hclass : ¬ doubleMarker <:+: r.classText := by
    unfold classText
    rw [h]
    decide
  have hhref : ¬ doubleMarker <:+: r.hrefText := by
    cases hquote : r.hrefQuote with
    | double =>
      intro hp
      have hmarker : doubleMarker = "class=".toList ++ '"' :: "result-link".toList ++ ['"'] := by decide
      unfold hrefText at hp
      rw [hmarker,hquote] at hp
      exact absurd (infix_quoted (by decide) r.plain.1 (by decide) hp) (by decide)
    | single =>
      refine not_inside_of_not_mem (c := '"') (by decide) ?_
      unfold hrefText
      rw [hquote]
      simp [Quote.char,r.plain.1]
  have hinside : ¬ doubleMarker <:+: r.inside := by
    unfold inside
    split <;> simp [infix_separated hspace,hclass,hhref]
  have hclose : '>' ∉ doubleMarker := by decide
  have hlink : ¬ doubleMarker <:+: "<a".toList := by decide
  have hempty : ¬ doubleMarker <:+: [] := by decide
  have htag : r.tag = ("<a".toList ++ ' ' :: r.inside) ++ ['>'] := by simp [tag]
  rw [htag]
  refine clear_of_last ?_ hclose
  rw [infix_separated hclose,infix_separated hspace]
  simp only [hlink,hinside,hempty,or_self,not_false_eq_true]

/-- The link shows its own marker. -/
theorem exists_marker : ∃ before behind, r.inside = before ++ marker r.classQuote ++ behind := by
  have hclass : r.classText = marker r.classQuote := (marker_eq r.classQuote).symm
  unfold inside
  split
  · exact ⟨r.hrefText ++ [' '],[],by simp [hclass]⟩
  · exact ⟨[],' ' :: r.hrefText,by simp [hclass]⟩

end Listing

/-! ## What is found where -/

variable {before : List Char}

theorem find_of_head {a : Char} (hpattern : pattern.head? = some a) (hbefore : a ∉ before) (rest : List Char) :
    find pattern (before ++ pattern ++ rest) = some before.length := by
  rw [find,findFirst_of_head hpattern hbefore]
  rfl

theorem find_of_mark {m : Char} {tail : List Char} (hpattern : pattern = m :: tail) (htail : m ∉ tail)
    (hbefore : ¬ pattern <:+: before) (rest : List Char) :
    find pattern (before ++ pattern ++ rest) = some before.length := by
  rw [find,findFirst_of_mark hpattern htail hbefore]
  rfl

theorem find_clear (h : Clear pattern a) (rest : List Char) :
    find pattern (a ++ rest) = (find pattern rest).map (a.length + ·) := by
  rw [find,findFirst_clear h,find,Option.map_map,Option.map_map]
  congr 1
  funext found
  simp

theorem find_eq_none (h : ¬ pattern <:+: text) : find pattern text = none := by
  rw [find,findFirst_of_not_inside h]
  rfl

theorem exists_find (h : pattern <:+: text) : ∃ i, find pattern text = some i := by
  obtain ⟨before,behind,rfl⟩ := h
  obtain ⟨early,rest,hfound,-⟩ := findFirst_early pattern before behind
  exact ⟨early.length,by rw [find,hfound]; rfl⟩

theorem rfind_link (before : List Char) {inside : List Char} (h : '<' ∉ inside) :
    rfind "<a".toList (before ++ "<a".toList ++ inside) = some before.length := by
  have hlink : "<a".toList.reverse = ['a','<'] := by decide
  have htext : (before ++ "<a".toList ++ inside).reverse = inside.reverse ++ ['a','<'] ++ before.reverse := by
    simp
  have hnot : ¬ ['a','<'] <:+: inside.reverse :=
    not_inside_of_not_mem (c := '<') (by simp) (by simpa using h)
  rw [rfind,hlink,htext,findFirst_of_mark rfl (by decide) hnot]
  simp

variable {html : List Char}

theorem slice_at {c : List Char} (h : html = a ++ b ++ c) {start stop : ℕ} (hstart : start = a.length)
    (hstop : stop = a.length + b.length) : slice html start stop = some b := by
  have hlength := congrArg List.length h
  simp only [length_append] at hlength
  have hend : a.length + b.length = (a ++ b).length := by simp
  rw [slice_eq (by omega) (by omega),hstart,hstop,h,hend,take_left,drop_left]

theorem sliceFrom_at (h : html = a ++ b) {start : ℕ} (hstart : start = a.length) : sliceFrom html start = some b := by
  rw [sliceFrom_eq (by simp [h,hstart]),h,hstart,drop_left]

theorem quotedAttribute_found {tag behind name value marker : List Char} {m : Char} {tail : List Char}
    (hname : name ++ ['=',quote] = marker) (htag : tag = before ++ marker ++ (value ++ quote :: behind))
    (hmarker : marker = m :: tail) (htail : m ∉ tail) (hbefore : ¬ marker <:+: before) (hvalue : quote ∉ value) :
    quotedAttribute tag name quote = some (some (some value)) := by
  have hfind : find marker tag = some before.length := htag ▸ find_of_mark hmarker htail hbefore _
  have hslice : sliceFrom tag (before.length + marker.length) = some (value ++ quote :: behind) :=
    sliceFrom_at htag (by simp)
  have hend : find [quote] (value ++ quote :: behind) = some value.length := by
    have h := find_of_head (a := quote) (show [quote].head? = some quote from rfl) hvalue behind
    simpa using h
  have hcut : slice tag (before.length + marker.length) (before.length + marker.length + value.length) = some value :=
    slice_at (a := before ++ marker) (c := quote :: behind) (by simpa using htag) (by simp) (by simp)
  rw [quotedAttribute,hname,hfind]
  simp only [hslice,hend,hcut,Option.bind_eq_bind,Option.bind_some]

theorem quotedAttribute_missing {tag name : List Char} (h : ¬ name ++ ['=',quote] <:+: tag) :
    quotedAttribute tag name quote = some none := by
  rw [quotedAttribute,find_eq_none h]

namespace Listing

variable (r : Listing)

theorem hrefText_eq :
    r.hrefText = ("href".toList ++ ['=',r.hrefQuote.char]) ++ (r.href ++ r.hrefQuote.char :: []) := by
  rfl

/-- What stands before the address shows no other one. -/
theorem exists_href : ∃ before behind,
    r.tag = before ++ ("href".toList ++ ['=',r.hrefQuote.char]) ++ (r.href ++ r.hrefQuote.char :: behind) ∧
      ¬ "href".toList ++ ['=',r.hrefQuote.char] <:+: before := by
  by_cases hfirst : r.hrefFirst
  · refine ⟨"<a ".toList,' ' :: r.classText ++ ['>'],by simp [tag,inside,hfirst,hrefText_eq],?_⟩
    generalize r.hrefQuote = quote
    cases quote <;> decide
  · refine ⟨"<a ".toList ++ r.classText ++ [' '],['>'],by simp [tag,inside,hfirst,hrefText_eq],?_⟩
    unfold classText
    generalize r.hrefQuote = quote
    generalize r.classQuote = classQuote
    cases quote <;> cases classQuote <;> decide

/-- An address in single quotes shows none in double ones. -/
theorem no_double_href (h : r.hrefQuote = .single) : ¬ "href".toList ++ ['=','"'] <:+: r.tag := by
  have hspace : ' ' ∉ "href".toList ++ ['=','"'] := by decide
  have hclose : '>' ∉ "href".toList ++ ['=','"'] := by decide
  have hlink : ¬ "href".toList ++ ['=','"'] <:+: "<a".toList := by decide
  have hempty : ¬ "href".toList ++ ['=','"'] <:+: [] := by decide
  have hclass : ¬ "href".toList ++ ['=','"'] <:+: r.classText := by
    unfold classText
    generalize r.classQuote = classQuote
    cases classQuote <;> decide
  have hhref : ¬ "href".toList ++ ['=','"'] <:+: r.hrefText := by
    refine not_inside_of_not_mem (c := '"') (by decide) ?_
    unfold hrefText
    rw [h]
    simp [Quote.char,r.plain.1]
  have hinside : ¬ "href".toList ++ ['=','"'] <:+: r.inside := by
    unfold inside
    split <;> simp only [infix_separated hspace,hclass,hhref,or_self,not_false_eq_true]
  have htag : r.tag = "<a".toList ++ ' ' :: (r.inside ++ '>' :: []) := by simp [tag]
  rw [htag,infix_separated hspace,infix_separated hclose]
  simp only [hlink,hinside,hempty,or_self,not_false_eq_true]

/-- The link's address is read from its tag. -/
theorem extractAttribute_tag : extractAttribute r.tag "href".toList = some (some r.href) := by
  have hmark : ∀ quote : Quote, "href".toList ++ ['=',quote.char] = 'h' :: ("ref=".toList ++ [quote.char]) :=
    fun quote => by cases quote <;> decide
  have htail : ∀ quote : Quote, 'h' ∉ "ref=".toList ++ [quote.char] := fun quote => by cases quote <;> decide
  have hfound : quotedAttribute r.tag "href".toList r.hrefQuote.char = some (some (some r.href)) := by
    obtain ⟨before,behind,htag,hno⟩ := r.exists_href
    exact quotedAttribute_found rfl htag (hmark _) (htail _) hno r.quoted
  rw [extractAttribute]
  cases hquote : r.hrefQuote with
  | double =>
    rw [hquote,Quote.char] at hfound
    simp only [hfound,Option.bind_eq_bind,Option.bind_some]
  | single =>
    rw [hquote,Quote.char] at hfound
    have hmissing := quotedAttribute_missing (r.no_double_href hquote)
    simp only [hmissing,hfound,Option.bind_eq_bind,Option.bind_some,Option.pure_def,Option.join_some]

end Listing

/-! ## The snippet behind a link -/

variable {rest : List Char}

/-- The text between the marked tag and the cell's end is the snippet. -/
theorem findResultSnippet_found {lead behind content : List Char}
    (hhtml : html = before ++ (lead ++ (behind ++ '>' :: (content ++ rest))))
    (hfind : find "result-snippet".toList (lead ++ (behind ++ '>' :: (content ++ rest))) = some lead.length)
    (hbehind : '>' ∉ behind) (htd : find "</td>".toList (content ++ rest) = some content.length)
    (hdiv : ∀ i, find "</div>".toList (content ++ rest) = some i → content.length ≤ i) :
    findResultSnippet html before.length = some (cleanHtmlText content,
      (before ++ (lead ++ (behind ++ '>' :: content))).length) := by
  have hstart := sliceFrom_at hhtml rfl
  have hmarker : sliceFrom html (before.length + lead.length) = some (behind ++ '>' :: (content ++ rest)) :=
    sliceFrom_at (a := before ++ lead) (by rw [hhtml,append_assoc]) (by simp)
  have hend : find ['>'] (behind ++ '>' :: (content ++ rest)) = some behind.length := by
    have h := find_of_head (show ['>'].head? = some '>' from rfl) hbehind (content ++ rest)
    simpa only [append_assoc,singleton_append] using h
  have hcontent : sliceFrom html (before.length + lead.length + behind.length + 1) = some (content ++ rest) :=
    sliceFrom_at (a := before ++ lead ++ behind ++ ['>']) (by rw [hhtml]; simp) (by simp; omega)
  have hslice : slice html (before.length + lead.length + behind.length + 1)
      (before.length + lead.length + behind.length + 1 + content.length) = some content :=
    slice_at (a := before ++ lead ++ behind ++ ['>']) (c := rest) (by rw [hhtml]; simp) (by simp; omega)
      (by simp; omega)
  have hearliest : earliest (before.length + lead.length + behind.length + 1)
      ((find "</td>".toList (content ++ rest)).map (before.length + lead.length + behind.length + 1 + ·))
      ((find "</div>".toList (content ++ rest)).map (before.length + lead.length + behind.length + 1 + ·)) =
      before.length + lead.length + behind.length + 1 + content.length := by
    rw [htd]
    cases hfound : find "</div>".toList (content ++ rest) with
    | none => rfl
    | some i =>
      have hle := hdiv i hfound
      simp only [Option.map_some,earliest]
      omega
  rw [findResultSnippet]
  simp only [hstart,Option.bind_eq_bind,Option.bind_some,hfind,hmarker,hend,hcontent,hearliest,hslice]
  congr 2
  simp only [length_append,length_cons]
  omega

variable {r : Listing}

/-- What is found of a snippet cell that stands behind the link. -/
theorem findResultSnippet_cell {s : List Char} (hs : r.snippet = some s)
    (hhtml : html = before ++ ("</a>".toList ++ r.cell ++ rest)) :
    ∃ front, findResultSnippet html before.length = some (cleanHtmlText (escapeHtml s),front.length) ∧
      html = front ++ ("</td>".toList ++ rest) ∧ before.length + 4 ≤ front.length := by
  have hcell : "</a>".toList ++ r.cell ++ rest = ("</a><td class=".toList ++ [r.cellQuote.char]) ++
      (("result-snippet".toList ++ [r.cellQuote.char]) ++ '>' :: (escapeHtml s ++ ("</td>".toList ++ rest))) := by
    have hopen : "</a><td class=".toList = "</a>".toList ++ '<' :: "td class=".toList := by decide
    unfold Listing.cell
    simp only [hs]
    unfold Listing.cellTag
    simp only [hopen,append_assoc,cons_append,nil_append]
  have hno : ¬ "result-snippet".toList <:+: "</a><td class=".toList ++ [r.cellQuote.char] := by
    generalize r.cellQuote = quote
    cases quote <;> decide
  have hmark : "result-snippet".toList = 'r' :: "esult-snippet".toList := by decide
  have hlead : '>' ∉ "result-snippet".toList ++ [r.cellQuote.char] := by
    generalize r.cellQuote = quote
    cases quote <;> decide
  rw [hcell] at hhtml
  refine ⟨_,findResultSnippet_found hhtml ?_ hlead ?_ ?_,?_,?_⟩
  · have h := find_of_mark hmark (by decide) hno
      ([r.cellQuote.char] ++ '>' :: (escapeHtml s ++ ("</td>".toList ++ rest)))
    simpa only [append_assoc] using h
  · have h := find_of_head (show "</td>".toList.head? = some '<' by decide) (no_bracket_escapeHtml s) rest
    rwa [append_assoc] at h
  · intro i hi
    have hclear : Clear "</div>".toList (escapeHtml s) :=
      clear_of_not_mem (show "</div>".toList.head? = some '<' by decide) (no_bracket_escapeHtml s)
    rw [find_clear hclear] at hi
    obtain ⟨j,-,rfl⟩ := Option.map_eq_some_iff.mp hi
    exact Nat.le_add_right _ _
  · rw [hhtml]
    simp only [append_assoc,cons_append]
  · have hfour : "</a><td class=".toList.length = 14 := by decide
    simp only [length_append,hfour]
    omega

theorem findResultSnippet_none (hhtml : html = before ++ rest) (hno : find "result-snippet".toList rest = none) :
    findResultSnippet html before.length = some ("",before.length) := by
  rw [findResultSnippet]
  simp only [sliceFrom_at hhtml rfl,Option.bind_eq_bind,Option.bind_some,hno]

theorem find_eq_some {i : ℕ} (h : find pattern text = some i) :
    ∃ before behind, text = before ++ pattern ++ behind ∧ before.length = i := by
  obtain ⟨found,hfound,rfl⟩ := Option.map_eq_some_iff.mp h
  exact ⟨found.1,found.2,findFirst_append hfound,rfl⟩

/-- The rest of a page where the search for a snippet ends: behind the end of a tag, or at a closing one. -/
def Landing (front behind : List Char) : Prop := (∃ a, front = a ++ ['>']) ∨ ∃ b, behind = '<' :: '/' :: b

theorem landing_earliest {front : List Char} (hfront : ∃ a, front = a ++ ['>']) (start : ℕ) (w : List Char) :
    ∃ x y, earliest start ((find "</td>".toList w).map (start + ·)) ((find "</div>".toList w).map (start + ·)) =
      start + x.length ∧ w = x ++ y ∧ Landing (front ++ x) y := by
  have hclosing : ∀ {pattern : List Char} {i : ℕ}, (∃ more, pattern = '<' :: '/' :: more) →
      find pattern w = some i → ∃ x y, start + i = start + x.length ∧ w = x ++ y ∧ Landing (front ++ x) y := by
    rintro pattern i ⟨more,rfl⟩ hi
    obtain ⟨x,behind,hw,hlength⟩ := find_eq_some hi
    exact ⟨x,'<' :: '/' :: more ++ behind,by rw [hlength],by rw [hw,append_assoc],.inr ⟨more ++ behind,rfl⟩⟩
  have htd : ∃ more, "</td>".toList = '<' :: '/' :: more := ⟨"td>".toList,by decide⟩
  have hdiv : ∃ more, "</div>".toList = '<' :: '/' :: more := ⟨"div>".toList,by decide⟩
  cases ha : find "</td>".toList w with
  | none =>
    cases hb : find "</div>".toList w with
    | none => exact ⟨[],w,rfl,rfl,.inl (by simpa using hfront)⟩
    | some b => exact hclosing hdiv hb
  | some a =>
    cases hb : find "</div>".toList w with
    | none => exact hclosing htd ha
    | some b =>
      rcases Nat.le_total a b with hab | hab
      · have hmin : min (start + a) (start + b) = start + a := by omega
        simp only [Option.map_some,earliest,hmin]
        exact hclosing htd ha
      · have hmin : min (start + a) (start + b) = start + b := by omega
        simp only [Option.map_some,earliest,hmin]
        exact hclosing hdiv hb

/-- A snippet that is spoken of further on moves the search there. -/
theorem findResultSnippet_later (hhtml : html = before ++ rest) {lead : ℕ}
    (hfind : find "result-snippet".toList rest = some lead) (hend : '>' ∈ rest.drop lead) :
    ∃ snippet front behind, findResultSnippet html before.length = some (snippet,(before ++ front).length) ∧
      rest = front ++ behind ∧ lead < front.length ∧ Landing front behind := by
  obtain ⟨a,hpart⟩ : ∃ a, rest = a ++ rest.drop lead ∧ a.length = lead := by
    obtain ⟨a,b,hrest,hlength⟩ := find_eq_some hfind
    refine ⟨a,?_,hlength⟩
    rw [← hlength,hrest,append_assoc,drop_left]
  obtain ⟨hpart,hlength⟩ := hpart
  have hmarker : sliceFrom html (before.length + lead) = some (rest.drop lead) :=
    sliceFrom_at (a := before ++ a) (by rw [hhtml,append_assoc,← hpart]) (by simp [hlength])
  obtain ⟨u,w,huw,hu⟩ := eq_append_cons_of_mem hend
  rw [huw] at hmarker hpart
  have hclose : find ['>'] (u ++ '>' :: w) = some u.length := by
    have h := find_of_head (show ['>'].head? = some '>' from rfl) hu w
    simpa only [append_assoc,singleton_append] using h
  have hcontent : sliceFrom html (before.length + lead + u.length + 1) = some w :=
    sliceFrom_at (a := before ++ a ++ u ++ ['>']) (by rw [hhtml]; simp [hpart]) (by simp [hlength]; omega)
  obtain ⟨x,y,hearliest,hw,hlanding⟩ := landing_earliest ⟨a ++ u,rfl⟩ (before.length + lead + u.length + 1) w
  have hslice : slice html (before.length + lead + u.length + 1) (before.length + lead + u.length + 1 + x.length) =
      some x :=
    slice_at (a := before ++ a ++ u ++ ['>']) (c := y) (by rw [hhtml]; simp [hpart,hw]) (by simp [hlength]; omega)
      (by simp [hlength]; omega)
  refine ⟨cleanHtmlText x,a ++ u ++ ['>'] ++ x,y,?_,?_,?_,hlanding⟩
  · rw [findResultSnippet]
    simp only [sliceFrom_at hhtml rfl,Option.bind_eq_bind,Option.bind_some,hfind,hmarker,hclose,hcontent,hearliest,
      hslice]
    congr 2
    simp only [length_append,length_singleton,hlength]
    omega
  · rw [hpart,hw]
    simp
  · simp only [length_append,length_singleton,hlength]
    omega

/-! ## One turn of the loop -/

/-- The link whose tag shows the marker that is found is the one that is read. -/
theorem turn_link (queryPairs : QueryPairs) (hhtml : html = before ++ (r.tag ++ (r.body ++ rest)))
    {cursor offset k : ℕ} (hcursor : cursor ≤ html.length)
    (hclass : (find doubleMarker (html.drop cursor)).or (find singleMarker (html.drop cursor)) = some offset)
    (hoffset : cursor + offset = before.length + 3 + k) (hk : k ≤ r.inside.length) :
    turn queryPairs html cursor =
      (findResultSnippet html (before ++ r.tag ++ escapeHtml r.title).length).map fun found =>
        .found (max found.2 ((before ++ r.tag ++ escapeHtml r.title).length + 4)) (cleanHtmlText (escapeHtml r.title))
          (r.url queryPairs) found.1 := by
  obtain ⟨hopen,hclose⟩ := r.not_mem_inside
  have hthree : "<a ".toList.length = 3 := by decide
  have hsplit : r.inside.take k ++ r.inside.drop k = r.inside := take_append_drop _ _
  have htaken : (r.inside.take k).length = k := by rw [length_take,Nat.min_eq_left hk]
  have hwhole : html = (before ++ "<a ".toList ++ r.inside.take k) ++
      (r.inside.drop k ++ '>' :: (r.body ++ rest)) := by
    rw [hhtml,Listing.tag]
    conv_lhs => rw [← hsplit]
    simp only [append_assoc,singleton_append]
  have hstartLength : (before ++ "<a ".toList ++ r.inside.take k).length = cursor + offset := by
    rw [hoffset,length_append,length_append,hthree,htaken]
  have hfront : slice html 0 (cursor + offset) = some (before ++ "<a ".toList ++ r.inside.take k) :=
    slice_at (a := []) hwhole rfl (by rw [← hstartLength]; simp)
  have hanchor : rfind "<a".toList (before ++ "<a ".toList ++ r.inside.take k) = some before.length := by
    have hlink : "<a ".toList = "<a".toList ++ [' '] := by decide
    have hplain : '<' ∉ ' ' :: r.inside.take k := by
      simp only [mem_cons,not_or]
      exact ⟨by decide,fun h => hopen (( take_prefix _ _).subset h)⟩
    have h := rfind_link before hplain
    rw [hlink]
    simpa only [append_assoc,singleton_append] using h
  have hbehind : sliceFrom html (cursor + offset) = some (r.inside.drop k ++ '>' :: (r.body ++ rest)) :=
    sliceFrom_at hwhole hstartLength.symm
  have htagEnd : find ['>'] (r.inside.drop k ++ '>' :: (r.body ++ rest)) = some (r.inside.drop k).length := by
    have hplain : '>' ∉ r.inside.drop k := fun h => hclose ((drop_suffix _ _).subset h)
    have h := find_of_head (show ['>'].head? = some '>' from rfl) hplain (r.body ++ rest)
    simpa only [append_assoc,singleton_append] using h
  have htagLength : r.tag.length = 3 + k + (r.inside.drop k).length + 1 := by
    rw [Listing.tag,length_append,length_append,length_singleton,length_drop]
    omega
  have htag : slice html before.length (cursor + offset + (r.inside.drop k).length + 1) = some r.tag :=
    slice_at (a := before) (c := r.body ++ rest) (by rw [hhtml]; simp) rfl (by rw [htagLength]; omega)
  have htext : sliceFrom html (cursor + offset + (r.inside.drop k).length + 1) = some (r.body ++ rest) :=
    sliceFrom_at (a := before ++ r.tag) (by rw [hhtml]; simp) (by rw [length_append]; omega)
  have htitleEnd : find "</a>".toList (r.body ++ rest) = some (escapeHtml r.title).length := by
    have h := find_of_head (show "</a>".toList.head? = some '<' by decide) (no_bracket_escapeHtml r.title)
      (r.cell ++ rest)
    unfold Listing.body
    simpa only [append_assoc] using h
  have htitle : slice html (cursor + offset + (r.inside.drop k).length + 1)
      (cursor + offset + (r.inside.drop k).length + 1 + (escapeHtml r.title).length) = some (escapeHtml r.title) := by
    refine slice_at (a := before ++ r.tag) (c := "</a>".toList ++ r.cell ++ rest) ?_ ?_ ?_
    · rw [hhtml]
      unfold Listing.body
      simp only [append_assoc]
    · rw [length_append]
      omega
    · rw [length_append]
      omega
  have hend : cursor + offset + (r.inside.drop k).length + 1 + (escapeHtml r.title).length =
      (before ++ r.tag ++ escapeHtml r.title).length := by
    rw [length_append,length_append]
    omega
  rw [hend] at htitle
  rw [turn]
  simp only [sliceFrom_eq hcursor,Option.bind_eq_bind,Option.bind_some,hclass,hfront,hbehind,htagEnd,hanchor,
    Option.getD_some,htag,r.extractAttribute_tag,htext,htitleEnd,hend,htitle]
  rw [Option.map_eq_bind]
  rfl

/-! ## Which link is read -/

theorem page_cons (r : Listing) (rs : List Listing) : page (r :: rs) = r.tag ++ (r.body ++ page rs) := by
  simp [page]

theorem page_append (rs rs' : List Listing) : page (rs ++ rs') = page rs ++ page rs' := by simp [page]

theorem clear_page {rs : List Listing} (h : ∀ r ∈ rs, r.classQuote = .single) : Clear doubleMarker (page rs) := by
  induction rs with
  | nil => exact clear_nil
  | cons r rs ih =>
    obtain ⟨hr,hrs⟩ := forall_mem_cons.mp h
    rw [page_cons]
    exact (r.clear_double hr).append ((r.filler_body .double).append (ih hrs))

/-- In a text that begins with a link the link's own marker is found in its tag. -/
theorem find_marker (r : Listing) (rest : List Char) :
    ∃ k ≤ r.inside.length, find (marker r.classQuote) (r.tag ++ rest) = some (3 + k) := by
  obtain ⟨before,behind,hinside⟩ := r.exists_marker
  have hlink : Clear (marker r.classQuote) "<a ".toList := by
    generalize r.classQuote = quote
    cases quote <;> decide
  have htag : r.tag ++ rest = "<a ".toList ++ (before ++ marker r.classQuote ++ (behind ++ '>' :: rest)) := by
    rw [Listing.tag,hinside]
    simp only [append_assoc,singleton_append]
  obtain ⟨early,behind',hfound,hearly⟩ := findFirst_early (marker r.classQuote) before (behind ++ '>' :: rest)
  refine ⟨early.length,?_,?_⟩
  · have hle := hearly.length_le
    rw [hinside,length_append,length_append]
    omega
  · rw [htag,find_clear hlink,find,hfound]
    rfl

/-- The link that is read next: the first one in double quotes, or, where there is none, the first one. -/
structure Next (rest before : List Listing) (r : Listing) (after : List Listing) : Prop where
  parts : rest = before ++ r :: after
  singles : ∀ r' ∈ before, r'.classQuote = .single
  quote : r.classQuote = .double ∨ before = [] ∧ ∀ r' ∈ rest, r'.classQuote = .single

theorem Next.first {r' : Listing} {after before after' : List Listing} (h : Next (r :: after) before r' after')
    (hquote : r.classQuote = .single → ∀ r' ∈ after, r'.classQuote = .single) :
    before = [] ∧ r = r' ∧ after = after' := by
  cases before with
  | nil =>
    obtain ⟨rfl,rfl⟩ := cons_eq_cons.mp h.parts
    exact ⟨rfl,rfl,rfl⟩
  | cons b before =>
    obtain ⟨rfl,hafter⟩ := cons_eq_cons.mp h.parts
    have hsingle := h.singles r mem_cons_self
    have hr' : r'.classQuote = .single := hquote hsingle r' (by simp [hafter])
    rcases h.quote with hdouble | ⟨hnil,-⟩
    · simp [hr'] at hdouble
    · simp at hnil

theorem exists_next {rest : List Listing} (h : rest ≠ []) : ∃ before r after, Next rest before r after := by
  by_cases hall : ∀ r' ∈ rest, r'.classQuote = .single
  · cases rest with
    | nil => exact absurd rfl h
    | cons r rest => exact ⟨[],r,rest,rfl,by simp,.inr ⟨rfl,hall⟩⟩
  · have hsome : rest.dropWhile (fun r => r.classQuote = .single) ≠ [] := by
      simpa using hall
    obtain ⟨r,after,hr⟩ := exists_cons_of_ne_nil hsome
    have hdouble : r.classQuote = .double := by
      have hhead := head?_dropWhile_not (fun r : Listing => decide (r.classQuote = .single)) rest
      rw [hr] at hhead
      cases hq : r.classQuote with
      | double => rfl
      | single => simp [hq] at hhead
    refine ⟨rest.takeWhile (fun r => r.classQuote = .single),r,after,?_,?_,.inl hdouble⟩
    · rw [← hr,takeWhile_append_dropWhile]
    · intro r' hr'
      simpa using mem_takeWhile_imp hr'

/-- The marker that is found stands in the tag of the next link. -/
theorem find_next {rest before after : List Listing} (h : Next rest before r after) {x : List Char} (hx : Filler x) :
    ∃ k ≤ r.inside.length,
      (find doubleMarker (x ++ page rest)).or (find singleMarker (x ++ page rest)) =
        some ((x ++ page before).length + (3 + k)) := by
  have hpage : x ++ page rest = (x ++ page before) ++ (r.tag ++ (r.body ++ page after)) := by
    rw [h.parts,page_append,page_cons,append_assoc]
  obtain ⟨k,hk,hfound⟩ := find_marker r (r.body ++ page after)
  refine ⟨k,hk,?_⟩
  rcases h.quote with hquote | ⟨rfl,hall⟩
  · have hclear : Clear doubleMarker (x ++ page before) := (hx .double).append (clear_page h.singles)
    rw [hquote] at hfound
    have hdouble : find doubleMarker (x ++ page rest) = some ((x ++ page before).length + (3 + k)) := by
      rw [hpage,find_clear hclear]
      change (find (marker .double) _).map _ = _
      rw [hfound]
      rfl
    rw [hdouble]
    rfl
  · have hnone : find doubleMarker (x ++ page rest) = none :=
      find_eq_none (((hx .double).append (clear_page hall)).not_inside (by decide))
    have hsingle : r.classQuote = .single := hall r (by rw [h.parts]; simp)
    rw [hsingle] at hfound
    have hclear : Clear singleMarker (x ++ page []) := by
      rw [page,flatMap_nil,append_nil]
      exact hx .single
    rw [hnone,hpage,find_clear hclear]
    change (find (marker .single) _).map _ = _
    rw [hfound]
    rfl

/-- Where the search lands in a page, a part without a marker stands before the links that are left; the first link
is not among them. -/
theorem page_landing {rs : List Listing} {w : List Char} (h : page rs = a ++ w) (hlanding : Landing a w) :
    ∃ x rest, w = x ++ page rest ∧ Filler x ∧ rest <:+ rs.tail := by
  induction rs generalizing a with
  | nil =>
    obtain ⟨rfl,rfl⟩ := nil_eq_append_iff.mp h
    rcases hlanding with ⟨b,hb⟩ | ⟨b,hb⟩ <;> simp at hb
  | cons r rs ih =>
    obtain ⟨hopen,hclose⟩ := r.not_mem_inside
    rw [page_cons] at h
    rcases append_eq_append_iff.mp h with ⟨b,rfl,hrest⟩ | ⟨y,htag,hw⟩
    · -- behind the link's tag
      rcases append_eq_append_iff.mp hrest with ⟨c,rfl,hpage⟩ | ⟨y,hbody,hw⟩
      · by_cases hc : c = []
        · exact ⟨[],rs,by simpa [hc] using hpage.symm,fun _ => clear_nil,suffix_rfl⟩
        · have hlater : Landing c w := by
            refine hlanding.imp_left ?_
            rintro ⟨d,hd⟩
            obtain ⟨e,f,rfl⟩ : ∃ e f, c = e ++ [f] := ⟨c.dropLast,c.getLast hc,(dropLast_append_getLast hc).symm⟩
            have hlast := congrArg List.getLast? hd
            simp only [← append_assoc,getLast?_concat,Option.some.injEq] at hlast
            exact ⟨e,by rw [hlast]⟩
          obtain ⟨x,rest,hw,hx,hsuffix⟩ := ih hpage hlater
          exact ⟨x,rest,hw,hx,hsuffix.trans (tail_suffix rs)⟩
      · exact ⟨y,rs,hw,r.filler_body.suffix ⟨b,hbody.symm⟩,suffix_rfl⟩
    · by_cases hy : y = []
      · exact ⟨r.body,rs,by simpa [hy] using hw,r.filler_body,suffix_rfl⟩
      · -- no end of a tag and no closing tag stands in a link's tag
        exfalso
        rw [Listing.tag] at htag
        rcases hlanding with ⟨b,rfl⟩ | ⟨b,rfl⟩
        · obtain ⟨e,f,rfl⟩ : ∃ e f, y = e ++ [f] := ⟨y.dropLast,y.getLast hy,(dropLast_append_getLast hy).symm⟩
          have hdrop := congrArg List.dropLast htag
          rw [← append_assoc,dropLast_concat,dropLast_concat] at hdrop
          have hmem : '>' ∈ "<a ".toList ++ r.inside := by
            rw [hdrop]
            simp
          rcases mem_append.mp hmem with hmem | hmem
          · exact absurd hmem (by decide)
          · exact hclose hmem
        · obtain ⟨c,y,rfl⟩ := exists_cons_of_ne_nil hy
          obtain ⟨rfl,htail⟩ := cons_eq_cons.mp hw
          have hlink : "<a ".toList = ['<','a',' '] := by decide
          rw [hlink] at htag
          cases a with
          | nil =>
            have hsecond := (cons_eq_cons.mp htag).2
            rw [← hsecond] at htail
            simp at htail
          | cons d a =>
            have hrest := (cons_eq_cons.mp htag).2
            have hmem : '<' ∈ ['a',' '] ++ r.inside ++ ['>'] := by
              change '<' ∈ 'a' :: ([' '] ++ r.inside ++ ['>'])
              rw [show 'a' :: ([' '] ++ r.inside ++ ['>']) = a ++ '<' :: y from hrest]
              simp
            simp [hopen] at hmem

/-- The cursor stands before some of the links. -/
def At (html : List Char) (cursor : ℕ) (rest : List Listing) : Prop :=
  ∃ front x, html = front ++ (x ++ page rest) ∧ cursor = front.length ∧ Filler x

section
variable {queryPairs : QueryPairs} {html : List Char} {cursor : ℕ} {rest : List Listing}

theorem At.le (h : At html cursor rest) : cursor ≤ html.length := by
  obtain ⟨front,x,rfl,rfl,-⟩ := h
  simp

theorem turn_end (h : At html cursor []) : turn queryPairs html cursor = some .stop := by
  have hle := h.le
  obtain ⟨front,x,rfl,rfl,hx⟩ := h
  have hnone : ∀ quote, find (marker quote) (x ++ page []) = none := fun quote => by
    rw [page,flatMap_nil,append_nil]
    refine find_eq_none ((hx quote).not_inside ?_)
    cases quote <;> decide
  have hdouble : find doubleMarker (x ++ page []) = none := hnone .double
  have hsingle : find singleMarker (x ++ page []) = none := hnone .single
  rw [turn]
  simp only [sliceFrom_eq hle,drop_left,Option.bind_eq_bind,Option.bind_some,hdouble,hsingle,Option.or_none]

/-- What a turn finds of the next link, and where it leaves the cursor. -/
structure Found (queryPairs : QueryPairs) (html : List Char) (cursor : ℕ) (r : Listing) (after left : List Listing)
    (snippet : String) (next : ℕ) : Prop where
  turn : turn queryPairs html cursor =
    some (.found next (cleanHtmlText (escapeHtml r.title)) (r.url queryPairs) snippet)
  at_left : At html next left
  suffix : left <:+ after
  cell : ∀ s, r.snippet = some s → snippet = cleanHtmlText (escapeHtml s) ∧ left = after
  alone : r.snippet = none → ¬ "result-snippet".toList <:+: page after → snippet = "" ∧ left = after
  later : r.snippet = none → "result-snippet".toList <:+: page after → left <:+ after.tail

theorem mem_page_end {rs : List Listing} (h : rs ≠ []) : (page rs).getLast? = some '>' := by
  obtain ⟨rs,r,rfl⟩ : ∃ rs' r, rs = rs' ++ [r] := ⟨rs.dropLast,rs.getLast h,(dropLast_append_getLast h).symm⟩
  have hbody : r.body.getLast? = some '>' := by
    unfold Listing.body Listing.cell
    cases r.snippet with
    | none =>
      have hlast : "</a>".toList.getLast? = some '>' := by decide
      rw [append_nil,getLast?_append_of_ne_nil _ (by decide),hlast]
    | some s =>
      have hlast : "</td>".toList.getLast? = some '>' := by decide
      rw [← append_assoc,getLast?_append_of_ne_nil _ (by decide),hlast]
  have hne : r.body ≠ [] := by
    intro he
    simp [he] at hbody
  have hpage : page (rs ++ [r]) = page rs ++ r.tag ++ r.body := by simp [page]
  rw [hpage,getLast?_append_of_ne_nil _ hne,hbody]

/-- A snippet that is spoken of in the links that follow takes the cursor past the first of them. -/
theorem later_next {titleEnd : List Char} {after : List Listing} {found : String × ℕ → Turn}
    (hhtml : html = titleEnd ++ ("</a>".toList ++ page after)) (hinside : "result-snippet".toList <:+: page after)
    {t : Option Turn} (hturn : t = (findResultSnippet html titleEnd.length).map found) :
    ∃ left snippet next, t = some (found (snippet,next)) ∧ titleEnd.length + 4 ≤ next ∧ At html next left ∧
      left <:+ after.tail := by
  have hfour : "</a>".toList.length = 4 := by decide
  have hlink : Clear "result-snippet".toList "</a>".toList := by decide
  have hne : after ≠ [] := by
    rintro rfl
    simp [page] at hinside
  obtain ⟨lead,hlead⟩ := exists_find hinside
  have hfind : find "result-snippet".toList ("</a>".toList ++ page after) = some (4 + lead) := by
    rw [find_clear hlink,hlead]
    rfl
  have hend : '>' ∈ ("</a>".toList ++ page after).drop (4 + lead) := by
    have hle := find_le hlead
    have hpos : 0 < "result-snippet".toList.length := by decide
    refine mem_of_getLast? ?_
    rw [getLast?_drop,if_neg (by rw [length_append]; omega),getLast?_append,
      mem_page_end hne]
    rfl
  obtain ⟨snippet,front,behind,hfound,hparts,hlt,hlanding⟩ := findResultSnippet_later hhtml hfind hend
  rcases append_eq_append_iff.mp hparts with ⟨a,rfl,hpage⟩ | ⟨y,hfront,-⟩
  · have hlanding' : Landing a behind := by
      refine hlanding.imp_left ?_
      rintro ⟨d,hd⟩
      have ha : a ≠ [] := by
        rintro rfl
        rw [append_nil] at hlt
        omega
      obtain ⟨e,f,rfl⟩ : ∃ e f, a = e ++ [f] := ⟨a.dropLast,a.getLast ha,(dropLast_append_getLast ha).symm⟩
      have hlast := congrArg List.getLast? hd
      simp only [← append_assoc,getLast?_concat,Option.some.injEq] at hlast
      exact ⟨e,by rw [hlast]⟩
    obtain ⟨x,left,hbehind,hx,hsuffix⟩ := page_landing hpage hlanding'
    refine ⟨left,snippet,_,by rw [hturn,hfound]; rfl,?_,⟨titleEnd ++ ("</a>".toList ++ a),x,?_,rfl,hx⟩,hsuffix⟩
    · rw [length_append]
      omega
    · rw [hhtml,hpage,hbehind]
      simp only [append_assoc]
  · have hlength := congrArg List.length hfront
    rw [length_append] at hlength
    omega

theorem turn_next (queryPairs : QueryPairs) (h : At html cursor rest) (hne : rest ≠ []) :
    ∃ before r after left snippet next, Next rest before r after ∧
      Found queryPairs html cursor r after left snippet next := by
  obtain ⟨before,r,after,hnext⟩ := exists_next hne
  have hle := h.le
  obtain ⟨front,x,hhtml,rfl,hx⟩ := h
  obtain ⟨k,hk,hfind⟩ := find_next hnext hx
  have hwhole : html = (front ++ (x ++ page before)) ++ (r.tag ++ (r.body ++ page after)) := by
    rw [hhtml,hnext.parts,page_append,page_cons]
    simp only [append_assoc]
  have hdrop : html.drop front.length = x ++ page rest := by rw [hhtml,drop_left]
  rw [← hdrop] at hfind
  have hturn := turn_link queryPairs hwhole hle hfind (by simp; omega) hk
  generalize htitleEnd : front ++ (x ++ page before) ++ r.tag ++ escapeHtml r.title = titleEnd at hturn
  have hbehind : html = titleEnd ++ ("</a>".toList ++ r.cell ++ page after) := by
    rw [hwhole,← htitleEnd]
    unfold Listing.body
    simp only [append_assoc]
  have hfour : "</a>".toList.length = 4 := by decide
  cases hsnippet : r.snippet with
  | some s =>
    obtain ⟨front',hfound,hfront,hlength⟩ := findResultSnippet_cell hsnippet hbehind
    rw [hfound,Option.map_some,Nat.max_eq_left hlength] at hturn
    have hfiller : Filler "</td>".toList := fun quote => by cases quote <;> decide
    refine ⟨before,r,after,after,_,_,hnext,hturn,⟨front',_,hfront,rfl,hfiller⟩,suffix_rfl,?_,?_,?_⟩
    · intro s' hs'
      rw [hsnippet,Option.some.injEq] at hs'
      exact ⟨by rw [hs'],rfl⟩
    · exact fun hnone => by simp [hsnippet] at hnone
    · exact fun hnone => by simp [hsnippet] at hnone
  | none =>
    have hcell : r.cell = [] := by
      unfold Listing.cell
      rw [hsnippet]
    rw [hcell] at hbehind
    have hlink : Clear "result-snippet".toList "</a>".toList := by decide
    by_cases hinside : "result-snippet".toList <:+: page after
    · obtain ⟨left,snippet,next,hturn,hlength,hat,hsuffix⟩ := later_next hbehind hinside hturn
      simp only [Nat.max_eq_left hlength] at hturn
      exact ⟨before,r,after,left,snippet,next,hnext,hturn,hat,hsuffix.trans (tail_suffix after),
        fun s hs => by simp [hsnippet] at hs,fun _ hp => absurd hinside hp,fun _ _ => hsuffix⟩
    · have hno : find "result-snippet".toList ("</a>".toList ++ page after) = none := by
        rw [find_clear hlink,find_eq_none hinside]
        rfl
      rw [findResultSnippet_none hbehind hno,Option.map_some,Nat.max_eq_right (by omega)] at hturn
      refine ⟨before,r,after,after,_,_,hnext,hturn,⟨titleEnd ++ "</a>".toList,[],?_,?_,fun _ => clear_nil⟩,
        suffix_rfl,?_,fun _ _ => ⟨rfl,rfl⟩,fun _ hp => absurd hp hinside⟩
      · rw [hbehind]
        simp only [append_assoc,nil_append]
      · rw [length_append,hfour]
      · exact fun s hs => by simp [hsnippet] at hs

end

/-! ## The results of a page -/

section
variable {queryPairs : QueryPairs} {html : List Char} {limit : ℕ}

variable {room cursor : ℕ} {rest : List Listing} {results : List SearchResult}

/-- Only links that are left are read. -/
theorem collect_urls {out : List SearchResult} (h : At html cursor rest)
    (hout : collect queryPairs html limit room cursor results = some out) :
    ∃ more, out = results ++ more ∧ ∀ item ∈ more, item.url ∈ rest.map (Listing.url queryPairs) := by
  induction room generalizing cursor rest results with
  | zero => simp [collect] at hout
  | succ room ih =>
    have hnothing : ∃ more, results = results ++ more ∧
        ∀ item ∈ more, item.url ∈ rest.map (Listing.url queryPairs) := ⟨[],by simp,by simp⟩
    rw [collect] at hout
    split_ifs at hout with hlimit
    · by_cases hne : rest = []
      · rw [hne] at h
        rw [turn_end h] at hout
        exact Option.some.inj hout ▸ hnothing
      · obtain ⟨before,r,after,left,snippet,next,hnext,hfound⟩ := turn_next queryPairs h hne
        have hsub : ∀ url ∈ left.map (Listing.url queryPairs), url ∈ rest.map (Listing.url queryPairs) := by
          intro url hurl
          rw [hnext.parts,map_append]
          exact mem_append_right _ (mem_cons_of_mem _ ((hfound.suffix.map _).subset hurl))
        have hr : r.url queryPairs ∈ rest.map (Listing.url queryPairs) := by simp [hnext.parts]
        rw [hfound.turn] at hout
        simp only at hout
        split_ifs at hout
        · obtain ⟨more,hmore,hurls⟩ := ih hfound.at_left hout
          exact ⟨more,hmore,fun item hitem => hsub _ (hurls item hitem)⟩
        · obtain ⟨more,hmore,hurls⟩ := ih hfound.at_left hout
          refine ⟨_ :: more,by rw [hmore,append_assoc,singleton_append],?_⟩
          rw [forall_mem_cons]
          exact ⟨hr,fun item hitem => hsub _ (hurls item hitem)⟩
    · exact Option.some.inj hout ▸ hnothing

/-- The addresses of the links are new ones, each one's own. -/
structure Fresh (queryPairs : QueryPairs) (results : List SearchResult) (rest : List Listing) : Prop where
  nonempty : ∀ r ∈ rest, r.url queryPairs ≠ ""
  nodup : (rest.map (Listing.url queryPairs)).Nodup
  new : ∀ r ∈ rest, ∀ item ∈ results, item.url ≠ r.url queryPairs

theorem Fresh.found {r : Listing} (h : Fresh queryPairs results (r :: rest)) {item : SearchResult}
    (hitem : item.url = r.url queryPairs) : Fresh queryPairs (results ++ [item]) rest where
  nonempty := (forall_mem_cons.mp h.nonempty).2
  nodup := (nodup_cons.mp h.nodup).2
  new := by
    intro r' hr' item' hitem'
    rcases mem_append.mp hitem' with hitem' | hitem'
    · exact h.new r' (mem_cons_of_mem _ hr') item' hitem'
    · rw [mem_singleton.mp hitem',hitem]
      intro he
      exact (nodup_cons.mp h.nodup).1 (he ▸ mem_map_of_mem hr')

theorem Fresh.not_any {r : Listing} (h : Fresh queryPairs results (r :: rest)) :
    ¬ results.any (·.url = r.url queryPairs) = true := by
  rw [any_eq_true]
  rintro ⟨item,hitem,he⟩
  exact h.new r mem_cons_self item hitem (of_decide_eq_true he)

/-- From a readable page the results are read one by one. -/
theorem collect_readable {out : List SearchResult} (h : At html cursor rest) (hreadable : Readable rest)
    (hfresh : Fresh queryPairs results rest) (hout : collect queryPairs html limit room cursor results = some out) :
    out = results ++ (expectedFrom queryPairs results.length rest).take (limit - results.length) := by
  induction room generalizing cursor rest results with
  | zero => simp [collect] at hout
  | succ room ih =>
    rw [collect] at hout
    split_ifs at hout with hlimit
    · cases rest with
      | nil =>
        rw [turn_end h] at hout
        simp [← Option.some.inj hout,expectedFrom]
      | cons r after =>
        obtain ⟨hquote,⟨htitle,hblank⟩,hsnippet,hafter⟩ := hreadable
        obtain ⟨before,r',after',left,snippet,next,hnext,hfound⟩ := turn_next queryPairs h
          (cons_ne_nil r after)
        obtain ⟨rfl,rfl,rfl⟩ := hnext.first hquote
        have hown : snippet = (r.snippet.map normalizeSpace).getD "" ∧ left = after := by
          cases hs : r.snippet with
          | some s =>
            rw [hs] at hsnippet
            obtain ⟨rfl,rfl⟩ := hfound.cell s hs
            exact ⟨(cleanHtmlText_escapeHtml_iff s).mpr hsnippet,rfl⟩
          | none =>
            rw [hs] at hsnippet
            exact hfound.alone hs hsnippet
        have hclean := (cleanHtmlText_escapeHtml_iff r.title).mpr htitle
        obtain ⟨hsnippet',rfl⟩ := hown
        have hnew := hfresh.not_any
        have hurl := hfresh.nonempty r mem_cons_self
        rw [hfound.turn,hclean] at hout
        simp only at hout
        rw [if_neg (not_or.mpr ⟨hblank,not_or.mpr ⟨hurl,hnew⟩⟩)] at hout
        rw [ih hfound.at_left hafter (hfresh.found rfl) hout,append_assoc,singleton_append,
          length_append,length_singleton]
        have hroom : limit - results.length = limit - (results.length + 1) + 1 := by omega
        rw [hroom,expectedFrom,take_succ_cons,hsnippet']
    · have hzero : limit - results.length = 0 := by omega
      simp [← Option.some.inj hout,hzero]

/-- Where every result is read the page is readable: a link that is passed over does not come back. -/
theorem readable_of_collect (h : At html cursor rest) (hfresh : Fresh queryPairs results rest)
    (hlimit : results.length + rest.length ≤ limit)
    (hout : collect queryPairs html limit room cursor results = some (results ++ expectedFrom queryPairs results.length
      rest)) :
    Readable rest := by
  induction rest generalizing room cursor results with
  | nil => trivial
  | cons r after ih =>
    have hmissing : ∀ {room cursor : ℕ} {left : List Listing}, At html cursor left → left <:+ after →
        collect queryPairs html limit room cursor results ≠
          some (results ++ expectedFrom queryPairs results.length (r :: after)) := by
      intro room cursor left hat hsuffix hcollect
      obtain ⟨more,hmore,hurls⟩ := collect_urls hat hcollect
      have hparts := append_cancel_left hmore
      rw [expectedFrom] at hparts
      have hmem := hurls _ (hparts ▸ mem_cons_self)
      exact (nodup_cons.mp hfresh.nodup).1 ((hsuffix.map _).subset hmem)
    cases room with
    | zero => simp [collect] at hout
    | succ room =>
      obtain ⟨before,r',after',left,snippet,next,hnext,hfound⟩ := turn_next queryPairs h (cons_ne_nil r after)
      rw [collect,if_pos (by rw [length_cons] at hlimit; omega),hfound.turn] at hout
      simp only at hout
      cases hbefore : before with
      | cons b before' =>
        -- the first link is passed over
        have hparts := hnext.parts
        rw [hbefore] at hparts
        obtain ⟨rfl,hafter⟩ := cons_eq_cons.mp hparts
        have hsuffix : left <:+ after := hfound.suffix.trans ⟨before' ++ [r'],by rw [hafter]; simp⟩
        have hr' : r' ∈ after := by simp [hafter]
        split_ifs at hout
        · exact absurd hout (hmissing hfound.at_left hsuffix)
        · obtain ⟨more,hmore,-⟩ := collect_urls hfound.at_left hout
          rw [append_assoc] at hmore
          have hurl := congrArg SearchResult.url (cons_eq_cons.mp (append_cancel_left hmore)).1
          have hurl' : r.url queryPairs = r'.url queryPairs := hurl
          exact absurd (hurl' ▸ mem_map_of_mem hr') (nodup_cons.mp hfresh.nodup).1
      | nil =>
        have hparts := hnext.parts
        rw [hbefore] at hparts
        obtain ⟨rfl,rfl⟩ := cons_eq_cons.mp hparts
        split_ifs at hout with hskipped
        · exact absurd hout (hmissing hfound.at_left hfound.suffix)
        · have hblank := (not_or.mp hskipped).1
          generalize hitem : SearchResult.mk (results.length + 1) (cleanHtmlText (escapeHtml r.title))
            (r.url queryPairs) snippet = item at hout
          obtain ⟨more,hmore,-⟩ := collect_urls hfound.at_left hout
          have hparts := hmore
          rw [append_assoc] at hparts
          have hown := (cons_eq_cons.mp (append_cancel_left hparts)).1
          have htitle : normalizeSpace r.title = cleanHtmlText (escapeHtml r.title) := by
            have h := hown.trans hitem.symm
            exact congrArg SearchResult.title h
          have hsnippet : (r.snippet.map normalizeSpace).getD "" = snippet := by
            have h := hown.trans hitem.symm
            exact congrArg SearchResult.snippet h
          have hurl : item.url = r.url queryPairs := hitem ▸ rfl
          have hlength : (results ++ [item]).length = results.length + 1 := by simp
          have hrest : collect queryPairs html limit room next (results ++ [item]) =
              some ((results ++ [item]) ++ expectedFrom queryPairs (results ++ [item]).length after) := by
            rw [hout,hlength,expectedFrom,hown,append_assoc,singleton_append]
          have hquote : r.classQuote = .single → ∀ r' ∈ after, r'.classQuote = .single := by
            intro hsingle r' hr'
            rcases hnext.quote with hdouble | ⟨-,hall⟩
            · simp [hsingle] at hdouble
            · exact hall r' (mem_cons_of_mem _ hr')
          have hlimit' : (results ++ [item]).length + after.length ≤ limit := by
            rw [length_cons] at hlimit
            omega
          have hready : left = after → Readable after := fun hleft =>
            ih (hleft ▸ hfound.at_left) (hfresh.found hurl) hlimit' hrest
          refine ⟨hquote,⟨(cleanHtmlText_escapeHtml_iff _).mp htitle.symm,htitle ▸ hblank⟩,?_⟩
          cases hs : r.snippet with
          | some s =>
            obtain ⟨hclean,hleft⟩ := hfound.cell s hs
            rw [hs] at hsnippet
            exact ⟨(cleanHtmlText_escapeHtml_iff s).mp (hclean.symm.trans hsnippet.symm),hready hleft⟩
          | none =>
            by_cases hinside : "result-snippet".toList <:+: page after
            · -- the next link is passed over
              exfalso
              cases after with
              | nil => simp [page] at hinside
              | cons r₂ after =>
                obtain ⟨more',hmore',hurls⟩ := collect_urls hfound.at_left hrest
                rw [expectedFrom] at hmore'
                have hmem := hurls _ ((append_cancel_left hmore') ▸ mem_cons_self)
                have hnodup := (nodup_cons.mp hfresh.nodup).2
                exact (nodup_cons.mp hnodup).1 (((hfound.later hs hinside).map _).subset hmem)
            · exact ⟨hinside,hready (hfound.alone hs hinside).2⟩

end

theorem length_expectedFrom (queryPairs : QueryPairs) (n : ℕ) (rs : List Listing) :
    (expectedFrom queryPairs n rs).length = rs.length := by
  induction rs generalizing n with
  | nil => rfl
  | cons r rs ih => simp [expectedFrom,ih]

/-- Every page is read to its end with slices in range, and its results have ranks in order and addresses of their own;
of listed results all are read, up to any limit, exactly when the page is readable. -/
theorem search_results_iff (queryPairs : QueryPairs) (html : List Char) (limit : ℕ) {rs : List Listing}
    (hurls : (rs.map (Listing.url queryPairs)).Nodup) (hnonempty : ∀ r ∈ rs, r.url queryPairs ≠ "") :
    (∃ results, parseSearchResults queryPairs html limit = some results ∧ Listed limit results) ∧
    ((∀ limit, parseSearchResults queryPairs (page rs) limit = some ((expectedFrom queryPairs 0 rs).take limit)) ↔
      Readable rs) := by
  have hat : At (page rs) 0 rs := ⟨[],[],rfl,rfl,fun _ => clear_nil⟩
  have hfresh : Fresh queryPairs [] rs := ⟨hnonempty,hurls,by simp⟩
  refine ⟨parseSearchResults_spec queryPairs html limit,fun h => ?_,fun h limit => ?_⟩
  · have hlength := length_expectedFrom queryPairs 0 rs
    have hall := h rs.length
    rw [← hlength,take_length] at hall
    exact readable_of_collect hat hfresh (Nat.le_of_eq (Nat.zero_add _)) (hlength ▸ hall)
  · obtain ⟨out,hout,-⟩ := parseSearchResults_spec queryPairs (page rs) limit
    rw [hout,collect_readable hat h hfresh hout]
    rfl

/-- Relative addresses are no URLs. -/
def relativeOnly : QueryPairs := fun _ => none

def linkTo (href : List Char) (quote : Quote) (plain : '"' ∉ href ∧ '<' ∉ href ∧ '>' ∉ href)
    (quoted : quote.char ∉ href) : Listing :=
  ⟨"Docs".toList,href,none,quote,quote,quote,true,plain,quoted⟩

def singleLink : Listing := linkTo "/a".toList .single (by decide) (by decide)

def doubleLink : Listing := linkTo "/b".toList .double (by decide) (by decide)

theorem search_results_two_links :
    (∃ results, parseSearchResults relativeOnly [] 5 = some results ∧ Listed 5 results) ∧
    ((∀ limit, parseSearchResults relativeOnly (page [doubleLink,singleLink]) limit =
        some ((expectedFrom relativeOnly 0 [doubleLink,singleLink]).take limit)) ↔ Readable [doubleLink,singleLink]) :=
  search_results_iff relativeOnly [] 5 (by decide +kernel) (by decide +kernel)

/-- A link in single quotes before one in double quotes is passed over. -/
theorem mixed_quotes_lose_a_result :
    parseSearchResults relativeOnly (page [singleLink,doubleLink]) 5 ≠
      some ((expectedFrom relativeOnly 0 [singleLink,doubleLink]).take 5) := by
  decide +kernel

end Mxterm.AiWeb
