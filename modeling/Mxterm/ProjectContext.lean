import Mathlib.Data.List.Forall2
import Mxterm.MaximalRuns
import Mxterm.TextLines

/-! What an agent's model is shown of the files of a project (`ai_agent.rs`): the lines that hold secrets and the
private addresses are taken out. -/
namespace Mxterm.ProjectContext

open MaximalRuns List Text

/-! ## The sanitizing -/

/-- `parse::<u8>` -/
def parseU8 (part : List Char) : Option ℕ :=
  let digits := if part.head? = some '+' then part.tail else part
  let value := Nat.ofDigitChars 10 digits 0
  if digits ≠ [] ∧ digits.all Char.isDigit ∧ value < 256 then some value else none

def isPrivate (candidate : List Char) : Bool :=
  match (candidate.splitOn '.').mapM parseU8 with
  | some [a,b,_,_] => a == 10 || (a == 192 && b == 168) || (a == 172 && 16 ≤ b && b ≤ 31)
  | _ => false

def isAddressChar (c : Char) : Bool := c.isDigit || c == '.'

def privateMark : List Char := "<private-ip>".toList

/-- What `redact_private_ip_tokens` makes of one word. -/
def redactToken (token : List Char) : List Char :=
  match token.dropWhile (!·.isDigit) with
  | [] => token
  | found =>
    let candidate := found.takeWhile isAddressChar
    if isPrivate candidate then token.takeWhile (!·.isDigit) ++ privateMark ++ found.dropWhile isAddressChar
    else token

def redactPrivateIpTokens (line : String) : String :=
  String.ofList ((splitInclusive isWhitespace line.toList).map redactToken).flatten

def separators : List Char := ['=',':','：']

def markers : List String :=
  ["api_key","apikey","password","passwd","secret","token","private_key","credential"]

def hiddenLine : String := "[已隐藏敏感配置行]"

def isSensitive (line : String) : Bool :=
  let lower := toAsciiLowercase line
  line.toList.any separators.contains && markers.any (contains lower)

def sanitizeLine (line : String) : String := if isSensitive line then hiddenLine else redactPrivateIpTokens line

def sanitizeProjectContext (value : String) : String := join ((lines value).map sanitizeLine)

/-! ## What it is for -/

/-- The line without its private addresses: the maximal runs of digits and dots that are one. -/
def redactAll (line : String) : String := String.ofList (markRuns isAddressChar isPrivate privateMark line.toList)

/-- The line gives a value to a name with a marker in it. -/
def Assigns (line : String) : Prop :=
  ∃ name separator value, line.toList = name ++ separator :: value ∧ separator ∈ separators ∧
    markers.any (contains (toAsciiLowercase (String.ofList name)))

/-- A line that keeps no secret and no private address, and is otherwise as it was. -/
structure SanitizedLine (line out : String) : Prop where
  hidden : Assigns line → out = hiddenLine
  shown : isSensitive line = false → out = redactAll line
  either : out = hiddenLine ∨ out = redactAll line
  addresses : ∀ run ∈ runs isAddressChar out.toList, isPrivate run = false

def Sanitized (value out : String) : Prop :=
  ∃ outs, out = join outs ∧ List.Forall₂ SanitizedLine (lines value) outs

/-- Every private address of the word is the run that holds its first digit, and begins with that digit. -/
def FirstRunOnly (token : List Char) : Prop :=
  let found := token.dropWhile (!·.isDigit)
  (isPrivate (found.takeWhile isAddressChar) → (token.takeWhile (!·.isDigit)).getLast? ≠ some '.') ∧
    ∀ run ∈ runs isAddressChar (found.dropWhile isAddressChar), isPrivate run = false

/-! ## Addresses -/

theorem isPrivate_nil : isPrivate [] = false := by decide

theorem isPrivate_dot (l : List Char) : isPrivate ('.' :: l) = false := by
  have hparse : parseU8 [] = none := by decide
  simp [isPrivate,splitOn_cons_eq_if_modifyHead,hparse]

variable {c : Char}

theorem isAddressChar_iff : isAddressChar c ↔ c.isDigit ∨ c = '.' := by simp [isAddressChar]

theorem not_isAddressChar_of_isWhitespace (h : isWhitespace c) : isAddressChar c = false := by
  rw [Bool.eq_false_iff]
  intro hc
  rcases isAddressChar_iff.mp hc with hdigit | rfl
  · have hrange : 48 ≤ c.toNat ∧ c.toNat ≤ 57 := by
      simpa [Char.isDigit,UInt32.le_iff_toNat_le] using hdigit
    simp only [isWhitespace,Bool.or_eq_true,Bool.and_eq_true,beq_iff_eq,decide_eq_true_eq] at h
    omega
  · exact absurd h (by decide)

theorem not_isAddressChar_of_mem_mark : ∀ c ∈ privateMark, isAddressChar c = false := by
  have h : privateMark.all (!isAddressChar ·) := by decide
  simpa using h

theorem privateMark_cons : privateMark = '<' :: "private-ip>".toList := by decide

theorem not_isWhitespace_of_mem_mark : ∀ c ∈ privateMark, isWhitespace c = false := by
  have h : privateMark.all (!isWhitespace ·) := by decide
  simpa using h

/-- No address is private in a text without digits. -/
theorem good_of_no_digit {front : List Char} (h : ∀ c ∈ front, c.isDigit = false) :
    ∀ run ∈ runs isAddressChar front, isPrivate run = false := by
  intro run hrun
  obtain ⟨hne,hall⟩ := of_mem_runs hrun
  cases run with
  | nil => exact absurd rfl hne
  | cons c run =>
    obtain ⟨hc,hmem⟩ := hall c mem_cons_self
    have hdot : c = '.' := by simpa [isAddressChar,h c hmem] using hc
    rw [hdot]
    exact isPrivate_dot run

/-! ## One word -/

/-- A word's text before its first digit, the run that begins there and the rest. -/
structure Parts (front candidate after : List Char) : Prop where
  noDigit : ∀ c ∈ front, c.isDigit = false
  run : ∀ c ∈ candidate, isAddressChar c
  digit : ∀ c ∈ candidate.head?, c.isDigit
  starts : Starts isAddressChar after

theorem parts (token : List Char) :
    Parts (token.takeWhile (!·.isDigit)) ((token.dropWhile (!·.isDigit)).takeWhile isAddressChar)
      ((token.dropWhile (!·.isDigit)).dropWhile isAddressChar) where
  noDigit c hc := by simpa using mem_takeWhile_imp hc
  run c hc := mem_takeWhile_imp hc
  digit c hc := by
    have h := head?_dropWhile_not (!·.isDigit) token
    cases hfound : token.dropWhile (!·.isDigit) with
    | nil => simp [hfound] at hc
    | cons d found =>
      have hd : d.isDigit := by simpa [hfound] using h
      have hrun : isAddressChar d := isAddressChar_iff.mpr (.inl hd)
      simp only [hfound,takeWhile_cons_of_pos hrun,head?_cons,Option.mem_def,Option.some.injEq] at hc
      exact hc ▸ hd
  starts := starts_dropWhile _

theorem parts_append (token : List Char) :
    token.takeWhile (!·.isDigit) ++ ((token.dropWhile (!·.isDigit)).takeWhile isAddressChar ++
      (token.dropWhile (!·.isDigit)).dropWhile isAddressChar) = token := by
  rw [takeWhile_append_dropWhile,takeWhile_append_dropWhile]

variable {front candidate after : List Char}

theorem Parts.stops (h : Parts front candidate after) (hdot : front.getLast? ≠ some '.') :
    Stops isAddressChar front := by
  intro c hc
  have hdigit := h.noDigit c (mem_of_getLast? hc)
  have hne : c ≠ '.' := fun he => hdot (he ▸ hc)
  simp [isAddressChar,hdigit,hne]

/-- The candidate is no address, or a dot before it makes it none: nothing up to its end is private. -/
theorem Parts.good (h : Parts front candidate after)
    (hcandidate : isPrivate candidate = false ∨ front.getLast? = some '.') :
    ∀ run ∈ runs isAddressChar (front ++ candidate), isPrivate run = false := by
  by_cases hdot : front.getLast? = some '.'
  · -- the run reaches back over the dots before the candidate
    have hfront : front.rdropWhile isAddressChar ++ front.rtakeWhile isAddressChar = front :=
      rdropWhile_append_rtakeWhile
    have hstops : Stops isAddressChar (front.rdropWhile isAddressChar) := stops_rdropWhile front
    rw [← hfront,append_assoc,runs_append_of_stops hstops]
    cases hdots : front.rtakeWhile isAddressChar with
    | nil =>
      rw [hdots,append_nil] at hfront
      rw [hfront] at hstops
      exact absurd (hstops '.' hdot) (by decide)
    | cons c dots =>
      have hmem : c ∈ front.rtakeWhile isAddressChar := hdots ▸ mem_cons_self
      have hrun := mem_rtakeWhile_imp hmem
      have hdigit := h.noDigit c ((rtakeWhile_suffix _ _).subset hmem)
      have hc : c = '.' := by simpa [isAddressChar,hdigit] using hrun
      have hall : ∀ d ∈ (c :: dots) ++ candidate, isAddressChar d := by
        intro d hd
        rcases mem_append.mp hd with hd | hd
        · exact mem_rtakeWhile_imp (hdots ▸ hd)
        · exact h.run d hd
      rw [runs_of_forall (by simp) hall]
      intro run hrun
      rcases mem_append.mp hrun with hrun | hrun
      · exact good_of_no_digit (fun d hd => h.noDigit d (( rdropWhile_prefix _ _).subset hd)) run hrun
      · rw [mem_singleton.mp hrun,hc]
        exact isPrivate_dot _
  · have hgood := hcandidate.resolve_right hdot
    rw [runs_append_of_stops (h.stops hdot)]
    intro run hrun
    rcases mem_append.mp hrun with hrun | hrun
    · exact good_of_no_digit h.noDigit run hrun
    · by_cases hne : candidate = []
      · simp [hne] at hrun
      · rw [runs_of_forall hne h.run,mem_singleton] at hrun
        rw [hrun,hgood]

/-- The text up to the candidate's end, marked, where the candidate is an address on its own. -/
theorem Parts.marked (h : Parts front candidate after) (hcandidate : isPrivate candidate)
    (hdot : front.getLast? ≠ some '.') :
    markRuns isAddressChar isPrivate privateMark (front ++ candidate) = front ++ privateMark := by
  have hne : candidate ≠ [] := fun he => by simp [he,isPrivate_nil] at hcandidate
  rw [markRuns_append_of_stops (h.stops hdot),markRuns_of_good (good_of_no_digit h.noDigit),
    markRuns_of_forall hne h.run,if_pos hcandidate]

theorem redactToken_parts (token : List Char) :
    redactToken token =
      if isPrivate ((token.dropWhile (!·.isDigit)).takeWhile isAddressChar) then
        token.takeWhile (!·.isDigit) ++ privateMark ++ (token.dropWhile (!·.isDigit)).dropWhile isAddressChar
      else token := by
  unfold redactToken
  cases token.dropWhile (!·.isDigit) with
  | nil => simp [isPrivate_nil]
  | cons c found => rfl

/-- One word is redacted as it should be exactly when its first run is its only address. -/
theorem redactToken_eq_iff (token : List Char) :
    redactToken token = markRuns isAddressChar isPrivate privateMark token ↔ FirstRunOnly token := by
  have hmark : Starts isAddressChar privateMark := fun c hc =>
    not_isAddressChar_of_mem_mark c (mem_of_mem_head? hc)
  have hne : privateMark ≠ [] := by decide
  rw [redactToken_parts,FirstRunOnly]
  have hparts := parts token
  have htoken := parts_append token
  generalize token.takeWhile (!·.isDigit) = front at hparts htoken ⊢
  generalize (token.dropWhile (!·.isDigit)).takeWhile isAddressChar = candidate at hparts htoken ⊢
  generalize (token.dropWhile (!·.isDigit)).dropWhile isAddressChar = after at hparts htoken ⊢
  have hspec : markRuns isAddressChar isPrivate privateMark token =
      markRuns isAddressChar isPrivate privateMark (front ++ candidate) ++
        markRuns isAddressChar isPrivate privateMark after := by
    rw [← htoken,← append_assoc,markRuns_append hparts.starts]
  rw [hspec,← markRuns_eq_self_iff hne hmark after]
  by_cases hcandidate : isPrivate candidate
  · rw [if_pos hcandidate]
    by_cases hdot : front.getLast? = some '.'
    · -- the mark stands where the candidate's first digit should
      rw [markRuns_of_good (hparts.good (.inr hdot))]
      have hdiffer : front ++ privateMark ++ after ≠
          front ++ candidate ++ markRuns isAddressChar isPrivate privateMark after := by
        rw [append_assoc,append_assoc]
        intro h
        have htail := append_cancel_left h
        cases candidate with
        | nil => simp [isPrivate_nil] at hcandidate
        | cons c candidate =>
          have hc : c.isDigit := hparts.digit c rfl
          rw [privateMark_cons,cons_append,cons_append,cons_eq_cons] at htail
          exact absurd (htail.1 ▸ hc) (by decide)
      exact iff_of_false hdiffer fun h => h.1 hcandidate hdot
    · rw [hparts.marked hcandidate hdot,append_cancel_left_eq]
      exact ⟨fun h => ⟨fun _ => hdot,h.symm⟩,fun h => h.2.symm⟩
  · have hgood : isPrivate candidate = false := by simpa using hcandidate
    rw [if_neg hcandidate,markRuns_of_good (hparts.good (.inl hgood))]
    conv_lhs => lhs; rw [← htoken,← append_assoc]
    rw [append_cancel_left_eq]
    exact ⟨fun h => ⟨fun hbad => absurd hbad hcandidate,h.symm⟩,fun h => h.2.symm⟩

/-! ## One line -/

theorem redactToken_append (word : List Char) (hc : isWhitespace c) :
    redactToken (word ++ [c]) = redactToken word ++ [c] := by
  have hrun := not_isAddressChar_of_isWhitespace hc
  have hdigit : c.isDigit = false := by
    rw [Bool.eq_false_iff]
    exact fun h => by simp [isAddressChar,h] at hrun
  rw [redactToken_parts,redactToken_parts]
  have hstarts : Starts isAddressChar [c] := Starts.cons hrun []
  by_cases hword : ∀ d ∈ word, d.isDigit = false
  · have hnone : word.dropWhile (!·.isDigit) = [] := dropWhile_eq_nil_iff.mpr (by simpa using hword)
    have hnone' : (word ++ [c]).dropWhile (!·.isDigit) = [] := dropWhile_eq_nil_iff.mpr (by
      simpa [or_imp,forall_and,hdigit] using hword)
    simp [hnone,hnone',isPrivate_nil]
  · have hsome : word.dropWhile (!·.isDigit) ≠ [] := by
      simpa using hword
    have hdrop : (word ++ [c]).dropWhile (!·.isDigit) = word.dropWhile (!·.isDigit) ++ [c] := by
      simp [dropWhile_append,hsome]
    have htake : (word ++ [c]).takeWhile (!·.isDigit) = word.takeWhile (!·.isDigit) := by
      have hboth : (word ++ [c]).takeWhile (!·.isDigit) ++ (word.dropWhile (!·.isDigit) ++ [c]) =
          word.takeWhile (!·.isDigit) ++ (word.dropWhile (!·.isDigit) ++ [c]) := by
        rw [← hdrop,takeWhile_append_dropWhile,hdrop,← append_assoc,takeWhile_append_dropWhile]
      exact append_cancel_right hboth
    rw [hdrop,htake,takeWhile_append_of_starts hstarts,dropWhile_append_of_starts hstarts]
    split <;> simp

theorem mem_redactToken {token : List Char} (h : c ∈ redactToken token) : c ∈ token ∨ c ∈ privateMark := by
  rw [redactToken_parts] at h
  split at h
  · simp only [mem_append] at h
    rcases h with (h | h) | h
    · exact .inl (( takeWhile_prefix _).subset h)
    · exact .inr h
    · exact .inl ((dropWhile_suffix _).subset ((dropWhile_suffix _).subset h))
  · exact .inl h

theorem keepsEnds_redactToken : KeepsEnds isWhitespace redactToken where
  ended word c hword hc := by
    refine ⟨redactToken word,fun d hd => ?_,redactToken_append word hc⟩
    rcases mem_redactToken hd with hd | hd
    · exact hword d hd
    · exact not_isWhitespace_of_mem_mark d hd

theorem keepsEnds_markRuns :
    KeepsEnds isWhitespace (markRuns isAddressChar isPrivate privateMark) where
  ended word c hword hc := by
    have hrun := not_isAddressChar_of_isWhitespace hc
    refine ⟨markRuns isAddressChar isPrivate privateMark word,fun d hd => ?_,?_⟩
    · rcases mem_markRuns hd with hd | hd
      · exact hword d hd
      · exact not_isWhitespace_of_mem_mark d hd
    · rw [markRuns_append (Starts.cons hrun [])]
      simp [markRuns,mapRuns_cons_of_neg hrun]

theorem redactPrivateIpTokens_eq_iff (line : String) :
    redactPrivateIpTokens line = redactAll line ↔
      ∀ token ∈ splitInclusive isWhitespace line.toList, FirstRunOnly token := by
  have hends : ∀ c, isWhitespace c → isAddressChar c = false := fun c =>
    not_isAddressChar_of_isWhitespace
  rw [redactPrivateIpTokens,redactAll,String.ofList_inj,markRuns_eq_flatten hends,
    flatten_map_eq_iff keepsEnds_redactToken keepsEnds_markRuns]
  exact forall₂_congr fun token _ => redactToken_eq_iff token

variable {line : String}

/-- A line that gives a value to a marked name is a sensitive one. -/
theorem isSensitive_of_assigns (h : Assigns line) : isSensitive line := by
  obtain ⟨name,separator,value,hline,hseparator,hname⟩ := h
  obtain ⟨marker,hmarker,hcontains⟩ := any_eq_true.mp hname
  have hlower : (toAsciiLowercase line).toList =
      (toAsciiLowercase (String.ofList name)).toList ++ (separator :: value).map Char.toLower := by
    simp [toAsciiLowercase,hline]
  rw [isSensitive,Bool.and_eq_true,any_eq_true,any_eq_true]
  refine ⟨⟨separator,by simp [hline],by simpa using hseparator⟩,marker,hmarker,?_⟩
  rw [contains_iff] at hcontains ⊢
  rw [hlower]
  exact hcontains.trans (infix_append' [] _ _)

theorem runs_redactAll (line : String) :
    ∀ run ∈ runs isAddressChar (redactAll line).toList, isPrivate run = false := by
  intro run hrun
  rw [redactAll,String.toList_ofList,runs_markRuns not_isAddressChar_of_mem_mark,mem_filter] at hrun
  simpa using hrun.2

/-- A line comes out as it should when it is hidden or every word of it is redacted as it should be. -/
theorem sanitizedLine_iff (line : String) :
    SanitizedLine line (sanitizeLine line) ↔
      (isSensitive line = false →
        ∀ token ∈ splitInclusive isWhitespace line.toList, FirstRunOnly token) := by
  rw [← redactPrivateIpTokens_eq_iff]
  constructor
  · intro h hsensitive
    rw [← h.shown hsensitive,sanitizeLine,if_neg (by simp [hsensitive])]
  · intro h
    by_cases hsensitive : isSensitive line
    · have hout : sanitizeLine line = hiddenLine := if_pos hsensitive
      rw [hout]
      refine ⟨fun _ => rfl,fun hnot => by simp [hsensitive] at hnot,.inl rfl,fun run hrun => ?_⟩
      have hnone : hiddenLine.toList.all (!isAddressChar ·) := by decide
      rw [runs_eq_nil (by simpa using hnone)] at hrun
      exact absurd hrun not_mem_nil
    · have hout : sanitizeLine line = redactAll line := by
        rw [← h (by simpa using hsensitive)]
        exact if_neg hsensitive
      rw [hout]
      exact ⟨fun hassigns => absurd (isSensitive_of_assigns hassigns) hsensitive,fun _ => rfl,.inr rfl,
        runs_redactAll line⟩

/-! ## The text -/

theorem SanitizedLine.no_newline {out : String} (h : SanitizedLine line out) (hline : '\n' ∉ line.toList) :
    '\n' ∉ out.toList := by
  rcases h.either with rfl | rfl
  · decide
  · intro hmem
    rw [redactAll,String.toList_ofList] at hmem
    rcases mem_markRuns hmem with hmem | hmem
    · exact hline hmem
    · exact absurd hmem (by decide)

theorem sanitizeLine_no_newline (hline : '\n' ∉ line.toList) : '\n' ∉ (sanitizeLine line).toList := by
  rw [sanitizeLine]
  split
  · decide
  · rw [redactPrivateIpTokens,String.toList_ofList]
    intro hmem
    obtain ⟨piece,hpiece,hmem⟩ := mem_flatten.mp hmem
    obtain ⟨token,htoken,rfl⟩ := mem_map.mp hpiece
    rcases mem_redactToken hmem with hmem | hmem
    · exact hline (mem_of_mem_splitInclusive htoken hmem)
    · exact absurd hmem (by decide)

/-- The text that an agent's model is shown keeps private addresses out, and is the file's own elsewhere, exactly when
in every line shown each word's addresses are the run of its first digit. -/
theorem sanitized_iff (value : String) :
    Sanitized value (sanitizeProjectContext value) ↔
      ∀ line ∈ lines value, isSensitive line = false →
        ∀ token ∈ splitInclusive isWhitespace line.toList, FirstRunOnly token := by
  have hlines : ∀ line ∈ lines value, '\n' ∉ line.toList := fun line =>
    newline_not_mem_of_mem_lines
  constructor
  · rintro ⟨outs,hjoin,houts⟩ line hline
    have hnewlines : ∀ out ∈ outs, '\n' ∉ out.toList := by
      clear hjoin
      generalize lines value = ls at hlines houts
      induction houts with
      | nil => simp
      | cons hout _ ih =>
        obtain ⟨hfirst,hothers⟩ := forall_mem_cons.mp hlines
        exact forall_mem_cons.mpr ⟨hout.no_newline hfirst,ih hothers⟩
    have hnewlines' : ∀ out ∈ (lines value).map sanitizeLine, '\n' ∉ out.toList := by
      intro out hout
      obtain ⟨line,hline,rfl⟩ := mem_map.mp hout
      exact sanitizeLine_no_newline (hlines line hline)
    have heq : (lines value).map sanitizeLine = outs :=
      join_inj hnewlines' hnewlines (by simpa using houts.length_eq) hjoin
    rw [← heq,forall₂_map_right_iff,forall₂_same] at houts
    exact (sanitizedLine_iff line).mp (houts line hline)
  · intro h
    refine ⟨(lines value).map sanitizeLine,rfl,?_⟩
    rw [forall₂_map_right_iff,forall₂_same]
    exact fun line hline => (sanitizedLine_iff line).mpr (h line hline)

theorem list_keeps_second_address :
    ¬ Sanitized "10.0.0.1,10.0.0.2" (sanitizeProjectContext "10.0.0.1,10.0.0.2") := by
  have hout : sanitizeProjectContext "10.0.0.1,10.0.0.2" = "<private-ip>,10.0.0.2" := by decide
  rintro ⟨outs,hjoin,houts⟩
  cases houts with
  | cons hline hnil =>
    cases hnil
    rename_i out
    have h : out = "<private-ip>,10.0.0.2" := by simpa [join,hout] using hjoin.symm
    have hrun : "10.0.0.2".toList ∈ runs isAddressChar out.toList := by simp [h,runs,isAddressChar]
    exact absurd (hline.addresses _ hrun) (by decide)

end Mxterm.ProjectContext
