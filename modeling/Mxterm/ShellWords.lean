import Mathlib.Data.List.Basic

/-! The words of a simple command of the POSIX shell: word splitting and quote removal. A line with an operator or an
expansion is not such a command. -/
namespace Mxterm.ShellWords

open List

/-- A character of a word, and whether it was quoted. -/
abbrev Mark := Char × Bool

def isBlank (c : Char) : Bool := c == ' ' || c == '\t'

/-- The characters that mean something else than themselves where they are not quoted. -/
def isSpecial (c : Char) : Bool := c ∈ ['\n','|','&',';','<','>','(',')','$','`','*','?','[','~','#','!','{','}']

/-- The characters before which a backslash quotes between double quotes. -/
def isEscapable (c : Char) : Bool := c ∈ ['$','`','"','\\']

inductive Mode
  | between | plain | single | double

/-- The words of a line, from the word that has been begun on. -/
def lex : Mode → List Mark → List Char → Option (List (List Mark))
  | .between, _, [] => some []
  | .plain, word, [] => some [word]
  | .single, _, [] => none
  | .double, _, [] => none
  | .between, _, '\\' :: c :: rest => if c = '\n' then none else lex .plain [(c,true)] rest
  | .plain, word, '\\' :: c :: rest => if c = '\n' then none else lex .plain (word ++ [(c,true)]) rest
  | .double, word, '\\' :: c :: rest =>
    if c = '\n' then none
    else if isEscapable c then lex .double (word ++ [(c,true)]) rest
    else lex .double (word ++ [('\\',true),(c,true)]) rest
  | .single, word, c :: rest =>
    if c = '\'' then lex .plain word rest else lex .single (word ++ [(c,true)]) rest
  | .double, word, c :: rest =>
    if c = '"' then lex .plain word rest
    else if c = '$' ∨ c = '`' ∨ c = '\\' then none
    else lex .double (word ++ [(c,true)]) rest
  | .between, _, c :: rest =>
    if isBlank c then lex .between [] rest
    else if c = '\'' then lex .single [] rest
    else if c = '"' then lex .double [] rest
    else if isSpecial c || c = '\\' then none
    else lex .plain [(c,false)] rest
  | .plain, word, c :: rest =>
    if isBlank c then (lex .between [] rest).map (word :: ·)
    else if c = '\'' then lex .single word rest
    else if c = '"' then lex .double word rest
    else if isSpecial c || c = '\\' then none
    else lex .plain (word ++ [(c,false)]) rest

/-- The words of a line that is a simple command. -/
def split (line : List Char) : Option (List (List Mark)) := lex .between [] line

/-- What a word is when its quotes are removed. -/
def value (word : List Mark) : List Char := word.map Prod.fst

def isNameChar (c : Char) : Bool := c.isAlphanum || c == '_'

/-- A word that assigns a value to a name in front of the command's own words. -/
def assignment? (word : List Mark) : Option (List Char × List Char) :=
  let name := word.takeWhile fun mark => ! mark.2 && isNameChar mark.1
  match value name, word.drop name.length with
  | first :: letters, ('=',false) :: rest =>
    if first.isDigit then none else some (first :: letters,value rest)
  | _, _ => none

/-- A simple command: what is assigned for it, and its own words. -/
structure Command where
  assigned : List (List Char × List Char)
  argv : List (List Char)
  deriving DecidableEq

def toCommand : List (List Mark) → Command
  | [] => ⟨[],[]⟩
  | word :: words =>
    match assignment? word with
    | some assigned => { toCommand words with assigned := assigned :: (toCommand words).assigned }
    | none => ⟨[],(word :: words).map value⟩

/-- A line as a simple command. -/
def read (line : List Char) : Option Command := (split line).map toCommand

/-- A line that ends in a duplication of a descriptor, such as `2>&1`: its command, and the two descriptors. -/
def readDuplicated (line : List Char) : Option (Command × Char × Char) :=
  match line.reverse with
  | target :: '&' :: '>' :: source :: ' ' :: rest =>
    if source.isDigit && target.isDigit then (read rest.reverse).map (·,source,target) else none
  | _ => none

theorem readDuplicated_append (line : List Char) {source target : Char} (hsource : source.isDigit = true)
    (htarget : target.isDigit = true) :
    readDuplicated (line ++ [' ',source,'>','&',target]) = (read line).map (·,source,target) := by
  simp [readDuplicated,hsource,htarget]

/-! ## What spells a word -/

/-- A text that stands for the marks inside a word. -/
def Spells (text : List Char) (marks : List Mark) : Prop :=
  ∀ word rest, lex .plain word (text ++ rest) = lex .plain (word ++ marks) rest

/-- A character that stands for itself. -/
def isOrdinary (c : Char) : Bool := ! isBlank c && ! isSpecial c && ! isEscapable c && c != '\''

/-- What a quoted text stands for. -/
def quoted (text : List Char) : List Mark := text.map (·,true)

def unquoted (text : List Char) : List Mark := text.map (·,false)

@[simp] theorem value_quoted (text : List Char) : value (quoted text) = text := by
  simp [value,quoted,Function.comp_def]

@[simp] theorem value_unquoted (text : List Char) : value (unquoted text) = text := by
  simp [value,unquoted,Function.comp_def]

theorem spells_nil : Spells [] [] := by
  intro word rest
  rw [append_nil,nil_append]

theorem Spells.append {a b : List Char} {l m : List Mark} (ha : Spells a l) (hb : Spells b m) :
    Spells (a ++ b) (l ++ m) := by
  intro word rest
  rw [append_assoc,ha,hb,append_assoc]

variable {c : Char}

theorem lex_ordinary (h : isOrdinary c = true) (word : List Mark) (rest : List Char) :
    lex .plain word (c :: rest) = lex .plain (word ++ [(c,false)]) rest := by
  simp only [isOrdinary,isEscapable,Bool.and_eq_true,Bool.not_eq_true',bne_iff_ne,ne_eq,decide_eq_false_iff_not,
    mem_cons,not_mem_nil,or_false,not_or] at h
  rw [lex.eq_def]
  all_goals simp_all

variable {text : List Char}

theorem spells_ordinary (h : ∀ c ∈ text, isOrdinary c = true) : Spells text (unquoted text) := by
  induction text with
  | nil => exact spells_nil
  | cons c text ih =>
    intro word rest
    rw [cons_append,lex_ordinary (h c mem_cons_self),ih fun d hd => h d (mem_cons_of_mem c hd)]
    simp [unquoted]

/-- What stands between single quotes, with each quote left and entered again around its own spelling. -/
def escapeQuotes (text : List Char) : List Char :=
  text.flatMap fun c => if c = '\'' then ['\'','\\','\'','\''] else [c]

theorem lex_single (text : List Char) (word : List Mark) (rest : List Char) :
    lex .single word (escapeQuotes text ++ '\'' :: rest) = lex .plain (word ++ quoted text) rest := by
  induction text generalizing word with
  | nil => simp [escapeQuotes,quoted,lex]
  | cons c text ih =>
    have hcons : escapeQuotes (c :: text) =
        (if c = '\'' then ['\'','\\','\'','\''] else [c]) ++ escapeQuotes text := flatMap_cons
    have hmarks : word ++ quoted (c :: text) = (word ++ [(c,true)]) ++ quoted text := by simp [quoted]
    rw [hcons,hmarks,← ih]
    by_cases hquote : c = '\''
    · subst hquote
      simp [lex,isBlank]
    · simp [lex,hquote]

theorem spells_single (text : List Char) : Spells ('\'' :: (escapeQuotes text ++ ['\''])) (quoted text) := by
  intro word rest
  have hquote : lex .plain word ('\'' :: (escapeQuotes text ++ '\'' :: rest)) =
      lex .single word (escapeQuotes text ++ '\'' :: rest) := by
    rw [lex.eq_def]
    simp [isBlank]
  simpa using hquote.trans (lex_single text word rest)

/-! ## Words in a row -/

/-- A text that is a whole word. -/
structure IsWord (text : List Char) (word : List Mark) : Prop where
  spells : Spells text word
  begins : ∃ c rest, text = c :: rest ∧ isBlank c = false

theorem isBlank_of_isOrdinary (h : isOrdinary c = true) : isBlank c = false := by
  simp only [isOrdinary,Bool.and_eq_true,Bool.not_eq_true'] at h
  exact h.1.1.1

theorem isWord_ordinary (h : text.all isOrdinary = true) (hne : text ≠ []) : IsWord text (unquoted text) := by
  obtain ⟨c,rest,rfl⟩ := exists_cons_of_ne_nil hne
  have hall := all_eq_true.mp h
  exact ⟨spells_ordinary hall,c,rest,rfl,isBlank_of_isOrdinary (hall c mem_cons_self)⟩

theorem isWord_single (text : List Char) : IsWord ('\'' :: (escapeQuotes text ++ ['\''])) (quoted text) :=
  ⟨spells_single text,_,_,rfl,rfl⟩

/-- What stands behind a word continues it. -/
theorem IsWord.append {a b : List Char} {l m : List Mark} (ha : IsWord a l) (hb : Spells b m) :
    IsWord (a ++ b) (l ++ m) := by
  obtain ⟨c,rest,rfl,hc⟩ := ha.begins
  exact ⟨ha.spells.append hb,c,rest ++ b,rfl,hc⟩

theorem lex_between (h : isBlank c = false) (rest : List Char) :
    lex .between [] (c :: rest) = lex .plain [] (c :: rest) := by
  rw [lex.eq_def,lex.eq_def]
  split <;> simp_all

theorem IsWord.lex {word : List Mark} (h : IsWord text word) (rest : List Char) :
    lex .between [] (text ++ rest) = lex .plain word rest := by
  obtain ⟨c,tail,rfl,hblank⟩ := h.begins
  rw [cons_append,lex_between hblank,← cons_append,h.spells,nil_append]

/-- Words with a space between each two. -/
theorem split_words {texts : List (List Char)} {words : List (List Mark)} (h : List.Forall₂ IsWord texts words) :
    split ([' '].intercalate texts) = some words := by
  induction h with
  | nil => rfl
  | cons hword hwords ih =>
    cases hwords with
    | nil => simpa [split,lex] using hword.lex []
    | cons hnext hrest =>
      rw [intercalate_cons_cons,split,append_assoc,hword.lex]
      exact congrArg (Option.map (_ :: ·)) ih

/-! ## Commands -/

/-- A valid name in front of `=`. -/
structure IsName (name : List Char) : Prop where
  letters : name.all isNameChar = true
  begins : ∃ first rest, name = first :: rest ∧ first.isDigit = false

theorem assignment?_name {name : List Char} (h : IsName name) (word : List Mark) :
    assignment? (unquoted name ++ ('=',false) :: word) = some (name,value word) := by
  have htake : (unquoted name ++ ('=',false) :: word).takeWhile (fun mark => ! mark.2 && isNameChar mark.1) =
      unquoted name := by
    rw [takeWhile_append_of_pos]
    · simp [isNameChar]
    · intro mark hmark
      obtain ⟨c,hc,rfl⟩ := mem_map.mp hmark
      simpa using all_eq_true.mp h.letters c hc
  obtain ⟨first,rest,rfl,hdigit⟩ := h.begins
  simp [assignment?,htake,hdigit]

/-! ## Blanks -/

section
variable {blank : Char} (hblank : isBlank blank = true)
include hblank

theorem lex_plain_blank (word : List Mark) (rest : List Char) :
    lex .plain word (blank :: rest) = (lex .between [] rest).map (word :: ·) := by
  have hne : blank ≠ '\\' := by
    rintro rfl
    cases hblank
  rw [lex.eq_def]
  split <;> simp_all

theorem lex_between_blank (word : List Mark) (rest : List Char) :
    lex .between word (blank :: rest) = lex .between [] rest := by
  have hne : blank ≠ '\\' := by
    rintro rfl
    cases hblank
  rw [lex.eq_def]
  split <;> simp_all

/-- Behind a line a blank begins another one. -/
theorem lex_append {mode : Mode} {word : List Mark} {line : List Char} {words : List (List Mark)}
    (h : lex mode word line = some words) (rest : List Char) :
    lex mode word (line ++ blank :: rest) = (split rest).map (words ++ ·) := by
  rw [split]
  fun_induction lex mode word line generalizing words
  case case1 =>
    cases h
    rw [List.nil_append,lex_between_blank hblank]
    exact Option.map_id'.symm
  case case2 word =>
    cases h
    exact lex_plain_blank hblank word rest
  case case17 word c line _ hc ih =>
    rw [List.cons_append,lex_between_blank hc]
    exact ih h
  case case22 word c line _ hc ih =>
    obtain ⟨others,hothers,rfl⟩ := Option.map_eq_some_iff.mp h
    rw [List.cons_append,lex_plain_blank hc,ih hothers,Option.map_map]
    rfl
  all_goals simp_all [lex]

theorem IsWord.split_append {text line : List Char} {word : List Mark} {words : List (List Mark)}
    (h : IsWord text word) (hline : split line = some words) {blank' : Char} (hblank' : isBlank blank' = true)
    (rest : List Char) :
    split (line ++ blank :: (text ++ blank' :: rest)) = (split rest).map (words ++ word :: ·) := by
  have hword : ShellWords.lex .between [] (text ++ blank' :: rest) = (split rest).map (word :: ·) := by
    rw [h.lex]
    exact lex_plain_blank hblank' word rest
  rw [split,lex_append hblank hline,split,hword,Option.map_map]
  rfl

end

end Mxterm.ShellWords
