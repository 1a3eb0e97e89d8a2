import Mathlib.Data.List.DropRight

/-! How cron reads a crontab: comments, settings of its environment, and jobs. -/
namespace Mxterm.CrontabJobs

open List

def isBlank (c : Char) : Bool := c == ' ' || c == '\t'

def skip (chars : List Char) : List Char := chars.dropWhile isBlank

/-- What stands between the blanks of a text. -/
def words (chars : List Char) : List (List Char) := (chars.splitOnP isBlank).filter (· ≠ [])

/-- The first words of a text, and what follows the blanks behind them. -/
def fields : ℕ → List Char → Option (List (List Char) × List Char)
  | 0, chars => some ([],chars)
  | n + 1, chars =>
    let word := chars.takeWhile fun c => ! isBlank c
    if word = [] then none else (fields n (skip (chars.drop word.length))).map (Prod.map (word :: ·) id)

/-- A line `NAME=value` sets a variable of the environment; there may be blanks before the sign. -/
def isSetting (line : List Char) : Bool :=
  let name := line.takeWhile fun c => ! isBlank c && c != '='
  name ≠ [] && (skip (line.drop name.length)).head? = some '='

/-- What cron makes of a command: a percent sign is a newline where no backslash stands before it. -/
def unescape : List Char → List Char
  | [] => []
  | '\\' :: '%' :: rest => '%' :: unescape rest
  | '%' :: rest => '\n' :: unescape rest
  | c :: rest => c :: unescape rest

structure Job where
  schedule : List (List Char)
  command : List Char
  deriving DecidableEq

/-- The job of a line, if it is one. -/
def readLine (line : List Char) : Option Job :=
  let line := skip line
  if line = [] ∨ line.head? = some '#' ∨ isSetting line then none
  else (fields (if line.head? = some '@' then 1 else 5) line).map fun (schedule,rest) => ⟨schedule,unescape rest⟩

def jobs (text : List Char) : List Job := (text.splitOn '\n').filterMap readLine

/-! ## Words -/

section
variable {c : Char} {chars rest word : List Char} {n : ℕ}

theorem words_append (h : isBlank c = true) (a b : List Char) : words (a ++ c :: b) = words a ++ words b := by
  rw [words,splitOnP_append_cons a b h,filter_append]
  rfl

theorem words_blank (h : isBlank c = true) (chars : List Char) : words (c :: chars) = words chars := by
  have hnil : words [] = [] := rfl
  rw [← nil_append (c :: chars),words_append h,hnil,nil_append]

theorem words_skip (chars : List Char) : words (skip chars) = words chars := by
  induction chars with
  | nil => rfl
  | cons c chars ih =>
    by_cases h : isBlank c = true
    · rw [words_blank h,← ih,skip,dropWhile_cons_of_pos h,skip]
    · rw [skip,dropWhile_cons_of_neg h]

theorem words_single (hne : word ≠ []) (h : ∀ c ∈ word, isBlank c = false) : words word = [word] := by
  rw [words,splitOnP_eq_singleton h]
  simp [hne]

/-- A text that does not begin with a blank begins with its first word. -/
theorem words_cons (hne : chars ≠ []) (hskip : skip chars = chars) :
    ∃ word more, word ≠ [] ∧ (∀ c ∈ word, isBlank c = false) ∧ words chars = word :: words more ∧
      (chars = word ∧ more = [] ∨ ∃ c, isBlank c = true ∧ chars = word ++ c :: more) := by
  let word := chars.takeWhile fun c => ! isBlank c
  have hword : ∀ c ∈ word, isBlank c = false := by
    intro c hc
    simpa using mem_takeWhile_imp hc
  have hchars : word ++ chars.dropWhile (fun c => ! isBlank c) = chars := takeWhile_append_dropWhile
  have hword_ne : word ≠ [] := by
    cases chars with
    | nil => exact absurd rfl hne
    | cons c chars =>
      have hc : isBlank c = false := by
        by_contra hblank
        have hlen := congrArg List.length hskip
        rw [skip,dropWhile_cons_of_pos (by simpa using hblank)] at hlen
        have := (dropWhile_sublist isBlank (l := chars)).length_le
        simp at hlen
        omega
      simp [word,hc]
  cases hrest : chars.dropWhile (fun c => ! isBlank c) with
  | nil =>
    rw [hrest,append_nil] at hchars
    exact ⟨word,[],hword_ne,hword,by rw [← hchars]; exact words_single hword_ne hword,.inl ⟨hchars.symm,rfl⟩⟩
  | cons c more =>
    have hc : isBlank c = true := by
      have := head?_dropWhile_not (fun c => ! isBlank c) chars
      rw [hrest] at this
      simpa using this
    rw [hrest] at hchars
    refine ⟨word,more,hword_ne,hword,?_,.inr ⟨c,hc,hchars.symm⟩⟩
    rw [← hchars,words_append hc,words_single hword_ne hword]
    rfl

theorem takeWhile_word (h : ∀ c ∈ word, isBlank c = false) (hc : isBlank c = true) (rest : List Char) :
    (word ++ c :: rest).takeWhile (fun c => ! isBlank c) = word := by
  rw [takeWhile_append_of_pos (by simpa using h)]
  simp [hc]

theorem skip_append (hne : skip chars ≠ []) (rest : List Char) : skip (chars ++ rest) = skip chars ++ rest := by
  induction chars with
  | nil => exact absurd rfl hne
  | cons c chars ih =>
    by_cases h : isBlank c = true
    · have hcons (chars : List Char) : skip (c :: chars) = skip chars := dropWhile_cons_of_pos h
      rw [hcons] at hne ⊢
      rw [cons_append,hcons]
      exact ih hne
    · rw [skip,skip,cons_append,dropWhile_cons_of_neg h,dropWhile_cons_of_neg h,cons_append]

theorem skip_append_of_nil (h : skip chars = []) (rest : List Char) : skip (chars ++ rest) = skip rest := by
  have hall : ∀ c ∈ chars, isBlank c = true := dropWhile_eq_nil_iff.mp h
  rw [skip,dropWhile_append_of_pos hall,skip]

theorem skip_skip (chars : List Char) : skip (skip chars) = skip chars := dropWhile_idempotent _ chars

/-- The words of a text in front of a blank are the fields of the line. -/
theorem fields_words (h : (words chars).length = n) (hrest : skip rest = rest) :
    fields n (skip (chars ++ ' ' :: rest)) = some (words chars,rest) := by
  induction n generalizing chars with
  | zero =>
    have hempty : skip chars = [] := by
      by_contra hne
      obtain ⟨word,more,-,-,heq,-⟩ := words_cons hne (skip_skip chars)
      rw [words_skip] at heq
      simp [heq] at h
    rw [skip_append_of_nil hempty,length_eq_zero_iff.mp h]
    exact congrArg (fun chars => some ([],chars)) hrest
  | succ n ih =>
    have hne : skip chars ≠ [] := by
      intro hempty
      rw [← words_skip,hempty] at h
      cases h
    obtain ⟨word,more,hword,hletters,heq,hshape⟩ := words_cons hne (skip_skip chars)
    rw [words_skip] at heq
    rw [heq] at h ⊢
    have hlen : (words more).length = n := by simpa using h
    have hsplit : ∃ c tail, isBlank c = true ∧ skip (chars ++ ' ' :: rest) = word ++ c :: tail ∧
        skip tail = skip (more ++ ' ' :: rest) := by
      rw [skip_append hne]
      rcases hshape with ⟨hall,rfl⟩ | ⟨c,hc,hall⟩
      · exact ⟨' ',rest,rfl,by rw [hall],rfl⟩
      · exact ⟨c,more ++ ' ' :: rest,hc,by rw [hall,append_assoc]; rfl,rfl⟩
    obtain ⟨c,tail,hc,hline,htail⟩ := hsplit
    have hdrop : skip ((word ++ c :: tail).drop word.length) = skip tail := by
      rw [drop_left,skip,dropWhile_cons_of_pos hc,skip]
    rw [hline,fields]
    simp only [takeWhile_word hletters hc,if_neg hword,hdrop,htail,ih hlen]
    rfl

theorem length_of_fields {n : ℕ} {chars rest : List Char} {schedule : List (List Char)}
    (h : fields n chars = some (schedule,rest)) : schedule.length = n := by
  induction n generalizing chars schedule with
  | zero =>
    cases h
    rfl
  | succ n ih =>
    rw [fields] at h
    split_ifs at h
    obtain ⟨⟨words,tail⟩,hwords,heq⟩ := Option.map_eq_some_iff.mp h
    cases heq
    rw [length_cons,ih hwords]

end

/-! ## Percent signs -/

def escape (text : List Char) : List Char := text.flatMap fun c => if c = '%' then ['\\','%'] else [c]

theorem unescape_cons {c : Char} {rest : List Char} (hslash : c = '\\' → rest.head? ≠ some '%')
    (hpercent : c ≠ '%') : unescape (c :: rest) = c :: unescape rest := by
  rw [unescape.eq_def]
  split <;> simp_all

theorem unescape_escape (text : List Char) : unescape (escape text) = text := by
  induction text with
  | nil => rfl
  | cons c text ih =>
    have hcons : escape (c :: text) = (if c = '%' then ['\\','%'] else [c]) ++ escape text := flatMap_cons
    rw [hcons]
    by_cases h : c = '%'
    · subst h
      simp [unescape,ih]
    · have hhead : (escape text).head? ≠ some '%' := by
        cases text with
        | nil => simp [escape]
        | cons d text =>
          by_cases hd : d = '%'
          · simp [escape,hd]
          · simp [escape,hd]
      rw [if_neg h,singleton_append,unescape_cons (fun _ => hhead) h,ih]

/-! ## Lines -/

theorem takeWhile_stop {p : Char → Bool} {c : Char} (hc : p c = false) (a b : List Char) :
    (a ++ c :: b).takeWhile p = a.takeWhile p := by
  induction a with
  | nil => simp [hc]
  | cons d a ih => simp only [cons_append,takeWhile_cons,ih]

/-- What follows a text behind a blank makes no setting of it. -/
theorem isSetting_append {rest : List Char} (hrest : (skip rest).head? ≠ some '=') (chars : List Char) :
    isSetting (chars ++ ' ' :: rest) = isSetting chars := by
  have hname : (chars ++ ' ' :: rest).takeWhile (fun c => ! isBlank c && c != '=') =
      chars.takeWhile fun c => ! isBlank c && c != '=' := takeWhile_stop rfl chars rest
  have hdrop : (chars ++ ' ' :: rest).drop (chars.takeWhile fun c => ! isBlank c && c != '=').length =
      chars.drop (chars.takeWhile fun c => ! isBlank c && c != '=').length ++ ' ' :: rest :=
    drop_append_of_le_length (takeWhile_sublist _).length_le
  rw [isSetting,hname,hdrop]
  congr 2
  rw [eq_iff_iff]
  by_cases hskip : skip (chars.drop (chars.takeWhile fun c => ! isBlank c && c != '=').length) = []
  · rw [skip_append_of_nil hskip,hskip]
    exact iff_of_false hrest (by simp)
  · rw [skip_append hskip]
    rw [head?_append_of_ne_nil _ hskip]

/-- A schedule that cron reads as it is meant. -/
def Readable (schedule : List Char) : Prop :=
  schedule.head? ≠ some '#' ∧ isSetting schedule = false ∧
    (words schedule).length = if schedule.head? = some '@' then 1 else 5

/-- A line of a schedule and a command is that job exactly where the schedule can be read. -/
theorem readLine_iff {schedule command : List Char} (hne : schedule ≠ []) (hskip : skip schedule = schedule)
    (hcommand : skip (escape command) = escape command) (hequals : (escape command).head? ≠ some '=') :
    readLine (schedule ++ ' ' :: escape command) = some ⟨words schedule,command⟩ ↔ Readable schedule := by
  have hline : skip (schedule ++ ' ' :: escape command) = schedule ++ ' ' :: escape command := by
    rw [skip_append (hskip.symm ▸ hne),hskip]
  have hhead : (schedule ++ ' ' :: escape command).head? = schedule.head? := head?_append_of_ne_nil _ hne
  rw [readLine]
  simp only [hline,hhead,isSetting_append (hcommand.symm ▸ hequals),Readable]
  by_cases hcomment : schedule.head? = some '#'
  · simp [hcomment]
  · by_cases hsetting : isSetting schedule = true
    · simp [hsetting]
    · rw [if_neg (by simp [hcomment,hsetting])]
      rw [Bool.not_eq_true] at hsetting
      constructor
      · intro h
        obtain ⟨⟨fields,rest⟩,hfields,hjob⟩ := Option.map_eq_some_iff.mp h
        obtain rfl : fields = words schedule := congrArg Job.schedule hjob
        exact ⟨hcomment,hsetting,length_of_fields hfields⟩
      · rintro ⟨-,-,hlength⟩
        have hfields := fields_words hlength hcommand
        rw [hline] at hfields
        rw [hfields,Option.map_some,unescape_escape]

theorem readLine_comment (chars : List Char) : readLine ('#' :: chars) = none := by
  rw [readLine]
  exact if_pos (.inr (.inl rfl))

end Mxterm.CrontabJobs
